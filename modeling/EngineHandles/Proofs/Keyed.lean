/-
# Lists with keys

Isolates, scope stacks and entries are kept in lists in which each element has a key of
its own.  The element found under a key splits such a list into elements with other keys,
so writing it or filtering it out leaves these alone.
-/

import Mathlib.Data.List.Nodup
import Mathlib.Data.Set.Card
import EngineHandles.Ident

namespace EngineHandles
namespace Keyed

variable {α κ : Type} [DecidableEq κ] {key : α → κ} {l pre post : List α} {k : κ} {x : α}

theorem not_mem_of_find?_eq_none (h : l.find? (fun e => key e == k) = none) : k ∉ l.map key := by
  intro hm
  obtain ⟨e, he, rfl⟩ := List.mem_map.1 hm
  exact List.find?_eq_none.1 h e he (beq_self_eq_true _)

/-- Each element is found under its key. -/
theorem find?_of_mem (hnd : (l.map key).Nodup) (hx : x ∈ l) (hk : key x = k) :
    l.find? (fun e => key e == k) = some x := by
  cases h : l.find? (fun e => key e == k) with
  | none => exact absurd (hk ▸ List.mem_map_of_mem hx) (not_mem_of_find?_eq_none h)
  | some y =>
    have hbeq := List.find?_some h
    have hy : key y = k := eq_of_beq hbeq
    rw [List.inj_on_of_nodup_map hnd (List.mem_of_find?_eq_some h) hx (hy.trans hk.symm)]

/-- The element under a key, and no other. -/
theorem exists_split (hnd : (l.map key).Nodup) (h : l.find? (fun e => key e == k) = some x) :
    ∃ pre post, l = pre ++ x :: post ∧ key x = k ∧ (∀ e ∈ pre, key e ≠ k) ∧
      ∀ e ∈ post, key e ≠ k := by
  obtain ⟨he, pre, post, hsplit, hpre⟩ := List.find?_eq_some_iff_append.1 h
  obtain rfl : key x = k := eq_of_beq he
  refine ⟨pre, post, hsplit, rfl, fun e hm => ?_, fun e hm hk => ?_⟩
  · have := hpre e hm
    rwa [Bool.not_eq_true', beq_eq_false_iff_ne] at this
  · rw [hsplit, List.map_append, List.map_cons, List.nodup_append, List.nodup_cons] at hnd
    exact hnd.2.1.1 (List.mem_map.2 ⟨e, hm, hk⟩)

/-- What is found after all elements were changed, but not their keys. -/
theorem find?_map (key : α → κ) {f : α → α} (hf : ∀ e, key (f e) = key e) (l : List α) (k : κ) :
    (l.map f).find? (fun e => key e == k) = (l.find? fun e => key e == k).map f := by
  rw [List.find?_map]
  congr 2
  funext e
  exact congrArg (· == k) (hf e)

/-- What is found after an element was written under its key, or added if the key was new. -/
theorem find?_write (key : α → κ) (l : List α) (y : α) (k : κ) :
    (if l.any fun e => key e == key y then l.map fun e => if key e = key y then y else e
      else l ++ [y]).find? (fun e => key e == k)
      = if k = key y then some y else l.find? fun e => key e == k := by
  split
  · next hany =>
    have hkey : ∀ e, key (if key e = key y then y else e) = key e := by
      intro e
      split
      · next he => exact he.symm
      · rfl
    rw [find?_map key hkey]
    cases hfind : l.find? fun e => key e == k with
    | none =>
      have hk : k ≠ key y := by
        rintro rfl
        obtain ⟨e, he, hte⟩ := List.any_eq_true.1 hany
        exact List.find?_eq_none.1 hfind e he hte
      rw [if_neg hk, Option.map_none]
    | some x =>
      have hbeq := List.find?_some hfind
      obtain rfl : key x = k := eq_of_beq hbeq
      rw [Option.map_some]
      split <;> rfl
  · next hno =>
    rw [List.find?_append]
    by_cases hk : k = key y
    · subst hk
      have hnone : (l.find? fun e => key e == key y) = none :=
        List.find?_eq_none.2 fun e he hte => hno (List.any_eq_true.2 ⟨e, he, hte⟩)
      rw [hnone]
      simp
    · have hne : (key y == k) = false := beq_eq_false_iff_ne.2 fun h => hk h.symm
      simp [hk, hne]

/-- Writing an element under its key leaves the keys distinct. -/
theorem nodup_write (hnd : (l.map key).Nodup) (y : α) :
    ((if l.any fun e => key e == key y then l.map fun e => if key e = key y then y else e
      else l ++ [y]).map key).Nodup := by
  split
  · rw [List.map_map]
    have hkey : key ∘ (fun e => if key e = key y then y else e) = key := by
      funext e
      rw [Function.comp_apply]
      split
      · next he => exact he.symm
      · rfl
    rw [hkey]
    exact hnd
  · next hno =>
    rw [List.map_append, List.nodup_append]
    refine ⟨hnd, List.nodup_singleton _, ?_⟩
    rintro x hx z hz rfl
    obtain ⟨e, he, rfl⟩ := List.mem_map.1 hx
    have hz : key e = key y := List.mem_singleton.1 hz
    exact hno (List.any_eq_true.2 ⟨e, he, beq_iff_eq.2 hz⟩)

/-- What is found after the element under a key was filtered out. -/
theorem find?_filter_ne (key : α → κ) (l : List α) (k k' : κ) :
    (l.filter fun e => key e != k').find? (fun e => key e == k)
      = if k = k' then none else l.find? fun e => key e == k := by
  rw [List.find?_filter]
  split
  · next hk =>
    subst hk
    rw [List.find?_eq_none]
    intro e _
    simp
  · next hk =>
    congr 1
    funext e
    by_cases he : key e = k
    · simp [he, hk]
    · simp [he]

/-- Writing the element under a key. -/
theorem map_split (key : α → κ) (hx : key x = k) (y : α)
    (hpre : ∀ e ∈ pre, key e ≠ k) (hpost : ∀ e ∈ post, key e ≠ k) :
    (pre ++ x :: post).map (fun e => if key e = k then y else e) = pre ++ y :: post := by
  have hid : ∀ l : List α, (∀ e ∈ l, key e ≠ k) →
      l.map (fun e => if key e = k then y else e) = l := by
    intro l hl
    have : l.map (fun e => if key e = k then y else e) = l.map id :=
      List.map_congr_left fun e he => if_neg (hl e he)
    rw [this, List.map_id]
  rw [List.map_append, List.map_cons, hid pre hpre, hid post hpost, if_pos hx]

/-- Filtering out the element under a key. -/
theorem filter_split (key : α → κ) (hx : key x = k) (hpre : ∀ e ∈ pre, key e ≠ k)
    (hpost : ∀ e ∈ post, key e ≠ k) :
    (pre ++ x :: post).filter (fun e => key e != k) = pre ++ post := by
  have hid : ∀ l : List α, (∀ e ∈ l, key e ≠ k) → l.filter (fun e => key e != k) = l :=
    fun l hl => List.filter_eq_self.2 fun e he => bne_iff_ne.2 (hl e he)
  have hout : ¬ (key x != k) = true := by
    rw [bne_iff_ne]
    exact not_not_intro hx
  rw [List.filter_append, List.filter_cons, if_neg hout, hid pre hpre, hid post hpost]

/-- Different things listed once each are as many as the list is long. -/
theorem ncard_of_nodup {α : Type} [DecidableEq α] {l : List α} (hnd : l.Nodup) {p : α → Prop}
    (hp : ∀ a, a ∈ l ↔ p a) : {a | p a}.ncard = l.length := by
  rw [← List.toFinset_card_of_nodup hnd, ← Set.ncard_coe_finset]
  congr 1
  ext a
  simp [hp]

end Keyed
end EngineHandles
