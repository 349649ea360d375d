/-
# Registries and lists of enters

The registry of an isolate keeps a number and a link for each thread, and the thread keeps
the list of its enters.  What the registry is to say of a thread can be read off the list
(`listed`): how often the isolate occurs, and what stands just below its first occurrence.

The enter that is appended, and the last occurrence that is taken out, change what is read
off the list as `Registry.enter`, `Registry.exit` and `Registry.relink` change the registry
(`Registry.Lists.enter`, `Registry.Lists.exit`, `Registry.Lists.relink`).
-/

import Mathlib.Algebra.Group.Nat.Defs
import EngineHandles.Isolate.Registry
import EngineHandles.Proofs.Keyed

namespace EngineHandles
namespace Registry

variable {P : Type} {r : Registry P} {t u : ThreadKey}

/-! ### Entries of all threads -/

theorem get?_update (r : Registry P) (t u : ThreadKey) (f : RegistryEntry P → RegistryEntry P)
    (hf : ∀ e, (f e).thread = e.thread) :
    (r.update t f).get? u = if u = t then (r.get? t).map f else r.get? u := by
  have hkey : ∀ e : RegistryEntry P, (if e.thread = t then f e else e).thread = e.thread := by
    intro e
    split
    · exact hf e
    · rfl
  have hmap := Keyed.find?_map RegistryEntry.thread hkey r.entries u
  show (r.update t f).entries.find? (fun e => e.thread == u) = _
  rw [update, hmap]
  show (r.get? u).map _ = _
  by_cases hu : u = t
  · subst hu
    rw [if_pos rfl]
    cases hget : r.get? u with
    | none => rfl
    | some e =>
      have he : e.thread = u := eq_of_beq (List.find?_some hget :)
      rw [Option.map_some, Option.map_some, if_pos he]
  · rw [if_neg hu]
    cases hget : r.get? u with
    | none => rfl
    | some e =>
      have he : e.thread = u := eq_of_beq (List.find?_some hget :)
      have hne : e.thread ≠ t := he ▸ hu
      rw [Option.map_some, if_neg hne]

theorem get?_erase (r : Registry P) (t u : ThreadKey) :
    (r.erase t).get? u = if u = t then none else r.get? u :=
  Keyed.find?_filter_ne RegistryEntry.thread r.entries u t

/-- What a registry knows of a thread after an enter. -/
theorem get?_enter (r : Registry P) (t : ThreadKey) (previous : Option P) (u : ThreadKey) :
    (r.enter t previous).2.get? u
      = if u = t then
          some (match r.get? t with
            | some e => { e with count := e.count + 1 }
            | none => ⟨t, 1, previous⟩)
        else r.get? u := by
  rw [enter, enterWith]
  cases hget : r.get? t with
  | some e =>
    have hupdate := get?_update r t u (fun e => { e with count := e.count + 1 }) fun _ => rfl
    rw [hget] at hupdate
    exact hupdate
  | none =>
    have happend : (r.entries ++ [(⟨t, 1, previous⟩ : RegistryEntry P)]).find?
        (fun e => e.thread == u) = (r.get? u).or _ := List.find?_append
    refine happend.trans ?_
    by_cases hu : u = t
    · subst hu
      rw [hget]
      simp
    · have hne : (t == u) = false := beq_eq_false_iff_ne.2 fun h => hu h.symm
      simp [hu, hne]

/-- How often a thread is inside after an enter. -/
theorem count_enter (r : Registry P) (t : ThreadKey) (previous : Option P) :
    (r.enter t previous).1 = ((r.get? t).map RegistryEntry.count).elim 1 (· + 1) ∧
      ((r.enter t previous).2.get? t).map RegistryEntry.count
        = some (((r.get? t).map RegistryEntry.count).elim 1 (· + 1)) := by
  rw [get?_enter, if_pos rfl, enter, enterWith]
  cases r.get? t <;> exact ⟨rfl, rfl⟩

/-- An exit leaves the entries of other threads alone. -/
theorem get?_exit_of_ne (r : Registry P) (hu : u ≠ t) : (r.exit t).2.get? u = r.get? u := by
  unfold exit
  split
  · rfl
  · next e _ =>
    dsimp only
    split
    · have hupdate := get?_update r t u (fun e => { e with count := e.count - 1 }) fun _ => rfl
      exact hupdate.trans (if_neg hu)
    · exact (r.get?_erase t u).trans (if_neg hu)

/-- What a registry knows of a thread after undoing one of its enters. -/
theorem exit_of_get? {e : RegistryEntry P} (hget : r.get? t = some e) :
    (r.exit t).1.isSome = true ∧
      (r.exit t).2.get? t = if e.count - 1 > 0 then some { e with count := e.count - 1 } else none := by
  unfold exit
  rw [hget]
  dsimp only
  split
  · have hupdate := get?_update r t t (fun e => { e with count := e.count - 1 }) fun _ => rfl
    rw [if_pos rfl, hget] at hupdate
    exact ⟨rfl, hupdate⟩
  · exact ⟨rfl, (r.get?_erase t t).trans (if_pos rfl)⟩

theorem exit_of_get?_eq_none (hget : r.get? t = none) : r.exit t = (none, r) := by
  rw [exit, hget]

theorem get?_relink (r : Registry P) (t : ThreadKey) (previous : Option P) (u : ThreadKey) :
    (r.relink t previous).2.get? u
      = if u = t then (r.get? t).map fun e => { e with previous } else r.get? u :=
  get?_update r t u _ fun _ => rfl

end Registry

/-! ### Lists of enters -/

section Listed

variable {P : Type} [DecidableEq P] {l p q : List P} {i j : P}

/-- What stands just below the first occurrence of `i` in the enters `l`, the oldest first. -/
def below (l : List P) (i : P) : Option P := (l.takeWhile fun j => j ≠ i).getLast?

/-- What the registry of `i` is to say of a thread with the enters `l`: how often the thread
is inside, and what it was in before, unless it is outside. -/
def listed (l : List P) (i : P) : Option (Nat × Option P) :=
  if i ∈ l then some (l.count i, below l i) else none

/-- Takes the last occurrence of `i` out of a list. -/
def removeLast (i : P) (l : List P) : List P := (l.reverse.erase i).reverse

theorem below_split (hp : i ∉ p) (q : List P) : below (p ++ i :: q) i = p.getLast? := by
  have hall : ∀ j ∈ p, decide (j ≠ i) = true := by
    intro j hj
    simp only [ne_eq, decide_eq_true_eq]
    rintro rfl
    exact hp hj
  rw [below, List.takeWhile_append_of_pos hall, List.takeWhile_cons_of_neg (by simp),
    List.append_nil]

/-- What comes on top does not matter for what is below. -/
theorem below_append (hi : i ∈ l) (l' : List P) : below (l ++ l') i = below l i := by
  obtain ⟨p, q, rfl, hp⟩ := List.eq_append_cons_of_mem hi
  rw [List.append_assoc, List.cons_append, below_split hp, below_split hp]

theorem listed_of_mem (hi : i ∈ l) : listed l i = some (l.count i, below l i) := if_pos hi

theorem listed_of_not_mem (hi : i ∉ l) : listed l i = none := if_neg hi

theorem listed_concat_of_ne (l : List P) (hj : j ≠ i) : listed (l ++ [i]) j = listed l j := by
  by_cases hmem : j ∈ l
  · rw [listed_of_mem hmem, listed_of_mem (List.mem_append_left _ hmem), below_append hmem,
      List.count_append, List.count_singleton, beq_eq_false_iff_ne.2 hj.symm]
    rfl
  · have hmem' : j ∉ l ++ [i] := by simp [hmem, hj]
    rw [listed_of_not_mem hmem, listed_of_not_mem hmem']

omit [DecidableEq P] in
/-- A member of a list, split at its last occurrence. -/
theorem exists_split_last (hi : i ∈ l) : ∃ p q, l = p ++ i :: q ∧ i ∉ q := by
  obtain ⟨q, p, hsplit, hq⟩ := List.eq_append_cons_of_mem (List.mem_reverse.2 hi)
  refine ⟨p.reverse, q.reverse, ?_, fun h => hq (List.mem_reverse.1 h)⟩
  rw [← List.reverse_reverse l, hsplit]
  simp

theorem removeLast_split (hq : i ∉ q) (p : List P) : removeLast i (p ++ i :: q) = p ++ q := by
  have hq' : i ∉ q.reverse := fun h => hq (List.mem_reverse.1 h)
  have hrev : (p ++ i :: q).reverse = q.reverse ++ i :: p.reverse := by simp
  rw [removeLast, hrev, List.erase_append_right _ hq', List.erase_cons_head]
  simp

/-- **Whose link changes:** of all that stay, only what moves into the gap, if it does not
stand further below. -/
theorem listed_remove (hj : j ≠ i) (hgap : q.head? = some j → j ∈ p) :
    listed (p ++ q) j = listed (p ++ i :: q) j := by
  by_cases hp : j ∈ p
  · rw [listed_of_mem (List.mem_append_left _ hp), listed_of_mem (List.mem_append_left _ hp),
      below_append hp, below_append hp, List.count_append, List.count_append,
      List.count_cons_of_ne hj.symm]
  · by_cases hq : j ∈ q
    · -- something else fills the gap, and is still above what `j` is linked to, or is that
      obtain ⟨mid, top, rfl, hmid⟩ := List.eq_append_cons_of_mem hq
      have hne : mid ≠ [] := by
        rintro rfl
        exact hp (hgap rfl)
      have hbelow : below (p ++ (mid ++ j :: top)) j = mid.getLast? := by
        rw [← List.append_assoc, below_split (by simp [hp, hmid]),
          List.getLast?_append_of_ne_nil _ hne]
      have hbelow' : below (p ++ i :: (mid ++ j :: top)) j = mid.getLast? := by
        have hassoc : p ++ i :: (mid ++ j :: top) = (p ++ i :: mid) ++ j :: top := by simp
        rw [hassoc, below_split (by simp [hp, hmid, hj]),
          List.getLast?_append_of_ne_nil _ (List.cons_ne_nil i mid), List.getLast?_cons_of_ne_nil hne]
      have hcount : (p ++ (mid ++ j :: top)).count j = (p ++ i :: (mid ++ j :: top)).count j := by
        simp [List.count_cons_of_ne hj.symm]
      rw [listed_of_mem (by simp), listed_of_mem (by simp), hbelow, hbelow', hcount]
    · rw [listed_of_not_mem (by simp [hp, hq]), listed_of_not_mem (by simp [hp, hq, hj])]

/-- What moves into the gap that `2` leaves is linked to `1`, unless it stands below as well. -/
example : listed (removeLast 2 [1, 2, 3]) 3 = some (1, some 1) ∧
    listed (removeLast 2 [3, 1, 2, 3]) 3 = listed [3, 1, 2, 3] 3 := by decide

end Listed

/-! ### The registry and the list -/

namespace Registry

variable {P : Type} [DecidableEq P] {r : Registry P} {t : ThreadKey} {l p q : List P} {i j : P}

/-- The registry of `i` says of a thread what its enters say. -/
def Lists (r : Registry P) (t : ThreadKey) (l : List P) (i : P) : Prop :=
  (r.get? t).map (fun e => (e.count.toNat, e.previous)) = listed l i

namespace Lists

/-- What the registry says of a thread that is inside. -/
theorem of_mem (h : r.Lists t l i) (hi : i ∈ l) :
    ∃ e, r.get? t = some e ∧ e.count.toNat = l.count i ∧ e.previous = below l i := by
  rw [Lists, listed_of_mem hi] at h
  obtain ⟨e, he, hpair⟩ := Option.map_eq_some_iff.1 h
  obtain ⟨hcount, hprev⟩ := Prod.mk.inj hpair
  exact ⟨e, he, hcount, hprev⟩

theorem of_not_mem (h : r.Lists t l i) (hi : i ∉ l) : r.get? t = none := by
  rw [Lists, listed_of_not_mem hi] at h
  exact Option.map_eq_none_iff.1 h

theorem count_eq (h : r.Lists t l i) : (r.count t).toNat = l.count i := by
  unfold count
  by_cases hi : i ∈ l
  · obtain ⟨e, he, hcount, -⟩ := h.of_mem hi
    rw [he]
    exact hcount
  · rw [h.of_not_mem hi, List.count_eq_zero_of_not_mem hi]
    rfl

/-- **An enter** is appended to the list. -/
theorem enter (h : r.Lists t l i) (hl : l.count i + 1 < 2 ^ 32) :
    (r.enter t l.getLast?).2.Lists t (l ++ [i]) i := by
  have hcount : (l ++ [i]).count i = l.count i + 1 := by simp
  rw [Lists, listed_of_mem (by simp), hcount, get?_enter, if_pos rfl, Option.map_some]
  by_cases hi : i ∈ l
  · obtain ⟨e, he, hcount, hprev⟩ := h.of_mem hi
    have hadd : (e.count + 1).toNat = l.count i + 1 := by
      rw [UInt32.toNat_add, hcount]
      exact Nat.mod_eq_of_lt hl
    rw [he, below_append hi, ← hprev, ← hadd]
  · rw [h.of_not_mem hi, below_split hi, List.count_eq_zero_of_not_mem hi]
    rfl

/-- **An exit** takes the last occurrence out of the list. -/
theorem exit (h : r.Lists t (p ++ i :: q) i) (hq : i ∉ q) :
    (r.exit t).1.isSome = true ∧ (r.exit t).2.Lists t (p ++ q) i := by
  obtain ⟨e, he, hcount, hprev⟩ := h.of_mem (by simp)
  have hcount : e.count.toNat = p.count i + 1 := by
    rw [hcount, List.count_append, List.count_cons_self, List.count_eq_zero_of_not_mem hq]
  have hsub : (e.count - 1).toNat = p.count i := by
    have hle : (1 : UInt32) ≤ e.count := by
      rw [UInt32.le_iff_toNat_le, hcount]
      exact Nat.le_add_left 1 _
    rw [UInt32.toNat_sub_of_le _ _ hle, hcount]
    rfl
  obtain ⟨hsome, hget⟩ := exit_of_get? he
  refine ⟨hsome, ?_⟩
  rw [Lists, hget]
  by_cases hp : i ∈ p
  · have hpos : e.count - 1 > 0 := by
      rw [gt_iff_lt, UInt32.lt_iff_toNat_lt, hsub]
      exact List.count_pos_iff.2 hp
    rw [if_pos hpos, listed_of_mem (List.mem_append_left _ hp), Option.map_some, hsub, hprev,
      below_append hp, below_append hp, List.count_append, List.count_eq_zero_of_not_mem hq]
    rfl
  · have hzero : ¬ e.count - 1 > 0 := by
      rw [gt_iff_lt, UInt32.lt_iff_toNat_lt, hsub, List.count_eq_zero_of_not_mem hp]
      exact Nat.lt_irrefl 0
    rw [if_neg hzero, listed_of_not_mem (by simp [hp, hq])]
    rfl

/-- **What moves into the gap** of an exit, and does not stand further below, is linked to
what is below the gap. -/
theorem relink (h : r.Lists t (p ++ i :: j :: q) j) (hj : j ≠ i) (hp : j ∉ p) :
    (r.relink t p.getLast?).2.Lists t (p ++ j :: q) j := by
  obtain ⟨e, he, hcount, -⟩ := h.of_mem (by simp)
  rw [Lists, get?_relink, if_pos rfl, he, listed_of_mem (by simp), below_split hp,
    Option.map_some, Option.map_some, hcount, List.count_append, List.count_append,
    List.count_cons_of_ne hj.symm]

end Lists
end Registry
end EngineHandles
