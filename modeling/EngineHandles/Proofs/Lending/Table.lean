/-
# Handle tables, entry by entry

What lending out a value and giving one back do to the entries of a handle table.  A
value is lent out by one entry, which holds nothing before, and under the generation that
the entry has then (`HandleTable.exists_insert`); giving it back empties the entry and
raises its generation (`HandleTable.remove_eq`).

Generations are counted by age: an entry starts at `1`, of age zero, and ages by one
whenever it is vacated; at `0`, the greatest age, it is retired.  So the entries
tell which handles were ever lent out (`HandleTable.HasLent`): those of a lower age than
their entry, and those under which a value can be found now.  A handle that is lent out is
never one of them.
-/

import EngineHandles.HandleTable
import EngineHandles.SlotAddr
import Mathlib.Data.List.Nodup

namespace EngineHandles
namespace HandleTable

variable {α : Type} {t : HandleTable α} {v : α} {h : UInt64} {i j g : UInt32} {e : HandleEntry α}

/-! ### The words of a handle -/

@[simp] theorem indexOf_pack (i g : UInt32) : indexOf (pack i g) = i := SlotAddr.slab_ofParts i g

@[simp] theorem generationOf_pack (i g : UInt32) : generationOf (pack i g) = g :=
  SlotAddr.offset_ofParts i g

@[simp] theorem pack_indexOf_generationOf (h : UInt64) : pack (indexOf h) (generationOf h) = h :=
  congrArg SlotAddr.raw (SlotAddr.ofParts_slab_offset ⟨h⟩)

theorem eq_pack_iff : h = pack i g ↔ indexOf h = i ∧ generationOf h = g := by
  constructor
  · rintro rfl
    exact ⟨indexOf_pack i g, generationOf_pack i g⟩
  · rintro ⟨rfl, rfl⟩
    exact (pack_indexOf_generationOf h).symm

/-- A handle with a generation is not zero. -/
theorem pack_ne_zero (i : UInt32) (hg : g ≠ 0) : pack i g ≠ 0 := by
  intro h0
  have hgen := generationOf_pack i g
  rw [h0] at hgen
  exact hg hgen.symm

/-- How often an entry was vacated, if its generation is `g`. -/
def age (g : UInt32) : Nat := (g - 1).toNat

/-- An entry that is not retired ages when it is vacated. -/
theorem age_succ (hg : g ≠ 0) : age (g + 1) = age g + 1 := by
  have hlt := g.toNat_lt
  have hpos : 0 < g.toNat := Nat.pos_of_ne_zero fun h0 => hg (UInt32.toNat_inj.1 h0)
  have hle : (1 : UInt32) ≤ g := by
    rw [UInt32.le_iff_toNat_le, UInt32.toNat_one]
    exact hpos
  rw [age, age, UInt32.toNat_sub_of_le _ _ hle, UInt32.add_sub_cancel, UInt32.toNat_one]
  omega

/-! ### Entries -/

theorem entry?_eq_none_iff : t.entry? i = none ↔ t.entries.size ≤ i.toNat :=
  Array.getElem?_eq_none_iff

theorem entry?_update (t : HandleTable α) (i : UInt32) (f : HandleEntry α → HandleEntry α)
    (j : UInt32) : entry? (t.update i f) j = if j = i then (t.entry? j).map f else t.entry? j := by
  unfold entry? update
  rw [Array.getElem?_modify]
  by_cases hj : j = i
  · rw [if_pos hj, if_pos (by rw [hj])]
  · rw [if_neg hj, if_neg fun hi => hj (UInt32.toNat_inj.1 hi.symm)]

/-- What can be found under a handle. -/
theorem get?_eq_some_iff : t.get? h = some v ↔ t.entry? (indexOf h) = some ⟨generationOf h, some v⟩ := by
  rw [get?, resolve?, Option.bind_eq_some_iff]
  constructor
  · rintro ⟨⟨g, value⟩, he, hv⟩
    obtain ⟨he, hg⟩ := Option.filter_eq_some_iff.1 he
    obtain rfl : g = generationOf h := eq_of_beq hg
    rw [he]
    exact congrArg (fun value => some (HandleEntry.mk _ value)) hv
  · intro he
    exact ⟨_, Option.filter_eq_some_iff.2 ⟨he, beq_self_eq_true _⟩, rfl⟩

theorem get?_congr {t' : HandleTable α} (he : entry? t' (indexOf h) = t.entry? (indexOf h)) :
    t'.get? h = t.get? h := by
  rw [get?, resolve?, he, get?, resolve?]

/-- Under a handle of an older generation nothing is found. -/
theorem get?_of_generation_ne (he : t.entry? (indexOf h) = some e)
    (hg : e.generation ≠ generationOf h) : t.get? h = none := by
  rw [Option.eq_none_iff_forall_ne_some]
  intro v hv
  rw [get?_eq_some_iff, he, Option.some.injEq] at hv
  exact hg (congrArg HandleEntry.generation hv)

theorem get?_of_noEntry (he : t.entry? (indexOf h) = none) : t.get? h = none := by
  rw [get?, resolve?, he]
  rfl

/-- The number of entries that hold a value. -/
def lent (t : HandleTable α) : Nat := t.entries.countP fun e => e.value.isSome

/-- A table whose vacant list names the free entries, in which a retired entry lends out
nothing, and every entry lends out a value, is free or is retired. -/
structure WellFormed (t : HandleTable α) : Prop where
  nodup : t.vacant.Nodup
  vacant : ∀ i ∈ t.vacant, ∃ g, t.entry? i = some ⟨g, none⟩ ∧ g ≠ 0
  retired : ∀ i v, t.entry? i ≠ some ⟨0, some v⟩
  counted : t.lent + t.vacant.length + t.retired = t.entries.size

/-- A handle that was lent out at some time. -/
def HasLent (t : HandleTable α) (h : UInt64) : Prop :=
  ∃ e, t.entry? (indexOf h) = some e ∧
    (age (generationOf h) < age e.generation ∨ generationOf h = e.generation ∧ e.value.isSome = true)

/-! ### One operation -/

theorem insert_of_vacant_eq_nil (hvac : t.vacant = []) (v : α) :
    t.insert v = (pack (.ofNat t.entries.size) firstGeneration,
      { t with entries := t.entries.push ⟨firstGeneration, some v⟩ }) := by
  rw [insert, hvac]

theorem insert_of_vacant_eq_cons {rest : List UInt32} (hvac : t.vacant = i :: rest)
    (he : t.entry? i = some e) (v : α) :
    t.insert v = (pack i e.generation,
      { t.update i fun e => { e with value := some v } with vacant := rest }) := by
  rw [insert, hvac]
  dsimp only
  rw [he]
  rfl

theorem remove_of_get? (hv : t.get? h = some v) :
    t.remove h = (some v, { t.update (indexOf h) fun _ => ⟨generationOf h + 1, none⟩ with
      vacant := if generationOf h + 1 = 0 then t.vacant else indexOf h :: t.vacant }) := by
  rw [remove, hv]
  dsimp only
  split <;> rfl

/-- Under a handle that resolves to nothing, nothing is given back. -/
theorem remove_of_get?_eq_none (hv : t.get? h = none) : t.remove h = (none, t) := by
  rw [remove, hv]

/-- **Lending out a value:** one entry, which is new or free, holds it from now on. -/
theorem exists_insert (hw : t.WellFormed) (hroom : t.entries.size < UInt32.size) (v : α) :
    ∃ i g, (t.insert v).1 = pack i g ∧ g ≠ 0 ∧
      (t.vacant = [] ∧ (t.insert v).2.vacant = [] ∧ t.entry? i = none ∨
        t.vacant = i :: (t.insert v).2.vacant ∧ t.entry? i = some ⟨g, none⟩) ∧
      ∀ j, entry? (t.insert v).2 j = if j = i then some ⟨g, some v⟩ else t.entry? j := by
  rcases hvac : t.vacant with _ | ⟨i, rest⟩
  · rw [insert_of_vacant_eq_nil hvac]
    have hsize : (UInt32.ofNat t.entries.size).toNat = t.entries.size :=
      UInt32.toNat_ofNat_of_lt' hroom
    refine ⟨.ofNat t.entries.size, firstGeneration, rfl, by decide, .inl ⟨rfl, hvac, ?_⟩,
      fun j => ?_⟩
    · exact entry?_eq_none_iff.2 (Nat.le_of_eq hsize.symm)
    · have hj : j.toNat = t.entries.size ↔ j = .ofNat t.entries.size := by
        rw [← UInt32.toNat_inj, hsize]
      unfold entry?
      dsimp only
      rw [Array.getElem?_push]
      simp only [hj]
  · obtain ⟨g, he, hg⟩ := hw.vacant i (hvac ▸ List.mem_cons_self)
    rw [insert_of_vacant_eq_cons hvac he]
    refine ⟨i, g, rfl, hg, .inr ⟨rfl, he⟩, fun j => ?_⟩
    refine (entry?_update t i _ j).trans ?_
    split
    · next hj => rw [hj, he]; rfl
    · rfl

/-- **Giving a value back:** its entry is empty from now on. -/
theorem entry?_remove (hv : t.get? h = some v) (j : UInt32) :
    entry? (t.remove h).2 j
      = if j = indexOf h then some ⟨generationOf h + 1, none⟩ else t.entry? j := by
  rw [remove_of_get? hv]
  refine (entry?_update t _ _ j).trans ?_
  split
  · next hj => rw [hj, get?_eq_some_iff.1 hv]; rfl
  · rfl

/-! ### Counting entries -/

theorem countP_update (he : t.entry? i = some e) (f : HandleEntry α → HandleEntry α)
    (p : HandleEntry α → Bool) :
    (t.update i f).entries.countP p + (p e).toNat = t.entries.countP p + (p (f e)).toNat := by
  have hlt : i.toNat < t.entries.toList.length := by
    rw [Array.length_toList]
    exact (Array.getElem?_eq_some_iff.1 he).1
  obtain ⟨before, c, after, hl, hlen, hmod⟩ := List.exists_of_modify f hlt
  obtain rfl : c = e := by
    rw [HandleTable.entry?, ← Array.getElem?_toList, hl, ← hlen,
      List.getElem?_append_right (Nat.le_refl _), Nat.sub_self] at he
    exact Option.some.inj he
  rw [update]
  dsimp only
  rw [← Array.countP_toList, ← Array.countP_toList, Array.toList_modify, hmod, hl]
  simp only [List.countP_append, List.countP_cons]
  cases p c <;> cases p (f c) <;> simp <;> omega

theorem size_eq_lent (hw : t.WellFormed) : t.size = t.lent := by
  rw [size, ← hw.counted]
  omega

/-! ### What lending keeps -/

/-- **A value that is lent out** is found under its handle, and nothing else changes. -/
theorem get?_insert (hw : t.WellFormed) (hroom : t.entries.size < UInt32.size) (v : α)
    (h : UInt64) : (t.insert v).2.get? h = if h = (t.insert v).1 then some v else t.get? h := by
  obtain ⟨i, g, hhandle, -, hold, hentry⟩ := exists_insert hw hroom v
  rw [hhandle]
  by_cases hi : indexOf h = i
  · have he := hentry (indexOf h)
    rw [if_pos hi] at he
    by_cases hg : g = generationOf h
    · rw [if_pos (eq_pack_iff.2 ⟨hi, hg.symm⟩), get?_eq_some_iff, he, hg]
    · have hnone : t.get? h = none := by
        rcases hold with ⟨-, -, hold⟩ | ⟨-, hold⟩
        · exact get?_of_noEntry (hi ▸ hold)
        · exact get?_of_generation_ne (hi ▸ hold) hg
      rw [if_neg fun hh => hg (eq_pack_iff.1 hh).2.symm, hnone]
      exact get?_of_generation_ne he hg
  · rw [if_neg fun hh => hi (eq_pack_iff.1 hh).1]
    exact get?_congr (by rw [hentry, if_neg hi])

/-- **A value that is given back** is no longer found, and nothing else changes. -/
theorem get?_remove (t : HandleTable α) (h h' : UInt64) :
    (t.remove h).2.get? h' = if h' = h then none else t.get? h' := by
  cases hv : t.get? h with
  | none =>
    rw [remove_of_get?_eq_none hv]
    split
    · next he => rw [he, hv]
    · rfl
  | some v =>
    have he := entry?_remove hv (indexOf h')
    by_cases hi : indexOf h' = indexOf h
    · rw [if_pos hi] at he
      by_cases hg : generationOf h' = generationOf h
      · have hsame : h' = h := by
          rw [← pack_indexOf_generationOf h, eq_pack_iff]
          exact ⟨hi, hg⟩
        rw [if_pos hsame]
        refine get?_of_generation_ne he ?_
        rw [hg]
        simp
      · have hne : h' ≠ h := fun hh => hg (by rw [hh])
        have hold : t.get? h' = none := by
          refine get?_of_generation_ne (e := ⟨generationOf h, some v⟩) ?_ (Ne.symm hg)
          rw [hi, get?_eq_some_iff.1 hv]
        rw [if_neg hne, hold, Option.eq_none_iff_forall_ne_some]
        intro u hu
        rw [get?_eq_some_iff, he, Option.some.injEq] at hu
        exact Option.some_ne_none u (congrArg HandleEntry.value hu).symm
    · rw [if_neg hi] at he
      rw [if_neg fun hh => hi (by rw [hh])]
      exact get?_congr he

/-- An entry that lends out a value is not retired. -/
theorem WellFormed.generationOf_ne_zero (hw : t.WellFormed) (hv : t.get? h = some v) :
    generationOf h ≠ 0 := by
  intro h0
  have he := get?_eq_some_iff.1 hv
  rw [h0] at he
  exact hw.retired _ _ he

/-- Every value lent out is one entry more that lends out a value. -/
theorem lent_insert (hw : t.WellFormed) (v : α) : (t.insert v).2.lent = t.lent + 1 := by
  rcases hvac : t.vacant with _ | ⟨i, rest⟩
  · rw [insert_of_vacant_eq_nil hvac, lent, lent, Array.countP_push]
    rfl
  · obtain ⟨g, he, -⟩ := hw.vacant i (hvac ▸ List.mem_cons_self)
    rw [insert_of_vacant_eq_cons hvac he]
    exact countP_update he (fun e => { e with value := some v }) fun e => e.value.isSome

theorem retired_insert (hw : t.WellFormed) (v : α) : (t.insert v).2.retired = t.retired := by
  rcases hvac : t.vacant with _ | ⟨i, rest⟩
  · rw [insert_of_vacant_eq_nil hvac, retired, retired, Array.countP_push]
    rfl
  · obtain ⟨g, he, hg⟩ := hw.vacant i (hvac ▸ List.mem_cons_self)
    rw [insert_of_vacant_eq_cons hvac he]
    have hcount := countP_update he (fun e => { e with value := some v })
      fun e => e.generation == 0 && e.value.isNone
    rw [beq_false_of_ne hg] at hcount
    exact hcount

/-- Every value given back is one entry less that lends out a value. -/
theorem lent_remove (hv : t.get? h = some v) : (t.remove h).2.lent + 1 = t.lent := by
  rw [remove_of_get? hv]
  exact countP_update (get?_eq_some_iff.1 hv) (fun _ => ⟨generationOf h + 1, none⟩)
    fun e => e.value.isSome

theorem retired_remove (hw : t.WellFormed) (hv : t.get? h = some v) :
    (t.remove h).2.retired = t.retired + if generationOf h + 1 = 0 then 1 else 0 := by
  have hcount := countP_update (get?_eq_some_iff.1 hv) (fun _ => ⟨generationOf h + 1, none⟩)
    fun e => e.generation == 0 && e.value.isNone
  rw [remove_of_get? hv]
  rw [beq_false_of_ne (hw.generationOf_ne_zero hv)] at hcount
  refine hcount.trans ?_
  rw [retired]
  by_cases h0 : generationOf h + 1 = 0
  · simp [h0]
  · simp [h0]

theorem size_entries_insert_le (t : HandleTable α) (v : α) :
    (t.insert v).2.entries.size ≤ t.entries.size + 1 := by
  rw [insert]
  split
  · exact Nat.le_trans (Nat.le_of_eq Array.size_modify) (Nat.le_succ _)
  · exact Nat.le_of_eq (Array.size_push _)

theorem size_entries_remove (t : HandleTable α) (h : UInt64) :
    (t.remove h).2.entries.size = t.entries.size := by
  cases hv : t.get? h with
  | none => rw [remove_of_get?_eq_none hv]
  | some v =>
    rw [remove_of_get? hv]
    exact Array.size_modify

namespace WellFormed

theorem empty : ({} : HandleTable α).WellFormed where
  nodup := List.nodup_nil
  vacant := List.forall_mem_nil _
  retired i v he := by simp [HandleTable.entry?] at he
  counted := rfl

theorem insert (hw : t.WellFormed) (hroom : t.entries.size < UInt32.size) (v : α) :
    (t.insert v).2.WellFormed := by
  obtain ⟨i, g, -, hg, hold, hentry⟩ := exists_insert hw hroom v
  -- what is left of the vacant list is free, and other than the entry lent out
  have hrest : (t.insert v).2.vacant.Nodup ∧
      ∀ j ∈ (t.insert v).2.vacant, j ∈ t.vacant ∧ j ≠ i := by
    rcases hold with ⟨-, hnil, -⟩ | ⟨hcons, -⟩
    · rw [hnil]
      exact ⟨List.nodup_nil, List.forall_mem_nil _⟩
    · have hnodup := hw.nodup
      rw [hcons, List.nodup_cons] at hnodup
      refine ⟨hnodup.2, fun j hj => ⟨?_, ?_⟩⟩
      · rw [hcons]
        exact List.mem_cons_of_mem _ hj
      · rintro rfl
        exact hnodup.1 hj
  refine ⟨hrest.1, fun j hj => ?_, fun j u hu => ?_, ?_⟩
  · obtain ⟨hj, hne⟩ := hrest.2 j hj
    rw [hentry, if_neg hne]
    exact hw.vacant j hj
  · rw [hentry] at hu
    split at hu
    · cases hu
      exact hg rfl
    · exact hw.retired j u hu
  · have hcounted := hw.counted
    rw [lent_insert hw, retired_insert hw]
    rcases hvac : t.vacant with _ | ⟨k, rest⟩
    · rw [insert_of_vacant_eq_nil hvac, Array.size_push]
      rw [hvac] at hcounted
      simp only [hvac]
      omega
    · obtain ⟨g', he, -⟩ := hw.vacant k (hvac ▸ List.mem_cons_self)
      rw [insert_of_vacant_eq_cons hvac he, update]
      rw [hvac, List.length_cons] at hcounted
      simp only [Array.size_modify]
      omega

theorem remove (hw : t.WellFormed) (h : UInt64) : (t.remove h).2.WellFormed := by
  cases hv : t.get? h with
  | none =>
    rw [remove_of_get?_eq_none hv]
    exact hw
  | some v =>
    have hentry := entry?_remove hv
    have hvac : (t.remove h).2.vacant
        = if generationOf h + 1 = 0 then t.vacant else indexOf h :: t.vacant := by
      rw [remove_of_get? hv]
    -- an entry that lends out a value is not free
    have hnew : indexOf h ∉ t.vacant := by
      intro hmem
      obtain ⟨g, he, -⟩ := hw.vacant _ hmem
      rw [get?_eq_some_iff.1 hv] at he
      cases he
    refine ⟨?_, fun j hj => ?_, fun j u hu => ?_, ?_⟩
    · rw [hvac]
      split
      · exact hw.nodup
      · exact List.nodup_cons.2 ⟨hnew, hw.nodup⟩
    · rw [hentry]
      split
      · next hji =>
        refine ⟨_, rfl, ?_⟩
        intro h0
        rw [hvac, if_pos h0, hji] at hj
        exact hnew hj
      · next hji =>
        refine hw.vacant j ?_
        rw [hvac] at hj
        split at hj
        · exact hj
        · exact (List.mem_cons.1 hj).resolve_left hji
    · rw [hentry] at hu
      split at hu
      · simp at hu
      · exact hw.retired j u hu
    · have hcounted := hw.counted
      have hlent := lent_remove hv
      rw [retired_remove hw hv, size_entries_remove, hvac]
      split
      · omega
      · rw [List.length_cons]
        omega

end WellFormed

/-! ### Handles of the past -/

theorem hasLent_of_get? (hv : t.get? h = some v) : t.HasLent h :=
  ⟨_, get?_eq_some_iff.1 hv, .inr ⟨rfl, rfl⟩⟩

/-- **A handle that is lent out is new.** -/
theorem not_hasLent_insert (hw : t.WellFormed) (hroom : t.entries.size < UInt32.size) (v : α) :
    ¬ t.HasLent (t.insert v).1 := by
  obtain ⟨i, g, hhandle, -, hold, -⟩ := exists_insert hw hroom v
  rw [hhandle]
  rintro ⟨e, he, hpast⟩
  rw [indexOf_pack] at he
  rw [generationOf_pack] at hpast
  rcases hold with ⟨-, -, hold⟩ | ⟨-, hold⟩
  · rw [hold] at he
    cases he
  · rw [hold] at he
    cases he
    rcases hpast with hage | ⟨-, hvalue⟩
    · exact Nat.lt_irrefl _ hage
    · cases hvalue

theorem insert_ne_zero (hw : t.WellFormed) (hroom : t.entries.size < UInt32.size) (v : α) :
    (t.insert v).1 ≠ 0 := by
  obtain ⟨i, g, hhandle, hg, -⟩ := exists_insert hw hroom v
  rw [hhandle]
  exact pack_ne_zero i hg

namespace HasLent

theorem insert (hh : t.HasLent h) (hw : t.WellFormed) (hroom : t.entries.size < UInt32.size)
    (v : α) : (t.insert v).2.HasLent h := by
  obtain ⟨i, g, -, -, hold, hentry⟩ := exists_insert hw hroom v
  obtain ⟨e, he, hpast⟩ := hh
  by_cases hi : indexOf h = i
  · -- the entry was free, so the handle is of a lower age
    rw [hi] at he
    rcases hold with ⟨-, -, hold⟩ | ⟨-, hold⟩
    · rw [hold] at he
      cases he
    · rw [hold] at he
      cases he
      refine ⟨⟨g, some v⟩, by rw [hentry, if_pos hi], .inl ?_⟩
      exact hpast.resolve_right fun hvalue => by cases hvalue.2
  · exact ⟨e, by rw [hentry, if_neg hi, he], hpast⟩

theorem remove (hh : t.HasLent h) (hw : t.WellFormed) (h' : UInt64) :
    (t.remove h').2.HasLent h := by
  cases hv : t.get? h' with
  | none =>
    rw [remove_of_get?_eq_none hv]
    exact hh
  | some v =>
    have hentry := entry?_remove hv
    obtain ⟨e, he, hpast⟩ := hh
    by_cases hi : indexOf h = indexOf h'
    · rw [hi, get?_eq_some_iff.1 hv] at he
      cases he
      refine ⟨_, by rw [hentry, if_pos hi], .inl ?_⟩
      rw [age_succ (hw.generationOf_ne_zero hv)]
      rcases hpast with hage | ⟨hgen, -⟩
      · exact Nat.lt_succ_of_lt hage
      · rw [hgen]
        exact Nat.lt_succ_self _
    · exact ⟨e, by rw [hentry, if_neg hi, he], hpast⟩

end HasLent
end HandleTable
end EngineHandles
