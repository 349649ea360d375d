/-
# Cells and tallies

What the primitive changes of a heap do to one object, and what they leave alone.  The
words of a tally are read as natural numbers: adding to one that is not full adds one,
and taking from one that is not zero takes one.

Sums over all destructors, such as the work that is left in them or the references they
will release, change in the same way whatever is summed (`Heap.inDestructors`): only the
making and the destruction of an object matter.
-/

import EngineHandles.Heap.Basic
import Mathlib.Algebra.BigOperators.Group.List.Basic
import Mathlib.Algebra.Group.Nat.Defs
import Mathlib.Tactic.Abel

namespace EngineHandles
namespace Tally

theorem toNat_count_add {t : Tally} {k : RefKind} (h : (t.count k).toNat + 1 < 2 ^ 32)
    (l : RefKind) :
    ((t.add k).count l).toNat = (t.count l).toNat + if l = k then 1 else 0 := by
  have hadd : ∀ x : UInt32, x.toNat + 1 < 2 ^ 32 → (x + 1).toNat = x.toNat + 1 := fun x hx => by
    rw [UInt32.toNat_add, UInt32.toNat_one, Nat.mod_eq_of_lt hx]
  cases k <;> cases l <;> first | exact hadd _ h | rfl

/-- A tally that is not zero gives up one referrer. -/
theorem exists_takeOne? {t : Tally} {k : RefKind} (h : 0 < (t.count k).toNat) :
    ∃ rest, t.takeOne? k = some rest ∧
      ∀ l, (t.count l).toNat = (rest.count l).toNat + if l = k then 1 else 0 := by
  have hsub : ∀ x : UInt32, 0 < x.toNat → x ≠ 0 ∧ x.toNat = (x - 1).toNat + 1 := by
    intro x hx
    have hle : (1 : UInt32) ≤ x := by
      rw [UInt32.le_iff_toNat_le, UInt32.toNat_one]
      exact hx
    constructor
    · rintro rfl
      exact absurd hx (Nat.lt_irrefl 0)
    · rw [UInt32.toNat_sub_of_le _ _ hle, UInt32.toNat_one]
      omega
  cases k with
  | strong =>
    obtain ⟨hne, hpred⟩ := hsub t.strong h
    refine ⟨_, if_neg hne, fun l => ?_⟩
    cases l with
    | strong => exact hpred
    | weak => rfl
  | weak =>
    obtain ⟨hne, hpred⟩ := hsub t.weak h
    refine ⟨_, if_neg hne, fun l => ?_⟩
    cases l with
    | strong => rfl
    | weak => exact hpred

theorem isZero_iff (t : Tally) : t.isZero = true ↔ ∀ k, (t.count k).toNat = 0 := by
  have hzero : ∀ x : UInt32, x.toNat = 0 ↔ x = 0 := fun x => by
    rw [← UInt32.toNat_inj, UInt32.toNat_zero]
  rw [isZero, Bool.and_eq_true, beq_iff_eq, beq_iff_eq]
  constructor
  · rintro ⟨hs, hw⟩ k
    cases k with
    | strong => exact (hzero _).2 hs
    | weak => exact (hzero _).2 hw
  · intro h
    exact ⟨(hzero _).1 (h .strong), (hzero _).1 (h .weak)⟩

end Tally

namespace Heap

variable {h : Heap} {o x : ObjectId}

theorem contains_iff : h.contains o = true ↔ o.index < h.cells.size := decide_eq_true_iff

theorem cell_of_not_contains (ho : ¬ h.contains o = true) : h.cell o = {} := by
  rw [contains_iff, Nat.not_lt] at ho
  rw [cell, Array.getElem?_eq_none ho, Option.getD_none]

/-- A change of one cell. -/
theorem cell_modify (ho : h.contains o = true) (f : Cell → Cell) (j : Array Moment) :
    cell ⟨h.cells.modify o.index f, j⟩ x = if x = o then f (h.cell o) else h.cell x := by
  rw [contains_iff] at ho
  rw [cell, cell, cell, Array.getElem?_modify, Array.getElem?_eq_getElem ho]
  by_cases he : x = o
  · subst he
    rw [if_pos rfl, if_pos rfl, Array.getElem?_eq_getElem ho]
    rfl
  · have hi : ¬ o.index = x.index := fun hi => he (by cases x; cases o; cases hi; rfl)
    rw [if_neg hi, if_neg he]

theorem cell_adjust (ho : h.contains o = true) (f : Tally → Tally) :
    (h.adjust o f).cell x
      = if x = o then { h.cell o with tally := f (h.cell o).tally } else h.cell x :=
  cell_modify ho _ _

theorem adjust_of_not_contains (ho : ¬ h.contains o = true) (f : Tally → Tally) :
    h.adjust o f = h := by
  rw [contains_iff, Nat.not_lt] at ho
  rw [adjust]
  congr 1
  refine Array.ext_getElem? fun i => ?_
  rw [Array.getElem?_modify]
  split
  · next hi =>
    subst hi
    rw [Array.getElem?_eq_none ho]
    rfl
  · rfl

@[simp] theorem contains_adjust (h : Heap) (o : ObjectId) (f : Tally → Tally) (x : ObjectId) :
    (h.adjust o f).contains x = h.contains x := by
  rw [contains, contains, adjust, Array.size_modify]

/-- A change of tallies drops no payload. -/
theorem payload_adjust (h : Heap) (o : ObjectId) (f : Tally → Tally) (x : ObjectId) :
    ((h.adjust o f).cell x).payload = (h.cell x).payload := by
  by_cases ho : h.contains o = true
  · rw [cell_adjust ho]
    split
    · next he => rw [he]
    · rfl
  · rw [adjust_of_not_contains ho]

theorem cell_destroy (ho : h.contains o = true) :
    (h.destroy o).2.cell x = if x = o then { h.cell o with payload := none } else h.cell x :=
  cell_modify ho _ _

@[simp] theorem contains_destroy (h : Heap) (o x : ObjectId) :
    (h.destroy o).2.contains x = h.contains x := by
  simp [contains, destroy, record]

theorem journal_destroy (h : Heap) (o : ObjectId) :
    (h.destroy o).2.journal.toList = h.journal.toList ++ [.payloadDropped o] :=
  Array.toList_push

theorem contains_make (h : Heap) (p : Payload) (x : ObjectId) :
    (h.make p).2.contains x = true ↔ h.contains x = true ∨ x = (h.make p).1 := by
  rw [contains_iff, contains_iff, make]
  simp only [Array.size_push, Nat.lt_succ_iff_lt_or_eq]
  refine or_congr_right ?_
  cases x
  exact ⟨fun h => by rw [← h], fun h => congrArg ObjectId.index h⟩

theorem cell_make (h : Heap) (p : Payload) (x : ObjectId) :
    (h.make p).2.cell x = if x = (h.make p).1 then { payload := some p } else h.cell x := by
  rw [cell, cell, make]
  dsimp only
  rw [Array.getElem?_push]
  by_cases he : x = ⟨h.cells.size⟩
  · subst he
    rw [if_pos rfl, if_pos rfl]
    rfl
  · rw [if_neg he, if_neg fun hi => he (by cases x; exact congrArg _ hi)]

theorem not_contains_make (h : Heap) (p : Payload) : ¬ h.contains (h.make p).1 = true := by
  rw [contains_iff]
  exact Nat.lt_irrefl _

/-- An object that still has its payload was made. -/
theorem contains_of_payload {p : Payload} (hp : (h.cell o).payload = some p) :
    h.contains o = true := by
  by_contra ho
  rw [cell_of_not_contains ho] at hp
  cases hp

/-! ### Sums over all destructors -/

section Sums

variable {M : Type} [AddCommMonoid M]

/-- The sum of `f` over the destructors of all objects. -/
def inDestructors (f : List TallyOp → M) (h : Heap) : M :=
  (h.cells.toList.map fun c => f c.destructor).sum

@[simp] theorem inDestructors_record (f : List TallyOp → M) (h : Heap) (m : Moment) :
    (h.record m).inDestructors f = h.inDestructors f := rfl

theorem inDestructors_make (f : List TallyOp → M) (h : Heap) (p : Payload) :
    (h.make p).2.inDestructors f = h.inDestructors f + f p.onDrop := by
  rw [inDestructors, make]
  dsimp only
  rw [Array.toList_push, List.map_append, List.sum_append, List.map_singleton,
    List.sum_singleton]
  rfl

/-- A change of one cell changes the sum by what the cell contributes. -/
theorem inDestructors_modify (f : List TallyOp → M) (ho : h.contains o = true) (g : Cell → Cell)
    (j : Array Moment) :
    inDestructors f ⟨h.cells.modify o.index g, j⟩ + f (h.cell o).destructor
      = h.inDestructors f + f (g (h.cell o)).destructor := by
  rw [contains_iff, ← Array.length_toList] at ho
  obtain ⟨l, c, m, hl, hlen, hmod⟩ := List.exists_of_modify g ho
  have hcell : h.cell o = c := by
    rw [cell, ← Array.getElem?_toList, hl, ← hlen, List.getElem?_append_right (Nat.le_refl _),
      Nat.sub_self]
    rfl
  rw [inDestructors, inDestructors, Array.toList_modify, hmod, hl, hcell]
  simp only [List.map_append, List.map_cons, List.sum_append, List.sum_cons]
  abel

@[simp] theorem inDestructors_adjust (f : List TallyOp → M) (h : Heap) (o : ObjectId)
    (g : Tally → Tally) : (h.adjust o g).inDestructors f = h.inDestructors f := by
  rw [inDestructors, inDestructors, adjust, Array.toList_modify]
  congr 1
  refine List.ext_getElem? fun i => ?_
  rw [List.getElem?_map, List.getElem?_map, List.getElem?_modify]
  cases h.cells.toList[i]? with
  | none => rfl
  | some c => split <;> rfl

/-- The destruction of an object takes its destructor out of the sum. -/
theorem inDestructors_destroy (f : List TallyOp → M) (hf : f [] = 0) (h : Heap) (o : ObjectId) :
    (h.destroy o).2.inDestructors f + f (h.destroy o).1 = h.inDestructors f := by
  by_cases ho : h.contains o = true
  · have := inDestructors_modify f ho (fun c => { c with payload := none }) h.journal
    rw [show Cell.destructor { h.cell o with payload := none } = [] from rfl, hf, add_zero] at this
    exact this
  · have hnil : (h.destroy o).1 = [] := by rw [destroy, cell_of_not_contains ho]; rfl
    have hsize := ho
    rw [contains_iff, Nat.not_lt, ← Array.length_toList] at hsize
    rw [hnil, hf, add_zero, destroy, inDestructors_record, inDestructors, inDestructors,
      Array.toList_modify, List.modify_eq_self hsize]

end Sums
end Heap
end EngineHandles
