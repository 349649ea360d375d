/-
# The cascade, one operation at a time

A queue of operations is run with as many steps as the operations and the destructors of
all live payloads can need.  Each step takes one operation off, and what it puts on is no
longer in a destructor, so the number of steps is always enough and any larger number
gives the same heap (`Heap.settleWithin_congr`).  From here on a queue is read by its
equation (`Heap.settle_cons`), proofs about it are by `Heap.settle_induction`, and a queue
may be cut anywhere (`Heap.settle_append`).
-/

import EngineHandles.Proofs.Heap.Cells

namespace EngineHandles
namespace Heap

theorem dormant_eq (h : Heap) : h.dormant = h.inDestructors List.length := by
  rw [dormant, inDestructors, ← Array.foldl_toList, List.sum_eq_foldl, List.foldl_map]

/-- What a release makes due leaves the destructors. -/
theorem inDestructors_letGo {M : Type} [AddCommMonoid M] (f : List TallyOp → M) (hf : f [] = 0)
    (h : Heap) (o : ObjectId) (k : RefKind) :
    (h.letGo o k).2.2.inDestructors f + f (h.letGo o k).2.1 = h.inDestructors f := by
  unfold letGo
  split
  · rw [hf, add_zero]
  · dsimp only
    split
    · rw [inDestructors_destroy f hf, inDestructors_adjust]
    · rw [hf, add_zero, inDestructors_adjust]

/-- What an operation makes due leaves the destructors. -/
theorem inDestructors_step {M : Type} [AddCommMonoid M] (f : List TallyOp → M) (hf : f [] = 0)
    (h : Heap) (op : TallyOp) :
    (h.step op).2.inDestructors f + f (h.step op).1 = h.inDestructors f := by
  cases op with
  | retain o k => rw [step, hf, add_zero, retain, inDestructors_adjust]
  | weaken o => rw [step, hf, add_zero, weaken, inDestructors_adjust]
  | strengthen o => rw [step, hf, add_zero, strengthen, inDestructors_adjust]
  | release o k => exact inDestructors_letGo f hf h o k

/-- The number of steps that a queue can need falls with each step. -/
theorem length_add_dormant_step (op : TallyOp) (rest : List TallyOp) (h : Heap) :
    ((h.step op).1 ++ rest).length + (h.step op).2.dormant = rest.length + h.dormant := by
  have := inDestructors_step List.length rfl h op
  rw [dormant_eq, dormant_eq, List.length_append]
  omega

/-- **There are always enough steps.** -/
theorem settleWithin_congr {m n : Nat} {ops : List TallyOp} {h : Heap}
    (hm : ops.length + h.dormant ≤ m) (hn : ops.length + h.dormant ≤ n) :
    settleWithin m ops h = settleWithin n ops h := by
  induction m generalizing n ops h with
  | zero =>
    obtain rfl : ops = [] := List.eq_nil_of_length_eq_zero (by omega)
    cases n <;> rfl
  | succ m ih =>
    cases ops with
    | nil => cases n <;> rfl
    | cons op rest =>
      have hlt := length_add_dormant_step op rest h
      rw [List.length_cons] at hm hn
      obtain ⟨n, rfl⟩ : ∃ n', n = n' + 1 := ⟨n - 1, by omega⟩
      show settleWithin m ((h.step op).1 ++ rest) (h.step op).2
        = settleWithin n ((h.step op).1 ++ rest) (h.step op).2
      exact ih (by omega) (by omega)

@[simp] theorem settle_nil (h : Heap) : h.settle [] = h := rfl

/-- **How a queue is run:** what an operation makes due goes before the rest. -/
theorem settle_cons (op : TallyOp) (rest : List TallyOp) (h : Heap) :
    h.settle (op :: rest) = (h.step op).2.settle ((h.step op).1 ++ rest) := by
  have hlt := length_add_dormant_step op rest h
  have hstep : h.settle (op :: rest)
      = settleWithin (rest.length + h.dormant) ((h.step op).1 ++ rest) (h.step op).2 := by
    rw [settle, List.length_cons, Nat.add_right_comm, settleWithin]
  rw [hstep]
  cases hq : (h.step op).1 ++ rest with
  | nil =>
    cases rest.length + h.dormant <;> rfl
  | cons op' rest' =>
    rw [settle]
    rw [hq] at hlt
    exact settleWithin_congr (by omega) (Nat.le_refl _)

/-- Induction along the running of a queue. -/
theorem settle_induction {P : List TallyOp → Heap → Prop} (nil : ∀ h, P [] h)
    (cons : ∀ op rest h, P ((h.step op).1 ++ rest) (h.step op).2 → P (op :: rest) h)
    (ops : List TallyOp) (h : Heap) : P ops h := by
  obtain ⟨n, hn⟩ : ∃ n, n = ops.length + h.dormant := ⟨_, rfl⟩
  induction n generalizing ops h with
  | zero =>
    obtain rfl : ops = [] := List.eq_nil_of_length_eq_zero (by omega)
    exact nil h
  | succ n ih =>
    cases ops with
    | nil => exact nil h
    | cons op rest =>
      have hlt := length_add_dormant_step op rest h
      rw [List.length_cons] at hn
      exact cons op rest h (ih _ _ (by omega))

/-! ### The journal -/

/-- A release that destroys its object says so in the journal, and no other does. -/
theorem journal_letGo (h : Heap) (o : ObjectId) (k : RefKind) :
    (h.letGo o k).2.2.journal.toList
      = h.journal.toList ++ if (h.letGo o k).1 = true then [.payloadDropped o] else [] := by
  unfold letGo
  split
  · simp
  · dsimp only
    split
    · exact journal_destroy _ o
    · simp [adjust]

/-- A release that destroys nothing sets nothing off. -/
theorem letGo_due (h : Heap) (o : ObjectId) (k : RefKind) (hd : (h.letGo o k).1 = false) :
    (h.letGo o k).2.1 = [] := by
  unfold letGo at hd ⊢
  split
  · rfl
  · next t ht =>
    rw [ht] at hd
    dsimp only at hd ⊢
    split at hd
    · cases hd
    · next hz => rw [if_neg hz]

/-- **Which release destroys:** the one that takes the last reference. -/
theorem release_fst (h : Heap) {o : ObjectId} (hd : (h.cell o).isDestroyed = false) {k : RefKind}
    (ho : 0 < ((h.cell o).tally.count k).toNat) :
    (h.release o k).1 = true
      ↔ (h.cell o).tally.strong.toNat + (h.cell o).tally.weak.toNat = 1 := by
  obtain ⟨rest, hrest, hcount⟩ := Tally.exists_takeOne? ho
  have hfst : (h.release o k).1 = rest.isZero := by
    show (h.letGo o k).1 = rest.isZero
    rw [letGo, hrest, hd]
    dsimp only
    rw [Bool.not_false, Bool.and_true]
    cases rest.isZero <;> rfl
  have hsum : (h.cell o).tally.strong.toNat + (h.cell o).tally.weak.toNat
      = (rest.count .strong).toNat + (rest.count .weak).toNat + 1 := by
    have hstrong : (h.cell o).tally.strong.toNat = _ := hcount .strong
    have hweak : (h.cell o).tally.weak.toNat = _ := hcount .weak
    rw [hstrong, hweak]
    cases k with
    | strong =>
      rw [if_pos rfl, if_neg (by simp)]
      omega
    | weak =>
      rw [if_pos rfl, if_neg (by simp)]
      omega
  rw [hfst, Tally.isZero_iff, hsum]
  constructor
  · intro hzero
    rw [hzero, hzero]
  · intro hone l
    cases l <;> omega

/-- Running operations only adds to the journal. -/
theorem exists_journal_settle (ops : List TallyOp) (h : Heap) :
    ∃ later, (h.settle ops).journal.toList = h.journal.toList ++ later := by
  induction ops, h using settle_induction with
  | nil h => exact ⟨[], (List.append_nil _).symm⟩
  | cons op rest h ih =>
    obtain ⟨later, hlater⟩ := ih
    obtain ⟨now, hnow⟩ : ∃ now, (h.step op).2.journal.toList = h.journal.toList ++ now := by
      cases op with
      | release o k => exact ⟨_, h.journal_letGo o k⟩
      | retain o k => exact ⟨[], (List.append_nil _).symm⟩
      | weaken o => exact ⟨[], (List.append_nil _).symm⟩
      | strengthen o => exact ⟨[], (List.append_nil _).symm⟩
    refine ⟨now ++ later, ?_⟩
    rw [settle_cons, hlater, hnow, List.append_assoc]

/-- What a release adds to the journal: if it destroyed its object the drop of that, and
then whatever this set off. -/
theorem journal_release (h : Heap) (o : ObjectId) (k : RefKind) :
    if (h.release o k).1 = true then
      ∃ later, (h.release o k).2.journal.toList
        = h.journal.toList ++ .payloadDropped o :: later
    else (h.release o k).2.journal = h.journal := by
  have hnow := h.journal_letGo o k
  have hdue := h.letGo_due o k
  show if (h.letGo o k).1 = true then ∃ later,
      ((h.letGo o k).2.2.settle (h.letGo o k).2.1).journal.toList
        = h.journal.toList ++ .payloadDropped o :: later
    else ((h.letGo o k).2.2.settle (h.letGo o k).2.1).journal = h.journal
  split
  · next hd =>
    rw [if_pos hd] at hnow
    obtain ⟨later, hlater⟩ := exists_journal_settle (h.letGo o k).2.1 (h.letGo o k).2.2
    refine ⟨later, ?_⟩
    rw [hlater, hnow, List.append_assoc]
    rfl
  · next hd =>
    rw [if_neg hd, List.append_nil] at hnow
    rw [hdue (Bool.eq_false_iff.2 hd), settle_nil]
    exact Array.toList_inj.1 hnow

theorem settle_append (xs ys : List TallyOp) (h : Heap) :
    h.settle (xs ++ ys) = (h.settle xs).settle ys := by
  induction xs, h using settle_induction with
  | nil h => rfl
  | cons op rest h ih =>
    rw [List.cons_append, settle_cons, settle_cons, ← List.append_assoc]
    exact ih

/-! An operation is the queue of it alone. -/

theorem settle_release (o : ObjectId) (k : RefKind) (h : Heap) :
    h.settle [.release o k] = (h.release o k).2 := by
  rw [settle_cons, List.append_nil]
  rfl

theorem settle_retain (o : ObjectId) (k : RefKind) (h : Heap) :
    h.settle [.retain o k] = h.retain o k := by
  rw [settle_cons]
  rfl

theorem settle_weaken (o : ObjectId) (h : Heap) : h.settle [.weaken o] = h.weaken o := by
  rw [settle_cons]
  rfl

theorem settle_strengthen (o : ObjectId) (h : Heap) :
    h.settle [.strengthen o] = h.strengthen o := by
  rw [settle_cons]
  rfl

end Heap
end EngineHandles
