/-
# The host's ledger

The host changes tallies directly, between the operations of isolates and from within
weak callbacks.  A ledger notes which references it holds, and the objects to which there
was a reference at some time.  The host plays fair if each operation is covered by its
ledger, that is, if it releases or re-kinds only references that it holds
(`Ledger.Covers`), and if no object ever has `2 ^ 32` references (`Heap.Fits`).
-/

import EngineHandles.Proofs.Heap.Books

namespace EngineHandles

/-- What the host holds, and the objects that were referred to at some time. -/
structure Ledger where
  holds : Account := 0
  met : ObjectId → Prop := fun _ => False

/-- Whether every object has fewer than `2 ^ 32` references, if `A` are those that
payloads do not own. -/
def Heap.Fits (h : Heap) (A : Account) : Prop := ∀ o, (A + h.owned).total o < 2 ^ 32

namespace Ledger

/-- What an operation makes of the host's ledger, if the host may do it. -/
inductive Covers (strict : Prop) (h : Heap) : TallyOp → Ledger → Ledger → Prop where
  | retain (L : Ledger) (o : ObjectId) (k : RefKind) (ho : h.Admits strict o) :
      Covers strict h (.retain o k) L ⟨L.holds + .one o k, fun x => L.met x ∨ x = o⟩
  | release (L : Ledger) (o : ObjectId) (k : RefKind) :
      Covers strict h (.release o k) ⟨L.holds + .one o k, L.met⟩ L
  | weaken (L : Ledger) (o : ObjectId) :
      Covers strict h (.weaken o) ⟨L.holds + .one o .strong, L.met⟩ ⟨L.holds + .one o .weak, L.met⟩
  | strengthen (L : Ledger) (o : ObjectId) :
      Covers strict h (.strengthen o) ⟨L.holds + .one o .weak, L.met⟩
        ⟨L.holds + .one o .strong, L.met⟩

/-- What operations in order make of the host's ledger, if the host may do them while
others hold `F`. -/
inductive CoversAll (strict : Prop) (F : Account) :
    Heap → List TallyOp → Ledger → Ledger → Prop where
  | nil (h : Heap) (L : Ledger) : CoversAll strict F h [] L L
  | cons {h : Heap} {op : TallyOp} {rest : List TallyOp} {L L₁ L₂ : Ledger}
      (first : Covers strict h op L L₁) (fits : (h.settle [op]).Fits (L₁.holds + F))
      (others : CoversAll strict F (h.settle [op]) rest L₁ L₂) :
      CoversAll strict F h (op :: rest) L L₂

variable {strict : Prop} {h : Heap} {F : Account} {L L' : Ledger}

/-- The host's operations keep the books. -/
theorem Covers.books {op : TallyOp} (hc : Covers strict h op L L')
    (hfits : (h.settle [op]).Fits (L'.holds + F)) (hb : h.Books strict L.met (L.holds + F)) :
    (h.settle [op]).Books strict L'.met (L'.holds + F) := by
  cases hc with
  | retain _ o k ho =>
    have hone := hfits o
    dsimp only at hone ⊢
    rw [Heap.settle_retain] at hone ⊢
    rw [Heap.retain, Heap.owned_adjust, add_right_comm L.holds] at hone
    rw [add_right_comm L.holds]
    exact hb.retain ho hone
  | release _ o k =>
    rw [add_right_comm] at hb
    rw [Heap.settle_release]
    exact hb.release
  | weaken L o =>
    rw [add_right_comm] at hb ⊢
    rw [Heap.settle_weaken]
    exact hb.weaken
  | strengthen L o =>
    rw [add_right_comm] at hb ⊢
    rw [Heap.settle_strengthen]
    exact hb.strengthen

theorem CoversAll.books {ops : List TallyOp} (hc : CoversAll strict F h ops L L')
    (hb : h.Books strict L.met (L.holds + F)) :
    (h.settle ops).Books strict L'.met (L'.holds + F) := by
  induction hc with
  | nil => exact hb
  | cons first fits _ ih =>
    rw [← List.singleton_append, Heap.settle_append]
    exact ih (first.books fits hb)

/-- What was referred to is not forgotten. -/
theorem Covers.met {op : TallyOp} (hc : Covers strict h op L L') {o : ObjectId} (ho : L.met o) :
    L'.met o := by
  cases hc with
  | retain => exact .inl ho
  | release => exact ho
  | weaken => exact ho
  | strengthen => exact ho

theorem CoversAll.met {ops : List TallyOp} (hc : CoversAll strict F h ops L L') {o : ObjectId}
    (ho : L.met o) : L'.met o := by
  induction hc with
  | nil => exact ho
  | cons first _ _ ih => exact ih (first.met ho)

end Ledger
end EngineHandles
