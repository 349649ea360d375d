/-
# Objects that somebody refers to

The release that destroys an object takes its last reference.  So as long as nobody refers to a
destroyed object anew, an object is destroyed only if there is no reference to it (`Heap.Sound`).
This is kept by all operations that make no new reference (`Heap.Wanes`, `Heap.Sound.wanes`), and
by those of a host that plays fair, while somebody else refers to the object
(`Ledger.CoversAll.sound`): it is then not destroyed, whatever is released
(`Heap.Books.alive_of_sound`).
-/

import EngineHandles.Proofs.Heap.Cascade
import EngineHandles.Proofs.Heap.Ledger

namespace EngineHandles

namespace Tally

variable {t : Tally}

theorem takeOne?_of_isZero (h : t.isZero = true) (k : RefKind) : t.takeOne? k = none := by
  obtain ⟨hs, hw⟩ := Bool.and_eq_true_iff.1 h
  cases k with
  | strong => exact if_pos (eq_of_beq hs)
  | weak => exact if_pos (eq_of_beq hw)

theorem move_of_isZero (h : t.isZero = true) (k l : RefKind) : t.move k l = t := by
  rw [move, takeOne?_of_isZero h]

end Tally

/-- Whether an operation makes a new reference. -/
def TallyOp.retains : TallyOp → Bool
  | .retain _ _ => true
  | .release _ _ | .weaken _ | .strengthen _ => false

namespace Heap

variable {h h' h'' : Heap} {o x : ObjectId} {k : RefKind} {ops : List TallyOp}

/-! ### Operations that make no new reference -/

/-- One heap comes from another by operations that make no new reference. -/
def Wanes (h h' : Heap) : Prop := ∃ ops, (∀ op ∈ ops, op.retains = false) ∧ h' = h.settle ops

namespace Wanes

theorem refl (h : Heap) : Wanes h h := ⟨[], nofun, rfl⟩

theorem trans (hw : Wanes h h') (hw' : Wanes h' h'') : Wanes h h'' := by
  obtain ⟨ops, hops, rfl⟩ := hw
  obtain ⟨ops', hops', rfl⟩ := hw'
  refine ⟨ops ++ ops', fun op hop => ?_, (settle_append ops ops' h).symm⟩
  exact (List.mem_append.1 hop).elim (hops op) (hops' op)

theorem one (h : Heap) {op : TallyOp} (hop : op.retains = false) : Wanes h (h.settle [op]) :=
  ⟨[op], List.forall_mem_singleton.2 hop, rfl⟩

theorem release (h : Heap) (o : ObjectId) (k : RefKind) : Wanes h (h.release o k).2 :=
  h.settle_release o k ▸ one h rfl

theorem weaken (h : Heap) (o : ObjectId) : Wanes h (h.weaken o) :=
  h.settle_weaken o ▸ one h rfl

theorem strengthen (h : Heap) (o : ObjectId) : Wanes h (h.strengthen o) :=
  h.settle_strengthen o ▸ one h rfl

end Wanes

/-! ### Destroyed objects have no reference -/

/-- A heap in which an object, if it is destroyed, has no reference. -/
structure Sound (o : ObjectId) (h : Heap) : Prop where
  owns : h.OwnsStrong
  bare : (h.cell o).isDestroyed = true → (h.cell o).tally.isZero = true

namespace Sound

theorem of_alive (howns : h.OwnsStrong) (ho : (h.cell o).isDestroyed = false) : Sound o h :=
  ⟨howns, fun hd => by rw [ho] at hd; cases hd⟩

/-- A change to a tally that leaves one alone which is zero. -/
theorem adjust (hs : Sound o h) (x : ObjectId) {f : Tally → Tally}
    (hf : (h.cell o).tally.isZero = true → (f (h.cell o).tally).isZero = true) :
    Sound o (h.adjust x f) := by
  have hrecounts := Recounts.adjust h x f
  refine ⟨hrecounts.ownsStrong hs.owns, fun hd => ?_⟩
  rw [hrecounts.isDestroyed_eq] at hd
  by_cases hx : o = x
  · subst hx
    by_cases ho : h.contains o = true
    · rw [tally_adjust ho]
      exact hf (hs.bare hd)
    · rw [adjust_of_not_contains ho]
      exact hs.bare hd
  · rw [hrecounts.others o hx]
    exact hs.bare hd

/-- A new reference, which is not one to a destroyed object. -/
theorem retain (hs : Sound o h) (hx : x = o → (h.cell o).isDestroyed = false) (k : RefKind) :
    Sound o (h.retain x k) := by
  have hrecounts := Recounts.adjust h x (·.add k)
  refine ⟨hrecounts.ownsStrong hs.owns, fun hd => ?_⟩
  have hd : ((h.adjust x (·.add k)).cell o).isDestroyed = true := hd
  rw [hrecounts.isDestroyed_eq] at hd
  have hne : o ≠ x := by
    intro he
    rw [hx he.symm] at hd
    cases hd
  show ((h.adjust x (·.add k)).cell o).tally.isZero = true
  rw [hrecounts.others o hne]
  exact hs.bare hd

theorem letGo (hs : Sound o h) (x : ObjectId) (k : RefKind) : Sound o (h.letGo x k).2.2 := by
  rcases h.letGo_cases x k with ⟨-, he⟩ | ⟨rest, hrest, ⟨-, he⟩ | ⟨hzero, hd, he⟩⟩
  · rw [he]
    exact hs
  · rw [he]
    by_cases hx : x = o
    · subst hx
      refine Sound.adjust (f := fun _ => rest) hs x fun hz => ?_
      rw [Tally.takeOne?_of_isZero hz] at hrest
      cases hrest
    · have hrecounts := Recounts.adjust h x fun _ => rest
      refine ⟨hrecounts.ownsStrong hs.owns, fun hd => ?_⟩
      rw [hrecounts.others o (Ne.symm hx)] at hd ⊢
      exact hs.bare hd
  · -- the object that is destroyed has no reference left
    refine ⟨ownsStrong_letGo hs.owns x k, ?_⟩
    have hmade : (h.adjust x fun _ => rest).contains x = true := by
      rw [contains_adjust]
      exact contains_of_alive hd
    have hcell : (h.letGo x k).2.2.cell o
        = if o = x then { (h.adjust x fun _ => rest).cell x with payload := none }
          else (h.adjust x fun _ => rest).cell o := by
      rw [he]
      exact cell_destroy hmade
    rw [hcell]
    split
    · intro _
      show ((h.adjust x fun _ => rest).cell x).tally.isZero = true
      rw [tally_adjust (contains_of_alive hd)]
      exact hzero
    · next hne =>
      rw [(Recounts.adjust h x fun _ => rest).others o hne]
      exact hs.bare

/-- An operation that makes no new reference. -/
theorem step (hs : Sound o h) {op : TallyOp} (hop : op.retains = false) :
    Sound o (h.step op).2 := by
  cases op with
  | retain x k => cases hop
  | release x k => exact hs.letGo x k
  | weaken x =>
    refine hs.adjust x fun hz => ?_
    rw [Tally.weaken, Tally.move_of_isZero hz]
    exact hz
  | strengthen x =>
    refine hs.adjust x fun hz => ?_
    rw [Tally.strengthen, Tally.move_of_isZero hz]
    exact hz

/-- What an operation makes due makes no new reference. -/
theorem retains_due (hs : Sound o h) (op : TallyOp) : ∀ due ∈ (h.step op).1, due.retains = false := by
  cases op with
  | release x k =>
    intro due hdue
    obtain ⟨y, rfl⟩ := h.onlyReleases_letGo hs.owns x k due hdue
    rfl
  | _ => exact nofun

theorem settle (hs : Sound o h) (hops : ∀ op ∈ ops, op.retains = false) :
    Sound o (h.settle ops) := by
  induction ops, h using settle_induction with
  | nil h => exact hs
  | cons op rest h ih =>
    rw [settle_cons]
    refine ih (hs.step (hops op List.mem_cons_self)) fun due hdue => ?_
    rcases List.mem_append.1 hdue with hdue | hdue
    · exact hs.retains_due op due hdue
    · exact hops due (List.mem_cons_of_mem _ hdue)

/-- **Operations that make no new reference** destroy an object only with its last one. -/
theorem wanes (hs : Sound o h) (hw : Wanes h h') : Sound o h' := by
  obtain ⟨ops, hops, rfl⟩ := hw
  exact hs.settle hops

end Sound

/-- **An object that somebody refers to** is not destroyed. -/
theorem Books.alive_of_sound {strict : Prop} {met : ObjectId → Prop} {A : Account}
    (hb : h.Books strict met A) (hs : Sound o h) (ho : 0 < A.total o) :
    (h.cell o).isDestroyed = false := by
  by_contra hd
  rw [Bool.not_eq_false] at hd
  have hzero := (Balanced.isZero_iff hb o).1 (hs.bare hd)
  rw [Account.total_add] at hzero
  omega

end Heap

namespace Ledger

variable {strict : Prop} {h : Heap} {F : Account} {L L' : Ledger} {o : ObjectId}

/-- What the host does refers to no destroyed object anew, if this one is not destroyed. -/
theorem Covers.sound {op : TallyOp} (hc : Covers strict h op L L') (hs : h.Sound o)
    (ho : (h.cell o).isDestroyed = false) : (h.settle [op]).Sound o := by
  cases hc with
  | retain _ x k =>
    rw [Heap.settle_retain]
    exact hs.retain (fun _ => ho) k
  | release => exact hs.wanes (.one h rfl)
  | weaken => exact hs.wanes (.one h rfl)
  | strengthen => exact hs.wanes (.one h rfl)

/-- **What the host does** destroys no object to which others refer. -/
theorem CoversAll.sound {ops : List TallyOp} (hc : CoversAll strict F h ops L L')
    (hb : h.Books strict L.met (L.holds + F)) (hs : h.Sound o) (ho : 0 < F.total o) :
    (h.settle ops).Sound o := by
  induction hc with
  | nil => exact hs
  | @cons h op rest L L₁ L₂ first fits _ ih =>
    have hpos : 0 < (L.holds + F).total o := by
      rw [Account.total_add]
      omega
    rw [← List.singleton_append, Heap.settle_append]
    exact ih (first.books fits hb) (first.sound hs (hb.alive_of_sound hs hpos))

end Ledger
end EngineHandles
