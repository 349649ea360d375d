/-
# What a queue of operations drops

Running a queue destroys some objects, and their destructors run with it.  Each object is
destroyed once, the journal says when, and no other loses its payload (`Heap.Drops`).  So
what is carried out altogether is the queue and the destructors of those objects, each
operation once (`Heap.carriedOut`).

If all of that are releases, a tally falls by the number of releases that count against it,
or to zero if there are more of them, and an object whose tallies fall to zero is destroyed
(`Heap.exists_drops`).
-/

import EngineHandles.Proofs.Heap.Cascade

namespace EngineHandles

/-- Whether an operation lets a reference go. -/
def TallyOp.isRelease : TallyOp → Bool
  | .release _ _ => true
  | .retain _ _ | .weaken _ | .strengthen _ => false

namespace Tally

variable {t rest : Tally} {k : RefKind}

/-- What is taken, and from which tally. -/
theorem count_of_takeOne? (h : t.takeOne? k = some rest) (l : RefKind) :
    (rest.count l).toNat = (t.count l).toNat - if l = k then 1 else 0 := by
  have hpos : 0 < (t.count k).toNat := by
    refine Nat.pos_of_ne_zero fun h0 => ?_
    have hzero : t.count k = 0 := UInt32.toNat_inj.1 h0
    cases k with
    | strong =>
      rw [show t.takeOne? .strong = none from if_pos hzero] at h
      cases h
    | weak =>
      rw [show t.takeOne? .weak = none from if_pos hzero] at h
      cases h
  obtain ⟨rest', hrest, hcount⟩ := exists_takeOne? hpos
  obtain rfl := Option.some.inj (h.symm.trans hrest)
  rw [hcount l, Nat.add_sub_cancel]

/-- From a tally that is zero nothing is taken. -/
theorem count_of_takeOne?_eq_none (h : t.takeOne? k = none) : (t.count k).toNat = 0 := by
  by_contra hne
  obtain ⟨rest, hrest, -⟩ := exists_takeOne? (Nat.pos_of_ne_zero hne)
  rw [h] at hrest
  cases hrest

end Tally

namespace Heap

variable {h : Heap} {op : TallyOp} {ops rest : List TallyOp} {ds : List ObjectId} {o x : ObjectId}

/-- The operations of a queue and of the destructors of the objects that it destroys. -/
def carriedOut (h : Heap) (ops : List TallyOp) (ds : List ObjectId) : List TallyOp :=
  ops ++ ds.flatMap fun o => (h.cell o).destructor

/-- The objects that a queue destroys, in order, and what it makes of the tallies. -/
structure Drops (h : Heap) (ops : List TallyOp) (ds : List ObjectId) : Prop where
  distinct : ds.Nodup
  alive : ∀ o ∈ ds, (h.cell o).isDestroyed = false
  payload : ∀ o, ((h.settle ops).cell o).payload = if o ∈ ds then none else (h.cell o).payload
  journal : (h.settle ops).journal.toList = h.journal.toList ++ ds.map .payloadDropped
  /-- What the destructors of the others sum up to. -/
  rest : ∀ {M : Type} [AddCommMonoid M] (f : List TallyOp → M), f [] = 0 →
    (h.settle ops).inDestructors f + (ds.map fun o => f (h.cell o).destructor).sum
      = h.inDestructors f
  count : (h.carriedOut ops ds).all TallyOp.isRelease = true → ∀ o k,
    (((h.settle ops).cell o).tally.count k).toNat
      = ((h.cell o).tally.count k).toNat - (h.carriedOut ops ds).count (.release o k)
  ended : (h.carriedOut ops ds).all TallyOp.isRelease = true → ∀ o,
    (h.cell o).tally.isZero = false → ((h.settle ops).cell o).tally.isZero = true →
    ((h.settle ops).cell o).isDestroyed = true

namespace Drops

theorem isDestroyed_iff (hd : h.Drops ops ds) (o : ObjectId) :
    ((h.settle ops).cell o).isDestroyed = true ↔ (h.cell o).isDestroyed = true ∨ o ∈ ds := by
  rw [Cell.isDestroyed, hd.payload, Cell.isDestroyed]
  split
  · next hm => exact iff_of_true rfl (.inr hm)
  · next hm => exact ⟨.inl, fun hh => hh.resolve_right hm⟩

theorem nil (h : Heap) : h.Drops [] [] where
  distinct := List.nodup_nil
  alive := List.forall_mem_nil _
  payload o := (if_neg List.not_mem_nil).symm
  journal := (List.append_nil _).symm
  rest f _ := add_zero _
  count _ o k := rfl
  ended _ o hpos hzero := by
    rw [settle_nil, hpos] at hzero
    cases hzero

/-- What is carried out when the payloads are the same. -/
theorem carriedOut_congr {h' : Heap} (hp : ∀ x ∈ ds, (h'.cell x).payload = (h.cell x).payload)
    (ops : List TallyOp) : h'.carriedOut ops ds = h.carriedOut ops ds := by
  rw [carriedOut, carriedOut]
  congr 1
  refine List.flatMap_congr fun x hx => ?_
  rw [Cell.destructor, hp x hx, Cell.destructor]

/-- An operation that destroys nothing goes before. -/
theorem cons_keep {h' : Heap} (hstep : h.step op = ([], h')) (hd : h'.Drops rest ds)
    (hp : ∀ x, (h'.cell x).payload = (h.cell x).payload)
    (hj : h'.journal = h.journal)
    (hcount : op.isRelease = true → ∀ x k, ((h'.cell x).tally.count k).toNat
      = ((h.cell x).tally.count k).toNat - if op = .release x k then 1 else 0)
    (hended : op.isRelease = true → ∀ x, (h.cell x).tally.isZero = false →
      (h'.cell x).tally.isZero = true → (h.cell x).isDestroyed = true) :
    h.Drops (op :: rest) ds := by
  have hsettle : h.settle (op :: rest) = h'.settle rest := by rw [settle_cons, hstep]; rfl
  have hout : h.carriedOut (op :: rest) ds = op :: h'.carriedOut rest ds := by
    rw [carriedOut_congr fun x _ => hp x]
    rfl
  have hdes : ∀ x, (h'.cell x).isDestroyed = (h.cell x).isDestroyed := fun x => by
    rw [Cell.isDestroyed, hp, Cell.isDestroyed]
  refine ⟨hd.distinct, fun x hx => hdes x ▸ hd.alive x hx, fun x => ?_, ?_, fun f hf => ?_,
    fun hall x k => ?_, fun hall x hpos hzero => ?_⟩
  · rw [hsettle, hd.payload, hp]
  · rw [hsettle, hd.journal, hj]
  · have hin := inDestructors_step f hf h op
    rw [hstep, hf, add_zero] at hin
    have hsum : (ds.map fun o => f (h'.cell o).destructor) = ds.map fun o => f (h.cell o).destructor :=
      List.map_congr_left fun x _ => by rw [Cell.destructor, hp, Cell.destructor]
    rw [hsettle, ← hin, ← hd.rest f hf, hsum]
  · rw [hout, List.all_cons, Bool.and_eq_true] at hall
    rw [hsettle, hd.count hall.2, hcount hall.1, hout, List.count_cons, Nat.sub_sub,
      Nat.add_comm]
    simp only [beq_iff_eq]
  · rw [hout, List.all_cons, Bool.and_eq_true] at hall
    rw [hsettle] at hzero ⊢
    cases hz : (h'.cell x).tally.isZero with
    | false => exact hd.ended hall.2 x hz hzero
    | true =>
      rw [hd.isDestroyed_iff, hdes]
      exact .inl (hended hall.1 x hpos hz)

/-- A release that destroys its object goes before. -/
theorem cons_drop {t : Tally} {k : RefKind} {h' : Heap} (ht : (h.cell o).tally.takeOne? k = some t)
    (halive : (h.cell o).isDestroyed = false)
    (hstep : h.step (.release o k) = ((h.cell o).destructor, h'))
    (hcell : ∀ x, h'.cell x = if x = o then ⟨t, none⟩ else h.cell x)
    (hj : h'.journal.toList = h.journal.toList ++ [.payloadDropped o])
    (hd : h'.Drops ((h.cell o).destructor ++ rest) ds) : h.Drops (.release o k :: rest) (o :: ds) := by
  have hsettle : h.settle (.release o k :: rest) = h'.settle ((h.cell o).destructor ++ rest) := by
    rw [settle_cons, hstep]
  have hone : h'.cell o = ⟨t, none⟩ := by rw [hcell, if_pos rfl]
  have hnew : o ∉ ds := fun hm => by
    have := hd.alive o hm
    rw [hone] at this
    cases this
  have hother : ∀ x ∈ ds, h'.cell x = h.cell x := fun x hx => by
    rw [hcell, if_neg]
    rintro rfl
    exact hnew hx
  -- the destructor moves from the objects still alive to the queue
  have hperm : (h.carriedOut (.release o k :: rest) (o :: ds)).Perm
      (.release o k :: h'.carriedOut ((h.cell o).destructor ++ rest) ds) := by
    have hout := carriedOut_congr (fun x hx => congrArg Cell.payload (hother x hx))
      ((h.cell o).destructor ++ rest)
    rw [hout, carriedOut, carriedOut, List.flatMap_cons, List.cons_append, ← List.append_assoc]
    refine .cons _ (List.Perm.append_right _ ?_)
    exact List.perm_append_comm
  refine ⟨List.nodup_cons.2 ⟨hnew, hd.distinct⟩, ?_, fun x => ?_, ?_, fun f hf => ?_,
    fun hall x l => ?_, fun hall x hpos hzero => ?_⟩
  · refine List.forall_mem_cons.2 ⟨halive, fun x hx => ?_⟩
    rw [← hother x hx]
    exact hd.alive x hx
  · rw [hsettle, hd.payload]
    by_cases hx : x = o
    · rw [hx, if_neg hnew, if_pos List.mem_cons_self, hone]
    · rw [hcell, if_neg hx]
      simp only [List.mem_cons, hx, false_or]
  · rw [hsettle, hd.journal, hj, List.map_cons, List.append_assoc]
    rfl
  · have hin := inDestructors_step f hf h (.release o k)
    rw [hstep] at hin
    have hsum : (ds.map fun o => f (h'.cell o).destructor) = ds.map fun o => f (h.cell o).destructor :=
      List.map_congr_left fun x hx => by rw [hother x hx]
    rw [hsettle, ← hin, ← hd.rest f hf, hsum, List.map_cons, List.sum_cons, add_assoc]
    congr 1
    exact add_comm _ _
  · rw [hperm.all_eq, List.all_cons, Bool.and_eq_true] at hall
    rw [hsettle, hd.count hall.2, hperm.count_eq, List.count_cons, hcell]
    by_cases hx : x = o
    · rw [if_pos hx, hx, Tally.count_of_takeOne? ht, Nat.sub_sub, Nat.add_comm]
      refine congrArg _ (congrArg _ (if_congr ?_ rfl rfl))
      rw [beq_iff_eq, TallyOp.release.injEq, eq_comm]
      exact (and_iff_right rfl).symm
    · rw [if_neg hx, if_neg, Nat.add_zero]
      rw [beq_iff_eq, TallyOp.release.injEq]
      exact fun he => hx he.1.symm
  · rw [hperm.all_eq, List.all_cons, Bool.and_eq_true] at hall
    rw [hsettle] at hzero ⊢
    by_cases hx : x = o
    · rw [hd.isDestroyed_iff, hx, hone]
      exact .inl rfl
    · refine hd.ended hall.2 x ?_ hzero
      rw [hcell, if_neg hx]
      exact hpos

end Drops

/-- An object from which a reference can be taken was made. -/
theorem contains_of_takeOne? {t : Tally} {k : RefKind} (ht : (h.cell o).tally.takeOne? k = some t) :
    h.contains o = true := by
  by_contra ho
  rw [cell_of_not_contains ho] at ht
  cases k <;> cases ht

/-- A release goes before: it does nothing, changes a tally, or destroys its object. -/
theorem exists_drops_release {k : RefKind}
    (hd : (h.step (.release o k)).2.Drops ((h.step (.release o k)).1 ++ rest) ds) :
    ∃ ds', h.Drops (.release o k :: rest) ds' := by
  have hstep : h.step (.release o k) = (h.letGo o k).2 := rfl
  rw [hstep] at hd
  rcases h.letGo_cases o k with ⟨hnone, he⟩ | ⟨t, ht, ⟨hmore, he⟩ | ⟨hzero, halive, he⟩⟩
  · -- the tally is zero and stays so
    rw [he] at hd hstep
    refine ⟨ds, hd.cons_keep hstep (fun x => rfl) rfl (fun _ x l => ?_) fun _ x hpos hz => ?_⟩
    · split
      · next hop =>
        cases hop
        rw [Tally.count_of_takeOne?_eq_none hnone]
      · rfl
    · rw [hpos] at hz
      cases hz
  · rw [he] at hd hstep
    have ho : h.contains o = true := contains_of_takeOne? ht
    have hcell := fun x => h.cell_adjust (x := x) ho fun _ => t
    refine ⟨ds, hd.cons_keep hstep (payload_adjust h o _) rfl (fun _ x l => ?_)
      fun _ x hpos hz => ?_⟩
    · rw [hcell]
      by_cases hx : x = o
      · rw [if_pos hx, hx, Tally.count_of_takeOne? ht]
        refine congrArg _ (if_congr ?_ rfl rfl)
        rw [TallyOp.release.injEq, eq_comm]
        exact (and_iff_right rfl).symm
      · rw [if_neg hx, if_neg, Nat.sub_zero]
        rintro he
        cases he
        exact hx rfl
    · rw [hcell] at hz
      by_cases hx : x = o
      · rw [if_pos hx] at hz
        rcases hmore with hmore | hmore
        · rw [hmore] at hz
          cases hz
        · rw [hx]
          exact hmore
      · rw [if_neg hx, hpos] at hz
        cases hz
  · rw [he] at hd hstep
    have ho : h.contains o = true := contains_of_takeOne? ht
    have ho' : (h.adjust o fun _ => t).contains o = true := by rw [contains_adjust]; exact ho
    have hone : (h.adjust o fun _ => t).cell o = { h.cell o with tally := t } := by
      rw [cell_adjust ho, if_pos rfl]
    have hdue : ((h.adjust o fun _ => t).destroy o).1 = (h.cell o).destructor := by
      rw [destroy, hone]
      rfl
    rw [← Prod.mk.eta (p := (h.adjust o fun _ => t).destroy o), hdue] at hstep
    rw [hdue] at hd
    refine ⟨o :: ds, .cons_drop ht halive hstep (fun x => ?_) ?_ hd⟩
    · rw [cell_destroy ho', hone]
      by_cases hx : x = o
      · rw [if_pos hx, if_pos hx]
      · rw [if_neg hx, if_neg hx, cell_adjust ho, if_neg hx]
    · exact journal_destroy _ o

/-- **What a queue drops.** -/
theorem exists_drops (ops : List TallyOp) (h : Heap) : ∃ ds, h.Drops ops ds := by
  induction ops, h using settle_induction with
  | nil h => exact ⟨[], .nil h⟩
  | cons op rest h ih =>
    obtain ⟨ds, hd⟩ := ih
    cases op with
    | retain o k =>
      exact ⟨ds, hd.cons_keep rfl (payload_adjust h o _) rfl nofun nofun⟩
    | weaken o => exact ⟨ds, hd.cons_keep rfl (payload_adjust h o _) rfl nofun nofun⟩
    | strengthen o => exact ⟨ds, hd.cons_keep rfl (payload_adjust h o _) rfl nofun nofun⟩
    | release o k =>
      exact exists_drops_release hd

end Heap
end EngineHandles
