/-
# The end of an isolate

What an isolate stores when it ends is released slot by slot: the locals of each thread, the
last one first, and then the persistent handles (`Storage.lettingGo`).  So the heap is left
as by running the releases of the slots of the isolates that ended
(`World.Sheds.heap_eq_settle`), each once and with the kind that the slot had.

If the host plays fair (`World.FairMoves`), a tally falls by just as much: the slots that
held the object in that way, and the releases in the destructors that ran meanwhile; and an
object whose last reference went is destroyed (`World.run_isolates_end`).
-/

import EngineHandles.Proofs.Arena.Truncation
import EngineHandles.Proofs.Heap.Drops
import EngineHandles.Proofs.World.Accounting
import EngineHandles.Proofs.World.Partings
import Mathlib.Algebra.Order.BigOperators.Group.List
import Mathlib.Algebra.Order.Group.Nat

namespace EngineHandles

/-! ### What a storage lets go -/

/-- Taking everything out of an arena takes each slot once. -/
theorem Arena.slotsFrom_zero_zero (a : Arena) : a.slotsFrom 0 0 = a.entries.map Prod.snd := by
  have hfrom : a.slotsFrom 0 0 = a.slabs.toList.flatMap fun slab => slab.slots.toList := by
    rw [slotsFrom, List.drop_zero]
    cases a.slabs.toList <;> rfl
  have hslab : ∀ e : Slab × Nat, (e.1.slots.toList.zipIdx.map fun p =>
      ((SlotAddr.ofCounts e.2 p.2, p.1) : SlotAddr × Slot)).map Prod.snd = e.1.slots.toList := by
    intro e
    rw [List.map_map]
    exact List.zipIdx_map_fst 0 _
  rw [hfrom, entries, List.map_flatMap]
  have hfst := List.flatMap_map Prod.fst (fun slab : Slab => slab.slots.toList) a.slabs.toList.zipIdx
  rw [List.zipIdx_map_fst] at hfst
  exact hfst.trans (List.flatMap_congr fun e _ => (hslab e).symm)

namespace Slot

theorem all_isRelease_lettingGo (xs : List Slot) :
    (lettingGo xs).all TallyOp.isRelease = true := by
  rw [List.all_eq_true]
  intro op hop
  obtain ⟨x, -, hx⟩ := List.mem_filterMap.1 hop
  obtain ⟨o, -, rfl⟩ := Option.map_eq_some_iff.1 hx
  rfl

/-- What slots let go is what they hold. -/
theorem released_lettingGo (xs : List Slot) : Account.released (lettingGo xs) = holdings xs := by
  induction xs with
  | nil => rfl
  | cons x xs ih =>
    rw [lettingGo_cons, Account.released_append, ih, holdings_cons, add_comm]
    congr 1
    obtain ⟨object, kind⟩ := x
    cases object with
    | none => rfl
    | some o =>
      exact (Account.released_cons o kind []).trans (zero_add _)

end Slot

namespace Storage

/-- The releases of all that a storage holds: of the locals of each thread, and then of the
persistent handles. -/
def lettingGo (s : Storage) : List TallyOp :=
  (s.scopeStacks.flatMap fun e => Slot.lettingGo (e.2.locals.entries.map Prod.snd))
    ++ Slot.lettingGo (s.persistents.slots.entries.map Prod.snd)

/-- **A storage that ends** releases what its slots hold, each slot once. -/
theorem discard_eq_settle (s : Storage) (h : Heap) : s.discard h = h.settle s.lettingGo := by
  have hstacks : ∀ (es : List (ThreadKey × ScopeStack)) (h : Heap),
      es.foldl (fun h e => e.2.discard h) h
        = h.settle (es.flatMap fun e => Slot.lettingGo (e.2.locals.entries.map Prod.snd)) := by
    intro es
    induction es with
    | nil => exact fun h => rfl
    | cons e es ih =>
      intro h
      rw [List.foldl_cons, ih, List.flatMap_cons, Heap.settle_append, ScopeStack.discard,
        Arena.clear, Arena.slotsFrom_zero_zero, Slot.releaseFromEnd_eq_settle]
  rw [discard, hstacks, PersistentStore.discard, Arena.clear, Arena.slotsFrom_zero_zero,
    Slot.releaseFromEnd_eq_settle, lettingGo, Heap.settle_append]

theorem all_isRelease_lettingGo (s : Storage) : s.lettingGo.all TallyOp.isRelease = true := by
  rw [lettingGo, List.all_append, List.all_flatMap, Bool.and_eq_true]
  refine ⟨List.all_eq_true.2 fun e _ => ?_, Slot.all_isRelease_lettingGo _⟩
  exact Slot.all_isRelease_lettingGo _

/-- What a storage lets go is what it holds. -/
theorem released_lettingGo (s : Storage) : Account.released s.lettingGo = s.holds := by
  rw [lettingGo, Account.released_append, Slot.released_lettingGo, holds, localHolds]
  congr 1
  induction s.scopeStacks with
  | nil => rfl
  | cons e es ih =>
    rw [List.flatMap_cons, Account.released_append, Slot.released_lettingGo, ih, List.map_cons,
      List.sum_cons]
    rfl

end Storage

namespace World

variable {strict : Prop} {w w' : World} {L L' : Ledger} {t : ThreadKey} {i : IsolateId}

theorem Sheds.heap_eq_settle {ds : List (IsolateId × Storage)} (h : w.Sheds ds w') :
    w'.heap = w.heap.settle (ds.flatMap fun d => d.2.lettingGo) := by
  rw [h.heap_eq]
  generalize w.heap = heap
  clear h
  induction ds generalizing heap with
  | nil => rfl
  | cons d ds ih =>
    rw [List.foldl_cons, ih, Storage.discard_eq_settle, List.flatMap_cons, Heap.settle_append]

/-- The isolates that end are those to which nobody refers any more. -/
theorem Sheds.mem_iff {ds : List (IsolateId × Storage)} (h : w.Sheds ds w')
    (hw : w'.Attended fun _ => False) (i : IsolateId) :
    i ∈ ds.map Prod.fst ↔ (w.isolate? i).isSome = true ∧ ¬ w'.Refers i := by
  have hstorage := h.storage?_eq i
  have hsome : ∀ v : World, (v.storage? i).isSome = (v.isolate? i).isSome := fun _ => Option.isSome_map
  rw [← hw.isSome_iff, ← hsome w, ← hsome w', hstorage]
  by_cases hi : i ∈ ds.map Prod.fst
  · obtain ⟨d, hd, rfl⟩ := List.mem_map.1 hi
    rw [if_pos hi, h.found d hd]
    exact iff_of_true hi ⟨rfl, Bool.false_ne_true⟩
  · rw [if_neg hi]
    exact iff_of_false hi fun hh => hh.2 hh.1

/-! ### Fair moves -/

/-- Moves in which the host plays fair: in acts it does only what its ledger allows, and no
object ever has `2 ^ 32` references.  A further reference to an isolate is always fair. -/
inductive FairMoves (strict : Prop) : World → Ledger → List Move → Ledger → Prop where
  | nil (w : World) (L : Ledger) : FairMoves strict w L [] L
  | act {w : World} {L L₁ L₂ : Ledger} {a : Act} {rest : List Move}
      (allowed : Allows strict w L a L₁)
      (fits : ∀ o, ((w.act a).references L₁).total o < 2 ^ 32)
      (others : FairMoves strict (w.act a) ((w.act a).remember L₁) rest L₂) :
      FairMoves strict w L (.act a :: rest) L₂
  | share {w : World} {L L' : Ledger} {i : IsolateId} {rest : List Move}
      (others : FairMoves strict (w.move (.share i)) L rest L') :
      FairMoves strict w L (.share i :: rest) L'

/-- A further reference to an isolate keeps the books. -/
theorem Books.share (hb : Books strict L w) (i : IsolateId) :
    Books strict L (w.move (.share i)) := by
  rw [move]
  split
  · exact ⟨hb.storages, hb.books⟩
  · exact hb

/-- **Fair moves keep the books.** -/
theorem FairMoves.of_append {ms ms' : List Move} (hb : Books strict L w)
    (hw : w.Attended fun _ => False) (hf : FairMoves strict w L (ms ++ ms') L') :
    ∃ M, Books strict M (w.moveAll ms) ∧ FairMoves strict (w.moveAll ms) M ms' L' := by
  induction ms generalizing w L with
  | nil => exact ⟨L, hb, hf⟩
  | cons m ms ih =>
    have hw' := (hw.does_move m).parts.attended
    cases hf with
    | act allowed fits others =>
      exact ih (hb.act hw.wellFormed allowed fits).remember hw' others
    | share others => exact ih (hb.share _) hw' others

/-- A request that closes a scope keeps the books. -/
theorem Books.closing (hb : Books strict L w) (hw : w.WellFormed) (t : ThreadKey)
    (i : IsolateId) {r : Request} (hr : r.closes = true) :
    Books strict L (w.act (.request t i r)) :=
  hb.works hw (.orStay (P := fun _ => False) fun _ _ h => .of_serve hr h fun _ _ => rfl)

/-- What a move does first keeps the books. -/
theorem FairMoves.books_preparation {m : Move} (hb : Books strict L w) (hw : w.WellFormed)
    (hf : FairMoves strict w L [m] L') : ∃ M, Books strict M (w.run (w.preparation m)) := by
  cases m with
  | share i => exact ⟨L, hb⟩
  | act a =>
    cases hf with
    | @act _ _ L₁ _ _ _ allowed fits _ =>
      have hclosing : ∀ (v : World) (x : Guard) (scope : ScopeId), Books strict L v →
          v.WellFormed →
          Books strict L (v.run [.request x.thread x.isolate (.closeScope scope)]) :=
        fun v x scope hv hwf => hv.closing hwf x.thread x.isolate rfl
      cases a with
      | tally | make | furnish | newIsolate | request => exact ⟨L₁, hb.act hw allowed fits⟩
      | openGuarded t i => exact ⟨L, hb.openScope hw t i⟩
      | dropGuard g | closeGuard g =>
        rw [preparation]
        split
        · exact ⟨L, hb⟩
        · exact ⟨L, hclosing w _ _ hb hw⟩
      | escapeGuard g l =>
        rw [preparation]
        split
        · exact ⟨L, hb⟩
        · next x scope _ =>
          have hescape := hb.closing hw x.thread x.isolate (r := .escape scope l) rfl
          rw [escapeActs]
          split
          · exact ⟨L, hclosing _ x scope hescape (hw.act _)⟩
          · exact ⟨L, hescape⟩
      | _ => exact ⟨L, hb⟩

/-! ### Tallies -/

/-- Isolates that end held no more than all slots did. -/
theorem Sheds.holds_le {ds : List (IsolateId × Storage)} (h : w.Sheds ds w') (o : ObjectId)
    (k : RefKind) : (ds.map fun d => d.2.holds o k).sum ≤ w.slotHolds o k := by
  have hsub : ds ⊆ w.isolates.map fun iso => (iso.id, iso.storage) := by
    intro d hd
    obtain ⟨iso, hi, hs⟩ := Option.map_eq_some_iff.1 (h.found d hd)
    obtain ⟨hmem, hid⟩ := mem_of_isolate? hi
    exact List.mem_map.2 ⟨iso, hmem, Prod.ext hid hs⟩
  obtain ⟨l, hperm, hl⟩ := List.subperm_of_subset (List.Nodup.of_map _ h.distinct) hsub
  have hle := (hl.map fun d : IsolateId × Storage => d.2.holds o k).sum_le_sum fun _ _ => Nat.zero_le _
  rw [(hperm.map _).sum_eq, List.map_map] at hle
  rw [slotHolds, Account.sum_apply, List.map_map]
  exact hle

/-- What isolates that end hold, as releases. -/
theorem count_lettingGo (ds : List (IsolateId × Storage)) (o : ObjectId) (k : RefKind) :
    (ds.flatMap fun d => d.2.lettingGo).count (.release o k)
      = (ds.map fun d => d.2.holds o k).sum := by
  rw [List.count_flatMap]
  refine congrArg List.sum (List.map_congr_left fun d _ => ?_)
  rw [Function.comp_apply, ← Storage.released_lettingGo]
  rfl

/-- What isolates that end make of the tallies of an object: of the slots that they had and of
the destructors that ran, each takes away what it held. -/
structure LetsGo (w : World) (ds : List (IsolateId × Storage)) (dropped : List ObjectId)
    (w' : World) (o : ObjectId) : Prop where
  strong : (w'.heap.cell o).tally.strong.toNat
    + (ds.map fun d => d.2.localCount o + d.2.persistentCount .strong o).sum
    + (dropped.map fun x => (w.heap.cell x).destructor.count (.release o .strong)).sum
      = (w.heap.cell o).tally.strong.toNat
  weak : (w'.heap.cell o).tally.weak.toNat + (ds.map fun d => d.2.persistentCount .weak o).sum
    = (w.heap.cell o).tally.weak.toNat
  ended : (w.heap.cell o).tally.isZero = false → (w'.heap.cell o).tally.isZero = true →
    (w'.heap.cell o).isDestroyed = true

/-- **What isolates that end make of the tallies.** -/
theorem Books.letsGo {ds : List (IsolateId × Storage)} {dropped : List ObjectId}
    (hb : Books strict L w) (he : w.Sheds ds w')
    (hd : w.heap.Drops (ds.flatMap fun d => d.2.lettingGo) dropped) (o : ObjectId) :
    w.LetsGo ds dropped w' o := by
  have hall : (w.heap.carriedOut (ds.flatMap fun d => d.2.lettingGo) dropped).all
      TallyOp.isRelease = true := by
    rw [Heap.carriedOut, List.all_append, List.all_flatMap, List.all_flatMap, Bool.and_eq_true]
    refine ⟨List.all_eq_true.2 fun d _ => d.2.all_isRelease_lettingGo,
      List.all_eq_true.2 fun x _ => List.all_eq_true.2 fun op hop => ?_⟩
    obtain ⟨y, rfl⟩ := hb.books.owns x op hop
    rfl
  have howned : ∀ k, w'.heap.owned o k
      + (dropped.map fun x => (w.heap.cell x).destructor.count (.release o k)).sum
        = w.heap.owned o k := by
    intro k
    have hrest := congrFun (congrFun (hd.rest Account.released Account.released_nil) o) k
    rw [← he.heap_eq_settle, Account.add_apply, Account.sum_apply, List.map_map] at hrest
    exact hrest
  have hcount : ∀ k, ((w'.heap.cell o).tally.count k).toNat + (ds.map fun d => d.2.holds o k).sum
      + (dropped.map fun x => (w.heap.cell x).destructor.count (.release o k)).sum
        = ((w.heap.cell o).tally.count k).toNat := by
    intro k
    have hdrop := hd.count hall o k
    rw [← he.heap_eq_settle, Heap.carriedOut, List.count_append, count_lettingGo,
      List.count_flatMap] at hdrop
    have hbooks := hb.books.count_eq o k
    rw [Account.add_apply, Account.add_apply] at hbooks
    have hle := he.holds_le o k
    have hle' := howned k
    simp only [Function.comp_def] at hdrop
    omega
  have hslots : ∀ d ∈ ds, d.2.WellFormed := by
    intro d hd
    obtain ⟨iso, hi, hs⟩ := Option.map_eq_some_iff.1 (he.found d hd)
    rw [← hs]
    exact hb.storages iso (mem_of_isolate? hi).1
  refine ⟨?_, ?_, fun hpos hzero => ?_⟩
  · have hstrong := hcount .strong
    rw [List.map_congr_left fun d hd => (hslots d hd).holds_strong o] at hstrong
    exact hstrong
  · have hweak := hcount .weak
    have hnone := howned .weak
    rw [hb.books.owned_weak] at hnone
    rw [(Nat.add_eq_zero_iff.1 hnone).2, Nat.add_zero,
      List.map_congr_left fun d hd => (hslots d hd).holds_weak o] at hweak
    exact hweak
  · rw [he.heap_eq_settle] at hzero ⊢
    exact hd.ended hall o hpos hzero

/-- Fair acts are fair moves. -/
theorem Fair.fairMoves {acts : List Act} {rest : List Move} {M : Ledger}
    (hf : Fair strict w L acts M) (hrest : FairMoves strict (w.run acts) M rest L') :
    FairMoves strict w L (acts.map .act ++ rest) L' := by
  induction hf with
  | nil => exact hrest
  | cons allowed fits _ ih => exact .act allowed fits (ih hrest)

/-- **The end of isolates.**  Whatever was done before, an isolate is there exactly as long as
somebody refers to it.  Every move works on handles first, if at all, which ends no isolate;
then just those isolates end to which nobody refers any more, and the others store what they
stored.  The heap is left as by the releases of all slots of the isolates that end, each one
once and with its kind, and the destructors of the objects that this destroys.  In a fair run
a tally falls by just the number of these slots and of those releases that are of its object,
and an object that loses its last reference is destroyed. -/
theorem run_isolates_end (moves : List Move) :
    let w := ({} : World).moveAll moves
    (∀ i, (w.isolate? i).isSome = true ↔ w.Refers i) ∧
      ∀ m, let w₁ := w.run (w.preparation m)
        let w' := w.move m
        (∀ i, (w.isolate? i).isSome = true → (w₁.isolate? i).isSome = true) ∧
          ∃ ds dropped, w₁.Sheds ds w' ∧
            (∀ i, i ∈ ds.map Prod.fst ↔ (w₁.isolate? i).isSome = true ∧ ¬ w'.Refers i) ∧
            w'.heap = w₁.heap.settle (ds.flatMap fun d => d.2.lettingGo) ∧
            w₁.heap.Drops (ds.flatMap fun d => d.2.lettingGo) dropped ∧
            ∀ L, FairMoves False {} {} (moves ++ [m]) L → ∀ o, w₁.LetsGo ds dropped w' o := by
  intro w
  have hw : w.Attended fun _ => False := Attended.init.moveAll moves
  refine ⟨hw.isSome_iff, fun m => ?_⟩
  have hdoes := hw.does_move m
  obtain ⟨ds, hsheds⟩ := hdoes.parts.sheds
  obtain ⟨dropped, hdrops⟩ := Heap.exists_drops (ds.flatMap fun d => d.2.lettingGo)
    (w.run (w.preparation m)).heap
  refine ⟨hdoes.stays, ds, dropped, hsheds, hsheds.mem_iff hdoes.parts.attended,
    hsheds.heap_eq_settle, hdrops, fun L hf => ?_⟩
  obtain ⟨M, hb, hlast⟩ := hf.of_append (books_init False) .init
  obtain ⟨M', hb'⟩ := hlast.books_preparation hb hw.wellFormed
  exact hb'.letsGo hsheds hdrops

/-- Moves after which the thread in an isolate is the last to refer to it: the host took a
second reference and gave both up. -/
def lastEnter : List Move :=
  everyHolder.map .act ++ .share ⟨1⟩ ::
    [.releaseHost ⟨1⟩, .releaseHost ⟨1⟩, .tally (.release ⟨1⟩ .strong)].map .act

theorem fair_lastEnter :
    ∃ L, FairMoves False {} {} (lastEnter ++ [.act (.exit ⟨0⟩ ⟨1⟩)]) L := by
  obtain ⟨⟨holds, met⟩, hf, hL⟩ := fair_everyHolder False
  obtain rfl : holds = 0 + Account.one ⟨1⟩ .strong := hL
  have hone := total_one_few ⟨1⟩ .strong
  have hrest : ∃ L, Fair False (World.move (({} : World).run everyHolder) (.share ⟨1⟩))
      ⟨0 + Account.one ⟨1⟩ .strong, met⟩
      [.releaseHost ⟨1⟩, .releaseHost ⟨1⟩, .tally (.release ⟨1⟩ .strong), .exit ⟨0⟩ ⟨1⟩] L ∧
      L.holds = 0 := by
    refine exists_fair_cons rfl hone (by decide +kernel) ?_
    refine exists_fair_cons rfl hone (by decide +kernel) ?_
    refine exists_fair_cons (.release ⟨0, _⟩ ⟨1⟩ .strong) (fun _ => Nat.two_pow_pos 31)
      (by decide +kernel) ?_
    refine exists_fair_cons rfl (fun _ => Nat.two_pow_pos 31) (by decide +kernel) ?_
    exact ⟨_, .nil _ _, rfl⟩
  obtain ⟨L, hrest, -⟩ := hrest
  exact ⟨L, hf.fairMoves (.share (hrest.fairMoves (.nil _ L)))⟩

/-- The isolate ends as the thread leaves it, and the object that it held is destroyed. -/
theorem run_isolates_end_lastEnter :
    let w := ({} : World).moveAll lastEnter
    let w' := w.move (.act (.exit ⟨0⟩ ⟨1⟩))
    w.Refers ⟨1⟩ ∧ ∃ L, FairMoves False {} {} (lastEnter ++ [.act (.exit ⟨0⟩ ⟨1⟩)]) L ∧
      ∃ ds dropped, w.Sheds ds w' ∧ ⟨1⟩ ∈ ds.map Prod.fst ∧ w.LetsGo ds dropped w' ⟨1⟩ ∧
        (w'.heap.cell ⟨1⟩).isDestroyed = true := by
  intro w w'
  have hprep : ∀ v : World, v.run (v.preparation (.act (.exit ⟨0⟩ ⟨1⟩))) = v := fun v => rfl
  have hthere : (w.isolate? ⟨1⟩).isSome = true := by decide +kernel
  have hgone : (w'.isolate? ⟨1⟩).isSome = false := by decide +kernel
  have hended : (w'.heap.cell ⟨1⟩).isDestroyed = true := by decide +kernel
  have hw' : w'.Attended fun _ => False :=
    ((Attended.init.moveAll lastEnter).does_move (.act (.exit ⟨0⟩ ⟨1⟩))).parts.attended
  obtain ⟨hrefers, hmoves⟩ := run_isolates_end lastEnter
  obtain ⟨-, ds, dropped, hsheds, hmem, -, -, hfair⟩ := hmoves (.act (.exit ⟨0⟩ ⟨1⟩))
  obtain ⟨L, hf⟩ := fair_lastEnter
  have hletsGo := hfair L hf ⟨1⟩
  rw [hprep] at hsheds hmem hletsGo
  refine ⟨(hrefers ⟨1⟩).1 hthere, L, hf, ds, dropped, hsheds, (hmem ⟨1⟩).2 ⟨hthere, fun href => ?_⟩,
    hletsGo, hended⟩
  have hsome := (hw'.isSome_iff ⟨1⟩).2 href
  rw [hgone] at hsome
  cases hsome

end World
end EngineHandles
