/-
# The sweep keeps the books

A sweep lists its objects first and then takes them one by one, while callbacks and
destructors change tallies under its hands.  What carries it through is that nobody but
the sweep touches the slots of the store, and that it touches each listed slot once
(`Doomed.pairs`): so a slot that is still to be asked holds its object weakly, whatever
happened since the list was made, and this reference keeps the object from being
destroyed before its callback starts.

A callback's effects are the host's own operations, so they are to be covered by the
host's ledger, one callback after another (`Sweep.AllCovered`).
-/

import EngineHandles.Persistent.Sweep
import EngineHandles.Proofs.Heap.Ledger
import EngineHandles.Proofs.Persistent.Holdings

namespace EngineHandles

/-! ### The slots of a sweep -/

/-- The slots to be decided, each with its object. -/
def Doomed.pairs (ds : List Doomed) : List (SlotAddr × ObjectId) :=
  ds.flatMap fun d => d.slots.map fun addr => (addr, d.object)

/-- The slot that a sweep is to decide for an entry of the arena, if it is to. -/
def Doomed.pair? (h : Heap) (e : SlotAddr × Slot) : Option (SlotAddr × ObjectId) :=
  match e.2.kind, e.2.object with
  | .weak, some o => if (h.cell o).tally.strong = 0 then some (e.1, o) else none
  | _, _ => none

theorem Doomed.pairs_cons (d : Doomed) (ds : List Doomed) :
    pairs (d :: ds) = d.slots.map (fun addr => (addr, d.object)) ++ pairs ds := List.flatMap_cons

theorem Doomed.map_fst_slots (addrs : List SlotAddr) (o : ObjectId) :
    (addrs.map fun addr => (addr, o)).map Prod.fst = addrs := by
  rw [List.map_map]
  exact List.map_id _

theorem Doomed.pairs_insert (o : ObjectId) (addr : SlotAddr) (ds : List Doomed) :
    (pairs (insert o addr ds)).Perm ((addr, o) :: pairs ds) := by
  induction ds with
  | nil => exact List.Perm.refl _
  | cons d ds ih =>
    rw [insert]
    by_cases he : d.object = o
    · subst he
      rw [if_pos rfl, pairs_cons, pairs_cons, List.map_append, List.append_assoc]
      exact List.perm_middle
    · rw [if_neg he, pairs_cons, pairs_cons]
      exact (ih.append_left _).trans List.perm_middle

/-- The list of a sweep when an entry of the arena is looked at. -/
def Doomed.visit (h : Heap) (ds : List Doomed) (e : SlotAddr × Slot) : List Doomed :=
  match pair? h e with
  | some (addr, o) => insert o addr ds
  | none => ds

theorem Doomed.pairs_foldl (h : Heap) (es : List (SlotAddr × Slot)) (ds : List Doomed) :
    (pairs (es.foldl (visit h) ds)).Perm (es.filterMap (pair? h) ++ pairs ds) := by
  induction es generalizing ds with
  | nil => exact List.Perm.refl _
  | cons e es ih =>
    rw [List.foldl_cons, List.filterMap_cons]
    refine (ih _).trans ?_
    rw [visit]
    cases pair? h e with
    | none => exact List.Perm.refl _
    | some d => exact ((pairs_insert d.2 d.1 ds).append_left _).trans List.perm_middle

theorem Doomed.pair?_eq_some {h : Heap} {addr b : SlotAddr} {x : Slot} {o : ObjectId}
    (he : pair? h (addr, x) = some (b, o)) : b = addr ∧ x = .holding o .weak := by
  obtain ⟨object, kind⟩ := x
  cases kind with
  | strong => cases object <;> cases he
  | weak =>
    cases object with
    | none => cases he
    | some o' =>
      rw [pair?] at he
      dsimp only at he
      split at he
      · cases he
        exact ⟨rfl, rfl⟩
      · cases he

/-- What is picked from entries and keeps their addresses stands in the order of the
entries. -/
theorem sublist_filterMap_entries {f : SlotAddr × Slot → Option (SlotAddr × ObjectId)}
    (hf : ∀ e p, f e = some p → p.1 = e.1) (es : List (SlotAddr × Slot)) :
    ((es.filterMap f).map Prod.fst).Sublist (es.map Prod.fst) := by
  induction es with
  | nil => exact List.Sublist.slnil
  | cons e es ih =>
    rw [List.filterMap_cons, List.map_cons]
    cases he : f e with
    | none => exact ih.cons _
    | some p =>
      dsimp only
      rw [List.map_cons, hf e p he]
      exact ih.cons_cons _

/-- The slots to be decided are among those of the entries. -/
theorem Doomed.sublist_pairs (h : Heap) (es : List (SlotAddr × Slot)) :
    ((es.filterMap (pair? h)).map Prod.fst).Sublist (es.map Prod.fst) :=
  sublist_filterMap_entries (fun _ _ he => (pair?_eq_some he).1) es

namespace PersistentStore

variable {s : PersistentStore} {h : Heap}

/-- The scan of the arena adds each slot that it is to decide. -/
theorem doomed_eq_foldl (s : PersistentStore) (h : Heap) :
    s.doomed h = s.slots.entries.foldl (Doomed.visit h) [] := by
  rw [doomed]
  congr 1
  funext ds e
  obtain ⟨addr, object, kind⟩ := e
  cases kind with
  | strong => cases object <;> rfl
  | weak =>
    cases object with
    | none => rfl
    | some o =>
      by_cases hz : (h.cell o).tally.strong = 0
      · simp only [Doomed.visit, Doomed.pair?, if_pos hz]
      · simp only [Doomed.visit, Doomed.pair?, if_neg hz]

/-- A sweep lists each slot that it is to decide once. -/
theorem pairs_doomed (s : PersistentStore) (h : Heap) :
    (Doomed.pairs (s.doomed h)).Perm (s.slots.entries.filterMap (Doomed.pair? h)) := by
  have := Doomed.pairs_foldl h s.slots.entries []
  rwa [← doomed_eq_foldl, show Doomed.pairs [] = [] from rfl, List.append_nil] at this

/-- **What a sweep finds:** each slot that it is to decide holds its object weakly. -/
theorem IsStored.get?_of_mem_pairs (hs : s.IsStored) {addr : SlotAddr} {o : ObjectId}
    (hd : (addr, o) ∈ Doomed.pairs (s.doomed h)) :
    s.slots.get? addr = some (.holding o .weak) := by
  obtain ⟨c, xs, hs⟩ := hs
  obtain ⟨⟨b, x⟩, hmem, he⟩ := List.mem_filterMap.1 ((s.pairs_doomed h).mem_iff.1 hd)
  obtain ⟨rfl, rfl⟩ := Doomed.pair?_eq_some he
  exact hs.mem_entries_iff.1 hmem

/-- No slot is to be decided twice. -/
theorem IsStored.nodup_pairs (hs : s.IsStored) (h : Heap) :
    ((Doomed.pairs (s.doomed h)).map Prod.fst).Nodup := by
  obtain ⟨c, xs, hs⟩ := hs
  rw [((s.pairs_doomed h).map Prod.fst).nodup_iff]
  exact hs.nodup_addresses.sublist (Doomed.sublist_pairs h s.slots.entries)

end PersistentStore

/-! ### What the host may do in callbacks -/

namespace Sweep

/-- What the callback of a slot is told. -/
def callOf (w : Sweep) (o : ObjectId) (addr : SlotAddr) (r : WeakRecord) : WeakCall :=
  ⟨addr, r.param, o, (w.heap.cell o).tally, (w.heap.cell o).isDestroyed⟩

/-- The heap as a callback starts. -/
def heapOf (w : Sweep) (o : ObjectId) (addr : SlotAddr) (r : WeakRecord) : Heap :=
  w.heap.record (.weakCalled (w.callOf o addr r))

/-- What a callback answers. -/
def replyOf (w : Sweep) (o : ObjectId) (addr : SlotAddr) (r : WeakRecord) : WeakReply :=
  r.callback (w.callOf o addr r) (w.heapOf o addr r)

/-- The host may do what the callback of a slot does, while others hold `F`. -/
def AskCovered (strict : Prop) (F : Account) (w : Sweep) (o : ObjectId) (addr : SlotAddr)
    (L L' : Ledger) : Prop :=
  match w.store.record? addr with
  | none => L' = L
  | some r =>
    Ledger.CoversAll strict (F + w.store.holds) (w.heapOf o addr r)
      (w.replyOf o addr r).effects L L'

/-- The host may do what the callbacks of slots do, one after another. -/
def AskAllCovered (strict : Prop) (F : Account) (w : Sweep) (o : ObjectId) :
    List SlotAddr → Ledger → Ledger → Prop
  | [], L, L' => L' = L
  | addr :: rest, L, L' =>
    ∃ L₁, w.AskCovered strict F o addr L L₁ ∧ (w.ask o addr).2.AskAllCovered strict F o rest L₁ L'

/-- The host may do what the callbacks for objects do, one object after another. -/
def AllCovered (strict : Prop) (F : Account) : Sweep → List Doomed → Ledger → Ledger → Prop
  | _, [], L, L' => L' = L
  | w, d :: rest, L, L' =>
    ∃ L₁, w.AskAllCovered strict F d.object d.slots L L₁ ∧
      AllCovered strict F (w.judge d) rest L₁ L'

/-- The books of a sweep under way, if the host's ledger is `L` and others hold `F`. -/
structure Books (strict : Prop) (F : Account) (w : Sweep) (L : Ledger) : Prop where
  stored : w.store.IsStored
  books : w.heap.Books strict L.met (L.holds + (F + w.store.holds))

variable {strict : Prop} {F : Account} {w : Sweep} {L L' : Ledger} {o : ObjectId}
  {addr : SlotAddr}

theorem ask_of_none (hr : w.store.record? addr = none) : w.ask o addr = (true, w) := by
  rw [ask, hr]

/-- The slot that a callback revives. -/
def revive (w : Sweep) (addr : SlotAddr) (heap : Heap) (report : SweepReport) : Sweep :=
  match w.store.slots.get? addr with
  | none => { store := w.store.forget addr, heap, report }
  | some x =>
    { store := (w.store.forget addr).write addr (x.makeStrong heap).1
      heap := (x.makeStrong heap).2
      report }

/-- What asking a slot does. -/
theorem ask_of_some {r : WeakRecord} (hr : w.store.record? addr = some r) :
    w.ask o addr
      = match (w.replyOf o addr r).outcome with
        | .release =>
          (true, { w with
            heap := (w.heapOf o addr r).settle (w.replyOf o addr r).effects
            report := { w.report with invoked := w.report.invoked + 1 } })
        | .revive =>
          (false, w.revive addr ((w.heapOf o addr r).settle (w.replyOf o addr r).effects)
            { w.report with
              invoked := w.report.invoked + 1
              revived := w.report.revived + 1 }) := by
  rw [ask, hr]
  dsimp only
  rw [← callOf, ← heapOf, ← replyOf]
  cases (w.replyOf o addr r).outcome with
  | release => rfl
  | revive =>
    rw [revive]
    dsimp only [PersistentStore.forget]
    cases w.store.slots.get? addr <;> rfl

/-- **Asking a slot keeps the books,** if it holds its object weakly; no other slot is
touched, nor this one if it is to be emptied. -/
theorem Books.ask (hw : w.Books strict F L) (hc : w.AskCovered strict F o addr L L')
    (hx : w.store.slots.get? addr = some (.holding o .weak)) :
    (w.ask o addr).2.Books strict F L' ∧
      ∀ b, b ≠ addr → (w.ask o addr).2.store.slots.get? b = w.store.slots.get? b := by
  obtain ⟨hs, hb⟩ := hw
  rw [AskCovered] at hc
  cases hr : w.store.record? addr with
  | none =>
    rw [hr] at hc
    rw [ask_of_none hr, hc]
    exact ⟨⟨hs, hb⟩, fun _ _ => rfl⟩
  | some r =>
    rw [hr] at hc
    have hpos : 0 < (L.holds + (F + w.store.holds)).total o := by
      have := hs.total_holds_pos hx (o := o) rfl
      rw [Account.total_add, Account.total_add]
      omega
    have hb' := hc.books (hb.record (w.callOf o addr r) hpos rfl)
    rw [ask_of_some hr]
    cases (w.replyOf o addr r).outcome with
    | release => exact ⟨⟨hs, hb'⟩, fun _ _ => rfl⟩
    | revive =>
      dsimp only
      rw [revive, hx]
      dsimp only
      obtain ⟨R, hR, hw⟩ := PersistentStore.IsStored.write (s := w.store.forget addr) hs hx
      obtain ⟨hs', hw⟩ := hw (Slot.makeStrong (.holding o .weak)
        ((w.heapOf o addr r).settle (w.replyOf o addr r).effects)).1
      refine ⟨⟨hs', ?_⟩, fun b hne => Arena.get?_write_of_ne hne _⟩
      rw [show w.store.holds = _ from hR, ← add_assoc, ← add_assoc] at hb'
      rw [hw, ← add_assoc, ← add_assoc]
      exact Slot.books_makeStrong hb'

/-- Emptying a slot keeps the books and touches no other slot. -/
theorem Books.clear (hw : w.Books strict F L) (addr : SlotAddr) :
    (w.clear addr).Books strict F L ∧
      ∀ b, b ≠ addr → (w.clear addr).store.slots.get? b = w.store.slots.get? b := by
  obtain ⟨hs, hb⟩ := hw
  cases hx : (w.store.forget addr).slots.get? addr with
  | none =>
    simp only [Sweep.clear, hx]
    exact ⟨⟨hs, hb⟩, fun _ _ => rfl⟩
  | some x =>
    obtain ⟨R, hR, hw⟩ := PersistentStore.IsStored.write (s := w.store.forget addr) hs hx
    obtain ⟨hs', hw⟩ := hw (x.release w.heap).2.1
    simp only [Sweep.clear, hx]
    refine ⟨⟨hs', ?_⟩, fun b hne => Arena.get?_write_of_ne hne _⟩
    rw [show w.store.holds = _ from hR, ← add_assoc, ← add_assoc] at hb
    show Heap.Books strict L.met _
      (L.holds + (F + ((w.store.forget addr).write addr (x.release w.heap).2.1).holds))
    rw [hw, Slot.release_emptied, Slot.holds_emptied, add_zero, ← add_assoc]
    exact Slot.books_release hb

theorem Books.clearAll (hw : w.Books strict F L) (addrs : List SlotAddr) :
    (addrs.foldl Sweep.clear w).Books strict F L ∧
      ∀ b, b ∉ addrs → (addrs.foldl Sweep.clear w).store.slots.get? b = w.store.slots.get? b := by
  induction addrs generalizing w with
  | nil => exact ⟨hw, fun _ _ => rfl⟩
  | cons addr rest ih =>
    obtain ⟨hw', hother⟩ := hw.clear addr
    obtain ⟨hw'', hother'⟩ := ih hw'
    refine ⟨hw'', fun b hb => ?_⟩
    rw [List.mem_cons, not_or] at hb
    rw [List.foldl_cons, hother' b hb.2, hother b hb.1]

theorem Books.askAll {addrs : List SlotAddr} (hw : w.Books strict F L)
    (hc : w.AskAllCovered strict F o addrs L L') (hnd : addrs.Nodup)
    (hx : ∀ a ∈ addrs, w.store.slots.get? a = some (.holding o .weak)) :
    (w.askAll o addrs).2.Books strict F L' ∧
      (∀ b, b ∉ addrs → (w.askAll o addrs).2.store.slots.get? b = w.store.slots.get? b) ∧
      ∀ a ∈ (w.askAll o addrs).1, a ∈ addrs := by
  induction addrs generalizing w L with
  | nil =>
    obtain rfl : L' = L := hc
    exact ⟨hw, fun _ _ => rfl, fun _ ha => ha⟩
  | cons addr rest ih =>
    obtain ⟨L₁, hfirst, hrest⟩ := hc
    rw [List.nodup_cons] at hnd
    obtain ⟨hw', hother⟩ := hw.ask hfirst (hx addr List.mem_cons_self)
    obtain ⟨hw'', hother', hsub⟩ := ih hw' hrest hnd.2 fun a ha => by
      rw [hother a fun he => hnd.1 (he ▸ ha)]
      exact hx a (List.mem_cons_of_mem _ ha)
    rw [Sweep.askAll]
    refine ⟨hw'', fun b hb => ?_, fun a ha => ?_⟩
    · rw [List.mem_cons, not_or] at hb
      exact (hother' b hb.2).trans (hother b hb.1)
    · dsimp only at ha
      split at ha
      · rcases List.mem_cons.1 ha with rfl | ha
        · exact List.mem_cons_self
        · exact List.mem_cons_of_mem _ (hsub a ha)
      · exact List.mem_cons_of_mem _ (hsub a ha)

/-- Deciding an object keeps the books and touches no slot of another object. -/
theorem Books.judge {d : Doomed} (hw : w.Books strict F L)
    (hc : w.AskAllCovered strict F d.object d.slots L L') (hnd : d.slots.Nodup)
    (hx : ∀ a ∈ d.slots, w.store.slots.get? a = some (.holding d.object .weak)) :
    (w.judge d).Books strict F L' ∧
      ∀ b, b ∉ d.slots → (w.judge d).store.slots.get? b = w.store.slots.get? b := by
  obtain ⟨hw', hother, hsub⟩ := hw.askAll hc hnd hx
  obtain ⟨hw'', hother'⟩ := hw'.clearAll (w.askAll d.object d.slots).1
  exact ⟨hw'', fun b hb => (hother' b fun hb' => hb (hsub b hb')).trans (hother b hb)⟩

/-- **Deciding objects keeps the books,** if their slots are different ones and hold them
weakly as the sweep begins. -/
theorem Books.judgeAll {ds : List Doomed} (hw : w.Books strict F L)
    (hc : w.AllCovered strict F ds L L') (hnd : ((Doomed.pairs ds).map Prod.fst).Nodup)
    (hx : ∀ a o, (a, o) ∈ Doomed.pairs ds → w.store.slots.get? a = some (.holding o .weak)) :
    (ds.foldl Sweep.judge w).Books strict F L' := by
  induction ds generalizing w L with
  | nil =>
    obtain rfl : L' = L := hc
    exact hw
  | cons d ds ih =>
    obtain ⟨L₁, hfirst, hrest⟩ := hc
    rw [Doomed.pairs_cons] at hx
    rw [Doomed.pairs_cons, List.map_append, Doomed.map_fst_slots, List.nodup_append] at hnd
    obtain ⟨hnd₁, hnd₂, hdisj⟩ := hnd
    obtain ⟨hw', hother⟩ := hw.judge hfirst hnd₁ fun a ha =>
      hx a d.object (List.mem_append_left _ (List.mem_map_of_mem ha))
    refine ih hw' hrest hnd₂ fun a o ha => ?_
    rw [hother a fun hm => hdisj a hm a (List.mem_map_of_mem ha) rfl]
    exact hx a o (List.mem_append_right _ ha)

end Sweep

/-- The host may do what the callbacks of a sweep do, while others hold `F`. -/
def PersistentStore.SweepCovered (strict : Prop) (F : Account) (s : PersistentStore) (h : Heap)
    (L L' : Ledger) : Prop :=
  Sweep.AllCovered strict F { store := s, heap := h } (s.doomed h) L L'

/-- **A sweep keeps the books.** -/
theorem PersistentStore.books_sweep {strict : Prop} {F : Account} {s : PersistentStore} {h : Heap}
    {L L' : Ledger} (hs : s.IsStored) (hc : s.SweepCovered strict F h L L')
    (hb : h.Books strict L.met (L.holds + (F + s.holds))) :
    (s.sweep h).2.1.IsStored ∧
      (s.sweep h).2.2.Books strict L'.met (L'.holds + (F + (s.sweep h).2.1.holds)) := by
  have hw : Sweep.Books strict F { store := s, heap := h } L := ⟨hs, hb⟩
  have := hw.judgeAll hc (hs.nodup_pairs h) fun a o ha => hs.get?_of_mem_pairs ha
  exact ⟨this.stored, this.books⟩

/-! ### Quiet callbacks -/

namespace Sweep

variable {strict : Prop} {F : Account} {w : Sweep} {L : Ledger} {o : ObjectId}
  {addr : SlotAddr}

/-! A sweep adds no record. -/

theorem records_ask (w : Sweep) (o : ObjectId) (addr : SlotAddr) :
    (w.ask o addr).2.store.records ⊆ w.store.records := by
  cases hr : w.store.record? addr with
  | none =>
    rw [ask_of_none hr]
    exact List.Subset.refl _
  | some r =>
    rw [ask_of_some hr]
    cases (w.replyOf o addr r).outcome with
    | release => exact List.Subset.refl _
    | revive =>
      dsimp only [revive]
      split <;> exact List.filter_sublist.subset

theorem records_askAll (w : Sweep) (o : ObjectId) (addrs : List SlotAddr) :
    (w.askAll o addrs).2.store.records ⊆ w.store.records := by
  induction addrs generalizing w with
  | nil => exact List.Subset.refl _
  | cons addr rest ih => exact List.Subset.trans (ih (w.ask o addr).2) (w.records_ask o addr)

theorem records_clear (w : Sweep) (addr : SlotAddr) :
    (w.clear addr).store.records ⊆ w.store.records := by
  unfold Sweep.clear
  dsimp only
  split <;> exact List.filter_sublist.subset

theorem records_judge (w : Sweep) (d : Doomed) :
    (w.judge d).store.records ⊆ w.store.records := by
  have hclear : ∀ (addrs : List SlotAddr) (w' : Sweep),
      (addrs.foldl Sweep.clear w').store.records ⊆ w'.store.records := by
    intro addrs
    induction addrs with
    | nil => exact fun w' => List.Subset.refl _
    | cons addr rest ih => exact fun w' => List.Subset.trans (ih (w'.clear addr)) (w'.records_clear addr)
  exact List.Subset.trans (hclear _ _) (w.records_askAll d.object d.slots)

/-- Whether no callback changes a tally. -/
def Quiet (w : Sweep) : Prop := ∀ r ∈ w.store.records, ∀ c h, (r.2.callback c h).effects = []

theorem Quiet.mono {w' : Sweep} (hq : w.Quiet) (h : w'.store.records ⊆ w.store.records) :
    w'.Quiet := fun r hr => hq r (h hr)

theorem Quiet.askCovered (hq : w.Quiet) (o : ObjectId) (addr : SlotAddr) (L : Ledger) :
    w.AskCovered strict F o addr L L := by
  unfold AskCovered
  cases hr : w.store.record? addr with
  | none => rfl
  | some r =>
    obtain ⟨e, he, rfl⟩ := Option.map_eq_some_iff.1 hr
    dsimp only [replyOf]
    rw [hq e (List.mem_of_find?_eq_some he)]
    exact .nil _ _

theorem Quiet.askAllCovered (hq : w.Quiet) (o : ObjectId) (addrs : List SlotAddr) (L : Ledger) :
    w.AskAllCovered strict F o addrs L L := by
  induction addrs generalizing w with
  | nil => rfl
  | cons addr rest ih =>
    exact ⟨L, hq.askCovered o addr L, ih (hq.mono (w.records_ask o addr))⟩

theorem Quiet.allCovered (hq : w.Quiet) (ds : List Doomed) (L : Ledger) :
    w.AllCovered strict F ds L L := by
  induction ds generalizing w with
  | nil => exact rfl
  | cons d ds ih =>
    exact ⟨L, hq.askAllCovered d.object d.slots L, ih (hq.mono (w.records_judge d))⟩

end Sweep

/-- **Quiet callbacks ask nothing of the host.** -/
theorem PersistentStore.sweepCovered_of_quiet {strict : Prop} {F : Account} {s : PersistentStore}
    {h : Heap} {L : Ledger} (hq : ∀ r ∈ s.records, ∀ c h, (r.2.callback c h).effects = []) :
    s.SweepCovered strict F h L L :=
  Sweep.Quiet.allCovered (w := { store := s, heap := h }) hq (s.doomed h) L

end EngineHandles
