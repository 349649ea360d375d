/-
# Requests and objects that somebody refers to

What an isolate does with its handles makes no new reference, except to the object for which a
handle is made (`Request.sound_serve`).  A sweep lets the host do more, in its callbacks, but a
host that plays fair does not use that to bring a destroyed object back
(`Isolate.sound_collectWeak`).  So no request destroys an object to which somebody else refers.
-/

import EngineHandles.Proofs.Heap.Waning
import EngineHandles.Proofs.Isolate.Access

namespace EngineHandles

/-! ### Stores -/

namespace Slot

theorem wanes_release (x : Slot) (h : Heap) : h.Wanes (x.release h).2.2 := by
  unfold release
  split
  · exact .refl h
  · exact .release h _ _

theorem wanes_makeWeak (x : Slot) (h : Heap) : h.Wanes (x.makeWeak h).2 := by
  obtain ⟨object, kind⟩ := x
  cases kind with
  | weak => exact .refl h
  | strong =>
    cases object with
    | none => exact .refl h
    | some o => exact .weaken h o

theorem wanes_makeStrong (x : Slot) (h : Heap) : h.Wanes (x.makeStrong h).2 := by
  obtain ⟨object, kind⟩ := x
  cases kind with
  | strong => exact .refl h
  | weak =>
    cases object with
    | none => exact .refl h
    | some o => exact .strengthen h o

theorem wanes_releaseFromEnd (xs : List Slot) (h : Heap) : h.Wanes (releaseFromEnd xs h) := by
  induction xs with
  | nil => exact .refl h
  | cons x xs ih => exact ih.trans (x.wanes_release _)

end Slot

namespace Arena

theorem wanes_delete (a : Arena) (target : SlotAddr) (h : Heap) :
    h.Wanes (a.delete target h).2.2 := by
  unfold delete
  split
  · exact .refl h
  · dsimp only
    split
    · exact .refl h
    · split
      · exact Slot.wanes_releaseFromEnd _ h
      · exact .refl h

theorem wanes_adopt (a : Arena) (o : ObjectId) (h : Heap) : h.Wanes (a.adopt o h).2.2 := by
  unfold adopt
  split
  · exact .release h o .strong
  · exact .refl h

end Arena

namespace ScopeStack

theorem wanes_popFrame (s : ScopeStack) (h : Heap) : h.Wanes (s.popFrame h).2.2 := by
  unfold popFrame
  split
  · exact .refl h
  · next f below _ =>
    have hdelete := s.locals.wanes_delete f.checkpoint.nextFree h
    split
    · exact .refl h
    · generalize s.locals.delete f.checkpoint.nextFree h = r at hdelete
      obtain ⟨r, a, h'⟩ := r
      cases r <;> exact hdelete

theorem wanes_leave (s : ScopeStack) (id : ScopeId) (h : Heap) : h.Wanes (s.leave id h).2.2 := by
  have hpop := s.wanes_popFrame h
  unfold leave
  split
  · exact .refl h
  · generalize s.popFrame h = r at hpop
    obtain ⟨r, s', h'⟩ := r
    cases r <;> exact hpop

theorem wanes_escape (s : ScopeStack) (id : ScopeId) (slot : SlotAddr) (h : Heap) :
    h.Wanes (s.escape id slot h).2.2 := by
  unfold escape
  split
  · exact .refl h
  split
  · exact .refl h
  split
  · exact .refl h
  split
  · exact .refl h
  · exact .refl h
  · next o x _ =>
    have hpop := wanes_popFrame { s with locals := s.locals.write slot x } h
    generalize popFrame { s with locals := s.locals.write slot x } h = r at hpop
    obtain ⟨r, s', h'⟩ := r
    cases r with
    | error e => exact hpop
    | ok n =>
      have hadopt := s'.locals.wanes_adopt o h'
      dsimp only
      generalize s'.locals.adopt o h' = r at hadopt
      obtain ⟨r, a, h''⟩ := r
      cases r <;> exact hpop.trans hadopt

end ScopeStack

namespace PersistentStore

theorem wanes_delete (s : PersistentStore) (addr : SlotAddr) (h : Heap) :
    h.Wanes (s.delete addr h).2.2 := by
  unfold delete
  split
  · exact .refl h
  · split
    · exact .refl h
    · exact Slot.wanes_release _ h

theorem wanes_makeWeak (s : PersistentStore) (addr : SlotAddr) (r : WeakRecord) (h : Heap) :
    h.Wanes (s.makeWeak addr r h).2.2 := by
  unfold makeWeak
  split
  · exact .refl h
  · split
    · exact .refl h
    · exact Slot.wanes_makeWeak _ h

theorem wanes_clearWeak (s : PersistentStore) (addr : SlotAddr) (h : Heap) :
    h.Wanes (s.clearWeak addr h).2.2 := by
  unfold clearWeak
  split
  · exact .refl h
  · exact Slot.wanes_makeStrong _ h

end PersistentStore

/-- An isolate that ends only lets go. -/
theorem Storage.wanes_discard (s : Storage) (h : Heap) : h.Wanes (s.discard h) := by
  have hstacks : ∀ (entries : List (ThreadKey × ScopeStack)) (h : Heap),
      h.Wanes (entries.foldl (fun h e => e.2.discard h) h) := by
    intro entries
    induction entries with
    | nil => exact .refl
    | cons e rest ih => exact fun h => .trans (Slot.wanes_releaseFromEnd _ h) (ih _)
  exact (hstacks s.scopeStacks h).trans (Slot.wanes_releaseFromEnd _ _)

/-! ### Requests -/

namespace Isolate

variable {i : Isolate} {t : ThreadKey} {w : Shared} {o : ObjectId}

theorem wanes_run {α : Type} {site : Site}
    {op : Storage → Shared → Except HandleError (α × RootTransition) × Storage × Shared}
    (hop : w.heap.Wanes (op i.storage w).2.2.heap) : w.heap.Wanes (i.run t site w op).2.2.heap :=
  run_keeps (P := fun _ h _ => w.heap.Wanes h) (fun _ _ _ _ h => h) (.refl _) hop

theorem wanes_openScope : w.heap.Wanes (i.openScope t w).2.2.heap := by
  refine wanes_run ?_
  dsimp only
  split <;> exact .refl _

theorem wanes_closeScope (scope : ScopeId) : w.heap.Wanes (i.closeScope t scope w).2.2.heap := by
  refine wanes_run ?_
  cases i.storage.stack? t with
  | none => exact .refl _
  | some stack =>
    have hleave := stack.wanes_leave scope w.heap
    dsimp only
    generalize stack.leave scope w.heap = r at hleave
    obtain ⟨r, stack', h⟩ := r
    cases r <;> exact hleave

theorem wanes_getLocal (l : LocalHandle) : w.heap.Wanes (i.getLocal t l w).2.2.heap := by
  rcases i.getLocal_cases t l w with ⟨e, he⟩ | ⟨o, he⟩ <;> rw [he] <;> exact .refl _

theorem wanes_escape (scope : ScopeId) (l : LocalHandle) :
    w.heap.Wanes (i.escape t scope l w).2.2.heap := by
  refine wanes_run ?_
  split
  · exact .refl _
  cases i.storage.stack? t with
  | none => exact .refl _
  | some stack =>
    have hescape := stack.wanes_escape scope l.slot w.heap
    dsimp only
    generalize stack.escape scope l.slot w.heap = r at hescape
    obtain ⟨r, stack', h⟩ := r
    cases r <;> exact hescape

theorem wanes_runOwned {α : Type} {site : Site} {owner : IsolateId}
    {op : PersistentStore → Heap → Except UsageError α × PersistentStore × Heap}
    (hop : w.heap.Wanes (op i.storage.persistents w.heap).2.2) :
    w.heap.Wanes (i.runOwned t site owner w op).2.2.heap := by
  refine wanes_run ?_
  split
  · exact .refl _
  · generalize op i.storage.persistents w.heap = r at hop
    obtain ⟨r, p, h⟩ := r
    cases r <;> exact hop

/-! A new handle comes with a new reference. -/

theorem heap_addLocalTo (i : Isolate) (t : ThreadKey) (scope : Option ScopeId) (o : ObjectId)
    (w : Shared) : (i.addLocalTo t scope o w).2.2.heap = w.heap ∨
      (i.addLocalTo t scope o w).2.2.heap = w.heap.retain o .strong := by
  refine run_keeps (P := fun _ h _ => h = w.heap ∨ h = w.heap.retain o .strong)
    (fun _ _ _ _ h => h) (.inl rfl) ?_
  cases i.storage.stack? t with
  | none => exact .inl rfl
  | some stack =>
    dsimp only
    cases addFault? stack scope with
    | some e => exact .inl rfl
    | none =>
      have hadd : (stack.add o w.heap).2.2 = w.heap ∨
          (stack.add o w.heap).2.2 = w.heap.retain o .strong := by
        unfold ScopeStack.add Arena.add
        cases stack.innermost? with
        | none => exact .inl rfl
        | some top =>
          generalize stack.locals.append (.holding o .strong) = r
          obtain ⟨r, a⟩ := r
          cases r with
          | error e => exact .inl rfl
          | ok added => exact .inr rfl
      dsimp only
      generalize stack.add o w.heap = r at hadd
      obtain ⟨r, stack', h⟩ := r
      cases r <;> exact hadd

theorem heap_makePersistent (i : Isolate) (t : ThreadKey) (o : ObjectId) (w : Shared) :
    (i.makePersistent t o w).2.2.heap = w.heap ∨
      (i.makePersistent t o w).2.2.heap = w.heap.retain o .strong := by
  unfold makePersistent
  split
  · exact .inl rfl
  · refine run_keeps (P := fun _ h _ => h = w.heap ∨ h = w.heap.retain o .strong)
      (fun _ _ _ _ h => h) (.inl rfl) ?_
    have hmake : (i.storage.persistents.make o w.heap).2.2 = w.heap ∨
        (i.storage.persistents.make o w.heap).2.2 = w.heap.retain o .strong := by
      unfold PersistentStore.make Arena.add
      generalize i.storage.persistents.slots.append (.holding o .strong) = r
      obtain ⟨r, a⟩ := r
      cases r with
      | error e => exact .inl rfl
      | ok added => exact .inr rfl
    generalize i.storage.persistents.make o w.heap = r at hmake
    obtain ⟨r, p, h⟩ := r
    cases r <;> exact hmake

end Isolate

/-- **What a request does to the heap:** it makes no new reference, or one for a new handle. -/
theorem Request.heap_serve (r : Request) (hr : r ≠ .collectWeak) (t : ThreadKey) (i : Isolate)
    (w : Shared) : w.heap.Wanes (r.serve t i w).2.2.heap ∨
      ∃ o, (r.serve t i w).2.2.heap = w.heap.retain o .strong := by
  have hnew : ∀ {h : Heap} {o}, h = w.heap ∨ h = w.heap.retain o .strong →
      w.heap.Wanes h ∨ ∃ o, h = w.heap.retain o .strong := by
    rintro h o (rfl | rfl)
    · exact .inl (.refl _)
    · exact .inr ⟨o, rfl⟩
  cases r with
  | openScope => exact .inl Isolate.wanes_openScope
  | closeScope scope => exact .inl (Isolate.wanes_closeScope scope)
  | addLocal scope o => exact hnew (i.heap_addLocalTo t scope o w)
  | getLocal l => exact .inl (Isolate.wanes_getLocal l)
  | escape scope l => exact .inl (Isolate.wanes_escape scope l)
  | makePersistent o => exact hnew (i.heap_makePersistent t o w)
  | persistLocal l =>
    show w.heap.Wanes (i.persistLocal t l w).2.2.heap ∨
      ∃ o, (i.persistLocal t l w).2.2.heap = w.heap.retain o .strong
    unfold Isolate.persistLocal
    rcases i.getLocal_cases t l w with ⟨e, he⟩ | ⟨o, he⟩ <;> rw [he]
    · exact .inl (.refl _)
    · exact hnew (i.heap_makePersistent t o w)
  | dispose p => exact .inl (Isolate.wanes_runOwned (PersistentStore.wanes_delete _ _ _))
  | makeWeak p record => exact .inl (Isolate.wanes_runOwned (PersistentStore.wanes_makeWeak _ _ _ _))
  | clearWeak p => exact .inl (Isolate.wanes_runOwned (PersistentStore.wanes_clearWeak _ _ _))
  | collectWeak => exact absurd rfl hr

/-- **A request refers to no destroyed object anew,** if this one is not destroyed. -/
theorem Request.sound_serve (r : Request) (hr : r ≠ .collectWeak) (t : ThreadKey) (i : Isolate)
    {w : Shared} {o : ObjectId} (hs : w.heap.Sound o) (ho : (w.heap.cell o).isDestroyed = false) :
    (r.serve t i w).2.2.heap.Sound o := by
  rcases r.heap_serve hr t i w with hwanes | ⟨x, hretain⟩
  · exact hs.wanes hwanes
  · rw [hretain]
    exact hs.retain (fun _ => ho) .strong

/-! ### Sweeps -/

namespace Sweep

variable {strict : Prop} {F : Account} {w : Sweep} {L L' : Ledger} {o x : ObjectId}

theorem sound_ask {addr : SlotAddr} (hw : w.Books strict F L)
    (hc : w.AskCovered strict F x addr L L')
    (hx : w.store.slots.get? addr = some (.holding x .weak)) (hs : w.heap.Sound o)
    (ho : 0 < F.total o) : (w.ask x addr).2.heap.Sound o := by
  rw [AskCovered] at hc
  cases hr : w.store.record? addr with
  | none =>
    rw [ask_of_none hr]
    exact hs
  | some r =>
    rw [hr] at hc
    have hpos : 0 < (L.holds + (F + w.store.holds)).total x := by
      have := hw.stored.total_holds_pos hx (o := x) rfl
      rw [Account.total_add, Account.total_add]
      omega
    have hrecorded : (w.heapOf x addr r).Sound o := ⟨hs.owns, hs.bare⟩
    have hsettled := hc.sound (hw.books.record (w.callOf x addr r) hpos rfl) hrecorded
      (by rw [Account.total_add]; omega)
    rw [ask_of_some hr]
    cases (w.replyOf x addr r).outcome with
    | release => exact hsettled
    | revive =>
      dsimp only
      rw [revive, hx]
      exact hsettled.wanes (Slot.wanes_makeStrong _ _)

theorem sound_askAll {addrs : List SlotAddr} (hw : w.Books strict F L)
    (hc : w.AskAllCovered strict F x addrs L L') (hnd : addrs.Nodup)
    (hx : ∀ a ∈ addrs, w.store.slots.get? a = some (.holding x .weak)) (hs : w.heap.Sound o)
    (ho : 0 < F.total o) : (w.askAll x addrs).2.heap.Sound o := by
  induction addrs generalizing w L with
  | nil => exact hs
  | cons addr rest ih =>
    obtain ⟨L₁, hfirst, hrest⟩ := hc
    rw [List.nodup_cons] at hnd
    have haddr := hx addr List.mem_cons_self
    obtain ⟨hw', hother⟩ := hw.ask hfirst haddr
    refine ih hw' hrest hnd.2 (fun a ha => ?_) (sound_ask hw hfirst haddr hs ho)
    exact (hother a fun he => hnd.1 (he ▸ ha)).trans (hx a (List.mem_cons_of_mem _ ha))

theorem wanes_clear (w : Sweep) (addr : SlotAddr) : w.heap.Wanes (w.clear addr).heap := by
  unfold Sweep.clear
  dsimp only
  split
  · exact .refl _
  · exact Slot.wanes_release _ _

/-- Deciding one object destroys no other to which somebody refers. -/
theorem sound_judge {d : Doomed} (hw : w.Books strict F L)
    (hc : w.AskAllCovered strict F d.object d.slots L L') (hnd : d.slots.Nodup)
    (hx : ∀ a ∈ d.slots, w.store.slots.get? a = some (.holding d.object .weak))
    (hs : w.heap.Sound o) (ho : 0 < F.total o) : (w.judge d).heap.Sound o := by
  have hclear : ∀ (addrs : List SlotAddr) (w : Sweep),
      w.heap.Wanes (addrs.foldl Sweep.clear w).heap := by
    intro addrs
    induction addrs with
    | nil => exact fun w => .refl _
    | cons addr rest ih => exact fun w => (w.wanes_clear addr).trans (ih _)
  exact (sound_askAll hw hc hnd hx hs ho).wanes (hclear _ _)

theorem sound_judgeAll {ds : List Doomed} (hw : w.Books strict F L)
    (hc : w.AllCovered strict F ds L L') (hnd : ((Doomed.pairs ds).map Prod.fst).Nodup)
    (hx : ∀ a x, (a, x) ∈ Doomed.pairs ds → w.store.slots.get? a = some (.holding x .weak))
    (hs : w.heap.Sound o) (ho : 0 < F.total o) : (ds.foldl Sweep.judge w).heap.Sound o := by
  induction ds generalizing w L with
  | nil => exact hs
  | cons d ds ih =>
    obtain ⟨L₁, hfirst, hrest⟩ := hc
    rw [Doomed.pairs_cons] at hx
    rw [Doomed.pairs_cons, List.map_append, Doomed.map_fst_slots, List.nodup_append] at hnd
    obtain ⟨hnd₁, hnd₂, hdisj⟩ := hnd
    have hslots : ∀ a ∈ d.slots, w.store.slots.get? a = some (.holding d.object .weak) := fun a ha =>
      hx a d.object (List.mem_append_left _ (List.mem_map_of_mem ha))
    obtain ⟨hw', hother⟩ := hw.judge hfirst hnd₁ hslots
    refine ih hw' hrest hnd₂ (fun a x ha => ?_) (sound_judge hw hfirst hnd₁ hslots hs ho)
    have hsame := hother a fun hm => hdisj a hm a (List.mem_map_of_mem ha) rfl
    exact hsame.trans (hx a x (List.mem_append_right _ ha))

end Sweep

/-- **A sweep refers to no destroyed object anew,** if somebody but the host and the persistent
handles of the isolate refers to this one; `F` is what everybody but the host and this isolate
holds. -/
theorem Isolate.sound_collectWeak {strict : Prop} {F : Account} {L L' : Ledger} {i : Isolate}
    {w : Shared} {o : ObjectId}
    (hc : i.storage.persistents.SweepCovered strict (F + i.storage.localHolds) w.heap L L')
    (hb : i.storage.Books strict L.met (L.holds + F) w.heap) (hs : w.heap.Sound o)
    (ho : 0 < (F + i.storage.localHolds).total o) : (i.collectWeak w).2.2.heap.Sound o := by
  have hb' := hb.books
  rw [Storage.holds, ← add_assoc, add_assoc L.holds, add_assoc L.holds] at hb'
  have hstored := hb.wellFormed.stored
  have hw : Sweep.Books strict (F + i.storage.localHolds)
      { store := i.storage.persistents, heap := w.heap } L := ⟨hstored, hb'⟩
  exact Sweep.sound_judgeAll hw hc (hstored.nodup_pairs w.heap)
    (fun a x ha => hstored.get?_of_mem_pairs ha) hs ho

end EngineHandles
