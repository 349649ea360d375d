/-
# The requests that an isolate serves

A `Request` is one use of an isolate's handle interface by a thread, as data, so that runs
can be lists of requests; `Request.serve` is what it does.  Nearly all of them go through
`Isolate.run`: either the thread may not touch the storage, and nothing but the isolate's
flag and the host's record of signals changes, or the storage is operated on
(`Isolate.run_cases`).

Every request keeps the books of the heap (`Request.books_serve`), the sweep if its
callbacks are covered by the host's ledger (`Isolate.books_collectWeak`).
-/

import EngineHandles.Proofs.Isolate.Storage

namespace EngineHandles

/-- One use of an isolate's interface. -/
inductive Request where
  | openScope
  | closeScope (scope : ScopeId)
  | addLocal (scope : Option ScopeId) (object : ObjectId)
  | getLocal (handle : LocalHandle)
  | escape (scope : ScopeId) (handle : LocalHandle)
  | makePersistent (object : ObjectId)
  | persistLocal (handle : LocalHandle)
  | dispose (handle : PersistentHandle)
  | makeWeak (handle : PersistentHandle) (record : WeakRecord)
  | clearWeak (handle : PersistentHandle)
  | collectWeak

/-- What a request answers, if it does not fail. -/
inductive Answer where
  | done
  | scope (scope : ScopeId)
  | added (handle : LocalHandle) (frontier : Frontier)
  | object (object : ObjectId)
  | moved (handle : LocalHandle)
  | made (handle : PersistentHandle)
  | swept (report : SweepReport)

/-- Reads the answer of an operation. -/
def Isolate.Outcome.map {α β : Type} (f : α → β) (r : Isolate.Outcome α) : Isolate.Outcome β :=
  (r.1.map f, r.2)

/-- Serves a request of a thread. -/
def Request.serve (r : Request) (t : ThreadKey) : Isolate.Operation (Except HandleError Answer) :=
  fun i w =>
    match r with
    | .openScope => (i.openScope t w).map .scope
    | .closeScope scope => (i.closeScope t scope w).map fun _ => .done
    | .addLocal scope o => (i.addLocalTo t scope o w).map fun (l, f) => .added l f
    | .getLocal l => (i.getLocal t l w).map .object
    | .escape scope l => (i.escape t scope l w).map .moved
    | .makePersistent o => (i.makePersistent t o w).map .made
    | .persistLocal l => (i.persistLocal t l w).map .made
    | .dispose p => (i.dispose t p w).map fun _ => .done
    | .makeWeak p record => (i.makeWeak t p record w).map fun _ => .done
    | .clearWeak p => (i.clearWeak t p w).map fun _ => .done
    | .collectWeak => (.ok (.swept (i.collectWeak w).1), (i.collectWeak w).2)

namespace Isolate

variable {i : Isolate} {t : ThreadKey} {w : Shared} {strict : Prop} {met : ObjectId → Prop}
  {A : Account}

/-- One isolate comes from another by serving threads: what it stores may be different, and
whether an operation failed. -/
def Served (i i' : Isolate) : Prop := ∃ storage failed, i' = { i with storage, failed }

theorem Served.id_eq {i i' : Isolate} (h : i.Served i') : i'.id = i.id := by
  obtain ⟨_, _, rfl⟩ := h
  rfl

theorem Served.registry_eq {i i' : Isolate} (h : i.Served i') : i'.registry = i.registry := by
  obtain ⟨_, _, rfl⟩ := h
  rfl

theorem Served.lock_eq {i i' : Isolate} (h : i.Served i') : i'.lock = i.lock := by
  obtain ⟨_, _, rfl⟩ := h
  rfl

theorem Served.trans {i i' i'' : Isolate} (h : i.Served i') (h' : i'.Served i'') :
    i.Served i'' := by
  obtain ⟨_, _, rfl⟩ := h
  obtain ⟨storage, failed, rfl⟩ := h'
  exact ⟨storage, failed, rfl⟩

/-- **What running an operation on the storage can do:** nothing but note a failure, or
what the operation does to the storage and to what isolates share. -/
theorem run_cases {α : Type} (i : Isolate) (t : ThreadKey) (site : Site) (w : Shared)
    (op : Storage → Shared → Except HandleError (α × RootTransition) × Storage × Shared) :
    i.Served (i.run t site w op).2.1 ∧
      ((i.run t site w op).2.1.storage = i.storage ∧ (i.run t site w op).2.2.heap = w.heap ∧
          (i.run t site w op).2.2.nextScope = w.nextScope ∨
        (∃ tr, (i.run t site w op).2.1.storage = (op i.storage w).2.1.note tr) ∧
          (i.run t site w op).2.2.heap = (op i.storage w).2.2.heap ∧
          (i.run t site w op).2.2.nextScope = (op i.storage w).2.2.nextScope) := by
  unfold run
  split
  · exact ⟨⟨_, _, rfl⟩, .inl ⟨rfl, rfl, rfl⟩⟩
  · split
    · next hop =>
      refine ⟨⟨_, _, rfl⟩, .inr ⟨⟨.unchanged, ?_⟩, ?_, ?_⟩⟩
      · rw [hop]
        rfl
      · rw [hop]
        rfl
      · rw [hop]
        rfl
    · next a tr storage w' hop =>
      refine ⟨⟨_, i.failed, rfl⟩, .inr ⟨⟨tr, by rw [hop]; rfl⟩, ?_⟩⟩
      rw [hop, Isolate.note]
      dsimp only
      split <;> exact ⟨rfl, rfl⟩

/-- A property of the storage, the heap and the supply of scopes that an operation keeps,
whatever the number of threads with locals, is kept by running it. -/
theorem run_keeps {α : Type} {site : Site}
    {op : Storage → Shared → Except HandleError (α × RootTransition) × Storage × Shared}
    {P : Storage → Heap → ScopeId → Prop} (hnote : ∀ s h n tr, P s h n → P (s.note tr) h n)
    (hold : P i.storage w.heap w.nextScope)
    (hop : P (op i.storage w).2.1 (op i.storage w).2.2.heap (op i.storage w).2.2.nextScope) :
    P (i.run t site w op).2.1.storage (i.run t site w op).2.2.heap
      (i.run t site w op).2.2.nextScope := by
  rcases (run_cases i t site w op).2 with ⟨hs, hh, hn⟩ | ⟨⟨tr, hs⟩, hh, hn⟩
  · rw [hs, hh, hn]
    exact hold
  · rw [hs, hh, hn]
    exact hnote _ _ _ tr hop

/-- Running an operation keeps the books if the operation does. -/
theorem books_run {α : Type} {site : Site}
    {op : Storage → Shared → Except HandleError (α × RootTransition) × Storage × Shared}
    (hb : i.storage.Books strict met A w.heap)
    (hop : (op i.storage w).2.1.Books strict met A (op i.storage w).2.2.heap) :
    (i.run t site w op).2.1.storage.Books strict met A (i.run t site w op).2.2.heap :=
  run_keeps (P := fun s h _ => s.Books strict met A h) (fun _ _ _ tr hb => hb.note tr) hb hop

/-- Running an operation that may add a reference keeps the books, if no object has too
many references afterwards. -/
theorem books_run_of_fits {α : Type} {site : Site}
    {op : Storage → Shared → Except HandleError (α × RootTransition) × Storage × Shared}
    (hb : i.storage.Books strict met A w.heap)
    (hfits : (i.run t site w op).2.2.heap.Fits (A + (i.run t site w op).2.1.storage.holds))
    (hop : (op i.storage w).2.2.heap.Fits (A + (op i.storage w).2.1.holds) →
      (op i.storage w).2.1.Books strict met A (op i.storage w).2.2.heap) :
    (i.run t site w op).2.1.storage.Books strict met A (i.run t site w op).2.2.heap := by
  refine run_keeps (P := fun s h _ => h.Fits (A + s.holds) → s.Books strict met A h)
    (fun s h _ tr hb hfits => ?_) (fun _ => hb) hop hfits
  rw [Storage.holds_note] at hfits
  exact (hb hfits).note tr

/-- When running an operation on the storage succeeds. -/
theorem run_eq_ok_iff {α : Type} (i : Isolate) (t : ThreadKey) (site : Site) (w : Shared)
    (op : Storage → Shared → Except HandleError (α × RootTransition) × Storage × Shared) (a : α) :
    (i.run t site w op).1 = .ok a ↔
      i.accessFault? t = none ∧ ∃ tr, (op i.storage w).1 = .ok (a, tr) := by
  unfold run
  split
  · next e he =>
    rw [he]
    exact iff_of_false nofun fun hh => nomatch hh.1
  · next he =>
    split
    · next e storage w' hop =>
      rw [hop]
      exact iff_of_false nofun fun hh => nomatch hh.2
    · next a' tr storage w' hop =>
      rw [hop, he]
      constructor
      · intro h
        cases h
        exact ⟨rfl, tr, rfl⟩
      · rintro ⟨-, tr', h⟩
        cases h
        rfl

/-- **What running an operation that succeeds leaves behind:** what the operation made of
the storage. -/
theorem run_ok {α : Type} {site : Site}
    {op : Storage → Shared → Except HandleError (α × RootTransition) × Storage × Shared} {a : α}
    (h : (i.run t site w op).1 = .ok a) :
    i.accessFault? t = none ∧ (i.run t site w op).2.1.accessFault? t = none ∧
      ∃ tr, (op i.storage w).1 = .ok (a, tr) ∧
        (i.run t site w op).2.1.storage = (op i.storage w).2.1.note tr := by
  obtain ⟨ha, tr, hop⟩ := (run_eq_ok_iff i t site w op a).1 h
  have hrun : i.run t site w op
      = (.ok a, { i with storage := (op i.storage w).2.1 }.note t tr (op i.storage w).2.2) := by
    unfold run
    rw [ha]
    generalize op i.storage w = r at hop
    obtain ⟨r, s, w'⟩ := r
    cases hop
    rfl
  rw [hrun]
  exact ⟨ha, ha, tr, hop, rfl⟩

theorem ownerFault?_eq_none_iff {owner : IsolateId} :
    i.ownerFault? owner = none ↔ owner = i.id := by
  unfold ownerFault?
  split
  · next h => exact iff_of_true rfl h
  · next h => exact iff_of_false nofun h

/-- **When a local can be read:** the thread may touch the storage, the local is one of
this isolate, and its scope on this thread's stack owns its slot. -/
theorem getLocal_eq_ok_iff {l : LocalHandle} {o : ObjectId} :
    (i.getLocal t l w).1 = .ok o ↔ i.accessFault? t = none ∧ l.isolate = i.id ∧
      ∃ stack, i.storage.stack? t = some stack ∧ stack.get l.scope l.slot = .ok o := by
  rw [getLocal, run_eq_ok_iff, ← ownerFault?_eq_none_iff]
  refine and_congr_right fun _ => ?_
  cases i.ownerFault? l.isolate with
  | some e => exact iff_of_false (fun ⟨_, h⟩ => nomatch h) fun h => nomatch h.1
  | none =>
    rw [and_iff_right rfl]
    cases i.storage.stack? t with
    | none => exact iff_of_false (fun ⟨_, h⟩ => nomatch h) fun ⟨_, h, _⟩ => nomatch h
    | some stack =>
      simp only [Option.some.injEq, exists_eq_left']
      cases stack.get l.scope l.slot with
      | error e => exact iff_of_false (fun ⟨_, h⟩ => nomatch h) nofun
      | ok o' =>
        constructor
        · rintro ⟨tr, h⟩
          cases h
          rfl
        · intro h
          cases h
          exact ⟨_, rfl⟩

/-! Opening a scope, and closing one. -/

theorem books_openScope (hb : i.storage.Books strict met A w.heap) :
    (i.openScope t w).2.1.storage.Books strict met A (i.openScope t w).2.2.heap := by
  refine books_run hb ?_
  cases hs : i.storage.stack? t with
  | none =>
    dsimp only
    cases hnew : ScopeStack.ofConfig? i.config.locals with
    | error e => exact hb
    | ok stack =>
      obtain ⟨⟨c, xs, ps, hf⟩, hholds⟩ := ScopeStack.isFramed_of_ofConfig? hnew
      exact hb.add hs (hf.enter w.nextScope).isFramed hholds
  | some stack =>
    obtain ⟨A', ⟨c, xs, ps, hf⟩, hA', -, hset, -⟩ := hb.beside hs
    exact hset _ _ (hf.enter w.nextScope).isFramed hA'

theorem books_closeScope (scope : ScopeId) (hb : i.storage.Books strict met A w.heap) :
    (i.closeScope t scope w).2.1.storage.Books strict met A (i.closeScope t scope w).2.2.heap := by
  refine books_run hb ?_
  cases hs : i.storage.stack? t with
  | none => exact hb
  | some stack =>
    obtain ⟨A', hf, hA', -, hset, hrem⟩ := hb.beside hs
    obtain ⟨hf', hb'⟩ := ScopeStack.books_leave hf scope hA'
    dsimp only
    generalize stack.leave scope w.heap = r at hf' hb'
    obtain ⟨r, stack', heap⟩ := r
    cases r with
    | error e => exact hset _ _ hf' hb'
    | ok r =>
      dsimp only at hf' hb' ⊢
      split
      · next he =>
        obtain ⟨c, xs, ps, hf'⟩ := hf'
        rw [hf'.holds_of_isEmpty he, add_zero] at hb'
        exact hrem _ hb'
      · exact hset _ _ hf' hb'

/-! Locals. -/

theorem books_addLocalTo (scope : Option ScopeId) {o : ObjectId} (ho : w.heap.Admits strict o)
    (hb : i.storage.Books strict met A w.heap)
    (hfits : (i.addLocalTo t scope o w).2.2.heap.Fits
      (A + (i.addLocalTo t scope o w).2.1.storage.holds)) :
    (i.addLocalTo t scope o w).2.1.storage.Books strict met A
      (i.addLocalTo t scope o w).2.2.heap := by
  refine books_run_of_fits hb hfits fun hfits => ?_
  cases hs : i.storage.stack? t with
  | none => exact hb
  | some stack =>
    rw [hs] at hfits
    dsimp only at hfits ⊢
    cases hadd : addFault? stack scope with
    | some e => exact hb
    | none =>
      rw [hadd] at hfits
      obtain ⟨A', hf, hA', hholds, hset, -⟩ := hb.beside hs
      have hstep := fun hfits => ScopeStack.books_add hf ho hfits hA'
      dsimp only at hfits ⊢
      generalize stack.add o w.heap = r at hfits hstep
      obtain ⟨r, stack', heap⟩ := r
      cases r with
      | error e =>
        have := hfits o
        rw [hholds] at this
        exact hset _ _ (hstep this).1 (hstep this).2
      | ok r =>
        have := hfits o
        dsimp only at this
        rw [hholds] at this
        exact hset _ _ (hstep this).1 (hstep this).2

theorem getLocal_keeps {P : Storage → Heap → ScopeId → Prop}
    (hnote : ∀ s h n tr, P s h n → P (s.note tr) h n) (l : LocalHandle)
    (hold : P i.storage w.heap w.nextScope) :
    P (i.getLocal t l w).2.1.storage (i.getLocal t l w).2.2.heap
      (i.getLocal t l w).2.2.nextScope := by
  refine run_keeps hnote hold ?_
  split
  · exact hold
  · split
    · exact hold
    · split <;> exact hold

theorem books_getLocal (l : LocalHandle) (hb : i.storage.Books strict met A w.heap) :
    (i.getLocal t l w).2.1.storage.Books strict met A (i.getLocal t l w).2.2.heap :=
  getLocal_keeps (P := fun s h _ => s.Books strict met A h) (fun _ _ _ tr hb => hb.note tr) l hb

theorem books_escape (scope : ScopeId) (l : LocalHandle)
    (hb : i.storage.Books strict met A w.heap) :
    (i.escape t scope l w).2.1.storage.Books strict met A (i.escape t scope l w).2.2.heap := by
  refine books_run hb ?_
  split
  · exact hb
  · cases hs : i.storage.stack? t with
    | none => exact hb
    | some stack =>
      obtain ⟨A', hf, hA', -, hset, -⟩ := hb.beside hs
      obtain ⟨hf', hb'⟩ := ScopeStack.books_escape hf scope l.slot hA'
      dsimp only
      generalize stack.escape scope l.slot w.heap = r at hf' hb'
      obtain ⟨r, stack', heap⟩ := r
      cases r <;> exact hset _ _ hf' hb'

/-! Persistent handles. -/

theorem books_makePersistent {o : ObjectId} (ho : w.heap.Admits strict o)
    (hb : i.storage.Books strict met A w.heap)
    (hfits : (i.makePersistent t o w).2.2.heap.Fits
      (A + (i.makePersistent t o w).2.1.storage.holds)) :
    (i.makePersistent t o w).2.1.storage.Books strict met A (i.makePersistent t o w).2.2.heap := by
  unfold makePersistent at hfits ⊢
  split
  · exact hb
  · next hdead =>
    rw [if_neg hdead] at hfits
    refine books_run_of_fits hb hfits fun hfits => ?_
    have hb' := hb.books
    rw [Storage.holds, ← add_assoc] at hb'
    have hstep := fun hfits => PersistentStore.books_make hb.wellFormed.stored ho hfits hb'
    generalize i.storage.persistents.make o w.heap = r at hfits hstep
    obtain ⟨r, p, heap⟩ := r
    cases r <;>
    · have := hfits o
      dsimp only [Storage.holds] at this
      rw [← add_assoc] at this
      exact hb.persist (hstep this).1 (hstep this).2

theorem books_persistLocal (l : LocalHandle) (hb : i.storage.Books strict met A w.heap)
    (hfits : (i.persistLocal t l w).2.2.heap.Fits
      (A + (i.persistLocal t l w).2.1.storage.holds)) :
    (i.persistLocal t l w).2.1.storage.Books strict met A (i.persistLocal t l w).2.2.heap := by
  have hread := fun o => (getLocal_eq_ok_iff (i := i) (t := t) (w := w) (l := l) (o := o)).1
  have hb' := books_getLocal (t := t) l hb
  have hheap : (i.getLocal t l w).2.2.heap = w.heap :=
    getLocal_keeps (P := fun _ h _ => h = w.heap) (fun _ _ _ _ h => h) l rfl
  unfold persistLocal at hfits ⊢
  generalize i.getLocal t l w = r at hread hb' hheap hfits ⊢
  obtain ⟨r, i', w'⟩ := r
  cases r with
  | error e => exact hb'
  | ok o =>
    -- the local holds its object, so this was made, and is not destroyed if that matters
    obtain ⟨-, -, stack, hs, hget⟩ := hread o rfl
    obtain ⟨-, x, hx, hxo⟩ := ScopeStack.get_eq_ok_iff.1 hget
    obtain ⟨A', ⟨c, xs, ps, hf⟩, hA', -⟩ := hb.beside hs
    have hpos : 0 < (A' + stack.holds + w.heap.owned).total o := by
      have := hf.stores.total_holds_pos hx hxo
      rw [Account.total_add, Account.total_add, ScopeStack.holds]
      omega
    have hadmits : w.heap.Admits strict o :=
      ⟨Heap.Balanced.contains hA' hpos, fun hstrict => Heap.Balanced.alive hA' hstrict o hpos⟩
    rw [← hheap] at hadmits
    exact books_makePersistent hadmits hb' hfits

/-- Running an operation on the persistent handles keeps the books if the operation does. -/
theorem books_runOwned {α : Type} {site : Site} {owner : IsolateId}
    {op : PersistentStore → Heap → Except UsageError α × PersistentStore × Heap}
    (hb : i.storage.Books strict met A w.heap)
    (hop : ∀ A', w.heap.Books strict met (A' + i.storage.persistents.holds) →
      (op i.storage.persistents w.heap).2.1.IsStored ∧
        (op i.storage.persistents w.heap).2.2.Books strict met
          (A' + (op i.storage.persistents w.heap).2.1.holds)) :
    (i.runOwned t site owner w op).2.1.storage.Books strict met A
      (i.runOwned t site owner w op).2.2.heap := by
  refine books_run hb ?_
  split
  · exact hb
  · have hb' := hb.books
    rw [Storage.holds, ← add_assoc] at hb'
    obtain ⟨hs, hb'⟩ := hop _ hb'
    generalize op i.storage.persistents w.heap = r at hs hb'
    obtain ⟨r, p, heap⟩ := r
    cases r <;> exact hb.persist hs hb'

/-- **A sweep keeps the books,** if the host's ledger covers its callbacks; `F` is what
everybody but the host and this isolate holds. -/
theorem books_collectWeak {F : Account} {L L' : Ledger}
    (hc : i.storage.persistents.SweepCovered strict (F + i.storage.localHolds) w.heap L L')
    (hb : i.storage.Books strict L.met (L.holds + F) w.heap) :
    (i.collectWeak w).2.1.storage.Books strict L'.met (L'.holds + F)
      (i.collectWeak w).2.2.heap := by
  have hb' := hb.books
  rw [Storage.holds, ← add_assoc, add_assoc L.holds, add_assoc L.holds] at hb'
  obtain ⟨hs, hb'⟩ := PersistentStore.books_sweep hb.wellFormed.stored hc hb'
  rw [← add_assoc, ← add_assoc] at hb'
  refine ⟨⟨hb.wellFormed.framed, hb.wellFormed.owners, hs⟩, ?_⟩
  rw [add_assoc] at hb'
  exact hb'

end Isolate

/-- **What a new isolate is:** nothing but its id, its configuration and its empty stores. -/
theorem Isolate.exists_of_ofConfig? {c : IsolateConfig} {id : IsolateId} {iso : Isolate}
    (h : ofConfig? c id = .ok iso) : ∃ persistents,
      PersistentStore.ofConfig? c.persistents = .ok persistents ∧
      iso = { id, config := c, storage := { persistents } } := by
  unfold ofConfig? at h
  split at h
  · cases h
  · split at h
    · cases h
    · next hp =>
      cases h
      exact ⟨_, hp, rfl⟩

theorem Isolate.ofConfig?_eq_ok {c : IsolateConfig} {id : IsolateId} {iso : Isolate}
    (h : ofConfig? c id = .ok iso) : iso.id = id ∧ iso.storage.scopeStacks = [] ∧
      PersistentStore.ofConfig? c.persistents = .ok iso.storage.persistents := by
  obtain ⟨_, hp, rfl⟩ := exists_of_ofConfig? h
  exact ⟨rfl, rfl, hp⟩

/-- Nobody is inside a new isolate. -/
theorem Isolate.registry_of_ofConfig? {c : IsolateConfig} {id : IsolateId} {iso : Isolate}
    (h : ofConfig? c id = .ok iso) : iso.registry = {} := by
  obtain ⟨_, -, rfl⟩ := exists_of_ofConfig? h
  rfl

/-- Nobody ever took the lock of a new isolate. -/
theorem Isolate.lock_of_ofConfig? {c : IsolateConfig} {id : IsolateId} {iso : Isolate}
    (h : ofConfig? c id = .ok iso) : iso.lock = {} := by
  obtain ⟨_, -, rfl⟩ := exists_of_ofConfig? h
  rfl

/-- The object to which a request makes a new reference. -/
def Request.object? : Request → Option ObjectId
  | .addLocal _ o => some o
  | .makePersistent o => some o
  | _ => none

theorem Isolate.served_makePersistent (i : Isolate) (t : ThreadKey) (o : ObjectId) (w : Shared) :
    i.Served (i.makePersistent t o w).2.1 := by
  unfold makePersistent
  split
  · exact ⟨_, _, rfl⟩
  · exact (run_cases ..).1

/-- **What stays of an isolate** that serves a request: all but what it stores, and its flag. -/
theorem Request.served (r : Request) (t : ThreadKey) (i : Isolate) (w : Shared) :
    i.Served (r.serve t i w).2.1 := by
  cases r with
  | openScope => exact (Isolate.run_cases ..).1
  | closeScope scope => exact (Isolate.run_cases ..).1
  | addLocal scope o => exact (Isolate.run_cases ..).1
  | getLocal l => exact (Isolate.run_cases ..).1
  | escape scope l => exact (Isolate.run_cases ..).1
  | makePersistent o => exact i.served_makePersistent t o w
  | persistLocal l =>
    have hread : i.Served (i.getLocal t l w).2.1 := (Isolate.run_cases ..).1
    show i.Served (i.persistLocal t l w).2.1
    unfold Isolate.persistLocal
    generalize i.getLocal t l w = r at hread
    obtain ⟨r, i', w'⟩ := r
    cases r with
    | error e => exact hread
    | ok o => exact hread.trans (i'.served_makePersistent t o w')
  | dispose p => exact (Isolate.run_cases ..).1
  | makeWeak p record => exact (Isolate.run_cases ..).1
  | clearWeak p => exact (Isolate.run_cases ..).1
  | collectWeak => exact ⟨_, i.failed, rfl⟩

/-- An isolate keeps its id. -/
theorem Request.id_serve (r : Request) (t : ThreadKey) (i : Isolate) (w : Shared) :
    (r.serve t i w).2.1.id = i.id := (r.served t i w).id_eq

/-- **Every request but a sweep keeps the books.** -/
theorem Request.books_serve {r : Request} {t : ThreadKey} {i : Isolate} {w : Shared}
    {strict : Prop} {met : ObjectId → Prop} {A : Account}
    (ho : ∀ o, r.object? = some o → w.heap.Admits strict o)
    (hr : r ≠ .collectWeak) (hb : i.storage.Books strict met A w.heap)
    (hfits : (r.serve t i w).2.2.heap.Fits (A + (r.serve t i w).2.1.storage.holds)) :
    (r.serve t i w).2.1.storage.Books strict met A (r.serve t i w).2.2.heap := by
  cases r with
  | openScope => exact Isolate.books_openScope hb
  | closeScope scope => exact Isolate.books_closeScope scope hb
  | addLocal scope o => exact Isolate.books_addLocalTo scope (ho o rfl) hb hfits
  | getLocal l => exact Isolate.books_getLocal l hb
  | escape scope l => exact Isolate.books_escape scope l hb
  | makePersistent o => exact Isolate.books_makePersistent (ho o rfl) hb hfits
  | persistLocal l => exact Isolate.books_persistLocal l hb hfits
  | dispose p =>
    exact Isolate.books_runOwned hb fun _ hA =>
      PersistentStore.books_delete hb.wellFormed.stored p.slot hA
  | makeWeak p record =>
    exact Isolate.books_runOwned hb fun _ hA =>
      PersistentStore.books_makeWeak hb.wellFormed.stored p.slot record hA
  | clearWeak p =>
    exact Isolate.books_runOwned hb fun _ hA =>
      PersistentStore.books_clearWeak hb.wellFormed.stored p.slot hA
  | collectWeak => exact absurd rfl hr

end EngineHandles
