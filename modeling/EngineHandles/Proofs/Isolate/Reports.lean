/-
# What the host is told of failures

A failure is signalled once, with the error that the caller gets, and marks the isolate unless
the error is that the engine is dead; a success signals nothing and marks nothing
(`Isolate.Signals`).  Every request does so, and so does leaving and yielding the lock
(`Request.signals_serve`).

Whether an isolate is dead is asked in one place only, before a persistent handle is made
(`Isolate.makePersistent_eq_engineDead_iff`).  All other operations do the same whatever the
marks are (`Request.alike_serve`).
-/

import EngineHandles.Proofs.Isolate.Access

namespace EngineHandles

/-- The error with which an operation failed. -/
def Isolate.Outcome.error? {α : Type} (r : Isolate.Outcome α) : Option HandleError :=
  match r.1 with
  | .error e => some e
  | .ok _ => none

@[simp] theorem Isolate.Outcome.error?_map {α β : Type} (f : α → β) (r : Isolate.Outcome α) :
    (r.map f).error? = r.error? := by
  obtain ⟨r, _⟩ := r
  cases r <;> rfl

theorem Isolate.Outcome.error?_eq_some_iff {α : Type} {r : Isolate.Outcome α} {e : HandleError} :
    r.error? = some e ↔ r.1 = .error e := by
  obtain ⟨r, _⟩ := r
  cases r <;> simp [error?]

theorem Isolate.Outcome.map_eq_error_iff {α β : Type} {f : α → β} {r : Isolate.Outcome α}
    {e : HandleError} : (r.map f).1 = .error e ↔ r.1 = .error e := by
  rw [← error?_eq_some_iff, error?_map, error?_eq_some_iff]

theorem Isolate.Outcome.map_eq_ok_iff {α β : Type} {f : α → β} {r : Isolate.Outcome α} {b : β} :
    (r.map f).1 = .ok b ↔ ∃ a, r.1 = .ok a ∧ f a = b := by
  obtain ⟨r, _⟩ := r
  cases r with
  | error e => exact iff_of_false (by rintro ⟨⟩) (by rintro ⟨a, ⟨⟩, -⟩)
  | ok a => simp [map, Except.map]

namespace Isolate

variable {i : Isolate} {t : ThreadKey} {w : Shared} {α β : Type}

/-- What an operation tells the host, and how it marks the isolate. -/
structure Signals (i : Isolate) (w : Shared) (r : Outcome α) : Prop where
  signals_eq : ∃ site, r.2.2.signals.toList
    = w.signals.toList ++ (r.error?.map fun e => Signal.mk i.id site e).toList
  failed_eq : r.2.1.failed = (i.failed || r.error?.any fun e => e != .engineDead)

namespace Signals

/-- An operation that succeeds. -/
theorem of_ok {r : Outcome α} (hr : r.error? = none) (hsignals : r.2.2.signals = w.signals)
    (hfailed : r.2.1.failed = i.failed) : i.Signals w r := by
  refine ⟨⟨.exit, ?_⟩, ?_⟩
  · rw [hr, hsignals, Option.map_none, Option.toList_none, List.append_nil]
  · rw [hr, hfailed, Option.any_none, Bool.or_false]

/-- An operation that fails and says so. -/
theorem fail (i : Isolate) (site : Site) (e : HandleError) {w w' : Shared}
    (h : w'.signals = w.signals) (storage : Storage) (lock : Lock) :
    i.Signals w ((.error e, { i with storage, lock }.fail site e w') : Outcome α) := by
  refine ⟨⟨site, ?_⟩, rfl⟩
  show (w'.signals.push _).toList = _
  rw [Array.toList_push, h]
  rfl

theorem map {r : Outcome α} (h : i.Signals w r) (f : α → β) : i.Signals w (r.map f) := by
  obtain ⟨⟨site, hsignals⟩, hfailed⟩ := h
  rw [← Outcome.error?_map f r] at hsignals hfailed
  exact ⟨⟨site, hsignals⟩, hfailed⟩

end Signals

/-- **Running an operation** that does not itself signal. -/
theorem signals_run {site : Site}
    {op : Storage → Shared → Except HandleError (α × RootTransition) × Storage × Shared}
    (hop : (op i.storage w).2.2.signals = w.signals) : i.Signals w (i.run t site w op) := by
  unfold run
  split
  · exact .fail i site _ rfl i.storage i.lock
  · split
    · next e storage w' he =>
      rw [he] at hop
      exact .fail i site e hop storage i.lock
    · next a tr storage w' he =>
      rw [he] at hop
      refine .of_ok rfl ?_ rfl
      unfold Isolate.note
      dsimp only
      split <;> exact hop

theorem signals_openScope : i.Signals w (i.openScope t w) := by
  refine signals_run ?_
  dsimp only
  split <;> rfl

theorem signals_closeScope (scope : ScopeId) : i.Signals w (i.closeScope t scope w) := by
  refine signals_run ?_
  cases i.storage.stack? t with
  | none => rfl
  | some stack =>
    dsimp only
    split <;> rfl

theorem signals_addLocalTo (scope : Option ScopeId) (o : ObjectId) :
    i.Signals w (i.addLocalTo t scope o w) := by
  refine signals_run ?_
  cases i.storage.stack? t with
  | none => rfl
  | some stack =>
    dsimp only
    cases addFault? stack scope with
    | some e => rfl
    | none =>
      dsimp only
      split <;> rfl

theorem signals_getLocal (l : LocalHandle) : i.Signals w (i.getLocal t l w) := by
  rcases i.getLocal_cases t l w with ⟨e, he⟩ | ⟨o, he⟩ <;> rw [he]
  · exact .fail i .getLocal e rfl i.storage i.lock
  · exact .of_ok rfl rfl rfl

theorem signals_escape (scope : ScopeId) (l : LocalHandle) :
    i.Signals w (i.escape t scope l w) := by
  refine signals_run ?_
  cases i.ownerFault? l.isolate with
  | some e => rfl
  | none =>
    cases i.storage.stack? t with
    | none => rfl
    | some stack =>
      dsimp only
      split <;> rfl

theorem signals_makePersistent (o : ObjectId) : i.Signals w (i.makePersistent t o w) := by
  unfold makePersistent
  split
  · exact .fail i .newPersistent .engineDead rfl i.storage i.lock
  · refine signals_run ?_
    split <;> rfl

theorem signals_persistLocal (l : LocalHandle) : i.Signals w (i.persistLocal t l w) := by
  unfold persistLocal
  rcases i.getLocal_cases t l w with ⟨e, he⟩ | ⟨o, he⟩ <;> rw [he]
  · exact .fail i .getLocal e rfl i.storage i.lock
  · exact signals_makePersistent o

theorem signals_runOwned {site : Site} {owner : IsolateId}
    {op : PersistentStore → Heap → Except UsageError α × PersistentStore × Heap} :
    i.Signals w (i.runOwned t site owner w op) := by
  refine signals_run ?_
  cases i.ownerFault? owner with
  | some e => rfl
  | none =>
    dsimp only
    split <;> rfl

theorem signals_exit : i.Signals w (i.exit t w) := by
  unfold exit
  split
  · exact .fail i .exit _ rfl i.storage i.lock
  · exact .of_ok rfl rfl rfl

theorem signals_yieldLock : i.Signals w (i.yieldLock t w) := by
  unfold yieldLock
  dsimp only
  split
  · exact .fail i .unlock _ rfl i.storage _
  · exact .of_ok rfl rfl rfl

end Isolate

/-- **Every request** signals its failure, once. -/
theorem Request.signals_serve (r : Request) (t : ThreadKey) (i : Isolate) (w : Shared) :
    i.Signals w (r.serve t i w) := by
  cases r with
  | openScope => exact Isolate.signals_openScope.map _
  | closeScope scope => exact (Isolate.signals_closeScope scope).map _
  | addLocal scope o => exact (Isolate.signals_addLocalTo scope o).map _
  | getLocal l => exact (Isolate.signals_getLocal l).map _
  | escape scope l => exact (Isolate.signals_escape scope l).map _
  | makePersistent o => exact (Isolate.signals_makePersistent o).map _
  | persistLocal l => exact (Isolate.signals_persistLocal l).map _
  | dispose p => exact Isolate.signals_runOwned.map _
  | makeWeak p record => exact Isolate.signals_runOwned.map _
  | clearWeak p => exact Isolate.signals_runOwned.map _
  | collectWeak => exact .of_ok rfl rfl rfl

/-! ### Dead isolates -/

namespace Isolate

variable {i : Isolate} {t : ThreadKey} {w : Shared} {α β : Type} {failed dead : Bool}

/-- Why running an operation on the storage fails. -/
theorem run_eq_error_iff {site : Site}
    {op : Storage → Shared → Except HandleError (α × RootTransition) × Storage × Shared}
    {e : HandleError} : (i.run t site w op).1 = .error e ↔
      (∃ u, i.accessFault? t = some u ∧ e = .usage u) ∨
        i.accessFault? t = none ∧ (op i.storage w).1 = .error e := by
  unfold run
  cases i.accessFault? t with
  | some u =>
    dsimp only
    constructor
    · intro h
      cases h
      exact .inl ⟨u, rfl, rfl⟩
    · rintro (⟨_, hu, rfl⟩ | ⟨hu, -⟩)
      · cases hu
        rfl
      · cases hu
  | none =>
    obtain ⟨r, s, w'⟩ := op i.storage w
    cases r <;> simp

/-- **Why no persistent handle was made:** that the engine is dead is said by dead isolates. -/
theorem makePersistent_eq_engineDead_iff {o : ObjectId} :
    (i.makePersistent t o w).1 = .error .engineDead ↔ i.isDead = true := by
  unfold makePersistent
  split
  · next h => exact iff_of_true rfl h
  · next h =>
    refine iff_of_false (fun he => ?_) h
    rcases run_eq_error_iff.1 he with ⟨u, -, hu⟩ | ⟨-, hop⟩
    · cases hu
    · rcases i.storage.persistents.make_full_or_ok o w.heap with ⟨_, _, hr⟩ | ⟨_, _, hr⟩ <;>
        rw [hr] at hop <;> cases hop

/-- A dead isolate refuses without a look at the thread or at its storage. -/
theorem makePersistent_of_isDead (h : i.isDead = true) (t : ThreadKey) (o : ObjectId)
    (w : Shared) :
    i.makePersistent t o w = (.error .engineDead, i.fail .newPersistent .engineDead w) :=
  if_pos h

/-- To make a persistent handle to the object of a local is to read the local, and then to make
the handle on the isolate as it was. -/
theorem persistLocal_eq (i : Isolate) (t : ThreadKey) (l : LocalHandle) (w : Shared) :
    i.persistLocal t l w =
      match (i.getLocal t l w).1 with
      | .error e => (.error e, i.fail .getLocal e w)
      | .ok o => i.makePersistent t o w := by
  unfold persistLocal
  rcases i.getLocal_cases t l w with ⟨e, he⟩ | ⟨o, he⟩ <;> rw [he]

/-- The isolate with other marks. -/
def marked (i : Isolate) (failed dead : Bool) : Isolate := { i with failed, engineDead := dead }

/-- Two outcomes that differ at most in the marks of the isolate. -/
def Outcome.Alike (r r' : Outcome α) : Prop :=
  r'.1 = r.1 ∧ r'.2.2 = r.2.2 ∧ ∃ failed dead, r'.2.1 = r.2.1.marked failed dead

theorem Outcome.Alike.map {r r' : Outcome α} (h : r.Alike r') (f : α → β) :
    (r.map f).Alike (r'.map f) := ⟨congrArg (Except.map f) h.1, h.2⟩

/-- **Running an operation does not depend on the marks.** -/
theorem alike_run (i : Isolate) (failed dead : Bool) (t : ThreadKey) (site : Site) (w : Shared)
    (op : Storage → Shared → Except HandleError (α × RootTransition) × Storage × Shared) :
    (i.run t site w op).Alike ((i.marked failed dead).run t site w op) := by
  have haccess : (i.marked failed dead).accessFault? t = i.accessFault? t := rfl
  have hstorage : (i.marked failed dead).storage = i.storage := rfl
  unfold run
  rw [haccess, hstorage]
  cases i.accessFault? t with
  | some e => exact ⟨rfl, rfl, _, dead, rfl⟩
  | none =>
    dsimp only
    split
    · exact ⟨rfl, rfl, _, dead, rfl⟩
    · exact ⟨rfl, rfl, failed, dead, rfl⟩

end Isolate

/-- **No request but for a persistent handle** depends on the marks of the isolate. -/
theorem Request.alike_serve {r : Request} (hmake : ∀ o, r ≠ .makePersistent o)
    (hpersist : ∀ l, r ≠ .persistLocal l) (t : ThreadKey) (i : Isolate) (failed dead : Bool)
    (w : Shared) : Isolate.Outcome.Alike (r.serve t i w) (r.serve t (i.marked failed dead) w) := by
  cases r with
  | openScope | closeScope | addLocal | getLocal | escape | dispose | makeWeak | clearWeak =>
    exact (i.alike_run failed dead t _ w _).map _
  | makePersistent o => exact absurd rfl (hmake o)
  | persistLocal l => exact absurd rfl (hpersist l)
  | collectWeak => exact ⟨rfl, rfl, failed, dead, rfl⟩

end EngineHandles
