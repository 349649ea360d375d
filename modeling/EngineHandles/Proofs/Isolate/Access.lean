/-
# Threads that may not touch an isolate

A thread may touch the storage of an isolate if it is inside and, in locking mode, owns the
lock (`Isolate.accessFault?_eq_none_iff`).  Every request of another thread fails, and does
nothing but signal the failure (`Request.refused`), unless it asks for a sweep.
-/

import EngineHandles.Proofs.Isolate.Lock
import EngineHandles.Proofs.Isolate.Scopes

namespace EngineHandles
namespace Isolate

variable {i : Isolate} {t : ThreadKey} {w : Shared} {e : UsageError}

theorem accessFault?_eq_none_iff : i.accessFault? t = none ↔
    i.registry.contains t = true ∧ (i.lock.lockingMode = true → i.lock.owner = some t) := by
  rw [← Lock.isHeldBy_iff]
  constructor
  · intro h
    unfold accessFault? at h
    cases hin : i.registry.contains t with
    | false => simp [hin] at h
    | true => simpa [hin] using h
  · rintro ⟨hin, hlock⟩
    exact accessFault?_eq_none hin hlock

/-- Who has no access is told why. -/
theorem exists_accessFault (h : i.registry.contains t = false ∨
    i.lock.lockingMode = true ∧ i.lock.owner ≠ some t) : ∃ e, i.accessFault? t = some e := by
  rw [← Option.ne_none_iff_exists']
  intro hnone
  obtain ⟨hin, hlock⟩ := accessFault?_eq_none_iff.1 hnone
  rcases h with hout | ⟨hmode, howner⟩
  · rw [hin] at hout
    cases hout
  · exact howner (hlock hmode)

/-- Leaving an isolate changes nothing that it stores, and no object. -/
theorem exit_frame (i : Isolate) (t : ThreadKey) (w : Shared) : (i.exit t w).2.1.id = i.id ∧
    (i.exit t w).2.1.storage = i.storage ∧ (i.exit t w).2.2.heap = w.heap := by
  unfold exit
  split <;> exact ⟨rfl, rfl, rfl⟩

/-- Yielding the lock changes nothing that the isolate stores, and no object. -/
theorem yieldLock_frame (i : Isolate) (t : ThreadKey) (w : Shared) :
    (i.yieldLock t w).2.1.id = i.id ∧ (i.yieldLock t w).2.1.storage = i.storage ∧
      (i.yieldLock t w).2.2.heap = w.heap := by
  unfold yieldLock
  dsimp only
  split <;> exact ⟨rfl, rfl, rfl⟩

theorem run_of_fault {α : Type} {site : Site}
    {op : Storage → Shared → Except HandleError (α × RootTransition) × Storage × Shared}
    (ha : i.accessFault? t = some e) :
    i.run t site w op = (.error (.usage e), i.fail site (.usage e) w) := by
  rw [run, ha]

/-- One outcome of an operation: it failed, and this was signalled. -/
def Refused {α : Type} (i : Isolate) (w : Shared) (r : Outcome α) : Prop :=
  ∃ site e, r = (.error e, i.fail site e w)

/-- What a refused operation leaves behind: the isolate has its flag, and nothing else. -/
theorem Refused.frame {α : Type} {r : Outcome α} (h : i.Refused w r) :
    r.2.1.id = i.id ∧ r.2.1.storage = i.storage ∧ r.2.2.heap = w.heap ∧
      ∀ u, r.2.1.accessFault? u = i.accessFault? u := by
  obtain ⟨site, e, rfl⟩ := h
  exact ⟨rfl, rfl, rfl, fun _ => rfl⟩

theorem refused_run {α : Type} {site : Site}
    {op : Storage → Shared → Except HandleError (α × RootTransition) × Storage × Shared}
    (ha : i.accessFault? t = some e) : i.Refused w (i.run t site w op) :=
  ⟨site, .usage e, run_of_fault ha⟩

theorem Refused.map {α β : Type} {r : Outcome α} (h : i.Refused w r) (f : α → β) :
    i.Refused w (r.map f) := by
  obtain ⟨site, e, rfl⟩ := h
  exact ⟨site, e, rfl⟩

/-- **Reading a local** changes nothing, apart from signalling that it failed. -/
theorem getLocal_cases (i : Isolate) (t : ThreadKey) (l : LocalHandle) (w : Shared) :
    (∃ e, i.getLocal t l w = (.error e, i.fail .getLocal e w)) ∨
      ∃ o, i.getLocal t l w = (.ok o, i, w) := by
  unfold getLocal run
  cases i.accessFault? t with
  | some e => exact .inl ⟨_, rfl⟩
  | none =>
    cases i.ownerFault? l.isolate with
    | some e => exact .inl ⟨_, rfl⟩
    | none =>
      dsimp only
      cases i.storage.stack? t with
      | none => exact .inl ⟨_, rfl⟩
      | some stack =>
        dsimp only
        cases stack.get l.scope l.slot with
        | error e => exact .inl ⟨_, rfl⟩
        | ok o => exact .inr ⟨o, rfl⟩

/-- A dead isolate refuses a persistent handle to everybody. -/
theorem refused_makePersistent (ha : i.accessFault? t = some e) (o : ObjectId) :
    i.Refused w (i.makePersistent t o w) := by
  unfold makePersistent
  split
  · exact ⟨.newPersistent, .engineDead, rfl⟩
  · exact refused_run ha

theorem refused_persistLocal (ha : i.accessFault? t = some e) (l : LocalHandle) :
    i.Refused w (i.persistLocal t l w) := by
  have hread : i.getLocal t l w = (.error (.usage e), i.fail .getLocal (.usage e) w) :=
    run_of_fault ha
  rw [persistLocal, hread]
  exact ⟨_, _, rfl⟩

end Isolate

/-- **A thread that may not touch the storage** is refused every request but a sweep. -/
theorem Request.refused {r : Request} {t : ThreadKey} {i : Isolate} {w : Shared} {e : UsageError}
    (hr : r ≠ .collectWeak) (ha : i.accessFault? t = some e) : i.Refused w (r.serve t i w) := by
  cases r with
  | openScope | closeScope | addLocal | getLocal | escape | dispose | makeWeak | clearWeak =>
    exact (Isolate.refused_run ha).map _
  | makePersistent o => exact (Isolate.refused_makePersistent ha o).map _
  | persistLocal l => exact (Isolate.refused_persistLocal ha l).map _
  | collectWeak => exact absurd rfl hr

/-- **Who was served** may touch the storage, unless it asked for a sweep. -/
theorem Request.accessFault?_of_ok {r : Request} {t : ThreadKey} {i : Isolate} {w : Shared}
    {answer : Answer} (hr : r ≠ .collectWeak) (h : (r.serve t i w).1 = .ok answer) :
    i.accessFault? t = none := by
  cases ha : i.accessFault? t with
  | none => rfl
  | some e =>
    obtain ⟨site, e', hserve⟩ := Request.refused (w := w) hr ha
    rw [hserve] at h
    cases h

end EngineHandles
