/-
# Requests that fail

Whatever the reason, an operation that fails leaves everything as it was, but for the isolate's
flag and the host's record (`Isolate.Refused`): also one that fails for want of room, and one
that fails after the scope stack was looked up (`Request.refused_of_error`).  The escape is the
operation that empties a slot and closes a scope before it adds the local; that the last step
finds room is due to the slot, which was one of the closed scope, if the ids of the open scopes are
distinct.
-/

import EngineHandles.Proofs.Isolate.Reports
import EngineHandles.Proofs.Isolate.Rooting

namespace EngineHandles

/-- Writing what is there changes nothing. -/
theorem Storage.setStack_self {s : Storage} {t : ThreadKey} {stack : ScopeStack}
    (hnd : s.owners.Nodup) (ht : s.stack? t = some stack) : s.setStack t stack = s := by
  have hmem := mem_of_stack? ht
  have hany : (s.scopeStacks.any fun e => e.1 == t) = true :=
    List.any_eq_true.2 ⟨_, hmem, beq_self_eq_true t⟩
  have hmap : (s.scopeStacks.map fun e => if e.1 = t then (t, stack) else e) = s.scopeStacks := by
    refine (List.map_congr_left fun e he => ?_).trans (List.map_id _)
    obtain ⟨u, stack'⟩ := e
    split
    · next hu =>
      obtain rfl : u = t := hu
      obtain rfl := Option.some.inj (ht.symm.trans (stack?_of_mem hnd he))
      rfl
    · rfl
  rw [setStack, if_pos hany, hmap]

namespace PersistentStore

variable {s : PersistentStore} {addr : SlotAddr} {h : Heap} {e : UsageError}

theorem delete_error (he : (s.delete addr h).1 = .error e) : (s.delete addr h).2 = (s, h) := by
  unfold delete at he ⊢
  split
  · rfl
  · next hx =>
    rw [hx] at he
    dsimp only at he
    split at he <;> cases he

theorem makeWeak_error {r : WeakRecord} (he : (s.makeWeak addr r h).1 = .error e) :
    (s.makeWeak addr r h).2 = (s, h) := by
  unfold makeWeak at he ⊢
  split
  · rfl
  · next hx =>
    rw [hx] at he
    dsimp only at he
    split at he <;> cases he

theorem clearWeak_error (he : (s.clearWeak addr h).1 = .error e) :
    (s.clearWeak addr h).2 = (s, h) := by
  unfold clearWeak at he ⊢
  split
  · rfl
  · next hx =>
    rw [hx] at he
    cases he

end PersistentStore

namespace Isolate

variable {i : Isolate} {t : ThreadKey} {w : Shared} {e : HandleError} {α : Type}

/-- **Running an operation that fails,** if it leaves the storage and the objects alone. -/
theorem refused_run_of_error {site : Site}
    {op : Storage → Shared → Except HandleError (α × RootTransition) × Storage × Shared}
    (hop : ∀ e, (op i.storage w).1 = .error e → (op i.storage w).2 = (i.storage, w))
    (he : (i.run t site w op).1 = .error e) : i.Refused w (i.run t site w op) := by
  rcases run_eq_error_iff.1 he with ⟨u, hu, rfl⟩ | ⟨ha, herror⟩
  · exact refused_run hu
  · refine ⟨site, e, ?_⟩
    have hsame := hop e herror
    unfold run
    rw [ha]
    generalize op i.storage w = r at herror hsame
    obtain ⟨r, s, w'⟩ := r
    cases herror
    cases hsame
    rfl

theorem refused_openScope (he : (i.openScope t w).1 = .error e) :
    i.Refused w (i.openScope t w) := by
  refine refused_run_of_error (fun e hop => ?_) he
  cases ht : i.storage.stack? t with
  | some stack =>
    rw [ht] at hop
    cases hop
  | none =>
    rw [ht] at hop
    dsimp only at hop ⊢
    cases hnew : ScopeStack.ofConfig? i.config.locals with
    | error e' => rfl
    | ok stack =>
      rw [hnew] at hop
      cases hop

theorem refused_closeScope (hs : i.storage.Rooted) {scope : ScopeId}
    (he : (i.closeScope t scope w).1 = .error e) : i.Refused w (i.closeScope t scope w) := by
  refine refused_run_of_error (fun e hop => ?_) he
  cases ht : i.storage.stack? t with
  | none => rfl
  | some stack =>
    rw [ht] at hop
    dsimp only at hop ⊢
    rcases (hs.framed_of_stack? ht).leave_cases scope w.heap with ⟨_, hr⟩ | ⟨_, _, _, hr, -⟩ <;>
      rw [hr] at hop ⊢
    · exact Prod.ext (Storage.setStack_self hs.owners ht) rfl
    · cases hop

theorem refused_addLocalTo (hs : i.storage.Rooted) {scope : Option ScopeId} {o : ObjectId}
    (he : (i.addLocalTo t scope o w).1 = .error e) : i.Refused w (i.addLocalTo t scope o w) := by
  refine refused_run_of_error (fun e hop => ?_) he
  cases ht : i.storage.stack? t with
  | none => rfl
  | some stack =>
    rw [ht] at hop
    dsimp only at hop ⊢
    cases hfault : addFault? stack scope with
    | some fault => rfl
    | none =>
      rw [hfault] at hop
      dsimp only at hop ⊢
      rcases (hs.framed_of_stack? ht).add_cases o w.heap with ⟨_, hr⟩ | ⟨_, _, _, _, hr, -⟩ <;>
        rw [hr] at hop ⊢
      · exact Prod.ext (Storage.setStack_self hs.owners ht) rfl
      · cases hop

/-- A local that is made without a look at the frontier is one that is added. -/
theorem createLocal_eq (i : Isolate) (t : ThreadKey) (o : ObjectId) (w : Shared) :
    i.createLocal t o w = (i.addLocalTo t none o w).map Prod.fst := by
  unfold createLocal addLocal
  obtain ⟨r, i', w'⟩ := i.addLocalTo t none o w
  cases r <;> rfl

theorem refused_getLocal {l : LocalHandle} (he : (i.getLocal t l w).1 = .error e) :
    i.Refused w (i.getLocal t l w) := by
  rcases i.getLocal_cases t l w with ⟨e', hr⟩ | ⟨o, hr⟩ <;> rw [hr] at he ⊢
  · exact ⟨.getLocal, e', rfl⟩
  · cases he

/-- **An escape that fails** empties no slot and closes no scope. -/
theorem refused_escape (hnd : i.storage.owners.Nodup)
    (hstack : ∀ stack, i.storage.stack? t = some stack →
      ∃ c L, stack.Shows c L ∧ L.ids.Nodup) {scope : ScopeId} {l : LocalHandle}
    (he : (i.escape t scope l w).1 = .error e) : i.Refused w (i.escape t scope l w) := by
  refine refused_run_of_error (fun e hop => ?_) he
  cases howner : i.ownerFault? l.isolate with
  | some fault => rfl
  | none =>
    rw [howner] at hop
    dsimp only at hop ⊢
    cases ht : i.storage.stack? t with
    | none => rfl
    | some stack =>
      rw [ht] at hop
      dsimp only at hop ⊢
      obtain ⟨c, L, hshows, hids⟩ := hstack stack ht
      cases hr : (stack.escape scope l.slot w.heap).1 with
      | error e' =>
        rw [hshows.escape_error hids hr]
        exact Prod.ext (Storage.setStack_self hnd ht) rfl
      | ok moved =>
        generalize stack.escape scope l.slot w.heap = r at hop hr
        obtain ⟨r, stack', heap⟩ := r
        cases hr
        cases hop

theorem refused_makePersistent_of_error {o : ObjectId}
    (he : (i.makePersistent t o w).1 = .error e) : i.Refused w (i.makePersistent t o w) := by
  unfold makePersistent at he ⊢
  split
  · exact ⟨.newPersistent, .engineDead, rfl⟩
  · next hdead =>
    rw [if_neg hdead] at he
    refine refused_run_of_error (fun e hop => ?_) he
    rcases i.storage.persistents.make_full_or_ok o w.heap with ⟨_, _, hr⟩ | ⟨_, _, hr⟩ <;>
      rw [hr] at hop ⊢
    cases hop

theorem refused_persistLocal_of_error {l : LocalHandle}
    (he : (i.persistLocal t l w).1 = .error e) : i.Refused w (i.persistLocal t l w) := by
  rw [persistLocal_eq] at he ⊢
  rcases i.getLocal_cases t l w with ⟨e', hr⟩ | ⟨o, hr⟩ <;> rw [hr] at he ⊢
  · exact ⟨.getLocal, e', rfl⟩
  · exact refused_makePersistent_of_error he

theorem refused_runOwned {site : Site} {owner : IsolateId}
    {op : PersistentStore → Heap → Except UsageError α × PersistentStore × Heap}
    (hop : ∀ s h e, (op s h).1 = .error e → (op s h).2 = (s, h))
    (he : (i.runOwned t site owner w op).1 = .error e) :
    i.Refused w (i.runOwned t site owner w op) := by
  refine refused_run_of_error (fun e herror => ?_) he
  cases howner : i.ownerFault? owner with
  | some fault => rfl
  | none =>
    rw [howner] at herror
    dsimp only at herror ⊢
    have hsame := hop i.storage.persistents w.heap
    generalize op i.storage.persistents w.heap = r at herror hsame
    obtain ⟨r, p, heap⟩ := r
    cases r with
    | error e' =>
      cases hsame e' rfl
      rfl
    | ok a => cases herror

theorem refused_exit (he : (i.exit t w).1 = .error e) : i.Refused w (i.exit t w) := by
  unfold exit at he ⊢
  split
  · exact ⟨.exit, _, rfl⟩
  · next hr =>
    rw [hr] at he
    cases he

end Isolate

/-- **Every request that fails** leaves all as it was, but for the flag and the host's record; an
escape, if the scopes that are open on the thread have distinct ids. -/
theorem Request.refused_of_error {r : Request} {t : ThreadKey} {i : Isolate} {w : Shared}
    {e : HandleError} (hs : i.storage.Rooted)
    (hids : ∀ scope l, r = .escape scope l → ∀ stack, i.storage.stack? t = some stack →
      ∃ c L, stack.Shows c L ∧ L.ids.Nodup)
    (he : (r.serve t i w).1 = .error e) : i.Refused w (r.serve t i w) := by
  have herror {α : Type} {f : α → Answer} {r : Isolate.Outcome α}
      (h : (r.map f).1 = .error e) : r.1 = .error e := Isolate.Outcome.map_eq_error_iff.1 h
  cases r with
  | openScope => exact (Isolate.refused_openScope (herror he)).map _
  | closeScope scope => exact (Isolate.refused_closeScope hs (herror he)).map _
  | addLocal scope o => exact (Isolate.refused_addLocalTo hs (herror he)).map _
  | getLocal l => exact (Isolate.refused_getLocal (herror he)).map _
  | escape scope l =>
    exact (Isolate.refused_escape hs.owners (hids scope l rfl) (herror he)).map _
  | makePersistent o => exact (Isolate.refused_makePersistent_of_error (herror he)).map _
  | persistLocal l => exact (Isolate.refused_persistLocal_of_error (herror he)).map _
  | dispose p =>
    exact (Isolate.refused_runOwned (fun _ _ _ => PersistentStore.delete_error) (herror he)).map _
  | makeWeak p record =>
    exact (Isolate.refused_runOwned (fun _ _ _ => PersistentStore.makeWeak_error) (herror he)).map _
  | clearWeak p =>
    exact (Isolate.refused_runOwned (fun _ _ _ => PersistentStore.clearWeak_error) (herror he)).map _
  | collectWeak => cases he

end EngineHandles
