/-
# The open scopes of a thread in an isolate

The scope stack that a thread has in an isolate stands for a stack of lists, and no scope stack
for the empty one (`Isolate.Lays`).  For a thread that may touch the storage, opening a scope and
closing the innermost one always succeed and signal nothing (`Isolate.Lays.openScope`,
`Isolate.Lays.closeScope`); adding a local to it and an escape from it succeed and signal nothing,
or fail, signal just that, and change nothing (`Isolate.Lays.addLocalTo`, `Isolate.Lays.escape`).

Whatever else is done in the isolate, by this thread or by others, leaves these lists alone
(`Job.stack?_serve`).
-/

import EngineHandles.Proofs.Isolate.Atomic
import EngineHandles.Proofs.World.Desks
import EngineHandles.Proofs.World.Locals
import EngineHandles.Proofs.World.Partings

namespace EngineHandles

namespace ScopeStack.Shows

variable {s : ScopeStack} {c : ArenaConfig} {L below : Levels} {scope : ScopeId}
  {R : List ObjectId}

/-- The ids of the open scopes are told by the frames. -/
theorem map_frames_id (h : s.Shows c L) : s.frames.map Frame.id = L.ids := by
  rw [h.frames_eq, Levels.frames_map_id]

/-- Closing the innermost scope. -/
theorem leave_top (h : s.Shows c (⟨scope, R⟩ :: below)) (heap : Heap) :
    ∃ tr s', s.leave scope heap = (.ok (R.length, tr), s', heap.releaseAll R) ∧
      s'.Shows c below := by
  obtain ⟨hreply, hleft, hheap⟩ := h.leave scope heap
  rw [Levels.leave, if_pos rfl] at hreply hleft hheap
  exact ⟨_, _, Prod.ext hreply (Prod.ext rfl hheap), hleft⟩

/-- Adding a local: it is refused, or goes to the innermost scope. -/
theorem add_cases (h : s.Shows c L) (o : ObjectId) (heap : Heap) :
    (∃ e, s.add o heap = (.error e, s, heap)) ∨
      ∃ l below added s' heap', L = l :: below ∧ added.scope = l.id ∧
        s.add o heap = (.ok added, s', heap') ∧
        s'.Shows c (⟨l.id, l.objects ++ [o]⟩ :: below) := by
  obtain ⟨hreply, hadded, hheap⟩ := h.add o heap
  cases L with
  | nil => exact .inl ⟨_, Prod.ext hreply (Prod.ext (hadded.unique h) hheap)⟩
  | cons l below =>
    rw [Levels.add] at hreply hadded hheap
    split at hreply
    · next hlt =>
      rw [if_pos hlt] at hadded hheap
      exact .inr ⟨l, below, _, _, heap.retain o .strong, rfl, rfl,
        Prod.ext hreply (Prod.ext rfl hheap), hadded⟩
    · next hfull =>
      rw [if_neg hfull] at hadded hheap
      exact .inl ⟨_, Prod.ext hreply (Prod.ext (hadded.unique h) hheap)⟩

/-- An escape from the innermost scope: it is refused, or moves what its slot denotes. -/
theorem escape_cases (h : s.Shows c (⟨scope, R⟩ :: below))
    (hids : (Levels.ids (⟨scope, R⟩ :: below)).Nodup) (slot : SlotAddr) (heap : Heap) :
    (∃ e, s.escape scope slot heap = (.error e, s, heap)) ∨
      ∃ parent rest j o moved s', below = parent :: rest ∧ R[j]? = some o ∧
        moved.parent = parent.id ∧ s.get scope slot = .ok o ∧
        s.escape scope slot heap = (.ok moved, s', heap.releaseAll (R.eraseIdx j)) ∧
        s'.Shows c (⟨parent.id, parent.objects ++ [o]⟩ :: rest) := by
  cases hr : (s.escape scope slot heap).1 with
  | error e => exact .inl ⟨e, h.escape_error hids hr⟩
  | ok moved =>
    obtain ⟨hreply, hmoved, hheap⟩ := h.escape hids scope slot heap
    obtain ⟨l, parent, rest, j, hL, -, hidx, hparent, -, hleft⟩ :=
      Levels.escape_ok (hreply.symm.trans hr)
    cases hL
    obtain ⟨hj, -⟩ := (Levels.index?_eq_some_iff h.stores.valid h.fits).1 hidx
    have ho : R[j]? = some R[j] := List.getElem?_eq_getElem hj
    rw [hleft, ho] at hmoved
    rw [Levels.escape.eq_def] at hheap
    dsimp only at hheap
    rw [if_neg (not_not_intro rfl), hidx] at hheap
    have hget : s.get scope slot = .ok R[j] := by
      rw [h.get hids, Levels.get, if_pos rfl, hidx, Option.bind_some, ho]
    exact .inr ⟨parent, rest, j, R[j], moved, _, rfl, ho, hparent, hget,
      Prod.ext hr (Prod.ext rfl hheap), hmoved⟩

end ScopeStack.Shows

namespace Isolate

variable {i i' : Isolate} {t : ThreadKey} {w w' : Shared} {L below : Levels} {R : List ObjectId}
  {scope : ScopeId} {α : Type}

/-- The open scopes of a thread, innermost first, with the objects of their locals. -/
def Lays (i : Isolate) (t : ThreadKey) (L : Levels) : Prop :=
  match i.storage.stack? t with
  | none => L = []
  | some stack => ∃ c, stack.Shows c L

/-- How many scopes a thread has open. -/
def depth (i : Isolate) (t : ThreadKey) : Nat := (i.storage.stack? t).elim 0 ScopeStack.depth

theorem lays_of_none (ht : i.storage.stack? t = none) : i.Lays t [] := by
  rw [Lays, ht]

theorem lays_of_some {stack : ScopeStack} {c : ArenaConfig} (ht : i.storage.stack? t = some stack)
    (h : stack.Shows c L) : i.Lays t L := by
  rw [Lays, ht]
  exact ⟨c, h⟩

namespace Lays

/-- The same stack stands for the same lists. -/
theorem congr (h : i.Lays t L) (hstack : i'.storage.stack? t = i.storage.stack? t) :
    i'.Lays t L := by
  rw [Lays, hstack]
  exact h

/-- A thread with an open scope has a scope stack. -/
theorem exists_stack (h : i.Lays t L) (hL : L ≠ []) :
    ∃ stack c, i.storage.stack? t = some stack ∧ stack.Shows c L := by
  unfold Lays at h
  split at h
  · exact absurd h hL
  · next stack ht =>
    obtain ⟨c, h⟩ := h
    exact ⟨stack, c, ht, h⟩

theorem depth_eq (h : i.Lays t L) : i.depth t = L.length := by
  unfold depth
  cases ht : i.storage.stack? t with
  | none =>
    rw [Lays, ht] at h
    rw [h]
    rfl
  | some stack =>
    rw [Lays, ht] at h
    obtain ⟨c, h⟩ := h
    show stack.frames.length = L.length
    rw [← List.length_map Frame.id, h.map_frames_id, Levels.ids, List.length_map]

theorem isOpen_iff (h : i.Lays t L) : i.isOpen t scope = true ↔ scope ∈ L.ids := by
  unfold isOpen
  cases ht : i.storage.stack? t with
  | none =>
    rw [Lays, ht] at h
    rw [h]
    exact iff_of_false Bool.false_ne_true List.not_mem_nil
  | some stack =>
    rw [Lays, ht] at h
    obtain ⟨c, h⟩ := h
    exact h.isOpen_iff scope

end Lays

/-! ### Running operations -/

/-- Running an operation that succeeds. -/
theorem run_of_ok {site : Site}
    {op : Storage → Shared → Except HandleError (α × RootTransition) × Storage × Shared} {a : α}
    {s : Storage} (tr : RootTransition) (w' : Shared) (ha : i.accessFault? t = none)
    (hop : op i.storage w = (.ok (a, tr), s, w')) :
    (i.run t site w op).1 = .ok a ∧ (i.run t site w op).2.1.storage.stack? t = s.stack? t ∧
      (i.run t site w op).2.2.heap = w'.heap ∧ (i.run t site w op).2.2.signals = w'.signals := by
  unfold run
  rw [ha, hop]
  refine ⟨rfl, s.stack?_note tr t, ?_⟩
  unfold note
  dsimp only
  split <;> exact ⟨rfl, rfl⟩

/-- Running an operation that fails and leaves all as it was. -/
theorem run_of_error {site : Site}
    {op : Storage → Shared → Except HandleError (α × RootTransition) × Storage × Shared}
    {e : HandleError} (ha : i.accessFault? t = none)
    (hop : op i.storage w = (.error e, i.storage, w)) :
    i.run t site w op = (.error e, i.fail site e w) := by
  unfold run
  rw [ha, hop]

namespace Lays

/-- **Opening a scope** succeeds, and pushes an empty list. -/
theorem openScope (h : i.Lays t L) (ha : i.accessFault? t = none)
    (hvalid : i.config.locals.IsValid) :
    (i.openScope t w).1 = .ok w.nextScope ∧
      (i.openScope t w).2.1.Lays t (⟨w.nextScope, []⟩ :: L) ∧
      (i.openScope t w).2.2.heap = w.heap ∧ (i.openScope t w).2.2.signals = w.signals := by
  have hopens : ∀ {stack c}, i.base t = .ok stack → stack.Shows c L →
      (i.openScope t w).1 = .ok w.nextScope ∧
        (i.openScope t w).2.1.Lays t (⟨w.nextScope, []⟩ :: L) ∧
        (i.openScope t w).2.2.heap = w.heap ∧ (i.openScope t w).2.2.signals = w.signals := by
    intro stack c hbase hshows
    have hrun : (i.openScope t w).1 = .ok w.nextScope ∧
        (i.openScope t w).2.1.storage.stack? t
          = (i.storage.setStack t (stack.enter w.nextScope)).stack? t ∧
        (i.openScope t w).2.2.heap = w.heap ∧ (i.openScope t w).2.2.signals = w.signals := by
      refine run_of_ok .unchanged { w with nextScope := w.nextScope.next } ha ?_
      unfold base at hbase
      cases ht : i.storage.stack? t with
      | none =>
        rw [ht] at hbase
        dsimp only at hbase ⊢
        rw [hbase]
      | some _ =>
        rw [ht] at hbase
        cases hbase
        rfl
    obtain ⟨hr, hstack, hframe⟩ := hrun
    refine ⟨hr, ?_, hframe⟩
    exact lays_of_some (hstack.trans (Storage.stack?_setStack _ t _)) (hshows.enter w.nextScope)
  unfold base at hopens
  unfold Lays at h
  cases ht : i.storage.stack? t with
  | none =>
    rw [ht] at h hopens
    subst h
    have hnew : ScopeStack.ofConfig? i.config.locals
        = .ok { locals := { config := i.config.locals } } := by
      unfold ScopeStack.ofConfig? Arena.ofConfig?
      rw [hvalid]
    exact hopens hnew (ScopeStack.shows_of_ofConfig? hnew)
  | some stack =>
    rw [ht] at h hopens
    obtain ⟨c, h⟩ := h
    exact hopens rfl h

/-- **Closing the innermost scope** succeeds, and releases the references in its list. -/
theorem closeScope (h : i.Lays t (⟨scope, R⟩ :: below)) (ha : i.accessFault? t = none)
    (hnd : i.storage.owners.Nodup) :
    (i.closeScope t scope w).1 = .ok () ∧ (i.closeScope t scope w).2.1.Lays t below ∧
      (i.closeScope t scope w).2.2.heap = w.heap.releaseAll R ∧
      (i.closeScope t scope w).2.2.signals = w.signals := by
  obtain ⟨stack, c, ht, hshows⟩ := h.exists_stack (List.cons_ne_nil _ _)
  obtain ⟨tr, stack', hleave, hleft⟩ := hshows.leave_top w.heap
  have hrun : (i.closeScope t scope w).1 = .ok () ∧
      (i.closeScope t scope w).2.1.storage.stack? t
        = (if stack'.isEmpty then i.storage.removeStack t
            else i.storage.setStack t stack').stack? t ∧
      (i.closeScope t scope w).2.2.heap = w.heap.releaseAll R ∧
      (i.closeScope t scope w).2.2.signals = w.signals := by
    refine run_of_ok tr { w with heap := w.heap.releaseAll R } ha ?_
    rw [ht]
    dsimp only
    rw [hleave]
  obtain ⟨hdone, hstack, hframe⟩ := hrun
  refine ⟨hdone, ?_, hframe⟩
  cases hempty : stack'.isEmpty with
  | true =>
    -- the last scope takes the scope stack with it
    rw [hempty, if_pos rfl, Storage.stack?_removeStack hnd ht] at hstack
    have hids := hleft.map_frames_id
    rw [List.isEmpty_iff.1 hempty, List.map_nil] at hids
    rw [List.map_eq_nil_iff.1 hids.symm]
    exact lays_of_none hstack
  | false =>
    rw [hempty, if_neg Bool.false_ne_true, Storage.stack?_setStack] at hstack
    exact lays_of_some hstack hleft

/-! ### Adding and moving locals -/

/-- **Adding a local** is refused, or puts its object at the end of the innermost list. -/
theorem addLocalTo (h : i.Lays t L) (ha : i.accessFault? t = none) (hnd : i.storage.owners.Nodup)
    (named : Option ScopeId) (o : ObjectId) :
    (∃ e, i.addLocalTo t named o w = (.error e, i.fail .newLocal e w)) ∨
      ∃ l below added f, L = l :: below ∧ added.scope = l.id ∧
        (i.addLocalTo t named o w).1 = .ok (added, f) ∧
        (i.addLocalTo t named o w).2.1.Lays t (⟨l.id, l.objects ++ [o]⟩ :: below) := by
  cases ht : i.storage.stack? t with
  | none =>
    refine .inl ⟨.usage .noEnclosingScope, run_of_error ha ?_⟩
    rw [ht]
  | some stack =>
    cases hfault : addFault? stack named with
    | some e =>
      refine .inl ⟨.usage e, run_of_error ha ?_⟩
      rw [ht]
      dsimp only
      rw [hfault]
    | none =>
      unfold Lays at h
      rw [ht] at h
      obtain ⟨c, hshows⟩ := h
      rcases hshows.add_cases o w.heap with
        ⟨e, hadd⟩ | ⟨l, below, a, stack', heap', hL, hscope, hadd, hadded⟩
      · refine .inl ⟨e, run_of_error ha ?_⟩
        rw [ht]
        dsimp only
        rw [hfault]
        dsimp only
        rw [hadd]
        exact Prod.ext rfl (Prod.ext (Storage.setStack_self hnd ht) rfl)
      · have hrun : (i.addLocalTo t named o w).1
              = .ok (⟨i.id, a.scope, a.added.slot⟩, a.added.frontier) ∧
            (i.addLocalTo t named o w).2.1.storage.stack? t
              = (i.storage.setStack t stack').stack? t ∧
            (i.addLocalTo t named o w).2.2.heap = heap' ∧
            (i.addLocalTo t named o w).2.2.signals = w.signals := by
          refine run_of_ok a.transition { w with heap := heap' } ha ?_
          rw [ht]
          dsimp only
          rw [hfault]
          dsimp only
          rw [hadd]
        obtain ⟨hok, hstack, -⟩ := hrun
        rw [Storage.stack?_setStack] at hstack
        exact .inr ⟨l, below, _, _, hL, hscope, hok, lays_of_some hstack hadded⟩

/-- **An escape from the innermost scope** is refused, or moves one of the references in its list
to the end of the list below, and releases the others. -/
theorem escape (h : i.Lays t (⟨scope, R⟩ :: below)) (ha : i.accessFault? t = none)
    (hnd : i.storage.owners.Nodup) (hids : (Levels.ids (⟨scope, R⟩ :: below)).Nodup)
    (l : LocalHandle) :
    (∃ e, i.escape t scope l w = (.error e, i.fail .escape e w)) ∨
      ∃ parent rest j o moved, below = parent :: rest ∧ R[j]? = some o ∧ moved.scope = parent.id ∧
        (i.escape t scope l w).1 = .ok moved ∧
        i.issued? t w (.escape scope l) = some (moved, o) ∧
        (i.escape t scope l w).2.1.Lays t (⟨parent.id, parent.objects ++ [o]⟩ :: rest) ∧
        (i.escape t scope l w).2.2.heap = w.heap.releaseAll (R.eraseIdx j) ∧
        (i.escape t scope l w).2.2.signals = w.signals := by
  obtain ⟨stack, c, ht, hshows⟩ := h.exists_stack (List.cons_ne_nil _ _)
  cases howner : i.ownerFault? l.isolate with
  | some e =>
    refine .inl ⟨.usage e, run_of_error ha ?_⟩
    rw [howner]
  | none =>
    rcases hshows.escape_cases hids l.slot w.heap with
      ⟨e, hesc⟩ | ⟨parent, rest, j, o, e, stack', hbelow, ho, hparent, hget, hesc, hmoved⟩
    · refine .inl ⟨e, run_of_error ha ?_⟩
      rw [howner]
      dsimp only
      rw [ht]
      dsimp only
      rw [hesc]
      exact Prod.ext rfl (Prod.ext (Storage.setStack_self hnd ht) rfl)
    · have hrun : (i.escape t scope l w).1 = .ok ⟨i.id, e.parent, e.added.slot⟩ ∧
          (i.escape t scope l w).2.1.storage.stack? t
            = (i.storage.setStack t stack').stack? t ∧
          (i.escape t scope l w).2.2.heap = w.heap.releaseAll (R.eraseIdx j) ∧
          (i.escape t scope l w).2.2.signals = w.signals := by
        refine run_of_ok e.transition { w with heap := w.heap.releaseAll (R.eraseIdx j) } ha ?_
        rw [howner]
        dsimp only
        rw [ht]
        dsimp only
        rw [hesc]
      obtain ⟨hok, hstack, hframe⟩ := hrun
      rw [Storage.stack?_setStack] at hstack
      have hread : (i.getLocal t { l with scope } w).1 = .ok o := by
        rw [getLocal_of_stack? (l := { l with scope }) ha (ownerFault?_eq_none_iff.1 howner) ht,
          hget]
        rfl
      have hissued : i.issued? t w (.escape scope l)
          = some (⟨i.id, e.parent, e.added.slot⟩, o) := by
        rw [issued?, hok, hread]
      exact .inr ⟨parent, rest, j, o, _, hbelow, ho, hparent, hok, hissued,
        lays_of_some hstack hmoved, hframe⟩

end Lays

end Isolate

/-! ### What leaves the open scopes alone -/

/-- Whether a request opens a scope, or names one to close it or to escape from it. -/
def Request.managesScopes : Request → Bool
  | .openScope | .closeScope _ | .escape _ _ => true
  | _ => false

/-- Whether a job may change the open scopes of its thread, or what is in them. -/
def Job.affectsScopes : Job → Bool
  | .request (.addLocal _ _) => true
  | .request r => r.managesScopes
  | _ => false

/-- **Any other job** leaves the scope stack of a thread alone. -/
theorem Job.stack?_serve {i : Isolate} {t u : ThreadKey} {j : Job} (hs : i.storage.Rooted)
    (hj : u = t → j.affectsScopes = false) (w : Shared) :
    (j.serve u i w).2.1.storage.stack? t = i.storage.stack? t := by
  cases j with
  | request r =>
    by_cases hu : u = t
    · have hr := hj hu
      cases r with
      | openScope | closeScope | addLocal | escape => cases hr
      | getLocal l =>
        show (i.getLocal u l w).2.1.storage.stack? t = _
        rcases i.getLocal_cases u l w with ⟨e, he⟩ | ⟨o, ho⟩
        · rw [he]
          rfl
        · rw [ho]
      | _ => exact congrArg Desk.stack (Request.desk_serve rfl u t i w)
    · exact congrArg Desk.stack (r.desk_serve_of_ne hs (Ne.symm hu) w)
  | enter previous => rfl
  | exit => exact congrArg (Storage.stack? · t) (i.exit_frame u w).2.1
  | yieldLock => exact congrArg (Storage.stack? · t) (i.yieldLock_frame u w).2.1

/-! ### In every run -/

namespace World

variable {w w' : World} {t : ThreadKey} {i : IsolateId} {iso : Isolate} {L : Levels}
  {scope : ScopeId} {a : Act} {P : IsolateId → Prop} {ds : List Deed}

/-- The open scopes of a thread in an isolate, innermost first, with the objects of their
locals. -/
def Lays (w : World) (t : ThreadKey) (i : IsolateId) (L : Levels) : Prop :=
  ∃ iso, w.isolate? i = some iso ∧ iso.Lays t L

/-- How many scopes a thread has open in an isolate. -/
def scopeDepth (w : World) (t : ThreadKey) (i : IsolateId) : Nat :=
  (w.isolate? i).elim 0 fun iso => iso.depth t

theorem Lays.scopeDepth_eq (h : w.Lays t i L) : w.scopeDepth t i = L.length := by
  obtain ⟨iso, hi, h⟩ := h
  rw [scopeDepth, hi]
  exact h.depth_eq

theorem Lays.isOpen_iff (h : w.Lays t i L) : w.isOpen ⟨i, t⟩ scope = true ↔ scope ∈ L.ids := by
  obtain ⟨iso, hi, h⟩ := h
  rw [isOpen, hi]
  exact h.isOpen_iff

/-- A world in which isolates are there for whoever refers to them, with scope stacks in order: in
each a thread can open a scope, and the scopes that it has open have different ids. -/
structure Regular (w : World) : Prop where
  attended : w.Attended fun _ => False
  rooted : ∀ iso ∈ w.isolates, iso.storage.Rooted
  valid : ∀ iso ∈ w.isolates, iso.config.locals.IsValid
  lays : ∀ iso ∈ w.isolates, ∀ t, ∃ L, iso.Lays t L
  nodup : ∀ iso ∈ w.isolates, ∀ t L, iso.Lays t L → L.ids.Nodup

theorem attended_run (acts : List Act) : (({} : World).run acts).Attended fun _ => False := by
  induction acts using List.reverseRecOn with
  | nil => exact .init
  | append_singleton before a ih =>
    rw [run_append]
    exact (ih.does_move (.act a)).parts.attended

/-- The arenas of all isolates are set up in a way that works. -/
theorem valid_run (acts : List Act) :
    ∀ iso ∈ (({} : World).run acts).isolates, iso.config.locals.IsValid := by
  refine ((({} : World).log_run acts).keeps (K := fun iso => iso.config.locals.IsValid)
    (fun c id iso hc => ?_) (fun iso iso' h hiso => ?_) (fun d hd => ?_) nofun).2
  · unfold Isolate.ofConfig? at hc
    cases hfault : c.fault? with
    | some e =>
      rw [hfault] at hc
      cases hc
    | none =>
      rw [hfault] at hc
      dsimp only at hc
      split at hc
      · cases hc
      · cases hc
        unfold IsolateConfig.fault? at hfault
        split at hfault
        · cases hfault
        · cases hfault
        · next hlocals _ => exact hlocals
  · rw [h.config_eq]
    exact hiso
  · rw [d.config_outcome]
    exact hd

/-- **Every run that opens no more scopes than there are ids** leads to such a world. -/
theorem regular_run (acts : List Act) (hopened : acts.countP Act.opensScope ≤ 2 ^ 64) :
    (({} : World).run acts).Regular := by
  have hdrawn := World.opened_le {} acts
  obtain ⟨homes, -, hs, -⟩ := housed_init.run acts (by
    rw [List.length_nil]
    omega)
  refine ⟨attended_run acts, (rooted_run acts).2, valid_run acts, fun iso hi t => ?_,
    fun iso hi t L h => ?_⟩
  · cases ht : iso.storage.stack? t with
    | none => exact ⟨[], Isolate.lays_of_none ht⟩
    | some stack =>
      obtain ⟨c, L, hshows, -⟩ := hs.of_stack? hi stack ht
      exact ⟨L, Isolate.lays_of_some ht hshows⟩
  · unfold Isolate.Lays at h
    cases ht : iso.storage.stack? t with
    | none =>
      rw [ht] at h
      rw [h]
      exact .nil
    | some stack =>
      rw [ht] at h
      obtain ⟨c, h⟩ := h
      obtain ⟨c', L', hshows, hnd, -⟩ := hs.of_stack? hi stack ht
      rw [← h.map_frames_id, hshows.map_frames_id]
      exact hnd

/-- Where a thread does nothing with its scopes in an isolate, they are what they were. -/
theorem Log.stack?_eq (h : Log P w ds w') (hi : i.number < w.nextIsolate)
    (hrooted : ∀ iso ∈ w.isolates, iso.storage.Rooted)
    (hds : ∀ d ∈ ds, d.thread = t → d.isolate.id = i → d.job.affectsScopes = false) :
    ∀ iso' ∈ w'.isolates, iso'.id = i →
      ∃ iso ∈ w.isolates, iso.id = i ∧ iso'.storage.stack? t = iso.storage.stack? t := by
  induction h with
  | upkeep h =>
    intro iso' hi' hid
    obtain ⟨iso, hiso | ⟨⟨hge, -⟩, -⟩, hretains⟩ := h.origin iso' hi'
    · exact ⟨iso, hiso, hretains.id_eq.symm.trans hid, by rw [hretains.storage_eq]⟩
    · rw [← hretains.id_eq, hid] at hge
      exact absurd hi (Nat.not_lt.2 hge)
  | @deed w d hfound =>
    intro iso' hi' hid
    rcases mem_put_cases hi' with rfl | ⟨hi', -⟩
    · have hmem := (mem_of_isolate? hfound).1
      rw [d.id_outcome] at hid
      refine ⟨d.isolate, hmem, hid, d.job.stack?_serve (hrooted _ hmem) (fun hu => ?_) d.shared⟩
      exact hds d List.mem_cons_self hu hid
    · exact ⟨iso', hi', hid, rfl⟩
  | append h₁ _ ih₁ ih₂ =>
    intro iso'' hi'' hid
    obtain ⟨iso', hi', hid', heq'⟩ := ih₂ (Nat.lt_of_lt_of_le hi h₁.next_le)
      (h₁.rooted hrooted).2 (fun d hd => hds d (List.mem_append_right _ hd)) iso'' hi'' hid
    obtain ⟨iso, hiso, hid₁, heq⟩ := ih₁ hi hrooted
      (fun d hd => hds d (List.mem_append_left _ hd)) iso' hi' hid'
    exact ⟨iso, hiso, hid₁, heq'.trans heq⟩

/-- **An act that does nothing with a thread's scopes in an isolate** leaves them as they are, if
the isolate does not end. -/
theorem Regular.lays_act (hw : w.Regular)
    (hds : ∀ d ∈ w.deeds a, d.thread = t → d.isolate.id = i → d.job.affectsScopes = false)
    (h : w.Lays t i L) (hsome : ((w.act a).isolate? i).isSome = true) : (w.act a).Lays t i L := by
  obtain ⟨iso, hi, h⟩ := h
  obtain ⟨iso', hi'⟩ := Option.isSome_iff_exists.1 hsome
  obtain ⟨hmem, hid⟩ := mem_of_isolate? hi
  obtain ⟨hmem', hid'⟩ := mem_of_isolate? hi'
  have hlt : i.number < w.nextIsolate := hid ▸ hw.attended.wellFormed.below iso hmem
  obtain ⟨iso₁, hmem₁, hid₁, heq⟩ := (w.log_act a).stack?_eq hlt hw.rooted hds iso' hmem' hid'
  obtain rfl := Option.some.inj (hi.symm.trans (hw.attended.wellFormed.isolate?_of_mem hmem₁ hid₁))
  exact ⟨iso', hi', h.congr heq⟩

end World
end EngineHandles
