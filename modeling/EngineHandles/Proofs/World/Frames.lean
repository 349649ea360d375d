/-
# What a thread does with its scopes

A thread with access to an isolate (`World.HasAccess`) opens a scope there, closes the innermost
one, adds locals to it, and lets the guard of the innermost scope go; here each of these is told by
the lists of the open scopes, the heap, the signals, and the deeds (`Deed.Dealt`).

However the guard of the innermost scope ends, dropped, closed or by an escape, one deed closes the
scope and does not fail, and the references in it are released but the one that an escape moves
(`World.GuardEnds`, `World.Regular.ends`).  No other deed affects the thread's scopes, unless the
thread asked for it itself (`World.affects_cases`).
-/

import EngineHandles.Proofs.World.Atomic
import EngineHandles.Proofs.World.Reports
import EngineHandles.Proofs.World.ScopeGuards

namespace EngineHandles

namespace Deed

/-- The error of a request is that of the operation that it asks for. -/
theorem error?_request {t : ThreadKey} {r : Request} {iso : Isolate} {w : Shared} {α : Type}
    {f : α → Answer} {out : Isolate.Outcome α} (h : r.serve t iso w = out.map f) :
    (⟨t, .request r, iso, w⟩ : Deed).error? = out.error? := by
  show (Isolate.Outcome.map Reply.answer (r.serve t iso w)).error? = out.error?
  rw [Isolate.Outcome.error?_map, h, Isolate.Outcome.error?_map]

/-- Whether a deed is one of a thread in an isolate. -/
def isAt (d : Deed) (t : ThreadKey) (i : IsolateId) : Bool := d.thread == t && d.isolate.id == i

/-- The scope that a deed closed, by an escape from it perhaps. -/
def closed? (d : Deed) : Option ScopeId :=
  match d.job, d.error? with
  | .request (.closeScope scope), none | .request (.escape scope _), none => some scope
  | _, _ => none

/-- The scope into which a deed brought a reference, and the object. -/
def received? (d : Deed) : Option (ScopeId × ObjectId) :=
  match d.job with
  | .request r => (d.isolate.issued? d.thread d.shared r).map fun (l, o) => (l.scope, o)
  | _ => none

/-- Whether a deed failed to open a scope or to close one. -/
def missesScope (d : Deed) : Bool :=
  d.error?.isSome && match d.job with
    | .request .openScope | .request (.closeScope _) => true
    | _ => false

theorem missesScope_of_ok {d : Deed} (h : d.error? = none) : d.missesScope = false := by
  rw [missesScope, h]
  rfl

/-- What a thread's deeds in an isolate came to: the scopes that they closed, and the references
that came into scopes; and none failed to open or to close one. -/
structure Dealt (t : ThreadKey) (i : IsolateId) (ds : List Deed) (closed : List ScopeId)
    (received : List (ScopeId × ObjectId)) : Prop where
  closed_eq : (ds.filter (·.isAt t i)).filterMap closed? = closed
  received_eq : (ds.filter (·.isAt t i)).filterMap received? = received
  misses : ∀ d ∈ ds.filter (·.isAt t i), d.missesScope = false

namespace Dealt

variable {t : ThreadKey} {i : IsolateId} {ds ds' : List Deed} {d : Deed}
  {closed closed' : List ScopeId} {received received' : List (ScopeId × ObjectId)}

theorem append (h : Dealt t i ds closed received) (h' : Dealt t i ds' closed' received') :
    Dealt t i (ds ++ ds') (closed ++ closed') (received ++ received') := by
  refine ⟨?_, ?_, fun d hd => ?_⟩
  · rw [List.filter_append, List.filterMap_append, h.closed_eq, h'.closed_eq]
  · rw [List.filter_append, List.filterMap_append, h.received_eq, h'.received_eq]
  · rw [List.filter_append] at hd
    exact (List.mem_append.1 hd).elim (h.misses d) (h'.misses d)

/-- One deed of the thread in the isolate. -/
theorem singleton (ht : d.thread = t) (hi : d.isolate.id = i) (hmisses : d.missesScope = false) :
    Dealt t i [d] d.closed?.toList d.received?.toList := by
  have hone : [d].filter (·.isAt t i) = [d] := by simp [isAt, ht, hi]
  refine ⟨?_, ?_, fun d' hd' => ?_⟩
  · rw [hone]
    cases hc : d.closed? <;> simp [hc]
  · rw [hone]
    cases hr : d.received? <;> simp [hr]
  · obtain rfl := List.mem_singleton.1 (List.mem_filter.1 hd').1
    exact hmisses

/-- Deeds that do nothing with scopes. -/
theorem of_rests (h : ∀ d ∈ ds, d.isAt t i = true → d.job.affectsScopes = false) :
    Dealt t i ds [] [] := by
  have hd : ∀ d ∈ ds.filter (·.isAt t i),
      d.closed? = none ∧ d.received? = none ∧ d.missesScope = false := by
    intro d hd
    obtain ⟨hd, hat⟩ := List.mem_filter.1 hd
    have hjob := h d hd hat
    obtain ⟨u, job, iso, shared⟩ := d
    cases job with
    | request r =>
      cases r with
      | openScope | closeScope | addLocal | escape => cases hjob
      | _ => exact ⟨rfl, rfl, Bool.and_false _⟩
    | _ => exact ⟨rfl, rfl, Bool.and_false _⟩
  refine ⟨?_, ?_, fun d hd' => (hd d hd').2.2⟩
  · exact List.filterMap_eq_nil_iff.2 fun d hd' => (hd d hd').1
  · exact List.filterMap_eq_nil_iff.2 fun d hd' => (hd d hd').2.1

end Dealt

end Deed

/-- What may come into the innermost scope: no reference, or one. -/
inductive Levels.Receives : Levels → List (ScopeId × ObjectId) → Levels → Prop where
  | none (L : Levels) : Receives L [] L
  | one (l : Level) (below : Levels) (o : ObjectId) :
    Receives (l :: below) [(l.id, o)] (⟨l.id, l.objects ++ [o]⟩ :: below)

theorem Levels.Receives.ids_eq {L L' : Levels} {received : List (ScopeId × ObjectId)}
    (h : L.Receives received L') : L'.ids = L.ids := by
  cases h <;> rfl

/-! ### The isolate of a thread with access -/

/-- An isolate whose storage a thread may touch, with these scopes of the thread open. -/
structure Isolate.Ready (iso : Isolate) (t : ThreadKey) (L : Levels) : Prop where
  access : iso.accessFault? t = none
  owners : iso.storage.owners.Nodup
  valid : iso.config.locals.IsValid
  lays : iso.Lays t L
  nodup : L.ids.Nodup

/-- A failure does not keep a thread from the storage. -/
theorem Isolate.Ready.fail {iso : Isolate} {t : ThreadKey} {L : Levels} (h : iso.Ready t L)
    (site : Site) (e : HandleError) (w : Shared) : (iso.fail site e w).1.Ready t L :=
  ⟨h.access, h.owners, h.valid, h.lays, h.nodup⟩

namespace World

variable {w w' : World} {t u : ThreadKey} {i : IsolateId} {iso : Isolate} {L below : Levels}
  {R : List ObjectId} {g : GuardId} {scope : ScopeId} {a : Act} {x : Guard}

/-- A thread is in an isolate and may touch its storage. -/
def HasAccess (w : World) (t : ThreadKey) (i : IsolateId) : Prop :=
  i ∈ w.enters t ∧ (w.isolate? i).map (·.accessFault? t) = some none

instance (w : World) (t : ThreadKey) (i : IsolateId) : Decidable (w.HasAccess t i) :=
  inferInstanceAs (Decidable (_ ∧ _))

theorem HasAccess.isSome (h : w.HasAccess t i) : (w.isolate? i).isSome = true := by
  obtain ⟨iso, hi, -⟩ := Option.map_eq_some_iff.1 h.2
  rw [hi]
  rfl

/-- The isolate is ready for a thread with access. -/
theorem Regular.exists_ready (hw : w.Regular) (ha : w.HasAccess t i) (h : w.Lays t i L) :
    ∃ iso, w.isolate? i = some iso ∧ iso.id = i ∧ iso.Ready t L := by
  obtain ⟨iso, hi, h⟩ := h
  obtain ⟨hmem, hid⟩ := mem_of_isolate? hi
  have haccess := ha.2
  rw [hi] at haccess
  exact ⟨iso, hi, hid, Option.some.inj haccess, (hw.rooted iso hmem).1, hw.valid iso hmem, h,
    hw.nodup iso hmem t L h⟩

/-! ### References that are released -/

/-- A thread's references to these objects in an isolate were released, once each, these are its
open scopes there now, and nothing was signalled. -/
structure Frees (t : ThreadKey) (i : IsolateId) (w : World) (R : List ObjectId) (L : Levels)
    (w' : World) : Prop where
  lays : w'.Lays t i L
  heap : w'.heap = w.heap.releaseAll R
  signals : w'.shared.signals = w.shared.signals

/-- A guard of an isolate that a thread is in goes, and ends nothing. -/
theorem removeGuard_of_mem_enters (h : x.isolate ∈ w.enters t) :
    w.removeGuard x = { w with guards := w.guards.filter fun y => y.id != x.id } := by
  rw [World.removeGuard, reap, if_pos]
  exact isReferenced_of_mem_enters (t := t) h

theorem Frees.removeGuard (h : Frees t i w R L w') (hx : x.isolate ∈ w'.enters u) :
    Frees t i w R L (w'.removeGuard x) := by
  rw [removeGuard_of_mem_enters hx]
  exact ⟨h.lays, h.heap, h.signals⟩

theorem isolate?_put {r : Isolate × Shared} (hi : w.isolate? i = some iso) (hid : r.1.id = i) :
    (w.put r).isolate? i = some r.1 := by
  show (w.setIsolate r.1).isolate? i = some r.1
  rw [isolate?_setIsolate, hi, Option.map_some, if_pos hid.symm]

/-! ### Opening, closing and adding -/

/-- **Opening a scope under a guard** does not fail, and makes the newest guard. -/
theorem openGuarded_of_ready (hi : w.isolate? i = some iso) (hid : iso.id = i)
    (h : iso.Ready t L) :
    w.openGuarded? t i
        = some (.ok (⟨w.nextGuard⟩, w.shared.nextScope), w.act (.openGuarded t i)) ∧
      Frees t i w [] (⟨w.shared.nextScope, []⟩ :: L) (w.act (.openGuarded t i)) ∧
      (w.act (.openGuarded t i)).scopeGuards t i
        = (⟨w.nextGuard⟩, w.shared.nextScope) :: w.scopeGuards t i ∧
      Deed.Dealt t i (w.deeds (.openGuarded t i)) [] [] := by
  obtain ⟨hok, hlays, hheap, hsignals⟩ := h.lays.openScope h.access h.valid (w := w.shared)
  have hid' : (iso.openScope t w.shared).2.1.id = i :=
    (Request.openScope.id_serve t iso w.shared).trans hid
  have hopen : w.openGuarded? t i = some (.ok (⟨w.nextGuard⟩, w.shared.nextScope),
      ((w.put (iso.openScope t w.shared).2).addGuard t i (.scope w.shared.nextScope)).2) := by
    unfold openGuarded? perform?
    rw [hi]
    dsimp only
    rw [hok]
    rfl
  have hact : w.act (.openGuarded t i)
      = ((w.put (iso.openScope t w.shared).2).addGuard t i (.scope w.shared.nextScope)).2 := by
    show w.orStay (w.openGuarded? t i) = _
    rw [hopen]
    rfl
  rw [hact]
  refine ⟨hopen, ⟨⟨_, isolate?_put hi hid', hlays⟩, hheap, hsignals⟩, ?_, ?_⟩
  · show ((w.guards ++ [_]).reverse.filterMap _) = _
    rw [List.reverse_append, List.reverse_singleton, List.singleton_append,
      List.filterMap_cons_some (Guard.scopeAt?_eq_some_iff.2 rfl)]
    rfl
  · show Deed.Dealt t i (w.deed? t i (.request .openScope)).toList [] []
    rw [deed?, hi]
    have herror : Deed.error? ⟨t, .request .openScope, iso, w.shared⟩ = none := by
      rw [Deed.error?_request rfl, Isolate.Outcome.error?, hok]
    exact .singleton rfl hid (Deed.missesScope_of_ok herror)

/-- **Closing the innermost scope** is a deed that does not fail. -/
theorem closeScope_of_ready (hi : w.isolate? i = some iso) (hid : iso.id = i)
    (h : iso.Ready t (⟨scope, R⟩ :: L)) :
    (iso.closeScope t scope w.shared).1 = .ok () ∧
      Frees t i w R L (w.put (iso.closeScope t scope w.shared).2) ∧
      Deed.Dealt t i [⟨t, .request (.closeScope scope), iso, w.shared⟩] [scope] [] := by
  obtain ⟨hok, hlays, hheap, hsignals⟩ := h.lays.closeScope h.access h.owners (w := w.shared)
  have hid' : (iso.closeScope t scope w.shared).2.1.id = i :=
    ((Request.closeScope scope).id_serve t iso w.shared).trans hid
  have herror : Deed.error? ⟨t, .request (.closeScope scope), iso, w.shared⟩ = none := by
    rw [Deed.error?_request rfl, Isolate.Outcome.error?, hok]
  refine ⟨hok, ⟨⟨_, isolate?_put hi hid', hlays⟩, hheap, hsignals⟩, ?_⟩
  have hdealt : Deed.Dealt t i [⟨t, .request (.closeScope scope), iso, w.shared⟩] _ _ :=
    .singleton rfl hid (Deed.missesScope_of_ok herror)
  rw [Deed.closed?, herror] at hdealt
  exact hdealt

/-- **Adding a local** fails, or brings it into the innermost scope. -/
theorem addLocal_of_ready (hi : w.isolate? i = some iso) (hid : iso.id = i)
    (h : iso.Ready t L) (named : Option ScopeId) (o : ObjectId) :
    ∃ received L', L.Receives received L' ∧
      (w.act (.request t i (.addLocal named o))).Lays t i L' ∧
      Deed.Dealt t i (w.deeds (.request t i (.addLocal named o))) [] received := by
  have hid' : ((Request.addLocal named o).serve t iso w.shared).2.1.id = i :=
    ((Request.addLocal named o).id_serve t iso w.shared).trans hid
  have hdealt : Deed.Dealt t i [⟨t, .request (.addLocal named o), iso, w.shared⟩] _ _ :=
    .singleton rfl hid (Bool.and_false _)
  have hdeeds : w.deeds (.request t i (.addLocal named o))
      = [⟨t, .request (.addLocal named o), iso, w.shared⟩] := by
    rw [deeds, deed?, hi]
    rfl
  rw [hdeeds, act_request, hi]
  rw [show Deed.closed? ⟨t, .request (.addLocal named o), iso, w.shared⟩ = none from rfl,
    Deed.received?] at hdealt
  dsimp only at hdealt ⊢
  rw [Isolate.issued?] at hdealt
  rcases h.lays.addLocalTo h.access h.owners named o (w := w.shared) with
    ⟨e, he⟩ | ⟨l, below, added, f, rfl, hscope, hok, hlays⟩
  · refine ⟨[], L, .none L, ⟨_, isolate?_put hi hid', ?_⟩, ?_⟩
    · show (iso.addLocalTo t named o w.shared).2.1.Lays t L
      rw [he]
      exact h.lays
    · rw [he] at hdealt
      exact hdealt
  · refine ⟨_, _, .one l below o, ⟨_, isolate?_put hi hid', hlays⟩, ?_⟩
    rw [hok] at hdealt
    dsimp only at hdealt
    rw [Option.map_some, hscope] at hdealt
    exact hdealt

/-! ### The end of a guard -/

/-- **How the guard of the innermost scope ends.**  `R` are the references in the scope, `L` are
the open scopes below, and `received` is what comes into the one right below. -/
inductive GuardEnds (w : World) (x : Guard) (scope : ScopeId) (R : List ObjectId) (L : Levels) :
    Act → List (ScopeId × ObjectId) → World → Prop where
  /-- It is dropped. -/
  | drops {w' : World} (frees : Frees x.thread x.isolate w R L w') :
    GuardEnds w x scope R L (.dropGuard x.id) [] w'
  /-- It is closed, which does not fail. -/
  | closes {w' : World} (answer : w.closeGuard? x scope = some (.ok (), w'))
    (frees : Frees x.thread x.isolate w R L w') : GuardEnds w x scope R L (.closeGuard x.id) [] w'
  /-- An escape fails, which is signalled, and the scope is closed nevertheless. -/
  | fails {l : LocalHandle} {e : HandleError} {w' : World}
    (answer : w.escapeGuard? x scope l = some (.error e, w'))
    (frees : Frees x.thread x.isolate (w.signalled x.isolate .escape e) R L w') :
    GuardEnds w x scope R L (.escapeGuard x.id l) [] w'
  /-- An escape moves one of the references into the scope right below. -/
  | moves {l l' : LocalHandle} {parent : Level} {rest : Levels} {j : Nat} {o : ObjectId}
    {w' : World} (answer : w.escapeGuard? x scope l = some (.ok l', w'))
    (issued : w.issued? (.escapeGuard x.id l) = some ⟨⟨x.isolate, x.thread⟩, l', o⟩)
    (home : l'.scope = parent.id) (below : L = parent :: rest) (moved : R[j]? = some o)
    (frees : Frees x.thread x.isolate w (R.eraseIdx j)
      (⟨parent.id, parent.objects ++ [o]⟩ :: rest) w') :
    GuardEnds w x scope R L (.escapeGuard x.id l) [(parent.id, o)] w'

/-- The scopes below are what they were, but for a local that one of them may have got. -/
theorem GuardEnds.exists_lays {received : List (ScopeId × ObjectId)}
    (h : GuardEnds w x scope R L a received w') :
    ∃ L', L.Receives received L' ∧ w'.Lays x.thread x.isolate L' := by
  cases h with
  | drops frees => exact ⟨L, .none L, frees.lays⟩
  | closes _ frees => exact ⟨L, .none L, frees.lays⟩
  | fails _ frees => exact ⟨L, .none L, frees.lays⟩
  | moves _ _ _ below _ frees =>
    subst below
    exact ⟨_, .one _ _ _, frees.lays⟩

/-- The guard of an isolate's innermost scope that is dropped. -/
theorem dropGuard_of_ready (hin : i ∈ w.enters t) (hi : w.isolate? i = some iso) (hid : iso.id = i)
    (h : iso.Ready t (⟨scope, R⟩ :: L)) :
    ∃ w', w.dropGuard? ⟨g, t, i, .scope scope⟩ = some w' ∧ Frees t i w R L w' ∧
      Deed.Dealt t i (w.undoing? ⟨g, t, i, .scope scope⟩).toList [scope] [] := by
  obtain ⟨-, hfrees, hdealt⟩ := closeScope_of_ready hi hid h
  have hdrop := dropGuard?_eq (w := w) (g := ⟨g, t, i, .scope scope⟩) rfl (by rw [hi]; rfl)
  rw [act_request, hi] at hdrop
  have hundo : w.undoing? ⟨g, t, i, .scope scope⟩
      = some ⟨t, .request (.closeScope scope), iso, w.shared⟩ := by
    show w.deed? t i _ = _
    rw [deed?, hi]
    rfl
  rw [hundo]
  exact ⟨_, hdrop, hfrees.removeGuard hin, hdealt⟩

theorem closeGuard_of_ready (hin : i ∈ w.enters t) (hi : w.isolate? i = some iso) (hid : iso.id = i)
    (h : iso.Ready t (⟨scope, R⟩ :: L)) :
    ∃ w', w.closeGuard? ⟨g, t, i, .scope scope⟩ scope = some (.ok (), w') ∧ Frees t i w R L w' ∧
      Deed.Dealt t i (w.deed? t i (.request (.closeScope scope))).toList [scope] [] := by
  obtain ⟨hok, hfrees, hdealt⟩ := closeScope_of_ready hi hid h
  have hp : w.perform? i (fun iso shared => iso.closeScope t scope shared)
      = some (.ok (), w.put (iso.closeScope t scope w.shared).2) :=
    perform?_eq_some_iff.2 ⟨iso, hi, hok.symm, rfl⟩
  rw [closeGuard?, hp, deed?, hi]
  exact ⟨_, rfl, hfrees.removeGuard hin, hdealt⟩

/-- A thread's deed of an escape: it is told by what the isolate answers. -/
theorem dealt_escape (hid : iso.id = i) (t : ThreadKey) (scope : ScopeId) (l : LocalHandle)
    (shared : Shared) :
    Deed.Dealt t i [⟨t, .request (.escape scope l), iso, shared⟩]
      (match Isolate.Outcome.error? (iso.escape t scope l shared) with
        | none => [scope]
        | some _ => [])
      ((iso.issued? t shared (.escape scope l)).map fun (l, o) => (l.scope, o)).toList := by
  have hdealt : Deed.Dealt t i [⟨t, .request (.escape scope l), iso, shared⟩] _ _ :=
    .singleton rfl hid (Bool.and_false _)
  have herror : Deed.error? ⟨t, .request (.escape scope l), iso, shared⟩
      = Isolate.Outcome.error? (iso.escape t scope l shared) := Deed.error?_request rfl
  rw [Deed.closed?, herror] at hdealt
  cases he : Isolate.Outcome.error? (iso.escape t scope l shared) <;> rw [he] at hdealt <;>
    exact hdealt

/-- The guard of an isolate's innermost scope, by which an escape is tried that is refused: the
guard is then dropped where the failure was signalled. -/
theorem escapeGuard_of_refused (hw : w.WellFormed) (hin : i ∈ w.enters t)
    (hi : w.isolate? i = some iso) (h : iso.Ready t (⟨scope, R⟩ :: L)) {l : LocalHandle}
    {e : HandleError}
    (he : iso.escape t scope l w.shared = (.error e, iso.fail .escape e w.shared)) :
    ∃ w', w.escapeGuard? ⟨g, t, i, .scope scope⟩ scope l = some (.error e, w') ∧
      Frees t i (w.signalled i .escape e) R L w' ∧
      Deed.Dealt t i (w.escaping ⟨g, t, i, .scope scope⟩ scope l) [scope] [] := by
  obtain ⟨-, hid⟩ := mem_of_isolate? hi
  have hp : w.perform? i (fun iso shared => iso.escape t scope l shared)
      = some (.error e, w.put (iso.fail .escape e w.shared)) :=
    perform?_eq_some_iff.2 ⟨iso, hi, by rw [he], by rw [he]⟩
  obtain ⟨w', hdrop, hfrees, hdealt'⟩ := dropGuard_of_ready (g := g)
    (w := w.put (iso.fail .escape e w.shared)) hin
    (isolate?_put (r := iso.fail .escape e w.shared) hi hid) hid (h.fail .escape e w.shared)
  rw [put_fail hw hi] at hfrees
  refine ⟨w', ?_, hfrees, ?_⟩
  · rw [escapeGuard?, hp]
    dsimp only
    rw [hdrop]
    rfl
  · have hdealt := dealt_escape hid t scope l w.shared
    rw [he, Isolate.issued?, he] at hdealt
    have herror : Deed.error? ⟨t, .request (.escape scope l), iso, w.shared⟩ = some e := by
      rw [Deed.error?_request rfl, he]
      rfl
    have hput : w.put (Deed.outcome ⟨t, .request (.escape scope l), iso, w.shared⟩).2
        = w.put (iso.fail .escape e w.shared) := by
      show w.put (iso.escape t scope l w.shared).2 = _
      rw [he]
    rw [escaping, deed?, hi, Option.map_some]
    dsimp only
    rw [herror, hput]
    exact hdealt.append hdealt'

/-- The guard of an isolate's innermost scope that is used up by an escape. -/
theorem escapeGuard_of_moved (hin : i ∈ w.enters t) (hi : w.isolate? i = some iso)
    {l l' : LocalHandle} {o : ObjectId}
    (hok : (iso.escape t scope l w.shared).1 = .ok l')
    (hissued : iso.issued? t w.shared (.escape scope l) = some (l', o))
    (hlays : (iso.escape t scope l w.shared).2.1.Lays t L)
    (hheap : (iso.escape t scope l w.shared).2.2.heap = w.heap.releaseAll R)
    (hsignals : (iso.escape t scope l w.shared).2.2.signals = w.shared.signals) :
    ∃ w', w.escapeGuard? ⟨g, t, i, .scope scope⟩ scope l = some (.ok l', w') ∧
      Frees t i w R L w' ∧
      Deed.Dealt t i (w.escaping ⟨g, t, i, .scope scope⟩ scope l) [scope] [(l'.scope, o)] := by
  obtain ⟨-, hid⟩ := mem_of_isolate? hi
  have hid' : (iso.escape t scope l w.shared).2.1.id = i :=
    ((Request.escape scope l).id_serve t iso w.shared).trans hid
  have hp : w.perform? i (fun iso shared => iso.escape t scope l shared)
      = some (.ok l', w.put (iso.escape t scope l w.shared).2) :=
    perform?_eq_some_iff.2 ⟨iso, hi, hok.symm, rfl⟩
  have hfrees : Frees t i w R L (w.put (iso.escape t scope l w.shared).2) :=
    ⟨⟨_, isolate?_put hi hid', hlays⟩, hheap, hsignals⟩
  have hnone : Isolate.Outcome.error? (iso.escape t scope l w.shared) = none := by
    rw [Isolate.Outcome.error?, hok]
  have hdealt := dealt_escape hid t scope l w.shared
  rw [hnone, hissued] at hdealt
  have herror : Deed.error? ⟨t, .request (.escape scope l), iso, w.shared⟩ = none :=
    (Deed.error?_request rfl).trans hnone
  rw [escapeGuard?, hp, escaping, deed?, hi, Option.map_some]
  dsimp only
  rw [herror]
  exact ⟨_, rfl, hfrees.removeGuard hin, hdealt⟩

/-- **The guard of the innermost scope ends** as one of these says, and is gone; the scope was
closed by one deed. -/
theorem Regular.ends (hw : w.Regular) (ha : w.HasAccess t i) (hL : w.Lays t i (⟨scope, R⟩ :: L))
    (hg : (g, scope) ∈ w.scopeGuards t i) (hend : a.ended? = some g) :
    ∃ received, GuardEnds w ⟨g, t, i, .scope scope⟩ scope R L a received (w.act a) ∧
      Deed.Dealt t i (w.deeds a) [scope] received ∧
      (w.act a).guards = w.guards.filter fun x => x.id != g := by
  obtain ⟨iso, hi, hid, hready⟩ := hw.exists_ready ha hL
  have hguard := hw.attended.guardedScope?_of_mem hg
  have hlive := (guardedScope?_eq_some hguard).1
  cases a with
  | dropGuard g' =>
    obtain rfl := Option.some.inj hend
    obtain ⟨w', hdrop, hfrees, hdealt⟩ := dropGuard_of_ready (g := g') ha.1 hi hid hready
    rw [act, deeds, hlive, Option.bind_some, Option.bind_some, hdrop]
    exact ⟨[], .drops hfrees, hdealt, guards_dropGuard? hw.attended hdrop⟩
  | closeGuard g' =>
    obtain rfl := Option.some.inj hend
    obtain ⟨w', hclose, hfrees, hdealt⟩ := closeGuard_of_ready (g := g') ha.1 hi hid hready
    rw [act, deeds, hguard, Option.bind_some, Option.bind_some]
    dsimp only
    rw [hclose]
    exact ⟨[], .closes hclose hfrees, hdealt, guards_closeGuard? hclose⟩
  | escapeGuard g' l =>
    obtain rfl := Option.some.inj hend
    rw [act, deeds, hguard, Option.bind_some, Option.map_some]
    dsimp only
    rcases hready.lays.escape hready.access hready.owners hready.nodup l (w := w.shared) with
      ⟨e, he⟩ | ⟨parent, rest, j, o, l', hbelow, ho, hhome, hok, hby, hlays, hheap, hsignals⟩
    · obtain ⟨w', hescape, hfrees, hdealt⟩ :=
        escapeGuard_of_refused (g := g') hw.attended.wellFormed ha.1 hi hready he
      rw [hescape]
      exact ⟨[], .fails hescape hfrees, hdealt, guards_escapeGuard? hw.attended hescape⟩
    · obtain ⟨w', hescape, hfrees, hdealt⟩ :=
        escapeGuard_of_moved (g := g') ha.1 hi hok hby hlays hheap hsignals
      have hissued : w.issued? (.escapeGuard g' l) = some ⟨⟨i, t⟩, l', o⟩ := by
        rw [issued?, hguard, Option.bind_some]
        dsimp only
        rw [issuedBy?, hi]
        exact congrArg (Option.map _) hby
      rw [hescape]
      rw [hhome] at hdealt
      exact ⟨_, .moves hescape hissued hhome hbelow ho hfrees, hdealt,
        guards_escapeGuard? hw.attended hescape⟩
  | _ => cases hend

/-! ### What else is done -/

theorem deed?_eq_some {j : IsolateId} {job : Job} {d : Deed} (h : w.deed? u j job = some d) :
    d.thread = u ∧ d.isolate.id = j ∧ d.job = job := by
  obtain ⟨iso, hj, rfl⟩ := Option.map_eq_some_iff.1 h
  exact ⟨rfl, (mem_of_isolate? hj).2, rfl⟩

/-- The deeds of an escape under a guard are those of its thread in its isolate. -/
theorem mem_escaping {d : Deed} {l : LocalHandle} (hk : x.kind = .scope scope)
    (hd : d ∈ w.escaping x scope l) : d.thread = x.thread ∧ d.isolate.id = x.isolate := by
  unfold escaping at hd
  split at hd
  · cases hd
  · next d' hd' =>
    rcases List.mem_cons.1 hd with rfl | hd
    · obtain ⟨hu, hj, -⟩ := deed?_eq_some hd'
      exact ⟨hu, hj⟩
    · -- the escape failed, and the guard is dropped
      split at hd
      · have hundo := Option.mem_toList.1 hd
        rw [undoing?, hk] at hundo
        obtain ⟨hu, hj, -⟩ := deed?_eq_some hundo
        exact ⟨hu, hj⟩
      · cases hd

/-- **A deed that affects a thread's scopes** in an isolate is that of a guard of them which is made
or used up, or one that the thread asked for itself. -/
theorem affects_cases {d : Deed} (hd : d ∈ w.deeds a) (hat : d.isAt t i = true)
    (hjob : d.job.affectsScopes = true) : a = .openGuarded t i ∨
      (∃ r, a = .request t i r ∧ (Job.request r).affectsScopes = true) ∨
        ∃ g ∈ a.ended?, g ∈ (w.scopeGuards t i).map Prod.fst := by
  obtain ⟨rfl, rfl⟩ : d.thread = t ∧ d.isolate.id = i := by
    rw [Deed.isAt, Bool.and_eq_true, beq_iff_eq, beq_iff_eq] at hat
    exact hat
  have hguard : ∀ {g x s}, w.guardedScope? g = some (x, s) →
      d.thread = x.thread ∧ d.isolate.id = x.isolate →
      g ∈ (w.scopeGuards d.thread d.isolate.id).map Prod.fst := by
    rintro g ⟨id, u, j, kind⟩ s hx ⟨rfl, rfl⟩
    obtain ⟨hlive, hk⟩ := guardedScope?_eq_some hx
    obtain ⟨hmem, rfl⟩ := mem_of_guard? hlive
    obtain rfl : kind = .scope s := hk
    exact List.mem_map_of_mem (mem_scopeGuards.2 hmem)
  cases a with
  | tally | make | furnish | newIsolate | releaseHost | setEngineDead | endThread | lock => cases hd
  | request u j r =>
    obtain ⟨rfl, rfl, hr⟩ := deed?_eq_some (Option.mem_toList.1 hd)
    rw [hr] at hjob
    exact .inr (.inl ⟨r, rfl, hjob⟩)
  | enter u j | enterGuarded u j | exit u j | unlock u j =>
    obtain ⟨-, -, hr⟩ := deed?_eq_some (Option.mem_toList.1 hd)
    rw [hr] at hjob
    cases hjob
  | openGuarded u j =>
    obtain ⟨rfl, rfl, -⟩ := deed?_eq_some (Option.mem_toList.1 hd)
    exact .inl rfl
  | dropGuard g =>
    obtain ⟨x, hx, hundo⟩ := Option.bind_eq_some_iff.1 (Option.mem_toList.1 hd)
    refine .inr (.inr ⟨g, rfl, ?_⟩)
    unfold undoing? at hundo
    split at hundo
    · obtain ⟨-, -, hr⟩ := deed?_eq_some hundo
      rw [hr] at hjob
      cases hjob
    · next scope hk =>
      obtain ⟨hu, hj, -⟩ := deed?_eq_some hundo
      refine hguard (s := scope) ?_ ⟨hu, hj⟩
      rw [guardedScope?, hx, Option.bind_some, hk]
    · cases hundo
    · cases hundo
  | closeGuard g =>
    obtain ⟨⟨x, scope⟩, hx, hclose⟩ := Option.bind_eq_some_iff.1 (Option.mem_toList.1 hd)
    obtain ⟨hu, hj, -⟩ := deed?_eq_some hclose
    exact .inr (.inr ⟨g, rfl, hguard hx ⟨hu, hj⟩⟩)
  | escapeGuard g l =>
    cases hx : w.guardedScope? g with
    | none =>
      rw [deeds, hx] at hd
      cases hd
    | some p =>
      rw [deeds, hx, Option.map_some] at hd
      exact .inr (.inr ⟨g, rfl, hguard hx (mem_escaping (guardedScope?_eq_some hx).2 hd)⟩)

end World
end EngineHandles
