/-
# Moves

The host has one reference to an isolate that it made, and may take further ones of any that
it can reach (`Move.share`).  A move works on handles and objects first, if at all, and ends
no isolate by that (`World.preparation`); then references to isolates are taken and given
up (`World.Does`).  Most moves of threads and guards do only the latter; to let the guard of
a scope go is to close the scope first.

So an isolate is there exactly as long as somebody refers to it, after any moves
(`Attended.moveAll`, `Attended.isSome_iff`).
-/

import EngineHandles.Proofs.World.Referrers

namespace EngineHandles

/-- An act, or that the host takes one more reference to an isolate that is there. -/
inductive Move where
  | act (act : Act)
  | share (isolate : IsolateId)

namespace World

variable {w w' w₁ : World} {t : ThreadKey} {i j : IsolateId}

/-- What the world is after a move. -/
def move (w : World) : Move → World
  | .act a => w.act a
  | .share i => if (w.isolate? i).isSome then { w with hosts := w.hosts ++ [i] } else w

/-- What the world is after moves. -/
def moveAll (w : World) (moves : List Move) : World := moves.foldl move w

/-! ### What a move does first -/

/-- What the guard of a scope does when a local is to escape: if that fails, the scope is
closed nevertheless. -/
def escapeActs (w : World) (g : Guard) (scope : ScopeId) (l : LocalHandle) : List Act :=
  .request g.thread g.isolate (.escape scope l) ::
    match w.perform? g.isolate fun iso shared => iso.escape g.thread scope l shared with
    | some (.error _, _) => [.request g.thread g.isolate (.closeScope scope)]
    | _ => []

/-- What a move does on handles and objects, before it takes or gives up references to
isolates. -/
def preparation (w : World) : Move → List Act
  | .act a =>
    match a with
    | .tally _ | .make _ | .furnish _ _ | .newIsolate _ | .request _ _ _ => [a]
    | .openGuarded t i => [.request t i .openScope]
    | .dropGuard g | .closeGuard g =>
      match w.guardedScope? g with
      | none => []
      | some (x, scope) => [.request x.thread x.isolate (.closeScope scope)]
    | .escapeGuard g l =>
      match w.guardedScope? g with
      | none => []
      | some (x, scope) => w.escapeActs x scope l
    | .releaseHost _ | .setEngineDead _ _ | .enter _ _ | .exit _ _ | .endThread _
    | .enterGuarded _ _ | .lock _ _ | .unlock _ _ => []
  | .share _ => []

/-- Work on handles first, which ends no isolate, and then references taken and given up. -/
structure Does (w : World) (works : List Act) (w' : World) : Prop where
  stays : ∀ i, (w.isolate? i).isSome = true → ((w.run works).isolate? i).isSome = true
  parts : (w.run works).Parts w'

theorem Parts.does (h : w.Parts w') : w.Does [] w' := ⟨fun _ hi => hi, h⟩

/-- An act that works on handles only. -/
theorem Does.all {a : Act} (hw : (w.act a).Attended fun _ => False)
    (hstays : ∀ i, (w.isolate? i).isSome = true → ((w.act a).isolate? i).isSome = true) :
    w.Does [a] (w.act a) := ⟨hstays, .refl hw⟩

/-- The isolate of a guard is there. -/
theorem Attended.isSome_of_mem {P : IsolateId → Prop} {g : Guard} (hw : w.Attended P)
    (hg : g ∈ w.guards) : (w.isolate? g.isolate).isSome = true :=
  isSome_isolate?_iff.2 (hw.found g.isolate (.inr (.inl ⟨g, hg, rfl⟩)))

theorem Attended.request (hw : w.Attended fun _ => False) (t : ThreadKey) (i : IsolateId)
    (r : Request) : (w.act (.request t i r)).Attended fun _ => False :=
  hw.orStay fun _ _ h => hw.perform? (fun iso shared => r.id_serve t iso shared) h

/-- A request ends no isolate. -/
theorem isSome_request (t : ThreadKey) (i : IsolateId) (r : Request)
    (hj : (w.isolate? j).isSome = true) : ((w.act (.request t i r)).isolate? j).isSome = true := by
  rw [act_request]
  split
  · exact hj
  · obtain ⟨iso, hi⟩ := Option.isSome_iff_exists.1 hj
    exact isSome_put hi

theorem guards_request (w : World) (t : ThreadKey) (i : IsolateId) (r : Request) :
    (w.act (.request t i r)).guards = w.guards := by
  rw [act_request]
  split <;> rfl

theorem guards_removeEnter (w : World) (t : ThreadKey) (i : IsolateId) :
    (w.removeEnter t i).guards = w.guards := by
  unfold removeEnter
  split
  · rfl
  · dsimp only
    split
    · rfl
    · split
      · rfl
      · unfold relink
        split <;> rfl

/-- Dropping a guard that is not one of a scope only takes and gives up references. -/
theorem Parts.undo? {g : Guard} (hw : w.Attended fun _ => False)
    (hk : ∀ scope, g.kind ≠ .scope scope) (h : w.undo? g = some w') :
    w.Parts w' ∧ w'.guards = w.guards := by
  unfold World.undo? at h
  split at h
  · obtain ⟨⟨r, w₁⟩, hr, rfl⟩ := Option.map_eq_some_iff.1 h
    refine ⟨.exit? hw hr, ?_⟩
    unfold World.exit? at hr
    split at hr
    · cases hr
    · next hp =>
      cases hr
      obtain ⟨iso, hi, -, rfl⟩ := perform?_eq_some_iff.1 hp
      rfl
    · next hp =>
      cases hr
      obtain ⟨iso, hi, -, rfl⟩ := perform?_eq_some_iff.1 hp
      rw [(reap_frame _ _).1, guards_removeEnter]
      rfl
  · obtain ⟨iso, hi, rfl⟩ := Option.map_eq_some_iff.1 h
    exact ⟨.setLock hw hi _, rfl⟩
  · split at h
    · cases h
    · next iso hi =>
      obtain ⟨lock, -, rfl⟩ := Option.map_eq_some_iff.1 h
      exact ⟨.setLock hw hi lock, rfl⟩
  · next scope hscope => exact absurd hscope (hk scope)

theorem Parts.dropGuard? {g : Guard} (hw : w.Attended fun _ => False) (hg : g ∈ w.guards)
    (hk : ∀ scope, g.kind ≠ .scope scope) (h : w.dropGuard? g = some w') : w.Parts w' := by
  obtain ⟨w₁, hundo, rfl⟩ := Option.map_eq_some_iff.1 h
  obtain ⟨hparts, hguards⟩ := Parts.undo? hw hk hundo
  exact hparts.trans (.removeGuard hparts.attended (hguards ▸ hg))

/-- A guard of a scope is let go after the scope is closed. -/
theorem Attended.letGo_does {g : Guard} {r : Request} (hw : w.Attended fun _ => False)
    (hg : g ∈ w.guards) :
    w.Does [.request g.thread g.isolate r]
      ((w.act (.request g.thread g.isolate r)).removeGuard g) := by
  refine ⟨fun j hj => isSome_request _ _ _ hj, .removeGuard (hw.request _ _ _) ?_⟩
  rw [World.run, List.foldl_cons, List.foldl_nil, guards_request]
  exact hg

/-- Dropping the guard of a scope closes the scope first. -/
theorem dropGuard?_eq {g : Guard} {scope : ScopeId} (hk : g.kind = .scope scope)
    (hi : (w.isolate? g.isolate).isSome = true) : w.dropGuard? g
      = some ((w.act (.request g.thread g.isolate (.closeScope scope))).removeGuard g) := by
  obtain ⟨iso, hi⟩ := Option.isSome_iff_exists.1 hi
  rw [dropGuard?, undo?, hk]
  dsimp only
  rw [perform?, act_request, hi]
  rfl

theorem closeGuard?_eq {g : Guard} {scope : ScopeId}
    (hi : (w.isolate? g.isolate).isSome = true) : (w.closeGuard? g scope).map Prod.snd
      = some ((w.act (.request g.thread g.isolate (.closeScope scope))).removeGuard g) := by
  obtain ⟨iso, hi⟩ := Option.isSome_iff_exists.1 hi
  rw [closeGuard?, perform?, act_request, hi]
  rfl

/-- An escape that fails closes the scope as well. -/
theorem Attended.escapeGuard_does {g : Guard} {scope : ScopeId} (hw : w.Attended fun _ => False)
    (hg : g ∈ w.guards) (hk : g.kind = .scope scope) (l : LocalHandle) :
    w.Does (w.escapeActs g scope l) (w.orStay (w.escapeGuard? g scope l)) := by
  have hletGo := hw.letGo_does hg (r := .escape scope l)
  have hw' := hw.request g.thread g.isolate (.escape scope l)
  have hg' : g ∈ (w.act (.request g.thread g.isolate (.escape scope l))).guards := by
    rw [guards_request]
    exact hg
  have hclose := hw'.letGo_does hg' (r := .closeScope scope)
  have hdrop := dropGuard?_eq hk (hw'.isSome_of_mem hg')
  have hstays : ∀ j, (w.isolate? j).isSome = true → _ := fun j =>
    isSome_request (w := w) (j := j) g.thread g.isolate (.escape scope l)
  obtain ⟨iso, hi⟩ := Option.isSome_iff_exists.1 (hw.isSome_of_mem hg)
  have hact : w.act (.request g.thread g.isolate (.escape scope l))
      = w.put (iso.escape g.thread scope l w.shared).2 := by
    rw [act_request, hi]
    rfl
  have hrun : ∀ b, w.run [.request g.thread g.isolate (.escape scope l), b]
      = (w.act (.request g.thread g.isolate (.escape scope l))).run [b] := fun b => rfl
  rw [escapeActs, escapeGuard?, World.perform?, hi]
  rw [hact] at hletGo hclose hdrop hstays
  dsimp only
  generalize iso.escape g.thread scope l w.shared = r at hact hletGo hclose hdrop hstays
  obtain ⟨r, iso', shared⟩ := r
  cases r with
  | ok moved => exact hletGo
  | error e =>
    dsimp only
    rw [show { w.setIsolate iso' with shared } = w.put (iso', shared) from rfl, hdrop]
    refine ⟨fun j hj => ?_, ?_⟩
    · rw [hrun, hact]
      exact hclose.stays j (hstays j hj)
    · rw [hrun, hact]
      exact hclose.parts

theorem Attended.openGuarded_does (hw : w.Attended fun _ => False) (t : ThreadKey) (i : IsolateId) :
    w.Does [.request t i .openScope] (w.act (.openGuarded t i)) := by
  refine ⟨fun j hj => isSome_request t i .openScope hj, ?_⟩
  have hrequest := hw.request t i .openScope
  show (w.act (.request t i .openScope)).Parts (w.orStay (w.openGuarded? t i))
  rw [act_request] at hrequest ⊢
  unfold World.orStay World.openGuarded? World.perform?
  cases hi : w.isolate? i with
  | none => exact .refl hw
  | some iso =>
    rw [hi] at hrequest
    dsimp only at hrequest ⊢
    have hopen : (w.put (iso.openScope t w.shared).2).Attended fun _ => False := hrequest
    have hsome : ((w.put (iso.openScope t w.shared).2).isolate? i).isSome = true := isSome_put hi
    show (w.put (iso.openScope t w.shared).2).Parts _
    generalize iso.openScope t w.shared = r at hopen hsome
    obtain ⟨r, iso', shared⟩ := r
    cases r with
    | error e => exact .refl hopen
    | ok scope => exact .addGuard hopen hsome t (.scope scope)

/-- Dropping a guard: that of a scope closes it first, any other only gives references up. -/
theorem Attended.dropGuard_does (hw : w.Attended fun _ => False) (g : GuardId) :
    w.Does (w.preparation (.act (.dropGuard g))) (w.act (.dropGuard g)) := by
  show w.Does (match w.guardedScope? g with | none => [] | some (x, scope) => _)
    (((w.guard? g).bind w.dropGuard?).getD w)
  rw [guardedScope?]
  cases hx : w.guard? g with
  | none => exact (Parts.refl hw).does
  | some x =>
    have hg := (mem_of_guard? hx).1
    simp only [Option.bind_some]
    cases hk : x.kind with
    | scope scope =>
      rw [dropGuard?_eq hk (hw.isSome_of_mem hg)]
      exact hw.letGo_does hg
    | entered | locker | unlocker =>
      cases hd : w.dropGuard? x with
      | none => exact (Parts.refl hw).does
      | some w' =>
        refine (Parts.dropGuard? hw hg (fun scope hs => ?_) hd).does
        rw [hk] at hs
        cases hs

/-! ### Moves -/

theorem isSome_newIsolate (c : IsolateConfig) (hj : (w.isolate? j).isSome = true) :
    ((w.newIsolate c).2.isolate? j).isSome = true := by
  rw [isSome_isolate?_iff] at hj ⊢
  rcases w.newIsolate_cases c with hn | ⟨iso, -, hn⟩
  · rw [hn]
    exact hj
  · rw [hn, List.map_append]
    exact List.mem_append_left _ hj

/-- **What a move does:** work on handles and objects that ends no isolate, and then
references to isolates that are taken and given up. -/
theorem Attended.does_move (hw : w.Attended fun _ => False) (m : Move) :
    w.Does (w.preparation m) (w.move m) := by
  cases m with
  | share i =>
    refine Parts.does ?_
    rw [move]
    split
    · next hi => exact ⟨hw.share hi, [], .of_storage?_eq (fun _ => rfl) rfl⟩
    · exact .refl hw
  | act a =>
    show w.Does _ (w.act a)
    cases a with
    | tally op => exact .all (hw.withHeap _) fun _ hi => hi
    | make p => exact .all (hw.withHeap _) fun _ hi => hi
    | furnish o ops => exact .all (hw.withHeap _) fun _ hi => hi
    | newIsolate c => exact .all (hw.newIsolate c) fun _ hj => isSome_newIsolate c hj
    | setEngineDead i dead =>
      exact (Parts.orStay hw fun _ _ h => .perform? hw (fun _ _ => ⟨rfl, rfl, rfl⟩) h).does
    | request t i r => exact .all (hw.request t i r) fun j hj => isSome_request t i r hj
    | releaseHost i => exact (Parts.releaseHost hw i).does
    | enter t i => exact (Parts.orStay hw fun _ _ h => .enter? hw h).does
    | exit t i => exact (Parts.orStay hw fun _ _ h => .exit? hw h).does
    | endThread t => exact (Parts.endThread hw t).does
    | enterGuarded t i => exact (Parts.orStay hw fun _ _ h => .enterGuarded? hw h).does
    | lock t i => exact (Parts.orStay hw fun _ _ h => .lock? hw h).does
    | unlock t i => exact (Parts.orStay hw fun _ _ h => .unlock? hw h).does
    | openGuarded t i => exact hw.openGuarded_does t i
    | dropGuard g => exact hw.dropGuard_does g
    | closeGuard g =>
      show w.Does (match w.guardedScope? g with | none => [] | some (x, scope) => _)
        (w.orStay ((w.guardedScope? g).bind _))
      cases hx : w.guardedScope? g with
      | none => exact (Parts.refl hw).does
      | some p =>
        obtain ⟨hg, -⟩ := mem_of_guard? (guardedScope?_eq_some hx).1
        show w.Does _ (((w.closeGuard? p.1 p.2).map Prod.snd).getD w)
        rw [closeGuard?_eq (hw.isSome_of_mem hg)]
        exact hw.letGo_does hg
    | escapeGuard g l =>
      show w.Does (match w.guardedScope? g with | none => [] | some (x, scope) => _)
        (w.orStay ((w.guardedScope? g).bind _))
      cases hx : w.guardedScope? g with
      | none => exact (Parts.refl hw).does
      | some p =>
        obtain ⟨hguard, hk⟩ := guardedScope?_eq_some hx
        exact hw.escapeGuard_does (mem_of_guard? hguard).1 hk l

/-- **Every move keeps that.** -/
theorem Attended.moveAll (hw : w.Attended fun _ => False) (moves : List Move) :
    (w.moveAll moves).Attended fun _ => False := by
  induction moves generalizing w with
  | nil => exact hw
  | cons m rest ih => exact ih (hw.does_move m).parts.attended

/-- **An isolate is there exactly as long as somebody refers to it.** -/
theorem Attended.isSome_iff (hw : w.Attended fun _ => False) (i : IsolateId) :
    (w.isolate? i).isSome = true ↔ w.Refers i := by
  rw [isSome_isolate?_iff]
  exact ⟨fun hi => (hw.kept i hi).resolve_right id, hw.found i⟩

end World
end EngineHandles
