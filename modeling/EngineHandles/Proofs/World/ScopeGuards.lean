/-
# The guards of scopes

A thread's live guards of scopes in an isolate are told by the list of all guards
(`World.scopeGuards`), the newest first.  An act leaves the list of all guards as it is, makes one
more, or uses one up (`World.guardStep_act`); so the guards of a thread's scopes in an isolate stay
unless the act opens a scope there under a guard, or uses up one of them
(`World.scopeGuards_act`).
-/

import EngineHandles.Proofs.World.Layers
import EngineHandles.Proofs.World.Partings

namespace EngineHandles

/-- The guard that an act uses up. -/
def Act.ended? : Act → Option GuardId
  | .dropGuard g | .closeGuard g | .escapeGuard g _ => some g
  | _ => none

/-- The name and the scope of a guard, if it is one of a scope of a thread in an isolate. -/
def Guard.scopeAt? (t : ThreadKey) (i : IsolateId) (x : Guard) : Option (GuardId × ScopeId) :=
  match x.kind with
  | .scope scope => if x.thread = t ∧ x.isolate = i then some (x.id, scope) else none
  | _ => none

theorem Guard.scopeAt?_eq_some_iff {t : ThreadKey} {i : IsolateId} {x : Guard} {g : GuardId}
    {scope : ScopeId} :
    x.scopeAt? t i = some (g, scope) ↔ x = ⟨g, t, i, .scope scope⟩ := by
  obtain ⟨id, u, j, kind⟩ := x
  unfold scopeAt?
  cases kind with
  | scope s =>
    dsimp only
    split
    · next h =>
      obtain ⟨rfl, rfl⟩ := h
      simp
    · next h =>
      refine iff_of_false nofun fun he => h ?_
      cases he
      exact ⟨rfl, rfl⟩
  | _ => exact iff_of_false nofun nofun

namespace World

variable {w w' : World} {t : ThreadKey} {i : IsolateId} {iso : Isolate} {x : Guard} {g : GuardId}
  {scope : ScopeId} {a : Act}

/-- The live guards of a thread's scopes in an isolate, the newest first. -/
def scopeGuards (w : World) (t : ThreadKey) (i : IsolateId) : List (GuardId × ScopeId) :=
  w.guards.reverse.filterMap (Guard.scopeAt? t i)

theorem mem_scopeGuards :
    (g, scope) ∈ w.scopeGuards t i ↔ ⟨g, t, i, .scope scope⟩ ∈ w.guards := by
  simp only [scopeGuards, List.mem_filterMap, List.mem_reverse, Guard.scopeAt?_eq_some_iff,
    exists_eq_right]

theorem map_fst_scopeAt?_sublist (guards : List Guard) :
    ((guards.filterMap (Guard.scopeAt? t i)).map Prod.fst).Sublist (guards.map Guard.id) := by
  induction guards with
  | nil => exact .slnil
  | cons x guards ih =>
    cases hx : x.scopeAt? t i with
    | none =>
      rw [List.filterMap_cons_none hx, List.map_cons]
      exact ih.cons _
    | some p =>
      rw [List.filterMap_cons_some hx, List.map_cons, List.map_cons,
        Guard.scopeAt?_eq_some_iff.1 hx]
      exact ih.cons_cons _

/-- Guards of scopes have names of their own. -/
theorem Attended.nodup_scopeGuards (hw : w.Attended fun _ => False) (t : ThreadKey)
    (i : IsolateId) : ((w.scopeGuards t i).map Prod.fst).Nodup := by
  refine (map_fst_scopeAt?_sublist w.guards.reverse).nodup ?_
  rw [List.map_reverse, List.nodup_reverse]
  exact hw.guards

/-- The guard of a scope is known by its name. -/
theorem Attended.guardedScope?_of_mem (hw : w.Attended fun _ => False)
    (h : (g, scope) ∈ w.scopeGuards t i) :
    w.guardedScope? g = some (⟨g, t, i, .scope scope⟩, scope) := by
  have hfound : w.guard? g = some ⟨g, t, i, .scope scope⟩ :=
    Keyed.find?_of_mem hw.guards (mem_scopeGuards.1 h) rfl
  rw [guardedScope?, hfound]
  rfl

/-! ### What an act does to guards -/

theorem guards_undo? (hw : w.Attended fun _ => False) (h : w.undo? x = some w') :
    w'.guards = w.guards := by
  by_cases hk : ∃ scope, x.kind = .scope scope
  · obtain ⟨scope, hk⟩ := hk
    unfold undo? at h
    rw [hk] at h
    obtain ⟨⟨r, w₁⟩, hr, rfl⟩ := Option.map_eq_some_iff.1 h
    obtain ⟨iso, -, -, rfl⟩ := perform?_eq_some_iff.1 hr
    rfl
  · exact (Parts.undo? hw (fun scope hs => hk ⟨scope, hs⟩) h).2

theorem guards_removeGuard (w : World) (x : Guard) :
    (w.removeGuard x).guards = w.guards.filter fun y => y.id != x.id := (reap_frame _ _).1

theorem guards_exit? {r : Except HandleError Unit} (h : w.exit? t i = some (r, w')) :
    w'.guards = w.guards := by
  unfold World.exit? at h
  split at h
  · cases h
  · next hp =>
    cases h
    obtain ⟨iso, -, -, rfl⟩ := perform?_eq_some_iff.1 hp
    rfl
  · next hp =>
    cases h
    obtain ⟨iso, -, -, rfl⟩ := perform?_eq_some_iff.1 hp
    rw [(reap_frame _ _).1, guards_removeEnter]
    rfl

theorem guards_endThread (w : World) (t : ThreadKey) : (w.endThread t).guards = w.guards := by
  have hunwind : ∀ (stack : List IsolateId) (w : World), (w.unwind t stack).guards = w.guards := by
    intro stack
    induction stack with
    | nil => exact fun _ => rfl
    | cons i rest ih => exact fun w => (ih _).trans (reap_frame _ i).1
  exact hunwind _ w

/-- **What an act does to the list of guards:** nothing, or it makes one, or uses one up. -/
inductive GuardStep (w : World) : Act → List Guard → Prop where
  | stays {a : Act} : GuardStep w a w.guards
  | makes {a : Act} (t : ThreadKey) (i : IsolateId) {kind : GuardKind}
      (opens : ∀ scope, kind = .scope scope → a = .openGuarded t i) :
      GuardStep w a (w.guards ++ [⟨⟨w.nextGuard⟩, t, i, kind⟩])
  | uses {a : Act} {g : GuardId} (ended : a.ended? = some g) :
      GuardStep w a (w.guards.filter fun x => x.id != g)

theorem GuardStep.of_eq {l : List Guard} (h : l = w.guards) : GuardStep w a l := by
  rw [h]
  exact .stays

theorem guards_dropGuard? (hw : w.Attended fun _ => False) (h : w.dropGuard? x = some w') :
    w'.guards = w.guards.filter fun y => y.id != x.id := by
  obtain ⟨w₁, hundo, rfl⟩ := Option.map_eq_some_iff.1 h
  rw [guards_removeGuard, guards_undo? hw hundo]

theorem guards_perform? {α : Type} {op : Isolate.Operation α} {r : α}
    (h : w.perform? i op = some (r, w')) : w'.guards = w.guards ∧ w'.nextGuard = w.nextGuard := by
  obtain ⟨iso, -, -, rfl⟩ := perform?_eq_some_iff.1 h
  exact ⟨rfl, rfl⟩

theorem guards_enter? {n : UInt32} (h : w.enter? t i = some (n, w')) :
    w'.guards = w.guards ∧ w'.nextGuard = w.nextGuard := by
  unfold World.enter? at h
  split at h
  · cases h
  · next hp =>
    cases h
    have hperform := guards_perform? hp
    exact hperform

theorem guards_closeGuard? {r : Except HandleError Unit}
    (h : w.closeGuard? x scope = some (r, w')) :
    w'.guards = w.guards.filter fun y => y.id != x.id := by
  obtain ⟨⟨r, w₁⟩, hp, he⟩ := Option.map_eq_some_iff.1 h
  cases he
  rw [guards_removeGuard, (guards_perform? hp).1]

theorem guards_escapeGuard? {l : LocalHandle} {r : Except HandleError LocalHandle}
    (hw : w.Attended fun _ => False) (h : w.escapeGuard? x scope l = some (r, w')) :
    w'.guards = w.guards.filter fun y => y.id != x.id := by
  unfold World.escapeGuard? at h
  split at h
  · cases h
  · next hp =>
    cases h
    rw [guards_removeGuard, (guards_perform? hp).1]
  · next hp =>
    obtain ⟨w₂, hdrop, he⟩ := Option.map_eq_some_iff.1 h
    cases he
    have hid : ∀ (iso : Isolate) (shared : Shared),
        (iso.escape x.thread scope l shared).2.1.id = iso.id :=
      fun iso shared => (Request.escape scope l).id_serve x.thread iso shared
    have hw₁ := hw.perform? hid hp
    rw [guards_dropGuard? hw₁ hdrop, (guards_perform? hp).1]

/-- A guard that is made after other work. -/
theorem GuardStep.addGuard {w₁ : World} {kind : GuardKind}
    (h : w₁.guards = w.guards ∧ w₁.nextGuard = w.nextGuard)
    (opens : ∀ scope, kind = .scope scope → a = .openGuarded t i) :
    GuardStep w a (w₁.addGuard t i kind).2.guards := by
  show GuardStep w a (w₁.guards ++ [⟨⟨w₁.nextGuard⟩, t, i, kind⟩])
  rw [h.1, h.2]
  exact .makes t i opens

theorem guardStep_act (hw : w.Attended fun _ => False) (a : Act) :
    GuardStep w a (w.act a).guards := by
  have hstay : ∀ {α : Type} {r : Option (α × World)},
      (∀ x w', r = some (x, w') → GuardStep w a w'.guards) → GuardStep w a (w.orStay r).guards := by
    intro α r h
    cases r with
    | none => exact .stays
    | some p => exact h p.1 p.2 rfl
  have hused : ∀ {id : GuardId} {x : Guard} {l : List Guard}, a.ended? = some id →
      w.guard? id = some x → l = w.guards.filter (fun y => y.id != x.id) → GuardStep w a l := by
    rintro id x l ha hx rfl
    rw [(mem_of_guard? hx).2]
    exact .uses ha
  cases a with
  | tally | make | furnish => exact .stays
  | newIsolate c =>
    refine .of_eq ?_
    show (w.newIsolate c).2.guards = _
    rcases w.newIsolate_cases c with hn | ⟨iso, -, hn⟩ <;> rw [hn]
  | releaseHost i => exact .of_eq (reap_frame _ i).1
  | setEngineDead i dead => exact hstay fun _ _ h => .of_eq (guards_perform? h).1
  | request t i r => exact .of_eq (guards_request w t i r)
  | enter t i => exact hstay fun _ _ h => .of_eq (guards_enter? h).1
  | exit t i => exact hstay fun _ _ h => .of_eq (guards_exit? h)
  | endThread t => exact .of_eq (guards_endThread w t)
  | enterGuarded t i =>
    refine hstay fun _ _ h => ?_
    unfold World.enterGuarded? at h
    split at h
    · cases h
    · next henter =>
      cases h
      exact .addGuard (guards_enter? henter) nofun
  | lock t i =>
    refine hstay fun _ _ h => ?_
    unfold World.lock? at h
    split at h
    · cases h
    · split at h
      · cases h
      · cases h
        exact .addGuard ⟨rfl, rfl⟩ nofun
  | unlock t i =>
    refine hstay fun _ _ h => ?_
    unfold World.unlock? at h
    split at h
    · cases h
    · next hp =>
      cases h
      exact .of_eq (guards_perform? hp).1
    · next hp =>
      cases h
      exact .addGuard (guards_perform? hp) nofun
  | openGuarded t i =>
    refine hstay fun _ _ h => ?_
    unfold World.openGuarded? at h
    split at h
    · cases h
    · next hp =>
      cases h
      exact .of_eq (guards_perform? hp).1
    · next hp =>
      cases h
      exact .addGuard (guards_perform? hp) fun _ _ => rfl
  | dropGuard id =>
    cases hd : (w.guard? id).bind w.dropGuard? with
    | none =>
      rw [act, hd]
      exact .stays
    | some w' =>
      obtain ⟨x, hx, hdrop⟩ := Option.bind_eq_some_iff.1 hd
      rw [act, hd]
      exact hused rfl hx (guards_dropGuard? hw hdrop)
  | closeGuard id =>
    refine hstay fun _ _ h => ?_
    obtain ⟨⟨x, scope⟩, hx, hclose⟩ := Option.bind_eq_some_iff.1 h
    exact hused rfl (guardedScope?_eq_some hx).1 (guards_closeGuard? hclose)
  | escapeGuard id l =>
    refine hstay fun _ _ h => ?_
    obtain ⟨⟨x, scope⟩, hx, hescape⟩ := Option.bind_eq_some_iff.1 h
    exact hused rfl (guardedScope?_eq_some hx).1 (guards_escapeGuard? hw hescape)

/-! ### The guards of a thread's scopes -/

/-- Using a guard up takes it out of the list. -/
theorem scopeGuards_filter (h : w'.guards = w.guards.filter fun x => x.id != g) (t : ThreadKey)
    (i : IsolateId) : w'.scopeGuards t i = (w.scopeGuards t i).filter fun p => p.1 != g := by
  rw [scopeGuards, scopeGuards, h, ← List.filter_reverse, List.filterMap_filter,
    List.filter_filterMap]
  refine List.filterMap_congr fun x _ => ?_
  cases hx : x.scopeAt? t i with
  | none => split <;> rfl
  | some p => rw [Guard.scopeAt?_eq_some_iff.1 hx, Option.filter_some]

/-- **The guards of a thread's scopes in an isolate** stay, unless the act opens a scope there
under a guard, or uses up one of them. -/
theorem scopeGuards_act (hw : w.Attended fun _ => False) (hopen : a ≠ .openGuarded t i)
    (hend : ∀ g ∈ a.ended?, g ∉ (w.scopeGuards t i).map Prod.fst) :
    (w.act a).scopeGuards t i = w.scopeGuards t i := by
  have hstep := guardStep_act hw a
  generalize hl : (w.act a).guards = l at hstep
  cases hstep with
  | stays => rw [scopeGuards, hl, scopeGuards]
  | @makes u j kind opens =>
    rw [scopeGuards, hl, List.reverse_append, List.filterMap_append, scopeGuards]
    refine (List.append_left_eq_self.2 ?_)
    cases hx : Guard.scopeAt? t i ⟨⟨w.nextGuard⟩, u, j, kind⟩ with
    | none => exact List.filterMap_cons_none hx
    | some p =>
      obtain ⟨g, scope⟩ := p
      cases Guard.scopeAt?_eq_some_iff.1 hx
      exact absurd (opens scope rfl) hopen
  | @uses g ended =>
    rw [scopeGuards_filter hl, List.filter_eq_self]
    intro p hp
    rw [bne_iff_ne]
    rintro rfl
    exact hend _ ended (List.mem_map_of_mem hp)

end World
end EngineHandles
