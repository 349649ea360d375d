/-
# What a thread is told in a run

A thread's own work with isolates is to enter and leave them and to use scopes and locals there;
these are the deeds of its session.  In a world without locks what the session comes to depends on
the desks that the thread has in the isolates, and on nothing else: each deed finds a desk and
leaves one, and whatever happens in between leaves the desks alone (`World.Log.session`).

So two sessions in which the thread does the same, with the scopes by other names, are told the
same (`Session.told_eq`).
-/

import EngineHandles.Proofs.Isolate.Desk
import EngineHandles.Proofs.World.Rooting

namespace EngineHandles

/-! ### Jobs by other names -/

/-- Whether a job is about being inside, scopes or locals. -/
def Job.isLocal : Job → Bool
  | .request r => r.isLocal
  | .enter _ | .exit => true
  | .yieldLock => false

/-- A job with the scopes by other names. -/
def Job.rename (ρ : ScopeId → ScopeId) : Job → Job
  | .request r => .request (r.rename ρ)
  | j => j

/-- What a thread asks for; what it was in before is not for the thread to say. -/
def Job.asked : Job → Job
  | .enter _ => .enter none
  | j => j

/-- A reply with the scopes by other names. -/
def Reply.rename (ρ : ScopeId → ScopeId) : Reply → Reply
  | .answer a => .answer (a.rename ρ)
  | r => r

/-- The scope that was opened, if one was. -/
def Reply.opened? : Reply → Option ScopeId
  | .answer (.scope opened) => some opened
  | _ => none

namespace Job

variable {ρ : ScopeId → ScopeId} {i i' : Isolate} {t u : ThreadKey} {w w' : Shared} {j j' : Job}

/-- **A job about being inside, scopes or locals** is answered alike in two isolates between which
the thread cannot tell. -/
theorem twins_serve (hρ : Function.Injective ρ) (h : i.Twins ρ t i') (hj : j.isLocal = true)
    (hsame : j'.asked = j.asked.rename ρ)
    (hdrawn : ∀ a b, (j.serve t i w).1 = .ok (.answer (.scope a)) →
      (j'.serve t i' w').1 = .ok (.answer (.scope b)) → ρ a = b) :
    Isolate.Outcome.Twins ρ (Reply.rename ρ) t (j.serve t i w) (j'.serve t i' w') := by
  cases j with
  | request r =>
    obtain rfl : j' = .request (r.rename ρ) := by
      cases j' <;> cases hsame
      rfl
    refine (r.twins_serve hρ h hj fun a b ha hb => hdrawn a b ?_ ?_).map _ fun _ => rfl
    · exact congrArg (Except.map Reply.answer) ha
    · exact congrArg (Except.map Reply.answer) hb
  | enter previous =>
    obtain ⟨previous', rfl⟩ : ∃ previous', j' = .enter previous' := by
      cases j' <;> cases hsame
      exact ⟨_, rfl⟩
    obtain ⟨hcount, hdesk⟩ := h.enter previous previous' w w'
    exact ⟨congrArg (fun n => Except.ok (Reply.inside n)) hcount, hdesk⟩
  | exit =>
    obtain rfl : j' = .exit := by
      cases j' <;> cases hsame
      rfl
    exact h.exit.map _ fun _ => rfl
  | yieldLock => cases hj

/-- **What is not a thread's own work** leaves its desk alone. -/
theorem desk_serve (hs : i.storage.Rooted) (hj : u = t → j.isLocal = false) (w : Shared) :
    (j.serve u i w).2.1.desk t = i.desk t := by
  have hbeside : ∀ registry, registry.get? t = i.registry.get? t →
      ({ i with registry } : Isolate).desk t = i.desk t := by
    intro registry hget
    rw [Isolate.desk, hget, Isolate.desk]
  cases j with
  | request r =>
    by_cases hu : u = t
    · exact r.desk_serve (hj hu) u t i w
    · exact r.desk_serve_of_ne hs (Ne.symm hu) w
  | enter previous =>
    have hu : t ≠ u := by
      intro hu
      cases hj hu.symm
    exact hbeside _ ((i.registry.get?_enter u previous t).trans (if_neg hu))
  | exit =>
    have hu : t ≠ u := by
      intro hu
      cases hj hu.symm
    have hget := i.registry.get?_exit_of_ne hu
    show (i.exit u w).2.1.desk t = i.desk t
    unfold Isolate.exit
    generalize i.registry.exit u = r at hget
    obtain ⟨left, registry⟩ := r
    cases left with
    | none => rfl
    | some x => exact hbeside registry hget
  | yieldLock =>
    show (i.yieldLock u w).2.1.desk t = i.desk t
    unfold Isolate.yieldLock
    dsimp only
    split <;> rfl

end Job

/-- Where threads did nothing each has the desk that it had. -/
theorem Isolate.Retains.desk_eq {i i' : Isolate} (h : i.Retains i') (t : ThreadKey) :
    i'.desk t = i.desk t := by
  rw [desk, h.config_eq, h.count_eq, h.storage_eq, desk]

namespace Deed

/-- Whether a deed is a thread's own work. -/
def isOwn (d : Deed) (t : ThreadKey) : Bool := d.thread == t && d.job.isLocal

/-- What a thread asks for, and where. -/
def call (d : Deed) : IsolateId × Job := (d.isolate.id, d.job.asked)

/-- What the thread is told, and the scope stack that it has there then. -/
def told (d : Deed) : Except HandleError Reply × Option ScopeStack :=
  (d.outcome.1, d.outcome.2.1.storage.stack? d.thread)

/-- The scope that a deed opened, if it did. -/
def opened? (d : Deed) : Option ScopeId :=
  match d.outcome.1 with
  | .ok reply => reply.opened?
  | .error _ => none

theorem opened?_eq_some_iff {d : Deed} {a : ScopeId} :
    d.opened? = some a ↔ d.outcome.1 = .ok (.answer (.scope a)) := by
  unfold opened?
  constructor
  · intro h
    cases hr : d.outcome.1 with
    | error e =>
      rw [hr] at h
      cases h
    | ok reply =>
      rw [hr] at h
      rcases reply with ⟨⟨⟩⟩ | _ | _ | _ <;> cases h
      rfl
  · intro h
    rw [h]
    rfl

end Deed

/-- Whether a request draws the id of a scope, and what it answers then. -/
theorem Isolate.openScope_draws (i : Isolate) (t : ThreadKey) (w : Shared) :
    (∃ e, (i.openScope t w).1 = .error e ∧ (i.openScope t w).2.2.nextScope = w.nextScope) ∨
      (i.openScope t w).1 = .ok w.nextScope ∧
        (i.openScope t w).2.2.nextScope = w.nextScope.next := by
  have hnote : ∀ i' w', (Isolate.note i' t .unchanged w').2 = w' := by
    intro i' w'
    unfold note
    dsimp only
    exact if_neg fun h => h.1 rfl
  unfold openScope run
  cases i.accessFault? t with
  | some e => exact .inl ⟨_, rfl, rfl⟩
  | none =>
    dsimp only
    cases i.storage.stack? t with
    | some stack => exact .inr ⟨rfl, congrArg Shared.nextScope (hnote _ _)⟩
    | none =>
      dsimp only
      cases ScopeStack.ofConfig? i.config.locals with
      | error e => exact .inl ⟨_, rfl, rfl⟩
      | ok stack => exact .inr ⟨rfl, congrArg Shared.nextScope (hnote _ _)⟩

/-- No other request answers that it opened a scope. -/
theorem Request.opensScope_of_ok {r : Request} {t : ThreadKey} {i : Isolate} {w : Shared}
    {a : ScopeId} (h : (r.serve t i w).1 = .ok (.scope a)) : r.opensScope = true := by
  cases r with
  | openScope => rfl
  | collectWeak => cases h
  | _ =>
    obtain ⟨x, -, hx⟩ := Isolate.Outcome.map_eq_ok_iff.1 h
    cases hx

/-- **A deed draws the next id of a scope** just if it opens one, which has this id. -/
theorem Deed.draws (d : Deed) :
    (d.opened? = none ∧ d.outcome.2.2.nextScope = d.shared.nextScope) ∨
      d.opened? = some d.shared.nextScope ∧
        d.outcome.2.2.nextScope = d.shared.nextScope.next := by
  obtain ⟨t, j, i, w⟩ := d
  cases j with
  | request r =>
    cases hr : r.opensScope with
    | true =>
      obtain rfl : r = .openScope := by
        cases r <;> first | rfl | cases hr
      rcases i.openScope_draws t w with ⟨e, he, hnext⟩ | ⟨hok, hnext⟩
      · refine .inl ⟨Option.eq_none_iff_forall_ne_some.2 fun a ha => ?_, hnext⟩
        obtain ⟨x, hx, -⟩ := Isolate.Outcome.map_eq_ok_iff.1 (opened?_eq_some_iff.1 ha)
        obtain ⟨x, hx, -⟩ := Isolate.Outcome.map_eq_ok_iff.1 hx
        cases he.symm.trans hx
      · exact .inr ⟨opened?_eq_some_iff.2 (Isolate.Outcome.map_eq_ok_iff.2
          ⟨_, Isolate.Outcome.map_eq_ok_iff.2 ⟨_, hok, rfl⟩, rfl⟩), hnext⟩
    | false =>
      refine .inl ⟨Option.eq_none_iff_forall_ne_some.2 fun a ha => ?_,
        (r.evolves_serve hr t i w).next_eq⟩
      obtain ⟨x, hx, he⟩ := Isolate.Outcome.map_eq_ok_iff.1 (opened?_eq_some_iff.1 ha)
      cases he
      rw [Request.opensScope_of_ok hx] at hr
      cases hr
  | enter previous => exact .inl ⟨rfl, rfl⟩
  | exit =>
    refine .inl ⟨Option.eq_none_iff_forall_ne_some.2 fun a ha => ?_, ?_⟩
    · obtain ⟨x, -, he⟩ := Isolate.Outcome.map_eq_ok_iff.1 (opened?_eq_some_iff.1 ha)
      cases he
    · show (i.exit t w).2.2.nextScope = w.nextScope
      unfold Isolate.exit
      split <;> rfl
  | yieldLock =>
    refine .inl ⟨Option.eq_none_iff_forall_ne_some.2 fun a ha => ?_, ?_⟩
    · obtain ⟨x, -, he⟩ := Isolate.Outcome.map_eq_ok_iff.1 (opened?_eq_some_iff.1 ha)
      cases he
    · show (i.yieldLock t w).2.2.nextScope = w.nextScope
      unfold Isolate.yieldLock
      dsimp only
      split <;> rfl

/-- A call with the scopes by other names. -/
def renameCall (ρ : ScopeId → ScopeId) (call : IsolateId × Job) : IsolateId × Job :=
  (call.1, call.2.rename ρ)

/-- What a thread is told, with the scopes by other names. -/
def renameTold (ρ : ScopeId → ScopeId) (told : Except HandleError Reply × Option ScopeStack) :
    Except HandleError Reply × Option ScopeStack :=
  (renamed (HandleError.rename ρ) (Reply.rename ρ) told.1, told.2.map (ScopeStack.rename ρ))

/-! ### Sessions -/

/-- The desks of a thread in isolates, as far as they are known. -/
abbrev Desks : Type := IsolateId → Option Desk

/-- Desks with the scopes by other names. -/
def Desks.rename (ρ : ScopeId → ScopeId) (D : Desks) : Desks := fun i => (D i).map (Desk.rename ρ)

theorem Desks.rename_update (ρ : ScopeId → ScopeId) (D : Desks) (i : IsolateId) (d : Option Desk) :
    Desks.rename ρ (Function.update D i d)
      = Function.update (D.rename ρ) i (d.map (Desk.rename ρ)) := by
  funext j
  unfold Desks.rename
  by_cases hj : j = i
  · rw [hj, Function.update_self, Function.update_self]
  · rw [Function.update_of_ne hj, Function.update_of_ne hj]

/-- A thread works on its own, without locks: each deed finds a desk and leaves one. -/
inductive Session (t : ThreadKey) : Desks → List Deed → Desks → Prop where
  | nil (D : Desks) : Session t D [] D
  | cons {D D' : Desks} {d : Deed} {ds : List Deed} (own : d.isOwn t = true)
      (desk : D d.isolate.id = some (d.isolate.desk t))
      (unlocked : d.isolate.lock.lockingMode = false) (owners : d.isolate.storage.owners.Nodup)
      (others : Session t
        (Function.update D d.isolate.id (some (d.outcome.2.1.desk t))) ds D') :
      Session t D (d :: ds) D'

namespace Session

variable {t : ThreadKey} {D D' E E' : Desks} {ds ds' : List Deed} {ρ : ScopeId → ScopeId}

theorem append (h : Session t D ds E) (h' : Session t E ds' E') : Session t D (ds ++ ds') E' := by
  induction h with
  | nil => exact h'
  | cons own desk unlocked owners _ ih => exact .cons own desk unlocked owners (ih h')

theorem singleton {d : Deed} (own : d.isOwn t = true)
    (desk : D d.isolate.id = some (d.isolate.desk t))
    (unlocked : d.isolate.lock.lockingMode = false) (owners : d.isolate.storage.owners.Nodup) :
    Session t D [d] (Function.update D d.isolate.id (some (d.outcome.2.1.desk t))) :=
  .cons own desk unlocked owners (.nil _)

/-- A session is about isolates whose desks are known. -/
theorem isSome_eq (h : Session t D ds E) (i : IsolateId) : (E i).isSome = (D i).isSome := by
  induction h with
  | nil => rfl
  | @cons D E d ds _ desk _ _ _ ih =>
    rw [ih]
    by_cases hi : i = d.isolate.id
    · rw [hi, Function.update_self, desk]
      rfl
    · rw [Function.update_of_ne hi]

/-- A reply by other names opened the scope by its other name. -/
theorem opened?_eq {d d' : Deed} (h : d'.told = renameTold ρ d.told) :
    d'.opened? = d.opened?.map ρ := by
  have hreply : d'.outcome.1 = renamed (HandleError.rename ρ) (Reply.rename ρ) d.outcome.1 :=
    congrArg Prod.fst h
  unfold Deed.opened?
  rw [hreply]
  cases d.outcome.1 with
  | error e => rfl
  | ok reply =>
    cases reply with
    | answer a => cases a <;> rfl
    | _ => rfl

/-- **The first deeds** of two sessions in which the thread asks for the same. -/
theorem head {d d' : Deed} (hρ : Function.Injective ρ) (own : d.isOwn t = true)
    (own' : d'.isOwn t = true) (twins : d.isolate.Twins ρ t d'.isolate)
    (hcall : d'.call = renameCall ρ d.call)
    (hdrawn : ∀ a b, d.opened? = some a → d'.opened? = some b → ρ a = b) :
    d'.told = renameTold ρ d.told ∧ d'.outcome.2.1.desk t = (d.outcome.2.1.desk t).rename ρ := by
  obtain ⟨u, job, isolate, shared⟩ := d
  obtain ⟨u', job', isolate', shared'⟩ := d'
  obtain ⟨hu, hlocal⟩ := Bool.and_eq_true_iff.1 own
  obtain ⟨hu', -⟩ := Bool.and_eq_true_iff.1 own'
  obtain rfl : t = u := (eq_of_beq hu).symm
  obtain rfl : t = u' := (eq_of_beq hu').symm
  have htwins : Isolate.Outcome.Twins ρ (Reply.rename ρ) t (job.serve t isolate shared)
      (job'.serve t isolate' shared') :=
    job.twins_serve hρ twins hlocal (congrArg Prod.snd hcall) fun a b ha hb =>
      hdrawn a b (Deed.opened?_eq_some_iff.2 ha) (Deed.opened?_eq_some_iff.2 hb)
  obtain ⟨htold, hdesk⟩ := htwins
  exact ⟨Prod.ext htold (congrArg Desk.stack hdesk), hdesk⟩

/-- **Two sessions in which the thread asks for the same are told the same,** but for the names
of scopes, if the scopes that they open are each other's. -/
theorem told_eq (hρ : Function.Injective ρ) (h : Session t D ds E)
    (h' : Session t (D.rename ρ) ds' E')
    (hcall : ds'.map Deed.call = ds.map fun d => renameCall ρ d.call)
    (hdrawn : ∀ p ∈ (ds.filterMap Deed.opened?).zip (ds'.filterMap Deed.opened?), ρ p.1 = p.2) :
    (ds'.map Deed.told = ds.map fun d => renameTold ρ d.told) ∧ E' = E.rename ρ := by
  induction h generalizing ds' with
  | nil =>
    obtain rfl := List.map_eq_nil_iff.1 hcall
    cases h'
    exact ⟨rfl, rfl⟩
  | @cons D E d ds own desk unlocked owners _ ih =>
    cases h' with
    | nil => cases hcall
    | @cons _ _ d' ds' own' desk' unlocked' owners' others' =>
      rw [List.map_cons, List.map_cons, List.cons.injEq] at hcall
      obtain ⟨hhead, htail⟩ := hcall
      have hid : d'.isolate.id = d.isolate.id := congrArg Prod.fst hhead
      have hdesk : d'.isolate.desk t = (d.isolate.desk t).rename ρ := by
        rw [hid, Desks.rename, desk, Option.map_some, Option.some.injEq] at desk'
        exact desk'.symm
      obtain ⟨htold, hleft⟩ := head hρ own own' ⟨hid, hdesk, unlocked, unlocked', owners, owners'⟩
        hhead fun a b ha hb => by
          rw [List.filterMap_cons_some ha, List.filterMap_cons_some hb] at hdrawn
          exact hdrawn (a, b) List.mem_cons_self
      have hrest : ∀ p ∈ (ds.filterMap Deed.opened?).zip (ds'.filterMap Deed.opened?),
          ρ p.1 = p.2 := by
        intro p hp
        have hopened := opened?_eq htold
        cases ho : d.opened? with
        | none =>
          rw [ho, Option.map_none] at hopened
          rw [List.filterMap_cons_none ho, List.filterMap_cons_none hopened] at hdrawn
          exact hdrawn p hp
        | some a =>
          rw [ho, Option.map_some] at hopened
          rw [List.filterMap_cons_some ho, List.filterMap_cons_some hopened] at hdrawn
          exact hdrawn p (List.mem_cons_of_mem _ hp)
      rw [hid, hleft, ← Option.map_some, ← Desks.rename_update] at others'
      obtain ⟨htolds, hE⟩ := ih others' htail hrest
      exact ⟨by rw [List.map_cons, List.map_cons, htold, htolds], hE⟩

end Session

namespace World

variable {P : IsolateId → Prop} {w w' : World} {ds : List Deed} {t : ThreadKey} {D : Desks}

/-- The desks of a thread are as they are known. -/
def Shows (t : ThreadKey) (D : Desks) (w : World) : Prop :=
  ∀ iso ∈ w.isolates, D iso.id = some (iso.desk t)

/-- **What happens to the desks of a thread** where it finds no locks, and no isolate is made, is
the thread's own session. -/
theorem Log.session (h : Log P w ds w') (hnext : w'.nextIsolate = w.nextIsolate)
    (hrooted : ∀ iso ∈ w.isolates, iso.storage.Rooted)
    (hunlocked : ∀ d ∈ ds, d.isOwn t = true → d.isolate.lock.lockingMode = false)
    (hw : Shows t D w) :
    ∃ D', Session t D (ds.filter (Deed.isOwn · t)) D' ∧ Shows t D' w' := by
  induction h generalizing D with
  | upkeep h =>
    refine ⟨D, .nil D, fun iso' hi' => ?_⟩
    obtain ⟨iso, hi | ⟨⟨hge, hlt⟩, -⟩, hretains⟩ := h.origin iso' hi'
    · rw [hretains.id_eq, hw iso hi]
      exact congrArg some (hretains.desk_eq t).symm
    · rw [hnext] at hlt
      exact absurd hge (Nat.not_le.2 hlt)
  | @deed w d hfound hshared =>
    have hmem := (mem_of_isolate? hfound).1
    cases hown : d.isOwn t with
    | false =>
      have hdesk : d.outcome.2.1.desk t = d.isolate.desk t := by
        refine d.job.desk_serve (hrooted _ hmem) (fun hu => ?_) d.shared
        rw [Deed.isOwn, hu, beq_self_eq_true, Bool.true_and] at hown
        exact hown
      have hfilter : [d].filter (Deed.isOwn · t) = [] :=
        List.filter_cons_of_neg (by rw [hown]; exact Bool.false_ne_true)
      rw [hfilter]
      refine ⟨D, .nil D, fun iso hi => ?_⟩
      rcases mem_put_cases hi with rfl | ⟨hi, -⟩
      · rw [hdesk, d.id_outcome]
        exact hw _ hmem
      · exact hw iso hi
    | true =>
      have hfilter : [d].filter (Deed.isOwn · t) = [d] := List.filter_cons_of_pos hown
      rw [hfilter]
      refine ⟨_, .singleton hown (hw _ hmem) (hunlocked d List.mem_cons_self hown)
        (hrooted _ hmem).owners, fun iso hi => ?_⟩
      rcases mem_put_cases hi with rfl | ⟨hi, hne⟩
      · rw [d.id_outcome, Function.update_self]
      · rw [d.id_outcome] at hne
        rw [Function.update_of_ne hne]
        exact hw iso hi
  | append h₁ h₂ ih₁ ih₂ =>
    have hnext₁ := Nat.le_antisymm (h₂.next_le.trans hnext.le) h₁.next_le
    obtain ⟨D₁, hsession₁, hw₁⟩ := ih₁ hnext₁ hrooted
      (fun d hd => hunlocked d (List.mem_append_left _ hd)) hw
    obtain ⟨D₂, hsession₂, hw₂⟩ := ih₂ (hnext.trans hnext₁.symm) (h₁.rooted hrooted).2
      (fun d hd => hunlocked d (List.mem_append_right _ hd)) hw₁
    rw [List.filter_append]
    exact ⟨D₂, hsession₁.append hsession₂, hw₂⟩

/-! ### The ids that are drawn -/

/-- **The ids of scopes are drawn in order,** one for each scope that is opened. -/
theorem Log.opened (h : Log P w ds w') {n : Nat} (hn : w.shared.nextScope = .nth n) :
    ds.filterMap Deed.opened?
        = (List.range' n (ds.filterMap Deed.opened?).length).map ScopeId.nth ∧
      w'.shared.nextScope = .nth (n + (ds.filterMap Deed.opened?).length) := by
  induction h generalizing n with
  | upkeep h =>
    obtain ⟨heap, hshared⟩ := h.shared
    rw [hshared]
    exact ⟨rfl, hn⟩
  | @deed w d hfound hshared =>
    rw [← hshared] at hn
    rcases d.draws with ⟨hnone, hnext⟩ | ⟨hsome, hnext⟩
    · have hopened : [d].filterMap Deed.opened? = [] := List.filterMap_cons_none hnone
      rw [hopened]
      exact ⟨rfl, hnext.trans hn⟩
    · have hopened : [d].filterMap Deed.opened? = [.nth n] := by
        rw [List.filterMap_cons_some hsome, hn]
        rfl
      rw [hopened]
      refine ⟨rfl, hnext.trans ?_⟩
      rw [hn, ScopeId.next_nth]
      rfl
  | append _ _ ih₁ ih₂ =>
    obtain ⟨hopened₁, hnext₁⟩ := ih₁ hn
    obtain ⟨hopened₂, hnext₂⟩ := ih₂ hnext₁
    rw [List.filterMap_append, List.length_append, ← Nat.add_assoc]
    refine ⟨?_, hnext₂⟩
    rw [← List.range'_append_1, List.map_append, ← hopened₁, ← hopened₂]

/-- While the supply of ids lasts, scopes are opened under different ids. -/
theorem Log.nodup_opened (h : Log P w ds w') (hn : w.shared.nextScope = .nth 0)
    (hsupply : (ds.filterMap Deed.opened?).length ≤ 2 ^ 64) :
    (ds.filterMap Deed.opened?).Nodup := by
  rw [(h.opened hn).1]
  refine List.Nodup.map_on (fun a ha b hb he => ?_) List.nodup_range'
  have ha := List.mem_range'_1.1 ha
  have hb := List.mem_range'_1.1 hb
  exact ScopeId.nth_inj (by omega) (by omega) he

end World
end EngineHandles
