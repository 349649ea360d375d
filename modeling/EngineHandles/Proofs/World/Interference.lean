/-
# Threads do not interfere

Two runs over the same isolates, without locks, in which a thread does the same are the same to
the thread, whatever other threads do in them: it is told the same, and has the same scopes and
locals afterwards, but for the names of scopes.  The names that the thread gets are different ones
in each run, so there is a renaming that takes those of one run to those of the other
(`World.run_noninterference`).
-/

import Mathlib.Logic.Equiv.Basic
import EngineHandles.Proofs.World.Gate
import EngineHandles.Proofs.World.Held

namespace EngineHandles

/-- Two lists of different things are each other's under some renaming. -/
theorem exists_perm_zip {α : Type} [DecidableEq α] {xs ys : List α} (hx : xs.Nodup)
    (hy : ys.Nodup) : ∃ σ : Equiv.Perm α, ∀ p ∈ xs.zip ys, σ p.1 = p.2 := by
  induction xs generalizing ys with
  | nil => exact ⟨1, fun p hp => nomatch hp⟩
  | cons x xs ih =>
    cases ys with
    | nil => exact ⟨1, fun p hp => nomatch hp⟩
    | cons y ys =>
      rw [List.nodup_cons] at hx hy
      obtain ⟨σ, hσ⟩ := ih hx.2 hy.2
      -- the name that `x` has so far goes where `y` goes, which no other name of the lists is
      refine ⟨σ.trans (Equiv.swap (σ x) y), fun p hp => ?_⟩
      rw [Equiv.trans_apply]
      rcases List.mem_cons.1 hp with rfl | hp
      · exact Equiv.swap_apply_left _ _
      · obtain ⟨hpx, hpy⟩ := List.of_mem_zip hp
        rw [hσ p hp]
        refine Equiv.swap_apply_of_ne_of_ne (fun he => ?_) fun he => hy.1 (he ▸ hpy)
        rw [← hσ p hp] at he
        exact hx.1 (σ.injective he ▸ hpx)

namespace World

variable {w w' : World} {d : Deed} {t : ThreadKey} {a : Act}

theorem nextIsolate_run {acts : List Act} (w : World) (h : ∀ c, .newIsolate c ∉ acts) :
    (w.run acts).nextIsolate = w.nextIsolate := by
  induction acts generalizing w with
  | nil => rfl
  | cons a rest ih =>
    refine (ih (w.act a) fun c hc => h c (List.mem_cons_of_mem _ hc)).trans ?_
    exact w.nextIsolate_act fun c hc => h c (hc ▸ List.mem_cons_self)

/-! ### Isolates that were never locked -/

/-- As long as no lock is taken, all locks are free. -/
theorem lock_run {acts : List Act} (h : ∀ t i, .lock t i ∉ acts) :
    ∀ iso ∈ (({} : World).run acts).isolates, iso.lock = {} := by
  intro iso hi
  have hfound := (wellFormed_init.run acts).isolate?_of_mem hi rfl
  have hgate : (({} : World).run acts).gate? iso.id
      = some ⟨iso.lock, (({} : World).run acts).lockGuards iso.id⟩ :=
    gate?_eq_some_iff.2 ⟨iso, hfound, rfl⟩
  have hfresh := gate_run (i := iso.id)
    (P := fun before s => (∀ t i, .lock t i ∉ before) → s = {}) Guarded.init
    (fun s hs => nomatch hs) (fun _ _ _ _ => rfl) ?_ acts hgate h
  · exact congrArg Gate.lock hfresh
  · intro before a s s' _ hs hstep hlock
    obtain rfl := hs fun t i hi => hlock t i (List.mem_append_left _ hi)
    cases hstep with
    | taken t => exact absurd (List.mem_append_right _ List.mem_cons_self) (hlock t iso.id)
    | yielded t owner => cases owner
    | spent t owner => cases owner
    | released split => exact absurd split (by simp)
    | regained split => exact absurd split (by simp)
    | idle => rfl

/-- A deed of a run is one of some act. -/
theorem exists_of_mem_history {acts : List Act} (hd : d ∈ w.history acts) :
    ∃ before a after, acts = before ++ a :: after ∧ d ∈ (w.run before).deeds a := by
  induction acts generalizing w with
  | nil => cases hd
  | cons a rest ih =>
    rcases List.mem_append.1 hd with hd | hd
    · exact ⟨[], a, rest, rfl, hd⟩
    · obtain ⟨before, b, after, rfl, hd'⟩ := ih hd
      exact ⟨a :: before, b, after, rfl, hd'⟩

/-- **Deeds find no lock** that is or was taken. -/
theorem lockingMode_of_mem_history (acts : List Act) (h : ∀ t i, .lock t i ∉ acts)
    (hd : d ∈ ({} : World).history acts) : d.isolate.lock.lockingMode = false := by
  obtain ⟨before, a, after, rfl, hd'⟩ := exists_of_mem_history hd
  obtain ⟨iso, hi, hlock⟩ := (mem_deeds_cases hd').2
  rw [hlock, lock_run (fun t i hl => h t i (List.mem_append_left _ hl)) iso hi]

/-! ### Isolates that are there from the start -/

/-- A run that takes no lock and makes no isolate. -/
structure Unlocked (acts : List Act) : Prop where
  locks : ∀ t i, .lock t i ∉ acts
  isolates : ∀ c, .newIsolate c ∉ acts

/-- The world with isolates of some configurations, as far as these are valid, and nothing
else. -/
def start (configs : List IsolateConfig) : World := ({} : World).run (configs.map .newIsolate)

variable {configs : List IsolateConfig} {acts : List Act}

theorem history_newIsolates (w : World) (configs : List IsolateConfig) :
    w.history (configs.map .newIsolate) = [] := by
  induction configs generalizing w with
  | nil => rfl
  | cons c rest ih => exact ih _

/-- Nobody has been in the isolates that are there from the start, and the host refers to them. -/
theorem start_isolates (configs : List IsolateConfig) :
    ∀ iso ∈ (start configs).isolates,
      iso.storage.scopeStacks = [] ∧ iso.id ∈ (start configs).hosts := by
  induction configs using List.reverseRecOn with
  | nil => exact nofun
  | append_singleton configs c ih =>
    have hrun : start (configs ++ [c]) = ((start configs).newIsolate c).2 := by
      rw [start, List.map_append, run_append]
      rfl
    rw [hrun]
    rcases (start configs).newIsolate_cases c with hn | ⟨iso, hc, hn⟩
    · rw [hn]
      exact ih
    · obtain ⟨hid, hnone, -⟩ := Isolate.ofConfig?_eq_ok hc
      rw [hn]
      intro x hx
      rcases List.mem_append.1 hx with hx | hx
      · exact ⟨(ih x hx).1, List.mem_append_left _ (ih x hx).2⟩
      · obtain rfl := List.mem_singleton.1 hx
        refine ⟨hnone, List.mem_append_right _ ?_⟩
        rw [hid]
        exact List.mem_cons_self

theorem start_wellFormed (configs : List IsolateConfig) : (start configs).WellFormed :=
  wellFormed_init.run _

theorem start_rooted (configs : List IsolateConfig) :
    ∀ iso ∈ (start configs).isolates, iso.storage.Rooted :=
  (rooted_run _).2

theorem start_nextScope (configs : List IsolateConfig) :
    (start configs).shared.nextScope = .nth 0 := by
  have hlog := ({} : World).log_run (configs.map .newIsolate)
  rw [history_newIsolates] at hlog
  exact (hlog.opened (n := 0) rfl).2

/-- The desks of a thread that has done nothing yet. -/
def bareDesks (configs : List IsolateConfig) (t : ThreadKey) : Desks :=
  fun i => ((start configs).isolate? i).map (Isolate.desk · t)

/-- Desks without scopes have no name to change. -/
theorem rename_bareDesks (ρ : ScopeId → ScopeId) (configs : List IsolateConfig) (t : ThreadKey) :
    (bareDesks configs t).rename ρ = bareDesks configs t := by
  funext i
  show ((start configs).isolate? i |>.map (Isolate.desk · t)).map (Desk.rename ρ)
    = ((start configs).isolate? i).map (Isolate.desk · t)
  cases hi : (start configs).isolate? i with
  | none => rfl
  | some iso =>
    have hnone := (start_isolates configs iso (mem_of_isolate? hi).1).1
    have hstack : iso.storage.stack? t = none := by
      rw [Storage.stack?, hnone]
      rfl
    show some (Desk.rename ρ (iso.desk t)) = some (iso.desk t)
    rw [Isolate.desk, hstack]
    rfl

/-- What a thread does itself in a run. -/
def session (w : World) (t : ThreadKey) (acts : List Act) : List Deed :=
  (w.history acts).filter (Deed.isOwn · t)

/-- **In a run without locks** a thread has a session of its own. -/
theorem session_run (configs : List IsolateConfig) (hacts : Unlocked acts) (t : ThreadKey) :
    ∃ D, Session t (bareDesks configs t) ((start configs).session t acts) D ∧
      Shows t D ((start configs).run acts) := by
  have hunlocked : ∀ d ∈ (start configs).history acts, d.isolate.lock.lockingMode = false := by
    intro d hd
    refine lockingMode_of_mem_history (configs.map .newIsolate ++ acts)
      (fun t i hmem => ?_) ?_
    · rcases List.mem_append.1 hmem with hmem | hmem
      · obtain ⟨c, -, he⟩ := List.mem_map.1 hmem
        cases he
      · exact hacts.locks t i hmem
    · rw [history_append]
      exact List.mem_append_right _ hd
  refine ((start configs).log_run acts).session ((start configs).nextIsolate_run hacts.isolates)
    (start_rooted configs) (fun d hd _ => hunlocked d hd) fun iso hi => ?_
  exact congrArg (Option.map (Isolate.desk · t)) ((start_wellFormed configs).isolate?_of_mem hi rfl)

/-- The scopes that a thread opens in a run, in order. -/
def scopesOf (w : World) (t : ThreadKey) (acts : List Act) : List ScopeId :=
  (w.session t acts).filterMap Deed.opened?

/-- Isolates to which the host keeps its reference stay. -/
theorem Log.stays {P : IsolateId → Prop} {ds : List Deed} {i : IsolateId} (h : Log P w ds w')
    (hi : i ∈ w.hosts) (hP : ¬ P i) :
    i ∈ w'.hosts ∧ ((w.isolate? i).isSome = true → (w'.isolate? i).isSome = true) := by
  induction h with
  | upkeep h => exact ⟨h.hosts i hi hP, h.stays i hi hP⟩
  | @deed w d =>
    refine ⟨hi, fun hsome => ?_⟩
    show ((w.setIsolate d.outcome.2.1).isolate? i).isSome = true
    rw [isolate?_setIsolate, Option.isSome_map]
    exact hsome
  | append _ _ ih₁ ih₂ =>
    obtain ⟨hi₁, hsome₁⟩ := ih₁ hi
    obtain ⟨hi₂, hsome₂⟩ := ih₂ hi₁
    exact ⟨hi₂, hsome₂ ∘ hsome₁⟩

/-- **The isolates are there throughout,** unless the host lets go of them. -/
theorem isSome_isolate?_run (hacts : Unlocked acts) {i : IsolateId} (hi : .releaseHost i ∉ acts) :
    (((start configs).run acts).isolate? i).isSome = ((start configs).isolate? i).isSome := by
  rw [Bool.eq_iff_iff]
  constructor
  · intro hsome
    obtain ⟨iso', hiso'⟩ := Option.isSome_iff_exists.1 hsome
    obtain ⟨hmem, rfl⟩ := mem_of_isolate? hiso'
    obtain ⟨D, hsession, hshows⟩ := session_run configs hacts ⟨0⟩
    have := hsession.isSome_eq iso'.id
    rw [hshows iso' hmem] at this
    rw [← Option.isSome_map (f := (Isolate.desk · ⟨0⟩))]
    exact this.symm
  · intro hsome
    obtain ⟨iso, hiso⟩ := Option.isSome_iff_exists.1 hsome
    obtain ⟨hmem, rfl⟩ := mem_of_isolate? hiso
    exact (((start configs).log_run acts).stays (start_isolates configs iso hmem).2 hi).2 hsome

/-- Scopes that are opened while the supply of ids lasts have different ids. -/
theorem nodup_scopesOf (hsupply : (((start configs).history acts).filterMap Deed.opened?).length
    ≤ 2 ^ 64) (t : ThreadKey) : ((start configs).scopesOf t acts).Nodup :=
  (((start configs).log_run acts).nodup_opened (start_nextScope configs) hsupply).sublist
    (List.filter_sublist.filterMap _)

/-- **Threads do not interfere.**  Take two runs over the same isolates, without locks, in which a
thread enters and leaves, and uses scopes and locals, in the same way but for the names of scopes,
which are taken to those of the scopes that it opens in the other run.  Then it is told the same
throughout, errors, objects, slots and frontiers included, has the same scopes and local slots after
each deed, and the same desk in each isolate in the end, but for these names.  There are such names,
different ones for different scopes, as long as no more scopes are opened than there are ids.  The
isolates are there throughout if the host does not let go of them.  And in each run in which the
host releases only what it holds, and no object has `2 ^ 32` references, an act that is not the
thread's destroys no object that one of its locals holds. -/
theorem run_noninterference (configs : List IsolateConfig) (t : ThreadKey) :
    let w := start configs
    (∀ acts acts' ρ, Unlocked acts → Unlocked acts' → Function.Injective ρ →
      ((w.session t acts').map Deed.call = (w.session t acts).map fun d => renameCall ρ d.call) →
      (∀ p ∈ (w.scopesOf t acts).zip (w.scopesOf t acts'), ρ p.1 = p.2) →
      ((w.session t acts').map Deed.told = (w.session t acts).map fun d => renameTold ρ d.told) ∧
      ∀ iso ∈ (w.run acts).isolates, ∀ iso' ∈ (w.run acts').isolates, iso'.id = iso.id →
        iso'.desk t = (iso.desk t).rename ρ) ∧
    (∀ acts acts', ((w.history acts).filterMap Deed.opened?).length ≤ 2 ^ 64 →
      ((w.history acts').filterMap Deed.opened?).length ≤ 2 ^ 64 →
      ∃ ρ, Function.Injective ρ ∧
        ∀ p ∈ (w.scopesOf t acts).zip (w.scopesOf t acts'), ρ p.1 = p.2) ∧
    (∀ acts i, Unlocked acts → .releaseHost i ∉ acts →
      ((w.run acts).isolate? i).isSome = (w.isolate? i).isSome) ∧
    ∀ acts a L, Fair False {} {} (acts ++ [a]) L → (({} : World).run acts).actor? a ≠ some t →
      ∀ iso ∈ (({} : World).run acts).isolates, ∀ iso' ∈ (({} : World).run (acts ++ [a])).isolates,
        iso'.id = iso.id → ∀ slot o, (some t, slot, o) ∈ iso.roots →
        ((({} : World).run acts).heap.cell o).isDestroyed = false →
          (some t, slot, o) ∈ iso'.roots ∧
            ((({} : World).run (acts ++ [a])).heap.cell o).isDestroyed = false := by
  intro w
  refine ⟨fun acts acts' ρ hacts hacts' hρ hcalls hnames => ?_, fun acts acts' hopened hopened' => ?_,
    fun acts i hacts hi => isSome_isolate?_run hacts hi,
    fun acts a L hf hactor iso hi iso' hi' hid slot o hroot ho => ?_⟩
  · obtain ⟨D, hsession, hshows⟩ := session_run configs hacts t
    obtain ⟨D', hsession', hshows'⟩ := session_run configs hacts' t
    rw [← rename_bareDesks ρ] at hsession'
    obtain ⟨htold, hD⟩ := hsession.told_eq hρ hsession' hcalls hnames
    refine ⟨htold, fun iso hi iso' hi' hid => ?_⟩
    have hdesk := hshows' iso' hi'
    rw [hid, hD, Desks.rename, hshows iso hi] at hdesk
    exact (Option.some.inj hdesk).symm
  · obtain ⟨σ, hσ⟩ := exists_perm_zip (nodup_scopesOf hopened t) (nodup_scopesOf hopened' t)
    exact ⟨σ, σ.injective, hσ⟩
  · obtain ⟨M, hbefore, hlast⟩ := hf.of_append
    rw [run_append] at hi' ⊢
    cases hlast with
    | cons allowed fits _ =>
      exact ((books_init False).run wellFormed_init hbefore).alive_act (wellFormed_init.run acts)
        (rooted_run acts).2 allowed fits hactor hi hi' hid hroot ho

/-- A thread puts an object into a scope of its own and reads it. -/
def alone : List Act :=
  [.make ⟨.unit, []⟩,
    .enter ⟨0⟩ ⟨1⟩,
    .request ⟨0⟩ ⟨1⟩ .openScope,
    .request ⟨0⟩ ⟨1⟩ (.addLocal (some ⟨1⟩) ⟨0⟩),
    .request ⟨0⟩ ⟨1⟩ (.getLocal ⟨⟨1⟩, ⟨1⟩, .ofCounts 0 0⟩)]

/-- The thread does the same while another opens a scope before it, and closes it between. -/
def together : List Act :=
  [.make ⟨.unit, []⟩,
    .enter ⟨1⟩ ⟨1⟩,
    .request ⟨1⟩ ⟨1⟩ .openScope,
    .enter ⟨0⟩ ⟨1⟩,
    .request ⟨1⟩ ⟨1⟩ (.addLocal none ⟨0⟩),
    .request ⟨0⟩ ⟨1⟩ .openScope,
    .request ⟨0⟩ ⟨1⟩ (.addLocal (some ⟨2⟩) ⟨0⟩),
    .request ⟨1⟩ ⟨1⟩ (.closeScope ⟨1⟩),
    .request ⟨0⟩ ⟨1⟩ (.getLocal ⟨⟨1⟩, ⟨2⟩, .ofCounts 0 0⟩)]

/-- The thread gets another scope in the second run, and is told the same. -/
theorem run_noninterference_together :
    (start [{}]).scopesOf ⟨0⟩ alone = [⟨1⟩] ∧ (start [{}]).scopesOf ⟨0⟩ together = [⟨2⟩] ∧
      ((start [{}]).session ⟨0⟩ together).map Deed.told
        = ((start [{}]).session ⟨0⟩ alone).map
            fun d => renameTold (Equiv.swap ⟨1⟩ ⟨2⟩) d.told := by
  have halone : (start [{}]).scopesOf ⟨0⟩ alone = [⟨1⟩] := by decide +kernel
  have htogether : (start [{}]).scopesOf ⟨0⟩ together = [⟨2⟩] := by decide +kernel
  refine ⟨halone, htogether, ((run_noninterference [{}] ⟨0⟩).1 alone together
    (Equiv.swap ⟨1⟩ ⟨2⟩) ?_ ?_ (Equiv.injective _) ?_ ?_).1⟩
  · exact ⟨by simp [alone], by simp [alone]⟩
  · exact ⟨by simp [together], by simp [together]⟩
  · rfl
  · rw [halone, htogether]
    exact List.forall_mem_singleton.2 (Equiv.swap_apply_left _ _)

end World
end EngineHandles
