/-
# Live guards and the locks that they are for

Live guards have names of their own, and each one keeps its isolate (`World.Guarded`).
Whatever is not an act on a lock leaves all locks and their guards alone
(`World.Beside.act`).
-/

import EngineHandles.Proofs.Isolate.Lock
import EngineHandles.Proofs.World.Entry

namespace EngineHandles

/-- Whether a guard is one of a lock: it holds a level, or gives back what it yielded. -/
def GuardKind.ofLock : GuardKind → Bool
  | .locker | .unlocker _ => true
  | .entered | .scope _ => false

namespace World

variable {w w' w'' : World} {t u : ThreadKey} {i j : IsolateId} {iso iso' : Isolate} {g : Guard}

/-- Live guards have names of their own, and their isolates are there. -/
structure Guarded (w : World) : Prop where
  ids : (w.guards.map Guard.id).Nodup
  below : ∀ g ∈ w.guards, g.id.number < w.nextGuard
  found : ∀ g ∈ w.guards, (w.isolate? g.isolate).isSome = true

/-- The end of an isolate lets no guard go. -/
theorem reap_frame (w : World) (i : IsolateId) : (w.reap i).guards = w.guards ∧
    (w.reap i).nextGuard = w.nextGuard ∧ (w.reap i).nextIsolate = w.nextIsolate := by
  rcases w.reap_cases i with hr | ⟨iso, -, hr⟩ <;> rw [hr] <;> exact ⟨rfl, rfl, rfl⟩

namespace Guarded

theorem init : ({} : World).Guarded := ⟨List.nodup_nil, nofun, nofun⟩

/-- What has nothing to do with guards, and leaves every isolate with one. -/
theorem of_eq (hw : w.Guarded) (hg : w'.guards = w.guards) (hn : w'.nextGuard = w.nextGuard)
    (hi : ∀ g ∈ w.guards, (w'.isolate? g.isolate).isSome = (w.isolate? g.isolate).isSome) :
    w'.Guarded := by
  refine ⟨by rw [hg]; exact hw.ids, fun g hmem => ?_, fun g hmem => ?_⟩
  · rw [hn]
    exact hw.below g (hg ▸ hmem)
  · rw [hi g (hg ▸ hmem)]
    exact hw.found g (hg ▸ hmem)

theorem setIsolate (hw : w.Guarded) (iso : Isolate) : (w.setIsolate iso).Guarded := by
  refine hw.of_eq rfl rfl fun g _ => ?_
  rw [isolate?_setIsolate, Option.isSome_map]

/-- A guard keeps its isolate. -/
theorem reap (hw : w.Guarded) (i : IsolateId) : (w.reap i).Guarded := by
  obtain ⟨hguards, hnext, -⟩ := w.reap_frame i
  refine hw.of_eq hguards hnext fun g hg => ?_
  rcases w.isolate?_reap i g.isolate with h | ⟨href, rfl, -⟩
  · rw [h]
  · have hany : (w.guards.any fun x => x.isolate == g.isolate) = true :=
      List.any_eq_true.2 ⟨g, hg, beq_self_eq_true _⟩
    simp [isReferenced, hany] at href

/-- A guard is made under a fresh name. -/
theorem addGuard (hw : w.Guarded) (hi : (w.isolate? i).isSome = true) (t : ThreadKey)
    (kind : GuardKind) : (w.addGuard t i kind).2.Guarded := by
  have hmem : ∀ g ∈ (w.addGuard t i kind).2.guards,
      g ∈ w.guards ∨ g = ⟨⟨w.nextGuard⟩, t, i, kind⟩ := by
    intro g hg
    exact (List.mem_append.1 hg).imp_right List.mem_singleton.1
  constructor
  · show ((w.guards ++ [_]).map Guard.id).Nodup
    rw [List.map_append, List.nodup_append]
    refine ⟨hw.ids, List.nodup_singleton _, ?_⟩
    rintro x hx y hy rfl
    obtain ⟨g, hg, rfl⟩ := List.mem_map.1 hx
    have hlt := hw.below g hg
    have hid : g.id = ⟨w.nextGuard⟩ := List.mem_singleton.1 hy
    rw [hid] at hlt
    exact Nat.lt_irrefl _ hlt
  · intro g hg
    show g.id.number < w.nextGuard + 1
    rcases hmem g hg with hg | rfl
    · exact Nat.lt_succ_of_lt (hw.below g hg)
    · exact Nat.lt_succ_self _
  · intro g hg
    show (w.isolate? g.isolate).isSome = true
    rcases hmem g hg with hg | rfl
    · exact hw.found g hg
    · exact hi

theorem removeGuard (hw : w.Guarded) (g : Guard) : (w.removeGuard g).Guarded := by
  refine Guarded.reap (w := { w with guards := w.guards.filter fun x => x.id != g.id }) ?_ _
  refine ⟨hw.ids.sublist (List.filter_sublist.map _), fun x hx => ?_, fun x hx => ?_⟩
  · exact hw.below x (List.mem_filter.1 hx).1
  · exact hw.found x (List.mem_filter.1 hx).1

theorem guard?_of_mem (hw : w.Guarded) (hg : g ∈ w.guards) : w.guard? g.id = some g :=
  Keyed.find?_of_mem hw.ids hg rfl

end Guarded

theorem mem_of_guard? {id : GuardId} (h : w.guard? id = some g) : g ∈ w.guards ∧ g.id = id := by
  have := List.find?_some h
  exact ⟨List.mem_of_find?_eq_some h, eq_of_beq this⟩

/-! ### Work beside the locks -/

/-- Work beside the locks: every isolate that remains has the lock that it had, and the guards
of locks are the same. -/
structure Beside (w w' : World) : Prop where
  next : w'.nextIsolate = w.nextIsolate
  fresh : w.nextGuard ≤ w'.nextGuard
  origin : ∀ {i iso'}, w'.isolate? i = some iso' →
    ∃ iso, w.isolate? i = some iso ∧ iso'.lock = iso.lock
  guards : w'.guards.filter (fun g => g.kind.ofLock) = w.guards.filter fun g => g.kind.ofLock
  guarded : w'.Guarded

namespace Beside

theorem of_eq (hw : w.Guarded) (hi : w'.isolates = w.isolates)
    (hn : w'.nextIsolate = w.nextIsolate) (hg : w'.guards = w.guards)
    (hgn : w'.nextGuard = w.nextGuard) : Beside w w' := by
  have hfind : ∀ i, w'.isolate? i = w.isolate? i := by
    intro i
    rw [isolate?, hi, isolate?]
  refine ⟨hn, hgn.ge, fun {i iso'} h => ⟨iso', ?_, rfl⟩, by rw [hg],
    hw.of_eq hg hgn fun g _ => ?_⟩
  · rw [← hfind]
    exact h
  · rw [hfind]

theorem refl (hw : w.Guarded) : Beside w w := .of_eq hw rfl rfl rfl rfl

theorem trans (h : Beside w w') (h' : Beside w' w'') : Beside w w'' := by
  refine ⟨h'.next.trans h.next, h.fresh.trans h'.fresh, fun hi => ?_,
    h'.guards.trans h.guards, h'.guarded⟩
  obtain ⟨iso', hi', hlock'⟩ := h'.origin hi
  obtain ⟨iso, hi, hlock⟩ := h.origin hi'
  exact ⟨iso, hi, hlock'.trans hlock⟩

/-- An isolate changes, but not its lock. -/
theorem setIsolate (hw : w.Guarded) (hi : w.isolate? iso'.id = some iso)
    (hlock : iso'.lock = iso.lock) : Beside w (w.setIsolate iso') := by
  refine ⟨rfl, Nat.le_refl _, fun {j x} hj => ?_, rfl, hw.setIsolate iso'⟩
  rw [isolate?_setIsolate] at hj
  obtain ⟨y, hy, rfl⟩ := Option.map_eq_some_iff.1 hj
  refine ⟨y, hy, ?_⟩
  split
  · next hji =>
    rw [hji, hi] at hy
    obtain rfl := Option.some.inj hy
    exact hlock
  · rfl

/-- An operation on an isolate that leaves the lock alone. -/
theorem perform? {α : Type} {op : Isolate.Operation α} {a : α} (hw : w.Guarded)
    (hop : ∀ iso shared, (op iso shared).2.1.id = iso.id ∧ (op iso shared).2.1.lock = iso.lock)
    (h : w.perform? i op = some (a, w')) : Beside w w' := by
  obtain ⟨iso, hi, -, rfl⟩ := perform?_eq_some_iff.1 h
  obtain ⟨hid, hlock⟩ := hop iso w.shared
  obtain ⟨-, rfl⟩ := mem_of_isolate? hi
  rw [← hid] at hi
  have hset := setIsolate hw hi hlock
  exact hset.trans (.of_eq hset.guarded rfl rfl rfl rfl)

theorem reap (hw : w.Guarded) (i : IsolateId) : Beside w (w.reap i) := by
  obtain ⟨hguards, hfresh, hnext⟩ := w.reap_frame i
  refine ⟨hnext, hfresh.ge, fun {j iso'} hj => ⟨iso', ?_, rfl⟩, by rw [hguards], hw.reap i⟩
  rcases w.isolate?_reap i j with h | ⟨-, -, h⟩ <;> rw [h] at hj
  · exact hj
  · cases hj

theorem addGuard (hw : w.Guarded) (hi : (w.isolate? i).isSome = true) (t : ThreadKey)
    {kind : GuardKind} (hk : kind.ofLock = false) : Beside w (w.addGuard t i kind).2 := by
  refine ⟨rfl, Nat.le_succ _, fun {j iso'} hj => ⟨iso', hj, rfl⟩, ?_, hw.addGuard hi t kind⟩
  show (w.guards ++ [_]).filter _ = _
  simp [List.filter_append, hk]

/-- A guard is let go of under whose name there is none of a lock. -/
theorem removeGuard (hw : w.Guarded)
    (hg : ∀ x ∈ w.guards, x.kind.ofLock = true → x.id ≠ g.id) : Beside w (w.removeGuard g) := by
  have hfilter : (w.guards.filter fun x => x.id != g.id).filter (fun x => x.kind.ofLock)
      = w.guards.filter fun x => x.kind.ofLock := by
    rw [List.filter_filter]
    refine List.filter_congr fun x hx => ?_
    cases hk : x.kind.ofLock with
    | false => rfl
    | true => simpa using hg x hx hk
  have hrest : Beside w { w with guards := w.guards.filter fun x => x.id != g.id } := by
    refine ⟨rfl, Nat.le_refl _, fun {j iso'} hj => ⟨iso', hj, rfl⟩, hfilter, ?_⟩
    refine ⟨hw.ids.sublist (List.filter_sublist.map _), fun x hx => ?_, fun x hx => ?_⟩
    · exact hw.below x (List.mem_filter.1 hx).1
    · exact hw.found x (List.mem_filter.1 hx).1
  exact hrest.trans (.reap hrest.guarded g.isolate)

/-- Work beside the locks makes no guard of one. -/
theorem spares (h : Beside w w') (hg : ∀ x ∈ w.guards, x.kind.ofLock = true → x.id ≠ g.id) :
    ∀ x ∈ w'.guards, x.kind.ofLock = true → x.id ≠ g.id := by
  intro x hx hk
  have hmem : x ∈ w.guards.filter fun y => y.kind.ofLock :=
    h.guards ▸ List.mem_filter.2 ⟨hx, hk⟩
  exact hg x (List.mem_filter.1 hmem).1 hk

theorem orStay {α : Type} {r : Option (α × World)} (hw : w.Guarded)
    (h : ∀ a w', r = some (a, w') → Beside w w') : Beside w (w.orStay r) := by
  cases r with
  | none => exact .refl hw
  | some p => exact h p.1 p.2 rfl

/-! Threads that enter and leave. -/

theorem relink (hw : w.Guarded) (t : ThreadKey) (i : IsolateId) (previous : Option IsolateId) :
    Beside w (w.relink t i previous) := by
  unfold World.relink
  split
  · exact .refl hw
  · next iso hi =>
    obtain ⟨-, rfl⟩ := mem_of_isolate? hi
    exact .setIsolate hw hi rfl

theorem setEnters (hw : w.Guarded) (t : ThreadKey) (stack : List IsolateId) :
    Beside w (w.setEnters t stack) := .of_eq hw rfl rfl rfl rfl

theorem removeEnter (hw : w.Guarded) (t : ThreadKey) (i : IsolateId) :
    Beside w (w.removeEnter t i) := by
  unfold World.removeEnter
  split
  · exact .refl hw
  · next above below _ =>
    have hset := setEnters hw t (above ++ below)
    refine hset.trans ?_
    dsimp only
    split
    · exact .refl hset.guarded
    · split
      · exact .refl hset.guarded
      · exact .relink hset.guarded t _ _

theorem enter? {n : UInt32} (hw : w.Guarded) (h : w.enter? t i = some (n, w')) :
    Beside w w' := by
  unfold World.enter? at h
  split at h
  · cases h
  · next count w₁ hp =>
    cases h
    have hperform := perform? hw (fun _ _ => ⟨rfl, rfl⟩) hp
    exact hperform.trans (.setEnters hperform.guarded t _)

theorem exit? {r : Except HandleError Unit} (hw : w.Guarded) (h : w.exit? t i = some (r, w')) :
    Beside w w' := by
  have hop : ∀ (iso : Isolate) (shared : Shared), (iso.exit t shared).2.1.id = iso.id ∧
      (iso.exit t shared).2.1.lock = iso.lock := by
    intro iso shared
    unfold Isolate.exit
    split <;> exact ⟨rfl, rfl⟩
  unfold World.exit? at h
  split at h
  · cases h
  · next hp =>
    cases h
    exact perform? hw hop hp
  · next w₁ hp =>
    cases h
    have hperform := perform? hw hop hp
    have hremove := removeEnter hperform.guarded t i
    exact (hperform.trans hremove).trans (.reap hremove.guarded i)

theorem unwind (hw : w.Guarded) (t : ThreadKey) (stack : List IsolateId) :
    Beside w (w.unwind t stack) := by
  induction stack generalizing w with
  | nil => exact .refl hw
  | cons i rest ih =>
    have hset := setEnters hw t rest
    have hreap := reap hset.guarded i
    exact (hset.trans hreap).trans (ih hreap.guarded)

theorem endThread (hw : w.Guarded) (t : ThreadKey) : Beside w (w.endThread t) := by
  have hunwind := unwind hw t (w.enters t).reverse
  exact hunwind.trans (.of_eq hunwind.guarded rfl rfl rfl rfl)

theorem isSome_of_enter? {n : UInt32} (h : w.enter? t i = some (n, w')) :
    (w'.isolate? i).isSome = true := by
  unfold World.enter? at h
  split at h
  · cases h
  · next count w₁ hp =>
    cases h
    obtain ⟨iso, hi, -, rfl⟩ := perform?_eq_some_iff.1 hp
    show ((w.setIsolate _).isolate? i).isSome = true
    rw [isolate?_setIsolate, Option.isSome_map, hi]
    rfl

theorem enterGuarded? {id : GuardId} (hw : w.Guarded)
    (h : w.enterGuarded? t i = some (id, w')) : Beside w w' := by
  unfold World.enterGuarded? at h
  split at h
  · cases h
  · next hp =>
    cases h
    have henter := enter? hw hp
    exact henter.trans (.addGuard henter.guarded (isSome_of_enter? hp) t rfl)

/-! Requests, and guards of scopes. -/

theorem request (hw : w.Guarded) (t : ThreadKey) (i : IsolateId) (r : Request) :
    Beside w (w.act (.request t i r)) := by
  refine .orStay hw fun _ _ h => .perform? hw (fun iso shared => ?_) h
  have hserved := r.served t iso shared
  exact ⟨hserved.id_eq, hserved.lock_eq⟩

theorem closeScope {scope : ScopeId} {r : Except HandleError Unit} (hw : w.Guarded)
    (h : w.perform? i (fun iso shared => iso.closeScope t scope shared) = some (r, w')) :
    Beside w w' := by
  refine .perform? hw (fun iso shared => ?_) h
  have hserved := (Request.closeScope scope).served t iso shared
  exact ⟨hserved.id_eq, hserved.lock_eq⟩

theorem openGuarded (hw : w.Guarded) (t : ThreadKey) (i : IsolateId) :
    Beside w (w.act (.openGuarded t i)) := by
  show Beside w (w.orStay (w.openGuarded? t i))
  have hrequest := request hw t i .openScope
  rw [act_request] at hrequest
  unfold openGuarded? World.perform?
  cases hi : w.isolate? i with
  | none => exact .refl hw
  | some iso =>
    rw [hi] at hrequest
    have hopen : Beside w (w.put (iso.openScope t w.shared).2) := hrequest
    have hsome : ((w.put (iso.openScope t w.shared).2).isolate? i).isSome = true := by
      show ((w.setIsolate _).isolate? i).isSome = true
      rw [isolate?_setIsolate, Option.isSome_map, hi]
      rfl
    dsimp only
    generalize iso.openScope t w.shared = r at hopen hsome
    obtain ⟨r, iso', shared⟩ := r
    cases r with
    | error e => exact hopen
    | ok scope => exact hopen.trans (.addGuard hopen.guarded hsome t rfl)

/-- No other guard has the name of a guard that is not one of a lock. -/
theorem name_ne (hw : w.Guarded) (hg : g ∈ w.guards) (hk : g.kind.ofLock = false) :
    ∀ x ∈ w.guards, x.kind.ofLock = true → x.id ≠ g.id := by
  intro x hx hkx hid
  have hsame := hw.guard?_of_mem hg
  rw [← hid, hw.guard?_of_mem hx] at hsame
  obtain rfl := Option.some.inj hsame
  rw [hk] at hkx
  cases hkx

theorem closeGuard? {scope : ScopeId} {r : Except HandleError Unit} (hw : w.Guarded)
    (hg : g ∈ w.guards) (hk : g.kind.ofLock = false)
    (h : w.closeGuard? g scope = some (r, w')) : Beside w w' := by
  obtain ⟨⟨r₁, w₁⟩, h₁, he⟩ := Option.map_eq_some_iff.1 h
  cases he
  have hclose := closeScope hw h₁
  exact hclose.trans (.removeGuard hclose.guarded (hclose.spares (name_ne hw hg hk)))

/-- A guard that is not one of a lock is dropped. -/
theorem dropGuard? (hw : w.Guarded) (hk : g.kind.ofLock = false)
    (hg : ∀ x ∈ w.guards, x.kind.ofLock = true → x.id ≠ g.id)
    (h : w.dropGuard? g = some w') : Beside w w' := by
  obtain ⟨w₁, hundo, rfl⟩ := Option.map_eq_some_iff.1 h
  have hbeside : Beside w w₁ := by
    unfold undo? at hundo
    split at hundo
    · obtain ⟨⟨r, w₂⟩, hr, rfl⟩ := Option.map_eq_some_iff.1 hundo
      exact exit? hw hr
    · next hkind =>
      rw [hkind] at hk
      cases hk
    · next hkind =>
      rw [hkind] at hk
      cases hk
    · obtain ⟨⟨r, w₂⟩, hr, rfl⟩ := Option.map_eq_some_iff.1 hundo
      exact closeScope hw hr
  exact hbeside.trans (.removeGuard hbeside.guarded (hbeside.spares hg))

theorem escapeGuard? {scope : ScopeId} {l : LocalHandle} {r : Except HandleError LocalHandle}
    (hw : w.Guarded) (hg : g ∈ w.guards) (hk : g.kind.ofLock = false)
    (h : w.escapeGuard? g scope l = some (r, w')) : Beside w w' := by
  have hop : ∀ (iso : Isolate) (shared : Shared),
      (iso.escape g.thread scope l shared).2.1.id = iso.id ∧
      (iso.escape g.thread scope l shared).2.1.lock = iso.lock := by
    intro iso shared
    have hserved := (Request.escape scope l).served g.thread iso shared
    exact ⟨hserved.id_eq, hserved.lock_eq⟩
  unfold World.escapeGuard? at h
  split at h
  · cases h
  · next hp =>
    cases h
    have hescape := perform? hw hop hp
    exact hescape.trans (.removeGuard hescape.guarded (hescape.spares (name_ne hw hg hk)))
  · next w₁ hp =>
    obtain ⟨w₂, h₂, he⟩ := Option.map_eq_some_iff.1 h
    cases he
    have hescape := perform? hw hop hp
    exact hescape.trans (dropGuard? hescape.guarded hk (hescape.spares (name_ne hw hg hk)) h₂)

theorem act_dropGuard {id : GuardId} (hw : w.Guarded) (hg : w.guard? id = some g)
    (hk : g.kind.ofLock = false) : Beside w (w.act (.dropGuard id)) := by
  have hname := name_ne hw (mem_of_guard? hg).1 hk
  rw [World.act, hg, Option.bind_some]
  cases hd : w.dropGuard? g with
  | none => exact .refl hw
  | some w' => exact dropGuard? hw hk hname hd

/-- **Whatever is not an act on a lock** leaves all locks and their guards alone. -/
theorem act (hw : w.Guarded) {a : Act} (hnew : ∀ c, a ≠ .newIsolate c)
    (hlock : ∀ t i, a ≠ .lock t i) (hunlock : ∀ t i, a ≠ .unlock t i)
    (hdrop : ∀ id x, a = .dropGuard id → w.guard? id = some x → x.kind.ofLock = false) :
    Beside w (w.act a) := by
  cases a with
  | newIsolate c => exact absurd rfl (hnew c)
  | lock t i => exact absurd rfl (hlock t i)
  | unlock t i => exact absurd rfl (hunlock t i)
  | tally | make | furnish => exact .of_eq hw rfl rfl rfl rfl
  | releaseHost i =>
    have hrest : Beside w { w with hosts := w.hosts.erase i } := .of_eq hw rfl rfl rfl rfl
    exact hrest.trans (.reap hrest.guarded i)
  | setEngineDead i dead =>
    exact .orStay hw fun _ _ h => .perform? hw (fun _ _ => ⟨rfl, rfl⟩) h
  | request t i r => exact .request hw t i r
  | enter t i => exact .orStay hw fun _ _ h => .enter? hw h
  | exit t i => exact .orStay hw fun _ _ h => .exit? hw h
  | endThread t => exact .endThread hw t
  | enterGuarded t i => exact .orStay hw fun _ _ h => .enterGuarded? hw h
  | openGuarded t i => exact .openGuarded hw t i
  | dropGuard id =>
    cases hg : w.guard? id with
    | none =>
      rw [World.act, hg]
      exact .refl hw
    | some x => exact .act_dropGuard hw hg (hdrop id x rfl hg)
  | closeGuard id =>
    refine .orStay hw fun _ _ h => ?_
    obtain ⟨⟨x, scope⟩, hx, hclose⟩ := Option.bind_eq_some_iff.1 h
    obtain ⟨hg, hk⟩ := guardedScope?_eq_some hx
    exact .closeGuard? hw (mem_of_guard? hg).1 (by rw [hk]; rfl) hclose
  | escapeGuard id l =>
    refine .orStay hw fun _ _ h => ?_
    obtain ⟨⟨x, scope⟩, hx, hescape⟩ := Option.bind_eq_some_iff.1 h
    obtain ⟨hg, hk⟩ := guardedScope?_eq_some hx
    exact .escapeGuard? hw (mem_of_guard? hg).1 (by rw [hk]; rfl) hescape

end Beside

end World
end EngineHandles
