/-
# Runs of the world

An `Act` is one thing that can happen: the host changes a tally, makes an object or an
isolate or lets go of one, a thread enters, leaves or ends, uses an isolate's interface,
or makes or drops a guard.  A run is any list of acts, of any threads on any isolates, in
any order (`World.run`); an act that cannot be done, or would have to wait, does nothing.

The isolates of a world keep their own ids, so an operation on one of them leaves the
others alone (`World.WellFormed.exists_perm`).  Whatever threads and guards do comes down
to four things as far as handles are concerned: nothing, a change of an isolate beside its
storage, a request that closes a scope, and the end of an isolate (`World.Works`).  The
enters of a thread, and what registries say of it, change only by its own calls of enter and
exit, which it may make through guards, and by its end (`World.Moves`).
-/

import EngineHandles.World.Guard
import EngineHandles.Proofs.Isolate.Registry
import EngineHandles.Proofs.Isolate.Request

namespace EngineHandles

/-- One thing that can happen. -/
inductive Act where
  /-- The host changes a tally. -/
  | tally (op : TallyOp)
  /-- The host makes an object. -/
  | make (payload : Payload)
  /-- The host changes what the payload of an object will release. -/
  | furnish (object : ObjectId) (onDrop : List TallyOp)
  | newIsolate (config : IsolateConfig)
  /-- The host gives up a reference to an isolate. -/
  | releaseHost (isolate : IsolateId)
  /-- The host says whether the engine of an isolate is dead. -/
  | setEngineDead (isolate : IsolateId) (dead : Bool)
  | request (thread : ThreadKey) (isolate : IsolateId) (request : Request)
  | enter (thread : ThreadKey) (isolate : IsolateId)
  | exit (thread : ThreadKey) (isolate : IsolateId)
  | endThread (thread : ThreadKey)
  | enterGuarded (thread : ThreadKey) (isolate : IsolateId)
  | lock (thread : ThreadKey) (isolate : IsolateId)
  | unlock (thread : ThreadKey) (isolate : IsolateId)
  | openGuarded (thread : ThreadKey) (isolate : IsolateId)
  | dropGuard (guard : GuardId)
  | closeGuard (guard : GuardId)
  | escapeGuard (guard : GuardId) (handle : LocalHandle)

namespace World

/-- What comes of something that may not be possible. -/
def orStay {α : Type} (w : World) (r : Option (α × World)) : World := (r.map Prod.snd).getD w

/-- What the world is after an act. -/
def act (w : World) : Act → World
  | .tally op => w.withHeap (w.heap.settle [op])
  | .make p => w.withHeap (w.heap.make p).2
  | .furnish o ops => w.withHeap (w.heap.furnish o ops)
  | .newIsolate c => (w.newIsolate c).2
  | .releaseHost i => w.releaseHost i
  | .setEngineDead i dead =>
    w.orStay (w.perform? i fun iso shared => ((), { iso with engineDead := dead }, shared))
  | .request t i r => w.orStay (w.perform? i (r.serve t))
  | .enter t i => w.orStay (w.enter? t i)
  | .exit t i => w.orStay (w.exit? t i)
  | .endThread t => w.endThread t
  | .enterGuarded t i => w.orStay (w.enterGuarded? t i)
  | .lock t i => w.orStay (w.lock? t i)
  | .unlock t i => w.orStay (w.unlock? t i)
  | .openGuarded t i => w.orStay (w.openGuarded? t i)
  | .dropGuard g => ((w.guard? g).bind w.dropGuard?).getD w
  | .closeGuard g => w.orStay ((w.guardedScope? g).bind fun (x, scope) => w.closeGuard? x scope)
  | .escapeGuard g l =>
    w.orStay ((w.guardedScope? g).bind fun (x, scope) => w.escapeGuard? x scope l)

/-- The world with what an operation on an isolate leaves behind. -/
def put (w : World) (r : Isolate × Shared) : World := { w.setIsolate r.1 with shared := r.2 }

/-- What the world is after a run. -/
def run (w : World) (acts : List Act) : World := acts.foldl act w

theorem run_append (w : World) (acts acts' : List Act) :
    w.run (acts ++ acts') = (w.run acts).run acts' := List.foldl_append

/-- A world whose isolates keep their own ids. -/
structure WellFormed (w : World) : Prop where
  ids : (w.isolates.map Isolate.id).Nodup
  below : ∀ iso ∈ w.isolates, iso.id.number < w.nextIsolate

variable {w : World} {i : IsolateId} {iso iso' : Isolate}

theorem mem_of_isolate? (hi : w.isolate? i = some iso) : iso ∈ w.isolates ∧ iso.id = i := by
  have := List.find?_some hi
  exact ⟨List.mem_of_find?_eq_some hi, eq_of_beq this⟩

theorem WellFormed.isolate?_of_mem (hw : w.WellFormed) (hi : iso ∈ w.isolates)
    (hid : iso.id = i) : w.isolate? i = some iso := Keyed.find?_of_mem hw.ids hi hid

/-- **An isolate beside the others:** writing it, or taking it out, leaves them alone. -/
theorem WellFormed.exists_perm (hw : w.WellFormed) (hi : w.isolate? i = some iso) :
    w.isolates.Perm (iso :: w.isolates.filter fun j => j.id != i) ∧
      ∀ iso', iso'.id = i →
        (w.setIsolate iso').isolates.Perm (iso' :: w.isolates.filter fun j => j.id != i) := by
  obtain ⟨pre, post, hsplit, hid, hpre, hpost⟩ := Keyed.exists_split hw.ids hi
  have hfilter := Keyed.filter_split Isolate.id hid hpre hpost
  rw [hsplit, hfilter]
  refine ⟨List.perm_middle, fun iso' hid' => ?_⟩
  have hset : (w.setIsolate iso').isolates = pre ++ iso' :: post := by
    rw [setIsolate, hid']
    dsimp only
    rw [hsplit]
    exact Keyed.map_split Isolate.id hid iso' hpre hpost
  rw [hset]
  exact List.perm_middle

theorem WellFormed.setIsolate (hw : w.WellFormed) (hi : w.isolate? i = some iso)
    (hid : iso'.id = i) : (w.setIsolate iso').WellFormed := by
  obtain ⟨hperm, hset⟩ := hw.exists_perm hi
  have hset := hset iso' hid
  have hid' : iso.id = i := (mem_of_isolate? hi).2
  have hids := hw.ids
  rw [(hperm.map Isolate.id).nodup_iff, List.map_cons, hid'] at hids
  refine ⟨?_, fun j hj => ?_⟩
  · rw [(hset.map Isolate.id).nodup_iff, List.map_cons, hid]
    exact hids
  · rcases List.mem_cons.1 (hset.mem_iff.1 hj) with rfl | hj
    · have := hw.below iso (mem_of_isolate? hi).1
      rw [hid'] at this
      rw [hid]
      exact this
    · exact hw.below j (List.mem_filter.1 hj).1

/-- What the end of an isolate is, if it ends. -/
theorem reap_cases (w : World) (i : IsolateId) :
    w.reap i = w ∨ ∃ iso, w.isolate? i = some iso ∧
      w.reap i = { w with isolates := w.isolates.filter fun j => j.id != i }.withHeap
        (iso.storage.discard w.heap) := by
  unfold reap
  split
  · exact .inl rfl
  · split
    · exact .inl rfl
    · next iso hi => exact .inr ⟨iso, hi, rfl⟩

theorem WellFormed.reap (hw : w.WellFormed) (i : IsolateId) : (w.reap i).WellFormed := by
  rcases w.reap_cases i with hr | ⟨iso, -, hr⟩
  · rw [hr]
    exact hw
  · rw [hr]
    refine ⟨hw.ids.sublist (List.filter_sublist.map _), fun j hj => ?_⟩
    exact hw.below j (List.mem_filter.1 hj).1

/-- What a new isolate makes of the world, if its configuration is valid. -/
theorem newIsolate_cases (w : World) (c : IsolateConfig) :
    (w.newIsolate c).2 = w ∨ ∃ iso, Isolate.ofConfig? c ⟨w.nextIsolate⟩ = .ok iso ∧
      (w.newIsolate c).2 = { w with
        isolates := w.isolates ++ [iso]
        nextIsolate := w.nextIsolate + 1
        hosts := w.hosts ++ [⟨w.nextIsolate⟩] } := by
  unfold newIsolate
  dsimp only
  split
  · exact .inl rfl
  · next iso hc => exact .inr ⟨iso, hc, rfl⟩

/-- A new isolate has an id of its own. -/
theorem WellFormed.newIsolate (hw : w.WellFormed) (c : IsolateConfig) :
    (w.newIsolate c).2.WellFormed := by
  rcases w.newIsolate_cases c with hn | ⟨iso, hc, hn⟩
  · rw [hn]
    exact hw
  · rw [hn]
    obtain ⟨hid, -, -⟩ := Isolate.ofConfig?_eq_ok hc
    refine ⟨?_, fun j hj => ?_⟩
    · rw [List.map_append, List.nodup_append]
      refine ⟨hw.ids, List.nodup_cons.2 ⟨nofun, .nil⟩, ?_⟩
      intro x hx y hy he
      obtain ⟨j, hj, rfl⟩ := List.mem_map.1 hx
      obtain rfl := List.mem_singleton.1 hy
      have := hw.below j hj
      rw [he, hid] at this
      exact Nat.lt_irrefl _ this
    · rcases List.mem_append.1 hj with hj | hj
      · exact Nat.lt_succ_of_lt (hw.below j hj)
      · obtain rfl := List.mem_singleton.1 hj
        rw [hid]
        exact Nat.lt_succ_self _

theorem WellFormed.put (hw : w.WellFormed) {r : Isolate × Shared} (hi : w.isolate? i = some iso)
    (hid : r.1.id = i) : (w.put r).WellFormed := by
  have := hw.setIsolate hi hid
  exact ⟨this.ids, this.below⟩

/-- What performing an operation does. -/
theorem perform?_eq_some_iff {α : Type} {op : Isolate.Operation α} {a : α} {w' : World} :
    w.perform? i op = some (a, w') ↔ ∃ iso, w.isolate? i = some iso ∧
      a = (op iso w.shared).1 ∧ w' = w.put (op iso w.shared).2 := by
  unfold perform? put
  cases w.isolate? i with
  | none => exact iff_of_false nofun fun ⟨_, h, _⟩ => nomatch h
  | some iso =>
    simp only [Option.some.injEq, Prod.mk.injEq, exists_eq_left', eq_comm]

/-! ### The enters of a thread -/

theorem enters_setEnters (w : World) (t : ThreadKey) (stack : List IsolateId) (u : ThreadKey) :
    (w.setEnters t stack).enters u = if u = t then stack else w.enters u := by
  rw [enters, setEnters]
  dsimp only
  rw [Keyed.find?_write Prod.fst _ (t, stack)]
  split <;> rfl

/-- A thread without a list has no enters. -/
theorem enters_filter (w : World) (t u : ThreadKey) :
    World.enters { w with entered := w.entered.filter fun e => e.1 != t } u
      = if u = t then [] else w.enters u := by
  rw [enters]
  dsimp only
  rw [Keyed.find?_filter_ne Prod.fst]
  split <;> rfl

end World

/-- A thread enters an isolate, or leaves it. -/
inductive EntryCall where
  | enter (isolate : IsolateId)
  | exit (isolate : IsolateId)
deriving DecidableEq, Repr

/-- The thread that does an act; a guard is dropped by the thread that made it. -/
def World.actor? (w : World) : Act → Option ThreadKey
  | .request t _ _ | .enter t _ | .exit t _ | .endThread t | .enterGuarded t _ | .lock t _
  | .unlock t _ | .openGuarded t _ => some t
  | .dropGuard g | .closeGuard g | .escapeGuard g _ => (w.guard? g).map Guard.thread
  | .tally _ | .make _ | .furnish _ _ | .newIsolate _ | .releaseHost _ | .setEngineDead _ _ => none

/-- The enter or exit of a thread that an act calls, itself or through a guard. -/
def World.entryCall? (w : World) (t : ThreadKey) : Act → Option EntryCall
  | .enter u i => if u = t then some (.enter i) else none
  | .exit u i => if u = t then some (.exit i) else none
  | .enterGuarded u i => if u = t then some (.enter i) else none
  | .dropGuard g =>
    (w.guard? g).bind fun x =>
      if x.thread = t ∧ x.kind = .entered then some (.exit x.isolate) else none
  | _ => none

/-- Whether an act may change the enters of a thread. -/
def World.Moves (w : World) (a : Act) (t : ThreadKey) : Prop :=
  (w.entryCall? t a).isSome = true ∨ a = .endThread t

/-! ### What threads and guards do -/

/-- Whether a request closes a scope. -/
def Request.closes : Request → Bool
  | .closeScope _ | .escape _ _ => true
  | _ => false

/-- Whether an act is one of threads, guards or the host's references to isolates, and
opens no scope. -/
def Act.isFrame : Act → Bool
  | .tally _ | .make _ | .furnish _ _ | .newIsolate _ | .request _ _ _ | .openGuarded _ _ => false
  | _ => true

namespace World

/-- One world comes from another by work of threads and guards that changes nothing about
the enters of a thread outside `P`. -/
inductive Works (P : ThreadKey → Prop) : World → World → Prop where
  /-- Nothing about handles changes. -/
  | beside {w w' : World} (isolates : w'.isolates = w.isolates)
      (next : w'.nextIsolate = w.nextIsolate) (heap : w'.heap = w.heap)
      (scope : w'.shared.nextScope = w.shared.nextScope)
      (enters : ∀ u, ¬ P u → w'.enters u = w.enters u) : Works P w w'
  /-- An isolate changes, but not what it stores. -/
  | rewrite {w : World} {iso iso' : Isolate} (found : w.isolate? iso.id = some iso)
      (id : iso'.id = iso.id) (storage : iso'.storage = iso.storage)
      (registry : ∀ u, ¬ P u → iso'.registry.get? u = iso.registry.get? u) :
      Works P w (w.setIsolate iso')
  /-- A thread closes a scope, or lets a local escape from it. -/
  | serve {w : World} {iso : Isolate} (found : w.isolate? iso.id = some iso) (t : ThreadKey)
      {r : Request} (hr : r.closes = true) : Works P w (w.put (r.serve t iso w.shared).2)
  /-- An isolate ends, unless it is referred to. -/
  | reap (w : World) (i : IsolateId) : Works P w (w.reap i)
  | trans {w w₁ w₂ : World} (first : Works P w w₁) (second : Works P w₁ w₂) : Works P w w₂

variable {w : World} {i : IsolateId} {P : ThreadKey → Prop}

namespace Works

theorem refl (w : World) : Works P w w := .beside rfl rfl rfl rfl fun _ _ => rfl

/-- An operation that changes an isolate, but not what it stores. -/
theorem of_rewrite {α : Type} {op : Isolate.Operation α} {a : α} {w' : World}
    (hop : ∀ iso shared, (op iso shared).2.1.id = iso.id ∧
      (op iso shared).2.1.storage = iso.storage ∧ (op iso shared).2.2.heap = shared.heap ∧
      (op iso shared).2.2.nextScope = shared.nextScope)
    (hreg : ∀ iso shared u, ¬ P u →
      (op iso shared).2.1.registry.get? u = iso.registry.get? u)
    (h : w.perform? i op = some (a, w')) : Works P w w' := by
  obtain ⟨iso, hi, -, rfl⟩ := perform?_eq_some_iff.1 h
  obtain ⟨hid, hstorage, hheap, hscope⟩ := hop iso w.shared
  obtain ⟨-, rfl⟩ := mem_of_isolate? hi
  refine .trans (.rewrite hi hid hstorage (hreg iso w.shared)) (.beside rfl rfl ?_ ?_ ?_)
  · exact hheap
  · exact hscope
  · exact fun _ _ => rfl

/-- An operation that serves a request which closes a scope. -/
theorem of_serve {α : Type} {op : Isolate.Operation α} {a : α} {w' : World} {t : ThreadKey}
    {r : Request} (hr : r.closes = true) (h : w.perform? i op = some (a, w'))
    (hop : ∀ iso shared, (op iso shared).2 = (r.serve t iso shared).2) : Works P w w' := by
  obtain ⟨iso, hi, -, rfl⟩ := perform?_eq_some_iff.1 h
  obtain ⟨-, rfl⟩ := mem_of_isolate? hi
  have := Works.serve (P := P) hi t hr
  rw [← hop, put] at this
  exact this

theorem orStay {α : Type} {r : Option (α × World)}
    (h : ∀ a w', r = some (a, w') → Works P w w') : Works P w (w.orStay r) := by
  cases r with
  | none => exact .refl w
  | some p => exact h p.1 p.2 rfl

theorem addGuard (w : World) (t : ThreadKey) (i : IsolateId) (kind : GuardKind) :
    Works P w (w.addGuard t i kind).2 := .beside rfl rfl rfl rfl fun _ _ => rfl

theorem removeGuard (w : World) (g : Guard) : Works P w (w.removeGuard g) := by
  refine .trans ?_ (.reap { w with guards := w.guards.filter fun x => x.id != g.id } g.isolate)
  exact .beside rfl rfl rfl rfl fun _ _ => rfl

theorem releaseHost (w : World) (i : IsolateId) : Works P w (w.releaseHost i) := by
  refine .trans ?_ (.reap { w with hosts := w.hosts.erase i } i)
  exact .beside rfl rfl rfl rfl fun _ _ => rfl

theorem lock? {t : ThreadKey} {g : GuardId} {w' : World} (h : w.lock? t i = some (g, w')) :
    Works P w w' := by
  unfold World.lock? at h
  split at h
  · cases h
  · next iso hi =>
    split at h
    · cases h
    · next lock hl =>
      cases h
      obtain ⟨-, rfl⟩ := mem_of_isolate? hi
      refine .trans ?_ (.addGuard (w.setIsolate { iso with lock }) t iso.id .locker)
      exact .rewrite hi rfl rfl fun _ _ => rfl

theorem unlock? {t : ThreadKey} {r : Except HandleError GuardId} {w' : World}
    (h : w.unlock? t i = some (r, w')) : Works P w w' := by
  have hop : ∀ (iso : Isolate) (shared : Shared), (iso.yieldLock t shared).2.1.id = iso.id ∧
      (iso.yieldLock t shared).2.1.storage = iso.storage ∧
      (iso.yieldLock t shared).2.2.heap = shared.heap ∧
      (iso.yieldLock t shared).2.2.nextScope = shared.nextScope := by
    intro iso shared
    unfold Isolate.yieldLock
    dsimp only
    split <;> exact ⟨rfl, rfl, rfl, rfl⟩
  have hreg : ∀ (iso : Isolate) (shared : Shared) (u : ThreadKey), ¬ P u →
      (iso.yieldLock t shared).2.1.registry.get? u = iso.registry.get? u := by
    intro iso shared u _
    unfold Isolate.yieldLock
    dsimp only
    split <;> rfl
  unfold World.unlock? at h
  split at h
  · cases h
  · next hp =>
    cases h
    exact of_rewrite hop hreg hp
  · next hp =>
    cases h
    exact .trans (of_rewrite hop hreg hp) (.addGuard _ t i _)

theorem closeScope {t : ThreadKey} {scope : ScopeId} {r : Except HandleError Unit} {w' : World}
    (h : w.perform? i (fun iso shared => iso.closeScope t scope shared) = some (r, w')) :
    Works P w w' := of_serve (r := .closeScope scope) (t := t) rfl h fun _ _ => rfl

theorem closeGuard? {g : Guard} {scope : ScopeId} {r : Except HandleError Unit} {w' : World}
    (h : w.closeGuard? g scope = some (r, w')) : Works P w w' := by
  obtain ⟨⟨r₁, w₁⟩, h₁, he⟩ := Option.map_eq_some_iff.1 h
  cases he
  exact .trans (.closeScope h₁) (.removeGuard _ g)

/-! A thread that enters or leaves. -/

section Enters

variable {t : ThreadKey} (ht : P t)
include ht

theorem setEnters (w : World) (stack : List IsolateId) : Works P w (w.setEnters t stack) := by
  refine .beside rfl rfl rfl rfl fun u hu => ?_
  rw [enters_setEnters, if_neg]
  rintro rfl
  exact hu ht

theorem enter? {n : UInt32} {w' : World} (h : w.enter? t i = some (n, w')) : Works P w w' := by
  unfold World.enter? at h
  split at h
  · cases h
  · next count w₁ hp =>
    cases h
    refine .trans (of_rewrite (fun _ _ => ⟨rfl, rfl, rfl, rfl⟩) ?_ hp) (.setEnters ht _ _)
    intro iso shared u hu
    refine (iso.registry.get?_enter t _ u).trans (if_neg ?_)
    rintro rfl
    exact hu ht

theorem relink (w : World) (i : IsolateId) (previous : Option IsolateId) :
    Works P w (w.relink t i previous) := by
  unfold World.relink
  split
  · exact .refl w
  · next iso hi =>
    obtain ⟨-, rfl⟩ := mem_of_isolate? hi
    refine .rewrite hi rfl rfl fun u hu => ?_
    refine (iso.registry.get?_relink t previous u).trans (if_neg ?_)
    rintro rfl
    exact hu ht

theorem removeEnter (w : World) (i : IsolateId) : Works P w (w.removeEnter t i) := by
  unfold World.removeEnter
  split
  · exact .refl w
  · next above below _ =>
    refine .trans (.setEnters ht w (above ++ below)) ?_
    dsimp only
    split
    · exact .refl _
    · split
      · exact .refl _
      · exact .relink ht _ _ _

theorem exit? {r : Except HandleError Unit} {w' : World} (h : w.exit? t i = some (r, w')) :
    Works P w w' := by
  have hop : ∀ (iso : Isolate) (shared : Shared), (iso.exit t shared).2.1.id = iso.id ∧
      (iso.exit t shared).2.1.storage = iso.storage ∧
      (iso.exit t shared).2.2.heap = shared.heap ∧
      (iso.exit t shared).2.2.nextScope = shared.nextScope := by
    intro iso shared
    unfold Isolate.exit
    split <;> exact ⟨rfl, rfl, rfl, rfl⟩
  have hreg : ∀ (iso : Isolate) (shared : Shared) (u : ThreadKey), ¬ P u →
      (iso.exit t shared).2.1.registry.get? u = iso.registry.get? u := by
    intro iso shared u hu
    have hne : u ≠ t := by
      rintro rfl
      exact hu ht
    have hget := iso.registry.get?_exit_of_ne hne
    unfold Isolate.exit
    split
    · rfl
    · next hexit =>
      rw [hexit] at hget
      exact hget
  unfold World.exit? at h
  split at h
  · cases h
  · next hp =>
    cases h
    exact of_rewrite hop hreg hp
  · next hp =>
    cases h
    exact .trans (of_rewrite hop hreg hp) (.trans (.removeEnter ht _ i) (.reap _ i))

theorem unwind (w : World) (stack : List IsolateId) : Works P w (w.unwind t stack) := by
  induction stack generalizing w with
  | nil => exact .refl w
  | cons i rest ih => exact .trans (.setEnters ht w rest) (.trans (.reap _ i) (ih _))

theorem endThread (w : World) : Works P w (w.endThread t) := by
  refine .trans (.unwind ht w _) (.beside rfl rfl rfl rfl fun u hu => ?_)
  refine (enters_filter _ t u).trans (if_neg ?_)
  rintro rfl
  exact hu ht

theorem enterGuarded? {g : GuardId} {w' : World} (h : w.enterGuarded? t i = some (g, w')) :
    Works P w w' := by
  unfold World.enterGuarded? at h
  split at h
  · cases h
  · next hp =>
    cases h
    exact .trans (.enter? ht hp) (.addGuard _ t i _)

end Enters

/-! Only the guard of an enter makes its thread leave when it is dropped. -/

section Guards

variable {g : Guard} (hg : g.kind = .entered → P g.thread)
include hg

theorem undo? {w' : World} (h : w.undo? g = some w') : Works P w w' := by
  unfold World.undo? at h
  split at h
  · next hk =>
    obtain ⟨⟨r, w₁⟩, hr, rfl⟩ := Option.map_eq_some_iff.1 h
    exact .exit? (hg hk) hr
  · obtain ⟨iso, hi, rfl⟩ := Option.map_eq_some_iff.1 h
    obtain ⟨-, hid⟩ := mem_of_isolate? hi
    rw [← hid] at hi
    exact .rewrite hi rfl rfl fun _ _ => rfl
  · split at h
    · cases h
    · next iso hi =>
      obtain ⟨lock, -, rfl⟩ := Option.map_eq_some_iff.1 h
      obtain ⟨-, hid⟩ := mem_of_isolate? hi
      rw [← hid] at hi
      exact .rewrite hi rfl rfl fun _ _ => rfl
  · obtain ⟨⟨r, w₁⟩, hr, rfl⟩ := Option.map_eq_some_iff.1 h
    exact .closeScope hr

theorem dropGuard? {w' : World} (h : w.dropGuard? g = some w') : Works P w w' := by
  obtain ⟨w₁, h₁, rfl⟩ := Option.map_eq_some_iff.1 h
  exact .trans (.undo? hg h₁) (.removeGuard _ g)

theorem escapeGuard? {scope : ScopeId} {l : LocalHandle} {r : Except HandleError LocalHandle}
    {w' : World} (h : w.escapeGuard? g scope l = some (r, w')) : Works P w w' := by
  unfold World.escapeGuard? at h
  split at h
  · cases h
  · next hp =>
    cases h
    refine .trans (of_serve (r := .escape scope l) (t := g.thread) rfl hp fun _ _ => rfl) ?_
    exact .removeGuard _ g
  · next hp =>
    obtain ⟨w₂, h₂, he⟩ := Option.map_eq_some_iff.1 h
    cases he
    refine .trans (of_serve (r := .escape scope l) (t := g.thread) rfl hp fun _ _ => rfl) ?_
    exact .dropGuard? hg h₂

end Guards

end Works

theorem WellFormed.works {w' : World} (hw : w.WellFormed) (h : Works P w w') : w'.WellFormed := by
  induction h with
  | beside hi hn _ _ _ =>
    refine ⟨?_, fun j hj => ?_⟩
    · rw [hi]
      exact hw.ids
    · rw [hi] at hj
      rw [hn]
      exact hw.below j hj
  | rewrite hi hid _ _ => exact hw.setIsolate hi hid
  | @serve w iso hi t r _ => exact hw.put hi (r.id_serve t iso w.shared)
  | reap w i => exact hw.reap i
  | trans _ _ ih₁ ih₂ => exact ih₂ (ih₁ hw)

theorem guardedScope?_eq_some {g : GuardId} {x : Guard} {scope : ScopeId}
    (h : w.guardedScope? g = some (x, scope)) : w.guard? g = some x ∧ x.kind = .scope scope := by
  obtain ⟨y, hy, hk⟩ := Option.bind_eq_some_iff.1 h
  split at hk
  · next hkind =>
    cases hk
    exact ⟨hy, hkind⟩
  · cases hk

/-- **What the acts of threads and guards come down to.** -/
theorem works_act (w : World) {a : Act} (ha : a.isFrame = true) :
    Works (w.Moves a) w (w.act a) := by
  cases a with
  | tally | make | furnish | newIsolate | request | openGuarded => cases ha
  | releaseHost i => exact .releaseHost w i
  | setEngineDead i dead =>
    refine .orStay fun _ _ h => .of_rewrite (fun _ _ => ⟨rfl, rfl, rfl, rfl⟩) ?_ h
    exact fun _ _ _ _ => rfl
  | enter t i => exact .orStay fun _ _ h => .enter? (.inl (by simp [entryCall?])) h
  | exit t i => exact .orStay fun _ _ h => .exit? (.inl (by simp [entryCall?])) h
  | endThread t => exact .endThread (.inr rfl) w
  | enterGuarded t i =>
    exact .orStay fun _ _ h => .enterGuarded? (.inl (by simp [entryCall?])) h
  | lock t i => exact .orStay fun _ _ h => .lock? h
  | unlock t i => exact .orStay fun _ _ h => .unlock? h
  | dropGuard g =>
    cases hd : (w.guard? g).bind w.dropGuard? with
    | none =>
      rw [act, hd]
      exact .refl w
    | some w' =>
      obtain ⟨x, hx, hdrop⟩ := Option.bind_eq_some_iff.1 hd
      rw [act, hd]
      refine .dropGuard? (fun hk => .inl ?_) hdrop
      simp [entryCall?, hx, hk]
  | closeGuard g =>
    refine .orStay fun _ _ h => ?_
    obtain ⟨⟨x, scope⟩, -, hx⟩ := Option.bind_eq_some_iff.1 h
    exact .closeGuard? hx
  | escapeGuard g l =>
    refine .orStay fun _ _ h => ?_
    obtain ⟨⟨x, scope⟩, hguard, hx⟩ := Option.bind_eq_some_iff.1 h
    refine .escapeGuard? (fun hk => ?_) hx
    rw [(guardedScope?_eq_some hguard).2] at hk
    cases hk

/-- What a request does. -/
theorem act_request (w : World) (t : ThreadKey) (i : IsolateId) (r : Request) :
    w.act (.request t i r)
      = match w.isolate? i with
        | none => w
        | some iso => w.put (r.serve t iso w.shared).2 := by
  show w.orStay (w.perform? i (r.serve t)) = _
  unfold orStay perform? put
  cases w.isolate? i <;> rfl

/-- A guard for a scope is made after the scope is opened. -/
theorem works_openGuarded (w : World) (t : ThreadKey) (i : IsolateId) :
    Works (fun _ => False) (w.act (.request t i .openScope)) (w.act (.openGuarded t i)) := by
  rw [act_request]
  show Works _ _ (w.orStay (w.openGuarded? t i))
  unfold orStay openGuarded? perform?
  cases w.isolate? i with
  | none => exact .refl w
  | some iso =>
    dsimp only
    show Works _ (w.put (iso.openScope t w.shared).2) _
    generalize iso.openScope t w.shared = r
    obtain ⟨r, iso', shared⟩ := r
    cases r with
    | error e => exact .refl _
    | ok scope => exact .addGuard _ t i (.scope scope)

theorem WellFormed.request (hw : w.WellFormed) (t : ThreadKey) (i : IsolateId) (r : Request) :
    (w.act (.request t i r)).WellFormed := by
  rw [act_request]
  cases hi : w.isolate? i with
  | none => exact hw
  | some iso =>
    obtain ⟨-, rfl⟩ := mem_of_isolate? hi
    exact hw.put hi (r.id_serve t iso w.shared)

theorem WellFormed.act (hw : w.WellFormed) (a : Act) : (w.act a).WellFormed := by
  cases a with
  | tally | make | furnish => exact ⟨hw.ids, hw.below⟩
  | newIsolate c => exact hw.newIsolate c
  | request t i r => exact hw.request t i r
  | openGuarded t i =>
    refine WellFormed.works ?_ (w.works_openGuarded t i)
    exact hw.request t i .openScope
  | _ => exact hw.works (works_act w rfl)

theorem wellFormed_init : ({} : World).WellFormed := ⟨List.nodup_nil, nofun⟩

/-- **Isolates keep their own ids** in every run. -/
theorem WellFormed.run (hw : w.WellFormed) (acts : List Act) : (w.run acts).WellFormed := by
  induction acts generalizing w with
  | nil => exact hw
  | cons a rest ih => exact ih (hw.act a)

end World
end EngineHandles
