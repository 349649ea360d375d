/-
# What threads without access can do

A thread has no access to an isolate while it is outside, and in locking mode while it does not
own the lock.  What a thread does with an isolate, itself or by a guard, is a call
(`World.call?`).  A call of a thread without access leaves what isolates store and all objects
as they are (`World.Intact`), unless the isolate ends because the last reference to it was given
up (`World.Ends`).

The exception is a call for a sweep, which is carried out for everybody: it is without effect
just if no slot is near death (`World.run_access`).
-/

import EngineHandles.Proofs.Isolate.Access
import EngineHandles.Proofs.World.Aside
import EngineHandles.Proofs.World.Stores

namespace EngineHandles
namespace PersistentStore

variable {s : PersistentStore} {h : Heap} {latest : SlotAddr → Option WeakRecord}

/-- Where no slot is near death, a sweep leaves everything as it is. -/
theorem IsStored.sweep_of_none (hs : s.IsStored) (hnone : ∀ addr, s.isNearDeath addr h = false) :
    (s.sweep h).2 = (s, h) := by
  have hnil : s.nearDeath h = [] := by
    refine List.eq_nil_iff_forall_not_mem.2 fun p hp => ?_
    have hnear := (hs.mem_nearDeath.1 hp).1
    rw [hnone] at hnear
    cases hnear
  rw [sweep_of_nearDeath_eq_nil hnil]

/-- The callbacks that a sweep calls are those of the slots near death. -/
theorem Recorded.exists_calls (hs : s.Recorded latest) (h : Heap) : ∃ calls,
    (s.sweep h).2.2.weakCalls = h.weakCalls ++ calls ∧ (calls.map WeakCall.slot).Nodup ∧
      ∀ addr, addr ∈ calls.map WeakCall.slot ↔ s.isNearDeath addr h = true := by
  obtain ⟨habout, -, -, hcalls⟩ := hs.sweep_decided h
  have hslots : ((s.decisions h).map Decision.call).map WeakCall.slot
      = (byObject (s.nearDeath h)).map Prod.fst := by
    rw [← habout, List.map_map, List.map_map]
    rfl
  refine ⟨_, hcalls, ?_, fun addr => ?_⟩
  · rw [hslots, ← Doomed.pairs_grouped, ← doomed_eq_grouped]
    exact hs.stored.nodup_pairs h
  · rw [hslots, List.mem_map]
    constructor
    · rintro ⟨p, hp, rfl⟩
      exact (hs.stored.mem_nearDeath.1 (mem_byObject.1 hp)).1
    · intro hnear
      obtain ⟨o, hx, -⟩ := isNearDeath_iff.1 hnear
      have ho : s.get? addr = some o := by rw [get?, hx]; rfl
      exact ⟨(addr, o), mem_byObject.2 (hs.stored.mem_nearDeath.2 ⟨hnear, ho⟩), rfl⟩

end PersistentStore

namespace World

variable {w w' w'' : World} {t : ThreadKey} {i : IsolateId} {iso : Isolate} {g : Guard}

/-- The thread that does something with an isolate, and the isolate; a guard acts for the thread
that made it. -/
def call? (w : World) : Act → Option (ThreadKey × IsolateId)
  | .request t i _ | .enter t i | .exit t i | .enterGuarded t i | .lock t i | .unlock t i
  | .openGuarded t i => some (t, i)
  | .dropGuard g | .closeGuard g | .escapeGuard g _ =>
    (w.guard? g).map fun x => (x.thread, x.isolate)
  | .tally _ | .make _ | .furnish _ _ | .newIsolate _ | .releaseHost _ | .setEngineDead _ _
  | .endThread _ => none

/-- What isolates store and all objects are the same. -/
structure Intact (w w' : World) : Prop where
  stored : ∀ j, (w'.isolate? j).map Isolate.storage = (w.isolate? j).map Isolate.storage
  heap : w'.heap = w.heap

/-- An isolate ended and released what it stored; what the others store is the same. -/
structure Ends (i : IsolateId) (w w' : World) : Prop where
  gone : w'.isolate? i = none
  others : ∀ j, j ≠ i →
    (w'.isolate? j).map Isolate.storage = (w.isolate? j).map Isolate.storage
  released : ∃ iso, w.isolate? i = some iso ∧ w'.heap = iso.storage.discard w.heap

/-- What isolates store and all objects are the same, except if isolate `i` ended. -/
def Spares (i : IsolateId) (w w' : World) : Prop := Intact w w' ∨ Ends i w w'

namespace Intact

theorem of_isolates_eq (h : w'.isolates = w.isolates) (heap : w'.heap = w.heap) :
    Intact w w' := by
  refine ⟨fun j => ?_, heap⟩
  rw [isolate?, h, isolate?]

theorem refl (w : World) : Intact w w := ⟨fun _ => rfl, rfl⟩

theorem trans (h : Intact w w') (h' : Intact w' w'') : Intact w w'' :=
  ⟨fun j => (h'.stored j).trans (h.stored j), h'.heap.trans h.heap⟩

/-- An operation that changes an isolate, but not what it stores, and no object. -/
theorem put (hi : w.isolate? i = some iso) {r : Isolate × Shared} (hid : r.1.id = iso.id)
    (hstorage : r.1.storage = iso.storage) (hheap : r.2.heap = w.heap) : Intact w (w.put r) := by
  refine ⟨fun j => ?_, hheap⟩
  obtain ⟨-, rfl⟩ := mem_of_isolate? hi
  show ((w.setIsolate r.1).isolate? j).map _ = _
  rw [isolate?_setIsolate, hid]
  by_cases hj : j = iso.id
  · rw [hj, hi]
    simp [hstorage]
  · simp [hj]

theorem perform? {α : Type} {op : Isolate.Operation α} {a : α}
    (hop : ∀ iso shared, (op iso shared).2.1.id = iso.id ∧
      (op iso shared).2.1.storage = iso.storage ∧ (op iso shared).2.2.heap = shared.heap)
    (h : w.perform? i op = some (a, w')) : Intact w w' := by
  obtain ⟨iso, hi, -, rfl⟩ := perform?_eq_some_iff.1 h
  obtain ⟨hid, hstorage, hheap⟩ := hop iso w.shared
  exact .put hi hid hstorage hheap

/-! Threads that enter and leave, and the lock. -/

theorem relink (w : World) (t : ThreadKey) (i : IsolateId) (previous : Option IsolateId) :
    Intact w (w.relink t i previous) := by
  unfold World.relink
  split
  · exact .refl w
  · next iso hi =>
    exact .put (r := ({ iso with registry := _ }, w.shared)) hi rfl rfl rfl

theorem removeEnter (w : World) (t : ThreadKey) (i : IsolateId) :
    Intact w (w.removeEnter t i) := by
  unfold World.removeEnter
  split
  · exact .refl w
  · next above below _ =>
    have hset : Intact w (w.setEnters t (above ++ below)) := .of_isolates_eq rfl rfl
    refine hset.trans ?_
    dsimp only
    split
    · exact .refl _
    · split
      · exact .refl _
      · exact .relink _ t _ _

theorem enter? {n : UInt32} (h : w.enter? t i = some (n, w')) : Intact w w' := by
  unfold World.enter? at h
  split at h
  · cases h
  · next hp =>
    cases h
    have hperform := perform? (fun _ _ => ⟨rfl, rfl, rfl⟩) hp
    exact hperform.trans (.of_isolates_eq rfl rfl)

theorem enterGuarded? {id : GuardId} (h : w.enterGuarded? t i = some (id, w')) :
    Intact w w' := by
  unfold World.enterGuarded? at h
  split at h
  · cases h
  · next hp =>
    cases h
    exact (enter? hp).trans (.of_isolates_eq rfl rfl)

/-- An isolate gets another lock. -/
theorem setLock (hi : w.isolate? i = some iso) (lock : Lock) :
    Intact w (w.setIsolate { iso with lock }) :=
  .put (r := ({ iso with lock }, w.shared)) hi rfl rfl rfl

theorem lock? {id : GuardId} (h : w.lock? t i = some (id, w')) : Intact w w' := by
  unfold World.lock? at h
  split at h
  · cases h
  · next iso hi =>
    split at h
    · cases h
    · next lock _ =>
      cases h
      exact (setLock hi lock).trans (.of_isolates_eq rfl rfl)

theorem unlock? {r : Except HandleError GuardId} (h : w.unlock? t i = some (r, w')) :
    Intact w w' := by
  unfold World.unlock? at h
  split at h
  · cases h
  · next hp =>
    cases h
    exact .perform? (fun iso shared => iso.yieldLock_frame t shared) hp
  · next hp =>
    cases h
    have hperform := perform? (fun iso shared => iso.yieldLock_frame t shared) hp
    exact hperform.trans (.of_isolates_eq rfl rfl)

end Intact

/-! ### Calls that are refused -/

/-- A thread that may not touch an isolate. -/
def Barred (w : World) (t : ThreadKey) (i : IsolateId) : Prop :=
  ∀ iso, w.isolate? i = some iso → ∃ e, iso.accessFault? t = some e

/-- **An operation that is refused** fails and changes nothing, and neither will the next one. -/
theorem Barred.perform? {α : Type} {op : Isolate.Operation (Except HandleError α)}
    {a : Except HandleError α} (hb : w.Barred t i)
    (hop : ∀ (iso : Isolate) (shared : Shared) (e : UsageError), iso.accessFault? t = some e →
      iso.Refused shared (op iso shared))
    (h : w.perform? i op = some (a, w')) :
    (∃ e, a = .error e) ∧ Intact w w' ∧ w'.Barred t i := by
  obtain ⟨iso, hi, rfl, rfl⟩ := perform?_eq_some_iff.1 h
  obtain ⟨e, ha⟩ := hb iso hi
  have hrefused := hop iso w.shared e ha
  obtain ⟨hid, hstorage, hheap, hfault⟩ := hrefused.frame
  refine ⟨?_, .put hi hid hstorage hheap, fun iso' hi' => ⟨e, ?_⟩⟩
  · obtain ⟨site, e', hr⟩ := hrefused
    exact ⟨e', by rw [hr]⟩
  · have hset : ((w.setIsolate (op iso w.shared).2.1).isolate? i) = some iso' := hi'
    obtain ⟨-, hiso⟩ := mem_of_isolate? hi
    rw [isolate?_setIsolate, hi, Option.map_some, if_pos (hiso.symm.trans hid.symm)] at hset
    obtain rfl := Option.some.inj hset
    rw [hfault, ha]

theorem Barred.request (hb : w.Barred t i) {r : Request} (hr : r ≠ .collectWeak) :
    Intact w (w.act (.request t i r)) := by
  show Intact w (w.orStay (w.perform? i (r.serve t)))
  unfold orStay
  cases hp : w.perform? i (r.serve t) with
  | none => exact .refl w
  | some p =>
    exact (hb.perform? (fun _ _ _ ha => Request.refused hr ha) hp).2.1

theorem Barred.openGuarded? (hb : w.Barred t i)
    {r : Except HandleError (GuardId × ScopeId)} (h : w.openGuarded? t i = some (r, w')) :
    Intact w w' := by
  unfold World.openGuarded? at h
  split at h
  · cases h
  · next hp =>
    cases h
    exact (hb.perform? (fun _ _ _ ha => Isolate.refused_run ha) hp).2.1
  · next hp =>
    obtain ⟨⟨e, he⟩, -⟩ := hb.perform? (fun _ _ _ ha => Isolate.refused_run ha) hp
    cases he

/-! ### Isolates that end -/

namespace Spares

theorem refl (i : IsolateId) (w : World) : Spares i w w := .inl (.refl w)

/-- An isolate does not end twice. -/
theorem trans (h : Spares i w w') (h' : Spares i w' w'') : Spares i w w'' := by
  rcases h with h | h <;> rcases h' with h' | h'
  · exact .inl (h.trans h')
  · obtain ⟨iso', hi', hheap⟩ := h'.released
    have hsame := h.stored i
    rw [hi', Option.map_some] at hsame
    obtain ⟨iso, hi, hstorage⟩ := Option.map_eq_some_iff.1 hsame.symm
    refine .inr ⟨h'.gone, fun j hj => (h'.others j hj).trans (h.stored j), iso, hi, ?_⟩
    rw [hheap, ← hstorage, h.heap]
  · have hgone := h'.stored i
    rw [h.gone, Option.map_none, Option.map_eq_none_iff] at hgone
    refine .inr ⟨hgone, fun j hj => (h'.stored j).trans (h.others j hj), ?_⟩
    rw [h'.heap]
    exact h.released
  · obtain ⟨iso', hi', -⟩ := h'.released
    rw [h.gone] at hi'
    cases hi'

theorem reap (w : World) (i : IsolateId) : Spares i w (w.reap i) := by
  rcases w.reap_cases i with hr | ⟨iso, hi, hr⟩ <;> rw [hr]
  · exact .refl i w
  · have hfind := Keyed.find?_filter_ne Isolate.id w.isolates
    refine .inr ⟨(hfind i i).trans (if_pos rfl), fun j hj => ?_, iso, hi, rfl⟩
    exact congrArg (Option.map Isolate.storage) ((hfind j i).trans (if_neg hj))

theorem removeGuard (w : World) (g : Guard) : Spares g.isolate w (w.removeGuard g) := by
  refine .trans ?_ (.reap { w with guards := w.guards.filter fun x => x.id != g.id } g.isolate)
  exact .inl (.of_isolates_eq rfl rfl)

theorem exit? {r : Except HandleError Unit} (h : w.exit? t i = some (r, w')) :
    Spares i w w' := by
  unfold World.exit? at h
  split at h
  · cases h
  · next hp =>
    cases h
    exact .inl (.perform? (fun iso shared => iso.exit_frame t shared) hp)
  · next w₁ hp =>
    cases h
    have hperform := Intact.perform? (fun iso shared => iso.exit_frame t shared) hp
    exact .trans (.inl (hperform.trans (.removeEnter w₁ t i))) (.reap _ i)

theorem orStay {α : Type} {r : Option (α × World)}
    (h : ∀ a w', r = some (a, w') → Spares i w w') : Spares i w (w.orStay r) := by
  cases r with
  | none => exact .refl i w
  | some p => exact h p.1 p.2 rfl

/-! The guards of a thread that may not touch the isolate. -/

section Guards

variable (hb : w.Barred g.thread g.isolate)
include hb

theorem undo? (h : w.undo? g = some w') : Spares g.isolate w w' := by
  unfold World.undo? at h
  split at h
  · obtain ⟨⟨r, w₁⟩, hr, rfl⟩ := Option.map_eq_some_iff.1 h
    exact .exit? hr
  · obtain ⟨iso, hi, rfl⟩ := Option.map_eq_some_iff.1 h
    exact .inl (.setLock hi _)
  · split at h
    · cases h
    · next iso hi =>
      obtain ⟨lock, -, rfl⟩ := Option.map_eq_some_iff.1 h
      exact .inl (.setLock hi lock)
  · obtain ⟨⟨r, w₁⟩, hr, rfl⟩ := Option.map_eq_some_iff.1 h
    exact .inl (hb.perform? (fun _ _ _ ha => Isolate.refused_run ha) hr).2.1

theorem dropGuard? (h : w.dropGuard? g = some w') : Spares g.isolate w w' := by
  obtain ⟨w₁, hundo, rfl⟩ := Option.map_eq_some_iff.1 h
  exact .trans (.undo? hb hundo) (.removeGuard w₁ g)

theorem closeGuard? {scope : ScopeId} {r : Except HandleError Unit}
    (h : w.closeGuard? g scope = some (r, w')) : Spares g.isolate w w' := by
  obtain ⟨⟨r₁, w₁⟩, hclose, he⟩ := Option.map_eq_some_iff.1 h
  cases he
  have hrefused := hb.perform? (fun _ _ _ ha => Isolate.refused_run ha) hclose
  exact .trans (.inl hrefused.2.1) (.removeGuard w₁ g)

/-- An escape that is refused falls back to dropping the guard, which is refused as well. -/
theorem escapeGuard? {scope : ScopeId} {l : LocalHandle} {r : Except HandleError LocalHandle}
    (h : w.escapeGuard? g scope l = some (r, w')) : Spares g.isolate w w' := by
  unfold World.escapeGuard? at h
  split at h
  · cases h
  · next hp =>
    obtain ⟨⟨e, he⟩, -⟩ := hb.perform? (fun _ _ _ ha => Isolate.refused_run ha) hp
    cases he
  · next w₁ hp =>
    obtain ⟨w₂, hdrop, he⟩ := Option.map_eq_some_iff.1 h
    cases he
    obtain ⟨-, hintact, hb'⟩ := hb.perform? (fun _ _ _ ha => Isolate.refused_run ha) hp
    exact .trans (.inl hintact) (.dropGuard? hb' hdrop)

end Guards

end Spares

/-- **What a thread without access does,** other than asking for a sweep, leaves what isolates
store and all objects as they are, or ends the isolate. -/
theorem Barred.spares (hb : w.Barred t i) {a : Act} (hcall : w.call? a = some (t, i))
    (ha : a ≠ .request t i .collectWeak) : Spares i w (w.act a) := by
  cases a with
  | tally | make | furnish | newIsolate | releaseHost | setEngineDead | endThread => cases hcall
  | request t i r =>
    cases hcall
    refine .inl (hb.request ?_)
    rintro rfl
    exact ha rfl
  | enter t i =>
    cases hcall
    exact .orStay fun _ _ h => .inl (.enter? h)
  | exit t i =>
    cases hcall
    exact .orStay fun _ _ h => .exit? h
  | enterGuarded t i =>
    cases hcall
    exact .orStay fun _ _ h => .inl (.enterGuarded? h)
  | lock t i =>
    cases hcall
    exact .orStay fun _ _ h => .inl (.lock? h)
  | unlock t i =>
    cases hcall
    exact .orStay fun _ _ h => .inl (.unlock? h)
  | openGuarded t i =>
    cases hcall
    exact .orStay fun _ _ h => .inl (hb.openGuarded? h)
  | dropGuard id =>
    obtain ⟨x, hx, he⟩ := Option.map_eq_some_iff.1 hcall
    cases he
    rw [act, hx, Option.bind_some]
    cases hd : w.dropGuard? x with
    | none => exact .refl _ w
    | some w' => exact .dropGuard? hb hd
  | closeGuard id =>
    obtain ⟨x, hx, he⟩ := Option.map_eq_some_iff.1 hcall
    cases he
    refine .orStay fun _ _ h => ?_
    obtain ⟨⟨y, scope⟩, hy, hclose⟩ := Option.bind_eq_some_iff.1 h
    obtain rfl := Option.some.inj (hx.symm.trans (guardedScope?_eq_some hy).1)
    exact .closeGuard? hb hclose
  | escapeGuard id l =>
    obtain ⟨x, hx, he⟩ := Option.map_eq_some_iff.1 hcall
    cases he
    refine .orStay fun _ _ h => ?_
    obtain ⟨⟨y, scope⟩, hy, hescape⟩ := Option.bind_eq_some_iff.1 h
    obtain rfl := Option.some.inj (hx.symm.trans (guardedScope?_eq_some hy).1)
    exact .escapeGuard? hb hescape

/-! ### Sweeps -/

/-- What a request for a sweep leaves behind, whoever makes it. -/
theorem act_collectWeak (hi : w.isolate? i = some iso) (t : ThreadKey) :
    w.act (.request t i .collectWeak) = w.put (iso.collectWeak w.shared).2 := by
  rw [act_request, hi]
  rfl

/-- A sweep is without effect if it calls no callback. -/
theorem intact_collectWeak (hi : w.isolate? i = some iso)
    (hs : iso.storage.persistents.IsStored)
    (hnone : ∀ addr, iso.storage.persistents.isNearDeath addr w.heap = false) (t : ThreadKey) :
    Intact w (w.act (.request t i .collectWeak)) := by
  have hsweep := hs.sweep_of_none hnone
  rw [act_collectWeak hi]
  refine .put hi rfl ?_ ?_
  · show { iso.storage with persistents := (iso.storage.persistents.sweep w.heap).2.1 } = _
    rw [hsweep]
  · show (iso.storage.persistents.sweep w.heap).2.2 = _
    rw [hsweep]

/-- **What threads without access can do.**  After any run, let a thread call on an isolate that
it is not in, or whose lock it does not own although the lock was ever taken.  Unless it asks for
a sweep, what isolates store and all objects stay as they are, or the isolate ends, and then what
others store stays and the objects change as the isolate releases what it stored.  A sweep is
carried out for any thread: it calls the callback of each slot near death, once, and leaves what
isolates store and all objects as they are just if there is none. -/
theorem run_access {acts : List Act} {a : Act} {t : ThreadKey} {i : IsolateId} {iso : Isolate}
    (hcall : (({} : World).run acts).call? a = some (t, i))
    (hi : (({} : World).run acts).isolate? i = some iso)
    (hno : iso.registry.contains t = false ∨
      iso.lock.lockingMode = true ∧ iso.lock.owner ≠ some t) :
    let w := ({} : World).run acts
    (a ≠ .request t i .collectWeak → Intact w (w.act a) ∨ Ends i w (w.act a)) ∧
    (a = .request t i .collectWeak → ∃ calls,
      (w.act a).heap.weakCalls = w.heap.weakCalls ++ calls ∧
      (calls.map WeakCall.slot).Nodup ∧
      (∀ addr, addr ∈ calls.map WeakCall.slot ↔
        iso.storage.persistents.isNearDeath addr w.heap = true) ∧
      (Intact w (w.act a) ↔ calls = [])) := by
  intro w
  constructor
  · intro ha
    refine Barred.spares (fun iso' hi' => ?_) hcall ha
    obtain rfl := Option.some.inj (hi.symm.trans hi')
    exact Isolate.exists_accessFault hno
  · rintro rfl
    obtain ⟨latest, hrec⟩ := (Supplied.init.run acts).exists_recorded hi
    obtain ⟨calls, hcalls, hnd, hslots⟩ := hrec.exists_calls w.heap
    have hheap : (w.act (.request t i .collectWeak)).heap
        = (iso.storage.persistents.sweep w.heap).2.2 := by
      rw [act_collectWeak hi]
      rfl
    refine ⟨calls, by rw [hheap, hcalls], hnd, hslots, fun hintact => ?_, fun hnil => ?_⟩
    · -- callbacks that were called are on record
      rw [← hheap, hintact.heap] at hcalls
      exact List.self_eq_append_right.1 hcalls
    · refine intact_collectWeak hi hrec.stored (fun addr => ?_) t
      have hnone := hslots addr
      rw [hnil] at hnone
      exact Bool.eq_false_iff.2 fun hnear => nomatch hnone.2 hnear

/-- Two threads are in an isolate, of which the first owns the lock, and has a weak handle. -/
def oneOwner : List Act :=
  [.make ⟨.unit, []⟩, .newIsolate {}, .enter ⟨0⟩ ⟨1⟩, .enter ⟨1⟩ ⟨1⟩, .lock ⟨0⟩ ⟨1⟩,
    .request ⟨0⟩ ⟨1⟩ (.makePersistent ⟨0⟩),
    .request ⟨0⟩ ⟨1⟩ (.makeWeak ⟨⟨1⟩, .ofCounts 0 0⟩ ⟨7, fun _ _ => ⟨.release, []⟩⟩)]

/-- The thread that does not own the lock gives the handle up to no effect, and a thread that was
never in the isolate makes a sweep call the callback. -/
theorem run_access_oneOwner :
    let w := ({} : World).run oneOwner
    ∃ iso, w.isolate? ⟨1⟩ = some iso ∧
      (iso.registry.contains ⟨1⟩ = true ∧ iso.lock.lockingMode = true ∧
        iso.lock.owner ≠ some ⟨1⟩) ∧
      Intact w (w.act (.request ⟨1⟩ ⟨1⟩ (.dispose ⟨⟨1⟩, .ofCounts 0 0⟩))) ∧
      iso.registry.contains ⟨2⟩ = false ∧
      ¬ Intact w (w.act (.request ⟨2⟩ ⟨1⟩ .collectWeak)) := by
  intro w
  have hfound : (w.isolate? ⟨1⟩).map (fun iso => (iso.registry.contains ⟨1⟩,
      iso.registry.contains ⟨2⟩, iso.lock,
      iso.storage.persistents.isNearDeath (.ofCounts 0 0) w.heap))
        = some (true, false, ⟨some ⟨0⟩, 1, true⟩, true) := by
    decide +kernel
  obtain ⟨iso, hi, hiso⟩ := Option.map_eq_some_iff.1 hfound
  simp only [Prod.mk.injEq] at hiso
  obtain ⟨hin, hout, hlock, hnear⟩ := hiso
  have howner : iso.lock.owner ≠ some ⟨1⟩ := by
    rw [hlock]
    decide
  have hmode : iso.lock.lockingMode = true := by rw [hlock]
  refine ⟨iso, hi, ⟨hin, hmode, howner⟩, ?_, hout, fun hintact => ?_⟩
  · have hrefused := (run_access (a := .request ⟨1⟩ ⟨1⟩ (.dispose ⟨⟨1⟩, .ofCounts 0 0⟩)) rfl hi
      (.inr ⟨hmode, howner⟩)).1 nofun
    rcases hrefused with hintact | hends
    · exact hintact
    · have hgone := hends.gone
      have hstays : ((w.act (.request ⟨1⟩ ⟨1⟩ (.dispose ⟨⟨1⟩, .ofCounts 0 0⟩))).isolate?
          ⟨1⟩).isSome = true := by
        decide +kernel
      rw [hgone] at hstays
      cases hstays
  · obtain ⟨calls, -, -, hslots, hiff⟩ := (run_access (a := .request ⟨2⟩ ⟨1⟩ .collectWeak) rfl hi
      (.inl hout)).2 rfl
    have hmem := (hslots _).2 hnear
    rw [hiff.1 hintact] at hmem
    cases hmem

/-- So a thread without access may change what an isolate stores: a sweep does not ask for it. -/
theorem not_access_for_every_call :
    ¬ ∀ (acts : List Act) (a : Act) (t : ThreadKey) (i : IsolateId) (iso : Isolate),
      (({} : World).run acts).call? a = some (t, i) →
      (({} : World).run acts).isolate? i = some iso →
      (iso.registry.contains t = false ∨
        iso.lock.lockingMode = true ∧ iso.lock.owner ≠ some t) →
      Intact (({} : World).run acts) ((({} : World).run acts).act a) ∨
        Ends i (({} : World).run acts) ((({} : World).run acts).act a) := by
  intro h
  have hfound : ((({} : World).run oneOwner).isolate? ⟨1⟩).map
      (fun iso => iso.registry.contains ⟨2⟩) = some false := by
    decide +kernel
  obtain ⟨iso, hi, hout⟩ := Option.map_eq_some_iff.1 hfound
  rcases h oneOwner (.request ⟨2⟩ ⟨1⟩ .collectWeak) ⟨2⟩ ⟨1⟩ iso rfl hi (.inl hout) with
    hintact | hends
  · have hchanged : ((({} : World).run oneOwner).act (.request ⟨2⟩ ⟨1⟩ .collectWeak)).heap
        ≠ (({} : World).run oneOwner).heap := by
      decide +kernel
    exact hchanged hintact.heap
  · have hstays : (((({} : World).run oneOwner).act
        (.request ⟨2⟩ ⟨1⟩ .collectWeak)).isolate? ⟨1⟩).isSome = true := by
      decide +kernel
    rw [hends.gone] at hstays
    cases hstays

end World
end EngineHandles
