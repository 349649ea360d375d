/-
# What threads do with isolates, in order

An act makes its thread do one thing with an isolate, or two, or none: a `Job`, such as serving a
request or leaving.  The job itself answers and may fail; a `Deed` is a job with the isolate and
the shared state on which it was done, so that its outcome can be read off it.  `World.deeds` tells
the deeds of an act, also those of guards that are dropped, and `World.history` those of a run.

A run is nothing but its deeds, one after another, with upkeep between them (`World.log_run`):
the host's own work on objects and isolates, lists of enters and guards that are kept, locks
that are taken or given back, isolates that end.  Upkeep signals nothing, tells the observer
nothing, opens no scope, and leaves what an isolate stores as it is (`World.Upkeep`).
-/

import EngineHandles.Proofs.Isolate.Reports
import EngineHandles.Proofs.World.Aside

namespace EngineHandles

/-- One thing that a thread does with an isolate. -/
inductive Job where
  | request (request : Request)
  /-- Enters; the thread was in `previous`. -/
  | enter (previous : Option IsolateId)
  | exit
  /-- Gives the lock up, to regain it later. -/
  | yieldLock

/-- What a job answers, if it does not fail. -/
inductive Reply where
  | answer (answer : Answer)
  /-- How often the thread is inside now. -/
  | inside (count : UInt32)
  | left
  /-- How often the thread had the lock. -/
  | yielded (depth : UInt32)

/-- Does a job for a thread. -/
def Job.serve (j : Job) (t : ThreadKey) : Isolate.Operation (Except HandleError Reply) :=
  fun i w =>
    match j with
    | .request r => Isolate.Outcome.map .answer (r.serve t i w)
    | .enter previous => (.ok (.inside (i.enter t previous w).1), (i.enter t previous w).2)
    | .exit => (i.exit t w).map fun _ => .left
    | .yieldLock => (i.yieldLock t w).map .yielded

/-- **What a job leaves of an isolate:** its id and its configuration. -/
theorem Job.serve_cases (j : Job) (t : ThreadKey) (i : Isolate) (w : Shared) :
    ∃ storage registry lock failed,
      (j.serve t i w).2.1 = { i with storage, registry, lock, failed } := by
  cases j with
  | request r =>
    obtain ⟨storage, failed, h⟩ := r.served t i w
    exact ⟨storage, i.registry, i.lock, failed, h⟩
  | enter previous => exact ⟨i.storage, _, i.lock, i.failed, rfl⟩
  | exit =>
    show ∃ storage registry lock failed,
      (i.exit t w).2.1 = { i with storage, registry, lock, failed }
    unfold Isolate.exit
    split
    · exact ⟨i.storage, i.registry, i.lock, _, rfl⟩
    · exact ⟨i.storage, _, i.lock, i.failed, rfl⟩
  | yieldLock =>
    show ∃ storage registry lock failed,
      (i.yieldLock t w).2.1 = { i with storage, registry, lock, failed }
    unfold Isolate.yieldLock
    dsimp only
    split
    · exact ⟨i.storage, i.registry, _, _, rfl⟩
    · exact ⟨i.storage, i.registry, _, i.failed, rfl⟩

/-- A job that a thread did, on what the isolate and the shared state were then. -/
structure Deed where
  thread : ThreadKey
  job : Job
  isolate : Isolate
  shared : Shared

namespace Deed

/-- What a deed led to. -/
def outcome (d : Deed) : Isolate.Outcome Reply := d.job.serve d.thread d.isolate d.shared

/-- The error with which a deed failed. -/
def error? (d : Deed) : Option HandleError := d.outcome.error?

theorem id_outcome (d : Deed) : d.outcome.2.1.id = d.isolate.id := by
  obtain ⟨_, _, _, _, h⟩ := d.job.serve_cases d.thread d.isolate d.shared
  rw [outcome, h]

theorem config_outcome (d : Deed) : d.outcome.2.1.config = d.isolate.config := by
  obtain ⟨_, _, _, _, h⟩ := d.job.serve_cases d.thread d.isolate d.shared
  rw [outcome, h]

end Deed

namespace World

/-- A job that a thread does now, on an isolate that is there. -/
def deed? (w : World) (t : ThreadKey) (i : IsolateId) (j : Job) : Option Deed :=
  (w.isolate? i).map fun iso => ⟨t, j, iso, w.shared⟩

/-- What a guard does when it is dropped, besides giving back the lock. -/
def undoing? (w : World) (g : Guard) : Option Deed :=
  match g.kind with
  | .entered => w.deed? g.thread g.isolate .exit
  | .scope scope => w.deed? g.thread g.isolate (.request (.closeScope scope))
  | .locker | .unlocker _ => none

/-- What an escape under a guard does; if it fails, the guard is dropped after it. -/
def escaping (w : World) (g : Guard) (scope : ScopeId) (l : LocalHandle) : List Deed :=
  match w.deed? g.thread g.isolate (.request (.escape scope l)) with
  | none => []
  | some d => d :: if d.error?.isSome then ((w.put d.outcome.2).undoing? g).toList else []

/-- What an act does with isolates. -/
def deeds (w : World) : Act → List Deed
  | .request t i r => (w.deed? t i (.request r)).toList
  | .enter t i | .enterGuarded t i => (w.deed? t i (.enter (w.current? t))).toList
  | .exit t i => (w.deed? t i .exit).toList
  | .unlock t i => (w.deed? t i .yieldLock).toList
  | .openGuarded t i => (w.deed? t i (.request .openScope)).toList
  | .dropGuard g => ((w.guard? g).bind w.undoing?).toList
  | .closeGuard g =>
    ((w.guardedScope? g).bind fun (x, scope) =>
      w.deed? x.thread x.isolate (.request (.closeScope scope))).toList
  | .escapeGuard g l =>
    ((w.guardedScope? g).map fun (x, scope) => w.escaping x scope l).getD []
  | .tally _ | .make _ | .furnish _ _ | .newIsolate _ | .releaseHost _ | .setEngineDead _ _
  | .endThread _ | .lock _ _ => []

/-- What the acts of a run do with isolates, in order. -/
def history (w : World) : List Act → List Deed
  | [] => []
  | a :: rest => w.deeds a ++ (w.act a).history rest

theorem history_append (w : World) (xs ys : List Act) :
    w.history (xs ++ ys) = w.history xs ++ (w.run xs).history ys := by
  induction xs generalizing w with
  | nil => rfl
  | cons a xs ih =>
    rw [List.cons_append, history, ih, history, List.append_assoc]
    rfl

end World

/-! ### Upkeep -/

/-- An isolate in which threads did nothing: it stores what it stored, and each thread is inside
as often as before. -/
structure Isolate.Retains (i i' : Isolate) : Prop where
  id_eq : i'.id = i.id
  config_eq : i'.config = i.config
  storage_eq : i'.storage = i.storage
  failed_eq : i'.failed = i.failed
  count_eq : ∀ t, (i'.registry.get? t).map RegistryEntry.count
    = (i.registry.get? t).map RegistryEntry.count

theorem Isolate.Retains.refl (i : Isolate) : i.Retains i := ⟨rfl, rfl, rfl, rfl, fun _ => rfl⟩

theorem Isolate.Retains.trans {i i' i'' : Isolate} (h : i.Retains i') (h' : i'.Retains i'') :
    i.Retains i'' :=
  ⟨h'.id_eq.trans h.id_eq, h'.config_eq.trans h.config_eq, h'.storage_eq.trans h.storage_eq,
    h'.failed_eq.trans h.failed_eq, fun t => (h'.count_eq t).trans (h.count_eq t)⟩

/-- Being told what a thread was in before is no enter. -/
theorem Isolate.retains_relink (i : Isolate) (t : ThreadKey) (previous : Option IsolateId) :
    i.Retains { i with registry := (i.registry.relink t previous).2 } := by
  refine ⟨rfl, rfl, rfl, rfl, fun u => ?_⟩
  rw [Registry.get?_relink]
  split
  · next hu =>
    rw [hu, Option.map_map]
    rfl
  · rfl

namespace World

variable {w w' w'' : World} {t : ThreadKey} {i : IsolateId} {iso iso' : Isolate} {g : Guard}
  {P Q : IsolateId → Prop} {ds ds' : List Deed} {j : Job}

/-- An isolate that is there, or is made before the number `next` is reached. -/
def Offers (w : World) (next : Nat) (iso : Isolate) : Prop :=
  iso ∈ w.isolates ∨ (w.nextIsolate ≤ iso.id.number ∧ iso.id.number < next) ∧
    ∃ c, Isolate.ofConfig? c iso.id = .ok iso

/-- One world comes from another by work that is no deed; only isolates in `P` may lose a
reference that the host holds. -/
structure Upkeep (P : IsolateId → Prop) (w w' : World) : Prop where
  shared : ∃ heap, w'.shared = { w.shared with heap }
  next : w.nextIsolate ≤ w'.nextIsolate
  origin : ∀ iso' ∈ w'.isolates, ∃ iso, w.Offers w'.nextIsolate iso ∧ iso.Retains iso'
  hosts : ∀ i ∈ w.hosts, ¬ P i → i ∈ w'.hosts
  stays : ∀ i ∈ w.hosts, ¬ P i → (w.isolate? i).isSome = true → (w'.isolate? i).isSome = true

namespace Upkeep

theorem mono (h : Upkeep P w w') (hPQ : ∀ i, P i → Q i) : Upkeep Q w w' :=
  ⟨h.shared, h.next, h.origin, fun i hi hQ => h.hosts i hi (mt (hPQ i) hQ),
    fun i hi hQ => h.stays i hi (mt (hPQ i) hQ)⟩

/-- Work that concerns no isolate. -/
theorem of_isolates_eq (hshared : ∃ heap, w'.shared = { w.shared with heap })
    (hnext : w'.nextIsolate = w.nextIsolate) (hiso : w'.isolates = w.isolates)
    (hhosts : ∀ i ∈ w.hosts, ¬ P i → i ∈ w'.hosts) : Upkeep P w w' := by
  refine ⟨hshared, hnext.ge, fun iso' hi => ⟨iso', .inl (hiso ▸ hi), .refl iso'⟩, hhosts, ?_⟩
  intro i _ _ hsome
  rw [isolate?, hiso]
  exact hsome

/-- Work that concerns neither isolates nor the host's references to them. -/
theorem of_eq (hshared : w'.shared = w.shared) (hnext : w'.nextIsolate = w.nextIsolate)
    (hiso : w'.isolates = w.isolates) (hhosts : w'.hosts = w.hosts) : Upkeep P w w' :=
  .of_isolates_eq ⟨w.shared.heap, hshared⟩ hnext hiso fun _ hi _ => hhosts ▸ hi

theorem refl (w : World) : Upkeep P w w := .of_eq rfl rfl rfl rfl

theorem trans (h : Upkeep P w w') (h' : Upkeep P w' w'') : Upkeep P w w'' := by
  obtain ⟨heap, hshared⟩ := h.shared
  obtain ⟨heap', hshared'⟩ := h'.shared
  refine ⟨⟨heap', by rw [hshared', hshared]⟩, h.next.trans h'.next, fun iso'' hi => ?_,
    fun i hi hP => h'.hosts i (h.hosts i hi hP) hP,
    fun i hi hP hsome => h'.stays i (h.hosts i hi hP) hP (h.stays i hi hP hsome)⟩
  obtain ⟨iso', hoffer', hretains'⟩ := h'.origin iso'' hi
  rcases hoffer' with hi' | ⟨⟨hge, hlt⟩, hc⟩
  · obtain ⟨iso, hoffer, hretains⟩ := h.origin iso' hi'
    refine ⟨iso, hoffer.imp_right fun ⟨⟨hge, hlt⟩, hc⟩ => ?_, hretains.trans hretains'⟩
    exact ⟨⟨hge, Nat.lt_of_lt_of_le hlt h'.next⟩, hc⟩
  · exact ⟨iso', .inr ⟨⟨h.next.trans hge, hlt⟩, hc⟩, hretains'⟩

theorem withHeap (w : World) (heap : Heap) : Upkeep P w (w.withHeap heap) :=
  .of_isolates_eq ⟨heap, rfl⟩ rfl rfl fun _ hi _ => hi

/-- An isolate is changed in what is no thread's doing. -/
theorem setIsolate (hi : w.isolate? iso.id = some iso) (h : iso.Retains iso') :
    Upkeep P w (w.setIsolate iso') := by
  refine ⟨⟨w.shared.heap, rfl⟩, Nat.le_refl _, fun x hx => ?_, fun _ hi _ => hi, ?_⟩
  · obtain ⟨y, hy, rfl⟩ := List.mem_map.1 hx
    split
    · exact ⟨iso, .inl (mem_of_isolate? hi).1, h⟩
    · exact ⟨y, .inl hy, .refl y⟩
  · intro j _ _ hsome
    rw [isolate?_setIsolate, Option.isSome_map]
    exact hsome

/-- An isolate ends unless it is referred to, by the host in particular. -/
theorem reap (w : World) (i : IsolateId) : Upkeep P w (w.reap i) := by
  have hstays : ∀ j ∈ w.hosts, ¬ P j → (w.isolate? j).isSome = true →
      ((w.reap i).isolate? j).isSome = true := by
    intro j hj _ hsome
    rcases w.isolate?_reap i j with he | ⟨href, rfl, -⟩
    · rw [he]
      exact hsome
    · have hhost : w.hosts.contains j = true := List.elem_iff.2 hj
      rw [isReferenced, hhost, Bool.true_or, Bool.true_or] at href
      cases href
  rcases w.reap_cases i with hr | ⟨iso, -, hr⟩ <;> rw [hr] at hstays ⊢
  · exact .refl w
  · refine ⟨⟨_, rfl⟩, Nat.le_refl _, fun x hx => ?_, fun _ hj _ => hj, hstays⟩
    exact ⟨x, .inl (List.mem_filter.1 hx).1, .refl x⟩

theorem newIsolate (w : World) (c : IsolateConfig) : Upkeep P w (w.newIsolate c).2 := by
  rcases w.newIsolate_cases c with hn | ⟨iso, hc, hn⟩
  · rw [hn]
    exact .refl w
  · have hid := (Isolate.ofConfig?_eq_ok hc).1
    rw [hn]
    refine ⟨⟨w.shared.heap, rfl⟩, Nat.le_succ _, fun x hx => ?_,
      fun j hj _ => List.mem_append_left _ hj, fun j _ _ hsome => ?_⟩
    · refine ⟨x, ?_, .refl x⟩
      rcases List.mem_append.1 hx with hx | hx
      · exact .inl hx
      · obtain rfl := List.mem_singleton.1 hx
        refine .inr ⟨?_, c, hid.symm ▸ hc⟩
        rw [hid]
        exact ⟨Nat.le_refl _, Nat.lt_succ_self _⟩
    · obtain ⟨y, hy⟩ := Option.isSome_iff_exists.1 hsome
      show ((w.isolates ++ [iso]).find? _).isSome = true
      rw [List.find?_append, show w.isolates.find? _ = some y from hy]
      rfl

theorem releaseHost (w : World) (i : IsolateId) (hi : P i) : Upkeep P w (w.releaseHost i) := by
  refine .trans ?_ (.reap { w with hosts := w.hosts.erase i } i)
  refine .of_isolates_eq ⟨w.shared.heap, rfl⟩ rfl rfl fun j hj hP => ?_
  refine (List.mem_erase_of_ne ?_).2 hj
  rintro rfl
  exact hP hi

theorem addGuard (w : World) (t : ThreadKey) (i : IsolateId) (kind : GuardKind) :
    Upkeep P w (w.addGuard t i kind).2 := .of_eq rfl rfl rfl rfl

theorem removeGuard (w : World) (g : Guard) : Upkeep P w (w.removeGuard g) := by
  refine .trans ?_ (.reap { w with guards := w.guards.filter fun x => x.id != g.id } g.isolate)
  exact .of_eq rfl rfl rfl rfl

theorem setEnters (w : World) (t : ThreadKey) (stack : List IsolateId) :
    Upkeep P w (w.setEnters t stack) := .of_eq rfl rfl rfl rfl

theorem relink (w : World) (t : ThreadKey) (i : IsolateId) (previous : Option IsolateId) :
    Upkeep P w (w.relink t i previous) := by
  unfold World.relink
  split
  · exact .refl w
  · next iso hi =>
    obtain ⟨-, rfl⟩ := mem_of_isolate? hi
    exact .setIsolate hi (iso.retains_relink t previous)

theorem removeEnter (w : World) (t : ThreadKey) (i : IsolateId) :
    Upkeep P w (w.removeEnter t i) := by
  unfold World.removeEnter
  split
  · exact .refl w
  · next above below _ =>
    refine .trans (.setEnters w t (above ++ below)) ?_
    dsimp only
    split
    · exact .refl _
    · split
      · exact .refl _
      · exact .relink _ _ _ _

theorem endThread (w : World) (t : ThreadKey) : Upkeep P w (w.endThread t) := by
  have hunwind : ∀ (stack : List IsolateId) (w : World), Upkeep P w (w.unwind t stack) := by
    intro stack
    induction stack with
    | nil => exact .refl
    | cons i rest ih => exact fun w => .trans (.setEnters w t rest) (.trans (.reap _ i) (ih _))
  exact .trans (hunwind _ w) (.of_eq rfl rfl rfl rfl)

/-- The lock of an isolate is taken or given back. -/
theorem setLock (hi : w.isolate? i = some iso) (lock : Lock) :
    Upkeep P w (w.setIsolate { iso with lock }) := by
  obtain ⟨-, rfl⟩ := mem_of_isolate? hi
  exact .setIsolate hi ⟨rfl, rfl, rfl, rfl, fun _ => rfl⟩

theorem lock? {id : GuardId} (h : w.lock? t i = some (id, w')) : Upkeep P w w' := by
  unfold World.lock? at h
  split at h
  · cases h
  · next iso hi =>
    split at h
    · cases h
    · next lock _ =>
      cases h
      exact .trans (.setLock hi lock) (.addGuard _ t i .locker)

end Upkeep

/-! ### One deed after another -/

/-- The isolates after an operation: the one that it was on, and the others. -/
theorem mem_put_cases {r : Isolate × Shared} (hi : iso ∈ (w.put r).isolates) :
    iso = r.1 ∨ iso ∈ w.isolates ∧ iso.id ≠ r.1.id := by
  obtain ⟨j, hj, rfl⟩ := List.mem_map.1 hi
  split
  · exact .inl rfl
  · next hne => exact .inr ⟨hj, hne⟩

/-- One world comes from another by deeds, in this order, and upkeep. -/
inductive Log (P : IsolateId → Prop) : World → List Deed → World → Prop where
  | upkeep {w w' : World} (h : Upkeep P w w') : Log P w [] w'
  | deed {w : World} {d : Deed} (found : w.isolate? d.isolate.id = some d.isolate)
      (shared : d.shared = w.shared) : Log P w [d] (w.put d.outcome.2)
  | append {w w₁ w₂ : World} {ds ds' : List Deed} (first : Log P w ds w₁)
      (second : Log P w₁ ds' w₂) : Log P w (ds ++ ds') w₂

namespace Log

theorem mono (h : Log P w ds w') (hPQ : ∀ i, P i → Q i) : Log Q w ds w' := by
  induction h with
  | upkeep h => exact .upkeep (h.mono hPQ)
  | deed hfound hshared => exact .deed hfound hshared
  | append _ _ ih₁ ih₂ => exact .append ih₁ ih₂

theorem refl (w : World) : Log P w [] w := .upkeep (.refl w)

theorem trans_upkeep (h : Log P w ds w₁) (h' : Upkeep P w₁ w') : Log P w ds w' := by
  have := Log.append h (.upkeep h')
  rwa [List.append_nil] at this

/-- A job that is done as an operation of the world. -/
theorem perform? {α : Type} {op : Isolate.Operation α} {a : α}
    (h : w.perform? i op = some (a, w'))
    (hop : ∀ iso shared, (op iso shared).2 = (j.serve t iso shared).2) :
    Log P w (w.deed? t i j).toList w' := by
  obtain ⟨iso, hi, -, rfl⟩ := perform?_eq_some_iff.1 h
  obtain ⟨-, rfl⟩ := mem_of_isolate? hi
  rw [deed?, hi, hop]
  exact .deed (d := ⟨t, j, iso, w.shared⟩) hi rfl

theorem next_le (h : Log P w ds w') : w.nextIsolate ≤ w'.nextIsolate := by
  induction h with
  | upkeep h => exact h.next
  | deed => exact Nat.le_refl _
  | append _ _ ih₁ ih₂ => exact ih₁.trans ih₂

/-- Deeds are done on isolates that were made. -/
theorem lt_next (h : Log P w ds w') (hw : ∀ iso ∈ w.isolates, iso.id.number < w.nextIsolate) :
    (∀ d ∈ ds, d.isolate.id.number < w'.nextIsolate) ∧
      ∀ iso ∈ w'.isolates, iso.id.number < w'.nextIsolate := by
  induction h with
  | upkeep h =>
    refine ⟨List.forall_mem_nil _, fun iso' hi => ?_⟩
    obtain ⟨iso, hoffer, hretains⟩ := h.origin iso' hi
    rw [hretains.id_eq]
    rcases hoffer with hi | ⟨⟨-, hlt⟩, -⟩
    · exact Nat.lt_of_lt_of_le (hw iso hi) h.next
    · exact hlt
  | @deed w d hfound =>
    have hd := hw d.isolate (mem_of_isolate? hfound).1
    refine ⟨fun d' hd' => ?_, fun iso hi => ?_⟩
    · obtain rfl := List.mem_singleton.1 hd'
      exact hd
    rcases mem_put_cases hi with rfl | ⟨hi, -⟩
    · rw [d.id_outcome]
      exact hd
    · exact hw iso hi
  | append _ h₂ ih₁ ih₂ =>
    obtain ⟨hds, hw₁⟩ := ih₁ hw
    obtain ⟨hds', hw₂⟩ := ih₂ hw₁
    refine ⟨fun d hd => ?_, hw₂⟩
    rcases List.mem_append.1 hd with hd | hd
    · exact Nat.lt_of_lt_of_le (hds d hd) h₂.next_le
    · exact hds' d hd

/-- **What deeds and upkeep keep of isolates** holds whenever a deed is done. -/
theorem keeps {K : Isolate → Prop} (h : Log P w ds w')
    (hnew : ∀ c id iso, Isolate.ofConfig? c id = .ok iso → K iso)
    (hretains : ∀ iso iso', iso.Retains iso' → K iso → K iso')
    (hdeed : ∀ d : Deed, K d.isolate → K d.outcome.2.1) (hw : ∀ iso ∈ w.isolates, K iso) :
    (∀ d ∈ ds, K d.isolate) ∧ ∀ iso ∈ w'.isolates, K iso := by
  induction h with
  | upkeep h =>
    refine ⟨List.forall_mem_nil _, fun iso' hi => ?_⟩
    obtain ⟨iso, hi | ⟨-, c, hc⟩, hiso⟩ := h.origin iso' hi
    · exact hretains iso iso' hiso (hw iso hi)
    · exact hretains iso iso' hiso (hnew c _ iso hc)
  | @deed w d hfound =>
    have hd := hw d.isolate (mem_of_isolate? hfound).1
    refine ⟨fun d' hd' => ?_, fun iso hi => ?_⟩
    · obtain rfl := List.mem_singleton.1 hd'
      exact hd
    rcases mem_put_cases hi with rfl | ⟨hi, -⟩
    · exact hdeed d hd
    · exact hw iso hi
  | append _ _ ih₁ ih₂ =>
    obtain ⟨hds, hw₁⟩ := ih₁ hw
    obtain ⟨hds', hw₂⟩ := ih₂ hw₁
    refine ⟨fun d hd => ?_, hw₂⟩
    exact (List.mem_append.1 hd).elim (hds d) (hds' d)

/-- What cannot be done is no deed. -/
theorem deed?_of_perform?_eq_none {α : Type} {op : Isolate.Operation α}
    (h : w.perform? i op = none) (t : ThreadKey) (j : Job) : w.deed? t i j = none := by
  unfold World.perform? at h
  rw [deed?]
  cases hi : w.isolate? i with
  | none => rfl
  | some iso =>
    rw [hi] at h
    cases h

theorem request (w : World) (t : ThreadKey) (i : IsolateId) (r : Request) :
    Log P w (w.deeds (.request t i r)) (w.act (.request t i r)) := by
  show Log P w (w.deed? t i (.request r)).toList (w.orStay (w.perform? i (r.serve t)))
  cases hp : w.perform? i (r.serve t) with
  | none =>
    rw [deed?_of_perform?_eq_none hp]
    exact .refl w
  | some p => exact .perform? hp fun _ _ => rfl

theorem enter (w : World) (t : ThreadKey) (i : IsolateId) :
    (w.enter? t i = none ∧ w.deed? t i (.enter (w.current? t)) = none) ∨
      ∃ n w', w.enter? t i = some (n, w') ∧
        Log P w (w.deed? t i (.enter (w.current? t))).toList w' := by
  unfold World.enter?
  cases hp : w.perform? i fun iso shared => iso.enter t (w.current? t) shared with
  | none => exact .inl ⟨rfl, deed?_of_perform?_eq_none hp t _⟩
  | some p =>
    refine .inr ⟨p.1, _, rfl, .trans_upkeep ?_ (.setEnters p.2 t (i :: w.enters t))⟩
    exact .perform? hp fun _ _ => rfl

theorem exit (w : World) (t : ThreadKey) (i : IsolateId) :
    (w.exit? t i = none ∧ w.deed? t i .exit = none) ∨
      ∃ r w', w.exit? t i = some (r, w') ∧ Log P w (w.deed? t i .exit).toList w' := by
  unfold World.exit?
  cases hp : w.perform? i fun iso shared => iso.exit t shared with
  | none => exact .inl ⟨rfl, deed?_of_perform?_eq_none hp t _⟩
  | some p =>
    obtain ⟨r, w'⟩ := p
    have hlog : Log P w (w.deed? t i .exit).toList w' := .perform? hp fun _ _ => rfl
    cases r with
    | error e => exact .inr ⟨_, _, rfl, hlog⟩
    | ok u =>
      refine .inr ⟨.ok (), _, rfl, ?_⟩
      exact hlog.trans_upkeep (.trans (.removeEnter w' t i) (.reap _ i))

theorem unlock (w : World) (t : ThreadKey) (i : IsolateId) :
    Log P w (w.deeds (.unlock t i)) (w.act (.unlock t i)) := by
  show Log P w (w.deed? t i .yieldLock).toList (w.orStay (w.unlock? t i))
  unfold World.unlock?
  cases hp : w.perform? i fun iso shared => iso.yieldLock t shared with
  | none =>
    rw [deed?_of_perform?_eq_none hp]
    exact .refl w
  | some p =>
    obtain ⟨r, w'⟩ := p
    have hlog : Log P w (w.deed? t i .yieldLock).toList w' := .perform? hp fun _ _ => rfl
    cases r with
    | error e => exact hlog
    | ok depth => exact hlog.trans_upkeep (.addGuard w' t i (.unlocker depth))

theorem openGuarded (w : World) (t : ThreadKey) (i : IsolateId) :
    Log P w (w.deeds (.openGuarded t i)) (w.act (.openGuarded t i)) := by
  show Log P w (w.deed? t i (.request .openScope)).toList (w.orStay (w.openGuarded? t i))
  unfold World.openGuarded?
  cases hp : w.perform? i fun iso shared => iso.openScope t shared with
  | none =>
    rw [deed?_of_perform?_eq_none hp]
    exact .refl w
  | some p =>
    obtain ⟨r, w'⟩ := p
    have hlog : Log P w (w.deed? t i (.request .openScope)).toList w' :=
      .perform? hp fun _ _ => rfl
    cases r with
    | error e => exact hlog
    | ok scope => exact hlog.trans_upkeep (.addGuard w' t i (.scope scope))

/-! Guards that are used up. -/

theorem closeScope (w : World) (g : Guard) (scope : ScopeId) :
    (w.perform? g.isolate (fun iso shared => iso.closeScope g.thread scope shared) = none ∧
        w.deed? g.thread g.isolate (.request (.closeScope scope)) = none) ∨
      ∃ r w', w.perform? g.isolate (fun iso shared => iso.closeScope g.thread scope shared)
          = some (r, w') ∧
        Log P w (w.deed? g.thread g.isolate (.request (.closeScope scope))).toList w' := by
  cases hp : w.perform? g.isolate fun iso shared => iso.closeScope g.thread scope shared with
  | none => exact .inl ⟨rfl, deed?_of_perform?_eq_none hp _ _⟩
  | some p => exact .inr ⟨p.1, p.2, rfl, .perform? hp fun _ _ => rfl⟩

/-- Dropping a guard, unless that has to wait, and then it is no deed. -/
theorem drop (w : World) (g : Guard) :
    Log P w (w.undoing? g).toList ((w.dropGuard? g).getD w) := by
  have hremove : ∀ {ds w₁}, Log P w ds w₁ → Log P w ds (w₁.removeGuard g) :=
    fun h => h.trans_upkeep (.removeGuard _ g)
  unfold World.dropGuard? World.undo? undoing?
  cases g.kind with
  | entered =>
    rcases Log.exit (P := P) w g.thread g.isolate with ⟨hn, hd⟩ | ⟨r, w', hs, hlog⟩
    · dsimp only
      rw [hn, hd]
      exact .refl w
    · dsimp only
      rw [hs]
      exact hremove hlog
  | locker =>
    dsimp only
    cases hi : w.isolate? g.isolate with
    | none => exact .refl w
    | some iso => exact hremove (.upkeep (.setLock hi _))
  | unlocker depth =>
    dsimp only
    cases hi : w.isolate? g.isolate with
    | none => exact .refl w
    | some iso =>
      dsimp only
      cases iso.lock.regain? g.thread depth with
      | none => exact .refl w
      | some lock => exact hremove (.upkeep (.setLock hi lock))
  | scope scope =>
    rcases Log.closeScope (P := P) w g scope with ⟨hn, hd⟩ | ⟨r, w', hs, hlog⟩
    · dsimp only
      rw [hn, hd]
      exact .refl w
    · dsimp only
      rw [hs]
      exact hremove hlog

/-- The guard of a scope drops without waiting for anybody. -/
theorem exists_dropGuard? (hi : (w.isolate? g.isolate).isSome = true) {scope : ScopeId}
    (hk : g.kind = .scope scope) : ∃ w', w.dropGuard? g = some w' := by
  obtain ⟨iso, hi⟩ := Option.isSome_iff_exists.1 hi
  refine ⟨(w.put (iso.closeScope g.thread scope w.shared).2).removeGuard g, ?_⟩
  unfold World.dropGuard? World.undo? World.perform?
  rw [hk, hi]
  rfl

theorem closeGuard (w : World) (g : Guard) (scope : ScopeId) :
    Log P w (w.deed? g.thread g.isolate (.request (.closeScope scope))).toList
      (w.orStay (w.closeGuard? g scope)) := by
  unfold World.closeGuard?
  rcases Log.closeScope (P := P) w g scope with ⟨hn, hd⟩ | ⟨r, w', hs, hlog⟩
  · rw [hn, hd]
    exact .refl w
  · rw [hs]
    exact hlog.trans_upkeep (.removeGuard w' g)

/-- An escape that fails is followed by what dropping its guard does. -/
theorem escapeGuard (w : World) (g : Guard) {scope : ScopeId} (hk : g.kind = .scope scope)
    (l : LocalHandle) :
    Log P w (w.escaping g scope l) (w.orStay (w.escapeGuard? g scope l)) := by
  unfold World.escapeGuard? escaping World.perform? deed?
  cases hi : w.isolate? g.isolate with
  | none => exact .refl w
  | some iso =>
    obtain ⟨-, hid⟩ := mem_of_isolate? hi
    have hdeed : Log P w [⟨g.thread, .request (.escape scope l), iso, w.shared⟩]
        (w.put (iso.escape g.thread scope l w.shared).2) :=
      .deed (d := ⟨g.thread, .request (.escape scope l), iso, w.shared⟩) (hid.symm ▸ hi) rfl
    have herror : Deed.error? ⟨g.thread, .request (.escape scope l), iso, w.shared⟩
        = (iso.escape g.thread scope l w.shared).error? := by
      unfold Deed.error? Deed.outcome Job.serve Request.serve
      dsimp only
      rw [Isolate.Outcome.error?_map, Isolate.Outcome.error?_map]
    have houtcome : (Deed.outcome ⟨g.thread, .request (.escape scope l), iso, w.shared⟩).2
        = (iso.escape g.thread scope l w.shared).2 := rfl
    have hthere : ((w.put (iso.escape g.thread scope l w.shared).2).isolate? g.isolate).isSome
        = true := by
      show ((w.setIsolate _).isolate? g.isolate).isSome = true
      rw [isolate?_setIsolate, hi]
      rfl
    dsimp only [Option.map_some]
    rw [herror, houtcome]
    generalize iso.escape g.thread scope l w.shared = r at hdeed hthere
    obtain ⟨r, iso', shared⟩ := r
    cases r with
    | ok moved => exact hdeed.trans_upkeep (.removeGuard _ g)
    | error e =>
      obtain ⟨w', hw'⟩ := exists_dropGuard? hthere hk
      have hlog := hdeed.append (.drop _ g)
      rw [hw'] at hlog
      show Log P w _ (w.orStay (((w.put (iso', shared)).dropGuard? g).map _))
      rw [hw']
      exact hlog

end Log

/-- **What an act does** is its deeds, and upkeep. -/
theorem log_act (w : World) (a : Act) :
    Log (fun i => a = .releaseHost i) w (w.deeds a) (w.act a) := by
  cases a with
  | tally op => exact .upkeep (.withHeap w _)
  | make p => exact .upkeep (.withHeap w _)
  | furnish o ops => exact .upkeep (.withHeap w _)
  | newIsolate c => exact .upkeep (.newIsolate w c)
  | releaseHost i => exact .upkeep (.releaseHost w i rfl)
  | setEngineDead i dead =>
    refine .upkeep ?_
    show Upkeep _ w (w.orStay (w.perform? i _))
    unfold orStay perform?
    cases hi : w.isolate? i with
    | none => exact .refl w
    | some iso =>
      obtain ⟨-, rfl⟩ := mem_of_isolate? hi
      exact .setIsolate hi ⟨rfl, rfl, rfl, rfl, fun _ => rfl⟩
  | request t i r => exact .request w t i r
  | enter t i =>
    show Log _ w (w.deed? t i (.enter (w.current? t))).toList (w.orStay (w.enter? t i))
    rcases Log.enter w t i with ⟨hn, hd⟩ | ⟨n, w', hs, hlog⟩
    · rw [hn, hd]
      exact .refl w
    · rw [hs]
      exact hlog
  | exit t i =>
    show Log _ w (w.deed? t i .exit).toList (w.orStay (w.exit? t i))
    rcases Log.exit w t i with ⟨hn, hd⟩ | ⟨n, w', hs, hlog⟩
    · rw [hn, hd]
      exact .refl w
    · rw [hs]
      exact hlog
  | endThread t => exact .upkeep (.endThread w t)
  | enterGuarded t i =>
    show Log _ w (w.deed? t i (.enter (w.current? t))).toList (w.orStay (w.enterGuarded? t i))
    unfold enterGuarded?
    rcases Log.enter w t i with ⟨hn, hd⟩ | ⟨n, w', hs, hlog⟩
    · rw [hn, hd]
      exact .refl w
    · rw [hs]
      exact hlog.trans_upkeep (.addGuard w' t i .entered)
  | lock t i =>
    refine .upkeep ?_
    show Upkeep _ w (w.orStay (w.lock? t i))
    cases hl : w.lock? t i with
    | none => exact .refl w
    | some p => exact .lock? hl
  | unlock t i => exact .unlock w t i
  | openGuarded t i => exact .openGuarded w t i
  | dropGuard g =>
    show Log _ w ((w.guard? g).bind w.undoing?).toList (((w.guard? g).bind w.dropGuard?).getD w)
    cases w.guard? g with
    | none => exact .refl w
    | some x => exact .drop w x
  | closeGuard g =>
    show Log _ w (Option.toList ((w.guardedScope? g).bind _))
      (w.orStay ((w.guardedScope? g).bind _))
    cases w.guardedScope? g with
    | none => exact .refl w
    | some x => exact .closeGuard w x.1 x.2
  | escapeGuard g l =>
    show Log _ w (Option.getD ((w.guardedScope? g).map _) [])
      (w.orStay ((w.guardedScope? g).bind _))
    cases hg : w.guardedScope? g with
    | none => exact .refl w
    | some x => exact .escapeGuard w x.1 (guardedScope?_eq_some hg).2 l

/-- **A run is its deeds,** in order, and upkeep. -/
theorem log_run (w : World) (acts : List Act) :
    Log (fun i => .releaseHost i ∈ acts) w (w.history acts) (w.run acts) := by
  induction acts generalizing w with
  | nil => exact .refl w
  | cons a rest ih =>
    refine .append ((w.log_act a).mono fun i hi => ?_) ((ih (w.act a)).mono fun i hi => ?_)
    · exact List.mem_cons.2 (.inl hi.symm)
    · exact List.mem_cons_of_mem a hi

end World
end EngineHandles
