/-
# What observers are told

An isolate's observer hears of a thread when the thread comes to have a local there, and when it
ceases to.  In every run the events are those of the deeds, in order, each of them told by a deed
that changed the calling thread's number of local slots from zero or to zero
(`World.Log.rootEvents_eq`).  So the events of one thread in one isolate take turns, beginning
with an activation (`World.TakesTurns.log`).

The count of threads that comes with an event, and that the counters of an isolate show, is the
number of threads that have a local slot (`World.run_root_events`).
-/

import EngineHandles.Proofs.Isolate.Rooting
import EngineHandles.Proofs.World.Log
import EngineHandles.Proofs.World.Scopes

namespace EngineHandles

/-- A job that serves no request touches no stack and tells nobody. -/
theorem Job.tells_serve {i : Isolate} (hs : i.storage.Rooted) (j : Job) (t : ThreadKey)
    (w : Shared) : i.Tells t w (j.serve t i w).2 := by
  cases j with
  | request r => exact r.tells_serve hs t w
  | enter previous => exact .of_eq hs rfl rfl rfl
  | exit =>
    show i.Tells t w (i.exit t w).2
    unfold Isolate.exit
    split <;> exact .of_eq hs rfl rfl rfl
  | yieldLock =>
    show i.Tells t w (i.yieldLock t w).2
    unfold Isolate.yieldLock
    dsimp only
    split <;> exact .of_eq hs rfl rfl rfl

namespace RootTransition

/-- Of transitions that take turns, beginning with an activation, the one at a position. -/
def turn (k : Nat) : RootTransition := if k % 2 = 0 then .activated else .idle

/-- Nothing is reported just if there were slots and are, or there were none and are none. -/
theorem between_eq_unchanged_iff {m n : Nat} :
    between m n = .unchanged ↔ (0 < n ↔ 0 < m) := by
  rcases Nat.eq_zero_or_pos m with rfl | hm <;> rcases Nat.eq_zero_or_pos n with rfl | hn
  · simp
  · simp [between_zero_left hn, hn]
  · simp [between_zero_right hm, hm]
  · simp [between_of_pos hm hn, hm, hn]

theorem pos_of_between_eq_idle {m n : Nat} (h : between m n = .idle) : 0 < m := by
  rcases Nat.eq_zero_or_pos m with rfl | hm
  · rcases Nat.eq_zero_or_pos n with rfl | hn
    · rw [between_self] at h
      cases h
    · rw [between_zero_left hn] at h
      cases h
  · exact hm

/-- If there are slots just after an odd number of turns, what is reported next is the next
turn. -/
theorem between_eq_turn {m n k : Nat} (hk : 0 < m ↔ k % 2 = 1) (h : between m n ≠ .unchanged) :
    between m n = turn k ∧ (0 < n ↔ (k + 1) % 2 = 1) := by
  unfold turn
  rcases Nat.eq_zero_or_pos m with rfl | hm <;> rcases Nat.eq_zero_or_pos n with rfl | hn
  · exact absurd (between_self 0) h
  · have : k % 2 = 0 := by omega
    rw [between_zero_left hn, if_pos this]
    exact ⟨rfl, by omega⟩
  · have : k % 2 = 1 := hk.1 hm
    rw [between_zero_right hm, if_neg (by omega)]
    exact ⟨rfl, by omega⟩
  · exact absurd (between_of_pos hm hn) h

end RootTransition

namespace Deed

/-- How a deed changed whether its thread has local slots in the isolate. -/
def transition (d : Deed) : RootTransition :=
  .between (d.isolate.storage.localSize d.thread) (d.outcome.2.1.storage.localSize d.thread)

/-- What the observer of the isolate is told of a deed: a transition of the calling thread, and
how many threads have local slots after it. -/
def rootEvent? (d : Deed) : Option RootEvent := d.isolate.rootEvent? d.outcome.2.1 d.thread

/-- What a deed leaves behind. -/
theorem tells (d : Deed) (hs : d.isolate.storage.Rooted) :
    d.isolate.Tells d.thread d.shared d.outcome.2 := d.job.tells_serve hs d.thread d.shared

theorem rootEvent?_eq_some {d : Deed} {e : RootEvent} (h : d.rootEvent? = some e) :
    d.transition ≠ .unchanged ∧ d.isolate.config.observed = true ∧
      e = ⟨d.isolate.id, d.thread, d.transition, d.outcome.2.1.storage.rootingThreads⟩ := by
  unfold rootEvent? Isolate.rootEvent? at h
  dsimp only at h
  split at h
  · next hcond => exact ⟨hcond.1, hcond.2, (Option.some.inj h).symm⟩
  · cases h

end Deed

namespace World

variable {w w' : World} {P : IsolateId → Prop} {ds : List Deed} {place : Place}

/-- In every run each isolate counts its threads that have local slots. -/
theorem Log.rooted (h : Log P w ds w') (hw : ∀ iso ∈ w.isolates, iso.storage.Rooted) :
    (∀ d ∈ ds, d.isolate.storage.Rooted) ∧ ∀ iso ∈ w'.isolates, iso.storage.Rooted := by
  refine h.keeps (K := fun iso => iso.storage.Rooted) (fun c id iso hc => ?_)
    (fun iso iso' hiso hs => ?_) (fun d hs => ?_) hw
  · obtain ⟨persistents, -, rfl⟩ := Isolate.exists_of_ofConfig? hc
    exact ⟨.nil, nofun, rfl⟩
  · rw [hiso.storage_eq]
    exact hs
  · exact (d.tells hs).rooted

/-- In every run from the start, too. -/
theorem rooted_run (acts : List Act) :
    (∀ d ∈ ({} : World).history acts, d.isolate.storage.Rooted) ∧
      ∀ iso ∈ (({} : World).run acts).isolates, iso.storage.Rooted :=
  (({} : World).log_run acts).rooted nofun

/-- **The observers are told of the deeds,** in order. -/
theorem Log.rootEvents_eq (h : Log P w ds w') (hw : ∀ iso ∈ w.isolates, iso.storage.Rooted) :
    w'.shared.rootEvents.toList
      = w.shared.rootEvents.toList ++ ds.filterMap Deed.rootEvent? := by
  induction h with
  | upkeep h =>
    obtain ⟨heap, hshared⟩ := h.shared
    rw [hshared, List.filterMap_nil, List.append_nil]
  | @deed w d hfound hshared =>
    have hs := hw d.isolate (mem_of_isolate? hfound).1
    rw [← hshared]
    refine (d.tells hs).events.trans (congrArg _ ?_)
    show d.rootEvent?.toList = _
    cases he : d.rootEvent? <;> simp [he]
  | append h₁ _ ih₁ ih₂ =>
    rw [ih₂ (h₁.rooted hw).2, ih₁ hw, List.filterMap_append, List.append_assoc]

/-! ### Taking turns -/

/-- The transitions of a thread in an isolate that the observer was told of. -/
def transitionsAt (w : World) (place : Place) : List RootTransition :=
  (w.shared.rootEvents.toList.filter fun e =>
    e.isolate == place.isolate && e.thread == place.thread).map RootEvent.transition

/-! What a deed adds to the events. -/

section
variable {d : Deed} (hshared : d.shared = w.shared) (hs : d.isolate.storage.Rooted)
include hshared hs

theorem rootEvents_put : (w.put d.outcome.2).shared.rootEvents.toList
    = w.shared.rootEvents.toList ++ d.rootEvent?.toList := by
  rw [← hshared]
  exact (d.tells hs).events

/-- A deed adds its transition at its own place, if the observer is told of it. -/
theorem transitionsAt_put (place : Place) :
    (w.put d.outcome.2).transitionsAt place = w.transitionsAt place ++
      if place = ⟨d.isolate.id, d.thread⟩ ∧ d.transition ≠ .unchanged
          ∧ d.isolate.config.observed = true then [d.transition] else [] := by
  rw [transitionsAt, rootEvents_put hshared hs, List.filter_append, List.map_append,
    ← transitionsAt]
  refine congrArg _ ?_
  by_cases htold : d.transition ≠ .unchanged ∧ d.isolate.config.observed = true
  · have hevent : d.rootEvent? = some ⟨d.isolate.id, d.thread, d.transition,
        d.outcome.2.1.storage.rootingThreads⟩ := if_pos htold
    obtain ⟨i, t⟩ := place
    rw [hevent, Option.toList_some, List.filter_singleton]
    by_cases hplace : d.isolate.id = i ∧ d.thread = t
    · obtain ⟨rfl, rfl⟩ := hplace
      simp [htold]
    · have hmatch : (d.isolate.id == i && d.thread == t) = false := by simpa using hplace
      rw [hmatch, if_neg]
      · rfl
      · rintro ⟨he, -⟩
        cases he
        exact hplace ⟨rfl, rfl⟩
  · have hnone : d.rootEvent? = none := if_neg htold
    rw [hnone, if_neg fun h => htold h.2]
    rfl

theorem below_put (hbelow : d.isolate.id.number < w.nextIsolate)
    (h : ∀ e ∈ w.shared.rootEvents.toList, e.isolate.number < w.nextIsolate) :
    ∀ e ∈ (w.put d.outcome.2).shared.rootEvents.toList,
      e.isolate.number < (w.put d.outcome.2).nextIsolate := by
  intro e he
  rw [rootEvents_put hshared hs, List.mem_append, Option.mem_toList] at he
  rcases he with he | he
  · exact h e he
  · rw [(Deed.rootEvent?_eq_some he).2.2]
    exact hbelow

end

theorem eq_outcome_of_mem_put {d : Deed} {iso : Isolate}
    (hi : iso ∈ (w.put d.outcome.2).isolates) (hid : iso.id = d.isolate.id) :
    iso = d.outcome.2.1 := by
  rcases mem_put_cases hi with rfl | ⟨-, hne⟩
  · rfl
  · exact absurd (hid.trans d.id_outcome.symm) hne

/-- The transitions of a thread in an isolate take turns, and the next one is due. -/
structure TakesTurns (place : Place) (w : World) : Prop where
  turns : w.transitionsAt place
    = (List.range (w.transitionsAt place).length).map RootTransition.turn
  due : ∀ iso ∈ w.isolates, iso.id = place.isolate → iso.config.observed = true →
    (0 < iso.storage.localSize place.thread ↔ (w.transitionsAt place).length % 2 = 1)
  below : ∀ e ∈ w.shared.rootEvents.toList, e.isolate.number < w.nextIsolate

namespace TakesTurns

/-- Upkeep tells nobody, and of a new isolate nothing was told. -/
theorem upkeep (ht : TakesTurns place w) (h : Upkeep P w w') : TakesTurns place w' := by
  obtain ⟨heap, hshared⟩ := h.shared
  have hevents : w'.shared.rootEvents = w.shared.rootEvents := by rw [hshared]
  have htrs : w'.transitionsAt place = w.transitionsAt place := by
    rw [transitionsAt, hevents, transitionsAt]
  refine ⟨?_, fun iso' hi hid hobs => ?_, fun e he => ?_⟩
  · rw [htrs]
    exact ht.turns
  · obtain ⟨iso, hoffer, hretains⟩ := h.origin iso' hi
    rw [hretains.id_eq] at hid
    rw [hretains.config_eq] at hobs
    rw [htrs, hretains.storage_eq]
    rcases hoffer with hi | ⟨⟨hge, -⟩, c, hc⟩
    · exact ht.due iso hi hid hobs
    · obtain ⟨persistents, -, he⟩ := Isolate.exists_of_ofConfig? hc
      have hnone : w.transitionsAt place = [] := by
        refine List.map_eq_nil_iff.2 (List.filter_eq_nil_iff.2 fun e he hmatch => ?_)
        have hlt := ht.below e he
        rw [Bool.and_eq_true, beq_iff_eq] at hmatch
        rw [hmatch.1, ← hid] at hlt
        exact absurd hge (Nat.not_le.2 hlt)
      rw [hnone, he]
      exact iff_of_false (Nat.lt_irrefl 0) nofun
  · rw [hevents] at he
    exact Nat.lt_of_lt_of_le (ht.below e he) h.next

section
variable {d : Deed} (hfound : w.isolate? d.isolate.id = some d.isolate)
  (hshared : d.shared = w.shared) (hs : d.isolate.storage.Rooted)
  (hbelow : d.isolate.id.number < w.nextIsolate)
include hfound hshared hs hbelow

/-- A deed at this place takes the next turn, if the observer hears of it. -/
theorem deed_here (ht : TakesTurns ⟨d.isolate.id, d.thread⟩ w) :
    TakesTurns ⟨d.isolate.id, d.thread⟩ (w.put d.outcome.2) := by
  have hlast := ht.due _ (mem_of_isolate? hfound).1 rfl
  have htrs := transitionsAt_put hshared hs ⟨d.isolate.id, d.thread⟩
  by_cases htold : d.transition ≠ .unchanged ∧ d.isolate.config.observed = true
  · obtain ⟨hturn, hnext⟩ := RootTransition.between_eq_turn (hlast htold.2) htold.1
    rw [if_pos ⟨rfl, htold⟩] at htrs
    refine ⟨?_, fun iso hi hid _ => ?_, below_put hshared hs hbelow ht.below⟩
    · rw [htrs, List.length_append, List.length_singleton, List.range_succ, List.map_append,
        ← ht.turns]
      exact congrArg (fun tr => _ ++ [tr]) hturn
    · rw [htrs, List.length_append, eq_outcome_of_mem_put hi hid]
      exact hnext
  · rw [if_neg fun h => htold h.2, List.append_nil] at htrs
    refine ⟨?_, fun iso hi hid hobs => ?_, below_put hshared hs hbelow ht.below⟩
    · rw [htrs]
      exact ht.turns
    · rw [eq_outcome_of_mem_put hi hid, d.config_outcome] at hobs
      have hunchanged : d.transition = .unchanged := by
        by_contra h
        exact htold ⟨h, hobs⟩
      rw [htrs, eq_outcome_of_mem_put hi hid,
        RootTransition.between_eq_unchanged_iff.1 hunchanged]
      exact hlast hobs

/-- A deed of another thread or in another isolate is no turn. -/
theorem deed_elsewhere (ht : TakesTurns place w) (hplace : place ≠ ⟨d.isolate.id, d.thread⟩) :
    TakesTurns place (w.put d.outcome.2) := by
  have htrs := transitionsAt_put hshared hs place
  rw [if_neg fun h => hplace h.1, List.append_nil] at htrs
  refine ⟨?_, fun iso hi hid hobs => ?_, below_put hshared hs hbelow ht.below⟩
  · rw [htrs]
    exact ht.turns
  · rw [htrs]
    rcases mem_put_cases hi with rfl | ⟨hi, -⟩
    · rw [d.id_outcome] at hid
      rw [d.config_outcome] at hobs
      have hne : place.thread ≠ d.thread := by
        intro he
        exact hplace (by rw [hid, ← he])
      rw [Storage.localSize, (d.tells hs).others _ hne, ← Storage.localSize]
      exact ht.due _ (mem_of_isolate? hfound).1 hid hobs
    · exact ht.due iso hi hid hobs

theorem deed (ht : TakesTurns place w) : TakesTurns place (w.put d.outcome.2) := by
  by_cases hplace : place = ⟨d.isolate.id, d.thread⟩
  · subst hplace
    exact ht.deed_here hfound hshared hs hbelow
  · exact ht.deed_elsewhere hfound hshared hs hbelow hplace

end

/-- **The events of a thread in an isolate take turns** in every run. -/
theorem log (ht : TakesTurns place w) (h : Log P w ds w')
    (hs : ∀ iso ∈ w.isolates, iso.storage.Rooted)
    (hw : ∀ iso ∈ w.isolates, iso.id.number < w.nextIsolate) : TakesTurns place w' := by
  induction h with
  | upkeep h => exact ht.upkeep h
  | @deed w d hfound hshared =>
    have hmem := (mem_of_isolate? hfound).1
    exact ht.deed hfound hshared (hs _ hmem) (hw _ hmem)
  | append h₁ _ ih₁ ih₂ => exact ih₂ (ih₁ ht hs hw) (h₁.rooted hs).2 (h₁.lt_next hw).2

end TakesTurns

/-- **Observers are told just what happens.**  After any run, each isolate's counter is the number
of threads that have a local slot there, and a thread without an open scope has none.  The events
are told by the deeds, in order: by each that changed the calling thread's number of local slots
from zero or to zero, in an isolate that is observed, with the number of threads that have slots
after it.  Counting down starts from a positive number, an escape changes nothing of this, and the
events of a thread in an isolate take turns, beginning with an activation. -/
theorem run_root_events (acts : List Act) :
    let w := ({} : World).run acts
    let deeds := ({} : World).history acts
    (∀ iso ∈ w.isolates,
      iso.stats.rootingThreads = {t | 0 < iso.storage.localSize t}.ncard ∧
      ∀ t, (∀ stack, iso.storage.stack? t = some stack → stack.depth = 0) →
        iso.storage.localSize t = 0) ∧
    w.shared.rootEvents.toList = deeds.filterMap (fun d =>
      if d.transition ≠ .unchanged ∧ d.isolate.config.observed = true then
        some ⟨d.isolate.id, d.thread, d.transition,
          {t | 0 < d.outcome.2.1.storage.localSize t}.ncard⟩
      else none) ∧
    (∀ d ∈ deeds, d.transition = .idle → 0 < d.isolate.storage.rootingThreads) ∧
    (∀ d ∈ deeds, ∀ scope l, d.job = .request (.escape scope l) → d.transition = .unchanged) ∧
    ∀ place, ∃ n, w.transitionsAt place = (List.range n).map RootTransition.turn := by
  intro w deeds
  have hlog := ({} : World).log_run acts
  obtain ⟨hdeeds, hisolates⟩ := rooted_run acts
  refine ⟨fun iso hi => ⟨(hisolates iso hi).rootingThreads_eq, fun t ht => ?_⟩, ?_,
    fun d hd hidle => ?_, fun d hd scope l hjob => ?_, fun place => ?_⟩
  · exact (hisolates iso hi).localSize_eq_zero fun stack hs => List.length_eq_zero_iff.1 (ht stack hs)
  · rw [hlog.rootEvents_eq nofun]
    refine List.filterMap_congr fun d hd => ?_
    have hcount := ((d.tells (hdeeds d hd)).rooted).rootingThreads_eq
    rw [← hcount]
    rfl
  · exact (hdeeds d hd).rootingThreads_pos (RootTransition.pos_of_between_eq_idle hidle)
  · obtain ⟨t, j, iso, shared⟩ := d
    obtain rfl : j = .request (.escape scope l) := hjob
    exact (Isolate.tells_escape (hdeeds _ hd) scope l).2
  · have hturns : TakesTurns place ({} : World) := ⟨rfl, nofun, nofun⟩
    exact ⟨_, (hturns.log hlog nofun nofun).turns⟩

end World
end EngineHandles
