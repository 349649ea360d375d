/-
# Failures in every run

In every state that a run reaches, an operation that fails leaves a world in which the failure was
signalled (`World.signalled`), and nothing else is different: no stack, no slot, no persistent
handle, no tally, no registry and no list of enters (`World.run_failures`).
-/

import EngineHandles.Proofs.Isolate.Atomic
import EngineHandles.Proofs.World.Rooting

namespace EngineHandles
namespace World

variable {w w' : World} {i : IsolateId} {iso : Isolate} {site : Site} {e : HandleError}

/-- The world after a failure in an isolate that was signalled.  The isolate is marked, unless the
error is that the engine is dead, and the host has a signal more; all else is what it was. -/
def signalled (w : World) (i : IsolateId) (site : Site) (e : HandleError) : World :=
  { w with
    isolates := w.isolates.map fun iso =>
      if iso.id = i then { iso with failed := iso.failed || e != .engineDead } else iso
    shared := { w.shared with signals := w.shared.signals.push ⟨i, site, e⟩ } }

theorem put_fail (hw : w.WellFormed) (hi : w.isolate? i = some iso) (site : Site)
    (e : HandleError) : w.put (iso.fail site e w.shared) = w.signalled i site e := by
  obtain ⟨-, rfl⟩ := mem_of_isolate? hi
  have hisolates : (w.isolates.map fun j => if j.id = iso.id then (iso.fail site e w.shared).1 else j)
      = w.isolates.map fun j =>
        if j.id = iso.id then { j with failed := j.failed || e != .engineDead } else j := by
    refine List.map_congr_left fun j hj => ?_
    split
    · next hid =>
      obtain rfl := Option.some.inj (hi.symm.trans (hw.isolate?_of_mem hj hid))
      rfl
    · rfl
  exact congrArg (fun isolates =>
    { w with isolates, shared := (iso.fail site e w.shared).2 }) hisolates

/-- An operation that is refused, done on an isolate of the world. -/
theorem signalled_of_refused {α : Type} {op : Isolate.Operation (Except HandleError α)}
    (hw : w.WellFormed)
    (hop : ∀ iso, w.isolate? i = some iso → (op iso w.shared).1 = .error e →
      iso.Refused w.shared (op iso w.shared))
    (hp : w.perform? i op = some (.error e, w')) : ∃ site, w' = w.signalled i site e := by
  obtain ⟨iso, hi, he, rfl⟩ := perform?_eq_some_iff.1 hp
  obtain ⟨site, e', hr⟩ := hop iso hi he.symm
  rw [hr] at he ⊢
  cases he
  exact ⟨site, put_fail hw hi site e⟩

/-- **Failures change nothing but the record,** in every state that a run reaches.  If a request
of any thread to any isolate fails, whatever the reason, or making a local without a look at the
frontier, or leaving, then the isolate may be marked and the host has its signal, and all else is
what it was.  Of escapes this is said as long as the ids of scopes, which have to be different
ones, are not exhausted. -/
theorem run_failures (acts : List Act) :
    let w := ({} : World).run acts
    (∀ t i r e w', (∀ scope l, r = .escape scope l → ({} : World).opened acts ≤ 2 ^ 64) →
      w.perform? i (Request.serve r t) = some (.error e, w') →
        ∃ site, w' = w.signalled i site e) ∧
    (∀ t i o e w', w.perform? i (fun iso shared => iso.createLocal t o shared)
        = some (.error e, w') → ∃ site, w' = w.signalled i site e) ∧
    ∀ t i e w', w.exit? t i = some (.error e, w') → ∃ site, w' = w.signalled i site e := by
  intro w
  have hw : w.WellFormed := wellFormed_init.run acts
  have hrooted := rooted_run acts
  have hids : ({} : World).opened acts ≤ 2 ^ 64 → ∀ iso ∈ w.isolates, ∀ t stack,
      iso.storage.stack? t = some stack → ∃ c L, stack.Shows c L ∧ L.ids.Nodup := by
    intro hopened iso hi t stack ht
    obtain ⟨homes, -, hs, -⟩ := housed_init.run acts (by rwa [List.length_nil, Nat.zero_add])
    obtain ⟨c, L, hshows, hnd, -⟩ := hs.of_stack? hi stack ht
    exact ⟨c, L, hshows, hnd⟩
  refine ⟨fun t i r e w' hescape hp => ?_, fun t i o e w' hp => ?_, fun t i e w' hp => ?_⟩
  · refine signalled_of_refused hw (fun iso hi he => ?_) hp
    have hmem := (mem_of_isolate? hi).1
    refine Request.refused_of_error (hrooted.2 iso hmem) (fun scope l hr stack ht => ?_) he
    exact hids (hescape scope l hr) iso hmem t stack ht
  · refine signalled_of_refused hw (fun iso hi he => ?_) hp
    rw [Isolate.createLocal_eq] at he ⊢
    have hadd := Isolate.Outcome.map_eq_error_iff.1 he
    exact (Isolate.refused_addLocalTo (hrooted.2 iso (mem_of_isolate? hi).1) hadd).map _
  · have hperform : w.perform? i (fun iso shared => iso.exit t shared) = some (.error e, w') := by
      unfold exit? at hp
      split at hp
      · cases hp
      · next hperform =>
        cases hp
        exact hperform
      · cases hp
    exact signalled_of_refused hw (fun iso _ he => Isolate.refused_exit he) hperform

/-- After this run the only slot of a thread's arena is taken, in its only scope. -/
def arenaFull : List Act :=
  [.make ⟨.unit, []⟩,
    .newIsolate { locals := ⟨1, 1⟩ },
    .enter ⟨0⟩ ⟨1⟩,
    .request ⟨0⟩ ⟨1⟩ .openScope,
    .request ⟨0⟩ ⟨1⟩ (.addLocal none ⟨0⟩)]

/-- There is no room for another local, and no parent to escape to. -/
theorem run_failures_arenaFull :
    let w := ({} : World).run arenaFull
    let escape : Request := .escape ⟨1⟩ ⟨⟨1⟩, ⟨1⟩, .ofCounts 0 0⟩
    (∃ w' site, w.perform? ⟨1⟩ (Request.serve (.addLocal none ⟨0⟩) ⟨0⟩)
        = some (.error (.resourceExhausted 1 1), w') ∧
      w' = w.signalled ⟨1⟩ site (.resourceExhausted 1 1)) ∧
    ({} : World).opened arenaFull ≤ 2 ^ 64 ∧
    ∃ w' site, w.perform? ⟨1⟩ (escape.serve ⟨0⟩)
        = some (.error (.usage (.escapeWithoutParent ⟨1⟩)), w') ∧
      w' = w.signalled ⟨1⟩ site (.usage (.escapeWithoutParent ⟨1⟩)) := by
  intro w escape
  have hopened : ({} : World).opened arenaFull ≤ 2 ^ 64 :=
    (World.opened_le {} arenaFull).trans (by decide)
  have hfails : ∀ (r : Request) (e : HandleError),
      (w.perform? ⟨1⟩ (r.serve ⟨0⟩)).map (fun p => p.1.map fun _ => ()) = some (.error e) →
        ∃ w', w.perform? ⟨1⟩ (r.serve ⟨0⟩) = some (.error e, w') := by
    intro r e h
    obtain ⟨⟨result, w'⟩, hp, he⟩ := Option.map_eq_some_iff.1 h
    cases result with
    | error e' =>
      cases he
      exact ⟨w', hp⟩
    | ok a => cases he
  obtain ⟨w₁, hadd⟩ := hfails (.addLocal none ⟨0⟩) (.resourceExhausted 1 1) (by decide +kernel)
  obtain ⟨w₂, hescape⟩ := hfails escape (.usage (.escapeWithoutParent ⟨1⟩)) (by decide +kernel)
  obtain ⟨site₁, h₁⟩ :=
    (run_failures arenaFull).1 ⟨0⟩ ⟨1⟩ (.addLocal none ⟨0⟩) _ _ (fun _ _ h => nomatch h) hadd
  obtain ⟨site₂, h₂⟩ := (run_failures arenaFull).1 _ _ _ _ _ (fun _ _ _ => hopened) hescape
  exact ⟨⟨w₁, site₁, hadd, h₁⟩, hopened, w₂, site₂, hescape, h₂⟩

end World
end EngineHandles
