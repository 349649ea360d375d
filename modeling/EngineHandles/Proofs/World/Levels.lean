/-
# Levels that do not run over

The depth of a lock counts levels in 32 bits.  As long as no level is taken at the greatest
depth (`Gate.Room`, `World.Throughout`), a lock is owned just if its depth is not zero, and no
guard gives back a depth of zero (`World.run_sound`).  That takes as many acts as there are
depths: a run of fewer than `2 ^ 32` acts always has room (`World.room_of_length`).
-/

import EngineHandles.Proofs.World.Gate

namespace EngineHandles
namespace Gate

variable {i : IsolateId} {fresh : GuardId} {s s' : Gate} {a : Act} {n : Nat}

/-- Where the guards after a step come from: a new one gives back all levels that there were. -/
theorem Step.origin (h : s.Step i fresh a s') {x : Guard} (hx : x ∈ s'.guards) :
    x ∈ s.guards ∨ x.id = fresh ∧ ∀ d, x.kind = .unlocker d → d = s.lock.depth ∧ d ≠ 0 := by
  cases h with
  | taken t free =>
    refine (List.mem_append.1 hx).imp_right fun hx => ?_
    obtain rfl := List.mem_singleton.1 hx
    exact ⟨rfl, nofun⟩
  | yielded t owner depth =>
    refine (List.mem_append.1 hx).imp_right fun hx => ?_
    obtain rfl := List.mem_singleton.1 hx
    refine ⟨rfl, fun d hd => ?_⟩
    cases hd
    exact ⟨rfl, depth⟩
  | spent t owner depth => exact .inl hx
  | @released y pre post split before after kind =>
    rw [split]
    exact .inl ((List.sublist_cons_self y post).append_left pre |>.mem hx)
  | @regained y pre post d split before after kind free =>
    rw [split]
    exact .inl ((List.sublist_cons_self y post).append_left pre |>.mem hx)
  | idle locks unlocks drops => exact .inl hx

/-- An act that takes no level at the greatest depth. -/
def Room (i : IsolateId) (s : Gate) (a : Act) : Prop :=
  ∀ t, a = .lock t i → s.lock.blocks t = false → s.lock.depth + 1 ≠ 0

/-- A gate whose levels did not run over. -/
structure Sound (s : Gate) : Prop where
  lock : s.lock.Sound
  saved : ∀ x ∈ s.guards, ∀ d, x.kind = .unlocker d → d ≠ 0

theorem Sound.init : Sound {} := ⟨.free false, nofun⟩

/-- **A step with room** keeps the levels from running over. -/
theorem Sound.step (hs : s.Sound) (h : s.Step i fresh a s') (hroom : Room i s a) : s'.Sound := by
  refine ⟨?_, fun x hx d hd => ?_⟩
  · cases h with
    | taken t free => exact .of_owner (hroom t rfl free) t true
    | yielded t owner depth => exact .free _
    | spent t owner depth => exact .free _
    | released split before after kind => exact hs.lock.release _
    | @regained x pre post d split before after kind free =>
      have hx : x ∈ s.guards := split ▸ List.mem_append_cons_self
      exact .of_owner (hs.saved x hx d kind) x.thread true
    | idle locks unlocks drops => exact hs.lock
  · rcases h.origin hx with hold | ⟨-, hnew⟩
    · exact hs.saved x hold d hd
    · exact (hnew d hd).2

/-- A gate with no more than `n` levels, taken or to be given back. -/
structure Within (n : Nat) (s : Gate) : Prop where
  depth : s.lock.depth.toNat ≤ n
  saved : ∀ x ∈ s.guards, ∀ d, x.kind = .unlocker d → d.toNat ≤ n

/-- A step takes no more than one level. -/
theorem Within.step (hs : s.Within n) (h : s.Step i fresh a s') : s'.Within (n + 1) := by
  have hdepth := hs.depth
  refine ⟨?_, fun x hx d hd => ?_⟩
  · cases h with
    | taken t free =>
      have hle : (s.lock.depth + 1).toNat ≤ s.lock.depth.toNat + 1 := by
        rw [UInt32.toNat_add]
        exact Nat.mod_le _ _
      exact hle.trans (Nat.succ_le_succ hdepth)
    | yielded t owner depth => exact Nat.zero_le _
    | spent t owner depth => exact Nat.zero_le _
    | @released x pre post split before after kind =>
      by_cases ho : s.lock.owner = some x.thread
      · have hrelease := Lock.depth_release ho
        show (s.lock.release x.thread).depth.toNat ≤ n + 1
        omega
      · rw [Lock.release_of_ne ho]
        exact Nat.le_succ_of_le hdepth
    | @regained x pre post d split before after kind free =>
      have hx : x ∈ s.guards := split ▸ List.mem_append_cons_self
      exact Nat.le_succ_of_le (hs.saved x hx d kind)
    | idle locks unlocks drops => exact Nat.le_succ_of_le hdepth
  · rcases h.origin hx with hold | ⟨-, hnew⟩
    · exact Nat.le_succ_of_le (hs.saved x hold d hd)
    · obtain ⟨rfl, -⟩ := hnew d hd
      exact Nat.le_succ_of_le hdepth

end Gate

namespace World

variable {w : World} {i : IsolateId} {s : Gate} {P : Gate → Act → Prop}

/-- Each act of a run is as it should be at the gate of an isolate that it meets. -/
def Throughout (w : World) (i : IsolateId) (P : Gate → Act → Prop) : List Act → Prop
  | [] => True
  | a :: rest => (∀ s ∈ w.gate? i, P s a) ∧ (w.act a).Throughout i P rest

/-- Whether each act of a run is as it should be can be computed. -/
instance decidableThroughout [∀ s a, Decidable (P s a)] (w : World) (i : IsolateId) :
    (acts : List Act) → Decidable (w.Throughout i P acts)
  | [] => .isTrue trivial
  | a :: rest =>
    have : Decidable ((w.act a).Throughout i P rest) := decidableThroughout (w.act a) i rest
    inferInstanceAs (Decidable ((∀ s ∈ w.gate? i, P s a) ∧ (w.act a).Throughout i P rest))

theorem throughout_append {acts acts' : List Act} : w.Throughout i P (acts ++ acts') ↔
    w.Throughout i P acts ∧ (w.run acts).Throughout i P acts' := by
  induction acts generalizing w with
  | nil => simp [Throughout, run]
  | cons a rest ih => simp [Throughout, ih, run, and_assoc]

theorem throughout_concat {acts : List Act} {a : Act} : w.Throughout i P (acts ++ [a]) ↔
    w.Throughout i P acts ∧ ∀ s ∈ (w.run acts).gate? i, P s a := by
  simp [throughout_append, Throughout]

/-- **In every run with room,** a lock is owned just if its depth is not zero. -/
theorem run_sound {acts : List Act} (hroom : ({} : World).Throughout i (Gate.Room i) acts)
    (hs : (({} : World).run acts).gate? i = some s) : s.Sound := by
  refine gate_run (P := fun acts s => ({} : World).Throughout i (Gate.Room i) acts → s.Sound)
    Guarded.init nofun (fun _ _ _ _ => .init) ?_ acts hs hroom
  intro before a s s' hgate ih hstep hroom
  obtain ⟨hbefore, ha⟩ := throughout_concat.1 hroom
  exact (ih hbefore).step hstep (ha s hgate)

theorem run_within {acts : List Act} (hs : (({} : World).run acts).gate? i = some s) :
    s.Within acts.length := by
  refine gate_run (P := fun acts s => s.Within acts.length) Guarded.init nofun ?_ ?_ acts hs
  · exact fun _ _ _ => ⟨Nat.zero_le _, nofun⟩
  · intro before a s s' _ ih hstep
    rw [List.length_append]
    exact ih.step hstep

/-- **A run of fewer than `2 ^ 32` acts** has room for all of its levels. -/
theorem room_of_length (i : IsolateId) {acts : List Act} (hlen : acts.length < 2 ^ 32) :
    ({} : World).Throughout i (Gate.Room i) acts := by
  induction acts using List.reverseRecOn with
  | nil => trivial
  | append_singleton before a ih =>
    rw [List.length_append, List.length_singleton] at hlen
    refine throughout_concat.2 ⟨ih (by omega), fun s hs t ha hfree hzero => ?_⟩
    have hdepth := (run_within hs).depth
    have hover : (s.lock.depth + 1).toNat = s.lock.depth.toNat + 1 := by
      rw [UInt32.toNat_add]
      exact Nat.mod_eq_of_lt (by simp; omega)
    rw [hzero] at hover
    simp at hover

end World
end EngineHandles
