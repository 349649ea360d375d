/-
# What a thread has of a lock

To a thread, a lock is its own guards, the newest first, and the levels that it has
(`Gate.share`).  What any thread does to the lock comes down to a few things for this one
(`Share.Turn`, `Gate.Step.turn`): it takes a level, yields what it has, gives up a level or gets
back what it yielded, each under a guard; or what it has stays.
-/

import EngineHandles.Proofs.World.Levels

namespace EngineHandles

/-- The guards of a thread on a lock, the newest first, and its levels. -/
structure Share where
  stack : List Guard := []
  levels : Nat := 0
deriving DecidableEq, Repr

/-- What an act can do to what the thread `t` has of the lock of the isolate `i`. -/
inductive Share.Turn (i : IsolateId) (t : ThreadKey) : Act → Share → Share → Prop where
  /-- The thread takes a level. -/
  | takes {x : Guard} {l : List Guard} {n : Nat} (kind : x.kind = .locker) :
      Turn i t (.lock t i) ⟨l, n⟩ ⟨x :: l, n + 1⟩
  /-- The thread yields the levels that it has. -/
  | yields {x : Guard} {l : List Guard} {d : UInt32} (kind : x.kind = .unlocker d)
      (pos : 0 < d.toNat) : Turn i t (.unlock t i) ⟨l, d.toNat⟩ ⟨x :: l, 0⟩
  /-- The thread gives up a level, if it has one. -/
  | releases {x : Guard} {newer older : List Guard} {n : Nat} (kind : x.kind = .locker)
      (first : ∀ y ∈ newer, y.id ≠ x.id) :
      Turn i t (.dropGuard x.id) ⟨newer ++ x :: older, n⟩ ⟨newer ++ older, n - 1⟩
  /-- The thread gets back what it yielded, in place of what it has. -/
  | regains {x : Guard} {newer older : List Guard} {n : Nat} {d : UInt32}
      (kind : x.kind = .unlocker d) (first : ∀ y ∈ newer, y.id ≠ x.id) :
      Turn i t (.dropGuard x.id) ⟨newer ++ x :: older, n⟩ ⟨newer ++ older, d.toNat⟩
  /-- The act is another thread's, or has to wait, or is refused. -/
  | aside {a : Act} {p : Share}
      (drops : ∀ x ∈ p.stack, a = .dropGuard x.id → p.levels = 0 ∧ ∃ d, x.kind = .unlocker d) :
      Turn i t a p p

namespace Gate

variable {i : IsolateId} {fresh : GuardId} {s s' : Gate} {a : Act} {t : ThreadKey} {x : Guard}
  {l pre post : List Guard}

/-- The guards of a thread, the newest first. -/
def stackOf (t : ThreadKey) (l : List Guard) : List Guard :=
  (l.filter fun x => x.thread == t).reverse

/-- What a thread has of a lock. -/
def share (s : Gate) (t : ThreadKey) : Share := ⟨stackOf t s.guards, s.lock.levels t⟩

theorem mem_stackOf : x ∈ stackOf t l ↔ x ∈ l ∧ x.thread = t := by
  simp [stackOf]

theorem stackOf_append : stackOf t (pre ++ post) = stackOf t post ++ stackOf t pre := by
  simp [stackOf]

theorem stackOf_concat (hx : x.thread = t) : stackOf t (l ++ [x]) = x :: stackOf t l := by
  simp [stackOf, hx]

theorem stackOf_concat_of_ne (hx : x.thread ≠ t) : stackOf t (l ++ [x]) = stackOf t l := by
  simp [stackOf, hx]

theorem stackOf_split (hx : x.thread = t) :
    stackOf t (pre ++ x :: post) = stackOf t post ++ x :: stackOf t pre := by
  simp [stackOf, hx]

theorem stackOf_split_of_ne (hx : x.thread ≠ t) :
    stackOf t (pre ++ x :: post) = stackOf t (pre ++ post) := by
  simp [stackOf, hx]

/-- The guard of a name is the only one. -/
theorem eq_of_id {y : Guard} (before : ∀ y ∈ pre, y.id ≠ x.id) (after : ∀ y ∈ post, y.id ≠ x.id)
    (hy : y ∈ pre ++ x :: post) (hid : y.id = x.id) : y = x := by
  rcases List.mem_append.1 hy with hy | hy
  · exact absurd hid (before y hy)
  · rcases List.mem_cons.1 hy with rfl | hy
    · rfl
    · exact absurd hid (after y hy)

theorem share_eq {n : Nat} (hstack : stackOf t s.guards = l) (hlevels : s.lock.levels t = n) :
    s.share t = ⟨l, n⟩ := by
  rw [share, hstack, hlevels]

theorem turn_of_share {p p' : Share} (h : s.share t = p) (h' : s'.share t = p')
    (hturn : Share.Turn i t a p p') : Share.Turn i t a (s.share t) (s'.share t) := by
  rw [h, h']
  exact hturn

/-- What another thread does leaves what a thread has. -/
theorem turn_of_eq (hstack : stackOf t s'.guards = stackOf t s.guards)
    (hlevels : s'.lock.levels t = s.lock.levels t)
    (hdrop : ∀ x ∈ stackOf t s.guards, a ≠ .dropGuard x.id) :
    Share.Turn i t a (s.share t) (s'.share t) :=
  turn_of_share rfl (share_eq hstack hlevels) (.aside fun x hx ha => absurd ha (hdrop x hx))

/-- Dropping the guard of one thread drops none of another's. -/
theorem dropGuard_ne (split : s.guards = pre ++ x :: post) (before : ∀ y ∈ pre, y.id ≠ x.id)
    (after : ∀ y ∈ post, y.id ≠ x.id) (hx : x.thread ≠ t) :
    ∀ y ∈ stackOf t s.guards, Act.dropGuard x.id ≠ .dropGuard y.id := by
  intro y hy hid
  obtain ⟨hmem, rfl⟩ := mem_stackOf.1 hy
  exact hx (by rw [eq_of_id before after (split ▸ hmem) (Act.dropGuard.inj hid).symm])

/-- **What a step is for a thread,** as long as levels do not run over. -/
theorem Step.turn (h : s.Step i fresh a s') (hs : s.Sound) (hroom : Room i s a)
    (t : ThreadKey) : Share.Turn i t a (s.share t) (s'.share t) := by
  cases h with
  | taken u free =>
    have hdepth := Lock.toNat_succ (hroom u rfl free)
    by_cases hu : u = t
    · subst hu
      have hnew : (Lock.mk (some u) (s.lock.depth + 1) true).levels u
          = s.lock.levels u + 1 := by
        rw [hs.lock.levels_of_free free, ← hdepth]
        exact Lock.levels_of_owner rfl
      exact turn_of_share rfl (share_eq (stackOf_concat rfl) hnew) (.takes rfl)
    · refine turn_of_eq (stackOf_concat_of_ne hu) ?_ nofun
      rw [Lock.levels_of_ne fun ho => hu (Option.some.inj ho), Lock.levels_of_free_ne free hu]
  | yielded u owner depth =>
    have hleft : Lock.levels { s.lock with owner := none, depth := 0 } t = 0 :=
      Lock.levels_of_ne nofun
    by_cases hu : u = t
    · subst hu
      have hlevels := Lock.levels_of_owner owner
      have hpos := hs.lock.levels_pos_iff.2 owner
      exact turn_of_share (share_eq rfl hlevels) (share_eq (stackOf_concat rfl) hleft)
        (.yields rfl (hlevels ▸ hpos))
    · refine turn_of_eq (stackOf_concat_of_ne hu) ?_ nofun
      rw [hleft, Lock.levels_of_ne fun ho => hu (Option.some.inj (owner.symm.trans ho))]
  | spent u owner depth =>
    have hzero := hs.lock.2 depth
    rw [owner] at hzero
    cases hzero
  | @released x pre post split before after kind =>
    by_cases hx : x.thread = t
    · subst hx
      have hold : stackOf x.thread s.guards = _ := split ▸ stackOf_split rfl
      exact turn_of_share (share_eq hold rfl)
        (share_eq stackOf_append (Lock.levels_release s.lock x.thread))
        (.releases kind fun y hy => after y (mem_stackOf.1 hy).1)
    · exact turn_of_eq (split ▸ (stackOf_split_of_ne hx).symm) (Lock.levels_release_ne hx)
        (dropGuard_ne split before after hx)
  | @regained x pre post d split before after kind free =>
    by_cases hx : x.thread = t
    · subst hx
      have hold : stackOf x.thread s.guards = _ := split ▸ stackOf_split rfl
      exact turn_of_share (share_eq hold rfl) (share_eq stackOf_append (Lock.levels_of_owner rfl))
        (.regains kind fun y hy => after y (mem_stackOf.1 hy).1)
    · refine turn_of_eq (split ▸ (stackOf_split_of_ne hx).symm) ?_
        (dropGuard_ne split before after hx)
      rw [Lock.levels_of_ne fun ho => hx (Option.some.inj ho), Lock.levels_of_free_ne free hx]
  | idle locks unlocks drops =>
    refine .aside fun x hx ha => ?_
    obtain ⟨hmem, rfl⟩ := mem_stackOf.1 hx
    obtain ⟨hkind, hblocks⟩ := drops x hmem ha
    exact ⟨Lock.levels_of_blocks hblocks, hkind⟩

end Gate

namespace World

variable {i : IsolateId} {t : ThreadKey} {s : Gate}

/-- **What every turn of a thread keeps** holds of what it has of a lock in every run with
room. -/
theorem share_run {P : List Act → Share → Prop} {acts : List Act}
    (hroom : ({} : World).Throughout i (Gate.Room i) acts)
    (made : ∀ before a, (({} : World).run before).nextIsolate = i.number → P (before ++ [a]) {})
    (turn : ∀ before a s p, before ++ [a] <+: acts → (({} : World).run before).gate? i = some s →
      P before (s.share t) → Share.Turn i t a (s.share t) p → P (before ++ [a]) p)
    (hs : (({} : World).run acts).gate? i = some s) : P acts (s.share t) := by
  refine gate_run (P := fun before s => before <+: acts → P before (s.share t)) Guarded.init nofun
    (fun before a hi _ => made before a hi) ?_ acts hs (List.prefix_refl acts)
  intro before a s s' hgate ih hstep hbefore
  have hroom' : ({} : World).Throughout i (Gate.Room i) (before ++ [a]) := by
    obtain ⟨rest, rfl⟩ := hbefore
    exact (throughout_append.1 hroom).1
  obtain ⟨hroom₁, ha⟩ := throughout_concat.1 hroom'
  exact turn before a s _ hbefore hgate (ih ((List.prefix_append _ _).trans hbefore))
    (hstep.turn (run_sound hroom₁ hgate) (ha s hgate) t)

end World
end EngineHandles
