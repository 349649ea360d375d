/-
# The gate of an isolate

An isolate's lock and the live guards of this lock, the oldest first, are its gate
(`World.gate?`).  All that can happen to a gate is that a thread takes the lock, yields it,
gives up a level or regains what it yielded (`Gate.Step`); every act of a run does one of these
to it, or leaves it alone (`World.gate_act`).

So what every step keeps holds of the gate of every isolate in every run (`World.gate_run`).
-/

import Mathlib.Data.List.Induction
import EngineHandles.Proofs.World.Guards

namespace EngineHandles

/-- The lock of an isolate, and the live guards of this lock, the oldest first. -/
structure Gate where
  lock : Lock := {}
  guards : List Guard := []
deriving DecidableEq, Repr

/-- What an act can do to the gate of the isolate `i`; `fresh` is the name of a guard that the
act makes. -/
inductive Gate.Step (i : IsolateId) (fresh : GuardId) (s : Gate) : Act → Gate → Prop where
  /-- A thread that does not have to wait takes the lock one level deeper. -/
  | taken (t : ThreadKey) (free : s.lock.blocks t = false) :
      Step i fresh s (.lock t i)
        ⟨⟨some t, s.lock.depth + 1, true⟩, s.guards ++ [⟨fresh, t, i, .locker⟩]⟩
  /-- The owner yields the lock; the guard knows how deep it was. -/
  | yielded (t : ThreadKey) (owner : s.lock.owner = some t) (depth : s.lock.depth ≠ 0) :
      Step i fresh s (.unlock t i) ⟨{ s.lock with owner := none, depth := 0 },
        s.guards ++ [⟨fresh, t, i, .unlocker s.lock.depth⟩]⟩
  /-- An owner that has no level loses the lock when it tries to yield it. -/
  | spent (t : ThreadKey) (owner : s.lock.owner = some t) (depth : s.lock.depth = 0) :
      Step i fresh s (.unlock t i) ⟨{ s.lock with owner := none, depth := 0 }, s.guards⟩
  /-- The guard of a level is dropped. -/
  | released {x : Guard} {pre post : List Guard} (split : s.guards = pre ++ x :: post)
      (before : ∀ y ∈ pre, y.id ≠ x.id) (after : ∀ y ∈ post, y.id ≠ x.id)
      (kind : x.kind = .locker) :
      Step i fresh s (.dropGuard x.id) ⟨s.lock.release x.thread, pre ++ post⟩
  /-- The guard of a yielded lock is dropped by a thread that does not have to wait. -/
  | regained {x : Guard} {pre post : List Guard} {d : UInt32}
      (split : s.guards = pre ++ x :: post) (before : ∀ y ∈ pre, y.id ≠ x.id)
      (after : ∀ y ∈ post, y.id ≠ x.id) (kind : x.kind = .unlocker d)
      (free : s.lock.blocks x.thread = false) :
      Step i fresh s (.dropGuard x.id) ⟨⟨some x.thread, d, true⟩, pre ++ post⟩
  /-- The act is not on this lock, or has to wait, or is refused. -/
  | idle {a : Act} (locks : ∀ t, a = .lock t i → s.lock.blocks t = true)
      (unlocks : ∀ t, a = .unlock t i → s.lock.owner ≠ some t)
      (drops : ∀ x ∈ s.guards, a = .dropGuard x.id →
        (∃ d, x.kind = .unlocker d) ∧ s.lock.blocks x.thread = true) :
      Step i fresh s a s

namespace World

variable {w w' : World} {t : ThreadKey} {i j : IsolateId} {iso iso' : Isolate} {g x : Guard}
  {s s' : Gate} {a : Act}

/-- The live guards of the lock of an isolate, the oldest first. -/
def lockGuards (w : World) (i : IsolateId) : List Guard :=
  (w.guards.filter fun g => g.kind.ofLock).filter fun g => g.isolate == i

/-- The gate of an isolate that somebody refers to. -/
def gate? (w : World) (i : IsolateId) : Option Gate :=
  (w.isolate? i).map fun iso => ⟨iso.lock, w.lockGuards i⟩

theorem gate?_eq_some_iff :
    w.gate? i = some s ↔ ∃ iso, w.isolate? i = some iso ∧ ⟨iso.lock, w.lockGuards i⟩ = s :=
  Option.map_eq_some_iff

theorem mem_lockGuards :
    g ∈ w.lockGuards i ↔ g ∈ w.guards ∧ g.kind.ofLock = true ∧ g.isolate = i := by
  simp only [lockGuards, List.mem_filter, beq_iff_eq, and_assoc]

/-- Work beside the locks leaves every gate alone, unless the isolate ends. -/
theorem Beside.gate? (h : Beside w w') (hs : w'.gate? i = some s) : w.gate? i = some s := by
  obtain ⟨iso', hi', rfl⟩ := gate?_eq_some_iff.1 hs
  obtain ⟨iso, hi, hlock⟩ := h.origin hi'
  refine gate?_eq_some_iff.2 ⟨iso, hi, ?_⟩
  rw [hlock, lockGuards, lockGuards, h.guards]

/-! ### The gate after each part of an act -/

/-- An isolate is written; the guards stay. -/
theorem gate?_setIsolate (iso' : Isolate) (hid : iso'.id = j) (hj : w.isolate? j = some iso) :
    (w.setIsolate iso').gate? i
      = if i = j then some ⟨iso'.lock, w.lockGuards i⟩ else w.gate? i := by
  show ((w.setIsolate iso').isolate? i).map (fun x => Gate.mk x.lock (w.lockGuards i)) = _
  rw [isolate?_setIsolate, Option.map_map, hid]
  by_cases hi : i = j
  · rw [if_pos hi, hi, hj]
    simp
  · simp only [if_neg hi, World.gate?]
    rfl

theorem lockGuards_addGuard (w : World) (t : ThreadKey) (i j : IsolateId) {kind : GuardKind}
    (hk : kind.ofLock = true) : (w.addGuard t j kind).2.lockGuards i
      = if i = j then w.lockGuards i ++ [⟨⟨w.nextGuard⟩, t, j, kind⟩] else w.lockGuards i := by
  have hguards : (w.addGuard t j kind).2.guards = w.guards ++ [⟨⟨w.nextGuard⟩, t, j, kind⟩] := rfl
  rw [lockGuards, hguards, List.filter_append, List.filter_append]
  by_cases hij : i = j
  · simp [hk, hij, lockGuards]
  · simp [hk, hij, lockGuards, Ne.symm hij]

/-- A lock is written, and a guard of it is made. -/
theorem gate?_setLock_addGuard (hj : w.isolate? j = some iso) (lock : Lock) (t : ThreadKey)
    {kind : GuardKind} (hk : kind.ofLock = true) :
    ((w.setIsolate { iso with lock }).addGuard t j kind).2.gate? i
      = if i = j then some ⟨lock, w.lockGuards i ++ [⟨⟨w.nextGuard⟩, t, j, kind⟩]⟩
        else w.gate? i := by
  have hset := gate?_setIsolate (i := i) { iso with lock } (mem_of_isolate? hj).2 hj
  rw [World.gate?] at hset ⊢
  rw [lockGuards_addGuard _ t i j hk]
  show ((w.setIsolate { iso with lock }).isolate? i).map _ = _
  split
  · next hi =>
    rw [if_pos hi] at hset
    obtain ⟨iso', hi', hlock⟩ := Option.map_eq_some_iff.1 hset
    rw [hi', Option.map_some]
    cases hlock
    rfl
  · next hi =>
    rw [if_neg hi] at hset
    exact hset

/-- A guard is let go of. -/
theorem gate?_removeGuard (hs : (w.removeGuard x).gate? i = some s') : ∃ s, w.gate? i = some s ∧
    s' = ⟨s.lock, s.guards.filter fun y => y.id != x.id⟩ := by
  obtain ⟨iso, hi, rfl⟩ := gate?_eq_some_iff.1 hs
  obtain ⟨hguards, -⟩ :=
    reap_frame { w with guards := w.guards.filter fun y => y.id != x.id } x.isolate
  refine ⟨⟨iso.lock, w.lockGuards i⟩, gate?_eq_some_iff.2 ⟨iso, ?_, rfl⟩, ?_⟩
  · rcases isolate?_reap { w with guards := w.guards.filter fun y => y.id != x.id } x.isolate i
      with h | ⟨-, -, h⟩
    · rw [removeGuard, h] at hi
      exact hi
    · rw [removeGuard, h] at hi
      cases hi
  · rw [lockGuards, removeGuard, hguards, lockGuards, List.filter_filter, List.filter_filter,
      List.filter_filter, List.filter_filter]
    congr 1
    refine List.filter_congr fun y _ => ?_
    simp only [Bool.and_comm]

/-- The names of the guards of a lock are their own. -/
theorem Guarded.lockGuards_nodup (hw : w.Guarded) (i : IsolateId) :
    ((w.lockGuards i).map Guard.id).Nodup :=
  hw.ids.sublist ((List.filter_sublist.trans List.filter_sublist).map _)

/-- A guard of another lock has no name that a guard of this lock has. -/
theorem Guarded.filter_lockGuards (hw : w.Guarded) (hx : x ∈ w.guards) (hi : x.isolate ≠ i) :
    ((w.lockGuards i).filter fun y => y.id != x.id) = w.lockGuards i := by
  refine List.filter_eq_self.2 fun y hy => bne_iff_ne.2 fun hid => hi ?_
  obtain ⟨hmem, -, rfl⟩ := mem_lockGuards.1 hy
  have hsame := hw.guard?_of_mem hx
  rw [← hid, hw.guard?_of_mem hmem] at hsame
  rw [Option.some.inj hsame]

/-- Where an isolate is found among those that there were and one more. -/
theorem isolate?_concat (h : w'.isolates = w.isolates ++ [iso]) (j : IsolateId) :
    w'.isolate? j = (w.isolate? j).or (if iso.id = j then some iso else none) := by
  rw [isolate?, h, List.find?_append, List.find?_singleton, isolate?]
  simp

/-- A new isolate has a fresh gate; the other gates stay. -/
theorem gate?_newIsolate (hw : w.Guarded) {c : IsolateConfig}
    (hs : (w.newIsolate c).2.gate? i = some s) :
    w.gate? i = some s ∨ w.gate? i = none ∧ i.number = w.nextIsolate ∧ s = {} := by
  rcases w.newIsolate_cases c with hn | ⟨iso, hc, hn⟩
  · rw [hn] at hs
    exact .inl hs
  · obtain ⟨iso', hi', rfl⟩ := gate?_eq_some_iff.1 hs
    have hguards : (w.newIsolate c).2.lockGuards i = w.lockGuards i := by
      rw [hn]
      rfl
    have hlist : (w.newIsolate c).2.isolates = w.isolates ++ [iso] := by rw [hn]
    rw [hguards]
    rw [isolate?_concat hlist] at hi'
    cases hold : w.isolate? i with
    | some y =>
      rw [hold] at hi'
      cases hi'
      exact .inl (gate?_eq_some_iff.2 ⟨iso', hold, rfl⟩)
    | none =>
      rw [hold, Option.none_or, Option.ite_none_right_eq_some] at hi'
      obtain ⟨hi, he⟩ := hi'
      cases he
      obtain ⟨hid, -, -⟩ := Isolate.ofConfig?_eq_ok hc
      refine .inr ⟨by rw [World.gate?, hold, Option.map_none], ?_, ?_⟩
      · rw [← hi, hid]
      · have hnone : w.lockGuards i = [] := by
          refine List.eq_nil_iff_forall_not_mem.2 fun g hg => ?_
          obtain ⟨hmem, -, rfl⟩ := mem_lockGuards.1 hg
          have hfound := hw.found g hmem
          rw [hold] at hfound
          cases hfound
        rw [Isolate.lock_of_ofConfig? hc, hnone]

/-- A lock is written, and a guard of it is let go of. -/
theorem gate?_setLock_removeGuard (hw : w.Guarded) (hx : x ∈ w.guards)
    (hk : x.kind.ofLock = true) (hj : w.isolate? x.isolate = some iso) (lock : Lock)
    (hs : ((w.setIsolate { iso with lock }).removeGuard x).gate? i = some s') :
    (x.isolate ≠ i ∧ w.gate? i = some s') ∨ x.isolate = i ∧ ∃ pre post,
      w.gate? i = some ⟨iso.lock, pre ++ x :: post⟩ ∧ (∀ y ∈ pre, y.id ≠ x.id) ∧
      (∀ y ∈ post, y.id ≠ x.id) ∧ s' = ⟨lock, pre ++ post⟩ := by
  obtain ⟨s, hset, rfl⟩ := gate?_removeGuard hs
  rw [gate?_setIsolate { iso with lock } (mem_of_isolate? hj).2 hj] at hset
  by_cases hi : i = x.isolate
  · subst hi
    rw [if_pos rfl] at hset
    cases hset
    have hnodup := hw.lockGuards_nodup x.isolate
    have hfind := Keyed.find?_of_mem hnodup (mem_lockGuards.2 ⟨hx, hk, rfl⟩) rfl
    obtain ⟨pre, post, hsplit, -, hpre, hpost⟩ := Keyed.exists_split hnodup hfind
    refine .inr ⟨rfl, pre, post, ?_, hpre, hpost, ?_⟩
    · exact gate?_eq_some_iff.2 ⟨iso, hj, by rw [hsplit]⟩
    · rw [hsplit, Keyed.filter_split Guard.id rfl hpre hpost]
  · rw [if_neg hi] at hset
    refine .inl ⟨Ne.symm hi, ?_⟩
    obtain ⟨iso', -, rfl⟩ := gate?_eq_some_iff.1 hset
    rw [hw.filter_lockGuards hx (Ne.symm hi)]
    exact hset

/-! ### The acts on a lock -/

/-- Taking a lock has to wait for another thread. -/
theorem lock?_of_blocks (hi : w.isolate? i = some iso) (h : iso.lock.blocks t = true) :
    w.lock? t i = none := by
  simp [lock?, hi, Lock.acquire?_of_blocks h]

/-- Taking a lock that no other thread owns. -/
theorem lock?_of_free (hi : w.isolate? i = some iso) (h : iso.lock.blocks t = false) :
    w.lock? t i = some ((w.setIsolate
      { iso with lock := ⟨some t, iso.lock.depth + 1, true⟩ }).addGuard t i .locker) := by
  simp [lock?, hi, Lock.acquire?_eq_some_iff.2 ⟨h, rfl⟩]

theorem act_lock_cases (w : World) (t : ThreadKey) (i : IsolateId) :
    w.act (.lock t i) = w ∧ (∀ iso, w.isolate? i = some iso → iso.lock.blocks t = true) ∨
      ∃ iso, w.isolate? i = some iso ∧ iso.lock.blocks t = false ∧
        w.act (.lock t i) = ((w.setIsolate
          { iso with lock := ⟨some t, iso.lock.depth + 1, true⟩ }).addGuard t i .locker).2 := by
  have hact : w.act (.lock t i) = w.orStay (w.lock? t i) := rfl
  cases hi : w.isolate? i with
  | none =>
    have hnone : w.lock? t i = none := by rw [lock?, hi]
    rw [hact, hnone]
    exact .inl ⟨rfl, nofun⟩
  | some iso =>
    cases hblocks : iso.lock.blocks t with
    | true =>
      rw [hact, lock?_of_blocks hi hblocks]
      exact .inl ⟨rfl, fun iso' hi' => Option.some.inj hi' ▸ hblocks⟩
    | false =>
      rw [hact, lock?_of_free hi hblocks]
      exact .inr ⟨iso, rfl, hblocks, rfl⟩

/-- Yielding a lock that the thread owns. -/
theorem unlock?_of_owner (hi : w.isolate? i = some iso) (ho : iso.lock.owner = some t)
    (hd : iso.lock.depth ≠ 0) : w.unlock? t i = some (.ok ⟨w.nextGuard⟩, ((w.setIsolate
      { iso with lock := { iso.lock with owner := none, depth := 0 } }).addGuard t i
        (.unlocker iso.lock.depth)).2) := by
  have hyield : iso.yieldLock t w.shared = (.ok iso.lock.depth,
      { iso with lock := { iso.lock with owner := none, depth := 0 } }, w.shared) := by
    rw [Isolate.yieldLock, Lock.yield_of_owner ho]
    exact if_neg hd
  simp only [unlock?, perform?, hi, hyield]
  rfl

/-- Yielding a lock of which the thread has no level fails, and leaves the thread without it. -/
theorem unlock?_of_levels (hi : w.isolate? i = some iso)
    (h : iso.lock.owner = some t → iso.lock.depth = 0) :
    w.unlock? t i = some (.error (.usage (.notLocked i)),
      w.put (Isolate.fail { iso with lock := (iso.lock.yield t).2 } .unlock
        (.usage (.notLocked i)) w.shared)) := by
  obtain ⟨-, rfl⟩ := mem_of_isolate? hi
  have hnone : (iso.lock.yield t).1 = 0 := by
    by_cases ho : iso.lock.owner = some t
    · rw [Lock.yield_of_owner ho, h ho]
    · rw [Lock.yield_of_ne ho]
  have hyield : iso.yieldLock t w.shared = (.error (.usage (.notLocked iso.id)),
      Isolate.fail { iso with lock := (iso.lock.yield t).2 } .unlock
        (.usage (.notLocked iso.id)) w.shared) := by
    rw [Isolate.yieldLock]
    exact if_pos hnone
  simp only [unlock?, perform?, hi, hyield]
  rfl

theorem act_unlock_cases (w : World) (t : ThreadKey) (i : IsolateId) :
    w.act (.unlock t i) = w ∧ w.isolate? i = none ∨
      (∃ iso, w.isolate? i = some iso ∧ iso.lock.owner = some t ∧ iso.lock.depth ≠ 0 ∧
        w.act (.unlock t i) = ((w.setIsolate
          { iso with lock := { iso.lock with owner := none, depth := 0 } }).addGuard t i
            (.unlocker iso.lock.depth)).2) ∨
      ∃ iso, w.isolate? i = some iso ∧ (iso.lock.owner = some t → iso.lock.depth = 0) ∧
        ∃ r, r.1.id = i ∧ r.1.lock = (iso.lock.yield t).2 ∧
          w.act (.unlock t i) = w.put r := by
  have hact : w.act (.unlock t i) = w.orStay (w.unlock? t i) := rfl
  cases hi : w.isolate? i with
  | none =>
    have hnone : w.unlock? t i = none := by rw [unlock?, perform?, hi]
    rw [hact, hnone]
    exact .inl ⟨rfl, rfl⟩
  | some iso =>
    by_cases hyields : iso.lock.owner = some t ∧ iso.lock.depth ≠ 0
    · rw [hact, unlock?_of_owner hi hyields.1 hyields.2]
      exact .inr (.inl ⟨iso, rfl, hyields.1, hyields.2, rfl⟩)
    · have hzero : iso.lock.owner = some t → iso.lock.depth = 0 := by
        intro ho
        by_contra hd
        exact hyields ⟨ho, hd⟩
      rw [hact, unlock?_of_levels hi hzero]
      exact .inr (.inr ⟨iso, rfl, hzero, _, (mem_of_isolate? hi).2, rfl, rfl⟩)

/-- Dropping the guard of a yielded lock has to wait for another thread. -/
theorem dropGuard?_of_blocks {d : UInt32} (hk : x.kind = .unlocker d)
    (hi : w.isolate? x.isolate = some iso) (h : iso.lock.blocks x.thread = true) :
    w.dropGuard? x = none := by
  simp [dropGuard?, undo?, hk, hi, Lock.regain?_of_blocks h]

/-- Dropping the guard of a yielded lock gives the lock back. -/
theorem dropGuard?_of_free {d : UInt32} (hk : x.kind = .unlocker d)
    (hi : w.isolate? x.isolate = some iso) (h : iso.lock.blocks x.thread = false) :
    w.dropGuard? x = some ((w.setIsolate
      { iso with lock := ⟨some x.thread, d, true⟩ }).removeGuard x) := by
  simp [dropGuard?, undo?, hk, hi, Lock.regain?_eq_some_iff.2 ⟨h, rfl⟩]

/-- Dropping the guard of a level gives it up. -/
theorem dropGuard?_of_locker (hk : x.kind = .locker) (hi : w.isolate? x.isolate = some iso) :
    w.dropGuard? x = some ((w.setIsolate
      { iso with lock := iso.lock.release x.thread }).removeGuard x) := by
  simp [dropGuard?, undo?, hk, hi]

theorem act_dropGuard_cases (hw : w.Guarded) (hx : x ∈ w.guards) (hk : x.kind.ofLock = true) :
    ∃ iso, w.isolate? x.isolate = some iso ∧
      (w.act (.dropGuard x.id) = w ∧ (∃ d, x.kind = .unlocker d) ∧
          iso.lock.blocks x.thread = true ∨
        ∃ lock, (x.kind = .locker ∧ lock = iso.lock.release x.thread ∨
            ∃ d, x.kind = .unlocker d ∧ iso.lock.blocks x.thread = false ∧
              lock = ⟨some x.thread, d, true⟩) ∧
          w.act (.dropGuard x.id) = (w.setIsolate { iso with lock }).removeGuard x) := by
  obtain ⟨iso, hi⟩ := Option.isSome_iff_exists.1 (hw.found x hx)
  have hact : w.act (.dropGuard x.id) = (w.dropGuard? x).getD w := by
    rw [World.act, hw.guard?_of_mem hx, Option.bind_some]
  refine ⟨iso, hi, ?_⟩
  rw [hact]
  cases hkind : x.kind with
  | entered | scope => simp [hkind, GuardKind.ofLock] at hk
  | locker =>
    rw [dropGuard?_of_locker hkind hi]
    exact .inr ⟨_, .inl ⟨rfl, rfl⟩, rfl⟩
  | unlocker d =>
    cases hblocks : iso.lock.blocks x.thread with
    | true =>
      rw [dropGuard?_of_blocks hkind hi hblocks]
      exact .inl ⟨rfl, ⟨d, rfl⟩, rfl⟩
    | false =>
      rw [dropGuard?_of_free hkind hi hblocks]
      exact .inr ⟨_, .inr ⟨d, rfl, rfl, rfl⟩, rfl⟩

/-! ### What an act does to a gate -/

/-- Taking the lock of an isolate. -/
theorem gate_lock (hs : (w.act (.lock t j)).gate? i = some s') :
    ∃ s, w.gate? i = some s ∧ s.Step i ⟨w.nextGuard⟩ (.lock t j) s' := by
  have hidle : ∀ {s : Gate}, (j = i → s.lock.blocks t = true) →
      s.Step i ⟨w.nextGuard⟩ (.lock t j) s := by
    intro s hblocks
    refine .idle (fun u hu => ?_) nofun nofun
    cases hu
    exact hblocks rfl
  rcases w.act_lock_cases t j with ⟨hact, hblocks⟩ | ⟨iso, hj, hfree, hact⟩
  · rw [hact] at hs
    refine ⟨s', hs, hidle fun hij => ?_⟩
    obtain ⟨iso, hi, rfl⟩ := gate?_eq_some_iff.1 hs
    exact hblocks iso (hij ▸ hi)
  · rw [hact, gate?_setLock_addGuard hj _ t rfl] at hs
    by_cases hi : i = j
    · subst hi
      rw [if_pos rfl] at hs
      cases hs
      exact ⟨_, gate?_eq_some_iff.2 ⟨iso, hj, rfl⟩, .taken t hfree⟩
    · rw [if_neg hi] at hs
      exact ⟨s', hs, hidle fun h => absurd h.symm hi⟩

/-- Yielding the lock of an isolate. -/
theorem gate_unlock (hs : (w.act (.unlock t j)).gate? i = some s') :
    ∃ s, w.gate? i = some s ∧ s.Step i ⟨w.nextGuard⟩ (.unlock t j) s' := by
  have hidle : ∀ {s : Gate}, (j = i → s.lock.owner ≠ some t) →
      s.Step i ⟨w.nextGuard⟩ (.unlock t j) s := by
    intro s howner
    refine .idle nofun (fun u hu => ?_) nofun
    cases hu
    exact howner rfl
  rcases w.act_unlock_cases t j with ⟨hact, hj⟩ | ⟨iso, hj, ho, hd, hact⟩ |
    ⟨iso, hj, hzero, ⟨iso', shared⟩, hid, hlock, hact⟩
  · rw [hact] at hs
    refine ⟨s', hs, hidle fun hij => ?_⟩
    obtain ⟨iso, hi, -⟩ := gate?_eq_some_iff.1 hs
    cases hj.symm.trans (hij ▸ hi)
  · rw [hact, gate?_setLock_addGuard hj _ t rfl] at hs
    by_cases hi : i = j
    · subst hi
      rw [if_pos rfl] at hs
      cases hs
      exact ⟨_, gate?_eq_some_iff.2 ⟨iso, hj, rfl⟩, .yielded t ho hd⟩
    · rw [if_neg hi] at hs
      exact ⟨s', hs, hidle fun h => absurd h.symm hi⟩
  · have hset := gate?_setIsolate (i := i) iso' hid hj
    rw [hact] at hs
    change (w.setIsolate iso').gate? i = some s' at hs
    rw [hset] at hs
    by_cases hi : i = j
    · subst hi
      have hlock : iso'.lock = (iso.lock.yield t).2 := hlock
      rw [if_pos rfl, hlock] at hs
      cases hs
      refine ⟨_, gate?_eq_some_iff.2 ⟨iso, hj, rfl⟩, ?_⟩
      by_cases ho : iso.lock.owner = some t
      · rw [Lock.yield_of_owner ho]
        exact Gate.Step.spent t ho (hzero ho)
      · rw [Lock.yield_of_ne ho]
        exact hidle fun _ => ho
    · rw [if_neg hi] at hs
      exact ⟨s', hs, hidle fun h => absurd h.symm hi⟩

/-- Dropping a guard of a lock. -/
theorem gate_dropGuard (hw : w.Guarded) (hx : x ∈ w.guards) (hk : x.kind.ofLock = true)
    (hs : (w.act (.dropGuard x.id)).gate? i = some s') :
    ∃ s, w.gate? i = some s ∧ s.Step i ⟨w.nextGuard⟩ (.dropGuard x.id) s' := by
  have hsame : ∀ y ∈ w.lockGuards i, Act.dropGuard x.id = .dropGuard y.id → y = x := by
    intro y hy he
    have hfind := hw.guard?_of_mem hx
    rw [Act.dropGuard.inj he, hw.guard?_of_mem (mem_lockGuards.1 hy).1] at hfind
    exact Option.some.inj hfind
  have hidle : ∀ iso, w.isolate? i = some iso →
      (x.isolate = i → (∃ d, x.kind = .unlocker d) ∧ iso.lock.blocks x.thread = true) →
      Gate.Step i ⟨w.nextGuard⟩ ⟨iso.lock, w.lockGuards i⟩ (.dropGuard x.id)
        ⟨iso.lock, w.lockGuards i⟩ := by
    intro iso _ hwaits
    refine .idle nofun nofun fun y hy he => ?_
    obtain rfl := hsame y hy he
    exact hwaits (mem_lockGuards.1 hy).2.2
  obtain ⟨iso, hj, ⟨hact, hwaits⟩ | ⟨lock, hlock, hact⟩⟩ := act_dropGuard_cases hw hx hk
  · rw [hact] at hs
    obtain ⟨iso', hi, rfl⟩ := gate?_eq_some_iff.1 hs
    refine ⟨_, hs, hidle iso' hi fun h => ?_⟩
    subst h
    obtain rfl := Option.some.inj (hj.symm.trans hi)
    exact hwaits
  · rw [hact] at hs
    rcases gate?_setLock_removeGuard hw hx hk hj lock hs with
      ⟨hne, hgate⟩ | ⟨-, pre, post, hgate, hpre, hpost, rfl⟩
    · obtain ⟨iso', hi, rfl⟩ := gate?_eq_some_iff.1 hgate
      exact ⟨_, hgate, hidle iso' hi fun h => absurd h hne⟩
    · refine ⟨_, hgate, ?_⟩
      rcases hlock with ⟨hkind, rfl⟩ | ⟨d, hkind, hfree, rfl⟩
      · exact .released rfl hpre hpost hkind
      · exact .regained rfl hpre hpost hkind hfree

/-- What an act is for the locks. -/
theorem Guarded.act_cases (hw : w.Guarded) (a : Act) :
    (∃ c, a = .newIsolate c) ∨ (∃ t j, a = .lock t j) ∨ (∃ t j, a = .unlock t j) ∨
      (∃ x ∈ w.guards, x.kind.ofLock = true ∧ a = .dropGuard x.id) ∨
      Beside w (w.act a) ∧ (∀ t j, a ≠ .lock t j) ∧ (∀ t j, a ≠ .unlock t j) ∧
        ∀ x ∈ w.guards, x.kind.ofLock = true → a ≠ .dropGuard x.id := by
  by_cases hnew : ∃ c, a = .newIsolate c
  · exact .inl hnew
  by_cases hlock : ∃ t j, a = .lock t j
  · exact .inr (.inl hlock)
  by_cases hunlock : ∃ t j, a = .unlock t j
  · exact .inr (.inr (.inl hunlock))
  by_cases hdrop : ∃ x ∈ w.guards, x.kind.ofLock = true ∧ a = .dropGuard x.id
  · exact .inr (.inr (.inr (.inl hdrop)))
  have hne : ∀ x ∈ w.guards, x.kind.ofLock = true → a ≠ .dropGuard x.id :=
    fun x hx hk ha => hdrop ⟨x, hx, hk, ha⟩
  have hlock' : ∀ t j, a ≠ .lock t j := fun t j ha => hlock ⟨t, j, ha⟩
  have hunlock' : ∀ t j, a ≠ .unlock t j := fun t j ha => hunlock ⟨t, j, ha⟩
  refine .inr (.inr (.inr (.inr ⟨.act hw (fun c hc => hnew ⟨c, hc⟩) hlock' hunlock' ?_,
    hlock', hunlock', hne⟩)))
  intro id x ha hx
  obtain ⟨hmem, rfl⟩ := mem_of_guard? hx
  cases hk : x.kind.ofLock with
  | false => rfl
  | true => exact absurd ha (hne x hmem hk)

/-- **Every act** does to a gate one of the things that can happen to it, unless it makes the
isolate. -/
theorem gate_act (hw : w.Guarded) (hs : (w.act a).gate? i = some s') :
    (∃ s, w.gate? i = some s ∧ s.Step i ⟨w.nextGuard⟩ a s') ∨
      w.gate? i = none ∧ i.number = w.nextIsolate ∧ s' = {} := by
  rcases hw.act_cases a with ⟨c, rfl⟩ | ⟨t, j, rfl⟩ | ⟨t, j, rfl⟩ | ⟨x, hx, hk, rfl⟩ |
    ⟨hbeside, hlock, hunlock, hdrop⟩
  · refine (gate?_newIsolate hw hs).imp_left fun hold => ⟨s', hold, ?_⟩
    exact .idle nofun nofun nofun
  · exact .inl (gate_lock hs)
  · exact .inl (gate_unlock hs)
  · exact .inl (gate_dropGuard hw hx hk hs)
  · have hgate := hbeside.gate? hs
    refine .inl ⟨s', hgate, .idle (fun t ha => absurd ha (hlock t i))
      (fun t ha => absurd ha (hunlock t i)) fun x hx ha => ?_⟩
    obtain ⟨iso, -, rfl⟩ := gate?_eq_some_iff.1 hgate
    obtain ⟨hmem, hk, -⟩ := mem_lockGuards.1 hx
    exact absurd ha (hdrop x hmem hk)

/-! ### Runs -/

/-- A later world: no name of a guard or of an isolate is used again. -/
structure Onward (w w' : World) : Prop where
  guarded : w'.Guarded
  nextGuard : w.nextGuard ≤ w'.nextGuard
  nextIsolate : w.nextIsolate ≤ w'.nextIsolate

theorem Beside.onward (h : Beside w w') : Onward w w' := ⟨h.guarded, h.fresh, h.next.ge⟩

namespace Onward

theorem newIsolate (hw : w.Guarded) (c : IsolateConfig) : Onward w (w.newIsolate c).2 := by
  rcases w.newIsolate_cases c with hn | ⟨iso, -, hn⟩
  · rw [hn]
    exact ⟨hw, Nat.le_refl _, Nat.le_refl _⟩
  · rw [hn]
    refine ⟨⟨hw.ids, hw.below, fun g hg => ?_⟩, Nat.le_refl _, Nat.le_succ _⟩
    rw [isolate?_concat rfl, Option.isSome_or, hw.found g hg, Bool.true_or]

/-- A lock is written, and a guard of it is made. -/
theorem setLock_addGuard (hw : w.Guarded) (hi : w.isolate? i = some iso) (lock : Lock)
    (t : ThreadKey) (kind : GuardKind) :
    Onward w ((w.setIsolate { iso with lock }).addGuard t i kind).2 := by
  refine ⟨(hw.setIsolate _).addGuard ?_ t kind, Nat.le_succ _, Nat.le_refl _⟩
  rw [isolate?_setIsolate, Option.isSome_map, hi]
  rfl

/-- **No act** uses a name again. -/
theorem act (hw : w.Guarded) (a : Act) : Onward w (w.act a) := by
  rcases hw.act_cases a with ⟨c, rfl⟩ | ⟨t, j, rfl⟩ | ⟨t, j, rfl⟩ | ⟨x, hx, hk, rfl⟩ | ⟨h, -⟩
  · exact newIsolate hw c
  · rcases w.act_lock_cases t j with ⟨hact, -⟩ | ⟨iso, hj, -, hact⟩
    · rw [hact]
      exact (Beside.refl hw).onward
    · rw [hact]
      exact setLock_addGuard hw hj _ t _
  · rcases w.act_unlock_cases t j with ⟨hact, -⟩ | ⟨iso, hj, -, -, hact⟩ |
      ⟨iso, -, -, r, -, -, hact⟩
    · rw [hact]
      exact (Beside.refl hw).onward
    · rw [hact]
      exact setLock_addGuard hw hj _ t _
    · rw [hact]
      exact ⟨(hw.setIsolate r.1).of_eq rfl rfl fun _ _ => rfl, Nat.le_refl _, Nat.le_refl _⟩
  · obtain ⟨iso, hj, ⟨hact, -⟩ | ⟨lock, -, hact⟩⟩ := act_dropGuard_cases hw hx hk
    · rw [hact]
      exact (Beside.refl hw).onward
    · rw [hact]
      obtain ⟨-, hguard, hisolate⟩ := reap_frame { w.setIsolate { iso with lock } with
        guards := w.guards.filter fun y => y.id != x.id } x.isolate
      exact ⟨(hw.setIsolate _).removeGuard x, hguard.ge, hisolate.ge⟩
  · exact h.onward

theorem run (hw : w.Guarded) (acts : List Act) : Onward w (w.run acts) := by
  induction acts generalizing w with
  | nil => exact (Beside.refl hw).onward
  | cons a rest ih =>
    have hact := act hw a
    have hrest := ih hact.guarded
    exact ⟨hrest.guarded, hact.nextGuard.trans hrest.nextGuard,
      hact.nextIsolate.trans hrest.nextIsolate⟩

end Onward

/-- **What every step keeps** holds of a gate after every run: it holds at the start, or when
the isolate is made, and whatever can happen to the gate preserves it. -/
theorem gate_run {P : List Act → Gate → Prop} (hw : w.Guarded)
    (start : ∀ s, w.gate? i = some s → P [] s)
    (made : ∀ before a, (w.run before).nextIsolate = i.number → P (before ++ [a]) {})
    (step : ∀ before a s s', (w.run before).gate? i = some s → P before s →
      s.Step i ⟨(w.run before).nextGuard⟩ a s' → P (before ++ [a]) s')
    (acts : List Act) (hs : (w.run acts).gate? i = some s) : P acts s := by
  induction acts using List.reverseRecOn generalizing s with
  | nil => exact start s hs
  | append_singleton before a ih =>
    have hbefore := (Onward.run hw before).guarded
    rw [run_append] at hs
    rcases gate_act hbefore hs with ⟨s₀, hs₀, hstep⟩ | ⟨-, hi, rfl⟩
    · exact step before a s₀ s hs₀ (ih hs₀) hstep
    · exact made before a hi.symm

end World
end EngineHandles
