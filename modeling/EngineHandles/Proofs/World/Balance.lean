/-
# The balance of a thread's levels

A thread that drops its guards of a lock in any order may be left with levels that no guard
stands for, or without levels that a guard does stand for.  Two things can go wrong, and both
are counted: dropping the guard of a level gives up none because the thread has none
(`Share.spared`), and dropping the guard of a yielded lock replaces levels that the thread took
in the meantime (`Share.lost`).  In every run these two account for all that levels and guards
differ by (`World.run_balance`); so guards balance as long as neither happens.
-/

import EngineHandles.Proofs.World.Share

namespace EngineHandles

/-- The levels that a guard gives back when it is dropped. -/
def GuardKind.saved : GuardKind → Nat
  | .unlocker depth => depth.toNat
  | .entered | .locker | .scope _ => 0

namespace Share

variable {i : IsolateId} {t : ThreadKey} {a : Act} {p p' : Share} {x : Guard}
  {newer older : List Guard} {n m : Nat} {d : UInt32}

/-- The number of guards of levels. -/
def lockers (p : Share) : Nat := p.stack.countP fun x => x.kind = .locker

/-- The levels that the guards give back. -/
def saved (p : Share) : Nat := (p.stack.map fun x => x.kind.saved).sum

/-- The guard that an act drops. -/
def dropped? (p : Share) : Act → Option Guard
  | .dropGuard g => p.stack.find? fun x => x.id == g
  | _ => none

/-- The levels that an act should give up, but does not, since the thread has none. -/
def spared (p : Share) (a : Act) : Nat :=
  match p.dropped? a with
  | none => 0
  | some x => if x.kind = .locker ∧ p.levels = 0 then 1 else 0

/-- The levels that an act replaces by those that it gives back. -/
def lost (p : Share) (a : Act) : Nat :=
  match p.dropped? a with
  | none => 0
  | some x => if x.kind = .locker then 0 else p.levels

theorem dropped?_of_first (first : ∀ y ∈ newer, y.id ≠ x.id) :
    dropped? ⟨newer ++ x :: older, n⟩ (.dropGuard x.id) = some x := by
  have hnewer : (newer.find? fun y => y.id == x.id) = none :=
    List.find?_eq_none.2 fun y hy => by simpa using first y hy
  show List.find? _ (newer ++ x :: older) = some x
  rw [List.find?_append, hnewer]
  simp

theorem dropped?_eq_some (h : p.dropped? a = some x) : x ∈ p.stack ∧ a = .dropGuard x.id := by
  cases a with
  | dropGuard g =>
    have h : (p.stack.find? fun y => y.id == g) = some x := h
    have hid := List.find?_some h
    rw [← eq_of_beq hid]
    exact ⟨List.mem_of_find?_eq_some h, rfl⟩
  | _ => cases h

/-! What one guard more is for the counts. -/

section Insert

variable (newer older n m)

theorem lockers_locker (hk : x.kind = .locker) :
    lockers ⟨newer ++ x :: older, n⟩ = lockers ⟨newer ++ older, m⟩ + 1 := by
  simp [lockers, hk, Nat.add_assoc]

theorem saved_locker (hk : x.kind = .locker) :
    saved ⟨newer ++ x :: older, n⟩ = saved ⟨newer ++ older, m⟩ := by
  simp [saved, GuardKind.saved, hk]

theorem lockers_unlocker (hk : x.kind = .unlocker d) :
    lockers ⟨newer ++ x :: older, n⟩ = lockers ⟨newer ++ older, m⟩ := by
  simp [lockers, hk]

theorem saved_unlocker (hk : x.kind = .unlocker d) :
    saved ⟨newer ++ x :: older, n⟩ = saved ⟨newer ++ older, m⟩ + d.toNat := by
  simp [saved, GuardKind.saved, hk]
  omega

end Insert

/-- **The balance of a turn:** what it adds to levels, and to levels that guards give back, it
adds to guards of levels, but for what is spared and what is lost. -/
theorem Turn.balance (h : Turn i t a p p') :
    p'.levels + p'.saved + p.lost a + p.lockers
      = p.levels + p.saved + p.spared a + p'.lockers := by
  cases h with
  | @takes x l n kind =>
    have hlockers : lockers ⟨x :: l, n + 1⟩ = lockers ⟨l, n⟩ + 1 :=
      lockers_locker [] l _ _ kind
    have hsaved : saved ⟨x :: l, n + 1⟩ = saved ⟨l, n⟩ := saved_locker [] l _ _ kind
    show n + 1 + _ + 0 + _ = n + _ + 0 + _
    omega
  | @yields x l d kind pos =>
    have hlockers : lockers ⟨x :: l, 0⟩ = lockers ⟨l, d.toNat⟩ := lockers_unlocker [] l _ _ kind
    have hsaved : saved ⟨x :: l, 0⟩ = saved ⟨l, d.toNat⟩ + d.toNat :=
      saved_unlocker [] l _ _ kind
    show 0 + _ + 0 + _ = d.toNat + _ + 0 + _
    omega
  | @releases x newer older n kind first =>
    have hlockers := lockers_locker newer older n (n - 1) kind
    have hsaved := saved_locker newer older n (n - 1) kind
    have hlost : lost ⟨newer ++ x :: older, n⟩ (.dropGuard x.id) = 0 := by
      rw [lost, dropped?_of_first first]
      exact if_pos kind
    have hspared : spared ⟨newer ++ x :: older, n⟩ (.dropGuard x.id) = if n = 0 then 1 else 0 := by
      rw [spared, dropped?_of_first first]
      exact if_congr (and_iff_right kind) rfl rfl
    show n - 1 + _ + _ + _ = n + _ + _ + _
    rw [hlockers, hsaved, hlost, hspared]
    split <;> omega
  | @regains x newer older n d kind first =>
    have hlockers := lockers_unlocker newer older n d.toNat kind
    have hsaved := saved_unlocker newer older n d.toNat kind
    have hne : x.kind ≠ .locker := by simp [kind]
    have hlost : lost ⟨newer ++ x :: older, n⟩ (.dropGuard x.id) = n := by
      rw [lost, dropped?_of_first first]
      exact if_neg hne
    have hspared : spared ⟨newer ++ x :: older, n⟩ (.dropGuard x.id) = 0 := by
      rw [spared, dropped?_of_first first]
      exact if_neg fun h => hne h.1
    show d.toNat + _ + _ + _ = n + _ + _ + _
    omega
  | @aside a p drops =>
    cases hx : p.dropped? a with
    | none => simp [lost, spared, hx]
    | some x =>
      obtain ⟨hmem, ha⟩ := dropped?_eq_some hx
      obtain ⟨hzero, d, hkind⟩ := drops x hmem ha
      simp [lost, spared, hx, hkind, hzero]

end Share

namespace World

variable {w : World} {i : IsolateId} {t : ThreadKey} {s : Gate} {f : Share → Act → Nat}

/-- What the acts of a run come to in all, each counted at what the thread then has of the
lock. -/
def total (w : World) (i : IsolateId) (t : ThreadKey) (f : Share → Act → Nat) : List Act → Nat
  | [] => 0
  | a :: rest => ((w.gate? i).elim 0 fun s => f (s.share t) a) + (w.act a).total i t f rest

theorem total_concat (w : World) (acts : List Act) (a : Act) : w.total i t f (acts ++ [a])
    = w.total i t f acts + ((w.run acts).gate? i).elim 0 fun s => f (s.share t) a := by
  induction acts generalizing w with
  | nil => simp [total, run]
  | cons b rest ih =>
    rw [List.cons_append, total, ih, total, Nat.add_assoc]
    rfl

theorem gate?_eq_none_of_le (hwf : w.WellFormed) (h : w.nextIsolate ≤ i.number) :
    w.gate? i = none := by
  cases hs : w.gate? i with
  | none => rfl
  | some s =>
    obtain ⟨iso, hi, -⟩ := gate?_eq_some_iff.1 hs
    obtain ⟨hmem, rfl⟩ := mem_of_isolate? hi
    exact absurd (hwf.below iso hmem) (Nat.not_lt.2 h)

/-- Before an isolate is made, nothing happens to its lock. -/
theorem total_eq_zero (hw : w.Guarded) (hwf : w.WellFormed) (acts : List Act) (a : Act)
    (h : (w.run acts).nextIsolate ≤ i.number) : w.total i t f (acts ++ [a]) = 0 := by
  have hnone : (w.run acts).gate? i = none := gate?_eq_none_of_le (hwf.run acts) h
  induction acts using List.reverseRecOn generalizing a with
  | nil =>
    rw [total_concat, hnone]
    rfl
  | append_singleton before b ih =>
    rw [run_append] at h
    have hbefore : (w.run before).nextIsolate ≤ i.number :=
      (Onward.run (Onward.run hw before).guarded [b]).nextIsolate.trans h
    rw [total_concat, hnone, ih b hbefore (gate?_eq_none_of_le (hwf.run before) hbefore)]
    rfl

/-- **In every run with room,** what is spared and what is lost account for all that the levels
of a thread and its guards differ by. -/
theorem balance_run {acts : List Act} (hroom : ({} : World).Throughout i (Gate.Room i) acts)
    (hs : (({} : World).run acts).gate? i = some s) :
    (s.share t).levels + (s.share t).saved + ({} : World).total i t Share.lost acts
      = (s.share t).lockers + ({} : World).total i t Share.spared acts := by
  refine share_run (P := fun acts p => p.levels + p.saved + ({} : World).total i t Share.lost acts
    = p.lockers + ({} : World).total i t Share.spared acts) hroom ?_ ?_ hs
  · intro before a hi
    rw [total_eq_zero Guarded.init wellFormed_init before a hi.le,
      total_eq_zero Guarded.init wellFormed_init before a hi.le]
    rfl
  · intro before a s p _ hgate ih hturn
    have hbalance := hturn.balance
    rw [total_concat, total_concat, hgate]
    show _ + _ + (_ + (s.share t).lost a) = _ + (_ + (s.share t).spared a)
    omega

/-- **What guards dropped in any order come to.**  After any run, of any acts by any threads, in
which no level was taken at the greatest depth, the levels of a thread and those that its guards
are to give back, together with what was lost, are as many as its guards of levels, together with
what was spared.  So a thread all of whose guards are guards of levels owns the lock just if
fewer levels were lost than there are such guards and levels that were spared.  If nothing was
lost or spared, it owns the lock just if it has a guard. -/
theorem run_balance {acts : List Act} {i : IsolateId} {t : ThreadKey} {s : Gate}
    (hroom : ({} : World).Throughout i (Gate.Room i) acts)
    (hs : (({} : World).run acts).gate? i = some s) :
    let p := s.share t
    let lost := ({} : World).total i t Share.lost acts
    let spared := ({} : World).total i t Share.spared acts
    p.levels + p.saved + lost = p.lockers + spared ∧
    ((∀ x ∈ p.stack, x.kind = .locker) →
      (s.lock.owner = some t ↔ lost < p.stack.length + spared)) ∧
    (lost = 0 → spared = 0 → (∀ x ∈ p.stack, x.kind = .locker) →
      (s.lock.owner = some t ↔ p.stack ≠ [])) := by
  intro p lost spared
  have hbalance : p.levels + p.saved + lost = p.lockers + spared := balance_run hroom hs
  have howner : s.lock.owner = some t ↔ 0 < p.levels :=
    (run_sound hroom hs).lock.levels_pos_iff.symm
  have hiff : (∀ x ∈ p.stack, x.kind = .locker) →
      (s.lock.owner = some t ↔ lost < p.stack.length + spared) := by
    intro hall
    have hlockers : p.lockers = p.stack.length :=
      List.countP_eq_length.2 fun x hx => decide_eq_true (hall x hx)
    have hsaved : p.saved = 0 := by
      refine List.sum_eq_zero fun n hn => ?_
      obtain ⟨x, hx, rfl⟩ := List.mem_map.1 hn
      rw [hall x hx]
      rfl
    rw [howner]
    omega
  refine ⟨hbalance, hiff, fun hlost hspared hall => ?_⟩
  rw [hiff hall, hlost, hspared, Nat.add_zero, List.length_pos_iff]

/-- A thread takes a lock, yields it and takes it again, and drops the guard of the yielding
before that of the level that it took last. -/
def crossed : List Act :=
  [.newIsolate {}, .lock ⟨0⟩ ⟨1⟩, .unlock ⟨0⟩ ⟨1⟩, .lock ⟨0⟩ ⟨1⟩, .dropGuard ⟨2⟩, .dropGuard ⟨3⟩]

/-- One level was lost, so the thread has a guard of a level, and does not own the lock. -/
theorem run_balance_crossed :
    ({} : World).Throughout ⟨1⟩ (Gate.Room ⟨1⟩) crossed ∧
    ∃ s, (({} : World).run crossed).gate? ⟨1⟩ = some s ∧
      ({} : World).total ⟨1⟩ ⟨0⟩ Share.lost crossed = 1 ∧
      (s.share ⟨0⟩).stack = [⟨⟨1⟩, ⟨0⟩, ⟨1⟩, .locker⟩] ∧ s.lock.owner ≠ some ⟨0⟩ := by
  let s : Gate := ⟨⟨none, 0, true⟩, [⟨⟨1⟩, ⟨0⟩, ⟨1⟩, .locker⟩]⟩
  have hroom : ({} : World).Throughout ⟨1⟩ (Gate.Room ⟨1⟩) crossed :=
    room_of_length ⟨1⟩ (by decide)
  have hs : (({} : World).run crossed).gate? ⟨1⟩ = some s := by decide +kernel
  have hlost : ({} : World).total ⟨1⟩ ⟨0⟩ Share.lost crossed = 1 := by decide +kernel
  have hspared : ({} : World).total ⟨1⟩ ⟨0⟩ Share.spared crossed = 0 := by decide +kernel
  obtain ⟨-, howner, -⟩ := run_balance (t := ⟨0⟩) hroom hs
  refine ⟨hroom, s, hs, hlost, rfl, fun ho => ?_⟩
  have hlt := (howner (by decide)).1 ho
  rw [hlost, hspared] at hlt
  exact absurd hlt (by decide)

/-- A thread takes a lock and yields it, and drops the guard of the level first. -/
def leaked : List Act :=
  [.newIsolate {}, .lock ⟨0⟩ ⟨1⟩, .unlock ⟨0⟩ ⟨1⟩, .dropGuard ⟨1⟩, .dropGuard ⟨2⟩]

/-- So guards that are dropped in any order do not balance: a thread without a guard may own a
lock, and one that has guards of levels only may not own it. -/
theorem not_balance_in_any_order :
    (¬ ∀ (acts : List Act) (i : IsolateId) (t : ThreadKey) (s : Gate),
      (({} : World).run acts).gate? i = some s → (s.share t).stack = [] →
      s.lock.owner ≠ some t) ∧
    ¬ ∀ (acts : List Act) (i : IsolateId) (t : ThreadKey) (s : Gate),
      (({} : World).run acts).gate? i = some s → (s.share t).stack ≠ [] →
      (∀ x ∈ (s.share t).stack, x.kind = .locker) → s.lock.owner = some t := by
  constructor
  · intro h
    exact h leaked ⟨1⟩ ⟨0⟩ ⟨⟨some ⟨0⟩, 1, true⟩, []⟩ (by decide +kernel) rfl rfl
  · intro h
    have howner := h crossed ⟨1⟩ ⟨0⟩ ⟨⟨none, 0, true⟩, [⟨⟨1⟩, ⟨0⟩, ⟨1⟩, .locker⟩]⟩
      (by decide +kernel) (by decide) (by decide)
    cases howner

end World
end EngineHandles
