/-
# The lock of an isolate, level by level

A thread takes the lock in levels (`Lock.levels`), and owns it as long as it has one
(`Lock.Sound.levels_pos_iff`).  The depth counts the levels of the owner in 32 bits, so this
holds unless a level is taken at the greatest depth: the owner would then have none.
-/

import Mathlib.Tactic.ByContra
import EngineHandles.Isolate.Lock

namespace EngineHandles
namespace Lock

variable {l l' : Lock} {t u : ThreadKey} {d : UInt32}

/-- How many levels of the lock a thread has. -/
def levels (l : Lock) (t : ThreadKey) : Nat := if l.owner = some t then l.depth.toNat else 0

/-- A lock that is owned just if its depth is not zero. -/
def Sound (l : Lock) : Prop := l.owner = none ↔ l.depth = 0

/-! ### What each call leaves behind -/

theorem isHeldBy_iff : l.isHeldBy t = true ↔ l.owner = some t := beq_iff_eq

/-- The lock makes everybody wait but its owner. -/
theorem blocks_eq_false_iff : l.blocks t = false ↔ ∀ u, l.owner = some u → u = t := by
  unfold blocks
  cases l.owner with
  | none => simp
  | some u => simp

theorem acquire?_of_blocks (h : l.blocks t = true) : l.acquire? t = none := if_pos h

theorem acquire?_eq_some_iff :
    l.acquire? t = some l' ↔ l.blocks t = false ∧ l' = ⟨some t, l.depth + 1, true⟩ := by
  unfold acquire?
  cases l.blocks t with
  | true => simp
  | false => simp [eq_comm]

theorem regain?_of_blocks (h : l.blocks t = true) : l.regain? t d = none := if_pos h

theorem regain?_eq_some_iff :
    l.regain? t d = some l' ↔ l.blocks t = false ∧ l' = ⟨some t, d, true⟩ := by
  unfold regain?
  cases l.blocks t with
  | true => simp
  | false => simp [eq_comm]

theorem yield_of_owner (h : l.owner = some t) :
    l.yield t = (l.depth, { l with owner := none, depth := 0 }) := by
  rw [yield, if_pos (isHeldBy_iff.2 h)]
  rfl

theorem yield_of_ne (h : l.owner ≠ some t) : l.yield t = (0, l) :=
  if_neg fun hh => h (isHeldBy_iff.1 hh)

theorem release_of_ne (h : l.owner ≠ some t) : l.release t = l :=
  if_neg fun hh => h (isHeldBy_iff.1 hh)

theorem toNat_eq_zero_iff : d.toNat = 0 ↔ d = 0 := by
  rw [← UInt32.toNat_inj]
  simp

/-- One level more, if there is room for it. -/
theorem toNat_succ (h : d + 1 ≠ 0) : (d + 1).toNat = d.toNat + 1 := by
  have hne : (d + 1).toNat ≠ 0 := fun hz => h (toNat_eq_zero_iff.1 hz)
  have hlt := d.toNat_lt
  rw [UInt32.toNat_add, UInt32.toNat_one] at hne ⊢
  omega

/-- One level less, down to none. -/
theorem toNat_pred (d : UInt32) : (if d = 0 then 0 else d - 1).toNat = d.toNat - 1 := by
  by_cases hd : d = 0
  · simp [hd]
  · have hpos : d.toNat ≠ 0 := fun h => hd (toNat_eq_zero_iff.1 h)
    have hle : (1 : UInt32) ≤ d := by
      rw [UInt32.le_iff_toNat_le]
      simp
      omega
    rw [if_neg hd, UInt32.toNat_sub_of_le _ _ hle]
    rfl

theorem depth_release (h : l.owner = some t) :
    (l.release t).depth.toNat = l.depth.toNat - 1 := by
  rw [release, if_pos (isHeldBy_iff.2 h)]
  exact toNat_pred l.depth

/-- Whoever gives up the last level leaves the lock. -/
theorem owner_release (h : l.owner = some t) :
    (l.release t).owner = if l.depth.toNat ≤ 1 then none else some t := by
  have hzero := (toNat_eq_zero_iff (d := if l.depth = 0 then 0 else l.depth - 1)).symm
  rw [toNat_pred] at hzero
  rw [release, if_pos (isHeldBy_iff.2 h), atDepth, h]
  refine if_congr (hzero.trans ?_) rfl rfl
  omega

/-- A lock that another thread leaves. -/
theorem owner_release_ne (ho : l.owner ≠ some t) (u : ThreadKey) :
    (l.release u).owner ≠ some t := by
  by_cases hheld : l.owner = some u
  · have hut : u ≠ t := fun he => ho (he ▸ hheld)
    rw [owner_release hheld]
    split
    · exact nofun
    · simpa using hut
  · rw [release_of_ne hheld]
    exact ho

/-- Locking mode stays on. -/
theorem lockingMode_release (l : Lock) (t : ThreadKey) :
    (l.release t).lockingMode = l.lockingMode := by
  unfold release atDepth
  split <;> rfl

/-! ### Levels -/

theorem levels_of_owner (h : l.owner = some t) : l.levels t = l.depth.toNat := if_pos h

theorem levels_of_ne (h : l.owner ≠ some t) : l.levels t = 0 := if_neg h

/-- A thread that has to wait has no level. -/
theorem levels_of_blocks (h : l.blocks t = true) : l.levels t = 0 := by
  refine levels_of_ne fun ho => ?_
  have hfree : l.blocks t = false :=
    blocks_eq_false_iff.2 fun u hu => Option.some.inj (hu.symm.trans ho)
  rw [hfree] at h
  cases h

/-- If one thread does not have to wait, no other one has a level. -/
theorem levels_of_free_ne {u : ThreadKey} (hfree : l.blocks u = false) (hu : u ≠ t) :
    l.levels t = 0 :=
  levels_of_ne fun ho => hu (blocks_eq_false_iff.1 hfree t ho).symm

/-- Giving up a level takes one from the owner. -/
theorem levels_release (l : Lock) (t : ThreadKey) : (l.release t).levels t = l.levels t - 1 := by
  by_cases ho : l.owner = some t
  · rw [levels, owner_release ho, depth_release ho, levels_of_owner ho]
    by_cases hd : l.depth.toNat ≤ 1
    · simp [hd]
    · simp [hd]
  · rw [release_of_ne ho, levels_of_ne ho]

/-- Giving up a level takes none from another thread. -/
theorem levels_release_ne {u : ThreadKey} (hu : u ≠ t) :
    (l.release u).levels t = l.levels t := by
  by_cases ho : l.owner = some u
  · have hne : l.owner ≠ some t := fun h => hu (Option.some.inj (ho.symm.trans h))
    rw [levels_of_ne hne, levels_of_ne (owner_release_ne hne u)]
  · rw [release_of_ne ho]

namespace Sound

/-- **Who has a level owns the lock,** and the other way round. -/
theorem levels_pos_iff (hl : l.Sound) : 0 < l.levels t ↔ l.owner = some t := by
  constructor
  · intro h
    by_contra hne
    rw [levels_of_ne hne] at h
    omega
  · intro ho
    have hd : l.depth.toNat ≠ 0 := by
      intro hd
      rw [hl.2 (toNat_eq_zero_iff.1 hd)] at ho
      cases ho
    rw [levels_of_owner ho]
    omega

/-- Who does not have to wait has every level that is taken. -/
theorem levels_of_free (hl : l.Sound) (hfree : l.blocks t = false) :
    l.levels t = l.depth.toNat := by
  cases ho : l.owner with
  | none =>
    have hd : l.depth = 0 := hl.1 ho
    simp [levels, ho, hd]
  | some u =>
    obtain rfl := blocks_eq_false_iff.1 hfree u ho
    exact levels_of_owner ho

theorem of_owner (hd : d ≠ 0) (t : ThreadKey) (mode : Bool) : Sound ⟨some t, d, mode⟩ :=
  iff_of_false nofun hd

theorem free (mode : Bool) : Sound ⟨none, 0, mode⟩ := iff_of_true rfl rfl

theorem release (hl : l.Sound) (t : ThreadKey) : (l.release t).Sound := by
  by_cases ho : l.owner = some t
  · have hpos := hl.levels_pos_iff.2 ho
    rw [levels_of_owner ho] at hpos
    rw [Sound, ← toNat_eq_zero_iff, depth_release ho, owner_release ho]
    by_cases hd : l.depth.toNat ≤ 1
    · simp [hd]
    · simp [hd]
      omega
  · rw [release_of_ne ho]
    exact hl

end Sound

end Lock
end EngineHandles
