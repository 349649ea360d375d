/-
# Positions and addresses

The slots of an arena are counted from `0` in order of adding.  With slabs of `w`
slots the slot at position `k` lies in slab `k / w` at offset `k % w`
(`ArenaConfig.slotAt`), and an arena of `n` slots is written next at the end of the
slab of its last slot (`ArenaConfig.frontierAt`), also where the next slot would open
a new slab.

A valid configuration keeps every ordinal and offset below the greatest word
(`div_width_lt`), so that packing loses nothing.  Addresses are then ordered as
positions are: `nextFree_le_slotAt` and `slotAt_lt_nextFree` compare the slot at `k`
with the place where an arena of `n` slots ends, whichever of its two addresses that
place goes by.
-/

import EngineHandles.Arena.Basic
import Mathlib.Algebra.Ring.Nat

namespace EngineHandles

namespace SlotAddr

theorem le_iff {a b : SlotAddr} : a ≤ b ↔ a.raw.toNat ≤ b.raw.toNat := UInt64.le_iff_toNat_le

theorem lt_iff {a b : SlotAddr} : a < b ↔ a.raw.toNat < b.raw.toNat := UInt64.lt_iff_toNat_lt

theorem toNat_raw_ofCounts {s o : Nat} (hs : s < 2 ^ 32) (ho : o < 2 ^ 32) :
    (ofCounts s o).raw.toNat = s * 2 ^ 32 + o := by
  rw [ofCounts, toNat_raw_ofParts, UInt32.toNat_ofNat_of_lt' hs, UInt32.toNat_ofNat_of_lt' ho]
  rfl

theorem toNat_slab_ofCounts {s : Nat} (hs : s < 2 ^ 32) (o : Nat) :
    (ofCounts s o).slab.toNat = s := by
  rw [ofCounts, slab_ofParts, UInt32.toNat_ofNat_of_lt' hs]

theorem toNat_offset_ofCounts (s : Nat) {o : Nat} (ho : o < 2 ^ 32) :
    (ofCounts s o).offset.toNat = o := by
  rw [ofCounts, offset_ofParts, UInt32.toNat_ofNat_of_lt' ho]

@[simp] theorem ofCounts_slab_offset (a : SlotAddr) :
    ofCounts a.slab.toNat a.offset.toNat = a := by
  rw [ofCounts, UInt32.ofNat_toNat, UInt32.ofNat_toNat, ofParts_slab_offset]

end SlotAddr

/-- Numbers are ordered by quotient first and remainder second. -/
theorem lt_iff_div_mod {w : Nat} (hw : 0 < w) (n k : Nat) :
    n < k ↔ n / w < k / w ∨ n / w = k / w ∧ n % w < k % w := by
  have hn := Nat.div_add_mod n w
  have hk := Nat.div_add_mod k w
  have hr := Nat.mod_lt n hw
  have hr' := Nat.mod_lt k hw
  rcases Nat.lt_trichotomy (n / w) (k / w) with h | h | h
  · have := Nat.mul_le_mul_left w (Nat.succ_le_of_lt h)
    rw [Nat.mul_succ] at this
    omega
  · rw [h] at hn
    omega
  · have := Nat.mul_le_mul_left w (Nat.succ_le_of_lt h)
    rw [Nat.mul_succ] at this
    omega

namespace ArenaConfig

/-- The number of slots in a slab. -/
def width (c : ArenaConfig) : Nat := c.slabSize.toNat

/-- The number of slots for which there is room in all. -/
def capacity (c : ArenaConfig) : Nat := c.width * c.maxSlabs.toNat

/-- The address of the slot at position `k`. -/
def slotAt (c : ArenaConfig) (k : Nat) : SlotAddr := .ofCounts (k / c.width) (k % c.width)

/-- The frontier of an arena of `n` slots. -/
def frontierAt (c : ArenaConfig) (n : Nat) : Frontier :=
  if n = 0 then .empty
  else ⟨.ofCounts ((n - 1) / c.width) ((n - 1) % c.width + 1),
    .ofParts (.ofNat ((n - 1) / c.width)) c.slabSize⟩

/-- The position that an address names, whether or not a slot is stored there. -/
def position? (c : ArenaConfig) (a : SlotAddr) : Option Nat :=
  if a.offset.toNat < c.width then some (c.width * a.slab.toNat + a.offset.toNat) else none

variable {c : ArenaConfig}

theorem IsValid.width_pos (h : c.IsValid) : 0 < c.width := by
  have := ((isValid_iff c).1 h).1
  rw [width]
  exact Nat.pos_of_ne_zero fun h0 => this (UInt32.toNat_inj.1 h0)

theorem IsValid.width_lt (h : c.IsValid) : c.width + 1 < 2 ^ 32 := by
  have h1 := ((isValid_iff c).1 h).2.1
  have h2 := c.slabSize.toNat_lt
  have : c.slabSize.toNat ≠ 2 ^ 32 - 1 := fun he => h1 (UInt32.toNat_inj.1 he)
  rw [width]
  omega

theorem IsValid.maxSlabs_lt (h : c.IsValid) : c.maxSlabs.toNat + 1 < 2 ^ 32 := by
  have h1 := ((isValid_iff c).1 h).2.2.2
  have h2 := c.maxSlabs.toNat_lt
  have : c.maxSlabs.toNat ≠ 2 ^ 32 - 1 := fun he => h1 (UInt32.toNat_inj.1 he)
  omega

/-- A position within the capacity lies in a slab whose ordinal fits into its word. -/
theorem div_width_lt {k : Nat} (hk : k < c.capacity) :
    k / c.width < c.maxSlabs.toNat :=
  Nat.div_lt_of_lt_mul hk

theorem IsValid.mod_width_lt (h : c.IsValid) (k : Nat) : k % c.width < c.width :=
  Nat.mod_lt _ h.width_pos

/-- The first position without room lies in the first slab that is not allowed. -/
theorem div_width_le {k : Nat} (hk : k ≤ c.capacity) : k / c.width ≤ c.maxSlabs.toNat :=
  Nat.div_le_of_le_mul hk

/-- **The address of a position** has its quotient and its remainder by the width. -/
theorem IsValid.toNat_slotAt (h : c.IsValid) {k : Nat} (hk : k ≤ c.capacity) :
    (c.slotAt k).slab.toNat = k / c.width ∧ (c.slotAt k).offset.toNat = k % c.width := by
  have h1 := div_width_le hk
  have h2 := h.maxSlabs_lt
  have h3 := h.mod_width_lt k
  have h4 := h.width_lt
  constructor
  · exact SlotAddr.toNat_slab_ofCounts (by omega) _
  · exact SlotAddr.toNat_offset_ofCounts _ (by omega)

theorem IsValid.toNat_raw_slotAt (h : c.IsValid) {k : Nat} (hk : k < c.capacity) :
    (c.slotAt k).raw.toNat = k / c.width * 2 ^ 32 + k % c.width := by
  have h1 := div_width_lt hk
  have h2 := h.maxSlabs_lt
  have h3 := h.mod_width_lt k
  have h4 := h.width_lt
  exact SlotAddr.toNat_raw_ofCounts (by omega) (by omega)

/-- **A position is read back from its address.** -/
theorem IsValid.position?_slotAt (h : c.IsValid) {k : Nat} (hk : k ≤ c.capacity) :
    c.position? (c.slotAt k) = some k := by
  obtain ⟨hslab, hoffset⟩ := h.toNat_slotAt hk
  rw [position?, hslab, hoffset, if_pos (h.mod_width_lt k), Nat.div_add_mod]

/-- An address that names a position is the address of that position. -/
theorem slotAt_of_position? {a : SlotAddr} {k : Nat} (h : c.position? a = some k) :
    c.slotAt k = a := by
  rw [position?] at h
  split at h
  · rename_i ho
    obtain rfl := Option.some.inj h
    rw [slotAt, Nat.mul_add_div (by omega), Nat.mul_add_mod, Nat.mod_eq_of_lt ho,
      Nat.div_eq_of_lt ho, Nat.add_zero, SlotAddr.ofCounts_slab_offset]
  · cases h

theorem IsValid.slotAt_inj (h : c.IsValid) {j k : Nat} (hj : j ≤ c.capacity) (hk : k ≤ c.capacity)
    (he : c.slotAt j = c.slotAt k) : j = k := by
  have := h.position?_slotAt hj
  rw [he, h.position?_slotAt hk] at this
  exact (Option.some.inj this).symm

@[simp] theorem frontierAt_zero : c.frontierAt 0 = .empty := rfl

theorem IsValid.toNat_raw_nextFree (h : c.IsValid) {n : Nat} (hn : n < c.capacity) :
    (c.frontierAt (n + 1)).nextFree.raw.toNat = n / c.width * 2 ^ 32 + n % c.width + 1 := by
  have h1 := div_width_lt hn
  have h2 := h.maxSlabs_lt
  have h3 := h.mod_width_lt n
  have h4 := h.width_lt
  rw [frontierAt, if_neg (by omega), Nat.add_sub_cancel,
    SlotAddr.toNat_raw_ofCounts (by omega) (by omega)]
  omega

@[simp] theorem toNat_raw_nextFree_zero : (c.frontierAt 0).nextFree.raw.toNat = 0 := rfl

/-- **The end of `n` slots comes before the slots from position `n` on.** -/
theorem IsValid.nextFree_le_slotAt (h : c.IsValid) {n k : Nat} (hn : n ≤ c.capacity)
    (hk : k < c.capacity) : (c.frontierAt n).nextFree ≤ c.slotAt k ↔ n ≤ k := by
  rw [SlotAddr.le_iff, h.toNat_raw_slotAt hk]
  cases n with
  | zero =>
    rw [toNat_raw_nextFree_zero]
    exact iff_of_true (Nat.zero_le _) (Nat.zero_le _)
  | succ n =>
    have h3 := h.mod_width_lt n
    have h3' := h.mod_width_lt k
    have h4 := h.width_lt
    have h5 := lt_iff_div_mod h.width_pos n k
    rw [h.toNat_raw_nextFree hn]
    omega

/-- **The slots below position `n` come before the end of `n` slots.** -/
theorem IsValid.slotAt_lt_nextFree (h : c.IsValid) {n k : Nat} (hn : n ≤ c.capacity)
    (hk : k < c.capacity) : c.slotAt k < (c.frontierAt n).nextFree ↔ k < n := by
  have := h.nextFree_le_slotAt hn hk
  rw [SlotAddr.le_iff] at this
  rw [SlotAddr.lt_iff]
  omega

theorem IsValid.slotAt_lt_slotAt (h : c.IsValid) {j k : Nat} (hjk : j < k) (hk : k < c.capacity) :
    c.slotAt j < c.slotAt k := by
  have hlt := (h.slotAt_lt_nextFree (Nat.le_of_lt hk) (by omega)).2 hjk
  have hle := (h.nextFree_le_slotAt (Nat.le_of_lt hk) hk).2 (Nat.le_refl k)
  rw [SlotAddr.lt_iff] at hlt ⊢
  rw [SlotAddr.le_iff] at hle
  omega

/-- Different numbers of slots end at different addresses. -/
theorem IsValid.nextFree_inj (h : c.IsValid) {m n : Nat} (hm : m ≤ c.capacity)
    (hn : n ≤ c.capacity) (he : (c.frontierAt m).nextFree = (c.frontierAt n).nextFree) :
    m = n := by
  rcases Nat.lt_trichotomy m n with hlt | rfl | hlt
  · have h1 := (h.slotAt_lt_nextFree hn (k := m) (by omega)).2 hlt
    rw [← he, h.slotAt_lt_nextFree hm (by omega)] at h1
    omega
  · rfl
  · have h1 := (h.slotAt_lt_nextFree hm (k := n) (by omega)).2 hlt
    rw [he, h.slotAt_lt_nextFree hn (by omega)] at h1
    omega

/-- Inside a slab the end of `n` slots is the address of the slot at `n`. -/
theorem IsValid.nextFree_eq_slotAt (h : c.IsValid) {n : Nat} (hm : n % c.width ≠ 0) :
    (c.frontierAt n).nextFree = c.slotAt n := by
  have hw := h.width_pos
  have hn : n ≠ 0 := fun h0 => hm (by rw [h0, Nat.zero_mod])
  have hd := Nat.div_add_mod n c.width
  have hr := h.mod_width_lt n
  have hpred : n - 1 = c.width * (n / c.width) + (n % c.width - 1) := by omega
  have hdiv : (n - 1) / c.width = n / c.width := by
    rw [hpred, Nat.mul_add_div hw, Nat.div_eq_of_lt (by omega : n % c.width - 1 < c.width),
      Nat.add_zero]
  have hmod : (n - 1) % c.width = n % c.width - 1 := by
    rw [hpred, Nat.mul_add_mod, Nat.mod_eq_of_lt (by omega : n % c.width - 1 < c.width)]
  rw [frontierAt, if_neg hn, hdiv, hmod, Nat.sub_add_cancel (by omega), slotAt]

/-- At the edge of a slab the end of `n` slots is the end of the last slab. -/
theorem IsValid.nextFree_of_mod_eq_zero (h : c.IsValid) {n : Nat} (hn : n ≠ 0)
    (hm : n % c.width = 0) : (c.frontierAt n).nextFree = .ofCounts (n / c.width - 1) c.width := by
  have hw := h.width_pos
  have hd := Nat.div_add_mod n c.width
  have hq : n / c.width ≠ 0 := fun h0 => by
    rw [h0, Nat.mul_zero] at hd
    omega
  have hpred : n - 1 = c.width * (n / c.width - 1) + (c.width - 1) := by
    have h1 := Nat.mul_sub_one c.width (n / c.width)
    have h2 := Nat.le_mul_of_pos_right c.width (Nat.pos_of_ne_zero hq)
    omega
  have hdiv : (n - 1) / c.width = n / c.width - 1 := by
    rw [hpred, Nat.mul_add_div hw, Nat.div_eq_of_lt (by omega : c.width - 1 < c.width),
      Nat.add_zero]
  have hmod : (n - 1) % c.width = c.width - 1 := by
    rw [hpred, Nat.mul_add_mod, Nat.mod_eq_of_lt (by omega : c.width - 1 < c.width)]
  rw [frontierAt, if_neg hn, hdiv, hmod, Nat.sub_add_cancel hw]

end ArenaConfig
end EngineHandles
