/-
# Cutting an arena back

An arena is cut back to an address, and which slots are then left depends on the address
and the number of slots alone: `c.cut? n addr` is the number that is left of `n` slots,
if the address is accepted.  `Stores.delete_of_cut?` and `Stores.delete_of_cut?_eq_none`
say that the list keeps that front part, or that nothing changes.

An address at the end of a slab is read as the start of the next one, and the ordinal of
the next slab is counted in 32 bits.  So the end of the last slab that an address can
name is read as the very first slot.  `cut?_of_outside` says that this is the only
address outside the stored slots, the ends of slabs and the end of the arena that is not
refused.
-/

import EngineHandles.Proofs.Arena.Flat

namespace EngineHandles

namespace ArenaConfig

/-- The end of a slab, read as the start of the next one. -/
def normalize (c : ArenaConfig) (addr : SlotAddr) : SlotAddr :=
  if addr.offset = c.slabSize then .ofParts (addr.slab + 1) 0 else addr

/-- How many of `n` slots are left when they are cut back to an address. -/
def cut? (c : ArenaConfig) (n : Nat) (addr : SlotAddr) : Option Nat :=
  if addr = (c.frontierAt n).nextFree then some n
  else (c.position? (c.normalize addr)).filter (· < n)

variable {c : ArenaConfig}

/-- The end of `p` slots, read as the start of a slab where it is the end of one, is
the address of the slot at position `p`. -/
theorem IsValid.normalize_nextFree (h : c.IsValid) {p : Nat} (hp : p ≤ c.capacity) :
    c.normalize (c.frontierAt p).nextFree = c.slotAt p := by
  have hw := h.width_pos
  have hw' := h.width_lt
  have hr := h.mod_width_lt p
  have hq := div_width_le hp
  have hq' := h.maxSlabs_lt
  by_cases hm : p % c.width = 0
  · by_cases hn : p = 0
    · subst hn
      have : ¬ (SlotAddr.ofParts 0 0).offset = c.slabSize := by
        rw [SlotAddr.offset_ofParts]
        exact fun he => by simp [width, ← he] at hw
      rw [normalize, frontierAt_zero, Frontier.empty, if_neg this, slotAt, Nat.zero_div,
        Nat.zero_mod]
      rfl
    · have hd := Nat.div_add_mod p c.width
      have hpos : p / c.width ≠ 0 := fun h0 => by
        rw [h0, Nat.mul_zero] at hd
        omega
      have hoff : (SlotAddr.ofCounts (p / c.width - 1) c.width).offset = c.slabSize := by
        rw [← UInt32.toNat_inj, SlotAddr.toNat_offset_ofCounts _ (by omega)]
        rfl
      have hslab : (SlotAddr.ofCounts (p / c.width - 1) c.width).slab + 1
          = UInt32.ofNat (p / c.width) := by
        rw [← UInt32.toNat_inj, UInt32.toNat_add, SlotAddr.toNat_slab_ofCounts (by omega),
          UInt32.toNat_ofNat_of_lt' (show p / c.width < 2 ^ 32 by omega)]
        change (p / c.width - 1 + 1) % 2 ^ 32 = _
        rw [Nat.sub_add_cancel (Nat.pos_of_ne_zero hpos), Nat.mod_eq_of_lt (by omega)]
      rw [normalize, h.nextFree_of_mod_eq_zero hn hm, if_pos hoff, hslab, slotAt, hm]
      rfl
  · rw [h.nextFree_eq_slotAt hm, normalize, if_neg]
    rw [← UInt32.toNat_inj, slotAt, SlotAddr.toNat_offset_ofCounts _ (by omega)]
    rw [width] at hr ⊢
    omega

/-- **Cutting back to the end of `p` slots** leaves `p` slots. -/
theorem IsValid.cut?_nextFree (h : c.IsValid) {n p : Nat} (hp : p ≤ n) (hn : n ≤ c.capacity) :
    c.cut? n (c.frontierAt p).nextFree = some p := by
  by_cases he : p = n
  · rw [cut?, if_pos (by rw [he]), he]
  · have hne : (c.frontierAt p).nextFree ≠ (c.frontierAt n).nextFree := fun hh =>
      he (h.nextFree_inj (by omega) hn hh)
    rw [cut?, if_neg hne, h.normalize_nextFree (by omega), h.position?_slotAt (by omega),
      Option.filter_some, if_pos (by simp; omega)]

/-- **The addresses outside.**  An address that is not the address of one of `n` slots,
the end of a slab that holds one of them, or the end of them all, is refused, with one
exception: the end of the slab with the greatest ordinal is read as the first slot. -/
theorem IsValid.cut?_of_outside (h : c.IsValid) {n : Nat} {addr : SlotAddr}
    (hslot : ∀ k < n, addr ≠ c.slotAt k)
    (hlimit : ∀ s, c.width * s < n → addr ≠ .ofParts (.ofNat s) c.slabSize)
    (hend : addr ≠ (c.frontierAt n).nextFree) :
    c.cut? n addr
      = if addr = .ofParts greatestWord c.slabSize ∧ 0 < n then some 0 else none := by
  have hw := h.width_pos
  rw [cut?, if_neg hend]
  by_cases ho : addr.offset = c.slabSize
  · have haddr : addr = .ofParts addr.slab c.slabSize := by rw [← ho, SlotAddr.ofParts_slab_offset]
    rw [normalize, if_pos ho, position?, SlotAddr.offset_ofParts, SlotAddr.slab_ofParts,
      if_pos (by simpa using hw), Option.filter_some]
    by_cases hs : addr.slab = greatestWord
    · rw [hs]
      have : c.width * (greatestWord + 1).toNat + (0 : UInt32).toNat = 0 := by
        rw [show greatestWord + 1 = 0 from rfl]
        rfl
      rw [this]
      by_cases h0 : 0 < n
      · rw [if_pos (by simpa using h0), if_pos ⟨by rw [haddr, hs], h0⟩]
      · rw [if_neg (by simpa using h0), if_neg (by omega)]
    · -- no other ordinal wraps, so the next slab holds no slot
      have hne : addr.slab.toNat ≠ greatestWord.toNat := fun hh => hs (UInt32.toNat_inj.1 hh)
      have hlt := addr.slab.toNat_lt
      have hnext : (addr.slab + 1).toNat = addr.slab.toNat + 1 := by
        rw [UInt32.toNat_add]
        change (addr.slab.toNat + 1) % 2 ^ 32 = _
        change addr.slab.toNat ≠ 2 ^ 32 - 1 at hne
        omega
      have hnot : ¬ c.width * (addr.slab + 1).toNat + (0 : UInt32).toNat < n := fun hh => by
        rw [hnext, Nat.mul_succ] at hh
        exact hlimit addr.slab.toNat (by omega) (by rw [UInt32.ofNat_toNat]; exact haddr)
      rw [if_neg (by simpa using hnot), if_neg fun hh => hs (by rw [hh.1, SlotAddr.slab_ofParts])]
  · have hnot : ¬ addr = .ofParts greatestWord c.slabSize := fun hh =>
      ho (by rw [hh, SlotAddr.offset_ofParts])
    rw [normalize, if_neg ho, if_neg fun hh => hnot hh.1]
    refine Option.filter_eq_none_iff.2 fun k hk => ?_
    have := hslot k
    simp only [decide_eq_true_eq]
    exact fun hkn => this hkn (slotAt_of_position? hk).symm

end ArenaConfig

namespace Arena.Stores

variable {a : Arena} {c : ArenaConfig} {xs : List Slot}

theorem normalize_eq (h : a.Stores c xs) (addr : SlotAddr) :
    a.normalize addr = c.normalize addr := by
  rw [normalize, h.slabSize_eq, ArenaConfig.normalize]

/-- An arena cut back to the slots below position `p`. -/
theorem before_div_mod (h : a.Stores c xs) {p : Nat} (hp : p < xs.length) :
    (a.before (p / c.width) (p % c.width)).Stores c (xs.take p) := by
  have hd := Nat.div_add_mod p c.width
  have hr := h.valid.mod_width_lt p
  have hs : p / c.width < a.slabs.size := (h.lt_slabs_size _).2 (by omega)
  have hlen : (xs.take p).length = p := List.length_take_of_le (by omega)
  have hkept : (c.slabAt xs (p / c.width)).keep (p % c.width)
      = c.slabAt (xs.take p) (p / c.width) := by
    rw [Slab.keep, ArenaConfig.slabAt, ArenaConfig.slabAt, List.drop_take]
    simp only [List.take_toArray, List.take_take]
    rw [Nat.min_eq_left (by omega), Nat.min_eq_right (by omega),
      show p - c.width * (p / c.width) = p % c.width by omega]
  have hempty : ((c.slabAt (xs.take p) (p / c.width)).slots.isEmpty = true) ↔ p % c.width = 0 := by
    rw [Array.isEmpty_iff_size_eq_zero, size_slabAt, hlen]
    omega
  -- the slabs below the cut are full, so the cut does not reach them
  have hbelow : ∀ s, (a.slabs.take (p / c.width))[s]?
      = if s < p / c.width then some (c.slabAt (xs.take p) s) else none := by
    intro s
    rw [Array.take_eq_extract, Array.getElem?_extract, Nat.zero_add, Nat.sub_zero,
      Nat.min_eq_left (by omega)]
    by_cases hlt : s < p / c.width
    · have : c.width * (s + 1) ≤ c.width * (p / c.width) :=
        Nat.mul_le_mul_left c.width (Nat.succ_le_of_lt hlt)
      rw [if_pos hlt, if_pos hlt, h.slab?, if_pos ((h.lt_slabs_size s).1 (by omega)),
        slabAt_take (by omega)]
    · rw [if_neg hlt, if_neg hlt]
  have hsize : (a.slabs.take (p / c.width)).size = p / c.width := by
    rw [Array.take_eq_extract, Array.size_extract, Nat.sub_zero, Nat.min_eq_left (by omega)]
  have hcond : ∀ s, c.width * s < p ↔ s < p / c.width ∨ s = p / c.width ∧ p % c.width ≠ 0 := by
    intro s
    rw [lt_iff_div_mod h.valid.width_pos, Nat.mul_div_cancel_left _ h.valid.width_pos,
      Nat.mul_mod_right]
    omega
  rw [before, h.slab?, if_pos ((h.lt_slabs_size _).1 hs)]
  dsimp only
  rw [hkept]
  refine ⟨h.config_eq, h.valid, fun s => ?_, by have := h.fits; omega⟩
  rw [hlen]
  by_cases hm : p % c.width = 0
  · rw [if_pos (hempty.2 hm), hbelow]
    simp only [show c.width * s < p ↔ s < p / c.width by have := hcond s; omega]
  · rw [if_neg (mt hempty.1 hm), Array.getElem?_push, hsize, hbelow]
    by_cases he : s = p / c.width
    · rw [if_pos he, if_pos ((hcond s).2 (.inr ⟨he, hm⟩)), he]
    · rw [if_neg he]
      simp only [show c.width * s < p ↔ s < p / c.width by have := hcond s; omega]

/-- **Cutting back** keeps a front part of the slots and releases the others, the last
one first. -/
theorem delete_of_cut? (h : a.Stores c xs) {addr : SlotAddr} {p : Nat}
    (hp : c.cut? xs.length addr = some p) (heap : Heap) :
    ∃ a', a.delete addr heap
        = (.ok (xs.length - p), a', Slot.releaseFromEnd (xs.drop p) heap) ∧
      a'.Stores c (xs.take p) := by
  have hfits := h.fits
  rw [delete, h.frontier_eq, h.normalize_eq]
  rw [ArenaConfig.cut?] at hp
  split at hp
  · rename_i he
    obtain rfl := Option.some.inj hp
    refine ⟨a, ?_, by rw [List.take_length]; exact h⟩
    rw [if_pos he, Nat.sub_self, List.drop_length]
    rfl
  · rename_i hne
    obtain ⟨hpos, hlt⟩ := Option.filter_eq_some_iff.1 hp
    simp only [decide_eq_true_eq] at hlt
    have hd := Nat.div_add_mod p c.width
    have hr := h.valid.mod_width_lt p
    have hq := ArenaConfig.div_width_lt (c := c) (k := p) (by omega)
    have hq' := h.valid.maxSlabs_lt
    have hw' := h.valid.width_lt
    refine ⟨_, ?_, h.before_div_mod hlt⟩
    rw [if_neg hne, ← ArenaConfig.slotAt_of_position? hpos, ArenaConfig.slotAt]
    dsimp only
    rw [SlotAddr.toNat_slab_ofCounts (by omega), SlotAddr.toNat_offset_ofCounts _ (by omega),
      h.slab?, if_pos (by omega)]
    dsimp only
    rw [if_pos (by rw [size_slabAt]; omega), h.slotsFrom_eq hlt, List.length_drop]

/-- **An address that is refused** changes nothing. -/
theorem delete_of_cut?_eq_none (h : a.Stores c xs) {addr : SlotAddr}
    (hp : c.cut? xs.length addr = none) (heap : Heap) :
    a.delete addr heap = (.error (.addressOutOfRange (c.normalize addr)), a, heap) := by
  have hne : ¬ addr = (c.frontierAt xs.length).nextFree := fun he => by
    simp [ArenaConfig.cut?, he] at hp
  rw [ArenaConfig.cut?, if_neg hne, Option.filter_eq_none_iff] at hp
  rw [delete, h.frontier_eq, if_neg hne, h.normalize_eq]
  have hnot : ∀ k, c.position? (c.normalize addr) = some k → ¬ k < xs.length := fun k hk => by
    simpa using hp k hk
  rw [ArenaConfig.position?] at hnot
  dsimp only
  rw [h.slab?]
  by_cases hs : c.width * (c.normalize addr).slab.toNat < xs.length
  · have hlt : ¬ (c.normalize addr).offset.toNat
        < (c.slabAt xs (c.normalize addr).slab.toNat).slots.size := fun hlt => by
      rw [size_slabAt] at hlt
      exact hnot _ (if_pos (by omega)) (by omega)
    rw [if_pos hs]
    exact if_neg hlt
  · rw [if_neg hs]

/-- **Cutting back to the end of `p` slots** keeps the first `p` slots and releases the
others. -/
theorem delete_nextFree (h : a.Stores c xs) {p : Nat} (hp : p ≤ xs.length) (heap : Heap) :
    ∃ a', a.delete (c.frontierAt p).nextFree heap
        = (.ok (xs.length - p), a', Slot.releaseFromEnd (xs.drop p) heap) ∧
      a'.Stores c (xs.take p) :=
  h.delete_of_cut? (h.valid.cut?_nextFree hp h.fits) heap

end Arena.Stores
end EngineHandles
