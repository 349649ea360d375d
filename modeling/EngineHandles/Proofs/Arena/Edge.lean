/-
# The edge between two slabs

The end of a slab and the start of the next one are two addresses of one position.  An
arena is cut back to that position by either of them, as long as a slot lies behind the edge
(`ArenaConfig.IsValid.cut?_slabEnd`, `cut?_slabStart`).

An arena that ends at the edge goes by the first address only: there is no next slab yet,
so its start is an address outside and is refused, while the end of the last slab is where
the arena ends, and to cut back to there is no work.  So both leave the arena as it is
(`run_delete_edge`), but they do not answer alike (`not_delete_edge_alike`).
-/

import EngineHandles.Proofs.Arena.Truncation

namespace EngineHandles

namespace ArenaConfig

/-- The end of slab `s`. -/
def slabEnd (c : ArenaConfig) (s : Nat) : SlotAddr := .ofParts (.ofNat s) c.slabSize

/-- The start of slab `s`. -/
def slabStart (s : Nat) : SlotAddr := .ofCounts s 0

variable {c : ArenaConfig}

/-- The start of a slab is the address of its first slot. -/
theorem IsValid.slotAt_mul_width (h : c.IsValid) (s : Nat) :
    c.slotAt (s * c.width) = slabStart s := by
  rw [slotAt, Nat.mul_div_cancel _ h.width_pos, Nat.mul_mod_left, slabStart]

/-- No start of a slab is the end of one. -/
theorem IsValid.normalize_slabStart (h : c.IsValid) (s : Nat) :
    c.normalize (slabStart s) = slabStart s := by
  have hw := h.width_pos
  refine if_neg fun he => ?_
  rw [slabStart, SlotAddr.ofCounts, SlotAddr.offset_ofParts] at he
  rw [width, ← he] at hw
  exact absurd hw (Nat.lt_irrefl 0)

/-- **The end of a slab** that is full leaves the slots up to there. -/
theorem IsValid.cut?_slabEnd (h : c.IsValid) {n s : Nat} (hs : (s + 1) * c.width ≤ n)
    (hn : n ≤ c.capacity) : c.cut? n (c.slabEnd s) = some ((s + 1) * c.width) := by
  rw [slabEnd, ← h.nextFree_mul_width s]
  exact h.cut?_nextFree hs hn

/-- **The start of a slab** leaves the slots below it, if there is a slot at it. -/
theorem IsValid.cut?_slabStart (h : c.IsValid) {n s : Nat} (hs : s * c.width < n)
    (hn : n ≤ c.capacity) : c.cut? n (slabStart s) = some (s * c.width) := by
  rw [← h.slotAt_mul_width s]
  exact h.cut?_slotAt hs hn

/-- The start of a slab that would be opened next is refused. -/
theorem IsValid.cut?_slabStart_of_eq (h : c.IsValid) {n s : Nat} (hs : (s + 1) * c.width = n)
    (hn : n ≤ c.capacity) : c.cut? n (slabStart (s + 1)) = none := by
  -- the arena ends at the other address of the edge
  have hend : slabStart (s + 1) ≠ (c.frontierAt n).nextFree := fun he => by
    rw [← hs, h.nextFree_mul_width s] at he
    have hoff := congrArg SlotAddr.offset he
    rw [slabStart, SlotAddr.ofCounts, SlotAddr.offset_ofParts, SlotAddr.offset_ofParts] at hoff
    have hw := h.width_pos
    rw [width, ← hoff] at hw
    exact absurd hw (Nat.lt_irrefl 0)
  rw [cut?, if_neg hend, h.normalize_slabStart, ← h.slotAt_mul_width, h.position?_slotAt (hs ▸ hn),
    Option.filter_some, if_neg (by simp [hs])]

end ArenaConfig

namespace Arena

open ArenaConfig (slabStart)

variable {σ : Type} {c : ArenaConfig}

/-- **The two addresses of an edge.**  Whatever an arena went through: to cut it back to the
end of a slab that is full, and to cut it back to the start of the next one, leaves the same
arena and the same heap.  If a slot lies behind the edge the answers are the same too, the
number of slots that were there.  If the arena ends at the edge nothing changes: to cut back to
the end of the slab is no work, and the start of the next slab, which is not allocated, is
refused. -/
theorem run_delete_edge (hc : c.IsValid) (w : Heap × σ) (calls : List (ArenaCall σ))
    (heap : Heap) (s : Nat) :
    let a := (run { config := c } w calls).2.1
    let edge := (s + 1) * c.slabSize.toNat
    let atEnd := a.delete (c.slabEnd s) heap
    let atStart := a.delete (slabStart (s + 1)) heap
    edge ≤ a.size →
      atEnd.2 = atStart.2 ∧ atEnd.1 = .ok (a.size - edge) ∧
      (edge < a.size → atEnd = atStart) ∧
      (edge = a.size → atEnd = (.ok 0, a, heap) ∧
        atStart = (.error (.addressOutOfRange (slabStart (s + 1))), a, heap)) := by
  intro a edge atEnd atStart hle
  have hs := stores_run hc w calls
  change a.Stores c _ at hs
  generalize (SlotList.run c [] w calls).2.1 = xs at hs
  rw [hs.size_eq] at hle ⊢
  obtain ⟨a', hend, hs'⟩ := hs.delete_of_cut? (hc.cut?_slabEnd hle hs.fits) heap
  change atEnd = _ at hend
  rcases Nat.lt_or_eq_of_le hle with hlt | heq
  · obtain ⟨a'', hstart, hs''⟩ := hs.delete_of_cut? (hc.cut?_slabStart hlt hs.fits) heap
    obtain rfl := hs'.unique hs''
    have halike : atEnd = atStart := hend.trans hstart.symm
    exact ⟨congrArg Prod.snd halike, congrArg Prod.fst hend, fun _ => halike,
      fun he => absurd he (Nat.ne_of_lt hlt)⟩
  · have hstart := hs.delete_of_cut?_eq_none (hc.cut?_slabStart_of_eq heq hs.fits) heap
    rw [hc.normalize_slabStart] at hstart
    change atStart = _ at hstart
    change edge = xs.length at heq
    have hall : (s + 1) * c.width = xs.length := heq
    rw [hall, List.take_length] at hs'
    rw [hall, Nat.sub_self, List.drop_length, hs'.unique hs] at hend
    have hnone : atEnd = (.ok 0, a, heap) := hend
    refine ⟨by rw [hnone, hstart], by rw [hnone, heq, Nat.sub_self], fun hlt => ?_,
      fun _ => ⟨hnone, hstart⟩⟩
    exact absurd heq (Nat.ne_of_lt hlt)

/-- Two slots a slab.  Behind three slots the first edge is left by one slot, behind two slots
it is where the arena ends. -/
theorem run_delete_edge_behind_and_at :
    let three : List (ArenaCall Unit) := [.add ⟨0⟩, .add ⟨1⟩, .add ⟨2⟩]
    let two : List (ArenaCall Unit) := [.add ⟨0⟩, .add ⟨1⟩]
    let a := (run { config := ⟨2, 4⟩ } ({}, ()) three).2.1
    let b := (run { config := ⟨2, 4⟩ } ({}, ()) two).2.1
    ArenaConfig.IsValid ⟨2, 4⟩ ∧ (0 + 1) * 2 ≤ a.size ∧ (0 + 1) * 2 ≤ b.size ∧
      a.delete (.ofCounts 0 2) {} = a.delete (.ofCounts 1 0) {} ∧
      (a.delete (.ofCounts 0 2) {}).1 = .ok 1 ∧
      b.delete (.ofCounts 0 2) {} = (.ok 0, b, {}) ∧
      b.delete (.ofCounts 1 0) {} = (.error (.addressOutOfRange (.ofCounts 1 0)), b, {}) := by
  intro three two a b
  have hc : ArenaConfig.IsValid ⟨2, 4⟩ := by decide
  have ha : (0 + 1) * 2 ≤ a.size := by decide
  have hb : (0 + 1) * 2 ≤ b.size := by decide
  obtain ⟨-, hremoved, halike, -⟩ := run_delete_edge hc ({}, ()) three {} 0 ha
  obtain ⟨-, -, -, hat⟩ := run_delete_edge hc ({}, ()) two {} 0 hb
  have hat := hat (by decide)
  exact ⟨hc, ha, hb, halike (by decide), hremoved, hat.1, hat.2⟩

/-- An arena that ends at the edge tells the two addresses apart. -/
theorem not_delete_edge_alike :
    ¬ ∀ (c : ArenaConfig), c.IsValid → ∀ (calls : List (ArenaCall Unit)) (heap : Heap) (s : Nat),
      let a := (run { config := c } ({}, ()) calls).2.1
      (s + 1) * c.slabSize.toNat ≤ a.size →
        a.delete (c.slabEnd s) heap = a.delete (slabStart (s + 1)) heap := by
  intro h
  have hsame := h ⟨2, 4⟩ (by decide) [.add ⟨0⟩, .add ⟨1⟩] {} 0 (by decide)
  exact absurd (congrArg Prod.fst hsame) (by decide)

end Arena
end EngineHandles
