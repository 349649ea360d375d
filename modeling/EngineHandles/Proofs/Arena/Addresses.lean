/-
# Addresses keep what they pack

An address packs the ordinal of a slab and an offset into one word: every word is the
address of one such pair, and words are ordered as pairs are, slab first
(`SlotAddr.bijective_raw`, `SlotAddr.raw_lt_raw_iff`).

An arena counts its slabs and slots without a bound, and of each count only the lower 32 bits
are packed.  A valid configuration keeps both counts below the greatest word, so nothing is cut
off (`Arena.Stores.packed`), and the greatest word is no offset, so nothing that an arena gives
out is the null address (`ArenaConfig.IsValid.ne_null_of_offset_le`).

The addresses of the stored slots can be told from the answers alone: an added slot is noted
last, and a cut strikes out as many as it says (`ArenaReply.noted`).  As a position fixes its
address, the notes are the addresses of so many positions (`Arena.Stores.run_noted`); so slots
that were added later have greater addresses.
-/

import EngineHandles.Proofs.Arena.Refinement
import Mathlib.Logic.Function.Defs

namespace EngineHandles

namespace SlotAddr

/-- **Every word is the address of one slab and one offset.** -/
theorem bijective_raw :
    Function.Bijective fun p : UInt32 × UInt32 => (ofParts p.1 p.2).raw := by
  constructor
  · rintro ⟨s, o⟩ ⟨s', o'⟩ h
    have ha : ofParts s o = ofParts s' o' := ext h
    have hs : s = s' := by simpa using congrArg slab ha
    have ho : o = o' := by simpa using congrArg offset ha
    rw [hs, ho]
  · intro w
    exact ⟨(slab ⟨w⟩, offset ⟨w⟩), congrArg raw (ofParts_slab_offset ⟨w⟩)⟩

/-- **Words are ordered as pairs are,** slab first. -/
theorem raw_lt_raw_iff (a b : SlotAddr) :
    a.raw < b.raw ↔ Prod.Lex (· < ·) (· < ·) (a.slab, a.offset) (b.slab, b.offset) := by
  rw [Prod.lex_def, UInt32.lt_iff_toNat_lt, UInt32.lt_iff_toNat_lt, ← UInt32.toNat_inj,
    UInt64.lt_iff_toNat_lt, toNat_slab, toNat_slab, toNat_offset, toNat_offset]
  exact lt_iff_div_mod (by decide) _ _

end SlotAddr

namespace ArenaConfig

variable {c : ArenaConfig}

/-- **The limits of a valid configuration:** both numbers leave out zero and the greatest word,
and nothing else. -/
theorem isValid_iff_le (c : ArenaConfig) :
    c.IsValid ↔ (1 ≤ c.slabSize.toNat ∧ c.slabSize.toNat ≤ 2 ^ 32 - 2) ∧
      1 ≤ c.maxSlabs.toNat ∧ c.maxSlabs.toNat ≤ 2 ^ 32 - 2 := by
  have hs := c.slabSize.toNat_lt
  have hm := c.maxSlabs.toNat_lt
  have hgreatest : greatestWord.toNat = 2 ^ 32 - 1 := rfl
  rw [isValid_iff]
  simp only [ne_eq, ← UInt32.toNat_inj, hgreatest, UInt32.toNat_zero]
  omega

/-- **An offset up to the end of a slab** is not that of the null address. -/
theorem IsValid.ne_null_of_offset_le (h : c.IsValid) {a : SlotAddr} (ho : a.offset.toNat ≤ c.width) :
    a ≠ .null := by
  rintro rfl
  have hw := h.width_lt
  rw [show SlotAddr.null.offset.toNat = 2 ^ 32 - 1 from rfl] at ho
  omega

theorem IsValid.slotAt_ne_null (h : c.IsValid) (k : Nat) : c.slotAt k ≠ .null := by
  have hr := h.mod_width_lt k
  have hw := h.width_lt
  refine h.ne_null_of_offset_le ?_
  rw [slotAt, SlotAddr.toNat_offset_ofCounts _ (by omega)]
  omega

theorem IsValid.nextFree_ne_null (h : c.IsValid) (n : Nat) : (c.frontierAt n).nextFree ≠ .null := by
  rw [frontierAt]
  split
  · decide
  · have hr := h.mod_width_lt (n - 1)
    have hw := h.width_lt
    refine h.ne_null_of_offset_le ?_
    rw [SlotAddr.toNat_offset_ofCounts _ (by omega)]
    omega

theorem IsValid.limit_ne_null (h : c.IsValid) (n : Nat) : (c.frontierAt n).limit ≠ .null := by
  rw [frontierAt]
  split
  · decide
  · refine h.ne_null_of_offset_le (Nat.le_of_eq ?_)
    rw [SlotAddr.offset_ofParts, width]

/-- The addresses of the first `n` positions. -/
def addresses (c : ArenaConfig) (n : Nat) : List SlotAddr := (List.range n).map c.slotAt

@[simp] theorem length_addresses (c : ArenaConfig) (n : Nat) : (c.addresses n).length = n := by
  simp [addresses]

theorem addresses_succ (c : ArenaConfig) (n : Nat) :
    c.addresses (n + 1) = c.addresses n ++ [c.slotAt n] := by
  simp [addresses, List.range_succ]

theorem take_addresses (c : ArenaConfig) (m n : Nat) :
    (c.addresses n).take m = c.addresses (min m n) := by
  rw [addresses, ← List.map_take, List.take_range, addresses]

end ArenaConfig

/-! ### What the answers tell -/

namespace ArenaReply

/-- The addresses of the slots that are stored, noted after a further answer: an added slot
comes last, and a cut strikes out the last ones, as many as it says. -/
def noted (notes : List SlotAddr) : ArenaReply → List SlotAddr
  | .added (.ok ⟨slot, _⟩) => notes ++ [slot]
  | .deleted (.ok n) | .cleared n => notes.take (notes.length - n)
  | .added (.error _) | .deleted (.error _) | .edited _ | .visited _ | .worked => notes

/-- The addresses that an answer gives out. -/
def given : ArenaReply → List SlotAddr
  | .added (.ok ⟨slot, frontier⟩) => [slot, frontier.nextFree, frontier.limit]
  | .visited entries => entries.map Prod.fst
  | .added (.error _) | .deleted _ | .cleared _ | .edited _ | .worked => []

end ArenaReply

namespace SlotList

variable {σ : Type} {c : ArenaConfig}

/-- A slot goes to the next position, or is refused. -/
theorem append_cases (c : ArenaConfig) (xs : List Slot) (x : Slot) :
    (∃ e, append c xs x = (.error e, xs)) ∨
      append c xs x = (.ok ⟨c.slotAt xs.length, c.frontierAt (xs.length + 1)⟩, xs ++ [x]) := by
  rw [append]
  split
  · exact .inr rfl
  · exact .inl ⟨_, rfl⟩

theorem map_fst_entries (c : ArenaConfig) (xs : List Slot) :
    (entries c xs).map Prod.fst = c.addresses xs.length := by
  rw [entries, List.map_map, ArenaConfig.addresses, List.range_eq_range', ← List.zipIdx_map_snd,
    List.map_map]
  rfl

/-- **The notes follow the slots:** one call leaves the addresses of as many positions as
there are slots. -/
theorem noted_call (c : ArenaConfig) (xs : List Slot) (w : Heap × σ) (call : ArenaCall σ) :
    (SlotList.call c xs w call).1.noted (c.addresses xs.length)
      = c.addresses (SlotList.call c xs w call).2.1.length := by
  have hcut : ∀ n, (c.addresses xs.length).take ((c.addresses xs.length).length - n)
      = c.addresses (xs.length - n) := fun n => by
    rw [ArenaConfig.length_addresses, ArenaConfig.take_addresses, Nat.min_eq_left (Nat.sub_le _ _)]
  cases call with
  | add o | adopt o =>
    rcases append_cases c xs (.holding o .strong) with ⟨e, he⟩ | he
    · simp only [SlotList.call, he, ArenaReply.noted]
    · simp only [SlotList.call, he, ArenaReply.noted, List.length_append, List.length_singleton,
        ArenaConfig.addresses_succ]
  | delete target =>
    cases target with
    | none => simp only [SlotList.call, ArenaReply.noted, hcut, Nat.sub_self, List.length_nil]
    | some target =>
      simp only [SlotList.call]
      cases c.cut? xs.length target with
      | none => rfl
      | some p =>
        simp only [ArenaReply.noted, hcut, List.length_take]
        rw [show xs.length - (xs.length - p) = min p xs.length by omega]
  | clear => simp only [SlotList.call, ArenaReply.noted, hcut, Nat.sub_self, List.length_nil]
  | edit addr change =>
    simp only [SlotList.call]
    cases find? c xs addr with
    | none => rfl
    | some found => simp [ArenaReply.noted]
  | visit change => simp [SlotList.call, ArenaReply.noted]
  | host work => rfl

/-- No answer gives out the null address. -/
theorem ne_null_of_given_call (h : c.IsValid) {xs : List Slot} {w : Heap × σ} {call : ArenaCall σ}
    {addr : SlotAddr} (ha : addr ∈ (SlotList.call c xs w call).1.given) : addr ≠ .null := by
  cases call with
  | add o | adopt o =>
    rcases append_cases c xs (.holding o .strong) with ⟨e, he⟩ | he <;>
      simp only [SlotList.call, he, ArenaReply.given, List.mem_cons, List.not_mem_nil, or_false] at ha
    rcases ha with rfl | rfl | rfl
    · exact h.slotAt_ne_null _
    · exact h.nextFree_ne_null _
    · exact h.limit_ne_null _
  | delete target =>
    cases target with
    | none => cases ha
    | some target =>
      simp only [SlotList.call] at ha
      split at ha <;> cases ha
  | clear | host work => cases ha
  | edit addr change =>
    simp only [SlotList.call] at ha
    split at ha <;> cases ha
  | visit change =>
    simp only [SlotList.call, ArenaReply.given, map_fst_entries, ArenaConfig.addresses] at ha
    obtain ⟨k, -, rfl⟩ := List.mem_map.1 ha
    exact h.slotAt_ne_null k

end SlotList

namespace Arena

variable {σ : Type} {c : ArenaConfig} {xs : List Slot} {a : Arena}

/-- What the addresses of an arena promise, after calls with certain answers. -/
structure Addressed (a : Arena) (replies : List ArenaReply) : Prop where
  /-- Nothing is cut off the ordinal of a slab, nor off an offset up to the end of its slots. -/
  packed : ∀ s slab, a.slabs[s]? = some slab → ∀ k ≤ slab.slots.size,
    (SlotAddr.ofCounts s k).slab.toNat = s ∧ (SlotAddr.ofCounts s k).offset.toNat = k
  /-- The address of a slot is read back as its place, and no other address leads to a slot. -/
  read : ∀ addr x, (addr, x) ∈ a.entries ↔ a.get? addr = some x
  /-- The frontier tells which slab is the last one, and the ends of its slots and of its room. -/
  frontier : ∀ last, a.slabs.back? = some last →
    a.frontier.nextFree.slab.toNat + 1 = a.slabs.size ∧
    a.frontier.nextFree.offset.toNat = last.slots.size ∧
    a.frontier.limit.slab.toNat + 1 = a.slabs.size ∧ a.frontier.limit.offset = last.capacity
  /-- The end of a slab is read as the start of the next one. -/
  next : ∀ s < a.slabs.size, a.normalize (.ofParts (.ofNat s) a.slabSize) = .ofCounts (s + 1) 0 ∧
    (SlotAddr.ofCounts (s + 1) 0).slab.toNat = s + 1
  size_lt : a.size < UInt64.size
  /-- The notes taken from the answers are the addresses of the slots. -/
  noted : replies.foldl ArenaReply.noted [] = a.entries.map Prod.fst
  /-- Addresses increase in order of adding, so no two slots have the same. -/
  increasing : (a.entries.map Prod.fst).Pairwise (· < ·)
  slot_ne_null : ∀ addr ∈ a.entries.map Prod.fst, addr ≠ .null
  nextFree_ne_null : a.frontier.nextFree ≠ .null
  limit_ne_null : a.frontier.limit ≠ .null
  given_ne_null : ∀ r ∈ replies, ∀ addr ∈ r.given, addr ≠ .null

namespace Stores

/-- The ordinal of a slab, and of the next one, is below the greatest word. -/
theorem ordinal_lt (h : a.Stores c xs) {s : Nat} (hs : s < a.slabs.size) : s + 1 < 2 ^ 32 := by
  have hlt := (h.lt_slabs_size s).1 hs
  have hmax := h.valid.maxSlabs_lt
  have hs : s < c.maxSlabs.toNat := Nat.lt_of_mul_lt_mul_left (Nat.lt_of_lt_of_le hlt h.fits)
  omega

theorem size_le_width (h : a.Stores c xs) {s : Nat} {slab : Slab} (hs : a.slabs[s]? = some slab) :
    slab.slots.size ≤ c.width := by
  rw [h.slab?] at hs
  split at hs
  · cases hs
    rw [size_slabAt]
    exact Nat.min_le_left _ _
  · cases hs

/-- **Nothing is cut off** when a slab and an offset are packed. -/
theorem packed (h : a.Stores c xs) {s : Nat} {slab : Slab} (hs : a.slabs[s]? = some slab) {k : Nat}
    (hk : k ≤ slab.slots.size) :
    (SlotAddr.ofCounts s k).slab.toNat = s ∧ (SlotAddr.ofCounts s k).offset.toNat = k := by
  have hord := h.ordinal_lt (Array.getElem?_eq_some_iff.1 hs).1
  have hsize := h.size_le_width hs
  have hw := h.valid.width_lt
  exact ⟨SlotAddr.toNat_slab_ofCounts (by omega) k, SlotAddr.toNat_offset_ofCounts s (by omega)⟩

/-- **The frontier** lies in the last slab. -/
theorem frontier_packed (h : a.Stores c xs) {last : Slab} (hlast : a.slabs.back? = some last) :
    a.frontier.nextFree.slab.toNat + 1 = a.slabs.size ∧
      a.frontier.nextFree.offset.toNat = last.slots.size ∧
      a.frontier.limit.slab.toNat + 1 = a.slabs.size ∧ a.frontier.limit.offset = last.capacity := by
  have hslab : a.slabs[a.slabs.size - 1]? = some last := by rw [← Array.back?_eq_getElem?, hlast]
  have hlt := (Array.getElem?_eq_some_iff.1 hslab).1
  have hord := h.ordinal_lt hlt
  have hcap : last.capacity = c.slabSize := by
    rw [h.slab?] at hslab
    split at hslab <;> cases hslab
    rfl
  obtain ⟨hs, hk⟩ := h.packed hslab (Nat.le_refl _)
  rw [Arena.frontier, hlast]
  dsimp only
  rw [hs, hk, SlotAddr.slab_ofParts, SlotAddr.offset_ofParts, hcap, h.slabSize_eq,
    UInt32.toNat_ofNat_of_lt' (show a.slabs.size - 1 < 2 ^ 32 by omega)]
  exact ⟨by omega, rfl, by omega, rfl⟩

/-- **The end of a slab** is read as the start of the next one, whose ordinal does not wrap. -/
theorem normalize_packed (h : a.Stores c xs) {s : Nat} (hs : s < a.slabs.size) :
    a.normalize (.ofParts (.ofNat s) a.slabSize) = .ofCounts (s + 1) 0 ∧
      (SlotAddr.ofCounts (s + 1) 0).slab.toNat = s + 1 := by
  refine ⟨?_, SlotAddr.toNat_slab_ofCounts (h.ordinal_lt hs) 0⟩
  rw [normalize, SlotAddr.offset_ofParts, if_pos rfl, SlotAddr.slab_ofParts, SlotAddr.ofCounts,
    UInt32.ofNat_add]
  rfl

/-- **The number of slots** fits into a word of 64 bits. -/
theorem size_lt (h : a.Stores c xs) : a.size < UInt64.size := by
  have hw := h.valid.width_lt
  have hm := h.valid.maxSlabs_lt
  calc a.size = xs.length := h.size_eq
    _ ≤ c.width * c.maxSlabs.toNat := h.fits
    _ < 2 ^ 32 * 2 ^ 32 := Nat.mul_lt_mul'' (by omega) (by omega)
    _ = UInt64.size := rfl

theorem map_fst_entries (h : a.Stores c xs) :
    a.entries.map Prod.fst = c.addresses xs.length := by
  rw [h.entries_eq]
  exact SlotList.map_fst_entries c xs

/-- **The notes after a run** are the addresses of the slots then, and no answer of the run
gave out the null address. -/
theorem run_noted (h : a.Stores c xs) (w : Heap × σ) (calls : List (ArenaCall σ)) :
    (a.run w calls).1.foldl ArenaReply.noted (c.addresses xs.length)
        = (a.run w calls).2.1.entries.map Prod.fst ∧
      ∀ r ∈ (a.run w calls).1, ∀ addr ∈ r.given, addr ≠ .null := by
  induction calls generalizing a xs w with
  | nil => exact ⟨h.map_fst_entries.symm, nofun⟩
  | cons call rest ih =>
    -- the answer is that of the list, which keeps the notes in step with its positions
    obtain ⟨hr, hs, -⟩ := h.call w call
    obtain ⟨hnoted, hgiven⟩ := ih hs (a.call w call).2.2
    simp only [Arena.run, List.foldl_cons, List.forall_mem_cons]
    refine ⟨?_, ?_, hgiven⟩
    · rw [hr, SlotList.noted_call]
      exact hnoted
    · rw [hr]
      exact fun addr ha => SlotList.ne_null_of_given_call h.valid ha

end Stores

/-- **The addresses of an arena keep what they pack,** whatever it went through. -/
theorem addressed_run (hc : c.IsValid) (w : Heap × σ) (calls : List (ArenaCall σ)) :
    let after := run { config := c } w calls
    after.2.1.Addressed after.1 := by
  intro after
  have hinit := stores_of_ofConfig? (ofConfig?_eq_ok hc)
  have hs : after.2.1.Stores c _ := (hinit.run w calls).2.1
  obtain ⟨hnoted, hgiven⟩ := hinit.run_noted w calls
  refine
    { packed := fun s slab hslab k hk => hs.packed hslab hk
      read := fun addr x => hs.mem_entries_iff
      frontier := fun last hlast => hs.frontier_packed hlast
      next := fun s hlt => hs.normalize_packed hlt, size_lt := hs.size_lt
      noted := hnoted, increasing := hs.addresses_increasing, slot_ne_null := fun addr ha => ?_
      nextFree_ne_null := ?_, limit_ne_null := ?_, given_ne_null := hgiven }
  · rw [hs.map_fst_entries] at ha
    obtain ⟨k, -, rfl⟩ := List.mem_map.1 ha
    exact hc.slotAt_ne_null k
  · rw [hs.frontier_eq]
    exact hc.nextFree_ne_null _
  · rw [hs.frontier_eq]
    exact hc.limit_ne_null _

end Arena
end EngineHandles
