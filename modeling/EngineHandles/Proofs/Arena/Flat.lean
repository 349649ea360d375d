/-
# An arena is a list

An arena shows its slabs only through addresses, capacities and the frontier.  Behind
them stands one list of slots: `a.Stores c xs` says that under the valid configuration
`c` the slab at ordinal `s` is the stretch of `xs` from `w * s` to `w * (s + 1)`, where
`w` is the width of a slab.  So every slab but the last is full, and the last is not
empty, without a word about either.

Each operation is then an operation on lists.  `Stores.append_ok` adds at the end,
`Stores.write_slotAt` replaces a slot, and `Stores.get?_eq` and `Stores.entries_eq` read.
The frontier is a function of the length alone (`Stores.frontier_eq`), so a checkpoint
remembers a length.
-/

import EngineHandles.Proofs.Arena.Position

namespace EngineHandles

/-- The slab at ordinal `s` of an arena that stores `xs`. -/
def ArenaConfig.slabAt (c : ArenaConfig) (xs : List Slot) (s : Nat) : Slab :=
  ⟨c.slabSize, ((xs.drop (c.width * s)).take c.width).toArray⟩

namespace Arena

/-- The arena has a valid configuration and stores a list of slots. -/
structure Stores (a : Arena) (c : ArenaConfig) (xs : List Slot) : Prop where
  config_eq : a.config = c
  valid : c.IsValid
  slab? : ∀ s, a.slabs[s]? = if c.width * s < xs.length then some (c.slabAt xs s) else none
  fits : xs.length ≤ c.capacity

variable {a : Arena} {c : ArenaConfig} {xs : List Slot}

theorem size_slabAt (c : ArenaConfig) (xs : List Slot) (s : Nat) :
    (c.slabAt xs s).slots.size = min c.width (xs.length - c.width * s) := by
  simp [ArenaConfig.slabAt]

/-- A slab that is full does not change when slots are added after it. -/
theorem slabAt_append {s : Nat} (hs : c.width * (s + 1) ≤ xs.length) (ys : List Slot) :
    c.slabAt (xs ++ ys) s = c.slabAt xs s := by
  rw [Nat.mul_succ] at hs
  have hl : c.width ≤ (xs.drop (c.width * s)).length := by rw [List.length_drop]; omega
  rw [ArenaConfig.slabAt, ArenaConfig.slabAt, List.drop_append_of_le_length (by omega),
    List.take_append_of_le_length hl]

/-- A slab that is full does not change when slots after it are removed. -/
theorem slabAt_take {s p : Nat} (hs : c.width * (s + 1) ≤ p) :
    c.slabAt (xs.take p) s = c.slabAt xs s := by
  rw [Nat.mul_succ] at hs
  rw [ArenaConfig.slabAt, ArenaConfig.slabAt, List.drop_take, List.take_take,
    Nat.min_eq_left (by omega)]

/-- Writing a slot leaves the others alone. -/
theorem get?_write_of_ne {addr b : SlotAddr} (hne : b ≠ addr) (x : Slot) :
    (a.write addr x).get? b = a.get? b := by
  rw [get?, get?, write]
  dsimp only
  rw [Array.getElem?_modify]
  by_cases hslab : addr.slab.toNat = b.slab.toNat
  · rw [if_pos hslab]
    cases a.slabs[b.slab.toNat]? with
    | none => rfl
    | some slab =>
      have hoff : addr.offset.toNat ≠ b.offset.toNat := fun hoff => hne (by
        rw [← SlotAddr.ofParts_slab_offset b, ← SlotAddr.ofParts_slab_offset addr,
          UInt32.toNat_inj.1 hslab, UInt32.toNat_inj.1 hoff])
      exact Array.getElem?_setIfInBounds_ne hoff
  · rw [if_neg hslab]

/-- A slot that is written reads as it was written. -/
theorem get?_write_self {addr : SlotAddr} {y : Slot} (hy : a.get? addr = some y) (x : Slot) :
    (a.write addr x).get? addr = some x := by
  rw [get?] at hy
  rw [get?, write]
  dsimp only
  rw [Array.getElem?_modify, if_pos rfl]
  cases hs : a.slabs[addr.slab.toNat]? with
  | none =>
    rw [hs] at hy
    cases hy
  | some slab =>
    rw [hs] at hy
    exact Array.getElem?_setIfInBounds_self_of_lt (Array.getElem?_eq_some_iff.1 hy).1

/-- An arena without slabs stores nothing. -/
theorem stores_of_ofConfig? (h : ofConfig? c = .ok a) : a.Stores c [] := by
  unfold ofConfig? at h
  split at h
  · cases h
  · rename_i hc
    cases h
    exact ⟨rfl, hc, fun s => by simp, Nat.zero_le _⟩

namespace Stores

/-- Only one arena stores given slots. -/
theorem unique {b : Arena} (ha : a.Stores c xs) (hb : b.Stores c xs) : a = b := by
  obtain ⟨config, slabs⟩ := a
  obtain ⟨config', slabs'⟩ := b
  obtain rfl : config = config' := ha.config_eq.trans hb.config_eq.symm
  obtain rfl : slabs = slabs' :=
    Array.ext_getElem? fun s => (ha.slab? s).trans (hb.slab? s).symm
  rfl

theorem slabSize_eq (h : a.Stores c xs) : a.slabSize = c.slabSize := by rw [slabSize, h.config_eq]

theorem lt_slabs_size (h : a.Stores c xs) (s : Nat) :
    s < a.slabs.size ↔ c.width * s < xs.length := by
  have := h.slab? s
  split at this
  · rename_i hs
    exact iff_of_true (Array.getElem?_eq_some_iff.1 this).1 hs
  · rename_i hs
    exact iff_of_false (by simpa using this) hs

theorem slabs_eq_empty (h : a.Stores c []) : a.slabs = #[] := by
  have := h.lt_slabs_size 0
  rw [← Array.size_eq_zero_iff]
  simpa using this

/-- The number of slabs is the number of slots over the width, rounded up. -/
theorem slabs_size (h : a.Stores c xs) (hn : xs ≠ []) :
    a.slabs.size = (xs.length - 1) / c.width + 1 := by
  have hpos := List.length_pos_iff.2 hn
  have hw := h.valid.width_pos
  have hd := Nat.div_add_mod (xs.length - 1) c.width
  have hr := Nat.mod_lt (xs.length - 1) hw
  have hlast := (h.lt_slabs_size ((xs.length - 1) / c.width)).2 (by omega)
  have hnext := h.lt_slabs_size ((xs.length - 1) / c.width + 1)
  rw [Nat.mul_succ] at hnext
  omega

theorem back?_eq (h : a.Stores c xs) (hn : xs ≠ []) :
    a.slabs.back? = some (c.slabAt xs ((xs.length - 1) / c.width)) := by
  have hs := h.slabs_size hn
  rw [Array.back?_eq_getElem?, hs, Nat.add_sub_cancel, h.slab?,
    if_pos ((h.lt_slabs_size _).1 (by omega))]

theorem size_last (h : a.Stores c xs) (hn : xs ≠ []) :
    (c.slabAt xs ((xs.length - 1) / c.width)).slots.size = (xs.length - 1) % c.width + 1 := by
  have hpos := List.length_pos_iff.2 hn
  have hd := Nat.div_add_mod (xs.length - 1) c.width
  have hr := h.valid.mod_width_lt (xs.length - 1)
  rw [size_slabAt]
  omega

/-- **The number of slots**, read off the last slab, is the length of the list. -/
theorem size_eq (h : a.Stores c xs) : a.size = xs.length := by
  by_cases hn : xs = []
  · subst hn
    simp [size, h.slabs_eq_empty]
  · have hpos := List.length_pos_iff.2 hn
    have hd := Nat.div_add_mod (xs.length - 1) c.width
    rw [size, h.back?_eq hn]
    dsimp only
    rw [h.slabs_size hn, h.size_last hn, h.slabSize_eq, Nat.add_sub_cancel]
    rw [ArenaConfig.width] at hd ⊢
    omega

/-- **The frontier** is a function of the number of slots. -/
theorem frontier_eq (h : a.Stores c xs) : a.frontier = c.frontierAt xs.length := by
  by_cases hn : xs = []
  · subst hn
    simp [frontier, h.slabs_eq_empty]
  · have hpos := List.length_pos_iff.2 hn
    rw [frontier, h.back?_eq hn]
    dsimp only
    rw [h.slabs_size hn, h.size_last hn, h.slabSize_eq, Nat.add_sub_cancel,
      ArenaConfig.frontierAt, if_neg (by omega)]

/-- The slots of the slabs from ordinal `s` on. -/
theorem flatMap_drop (h : a.Stores c xs) (s : Nat) :
    (a.slabs.toList.drop s).flatMap (fun slab => slab.slots.toList) = xs.drop (c.width * s) := by
  -- from the last slab down to slab `s`
  induction hk : a.slabs.size - s generalizing s with
  | zero =>
    have hs : a.slabs.size ≤ s := by omega
    have := h.lt_slabs_size s
    rw [List.drop_eq_nil_of_le (by simpa using hs), List.drop_eq_nil_of_le (by omega)]
    rfl
  | succ k ih =>
    have hs : s < a.slabs.size := by omega
    have hslab := h.slab? s
    rw [if_pos ((h.lt_slabs_size s).1 hs), Array.getElem?_eq_getElem hs] at hslab
    rw [List.drop_eq_getElem_cons (by simpa using hs), List.flatMap_cons, ih (s + 1) (by omega),
      Array.getElem_toList, Option.some.inj hslab, Nat.mul_succ, ← List.drop_drop]
    exact List.take_append_drop _ _

/-- The slots of the slabs from ordinal `s` on, with their addresses. -/
theorem flatMap_zipIdx_drop (h : a.Stores c xs) (s : Nat) :
    ((a.slabs.toList.drop s).zipIdx s).flatMap (fun (slab, s) =>
        slab.slots.toList.zipIdx.map fun (x, k) => (SlotAddr.ofCounts s k, x))
      = ((xs.drop (c.width * s)).zipIdx (c.width * s)).map fun (x, k) => (c.slotAt k, x) := by
  have hw := h.valid.width_pos
  -- from the last slab down to slab `s`
  induction hk : a.slabs.size - s generalizing s with
  | zero =>
    have hs : a.slabs.size ≤ s := by omega
    have := h.lt_slabs_size s
    rw [List.drop_eq_nil_of_le (by simpa using hs), List.drop_eq_nil_of_le (by omega)]
    rfl
  | succ k ih =>
    have hs : s < a.slabs.size := by omega
    have hslab := h.slab? s
    rw [if_pos ((h.lt_slabs_size s).1 hs), Array.getElem?_eq_getElem hs] at hslab
    have hhead : (c.slabAt xs s).slots.toList.zipIdx.map (fun (x, k) => (SlotAddr.ofCounts s k, x))
        = (((xs.drop (c.width * s)).take c.width).zipIdx (c.width * s)).map
            fun (x, k) => (c.slotAt k, x) := by
      refine List.ext_getElem (by simp [ArenaConfig.slabAt]) fun i hi _ => ?_
      have hi' : i < c.width := by
        simp only [List.length_map, List.length_zipIdx, Array.length_toList, size_slabAt] at hi
        omega
      simp [ArenaConfig.slabAt, ArenaConfig.slotAt, Nat.mul_add_div hw, Nat.div_eq_of_lt hi',
        Nat.mod_eq_of_lt hi']
    -- a slab that is not full is the last one
    have htail : (xs.drop (c.width * s)).take c.width ++ xs.drop (c.width * (s + 1))
        = xs.drop (c.width * s) := by
      rw [Nat.mul_succ, ← List.drop_drop, List.take_append_drop]
    have hidx : (xs.drop (c.width * (s + 1))).zipIdx
          (c.width * s + ((xs.drop (c.width * s)).take c.width).length)
        = (xs.drop (c.width * (s + 1))).zipIdx (c.width * (s + 1)) := by
      rcases Nat.lt_or_ge (c.width * (s + 1)) xs.length with hlt | hge
      · rw [Nat.mul_succ] at hlt
        rw [List.length_take, List.length_drop, Nat.min_eq_left (by omega), Nat.mul_succ]
      · rw [List.drop_eq_nil_of_le hge]
        rfl
    rw [List.drop_eq_getElem_cons (by simpa using hs), List.zipIdx_cons, List.flatMap_cons,
      ih (s + 1) (by omega), Array.getElem_toList, Option.some.inj hslab]
    dsimp only
    rw [hhead, ← List.map_append, ← htail, List.zipIdx_append, hidx, htail]

/-- **Visiting the slots** in order of their addresses visits the list. -/
theorem entries_eq (h : a.Stores c xs) :
    a.entries = xs.zipIdx.map fun (x, k) => (c.slotAt k, x) := by
  have := h.flatMap_zipIdx_drop 0
  rwa [List.drop_zero, Nat.mul_zero, List.drop_zero] at this

/-- The slots come in the order of their addresses. -/
theorem addresses_increasing (h : a.Stores c xs) :
    (a.entries.map Prod.fst).Pairwise (· < ·) := by
  rw [h.entries_eq, List.map_map, List.pairwise_map, List.pairwise_iff_getElem]
  intro i j hi hj hij
  rw [List.length_zipIdx] at hi hj
  simp only [List.getElem_zipIdx, Function.comp, Nat.zero_add]
  have := h.fits
  exact h.valid.slotAt_lt_slotAt hij (by omega)

/-- No two slots have one address. -/
theorem nodup_addresses (h : a.Stores c xs) : (a.entries.map Prod.fst).Nodup :=
  h.addresses_increasing.imp fun hlt he => by
    rw [he, SlotAddr.lt_iff] at hlt
    omega

/-- The slots from position `p` on. -/
theorem slotsFrom_eq (h : a.Stores c xs) {p : Nat} (hp : p < xs.length) :
    a.slotsFrom (p / c.width) (p % c.width) = xs.drop p := by
  have hd := Nat.div_add_mod p c.width
  have hs : p / c.width < a.slabs.size := (h.lt_slabs_size _).2 (by omega)
  have hf := h.flatMap_drop (p / c.width)
  have hslab := h.slab? (p / c.width)
  rw [if_pos ((h.lt_slabs_size _).1 hs), Array.getElem?_eq_getElem hs] at hslab
  have hk : p % c.width ≤ (c.slabAt xs (p / c.width)).slots.toList.length := by
    have := h.valid.mod_width_lt p
    rw [Array.length_toList, size_slabAt]
    omega
  rw [List.drop_eq_getElem_cons (by simpa using hs), Array.getElem_toList,
    Option.some.inj hslab] at hf
  rw [slotsFrom, List.drop_eq_getElem_cons (by simpa using hs), Array.getElem_toList,
    Option.some.inj hslab]
  dsimp only
  rw [← List.drop_append_of_le_length hk]
  rw [List.flatMap_cons] at hf
  rw [hf, List.drop_drop, hd]

theorem slotsFrom_zero (h : a.Stores c xs) : a.slotsFrom 0 0 = xs := by
  by_cases hn : xs = []
  · subst hn
    simp [slotsFrom, h.slabs_eq_empty]
  · have := h.slotsFrom_eq (List.length_pos_iff.2 hn)
    rwa [Nat.zero_div, Nat.zero_mod] at this

/-- **Reading a slot** by its address. -/
theorem get?_eq (h : a.Stores c xs) (addr : SlotAddr) :
    a.get? addr = (c.position? addr).bind (xs[·]?) := by
  rw [get?, h.slab?, ArenaConfig.position?]
  by_cases ho : addr.offset.toNat < c.width
  · rw [if_pos ho, Option.bind_some]
    by_cases hs : c.width * addr.slab.toNat < xs.length
    · rw [if_pos hs]
      simp [ArenaConfig.slabAt, ho]
    · rw [if_neg hs, List.getElem?_eq_none (by omega)]
  · rw [if_neg ho]
    by_cases hs : c.width * addr.slab.toNat < xs.length
    · rw [if_pos hs]
      exact Array.getElem?_eq_none (by rw [size_slabAt]; omega)
    · rw [if_neg hs]
      rfl

theorem get?_slotAt (h : a.Stores c xs) {k : Nat} (hk : k < xs.length) :
    a.get? (c.slotAt k) = xs[k]? := by
  rw [h.get?_eq, h.valid.position?_slotAt (by have := h.fits; omega)]
  rfl

/-- Nothing is stored yet at the next address. -/
theorem get?_next (h : a.Stores c xs) (hlt : xs.length < c.capacity) :
    a.get? (c.slotAt xs.length) = none := by
  rw [h.get?_eq, h.valid.position?_slotAt (Nat.le_of_lt hlt)]
  exact List.getElem?_eq_none (Nat.le_refl _)

/-- A stored slot lies at the address of its position. -/
theorem exists_of_get? (h : a.Stores c xs) {addr : SlotAddr} {x : Slot}
    (hx : a.get? addr = some x) : ∃ k, addr = c.slotAt k ∧ xs[k]? = some x := by
  rw [h.get?_eq] at hx
  obtain ⟨k, hk, hx⟩ := Option.bind_eq_some_iff.1 hx
  exact ⟨k, (ArenaConfig.slotAt_of_position? hk).symm, hx⟩

/-- The entries are the slots that are found at their addresses. -/
theorem mem_entries_iff (h : a.Stores c xs) {addr : SlotAddr} {x : Slot} :
    (addr, x) ∈ a.entries ↔ a.get? addr = some x := by
  rw [h.entries_eq]
  constructor
  · intro hx
    obtain ⟨⟨y, k⟩, hk, he⟩ := List.mem_map.1 hx
    cases he
    obtain ⟨hlt, rfl⟩ := List.getElem?_eq_some_iff.1 (List.mk_mem_zipIdx_iff_getElem?.1 hk)
    rw [h.get?_slotAt hlt, List.getElem?_eq_getElem hlt]
  · intro hx
    obtain ⟨k, rfl, hk⟩ := h.exists_of_get? hx
    exact List.mem_map.2 ⟨(x, k), List.mk_mem_zipIdx_iff_getElem?.2 hk, rfl⟩

/-- Replacing the slot at position `k`, slab by slab. -/
theorem slabAt_set (c : ArenaConfig) (xs : List Slot) (s : Nat) {k : Nat} (x : Slot)
    (hw : 0 < c.width) :
    c.slabAt (xs.set k x) s
      = if k / c.width = s then (c.slabAt xs s).write (k % c.width) x else c.slabAt xs s := by
  have hd := Nat.div_add_mod k c.width
  have hr := Nat.mod_lt k hw
  rw [ArenaConfig.slabAt, List.drop_set]
  rcases Nat.lt_trichotomy (k / c.width) s with hlt | rfl | hlt
  · have := Nat.mul_le_mul_left c.width (Nat.succ_le_of_lt hlt)
    rw [Nat.mul_succ] at this
    rw [if_pos (by omega), if_neg (by omega)]
    rfl
  · rw [if_neg (by omega), if_pos rfl, List.take_set, Slab.write, ArenaConfig.slabAt,
      show k - c.width * (k / c.width) = k % c.width by omega]
    simp
  · have := Nat.mul_le_mul_left c.width (Nat.succ_le_of_lt hlt)
    rw [Nat.mul_succ] at this
    rw [if_neg (by omega), if_neg (by omega), List.take_set,
      List.set_eq_of_length_le (by rw [List.length_take]; omega)]
    rfl

/-- **Writing a slot** replaces it. -/
theorem write_slotAt (h : a.Stores c xs) {k : Nat} (hk : k < xs.length) (x : Slot) :
    (a.write (c.slotAt k) x).Stores c (xs.set k x) := by
  have hcap : k < c.capacity := by have := h.fits; omega
  have h1 := ArenaConfig.div_width_lt hcap
  have h2 := h.valid.maxSlabs_lt
  have h3 := h.valid.mod_width_lt k
  have h4 := h.valid.width_lt
  refine ⟨h.config_eq, h.valid, fun s => ?_, by rw [List.length_set]; exact h.fits⟩
  rw [write, Array.getElem?_modify, h.slab?, List.length_set,
    slabAt_set c xs s x h.valid.width_pos, ArenaConfig.slotAt,
    SlotAddr.toNat_slab_ofCounts (by omega), SlotAddr.toNat_offset_ofCounts _ (by omega)]
  split <;> split <;> simp_all

/-- Adding a slot at the end, slab by slab. -/
theorem slabAt_concat (c : ArenaConfig) (xs : List Slot) (s : Nat) (x : Slot)
    (hw : 0 < c.width) :
    c.slabAt (xs ++ [x]) s
      = if xs.length / c.width = s then (c.slabAt xs s).push x else c.slabAt xs s := by
  have hd := Nat.div_add_mod xs.length c.width
  have hr := Nat.mod_lt xs.length hw
  rcases Nat.lt_trichotomy (xs.length / c.width) s with hlt | rfl | hlt
  · have := Nat.mul_le_mul_left c.width (Nat.succ_le_of_lt hlt)
    rw [Nat.mul_succ] at this
    rw [if_neg (by omega), ArenaConfig.slabAt, ArenaConfig.slabAt,
      List.drop_eq_nil_of_le (by rw [List.length_append, List.length_singleton]; omega),
      List.drop_eq_nil_of_le (by omega)]
  · rw [if_pos rfl, ArenaConfig.slabAt, List.drop_append_of_le_length (by omega),
      List.take_of_length_le
        (by rw [List.length_append, List.length_drop, List.length_singleton]; omega),
      ArenaConfig.slabAt, List.take_of_length_le (by rw [List.length_drop]; omega), Slab.push]
    simp
  · have : c.width * (s + 1) ≤ c.width * (xs.length / c.width) :=
      Nat.mul_le_mul_left c.width (Nat.succ_le_of_lt hlt)
    rw [if_neg (by omega), slabAt_append (by omega)]

theorem mul_lt_length_concat (xs : List Slot) (x : Slot) {s w : Nat} (hw : 0 < w) :
    w * s < (xs ++ [x]).length ↔ s ≤ xs.length / w := by
  rw [Nat.le_div_iff_mul_le hw, List.length_append, List.length_singleton, Nat.mul_comm]
  omega

theorem slabs_size_of_mod_eq_zero (h : a.Stores c xs) (hm : xs.length % c.width = 0) :
    a.slabs.size = xs.length / c.width := by
  have hd := Nat.div_add_mod xs.length c.width
  have h0 := h.lt_slabs_size (xs.length / c.width)
  have h1 := h.lt_slabs_size (xs.length / c.width - 1)
  rw [Nat.mul_sub_one] at h1
  have h2 : 0 < xs.length / c.width → c.width ≤ c.width * (xs.length / c.width) :=
    Nat.le_mul_of_pos_right c.width
  have h3 := h.valid.width_pos
  omega

theorem slabs_size_of_mod_ne_zero (h : a.Stores c xs) (hm : xs.length % c.width ≠ 0) :
    a.slabs.size = xs.length / c.width + 1 := by
  have hd := Nat.div_add_mod xs.length c.width
  have hr := h.valid.mod_width_lt xs.length
  have h0 := h.lt_slabs_size (xs.length / c.width)
  have h1 := h.lt_slabs_size (xs.length / c.width + 1)
  rw [Nat.mul_succ] at h1
  omega

/-- The last slab has room if the number of slots is no multiple of the width. -/
theorem hasRoom_iff (h : a.Stores c xs) : a.hasRoom = true ↔ xs.length % c.width ≠ 0 := by
  by_cases hn : xs = []
  · subst hn
    simp [hasRoom, h.slabs_eq_empty]
  · have hpos := List.length_pos_iff.2 hn
    have hd := Nat.div_add_mod (xs.length - 1) c.width
    have hr := h.valid.mod_width_lt (xs.length - 1)
    have hm : xs.length % c.width = ((xs.length - 1) % c.width + 1) % c.width := by
      rw [Nat.mod_add_mod, Nat.sub_add_cancel hpos]
    have hfull : (!(c.slabAt xs ((xs.length - 1) / c.width)).isFull) = true
        ↔ (xs.length - 1) % c.width + 1 < c.width := by
      rw [Slab.isFull, h.size_last hn, Bool.not_eq_true', decide_eq_false_iff_not, Nat.not_le]
      rfl
    rw [hasRoom, h.back?_eq hn, Option.any_some, hfull, hm]
    rcases Nat.lt_or_ge ((xs.length - 1) % c.width + 1) c.width with hlt | hge
    · rw [Nat.mod_eq_of_lt hlt]
      omega
    · rw [show (xs.length - 1) % c.width + 1 = c.width by omega, Nat.mod_self]
      omega

/-- A slot added to the last slab. -/
theorem stores_modify (h : a.Stores c xs) (x : Slot) (hlt : xs.length < c.capacity)
    (hm : xs.length % c.width ≠ 0) :
    Stores { a with slabs := a.slabs.modify (a.slabs.size - 1) (·.push x) } c (xs ++ [x]) := by
  have hw := h.valid.width_pos
  have hsize := h.slabs_size_of_mod_ne_zero hm
  refine ⟨h.config_eq, h.valid, fun s => ?_, ?_⟩
  · have h1 := mul_lt_length_concat xs x (s := s) hw
    have h2 := h.lt_slabs_size s
    rw [Array.getElem?_modify, hsize, Nat.add_sub_cancel, h.slab?, slabAt_concat c xs s x hw]
    by_cases he : xs.length / c.width = s
    · rw [if_pos he, if_pos (h2.1 (by omega)), if_pos (h1.2 (by omega)), if_pos he]
      rfl
    · rw [if_neg he, if_neg he]
      simp only [show c.width * s < (xs ++ [x]).length ↔ c.width * s < xs.length by omega]
  · rw [List.length_append, List.length_singleton]
    exact hlt

/-- A slot added in a further slab. -/
theorem stores_push (h : a.Stores c xs) (x : Slot) (hlt : xs.length < c.capacity)
    (hm : xs.length % c.width = 0) :
    Stores { a with slabs := a.slabs.push { capacity := a.slabSize, slots := #[x] } } c
      (xs ++ [x]) := by
  have hw := h.valid.width_pos
  have hsize := h.slabs_size_of_mod_eq_zero hm
  refine ⟨h.config_eq, h.valid, fun s => ?_, ?_⟩
  · have h1 := mul_lt_length_concat xs x (s := s) hw
    have h2 := h.lt_slabs_size s
    rw [Array.getElem?_push, hsize, h.slab?, slabAt_concat c xs s x hw, h.slabSize_eq]
    by_cases he : s = xs.length / c.width
    · have hd := Nat.div_add_mod xs.length c.width
      rw [if_pos he, if_pos (h1.2 (by omega)), if_pos he.symm, he, ArenaConfig.slabAt,
        List.drop_eq_nil_of_le (by omega), List.take_nil]
      rfl
    · rw [if_neg he, if_neg (c := xs.length / c.width = s) fun hh => he hh.symm]
      simp only [show c.width * s < (xs ++ [x]).length ↔ c.width * s < xs.length by omega]
  · rw [List.length_append, List.length_singleton]
    exact hlt

/-- **Adding a slot** stores it at the next position, as long as there is room. -/
theorem append_ok (h : a.Stores c xs) (x : Slot) (hlt : xs.length < c.capacity) :
    ∃ a', a.append x = (.ok ⟨c.slotAt xs.length, c.frontierAt (xs.length + 1)⟩, a') ∧
      a'.Stores c (xs ++ [x]) := by
  have hlen : (xs ++ [x]).length = xs.length + 1 := by
    rw [List.length_append, List.length_singleton]
  by_cases hm : xs.length % c.width = 0
  · have hs := h.stores_push x hlt hm
    have hsize := h.slabs_size_of_mod_eq_zero hm
    have hno : ¬ a.hasRoom = true := fun hr => h.hasRoom_iff.1 hr hm
    have hroom := ArenaConfig.div_width_lt hlt
    refine ⟨_, ?_, hs⟩
    rw [append, if_neg hno, if_neg (by rw [h.config_eq, hsize]; omega)]
    dsimp only
    rw [hs.frontier_eq, hlen, hsize, ArenaConfig.slotAt, hm]
  · have hs := h.stores_modify x hlt hm
    refine ⟨_, ?_, hs⟩
    rw [append, if_pos (h.hasRoom_iff.2 hm)]
    dsimp only
    rw [hs.frontier_eq, hlen, h.frontier_eq, h.valid.nextFree_eq_slotAt hm]

/-- A slot that is added leaves the others where they are. -/
theorem append_frame (h : a.Stores c xs) (hlt : xs.length < c.capacity) (x : Slot) :
    ∃ a', a.append x = (.ok ⟨c.slotAt xs.length, a'.frontier⟩, a') ∧ a'.Stores c (xs ++ [x]) ∧
      a'.get? (c.slotAt xs.length) = some x ∧
      ∀ addr, addr ≠ c.slotAt xs.length → a'.get? addr = a.get? addr := by
  obtain ⟨a', ha, hs⟩ := h.append_ok x hlt
  have hlen : (xs ++ [x]).length = xs.length + 1 := by
    rw [List.length_append, List.length_singleton]
  refine ⟨a', by rw [ha, hs.frontier_eq, hlen], hs, ?_, fun addr hne => ?_⟩
  · rw [hs.get?_slotAt (by omega), List.getElem?_concat_length]
  · rw [hs.get?_eq, h.get?_eq]
    refine Option.bind_congr fun k hk => ?_
    have hk' : k ≠ xs.length := fun he => hne (by rw [← he, ArenaConfig.slotAt_of_position? hk])
    rcases Nat.lt_or_ge k xs.length with hlt' | hge
    · exact List.getElem?_append_left hlt'
    · rw [List.getElem?_eq_none hge, List.getElem?_eq_none (by omega)]

/-- **A full arena** refuses a further slot. -/
theorem append_full (h : a.Stores c xs) (x : Slot) (hn : xs.length = c.capacity) :
    a.append x = (.error (.capacityExceeded c.maxSlabs.toNat c.maxSlabs.toNat), a) := by
  have hm : xs.length % c.width = 0 := by rw [hn, ArenaConfig.capacity, Nat.mul_mod_right]
  have hsize := h.slabs_size_of_mod_eq_zero hm
  rw [hn, ArenaConfig.capacity, Nat.mul_div_cancel_left _ h.valid.width_pos] at hsize
  have hno : ¬ a.hasRoom = true := fun hr => h.hasRoom_iff.1 hr hm
  rw [append, if_neg hno, h.config_eq, hsize, if_pos (Nat.le_refl _)]

end Stores
end Arena
end EngineHandles
