/-
# Slot addresses

A slot is named by the ordinal of its slab and its offset inside the slab, each
a 32-bit word.  The two are packed into one 64-bit word, the slab in the upper
half, so that comparing words compares slabs first and offsets second.  The word
with every bit set names no slot and is called the null address.

`slab_ofParts`, `offset_ofParts` and `ofParts_slab_offset` say that packing loses
nothing, and `toNat_raw_ofParts` gives the packed word as a number.  An address is
read back from its written form, by `ofText?_text`.
-/

import EngineHandles.Numeral

namespace EngineHandles

/-- The address of a slot, packed into one word. -/
structure SlotAddr where
  raw : UInt64
deriving DecidableEq, Repr

namespace SlotAddr

/-- The address of slot `offset` of slab `slab`. -/
def ofParts (slab offset : UInt32) : SlotAddr := ⟨slab.toUInt64 <<< 32 ||| offset.toUInt64⟩

/-- The address of slot `offset` of slab `slab`, both counted without a bound;
only their lower 32 bits are kept. -/
def ofCounts (slab offset : Nat) : SlotAddr := ofParts (UInt32.ofNat slab) (UInt32.ofNat offset)

/-- The ordinal of the slab. -/
def slab (a : SlotAddr) : UInt32 := (a.raw >>> 32).toUInt32

/-- The offset inside the slab. -/
def offset (a : SlotAddr) : UInt32 := a.raw.toUInt32

/-- The address that names no slot. -/
def null : SlotAddr := ⟨0xFFFFFFFFFFFFFFFF⟩

/-- Whether an address is the null address. -/
def isNull (a : SlotAddr) : Bool := a == null

/-- The written form of an address: slab and offset with a colon between, or `null`. -/
def text (a : SlotAddr) : String :=
  if a.isNull then "null" else toString a.slab ++ ":" ++ toString a.offset

instance : ToString SlotAddr := ⟨text⟩

/-- Reads an address: `null`, slab and offset with a colon between, or the packed word
after `raw:`.  A number that its word cannot hold makes no address. -/
def ofText? (s : String) : Option SlotAddr :=
  if s = "null" then some null
  else match s.toList.takeWhile (· != ':'), s.toList.dropWhile (· != ':') with
    | ['r', 'a', 'w'], _ :: word => (Numeral.read? UInt64.size word).map fun n => ⟨.ofNat n⟩
    | slab, _ :: offset => do
      return ofCounts (← Numeral.read? UInt32.size slab) (← Numeral.read? UInt32.size offset)
    | _, [] => none

/-- The form in which an address is shown to a programmer. -/
def debugText (a : SlotAddr) : String := "SlotAddr(" ++ a.text ++ ")"

instance : LE SlotAddr := ⟨fun a b => a.raw ≤ b.raw⟩
instance : LT SlotAddr := ⟨fun a b => a.raw < b.raw⟩
instance (a b : SlotAddr) : Decidable (a ≤ b) := inferInstanceAs (Decidable (a.raw ≤ b.raw))
instance (a b : SlotAddr) : Decidable (a < b) := inferInstanceAs (Decidable (a.raw < b.raw))

theorem ext {a b : SlotAddr} (h : a.raw = b.raw) : a = b := by
  cases a; cases b; simp_all

/-- A packed word, as a number. -/
theorem toNat_raw_ofParts (s o : UInt32) :
    (ofParts s o).raw.toNat = s.toNat * UInt32.size + o.toNat := by
  have hs := s.toNat_lt
  have ho := o.toNat_lt
  have h : s.toNat <<< 32 < 2 ^ 64 := by rw [Nat.shiftLeft_eq]; omega
  simp only [ofParts, UInt64.toNat_or, UInt64.toNat_shiftLeft, UInt32.toNat_toUInt64]
  rw [show (32 : UInt64).toNat % 64 = 32 from rfl, Nat.mod_eq_of_lt h,
    ← Nat.shiftLeft_add_eq_or_of_lt (by omega), Nat.shiftLeft_eq]

theorem toNat_slab (a : SlotAddr) : a.slab.toNat = a.raw.toNat / UInt32.size := by
  have h := a.raw.toNat_lt
  simp only [slab, UInt64.toNat_toUInt32, UInt64.toNat_shiftRight]
  rw [show (32 : UInt64).toNat % 64 = 32 from rfl, Nat.shiftRight_eq_div_pow, UInt32.size]
  omega

theorem toNat_offset (a : SlotAddr) : a.offset.toNat = a.raw.toNat % UInt32.size := by
  simp [offset]

@[simp] theorem slab_ofParts (s o : UInt32) : (ofParts s o).slab = s := by
  have ho := o.toNat_lt
  apply UInt32.toNat_inj.1
  rw [toNat_slab, toNat_raw_ofParts, UInt32.size]
  omega

@[simp] theorem offset_ofParts (s o : UInt32) : (ofParts s o).offset = o := by
  have ho := o.toNat_lt
  apply UInt32.toNat_inj.1
  rw [toNat_offset, toNat_raw_ofParts, UInt32.size]
  omega

@[simp] theorem ofParts_slab_offset (a : SlotAddr) : ofParts a.slab a.offset = a := by
  apply ext
  apply UInt64.toNat_inj.1
  rw [toNat_raw_ofParts, toNat_slab, toNat_offset, UInt32.size]
  omega

/-- A word in decimal has no colon, so it ends where the colon after it stands. -/
theorem digits_ne_colon (n : Nat) : ∀ c ∈ Nat.toDigits 10 n, (c != ':') = true := by
  intro c hc
  have hd := Nat.isDigit_of_mem_toDigits (by decide) (by decide) hc
  have : c ≠ ':' := by rintro rfl; exact absurd hd (by decide)
  simpa using this

/-- **Addresses read back:** the written form of an address stands for that address. -/
@[simp] theorem ofText?_text (a : SlotAddr) : ofText? a.text = some a := by
  unfold text
  split
  · rename_i h
    simp [ofText?, eq_of_beq h]
  · have hs := a.slab.toNat_lt
    have ho := a.offset.toNat_lt
    have hl : (toString a.slab ++ ":" ++ toString a.offset).toList
        = Nat.toDigits 10 a.slab.toNat ++ ':' :: Nat.toDigits 10 a.offset.toNat := by
      simp [toString]
    have hn : toString a.slab ++ ":" ++ toString a.offset ≠ "null" := by
      intro h
      have hc : ':' ∈ "null".toList := by rw [← h, hl]; simp
      exact absurd hc (by decide)
    have ht : (':' :: Nat.toDigits 10 a.offset.toNat).takeWhile (· != ':') = [] := rfl
    have hd : (':' :: Nat.toDigits 10 a.offset.toNat).dropWhile (· != ':')
        = ':' :: Nat.toDigits 10 a.offset.toNat := rfl
    simp only [ofText?, hn, if_false, hl, List.takeWhile_append_of_pos (digits_ne_colon _),
      List.dropWhile_append_of_pos (digits_ne_colon _), ht, hd, List.append_nil]
    split
    · rename_i h _
      have hr : 'r'.isDigit = true := Nat.isDigit_of_mem_toDigits (by decide) (by decide)
        (h ▸ List.mem_cons_self : 'r' ∈ Nat.toDigits 10 a.slab.toNat)
      exact absurd hr (by decide)
    · rename_i h _
      obtain ⟨_, rfl⟩ := List.cons.inj h
      rw [Numeral.read?_toDigits hs, Numeral.read?_toDigits ho]
      simp [ofCounts]
    · contradiction

end SlotAddr
end EngineHandles
