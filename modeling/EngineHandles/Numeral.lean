/-
# Decimal numerals

Ids, counts and the parts of an address are written in decimal.  A numeral is
read with a bound, that of the word it is read into: one that does not fit is
no numeral of that word, and nothing is cut off.  A plus sign may stand before
the digits, and leading zeros count for nothing.

`read?_toDigits` says that a number below the bound is read back from its digits.
-/

namespace EngineHandles
namespace Numeral

/-- The number that a run of digits stands for after digits of value `before`. -/
def valueFrom? (before : Nat) : List Char → Option Nat
  | [] => some before
  | c :: rest => if c.isDigit then valueFrom? (before * 10 + (c.toNat - '0'.toNat)) rest else none

/-- The digits of a numeral, without its sign. -/
def unsigned : List Char → List Char
  | '+' :: digits => digits
  | digits => digits

/-- The number that a numeral stands for, when it is below `bound`. -/
def read? (bound : Nat) (numeral : List Char) : Option Nat :=
  match unsigned numeral with
  | [] => none
  | digits => (valueFrom? 0 digits).filter (· < bound)

theorem read?_lt {bound n : Nat} {numeral : List Char} (h : read? bound numeral = some n) :
    n < bound := by
  unfold read? at h
  split at h
  · simp at h
  · simpa using (Option.filter_eq_some_iff.1 h).2

theorem valueFrom?_append (a b : List Char) (before : Nat) :
    valueFrom? before (a ++ b) = (valueFrom? before a).bind (valueFrom? · b) := by
  induction a generalizing before with
  | nil => rfl
  | cons c a ih =>
    simp only [List.cons_append, valueFrom?]
    split
    · exact ih _
    · rfl

/-- A single digit is read as its value. -/
theorem valueFrom?_digitChar {d : Nat} (h : d < 10) (before : Nat) :
    valueFrom? before [d.digitChar] = some (before * 10 + d) := by
  have hd : ∀ d < 10, d.digitChar.isDigit = true ∧ d.digitChar.toNat - '0'.toNat = d := by decide
  obtain ⟨h1, h2⟩ := hd d h
  simp only [valueFrom?, h1, h2, if_true]

/-- The digits of a number stand for that number. -/
theorem valueFrom?_toDigits (n : Nat) : valueFrom? 0 (Nat.toDigits 10 n) = some n := by
  induction n using Nat.strongRecOn with
  | ind n ih =>
    by_cases h : n < 10
    · rw [Nat.toDigits_of_lt_base h, valueFrom?_digitChar h]; simp
    · have hm : n % 10 < 10 := Nat.mod_lt n (by decide)
      have e : Nat.toDigits 10 n = Nat.toDigits 10 (n / 10) ++ [(n % 10).digitChar] := by
        rw [← Nat.toDigits_of_lt_base hm, Nat.toDigits_append_toDigits (by decide) (by omega) hm,
          Nat.div_add_mod]
      rw [e, valueFrom?_append, ih _ (by omega)]
      simp only [Option.bind_some, valueFrom?_digitChar hm, Option.some.injEq]
      omega

/-- The digits of a number bear no sign. -/
theorem unsigned_toDigits (n : Nat) : unsigned (Nat.toDigits 10 n) = Nat.toDigits 10 n := by
  unfold unsigned
  split
  · rename_i digits h
    have hd : ('+' : Char).isDigit = true :=
      Nat.isDigit_of_mem_toDigits (by decide) (by decide) (h ▸ List.mem_cons_self)
    exact absurd hd (by decide)
  · rfl

/-- **Numerals read back:** a number below the bound is read from its digits. -/
theorem read?_toDigits {bound n : Nat} (h : n < bound) :
    read? bound (Nat.toDigits 10 n) = some n := by
  unfold read?
  rw [unsigned_toDigits]
  split
  · rename_i e; exact absurd e Nat.toDigits_ne_nil
  · simp [valueFrom?_toDigits, h]

end Numeral
end EngineHandles
