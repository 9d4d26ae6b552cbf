import Nanna.Lib.Text

/-!
# Unsigned numbers as text

`parseUnsigned bound` reads an unsigned integer below `bound`: an optional `+`, then one or more
ASCII digits. It reads back what `Nat.toDigits 10` writes (`parseUnsigned_toDigits`).
-/

namespace Nanna.Lib

variable {bound n : Nat}

/-- One or more ASCII digits, as a number below `bound`. -/
def readDigits (bound : Nat) (digits : Text) : Option Nat :=
  if digits ≠ [] ∧ digits.all Char.isDigit ∧ Nat.ofDigitChars 10 digits 0 < bound then
    some (Nat.ofDigitChars 10 digits 0)
  else none

/-- `str::parse` at an unsigned type with `bound` values. -/
def parseUnsigned (bound : Nat) (t : Text) : Option Nat :=
  readDigits bound (if t.head? = some '+' then t.tail else t)

theorem isDigit_toDigits {c : Char} (h : c ∈ Nat.toDigits 10 n) : c.isDigit = true :=
  Nat.isDigit_of_mem_toDigits (by decide) (by decide) h

theorem readDigits_toDigits (h : n < bound) : readDigits bound (Nat.toDigits 10 n) = some n := by
  have hne : Nat.toDigits 10 n ≠ [] := List.ne_nil_of_length_pos Nat.length_toDigits_pos
  have hall : (Nat.toDigits 10 n).all Char.isDigit = true :=
    List.all_eq_true.mpr fun _ hc => isDigit_toDigits hc
  rw [readDigits, Nat.ofDigitChars_ten_toDigits, if_pos ⟨hne, hall, h⟩]

/-- A written number reads back. -/
theorem parseUnsigned_toDigits (h : n < bound) :
    parseUnsigned bound (Nat.toDigits 10 n) = some n := by
  have hplus : (Nat.toDigits 10 n).head? ≠ some '+' := fun hhead =>
    absurd (isDigit_toDigits (List.mem_of_head? hhead)) (by decide)
  rw [parseUnsigned, if_neg hplus, readDigits_toDigits h]

end Nanna.Lib
