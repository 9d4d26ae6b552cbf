import Mathlib.Algebra.Order.Field.Rat
import Mathlib.Data.Nat.Cast.Field
import Mathlib.Tactic.FieldSimp
import Mathlib.Tactic.Linarith
import Mathlib.Tactic.NormNum
import Mathlib.Tactic.Ring

/-!
# What a double denotes

The 64 bits of a double as the rational they stand for (`doubleValue`); infinities and NaN stand for none. Where
the value is whole it is the significand shifted by the exponent (`doubleMagnitude_shiftLeft`,
`doubleMagnitude_shiftRight`). `Nearest` says that no double is closer to a number, and a number beyond 2^63 has
no nearest double within 2^53 (`abs_lt_of_nearest`).
-/

namespace Nanna.Lib

/-- The biased exponent. -/
def doubleExponent (bits : BitVec 64) : Nat := bits.toNat / 2 ^ 52 % 2 ^ 11

def doubleFraction (bits : BitVec 64) : Nat := bits.toNat % 2 ^ 52

def doubleMagnitude (exponent fraction : Nat) : ℚ :=
  if exponent = 0 then fraction * 2 ^ (-1074 : ℤ)
  else (2 ^ 52 + fraction) * 2 ^ ((exponent : ℤ) - 1075)

/-- The number that a finite double stands for. -/
def doubleValue (bits : BitVec 64) : Option ℚ :=
  if doubleExponent bits = 2047 then none
  else
    let magnitude := doubleMagnitude (doubleExponent bits) (doubleFraction bits)
    some (if bits.msb then -magnitude else magnitude)

/-! ## Whole values -/

theorem doubleMagnitude_zero : doubleMagnitude 0 0 = 0 := by
  rw [doubleMagnitude, if_pos rfl, Nat.cast_zero, zero_mul]

theorem doubleMagnitude_shiftLeft {exponent fraction : Nat} (h : 1075 ≤ exponent) :
    doubleMagnitude exponent fraction = ((2 ^ 52 + fraction) * 2 ^ (exponent - 1075) : ℕ) := by
  have hexponent : (exponent : ℤ) - 1075 = (exponent - 1075 : ℕ) := by omega
  rw [doubleMagnitude, if_neg (by omega), hexponent, zpow_natCast]
  push_cast
  ring

theorem doubleMagnitude_shiftRight {exponent fraction : Nat} (h0 : exponent ≠ 0) (h : exponent < 1075)
    (hwhole : (2 ^ 52 + fraction) % 2 ^ (1075 - exponent) = 0) :
    doubleMagnitude exponent fraction = ((2 ^ 52 + fraction) / 2 ^ (1075 - exponent) : ℕ) := by
  have hexponent : (exponent : ℤ) - 1075 = -(1075 - exponent : ℕ) := by omega
  rw [doubleMagnitude, if_neg h0, hexponent, zpow_neg, zpow_natCast,
    Nat.cast_div (Nat.dvd_of_mod_eq_zero hwhole) (by positivity)]
  push_cast
  ring

/-! ## Nearest doubles -/

/-- No double is closer to the number. -/
def Nearest (bits : BitVec 64) (x : ℚ) : Prop :=
  ∀ v, doubleValue bits = some v → ∀ bits' v', doubleValue bits' = some v' → |v - x| ≤ |v' - x|

theorem doubleValue_two_pow : doubleValue 0x43e0000000000000#64 = some (2 ^ 63) := by
  have hexponent : doubleExponent 0x43e0000000000000#64 = 1086 := by decide
  have hfraction : doubleFraction 0x43e0000000000000#64 = 0 := by decide
  have hsign : BitVec.msb 0x43e0000000000000#64 = false := by decide
  rw [doubleValue, hexponent, hfraction, hsign, if_neg (by decide), doubleMagnitude_shiftLeft (by decide)]
  norm_num

theorem doubleValue_neg_two_pow : doubleValue 0xc3e0000000000000#64 = some (-2 ^ 63) := by
  have hexponent : doubleExponent 0xc3e0000000000000#64 = 1086 := by decide
  have hfraction : doubleFraction 0xc3e0000000000000#64 = 0 := by decide
  have hsign : BitVec.msb 0xc3e0000000000000#64 = true := by decide
  rw [doubleValue, hexponent, hfraction, hsign, if_neg (by decide), doubleMagnitude_shiftLeft (by decide)]
  norm_num

/-- The nearest double of a number beyond 2^63 is not within 2^53. -/
theorem abs_lt_of_nearest {bits : BitVec 64} {x v : ℚ} (h : Nearest bits x) (hv : doubleValue bits = some v)
    (hle : |v| ≤ 2 ^ 53) : |x| < 2 ^ 63 := by
  obtain ⟨hlower, hupper⟩ := abs_le.mp hle
  refine abs_lt.mpr ⟨?_, ?_⟩
  · by_contra hx
    have hx : x ≤ -2 ^ 63 := not_lt.mp hx
    have hcloser := h v hv _ _ doubleValue_neg_two_pow
    rw [abs_of_nonneg (by linarith), abs_of_nonneg (by linarith)] at hcloser
    linarith
  · by_contra hx
    have hx : (2 : ℚ) ^ 63 ≤ x := not_lt.mp hx
    have hcloser := h v hv _ _ doubleValue_two_pow
    rw [abs_of_nonpos (by linarith), abs_of_nonpos (by linarith)] at hcloser
    linarith

end Nanna.Lib
