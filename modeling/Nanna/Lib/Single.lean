import Mathlib.Algebra.Order.Field.Rat
import Mathlib.Data.Int.Log
import Mathlib.Data.Rat.Floor
import Mathlib.Tactic.Linarith
import Mathlib.Tactic.NormNum
import Mathlib.Tactic.Positivity
import Mathlib.Tactic.Ring

/-!
# Rounding to single precision

A single has 24 significant bits, so a number is rounded to the multiples of its last place. `roundSingle` is the
nearest of them, an even one where two are as near, for numbers that are not negative and far from the ends of the
range. It adds at most a 2^24th of the number (`roundSingle_le`).
-/

namespace Nanna.Lib

variable {x y : ℚ} {k : ℤ}

/-- The nearest integer, an even one where two are as near. -/
def roundEven (y : ℚ) : ℤ :=
  let lower := ⌊y⌋
  if 2 * (y - lower) < 1 ∨ 2 * (y - lower) = 1 ∧ lower % 2 = 0 then lower else lower + 1

/-- The exponent of the last of 24 bits. -/
def lastPlace (x : ℚ) : ℤ := Int.log 2 x - 23

def roundSingle (x : ℚ) : ℚ := roundEven (x / 2 ^ lastPlace x) * 2 ^ lastPlace x

/-- `x as usize`. -/
def usizeFromF32 (x : ℚ) : Nat := min ⌊x⌋.toNat (2 ^ 64 - 1)

theorem roundEven_le (y : ℚ) : (roundEven y : ℚ) ≤ y + 1 / 2 := by
  have hfloor := Int.floor_le y
  rw [roundEven]
  split
  · linarith
  · rename_i h
    have hhalf : 1 ≤ 2 * (y - ⌊y⌋) := not_lt.mp fun hlt => h (.inl hlt)
    push_cast
    linarith

theorem le_roundEven (y : ℚ) : y - 1 / 2 ≤ roundEven y := by
  have hfloor := Int.lt_floor_add_one y
  rw [roundEven]
  split
  · rename_i h
    have hhalf : 2 * (y - ⌊y⌋) ≤ 1 := h.elim le_of_lt fun h => h.1.le
    linarith
  · push_cast
    linarith

theorem roundEven_nonneg (hy : 0 ≤ y) : 0 ≤ roundEven y := by
  have hfloor := Int.floor_nonneg.mpr hy
  rw [roundEven]
  split
  · exact hfloor
  · exact Int.add_nonneg hfloor zero_le_one

theorem roundEven_intCast (k : ℤ) : roundEven k = k := by
  rw [roundEven]
  simp

theorem roundEven_near (heven : k % 2 = 0) (hlow : k ≤ y) (hhigh : y ≤ k + 1 / 2) : roundEven y = k := by
  have hfloor : ⌊y⌋ = k := Int.floor_eq_iff.mpr ⟨hlow, by linarith⟩
  rw [roundEven, hfloor]
  refine if_pos ?_
  rcases hhigh.lt_or_eq with hlt | heq
  · exact .inl (by linarith)
  · exact .inr ⟨by linarith, heven⟩

theorem lastPlace_half (x : ℚ) : (2 : ℚ) ^ lastPlace x = 2 * 2 ^ (Int.log 2 x - 24) := by
  rw [lastPlace, ← zpow_one_add₀ two_ne_zero]
  congr 1
  ring

/-- Half a last place. -/
theorem roundSingle_le_add (x : ℚ) : roundSingle x ≤ x + 2 ^ (Int.log 2 x - 24) := by
  have hpos : (0 : ℚ) < 2 ^ lastPlace x := zpow_pos two_pos _
  calc roundSingle x ≤ (x / 2 ^ lastPlace x + 1 / 2) * 2 ^ lastPlace x :=
        mul_le_mul_of_nonneg_right (roundEven_le _) hpos.le
    _ = x + 2 ^ lastPlace x / 2 := by rw [add_mul, div_mul_cancel₀ x hpos.ne']; ring
    _ = x + 2 ^ (Int.log 2 x - 24) := by rw [lastPlace_half]; ring

theorem sub_le_roundSingle (x : ℚ) : x - 2 ^ (Int.log 2 x - 24) ≤ roundSingle x := by
  have hpos : (0 : ℚ) < 2 ^ lastPlace x := zpow_pos two_pos _
  calc x - 2 ^ (Int.log 2 x - 24) = x - 2 ^ lastPlace x / 2 := by rw [lastPlace_half]; ring
    _ = (x / 2 ^ lastPlace x - 1 / 2) * 2 ^ lastPlace x := by rw [sub_mul, div_mul_cancel₀ x hpos.ne']; ring
    _ ≤ roundSingle x := mul_le_mul_of_nonneg_right (le_roundEven _) hpos.le

theorem roundSingle_zero : roundSingle 0 = 0 := by
  rw [roundSingle, zero_div, ← Int.cast_zero, roundEven_intCast, Int.cast_zero, zero_mul]

theorem half_place_le (hx : 0 < x) : (2 : ℚ) ^ (Int.log 2 x - 24) ≤ x / 2 ^ 24 := by
  rw [zpow_sub₀ two_ne_zero, ← zpow_natCast]
  exact div_le_div_of_nonneg_right (Int.zpow_log_le_self one_lt_two hx) (by positivity)

theorem roundSingle_le (hx : 0 ≤ x) : roundSingle x ≤ x + x / 2 ^ 24 := by
  rcases hx.eq_or_lt with rfl | hx
  · rw [roundSingle_zero, zero_div, add_zero]
  · exact (roundSingle_le_add x).trans (add_le_add_right (half_place_le hx) x)

theorem le_roundSingle (hx : 0 ≤ x) : x - x / 2 ^ 24 ≤ roundSingle x := by
  rcases hx.eq_or_lt with rfl | hx
  · rw [roundSingle_zero, zero_div, sub_zero]
  · exact (sub_le_sub_left (half_place_le hx) x).trans (sub_le_roundSingle x)

theorem roundSingle_nonneg (hx : 0 ≤ x) : 0 ≤ roundSingle x :=
  mul_nonneg (Int.cast_nonneg (roundEven_nonneg (div_nonneg hx (zpow_nonneg zero_le_two _))))
    (zpow_nonneg zero_le_two _)

theorem roundSingle_le_of_lt (hx : 0 < x) (h : x < 2 ^ (k + 1)) : roundSingle x ≤ x + 2 ^ (k - 24) := by
  refine (roundSingle_le_add x).trans (add_le_add_right ?_ x)
  have hlog : Int.log 2 x < k + 1 := (Int.lt_zpow_iff_log_lt one_lt_two hx).mp h
  exact zpow_le_zpow_right₀ one_le_two (by omega)

/-- Rounding where the first bit is known. -/
theorem roundSingle_of_mem (hx : 0 < x) (hlow : 2 ^ k ≤ x) (hhigh : x < 2 ^ (k + 1)) :
    roundSingle x = roundEven (x / 2 ^ (k - 23)) * 2 ^ (k - 23) := by
  have hle : k ≤ Int.log 2 x := (Int.zpow_le_iff_le_log one_lt_two hx).mp hlow
  have hlt : Int.log 2 x < k + 1 := (Int.lt_zpow_iff_log_lt one_lt_two hx).mp hhigh
  have hlog : Int.log 2 x = k := by omega
  rw [roundSingle, lastPlace, hlog]

/-- A power of two takes what is no further above it than half a last place. -/
theorem roundSingle_near (hlow : 2 ^ k ≤ x) (hhigh : x ≤ 2 ^ k + 2 ^ (k - 24)) : roundSingle x = 2 ^ k := by
  have hpos : (0 : ℚ) < 2 ^ (k - 24) := zpow_pos two_pos _
  have hplace : (2 : ℚ) ^ (k - 23) = 2 * 2 ^ (k - 24) := by
    rw [← zpow_one_add₀ two_ne_zero]
    congr 1
    ring
  have hpow : (2 : ℚ) ^ k = 2 ^ 23 * 2 ^ (k - 23) := by
    rw [← zpow_natCast, ← zpow_add₀ two_ne_zero]
    congr 1
    ring
  have hpow' : (2 : ℚ) ^ (k + 1) = 2 ^ 24 * 2 ^ (k - 23) := by
    rw [zpow_add_one₀ two_ne_zero, hpow]
    ring
  have hround : roundEven (x / 2 ^ (k - 23)) = 2 ^ 23 := by
    refine roundEven_near (by norm_num) ?_ ?_
    · rw [le_div_iff₀ (by linarith)]
      push_cast
      linarith
    · rw [div_le_iff₀ (by linarith)]
      push_cast
      linarith
  rw [roundSingle_of_mem (by linarith) hlow (by linarith), hround, hpow]
  push_cast
  rfl

theorem usizeFromF32_ceil_le (hx : 0 ≤ x) : (usizeFromF32 ⌈x⌉ : ℚ) ≤ x + 1 := by
  have hle : (usizeFromF32 ⌈x⌉ : ℤ) ≤ ⌈x⌉ := by
    rw [usizeFromF32, Int.floor_intCast]
    have hnonneg := Int.ceil_nonneg hx
    omega
  have hceil := (Int.ceil_lt_add_one x).le
  have hcast : (usizeFromF32 ⌈x⌉ : ℚ) ≤ ⌈x⌉ := by exact_mod_cast hle
  exact hcast.trans hceil

theorem le_usizeFromF32_ceil {n : Nat} (hn : n < 2 ^ 64) (h : (n : ℚ) ≤ x) : n ≤ usizeFromF32 ⌈x⌉ := by
  have hceil : (n : ℤ) ≤ ⌈x⌉ := by exact_mod_cast h.trans (Int.le_ceil x)
  rw [usizeFromF32, Int.floor_intCast]
  omega

end Nanna.Lib
