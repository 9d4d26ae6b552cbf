import Nanna.Agent.Context
import Nanna.Lib.Single

/-!
# The token estimate

`estimate_tokens` in single precision: a share of a token for each ASCII character, fewer of them to a token in code,
and one token for every other character. The counts and the quotient are rounded to singles, so the estimate of a
long text can lie above what its characters add up to, by a 2^24th of them (`estimateTokens_le`).
-/

namespace Nanna.Llm

open Nanna.Lib Nanna.Agent

def charsPerTokenEnglish : ℚ := 4

def charsPerTokenCode : ℚ := 7 / 2

inductive TokenContentFamily where
  | english
  | code
  | auto
deriving DecidableEq

def TokenContentFamily.ratio (text : Text) : TokenContentFamily → ℚ
  | english => charsPerTokenEnglish
  | code => charsPerTokenCode
  | auto => if ContextEnv.looksLikeCode text then charsPerTokenCode else charsPerTokenEnglish

def asciiCount (text : Text) : Nat := text.countP Text.isAscii

def wideCount (text : Text) : Nat := text.countP fun c => !Text.isAscii c

def estimateTokensForFamily (text : Text) (family : TokenContentFamily) : Nat :=
  if text = [] then 0
  else
    let asciiTokens :=
      if asciiCount text = 0 then 0
      else usizeFromF32 ⌈roundSingle (roundSingle (asciiCount text) / family.ratio text)⌉
    -- a wide character is one token, which no product rounds
    let wideTokens := usizeFromF32 ⌈roundSingle (wideCount text)⌉
    max (asciiTokens + wideTokens) 1

def estimateTokens (text : Text) : Nat := estimateTokensForFamily text .auto

variable {text s t : Text} {c : Char} {family : TokenContentFamily}

theorem ratio_mem (text : Text) (family : TokenContentFamily) : 7 / 2 ≤ family.ratio text ∧ family.ratio text ≤ 4 := by
  unfold TokenContentFamily.ratio charsPerTokenEnglish charsPerTokenCode
  cases family with
  | english => norm_num
  | code => norm_num
  | auto => dsimp only; split <;> norm_num

/-- A share that is rounded twice. -/
theorem asciiTokens_le {ascii ratio : ℚ} (hascii : 0 ≤ ascii) (hratio : 7 / 2 ≤ ratio) :
    (usizeFromF32 ⌈roundSingle (roundSingle ascii / ratio)⌉ : ℚ) ≤ 2 * ascii / 7 * (1 + 1 / 2 ^ 24) ^ 2 + 1 := by
  have hcount := roundSingle_le hascii
  have hcount0 := roundSingle_nonneg hascii
  have hpos : 0 < ratio := by linarith
  have hquotient : roundSingle ascii / ratio ≤ roundSingle ascii * (2 / 7) := by
    rw [div_le_iff₀ hpos]
    nlinarith
  have hquotient0 : 0 ≤ roundSingle ascii / ratio := div_nonneg hcount0 hpos.le
  have hround := roundSingle_le hquotient0
  have hceil := usizeFromF32_ceil_le (roundSingle_nonneg hquotient0)
  linarith

/-- The estimate by the two counts. -/
theorem estimateTokens_le (text : Text) : (estimateTokens text : ℚ) ≤
    2 * asciiCount text / 7 * (1 + 1 / 2 ^ 24) ^ 2 + roundSingle (wideCount text) + 3 := by
  have hascii := asciiTokens_le (Nat.cast_nonneg (asciiCount text)) (ratio_mem text .auto).1
  have hwide0 : (0 : ℚ) ≤ roundSingle (wideCount text) := roundSingle_nonneg (Nat.cast_nonneg _)
  have hwide := usizeFromF32_ceil_le hwide0
  have hshare : (0 : ℚ) ≤ 2 * asciiCount text / 7 * (1 + 1 / 2 ^ 24) ^ 2 := by positivity
  rw [estimateTokens, estimateTokensForFamily]
  split
  · rw [Nat.cast_zero]
    linarith
  · split
    · push_cast
      refine max_le ?_ ?_ <;> linarith
    · push_cast
      refine max_le ?_ ?_ <;> linarith

theorem le_asciiTokens {ascii ratio : ℚ} (hascii : 0 ≤ ascii) (hpos : 0 < ratio) (hratio : ratio ≤ 4) :
    ascii / 4 * (1 - 1 / 2 ^ 24) ^ 2 ≤ roundSingle (roundSingle ascii / ratio) := by
  have hcount := le_roundSingle hascii
  have hcount0 := roundSingle_nonneg hascii
  have hquotient : roundSingle ascii / 4 ≤ roundSingle ascii / ratio :=
    div_le_div_of_nonneg_left hcount0 hpos hratio
  have hround := le_roundSingle (div_nonneg hcount0 hpos.le)
  linarith

/-- What the characters come to at least. -/
theorem le_estimateTokens {m n : Nat} (hm : m < 2 ^ 64) (hn : n < 2 ^ 64)
    (hascii : (m : ℚ) ≤ asciiCount text / 4 * (1 - 1 / 2 ^ 24) ^ 2) (hwide : (n : ℚ) ≤ roundSingle (wideCount text)) :
    m + n ≤ estimateTokens text := by
  obtain ⟨hpos, hratio⟩ := ratio_mem text .auto
  have hshare := hascii.trans (le_asciiTokens (Nat.cast_nonneg _) (by linarith) hratio)
  have hasciiTokens := le_usizeFromF32_ceil hm hshare
  have hwideTokens := le_usizeFromF32_ceil hn hwide
  have hnone : asciiCount text = 0 → m = 0 := fun h => by
    rw [h, Nat.cast_zero, zero_div, zero_mul] at hascii
    exact Nat.cast_nonpos.mp hascii
  rw [estimateTokens, estimateTokensForFamily]
  split
  · rename_i h
    have hwide : (n : ℚ) ≤ roundSingle (0 : Nat) := by rwa [h] at hwide
    rw [Nat.cast_zero, roundSingle_zero] at hwide
    rw [hnone (by rw [h]; rfl), Nat.cast_nonpos.mp hwide]
  · split
    · rename_i h
      rw [hnone h]
      exact (Nat.add_le_add_left hwideTokens 0).trans (le_max_left _ _)
    · exact (Nat.add_le_add hasciiTokens hwideTokens).trans (le_max_left _ _)

/-! ## Counts -/

theorem asciiCount_append : asciiCount (s ++ t) = asciiCount s + asciiCount t := List.countP_append

theorem wideCount_append : wideCount (s ++ t) = wideCount s + wideCount t := List.countP_append

/-- A wide character has two bytes or more. -/
theorem counts_le_byteLen (text : Text) : asciiCount text + 2 * wideCount text ≤ Text.byteLen text := by
  induction text with
  | nil => exact le_rfl
  | cons c t ih =>
    have hsize := c.utf8Size_pos
    rw [asciiCount, wideCount] at ih
    rw [asciiCount, wideCount, List.countP_cons, List.countP_cons, Text.byteLen_cons]
    rcases hc : Text.isAscii c
    · have hwide : c.utf8Size ≠ 1 := fun h => by
        rw [Text.isAscii_iff.mpr h] at hc
        cases hc
      simp
      omega
    · simp
      omega

end Nanna.Llm
