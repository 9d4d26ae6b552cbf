import Mathlib.Algebra.Order.Ring.Nat
import Mathlib.Tactic.Ring

/-!
# Measures that fall between marks

`marks` counts the events that reset a measure, and never falls. `Descent marks measure k s t` says
that on the way from `s` to `t` the measure falls by `k` unless a mark was made. Descents add up
(`Descent.trans`), so a stretch without marks has no more steps that cost one than the measure it
starts from (`Descent.le_measure`).

`StepsDown floor k a b` is a size that falls by a quarter or more at each step, or lands on the floor; it
takes no more steps than the logarithm of `a / floor` to the base 4/3, rounded up (`StepsDown.bound`).
-/

namespace Nanna.Lib

variable {σ : Type*} {marks measure : σ → Nat} {k l : Nat} {s t u : σ}

structure Descent (marks measure : σ → Nat) (k : Nat) (s t : σ) : Prop where
  marks_le : marks s ≤ marks t
  falls : marks t = marks s → measure t + k ≤ measure s

namespace Descent

theorem refl : Descent marks measure 0 s s := ⟨Nat.le_refl _, fun _ => Nat.le_refl _⟩

theorem trans (h : Descent marks measure k s t) (h' : Descent marks measure l t u) :
    Descent marks measure (k + l) s u := by
  refine ⟨Nat.le_trans h.marks_le h'.marks_le, fun hmarks => ?_⟩
  have hst := h.marks_le
  have htu := h'.marks_le
  have h₁ := h.falls (by omega)
  have h₂ := h'.falls (by omega)
  omega

/-- A mark excuses any cost. -/
theorem of_lt (h : marks s < marks t) : Descent marks measure k s t :=
  ⟨Nat.le_of_lt h, fun hmarks => absurd hmarks (Nat.ne_of_gt h)⟩

theorem le_measure (h : Descent marks measure k s t) (hmarks : marks t = marks s) :
    k ≤ measure s :=
  Nat.le_trans (Nat.le_add_left _ _) (h.falls hmarks)

end Descent

/-- `k` steps from `a` to `b`, each from above the floor. -/
inductive StepsDown (floor : Nat) : Nat → Nat → Nat → Prop
  | refl (a : Nat) : StepsDown floor 0 a a
  | step {k a b c : Nat} : StepsDown floor k a b → floor < b → (c = floor ∨ 4 * c ≤ 3 * b) →
      StepsDown floor (k + 1) a c

namespace StepsDown

variable {floor k a b : Nat}

/-- Above the floor, every step has taken its quarter. -/
theorem le_of_above (h : StepsDown floor k a b) (hb : floor < b) : 4 ^ k * b ≤ 3 ^ k * a := by
  induction h with
  | refl a => simp
  | @step k a b c _ hfloor hc ih =>
    have hquarter : 4 * c ≤ 3 * b := hc.resolve_left (by omega)
    calc 4 ^ (k + 1) * c = 4 ^ k * (4 * c) := by ring
      _ ≤ 4 ^ k * (3 * b) := Nat.mul_le_mul_left _ hquarter
      _ = 3 * (4 ^ k * b) := by ring
      _ ≤ 3 * (3 ^ k * a) := Nat.mul_le_mul_left _ (ih hfloor)
      _ = 3 ^ (k + 1) * a := by ring

theorem bound (h : StepsDown floor (k + 1) a b) : 4 ^ k * floor < 3 ^ k * a := by
  cases h with
  | step h hfloor _ =>
    exact ((Nat.mul_lt_mul_left (Nat.pow_pos (by decide))).mpr hfloor).trans_le (h.le_of_above hfloor)

end StepsDown

end Nanna.Lib
