/-!
# Inverting `Except` computations
-/

namespace Nanna.Lib

variable {ε α β : Type}

theorem bind_eq_ok {x : Except ε α} {f : α → Except ε β} {b : β} :
    x >>= f = .ok b ↔ ∃ a, x = .ok a ∧ f a = .ok b := by
  constructor
  · intro h
    cases x with
    | error e => cases h
    | ok a => exact ⟨a, rfl, h⟩
  · rintro ⟨a, rfl, h⟩
    exact h

theorem map_eq_ok {x : Except ε α} {f : α → β} {b : β} :
    f <$> x = .ok b ↔ ∃ a, x = .ok a ∧ f a = b := by
  constructor
  · intro h
    cases x with
    | error e => cases h
    | ok a =>
      cases h
      exact ⟨a, rfl, rfl⟩
  · rintro ⟨a, rfl, rfl⟩
    rfl

/-- A check, then the rest. -/
theorem check_bind_eq_ok {x : Except ε Unit} {y : Except ε β} {b : β} :
    (x >>= fun _ => y) = .ok b ↔ x = .ok () ∧ y = .ok b := by
  rw [bind_eq_ok]
  constructor
  · rintro ⟨⟨⟩, hx, hy⟩
    exact ⟨hx, hy⟩
  · exact fun ⟨hx, hy⟩ => ⟨(), hx, hy⟩

/-- Run a check on every element, in order, and stop at the first error. -/
def forAll (check : α → Except ε Unit) : List α → Except ε Unit
  | [] => .ok ()
  | a :: as => do
    check a
    forAll check as

theorem forAll_eq_ok {check : α → Except ε Unit} {as : List α} :
    forAll check as = .ok () ↔ ∀ a ∈ as, check a = .ok () := by
  induction as with
  | nil => simp [forAll]
  | cons a as ih =>
    rw [forAll, bind_eq_ok]
    constructor
    · rintro ⟨⟨⟩, ha, has⟩ b hb
      rcases List.mem_cons.mp hb with rfl | hb
      · exact ha
      · exact ih.mp has b hb
    · exact fun h => ⟨(), h a (by simp), ih.mpr fun b hb => h b (by simp [hb])⟩

/-- Run a check only under a condition. -/
def checkIf (c : Bool) (check : Except ε Unit) : Except ε Unit := if c then check else .ok ()

theorem checkIf_eq_ok {c : Bool} {check : Except ε Unit} :
    checkIf c check = .ok () ↔ (c = true → check = .ok ()) := by
  cases c <;> simp [checkIf]

/-! ## Either outcome -/

variable {P : ε → Prop} {Q : α → Prop} {R : β → Prop}

/-- What is known of the error, and of the value. -/
def Satisfies (P : ε → Prop) (Q : α → Prop) : Except ε α → Prop
  | .error e => P e
  | .ok a => Q a

theorem Satisfies.bind {x : Except ε α} {f : α → Except ε β} (h : Satisfies P Q x)
    (hf : ∀ a, Q a → Satisfies P R (f a)) : Satisfies P R (x.bind f) := by
  cases x with
  | error e => exact h
  | ok a => exact hf a h

end Nanna.Lib
