import Mathlib.Logic.Basic

/-!
# Passes made of phases

A pass over a state is a chain of phases. A phase goes on with a result, or ends the pass for a
reason, and leaves a state either way. `Ensures p Q E` says what holds when `p` goes on (`Q`) and
when it ends the pass (`E`); a chain is treated phase by phase (`Ensures.andThen`).

A `sweep` is a loop over a list whose turn `i` reads the answer `i` from outside, and which an
answer can break off; `sweep_invariant` is its rule.
-/

namespace Nanna.Lib

inductive Phase (σ ε α : Type*)
  | goOn (a : α) (s : σ)
  | ended (e : ε) (s : σ)

namespace Phase

variable {σ ε α β : Type*} {p : Phase σ ε α} {f : α → σ → Phase σ ε β}
  {Q Q' : α → σ → Prop} {E E' : ε → σ → Prop} {P : σ → Prop} {R : β → σ → Prop}

/-- The state a phase leaves. -/
def state : Phase σ ε α → σ
  | .goOn _ s => s
  | .ended _ s => s

/-- Go on with the next phase, unless the pass has ended. -/
def andThen (p : Phase σ ε α) (f : α → σ → Phase σ ε β) : Phase σ ε β :=
  match p with
  | .goOn a s => f a s
  | .ended e s => .ended e s

theorem goOn_andThen {a : α} {s : σ} : (Phase.goOn a s).andThen f = f a s := rfl

/-- What a phase ensures when it goes on, and when it ends the pass. -/
def Ensures (p : Phase σ ε α) (Q : α → σ → Prop) (E : ε → σ → Prop) : Prop :=
  match p with
  | .goOn a s => Q a s
  | .ended e s => E e s

theorem Ensures.mono (h : p.Ensures Q E) (hQ : ∀ a s, Q a s → Q' a s) (hE : ∀ e s, E e s → E' e s) :
    p.Ensures Q' E' := by
  cases p with
  | goOn a s => exact hQ a s h
  | ended e s => exact hE e s h

theorem Ensures.andThen (h : p.Ensures Q E) (hf : ∀ a s, Q a s → (f a s).Ensures R E) :
    (p.andThen f).Ensures R E := by
  cases p with
  | goOn a s => exact hf a s h
  | ended e s => exact h

theorem Ensures.state (h : p.Ensures (fun _ => P) fun _ => P) : P p.state := by
  cases p with
  | goOn a s => exact h
  | ended e s => exact h

end Phase

/-! ## Sweeps -/

variable {σ α β : Type*} {halt : β → Bool} {body : α → β → σ → σ} {I : σ → Prop}

/-- Visit the elements in turn, each with its answer, until an answer breaks off. -/
def sweep (halt : β → Bool) (body : α → β → σ → σ) : List α → (Nat → β) → σ → σ
  | [], _, s => s
  | a :: as, answer, s =>
    if halt (answer 0) then s
    else sweep halt body as (fun i => answer (i + 1)) (body a (answer 0) s)

/-- What every turn keeps, a sweep keeps. -/
theorem sweep_invariant {as : List α} {answer : Nat → β} {s : σ}
    (hbody : ∀ a ∈ as, ∀ i s, I s → I (body a (answer i) s)) (hs : I s) :
    I (sweep halt body as answer s) := by
  induction as generalizing answer s with
  | nil => exact hs
  | cons a as ih =>
    rw [sweep]
    split
    · exact hs
    · refine ih (fun b hb i t ht => ?_) (hbody a (by simp) 0 s hs)
      exact hbody b (by simp [hb]) (i + 1) t ht

/-- What the turn of one element brings about, and later turns keep, holds after the sweep. -/
theorem sweep_visits {as : List α} {answer : Nat → β} {s : σ} {a : α} {i : Nat}
    (hhalt : ∀ b, halt b = false) (hvisit : ∀ s, I (body a (answer i) s))
    (hkeep : ∀ a b s, I s → I (body a b s)) (ha : as[i]? = some a) :
    I (sweep halt body as answer s) := by
  induction as generalizing answer s i with
  | nil => cases ha
  | cons a' as ih =>
    rw [sweep, hhalt, if_neg Bool.false_ne_true]
    cases i with
    | zero =>
      obtain rfl : a' = a := Option.some.inj ha
      exact sweep_invariant (fun b _ j t ht => hkeep b _ t ht) (hvisit s)
    | succ i => exact ih hvisit ha

end Nanna.Lib
