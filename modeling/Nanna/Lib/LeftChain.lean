import Nanna.Lib.Except

/-!
# Chains that associate to the left

`leftChain item sep join` reads one item and then, as long as the separator follows, one item more, and
joins what it has with the new one. `leftChain_sound` and `leftChain_complete`: it reads exactly the
derivations of the left recursive rule `chain ::= item | chain sep item` (`LeftChain`), and as long a
one as there is. What an item may be followed by is a predicate of the rest (`Ends`), which the
separator satisfies.

The rule grows at its right end and the loop too, so the loop is followed from what the chain so far has
left it (`leftChain_eq_from`). It runs on the length of the rest, which no item makes longer.
-/

namespace Nanna.Lib

variable {τ α ε : Type}

/-- A reader: a value and the rest. -/
abbrev Reader (τ ε α : Type) := List τ → Except ε (α × List τ)

/-- The loop, from the value so far. -/
def leftChainFrom [DecidableEq τ] (item : Reader τ ε α) (sep : τ) (join : α → α → α) :
    Nat → α → Reader τ ε α
  | 0, left, rest => .ok (left, rest)
  | _ + 1, left, [] => .ok (left, [])
  | n + 1, left, t :: rest =>
    if t = sep then do
      let (right, rest) ← item rest
      leftChainFrom item sep join n (join left right) rest
    else .ok (left, t :: rest)

def leftChain [DecidableEq τ] (item : Reader τ ε α) (sep : τ) (join : α → α → α) : Reader τ ε α :=
  fun tokens => do
    let (left, rest) ← item tokens
    leftChainFrom item sep join rest.length left rest

/-- `chain ::= item | chain sep item`. -/
inductive LeftChain (Item : List τ → α → Prop) (sep : τ) (join : α → α → α) : List τ → α → Prop
  | one {ts a} : Item ts a → LeftChain Item sep join ts a
  | more {l r a b} : LeftChain Item sep join l a → Item r b →
      LeftChain Item sep join (l ++ sep :: r) (join a b)

/-- What is read is derived. -/
def Reader.Sound (item : Reader τ ε α) (Item : List τ → α → Prop) : Prop :=
  ∀ {ts a rest}, item ts = .ok (a, rest) → ∃ pre, ts = pre ++ rest ∧ Item pre a

/-- What is derived is read, before a rest that it can be followed by. -/
def Reader.Complete (item : Reader τ ε α) (Item : List τ → α → Prop) (Ends : List τ → Prop) : Prop :=
  ∀ {pre a rest}, Item pre a → Ends rest → item (pre ++ rest) = .ok (a, rest)

variable {item : Reader τ ε α} {sep : τ} {join : α → α → α} {Item : List τ → α → Prop}
  {Ends : List τ → Prop} {ts rest pre : List τ} {a left : α} {n m : Nat}

theorem Reader.Sound.length_le (h : item.Sound Item) (hread : item ts = .ok (a, rest)) :
    rest.length ≤ ts.length := by
  obtain ⟨pre, rfl, -⟩ := h hread
  rw [List.length_append]
  exact Nat.le_add_left _ _

variable [DecidableEq τ]

theorem leftChainFrom_of_head (hhead : ∀ rest', rest ≠ sep :: rest') :
    leftChainFrom item sep join n left rest = .ok (left, rest) := by
  cases n with
  | zero => rfl
  | succ n =>
    cases rest with
    | nil => rfl
    | cons t rest => exact if_neg fun hsep => hhead rest (congrArg (· :: rest) hsep)

theorem leftChain_error {e : ε} (h : item ts = .error e) : leftChain item sep join ts = .error e := by
  rw [leftChain, h]
  rfl

/-! ## The loop -/

theorem leftChainFrom_sound (hitem : item.Sound Item) (hpre : LeftChain Item sep join pre left)
    (h : leftChainFrom item sep join n left ts = .ok (a, rest)) :
    ∃ more, ts = more ++ rest ∧ LeftChain Item sep join (pre ++ more) a := by
  induction n generalizing left pre ts with
  | zero =>
    cases h
    exact ⟨[], rfl, (List.append_nil pre).symm ▸ hpre⟩
  | succ n ih =>
    cases ts with
    | nil =>
      cases h
      exact ⟨[], rfl, (List.append_nil pre).symm ▸ hpre⟩
    | cons t ts =>
      rw [leftChainFrom] at h
      split at h
      · rename_i hsep
        obtain ⟨⟨right, ts'⟩, hright, hfrom⟩ := bind_eq_ok.mp h
        obtain ⟨r, rfl, hr⟩ := hitem hright
        obtain ⟨more, rfl, hmore⟩ := ih (hpre.more hr) hfrom
        refine ⟨sep :: r ++ more, ?_, ?_⟩
        · rw [hsep, List.cons_append, List.cons_append, List.append_assoc]
        · rwa [← List.append_assoc]
      · cases h
        exact ⟨[], rfl, (List.append_nil pre).symm ▸ hpre⟩

theorem leftChain_sound (hitem : item.Sound Item) :
    (leftChain item sep join).Sound (LeftChain Item sep join) := by
  intro ts a rest h
  obtain ⟨⟨left, ts'⟩, hleft, hfrom⟩ := bind_eq_ok.mp h
  obtain ⟨pre, rfl, hpre⟩ := hitem hleft
  obtain ⟨more, rfl, hmore⟩ := leftChainFrom_sound hitem (.one hpre) hfrom
  exact ⟨pre ++ more, (List.append_assoc ..).symm, hmore⟩

/-- The loop runs as long as there is something to read. -/
theorem leftChainFrom_fuel (hitem : item.Sound Item) (hn : ts.length ≤ n) (hm : ts.length ≤ m) :
    leftChainFrom item sep join n left ts = leftChainFrom item sep join m left ts := by
  induction n generalizing m left ts with
  | zero =>
    obtain rfl := List.eq_nil_of_length_eq_zero (Nat.le_zero.mp hn)
    cases m <;> rfl
  | succ n ih =>
    cases ts with
    | nil => cases m <;> rfl
    | cons t ts =>
      cases m with
      | zero => exact absurd hm (Nat.not_succ_le_zero _)
      | succ m =>
        rw [leftChainFrom, leftChainFrom]
        split
        · cases hread : item ts with
          | error e => rfl
          | ok read =>
            have hle := hitem.length_le (show item ts = .ok (read.1, read.2) from hread)
            rw [List.length_cons] at hn hm
            exact ih (by omega) (by omega)
        · rfl

/-- Behind a chain, the loop is at its value. -/
theorem leftChain_eq_from (hitem : item.Sound Item) (hcomplete : item.Complete Item Ends)
    (hsep : ∀ rest, Ends (sep :: rest)) (h : LeftChain Item sep join ts a) (hends : Ends rest) :
    leftChain item sep join (ts ++ rest) = leftChainFrom item sep join rest.length a rest := by
  induction h generalizing rest with
  | one hone =>
    rw [leftChain, hcomplete hone hends]
    rfl
  | @more l r a b hl hr ih =>
    rw [List.append_assoc, List.cons_append, ih (hsep _), List.length_cons, leftChainFrom,
      if_pos rfl, hcomplete hr hends]
    refine leftChainFrom_fuel hitem ?_ (Nat.le_refl _)
    rw [List.length_append]
    exact Nat.le_add_left _ _

/-- An item that cannot be read, behind a chain and a separator. -/
theorem leftChain_error_behind {e : ε} (hitem : item.Sound Item) (hcomplete : item.Complete Item Ends)
    (hsep : ∀ rest, Ends (sep :: rest)) (h : LeftChain Item sep join ts a)
    (herror : item rest = .error e) : leftChain item sep join (ts ++ sep :: rest) = .error e := by
  rw [leftChain_eq_from hitem hcomplete hsep h (hsep rest), List.length_cons, leftChainFrom, if_pos rfl,
    herror]
  rfl

theorem leftChain_complete (hitem : item.Sound Item) (hcomplete : item.Complete Item Ends)
    (hsep : ∀ rest, Ends (sep :: rest)) :
    (leftChain item sep join).Complete (LeftChain Item sep join)
      fun rest => Ends rest ∧ ∀ rest', rest ≠ sep :: rest' := by
  intro pre a rest h hends
  rw [leftChain_eq_from hitem hcomplete hsep h hends.1]
  exact leftChainFrom_of_head hends.2

end Nanna.Lib
