import Mathlib.Data.List.Perm.Basic
import Mathlib.Logic.Relation

/-!
# Runs of a guarded machine

A machine is a partial function from a state and an action to the next state. `Moves step ok s t`
says that actions which all meet `ok` lead from `s` to `t`; `Moves.invariant` is the rule for what
one such action keeps. `runActs` plays a list of actions, and `Moves.of_acts` makes a run of it. `AlongActs` says
what is true before each action of a list that is played, and `countActs` counts the actions of one kind in it.
A machine that several parties share has them in a list, and `pull` takes the one that acts out of it.
-/

namespace Nanna.Lib

variable {σ α : Type*} {step : σ → α → Option σ} {ok : σ → α → Prop} {s t : σ}

/-- The states that actions meeting `ok` lead to. -/
def Moves (step : σ → α → Option σ) (ok : σ → α → Prop) : σ → σ → Prop :=
  Relation.ReflTransGen fun s t => ∃ a, ok s a ∧ step s a = some t

/-- What one action keeps, a run keeps. -/
theorem Moves.invariant {I : σ → Prop} (h : Moves step ok s t)
    (hstep : ∀ {s a t}, ok s a → step s a = some t → I s → I t) (hs : I s) : I t := by
  induction h with
  | refl => exact hs
  | tail _ hlast ih =>
    obtain ⟨a, hok, ha⟩ := hlast
    exact hstep hok ha ih

/-- Play the actions, each of which must meet `ok`. -/
def runActs (step : σ → α → Option σ) (ok : σ → α → Prop) [∀ s a, Decidable (ok s a)] :
    σ → List α → Option σ
  | s, [] => some s
  | s, a :: as => if ok s a then (step s a).bind fun t => runActs step ok t as else none

theorem Moves.of_acts [∀ s a, Decidable (ok s a)] {as : List α}
    (h : runActs step ok s as = some t) : Moves step ok s t := by
  induction as generalizing s with
  | nil =>
    obtain rfl : s = t := Option.some.inj h
    exact .refl
  | cons a as ih =>
    rw [runActs] at h
    split at h
    · rename_i hok
      obtain ⟨s', ha, h⟩ := Option.bind_eq_some_iff.mp h
      exact .head ⟨a, hok, ha⟩ (ih h)
    · cases h

/-- `P` holds before each of the actions, as far as they can be played. -/
def AlongActs (step : σ → α → Option σ) (P : σ → α → Prop) : σ → List α → Prop
  | _, [] => True
  | s, a :: as => P s a ∧ ∀ t ∈ step s a, AlongActs step P t as

instance AlongActs.decidable {P : σ → α → Prop} [∀ s a, Decidable (P s a)] :
    ∀ (s : σ) (as : List α), Decidable (AlongActs step P s as)
  | _, [] => .isTrue trivial
  | s, a :: as =>
    have (t : σ) : Decidable (AlongActs step P t as) := AlongActs.decidable t as
    inferInstanceAs (Decidable (P s a ∧ ∀ t ∈ step s a, AlongActs step P t as))

/-- What an act keeps exactly where `P` holds before it, a run keeps exactly where `P` holds along it. -/
theorem runActs_keeps_iff [∀ s a, Decidable (ok s a)] {I K : σ → Prop} {P : σ → α → Prop}
    (hstep : ∀ {s a t}, ok s a → step s a = some t → I s → I t)
    (hkeeps : ∀ {s a t}, ok s a → step s a = some t → I s → (K t ↔ K s ∧ P s a)) {as : List α} :
    ∀ {s t : σ}, I s → runActs step ok s as = some t → (K t ↔ K s ∧ AlongActs step P s as) := by
  induction as with
  | nil =>
    intro s t _ h
    obtain rfl := Option.some.inj h
    exact (and_iff_left trivial).symm
  | cons a as ih =>
    intro s t hs h
    rw [runActs] at h
    split at h
    · rename_i hok
      obtain ⟨s', ha, h⟩ := Option.bind_eq_some_iff.mp h
      have halong : AlongActs step P s (a :: as) ↔ P s a ∧ AlongActs step P s' as := by
        rw [AlongActs, ha]
        simp
      rw [ih (hstep hok ha hs) h, hkeeps hok ha hs, halong, and_assoc]
    · cases h

/-- What an invariant makes equivalent is equivalent along every run. -/
theorem AlongActs.congr {I : σ → Prop} {P Q : σ → α → Prop}
    (hstep : ∀ {s a t}, step s a = some t → I s → I t) (hiff : ∀ {s a}, I s → (P s a ↔ Q s a)) :
    ∀ {as : List α} {s : σ}, I s → (AlongActs step P s as ↔ AlongActs step Q s as) := by
  intro as
  induction as with
  | nil => exact fun _ => Iff.rfl
  | cons a as ih =>
    intro s hs
    exact and_congr (hiff hs) (forall₂_congr fun t ht => ih (hstep ht hs))

/-- The actions of the kind `p` among those that are played. -/
def countActs (step : σ → α → Option σ) (p : σ → α → Bool) : σ → List α → Nat
  | _, [] => 0
  | s, a :: as => (p s a).toNat + ((step s a).map fun t => countActs step p t as).getD 0

/-- What an act keeps of a state and a number that grows with the acts of the kind `p`. -/
theorem runActs_counts [∀ s a, Decidable (ok s a)] {I : σ → Nat → Prop} {p : σ → α → Bool}
    (hstep : ∀ {s a t n}, ok s a → step s a = some t → I s n → I t (n + (p s a).toNat)) {as : List α} :
    ∀ {s t : σ} {n : Nat}, I s n → runActs step ok s as = some t → I t (n + countActs step p s as) := by
  induction as with
  | nil =>
    intro s t n hs h
    obtain rfl := Option.some.inj h
    exact hs
  | cons a as ih =>
    intro s t n hs h
    rw [runActs] at h
    split at h
    · rename_i hok
      obtain ⟨s', ha, h⟩ := Option.bind_eq_some_iff.mp h
      have hcount : countActs step p s (a :: as) = (p s a).toNat + countActs step p s' as := by
        simp [countActs, ha]
      rw [hcount, ← Nat.add_assoc]
      exact ih (hstep hok ha hs) h
    · cases h

/-- One of the parties, and the others. -/
def pull (l : List σ) (i : Nat) : Option (σ × List σ) := l[i]?.map fun a => (a, l.eraseIdx i)

theorem pull_perm {l rest : List σ} {i : Nat} {a : σ} (h : pull l i = some (a, rest)) : l.Perm (a :: rest) := by
  obtain ⟨b, hget, heq⟩ := Option.map_eq_some_iff.mp h
  obtain ⟨rfl, rfl⟩ := Prod.mk.inj heq
  obtain ⟨hi, rfl⟩ := List.getElem?_eq_some_iff.mp hget
  exact (List.getElem_cons_eraseIdx_perm hi).symm

/-- What is true of the one and was true of all is true of all that are left. -/
theorem forall_mem_pull {P Q : σ → Prop} {l rest : List σ} {i : Nat} {a b : σ} (h : pull l i = some (a, rest))
    (hold : ∀ c ∈ l, P c) (hmono : ∀ c, P c → Q c) (hb : P a → Q b) : ∀ c ∈ b :: rest, Q c := by
  have hall := fun c hmem => hold c ((pull_perm h).mem_iff.mpr hmem)
  obtain ⟨ha, hrest⟩ := List.forall_mem_cons.mp hall
  exact List.forall_mem_cons.mpr ⟨hb ha, fun c hmem => hmono c (hrest c hmem)⟩

end Nanna.Lib
