import Mathlib.Data.List.Basic
import Mathlib.Logic.Function.Basic

/-!
# Keys seen again

A pass over tagged keys that remembers under which tag each key was last seen, and reports that tag
when the key is seen again. What it reports is every tag under which a key stands that occurs once more
later on (`mem_lastSeen`).
-/

namespace Nanna.Lib

variable {κ τ : Type*}

/-- A key under the tag occurs again after it. -/
def Repeated (entries : List (τ × κ)) (tag : τ) : Prop :=
  ∃ pre key post, entries = pre ++ (tag, key) :: post ∧ ∃ entry ∈ post, entry.2 = key

variable {entries : List (τ × κ)} {tag : τ} {entry : τ × κ}

theorem repeated_nil : ¬ Repeated ([] : List (τ × κ)) tag := by
  rintro ⟨pre, key, post, heq, -⟩
  exact absurd heq (by simp)

theorem repeated_cons : Repeated (entry :: entries) tag ↔
    (entry.1 = tag ∧ ∃ later ∈ entries, later.2 = entry.2) ∨ Repeated entries tag := by
  constructor
  · rintro ⟨pre, key, post, heq, hlater⟩
    cases pre with
    | nil =>
      obtain ⟨rfl, rfl⟩ := List.cons.inj heq
      exact .inl ⟨rfl, hlater⟩
    | cons first pre =>
      obtain ⟨rfl, rfl⟩ := List.cons.inj heq
      exact .inr ⟨pre, key, post, rfl, hlater⟩
  · rintro (⟨rfl, hlater⟩ | ⟨pre, key, post, rfl, hlater⟩)
    · exact ⟨[], entry.2, entries, rfl, hlater⟩
    · exact ⟨entry :: pre, key, post, rfl, hlater⟩

variable [DecidableEq κ]

/-- The tags reported, from what was seen before. -/
def lastSeen (seen : κ → Option τ) : List (τ × κ) → List τ
  | [] => []
  | (tag, key) :: entries =>
    (seen key).toList ++ lastSeen (Function.update seen key (some tag)) entries

theorem mem_lastSeen {seen : κ → Option τ} : tag ∈ lastSeen seen entries ↔
    (∃ entry ∈ entries, seen entry.2 = some tag) ∨ Repeated entries tag := by
  induction entries generalizing seen with
  | nil => simp [lastSeen, repeated_nil]
  | cons first entries ih =>
    obtain ⟨tag', key⟩ := first
    rw [lastSeen, List.mem_append, Option.mem_toList, ih, repeated_cons]
    constructor
    · rintro (hseen | ⟨later, hlater, hupdate⟩ | hrepeated)
      · exact .inl ⟨(tag', key), List.mem_cons_self, hseen⟩
      · by_cases hkey : later.2 = key
        · rw [hkey, Function.update_self] at hupdate
          exact .inr (.inl ⟨Option.some.inj hupdate, later, hlater, hkey⟩)
        · rw [Function.update_of_ne hkey] at hupdate
          exact .inl ⟨later, List.mem_cons_of_mem _ hlater, hupdate⟩
      · exact .inr (.inr hrepeated)
    · rintro (⟨later, hlater, hseen⟩ | ⟨htag, later, hlater, hkey⟩ | hrepeated)
      · by_cases hkey : later.2 = key
        · exact .inl (hkey ▸ hseen)
        · rcases List.mem_cons.mp hlater with rfl | hlater
          · exact absurd rfl hkey
          · refine .inr (.inl ⟨later, hlater, ?_⟩)
            rw [Function.update_of_ne hkey, hseen]
      · refine .inr (.inl ⟨later, hlater, ?_⟩)
        rw [hkey, Function.update_self, ← htag]
      · exact .inr (.inr hrepeated)

end Nanna.Lib
