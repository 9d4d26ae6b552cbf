import Mathlib.Data.List.Forall2
import Mathlib.Data.List.Infix

/-!
# Wildcard patterns

A pattern is a list of pieces: a letter, one letter that is no separator, a run of those, or a run
of anything. A pattern has no piece that names a wildcard letter, so it cannot tell two words apart
that differ only in which wildcard letters they have (`matchPieces_congr`). Otherwise it can: the
pattern `padded` of a word matches the word, and no word that is not longer unless the two agree off
the wildcard letters of the first (`forall₂_of_padded`).
-/

namespace Nanna.Lib

variable {α : Type*}

inductive Piece (α : Type*) where
  | lit (a : α)
  | one
  | many
  | all
  deriving DecidableEq

namespace Wildcard

variable [DecidableEq α] {sep : α} {ps : List (Piece α)} {u v xs : List α} {wild : α → Bool} {q : α}

/-- Whether the pieces match the whole word. -/
def matchPieces (sep : α) : List (Piece α) → List α → Bool
  | [], xs => xs.isEmpty
  | .lit a :: ps, x :: xs => x = a && matchPieces sep ps xs
  | .one :: ps, x :: xs => x ≠ sep && matchPieces sep ps xs
  | .lit _ :: _, [] => false
  | .one :: _, [] => false
  | .many :: ps, xs => (List.range (xs.length + 1)).any fun n =>
    (xs.take n).all (· ≠ sep) && matchPieces sep ps (xs.drop n)
  | .all :: ps, xs => (List.range (xs.length + 1)).any fun n => matchPieces sep ps (xs.drop n)

theorem matchPieces_many : matchPieces sep (.many :: ps) xs = true ↔
    ∃ ys zs, xs = ys ++ zs ∧ sep ∉ ys ∧ matchPieces sep ps zs = true := by
  simp only [matchPieces, List.any_eq_true, Bool.and_eq_true, List.mem_range]
  constructor
  · rintro ⟨n, -, hrun, hrest⟩
    refine ⟨_, _, (List.take_append_drop n xs).symm, fun hmem => ?_, hrest⟩
    simpa using List.all_eq_true.mp hrun sep hmem
  · rintro ⟨ys, zs, rfl, hsep, hrest⟩
    refine ⟨ys.length, by rw [List.length_append]; omega, ?_, ?_⟩
    · rw [List.take_left]
      exact List.all_eq_true.mpr fun y hy => by simpa using fun h : y = sep => hsep (h ▸ hy)
    · rwa [List.drop_left]

theorem matchPieces_all : matchPieces sep (.all :: ps) xs = true ↔
    ∃ ys zs, xs = ys ++ zs ∧ matchPieces sep ps zs = true := by
  simp only [matchPieces, List.any_eq_true, List.mem_range]
  constructor
  · rintro ⟨n, -, hrest⟩
    exact ⟨_, _, (List.take_append_drop n xs).symm, hrest⟩
  · rintro ⟨ys, zs, rfl, hrest⟩
    exact ⟨ys.length, by rw [List.length_append]; omega, by rwa [List.drop_left]⟩

/-! ## Words that no pattern tells apart -/

/-- Wildcard letters become one letter. -/
def blur (wild : α → Bool) (q : α) (xs : List α) : List α := xs.map fun x => if wild x then q else x

/-- The pieces name no wildcard letter. -/
def Named (wild : α → Bool) (ps : List (Piece α)) : Prop := ∀ a, .lit a ∈ ps → wild a = false

omit [DecidableEq α] in
theorem blur_eq_of_not_wild {x a : α} (hq : wild q = true) (ha : wild a = false) :
    (if wild x then q else x) = a ↔ x = a := by
  split
  · rename_i hx
    refine ⟨fun h => ?_, fun h => ?_⟩
    · rw [← h, hq] at ha
      cases ha
    · rw [← h, hx] at ha
      cases ha
  · rfl

/-- A match looks at a word only up to its wildcard letters. -/
theorem matchPieces_blur (hq : wild q = true) (hsep : wild sep = false) (h : Named wild ps) :
    matchPieces sep ps (blur wild q xs) = matchPieces sep ps xs := by
  have hne : ∀ x, decide ((if wild x then q else x) ≠ sep) = decide (x ≠ sep) := fun x => by
    simp only [ne_eq, blur_eq_of_not_wild hq hsep]
  induction ps generalizing xs with
  | nil => cases xs <;> rfl
  | cons p ps ih =>
    have hps : Named wild ps := fun a ha => h a (List.mem_cons_of_mem _ ha)
    cases p with
    | lit a =>
      cases xs with
      | nil => rfl
      | cons x xs =>
        have ha : wild a = false := h a List.mem_cons_self
        have hx : decide ((if wild x then q else x) = a) = decide (x = a) := by
          simp only [blur_eq_of_not_wild hq ha]
        exact congrArg₂ and hx (ih hps)
    | one =>
      cases xs with
      | nil => rfl
      | cons x xs => exact congrArg₂ and (hne x) (ih hps)
    | many =>
      simp only [matchPieces, blur, List.length_map, ← List.map_take, ← List.map_drop,
        List.all_map, Function.comp_def, hne]
      exact congrArg (List.any _) (funext fun n => congrArg (and _) (ih hps))
    | all =>
      simp only [matchPieces, blur, List.length_map, ← List.map_drop]
      exact congrArg (List.any _) (funext fun n => ih hps)

theorem matchPieces_congr (hq : wild q = true) (hsep : wild sep = false) (h : Named wild ps)
    (huv : blur wild q u = blur wild q v) : matchPieces sep ps u = matchPieces sep ps v := by
  rw [← matchPieces_blur hq hsep h, huv, matchPieces_blur hq hsep h]

omit [DecidableEq α] in
/-- A word without wildcard letters is seen as it is. -/
theorem blur_eq_iff (hq : wild q = true) {g : List α} (hg : ∀ a ∈ g, wild a = false) :
    blur wild q u = g ↔ u = g := by
  induction u generalizing g with
  | nil => rfl
  | cons x u ih =>
    cases g with
    | nil => exact ⟨nofun, nofun⟩
    | cons a g =>
      have hx := blur_eq_of_not_wild hq (hg a List.mem_cons_self) (x := x)
      have hu := ih fun b hb => hg b (List.mem_cons_of_mem _ hb)
      rw [blur] at hu ⊢
      rw [List.map_cons, List.cons.injEq, List.cons.injEq, hx, hu]

omit [DecidableEq α] in
theorem prefix_blur_iff (hq : wild q = true) {g : List α} (hg : ∀ a ∈ g, wild a = false) :
    g <+: blur wild q u ↔ g <+: u := by
  rw [List.prefix_iff_eq_take, List.prefix_iff_eq_take, eq_comm, blur, ← List.map_take, ← blur,
    blur_eq_iff hq hg, eq_comm]

/-! ## A pattern for a word -/

/-- The word's own letters, and one letter for each wildcard letter. -/
def sealed (wild : α → Bool) (u : List α) : List (Piece α) :=
  u.map fun x => if wild x then .one else .lit x

/-- The word's pattern, with a run before it and anything after it. -/
def padded (wild : α → Bool) (u : List α) : List (Piece α) := .many :: (sealed wild u ++ [.all])

/-- Two words agree off the wildcard letters of the first. -/
def Agrees (sep : α) (wild : α → Bool) : List α → List α → Prop :=
  List.Forall₂ fun x y => if wild x then y ≠ sep else y = x

theorem matchPieces_sealed_append :
    matchPieces sep (sealed wild u ++ ps) v = true ↔
      ∃ m z, v = m ++ z ∧ Agrees sep wild u m ∧ matchPieces sep ps z = true := by
  induction u generalizing v with
  | nil =>
    refine ⟨fun h => ⟨[], v, rfl, .nil, h⟩, ?_⟩
    rintro ⟨_, z, rfl, hnil, h⟩
    cases hnil
    exact h
  | cons x u ih =>
    have hhead : ∀ y ys, matchPieces sep (sealed wild (x :: u) ++ ps) (y :: ys) = true ↔
        (if wild x then y ≠ sep else y = x) ∧
          matchPieces sep (sealed wild u ++ ps) ys = true := by
      intro y ys
      simp only [sealed, List.map_cons, List.cons_append]
      split <;> simp [matchPieces]
    constructor
    · intro h
      cases v with
      | nil =>
        simp only [sealed, List.map_cons, List.cons_append] at h
        split at h <;> cases h
      | cons y ys =>
        obtain ⟨hxy, hrest⟩ := (hhead y ys).mp h
        obtain ⟨m, z, rfl, hm, hz⟩ := ih.mp hrest
        exact ⟨y :: m, z, rfl, .cons hxy hm, hz⟩
    · rintro ⟨_, z, rfl, hcons, hz⟩
      cases hcons with
      | cons hxy hm => exact (hhead _ _).mpr ⟨hxy, ih.mpr ⟨_, z, rfl, hm, hz⟩⟩

theorem matchPieces_padded : matchPieces sep (padded wild u) v = true ↔
    ∃ y m z, v = y ++ m ++ z ∧ sep ∉ y ∧ Agrees sep wild u m := by
  rw [padded, matchPieces_many]
  constructor
  · rintro ⟨y, _, rfl, hy, h⟩
    obtain ⟨m, z, rfl, hm, -⟩ := matchPieces_sealed_append.mp h
    exact ⟨y, m, z, (List.append_assoc ..).symm, hy, hm⟩
  · rintro ⟨y, m, z, rfl, hy, hm⟩
    refine ⟨y, m ++ z, List.append_assoc .., hy, matchPieces_sealed_append.mpr ⟨m, z, rfl, hm, ?_⟩⟩
    exact matchPieces_all.mpr ⟨z, [], (List.append_nil z).symm, rfl⟩

omit [DecidableEq α] in
theorem Agrees.refl (hsep : wild sep = false) : ∀ u : List α, Agrees sep wild u u
  | [] => .nil
  | x :: u => by
    refine .cons ?_ (Agrees.refl hsep u)
    split
    · rename_i hx
      rintro rfl
      rw [hx] at hsep
      cases hsep
    · rfl

theorem padded_self (hsep : wild sep = false) : matchPieces sep (padded wild u) u = true :=
  matchPieces_padded.mpr ⟨[], u, [], (List.append_nil u).symm, List.not_mem_nil, .refl hsep u⟩

/-- A word that is not longer is matched only letter by letter. -/
theorem forall₂_of_padded (h : matchPieces sep (padded wild u) v = true) (hlen : v.length ≤ u.length) :
    Agrees sep wild u v := by
  obtain ⟨y, m, z, rfl, -, hm⟩ := matchPieces_padded.mp h
  have hlength : u.length = m.length := hm.length_eq
  simp only [List.length_append] at hlen
  obtain rfl : y = [] := List.eq_nil_of_length_eq_zero (by omega)
  obtain rfl : z = [] := List.eq_nil_of_length_eq_zero (by omega)
  simpa using hm

/-- A word that starts with the separator is matched only by one that does. -/
theorem not_padded_of_head {x : α} (hx : x ≠ sep) :
    matchPieces sep (padded wild (x :: u)) (sep :: v) = false := by
  rw [Bool.eq_false_iff]
  intro h
  obtain ⟨y, m, z, heq, hy, hm⟩ := matchPieces_padded.mp h
  cases hm with
  | cons hxm hrest =>
    cases y with
    | cons _ _ =>
      obtain ⟨rfl, -⟩ := List.cons.inj heq
      exact hy List.mem_cons_self
    | nil =>
      obtain ⟨rfl, -⟩ := List.cons.inj heq
      split at hxm
      · exact hxm rfl
      · exact hx hxm.symm

omit [DecidableEq α] in
/-- Words that agree both ways differ only in their wildcard letters. -/
theorem blur_eq_of_agrees (huv : Agrees sep wild u v) (hvu : Agrees sep wild v u) :
    blur wild q u = blur wild q v := by
  induction huv with
  | nil => rfl
  | @cons x y u v hxy _ ih =>
    cases hvu with
    | cons hyx hrest =>
      refine congrArg₂ List.cons ?_ (ih hrest)
      by_cases hx : wild x = true
      · by_cases hy : wild y = true
        · exact (if_pos hx).trans (if_pos hy).symm
        · rw [if_neg hy] at hyx
          rw [hyx] at hx
          exact absurd hx hy
      · rw [if_neg hx] at hxy
        rw [hxy]

end Wildcard

end Nanna.Lib
