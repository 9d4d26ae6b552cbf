import Mathlib.Data.List.Basic

/-!
# Rewriting the first match

`modifyFirst p f` applies `f` to the first element that meets `p`: how a list of records looked up
by key has one of them rewritten. `modifyFirst_eq` splits the list there, and every other fact
follows from it.
-/

namespace Nanna.Lib

variable {α β : Type*} {p : α → Bool} {f : α → α} {l : List α} {a : α}

def modifyFirst (p : α → Bool) (f : α → α) : List α → List α
  | [] => []
  | a :: l => if p a then f a :: l else a :: modifyFirst p f l

theorem modifyFirst_of_none (h : l.find? p = none) : modifyFirst p f l = l := by
  induction l with
  | nil => rfl
  | cons b l ih =>
    have hb : p b = false := by simpa using List.find?_eq_none.mp h b List.mem_cons_self
    rw [List.find?_cons, hb] at h
    simp [modifyFirst, hb, ih h]

theorem modifyFirst_eq (f : α → α) (h : l.find? p = some a) :
    ∃ l₁ l₂, l = l₁ ++ a :: l₂ ∧ modifyFirst p f l = l₁ ++ f a :: l₂ := by
  induction l with
  | nil => cases h
  | cons b l ih =>
    rw [List.find?_cons] at h
    cases hb : p b with
    | true =>
      rw [hb] at h
      obtain rfl : b = a := Option.some.inj h
      exact ⟨[], l, rfl, by simp [modifyFirst, hb]⟩
    | false =>
      rw [hb] at h
      obtain ⟨l₁, l₂, rfl, heq⟩ := ih h
      exact ⟨b :: l₁, l₂, rfl, by simp [modifyFirst, hb, heq]⟩

/-- Rewriting twice is rewriting once, for a rewrite that settles what it touches. -/
theorem modifyFirst_idem (hf : ∀ a, p a = true → p (f a) = true ∧ f (f a) = f a) :
    modifyFirst p f (modifyFirst p f l) = modifyFirst p f l := by
  induction l with
  | nil => rfl
  | cons b l ih =>
    cases hb : p b with
    | true =>
      obtain ⟨hp, hfix⟩ := hf b hb
      simp [modifyFirst, hb, hp, hfix]
    | false => simp [modifyFirst, hb, ih]

/-- What holds of every element, and of the rewritten one, holds after the rewrite. -/
theorem forall_modifyFirst {P : α → Prop} (hl : ∀ b ∈ l, P b)
    (hf : ∀ a, l.find? p = some a → P (f a)) : ∀ b ∈ modifyFirst p f l, P b := by
  cases hfind : l.find? p with
  | none =>
    rw [modifyFirst_of_none hfind]
    exact hl
  | some a =>
    obtain ⟨l₁, l₂, rfl, heq⟩ := modifyFirst_eq f hfind
    rw [heq]
    intro b hb
    rcases List.mem_append.mp hb with hb | hb
    · exact hl b (List.mem_append_left _ hb)
    · rcases List.mem_cons.mp hb with rfl | hb
      · exact hf a hfind
      · exact hl b (List.mem_append_right _ (List.mem_cons_of_mem _ hb))

theorem mem_modifyFirst (f : α → α) (h : l.find? p = some a) : f a ∈ modifyFirst p f l := by
  obtain ⟨l₁, l₂, -, heq⟩ := modifyFirst_eq f h
  rw [heq]
  exact List.mem_append_right _ List.mem_cons_self

/-- A rewrite that a projection does not see. -/
theorem map_modifyFirst {g : α → β} (h : ∀ a, l.find? p = some a → g (f a) = g a) :
    (modifyFirst p f l).map g = l.map g := by
  cases hfind : l.find? p with
  | none => rw [modifyFirst_of_none hfind]
  | some a =>
    obtain ⟨l₁, l₂, rfl, heq⟩ := modifyFirst_eq f hfind
    rw [heq, List.map_append, List.map_append, List.map_cons, List.map_cons, h a hfind]

/-- The search finds the rewritten element. -/
theorem find?_modifyFirst (hf : ∀ a, p (f a) = p a) :
    (modifyFirst p f l).find? p = (l.find? p).map f := by
  induction l with
  | nil => rfl
  | cons b l ih =>
    rw [modifyFirst]
    cases hb : p b with
    | true => simp [hb, hf]
    | false => simp [hb, ih]

/-- Another search does not see the rewrite. -/
theorem find?_modifyFirst_of_disjoint {q : α → Bool} (hf : ∀ a, p a → q a = false ∧ q (f a) = false) :
    (modifyFirst p f l).find? q = l.find? q := by
  induction l with
  | nil => rfl
  | cons b l ih =>
    rw [modifyFirst]
    cases hb : p b with
    | true =>
      obtain ⟨hqb, hqf⟩ := hf b hb
      simp [hqb, hqf]
    | false => simp [List.find?_cons, ih]

/-- Under a projection that the search and the rewrite factor through. -/
theorem map_modifyFirst_comm {g : α → β} {q : β → Bool} {f' : β → β} (hp : ∀ a, q (g a) = p a)
    (hf : ∀ a, g (f a) = f' (g a)) : (modifyFirst p f l).map g = modifyFirst q f' (l.map g) := by
  induction l with
  | nil => rfl
  | cons b l ih =>
    rw [List.map_cons, modifyFirst, modifyFirst, hp]
    split_ifs
    · rw [List.map_cons, hf]
    · rw [List.map_cons, ih]

theorem filterMap_modifyFirst_of_unseen {g : α → Option β} (h : ∀ a, l.find? p = some a → g (f a) = g a) :
    (modifyFirst p f l).filterMap g = l.filterMap g := by
  cases hfind : l.find? p with
  | none => rw [modifyFirst_of_none hfind]
  | some a =>
    obtain ⟨l₁, l₂, rfl, heq⟩ := modifyFirst_eq f hfind
    rw [heq, List.filterMap_append, List.filterMap_append, List.filterMap_cons, List.filterMap_cons, h a hfind]

/-- The same where the projection drops records. -/
theorem filterMap_modifyFirst {g : α → Option β} {q : β → Bool} {f' : β → β} (hp : ∀ a, p a = (g a).any q)
    (hf : ∀ a, g (f a) = (g a).map f') : (modifyFirst p f l).filterMap g = modifyFirst q f' (l.filterMap g) := by
  induction l with
  | nil => rfl
  | cons a l ih =>
    cases ha : g a with
    | none =>
      have hskip : p a = false := by rw [hp, ha]; rfl
      simp [modifyFirst, hskip, ha, ih]
    | some b =>
      have hseen : p a = q b := by rw [hp, ha]; rfl
      have hfa : g (f a) = some (f' b) := by rw [hf, ha]; rfl
      rw [List.filterMap_cons_some ha, modifyFirst, modifyFirst, hseen]
      split_ifs
      · rw [List.filterMap_cons_some hfa]
      · rw [List.filterMap_cons_some ha, ih]

theorem modifyFirst_append_cons {l₁ l₂ : List α} (h : ∀ b ∈ l₁, p b = false) (ha : p a = true) :
    modifyFirst p f (l₁ ++ a :: l₂) = l₁ ++ f a :: l₂ := by
  induction l₁ with
  | nil => rw [List.nil_append, modifyFirst, if_pos ha]; rfl
  | cons b l₁ ih =>
    have hb : p b = false := h b List.mem_cons_self
    have hrest := ih fun c hc => h c (List.mem_cons_of_mem b hc)
    rw [List.cons_append, modifyFirst, if_neg (by rw [hb]; exact Bool.false_ne_true), hrest]
    rfl

/-- A rewrite of a record outside the filter that stays outside. -/
theorem filter_modifyFirst {q : α → Bool} (h : l.find? p = some a) (ha : q a = false)
    (hfa : q (f a) = false) : (modifyFirst p f l).filter q = l.filter q := by
  obtain ⟨l₁, l₂, rfl, heq⟩ := modifyFirst_eq f h
  have ha' : ¬q a = true := ha ▸ Bool.false_ne_true
  have hfa' : ¬q (f a) = true := hfa ▸ Bool.false_ne_true
  rw [heq, List.filter_append, List.filter_append, List.filter_cons_of_neg ha',
    List.filter_cons_of_neg hfa']

/-- A rewrite of a record inside the filter that changes it shows. -/
theorem filter_modifyFirst_ne {q : α → Bool} (h : l.find? p = some a) (ha : q a = true)
    (hfa : q (f a) = true) (hne : f a ≠ a) : (modifyFirst p f l).filter q ≠ l.filter q := by
  obtain ⟨l₁, l₂, rfl, heq⟩ := modifyFirst_eq f h
  rw [heq, List.filter_append, List.filter_append, List.filter_cons_of_pos ha,
    List.filter_cons_of_pos hfa]
  intro hsame
  exact hne (List.cons.inj (List.append_cancel_left hsame)).1

end Nanna.Lib
