import Nanna.Lib.Matches

/-!
# Delimited texts

Words that hold no separator can be read off the text that joins them (`splitOnP_intercalate`). Texts that hold
separators can where none goes on where the other ends: two texts cancel (`Cancels`) if, laid before characters that
stop them, they are the same text or begin differently. Lists of such texts between commas cancel again
(`items_cancel`).
-/

namespace Nanna.Lib.Text

/-- At the end, or before a character that stops a text. -/
def Stopped (stops : Char → Bool) (r : Text) : Prop := ∀ c, r.head? = some c → stops c = true

def Cancels (stops : Char → Bool) (s t : Text) : Prop :=
  ∀ r r', Stopped stops r → Stopped stops r' → s ++ r = t ++ r' → s = t ∧ r = r'

variable {stops p : Char → Bool} {s t r r' : Text} {a b close : Char} {items items' words : List Text}

/-! ## Words -/

theorem of_mem_splitOnP : ∀ word ∈ t.splitOnP p, ∀ c ∈ word, p c = false := by
  induction t with
  | nil => simp
  | cons c t ih =>
    obtain ⟨word, words, hwords⟩ := List.exists_cons_of_ne_nil (List.splitOnP_ne_nil p t)
    rw [hwords, List.forall_mem_cons] at ih
    rw [List.splitOnP_cons_eq_if_modifyHead, hwords]
    split
    · exact List.forall_mem_cons.mpr ⟨by simp, List.forall_mem_cons.mpr ih⟩
    · rename_i hc
      exact List.forall_mem_cons.mpr ⟨List.forall_mem_cons.mpr ⟨eq_false_of_ne_true hc, ih.1⟩, ih.2⟩

theorem splitOnP_intercalate (ha : p a = true) (hne : words ≠ []) (h : ∀ word ∈ words, ∀ c ∈ word, p c = false) :
    ([a].intercalate words).splitOnP p = words := by
  induction words with
  | nil => exact absurd rfl hne
  | cons word words ih =>
    rw [List.forall_mem_cons] at h
    rcases words with _ | ⟨next, words⟩
    · rw [List.intercalate_singleton, List.splitOnP_eq_singleton h.1]
    · rw [intercalate_cons (List.cons_ne_nil _ _), List.append_assoc, List.singleton_append,
        List.splitOnP_append_cons_of_forall_mem h.1 _ ha, ih (List.cons_ne_nil _ _) h.2]

theorem mem_intercalate {c : Char} (h : c ∈ s.intercalate words) : c ∈ s ∨ ∃ word ∈ words, c ∈ word := by
  cases words with
  | nil => cases h
  | cons word words =>
    rw [intercalate_eq, List.mem_append, List.mem_flatMap] at h
    rcases h with hfirst | ⟨next, hnext, hc⟩
    · exact .inr ⟨word, List.mem_cons_self, hfirst⟩
    · rcases List.mem_append.mp hc with hs | hin
      · exact .inl hs
      · exact .inr ⟨next, List.mem_cons_of_mem _ hnext, hin⟩

/-! ## Texts that end by themselves -/

theorem stopped_nil : Stopped stops [] := fun _ h => by cases h

theorem stopped_cons (h : stops a = true) : Stopped stops (a :: r) := fun _ hc => Option.some.inj hc ▸ h

theorem cancels_refl : Cancels stops s s := fun _ _ _ _ h => ⟨rfl, List.append_cancel_left h⟩

theorem cancels_of_head (hs : s.head? = some a) (ht : t.head? = some b) (hne : a ≠ b) : Cancels stops s t := by
  intro r r' _ _ h
  have hhead := congrArg List.head? h
  rw [List.head?_append, List.head?_append, hs, ht] at hhead
  exact absurd (Option.some.inj hhead) hne

/-- Texts of characters none of which stops them. -/
theorem cancels_of_all (hs : ∀ c ∈ s, p c = true) (ht : ∀ c ∈ t, p c = true)
    (hstops : ∀ c, stops c = true → p c = false) : Cancels stops s t := by
  intro r r' hr hr' h
  induction s generalizing t with
  | nil =>
    cases t with
    | nil => exact ⟨rfl, h⟩
    | cons c t =>
      have hstop := hstops c (hr c (by rw [List.nil_append] at h; rw [h]; rfl))
      cases hstop.symm.trans (ht c List.mem_cons_self)
  | cons c s ih =>
    cases t with
    | nil =>
      have hstop := hstops c (hr' c (by rw [List.nil_append] at h; rw [← h]; rfl))
      cases hstop.symm.trans (hs c List.mem_cons_self)
    | cons d t =>
      obtain ⟨rfl, hrest⟩ := List.cons.inj h
      obtain ⟨rfl, hr⟩ := ih (fun c hc => hs c (List.mem_cons_of_mem _ hc))
        (fun c hc => ht c (List.mem_cons_of_mem _ hc)) hrest
      exact ⟨rfl, hr⟩

/-- Items behind their commas, before the character that closes them. -/
theorem tails_cancel (hcomma : stops ',' = true) (hclose : stops close = true) (hne : close ≠ ',')
    (h : ∀ s ∈ items, ∀ t ∈ items', Cancels stops s t)
    (heq : items.flatMap (',' :: ·) ++ close :: r = items'.flatMap (',' :: ·) ++ close :: r') :
    items = items' ∧ r = r' := by
  have hstopped (items : List Text) (r : Text) : Stopped stops (items.flatMap (',' :: ·) ++ close :: r) := by
    cases items with
    | nil => exact stopped_cons hclose
    | cons s items => exact stopped_cons hcomma
  induction items generalizing items' with
  | nil =>
    cases items' with
    | nil => exact ⟨rfl, (List.cons.inj heq).2⟩
    | cons t items' => exact absurd (List.cons.inj heq).1 hne
  | cons s items ih =>
    cases items' with
    | nil => exact absurd (List.cons.inj heq).1.symm hne
    | cons t items' =>
      rw [List.flatMap_cons, List.flatMap_cons, List.append_assoc, List.append_assoc] at heq
      obtain ⟨rfl, hrest⟩ := h s List.mem_cons_self t List.mem_cons_self _ _ (hstopped items r) (hstopped items' r')
        (List.cons.inj heq).2
      obtain ⟨rfl, hr⟩ := ih (fun s hs t ht => h s (List.mem_cons_of_mem _ hs) t (List.mem_cons_of_mem _ ht)) hrest
      exact ⟨rfl, hr⟩

theorem items_cancel (hcomma : stops ',' = true) (hclose : stops close = true) (hne : close ≠ ',')
    (hstart : ∀ s ∈ items ++ items', s ≠ [] ∧ s.head? ≠ some close)
    (h : ∀ s ∈ items, ∀ t ∈ items', Cancels stops s t)
    (heq : [','].intercalate items ++ close :: r = [','].intercalate items' ++ close :: r') :
    items = items' ∧ r = r' := by
  have hopen {t : Text} (ht : t ≠ [] ∧ t.head? ≠ some close) (r r' : Text) : close :: r ≠ t ++ r' := by
    obtain ⟨c, t, rfl⟩ := List.exists_cons_of_ne_nil ht.1
    exact fun heq => ht.2 (congrArg some (List.cons.inj heq).1.symm)
  have hstopped (items : List Text) (r : Text) : Stopped stops (items.flatMap ([','] ++ ·) ++ close :: r) := by
    cases items with
    | nil => exact stopped_cons hclose
    | cons s items => exact stopped_cons hcomma
  cases items with
  | nil =>
    cases items' with
    | nil => exact ⟨rfl, (List.cons.inj heq).2⟩
    | cons t items' =>
      rw [intercalate_eq, List.append_assoc] at heq
      exact absurd heq (hopen (hstart t List.mem_cons_self) _ _)
  | cons s items =>
    cases items' with
    | nil =>
      rw [intercalate_eq, List.append_assoc] at heq
      exact absurd heq.symm (hopen (hstart s List.mem_cons_self) _ _)
    | cons t items' =>
      rw [intercalate_eq, intercalate_eq, List.append_assoc, List.append_assoc] at heq
      obtain ⟨rfl, hrest⟩ := h s List.mem_cons_self t List.mem_cons_self _ _ (hstopped items r) (hstopped items' r') heq
      obtain ⟨rfl, hr⟩ := tails_cancel hcomma hclose hne
        (fun s hs t ht => h s (List.mem_cons_of_mem _ hs) t (List.mem_cons_of_mem _ ht)) hrest
      exact ⟨rfl, hr⟩

end Nanna.Lib.Text
