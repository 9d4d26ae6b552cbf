import Nanna.Lib.Text

/-!
# The brace regions of a text

One pass over a text finds its outermost brace regions: those that are closed, and at most one that is not and
takes the rest of the text. Quotes count inside of a region only. `Level` is the division of a text into these
regions and the characters between them; every text has one (`exists_level`), and it goes on where no region was
left open (`Level.append`).

`unmatched` counts the openers that a text without quotes leaves open; behind the first of them there is one less
(`unmatched_succ`).
-/

namespace Nanna.Lib.Braces

/-- Inside a region: how many braces are open, and whether a string is, with an escape begun. -/
structure Inside where
  depth : Nat
  str : Option Bool
deriving DecidableEq

def Inside.next (s : Inside) (c : Char) : Inside :=
  match s.str with
  | some true => { s with str := some false }
  | some false =>
    if c = '\\' then { s with str := some true }
    else if c = '"' then { s with str := none }
    else s
  | none =>
    if c = '"' then { s with str := some false }
    else if c = '\x7b' then { s with depth := s.depth + 1 }
    else if c = '\x7d' then { s with depth := s.depth - 1 }
    else s

/-- The state after a text that does not close the region. -/
def stays (s : Inside) : Text → Option Inside
  | [] => some s
  | c :: t => if (s.next c).depth = 0 then none else stays (s.next c) t

inductive Segment where
  | prose (c : Char)
  /-- A region, without its braces. -/
  | span (inner : Text)
  /-- What stands behind an opener that is not closed. -/
  | tail (inner : Text)

def Segment.text : Segment → Text
  | .prose c => [c]
  | .span inner => '\x7b' :: (inner ++ ['\x7d'])
  | .tail inner => '\x7b' :: inner

def atOpener : Inside := ⟨1, none⟩

inductive Level : Text → List Segment → Prop
  | nil : Level [] []
  | prose {c : Char} {t : Text} {segments : List Segment} (h : c ≠ '\x7b') (hrest : Level t segments) :
      Level (c :: t) (.prose c :: segments)
  | span {inner t : Text} {segments : List Segment} (h : stays atOpener inner = some atOpener)
      (hrest : Level t segments) : Level ((Segment.span inner).text ++ t) (.span inner :: segments)
  | tail {inner : Text} (h : (stays atOpener inner).isSome) : Level (Segment.tail inner).text [.tail inner]

/-- The openers left open, counted on. -/
def unmatched (depth : Nat) : Text → Nat
  | [] => depth
  | c :: t =>
    if c = '\x7b' then unmatched (depth + 1) t
    else if c = '\x7d' then unmatched (depth - 1) t
    else unmatched depth t

variable {s s' : Inside} {t t' inner : Text} {c : Char} {segments segments' : List Segment} {depth : Nat}

/-! ## Staying inside -/

theorem stays_append : stays s (t ++ t') = (stays s t).bind fun s => stays s t' := by
  induction t generalizing s with
  | nil => rfl
  | cons c t ih =>
    rw [List.cons_append, stays, stays]
    split
    · rfl
    · exact ih

theorem stays_cons (h : stays s (c :: t) = some s') : (s.next c).depth ≠ 0 ∧ stays (s.next c) t = some s' := by
  rw [stays] at h
  split at h
  · cases h
  · rename_i hnext
    exact ⟨hnext, h⟩

/-- Only the last closer closes a region. -/
theorem next_depth_eq_zero (hs : s.depth ≠ 0) (h : (s.next c).depth = 0) : s = atOpener ∧ c = '\x7d' := by
  obtain ⟨depth, str⟩ := s
  unfold Inside.next at h
  rcases str with _ | _ | _
  · dsimp only at h hs
    split at h
    · exact absurd h hs
    split at h
    · exact absurd h (Nat.succ_ne_zero _)
    split at h
    · rename_i hc
      obtain rfl : depth = 1 := by
        have hle : depth - 1 = 0 := h
        omega
      exact ⟨rfl, hc⟩
    · exact absurd h hs
  · dsimp only at h hs
    split at h
    · exact absurd h hs
    split at h
    · exact absurd h hs
    · exact absurd h hs
  · exact absurd h hs

theorem stays_depth (hs : s.depth ≠ 0) (h : stays s t = some s') : s'.depth ≠ 0 := by
  induction t generalizing s with
  | nil =>
    cases h
    exact hs
  | cons c t ih =>
    obtain ⟨hnext, hrest⟩ := stays_cons h
    exact ih hnext hrest

/-- A region is closed or it takes the whole text. -/
theorem stays_cases (hs : s.depth ≠ 0) (t : Text) : (stays s t).isSome ∨
    ∃ inner rest, t = inner ++ '\x7d' :: rest ∧ stays s inner = some atOpener := by
  induction t generalizing s with
  | nil => exact .inl rfl
  | cons c t ih =>
    by_cases hnext : (s.next c).depth = 0
    · obtain ⟨rfl, rfl⟩ := next_depth_eq_zero hs hnext
      exact .inr ⟨[], t, rfl, rfl⟩
    · rcases ih hnext with hsome | ⟨inner, rest, rfl, hinner⟩
      · exact .inl (by rw [stays, if_neg hnext]; exact hsome)
      · exact .inr ⟨c :: inner, rest, rfl, by rw [stays, if_neg hnext]; exact hinner⟩

/-- More open braces around change nothing. -/
theorem stays_add {k : Nat} (hs : s.depth ≠ 0) (h : stays s t = some s') :
    stays ⟨s.depth + k, s.str⟩ t = some ⟨s'.depth + k, s'.str⟩ := by
  induction t generalizing s with
  | nil =>
    cases h
    rfl
  | cons c t ih =>
    obtain ⟨hdepth, hrest⟩ := stays_cons h
    have hnext : Inside.next ⟨s.depth + k, s.str⟩ c = ⟨(s.next c).depth + k, (s.next c).str⟩ := by
      obtain ⟨depth, str⟩ := s
      unfold Inside.next at hdepth ⊢
      rcases str with _ | _ | _
      · dsimp only at hs hdepth ⊢
        split
        · rfl
        split
        · rw [Nat.add_right_comm]
        split
        · rw [Nat.sub_add_comm (Nat.pos_of_ne_zero hs)]
        · rfl
      · dsimp only
        split
        · rfl
        split
        · rfl
        · rfl
      · rfl
    rw [stays, hnext, if_neg (Nat.ne_of_gt (Nat.add_pos_left (Nat.pos_of_ne_zero hdepth) k))]
    exact ih hdepth hrest

/-- A region inside of another. -/
theorem stays_span (h : stays atOpener inner = some atOpener) :
    stays ⟨depth + 1, none⟩ (Segment.span inner).text = some ⟨depth + 1, none⟩ := by
  have hbody : stays ⟨depth + 1 + 1, none⟩ inner = some ⟨depth + 1 + 1, none⟩ := by
    rw [Nat.add_comm (depth + 1) 1]
    exact stays_add (k := depth + 1) (by decide) h
  calc stays ⟨depth + 1, none⟩ (Segment.span inner).text
    _ = stays ⟨depth + 1 + 1, none⟩ (inner ++ ['\x7d']) := rfl
    _ = (stays ⟨depth + 1 + 1, none⟩ inner).bind fun s => stays s ['\x7d'] := stays_append
    _ = some ⟨depth + 1, none⟩ := by
      rw [hbody]
      rfl

/-! ## Levels -/

theorem exists_level (t : Text) : ∃ segments, Level t segments := by
  induction hn : t.length using Nat.strong_induction_on generalizing t with
  | _ n ih =>
    subst hn
    cases t with
    | nil => exact ⟨[], .nil⟩
    | cons c t =>
      by_cases hc : c = '\x7b'
      · subst hc
        rcases stays_cases (s := atOpener) (by decide) t with hopen | ⟨inner, rest, rfl, hinner⟩
        · exact ⟨_, .tail hopen⟩
        · obtain ⟨segments, hrest⟩ := ih rest.length (by simp; omega) rest rfl
          have hlevel := Level.span hinner hrest
          rw [Segment.text, List.cons_append, List.append_assoc] at hlevel
          exact ⟨_, hlevel⟩
      · obtain ⟨segments, hrest⟩ := ih t.length (by simp) t rfl
        exact ⟨_, .prose hc hrest⟩

/-- No region is left open. -/
def Settled (segments : List Segment) : Prop := ∀ inner, .tail inner ∉ segments

theorem Level.append (h : Level t segments) (hsettled : Settled segments) (h' : Level t' segments') :
    Level (t ++ t') (segments ++ segments') := by
  induction h with
  | nil => exact h'
  | prose hc _ ih => exact .prose hc (ih fun inner hmem => hsettled inner (List.mem_cons_of_mem _ hmem))
  | span hinner _ ih =>
    rw [List.append_assoc]
    exact .span hinner (ih fun inner hmem => hsettled inner (List.mem_cons_of_mem _ hmem))
  | tail _ => exact absurd List.mem_cons_self (hsettled _)

/-- The region left open is the last. -/
theorem Level.settled_or (h : Level t segments) : Settled segments ∨ ∃ pre settled inner,
    t = pre ++ '\x7b' :: inner ∧ segments = settled ++ [.tail inner] ∧ Level pre settled ∧
      Settled settled ∧ (stays atOpener inner).isSome := by
  induction h with
  | nil => exact .inl fun inner hmem => absurd hmem List.not_mem_nil
  | @prose c t segments hc hrest ih =>
    rcases ih with hsettled | ⟨pre, settled, inner, rfl, rfl, hpre, hsettled, hinner⟩
    · refine .inl fun inner hmem => ?_
      rcases List.mem_cons.mp hmem with hhead | hmem
      · cases hhead
      · exact hsettled inner hmem
    · refine .inr ⟨c :: pre, .prose c :: settled, inner, rfl, rfl, .prose hc hpre, fun x hmem => ?_, hinner⟩
      rcases List.mem_cons.mp hmem with hhead | hmem
      · cases hhead
      · exact hsettled x hmem
  | @span body t segments hbody hrest ih =>
    rcases ih with hsettled | ⟨pre, settled, inner, rfl, rfl, hpre, hsettled, hinner⟩
    · refine .inl fun inner hmem => ?_
      rcases List.mem_cons.mp hmem with hhead | hmem
      · cases hhead
      · exact hsettled inner hmem
    · refine .inr ⟨(Segment.span body).text ++ pre, .span body :: settled, inner, (List.append_assoc ..).symm,
        rfl, .span hbody hpre, fun x hmem => ?_, hinner⟩
      rcases List.mem_cons.mp hmem with hhead | hmem
      · cases hhead
      · exact hsettled x hmem
  | @tail inner h =>
    exact .inr ⟨[], [], inner, rfl, rfl, .nil, fun x hmem => absurd hmem List.not_mem_nil, h⟩

/-! ## Openers without quotes -/

theorem unmatched_append : unmatched depth (t ++ t') = unmatched (unmatched depth t) t' := by
  induction t generalizing depth with
  | nil => rfl
  | cons c t ih =>
    rw [List.cons_append, unmatched, unmatched]
    split
    · exact ih
    split
    · exact ih
    · exact ih

theorem next_closer : Inside.next ⟨depth, none⟩ '\x7d' = ⟨depth - 1, none⟩ := rfl

theorem next_other (hquote : c ≠ '"') (hopener : c ≠ '\x7b') (hcloser : c ≠ '\x7d') :
    Inside.next ⟨depth, none⟩ c = ⟨depth, none⟩ := by
  unfold Inside.next
  dsimp only
  rw [if_neg hquote, if_neg hopener, if_neg hcloser]

theorem stays_unmatched (hquote : '"' ∉ t) (h : stays ⟨depth, none⟩ t = some s) :
    s = ⟨unmatched depth t, none⟩ := by
  induction t generalizing depth with
  | nil =>
    cases h
    rfl
  | cons c t ih =>
    rw [List.mem_cons, not_or] at hquote
    obtain ⟨-, hrest⟩ := stays_cons h
    rw [unmatched]
    by_cases hopener : c = '\x7b'
    · subst hopener
      exact ih hquote.2 hrest
    by_cases hcloser : c = '\x7d'
    · subst hcloser
      exact ih hquote.2 hrest
    · rw [next_other (Ne.symm hquote.1) hopener hcloser] at hrest
      rw [if_neg hopener, if_neg hcloser]
      exact ih hquote.2 hrest

/-- Inside of a region that stays open, the opener counts. -/
theorem unmatched_succ (hquote : '"' ∉ t) (h : stays ⟨depth + 1, none⟩ t = some s) :
    unmatched (depth + 1) t = unmatched depth t + 1 := by
  induction t generalizing depth with
  | nil => rfl
  | cons c t ih =>
    rw [List.mem_cons, not_or] at hquote
    obtain ⟨hdepth, hrest⟩ := stays_cons h
    rw [unmatched, unmatched]
    by_cases hopener : c = '\x7b'
    · subst hopener
      exact ih hquote.2 hrest
    by_cases hcloser : c = '\x7d'
    · subst hcloser
      obtain ⟨k, rfl⟩ : ∃ k, depth = k + 1 := ⟨depth - 1, by
        rw [next_closer] at hdepth
        dsimp only at hdepth
        omega⟩
      exact ih hquote.2 hrest
    · rw [next_other (Ne.symm hquote.1) hopener hcloser] at hrest
      rw [if_neg hopener, if_neg hcloser, if_neg hopener, if_neg hcloser]
      exact ih hquote.2 hrest

/-- Where nothing is left open, no opener is. -/
theorem Level.unmatched_eq_zero (h : Level t segments) (hsettled : Settled segments) (hquote : '"' ∉ t) :
    unmatched 0 t = 0 := by
  induction h with
  | nil => rfl
  | prose hc _ ih =>
    rw [List.mem_cons, not_or] at hquote
    rw [unmatched, if_neg hc]
    have hrest := ih (fun inner hmem => hsettled inner (List.mem_cons_of_mem _ hmem)) hquote.2
    split
    · exact hrest
    · exact hrest
  | @span inner t segments hinner _ ih =>
    rw [List.mem_append, not_or] at hquote
    have hbody : '"' ∉ inner := fun hmem => hquote.1 (by simp [Segment.text, hmem])
    have hdepth := congrArg Inside.depth (stays_unmatched hbody hinner)
    have hone : unmatched 1 inner = 1 := hdepth.symm
    have hrest := ih (fun x hmem => hsettled x (List.mem_cons_of_mem _ hmem)) hquote.2
    rw [unmatched_append, Segment.text, unmatched, if_pos rfl, unmatched_append, hone]
    exact hrest
  | tail _ => exact absurd List.mem_cons_self (hsettled _)

end Nanna.Lib.Braces
