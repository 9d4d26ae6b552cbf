import Mathlib.Data.List.DropRight
import Mathlib.Data.List.Infix

/-!
# Streaks and last occurrences

`streak p l` is the length of the longest run of elements with `p` at the end of `l`: a counter that each
element with `p` raises and each other one resets (`streak_concat`). It is at least `n` exactly when the
last `n` elements all have `p` (`le_streak_iff`).

`LastAt p l pre a post` says where the last element with `p` stands. A list with such an element has
exactly one such place.
-/

namespace Nanna.Lib

variable {α : Type*} {p : α → Bool} {l tail : List α} {a : α} {n : Nat}

/-! ## Streaks -/

def streak (p : α → Bool) (l : List α) : Nat := (l.rtakeWhile p).length

@[simp] theorem streak_nil : streak p [] = 0 := rfl

theorem streak_concat : streak p (l ++ [a]) = if p a then streak p l + 1 else 0 := by
  rw [streak, List.rtakeWhile_concat]
  split
  · rw [List.length_append]
    rfl
  · rfl

/-- A tail that is all `p` is within the streak. -/
theorem length_le_streak (h : tail <:+ l) (hp : ∀ a ∈ tail, p a = true) : tail.length ≤ streak p l := by
  induction l using List.reverseRecOn generalizing tail with
  | nil => rw [List.suffix_nil.mp h]; exact le_rfl
  | append_singleton l b ih =>
    rcases List.eq_nil_or_concat tail with rfl | ⟨init, c, rfl⟩
    · exact Nat.zero_le _
    · obtain ⟨pre, hpre⟩ := h
      rw [List.concat_eq_append, ← List.append_assoc] at hpre
      obtain ⟨hinit, hc⟩ := List.append_inj' hpre rfl
      obtain rfl : c = b := List.head_eq_of_cons_eq hc
      have hlast : p c = true := hp c (by simp)
      have hle : init.length ≤ streak p l := ih ⟨pre, hinit⟩ fun a ha => hp a (by simp [ha])
      rw [streak_concat, if_pos hlast, List.concat_eq_append, List.length_append]
      exact Nat.succ_le_succ hle

theorem le_streak_iff : n ≤ streak p l ↔
    ∃ tail, tail <:+ l ∧ tail.length = n ∧ ∀ a ∈ tail, p a = true := by
  constructor
  · intro h
    refine ⟨(l.rtakeWhile p).drop (streak p l - n), ?_, ?_, fun a ha => ?_⟩
    · exact (List.drop_suffix _ _).trans (List.rtakeWhile_suffix p l)
    · rw [List.length_drop, ← streak]
      omega
    · exact List.mem_rtakeWhile_imp (List.mem_of_mem_drop ha)
  · rintro ⟨tail, htail, rfl, hp⟩
    exact length_le_streak htail hp

/-! ## Last occurrences -/

variable {q : α → Prop} {pre pre' post post' : List α} {b : α}

/-- The last element of `l` with `q` is `a`, between `pre` and `post`. -/
structure LastAt (q : α → Prop) (l pre : List α) (a : α) (post : List α) : Prop where
  eq : l = pre ++ a :: post
  here : q a
  after : ∀ b ∈ post, ¬ q b

namespace LastAt

theorem mem (h : LastAt q l pre a post) : a ∈ l := by simp [h.eq]

theorem concat_pos (hb : q b) : LastAt q (l ++ [b]) l b [] := ⟨rfl, hb, fun _ h => absurd h List.not_mem_nil⟩

/-- More elements without `q`. -/
theorem append (h : LastAt q l pre a post) (hnone : ∀ b ∈ tail, ¬ q b) :
    LastAt q (l ++ tail) pre a (post ++ tail) where
  eq := by rw [h.eq, List.append_assoc, List.cons_append]
  here := h.here
  after b hb := (List.mem_append.mp hb).elim (h.after b) (hnone b)

theorem append_left (h : LastAt q l pre a post) : LastAt q (tail ++ l) (tail ++ pre) a post where
  eq := by rw [h.eq, List.append_assoc]
  here := h.here
  after := h.after

theorem unique (h : LastAt q l pre a post) (h' : LastAt q l pre' b post') :
    pre = pre' ∧ a = b ∧ post = post' := by
  rcases List.append_eq_append_iff.mp (h.eq.symm.trans h'.eq) with ⟨mid, hpre, hrest⟩ | ⟨mid, hpre, hrest⟩
  · cases mid with
    | nil =>
      rw [List.nil_append, List.cons.injEq] at hrest
      exact ⟨by rw [hpre, List.append_nil], hrest⟩
    | cons c mid =>
      rw [List.cons_append, List.cons.injEq] at hrest
      exact absurd h'.here (h.after b (by rw [hrest.2]; simp))
  · cases mid with
    | nil =>
      rw [List.nil_append, List.cons.injEq] at hrest
      exact ⟨by rw [hpre, List.append_nil], hrest.1.symm, hrest.2.symm⟩
    | cons c mid =>
      rw [List.cons_append, List.cons.injEq] at hrest
      exact absurd h.here (h'.after a (by rw [hrest.2]; simp))

end LastAt

theorem exists_lastAt (h : ∃ a ∈ l, q a) : ∃ pre b post, LastAt q l pre b post := by
  induction l using List.reverseRecOn with
  | nil => exact absurd h (by simp)
  | append_singleton l c ih =>
    by_cases hc : q c
    · exact ⟨l, c, [], .concat_pos hc⟩
    · obtain ⟨a, ha, hq⟩ := h
      have hal : a ∈ l := (List.mem_append.mp ha).resolve_right fun hlast =>
        hc (List.mem_singleton.mp hlast ▸ hq)
      obtain ⟨pre, b, post, hlast⟩ := ih ⟨a, hal, hq⟩
      exact ⟨pre, b, post ++ [c], hlast.append fun d hd => List.mem_singleton.mp hd ▸ hc⟩

end Nanna.Lib
