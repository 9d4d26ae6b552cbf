import Nanna.Agent.Summarize

/-!
# Where a text is cut for the summarizers

`message_chunks`: for every text, every nondecreasing list of offsets on character boundaries at
which messages end, and every budget, the pieces of `chunk_at_message_boundaries` follow one another
from the start of the text to the last offset. Every piece ends at one of the offsets, and one that is
over the budget is exactly one message.

The invariant of the loop (`Chunked`) is about what has been cut and what waits: the pieces reach up
to `start`, and what waits between `start` and `last_end` fits the budget. An offset that comes next
has none between `last_end` and itself, so a piece that the loop makes of it alone is one message. A
budget of 0 counts as 1; a piece of one byte is a message, whatever the budget.
-/

namespace Nanna.Agent

open Nanna.Lib Nanna.Lib.Text

/-! ## Messages and pieces -/

/-- The messages of a text end at these offsets. -/
structure MessageEnds (content : Text) (ends : List Nat) : Prop where
  sorted : ends.Pairwise (· ≤ ·)
  boundary : ∀ e ∈ ends, IsBoundary e content

/-- The text from `a` to `b` is exactly one message that is not empty. -/
structure OneMessage (ends : List Nat) (a b : Nat) : Prop where
  lt : a < b
  starts : a = 0 ∨ a ∈ ends
  stops : b ∈ ends
  none_between : ∀ e ∈ ends, e ≤ a ∨ b ≤ e

/-- A piece with its end, cut from the text at `a`. -/
structure CutAt (content : Text) (ends : List Nat) (budget a : Nat) (piece : Text × Nat) : Prop where
  lt : a < piece.2
  text : piece.1 = content.slice a piece.2
  cut : piece.2 ∈ ends
  fits : piece.1.byteLen ≤ budget ∨ OneMessage ends a piece.2

/-- The pieces follow one another from one offset to another. -/
inductive Cuts (content : Text) (ends : List Nat) (budget : Nat) : Nat → List (Text × Nat) → Nat → Prop
  | nil (a : Nat) : Cuts content ends budget a [] a
  | cons {a b : Nat} {piece : Text × Nat} {pieces : List (Text × Nat)} :
      CutAt content ends budget a piece → Cuts content ends budget piece.2 pieces b →
        Cuts content ends budget a (piece :: pieces) b

section

variable {content : Text} {ends : List Nat} {budget a b : Nat} {piece : Text × Nat}
  {pieces : List (Text × Nat)}

theorem isBoundary_zero : IsBoundary 0 content := ⟨[], content, rfl, rfl⟩

theorem MessageEnds.isBoundary (h : MessageEnds content ends) (ha : a = 0 ∨ a ∈ ends) :
    IsBoundary a content := by
  rcases ha with rfl | hmem
  · exact isBoundary_zero
  · exact h.boundary a hmem

namespace Cuts

theorem concat (h : Cuts content ends budget a pieces b) (hpiece : CutAt content ends budget b piece) :
    Cuts content ends budget a (pieces ++ [piece]) piece.2 := by
  induction h with
  | nil a => exact .cons hpiece (.nil _)
  | cons hfirst hrest ih => exact .cons hfirst (ih hpiece)

theorem end_mem (h : Cuts content ends budget a pieces b) : b = a ∨ b ∈ ends := by
  induction h with
  | nil a => exact .inl rfl
  | cons hfirst hrest ih =>
    right
    rcases ih with rfl | hmem
    · exact hfirst.cut
    · exact hmem

/-- The pieces are the text between the two offsets. -/
theorem flatten (hends : MessageEnds content ends) (ha : IsBoundary a content)
    (h : Cuts content ends budget a pieces b) :
    content.takeBytes a ++ (pieces.map (·.1)).flatten = content.takeBytes b := by
  induction h with
  | nil a => exact List.append_nil _
  | @cons a b piece pieces hfirst hrest ih =>
    have hnext := ih (hends.boundary piece.2 hfirst.cut)
    have hjoin := ha.takeBytes_append_slice (Nat.le_of_lt hfirst.lt)
    rw [List.map_cons, List.flatten_cons, ← List.append_assoc, hfirst.text, hjoin, hnext]

end Cuts

/-! ## The loop -/

/-- What has been cut, and what waits. -/
structure Chunked (content : Text) (ends : List Nat) (budgetChars : Nat) (state : Chunking) : Prop where
  valid : state.Valid (max budgetChars 1)
  cuts : Cuts content ends budgetChars 0 state.chunks state.start
  seen : state.lastEnd = 0 ∨ state.lastEnd ∈ ends

variable {budgetChars : Nat} {state : Chunking} {boundary : Nat}

/-- A piece within the budget that the loop uses. -/
theorem cutAt_of_fits (hends : MessageEnds content ends) (ha : a = 0 ∨ a ∈ ends) (hb : b ∈ ends)
    (hlt : a < b) (hfits : b - a ≤ max budgetChars 1) :
    CutAt content ends budgetChars a (content.slice a b, b) := by
  have hlength : (content.slice a b).byteLen = b - a :=
    (hends.isBoundary ha).byteLen_slice (hends.boundary b hb) (Nat.le_of_lt hlt)
  refine ⟨hlt, rfl, hb, ?_⟩
  by_cases hbudget : b - a ≤ budgetChars
  · left
    show (content.slice a b).byteLen ≤ budgetChars
    omega
  · -- the budget is 0, and the piece one byte
    right
    refine ⟨hlt, ha, hb, fun e _ => ?_⟩
    show e ≤ a ∨ b ≤ e
    omega

namespace Chunked

theorem start_mem (h : Chunked content ends budgetChars state) : state.start = 0 ∨ state.start ∈ ends :=
  h.cuts.end_mem

theorem flush_cuts (hends : MessageEnds content ends) (h : Chunked content ends budgetChars state) :
    Cuts content ends budgetChars 0 (state.flush content).chunks state.lastEnd := by
  have hle := h.valid.start_le
  unfold Chunking.flush
  split
  · rename_i hlt
    have hmem : state.lastEnd ∈ ends := by
      apply h.seen.resolve_left
      omega
    exact h.cuts.concat (cutAt_of_fits hends h.start_mem hmem hlt h.valid.fits)
  · have hsame : state.start = state.lastEnd := by omega
    rw [← hsame]
    exact h.cuts

/-- One offset, where no other lies between the last one and it. -/
theorem addBoundary (hends : MessageEnds content ends) (h : Chunked content ends budgetChars state)
    (hmem : boundary ∈ ends) (hle : state.lastEnd ≤ boundary)
    (hnext : ∀ e ∈ ends, e ≤ state.lastEnd ∨ boundary ≤ e) :
    Chunked content ends budgetChars (state.addBoundary content (max budgetChars 1) boundary) := by
  obtain ⟨hvalid, hlast⟩ := Chunking.addBoundary_valid content h.valid hle
  refine ⟨hvalid, ?_, .inr (by rw [hlast]; exact hmem)⟩
  have hstart := Chunking.flush_start content h.valid
  have hflush := h.flush_cuts hends
  unfold Chunking.addBoundary
  split
  · exact h.cuts
  · rename_i hnew
    split
    · show Cuts content ends budgetChars 0
        ((state.flush content).alone content (max budgetChars 1) boundary).chunks
        ((state.flush content).alone content (max budgetChars 1) boundary).start
      unfold Chunking.alone
      rw [hstart]
      split
      · -- the message is over the budget by itself
        rename_i hover
        have hone : OneMessage ends state.lastEnd boundary :=
          ⟨by omega, h.seen, hmem, hnext⟩
        exact hflush.concat ⟨hone.lt, rfl, hmem, .inr hone⟩
      · show Cuts content ends budgetChars 0 (state.flush content).chunks (state.flush content).start
        rw [hstart]
        exact hflush
    · exact h.cuts

/-- The offsets still to come, after those up to `last_end`. -/
theorem foldl (hends : MessageEnds content ends) (seen rest : List Nat) (hsplit : ends = seen ++ rest)
    (h : Chunked content ends budgetChars state) (hseen : ∀ e ∈ seen, e ≤ state.lastEnd)
    (hrest : ∀ e ∈ rest, state.lastEnd ≤ e) :
    let state' := rest.foldl (Chunking.addBoundary content (max budgetChars 1)) state
    Chunked content ends budgetChars state' ∧ state'.lastEnd = (rest.getLast?).getD state.lastEnd := by
  induction rest generalizing seen state with
  | nil => exact ⟨h, rfl⟩
  | cons boundary rest ih =>
    have hmem : boundary ∈ ends := by
      rw [hsplit]
      exact List.mem_append_right _ List.mem_cons_self
    have hsorted := hends.sorted
    rw [hsplit] at hsorted
    have hlater : ∀ e ∈ rest, boundary ≤ e :=
      fun e he => List.rel_of_pairwise_cons (List.pairwise_append.mp hsorted).2.1 he
    have hle : state.lastEnd ≤ boundary := hrest boundary List.mem_cons_self
    have hnext : ∀ e ∈ ends, e ≤ state.lastEnd ∨ boundary ≤ e := by
      intro e he
      rw [hsplit] at he
      rcases List.mem_append.mp he with he | he
      · exact .inl (hseen e he)
      · rcases List.mem_cons.mp he with rfl | he
        · exact .inr (Nat.le_refl _)
        · exact .inr (hlater e he)
    have hstep := h.addBoundary hends hmem hle hnext
    have hlast := (Chunking.addBoundary_valid content h.valid hle).2
    have hrun := ih (seen ++ [boundary]) (by rw [hsplit, List.append_assoc]; rfl) hstep
      (fun e he => by
        rw [hlast]
        rcases List.mem_append.mp he with he | he
        · exact (hseen e he).trans hle
        · exact Nat.le_of_eq (List.mem_singleton.mp he))
      (fun e he => by rw [hlast]; exact hlater e he)
    refine ⟨hrun.1, ?_⟩
    rw [List.foldl_cons, hrun.2, hlast, List.getLast?_cons]
    rfl

end Chunked

/-- **Main result.** The pieces are the text up to the last offset, cut at some of the offsets, and a
piece over the budget is one message. -/
theorem message_chunks (hends : MessageEnds content ends) (budgetChars : Nat) :
    ((chunkAtMessageBoundaries content ends budgetChars).map (·.1)).flatten =
        content.takeBytes (ends.getLast?.getD 0) ∧
      Cuts content ends budgetChars 0 (chunkAtMessageBoundaries content ends budgetChars)
        (ends.getLast?.getD 0) := by
  have hstart : Chunked content ends budgetChars ⟨[], 0, 0⟩ :=
    ⟨⟨Nat.le_refl _, by simp, rfl⟩, .nil 0, .inl rfl⟩
  obtain ⟨hrun, hlast⟩ := Chunked.foldl hends [] ends rfl hstart (fun e he => by cases he)
    (fun e _ => Nat.zero_le e)
  have hcuts := hrun.flush_cuts hends
  rw [hlast] at hcuts
  refine ⟨?_, hcuts⟩
  have hflatten := Cuts.flatten hends isBoundary_zero hcuts
  have hnone : content.takeBytes 0 = [] := eq_nil_of_byteLen (Nat.le_zero.mp byteLen_takeBytes_le)
  rw [hnone, List.nil_append] at hflatten
  exact hflatten

end

/-- An empty message, one over the budget, and two that share a piece. -/
theorem message_chunks_mixed : MessageEnds "abéfghijk".toList [2, 2, 7, 8, 10] ∧
    chunkAtMessageBoundaries "abéfghijk".toList [2, 2, 7, 8, 10] 3 =
      [("ab".toList, 2), ("éfgh".toList, 7), ("ijk".toList, 10)] ∧
    Cuts "abéfghijk".toList [2, 2, 7, 8, 10] 3 0
      (chunkAtMessageBoundaries "abéfghijk".toList [2, 2, 7, 8, 10] 3) 10 := by
  have hends : MessageEnds "abéfghijk".toList [2, 2, 7, 8, 10] := by
    refine ⟨by decide, fun e he => ?_⟩
    simp only [List.mem_cons, List.not_mem_nil, or_false] at he
    rcases he with rfl | rfl | rfl | rfl | rfl
    · exact ⟨"ab".toList, "éfghijk".toList, rfl, rfl⟩
    · exact ⟨"ab".toList, "éfghijk".toList, rfl, rfl⟩
    · exact ⟨"abéfgh".toList, "ijk".toList, rfl, rfl⟩
    · exact ⟨"abéfghi".toList, "jk".toList, rfl, rfl⟩
    · exact ⟨"abéfghijk".toList, [], rfl, rfl⟩
  exact ⟨hends, by decide, (message_chunks hends 3).2⟩

end Nanna.Agent
