import Nanna.Llm.Responses
import Nanna.Llm.ThinkRouting

/-!
# Reasoning cut out of a whole content

`strip_agrees_iff`: apart from whitespace, `stripThinkTags` leaves of a content what `InlineThinkSplitter` shows of it
exactly where no block is left open. Behind an open block the text from the end of the last block on is repeated, the
reasoning with it.
-/

namespace Nanna.Llm

open Nanna.Lib Nanna.Lib.Text InlineThinkSplitter

/-- A text without its whitespace. -/
def unspaced (t : Text) : Text := t.filter (! isWhitespace ·)

/-- Reply and reasoning take turns, and the last piece is reply. -/
def EndsOutside (t : Text) : Prop := (pieces false t).length % 2 = 1

/-- The pieces of the reply. -/
def saidPieces (inside : Bool) : List Text → Text
  | [] => []
  | p :: ps => (if inside then [] else p) ++ saidPieces (! inside) ps

variable {inside afterClose : Bool} {t before after mid rest : Text} {segments segments' : List ContentSegment}

theorem unspaced_append (s t : Text) : unspaced (s ++ t) = unspaced s ++ unspaced t := List.filter_append _ _

theorem unspaced_trimStart (t : Text) : unspaced (trimStart t) = unspaced t := by
  induction t with
  | nil => rfl
  | cons c t ih =>
    rw [trimStart, List.dropWhile_cons]
    split
    · rename_i hspace
      rw [unspaced, unspaced, List.filter_cons_of_neg (by simp [hspace])]
      exact ih
    · rfl

theorem unspaced_reverse (t : Text) : unspaced t.reverse = (unspaced t).reverse := List.filter_reverse

theorem unspaced_trimEnd (t : Text) : unspaced (trimEnd t) = unspaced t := by
  have hreverse := unspaced_trimStart t.reverse
  rw [trimEnd, List.rdropWhile, unspaced_reverse]
  rw [trimStart, unspaced_reverse] at hreverse
  rw [hreverse, List.reverse_reverse]

theorem unspaced_trim (t : Text) : unspaced (trim t) = unspaced t :=
  (unspaced_trimEnd (trimStart t)).trans (unspaced_trimStart t)

theorem length_unspaced (t : Text) : (unspaced t).length = visible t := List.countP_eq_length_filter.symm

/-! ## What the splitter shows -/

theorem said_eq (segments : List ContentSegment) :
    saidText segments = (routed segments).filterMap fun r => if r.1 then none else some r.2 := by
  rw [saidText, routed, List.filterMap_flatMap]
  refine List.flatMap_congr fun s _ => ?_
  cases s with
  | thinking t => simp [ContentSegment.said, ContentSegment.routed, List.filterMap_map]
  | text t => simp [ContentSegment.said, ContentSegment.routed, List.filterMap_map]

theorem unspaced_shown (inside afterClose : Bool) (ps : List Text) :
    unspaced (saidText (shown inside afterClose ps)) = unspaced (saidPieces inside ps) := by
  induction ps generalizing inside afterClose with
  | nil => rfl
  | cons p ps ih =>
    rw [shown, saidText_append, saidPieces, unspaced_append, unspaced_append, ih]
    refine congrArg (· ++ _) ?_
    cases inside with
    | true =>
      rw [Bool.not_true, Bool.and_false, if_neg Bool.false_ne_true, if_pos rfl]
      cases p <;> rfl
    | false =>
      have hsaid (t : Text) : saidText (sideSegment false t) = t := by
        cases t with
        | nil => rfl
        | cons c t => exact List.append_nil _
      rw [hsaid, if_neg Bool.false_ne_true]
      split
      · exact unspaced_trimStart p
      · rfl

theorem unspaced_segmentsOf (contents : List Text) :
    unspaced (saidText (segmentsOf {} contents)) = unspaced (saidPieces false (pieces false contents.flatten)) := by
  have hrouted := @routed_segmentsOf {} ⟨0, by decide, rfl⟩ contents
  rw [said_eq, hrouted, ← said_eq]
  exact unspaced_shown false false _

/-! ## What is cut out -/

theorem pieces_open (h : cutFirst OPEN t = some (before, after)) : pieces false t = before :: pieces true after :=
  pieces_of_cut h

theorem pieces_close (h : cutFirst CLOSE t = some (mid, rest)) : pieces true t = mid :: pieces false rest :=
  pieces_of_cut h

/-- The closing tag is looked for from the opening tag on, and none begins in that. -/
theorem cutFirst_close (after : Text) : cutFirst CLOSE (OPEN ++ after) =
    (cutFirst CLOSE after).map fun (mid, rest) => (OPEN ++ mid, rest) := by
  refine cutFirst_held fun s hne hs hstart => ?_
  have hsuffixes : ∀ s ∈ OPEN.tails, s ≠ [] → ¬ s.take 2 <+: CLOSE := by decide
  refine hsuffixes s ((List.mem_tails s OPEN).mpr hs) hne ?_
  refine List.prefix_of_prefix_length_le ((List.take_prefix 2 s).trans (List.prefix_append s after)) hstart ?_
  exact (List.length_take_le 2 s).trans (by decide)

theorem strip_untagged (h : cutFirst OPEN t = none) : stripThinkFrom t = t := by
  rw [stripThinkFrom]
  split
  · rfl
  · rename_i hcut
    cases h.symm.trans hcut

theorem strip_open (hopen : cutFirst OPEN t = some (before, after)) (hclose : cutFirst CLOSE after = none) :
    stripThinkFrom t = before ++ t := by
  have hnone : cutFirst CLOSE (OPEN ++ after) = none := by rw [cutFirst_close, hclose, Option.map_none]
  rw [stripThinkFrom]
  split
  · rename_i hcut
    cases hopen.symm.trans hcut
  · rename_i hcut
    cases hopen.symm.trans hcut
    split
    · rename_i hsome
      cases hnone.symm.trans hsome
    · rfl

theorem strip_closed (hopen : cutFirst OPEN t = some (before, after))
    (hclose : cutFirst CLOSE after = some (mid, rest)) : stripThinkFrom t = before ++ stripThinkFrom rest := by
  have hsome : cutFirst CLOSE (OPEN ++ after) = some (OPEN ++ mid, rest) := by
    rw [cutFirst_close, hclose, Option.map_some]
  rw [stripThinkFrom]
  split
  · rename_i hcut
    cases hopen.symm.trans hcut
  · rename_i hcut
    cases hopen.symm.trans hcut
    split
    · rename_i hcut'
      cases hsome.symm.trans hcut'
      rfl
    · rename_i hnone
      cases hsome.symm.trans hnone

theorem visible_lt_of_open (h : cutFirst OPEN t = some (before, after)) : visible before < visible t := by
  have hpos : 0 < visible OPEN := by decide
  rw [eq_of_cutFirst h, visible_append, visible_append]
  omega

/-- Block by block; the text behind a block that closes is cut in the same way. -/
theorem strip_iff (t : Text) :
    unspaced (stripThinkFrom t) = unspaced (saidPieces false (pieces false t)) ↔ EndsOutside t := by
  induction t using stripThinkFrom.induct with
  | case1 t hopen =>
    rw [strip_untagged hopen, EndsOutside, @pieces_of_absent false _ (cutFirst_eq_none.mp hopen)]
    exact iff_of_true (by rw [saidPieces, saidPieces, if_neg Bool.false_ne_true, List.append_nil]) rfl
  | case2 t before after hopen mid rest hclose ih =>
    obtain ⟨mid', hafter⟩ : ∃ mid', cutFirst CLOSE after = some (mid', rest) := by
      rw [cutFirst_close] at hclose
      obtain ⟨⟨mid', rest'⟩, hafter, heq⟩ := Option.map_eq_some_iff.mp hclose
      cases heq
      exact ⟨mid', hafter⟩
    rw [strip_closed hopen hafter, EndsOutside, pieces_open hopen, pieces_close hafter,
      saidPieces, saidPieces, if_neg Bool.false_ne_true, Bool.not_false, if_pos rfl, List.nil_append, Bool.not_true,
      unspaced_append, unspaced_append, List.append_cancel_left_eq, ih, EndsOutside, List.length_cons,
      List.length_cons]
    omega
  | case3 t before after hopen hclose =>
    have hafter : cutFirst CLOSE after = none := by
      rw [cutFirst_close] at hclose
      exact Option.map_eq_none_iff.mp hclose
    rw [strip_open hopen hafter, EndsOutside, pieces_open hopen,
      @pieces_of_absent true _ (cutFirst_eq_none.mp hafter)]
    refine iff_of_false (fun heq => ?_) (by simp)
    -- the text from the tag on is more than the reply before it
    have hlen := congrArg List.length heq
    rw [length_unspaced, length_unspaced, visible_append, saidPieces, saidPieces, if_neg Bool.false_ne_true,
      Bool.not_false, if_pos rfl, saidPieces, List.append_nil, List.append_nil] at hlen
    have hlt := visible_lt_of_open hopen
    omega

/-- However the content is cut into fragments. -/
theorem strip_agrees_iff (contents : List Text) :
    unspaced (stripThinkTags contents.flatten) = unspaced (saidText (segmentsOf {} contents)) ↔
      EndsOutside contents.flatten := by
  rw [unspaced_segmentsOf, stripThinkTags, unspaced_trim]
  exact strip_iff _

/-- Of `A<think>B` the splitter shows `A`. -/
theorem open_block_repeated : unspaced (stripThinkTags "A<think>B".toList) = "AA<think>B".toList ∧
    unspaced (saidText (segmentsOf {} ["A<think>B".toList])) = "A".toList := by
  have hopen : cutFirst OPEN "A<think>B".toList = some ("A".toList, "B".toList) := by decide +kernel
  have hclose : cutFirst CLOSE "B".toList = none := by decide +kernel
  constructor
  · rw [stripThinkTags, strip_open hopen hclose]
    decide +kernel
  · rw [unspaced_segmentsOf, List.flatten_singleton, pieces_open hopen,
      @pieces_of_absent true _ (cutFirst_eq_none.mp hclose)]
    decide +kernel

end Nanna.Llm
