import Nanna.Llm.Ollama

/-!
# What the splitter and the sentinels leave of a text

Content without an opening tag comes out of `InlineThinkSplitter` as it is (`segments_of_untagged`).
In any case no visible character is added (`visible_segments`), and a content with a stop sentinel
loses some (`visible_kept_lt`).
-/

namespace Nanna.Llm

open Nanna.Lib Nanna.Lib.Text

/-- The reply in segments. -/
def ContentSegment.said : ContentSegment → Text
  | .thinking _ => []
  | .text t => t

def saidText (segments : List ContentSegment) : Text := segments.flatMap (·.said)

/-- A content without its stop sentinel. -/
def keptContent (content : Text) : Text :=
  if isGemmaStopSentinel content then [] else (stripTrailingStopSentinel content).getD content

/-- The segments of contents, and what is held back at the end. -/
def segmentsOf (splitter : InlineThinkSplitter) (contents : List Text) : List ContentSegment :=
  let (splitter, segments) := emits InlineThinkSplitter.push splitter contents
  segments ++ splitter.finish.2

theorem saidText_append (segments segments' : List ContentSegment) :
    saidText (segments ++ segments') = saidText segments ++ saidText segments' :=
  List.flatMap_append

namespace InlineThinkSplitter

variable {splitter : InlineThinkSplitter} {contents : List Text} {text : Text}

/-! ## Content without tags -/

/-- Outside a block, with nothing to trim. -/
def Plain (splitter : InlineThinkSplitter) : Prop :=
  splitter.inside = false ∧ splitter.trimNextText = false

theorem Plain.route (h : splitter.Plain) (text : Text) :
    (splitter.route text).1 = splitter ∧ saidText (splitter.route text).2 = text := by
  rw [InlineThinkSplitter.route, h.1, h.2]
  cases text with
  | nil => exact ⟨rfl, rfl⟩
  | cons c text => exact ⟨rfl, List.append_nil _⟩

theorem Plain.drain (h : splitter.Plain) (huntagged : ¬ OPEN <:+: splitter.pending) :
    splitter.drain.1.Plain ∧
      saidText splitter.drain.2 ++ splitter.drain.1.pending = splitter.pending := by
  have htag : splitter.tag = OPEN := by rw [tag, h.1, if_neg Bool.false_ne_true]
  have hnone : cutFirst splitter.tag splitter.pending = none := by
    rw [htag]
    exact cutFirst_eq_none.mpr huntagged
  rw [InlineThinkSplitter.drain]
  split
  · rename_i hsome
    cases hnone.symm.trans hsome
  · dsimp only
    generalize splitter.pending.length - partialTagSuffixLen splitter.pending splitter.tag = ready
    have hplain : Plain { splitter with pending := splitter.pending.drop ready } := h
    obtain ⟨hstate, hsaid⟩ := hplain.route (splitter.pending.take ready)
    rw [hstate, hsaid]
    exact ⟨h, List.take_append_drop _ _⟩

theorem Plain.push (h : splitter.Plain) (huntagged : ¬ OPEN <:+: splitter.pending ++ text) :
    (splitter.push text).1.Plain ∧
      saidText (splitter.push text).2 ++ (splitter.push text).1.pending =
        splitter.pending ++ text := by
  have hplain : Plain { splitter with pending := splitter.pending ++ text } := h
  exact hplain.drain huntagged

theorem Plain.pushes (h : splitter.Plain)
    (huntagged : ¬ OPEN <:+: splitter.pending ++ contents.flatten) :
    (emits InlineThinkSplitter.push splitter contents).1.Plain ∧
      saidText (emits InlineThinkSplitter.push splitter contents).2 ++
        (emits InlineThinkSplitter.push splitter contents).1.pending =
          splitter.pending ++ contents.flatten := by
  induction contents generalizing splitter with
  | nil => exact ⟨h, (List.append_nil _).symm⟩
  | cons content contents ih =>
    rw [List.flatten_cons, ← List.append_assoc] at huntagged ⊢
    have hfirst : ¬ OPEN <:+: splitter.pending ++ content := fun hwithin =>
      huntagged (hwithin.trans (List.prefix_append _ _).isInfix)
    obtain ⟨hplain, hsaid⟩ := h.push hfirst
    have hrest : ¬ OPEN <:+: (splitter.push content).1.pending ++ contents.flatten := by
      intro hwithin
      refine huntagged (hwithin.trans ?_)
      rw [← hsaid, List.append_assoc]
      exact (List.suffix_append _ _).isInfix
    obtain ⟨hplain', hsaid'⟩ := ih hplain hrest
    refine ⟨hplain', ?_⟩
    rw [emits, saidText_append, List.append_assoc, hsaid', ← List.append_assoc, hsaid]

end InlineThinkSplitter

theorem segments_of_untagged {contents : List Text}
    (h : ¬ InlineThinkSplitter.OPEN <:+: contents.flatten) :
    saidText (segmentsOf {} contents) = contents.flatten := by
  have hdefault : ({} : InlineThinkSplitter).Plain := ⟨rfl, rfl⟩
  obtain ⟨hplain, hsaid⟩ := hdefault.pushes h
  have hflush : InlineThinkSplitter.Plain
      { (emits InlineThinkSplitter.push {} contents).1 with pending := [] } := hplain
  rw [segmentsOf, saidText_append, InlineThinkSplitter.finish, (hflush.route _).2]
  exact hsaid

/-! ## Visible characters -/

def visible (t : Text) : Nat := t.countP (! isWhitespace ·)

theorem visible_append (s t : Text) : visible (s ++ t) = visible s + visible t := List.countP_append

theorem visible_trimStart (t : Text) : visible (trimStart t) = visible t := by
  induction t with
  | nil => rfl
  | cons c t ih =>
    rw [trimStart, List.dropWhile_cons]
    split
    · rename_i hspace
      rw [visible, visible, List.countP_cons_of_neg (by simp [hspace])]
      exact ih
    · rfl

theorem visible_reverse (t : Text) : visible t.reverse = visible t := List.countP_reverse

theorem visible_trimEnd (t : Text) : visible (trimEnd t) = visible t := by
  rw [trimEnd, List.rdropWhile, visible_reverse]
  exact (visible_trimStart t.reverse).trans (visible_reverse t)

theorem visible_trim (t : Text) : visible (trim t) = visible t :=
  (visible_trimEnd (trimStart t)).trans (visible_trimStart t)

namespace InlineThinkSplitter

variable {splitter : InlineThinkSplitter} {contents : List Text}

theorem visible_route (splitter : InlineThinkSplitter) (text : Text) :
    visible (saidText (splitter.route text).2) ≤ visible text ∧
      (splitter.route text).1.pending = splitter.pending := by
  rw [route]
  split
  · refine ⟨?_, rfl⟩
    cases text with
    | nil => exact Nat.le_refl _
    | cons c text => exact Nat.zero_le _
  · split
    · dsimp only
      split
      · exact ⟨Nat.zero_le _, rfl⟩
      · refine ⟨?_, rfl⟩
        rw [saidText, List.flatMap_singleton]
        exact (visible_trimStart text).le
    · refine ⟨?_, rfl⟩
      cases text with
      | nil => exact Nat.le_refl _
      | cons c text =>
        exact (congrArg visible (List.append_nil (c :: text))).le

/-- What is said and what is held back is no more than what came. -/
theorem visible_drain (splitter : InlineThinkSplitter) :
    visible (saidText splitter.drain.2) + visible splitter.drain.1.pending ≤
      visible splitter.pending := by
  induction splitter using drain.induct with
  | case1 splitter before rest hcut _ _ _ ih =>
    rw [drain]
    split
    · rename_i before' rest' hcut'
      cases hcut.symm.trans hcut'
      have hroute := (visible_route splitter before).1
      have hpending := eq_of_cutFirst hcut
      rw [hpending, visible_append, visible_append, saidText_append, visible_append]
      have hrest : visible (saidText (drain ⟨!splitter.inside, rest, splitter.inside⟩).2) +
          visible (drain ⟨!splitter.inside, rest, splitter.inside⟩).1.pending ≤ visible rest := ih
      dsimp only
      omega
    · rename_i hnone
      cases hcut.symm.trans hnone
  | case2 splitter hcut =>
    rw [drain]
    split
    · rename_i hsome
      cases hcut.symm.trans hsome
    · dsimp only
      generalize splitter.pending.length - partialTagSuffixLen splitter.pending splitter.tag = ready
      obtain ⟨hsaid, hheld⟩ :=
        visible_route { splitter with pending := splitter.pending.drop ready }
          (splitter.pending.take ready)
      have hparts : visible splitter.pending = visible (splitter.pending.take ready) +
          visible (splitter.pending.drop ready) := by
        rw [← visible_append, List.take_append_drop]
      rw [hheld]
      dsimp only
      omega

theorem visible_pushes (splitter : InlineThinkSplitter) (contents : List Text) :
    visible (saidText (emits push splitter contents).2) +
        visible (emits push splitter contents).1.pending ≤
      visible splitter.pending + (contents.map visible).sum := by
  induction contents generalizing splitter with
  | nil => exact Nat.le_of_eq (Nat.zero_add _)
  | cons content contents ih =>
    have hfirst := visible_drain { splitter with pending := splitter.pending ++ content }
    have hrest := ih (splitter.push content).1
    rw [visible_append] at hfirst
    rw [emits, saidText_append, visible_append, List.map_cons, List.sum_cons]
    dsimp only
    rw [push] at hrest ⊢
    omega

end InlineThinkSplitter

/-- No visible character is added. -/
theorem visible_segments (contents : List Text) :
    visible (saidText (segmentsOf {} contents)) ≤ (contents.map visible).sum := by
  have hpushes := InlineThinkSplitter.visible_pushes {} contents
  have hflush := (InlineThinkSplitter.visible_route
    { (emits InlineThinkSplitter.push {} contents).1 with pending := [] }
    (emits InlineThinkSplitter.push {} contents).1.pending).1
  have hnil : visible ({} : InlineThinkSplitter).pending = 0 := rfl
  rw [segmentsOf, saidText_append, visible_append, InlineThinkSplitter.finish]
  exact (Nat.add_le_add_left hflush _).trans (hpushes.trans (Nat.le_of_eq (by rw [hnil, Nat.zero_add])))

/-! ## Sentinels -/

/-- The content neither is nor ends in a stop sentinel. -/
def Unmarked (content : Text) : Prop :=
  isGemmaStopSentinel content = false ∧ stripTrailingStopSentinel content = none

instance (content : Text) : Decidable (Unmarked content) :=
  inferInstanceAs (Decidable (_ ∧ _))

theorem keptContent_of_unmarked {content : Text} (h : Unmarked content) :
    keptContent content = content := by
  rw [keptContent, h.1, h.2]
  rfl

theorem visible_mark (rest : Text) : 0 < visible ("<unused".toList ++ rest) := by
  rw [visible_append]
  exact Nat.add_pos_left (by decide) _

/-- A sentinel that is dropped is visible. -/
theorem visible_kept_lt {content : Text} (h : ¬ Unmarked content) :
    visible (keptContent content) < visible content := by
  rw [keptContent]
  cases hmark : isGemmaStopSentinel content with
  | true =>
    rw [if_pos rfl, ← visible_trim content]
    rw [isGemmaStopSentinel] at hmark
    split at hmark
    · rename_i rest hdrop
      rw [eq_of_dropPrefix hdrop]
      exact visible_mark rest
    · cases hmark
  | false =>
    rw [if_neg Bool.false_ne_true]
    cases hstrip : stripTrailingStopSentinel content with
    | none => exact absurd ⟨hmark, hstrip⟩ h
    | some pre =>
      obtain ⟨⟨pre', rest⟩, hcut, hrest⟩ := Option.bind_eq_some_iff.mp hstrip
      dsimp only at hrest
      split at hrest
      · cases hrest
        have hmarked := visible_mark rest
        rw [Option.getD_some, ← visible_trimEnd content, eq_of_cutLast hcut, List.append_assoc,
          visible_append]
        omega
      · cases hrest

theorem visible_kept_le (content : Text) : visible (keptContent content) ≤ visible content := by
  by_cases h : Unmarked content
  · rw [keptContent_of_unmarked h]
  · exact (visible_kept_lt h).le

/-- Contents that lose nothing visible are unmarked. -/
theorem unmarked_of_sum {contents : List Text}
    (h : (contents.map visible).sum ≤ ((contents.map keptContent).map visible).sum) :
    ∀ content ∈ contents, Unmarked content := by
  have hall : ∀ contents : List Text,
      ((contents.map keptContent).map visible).sum ≤ (contents.map visible).sum := by
    intro contents
    induction contents with
    | nil => exact Nat.le_refl _
    | cons content contents ih => exact Nat.add_le_add (visible_kept_le content) ih
  induction contents with
  | nil => exact List.forall_mem_nil _
  | cons content contents ih =>
    have hfirst := visible_kept_le content
    have hrest := hall contents
    simp only [List.map_cons, List.sum_cons] at h hrest
    refine List.forall_mem_cons.mpr ⟨?_, ih (by omega)⟩
    by_contra hmarked
    have hless := visible_kept_lt hmarked
    omega

end Nanna.Llm
