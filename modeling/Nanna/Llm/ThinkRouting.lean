import Nanna.Lib.Matches
import Nanna.Llm.Splitter

/-!
# Routing of inline reasoning

`think_routing`: however a content is cut into fragments, `InlineThinkSplitter` routes it like its pieces: the reply
up to the first opening tag, the reasoning up to the next closing tag, and so on in turn. What is held back after a
push is the start of a tag.

The pieces that are to come are read off what is pending and the text that follows (`routed_drain`): a tag that ends
in that text begins in what is held back (`cutFirst_held`).
-/

namespace Nanna.Llm

open Nanna.Lib Nanna.Lib.Text

/-! ## The split of a content -/

/-- The tag that ends a piece. -/
def tagFor (inside : Bool) : Text := if inside then InlineThinkSplitter.CLOSE else InlineThinkSplitter.OPEN

theorem tagFor_ne_nil (inside : Bool) : tagFor inside ≠ [] := by
  cases inside <;> exact List.cons_ne_nil _ _

/-- Reply and reasoning in turn, each up to the next tag that ends it. -/
def pieces (inside : Bool) (t : Text) : List Text :=
  match _h : cutFirst (tagFor inside) t with
  | some (before, rest) => before :: pieces (! inside) rest
  | none => [t]
termination_by t.length
decreasing_by exact length_lt_of_cutFirst _h (tagFor_ne_nil inside)

/-- Pieces with their tags between them. -/
def tagged (inside : Bool) : List Text → Text
  | [] => []
  | [p] => p
  | p :: ps => p ++ tagFor inside ++ tagged (! inside) ps

def sideSegment (inside : Bool) (t : Text) : List ContentSegment :=
  if t.isEmpty then [] else [if inside then .thinking t else .text t]

/-- The pieces as segments; the reply behind a closing tag without its leading whitespace. -/
def shown (inside afterClose : Bool) : List Text → List ContentSegment
  | [] => []
  | p :: ps => sideSegment inside (if afterClose && ! inside then trimStart p else p) ++ shown (! inside) inside ps

/-- A segment in front of runs. -/
def ContentSegment.join : ContentSegment → List ContentSegment → List ContentSegment
  | .thinking a, .thinking b :: more => .thinking (a ++ b) :: more
  | .text a, .text b :: more => .text (a ++ b) :: more
  | s, more => s :: more

/-- The maximal runs of one kind. -/
def runs (segments : List ContentSegment) : List ContentSegment := segments.foldr ContentSegment.join []

variable {inside afterClose : Bool} {t u before rest ready held a b : Text} {segments segments' : List ContentSegment}
  {splitter : InlineThinkSplitter} {contents : List Text}

theorem pieces_of_cut (h : cutFirst (tagFor inside) t = some (before, rest)) :
    pieces inside t = before :: pieces (! inside) rest := by
  rw [pieces]
  split
  · rename_i h'
    cases h.symm.trans h'
    rfl
  · rename_i h'
    cases h.symm.trans h'

theorem pieces_of_absent (h : ¬ tagFor inside <:+: t) : pieces inside t = [t] := by
  rw [pieces]
  split
  · rename_i h'
    cases (cutFirst_eq_none.mpr h).symm.trans h'
  · rfl

theorem pieces_ne_nil : pieces inside t ≠ [] := by
  rw [pieces]
  split <;> exact List.cons_ne_nil _ _

/-- Nothing is lost between the pieces and their tags. -/
theorem tagged_pieces (inside : Bool) (t : Text) : tagged inside (pieces inside t) = t := by
  induction inside, t using pieces.induct with
  | case1 inside t before rest hcut ih =>
    obtain ⟨p, ps, hrest⟩ := List.exists_cons_of_ne_nil (@pieces_ne_nil (! inside) rest)
    rw [pieces_of_cut hcut]
    rw [hrest] at ih ⊢
    rw [tagged, ih]
    · exact (eq_of_cutFirst hcut).symm
    · exact List.cons_ne_nil _ _
  | case2 inside t hcut => rw [pieces_of_absent (cutFirst_eq_none.mp hcut), tagged]

/-! ## What is held back -/

/-- A tag that starts nowhere in what is ready is found behind it. -/
theorem cutFirst_held (h : ∀ s, s ≠ [] → s <:+ ready → ¬ a <+: s ++ u) :
    cutFirst a (ready ++ u) = (cutFirst a u).map fun (pre, post) => (ready ++ pre, post) := by
  induction ready with
  | nil => cases hcut : cutFirst a u <;> simp [hcut]
  | cons c ready ih =>
    have hrest := ih fun s hne hs => h s hne (hs.trans (List.suffix_cons c ready))
    have hhere := h (c :: ready) (List.cons_ne_nil c ready) List.suffix_rfl
    rw [List.cons_append, cutFirst]
    split
    · rename_i post hdrop
      exact absurd ⟨post, (eq_of_dropPrefix hdrop).symm⟩ hhere
    · rw [hrest, Option.map_map]
      rfl

section Partial

variable {tag : Text} {k : Nat}

theorem partialTagSuffixLen_spec (hne : tag ≠ []) : partialTagSuffixLen t tag < tag.length ∧
    tag.take (partialTagSuffixLen t tag) <:+ t := by
  rw [partialTagSuffixLen]
  rcases hfind : ((List.range tag.length).drop 1).reverse.find? fun k => (tag.take k).isSuffixOf t with _ | k
  · exact ⟨List.length_pos_iff.mpr hne, List.nil_suffix⟩
  · have hmem := List.mem_of_mem_drop (List.mem_reverse.mp (List.mem_of_find?_eq_some hfind))
    exact ⟨List.mem_range.mp hmem, List.isSuffixOf_iff_suffix.mp (@List.find?_some _ _ k _ hfind)⟩

/-- No longer suffix starts the tag. -/
theorem le_partialTagSuffixLen (hk : k < tag.length) (h : tag.take k <:+ t) :
    k ≤ partialTagSuffixLen t tag := by
  rcases Nat.eq_zero_or_pos k with rfl | hpos
  · exact Nat.zero_le _
  have hmem : k ∈ ((List.range tag.length).drop 1).reverse := by
    rw [List.mem_reverse, List.mem_drop_iff_getElem]
    exact ⟨k - 1, by simp only [List.length_range]; omega, by simp only [List.getElem_range]; omega⟩
  have hsorted : ((List.range tag.length).drop 1).reverse.Pairwise (· > ·) :=
    List.pairwise_reverse.mpr (List.pairwise_lt_range.sublist (List.drop_sublist 1 _))
  rw [partialTagSuffixLen]
  rcases hfind : ((List.range tag.length).drop 1).reverse.find? fun k => (tag.take k).isSuffixOf t with _ | j
  · exact absurd (List.isSuffixOf_iff_suffix.mpr h) (List.find?_eq_none.mp hfind k hmem)
  · obtain ⟨-, before, after, hlist, hbefore⟩ := List.find?_eq_some_iff_append.mp hfind
    rw [hlist] at hmem hsorted
    rcases List.mem_append.mp hmem with hmem | hmem
    · have hnot := hbefore k hmem
      rw [List.isSuffixOf_iff_suffix.mpr h] at hnot
      cases hnot
    · rcases List.mem_cons.mp hmem with rfl | hmem
      · exact le_rfl
      · exact ((List.pairwise_cons.mp (List.pairwise_append.mp hsorted).2.1).1 k hmem).le

/-- A tag that ends in the text to come begins in what is held back. -/
theorem not_prefix_held (hnot : ¬ tag <:+: ready ++ held) (hheld : held.length = partialTagSuffixLen (ready ++ held) tag)
    {s : Text} (hne : s ≠ []) (hs : s <:+ ready) : ¬ tag <+: s ++ (held ++ u) := by
  intro hstart
  rw [← List.append_assoc] at hstart
  have hsuffix : s ++ held <:+ ready ++ held := by
    obtain ⟨front, rfl⟩ := hs
    exact ⟨front, (List.append_assoc front s held).symm⟩
  rcases Nat.lt_or_ge (s ++ held).length tag.length with hshort | hlong
  · have htake : tag.take (s ++ held).length = s ++ held := by
      obtain ⟨more, hmore⟩ := List.prefix_of_prefix_length_le (List.prefix_append _ _) hstart hshort.le
      rw [← hmore, List.take_left]
    have hle := le_partialTagSuffixLen hshort (htake.symm ▸ hsuffix)
    have hpos := List.length_pos_iff.mpr hne
    rw [List.length_append] at hle
    omega
  · have hwithin := List.prefix_of_prefix_length_le hstart (List.prefix_append _ _) hlong
    exact hnot (hwithin.isInfix.trans hsuffix.isInfix)

end Partial

theorem pieces_held (hnot : ¬ tagFor inside <:+: ready ++ held)
    (hheld : held.length = partialTagSuffixLen (ready ++ held) (tagFor inside)) :
    ∃ p ps, pieces inside (held ++ u) = p :: ps ∧ pieces inside (ready ++ (held ++ u)) = (ready ++ p) :: ps := by
  have hcut := cutFirst_held fun s hne hs => @not_prefix_held u ready held _ hnot hheld s hne hs
  rcases hrest : cutFirst (tagFor inside) (held ++ u) with _ | ⟨p, post⟩
  · rw [hrest] at hcut
    exact ⟨_, [], pieces_of_absent (cutFirst_eq_none.mp hrest), pieces_of_absent (cutFirst_eq_none.mp hcut)⟩
  · rw [hrest] at hcut
    exact ⟨p, _, pieces_of_cut hrest, pieces_of_cut hcut⟩

/-! ## Characters and their route -/

/-- Every character with the side it is on. -/
def ContentSegment.routed : ContentSegment → List (Bool × Char)
  | .thinking t => t.map (true, ·)
  | .text t => t.map (false, ·)

def routed (segments : List ContentSegment) : List (Bool × Char) := segments.flatMap (·.routed)

theorem routed_append : routed (segments ++ segments') = routed segments ++ routed segments' := List.flatMap_append

theorem routed_sideSegment : routed (sideSegment inside t) = t.map (inside, ·) := by
  cases t with
  | nil => rfl
  | cons c t => cases inside <;> simp [sideSegment, routed, ContentSegment.routed]

theorem trimStart_append (t u : Text) :
    trimStart (t ++ u) = if trimStart t = [] then trimStart u else trimStart t ++ u := by
  rw [trimStart, List.dropWhile_append]
  by_cases hspace : trimStart t = []
  · rw [if_pos hspace, ← trimStart, if_pos (List.isEmpty_iff.mpr hspace), ← trimStart]
  · rw [if_neg hspace, ← trimStart, if_neg fun hempty => hspace (List.isEmpty_iff.mp hempty)]

theorem shown_nil_cons (ps : List Text) : shown inside afterClose ([] :: ps) = shown (! inside) inside ps := by
  rw [shown, show trimStart [] = [] from rfl, ite_self]
  rfl

namespace InlineThinkSplitter

variable {splitter : InlineThinkSplitter}

/-- The pieces that are to come when a text follows what is pending. -/
def ahead (splitter : InlineThinkSplitter) (u : Text) : List ContentSegment :=
  shown splitter.inside splitter.trimNextText (pieces splitter.inside (splitter.pending ++ u))

theorem route_state (splitter : InlineThinkSplitter) (t : Text) :
    (splitter.route t).1.inside = splitter.inside ∧ (splitter.route t).1.pending = splitter.pending := by
  refine ⟨?_, (visible_route splitter t).2⟩
  rw [route]
  split
  · rfl
  · split
    · dsimp only
      split
      · rfl
      · rfl
    · rfl

/-- Nothing is trimmed inside a block, or where no block just closed. -/
theorem route_kept (h : (splitter.trimNextText && ! splitter.inside) = false) (t : Text) :
    splitter.route t = (splitter, sideSegment splitter.inside t) := by
  rw [route]
  cases hinside : splitter.inside with
  | true => rfl
  | false =>
    rw [hinside, Bool.not_false, Bool.and_true] at h
    rw [h]
    rfl

theorem routed_route (splitter : InlineThinkSplitter) (t p : Text) (ps : List Text) :
    routed (shown splitter.inside splitter.trimNextText ((t ++ p) :: ps)) = routed (splitter.route t).2 ++
      routed (shown splitter.inside (splitter.route t).1.trimNextText (p :: ps)) := by
  rw [shown, shown, routed_append, routed_append, ← List.append_assoc, routed_sideSegment, routed_sideSegment]
  refine congrArg (· ++ _) ?_
  cases htrims : splitter.trimNextText && ! splitter.inside with
  | false =>
    rw [route_kept htrims, htrims, routed_sideSegment]
    exact List.map_append
  | true =>
    obtain ⟨htrim, houtside⟩ := Bool.and_eq_true_iff.mp htrims
    rw [Bool.not_eq_true'] at houtside
    rw [route, houtside, if_neg Bool.false_ne_true, if_pos htrim, if_pos rfl, trimStart_append]
    dsimp only
    by_cases hspace : trimStart t = []
    · rw [if_pos hspace, if_pos (List.isEmpty_iff.mpr hspace), htrim]
      rfl
    · rw [if_neg hspace, if_neg fun hempty => hspace (List.isEmpty_iff.mp hempty)]
      simp [routed, ContentSegment.routed]

theorem drain_of_cut (h : cutFirst splitter.tag splitter.pending = some (before, rest)) :
    splitter.drain = ((drain ⟨! splitter.inside, rest, splitter.inside⟩).1,
      (splitter.route before).2 ++ (drain ⟨! splitter.inside, rest, splitter.inside⟩).2) := by
  rw [drain]
  split
  · rename_i h'
    cases h.symm.trans h'
    rfl
  · rename_i h'
    cases h.symm.trans h'

theorem drain_of_none (h : cutFirst splitter.tag splitter.pending = none) :
    let ready := splitter.pending.length - partialTagSuffixLen splitter.pending splitter.tag
    splitter.drain =
      { splitter with pending := splitter.pending.drop ready }.route (splitter.pending.take ready) := by
  intro ready
  rw [drain]
  split
  · rename_i h'
    cases h.symm.trans h'
  · rfl

/-- What is held back is the start of the tag, as long as can be. -/
theorem ready_held (splitter : InlineThinkSplitter) :
    let ready := splitter.pending.length - partialTagSuffixLen splitter.pending splitter.tag
    (splitter.pending.drop ready).length = partialTagSuffixLen splitter.pending splitter.tag ∧
      ∃ k < splitter.tag.length, splitter.pending.drop ready = splitter.tag.take k := by
  obtain ⟨hlt, hsuffix⟩ := @partialTagSuffixLen_spec splitter.pending _ splitter.tag_ne_nil
  have hheld := (List.suffix_iff_eq_drop.mp hsuffix).symm
  rw [List.length_take_of_le hlt.le] at hheld
  refine ⟨?_, _, hlt, hheld⟩
  rw [hheld, List.length_take_of_le hlt.le]

theorem routed_drain (splitter : InlineThinkSplitter) (u : Text) :
    routed (splitter.ahead u) = routed splitter.drain.2 ++ routed (splitter.drain.1.ahead u) := by
  induction splitter using drain.induct with
  | case1 splitter before rest hcut _ _ _ ih =>
    have hcut' : cutFirst (tagFor splitter.inside) (splitter.pending ++ u) = some (before, rest ++ u) := by
      rw [eq_of_cutFirst hcut, List.append_assoc]
      exact cutFirst_of_first splitter.tag_ne_nil (first_of_cutFirst splitter.tag_ne_nil hcut)
    have hroute := splitter.routed_route before [] (pieces (! splitter.inside) (rest ++ u))
    rw [List.append_nil, shown_nil_cons] at hroute
    rw [drain_of_cut hcut, routed_append, List.append_assoc, ← ih, ahead, pieces_of_cut hcut', hroute]
    rfl
  | case2 splitter hcut =>
    have hnot := cutFirst_eq_none.mp hcut
    obtain ⟨hready, hheld⟩ := splitter.ready_held
    rw [drain_of_none hcut]
    generalize splitter.pending.length - partialTagSuffixLen splitter.pending splitter.tag = ready at hready ⊢
    rw [← List.take_append_drop ready splitter.pending] at hnot
    obtain ⟨p, ps, hrest, hall⟩ := @pieces_held splitter.inside u (splitter.pending.take ready) _ hnot
      (by rw [hready, List.take_append_drop]; rfl)
    rw [← List.append_assoc, List.take_append_drop] at hall
    obtain ⟨hinside, hpending⟩ := ({ splitter with pending := splitter.pending.drop ready }).route_state
      (splitter.pending.take ready)
    rw [ahead, ahead, hinside, hpending, hall, hrest]
    exact ({ splitter with pending := splitter.pending.drop ready }).routed_route _ p ps

/-- At most the start of the tag it waits for. -/
def Holds (splitter : InlineThinkSplitter) : Prop :=
  ∃ k < splitter.tag.length, splitter.pending = splitter.tag.take k

theorem Holds.drain (splitter : InlineThinkSplitter) : splitter.drain.1.Holds := by
  induction splitter using drain.induct with
  | case1 splitter before rest hcut _ _ _ ih =>
    rw [drain_of_cut hcut]
    exact ih
  | case2 splitter hcut =>
    obtain ⟨-, hheld⟩ := splitter.ready_held
    rw [drain_of_none hcut]
    obtain ⟨hinside, hpending⟩ := ({ splitter with pending := splitter.pending.drop _ }).route_state
      (splitter.pending.take _)
    rw [Holds, tag, hinside, hpending]
    exact hheld

/-- Less than the closing tag is held back. -/
theorem Holds.byteLen_lt (h : splitter.Holds) : splitter.pending.byteLen < CLOSE.byteLen := by
  obtain ⟨k, hk, hpending⟩ := h
  rw [hpending]
  have hall : ∀ inside : Bool, ∀ k < (tagFor inside).length, byteLen ((tagFor inside).take k) < CLOSE.byteLen := by
    decide +kernel
  exact hall splitter.inside k hk

theorem Holds.pieces (h : splitter.Holds) : pieces splitter.inside splitter.pending = [splitter.pending] := by
  refine pieces_of_absent fun hwithin => ?_
  obtain ⟨k, hk, hpending⟩ := h
  have hle := hwithin.length_le
  rw [hpending, List.length_take] at hle
  change splitter.tag.length ≤ _ at hle
  omega

theorem Holds.routed_finish (h : splitter.Holds) : routed (splitter.ahead []) = routed splitter.finish.2 := by
  have hroute := { splitter with pending := [] }.routed_route splitter.pending [] []
  rw [List.append_nil, shown_nil_cons] at hroute
  rw [ahead, List.append_nil, h.pieces]
  exact hroute.trans (List.append_nil _)

theorem routed_pushes (splitter : InlineThinkSplitter) (contents : List Text) (u : Text) :
    routed (splitter.ahead (contents.flatten ++ u)) = routed (emits push splitter contents).2 ++
      routed ((emits push splitter contents).1.ahead u) := by
  induction contents generalizing splitter with
  | nil => rfl
  | cons content contents ih =>
    have hdrain := routed_drain { splitter with pending := splitter.pending ++ content } (contents.flatten ++ u)
    rw [emits, routed_append, List.append_assoc, ← ih]
    rw [List.flatten_cons, List.append_assoc, ahead, ← List.append_assoc splitter.pending]
    exact hdrain

end InlineThinkSplitter

/-! ## Runs -/

def ContentSegment.content : ContentSegment → Text
  | .thinking t => t
  | .text t => t

/-- No segment is empty. -/
def Filled (segments : List ContentSegment) : Prop := ∀ s ∈ segments, s.content ≠ []

theorem Filled.append (h : Filled segments) (h' : Filled segments') : Filled (segments ++ segments') := fun s hs =>
  (List.mem_append.mp hs).elim (h s) (h' s)

theorem filled_nil : Filled [] := fun _ hs => absurd hs List.not_mem_nil

theorem filled_sideSegment (inside : Bool) (t : Text) : Filled (sideSegment inside t) := by
  rw [sideSegment]
  split
  · exact filled_nil
  · rename_i hne
    intro s hs
    rw [List.mem_singleton.mp hs]
    cases inside with
    | false => exact fun hnil => hne (List.isEmpty_iff.mpr hnil)
    | true => exact fun hnil => hne (List.isEmpty_iff.mpr hnil)

theorem filled_shown (inside afterClose : Bool) (ps : List Text) : Filled (shown inside afterClose ps) := by
  induction ps generalizing inside afterClose with
  | nil => exact filled_nil
  | cons p ps ih => exact (filled_sideSegment _ _).append (ih _ _)

namespace InlineThinkSplitter

theorem filled_route (splitter : InlineThinkSplitter) (t : Text) : Filled (splitter.route t).2 := by
  cases htrims : splitter.trimNextText && ! splitter.inside with
  | false =>
    rw [route_kept htrims]
    exact filled_sideSegment _ _
  | true =>
    obtain ⟨htrim, houtside⟩ := Bool.and_eq_true_iff.mp htrims
    rw [Bool.not_eq_true'] at houtside
    rw [route, houtside, if_neg Bool.false_ne_true, if_pos htrim]
    dsimp only
    split
    · exact filled_nil
    · rename_i hne
      intro s hs
      rw [List.mem_singleton.mp hs]
      exact fun hnil => hne (List.isEmpty_iff.mpr hnil)

theorem filled_drain (splitter : InlineThinkSplitter) : Filled splitter.drain.2 := by
  induction splitter using drain.induct with
  | case1 splitter before rest hcut _ _ _ ih =>
    rw [drain_of_cut hcut]
    exact (filled_route _ _).append ih
  | case2 splitter hcut =>
    rw [drain_of_none hcut]
    exact filled_route _ _

theorem filled_pushes (splitter : InlineThinkSplitter) (contents : List Text) :
    Filled (emits push splitter contents).2 := by
  induction contents generalizing splitter with
  | nil => exact filled_nil
  | cons content contents ih => exact (filled_drain _).append (ih _)

theorem Holds.pushes (h : splitter.Holds) (contents : List Text) : (emits push splitter contents).1.Holds := by
  induction contents generalizing splitter with
  | nil => exact h
  | cons content contents ih => exact ih (Holds.drain _)

end InlineThinkSplitter

/-- A character as a segment of its own. -/
def unitSegment (routed : Bool × Char) : ContentSegment :=
  if routed.1 then .thinking [routed.2] else .text [routed.2]

theorem join_routed (s : ContentSegment) (hne : s.content ≠ []) (more : List ContentSegment) :
    s.routed.foldr (fun routed => (unitSegment routed).join) more = s.join more := by
  cases s with
  | thinking t =>
    obtain ⟨c, t, rfl⟩ := List.exists_cons_of_ne_nil hne
    induction t generalizing c with
    | nil => rfl
    | cons d t ih =>
      have hrest := ih d (List.cons_ne_nil d t)
      rw [ContentSegment.routed, List.map_cons, List.foldr_cons, ← ContentSegment.routed, hrest]
      rcases more with _ | ⟨_ | _, more⟩ <;> rfl
  | text t =>
    obtain ⟨c, t, rfl⟩ := List.exists_cons_of_ne_nil hne
    induction t generalizing c with
    | nil => rfl
    | cons d t ih =>
      have hrest := ih d (List.cons_ne_nil d t)
      rw [ContentSegment.routed, List.map_cons, List.foldr_cons, ← ContentSegment.routed, hrest]
      rcases more with _ | ⟨_ | _, more⟩ <;> rfl

/-- Filled segments are put together character by character. -/
theorem runs_eq (h : Filled segments) :
    runs segments = (routed segments).foldr (fun routed => (unitSegment routed).join) [] := by
  induction segments with
  | nil => rfl
  | cons s segments ih =>
    have hrest := ih fun s hs => h s (List.mem_cons_of_mem _ hs)
    have hjoin := join_routed s (h s List.mem_cons_self) (runs segments)
    rw [routed, List.flatMap_cons, List.foldr_append, ← routed, ← hrest, hjoin]
    rfl

theorem runs_congr (h : Filled segments) (h' : Filled segments') (heq : routed segments = routed segments') :
    runs segments = runs segments' := by
  rw [runs_eq h, runs_eq h', heq]

theorem filled_segmentsOf (splitter : InlineThinkSplitter) (contents : List Text) :
    Filled (segmentsOf splitter contents) :=
  (splitter.filled_pushes contents).append (InlineThinkSplitter.filled_route _ _)

theorem routed_segmentsOf (h : splitter.Holds) (contents : List Text) :
    routed (segmentsOf splitter contents) = routed (splitter.ahead contents.flatten) := by
  have hpushes := splitter.routed_pushes contents []
  rw [List.append_nil, (h.pushes contents).routed_finish] at hpushes
  rw [hpushes, segmentsOf, routed_append]

/-- Routing follows the pieces of the whole content. -/
structure RoutesLike (contents : List Text) : Prop where
  whole : runs (segmentsOf {} contents) = runs (segmentsOf {} [contents.flatten])
  reference : runs (segmentsOf {} contents) = runs (shown false false (pieces false contents.flatten))
  held : ∀ n, (emits InlineThinkSplitter.push {} (contents.take n)).1.pending.byteLen <
    InlineThinkSplitter.CLOSE.byteLen
  /-- The pieces lose no character. -/
  lossless : tagged false (pieces false contents.flatten) = contents.flatten

theorem think_routing (contents : List Text) : RoutesLike contents := by
  have hstart : InlineThinkSplitter.Holds {} := ⟨0, by decide, rfl⟩
  have hreference (contents : List Text) :
      runs (segmentsOf {} contents) = runs (shown false false (pieces false contents.flatten)) :=
    runs_congr (filled_segmentsOf _ _) (filled_shown _ _ _) (routed_segmentsOf hstart contents)
  refine ⟨?_, hreference contents, fun n => (hstart.pushes _).byteLen_lt, tagged_pieces _ _⟩
  rw [hreference, hreference, List.flatten_singleton]

end Nanna.Llm
