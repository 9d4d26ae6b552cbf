import Nanna.Llm.TopLevel
import Nanna.Loop.ProseScan
import Mathlib.Data.List.Pairwise

/-!
# Where objects are found

The objects of a text are the regions that parse, and behind them what is in the others, as far as the budget
goes (`collect_succ`). Each stands where it was found (`stands_of_collect`) and no two overlap (`collect_apart`).
One behind text without quotes is found if the budget covers the openers that are left open
(`mem_collect_of_unmatched`): each pass takes the first of them away.
-/

namespace Nanna.Loop

open Nanna.Lib Nanna.Lib.Text Nanna.Lib.Braces Nanna.Llm

variable {parse : Text → Option Json} {text t inner : Text} {base i n : Nat} {segments : List Segment}
  {segment : Segment} {place place' : Nat × Segment} {o o' : Found}

/-! ## The places of the regions -/

theorem placed_add :
    placed (base + i) segments = (placed i segments).map fun place => (base + place.1, place.2) := by
  induction segments generalizing i with
  | nil => rfl
  | cons segment segments ih => rw [placed, placed, List.map_cons, Nat.add_assoc, ih]

theorem placed_snd : (placed i segments).map Prod.snd = segments := by
  induction segments generalizing i with
  | nil => rfl
  | cons segment segments ih => rw [placed, List.map_cons, ih]

/-- The regions of a text, at their places. -/
theorem exists_place (hmem : segment ∈ segments) : ∃ place ∈ placed base segments, place.2 = segment := by
  rw [← @placed_snd base segments] at hmem
  exact List.mem_map.mp hmem

theorem mem_segments (hplace : place ∈ placed base segments) : place.2 ∈ segments := by
  have hmem := List.mem_map_of_mem (f := Prod.snd) hplace
  rwa [placed_snd] at hmem

theorem text_of_level (h : Level t segments) : t = segments.flatMap Segment.text := by
  induction h with
  | nil => rfl
  | prose _ _ ih =>
    rw [List.flatMap_cons, ← ih]
    rfl
  | span _ _ ih => rw [List.flatMap_cons, ← ih]
  | tail _ => exact (List.append_nil _).symm

theorem mem_placed (h : place ∈ placed base segments) : ∃ pre post : Text,
    segments.flatMap Segment.text = pre ++ (place.2.text ++ post) ∧ place.1 = base + pre.byteLen := by
  induction segments generalizing base with
  | nil => cases h
  | cons segment segments ih =>
    rcases List.mem_cons.mp h with rfl | h
    · exact ⟨[], _, rfl, rfl⟩
    · obtain ⟨pre, post, htext, hplace⟩ := ih h
      refine ⟨segment.text ++ pre, post, ?_, ?_⟩
      · rw [List.flatMap_cons, htext, List.append_assoc]
      · rw [hplace, byteLen_append, Nat.add_assoc]

theorem placed_ascending :
    (placed base segments).Pairwise fun place place' => place.1 + place.2.text.byteLen ≤ place'.1 := by
  induction segments generalizing base with
  | nil => exact .nil
  | cons segment segments ih =>
    refine List.pairwise_cons.mpr ⟨fun place h => ?_, ih⟩
    obtain ⟨pre, -, -, hplace⟩ := mem_placed h
    exact Nat.le.intro hplace.symm

theorem byteLen_segment (segment : Segment) : 0 < segment.text.byteLen := by
  refine byteLen_pos ?_
  cases segment <;> exact List.cons_ne_nil _ _

/-- What holds from each region to the later ones holds along the places. -/
theorem of_pairwise {Q : Segment → Segment → Prop} (h : segments.Pairwise Q)
    (hplace : place ∈ placed base segments) (hplace' : place' ∈ placed base segments) (hbefore : place.1 + place.2.text.byteLen ≤ place'.1) :
    Q place.2 place'.2 := by
  induction segments generalizing base with
  | nil => cases hplace
  | cons first segments ih =>
    obtain ⟨hfirst, hrest⟩ := List.pairwise_cons.mp h
    have hlen := byteLen_segment place.2
    rcases List.mem_cons.mp hplace with rfl | hmem
    · rcases List.mem_cons.mp hplace' with rfl | hmem'
      · omega
      · exact hfirst _ (mem_segments hmem')
    · rcases List.mem_cons.mp hplace' with rfl | hmem'
      · obtain ⟨pre, -, -, hstart⟩ := mem_placed hmem
        dsimp only at hbefore
        omega
      · exact ih hrest hmem hmem'

/-- Two places are one, or one is behind the other. -/
theorem placed_cases (h : place ∈ placed base segments) (h' : place' ∈ placed base segments) :
    place = place' ∨ place.1 + place.2.text.byteLen ≤ place'.1 ∨ place'.1 + place'.2.text.byteLen ≤ place.1 := by
  have hsymm : Std.Symm fun p q : Nat × Segment =>
      p.1 + p.2.text.byteLen ≤ q.1 ∨ q.1 + q.2.text.byteLen ≤ p.1 := ⟨fun _ _ => Or.symm⟩
  have hapart : (placed base segments).Pairwise fun p q =>
      p.1 + p.2.text.byteLen ≤ q.1 ∨ q.1 + q.2.text.byteLen ≤ p.1 := placed_ascending.imp Or.inl
  by_cases heq : place = place'
  · exact .inl heq
  · exact .inr (hapart.forall h h' heq)

/-! ## What is found in a level -/

variable (parse) in
/-- What is found inside of a region that is no object. -/
def foundWithin (n : Nat) (place : Nat × Segment) : List Found :=
  (rescanned parse place.2).elim [] fun inner => collectJsonObjects parse n inner (place.1 + 1)

theorem collect_zero (h : Level t segments) :
    collectJsonObjects parse 0 t base = (placed base segments).filterMap (parsedAt parse) :=
  (scanBraces_level h).1

theorem collect_nil : collectJsonObjects parse n [] base = [] := by
  cases n with
  | zero => exact collect_zero .nil
  | succ n =>
    obtain ⟨hout, hrescan⟩ := @scanBraces_level parse [] base [] .nil
    rw [collectJsonObjects, hout, hrescan]
    rfl

/-- The text that is scanned again. -/
theorem slice_rescanned {range : Nat × Nat} (hplace : place ∈ placed 0 segments)
    (hrange : rangeOf parse place = some range) : range.1 = place.1 + 1 ∧
      rescanned parse place.2 = some (slice (segments.flatMap Segment.text) range.1 range.2) := by
  obtain ⟨pre, post, htext, hstart⟩ := mem_placed hplace
  rw [Nat.zero_add] at hstart
  have hslice {inner post : Text} (ht : segments.flatMap Segment.text = pre ++ ('\x7b' :: (inner ++ post))) :
      slice (segments.flatMap Segment.text) (place.1 + 1) (place.1 + 1 + inner.byteLen) = inner := by
    have hopener : byteLen (pre ++ ['\x7b']) = place.1 + 1 := by
      rw [byteLen_append, hstart]
      rfl
    rw [ht, List.append_cons, ← hopener, ← byteLen_append, slice_around]
  obtain ⟨i, segment⟩ := place
  cases segment with
  | prose c => cases hrange
  | span inner =>
    dsimp only [rangeOf] at hrange
    split at hrange
    · cases hrange
    · rename_i hparse
      cases hrange
      rw [Segment.text, List.cons_append, List.append_assoc] at htext
      rw [hslice htext, rescanned, if_neg hparse]
      exact ⟨rfl, rfl⟩
  | tail inner =>
    dsimp only [rangeOf] at hrange
    split at hrange
    · cases hrange
    · cases hrange
      rw [Segment.text, List.cons_append] at htext
      rw [hslice htext]
      exact ⟨rfl, rfl⟩

theorem foundWithin_of_range (hrange : rangeOf parse place = none) : foundWithin parse n (i, place.2) = [] := by
  obtain ⟨j, segment⟩ := place
  cases segment with
  | prose c => rfl
  | span inner =>
    dsimp only [rangeOf] at hrange
    split at hrange
    · rename_i hparse
      rw [foundWithin, rescanned, if_pos hparse]
      rfl
    · cases hrange
  | tail inner =>
    dsimp only [rangeOf] at hrange
    split at hrange
    · rename_i hnil
      rw [hnil]
      exact collect_nil
    · cases hrange

theorem collect_succ (h : Level t segments) : collectJsonObjects parse (n + 1) t base =
    (placed base segments).filterMap (parsedAt parse) ++ (placed base segments).flatMap (foundWithin parse n) := by
  obtain ⟨hout, hrescan⟩ := @scanBraces_level parse t base segments h
  rw [collectJsonObjects, hout, hrescan, ← Nat.add_zero base, placed_add, List.flatMap_map,
    List.filterMap_eq_flatMap_toList (rangeOf parse), List.flatMap_assoc]
  refine congrArg _ (List.flatMap_congr fun place hplace => ?_)
  cases hrange : rangeOf parse place with
  | none => exact (foundWithin_of_range hrange).symm
  | some range =>
    obtain ⟨a, e⟩ := range
    obtain ⟨rfl, hinner⟩ := slice_rescanned hplace hrange
    rw [foundWithin, hinner, ← text_of_level h, Option.toList_some, List.flatMap_singleton]
    rfl

/-- An object is a region of the level, or it is found inside of one. -/
theorem collect_cases (h : Level t segments) (ho : o ∈ collectJsonObjects parse n t base) :
    ∃ place ∈ placed base segments, parsedAt parse place = some o ∨
      ∃ k, n = k + 1 ∧ o ∈ foundWithin parse k place := by
  cases n with
  | zero =>
    rw [collect_zero h, List.mem_filterMap] at ho
    obtain ⟨place, hplace, hparsed⟩ := ho
    exact ⟨place, hplace, .inl hparsed⟩
  | succ k =>
    rw [collect_succ h, List.mem_append, List.mem_filterMap, List.mem_flatMap] at ho
    rcases ho with ⟨place, hplace, hparsed⟩ | ⟨place, hplace, hwithin⟩
    · exact ⟨place, hplace, .inl hparsed⟩
    · exact ⟨place, hplace, .inr ⟨k, rfl, hwithin⟩⟩

theorem mem_foundWithin : o ∈ foundWithin parse n place ↔
    ∃ inner, rescanned parse place.2 = some inner ∧ o ∈ collectJsonObjects parse n inner (place.1 + 1) := by
  unfold foundWithin
  cases rescanned parse place.2 with
  | none => simp
  | some inner => simp

theorem text_of_rescanned (h : rescanned parse segment = some inner) :
    ∃ closer : Text, segment.text = '\x7b' :: (inner ++ closer) := by
  cases segment with
  | prose c => cases h
  | span inner =>
    dsimp only [rescanned] at h
    split at h
    · cases h
    · cases h
      exact ⟨_, rfl⟩
  | tail inner =>
    cases h
    exact ⟨[], congrArg _ (List.append_nil _).symm⟩

theorem parsedAt_eq_some : parsedAt parse place = some o ↔ ∃ inner, place.2 = .span inner ∧
    parseObjectSpanLenient parse place.2.text = some o.value ∧ o.start = place.1 ∧
      o.stop = place.1 + place.2.text.byteLen := by
  obtain ⟨i, segment⟩ := place
  obtain ⟨start, stop, value⟩ := o
  cases segment with
  | span inner => simp [parsedAt, eq_comm, and_comm]
  | _ => simp [parsedAt]

/-- An object is not scanned again. -/
theorem not_mem_foundWithin (h : parsedAt parse place = some o) : o' ∉ foundWithin parse n place := by
  obtain ⟨inner, hspan, hparse, -⟩ := parsedAt_eq_some.mp h
  have hnone : rescanned parse place.2 = none := by
    rw [hspan] at hparse ⊢
    rw [rescanned, hparse]
    rfl
  rw [foundWithin, hnone]
  exact List.not_mem_nil

/-! ## Objects stand where they were found -/

variable (parse) in
/-- The object takes a range of `t`, and its value is that of the text there. -/
def Stands (t : Text) (base : Nat) (o : Found) : Prop :=
  ∃ pre raw post : Text, t = pre ++ (raw ++ post) ∧ o.start = base + pre.byteLen ∧
    o.stop = base + byteLen (pre ++ raw) ∧ raw ≠ [] ∧ parseObjectSpanLenient parse raw = some o.value

theorem Stands.bounds (h : Stands parse t base o) :
    base ≤ o.start ∧ o.start < o.stop ∧ o.stop ≤ base + t.byteLen := by
  obtain ⟨pre, raw, post, rfl, hstart, hstop, hne, -⟩ := h
  have hraw : 0 < raw.byteLen := byteLen_pos hne
  rw [byteLen_append] at hstop
  rw [byteLen_append, byteLen_append]
  omega

/-- What stands in a part of a text stands in the text. -/
theorem Stands.within {pre post : Text} (h : Stands parse inner (base + pre.byteLen) o) :
    Stands parse (pre ++ (inner ++ post)) base o := by
  obtain ⟨lead, raw, rest, rfl, hstart, hstop, hne, hparse⟩ := h
  refine ⟨pre ++ lead, raw, rest ++ post, ?_, ?_, ?_, hne, hparse⟩
  · simp only [List.append_assoc]
  · rw [hstart, byteLen_append, Nat.add_assoc]
  · rw [hstop, List.append_assoc, byteLen_append pre, Nat.add_assoc]

theorem stands_of_parsedAt (h : parsedAt parse place = some o) : Stands parse place.2.text place.1 o := by
  obtain ⟨inner, hspan, hparse, hstart, hstop⟩ := parsedAt_eq_some.mp h
  refine ⟨[], place.2.text, [], (List.append_nil _).symm, hstart, hstop, ?_, hparse⟩
  rw [hspan]
  exact List.cons_ne_nil _ _

/-- Every object is what the text of its range reads as. -/
theorem stands_of_collect (ho : o ∈ collectJsonObjects parse n t base) : Stands parse t base o := by
  induction n using Nat.strong_induction_on generalizing t base o with
  | _ n ih =>
    obtain ⟨segments, h⟩ := exists_level t
    obtain ⟨place, hplace, hfound⟩ := collect_cases h ho
    have hstands : Stands parse place.2.text place.1 o := by
      rcases hfound with hparsed | ⟨k, rfl, hwithin⟩
      · exact stands_of_parsedAt hparsed
      · obtain ⟨inner, hinner, ho⟩ := mem_foundWithin.mp hwithin
        obtain ⟨closer, htext⟩ := text_of_rescanned hinner
        have hstands : Stands parse inner (place.1 + byteLen ['\x7b']) o := ih k k.lt_succ_self ho
        rw [htext]
        exact hstands.within
    obtain ⟨pre, post, htext, hstart⟩ := mem_placed hplace
    rw [hstart] at hstands
    rw [text_of_level h, htext]
    exact hstands.within

/-- What a place gives stays in its region. -/
theorem within_place (h : parsedAt parse place = some o ∨ o ∈ foundWithin parse n place) :
    place.1 ≤ o.start ∧ o.start < o.stop ∧ o.stop ≤ place.1 + place.2.text.byteLen := by
  rcases h with hparsed | hwithin
  · exact (stands_of_parsedAt hparsed).bounds
  · obtain ⟨inner, hinner, ho⟩ := mem_foundWithin.mp hwithin
    obtain ⟨closer, htext⟩ := text_of_rescanned hinner
    obtain ⟨hstart, hlt, hstop⟩ := (stands_of_collect ho).bounds
    have hlen : place.2.text.byteLen = 1 + (inner.byteLen + closer.byteLen) := by
      rw [htext, byteLen_cons, byteLen_append]
      rfl
    omega

/-! ## Two objects -/

/-- A relation of the objects of a level: inside of one region, between two regions of a kind, and from the
regions that are objects to what is found inside of the others. -/
theorem collect_pairwise {R : Found → Found → Prop} (h : Level t segments) :
    (collectJsonObjects parse (n + 1) t base).Pairwise R ↔
      (∀ place ∈ placed base segments, (foundWithin parse n place).Pairwise R) ∧
      (placed base segments).Pairwise (fun place place' =>
        (∀ o, parsedAt parse place = some o → ∀ o', parsedAt parse place' = some o' → R o o') ∧
          ∀ o ∈ foundWithin parse n place, ∀ o' ∈ foundWithin parse n place', R o o') ∧
      ∀ place ∈ placed base segments, ∀ o, parsedAt parse place = some o → ∀ place' ∈ placed base segments,
        ∀ o' ∈ foundWithin parse n place', R o o' := by
  rw [collect_succ h, List.pairwise_append, List.pairwise_filterMap, List.pairwise_flatMap]
  constructor
  · rintro ⟨hparsed, ⟨hinside, hwithin⟩, hbetween⟩
    refine ⟨hinside, hparsed.and hwithin, fun place hplace o ho place' hplace' o' ho' => ?_⟩
    exact hbetween o (List.mem_filterMap.mpr ⟨place, hplace, ho⟩) o'
      (List.mem_flatMap.mpr ⟨place', hplace', ho'⟩)
  · rintro ⟨hinside, hsame, hbetween⟩
    refine ⟨hsame.imp And.left, ⟨hinside, hsame.imp And.right⟩, fun o ho o' ho' => ?_⟩
    obtain ⟨place, hplace, ho⟩ := List.mem_filterMap.mp ho
    obtain ⟨place', hplace', ho'⟩ := List.mem_flatMap.mp ho'
    exact hbetween place hplace o ho place' hplace' o' ho'

/-- What a place gives ends ahead of what a later one gives. -/
theorem stop_le_start (hbefore : place.1 + place.2.text.byteLen ≤ place'.1)
    (ho : parsedAt parse place = some o ∨ o ∈ foundWithin parse n place)
    (ho' : parsedAt parse place' = some o' ∨ o' ∈ foundWithin parse n place') : o.stop ≤ o'.start := by
  obtain ⟨-, -, hstop⟩ := within_place ho
  obtain ⟨hstart', -, -⟩ := within_place ho'
  omega

def Found.Apart (o o' : Found) : Prop := o.stop ≤ o'.start ∨ o'.stop ≤ o.start

theorem apart_of_kinds (hplace : place ∈ placed base segments) (hplace' : place' ∈ placed base segments)
    (ho : parsedAt parse place = some o) (ho' : o' ∈ foundWithin parse n place') : o.Apart o' := by
  rcases placed_cases hplace hplace' with rfl | hbefore | hbehind
  · exact absurd ho' (not_mem_foundWithin ho)
  · exact .inl (stop_le_start hbefore (.inl ho) (.inr ho'))
  · exact .inr (stop_le_start hbehind (.inr ho') (.inl ho))

/-- Two objects do not overlap. -/
theorem collect_apart : (collectJsonObjects parse n t base).Pairwise Found.Apart := by
  induction n generalizing t base with
  | zero =>
    obtain ⟨segments, h⟩ := exists_level t
    rw [collect_zero h, List.pairwise_filterMap]
    exact placed_ascending.imp fun hbefore o ho o' ho' =>
      .inl (stop_le_start (n := 0) hbefore (.inl ho) (.inl ho'))
  | succ n ih =>
    obtain ⟨segments, h⟩ := exists_level t
    refine (collect_pairwise h).mpr ⟨fun place _ => ?_, ?_, fun place hplace o ho place' hplace' o' ho' => ?_⟩
    · unfold foundWithin
      cases rescanned parse place.2 with
      | none => exact .nil
      | some inner => exact ih
    · refine placed_ascending.imp fun hbefore => ⟨fun o ho o' ho' => ?_, fun o ho o' ho' => ?_⟩
      · exact .inl (stop_le_start (n := n) hbefore (.inl ho) (.inl ho'))
      · exact .inl (stop_le_start hbefore (.inr ho) (.inr ho'))
    · exact apart_of_kinds hplace hplace' ho ho'

/-! ## Behind open braces -/

theorem mem_collect_parsed (h : Level t segments) (hplace : place ∈ placed base segments)
    (ho : parsedAt parse place = some o) : o ∈ collectJsonObjects parse n t base := by
  have hmem := List.mem_filterMap.mpr ⟨place, hplace, ho⟩
  cases n with
  | zero =>
    rw [collect_zero h]
    exact hmem
  | succ n =>
    rw [collect_succ h]
    exact List.mem_append_left _ hmem

theorem mem_collect_within (h : Level t segments) (hplace : place ∈ placed base segments)
    (hinner : rescanned parse place.2 = some inner) (ho : o ∈ collectJsonObjects parse n inner (place.1 + 1)) :
    o ∈ collectJsonObjects parse (n + 1) t base := by
  rw [collect_succ h]
  exact List.mem_append_right _ (List.mem_flatMap.mpr ⟨place, hplace, mem_foundWithin.mpr ⟨inner, hinner, ho⟩⟩)

theorem mem_placed_append {settled : List Segment} :
    (base + byteLen (settled.flatMap Segment.text), segment) ∈ placed base (settled ++ segment :: segments) := by
  induction settled generalizing base with
  | nil => exact List.mem_cons_self
  | cons first settled ih =>
    refine List.mem_cons_of_mem _ ?_
    rw [List.flatMap_cons, byteLen_append, ← Nat.add_assoc]
    exact ih

/-- Where a region goes on over an object, its inside is scanned again if it does not parse. -/
theorem exists_level_over {lead post : Text} {depth : Nat} (hlead : stays atOpener lead = some ⟨depth + 1, none⟩)
    (hinner : stays atOpener inner = some atOpener)
    (hreject : ∀ rest : Text,
      parseObjectSpanLenient parse ('\x7b' :: (lead ++ ((Segment.span inner).text ++ rest))) = none) :
    ∃ segment segments, ∃ post' : Text,
      Level ('\x7b' :: (lead ++ ((Segment.span inner).text ++ post))) (segment :: segments) ∧
        rescanned parse segment = some (lead ++ ((Segment.span inner).text ++ post')) := by
  have hobject {rest : Text} : stays atOpener (lead ++ ((Segment.span inner).text ++ rest)) =
      stays ⟨depth + 1, none⟩ rest := by
    rw [stays_append, hlead, Option.bind_some, stays_append, stays_span hinner, Option.bind_some]
  rcases stays_cases (s := ⟨depth + 1, none⟩) (Nat.succ_ne_zero depth) post with
    hopen | ⟨rest, behind, rfl, hclosed⟩
  · refine ⟨_, [], post, .tail ?_, rfl⟩
    rw [hobject]
    exact hopen
  · obtain ⟨segments, hrest⟩ := exists_level behind
    have hlevel := Level.span (hobject.trans hclosed) hrest
    have htext : (Segment.span (lead ++ ((Segment.span inner).text ++ rest))).text ++ behind =
        '\x7b' :: (lead ++ ((Segment.span inner).text ++ (rest ++ '\x7d' :: behind))) := by
      simp only [Segment.text, List.cons_append, List.append_assoc, List.nil_append]
    have hnone := hreject (rest ++ ['\x7d'])
    rw [htext] at hlevel
    refine ⟨_, segments, rest, hlevel, ?_⟩
    rw [rescanned, if_neg]
    rw [Segment.text, List.append_assoc, List.append_assoc, hnone]
    exact Bool.false_ne_true

/-- An object behind text without quotes is found, if one pass for each opener left open is. -/
theorem mem_collect_of_unmatched {pre post : Text} {v : Json} (hquote : '"' ∉ pre) (hcount : unmatched 0 pre ≤ n)
    (hinner : stays atOpener inner = some atOpener)
    (hparse : parseObjectSpanLenient parse (Segment.span inner).text = some v)
    (hreject : ∀ lead rest : Text, '"' ∉ lead → (stays atOpener lead).isSome →
      parseObjectSpanLenient parse ('\x7b' :: (lead ++ '\x7b' :: rest)) = none) :
    ⟨base + pre.byteLen, base + pre.byteLen + (Segment.span inner).text.byteLen, v⟩ ∈
      collectJsonObjects parse n (pre ++ ((Segment.span inner).text ++ post)) base := by
  induction n using Nat.strong_induction_on generalizing pre post base with
  | _ n ih =>
    obtain ⟨segments, hpre⟩ := exists_level pre
    rcases hpre.settled_or with hsettled | ⟨before, settled, lead, rfl, -, hbefore, hsettled, hopen⟩
    · obtain ⟨behind, hpost⟩ := exists_level post
      have hlevel := hpre.append hsettled (.span hinner hpost)
      refine mem_collect_parsed hlevel mem_placed_append ?_
      rw [← text_of_level hpre, parsedAt_eq_some]
      exact ⟨inner, rfl, hparse, rfl, rfl⟩
    · rw [List.mem_append, List.mem_cons, not_or, not_or] at hquote
      obtain ⟨hquote', -, hquote⟩ := hquote
      obtain ⟨s, hs⟩ := Option.isSome_iff_exists.mp hopen
      have hdepth := @unmatched_succ _ _ 0 hquote hs
      obtain rfl := stays_unmatched hquote hs
      rw [hdepth] at hs
      rw [unmatched_append, hbefore.unmatched_eq_zero hsettled hquote'] at hcount
      have hcount : unmatched 0 lead + 1 ≤ n := hdepth.symm.trans_le hcount
      obtain ⟨k, rfl⟩ := Nat.exists_eq_add_of_le' hcount
      obtain ⟨segment, segments, post', hover, hinside⟩ :=
        @exists_level_over parse _ lead post _ hs hinner fun rest =>
          hreject lead (inner ++ ['\x7d'] ++ rest) hquote hopen
      have hlevel := hbefore.append hsettled hover
      have hfound := @mem_collect_within _ _ _ base _ _ _ _ hlevel mem_placed_append hinside
        (ih _ (Nat.lt_succ_self _) hquote (Nat.le_add_left _ k))
      have hstart : base + byteLen (settled.flatMap Segment.text) + 1 + byteLen lead =
          base + byteLen (before ++ '\x7b' :: lead) := by
        rw [← text_of_level hbefore, byteLen_append, byteLen_cons]
        have hone : ('\x7b').utf8Size = 1 := rfl
        omega
      rw [hstart] at hfound
      rw [List.append_assoc]
      exact hfound

end Nanna.Loop
