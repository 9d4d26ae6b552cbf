import Mathlib.Data.List.DropRight
import Nanna.Lib.Text

/-!
# What a regression notice names

A file that parsed and does not now is reported with the mutations since it parsed (`RegressionSpan`): the lines that
fit a budget of bytes, and how many there were. A line that does not fit behind the ones before it is left out, and
the span is read from the oldest line on.

`regression_notices`: a notice stands behind a pass, one between two passes. It names the newest mutations, with the
one that carried the verdict, exactly where only lines above the whole budget come before lines that fit it together
(`SpanFits`).
-/

namespace Nanna.Loop

open Nanna.Lib Nanna.Lib.Text

def U32_MAX : Nat := 2 ^ 32 - 1

/-! ## The span -/

structure RegressionSpan where
  named : List Text := []
  totalCount : Nat := 0
  deriving DecidableEq

def REGRESSION_SPAN_NAME_BUDGET_BYTES : Nat := 320

def mutationLine (tool summary : Text) : Text :=
  if summary.isEmpty then "`".toList ++ tool ++ "`".toList
  else "`".toList ++ tool ++ "` (".toList ++ summary ++ ")".toList

namespace RegressionSpan

/-- There is room for a line behind the named ones. -/
def fits (span : RegressionSpan) (line : Text) : Bool :=
  (span.named.map (·.byteLen)).sum + line.byteLen ≤ REGRESSION_SPAN_NAME_BUDGET_BYTES

def record (span : RegressionSpan) (line : Text) : RegressionSpan :=
  { named := if span.fits line then span.named ++ [line] else span.named,
    totalCount := min (span.totalCount + 1) U32_MAX }

/-- How many a notice says are not listed. -/
def unlisted (span : RegressionSpan) : Nat := span.totalCount - min span.named.length U32_MAX

end RegressionSpan

def structuralRegressionNotice (path detail : Text) (span : RegressionSpan) : Text :=
  let listed := if span.named.isEmpty then [] else " Since then: ".toList ++ ", ".toList.intercalate span.named ++ ".".toList
  let omitted :=
    if 0 < span.unlisted then
      " (".toList ++ (toString span.unlisted).toList ++ " earlier one(s) not listed.)".toList
    else []
  "\n\n[REGRESSION — ".toList ++ path ++
    " PARSED the last time it was checked this run, and does not now (".toList ++ detail ++ "). ".toList ++
    (toString span.totalCount).toList ++ " mutation(s) landed in between.".toList ++ listed ++ omitted ++
    (" The break came in one of those, not from wherever the parser reported it — read what those calls " ++
      "changed rather than the line number, and if one of them was a whole-file rewrite, compare against ").toList ++
    path ++ ".__prev__ before editing further.]".toList

/-! ## The streak of a file -/

def STRUCTURAL_REPEAT_ESCALATE_AFTER : Nat := 3

structure StructuralVerdictStreak where
  signature : Text := []
  count : Nat := 0
  escalated : Bool := false
  seenPassing : Bool := false
  span : RegressionSpan := {}
  regressionAnnounced : Bool := false
  deriving DecidableEq

structure StructuralVerdictOutcome where
  repeatEdits : Option Nat := none
  regression : Option RegressionSpan := none
  deriving DecidableEq

namespace StructuralVerdictStreak

def recordMutation (streak : StructuralVerdictStreak) (tool summary : Text) : StructuralVerdictStreak :=
  { streak with span := streak.span.record (mutationLine tool summary) }

/-- The streak of a break, under its signature. -/
def countBreak (streak : StructuralVerdictStreak) (signature : Text) : StructuralVerdictStreak :=
  if streak.signature = signature then { streak with count := streak.count + 1 }
  else { streak with signature, count := 1, escalated := false }

def recordStructuralVerdict (streak : StructuralVerdictStreak) (parses : Bool) (signature : Text) :
    StructuralVerdictStreak × StructuralVerdictOutcome :=
  if parses then ({ seenPassing := true }, {})
  else
    let entry := streak.countBreak signature
    let announces := entry.seenPassing && ! entry.regressionAnnounced
    let escalates := decide (STRUCTURAL_REPEAT_ESCALATE_AFTER ≤ entry.count) && ! entry.escalated
    ({ entry with
        regressionAnnounced := entry.regressionAnnounced || announces, escalated := entry.escalated || escalates },
      { regression := if announces then some entry.span else none,
        repeatEdits := if escalates then some entry.count else none })

end StructuralVerdictStreak

/-- A call on the file, with the verdict and the signature of its error where a checker ran. -/
structure StructuralCall where
  name : Text
  success : Bool
  verdict : Option (Bool × Text)
  deriving DecidableEq

variable (isClaimWriteFamily : Text → Bool)

def StructuralCall.mutates (call : StructuralCall) : Bool := isClaimWriteFamily call.name && call.success

/-- The mutation of a call is recorded before its verdict. -/
def structuralNoticesForCall (streak : StructuralVerdictStreak) (call : StructuralCall) :
    StructuralVerdictStreak × StructuralVerdictOutcome :=
  let streak := if call.mutates isClaimWriteFamily then streak.recordMutation call.name [] else streak
  match call.verdict with
  | none => (streak, {})
  | some (parses, signature) => streak.recordStructuralVerdict parses signature

/-! ## Runs -/

def streakAfter (calls : List StructuralCall) : StructuralVerdictStreak :=
  calls.foldl (fun streak call => (structuralNoticesForCall isClaimWriteFamily streak call).1) {}

/-- The span of the notice a call raises behind others. -/
def noticeAt (before : List StructuralCall) (call : StructuralCall) : Option RegressionSpan :=
  (structuralNoticesForCall isClaimWriteFamily (streakAfter isClaimWriteFamily before) call).2.regression

def StructuralCall.passes (call : StructuralCall) : Bool := call.verdict.any (·.1)

/-- The calls since the file was last seen to parse. -/
def sincePass (calls : List StructuralCall) : List StructuralCall := calls.rtakeWhile (! ·.passes)

/-- The mutations of calls, in order. -/
def mutationLines (calls : List StructuralCall) : List Text :=
  (calls.filter (·.mutates isClaimWriteFamily)).map fun call => mutationLine call.name []

def spanOf (lines : List Text) : RegressionSpan := lines.foldl RegressionSpan.record {}

/-- Every line with whether it was put on the list. -/
def recorded (span : RegressionSpan) : List Text → List (Text × Bool)
  | [] => []
  | line :: lines => (line, span.fits line) :: recorded (span.record line) lines

/-- What a notice says of the mutations since the pass. -/
structure NamesCulprit (lines : List Text) (carried : Bool) (span : RegressionSpan) : Prop where
  /-- The mutation that carried the verdict is listed. -/
  culprit : carried → ∃ line, (recorded {} lines).getLast? = some (line, true)
  /-- The listed ones are the newest, in order. -/
  newest : ∃ earlier : List Text, recorded {} lines = earlier.map (·, false) ++ span.named.map (·, true)
  count : span.named.length + span.unlisted = lines.length

/-- Lines above the budget, and behind them lines that fit it together. -/
def SpanFits (lines : List Text) (carried : Bool) : Prop :=
  lines.length ≤ U32_MAX ∧ ∃ large rest, lines = large ++ rest ∧
    (∀ line ∈ large, REGRESSION_SPAN_NAME_BUDGET_BYTES < line.byteLen) ∧
    (rest.map (·.byteLen)).sum ≤ REGRESSION_SPAN_NAME_BUDGET_BYTES ∧ (carried → rest ≠ [])

variable {isClaimWriteFamily} {span : RegressionSpan} {lines earlier later large rest : List Text} {line : Text}
  {carried : Bool} {calls before mid after : List StructuralCall} {call call' : StructuralCall}

/-! ## The lines on the list -/

theorem named_record : (span.record line).named = if span.fits line then span.named ++ [line] else span.named := rfl

theorem named_foldl (span : RegressionSpan) (lines : List Text) : (lines.foldl RegressionSpan.record span).named =
    span.named ++ ((recorded span lines).filter (·.2)).map (·.1) := by
  induction lines generalizing span with
  | nil => exact (List.append_nil _).symm
  | cons line lines ih =>
    rw [List.foldl_cons, ih, named_record, recorded]
    cases hfits : span.fits line with
    | false => simp
    | true => simp

theorem totalCount_foldl (span : RegressionSpan) (lines : List Text) (h : span.totalCount ≤ U32_MAX) :
    (lines.foldl RegressionSpan.record span).totalCount = min (span.totalCount + lines.length) U32_MAX := by
  induction lines generalizing span with
  | nil => exact (Nat.min_eq_left h).symm
  | cons line lines ih =>
    have hrecord : (span.record line).totalCount = min (span.totalCount + 1) U32_MAX := rfl
    rw [List.foldl_cons, ih _ (hrecord ▸ Nat.min_le_right _ _), hrecord, List.length_cons]
    omega

/-- Lines that all fit fit together. -/
theorem recorded_listed_iff (hbudget : (span.named.map (·.byteLen)).sum ≤ REGRESSION_SPAN_NAME_BUDGET_BYTES) :
    recorded span lines = later.map (·, true) ↔ lines = later ∧
      (span.named.map (·.byteLen)).sum + (later.map (·.byteLen)).sum ≤ REGRESSION_SPAN_NAME_BUDGET_BYTES := by
  induction later generalizing span lines with
  | nil =>
    cases lines with
    | nil => exact iff_of_true rfl ⟨rfl, hbudget⟩
    | cons line lines => exact iff_of_false (by simp [recorded]) (by simp)
  | cons line' later ih =>
    cases lines with
    | nil => exact iff_of_false (by simp [recorded]) (by simp)
    | cons line lines =>
      rw [recorded, List.map_cons, List.cons.injEq, Prod.mk.injEq, List.cons.injEq, List.map_cons, List.sum_cons]
      cases hfits : span.fits line with
      | false =>
        have hlarge := of_decide_eq_false hfits
        refine iff_of_false (by simp) ?_
        rintro ⟨⟨rfl, -⟩, hsum⟩
        omega
      | true =>
        have hroom := of_decide_eq_true hfits
        have hnamed : ((span.record line).named.map (·.byteLen)).sum =
            (span.named.map (·.byteLen)).sum + line.byteLen := by
          rw [named_record, hfits, if_pos rfl, List.map_append, List.sum_append, List.map_singleton,
            List.sum_singleton]
        rw [ih (hnamed.symm ▸ hroom), hnamed]
        constructor
        · rintro ⟨⟨rfl, -⟩, rfl, hsum⟩
          exact ⟨⟨rfl, rfl⟩, by omega⟩
        · rintro ⟨⟨rfl, rfl⟩, hsum⟩
          exact ⟨⟨rfl, rfl⟩, rfl, by omega⟩

/-- Nothing is listed before a line that is left out: it is above the budget alone. -/
theorem recorded_iff (hnamed : span.named = []) :
    recorded span lines = earlier.map (·, false) ++ later.map (·, true) ↔ lines = earlier ++ later ∧
      (∀ line ∈ earlier, REGRESSION_SPAN_NAME_BUDGET_BYTES < line.byteLen) ∧
      (later.map (·.byteLen)).sum ≤ REGRESSION_SPAN_NAME_BUDGET_BYTES := by
  induction earlier generalizing span lines with
  | nil =>
    have hiff := @recorded_listed_iff span lines later (by simp [hnamed])
    rw [hnamed] at hiff
    simpa using hiff
  | cons line' earlier ih =>
    cases lines with
    | nil => exact iff_of_false (by simp [recorded]) (by simp)
    | cons line lines =>
      rw [recorded, List.map_cons, List.cons_append, List.cons_append, List.cons.injEq, Prod.mk.injEq,
        List.cons.injEq, List.forall_mem_cons]
      cases hfits : span.fits line with
      | true =>
        have hroom := of_decide_eq_true hfits
        rw [hnamed] at hroom
        refine iff_of_false (by simp) ?_
        rintro ⟨⟨rfl, -⟩, ⟨hlarge, -⟩, -⟩
        simp only [List.map_nil, List.sum_nil, Nat.zero_add] at hroom
        omega
      | false =>
        have hlarge := of_decide_eq_false hfits
        rw [hnamed] at hlarge
        simp only [List.map_nil, List.sum_nil, Nat.zero_add, Nat.not_le] at hlarge
        rw [ih (by rw [named_record, hfits, if_neg Bool.false_ne_true, hnamed])]
        constructor
        · rintro ⟨⟨rfl, -⟩, rfl, hall, hsum⟩
          exact ⟨⟨rfl, rfl⟩, ⟨hlarge, hall⟩, hsum⟩
        · rintro ⟨⟨rfl, rfl⟩, ⟨-, hall⟩, hsum⟩
          exact ⟨⟨rfl, rfl⟩, rfl, hall, hsum⟩

/-! ## What a notice says -/

theorem named_length_le (hpos : ∀ line ∈ lines, 0 < line.byteLen)
    (h : recorded {} lines = earlier.map (·, false) ++ (spanOf lines).named.map (·, true)) :
    (spanOf lines).named.length ≤ lines.length ∧ (spanOf lines).named.length ≤ U32_MAX := by
  obtain ⟨hlines, -, hsum⟩ := (recorded_iff rfl).mp h
  have hlen := congrArg List.length hlines
  rw [List.length_append] at hlen
  have hbytes : (spanOf lines).named.length ≤ ((spanOf lines).named.map (·.byteLen)).sum := by
    rw [← List.length_map (·.byteLen)]
    refine List.length_le_sum_of_one_le _ fun n hn => ?_
    obtain ⟨line, hline, rfl⟩ := List.mem_map.mp hn
    exact hpos line (hlines ▸ List.mem_append_right _ hline)
  have hbudget : REGRESSION_SPAN_NAME_BUDGET_BYTES ≤ U32_MAX := by decide
  exact ⟨by omega, by omega⟩

theorem names_iff (hpos : ∀ line ∈ lines, 0 < line.byteLen) :
    NamesCulprit lines carried (spanOf lines) ↔ SpanFits lines carried := by
  have hcount : (spanOf lines).totalCount = min lines.length U32_MAX := by
    have htotal := totalCount_foldl {} lines (Nat.zero_le _)
    rwa [show RegressionSpan.totalCount {} + lines.length = lines.length from Nat.zero_add _] at htotal
  constructor
  · rintro ⟨hculprit, ⟨earlier, hnewest⟩, htotal⟩
    obtain ⟨hlines, hlarge, hsum⟩ := (recorded_iff rfl).mp hnewest
    obtain ⟨hle, hmax⟩ := named_length_le hpos hnewest
    rw [RegressionSpan.unlisted, hcount] at htotal
    refine ⟨by omega, earlier, (spanOf lines).named, hlines, hlarge, hsum, fun hcarried hnil => ?_⟩
    obtain ⟨line, hlast⟩ := hculprit hcarried
    rw [hnewest, hnil, List.map_nil, List.append_nil, List.getLast?_map] at hlast
    obtain ⟨_, -, heq⟩ := Option.map_eq_some_iff.mp hlast
    cases heq
  · rintro ⟨hlen, large, rest, hlines, hlarge, hsum, hcarried⟩
    have hrecorded := (@recorded_iff {} lines large rest rfl).mpr ⟨hlines, hlarge, hsum⟩
    have hnamed : (spanOf lines).named = rest := by
      rw [spanOf, named_foldl, hrecorded]
      simp [List.filter_map, Function.comp_def]
    refine ⟨fun h => ?_, ⟨large, hnamed.symm ▸ hrecorded⟩, ?_⟩
    · obtain ⟨init, line, rfl⟩ := (List.eq_nil_or_concat' rest).resolve_left (hcarried h)
      exact ⟨line, by rw [hrecorded, List.map_append, ← List.append_assoc]; exact List.getLast?_concat⟩
    · obtain ⟨hle, hmax⟩ := named_length_le hpos (hnamed.symm ▸ hrecorded)
      rw [RegressionSpan.unlisted, hcount]
      omega

theorem mutationLine_pos (tool summary : Text) : 0 < (mutationLine tool summary).byteLen := by
  have hquote : byteLen "`".toList = 1 := by decide
  rw [mutationLine]
  split
  · rw [byteLen_append, byteLen_append, hquote]
    omega
  · rw [byteLen_append, byteLen_append, byteLen_append, byteLen_append, hquote]
    omega

/-! ## What a call does -/

theorem countBreak_spec (streak : StructuralVerdictStreak) (signature : Text) :
    (streak.countBreak signature).seenPassing = streak.seenPassing ∧
      (streak.countBreak signature).span = streak.span ∧
      (streak.countBreak signature).regressionAnnounced = streak.regressionAnnounced := by
  rw [StructuralVerdictStreak.countBreak]
  split
  · exact ⟨rfl, rfl, rfl⟩
  · exact ⟨rfl, rfl, rfl⟩

/-- The span with the mutation of a call. -/
def spanWith (isClaimWriteFamily : Text → Bool) (span : RegressionSpan) (call : StructuralCall) : RegressionSpan :=
  (mutationLines isClaimWriteFamily [call]).foldl RegressionSpan.record span

theorem notices_of_pass (streak : StructuralVerdictStreak) (h : call.passes = true) :
    structuralNoticesForCall isClaimWriteFamily streak call = ({ seenPassing := true }, {}) := by
  rw [StructuralCall.passes] at h
  rw [structuralNoticesForCall]
  rcases hverdict : call.verdict with _ | ⟨_ | _, signature⟩
  · rw [hverdict] at h
    cases h
  · rw [hverdict] at h
    cases h
  · rfl

/-- A call raises a notice at the edge that was not announced. -/
def raises (streak : StructuralVerdictStreak) (call : StructuralCall) : Bool :=
  call.verdict.isSome && streak.seenPassing && ! streak.regressionAnnounced

theorem afterMutation (isClaimWriteFamily : Text → Bool) (streak : StructuralVerdictStreak) (call : StructuralCall) :
    (if call.mutates isClaimWriteFamily then streak.recordMutation call.name [] else streak) =
      { streak with span := spanWith isClaimWriteFamily streak.span call } := by
  rw [spanWith, mutationLines, List.filter_cons]
  split
  · rfl
  · rfl

theorem notices_of_not_pass (isClaimWriteFamily : Text → Bool) (streak : StructuralVerdictStreak)
    (h : call.passes = false) :
    (structuralNoticesForCall isClaimWriteFamily streak call).1.seenPassing = streak.seenPassing ∧
      (structuralNoticesForCall isClaimWriteFamily streak call).1.span = spanWith isClaimWriteFamily streak.span call ∧
      (structuralNoticesForCall isClaimWriteFamily streak call).1.regressionAnnounced =
        (streak.regressionAnnounced || raises streak call) ∧
      (structuralNoticesForCall isClaimWriteFamily streak call).2.regression =
        if raises streak call then some (spanWith isClaimWriteFamily streak.span call) else none := by
  rw [StructuralCall.passes] at h
  rw [structuralNoticesForCall, afterMutation, raises]
  rcases hverdict : call.verdict with _ | ⟨_ | _, signature⟩
  · exact ⟨rfl, rfl, (Bool.or_false _).symm, rfl⟩
  · obtain ⟨hseen, hspan, hannounced⟩ := countBreak_spec
      { streak with span := spanWith isClaimWriteFamily streak.span call } signature
    dsimp only
    rw [StructuralVerdictStreak.recordStructuralVerdict, if_neg Bool.false_ne_true]
    dsimp only
    rw [hseen, hspan, hannounced]
    exact ⟨rfl, rfl, rfl, rfl⟩
  · rw [hverdict] at h
    cases h

/-! ## Runs -/

theorem streakAfter_snoc : streakAfter isClaimWriteFamily (calls ++ [call]) =
    (structuralNoticesForCall isClaimWriteFamily (streakAfter isClaimWriteFamily calls) call).1 := List.foldl_concat ..

theorem sincePass_snoc : sincePass (calls ++ [call]) = if call.passes then [] else sincePass calls ++ [call] := by
  rw [sincePass, List.rtakeWhile_concat]
  cases call.passes <;> rfl

theorem spanWith_spanOf : spanWith isClaimWriteFamily (spanOf (mutationLines isClaimWriteFamily calls)) call =
    spanOf (mutationLines isClaimWriteFamily (calls ++ [call])) := by
  rw [spanOf, spanOf, mutationLines, mutationLines, spanWith, ← List.foldl_append, List.filter_append, List.map_append]
  rfl

/-- The streak knows whether there was a pass, and the mutations since. -/
theorem streakAfter_spec (isClaimWriteFamily : Text → Bool) (calls : List StructuralCall) :
    (streakAfter isClaimWriteFamily calls).seenPassing = calls.any (·.passes) ∧
      (streakAfter isClaimWriteFamily calls).span = spanOf (mutationLines isClaimWriteFamily (sincePass calls)) := by
  induction calls using List.reverseRecOn with
  | nil => exact ⟨rfl, rfl⟩
  | append_singleton calls call ih =>
    rw [streakAfter_snoc, sincePass_snoc, List.any_append, List.any_cons, List.any_nil, Bool.or_false]
    cases hpass : call.passes with
    | true =>
      rw [notices_of_pass _ hpass, Bool.or_true]
      exact ⟨rfl, rfl⟩
    | false =>
      obtain ⟨hseen, hspan, -, -⟩ :=
        notices_of_not_pass isClaimWriteFamily (streakAfter isClaimWriteFamily calls) hpass
      rw [hseen, hspan, ih.1, ih.2, Bool.or_false, if_neg Bool.false_ne_true]
      exact ⟨rfl, spanWith_spanOf⟩

theorem notice_spec {span : RegressionSpan} (h : noticeAt isClaimWriteFamily before call = some span) :
    call.passes = false ∧ call.verdict.isSome ∧ before.any (·.passes) = true ∧
      (streakAfter isClaimWriteFamily before).regressionAnnounced = false ∧
      span = spanOf (mutationLines isClaimWriteFamily (sincePass (before ++ [call]))) := by
  obtain ⟨hseen, hspan⟩ := streakAfter_spec isClaimWriteFamily before
  cases hpass : call.passes with
  | true =>
    rw [noticeAt, notices_of_pass _ hpass] at h
    cases h
  | false =>
    obtain ⟨-, -, -, hregression⟩ :=
      notices_of_not_pass isClaimWriteFamily (streakAfter isClaimWriteFamily before) hpass
    rw [noticeAt, hregression] at h
    split at h
    · rename_i hraises
      rw [raises, Bool.and_eq_true, Bool.and_eq_true, Bool.not_eq_true', hseen] at hraises
      rw [hspan, spanWith_spanOf] at h
      rw [sincePass_snoc, hpass, if_neg Bool.false_ne_true]
      exact ⟨rfl, hraises.1.1, hraises.1.2, hraises.2, (Option.some.inj h).symm⟩
    · cases h

/-- An announcement holds until the file parses. -/
theorem announced_until_pass (h : noticeAt isClaimWriteFamily before call ≠ none)
    (hmid : ∀ c ∈ mid, c.passes = false) :
    (streakAfter isClaimWriteFamily (before ++ call :: mid)).regressionAnnounced = true := by
  induction mid using List.reverseRecOn with
  | nil =>
    obtain ⟨span, hspan⟩ := Option.ne_none_iff_exists'.mp h
    obtain ⟨hpass, hverdict, hseen, hannounced, -⟩ := notice_spec hspan
    obtain ⟨-, -, hnext, -⟩ :=
      notices_of_not_pass isClaimWriteFamily (streakAfter isClaimWriteFamily before) hpass
    rw [streakAfter_snoc, hnext, raises, hannounced, hverdict, (streakAfter_spec isClaimWriteFamily before).1, hseen]
    rfl
  | append_singleton mid c ih =>
    have hrest := ih fun c hc => hmid c (List.mem_append_left _ hc)
    obtain ⟨-, -, hnext, -⟩ := notices_of_not_pass isClaimWriteFamily
      (streakAfter isClaimWriteFamily (before ++ call :: mid)) (hmid c (List.mem_append_right _ List.mem_cons_self))
    rw [← List.cons_append, ← List.append_assoc, streakAfter_snoc, hnext, hrest, Bool.true_or]

/-- Notices come after a pass, at most one before the next, and name the culprit exactly where the span fits. -/
structure NoticesExact (isClaimWriteFamily : Text → Bool) (calls : List StructuralCall) : Prop where
  afterPass : ∀ before call after, calls = before ++ call :: after →
    noticeAt isClaimWriteFamily before call ≠ none → ∃ c ∈ before, c.passes = true
  once : ∀ before call mid call' after, calls = before ++ call :: (mid ++ call' :: after) →
    noticeAt isClaimWriteFamily before call ≠ none →
    noticeAt isClaimWriteFamily (before ++ call :: mid) call' ≠ none → ∃ c ∈ mid, c.passes = true
  names : ∀ before call after span, calls = before ++ call :: after →
    noticeAt isClaimWriteFamily before call = some span →
    (NamesCulprit (mutationLines isClaimWriteFamily (sincePass (before ++ [call])))
        (call.mutates isClaimWriteFamily) span ↔
      SpanFits (mutationLines isClaimWriteFamily (sincePass (before ++ [call]))) (call.mutates isClaimWriteFamily))

theorem regression_notices (isClaimWriteFamily : Text → Bool) (calls : List StructuralCall) :
    NoticesExact isClaimWriteFamily calls := by
  refine ⟨?_, ?_, ?_⟩
  · intro before call after _ hnotice
    obtain ⟨span, hspan⟩ := Option.ne_none_iff_exists'.mp hnotice
    exact List.any_eq_true.mp (notice_spec hspan).2.2.1
  · intro before call mid call' after _ hnotice hnotice'
    by_contra hnone
    obtain ⟨span, hspan⟩ := Option.ne_none_iff_exists'.mp hnotice'
    have hannounced := (notice_spec hspan).2.2.2.1
    rw [announced_until_pass hnotice fun c hc => Bool.not_eq_true _ ▸ fun hpass => hnone ⟨c, hc, hpass⟩] at hannounced
    cases hannounced
  · rintro before call after span _ hnotice
    rw [(notice_spec hnotice).2.2.2.2]
    refine names_iff fun line hline => ?_
    obtain ⟨c, -, rfl⟩ := List.mem_map.mp hline
    exact mutationLine_pos c.name []

/-- Behind 29 edits, the rewrite that broke the file is the one that is not named. -/
theorem rewrite_unnamed :
    let edits := List.replicate 29 (⟨"edit_file".toList, true, none⟩ : StructuralCall)
    let before := ⟨"write_file".toList, true, some (true, [])⟩ :: edits
    let call : StructuralCall := ⟨"write_file".toList, true, some (false, "unexpected end of file".toList)⟩
    let span : RegressionSpan := ⟨List.replicate 29 "`edit_file`".toList, 30⟩
    noticeAt (fun _ => true) before call = some span ∧
      ¬ NamesCulprit (mutationLines (fun _ => true) (sincePass (before ++ [call]))) true span := by
  intro edits before call span
  refine ⟨by decide +kernel, fun h => ?_⟩
  obtain ⟨line, hlast⟩ := h.culprit rfl
  have hunlisted : (recorded {} (mutationLines (fun _ => true) (sincePass (before ++ [call])))).getLast? =
      some ("`write_file`".toList, false) := by decide +kernel
  cases hunlisted.symm.trans hlast

end Nanna.Loop
