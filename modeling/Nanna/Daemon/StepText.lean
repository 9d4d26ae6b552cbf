import Nanna.Harness.Types
import Nanna.Lib.Utf8

/-!
# The text of consecutive steps

The steps of a harness run stream into one reply. `StepTextJoin` puts a paragraph break between two steps where
neither side has a blank, and keeps the span of the last step's text, for the caller to cut out an answer that
repeats the one before it.

`joined_and_cut`: what is emitted is the steps' texts woven together (`weave`), however each is cut into deltas, and
a repeat that is cut out leaves what would be emitted without the last step and the silent steps right before it.
The break that a silent step armed is spent by the step that is cut out, so harness text right behind it abuts the
text in front (`silent_step_break`).
-/

namespace Nanna.Daemon

open Nanna.Lib Nanna.Lib.Text
open Nanna.Harness (splitWhitespace)

def startsBlank (t : Text) : Bool := t.head?.any isWhitespace

def endsBlank (t : Text) : Bool := t.getLast?.any isWhitespace

def STEP_TEXT_SEPARATOR : Text := "\n\n".toList

structure StepTextJoin where
  endsWithWhitespace : Bool := false
  stepBreakPending : Bool := false
  previousStepText : Text := []
  currentStepText : Text := []
  stepsEnded : Bool := false
  emittedBytes : Nat := 0
  currentStepSpan : Option (Nat × Nat) := none
  deriving DecidableEq

namespace StepTextJoin

def beginStep (join : StepTextJoin) : StepTextJoin :=
  { join with
    stepBreakPending := true
    -- a step that said nothing does not displace the last one that did
    previousStepText := if trim join.currentStepText ≠ [] then join.currentStepText else join.previousStepText
    currentStepText := []
    currentStepSpan := none }

def endSteps (join : StepTextJoin) : StepTextJoin := { join with stepsEnded := true }

def repeatedLastStep (join : StepTextJoin) : Option (Text × Nat × Nat) := do
  let current := splitWhitespace join.currentStepText
  let previous := splitWhitespace join.previousStepText
  let (start, stop) ← join.currentStepSpan
  if current ≠ [] ∧ current = previous then some (join.currentStepText, start, stop) else none

def separatorBefore (join : StepTextJoin) (text : Text) : Text × StepTextJoin :=
  let needsBreak := join.stepBreakPending && decide (0 < join.emittedBytes) && !join.endsWithWhitespace &&
    !startsBlank text
  let separator := if needsBreak then STEP_TEXT_SEPARATOR else []
  let start := join.emittedBytes
  let emittedBytes := join.emittedBytes + (separator.byteLen + text.byteLen)
  let next := { join with stepBreakPending := false, endsWithWhitespace := endsBlank text, emittedBytes }
  (separator,
    if join.stepsEnded then next
    else { next with
      currentStepText := join.currentStepText ++ text
      currentStepSpan := some (join.currentStepSpan.elim start (·.1), emittedBytes) })

/-- `ChatSink::delta`: what goes to `emit_delta`; an empty delta is dropped. -/
def delta (join : StepTextJoin) (text : Text) : Text × StepTextJoin :=
  if text = [] then ([], join) else (((join.separatorBefore text).1 ++ text), (join.separatorBefore text).2)

end StepTextJoin

/-! ## A run -/

inductive StepEvent
  | beginStep
  | delta (text : Text)
  deriving DecidableEq

/-- The state and what is emitted so far. -/
def stepOn : StepTextJoin × Text → StepEvent → StepTextJoin × Text
  | (join, out), .beginStep => (join.beginStep, out)
  | (join, out), .delta text => ((join.delta text).2, out ++ (join.delta text).1)

def steps (body : List StepEvent) : StepTextJoin × Text := body.foldl stepOn ({}, [])

/-- The steps, the end of them, and the harness's own text. -/
def turn (body : List StepEvent) (closing : List Text) : StepTextJoin × Text :=
  (closing.map StepEvent.delta).foldl stepOn ((steps body).1.endSteps, (steps body).2)

def emitted (body : List StepEvent) (closing : List Text) : Text := (turn body closing).2

/-! ## What it says -/

def textOn : List Text × Text → StepEvent → List Text × Text
  | (earlier, current), .beginStep => (earlier ++ [current], [])
  | (earlier, current), .delta text => (earlier, current ++ text)

/-- The texts of the steps before the last, and the last one's. The first is what comes before any step. -/
def stepTexts (events : List StepEvent) : List Text × Text := events.foldl textOn ([], [])

/-- A break goes where neither side has a blank. -/
def seam (before after : Text) : Text :=
  if before = [] ∨ after = [] ∨ endsBlank before ∨ startsBlank after then [] else STEP_TEXT_SEPARATOR

def weave (texts : List Text) : Text := texts.foldl (fun out text => out ++ seam out text ++ text) []

def speaking (texts : List Text) : List Text := texts.filter fun text => decide (trim text ≠ [])

/-- The texts of the steps that said something. -/
def spoken (events : List StepEvent) : List Text := speaking ((stepTexts events).1 ++ [(stepTexts events).2])

/-- Begins a step, or says nothing. -/
def silent (event : StepEvent) : Bool := decide (event = .beginStep ∨ event = .delta [])

/-- The range of the last step's `text`, cut out of what is emitted between `pre` and `post`. -/
structure Cut (body : List StepEvent) (closing : List Text) (text : Text) (start stop : Nat)
    (front : List StepEvent) (pre mid post : Text) : Prop where
  last_step : ∃ deltas : List Text, body = front ++ .beginStep :: deltas.map .delta ∧ deltas.flatten = text
  speaks : trim text ≠ []
  whole : emitted body closing = pre ++ mid ++ post
  bounds : byteLen pre = start ∧ byteLen (pre ++ mid) = stop
  repeats : ∃ previous ∈ (spoken front).getLast?, splitWhitespace mid = splitWhitespace previous
  left : pre ++ post = emitted (front.rdropWhile silent) closing
  /-- What is left is emitted without the last step alone, unless a silent step's break is missing. -/
  left_iff : pre ++ post = emitted front closing ↔
    ¬((stepTexts front).2 = [] ∧ seam (emitted front []) closing.flatten ≠ [])

/-! ## Weaving -/

theorem seam_nil_left (after : Text) : seam [] after = [] := by simp [seam]

theorem seam_nil_right (before : Text) : seam before [] = [] := by simp [seam]

theorem seam_append {t : Text} (before : Text) (ht : t ≠ []) (u : Text) : seam before (t ++ u) = seam before t := by
  obtain ⟨c, cs, rfl⟩ := List.exists_cons_of_ne_nil ht
  simp [seam, startsBlank]

theorem weave_concat (texts : List Text) (t : Text) :
    weave (texts ++ [t]) = weave texts ++ seam (weave texts) t ++ t := by
  simp [weave]

theorem weave_concat_nil (texts : List Text) : weave (texts ++ [[]]) = weave texts := by
  rw [weave_concat, seam_nil_right, List.append_nil, List.append_nil]

theorem weave_concat_append {current : Text} (earlier : List Text) (hcurrent : current ≠ []) (text : Text) :
    weave (earlier ++ [current ++ text]) = weave (earlier ++ [current]) ++ text := by
  rw [weave_concat, weave_concat, seam_append _ hcurrent, List.append_assoc _ current text]

namespace StepTextJoin

variable (join : StepTextJoin) (text : Text)

@[simp] theorem separatorBefore_bytes : (join.separatorBefore text).2.emittedBytes =
    join.emittedBytes + ((join.separatorBefore text).1.byteLen + text.byteLen) := by
  unfold separatorBefore
  split <;> rfl

@[simp] theorem separatorBefore_blank : (join.separatorBefore text).2.endsWithWhitespace = endsBlank text := by
  unfold separatorBefore
  split <;> rfl

@[simp] theorem separatorBefore_pending : (join.separatorBefore text).2.stepBreakPending = false := by
  unfold separatorBefore
  split <;> rfl

theorem separatorBefore_stepsEnded : (join.separatorBefore text).2.stepsEnded = join.stepsEnded := by
  unfold separatorBefore
  split <;> rfl

variable {join} in
theorem separatorBefore_going (h : join.stepsEnded = false) (text : Text) :
    (join.separatorBefore text).2.currentStepText = join.currentStepText ++ text ∧
      (join.separatorBefore text).2.previousStepText = join.previousStepText ∧
      (join.separatorBefore text).2.currentStepSpan = some (join.currentStepSpan.elim join.emittedBytes (·.1),
        (join.separatorBefore text).2.emittedBytes) := by
  simp [separatorBefore, h]

variable {join} in
theorem separatorBefore_ended (h : join.stepsEnded = true) (text : Text) :
    (join.separatorBefore text).2.currentStepText = join.currentStepText ∧
      (join.separatorBefore text).2.previousStepText = join.previousStepText ∧
      (join.separatorBefore text).2.currentStepSpan = join.currentStepSpan := by
  simp [separatorBefore, h]

@[simp] theorem delta_nil : join.delta [] = ([], join) := rfl

variable {text}

theorem delta_of_ne_nil (h : text ≠ []) :
    join.delta text = ((join.separatorBefore text).1 ++ text, (join.separatorBefore text).2) := if_neg h

theorem delta_stepsEnded (text : Text) : (join.delta text).2.stepsEnded = join.stepsEnded := by
  unfold delta
  split
  · rfl
  · exact join.separatorBefore_stepsEnded text

end StepTextJoin

theorem endsBlank_append {t : Text} (s : Text) (ht : t ≠ []) : endsBlank (s ++ t) = endsBlank t := by
  rw [endsBlank, endsBlank, List.getLast?_append_of_ne_nil s ht]

/-! ## What is emitted -/

/-- The state knows the end of what it emitted, and the break is armed until the step speaks. -/
structure Emits (earlier : List Text) (current : Text) (join : StepTextJoin) (out : Text) : Prop where
  out_eq : out = weave (earlier ++ [current])
  bytes : join.emittedBytes = byteLen out
  blank : join.endsWithWhitespace = endsBlank out
  armed : current = [] → out ≠ [] → join.stepBreakPending = true
  spent : current ≠ [] → join.stepBreakPending = false

namespace Emits

variable {earlier : List Text} {current out : Text} {join : StepTextJoin}

theorem beginStep (h : Emits earlier current join out) : Emits (earlier ++ [current]) [] join.beginStep out where
  out_eq := by rw [weave_concat_nil, h.out_eq]
  bytes := h.bytes
  blank := h.blank
  armed _ _ := rfl
  spent hne := absurd rfl hne

theorem endSteps (h : Emits earlier current join out) : Emits earlier current join.endSteps out where
  out_eq := h.out_eq
  bytes := h.bytes
  blank := h.blank
  armed := h.armed
  spent := h.spent

/-- The separator is the seam, for the first text of a step; later there is none. -/
theorem separator_eq (h : Emits earlier current join out) {text : Text} (htext : text ≠ []) :
    (join.separatorBefore text).1 = if current = [] then seam out text else [] := by
  by_cases hcurrent : current = []
  · rw [if_pos hcurrent]
    by_cases hout : out = []
    · have hbytes : join.emittedBytes = 0 := by rw [h.bytes, hout, byteLen_nil]
      simp [StepTextJoin.separatorBefore, hbytes, hout, seam_nil_left]
    · have hbytes : 0 < join.emittedBytes := h.bytes ▸ byteLen_pos hout
      simp only [StepTextJoin.separatorBefore, h.armed hcurrent hout, hbytes, h.blank, seam, hout, htext]
      cases endsBlank out <;> cases startsBlank text <;> rfl
  · simp [StepTextJoin.separatorBefore, h.spent hcurrent, hcurrent]

theorem delta (h : Emits earlier current join out) (text : Text) :
    Emits earlier (current ++ text) (join.delta text).2 (out ++ (join.delta text).1) := by
  by_cases htext : text = []
  · rw [htext, StepTextJoin.delta_nil, List.append_nil, List.append_nil]
    exact h
  · have hseparator := h.separator_eq htext
    have hne : current ++ text ≠ [] := List.append_ne_nil_of_right_ne_nil _ htext
    rw [StepTextJoin.delta_of_ne_nil join htext]
    refine ⟨?_, ?_, ?_, fun hnil => absurd hnil hne, fun _ => join.separatorBefore_pending text⟩
    · show out ++ ((join.separatorBefore text).1 ++ text) = _
      by_cases hcurrent : current = []
      · rw [hseparator, if_pos hcurrent, h.out_eq, hcurrent, List.nil_append, weave_concat_nil, weave_concat,
          List.append_assoc]
      · rw [hseparator, if_neg hcurrent, h.out_eq, weave_concat_append earlier hcurrent, List.nil_append]
    · show (join.separatorBefore text).2.emittedBytes = _
      rw [StepTextJoin.separatorBefore_bytes, h.bytes, byteLen_append, byteLen_append]
    · show (join.separatorBefore text).2.endsWithWhitespace = _
      rw [StepTextJoin.separatorBefore_blank, ← List.append_assoc, endsBlank_append _ htext]

end Emits

/-! ## What is kept of the last step -/

/-- The current step's text with its span, and the text of the last step before it that spoke. -/
structure Remembers (earlier : List Text) (current : Text) (join : StepTextJoin) : Prop where
  current_eq : join.currentStepText = current
  previous_eq : join.previousStepText = (speaking earlier).getLast?.getD []
  span_eq : join.currentStepSpan =
    if current = [] then none else some (byteLen (weave earlier), byteLen (weave (earlier ++ [current])))

theorem speaking_concat (earlier : List Text) (t : Text) :
    speaking (earlier ++ [t]) = if trim t ≠ [] then speaking earlier ++ [t] else speaking earlier := by
  unfold speaking
  rw [List.filter_append]
  by_cases ht : trim t = [] <;> simp [ht]

namespace Remembers

variable {earlier : List Text} {current out : Text} {join : StepTextJoin}

theorem beginStep (h : Remembers earlier current join) : Remembers (earlier ++ [current]) [] join.beginStep where
  current_eq := rfl
  previous_eq := by
    show (if trim join.currentStepText ≠ [] then join.currentStepText else join.previousStepText) = _
    rw [h.current_eq, h.previous_eq, speaking_concat]
    split
    · rw [List.getLast?_concat, Option.getD_some]
    · rfl
  span_eq := (if_pos rfl).symm

theorem endSteps (h : Remembers earlier current join) : Remembers earlier current join.endSteps :=
  ⟨h.current_eq, h.previous_eq, h.span_eq⟩

/-- Before the end, the step's text and its span grow with what is emitted. -/
theorem delta (h : Remembers earlier current join) (hemits : Emits earlier current join out)
    (hgoing : join.stepsEnded = false) (text : Text) : Remembers earlier (current ++ text) (join.delta text).2 := by
  by_cases htext : text = []
  · rw [htext, StepTextJoin.delta_nil, List.append_nil]
    exact h
  · have hne : current ++ text ≠ [] := List.append_ne_nil_of_right_ne_nil _ htext
    have hbytes := (hemits.delta text).bytes
    have hout := (hemits.delta text).out_eq
    rw [StepTextJoin.delta_of_ne_nil join htext] at hbytes hout ⊢
    rw [hout] at hbytes
    obtain ⟨htext', hprevious, hspan⟩ := StepTextJoin.separatorBefore_going hgoing text
    refine ⟨?_, ?_, ?_⟩
    · show (join.separatorBefore text).2.currentStepText = _
      rw [htext', h.current_eq]
    · show (join.separatorBefore text).2.previousStepText = _
      rw [hprevious, h.previous_eq]
    · show (join.separatorBefore text).2.currentStepSpan = _
      rw [hspan, h.span_eq, if_neg hne, hbytes]
      by_cases hcurrent : current = []
      · -- the span opens in front of the separator
        rw [if_pos hcurrent, Option.elim_none, hemits.bytes, hemits.out_eq, hcurrent, weave_concat_nil]
      · rw [if_neg hcurrent, Option.elim_some]

/-- After the end, the harness's text is not the step's. -/
theorem delta_ended (h : Remembers earlier current join) (hended : join.stepsEnded = true) (text : Text) :
    Remembers earlier current (join.delta text).2 := by
  by_cases htext : text = []
  · rw [htext, StepTextJoin.delta_nil]
    exact h
  · obtain ⟨htext', hprevious, hspan⟩ := StepTextJoin.separatorBefore_ended hended text
    rw [StepTextJoin.delta_of_ne_nil join htext]
    exact ⟨htext'.trans h.current_eq, hprevious.trans h.previous_eq, hspan.trans h.span_eq⟩

end Remembers

/-! ## A whole run -/

theorem stepTexts_concat (events : List StepEvent) (event : StepEvent) :
    stepTexts (events ++ [event]) = textOn (stepTexts events) event := by
  rw [stepTexts, List.foldl_append]
  rfl

theorem steps_spec (body : List StepEvent) :
    Emits (stepTexts body).1 (stepTexts body).2 (steps body).1 (steps body).2 ∧
      Remembers (stepTexts body).1 (stepTexts body).2 (steps body).1 ∧ (steps body).1.stepsEnded = false := by
  induction body using List.reverseRecOn with
  | nil =>
    refine ⟨⟨rfl, rfl, rfl, fun _ hout => absurd rfl hout, fun hcurrent => absurd rfl hcurrent⟩, ⟨rfl, rfl, rfl⟩, rfl⟩
  | append_singleton body event ih =>
    obtain ⟨hemits, hremembers, hgoing⟩ := ih
    have hsteps : steps (body ++ [event]) = stepOn (steps body) event := by
      rw [steps, List.foldl_append]
      rfl
    rw [hsteps, stepTexts_concat]
    cases event with
    | beginStep => exact ⟨hemits.beginStep, hremembers.beginStep, hgoing⟩
    | delta text =>
      refine ⟨hemits.delta text, hremembers.delta hemits hgoing text, ?_⟩
      rw [← hgoing]
      exact StepTextJoin.delta_stepsEnded _ text

/-- The harness's text goes on from the last step's. -/
theorem turn_spec (body : List StepEvent) (closing : List Text) :
    Emits (stepTexts body).1 ((stepTexts body).2 ++ closing.flatten) (turn body closing).1 (turn body closing).2 ∧
      Remembers (stepTexts body).1 (stepTexts body).2 (turn body closing).1 ∧
      (turn body closing).1.stepsEnded = true := by
  induction closing using List.reverseRecOn with
  | nil =>
    obtain ⟨hemits, hremembers, -⟩ := steps_spec body
    rw [List.flatten_nil, List.append_nil]
    exact ⟨hemits.endSteps, hremembers.endSteps, rfl⟩
  | append_singleton closing text ih =>
    obtain ⟨hemits, hremembers, hended⟩ := ih
    have hturn : turn body (closing ++ [text]) = stepOn (turn body closing) (.delta text) := by
      rw [turn, List.map_append, List.foldl_append]
      rfl
    rw [hturn, List.flatten_append, List.flatten_singleton, ← List.append_assoc]
    refine ⟨hemits.delta text, hremembers.delta_ended hended text, ?_⟩
    rw [← hended]
    exact StepTextJoin.delta_stepsEnded _ text

/-! ## Words -/

theorem splitWhitespace_blank {c : Char} (hc : isWhitespace c = true) (t : Text) :
    splitWhitespace (c :: t) = splitWhitespace t := by
  unfold splitWhitespace
  rw [List.splitOnP_cons_eq_if_modifyHead, if_pos hc, List.filter_cons_of_neg (by simp)]

theorem splitWhitespace_seam (before t : Text) : splitWhitespace (seam before t ++ t) = splitWhitespace t := by
  unfold seam
  split
  · rfl
  · exact (splitWhitespace_blank rfl _).trans (splitWhitespace_blank rfl t)

theorem splitWhitespace_of_trim {t : Text} (ht : trim t = []) : splitWhitespace t = [] := by
  have hrest : t.dropWhile isWhitespace = [] := by
    have hall := List.rdropWhile_eq_nil_iff.mp ht
    have hhead := List.head?_dropWhile_not isWhitespace t
    cases hdrop : t.dropWhile isWhitespace with
    | nil => rfl
    | cons c cs =>
      rw [hdrop] at hall hhead
      simp [hall c List.mem_cons_self] at hhead
  have hblank := List.dropWhile_eq_nil_iff.mp hrest
  clear ht hrest
  induction t with
  | nil => rfl
  | cons c cs ih =>
    rw [splitWhitespace_blank (hblank c List.mem_cons_self)]
    exact ih fun d hd => hblank d (List.mem_cons_of_mem c hd)

/-! ## Cutting -/

theorem emitted_eq (body : List StepEvent) (closing : List Text) :
    emitted body closing = weave ((stepTexts body).1 ++ [(stepTexts body).2 ++ closing.flatten]) :=
  (turn_spec body closing).1.out_eq

theorem emitted_nil (body : List StepEvent) : emitted body [] = weave ((stepTexts body).1 ++ [(stepTexts body).2]) := by
  rw [emitted_eq, List.flatten_nil, List.append_nil]

/-- The harness's text follows the last step's without a break. -/
theorem emitted_of_spoken {body : List StepEvent} (h : (stepTexts body).2 ≠ []) (closing : List Text) :
    emitted body closing = emitted body [] ++ closing.flatten := by
  rw [emitted_eq, emitted_nil, weave_concat_append _ h]

/-- Behind a silent step it opens a paragraph. -/
theorem emitted_of_silent {body : List StepEvent} (h : (stepTexts body).2 = []) (closing : List Text) :
    emitted body closing = emitted body [] ++ seam (emitted body []) closing.flatten ++ closing.flatten := by
  rw [emitted_eq, emitted_nil, h, weave_concat_nil, List.nil_append, weave_concat]

theorem append_eq_emitted_iff (front : List StepEvent) (closing : List Text) :
    emitted front [] ++ closing.flatten = emitted front closing ↔
      ¬((stepTexts front).2 = [] ∧ seam (emitted front []) closing.flatten ≠ []) := by
  by_cases h : (stepTexts front).2 = []
  · have hwhole := emitted_of_silent h closing
    rw [hwhole, List.append_assoc, List.append_cancel_left_eq, List.self_eq_append_left]
    simp [h]
  · have hwhole := emitted_of_spoken h closing
    simp [hwhole, h]

theorem emitted_concat_silent (front : List StepEvent) {event : StepEvent} (h : silent event = true) :
    emitted (front ++ [event]) [] = emitted front [] := by
  rw [emitted_nil, emitted_nil, stepTexts_concat]
  rcases of_decide_eq_true h with rfl | rfl
  · exact weave_concat_nil _
  · show weave ((stepTexts front).1 ++ [(stepTexts front).2 ++ []]) = _
    rw [List.append_nil]

theorem emitted_dropSilent (front : List StepEvent) (closing : List Text) :
    emitted (front.rdropWhile silent) closing = emitted front [] ++ closing.flatten := by
  induction front using List.reverseRecOn with
  | nil => rw [List.rdropWhile_nil, emitted_of_silent rfl, emitted_nil]; rfl
  | append_singleton front event ih =>
    by_cases h : silent event = true
    · rw [List.rdropWhile_concat_pos _ _ _ h, ih, emitted_concat_silent front h]
    · rw [List.rdropWhile_concat_neg _ _ _ h]
      apply emitted_of_spoken
      cases event with
      | beginStep => exact absurd rfl h
      | delta text =>
        rw [stepTexts_concat]
        refine List.append_ne_nil_of_right_ne_nil _ fun htext => h ?_
        rw [htext]
        rfl

/-- A step with another before it was begun. -/
theorem exists_last_step {body : List StepEvent} (h : (stepTexts body).1 ≠ []) :
    ∃ front deltas, body = front ++ .beginStep :: List.map .delta deltas ∧ deltas.flatten = (stepTexts body).2 ∧
      (stepTexts front).1 ++ [(stepTexts front).2] = (stepTexts body).1 := by
  induction body using List.reverseRecOn with
  | nil => exact absurd rfl h
  | append_singleton body event ih =>
    rw [stepTexts_concat] at h ⊢
    cases event with
    | beginStep => exact ⟨body, [], rfl, rfl, rfl⟩
    | delta text =>
      obtain ⟨front, deltas, hbody, htext, hfront⟩ := ih h
      refine ⟨front, deltas ++ [text], ?_, ?_, hfront⟩
      · rw [hbody, List.map_append, List.append_assoc]
        rfl
      · rw [List.flatten_append, htext, List.flatten_singleton]
        rfl

theorem StepTextJoin.repeatedLastStep_eq_some {join : StepTextJoin} {text : Text} {start stop : Nat}
    (h : join.repeatedLastStep = some (text, start, stop)) :
    splitWhitespace text ≠ [] ∧ splitWhitespace text = splitWhitespace join.previousStepText ∧
      join.currentStepText = text ∧ join.currentStepSpan = some (start, stop) := by
  unfold repeatedLastStep at h
  cases hspan : join.currentStepSpan with
  | none => simp [hspan] at h
  | some span =>
    by_cases hrepeats : splitWhitespace join.currentStepText ≠ [] ∧
        splitWhitespace join.currentStepText = splitWhitespace join.previousStepText
    · simp only [hspan, Option.bind_eq_bind, Option.bind_some, if_pos hrepeats] at h
      obtain ⟨rfl, rfl⟩ : join.currentStepText = text ∧ span = (start, stop) := by simpa using h
      exact ⟨hrepeats.1, hrepeats.2, rfl, rfl⟩
    · simp [hspan, if_neg hrepeats] at h

theorem cut_of_repeatedLastStep {body : List StepEvent} {closing : List Text} {text : Text} {start stop : Nat}
    (h : (turn body closing).1.repeatedLastStep = some (text, start, stop)) :
    ∃ front pre mid post, Cut body closing text start stop front pre mid post := by
  obtain ⟨hwords, hrepeats, htext, hspan⟩ := StepTextJoin.repeatedLastStep_eq_some h
  obtain ⟨-, hremembers, -⟩ := turn_spec body closing
  rw [hremembers.current_eq] at htext
  rw [hremembers.previous_eq] at hrepeats
  rw [hremembers.span_eq] at hspan
  have hspeaks : trim text ≠ [] := fun htrim => hwords (splitWhitespace_of_trim htrim)
  have hcurrent : (stepTexts body).2 ≠ [] := by
    rintro hnil
    rw [htext] at hnil
    rw [hnil] at hwords
    exact hwords rfl
  -- a step before spoke the same words
  obtain ⟨previous, hprevious⟩ : ∃ previous, (speaking (stepTexts body).1).getLast? = some previous := by
    cases hlast : (speaking (stepTexts body).1).getLast? with
    | none => exact absurd (hrepeats.trans (by rw [hlast]; rfl)) hwords
    | some previous => exact ⟨previous, rfl⟩
  rw [hprevious, Option.getD_some] at hrepeats
  have hearlier : (stepTexts body).1 ≠ [] := by
    rintro hnil
    rw [hnil] at hprevious
    cases hprevious
  obtain ⟨front, deltas, hbody, hdeltas, hfront⟩ := exists_last_step hearlier
  have hpre : emitted front [] = weave (stepTexts body).1 := by rw [emitted_nil, hfront]
  have hwhole : weave ((stepTexts body).1 ++ [(stepTexts body).2]) =
      emitted front [] ++ (seam (emitted front []) text ++ text) := by
    rw [weave_concat, hpre, htext, List.append_assoc]
  rw [if_neg hcurrent, ← hpre, hwhole] at hspan
  obtain ⟨hstart, hstop⟩ := Prod.mk.inj (Option.some.inj hspan)
  refine ⟨front, emitted front [], seam (emitted front []) text ++ text, closing.flatten, ?_⟩
  exact
    { last_step := ⟨deltas, hbody, hdeltas.trans htext⟩
      speaks := hspeaks
      whole := by rw [emitted_of_spoken hcurrent, emitted_nil, hwhole]
      bounds := ⟨hstart, hstop⟩
      repeats := ⟨previous, by rw [spoken, hfront, hprevious]; rfl, by rw [splitWhitespace_seam, hrepeats]⟩
      left := (emitted_dropSilent front closing).symm
      left_iff := append_eq_emitted_iff front closing }

/-- **Main result.** -/
theorem joined_and_cut (body : List StepEvent) (closing : List Text) :
    emitted body closing = weave ((stepTexts body).1 ++ [(stepTexts body).2 ++ closing.flatten]) ∧
      (∀ body' closing', stepTexts body' = stepTexts body → closing'.flatten = closing.flatten →
        emitted body' closing' = emitted body closing) ∧
      ∀ text start stop, (turn body closing).1.repeatedLastStep = some (text, start, stop) →
        ∃ front pre mid post, Cut body closing text start stop front pre mid post := by
  refine ⟨emitted_eq body closing, ?_, fun text start stop h => cut_of_repeatedLastStep h⟩
  intro body' closing' hbody hclosing
  rw [emitted_eq, emitted_eq, hbody, hclosing]

/-- A step that says nothing comes before the repeat that is cut out. -/
theorem silent_step_break :
    let a := "a".toList
    let b := "b".toList
    let front := [.beginStep, .delta a, .beginStep]
    let body := front ++ [.beginStep, .delta a]
    (turn body [b]).1.repeatedLastStep = some (a, 1, 4) ∧
      emitted body [b] = a ++ "\n\na".toList ++ b ∧ emitted front [b] = "a\n\nb".toList ∧
      a ++ b ≠ emitted front [b] := by
  decide

end Nanna.Daemon
