import Nanna.Llm.Ollama
import Nanna.Llm.OpenAi

/-!
# The block discipline of streams

`discipline_iff`: an Ollama stream starts every block once, adds only to the open one and stops it
before it ends, whatever the objects. A stream in the OpenAI form does so exactly when its fragments
are in order (`InOrder`): no text after a call that came after text, no call announced twice or under
the index of the text, no arguments of a call that was not announced. Text that resumes after a call
starts block 0 again (`text_after_call`).

The Ollama translator keeps one block open at a running index, which each fragment moves on
(`fragment_leads`). The other numbers the text 0 and a call by its own index; what it keeps is less
than what the monitor knows, so the proof remembers what was read (`Seen`).
-/

namespace Nanna.Llm

open Nanna.Lib

/-- What an event does to the blocks of a stream. -/
def blockAct : StreamEvent → BlockAct Nat String
  | .contentBlockStart index contentType _ _ => .start index contentType
  | .textDelta index _ => .delta index "text"
  | .thinkingDelta index _ => .delta index "thinking"
  | .signatureDelta index _ => .delta index "thinking"
  | .toolUseDelta index _ => .delta index "tool_use"
  | .contentBlockStop index => .stop index
  | .messageStop _ => .terminal
  | .messageStart .. | .messageDelta .. => .other

/-- An error ends a stream as a stop does. -/
def itemAct : StreamItem → BlockAct Nat String
  | .ok event => blockAct event
  | .error _ => .terminal

/-! ## OpenAI-compatible streams -/

/-- What was read so far: whether text came, whether a call came after text, and the calls. -/
structure Seen where
  text : Bool := false
  textEnded : Bool := false
  calls : List Nat := []

namespace Seen

/-- Text comes in one stretch, a call is announced once and under an index of its own, and arguments
belong to an announced call. -/
def Fits (seen : Seen) : Fragment → Prop
  | .text _ => seen.textEnded = false ∧ 0 ∉ seen.calls
  | .call index _ _ => index ∉ seen.calls ∧ (seen.text = true → index ≠ 0)
  | .args index _ => index ∈ seen.calls

instance (seen : Seen) : (fragment : Fragment) → Decidable (seen.Fits fragment)
  | .text _ => inferInstanceAs (Decidable (seen.textEnded = false ∧ 0 ∉ seen.calls))
  | .call index _ _ =>
    inferInstanceAs (Decidable (index ∉ seen.calls ∧ (seen.text = true → index ≠ 0)))
  | .args index _ => inferInstanceAs (Decidable (index ∈ seen.calls))

def note (seen : Seen) : Fragment → Seen
  | .text _ => { seen with text := true }
  | .call index _ _ => { seen with textEnded := seen.text, calls := index :: seen.calls }
  | .args _ _ => seen

/-- Block 0 is the text, until a call ends it; the calls stay open. -/
def blocks (seen : Seen) : Blocks Nat String := fun i =>
  if seen.text = true ∧ i = 0 then if seen.textEnded then .closed else .opened "text"
  else if i ∈ seen.calls then .opened "tool_use"
  else .fresh

/-- What was read is what the translator keeps. -/
structure KeptBy (state : OpenAiStreamState) (seen : Seen) : Prop where
  text : state.textBlockStarted = (seen.text && ! seen.textEnded)
  calls : ∀ i, i ∈ state.toolCallsStarted.rows.map (·.index) ↔ i ∈ seen.calls
  ended : seen.textEnded = true → seen.text = true
  apart : seen.text = true → 0 ∉ seen.calls

variable {state : OpenAiStreamState} {seen : Seen} {index : Nat}

/-- A step of the translator, seen by the monitor. -/
def StepFits (state : OpenAiStreamState) (seen : Seen) (fragment : Fragment) : Prop :=
  (seen.blocks.Accepts ((state.onFragment fragment).2.map blockAct) ↔ seen.Fits fragment) ∧
    (seen.Fits fragment → KeptBy (state.onFragment fragment).1 (seen.note fragment) ∧
      seen.blocks.after ((state.onFragment fragment).2.map blockAct) = (seen.note fragment).blocks)

/-- Started text is the text block. -/
theorem blocks_start_text (calls : List Nat) :
    Function.update (⟨false, false, calls⟩ : Seen).blocks 0 (.opened "text") =
      (⟨true, false, calls⟩ : Seen).blocks := by
  funext i
  by_cases hi : i = 0
  · rw [hi, Function.update_self]
    rfl
  · rw [Function.update_of_ne hi]
    simp [blocks, hi]

theorem KeptBy.text_fits (h : KeptBy state seen) (text : Text) : StepFits state seen (.text text) := by
  have htext := h.text
  have happart := h.apart
  have hended := h.ended
  obtain ⟨_ | _, _ | _, calls⟩ := seen
  · -- The first text opens block 0, which a call may have taken.
    have hevents : ((state.onFragment (.text text)).2.map blockAct) =
        [.start 0 "text", .delta 0 "text"] := by
      simp only [OpenAiStreamState.onFragment, show state.textBlockStarted = false from htext]
      rfl
    refine ⟨?_, fun hfits => ⟨⟨rfl, h.calls, fun _ => rfl, fun _ => hfits.2⟩, ?_⟩⟩
    · rw [hevents]
      simp [Blocks.Allows, Blocks.next, Fits, blocks]
    · rw [hevents]
      exact blocks_start_text calls
  · cases hended rfl
  · -- More text goes to the open block.
    have hevents : ((state.onFragment (.text text)).2.map blockAct) = [.delta 0 "text"] := by
      simp only [OpenAiStreamState.onFragment, show state.textBlockStarted = true from htext]
      rfl
    refine ⟨?_, fun hfits => ⟨⟨rfl, h.calls, hended, fun _ => hfits.2⟩, ?_⟩⟩
    · rw [hevents]
      simpa [Blocks.Allows, Blocks.next, Fits, blocks] using happart rfl
    · rw [hevents]
      rfl
  · -- After a call, block 0 would be started again.
    have hevents : ((state.onFragment (.text text)).2.map blockAct) =
        [.start 0 "text", .delta 0 "text"] := by
      simp only [OpenAiStreamState.onFragment, show state.textBlockStarted = false from htext]
      rfl
    refine ⟨?_, fun hfits => by cases hfits.1⟩
    rw [hevents]
    simp [Blocks.Allows, Fits, blocks]

/-- The blocks once the text has ended. -/
theorem blocks_end_text (calls : List Nat) :
    Function.update (⟨true, false, calls⟩ : Seen).blocks 0 .closed =
      (⟨true, true, calls⟩ : Seen).blocks := by
  funext i
  by_cases hi : i = 0
  · rw [hi, Function.update_self]
    rfl
  · rw [Function.update_of_ne hi]
    simp [blocks, hi]

/-- A call may start where it is new and not the text block. -/
theorem blocks_fresh_iff {text : Bool} {calls : List Nat} :
    (⟨text, text, calls⟩ : Seen).blocks index = .fresh ↔
      index ∉ calls ∧ (text = true → index ≠ 0) := by
  rw [blocks]
  split
  · rename_i hzero
    obtain ⟨rfl, rfl⟩ := hzero
    simp
  · rename_i hzero
    have hapart : text = true → index ≠ 0 := fun htext hindex => hzero ⟨htext, hindex⟩
    by_cases hmem : index ∈ calls
    · simp [hmem]
    · simpa [hmem] using hapart

theorem blocks_start_call {text : Bool} {calls : List Nat} (h : text = true → index ≠ 0) :
    Function.update (⟨text, text, calls⟩ : Seen).blocks index (.opened "tool_use") =
      (⟨text, text, index :: calls⟩ : Seen).blocks := by
  funext i
  by_cases hi : i = index
  · subst hi
    have hzero : ¬ (text = true ∧ i = 0) := fun hzero => h hzero.1 hzero.2
    rw [Function.update_self, blocks, if_neg hzero, if_pos List.mem_cons_self]
  · rw [Function.update_of_ne hi]
    simp [blocks, hi]

theorem KeptBy.call_fits (h : KeptBy state seen) (id name : Text) :
    StepFits state seen (.call index id name) := by
  have htext := h.text
  have hended := h.ended
  have hkept (hfits : seen.Fits (.call index id name)) :
      KeptBy (state.announce index id name).1 (seen.note (.call index id name)) := by
    refine ⟨?_, fun i => ?_, fun htext => htext, fun htext => ?_⟩
    · show false = (seen.text && ! seen.text)
      rw [Bool.and_not_self]
    · exact Table.mem_keys_insert.trans ((or_congr_right (h.calls i)).trans List.mem_cons.symm)
    · exact fun hmem => (List.mem_cons.mp hmem).elim (fun h0 => hfits.2 htext h0.symm) (h.apart htext)
  have hstart {text : Bool} {calls : List Nat} :
      ((⟨text, text, calls⟩ : Seen).blocks.Accepts [.start index "tool_use"] ↔
        index ∉ calls ∧ (text = true → index ≠ 0)) := (and_iff_left trivial).trans blocks_fresh_iff
  -- Without a text block nothing stands before the announcement.
  have hplain (hnone : state.textBlockStarted = false) :
      ((state.onFragment (.call index id name)).2.map blockAct) = [.start index "tool_use"] := by
    simp only [OpenAiStreamState.onFragment, OpenAiStreamState.announce, hnone]
    rfl
  obtain ⟨_ | _, _ | _, calls⟩ := seen
  · refine ⟨?_, fun hfits => ⟨hkept hfits, ?_⟩⟩
    · rw [hplain htext]
      exact hstart
    · rw [hplain htext]
      exact blocks_start_call hfits.2
  · cases hended rfl
  · -- The text block is stopped before the call is announced.
    have hevents : ((state.onFragment (.call index id name)).2.map blockAct) =
        [.stop 0, .start index "tool_use"] := by
      simp only [OpenAiStreamState.onFragment, OpenAiStreamState.announce,
        show state.textBlockStarted = true from htext]
      rfl
    refine ⟨?_, fun hfits => ⟨hkept hfits, ?_⟩⟩
    · rw [hevents, Blocks.accepts_cons, Blocks.next, blocks_end_text]
      exact (and_iff_right ⟨"text", rfl⟩).trans hstart
    · rw [hevents, Blocks.after_cons, Blocks.next, blocks_end_text]
      exact blocks_start_call hfits.2
  · refine ⟨?_, fun hfits => ⟨hkept hfits, ?_⟩⟩
    · rw [hplain htext]
      exact hstart
    · rw [hplain htext]
      exact blocks_start_call hfits.2

theorem KeptBy.args_fits (h : KeptBy state seen) (json : Text) :
    StepFits state seen (.args index json) := by
  have hiff : seen.blocks index = .opened "tool_use" ↔ index ∈ seen.calls := by
    rw [blocks]
    split
    · rename_i hzero
      have hapart := h.apart hzero.1
      split
      · simp [hzero.2, hapart]
      · simp [hzero.2, hapart]
    · split
      · rename_i hmem
        simp [hmem]
      · rename_i hmem
        simp [hmem]
  exact ⟨(and_iff_left trivial).trans hiff, fun _ => ⟨h, rfl⟩⟩

theorem KeptBy.fits (h : KeptBy state seen) (fragment : Fragment) :
    StepFits state seen fragment := by
  cases fragment with
  | text text => exact h.text_fits text
  | call index id name => exact h.call_fits id name
  | args index json => exact h.args_fits json

/-- The indices that closing stops. -/
def openIndices (state : OpenAiStreamState) : List Nat :=
  (if state.textBlockStarted then [0] else []) ++
    (state.toolCallsStarted.rows.map (·.index)).insertionSort (· ≤ ·)

theorem map_closeBlocks (state : OpenAiStreamState) :
    state.closeBlocks.map blockAct = (openIndices state).map .stop := by
  rw [OpenAiStreamState.closeBlocks, openIndices, List.map_append, List.map_append, List.map_map]
  cases state.textBlockStarted <;> rfl

theorem KeptBy.mem_openIndices (h : KeptBy state seen) (i : Nat) :
    i ∈ openIndices state ↔ ∃ kind, seen.blocks i = .opened kind := by
  have hcalls : i ∈ (state.toolCallsStarted.rows.map (·.index)).insertionSort (· ≤ ·) ↔
      i ∈ seen.calls := ((List.perm_insertionSort _ _).mem_iff).trans (h.calls i)
  have htext := h.text
  have happart := h.apart
  rw [openIndices, List.mem_append, hcalls, htext, blocks]
  obtain ⟨text, ended, calls⟩ := seen
  by_cases hzero : text = true ∧ i = 0
  · obtain ⟨rfl, rfl⟩ := hzero
    have hcall : 0 ∉ calls := happart rfl
    cases ended <;> simp [hcall]
  · rw [if_neg hzero]
    by_cases hmem : i ∈ calls
    · simp [hmem]
    · simpa [hmem] using fun htext _ hi => hzero ⟨htext, hi⟩

theorem KeptBy.nodup_openIndices (h : KeptBy state seen) : (openIndices state).Nodup := by
  have hnodup : ((state.toolCallsStarted.rows.map (·.index)).insertionSort (· ≤ ·)).Nodup :=
    (List.perm_insertionSort _ _).nodup_iff.mpr state.toolCallsStarted.nodup
  rw [openIndices]
  split
  · rename_i hopen
    have htext : seen.text = true := (Bool.and_eq_true_iff.mp (h.text ▸ hopen)).1
    refine List.nodup_cons.mpr ⟨fun hmem => h.apart htext ?_, hnodup⟩
    exact (h.calls 0).mp ((List.perm_insertionSort _ _).mem_iff.mp hmem)
  · exact hnodup

/-- Closing the blocks stops each open one, and leaves none. -/
theorem KeptBy.closes (h : KeptBy state seen) :
    seen.blocks.Accepts (state.closeBlocks.map blockAct ++ [.terminal]) := by
  obtain ⟨haccepts, hafter⟩ :=
    Blocks.accepts_stops h.nodup_openIndices fun i hi => (h.mem_openIndices i).mp hi
  rw [map_closeBlocks, Blocks.accepts_append]
  refine ⟨haccepts, fun i kind hopen => ?_, trivial⟩
  rw [hafter] at hopen
  split at hopen
  · cases hopen
  · rename_i hi
    exact hi ((h.mem_openIndices i).mpr ⟨kind, hopen⟩)

theorem keptBy_default : KeptBy {} {} :=
  ⟨rfl, fun _ => Iff.rfl, (fun h => nomatch h), (fun h => nomatch h)⟩

theorem blocks_default : (({} : Seen).blocks) = fun _ => .fresh := rfl

end Seen

/-- The stretch of text, the announcements and the arguments of a stream are in order. -/
def InOrder (fragments : List Fragment) : Prop := Along Seen.Fits Seen.note {} fragments

/-- A stream keeps the discipline exactly when what it brings is in order. -/
theorem openAi_disciplined (decode : Text → Option OpenAiStreamChunk) (lines : List Text) :
    Disciplined ((OpenAiStreamState.stream decode {} lines).map blockAct) ↔
      InOrder (reading decode lines).1 := by
  have hrun := @accepts_emits _ _ _ _ _ _ OpenAiStreamState.onFragment {} _ Seen.KeptBy Seen.blocks
    blockAct Seen.Fits Seen.note {} (reading decode lines).1
    (fun _ _ fragment h => h.fits fragment) Seen.keptBy_default
  rw [disciplined_iff, OpenAiStreamState.stream_eq, OpenAiStreamState.ending, List.map_append,
    Blocks.accepts_append, ← Seen.blocks_default, hrun.1, List.map_append]
  refine and_iff_left_iff_imp.mpr fun horder => ?_
  obtain ⟨hkept, hafter⟩ := hrun.2 horder
  rw [hafter]
  exact hkept.closes

/-! ## Ollama streams -/

namespace OllamaBlocks

/-- The kind of the open block. -/
def current (blocks : OllamaBlocks) : Option String :=
  if blocks.thinkingBlockStarted then some "thinking"
  else if blocks.textBlockStarted then some "text"
  else none

def phases (blocks : OllamaBlocks) : Blocks Nat String :=
  running blocks.nextBlockIndex blocks.current

/-- At most one block is open. -/
def OneOpen (blocks : OllamaBlocks) : Prop :=
  ¬ (blocks.thinkingBlockStarted = true ∧ blocks.textBlockStarted = true)

variable {env : OllamaEnv} {blocks : OllamaBlocks}

/-- Items that the monitor accepts in the phases of `blocks`, and after which it is in those of
`blocks'`. -/
def Leads (blocks : OllamaBlocks) (items : List StreamItem) (blocks' : OllamaBlocks) : Prop :=
  blocks.phases.Accepts (items.map itemAct) ∧ blocks'.OneOpen ∧
    blocks.phases.after (items.map itemAct) = blocks'.phases

theorem thinking_leads (h : blocks.OneOpen) (thinking : Text) :
    Leads blocks (blocks.emitThinking thinking).2 (blocks.emitThinking thinking).1 := by
  obtain ⟨_ | _, _ | _, count, index⟩ := blocks
  · simp [Leads, emitThinking, closeText, phases, current, OneOpen, itemAct, blockAct, Blocks.Allows]
  · simp [Leads, emitThinking, closeText, phases, current, OneOpen, itemAct, blockAct, Blocks.Allows]
  · simp [Leads, emitThinking, closeText, phases, current, OneOpen, itemAct, blockAct, Blocks.Allows]
  · exact absurd ⟨rfl, rfl⟩ h

theorem text_leads (h : blocks.OneOpen) (text : Text) :
    Leads blocks (blocks.emitText text).2 (blocks.emitText text).1 := by
  obtain ⟨_ | _, _ | _, count, index⟩ := blocks
  · simp [Leads, emitText, closeThinking, phases, current, OneOpen, itemAct, blockAct, Blocks.Allows]
  · simp [Leads, emitText, closeThinking, phases, current, OneOpen, itemAct, blockAct, Blocks.Allows]
  · simp [Leads, emitText, closeThinking, phases, current, OneOpen, itemAct, blockAct, Blocks.Allows]
  · exact absurd ⟨rfl, rfl⟩ h

/-- A call opens and stops a block of its own. -/
theorem call_leads (h : blocks.OneOpen) (tc : Json) :
    Leads blocks (blocks.onFragment env (.call tc)).2 (blocks.onFragment env (.call tc)).1 := by
  obtain ⟨_ | _, _ | _, count, index⟩ := blocks
  · simp [Leads, onFragment, onToolCall, closeText, closeThinking, phases, current, OneOpen, itemAct,
      blockAct, Blocks.Allows]
  · simp [Leads, onFragment, onToolCall, closeText, closeThinking, phases, current, OneOpen, itemAct,
      blockAct, Blocks.Allows]
  · simp [Leads, onFragment, onToolCall, closeText, closeThinking, phases, current, OneOpen, itemAct,
      blockAct, Blocks.Allows]
  · exact absurd ⟨rfl, rfl⟩ h

theorem segment_leads (h : blocks.OneOpen) (segment : ContentSegment) :
    Leads blocks (blocks.emitSegment segment).2 (blocks.emitSegment segment).1 := by
  cases segment with
  | thinking thinking => exact thinking_leads h thinking
  | text text => exact text_leads h text

theorem fragment_leads (h : blocks.OneOpen) (fragment : OllamaFragment) :
    Leads blocks (blocks.onFragment env fragment).2 (blocks.onFragment env fragment).1 := by
  cases fragment with
  | segment segment => exact segment_leads h segment
  | call tc => exact call_leads h tc

theorem Leads.nil (h : blocks.OneOpen) : Leads blocks [] blocks := ⟨trivial, h, rfl⟩

theorem Leads.append {blocks' blocks'' : OllamaBlocks} {items items' : List StreamItem}
    (h : Leads blocks items blocks') (h' : Leads blocks' items' blocks'') :
    Leads blocks (items ++ items') blocks'' := by
  obtain ⟨haccepts, -, hafter⟩ := h
  obtain ⟨haccepts', hone, hafter'⟩ := h'
  refine ⟨?_, hone, ?_⟩
  · rw [List.map_append, Blocks.accepts_append, hafter]
    exact ⟨haccepts, haccepts'⟩
  · rw [List.map_append, Blocks.after_append, hafter, hafter']

/-- What each step does, a run does. -/
theorem emits_lead {α : Type*} {step : OllamaBlocks → α → OllamaBlocks × List StreamItem}
    (hstep : ∀ blocks a, blocks.OneOpen → Leads blocks (step blocks a).2 (step blocks a).1)
    (h : blocks.OneOpen) (as : List α) :
    Leads blocks (emits step blocks as).2 (emits step blocks as).1 := by
  induction as generalizing blocks with
  | nil => exact .nil h
  | cons a as ih =>
    have hfirst := hstep blocks a h
    exact hfirst.append (ih hfirst.2.1)

theorem Leads.accepts_append {blocks' : OllamaBlocks} {items rest : List StreamItem}
    (h : Leads blocks items blocks')
    (hrest : blocks'.phases.Accepts (rest.map itemAct)) :
    blocks.phases.Accepts ((items ++ rest).map itemAct) := by
  rw [List.map_append, Blocks.accepts_append, h.2.2]
  exact ⟨h.1, hrest⟩

theorem closeOpen_stops (h : blocks.OneOpen) :
    blocks.phases.Accepts (blocks.closeOpen.map itemAct) ∧
      ∃ index, blocks.phases.after (blocks.closeOpen.map itemAct) = running index none := by
  obtain ⟨_ | _, _ | _, count, index⟩ := blocks
  · exact ⟨trivial, index, rfl⟩
  · exact ⟨⟨⟨"text", running_self⟩, trivial⟩, index + 1, next_stop⟩
  · exact ⟨⟨⟨"thinking", running_self⟩, trivial⟩, index + 1, next_stop⟩
  · exact absurd ⟨rfl, rfl⟩ h

/-- A stream may end once the open block is stopped, and report in between. -/
theorem ending_accepted (h : blocks.OneOpen) {reports : List StreamItem}
    (hreports : ∀ report ∈ reports, itemAct report = .other) (item : StreamItem)
    (hitem : itemAct item = .terminal) :
    blocks.phases.Accepts ((blocks.closeOpen ++ reports ++ [item]).map itemAct) := by
  obtain ⟨haccepts, index, hafter⟩ := closeOpen_stops h
  have hothers : reports.map itemAct = reports.map fun _ => .other :=
    List.map_congr_left hreports
  rw [List.append_assoc, List.map_append, Blocks.accepts_append, hafter, List.map_append, hothers]
  refine ⟨haccepts, ?_⟩
  clear hreports hothers
  induction reports with
  | nil =>
    rw [List.map_nil, List.nil_append, List.map_singleton, hitem]
    exact ⟨running_terminal, trivial⟩
  | cons report reports ih => exact ⟨trivial, ih⟩

theorem closeBoth_eq (h : blocks.OneOpen) : blocks.closeBoth = blocks.closeOpen := by
  obtain ⟨_ | _, _ | _, count, index⟩ := blocks
  · rfl
  · rfl
  · rfl
  · exact absurd ⟨rfl, rfl⟩ h

theorem closeInTurn_eq (h : blocks.OneOpen) : blocks.closeInTurn.2 = blocks.closeOpen := by
  obtain ⟨_ | _, _ | _, count, index⟩ := blocks
  · rfl
  · rfl
  · rfl
  · exact absurd ⟨rfl, rfl⟩ h

end OllamaBlocks

namespace OllamaStreamState

variable {env : OllamaEnv} {state : OllamaStreamState}

theorem flush_leads (h : state.blocks.OneOpen) :
    OllamaBlocks.Leads state.blocks state.flushContent.2 state.flushContent.1.blocks :=
  OllamaBlocks.emits_lead (fun _ segment h => OllamaBlocks.segment_leads h segment) h _

theorem usage_acts (obj : Json) : ∀ report ∈ usage obj, itemAct report = .other := by
  intro report hmem
  rw [usage] at hmem
  rcases List.mem_append.mp hmem with hmem | hmem
  · split at hmem
    · rw [List.mem_singleton.mp hmem]
      rfl
    · cases hmem
  · split at hmem
    · rw [List.mem_singleton.mp hmem]
      rfl
    · cases hmem

/-- The end of a message stops the open block, reports the usage and stops. -/
theorem onDone_accepted (h : state.blocks.OneOpen) (obj : Json) :
    state.blocks.phases.Accepts ((state.onDone obj).2.map itemAct) := by
  have hflush := flush_leads h
  have hend := hflush.accepts_append
    (OllamaBlocks.ending_accepted hflush.2.1 (usage_acts obj)
      (.ok (.messageStop state.flushContent.1.blocks.stopReason)) rfl)
  rw [← List.append_assoc, ← List.append_assoc] at hend
  simp only [onDone, OllamaBlocks.closeInTurn_eq hflush.2.1]
  exact hend

theorem finish_accepted (h : state.blocks.OneOpen) (buffer : Text) (lastLine : Option Text)
    (bytesReceived linesParsed : Nat) : state.blocks.phases.Accepts
      ((state.finish env buffer lastLine bytesReceived linesParsed).map itemAct) := by
  have hflush := flush_leads h
  have hstop := hflush.accepts_append
    (OllamaBlocks.ending_accepted hflush.2.1 (List.forall_mem_nil _)
      (.ok (.messageStop state.flushContent.1.blocks.stopReason)) rfl)
  rw [List.append_nil, ← List.append_assoc] at hstop
  rw [finish]
  split
  · exact hstop
  · split
    · simp only [OllamaBlocks.closeBoth_eq hflush.2.1]
      exact hstop
    · rw [OllamaBlocks.closeBoth_eq h]
      have hend := OllamaBlocks.ending_accepted h (List.forall_mem_nil _) (.error (.fromApiResponse env 502
        (abortedMessage buffer lastLine bytesReceived linesParsed))) rfl
      rwa [List.append_nil] at hend

theorem message_leads (h : state.blocks.OneOpen) (obj : Json) :
    OllamaBlocks.Leads state.blocks (state.onMessage env obj).2 (state.onMessage env obj).1.blocks := by
  rw [onMessage_eq]
  exact OllamaBlocks.emits_lead (fun _ fragment h => OllamaBlocks.fragment_leads h fragment) h _

/-- An object goes on with one open block at most, or ends the stream with none. -/
theorem object_accepted (h : state.blocks.OneOpen) (obj : Json) (bytesReceived : Nat) :
    state.blocks.phases.Accepts ((state.onObject env obj bytesReceived).2.1.map itemAct) ∧
      ((state.onObject env obj bytesReceived).2.2 = false →
        OllamaBlocks.Leads state.blocks (state.onObject env obj bytesReceived).2.1
          (state.onObject env obj bytesReceived).1.blocks) := by
  rw [onObject]
  split
  · rename_i fragment run _
    refine ⟨?_, by rintro ⟨⟩⟩
    have hend := OllamaBlocks.ending_accepted h (List.forall_mem_nil _)
      (.error (.wedgedRunner fragment run bytesReceived)) rfl
    rwa [List.append_nil] at hend
  · rename_i watch _
    have hlead := @message_leads env { state with repeatWatch := watch } h obj
    dsimp only
    split
    · exact ⟨hlead.accepts_append (onDone_accepted hlead.2.1 obj), by rintro ⟨⟩⟩
    · exact ⟨hlead.1, fun _ => hlead⟩

theorem stream_accepted (h : state.blocks.OneOpen) (bodyEnd : BodyEnd) (objs : List (Json × Nat)) :
    state.blocks.phases.Accepts ((state.stream env bodyEnd objs).map itemAct) := by
  induction objs generalizing state with
  | nil => exact finish_accepted h _ _ _ _
  | cons obj objs ih =>
    obtain ⟨haccepts, hlead⟩ := @object_accepted env state h obj.1 obj.2
    rw [stream]
    dsimp only
    split
    · exact haccepts
    · rename_i hgoes
      have hlead := hlead (Bool.eq_false_iff.mpr hgoes)
      exact hlead.accepts_append (ih hlead.2.1)

end OllamaStreamState

/-- **Main result.** A stream from Ollama keeps the block discipline. One in the OpenAI form keeps it
exactly when what it brings is in order. -/
theorem discipline_iff (decode : Text → Option OpenAiStreamChunk) (lines : List Text) (env : OllamaEnv)
    (bodyEnd : OllamaStreamState.BodyEnd) (objs : List (Json × Nat)) :
    (Disciplined ((OpenAiStreamState.stream decode {} lines).map blockAct) ↔
      InOrder (reading decode lines).1) ∧
    Disciplined ((OllamaStreamState.stream env bodyEnd {} objs).map itemAct) := by
  refine ⟨openAi_disciplined decode lines, disciplined_iff.mpr ?_⟩
  have hstream := @OllamaStreamState.stream_accepted env {} (fun h => Bool.false_ne_true h.1)
    bodyEnd objs
  rwa [OllamaBlocks.phases, show ({} : OllamaBlocks).current = none from rfl, running_zero] at hstream

/-- A chunk that brings text, as it is written and as it is read. -/
def textChunk (text : String) : Text × OpenAiStreamChunk :=
  ("\x7b\"choices\":[\x7b\"delta\":\x7b\"content\":\"".toList ++ text.toList ++ "\"\x7d\x7d]\x7d".toList,
    ⟨[⟨some ⟨some text.toList, none⟩, none⟩]⟩)

/-- A chunk that announces a call. -/
def callChunk (id name : String) : Text × OpenAiStreamChunk :=
  ("\x7b\"choices\":[\x7b\"delta\":\x7b\"tool_calls\":[\x7b\"index\":0,\"id\":\"".toList ++ id.toList ++
      "\",\"function\":\x7b\"name\":\"".toList ++ name.toList ++ "\"\x7d\x7d]\x7d\x7d]\x7d".toList,
    ⟨[⟨some ⟨none, some [⟨0, some id.toList, some ⟨some name.toList, none⟩⟩]⟩, none⟩]⟩)

/-- Text, a call, and text again: block 0 is started twice. -/
theorem text_after_call : ¬ ∀ (decode : Text → Option OpenAiStreamChunk) (lines : List Text),
    Disciplined ((OpenAiStreamState.stream decode {} lines).map blockAct) := by
  intro h
  let chunks := [textChunk "a", callChunk "c" "exec", textChunk "b"]
  have horder := (openAi_disciplined (fun data => chunks.lookup data)
    (chunks.map fun chunk => "data: ".toList ++ chunk.1)).mp (h _ _)
  exact absurd horder.2.2.1.1 (by decide)

end Nanna.Llm
