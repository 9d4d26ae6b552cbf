import Nanna.Daemon.StepText
import Nanna.Daemon.Timeline
import Nanna.Lib.Moves

/-!
# A chat sink and the readers of its run

The callbacks of a sink run one after another. A callback sends its event and then writes to the run's buffers and
to the journal, one lock at a time; between two writes other tasks take a lock to read, or let it go. A buffer that
is being read is not written (`try_write`), and the journal waits.

`run_record`: the journal holds the text that was sent and one item for each call, with the call's own name and
outcome, in every run. The accumulated text is what was sent exactly where no reader holds it when it is written;
a delta that meets a reader is lost (`reader_loses_delta`).
-/

namespace Nanna.Daemon.ChatSink

open Nanna.Lib Nanna.Lib.Text

/-! ## The run's buffers -/

/-- A value behind a `RwLock`, and how many tasks are reading it. -/
structure RwLock (α : Type) where
  value : α
  readers : Nat := 0

/-- `try_write`: given up where the lock is held. -/
def RwLock.tryWrite {α : Type} (lock : RwLock α) (f : α → α) : RwLock α :=
  if lock.readers = 0 then { lock with value := f lock.value } else lock

def RwLock.read {α : Type} (lock : RwLock α) : RwLock α := { lock with readers := lock.readers + 1 }

def RwLock.release {α : Type} (lock : RwLock α) : RwLock α := { lock with readers := lock.readers - 1 }

structure ActiveToolCallInfo where
  callId : Text
  name : Text

structure CompletedToolCallInfo where
  callId : Text
  name : Text
  output : Text
  success : Bool
  durationMs : Nat

inductive StreamEvent
  | messageDelta (delta : Text)
  | thinkingDelta (delta : Text)
  | stepStarted (kind label : Text) (itemId : Int)
  | toolStart (callId name : Text) (input : Json)
  | toolEnd (callId output : Text) (success : Bool) (durationMs : Nat) (data : Option Json)

inductive JournalEntry
  | text (text : Text)
  | thinking (text : Text)
  | step (phase label : Text) (itemId : Int)
  | toolStart (callId name : Text) (input : Json)
  | toolEnd (callId name : Text) (record : ToolEndRecord)

def JournalEntry.write (items : List TimelineItem) : JournalEntry → List TimelineItem
  | .text chunk => journalText items chunk
  | .thinking chunk => journalThinking items chunk
  | .step phase label itemId => items ++ [.step phase label itemId]
  | .toolStart callId name input => timelineToolStart items callId name input 0 0
  | .toolEnd callId name record => timelineToolEnd items callId name record

/-- A write under one lock. -/
inductive Write
  | text (text : Text)
  | thinking (text : Text)
  | active (info : ActiveToolCallInfo)
  | inactive (callId : Text)
  | completed (info : CompletedToolCallInfo)
  | journal (entry : JournalEntry)

/-- A tool call, as the agent knows it. A call whose start was not reported has no input. -/
structure Call where
  callId : Text
  name : Text
  input : Option Json
  outcome : Option ToolEndRecord := none

def Call.isOpen (call : Call) : Bool := call.outcome.isNone

structure Run where
  join : StepTextJoin := {}
  events : List StreamEvent := []
  accumulatedText : RwLock Text := { value := [] }
  accumulatedThinking : RwLock Text := { value := [] }
  activeToolCalls : RwLock (List ActiveToolCallInfo) := { value := [] }
  completedToolCalls : RwLock (List CompletedToolCallInfo) := { value := [] }
  timeline : List TimelineItem := []
  /-- A reader has the journal. -/
  timelineHeld : Bool := false
  /-- What the callback under way has still to write. -/
  pending : List Write := []
  /-- The calls, by number; the sink sees only their ids. -/
  calls : List Call := []

/-! ## Callbacks -/

inductive Callback
  /-- `step_header`, with the banner of a step that is not quiet. -/
  | beginStep (banner : Option (Text × Text × Int))
  | delta (text : Text)
  | thinking (text : Text)
  | toolStart (callId name : Text) (input : Json)
  /-- The end of the call with this number. -/
  | toolEnd (call : Nat) (output : Text) (success : Bool) (durationMs : Nat) (data : Option Json)
  /-- The end of a call whose start was not reported. -/
  | strayEnd (callId name output : Text) (success : Bool) (durationMs : Nat) (data : Option Json)
  | endSteps

/-- `tool_end`. -/
def endTool (run : Run) (callId name output : Text) (success : Bool) (durationMs : Nat) (data : Option Json) : Run :=
  { run with
    events := run.events ++ [.toolEnd callId output success durationMs data]
    pending := [.inactive callId, .completed { callId, name, output, success, durationMs },
      .journal (.toolEnd callId name (.fromResult output success durationMs data))] }

/-- The event of a callback; its writes are still to come. -/
def enter (run : Run) : Callback → Run
  | .beginStep none => { run with join := run.join.beginStep }
  | .beginStep (some (kind, label, itemId)) =>
    { run with
      join := run.join.beginStep
      events := run.events ++ [.stepStarted kind label itemId]
      pending := [.journal (.step kind label itemId)] }
  | .delta text =>
    if text = [] then run
    else
      let joined := (run.join.delta text).1
      { run with
        join := (run.join.delta text).2
        events := run.events ++ [.messageDelta joined]
        pending := [.text joined, .journal (.text joined)] }
  | .thinking text =>
    if text = [] then run
    else
      { run with
        events := run.events ++ [.thinkingDelta text]
        pending := [.thinking text, .journal (.thinking text)] }
  | .toolStart callId name input =>
    { run with
      events := run.events ++ [.toolStart callId name input]
      pending := [.active { callId, name }, .journal (.toolStart callId name input)]
      calls := run.calls ++ [{ callId, name, input := some input }] }
  | .toolEnd number output success durationMs data =>
    match run.calls[number]? with
    | none => run
    | some call =>
      { endTool run call.callId call.name output success durationMs data with
        calls := run.calls.set number
          { call with outcome := some (.fromResult output success durationMs data) } }
  | .strayEnd callId name output success durationMs data =>
    { endTool run callId name output success durationMs data with
      calls := run.calls ++
        [{ callId, name, input := none, outcome := some (.fromResult output success durationMs data) }] }
  | .endSteps => { run with join := run.join.endSteps }

/-- A journal that is being read is waited for. -/
def perform (run : Run) : Write → Option Run
  | .text text => some { run with accumulatedText := run.accumulatedText.tryWrite (· ++ text) }
  | .thinking text => some { run with accumulatedThinking := run.accumulatedThinking.tryWrite (· ++ text) }
  | .active info => some { run with activeToolCalls := run.activeToolCalls.tryWrite (· ++ [info]) }
  | .inactive callId =>
    some { run with
      activeToolCalls := run.activeToolCalls.tryWrite fun calls => calls.filter fun t => decide (t.callId ≠ callId) }
  | .completed info => some { run with completedToolCalls := run.completedToolCalls.tryWrite (· ++ [info]) }
  | .journal entry => if run.timelineHeld then none else some { run with timeline := entry.write run.timeline }

/-! ## Runs -/

inductive Buffer
  | text
  | thinking
  | active
  | completed
  | timeline

def readBuffer (run : Run) : Buffer → Option Run
  | .text => some { run with accumulatedText := run.accumulatedText.read }
  | .thinking => some { run with accumulatedThinking := run.accumulatedThinking.read }
  | .active => some { run with activeToolCalls := run.activeToolCalls.read }
  | .completed => some { run with completedToolCalls := run.completedToolCalls.read }
  | .timeline => if run.timelineHeld then none else some { run with timelineHeld := true }

def releaseBuffer (run : Run) : Buffer → Run
  | .text => { run with accumulatedText := run.accumulatedText.release }
  | .thinking => { run with accumulatedThinking := run.accumulatedThinking.release }
  | .active => { run with activeToolCalls := run.activeToolCalls.release }
  | .completed => { run with completedToolCalls := run.completedToolCalls.release }
  | .timeline => { run with timelineHeld := false }

inductive Move
  | call (callback : Callback)
  | write
  | read (buffer : Buffer)
  | release (buffer : Buffer)

def step (run : Run) : Move → Option Run
  | .call callback => if run.pending.isEmpty then some (enter run callback) else none
  | .write =>
    match run.pending with
    | [] => none
    | w :: rest => (perform run w).map fun run => { run with pending := rest }
  | .read buffer => readBuffer run buffer
  | .release buffer => some (releaseBuffer run buffer)

/-- No call that is open has this id. -/
def Unused (run : Run) (callId : Text) : Prop := ∀ call ∈ run.calls, call.isOpen = true → call.callId ≠ callId

instance (run : Run) (callId : Text) : Decidable (Unused run callId) := inferInstanceAs (Decidable (∀ _ ∈ _, _))

/-- An id is used by one open call at a time, and a call ends once. -/
def Allowed (run : Run) : Move → Prop
  | .call (.toolStart callId _ _) => Unused run callId
  | .call (.toolEnd number _ _ _ _) => (run.calls[number]?).any Call.isOpen = true
  | .call (.strayEnd callId _ _ _ _ _) => Unused run callId
  | _ => True

instance (run : Run) : ∀ move, Decidable (Allowed run move)
  | .call (.toolStart callId _ _) => inferInstanceAs (Decidable (Unused run callId))
  | .call (.toolEnd number _ _ _ _) => inferInstanceAs (Decidable ((run.calls[number]?).any Call.isOpen = true))
  | .call (.strayEnd callId _ _ _ _ _) => inferInstanceAs (Decidable (Unused run callId))
  | .call (.beginStep _) | .call (.delta _) | .call (.thinking _) | .call .endSteps => .isTrue trivial
  | .write | .read _ | .release _ => .isTrue trivial

/-! ## The record -/

def StreamEvent.delta? : StreamEvent → Option Text
  | .messageDelta delta => some delta
  | _ => none

/-- The text that was sent. -/
def sent (events : List StreamEvent) : Text := (events.filterMap StreamEvent.delta?).flatten

/-- What the journal has of a call. -/
def Call.item (call : Call) : ToolItem :=
  let item : ToolItem := { callId := call.callId, name := call.name, input := call.input }
  call.outcome.elim item item.close

/-- Between two callbacks: both texts are what was sent, and each call has one item. -/
structure Recorded (run : Run) : Prop where
  accumulated : run.accumulatedText.value = sent run.events
  journal : texts run.timeline = sent run.events
  items : tools run.timeline = run.calls.map Call.item

def Write.text? : Write → Option Text
  | .text chunk => some chunk
  | _ => none

/-- A write to the text. -/
def writesText (run : Run) : Move → Bool
  | .write => (run.pending.head?.bind Write.text?).isSome
  | _ => false

/-- The text is written while a reader holds it. -/
def LosesText (run : Run) (move : Move) : Prop := writesText run move = true ∧ 0 < run.accumulatedText.readers

instance (run : Run) (move : Move) : Decidable (LosesText run move) := inferInstanceAs (Decidable (_ ∧ _))

/-! ## What is still to come -/

/-- The text that the callback has still to write. -/
def unwritten (pending : List Write) : Text := (pending.filterMap Write.text?).flatten

/-- The journal once the callback has written to it. -/
def journalled : List TimelineItem → List Write → List TimelineItem
  | items, [] => items
  | items, .journal entry :: rest => journalled (entry.write items) rest
  | items, _ :: rest => journalled items rest

/-- The buffer has all that was sent, up to what is still to come. -/
def TextKept (run : Run) : Prop := run.accumulatedText.value ++ unwritten run.pending = sent run.events

/-- What holds whatever the readers do. -/
structure Coherent (run : Run) : Prop where
  journal : texts (journalled run.timeline run.pending) = sent run.events
  items : tools (journalled run.timeline run.pending) = run.calls.map Call.item
  distinct : run.calls.Pairwise fun a b => a.isOpen = true → b.isOpen = true → a.callId ≠ b.callId
  within : (run.accumulatedText.value ++ unwritten run.pending).length ≤ (sent run.events).length
  nonempty : ∀ w ∈ run.pending, w.text? ≠ some []

theorem Coherent.start : Coherent {} where
  journal := rfl
  items := rfl
  distinct := .nil
  within := Nat.le_refl 0
  nonempty := by simp

theorem sent_concat (events : List StreamEvent) (event : StreamEvent) :
    sent (events ++ [event]) = sent events ++ event.delta?.getD [] := by
  unfold sent
  rw [List.filterMap_append, List.flatten_append]
  cases event <;> simp [StreamEvent.delta?]

theorem Call.awaits_item (call : Call) (callId : Text) :
    call.item.awaits callId = (decide (call.callId = callId) && call.isOpen) := by
  unfold Call.item Call.isOpen ToolItem.awaits
  cases call.outcome <;> rfl

theorem not_awaits_of_unused {run : Run} {callId : Text} (h : Unused run callId) :
    ∀ item ∈ run.calls.map Call.item, item.awaits callId = false := by
  intro item hitem
  obtain ⟨call, hcall, rfl⟩ := List.mem_map.mp hitem
  rw [Call.awaits_item]
  by_cases hopen : call.isOpen = true
  · simp [h call hcall hopen]
  · simp [hopen]

/-! ## The start of a callback -/

/-- What a callback that sends the text `t` starts. -/
structure Entered (run run' : Run) (t : Text) : Prop where
  accumulated : run'.accumulatedText = run.accumulatedText
  sends : sent run'.events = sent run.events ++ t
  unwritten_eq : unwritten run'.pending = t
  journal : texts (journalled run'.timeline run'.pending) = texts run.timeline ++ t
  items : tools (journalled run'.timeline run'.pending) = run'.calls.map Call.item
  distinct : run'.calls.Pairwise fun a b => a.isOpen = true → b.isOpen = true → a.callId ≠ b.callId
  nonempty : ∀ w ∈ run'.pending, w.text? ≠ some []

section Enter

variable {run : Run} (h : Coherent run) (hidle : run.pending = [])
include h hidle

theorem Coherent.items_idle : tools run.timeline = run.calls.map Call.item := by
  have hitems := h.items
  rwa [hidle] at hitems

theorem Coherent.journal_idle : texts run.timeline = sent run.events := by
  have hjournal := h.journal
  rwa [hidle] at hjournal

/-- A callback that neither sends text nor starts or ends a call. -/
theorem Coherent.enter_same {run' : Run} (haccumulated : run'.accumulatedText = run.accumulatedText)
    (hevents : sent run'.events = sent run.events) (hcalls : run'.calls = run.calls)
    (hunwritten : unwritten run'.pending = []) (hnonempty : ∀ w ∈ run'.pending, w.text? ≠ some [])
    (htexts : texts (journalled run'.timeline run'.pending) = texts run.timeline)
    (htools : tools (journalled run'.timeline run'.pending) = tools run.timeline) : Entered run run' [] where
  accumulated := haccumulated
  sends := by rw [hevents, List.append_nil]
  unwritten_eq := hunwritten
  journal := by rw [htexts, List.append_nil]
  items := by rw [htools, h.items_idle hidle, hcalls]
  distinct := hcalls ▸ h.distinct
  nonempty := hnonempty

theorem Coherent.enter_delta {text : Text} (htext : text ≠ []) :
    ∃ t, Entered run (enter run (.delta text)) t := by
  have hjoined : (run.join.delta text).1 ≠ [] := by
    rw [StepTextJoin.delta_of_ne_nil _ htext]
    exact List.append_ne_nil_of_right_ne_nil _ htext
  refine ⟨(run.join.delta text).1, ?_⟩
  rw [enter, if_neg htext]
  exact
    { accumulated := rfl
      sends := sent_concat _ _
      unwritten_eq := by simp [unwritten, Write.text?]
      journal := texts_journalText _ _
      items := (tools_journalText _ _).trans (h.items_idle hidle)
      distinct := h.distinct
      nonempty := by simp [Write.text?, hjoined] }

theorem Coherent.enter_toolStart {callId : Text} (name : Text) (input : Json) (hunused : Unused run callId) :
    Entered run (enter run (.toolStart callId name input)) [] where
  accumulated := rfl
  sends := sent_concat _ _
  unwritten_eq := rfl
  journal := texts_concat _ _
  items := by
    show tools (run.timeline ++ [_]) = (run.calls ++ [_]).map Call.item
    rw [tools_concat, h.items_idle hidle, List.map_append]
    rfl
  distinct := by
    refine List.pairwise_append.mpr ⟨h.distinct, List.pairwise_singleton _ _, ?_⟩
    intro call hcall started hstarted hopen _
    rw [List.mem_singleton.mp hstarted]
    exact hunused call hcall hopen
  nonempty := by simp [enter, Write.text?]

theorem Coherent.enter_strayEnd {callId : Text} (name output : Text) (success : Bool) (durationMs : Nat)
    (data : Option Json) (hunused : Unused run callId) :
    Entered run (enter run (.strayEnd callId name output success durationMs data)) [] where
  accumulated := rfl
  sends := sent_concat _ _
  unwritten_eq := rfl
  journal := (texts_timelineToolEnd _ _).trans (List.append_nil _).symm
  items := by
    show tools (timelineToolEnd run.timeline callId name _) = (run.calls ++ [_]).map Call.item
    rw [tools_timelineToolEnd_of_none, h.items_idle hidle, List.map_append]
    · rfl
    · rw [h.items_idle hidle]
      exact not_awaits_of_unused hunused
  distinct := by
    refine List.pairwise_append.mpr ⟨h.distinct, List.pairwise_singleton _ _, ?_⟩
    intro call _ ended hended _ hopen
    rw [List.mem_singleton.mp hended] at hopen
    cases hopen
  nonempty := by simp [enter, endTool, Write.text?]

theorem Coherent.enter_toolEnd {number : Nat} {call : Call} (hcall : run.calls[number]? = some call)
    (hopen : call.isOpen = true) (output : Text) (success : Bool) (durationMs : Nat) (data : Option Json) :
    Entered run (enter run (.toolEnd number output success durationMs data)) [] := by
  obtain ⟨before, after, hsplit, hset⟩ : ∃ before after, run.calls = before ++ call :: after ∧
      ∀ call', run.calls.set number call' = before ++ call' :: after := by
    obtain ⟨hlt, hget⟩ := List.getElem?_eq_some_iff.mp hcall
    refine ⟨run.calls.take number, run.calls.drop (number + 1), ?_, fun call' => ?_⟩
    · rw [← hget, List.cons_getElem_drop_succ, List.take_append_drop]
    · rw [List.set_eq_take_append_cons_drop, if_pos hlt]
  have hdistinct := h.distinct
  rw [hsplit, List.pairwise_append, List.pairwise_cons] at hdistinct
  obtain ⟨hbefore, ⟨hcallAfter, hafter⟩, hacross⟩ := hdistinct
  have hawaits : call.item.awaits call.callId = true := by simp [Call.awaits_item, hopen]
  -- the ids of the calls after it that are open differ
  have hlater : ∀ item ∈ after.map Call.item, item.awaits call.callId = false := by
    intro item hitem
    obtain ⟨other, hother, rfl⟩ := List.mem_map.mp hitem
    rw [Call.awaits_item]
    by_cases hotherOpen : other.isOpen = true
    · simp [(hcallAfter other hother hopen hotherOpen).symm]
    · simp [hotherOpen]
  have htools : tools run.timeline = before.map Call.item ++ call.item :: after.map Call.item := by
    rw [h.items_idle hidle, hsplit, List.map_append, List.map_cons]
  rw [enter, hcall]
  refine ⟨rfl, sent_concat _ _, rfl, (texts_timelineToolEnd _ _).trans (List.append_nil _).symm, ?_, ?_,
    by simp [endTool, Write.text?]⟩
  · show tools (timelineToolEnd run.timeline call.callId call.name _) = (run.calls.set number _).map Call.item
    rw [tools_timelineToolEnd _ _ htools hawaits hlater, hset, List.map_append, List.map_cons]
    have hnone : call.outcome = none := Option.isNone_iff_eq_none.mp hopen
    simp [Call.item, hnone]
  · show (run.calls.set number _).Pairwise _
    rw [hset, List.pairwise_append, List.pairwise_cons]
    refine ⟨hbefore, ⟨?_, hafter⟩, ?_⟩
    · rintro other - ⟨⟩
    · intro a ha b hb hopenA hopenB
      rcases List.mem_cons.mp hb with rfl | hb
      · cases hopenB
      · exact hacross a ha b (List.mem_cons_of_mem _ hb) hopenA hopenB

/-- A callback that sends and writes nothing. -/
theorem Coherent.enter_join (join : StepTextJoin) : Entered run { run with join } [] := by
  refine h.enter_same hidle rfl rfl rfl ?_ ?_ ?_ ?_ <;> simp [hidle, unwritten, journalled]

/-- What a callback starts. -/
theorem Coherent.enter {callback : Callback} (hallowed : Allowed run (.call callback)) :
    ∃ t, Entered run (enter run callback) t := by
  cases callback with
  | beginStep banner =>
    refine ⟨[], ?_⟩
    cases banner with
    | none => exact h.enter_join hidle run.join.beginStep
    | some banner =>
      refine h.enter_same hidle rfl ?_ rfl rfl (by simp [ChatSink.enter, Write.text?]) ?_ ?_
      · exact (sent_concat _ _).trans (List.append_nil _)
      · exact (texts_concat _ _).trans (List.append_nil _)
      · exact (tools_concat _ _).trans (List.append_nil _)
  | delta text =>
    by_cases htext : text = []
    · rw [ChatSink.enter, if_pos htext]
      exact ⟨[], h.enter_join hidle run.join⟩
    · exact h.enter_delta hidle htext
  | thinking text =>
    refine ⟨[], ?_⟩
    by_cases htext : text = []
    · rw [ChatSink.enter, if_pos htext]
      exact h.enter_join hidle run.join
    · rw [ChatSink.enter, if_neg htext]
      refine h.enter_same hidle rfl ?_ rfl rfl (by simp [Write.text?]) ?_ ?_
      · exact (sent_concat _ _).trans (List.append_nil _)
      · exact texts_journalThinking run.timeline text
      · exact tools_journalThinking run.timeline text
  | toolStart callId name input => exact ⟨[], h.enter_toolStart hidle name input hallowed⟩
  | toolEnd number output success durationMs data =>
    obtain ⟨call, hcall, hopen⟩ := (Option.any_eq_true _ _).mp hallowed
    exact ⟨[], h.enter_toolEnd hidle hcall hopen output success durationMs data⟩
  | strayEnd callId name output success durationMs data =>
    exact ⟨[], h.enter_strayEnd hidle name output success durationMs data hallowed⟩
  | endSteps => exact ⟨[], h.enter_join hidle run.join.endSteps⟩

end Enter

theorem Entered.coherent {run run' : Run} {t : Text} (h : Coherent run) (hidle : run.pending = [])
    (hentered : Entered run run' t) : Coherent run' where
  journal := by rw [hentered.journal, hentered.sends, h.journal_idle hidle]
  items := hentered.items
  distinct := hentered.distinct
  within := by
    have hwithin := h.within
    rw [hidle] at hwithin
    rw [hentered.accumulated, hentered.unwritten_eq, hentered.sends, List.length_append, List.length_append]
    simpa [unwritten] using hwithin
  nonempty := hentered.nonempty

theorem Entered.textKept_iff {run run' : Run} {t : Text} (hidle : run.pending = []) (hentered : Entered run run' t) :
    TextKept run' ↔ TextKept run := by
  unfold TextKept
  rw [hentered.accumulated, hentered.unwritten_eq, hentered.sends, hidle, List.append_cancel_right_eq]
  simp [unwritten]

/-! ## One step -/

/-- What a write does to the accumulated text. -/
def textAfter (lock : RwLock Text) : Option Text → RwLock Text
  | some chunk => lock.tryWrite (· ++ chunk)
  | none => lock

/-- The first write of the callback. -/
structure Written (run run' : Run) (w : Write) (rest : List Write) : Prop where
  before : run.pending = w :: rest
  after : run'.pending = rest
  events : run'.events = run.events
  calls : run'.calls = run.calls
  journal : journalled run'.timeline run'.pending = journalled run.timeline run.pending
  accumulated : run'.accumulatedText = textAfter run.accumulatedText w.text?

/-- All but who is reading. -/
structure Untouched (run run' : Run) : Prop where
  events : run'.events = run.events
  calls : run'.calls = run.calls
  timeline : run'.timeline = run.timeline
  pending : run'.pending = run.pending
  accumulated : run'.accumulatedText.value = run.accumulatedText.value

section Steps

variable {run run' : Run} {move : Move}

theorem perform_written {w : Write} {rest : List Write} (hpending : run.pending = w :: rest)
    (h : perform run w = some run') : Written run { run' with pending := rest } w rest := by
  cases w with
  | journal entry =>
    rw [perform] at h
    split at h
    · cases h
    · obtain rfl := Option.some.inj h
      exact ⟨hpending, rfl, rfl, rfl, by rw [hpending]; rfl, rfl⟩
  | _ =>
    obtain rfl := Option.some.inj h
    exact ⟨hpending, rfl, rfl, rfl, by rw [hpending]; rfl, rfl⟩

theorem readBuffer_untouched {buffer : Buffer} (h : readBuffer run buffer = some run') : Untouched run run' := by
  cases buffer with
  | timeline =>
    rw [readBuffer] at h
    split at h
    · cases h
    · obtain rfl := Option.some.inj h
      exact ⟨rfl, rfl, rfl, rfl, rfl⟩
  | _ =>
    obtain rfl := Option.some.inj h
    exact ⟨rfl, rfl, rfl, rfl, rfl⟩

theorem releaseBuffer_untouched (buffer : Buffer) : Untouched run (releaseBuffer run buffer) := by
  cases buffer <;> exact ⟨rfl, rfl, rfl, rfl, rfl⟩

/-- A callback starts, or it writes, or a reader comes or goes. -/
theorem step_cases (h : step run move = some run') :
    (∃ callback, move = .call callback ∧ run.pending = [] ∧ run' = enter run callback) ∨
      (∃ w rest, move = .write ∧ Written run run' w rest) ∨ (¬LosesText run move ∧ Untouched run run') := by
  cases move with
  | call callback =>
    rw [step] at h
    split at h
    · rename_i hidle
      exact .inl ⟨callback, rfl, List.isEmpty_iff.mp hidle, (Option.some.inj h).symm⟩
    · cases h
  | write =>
    rw [step] at h
    cases hpending : run.pending with
    | nil =>
      rw [hpending] at h
      cases h
    | cons w rest =>
      rw [hpending] at h
      obtain ⟨performed, hperform, rfl⟩ := Option.map_eq_some_iff.mp h
      exact .inr (.inl ⟨w, rest, rfl, perform_written hpending hperform⟩)
  | read buffer => exact .inr (.inr ⟨fun hloses => Bool.false_ne_true hloses.1, readBuffer_untouched h⟩)
  | release buffer =>
    obtain rfl := Option.some.inj h
    exact .inr (.inr ⟨fun hloses => Bool.false_ne_true hloses.1, releaseBuffer_untouched buffer⟩)

theorem unwritten_cons (w : Write) (rest : List Write) : unwritten (w :: rest) = w.text?.getD [] ++ unwritten rest := by
  cases w <;> rfl

/-- A write loses nothing, or its chunk. -/
theorem Written.accumulated_or {w : Write} {rest : List Write} (h : Written run run' w rest) :
    (¬LosesText run .write ∧
        run'.accumulatedText.value ++ unwritten run'.pending = run.accumulatedText.value ++ unwritten run.pending) ∨
      LosesText run .write ∧ ∃ chunk, w.text? = some chunk ∧
        run.accumulatedText.value ++ unwritten run.pending =
          run'.accumulatedText.value ++ (chunk ++ unwritten run'.pending) := by
  have haccumulated := h.accumulated
  rw [h.before, h.after, unwritten_cons]
  unfold LosesText writesText
  rw [h.before]
  cases w with
  | text chunk =>
    rw [Write.text?, textAfter, RwLock.tryWrite] at haccumulated
    by_cases hreaders : run.accumulatedText.readers = 0
    · rw [if_pos hreaders] at haccumulated
      refine .inl ⟨by simp [hreaders], ?_⟩
      rw [haccumulated, List.append_assoc]
      rfl
    · rw [if_neg hreaders] at haccumulated
      exact .inr ⟨⟨rfl, Nat.pos_of_ne_zero hreaders⟩, chunk, rfl, by rw [haccumulated]; rfl⟩
  | _ => exact .inl ⟨fun hloses => Bool.false_ne_true hloses.1, by rw [haccumulated]; rfl⟩

theorem Coherent.step (h : Coherent run) (hallowed : Allowed run move) (hstep : ChatSink.step run move = some run') :
    Coherent run' := by
  rcases step_cases hstep with ⟨callback, rfl, hidle, rfl⟩ | ⟨w, rest, rfl, hwritten⟩ | ⟨-, hsame⟩
  · obtain ⟨t, hentered⟩ := h.enter hidle hallowed
    exact hentered.coherent h hidle
  · refine ⟨?_, ?_, hwritten.calls ▸ h.distinct, ?_, ?_⟩
    · rw [hwritten.journal, hwritten.events, h.journal]
    · rw [hwritten.journal, hwritten.calls, h.items]
    · have hwithin := h.within
      rw [hwritten.events]
      rcases hwritten.accumulated_or with ⟨-, heq⟩ | ⟨-, chunk, -, heq⟩
      · rwa [heq]
      · rw [heq] at hwithin
        simp only [List.length_append] at hwithin ⊢
        omega
    · intro other hother
      rw [hwritten.after] at hother
      exact h.nonempty other (hwritten.before ▸ List.mem_cons_of_mem w hother)
  · refine ⟨?_, ?_, hsame.calls ▸ h.distinct, ?_, hsame.pending ▸ h.nonempty⟩
    · rw [hsame.timeline, hsame.pending, hsame.events, h.journal]
    · rw [hsame.timeline, hsame.pending, hsame.calls, h.items]
    · rw [hsame.accumulated, hsame.pending, hsame.events]
      exact h.within

/-- A text that is lost once stays lost. -/
theorem textKept_step (h : Coherent run) (hallowed : Allowed run move) (hstep : ChatSink.step run move = some run') :
    TextKept run' ↔ TextKept run ∧ ¬LosesText run move := by
  rcases step_cases hstep with ⟨callback, rfl, hidle, rfl⟩ | ⟨w, rest, rfl, hwritten⟩ | ⟨hkeeps, hsame⟩
  · obtain ⟨t, hentered⟩ := h.enter hidle hallowed
    rw [hentered.textKept_iff hidle]
    exact (and_iff_left fun hloses => Bool.false_ne_true hloses.1).symm
  · unfold TextKept
    rw [hwritten.events]
    rcases hwritten.accumulated_or with ⟨hkeeps, heq⟩ | ⟨hloses, chunk, hchunk, heq⟩
    · rw [heq]
      exact (and_iff_left hkeeps).symm
    · -- what is left is shorter than what was sent
      have hwithin := h.within
      have hne : chunk ≠ [] := by
        rintro rfl
        exact h.nonempty w (hwritten.before ▸ List.mem_cons_self) hchunk
      have hpos : 0 < chunk.length := List.length_pos_of_ne_nil hne
      refine ⟨fun hkept => ?_, fun hkept => absurd hloses hkept.2⟩
      rw [heq, ← hkept] at hwithin
      simp only [List.length_append] at hwithin
      omega
  · unfold TextKept
    rw [hsame.accumulated, hsame.pending, hsame.events]
    exact (and_iff_left hkeeps).symm

end Steps

/-! ## Every run -/

theorem run_coherent {moves : List Move} {run : Run} (h : runActs step Allowed {} moves = some run) : Coherent run :=
  (Moves.of_acts h).invariant (fun hallowed hstep hcoherent => hcoherent.step hallowed hstep) .start

/-- **Main result.** In every run the journal has what was sent and an item for each call, up to what the callback
under way has still to write; the accumulated text has it too exactly where it was never written under a reader. -/
theorem run_record {moves : List Move} {run : Run} (h : runActs step Allowed {} moves = some run) :
    texts (journalled run.timeline run.pending) = sent run.events ∧
      tools (journalled run.timeline run.pending) = run.calls.map Call.item ∧
      (TextKept run ↔ AlongActs step (fun run move => ¬LosesText run move) {} moves) ∧
      (run.pending = [] → (Recorded run ↔ AlongActs step (fun run move => ¬LosesText run move) {} moves)) := by
  have hcoherent := run_coherent h
  have hkept : TextKept run ↔ AlongActs step (fun run move => ¬LosesText run move) {} moves := by
    rw [runActs_keeps_iff (fun hallowed hstep hc => hc.step hallowed hstep)
      (fun hallowed hstep hc => textKept_step hc hallowed hstep) Coherent.start h]
    exact and_iff_right rfl
  refine ⟨hcoherent.journal, hcoherent.items, hkept, fun hidle => ?_⟩
  rw [← hkept]
  unfold TextKept
  rw [hidle]
  have hjournal := hcoherent.journal_idle hidle
  have hitems := hcoherent.items_idle hidle
  exact ⟨fun hrecorded => (List.append_nil _).trans hrecorded.accumulated,
    fun hkept => ⟨(List.append_nil _).symm.trans hkept, hjournal, hitems⟩⟩

/-- A step that speaks and makes two calls under one id, read in between. -/
def twoCalls : List Move :=
  [.call (.beginStep none), .call (.delta "a".toList), .write, .read .text, .write, .release .text,
    .call (.toolStart "c".toList "read".toList .null), .write, .write,
    .call (.toolEnd 0 "1".toList true 2 none), .write, .write, .write,
    .call (.toolStart "c".toList "exec".toList .null), .write, .write,
    .call (.toolEnd 1 "2".toList false 3 none), .write, .write, .write]

theorem run_record_of_two_calls :
    ∃ run, runActs step Allowed {} twoCalls = some run ∧ run.pending = [] ∧ Recorded run ∧
      (tools run.timeline).map (fun item => (item.name, item.output)) =
        [("read".toList, some "1".toList), ("exec".toList, some "2".toList)] :=
  ⟨_, rfl, rfl, ((@run_record twoCalls _ rfl).2.2.2 rfl).mpr (by decide), by decide⟩

/-- A snapshot is being taken while a delta comes in. -/
theorem reader_loses_delta :
    ∃ run, runActs step Allowed {} [.read .text, .call (.delta "a".toList), .write, .write, .release .text] = some run ∧
      run.pending = [] ∧ sent run.events = "a".toList ∧ texts run.timeline = "a".toList ∧
      run.accumulatedText.value = [] :=
  ⟨_, rfl, rfl, rfl, rfl, rfl⟩

end Nanna.Daemon.ChatSink
