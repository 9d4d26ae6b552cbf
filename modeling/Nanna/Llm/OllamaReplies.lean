import Nanna.Llm.Agreement
import Nanna.Llm.Splitter

/-!
# Streamed and whole replies on both wires

`replies_agree`: a chat completion that was not cut off is the same reply whether it is streamed or not, however it is
split. For Ollama, of a message that calls a tool or ends in a stop, the two replies are the same exactly if the
message is presentable: a whole response is trimmed, while a stream drops stop sentinels and is cut short where it
repeats itself.

A stream that is not cut short is the translation of its fragments and an ending (`stream_of_unwedged`); what it
accumulates is what the fragments bring (`Brought.all`). That a sentinel was dropped shows in the number of visible
characters (`said_eq_trim_iff`).
-/

namespace Nanna.Llm

open Nanna.Lib Nanna.Lib.Text OllamaStreamState

/-! ## What fragments bring -/

namespace OllamaFragment

def said : OllamaFragment → Text
  | .segment said => said.said
  | .call _ => []

def asCall : OllamaFragment → Option Json
  | .call tc => some tc
  | .segment _ => none

end OllamaFragment

/-- A call without its id. -/
def called (tc : Json) : Text × Json :=
  (textAt (tc.field "function") "name" "", (tc.field "function").field "arguments")

variable {env : OllamaEnv} {blocks : OllamaBlocks} {acc : StreamAccumulator} {fragments : List OllamaFragment}
  {index : Nat} {json : Text}

/-- What was accumulated is what the fragments brought. -/
structure Brought (env : OllamaEnv) (fragments : List OllamaFragment) (blocks : OllamaBlocks)
    (acc : StreamAccumulator) : Prop where
  text : acc.text = fragments.flatMap (·.said)
  calls : acc.toolCalls.map (fun call => (call.name, call.json)) =
    (fragments.filterMap (·.asCall)).map fun tc => ((called tc).1, env.print (called tc).2)
  below : ∀ call ∈ acc.toolCalls, call.index < blocks.nextBlockIndex
  count : blocks.toolBlockCount = (fragments.filterMap (·.asCall)).length

theorem appendJson_last (calls : List ToolCall) (call : ToolCall) (h : ∀ c ∈ calls, c.index < call.index) :
    StreamAccumulator.appendJson call.index json (calls ++ [call]) =
      calls ++ [{ call with json := call.json ++ json }] := by
  induction calls with
  | nil => rw [List.nil_append, StreamAccumulator.appendJson, if_pos rfl, List.nil_append]
  | cons c calls ih =>
    have hne : ¬ c.index = call.index := (h c List.mem_cons_self).ne
    rw [List.cons_append, StreamAccumulator.appendJson, if_neg hne,
      ih fun c hc => h c (List.mem_cons_of_mem _ hc), List.cons_append]

/-- What a segment does to the accumulator. -/
def StreamAccumulator.hear (acc : StreamAccumulator) : ContentSegment → StreamAccumulator
  | .thinking thinking => { acc with thinking := acc.thinking ++ thinking }
  | .text text => { acc with text := acc.text ++ text }

theorem emitSegment_events (part : ContentSegment) : ∃ events,
    (blocks.emitSegment part).2 = events.map .ok ∧ acc.processAll events = acc.hear part ∧
      blocks.nextBlockIndex ≤ (blocks.emitSegment part).1.nextBlockIndex ∧
      (blocks.emitSegment part).1.toolBlockCount = blocks.toolBlockCount := by
  refine ⟨(blocks.emitSegment part).2.filterMap (·.toOption), ?_⟩
  obtain ⟨_ | _, _ | _, count, next⟩ := blocks <;> cases part
  all_goals exact ⟨rfl, rfl, by simp [OllamaBlocks.emitSegment, OllamaBlocks.emitThinking,
    OllamaBlocks.emitText, OllamaBlocks.closeText, OllamaBlocks.closeThinking], rfl⟩

theorem onToolCall_events (below : ∀ call ∈ acc.toolCalls, call.index < blocks.nextBlockIndex) (tc : Json) :
    ∃ events id, (blocks.onToolCall env tc).2 = events.map .ok ∧
      acc.processAll events = { acc with
        toolCalls := acc.toolCalls ++ [⟨blocks.nextBlockIndex, id, (called tc).1, env.print (called tc).2⟩] } := by
  have hname : (((tc.field "function").field "name").asStr.map (·.toList)).getD [] = (called tc).1 := by
    rw [called, textAt]
    cases ((tc.field "function").field "name").asStr <;> rfl
  generalize hid : ((tc.field "id").asStr.map (·.toList)).getD
    (env.synthesizedToolUseId blocks.toolBlockCount) = id
  refine ⟨(blocks.onToolCall env tc).2.filterMap (·.toOption), id, rfl, ?_⟩
  have happend := @appendJson_last (env.print (called tc).2) acc.toolCalls
    ⟨blocks.nextBlockIndex, id, (called tc).1, []⟩ below
  rw [OllamaBlocks.onToolCall, hid, hname]
  exact congrArg (fun calls => { acc with toolCalls := calls }) happend

/-- Items that add nothing to a reply. -/
def Silent (items : List StreamItem) : Prop :=
  ∃ events : List StreamEvent, items = events.map .ok ∧ ∀ acc : StreamAccumulator, acc.processAll events = acc

theorem Silent.append {items items' : List StreamItem} (h : Silent items) (h' : Silent items') :
    Silent (items ++ items') := by
  obtain ⟨events, rfl, hacc⟩ := h
  obtain ⟨events', rfl, hacc'⟩ := h'
  refine ⟨events ++ events', List.map_append.symm, fun acc => ?_⟩
  rw [StreamAccumulator.processAll_append, hacc, hacc']

theorem closed_silent (blocks : OllamaBlocks) :
    Silent (blocks.closeThinking.2 ++ blocks.closeThinking.1.closeText.2) ∧
      blocks.nextBlockIndex ≤ blocks.closeThinking.1.closeText.1.nextBlockIndex ∧
      blocks.closeThinking.1.closeText.1.toolBlockCount = blocks.toolBlockCount := by
  obtain ⟨_ | _, _ | _, count, next⟩ := blocks
  · exact ⟨⟨[], rfl, fun _ => rfl⟩, le_refl _, rfl⟩
  · exact ⟨⟨[.contentBlockStop next], rfl, fun _ => rfl⟩, Nat.le_succ _, rfl⟩
  · exact ⟨⟨[.contentBlockStop next], rfl, fun _ => rfl⟩, Nat.le_succ _, rfl⟩
  · exact ⟨⟨[.contentBlockStop next, .contentBlockStop (next + 1)], rfl, fun _ => rfl⟩,
      Nat.le_add_right next 2, rfl⟩

theorem closeInTurn_silent (blocks : OllamaBlocks) : Silent blocks.closeInTurn.2 := by
  obtain ⟨_ | _, _ | _, count, next⟩ := blocks
  · exact ⟨[], rfl, fun _ => rfl⟩
  · exact ⟨[.contentBlockStop next], rfl, fun _ => rfl⟩
  · exact ⟨[.contentBlockStop next], rfl, fun _ => rfl⟩
  · exact ⟨[.contentBlockStop next, .contentBlockStop (next + 1)], rfl, fun _ => rfl⟩

theorem usage_silent (obj : Json) : Silent (usage obj) := by
  rw [usage]
  refine Silent.append ?_ ?_
  · split
    · exact ⟨[.messageStart _ _ _ 0 0 0], rfl, fun _ => rfl⟩
    · exact ⟨[], rfl, fun _ => rfl⟩
  · split
    · exact ⟨[.messageDelta none _], rfl, fun _ => rfl⟩
    · exact ⟨[], rfl, fun _ => rfl⟩

/-- Each fragment brings its part. -/
theorem Brought.fragment (h : Brought env fragments blocks acc) (last : OllamaFragment) :
    ∃ events, (blocks.onFragment env last).2 = events.map .ok ∧
      Brought env (fragments ++ [last]) (blocks.onFragment env last).1 (acc.processAll events) := by
  cases last with
  | segment part =>
    obtain ⟨events, hitems, hacc, hindex, hcount⟩ := @emitSegment_events blocks acc part
    refine ⟨events, hitems, ?_⟩
    rw [hacc]
    have hcalls : (acc.hear part).toolCalls = acc.toolCalls := by cases part <;> rfl
    have htext : (acc.hear part).text = acc.text ++ part.said := by
      cases part with
      | thinking thinking => exact (List.append_nil _).symm
      | text text => rfl
    refine ⟨?_, ?_, fun call hcall => ?_, ?_⟩
    · rw [htext, h.text, List.flatMap_append, List.flatMap_singleton]
      rfl
    · rw [hcalls, h.calls, List.filterMap_append]
      exact congrArg (List.map _) (List.append_nil _).symm
    · rw [hcalls] at hcall
      exact (h.below call hcall).trans_le hindex
    · rw [List.filterMap_append]
      exact hcount.trans (h.count.trans (congrArg List.length (List.append_nil _).symm))
  | call tc =>
    obtain ⟨⟨stops, hstops, hstopped⟩, hindex, hcount⟩ := closed_silent blocks
    obtain ⟨events, id, hitems, hacc⟩ := @onToolCall_events env blocks.closeThinking.1.closeText.1 acc
      (fun call hcall => (h.below call hcall).trans_le hindex) tc
    refine ⟨stops ++ events, ?_, ?_⟩
    · rw [List.map_append, ← hstops, ← hitems]
      rfl
    · rw [StreamAccumulator.processAll_append, hstopped, hacc]
      refine ⟨?_, ?_, fun call hcall => ?_, ?_⟩
      · rw [List.flatMap_append, ← h.text]
        exact (List.append_nil _).symm
      · rw [List.map_append, List.filterMap_append, List.map_append, h.calls]
        rfl
      · rcases List.mem_append.mp hcall with hcall | hcall
        · exact ((h.below call hcall).trans_le hindex).trans (Nat.lt_succ_self _)
        · rw [List.mem_singleton.mp hcall]
          exact Nat.lt_succ_self _
      · rw [List.filterMap_append, List.length_append, ← h.count, ← hcount]
        rfl

theorem Brought.all (h : Brought env fragments blocks acc) (more : List OllamaFragment) :
    ∃ events, (emits (OllamaBlocks.onFragment env) blocks more).2 = events.map .ok ∧
      Brought env (fragments ++ more) (emits (OllamaBlocks.onFragment env) blocks more).1
        (acc.processAll events) := by
  induction more generalizing fragments blocks acc with
  | nil => exact ⟨[], rfl, by rwa [List.append_nil]⟩
  | cons next more ih =>
    obtain ⟨events, hitems, hnext⟩ := h.fragment next
    obtain ⟨events', hitems', hmore⟩ := ih hnext
    refine ⟨events ++ events', ?_, ?_⟩
    · rw [emits, List.map_append, ← hitems, ← hitems']
    · rw [StreamAccumulator.processAll_append]
      rwa [List.append_assoc, List.singleton_append] at hmore

/-! ## What objects bring -/

/-- The fragments of an object, and what the splitter holds back. -/
def objectFragments (splitter : InlineThinkSplitter) (obj : Json) :
    InlineThinkSplitter × List OllamaFragment :=
  let (splitter, segments) := match content obj with
    | none => (splitter, [])
    | some content => splitter.push (keptContent content)
  (splitter, OllamaBlocks.thinkingFragments (thinking obj) ++ segments.map .segment ++
    ((toolCalls obj).getD []).map .call)

/-- No fragment comes so often in a row that the stream is cut short. -/
def unwedged (watch : RepeatWatch) : List Json → Bool
  | [] => true
  | obj :: objs =>
    match (thinking obj).or (content obj) with
    | none => unwedged watch objs
    | some fragment => (watch.observe fragment).2.isNone && unwedged (watch.observe fragment).1 objs

/-- All fragments of objects, with what the end releases. -/
def allFragments (splitter : InlineThinkSplitter) (objs : List Json) : List OllamaFragment :=
  (emits objectFragments splitter objs).2 ++
    (emits objectFragments splitter objs).1.finish.2.map .segment

variable {state : OllamaStreamState}

theorem dropSentinel_eq (text : Text) : (state.dropSentinel text).2 = keptContent text ∧
    (state.dropSentinel text).1.thinkSplitter = state.thinkSplitter ∧
    (state.dropSentinel text).1.repeatWatch = state.repeatWatch := by
  rw [dropSentinel, keptContent]
  split
  · exact ⟨rfl, rfl, rfl⟩
  · split
    · rename_i pre hpre
      rw [hpre]
      exact ⟨rfl, rfl, rfl⟩
    · rename_i hnone
      rw [hnone]
      exact ⟨rfl, rfl, rfl⟩

theorem fragments_eq (obj : Json) : (state.fragments obj).2 = (objectFragments state.thinkSplitter obj).2 ∧
    (state.fragments obj).1.thinkSplitter = (objectFragments state.thinkSplitter obj).1 ∧
    (state.fragments obj).1.repeatWatch = state.repeatWatch := by
  rw [OllamaStreamState.fragments, objectFragments]
  cases content obj with
  | none => exact ⟨rfl, rfl, rfl⟩
  | some text =>
    obtain ⟨hkept, hsplitter, hwatch⟩ := @dropSentinel_eq state text
    simp only [OllamaStreamState.contentFragments, hkept, hsplitter, hwatch, and_self]

/-- The state after an object. -/
def afterObject (env : OllamaEnv) (state : OllamaStreamState) (watch : RepeatWatch) (obj : Json) :
    OllamaStreamState :=
  ({ state with repeatWatch := watch }.onMessage env obj).1

theorem afterObject_eq (watch : RepeatWatch) (obj : Json) :
    (afterObject env state watch obj).repeatWatch = watch ∧
      (afterObject env state watch obj).thinkSplitter = (objectFragments state.thinkSplitter obj).1 ∧
      (afterObject env state watch obj).blocks =
        (emits (OllamaBlocks.onFragment env) state.blocks (objectFragments state.thinkSplitter obj).2).1 ∧
      ({ state with repeatWatch := watch }.onMessage env obj).2 =
        (emits (OllamaBlocks.onFragment env) state.blocks (objectFragments state.thinkSplitter obj).2).2 := by
  obtain ⟨hfragments, hsplitter, hwatch⟩ := @fragments_eq { state with repeatWatch := watch } obj
  rw [afterObject, onMessage_eq, hfragments]
  exact ⟨hwatch, hsplitter, rfl, rfl⟩

/-- An object cuts the stream short, or is read. -/
theorem onObject_cases (state : OllamaStreamState) (obj : Json) (objs : List Json) (bytesReceived : Nat) :
    (unwedged state.repeatWatch (obj :: objs) = false ∧ (state.onObject env obj bytesReceived).2.2 = true ∧
      ∃ error, .error error ∈ (state.onObject env obj bytesReceived).2.1) ∨
    ∃ watch, unwedged state.repeatWatch (obj :: objs) = unwedged watch objs ∧
      state.onObject env obj bytesReceived =
        if isDone obj then
          (((afterObject env state watch obj).onDone obj).1,
            ({ state with repeatWatch := watch }.onMessage env obj).2 ++
              ((afterObject env state watch obj).onDone obj).2, true)
        else
          (afterObject env state watch obj, ({ state with repeatWatch := watch }.onMessage env obj).2, false) := by
  rw [unwedged]
  unfold onObject OllamaStreamState.watch
  cases (thinking obj).or (content obj) with
  | none => exact .inr ⟨state.repeatWatch, rfl, rfl⟩
  | some fragment =>
    cases hrun : (state.repeatWatch.observe fragment).2 with
    | none =>
      refine .inr ⟨(state.repeatWatch.observe fragment).1, ?_, ?_⟩
      · simp only [hrun, Option.isNone_none, Bool.true_and]
      · simp only [hrun]
        rfl
    | some run =>
      refine .inl ⟨?_, ?_, .wedgedRunner fragment run bytesReceived, ?_⟩
      · simp only [hrun, Option.isNone_some, Bool.false_and]
      · simp only [hrun, Option.map_some]
      · simp only [hrun, Option.map_some]
        exact List.mem_append_right _ (List.mem_singleton.mpr rfl)

/-- The end of a message whose fragments are all read. -/
theorem onDone_eq (obj : Json) :
    let flushed := emits (OllamaBlocks.onFragment env) state.blocks
      (state.thinkSplitter.finish.2.map .segment)
    (state.onDone obj).2 = flushed.2 ++ (flushed.1.closeInTurn.2 ++ usage obj ++
      [.ok (.messageStop flushed.1.stopReason)]) := by
  rw [onDone, @flushContent_eq env]
  simp only [flushFragments, List.append_assoc]

theorem allFragments_cons (splitter : InlineThinkSplitter) (obj : Json) (objs : List Json) :
    allFragments splitter (obj :: objs) =
      (objectFragments splitter obj).2 ++ allFragments (objectFragments splitter obj).1 objs := by
  rw [allFragments, emits, List.append_assoc]
  rfl

/-- A stream that ends as it should is the translation of its fragments, and an ending. -/
theorem stream_of_unwedged (bodyEnd : BodyEnd) {init : List (Json × Nat)} {last : Json × Nat}
    (hinit : ∀ obj ∈ init, isDone obj.1 = false) (hlast : isDone last.1 = true)
    (h : unwedged state.repeatWatch ((init ++ [last]).map (·.1)) = true) :
    let all := emits (OllamaBlocks.onFragment env) state.blocks
      (allFragments state.thinkSplitter ((init ++ [last]).map (·.1)))
    state.stream env bodyEnd (init ++ [last]) = all.2 ++ (all.1.closeInTurn.2 ++ usage last.1 ++
      [.ok (.messageStop all.1.stopReason)]) := by
  induction init generalizing state with
  | nil =>
    obtain ⟨hwedged, -⟩ | ⟨watch, -, hobject⟩ := @onObject_cases env state last.1 [] last.2
    · exact absurd (hwedged.symm.trans h) Bool.false_ne_true
    obtain ⟨-, hsplitter, hblocks, hitems⟩ := @afterObject_eq env state watch last.1
    rw [hlast, if_pos rfl] at hobject
    have hdone := @onDone_eq env (afterObject env state watch last.1) last.1
    simp only [hsplitter, hblocks] at hdone
    have hall : allFragments state.thinkSplitter [last.1] = (objectFragments state.thinkSplitter last.1).2 ++
        (objectFragments state.thinkSplitter last.1).1.finish.2.map .segment := allFragments_cons _ _ _
    simp only [List.nil_append, List.map_cons, List.map_nil, OllamaStreamState.stream, hobject, hitems, hdone, hall,
      emits_append, if_true, List.append_assoc]
  | cons obj init ih =>
    obtain ⟨hwedged, -⟩ | ⟨watch, hrest, hobject⟩ :=
      @onObject_cases env state obj.1 ((init ++ [last]).map (·.1)) obj.2
    · exact absurd (hwedged.symm.trans h) Bool.false_ne_true
    obtain ⟨hwatch, hsplitter, hblocks, hitems⟩ := @afterObject_eq env state watch obj.1
    rw [hinit obj List.mem_cons_self, if_neg Bool.false_ne_true] at hobject
    have hnext := @ih (afterObject env state watch obj.1)
      (fun o ho => hinit o (List.mem_cons_of_mem _ ho)) (by rw [hwatch, ← hrest]; exact h)
    simp only [hsplitter, hblocks] at hnext
    simp only [List.cons_append, OllamaStreamState.stream, hobject, hitems, hnext, List.map_cons, allFragments_cons,
      emits_append, List.append_assoc, Bool.false_eq_true, if_false]

/-- A stream that is cut short ends in an error. -/
theorem stream_of_wedged (bodyEnd : BodyEnd) {init : List (Json × Nat)} {last : Json × Nat}
    (hinit : ∀ obj ∈ init, isDone obj.1 = false)
    (h : unwedged state.repeatWatch ((init ++ [last]).map (·.1)) = false) :
    ∃ error, .error error ∈ state.stream env bodyEnd (init ++ [last]) := by
  induction init generalizing state with
  | nil =>
    obtain ⟨-, hfinished, error, hmem⟩ | ⟨watch, hrest, -⟩ := @onObject_cases env state last.1 [] last.2
    · refine ⟨error, ?_⟩
      simp only [List.nil_append, OllamaStreamState.stream, hfinished, if_true]
      exact hmem
    · exact absurd (hrest.symm.trans h) Bool.noConfusion
  | cons obj init ih =>
    obtain ⟨-, hfinished, error, hmem⟩ | ⟨watch, hrest, hobject⟩ :=
      @onObject_cases env state obj.1 ((init ++ [last]).map (·.1)) obj.2
    · refine ⟨error, ?_⟩
      simp only [List.cons_append, OllamaStreamState.stream, hfinished, if_true]
      exact hmem
    · obtain ⟨hwatch, -, -, -⟩ := @afterObject_eq env state watch obj.1
      rw [hinit obj List.mem_cons_self, if_neg Bool.false_ne_true] at hobject
      have hwedged : unwedged (afterObject env state watch obj.1).repeatWatch
          ((init ++ [last]).map (·.1)) = false := by
        rw [hwatch, ← hrest]
        exact h
      obtain ⟨error, hmem⟩ := ih (fun o ho => hinit o (List.mem_cons_of_mem _ ho)) hwedged
      refine ⟨error, ?_⟩
      simp only [List.cons_append, OllamaStreamState.stream, hobject, Bool.false_eq_true, if_false]
      exact List.mem_append_right _ hmem

/-! ## The reply of a stream -/

theorem said_thinking (thinking : Option Text) :
    (OllamaBlocks.thinkingFragments thinking).flatMap (·.said) = [] ∧
      (OllamaBlocks.thinkingFragments thinking).filterMap (·.asCall) = [] := by
  cases thinking with
  | none => exact ⟨rfl, rfl⟩
  | some thinking =>
    rw [OllamaBlocks.thinkingFragments]
    split <;> exact ⟨rfl, rfl⟩

theorem said_segments (segments : List ContentSegment) :
    (segments.map OllamaFragment.segment).flatMap (·.said) = saidText segments ∧
      (segments.map OllamaFragment.segment).filterMap (·.asCall) = [] := by
  constructor
  · rw [List.flatMap_map]
    rfl
  · rw [List.filterMap_map]
    exact List.filterMap_eq_nil_iff.mpr fun _ _ => rfl

theorem said_calls (calls : List Json) :
    (calls.map OllamaFragment.call).flatMap (·.said) = [] ∧
      (calls.map OllamaFragment.call).filterMap (·.asCall) = calls := by
  constructor
  · rw [List.flatMap_map]
    exact List.flatMap_eq_nil_iff.mpr fun _ _ => rfl
  · rw [List.filterMap_map]
    exact List.filterMap_some

/-- The contents of objects as the splitter gets them. -/
def keptContents (objs : List Json) : List Text := (objs.filterMap content).map keptContent

/-- The calls of objects. -/
def allCalls (objs : List Json) : List Json := objs.flatMap fun obj => (toolCalls obj).getD []

theorem emits_objects (splitter : InlineThinkSplitter) (objs : List Json) :
    (emits objectFragments splitter objs).1 =
        (emits InlineThinkSplitter.push splitter (keptContents objs)).1 ∧
      (emits objectFragments splitter objs).2.flatMap (·.said) =
        saidText (emits InlineThinkSplitter.push splitter (keptContents objs)).2 ∧
      (emits objectFragments splitter objs).2.filterMap (·.asCall) = allCalls objs := by
  induction objs generalizing splitter with
  | nil => exact ⟨rfl, rfl, rfl⟩
  | cons obj objs ih =>
    obtain ⟨hsplitter, hsaid, hcalls⟩ := ih (objectFragments splitter obj).1
    rw [emits, List.flatMap_append, List.filterMap_append, hsplitter, hsaid, hcalls]
    simp only [objectFragments, List.flatMap_append, List.filterMap_append, (said_thinking (thinking obj)).1,
      (said_thinking (thinking obj)).2, (said_calls ((toolCalls obj).getD [])).1,
      (said_calls ((toolCalls obj).getD [])).2, (said_segments _).1, (said_segments _).2]
    cases hcontent : content obj with
    | none => simp [keptContents, allCalls, hcontent, saidText]
    | some text => simp [keptContents, allCalls, hcontent, emits, saidText_append]

theorem allFragments_said (objs : List Json) :
    (allFragments {} objs).flatMap (·.said) = saidText (segmentsOf {} (keptContents objs)) ∧
      (allFragments {} objs).filterMap (·.asCall) = allCalls objs := by
  obtain ⟨hsplitter, hsaid, hcalls⟩ := emits_objects {} objs
  rw [allFragments, List.flatMap_append, List.filterMap_append, hsaid, hcalls, hsplitter,
    (said_segments _).1, (said_segments _).2, List.append_nil, segmentsOf, saidText_append]
  exact ⟨rfl, rfl⟩

/-- The reply without the ids of its calls. -/
def Reply.sansIds (reply : Reply) : Text × List (Text × Option Json) × Text :=
  (reply.text, reply.calls.map (·.2), reply.stopReason)

/-- What a stream that is not cut short says. -/
theorem streamed_ollama (env : OllamaEnv) (bodyEnd : BodyEnd) {init : List (Json × Nat)} {last : Json × Nat}
    (hinit : ∀ obj ∈ init, isDone obj.1 = false) (hlast : isDone last.1 = true)
    (h : unwedged {} ((init ++ [last]).map (·.1)) = true) : ∃ events,
    OllamaStreamState.stream env bodyEnd {} (init ++ [last]) = events.map .ok ∧
      (streamedReply env.parse events).sansIds =
        (saidText (segmentsOf {} (keptContents ((init ++ [last]).map (·.1)))),
          (allCalls ((init ++ [last]).map (·.1))).map fun tc =>
            ((called tc).1, streamedInput env.parse (env.print (called tc).2)),
          if allCalls ((init ++ [last]).map (·.1)) = [] then "end_turn".toList else "tool_use".toList) := by
  have hstream := @stream_of_unwedged env {} bodyEnd init last hinit hlast h
  have hnothing : Brought env [] {} {} := ⟨rfl, rfl, fun _ hcall => absurd hcall List.not_mem_nil, rfl⟩
  generalize hobjs : (init ++ [last]).map (·.1) = objs at *
  obtain ⟨events, hitems, hbrought⟩ := hnothing.all (allFragments {} objs)
  obtain ⟨hsaid, hcalls⟩ := allFragments_said objs
  dsimp only at hstream
  generalize (emits (OllamaBlocks.onFragment env) {} (allFragments {} objs)).1 = after at *
  obtain ⟨closing, hclosing, hquiet⟩ := (closeInTurn_silent after).append (usage_silent last.1)
  rw [hitems, hclosing] at hstream
  refine ⟨events ++ closing ++ [.messageStop after.stopReason], ?_, ?_⟩
  · rw [hstream, List.map_append, List.map_append, List.append_assoc]
    rfl
  · have hacc : StreamAccumulator.processAll {} (events ++ closing ++ [.messageStop after.stopReason]) =
        StreamAccumulator.processAll {} events := by
      rw [StreamAccumulator.processAll_append, StreamAccumulator.processAll_append, hquiet]
      rfl
    have htext := hbrought.text
    have huses := hbrought.calls
    have hcount := hbrought.count
    rw [List.nil_append, hsaid] at htext
    rw [List.nil_append, hcalls] at huses hcount
    have hnamed := congrArg (List.map fun p : Text × Text => (p.1, streamedInput env.parse p.2)) huses
    rw [List.map_map, List.map_map] at hnamed
    have hstop : after.stopReason =
        if allCalls objs = [] then "end_turn".toList else "tool_use".toList := by
      rw [OllamaBlocks.stopReason, hcount]
      cases allCalls objs with
      | nil => exact (if_neg (Nat.lt_irrefl 0)).trans (if_pos rfl).symm
      | cons call calls => exact (if_pos (by simp)).trans (if_neg (List.cons_ne_nil call calls)).symm
    rw [streamedReply, hacc, streamed_stop, Reply.sansIds, htext, List.map_map, hstop]
    exact congrArg (fun calls => (_, calls, _)) hnamed

/-! ## The reply of a response -/

variable {timestamp model : Text} {response : Json}

theorem stripThinkTags_of_untagged {text : Text} (h : ¬ InlineThinkSplitter.OPEN <:+: text) :
    stripThinkTags text = trim text := by
  rw [stripThinkTags, stripThinkFrom]
  split
  · rfl
  · rename_i hcut
    rw [cutFirst_eq_none.mpr h] at hcut
    cases hcut

theorem asText_thinkingBlocks (thinking : Option Text) :
    (thinkingBlocks thinking).filterMap (·.asText) = [] ∧ (thinkingBlocks thinking).filterMap (·.asToolUse) = [] := by
  cases thinking with
  | none => exact ⟨rfl, rfl⟩
  | some thinking =>
    rw [thinkingBlocks]
    split <;> exact ⟨rfl, rfl⟩

theorem contentBlocks_of_untagged (thought : Bool) {text : Option Text}
    (h : ¬ InlineThinkSplitter.OPEN <:+: text.getD []) :
    ((contentBlocks thought text).filterMap (·.asText)).flatten = trim (text.getD []) ∧
      (contentBlocks thought text).filterMap (·.asToolUse) = [] := by
  cases text with
  | none => exact ⟨rfl, rfl⟩
  | some text =>
    have hthoughts : ∀ thoughts, ((if thought then [] else thinkingBlocks thoughts).filterMap (·.asText)) = [] ∧
        ((if thought then [] else thinkingBlocks thoughts).filterMap (·.asToolUse)) = [] := by
      intro thoughts
      cases thought
      · exact asText_thinkingBlocks thoughts
      · exact ⟨rfl, rfl⟩
    rw [Option.getD_some] at h ⊢
    rw [contentBlocks, stripThinkTags_of_untagged h, List.filterMap_append, List.filterMap_append,
      (hthoughts _).1, (hthoughts _).2]
    cases htrim : trim text with
    | nil => exact ⟨rfl, rfl⟩
    | cons c rest => exact ⟨List.append_nil _, rfl⟩

theorem toolUses_called (drawn : Nat) (calls : List Json) :
    (ollamaToolUses env drawn calls).filterMap (·.asText) = [] ∧
      ((ollamaToolUses env drawn calls).filterMap (·.asToolUse)).map (·.2) = calls.map called ∧
      ((ollamaToolUses env drawn calls).isEmpty = true ↔ calls = []) := by
  induction calls generalizing drawn with
  | nil => exact ⟨rfl, rfl, by simp [ollamaToolUses]⟩
  | cons tc calls ih =>
    obtain ⟨htexts, huses, -⟩ := ih (drawn + 1)
    exact ⟨htexts, congrArg (called tc :: ·) huses, by simp [ollamaToolUses]⟩

theorem whole_ollama (env : OllamaEnv) (timestamp model : Text) (hdone : isDone response = true)
    (huntagged : ¬ InlineThinkSplitter.OPEN <:+: (content response).getD []) : ∃ reply,
    ollamaResponseToAnthropic env timestamp model response = .ok reply ∧
      reply.reply.sansIds = (trim ((content response).getD []),
        ((toolCalls response).getD []).map fun tc => ((called tc).1, some (called tc).2),
        ollamaStopReason (! decide ((toolCalls response).getD [] = [])) (textAt response "done_reason" "stop")) := by
  have hcomplete : (response.field "done").asBool ≠ some false := by
    intro hfalse
    rw [isDone, hfalse] at hdone
    cases hdone
  obtain ⟨hthoughts, hthoughtUses⟩ := asText_thinkingBlocks (OllamaStreamState.thinking response)
  obtain ⟨hsaid, hsaidUses⟩ := contentBlocks_of_untagged
    (! (thinkingBlocks (OllamaStreamState.thinking response)).isEmpty) huntagged
  obtain ⟨huseTexts, huses, hempty⟩ := @toolUses_called env 0 ((toolCalls response).getD [])
  have hcalled : (! (ollamaToolUses env 0 ((toolCalls response).getD [])).isEmpty) =
      ! decide ((toolCalls response).getD [] = []) :=
    congrArg (! ·) (Bool.eq_iff_iff.mpr (hempty.trans decide_eq_true_iff.symm))
  rw [ollamaResponseToAnthropic, if_neg hcomplete]
  refine ⟨_, rfl, ?_⟩
  simp only [AnthropicResponse.reply, Reply.sansIds, List.filterMap_append, hthoughts, hthoughtUses, hsaid,
    hsaidUses, huseTexts, hcalled, List.nil_append, List.append_nil, Option.getD_some, List.map_map]
  refine Prod.ext rfl (Prod.ext ?_ rfl)
  have hinputs := congrArg (List.map fun p : Text × Json => (p.1, some p.2)) huses
  rwa [List.map_map, List.map_map] at hinputs

/-! ## The two replies -/

structure OllamaMessage where
  text : Text
  /-- The names of the calls and the members of their arguments. -/
  calls : List (Text × List (String × Json))
  doneReason : Text

def OllamaMessage.called (msg : OllamaMessage) : List (Text × Json) :=
  msg.calls.map fun call => (call.1, .obj call.2)

/-- A complete message as one response and as the objects of a stream, the last of which is marked done. -/
structure OllamaExchange (env : OllamaEnv) (msg : OllamaMessage) (response : Json)
    (objs : List (Json × Nat)) : Prop where
  done : isDone response = true
  text : (content response).getD [] = msg.text
  calls : ((toolCalls response).getD []).map called = msg.called
  doneReason : textAt response "done_reason" "stop" = msg.doneReason
  ends : ∃ init last, objs = init ++ [last] ∧ (∀ obj ∈ init, isDone obj.1 = false) ∧ isDone last.1 = true ∧
    textAt last.1 "done_reason" "stop" = msg.doneReason
  splitText : ((objs.map (·.1)).filterMap content).flatten = msg.text
  splitCalls : (allCalls (objs.map (·.1))).map called = msg.called
  untagged : ¬ InlineThinkSplitter.OPEN <:+: msg.text
  readsBack : ∀ call ∈ msg.calls, trim (env.print (.obj call.2)) ≠ [] ∧
    env.parse (trim (env.print (.obj call.2))) = some (.obj call.2)

/-- The stream brings no error, and the reply of the response, the ids of calls aside. -/
def OllamaAgree (env : OllamaEnv) (bodyEnd : BodyEnd) (timestamp model : Text) (response : Json)
    (objs : List (Json × Nat)) : Prop :=
  ∃ reply events, ollamaResponseToAnthropic env timestamp model response = .ok reply ∧
    OllamaStreamState.stream env bodyEnd {} objs = events.map .ok ∧
    (streamedReply env.parse events).sansIds = reply.reply.sansIds

/-- The text has no blanks around it, no fragment carries a stop sentinel, and none repeats too often. -/
structure Presentable (msg : OllamaMessage) (objs : List Json) : Prop where
  trimmed : trim msg.text = msg.text
  unmarked : ∀ text ∈ objs.filterMap content, Unmarked text
  unwedged : unwedged {} objs = true

theorem visible_flatten (contents : List Text) :
    visible contents.flatten = (contents.map visible).sum := by
  induction contents with
  | nil => rfl
  | cons text contents ih => rw [List.flatten_cons, visible_append, ih, List.map_cons, List.sum_cons]

/-- The texts are the same exactly if nothing is trimmed and no sentinel is dropped. -/
theorem said_eq_trim_iff {contents : List Text} (huntagged : ¬ InlineThinkSplitter.OPEN <:+: contents.flatten) :
    saidText (segmentsOf {} (contents.map keptContent)) = trim contents.flatten ↔
      trim contents.flatten = contents.flatten ∧ ∀ text ∈ contents, Unmarked text := by
  have hunmarked (h : ∀ text ∈ contents, Unmarked text) :
      saidText (segmentsOf {} (contents.map keptContent)) = contents.flatten := by
    have hkept : contents.map keptContent = contents :=
      (List.map_congr_left fun text htext => keptContent_of_unmarked (h text htext)).trans (List.map_id contents)
    rw [hkept, segments_of_untagged huntagged]
  constructor
  · intro h
    -- a dropped sentinel would be missing in what is visible
    have hcount := visible_segments (contents.map keptContent)
    rw [h, visible_trim, visible_flatten] at hcount
    have hall := unmarked_of_sum hcount
    exact ⟨h.symm.trans (hunmarked hall), hall⟩
  · rintro ⟨htrim, hall⟩
    rw [hunmarked hall, htrim]

theorem streamedInput_readsBack {parse : Text → Option Json} {printed : Text} {value : Json}
    (h : trim printed ≠ [] ∧ parse (trim printed) = some value) : streamedInput parse printed = some value := by
  rw [streamedInput, if_neg (by simpa using h.1), healJson_of_parse h.1 h.2]

theorem ollamaStop_iff (silent : Bool) (doneReason : Text) :
    (if silent then "end_turn".toList else "tool_use".toList) = ollamaStopReason (! silent) doneReason ↔
      silent = false ∨ doneReason = "stop".toList ∨ doneReason = "end_turn".toList := by
  cases silent with
  | false => exact iff_of_true rfl (.inl rfl)
  | true =>
    rw [if_pos rfl, ollamaStopReason, if_neg (by decide)]
    by_cases hstop : doneReason = "stop".toList
    · rw [if_pos hstop]
      exact iff_of_true rfl (.inr (.inl hstop))
    · rw [if_neg hstop]
      by_cases hlength : doneReason = "length".toList
      · rw [hlength]
        decide
      · rw [if_neg hlength]
        exact ⟨fun h => .inr (.inr h.symm), fun h => ((h.resolve_left nofun).resolve_left hstop).symm⟩

/-- **Ollama.** The two replies are the same exactly if the message is presentable and its end shows. -/
theorem ollama_agrees_iff {msg : OllamaMessage} {objs : List (Json × Nat)} (bodyEnd : BodyEnd)
    (timestamp model : Text) (h : OllamaExchange env msg response objs) :
    OllamaAgree env bodyEnd timestamp model response objs ↔ Presentable msg (objs.map (·.1)) ∧
      (msg.calls ≠ [] ∨ msg.doneReason = "stop".toList ∨ msg.doneReason = "end_turn".toList) := by
  obtain ⟨init, last, rfl, hinit, hlast, -⟩ := h.ends
  have huntagged : ¬ InlineThinkSplitter.OPEN <:+: (content response).getD [] := by
    rw [h.text]
    exact h.untagged
  obtain ⟨reply, hreply, hwhole⟩ := whole_ollama env timestamp model h.done huntagged
  cases hwedged : unwedged {} ((init ++ [last]).map (·.1)) with
  | false =>
    obtain ⟨error, herror⟩ := @stream_of_wedged env {} bodyEnd init last hinit hwedged
    refine iff_of_false ?_ fun hplain => ?_
    · rintro ⟨-, events, -, hstream, -⟩
      rw [hstream] at herror
      obtain ⟨event, -, heq⟩ := List.mem_map.mp herror
      cases heq
    · exact absurd (hwedged.symm.trans hplain.1.unwedged) Bool.false_ne_true
  | true =>
    obtain ⟨events, hstream, hsaid⟩ := streamed_ollama env bodyEnd hinit hlast hwedged
    have hagree : OllamaAgree env bodyEnd timestamp model response (init ++ [last]) ↔
        (streamedReply env.parse events).sansIds = reply.reply.sansIds := by
      refine ⟨fun ⟨reply', events', hreply', hstream', heq⟩ => ?_, fun heq => ⟨reply, events, hreply, hstream, heq⟩⟩
      obtain rfl := Except.ok.inj (hreply.symm.trans hreply')
      have hinjective : Function.Injective (Except.ok : StreamEvent → StreamItem) := fun _ _ => Except.ok.inj
      rwa [List.map_injective_iff.mpr hinjective (hstream.symm.trans hstream')]
    have hinputs : (allCalls ((init ++ [last]).map (·.1))).map
          (fun tc => ((called tc).1, streamedInput env.parse (env.print (called tc).2))) =
        ((toolCalls response).getD []).map fun tc => ((called tc).1, some (called tc).2) := by
      have hsplit := congrArg
        (List.map fun p : Text × Json => (p.1, streamedInput env.parse (env.print p.2))) h.splitCalls
      have hcalls := congrArg (List.map fun p : Text × Json => (p.1, some p.2)) h.calls
      rw [List.map_map, OllamaMessage.called, List.map_map] at hsplit hcalls
      refine hsplit.trans ((List.map_congr_left fun call hcall => ?_).trans hcalls.symm)
      exact congrArg (Prod.mk call.1) (streamedInput_readsBack (h.readsBack call hcall))
    have hsplitNil : allCalls ((init ++ [last]).map (·.1)) = [] ↔ msg.calls = [] := by
      rw [← List.map_eq_nil_iff, h.splitCalls, OllamaMessage.called, List.map_eq_nil_iff]
    have hwholeNil : (toolCalls response).getD [] = [] ↔ msg.calls = [] := by
      rw [← List.map_eq_nil_iff, h.calls, OllamaMessage.called, List.map_eq_nil_iff]
    have htexts := @said_eq_trim_iff (((init ++ [last]).map (·.1)).filterMap content) (by
      rw [h.splitText]
      exact h.untagged)
    have hstops := ollamaStop_iff (decide (msg.calls = [])) msg.doneReason
    rw [h.splitText] at htexts
    simp only [decide_eq_true_eq, decide_eq_false_iff_not] at hstops
    rw [hagree, hsaid, hwhole, Prod.mk.injEq, Prod.mk.injEq, hinputs, h.text, h.doneReason]
    simp only [hsplitNil, hwholeNil]
    rw [keptContents, htexts, hstops]
    exact ⟨fun ⟨htext, _, hstop⟩ => ⟨⟨htext.1, htext.2, hwedged⟩, hstop⟩,
      fun ⟨hplain, hstop⟩ => ⟨⟨hplain.trimmed, hplain.unmarked⟩, trivial, hstop⟩⟩

/-! ## Both wires -/

/-- A complete message as one response and as the lines of a stream. -/
structure OpenAiExchange (parse : Text → Option Json) (decode : Text → Option OpenAiStreamChunk)
    (msg : SpokenMessage) (response : Json) (lines : List Text) : Prop where
  holds : ∃ choice, Holds response choice msg
  splits : SplitsInto msg (reading decode lines).1
  finish : (reading decode lines).2 = msg.finishReason
  objects : ∀ call ∈ msg.calls, IsObjectText parse call.arguments

def OpenAiAgree (parse : Text → Option Json) (decode : Text → Option OpenAiStreamChunk) (model : Text)
    (response : Json) (lines : List Text) : Prop :=
  ∃ reply, openaiResponseToAnthropic parse model response = .ok reply ∧
    streamedReply parse (OpenAiStreamState.stream decode {} lines) = reply.reply

/-- **Main result.** A streamed chat completion is the reply of its whole response, where it was not cut off. A message
from Ollama that calls a tool or ends in a stop is the same reply on both paths exactly if it is presentable. -/
theorem replies_agree :
    (∀ parse decode model msg response lines, OpenAiExchange parse decode msg response lines →
      msg.finishReason ≠ some "length".toList → OpenAiAgree parse decode model response lines) ∧
    ∀ env bodyEnd timestamp model msg response objs, OllamaExchange env msg response objs →
      msg.calls ≠ [] ∨ msg.doneReason = "stop".toList →
      (OllamaAgree env bodyEnd timestamp model response objs ↔ Presentable msg (objs.map (·.1))) := by
  constructor
  · intro parse decode model msg response lines h hfinish
    obtain ⟨choice, hholds⟩ := h.holds
    exact (openAi_agrees hholds h.splits h.finish h.objects).mpr hfinish
  · intro env bodyEnd timestamp model msg response objs h hstop
    rw [ollama_agrees_iff bodyEnd timestamp model h, and_iff_left (hstop.imp_right .inl)]

/-! ### Exchanges -/

/-- An object whose message is a text. -/
def plainObject (text : Text) (members : List (String × Json)) : Json :=
  .obj (("message", .obj [("content", .str (String.ofList text))]) :: members)

def plainEnd (doneReason : String) : List (String × Json) :=
  [("done", .bool true), ("done_reason", .str doneReason)]

def plainObjects (contents : List Text) (doneReason : String) : List (Json × Nat) :=
  contents.map (fun text => (plainObject text [], 0)) ++ [(plainObject [] (plainEnd doneReason), 0)]

def plainMessage (contents : List Text) (doneReason : String) : OllamaMessage :=
  ⟨contents.flatten, [], doneReason.toList⟩

theorem content_plain (text : Text) (members : List (String × Json)) :
    content (plainObject text members) = some text := by
  show some (String.ofList text).toList = some text
  rw [String.toList_ofList]

theorem contents_plain (contents : List Text) (doneReason : String) :
    ((plainObjects contents doneReason).map (·.1)).filterMap content = contents ++ [[]] := by
  rw [plainObjects, List.map_append, List.map_map, List.filterMap_append, List.filterMap_map]
  refine congrArg₂ (· ++ ·) ((List.filterMap_congr fun text _ => ?_).trans List.filterMap_some) rfl
  exact content_plain text []

theorem plain_exchange {contents : List Text} {doneReason : String}
    (h : ¬ InlineThinkSplitter.OPEN <:+: contents.flatten) :
    OllamaExchange env (plainMessage contents doneReason)
      (plainObject contents.flatten (plainEnd doneReason)) (plainObjects contents doneReason) where
  done := rfl
  text := by
    rw [content_plain]
    rfl
  calls := rfl
  doneReason := rfl
  ends := by
    refine ⟨_, _, rfl, fun obj hobj => ?_, rfl, rfl⟩
    obtain ⟨text, -, rfl⟩ := List.mem_map.mp hobj
    rfl
  splitText := by
    rw [contents_plain, List.flatten_append]
    exact List.append_nil _
  splitCalls := by
    have hnone : allCalls ((plainObjects contents doneReason).map (·.1)) = [] := by
      refine List.flatMap_eq_nil_iff.mpr fun obj hobj => ?_
      simp only [plainObjects, List.map_append, List.map_map, List.mem_append, List.mem_map] at hobj
      obtain ⟨text, -, rfl⟩ | ⟨_, hlast, rfl⟩ := hobj
      · rfl
      · rw [List.mem_singleton.mp hlast]
        rfl
    rw [hnone]
    rfl
  untagged := h
  readsBack := fun call hcall => absurd hcall List.not_mem_nil

/-- Messages without calls: nothing is parsed or printed. -/
def plainOllama : OllamaEnv where
  casing := asciiCasing
  parse := fun _ => none
  print := fun _ => []
  parseRetryAfter := fun _ => none
  synthesizedToolUseId := fun _ => []

/-- Text and the start of a call in one chunk, the rest of its arguments in another. -/
def sampleDecode (reason : String) (data : Text) : Option OpenAiStreamChunk :=
  if data = "1".toList then
    some ⟨[⟨some ⟨some "ok".toList,
      some [⟨0, some "c".toList, some ⟨some "exec".toList, some "\x7b".toList⟩⟩]⟩, none⟩]⟩
  else if data = "2".toList then
    some ⟨[⟨some ⟨none, some [⟨0, none, some ⟨none, some "\x7d".toList⟩⟩]⟩, some reason.toList⟩]⟩
  else none

def sampleLines : List Text := ["data: 1".toList, "data: 2".toList]

def sampleSpoken (reason : String) : SpokenMessage :=
  ⟨"ok".toList, [⟨"c".toList, "exec".toList, "\x7b\x7d".toList⟩], some reason.toList⟩

def sampleChoice (reason : String) : Json :=
  .obj [("message", .obj [("content", .str "ok"), ("tool_calls", .arr [.obj [("id", .str "c"),
    ("function", .obj [("name", .str "exec"), ("arguments", .str "\x7b\x7d")])]])]),
    ("finish_reason", .str reason)]

def sampleParse (t : Text) : Option Json := if t = "\x7b\x7d".toList then some (.obj []) else none

theorem sample_reading (reason : String) : reading (sampleDecode reason) sampleLines =
    ([.text "ok".toList, .call 1 "c".toList "exec".toList, .args 1 "\x7b".toList, .args 1 "\x7d".toList],
      some reason.toList) := rfl

theorem sample_exchange (reason : String) : OpenAiExchange sampleParse (sampleDecode reason)
    (sampleSpoken reason) (.obj [("choices", .arr [sampleChoice reason])]) sampleLines where
  holds := ⟨sampleChoice reason, rfl, rfl, rfl, rfl⟩
  splits := by
    rw [sample_reading]
    refine ⟨rfl, rfl, List.nodup_singleton 1, fun pre index json post h => ?_⟩
    rcases pre with _ | ⟨first, _ | ⟨second, pre⟩⟩
    · cases h
    · cases h
    · obtain ⟨hfirst, htail⟩ := List.cons.inj h
      obtain ⟨hsecond, htail⟩ := List.cons.inj htail
      have hmem : Fragment.args index json ∈ pre ++ .args index json :: post :=
        List.mem_append_right pre List.mem_cons_self
      have hindex : index = 1 := by
        rw [show pre ++ Fragment.args index json :: post = _ from htail.symm] at hmem
        rcases List.mem_cons.mp hmem with heq | hlast
        · exact (Fragment.args.inj heq).1
        · exact (Fragment.args.inj (List.mem_singleton.mp hlast)).1
      rw [hindex, ← hfirst, ← hsecond]
      exact List.mem_cons_self
  finish := by
    rw [sample_reading]
    rfl
  objects := by
    intro call hcall
    rw [List.mem_singleton.mp hcall]
    exact ⟨by decide, [], by decide⟩

theorem replies_agree_sample :
    OpenAiAgree sampleParse (sampleDecode "tool_calls") "gpt".toList
        (.obj [("choices", .arr [sampleChoice "tool_calls"])]) sampleLines ∧
      OllamaAgree plainOllama ⟨[], none, 0, 0⟩ [] "gemma".toList
        (plainObject "all done".toList (plainEnd "stop")) (plainObjects ["all ".toList, "done".toList] "stop") := by
  have huntagged : ¬ InlineThinkSplitter.OPEN <:+: ["all ".toList, "done".toList].flatten := by decide
  refine ⟨replies_agree.1 _ _ _ _ _ _ (sample_exchange "tool_calls") (by decide), ?_⟩
  refine (replies_agree.2 _ _ _ _ _ _ _ (plain_exchange huntagged) (.inr rfl)).mpr ⟨by decide, ?_, by decide⟩
  rw [contents_plain]
  decide

/-- Blanks around the text are trimmed from a whole response only, a stop sentinel is dropped from a stream only, a
stream that repeats is cut short, and a message that was cut off ends in another reason on either wire. -/
theorem replies_differ :
    (∀ contents ∈ [[" ok".toList], ["ok<unused50>".toList], List.replicate 20 "ha".toList],
      OllamaExchange plainOllama (plainMessage contents "stop") (plainObject contents.flatten (plainEnd "stop"))
          (plainObjects contents "stop") ∧
        ¬ OllamaAgree plainOllama ⟨[], none, 0, 0⟩ [] [] (plainObject contents.flatten (plainEnd "stop"))
          (plainObjects contents "stop")) ∧
    (OllamaExchange plainOllama (plainMessage ["ok".toList] "length") (plainObject "ok".toList (plainEnd "length"))
        (plainObjects ["ok".toList] "length") ∧
      ¬ OllamaAgree plainOllama ⟨[], none, 0, 0⟩ [] [] (plainObject "ok".toList (plainEnd "length"))
        (plainObjects ["ok".toList] "length")) ∧
    OpenAiExchange sampleParse (sampleDecode "length") (sampleSpoken "length")
        (.obj [("choices", .arr [sampleChoice "length"])]) sampleLines ∧
      ¬ OpenAiAgree sampleParse (sampleDecode "length") [] (.obj [("choices", .arr [sampleChoice "length"])])
        sampleLines := by
  have hdiffer {contents : List Text} {doneReason : String}
      (huntagged : ¬ InlineThinkSplitter.OPEN <:+: contents.flatten)
      (h : Presentable (plainMessage contents doneReason) ((plainObjects contents doneReason).map (·.1)) →
        ¬ (doneReason.toList = "stop".toList ∨ doneReason.toList = "end_turn".toList)) :
      OllamaExchange plainOllama (plainMessage contents doneReason)
          (plainObject contents.flatten (plainEnd doneReason)) (plainObjects contents doneReason) ∧
        ¬ OllamaAgree plainOllama ⟨[], none, 0, 0⟩ [] [] (plainObject contents.flatten (plainEnd doneReason))
          (plainObjects contents doneReason) := by
    have hexchange := @plain_exchange plainOllama contents doneReason huntagged
    refine ⟨hexchange, fun hagree => ?_⟩
    obtain ⟨hplain, hend⟩ := (ollama_agrees_iff _ _ _ hexchange).mp hagree
    exact h hplain (hend.resolve_left fun hne => hne rfl)
  refine ⟨fun contents hmem => ?_, ?_, sample_exchange "length", fun hagree => ?_⟩
  · simp only [List.mem_cons, List.not_mem_nil, or_false] at hmem
    obtain rfl | rfl | rfl := hmem
    · exact hdiffer (by decide) fun hplain => absurd hplain.trimmed (by decide)
    · refine hdiffer (by decide) fun hplain => absurd (hplain.unmarked "ok<unused50>".toList ?_) (by decide)
      rw [contents_plain]
      exact List.mem_cons_self
    · exact hdiffer (by decide) fun hplain => absurd hplain.unwedged (by decide)
  · exact hdiffer (by decide) fun _ => by decide
  · obtain ⟨choice, hholds⟩ := (sample_exchange "length").holds
    exact (openAi_agrees hholds (sample_exchange "length").splits (sample_exchange "length").finish
      (sample_exchange "length").objects).mp hagree rfl

end Nanna.Llm
