import Nanna.Llm.OpenAi
import Nanna.Llm.Responses

/-!
# Streamed and whole chat completions

`openAi_agrees`: what a consumer accumulates from the events of a stream is the reply that the whole response is read
as, exactly if the message was not cut off at the token limit. The fragments of a stream accumulate whatever their
order (`foldl_processFragment`), as long as each call is announced once and before its arguments.
-/

namespace Nanna.Llm

open Nanna.Lib Nanna.Lib.Text

/-- What the agent loop reads off a turn: a call has no input where its arguments do not parse. -/
structure Reply where
  text : Text
  calls : List (Text × Text × Option Json)
  stopReason : Text
  deriving DecidableEq

/-- The arguments of a streamed call, once its block is stopped. -/
def streamedInput (parse : Text → Option Json) (json : Text) : Option Json :=
  healJson parse (if (trim json).isEmpty then "\x7b\x7d".toList else json)

/-- The reply of a whole response. -/
def AnthropicResponse.reply (response : AnthropicResponse) : Reply :=
  ⟨(response.content.filterMap (·.asText)).flatten,
    (response.content.filterMap (·.asToolUse)).map fun use => (use.1, use.2.1, some use.2.2),
    response.stopReason.getD []⟩

def stopOf : StreamEvent → Option Text
  | .messageStop stopReason => some stopReason
  | _ => none

/-- The reply of a stream: what is accumulated, and the reason of its stop. -/
def streamedReply (parse : Text → Option Json) (events : List StreamEvent) : Reply :=
  let acc := StreamAccumulator.processAll {} events
  ⟨acc.text, acc.toolCalls.map fun call => (call.id, call.name, streamedInput parse call.json),
    ((events.filterMap stopOf).getLast?).getD []⟩

namespace StreamAccumulator

variable {acc : StreamAccumulator}

@[simp] theorem processAll_nil : acc.processAll [] = acc := rfl

theorem processAll_append (events events' : List StreamEvent) :
    acc.processAll (events ++ events') = (acc.processAll events).processAll events' :=
  List.foldl_append

end StreamAccumulator

/-! ## Chat completions -/

/-- A call of a message, its arguments as text. -/
structure SpokenCall where
  id : Text
  name : Text
  arguments : Text
  deriving DecidableEq

structure SpokenMessage where
  text : Text
  calls : List SpokenCall
  finishReason : Option Text
  deriving DecidableEq

namespace Fragment

def asText : Fragment → Option Text
  | .text t => some t
  | _ => none

def asCall : Fragment → Option (Nat × Text × Text)
  | .call index id name => some (index, id, name)
  | _ => none

/-- A fragment of the arguments of the call under an index. -/
def argsOf (index : Nat) : Fragment → Option Text
  | .args i json => if i = index then some json else none
  | _ => none

end Fragment

def textOf (fragments : List Fragment) : Text := (fragments.filterMap (·.asText)).flatten

def callsOf (fragments : List Fragment) : List (Nat × Text × Text) :=
  fragments.filterMap (·.asCall)

def argumentsOf (index : Nat) (fragments : List Fragment) : Text :=
  (fragments.filterMap (·.argsOf index)).flatten

/-- The fragments of a message: its calls announced once each, in order, and their arguments in pieces
after that. -/
structure SplitsInto (msg : SpokenMessage) (fragments : List Fragment) : Prop where
  text : textOf fragments = msg.text
  calls : ((callsOf fragments).map fun call =>
    (⟨call.2.1, call.2.2, argumentsOf call.1 fragments⟩ : SpokenCall)) = msg.calls
  distinct : ((callsOf fragments).map (·.1)).Nodup
  later : ∀ pre index json post, fragments = pre ++ .args index json :: post →
    index ∈ (callsOf pre).map (·.1)

def stringAt (j : Json) (key : String) : Option Text := (j.field key).asStr.map (·.toList)

/-- A call of a response, as far as it is made of strings. -/
def readCall (tc : Json) : Option Text × Option Text × Option Text :=
  (stringAt tc "id", stringAt (tc.field "function") "name",
    stringAt (tc.field "function") "arguments")

/-- A response whose first choice is a message. -/
structure Holds (response choice : Json) (msg : SpokenMessage) : Prop where
  first : (response.field "choices").asArray.bind (·.head?) = some choice
  text : (stringAt (choice.field "message") "content").getD [] = msg.text
  calls : (((choice.field "message").field "tool_calls").asArray.getD []).map readCall =
    msg.calls.map fun call => (some call.id, some call.name, some call.arguments)
  finish : stringAt choice "finish_reason" = msg.finishReason

/-- Arguments that are the text of an object. -/
def IsObjectText (parse : Text → Option Json) (arguments : Text) : Prop :=
  trim arguments ≠ [] ∧ ∃ members, parse (trim arguments) = some (.obj members)

/-! ### What a stream accumulates -/

/-- What a fragment adds. -/
def StreamAccumulator.processFragment (acc : StreamAccumulator) : Fragment → StreamAccumulator
  | .text text => { acc with text := acc.text ++ text }
  | .call index id name => { acc with toolCalls := acc.toolCalls ++ [⟨index, id, name, []⟩] }
  | .args index json =>
    { acc with toolCalls := StreamAccumulator.appendJson index json acc.toolCalls }

variable {acc : StreamAccumulator} {state : OpenAiStreamState} {fragments : List Fragment}
  {index : Nat} {json : Text}

theorem processAll_onFragment (fragment : Fragment) :
    acc.processAll (state.onFragment fragment).2 = acc.processFragment fragment := by
  obtain ⟨started, calls⟩ := state
  cases fragment with
  | text text => cases started <;> rfl
  | call index id name => cases started <;> rfl
  | args index json => rfl

theorem processAll_emits : acc.processAll (emits OpenAiStreamState.onFragment state fragments).2 =
    fragments.foldl StreamAccumulator.processFragment acc := by
  induction fragments generalizing acc state with
  | nil => rfl
  | cons fragment fragments ih =>
    rw [emits, StreamAccumulator.processAll_append, processAll_onFragment, ih, List.foldl_cons]

/-- Stops add nothing. -/
theorem processAll_stops (indices : List Nat) :
    acc.processAll (indices.map .contentBlockStop) = acc := by
  induction indices with
  | nil => rfl
  | cons index indices ih => exact ih

theorem processAll_ending (reason : Option Text) : acc.processAll (state.ending reason) = acc := by
  rw [OpenAiStreamState.ending, OpenAiStreamState.closeBlocks, StreamAccumulator.processAll_append,
    StreamAccumulator.processAll_append, processAll_stops]
  cases state.textBlockStarted <;> rfl

/-- The text, and each call with its arguments. -/
def gathered (fragments : List Fragment) : StreamAccumulator :=
  { text := textOf fragments
    toolCalls := (callsOf fragments).map fun call =>
      ⟨call.1, call.2.1, call.2.2, argumentsOf call.1 fragments⟩ }

/-- Arguments come after their call. -/
def Later (fragments : List Fragment) : Prop :=
  ∀ pre index json post, fragments = pre ++ .args index json :: post →
    index ∈ (callsOf pre).map (·.1)

theorem Later.prefix {fragment : Fragment} (h : Later (fragments ++ [fragment])) :
    Later fragments := by
  rintro pre index json post rfl
  exact h pre index json (post ++ [fragment]) (by simp)

theorem argumentsOf_append (fragments fragments' : List Fragment) : argumentsOf index
    (fragments ++ fragments') = argumentsOf index fragments ++ argumentsOf index fragments' := by
  rw [argumentsOf, List.filterMap_append, List.flatten_append]
  rfl

theorem callsOf_append (fragments fragments' : List Fragment) :
    callsOf (fragments ++ fragments') = callsOf fragments ++ callsOf fragments' :=
  List.filterMap_append

theorem textOf_append (fragments fragments' : List Fragment) :
    textOf (fragments ++ fragments') = textOf fragments ++ textOf fragments' := by
  rw [textOf, List.filterMap_append, List.flatten_append]
  rfl

/-- A call that was not announced has no arguments yet. -/
theorem Later.argumentsOf_eq_nil (h : Later fragments) (hnew : index ∉ (callsOf fragments).map (·.1)) :
    argumentsOf index fragments = [] := by
  rw [argumentsOf, List.filterMap_eq_nil_iff.mpr fun fragment hmem => ?_]
  · rfl
  · cases fragment with
    | text text => rfl
    | call i id name => rfl
    | args i json =>
      obtain ⟨pre, post, rfl⟩ := List.append_of_mem hmem
      have hearly := h pre i json post rfl
      rw [Fragment.argsOf, if_neg]
      rintro rfl
      rw [callsOf_append, List.map_append] at hnew
      exact hnew (List.mem_append_left _ hearly)

theorem appendJson_map (calls : List (Nat × Text × Text)) (args : Nat → Text)
    (hdistinct : (calls.map (·.1)).Nodup) (hmem : index ∈ calls.map (·.1)) :
    StreamAccumulator.appendJson index json
        (calls.map fun call => ⟨call.1, call.2.1, call.2.2, args call.1⟩) =
      calls.map fun call => ⟨call.1, call.2.1, call.2.2,
        args call.1 ++ if index = call.1 then json else []⟩ := by
  induction calls with
  | nil => cases hmem
  | cons call calls ih =>
    obtain ⟨hnot, hdistinct⟩ := List.nodup_cons.mp hdistinct
    rw [List.map_cons, List.map_cons, StreamAccumulator.appendJson]
    by_cases hhead : call.1 = index
    · rw [if_pos hhead, if_pos hhead.symm]
      refine congrArg (_ :: ·) (List.map_congr_left fun other hother => ?_)
      have hne : index ≠ other.1 := by
        rintro rfl
        exact hnot (List.mem_map.mpr ⟨other, hother, hhead.symm⟩)
      rw [if_neg hne, List.append_nil]
    · rw [if_neg hhead, if_neg (Ne.symm hhead), List.append_nil]
      exact congrArg (_ :: ·) (ih hdistinct ((List.mem_cons.mp hmem).resolve_left (Ne.symm hhead)))

theorem argumentsOf_args (i : Nat) :
    argumentsOf i [.args index json] = if index = i then json else [] := by
  by_cases heq : index = i
  · simp [argumentsOf, Fragment.argsOf, heq]
  · simp [argumentsOf, Fragment.argsOf, heq]

@[simp] theorem argumentsOf_text (i : Nat) (text : Text) : argumentsOf i [.text text] = [] := rfl

@[simp] theorem argumentsOf_call (i : Nat) (id name : Text) :
    argumentsOf i [.call index id name] = [] := rfl

/-- Text and calls accumulate, whatever the order of the fragments. -/
theorem foldl_processFragment (hdistinct : ((callsOf fragments).map (·.1)).Nodup)
    (hlater : Later fragments) :
    fragments.foldl StreamAccumulator.processFragment {} = gathered fragments := by
  induction fragments using List.reverseRecOn with
  | nil => rfl
  | append_singleton fragments fragment ih =>
    rw [callsOf_append, List.map_append] at hdistinct
    have hkeys : ((callsOf fragments).map (·.1)).Nodup := hdistinct.of_append_left
    rw [List.foldl_append, ih hkeys hlater.prefix]
    simp only [gathered, textOf_append, callsOf_append, argumentsOf_append, List.map_append]
    cases fragment with
    | text text =>
      simp [StreamAccumulator.processFragment, textOf, callsOf, Fragment.asText, Fragment.asCall]
    | call index id name =>
      have hnew : index ∉ (callsOf fragments).map (·.1) := fun hmem =>
        List.disjoint_of_nodup_append hdistinct hmem List.mem_cons_self
      have hnone := hlater.prefix.argumentsOf_eq_nil hnew
      simp [StreamAccumulator.processFragment, hnone, textOf, callsOf, Fragment.asText,
        Fragment.asCall]
    | args index json =>
      have hmem := hlater fragments index json [] rfl
      have happend := @appendJson_map index json (callsOf fragments) (argumentsOf · fragments)
        hkeys hmem
      simp only [List.foldl_cons, List.foldl_nil, StreamAccumulator.processFragment, happend,
        argumentsOf_args]
      simp [textOf, callsOf, Fragment.asText, Fragment.asCall]

/-! ### The two replies -/

variable {parse : Text → Option Json} {decode : Text → Option OpenAiStreamChunk} {lines : List Text}
  {msg : SpokenMessage} {response choice : Json} {model : Text}

theorem textAt_eq (j : Json) (key default : String) :
    textAt j key default = (stringAt j key).getD default.toList := by
  rw [textAt, stringAt]
  cases (j.field key).asStr <;> rfl

theorem streamed_stop (events : List StreamEvent) (reason : Text) :
    (((events ++ [StreamEvent.messageStop reason]).filterMap stopOf).getLast?).getD [] = reason := by
  rw [List.filterMap_append]
  show ((_ ++ [reason]).getLast?).getD [] = reason
  rw [List.getLast?_concat]
  rfl

theorem streamedReply_openAi (h : SplitsInto msg (reading decode lines).1) :
    streamedReply parse (OpenAiStreamState.stream decode {} lines) =
      ⟨msg.text, msg.calls.map fun call =>
        (call.id, call.name, streamedInput parse call.arguments),
        stopReasonOf (reading decode lines).2⟩ := by
  have hacc : StreamAccumulator.processAll {} (OpenAiStreamState.stream decode {} lines) =
      gathered (reading decode lines).1 := by
    rw [OpenAiStreamState.stream_eq, StreamAccumulator.processAll_append, processAll_ending,
      processAll_emits, foldl_processFragment h.distinct h.later]
  have hcalls : ((gathered (reading decode lines).1).toolCalls.map fun call =>
      (call.id, call.name, streamedInput parse call.json)) =
      msg.calls.map fun call => (call.id, call.name, streamedInput parse call.arguments) := by
    rw [← h.calls, gathered, List.map_map, List.map_map]
    rfl
  have hstop : ((OpenAiStreamState.stream decode {} lines).filterMap stopOf).getLast?.getD [] =
      stopReasonOf (reading decode lines).2 := by
    rw [OpenAiStreamState.stream_eq, OpenAiStreamState.ending, ← List.append_assoc]
    exact streamed_stop _ _
  rw [streamedReply, hacc, hcalls, hstop]
  exact congrArg (Reply.mk · _ _) h.text

/-- Lists that read alike are used alike. -/
theorem map_eq_of_reads {α β γ δ : Type*} {f : α → γ} {g : β → γ} {f' : α → δ} {g' : β → δ}
    (hread : ∀ a b, f a = g b → f' a = g' b) {as : List α} {bs : List β}
    (h : as.map f = bs.map g) : as.map f' = bs.map g' := by
  induction as generalizing bs with
  | nil =>
    cases bs with
    | nil => rfl
    | cons b bs => cases h
  | cons a as ih =>
    cases bs with
    | nil => cases h
    | cons b bs =>
      obtain ⟨hhead, htail⟩ := List.cons.inj h
      exact congrArg₂ List.cons (hread a b hhead) (ih htail)

theorem openaiToolUse_of_read (tc : Json) (call : SpokenCall)
    (h : readCall tc = (some call.id, some call.name, some call.arguments)) :
    openaiToolUse parse tc = .toolUse call.id call.name (healToolArgs parse call.arguments) := by
  obtain ⟨hid, hname, harguments⟩ : stringAt tc "id" = some call.id ∧
      stringAt (tc.field "function") "name" = some call.name ∧
      stringAt (tc.field "function") "arguments" = some call.arguments := by
    simpa only [readCall, Prod.mk.injEq] using h
  rw [openaiToolUse, textAt_eq, textAt_eq, textAt_eq, hid, hname, harguments]
  rfl

theorem openaiContent_eq (h : Holds response choice msg) :
    openaiContent parse (choice.field "message") =
      (if msg.text.isEmpty then [] else [.text msg.text]) ++ msg.calls.map fun call =>
        .toolUse call.id call.name (healToolArgs parse call.arguments) := by
  rw [openaiContent, map_eq_of_reads openaiToolUse_of_read h.calls, ← h.text, stringAt]
  cases ((choice.field "message").field "content").asStr <;> rfl

theorem reply_openAi (h : Holds response choice msg) : ∃ reply,
    openaiResponseToAnthropic parse model response = .ok reply ∧
      reply.reply = ⟨msg.text, msg.calls.map fun call =>
        (call.id, call.name, some (healToolArgs parse call.arguments)),
        openaiStopReason (msg.finishReason.getD "end_turn".toList)⟩ := by
  rw [openaiResponseToAnthropic, h.first]
  refine ⟨_, rfl, ?_⟩
  simp only [AnthropicResponse.reply, openaiContent_eq h, textAt_eq, h.finish, Option.getD_some,
    List.filterMap_append, List.filterMap_map]
  have htexts : msg.calls.filterMap (ContentBlock.asText ∘ fun call =>
      .toolUse call.id call.name (healToolArgs parse call.arguments)) = [] :=
    List.filterMap_eq_nil_iff.mpr fun _ _ => rfl
  have huses : msg.calls.filterMap (ContentBlock.asToolUse ∘ fun call =>
      .toolUse call.id call.name (healToolArgs parse call.arguments)) =
      msg.calls.map fun call => (call.id, call.name, healToolArgs parse call.arguments) := by
    rw [← List.filterMap_eq_map]
    rfl
  rw [htexts, huses]
  cases msg.text with
  | nil => simp
  | cons c t => simp [ContentBlock.asText, ContentBlock.asToolUse]

theorem streamedInput_object {arguments : Text} (h : IsObjectText parse arguments) :
    streamedInput parse arguments = some (healToolArgs parse arguments) := by
  obtain ⟨hne, members, hparse⟩ := h
  rw [streamedInput, if_neg (by simpa using hne), healToolArgs, healJson_of_parse hne hparse]

/-- The two paths name a stop alike, unless it is the token limit. -/
theorem stopReason_agrees (finishReason : Option Text) :
    stopReasonOf finishReason = openaiStopReason (finishReason.getD "end_turn".toList) ↔
      finishReason ≠ some "length".toList := by
  cases finishReason with
  | none => exact iff_of_true (by decide) (fun h => nomatch h)
  | some reason =>
    show streamedStopReason reason = openaiStopReason reason ↔ _
    rw [streamedStopReason, openaiStopReason, Ne, Option.some.injEq]
    by_cases hlength : reason = "length".toList
    · rw [hlength]
      decide
    · simp only [hlength, if_false, not_false_eq_true]

theorem openAi_agrees (h : Holds response choice msg) (hsplit : SplitsInto msg (reading decode lines).1)
    (hfinish : (reading decode lines).2 = msg.finishReason)
    (hobjects : ∀ call ∈ msg.calls, IsObjectText parse call.arguments) :
    (∃ reply, openaiResponseToAnthropic parse model response = .ok reply ∧
      streamedReply parse (OpenAiStreamState.stream decode {} lines) = reply.reply) ↔
      msg.finishReason ≠ some "length".toList := by
  obtain ⟨reply, hreply, hwhole⟩ := @reply_openAi parse msg response choice model h
  have hcalls : (msg.calls.map fun call => (call.id, call.name, streamedInput parse call.arguments)) =
      msg.calls.map fun call => (call.id, call.name, some (healToolArgs parse call.arguments)) :=
    List.map_congr_left fun call hmem => by rw [streamedInput_object (hobjects call hmem)]
  rw [streamedReply_openAi hsplit, hcalls, hfinish, ← stopReason_agrees]
  constructor
  · rintro ⟨reply', hreply', heq⟩
    cases hreply.symm.trans hreply'
    rw [hwhole] at heq
    exact congrArg Reply.stopReason heq
  · intro hstop
    exact ⟨reply, hreply, by rw [hwhole, hstop]⟩

end Nanna.Llm
