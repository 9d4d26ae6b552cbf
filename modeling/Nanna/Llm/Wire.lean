import Nanna.Lib.Splits
import Nanna.Lib.Utf8
import Nanna.Llm.Messages

/-!
# Requests on an OpenAI-shaped wire

A user message becomes a user message with its text and images, and then a tool message for each of
its results. So the results that answer an assistant message follow it directly where the answering
message holds nothing else, and otherwise after what that message says (`wire_conversion`). A note
beside a result comes between the call and its answer (`note_before_result`). Nothing that a role may
hold is lost (`NothingLost`): texts, images, tool uses and results are on the wire once each, in the
order of their messages; an image of an assistant message and a tool use of a user message are not
sent.

The wire is a `flatMap` over the messages, so a message of the wire is traced back to the message it
comes from (`answer_follows`), and the messages of one role are counted off one by one
(`filter_wire`).
-/

namespace Nanna.Llm

open Nanna.Lib

/-- A JSON string. -/
def jsonText (text : Text) : Json := .str (String.ofList text)

/-- How the arguments of a call are encoded. -/
inductive ToolArgsWire where
  | jsonString
  | jsonObject
  deriving DecidableEq

def ERROR_PREFIX : Text := "Error: ".toList

/-- Whether a content starts with the error prefix, in any case of its letters. -/
def announcesError (content : Text) : Bool :=
  match Text.splitBytes ERROR_PREFIX.length content with
  | some (head, _) => head.map Char.toLower = ERROR_PREFIX.map Char.toLower
  | none => false

/-- An error result travels as a prefix, unless the content announces itself as one. -/
def wireToolResultContent (content : Text) (isError : Bool) : Text :=
  if isError && ! announcesError content then ERROR_PREFIX ++ content else content

def joinLines (texts : List Text) : Text := ['\n'].intercalate texts

/-- What an image that is not sent is named as. -/
def namedImage (url : Text) : Text :=
  "\n[image at ".toList ++ url ++ " — not sent: this model takes inline images only]".toList

def inlineData : ImageSource → Option Text
  | .base64 _ data => some data
  | .url _ => none

def namedUrl : ImageSource → Text
  | .base64 _ _ => []
  | .url url => namedImage url

/-- An image as an `image_url`. -/
def imageUrl : ImageSource → Text
  | .base64 mediaType data => "data:".toList ++ mediaType ++ ";base64,".toList ++ data
  | .url url => url

def imagePart (image : ImageSource) : Json :=
  .obj [("type", .str "image_url"), ("image_url", .obj [("url", jsonText (imageUrl image))])]

/-- A user message with images in the wire's own shape. -/
def wireUserMessage (text : Text) (images : List ImageSource) (wire : ToolArgsWire) : Json :=
  if images.isEmpty then .obj [("role", .str "user"), ("content", jsonText text)]
  else
    match wire with
    | .jsonObject => .obj [("role", .str "user"),
        ("content", jsonText (text ++ images.flatMap namedUrl)),
        ("images", .arr ((images.filterMap inlineData).map jsonText))]
    | .jsonString => .obj [("role", .str "user"),
        ("content", .arr (.obj [("type", .str "text"), ("text", jsonText text)] ::
          images.map imagePart))]

def wireToolResult (result : Text × Text × Bool) : Json :=
  .obj [("role", .str "tool"), ("tool_call_id", jsonText result.1),
    ("content", jsonText (wireToolResultContent result.2.1 result.2.2))]

/-- The wire messages for a user message: its texts and images, then its tool results. -/
def wireUserMessages (msg : AnthropicMessage) (wire : ToolArgsWire) : List Json :=
  (if msg.texts.isEmpty && msg.images.isEmpty then []
    else [wireUserMessage (joinLines msg.texts) msg.images wire]) ++
    msg.toolResults.map wireToolResult

variable (print : Json → Text)

/-- Ollama rejects arguments that are not an object. -/
def wireArguments (wire : ToolArgsWire) (input : Json) : Json :=
  match wire with
  | .jsonString => jsonText (print input)
  | .jsonObject => if input.isObject then input else .obj []

def wireToolCall (wire : ToolArgsWire) (use : Text × Text × Json) : Json :=
  .obj [("id", jsonText use.1), ("type", .str "function"),
    ("function", .obj [("name", jsonText use.2.1), ("arguments", wireArguments print wire use.2.2)])]

/-- The wire message for an assistant message: its texts, null where there are none, and its calls. -/
def wireAssistantMessage (msg : AnthropicMessage) (wire : ToolArgsWire) : Json :=
  .obj ([("role", .str "assistant"),
      ("content", if msg.texts.isEmpty then .null else jsonText (joinLines msg.texts))] ++
    if msg.toolUses.isEmpty then []
    else [("tool_calls", .arr (msg.toolUses.map (wireToolCall print wire)))])

/-- The wire messages for one message. -/
def wireMessages (wire : ToolArgsWire) (msg : AnthropicMessage) : List Json :=
  if msg.role = "user".toList then wireUserMessages msg wire
  else if msg.role = "assistant".toList then [wireAssistantMessage print msg wire]
  else []

def wireSystem (system : Option Text) : List Json :=
  match system with
  | some system =>
    if system.isEmpty then []
    else [.obj [("role", .str "system"), ("content", jsonText system)]]
  | none => []

def wireTool (tool : ToolDefinition) : Json :=
  .obj [("type", .str "function"),
    ("function", .obj [("name", jsonText tool.name), ("description", jsonText tool.description),
      ("parameters", tool.inputSchema)])]

def anthropicToWireRequest (request : AnthropicRequest) (wire : ToolArgsWire) :
    List Json × Option Json :=
  (wireSystem request.system ++ request.messages.flatMap (wireMessages print wire),
    request.tools.bind fun tools =>
      if tools.isEmpty then none else some (.arr (tools.map wireTool)))

/-! ## Reading the wire -/

def textField (key : String) (message : Json) : Option Text :=
  (message.field key).asStr.map (·.toList)

def listField (key : String) (message : Json) : List Json := (message.field key).asArray.getD []

def HasRole (role : String) (message : Json) : Prop := message.field "role" = .str role

instance (role : String) (message : Json) : Decidable (HasRole role message) :=
  inferInstanceAs (Decidable (message.field "role" = .str role))

def callIds (message : Json) : List (Option Text) :=
  (listField "tool_calls" message).map (textField "id")

/-- The images of a user message, as the wire carries them. -/
def sentImages (wire : ToolArgsWire) (message : Json) : List Json :=
  match wire with
  | .jsonString => (listField "content" message).drop 1
  | .jsonObject => listField "images" message

/-- The text of a user message. -/
def sentText (message : Json) : Option Text :=
  match listField "content" message with
  | part :: _ => textField "text" part
  | [] => textField "content" message

/-- Each assistant message with tool uses is followed by a user message with one result per use. -/
def Answered (messages : List AnthropicMessage) : Prop :=
  ∀ before msg after, messages = before ++ msg :: after → msg.role = "assistant".toList →
    msg.toolUses ≠ [] → ∃ answer rest, after = answer :: rest ∧ answer.role = "user".toList ∧
      (answer.toolResults.map (·.1)).Perm (msg.toolUses.map (·.1))

/-- The tool messages answering the calls of a message come directly after it. -/
def ResultsAdjacent (messages : List Json) : Prop :=
  ∀ pre call post, messages = pre ++ call :: post → callIds call ≠ [] → ∃ tools rest,
    post = tools ++ rest ∧ (∀ message ∈ tools, HasRole "tool" message) ∧
      (tools.map (textField "tool_call_id")).Perm (callIds call)

/-- They come after it, with at most one user message in between. -/
def ResultsFollow (messages : List Json) : Prop :=
  ∀ pre call post, messages = pre ++ call :: post → callIds call ≠ [] → ∃ said tools rest,
    post = said ++ tools ++ rest ∧ said.length ≤ 1 ∧ (∀ message ∈ said, HasRole "user" message) ∧
      (∀ message ∈ tools, HasRole "tool" message) ∧
      (tools.map (textField "tool_call_id")).Perm (callIds call)

variable {print : Json → Text} {wire : ToolArgsWire} {msg : AnthropicMessage}

@[simp] theorem asStr_jsonText (text : Text) : (jsonText text).asStr.map (·.toList) = some text := by
  simp [jsonText]

@[simp] theorem asArray_jsonText (text : Text) : (jsonText text).asArray = none := rfl

theorem wireToolResult_role (result : Text × Text × Bool) : HasRole "tool" (wireToolResult result) := rfl

theorem wireToolResult_id (result : Text × Text × Bool) :
    textField "tool_call_id" (wireToolResult result) = some result.1 := asStr_jsonText result.1

theorem wireUserMessage_role (text : Text) (images : List ImageSource) :
    HasRole "user" (wireUserMessage text images wire) := by
  unfold wireUserMessage
  split
  · rfl
  · cases wire <;> rfl

theorem wireAssistantMessage_role : HasRole "assistant" (wireAssistantMessage print msg wire) := rfl

/-- The calls of an assistant message are its tool uses. -/
theorem wireAssistantMessage_calls : listField "tool_calls" (wireAssistantMessage print msg wire) =
    msg.toolUses.map (wireToolCall print wire) := by
  unfold wireAssistantMessage
  cases msg.toolUses with
  | nil => rfl
  | cons use uses => rfl

theorem callIds_assistant :
    callIds (wireAssistantMessage print msg wire) = msg.toolUses.map fun use => some use.1 := by
  rw [callIds, wireAssistantMessage_calls, List.map_map]
  exact List.map_congr_left fun use _ => asStr_jsonText use.1

/-! ## Tool results -/

theorem callIds_user (text : Text) (images : List ImageSource) :
    callIds (wireUserMessage text images wire) = [] := by
  unfold wireUserMessage
  split
  · rfl
  · cases wire <;> rfl

theorem callIds_userMessages {message : Json} (hmem : message ∈ wireUserMessages msg wire) :
    callIds message = [] := by
  rcases List.mem_append.mp hmem with hmem | hmem
  · split at hmem
    · cases hmem
    · rw [List.mem_singleton.mp hmem]
      exact callIds_user _ _
  · obtain ⟨result, -, rfl⟩ := List.mem_map.mp hmem
    rfl

theorem callIds_system {system : Option Text} {message : Json} (hmem : message ∈ wireSystem system) :
    callIds message = [] := by
  unfold wireSystem at hmem
  split at hmem
  · split at hmem
    · cases hmem
    · rw [List.mem_singleton.mp hmem]
      rfl
  · cases hmem

theorem wireMessages_user (h : msg.role = "user".toList) :
    wireMessages print wire msg = wireUserMessages msg wire := if_pos h

theorem wireMessages_assistant (h : msg.role = "assistant".toList) :
    wireMessages print wire msg = [wireAssistantMessage print msg wire] := by
  rw [wireMessages, if_neg (by rw [h]; decide), if_pos h]

/-- Only an assistant message carries calls. -/
theorem assistant_of_calls {message : Json} (hmem : message ∈ wireMessages print wire msg)
    (hcalls : callIds message ≠ []) : msg.role = "assistant".toList := by
  rw [wireMessages] at hmem
  split at hmem
  · exact absurd (callIds_userMessages hmem) hcalls
  · split at hmem
    · rename_i hrole
      exact hrole
    · cases hmem

/-- After an assistant message with calls come the wire messages of the message that answers it. -/
theorem answer_follows {request : AnthropicRequest} (h : Answered request.messages)
    {pre post : List Json} {call : Json}
    (hsplit : (anthropicToWireRequest print request wire).1 = pre ++ call :: post)
    (hcalls : callIds call ≠ []) : ∃ answer ∈ request.messages, ∃ rest,
      answer.role = "user".toList ∧ post = wireUserMessages answer wire ++ rest ∧
        (answer.toolResults.map fun result => some result.1).Perm (callIds call) := by
  rcases eq_append_split hsplit with ⟨mid, hsystem, -⟩ | ⟨mid, -, hmessages⟩
  · exact absurd (callIds_system (hsystem ▸ List.mem_append_right _ List.mem_cons_self)) hcalls
  · obtain ⟨before, msg, after, mid', tail, hrequest, hmsg, hpost⟩ := flatMap_split hmessages
    have hrole := assistant_of_calls (hmsg ▸ List.mem_append_right _ List.mem_cons_self) hcalls
    rw [wireMessages_assistant hrole] at hmsg
    obtain ⟨rfl, heq⟩ := List.append_eq_cons_iff.mp hmsg.symm |>.resolve_right (by simp)
    obtain ⟨rfl, rfl⟩ := List.cons.inj heq
    rw [callIds_assistant] at hcalls ⊢
    obtain ⟨answer, rest, rfl, huser, hperm⟩ :=
      h before msg after hrequest hrole (mt (fun hnil => by rw [hnil]; rfl) hcalls)
    refine ⟨answer, by rw [hrequest]; simp, rest.flatMap (wireMessages print wire), huser, ?_, ?_⟩
    · rw [hpost, List.flatMap_cons, wireMessages_user huser]
      rfl
    · have hsome := hperm.map some
      rwa [List.map_map, List.map_map] at hsome

theorem toolMessages_ids (results : List (Text × Text × Bool)) :
    (results.map wireToolResult).map (textField "tool_call_id") =
      results.map fun result => some result.1 := by
  rw [List.map_map]
  exact List.map_congr_left fun result _ => wireToolResult_id result

theorem toolMessages_role (results : List (Text × Text × Bool)) :
    ∀ message ∈ results.map wireToolResult, HasRole "tool" message := by
  intro message hmem
  obtain ⟨result, -, rfl⟩ := List.mem_map.mp hmem
  exact wireToolResult_role result

/-- The results of a request that answers its calls follow them, after one user message at most. -/
theorem results_follow {request : AnthropicRequest} (h : Answered request.messages) :
    ResultsFollow (anthropicToWireRequest print request wire).1 := by
  intro pre call post hsplit hcalls
  obtain ⟨answer, -, rest, -, rfl, hperm⟩ := answer_follows h hsplit hcalls
  refine ⟨_, answer.toolResults.map wireToolResult, rest, rfl, ?_, ?_, toolMessages_role _, ?_⟩
  · split
    · exact Nat.zero_le 1
    · exact Nat.le_refl 1
  · intro message hmem
    split at hmem
    · cases hmem
    · rw [List.mem_singleton.mp hmem]
      exact wireUserMessage_role _ _
  · rw [toolMessages_ids]
    exact hperm

/-- They follow directly where the answering messages hold nothing else. -/
theorem results_adjacent {request : AnthropicRequest} (h : Answered request.messages)
    (hbare : ∀ msg ∈ request.messages, msg.role = "user".toList → msg.toolResults ≠ [] →
      msg.texts = [] ∧ msg.images = []) :
    ResultsAdjacent (anthropicToWireRequest print request wire).1 := by
  intro pre call post hsplit hcalls
  obtain ⟨answer, hmem, rest, huser, rfl, hperm⟩ := answer_follows h hsplit hcalls
  have hresults : answer.toolResults ≠ [] := by
    intro hnil
    rw [hnil] at hperm
    exact hcalls (List.nil_perm.mp hperm)
  obtain ⟨htexts, himages⟩ := hbare answer hmem huser hresults
  refine ⟨answer.toolResults.map wireToolResult, rest, ?_, toolMessages_role _, ?_⟩
  · rw [wireUserMessages, htexts, himages]
    rfl
  · rw [toolMessages_ids]
    exact hperm

/-! ## Nothing is lost -/

def users (messages : List AnthropicMessage) : List AnthropicMessage :=
  messages.filter (·.role = "user".toList)

def assistants (messages : List AnthropicMessage) : List AnthropicMessage :=
  messages.filter (·.role = "assistant".toList)

/-- The message holds text or images. -/
def speaks (msg : AnthropicMessage) : Bool := ! (msg.texts.isEmpty && msg.images.isEmpty)

/-- The images of a message on a wire. -/
def carriedImages (wire : ToolArgsWire) (images : List ImageSource) : List Json :=
  match wire with
  | .jsonString => images.map imagePart
  | .jsonObject => (images.filterMap inlineData).map jsonText

/-- The text of a message on a wire: Ollama takes no URLs, so these images are named in it. -/
def carriedText (wire : ToolArgsWire) (msg : AnthropicMessage) : Text :=
  match wire with
  | .jsonString => joinLines msg.texts
  | .jsonObject => joinLines msg.texts ++ msg.images.flatMap namedUrl

/-- Texts, images, tool uses and results are on the wire once each and in order, and errors read as
such. -/
structure NothingLost (print : Json → Text) (wire : ToolArgsWire) (request : AnthropicRequest)
    (messages : List Json) : Prop where
  userTexts : (messages.filter (HasRole "user" ·)).map sentText =
    ((users request.messages).filter speaks).map fun msg => some (carriedText wire msg)
  images : (messages.filter (HasRole "user" ·)).flatMap (sentImages wire) =
    (users request.messages).flatMap fun msg => carriedImages wire msg.images
  assistantTexts : (messages.filter (HasRole "assistant" ·)).map (·.field "content") =
    (assistants request.messages).map fun msg =>
      if msg.texts.isEmpty then .null else jsonText (joinLines msg.texts)
  calls : messages.flatMap (listField "tool_calls") =
    (assistants request.messages).flatMap fun msg => msg.toolUses.map (wireToolCall print wire)
  results : messages.filter (HasRole "tool" ·) =
    (users request.messages).flatMap fun msg => msg.toolResults.map wireToolResult
  errors : ∀ msg ∈ users request.messages, ∀ id content, (id, content, true) ∈ msg.toolResults →
    ∃ message ∈ messages, textField "tool_call_id" message = some id ∧
      ∃ text, textField "content" message = some text ∧ announcesError text = true

theorem sentText_user (msg : AnthropicMessage) :
    sentText (wireUserMessage (joinLines msg.texts) msg.images wire) = some (carriedText wire msg) := by
  unfold wireUserMessage carriedText
  cases msg.images with
  | nil => cases wire with
    | jsonString => exact asStr_jsonText _
    | jsonObject =>
      rw [List.flatMap_nil, List.append_nil]
      exact asStr_jsonText _
  | cons image images => cases wire with
    | jsonString => exact asStr_jsonText _
    | jsonObject => exact asStr_jsonText _

theorem sentImages_user (text : Text) (images : List ImageSource) :
    sentImages wire (wireUserMessage text images wire) = carriedImages wire images := by
  unfold wireUserMessage
  cases images with
  | nil => cases wire <;> rfl
  | cons image images => cases wire <;> rfl

theorem HasRole.not {role other : String} {message : Json} (h : HasRole role message)
    (hne : role ≠ other) : ¬ HasRole other message := fun h' =>
  hne (Json.str.inj (h.symm.trans h'))

theorem filter_role {role : String} {messages : List Json}
    (h : ∀ message ∈ messages, HasRole role message) :
    messages.filter (HasRole role ·) = messages :=
  List.filter_eq_self.mpr fun message hmem => decide_eq_true (h message hmem)

theorem filter_other {role other : String} {messages : List Json}
    (h : ∀ message ∈ messages, HasRole role message) (hne : role ≠ other) :
    messages.filter (HasRole other ·) = [] :=
  List.filter_eq_nil_iff.mpr fun message hmem htrue =>
    (h message hmem).not hne (of_decide_eq_true htrue)

theorem wireSystem_role (system : Option Text) :
    ∀ message ∈ wireSystem system, HasRole "system" message := by
  intro message hmem
  unfold wireSystem at hmem
  split at hmem
  · split at hmem
    · cases hmem
    · rw [List.mem_singleton.mp hmem]
      rfl
  · cases hmem

/-- The wire message for what a user message says. -/
def said (msg : AnthropicMessage) (wire : ToolArgsWire) : List Json :=
  if speaks msg then [wireUserMessage (joinLines msg.texts) msg.images wire] else []

theorem wireUserMessages_eq :
    wireUserMessages msg wire = said msg wire ++ msg.toolResults.map wireToolResult := by
  rw [wireUserMessages, said, speaks]
  cases msg.texts.isEmpty && msg.images.isEmpty <;> rfl

theorem said_role : ∀ message ∈ said msg wire, HasRole "user" message := by
  intro message hmem
  rw [said] at hmem
  split at hmem
  · rw [List.mem_singleton.mp hmem]
    exact wireUserMessage_role _ _
  · cases hmem

/-- The messages of one role, message by message. -/
theorem filter_wire {role : String} (hrole : "system" ≠ role) (request : AnthropicRequest) :
    (anthropicToWireRequest print request wire).1.filter (HasRole role ·) =
      request.messages.flatMap fun msg => (wireMessages print wire msg).filter (HasRole role ·) := by
  rw [anthropicToWireRequest, List.filter_append, filter_other (wireSystem_role _) hrole,
    List.nil_append, List.filter_flatMap]

/-- A list mapped where a condition holds. -/
theorem flatMap_if {α β : Type*} {p : α → Bool} {f : α → List β} (xs : List α) :
    (xs.flatMap fun x => if p x then f x else []) = (xs.filter p).flatMap f := by
  induction xs with
  | nil => rfl
  | cons x xs ih =>
    rw [List.flatMap_cons, ih, List.filter_cons]
    split
    · rfl
    · rfl

theorem wireMessages_other (huser : msg.role ≠ "user".toList)
    (hassistant : msg.role ≠ "assistant".toList) : wireMessages print wire msg = [] := by
  rw [wireMessages, if_neg huser, if_neg hassistant]

theorem assistant_role :
    ∀ message ∈ [wireAssistantMessage print msg wire], HasRole "assistant" message := by
  intro message hmem
  rw [List.mem_singleton.mp hmem]
  exact wireAssistantMessage_role

/-- A user message is told by its own wire messages. -/
theorem filter_not_user {role : String} (hrole : "assistant" ≠ role)
    (huser : msg.role ≠ "user".toList) :
    (wireMessages print wire msg).filter (HasRole role ·) = [] := by
  by_cases hassistant : msg.role = "assistant".toList
  · rw [wireMessages_assistant hassistant]
    exact filter_other assistant_role hrole
  · rw [wireMessages_other huser hassistant]
    rfl

theorem filter_user (request : AnthropicRequest) :
    (anthropicToWireRequest print request wire).1.filter (HasRole "user" ·) =
      (users request.messages).flatMap fun msg => said msg wire := by
  rw [filter_wire (by decide), users, ← flatMap_if]
  refine congrArg (request.messages.flatMap ·) (funext fun msg => ?_)
  by_cases huser : msg.role = "user".toList
  · rw [wireMessages_user huser, wireUserMessages_eq, List.filter_append, filter_role said_role,
      filter_other (toolMessages_role _) (by decide), List.append_nil, if_pos (decide_eq_true huser)]
  · rw [if_neg (mt of_decide_eq_true huser)]
    exact filter_not_user (by decide) huser

theorem filter_tool (request : AnthropicRequest) :
    (anthropicToWireRequest print request wire).1.filter (HasRole "tool" ·) =
      (users request.messages).flatMap fun msg => msg.toolResults.map wireToolResult := by
  rw [filter_wire (by decide), users, ← flatMap_if]
  refine congrArg (request.messages.flatMap ·) (funext fun msg => ?_)
  by_cases huser : msg.role = "user".toList
  · rw [wireMessages_user huser, wireUserMessages_eq, List.filter_append,
      filter_other said_role (by decide), filter_role (toolMessages_role _), List.nil_append,
      if_pos (decide_eq_true huser)]
  · rw [if_neg (mt of_decide_eq_true huser)]
    exact filter_not_user (by decide) huser

theorem filter_assistant (request : AnthropicRequest) :
    (anthropicToWireRequest print request wire).1.filter (HasRole "assistant" ·) =
      (assistants request.messages).map fun msg => wireAssistantMessage print msg wire := by
  rw [filter_wire (by decide), assistants, List.map_eq_flatMap, ← flatMap_if]
  refine congrArg (request.messages.flatMap ·) (funext fun msg => ?_)
  by_cases hassistant : msg.role = "assistant".toList
  · rw [wireMessages_assistant hassistant, filter_role assistant_role,
      if_pos (decide_eq_true hassistant)]
  · rw [if_neg (mt of_decide_eq_true hassistant)]
    by_cases huser : msg.role = "user".toList
    · rw [wireMessages_user huser, wireUserMessages_eq, List.filter_append,
        filter_other said_role (by decide), filter_other (toolMessages_role _) (by decide)]
      rfl
    · rw [wireMessages_other huser hassistant]
      rfl

/-- A message without calls has none. -/
theorem listField_of_callIds {message : Json} (h : callIds message = []) :
    listField "tool_calls" message = [] := List.map_eq_nil_iff.mp h

/-- Calls are carried by the assistant messages alone. -/
theorem wireCalls (request : AnthropicRequest) :
    (anthropicToWireRequest print request wire).1.flatMap (listField "tool_calls") =
      (assistants request.messages).flatMap fun msg => msg.toolUses.map (wireToolCall print wire) := by
  have hsystem : (wireSystem request.system).flatMap (listField "tool_calls") = [] :=
    List.flatMap_eq_nil_iff.mpr fun message hmem => listField_of_callIds (callIds_system hmem)
  rw [anthropicToWireRequest, List.flatMap_append, hsystem, List.nil_append, List.flatMap_assoc,
    assistants, ← flatMap_if]
  refine congrArg (request.messages.flatMap ·) (funext fun msg => ?_)
  by_cases hassistant : msg.role = "assistant".toList
  · rw [wireMessages_assistant hassistant, List.flatMap_singleton, wireAssistantMessage_calls,
      if_pos (decide_eq_true hassistant)]
  · rw [if_neg (mt of_decide_eq_true hassistant)]
    exact List.flatMap_eq_nil_iff.mpr fun message hmem => listField_of_callIds
      (not_not.mp (mt (assistant_of_calls hmem) hassistant))

theorem announcesError_prefix (content : Text) : announcesError (ERROR_PREFIX ++ content) = true := by
  have hlen : ERROR_PREFIX.length = Text.byteLen ERROR_PREFIX := by decide
  rw [announcesError, hlen, Text.splitBytes_append]
  exact decide_eq_true rfl

/-- An error result reads as one. -/
theorem announcesError_result (content : Text) :
    announcesError (wireToolResultContent content true) = true := by
  rw [wireToolResultContent]
  cases hannounced : announcesError content with
  | true => exact hannounced
  | false => exact announcesError_prefix content

theorem nothing_lost (print : Json → Text) (wire : ToolArgsWire) (request : AnthropicRequest) :
    NothingLost print wire request (anthropicToWireRequest print request wire).1 where
  userTexts := by
    rw [filter_user, List.map_flatMap, List.map_eq_flatMap, ← flatMap_if]
    refine congrArg ((users request.messages).flatMap ·) (funext fun msg => ?_)
    rw [said]
    split
    · rw [List.map_singleton, sentText_user]
    · rfl
  images := by
    rw [filter_user, List.flatMap_assoc]
    refine congrArg ((users request.messages).flatMap ·) (funext fun msg => ?_)
    rw [said]
    cases hspeaks : speaks msg with
    | true => rw [if_pos rfl, List.flatMap_singleton, sentImages_user]
    | false =>
      have hnone : msg.images = [] := by
        rw [speaks, Bool.not_eq_false', Bool.and_eq_true] at hspeaks
        exact List.isEmpty_iff.mp hspeaks.2
      rw [hnone]
      cases wire <;> rfl
  assistantTexts := by
    rw [filter_assistant, List.map_map]
    rfl
  calls := wireCalls request
  results := filter_tool request
  errors := by
    intro msg hmsg id content hresult
    have hwire : wireToolResult (id, content, true) ∈
        (anthropicToWireRequest print request wire).1.filter (HasRole "tool" ·) := by
      rw [filter_tool]
      exact List.mem_flatMap.mpr ⟨msg, hmsg, List.mem_map_of_mem hresult⟩
    exact ⟨_, (List.mem_filter.mp hwire).1, asStr_jsonText id, _, asStr_jsonText _,
      announcesError_result content⟩

/-- **Main result.** The results of a request that answers its calls follow them on the wire, after
one user message at most, directly where the answering messages hold nothing else; and nothing is
lost. -/
theorem wire_conversion (print : Json → Text) (wire : ToolArgsWire) (request : AnthropicRequest)
    (h : Answered request.messages) :
    let messages := (anthropicToWireRequest print request wire).1
    ResultsFollow messages ∧
    ((∀ msg ∈ request.messages, msg.role = "user".toList → msg.toolResults ≠ [] →
      msg.texts = [] ∧ msg.images = []) → ResultsAdjacent messages) ∧
    NothingLost print wire request messages :=
  ⟨results_follow h, results_adjacent h, nothing_lost print wire request⟩

/-- A call that is answered by a result with a note. -/
def answeredWithNote : AnthropicRequest :=
  ⟨none, [⟨"assistant".toList, [.toolUse "c".toList "exec".toList (.obj [])]⟩,
    ⟨"user".toList, [.toolResult "c".toList "ok".toList none, .text "note".toList]⟩], none⟩

theorem answered_pair {call answer : AnthropicMessage} (hrole : answer.role = "user".toList)
    (hids : (answer.toolResults.map (·.1)).Perm (call.toolUses.map (·.1))) :
    Answered [call, answer] := by
  intro before msg after hsplit hassistant huses
  rcases before with _ | ⟨first, _ | ⟨second, before⟩⟩
  · cases hsplit
    exact ⟨answer, [], rfl, hrole, hids⟩
  · cases hsplit
    rw [hrole] at hassistant
    exact absurd hassistant (by decide)
  · cases before <;> cases hsplit

theorem wire_conversion_note : ResultsFollow
    (anthropicToWireRequest (fun _ => "\x7b\x7d".toList) answeredWithNote .jsonString).1 :=
  (wire_conversion _ _ answeredWithNote (answered_pair rfl (by decide))).1

/-- The note comes between the call and its result. An image of an assistant message and a tool use
of a user message are not sent. -/
theorem note_before_result :
    (¬ ∀ (print : Json → Text) (wire : ToolArgsWire) (request : AnthropicRequest),
      Answered request.messages → ResultsAdjacent (anthropicToWireRequest print request wire).1) ∧
    ∀ (print : Json → Text) (wire : ToolArgsWire),
      wireMessages print wire ⟨"assistant".toList, [.image (.url "u".toList)]⟩ =
        wireMessages print wire ⟨"assistant".toList, []⟩ ∧
      wireMessages print wire ⟨"user".toList, [.toolUse "c".toList "exec".toList (.obj [])]⟩ = [] := by
  refine ⟨fun h => ?_, fun print wire => ⟨rfl, rfl⟩⟩
  have hadjacent := h (fun _ => "\x7b\x7d".toList) .jsonString answeredWithNote
    (answered_pair rfl (by decide))
  obtain ⟨tools, rest, hpost, hroles, hids⟩ := hadjacent [] _ _ rfl (by decide)
  cases tools with
  | nil => exact absurd hids.length_eq (by decide)
  | cons tool tools =>
    obtain ⟨rfl, -⟩ := List.cons.inj hpost
    exact absurd (hroles _ List.mem_cons_self) (by decide)

end Nanna.Llm
