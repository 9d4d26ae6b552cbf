import Nanna.Llm.Discipline
import Nanna.Llm.Heal
import Nanna.Llm.Messages

/-!
# Assembling a streamed turn

`assembles`: where a stream starts every block once, adds only to open blocks and stops them all, with
at most one block beside tool calls open at a time (`WellFormed`), the assembler's content is what the
stream says of each block (`blockOf`), in the order the blocks stop. A tool block with an id becomes
one call block and either one call, with the value of its own fragments, or one error result; the text
blocks concatenate to the text.

The assembler keeps a buffer for every tool block but one slot for text and thinking. The invariant
(`Assembled`) reads every buffer off the stream so far: the slot holds what was said of the one open
block, because only that block may have been added to.
-/

namespace Nanna.Loop

open Nanna.Lib Nanna.Llm

/-! ## The assembler -/

/-- A tool block in flight. -/
structure ToolBlock where
  id : Text
  name : Text
  json : Text
  deriving DecidableEq

structure StreamBlockAssembler where
  /-- The text of the turn. -/
  text : Text := []
  /-- The text of the open block. -/
  blockText : Text := []
  thinkingText : Text := []
  thinkingSignature : Text := []
  currentBlockType : String := ""
  toolBlocks : Nat → Option ToolBlock := fun _ => none
  toolUses : List (Text × Text × Json) := []
  contentBlocks : List ContentBlock := []
  errorToolResults : List ContentBlock := []

/-- The error the model reads in place of a result. -/
def malformedArguments (name : Text) : Text :=
  "Error: Your tool call for '".toList ++ name ++
    ("' had malformed JSON arguments and could not be parsed. " ++
      "Please retry with valid JSON.").toList

namespace StreamBlockAssembler

variable (parse : Text → Option Json) (asm : StreamBlockAssembler)

def onText (t : Text) : StreamBlockAssembler :=
  { asm with text := asm.text ++ t, blockText := asm.blockText ++ t }

def onThinking (t : Text) : StreamBlockAssembler :=
  { asm with thinkingText := asm.thinkingText ++ t }

def onSignature (s : Text) : StreamBlockAssembler :=
  { asm with thinkingSignature := asm.thinkingSignature ++ s }

def onBlockStart (index : Nat) (contentType : String) (toolId toolName : Option Text) :
    StreamBlockAssembler :=
  if contentType = "tool_use" then
    { asm with toolBlocks :=
        Function.update asm.toolBlocks index (some ⟨toolId.getD [], toolName.getD [], []⟩) }
  else { asm with currentBlockType := contentType }

/-- A delta before its start opens a block without an id. -/
def onToolDelta (index : Nat) (delta : Text) : StreamBlockAssembler :=
  let block := (asm.toolBlocks index).getD ⟨[], [], []⟩
  { asm with toolBlocks :=
      Function.update asm.toolBlocks index (some { block with json := block.json ++ delta }) }

def finalizeTool (block : ToolBlock) : StreamBlockAssembler :=
  if block.id.isEmpty then asm
  else
    let json := if (Text.trim block.json).isEmpty then "\x7b\x7d".toList else block.json
    match healJson parse json with
    | some input =>
      { asm with
        toolUses := asm.toolUses ++ [(block.id, block.name, input)]
        contentBlocks := asm.contentBlocks ++ [.toolUse block.id block.name input] }
    | none =>
      { asm with
        contentBlocks := asm.contentBlocks ++ [.toolUse block.id block.name (.obj [])]
        errorToolResults := asm.errorToolResults ++
          [.toolResult block.id (malformedArguments block.name) (some true)] }

/-- Whether a thinking block closed, beside the assembler. -/
def onBlockStop (index : Nat) : StreamBlockAssembler × Bool :=
  match asm.toolBlocks index with
  | some block =>
    (finalizeTool parse
      { asm with toolBlocks := Function.update asm.toolBlocks index none } block, false)
  | none =>
    if asm.currentBlockType = "thinking" then
      let signature := if asm.thinkingSignature.isEmpty then none else some asm.thinkingSignature
      ({ asm with
          contentBlocks := asm.contentBlocks ++
            if asm.thinkingText.isEmpty then [] else [.thinking asm.thinkingText signature]
          thinkingText := []
          thinkingSignature := []
          currentBlockType := "" }, true)
    else
      ({ asm with
          contentBlocks := asm.contentBlocks ++
            if asm.blockText.isEmpty then [] else [.text asm.blockText]
          blockText := []
          currentBlockType := "" }, false)

/-- What the streaming loop does with an event. -/
def onEvent (asm : StreamBlockAssembler) : StreamEvent → StreamBlockAssembler
  | .textDelta _ text => asm.onText text
  | .thinkingDelta _ thinking => asm.onThinking thinking
  | .signatureDelta _ signature => asm.onSignature signature
  | .contentBlockStart index contentType toolId toolName =>
    asm.onBlockStart index contentType toolId toolName
  | .contentBlockStop index => (asm.onBlockStop parse index).1
  | .toolUseDelta index partialJson => asm.onToolDelta index partialJson
  | .messageStart .. | .messageStop _ | .messageDelta .. => asm

def assemble (events : List StreamEvent) : StreamBlockAssembler := events.foldl (onEvent parse) {}

end StreamBlockAssembler

/-! ## What a stream says of a block -/

/-- What an event does to the blocks of a turn; where a message stops is of no concern here. -/
def turnAct : StreamEvent → BlockAct Nat String
  | .messageStop _ => .other
  | event => blockAct event

/-- A stream of whole blocks, at most one of them not a tool call at a time. -/
structure WellFormed (events : List StreamEvent) : Prop where
  disciplined : Disciplined (events.map turnAct)
  single : ∀ pre i kind post, events.map turnAct = pre ++ .start i kind :: post →
    kind ≠ "tool_use" → ∀ j kind', .start j kind' ∈ pre → kind' ≠ "tool_use" → .stop j ∈ pre
  stopped : ∀ i kind, .start i kind ∈ events.map turnAct → .stop i ∈ events.map turnAct

/-- The announcement of the block under an index: its type, id and name. -/
def startAt (i : Nat) : StreamEvent → Option (String × Text × Text)
  | .contentBlockStart j contentType toolId toolName =>
    if j = i then some (contentType, toolId.getD [], toolName.getD []) else none
  | _ => none

def startOf (events : List StreamEvent) (i : Nat) : Option (String × Text × Text) :=
  events.findSome? (startAt i)

/-- The pieces that a stream adds to a block. -/
inductive Channel where
  | text
  | thinking
  | signature
  | json

/-- The type of the blocks a channel adds to. -/
def Channel.kind : Channel → String
  | text => "text"
  | thinking | signature => "thinking"
  | json => "tool_use"

def pieceAt (channel : Channel) (i : Nat) : StreamEvent → Text
  | .textDelta j t => match channel with | .text => if j = i then t else [] | _ => []
  | .thinkingDelta j t => match channel with | .thinking => if j = i then t else [] | _ => []
  | .signatureDelta j t => match channel with | .signature => if j = i then t else [] | _ => []
  | .toolUseDelta j t => match channel with | .json => if j = i then t else [] | _ => []
  | _ => []

/-- All that a stream adds to the block under an index. -/
def said (events : List StreamEvent) (i : Nat) (channel : Channel) : Text :=
  events.flatMap (pieceAt channel i)

/-- All that a stream says of a block. -/
structure Told where
  /-- The type, the id and the name. -/
  start : Option (String × Text × Text)
  said : Channel → Text

def told (events : List StreamEvent) (i : Nat) : Told := ⟨startOf events i, said events i⟩

namespace Told

variable (parse : Text → Option Json) (t : Told)

/-- The id and the name of a tool block with an id. -/
def tool : Option (Text × Text) :=
  match t.start with
  | some (kind, id, name) => if kind = "tool_use" ∧ id ≠ [] then some (id, name) else none
  | none => none

/-- The value of the arguments. -/
def input : Option Json :=
  healJson parse (if (Text.trim (t.said .json)).isEmpty then "\x7b\x7d".toList else t.said .json)

def toolUse : Option (Text × Text × Json) :=
  t.tool.bind fun tool => (t.input parse).map fun input => (tool.1, tool.2, input)

def errorResult : Option ContentBlock :=
  t.tool.bind fun tool =>
    if (t.input parse).isSome then none
    else some (.toolResult tool.1 (malformedArguments tool.2) (some true))

def textBlock : Option ContentBlock :=
  if (t.said .text).isEmpty then none else some (.text (t.said .text))

def thinkingBlock : Option ContentBlock :=
  let signature := t.said .signature
  if (t.said .thinking).isEmpty then none
  else some (.thinking (t.said .thinking) (if signature.isEmpty then none else some signature))

/-- The content block that all this makes. -/
def block : Option ContentBlock :=
  match t.start with
  | none => none
  | some (kind, _, _) =>
    if kind = "tool_use" then
      t.tool.map fun tool => .toolUse tool.1 tool.2 ((t.input parse).getD (.obj []))
    else if kind = "thinking" then t.thinkingBlock
    else t.textBlock

end Told

def stopAt : StreamEvent → Option Nat
  | .contentBlockStop index => some index
  | _ => none

/-- The indices in the order their blocks stop. -/
def stops (events : List StreamEvent) : List Nat := events.filterMap stopAt

def textAt : StreamEvent → Text
  | .textDelta _ t => t
  | _ => []

namespace Told

variable {parse : Text → Option Json} {t : Told} {kind : String} {id name : Text}

theorem tool_of_start (h : t.start = some (kind, id, name)) :
    t.tool = if kind = "tool_use" ∧ id ≠ [] then some (id, name) else none := by
  rw [tool, h]

theorem block_of_start (h : t.start = some (kind, id, name)) : t.block parse =
    if kind = "tool_use" then
      t.tool.map fun tool => .toolUse tool.1 tool.2 ((t.input parse).getD (.obj []))
    else if kind = "thinking" then t.thinkingBlock
    else t.textBlock := by
  rw [block, h]

theorem toList_textBlock : t.textBlock.toList =
    if (t.said .text).isEmpty then [] else [.text (t.said .text)] := by
  rw [textBlock]
  split
  · rfl
  · rfl

theorem toList_thinkingBlock : t.thinkingBlock.toList =
    if (t.said .thinking).isEmpty then []
    else [.thinking (t.said .thinking)
      (if (t.said .signature).isEmpty then none else some (t.said .signature))] := by
  rw [thinkingBlock]
  split
  · rfl
  · rfl

theorem spoken_textBlock : (t.textBlock.toList.filterMap (·.asText)).flatten = t.said .text := by
  rw [toList_textBlock]
  split
  · rename_i hempty
    exact (List.isEmpty_iff.mp hempty).symm
  · simp [ContentBlock.asText]

theorem spoken_thinkingBlock : (t.thinkingBlock.toList.filterMap (·.asText)).flatten = [] := by
  rw [toList_thinkingBlock]
  split
  · rfl
  · rfl

theorem toolUse_of_tool (h : t.tool = some (id, name)) :
    t.toolUse parse = (t.input parse).map fun input => (id, name, input) := by
  rw [toolUse, h]
  rfl

theorem errorResult_of_tool (h : t.tool = some (id, name)) : t.errorResult parse =
    if (t.input parse).isSome then none
    else some (.toolResult id (malformedArguments name) (some true)) := by
  rw [errorResult, h]
  rfl

end Told

/-! ## One more event -/

variable {parse : Text → Option Json} {events pre : List StreamEvent} {event : StreamEvent}
  {asm : StreamBlockAssembler} {i j : Nat} {kind : String} {channel : Channel}

theorem startAt_eq_none : startAt i event = none ↔ ∀ kind, turnAct event ≠ .start i kind := by
  cases event with
  | contentBlockStart j contentType toolId toolName =>
    simp only [startAt, turnAct, blockAct, ne_eq, BlockAct.start.injEq, not_and]
    by_cases hj : j = i
    · simp [hj]
    · simp [hj]
  | _ => simp [startAt, turnAct, blockAct]

theorem pieceAt_eq_nil (h : turnAct event ≠ .delta i channel.kind) : pieceAt channel i event = [] := by
  cases event with
  | textDelta j t | thinkingDelta j t | signatureDelta j t | toolUseDelta j t =>
    cases channel with
    | text | thinking | signature | json =>
      simp_all [pieceAt, turnAct, blockAct, Channel.kind]
  | _ => rfl

theorem mem_stops : i ∈ stops events ↔ .stop i ∈ events.map turnAct := by
  simp only [stops, List.mem_filterMap, List.mem_map]
  refine exists_congr fun event => and_congr_right fun _ => ?_
  cases event with
  | _ => simp [stopAt, turnAct, blockAct]

theorem startOf_eq_none : startOf events i = none ↔ ∀ kind, .start i kind ∉ events.map turnAct := by
  simp only [startOf, List.findSome?_eq_none_iff, startAt_eq_none, List.mem_map, not_exists, not_and]
  exact ⟨fun h kind event hevent => h event hevent kind, fun h event hevent kind => h kind event hevent⟩

theorem startOf_snoc : startOf (pre ++ [event]) i = (startOf pre i).or (startAt i event) := by
  rw [startOf, List.findSome?_append]
  simp [startOf]

theorem said_snoc : said (pre ++ [event]) i channel = said pre i channel ++ pieceAt channel i event := by
  simp [said]

theorem stops_snoc : stops (pre ++ [event]) = stops pre ++ (stopAt event).toList := by
  rw [stops, List.filterMap_append]
  cases h : stopAt event with
  | _ => simp [stops, h]

/-- An event that neither starts a block nor adds to it says nothing of it. -/
theorem told_snoc (hstart : ∀ kind, turnAct event ≠ .start i kind)
    (hdelta : ∀ kind, turnAct event ≠ .delta i kind) : told (pre ++ [event]) i = told pre i := by
  rw [told, told, startOf_snoc, startAt_eq_none.mpr hstart, Option.or_none]
  congr 1
  funext channel
  rw [said_snoc, pieceAt_eq_nil (hdelta _), List.append_nil]

/-- Nothing is added to a block of another type. -/
theorem said_eq_nil (hd : Disciplined (pre.map turnAct))
    (h : .start i channel.kind ∉ pre.map turnAct) : said pre i channel = [] := by
  rw [said, List.flatMap_eq_nil_iff]
  intro event hevent
  refine pieceAt_eq_nil fun hact => h (hd.start_of_delta ?_)
  exact hact ▸ List.mem_map_of_mem hevent

/-! ## The buffers -/

/-- The buffer of a tool block that is open. -/
def openTool (pre : List StreamEvent) (i : Nat) : Option ToolBlock :=
  if i ∈ stops pre then none
  else
    match startOf pre i with
    | some (kind, id, name) =>
      if kind = "tool_use" then some ⟨id, name, said pre i .json⟩ else none
    | none => none

/-- The slot for text and thinking: empty, or what was said of the one open block. -/
inductive Slot (pre : List StreamEvent) (asm : StreamBlockAssembler) : Prop where
  | idle (hclosed : ∀ j kind, .start j kind ∈ pre.map turnAct → kind ≠ "tool_use" →
      .stop j ∈ pre.map turnAct)
    (htype : asm.currentBlockType = "") (htext : asm.blockText = [])
    (hthinking : asm.thinkingText = []) (hsignature : asm.thinkingSignature = [])
  | busy (i : Nat) (kind : String) (hstart : .start i kind ∈ pre.map turnAct)
    (hkind : kind ≠ "tool_use") (hopen : .stop i ∉ pre.map turnAct)
    (honly : ∀ j kind', .start j kind' ∈ pre.map turnAct → kind' ≠ "tool_use" → j ≠ i →
      .stop j ∈ pre.map turnAct)
    (htype : asm.currentBlockType = kind) (htext : asm.blockText = said pre i .text)
    (hthinking : asm.thinkingText = said pre i .thinking)
    (hsignature : asm.thinkingSignature = said pre i .signature)

/-- The assembler holds what was said of the open blocks and has put out the ones that stopped. -/
structure Assembled (parse : Text → Option Json) (pre : List StreamEvent)
    (asm : StreamBlockAssembler) : Prop where
  text : asm.text = pre.flatMap textAt
  tools : ∀ i, asm.toolBlocks i = openTool pre i
  slot : Slot pre asm
  content : asm.contentBlocks = (stops pre).filterMap fun i => (told pre i).block parse
  uses : asm.toolUses = (stops pre).filterMap fun i => (told pre i).toolUse parse
  errors : asm.errorToolResults = (stops pre).filterMap fun i => (told pre i).errorResult parse
  spoken : (asm.contentBlocks.filterMap (·.asText)).flatten ++ asm.blockText = asm.text

theorem assembled_nil : Assembled parse [] {} where
  text := rfl
  tools _ := rfl
  slot := .idle (fun _ _ h => absurd h (List.not_mem_nil)) rfl rfl rfl rfl
  content := rfl
  uses := rfl
  errors := rfl
  spoken := rfl

/-- What was put out of the blocks that stopped still stands. -/
theorem filterMap_told {β : Type} (hd : Disciplined ((pre ++ [event]).map turnAct))
    (f : Told → Option β) : ((stops pre).filterMap fun i => f (told (pre ++ [event]) i)) =
      (stops pre).filterMap fun i => f (told pre i) := by
  rw [List.map_append] at hd
  refine List.filterMap_congr fun i hi => ?_
  rw [told_snoc]
  · intro kind hact
    obtain ⟨kind', hstart⟩ := hd.left.start_of_stop (mem_stops.mp hi)
    have hmeets := hd.last
    rw [hact] at hmeets
    exact hmeets kind' hstart
  · intro kind hact
    have hmeets := hd.last
    rw [hact] at hmeets
    exact hmeets.2 (mem_stops.mp hi)

theorem openTool_snoc (hstart : turnAct event ≠ .start i "tool_use")
    (hdelta : turnAct event ≠ .delta i "tool_use") (hstop : turnAct event ≠ .stop i) :
    openTool (pre ++ [event]) i = openTool pre i := by
  have hstops : i ∈ stops (pre ++ [event]) ↔ i ∈ stops pre := by
    simp [mem_stops, hstop.symm]
  rw [openTool, openTool, startOf_snoc, said_snoc, pieceAt_eq_nil hdelta, List.append_nil]
  simp only [hstops]
  cases hpre : startOf pre i with
  | some start => rfl
  | none =>
    rw [Option.none_or]
    cases hevent : startAt i event with
    | none => rfl
    | some start =>
      obtain ⟨kind, id, name⟩ := start
      have hkind : kind ≠ "tool_use" := by
        rintro rfl
        cases event with
        | contentBlockStart j contentType toolId toolName =>
          simp only [startAt, Option.ite_none_right_eq_some, Option.some.injEq, Prod.mk.injEq]
            at hevent
          exact hstart (by rw [turnAct, blockAct, hevent.1, hevent.2.1]; rintro _ ⟨⟩)
        | _ => cases hevent
      simp only [if_neg hkind]

/-- Text and thinking are as they were after an event about a tool block, or about none. -/
theorem Slot.keep {asm' : StreamBlockAssembler} (h : Slot pre asm)
    (hd : Disciplined (pre.map turnAct))
    (hstart : ∀ j kind, turnAct event = .start j kind → kind = "tool_use")
    (hdelta : ∀ j kind, turnAct event = .delta j kind → kind = "tool_use")
    (hstop : ∀ j, turnAct event = .stop j → .start j "tool_use" ∈ pre.map turnAct)
    (htype : asm'.currentBlockType = asm.currentBlockType)
    (htext : asm'.blockText = asm.blockText) (hthinking : asm'.thinkingText = asm.thinkingText)
    (hsignature : asm'.thinkingSignature = asm.thinkingSignature) : Slot (pre ++ [event]) asm' := by
  have hstarts {j : Nat} {kind : String} (hkind : kind ≠ "tool_use") :
      .start j kind ∈ (pre ++ [event]).map turnAct ↔ .start j kind ∈ pre.map turnAct := by
    rw [List.map_append, List.mem_append, or_iff_left]
    exact fun hmem => hkind (hstart j kind (List.mem_singleton.mp hmem).symm)
  have hstops {j : Nat} (hj : .stop j ∈ pre.map turnAct) :
      .stop j ∈ (pre ++ [event]).map turnAct := by
    rw [List.map_append]
    exact List.mem_append_left _ hj
  cases h with
  | idle hclosed htype' htext' hthinking' hsignature' =>
    refine .idle (fun j kind hj hkind => hstops (hclosed j kind ((hstarts hkind).mp hj) hkind)) ?_ ?_
      ?_ ?_
    · rw [htype, htype']
    · rw [htext, htext']
    · rw [hthinking, hthinking']
    · rw [hsignature, hsignature']
  | busy i kind hstart' hkind hopen honly htype' htext' hthinking' hsignature' =>
    have hsaid (channel : Channel) (hne : channel.kind ≠ "tool_use") :
        said (pre ++ [event]) i channel = said pre i channel := by
      rw [said_snoc, pieceAt_eq_nil fun hact => hne (hdelta i _ hact), List.append_nil]
    refine .busy i kind ((hstarts hkind).mpr hstart') hkind ?_
      (fun j kind' hj hkind' hji => hstops (honly j kind' ((hstarts hkind').mp hj) hkind' hji))
      (htype.trans htype') ?_ ?_ ?_
    · rw [List.map_append, List.mem_append, not_or]
      refine ⟨hopen, fun hmem => hkind (hd.kind_eq hstart' (hstop i ?_))⟩
      exact (List.mem_singleton.mp hmem).symm
    · rw [htext, htext', hsaid .text (by decide)]
    · rw [hthinking, hthinking', hsaid .thinking (by decide)]
    · rw [hsignature, hsignature', hsaid .signature (by decide)]

/-- What is added beside tool calls is added to the one open block. -/
theorem Slot.add {asm' : StreamBlockAssembler} (h : Slot pre asm)
    (hact : turnAct event = .delta i kind) (hkind : kind ≠ "tool_use")
    (hstarted : .start i kind ∈ pre.map turnAct) (hopened : .stop i ∉ pre.map turnAct)
    (htype : asm'.currentBlockType = asm.currentBlockType)
    (htext : asm'.blockText = asm.blockText ++ pieceAt .text i event)
    (hthinking : asm'.thinkingText = asm.thinkingText ++ pieceAt .thinking i event)
    (hsignature : asm'.thinkingSignature = asm.thinkingSignature ++ pieceAt .signature i event) :
    Slot (pre ++ [event]) asm' := by
  have hstarts (j : Nat) (kind' : String) :
      .start j kind' ∈ (pre ++ [event]).map turnAct ↔ .start j kind' ∈ pre.map turnAct := by
    simp [hact]
  have hstops (j : Nat) : .stop j ∈ (pre ++ [event]).map turnAct ↔ .stop j ∈ pre.map turnAct := by
    simp [hact]
  cases h with
  | idle hclosed => exact absurd (hclosed i kind hstarted hkind) hopened
  | busy j kind' hstart hkind' hopen honly htype' htext' hthinking' hsignature' =>
    by_cases hji : i = j
    · subst hji
      refine .busy i kind' ?_ hkind' ?_ (fun k kind'' hk hkind'' hne => ?_) (htype.trans htype') ?_ ?_
        ?_
      · exact (hstarts i kind').mpr hstart
      · exact fun hmem => hopen ((hstops i).mp hmem)
      · exact (hstops k).mpr (honly k kind'' ((hstarts k kind'').mp hk) hkind'' hne)
      · rw [htext, htext', said_snoc]
      · rw [hthinking, hthinking', said_snoc]
      · rw [hsignature, hsignature', said_snoc]
    · exact absurd (honly i kind hstarted hkind hji) hopened

namespace Assembled

variable {asm' : StreamBlockAssembler}

/-- A step that puts nothing out. -/
theorem keep (h : Assembled parse pre asm) (hd : Disciplined ((pre ++ [event]).map turnAct))
    (hstop : stopAt event = none) (htext : asm'.text = asm.text ++ textAt event)
    (htools : ∀ i, asm'.toolBlocks i = openTool (pre ++ [event]) i)
    (hslot : Slot (pre ++ [event]) asm') (hcontent : asm'.contentBlocks = asm.contentBlocks)
    (huses : asm'.toolUses = asm.toolUses) (herrors : asm'.errorToolResults = asm.errorToolResults)
    (hblock : asm'.blockText = asm.blockText ++ textAt event) :
    Assembled parse (pre ++ [event]) asm' where
  text := by rw [htext, h.text]; simp
  tools := htools
  slot := hslot
  content := by
    rw [hcontent, h.content, stops_snoc, hstop, Option.toList_none, List.append_nil]
    exact (filterMap_told hd (·.block parse)).symm
  uses := by
    rw [huses, h.uses, stops_snoc, hstop, Option.toList_none, List.append_nil]
    exact (filterMap_told hd (·.toolUse parse)).symm
  errors := by
    rw [herrors, h.errors, stops_snoc, hstop, Option.toList_none, List.append_nil]
    exact (filterMap_told hd (·.errorResult parse)).symm
  spoken := by rw [hcontent, hblock, htext, ← h.spoken, List.append_assoc]

/-- A step that stops a block and puts out what was said of it. -/
theorem put (h : Assembled parse pre asm)
    (hd : Disciplined ((pre ++ [StreamEvent.contentBlockStop i]).map turnAct))
    (htext : asm'.text = asm.text)
    (htools : ∀ j, asm'.toolBlocks j = openTool (pre ++ [.contentBlockStop i]) j)
    (hslot : Slot (pre ++ [.contentBlockStop i]) asm')
    (hcontent : asm'.contentBlocks = asm.contentBlocks ++ ((told pre i).block parse).toList)
    (huses : asm'.toolUses = asm.toolUses ++ ((told pre i).toolUse parse).toList)
    (herrors : asm'.errorToolResults =
      asm.errorToolResults ++ ((told pre i).errorResult parse).toList)
    (hblock : (((told pre i).block parse).toList.filterMap (·.asText)).flatten ++ asm'.blockText =
      asm.blockText) : Assembled parse (pre ++ [.contentBlockStop i]) asm' := by
  have hstops : stops (pre ++ [.contentBlockStop i]) = stops pre ++ [i] := stops_snoc
  have htold : told (pre ++ [.contentBlockStop i]) i = told pre i := told_snoc nofun nofun
  have hout {β : Type} (f : Told → Option β) :
      ((stops (pre ++ [.contentBlockStop i])).filterMap fun j =>
        f (told (pre ++ [.contentBlockStop i]) j)) =
        ((stops pre).filterMap fun j => f (told pre j)) ++ (f (told pre i)).toList := by
    rw [hstops, List.filterMap_append, filterMap_told hd, List.filterMap_cons, htold]
    cases f (told pre i) with
    | _ => rfl
  exact {
    text := by rw [htext, h.text]; simp [textAt]
    tools := htools
    slot := hslot
    content := by rw [hcontent, h.content, hout (·.block parse)]
    uses := by rw [huses, h.uses, hout (·.toolUse parse)]
    errors := by rw [herrors, h.errors, hout (·.errorResult parse)]
    spoken := by
      rw [hcontent, List.filterMap_append, List.flatten_append, List.append_assoc, hblock, h.spoken,
        htext] }

/-- The tool blocks are as they were after an event about none of them. -/
theorem tools_keep (h : Assembled parse pre asm)
    (hstart : ∀ i, turnAct event ≠ .start i "tool_use")
    (hdelta : ∀ i, turnAct event ≠ .delta i "tool_use") (hstop : ∀ i, turnAct event ≠ .stop i)
    (i : Nat) : asm.toolBlocks i = openTool (pre ++ [event]) i := by
  rw [openTool_snoc (hstart i) (hdelta i) (hstop i), h.tools]

theorem tools_added (h : Assembled parse pre asm) (hact : turnAct event = .delta i kind)
    (hkind : kind ≠ "tool_use") (j : Nat) : asm.toolBlocks j = openTool (pre ++ [event]) j :=
  h.tools_keep (by simp [hact]) (by simp [hact, hkind]) (by simp [hact]) j

theorem delta_opened (hd : Disciplined ((pre ++ [event]).map turnAct))
    (hact : turnAct event = .delta i kind) :
    .start i kind ∈ pre.map turnAct ∧ .stop i ∉ pre.map turnAct := by
  rw [List.map_append] at hd
  have hmeets := hd.last
  rwa [hact] at hmeets

theorem onText (h : Assembled parse pre asm) {t : Text}
    (hd : Disciplined ((pre ++ [StreamEvent.textDelta i t]).map turnAct)) :
    Assembled parse (pre ++ [.textDelta i t]) (asm.onText t) := by
  obtain ⟨hstart, hopen⟩ := delta_opened hd rfl
  refine h.keep hd rfl rfl (h.tools_added rfl (by decide)) ?_ rfl rfl rfl rfl
  refine h.slot.add rfl (by decide) hstart hopen rfl ?_ ?_ ?_
  · rw [pieceAt, if_pos rfl]
    rfl
  · exact (List.append_nil _).symm
  · exact (List.append_nil _).symm

theorem onThinking (h : Assembled parse pre asm) {t : Text}
    (hd : Disciplined ((pre ++ [StreamEvent.thinkingDelta i t]).map turnAct)) :
    Assembled parse (pre ++ [.thinkingDelta i t]) (asm.onThinking t) := by
  obtain ⟨hstart, hopen⟩ := delta_opened hd rfl
  refine h.keep hd rfl (List.append_nil _).symm (h.tools_added rfl (by decide)) ?_ rfl rfl rfl
    (List.append_nil _).symm
  refine h.slot.add rfl (by decide) hstart hopen rfl ?_ ?_ ?_
  · exact (List.append_nil _).symm
  · rw [pieceAt, if_pos rfl]
    rfl
  · exact (List.append_nil _).symm

theorem onSignature (h : Assembled parse pre asm) {t : Text}
    (hd : Disciplined ((pre ++ [StreamEvent.signatureDelta i t]).map turnAct)) :
    Assembled parse (pre ++ [.signatureDelta i t]) (asm.onSignature t) := by
  obtain ⟨hstart, hopen⟩ := delta_opened hd rfl
  refine h.keep hd rfl (List.append_nil _).symm (h.tools_added rfl (by decide)) ?_ rfl rfl rfl
    (List.append_nil _).symm
  refine h.slot.add rfl (by decide) hstart hopen rfl ?_ ?_ ?_
  · exact (List.append_nil _).symm
  · exact (List.append_nil _).symm
  · rw [pieceAt, if_pos rfl]
    rfl

/-- What a tool block is once an event about it is read. -/
theorem openTool_of (id name : Text) (hopen : .stop i ∉ (pre ++ [event]).map turnAct)
    (hstart : startOf (pre ++ [event]) i = some ("tool_use", id, name)) :
    openTool (pre ++ [event]) i = some ⟨id, name, said (pre ++ [event]) i .json⟩ := by
  rw [openTool, if_neg (mt mem_stops.mp hopen), hstart]
  exact if_pos rfl

theorem onToolStart (h : Assembled parse pre asm) {toolId toolName : Option Text}
    (hd : Disciplined ((pre ++ [StreamEvent.contentBlockStart i "tool_use" toolId toolName]).map turnAct)) :
    Assembled parse (pre ++ [.contentBlockStart i "tool_use" toolId toolName])
      (asm.onBlockStart i "tool_use" toolId toolName) := by
  rw [StreamBlockAssembler.onBlockStart, if_pos rfl]
  rw [List.map_append] at hd
  have hfresh : ∀ kind, .start i kind ∉ pre.map turnAct := hd.last
  have hopen : .stop i ∉ pre.map turnAct := fun hstop => by
    obtain ⟨kind, hstart⟩ := hd.left.start_of_stop hstop
    exact hfresh kind hstart
  rw [← List.map_append] at hd
  refine h.keep hd rfl (List.append_nil _).symm (fun j => ?_) ?_ rfl rfl rfl
    (List.append_nil _).symm
  · by_cases hj : j = i
    · subst hj
      refine Eq.trans ?_ (openTool_of (toolId.getD []) (toolName.getD []) ?_ ?_).symm
      · have hnone : said pre j .json = [] := by
          rw [List.map_append] at hd
          exact said_eq_nil hd.left (hfresh _)
        simp [said_snoc, hnone, pieceAt]
      · simpa [turnAct, blockAct] using hopen
      · rw [startOf_snoc, startOf_eq_none.mpr hfresh, Option.none_or, startAt, if_pos rfl]
    · refine (Function.update_of_ne hj _ _).trans ((h.tools j).trans (openTool_snoc ?_ ?_ ?_).symm)
      · simp [turnAct, blockAct, Ne.symm hj]
      · rintro ⟨⟩
      · rintro ⟨⟩
  · rw [List.map_append] at hd
    refine h.slot.keep hd.left ?_ (by rintro _ _ ⟨⟩) (by rintro _ ⟨⟩) rfl rfl rfl rfl
    intro j kind hact
    simp only [turnAct, blockAct, BlockAct.start.injEq] at hact
    exact hact.2.symm

theorem onOtherStart (h : Assembled parse pre asm) {toolId toolName : Option Text}
    (hkind : kind ≠ "tool_use")
    (hd : Disciplined ((pre ++ [StreamEvent.contentBlockStart i kind toolId toolName]).map turnAct))
    (hsingle : ∀ j kind', .start j kind' ∈ pre.map turnAct → kind' ≠ "tool_use" →
      .stop j ∈ pre.map turnAct) :
    Assembled parse (pre ++ [.contentBlockStart i kind toolId toolName])
      (asm.onBlockStart i kind toolId toolName) := by
  rw [StreamBlockAssembler.onBlockStart, if_neg hkind]
  refine h.keep hd rfl (List.append_nil _).symm ?_ ?_ rfl rfl rfl (List.append_nil _).symm
  · refine h.tools_keep ?_ ?_ ?_
    · simp [turnAct, blockAct, hkind]
    · rintro _ ⟨⟩
    · rintro _ ⟨⟩
  rw [List.map_append] at hd
  have hfresh : ∀ kind, .start i kind ∉ pre.map turnAct := hd.last
  have hsaid (channel : Channel) :
      said (pre ++ [.contentBlockStart i kind toolId toolName]) i channel = [] := by
    rw [said_snoc, said_eq_nil hd.left (hfresh _)]
    rfl
  cases h.slot with
  | busy j kind' hstart hkind' hopen => exact absurd (hsingle j kind' hstart hkind') hopen
  | idle hclosed htype htext hthinking hsignature =>
    refine .busy i kind ?_ hkind ?_ ?_ rfl ?_ ?_ ?_
    · simp [turnAct, blockAct]
    · rw [List.map_append, List.mem_append, not_or]
      refine ⟨fun hstop => ?_, by simp [turnAct, blockAct]⟩
      obtain ⟨kind', hstart⟩ := hd.left.start_of_stop hstop
      exact hfresh kind' hstart
    · intro j kind' hstart hkind' hji
      rw [List.map_append] at hstart ⊢
      refine List.mem_append_left _ (hsingle j kind' ?_ hkind')
      simpa [turnAct, blockAct, hji] using hstart
    · exact htext.trans (hsaid _).symm
    · exact hthinking.trans (hsaid _).symm
    · exact hsignature.trans (hsaid _).symm

/-- A block that is open has its announcement. -/
theorem startOf_opened (hd : Disciplined (pre.map turnAct)) (hstart : .start i kind ∈ pre.map turnAct) :
    ∃ id name, startOf pre i = some (kind, id, name) := by
  obtain ⟨⟨kind', id, name⟩, hsome⟩ := Option.ne_none_iff_exists'.mp
    fun hnone => startOf_eq_none.mp hnone kind hstart
  obtain ⟨event, hevent, hat⟩ := List.exists_of_findSome?_eq_some hsome
  have hact : turnAct event = .start i kind' := by
    cases event with
    | contentBlockStart j contentType toolId toolName =>
      simp only [startAt, Option.ite_none_right_eq_some, Option.some.injEq, Prod.mk.injEq] at hat
      rw [turnAct, blockAct, hat.1, hat.2.1]
      rintro _ ⟨⟩
    | _ => cases hat
  have hmem : .start i kind' ∈ pre.map turnAct := hact ▸ List.mem_map_of_mem hevent
  exact ⟨id, name, by rw [hsome, hd.kind_eq hmem hstart]⟩

theorem onToolDelta (h : Assembled parse pre asm) {t : Text}
    (hd : Disciplined ((pre ++ [StreamEvent.toolUseDelta i t]).map turnAct)) :
    Assembled parse (pre ++ [.toolUseDelta i t]) (asm.onToolDelta i t) := by
  obtain ⟨hstart, hopen⟩ := delta_opened hd rfl
  have hpre : Disciplined (pre.map turnAct) := by
    rw [List.map_append] at hd
    exact hd.left
  obtain ⟨id, name, hsome⟩ := startOf_opened hpre hstart
  have htool : asm.toolBlocks i = some ⟨id, name, said pre i .json⟩ := by
    rw [h.tools, openTool, if_neg (mt mem_stops.mp hopen), hsome]
    exact if_pos rfl
  rw [StreamBlockAssembler.onToolDelta, htool]
  refine h.keep hd rfl (List.append_nil _).symm (fun j => ?_) ?_ rfl rfl rfl
    (List.append_nil _).symm
  · by_cases hj : j = i
    · subst hj
      refine (Function.update_self _ _ _).trans (Eq.trans ?_ (openTool_of id name ?_ ?_).symm)
      · rw [said_snoc, pieceAt, if_pos rfl]
        rfl
      · simpa [turnAct, blockAct] using hopen
      · rw [startOf_snoc, hsome]
        rfl
    · refine (Function.update_of_ne hj _ _).trans ((h.tools j).trans (openTool_snoc ?_ ?_ ?_).symm)
      · rintro ⟨⟩
      · simp [turnAct, blockAct, Ne.symm hj]
      · rintro ⟨⟩
  · refine h.slot.keep hpre (by rintro _ _ ⟨⟩) ?_ (by rintro _ ⟨⟩) rfl rfl rfl rfl
    intro j kind hact
    simp only [turnAct, blockAct, BlockAct.delta.injEq] at hact
    exact hact.2.symm

/-- Finalizing a tool block puts out what was said of it, and only that. -/
theorem finalizeTool_eq {t : Told} {id name : Text} (h : t.start = some ("tool_use", id, name)) :
    asm.finalizeTool parse ⟨id, name, t.said .json⟩ =
      { asm with
        toolUses := asm.toolUses ++ (t.toolUse parse).toList
        contentBlocks := asm.contentBlocks ++ (t.block parse).toList
        errorToolResults := asm.errorToolResults ++ (t.errorResult parse).toList } := by
  have htool := Told.tool_of_start h
  have hblock : t.block parse = t.tool.map fun tool =>
      .toolUse tool.1 tool.2 ((t.input parse).getD (.obj [])) := by
    rw [Told.block_of_start h, if_pos rfl]
  rw [StreamBlockAssembler.finalizeTool]
  by_cases hid : id = []
  · rw [if_neg (by simp [hid])] at htool
    rw [if_pos (by simp [hid]), Told.toolUse, Told.errorResult, hblock, htool]
    simp
  · rw [if_pos ⟨rfl, hid⟩] at htool
    rw [if_neg (by simpa using hid), hblock, Told.toolUse_of_tool htool,
      Told.errorResult_of_tool htool, htool]
    dsimp only
    rw [show healJson parse (if (Text.trim (t.said .json)).isEmpty then "\x7b\x7d".toList
      else t.said .json) = t.input parse from rfl]
    cases t.input parse with
    | none => simp
    | some input => simp

theorem onToolStop (h : Assembled parse pre asm)
    (hd : Disciplined ((pre ++ [StreamEvent.contentBlockStop i]).map turnAct))
    (hstart : .start i "tool_use" ∈ pre.map turnAct) (hopen : .stop i ∉ pre.map turnAct) :
    Assembled parse (pre ++ [.contentBlockStop i]) (asm.onBlockStop parse i).1 := by
  have hpre : Disciplined (pre.map turnAct) := by
    rw [List.map_append] at hd
    exact hd.left
  obtain ⟨id, name, hsome⟩ := startOf_opened hpre hstart
  have htool : asm.toolBlocks i = some ⟨id, name, (told pre i).said .json⟩ := by
    rw [h.tools, openTool, if_neg (mt mem_stops.mp hopen), hsome]
    exact if_pos rfl
  have hblock : (told pre i).block parse = (told pre i).tool.map fun tool =>
      .toolUse tool.1 tool.2 (((told pre i).input parse).getD (.obj [])) := by
    rw [Told.block_of_start hsome, if_pos rfl]
  rw [StreamBlockAssembler.onBlockStop, htool]
  dsimp only
  rw [finalizeTool_eq hsome]
  refine h.put hd rfl (fun j => ?_) ?_ rfl rfl rfl ?_
  · by_cases hj : j = i
    · subst hj
      refine (Function.update_self _ _ _).trans (Eq.symm ?_)
      rw [openTool, if_pos]
      rw [stops_snoc]
      exact List.mem_append_right _ (List.mem_singleton_self j)
    · refine (Function.update_of_ne hj _ _).trans ((h.tools j).trans (openTool_snoc ?_ ?_ ?_).symm)
      · rintro ⟨⟩
      · rintro ⟨⟩
      · simp [turnAct, blockAct, Ne.symm hj]
  · refine h.slot.keep hpre (by rintro _ _ ⟨⟩) (by rintro _ _ ⟨⟩) (fun j hact => ?_) rfl rfl rfl rfl
    simp only [turnAct, blockAct, BlockAct.stop.injEq] at hact
    exact hact ▸ hstart
  · rw [hblock]
    cases (told pre i).tool with
    | _ => rfl

theorem onOtherStop (h : Assembled parse pre asm)
    (hd : Disciplined ((pre ++ [StreamEvent.contentBlockStop i]).map turnAct))
    (hkind : kind ≠ "tool_use") (hstart : .start i kind ∈ pre.map turnAct)
    (hopen : .stop i ∉ pre.map turnAct) :
    Assembled parse (pre ++ [.contentBlockStop i]) (asm.onBlockStop parse i).1 := by
  have hpre : Disciplined (pre.map turnAct) := by
    rw [List.map_append] at hd
    exact hd.left
  obtain ⟨id, name, hsome⟩ := startOf_opened hpre hstart
  have hnone : asm.toolBlocks i = none := by
    rw [h.tools, openTool, if_neg (mt mem_stops.mp hopen), hsome]
    exact if_neg hkind
  have htools (j : Nat) : asm.toolBlocks j = openTool (pre ++ [.contentBlockStop i]) j := by
    by_cases hj : j = i
    · subst hj
      rw [hnone, openTool, if_pos]
      rw [stops_snoc]
      exact List.mem_append_right _ (List.mem_singleton_self j)
    · refine (h.tools j).trans (openTool_snoc ?_ ?_ ?_).symm
      · rintro ⟨⟩
      · rintro ⟨⟩
      · simp [turnAct, blockAct, Ne.symm hj]
  have htool : (told pre i).tool = none := by
    rw [Told.tool_of_start hsome, if_neg fun hand => hkind hand.1]
  have huse : (told pre i).toolUse parse = none := by
    rw [Told.toolUse, htool]
    rfl
  have herror : (told pre i).errorResult parse = none := by
    rw [Told.errorResult, htool]
    rfl
  have hsaid (channel : Channel) (hne : kind ≠ channel.kind) : said pre i channel = [] :=
    said_eq_nil hpre fun hmem => hne (hpre.kind_eq hstart hmem)
  cases h.slot with
  | idle hclosed => exact absurd (hclosed i kind hstart hkind) hopen
  | busy k kind' hstart' hkind' hopen' honly htype htext hthinking hsignature =>
    have hik : i = k := by
      by_contra hne
      exact hopen (honly i kind hstart hkind hne)
    subst hik
    cases hpre.kind_eq hstart hstart'
    have hclosed (j : Nat) (kind' : String)
        (hj : .start j kind' ∈ (pre ++ [StreamEvent.contentBlockStop i]).map turnAct)
        (hne : kind' ≠ "tool_use") :
        .stop j ∈ (pre ++ [StreamEvent.contentBlockStop i]).map turnAct := by
      rw [List.map_append, List.mem_append] at hj ⊢
      by_cases hji : j = i
      · exact .inr (List.mem_singleton.mpr (by rw [hji]; rfl))
      · exact .inl (honly j kind' (hj.resolve_right (by simp [turnAct, blockAct])) hne hji)
    rw [StreamBlockAssembler.onBlockStop, hnone]
    dsimp only
    by_cases hthink : kind = "thinking"
    · have hblock : (told pre i).block parse = (told pre i).thinkingBlock := by
        rw [Told.block_of_start hsome, if_neg hkind, if_pos hthink]
      have hquiet : asm.blockText = [] := htext.trans (hsaid .text (by rw [hthink]; decide))
      rw [if_pos (htype.trans hthink)]
      refine h.put hd rfl htools (.idle hclosed rfl hquiet rfl rfl) ?_ ?_ ?_ ?_
      · rw [hblock, Told.toList_thinkingBlock, hthinking, hsignature]
        rfl
      · rw [huse]
        exact (List.append_nil _).symm
      · rw [herror]
        exact (List.append_nil _).symm
      · rw [hblock, Told.spoken_thinkingBlock]
        rfl
    · have hblock : (told pre i).block parse = (told pre i).textBlock := by
        rw [Told.block_of_start hsome, if_neg hkind, if_neg hthink]
      rw [if_neg fun heq => hthink (htype.symm.trans heq)]
      refine h.put hd rfl htools (.idle hclosed rfl rfl ?_ ?_) ?_ ?_ ?_ ?_
      · exact hthinking.trans (hsaid .thinking hthink)
      · exact hsignature.trans (hsaid .signature hthink)
      · rw [hblock, Told.toList_textBlock, htext]
        rfl
      · rw [huse]
        exact (List.append_nil _).symm
      · rw [herror]
        exact (List.append_nil _).symm
      · rw [hblock, Told.spoken_textBlock, htext, List.append_nil]
        rfl

/-- One event. -/
theorem onEvent (h : Assembled parse pre asm) (hd : Disciplined ((pre ++ [event]).map turnAct))
    (hsingle : ∀ i kind, turnAct event = .start i kind → kind ≠ "tool_use" →
      ∀ j kind', .start j kind' ∈ pre.map turnAct → kind' ≠ "tool_use" → .stop j ∈ pre.map turnAct) :
    Assembled parse (pre ++ [event]) (asm.onEvent parse event) := by
  cases event with
  | textDelta i t => exact h.onText hd
  | thinkingDelta i t => exact h.onThinking hd
  | signatureDelta i t => exact h.onSignature hd
  | contentBlockStart i kind toolId toolName =>
    by_cases hkind : kind = "tool_use"
    · subst hkind
      exact h.onToolStart hd
    · exact h.onOtherStart hkind hd (hsingle i kind rfl hkind)
  | toolUseDelta i t => exact h.onToolDelta hd
  | contentBlockStop i =>
    have hmeets : (∃ kind, .start i kind ∈ pre.map turnAct) ∧ .stop i ∉ pre.map turnAct := by
      rw [List.map_append] at hd
      exact hd.last
    obtain ⟨⟨kind, hstart⟩, hopen⟩ := hmeets
    by_cases hkind : kind = "tool_use"
    · subst hkind
      exact h.onToolStop hd hstart hopen
    · exact h.onOtherStop hd hkind hstart hopen
  | messageStart | messageStop | messageDelta =>
    have hpre : Disciplined (pre.map turnAct) := by
      rw [List.map_append] at hd
      exact hd.left
    refine h.keep hd rfl (List.append_nil _).symm (h.tools_keep nofun nofun nofun) ?_ rfl rfl rfl
      (List.append_nil _).symm
    exact h.slot.keep hpre nofun nofun nofun rfl rfl rfl rfl

/-- A whole stream. -/
theorem run (hwf : WellFormed (pre ++ events)) (h : Assembled parse pre asm) :
    Assembled parse (pre ++ events) (events.foldl (StreamBlockAssembler.onEvent parse) asm) := by
  induction events generalizing pre asm with
  | nil => rwa [List.append_nil]
  | cons event events ih =>
    rw [List.append_cons] at hwf ⊢
    refine ih hwf (h.onEvent ?_ fun i kind hact => ?_)
    · have hd := hwf.disciplined
      rw [List.map_append] at hd
      exact hd.left
    · refine hwf.single (pre.map turnAct) i kind (events.map turnAct) ?_
      rw [List.append_assoc, List.singleton_append, List.map_append, List.map_cons, hact]

end Assembled

/-! ## Whole streams -/

theorem stops_nodup (hd : Disciplined (events.map turnAct)) : (stops events).Nodup := by
  induction events using List.reverseRecOn with
  | nil => exact List.nodup_nil
  | append_singleton pre event ih =>
    rw [List.map_append] at hd
    rw [stops_snoc]
    cases event with
    | contentBlockStop i =>
      have hopen : .stop i ∉ pre.map turnAct := hd.last.2
      refine (ih hd.left).append (List.nodup_singleton i) ?_
      rw [List.disjoint_comm]
      exact List.singleton_disjoint.mpr (mt mem_stops.mp hopen)
    | _ => simpa [stopAt] using ih hd.left

/-- Where every block is started once, its announcement is the one it has. -/
theorem startOf_of_mem (hd : Disciplined (events.map turnAct)) {toolId toolName : Option Text}
    (hmem : .contentBlockStart i kind toolId toolName ∈ events) :
    startOf events i = some (kind, toolId.getD [], toolName.getD []) := by
  obtain ⟨pre, post, rfl⟩ := List.append_of_mem hmem
  rw [List.map_append, List.map_cons] at hd
  have hfresh : ∀ kind, .start i kind ∉ pre.map turnAct := hd.last
  have hnone := startOf_eq_none.mpr hfresh
  rw [startOf] at hnone
  rw [startOf, List.findSome?_append, hnone, Option.none_or, List.findSome?_cons, startAt, if_pos rfl]

/-- A tool block with an id is one call block, and either a call or an error. -/
theorem Told.tool_block {t : Told} {id name : Text} (h : t.start = some ("tool_use", id, name))
    (hid : id ≠ []) : (∃ input, t.input parse = some input ∧
        t.block parse = some (.toolUse id name input) ∧
        t.toolUse parse = some (id, name, input) ∧ t.errorResult parse = none) ∨
      t.input parse = none ∧ t.block parse = some (.toolUse id name (.obj [])) ∧
        t.toolUse parse = none ∧
        t.errorResult parse = some (.toolResult id (malformedArguments name) (some true)) := by
  have htool : t.tool = some (id, name) := by rw [tool_of_start h, if_pos ⟨rfl, hid⟩]
  rw [block_of_start h, if_pos rfl, toolUse_of_tool htool, errorResult_of_tool htool, htool]
  cases hinput : t.input parse with
  | none => exact .inr ⟨rfl, rfl, rfl, rfl⟩
  | some input => exact .inl ⟨input, rfl, rfl, rfl, rfl⟩

/-- **Main result.** What a stream says of its blocks, in the order they stop, is what is assembled. -/
theorem assembles (parse : Text → Option Json) {events : List StreamEvent} (h : WellFormed events) :
    (stops events).Nodup ∧
    (∀ i, i ∈ stops events ↔ ∃ kind, .start i kind ∈ events.map turnAct) ∧
    (∀ i kind toolId toolName, .contentBlockStart i kind toolId toolName ∈ events →
      (told events i).start = some (kind, toolId.getD [], toolName.getD [])) ∧
    (StreamBlockAssembler.assemble parse events).contentBlocks =
      (stops events).filterMap (fun i => (told events i).block parse) ∧
    (StreamBlockAssembler.assemble parse events).toolUses =
      (stops events).filterMap (fun i => (told events i).toolUse parse) ∧
    (StreamBlockAssembler.assemble parse events).errorToolResults =
      (stops events).filterMap (fun i => (told events i).errorResult parse) ∧
    (∀ i id toolName, .contentBlockStart i "tool_use" (some id) toolName ∈ events → id ≠ [] →
      (∃ input, (told events i).input parse = some input ∧
        (told events i).block parse = some (.toolUse id (toolName.getD []) input) ∧
        (told events i).toolUse parse = some (id, toolName.getD [], input) ∧
        (told events i).errorResult parse = none) ∨
      (told events i).input parse = none ∧
        (told events i).block parse = some (.toolUse id (toolName.getD []) (.obj [])) ∧
        (told events i).toolUse parse = none ∧
        (told events i).errorResult parse =
          some (.toolResult id (malformedArguments (toolName.getD [])) (some true))) ∧
    (StreamBlockAssembler.assemble parse events).text = events.flatMap textAt ∧
    ((StreamBlockAssembler.assemble parse events).contentBlocks.filterMap (·.asText)).flatten =
      (StreamBlockAssembler.assemble parse events).text := by
  have hrun : Assembled parse ([] ++ events) (StreamBlockAssembler.assemble parse events) :=
    Assembled.run h assembled_nil
  have hquiet : (StreamBlockAssembler.assemble parse events).blockText = [] := by
    cases hrun.slot with
    | idle hclosed htype htext => exact htext
    | busy i kind hstart hkind hopen => exact absurd (h.stopped i kind hstart) hopen
  refine ⟨stops_nodup h.disciplined, fun i => ⟨fun hi => ?_, fun ⟨kind, hstart⟩ => ?_⟩,
    fun i kind toolId toolName => startOf_of_mem h.disciplined, hrun.content, hrun.uses, hrun.errors,
    fun i id toolName hmem hid => ?_, hrun.text, ?_⟩
  · exact h.disciplined.start_of_stop (mem_stops.mp hi)
  · exact mem_stops.mpr (h.stopped i kind hstart)
  · exact Told.tool_block (startOf_of_mem h.disciplined hmem) hid
  · rw [← hrun.spoken, hquiet, List.append_nil]

/-- Two calls in flight under one text, their arguments interleaved. -/
def sampleTurn : List StreamEvent :=
  [.contentBlockStart 0 "text" none none, .textDelta 0 "Reading.".toList,
    .contentBlockStart 1 "tool_use" (some "a".toList) (some "read".toList),
    .contentBlockStart 2 "tool_use" (some "b".toList) (some "list".toList),
    .toolUseDelta 1 "\x7b".toList, .toolUseDelta 2 "[".toList, .toolUseDelta 1 "\x7d".toList,
    .toolUseDelta 2 "]".toList, .contentBlockStop 2, .contentBlockStop 0, .contentBlockStop 1]

/-- A parser of the two values of the sample. -/
def sampleParse (t : Text) : Option Json :=
  if t = "\x7b\x7d".toList then some (.obj []) else if t = "[]".toList then some (.arr []) else none

theorem wellFormed_sampleTurn : WellFormed sampleTurn where
  disciplined := disciplined_iff.mpr (by
    simp [sampleTurn, turnAct, blockAct, Blocks.next, Blocks.Allows, Function.update])
  single := by
    intro pre i kind post heq hkind j kind' hj hkind'
    simp [sampleTurn, turnAct, blockAct, List.cons_eq_append_iff] at heq
    rcases heq with ⟨rfl, -⟩ | ⟨mid, -, ⟨-, ⟨-, rfl⟩, -⟩ | ⟨-, ⟨-, rfl⟩, -⟩⟩
    · exact absurd hj List.not_mem_nil
    · exact absurd rfl hkind
    · exact absurd rfl hkind
  stopped i kind hstart := by
    simp [sampleTurn, turnAct, blockAct] at hstart ⊢
    omega

/-- Each call has its own arguments, in the order the calls end. -/
theorem assembles_sampleTurn : (StreamBlockAssembler.assemble sampleParse sampleTurn).toolUses =
    [("b".toList, "list".toList, .arr []), ("a".toList, "read".toList, .obj [])] := by
  obtain ⟨-, -, -, -, huses, -⟩ := assembles sampleParse wellFormed_sampleTurn
  rw [huses]
  decide

end Nanna.Loop
