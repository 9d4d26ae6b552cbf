import Nanna.Lib.FirstMatch
import Nanna.Lib.Json
import Nanna.Lib.Utf8

/-!
# The journal of a run

What a run streams, in order: text and thinking merge into an open segment at the end, and a tool call has one item,
whose outcome is filled in when the call ends. The end looks for the newest open item with its call id, since a
provider uses an id again once its call has ended.
-/

namespace Nanna.Daemon

open Nanna.Lib Nanna.Lib.Text

/-! ## The view of an edit -/

def EDIT_DIFF_LINES_MAX : Nat := 40

def EDIT_DIFF_BYTES_MAX : Nat := 4000

structure EditDiff where
  startLine : Nat
  removed : List Text
  added : List Text
  truncated : Bool
  deriving DecidableEq

/-- The lines kept in what is left of both bounds, and whether anything was cut. -/
def clampDiffLines : Nat → Nat → List Text → List Text × Bool
  | _, _, [] => ([], false)
  | 0, _, _ :: _ => ([], true)
  | linesLeft + 1, bytesLeft, line :: lines =>
    if line.byteLen ≤ bytesLeft then
      let (kept, cut) := clampDiffLines linesLeft (bytesLeft - line.byteLen) lines
      (line :: kept, cut)
    else
      let head := takeBytes bytesLeft line
      (if head = [] then [] else [head], true)

def clampDiffSide (lines : List Text) : List Text × Bool :=
  clampDiffLines EDIT_DIFF_LINES_MAX EDIT_DIFF_BYTES_MAX lines

namespace EditDiff

def readText : Json → Option Text
  | .str s => some s.toList
  | _ => none

def readFields (startLine removed added : Json) (truncated : Option Json) : Option EditDiff := do
  let startLine ← startLine.asU64.filter (· < 2 ^ 32)
  let removed ← (← removed.asArray).mapM readText
  let added ← (← added.asArray).mapM readText
  let truncated ← truncated.elim (some false) Json.asBool
  some { startLine, removed, added, truncated }

/-- A struct is read from an object, or from its fields in order. -/
def deserialize : Json → Option EditDiff
  | .obj members => do
    let raw := Json.obj members
    readFields (← raw.get "start_line") (← raw.get "removed") (← raw.get "added") (raw.get "truncated")
  | .arr [startLine, removed, added] => readFields startLine removed added none
  | .arr [startLine, removed, added, truncated] => readFields startLine removed added (some truncated)
  | _ => none

def fromToolData (data : Option Json) : Option EditDiff := do
  let parsed ← deserialize (← (← data).get "diff")
  if parsed.startLine = 0 ∨ (parsed.removed = [] ∧ parsed.added = []) then none
  else
    let (removed, removedCut) := clampDiffSide parsed.removed
    let (added, addedCut) := clampDiffSide parsed.added
    some { startLine := parsed.startLine, removed, added, truncated := parsed.truncated || removedCut || addedCut }

def forOutcome (success shortCircuited : Bool) (data : Option Json) : Option EditDiff :=
  if !success || shortCircuited then none else fromToolData data

end EditDiff

/-! ## Outcomes -/

def TIMELINE_OUTPUT_CAP : Nat := 4000

def truncate (s : Text) (maxLen : Nat) : Text :=
  if s.byteLen ≤ maxLen then s else takeBytes maxLen s ++ "...".toList

def timelineCapOutput (output : Text) : Text :=
  if output.byteLen ≤ TIMELINE_OUTPUT_CAP then output
  else
    truncate output TIMELINE_OUTPUT_CAP ++ " …[journal shows the first ".toList ++
      (toString TIMELINE_OUTPUT_CAP).toList ++ " of ".toList ++ (toString output.byteLen).toList ++
      (" bytes ONLY to keep the run record bounded — the tool call itself ran to completion " ++
        "and the full result was delivered where it belongs]").toList

def isShortCircuited (data : Option Json) : Bool :=
  (data.bind fun d => (d.get "short_circuited").bind Json.asBool).getD false

structure ToolEndRecord where
  output : Text
  ok : Bool
  durationMs : Nat
  replayed : Bool
  diff : Option EditDiff
  deriving DecidableEq

def ToolEndRecord.fromResult (output : Text) (ok : Bool) (durationMs : Nat) (data : Option Json) : ToolEndRecord :=
  let replayed := isShortCircuited data
  { output, ok, durationMs, replayed, diff := EditDiff.forOutcome ok replayed data }

/-! ## Items -/

structure ToolItem where
  callId : Text
  name : Text
  input : Option Json
  output : Option Text := none
  success : Option Bool := none
  durationMs : Option Nat := none
  tokens : Option Nat := none
  totalTokens : Option Nat := none
  shortCircuited : Option Bool := none
  diff : Option EditDiff := none
  deriving DecidableEq

inductive TimelineItem
  | thinking (content : Text)
  | text (content : Text)
  | tool (item : ToolItem)
  | fault (message : Text)
  | step (phase label : Text) (itemId : Int)
  deriving DecidableEq

/-- Still open under this id. -/
def ToolItem.awaits (callId : Text) (item : ToolItem) : Bool := decide (item.callId = callId) && item.output.isNone

/-- The outcome fields are filled in as a set. -/
def ToolItem.close (record : ToolEndRecord) (item : ToolItem) : ToolItem :=
  { item with
    output := some (timelineCapOutput record.output)
    success := some record.ok
    durationMs := some record.durationMs
    shortCircuited := some record.replayed
    diff := record.diff }

namespace TimelineItem

def tool? : TimelineItem → Option ToolItem
  | .tool item => some item
  | _ => none

def text? : TimelineItem → Option Text
  | .text content => some content
  | _ => none

def awaits (callId : Text) (item : TimelineItem) : Bool := item.tool?.any (·.awaits callId)

def close (record : ToolEndRecord) : TimelineItem → TimelineItem
  | .tool item => .tool (item.close record)
  | item => item

end TimelineItem

/-! ## Writing -/

/-- The last item takes what it can, or a fresh one is pushed. -/
def mergeLast (grow : TimelineItem → Option TimelineItem) (fresh : TimelineItem) (items : List TimelineItem) :
    List TimelineItem :=
  match items.getLast?.bind grow with
  | some grown => items.dropLast ++ [grown]
  | none => items ++ [fresh]

def growText (chunk : Text) : TimelineItem → Option TimelineItem
  | .text content => some (.text (content ++ chunk))
  | _ => none

def growThinking (chunk : Text) : TimelineItem → Option TimelineItem
  | .thinking content => some (.thinking (content ++ chunk))
  | _ => none

/-- The journal's part of `ChatSink::emit_delta`. -/
def journalText (items : List TimelineItem) (text : Text) : List TimelineItem :=
  mergeLast (growText text) (.text text) items

/-- The journal's part of `ChatSink::thinking`. -/
def journalThinking (items : List TimelineItem) (text : Text) : List TimelineItem :=
  mergeLast (growThinking text) (.thinking text) items

/-- The chat path's own writer. -/
def timelineAppendSegment (items : List TimelineItem) (chunk : Text) (thinking : Bool) : List TimelineItem :=
  if chunk = [] then items
  else if thinking then mergeLast (growThinking chunk) (.thinking chunk) items
  else mergeLast (growText chunk) (.text chunk) items

def timelineToolStart (items : List TimelineItem) (callId name : Text) (input : Json) (tokens totalTokens : Nat) :
    List TimelineItem :=
  items ++ [.tool
    { callId, name
      input := some input
      tokens := if 0 < tokens then some tokens else none
      totalTokens := if 0 < totalTokens then some totalTokens else none }]

/-- The newest open item of the call, or an item of its own where the start was never journaled. -/
def timelineToolEnd (items : List TimelineItem) (callId name : Text) (record : ToolEndRecord) : List TimelineItem :=
  if items.reverse.any (·.awaits callId) then
    (modifyFirst (·.awaits callId) (·.close record) items.reverse).reverse
  else items ++ [.tool (ToolItem.close record { callId, name, input := none })]

/-! ## What the writers leave -/

/-- The visible text of a journal. -/
def texts (items : List TimelineItem) : Text := (items.filterMap (·.text?)).flatten

/-- The tool calls of a journal, in order. -/
def tools (items : List TimelineItem) : List ToolItem := items.filterMap (·.tool?)

section Writers

variable {items : List TimelineItem} {grow : TimelineItem → Option TimelineItem}

theorem texts_concat (items : List TimelineItem) (item : TimelineItem) :
    texts (items ++ [item]) = texts items ++ item.text?.getD [] := by
  unfold texts
  rw [List.filterMap_append, List.flatten_append]
  cases item <;> simp [TimelineItem.text?]

theorem tools_concat (items : List TimelineItem) (item : TimelineItem) :
    tools (items ++ [item]) = tools items ++ item.tool?.toList := by
  unfold tools
  rw [List.filterMap_append]
  cases item <;> rfl

theorem tools_mergeLast {fresh : TimelineItem} (hfresh : fresh.tool? = none)
    (hgrow : ∀ item grown, grow item = some grown → item.tool? = none ∧ grown.tool? = none) :
    tools (mergeLast grow fresh items) = tools items := by
  unfold mergeLast
  split
  · rename_i grown h
    obtain ⟨last, hlast, hgrown⟩ := Option.bind_eq_some_iff.mp h
    obtain ⟨hitem, hnext⟩ := hgrow last grown hgrown
    obtain ⟨before, rfl⟩ := List.getLast?_eq_some_iff.mp hlast
    rw [List.dropLast_concat, tools_concat, tools_concat, hitem, hnext]
  · rw [tools_concat, hfresh]
    exact List.append_nil _

theorem texts_mergeLast {fresh : TimelineItem} {chunk : Text} (hfresh : fresh.text?.getD [] = chunk)
    (hgrow : ∀ item grown, grow item = some grown → grown.text?.getD [] = item.text?.getD [] ++ chunk) :
    texts (mergeLast grow fresh items) = texts items ++ chunk := by
  unfold mergeLast
  split
  · rename_i grown h
    obtain ⟨last, hlast, hgrown⟩ := Option.bind_eq_some_iff.mp h
    obtain ⟨before, rfl⟩ := List.getLast?_eq_some_iff.mp hlast
    rw [List.dropLast_concat, texts_concat, texts_concat, hgrow last grown hgrown, List.append_assoc]
  · rw [texts_concat, hfresh]

theorem growText_eq_some {chunk : Text} {item grown : TimelineItem} (h : growText chunk item = some grown) :
    ∃ content, item = .text content ∧ grown = .text (content ++ chunk) := by
  cases item with
  | text content =>
    obtain rfl := Option.some.inj h
    exact ⟨content, rfl, rfl⟩
  | _ => cases h

theorem growThinking_eq_some {chunk : Text} {item grown : TimelineItem} (h : growThinking chunk item = some grown) :
    ∃ content, item = .thinking content ∧ grown = .thinking (content ++ chunk) := by
  cases item with
  | thinking content =>
    obtain rfl := Option.some.inj h
    exact ⟨content, rfl, rfl⟩
  | _ => cases h

variable (items) (text : Text)

theorem journalText_eq (h : text ≠ []) : journalText items text = timelineAppendSegment items text false :=
  (if_neg h).symm

theorem journalThinking_eq (h : text ≠ []) : journalThinking items text = timelineAppendSegment items text true :=
  (if_neg h).symm

@[simp] theorem texts_journalText : texts (journalText items text) = texts items ++ text := by
  apply texts_mergeLast rfl
  intro item grown h
  obtain ⟨content, rfl, rfl⟩ := growText_eq_some h
  rfl

@[simp] theorem tools_journalText : tools (journalText items text) = tools items := by
  apply tools_mergeLast rfl
  intro item grown h
  obtain ⟨content, rfl, rfl⟩ := growText_eq_some h
  exact ⟨rfl, rfl⟩

@[simp] theorem texts_journalThinking : texts (journalThinking items text) = texts items := by
  rw [journalThinking, texts_mergeLast rfl]
  · exact List.append_nil _
  · intro item grown h
    obtain ⟨content, rfl, rfl⟩ := growThinking_eq_some h
    rfl

@[simp] theorem tools_journalThinking : tools (journalThinking items text) = tools items := by
  apply tools_mergeLast rfl
  intro item grown h
  obtain ⟨content, rfl, rfl⟩ := growThinking_eq_some h
  exact ⟨rfl, rfl⟩

end Writers

/-! ## The end of a call -/

section ToolEnd

variable {items : List TimelineItem} {callId : Text} (name : Text) (record : ToolEndRecord)

theorem texts_timelineToolEnd : texts (timelineToolEnd items callId name record) = texts items := by
  unfold timelineToolEnd
  split
  · unfold texts
    rw [List.filterMap_reverse, filterMap_modifyFirst_of_unseen, List.filterMap_reverse, List.reverse_reverse]
    intro item hitem
    cases item <;> rfl
  · rw [texts_concat]
    exact List.append_nil _

theorem tools_close :
    tools (modifyFirst (·.awaits callId) (·.close record) items.reverse).reverse =
      (modifyFirst (·.awaits callId) (·.close record) (tools items).reverse).reverse := by
  unfold tools
  rw [List.filterMap_reverse, ← List.filterMap_reverse (l := items)]
  congr 1
  apply filterMap_modifyFirst
  · intro item
    rfl
  · intro item
    cases item <;> rfl

theorem any_awaits : items.reverse.any (·.awaits callId) = (tools items).any (·.awaits callId) := by
  rw [List.any_reverse]
  unfold tools
  rw [List.any_filterMap]
  rfl

/-- An open item with the id, and none after it. -/
theorem tools_timelineToolEnd {before after : List ToolItem} {item : ToolItem}
    (htools : tools items = before ++ item :: after) (hitem : item.awaits callId = true)
    (hafter : ∀ other ∈ after, other.awaits callId = false) :
    tools (timelineToolEnd items callId name record) = before ++ item.close record :: after := by
  have hany : items.reverse.any (·.awaits callId) = true := by
    rw [any_awaits, htools]
    simp [hitem]
  have hlater : ∀ other ∈ after.reverse, other.awaits callId = false := by
    intro other hother
    exact hafter other (List.mem_reverse.mp hother)
  rw [timelineToolEnd, if_pos hany, tools_close, htools, List.reverse_append, List.reverse_cons, List.append_assoc,
    List.singleton_append, modifyFirst_append_cons hlater hitem]
  simp

theorem tools_timelineToolEnd_of_none (h : ∀ item ∈ tools items, item.awaits callId = false) :
    tools (timelineToolEnd items callId name record) =
      tools items ++ [ToolItem.close record { callId, name, input := none }] := by
  have hany : ¬items.reverse.any (·.awaits callId) = true := by
    rw [any_awaits, List.any_eq_true]
    rintro ⟨item, hitem, hawaits⟩
    rw [h item hitem] at hawaits
    cases hawaits
  rw [timelineToolEnd, if_neg hany, tools_concat]
  rfl

end ToolEnd

end Nanna.Daemon
