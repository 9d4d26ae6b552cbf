import Nanna.Agent.LiveRequest
import Nanna.Lib.Utf8

/-!
# The request made from a context

`request_wellFormed_iff`: after any cuts of a history in which every tool call is answered, the
messages sent are well formed exactly if no orphaned result is deduplicated and the calls of the
pinned message kept their results. Deduplication comes before the repair of orphans, which then
announces an output as preserved verbatim that is a note (`orphan_deduplicated`).

What ties blocks together is their list of links. Cuts take a prefix of the links on each side of
the pinned message, the one after it only when nothing is left before it (`Trimmed`), so a call
that stays keeps every later result, unless it is pinned. Deduplication keeps the links, the repair
replaces the results whose call is gone, and sanitizing moves only links to nothing.
-/

namespace Nanna.Agent

open Nanna.Lib

def blocks (messages : List Message) : List ContentBlock := messages.flatMap (·.content)

def links (messages : List Message) : List Link := (blocks messages).map (·.link)

/-! ## Repair -/

def verdict (isError : Option Bool) : Text :=
  if isError.getD false then "FAILED".toList else "SUCCEEDED".toList

def orphanText (content : Text) (isError : Option Bool) : Text :=
  ("[Result of an earlier tool call whose request was compressed out of this " ++
    "context — the call itself ").toList ++ verdict isError ++
    (" and its output is preserved verbatim " ++
    s!"below ({content.byteLen} chars).]\n").toList ++ content

/-- The ids issued up to here and by one more block. -/
def seeToolUse (seen : List Text) : ContentBlock → List Text
  | .toolUse id _ _ => id :: seen
  | _ => seen

/-- A result is an orphan when no earlier block issued its id. -/
def repairBlock (seen : List Text) : ContentBlock → ContentBlock
  | .toolResult id content isError =>
    if id ∈ seen then .toolResult id content isError else .text (orphanText content isError)
  | block => block

def repairBlocks : List Text → List ContentBlock → List ContentBlock
  | _, [] => []
  | seen, block :: blocks => repairBlock seen block :: repairBlocks (seeToolUse seen block) blocks

def repairMessages : List Text → List Message → List Message
  | _, [] => []
  | seen, msg :: messages =>
    { msg with content := repairBlocks seen msg.content } ::
      repairMessages (msg.content.foldl seeToolUse seen) messages

/-- `repair_orphan_tool_results`: one forward pass. -/
def repairOrphanToolResults (messages : List Message) : List Message := repairMessages [] messages

/-! ## Sanitizing -/

def isEmptyText : ContentBlock → Bool
  | .text text => text.isEmpty
  | _ => false

def sanitizeMessage (msg : Message) : Message :=
  let content := msg.content.filter (! isEmptyText ·)
  { msg with content := if content.isEmpty then [.text "[No content]".toList] else content }

def sanitizeMessages (messages : List Message) : List Message := messages.map sanitizeMessage

namespace AgentContext

variable (env : ContextEnv) (ctx : AgentContext)

/-! ## Deduplication -/

/-- How many of the chunks are known, and how many there are. -/
def dedupCoverage (content : Text) : Nat × Nat :=
  let hashes := chunkAndHash content
  (hashes.countP (· ∈ ctx.summarizedContentHashes), hashes.length)

/-- Content that the request leaves out as summarized already. -/
def isDuplicate (content : Text) : Bool :=
  let coverage := ctx.dedupCoverage content
  decide (dedupMinSize ≤ content.byteLen ∧ coverage.2 ≠ 0) &&
    env.mostlyDuplicate coverage.1 coverage.2

def duplicatePercent (content : Text) : Text :=
  env.percent (ctx.dedupCoverage content).1 (ctx.dedupCoverage content).2

def duplicateOutput (content : Text) : Text :=
  "[Output (".toList ++ ctx.duplicatePercent env content ++
    "% duplicate) already included in previous context summary]".toList

def dedupBlock : ContentBlock → ContentBlock
  | .text text =>
    if ctx.isDuplicate env text then
      .text ("[Content (".toList ++ ctx.duplicatePercent env text ++
        "% duplicate) already included in previous context summary]".toList)
    else .text text
  | .toolResult id content isError =>
    if ctx.isDuplicate env content then .toolResult id (ctx.duplicateOutput env content) isError
    else .toolResult id content isError
  | block => block

def dedupMessage (msg : Message) : Message :=
  { msg with content := msg.content.map (ctx.dedupBlock env) }

def deduplicateMessages : List Message := ctx.messages.map (ctx.dedupMessage env)

/-! ## The request -/

def dedupedMessages : List Message :=
  if ctx.summarizedContentHashes.isEmpty then ctx.messages else ctx.deduplicateMessages env

/-- The preamble with its acknowledgement. -/
def preambleMessages : List Message :=
  match ctx.contextPreamble env with
  | none => []
  | some preamble => [.userText preamble, .assistantText preambleAck]

def messagesForRequest : List Message :=
  sanitizeMessages (repairOrphanToolResults (ctx.preambleMessages env ++ ctx.dedupedMessages env))

end AgentContext

/-! ## Well-formed requests -/

/-- Every call in the list is answered by a later result, in the list or after it. -/
def AnsweredIn (later : List Link) : List Link → Prop
  | [] => True
  | .call id :: rest => .result id ∈ rest ++ later ∧ AnsweredIn later rest
  | _ :: rest => AnsweredIn later rest

/-- Every result in the list comes after the call it answers, where `seen` are the calls before. -/
def Preceded (seen : List Text) : List Link → Prop
  | [] => True
  | .call id :: rest => Preceded (id :: seen) rest
  | .result id :: rest => id ∈ seen ∧ Preceded seen rest
  | .other :: rest => Preceded seen rest

/-- The result at position `i` has lost its call. -/
def OrphanAt (messages : List Message) (i : Nat) (content : Text) (isError : Option Bool) : Prop :=
  ∃ id, (blocks messages)[i]? = some (.toolResult id content isError) ∧
    .call id ∉ ((blocks messages).take i).map (·.link)

namespace AgentContext

/-- What a provider asks of a request, and what the repair promises of orphaned results. -/
structure RequestWellFormed (env : ContextEnv) (ctx : AgentContext) : Prop where
  preceded : Preceded [] (links (ctx.messagesForRequest env))
  answered : AnsweredIn [] (links (ctx.messagesForRequest env))
  /-- The block in the place of an orphaned result is text that ends with its content. -/
  verbatim : ∀ i content isError, OrphanAt ctx.messages i content isError → ∃ text,
    (blocks (repairOrphanToolResults (ctx.dedupedMessages env)))[i]? = some (.text text) ∧
      content <:+ text ∧ .text text ∈ blocks (ctx.messagesForRequest env)
  text_ne_nil : ∀ text, .text text ∈ blocks (ctx.messagesForRequest env) → text ≠ []
  content_ne_nil : ∀ msg ∈ ctx.messagesForRequest env, msg.content ≠ []

/-- The calls of the pinned message are answered in it or after it. -/
def PinnedAnswered (ctx : AgentContext) : Prop :=
  ∀ msg, ctx.live = some msg →
    AnsweredIn (links (ctx.messages.drop (ctx.pinnedIndex + 1))) msg.links

/-- No orphaned result is deduplicated. -/
def OrphansKept (env : ContextEnv) (ctx : AgentContext) : Prop :=
  ∀ i content isError, OrphanAt ctx.messages i content isError →
    ctx.summarizedContentHashes.isEmpty ∨ ctx.isDuplicate env content = false

end AgentContext

/-! ## Lists of links -/

section Links

variable {later xs ys : List Link} {seen : List Text} {id : Text}

theorem answeredIn_append :
    AnsweredIn later (xs ++ ys) ↔ AnsweredIn (ys ++ later) xs ∧ AnsweredIn later ys := by
  induction xs with
  | nil => simp [AnsweredIn]
  | cons link xs ih =>
    cases link with
    | call id =>
      rw [List.cons_append, AnsweredIn, AnsweredIn, ih, List.append_assoc, and_assoc]
    | result id => exact ih
    | other => exact ih

/-- The links that tie. -/
def solid (links : List Link) : List Link := links.filter (· ≠ .other)

theorem mem_solid {link : Link} (h : link ≠ .other) : link ∈ solid xs ↔ link ∈ xs := by
  simp [solid, h]

theorem answeredIn_solid : AnsweredIn [] (solid xs) ↔ AnsweredIn [] xs := by
  induction xs with
  | nil => exact Iff.rfl
  | cons link xs ih =>
    cases link with
    | call id =>
      show AnsweredIn [] (.call id :: solid xs) ↔ _
      rw [AnsweredIn, AnsweredIn, ih, List.append_nil, List.append_nil, mem_solid (by simp)]
    | result id => exact ih
    | other => exact ih

theorem preceded_solid : Preceded seen (solid xs) ↔ Preceded seen xs := by
  induction xs generalizing seen with
  | nil => exact Iff.rfl
  | cons link xs ih =>
    cases link with
    | call id => exact ih
    | result id => exact and_congr_right fun _ => ih
    | other => exact ih

/-- The links after the repair. -/
def repairLinks : List Text → List Link → List Link
  | _, [] => []
  | seen, .call id :: rest => .call id :: repairLinks (id :: seen) rest
  | seen, .result id :: rest =>
    (if id ∈ seen then .result id else .other) :: repairLinks seen rest
  | seen, .other :: rest => .other :: repairLinks seen rest

theorem preceded_repairLinks : Preceded seen (repairLinks seen xs) := by
  induction xs generalizing seen with
  | nil => trivial
  | cons link xs ih =>
    cases link with
    | call id => exact ih
    | result id =>
      rw [repairLinks]
      split
      · rename_i hseen
        exact ⟨hseen, ih⟩
      · exact ih
    | other => exact ih

/-- The results of a call seen before are no orphans. -/
theorem result_mem_repairLinks (hseen : id ∈ seen) :
    .result id ∈ repairLinks seen xs ↔ .result id ∈ xs := by
  induction xs generalizing seen with
  | nil => exact Iff.rfl
  | cons link xs ih =>
    cases link with
    | call id' =>
      rw [repairLinks, List.mem_cons, List.mem_cons, ih (List.mem_cons_of_mem _ hseen)]
    | result id' =>
      rw [repairLinks, List.mem_cons, List.mem_cons, ih hseen]
      refine or_congr_left ?_
      split
      · exact Iff.rfl
      · rename_i hunseen
        refine ⟨fun h => (by cases h), fun h => ?_⟩
        cases h
        exact absurd hseen hunseen
    | other => rw [repairLinks, List.mem_cons, List.mem_cons, ih hseen]

theorem answeredIn_repairLinks : AnsweredIn [] (repairLinks seen xs) ↔ AnsweredIn [] xs := by
  induction xs generalizing seen with
  | nil => exact Iff.rfl
  | cons link xs ih =>
    cases link with
    | call id =>
      rw [repairLinks, AnsweredIn, AnsweredIn, ih, List.append_nil, List.append_nil,
        result_mem_repairLinks List.mem_cons_self]
    | result id =>
      rw [repairLinks]
      split
      · exact ih
      · exact ih
    | other => exact ih

end Links

/-! ## The links of a request -/

section Repair

variable {seen : List Text} {block : ContentBlock} {bs cs : List ContentBlock}
  {messages : List Message}

theorem blocks_cons {msg : Message} : blocks (msg :: messages) = msg.content ++ blocks messages :=
  List.flatMap_cons

theorem repairBlocks_append : repairBlocks seen (bs ++ cs) =
    repairBlocks seen bs ++ repairBlocks (bs.foldl seeToolUse seen) cs := by
  induction bs generalizing seen with
  | nil => rfl
  | cons block bs ih =>
    rw [List.cons_append, repairBlocks, ih]
    rfl

theorem blocks_repairMessages :
    blocks (repairMessages seen messages) = repairBlocks seen (blocks messages) := by
  induction messages generalizing seen with
  | nil => rfl
  | cons msg messages ih =>
    rw [repairMessages, blocks_cons, blocks_cons, repairBlocks_append, ih]

theorem links_repairBlocks :
    (repairBlocks seen bs).map (·.link) = repairLinks seen (bs.map (·.link)) := by
  induction bs generalizing seen with
  | nil => rfl
  | cons block bs ih =>
    rw [repairBlocks, List.map_cons, List.map_cons, ih]
    cases block with
    | toolResult id content isError =>
      show _ = (if id ∈ seen then _ else _) :: _
      rw [repairBlock]
      split
      · rfl
      · rfl
    | _ => rfl

/-- Sanitizing moves no calls and no results. -/
theorem solid_sanitizeMessage (msg : Message) :
    solid (sanitizeMessage msg).links = solid msg.links := by
  have hkeep : ∀ content : List ContentBlock,
      solid ((content.filter (! isEmptyText ·)).map (·.link)) = solid (content.map (·.link)) := by
    intro content
    induction content with
    | nil => rfl
    | cons block content ih =>
      rw [List.filter_cons]
      split
      · rw [List.map_cons, List.map_cons, solid, List.filter_cons, solid, List.filter_cons]
        exact ite_congr rfl (fun _ => congrArg _ ih) fun _ => ih
      · rename_i hempty
        cases block with
        | text text => exact ih
        | _ => exact absurd rfl hempty
  unfold sanitizeMessage Message.links
  simp only
  split
  · rename_i hnil
    rw [← hkeep msg.content, List.isEmpty_iff.mp hnil]
    rfl
  · exact hkeep msg.content

theorem links_eq_flatten : links messages = (messages.map Message.links).flatten := by
  rw [links, blocks, List.map_flatMap, List.flatMap_def]
  rfl

theorem solid_sanitizeMessages :
    solid (links (sanitizeMessages messages)) = solid (links messages) := by
  rw [links_eq_flatten, links_eq_flatten, sanitizeMessages]
  induction messages with
  | nil => rfl
  | cons msg messages ih =>
    rw [List.map_cons, List.map_cons, List.map_cons, List.flatten_cons, List.flatten_cons, solid,
      List.filter_append, solid, List.filter_append]
    exact congrArg₂ (· ++ ·) (solid_sanitizeMessage msg) ih

end Repair

namespace AgentContext

variable {env : ContextEnv} {ctx ctx' ctx'' : AgentContext} {pre post : List Message} {msg : Message}

/-- What becomes of a block before the repair. -/
def dedupedBlock (env : ContextEnv) (ctx : AgentContext) (block : ContentBlock) : ContentBlock :=
  if ctx.summarizedContentHashes.isEmpty then block else ctx.dedupBlock env block

theorem blocks_dedupedMessages :
    blocks (ctx.dedupedMessages env) = (blocks ctx.messages).map (ctx.dedupedBlock env) := by
  unfold dedupedMessages dedupedBlock
  split
  · simp
  · rw [deduplicateMessages, blocks, List.flatMap_map, blocks, List.map_flatMap]
    rfl

theorem link_dedupedBlock (block : ContentBlock) :
    (ctx.dedupedBlock env block).link = block.link := by
  unfold dedupedBlock
  split
  · rfl
  · cases block with
    | text text =>
      rw [dedupBlock]
      split
      · rfl
      · rfl
    | toolResult id content isError =>
      rw [dedupBlock]
      split
      · rfl
      · rfl
    | _ => rfl

theorem links_dedupedMessages : links (ctx.dedupedMessages env) = links ctx.messages := by
  rw [links, blocks_dedupedMessages, List.map_map, links]
  exact List.map_congr_left fun block _ => link_dedupedBlock block

/-- The preamble passes through the repair. -/
theorem repair_preamble (messages : List Message) :
    repairOrphanToolResults (ctx.preambleMessages env ++ messages) =
      ctx.preambleMessages env ++ repairOrphanToolResults messages := by
  unfold preambleMessages
  split
  · rfl
  · rfl

theorem solid_links_preamble : solid (links (ctx.preambleMessages env)) = [] := by
  unfold preambleMessages
  split
  · rfl
  · rfl

theorem links_repair (messages : List Message) :
    links (repairOrphanToolResults messages) = repairLinks [] (links messages) := by
  rw [links, repairOrphanToolResults, blocks_repairMessages, links_repairBlocks]
  rfl

/-- The calls and results of a request are those of the repaired context. -/
theorem solid_links_request : solid (links (ctx.messagesForRequest env)) =
    solid (repairLinks [] (links ctx.messages)) := by
  have happend : ∀ xs ys : List Message, solid (links (xs ++ ys)) =
      solid (links xs) ++ solid (links ys) := by
    intro xs ys
    rw [links, blocks, List.flatMap_append, List.map_append, solid, List.filter_append]
    rfl
  rw [messagesForRequest, solid_sanitizeMessages, repair_preamble, happend, solid_links_preamble,
    List.nil_append, links_repair, links_dedupedMessages]

theorem request_preceded : Preceded [] (links (ctx.messagesForRequest env)) := by
  rw [← preceded_solid, solid_links_request, preceded_solid]
  exact preceded_repairLinks

theorem request_answered_iff : AnsweredIn [] (links (ctx.messagesForRequest env)) ↔
    AnsweredIn [] (links ctx.messages) := by
  rw [← answeredIn_solid, solid_links_request, answeredIn_solid, answeredIn_repairLinks]

/-! ## No empty text, no empty message -/

theorem request_text_ne_nil {text : Text}
    (h : .text text ∈ blocks (ctx.messagesForRequest env)) : text ≠ [] := by
  obtain ⟨msg, hmsg, hblock⟩ := List.mem_flatMap.mp h
  obtain ⟨original, -, rfl⟩ := List.mem_map.mp hmsg
  unfold sanitizeMessage at hblock
  simp only at hblock
  split at hblock
  · cases List.mem_singleton.mp hblock
    decide
  · have hkept := (List.mem_filter.mp hblock).2
    rintro rfl
    exact Bool.false_ne_true hkept

theorem request_content_ne_nil {msg : Message} (h : msg ∈ ctx.messagesForRequest env) :
    msg.content ≠ [] := by
  obtain ⟨original, -, rfl⟩ := List.mem_map.mp h
  unfold sanitizeMessage
  simp only
  split
  · exact List.cons_ne_nil _ _
  · rename_i hsome
    exact fun hnil => hsome (List.isEmpty_iff.mpr hnil)

/-! ## Orphans -/

theorem foldl_seeToolUse {seen : List Text} {bs : List ContentBlock} {id : Text} :
    id ∈ bs.foldl seeToolUse seen ↔ id ∈ seen ∨ .call id ∈ bs.map (·.link) := by
  induction bs generalizing seen with
  | nil => simp
  | cons block bs ih =>
    rw [List.foldl_cons, ih, List.map_cons, List.mem_cons, ← or_assoc]
    refine or_congr_left ?_
    cases block with
    | toolUse id' name input => simp [seeToolUse, ContentBlock.link, or_comm]
    | _ => simp [seeToolUse, ContentBlock.link]

theorem getElem?_repairBlocks {seen : List Text} {bs : List ContentBlock} {i : Nat} :
    (repairBlocks seen bs)[i]? = bs[i]?.map (repairBlock ((bs.take i).foldl seeToolUse seen)) := by
  induction bs generalizing seen i with
  | nil => rfl
  | cons block bs ih =>
    cases i with
    | zero => rfl
    | succ i => exact ih

/-- The content of a result before the repair. -/
def dedupedContent (env : ContextEnv) (ctx : AgentContext) (content : Text) : Text :=
  if ctx.summarizedContentHashes.isEmpty ∨ ctx.isDuplicate env content = false then content
  else ctx.duplicateOutput env content

theorem dedupedBlock_toolResult (id content : Text) (isError : Option Bool) :
    ctx.dedupedBlock env (.toolResult id content isError) =
      .toolResult id (ctx.dedupedContent env content) isError := by
  unfold dedupedBlock dedupedContent
  by_cases hhashes : ctx.summarizedContentHashes.isEmpty
  · rw [if_pos hhashes, if_pos (.inl hhashes)]
  · rw [if_neg hhashes, dedupBlock]
    cases hduplicate : ctx.isDuplicate env content with
    | false => rw [if_neg Bool.false_ne_true, if_pos (.inr rfl)]
    | true =>
      have hkept : ¬ (ctx.summarizedContentHashes.isEmpty = true ∨ true = false) :=
        fun h => h.elim hhashes Bool.noConfusion
      rw [if_pos rfl, if_neg hkept]

/-- The block in the place of an orphan. -/
theorem repaired_orphan {i : Nat} {content : Text} {isError : Option Bool}
    (h : OrphanAt ctx.messages i content isError) :
    (blocks (repairOrphanToolResults (ctx.dedupedMessages env)))[i]? =
      some (.text (orphanText (ctx.dedupedContent env content) isError)) := by
  obtain ⟨id, hblock, hcall⟩ := h
  have hlinks : (((blocks ctx.messages).map (ctx.dedupedBlock env)).take i).map (·.link) =
      ((blocks ctx.messages).take i).map (·.link) := by
    rw [← List.map_take, List.map_map]
    exact List.map_congr_left fun block _ => link_dedupedBlock block
  have hunseen : id ∉ (((blocks ctx.messages).map (ctx.dedupedBlock env)).take i).foldl
      seeToolUse [] := by
    rw [foldl_seeToolUse, hlinks]
    exact fun hseen => hcall (hseen.resolve_left List.not_mem_nil)
  rw [repairOrphanToolResults, blocks_repairMessages, blocks_dedupedMessages,
    getElem?_repairBlocks, List.getElem?_map, hblock, Option.map_some, Option.map_some,
    dedupedBlock_toolResult, repairBlock, if_neg hunseen]

/-- Sanitizing keeps what is not empty. -/
theorem mem_sanitizeMessage {msg : Message} {block : ContentBlock} (h : block ∈ msg.content)
    (hblock : isEmptyText block = false) : block ∈ (sanitizeMessage msg).content := by
  have hkept : block ∈ msg.content.filter (! isEmptyText ·) :=
    List.mem_filter.mpr ⟨h, by rw [hblock]; rfl⟩
  unfold sanitizeMessage
  simp only
  split
  · rename_i hempty
    rw [List.isEmpty_iff.mp hempty] at hkept
    cases hkept
  · exact hkept

theorem mem_sanitizeMessages {messages : List Message} {block : ContentBlock}
    (h : block ∈ blocks messages) (hblock : isEmptyText block = false) :
    block ∈ blocks (sanitizeMessages messages) := by
  obtain ⟨msg, hmsg, hmem⟩ := List.mem_flatMap.mp h
  exact List.mem_flatMap.mpr ⟨_, List.mem_map_of_mem hmsg, mem_sanitizeMessage hmem hblock⟩

theorem byteLen_orphanHead : Text.byteLen
    ("[Result of an earlier tool call whose request was compressed out of this " ++
      "context — the call itself ").toList = 101 := by
  rw [String.toList_append, Text.byteLen_append, Text.byteLen_toList, Text.byteLen_toList]
  decide

theorem isEmptyText_of_ne {text : Text} (h : text ≠ []) : isEmptyText (.text text) = false := by
  cases text with
  | nil => exact absurd rfl h
  | cons c cs => rfl

theorem isEmptyText_orphanText (content : Text) (isError : Option Bool) :
    isEmptyText (.text (orphanText content isError)) = false := by
  have hne : orphanText content isError ≠ [] := by
    intro hnil
    have hlen := congrArg Text.byteLen hnil
    unfold orphanText at hlen
    rw [Text.byteLen_append, Text.byteLen_append, Text.byteLen_append, byteLen_orphanHead,
      Text.byteLen_nil] at hlen
    omega
  exact isEmptyText_of_ne hne

/-- The text in the place of an orphan is sent. -/
theorem request_mem_orphan {i : Nat} {content : Text} {isError : Option Bool}
    (h : OrphanAt ctx.messages i content isError) :
    .text (orphanText (ctx.dedupedContent env content) isError) ∈
      blocks (ctx.messagesForRequest env) := by
  refine mem_sanitizeMessages ?_ (isEmptyText_orphanText _ _)
  rw [repair_preamble, blocks, List.flatMap_append]
  exact List.mem_append_right _ (List.mem_of_getElem? (repaired_orphan h))

theorem dedupCoverage_le (content : Text) :
    (ctx.dedupCoverage content).1 ≤ (ctx.dedupCoverage content).2 := by
  unfold dedupCoverage
  exact List.countP_le_length

variable (env ctx) in
theorem byteLen_duplicatePercent_le (content : Text) :
    (ctx.duplicatePercent env content).byteLen ≤ 3 :=
  env.percent_short _ _ (dedupCoverage_le content)

variable (env ctx) in
/-- A note is shorter than what it stands for. -/
theorem byteLen_duplicateOutput_le (content : Text) :
    (ctx.duplicateOutput env content).byteLen ≤ 80 := by
  have hpercent := byteLen_duplicatePercent_le env ctx content
  have hhead : Text.byteLen "[Output (".toList = 9 := by decide
  have htail : Text.byteLen
      "% duplicate) already included in previous context summary]".toList = 58 :=
    (Text.byteLen_toList _).trans (by decide)
  unfold duplicateOutput
  simp only [Text.byteLen_append]
  omega

theorem byteLen_orphanText_le {content : Text} (isError : Option Bool)
    (h : content.byteLen ≤ 100) : (orphanText content isError).byteLen ≤ 400 := by
  have hcount := ContextEnv.byteLen_repr_le _ h
  have hverdict : (verdict isError).byteLen ≤ 9 := by
    unfold verdict
    split
    · decide
    · decide
  have hhead := byteLen_orphanHead
  have hmiddle : Text.byteLen " and its output is preserved verbatim ".toList = 38 :=
    (Text.byteLen_toList _).trans (by decide)
  have hbelow : Text.byteLen (toString "below (").toList = 7 := by decide
  have hchars : Text.byteLen (toString " chars).]\n").toList = 10 := by decide
  unfold orphanText
  simp only [String.toList_append, Text.byteLen_append] at hhead ⊢
  omega

/-- The content of an orphan is at the end of the text in its place unless it is a duplicate. -/
theorem suffix_orphanText_iff (content : Text) (isError : Option Bool) :
    content <:+ orphanText (ctx.dedupedContent env content) isError ↔
      ctx.summarizedContentHashes.isEmpty ∨ ctx.isDuplicate env content = false := by
  refine ⟨fun hsuffix => ?_, fun hkept => ?_⟩
  · by_contra hduplicate
    rw [dedupedContent, if_neg hduplicate] at hsuffix
    have hnote := byteLen_duplicateOutput_le env ctx content
    have hshort := byteLen_orphanText_le isError (hnote.trans (by decide))
    have hle := Text.byteLen_le_of_infix hsuffix.isInfix
    have hlong : dedupMinSize ≤ content.byteLen := by
      have htrue : ctx.isDuplicate env content = true := by
        rw [not_or, Bool.not_eq_false] at hduplicate
        exact hduplicate.2
      unfold isDuplicate at htrue
      simp only [Bool.and_eq_true, decide_eq_true_eq] at htrue
      exact htrue.1.1
    rw [dedupMinSize] at hlong
    omega
  · rw [dedupedContent, if_pos hkept]
    exact List.suffix_append _ _

/-- The repair keeps its promise exactly for the orphans that are no duplicates. -/
theorem verbatim_iff :
    (∀ i content isError, OrphanAt ctx.messages i content isError → ∃ text,
      (blocks (repairOrphanToolResults (ctx.dedupedMessages env)))[i]? = some (.text text) ∧
        content <:+ text ∧ .text text ∈ blocks (ctx.messagesForRequest env)) ↔
    ctx.OrphansKept env := by
  refine ⟨fun h i content isError horphan => ?_, fun h i content isError horphan => ?_⟩
  · obtain ⟨text, hrepaired, hsuffix, -⟩ := h i content isError horphan
    rw [repaired_orphan horphan] at hrepaired
    cases hrepaired
    exact (suffix_orphanText_iff content isError).mp hsuffix
  · exact ⟨_, repaired_orphan horphan, (suffix_orphanText_iff content isError).mpr
      (h i content isError horphan), request_mem_orphan horphan⟩

/-! ## Cuts and links -/

/-- What a cut leaves of the links: those of the pinned message, the last ones before it and, once
these are gone, the last ones after it. -/
structure Trimmed (ctx ctx' : AgentContext) : Prop where
  empty : ctx.messages = [] → ctx'.messages = []
  split : ∀ {pre msg post}, ctx.Split pre msg post → ∃ pre' msg' post' a b,
    ctx'.Split pre' msg' post' ∧ msg'.links = msg.links ∧
    pre'.map Message.links = (pre.drop a).map Message.links ∧
    post'.map Message.links = (post.drop b).map Message.links ∧ (pre' = [] ∨ b = 0)

theorem Kept.trimmed (h : Kept ctx ctx') : Trimmed ctx ctx' := by
  refine ⟨h.empty, fun {pre msg post} hsplit => ?_⟩
  obtain ⟨pre', post', a, b, hsplit', hrest⟩ := h.split hsplit
  exact ⟨pre', msg, post', a, b, hsplit', rfl, hrest⟩

theorem Trimmed.trans (h : Trimmed ctx ctx') (h' : Trimmed ctx' ctx'') : Trimmed ctx ctx'' := by
  refine ⟨h'.empty ∘ h.empty, fun {pre msg post} hsplit => ?_⟩
  obtain ⟨pre', msg', post', a, b, hsplit', hmsg, hpre, hpost, hside⟩ := h.split hsplit
  obtain ⟨pre'', msg'', post'', a', b', hsplit'', hmsg', hpre', hpost', hside'⟩ := h'.split hsplit'
  refine ⟨pre'', msg'', post'', a + a', b + b', hsplit'', hmsg'.trans hmsg, ?_, ?_, ?_⟩
  · rw [hpre', List.map_drop, hpre, ← List.map_drop, List.drop_drop]
  · rw [hpost', List.map_drop, hpost, ← List.map_drop, List.drop_drop]
  · rcases hside' with hnil | hzero
    · exact .inl hnil
    · rcases hside with hnil | hzero'
      · left
        rw [hnil, List.drop_nil, List.map_nil, List.map_eq_nil_iff] at hpre'
        exact hpre'
      · right
        omega

theorem links_truncateMessage (maxBlockChars : Nat) (msg : Message) :
    (truncateMessage maxBlockChars msg).links = msg.links := by
  rw [Message.links, truncateMessage, List.map_map, Message.links]
  refine List.map_congr_left fun block _ => ?_
  cases block with
  | _ => rfl

theorem trimmed_truncateLargeContentBlocks :
    Trimmed ctx (ctx.truncateLargeContentBlocks env) := by
  have hlinks : ∀ messages : List Message,
      (messages.map (truncateMessage (ctx.maxBlockChars env))).map Message.links =
        messages.map Message.links := by
    intro messages
    rw [List.map_map]
    exact List.map_congr_left fun msg _ => links_truncateMessage _ msg
  refine ⟨fun h => ?_, fun {pre msg post} h => ?_⟩
  · show ctx.messages.map _ = []
    rw [h]
    rfl
  · have hpinned := h.pinnedIndex_eq
    rw [h.length] at hpinned
    refine ⟨pre.map _, truncateMessage (ctx.maxBlockChars env) msg, post.map _, 0, 0,
      .of_pinnedIndex ?_ ?_, links_truncateMessage _ _, hlinks _, hlinks _, .inr rfl⟩
    · show ctx.messages.map _ = _
      rw [h.messages, List.map_append, List.map_cons]
    · show min (ctx.pinnedRequest.getD 0) _ = _
      rw [List.length_map, List.length_map]
      omega

theorem trimmed_cut (op : CutOp) : Trimmed ctx (ctx.cut env op) := by
  cases op with
  | trimIfNeeded => exact (kept_trimRounds _).trimmed
  | truncateToLimit =>
    rw [cut, truncateToLimit_eq]
    split
    · exact kept_dropToLimit.trimmed.trans trimmed_truncateLargeContentBlocks
    · exact kept_dropToLimit.trimmed
  | dropOldest keepRecent => exact (kept_dropOldest keepRecent).trimmed
  | replaceWithSummary coveredMessages summary =>
    exact (kept_replaceWithSummary coveredMessages summary).trimmed
  | compress keepRecent summary => exact (kept_compress keepRecent summary).trimmed
  | compressOlderToolResults keepRecent minChars compressWith =>
    exact (kept_compressOlderToolResults keepRecent minChars compressWith).trimmed

variable (env) in
theorem trimmed_cuts (ops : List CutOp) : Trimmed ctx (ops.foldl (cut env) ctx) := by
  induction ops generalizing ctx with
  | nil => exact (Kept.refl ctx).trimmed
  | cons op ops ih => exact (trimmed_cut op).trans ih

theorem Split.links (h : ctx.Split pre msg post) : links ctx.messages =
    (pre.map Message.links).flatten ++ (msg.links ++ (post.map Message.links).flatten) := by
  rw [links_eq_flatten, h.messages, List.map_append, List.map_cons, List.flatten_append,
    List.flatten_cons]

/-- After a cut, only calls of the pinned message can have lost their result. -/
theorem answered_iff_of_trimmed (h : Trimmed ctx ctx')
    (hpaired : AnsweredIn [] (links ctx.messages)) :
    AnsweredIn [] (links ctx'.messages) ↔ ctx'.PinnedAnswered := by
  by_cases hempty : ctx.messages = []
  · have hempty' := h.empty hempty
    have hlive : ctx'.live = none := by
      rw [live, hempty']
      rfl
    rw [hempty']
    refine ⟨fun _ msg hmsg => ?_, fun _ => trivial⟩
    rw [hlive] at hmsg
    cases hmsg
  · obtain ⟨pre, msg, post, hsplit⟩ := exists_split hempty
    obtain ⟨pre', msg', post', a, b, hsplit', hmsg, hpre, hpost, hside⟩ := h.split hsplit
    rw [hsplit.links, answeredIn_append, answeredIn_append] at hpaired
    obtain ⟨hbefore, -, hafter⟩ := hpaired
    have hdrop : ctx'.messages.drop (ctx'.pinnedIndex + 1) = post' := by
      rw [hsplit'.messages, hsplit'.pinned, List.append_cons, List.drop_left' (by simp)]
    have hafter' : AnsweredIn [] (post'.map Message.links).flatten := by
      have hsuffix : (post.map Message.links).flatten =
          ((post.take b).map Message.links).flatten ++ (post'.map Message.links).flatten := by
        rw [hpost, ← List.flatten_append, ← List.map_append, List.take_append_drop]
      rw [hsuffix, answeredIn_append] at hafter
      exact hafter.2
    have hbefore' : AnsweredIn (msg'.links ++ (post'.map Message.links).flatten ++ [])
        (pre'.map Message.links).flatten := by
      rcases hside with rfl | rfl
      · trivial
      · have hsuffix : (pre.map Message.links).flatten =
            ((pre.take a).map Message.links).flatten ++ (pre'.map Message.links).flatten := by
          rw [hpre, ← List.flatten_append, ← List.map_append, List.take_append_drop]
        rw [hsuffix, answeredIn_append] at hbefore
        rw [hmsg, hpost]
        exact hbefore.2
    rw [hsplit'.links, answeredIn_append, answeredIn_append, List.append_nil]
    constructor
    · rintro ⟨-, hpinned, -⟩ live hlive
      rw [hsplit'.live] at hlive
      cases hlive
      rw [hdrop, links_eq_flatten]
      rw [List.append_nil] at hpinned
      exact hpinned
    · intro hpinned
      have hpinned := hpinned msg' hsplit'.live
      rw [hdrop, links_eq_flatten] at hpinned
      rw [List.append_nil] at hbefore' ⊢
      exact ⟨hbefore', hpinned, hafter'⟩

/-- **Main result.** After any cuts of a history whose calls are answered, the request is well
formed exactly if no orphaned result is deduplicated and the pinned message's calls are answered. -/
theorem request_wellFormed_iff {env : ContextEnv} {history : AgentContext}
    (hpaired : AnsweredIn [] (links history.messages)) (ops : List CutOp) :
    (ops.foldl (cut env) history).RequestWellFormed env ↔
      (ops.foldl (cut env) history).OrphansKept env ∧
        (ops.foldl (cut env) history).PinnedAnswered := by
  have hanswered := answered_iff_of_trimmed (trimmed_cuts env ops) hpaired
  refine ⟨fun h => ⟨verbatim_iff.mp h.verbatim, ?_⟩, fun ⟨horphans, hpinned⟩ => ?_⟩
  · exact hanswered.mp (request_answered_iff.mp h.answered)
  · exact
      { preceded := request_preceded
        answered := request_answered_iff.mpr (hanswered.mpr hpinned)
        verbatim := verbatim_iff.mpr horphans
        text_ne_nil := fun _ => request_text_ne_nil
        content_ne_nil := fun _ => request_content_ne_nil }

/-! ## An output read twice -/

/-- Content summarized away before is a duplicate: every chunk of it is known. -/
theorem isDuplicate_of_known {content : Text} (hlong : dedupMinSize ≤ content.byteLen)
    (hchunks : chunkAndHash content ≠ [])
    (hknown : ∀ hash ∈ chunkAndHash content, hash ∈ ctx.summarizedContentHashes) :
    ctx.isDuplicate .exact content = true := by
  have hcoverage : (ctx.dedupCoverage content).1 = (ctx.dedupCoverage content).2 :=
    List.countP_eq_length.mpr fun hash hmem => decide_eq_true (hknown hash hmem)
  have htotal : (ctx.dedupCoverage content).2 ≠ 0 :=
    fun hzero => hchunks (List.length_eq_zero_iff.mp hzero)
  have hshare : ContextEnv.exact.mostlyDuplicate (ctx.dedupCoverage content).1
      (ctx.dedupCoverage content).2 = true := by
    rw [hcoverage]
    exact decide_eq_true (by omega)
  unfold isDuplicate
  simp only
  rw [hshare, Bool.and_true, decide_eq_true_eq]
  exact ⟨hlong, htotal⟩

theorem mem_foldl_insert {hash : UInt64} {hashes known : List UInt64} :
    hash ∈ hashes.foldl (fun known hash => known.insert hash) known ↔
      hash ∈ known ∨ hash ∈ hashes := by
  induction hashes generalizing known with
  | nil => simp
  | cons first hashes ih =>
    rw [List.foldl_cons, ih, List.mem_insert_iff, List.mem_cons]
    tauto

/-- A request, two calls that read the same output, and two more turns. -/
def readTwice (output : Text) : AgentContext where
  systemPrompt := []
  messages := [.userText "fix it".toList,
    ⟨"assistant".toList, [.toolUse "a".toList "read_file".toList "{}".toList]⟩,
    ⟨"user".toList, [.toolResult "a".toList output none]⟩,
    ⟨"assistant".toList, [.toolUse "b".toList "read_file".toList "{}".toList]⟩,
    ⟨"user".toList, [.toolResult "b".toList output none]⟩,
    .assistantText "done".toList, .userText "go on".toList]
  maxMessages := 100
  hardLimit := 100000
  consolidatedSummary := none
  distilledFacts := none
  verifiedOutcomes := []
  maxObservedGrowth := 0
  pendingLossNotices := []
  summarizedContentHashes := []
  pinnedRequest := none

/-- A long line. -/
@[irreducible] def longLine : Text := List.replicate 4000 'a'

theorem byteLen_longLine : longLine.byteLen = 4000 := by
  have hsize : 'a'.utf8Size = 1 := by decide
  rw [longLine, Text.byteLen, List.map_replicate, List.sum_replicate, hsize]
  rfl

/-- A text of one sentence makes a chunk. -/
theorem chunkAndHash_sentence {text : Text} (hne : text ≠ [])
    (hnone : ∀ c ∈ text, (c == '.' || c == '\n') = false) : chunkAndHash text ≠ [] := by
  have hsplit : Chunk.splitTerminator text = [text] := by
    rw [Chunk.splitTerminator, List.splitOnP_eq_singleton hnone]
    exact if_neg fun h => hne (Option.some.inj h)
  have hsentence : (Chunk.addSentence ([], []) text).2 ≠ [] := by
    rw [Chunk.addSentence, if_neg fun hfull => hfull.2 rfl]
    show [] ++ (if _ then _ else _) ≠ []
    rw [List.nil_append]
    split
    · exact hne
    · exact List.append_ne_nil_of_right_ne_nil _ (by decide)
  rw [chunkAndHash, Chunk.splitOnBoundaries, hsplit]
  show List.map _ (if (Chunk.addSentence ([], []) text).2 ≠ [] then _ else _) ≠ []
  rw [if_pos hsentence]
  simp

theorem chunkAndHash_longLine : chunkAndHash longLine ≠ [] := by
  refine chunkAndHash_sentence (fun hnil => ?_) fun c hc => ?_
  · have hlength := byteLen_longLine
    rw [hnil, Text.byteLen_nil] at hlength
    omega
  · rw [longLine] at hc
    rw [List.eq_of_mem_replicate hc]
    decide

theorem readTwice_paired (output : Text) : AnsweredIn [] (links (readTwice output).messages) :=
  ⟨List.mem_cons_self, List.mem_cons_self, trivial⟩

/-- The second result is kept by a cut that takes its request. -/
theorem orphanAt_readTwice (output : Text) :
    OrphanAt ([CutOp.replaceWithSummary 3 "It read the file.".toList].foldl
      (cut .exact) (readTwice output)).messages 1 output none :=
  ⟨"b".toList, rfl, fun hcall => Link.noConfusion (List.mem_singleton.mp hcall)⟩

theorem hashes_readTwice (output : Text) : ([CutOp.replaceWithSummary 3 "It read the file.".toList].foldl
    (cut .exact) (readTwice output)).summarizedContentHashes =
      (blockHashes (.toolResult "a".toList output none) ++ []).foldl
        (fun known hash => known.insert hash) [] :=
  rfl

/-- The run of a cut after which the output of the second call is an orphan and a duplicate. -/
theorem orphan_deduplicated : AnsweredIn [] (links (readTwice longLine).messages) ∧
    ¬ ([CutOp.replaceWithSummary 3 "It read the file.".toList].foldl (cut .exact)
      (readTwice longLine)).RequestWellFormed .exact := by
  refine ⟨readTwice_paired longLine, fun hwell => ?_⟩
  have horphan := orphanAt_readTwice longLine
  have hhashes := hashes_readTwice longLine
  have hlong : dedupMinSize ≤ longLine.byteLen := by
    rw [dedupMinSize, byteLen_longLine]
  have hblock : blockHashes (.toolResult "a".toList longLine none) = chunkAndHash longLine :=
    if_pos hlong
  rw [hblock, List.append_nil] at hhashes
  have hknown : ∀ hash ∈ chunkAndHash longLine, hash ∈
      ([CutOp.replaceWithSummary 3 "It read the file.".toList].foldl
        (cut .exact) (readTwice longLine)).summarizedContentHashes := by
    intro hash hmem
    rw [hhashes, mem_foldl_insert]
    exact .inr hmem
  have hduplicate := isDuplicate_of_known hlong chunkAndHash_longLine hknown
  rcases verbatim_iff.mp hwell.verbatim 1 longLine none horphan with hempty | hkept
  · obtain ⟨hash, hmem⟩ := List.exists_mem_of_ne_nil _ chunkAndHash_longLine
    have hmem := hknown hash hmem
    rw [List.isEmpty_iff.mp hempty] at hmem
    cases hmem
  · rw [hduplicate] at hkept
    cases hkept

/-- A call whose result stays behind when the call is dropped. -/
theorem request_wellFormed_dropped :
    ([CutOp.dropOldest 5].foldl (cut .exact) (readTwice [])).RequestWellFormed .exact := by
  refine (request_wellFormed_iff (readTwice_paired []) [.dropOldest 5]).mpr
    ⟨fun _ _ _ _ => .inl rfl, fun msg hmsg => ?_⟩
  have hpinned : some (Message.userText "fix it".toList) = some msg := hmsg
  cases hpinned
  trivial

end AgentContext

end Nanna.Agent
