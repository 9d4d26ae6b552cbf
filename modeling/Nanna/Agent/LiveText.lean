import Nanna.Agent.Request

/-!
# The text of the live request

`live_inFull_iff`: the message sent in the place of the pinned one carries each of its texts whole,
exactly if none of them is a duplicate of what was summarized away. Deduplication looks at every
message and never at the pin, although the pin is there so that the request survives: a user who
sends a long text again is answered against a note about it (`repeated_request_dropped`).

The preamble comes first, and no later step adds or drops a message, so the pinned message is found
at `pinnedIndex` after the preamble (`liveSent_eq`). Of its texts, deduplication replaces the long
ones that are known, by notes too short to be one of these, and sanitizing drops the empty ones.
-/

namespace Nanna.Agent

open Nanna.Lib

/-! ## One message through the repair -/

section Repair

variable {seen : List Text} {bs : List ContentBlock}

theorem getElem?_repairMessages {messages : List Message} {i : Nat} :
    (repairMessages seen messages)[i]? = messages[i]?.map fun msg =>
      { msg with
        content := repairBlocks ((blocks (messages.take i)).foldl seeToolUse seen) msg.content } := by
  induction messages generalizing seen i with
  | nil => rfl
  | cons msg messages ih =>
    cases i with
    | zero => rfl
    | succ i =>
      rw [repairMessages, List.getElem?_cons_succ, List.getElem?_cons_succ, ih, List.take_succ_cons,
        blocks_cons, List.foldl_append]

/-- Only results are repaired. -/
theorem repairBlocks_of_no_result (h : ∀ id, .result id ∉ bs.map (·.link)) :
    repairBlocks seen bs = bs := by
  induction bs generalizing seen with
  | nil => rfl
  | cons block bs ih =>
    have hrest : ∀ id, .result id ∉ bs.map (·.link) :=
      fun id hmem => h id (List.mem_cons_of_mem _ hmem)
    rw [repairBlocks, ih hrest]
    cases block with
    | toolResult id content isError => exact absurd List.mem_cons_self (h id)
    | _ => rfl

/-- Sanitizing adds one note. -/
theorem of_mem_sanitizeMessage {msg : Message} {block : ContentBlock}
    (h : block ∈ (sanitizeMessage msg).content) :
    block = .text "[No content]".toList ∨ block ∈ msg.content := by
  unfold sanitizeMessage at h
  simp only at h
  split at h
  · exact .inl (List.mem_singleton.mp h)
  · exact .inr (List.mem_of_mem_filter h)

theorem long_of_mem_sanitizeMessage {msg : Message} {text : Text}
    (htext : dedupMinSize ≤ text.byteLen) (h : .text text ∈ (sanitizeMessage msg).content) :
    .text text ∈ msg.content := by
  refine (of_mem_sanitizeMessage h).resolve_left fun hnote => ?_
  rw [ContentBlock.text.inj hnote, dedupMinSize] at htext
  exact absurd htext (by decide)

end Repair

namespace AgentContext

/-! ## The message in the place of the pinned one -/

/-- What is sent in the place of the pinned message. -/
def liveSent (env : ContextEnv) (ctx : AgentContext) : Option Message :=
  (ctx.messagesForRequest env)[(ctx.preambleMessages env).length + ctx.pinnedIndex]?

/-- Each text of the message is sent whole in the place of the pinned one. There are no empty texts
in a request. -/
def SentInFull (env : ContextEnv) (ctx : AgentContext) (msg : Message) : Prop :=
  ∃ sent, ctx.liveSent env = some sent ∧
    ∀ text, text ≠ [] → .text text ∈ msg.content → .text text ∈ sent.content

section Live

variable {env : ContextEnv} {ctx : AgentContext} {msg : Message} {text : Text}

theorem getElem?_dedupedMessages (i : Nat) : (ctx.dedupedMessages env)[i]? =
    ctx.messages[i]?.map fun msg => { msg with content := msg.content.map (ctx.dedupedBlock env) } := by
  unfold dedupedMessages dedupedBlock
  split
  · simp
  · rw [deduplicateMessages, List.getElem?_map]
    rfl

/-- A message without results is deduplicated and sanitized. -/
theorem liveSent_eq (hlive : ctx.live = some msg) (hrequest : ∀ id, .result id ∉ msg.links) :
    ctx.liveSent env =
      some (sanitizeMessage { msg with content := msg.content.map (ctx.dedupedBlock env) }) := by
  have hlinks : ∀ id, .result id ∉ (msg.content.map (ctx.dedupedBlock env)).map (·.link) := by
    intro id
    have hlinks : (msg.content.map (ctx.dedupedBlock env)).map (·.link) = msg.links := by
      rw [List.map_map]
      exact List.map_congr_left fun block _ => link_dedupedBlock block
    rw [hlinks]
    exact hrequest id
  rw [liveSent, messagesForRequest, repair_preamble, sanitizeMessages, List.getElem?_map,
    List.getElem?_append_right (Nat.le_add_right _ _), Nat.add_sub_cancel_left,
    repairOrphanToolResults, getElem?_repairMessages, getElem?_dedupedMessages, ← live, hlive,
    Option.map_some, Option.map_some, Option.map_some, repairBlocks_of_no_result hlinks]

variable (env ctx text) in
/-- The note in the place of a text is short. -/
theorem byteLen_duplicateContent_le :
    Text.byteLen ("[Content (".toList ++ ctx.duplicatePercent env text ++
      "% duplicate) already included in previous context summary]".toList) ≤ 80 := by
  have hpercent := byteLen_duplicatePercent_le env ctx text
  have hhead : Text.byteLen "[Content (".toList = 10 := by decide
  have htail : Text.byteLen
      "% duplicate) already included in previous context summary]".toList = 58 := by decide
  simp only [Text.byteLen_append]
  omega

theorem le_byteLen_of_isDuplicate (h : ctx.isDuplicate env text = true) :
    dedupMinSize ≤ text.byteLen := by
  unfold isDuplicate at h
  simp only [Bool.and_eq_true, decide_eq_true_eq] at h
  exact h.1.1

/-- Deduplication keeps a long text exactly if it is no duplicate. -/
theorem text_mem_deduped_iff (hlong : dedupMinSize ≤ text.byteLen) {content : List ContentBlock}
    (hmem : .text text ∈ content) : .text text ∈ content.map (ctx.dedupedBlock env) ↔
      ctx.summarizedContentHashes.isEmpty ∨ ctx.isDuplicate env text = false := by
  unfold dedupedBlock
  by_cases hhashes : ctx.summarizedContentHashes.isEmpty
  · simp [hhashes, hmem]
  · simp only [hhashes, Bool.false_eq_true, if_false, false_or]
    refine ⟨fun h => ?_, fun hkept => ?_⟩
    · obtain ⟨block, -, hblock⟩ := List.mem_map.mp h
      cases block with
      | text other =>
        rw [dedupBlock] at hblock
        cases hduplicate : ctx.isDuplicate env other with
        | false =>
          rw [hduplicate, if_neg Bool.false_ne_true] at hblock
          cases hblock
          exact hduplicate
        | true =>
          rw [hduplicate, if_pos rfl] at hblock
          have hshort := byteLen_duplicateContent_le env ctx other
          rw [ContentBlock.text.inj hblock] at hshort
          rw [dedupMinSize] at hlong
          omega
      | toolResult id content isError =>
        rw [dedupBlock] at hblock
        split at hblock
        · cases hblock
        · cases hblock
      | _ => cases hblock
    · refine List.mem_map.mpr ⟨_, hmem, ?_⟩
      rw [dedupBlock, hkept, if_neg Bool.false_ne_true]

/-- A text that is not empty is sent exactly if it is not deduplicated. -/
theorem text_mem_sent_iff (htext : text ≠ []) (hmem : .text text ∈ msg.content) :
    .text text ∈ (sanitizeMessage
        { msg with content := msg.content.map (ctx.dedupedBlock env) }).content ↔
      ctx.summarizedContentHashes.isEmpty ∨ ctx.isDuplicate env text = false := by
  by_cases hlong : dedupMinSize ≤ text.byteLen
  · rw [← text_mem_deduped_iff hlong hmem]
    exact ⟨fun h => long_of_mem_sanitizeMessage hlong h, fun h => mem_sanitizeMessage h (isEmptyText_of_ne htext)⟩
  · have hkept : ctx.isDuplicate env text = false := by
      by_contra hduplicate
      exact hlong (le_byteLen_of_isDuplicate (eq_true_of_ne_false hduplicate))
    refine iff_of_true (mem_sanitizeMessage (List.mem_map.mpr ⟨_, hmem, ?_⟩) (isEmptyText_of_ne htext)) (.inr hkept)
    unfold dedupedBlock
    split
    · rfl
    · rw [dedupBlock, hkept, if_neg Bool.false_ne_true]

/-- **Main result.** The pinned request is sent in full exactly if nothing was summarized away or
none of its texts is a duplicate. -/
theorem live_inFull_iff (hlive : ctx.live = some msg) (hrequest : ∀ id, .result id ∉ msg.links) :
    ctx.SentInFull env msg ↔ ctx.summarizedContentHashes.isEmpty ∨
      ∀ text, .text text ∈ msg.content → ctx.isDuplicate env text = false := by
  have hsent : ctx.liveSent env = _ := liveSent_eq hlive hrequest
  constructor
  · rintro ⟨sent, hplace, hall⟩
    rw [hsent, Option.some.injEq] at hplace
    subst hplace
    refine or_iff_not_imp_left.mpr fun hhashes text hmem => ?_
    by_contra hduplicate
    have hlong := le_byteLen_of_isDuplicate (eq_true_of_ne_false hduplicate)
    have htext : text ≠ [] := by
      rintro rfl
      rw [dedupMinSize] at hlong
      exact absurd hlong (by decide)
    rcases (text_mem_sent_iff htext hmem).mp (hall text htext hmem) with hempty | hkept
    · exact hhashes hempty
    · exact hduplicate hkept
  · intro hkept
    refine ⟨_, hsent, fun text htext hmem => (text_mem_sent_iff htext hmem).mpr ?_⟩
    exact hkept.imp_right fun hall => hall text hmem

end Live

/-! ## A request sent twice -/

/-- The user sends a text, is answered, and sends it again. -/
def askedTwice (request : Text) : AgentContext :=
  { readTwice [] with
    messages := [.userText request, .assistantText "Done.".toList, .userText request] }

/-- The pin is set, and then the first of the two is summarized away. -/
def askedTwiceOps : List Op :=
  [.pinLiveRequest, .cut (.replaceWithSummary 2 "The user sent a line.".toList)]

theorem live_inFull_askedTwice :
    ((askedTwice "again".toList).run .exact askedTwiceOps).SentInFull .exact
      (.userText "again".toList) := by
  refine (live_inFull_iff rfl fun id => by simp [Message.links, Message.userText,
    ContentBlock.link]).mpr (.inr fun text hmem => ?_)
  by_contra hduplicate
  have hlong := le_byteLen_of_isDuplicate (eq_true_of_ne_false hduplicate)
  cases List.mem_singleton.mp hmem
  rw [dedupMinSize] at hlong
  exact absurd hlong (by decide)

/-- A text in a block that the model reads. -/
def Shows (text : Text) (block : ContentBlock) : Prop :=
  ∃ shown ∈ hashedText block, text <:+: shown

/-- A request made of short texts shows no long one. -/
theorem not_shows_of_short {messages : List Message} {text : Text} (hlong : 4000 ≤ text.byteLen)
    (hshort : ∀ block ∈ blocks messages, ∃ short, block = .text short ∧ short.byteLen < 4000) :
    ∀ block ∈ blocks (sanitizeMessages (repairOrphanToolResults messages)), ¬ Shows text block := by
  have hresult : ∀ id, .result id ∉ (blocks messages).map (·.link) := by
    intro id hmem
    obtain ⟨block, hblock, hlink⟩ := List.mem_map.mp hmem
    obtain ⟨short, rfl, -⟩ := hshort block hblock
    cases hlink
  have hrepaired : blocks (repairOrphanToolResults messages) = blocks messages := by
    rw [repairOrphanToolResults, blocks_repairMessages, repairBlocks_of_no_result hresult]
  rintro block hblock ⟨shown, hshown, hinfix⟩
  have hbytes := Text.byteLen_le_of_infix hinfix
  obtain ⟨_, hsanitized, hcontent⟩ := List.mem_flatMap.mp hblock
  obtain ⟨msg, hmsg, rfl⟩ := List.mem_map.mp hsanitized
  rcases of_mem_sanitizeMessage hcontent with rfl | hcontent
  · cases hshown
    exact absurd (hlong.trans hbytes) (by decide)
  · have hmem : block ∈ blocks messages := by
      rw [← hrepaired]
      exact List.mem_flatMap.mpr ⟨msg, hmsg, hcontent⟩
    obtain ⟨short, rfl, hbound⟩ := hshort block hmem
    cases hshown
    omega

/-- A preamble is a summary in its frame. -/
theorem byteLen_contextPreamble_le {env : ContextEnv} {ctx : AgentContext} {preamble : Text}
    (hnone : ctx.verifiedOutcomes = []) (h : ctx.contextPreamble env = some preamble) :
    preamble.byteLen ≤ ctx.lossy.byteLen + 500 := by
  have hblock : ctx.verifiedOutcomesBlock env = none := by
    rw [verifiedOutcomesBlock, hnone]
    rfl
  unfold contextPreamble at h
  rw [hblock] at h
  by_cases hlossy : ctx.lossy = []
  · simp [hlossy] at h
  · simp only [hlossy, ne_eq, not_false_eq_true, if_true, Option.toList_none, List.append_nil,
      List.isEmpty_cons, Bool.false_eq_true, if_false, Option.some.injEq] at h
    subst h
    have hframe : Text.byteLen ("<previous_context>\nThe following is a COMPRESSED SUMMARY of earlier " ++
        "conversation. WHY: the conversation grew longer than your context window " ++
        "can hold, so older messages were condensed to make room to keep working. " ++
        "Everything it describes already happened and SUCCEEDED unless it explicitly " ++
        "says otherwise — no work was lost. It is lossy shorthand, not literal " ++
        "messages: files on disk and recent tool results are the ground truth over " ++
        "anything here.\n\n").toList ≤ 460 := by
      simp only [String.toList_append, Text.byteLen_append, Text.byteLen_toList]
      decide +kernel
    have hend : Text.byteLen "\n</previous_context>".toList = 20 := by decide
    rw [List.intercalate_singleton, Text.byteLen_append, Text.byteLen_append, hend]
    omega

/-- The second of two long requests is nowhere in what is sent. -/
theorem dropped_askedTwice {line : Text} (hlong : dedupMinSize ≤ line.byteLen)
    (hchunks : chunkAndHash line ≠ []) :
    ((askedTwice line).run .exact askedTwiceOps).live = some (.userText line) ∧
      ¬ ((askedTwice line).run .exact askedTwiceOps).SentInFull .exact (.userText line) ∧
      ∀ block ∈ blocks (((askedTwice line).run .exact askedTwiceOps).messagesForRequest .exact),
        ¬ Shows line block := by
  have hhashes : ((askedTwice line).run .exact askedTwiceOps).summarizedContentHashes =
      (blockHashes (.text line) ++ []).foldl (fun known hash => known.insert hash) [] := rfl
  have hblock : blockHashes (.text line) = chunkAndHash line := if_pos hlong
  rw [hblock, List.append_nil] at hhashes
  have hknown : ∀ hash ∈ chunkAndHash line,
      hash ∈ ((askedTwice line).run .exact askedTwiceOps).summarizedContentHashes := by
    intro hash hmem
    rw [hhashes, mem_foldl_insert]
    exact .inr hmem
  have hduplicate := isDuplicate_of_known hlong hchunks hknown
  have hsome : ((askedTwice line).run .exact askedTwiceOps).summarizedContentHashes.isEmpty =
      false := by
    obtain ⟨hash, hmem⟩ := List.exists_mem_of_ne_nil _ hchunks
    exact List.isEmpty_eq_false_iff.mpr (List.ne_nil_of_mem (hknown hash hmem))
  have hlinks : ∀ id, .result id ∉ (Message.userText line).links := by
    intro id
    simp [Message.links, Message.userText, ContentBlock.link]
  refine ⟨rfl, fun hsent => ?_, ?_⟩
  · rcases (live_inFull_iff rfl hlinks).mp hsent with hempty | hkept
    · rw [hsome] at hempty
      cases hempty
    · rw [hkept line List.mem_cons_self] at hduplicate
      cases hduplicate
  · obtain ⟨ctx, hctx⟩ : ∃ ctx, ctx = (askedTwice line).run .exact askedTwiceOps := ⟨_, rfl⟩
    have hmessages : ctx.messages = [.assistantText "Done.".toList, .userText line] := by
      rw [hctx]
      rfl
    have hlossy : ctx.lossy = "The user sent a line.".toList := by
      rw [hctx]
      rfl
    have hnone : ctx.verifiedOutcomes = [] := by
      rw [hctx]
      rfl
    rw [← hctx] at hsome hduplicate ⊢
    have hdone : ctx.isDuplicate .exact "Done.".toList = false := by
      by_contra hdone
      have hlong := le_byteLen_of_isDuplicate (eq_true_of_ne_false hdone)
      rw [dedupMinSize] at hlong
      exact absurd hlong (by decide)
    have hfirst : ctx.dedupBlock .exact (.text "Done.".toList) = .text "Done.".toList := by
      rw [dedupBlock, hdone, if_neg Bool.false_ne_true]
    have hdeduped : ctx.dedupedMessages .exact = [.assistantText "Done.".toList,
        ⟨"user".toList, [ctx.dedupBlock .exact (.text line)]⟩] := by
      rw [dedupedMessages, hsome, if_neg Bool.false_ne_true, deduplicateMessages, hmessages]
      show [(⟨_, [ctx.dedupBlock .exact (.text "Done.".toList)]⟩ : Message), _] = _
      rw [hfirst]
      rfl
    rw [dedupMinSize] at hlong
    refine not_shows_of_short hlong fun block hblock => ?_
    rw [blocks, List.flatMap_append, List.mem_append, hdeduped] at hblock
    rcases hblock with hframe | hrest
    · unfold preambleMessages at hframe
      split at hframe
      · cases hframe
      · rename_i preamble hpreamble
        have hframed := byteLen_contextPreamble_le hnone hpreamble
        have hsummary : Text.byteLen "The user sent a line.".toList = 21 := by decide
        rw [hlossy, hsummary] at hframed
        rcases List.mem_cons.mp hframe with rfl | hack
        · exact ⟨preamble, rfl, by omega⟩
        · exact ⟨preambleAck, List.mem_singleton.mp hack, by decide⟩
    · rcases List.mem_cons.mp hrest with rfl | hnote
      · exact ⟨"Done.".toList, rfl, by decide⟩
      · rw [dedupBlock, hduplicate, if_pos rfl] at hnote
        have hbytes := byteLen_duplicateContent_le .exact ctx line
        exact ⟨_, List.mem_singleton.mp hnote, by omega⟩

/-- The text of the pinned request is nowhere in the request that is sent. -/
theorem repeated_request_dropped :
    ((askedTwice longLine).run .exact askedTwiceOps).live = some (.userText longLine) ∧
      ¬ ((askedTwice longLine).run .exact askedTwiceOps).SentInFull .exact (.userText longLine) ∧
      ∀ block ∈ blocks (((askedTwice longLine).run .exact askedTwiceOps).messagesForRequest .exact),
        ¬ Shows longLine block := by
  refine dropped_askedTwice ?_ chunkAndHash_longLine
  rw [dedupMinSize, byteLen_longLine]

end AgentContext

end Nanna.Agent
