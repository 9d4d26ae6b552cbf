import Nanna.Agent.Pin

/-!
# What a summarization pass reads

`retired_was_read_iff`: of the messages that a pass replaces by a summary, exactly those that fit
the window of the model that answered were sent to it in full. A larger message has a chunk of its
own, which is cut when it is sent and counted as read all the same (`large_message_retired_unread`).

Three stages share one index space. Extraction gives the texts of the first messages it walks one
after the other, with the offset at the end of each (`extractMessages_eq`). Chunking keeps every text
inside one chunk that fits the budget, or gives it a chunk of its own (`chunk_covers`), and its last
chunk ends with the last text (`chunk_last_end`), so the pass counts all of them as read. The
positions that `replaceWithSummary` removes are those of the messages extraction walked
(`victims_eq`).
-/

namespace Nanna.Agent

open Nanna.Lib

/-! ## Extraction -/

namespace ContentBlock

def thinkingLimit : Nat := 200

/-- The text of a block as the summarizer is shown it. -/
def blockText : ContentBlock → Text
  | .text content => content
  | .toolUse _ name input =>
    "[Tool call: ".toList ++ name ++ " with input: ".toList ++ input ++ "]".toList
  | .toolResult _ content _ => content
  | .thinking content =>
    "[Thinking: ".toList ++ content.takeBytes (min content.byteLen thinkingLimit) ++ "]".toList
  | .image => "[Image]".toList

/-- Its line in the extracted content. -/
def line (role : Text) (block : ContentBlock) : Text :=
  "[".toList ++ role ++ "]: ".toList ++ block.blockText ++ "\n".toList

end ContentBlock

/-- The whole text of a message in the extracted content. -/
def Message.extracted (msg : Message) : Text := (msg.content.map (·.line msg.role)).flatten

/-- The blocks of one message, after `content` with `charsCollected` counted; `.error` is the early
return with the content as it stands. -/
def extractBlocks (maxChars : Nat) (role : Text) :
    List ContentBlock → Text → Nat → Except Text (Text × Nat)
  | [], content, charsCollected => .ok (content, charsCollected)
  | block :: blocks, content, charsCollected =>
    if maxChars < charsCollected + block.blockText.byteLen then
      -- a part of the first block, if there is nothing yet
      .error (if content.isEmpty then
        block.blockText.takeBytes (min maxChars block.blockText.byteLen) else content)
    else
      extractBlocks maxChars role blocks (content ++ block.line role)
        (charsCollected + block.blockText.byteLen)

def extractMessages (maxChars : Nat) :
    List Message → Text → Nat → List Nat → Text × List Nat
  | [], content, _, coveredEnds => (content, coveredEnds)
  | msg :: msgs, content, charsCollected, coveredEnds =>
    match extractBlocks maxChars msg.role msg.content content charsCollected with
    | .error content => (content, coveredEnds)
    | .ok (content, charsCollected) =>
      extractMessages maxChars msgs content charsCollected (coveredEnds ++ [content.byteLen])

/-! ## Chunks -/

/-- The loop of `chunk_at_message_boundaries`: the pieces so far with their ends, where the next
piece starts, and the last boundary. -/
structure Chunking where
  chunks : List (Text × Nat)
  start : Nat
  lastEnd : Nat

namespace Chunking

/-- The whole messages that wait make a piece. -/
def flush (content : Text) (state : Chunking) : Chunking :=
  if state.start < state.lastEnd then
    { state with
      chunks := state.chunks ++ [(content.slice state.start state.lastEnd, state.lastEnd)]
      start := state.lastEnd }
  else state

/-- A message that is over the budget makes a piece of its own. -/
def alone (content : Text) (budget boundary : Nat) (state : Chunking) : Chunking :=
  if budget < boundary - state.start then
    { state with
      chunks := state.chunks ++ [(content.slice state.start boundary, boundary)]
      start := boundary }
  else state

/-- One boundary. -/
def addBoundary (content : Text) (budget : Nat) (state : Chunking) (boundary : Nat) : Chunking :=
  if boundary ≤ state.start then state
  else if budget < boundary - state.start then
    { (state.flush content).alone content budget boundary with lastEnd := boundary }
  else { state with lastEnd := boundary }

end Chunking

def chunkAtMessageBoundaries (content : Text) (coveredEnds : List Nat) (budgetChars : Nat) :
    List (Text × Nat) :=
  let budget := max budgetChars 1
  ((coveredEnds.foldl (Chunking.addBoundary content budget) ⟨[], 0, 0⟩).flush content).chunks

/-! ## Summarizers -/

/-- Whether a summary can stand for `sourceLen` bytes. -/
def plausibleSummary (summary : Text) (sourceLen : Nat) : Bool :=
  let len := (summary.trim).byteLen
  if sourceLen < 1000 then decide (0 < len)
  else decide (64 ≤ len ∧ sourceLen ≤ len * 1000)

/-- A model that can be reached: its input limit in tokens, and what it answers for the chunk at
each position. -/
structure Summarizer where
  hardInputLimit : Nat
  reply : Nat → Text → Option Text

namespace Summarizer

variable (summarizer : Summarizer)

/-- What is left of the window after the output and the framing. -/
def maxChars : Nat := (summarizer.hardInputLimit - 512) * 4

/-- The budget that chunks are cut to. -/
def budget : Nat := max summarizer.maxChars 1

/-- A chunk as it is sent. -/
def truncated (chunk : Text) : Text :=
  if summarizer.maxChars < chunk.byteLen then chunk.takeBytes summarizer.maxChars else chunk

def summarizeChunk (i : Nat) (chunk : Text) : Option Text :=
  let truncated := summarizer.truncated chunk
  match summarizer.reply i truncated with
  | none => none
  | some summary => if plausibleSummary summary truncated.byteLen then some summary else none

/-- Every chunk in order, with the summaries so far and the offset read to. -/
def summarizeChunks : Nat → List (Text × Nat) → List Text → Nat → Option (List Text × Nat)
  | _, [], parts, consumed => some (parts, consumed)
  | i, (chunk, chunkEnd) :: chunks, parts, _ =>
    match summarizer.summarizeChunk i chunk with
    | none => none
    | some summary => summarizeChunks (i + 1) chunks (parts ++ [summary]) chunkEnd

end Summarizer

def spliceSummaries (parts : List Text) : Text :=
  match parts with
  | [part] => part
  | parts =>
    "\n\n".toList.intercalate (parts.zipIdx.map fun (part, i) =>
      s!"[Part {i + 1} of {parts.length}]\n".toList ++ part.trim)

/-- What a pass got: the model that answered, the summary and the offset read to. -/
structure Answer where
  summarizer : Summarizer
  summary : Text
  consumed : Nat

/-- The candidates in their order; `none` is one that cannot be reached. -/
def summarizeContentWithFallback (content : Text) (coveredEnds : List Nat) :
    List (Option Summarizer) → Option Answer
  | [] => none
  | none :: candidates => summarizeContentWithFallback content coveredEnds candidates
  | some summarizer :: candidates =>
    let chunks := chunkAtMessageBoundaries content coveredEnds summarizer.budget
    if chunks.isEmpty then summarizeContentWithFallback content coveredEnds candidates
    else
      match summarizer.summarizeChunks 0 chunks [] 0 with
      | none => summarizeContentWithFallback content coveredEnds candidates
      | some (parts, consumed) => some ⟨summarizer, spliceSummaries parts, consumed⟩

/-! ## A pass -/

namespace AgentContext

variable (env : ContextEnv) (ctx : AgentContext)

/-- All but the last two messages and the pinned one, with their positions. -/
def considered : List (Message × Nat) :=
  (ctx.messages.take (ctx.messages.length - 2)).zipIdx.filter (·.2 ≠ ctx.pinnedIndex)

def extractContentForSummarization (maxChars : Nat) : Text × List Nat :=
  extractMessages maxChars (ctx.considered.map (·.1)) [] 0 []

/-- A truncation, announced. -/
def truncateAnnounced (reason : Text) : AgentContext :=
  let (ctx, dropped) := ctx.truncateToLimit env
  ctx.pushSummarizationFailureNotice dropped reason

/-- `apply_pass_summary`: the context, and whether another pass may follow. -/
def applyPassSummary (summary : Text) (consumed : Nat) (coveredEnds : List Nat) :
    AgentContext × Bool :=
  let coveredMessages := (coveredEnds.takeWhile fun chunkEnd => decide (chunkEnd ≤ consumed)).length
  if coveredMessages = 0 then
    (ctx.truncateAnnounced env
      ("the summarization model's window is too small to " ++
        "read even one whole message").toList, false)
  else
    let (ctx, removed) := ctx.replaceWithSummary coveredMessages summary
    if removed = 0 then
      (ctx.pushSummarizationFailureNotice 0
        "the summarized messages were all pinned or reserved".toList, false)
    else (ctx, true)

/-- What extraction hands over, for a context with this limit. -/
def extraction : Text × List Nat := ctx.extractContentForSummarization (ctx.hardLimit * 4)

/-- What the candidates make of it. -/
def answer (candidates : List (Option Summarizer)) : Option Answer :=
  summarizeContentWithFallback ctx.extraction.1 ctx.extraction.2 candidates

/-- One pass of `enforce_limits_with_summarization`. -/
def summarizationPass (candidates : List (Option Summarizer)) : AgentContext × Bool :=
  if ctx.extraction.1.isEmpty then
    (ctx.truncateAnnounced env
      ("the remaining history has no summarizable middle (only " ++
        "the pinned request and the live tail)").toList, false)
  else
    match ctx.answer candidates with
    | some answer => ctx.applyPassSummary env answer.summary answer.consumed ctx.extraction.2
    | none =>
      (ctx.truncateAnnounced env
        "every summarization model failed (All summarization models failed)".toList, false)

/-- The pieces that were sent to the model that answered. -/
def sent (answer : Answer) : List Text :=
  (chunkAtMessageBoundaries ctx.extraction.1 ctx.extraction.2 answer.summarizer.budget).map
    fun chunk => answer.summarizer.truncated chunk.1

/-- The messages that extraction covers whole. -/
def covered : List Message := (ctx.considered.map (·.1)).take ctx.extraction.2.length

end AgentContext

/-! ## The texts in the content -/

/-- The offsets at the ends of consecutive texts. -/
def endsFrom : Nat → List Text → List Nat
  | _, [] => []
  | start, text :: texts => (start + text.byteLen) :: endsFrom (start + text.byteLen) texts

section Extraction

variable (maxChars : Nat) (role content : Text) (charsCollected : Nat)

theorem extractBlocks_prefix (blocks : List ContentBlock) :
    match extractBlocks maxChars role blocks content charsCollected with
    | .error content' => content <+: content'
    | .ok (content', _) => content' = content ++ (blocks.map (·.line role)).flatten := by
  induction blocks generalizing content charsCollected with
  | nil => simp [extractBlocks]
  | cons block blocks ih =>
    rw [extractBlocks]
    by_cases hover : maxChars < charsCollected + block.blockText.byteLen
    · rw [if_pos hover]
      show content <+: if _ then _ else _
      split
      · rename_i hempty
        rw [List.isEmpty_iff.mp hempty]
        exact List.nil_prefix
      · exact List.prefix_refl _
    · rw [if_neg hover]
      have hblocks := ih (content ++ block.line role) (charsCollected + block.blockText.byteLen)
      cases hrun : extractBlocks maxChars role blocks (content ++ block.line role)
          (charsCollected + block.blockText.byteLen) with
      | error content' =>
        rw [hrun] at hblocks
        exact (List.prefix_append _ _).trans hblocks
      | ok result =>
        rw [hrun] at hblocks
        show result.1 = _
        rw [show result.1 = _ from hblocks, List.map_cons, List.flatten_cons, List.append_assoc]

omit role in
/-- Extraction puts the texts of the first messages one after the other and notes their ends. -/
theorem extractMessages_eq (msgs : List Message) (coveredEnds : List Nat) :
    ∃ n rest, extractMessages maxChars msgs content charsCollected coveredEnds =
      (content ++ ((msgs.take n).map Message.extracted).flatten ++ rest,
        coveredEnds ++ endsFrom content.byteLen ((msgs.take n).map Message.extracted)) := by
  induction msgs generalizing content charsCollected coveredEnds with
  | nil => exact ⟨0, [], by simp [extractMessages, endsFrom]⟩
  | cons msg msgs ih =>
    have hblocks := extractBlocks_prefix maxChars msg.role content charsCollected msg.content
    rw [extractMessages]
    cases hrun : extractBlocks maxChars msg.role msg.content content charsCollected with
    | error content' =>
      rw [hrun] at hblocks
      obtain ⟨rest, rfl⟩ := hblocks
      exact ⟨0, rest, by simp [endsFrom]⟩
    | ok result =>
      rw [hrun] at hblocks
      have hcontent : result.1 = content ++ msg.extracted := hblocks
      obtain ⟨n, rest, hmsgs⟩ := ih result.1 result.2
        (coveredEnds ++ [result.1.byteLen])
      refine ⟨n + 1, rest, hmsgs.trans ?_⟩
      rw [List.take_succ_cons, List.map_cons, List.flatten_cons, endsFrom, hcontent,
        Text.byteLen_append, List.append_assoc coveredEnds, List.singleton_append,
        List.append_assoc content]

end Extraction

theorem length_endsFrom (start : Nat) (texts : List Text) :
    (endsFrom start texts).length = texts.length := by
  induction texts generalizing start with
  | nil => rfl
  | cons text texts ih => rw [endsFrom, List.length_cons, List.length_cons, ih]

/-- No offset is beyond the last text. -/
theorem le_of_mem_endsFrom {start chunkEnd : Nat} {texts : List Text}
    (h : chunkEnd ∈ endsFrom start texts) : chunkEnd ≤ start + Text.byteLen texts.flatten := by
  induction texts generalizing start with
  | nil => cases h
  | cons text texts ih =>
    rw [List.flatten_cons, Text.byteLen_append]
    rcases List.mem_cons.mp h with rfl | h
    · omega
    · have hle := ih h
      omega

/-! ## Chunks cover the texts -/

section Chunking

variable {content : Text} {budget : Nat} {state : Chunking} {boundary : Nat}

/-- The text between two offsets is in a piece that fits the budget, or is one. -/
def CoveredBy (content : Text) (budget : Nat) (chunks : List (Text × Nat)) (s e : Nat) : Prop :=
  ∃ a b, (content.slice a b, b) ∈ chunks ∧ a ≤ s ∧ e ≤ b ∧ (b - a ≤ budget ∨ a = s ∧ b = e)

theorem CoveredBy.mono {chunks chunks' : List (Text × Nat)} {s e : Nat}
    (h : CoveredBy content budget chunks s e) (hsub : chunks ⊆ chunks') :
    CoveredBy content budget chunks' s e := by
  obtain ⟨a, b, hmem, hrest⟩ := h
  exact ⟨a, b, hsub hmem, hrest⟩

namespace Chunking

/-- The pieces end where the next one starts, and what waits fits the budget. -/
structure Valid (budget : Nat) (state : Chunking) : Prop where
  start_le : state.start ≤ state.lastEnd
  fits : state.lastEnd - state.start ≤ budget
  start_eq : state.start = (state.chunks.getLast?.map (·.2)).getD 0

/-- The text between two offsets is in a piece, or waits. -/
def Settled (content : Text) (budget : Nat) (state : Chunking) (s e : Nat) : Prop :=
  CoveredBy content budget state.chunks s e ∨ state.start ≤ s ∧ e ≤ state.lastEnd

variable (content) in
theorem flush_start (h : state.Valid budget) : (state.flush content).start = state.lastEnd := by
  unfold flush
  split
  · rfl
  · have hle := h.start_le
    show state.start = state.lastEnd
    omega

theorem flush_valid (h : state.Valid budget) : (state.flush content).Valid budget := by
  have hstart := flush_start content h
  have hlast : (state.flush content).lastEnd = state.lastEnd := by
    unfold flush
    split
    · rfl
    · rfl
  refine ⟨by omega, by omega, ?_⟩
  unfold flush
  split
  · simp
  · exact h.start_eq

/-- The flush covers what waits. -/
theorem flush_covers {s e : Nat} (h : state.Valid budget) (hse : s < e)
    (hsettled : state.Settled content budget s e) :
    CoveredBy content budget (state.flush content).chunks s e := by
  rcases hsettled with hcovered | ⟨hs, he⟩
  · refine hcovered.mono ?_
    unfold flush
    split
    · exact List.subset_append_left _ _
    · exact List.Subset.refl _
  · have hlt : state.start < state.lastEnd := by omega
    rw [flush, if_pos hlt]
    exact ⟨state.start, state.lastEnd, List.mem_append_right _ (List.mem_singleton.mpr rfl), hs, he,
      .inl h.fits⟩

variable (content) in
theorem addBoundary_valid (h : state.Valid budget) (hboundary : state.lastEnd ≤ boundary) :
    (state.addBoundary content budget boundary).Valid budget ∧
      (state.addBoundary content budget boundary).lastEnd = boundary := by
  have hstart := flush_start content h
  have hle := h.start_le
  unfold addBoundary
  split
  · exact ⟨h, by omega⟩
  · split
    · refine ⟨?_, rfl⟩
      unfold alone
      split
      · exact ⟨Nat.le_refl _, by simp, by simp⟩
      · rename_i hfits
        refine ⟨?_, ?_, (flush_valid h).start_eq⟩
        · show (state.flush content).start ≤ boundary
          omega
        · show boundary - (state.flush content).start ≤ budget
          omega
    · refine ⟨⟨?_, ?_, h.start_eq⟩, rfl⟩
      · show state.start ≤ boundary
        omega
      · show boundary - state.start ≤ budget
        omega

theorem subset_alone : state.chunks ⊆ (state.alone content budget boundary).chunks := by
  unfold alone
  split
  · exact List.subset_append_left _ _
  · exact List.Subset.refl _

/-- What is settled stays so. -/
theorem Settled.addBoundary {s e : Nat} (hsettled : state.Settled content budget s e)
    (h : state.Valid budget) (hboundary : state.lastEnd ≤ boundary) (hse : s < e) :
    (state.addBoundary content budget boundary).Settled content budget s e := by
  unfold Chunking.addBoundary
  split
  · exact hsettled
  · split
    · exact .inl ((flush_covers h hse hsettled).mono subset_alone)
    · rcases hsettled with hcovered | ⟨hs, he⟩
      · exact .inl hcovered
      · exact .inr ⟨hs, he.trans hboundary⟩

/-- The text up to a new boundary is settled. -/
theorem addBoundary_settled (h : state.Valid budget) (hboundary : state.lastEnd < boundary) :
    (state.addBoundary content budget boundary).Settled content budget state.lastEnd boundary := by
  have hstart := flush_start content h
  have hle := h.start_le
  unfold addBoundary
  split
  · omega
  · split
    · by_cases hover : budget < boundary - (state.flush content).start
      · left
        show CoveredBy content budget
          ((state.flush content).alone content budget boundary).chunks state.lastEnd boundary
        rw [alone, if_pos hover]
        exact ⟨(state.flush content).start, boundary,
          List.mem_append_right _ (List.mem_singleton.mpr rfl), Nat.le_of_eq hstart,
          Nat.le_refl _, .inr ⟨hstart, rfl⟩⟩
      · right
        refine ⟨?_, Nat.le_refl _⟩
        show ((state.flush content).alone content budget boundary).start ≤ state.lastEnd
        rw [alone, if_neg hover]
        exact Nat.le_of_eq hstart
    · exact .inr ⟨hle, Nat.le_refl _⟩

variable (content) in
/-- Every text is settled once its boundary was added. -/
theorem foldl_addBoundary (texts : List Text) (h : state.Valid budget) :
    let state' := (endsFrom state.lastEnd texts).foldl (Chunking.addBoundary content budget) state
    state'.Valid budget ∧ state'.lastEnd = state.lastEnd + Text.byteLen texts.flatten ∧
      (∀ s e, s < e → state.Settled content budget s e → state'.Settled content budget s e) ∧
      ∀ before text after, texts = before ++ text :: after → 0 < text.byteLen →
        state'.Settled content budget (state.lastEnd + Text.byteLen before.flatten)
          (state.lastEnd + Text.byteLen before.flatten + text.byteLen) := by
  induction texts generalizing state with
  | nil =>
    refine ⟨h, rfl, fun s e _ hsettled => hsettled, fun before text after heq _ => ?_⟩
    exact absurd heq.symm (List.append_ne_nil_of_right_ne_nil _ (List.cons_ne_nil _ _))
  | cons first texts ih =>
    have hboundary : state.lastEnd ≤ state.lastEnd + first.byteLen := Nat.le_add_right _ _
    obtain ⟨hvalid, hlast⟩ := addBoundary_valid content h hboundary
    have hrest := ih hvalid
    rw [hlast] at hrest
    obtain ⟨hvalid', hlast', hkeeps, hnew⟩ := hrest
    refine ⟨hvalid', ?_, fun s e hse hsettled => ?_, fun before text after heq hpos => ?_⟩
    · rw [endsFrom, List.foldl_cons, hlast', List.flatten_cons, Text.byteLen_append, Nat.add_assoc]
    · exact hkeeps s e hse (hsettled.addBoundary h hboundary hse)
    · cases before with
      | nil =>
        obtain ⟨rfl, rfl⟩ := List.cons_eq_cons.mp heq
        refine hkeeps _ _ (by omega) ?_
        exact addBoundary_settled h (Nat.lt_add_of_pos_right hpos)
      | cons first' before =>
        obtain ⟨rfl, htexts⟩ := List.cons_eq_cons.mp heq
        have hsettled := hnew before text after htexts hpos
        rw [List.flatten_cons, Text.byteLen_append, ← Nat.add_assoc]
        exact hsettled

end Chunking

variable (content) in
/-- Every text is in a piece that fits the budget, or is one. -/
theorem chunk_covers {texts before after : List Text} {text : Text} (budgetChars : Nat)
    (htexts : texts = before ++ text :: after) (hpos : 0 < text.byteLen) :
    CoveredBy content (max budgetChars 1)
      (chunkAtMessageBoundaries content (endsFrom 0 texts) budgetChars)
      (Text.byteLen before.flatten) (Text.byteLen before.flatten + text.byteLen) := by
  have hstart : Chunking.Valid (max budgetChars 1) ⟨[], 0, 0⟩ := ⟨Nat.le_refl _, by simp, rfl⟩
  obtain ⟨hvalid, -, -, hnew⟩ := Chunking.foldl_addBoundary content texts hstart
  have hsettled := hnew before text after htexts hpos
  rw [Nat.zero_add] at hsettled
  exact Chunking.flush_covers hvalid (Nat.lt_add_of_pos_right hpos) hsettled

/-- The last piece ends with the last text. -/
theorem chunk_last_end {texts : List Text} {budgetChars : Nat} :
    ((chunkAtMessageBoundaries content (endsFrom 0 texts) budgetChars).getLast?.map (·.2)).getD 0 =
      Text.byteLen texts.flatten := by
  have hstart : Chunking.Valid (max budgetChars 1) ⟨[], 0, 0⟩ := ⟨Nat.le_refl _, by simp, rfl⟩
  obtain ⟨hvalid, hlast, -, -⟩ := Chunking.foldl_addBoundary content texts hstart
  rw [Nat.zero_add] at hlast
  exact (Chunking.flush_valid hvalid).start_eq.symm.trans ((Chunking.flush_start content hvalid).trans hlast)

end Chunking

/-! ## What was read -/

/-- Nothing to read makes no piece. -/
theorem chunk_eq_nil {content : Text} {texts : List Text} {budgetChars : Nat}
    (h : Text.byteLen texts.flatten = 0) :
    chunkAtMessageBoundaries content (endsFrom 0 texts) budgetChars = [] := by
  have hzero : ∀ boundary ∈ endsFrom 0 texts, boundary = 0 := by
    intro boundary hmem
    have hle := le_of_mem_endsFrom hmem
    omega
  have hfold : ∀ ends : List Nat, (∀ boundary ∈ ends, boundary = 0) →
      ends.foldl (Chunking.addBoundary content (max budgetChars 1)) ⟨[], 0, 0⟩ = ⟨[], 0, 0⟩ := by
    intro ends hends
    induction ends with
    | nil => rfl
    | cons boundary ends ih =>
      obtain ⟨rfl, hrest⟩ := List.forall_mem_cons.mp hends
      exact ih hrest
  rw [chunkAtMessageBoundaries, hfold _ hzero]
  rfl

theorem summarizeChunks_consumed {summarizer : Summarizer} {i consumed consumed' : Nat}
    {chunks : List (Text × Nat)} {parts parts' : List Text}
    (h : summarizer.summarizeChunks i chunks parts consumed = some (parts', consumed')) :
    consumed' = (chunks.getLast?.map (·.2)).getD consumed := by
  induction chunks generalizing i consumed parts with
  | nil =>
    cases h
    rfl
  | cons chunk chunks ih =>
    rw [Summarizer.summarizeChunks] at h
    split at h
    · cases h
    · rw [ih h, List.getLast?_cons]
      cases chunks.getLast? with
      | none => rfl
      | some last => rfl

/-- An answer is about all the pieces, and there are some. -/
theorem answer_spec {content : Text} {coveredEnds : List Nat} {candidates : List (Option Summarizer)}
    {answer : Answer} (h : summarizeContentWithFallback content coveredEnds candidates = some answer) :
    chunkAtMessageBoundaries content coveredEnds answer.summarizer.budget ≠ [] ∧
    answer.consumed = ((chunkAtMessageBoundaries content coveredEnds
      answer.summarizer.budget).getLast?.map (·.2)).getD 0 := by
  induction candidates with
  | nil => cases h
  | cons candidate candidates ih =>
    cases candidate with
    | none => exact ih h
    | some summarizer =>
      rw [summarizeContentWithFallback] at h
      split at h
      · exact ih h
      · rename_i hsome
        split at h
        · exact ih h
        · rename_i parts consumed hrun
          cases h
          refine ⟨fun hnil => hsome (List.isEmpty_iff.mpr hnil), ?_⟩
          exact summarizeChunks_consumed hrun

/-- A piece as sent fits the window. -/
theorem Summarizer.byteLen_truncated_le (summarizer : Summarizer) (chunk : Text) :
    (summarizer.truncated chunk).byteLen ≤ summarizer.maxChars := by
  unfold truncated
  split
  · exact Text.byteLen_takeBytes_le
  · omega

namespace AgentContext

section Retired

variable {env : ContextEnv} {ctx : AgentContext} {candidates : List (Option Summarizer)}
  {answer : Answer}

/-- The victims are the positions of the first messages that extraction walks. -/
theorem victims_eq (coveredMessages : Nat) :
    ctx.victims coveredMessages = (ctx.considered.take coveredMessages).map (·.2) := by
  have hcutoff : ctx.messages.length - min 2 ctx.messages.length = ctx.messages.length - 2 := by
    omega
  have hlength : (ctx.messages.take (ctx.messages.length - 2)).length = ctx.messages.length - 2 := by
    rw [List.length_take]
    omega
  have hpositions : List.range (ctx.messages.length - 2) =
      (ctx.messages.take (ctx.messages.length - 2)).zipIdx.map (·.2) := by
    rw [List.zipIdx_map_snd, hlength, List.range_eq_range']
  rw [victims, unpinned, considered, hcutoff, hpositions, List.filter_map, List.map_take]
  rfl

theorem messages_getElem?_of_considered {entry : Message × Nat} (h : entry ∈ ctx.considered) :
    ctx.messages[entry.2]? = some entry.1 := by
  have hmem := List.mem_zipIdx_iff_getElem?.mp (List.mem_of_mem_filter h)
  rw [List.getElem?_take] at hmem
  split at hmem
  · exact hmem
  · cases hmem

/-- So the messages removed are the first ones that extraction walks. -/
theorem filterMap_victims (coveredMessages : Nat) :
    (ctx.victims coveredMessages).filterMap (fun i => ctx.messages[i]?) =
      (ctx.considered.map (·.1)).take coveredMessages := by
  rw [victims_eq, List.filterMap_map, ← List.map_take, ← List.filterMap_eq_map]
  refine List.filterMap_congr fun entry hentry => ?_
  exact messages_getElem?_of_considered (List.mem_of_mem_take hentry)

/-- Just the victims go. -/
theorem replaceWithSummary_perm (coveredMessages : Nat) (summary : Text) :
    ctx.messages.Perm ((ctx.considered.map (·.1)).take coveredMessages ++
      (ctx.replaceWithSummary coveredMessages summary).1.messages) := by
  rw [← filterMap_victims]
  unfold replaceWithSummary
  simp only
  split
  · rename_i hvictims
    have hmessages : ctx.messages ≠ [] := by
      intro hempty
      rw [victims, unpinned, hempty] at hvictims
      exact absurd hvictims (by simp)
    obtain ⟨pre, msg, post, hsplit⟩ := exists_split hmessages
    -- the summary and the hashes are no concern of the messages
    have hsplit' : (ctx.recordSummary (ctx.victims coveredMessages) summary).Split pre msg post :=
      ⟨hsplit.messages, hsplit.pinned⟩
    obtain ⟨a, b, hremoved, hafter, -, -⟩ :=
      split_removeAll (k := coveredMessages) hsplit' (Nat.sub_le ctx.messages.length _)
    have hperm : ctx.messages.Perm
        (pre.take a ++ post.take b ++ (pre.drop a ++ msg :: post.drop b)) := by
      rw [hsplit.messages, List.perm_iff_count]
      intro x
      have hpre : pre.count x = (pre.take a).count x + (pre.drop a).count x := by
        rw [← List.count_append, List.take_append_drop]
      have hpost : post.count x = (post.take b).count x + (post.drop b).count x := by
        rw [← List.count_append, List.take_append_drop]
      simp only [List.count_append, List.count_cons]
      omega
    refine hperm.trans (.of_eq ?_)
    exact congrArg₂ (· ++ ·) hremoved.symm hafter.messages.symm
  · rename_i hnone
    rw [List.length_eq_zero_iff.mp (Nat.eq_zero_of_not_pos hnone)]
    exact List.Perm.refl _

variable (ctx) in
/-- What extraction hands over: the texts of the covered messages and their ends. -/
theorem extraction_eq : ∃ rest, ctx.extraction =
    ((ctx.covered.map Message.extracted).flatten ++ rest,
      endsFrom 0 (ctx.covered.map Message.extracted)) := by
  obtain ⟨n, rest, heq⟩ := extractMessages_eq (ctx.hardLimit * 4) [] 0
    (ctx.considered.map (·.1)) []
  have hextraction : ctx.extraction = _ := heq
  have hcovered : ctx.covered = (ctx.considered.map (·.1)).take n := by
    rw [covered, hextraction]
    show List.take (endsFrom 0 _).length _ = _
    rw [length_endsFrom, List.length_map, List.length_take, ← List.take_eq_take_min]
  refine ⟨rest, ?_⟩
  rw [hcovered]
  exact hextraction

/-- An answer is about every covered message. -/
theorem answer_consumed (h : ctx.answer candidates = some answer) :
    0 < answer.consumed ∧
    answer.consumed = Text.byteLen (ctx.covered.map Message.extracted).flatten := by
  obtain ⟨rest, hextraction⟩ := extraction_eq ctx
  rw [AgentContext.answer, hextraction] at h
  obtain ⟨hsome, hconsumed⟩ := answer_spec h
  rw [chunk_last_end] at hconsumed
  refine ⟨Nat.pos_of_ne_zero fun hzero => hsome ?_, hconsumed⟩
  exact chunk_eq_nil (hconsumed.symm.trans hzero)

/-- The pass removes the covered messages and no others. -/
theorem summarizationPass_perm (h : ctx.answer candidates = some answer) :
    ctx.messages.Perm (ctx.covered ++ (ctx.summarizationPass env candidates).1.messages) := by
  obtain ⟨hpos, hconsumed⟩ := answer_consumed h
  obtain ⟨rest, hextraction⟩ := extraction_eq ctx
  have hcontent : ¬ ctx.extraction.1.isEmpty = true := by
    intro hempty
    rw [hextraction, List.isEmpty_iff, List.append_eq_nil_iff] at hempty
    rw [hconsumed, hempty.1] at hpos
    exact absurd hpos (Nat.lt_irrefl 0)
  -- every end is read
  have hall : ctx.extraction.2.takeWhile (fun chunkEnd => decide (chunkEnd ≤ answer.consumed)) =
      ctx.extraction.2 := by
    rw [List.takeWhile_eq_self_iff]
    intro chunkEnd hmem
    rw [hextraction] at hmem
    have hle := le_of_mem_endsFrom hmem
    exact decide_eq_true (by omega)
  have hsome : ¬ ctx.extraction.2.length = 0 := by
    intro hzero
    rw [hextraction, length_endsFrom, List.length_eq_zero_iff] at hzero
    rw [hconsumed, hzero] at hpos
    exact absurd hpos (Nat.lt_irrefl 0)
  have hmessages : (ctx.summarizationPass env candidates).1.messages =
      (ctx.replaceWithSummary ctx.extraction.2.length answer.summary).1.messages := by
    rw [summarizationPass, if_neg hcontent, h]
    show (ctx.applyPassSummary env answer.summary answer.consumed ctx.extraction.2).1.messages = _
    rw [applyPassSummary, hall]
    simp only
    rw [if_neg hsome]
    split
    · rfl
    · rfl
  rw [hmessages]
  exact replaceWithSummary_perm _ _

theorem byteLen_le_of_sent {text : Text} {piece : Text} (hpiece : piece ∈ ctx.sent answer)
    (h : text <:+: piece) : text.byteLen ≤ answer.summarizer.maxChars := by
  obtain ⟨chunk, -, rfl⟩ := List.mem_map.mp hpiece
  exact (Text.byteLen_le_of_infix h).trans (Summarizer.byteLen_truncated_le _ _)

/-- A covered message that fits the window is sent in full. -/
theorem sent_of_fits (h : ctx.answer candidates = some answer) {msg : Message}
    (hmsg : msg ∈ ctx.covered) (hfits : msg.extracted.byteLen ≤ answer.summarizer.maxChars) :
    ∃ piece ∈ ctx.sent answer, msg.extracted <:+: piece := by
  obtain ⟨rest, hextraction⟩ := extraction_eq ctx
  have hspec := h
  rw [AgentContext.answer, hextraction] at hspec
  obtain ⟨hsome, -⟩ := answer_spec hspec
  unfold sent
  rw [hextraction]
  rcases Nat.eq_zero_or_pos msg.extracted.byteLen with hzero | hpos
  · obtain ⟨chunk, hchunk⟩ := List.exists_mem_of_ne_nil _ hsome
    refine ⟨_, List.mem_map_of_mem hchunk, ?_⟩
    rw [Text.eq_nil_of_byteLen hzero]
    exact List.nil_infix
  · obtain ⟨before, after, hsplit⟩ := List.append_of_mem hmsg
    have htexts : ctx.covered.map Message.extracted =
        before.map Message.extracted ++ msg.extracted :: after.map Message.extracted := by
      rw [hsplit, List.map_append, List.map_cons]
    obtain ⟨a, b, hmem, ha, hb, hroom⟩ := chunk_covers
      ((ctx.covered.map Message.extracted).flatten ++ rest) answer.summarizer.budget htexts hpos
    refine ⟨_, List.mem_map_of_mem hmem, ?_⟩
    have hinfix : msg.extracted <:+:
        Text.slice ((ctx.covered.map Message.extracted).flatten ++ rest) a b := by
      have hcontent : (ctx.covered.map Message.extracted).flatten ++ rest =
          (before.map Message.extracted).flatten ++ msg.extracted ++
            ((after.map Message.extracted).flatten ++ rest) := by
        rw [htexts, List.flatten_append, List.flatten_cons]
        simp only [List.append_assoc]
      rw [hcontent]
      exact Text.infix_slice ha (by rw [Text.byteLen_append]; exact hb)
    have hslice : Text.byteLen
        (Text.slice ((ctx.covered.map Message.extracted).flatten ++ rest) a b) ≤ b - a :=
      Text.byteLen_slice_le
    have hwindow : b - a ≤ answer.summarizer.maxChars := by
      unfold Summarizer.budget at hroom
      rcases hroom with hbudget | ⟨rfl, rfl⟩
      · omega
      · omega
    have hwhole : ¬ answer.summarizer.maxChars < Text.byteLen
        (Text.slice ((ctx.covered.map Message.extracted).flatten ++ rest) a b) := by omega
    show _ <:+: answer.summarizer.truncated (Text.slice _ a b)
    rw [Summarizer.truncated, if_neg hwhole]
    exact hinfix

end Retired

/-- **Main result.** A pass that got an answer removes the messages that extraction covered, and
each of them was sent in full if and only if each fits the window of the model that answered. -/
theorem retired_was_read_iff (env : ContextEnv) {ctx : AgentContext}
    {candidates : List (Option Summarizer)} {answer : Answer}
    (h : ctx.answer candidates = some answer) :
    ctx.messages.Perm (ctx.covered ++ (ctx.summarizationPass env candidates).1.messages) ∧
    ((∀ msg ∈ ctx.covered, ∃ piece ∈ ctx.sent answer, msg.extracted <:+: piece) ↔
      ∀ msg ∈ ctx.covered, msg.extracted.byteLen ≤ answer.summarizer.maxChars) := by
  refine ⟨summarizationPass_perm h, fun hread msg hmsg => ?_, fun hfits msg hmsg => ?_⟩
  · obtain ⟨piece, hpiece, hinfix⟩ := hread msg hmsg
    exact byteLen_le_of_sent hpiece hinfix
  · exact sent_of_fits h hmsg (hfits msg hmsg)

/-! ## A message larger than the window -/

def largeMessage : Message := .assistantText (List.replicate 300 'a')

/-- A request, a long answer and two more turns. -/
def longHistory : AgentContext where
  systemPrompt := []
  messages := [.userText "fix it".toList, largeMessage, .userText "go on".toList,
    .assistantText "ok".toList]
  maxMessages := 100
  hardLimit := 1000
  consolidatedSummary := none
  distilledFacts := none
  verifiedOutcomes := []
  maxObservedGrowth := 0
  pendingLossNotices := []
  summarizedContentHashes := []
  pinnedRequest := none

/-- A model that answers every chunk with a line. -/
def terse (hardInputLimit : Nat) : Summarizer where
  hardInputLimit
  reply _ _ := some "The assistant explained.".toList

/-- In a window of 1000 tokens the answer is read in full. -/
theorem retired_was_read_roomy : ∃ answer, longHistory.answer [some (terse 1000)] = some answer ∧
    ∀ msg ∈ longHistory.covered, ∃ piece ∈ longHistory.sent answer, msg.extracted <:+: piece := by
  have hlimit : (longHistory.answer [some (terse 1000)]).map (·.summarizer.maxChars) = some 1952 := by
    decide +kernel
  obtain ⟨answer, hanswer, hmaxChars⟩ := Option.map_eq_some_iff.mp hlimit
  refine ⟨answer, hanswer, (retired_was_read_iff .exact hanswer).2.mpr ?_⟩
  rw [hmaxChars]
  decide +kernel

/-- In a window of 520 tokens the model is sent 32 bytes of it, and it is removed all the same. -/
theorem large_message_retired_unread :
    largeMessage ∉ (longHistory.summarizationPass .exact [some (terse 520)]).1.messages ∧
    ∃ answer, longHistory.answer [some (terse 520)] = some answer ∧
      ∀ piece ∈ longHistory.sent answer, ¬ largeMessage.extracted <:+: piece := by
  refine ⟨by decide +kernel, ?_⟩
  have hunread : (longHistory.answer [some (terse 520)]).map (fun answer =>
      (longHistory.sent answer).all fun piece => ! piece.contains largeMessage.extracted) =
        some true := by
    decide +kernel
  obtain ⟨answer, hanswer, hall⟩ := Option.map_eq_some_iff.mp hunread
  refine ⟨answer, hanswer, fun piece hpiece hinfix => ?_⟩
  have hpiece := List.all_eq_true.mp hall piece hpiece
  rw [Text.contains_iff.mpr hinfix] at hpiece
  exact Bool.false_ne_true hpiece

end AgentContext

end Nanna.Agent
