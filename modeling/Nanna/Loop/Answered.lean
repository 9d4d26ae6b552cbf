import Mathlib.Data.List.Count
import Nanna.Lib.Except
import Nanna.Lib.Moves
import Nanna.Loop.Turn

/-!
# Every stored call is answered

`calls_answered`: in every run whose iterations are `Answering`, after each iteration and when the run
returns, every call of an assistant message that the run stored is answered, by exactly one result in
the message directly after it. The context holds a tail of what was stored, behind what the cuts have left
of the history and of the message the run began with.

An iteration is `Answering` if a reply with calls is stored only while the token is not set and the
report is not being made, and its calls have ids of their own. The reply is stored before any of this
is looked at: a cancellation in mid-stream and a call on the wrap-up iteration leave the loop with the
calls open, and so do calls salvaged from the prose of a report (`open_calls`).

The result that is stored and the results that are sent for it come from the same pass over the reply
(`Accounted`), so their ids are the same up to the order.
-/

namespace Nanna.Loop

open Nanna.Lib Nanna.Llm
open Nanna.Agent (AgentContext ContextEnv Message Link)
open Nanna.Agent.AgentContext (CutOp Trimmed)

variable {env : TurnEnv} {s s' t : RunState} {round : Round} {result : LlmResult}
  {salvaged uses : List ToolUse} {history messages : List Message} {msg next : Message}
  {blocks : List ContentBlock} {exit : RunExit}

/-! ## What is claimed -/

/-- Every call is answered by exactly one result in the message directly after it. -/
def Paired (messages : List Message) : Prop :=
  ∀ i msg id, messages[i]? = some msg → Link.call id ∈ msg.links →
    ∃ next, messages[i + 1]? = some next ∧ next.links.count (.result id) = 1

/-- The context ends with stored messages; before them is what is left of the history and of the message
that the run began with. -/
def Held (history : List Message) (s : RunState) : Prop :=
  ∃ rest own, s.context.messages.map Message.links = rest ++ own.map Message.links ∧
    own <:+ s.stored ∧ rest.Sublist ((history ++ s.stored.take 1).map Message.links)

/-- The ids of the calls. -/
def callIds (blocks : List ContentBlock) : List Text := (blocks.filterMap toolUseOf).map (·.1)

/-- A reply with calls is stored only where they will be answered. -/
def Answering (env : TurnEnv) : Phase → Round → Prop
  | .running s, round =>
    match s.exchange env round with
    | .error _ => True
    | .ok (s, result, _) =>
      callIds result.contentBlocks = [] ∨
        (callIds result.contentBlocks).Nodup ∧ round.cancelledAfterReply = false ∧
          s.wrapUp.engaged = false
  | .returned .., _ => True

/-! ## Pairs -/

theorem paired_nil : Paired [] := fun i msg id h => by simp at h

theorem paired_append {messages' : List Message} (h : Paired messages) (h' : Paired messages') :
    Paired (messages ++ messages') := by
  intro i msg id hmsg hcall
  rcases Nat.lt_or_ge i messages.length with hlt | hge
  · rw [List.getElem?_append_left hlt] at hmsg
    obtain ⟨next, hnext, hcount⟩ := h i msg id hmsg hcall
    refine ⟨next, ?_, hcount⟩
    rw [List.getElem?_append_left (List.getElem?_eq_some_iff.mp hnext).1, hnext]
  · rw [List.getElem?_append_right hge] at hmsg
    obtain ⟨next, hnext, hcount⟩ := h' _ msg id hmsg hcall
    refine ⟨next, ?_, hcount⟩
    rw [List.getElem?_append_right (by omega), ← hnext]
    congr 1
    omega

/-- A message without calls. -/
theorem paired_singleton (h : ∀ id, Link.call id ∉ msg.links) : Paired [msg] := by
  intro i msg' id hmsg hcall
  obtain rfl : msg' = msg := List.mem_singleton.mp (List.mem_of_getElem? hmsg)
  exact absurd hcall (h id)

/-- A message and its answer. -/
theorem paired_pair {ids ids' : List Text} (hcalls : ∀ id, Link.call id ∈ msg.links → id ∈ ids)
    (hresults : next.links = ids'.map .result) (hperm : ids.Perm ids') (hnodup : ids.Nodup) :
    Paired [msg, next] := by
  intro i msg' id hmsg hcall
  match i with
  | 0 =>
    obtain rfl : msg = msg' := Option.some.inj hmsg
    refine ⟨next, rfl, ?_⟩
    rw [hresults, List.count_map_of_injective _ _ fun _ _ h => Link.result.inj h, ← hperm.count_eq]
    exact List.count_eq_one_of_mem hnodup (hcalls id hcall)
  | 1 =>
    obtain rfl : next = msg' := Option.some.inj hmsg
    rw [hresults] at hcall
    obtain ⟨_, _, hlink⟩ := List.mem_map.mp hcall
    cases hlink
  | i + 2 => cases hmsg

/-! ## Results -/

theorem links_executeTools (dispatch : Dispatch) (uses : List ToolUse) :
    (RunState.executeTools dispatch uses).map (·.link) = uses.map fun use => .result use.1 := by
  cases dispatch with
  | skipped | interrupted =>
    rw [RunState.executeTools, List.map_map]
    rfl
  | ran outcome =>
    rw [RunState.executeTools, List.map_map]
    calc uses.zipIdx.map _ = (uses.zipIdx.map Prod.fst).map fun use => Link.result use.1 := by
          rw [List.map_map]
          rfl
      _ = _ := by rw [List.zipIdx_map_fst]

/-- The calls of a stored message are those of the reply. -/
theorem mem_callIds {id : Text} (h : Link.call id ∈ (blocks.map (s.storedBlock env)).map (·.link)) :
    id ∈ callIds blocks := by
  simp only [List.mem_map] at h
  obtain ⟨-, ⟨block, hblock, rfl⟩, hlink⟩ := h
  cases block with
  | toolUse id' name input =>
    obtain rfl : id' = id := Link.call.inj hlink
    exact List.mem_map.mpr ⟨(id', name, input), List.mem_filterMap.mpr ⟨_, hblock, rfl⟩, rfl⟩
  | text | image | toolResult | thinking => cases hlink

/-- The id of an error result. -/
def errorId : ContentBlock → Option Text
  | .toolResult id _ _ => some id
  | _ => none

/-- The calls of a reply are those that will be executed, those that could not be read and those
salvaged. -/
structure Accounted (result : LlmResult) (salvaged : List ToolUse) : Prop where
  perm : (callIds result.contentBlocks).Perm
    (result.toolUses.map (·.1) ++ result.errorToolResults.filterMap errorId ++ salvaged.map (·.1))
  errors : ∀ block ∈ result.errorToolResults, (errorId block).isSome
  salvaged : salvaged = [] ∨ result.toolUses = [] ∧ result.errorToolResults = []

theorem callIds_append (blocks blocks' : List ContentBlock) :
    callIds (blocks ++ blocks') = callIds blocks ++ callIds blocks' := by
  rw [callIds, List.filterMap_append, List.map_append]
  rfl

/-- What an assembler has is accounted for. -/
structure Assembling (asm : StreamBlockAssembler) : Prop where
  perm : (callIds asm.contentBlocks).Perm
    (asm.toolUses.map (·.1) ++ asm.errorToolResults.filterMap errorId)
  errors : ∀ block ∈ asm.errorToolResults, (errorId block).isSome

theorem Assembling.finalizeTool {asm : StreamBlockAssembler} (h : Assembling asm) (block : ToolBlock) :
    Assembling (asm.finalizeTool env.parse block) := by
  unfold StreamBlockAssembler.finalizeTool
  split
  · exact h
  · dsimp only
    split
    · rename_i input hinput
      refine ⟨?_, h.errors⟩
      show (callIds (asm.contentBlocks ++ [_])).Perm (List.map _ (asm.toolUses ++ [_]) ++ _)
      rw [callIds_append, List.map_append, List.append_assoc]
      refine (h.perm.append_right _).trans ?_
      rw [List.append_assoc]
      exact List.perm_append_comm.append_left _
    · refine ⟨?_, fun b hb => ?_⟩
      · show (callIds (asm.contentBlocks ++ [_])).Perm (_ ++ List.filterMap _ (asm.errorToolResults ++ [_]))
        rw [callIds_append, List.filterMap_append, ← List.append_assoc]
        exact h.perm.append_right _
      · rcases List.mem_append.mp hb with hold | hlast
        · exact h.errors b hold
        · rw [List.mem_singleton.mp hlast]
          rfl

theorem Assembling.of_eq {asm asm' : StreamBlockAssembler} (h : Assembling asm)
    (hblocks : callIds asm'.contentBlocks = callIds asm.contentBlocks)
    (huses : asm'.toolUses = asm.toolUses) (herrors : asm'.errorToolResults = asm.errorToolResults) :
    Assembling asm' :=
  ⟨by rw [hblocks, huses, herrors]; exact h.perm, by rw [herrors]; exact h.errors⟩

theorem Assembling.onBlockStop {asm : StreamBlockAssembler} (h : Assembling asm) (index : Nat) :
    Assembling (asm.onBlockStop env.parse index).1 := by
  have hother (blocks : List ContentBlock) (hblocks : callIds blocks = []) :
      callIds (asm.contentBlocks ++ blocks) = callIds asm.contentBlocks := by
    rw [callIds_append, hblocks, List.append_nil]
  unfold StreamBlockAssembler.onBlockStop
  split
  · have hopen : Assembling { asm with toolBlocks := Function.update asm.toolBlocks index none } :=
      h.of_eq rfl rfl rfl
    exact hopen.finalizeTool _
  · split
    · refine h.of_eq (hother _ ?_) rfl rfl
      split <;> rfl
    · refine h.of_eq (hother _ ?_) rfl rfl
      split <;> rfl

theorem assembling (events : List StreamEvent) :
    Assembling (StreamBlockAssembler.assemble env.parse events) := by
  induction events using List.reverseRecOn with
  | nil => exact ⟨.refl _, nofun⟩
  | append_singleton events event ih =>
    rw [StreamBlockAssembler.assemble, List.foldl_append, List.foldl_cons, List.foldl_nil]
    cases event with
    | contentBlockStop index => exact ih.onBlockStop index
    | contentBlockStart index contentType toolId toolName =>
      refine ih.of_eq ?_ ?_ ?_ <;>
      · unfold StreamBlockAssembler.onEvent StreamBlockAssembler.onBlockStart
        dsimp only
        split <;> rfl
    | _ => exact ih.of_eq rfl rfl rfl

theorem accounted_reply (reply : Reply) : Accounted (reply.result env) [] := by
  cases reply with
  | streamed events notice =>
    obtain ⟨hperm, herrors⟩ := @assembling env events
    refine ⟨?_, herrors, .inl rfl⟩
    rw [List.map_nil, List.append_nil]
    exact hperm
  | whole blocks =>
    refine ⟨?_, nofun, .inl rfl⟩
    show List.Perm _ (_ ++ [] ++ [])
    rw [List.append_nil, List.append_nil]
    exact .refl _
  | dropped => exact ⟨.refl _, nofun, .inl rfl⟩

theorem callIds_fence (fence : Text → Text) (blocks : List ContentBlock) :
    callIds (blocks.map (RunState.fenceBlock fence)) = callIds blocks := by
  unfold callIds
  rw [List.filterMap_map]
  congr 2
  funext block
  cases block <;> rfl

theorem callIds_toolUse (uses : List ToolUse) :
    callIds (uses.map fun use => .toolUse use.1 use.2.1 use.2.2) = uses.map (·.1) := by
  unfold callIds
  rw [List.filterMap_map]
  exact congrArg _ List.filterMap_some

theorem accounted_salvage (h : Accounted result []) : Accounted
    (RunState.salvageProseCalls round result).1 (RunState.salvageProseCalls round result).2 := by
  unfold RunState.salvageProseCalls
  split
  · rename_i hprose
    obtain ⟨huses, herrors, -⟩ := hprose
    have hnone : callIds result.contentBlocks = [] := by
      have hperm := h.perm
      rw [huses, herrors] at hperm
      exact hperm.eq_nil
    refine ⟨?_, h.errors, .inr ⟨huses, herrors⟩⟩
    show (callIds (_ ++ _)).Perm (List.map _ result.toolUses ++ List.filterMap _ result.errorToolResults ++ _)
    rw [callIds_append, callIds_fence, callIds_toolUse, hnone, huses, herrors]
    exact .refl _
  · exact h

/-! ## What the context holds -/

/-- `Held`, with the pinned message in what is left of the history. -/
def HeldPinned (history : List Message) (s : RunState) : Prop :=
  s.stored ≠ [] ∧ ∃ rest own, s.context.messages.map Message.links = rest ++ own.map Message.links ∧
    own <:+ s.stored ∧ rest.Sublist ((history ++ s.stored.take 1).map Message.links) ∧
      s.context.pinnedRequest.getD 0 < rest.length

theorem HeldPinned.held (h : HeldPinned history s) : Held history s := by
  obtain ⟨-, rest, own, hmessages, hown, hrest, -⟩ := h
  exact ⟨rest, own, hmessages, hown, hrest⟩

theorem HeldPinned.push (h : HeldPinned history s) (msg : Message) : HeldPinned history (s.push msg) := by
  obtain ⟨hne, rest, own, hmessages, hown, hrest, hpin⟩ := h
  refine ⟨List.append_ne_nil_of_left_ne_nil hne _, rest, own ++ [msg], ?_, ?_, ?_, hpin⟩
  · show (s.context.messages ++ [msg]).map Message.links = _
    rw [List.map_append, hmessages, List.map_append, List.append_assoc]
  · obtain ⟨before, hbefore⟩ := hown
    refine ⟨before, ?_⟩
    show before ++ (own ++ [msg]) = s.stored ++ [msg]
    rw [← List.append_assoc, hbefore]
  · show rest.Sublist ((history ++ (s.stored ++ [msg]).take 1).map Message.links)
    rw [List.take_append_of_le_length (List.length_pos_iff.mpr hne)]
    exact hrest

/-- Nothing but the links and the pin matters. -/
theorem HeldPinned.congr (h : HeldPinned history s) (hstored : s'.stored = s.stored)
    (hmessages : s'.context.messages.map Message.links = s.context.messages.map Message.links)
    (hpin : s'.context.pinnedRequest = s.context.pinnedRequest) : HeldPinned history s' := by
  unfold HeldPinned
  rw [hstored, hmessages, hpin]
  exact h

theorem links_rewriteMessage (f : Nat → Text → Text) (msg : Message) :
    (rewriteMessage f msg).links = msg.links := by
  unfold rewriteMessage
  split
  · show (List.map _ (msg.content.zipIdx.map _)) = msg.content.map _
    calc _ = (msg.content.zipIdx.map Prod.fst).map (·.link) := by
          rw [List.map_map, List.map_map]
          refine List.map_congr_left fun entry _ => ?_
          obtain ⟨block, i⟩ := entry
          cases block <;> rfl
      _ = _ := by rw [List.zipIdx_map_fst]
  · rfl

theorem links_rewriteResults (f : Rewrite) :
    (s.rewriteResults f).context.messages.map Message.links = s.context.messages.map Message.links := by
  show (s.context.messages.zipIdx.map _).map Message.links = _
  calc _ = (s.context.messages.zipIdx.map Prod.fst).map Message.links := by
        rw [List.map_map, List.map_map]
        exact List.map_congr_left fun entry _ => links_rewriteMessage _ _
    _ = _ := by rw [List.zipIdx_map_fst]

theorem HeldPinned.rewriteResults (h : HeldPinned history s) (f : Rewrite) :
    HeldPinned history (s.rewriteResults f) :=
  h.congr rfl (links_rewriteResults f) rfl

/-! ### Cuts -/

variable {context : AgentContext} {cenv : ContextEnv}

theorem pinStands_cut (h : context.PinStands) (op : CutOp) : (context.cut cenv op).PinStands := by
  cases op with
  | trimIfNeeded => exact (AgentContext.kept_trimRounds _).stands h
  | truncateToLimit =>
    rw [AgentContext.cut, AgentContext.truncateToLimit_eq]
    have hdropped := (@AgentContext.kept_dropToLimit context cenv).stands h
    split
    · show _ < (List.map _ _).length
      rw [List.length_map]
      exact hdropped
    · exact hdropped
  | dropOldest keepRecent => exact (AgentContext.kept_dropOldest keepRecent).stands h
  | replaceWithSummary coveredMessages summary =>
    exact (AgentContext.kept_replaceWithSummary coveredMessages summary).stands h
  | compress keepRecent summary => exact (AgentContext.kept_compress keepRecent summary).stands h
  | compressOlderToolResults keepRecent minChars compressWith =>
    exact (AgentContext.kept_compressOlderToolResults keepRecent minChars compressWith).stands h

theorem HeldPinned.cut (h : HeldPinned history s) (op : CutOp) : HeldPinned history (s.cut env [op]) := by
  obtain ⟨hne, rest, own, hmessages, hown, hrest, hpin⟩ := h
  have hlength : rest.length ≤ s.context.messages.length := by
    have hlinks := congrArg List.length hmessages
    rw [List.length_map, List.length_append] at hlinks
    omega
  have hstands : s.context.PinStands := lt_of_lt_of_le hpin hlength
  have hmessagesNe : s.context.messages ≠ [] := List.ne_nil_of_length_pos (by omega)
  obtain ⟨pre, pinned, post, hsplit⟩ := AgentContext.exists_split hmessagesNe
  have hpre : pre.length < rest.length := by
    rw [← hsplit.pinned, hstands.pinnedIndex]
    exact hpin
  -- the part before the own messages ends behind the pinned one
  obtain ⟨behind, rfl, hpost⟩ : ∃ behind, rest = pre.map Message.links ++ pinned.links :: behind ∧
      post.map Message.links = behind ++ own.map Message.links := by
    rw [hsplit.messages, List.map_append, List.map_cons] at hmessages
    rcases List.append_eq_append_iff.mp hmessages with ⟨behind, rfl, hbehind⟩ | ⟨own', hpre', -⟩
    · cases behind with
      | nil => simp at hpre
      | cons first behind =>
        obtain ⟨rfl, hpost⟩ := List.cons.inj hbehind
        exact ⟨behind, rfl, hpost⟩
    · have hle := congrArg List.length hpre'
      rw [List.length_map, List.length_append] at hle
      omega
  obtain ⟨pre', pinned', post', a, b, hsplit', hlinks, hpre', hpost', -⟩ :=
    (@AgentContext.trimmed_cut env.context s.context op).split hsplit
  have hpin' : (s.context.cut env.context op).pinnedRequest.getD 0 = pre'.length := by
    rw [← (pinStands_cut hstands op).pinnedIndex, hsplit'.pinned]
  refine ⟨hne, (pre.map Message.links).drop a ++ pinned.links :: behind.drop b,
    own.drop (b - behind.length), ?_, (List.drop_suffix _ _).trans hown, ?_, ?_⟩
  · show (s.context.cut env.context op).messages.map Message.links = _
    rw [hsplit'.messages, List.map_append, List.map_cons, hpre', hlinks, hpost', List.map_drop, List.map_drop,
      hpost, List.drop_append, List.map_drop, List.append_assoc]
    rfl
  · refine List.Sublist.trans ?_ hrest
    exact (List.drop_sublist _ _).append ((List.drop_sublist _ _).cons_cons _)
  · show (s.context.cut env.context op).pinnedRequest.getD 0 < _
    rw [hpin', List.length_append, ← List.map_drop, ← hpre', List.length_map]
    exact Nat.lt_add_of_pos_right (Nat.succ_pos _)

theorem HeldPinned.cuts (h : HeldPinned history s) (ops : List CutOp) :
    HeldPinned history (s.cut env ops) := by
  induction ops generalizing s with
  | nil => exact h
  | cons op ops ih => exact ih (h.cut op)

/-! ## What an iteration adds -/

/-- What was stored is followed by messages whose calls are answered among them. -/
structure Extends (s s' : RunState) : Prop where
  held : ∀ {history}, HeldPinned history s → HeldPinned history s'
  grew : ∃ added, s'.stored = s.stored ++ added ∧ Paired added

theorem Extends.refl (s : RunState) : Extends s s :=
  ⟨id, [], (List.append_nil _).symm, paired_nil⟩

theorem Extends.trans (h : Extends s s') (h' : Extends s' t) : Extends s t := by
  refine ⟨h'.held ∘ h.held, ?_⟩
  obtain ⟨added, hadded, hpaired⟩ := h.grew
  obtain ⟨added', hadded', hpaired'⟩ := h'.grew
  exact ⟨added ++ added', by rw [hadded', hadded, List.append_assoc], paired_append hpaired hpaired'⟩

/-- Neither the context nor what is stored changes. -/
theorem Extends.of_eq (hcontext : s'.context = s.context) (hstored : s'.stored = s.stored) :
    Extends s s' :=
  ⟨fun h => h.congr hstored (by rw [hcontext]) (by rw [hcontext]), [],
    hstored.trans (List.append_nil _).symm, paired_nil⟩

theorem extends_push (h : ∀ id, Link.call id ∉ msg.links) : Extends s (s.push msg) :=
  ⟨fun hheld => hheld.push msg, [msg], rfl, paired_singleton h⟩

theorem not_call_text (role text : Text) (id : Text) : Link.call id ∉ (Message.mk role [.text text]).links := by
  intro h
  cases List.mem_singleton.mp h

theorem extends_pushTexts (texts : List Text) : Extends s (s.pushTexts texts) := by
  induction texts generalizing s with
  | nil => exact .refl s
  | cons text texts ih => exact (extends_push (not_call_text _ _)).trans ih

theorem extends_cut (ops : List CutOp) : Extends s (s.cut env ops) :=
  ⟨fun h => h.cuts ops, [], (List.append_nil _).symm, paired_nil⟩

theorem extends_rewriteResults (f : Rewrite) : Extends s (s.rewriteResults f) :=
  ⟨fun h => h.rewriteResults f, [], (List.append_nil _).symm, paired_nil⟩

theorem extends_engageWrapUp (message : Text) (truncated : Bool) :
    Extends s (s.engageWrapUp message truncated) := by
  have hengaged : Extends s { s with wrapUp := ⟨true, truncated⟩ } := .of_eq rfl rfl
  exact hengaged.trans (extends_push (not_call_text _ _))

theorem extends_beginIteration :
    Satisfies (fun e => Extends s e.1) (Extends s) (s.beginIteration round) := by
  unfold RunState.beginIteration
  split
  · exact .refl s
  · split
    · exact .refl s
    · have hwarned : Extends s (s.pushTexts round.budgetWarning.toList) := extends_pushTexts _
      refine Satisfies.bind (Q := Extends s) ?_ fun s' hs' => ?_
      · split
        · exact hwarned
        · split
          · exact hwarned.trans (extends_engageWrapUp _ _)
          · exact hwarned
      · have hnudged := hs'.trans (extends_pushTexts round.nudge.toList)
        dsimp only
        split
        · exact hnudged
        · exact hnudged

theorem extends_exchange : Satisfies (fun e => Extends s e.1)
    (fun found => Extends s found.1 ∧ Accounted found.2.1 found.2.2) (s.exchange env round) := by
  unfold RunState.exchange
  refine Satisfies.bind extends_beginIteration fun s' hs' => ?_
  dsimp only
  have hcut : Extends s (((s'.cut env round.ladder).pushTexts round.notices).cut env round.overflow) :=
    ((hs'.trans (extends_cut _)).trans (extends_pushTexts _)).trans (extends_cut _)
  generalize ((s'.cut env round.ladder).pushTexts round.notices).cut env round.overflow = asked at hcut ⊢
  split
  · exact hcut
  · rename_i reply hreply
    have hheard : Extends s { asked with streamedText := asked.streamedText ++ reply.streamedText } :=
      hcut.trans (.of_eq rfl rfl)
    split
    · exact hheard.trans (extends_pushTexts _)
    · split
      · exact hheard
      · exact ⟨hheard, accounted_salvage (accounted_reply reply)⟩

/-! ## A reply and its answer -/

theorem keepReply_eq : ∃ text, s.keepReply env round result =
    { (s.storeAssistantResponse env result.contentBlocks).rewriteResults round.evict with
      finalText := text } := by
  unfold RunState.keepReply
  dsimp only
  split
  · exact ⟨_, rfl⟩
  · exact ⟨_, rfl⟩

theorem keepReply_wrapUp : (s.keepReply env round result).wrapUp = s.wrapUp := by
  obtain ⟨text, htext⟩ := @keepReply_eq env s round result
  rw [htext]
  rfl

/-- A reply without calls. -/
theorem extends_keepReply (h : callIds result.contentBlocks = []) :
    Extends s (s.keepReply env round result) := by
  have hstored : Extends s (s.storeAssistantResponse env result.contentBlocks) :=
    extends_push fun id hcall => by
      have hmem := mem_callIds hcall
      rw [h] at hmem
      cases hmem
  obtain ⟨text, htext⟩ := @keepReply_eq env s round result
  rw [htext]
  exact (hstored.trans (extends_rewriteResults _)).trans (.of_eq rfl rfl)

/-- A reply with calls and the message with their results. -/
theorem extends_answer {results : List Agent.ContentBlock} {ids : List Text}
    (hresults : results.map (·.link) = ids.map .result) (hperm : (callIds result.contentBlocks).Perm ids)
    (hnodup : (callIds result.contentBlocks).Nodup) :
    Extends s ((s.keepReply env round result).storeToolResults results) := by
  obtain ⟨text, htext⟩ := @keepReply_eq env s round result
  have hpaired : Paired [⟨"assistant".toList, result.contentBlocks.map (s.storedBlock env)⟩,
      ⟨"user".toList, results⟩] :=
    paired_pair (fun id => mem_callIds) hresults hperm hnodup
  rw [htext]
  refine ⟨fun h => ?_, _, List.append_assoc _ [_] [_], hpaired⟩
  have hstored := (h.push ⟨"assistant".toList, result.contentBlocks.map (s.storedBlock env)⟩).rewriteResults
    round.evict
  exact HeldPinned.push (hstored.congr rfl rfl rfl) _

variable {kept : RunState}

/-- A question that ends a round without calls is one more message. -/
theorem extends_steered (h : Extends s kept) : Extends s
    (match round.steering, round.mission with
      | some (notice, takenBack), _ =>
        ({ kept with finalText := if takenBack then [] else kept.finalText }.pushTexts [notice], RunExit.next)
      | none, some prod => (kept.pushTexts [prod], .next)
      | none, none => (kept, .respond false)).1 := by
  split
  · rename_i notice takenBack _
    have hnamed : Extends s { kept with finalText := if takenBack then [] else kept.finalText } :=
      h.trans (.of_eq rfl rfl)
    exact hnamed.trans (extends_pushTexts _)
  · exact h.trans (extends_pushTexts _)
  · exact h

theorem extends_finishToolFreeRound (hfree : uses = [] → Extends s kept)
    (huses : uses ≠ [] → kept.wrapUp.engaged = false ∧
      Extends s (kept.storeToolResults (RunState.executeTools round.dispatch uses))) :
    Extends s (kept.finishToolFreeRound round uses).1 := by
  unfold RunState.finishToolFreeRound RunState.runProseSalvage
  by_cases hnone : uses = []
  · rw [if_pos hnone]
    split
    · exact hfree hnone
    · exact extends_steered (hfree hnone)
  · obtain ⟨hengaged, hanswered⟩ := huses hnone
    have hnoticed := hanswered.trans (extends_pushTexts [round.salvageNotice])
    rw [if_neg hnone, if_neg (by simp [hengaged])]
    cases round.advanced with
    | true => exact hnoticed
    | false => exact extends_steered hnoticed

theorem extends_runToolRound (h : Extends s (kept.storeToolResults
    (RunState.executeTools round.dispatch result.toolUses ++
      result.errorToolResults.map (kept.storedBlock env)))) :
    Extends s (kept.runToolRound env round result).1 := by
  unfold RunState.runToolRound
  dsimp only
  split
  · exact h
  · split
    · exact h.trans (extends_engageWrapUp _ _)
    · exact (h.trans (extends_pushTexts _)).trans (extends_rewriteResults _)

/-- The error results as they are stored. -/
theorem links_errors (herrors : ∀ block ∈ blocks, (errorId block).isSome) :
    (blocks.map (s.storedBlock env)).map (·.link) = (blocks.filterMap errorId).map .result := by
  induction blocks with
  | nil => rfl
  | cons block blocks ih =>
    have hblock := herrors block List.mem_cons_self
    have hrest := ih fun b hb => herrors b (List.mem_cons_of_mem _ hb)
    cases block with
    | toolResult id content isError => exact congrArg (Link.result id :: ·) hrest
    | text | image | toolUse | thinking => cases hblock

theorem eq_nil_of_errorIds (herrors : ∀ block ∈ blocks, (errorId block).isSome)
    (h : blocks.filterMap errorId = []) : blocks = [] := by
  cases blocks with
  | nil => rfl
  | cons block blocks =>
    obtain ⟨id, hid⟩ := Option.isSome_iff_exists.mp (herrors block List.mem_cons_self)
    rw [List.filterMap_cons_some hid] at h
    cases h

/-- From the result on. -/
theorem extends_settle (haccounted : Accounted result salvaged)
    (h : callIds result.contentBlocks = [] ∨ (callIds result.contentBlocks).Nodup ∧
      round.cancelledAfterReply = false ∧ s.wrapUp.engaged = false) :
    Extends s (s.settle env round result salvaged).1 := by
  obtain ⟨hperm, herrors, hsalvaged⟩ := haccounted
  unfold RunState.settle
  dsimp only
  rcases h with hnone | ⟨hnodup, hrunning, hengaged⟩
  · -- without calls there is nothing to answer
    have hkept : Extends s (s.keepReply env round result) := extends_keepReply hnone
    rw [hnone] at hperm
    obtain ⟨hresults, hprose⟩ := List.append_eq_nil_iff.mp hperm.symm.eq_nil
    obtain ⟨huses, herror⟩ := List.append_eq_nil_iff.mp hresults
    split
    · exact hkept
    · rw [if_pos ⟨List.map_eq_nil_iff.mp huses, eq_nil_of_errorIds herrors herror⟩]
      exact extends_finishToolFreeRound (fun _ => hkept)
        fun hne => absurd (List.map_eq_nil_iff.mp hprose) hne
  · have hfree : ¬ (s.keepReply env round result).wrapUp.engaged = true := by
      rw [keepReply_wrapUp, hengaged]
      exact Bool.false_ne_true
    have hgoing : ¬ round.cancelledAfterReply = true := by
      rw [hrunning]
      exact Bool.false_ne_true
    rw [if_neg hgoing]
    split
    · rename_i hnone
      have hprose : (callIds result.contentBlocks).Perm (salvaged.map (·.1)) := by
        rw [hnone.1, hnone.2] at hperm
        exact hperm
      refine extends_finishToolFreeRound (fun hempty => extends_keepReply ?_)
        fun _ => ⟨Bool.eq_false_of_not_eq_true hfree, extends_answer ?_ hprose hnodup⟩
      · rw [hempty] at hprose
        exact hprose.eq_nil
      · rw [links_executeTools, List.map_map]
        rfl
    · rename_i hcalls
      rw [hsalvaged.resolve_right hcalls, List.map_nil, List.append_nil] at hperm
      refine extends_runToolRound (extends_answer ?_ hperm hnodup)
      rw [List.map_append, List.map_append, links_executeTools, links_errors herrors, List.map_map]
      rfl

theorem extends_runIteration (h : Answering env (.running s) round) :
    Extends s (s.runIteration env round).1 := by
  have hexchange : Satisfies (fun e => Extends s e.1) _ (s.exchange env round) := extends_exchange
  unfold RunState.runIteration
  rw [Answering] at h
  cases hfound : s.exchange env round with
  | error e =>
    rw [hfound] at hexchange
    exact hexchange
  | ok found =>
    rw [hfound] at hexchange h
    exact hexchange.1.trans (extends_settle hexchange.2 h)

theorem extends_finishCancelled : Extends s s.finishCancelled := by
  have hnamed : Extends s { s with finalText := s.cancelledText } := .of_eq rfl rfl
  unfold RunState.finishCancelled
  dsimp only
  split
  · exact hnamed
  · exact hnamed.trans (extends_push (not_call_text _ _))

theorem extends_runStep {phase phase' : Phase} (hok : Answering env phase round)
    (h : runStep env phase round = some phase') : Extends phase.state phase'.state := by
  cases phase with
  | returned s exit => cases h
  | running s =>
    have hiteration := extends_runIteration hok
    obtain rfl := Option.some.inj h
    cases hrun : s.runIteration env round with
    | mk s' exit =>
      rw [hrun] at hiteration
      match exit with
      | none | some .next | some (.respond _) | some .fail => exact hiteration
      | some .cancelled => exact hiteration.trans extends_finishCancelled

/-! ## Runs -/

/-- **Main result.** After every iteration and at the end of a run of such iterations, every stored call
is answered. -/
theorem calls_answered {phase : Phase} (hpin : context.pinnedRequest.getD 0 ≤ context.messages.length)
    (hmsg : ∀ id, Link.call id ∉ msg.links)
    (h : Moves (runStep env) (Answering env) (startRun context msg) phase) :
    Paired phase.state.stored ∧ Held context.messages phase.state := by
  have hstart : HeldPinned context.messages (startRun context msg).state := by
    refine ⟨List.cons_ne_nil _ _, (context.messages ++ [msg]).map Message.links, [], ?_, ?_, ?_, ?_⟩
    · exact (List.append_nil _).symm
    · exact List.nil_suffix
    · exact .refl _
    · rw [List.length_map, List.length_append]
      exact Nat.lt_succ_of_le hpin
  have hinv := h.invariant (I := fun phase => Paired phase.state.stored ∧
    HeldPinned context.messages phase.state) (fun hok hstep hs => ?_) ⟨paired_singleton hmsg, hstart⟩
  · exact ⟨hinv.1, hinv.2.held⟩
  · have hextends := extends_runStep hok hstep
    obtain ⟨added, hadded, hpaired⟩ := hextends.grew
    exact ⟨hadded ▸ paired_append hs.1 hpaired, hextends.held hs.2⟩

/-! ## Open calls -/

def plainEnv : TurnEnv where
  parse _ := some (.obj [])
  storedInput _ _ _ := []
  context := .exact

def emptyContext : AgentContext where
  systemPrompt := []
  messages := []
  maxMessages := 100
  hardLimit := 100000
  consolidatedSummary := none
  distilledFacts := none
  verifiedOutcomes := []
  maxObservedGrowth := 0
  pendingLossNotices := []
  summarizedContentHashes := []
  pinnedRequest := none

def ask : Message := .userText "Go on.".toList

def readFile (id : String) : ContentBlock := .toolUse id.toList "read".toList (.obj [])

instance (phase : Phase) (round : Round) : Decidable (Answering env phase round) :=
  match phase with
  | .running s => by
    show Decidable (match s.exchange env round with | .error _ => True | .ok (s, result, _) => _)
    cases s.exchange env round <;> dsimp only <;> infer_instance
  | .returned .. => isTrue trivial

/-- A call, and the reply to its result. -/
def answeredRun : List Round :=
  [{ reply := some (.whole [readFile "t1"]) }, { reply := some (.whole [.text "Done.".toList]) }]

theorem calls_answered_answeredRun : ∃ phase,
    runActs (runStep plainEnv) (Answering plainEnv) (startRun emptyContext ask) answeredRun = some phase ∧
      Paired phase.state.stored ∧ Held emptyContext.messages phase.state := by
  have hsome : (runActs (runStep plainEnv) (Answering plainEnv) (startRun emptyContext ask)
      answeredRun).isSome = true := by
    decide
  obtain ⟨phase, hphase⟩ := Option.isSome_iff_exists.mp hsome
  exact ⟨phase, hphase, calls_answered (Nat.zero_le _) (not_call_text _ _) (.of_acts hphase)⟩

/-- A call without its answer. -/
def hasOpenCall : List Message → Bool
  | [] => false
  | msg :: messages =>
    (msg.links.any fun
      | .call id => messages.head?.all fun next => next.links.count (.result id) ≠ 1
      | _ => false) || hasOpenCall messages

theorem not_paired_of_hasOpenCall (h : hasOpenCall messages = true) : ¬ Paired messages := by
  induction messages with
  | nil => cases h
  | cons msg messages ih =>
    intro hpaired
    rcases Bool.or_eq_true_iff.mp h with hhere | hlater
    · obtain ⟨link, hlink, hopen⟩ := List.any_eq_true.mp hhere
      cases link with
      | call id =>
        obtain ⟨next, hnext, hcount⟩ := hpaired 0 msg id rfl hlink
        rw [List.getElem?_cons_succ, ← List.head?_eq_getElem?] at hnext
        rw [hnext] at hopen
        exact of_decide_eq_true hopen hcount
      | result | other => cases hopen
    · exact ih hlater fun i msg' id hmsg hcall => hpaired (i + 1) msg' id hmsg hcall

/-- A call of a tool as it is streamed. -/
def streamedCall : List StreamEvent :=
  [.contentBlockStart 0 "tool_use" (some "t1".toList) (some "read".toList), .toolUseDelta 0 "{}".toList,
    .contentBlockStop 0]

/-- The token is set in mid-stream, behind a whole call; a call, and one in the prose of the report, on the
wrap-up iteration; two calls under one id. -/
def openRuns : List (List Round) :=
  [[{ reply := some (.streamed streamedCall []), cancelledAfterReply := true }],
    [{ reply := some (.whole [readFile "t1"]), exhausted := some "Report.".toList },
      { reply := some (.whole [readFile "t2"]) }],
    [{ reply := some (.whole [readFile "t1"]), exhausted := some "Report.".toList },
      { reply := some (.whole [.text "Then read it.".toList])
        salvaged := [("t2".toList, "read".toList, .obj [])] }],
    [{ reply := some (.whole [readFile "t1", readFile "t1"]) }]]

theorem open_calls : openRuns.Forall fun rounds => ∃ phase,
    runActs (runStep plainEnv) (fun _ _ => True) (startRun emptyContext ask) rounds = some phase ∧
      ¬ Paired phase.state.stored := by
  have hall : ∀ rounds ∈ openRuns,
      ((runActs (runStep plainEnv) (fun _ _ => True) (startRun emptyContext ask) rounds).any fun phase =>
        hasOpenCall phase.state.stored) = true := by
    decide
  refine List.forall_iff_forall_mem.mpr fun rounds hrounds => ?_
  obtain ⟨phase, hphase, hopen⟩ := (Option.any_eq_true _ _).mp (hall rounds hrounds)
  exact ⟨phase, hphase, not_paired_of_hasOpenCall hopen⟩

end Nanna.Loop
