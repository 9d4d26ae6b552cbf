import Nanna.Lib.LastSeen
import Nanna.Llm.Messages

/-!
# Superseded tool results

`dedup_iff`: deduplication removes only what a later call supersedes (`Superseding`) exactly when no
message mixes a result that is called again later with one that is not (`Unmixed`). The pass finds the
message of every superseded result, but then stubs all results of that message
(`dedup_mixed`).

`deduplicate_eq` says what the pass does message by message; which messages it stubs is `mem_lastSeen`
at the results in the order of the history.
-/

namespace Nanna.Loop

open Nanna.Lib Nanna.Llm

/-! ## Which call a result answers -/

/-- The member of the arguments under the first key that is there, if it is a string. -/
def argument (input : Json) (keys : List String) : Option Text :=
  ((keys.findSome? fun key => input.get key).bind (·.asStr)).map String.toList

/-- What a call is identified by beside its tool. -/
def primaryArg (name : Text) (input : Json) : Option Text :=
  if name = "read_file".toList ∨ name = "read".toList then argument input ["file_path", "path"]
  else if name = "web_fetch".toList then argument input ["url"]
  else if name = "list_dir".toList ∨ name = "glob".toList then argument input ["path"]
  else if name = "code_outline".toList then argument input ["file_path", "path"]
  else none

/-- The name and the arguments of the call with an id. -/
def asCall (toolUseId : Text) : ContentBlock → Option (Text × Json)
  | .toolUse id name input => if id = toolUseId then some (name, input) else none
  | _ => none

def findCall (messages : List AnthropicMessage) (toolUseId : Text) : Option (Text × Json) :=
  messages.findSome? fun msg =>
    if msg.role = "assistant".toList then msg.content.findSome? (asCall toolUseId) else none

def findToolDedupKey (messages : List AnthropicMessage) (toolUseId : Text) : Option Text :=
  (findCall messages toolUseId).bind fun (name, input) =>
    (primaryArg name input).map fun arg => name ++ ":".toList ++ arg

/-! ## The pass -/

/-- The result was stubbed before. -/
def isStubbed (content : Text) : Bool :=
  "[superseded".toList.isPrefixOf content || "[evicted".toList.isPrefixOf content ||
    "[Result from".toList.isPrefixOf content

def supersededStub (content : Text) : Text :=
  "[superseded by later call — ".toList ++ (toString (Text.byteLen content)).toList ++
    " chars removed]".toList

structure DedupScan where
  /-- The latest message with a result of each key. -/
  seen : Text → Option Nat := fun _ => none
  /-- The messages of superseded results, each beside the id of the result that supersedes it. -/
  toStub : List (Nat × Text) := []

variable (messages : List AnthropicMessage)

def scanResult (msgIdx : Nat) (toolUseId content : Text) (scan : DedupScan) : DedupScan :=
  if isStubbed content then scan
  else
    match findToolDedupKey messages toolUseId with
    | some key =>
      { seen := Function.update scan.seen key (some msgIdx)
        toStub := scan.toStub ++ (scan.seen key).toList.map fun prevIdx => (prevIdx, toolUseId) }
    | none => scan

def scanBlock (msgIdx : Nat) (scan : DedupScan) : ContentBlock → DedupScan
  | .toolResult toolUseId content _ => scanResult messages msgIdx toolUseId content scan
  | _ => scan

def scanMessage (scan : DedupScan) (entry : AnthropicMessage × Nat) : DedupScan :=
  if entry.1.role = "user".toList then entry.1.content.foldl (scanBlock messages entry.2) scan
  else scan

def toStub : List (Nat × Text) := (messages.zipIdx.foldl (scanMessage messages) {}).toStub

def stubBlock : ContentBlock → ContentBlock
  | .toolResult id content isError =>
    .toolResult id
      (if "[superseded".toList.isPrefixOf content then content else supersededStub content) isError
  | block => block

def stubMessage (msg : AnthropicMessage) : AnthropicMessage :=
  { msg with content := msg.content.map stubBlock }

def deduplicateToolResults : List AnthropicMessage :=
  (toStub messages).foldl (fun ctx entry => ctx.modify entry.1 stubMessage) messages

/-! ## What superseding means -/

/-- A tool result, by where it stands. -/
structure ToolResult where
  message : Nat
  block : Nat
  id : Text
  content : Text
  deriving DecidableEq

def asResult (message : Nat) : ContentBlock × Nat → Option ToolResult
  | (.toolResult id content _, block) => some ⟨message, block, id, content⟩
  | _ => none

/-- The tool results of a history, in order. -/
def results : List ToolResult :=
  messages.zipIdx.flatMap fun (msg, message) =>
    if msg.role = "user".toList then msg.content.zipIdx.filterMap (asResult message) else []

/-- The tool and the primary argument of the call that an id names. -/
def callOf (toolUseId : Text) : Option (Text × Text) :=
  (findCall messages toolUseId).bind fun (name, input) =>
    (primaryArg name input).map fun arg => (name, arg)

/-- The same call is answered again by a later result, one of those that `p` holds of. -/
def RepeatedBy (p : ToolResult → Prop) (r : ToolResult) : Prop :=
  ∃ pre post call, results messages = pre ++ r :: post ∧ callOf messages r.id = some call ∧
    ∃ later ∈ post, p later ∧ callOf messages later.id = some call

/-- The same call is answered again later. -/
def Superseded (r : ToolResult) : Prop := RepeatedBy messages (fun _ => True) r

/-- A message but for the contents of its tool results. -/
def outline (msg : AnthropicMessage) : AnthropicMessage :=
  if msg.role = "user".toList then
    { msg with content := msg.content.map fun block =>
        match block with
        | .toolResult id _ isError => .toolResult id [] isError
        | block => block }
  else msg

/-- Only the contents of superseded results differ. -/
structure Superseding (messages' : List AnthropicMessage) : Prop where
  outline : messages'.map outline = messages.map outline
  kept : ∀ r ∈ results messages, ¬ Superseded messages r → r ∈ results messages'

/-- Where a result that was not stubbed before is answered again, so is every other of its message. -/
def Unmixed : Prop :=
  ∀ r ∈ results messages, isStubbed r.content = false →
    RepeatedBy messages (fun later => isStubbed later.content = false) r →
    ∀ other ∈ results messages, other.message = r.message →
      "[superseded".toList.isPrefixOf other.content = false → Superseded messages other

/-! ## Keys -/

variable {messages} {m : Nat} {r : ToolResult} {id id' name input arg : Text} {call : Text × Text}

theorem colon_notMem_of_primaryArg {input : Json} (h : primaryArg name input = some arg) :
    ':' ∉ name := by
  rw [primaryArg] at h
  split at h
  · rename_i hname
    rcases hname with rfl | rfl
    · decide
    · decide
  split at h
  · rename_i hname
    rw [hname]
    decide
  split at h
  · rename_i hname
    rcases hname with rfl | rfl
    · decide
    · decide
  split at h
  · rename_i hname
    rw [hname]
    decide
  · exact nomatch h

/-- A name ends at the first colon. -/
theorem takeWhile_key (h : ':' ∉ name) :
    (name ++ ":".toList ++ arg).takeWhile (· ≠ ':') = name := by
  rw [List.append_assoc, List.takeWhile_append_of_pos]
  · exact List.append_nil name
  · intro c hc
    simpa using ne_of_mem_of_not_mem hc h

theorem key_injective {name' arg' : Text} (h : ':' ∉ name) (h' : ':' ∉ name')
    (heq : name ++ ":".toList ++ arg = name' ++ ":".toList ++ arg') : (name, arg) = (name', arg') := by
  have hname : name = name' := by rw [← takeWhile_key h, heq, takeWhile_key h']
  subst hname
  rw [List.append_cancel_left heq]

theorem findToolDedupKey_eq : findToolDedupKey messages id =
    (callOf messages id).map fun call => call.1 ++ ":".toList ++ call.2 := by
  rw [findToolDedupKey, callOf, Option.map_bind]
  congr 1
  funext found
  rw [Function.comp_apply, Option.map_map]
  rfl

theorem colon_notMem_of_callOf (h : callOf messages id = some call) : ':' ∉ call.1 := by
  obtain ⟨⟨name, input⟩, -, h⟩ := Option.bind_eq_some_iff.mp h
  obtain ⟨arg, harg, rfl⟩ := Option.map_eq_some_iff.mp h
  exact colon_notMem_of_primaryArg harg

/-- Two ids have one key where they name one call. -/
theorem key_eq_iff {key : Text} (h : findToolDedupKey messages id = some key) :
    ∃ call, callOf messages id = some call ∧ ∀ id',
      findToolDedupKey messages id' = some key ↔ callOf messages id' = some call := by
  rw [findToolDedupKey_eq] at h
  obtain ⟨call, hcall, rfl⟩ := Option.map_eq_some_iff.mp h
  refine ⟨call, hcall, fun id' => ?_⟩
  rw [findToolDedupKey_eq, Option.map_eq_some_iff]
  constructor
  · rintro ⟨call', hcall', heq⟩
    rw [hcall']
    exact congrArg some
      (key_injective (colon_notMem_of_callOf hcall') (colon_notMem_of_callOf hcall) heq)
  · exact fun hcall' => ⟨call, hcall', rfl⟩

/-! ## What is stubbed -/

/-- A result that was not stubbed before, by its message and key. -/
def keyed (messages : List AnthropicMessage) (r : ToolResult) : Option (Nat × Text) :=
  if isStubbed r.content then none
  else (findToolDedupKey messages r.id).map fun key => (r.message, key)

theorem scanBlock_eq (msgIdx : Nat) (scan : DedupScan) (entry : ContentBlock × Nat) :
    scanBlock messages msgIdx scan entry.1 = ((asResult msgIdx entry).toList.foldl
      (fun scan r => scanResult messages r.message r.id r.content scan) scan) := by
  obtain ⟨block, index⟩ := entry
  cases block with
  | _ => rfl

theorem foldl_scanBlock {msgIdx k : Nat} {scan : DedupScan} {blocks : List ContentBlock} :
    blocks.foldl (scanBlock messages msgIdx) scan =
      ((blocks.zipIdx k).filterMap (asResult msgIdx)).foldl
        (fun scan r => scanResult messages r.message r.id r.content scan) scan := by
  induction blocks generalizing scan k with
  | nil => rfl
  | cons block blocks ih =>
    rw [List.foldl_cons, List.zipIdx_cons, List.filterMap_cons, scanBlock_eq msgIdx scan (block, k),
      ih (k := k + 1)]
    cases asResult msgIdx (block, k) with
    | none => rfl
    | some r => rfl

/-- The pass reads the results in order. -/
theorem foldl_scanMessage {scan : DedupScan} {entries : List (AnthropicMessage × Nat)} :
    entries.foldl (scanMessage messages) scan =
      (entries.flatMap fun entry => if entry.1.role = "user".toList then
        entry.1.content.zipIdx.filterMap (asResult entry.2) else []).foldl
        (fun scan r => scanResult messages r.message r.id r.content scan) scan := by
  induction entries generalizing scan with
  | nil => rfl
  | cons entry entries ih =>
    rw [List.foldl_cons, List.flatMap_cons, List.foldl_append, ih, scanMessage]
    split
    · rw [foldl_scanBlock]
    · rfl

theorem foldl_scanResult {scan : DedupScan} {rs : List ToolResult} :
    (rs.foldl (fun scan r => scanResult messages r.message r.id r.content scan) scan).toStub.map
        Prod.fst =
      scan.toStub.map Prod.fst ++ lastSeen scan.seen (rs.filterMap (keyed messages)) := by
  induction rs generalizing scan with
  | nil => exact (List.append_nil _).symm
  | cons r rs ih =>
    rw [List.foldl_cons, ih, scanResult]
    by_cases hstub : isStubbed r.content = true
    · rw [if_pos hstub, List.filterMap_cons_none (by rw [keyed, if_pos hstub])]
    · rw [if_neg hstub]
      cases hkey : findToolDedupKey messages r.id with
      | none => rw [List.filterMap_cons_none (by rw [keyed, if_neg hstub, hkey]; rfl)]
      | some key =>
        rw [List.filterMap_cons_some (b := (r.message, key)) (by rw [keyed, if_neg hstub, hkey]; rfl)]
        dsimp only
        rw [lastSeen, List.map_append, List.append_assoc]
        congr 2
        cases scan.seen key with
        | _ => rfl

/-- The message of a result that is answered again is stubbed, and no other. -/
theorem mem_toStub : m ∈ (toStub messages).map Prod.fst ↔ ∃ r ∈ results messages, r.message = m ∧
    isStubbed r.content = false ∧
    RepeatedBy messages (fun later => isStubbed later.content = false) r := by
  have hrun : (toStub messages).map Prod.fst =
      lastSeen (fun _ => none) ((results messages).filterMap (keyed messages)) := by
    rw [toStub, foldl_scanMessage, foldl_scanResult]
    rfl
  have hkeyed {r : ToolResult} {tag : Nat} {key : Text} : keyed messages r = some (tag, key) ↔
      isStubbed r.content = false ∧ findToolDedupKey messages r.id = some key ∧ r.message = tag := by
    rw [keyed]
    split
    · simp_all
    · simp_all
  rw [hrun, mem_lastSeen, or_iff_right (by simp)]
  constructor
  · rintro ⟨pre, key, post, heq, ⟨tag, key'⟩, hlater, rfl⟩
    obtain ⟨before, after, hresults, -, hafter⟩ := List.filterMap_eq_append_iff.mp heq
    obtain ⟨mid, r, rest, rfl, -, hr, rfl⟩ := List.filterMap_eq_cons_iff.mp hafter
    obtain ⟨later, hmem, hlater⟩ := List.mem_filterMap.mp hlater
    obtain ⟨hlive, hkey, hmessage⟩ := hkeyed.mp hr
    obtain ⟨hlive', hkey', -⟩ := hkeyed.mp hlater
    obtain ⟨call, hcall, hsame⟩ := key_eq_iff hkey
    rw [← List.append_assoc] at hresults
    exact ⟨r, by rw [hresults]; simp, hmessage, hlive, before ++ mid, rest, call, hresults, hcall,
      later, hmem, hlive', (hsame later.id).mp hkey'⟩
  · rintro ⟨r, -, rfl, hlive, pre, post, call, heq, hcall, later, hmem, hlive', hcall'⟩
    have hkey : findToolDedupKey messages r.id = some (call.1 ++ ":".toList ++ call.2) := by
      rw [findToolDedupKey_eq, hcall]
      rfl
    have hkey' : findToolDedupKey messages later.id = some (call.1 ++ ":".toList ++ call.2) := by
      rw [findToolDedupKey_eq, hcall']
      rfl
    refine ⟨pre.filterMap (keyed messages), _, post.filterMap (keyed messages), ?_,
      (later.message, _), List.mem_filterMap.mpr ⟨later, hmem, hkeyed.mpr ⟨hlive', hkey', rfl⟩⟩, rfl⟩
    rw [heq, List.filterMap_append, List.filterMap_cons_some (hkeyed.mpr ⟨hlive, hkey, rfl⟩)]

/-! ## The history after the pass -/

theorem isPrefixOf_supersededStub (content : Text) :
    "[superseded".toList.isPrefixOf (supersededStub content) = true := by
  have hsplit : "[superseded by later call — ".toList =
      "[superseded".toList ++ " by later call — ".toList := by
    rw [← String.toList_append]
    rfl
  have hstart : "[superseded".toList <+: "[superseded by later call — ".toList :=
    ⟨_, hsplit.symm⟩
  exact List.isPrefixOf_iff_prefix.mpr
    ((hstart.trans (List.prefix_append _ _)).trans (List.prefix_append _ _))

theorem stubBlock_stubBlock (block : ContentBlock) :
    stubBlock (stubBlock block) = stubBlock block := by
  cases block with
  | toolResult id content isError =>
    rw [stubBlock, stubBlock]
    by_cases hstub : "[superseded".toList.isPrefixOf content = true
    · rw [if_pos hstub, if_pos hstub]
    · rw [if_neg hstub, if_pos (isPrefixOf_supersededStub content)]
  | _ => rfl

theorem stubMessage_stubMessage (msg : AnthropicMessage) :
    stubMessage (stubMessage msg) = stubMessage msg := by
  rw [stubMessage, stubMessage, List.map_map]
  congr 1
  exact List.map_congr_left fun block _ => stubBlock_stubBlock block

theorem getElem?_foldl_stub {entries : List (Nat × Text)} {ctx : List AnthropicMessage} :
    (entries.foldl (fun ctx entry => ctx.modify entry.1 stubMessage) ctx)[m]? =
      (ctx[m]?).map fun msg => if m ∈ entries.map Prod.fst then stubMessage msg else msg := by
  induction entries generalizing ctx with
  | nil => simp
  | cons entry entries ih =>
    rw [List.foldl_cons, ih, List.getElem?_modify, List.map_cons]
    cases ctx[m]? with
    | none => rfl
    | some msg =>
      by_cases hm : entry.1 = m
      · subst hm
        simp [stubMessage_stubMessage]
      · have hmem : m ∈ entry.1 :: entries.map Prod.fst ↔ m ∈ entries.map Prod.fst := by
          rw [List.mem_cons, or_iff_right (Ne.symm hm)]
        simp only [hm, if_false, Option.map_eq_map, Option.map_some]
        rw [if_congr hmem rfl rfl]

/-- What the pass does to a message. -/
theorem deduplicate_eq : (deduplicateToolResults messages)[m]? =
    (messages[m]?).map fun msg =>
      if m ∈ (toStub messages).map Prod.fst then stubMessage msg else msg :=
  getElem?_foldl_stub

theorem mem_results : r ∈ results messages ↔ ∃ msg isError, messages[r.message]? = some msg ∧
    msg.role = "user".toList ∧ msg.content[r.block]? = some (.toolResult r.id r.content isError) := by
  simp only [results, List.mem_flatMap, Prod.exists, List.mk_mem_zipIdx_iff_getElem?]
  constructor
  · rintro ⟨msg, message, hmsg, hr⟩
    split at hr
    · rename_i hrole
      obtain ⟨⟨block, index⟩, hblock, hr⟩ := List.mem_filterMap.mp hr
      cases block with
      | toolResult id content isError =>
        cases hr
        exact ⟨msg, isError, hmsg, hrole, List.mk_mem_zipIdx_iff_getElem?.mp hblock⟩
      | _ => exact nomatch hr
    · exact absurd hr List.not_mem_nil
  · rintro ⟨msg, isError, hmsg, hrole, hblock⟩
    refine ⟨msg, r.message, hmsg, ?_⟩
    rw [if_pos hrole]
    exact List.mem_filterMap.mpr ⟨_, List.mk_mem_zipIdx_iff_getElem?.mpr hblock, rfl⟩

theorem outline_stubMessage {msg : AnthropicMessage} (h : msg.role = "user".toList) :
    outline (stubMessage msg) = outline msg := by
  rw [outline, outline, if_pos h, if_pos (show (stubMessage msg).role = _ from h), stubMessage,
    List.map_map]
  congr 1
  refine List.map_congr_left fun block _ => ?_
  cases block with
  | _ => rfl

/-- Only contents of results change, wherever the pass stubs. -/
theorem outline_deduplicate :
    (deduplicateToolResults messages).map outline = messages.map outline := by
  refine List.ext_getElem? fun m => ?_
  rw [List.getElem?_map, List.getElem?_map, deduplicate_eq, Option.map_map]
  cases hmsg : messages[m]? with
  | none => rfl
  | some msg =>
    rw [Option.map_some, Option.map_some, Function.comp_apply]
    split
    · rename_i hstub
      obtain ⟨r, hr, rfl, -⟩ := mem_toStub.mp hstub
      obtain ⟨msg', -, hmsg', hrole, -⟩ := mem_results.mp hr
      cases hmsg.symm.trans hmsg'
      rw [outline_stubMessage hrole]
    · rfl

/-- A result stays where its message is not stubbed, or where it was superseded before. -/
theorem mem_results_deduplicate (hr : r ∈ results messages) :
    r ∈ results (deduplicateToolResults messages) ↔
      (r.message ∈ (toStub messages).map Prod.fst →
        "[superseded".toList.isPrefixOf r.content = true) := by
  obtain ⟨msg, isError, hmsg, hrole, hblock⟩ := mem_results.mp hr
  rw [mem_results, deduplicate_eq, hmsg, Option.map_some]
  by_cases hstub : r.message ∈ (toStub messages).map Prod.fst
  · rw [if_pos hstub]
    constructor
    · rintro ⟨msg', isError', hmsg', -, hblock'⟩ -
      cases hmsg'
      rw [stubMessage, List.getElem?_map, hblock, Option.map_some, stubBlock, Option.some.injEq,
        ContentBlock.toolResult.injEq] at hblock'
      by_contra hnot
      rw [if_neg hnot] at hblock'
      exact hnot (hblock'.2.1 ▸ isPrefixOf_supersededStub r.content)
    · intro hstart
      refine ⟨stubMessage msg, isError, rfl, hrole, ?_⟩
      rw [stubMessage, List.getElem?_map, hblock, Option.map_some, stubBlock,
        if_pos (hstart hstub)]
  · rw [if_neg hstub]
    exact ⟨fun _ hmem => absurd hmem hstub, fun _ => ⟨msg, isError, rfl, hrole, hblock⟩⟩

/-- **Main result.** Only what a later call supersedes is removed exactly where no message mixes. -/
theorem dedup_iff (messages : List AnthropicMessage) :
    Superseding messages (deduplicateToolResults messages) ↔ Unmixed messages := by
  constructor
  · intro h r hr hlive hrepeated other hother hsame hstart
    by_contra hnot
    have hstub : other.message ∈ (toStub messages).map Prod.fst :=
      mem_toStub.mpr ⟨r, hr, hsame.symm, hlive, hrepeated⟩
    have hkept := (mem_results_deduplicate hother).mp (h.kept other hother hnot) hstub
    exact absurd hkept (by rw [hstart]; exact Bool.false_ne_true)
  · refine fun h => ⟨outline_deduplicate, fun other hother hnot => ?_⟩
    refine (mem_results_deduplicate hother).mpr fun hstub => ?_
    obtain ⟨r, hr, hsame, hlive, hrepeated⟩ := mem_toStub.mp hstub
    by_contra hstart
    exact hnot (h r hr hlive hrepeated other hother hsame.symm (Bool.not_eq_true _ ▸ hstart))

/-! ## A message that mixes -/

def readCall (id path : String) : ContentBlock :=
  .toolUse id.toList "read_file".toList (.obj [("path", .str path)])

def resultOf (id content : String) : ContentBlock := .toolResult id.toList content.toList none

/-- Two files are read at once, then the first again. -/
def mixedHistory : List AnthropicMessage :=
  [⟨"assistant".toList, [readCall "1" "a.rs", readCall "2" "b.rs"]⟩,
    ⟨"user".toList, [resultOf "1" "fn a() ...", resultOf "2" "fn b() ..."]⟩,
    ⟨"assistant".toList, [readCall "3" "a.rs"]⟩,
    ⟨"user".toList, [resultOf "3" "fn a() ..."]⟩]

/-- The one read of the second file is lost with the first read of the first. -/
theorem dedup_mixed : ¬ Superseding mixedHistory (deduplicateToolResults mixedHistory) := by
  have hresults : results mixedHistory = [⟨1, 0, "1".toList, "fn a() ...".toList⟩,
      ⟨1, 1, "2".toList, "fn b() ...".toList⟩, ⟨3, 0, "3".toList, "fn a() ...".toList⟩] := by
    decide
  intro h
  have hkept := h.kept ⟨1, 1, "2".toList, "fn b() ...".toList⟩ (by rw [hresults]; simp) ?_
  · exact absurd hkept (by decide)
  · rintro ⟨pre, post, call, heq, hcall, later, hlater, -, hsame⟩
    have hlast : later = ⟨3, 0, "3".toList, "fn a() ...".toList⟩ := by
      rw [hresults, List.cons_eq_append_iff] at heq
      rcases heq with ⟨-, heq⟩ | ⟨pre, -, heq⟩
      · exact absurd (List.cons.inj heq).1 (by decide)
      rw [List.cons_eq_append_iff] at heq
      rcases heq with ⟨-, heq⟩ | ⟨pre, -, heq⟩
      · rw [(List.cons.inj heq).2] at hlater
        exact List.mem_singleton.mp hlater
      rw [List.cons_eq_append_iff] at heq
      rcases heq with ⟨-, heq⟩ | ⟨pre, -, heq⟩
      · exact absurd (List.cons.inj heq).1 (by decide)
      · exact absurd heq (by simp)
    have hne : callOf mixedHistory "3".toList ≠ callOf mixedHistory "2".toList := by decide
    rw [hlast] at hsame
    exact hne (hsame.trans hcall.symm)

end Nanna.Loop
