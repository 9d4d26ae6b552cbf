import Nanna.Llm.OllamaReplies
import Nanna.Llm.ThinkStrip

/-!
# A stream whose last line is not ended

`newline_iff`: what a consumer accumulates of a stream is the same whether its last object is read as a line or is
left in the buffer, exactly where that object brings nothing (`BringsNothing`): the end of the body takes a stop from
it and reads no more of it. Lines behind the end of a stream are not read in either case.
-/

namespace Nanna.Llm

open Nanna.Lib Nanna.Lib.Text OllamaStreamState

/-! ## What a consumer accumulates -/

/-- A turn as its events are consumed. -/
structure StreamTotals where
  acc : StreamAccumulator := {}
  inputTokens : Nat := 0
  outputTokens : Nat := 0
  stopReason : Option Text := none
  deriving DecidableEq

def StreamTotals.process (totals : StreamTotals) : StreamItem → StreamTotals
  | .ok (.messageStart _ _ inputTokens _ _ _) => { totals with inputTokens }
  | .ok (.messageDelta _ outputTokens) => { totals with outputTokens := totals.outputTokens + outputTokens }
  | .ok (.messageStop stopReason) => { totals with stopReason := some stopReason }
  | .ok event => { totals with acc := totals.acc.process event }
  | .error _ => totals

def totalsOf (items : List StreamItem) : StreamTotals := items.foldl StreamTotals.process {}

/-- The reasoning in segments. -/
def thoughtText (segments : List ContentSegment) : Text :=
  segments.flatMap fun
    | .thinking t => t
    | .text _ => []

def OllamaFragment.thought : OllamaFragment → Text
  | .segment part => thoughtText [part]
  | .call _ => []

/-- What the splitter is given of an object. -/
def keptOf (obj : Json) : Text := ((content obj).map keptContent).getD []

/-- The last object adds nothing to what was read before it. -/
structure BringsNothing (state : OllamaStreamState) (obj : Json) : Prop where
  /-- It does not cut the stream short. -/
  unwedged : (state.watch obj).2 = none
  /-- What is held back, and its content, is the reply that is held back. -/
  reply : saidText (state.thinkSplitter.ahead (keptOf obj)) = saidText (state.thinkSplitter.ahead [])
  reasoning : (thinking obj).getD [] ++ thoughtText (state.thinkSplitter.ahead (keptOf obj)) =
    thoughtText (state.thinkSplitter.ahead [])
  calls : (toolCalls obj).getD [] = []
  inputTokens : ((obj.field "prompt_eval_count").asU64).getD 0 = 0
  outputTokens : ((obj.field "eval_count").asU64).getD 0 = 0

/-- The state behind objects, where the stream is not over. -/
def readsOn (env : OllamaEnv) (state : OllamaStreamState) : List (Json × Nat) → Option OllamaStreamState
  | [] => some state
  | (obj, bytesReceived) :: objs =>
    let (state, _, finished) := state.onObject env obj bytesReceived
    if finished then none else readsOn env state objs

variable {env : OllamaEnv} {state state' : OllamaStreamState} {blocks : OllamaBlocks} {totals totals' : StreamTotals}
  {fragments fragments' : List OllamaFragment} {segments segments' : List ContentSegment} {obj : Json}
  {objs more : List (Json × Nat)} {bodyEnd bodyEnd' : BodyEnd}

/-- What fragments add. -/
structure Heard (fragments : List OllamaFragment) (totals totals' : StreamTotals) : Prop where
  text : totals'.acc.text = totals.acc.text ++ fragments.flatMap (·.said)
  thinking : totals'.acc.thinking = totals.acc.thinking ++ fragments.flatMap (·.thought)
  calls : totals'.acc.toolCalls.length = totals.acc.toolCalls.length + (fragments.filterMap (·.asCall)).length
  kept : fragments.filterMap (·.asCall) = [] → totals'.acc.toolCalls = totals.acc.toolCalls
  signature : totals'.acc.thinkingSignature = totals.acc.thinkingSignature
  rest : (totals'.inputTokens, totals'.outputTokens, totals'.stopReason) =
    (totals.inputTokens, totals.outputTokens, totals.stopReason)

theorem length_appendJson (index : Nat) (json : Text) (calls : List ToolCall) :
    (StreamAccumulator.appendJson index json calls).length = calls.length := by
  induction calls with
  | nil => rfl
  | cons call calls ih =>
    rw [StreamAccumulator.appendJson]
    split
    · rfl
    · exact congrArg (· + 1) ih

theorem heard_fragment (env : OllamaEnv) (blocks : OllamaBlocks) (totals : StreamTotals) (fragment : OllamaFragment) :
    Heard [fragment] totals ((blocks.onFragment env fragment).2.foldl StreamTotals.process totals) := by
  cases fragment with
  | segment part =>
    obtain ⟨_ | _, _ | _, count, next⟩ := blocks <;> cases part
    all_goals constructor <;> simp [OllamaBlocks.onFragment, OllamaBlocks.emitSegment, OllamaBlocks.emitThinking,
      OllamaBlocks.emitText, OllamaBlocks.closeText, OllamaBlocks.closeThinking, StreamTotals.process,
      StreamAccumulator.process, OllamaFragment.said, ContentSegment.said, OllamaFragment.thought, thoughtText,
      OllamaFragment.asCall]
  | call tc =>
    obtain ⟨_ | _, _ | _, count, next⟩ := blocks
    all_goals constructor <;> simp [OllamaBlocks.onFragment, OllamaBlocks.onToolCall, OllamaBlocks.closeText,
      OllamaBlocks.closeThinking, StreamTotals.process, StreamAccumulator.process, OllamaFragment.said,
      OllamaFragment.thought, OllamaFragment.asCall, length_appendJson]

theorem Heard.append {totals'' : StreamTotals} (h : Heard fragments totals totals')
    (h' : Heard fragments' totals' totals'') : Heard (fragments ++ fragments') totals totals'' where
  text := by rw [h'.text, h.text, List.flatMap_append, List.append_assoc]
  thinking := by rw [h'.thinking, h.thinking, List.flatMap_append, List.append_assoc]
  calls := by rw [h'.calls, h.calls, List.filterMap_append, List.length_append, Nat.add_assoc]
  kept hnone := by
    rw [List.filterMap_append, List.append_eq_nil_iff] at hnone
    rw [h'.kept hnone.2, h.kept hnone.1]
  signature := h'.signature.trans h.signature
  rest := h'.rest.trans h.rest

theorem heard_nil : Heard [] totals totals :=
  ⟨(List.append_nil _).symm, (List.append_nil _).symm, rfl, fun _ => rfl, rfl, rfl⟩

theorem heard_fragments (env : OllamaEnv) (blocks : OllamaBlocks) (totals : StreamTotals)
    (fragments : List OllamaFragment) : Heard fragments totals
      ((emits (OllamaBlocks.onFragment env) blocks fragments).2.foldl StreamTotals.process totals) := by
  induction fragments generalizing blocks totals with
  | nil => exact heard_nil
  | cons fragment fragments ih =>
    rw [emits, List.foldl_append]
    exact (heard_fragment env blocks totals fragment).append (ih _ _)

theorem count_fragments (env : OllamaEnv) (blocks : OllamaBlocks) (fragments : List OllamaFragment) :
    (emits (OllamaBlocks.onFragment env) blocks fragments).1.toolBlockCount =
      blocks.toolBlockCount + (fragments.filterMap (·.asCall)).length := by
  induction fragments generalizing blocks with
  | nil => rfl
  | cons fragment fragments ih =>
    rw [emits, ih]
    cases fragment with
    | segment part =>
      obtain ⟨_ | _, _ | _, count, next⟩ := blocks <;> cases part <;> rfl
    | call tc =>
      obtain ⟨_ | _, _ | _, count, next⟩ := blocks
      all_goals exact Nat.add_right_comm count 1 _

/-! ## What the last object adds -/

theorem thoughtText_eq (segments : List ContentSegment) :
    thoughtText segments = (routed segments).filterMap fun r => if r.1 then some r.2 else none := by
  rw [thoughtText, routed, List.filterMap_flatMap]
  refine List.flatMap_congr fun s _ => ?_
  cases s with
  | thinking t => simp [ContentSegment.routed, List.filterMap_map]
  | text t => simp [ContentSegment.routed, List.filterMap_map]

theorem thoughtText_append (segments segments' : List ContentSegment) :
    thoughtText (segments ++ segments') = thoughtText segments ++ thoughtText segments' := List.flatMap_append

theorem thought_segments (segments : List ContentSegment) :
    (segments.map OllamaFragment.segment).flatMap (·.thought) = thoughtText segments := by
  rw [List.flatMap_map, thoughtText]
  refine List.flatMap_congr fun s _ => ?_
  cases s <;> exact List.append_nil _

theorem thought_thinking (thinking : Option Text) :
    (OllamaBlocks.thinkingFragments thinking).flatMap (·.thought) = thinking.getD [] := by
  cases thinking with
  | none => rfl
  | some thinking =>
    rw [OllamaBlocks.thinkingFragments]
    cases thinking with
    | nil => rfl
    | cons c thinking => simp [OllamaFragment.thought, thoughtText]

theorem thought_calls (calls : List Json) : (calls.map OllamaFragment.call).flatMap (·.thought) = [] := by
  rw [List.flatMap_map]
  exact List.flatMap_eq_nil_iff.mpr fun _ _ => rfl

/-- The segments of an object and of what it leaves to the end. -/
def lastSegments (splitter : InlineThinkSplitter) (obj : Json) : List ContentSegment :=
  segmentsOf splitter ((content obj).map keptContent).toList

theorem routed_lastSegments {splitter : InlineThinkSplitter} (h : splitter.Holds) (obj : Json) :
    routed (lastSegments splitter obj) = routed (splitter.ahead (keptOf obj)) := by
  rw [lastSegments, routed_segmentsOf h, keptOf]
  cases (content obj).map keptContent with
  | none => rfl
  | some text => rw [Option.toList_some, List.flatten_singleton, Option.getD_some]

theorem said_lastSegments {splitter : InlineThinkSplitter} (h : splitter.Holds) (obj : Json) :
    saidText (lastSegments splitter obj) = saidText (splitter.ahead (keptOf obj)) ∧
      thoughtText (lastSegments splitter obj) = thoughtText (splitter.ahead (keptOf obj)) := by
  rw [said_eq, thoughtText_eq, routed_lastSegments h, ← said_eq, ← thoughtText_eq]
  exact ⟨rfl, rfl⟩

theorem said_finish {splitter : InlineThinkSplitter} (h : splitter.Holds) :
    saidText splitter.finish.2 = saidText (splitter.ahead []) ∧
      thoughtText splitter.finish.2 = thoughtText (splitter.ahead []) := by
  rw [said_eq, thoughtText_eq, ← h.routed_finish, ← said_eq, ← thoughtText_eq]
  exact ⟨rfl, rfl⟩

/-- The fragments of a last object, and what the end releases. -/
theorem allFragments_last {splitter : InlineThinkSplitter} (h : splitter.Holds) (obj : Json) :
    (allFragments splitter [obj]).flatMap (·.said) = saidText (splitter.ahead (keptOf obj)) ∧
      (allFragments splitter [obj]).flatMap (·.thought) =
        (thinking obj).getD [] ++ thoughtText (splitter.ahead (keptOf obj)) ∧
      (allFragments splitter [obj]).filterMap (·.asCall) = (toolCalls obj).getD [] := by
  obtain ⟨hsaid, hthought⟩ := said_lastSegments h obj
  have hfragments : ∃ said, (allFragments splitter [obj]) = OllamaBlocks.thinkingFragments (thinking obj) ++
      said.map .segment ++ ((toolCalls obj).getD []).map .call ++
        (objectFragments splitter obj).1.finish.2.map .segment ∧
      lastSegments splitter obj = said ++ (objectFragments splitter obj).1.finish.2 := by
    rw [allFragments_cons, objectFragments, lastSegments]
    cases content obj with
    | none => exact ⟨[], rfl, rfl⟩
    | some text => exact ⟨(splitter.push (keptContent text)).2, rfl, by simp [segmentsOf, emits]⟩
  obtain ⟨said, hall, hlast⟩ := hfragments
  rw [← hsaid, ← hthought, hall, hlast, saidText_append, thoughtText_append]
  simp only [List.flatMap_append, List.filterMap_append, said_thinking, said_segments, said_calls, thought_thinking,
    thought_segments, thought_calls, List.nil_append, List.append_nil, List.append_assoc, and_self]

/-! ## The two ends -/

theorem foldl_stops {items : List StreamItem} (h : ∀ item ∈ items, ∃ index, item = .ok (.contentBlockStop index)) :
    items.foldl StreamTotals.process totals = totals := by
  induction items with
  | nil => rfl
  | cons item items ih =>
    obtain ⟨index, rfl⟩ := h item List.mem_cons_self
    exact ih fun item hitem => h item (List.mem_cons_of_mem _ hitem)

theorem foldl_closeInTurn (blocks : OllamaBlocks) :
    blocks.closeInTurn.2.foldl StreamTotals.process totals = totals := by
  refine foldl_stops fun item hitem => ?_
  obtain ⟨_ | _, _ | _, count, next⟩ := blocks <;> simp [OllamaBlocks.closeInTurn] at hitem <;> grind

theorem foldl_closeOpen (blocks : OllamaBlocks) : blocks.closeOpen.foldl StreamTotals.process totals = totals := by
  rw [OllamaBlocks.closeOpen]
  split
  · rfl
  · rfl

/-- The token counts of an object. -/
theorem foldl_usage (obj : Json) : (usage obj).foldl StreamTotals.process totals = { totals with
    inputTokens := ((obj.field "prompt_eval_count").asU64.map tokenCountU32).getD totals.inputTokens
    outputTokens := totals.outputTokens + tokenCountU32 ((obj.field "eval_count").asU64.getD 0) } := by
  rw [usage, List.foldl_append]
  cases (obj.field "prompt_eval_count").asU64 <;> cases (obj.field "eval_count").asU64 <;> rfl

theorem watch_iff (state : OllamaStreamState) (obj : Json) :
    (state.watch obj).2 = none ↔ unwedged state.repeatWatch [obj] = true := by
  rw [watch, unwedged]
  cases (thinking obj).or (content obj) with
  | none => exact iff_of_true rfl rfl
  | some fragment => simp [unwedged]

/-- The last object as a line. -/
theorem totals_line (hdone : isDone obj = true) (hwatch : (state.watch obj).2 = none) (bytesReceived : Nat) :
    let all := emits (OllamaBlocks.onFragment env) state.blocks (allFragments state.thinkSplitter [obj])
    let heard := all.2.foldl StreamTotals.process totals
    (state.stream env bodyEnd [(obj, bytesReceived)]).foldl StreamTotals.process totals = { heard with
      inputTokens := ((obj.field "prompt_eval_count").asU64.map tokenCountU32).getD heard.inputTokens
      outputTokens := heard.outputTokens + tokenCountU32 ((obj.field "eval_count").asU64.getD 0)
      stopReason := some all.1.stopReason } := by
  have hstream := @stream_of_unwedged env state bodyEnd [] (obj, bytesReceived)
    (fun _ h => absurd h List.not_mem_nil) hdone ((watch_iff state obj).mp hwatch)
  dsimp only [List.nil_append, List.map_cons, List.map_nil] at hstream ⊢
  rw [hstream, List.foldl_append, List.foldl_append, List.foldl_append, foldl_closeInTurn, foldl_usage]
  rfl

/-- The last object as what is left in the buffer. -/
theorem totals_buffer (hparse : env.parse (trim bodyEnd.buffer) = some obj) (hdone : isDone obj = true) :
    let flushed := emits (OllamaBlocks.onFragment env) state.blocks state.flushFragments
    (state.stream env bodyEnd []).foldl StreamTotals.process totals =
      { flushed.2.foldl StreamTotals.process totals with stopReason := some flushed.1.stopReason } := by
  dsimp only
  rw [OllamaStreamState.stream, finish, hparse, Option.map_some, hdone, Option.getD_some, if_pos rfl,
    @flushContent_eq env]
  dsimp only
  rw [List.foldl_append, List.foldl_append, foldl_closeOpen]
  rfl

/-- A line that cuts the stream short stops nothing. -/
theorem totals_wedged (hwatch : (state.watch obj).2 ≠ none) (bytesReceived : Nat) :
    (state.stream env bodyEnd [(obj, bytesReceived)]).foldl StreamTotals.process totals = totals := by
  obtain ⟨run, hrun⟩ := Option.ne_none_iff_exists'.mp hwatch
  have hobject : state.onObject env obj bytesReceived = ({ state with repeatWatch := (state.watch obj).1 },
      state.blocks.closeOpen ++ [.error (.wedgedRunner run.1 run.2 bytesReceived)], true) := by
    rw [onObject, ← Prod.eta (state.watch obj), hrun]
  rw [OllamaStreamState.stream, hobject]
  dsimp only
  rw [if_pos rfl, List.foldl_append, foldl_closeOpen]
  rfl

/-! ## The objects before it -/

theorem holds_objectFragments {splitter : InlineThinkSplitter} (h : splitter.Holds) (obj : Json) :
    (objectFragments splitter obj).1.Holds := by
  rw [objectFragments]
  cases content obj with
  | none => exact h
  | some text => exact InlineThinkSplitter.Holds.drain _

/-- An object that is read adds its fragments. -/
theorem onObject_reads {bytesReceived : Nat} (h : (state.onObject env obj bytesReceived).2.2 = false) :
    (∃ fragments, (state.onObject env obj bytesReceived).2.1 =
      (emits (OllamaBlocks.onFragment env) state.blocks fragments).2) ∧
    (state.thinkSplitter.Holds → (state.onObject env obj bytesReceived).1.thinkSplitter.Holds) := by
  obtain ⟨-, hfinished, -⟩ | ⟨watch, -, hobject⟩ := @onObject_cases env state obj [] bytesReceived
  · cases hfinished.symm.trans h
  · obtain ⟨-, hsplitter, -, hitems⟩ := @afterObject_eq env state watch obj
    rw [hobject] at h ⊢
    split at h
    · cases h
    · rename_i hdone
      rw [if_neg hdone]
      exact ⟨⟨_, hitems⟩, fun hholds => hsplitter ▸ holds_objectFragments hholds obj⟩

theorem stream_over (h : readsOn env state objs = none) (more : List (Json × Nat)) :
    state.stream env bodyEnd (objs ++ more) = state.stream env bodyEnd' objs := by
  induction objs generalizing state with
  | nil => cases h
  | cons obj objs ih =>
    rw [readsOn] at h
    rw [List.cons_append, OllamaStreamState.stream, OllamaStreamState.stream]
    dsimp only at h ⊢
    split
    · rfl
    · rename_i hfinished
      rw [if_neg hfinished] at h
      rw [ih h]

/-- Objects that are read add their fragments, whatever comes behind them. -/
theorem stream_reads (h : readsOn env state objs = some state') : ∃ items : List StreamItem,
    (∀ bodyEnd more, state.stream env bodyEnd (objs ++ more) = items ++ state'.stream env bodyEnd more) ∧
      (∀ totals, ∃ fragments, Heard fragments totals (items.foldl StreamTotals.process totals)) ∧
      (state.thinkSplitter.Holds → state'.thinkSplitter.Holds) := by
  induction objs generalizing state with
  | nil =>
    cases h
    exact ⟨[], fun _ _ => rfl, fun _ => ⟨[], heard_nil⟩, id⟩
  | cons obj objs ih =>
    rw [readsOn] at h
    dsimp only at h
    split at h
    · cases h
    · rename_i hfinished
      obtain ⟨⟨fragments, hitems⟩, hholds⟩ := onObject_reads (Bool.not_eq_true _ ▸ hfinished)
      obtain ⟨items, hstream, hheard, hholds'⟩ := ih h
      refine ⟨(state.onObject env obj.1 obj.2).2.1 ++ items, fun bodyEnd more => ?_, fun totals => ?_,
        hholds' ∘ hholds⟩
      · rw [List.cons_append, OllamaStreamState.stream, List.append_assoc, ← hstream]
        exact if_neg hfinished
      · obtain ⟨fragments', hrest⟩ := hheard ((state.onObject env obj.1 obj.2).2.1.foldl StreamTotals.process totals)
        refine ⟨fragments ++ fragments', ?_⟩
        rw [List.foldl_append]
        refine Heard.append ?_ hrest
        rw [hitems]
        exact heard_fragments env state.blocks totals fragments

theorem acc_eq {acc acc' : StreamAccumulator} : acc = acc' ↔ acc.text = acc'.text ∧ acc.thinking = acc'.thinking ∧
    acc.thinkingSignature = acc'.thinkingSignature ∧ acc.toolCalls = acc'.toolCalls := by
  cases acc
  cases acc'
  exact StreamAccumulator.mk.injEq .. ▸ Iff.rfl

theorem tokenCountU32_eq_zero (n : Nat) : tokenCountU32 n = 0 ↔ n = 0 := by
  rw [tokenCountU32]
  omega

theorem promptTokens_eq_zero (count : Option Nat) : (count.map tokenCountU32).getD 0 = 0 ↔ count.getD 0 = 0 := by
  cases count with
  | none => exact Iff.rfl
  | some n => exact tokenCountU32_eq_zero n

/-- Two runs from one state agree where they say and think the same, if one of them calls nothing. -/
theorem Heard.acc_iff {totals'' : StreamTotals} (h : Heard fragments totals totals')
    (h' : Heard fragments' totals totals'') (hnone : fragments'.filterMap (·.asCall) = []) :
    totals'.acc = totals''.acc ↔ fragments.flatMap (·.said) = fragments'.flatMap (·.said) ∧
      fragments.flatMap (·.thought) = fragments'.flatMap (·.thought) ∧ fragments.filterMap (·.asCall) = [] := by
  rw [acc_eq, h.text, h'.text, h.thinking, h'.thinking, h'.kept hnone, List.append_cancel_left_eq,
    List.append_cancel_left_eq]
  constructor
  · rintro ⟨hsaid, hthought, -, hcalls⟩
    have hlen := h.calls
    rw [hcalls] at hlen
    exact ⟨hsaid, hthought, List.length_eq_zero_iff.mp (by omega)⟩
  · rintro ⟨hsaid, hthought, hcalls⟩
    exact ⟨hsaid, hthought, h.signature.trans h'.signature.symm, h.kept hcalls⟩

/-- What the end of the body releases. -/
theorem flushFragments_last (h : state.thinkSplitter.Holds) :
    state.flushFragments.flatMap (·.said) = saidText (state.thinkSplitter.ahead []) ∧
      state.flushFragments.flatMap (·.thought) = thoughtText (state.thinkSplitter.ahead []) ∧
      state.flushFragments.filterMap (·.asCall) = [] := by
  obtain ⟨hsaid, hthought⟩ := said_finish h
  rw [flushFragments, (said_segments _).1, thought_segments, (said_segments _).2, hsaid, hthought]
  exact ⟨rfl, rfl, rfl⟩

/-- Behind what was read, the two ends agree where the last object brings nothing. -/
theorem ends_iff (hparse : env.parse (trim bodyEnd.buffer) = some obj) (hdone : isDone obj = true)
    (hholds : state.thinkSplitter.Holds)
    (hfresh : (totals.inputTokens, totals.outputTokens, totals.stopReason) = (0, 0, none)) (bytesReceived : Nat) :
    (state.stream env bodyEnd' [(obj, bytesReceived)]).foldl StreamTotals.process totals =
      (state.stream env bodyEnd []).foldl StreamTotals.process totals ↔ BringsNothing state obj := by
  have hbuffer := @totals_buffer env state totals obj bodyEnd hparse hdone
  by_cases hwatch : (state.watch obj).2 = none
  · have hline := @totals_line env state totals obj bodyEnd' hdone hwatch bytesReceived
    have hall := heard_fragments env state.blocks totals (allFragments state.thinkSplitter [obj])
    have hflush := heard_fragments env state.blocks totals state.flushFragments
    obtain ⟨hsaid, hthought, hcalls⟩ := allFragments_last hholds obj
    obtain ⟨hsaid', hthought', hnocalls⟩ := flushFragments_last hholds
    have hacc := hall.acc_iff hflush hnocalls
    rw [hsaid, hthought, hcalls, hsaid', hthought'] at hacc
    obtain ⟨hinput, hrest⟩ := Prod.mk.inj (hall.rest.trans hfresh)
    obtain ⟨hinput', hrest'⟩ := Prod.mk.inj (hflush.rest.trans hfresh)
    dsimp only at hline hbuffer
    rw [hline, hbuffer, StreamTotals.mk.injEq, hacc, hinput, hinput', (Prod.mk.inj hrest).1, (Prod.mk.inj hrest').1,
      Nat.zero_add, tokenCountU32_eq_zero, promptTokens_eq_zero]
    constructor
    · rintro ⟨⟨hreply, hreasoning, hnone⟩, htokens, htokens', -⟩
      exact ⟨hwatch, hreply, hreasoning, hnone, htokens, htokens'⟩
    · intro h
      refine ⟨⟨h.reply, h.reasoning, h.calls⟩, h.inputTokens, h.outputTokens, ?_⟩
      rw [OllamaBlocks.stopReason, OllamaBlocks.stopReason, count_fragments, count_fragments, hcalls, h.calls,
        hnocalls]
  · have hstop : totals.stopReason = none := congrArg (·.2.2) hfresh
    rw [totals_wedged hwatch, hbuffer]
    refine iff_of_false (fun heq => ?_) fun h => hwatch h.unwedged
    have hstops := congrArg StreamTotals.stopReason heq
    rw [hstop] at hstops
    cases hstops

/-- With or without its last newline. -/
theorem newline_iff (env : OllamaEnv) (objs : List (Json × Nat)) (obj : Json) (bytesReceived : Nat)
    (bodyEnd bodyEnd' : BodyEnd) (hparse : env.parse (trim bodyEnd.buffer) = some obj) (hdone : isDone obj = true) :
    totalsOf (OllamaStreamState.stream env bodyEnd' {} (objs ++ [(obj, bytesReceived)])) =
      totalsOf (OllamaStreamState.stream env bodyEnd {} objs) ↔
      ∀ state, readsOn env {} objs = some state → BringsNothing state obj := by
  cases hreads : readsOn env {} objs with
  | none => exact iff_of_true (congrArg totalsOf (stream_over hreads _)) fun _ h => by cases h
  | some state =>
    obtain ⟨items, hstream, hheard, hholds⟩ := stream_reads hreads
    obtain ⟨fragments, hitems⟩ := hheard {}
    have hiff := @ends_iff env state (items.foldl StreamTotals.process {}) obj bodyEnd bodyEnd' hparse hdone
      (hholds ⟨0, by decide, rfl⟩) hitems.rest bytesReceived
    have hleft := hstream bodyEnd []
    rw [List.append_nil] at hleft
    rw [totalsOf, totalsOf, hstream, hleft, List.foldl_append, List.foldl_append, hiff]
    exact ⟨fun h _ hstate => Option.some.inj hstate ▸ h, fun h => h state rfl⟩

/-- An environment that reads one line. -/
def lineOllama (line : Text) (obj : Json) : OllamaEnv :=
  { plainOllama with parse := fun t => if t = line then some obj else none }

theorem newline_iff_done :
    let line := "\x7b\"done\":true\x7d".toList
    let obj := Json.obj [("done", .bool true)]
    totalsOf (OllamaStreamState.stream (lineOllama line obj) ⟨[], none, 14, 1⟩ {} ([] ++ [(obj, 14)])) =
      totalsOf (OllamaStreamState.stream (lineOllama line obj) ⟨line, none, 13, 0⟩ {} []) ↔
      ∀ state, readsOn (lineOllama line obj) {} [] = some state → BringsNothing state obj :=
  newline_iff _ [] _ 14 ⟨_, none, 13, 0⟩ _ rfl rfl

/-- The token counts, which come with the last object, are lost with its newline. -/
theorem counts_lost :
    let line := ("\x7b\"message\":\x7b\"content\":\"Hi\"\x7d,\"done\":true," ++
      "\"prompt_eval_count\":7,\"eval_count\":2\x7d").toList
    let obj := Json.obj [("message", .obj [("content", .str "Hi")]), ("done", .bool true),
      ("prompt_eval_count", .num (.int 7)), ("eval_count", .num (.int 2))]
    totalsOf (OllamaStreamState.stream (lineOllama line obj) ⟨[], none, 80, 1⟩ {} [(obj, 80)]) ≠
      totalsOf (OllamaStreamState.stream (lineOllama line obj) ⟨line, none, 79, 0⟩ {} []) := by
  intro line obj heq
  have hbrings := (@ends_iff (lineOllama line obj) {} {} obj ⟨line, none, 79, 0⟩ ⟨[], none, 80, 1⟩ rfl rfl
    ⟨0, by decide, rfl⟩ rfl 80).mp heq
  exact absurd hbrings.inputTokens (by decide)

end Nanna.Llm
