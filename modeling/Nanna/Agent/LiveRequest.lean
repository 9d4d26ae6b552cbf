import Nanna.Agent.Pin

/-!
# The live request survives every cut

`live_request_survives`: through any run of additions, pins and cuts, the pinned message is in the
list, unchanged, where `pinnedIndex` says. It changes in three ways only, which `requestAfter` names:
a pin moves to the last message; a message pushed while the pin names no message becomes the pinned
one; and a truncation that is over the limit with nothing else left shrinks its blocks in place. A
truncation ends within the limit, or with at most the pinned message.

The cuts are `Kept`, so only the pushes, the pin and the shrinking are new here. The loops of
`truncate_to_limit` have a round for each message and end by their own condition
(`dropWhileOver_done`).
-/

namespace Nanna.Agent

open Nanna.Lib

namespace AgentContext

/-- The cutting operations, with the arguments the agent loop and the models supply. -/
inductive CutOp
  | trimIfNeeded
  | truncateToLimit
  | dropOldest (keepRecent : Nat)
  | replaceWithSummary (coveredMessages : Nat) (summary : Text)
  | compress (keepRecent : Nat) (summary : Text)
  | compressOlderToolResults (keepRecent minChars : Nat)
      (compressWith : Nat → Nat → Text → Option Text)

/-- What can happen to a context. -/
inductive Op
  | push (msg : Message)
  | addUserMessage (content : Text)
  | addAssistantMessage (content : Text)
  | pinLiveRequest
  | setLimits (maxMessages hardLimit : Nat)
  /-- Orphaned results are cleaned up in the copy that is sent. -/
  | messagesForRequest
  | cut (op : CutOp)

variable (env : ContextEnv) (ctx : AgentContext)

def cut : CutOp → AgentContext
  | .trimIfNeeded => ctx.trimIfNeeded
  | .truncateToLimit => (ctx.truncateToLimit env).1
  | .dropOldest keepRecent => (ctx.dropOldest keepRecent).1
  | .replaceWithSummary coveredMessages summary =>
    (ctx.replaceWithSummary coveredMessages summary).1
  | .compress keepRecent summary => (ctx.compress keepRecent summary).1
  | .compressOlderToolResults keepRecent minChars compressWith =>
    ctx.compressOlderToolResults keepRecent minChars compressWith

def step : Op → AgentContext
  | .push msg => ctx.push msg
  | .addUserMessage content => ctx.addUserMessage content
  | .addAssistantMessage content => ctx.addAssistantMessage content
  | .pinLiveRequest => ctx.pinLiveRequest
  | .setLimits maxMessages hardLimit => { ctx with maxMessages, hardLimit }
  | .messagesForRequest => ctx
  | .cut op => ctx.cut env op

def run (ops : List Op) : AgentContext := ops.foldl (step env) ctx

/-- The truncation has nothing left to drop and shrinks what it keeps. -/
def Shrinks : Prop :=
  (ctx.dropToLimit env).1.exceedsHardLimit env ∧ (ctx.dropToLimit env).1.messages ≠ []

instance : Decidable (ctx.Shrinks env) := inferInstanceAs (Decidable (_ ∧ _))

/-- The pinned message after a push. -/
def requestAfterPush (request : Option Message) (msg : Message) : Option Message :=
  if ctx.PinStands then request else some msg

/-- The message that must be found pinned after an operation, where `request` is the one before. -/
def requestAfter (request : Option Message) : Op → Option Message
  | .push msg => ctx.requestAfterPush request msg
  | .addUserMessage content => ctx.requestAfterPush request (.userText content)
  | .addAssistantMessage content => ctx.requestAfterPush request (.assistantText content)
  | .pinLiveRequest => ctx.messages.getLast?
  | .cut .truncateToLimit =>
    if ctx.Shrinks env then
      request.map (truncateMessage ((ctx.dropToLimit env).1.maxBlockChars env))
    else request
  | _ => request

/-- The message that must be found pinned after a run. -/
def follow : AgentContext → Option Message → List Op → Option Message
  | _, request, [] => request
  | ctx, request, op :: ops => follow (ctx.step env op) (ctx.requestAfter env request op) ops

section Steps

variable {env : ContextEnv} {ctx : AgentContext}

/-! ## Pushing and pinning -/

theorem live_push (msg : Message) : (ctx.push msg).live = ctx.requestAfterPush ctx.live msg := by
  have hlength : (ctx.messages ++ [msg]).length - 1 = ctx.messages.length := by simp
  have hindex : (ctx.push msg).pinnedIndex =
      min (ctx.pinnedRequest.getD 0) ctx.messages.length := by
    rw [pinnedIndex, if_neg (by simp [push])]
    show min _ ((ctx.messages ++ [msg]).length - 1) = _
    rw [hlength]
    rfl
  rw [live, hindex, requestAfterPush]
  show (ctx.messages ++ [msg])[_]? = _
  by_cases hstands : ctx.PinStands
  · have hpin : ctx.pinnedRequest.getD 0 < ctx.messages.length := hstands
    rw [if_pos hstands, live, hstands.pinnedIndex, Nat.min_eq_left (Nat.le_of_lt hpin),
      List.getElem?_append_left hpin]
  · have hpin : ctx.messages.length ≤ ctx.pinnedRequest.getD 0 := Nat.le_of_not_lt hstands
    rw [if_neg hstands, Nat.min_eq_right hpin, List.getElem?_concat_length]

theorem live_pinLiveRequest : ctx.pinLiveRequest.live = ctx.messages.getLast? := by
  rw [List.getLast?_eq_getElem?, live]
  show ctx.messages[_]? = _
  cases hmessages : ctx.messages with
  | nil => rfl
  | cons msg msgs =>
    have hindex : ctx.pinLiveRequest.pinnedIndex = ctx.messages.length - 1 := by
      simp [pinnedIndex, pinLiveRequest, hmessages]
    rw [hindex, hmessages]

theorem live_trimIfNeeded : ctx.trimIfNeeded.live = ctx.live := (kept_trimRounds _).live

/-! ## Truncation -/

/-- The loop of `truncate_to_limit` ends because it is done. -/
theorem dropWhileOver_done {keepTail keep : Nat} {rounds removed : Nat}
    (hrounds : ctx.messages.length ≤ rounds) (hkeep : keepTail < keep) :
    (dropWhileOver env keepTail keep rounds (ctx, removed)).1.exceedsHardLimit env = false ∨
      (dropWhileOver env keepTail keep rounds (ctx, removed)).1.messages.length ≤ keep := by
  induction rounds generalizing ctx removed with
  | zero =>
    right
    show ctx.messages.length ≤ keep
    omega
  | succ rounds ih =>
    rw [dropWhileOver]
    split
    · rename_i hover
      split
      · rename_i hnone
        have hlength := oldestRemovable_eq_none hnone
        right
        show ctx.messages.length ≤ keep
        omega
      · rename_i victim hvictim
        obtain ⟨-, hlt, -⟩ := oldestRemovable_eq_some hvictim
        have hstep := removeMessage_length hlt
        exact ih (by omega)
    · rename_i hdone
      rw [not_and_or] at hdone
      rcases hdone with hwithin | hfew
      · left
        rw [Bool.not_eq_true] at hwithin
        exact hwithin
      · right
        show ctx.messages.length ≤ keep
        omega

variable (env ctx) in
/-- Before the shrinking, the truncation is within the limit or has at most one message left. -/
theorem dropToLimit_done : (ctx.dropToLimit env).1.exceedsHardLimit env = false ∨
    (ctx.dropToLimit env).1.messages.length ≤ 1 :=
  dropWhileOver_done (Nat.le_refl _) Nat.one_pos

theorem live_truncateLargeContentBlocks : (ctx.truncateLargeContentBlocks env).live =
    ctx.live.map (truncateMessage (ctx.maxBlockChars env)) := by
  have hindex : (ctx.truncateLargeContentBlocks env).pinnedIndex = ctx.pinnedIndex := by
    unfold pinnedIndex truncateLargeContentBlocks
    rw [List.isEmpty_map, List.length_map]
  rw [live, hindex]
  exact List.getElem?_map

theorem truncateToLimit_eq : (ctx.truncateToLimit env).1 =
    if ctx.Shrinks env then (ctx.dropToLimit env).1.truncateLargeContentBlocks env
    else (ctx.dropToLimit env).1 := by
  by_cases hshrinks : ctx.Shrinks env
  · rw [if_pos hshrinks]
    exact congrArg Prod.fst (if_pos hshrinks)
  · rw [if_neg hshrinks]
    exact congrArg Prod.fst (if_neg hshrinks)

theorem live_truncateToLimit : (ctx.truncateToLimit env).1.live =
    ctx.requestAfter env ctx.live (.cut .truncateToLimit) := by
  have hkept : (ctx.dropToLimit env).1.live = ctx.live := kept_dropToLimit.live
  rw [requestAfter, truncateToLimit_eq]
  split
  · rw [live_truncateLargeContentBlocks, hkept]
  · exact hkept

theorem messages_of_length_le_one (h : ctx.messages.length ≤ 1) :
    ctx.messages = ctx.live.toList := by
  cases hmessages : ctx.messages with
  | nil =>
    rw [live, hmessages]
    rfl
  | cons msg msgs =>
    rw [hmessages, List.length_cons] at h
    have hnil : msgs = [] := List.length_eq_zero_iff.mp (by omega)
    subst hnil
    have hindex : ctx.pinnedIndex = 0 := by simp [pinnedIndex, hmessages]
    rw [live, hindex, hmessages]
    rfl

/-- A truncation ends within the limit or with the pinned message alone. -/
theorem truncateToLimit_done : (ctx.truncateToLimit env).1.exceedsHardLimit env = false ∨
    (ctx.truncateToLimit env).1.messages = (ctx.truncateToLimit env).1.live.toList := by
  have hdone := dropToLimit_done env ctx
  rw [truncateToLimit_eq]
  rcases hdone with hwithin | hfew
  · left
    rw [if_neg fun h => Bool.false_ne_true (hwithin.symm.trans h.1)]
    exact hwithin
  · right
    refine messages_of_length_le_one ?_
    split
    · show ((ctx.dropToLimit env).1.messages.map _).length ≤ 1
      rw [List.length_map]
      exact hfew
    · exact hfew

/-! ## Any run -/

theorem live_step (op : Op) : (ctx.step env op).live = ctx.requestAfter env ctx.live op := by
  cases op with
  | push msg => exact live_push msg
  | addUserMessage content => exact live_trimIfNeeded.trans (live_push _)
  | addAssistantMessage content => exact live_trimIfNeeded.trans (live_push _)
  | pinLiveRequest => exact live_pinLiveRequest
  | setLimits maxMessages hardLimit => rfl
  | messagesForRequest => rfl
  | cut op =>
    cases op with
    | trimIfNeeded => exact live_trimIfNeeded
    | truncateToLimit => exact live_truncateToLimit
    | dropOldest keepRecent => exact (kept_dropOldest keepRecent).live
    | replaceWithSummary coveredMessages summary =>
      exact (kept_replaceWithSummary coveredMessages summary).live
    | compress keepRecent summary => exact (kept_compress keepRecent summary).live
    | compressOlderToolResults keepRecent minChars compressWith =>
      exact (kept_compressOlderToolResults keepRecent minChars compressWith).live

theorem live_run (ops : List Op) : (ctx.run env ops).live = ctx.follow env ctx.live ops := by
  induction ops generalizing ctx with
  | nil => rfl
  | cons op ops ih =>
    rw [follow, ← live_step]
    exact ih

end Steps

/-- **Main result.** Through any run the pinned message is found, as it was, at the pinned index;
only a pin, a push under a pin that names no message, and the shrinking in place of a truncation
with nothing else left make it another one. A truncation ends within the limit or with at most the
pinned message. -/
theorem live_request_survives (env : ContextEnv) (ctx : AgentContext) (ops : List Op) :
    (ctx.run env ops).messages[(ctx.run env ops).pinnedIndex]? = ctx.follow env ctx.live ops ∧
    (((ctx.run env ops).truncateToLimit env).1.exceedsHardLimit env = false ∨
      ((ctx.run env ops).truncateToLimit env).1.messages =
        ((ctx.run env ops).truncateToLimit env).1.live.toList) :=
  ⟨live_run ops, truncateToLimit_done⟩

/-! ## A request that is too large -/

/-- A new context with a limit of ten tokens. -/
def narrow : AgentContext where
  systemPrompt := []
  messages := []
  maxMessages := 100
  hardLimit := 10
  consolidatedSummary := none
  distilledFacts := none
  verifiedOutcomes := []
  maxObservedGrowth := 0
  pendingLossNotices := []
  summarizedContentHashes := []
  pinnedRequest := none

/-- A request of two hundred characters. -/
def longRequest : Text := List.replicate 200 'a'

/-- Added, pinned and truncated to a limit of ten tokens, the request is not in the list any more;
and a context without messages can end over its limit. -/
theorem live_request_shrunk :
    (narrow.run .exact [.addUserMessage longRequest, .pinLiveRequest]).live =
      some (.userText longRequest) ∧
    Message.userText longRequest ∉
      (narrow.run .exact
        [.addUserMessage longRequest, .pinLiveRequest, .cut .truncateToLimit]).messages ∧
    (({ narrow with systemPrompt := longRequest }.truncateToLimit .exact).1.exceedsHardLimit .exact =
        true ∧
      ({ narrow with systemPrompt := longRequest }.truncateToLimit .exact).1.live = none) := by
  decide +kernel

end AgentContext

end Nanna.Agent
