import Mathlib.Data.List.Perm.Basic

/-!
# The outgoing message queue

The queue of one provider, and the calls of `process` that are under way on it. The state moves from one
await point to the next: `enqueue_with_priority`, and within a call the taking of a message, the token of
the rate limiter, the end of a send and the re-adding of what is to be retried. The readings of the clock,
the answers of the rate limiter, the delays and the outcome of a send come with each action.

A binary heap is known by its elements: where the code walks it or pops it, the action brings an order that
the heap can have.
-/

namespace Nanna.Channels

inductive MessagePriority where
  | low
  | normal
  | high
  | urgent
deriving DecidableEq

def MessagePriority.rank : MessagePriority → Nat
  | low => 0
  | normal => 1
  | high => 2
  | urgent => 3

structure QueuedMessage where
  message : String
  priority : MessagePriority
  queuedAt : Nat
  attempts : Nat := 0
  retryAfter : Option Nat := none
  maxAttempts : Nat
  id : Nat
deriving DecidableEq

/-- `Ord for QueuedMessage`: higher priority is greater, then older is. -/
def QueuedMessage.Less (a b : QueuedMessage) : Prop :=
  a.priority.rank < b.priority.rank ∨ a.priority.rank = b.priority.rank ∧ b.queuedAt < a.queuedAt

instance : DecidableRel QueuedMessage.Less := fun _ _ => inferInstanceAs (Decidable (_ ∨ _))

def QueuedMessage.isReady (now : Nat) (m : QueuedMessage) : Bool := m.retryAfter.all (· ≤ now)

structure QueueConfig where
  maxQueueSize : Nat
  maxRetries : Nat

inductive SendResult where
  | success (resultId : String)
  | rateLimited (cooldown : Nat)
  | retryLater (delay : Nat) (error : String)
  | failed (error : String)
deriving DecidableEq

/-- How a send ends. -/
inductive SendOutcome where
  | sent
  | rateLimited
  | failed
deriving DecidableEq

/-- Where a call of `process` waits. -/
inductive Stage where
  | looping
  | holding (m : QueuedMessage)
  | sending (m : QueuedMessage)
  | finishing
  | returned
deriving DecidableEq

structure ProcessCall where
  stage : Stage := .looping
  toRetry : List QueuedMessage := []
  results : List SendResult := []
deriving DecidableEq

/-- The queue and the calls on it; below, what has happened so far: the sends that have ended, and the
messages that were sent, reported as failed and dropped. -/
structure QueueState where
  messages : List QueuedMessage := []
  nextId : Nat := 0
  calls : List ProcessCall := []
  ended : List (Nat × SendOutcome) := []
  sent : List Nat := []
  failed : List Nat := []
  dropped : List Nat := []
deriving DecidableEq

/-! ## Enqueueing -/

/-- `Iterator::min`: the first of the least. -/
def minMessage : List QueuedMessage → Option QueuedMessage
  | [] => none
  | m :: ms => some (ms.foldl (fun best x => if x.Less best then x else best) m)

variable (config : QueueConfig)

/-- `enqueue_with_priority`; `iteration` is the order in which the heap is walked. -/
def QueueState.enqueueWithPriority (s : QueueState) (message : String) (priority : MessagePriority)
    (now : Nat) (iteration : List QueuedMessage) : QueueState :=
  let entry : QueuedMessage :=
    { message, priority, queuedAt := now, maxAttempts := config.maxRetries, id := s.nextId }
  let s := { s with nextId := s.nextId + 1 }
  if config.maxQueueSize ≤ s.messages.length then
    match minMessage iteration with
    | some dropped =>
      { s with
        messages := s.messages.filter (·.id ≠ dropped.id) ++ [entry]
        dropped := s.dropped ++ [dropped.id] }
    | none => { s with messages := s.messages ++ [entry] }
  else { s with messages := s.messages ++ [entry] }

/-! ## Processing -/

/-- The pops of `take_ready_message`: the first message that is ready, and the others. -/
def popReady (now : Nat) : List QueuedMessage → Option QueuedMessage × List QueuedMessage
  | [] => (none, [])
  | m :: ms => if m.isReady now then (some m, ms) else ((popReady now ms).1, m :: (popReady now ms).2)

/-- An order in which the heap can be popped. -/
def PopOrder (s : QueueState) (order : List QueuedMessage) : Prop :=
  order.Perm s.messages ∧ order.Pairwise fun a b => ¬ a.Less b

instance (s : QueueState) (order : List QueuedMessage) : Decidable (PopOrder s order) :=
  inferInstanceAs (Decidable (_ ∧ _))

inductive Action where
  | enqueue (message : String) (priority : MessagePriority) (now : Nat) (iteration : List QueuedMessage)
  /-- A new call of `process`. -/
  | start
  | take (call : Nat) (now : Nat) (canSend : Bool) (order : List QueuedMessage)
  | acquire (call : Nat) (allowed : Bool)
  /-- The send ends well. -/
  | deliver (call : Nat) (resultId : String)
  | rateLimit (call : Nat) (cooldown retryAfter : Nat)
  /-- The send ends with another error. -/
  | fail (call : Nat) (error : String) (delay retryAfter : Nat)
  | requeue (call : Nat)

/-- The call with this index, at its await point, goes on. -/
def QueueState.resume (s : QueueState) (index : Nat) (next : ProcessCall → Option (ProcessCall × QueueState)) :
    Option QueueState :=
  (s.calls[index]?.bind next).map fun (call, s') => { s' with calls := s.calls.set index call }

/-- `take_ready_message`. -/
def takeReadyMessage (s : QueueState) (now : Nat) (canSend : Bool) (order : List QueuedMessage)
    (call : ProcessCall) : Option (ProcessCall × QueueState) :=
  if call.stage = .looping ∧ PopOrder s order then
    if canSend then
      match popReady now order with
      | (some m, rest) => some ({ call with stage := .holding m }, { s with messages := rest })
      | (none, _) => some ({ call with stage := .finishing }, s)
    else some ({ call with stage := .finishing }, s)
  else none

/-- The token of the rate limiter; without it the message is put back and the loop ends. -/
def acquireToken (s : QueueState) (allowed : Bool) (call : ProcessCall) :
    Option (ProcessCall × QueueState) :=
  match call.stage with
  | .holding m =>
    if allowed then some ({ call with stage := .sending { m with attempts := m.attempts + 1 } }, s)
    else some ({ call with stage := .finishing }, { s with messages := s.messages ++ [m] })
  | _ => none

/-- `Ok` -/
def sendDelivered (s : QueueState) (resultId : String) (call : ProcessCall) :
    Option (ProcessCall × QueueState) :=
  match call.stage with
  | .sending m =>
    some ({ call with stage := .looping, results := call.results ++ [.success resultId] },
      { s with ended := s.ended ++ [(m.id, .sent)], sent := s.sent ++ [m.id] })
  | _ => none

/-- `Err(ChannelError::RateLimited)`: the loop ends. -/
def sendRateLimited (s : QueueState) (cooldown retryAfter : Nat) (call : ProcessCall) :
    Option (ProcessCall × QueueState) :=
  match call.stage with
  | .sending m =>
    some (⟨.finishing, call.toRetry ++ [{ m with retryAfter := some retryAfter }],
        call.results ++ [.rateLimited cooldown]⟩,
      { s with ended := s.ended ++ [(m.id, .rateLimited)] })
  | _ => none

/-- Any other error. -/
def sendFailed (s : QueueState) (error : String) (delay retryAfter : Nat) (call : ProcessCall) :
    Option (ProcessCall × QueueState) :=
  match call.stage with
  | .sending m =>
    let s := { s with ended := s.ended ++ [(m.id, .failed)] }
    if m.attempts < m.maxAttempts then
      some (⟨.looping, call.toRetry ++ [{ m with retryAfter := some retryAfter }],
        call.results ++ [.retryLater delay error]⟩, s)
    else
      some ({ call with stage := .looping, results := call.results ++ [.failed error] },
        { s with failed := s.failed ++ [m.id] })
  | _ => none

/-- What is to be retried goes back, and the call returns. -/
def requeueRetries (s : QueueState) (call : ProcessCall) : Option (ProcessCall × QueueState) :=
  match call.stage with
  | .finishing =>
    some (⟨.returned, [], call.results⟩, { s with messages := s.messages ++ call.toRetry })
  | _ => none

/-- One action, where it is possible. -/
def step (s : QueueState) : Action → Option QueueState
  | .enqueue message priority now iteration =>
    if iteration.Perm s.messages then some (s.enqueueWithPriority config message priority now iteration)
    else none
  | .start => some { s with calls := s.calls ++ [{}] }
  | .take call now canSend order => s.resume call (takeReadyMessage s now canSend order)
  | .acquire call allowed => s.resume call (acquireToken s allowed)
  | .deliver call resultId => s.resume call (sendDelivered s resultId)
  | .rateLimit call cooldown retryAfter => s.resume call (sendRateLimited s cooldown retryAfter)
  | .fail call error delay retryAfter => s.resume call (sendFailed s error delay retryAfter)
  | .requeue call => s.resume call (requeueRetries s)

/-- Actions one after another, from an empty queue. -/
def runFrom (s : QueueState) : List Action → Option QueueState
  | [] => some s
  | action :: actions => (step config s action).bind fun s' => runFrom s' actions

inductive Reachable : QueueState → Prop where
  | start : Reachable {}
  | step {s s' : QueueState} (action : Action) (hs : Reachable s) (h : step config s action = some s') :
    Reachable s'

theorem Reachable.runFrom {s s' : QueueState} {actions : List Action} (hs : Reachable config s)
    (h : runFrom config s actions = some s') : Reachable config s' := by
  induction actions generalizing s with
  | nil =>
    cases h
    exact hs
  | cons action actions ih =>
    obtain ⟨s₁, hstep, hrest⟩ := Option.bind_eq_some_iff.mp h
    exact ih (.step action hs hstep) hrest

end Nanna.Channels
