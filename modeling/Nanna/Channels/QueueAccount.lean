import Mathlib.Data.List.Nodup
import Mathlib.Data.List.Range
import Nanna.Channels.Queue

/-!
# The queue accounts for every message

`queue_accounts`: in every reachable state each message is waiting, in flight in one call, sent, reported
as failed or dropped, in exactly one of these ways; a message that was sent was sent once; one reported as
failed was so at its first failure with `maxRetries` sends or more, rate-limited sends included; what is
dropped is of the lowest priority of a full queue, and what is taken is ready and of the highest priority
of what is ready.

It does not say more (`queue_defects`): rate-limited sends count as attempts, what is put back goes in
unchecked, the new message is not compared with the one that is dropped for it, and a message may arrive
between the taking and the sending of another one.

One inversion lemma (`step_effect`) says what an action does to the live messages and to the past, and
the invariant follows from it effect by effect.
-/

namespace Nanna.Channels

variable {config : QueueConfig} {s s' : QueueState} {m : QueuedMessage} {call call' : ProcessCall}
  {now : Nat} {order : List QueuedMessage}

/-! ## What is claimed -/

/-- The messages that a call has taken and not settled. -/
def ProcessCall.inFlight (call : ProcessCall) : List QueuedMessage :=
  (match call.stage with
    | .holding m => [m]
    | .sending m => [m]
    | _ => []) ++ call.toRetry

def QueueState.inFlight (s : QueueState) : List QueuedMessage := s.calls.flatMap ProcessCall.inFlight

/-- How the sends of a message have ended. -/
def QueueState.outcomes (s : QueueState) (id : Nat) : List SendOutcome :=
  s.ended.filterMap fun entry => if entry.1 = id then some entry.2 else none

/-- Every message is in exactly one place. -/
def Accounted (s : QueueState) : Prop :=
  (s.messages.map (·.id) ++ s.inFlight.map (·.id) ++ s.sent ++ s.failed ++ s.dropped).Perm
    (List.range s.nextId)

/-- Sends after which the message is tried again. -/
def Unsettled (config : QueueConfig) (outcomes : List SendOutcome) : Prop :=
  ∀ before outcome after, outcomes = before ++ outcome :: after →
    outcome = .rateLimited ∨ outcome = .failed ∧ before.length + 1 < config.maxRetries

/-- How it stands with the messages. -/
structure Fates (config : QueueConfig) (s : QueueState) : Prop where
  live : ∀ m ∈ s.messages ++ s.inFlight, Unsettled config (s.outcomes m.id)
  sent : ∀ id ∈ s.sent, ∃ before, s.outcomes id = before ++ [.sent] ∧ Unsettled config before
  failed : ∀ id ∈ s.failed, ∃ before, s.outcomes id = before ++ [.failed] ∧ Unsettled config before ∧
    config.maxRetries ≤ before.length + 1
  dropped : ∀ id ∈ s.dropped, Unsettled config (s.outcomes id)

/-- A message is dropped from a full queue, and no waiting message has a lower priority. -/
def DropsLowest (config : QueueConfig) (s : QueueState) : Prop :=
  ∀ message priority now iteration s', step config s (.enqueue message priority now iteration) = some s' →
    s'.dropped = s.dropped ∨ config.maxQueueSize ≤ s.messages.length ∧
      ∃ m ∈ s.messages, s'.dropped = s.dropped ++ [m.id] ∧
        ∀ waiting ∈ s.messages, m.priority.rank ≤ waiting.priority.rank

/-- What is taken is ready, and no ready message that waits has a higher priority. -/
def TakesHighest (config : QueueConfig) (s : QueueState) : Prop :=
  ∀ index now canSend order s' call m, step config s (.take index now canSend order) = some s' →
    s'.calls[index]? = some call → call.stage = .holding m →
      m ∈ s.messages ∧ m.isReady now = true ∧
        ∀ waiting ∈ s.messages, waiting.isReady now = true → waiting.priority.rank ≤ m.priority.rank

/-! ## Walking and popping the heap -/

theorem minMessage_spec {ms : List QueuedMessage} (h : minMessage ms = some m) :
    m ∈ ms ∧ ∀ x ∈ ms, m.priority.rank ≤ x.priority.rank := by
  have hfold (best : QueuedMessage) (xs : List QueuedMessage) :
      let least := xs.foldl (fun best x => if x.Less best then x else best) best
      least ∈ best :: xs ∧ ∀ x ∈ best :: xs, least.priority.rank ≤ x.priority.rank := by
    induction xs generalizing best with
    | nil =>
      refine ⟨List.mem_singleton.mpr rfl, fun x hx => ?_⟩
      rw [List.mem_singleton.mp hx]
      exact le_rfl
    | cons x xs ih =>
      rw [List.foldl_cons]
      by_cases hless : x.Less best
      · obtain ⟨hmem, hle⟩ := ih x
        rw [if_pos hless]
        refine ⟨List.mem_cons_of_mem _ hmem, fun y hy => ?_⟩
        rcases List.mem_cons.mp hy with rfl | hy
        · exact (hle x List.mem_cons_self).trans (hless.elim Nat.le_of_lt fun heq => heq.1.le)
        · exact hle y hy
      · obtain ⟨hmem, hle⟩ := ih best
        rw [if_neg hless]
        refine ⟨?_, fun y hy => ?_⟩
        · rcases List.mem_cons.mp hmem with heq | hx
          · exact List.mem_cons.mpr (.inl heq)
          · exact List.mem_cons_of_mem _ (List.mem_cons_of_mem _ hx)
        · rcases List.mem_cons.mp hy with rfl | hy
          · exact hle _ List.mem_cons_self
          · rcases List.mem_cons.mp hy with rfl | hy
            · exact (hle best List.mem_cons_self).trans (Nat.le_of_not_lt fun hlt => hless (.inl hlt))
            · exact hle y (List.mem_cons_of_mem _ hy)
  cases ms with
  | nil => cases h
  | cons x xs =>
    cases h
    exact hfold x xs

/-- The popped message is ready, and greater ready ones would have been popped before. -/
theorem popReady_spec {rest : List QueuedMessage} (hsorted : order.Pairwise fun a b => ¬ a.Less b)
    (h : popReady now order = (some m, rest)) : order.Perm (m :: rest) ∧ m.isReady now = true ∧
      ∀ x ∈ order, x.isReady now = true → x.priority.rank ≤ m.priority.rank := by
  induction order generalizing rest with
  | nil => cases h
  | cons x xs ih =>
    obtain ⟨hx, hxs⟩ := List.pairwise_cons.mp hsorted
    rw [popReady] at h
    split at h
    · rename_i hready
      cases h
      refine ⟨.refl _, hready, fun y hy _ => ?_⟩
      rcases List.mem_cons.mp hy with rfl | hy
      · exact le_rfl
      · exact Nat.le_of_not_lt fun hlt => hx y hy (.inl hlt)
    · rename_i hnot
      obtain ⟨hfound, rfl⟩ := Prod.mk.inj h
      obtain ⟨hperm, hready, hle⟩ := ih hxs (Prod.ext hfound rfl)
      refine ⟨(hperm.cons x).trans (.swap m x _), hready, fun y hy hyready => ?_⟩
      rcases List.mem_cons.mp hy with rfl | hy
      · exact absurd hyready hnot
      · exact hle y hy hyready

/-! ## What an action does -/

/-- The live messages of a call, each with the number of its sends under way. -/
def ProcessCall.live (call : ProcessCall) : List (QueuedMessage × Nat) :=
  (match call.stage with
    | .holding m => [(m, 0)]
    | .sending m => [(m, 1)]
    | _ => []) ++ call.toRetry.map fun m => (m, 0)

def QueueState.live (s : QueueState) : List (QueuedMessage × Nat) :=
  (s.messages.map fun m => (m, 0)) ++ s.calls.flatMap ProcessCall.live

/-- The rest of the state. -/
def QueueState.past (s : QueueState) : Nat × List (Nat × SendOutcome) × List Nat × List Nat × List Nat :=
  (s.nextId, s.ended, s.sent, s.failed, s.dropped)

/-- The effect of an action on the live messages and on the past. -/
inductive Effect (config : QueueConfig) (s s' : QueueState) : Prop where
  | moved (hlive : s'.live.Perm s.live) (hpast : s'.past = s.past)
  | begun (m : QueuedMessage) (rest : List (QueuedMessage × Nat)) (hlive : s.live.Perm ((m, 0) :: rest))
    (hlive' : s'.live.Perm (({ m with attempts := m.attempts + 1 }, 1) :: rest)) (hpast : s'.past = s.past)
  | delivered (m : QueuedMessage) (rest : List (QueuedMessage × Nat))
    (hlive : s.live.Perm ((m, 1) :: rest)) (hlive' : s'.live.Perm rest)
    (hpast : s'.past = (s.nextId, s.ended ++ [(m.id, .sent)], s.sent ++ [m.id], s.failed, s.dropped))
  | limited (m : QueuedMessage) (retryAfter : Option Nat) (rest : List (QueuedMessage × Nat))
    (hlive : s.live.Perm ((m, 1) :: rest)) (hlive' : s'.live.Perm (({ m with retryAfter }, 0) :: rest))
    (hpast : s'.past = (s.nextId, s.ended ++ [(m.id, .rateLimited)], s.sent, s.failed, s.dropped))
  | retried (m : QueuedMessage) (retryAfter : Option Nat) (rest : List (QueuedMessage × Nat))
    (hlive : s.live.Perm ((m, 1) :: rest)) (hlive' : s'.live.Perm (({ m with retryAfter }, 0) :: rest))
    (hmore : m.attempts < m.maxAttempts)
    (hpast : s'.past = (s.nextId, s.ended ++ [(m.id, .failed)], s.sent, s.failed, s.dropped))
  | exhausted (m : QueuedMessage) (rest : List (QueuedMessage × Nat))
    (hlive : s.live.Perm ((m, 1) :: rest)) (hlive' : s'.live.Perm rest)
    (hmore : m.maxAttempts ≤ m.attempts)
    (hpast : s'.past = (s.nextId, s.ended ++ [(m.id, .failed)], s.sent, s.failed ++ [m.id], s.dropped))
  | enqueued (entry : QueuedMessage) (hentry : entry.attempts = 0 ∧ entry.maxAttempts = config.maxRetries ∧
      entry.id = s.nextId) (hlive' : s'.live.Perm ((entry, 0) :: s.live))
    (hpast : s'.past = (s.nextId + 1, s.ended, s.sent, s.failed, s.dropped))
  | displaced (entry m : QueuedMessage) (rest : List (QueuedMessage × Nat))
    (hentry : entry.attempts = 0 ∧ entry.maxAttempts = config.maxRetries ∧ entry.id = s.nextId)
    (hlive : s.live.Perm ((m, 0) :: rest)) (hlive' : s'.live.Perm ((entry, 0) :: rest))
    (hpast : s'.past = (s.nextId + 1, s.ended, s.sent, s.failed, s.dropped ++ [m.id]))

/-- A call that goes on changes its own live messages, and the queue. -/
theorem live_resume {index : Nat} {next : ProcessCall → Option (ProcessCall × QueueState)}
    (h : s.resume index next = some s') : ∃ call call' s₁ rest,
      next call = some (call', s₁) ∧ s'.past = s₁.past ∧ s'.messages = s₁.messages ∧
      s'.calls[index]? = some call' ∧ s.live.Perm (call.live ++ (s.messages.map fun m => (m, 0)) ++ rest) ∧
      s'.live.Perm (call'.live ++ (s'.messages.map fun m => (m, 0)) ++ rest) := by
  obtain ⟨⟨call', s₁⟩, hnext, rfl⟩ := Option.map_eq_some_iff.mp h
  obtain ⟨call, hcall, hnext⟩ := Option.bind_eq_some_iff.mp hnext
  obtain ⟨hlt, hget⟩ := List.getElem?_eq_some_iff.mp hcall
  have hsplit : s.calls = s.calls.take index ++ call :: s.calls.drop (index + 1) := by
    rw [← hget, List.getElem_cons_drop, List.take_append_drop]
  have hset : s.calls.set index call' = s.calls.take index ++ call' :: s.calls.drop (index + 1) :=
    List.set_eq_take_append_cons_drop.trans (if_pos hlt)
  have hperm (c : ProcessCall) (ms : List (QueuedMessage × Nat)) :
      (ms ++ (s.calls.take index ++ c :: s.calls.drop (index + 1)).flatMap ProcessCall.live).Perm
        (c.live ++ ms ++ (s.calls.take index ++ s.calls.drop (index + 1)).flatMap ProcessCall.live) := by
    rw [List.flatMap_append, List.flatMap_cons, List.flatMap_append, List.perm_iff_count]
    intro p
    simp only [List.count_append]
    omega
  have hlive := hperm call (s.messages.map fun m => (m, 0))
  rw [← hsplit] at hlive
  refine ⟨call, call', s₁, _, hnext, rfl, rfl, List.getElem?_set_self hlt, hlive, ?_⟩
  show ((s₁.messages.map fun m => (m, 0)) ++ (s.calls.set index call').flatMap ProcessCall.live).Perm _
  rw [hset]
  exact hperm call' _

/-- `take_ready_message` moves a message to the call. -/
theorem takeReadyMessage_cases {s₁ : QueueState} {canSend : Bool}
    (h : takeReadyMessage s now canSend order call = some (call', s₁)) : call.stage = .looping ∧
      ((call' = { call with stage := .finishing } ∧ s₁ = s) ∨
        ∃ m rest, call' = { call with stage := .holding m } ∧ s₁ = { s with messages := rest } ∧
          s.messages.Perm (m :: rest) ∧ m.isReady now = true ∧
          ∀ x ∈ s.messages, x.isReady now = true → x.priority.rank ≤ m.priority.rank) := by
  rw [takeReadyMessage] at h
  split at h
  · rename_i hstage
    obtain ⟨hstage, hperm, hsorted⟩ := hstage
    refine ⟨hstage, ?_⟩
    split at h
    · split at h
      · rename_i m rest hpop
        cases h
        obtain ⟨hpopped, hready, hle⟩ := popReady_spec hsorted hpop
        exact .inr ⟨m, rest, rfl, rfl, hperm.symm.trans hpopped, hready,
          fun x hx => hle x (hperm.mem_iff.mpr hx)⟩
      · cases h
        exact .inl ⟨rfl, rfl⟩
    · cases h
      exact .inl ⟨rfl, rfl⟩
  · cases h

theorem take_effect {index : Nat} {canSend : Bool}
    (h : s.resume index (takeReadyMessage s now canSend order) = some s') : Effect config s s' := by
  obtain ⟨call, call', s₁, rest, hnext, hpast, hmessages, -, hlive, hlive'⟩ := live_resume h
  obtain ⟨hstage, ⟨rfl, rfl⟩ | ⟨m, others, rfl, rfl, hperm, -, -⟩⟩ := takeReadyMessage_cases hnext
  · refine .moved (hlive'.trans (.trans ?_ hlive.symm)) hpast
    rw [hmessages, ProcessCall.live, ProcessCall.live, hstage]
  · have hmoved := hperm.map fun m => ((m, 0) : QueuedMessage × Nat)
    refine .moved (hlive'.trans (.trans ?_ hlive.symm)) hpast
    rw [hmessages, ProcessCall.live, ProcessCall.live, hstage, List.perm_iff_count]
    intro p
    have hcount := hmoved.count_eq p
    simp only [List.map_cons, List.count_cons, List.count_append, List.nil_append] at hcount ⊢
    simp only [List.count_nil]
    omega

theorem acquire_effect {index : Nat} {allowed : Bool}
    (h : s.resume index (acquireToken s allowed) = some s') : Effect config s s' := by
  obtain ⟨call, call', s₁, rest, hnext, hpast, hmessages, -, hlive, hlive'⟩ := live_resume h
  rw [acquireToken] at hnext
  split at hnext
  · rename_i m hstage
    rw [ProcessCall.live, hstage] at hlive
    split at hnext
    · cases hnext
      rw [hmessages] at hlive'
      exact .begun m _ hlive hlive' hpast
    · cases hnext
      refine .moved (hlive'.trans (.trans ?_ hlive.symm)) hpast
      rw [hmessages, ProcessCall.live, List.perm_iff_count]
      intro p
      simp only [List.map_append, List.map_cons, List.map_nil, List.count_cons, List.count_append,
        List.count_nil]
      omega
  · cases hnext

theorem deliver_effect {index : Nat} {resultId : String}
    (h : s.resume index (sendDelivered s resultId) = some s') : Effect config s s' := by
  obtain ⟨call, call', s₁, rest, hnext, hpast, hmessages, -, hlive, hlive'⟩ := live_resume h
  rw [sendDelivered] at hnext
  split at hnext
  · rename_i m hstage
    rw [ProcessCall.live, hstage] at hlive
    cases hnext
    rw [hmessages] at hlive'
    exact .delivered m _ hlive hlive' hpast
  · cases hnext

/-- A message that goes to the retries. -/
theorem perm_retry {retries : List QueuedMessage} (m : QueuedMessage)
    (xs ys : List (QueuedMessage × Nat)) : (((retries ++ [m]).map fun m => (m, 0)) ++ xs ++ ys).Perm
      ((m, 0) :: ((retries.map fun m => (m, 0)) ++ xs ++ ys)) := by
  rw [List.perm_iff_count]
  intro p
  simp only [List.map_append, List.map_cons, List.map_nil, List.count_cons, List.count_append,
    List.count_nil]
  omega

theorem rateLimit_effect {index cooldown retryAfter : Nat}
    (h : s.resume index (sendRateLimited s cooldown retryAfter) = some s') : Effect config s s' := by
  obtain ⟨call, call', s₁, rest, hnext, hpast, hmessages, -, hlive, hlive'⟩ := live_resume h
  rw [sendRateLimited] at hnext
  split at hnext
  · rename_i m hstage
    rw [ProcessCall.live, hstage] at hlive
    cases hnext
    rw [hmessages] at hlive'
    exact .limited m (some retryAfter) _ hlive (hlive'.trans (perm_retry _ _ _)) hpast
  · cases hnext

theorem fail_effect {index delay retryAfter : Nat} {error : String}
    (h : s.resume index (sendFailed s error delay retryAfter) = some s') : Effect config s s' := by
  obtain ⟨call, call', s₁, rest, hnext, hpast, hmessages, -, hlive, hlive'⟩ := live_resume h
  rw [sendFailed] at hnext
  split at hnext
  · rename_i m hstage
    rw [ProcessCall.live, hstage] at hlive
    dsimp only at hnext
    split at hnext
    · rename_i hmore
      cases hnext
      rw [hmessages] at hlive'
      exact .retried m (some retryAfter) _ hlive (hlive'.trans (perm_retry _ _ _)) hmore hpast
    · rename_i hmore
      cases hnext
      rw [hmessages] at hlive'
      exact .exhausted m _ hlive hlive' (Nat.le_of_not_lt hmore) hpast
  · cases hnext

theorem requeue_effect {index : Nat} (h : s.resume index (requeueRetries s) = some s') :
    Effect config s s' := by
  obtain ⟨call, call', s₁, rest, hnext, hpast, hmessages, -, hlive, hlive'⟩ := live_resume h
  rw [requeueRetries] at hnext
  split at hnext
  · rename_i hstage
    rw [ProcessCall.live, hstage] at hlive
    cases hnext
    refine .moved (hlive'.trans (.trans ?_ hlive.symm)) hpast
    rw [hmessages, ProcessCall.live, List.perm_iff_count]
    intro p
    simp only [List.map_append, List.map_nil, List.count_append, List.count_nil]
    omega
  · cases hnext

/-- Removing by id removes one message. -/
theorem perm_cons_filter {ms : List QueuedMessage} (hnd : (ms.map (·.id)).Nodup) (hm : m ∈ ms) :
    ms.Perm (m :: ms.filter (·.id ≠ m.id)) := by
  obtain ⟨before, after, rfl⟩ := List.append_of_mem hm
  rw [List.map_append, List.map_cons] at hnd
  have hrest := List.nodup_middle.mp hnd
  have hnot := (List.nodup_cons.mp hrest).1
  have hkept : (before ++ m :: after).filter (fun x => decide (x.id ≠ m.id)) = before ++ after := by
    rw [List.filter_append, List.filter_cons_of_neg (by simp), ← List.filter_append]
    refine List.filter_eq_self.mpr fun x hx => decide_eq_true fun heq => hnot ?_
    rw [← List.map_append, ← heq]
    exact List.mem_map_of_mem hx
  rw [hkept]
  exact List.perm_middle

theorem enqueue_cases {message : String} {priority : MessagePriority} {iteration : List QueuedMessage}
    (hperm : iteration.Perm s.messages) (hnd : (s.messages.map (·.id)).Nodup) :
    ∃ entry : QueuedMessage, (entry.attempts = 0 ∧ entry.maxAttempts = config.maxRetries ∧
        entry.id = s.nextId) ∧
      (s.enqueueWithPriority config message priority now iteration =
          { s with nextId := s.nextId + 1, messages := s.messages ++ [entry] } ∨
        config.maxQueueSize ≤ s.messages.length ∧ ∃ m rest, s.messages.Perm (m :: rest) ∧
          (∀ x ∈ s.messages, m.priority.rank ≤ x.priority.rank) ∧
          s.enqueueWithPriority config message priority now iteration =
            { s with
              nextId := s.nextId + 1
              messages := rest ++ [entry]
              dropped := s.dropped ++ [m.id] }) := by
  refine ⟨{ message, priority, queuedAt := now, maxAttempts := config.maxRetries, id := s.nextId },
    ⟨rfl, rfl, rfl⟩, ?_⟩
  rw [QueueState.enqueueWithPriority]
  dsimp only
  split
  · rename_i hfull
    split
    · rename_i m hmin
      obtain ⟨hmem, hle⟩ := minMessage_spec hmin
      exact .inr ⟨hfull, m, _, perm_cons_filter hnd (hperm.mem_iff.mp hmem),
        fun x hx => hle x (hperm.mem_iff.mpr hx), rfl⟩
    · exact .inl rfl
  · exact .inl rfl

/-- **What an action does.** -/
theorem step_effect {action : Action} (hnd : (s.messages.map (·.id)).Nodup)
    (h : step config s action = some s') : Effect config s s' := by
  cases action with
  | enqueue message priority now iteration =>
    rw [step] at h
    split at h
    · rename_i hperm
      cases h
      obtain ⟨entry, hentry, heq | ⟨-, m, rest, hrest, -, heq⟩⟩ :=
        @enqueue_cases config s now message priority iteration hperm hnd
      · rw [heq]
        refine .enqueued entry hentry ?_ rfl
        rw [QueueState.live, QueueState.live, List.map_append, List.append_assoc]
        exact List.perm_middle
      · rw [heq]
        refine .displaced entry m ((rest.map fun m => (m, 0)) ++ s.calls.flatMap ProcessCall.live) hentry
          ((hrest.map fun m => ((m, 0) : QueuedMessage × Nat)).append_right _) ?_ rfl
        rw [QueueState.live, List.map_append, List.append_assoc]
        exact List.perm_middle
    · cases h
  | start =>
    cases h
    refine .moved ?_ rfl
    rw [QueueState.live, QueueState.live, List.flatMap_append]
    exact .of_eq (by rw [List.flatMap_singleton]; exact congrArg _ (List.append_nil _))
  | take index now canSend order => exact take_effect h
  | acquire index allowed => exact acquire_effect h
  | deliver index resultId => exact deliver_effect h
  | rateLimit index cooldown retryAfter => exact rateLimit_effect h
  | fail index error delay retryAfter => exact fail_effect h
  | requeue index => exact requeue_effect h

/-! ## The invariant -/

/-- The ids of all messages that are accounted for. -/
def QueueState.accounts (s : QueueState) : List Nat :=
  s.live.map (·.1.id) ++ (s.sent ++ s.failed ++ s.dropped)

/-- A live message knows how often it was sent. -/
structure Tracked (config : QueueConfig) (s : QueueState) (p : QueuedMessage × Nat) : Prop where
  bound : p.1.maxAttempts = config.maxRetries
  attempts : p.1.attempts = (s.outcomes p.1.id).length + p.2
  unsettled : Unsettled config (s.outcomes p.1.id)

structure Inv (config : QueueConfig) (s : QueueState) : Prop where
  accounted : s.accounts.Perm (List.range s.nextId)
  live : ∀ p ∈ s.live, Tracked config s p
  sent : ∀ id ∈ s.sent, ∃ before, s.outcomes id = before ++ [.sent] ∧ Unsettled config before
  failed : ∀ id ∈ s.failed, ∃ before, s.outcomes id = before ++ [.failed] ∧ Unsettled config before ∧
    config.maxRetries ≤ before.length + 1
  dropped : ∀ id ∈ s.dropped, Unsettled config (s.outcomes id)
  ended : ∀ entry ∈ s.ended, entry.1 < s.nextId

theorem Unsettled.nil : Unsettled config [] := fun before outcome after heq => by simp at heq

theorem Unsettled.concat {outcomes : List SendOutcome} {outcome : SendOutcome}
    (h : Unsettled config outcomes)
    (hlast : outcome = .rateLimited ∨ outcome = .failed ∧ outcomes.length + 1 < config.maxRetries) :
    Unsettled config (outcomes ++ [outcome]) := by
  intro before o after heq
  rcases List.eq_nil_or_concat after with rfl | ⟨init, final, rfl⟩
  · obtain ⟨rfl, hout⟩ := List.append_inj' heq rfl
    obtain rfl : outcome = o := List.head_eq_of_cons_eq hout
    exact hlast
  · rw [List.concat_eq_append, ← List.cons_append, ← List.append_assoc] at heq
    obtain ⟨hinit, -⟩ := List.append_inj' heq rfl
    exact h before o init hinit

theorem Inv.nodup (h : Inv config s) : s.accounts.Nodup :=
  h.accounted.nodup_iff.mpr List.nodup_range

theorem messages_nodup (h : s.accounts.Nodup) : (s.messages.map (·.id)).Nodup := by
  refine h.sublist (List.Sublist.trans ?_ (List.sublist_append_left _ _))
  rw [QueueState.live, List.map_append, List.map_map]
  exact List.sublist_append_left _ _

theorem outcomes_ended {id : Nat} {outcome : SendOutcome} (hended : s'.ended = s.ended ++ [(m.id, outcome)]) :
    s'.outcomes id = if m.id = id then s.outcomes id ++ [outcome] else s.outcomes id := by
  rw [QueueState.outcomes, QueueState.outcomes, hended, List.filterMap_append]
  by_cases heq : m.id = id
  · simp [heq]
  · simp [heq]

theorem outcomes_same {id : Nat} (hended : s'.ended = s.ended) : s'.outcomes id = s.outcomes id := by
  rw [QueueState.outcomes, QueueState.outcomes, hended]

theorem Tracked.same {p : QueuedMessage × Nat} (h : Tracked config s p) (hended : s'.ended = s.ended) :
    Tracked config s' p := by
  refine ⟨h.bound, ?_, ?_⟩
  · rw [outcomes_same hended]
    exact h.attempts
  · rw [outcomes_same hended]
    exact h.unsettled

/-- A new message has no sends. -/
theorem Inv.outcomes_fresh (h : Inv config s) : s.outcomes s.nextId = [] := by
  refine List.filterMap_eq_nil_iff.mpr fun entry hentry => if_neg ?_
  exact (h.ended entry hentry).ne

/-- The past of a state, part by part. -/
theorem past_eq {nextId : Nat} {ended : List (Nat × SendOutcome)} {sent failed dropped : List Nat}
    (h : s.past = (nextId, ended, sent, failed, dropped)) : s.nextId = nextId ∧ s.ended = ended ∧
      s.sent = sent ∧ s.failed = failed ∧ s.dropped = dropped := by
  simpa only [QueueState.past, Prod.mk.injEq] using h

/-- No other message has the id of a live one. -/
theorem Inv.others_ne (h : Inv config s) {k : Nat} {rest : List (QueuedMessage × Nat)}
    (hlive : s.live.Perm ((m, k) :: rest)) : (∀ p ∈ rest, p.1.id ≠ m.id) ∧ (∀ id ∈ s.sent, id ≠ m.id) ∧
      (∀ id ∈ s.failed, id ≠ m.id) ∧ ∀ id ∈ s.dropped, id ≠ m.id := by
  have hperm : s.accounts.Perm (m.id :: (rest.map (·.1.id) ++ (s.sent ++ s.failed ++ s.dropped))) :=
    (hlive.map fun p : QueuedMessage × Nat => p.1.id).append_right _
  have hnot := (List.nodup_cons.mp (hperm.nodup_iff.mp h.nodup)).1
  have hne {id : Nat} (hid : id ∈ rest.map (·.1.id) ++ (s.sent ++ s.failed ++ s.dropped)) :
      id ≠ m.id := fun heq => hnot (heq ▸ hid)
  refine ⟨fun p hp => hne ?_, fun id hid => hne ?_, fun id hid => hne ?_, fun id hid => hne ?_⟩
  · exact List.mem_append_left _ (List.mem_map_of_mem hp)
  · exact List.mem_append_right _ (List.mem_append_left _ (List.mem_append_left _ hid))
  · exact List.mem_append_right _ (List.mem_append_left _ (List.mem_append_right _ hid))
  · exact List.mem_append_right _ (List.mem_append_right _ hid)

/-- What the end of a send leaves as it was. -/
structure Elsewhere (config : QueueConfig) (s s' : QueueState) (rest : List (QueuedMessage × Nat)) :
    Prop where
  live : ∀ p ∈ rest, Tracked config s' p
  sent : ∀ id ∈ s.sent, ∃ before, s'.outcomes id = before ++ [.sent] ∧ Unsettled config before
  failed : ∀ id ∈ s.failed, ∃ before, s'.outcomes id = before ++ [.failed] ∧ Unsettled config before ∧
    config.maxRetries ≤ before.length + 1
  dropped : ∀ id ∈ s.dropped, Unsettled config (s'.outcomes id)
  ended : ∀ entry ∈ s'.ended, entry.1 < s.nextId

/-- The end of a send, seen from the other messages and from its own. -/
theorem Inv.ends (h : Inv config s) {outcome : SendOutcome} {rest : List (QueuedMessage × Nat)}
    (hlive : s.live.Perm ((m, 1) :: rest)) (hended : s'.ended = s.ended ++ [(m.id, outcome)]) :
    Elsewhere config s s' rest ∧ Tracked config s (m, 1) ∧
      s'.outcomes m.id = s.outcomes m.id ++ [outcome] := by
  obtain ⟨hrest, hsent, hfailed, hdropped⟩ := h.others_ne hlive
  have hown : s'.outcomes m.id = s.outcomes m.id ++ [outcome] := by
    rw [outcomes_ended hended, if_pos rfl]
  have hother {id : Nat} (hne : id ≠ m.id) : s'.outcomes id = s.outcomes id := by
    rw [outcomes_ended hended, if_neg (Ne.symm hne)]
  have hm : (m, 1) ∈ s.live := hlive.mem_iff.mpr List.mem_cons_self
  refine ⟨⟨fun p hp => ?_, fun id hid => ?_, fun id hid => ?_, fun id hid => ?_, fun entry hentry => ?_⟩,
    h.live _ hm, hown⟩
  · have htracked := h.live p (hlive.mem_iff.mpr (List.mem_cons_of_mem _ hp))
    refine ⟨htracked.bound, ?_, ?_⟩
    · rw [hother (hrest p hp)]
      exact htracked.attempts
    · rw [hother (hrest p hp)]
      exact htracked.unsettled
  · rw [hother (hsent id hid)]
    exact h.sent id hid
  · rw [hother (hfailed id hid)]
    exact h.failed id hid
  · rw [hother (hdropped id hid)]
    exact h.dropped id hid
  · rw [hended] at hentry
    rcases List.mem_append.mp hentry with hentry | hentry
    · exact h.ended entry hentry
    · rw [List.mem_singleton.mp hentry]
      refine List.mem_range.mp (h.accounted.mem_iff.mp ?_)
      exact List.mem_append_left _ (List.mem_map_of_mem hm)

theorem accounts_count (s : QueueState) (id : Nat) : s.accounts.count id =
    (s.live.map (·.1.id)).count id + (s.sent.count id + s.failed.count id + s.dropped.count id) := by
  rw [QueueState.accounts, List.count_append, List.count_append, List.count_append]

/-- Every effect keeps the account. -/
theorem accounts_effect (h : s.accounts.Perm (List.range s.nextId)) (heffect : Effect config s s') :
    s'.accounts.Perm (List.range s'.nextId) := by
  have hid {xs ys : List (QueuedMessage × Nat)} (id : Nat) (hperm : xs.Perm ys) :
      (xs.map (·.1.id)).count id = (ys.map (·.1.id)).count id := (hperm.map _).count_eq id
  rw [List.perm_iff_count]
  intro id
  have hcount := h.count_eq id
  rw [accounts_count] at hcount ⊢
  cases heffect with
  | moved hlive hpast =>
    obtain ⟨hnext, -, hsent, hfailed, hdropped⟩ := past_eq hpast
    rw [hid id hlive, hsent, hfailed, hdropped, hnext, hcount]
  | begun m rest hlive hlive' hpast =>
    obtain ⟨hnext, -, hsent, hfailed, hdropped⟩ := past_eq hpast
    rw [hid id hlive] at hcount
    rw [hid id hlive', hsent, hfailed, hdropped, hnext, ← hcount]
    rfl
  | delivered m rest hlive hlive' hpast =>
    obtain ⟨hnext, -, hsent, hfailed, hdropped⟩ := past_eq hpast
    rw [hid id hlive, List.map_cons, List.count_cons] at hcount
    rw [hid id hlive', hsent, hfailed, hdropped, hnext, ← hcount, List.count_append,
      List.count_singleton]
    dsimp only at hcount ⊢
    omega
  | limited m retryAfter rest hlive hlive' hpast =>
    obtain ⟨hnext, -, hsent, hfailed, hdropped⟩ := past_eq hpast
    rw [hid id hlive] at hcount
    rw [hid id hlive', hsent, hfailed, hdropped, hnext, ← hcount]
    rfl
  | retried m retryAfter rest hlive hlive' hmore hpast =>
    obtain ⟨hnext, -, hsent, hfailed, hdropped⟩ := past_eq hpast
    rw [hid id hlive] at hcount
    rw [hid id hlive', hsent, hfailed, hdropped, hnext, ← hcount]
    rfl
  | exhausted m rest hlive hlive' hmore hpast =>
    obtain ⟨hnext, -, hsent, hfailed, hdropped⟩ := past_eq hpast
    rw [hid id hlive, List.map_cons, List.count_cons] at hcount
    rw [hid id hlive', hsent, hfailed, hdropped, hnext, ← hcount, List.count_append,
      List.count_singleton]
    dsimp only at hcount ⊢
    omega
  | enqueued entry hentry hlive' hpast =>
    obtain ⟨hnext, -, hsent, hfailed, hdropped⟩ := past_eq hpast
    rw [hid id hlive', hsent, hfailed, hdropped, hnext, List.range_succ, List.count_append,
      List.count_singleton, ← hcount, List.map_cons, List.count_cons, hentry.2.2]
    omega
  | displaced entry m rest hentry hlive hlive' hpast =>
    obtain ⟨hnext, -, hsent, hfailed, hdropped⟩ := past_eq hpast
    rw [hid id hlive, List.map_cons, List.count_cons] at hcount
    rw [hid id hlive', hsent, hfailed, hdropped, hnext, List.range_succ, List.count_append,
      List.count_append, List.count_singleton, List.count_singleton, ← hcount, List.map_cons,
      List.count_cons, hentry.2.2]
    dsimp only at hcount ⊢
    omega

/-- An effect without the end of a send. -/
theorem Inv.same (h : Inv config s) (heffect : Effect config s s') (hended : s'.ended = s.ended)
    (hsent : s'.sent = s.sent) (hfailed : s'.failed = s.failed) (hnext : s.nextId ≤ s'.nextId)
    (hlive : ∀ p ∈ s'.live, Tracked config s p)
    (hdropped : ∀ id ∈ s'.dropped, Unsettled config (s.outcomes id)) : Inv config s' where
  accounted := accounts_effect h.accounted heffect
  live p hp := (hlive p hp).same hended
  sent id hid := by
    rw [outcomes_same hended]
    exact h.sent id (hsent ▸ hid)
  failed id hid := by
    rw [outcomes_same hended]
    exact h.failed id (hfailed ▸ hid)
  dropped id hid := by
    rw [outcomes_same hended]
    exact hdropped id hid
  ended entry hentry := (h.ended entry (hended ▸ hentry)).trans_le hnext

/-- A new message. -/
theorem Inv.entry (h : Inv config s) {entry : QueuedMessage}
    (hentry : entry.attempts = 0 ∧ entry.maxAttempts = config.maxRetries ∧ entry.id = s.nextId) :
    Tracked config s (entry, 0) := by
  obtain ⟨hattempts, hmax, hid⟩ := hentry
  refine ⟨hmax, ?_, ?_⟩
  · rw [hattempts, hid, h.outcomes_fresh]
    rfl
  · rw [hid, h.outcomes_fresh]
    exact .nil

/-- A send whose message is put back. -/
theorem Inv.putBack (h : Inv config s) (heffect : Effect config s s') {outcome : SendOutcome}
    {retryAfter : Option Nat} {rest : List (QueuedMessage × Nat)} (hlive : s.live.Perm ((m, 1) :: rest))
    (hlive' : s'.live.Perm (({ m with retryAfter }, 0) :: rest))
    (hpast : s'.past = (s.nextId, s.ended ++ [(m.id, outcome)], s.sent, s.failed, s.dropped))
    (hlast : outcome = .rateLimited ∨ outcome = .failed ∧ (s.outcomes m.id).length + 1 < config.maxRetries) :
    Inv config s' := by
  obtain ⟨hnext, hended, hsent, hfailed, hdropped⟩ := past_eq hpast
  obtain ⟨helse, htracked, hown⟩ := h.ends hlive hended
  refine ⟨accounts_effect h.accounted heffect, fun p hp => ?_, hsent ▸ helse.sent,
    hfailed ▸ helse.failed, hdropped ▸ helse.dropped, hnext ▸ helse.ended⟩
  rcases List.mem_cons.mp (hlive'.mem_iff.mp hp) with rfl | hp
  · refine ⟨htracked.bound, ?_, ?_⟩
    · rw [hown, List.length_append]
      exact htracked.attempts
    · rw [hown]
      exact htracked.unsettled.concat hlast
  · exact helse.live p hp

theorem Inv.effect (h : Inv config s) (heffect : Effect config s s') : Inv config s' := by
  have heffect' := heffect
  cases heffect with
  | moved hlive hpast =>
    obtain ⟨hnext, hended, hsent, hfailed, hdropped⟩ := past_eq hpast
    exact h.same heffect' hended hsent hfailed hnext.ge (fun p hp => h.live p (hlive.mem_iff.mp hp))
      (hdropped ▸ h.dropped)
  | begun m rest hlive hlive' hpast =>
    obtain ⟨hnext, hended, hsent, hfailed, hdropped⟩ := past_eq hpast
    refine h.same heffect' hended hsent hfailed hnext.ge (fun p hp => ?_) (hdropped ▸ h.dropped)
    rcases List.mem_cons.mp (hlive'.mem_iff.mp hp) with rfl | hp
    · have htracked := h.live (m, 0) (hlive.mem_iff.mpr List.mem_cons_self)
      exact ⟨htracked.bound, congrArg (· + 1) htracked.attempts, htracked.unsettled⟩
    · exact h.live p (hlive.mem_iff.mpr (List.mem_cons_of_mem _ hp))
  | delivered m rest hlive hlive' hpast =>
    obtain ⟨hnext, hended, hsent, hfailed, hdropped⟩ := past_eq hpast
    obtain ⟨helse, htracked, hown⟩ := h.ends hlive hended
    refine ⟨accounts_effect h.accounted heffect', fun p hp => helse.live p (hlive'.mem_iff.mp hp),
      fun id hid => ?_, hfailed ▸ helse.failed, hdropped ▸ helse.dropped, hnext ▸ helse.ended⟩
    rw [hsent] at hid
    rcases List.mem_append.mp hid with hid | hid
    · exact helse.sent id hid
    · rw [List.mem_singleton.mp hid]
      exact ⟨_, hown, htracked.unsettled⟩
  | limited m retryAfter rest hlive hlive' hpast =>
    exact h.putBack heffect' hlive hlive' hpast (.inl rfl)
  | retried m retryAfter rest hlive hlive' hmore hpast =>
    have htracked := h.live (m, 1) (hlive.mem_iff.mpr List.mem_cons_self)
    refine h.putBack heffect' hlive hlive' hpast (.inr ⟨rfl, ?_⟩)
    rw [← htracked.bound, ← htracked.attempts]
    exact hmore
  | exhausted m rest hlive hlive' hmore hpast =>
    obtain ⟨hnext, hended, hsent, hfailed, hdropped⟩ := past_eq hpast
    obtain ⟨helse, htracked, hown⟩ := h.ends hlive hended
    refine ⟨accounts_effect h.accounted heffect', fun p hp => helse.live p (hlive'.mem_iff.mp hp),
      hsent ▸ helse.sent, fun id hid => ?_, hdropped ▸ helse.dropped, hnext ▸ helse.ended⟩
    rw [hfailed] at hid
    rcases List.mem_append.mp hid with hid | hid
    · exact helse.failed id hid
    · rw [List.mem_singleton.mp hid]
      refine ⟨_, hown, htracked.unsettled, ?_⟩
      rw [← htracked.bound, ← htracked.attempts]
      exact hmore
  | enqueued entry hentry hlive' hpast =>
    obtain ⟨hnext, hended, hsent, hfailed, hdropped⟩ := past_eq hpast
    refine h.same heffect' hended hsent hfailed (by omega) (fun p hp => ?_) (hdropped ▸ h.dropped)
    rcases List.mem_cons.mp (hlive'.mem_iff.mp hp) with rfl | hp
    · exact h.entry hentry
    · exact h.live p hp
  | displaced entry m rest hentry hlive hlive' hpast =>
    obtain ⟨hnext, hended, hsent, hfailed, hdropped⟩ := past_eq hpast
    refine h.same heffect' hended hsent hfailed (by omega) (fun p hp => ?_) fun id hid => ?_
    · rcases List.mem_cons.mp (hlive'.mem_iff.mp hp) with rfl | hp
      · exact h.entry hentry
      · exact h.live p (hlive.mem_iff.mpr (List.mem_cons_of_mem _ hp))
    · rw [hdropped] at hid
      rcases List.mem_append.mp hid with hid | hid
      · exact h.dropped id hid
      · rw [List.mem_singleton.mp hid]
        exact (h.live (m, 0) (hlive.mem_iff.mpr List.mem_cons_self)).unsettled

theorem Reachable.inv (h : Reachable config s) : Inv config s := by
  induction h with
  | start =>
    exact ⟨.refl _, fun p hp => absurd hp List.not_mem_nil, fun id hid => absurd hid List.not_mem_nil,
      fun id hid => absurd hid List.not_mem_nil, fun id hid => absurd hid List.not_mem_nil,
      fun entry hentry => absurd hentry List.not_mem_nil⟩
  | step action _ hstep ih => exact ih.effect (step_effect (messages_nodup ih.nodup) hstep)

/-! ## The result -/

/-- The live messages are the waiting ones and those in flight. -/
theorem live_messages (s : QueueState) : (s.live.map (·.1)).Perm (s.messages ++ s.inFlight) := by
  have hcalls (calls : List ProcessCall) :
      (calls.flatMap ProcessCall.live).map (·.1) = calls.flatMap ProcessCall.inFlight := by
    rw [List.map_flatMap]
    refine List.flatMap_congr fun call _ => ?_
    rw [ProcessCall.live, ProcessCall.inFlight, List.map_append, List.map_map]
    cases call.stage with
    | looping => exact congrArg _ (List.map_id _)
    | holding m => exact congrArg (m :: ·) (List.map_id _)
    | sending m => exact congrArg (m :: ·) (List.map_id _)
    | finishing => exact congrArg _ (List.map_id _)
    | returned => exact congrArg _ (List.map_id _)
  rw [QueueState.live, List.map_append, hcalls, List.map_map]
  exact .of_eq (congrArg (· ++ _) (List.map_id _))

theorem Inv.accounted_iff (h : Inv config s) : Accounted s := by
  have hids := (live_messages s).map fun m : QueuedMessage => m.id
  rw [List.map_map, List.map_append] at hids
  have hperm := (hids.append_right (s.sent ++ s.failed ++ s.dropped)).symm.trans h.accounted
  rw [Accounted]
  simpa only [List.append_assoc] using hperm

theorem Inv.fates (h : Inv config s) : Fates config s := by
  refine ⟨fun m hm => ?_, h.sent, h.failed, h.dropped⟩
  obtain ⟨p, hp, rfl⟩ := List.mem_map.mp ((live_messages s).mem_iff.mpr hm)
  exact (h.live p hp).unsettled

theorem dropsLowest (hnd : (s.messages.map (·.id)).Nodup) : DropsLowest config s := by
  intro message priority now iteration s' h
  rw [step] at h
  split at h
  · rename_i hperm
    cases h
    obtain ⟨entry, -, heq | ⟨hfull, m, rest, hrest, hle, heq⟩⟩ :=
      @enqueue_cases config s now message priority iteration hperm hnd
    · rw [heq]
      exact .inl rfl
    · rw [heq]
      exact .inr ⟨hfull, m, hrest.mem_iff.mpr List.mem_cons_self, rfl, hle⟩
  · cases h

theorem takesHighest : TakesHighest config s := by
  intro index now canSend order s' call m h hcall hholding
  obtain ⟨call₀, call', s₁, rest, hnext, -, -, hget, -, -⟩ := live_resume h
  obtain rfl : call' = call := Option.some.inj (hget.symm.trans hcall)
  obtain ⟨-, ⟨rfl, -⟩ | ⟨m', others, rfl, -, hperm, hready, hle⟩⟩ := takeReadyMessage_cases hnext
  · cases hholding
  · cases hholding
    exact ⟨hperm.mem_iff.mpr List.mem_cons_self, hready, hle⟩

/-- **Main result.** In every state that any interleaving reaches, every message is in exactly one place,
stands as its sends have ended, and what is dropped next and taken next is what priority says. -/
theorem queue_accounts (config : QueueConfig) (s : QueueState) (h : Reachable config s) :
    Accounted s ∧ Fates config s ∧ DropsLowest config s ∧ TakesHighest config s :=
  ⟨h.inv.accounted_iff, h.inv.fates, dropsLowest (messages_nodup h.inv.nodup), takesHighest⟩

/-! ## Four runs -/

def sampleConfig (maxQueueSize : Nat) : QueueConfig := ⟨maxQueueSize, 2⟩

def sampleMessage (id : Nat) (priority : MessagePriority) : QueuedMessage :=
  { message := "build finished", priority, queuedAt := id, maxAttempts := 2, id }

def sampleEnqueue (id : Nat) (priority : MessagePriority) (iteration : List QueuedMessage) : Action :=
  .enqueue "build finished" priority id iteration

/-- A message is rate limited, and fails in the next call. -/
def limitedThenFailed : List Action :=
  [sampleEnqueue 0 .normal [], .start, .take 0 1 true [sampleMessage 0 .normal], .acquire 0 true,
    .rateLimit 0 5 6, .requeue 0, .start,
    .take 1 7 true [{ sampleMessage 0 .normal with attempts := 1, retryAfter := some 6 }],
    .acquire 1 true, .fail 1 "timeout" 2 9]

theorem queue_accounts_sample : ∃ s, runFrom (sampleConfig 10) {} limitedThenFailed = some s ∧
    Accounted s ∧ Fates (sampleConfig 10) s ∧ DropsLowest (sampleConfig 10) s ∧ TakesHighest (sampleConfig 10) s := by
  have hrun : (runFrom (sampleConfig 10) {} limitedThenFailed).isSome = true := by decide
  obtain ⟨s, hs⟩ := Option.isSome_iff_exists.mp hrun
  exact ⟨s, hs, queue_accounts (sampleConfig 10) s (Reachable.runFrom _ .start hs)⟩

/-- The state that a run reaches, known by what is read from it. -/
theorem exists_reachable {α : Type} {actions : List Action} {read : QueueState → α} {a : α}
    (h : (runFrom config {} actions).map read = some a) : ∃ s, Reachable config s ∧ read s = a := by
  obtain ⟨s, hs, hread⟩ := Option.map_eq_some_iff.mp h
  exact ⟨s, .runFrom _ .start hs, hread⟩

/-- Rate-limited sends count as attempts; a message that is put back goes in unchecked; a message of low
priority drives out an urgent one; a message is sent while a more urgent one waits that came after the
taking. -/
theorem queue_defects :
    (¬ ∀ config s, Reachable config s → ∀ id ∈ s.failed,
      (s.outcomes id).countP (· ≠ .rateLimited) = config.maxRetries) ∧
    (¬ ∀ config s, Reachable config s → s.messages.length ≤ config.maxQueueSize) ∧
    (¬ ∀ config s, Reachable config s → ∀ message priority now iteration s',
      step config s (.enqueue message priority now iteration) = some s' →
        ∀ m ∈ s.messages, s'.dropped = s.dropped ++ [m.id] → m.priority.rank ≤ priority.rank) ∧
    (¬ ∀ config s, Reachable config s → ∀ index s' m, step config s (.acquire index true) = some s' →
      (s.calls[index]?).map (·.stage) = some (.holding m) →
        ∀ waiting ∈ s.messages, waiting.retryAfter = none → waiting.priority.rank ≤ m.priority.rank) := by
  refine ⟨fun h => ?_, fun h => ?_, fun h => ?_, fun h => ?_⟩
  · have hrun : (runFrom (sampleConfig 10) {} limitedThenFailed).map
        (fun s => (s.failed, s.outcomes 0)) = some ([0], [.rateLimited, .failed]) := by decide
    obtain ⟨s, hs, hread⟩ := exists_reachable hrun
    obtain ⟨hfailed, houtcomes⟩ := Prod.mk.inj hread
    have hcount := h _ s hs 0 (hfailed ▸ List.mem_singleton.mpr rfl)
    rw [houtcomes] at hcount
    exact absurd hcount (by decide)
  · have hrun : (runFrom (sampleConfig 1) {} [sampleEnqueue 0 .normal [], .start,
        .take 0 1 true [sampleMessage 0 .normal], sampleEnqueue 1 .normal [],
        .acquire 0 false]).map (·.messages.length) = some 2 := by decide
    obtain ⟨s, hs, hlength⟩ := exists_reachable hrun
    have hle := h _ s hs
    rw [hlength] at hle
    exact absurd hle (by decide)
  · have hrun : (runFrom (sampleConfig 1) {} [sampleEnqueue 0 .urgent []]).map
        (fun s => (s, step (sampleConfig 1) s (sampleEnqueue 1 .low [sampleMessage 0 .urgent]))) =
        some ({ messages := [sampleMessage 0 .urgent], nextId := 1 },
          some { messages := [sampleMessage 1 .low], nextId := 2, dropped := [0] }) := by decide
    obtain ⟨s, hs, hread⟩ := exists_reachable hrun
    obtain ⟨rfl, hstep⟩ := Prod.mk.inj hread
    exact absurd (h _ _ hs _ _ _ _ _ hstep (sampleMessage 0 .urgent) (List.mem_singleton.mpr rfl) rfl)
      (by decide)
  · have hrun : (runFrom (sampleConfig 10) {} [sampleEnqueue 0 .low [], .start,
        .take 0 1 true [sampleMessage 0 .low], sampleEnqueue 1 .urgent []]).map
        (fun s => (s.messages, (s.calls[0]?).map (·.stage),
          (step (sampleConfig 10) s (.acquire 0 true)).isSome)) =
        some ([sampleMessage 1 .urgent], some (.holding (sampleMessage 0 .low)), true) := by
      decide
    obtain ⟨s, hs, hread⟩ := exists_reachable hrun
    obtain ⟨hmessages, hread⟩ := Prod.mk.inj hread
    obtain ⟨hholding, hsome⟩ := Prod.mk.inj hread
    obtain ⟨s', hstep⟩ := Option.isSome_iff_exists.mp hsome
    have hle := h _ s hs 0 s' _ hstep hholding (sampleMessage 1 .urgent)
      (hmessages ▸ List.mem_singleton.mpr rfl) rfl
    exact absurd hle (by decide)

end Nanna.Channels
