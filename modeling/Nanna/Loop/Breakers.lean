import Nanna.Loop.Repeats

/-!
# The breakers refuse proven repeats

`proven_iff`: in every state of a run the breakers refuse only calls whose last three executions all
failed, or all succeeded with the same content, with no other successful side-effecting call since the
batch of the last of them, exactly when every batch is sound (`BatchSound`): where a streak is complete
at the end of a batch, no successful side-effecting call of the batch is noted before its last
execution. That execution ran beside such a call, but it is noted with the epoch after it
(`write_before_read`).

The ledger is a fold over the executions in list order, so a streak is a streak of the executions of its
shape (`entry_tracks`), and an epoch is current exactly when no successful side-effecting call comes
after the execution that it was noted with (`inner_noted`).
-/

namespace Nanna.Loop

open Nanna.Lib

variable {env : RepeatEnv} {history calls earlier tail : List ToolCall} {call : ToolCall} {key : Text}
  {ledger : RepeatLedger} {entry : RepeatCallState} {batches : List (List ToolCall)} {run : RepeatRun}

/-! ## What is claimed -/

/-- The executions of a shape. -/
def shapeCalls (env : RepeatEnv) (key : Text) (history : List ToolCall) : List ToolCall :=
  history.filter (·.shape env = key)

def LastThree (calls : List ToolCall) (p : ToolCall → Prop) : Prop :=
  ∃ tail, tail <:+ calls ∧ tail.length = 3 ∧ ∀ call ∈ tail, p call

def Failed (call : ToolCall) : Prop := call.result.success = false

def Succeeded (content : Text) (call : ToolCall) : Prop :=
  call.result.success = true ∧ call.result.content = content

/-- No successful side-effecting call. -/
def Quiet (calls : List ToolCall) : Prop := ∀ call ∈ calls, call.changesWorld = false

/-- The last execution of a shape, in its batch. -/
abbrev LastOf (env : RepeatEnv) (key : Text) (calls pre : List ToolCall) (last : ToolCall)
    (post : List ToolCall) : Prop :=
  LastAt (fun call => call.shape env = key) calls pre last post

/-- No other successful side-effecting call in the batch of the last execution of the shape, or later. -/
def Undisturbed (env : RepeatEnv) (key : Text) (batches : List (List ToolCall)) : Prop :=
  ∃ before calls after pre last post, batches = before ++ calls :: after ∧
    LastOf env key calls pre last post ∧ (∀ call ∈ after.flatten, call.shape env ≠ key) ∧
    Quiet pre ∧ Quiet post ∧ Quiet after.flatten

/-- What the breakers refuse in this state is a proven repeat. -/
structure ProvenRepeats (env : RepeatEnv) (run : RepeatRun) : Prop where
  failing : ∀ call failures lastError,
    breakerNotice env run.ledger call = some (.repeatFailure failures lastError) →
      LastThree (shapeCalls env (call.shape env) run.executed.flatten) Failed ∧
        Undisturbed env (call.shape env) run.executed
  idle : ∀ call repeats excerpt fullLen,
    breakerNotice env run.ledger call = some (.zeroInformation repeats excerpt fullLen) →
      (∃ content, LastThree (shapeCalls env (call.shape env) run.executed.flatten) (Succeeded content)) ∧
        Undisturbed env (call.shape env) run.executed
  exclusive : ∀ key entry, run.ledger.inner key = some entry →
    entry.failureCount = 0 ∨ entry.identicalSuccessCount = 0

/-! ## The condition -/

/-- A success whose content has this hash. -/
def SucceededHash (env : RepeatEnv) (hash : UInt64) (call : ToolCall) : Prop :=
  call.result.success = true ∧ env.resultContentHash call.result.content = hash

/-- A streak that the breakers act on. -/
def Streak (env : RepeatEnv) (calls : List ToolCall) : Prop :=
  LastThree calls Failed ∨ ∃ hash, LastThree calls (SucceededHash env hash)

/-- Where a streak is complete and no successful side-effecting call comes after its last execution,
none comes before it in the batch, and the hash has told its contents apart. -/
def BatchSound (env : RepeatEnv) (earlier calls : List ToolCall) : Prop :=
  ∀ key pre last post, LastOf env key calls pre last post → Quiet post →
    Streak env (shapeCalls env key (earlier ++ calls)) →
      Quiet pre ∧ ∀ hash, LastThree (shapeCalls env key (earlier ++ calls)) (SucceededHash env hash) →
        ∃ content, LastThree (shapeCalls env key (earlier ++ calls)) (Succeeded content)

/-! ## Streaks of an entry -/

instance : DecidablePred Failed := fun call => inferInstanceAs (Decidable (call.result.success = false))

instance (hash : UInt64) : DecidablePred (SucceededHash env hash) := fun _ =>
  inferInstanceAs (Decidable (_ ∧ _))

theorem lastThree_iff {p : ToolCall → Prop} [DecidablePred p] :
    LastThree calls p ↔ 3 ≤ streak (fun call => decide (p call)) calls := by
  rw [le_streak_iff, LastThree]
  simp only [decide_eq_true_eq]

/-- An entry counts the executions of its shape. -/
structure Tracks (env : RepeatEnv) (calls : List ToolCall) (entry : RepeatCallState) : Prop where
  failures : entry.failureCount = streak (fun call => decide (Failed call)) calls
  successes : ∀ hash, entry.lastSuccessHash = some hash →
    entry.identicalSuccessCount = streak (fun call => decide (SucceededHash env hash call)) calls
  others : ∀ hash, entry.lastSuccessHash ≠ some hash →
    streak (fun call => decide (SucceededHash env hash call)) calls = 0
  unhashed : entry.lastSuccessHash = none → entry.identicalSuccessCount = 0
  exclusive : entry.failureCount = 0 ∨ entry.lastSuccessHash = none

theorem Tracks.nil : Tracks env [] {} where
  failures := rfl
  successes := nofun
  others _ _ := rfl
  unhashed _ := rfl
  exclusive := .inl rfl

/-- A success. -/
theorem streak_success (hsuccess : call.result.success = true) (hash : UInt64) :
    streak (fun call => decide (Failed call)) (calls ++ [call]) = 0 ∧
      streak (fun call => decide (SucceededHash env hash call)) (calls ++ [call]) =
        if env.resultContentHash call.result.content = hash then
          streak (fun call => decide (SucceededHash env hash call)) calls + 1
        else 0 := by
  simp only [streak_concat, Failed, SucceededHash, hsuccess, true_and, decide_eq_true_eq,
    Bool.true_eq_false, if_false, and_self]

/-- A failure. -/
theorem streak_failure (hfailed : call.result.success = false) (hash : UInt64) :
    streak (fun call => decide (Failed call)) (calls ++ [call]) =
        streak (fun call => decide (Failed call)) calls + 1 ∧
      streak (fun call => decide (SucceededHash env hash call)) (calls ++ [call]) = 0 := by
  simp only [streak_concat, Failed, SucceededHash, hfailed, decide_eq_true_eq, Bool.false_eq_true,
    false_and, if_false, if_true, and_self]

theorem Tracks.note (h : Tracks env calls entry) (call : ToolCall) (epoch : Nat) :
    Tracks env (calls ++ [call]) (entry.note env call.result epoch) := by
  rw [RepeatCallState.note]
  split
  · rename_i hsuccess
    have hstreak := fun hash => @streak_success env calls call hsuccess hash
    dsimp only
    split
    · rename_i hlast
      refine ⟨(hstreak 0).1.symm, fun hash hhash => ?_, fun hash hhash => ?_, ?_, .inl rfl⟩
      · obtain rfl : env.resultContentHash call.result.content = hash :=
          Option.some.inj (hlast.symm.trans hhash)
        rw [(hstreak _).2, if_pos rfl, h.successes _ hlast]
      · have hne : env.resultContentHash call.result.content ≠ hash := fun heq => hhash (heq ▸ hlast)
        rw [(hstreak hash).2, if_neg hne]
      · exact fun hnone => absurd (hlast.symm.trans hnone) (Option.some_ne_none _)
    · rename_i hlast
      refine ⟨(hstreak 0).1.symm, fun hash hhash => ?_, fun hash hhash => ?_, nofun, .inl rfl⟩
      · obtain rfl := Option.some.inj hhash
        rw [(hstreak _).2, if_pos rfl, h.others _ hlast]
      · rw [(hstreak hash).2, if_neg fun heq => hhash (congrArg some heq)]
  · rename_i hfailed
    have hstreak := fun hash => @streak_failure env calls call (Bool.eq_false_of_not_eq_true hfailed) hash
    refine ⟨?_, nofun, fun hash _ => (hstreak hash).2, fun _ => rfl, .inr rfl⟩
    rw [(hstreak 0).1, ← h.failures]

/-- Three in a row is what the breakers see. -/
theorem Tracks.failing (h : Tracks env calls entry) :
    LastThree calls Failed ↔ repeatFailureBreakerAfter ≤ entry.failureCount := by
  rw [lastThree_iff, ← h.failures, repeatFailureBreakerAfter]

theorem Tracks.idle (h : Tracks env calls entry) :
    (∃ hash, LastThree calls (SucceededHash env hash)) ↔
      zeroInfoBreakerAfter ≤ entry.identicalSuccessCount := by
  rw [zeroInfoBreakerAfter]
  constructor
  · rintro ⟨hash, hthree⟩
    rw [lastThree_iff] at hthree
    by_cases hlast : entry.lastSuccessHash = some hash
    · rwa [h.successes hash hlast]
    · rw [h.others hash hlast] at hthree
      omega
  · intro hcount
    cases hlast : entry.lastSuccessHash with
    | none =>
      rw [h.unhashed hlast] at hcount
      omega
    | some hash =>
      refine ⟨hash, ?_⟩
      rwa [lastThree_iff, ← h.successes hash hlast]

/-! ## The ledger is a fold -/

/-- The ledger after these executions. -/
def noted (env : RepeatEnv) (history : List ToolCall) : RepeatLedger :=
  history.foldl (noteRepeatCallOutcome env) {}

theorem noted_concat : noted env (history ++ [call]) = noteRepeatCallOutcome env (noted env history) call := by
  rw [noted, List.foldl_append]
  rfl

theorem shapeCalls_append :
    shapeCalls env key (history ++ calls) = shapeCalls env key history ++ shapeCalls env key calls :=
  List.filter_append _ _

theorem shapeCalls_eq_nil (h : ∀ call ∈ calls, call.shape env ≠ key) : shapeCalls env key calls = [] :=
  List.filter_eq_nil_iff.mpr fun call hcall hshape => h call hcall (of_decide_eq_true hshape)

theorem epoch_noted : (noted env history).epoch = history.countP ToolCall.changesWorld := by
  induction history using List.reverseRecOn with
  | nil => rfl
  | append_singleton history call ih =>
    rw [noted_concat, List.countP_append, List.countP_singleton, noteRepeatCallOutcome, ← ih]
    dsimp only
    split
    · rfl
    · rfl

theorem entry_tracks (env : RepeatEnv) (key : Text) (history : List ToolCall) :
    Tracks env (shapeCalls env key history) (((noted env history).inner key).getD {}) := by
  induction history using List.reverseRecOn with
  | nil => exact .nil
  | append_singleton history call ih =>
    rw [noted_concat, noteRepeatCallOutcome, shapeCalls_append]
    by_cases hshape : call.shape env = key
    · subst hshape
      rw [show shapeCalls env (call.shape env) [call] = [call] by simp [shapeCalls]]
      dsimp only
      rw [Function.update_self]
      exact ih.note call _
    · have hnone : shapeCalls env key [call] = [] :=
        shapeCalls_eq_nil fun c hc => List.mem_singleton.mp hc ▸ hshape
      rw [hnone, List.append_nil]
      dsimp only
      rw [Function.update_of_ne (Ne.symm hshape)]
      exact ih

/-- A shape has an entry once it was executed, with the epoch after its last execution. -/
theorem inner_noted : (noted env history).inner key = some entry →
    ∃ pre last post, LastOf env key history pre last post ∧
      entry.lastExecutionEpoch = (pre ++ [last]).countP ToolCall.changesWorld := by
  induction history using List.reverseRecOn with
  | nil => exact nofun
  | append_singleton history call ih =>
    rw [noted_concat]
    intro h
    by_cases hshape : call.shape env = key
    · subst hshape
      refine ⟨history, call, [], .concat_pos rfl, ?_⟩
      rw [← @epoch_noted env, noted_concat]
      rw [noteRepeatCallOutcome] at h ⊢
      dsimp only at h ⊢
      rw [Function.update_self] at h
      cases h
      rw [RepeatCallState.note]
      split
      · dsimp only
        split
        · rfl
        · rfl
      · rfl
    · rw [noteRepeatCallOutcome] at h
      dsimp only at h
      rw [Function.update_of_ne (Ne.symm hshape)] at h
      obtain ⟨pre, last, post, hlast, hepoch⟩ := ih h
      exact ⟨pre, last, post ++ [call],
        hlast.append fun c hc => List.mem_singleton.mp hc ▸ hshape, hepoch⟩

theorem inner_of_lastOf {pre post : List ToolCall} {last : ToolCall}
    (h : LastOf env key history pre last post) : ∃ entry, (noted env history).inner key = some entry := by
  induction history using List.reverseRecOn generalizing post with
  | nil => exact absurd h.mem List.not_mem_nil
  | append_singleton history call ih =>
    rw [noted_concat, noteRepeatCallOutcome]
    by_cases hshape : call.shape env = key
    · subst hshape
      exact ⟨_, Function.update_self _ _ _⟩
    · dsimp only
      rw [Function.update_of_ne (Ne.symm hshape)]
      have hlast : last ∈ history := (List.mem_append.mp h.mem).resolve_right fun hcall =>
        hshape (List.mem_singleton.mp hcall ▸ h.here)
      obtain ⟨pre', last', post', h'⟩ : ∃ pre' last' post', LastOf env key history pre' last' post' :=
        exists_lastAt ⟨last, hlast, h.here⟩
      obtain ⟨rfl, rfl, rfl⟩ := h.unique (h'.append fun c hc => List.mem_singleton.mp hc ▸ hshape)
      exact ih h'

/-- The epoch is current exactly if nothing has changed the world since. -/
theorem epoch_current_iff {pre post : List ToolCall} {last : ToolCall}
    (h : LastOf env key history pre last post) (hentry : (noted env history).inner key = some entry) :
    entry.lastExecutionEpoch = (noted env history).epoch ↔ Quiet post := by
  obtain ⟨pre', last', post', h', hepoch⟩ := inner_noted hentry
  obtain ⟨rfl, rfl, rfl⟩ := h.unique h'
  have hcount : history.countP ToolCall.changesWorld =
      (pre ++ [last]).countP ToolCall.changesWorld + post.countP ToolCall.changesWorld := by
    rw [← List.countP_append, h.eq, List.append_assoc, List.singleton_append]
  rw [hepoch, epoch_noted, hcount, left_eq_add, List.countP_eq_zero]
  simp only [Quiet, Bool.not_eq_true]

/-! ## What is refused -/

/-- A refusal of the breakers. -/
inductive Refused (entry : RepeatCallState) : Refusal → Prop where
  | failing (h : repeatFailureBreakerAfter ≤ entry.failureCount) :
    Refused entry (.repeatFailure entry.failureCount entry.lastError)
  | idle (h : zeroInfoBreakerAfter ≤ entry.identicalSuccessCount) :
    Refused entry (.zeroInformation entry.identicalSuccessCount entry.lastSuccessExcerpt
      entry.lastSuccessLen)

theorem breakerNotice_cases {refusal : Refusal} (h : breakerNotice env ledger call = some refusal) :
    (∃ notice, call.paused = some notice ∧ refusal = .discoveryPaused notice) ∨
      ∃ entry, ledger.inner (call.shape env) = some entry ∧
        entry.lastExecutionEpoch = ledger.epoch ∧ Refused entry refusal := by
  rw [breakerNotice] at h
  split at h
  · rename_i notice hpaused
    cases h
    exact .inl ⟨notice, hpaused, rfl⟩
  · obtain ⟨entry, hentry, h⟩ := Option.bind_eq_some_iff.mp h
    refine .inr ⟨entry, hentry, ?_⟩
    split at h
    · cases h
    · rename_i hepoch
      refine ⟨not_ne_iff.mp hepoch, ?_⟩
      split at h
      · rename_i hfailing
        cases h
        exact .failing hfailing
      · split at h
        · rename_i hidle
          cases h
          exact .idle hidle
        · cases h

theorem notice_failing {failures : Nat} {lastError : Text}
    (h : breakerNotice env (noted env history) call = some (.repeatFailure failures lastError)) :
    LastThree (shapeCalls env (call.shape env) history) Failed ∧
      ∃ pre last post, LastOf env (call.shape env) history pre last post ∧ Quiet post := by
  rcases breakerNotice_cases h with ⟨_, -, hpaused⟩ | ⟨entry, hentry, hepoch, hrefused⟩
  · cases hpaused
  · have htracks := entry_tracks env (call.shape env) history
    obtain ⟨pre, last, post, hlast, -⟩ := inner_noted hentry
    rw [hentry, Option.getD_some] at htracks
    cases hrefused with
    | failing hcount =>
      exact ⟨htracks.failing.mpr hcount, pre, last, post, hlast, (epoch_current_iff hlast hentry).mp hepoch⟩

theorem notice_idle {repeats fullLen : Nat} {excerpt : Text}
    (h : breakerNotice env (noted env history) call = some (.zeroInformation repeats excerpt fullLen)) :
    (∃ hash, LastThree (shapeCalls env (call.shape env) history) (SucceededHash env hash)) ∧
      ∃ pre last post, LastOf env (call.shape env) history pre last post ∧ Quiet post := by
  rcases breakerNotice_cases h with ⟨_, -, hpaused⟩ | ⟨entry, hentry, hepoch, hrefused⟩
  · cases hpaused
  · have htracks := entry_tracks env (call.shape env) history
    obtain ⟨pre, last, post, hlast, -⟩ := inner_noted hentry
    rw [hentry, Option.getD_some] at htracks
    cases hrefused with
    | idle hcount =>
      exact ⟨htracks.idle.mpr hcount, pre, last, post, hlast, (epoch_current_iff hlast hentry).mp hepoch⟩

/-- A streak that nothing has disturbed is refused. -/
theorem notice_of_streak {pre post : List ToolCall} {last : ToolCall}
    (h : LastOf env key history pre last post) (hquiet : Quiet post) (hpaused : call.paused = none)
    (hshape : call.shape env = key) (hstreak : Streak env (shapeCalls env key history)) :
    ∃ entry refusal, (noted env history).inner key = some entry ∧
      breakerNotice env (noted env history) call = some refusal ∧ Refused entry refusal := by
  obtain ⟨entry, hentry⟩ := inner_of_lastOf h
  have hepoch := (epoch_current_iff h hentry).mpr hquiet
  have htracks := entry_tracks env key history
  rw [hentry, Option.getD_some] at htracks
  have hnotice : breakerNotice env (noted env history) call =
      if repeatFailureBreakerAfter ≤ entry.failureCount then
        some (.repeatFailure entry.failureCount entry.lastError)
      else if zeroInfoBreakerAfter ≤ entry.identicalSuccessCount then
        some (.zeroInformation entry.identicalSuccessCount entry.lastSuccessExcerpt
          entry.lastSuccessLen)
      else none := by
    rw [breakerNotice, hpaused]
    dsimp only
    rw [hshape, hentry, Option.bind_some, if_neg (not_not_intro hepoch)]
  rw [hnotice]
  by_cases hfailing : repeatFailureBreakerAfter ≤ entry.failureCount
  · exact ⟨entry, _, hentry, if_pos hfailing, .failing hfailing⟩
  · have hidle : zeroInfoBreakerAfter ≤ entry.identicalSuccessCount :=
      htracks.idle.mp (hstreak.resolve_left fun hfailed => hfailing (htracks.failing.mp hfailed))
    exact ⟨entry, _, hentry, by rw [if_neg hfailing, if_pos hidle], .idle hidle⟩

theorem noted_exclusive (hentry : (noted env history).inner key = some entry) :
    entry.failureCount = 0 ∨ entry.identicalSuccessCount = 0 := by
  have htracks := entry_tracks env key history
  rw [hentry, Option.getD_some] at htracks
  exact htracks.exclusive.imp_right htracks.unhashed

/-! ## Batches -/

theorem ledger_executeTools (h : run.ledger = noted env run.executed.flatten) (batch : List ToolCall) :
    (executeTools env run batch).ledger = noted env (executeTools env run batch).executed.flatten := by
  rw [executeTools, List.flatten_append, List.flatten_singleton, noted, List.foldl_append, ← noted, ← h]

theorem runBatches_concat (batch : List ToolCall) :
    runBatches env run (batches ++ [batch]) = executeTools env (runBatches env run batches) batch := by
  rw [runBatches, List.foldl_append]
  rfl

theorem ledger_runBatches (h : run.ledger = noted env run.executed.flatten)
    (batches : List (List ToolCall)) :
    (runBatches env run batches).ledger = noted env (runBatches env run batches).executed.flatten := by
  induction batches generalizing run with
  | nil => exact h
  | cons batch batches ih => exact ih (ledger_executeTools h batch)

theorem Quiet.append {calls' : List ToolCall} (h : Quiet calls) (h' : Quiet calls') :
    Quiet (calls ++ calls') := fun call hcall => (List.mem_append.mp hcall).elim (h call) (h' call)

/-- An undisturbed streak that ends in the last batch. -/
theorem Undisturbed.quiet_pre {pre post : List ToolCall} {last : ToolCall}
    (h : Undisturbed env key (batches ++ [calls])) (hlast : LastOf env key calls pre last post) :
    Quiet pre := by
  obtain ⟨before, calls', after, pre', last', post', heq, hlast', hafter, hpre, -, -⟩ := h
  rcases List.eq_nil_or_concat after with rfl | ⟨init, final, rfl⟩
  · obtain ⟨-, hcalls⟩ := List.append_inj' heq rfl
    obtain rfl : calls = calls' := List.head_eq_of_cons_eq hcalls
    obtain ⟨rfl, rfl, rfl⟩ := hlast.unique hlast'
    exact hpre
  · rw [List.concat_eq_append, ← List.cons_append, ← List.append_assoc] at heq
    obtain ⟨-, hcalls⟩ := List.append_inj' heq rfl
    obtain rfl : calls = final := List.head_eq_of_cons_eq hcalls
    refine absurd hlast.here (hafter last ?_)
    rw [List.concat_eq_append, List.flatten_append, List.flatten_singleton]
    exact List.mem_append_right _ hlast.mem

/-- A streak stays undisturbed over a quiet batch without the shape. -/
theorem Undisturbed.concat (h : Undisturbed env key batches)
    (hnone : ∀ call ∈ calls, call.shape env ≠ key) (hquiet : Quiet calls) :
    Undisturbed env key (batches ++ [calls]) := by
  obtain ⟨before, calls', after, pre, last, post, rfl, hlast, hafter, hpre, hpost, hquietAfter⟩ := h
  refine ⟨before, calls', after ++ [calls], pre, last, post, ?_, hlast, ?_, hpre, hpost, ?_⟩
  · rw [List.append_assoc, List.cons_append]
  · rw [List.flatten_append, List.flatten_singleton]
    exact fun call hcall => (List.mem_append.mp hcall).elim (hafter call) (hnone call)
  · rw [List.flatten_append, List.flatten_singleton]
    exact hquietAfter.append hquiet

/-- Every batch of a run is sound where it starts. -/
def RunSound (env : RepeatEnv) (batches : List (List ToolCall)) : Prop :=
  ∀ before batch after, batches = before ++ batch :: after →
    BatchSound env (runBatches env {} before).executed.flatten
      (executedCalls env (runBatches env {} before).ledger batch)

theorem ledger_run (env : RepeatEnv) (batches : List (List ToolCall)) :
    (runBatches env {} batches).ledger = noted env (runBatches env {} batches).executed.flatten :=
  ledger_runBatches rfl batches

theorem executed_concat (batch : List ToolCall) : (runBatches env run (batches ++ [batch])).executed =
    (runBatches env run batches).executed ++
      [executedCalls env (runBatches env run batches).ledger batch] := by
  rw [runBatches_concat]
  rfl

/-- In a sound run a complete streak is undisturbed and of one content. -/
theorem undisturbed_of_sound (h : RunSound env batches) {pre post : List ToolCall} {last : ToolCall}
    (hlast : LastOf env key (runBatches env {} batches).executed.flatten pre last post)
    (hquiet : Quiet post)
    (hstreak : Streak env (shapeCalls env key (runBatches env {} batches).executed.flatten)) :
    Undisturbed env key (runBatches env {} batches).executed ∧
      ∀ hash, LastThree (shapeCalls env key (runBatches env {} batches).executed.flatten)
        (SucceededHash env hash) →
        ∃ content, LastThree (shapeCalls env key (runBatches env {} batches).executed.flatten)
          (Succeeded content) := by
  induction batches using List.reverseRecOn generalizing pre post last with
  | nil => exact absurd hlast.mem List.not_mem_nil
  | append_singleton batches batch ih =>
    have hbatch := h batches batch [] rfl
    rw [executed_concat] at hlast hstreak ⊢
    rw [List.flatten_append, List.flatten_singleton] at hlast hstreak ⊢
    by_cases hhere : ∃ call ∈ executedCalls env (runBatches env {} batches).ledger batch,
        call.shape env = key
    · -- the streak ends in this batch
      obtain ⟨pre', last', post', hlast'⟩ : ∃ pre' last' post', LastOf env key
          (executedCalls env (runBatches env {} batches).ledger batch) pre' last' post' :=
        exists_lastAt hhere
      obtain ⟨-, rfl, rfl⟩ := hlast.unique hlast'.append_left
      obtain ⟨hpre, hcontents⟩ := hbatch key pre' last post hlast' hquiet hstreak
      exact ⟨⟨_, _, [], pre', last, post, rfl, hlast', nofun, hpre, hquiet, nofun⟩, hcontents⟩
    · -- it ended before and the batch is quiet
      have hnone (call : ToolCall)
          (hcall : call ∈ executedCalls env (runBatches env {} batches).ledger batch) :
          call.shape env ≠ key := fun hshape => hhere ⟨call, hcall, hshape⟩
      have hin : last ∈ (runBatches env {} batches).executed.flatten :=
        (List.mem_append.mp hlast.mem).resolve_right fun hcall => hnone last hcall hlast.here
      obtain ⟨pre', last', post', hlast'⟩ : ∃ pre' last' post', LastOf env key
          (runBatches env {} batches).executed.flatten pre' last' post' :=
        exists_lastAt ⟨last, hin, hlast.here⟩
      obtain ⟨rfl, rfl, rfl⟩ := hlast.unique (hlast'.append hnone)
      rw [shapeCalls_append, shapeCalls_eq_nil hnone, List.append_nil] at hstreak ⊢
      obtain ⟨hundisturbed, hcontents⟩ := ih
        (fun before batch' after heq => h before batch' (after ++ [batch]) (by rw [heq]; simp)) hlast'
        (fun call hcall => hquiet call (List.mem_append_left _ hcall)) hstreak
      exact ⟨hundisturbed.concat hnone fun call hcall =>
        hquiet call (List.mem_append_right _ hcall), hcontents⟩

theorem proven_of_sound (h : RunSound env batches) : ProvenRepeats env (runBatches env {} batches) where
  failing call failures lastError hnotice := by
    rw [ledger_run] at hnotice
    obtain ⟨hthree, pre, last, post, hlast, hquiet⟩ := notice_failing hnotice
    exact ⟨hthree, (undisturbed_of_sound h hlast hquiet (.inl hthree)).1⟩
  idle call repeats excerpt fullLen hnotice := by
    rw [ledger_run] at hnotice
    obtain ⟨⟨hash, hthree⟩, pre, last, post, hlast, hquiet⟩ := notice_idle hnotice
    obtain ⟨hundisturbed, hcontents⟩ := undisturbed_of_sound h hlast hquiet (.inr ⟨hash, hthree⟩)
    exact ⟨hcontents hash hthree, hundisturbed⟩
  exclusive key entry hentry := by
    rw [ledger_run] at hentry
    exact noted_exclusive hentry

theorem sound_of_proven {batch : List ToolCall}
    (h : ProvenRepeats env (runBatches env {} (batches ++ [batch]))) :
    BatchSound env (runBatches env {} batches).executed.flatten
      (executedCalls env (runBatches env {} batches).ledger batch) := by
  intro key pre last post hlast hquiet hstreak
  have hexecuted := @executed_concat env batches {} batch
  have hflatten : (runBatches env {} (batches ++ [batch])).executed.flatten =
      (runBatches env {} batches).executed.flatten ++
        executedCalls env (runBatches env {} batches).ledger batch := by
    rw [hexecuted, List.flatten_append, List.flatten_singleton]
  rw [← hflatten] at hstreak ⊢
  have hlast' : LastOf env key (runBatches env {} (batches ++ [batch])).executed.flatten
      ((runBatches env {} batches).executed.flatten ++ pre) last post := by
    rw [hflatten]
    exact hlast.append_left
  have hledger := ledger_run env (batches ++ [batch])
  have hshape : ToolCall.shape env { last with paused := none } = key := hlast.here
  obtain ⟨entry, refusal, hentry, hnotice, hrefused⟩ := notice_of_streak hlast' hquiet rfl hshape hstreak
  rw [← hledger] at hnotice hentry
  cases hrefused with
  | failing hcount =>
    obtain ⟨-, hundisturbed⟩ := h.failing _ _ _ hnotice
    rw [hshape, hexecuted] at hundisturbed
    refine ⟨hundisturbed.quiet_pre hlast, fun hash hthree => ?_⟩
    -- the other streak is not complete
    rw [hledger] at hentry
    have htracks := entry_tracks env key (runBatches env {} (batches ++ [batch])).executed.flatten
    rw [hentry, Option.getD_some] at htracks
    have hidle := htracks.idle.mp ⟨hash, hthree⟩
    rw [zeroInfoBreakerAfter] at hidle
    rw [repeatFailureBreakerAfter] at hcount
    rcases noted_exclusive hentry with hzero | hzero
    · omega
    · omega
  | idle hcount =>
    obtain ⟨hcontents, hundisturbed⟩ := h.idle _ _ _ _ hnotice
    rw [hshape, hexecuted] at hundisturbed
    rw [hshape] at hcontents
    exact ⟨hundisturbed.quiet_pre hlast, fun _ _ => hcontents⟩

/-- **Main result.** In every state of a run the breakers refuse only proven repeats, and no shape has two
streaks, exactly when every batch of the run is sound. -/
theorem proven_iff (env : RepeatEnv) (batches : List (List ToolCall)) :
    (∀ before after, batches = before ++ after → ProvenRepeats env (runBatches env {} before)) ↔
      RunSound env batches := by
  constructor
  · intro h before batch after heq
    exact sound_of_proven (h (before ++ [batch]) after (by rw [heq]; simp))
  · intro h before after heq
    exact proven_of_sound fun before' batch after' hbefore =>
      h before' batch (after' ++ after) (by rw [heq, hbefore]; simp)

/-! ## A write beside the third read -/

def sampleRepeats : RepeatEnv := ⟨id, fun _ => "1".toList, fun t => t.length.toUInt64⟩

/-- A call about one path. -/
def sampleCall (name content : String) : ToolCall where
  name := name.toList
  input := .obj [("path", .str "notes.md")]
  result := ⟨true, content.toList, none⟩

/-- The third read runs beside a write, is noted after it, and is then refused. -/
theorem write_before_read : ¬ ∀ (env : RepeatEnv) (batches before after : List (List ToolCall)),
    batches = before ++ after → ProvenRepeats env (runBatches env {} before) := by
  intro h
  let read := sampleCall "read_file" "draft"
  let write := sampleCall "write_file" "written"
  have hproven := h sampleRepeats _ [[read], [read], [write, read]] [] rfl
  have hexecuted : (runBatches sampleRepeats {} [[read], [read], [write, read]]).executed =
      [[read], [read], [write, read]] := by decide
  have hnotice : breakerNotice sampleRepeats
      (runBatches sampleRepeats {} [[read], [read], [write, read]]).ledger read =
      some (.zeroInformation 3 "draft".toList 5) := by decide
  obtain ⟨-, hundisturbed⟩ := hproven.idle read _ _ _ hnotice
  rw [hexecuted] at hundisturbed
  have hlast : LastOf sampleRepeats (read.shape sampleRepeats) [write, read] [write] read [] :=
    ⟨rfl, rfl, nofun⟩
  have hquiet : Quiet [write] :=
    @Undisturbed.quiet_pre sampleRepeats [write, read] _ [[read], [read]] _ _ _ hundisturbed hlast
  have hchanges : write.changesWorld = true := by decide
  exact Bool.false_ne_true ((hquiet write (List.mem_singleton.mpr rfl)).symm.trans hchanges)

end Nanna.Loop
