import Nanna.Daemon.StepLadder

/-!
# The attempts of a step

`step_attempts_sound`: however the steps of a run interleave, each is attempted at most four times on a place of the
chain and never goes back to an earlier one, it ends with the first attempt that did something or with the fault of
the last one, and an attempt that follows a transient fault is told of it.
-/

namespace Nanna.Daemon

open Nanna.Lib Nanna.Lib.Text Nanna.Harness

/-- The answer is a fault that is worth another attempt. -/
def transient : StepAnswer → Bool
  | .ok _ => false
  | .error message => isTransientLlmError message

/-- The model called a tool or said something. -/
def acted : StepAnswer → Bool
  | .ok outcome => !madeNoProgress outcome
  | .error _ => false

/-- What the ladder makes of an answer that is no result. -/
def blame : StepAnswer → Text
  | .ok outcome =>
    if isEmptyCompletion outcome then "empty completion (no text, no tool calls, ~0 tokens) from provider".toList
    else "no-progress step (reasoning only: no tool call, no answer)".toList
  | .error message => message

/-- A prompt that says that the step was interrupted. -/
def Told (prompt : Text) : Prop := ∃ attempt fault, transientRetryNote attempt fault <:+: prompt

theorem madeNoProgress_of_empty {outcome : StepOutcome} (h : isEmptyCompletion outcome = true) :
    madeNoProgress outcome = true := by
  simp only [isEmptyCompletion, Bool.and_eq_true] at h
  simp only [madeNoProgress, h.1, Bool.and_self]

theorem transient_blame {answer : StepAnswer} (h : transient answer = true) :
    isTransientLlmError (blame answer) = true := by
  cases answer with
  | ok => cases h
  | error => exact h

theorem Told.append {prompt : Text} (h : Told prompt) (more : Text) : Told (prompt ++ more) := by
  obtain ⟨attempt, fault, hinfix⟩ := h
  exact ⟨attempt, fault, hinfix.trans (List.prefix_append _ _).isInfix⟩

namespace StepCall

variable {models : List Text} {active active' : Nat} {call : StepCall}

def attemptsAt (call : StepCall) (place : Nat) : Nat := call.attempts.countP fun attempt => attempt.place = place

/-- A chain has the model at the place. -/
def Named (models : List Text) (call : StepCall) : Prop := call.own = none → models[call.place]? = some call.model

/-- Nothing was done yet, and the fault is that of the last attempt. -/
def Blamed (call : StepCall) (err : Text) : Prop :=
  (∃ last ∈ call.attempts.head?, blame last.answer = err) ∧ ∀ attempt ∈ call.attempts, acted attempt.answer = false

/-- What is known of a step at the stage it has reached. -/
def AtStage (models : List Text) (active : Nat) (call : StepCall) : Stage → Prop
  | .asking =>
    (call.attempts = [] ∨ call.own = none ∧ call.place < active) ∧
      (∀ last ∈ call.attempts.head?, transient last.answer → Told call.prompt) ∧
      ∀ attempt ∈ call.attempts, acted attempt.answer = false
  | .trying =>
    call.Named models ∧ call.attempt ≤ stepLlmRetries ∧ call.attemptsAt call.place = call.attempt ∧
      call.request <+: call.sent ∧ (∀ last ∈ call.attempts.head?, transient last.answer → Told call.sent) ∧
      (∀ attempt ∈ call.attempts, attempt.place = call.place → transient attempt.answer →
        Told call.sent ∧ call.transientFault.isSome) ∧
      ∀ attempt ∈ call.attempts, acted attempt.answer = false
  | .failed =>
    call.Named models ∧ call.attempt < stepLlmRetries ∧ call.attemptsAt call.place = call.attempt + 1 ∧
      (∀ last ∈ call.attempts.head?, last.place = call.place) ∧ call.Blamed call.lastErr ∧
      ∀ attempt ∈ call.attempts, attempt.place = call.place → transient attempt.answer → call.transientFault.isSome
  | .gaveUp err => call.Named models ∧ call.Blamed err
  | .swapping current next err =>
    call.own = none ∧ call.place ≤ current ∧ current ≤ active ∧ current < next ∧ next < models.length ∧ call.Blamed err
  | .ended (.ok outcome) =>
    ∃ last earlier, call.attempts = last :: earlier ∧ last.answer = .ok outcome ∧ acted last.answer = true ∧
      ∀ attempt ∈ earlier, acted attempt.answer = false
  | .ended (.error err) => call.Blamed err

/-- A newer attempt after an older one. -/
def Follows (newer older : Attempt) : Prop :=
  older.place ≤ newer.place ∧ (older.place = newer.place → transient older.answer → Told newer.prompt)

/-- What holds at every stage. -/
structure Steady (active : Nat) (call : StepCall) : Prop where
  asked : call.request <+: call.prompt
  sent : ∀ attempt ∈ call.attempts, call.request <+: attempt.prompt
  places : ∀ attempt ∈ call.attempts, attempt.place ≤ call.place
  reached : call.place ≤ active
  alone : call.own.isSome → call.place = 0
  few : ∀ place, call.attemptsAt place ≤ stepLlmRetries + 1
  follows : call.attempts.Pairwise Follows
  next : call.attempts.IsChain fun newer older => transient older.answer → Told newer.prompt

structure Sound (models : List Text) (active : Nat) (call : StepCall) : Prop extends Steady active call where
  stage : AtStage models active call call.stage

theorem AtStage.mono {stage : Stage} (h : AtStage models active call stage) (hle : active ≤ active') :
    AtStage models active' call stage := by
  cases stage with
  | asking =>
    obtain ⟨hplace, hrest⟩ := h
    exact ⟨hplace.imp_right fun hp => ⟨hp.1, hp.2.trans_le hle⟩, hrest⟩
  | swapping current next err =>
    obtain ⟨hown, hplace, hactive, hrest⟩ := h
    exact ⟨hown, hplace, hactive.trans hle, hrest⟩
  | trying | failed | gaveUp => exact h
  | ended result => cases result <;> exact h

theorem Sound.mono (h : Sound models active call) (hle : active ≤ active') : Sound models active' call :=
  { h with reached := h.reached.trans hle, stage := h.stage.mono hle }

theorem AtStage.stop {stage : Stage} (h : AtStage models active call stage) :
    AtStage models active { call with cancelled := true } stage := by
  cases stage with
  | ended result => cases result <;> exact h
  | _ => exact h

theorem Sound.stop (h : Sound models active call) : Sound models active { call with cancelled := true } :=
  { h with stage := h.stage.stop }

theorem Sound.new (prompt : Text) (own : Option Text) : Sound models active (.new prompt own) where
  asked := List.prefix_rfl
  sent := by simp [StepCall.new]
  places := by simp [StepCall.new]
  reached := Nat.zero_le _
  alone _ := rfl
  few _ := Nat.zero_le _
  follows := .nil
  next := .nil
  stage := ⟨.inl rfl, by simp [StepCall.new], by simp [StepCall.new]⟩

theorem attemptsAt_eq_zero {place : Nat} (h : ∀ attempt ∈ call.attempts, attempt.place < place) :
    call.attemptsAt place = 0 := by
  apply List.countP_eq_zero.mpr
  intro attempt hmem heq
  have hlt := h attempt hmem
  have hplace := of_decide_eq_true heq
  omega

/-- A ladder begins at a place where nothing has been attempted. -/
theorem Sound.ask (h : Sound models active call) (hasking : call.stage = .asking) {model : Text} {place : Nat}
    (hplace : place ≤ active) (halone : call.own.isSome → place = 0) (hown : call.own = none → place = active)
    (hnamed : call.own = none → models[place]? = some model) : Sound models active (call.ask model place) := by
  have hstage := h.stage
  rw [hasking] at hstage
  obtain ⟨hfresh, htold, hnone⟩ := hstage
  have hbelow : ∀ attempt ∈ call.attempts, attempt.place < place := by
    intro attempt hmem
    rcases hfresh with hnil | ⟨hchain, hlt⟩
    · rw [hnil] at hmem
      cases hmem
    · have hle := h.places attempt hmem
      rw [hown hchain]
      omega
  refine { h with
    places := fun attempt hmem => (hbelow attempt hmem).le
    reached := hplace
    alone := halone
    stage := ⟨hnamed, Nat.zero_le _, attemptsAt_eq_zero hbelow, h.asked, htold, ?_, hnone⟩ }
  intro attempt hmem heq
  have hlt := hbelow attempt hmem
  exact absurd heq hlt.ne

/-- The step with the attempt that was sent. -/
def answered (call : StepCall) (answer : StepAnswer) : StepCall :=
  { call with attempts := { place := call.place, prompt := call.sent, answer } :: call.attempts }

theorem attemptsAt_answered (answer : StepAnswer) (place : Nat) : (call.answered answer).attemptsAt place =
    call.attemptsAt place + if call.place = place then 1 else 0 := by
  simp [attemptsAt, answered, List.countP_cons]

theorem Sound.answered (h : Sound models active call) (htrying : call.stage = .trying) (answer : StepAnswer) :
    Steady active (call.answered answer) := by
  have hstage := h.stage
  rw [htrying] at hstage
  obtain ⟨_, hattempt, hat, hsent, hlast, hsame, _⟩ := hstage
  refine { h with
    sent := List.forall_mem_cons.mpr ⟨hsent, h.sent⟩
    places := List.forall_mem_cons.mpr ⟨le_rfl, h.places⟩
    few := fun place => ?_
    follows := .cons (fun older hmem => ⟨h.places older hmem, fun heq hfault => (hsame older hmem heq hfault).1⟩) h.follows
    next := h.next.cons hlast }
  rw [attemptsAt_answered]
  split_ifs with heq
  · rw [← heq, hat]
    omega
  · exact h.few place

/-- An attempt that did nothing, and where the ladder stands after it. -/
theorem Sound.blamed (h : Sound models active call) (htrying : call.stage = .trying) {answer : StepAnswer}
    (hnot : acted answer = false) : (call.answered answer).Blamed (blame answer) := by
  have hstage := h.stage
  rw [htrying] at hstage
  obtain ⟨_, _, _, _, _, _, hnone⟩ := hstage
  exact ⟨⟨_, rfl, rfl⟩, List.forall_mem_cons.mpr ⟨hnot, hnone⟩⟩

theorem Sound.failed (h : Sound models active call) (htrying : call.stage = .trying) {answer : StepAnswer}
    (hnot : acted answer = false) {err : Text} (herr : blame answer = err) (nudgePending : Bool)
    {transientFault : Option Text} (parseFaultChar : Option Text)
    (hfault : call.transientFault.isSome ∨ transient answer = true → transientFault.isSome) :
    Sound models active { (call.answered answer).failed err with nudgePending, transientFault, parseFaultChar } := by
  have hstage := h.stage
  rw [htrying] at hstage
  obtain ⟨hnamed, hattempt, hat, _, _, hsame, _⟩ := hstage
  subst herr
  have hblamed := h.blamed htrying hnot
  refine { h.answered htrying answer with stage := ?_ }
  by_cases hmore : call.attempt < stepLlmRetries
  · have hfailed : ((call.answered answer).failed (blame answer)).stage = .failed := if_pos hmore
    have hcount : (call.answered answer).attemptsAt call.place = call.attempt + 1 := by
      rw [attemptsAt_answered, hat, if_pos rfl]
    dsimp only
    rw [hfailed]
    refine ⟨hnamed, hmore, hcount, ?_, hblamed, List.forall_mem_cons.mpr ⟨fun _ hfaulty => hfault (.inr hfaulty), ?_⟩⟩
    · intro last hlast
      obtain rfl := Option.some.inj hlast
      rfl
    · intro attempt hmem hplace hfaulty
      exact hfault (.inl (hsame attempt hmem hplace hfaulty).2)
  · have hgaveUp : ((call.answered answer).failed (blame answer)).stage = .gaveUp (blame answer) := if_neg hmore
    dsimp only
    rw [hgaveUp]
    exact ⟨hnamed, hblamed⟩

theorem Sound.reply (h : Sound models active call) (htrying : call.stage = .trying) (answer : StepAnswer) :
    Sound models active (call.reply answer) := by
  have hstage := h.stage
  rw [htrying] at hstage
  obtain ⟨hnamed, _, _, _, _, _, hnone⟩ := hstage
  unfold StepCall.reply
  cases answer with
  | ok outcome =>
    dsimp only
    split_ifs with hempty hidle
    · have hnot : acted (.ok outcome) = false := by simp only [acted, madeNoProgress_of_empty hempty, Bool.not_true]
      exact h.failed htrying hnot (if_pos hempty) _ _ fun hor => hor.resolve_right Bool.false_ne_true
    · have hnot : acted (.ok outcome) = false := by simp only [acted, hidle, Bool.not_true]
      exact h.failed htrying hnot (if_neg hempty) true _ fun hor => hor.resolve_right Bool.false_ne_true
    · have hacted : acted (.ok outcome) = true := by
        simp only [acted, Bool.eq_false_of_not_eq_true hidle, Bool.not_false]
      exact { h.answered htrying (.ok outcome) with stage := ⟨_, _, rfl, rfl, hacted, hnone⟩ }
  | error message =>
    have hnot : acted (.error message) = false := rfl
    by_cases hfault : isTransientLlmError message = true
    · dsimp only
      rw [if_pos hfault]
      exact h.failed htrying hnot rfl _ _ fun _ => rfl
    · dsimp only
      rw [if_neg hfault]
      exact { h.answered htrying (.error message) with stage := ⟨hnamed, h.blamed htrying hnot⟩ }

theorem prefix_corrected (call : StepCall) (carried : Option Carried) : call.prompt <+: call.corrected carried := by
  unfold corrected
  rw [List.append_assoc, List.append_assoc]
  apply List.prefix_append

theorem told_corrected (carried : Option Carried) (h : call.transientFault.isSome) : Told (call.corrected carried) := by
  obtain ⟨fault, hfault⟩ := Option.isSome_iff_exists.mp h
  unfold corrected
  rw [hfault]
  apply Told.append
  exact ⟨_, fault, _, Carried.line carried, List.append_assoc _ _ _⟩

theorem Sound.retry (h : Sound models active call) (hfailed : call.stage = .failed) (carried : Option Carried) :
    Sound models active (call.retry carried) := by
  have hstage := h.stage
  rw [hfailed] at hstage
  obtain ⟨hnamed, hattempt, hat, hlast, ⟨_, hnone⟩, hfault⟩ := hstage
  refine { h with
    stage := ⟨hnamed, hattempt, hat, h.asked.trans (prefix_corrected call carried), ?_, ?_, hnone⟩ }
  · intro last hmem hfaulty
    exact told_corrected carried (hfault last (List.mem_of_mem_head? hmem) (hlast last hmem) hfaulty)
  · intro attempt hmem hplace hfaulty
    have hsome := hfault attempt hmem hplace hfaulty
    exact ⟨told_corrected carried hsome, hsome⟩

/-- The next model is told where the fault of the last one was transient. -/
theorem Sound.fallBack (h : Sound models active call) {err : Text} (hblamed : call.Blamed err) (hown : call.own = none)
    (hplace : call.place < active') (carried : Option Carried) :
    Sound models active' (call.fallBack err carried) := by
  obtain ⟨⟨last, hmem, hlast⟩, hnone⟩ := hblamed
  have hprompt : call.prompt <+: (call.fallBack err carried).prompt := by
    unfold StepCall.fallBack
    dsimp only
    split_ifs
    · rw [List.append_assoc]
      apply List.prefix_append
    · exact List.prefix_rfl
  refine { h with
    asked := h.asked.trans hprompt
    reached := hplace.le
    stage := ⟨.inr ⟨hown, hplace⟩, fun other hother hfaulty => ?_, hnone⟩ }
  obtain rfl := Option.mem_unique hmem hother
  have hfault := transient_blame hfaulty
  rw [hlast] at hfault
  unfold StepCall.fallBack
  dsimp only
  rw [if_pos hfault]
  exact ⟨1, _, call.prompt, _, rfl⟩

end StepCall

namespace StepLadders

variable {models : List Text} {s t : StepLadders} {a : Act}

structure Ready (s : StepLadders) : Prop where
  active : s.active < s.models.length
  calls : ∀ call ∈ s.calls, call.Sound s.models s.active

theorem Ready.start (hne : models ≠ []) (served : Text → Bool) : Ready (start models served) := by
  refine ⟨?_, fun call hmem => ?_⟩
  · show (models.findIdx? served).getD 0 < models.length
    cases hfind : models.findIdx? served with
    | none => exact List.length_pos_of_ne_nil hne
    | some i => exact (List.findIdx?_eq_some_iff_findIdx_eq.mp hfind).1
  · cases hmem

theorem nextServed_spec {served : Text → Bool} {next : Nat} (h : s.nextServed served = some next) :
    s.active < next ∧ next < s.models.length := by
  have hmem := List.mem_range'_1.mp (List.mem_of_find?_eq_some h)
  omega

/-- What the acts on the chain need to know of the step they take. -/
theorem Ready.swap (h : Ready s) {i : Nat} {call : StepCall} {calls : List StepCall} {err : Text} {current next : Nat}
    (carried : Option Carried) (hpull : pull s.calls i = some (call, calls))
    (hswapping : call.stage = .swapping current next err) :
    Ready { s with
      active := if s.active = current then next else s.active
      calls := call.fallBack err carried :: calls } := by
  have hcall := h.calls call ((pull_perm hpull).mem_iff.mpr (.head _))
  have hstage := hcall.stage
  rw [hswapping] at hstage
  obtain ⟨hown, hplace, hcurrent, hnext, hlength, hblamed⟩ := hstage
  have hactive := h.active
  have hle : s.active ≤ if s.active = current then next else s.active := by
    split_ifs <;> omega
  have hlt : call.place < if s.active = current then next else s.active := by
    split_ifs <;> omega
  refine ⟨?_, forall_mem_pull hpull h.calls (fun _ hother => hother.mono hle) fun hcall => ?_⟩
  · show (if s.active = current then next else s.active) < s.models.length
    split_ifs <;> omega
  · exact hcall.fallBack hblamed hown hlt carried

theorem Ready.ask (h : Ready s) {i : Nat} {call : StepCall} {calls : List StepCall} {model : Text} {place : Nat}
    (hpull : pull s.calls i = some (call, calls)) (hasking : call.stage = .asking)
    (hmodel : s.modelFor call = some (model, place)) : Ready { s with calls := call.ask model place :: calls } := by
  refine ⟨h.active, forall_mem_pull hpull h.calls (fun _ => id) fun hcall => ?_⟩
  unfold modelFor at hmodel
  cases hown : call.own with
  | some own =>
    rw [hown] at hmodel
    obtain ⟨rfl, rfl⟩ := Prod.mk.inj (Option.some.inj hmodel)
    refine hcall.ask hasking (Nat.zero_le _) (fun _ => rfl) ?_ ?_
    all_goals simp [hown]
  | none =>
    rw [hown] at hmodel
    obtain ⟨current, hget, heq⟩ := Option.map_eq_some_iff.mp hmodel
    obtain ⟨rfl, rfl⟩ := Prod.mk.inj heq
    refine hcall.ask hasking le_rfl ?_ (fun _ => rfl) fun _ => hget
    simp [hown]

theorem Ready.giveUp (h : Ready s) {i : Nat} {served : Text → Bool} {carried : Option Carried}
    (ht : s.step (.giveUp i served carried) = some t) : Ready t := by
  obtain ⟨⟨call, calls⟩, hpull, ht⟩ := Option.bind_eq_some_iff.mp ht
  dsimp only at ht
  split at ht
  · rename_i err hgaveUp
    have hstage := (h.calls call ((pull_perm hpull).mem_iff.mpr (.head _))).stage
    rw [hgaveUp] at hstage
    obtain ⟨hnamed, hblamed⟩ := hstage
    have hfinish : Ready { s with calls := call.finish err :: calls } :=
      ⟨h.active, forall_mem_pull hpull h.calls (fun _ => id) fun hcall => { hcall with stage := hblamed }⟩
    split_ifs at ht with hover
    · obtain rfl := Option.some.inj ht
      exact hfinish
    · have hown : call.own = none := by
        simp only [Bool.or_eq_true, not_or] at hover
        exact Option.not_isSome_iff_eq_none.mp hover.1.1
      obtain ⟨current, hcurrent, ht⟩ := Option.bind_eq_some_iff.mp ht
      split_ifs at ht with hmoved
      · obtain rfl := Option.some.inj ht
        refine ⟨h.active, forall_mem_pull hpull h.calls (fun _ => id) fun hcall => ?_⟩
        -- The model at the active place is another one than the step's, so the chain has moved on.
        have hplace : call.place ≠ s.active := by
          intro heq
          have hmodel := hnamed hown
          rw [heq, hcurrent] at hmodel
          exact hmoved (Option.some.inj hmodel)
        exact hcall.fallBack hblamed hown (lt_of_le_of_ne hcall.reached hplace) carried
      · split at ht
        · obtain rfl := Option.some.inj ht
          exact hfinish
        · rename_i next hnext
          obtain rfl := Option.some.inj ht
          obtain ⟨hlt, hlength⟩ := nextServed_spec hnext
          refine ⟨h.active, forall_mem_pull hpull h.calls (fun _ => id) fun hcall => ?_⟩
          exact { hcall with stage := ⟨hown, hcall.reached, le_rfl, hlt, hlength, hblamed⟩ }
  · cases ht

theorem Ready.step (h : Ready s) (ht : s.step a = some t) : Ready t := by
  cases a with
  | call prompt own =>
    obtain rfl := Option.some.inj ht
    exact ⟨h.active, List.forall_mem_cons.mpr ⟨.new prompt own, h.calls⟩⟩
  | ask i =>
    obtain ⟨⟨call, calls⟩, hpull, ht⟩ := Option.bind_eq_some_iff.mp ht
    dsimp only at ht
    split at ht
    · rename_i hasking
      obtain ⟨⟨model, place⟩, hmodel, ht⟩ := Option.bind_eq_some_iff.mp ht
      obtain rfl := Option.some.inj ht
      exact h.ask hpull hasking hmodel
    · cases ht
  | reply i answer =>
    obtain ⟨⟨call, calls⟩, hpull, ht⟩ := Option.bind_eq_some_iff.mp ht
    dsimp only at ht
    split at ht
    · rename_i htrying
      obtain rfl := Option.some.inj ht
      exact ⟨h.active, forall_mem_pull hpull h.calls (fun _ => id) fun hcall => hcall.reply htrying answer⟩
    · cases ht
  | stop i =>
    obtain ⟨⟨call, calls⟩, hpull, ht⟩ := Option.bind_eq_some_iff.mp ht
    obtain rfl := Option.some.inj ht
    exact ⟨h.active, forall_mem_pull hpull h.calls (fun _ => id) fun hcall => hcall.stop⟩
  | retry i carried =>
    obtain ⟨⟨call, calls⟩, hpull, ht⟩ := Option.bind_eq_some_iff.mp ht
    dsimp only at ht
    split at ht
    · rename_i hfailed
      split_ifs at ht
      · obtain rfl := Option.some.inj ht
        refine ⟨h.active, forall_mem_pull hpull h.calls (fun _ => id) fun hcall => ?_⟩
        have hstage := hcall.stage
        rw [hfailed] at hstage
        exact { hcall with stage := ⟨hstage.1, hstage.2.2.2.2.1⟩ }
      · obtain rfl := Option.some.inj ht
        exact ⟨h.active, forall_mem_pull hpull h.calls (fun _ => id) fun hcall => hcall.retry hfailed carried⟩
    · cases ht
  | giveUp i served carried => exact h.giveUp ht
  | swap i carried =>
    obtain ⟨⟨call, calls⟩, hpull, ht⟩ := Option.bind_eq_some_iff.mp ht
    dsimp only at ht
    split at ht
    · rename_i current next err hswapping
      obtain rfl := Option.some.inj ht
      exact h.swap carried hpull hswapping
    · cases ht

/-- However the steps of a run interleave, and whatever their attempts come to. -/
theorem step_attempts_sound (hne : models ≠ []) {served : Text → Bool}
    (h : Moves step (fun _ _ => True) (start models served) s) :
    s.active < s.models.length ∧ ∀ call ∈ s.calls,
      (∀ place, call.attemptsAt place ≤ stepLlmRetries + 1) ∧
      (∀ attempt ∈ call.attempts, attempt.place ≤ s.active ∧ (call.own.isSome → attempt.place = 0) ∧
        call.request <+: attempt.prompt) ∧
      call.attempts.Pairwise StepCall.Follows ∧
      call.attempts.IsChain (fun newer older => transient older.answer → Told newer.prompt) ∧
      (∀ outcome, call.stage = .ended (.ok outcome) → ∃ last earlier, call.attempts = last :: earlier ∧
        last.answer = .ok outcome ∧ acted last.answer = true ∧ ∀ attempt ∈ earlier, acted attempt.answer = false) ∧
      (∀ err, call.stage = .ended (.error err) → call.Blamed err) := by
  have hready : Ready s := by
    apply h.invariant (I := Ready) _ (.start hne served)
    intro s a t _ ht hs
    exact hs.step ht
  refine ⟨hready.active, fun call hmem => ?_⟩
  have hcall := hready.calls call hmem
  have hstage := hcall.stage
  refine ⟨hcall.few, fun attempt hattempt => ?_, hcall.follows, hcall.next, fun outcome hover => ?_, fun err hover => ?_⟩
  · have hplace := hcall.places attempt hattempt
    refine ⟨hplace.trans hcall.reached, fun hown => ?_, hcall.sent attempt hattempt⟩
    rw [hcall.alone hown] at hplace
    exact Nat.le_zero.mp hplace
  · rw [hover] at hstage
    exact hstage
  · rw [hover] at hstage
    exact hstage

/-- A transient fault, a refused request, and an answer of the second model. -/
theorem step_attempts_sound_fallback : ∃ s : StepLadders,
    s.calls.map (·.attempts.map (·.place)) = [[1, 0, 0]] ∧
      ∀ call ∈ s.calls, (∀ place, call.attemptsAt place ≤ stepLlmRetries + 1) ∧
        call.attempts.Pairwise StepCall.Follows := by
  have hrun : runActs step (fun _ _ => True) (start ["a".toList, "b".toList] fun _ => true)
      [.call [] none, .ask 0, .reply 0 (.error "timed out".toList), .retry 0 none,
        .reply 0 (.error "API error: 401".toList), .giveUp 0 (fun _ => true) none, .swap 0 none, .ask 0,
        .reply 0 (.ok { text := ['4'], inputTokens := 1, outputTokens := 1, toolCalls := [], touchedPaths := []
                        degenerateLoop := false })] = some _ := rfl
  obtain ⟨_, hcalls⟩ := step_attempts_sound (by simp) (.of_acts hrun)
  exact ⟨_, rfl, fun call hmem => ⟨(hcalls call hmem).1, (hcalls call hmem).2.2.1⟩⟩

end StepLadders

end Nanna.Daemon
