import Mathlib.Logic.Function.Basic
import Mathlib.Data.List.Basic
import Nanna.Lib.Text

/-!
# The embedding router

The router, one section between two await points at a time, so that any number of calls run
interleaved (`step`): a call reads the active provider, looks at the primary's bench, sweeps over the
providers, waits between sweeps and commits a success under two locks in turn; the generation is
counted after the second. Time is in nanoseconds, and moves only by `tick`; a token that is replaced
moves the credential generation of the providers that use it. What a provider answers is an input.

`CallStep` lists what a section of a call can do (`callStep_inv`). The records of what was
called, answered, found and switched are for the statements; nothing reads them.
-/

namespace Nanna.Daemon.Embedding

open Nanna.Lib

variable {α : Type}

structure ProviderInfo where
  name : Text
  model : Text
deriving DecidableEq

/-- `{}`. -/
def ProviderInfo.display (info : ProviderInfo) : Text := info.name ++ ':' :: info.model

def BACKOFF_SECS : List Nat := [2, 5, 15, 30, 60, 120, 240]

def DEMOTION_SECS : Nat := BACKOFF_SECS.getLast (by decide)

/-- Seconds, in nanoseconds. -/
def secs (n : Nat) : Nat := n * 1000000000

/-- A provider is held out. -/
structure Bench where
  /-- Not called again before this. -/
  until_ : Nat
  /-- The credential generation that the failing call was made under. -/
  credential : Nat
deriving DecidableEq

/-- What a provider's client answers, with the text of the error. -/
inductive Outcome (α : Type)
  | vector (embedding : List α)
  | rateLimit (retryAfter : Option Nat) (text : Text)
  | inputOverflow (text : Text)
  | other (text : Text)

/-- The locals of the sweep. -/
structure Sweep where
  currentIdx : Nat
  reprobingPrimary : Bool
  round : Nat := 0
  offset : Nat := 0
  soonestRetry : Option Nat := none
  congested : Nat := 0
  benched : Nat := 0
  lastError : Text := []

abbrev Result (α : Type) := Except Text (List α × Option ProviderInfo)

/-- Where a call is. -/
inductive Phase (α : Type)
  | start
  /-- A fallback is active: the primary's credential is read, then its bench. -/
  | readPrimary (active : Nat)
  | checkPrimary (active credential : Nat)
  | sleeping (w : Sweep) (wake : Nat)
  /-- At the next provider, or at the end of the sweep. -/
  | sweeping (w : Sweep)
  | checking (w : Sweep) (credential : Nat)
  /-- The provider is not benched. -/
  | admitted (w : Sweep)
  | calling (w : Sweep) (credential : Nat)
  /-- To be benched; the sweep then goes on. -/
  | demoting (w : Sweep) (idx : Nat) (bench : Bench)
  /-- The provider answered: its bench is to be lifted, then the active provider to be set. -/
  | clearing (idx : Nat) (embedding : List α)
  | swapping (idx : Nat) (embedding : List α)
  /-- The active provider has changed, and the generation is to be counted. -/
  | bumping (idx : Nat) (embedding : List α)
  | returned (result : Result α)

/-- What a sweep finds at a provider. -/
inductive Finding (α : Type)
  | benched (bench : Bench)
  | answered (outcome : Outcome α)

structure Call (α : Type) where
  backoff : List Nat
  phase : Phase α := .start
  /-- The primary was out of its bench when the call began. -/
  primaryOut : Bool
  /-- The providers called, in order. -/
  tried : List Nat := []
  /-- What the sweep has found so far, by provider. -/
  found : List (Nat × Finding α) := []

inductive Event (α : Type)
  | called (call provider credential time : Nat)
  | answered (call provider credential time : Nat) (outcome : Outcome α)

/-- The active provider changes. -/
structure Switch (α : Type) where
  call : Nat
  provider : Nat
  embedding : List α

structure State (α : Type) where
  now : Nat
  /-- The credential generation of each provider's client. -/
  credential : Nat → Nat
  active : Nat
  generation : UInt64
  benches : Nat → Option Bench
  calls : List (Call α)
  /-- Newest first. -/
  log : List (Event α)
  /-- Newest first. -/
  switches : List (Switch α)

/-- The providers: the primary, and the fallbacks in order. -/
structure Providers where
  primary : ProviderInfo
  fallbacks : List ProviderInfo

def Providers.all (p : Providers) : List ProviderInfo := p.primary :: p.fallbacks

def Providers.total (p : Providers) : Nat := p.all.length

def Providers.info (p : Providers) (idx : Nat) : ProviderInfo := p.all.getD idx p.primary

variable (p : Providers)

/-- The first sweep of a call. -/
def Sweep.first (currentIdx : Nat) (reprobingPrimary : Bool) : Sweep := { currentIdx, reprobingPrimary }

/-- The provider that the sweep is at. -/
def Sweep.idx (w : Sweep) : Nat := (w.currentIdx + w.offset) % p.total

def Sweep.next (w : Sweep) : Sweep := { w with offset := w.offset + 1 }

/-- The sweep after this one. -/
def Sweep.again (w : Sweep) : Sweep :=
  { currentIdx := w.currentIdx, reprobingPrimary := w.reprobingPrimary, round := w.round + 1 }

/-- The bench stands, for a caller that has read this credential. -/
def State.isDemoted (s : State α) (idx credential : Nat) : Bool :=
  match s.benches idx with
  | some bench => s.now < bench.until_ && bench.credential = credential
  | none => false

/-- A provider was congested. -/
def Sweep.congest (w : Sweep) (published : Option Nat) (text : Text) : Sweep :=
  { w with
    congested := w.congested + 1
    soonestRetry := match published with
      | some secs => some (match w.soonestRetry with | some cur => min cur secs | none => secs)
      | none => w.soonestRetry
    lastError := text }

/-- The error of a sweep that found none congested. -/
def Sweep.failure (w : Sweep) : Text :=
  let total := p.total.repr.toList
  if w.benched = p.total then
    "All ".toList ++ total ++ " embedding providers are benched after deterministic failures — next probe in at most ".toList ++
      DEMOTION_SECS.repr.toList ++ "s".toList
  else
    "All ".toList ++ total ++ " embedding providers failed (none merely congested) — ".toList ++ w.lastError

/-- The error after the whole schedule. -/
def exhausted (backoff : List Nat) : Text :=
  let total := p.total.repr.toList
  if backoff = [] then
    "All ".toList ++ total ++ " embedding provider(s) congested — not waiting for them here".toList
  else
    "All ".toList ++ total ++ " embedding providers still congested after the full retry schedule".toList

/-- Where the answer of the provider at the sweep's place leads to. -/
def afterAnswer (s : State α) (w : Sweep) (credential : Nat) : Outcome α → Phase α
  | .vector [] =>
    .demoting { w with lastError := (p.info (w.idx p)).display ++ " returned an empty vector".toList }.next
      (w.idx p) ⟨s.now + secs DEMOTION_SECS, credential⟩
  | .vector (x :: embedding) => .clearing (w.idx p) (x :: embedding)
  | .rateLimit published text =>
    let w' := (w.congest published text).next
    if w.reprobingPrimary = true ∧ w.idx p = 0 then
      .demoting w' 0 ⟨s.now + secs (published.getD DEMOTION_SECS), credential⟩
    else .sweeping w'
  | .inputOverflow text => .sweeping { w with lastError := text }.next
  | .other text =>
    .demoting { w with lastError := text }.next (w.idx p) ⟨s.now + secs DEMOTION_SECS, credential⟩

/-- The answer is no vector. -/
def Outcome.Vain : Outcome α → Prop
  | .vector embedding => embedding = []
  | _ => True

instance (outcome : Outcome α) : Decidable outcome.Vain :=
  match outcome with
  | .vector [] => isTrue rfl
  | .vector (_ :: _) => isFalse nofun
  | .rateLimit .. | .inputOverflow _ | .other _ => isTrue trivial

/-- The next section of a call; the outcome is that of the call to the provider in flight. -/
def callStep (s : State α) (id : Nat) (call : Call α) (outcome : Option (Outcome α)) :
    Option (State α × Call α) :=
  match call.phase with
  | .start =>
    let phase := if s.active = 0 then .sweeping (.first 0 false) else .readPrimary s.active
    some (s, { call with phase })
  | .readPrimary active => some (s, { call with phase := .checkPrimary active (s.credential 0) })
  | .checkPrimary active credential =>
    let w := if s.isDemoted 0 credential = true then Sweep.first active false else Sweep.first 0 true
    some (s, { call with phase := .sweeping w })
  | .sleeping w wake =>
    if s.now < wake then none else some (s, { call with phase := .sweeping w, found := [] })
  | .sweeping w =>
    if w.offset < p.total then some (s, { call with phase := .checking w (s.credential (w.idx p)) })
    else if w.congested = 0 then some (s, { call with phase := .returned (.error (w.failure p)) })
    else
      match call.backoff[w.round]? with
      | some wait => some (s, { call with phase := .sleeping w.again (s.now + secs wait) })
      | none => some (s, { call with phase := .returned (.error (exhausted p call.backoff)) })
  | .checking w credential =>
    match s.benches (w.idx p) with
    | some bench =>
      if s.now < bench.until_ ∧ bench.credential = credential then
        some (s, { call with
          phase := .sweeping { w with benched := w.benched + 1 }.next
          found := (w.idx p, .benched bench) :: call.found })
      else some (s, { call with phase := .admitted w })
    | none => some (s, { call with phase := .admitted w })
  | .admitted w =>
    some ({ s with log := .called id (w.idx p) (s.credential (w.idx p)) s.now :: s.log },
      { call with
        phase := .calling w (s.credential (w.idx p))
        tried := call.tried ++ [w.idx p] })
  | .calling w credential =>
    outcome.map fun outcome =>
      ({ s with log := .answered id (w.idx p) credential s.now outcome :: s.log },
        { call with
          phase := afterAnswer p s w credential outcome
          found := if outcome.Vain then (w.idx p, .answered outcome) :: call.found else call.found })
  | .demoting w idx bench =>
    some ({ s with benches := Function.update s.benches idx (some bench) },
      { call with phase := .sweeping w })
  | .clearing idx embedding =>
    some ({ s with benches := Function.update s.benches idx none },
      { call with phase := .swapping idx embedding })
  | .swapping idx embedding =>
    if s.active = idx then some (s, { call with phase := .returned (.ok (embedding, none)) })
    else some ({ s with active := idx, switches := ⟨id, idx, embedding⟩ :: s.switches },
      { call with phase := .bumping idx embedding })
  | .bumping idx embedding =>
    some ({ s with generation := s.generation + 1 },
      { call with phase := .returned (.ok (embedding, some (p.info idx))) })
  | .returned _ => none

inductive Act (α : Type)
  | tick (nanos : Nat)
  /-- A token is replaced, for the providers whose clients send it. -/
  | replaceToken (shared : List Nat)
  /-- `embed_one`, or `embed_one_now`. -/
  | begin_ (patient : Bool)
  | advance (id : Nat) (outcome : Option (Outcome α))

def step (s : State α) : Act α → Option (State α)
  | .tick nanos => some { s with now := s.now + nanos }
  | .replaceToken shared => some { s with
      credential := fun idx => if idx ∈ shared then s.credential idx + 1 else s.credential idx }
  | .begin_ patient => some { s with calls := s.calls ++ [
      { backoff := if patient = true then BACKOFF_SECS else []
        primaryOut := !s.isDemoted 0 (s.credential 0) }] }
  | .advance id outcome =>
    match s.calls[id]? with
    | some call =>
      (callStep p s id call outcome).map fun (s', call') => { s' with calls := s.calls.set id call' }
    | none => none

/-- A new router. -/
def start (now : Nat) (credential : Nat → Nat) : State α where
  now := now
  credential := credential
  active := 0
  generation := 0
  benches _ := none
  calls := []
  log := []
  switches := []

/-! ## What a call can do -/

/-- One section of a call. -/
inductive CallStep (s : State α) (id : Nat) (call : Call α) : State α → Call α → Prop
  | startPrimary : call.phase = .start → s.active = 0 →
      CallStep s id call s { call with phase := .sweeping (.first 0 false) }
  | startFallback : call.phase = .start → CallStep s id call s { call with phase := .readPrimary s.active }
  | readPrimary {active} : call.phase = .readPrimary active →
      CallStep s id call s { call with phase := .checkPrimary active (s.credential 0) }
  | primaryDemoted {active credential} : call.phase = .checkPrimary active credential →
      s.isDemoted 0 credential = true →
      CallStep s id call s { call with phase := .sweeping (.first active false) }
  | primaryFree {active credential} : call.phase = .checkPrimary active credential →
      CallStep s id call s { call with phase := .sweeping (.first 0 true) }
  | wake {w wake} : call.phase = .sleeping w wake →
      CallStep s id call s { call with phase := .sweeping w, found := [] }
  | look {w} : call.phase = .sweeping w → w.offset < p.total →
      CallStep s id call s { call with phase := .checking w (s.credential (w.idx p)) }
  | fail {w text} : call.phase = .sweeping w → p.total ≤ w.offset →
      CallStep s id call s { call with phase := .returned (.error text) }
  | sleep {w wait} : call.phase = .sweeping w → p.total ≤ w.offset →
      CallStep s id call s { call with phase := .sleeping w.again (s.now + secs wait) }
  | skip {w credential bench} : call.phase = .checking w credential → s.benches (w.idx p) = some bench →
      s.isDemoted (w.idx p) credential = true →
      CallStep s id call s { call with
        phase := .sweeping { w with benched := w.benched + 1 }.next
        found := (w.idx p, .benched bench) :: call.found }
  | enter {w credential} : call.phase = .checking w credential →
      s.isDemoted (w.idx p) credential = false → CallStep s id call s { call with phase := .admitted w }
  | call {w} : call.phase = .admitted w → CallStep s id call
      { s with log := .called id (w.idx p) (s.credential (w.idx p)) s.now :: s.log }
      { call with phase := .calling w (s.credential (w.idx p)), tried := call.tried ++ [w.idx p] }
  | answer {w credential} (outcome) : call.phase = .calling w credential → CallStep s id call
      { s with log := .answered id (w.idx p) credential s.now outcome :: s.log }
      { call with
        phase := afterAnswer p s w credential outcome
        found := if outcome.Vain then (w.idx p, .answered outcome) :: call.found else call.found }
  | demote {w idx bench} : call.phase = .demoting w idx bench → CallStep s id call
      { s with benches := Function.update s.benches idx (some bench) } { call with phase := .sweeping w }
  | clear {idx embedding} : call.phase = .clearing idx embedding → CallStep s id call
      { s with benches := Function.update s.benches idx none }
      { call with phase := .swapping idx embedding }
  | keep {idx embedding} : call.phase = .swapping idx embedding → s.active = idx →
      CallStep s id call s { call with phase := .returned (.ok (embedding, none)) }
  | swap {idx embedding} : call.phase = .swapping idx embedding → s.active ≠ idx → CallStep s id call
      { s with active := idx, switches := ⟨id, idx, embedding⟩ :: s.switches }
      { call with phase := .bumping idx embedding }
  | bump {idx embedding} : call.phase = .bumping idx embedding → CallStep s id call
      { s with generation := s.generation + 1 }
      { call with phase := .returned (.ok (embedding, some (p.info idx))) }

variable {p} {s s' t : State α} {id : Nat} {call call' : Call α} {outcome : Option (Outcome α)}

theorem isDemoted_eq_true {idx credential : Nat} : s.isDemoted idx credential = true ↔
    ∃ bench, s.benches idx = some bench ∧ s.now < bench.until_ ∧ bench.credential = credential := by
  unfold State.isDemoted
  cases s.benches idx with
  | none => exact ⟨nofun, nofun⟩
  | some bench => simp

theorem callStep_inv (h : callStep p s id call outcome = some (s', call')) :
    CallStep p s id call s' call' := by
  unfold callStep at h
  split at h
  case h_1 hphase =>
    dsimp only at h
    split at h
    · cases h
      exact .startPrimary hphase ‹_›
    · cases h
      exact .startFallback hphase
  case h_2 hphase =>
    cases h
    exact .readPrimary hphase
  case h_3 hphase =>
    dsimp only at h
    split at h
    · cases h
      exact .primaryDemoted hphase ‹_›
    · cases h
      exact .primaryFree hphase
  case h_4 hphase =>
    split at h
    · cases h
    · cases h
      exact .wake hphase
  case h_5 hphase =>
    split at h
    · cases h
      exact .look hphase ‹_›
    rename_i hend
    split at h
    · cases h
      exact .fail hphase (Nat.le_of_not_lt hend)
    split at h
    · cases h
      exact .sleep hphase (Nat.le_of_not_lt hend)
    · cases h
      exact .fail hphase (Nat.le_of_not_lt hend)
  case h_6 w credential hphase =>
    split at h
    · rename_i bench hbench
      split at h
      · rename_i hstands
        cases h
        exact .skip hphase hbench (isDemoted_eq_true.mpr ⟨bench, hbench, hstands⟩)
      · rename_i hstands
        cases h
        refine .enter hphase (Bool.eq_false_iff.mpr fun hdemoted => hstands ?_)
        obtain ⟨bench', hbench', hstands'⟩ := isDemoted_eq_true.mp hdemoted
        obtain rfl := Option.some.inj (hbench.symm.trans hbench')
        exact hstands'
    · rename_i hnone
      cases h
      refine .enter hphase (Bool.eq_false_iff.mpr fun hdemoted => ?_)
      obtain ⟨bench', hbench', -⟩ := isDemoted_eq_true.mp hdemoted
      cases hnone.symm.trans hbench'
  case h_7 hphase =>
    cases h
    exact .call hphase
  case h_8 hphase =>
    obtain ⟨outcome', -, heq⟩ := Option.map_eq_some_iff.mp h
    cases heq
    exact .answer outcome' hphase
  case h_9 hphase =>
    cases h
    exact .demote hphase
  case h_10 hphase =>
    cases h
    exact .clear hphase
  case h_11 hphase =>
    split at h
    · cases h
      exact .keep hphase ‹_›
    · cases h
      exact .swap hphase ‹_›
  case h_12 hphase =>
    cases h
    exact .bump hphase
  case h_13 => cases h

/-- The section of one call, in the state of all. -/
theorem step_advance (h : step p s (.advance id outcome) = some t) : ∃ call s' call',
    s.calls[id]? = some call ∧ CallStep p s id call s' call' ∧ t = { s' with calls := s.calls.set id call' } := by
  rw [step] at h
  split at h
  · rename_i call hcall
    obtain ⟨⟨s', call'⟩, hstep, rfl⟩ := Option.map_eq_some_iff.mp h
    exact ⟨call, s', call', hcall, callStep_inv hstep, rfl⟩
  · cases h

end Nanna.Daemon.Embedding
