import Nanna.Lib.Streak
import Nanna.Lib.Table
import Mathlib.Algebra.Ring.Nat

/-!
# Models that cool down

`comes_back_iff`: a model that has failed five times or more in a row, and whose backoff since the last
failure is over, is judged usable and is in the sorted list exactly when the clock moves on by the whole
backoff between the reading in `modelHealth` and the reading in `isUsable`. The backoff is counted from the
moment of the judgement, not from the last failure, so a judgement that is used at once never lets the
model back in (`stays_out`).

The sorted list itself is what it should be: the usable models, healthy first, then degraded, then cooled
down, each group in the order of the priority list (`healthSortedModels_eq`).
-/

namespace Nanna.Daemon

open Nanna.Lib

/-! ## Statistics -/

/-- A finished request, with the time at which it is recorded. -/
structure RequestObservation where
  model : String
  success : Bool
  latencyMs : Nat
  recordedMs : Nat
deriving DecidableEq

structure ModelStats where
  model : String
  totalRequests : Nat := 0
  successfulRequests : Nat := 0
  failedRequests : Nat := 0
  latenciesMs : List Nat := []
  consecutiveFailures : Nat := 0
  lastSuccessEpochMs : Nat := 0
  lastFailureEpochMs : Nat := 0

def maxLatencySamples : Nat := 100

def ModelStats.record (stats : ModelStats) (obs : RequestObservation) : ModelStats :=
  if obs.success then
    let kept := if maxLatencySamples ≤ stats.latenciesMs.length then stats.latenciesMs.tail
      else stats.latenciesMs
    { stats with
      totalRequests := stats.totalRequests + 1
      successfulRequests := stats.successfulRequests + 1
      consecutiveFailures := 0
      lastSuccessEpochMs := obs.recordedMs
      latenciesMs := kept ++ [obs.latencyMs] }
  else
    { stats with
      totalRequests := stats.totalRequests + 1
      failedRequests := stats.failedRequests + 1
      consecutiveFailures := stats.consecutiveFailures + 1
      lastFailureEpochMs := obs.recordedMs }

abbrev ModelStatsTracker := Table ModelStats.model

def ModelStatsTracker.record (tracker : ModelStatsTracker) (obs : RequestObservation) :
    ModelStatsTracker :=
  tracker.insert (((tracker.get obs.model).getD { model := obs.model }).record obs)

/-- The tracker after these requests. -/
def recorded (history : List RequestObservation) : ModelStatsTracker :=
  history.foldl ModelStatsTracker.record Table.empty

structure ModelStatsSummary where
  model : String
  totalRequests : Nat
  /-- The two counts of which `success_rate` is the quotient. -/
  successes : Nat × Nat
  avgLatencyMs : Nat
  consecutiveFailures : Nat

def ModelStats.summary (stats : ModelStats) : ModelStatsSummary where
  model := stats.model
  totalRequests := stats.totalRequests
  successes := (stats.successfulRequests, stats.totalRequests)
  avgLatencyMs := if stats.latenciesMs = [] then 0 else stats.latenciesMs.sum / stats.latenciesMs.length
  consecutiveFailures := stats.consecutiveFailures

def summaries (tracker : ModelStatsTracker) : List ModelStatsSummary :=
  tracker.rows.map ModelStats.summary

/-! ## Health -/

inductive ModelHealth where
  | healthy
  | degraded (reason : String)
  | unhealthy (reason : String)
  | cooldown (reason : String) (retryAfterMs : Nat)
deriving DecidableEq

/-- `is_usable`, at a reading of the clock. -/
def ModelHealth.isUsable (nowMs : Nat) : ModelHealth → Bool
  | healthy | degraded _ => true
  | unhealthy _ => false
  | cooldown _ retryAfterMs => retryAfterMs ≤ nowMs

/-- The arithmetic on doubles, of a rate given by its two counts: the error rate is above 0.5, above 0.2;
the success rate in percent and the number of errors as they are printed; milliseconds in seconds. -/
structure Rates where
  aboveHalf : Nat × Nat → Bool
  aboveFifth : Nat × Nat → Bool
  percent : Nat × Nat → String
  errors : Nat × Nat → String
  seconds : Nat → String

variable (rates : Rates)

def rateReason (summary : ModelStatsSummary) : String :=
  "Success rate " ++ rates.percent summary.successes ++ "% (" ++ rates.errors summary.successes ++
    s!" errors in {summary.totalRequests} requests)"

/-- The backoff after so many failures in a row: 30 s, doubled each time, ten minutes at most. -/
def backoffSecs (consecutiveFailures : Nat) : Nat :=
  min (30 * 2 ^ min (consecutiveFailures - 5) 8) 600

/-- `model_health`, at a reading of the clock; `none` where no tracker is installed. -/
def modelHealth (tracker : Option ModelStatsTracker) (model : String) (nowMs : Nat) : ModelHealth :=
  match tracker.bind fun tracker => (summaries tracker).find? (·.model = model) with
  | none => .healthy
  | some summary =>
    if summary.totalRequests < 3 then .healthy
    else if 5 ≤ summary.consecutiveFailures then
      .cooldown s!"{summary.consecutiveFailures} consecutive failures"
        (nowMs + backoffSecs summary.consecutiveFailures * 1000)
    else if rates.aboveHalf summary.successes && 5 ≤ summary.totalRequests then
      .unhealthy (rateReason rates summary)
    else if rates.aboveFifth summary.successes then .degraded (rateReason rates summary)
    else if 30000 < summary.avgLatencyMs then
      .degraded ("High latency: " ++ rates.seconds summary.avgLatencyMs ++ "s avg")
    else .healthy

/-! ## The priority list -/

/-- One entry of a priority list: what has been recorded when it is judged, and the two readings of the
clock, in `model_health` and in `is_usable`. -/
structure Judged where
  model : String
  history : Option (List RequestObservation)
  nowMs : Nat
  usedMs : Nat

def Judged.health (entry : Judged) : ModelHealth :=
  modelHealth rates (entry.history.map recorded) entry.model entry.nowMs

structure SortedModels where
  healthy : List String := []
  degraded : List String := []
  cooldownReady : List String := []

def SortedModels.add (acc : SortedModels) (entry : Judged) : SortedModels :=
  match entry.health rates with
  | .healthy => { acc with healthy := acc.healthy ++ [entry.model] }
  | .degraded _ => { acc with degraded := acc.degraded ++ [entry.model] }
  | .cooldown reason retryAfterMs =>
    if (ModelHealth.cooldown reason retryAfterMs).isUsable entry.usedMs then
      { acc with cooldownReady := acc.cooldownReady ++ [entry.model] }
    else acc
  | .unhealthy _ => acc

def healthSortedModels (entries : List Judged) : List String :=
  let acc := entries.foldl (SortedModels.add rates) {}
  if acc.healthy.isEmpty && acc.degraded.isEmpty && acc.cooldownReady.isEmpty then
    entries.map (·.model)
  else acc.healthy ++ acc.degraded ++ acc.cooldownReady

/-! ## What is recorded -/

variable {rates : Rates} {history : List RequestObservation} {model : String} {nowMs : Nat}
  {entries : List Judged} {entry : Judged}

/-- The requests to a model. -/
def requestsTo (model : String) (history : List RequestObservation) : List RequestObservation :=
  history.filter (·.model = model)

/-- The failures in a row at the end. -/
def failuresInRow (model : String) (history : List RequestObservation) : Nat :=
  streak (fun obs => !obs.success) (requestsTo model history)

/-- The counts of the requests to a model. -/
structure Counts (requests : List RequestObservation) (stats : ModelStats) : Prop where
  total : stats.totalRequests = requests.length
  inRow : stats.consecutiveFailures = streak (fun obs => !obs.success) requests

theorem Counts.record {requests : List RequestObservation} {stats : ModelStats}
    (h : Counts requests stats) (obs : RequestObservation) :
    Counts (requests ++ [obs]) (stats.record obs) := by
  rw [ModelStats.record]
  split
  · rename_i hsuccess
    refine ⟨?_, ?_⟩
    · rw [List.length_append, ← h.total]
      rfl
    · rw [streak_concat, hsuccess]
      rfl
  · rename_i hfailed
    refine ⟨?_, ?_⟩
    · rw [List.length_append, ← h.total]
      rfl
    · rw [streak_concat, Bool.eq_false_iff.mpr hfailed, ← h.inRow]
      rfl

@[simp] theorem record_model (stats : ModelStats) (obs : RequestObservation) :
    (stats.record obs).model = stats.model := by
  rw [ModelStats.record]
  split
  · rfl
  · rfl

theorem recorded_concat (obs : RequestObservation) :
    recorded (history ++ [obs]) = (recorded history).record obs := by
  rw [recorded, List.foldl_append]
  rfl

theorem get_record (tracker : ModelStatsTracker) (obs : RequestObservation) :
    (tracker.record obs).get model =
      if obs.model = model then some (((tracker.get obs.model).getD { model := obs.model }).record obs)
      else tracker.get model := by
  have hmodel : ((tracker.get obs.model).getD { model := obs.model }).model = obs.model := by
    cases hget : tracker.get obs.model with
    | none => rfl
    | some stats => exact Table.key_of_get hget
  rw [ModelStatsTracker.record, Table.get_insert, record_model, hmodel]

/-- A model that was asked has its counts in the tracker. -/
theorem get_recorded (model : String) (history : List RequestObservation) :
    Counts (requestsTo model history) (((recorded history).get model).getD { model := model }) ∧
      (requestsTo model history ≠ [] → ∃ stats, (recorded history).get model = some stats) := by
  induction history using List.reverseRecOn with
  | nil => exact ⟨⟨rfl, rfl⟩, fun hne => absurd rfl hne⟩
  | append_singleton history obs ih =>
    rw [recorded_concat, get_record, requestsTo, List.filter_append, ← requestsTo]
    by_cases hmodel : obs.model = model
    · subst hmodel
      rw [if_pos rfl, List.filter_singleton, decide_eq_true rfl]
      exact ⟨ih.1.record obs, fun _ => ⟨_, rfl⟩⟩
    · rw [if_neg hmodel, List.filter_singleton, decide_eq_false hmodel]
      simpa only [cond_false, Bool.false_eq_true, if_false, List.append_nil] using ih

theorem find?_summaries (tracker : ModelStatsTracker) (model : String) :
    (summaries tracker).find? (·.model = model) = (tracker.get model).map ModelStats.summary := by
  rw [summaries, List.find?_map]
  rfl

/-- Five failures in a row, whatever came before. -/
theorem modelHealth_of_failures (h : 5 ≤ failuresInRow model history) :
    modelHealth rates (some (recorded history)) model nowMs =
      .cooldown s!"{failuresInRow model history} consecutive failures"
        (nowMs + backoffSecs (failuresInRow model history) * 1000) := by
  obtain ⟨hcounts, hasked⟩ := get_recorded model history
  have hlength : failuresInRow model history ≤ (requestsTo model history).length := by
    obtain ⟨tail, hsuffix, hlen, -⟩ := le_streak_iff.mp (le_refl (failuresInRow model history))
    exact hlen ▸ hsuffix.length_le
  have hne : requestsTo model history ≠ [] := by
    intro hnil
    rw [hnil, List.length_nil] at hlength
    omega
  obtain ⟨stats, hstats⟩ := hasked hne
  rw [hstats, Option.getD_some] at hcounts
  have htotal : stats.summary.totalRequests = (requestsTo model history).length := hcounts.total
  have hrow : stats.summary.consecutiveFailures = failuresInRow model history := hcounts.inRow
  rw [modelHealth, Option.bind_some, find?_summaries, hstats, Option.map_some]
  dsimp only
  rw [htotal, hrow, if_neg (by omega), if_pos h]

/-! ## The sorted list -/

def Judged.isHealthy (rates : Rates) (entry : Judged) : Bool := entry.health rates = .healthy

def Judged.isDegraded (rates : Rates) (entry : Judged) : Bool :=
  match entry.health rates with
  | .degraded _ => true
  | _ => false

def Judged.isReady (rates : Rates) (entry : Judged) : Bool :=
  match entry.health rates with
  | .cooldown _ retryAfterMs => retryAfterMs ≤ entry.usedMs
  | _ => false

def Judged.isUsable (rates : Rates) (entry : Judged) : Bool :=
  (entry.health rates).isUsable entry.usedMs

/-- The usable entries are those of the three groups. -/
theorem isUsable_iff : entry.isUsable rates = true ↔
    entry.isHealthy rates = true ∨ entry.isDegraded rates = true ∨ entry.isReady rates = true := by
  rw [Judged.isUsable, Judged.isHealthy, Judged.isDegraded, Judged.isReady]
  cases entry.health rates with
  | healthy => simp [ModelHealth.isUsable]
  | degraded reason => simp [ModelHealth.isUsable]
  | unhealthy reason => simp [ModelHealth.isUsable]
  | cooldown reason retryAfterMs => simp [ModelHealth.isUsable]

/-- The groups in the order of the list. -/
theorem foldl_add (acc : SortedModels) : entries.foldl (SortedModels.add rates) acc =
    ⟨acc.healthy ++ (entries.filter (·.isHealthy rates)).map (·.model),
      acc.degraded ++ (entries.filter (·.isDegraded rates)).map (·.model),
      acc.cooldownReady ++ (entries.filter (·.isReady rates)).map (·.model)⟩ := by
  induction entries generalizing acc with
  | nil => simp
  | cons entry entries ih =>
    rw [List.foldl_cons, ih, SortedModels.add]
    simp only [List.filter_cons, Judged.isHealthy, Judged.isDegraded, Judged.isReady]
    cases hhealth : entry.health rates with
    | healthy => simp
    | degraded reason => simp
    | unhealthy reason => simp
    | cooldown reason retryAfterMs =>
      by_cases hready : retryAfterMs ≤ entry.usedMs
      · simp [hready, ModelHealth.isUsable]
      · simp [hready, ModelHealth.isUsable]

/-- The usable models, group by group. -/
def usableModels (rates : Rates) (entries : List Judged) : List String :=
  (entries.filter (·.isHealthy rates)).map (·.model) ++
    (entries.filter (·.isDegraded rates)).map (·.model) ++
    (entries.filter (·.isReady rates)).map (·.model)

theorem mem_usableModels (hmem : entry ∈ entries) (h : entry.isUsable rates = true) :
    entry.model ∈ usableModels rates entries := by
  rw [usableModels, List.mem_append, List.mem_append]
  rcases isUsable_iff.mp h with hgroup | hgroup | hgroup
  · exact .inl (.inl (List.mem_map_of_mem (List.mem_filter.mpr ⟨hmem, hgroup⟩)))
  · exact .inl (.inr (List.mem_map_of_mem (List.mem_filter.mpr ⟨hmem, hgroup⟩)))
  · exact .inr (List.mem_map_of_mem (List.mem_filter.mpr ⟨hmem, hgroup⟩))

theorem healthSortedModels_eq (h : ∃ entry ∈ entries, entry.isUsable rates = true) :
    healthSortedModels rates entries = usableModels rates entries := by
  obtain ⟨entry, hmem, husable⟩ := h
  have hne := mem_usableModels hmem husable
  rw [healthSortedModels, foldl_add]
  dsimp only
  rw [List.nil_append, List.nil_append, List.nil_append]
  split
  · rename_i hempty
    rw [Bool.and_eq_true, Bool.and_eq_true, List.isEmpty_iff, List.isEmpty_iff, List.isEmpty_iff] at hempty
    rw [usableModels, hempty.1.1, hempty.1.2, hempty.2] at hne
    exact absurd hne List.not_mem_nil
  · rfl

/-! ## Coming back -/

/-- Five failures in a row or more, and the backoff since the last of them is over. -/
def CooledDown (entry : Judged) : Prop :=
  ∃ history last, entry.history = some history ∧ 5 ≤ failuresInRow entry.model history ∧
    (requestsTo entry.model history).getLast? = some last ∧
    last.recordedMs + backoffSecs (failuresInRow entry.model history) * 1000 ≤ entry.nowMs

/-- A model that has cooled down is usable and listed, and a list with a usable model becomes its usable
models: healthy, degraded, cooled down. -/
def ComesBack (rates : Rates) (entries : List Judged) : Prop :=
  (∀ entry ∈ entries, CooledDown entry →
    entry.isUsable rates = true ∧ entry.model ∈ healthSortedModels rates entries) ∧
  ((∃ entry ∈ entries, entry.isUsable rates = true) →
    healthSortedModels rates entries = usableModels rates entries)

/-- The clock has moved on by the backoff when the judgement is used. -/
def WaitsAgain (entry : Judged) : Prop :=
  ∀ history, entry.history = some history →
    entry.nowMs + backoffSecs (failuresInRow entry.model history) * 1000 ≤ entry.usedMs

theorem isUsable_of_failures (hhistory : entry.history = some history)
    (h : 5 ≤ failuresInRow entry.model history) : entry.isUsable rates = true ↔ WaitsAgain entry := by
  rw [Judged.isUsable, Judged.health, hhistory, Option.map_some, modelHealth_of_failures h,
    ModelHealth.isUsable, decide_eq_true_iff, WaitsAgain]
  constructor
  · intro hwait history' hhistory'
    cases hhistory.symm.trans hhistory'
    exact hwait
  · exact fun hwait => hwait history hhistory

/-- **Main result.** For every priority list, whatever has been recorded when an entry is judged: the
models that have cooled down come back exactly when the clock moves on by the whole backoff between their
judgement and its use. -/
theorem comes_back_iff (rates : Rates) (entries : List Judged) :
    ComesBack rates entries ↔ ∀ entry ∈ entries, CooledDown entry → WaitsAgain entry := by
  constructor
  · intro h entry hmem hcooled
    obtain ⟨history, last, hhistory, hfailures, -, -⟩ := id hcooled
    exact (isUsable_of_failures hhistory hfailures).mp (h.1 entry hmem hcooled).1
  · intro h
    refine ⟨fun entry hmem hcooled => ?_, healthSortedModels_eq⟩
    obtain ⟨history, last, hhistory, hfailures, -, -⟩ := id hcooled
    have husable : entry.isUsable rates = true :=
      (isUsable_of_failures hhistory hfailures).mpr (h entry hmem hcooled)
    refine ⟨husable, ?_⟩
    rw [healthSortedModels_eq ⟨entry, hmem, husable⟩]
    exact mem_usableModels hmem husable

/-! ## A model that stays out -/

def sampleRates : Rates :=
  ⟨fun n => 2 * n.1 < n.2, fun n => 5 * n.1 < 4 * n.2, fun _ => "0", fun _ => "5", fun _ => "30.0"⟩

/-- Five requests fail at the start; a day later the model is judged and the judgement used at once. -/
def sampleJudged : Judged where
  model := "claude"
  history := some (List.replicate 5 ⟨"claude", false, 20, 0⟩)
  nowMs := 86400000
  usedMs := 86400000

theorem stays_out : ¬ ∀ (rates : Rates) (entries : List Judged), ComesBack rates entries := by
  intro h
  have hcooled : CooledDown sampleJudged :=
    ⟨List.replicate 5 ⟨"claude", false, 20, 0⟩, ⟨"claude", false, 20, 0⟩, rfl, by decide,
      by decide, by decide⟩
  obtain ⟨husable, -⟩ := (h sampleRates [sampleJudged]).1 sampleJudged (List.mem_singleton.mpr rfl) hcooled
  have hout : sampleJudged.isUsable sampleRates = false := by decide
  exact Bool.false_ne_true (hout.symm.trans husable)

end Nanna.Daemon
