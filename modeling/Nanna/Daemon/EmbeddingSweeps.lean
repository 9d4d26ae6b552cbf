import Nanna.Daemon.EmbeddingRouter
import Nanna.Lib.Moves

/-!
# What a sweep finds, and why a provider is benched

In every run, however its calls interleave: each bench goes back to an answer of its provider that is
no input overflow, under the credential and for the time of that answer (`Caused`), and a call that
fails has found each provider benched or without a vector in its last sweep (`Searched`).
-/

namespace Nanna.Daemon.Embedding

open Nanna.Lib

variable {α : Type} {p : Providers} {s s' t : State α} {id : Nat} {call call' : Call α} {act : Act α}

/-- How long an answer may hold the provider out, in seconds. -/
def Outcome.heldFor : Outcome α → Option Nat
  | .vector [] | .other _ => some DEMOTION_SECS
  | .rateLimit published _ => some (published.getD DEMOTION_SECS)
  | .vector (_ :: _) | .inputOverflow _ => none

/-- A deterministic failure. -/
def Outcome.Fails : Outcome α → Prop
  | .vector [] | .other _ => True
  | .vector (_ :: _) | .rateLimit .. | .inputOverflow _ => False

theorem heldFor_of_fails {outcome : Outcome α} (h : outcome.Fails) :
    outcome.heldFor = some DEMOTION_SECS := by
  match outcome with
  | .vector [] | .other _ => rfl
  | .vector (_ :: _) | .rateLimit .. | .inputOverflow _ => cases h

/-- The bench goes back to an answer of the provider. -/
def Caused (log : List (Event α)) (idx : Nat) (bench : Bench) : Prop :=
  ∃ call time outcome n, .answered call idx bench.credential time outcome ∈ log ∧
    outcome.heldFor = some n ∧ bench.until_ = time + secs n

/-- The providers that the sweep is past are in the findings. -/
def Past (p : Providers) (call : Call α) (w : Sweep) : Prop :=
  ∀ k < w.offset, ∃ finding, ((w.currentIdx + k) % p.total, finding) ∈ call.found

/-- The findings of a call, up to where it is. -/
def Searched (p : Providers) (call : Call α) : Prop :=
  match call.phase with
  | .sleeping w _ => w.offset = 0
  | .sweeping w | .checking w _ | .admitted w | .calling w _ | .demoting w _ _ => Past p call w
  | .returned (.error _) => ∀ idx < p.total, ∃ finding, (idx, finding) ∈ call.found
  | _ => True

/-- A finding is a bench that has its cause, or an answer without a vector. -/
def Finding.Holds (log : List (Event α)) (idx : Nat) : Finding α → Prop
  | .benched bench => Caused log idx bench
  | .answered outcome => outcome.Vain

/-! ## One answer -/

/-- What an answer leads to. -/
theorem afterAnswer_cases (w : Sweep) (credential : Nat) (outcome : Outcome α) :
    (∃ w', afterAnswer p s w credential outcome = .sweeping w' ∧ w'.currentIdx = w.currentIdx ∧
      w'.offset = w.offset + 1 ∧ outcome.Vain ∧ ¬ outcome.Fails) ∨
    (∃ w' n, afterAnswer p s w credential outcome =
        .demoting w' (w.idx p) ⟨s.now + secs n, credential⟩ ∧ w'.currentIdx = w.currentIdx ∧
      w'.offset = w.offset + 1 ∧ outcome.Vain ∧ outcome.heldFor = some n) ∨
    ∃ x embedding, outcome = .vector (x :: embedding) ∧
      afterAnswer p s w credential outcome = .clearing (w.idx p) (x :: embedding) := by
  match outcome with
  | .vector [] => exact .inr (.inl ⟨_, _, rfl, rfl, rfl, rfl, rfl⟩)
  | .vector (x :: embedding) => exact .inr (.inr ⟨x, embedding, rfl, rfl⟩)
  | .inputOverflow text => exact .inl ⟨_, rfl, rfl, rfl, trivial, not_false⟩
  | .other text => exact .inr (.inl ⟨_, _, rfl, rfl, rfl, trivial, rfl⟩)
  | .rateLimit published text =>
    by_cases hprobe : w.reprobingPrimary = true ∧ w.idx p = 0
    · refine .inr (.inl ⟨(w.congest published text).next, published.getD DEMOTION_SECS, ?_, rfl, rfl,
        trivial, rfl⟩)
      rw [afterAnswer, if_pos hprobe, hprobe.2]
    · refine .inl ⟨(w.congest published text).next, ?_, rfl, rfl, trivial, not_false⟩
      rw [afterAnswer, if_neg hprobe]

/-! ## One section -/

theorem Caused.mono {log log' : List (Event α)} {idx : Nat} {bench : Bench} (h : Caused log idx bench)
    (hlog : log ⊆ log') : Caused log' idx bench := by
  obtain ⟨call, time, outcome, n, hmem, hcause⟩ := h
  exact ⟨call, time, outcome, n, hlog hmem, hcause⟩

theorem Finding.Holds.mono {log log' : List (Event α)} {idx : Nat} {finding : Finding α}
    (h : finding.Holds log idx) (hlog : log ⊆ log') : finding.Holds log' idx := by
  cases finding with
  | benched bench => exact Caused.mono h hlog
  | answered outcome => exact h

theorem CallStep.log_subset (h : CallStep p s id call s' call') : s.log ⊆ s'.log := by
  cases h with
  | call | answer => exact List.subset_cons_self _ _
  | _ => exact List.Subset.refl _

/-- A bench is an old one, or the one that the call was to set. -/
theorem CallStep.bench (h : CallStep p s id call s' call') {idx : Nat} {bench : Bench}
    (hbench : s'.benches idx = some bench) :
    s.benches idx = some bench ∨ ∃ w, call.phase = .demoting w idx bench := by
  cases h with
  | @demote w idx' bench' hphase =>
    by_cases hidx : idx = idx'
    · subst hidx
      change Function.update s.benches idx (some bench') idx = some bench at hbench
      rw [Function.update_self] at hbench
      obtain rfl := Option.some.inj hbench
      exact .inr ⟨w, hphase⟩
    · change Function.update s.benches idx' (some bench') idx = some bench at hbench
      rw [Function.update_of_ne hidx] at hbench
      exact .inl hbench
  | @clear idx' embedding hphase =>
    change Function.update s.benches idx' none idx = some bench at hbench
    by_cases hidx : idx = idx'
    · rw [hidx, Function.update_self] at hbench
      cases hbench
    · rw [Function.update_of_ne hidx] at hbench
      exact .inl hbench
  | _ => exact .inl hbench

/-- What is to be benched has just answered. -/
theorem CallStep.demoting (h : CallStep p s id call s' call') {w : Sweep} {idx : Nat} {bench : Bench}
    (hphase : call'.phase = .demoting w idx bench) : Caused s'.log idx bench := by
  cases h with
  | @answer w' credential outcome hcalling =>
    rcases afterAnswer_cases (p := p) (s := s) w' credential outcome with
      ⟨_, hafter, -⟩ | ⟨_, n, hafter, -, -, -, hheld⟩ | ⟨_, _, -, hafter⟩
    · cases hafter.symm.trans hphase
    · cases hafter.symm.trans hphase
      exact ⟨id, s.now, outcome, n, List.mem_cons_self, hheld, rfl⟩
    · cases hafter.symm.trans hphase
  | _ => cases hphase

theorem CallStep.holds (h : CallStep p s id call s' call')
    (hbench : ∀ idx bench, s.benches idx = some bench → Caused s.log idx bench)
    (hfound : ∀ idx finding, (idx, finding) ∈ call.found → finding.Holds s.log idx) {idx : Nat}
    {finding : Finding α} (hmem : (idx, finding) ∈ call'.found) : finding.Holds s'.log idx := by
  cases h with
  | wake => cases hmem
  | skip hphase hstands =>
    rcases List.mem_cons.mp hmem with heq | hmem
    · cases heq
      exact hbench _ _ hstands
    · exact hfound _ _ hmem
  | answer outcome hphase =>
    dsimp only at hmem
    split at hmem
    · rename_i hvain
      rcases List.mem_cons.mp hmem with heq | hmem
      · cases heq
        exact hvain
      · exact (hfound _ _ hmem).mono (List.subset_cons_self _ _)
    · exact (hfound _ _ hmem).mono (List.subset_cons_self _ _)
  | call => exact (hfound _ _ hmem).mono (List.subset_cons_self _ _)
  | _ => exact hfound _ _ hmem

/-- The place that the sweep leaves is in the findings. -/
theorem past_next {w w' : Sweep} {finding : Finding α} (hpast : Past p call w)
    (hcurrent : w'.currentIdx = w.currentIdx) (hoffset : w'.offset = w.offset + 1)
    (hfound : call'.found = (w.idx p, finding) :: call.found) : Past p call' w' := by
  intro k hk
  rw [hcurrent, hfound]
  rcases Nat.lt_succ_iff_lt_or_eq.mp (hoffset ▸ hk) with hlt | rfl
  · obtain ⟨finding, hmem⟩ := hpast k hlt
    exact ⟨finding, List.mem_cons_of_mem _ hmem⟩
  · exact ⟨finding, List.mem_cons_self⟩

/-- The places of a whole sweep are all the providers. -/
theorem exists_place (current : Nat) {idx total : Nat} (h : idx < total) :
    ∃ k < total, (current + k) % total = idx := by
  have hlt : current % total < total := Nat.mod_lt _ (Nat.zero_lt_of_lt h)
  refine ⟨(idx + (total - current % total)) % total, Nat.mod_lt _ (Nat.zero_lt_of_lt h), ?_⟩
  rw [Nat.add_mod, Nat.mod_mod, ← Nat.add_mod, ← Nat.mod_add_mod]
  have hsum : current % total + (idx + (total - current % total)) = idx + total := by omega
  rw [hsum, Nat.add_mod_right, Nat.mod_eq_of_lt h]

theorem CallStep.searched (h : CallStep p s id call s' call') (hsearched : Searched p call) :
    Searched p call' := by
  unfold Searched at hsearched
  cases h with
  | startPrimary | primaryDemoted | primaryFree => exact fun k hk => absurd hk (Nat.not_lt_zero k)
  | startFallback | readPrimary | clear | keep | swap | bump => trivial
  | wake hphase =>
    rw [hphase] at hsearched
    exact fun k hk => absurd (hsearched ▸ hk) (Nat.not_lt_zero k)
  | look hphase | enter hphase | call hphase | demote hphase =>
    rw [hphase] at hsearched
    exact hsearched
  | @fail w text hphase hend =>
    rw [hphase] at hsearched
    intro idx hidx
    obtain ⟨k, hk, rfl⟩ := exists_place w.currentIdx hidx
    exact hsearched k (Nat.lt_of_lt_of_le hk hend)
  | sleep => rfl
  | skip hphase =>
    rw [hphase] at hsearched
    exact past_next hsearched rfl rfl rfl
  | @answer w credential outcome hphase =>
    rw [hphase] at hsearched
    have hnext : ∀ {w' : Sweep}, w'.currentIdx = w.currentIdx → w'.offset = w.offset + 1 → outcome.Vain →
        ∀ phase, Past p { call with
          phase := phase
          found := if outcome.Vain then (w.idx p, .answered outcome) :: call.found else call.found } w' :=
      fun hcurrent hoffset hvain phase => past_next hsearched hcurrent hoffset (if_pos hvain)
    unfold Searched
    dsimp only
    rcases afterAnswer_cases (p := p) (s := s) w credential outcome with
      ⟨w', hafter, hcurrent, hoffset, hvain, -⟩ | ⟨w', n, hafter, hcurrent, hoffset, hvain, -⟩ |
      ⟨_, _, -, hafter⟩
    · rw [hafter]
      exact hnext hcurrent hoffset hvain _
    · rw [hafter]
      exact hnext hcurrent hoffset hvain _
    · rw [hafter]
      trivial

/-! ## Every run -/

/-- Every bench and every finding has its cause, and every sweep is complete up to where it is. -/
structure Founded (p : Providers) (s : State α) : Prop where
  bench : ∀ idx bench, s.benches idx = some bench → Caused s.log idx bench
  demoting : ∀ call ∈ s.calls, ∀ w idx bench, call.phase = .demoting w idx bench → Caused s.log idx bench
  holds : ∀ call ∈ s.calls, ∀ idx finding, (idx, finding) ∈ call.found → finding.Holds s.log idx
  searched : ∀ call ∈ s.calls, Searched p call

theorem founded_start (now : Nat) (credential : Nat → Nat) :
    Founded p (start now credential : State α) where
  bench _ _ h := nomatch h
  demoting _ h := nomatch h
  holds _ h := nomatch h
  searched _ h := nomatch h

theorem founded_step (h : Founded p s) (hstep : step p s act = some t) : Founded p t := by
  cases act with
  | tick nanos =>
    cases hstep
    exact ⟨h.bench, h.demoting, h.holds, h.searched⟩
  | replaceToken shared =>
    cases hstep
    exact ⟨h.bench, h.demoting, h.holds, h.searched⟩
  | begin_ patient =>
    cases hstep
    have hmem : ∀ {Q : Call α → Prop} {new : Call α}, (∀ call ∈ s.calls, Q call) → Q new →
        ∀ call ∈ s.calls ++ [new], Q call := fun hold hnew call hcall =>
      (List.mem_append.mp hcall).elim (hold call) fun hcall => List.mem_singleton.mp hcall ▸ hnew
    exact ⟨h.bench, hmem h.demoting nofun, hmem h.holds nofun, hmem h.searched trivial⟩
  | advance id outcome =>
    obtain ⟨call, s', call', hget, hcall, rfl⟩ := step_advance hstep
    have hold : call ∈ s.calls := List.mem_of_getElem? hget
    have hlog : s.log ⊆ s'.log := hcall.log_subset
    have hmem : ∀ {Q : Call α → Prop}, (∀ call ∈ s.calls, Q call) → Q call' →
        ∀ call ∈ s.calls.set id call', Q call := fun hold hnew call hcall =>
      (List.mem_or_eq_of_mem_set hcall).elim (hold call) fun heq => heq ▸ hnew
    refine ⟨fun idx bench hbench => ?_, hmem ?_ ?_, hmem ?_ ?_, hmem h.searched (hcall.searched (h.searched _ hold))⟩
    · rcases hcall.bench hbench with hbench | ⟨w, hphase⟩
      · exact (h.bench idx bench hbench).mono hlog
      · exact (h.demoting _ hold w idx bench hphase).mono hlog
    · exact fun call hcall w idx bench hphase => (h.demoting call hcall w idx bench hphase).mono hlog
    · exact fun w idx bench hphase => hcall.demoting hphase
    · exact fun call hcall idx finding hfound => (h.holds call hcall idx finding hfound).mono hlog
    · exact fun idx finding hfound => hcall.holds h.bench (h.holds _ hold) hfound

end Nanna.Daemon.Embedding
