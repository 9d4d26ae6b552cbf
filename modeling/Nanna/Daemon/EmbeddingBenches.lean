import Mathlib.Tactic.Common
import Nanna.Daemon.EmbeddingSweeps

/-!
# A provider that fails is left alone

While calls are made one after another (`Sequential`), no provider is called within `DEMOTION_SECS` of a
deterministic failure under the credential of that failure (`Apart`, kept by every step).

Each failure is over (`Lifted`), or covered by the bench of its provider, or its call is about to set
that bench (`Covered`). A provider is called only once none of its failures stands (`Open`), and so a bench
that is overwritten or lifted covers none that does. The credential that a call has read is never
newer than the client's (`Dated`).
-/

namespace Nanna.Daemon.Embedding

open Nanna.Lib

variable {α : Type} {p : Providers} {s s' t : State α} {id idx credential time : Nat}
  {call call' : Call α} {act : Act α}

def Call.Returned (call : Call α) : Prop := ∃ result, call.phase = .returned result

/-- Calls are made one after another. -/
def Sequential (s : State α) : Act α → Prop
  | .begin_ _ => ∀ call ∈ s.calls, call.Returned
  | _ => True

/-- The provider failed deterministically. -/
def Failed (log : List (Event α)) (idx credential time : Nat) : Prop :=
  ∃ call outcome, .answered call idx credential time outcome ∈ log ∧ outcome.Fails

/-- A later event is no call to a provider that failed a short while before. -/
def Apart (later earlier : Event α) : Prop :=
  ∀ call idx credential time outcome, earlier = .answered call idx credential time outcome → outcome.Fails →
    ∀ call' time', later = .called call' idx credential time' → time + secs DEMOTION_SECS ≤ time'

/-! ## Credentials -/

/-- Time passes, and credentials are replaced. -/
structure Ages (s t : State α) : Prop where
  now : s.now ≤ t.now
  credential : ∀ idx, s.credential idx ≤ t.credential idx
  benches : t.benches = s.benches
  log : t.log = s.log
  active : t.active = s.active

/-- A credential that a call has read is not newer than the client's. -/
def Call.Dated (p : Providers) (s : State α) (call : Call α) : Prop :=
  match call.phase with
  | .checkPrimary _ credential => credential ≤ s.credential 0
  | .checking w credential | .calling w credential => credential ≤ s.credential (w.idx p)
  | _ => True

/-- So is none that a call was answered under. -/
structure Dated (p : Providers) (s : State α) : Prop where
  answered : ∀ call idx credential time outcome, .answered call idx credential time outcome ∈ s.log →
    credential ≤ s.credential idx
  calls : ∀ call ∈ s.calls, call.Dated p s

theorem Call.Dated.mono (h : call.Dated p s) (hold : ∀ idx, s.credential idx ≤ t.credential idx) :
    call.Dated p t := by
  unfold Call.Dated at h ⊢
  split
  · rename_i hphase
    rw [hphase] at h
    exact le_trans h (hold _)
  · rename_i hphase
    rw [hphase] at h
    exact le_trans h (hold _)
  · rename_i hphase
    rw [hphase] at h
    exact le_trans h (hold _)
  · trivial

theorem CallStep.credential_eq (h : CallStep p s id call s' call') : s'.credential = s.credential := by
  cases h with
  | _ => rfl

theorem CallStep.now_eq (h : CallStep p s id call s' call') : s'.now = s.now := by
  cases h with
  | _ => rfl

/-- What one section of a call leads to. -/
theorem CallStep.dated (h : CallStep p s id call s' call') : call'.Dated p s' := by
  cases h with
  | readPrimary | look | call => exact le_refl _
  | @answer w credential outcome hphase =>
    unfold Call.Dated
    dsimp only
    rcases afterAnswer_cases (p := p) (s := s) w credential outcome with
      ⟨_, hafter, -⟩ | ⟨_, _, hafter, -⟩ | ⟨_, _, -, hafter⟩
    · rw [hafter]
      trivial
    · rw [hafter]
      trivial
    · rw [hafter]
      trivial
  | _ => trivial

/-- An event that is new. -/
theorem CallStep.answered (h : CallStep p s id call s' call') {call₀ : Nat} {outcome : Outcome α}
    (hmem : .answered call₀ idx credential time outcome ∈ s'.log) :
    .answered call₀ idx credential time outcome ∈ s.log ∨ ∃ w, call.phase = .calling w credential ∧
      idx = w.idx p ∧ call₀ = id ∧ time = s.now ∧ call'.phase = afterAnswer p s w credential outcome := by
  cases h with
  | call =>
    rcases List.mem_cons.mp hmem with heq | hmem
    · cases heq
    · exact .inl hmem
  | @answer w credential' outcome' hphase =>
    rcases List.mem_cons.mp hmem with heq | hmem
    · cases heq
      exact .inr ⟨w, hphase, rfl, rfl, rfl, rfl⟩
    · exact .inl hmem
  | _ => exact .inl hmem

/-- What a step can do. -/
theorem step_cases (h : step p s act = some t) :
    (Ages s t ∧ t.calls = s.calls) ∨
    (∃ patient backoff, act = .begin_ patient ∧
      t = { s with calls := s.calls ++ [{ backoff, primaryOut := !s.isDemoted 0 (s.credential 0) }] }) ∨
    ∃ id call s' call', s.calls[id]? = some call ∧ CallStep p s id call s' call' ∧
      t = { s' with calls := s.calls.set id call' } := by
  cases act with
  | tick nanos =>
    cases h
    exact .inl ⟨⟨Nat.le_add_right _ _, fun _ => le_refl _, rfl, rfl, rfl⟩, rfl⟩
  | replaceToken shared =>
    cases h
    refine .inl ⟨⟨le_refl _, fun idx => ?_, rfl, rfl, rfl⟩, rfl⟩
    dsimp only
    split
    · exact Nat.le_succ _
    · exact le_refl _
  | begin_ patient =>
    cases h
    exact .inr (.inl ⟨patient, _, rfl, rfl⟩)
  | advance id outcome =>
    obtain ⟨call, s', call', hget, hcall, rfl⟩ := step_advance h
    exact .inr (.inr ⟨id, call, s', call', hget, hcall, rfl⟩)

theorem dated_start (now : Nat) (credential : Nat → Nat) : Dated p (start now credential : State α) where
  answered _ _ _ _ _ h := nomatch h
  calls _ h := nomatch h

theorem dated_step (h : Dated p s) (hstep : step p s act = some t) : Dated p t := by
  rcases step_cases hstep with ⟨hages, hcalls⟩ | ⟨patient, backoff, -, rfl⟩ |
    ⟨id, call, s', call', hget, hcall, rfl⟩
  · refine ⟨fun call idx c time outcome hmem => ?_, fun call hmem => ?_⟩
    · exact le_trans (h.answered call idx c time outcome (hages.log ▸ hmem)) (hages.credential idx)
    · exact (h.calls call (hcalls ▸ hmem)).mono hages.credential
  · refine ⟨h.answered, fun call hmem => ?_⟩
    rcases List.mem_append.mp hmem with hmem | hmem
    · exact h.calls call hmem
    · obtain rfl := List.mem_singleton.mp hmem
      trivial
  · have hold : call ∈ s.calls := List.mem_of_getElem? hget
    have hcredential : s'.credential = s.credential := hcall.credential_eq
    refine ⟨fun call₀ idx c time outcome hmem => ?_, fun call₀ hmem => ?_⟩
    · change c ≤ s'.credential idx
      rw [hcredential]
      rcases hcall.answered hmem with hmem | ⟨w, hphase, rfl, -⟩
      · exact h.answered call₀ idx c time outcome hmem
      · have hdated := h.calls call hold
        unfold Call.Dated at hdated
        rw [hphase] at hdated
        exact hdated
    · rcases List.mem_or_eq_of_mem_set hmem with hmem | rfl
      · exact (h.calls call₀ hmem).mono fun idx => le_of_eq (congrFun hcredential idx).symm
      · exact hcall.dated

/-! ## One call after another -/

/-- All calls but the last have returned. -/
def Alone (s : State α) : Prop := ∀ call ∈ s.calls.dropLast, call.Returned

theorem not_returned_of_callStep (h : CallStep p s id call s' call') : ¬ call.Returned := by
  rintro ⟨result, hreturned⟩
  cases h with
  | _ => simp_all

/-- The call that goes on is the last one. -/
theorem Alone.last (h : Alone s) (hget : s.calls[id]? = some call) (hnot : ¬ call.Returned) :
    ∃ earlier, s.calls = earlier ++ [call] ∧ (∀ call ∈ earlier, call.Returned) ∧ id = earlier.length := by
  rcases List.eq_nil_or_concat s.calls with hnil | ⟨earlier, last, hcalls⟩
  · rw [hnil] at hget
    cases hget
  · rw [List.concat_eq_append] at hcalls
    unfold Alone at h
    rw [hcalls, List.dropLast_concat] at h
    rw [hcalls] at hget
    by_cases hlt : id < earlier.length
    · rw [List.getElem?_append_left hlt] at hget
      exact absurd (h call (List.mem_of_getElem? hget)) hnot
    · rw [List.getElem?_append_right (Nat.le_of_not_lt hlt)] at hget
      obtain ⟨hid, hlast⟩ := List.getElem?_eq_some_iff.mp hget
      rw [List.length_singleton] at hid
      obtain rfl : id = earlier.length := by omega
      refine ⟨earlier, ?_, h, rfl⟩
      rw [hcalls, ← hlast, List.getElem_singleton]

/-- What a step can do while calls are made one after another. -/
theorem sequential_cases (halone : Alone s) (hact : Sequential s act) (h : step p s act = some t) :
    (Ages s t ∧ t.calls = s.calls) ∨
    (∃ backoff, (∀ call ∈ s.calls, call.Returned) ∧
      t = { s with calls := s.calls ++ [{ backoff, primaryOut := !s.isDemoted 0 (s.credential 0) }] }) ∨
    ∃ earlier call s' call', s.calls = earlier ++ [call] ∧ (∀ call ∈ earlier, call.Returned) ∧
      CallStep p s earlier.length call s' call' ∧ t = { s' with calls := earlier ++ [call'] } := by
  rcases step_cases h with haged | ⟨patient, backoff, rfl, ht⟩ | ⟨id, call, s', call', hget, hcall, ht⟩
  · exact .inl haged
  · exact .inr (.inl ⟨backoff, hact, ht⟩)
  · obtain ⟨earlier, hcalls, hreturned, rfl⟩ := halone.last hget (not_returned_of_callStep hcall)
    rw [hcalls, List.set_append_right _ _ (le_refl _), Nat.sub_self] at ht
    exact .inr (.inr ⟨earlier, call, s', call', hcalls, hreturned, hcall, ht⟩)

theorem alone_step (h : Alone s) (hact : Sequential s act) (hstep : step p s act = some t) : Alone t := by
  unfold Alone at h ⊢
  rcases sequential_cases h hact hstep with ⟨-, hcalls⟩ | ⟨backoff, hreturned, rfl⟩ |
    ⟨earlier, call, s', call', -, hreturned, -, rfl⟩
  · rwa [hcalls]
  · rwa [List.dropLast_concat]
  · rwa [List.dropLast_concat]

/-! ## Failures that stand -/

/-- The failure no longer holds the provider out. -/
def Lifted (s : State α) (idx credential time : Nat) : Prop :=
  time + secs DEMOTION_SECS ≤ s.now ∨ credential < s.credential idx

/-- The bench holds the provider out for as long as the failure does. -/
def Bench.Covers (bench : Bench) (credential time : Nat) : Prop :=
  bench.credential = credential ∧ time + secs DEMOTION_SECS ≤ bench.until_

/-- None of the provider's failures stands. -/
def Open (s : State α) (idx : Nat) : Prop :=
  ∀ credential time, Failed s.log idx credential time → Lifted s idx credential time

/-- Each failure is over, or covered, or one of the calls is about to set the bench. -/
def Covered (s : State α) (calls : List (Call α)) : Prop :=
  ∀ idx credential time, Failed s.log idx credential time → Lifted s idx credential time ∨
    (∃ bench, s.benches idx = some bench ∧ bench.Covers credential time) ∨
    ∃ call ∈ calls, ∃ w bench, call.phase = .demoting w idx bench

/-- What a call knows of the failures of the provider that it is at. -/
def Guarded (p : Providers) (s : State α) (call : Call α) : Prop :=
  match call.phase with
  | .checking w credential => ∀ credential' time, Failed s.log (w.idx p) credential' time →
      credential' ≤ credential
  | .admitted w | .calling w _ => Open s (w.idx p)
  | .demoting _ idx bench => ∀ credential time, Failed s.log idx credential time →
      Lifted s idx credential time ∨ bench.Covers credential time
  | .clearing idx _ => Open s idx
  | _ => True

theorem Lifted.mono (h : Lifted s idx credential time) (hnow : s.now ≤ t.now)
    (hcredential : ∀ idx, s.credential idx ≤ t.credential idx) : Lifted t idx credential time :=
  h.imp (le_trans · hnow) (lt_of_lt_of_le · (hcredential idx))

theorem CallStep.lifted (h : CallStep p s id call s' call') (hlifted : Lifted s idx credential time) :
    Lifted s' idx credential time :=
  hlifted.mono (le_of_eq h.now_eq.symm) fun idx => le_of_eq (congrFun h.credential_eq idx).symm

/-- A failure that is new. -/
theorem CallStep.failed (h : CallStep p s id call s' call') (hfailed : Failed s'.log idx credential time) :
    Failed s.log idx credential time ∨ ∃ w outcome, call.phase = .calling w credential ∧ idx = w.idx p ∧
      time = s.now ∧ outcome.Fails ∧ call'.phase = afterAnswer p s w credential outcome := by
  obtain ⟨call₀, outcome, hmem, hfails⟩ := hfailed
  rcases h.answered hmem with hmem | ⟨w, hphase, hidx, -, htime, hafter⟩
  · exact .inl ⟨call₀, outcome, hmem, hfails⟩
  · exact .inr ⟨w, outcome, hphase, hidx, htime, hfails, hafter⟩

/-- A deterministic failure is benched, under its credential and for its time. -/
theorem afterAnswer_of_fails (w : Sweep) (credential : Nat) {outcome : Outcome α} (h : outcome.Fails) :
    ∃ w', afterAnswer p s w credential outcome =
      .demoting w' (w.idx p) ⟨s.now + secs DEMOTION_SECS, credential⟩ := by
  rcases afterAnswer_cases (p := p) (s := s) w credential outcome with
    ⟨_, -, -, -, -, hnot⟩ | ⟨w', n, hafter, -, -, -, hheld⟩ | ⟨_, _, rfl, -⟩
  · exact absurd h hnot
  · obtain rfl := Option.some.inj (hheld.symm.trans (heldFor_of_fails h))
    exact ⟨w', hafter⟩
  · cases h

theorem CallStep.covered (h : CallStep p s id call s' call') (hguarded : Guarded p s call)
    (hcovered : Covered s [call]) : Covered s' [call'] := by
  intro idx c time hfailed
  rcases h.failed hfailed with hfailed | ⟨w, outcome, -, rfl, -, hfails, hafter⟩
  · have hlifted : Lifted s idx c time → Lifted s' idx c time := h.lifted
    have hold : Lifted s idx c time ∨ (∃ bench, s.benches idx = some bench ∧ bench.Covers c time) ∨
        ∃ w bench, call.phase = .demoting w idx bench := by
      simpa only [List.mem_singleton, exists_eq_left] using hcovered idx c time hfailed
    unfold Guarded at hguarded
    cases h with
    | @demote w idx' bench hphase =>
      rw [hphase] at hguarded
      by_cases hidx : idx = idx'
      · subst hidx
        exact (hguarded c time hfailed).imp hlifted fun hcovers =>
          .inl ⟨bench, Function.update_self .., hcovers⟩
      · rcases hold with hold | ⟨bench', hbench, hcovers⟩ | ⟨w', bench', hdemoting⟩
        · exact .inl (hlifted hold)
        · exact .inr (.inl ⟨bench', (Function.update_of_ne hidx ..).trans hbench, hcovers⟩)
        · cases hphase.symm.trans hdemoting
          exact absurd rfl hidx
    | @clear idx' embedding hphase =>
      rw [hphase] at hguarded
      by_cases hidx : idx = idx'
      · subst hidx
        exact .inl (hlifted (hguarded c time hfailed))
      · rcases hold with hold | ⟨bench', hbench, hcovers⟩ | ⟨w', bench', hdemoting⟩
        · exact .inl (hlifted hold)
        · exact .inr (.inl ⟨bench', (Function.update_of_ne hidx ..).trans hbench, hcovers⟩)
        · cases hphase.symm.trans hdemoting
    | _ =>
      rcases hold with hold | hbench | ⟨w', bench', hdemoting⟩
      · exact .inl (hlifted hold)
      · exact .inr (.inl hbench)
      · simp_all
  · obtain ⟨w', hdemoting⟩ := afterAnswer_of_fails (p := p) (s := s) w c hfails
    exact .inr (.inr ⟨call', List.mem_singleton_self _, w', _, hafter.trans hdemoting⟩)

/-- A provider is let in when none of its failures stands. -/
theorem open_of_enter {w : Sweep} (hcovered : Covered s [call]) (hphase : call.phase = .checking w credential)
    (hfree : s.isDemoted (w.idx p) credential = false) (hdated : call.Dated p s)
    (hguarded : Guarded p s call) : Open s (w.idx p) := by
  intro c time hfailed
  unfold Call.Dated at hdated
  unfold Guarded at hguarded
  rw [hphase] at hdated hguarded
  rcases hcovered _ c time hfailed with hlifted | ⟨bench, hbench, rfl, huntil⟩ | ⟨call', hmem, _, _, hdemoting⟩
  · exact hlifted
  · by_cases hnow : s.now < bench.until_
    · refine .inr (lt_of_lt_of_le (lt_of_le_of_ne (hguarded _ time hfailed) fun heq => ?_) hdated)
      exact Bool.eq_false_iff.mp hfree (isDemoted_eq_true.mpr ⟨bench, hbench, hnow, heq⟩)
    · exact .inl (le_trans huntil (Nat.le_of_not_lt hnow))
  · obtain rfl := List.mem_singleton.mp hmem
    cases hphase.symm.trans hdemoting

theorem CallStep.guarded (h : CallStep p s id call s' call') (hanswered : Dated p s)
    (hdated : call.Dated p s) (hcovered : Covered s [call]) (hguarded : Guarded p s call) :
    Guarded p s' call' := by
  have hfailed : ∀ {idx c time}, Failed s'.log idx c time → _ := h.failed
  have hlifted : ∀ {idx c time}, Lifted s idx c time → Lifted s' idx c time := h.lifted
  cases h with
  | look hphase =>
    rintro c time ⟨call₀, outcome, hmem, -⟩
    exact hanswered.answered call₀ _ c time outcome hmem
  | enter hphase hfree => exact open_of_enter hcovered hphase hfree hdated hguarded
  | call hphase =>
    unfold Guarded at hguarded
    rw [hphase] at hguarded
    intro c time hnew
    rcases hfailed hnew with hold | ⟨w, _, hcalling, -⟩
    · exact hlifted (hguarded c time hold)
    · cases hphase.symm.trans hcalling
  | @answer w credential outcome hphase =>
    unfold Guarded at hguarded ⊢
    rw [hphase] at hguarded
    dsimp only at hguarded ⊢
    -- a new failure is the one that has just been answered
    have hnewest : ∀ {idx c time},
        Failed (.answered id (w.idx p) credential s.now outcome :: s.log) idx c time →
        Failed s.log idx c time ∨ ∃ w', afterAnswer p s w credential outcome =
          .demoting w' idx ⟨time + secs DEMOTION_SECS, c⟩ := by
      intro idx c time hnew
      rcases hfailed hnew with hold | ⟨w', outcome', hcalling, rfl, rfl, hfails, hafter⟩
      · exact .inl hold
      · cases hphase.symm.trans hcalling
        obtain ⟨w', hdemoting⟩ := afterAnswer_of_fails (p := p) (s := s) w credential hfails
        exact .inr ⟨w', hafter.trans hdemoting⟩
    rcases afterAnswer_cases (p := p) (s := s) w credential outcome with
      ⟨w', hafter, -⟩ | ⟨w', n, hafter, -⟩ | ⟨x, embedding, -, hafter⟩
    · rw [hafter]
      trivial
    · rw [hafter]
      intro c time hnew
      rcases hnewest hnew with hold | ⟨w', hdemoting⟩
      · exact .inl (hlifted (hguarded c time hold))
      · obtain ⟨-, -, hbench⟩ := Phase.demoting.inj (hafter.symm.trans hdemoting)
        rw [hbench]
        exact .inr ⟨rfl, le_refl _⟩
    · rw [hafter]
      intro c time hnew
      rcases hnewest hnew with hold | ⟨w', hdemoting⟩
      · exact hlifted (hguarded c time hold)
      · cases hafter.symm.trans hdemoting
  | _ => trivial

theorem CallStep.apart (h : CallStep p s id call s' call') (hguarded : Guarded p s call)
    (hapart : s.log.Pairwise Apart) : s'.log.Pairwise Apart := by
  cases h with
  | call hphase =>
    unfold Guarded at hguarded
    rw [hphase] at hguarded
    refine List.pairwise_cons.mpr ⟨?_, hapart⟩
    rintro _ hmem call₀ idx c time outcome rfl hfails call' time' heq
    cases heq
    exact (hguarded _ _ ⟨call₀, outcome, hmem, hfails⟩).resolve_right (lt_irrefl _)
  | answer => exact List.pairwise_cons.mpr ⟨fun _ _ _ _ _ _ _ _ _ _ _ heq => (nomatch heq), hapart⟩
  | _ => exact hapart

/-! ## Every run of calls made one after another -/

/-- What holds while calls are made one after another. -/
structure Spaced (p : Providers) (s : State α) : Prop where
  dated : Dated p s
  alone : Alone s
  covered : Covered s s.calls
  guarded : ∀ call ∈ s.calls, Guarded p s call
  apart : s.log.Pairwise Apart

theorem spaced_start (now : Nat) (credential : Nat → Nat) : Spaced p (start now credential : State α) where
  dated := dated_start now credential
  alone _ h := nomatch h
  covered := fun _ _ _ ⟨_, _, h, _⟩ => nomatch h
  guarded _ h := nomatch h
  apart := .nil

theorem guarded_of_returned (h : call.Returned) : Guarded p s call := by
  obtain ⟨result, hphase⟩ := h
  unfold Guarded
  rw [hphase]
  trivial

theorem Guarded.mono (h : Guarded p s call) (hages : Ages s t) : Guarded p t call := by
  have hlifted : ∀ {idx c time}, Lifted s idx c time → Lifted t idx c time :=
    fun hlifted => hlifted.mono hages.now hages.credential
  unfold Guarded Open at h ⊢
  rw [hages.log]
  cases hphase : call.phase with
  | checking =>
    rw [hphase] at h
    exact h
  | admitted | calling | clearing =>
    rw [hphase] at h
    exact fun c time hfailed => hlifted (h c time hfailed)
  | demoting =>
    rw [hphase] at h
    exact fun c time hfailed => (h c time hfailed).imp_left hlifted
  | _ => trivial

theorem spaced_step (h : Spaced p s) (hact : Sequential s act) (hstep : step p s act = some t) :
    Spaced p t := by
  have hdated : Dated p t := dated_step h.dated hstep
  have halone : Alone t := alone_step h.alone hact hstep
  rcases sequential_cases h.alone hact hstep with ⟨hages, hcalls⟩ | ⟨backoff, hreturned, rfl⟩ |
    ⟨earlier, call, s', call', hcalls, hreturned, hcall, rfl⟩
  · refine ⟨hdated, halone, ?_, ?_, hages.log ▸ h.apart⟩
    · intro idx c time hfailed
      rw [hages.benches, hcalls]
      exact (h.covered idx c time (hages.log ▸ hfailed)).imp_left (·.mono hages.now hages.credential)
    · exact fun call hmem => (h.guarded call (hcalls ▸ hmem)).mono hages
  · refine ⟨hdated, halone, ?_, ?_, h.apart⟩
    · intro idx c time hfailed
      refine (h.covered idx c time hfailed).imp_right (Or.imp_right ?_)
      exact fun ⟨call, hmem, hdemoting⟩ => ⟨call, List.mem_append_left _ hmem, hdemoting⟩
    · intro call hmem
      rcases List.mem_append.mp hmem with hmem | hmem
      · exact guarded_of_returned (hreturned call hmem)
      · obtain rfl := List.mem_singleton.mp hmem
        trivial
  · have hmem : call ∈ s.calls := hcalls ▸ List.mem_append_right _ (List.mem_singleton_self _)
    have hone : Covered s [call] := by
      intro idx c time hfailed
      refine (h.covered idx c time hfailed).imp_right (Or.imp_right ?_)
      rintro ⟨call₀, hcall₀, w, bench, hdemoting⟩
      rw [hcalls] at hcall₀
      rcases List.mem_append.mp hcall₀ with hcall₀ | hcall₀
      · obtain ⟨result, hphase⟩ := hreturned call₀ hcall₀
        cases hphase.symm.trans hdemoting
      · exact ⟨call₀, hcall₀, w, bench, hdemoting⟩
    have hguarded : Guarded p s call := h.guarded call hmem
    refine ⟨hdated, halone, ?_, ?_, hcall.apart hguarded h.apart⟩
    · intro idx c time hfailed
      refine (hcall.covered hguarded hone idx c time hfailed).imp_right (Or.imp_right ?_)
      exact fun ⟨call₀, hcall₀, hdemoting⟩ => ⟨call₀, List.mem_append_right _ hcall₀, hdemoting⟩
    · intro call₀ hcall₀
      rcases List.mem_append.mp hcall₀ with hcall₀ | hcall₀
      · exact guarded_of_returned (hreturned call₀ hcall₀)
      · obtain rfl := List.mem_singleton.mp hcall₀
        exact hcall.guarded h.dated (h.dated.calls call hmem) hone hguarded

end Nanna.Daemon.Embedding
