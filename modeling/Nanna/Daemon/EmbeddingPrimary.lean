import Nanna.Daemon.EmbeddingBenches

/-!
# The primary is tried first, and what answers is active

While calls are made one after another, a call that begins with the primary out of its bench tries the
primary first (`Probing`), and once the last call has returned, the provider that answered it is
the active one (`Settled`).

A bench was never set under a credential newer than the client's, so a primary that is out of its
bench stays out while time passes and tokens are replaced (`OutFor`).
-/

namespace Nanna.Daemon.Embedding

open Nanna.Lib

variable {α : Type} {p : Providers} {s s' t : State α} {id idx credential time : Nat}
  {call call' : Call α} {act : Act α}

/-- The primary is not benched, for a caller that has read this credential. -/
def OutFor (s : State α) (credential : Nat) : Prop :=
  ∀ bench, s.benches 0 = some bench → bench.until_ ≤ s.now ∨ bench.credential < credential

/-- The sweep is about to look at the primary, the first of all. -/
def Call.Before (call : Call α) (w : Sweep) : Prop :=
  call.tried = [] ∧ w.currentIdx = 0 ∧ w.offset = 0

/-- A call that began with the primary out of its bench tries it first. -/
def Probing (s : State α) (call : Call α) : Prop :=
  match call.phase with
  | .start | .readPrimary _ => call.tried = [] ∧ OutFor s (s.credential 0)
  | .checkPrimary _ credential => call.tried = [] ∧ OutFor s credential
  | .sweeping w => call.tried.head? = some 0 ∨ call.Before w ∧ OutFor s (s.credential 0)
  | .checking w credential => call.tried.head? = some 0 ∨ call.Before w ∧ OutFor s credential
  | .admitted w => call.tried.head? = some 0 ∨ call.Before w
  | _ => call.tried.head? = some 0

/-- The provider answered the call. -/
def Answered (log : List (Event α)) (id idx : Nat) : Prop :=
  ∃ credential time x embedding, .answered id idx credential time (.vector (x :: embedding)) ∈ log

/-- What has answered the call is to be active. -/
def Settled (s : State α) (id : Nat) (call : Call α) : Prop :=
  match call.phase with
  | .clearing idx _ | .swapping idx _ => ∀ idx', Answered s.log id idx' → idx = idx'
  | .bumping _ _ | .returned _ => ∀ idx', Answered s.log id idx' → s.active = idx'
  | _ => ∀ idx', ¬ Answered s.log id idx'

/-! ## The first provider of a call -/

theorem OutFor.mono {credential' : Nat} (h : OutFor s credential) (hle : credential ≤ credential')
    (hages : Ages s t) : OutFor t credential' := fun bench hbench =>
  (h bench (hages.benches ▸ hbench)).imp (le_trans · hages.now) (lt_of_lt_of_le · hle)

theorem Ages.refl : Ages s s := ⟨le_refl _, fun _ => le_refl _, rfl, rfl, rfl⟩

theorem isDemoted_of_outFor (h : OutFor s credential) : s.isDemoted 0 credential = false := by
  refine Bool.eq_false_iff.mpr fun hdemoted => ?_
  obtain ⟨bench, hbench, hnow, heq⟩ := isDemoted_eq_true.mp hdemoted
  rcases h bench hbench with hle | hlt
  · exact absurd hnow (Nat.not_lt_of_le hle)
  · exact absurd heq (Nat.ne_of_lt hlt)

theorem outFor_of_isDemoted (hbench : ∀ bench, s.benches 0 = some bench → bench.credential ≤ credential)
    (h : s.isDemoted 0 credential = false) : OutFor s credential := by
  intro bench hsome
  by_cases hnow : s.now < bench.until_
  · refine .inr (lt_of_le_of_ne (hbench bench hsome) fun heq => ?_)
    exact Bool.eq_false_iff.mp h (isDemoted_eq_true.mpr ⟨bench, hsome, hnow, heq⟩)
  · exact .inl (Nat.le_of_not_lt hnow)

theorem idx_of_before {w : Sweep} (h : call.Before w) : w.idx p = 0 := by
  rw [Sweep.idx, h.2.1, h.2.2, Nat.zero_add, Nat.zero_mod]

theorem Providers.total_pos : 0 < p.total := Nat.succ_pos _

theorem CallStep.probing (h : CallStep p s id call s' call') (hdated : call.Dated p s)
    (hprobing : Probing s call) : Probing s' call' := by
  unfold Probing at hprobing
  unfold Call.Dated at hdated
  cases h with
  | startPrimary hphase =>
    rw [hphase] at hprobing
    exact .inr ⟨⟨hprobing.1, rfl, rfl⟩, hprobing.2⟩
  | startFallback hphase | readPrimary hphase =>
    rw [hphase] at hprobing
    exact hprobing
  | primaryDemoted hphase hdemoted =>
    rw [hphase] at hprobing
    cases hdemoted.symm.trans (isDemoted_of_outFor hprobing.2)
  | primaryFree hphase =>
    rw [hphase] at hprobing hdated
    exact .inr ⟨⟨hprobing.1, rfl, rfl⟩, hprobing.2.mono hdated .refl⟩
  | wake hphase | demote hphase =>
    rw [hphase] at hprobing
    exact .inl hprobing
  | look hphase =>
    rw [hphase] at hprobing
    refine hprobing.imp_right fun ⟨hbefore, hout⟩ => ⟨hbefore, ?_⟩
    rwa [idx_of_before hbefore]
  | fail hphase hend | sleep hphase hend =>
    rw [hphase] at hprobing
    refine hprobing.resolve_right fun ⟨hbefore, _⟩ => ?_
    exact absurd (hbefore.2.2 ▸ hend) (Nat.not_le_of_lt Providers.total_pos)
  | skip hphase _ hdemoted =>
    rw [hphase] at hprobing
    refine .inl (hprobing.resolve_right fun ⟨hbefore, hout⟩ => ?_)
    rw [idx_of_before hbefore, isDemoted_of_outFor hout] at hdemoted
    cases hdemoted
  | enter hphase =>
    rw [hphase] at hprobing
    exact hprobing.imp_right And.left
  | call hphase =>
    rw [hphase] at hprobing
    change (call.tried ++ [_]).head? = some 0
    rcases hprobing with hhead | hbefore
    · rw [List.head?_append, hhead]
      rfl
    · rw [hbefore.1, idx_of_before hbefore]
      rfl
  | @answer w credential outcome hphase =>
    rw [hphase] at hprobing
    unfold Probing
    dsimp only
    rcases afterAnswer_cases (p := p) (s := s) w credential outcome with
      ⟨_, hafter, -⟩ | ⟨_, _, hafter, -⟩ | ⟨_, _, -, hafter⟩
    · rw [hafter]
      exact .inl hprobing
    · rw [hafter]
      exact hprobing
    · rw [hafter]
      exact hprobing
  | clear hphase | keep hphase | swap hphase | bump hphase =>
    rw [hphase] at hprobing
    exact hprobing

theorem Probing.mono (h : Probing s call) (hages : Ages s t) : Probing t call := by
  have hnext : OutFor s (s.credential 0) → OutFor t (t.credential 0) :=
    fun hout => hout.mono (hages.credential 0) hages
  have hsame : ∀ {credential}, OutFor s credential → OutFor t credential :=
    fun hout => hout.mono (le_refl _) hages
  unfold Probing at h ⊢
  cases hphase : call.phase with
  | start | readPrimary =>
    rw [hphase] at h
    exact h.imp_right hnext
  | checkPrimary =>
    rw [hphase] at h
    exact h.imp_right hsame
  | sweeping =>
    rw [hphase] at h
    exact h.imp_right (And.imp_right hnext)
  | checking =>
    rw [hphase] at h
    exact h.imp_right (And.imp_right hsame)
  | _ =>
    rw [hphase] at h
    exact h

/-! ## The provider that answers -/

theorem CallStep.settled (h : CallStep p s id call s' call') (hsettled : Settled s id call) :
    Settled s' id call' := by
  unfold Settled at hsettled
  cases h with
  | @answer w credential outcome hphase =>
    rw [hphase] at hsettled
    have hnew : ∀ idx', Answered (.answered id (w.idx p) credential s.now outcome :: s.log) id idx' →
        w.idx p = idx' ∧ ∃ x embedding, outcome = .vector (x :: embedding) := by
      rintro idx' ⟨c, time, x, embedding, hmem⟩
      rcases List.mem_cons.mp hmem with heq | hmem
      · cases heq
        exact ⟨rfl, x, embedding, rfl⟩
      · exact absurd ⟨c, time, x, embedding, hmem⟩ (hsettled idx')
    unfold Settled
    dsimp only
    rcases afterAnswer_cases (p := p) (s := s) w credential outcome with
      ⟨_, hafter, -, -, hvain, -⟩ | ⟨_, _, hafter, -, -, hvain, -⟩ | ⟨_, _, -, hafter⟩
    · rw [hafter]
      intro idx' hanswered
      obtain ⟨-, x, embedding, rfl⟩ := hnew idx' hanswered
      cases hvain
    · rw [hafter]
      intro idx' hanswered
      obtain ⟨-, x, embedding, rfl⟩ := hnew idx' hanswered
      cases hvain
    · rw [hafter]
      exact fun idx' hanswered => (hnew idx' hanswered).1
  | call hphase =>
    rw [hphase] at hsettled
    rintro idx' ⟨c, time, x, embedding, hmem⟩
    exact hsettled idx' ⟨c, time, x, embedding, (List.mem_cons.mp hmem).resolve_left nofun⟩
  | keep hphase hactive =>
    rw [hphase] at hsettled
    exact fun idx' hanswered => hactive.trans (hsettled idx' hanswered)
  | fail hphase =>
    rw [hphase] at hsettled
    exact fun idx' hanswered => absurd hanswered (hsettled idx')
  | startPrimary hphase | startFallback hphase | readPrimary hphase | primaryDemoted hphase
  | primaryFree hphase | wake hphase | look hphase | sleep hphase | skip hphase | enter hphase
  | demote hphase | clear hphase | swap hphase | bump hphase =>
    rw [hphase] at hsettled
    exact hsettled

theorem CallStep.primaryOut_eq (h : CallStep p s id call s' call') : call'.primaryOut = call.primaryOut := by
  cases h with
  | _ => rfl

/-! ## Every run of calls made one after another -/

/-- What the calls have tried, and which provider is active. -/
structure Probed (s : State α) : Prop where
  fresh : ∀ id idx, Answered s.log id idx → id < s.calls.length
  settled : ∀ earlier call, s.calls = earlier ++ [call] → Settled s earlier.length call
  probing : ∀ call ∈ s.calls, call.primaryOut = true → Probing s call

theorem probed_start (now : Nat) (credential : Nat → Nat) : Probed (start now credential : State α) where
  fresh := fun _ _ ⟨_, _, _, _, h⟩ => nomatch h
  settled earlier _ h := by cases earlier with | _ => cases h
  probing _ h := nomatch h

theorem probing_of_returned (hreturned : call.Returned) (h : Probing s call) : Probing t call := by
  obtain ⟨result, hphase⟩ := hreturned
  unfold Probing at h ⊢
  rw [hphase] at h ⊢
  exact h

/-- A bench was set under a credential that the client has had. -/
theorem bench_dated {bench : Bench} (hfounded : Founded p s) (hdated : Dated p s)
    (hbench : s.benches idx = some bench) : bench.credential ≤ s.credential idx := by
  obtain ⟨call, time, outcome, n, hmem, -⟩ := hfounded.bench idx bench hbench
  exact hdated.answered call idx bench.credential time outcome hmem

theorem probed_step (hfounded : Founded p s) (hspaced : Spaced p s) (h : Probed s)
    (hact : Sequential s act) (hstep : step p s act = some t) : Probed t := by
  rcases sequential_cases hspaced.alone hact hstep with ⟨hages, hcalls⟩ | ⟨backoff, hreturned, rfl⟩ |
    ⟨earlier, call, s', call', hcalls, hreturned, hcall, rfl⟩
  · refine ⟨?_, fun earlier call heq => ?_, fun call hmem hout => ?_⟩
    · rw [hages.log, hcalls]
      exact h.fresh
    · have hsettled := h.settled earlier call (hcalls ▸ heq)
      unfold Settled at hsettled ⊢
      rwa [hages.log, hages.active]
    · exact (h.probing call (hcalls ▸ hmem) hout).mono hages
  · have hbench : ∀ bench, s.benches 0 = some bench → bench.credential ≤ s.credential 0 :=
      fun bench => bench_dated hfounded hspaced.dated
    refine ⟨fun id idx hanswered => ?_, fun earlier call heq => ?_, fun call hmem hout => ?_⟩
    · exact lt_of_lt_of_le (h.fresh id idx hanswered) (List.length_append ▸ Nat.le_add_right _ _)
    · obtain ⟨rfl, hlast⟩ := List.append_inj' heq rfl
      cases hlast
      exact fun idx hanswered => absurd (h.fresh _ idx hanswered) (lt_irrefl _)
    · rcases List.mem_append.mp hmem with hmem | hmem
      · exact probing_of_returned (hreturned call hmem) (h.probing call hmem hout)
      · obtain rfl := List.mem_singleton.mp hmem
        have hfree : s.isDemoted 0 (s.credential 0) = false := by simpa using hout
        exact ⟨rfl, outFor_of_isDemoted hbench hfree⟩
  · have hmem : call ∈ s.calls := hcalls ▸ List.mem_append_right _ (List.mem_singleton_self _)
    refine ⟨fun id idx hanswered => ?_, fun earlier' last heq => ?_, fun call₀ hcall₀ hout => ?_⟩
    · obtain ⟨c, time, x, embedding, hevent⟩ := hanswered
      have hlength : s.calls.length = (earlier ++ [call']).length := by
        rw [hcalls, List.length_append, List.length_append]
        rfl
      change id < (earlier ++ [call']).length
      rcases hcall.answered hevent with hevent | ⟨-, -, -, rfl, -⟩
      · exact hlength ▸ h.fresh id idx ⟨c, time, x, embedding, hevent⟩
      · rw [List.length_append]
        exact Nat.lt_succ_self _
    · obtain ⟨rfl, hlast⟩ := List.append_inj' heq rfl
      cases hlast
      exact hcall.settled (h.settled earlier call hcalls)
    · rcases List.mem_append.mp hcall₀ with hearlier | hlast
      · have hold : call₀ ∈ s.calls := hcalls ▸ List.mem_append_left _ hearlier
        exact probing_of_returned (hreturned call₀ hearlier) (h.probing call₀ hold hout)
      · obtain rfl := List.mem_singleton.mp hlast
        refine hcall.probing (hspaced.dated.calls call hmem) (h.probing call hmem ?_)
        exact hcall.primaryOut_eq ▸ hout

end Nanna.Daemon.Embedding
