import Mathlib.Data.List.Destutter
import Nanna.Daemon.EmbeddingPrimary

/-!
# What the router keeps

`router_keeps`: while calls are made one after another, a provider that fails deterministically is
left alone for `DEMOTION_SECS` under that credential, a primary that is out of its bench is tried first,
and what answers is active afterwards. However calls interleave, no bench goes back to an input overflow,
a call that fails found no vector at any provider in its last sweep, the switches are the history of the
active provider, each is reported once with a vector of its provider, and the generation counts the reports.

A section that changes the active provider records the switch, and one that counts the generation reports it
(`CallStep.commits`).
-/

namespace Nanna.Daemon.Embedding

open Nanna.Lib

variable {α : Type} {p : Providers} {s s' t first : State α} {id idx : Nat} {call call' : Call α}
  {act : Act α} {embedding : List α}

/-- The states of a run, newest first. -/
inductive Run (p : Providers) (first : State α) : List (State α) → Prop
  | start : Run p first [first]
  | step {s t : State α} {past : List (State α)} {act : Act α} : Run p first (s :: past) →
      step p s act = some t → Run p first (t :: s :: past)

/-- The values that the active provider has had, newest first. -/
def history (states : List (State α)) : List Nat := (states.map State.active).destutter (· ≠ ·)

/-- The call has reported a switch. -/
def Call.reports (call : Call α) : Bool :=
  match call.phase with
  | .returned (.ok (_, some _)) => true
  | _ => false

/-- The call has switched, and has still to count the generation. -/
def Call.counting (call : Call α) : Bool :=
  match call.phase with
  | .bumping _ _ => true
  | _ => false

/-- The provider answered the call with the vector. -/
def Produced (log : List (Event α)) (id idx : Nat) (embedding : List α) : Prop :=
  ∃ credential time, .answered id idx credential time (.vector embedding) ∈ log

/-- What a call does with a vector. -/
def Tracked (p : Providers) (s : State α) (id : Nat) (call : Call α) : Prop :=
  match call.phase with
  | .clearing idx embedding | .swapping idx embedding => Produced s.log id idx embedding
  | .bumping idx embedding => ⟨id, idx, embedding⟩ ∈ s.switches
  | .returned (.ok (embedding, some info)) =>
    ∃ switch ∈ s.switches, switch.call = id ∧ switch.embedding = embedding ∧ p.info switch.provider = info
  | _ => True

/-- The switches and the reports. -/
structure Reported (p : Providers) (s : State α) : Prop where
  /-- Each switch is about to be counted, or reported. -/
  switch : ∀ switch ∈ s.switches, ∃ call, s.calls[switch.call]? = some call ∧
    (call.phase = .bumping switch.provider switch.embedding ∨
      call.phase = .returned (.ok (switch.embedding, some (p.info switch.provider))))
  /-- A call switches once at most. -/
  nodup : (s.switches.map Switch.call).Nodup
  produced : ∀ switch ∈ s.switches, Produced s.log switch.call switch.provider switch.embedding
  tracked : ∀ id call, s.calls[id]? = some call → Tracked p s id call
  count : s.switches.length = s.calls.countP Call.reports + s.calls.countP Call.counting
  generation : s.generation = UInt64.ofNat (s.calls.countP Call.reports)

/-! ## One section -/

/-- What a section does to the active provider and to the generation. -/
theorem CallStep.commits (h : CallStep p s id call s' call') :
    (s'.active = s.active ∧ s'.switches = s.switches ∧ s'.generation = s.generation ∧
      call.counting = false ∧ call'.counting = false ∧ call'.reports = false) ∨
    (∃ idx embedding, call.phase = .swapping idx embedding ∧ s.active ≠ idx ∧ s'.active = idx ∧
      s'.switches = ⟨id, idx, embedding⟩ :: s.switches ∧ s'.generation = s.generation ∧
      call'.phase = .bumping idx embedding) ∨
    ∃ idx embedding, call.phase = .bumping idx embedding ∧ s'.active = s.active ∧
      s'.switches = s.switches ∧ s'.generation = s.generation + 1 ∧
      call'.phase = .returned (.ok (embedding, some (p.info idx))) := by
  have hquiet : ∀ {call : Call α} {phase}, call.phase = phase →
      (∀ idx embedding, phase ≠ .bumping idx embedding) → call.counting = false := by
    rintro call phase rfl hne
    unfold Call.counting
    split
    · rename_i hphase
      exact absurd hphase (hne _ _)
    · rfl
  cases h with
  | @swap idx embedding hphase hne => exact .inr (.inl ⟨idx, embedding, hphase, hne, rfl, rfl, rfl, rfl⟩)
  | @bump idx embedding hphase => exact .inr (.inr ⟨idx, embedding, hphase, rfl, rfl, rfl, rfl⟩)
  | @answer w credential outcome hphase =>
    refine .inl ⟨rfl, rfl, rfl, hquiet hphase nofun, ?_⟩
    unfold Call.counting Call.reports
    dsimp only
    rcases afterAnswer_cases (p := p) (s := s) w credential outcome with
      ⟨_, hafter, -⟩ | ⟨_, _, hafter, -⟩ | ⟨_, _, -, hafter⟩
    · rw [hafter]
      exact ⟨rfl, rfl⟩
    · rw [hafter]
      exact ⟨rfl, rfl⟩
    · rw [hafter]
      exact ⟨rfl, rfl⟩
  | startPrimary hphase | startFallback hphase | readPrimary hphase | primaryDemoted hphase
  | primaryFree hphase | wake hphase | look hphase | fail hphase | sleep hphase | skip hphase
  | enter hphase | call hphase | demote hphase | clear hphase | keep hphase =>
    exact .inl ⟨rfl, rfl, rfl, hquiet hphase nofun, rfl, rfl⟩

theorem Produced.mono {log log' : List (Event α)} (h : Produced log id idx embedding)
    (hlog : log ⊆ log') : Produced log' id idx embedding := by
  obtain ⟨credential, time, hmem⟩ := h
  exact ⟨credential, time, hlog hmem⟩

theorem Tracked.mono (h : Tracked p s id call) (hlog : s.log ⊆ t.log)
    (hswitches : s.switches ⊆ t.switches) : Tracked p t id call := by
  unfold Tracked at h ⊢
  split
  · rename_i hphase
    rw [hphase] at h
    exact h.mono hlog
  · rename_i hphase
    rw [hphase] at h
    exact h.mono hlog
  · rename_i hphase
    rw [hphase] at h
    exact hswitches h
  · rename_i hphase
    rw [hphase] at h
    obtain ⟨switch, hmem, hswitch⟩ := h
    exact ⟨switch, hswitches hmem, hswitch⟩
  · trivial

theorem CallStep.tracked (h : CallStep p s id call s' call') (htracked : Tracked p s id call) :
    Tracked p s' id call' := by
  unfold Tracked at htracked
  cases h with
  | @answer w credential outcome hphase =>
    unfold Tracked
    dsimp only
    rcases afterAnswer_cases (p := p) (s := s) w credential outcome with
      ⟨_, hafter, -⟩ | ⟨_, _, hafter, -⟩ | ⟨x, embedding, rfl, hafter⟩
    · rw [hafter]
      trivial
    · rw [hafter]
      trivial
    · rw [hafter]
      exact ⟨credential, s.now, List.mem_cons_self⟩
  | clear hphase =>
    rw [hphase] at htracked
    exact htracked
  | swap => exact List.mem_cons_self
  | @bump idx embedding hphase =>
    rw [hphase] at htracked
    exact ⟨⟨id, idx, embedding⟩, htracked, rfl, rfl, rfl⟩
  | _ => trivial

/-! ## Every run -/

/-- One element of a list is replaced. -/
theorem countP_set_of_getElem? {β : Type} {l : List β} {i : Nat} {a b : β} (f : β → Bool)
    (h : l[i]? = some a) : (l.set i b).countP f + (f a).toNat = l.countP f + (f b).toNat := by
  obtain ⟨hi, rfl⟩ := List.getElem?_eq_some_iff.mp h
  have hle : (f l[i]).toNat ≤ l.countP f := by
    cases hf : f l[i] with
    | false => exact Nat.zero_le _
    | true => exact List.countP_pos_iff.mpr ⟨l[i], List.getElem_mem hi, hf⟩
  have htoNat : ∀ b : Bool, (if b = true then 1 else 0) = b.toNat := by decide
  rw [List.countP_set hi, htoNat, htoNat]
  omega

theorem reported_start (now : Nat) (credential : Nat → Nat) :
    Reported p (start now credential : State α) where
  switch _ h := nomatch h
  nodup := .nil
  produced _ h := nomatch h
  tracked _ _ h := nomatch h
  count := rfl
  generation := rfl

/-- The switches of a call that goes on: one to be counted, or none. -/
theorem Reported.bumping (h : Reported p s) (hget : s.calls[id]? = some call) (hnot : ¬ call.Returned)
    {switch : Switch α} (hmem : switch ∈ s.switches) (hid : switch.call = id) :
    call.phase = .bumping switch.provider switch.embedding := by
  obtain ⟨call₀, hget₀, hphase⟩ := h.switch switch hmem
  obtain rfl := Option.some.inj (hget.symm.trans (hid ▸ hget₀))
  exact hphase.resolve_right fun hreturned => hnot ⟨_, hreturned⟩

theorem switch_advance (h : Reported p s) (hget : s.calls[id]? = some call)
    (hcall : CallStep p s id call s' call') {switch : Switch α} (hmem : switch ∈ s'.switches) :
    ∃ call, (s.calls.set id call')[switch.call]? = some call ∧
      (call.phase = .bumping switch.provider switch.embedding ∨
        call.phase = .returned (.ok (switch.embedding, some (p.info switch.provider)))) := by
  have hself : (s.calls.set id call')[id]? = some call' :=
    List.getElem?_set_self (List.getElem?_eq_some_iff.mp hget).1
  by_cases hid : switch.call = id
  · rw [hid]
    refine ⟨call', hself, ?_⟩
    have hold : switch ∈ s.switches → call.phase = .bumping switch.provider switch.embedding :=
      fun hmem => h.bumping hget (not_returned_of_callStep hcall) hmem hid
    rcases hcall.commits with ⟨-, hsame, -, hbefore, -⟩ | ⟨idx, embedding, hphase, -, -, hcons, -, hbumping⟩ |
      ⟨idx, embedding, hphase, -, hsame, -, hreturned⟩
    · rw [Call.counting, hold (hsame ▸ hmem)] at hbefore
      cases hbefore
    · rcases List.mem_cons.mp (hcons ▸ hmem) with rfl | hmem
      · exact .inl hbumping
      · cases hphase.symm.trans (hold hmem)
    · cases hphase.symm.trans (hold (hsame ▸ hmem))
      exact .inr hreturned
  · rw [List.getElem?_set_ne (Ne.symm hid)]
    refine h.switch switch ?_
    rcases hcall.commits with ⟨-, hsame, -⟩ | ⟨idx, embedding, -, -, -, hcons, -⟩ | ⟨_, _, -, -, hsame, -⟩
    · exact hsame ▸ hmem
    · exact (List.mem_cons.mp (hcons ▸ hmem)).resolve_left fun heq => hid (congrArg Switch.call heq)
    · exact hsame ▸ hmem

theorem nodup_advance (h : Reported p s) (hget : s.calls[id]? = some call)
    (hcall : CallStep p s id call s' call') : (s'.switches.map Switch.call).Nodup := by
  rcases hcall.commits with ⟨-, hsame, -⟩ | ⟨idx, embedding, hphase, -, -, hcons, -⟩ | ⟨_, _, -, -, hsame, -⟩
  · exact hsame.symm ▸ h.nodup
  · rw [hcons, List.map_cons, List.nodup_cons]
    refine ⟨fun hmem => ?_, h.nodup⟩
    obtain ⟨switch, hmem, hid⟩ := List.mem_map.mp hmem
    cases hphase.symm.trans (h.bumping hget (not_returned_of_callStep hcall) hmem hid)
  · exact hsame.symm ▸ h.nodup

theorem counts_advance (h : Reported p s) (hget : s.calls[id]? = some call)
    (hcall : CallStep p s id call s' call') :
    s'.switches.length =
      (s.calls.set id call').countP Call.reports + (s.calls.set id call').countP Call.counting ∧
    s'.generation = UInt64.ofNat ((s.calls.set id call').countP Call.reports) := by
  have hreports := countP_set_of_getElem? (b := call') Call.reports hget
  have hcounting := countP_set_of_getElem? (b := call') Call.counting hget
  have hnot : call.reports = false := by
    unfold Call.reports
    split
    · rename_i hphase
      exact absurd ⟨_, hphase⟩ (not_returned_of_callStep hcall)
    · rfl
  have hcount := h.count
  rcases hcall.commits with ⟨-, hsame, hgeneration, hbefore, hafter, hquiet⟩ |
    ⟨idx, embedding, hphase, -, -, hcons, hgeneration, hbumping⟩ |
    ⟨idx, embedding, hphase, -, hsame, hgeneration, hreturned⟩
  · rw [hnot, hquiet] at hreports
    rw [hbefore, hafter] at hcounting
    have hreports' : (s.calls.set id call').countP Call.reports = s.calls.countP Call.reports := hreports
    rw [hsame, hgeneration, h.generation, hreports']
    exact ⟨by omega, rfl⟩
  · have hbefore : call.counting = false := by rw [Call.counting, hphase]
    have hafter : call'.counting = true := by rw [Call.counting, hbumping]
    have hquiet : call'.reports = false := by rw [Call.reports, hbumping]
    rw [hnot, hquiet] at hreports
    rw [hbefore, hafter, Bool.toNat_true, Bool.toNat_false] at hcounting
    have hreports' : (s.calls.set id call').countP Call.reports = s.calls.countP Call.reports := hreports
    rw [hcons, hgeneration, h.generation, hreports', List.length_cons]
    exact ⟨by omega, rfl⟩
  · have hbefore : call.counting = true := by rw [Call.counting, hphase]
    have hafter : call'.counting = false := by rw [Call.counting, hreturned]
    have hloud : call'.reports = true := by rw [Call.reports, hreturned]
    rw [hnot, hloud] at hreports
    rw [hbefore, hafter, Bool.toNat_true, Bool.toNat_false] at hcounting
    have hreports' : (s.calls.set id call').countP Call.reports = s.calls.countP Call.reports + 1 := hreports
    rw [hsame, hgeneration, h.generation, hreports', UInt64.ofNat_add]
    exact ⟨by omega, rfl⟩

theorem reported_advance (h : Reported p s) (hget : s.calls[id]? = some call)
    (hcall : CallStep p s id call s' call') : Reported p { s' with calls := s.calls.set id call' } := by
  have hlog : s.log ⊆ s'.log := hcall.log_subset
  have hswitches : s.switches ⊆ s'.switches := by
    rcases hcall.commits with ⟨-, hsame, -⟩ | ⟨idx, embedding, -, -, -, hcons, -⟩ | ⟨_, _, -, -, hsame, -⟩
    · exact hsame ▸ List.Subset.refl _
    · exact hcons ▸ List.subset_cons_self _ _
    · exact hsame ▸ List.Subset.refl _
  have hnodup : (s'.switches.map Switch.call).Nodup := nodup_advance h hget hcall
  obtain ⟨hcount, hgeneration⟩ := counts_advance h hget hcall
  refine ⟨fun switch => switch_advance h hget hcall, hnodup, fun switch hmem => ?_,
    fun id' call₀ hget' => ?_, hcount, hgeneration⟩
  · by_cases hold : switch ∈ s.switches
    · exact (h.produced switch hold).mono hlog
    · rcases hcall.commits with ⟨-, hsame, -⟩ | ⟨idx, embedding, hphase, -, -, hcons, -⟩ |
        ⟨_, _, -, -, hsame, -⟩
      · exact absurd (hsame ▸ hmem) hold
      · obtain rfl := (List.mem_cons.mp (hcons ▸ hmem)).resolve_right hold
        have htracked := h.tracked id call hget
        unfold Tracked at htracked
        rw [hphase] at htracked
        exact htracked.mono hlog
      · exact absurd (hsame ▸ hmem) hold
  · by_cases hid : id = id'
    · subst hid
      change (s.calls.set id call')[id]? = some call₀ at hget'
      rw [List.getElem?_set_self (List.getElem?_eq_some_iff.mp hget).1] at hget'
      obtain rfl := Option.some.inj hget'
      exact hcall.tracked (h.tracked id call hget)
    · change (s.calls.set id call')[id']? = some call₀ at hget'
      rw [List.getElem?_set_ne hid] at hget'
      exact (h.tracked id' call₀ hget').mono hlog hswitches

theorem reported_step (h : Reported p s) (hstep : step p s act = some t) : Reported p t := by
  cases act with
  | tick nanos =>
    cases hstep
    exact ⟨h.switch, h.nodup, h.produced, h.tracked, h.count, h.generation⟩
  | replaceToken shared =>
    cases hstep
    exact ⟨h.switch, h.nodup, h.produced, h.tracked, h.count, h.generation⟩
  | begin_ patient =>
    cases hstep
    refine ⟨fun switch hmem => ?_, h.nodup, h.produced, fun id call hget => ?_, ?_, ?_⟩
    · obtain ⟨call, hget, hphase⟩ := h.switch switch hmem
      have hlt : switch.call < s.calls.length := (List.getElem?_eq_some_iff.mp hget).1
      exact ⟨call, (List.getElem?_append_left hlt).trans hget, hphase⟩
    · rcases List.mem_append.mp (List.mem_of_getElem? hget) with hmem | hmem
      · by_cases hlt : id < s.calls.length
        · exact h.tracked id call ((List.getElem?_append_left hlt).symm.trans hget)
        · have hlast := (List.getElem?_append_right (Nat.le_of_not_lt hlt)).symm.trans hget
          obtain rfl := List.mem_singleton.mp (List.mem_of_getElem? hlast)
          trivial
      · obtain rfl := List.mem_singleton.mp hmem
        trivial
    · exact h.count.trans (by rw [List.countP_append, List.countP_append]; rfl)
    · exact h.generation.trans (by rw [List.countP_append]; rfl)
  | advance id outcome =>
    obtain ⟨call, s', call', hget, hcall, rfl⟩ := step_advance hstep
    exact reported_advance h hget hcall

/-- A run ends at its newest state. -/
theorem invariant_of_run {I : State α → Prop} (hfirst : I first)
    (hstep : ∀ {s t act}, step p s act = some t → I s → I t) {past : List (State α)}
    (h : Run p first (s :: past)) : I s := by
  generalize hstates : s :: past = states at h
  induction h generalizing s past with
  | start =>
    cases hstates
    exact hfirst
  | step _ hlast ih =>
    cases hstates
    exact hstep hlast (ih rfl)

/-- What a step does to the history. -/
theorem history_step (hstep : step p s act = some t) (past : List (State α)) :
    (t.switches = s.switches ∧ history (t :: s :: past) = history (s :: past)) ∨
    ∃ switch, t.switches = switch :: s.switches ∧
      history (t :: s :: past) = switch.provider :: history (s :: past) := by
  have hsame : t.active = s.active → history (t :: s :: past) = history (s :: past) := by
    intro heq
    rw [history, List.map_cons, List.map_cons, heq, List.destutter_cons_cons, if_neg (not_not_intro rfl)]
    rfl
  cases act with
  | tick nanos =>
    cases hstep
    exact .inl ⟨rfl, hsame rfl⟩
  | replaceToken shared =>
    cases hstep
    exact .inl ⟨rfl, hsame rfl⟩
  | begin_ patient =>
    cases hstep
    exact .inl ⟨rfl, hsame rfl⟩
  | advance id outcome =>
    obtain ⟨call, s', call', -, hcall, rfl⟩ := step_advance hstep
    rcases hcall.commits with ⟨hactive, hswitches, -⟩ | ⟨idx, embedding, -, hne, hactive, hcons, -⟩ |
      ⟨_, _, -, hactive, hswitches, -⟩
    · exact .inl ⟨hswitches, hsame hactive⟩
    · refine .inr ⟨_, hcons, ?_⟩
      change ((s'.active :: s.active :: past.map State.active).destutter (· ≠ ·)) = _
      rw [List.destutter_cons_cons, hactive, if_pos hne.symm]
      rfl
    · exact .inl ⟨hswitches, hsame hactive⟩

/-- The switches, from provider 0 on, are the history of the active provider. -/
theorem history_eq {now : Nat} {credential : Nat → Nat} {past : List (State α)}
    (h : Run p (start now credential) (s :: past)) :
    history (s :: past) = s.switches.map Switch.provider ++ [0] := by
  generalize hstates : s :: past = states at h
  induction h generalizing s past with
  | start =>
    cases hstates
    rfl
  | step hrun hlast ih =>
    cases hstates
    rcases history_step hlast _ with ⟨hswitches, hhistory⟩ | ⟨switch, hswitches, hhistory⟩
    · rw [hhistory, hswitches]
      exact ih rfl
    · rw [hhistory, hswitches, ih rfl]
      rfl

/-! ## The router -/

/-- The primary comes first, and what answered the last call is active. -/
structure PrimaryFirst (s : State α) : Prop where
  tried : ∀ call ∈ s.calls, call.primaryOut = true →
    call.tried.head? = some 0 ∨ call.tried = [] ∧ ¬ call.Returned
  active : ∀ earlier call, s.calls = earlier ++ [call] → call.Returned →
    ∀ idx, Answered s.log earlier.length idx → s.active = idx

/-- Why providers are skipped, and why calls fail. -/
structure Explained (p : Providers) (s : State α) : Prop where
  /-- A provider is benched after an answer that is no input overflow. -/
  bench : ∀ idx bench, s.benches idx = some bench → Caused s.log idx bench
  skipped : ∀ call ∈ s.calls, ∀ idx bench, (idx, .benched bench) ∈ call.found → Caused s.log idx bench
  /-- In the last sweep, each provider was benched or gave no vector. -/
  failed : ∀ call ∈ s.calls, ∀ text, call.phase = .returned (.error text) → ∀ idx < p.total,
    ∃ finding, (idx, finding) ∈ call.found ∧ finding.Holds s.log idx

theorem Probed.primaryFirst (h : Probed s) : PrimaryFirst s where
  tried call hmem hout := by
    have hprobing := h.probing call hmem hout
    unfold Probing at hprobing
    have hnot : ∀ phase, call.phase = phase → (∀ result, phase ≠ .returned result) → ¬ call.Returned :=
      fun phase hphase hne ⟨result, hreturned⟩ => hne result (hphase.symm.trans hreturned)
    cases hphase : call.phase with
    | start | readPrimary | checkPrimary =>
      rw [hphase] at hprobing
      exact .inr ⟨hprobing.1, hnot _ hphase nofun⟩
    | sweeping | checking =>
      rw [hphase] at hprobing
      exact hprobing.imp_right fun hbefore => ⟨hbefore.1.1, hnot _ hphase nofun⟩
    | admitted =>
      rw [hphase] at hprobing
      exact hprobing.imp_right fun hbefore => ⟨hbefore.1, hnot _ hphase nofun⟩
    | _ =>
      rw [hphase] at hprobing
      exact .inl hprobing
  active earlier call hcalls hreturned := by
    obtain ⟨result, hphase⟩ := hreturned
    have hsettled := h.settled earlier call hcalls
    unfold Settled at hsettled
    rw [hphase] at hsettled
    exact hsettled

theorem Founded.explained (h : Founded p s) : Explained p s where
  bench := h.bench
  skipped call hmem idx bench hfound := h.holds call hmem idx _ hfound
  failed call hmem text hphase idx hidx := by
    have hsearched := h.searched call hmem
    unfold Searched at hsearched
    rw [hphase] at hsearched
    obtain ⟨finding, hfound⟩ := hsearched idx hidx
    exact ⟨finding, hfound, h.holds call hmem idx finding hfound⟩

/-- **Main result.** What the router keeps, for calls made one after another and for calls that
interleave. -/
theorem router_keeps (p : Providers) (now : Nat) (credential : Nat → Nat) :
    (∀ s : State α, Moves (step p) Sequential (start now credential) s →
      s.log.Pairwise Apart ∧ PrimaryFirst s) ∧
    ∀ (s : State α) (past : List (State α)), Run p (start now credential) (s :: past) →
      Explained p s ∧ Reported p s ∧ history (s :: past) = s.switches.map Switch.provider ++ [0] := by
  refine ⟨fun s hmoves => ?_, fun s past hrun => ⟨?_, ?_, history_eq hrun⟩⟩
  · have hall : Founded p s ∧ Spaced p s ∧ Probed s := by
      refine hmoves.invariant (I := fun s => Founded p s ∧ Spaced p s ∧ Probed s) ?_
        ⟨founded_start now credential, spaced_start now credential, probed_start now credential⟩
      rintro s act t hact hstep ⟨hfounded, hspaced, hprobed⟩
      exact ⟨founded_step hfounded hstep, spaced_step hspaced hact hstep,
        probed_step hfounded hspaced hprobed hact hstep⟩
    exact ⟨hall.2.1.apart, hall.2.2.primaryFirst⟩
  · have hfounded : Founded p s := invariant_of_run (founded_start now credential)
      (fun hstep h => founded_step h hstep) hrun
    exact hfounded.explained
  · exact invariant_of_run (reported_start now credential) (fun hstep h => reported_step h hstep) hrun

/-- A run has the states that it went through. -/
theorem Run.of_moves {ok : State α → Act α → Prop} (h : Moves (Embedding.step p) ok first s) :
    ∃ past, Run p first (s :: past) := by
  induction h with
  | refl => exact ⟨[], .start⟩
  | tail _ hlast ih =>
    obtain ⟨past, hrun⟩ := ih
    obtain ⟨act, -, hstep⟩ := hlast
    exact ⟨_, .step hrun hstep⟩

instance (call : Call α) : Decidable call.Returned :=
  match hphase : call.phase with
  | .returned result => isTrue ⟨result, hphase⟩
  | .start | .readPrimary _ | .checkPrimary _ _ | .sleeping _ _ | .sweeping _ | .checking _ _ | .admitted _
  | .calling _ _ | .demoting _ _ _ | .clearing _ _ | .swapping _ _ | .bumping _ _ =>
    isFalse fun ⟨_, hreturned⟩ => nomatch hphase.symm.trans hreturned

instance (s : State α) (act : Act α) : Decidable (Sequential s act) :=
  match act with
  | .begin_ _ => inferInstanceAs (Decidable (∀ call ∈ s.calls, call.Returned))
  | .tick _ | .replaceToken _ | .advance _ _ => isTrue trivial

/-- A local model, with one fallback. -/
def localFirst : Providers where
  primary := ⟨"ollama".toList, "nomic-embed-text".toList⟩
  fallbacks := [⟨"openai".toList, "text-embedding-3-small".toList⟩]

/-- The primary fails and the fallback answers; then the primary is benched, and out of its bench again. -/
def switchingRun : List (Act Nat) :=
  let sections (id n : Nat) : List (Act Nat) := List.replicate n (.advance id none)
  [.begin_ true] ++ sections 0 4 ++ [.advance 0 (some (.other "401".toList))] ++ sections 0 4 ++
    [.advance 0 (some (.vector [1]))] ++ sections 0 3 ++
  [.begin_ false] ++ sections 1 6 ++ [.advance 1 (some (.vector [2]))] ++ sections 1 2 ++
  [.tick (secs DEMOTION_SECS), .begin_ true] ++ sections 2 6 ++ [.advance 2 (some (.vector [3]))] ++
    sections 2 3

theorem router_keeps_switchingRun : ∃ (s : State Nat) (past : List (State Nat)),
    runActs (step localFirst) Sequential (start 0 fun _ => 0) switchingRun = some s ∧
      s.active = 0 ∧ s.log.Pairwise Apart ∧ PrimaryFirst s ∧ Explained localFirst s ∧
      Reported localFirst s ∧ history (s :: past) = [0, 1, 0] := by
  have hrun : (runActs (step localFirst) Sequential (start 0 fun _ => 0) switchingRun).any (fun s =>
      s.active = 0 ∧ s.switches.map Switch.provider = [0, 1]) = true := by
    decide
  obtain ⟨s, hs, hend⟩ := (Option.any_eq_true _ _).mp hrun
  obtain ⟨hactive, hswitches⟩ := of_decide_eq_true hend
  obtain ⟨past, hpast⟩ := Run.of_moves (.of_acts hs)
  obtain ⟨hsequential, hall⟩ := router_keeps (α := Nat) localFirst 0 fun _ => 0
  obtain ⟨hapart, hprimary⟩ := hsequential s (.of_acts hs)
  obtain ⟨hexplained, hreported, hhistory⟩ := hall s past hpast
  rw [hswitches] at hhistory
  exact ⟨s, past, hs, hactive, hapart, hprimary, hexplained, hreported, hhistory⟩

end Nanna.Daemon.Embedding
