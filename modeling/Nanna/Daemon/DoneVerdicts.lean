import Nanna.Daemon.ConcurrentCalls

/-!
# Done is a verdict

`verdicts_iff`: in any run of concurrent `tasks.add`, `tasks.update` and `tasks.done` calls, every task with a
check that becomes done was closed by a call that had run this check on it, with success, exactly when each
section that closes finds what its call relies on (`Phase.current`): the task that is marked carries the check
that its call read, or none; an ancestor that is marked carries none; and an update that writes a done row back
finds it still done.

Only three sections can close a task: the two marks and the write of an update (`act_checked`). What a call has
run is the check of the task as it read it (`PhaseOk`). Each condition can fail (`unverified_runs`).
-/

namespace Nanna.Daemon.ConcurrentCalls

open Nanna.Lib Nanna.Tasks Nanna.Harness

variable {env : ServiceEnv} {params : Json} {s s' : Store} {phase phase' : Phase} {ran : List Ran}
  {m m' : Calls}

/-! ## The verdict and its condition -/

/-- Whatever task becomes done, with a check before or after, has passed that check. -/
def Checked (ran : List Ran) (s s' : Store) : Prop :=
  ∀ row ∈ s.tasks, ∀ row' ∈ s'.tasks, row'.id = row.id → row.status ≠ .done → row'.status = .done →
    ∀ c ∈ row.acceptance.toList ++ row'.acceptance.toList, ⟨row.id, c, true⟩ ∈ ran

instance (ran : List Ran) (s s' : Store) : Decidable (Checked ran s s') :=
  inferInstanceAs (Decidable (∀ row ∈ s.tasks, _))

/-- What the acting call has run. -/
def Calls.ranBy (m : Calls) : Act → List Ran
  | .advance i => (m.calls[i]?).elim [] (·.ran)
  | _ => []

/-- What the next section closes is closed on a verdict. -/
def Verdict (m : Calls) (a : Act) : Prop := ∀ m' ∈ step m a, Checked (m.ranBy a) m.store m'.store

instance (m : Calls) (a : Act) : Decidable (Verdict m a) :=
  inferInstanceAs (Decidable (∀ m' ∈ step m a, _))

/-- The row, unless it is done already, satisfies this. -/
def unlessDone (s : Store) (id : Int) (ok : Task → Bool) : Bool :=
  s.tasks.all fun row => row.id ≠ id || row.status = .done || ok row

/-- What the section that closes a task relies on is still so. -/
def Phase.current (env : ServiceEnv) (s : Store) : Phase → Bool
  | .committing _ patch p =>
    p.1.status ≠ .done || ! (commitUpdate env.tasks s patch p).toBool ||
      unlessDone s p.1.id fun row => row.acceptance.isNone && p.1.acceptance.isNone
  | .marking read _ task =>
    ! (completeMark env.tasks.now s task).toBool ||
      unlessDone s task.id fun row => row.acceptance.isNone || row.acceptance = read.acceptance
  | .ascending _ _ (id :: _) _ => unlessDone s id fun row => row.acceptance.isNone
  | _ => true

def Calls.current (m : Calls) : Act → Bool
  | .advance i => (m.calls[i]?).all fun c => c.phase.current c.env m.store
  | _ => true

/-! ## What a call has run -/

/-- The verdict that a task with a check needs. -/
def verdictOf (read : Task) : List Ran := read.acceptance.toList.map fun c => ⟨read.id, c, true⟩

def PhaseOk (ran : List Ran) : Phase → Prop
  | .rewriting _ rows => ∀ row ∈ rows, row.status ≠ .done
  | .running read acceptance => read.acceptance = some acceptance ∧ ran = []
  | .completing read _ => ran = verdictOf read
  | .marking read _ task => ran = verdictOf read ∧ task.id = read.id
  | .ascending read _ left _ => ran = verdictOf read ∧ read.id ∉ left
  | .rereading _ | .refocusing .. | .returned _ => True
  | _ => ran = []

/-! ## What a write closes -/

theorem unlessDone_iff {id : Int} {ok : Task → Bool} : unlessDone s id ok = true ↔
    ∀ row ∈ s.tasks, row.id = id → row.status ≠ .done → ok row = true := by
  unfold unlessDone
  rw [List.all_eq_true]
  refine forall₂_congr fun row _ => ?_
  by_cases hid : row.id = id <;> by_cases hdone : row.status = .done <;> simp [hid, hdone]

theorem checked_same (hs : s.Distinct) (ran : List Ran) : Checked ran s s := by
  intro row hrow row' hrow' hid hopen hdone
  obtain rfl := hs.unique hrow' hrow hid
  exact absurd hdone hopen

theorem checked_insert (hs : s.Distinct) (ran : List Ran) (now : String) (new : NewTask) :
    Checked ran s (s.insert now new) := by
  intro row hrow row' hrow' hid hopen hdone
  rcases List.mem_append.mp hrow' with hold | hnew
  · exact checked_same hs ran row hrow row' hold hid hopen hdone
  · rw [List.mem_singleton.mp hnew] at hdone
    cases hdone

theorem checked_modify (hs : s.Distinct) {id : Int} {f : Task → Task} (hf : ∀ t, (f t).id = t.id) :
    Checked ran s (s.modify id f) ↔ ∀ row ∈ s.tasks, row.id = id → row.status ≠ .done →
      (f row).status = .done →
        ∀ c ∈ row.acceptance.toList ++ (f row).acceptance.toList, ⟨row.id, c, true⟩ ∈ ran := by
  constructor
  · intro h row hrow hid hopen hdone
    refine h row hrow (f row) (List.mem_map.mpr ⟨row, hrow, if_pos hid⟩) (hf row) hopen hdone
  · intro h row hrow row' hrow' hid hopen hdone
    obtain ⟨old, hold, rfl⟩ := List.mem_map.mp hrow'
    split_ifs at hid hdone ⊢ with hat
    · obtain rfl : old = row := hs.unique hold hrow ((hf old).symm.trans hid)
      exact h old hold hat hopen hdone
    · obtain rfl := hs.unique hold hrow hid
      exact absurd hdone hopen

theorem checked_mark (hs : s.Distinct) {id : Int} {now : String} : Checked ran s (s.markDone now id) ↔
    ∀ row ∈ s.tasks, row.id = id → row.status ≠ .done →
      ∀ c, row.acceptance = some c → ⟨row.id, c, true⟩ ∈ ran := by
  rw [Store.markDone, checked_modify (f := markedDone now) hs fun _ => rfl]
  refine forall₂_congr fun row _ => forall₂_congr fun _ _ => ?_
  constructor
  · intro h c hc
    exact h rfl c (List.mem_append_left _ (Option.mem_toList.mpr hc))
  · intro h _ c hc
    rcases List.mem_append.mp hc with hc | hc <;> exact h c (Option.mem_toList.mp hc)

theorem checked_write (hs : s.Distinct) {task : Task} {now : String} :
    Checked ran s (s.writeTask now task) ↔ (task.status = .done →
      ∀ row ∈ s.tasks, row.id = task.id → row.status ≠ .done →
        ∀ c ∈ row.acceptance.toList ++ task.acceptance.toList, ⟨row.id, c, true⟩ ∈ ran) := by
  rw [Store.writeTask, checked_modify (f := fun row => overwrite now row task) hs fun _ => rfl]
  exact ⟨fun h hdone row hrow hid hopen => h row hrow hid hopen hdone,
    fun h row hrow hid hopen hdone => h hdone row hrow hid hopen⟩

/-! ## One section -/

/-- What a section does that does not fail. -/
inductive Section (env : ServiceEnv) (params : Json) (s : Store) : Phase → Store → Phase → Prop
  | added {phase phase' : ConcurrentAdds.Phase} {s' : Store} :
      (s' = s ∨ ∃ new, s' = s.insert env.tasks.now new) → Section env params s (.adding phase) s' (.adding phase')
  | addReturned {phase : ConcurrentAdds.Phase} {reply : Except String Reply} :
      Section env params s (.adding phase) s (.returned reply)
  | patched {id : Int} {patch : TaskPatch} {p : Patched} : Section env params s .updating s (.committing id patch p)
  | committed {id : Int} {patch : TaskPatch} {p : Patched} {phase : Phase} :
      commitUpdate env.tasks s patch p = .ok (s.writeTask env.tasks.now p.1) →
      phase = .cascading id p.1 ∨ phase = .rereading id →
      Section env params s (.committing id patch p) (s.writeTask env.tasks.now p.1) phase
  | planned {id : Int} {task : Task} : Section env params s (.cascading id task) s
      (.rewriting id (cascadePlan (s.loadScope task.scopeOf) task))
  | rewritten {id : Int} {row : Task} {rows : List Task} :
      Section env params s (.rewriting id (row :: rows)) (s.writeTask env.tasks.now row) (.rewriting id rows)
  | cascaded {id : Int} : Section env params s (.rewriting id []) s (.rereading id)
  | reread {id : Int} {reply : Except String Reply} : Section env params s (.rereading id) s (.returned reply)
  | readChecked {read : Task} {acceptance : Json} : read.acceptance = some acceptance →
      Section env params s .finishing s (.running read acceptance)
  | readUnchecked {read : Task} : read.acceptance = none →
      Section env params s .finishing s (.completing read none)
  | passed {read : Task} {acceptance : Json} {verdict : Option Text} :
      Phase.runs env params (.running read acceptance) = [⟨read.id, acceptance, true⟩] →
      Section env params s (.running read acceptance) s (.completing read verdict)
  | failed {read : Task} {acceptance : Json} {reply : Except String Reply} :
      Section env params s (.running read acceptance) s (.returned reply)
  | wasDone {read : Task} {verdict : Option Text} :
      Section env params s (.completing read verdict) s (.refocusing read verdict true [])
  | found {read task : Task} {verdict : Option Text} : task.id = read.id →
      Section env params s (.completing read verdict) s (.marking read verdict task)
  | marked {read task : Task} {verdict : Option Text} :
      completeMark env.tasks.now s task = .ok (s.markDone env.tasks.now task.id) →
      Section env params s (.marking read verdict task) (s.markDone env.tasks.now task.id)
        (.ascending read verdict (autoComplete (s.loadScope task.scopeOf) task) [])
  | ascended {read : Task} {verdict : Option Text} {id : Int} {left marked : List Int} :
      Section env params s (.ascending read verdict (id :: left) marked) (s.markDone env.tasks.now id)
        (.ascending read verdict left (marked ++ [id]))
  | atTop {read : Task} {verdict : Option Text} {marked : List Int} :
      Section env params s (.ascending read verdict [] marked) s (.refocusing read verdict false marked)
  | refocused {read : Task} {verdict : Option Text} {alreadyDone : Bool} {marked : List Int}
      {reply : Except String Reply} :
      Section env params s (.refocusing read verdict alreadyDone marked) s (.returned reply)
  | returned {reply : Except String Reply} : Section env params s (.returned reply) s (.returned reply)

theorem act_section (hact : act env params s phase = .ok (s', phase')) : Section env params s phase s' phase' := by
  cases phase with
  | adding phase =>
    by_cases hreturned : ∃ r, phase = .returned r
    · obtain ⟨r, rfl⟩ := hreturned
      cases hact
      exact .addReturned
    rw [act] at hact
    · obtain ⟨next, hnext, hact⟩ := bind_eq_ok.mp hact
      cases hact
      exact .added (ConcurrentAdds.act_store hnext)
    · exact fun r hr => hreturned ⟨r, hr⟩
  | updating =>
    obtain ⟨⟨id, patch, p⟩, -, hact⟩ := bind_eq_ok.mp hact
    cases hact
    exact .patched
  | committing id patch p =>
    obtain ⟨s₁, hcommit, hact⟩ := bind_eq_ok.mp hact
    have hcommit := stored_eq_ok.mp hcommit
    obtain ⟨-, rfl⟩ := commitUpdate_ok hcommit
    cases hact
    refine .committed hcommit ?_
    split_ifs
    · exact .inl rfl
    · exact .inr rfl
  | cascading id task =>
    cases hact
    exact .planned
  | rewriting id rows =>
    cases rows <;> cases hact
    · exact .cascaded
    · exact .rewritten
  | rereading id =>
    obtain ⟨task, -, hact⟩ := bind_eq_ok.mp hact
    cases hact
    exact .reread
  | finishing =>
    obtain ⟨read, -, hact⟩ := bind_eq_ok.mp hact
    split at hact
    · rename_i acceptance hacceptance
      cases hact
      exact .readChecked hacceptance
    · rename_i hnone
      cases hact
      exact .readUnchecked hnone
  | running read acceptance =>
    obtain ⟨check, hcheck, hact⟩ := bind_eq_ok.mp hact
    dsimp only at hact
    split_ifs at hact with hpassed
    · cases hact
      refine .passed ?_
      rw [Phase.runs, hcheck]
      exact congrArg (fun b => [Ran.mk read.id acceptance b]) hpassed
    · cases hact
      exact .failed
  | completing read verdict =>
    obtain ⟨task, htask, hact⟩ := bind_eq_ok.mp hact
    split_ifs at hact
    · cases hact
      exact .wasDone
    · cases hact
      exact .found (getRaw_ok (stored_eq_ok.mp htask)).2
  | marking read verdict task =>
    obtain ⟨s₁, hmark, hact⟩ := bind_eq_ok.mp hact
    have hmark := stored_eq_ok.mp hmark
    obtain ⟨-, rfl⟩ := completeMark_eq_ok.mp hmark
    cases hact
    exact .marked hmark
  | ascending read verdict left marked =>
    cases left with
    | nil =>
      obtain ⟨task, -, hact⟩ := bind_eq_ok.mp hact
      cases hact
      exact .atTop
    | cons id left =>
      cases hact
      exact .ascended
  | refocusing read verdict alreadyDone marked =>
    cases hact
    exact .refocused
  | returned reply =>
    cases hact
    exact .returned

theorem mem_verdictOf {read : Task} {id : Int} {c : Json} :
    ⟨id, c, true⟩ ∈ verdictOf read ↔ read.acceptance = some c ∧ id = read.id := by
  unfold verdictOf
  rw [List.mem_map]
  constructor
  · rintro ⟨c', hc', heq⟩
    cases heq
    exact ⟨Option.mem_toList.mp hc', rfl⟩
  · rintro ⟨hc, rfl⟩
    exact ⟨c, Option.mem_toList.mpr hc, rfl⟩

/-- A row without a check, or with the one that was read, is closed on a verdict. -/
theorem verdictOf_iff {read row : Task} (hid : row.id = read.id) :
    (∀ c, row.acceptance = some c → ⟨row.id, c, true⟩ ∈ verdictOf read) ↔
      (row.acceptance.isNone || row.acceptance = read.acceptance) = true := by
  cases hrow : row.acceptance with
  | none => simp
  | some c => simp [mem_verdictOf, hid, eq_comm]

/-- Another row is closed on a verdict only where it has no check. -/
theorem not_verdictOf_iff {read row : Task} (hid : row.id ≠ read.id) :
    (∀ c, row.acceptance = some c → ⟨row.id, c, true⟩ ∈ verdictOf read) ↔ row.acceptance.isNone = true := by
  cases hrow : row.acceptance with
  | none => simp
  | some c => simp [mem_verdictOf, hid]

/-- A call that has run nothing closes on a verdict only what has no check. -/
theorem unchecked_iff {id : Int} {before after : Option Json} :
    (∀ c ∈ before.toList ++ after.toList, ⟨id, c, true⟩ ∈ ([] : List Ran)) ↔
      (before.isNone && after.isNone) = true := by
  cases before with
  | some c => exact iff_of_false (fun h => nomatch h c List.mem_cons_self) Bool.false_ne_true
  | none =>
    cases after with
    | some c => exact iff_of_false (fun h => nomatch h c List.mem_cons_self) Bool.false_ne_true
    | none => exact iff_of_true (fun c hc => nomatch hc) rfl

theorem Section.checked (hs : s.Distinct) (h : PhaseOk ran phase)
    (hsection : Section env params s phase s' phase') : Checked ran s s' ↔ phase.current env s = true := by
  cases hsection with
  | added hstore =>
    refine iff_of_true ?_ rfl
    rcases hstore with rfl | ⟨new, rfl⟩
    · exact checked_same hs ran
    · exact checked_insert hs ran _ new
  | @committed id patch p _ hcommit =>
    obtain rfl : ran = [] := h
    rw [checked_write hs, Phase.current, hcommit]
    by_cases hdone : p.1.status = .done
    · simp only [hdone, ne_eq, not_true_eq_false, decide_false, Except.toBool, Bool.not_true, Bool.or_self,
        Bool.false_or, unlessDone_iff, true_imp_iff]
      exact forall₂_congr fun row _ => forall₂_congr fun _ _ => unchecked_iff
    · simp [hdone]
  | rewritten =>
    rw [checked_write hs]
    exact iff_of_true (fun hdone => absurd hdone (h _ List.mem_cons_self)) rfl
  | @marked read task _ hmark =>
    obtain ⟨rfl, hid⟩ := h
    rw [checked_mark hs, Phase.current, hmark, Except.toBool, Bool.not_true, Bool.false_or, unlessDone_iff]
    refine forall₂_congr fun row _ => forall₂_congr fun hrow _ => ?_
    exact verdictOf_iff (hrow.trans hid)
  | @ascended read _ id left _ =>
    obtain ⟨rfl, hleft⟩ := h
    rw [checked_mark hs, Phase.current, unlessDone_iff]
    refine forall₂_congr fun row _ => forall₂_congr fun hrow _ => ?_
    exact not_verdictOf_iff fun hread => hleft (hread ▸ hrow ▸ List.mem_cons_self)
  | addReturned | patched | planned | cascaded | reread | readChecked | readUnchecked | passed | failed | wasDone
  | found | atTop | refocused | returned => exact iff_of_true (checked_same hs ran) rfl

/-! ## Runs -/

theorem not_mem_autoCompleteFrom {rows : List Task} {x : Int} : ∀ {fuel : Nat} {closed : List Int}
    {current : Option Int}, x ∈ closed → x ∉ autoCompleteFrom rows fuel closed current := by
  intro fuel
  induction fuel with
  | zero => exact fun _ h => nomatch h
  | succ fuel ih =>
    intro closed current hx h
    cases current with
    | none => exact nomatch h
    | some parentId =>
      unfold autoCompleteFrom at h
      split at h
      · exact nomatch h
      · split_ifs at h with hstop hall
        · exact nomatch h
        · rcases List.mem_cons.mp h with rfl | h
          · exact hstop (.inl hx)
          · exact ih (List.mem_cons_of_mem _ hx) h
        · exact nomatch h

/-- A completion does not mark its own task again. -/
theorem not_mem_autoComplete {rows : List Task} {task : Task} : task.id ∉ autoComplete rows task :=
  not_mem_autoCompleteFrom List.mem_cons_self

theorem Section.phaseOk (hs : s.Distinct) (h : PhaseOk ran phase)
    (hsection : Section env params s phase s' phase') :
    s'.Distinct ∧ PhaseOk (ran ++ phase.runs env params) phase' := by
  cases hsection with
  | added hstore =>
    refine ⟨?_, (List.append_nil _).trans h⟩
    rcases hstore with rfl | ⟨new, rfl⟩
    · exact hs
    · exact hs.insert _ new
  | addReturned | cascaded | reread | failed | wasDone | atTop | refocused | returned => exact ⟨hs, trivial⟩
  | patched => exact ⟨hs, (List.append_nil _).trans h⟩
  | committed _ hphase =>
    refine ⟨modify_distinct (fun _ => rfl) hs, ?_⟩
    rcases hphase with rfl | rfl
    · exact (List.append_nil _).trans h
    · trivial
  | @planned id task =>
    refine ⟨hs, fun row hrow hdone => ?_⟩
    obtain ⟨-, hwrite⟩ := (cascadePlan_spec (hs.scope_nodup task.scopeOf) task).2 row hrow
    cases hwrite with
    | reparented _ _ _ hown =>
      have hopen := (Bool.and_eq_true_iff.mp (Bool.and_eq_true_iff.mp hown).1).1
      rw [isOpen, show _ = TaskStatus.done from hdone] at hopen
      exact Bool.false_ne_true hopen
    | cancelled => cases hdone
  | rewritten => exact ⟨modify_distinct (fun _ => rfl) hs, fun row hrow => h row (List.mem_cons_of_mem _ hrow)⟩
  | readChecked hacceptance => exact ⟨hs, hacceptance, (List.append_nil _).trans h⟩
  | @readUnchecked read hnone =>
    obtain rfl : ran = [] := h
    refine ⟨hs, ?_⟩
    show [] = verdictOf read
    rw [verdictOf, hnone]
    rfl
  | @passed read acceptance verdict hruns =>
    obtain ⟨hacceptance, rfl⟩ := h
    refine ⟨hs, ?_⟩
    show [] ++ _ = verdictOf read
    rw [hruns, verdictOf, hacceptance]
    rfl
  | found hid => exact ⟨hs, (List.append_nil _).trans h, hid⟩
  | marked =>
    refine ⟨modify_distinct (fun _ => rfl) hs, (List.append_nil _).trans h.1, ?_⟩
    rw [← h.2]
    exact not_mem_autoComplete
  | ascended =>
    exact ⟨modify_distinct (fun _ => rfl) hs, (List.append_nil _).trans h.1,
      fun hmem => h.2 (List.mem_cons_of_mem _ hmem)⟩

/-- What holds in every state of a run. -/
structure Kept (m : Calls) : Prop where
  distinct : m.store.Distinct
  calls : ∀ c ∈ m.calls, PhaseOk c.ran c.phase

theorem kept_start (h : Kept m) (env : ServiceEnv) (params : Json) {phase : Phase} (hphase : PhaseOk [] phase) :
    Kept (m.start env params phase) := by
  refine ⟨h.distinct, fun c hc => ?_⟩
  rcases List.mem_append.mp hc with hold | hnew
  · exact h.calls c hold
  · rw [List.mem_singleton.mp hnew]
    exact hphase

theorem kept_step {a : Act} (hstep : step m a = some m') (h : Kept m) : Kept m' := by
  cases a with
  | add | update | done =>
    cases hstep
    exact kept_start h _ _ rfl
  | advance i =>
    obtain ⟨c, hget, rfl⟩ := Option.map_eq_some_iff.mp hstep
    have hphase := h.calls c (List.mem_of_getElem? hget)
    cases hact : act c.env c.params m.store c.phase with
    | error e =>
      rw [resume_error hact]
      refine ⟨h.distinct, fun c' hc' => ?_⟩
      rcases List.mem_or_eq_of_mem_set hc' with hold | rfl
      · exact h.calls c' hold
      · trivial
    | ok next =>
      obtain ⟨s', phase'⟩ := next
      rw [resume_ok hact]
      obtain ⟨hdistinct, hnext⟩ := (act_section hact).phaseOk h.distinct hphase
      refine ⟨hdistinct, fun c' hc' => ?_⟩
      rcases List.mem_or_eq_of_mem_set hc' with hold | rfl
      · exact h.calls c' hold
      · exact hnext

/-- A section that fails closes nothing. -/
theorem current_of_error {e : String} (hact : act env params s phase = .error e) :
    phase.current env s = true := by
  cases phase with
  | committing id patch p =>
    cases hcommit : commitUpdate env.tasks s patch p with
    | error e' => simp [Phase.current, hcommit, Except.toBool]
    | ok s₁ =>
      rw [act, hcommit] at hact
      cases hact
  | marking read verdict task =>
    cases hmark : completeMark env.tasks.now s task with
    | error e' => simp [Phase.current, hmark, Except.toBool]
    | ok s₁ =>
      rw [act, hmark] at hact
      cases hact
  | ascending read verdict left marked =>
    cases left with
    | nil => rfl
    | cons id left => cases hact
  | _ => rfl

theorem verdict_iff {a : Act} (h : Kept m) : Verdict m a ↔ m.current a = true := by
  cases a with
  | add | update | done =>
    refine iff_of_true (fun m' hm' => ?_) rfl
    cases hm'
    exact checked_same h.distinct _
  | advance i =>
    cases hget : m.calls[i]? with
    | none =>
      have hstep : step m (.advance i) = none := by
        show (m.calls[i]?).map _ = none
        rw [hget]
        rfl
      have hcurrent : m.current (.advance i) = true := by
        show (m.calls[i]?).all _ = true
        rw [hget]
        rfl
      rw [Verdict, hstep]
      exact iff_of_true (fun m' hm' => nomatch hm') hcurrent
    | some c =>
      obtain ⟨after, hafter, hstep⟩ : ∃ after : Calls,
          after.store = (resume (act c.env c.params) .returned m.store c.phase).1 ∧
            step m (.advance i) = some after := by
        refine ⟨_, ?_, Option.map_eq_some_iff.mpr ⟨c, hget, rfl⟩⟩
        rfl
      have hran : m.ranBy (.advance i) = c.ran := by
        show (m.calls[i]?).elim _ _ = _
        rw [hget]
        rfl
      have hcurrent : m.current (.advance i) = c.phase.current c.env m.store := by
        show (m.calls[i]?).all _ = _
        rw [hget]
        rfl
      have hone : Verdict m (.advance i) ↔ Checked c.ran m.store after.store := by
        rw [Verdict, hstep, hran]
        exact ⟨fun hall => hall after rfl, fun hone m' hm' => Option.some.inj hm' ▸ hone⟩
      rw [hone, hafter, hcurrent]
      cases hact : act c.env c.params m.store c.phase with
      | error e =>
        rw [resume_error hact]
        exact iff_of_true (checked_same h.distinct _) (current_of_error hact)
      | ok next =>
        obtain ⟨s', phase'⟩ := next
        rw [resume_ok hact]
        exact (act_section hact).checked h.distinct (h.calls c (List.mem_of_getElem? hget))

/-- **Main result.** `id` is the table's primary key. In any run, each task with a check that becomes done has
passed it, in the call that closes it, exactly when every section that closes a task is current. -/
theorem verdicts_iff (s : Store) (hs : s.Distinct) (acts : List Act) :
    AlongActs step Verdict ⟨s, []⟩ acts ↔
      AlongActs step (fun m a => m.current a = true) ⟨s, []⟩ acts := by
  have hstart : Kept ⟨s, []⟩ := ⟨hs, fun _ hc => absurd hc List.not_mem_nil⟩
  exact AlongActs.congr (fun hstep hm => kept_step hstep hm) (fun hm => verdict_iff hm) hstart

/-! ### Sample runs -/

def sampleParams (members : List (String × Json)) : Json :=
  .obj ([("scope", .str "session"), ("session_id", .str "s")] ++ members)

/-- An acceptance check that runs this command. -/
def sampleCheck (command : String) : String × Json :=
  ("acceptance", .obj [("kind", .str "command"), ("command", .str command)])

def advances (i n : Nat) : List Act := List.replicate n (.advance i)

/-- A task is added, its check replaced, and then it is closed. -/
def checkedRun : List Act :=
  .add sampleServices (sampleParams [("title", .str "A"), sampleCheck "make"]) :: advances 0 8 ++
    .update sampleServices (sampleParams [("id", .num (.int 1)), sampleCheck "make test"]) :: advances 1 3 ++
    .done sampleServices (sampleParams [("id", .num (.int 1))]) :: advances 2 6

theorem verdicts_iff_checkedRun : AlongActs step Verdict ⟨Store.empty, []⟩ checkedRun ∧
    (runActs step (fun _ _ => True) ⟨Store.empty, []⟩ checkedRun).any
      (fun m => m.store.tasks.map (·.status) = [.done]) = true :=
  ⟨(verdicts_iff Store.empty .empty checkedRun).mpr (by decide), by decide⟩

/-- A check is replaced while the old one runs, or added where there was none; an ancestor gets a check while
its last subtask is marked; and an update writes back the done row of a task that has been reopened. -/
def unverifiedRuns : List (List Act) :=
  [.add sampleServices (sampleParams [("title", .str "A"), sampleCheck "make"]) :: advances 0 8 ++
      .done sampleServices (sampleParams [("id", .num (.int 1))]) :: advances 1 2 ++
      .update sampleServices (sampleParams [("id", .num (.int 1)), sampleCheck "make test"]) :: advances 2 3 ++
      advances 1 4,
    .add sampleServices (sampleParams [("title", .str "A")]) :: advances 0 8 ++
      .done sampleServices (sampleParams [("id", .num (.int 1))]) :: advances 1 2 ++
      .update sampleServices (sampleParams [("id", .num (.int 1)), sampleCheck "make test"]) :: advances 2 3 ++
      advances 1 4,
    .add sampleServices (sampleParams [("title", .str "A")]) :: advances 0 8 ++
      .add sampleServices (sampleParams [("title", .str "A1"), ("parent_id", .num (.int 1))]) :: advances 1 8 ++
      .done sampleServices (sampleParams [("id", .num (.int 2))]) :: advances 2 3 ++
      .update sampleServices (sampleParams [("id", .num (.int 1)), sampleCheck "make test"]) :: advances 3 3 ++
      advances 2 4,
    .add sampleServices (sampleParams [("title", .str "A")]) :: advances 0 8 ++
      .done sampleServices (sampleParams [("id", .num (.int 1))]) :: advances 1 6 ++
      .update sampleServices (sampleParams [("id", .num (.int 1)), ("title", .str "B")]) :: advances 2 1 ++
      .update sampleServices (sampleParams [("id", .num (.int 1)), ("status", .str "pending"),
        sampleCheck "make test"]) :: advances 3 3 ++
      advances 2 1]

theorem unverified_runs : unverifiedRuns.Forall fun acts => ¬ AlongActs step Verdict ⟨Store.empty, []⟩ acts := by
  refine List.forall_iff_forall_mem.mpr ?_
  decide

end Nanna.Daemon.ConcurrentCalls
