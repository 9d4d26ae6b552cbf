import Nanna.Daemon.Contracts
import Nanna.Daemon.TurnAdmission
import Nanna.Tasks.NoWedge

/-!
# What a turn hands out

`turn_admission`: in every run of a turn, an item that was open when the turn began is handed out only after it
has been adopted; `next` hands out an item exactly when one that the turn admits is workable, that is open
without an open subtask or an open dependency; and it does so as long as some item that was adopted or created
in the turn is open, provided that the turn admits all that it waits for, and that none of these waits
for itself.

Admission filters only the last choice, so what is not adopted still holds back its parent and whatever depends
on it (`shadowed_runs`). Down the waits of an open item there is one that waits for nothing open
(`exists_workable`).
-/

namespace Nanna.Daemon

open Nanna.Lib Nanna.Tasks Nanna.Harness Relation

namespace TurnAdmission

variable {env : Env} {d : Dialect} {scope : Scope} {s s₀ : Store} {t t' : Turn} {call : TurnCall}
  {admits : Int → Bool} {rows : List Task} {id : Int}

/-! ## What next can choose -/

/-- An open task that nothing holds back. -/
structure Workable (rows : List Task) (task : Task) : Prop where
  mem : task ∈ rows
  isOpen : isOpen task = true
  unblocked : isBlocked task rows = false
  childless : ∀ u ∈ rows, Tasks.isOpen u = true → u.parentId ≠ some task.id

/-- The candidates are the workable tasks that are admitted. -/
theorem mem_candidates {task : Task} :
    task ∈ candidates (list s scope false) (fun task => admits task.id) ↔
      ∃ row, Workable (s.loadScope scope) row ∧ admits row.id = true ∧
        task = { row with blocked := isBlocked row (s.loadScope scope) } := by
  unfold candidates
  rw [List.mem_filter, mem_openList]
  constructor
  · rintro ⟨⟨row, hrow, hopen, rfl⟩, hkept⟩
    simp only [Bool.and_eq_true, Bool.not_eq_true', decide_eq_true_eq] at hkept
    obtain ⟨⟨hunblocked, hleaf⟩, hadmits⟩ := hkept
    refine ⟨row, ⟨hrow, hopen, hunblocked, fun u hu huopen hparent => hleaf ?_⟩, hadmits, rfl⟩
    exact List.mem_filterMap.mpr ⟨_, mem_openList.mpr ⟨u, hu, huopen, rfl⟩, hparent⟩
  · rintro ⟨row, hwork, hadmits, rfl⟩
    refine ⟨⟨row, hwork.mem, hwork.isOpen, rfl⟩, ?_⟩
    have hleaf : row.id ∉ openParents (list s scope false) := fun hparent => by
      obtain ⟨u, hu, huopen, hp⟩ := mem_openParents_list hparent
      exact hwork.childless u hu huopen hp
    simp only [Bool.and_eq_true, Bool.not_eq_true', decide_eq_true_eq]
    exact ⟨⟨hwork.unblocked, hleaf⟩, hadmits⟩

theorem nextAdmitted_eq_some {task : Task} (h : nextAdmitted s scope (fun task => admits task.id) = some task) :
    ∃ row, Workable (s.loadScope scope) row ∧ admits row.id = true ∧
      task = { row with blocked := isBlocked row (s.loadScope scope) } :=
  mem_candidates.mp ((List.perm_insertionSort _ _).mem_iff.mp (List.mem_of_head? h))

theorem nextAdmitted_eq_none : nextAdmitted s scope (fun task => admits task.id) = none ↔
    ∀ row, Workable (s.loadScope scope) row → admits row.id = false := by
  have hnil : nextAdmitted s scope (fun task => admits task.id) = none ↔
      candidates (list s scope false) (fun task => admits task.id) = [] := by
    rw [nextAdmitted, List.head?_eq_none_iff]
    refine ⟨fun h => ?_, fun h => ?_⟩
    · exact (h ▸ List.perm_insertionSort _ _).nil_eq.symm
    · rw [h]
      rfl
  rw [hnil, List.eq_nil_iff_forall_not_mem]
  constructor
  · intro h row hwork
    refine Bool.eq_false_iff.mpr fun hadmits => ?_
    exact h _ (mem_candidates.mpr ⟨row, hwork, hadmits, rfl⟩)
  · intro h task htask
    obtain ⟨row, hwork, hadmits, -⟩ := mem_candidates.mp htask
    exact Bool.eq_false_iff.mp (h row hwork) hadmits

/-! ## Down the waits -/

/-- Waiting for an open task. -/
def OpenWaits (rows : List Task) (a b : Int) : Prop :=
  Waits rows a b ∧ ∃ u ∈ rows, u.id = b ∧ isOpen u = true

/-- Below an open task there is a workable one, where no task below it waits for itself. -/
theorem exists_workable {x : Task} (hx : x ∈ rows) (hopen : isOpen x = true)
    (hacyclic : ∀ y, ReflTransGen (OpenWaits rows) x.id y → ¬ TransGen (OpenWaits rows) y y) :
    ∃ y, Workable rows y ∧ ReflTransGen (OpenWaits rows) x.id y.id := by
  classical
  -- the open tasks below `x`, and the waits among them
  have hbelow : Acyclic fun a b => OpenWaits rows a b ∧ ReflTransGen (OpenWaits rows) x.id a := by
    intro a ha
    obtain ⟨b, ⟨-, hreach⟩, -⟩ := TransGen.head'_iff.mp ha
    exact hacyclic a hreach (ha.lift id fun _ _ h => h.1)
  have hne : (((rows.filter isOpen).map (·.id)).filter fun y => ReflTransGen (OpenWaits rows) x.id y) ≠ [] :=
    List.ne_nil_of_mem (List.mem_filter.mpr
      ⟨List.mem_map_of_mem (List.mem_filter.mpr ⟨hx, hopen⟩), decide_eq_true .refl⟩)
  obtain ⟨a, ha, hsink⟩ := hbelow.exists_sink _ hne
  obtain ⟨ha, hreach⟩ := List.mem_filter.mp ha
  have hreach : ReflTransGen (OpenWaits rows) x.id a := of_decide_eq_true hreach
  obtain ⟨y, hy, rfl⟩ := List.mem_map.mp ha
  obtain ⟨hy, hyopen⟩ := List.mem_filter.mp hy
  have hfree : ∀ u ∈ rows, isOpen u = true → ¬ Waits rows y.id u.id := by
    intro u hu huopen hwaits
    have hstep : OpenWaits rows y.id u.id := ⟨hwaits, u, hu, rfl, huopen⟩
    refine hsink u.id (List.mem_filter.mpr ⟨?_, decide_eq_true (hreach.tail hstep)⟩) ⟨hstep, hreach⟩
    exact List.mem_map_of_mem (List.mem_filter.mpr ⟨hu, huopen⟩)
  refine ⟨y, ⟨hy, hyopen, Bool.eq_false_iff.mpr fun hblocked => ?_, fun u hu huopen hparent => ?_⟩, hreach⟩
  · obtain ⟨u, hu, huopen, hdep⟩ := isBlocked_true hblocked
    exact hfree u hu huopen (.inl ⟨y, hy, rfl, hdep⟩)
  · exact hfree u hu huopen (.inr ⟨u, hu, rfl, hparent⟩)

/-! ## The task source -/

/-- The checks of the admitted open tasks can be read. -/
def Readable (d : Dialect) (rows : List Task) (admits : Int → Bool) : Prop :=
  ∀ task ∈ rows, isOpen task = true → admits task.id = true → ∃ check, readAcceptance d task = .ok check

/-- Whatever `next` hands out is admitted. -/
theorem admits_of_next {fuel : Nat} {s' : Store} {handed : TaskStep}
    (h : nextFrom env d scope admits fuel s = (s', .step handed)) : admits handed.id = true := by
  induction fuel generalizing s with
  | zero => cases h
  | succ fuel ih =>
    rw [nextFrom] at h
    split at h
    · cases h
    rename_i task hnext
    obtain ⟨row, -, hadmits, rfl⟩ := nextAdmitted_eq_some hnext
    split at h
    · cases h
      exact hadmits
    · exact ih h

/-- Where the checks can be read, `next` hands out a task exactly when an admitted one is workable. -/
theorem next_iff (hreadable : Readable d (s.loadScope scope) admits) (fuel : Nat) :
    (∃ handed, nextFrom env d scope admits (fuel + 1) s = (s, .step handed)) ↔
      ∃ row, Workable (s.loadScope scope) row ∧ admits row.id = true := by
  rw [nextFrom]
  cases hnext : nextAdmitted s scope fun task => admits task.id with
  | none =>
    refine ⟨fun ⟨_, h⟩ => (nomatch h), fun ⟨row, hwork, hadmits⟩ => ?_⟩
    exact absurd hadmits (Bool.eq_false_iff.mp (nextAdmitted_eq_none.mp hnext row hwork))
  | some task =>
    obtain ⟨row, hwork, hadmits, rfl⟩ := nextAdmitted_eq_some hnext
    obtain ⟨check, hcheck⟩ := hreadable row hwork.mem hwork.isOpen hadmits
    have hcheck : readAcceptance d { row with blocked := isBlocked row (s.loadScope scope) } = .ok check := hcheck
    dsimp only
    rw [hcheck]
    exact ⟨fun _ => ⟨row, hwork, hadmits⟩, fun _ => ⟨_, rfl⟩⟩

/-! ## Every run of a turn -/

theorem isLeftover_atTurnStart : (atTurnStart s scope).isLeftover id = true ↔
    ∃ task ∈ s.loadScope scope, isOpen task = true ∧ task.id = id := by
  rw [Admission.isLeftover, atTurnStart, List.any_eq_true]
  constructor
  · rintro ⟨⟨id', title⟩, hmem, hid⟩
    obtain ⟨task, htask, heq⟩ := List.mem_map.mp hmem
    obtain ⟨row, hrow, hopen, rfl⟩ := mem_openList.mp htask
    cases heq
    exact ⟨row, hrow, hopen, of_decide_eq_true hid⟩
  · rintro ⟨row, hrow, hopen, rfl⟩
    exact ⟨_, List.mem_map_of_mem (mem_openList.mpr ⟨row, hrow, hopen, rfl⟩), decide_eq_true rfl⟩

/-- The leftovers stay, and what is handed out is none or has been adopted. -/
structure Kept (admission : Admission) (t : Turn) : Prop where
  leftovers : t.admission.leftovers = admission.leftovers
  adopted : ∀ id ∈ t.admission.adopted, .adopted id ∈ t.log
  handedOut : ∀ later id earlier, t.log = later ++ .handedOut id :: earlier →
    admission.isLeftover id = true → .adopted id ∈ earlier

/-- Events that are no hand-out come on top. -/
theorem Kept.logged {admission a : Admission} {events : List TurnEvent} (h : Kept admission t) (store : Store)
    (hleft : a.leftovers = t.admission.leftovers)
    (hadopted : ∀ id ∈ a.adopted, .adopted id ∈ events ∨ id ∈ t.admission.adopted)
    (hevents : ∀ id, .handedOut id ∉ events) : Kept admission ⟨store, a, events ++ t.log⟩ where
  leftovers := hleft.trans h.leftovers
  adopted id hid := List.mem_append.mpr ((hadopted id hid).imp_right (h.adopted id))
  handedOut later id earlier heq hleftover := by
    rcases List.append_eq_append_iff.mp heq with ⟨middle, rfl, hlog⟩ | ⟨middle, hsplit, hlog⟩
    · exact h.handedOut middle id earlier hlog hleftover
    · rcases middle with - | ⟨event, middle⟩
      · exact h.handedOut [] id earlier hlog.symm hleftover
      · obtain ⟨rfl, -⟩ := List.cons.inj hlog
        exact absurd (hsplit ▸ List.mem_append_right _ List.mem_cons_self) (hevents id)

theorem kept_step {admission : Admission} (h : Kept admission t) (hstep : step scope t call = some t') :
    Kept admission t' := by
  have hsame : ∀ store, Kept admission { t with store } := fun store => ⟨h.leftovers, h.adopted, h.handedOut⟩
  cases call with
  | add env params =>
    rw [step] at hstep
    split at hstep
    · rename_i store reply hadd
      cases hstep
      cases reply with
      | created task note => exact hsame store
      | closedThisTurn task => exact hsame store
      | reused task adopted =>
        cases adopted with
        | false => exact hsame store
        | true =>
          have hadopt : (t.admission.adoptId task.id).leftovers = t.admission.leftovers ∧
              ∀ id ∈ (t.admission.adoptId task.id).adopted, id = task.id ∨ id ∈ t.admission.adopted := by
            unfold Admission.adoptId
            split
            · exact ⟨rfl, fun id hid => List.mem_cons.mp hid⟩
            · exact ⟨rfl, fun id hid => .inr hid⟩
          refine h.logged store hadopt.1 (fun id hid => ?_) fun id hid => nomatch List.mem_singleton.mp hid
          refine (hadopt.2 id hid).imp_left fun heq => ?_
          rw [heq]
          exact List.mem_singleton_self _
    · cases hstep
      exact h
  | adoptFrom reading walk plan =>
    rw [step] at hstep
    split at hstep
    · cases hstep
      refine h.logged t.store rfl (fun id hid => ?_) fun id hid => ?_
      · exact (List.mem_append.mp hid).imp_left fun hid => List.mem_map_of_mem hid
      · obtain ⟨_, -, heq⟩ := List.mem_map.mp hid
        cases heq
    · cases hstep
  | op env op =>
    rw [step] at hstep
    split at hstep
    · cases hstep
      exact hsame _
    · cases hstep
      exact h
  | next env d =>
    rw [step] at hstep
    split at hstep
    · rename_i store handed hnext
      cases hstep
      refine ⟨h.leftovers, fun id hid => List.mem_cons_of_mem _ (h.adopted id hid), ?_⟩
      intro later id earlier heq hleftover
      rcases later with - | ⟨event, later⟩
      · obtain ⟨hid, rfl⟩ := List.cons.inj heq
        cases hid
        have hadmits : t.admission.admits handed.id = true := admits_of_next hnext
        unfold Admission.admits at hadmits
        have hleft : t.admission.isLeftover handed.id = true := by
          unfold Admission.isLeftover
          rw [h.leftovers]
          exact hleftover
        rw [hleft, Bool.not_true, Bool.false_or] at hadmits
        exact h.adopted handed.id (List.contains_iff_mem.mp hadmits)
      · exact h.handedOut later id earlier (List.cons.inj heq).2 hleftover
    · cases hstep
      exact hsame _
    · cases hstep
      exact hsame _

theorem kept_begin (s : Store) (scope : Scope) : Kept (atTurnStart s scope) (begin_ s scope) where
  leftovers := rfl
  adopted _ h := nomatch h
  handedOut later _ _ h := by cases later with | _ => cases h

/-- **Main result.** What a turn hands out, in each of its runs. -/
theorem turn_admission (s₀ : Store) (scope : Scope) (t : Turn)
    (h : Moves (step scope) (fun _ _ => True) (begin_ s₀ scope) t) :
    -- what was open when the turn began is adopted before it is handed out
    (∀ task ∈ s₀.loadScope scope, isOpen task = true → ∀ later earlier,
      t.log = later ++ .handedOut task.id :: earlier → .adopted task.id ∈ earlier) ∧
    ∀ env d, Readable d (t.store.loadScope scope) t.admission.admits →
      ((∃ handed, next env d scope t.admission t.store = (t.store, .step handed)) ↔
        ∃ row, Workable (t.store.loadScope scope) row ∧ t.admission.admits row.id = true) ∧
      -- an item adopted or created in the turn is open, and the turn admits all that it waits for
      ∀ x ∈ t.store.loadScope scope, isOpen x = true →
        (x.id ∈ t.admission.adopted ∨ ∀ task ∈ s₀.tasks, task.id ≠ x.id) →
        (∀ y, TransGen (OpenWaits (t.store.loadScope scope)) x.id y → t.admission.admits y = true) →
        (∀ y, ReflTransGen (OpenWaits (t.store.loadScope scope)) x.id y →
          ¬ TransGen (OpenWaits (t.store.loadScope scope)) y y) →
        ∃ handed, next env d scope t.admission t.store = (t.store, .step handed) := by
  have hkept : Kept (atTurnStart s₀ scope) t :=
    h.invariant (fun _ hstep hs => kept_step hs hstep) (kept_begin s₀ scope)
  refine ⟨fun task htask hopen later earlier hlog => ?_, fun env d hreadable => ⟨next_iff hreadable _, ?_⟩⟩
  · exact hkept.handedOut later task.id earlier hlog (isLeftover_atTurnStart.mpr ⟨task, htask, hopen, rfl⟩)
  · intro x hx hopen hmine hcone hacyclic
    have hadmits : t.admission.admits x.id = true := by
      unfold Admission.admits
      rcases hmine with hadopted | hnew
      · rw [List.contains_iff_mem.mpr hadopted, Bool.or_true]
      · have hleft : t.admission.isLeftover x.id = false := by
          refine Bool.eq_false_iff.mpr fun hleft => ?_
          unfold Admission.isLeftover at hleft
          rw [hkept.leftovers] at hleft
          obtain ⟨task, htask, -, hid⟩ := isLeftover_atTurnStart.mp hleft
          exact hnew task (List.mem_filter.mp htask).1 hid
        rw [hleft]
        rfl
    obtain ⟨y, hwork, hreach⟩ := exists_workable hx hopen hacyclic
    refine (next_iff hreadable _).mpr ⟨y, hwork, ?_⟩
    rcases reflTransGen_iff_eq_or_transGen.mp hreach with heq | hbelow
    · rw [heq]
      exact hadmits
    · exact hcone y.id hbelow

/-- A call of `tasks.add` in the session. -/
def sampleAdd (members : List (String × Json)) : TurnCall :=
  .add sampleServices (.obj ([("scope", .str "session"), ("session_id", .str "s")] ++ members))

/-- A plan with one subtask, left open. -/
def leftPlan : Store := ⟨[sampleRow 1 "A" none [], sampleRow 2 "A1" (some 1) []], 2⟩

/-- The plan and its subtask are asked for again. -/
def adoptingRun : List TurnCall :=
  [sampleAdd [("title", .str "A")], sampleAdd [("parent_id", .num (.int 1)), ("title", .str "A1")],
    .next sampleEnv objectsOnly]

theorem turn_admission_adoptingRun : ∃ t,
    runActs (step sampleScope) (fun _ _ => True) (begin_ leftPlan sampleScope) adoptingRun = some t ∧
      t.log = [.handedOut 2, .adopted 2, .adopted 1] ∧ TurnEvent.adopted 2 ∈ [.adopted 2, TurnEvent.adopted 1] ∧
      ∃ handed, next sampleEnv objectsOnly sampleScope t.admission t.store = (t.store, .step handed) := by
  have hrun : (runActs (step sampleScope) (fun _ _ => True) (begin_ leftPlan sampleScope) adoptingRun).any (fun t =>
      t.store = leftPlan ∧ t.admission.adopted = [2, 1] ∧ t.log = [.handedOut 2, .adopted 2, .adopted 1]) = true := by
    decide
  obtain ⟨t, ht, hend⟩ := (Option.any_eq_true _ _).mp hrun
  obtain ⟨hstore, hadopted, hlog⟩ := of_decide_eq_true hend
  obtain ⟨hafter, hnext⟩ := turn_admission leftPlan sampleScope t (.of_acts ht)
  have hrows : t.store.loadScope sampleScope = [sampleRow 1 "A" none [], sampleRow 2 "A1" (some 1) []] := by
    rw [hstore]
    decide
  have hplain : ∀ task ∈ t.store.loadScope sampleScope, task.acceptance = none := by
    rw [hrows]
    decide
  have hnone : ∀ y, ¬ OpenWaits (t.store.loadScope sampleScope) 2 y := by
    rw [hrows]
    rintro y ⟨⟨task, htask, hid, hdep⟩ | ⟨task, htask, hid, hparent⟩, -⟩
    · simp only [List.mem_cons, List.not_mem_nil, or_false] at htask
      rcases htask with rfl | rfl <;> cases hdep
    · simp only [List.mem_cons, List.not_mem_nil, or_false] at htask
      rcases htask with rfl | rfl <;> cases hparent
  refine ⟨t, ht, hlog, hafter (sampleRow 2 "A1" (some 1) []) (by decide) rfl [] _ hlog,
    (hnext sampleEnv objectsOnly fun task htask _ _ => ⟨none, ?_⟩).2 (sampleRow 2 "A1" (some 1) []) ?_ rfl ?_ ?_ ?_⟩
  · rw [readAcceptance, hplain task htask]
  · rw [hrows]
    exact List.mem_cons_of_mem _ List.mem_cons_self
  · rw [hadopted]
    exact .inl List.mem_cons_self
  · intro y hy
    obtain ⟨z, hz, -⟩ := TransGen.head'_iff.mp hy
    exact absurd hz (hnone z)
  · intro y hy hcycle
    rcases ReflTransGen.cases_head hy with rfl | ⟨z, hz, -⟩
    · obtain ⟨z, hz, -⟩ := TransGen.head'_iff.mp hcycle
      exact hnone z hz
    · exact hnone z hz

/-! ## Items that nothing schedules -/

/-- A plan is asked for again, by `tasks.add` or in a plan, and not its subtask; a task, and not the one it
depends on; two plans of the turn wait for each other; and a check cannot be read. -/
def shadowedRuns : List (Store × List TurnCall) :=
  [(leftPlan, [sampleAdd [("title", .str "A")]]),
    (leftPlan, [.adoptFrom sampleServices.reading [(1, "A"), (2, "A1")] ["A"]]),
    (⟨[sampleRow 1 "A" none [], sampleRow 2 "B" none [1]], 2⟩, [sampleAdd [("title", .str "B")]]),
    (Store.empty, [.op sampleEnv (.create (sampleTask "A" none [])),
      .op sampleEnv (.create (sampleTask "B" none [])), .op sampleEnv (.create (sampleTask "A1" (some 1) [2])),
      .op sampleEnv (.create (sampleTask "B1" (some 2) [1]))]),
    (Store.empty, [.op sampleEnv (.create { sampleTask "A" none [] with acceptance := some numberedPath })])]

theorem shadowed_runs : shadowedRuns.Forall fun run => ∃ t,
    runActs (step sampleScope) (fun _ _ => True) (begin_ run.1 sampleScope) run.2 = some t ∧
      (∃ x ∈ t.store.loadScope sampleScope, isOpen x = true ∧
        (x.id ∈ t.admission.adopted ∨ ∀ task ∈ run.1.tasks, task.id ≠ x.id)) ∧
      (next sampleEnv objectsOnly sampleScope t.admission t.store).2 = .nothing := by
  have hall : ∀ run ∈ shadowedRuns,
      (runActs (step sampleScope) (fun _ _ => True) (begin_ run.1 sampleScope) run.2).any (fun t =>
        (∃ x ∈ t.store.loadScope sampleScope, isOpen x = true ∧
          (x.id ∈ t.admission.adopted ∨ ∀ task ∈ run.1.tasks, task.id ≠ x.id)) ∧
        (next sampleEnv objectsOnly sampleScope t.admission t.store).2 = .nothing) = true := by
    decide
  refine List.forall_iff_forall_mem.mpr fun run hrun => ?_
  obtain ⟨t, ht, hend⟩ := (Option.any_eq_true _ _).mp (hall run hrun)
  exact ⟨t, ht, of_decide_eq_true hend⟩

end TurnAdmission

end Nanna.Daemon
