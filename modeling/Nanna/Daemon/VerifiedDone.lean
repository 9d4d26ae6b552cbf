import Nanna.Daemon.TaskServices
import Nanna.Tasks.ClearExact
import Nanna.Tasks.CompleteExact

/-!
# Verified completions

A step that is verified completes its task and then cancels the open tasks below it, walking down from the task over
the tasks that were open. The repository completes no task with an open child, so the walk finds none to start with
(`clearOpenDescendants_complete`): an open child fails the call, and an open task below a closed child stays where it
is.

`verified_completion_clears_iff`: the completion closes what is below its task exactly when nothing below is open.
-/

namespace Nanna.Daemon

open Nanna.Lib Nanna.Tasks

/-- The update that cancels an open task; its failure is passed over. -/
def cancelOpen (env : Env) (s : Store) (child : Task) : Store :=
  match update env s child.id { status := some "cancelled" } with
  | .ok (s, _) => s
  | .error _ => s

/-- The loop of `clear_open_descendants`, with the top of the stack first; `none` when the fuel is out. -/
def clearFrontier (env : Env) (openItems : List Task) : Nat → List Int → Store → Option Store
  | _, [], s => some s
  | 0, _ :: _, _ => none
  | fuel + 1, pid :: frontier, s =>
    let children := openItems.filter fun t => t.parentId = some pid
    clearFrontier env openItems fuel ((children.map (·.id)).reverse ++ frontier) (children.foldl (cancelOpen env) s)

def clearOpenDescendants (env : Env) (scope : Scope) (s : Store) (parentId : Int) : Option Store :=
  let openItems := list s scope false
  clearFrontier env openItems (openItems.length + 1) [parentId] s

/-- The detail of a completion says that it is verified. -/
def isVerified (detail : Json) : Bool := (detail.get "verified").bind Json.asBool = some true

/-- `TursoTaskSource::complete` -/
def TursoTaskSource.complete (env : Env) (scope : Scope) (s : Store) (id : Int) (detail : Json) :
    Except String (Option Store) := do
  let (s, _) ← stored (Tasks.complete env s id)
  if isVerified detail then .ok (clearOpenDescendants env scope s id) else .ok (some s)

/-- The task and what was below it is closed, but for the tasks with a check of their own, which are open elsewhere;
what was neither below the task nor above it is as it was. -/
structure ScaffoldingCleared (s : Store) (sc : Scope) (task : Task) (s' : Store) : Prop where
  closed : ∃ t' ∈ s'.loadScope sc, t'.id = task.id ∧ isOpen t' = false
  cleared : ∀ t ∈ s.loadScope sc, Below (s.loadScope sc) t.id task.id → ¬OwnCheck (s.loadScope sc) task t →
    ∃ t' ∈ s'.loadScope sc, t'.id = t.id ∧ isOpen t' = false
  survivors : ∀ t ∈ s.loadScope sc, Below (s.loadScope sc) t.id task.id → OwnCheck (s.loadScope sc) task t →
    (∃ t' ∈ s'.loadScope sc, t'.id = t.id ∧ isOpen t' = true) ∧ ¬Below (s'.loadScope sc) t.id task.id
  kept : ∀ t ∈ s.loadScope sc, t.id ≠ task.id → ¬Below (s.loadScope sc) t.id task.id →
    ¬Below (s.loadScope sc) task.id t.id → t ∈ s'.loadScope sc
  parents : ∀ t ∈ s.loadScope sc, ¬Below (s.loadScope sc) t.id task.id →
    parentOf (s'.loadScope sc) t.id = parentOf (s.loadScope sc) t.id
  scopes : ∀ sc', sc' ≠ sc → s'.loadScope sc' = s.loadScope sc'

/-! ## The walk -/

section Walk

variable {env : Env} {s s' : Store} {sc : Scope} {task : Task} {out : CompleteOutcome}

/-- The walk stops at a task without open children. -/
theorem clearOpenDescendants_childless (env : Env) {id : Int}
    (hnone : ∀ t ∈ s.loadScope sc, t.parentId = some id → isOpen t = false) :
    clearOpenDescendants env sc s id = some s := by
  have hchildren : (list s sc false).filter (fun t => t.parentId = some id) = [] := by
    rw [List.filter_eq_nil_iff]
    intro t ht hparent
    obtain ⟨row, hrow, hopen, rfl⟩ := mem_openList.mp ht
    rw [hnone row hrow (by simpa using hparent)] at hopen
    cases hopen
  unfold clearOpenDescendants
  simp only [clearFrontier, hchildren, List.map_nil, List.reverse_nil, List.nil_append, List.foldl_nil]

/-- After a completion there is nothing to cancel. -/
theorem clearOpenDescendants_complete (hs : s.Distinct) (hw : WellFormed (s.loadScope sc))
    (htask : task ∈ s.loadScope sc) (hopen : isOpen task = true) (h : complete env s task.id = .ok (s', out)) :
    clearOpenDescendants env sc s' task.id = some s' := by
  obtain ⟨hmem, rfl⟩ := mem_loadScope.mp htask
  obtain ⟨-, hchildren, hexact, -⟩ := completeExact_of_ok hs hmem hw (ne_done_of_isOpen hopen) h
  rw [openChildren_eq_nil] at hchildren
  apply clearOpenDescendants_childless
  rw [hexact.marked, List.forall_mem_map]
  intro row hrow
  split
  · intro _
    rfl
  · exact hchildren row hrow

/-- Below a task that was done before, the walk cancels. -/
example : (clearOpenDescendants sampleEnv sampleScope
    ⟨[markedDone sampleEnv.now (sampleRow 1 "A" none []), sampleRow 2 "B" (some 1) [], sampleRow 3 "C" (some 2) []], 3⟩
    1).map (fun s => s.tasks.map (·.status)) = some [.done, .cancelled, .cancelled] := by
  decide

/-- A verified completion leaves what the repository's completion leaves. -/
theorem complete_verified (hs : s.Distinct) (hw : WellFormed (s.loadScope sc)) (htask : task ∈ s.loadScope sc)
    (hopen : isOpen task = true) {detail : Json} (hdetail : isVerified detail = true) :
    TursoTaskSource.complete env sc s task.id detail = .ok (some s') ↔
      ∃ out, complete env s task.id = .ok (s', out) := by
  unfold TursoTaskSource.complete
  rw [hdetail]
  cases hcall : complete env s task.id with
  | error e =>
    constructor
    · rintro ⟨⟩
    · rintro ⟨_, ⟨⟩⟩
  | ok call =>
    obtain ⟨s₁, out⟩ := call
    have hclear : clearOpenDescendants env sc s₁ task.id = some s₁ :=
      clearOpenDescendants_complete hs hw htask hopen hcall
    show Except.ok (clearOpenDescendants env sc s₁ task.id) = .ok (some s') ↔ _
    rw [hclear]
    constructor
    · rintro ⟨⟩
      exact ⟨out, rfl⟩
    · rintro ⟨_, ⟨⟩⟩
      rfl

end Walk

/-! ## Below the task -/

section Below

variable {now : String} {rows rows' : List Task} {task t : Task} {auto : List Int}

theorem below_congr (h : parentOf rows' = parentOf rows) {x a : Int} : Below rows' x a ↔ Below rows x a := by
  unfold Below
  rw [h]

/-- What is below the task stays as it is. -/
theorem below_kept (hw : WellFormed rows) (htask : task ∈ rows) (h : CompleteExact now rows task auto rows')
    (ht : t ∈ rows) (hbelow : Below rows t.id task.id) : t ∈ rows' := by
  refine h.kept ht (fun hid => ?_) fun habove => ?_
  · rw [hid] at hbelow
    exact Below.not_self hw htask hbelow
  · exact Below.not_self hw htask (habove.trans hbelow)

end Below

section Cleared

variable {env : Env} {s s' : Store} {sc : Scope} {task : Task} {out : CompleteOutcome}

/-- A completion has cleared what is below its task, exactly when nothing below was open. -/
theorem scaffoldingCleared_iff (hs : s.Distinct) (hw : WellFormed (s.loadScope sc)) (htask : task ∈ s.loadScope sc)
    (hopen : isOpen task = true) (h : complete env s task.id = .ok (s', out)) :
    ScaffoldingCleared s sc task s' ↔ ClosedBelow (s.loadScope sc) task.id := by
  obtain ⟨hmem, rfl⟩ := mem_loadScope.mp htask
  obtain ⟨hs', -, hexact, hscopes⟩ := completeExact_of_ok hs hmem hw (ne_done_of_isOpen hopen) h
  constructor
  · intro hcleared u hu hbelow
    by_contra huopen
    have hstays := below_kept hw htask hexact hu hbelow
    by_cases hown : OwnCheck (s.loadScope task.scopeOf) task u
    · exact (hcleared.survivors u hu hbelow hown).2 ((below_congr hexact.parentOf_eq).mpr hbelow)
    · obtain ⟨u', hu', hid, hclosed⟩ := hcleared.cleared u hu hbelow hown
      obtain rfl : u' = u := hs'.unique (mem_loadScope.mp hu').1 (mem_loadScope.mp hstays).1 hid
      exact huopen hclosed
  · intro hclosed
    refine ⟨?_, fun t ht hbelow _ => ?_, fun t ht hbelow hown => ?_, fun t ht hne _ habove => ?_, fun t _ _ => ?_,
      hscopes⟩
    · refine ⟨markedDone env.now task, ?_, rfl, rfl⟩
      rw [hexact.marked]
      exact List.mem_map.mpr ⟨task, htask, if_pos List.mem_cons_self⟩
    · exact ⟨t, below_kept hw htask hexact ht hbelow, rfl, hclosed t ht hbelow⟩
    · -- a task with a check of its own is open
      cases hown.isOpen.symm.trans (hclosed t ht hbelow)
    · exact hexact.kept ht hne habove
    · rw [hexact.parentOf_eq]

/-- **Main result.** -/
theorem verified_completion_clears_iff (env : Env) (s : Store) (sc : Scope) (task : Task) (detail : Json)
    (hs : s.Distinct) (hw : WellFormed (s.loadScope sc)) (htask : task ∈ s.loadScope sc) (hopen : isOpen task = true)
    (hdetail : isVerified detail = true) :
    (∃ s', TursoTaskSource.complete env sc s task.id detail = .ok (some s') ∧ ScaffoldingCleared s sc task s') ↔
      ClosedBelow (s.loadScope sc) task.id := by
  constructor
  · rintro ⟨s', hrun, hcleared⟩
    obtain ⟨out, hcall⟩ := (complete_verified hs hw htask hopen hdetail).mp hrun
    exact (scaffoldingCleared_iff hs hw htask hopen hcall).mp hcleared
  · intro hclosed
    obtain ⟨hmem, rfl⟩ := mem_loadScope.mp htask
    have hchildren : openChildren (s.loadScope task.scopeOf) task.id = [] := by
      apply openChildren_eq_nil.mpr
      intro t ht hparent
      exact hclosed t ht (.of_up ((parentOf_of_mem hw.nodup ht).trans hparent) (.here _))
    obtain ⟨s', out, hcall⟩ := complete_isOk env hs hmem (ne_done_of_isOpen hopen) hchildren
    exact ⟨s', (complete_verified hs hw htask hopen hdetail).mpr ⟨out, hcall⟩,
      (scaffoldingCleared_iff hs hw htask hopen hcall).mpr hclosed⟩

end Cleared

/-! ## A plan whose steps were never taken up -/

def verifiedDetail : Json := .obj [("verified", .bool true)]

/-- A step is open below the plan. -/
def openRows : List Task := [sampleRow 1 "A" none [], sampleRow 2 "B" (some 1) []]

theorem openRows_reachable : Reachable (fun _ _ _ => True) ⟨openRows, 2⟩ := by
  have hrun : Op.runAll sampleEnv Store.empty
      [.create (sampleTask "A" none []), .create (sampleTask "B" (some 1) [])] = .ok ⟨openRows, 2⟩ := by decide
  exact .runAll .refl hrun

theorem verified_completion_clears_iff_leaf :
    ∃ s', TursoTaskSource.complete sampleEnv sampleScope ⟨openRows, 2⟩ 2 verifiedDetail = .ok (some s') ∧
      ScaffoldingCleared ⟨openRows, 2⟩ sampleScope (sampleRow 2 "B" (some 1) []) s' := by
  obtain ⟨hs, hw⟩ := wellFormed_of_reachable openRows_reachable
  refine (verified_completion_clears_iff sampleEnv ⟨openRows, 2⟩ sampleScope (sampleRow 2 "B" (some 1) [])
    verifiedDetail hs (hw _) (by decide) rfl rfl).mpr fun u hu hbelow => ?_
  obtain ⟨hrow, -⟩ := mem_loadScope.mp hu
  have hroot : parentOf (Store.loadScope ⟨openRows, 2⟩ sampleScope) 1 = none := by decide
  rcases List.mem_cons.mp hrow with rfl | hrow
  · obtain ⟨k, hk⟩ := hbelow
    cases hk with
    | step hparent _ => cases hroot.symm.trans hparent
  · rw [List.mem_singleton.mp hrow] at hbelow
    exact absurd hbelow (Below.not_self (hw _) (by decide : sampleRow 2 "B" (some 1) [] ∈ _))

/-- The plan is not completed. -/
theorem verified_completion_refused :
    Reachable (fun _ _ _ => True) ⟨openRows, 2⟩ ∧ WellFormed (Store.loadScope ⟨openRows, 2⟩ sampleScope) ∧
      TursoTaskSource.complete sampleEnv sampleScope ⟨openRows, 2⟩ 1 verifiedDetail =
        .error "Invalid: task #1 has open children [2]; complete them first" ∧
      ∀ s', ¬(TursoTaskSource.complete sampleEnv sampleScope ⟨openRows, 2⟩ 1 verifiedDetail = .ok (some s') ∧
        ScaffoldingCleared ⟨openRows, 2⟩ sampleScope (sampleRow 1 "A" none []) s') := by
  have hrun : TursoTaskSource.complete sampleEnv sampleScope ⟨openRows, 2⟩ 1 verifiedDetail =
      .error "Invalid: task #1 has open children [2]; complete them first" := by decide
  refine ⟨openRows_reachable, (wellFormed_of_reachable openRows_reachable).2 _, hrun, fun s' ⟨hdone, _⟩ => ?_⟩
  cases hrun.symm.trans hdone

end Nanna.Daemon
