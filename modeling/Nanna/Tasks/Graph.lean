import Nanna.Lib.Graph
import Nanna.Tasks.Types

/-!
# Graph checks

The pure walks over a scope's rows: depth, ancestors, subtree, height, and the cycle checks made
before a write. Each is translated with the source's own bound as fuel and has one lemma saying
what an accepted answer means in terms of `Up`, `Depth` and reachability.

A `HashMap` is iterated in row order here. It matters for no answer: the results are sets, heights
and errors, and only the choice between two errors depends on it.
-/

namespace Nanna.Tasks

open Nanna.Lib Relation

/-! ## Edges -/

/-- `by_id.get(&id).and_then(|t| t.parent_id)`. -/
def parentOf (rows : List Task) (id : Int) : Option Int := (findTask rows id).bind (·.parentId)

def depsOf (rows : List Task) (id : Int) : List Int :=
  match findTask rows id with
  | some task => task.dependsOn
  | none => []

def childrenOf (rows : List Task) (id : Int) : List Int :=
  (rows.filter (·.parentId = some id)).map (·.id)

/-! ## Walks -/

/-- The `while` loop of `parent_depth`; the fuel is the depth still allowed. -/
def parentDepthFrom (up : Int → Option Int) : Nat → Nat → Int → Result Nat
  | 0, _, taskId =>
    .error (.invalid s!"hierarchy depth limit {taskDepthMax} exceeded at task #{taskId}")
  | fuel + 1, depth, taskId =>
    match up taskId with
    | none => .ok depth
    | some parentId => parentDepthFrom up fuel (depth + 1) parentId

/-- Depth of a task counted from the root. -/
def parentDepth (rows : List Task) (id : Int) : Result Nat :=
  parentDepthFrom (parentOf rows) taskDepthMax 0 id

def parentDepthLenientFrom (up : Int → Option Int) : Nat → Option Int → Nat
  | 0, _ => 0
  | _ + 1, none => 0
  | fuel + 1, some parentId => parentDepthLenientFrom up fuel (up parentId) + 1

/-- Depth for the order of deletes: saturates at the bound. -/
def parentDepthLenient (rows : List Task) (id : Int) : Nat :=
  parentDepthLenientFrom (parentOf rows) taskDepthMax (parentOf rows id)

def ancestorChainFrom (up : Int → Option Int) : Nat → List Int → Option Int → List Int
  | 0, ancestors, _ => ancestors
  | _ + 1, ancestors, none => ancestors
  | fuel + 1, ancestors, some id =>
    if id ∈ ancestors then ancestors
    else ancestorChainFrom up fuel (ancestors ++ [id]) (up id)

def ancestorChain (rows : List Task) (startParent : Option Int) : List Int :=
  ancestorChainFrom (parentOf rows) taskDepthMax [] startParent

/-- Every task in the subtree rooted at `root`, `root` first. -/
def subtreeIdsFrom (rows : List Task) (root : Int) : List Int :=
  collect (childrenOf rows) (rows.map (·.id)) root

/-- One level of `subtree_height`: the unseen children of the frontier, and `seen` with them. -/
def nextFrontier (children : Int → List Int) : List Int → List Int → List Int × List Int
  | [], seen => ([], seen)
  | current :: frontier, seen =>
    let (seen', fresh) := pushFresh seen [] (children current)
    let (rest, seen'') := nextFrontier children frontier seen'
    (fresh ++ rest, seen'')

def subtreeHeightFrom (children : Int → List Int) : Nat → List Int → List Int → Nat
  | 0, _, _ => 0
  | fuel + 1, frontier, seen =>
    match nextFrontier children frontier seen with
    | ([], _) => 0
    | (next, seen') => subtreeHeightFrom children fuel next seen' + 1

/-- Height of the subtree below `root` (0 = leaf), saturating at the depth bound. -/
def subtreeHeight (rows : List Task) (root : Int) : Nat :=
  subtreeHeightFrom (childrenOf rows) taskDepthMax [root] [root]

/-! ## Checks -/

/-- The search along `depends_on` edges shared by the two dependency checks. -/
def dependencyWalk (rows : List Task) (stop : Int → Bool) (deps : List Int) : Option Int :=
  walk (depsOf rows) stop (rows.map (·.id)) deps

def checkAncestorDependency (rows : List Task) (ancestors deps : List Int) : Result Unit :=
  if ancestors = [] ∨ deps = [] then .ok ()
  else
    match dependencyWalk rows (· ∈ ancestors) deps with
    | some current =>
      .error (.invalid (s!"task #{current} is an ancestor of this task; depending on it " ++
        "(directly or transitively) would wedge both — an ancestor cannot complete while its " ++
        "children are open"))
    | none => .ok ()

def checkDependencyCycle (rows : List Task) (start : Int) : Result Unit :=
  match findTask rows start with
  | none => .ok ()
  | some startTask =>
    match dependencyWalk rows (· = start) startTask.dependsOn with
    | some _ =>
      .error (.invalid
        s!"dependency cycle: task #{start} would (transitively) depend on itself")
    | none => .ok ()

/-- The `while` loop of `check_parent_cycle`; the fuel is the steps left before the bound. -/
def checkParentCycleFrom (up : Int → Option Int) (start : Int) : Nat → Option Int → Result Unit
  | _, none => .ok ()
  | 0, some parentId =>
    if parentId = start then
      .error (.invalid s!"hierarchy cycle: task #{start} would be its own ancestor")
    else .error (.invalid s!"hierarchy depth limit {taskDepthMax} exceeded")
  | fuel + 1, some parentId =>
    if parentId = start then
      .error (.invalid s!"hierarchy cycle: task #{start} would be its own ancestor")
    else checkParentCycleFrom up start fuel (up parentId)

def checkParentCycle (rows : List Task) (start : Int) : Result Unit :=
  checkParentCycleFrom (parentOf rows) start (taskDepthMax - 1) (parentOf rows start)

def checkDependency (rows : List Task) (task : Task) (dep : Int) : Result Unit :=
  if dep = task.id then .error (.invalid s!"task #{task.id} cannot depend on itself")
  else if (findTask rows dep).isSome then .ok ()
  else .error (.invalid s!"dependency task #{dep} not found in scope")

/-- Re-parenting must not push the moved subtree past the depth bound. -/
def checkMovedDepth (rows : List Task) (task : Task) (parentId : Int) : Result Unit := do
  let newDepth := (← parentDepth rows parentId) + 1
  if newDepth + subtreeHeight rows task.id ≥ taskDepthMax then
    .error (.invalid s!"hierarchy depth limit {taskDepthMax} exceeded by re-parenting")
  else .ok ()

/-- The parent block of `check_graph_update`. -/
def checkParentUpdate (rows : List Task) (task : Task) (parentChanged : Bool) : Result Unit :=
  match task.parentId with
  | none => .ok ()
  | some parentId =>
    if parentId = task.id then .error (.invalid s!"task #{task.id} cannot be its own parent")
    else
      match findTask rows parentId with
      | none => .error (.invalid s!"parent task #{parentId} not found in scope")
      | some parent =>
        if parentChanged && parent.status.isClosed then
          .error (.invalid s!"cannot move a task under {parent.status.asStr} task #{parentId}")
        else do
          checkParentCycle rows task.id
          checkIf parentChanged (checkMovedDepth rows task parentId)

/-- The dependencies of one member of a moved subtree. -/
def checkMember (rows : List Task) (ancestors : List Int) (task : Task) (memberId : Int) :
    Result Unit :=
  if memberId = task.id then .ok ()
  else
    match findTask rows memberId with
    | some member => checkAncestorDependency rows ancestors member.dependsOn
    | none => .ok ()

/-- Validate a dependency or parent change against the scope as it would be after the update:
`rows` already holds the updated `task`. -/
def checkGraphUpdate (rows : List Task) (task : Task) (parentChanged : Bool) : Result Unit := do
  forAll (checkDependency rows task) task.dependsOn
  checkDependencyCycle rows task.id
  checkParentUpdate rows task parentChanged
  let ancestors := ancestorChain rows task.parentId
  checkAncestorDependency rows ancestors task.dependsOn
  checkIf parentChanged (forAll (checkMember rows ancestors task) (subtreeIdsFrom rows task.id))

/-! ## Looking rows up -/

theorem findTask_some {rows : List Task} {id : Int} {task : Task} (h : findTask rows id = some task) :
    task ∈ rows ∧ task.id = id := by
  refine ⟨List.mem_of_find?_eq_some h, ?_⟩
  simpa using List.find?_some h

theorem findTask_isSome {rows : List Task} {id : Int} :
    (findTask rows id).isSome ↔ ∃ task ∈ rows, task.id = id := by
  simp [findTask, List.find?_isSome]

theorem findTask_of_mem {rows : List Task} (hnd : (rows.map (·.id)).Nodup) {task : Task}
    (h : task ∈ rows) : findTask rows task.id = some task := by
  obtain ⟨found, hfound⟩ := Option.isSome_iff_exists.mp (findTask_isSome.mpr ⟨task, h, rfl⟩)
  obtain ⟨hmem, hid⟩ := findTask_some hfound
  rw [hfound, List.inj_on_of_nodup_map hnd hmem h hid]

theorem parentOf_of_mem {rows : List Task} (hnd : (rows.map (·.id)).Nodup) {task : Task}
    (h : task ∈ rows) : parentOf rows task.id = task.parentId := by
  simp [parentOf, findTask_of_mem hnd h]

theorem parentOf_some {rows : List Task} {id p : Int} (h : parentOf rows id = some p) :
    ∃ task ∈ rows, task.id = id ∧ task.parentId = some p := by
  obtain ⟨task, htask, hp⟩ := Option.bind_eq_some_iff.mp h
  exact ⟨task, (findTask_some htask).1, (findTask_some htask).2, hp⟩

theorem depsOf_of_mem {rows : List Task} (hnd : (rows.map (·.id)).Nodup) {task : Task}
    (h : task ∈ rows) : depsOf rows task.id = task.dependsOn := by
  simp [depsOf, findTask_of_mem hnd h]

theorem mem_depsOf {rows : List Task} {id d : Int} (h : d ∈ depsOf rows id) :
    ∃ task ∈ rows, task.id = id ∧ d ∈ task.dependsOn := by
  unfold depsOf at h
  split at h
  · rename_i task htask
    exact ⟨task, (findTask_some htask).1, (findTask_some htask).2, h⟩
  · simp at h

theorem mem_childrenOf {rows : List Task} {id c : Int} :
    c ∈ childrenOf rows id ↔ ∃ task ∈ rows, task.id = c ∧ task.parentId = some id := by
  simp only [childrenOf, List.mem_map, List.mem_filter, decide_eq_true_eq]
  exact ⟨fun ⟨t, ⟨ht, hp⟩, hc⟩ => ⟨t, ht, hc, hp⟩, fun ⟨t, ht, hc, hp⟩ => ⟨t, ⟨ht, hp⟩, hc⟩⟩

/-- With distinct ids, children and parents are the same edges. -/
theorem mem_childrenOf_iff {rows : List Task} (hnd : (rows.map (·.id)).Nodup) {id c : Int} :
    c ∈ childrenOf rows id ↔ parentOf rows c = some id := by
  rw [mem_childrenOf]
  constructor
  · rintro ⟨task, hmem, rfl, hp⟩
    rw [parentOf_of_mem hnd hmem, hp]
  · exact fun h => parentOf_some h

/-! ## What the checks establish -/

theorem parentDepthFrom_ok {up : Int → Option Int} : ∀ {fuel depth : Nat} {id : Int} {d : Nat},
    parentDepthFrom up fuel depth id = .ok d → ∃ k < fuel, d = depth + k ∧ Depth up id k := by
  intro fuel
  induction fuel with
  | zero => intro _ _ _ h; simp [parentDepthFrom] at h
  | succ fuel ih =>
    intro depth id d h
    unfold parentDepthFrom at h
    split at h
    · rename_i hp
      cases h
      exact ⟨0, by omega, rfl, .root hp⟩
    · rename_i p hp
      obtain ⟨k, hk, rfl, hdepth⟩ := ih h
      exact ⟨k + 1, by omega, by omega, .child hp hdepth⟩

theorem parentDepth_ok {rows : List Task} {id : Int} {d : Nat} (h : parentDepth rows id = .ok d) :
    d < taskDepthMax ∧ Depth (parentOf rows) id d := by
  obtain ⟨k, hk, rfl, hdepth⟩ := parentDepthFrom_ok h
  rw [Nat.zero_add]
  exact ⟨hk, hdepth⟩

/-- A search that stops nowhere has passed every task the dependencies reach. -/
theorem dependencyWalk_none {rows : List Task} {stop : Int → Bool} {deps : List Int}
    (h : dependencyWalk rows stop deps = none) :
    ∀ d ∈ deps, ∀ a, ReflTransGen (fun x y => y ∈ depsOf rows x) d a → stop a = false := by
  refine (walk_eq_none_iff fun a ha => ?_).mp h
  obtain ⟨d, hd⟩ := List.exists_mem_of_ne_nil _ ha
  obtain ⟨task, hmem, hid, -⟩ := mem_depsOf hd
  exact List.mem_map.mpr ⟨task, hmem, hid⟩

/-- The cycle check excludes a cycle through the updated task. -/
theorem checkDependencyCycle_ok {rows : List Task} {start : Int}
    (h : checkDependencyCycle rows start = .ok ()) :
    ¬ TransGen (fun x y => y ∈ depsOf rows x) start start := by
  intro hcycle
  obtain ⟨d, hd, hreach⟩ := TransGen.head'_iff.mp hcycle
  unfold checkDependencyCycle at h
  unfold depsOf at hd
  split at h
  · rename_i hnone
    rw [hnone] at hd
    simp at hd
  · rename_i task htask
    rw [htask] at hd
    split at h
    · cases h
    · rename_i hwalk
      have := dependencyWalk_none hwalk d hd start hreach
      simp at this

theorem checkParentCycleFrom_ok {up : Int → Option Int} {start : Int} :
    ∀ {fuel : Nat} {p : Int}, checkParentCycleFrom up start fuel (some p) = .ok () →
      (∃ d, Depth up p d) ∧ ∀ k, ¬ Up up k p start := by
  intro fuel
  induction fuel with
  | zero =>
    intro p h
    unfold checkParentCycleFrom at h
    split_ifs at h
  | succ fuel ih =>
    intro p h
    unfold checkParentCycleFrom at h
    split_ifs at h with hps
    cases hp : up p with
    | none =>
      refine ⟨⟨0, .root hp⟩, fun k hk => ?_⟩
      cases hk with
      | here => exact hps rfl
      | step hq _ => rw [hp] at hq; cases hq
    | some q =>
      rw [hp] at h
      obtain ⟨⟨d, hd⟩, hup⟩ := ih h
      refine ⟨⟨d + 1, .child hp hd⟩, fun k hk => ?_⟩
      cases hk with
      | here => exact hps rfl
      | step hq hrest =>
        rw [hp] at hq
        cases hq
        exact hup _ hrest

/-- A task with an accepted parent chain is not its own ancestor. -/
theorem checkParentCycle_ok {rows : List Task} {start p : Int}
    (h : checkParentCycle rows start = .ok ()) (hp : parentOf rows start = some p) :
    (∃ d, Depth (parentOf rows) p d) ∧ ∀ k, ¬ Up (parentOf rows) k p start := by
  unfold checkParentCycle at h
  rw [hp] at h
  exact checkParentCycleFrom_ok h

/-! ## The height of a subtree -/

/-- What one level does: the fresh ids are children of the frontier, and no child is missed. -/
theorem nextFrontier_spec {children : Int → List Int} : ∀ (frontier seen : List Int),
    let out := nextFrontier children frontier seen
    (∀ x ∈ out.1, ∃ f ∈ frontier, x ∈ children f) ∧
      (∀ x, x ∈ out.2 ↔ x ∈ seen ∨ x ∈ out.1) ∧
      (∀ f ∈ frontier, ∀ x ∈ children f, x ∈ out.2) := by
  intro frontier
  induction frontier with
  | nil => intro seen; simp [nextFrontier]
  | cons current frontier ih =>
    intro seen
    have hsub : ∀ b ∈ children current, b ∈ children current := fun _ h => h
    obtain ⟨fresh, hpush, hfresh, hall, -, -⟩ := pushFresh_spec (children current) hsub seen []
    obtain ⟨h1, h2, h3⟩ := ih (seen ++ fresh)
    simp only [nextFrontier, hpush, List.nil_append]
    refine ⟨fun x hx => ?_, fun x => ?_, fun f hf x hx => ?_⟩
    · rcases List.mem_append.mp hx with hx | hx
      · exact ⟨current, by simp, hfresh x hx⟩
      · obtain ⟨f, hf, hxf⟩ := h1 x hx
        exact ⟨f, by simp [hf], hxf⟩
    · rw [h2]
      simp only [List.mem_append, or_assoc]
    · rcases List.mem_cons.mp hf with rfl | hf
      · exact (h2 x).mpr (.inl (hall x hx))
      · exact h3 f hf x hx

/-- A height below the bound is one no chain up to `root` exceeds. -/
theorem subtreeHeightFrom_spec {rows : List Task} (hnd : (rows.map (·.id)).Nodup) {root : Int} :
    ∀ (fuel level : Nat) (frontier seen : List Int),
      (∀ x ∈ frontier, x ∈ seen) → (∀ x ∈ frontier, Up (parentOf rows) level x root) →
      (∀ x ∈ seen, ∃ k ≤ level, Up (parentOf rows) k x root) →
      (∀ x ∈ seen, x ∈ frontier ∨ ∀ c ∈ childrenOf rows x, c ∈ seen) → root ∈ seen →
      subtreeHeightFrom (childrenOf rows) fuel frontier seen < fuel →
      ∀ k x, Up (parentOf rows) k x root →
        ∃ j ≤ level + subtreeHeightFrom (childrenOf rows) fuel frontier seen, Up (parentOf rows) j x root := by
  intro fuel
  induction fuel with
  | zero => intro _ _ _ _ _ _ _ _ h; omega
  | succ fuel ih =>
    intro level frontier seen hfs hlevel hseen hclosed hroot hlt k x hk
    obtain ⟨hfresh, hmem, hall⟩ := nextFrontier_spec frontier seen
    unfold subtreeHeightFrom at hlt ⊢
    split at hlt
    · rename_i seen' hnext
      rw [hnext] at hmem hall
      -- nothing fresh: `seen` is closed under children, so it holds every descendant
      have hmem' : ∀ c, c ∈ seen' ↔ c ∈ seen := fun c => by simpa using hmem c
      have hin : ∀ k x, Up (parentOf rows) k x root → x ∈ seen := by
        intro k
        induction k with
        | zero => intro x hx; cases hx; exact hroot
        | succ k ihk =>
          intro x hx
          cases hx with
          | step hp hrest =>
            have hpar := ihk _ hrest
            have hchild := (mem_childrenOf_iff hnd).mpr hp
            rcases hclosed _ hpar with hf | hc
            · exact (hmem' x).mp (hall _ hf x hchild)
            · exact hc x hchild
      obtain ⟨j, hj, hup⟩ := hseen x (hin k x hk)
      exact ⟨j, by omega, hup⟩
    · rename_i next seen' hne hnext
      rw [hnext] at hfresh hmem hall
      have hlevel' : ∀ y ∈ next, Up (parentOf rows) (level + 1) y root := by
        intro y hy
        obtain ⟨f, hf, hyf⟩ := hfresh y hy
        exact .step ((mem_childrenOf_iff hnd).mp hyf) (hlevel f hf)
      have hseen' : ∀ y ∈ seen', ∃ k ≤ level + 1, Up (parentOf rows) k y root := by
        intro y hy
        rcases (hmem y).mp hy with hy | hy
        · obtain ⟨k, hk, hup⟩ := hseen y hy
          exact ⟨k, by omega, hup⟩
        · exact ⟨level + 1, le_refl _, hlevel' y hy⟩
      have hclosed' : ∀ y ∈ seen', y ∈ next ∨ ∀ c ∈ childrenOf rows y, c ∈ seen' := by
        intro y hy
        rcases (hmem y).mp hy with hy | hy
        · rcases hclosed y hy with hf | hc
          · exact .inr fun c hc => hall y hf c hc
          · exact .inr fun c hcy => (hmem c).mpr (.inl (hc c hcy))
        · exact .inl hy
      obtain ⟨j, hj, hup⟩ := ih (level + 1) next seen' (fun y hy => (hmem y).mpr (.inr hy)) hlevel'
        hseen' hclosed' ((hmem root).mpr (.inl hroot)) (by omega) k x hk
      exact ⟨j, by omega, hup⟩

theorem subtreeHeight_spec {rows : List Task} (hnd : (rows.map (·.id)).Nodup) {root x : Int}
    {k : Nat} (hlt : subtreeHeight rows root < taskDepthMax) (hk : Up (parentOf rows) k x root) :
    ∃ j ≤ subtreeHeight rows root, Up (parentOf rows) j x root := by
  have hself : ∀ y ∈ [root], ∃ k ≤ 0, Up (parentOf rows) k y root := fun y hy =>
    ⟨0, le_refl _, List.mem_singleton.mp hy ▸ .here _⟩
  obtain ⟨j, hj, hup⟩ := subtreeHeightFrom_spec hnd taskDepthMax 0 [root] [root] (fun _ h => h)
    (fun y hy => List.mem_singleton.mp hy ▸ .here _) hself (fun _ h => .inl h) (by simp) hlt k x hk
  exact ⟨j, by unfold subtreeHeight; omega, hup⟩

/-- The subtree is everything whose parent chain meets `root`. -/
theorem mem_subtreeIdsFrom {rows : List Task} (hnd : (rows.map (·.id)).Nodup) {root x : Int} :
    x ∈ subtreeIdsFrom rows root ↔ ∃ k, Up (parentOf rows) k x root := by
  have hn : ∀ a, ∀ b ∈ childrenOf rows a, b ∈ rows.map (·.id) := by
    intro a b hb
    obtain ⟨task, hmem, rfl, -⟩ := mem_childrenOf.mp hb
    exact List.mem_map.mpr ⟨task, hmem, rfl⟩
  rw [subtreeIdsFrom, mem_collect_iff hn]
  constructor
  · intro h
    induction h with
    | refl => exact ⟨0, .here _⟩
    | tail _ hbc ih =>
      obtain ⟨k, hk⟩ := ih
      exact ⟨k + 1, .step ((mem_childrenOf_iff hnd).mp hbc) hk⟩
  · rintro ⟨k, hk⟩
    induction hk with
    | here => exact .refl
    | step hp _ ih => exact ih.tail ((mem_childrenOf_iff hnd).mpr hp)

/-- A subtree holds rows, apart from its root. -/
theorem row_of_mem_subtreeIdsFrom {rows : List Task} (hnd : (rows.map (·.id)).Nodup) {root x : Int}
    (h : x ∈ subtreeIdsFrom rows root) : x = root ∨ ∃ task ∈ rows, task.id = x := by
  obtain ⟨k, hk⟩ := (mem_subtreeIdsFrom hnd).mp h
  cases hk with
  | here => exact .inl rfl
  | step hp _ =>
    obtain ⟨task, hmem, hid, -⟩ := parentOf_some hp
    exact .inr ⟨task, hmem, hid⟩

end Nanna.Tasks
