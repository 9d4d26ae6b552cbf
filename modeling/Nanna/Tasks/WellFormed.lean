import Nanna.Tasks.Effects

/-!
# The task graph is well formed in every reachable scope

`WellFormed`: ids are distinct, parents and dependencies name rows of the scope, every parent
chain ends before the depth bound, and `depends_on` closes no cycle. Every step of a scope's rows
keeps it (`RowsStep.wellFormed`); `taskGraph_wellFormed` reads it off every run.

What a write of the graph needs from its checks is in `CreateChecked` and `GraphChecked`. Depths
move in three ways: a new leaf hangs below a checked parent, a patch moves one subtree whose height
was checked (`Depth.reparent`), a cascade moves subtrees up to an ancestor (`Depth.shorten`).
-/

namespace Nanna.Tasks

open Nanna.Lib Relation

/-! ## The invariant -/

/-- Task `a` waits for task `b` by its `depends_on` list. -/
def DependsOn (rows : List Task) (a b : Int) : Prop := ∃ t ∈ rows, t.id = a ∧ b ∈ t.dependsOn

/-- Task `a` is the parent of task `b`. -/
def ParentOf (rows : List Task) (a b : Int) : Prop := ∃ t ∈ rows, t.id = b ∧ t.parentId = some a

structure WellFormed (rows : List Task) : Prop where
  nodup : (rows.map (·.id)).Nodup
  parent_mem : ∀ t ∈ rows, ∀ p, t.parentId = some p → ∃ u ∈ rows, u.id = p
  dep_mem : ∀ t ∈ rows, ∀ d ∈ t.dependsOn, ∃ u ∈ rows, u.id = d
  depth : ∀ t ∈ rows, ∃ d < taskDepthMax, Depth (parentOf rows) t.id d
  deps_acyclic : Acyclic (DependsOn rows)

theorem dependsOn_iff {rows : List Task} (hnd : (rows.map (·.id)).Nodup) {a b : Int} :
    DependsOn rows a b ↔ b ∈ depsOf rows a := by
  constructor
  · rintro ⟨t, ht, rfl, hb⟩
    rw [depsOf_of_mem hnd ht]
    exact hb
  · exact fun h => mem_depsOf h

theorem parentOf_iff {rows : List Task} (hnd : (rows.map (·.id)).Nodup) {a b : Int} :
    ParentOf rows a b ↔ parentOf rows b = some a := by
  constructor
  · rintro ⟨t, ht, rfl, hp⟩
    rw [parentOf_of_mem hnd ht, hp]
  · exact fun h => parentOf_some h

namespace WellFormed

variable {rows : List Task}

theorem nil : WellFormed [] :=
  ⟨by simp, by simp, by simp, by simp, fun a ha => by
    obtain ⟨b, ⟨t, ht, -⟩, -⟩ := TransGen.head'_iff.mp ha
    simp at ht⟩

theorem parent_acyclic (h : WellFormed rows) : Acyclic (ParentOf rows) := by
  have hchains : Acyclic fun a b => parentOf rows b = some a := by
    refine acyclic_of_depth fun x hx => ?_
    obtain ⟨p, hp⟩ := Option.isSome_iff_exists.mp hx
    obtain ⟨t, ht, rfl, -⟩ := parentOf_some hp
    obtain ⟨d, -, hd⟩ := h.depth t ht
    exact ⟨d, hd⟩
  exact hchains.mono fun a b hab => (parentOf_iff h.nodup).mp hab

theorem no_self_dependency (h : WellFormed rows) : ∀ t ∈ rows, t.id ∉ t.dependsOn :=
  fun t ht hself => h.deps_acyclic t.id (.single ⟨t, ht, rfl, hself⟩)

/-- A map that keeps every row's place keeps the graph. -/
theorem map_keep (h : WellFormed rows) {f : Task → Task} (hid : ∀ t, (f t).id = t.id)
    (hparent : ∀ t ∈ rows, (f t).parentId = t.parentId)
    (hdeps : ∀ t ∈ rows, (f t).dependsOn = t.dependsOn) : WellFormed (rows.map f) := by
  have hmem : ∀ {x : Int}, (∃ u ∈ rows, u.id = x) → ∃ u ∈ rows.map f, u.id = x := by
    rintro x ⟨u, hu, rfl⟩
    exact ⟨f u, List.mem_map_of_mem hu, hid u⟩
  have hup : parentOf (rows.map f) = parentOf rows := by
    funext x
    rw [parentOf_map hid]
    cases ht : findTask rows x with
    | none => simp [parentOf, ht]
    | some t => simp [parentOf, ht, hparent t (findTask_some ht).1]
  refine ⟨by rw [map_ids hid]; exact h.nodup, ?_, ?_, ?_, h.deps_acyclic.mono ?_⟩
  · intro t' ht' p hp
    obtain ⟨t, ht, rfl⟩ := List.mem_map.mp ht'
    exact hmem (h.parent_mem t ht p ((hparent t ht).symm.trans hp))
  · intro t' ht' d hd
    obtain ⟨t, ht, rfl⟩ := List.mem_map.mp ht'
    rw [hdeps t ht] at hd
    exact hmem (h.dep_mem t ht d hd)
  · intro t' ht'
    obtain ⟨t, ht, rfl⟩ := List.mem_map.mp ht'
    rw [hid, hup]
    exact h.depth t ht
  · rintro a b ⟨t', ht', ha, hb⟩
    obtain ⟨t, ht, rfl⟩ := List.mem_map.mp ht'
    rw [hdeps t ht] at hb
    exact ⟨t, ht, (hid t).symm.trans ha, hb⟩

end WellFormed

/-! ## Create -/

/-- What the checks of `create` establish. -/
structure CreateChecked (rows : List Task) (new : NewTask) : Prop where
  parent : ∀ p, new.parentId = some p → ∃ u ∈ rows, u.id = p ∧ isOpen u = true ∧
    ∃ d, d + 1 < taskDepthMax ∧ Depth (parentOf rows) p d
  deps : ∀ d ∈ new.dependsOn, ∃ u ∈ rows, u.id = d

theorem checkNewParent_ok {rows : List Task} {p : Int}
    (h : checkNewParent rows (some p) = .ok ()) : ∃ u ∈ rows, u.id = p ∧ isOpen u = true ∧
      ∃ d, d + 1 < taskDepthMax ∧ Depth (parentOf rows) p d := by
  simp only [checkNewParent] at h
  split at h
  · cases h
  · rename_i parent hparent
    split_ifs at h with hclosed
    obtain ⟨d, hd, h⟩ := bind_eq_ok.mp h
    split_ifs at h with hlimit
    obtain ⟨-, hdepth⟩ := parentDepth_ok hd
    obtain ⟨hmem, hid⟩ := findTask_some hparent
    exact ⟨parent, hmem, hid, by simp [isOpen, hclosed], d, by omega, hdepth⟩

theorem checkCreate_ok {rows : List Task} {new : NewTask} (h : checkCreate rows new = .ok ()) :
    CreateChecked rows new := by
  obtain ⟨⟨⟩, -, h⟩ := bind_eq_ok.mp h
  obtain ⟨⟨⟩, hparent, h⟩ := bind_eq_ok.mp h
  obtain ⟨⟨⟩, hdeps, -⟩ := bind_eq_ok.mp h
  refine ⟨fun p hp => ?_, fun d hd => ?_⟩
  · rw [hp] at hparent
    exact checkNewParent_ok hparent
  · have hdep := forAll_eq_ok.mp hdeps d hd
    unfold checkNewDependency at hdep
    split_ifs at hdep with hsome
    exact findTask_isSome.mp hsome

/-- A new row hangs below a checked parent, and nothing depends on it. -/
theorem WellFormed.insert {rows : List Task} (h : WellFormed rows) {new : NewTask} {id : Int}
    {now : String} (hcheck : CreateChecked rows new) (hfresh : ∀ t ∈ rows, t.id < id) :
    WellFormed (rows ++ [new.toRow id now]) := by
  have hnot : ∀ {x : Int}, (∃ u ∈ rows, u.id = x) → x ≠ id := by
    rintro x ⟨u, hu, rfl⟩
    exact (hfresh u hu).ne
  have hmem : ∀ {x : Int}, (∃ u ∈ rows, u.id = x) → ∃ u ∈ rows ++ [new.toRow id now], u.id = x := by
    rintro x ⟨u, hu, rfl⟩
    exact ⟨u, List.mem_append_left _ hu, rfl⟩
  have hnd : ((rows ++ [new.toRow id now]).map (·.id)).Nodup := by
    rw [List.map_append, List.nodup_append]
    refine ⟨h.nodup, by simp, fun a ha b hb => ?_⟩
    obtain ⟨u, hu, rfl⟩ := List.mem_map.mp ha
    have hlt := hfresh u hu
    simp only [List.map_cons, List.map_nil, List.mem_singleton, NewTask.toRow] at hb
    omega
  have hold : ∀ t ∈ rows, parentOf (rows ++ [new.toRow id now]) t.id = parentOf rows t.id := by
    intro t ht
    rw [parentOf_of_mem hnd (List.mem_append_left _ ht), parentOf_of_mem h.nodup ht]
  have hchain : ∀ {x : Int} {d : Nat}, (∃ u ∈ rows, u.id = x) → Depth (parentOf rows) x d →
      Depth (parentOf (rows ++ [new.toRow id now])) x d := by
    intro x d hx hd
    induction hd with
    | root hroot =>
      obtain ⟨t, ht, rfl⟩ := hx
      exact .root ((hold t ht).trans hroot)
    | child hp _ ih =>
      obtain ⟨t, ht, rfl⟩ := hx
      have hparent := (parentOf_of_mem h.nodup ht).symm.trans hp
      exact .child ((hold t ht).trans hp) (ih (h.parent_mem t ht _ hparent))
  have hlast : new.toRow id now ∈ rows ++ [new.toRow id now] := by simp
  have hnew : parentOf (rows ++ [new.toRow id now]) id = new.parentId := parentOf_of_mem hnd hlast
  refine ⟨hnd, ?_, ?_, ?_, ?_⟩
  · intro t ht p hp
    rcases List.mem_append.mp ht with ht | ht
    · exact hmem (h.parent_mem t ht p hp)
    · rw [List.mem_singleton.mp ht] at hp
      obtain ⟨u, hu, hid, -⟩ := hcheck.parent p hp
      exact hmem ⟨u, hu, hid⟩
  · intro t ht d hd
    rcases List.mem_append.mp ht with ht | ht
    · exact hmem (h.dep_mem t ht d hd)
    · rw [List.mem_singleton.mp ht] at hd
      exact hmem (hcheck.deps d hd)
  · intro t ht
    rcases List.mem_append.mp ht with ht | ht
    · obtain ⟨d, hlt, hd⟩ := h.depth t ht
      exact ⟨d, hlt, hchain ⟨t, ht, rfl⟩ hd⟩
    · rw [List.mem_singleton.mp ht]
      cases hp : new.parentId with
      | none => exact ⟨0, by decide, .root (hnew.trans hp)⟩
      | some p =>
        obtain ⟨u, hu, hid, -, d, hlt, hd⟩ := hcheck.parent p hp
        exact ⟨d + 1, hlt, .child (hnew.trans hp) (hchain ⟨u, hu, hid⟩ hd)⟩
  · refine h.deps_acyclic.of_through (t := id) (fun a b ha _ hab => ?_) fun hcycle => ?_
    · obtain ⟨t, ht, hta, hb⟩ := hab
      rcases List.mem_append.mp ht with ht | ht
      · exact ⟨t, ht, hta, hb⟩
      · rw [List.mem_singleton.mp ht] at hta
        exact absurd hta.symm ha
    · obtain ⟨y, -, t, ht, -, hb⟩ := TransGen.tail'_iff.mp hcycle
      rcases List.mem_append.mp ht with ht | ht
      · exact hnot (h.dep_mem t ht id hb) rfl
      · rw [List.mem_singleton.mp ht] at hb
        exact hnot (hcheck.deps id hb) rfl

/-! ## Update -/

/-- What `check_graph_update` establishes about the rows that hold the updated task. -/
structure GraphChecked (rows : List Task) (task : Task) (parentChanged : Bool) : Prop where
  deps : ∀ d ∈ task.dependsOn, (findTask rows d).isSome
  no_cycle : ¬ TransGen (fun x y => y ∈ depsOf rows x) task.id task.id
  parent : ∀ p, task.parentId = some p → ∃ u, findTask rows p = some u ∧
    (parentChanged = true → isOpen u = true ∧ ∃ d, Depth (parentOf rows) p d ∧
      d + 1 + subtreeHeight rows task.id < taskDepthMax)

theorem checkParentUpdate_ok {rows : List Task} {task : Task} {parentChanged : Bool} {p : Int}
    (h : checkParentUpdate rows task parentChanged = .ok ()) (hp : task.parentId = some p) :
    ∃ u, findTask rows p = some u ∧
      (parentChanged = true → isOpen u = true ∧ ∃ d, Depth (parentOf rows) p d ∧
        d + 1 + subtreeHeight rows task.id < taskDepthMax) := by
  simp only [checkParentUpdate, hp] at h
  split_ifs at h with hself
  split at h
  · cases h
  · rename_i parent hparent
    split_ifs at h with hclosed
    obtain ⟨⟨⟩, -, hmoved⟩ := bind_eq_ok.mp h
    refine ⟨parent, hparent, fun hchanged => ?_⟩
    rw [hchanged] at hclosed
    obtain ⟨d, hd, h⟩ := bind_eq_ok.mp (checkIf_eq_ok.mp hmoved hchanged)
    simp only at h
    split_ifs at h with hlimit
    exact ⟨by simpa [isOpen] using hclosed, d, (parentDepth_ok hd).2, by omega⟩

theorem checkGraphUpdate_ok {rows : List Task} {task : Task} {parentChanged : Bool}
    (h : checkGraphUpdate rows task parentChanged = .ok ()) :
    GraphChecked rows task parentChanged := by
  obtain ⟨⟨⟩, hdeps, h⟩ := bind_eq_ok.mp h
  obtain ⟨⟨⟩, hcycle, h⟩ := bind_eq_ok.mp h
  obtain ⟨⟨⟩, hparent, -⟩ := bind_eq_ok.mp h
  refine ⟨fun d hd => ?_, checkDependencyCycle_ok hcycle, fun p hp =>
    checkParentUpdate_ok hparent hp⟩
  have hdep := forAll_eq_ok.mp hdeps d hd
  unfold checkDependency at hdep
  split_ifs at hdep with hself hsome
  exact hsome

namespace WellFormed

variable {rows : List Task} {now : String} {task : Task}

/-- The depths after a patch: the moved subtree fits below its new parent. -/
theorem patched_depth (h : WellFormed rows) (hmem : (findTask rows task.id).isSome)
    {parentChanged : Bool} (hcheck : GraphChecked (putTask rows task) task parentChanged)
    (hkept : parentChanged = false → task.parentId = parentOf rows task.id) :
    ∀ t ∈ rows, ∃ d < taskDepthMax, Depth (parentOf (patchedRows now rows task)) t.id d := by
  intro t ht
  obtain ⟨hput, hup, -⟩ := putTask_graph now hmem
  have hnd : ((putTask rows task).map (·.id)).Nodup := by rw [hput]; exact h.nodup
  have hrest : ∀ x, x ≠ task.id →
      parentOf (patchedRows now rows task) x = parentOf rows x := fun x hx => by
    rw [parentOf_patched x hmem, if_neg hx]
  have hmoved : parentOf (patchedRows now rows task) task.id = task.parentId := by
    rw [parentOf_patched _ hmem, if_pos rfl]
  obtain ⟨d, hlt, hd⟩ := h.depth t ht
  rcases hd.reparent hrest with hd' | ⟨k, hk, hchain⟩
  · exact ⟨d, hlt, hd'⟩
  · cases hpc : parentChanged with
    | false =>
      have hsame : parentOf (patchedRows now rows task) = parentOf rows := by
        funext x
        by_cases hx : x = task.id
        · rw [hx, hmoved, hkept hpc]
        · exact hrest x hx
      rw [hsame]
      exact ⟨d, hlt, hd⟩
    | true =>
      cases hp : task.parentId with
      | none =>
        refine ⟨0 + k, by omega, hchain.depth (.root (hmoved.trans hp))⟩
      | some p =>
        obtain ⟨u, -, hu⟩ := hcheck.parent p hp
        obtain ⟨-, e, he, hheight⟩ := hu hpc
        rw [← hup] at hchain
        obtain ⟨j, hj, hchain⟩ := subtreeHeight_spec hnd (by omega) hchain
        rw [hup] at hchain he
        exact ⟨e + 1 + j, by omega, hchain.depth (.child (hmoved.trans hp) he)⟩

/-- A checked patch keeps the graph well formed. -/
theorem patched (h : WellFormed rows) (hmem : (findTask rows task.id).isSome)
    {parentChanged : Bool} (hcheck : GraphChecked (putTask rows task) task parentChanged)
    (hkept : parentChanged = false → task.parentId = parentOf rows task.id) :
    WellFormed (patchedRows now rows task) := by
  obtain ⟨hput, -, hdeps⟩ := putTask_graph now hmem
  have hid := patchedRow_id now task
  have hnd : ((patchedRows now rows task).map (·.id)).Nodup := by
    rw [patchedRows_eq, map_ids hid]
    exact h.nodup
  have hin : ∀ {x : Int}, (∃ u ∈ rows, u.id = x) → ∃ u ∈ patchedRows now rows task, u.id = x := by
    rintro x ⟨u, hu, rfl⟩
    exact ⟨_, List.mem_map_of_mem hu, hid u⟩
  have hput' : ∀ {x : Int}, (findTask (putTask rows task) x).isSome →
      ∃ u ∈ patchedRows now rows task, u.id = x := by
    intro x hx
    obtain ⟨u, hu, rfl⟩ := findTask_isSome.mp hx
    have : u.id ∈ rows.map (·.id) := hput ▸ List.mem_map_of_mem hu
    obtain ⟨v, hv, hvid⟩ := List.mem_map.mp this
    exact hin ⟨v, hv, hvid⟩
  refine ⟨hnd, ?_, ?_, ?_, ?_⟩
  · intro t' ht' p hp
    obtain ⟨t, ht, rfl⟩ := List.mem_map.mp ht'
    split_ifs at hp with htask
    · obtain ⟨u, hu, -⟩ := hcheck.parent p hp
      exact hput' (Option.isSome_iff_exists.mpr ⟨u, hu⟩)
    · exact hin (h.parent_mem t ht p hp)
  · intro t' ht' d hd
    obtain ⟨t, ht, rfl⟩ := List.mem_map.mp ht'
    split_ifs at hd with htask
    · exact hput' (hcheck.deps d hd)
    · exact hin (h.dep_mem t ht d hd)
  · intro t' ht'
    obtain ⟨t, ht, rfl⟩ := List.mem_map.mp ht'
    rw [hid]
    exact h.patched_depth hmem hcheck hkept t ht
  · refine h.deps_acyclic.of_through (t := task.id) (fun a b ha _ hab => ?_) fun hcycle => ?_
    · obtain ⟨t', ht', hta, hb⟩ := hab
      obtain ⟨t, ht, rfl⟩ := List.mem_map.mp ht'
      rw [hid] at hta
      rw [if_neg (hta ▸ ha)] at hb
      exact ⟨t, ht, hta, hb⟩
    · refine hcheck.no_cycle (hcycle.lift id fun a b hab => ?_)
      rw [hdeps]
      exact (dependsOn_iff hnd).mp hab

/-- A cascade only shortens parent chains. -/
theorem cascaded (h : WellFormed rows) (htask : parentOf rows task.id = task.parentId) :
    WellFormed (cascadedRows now rows task) := by
  have hid := rewriteRow_id now (cascadePlan rows task)
  have hnd : ((cascadedRows now rows task).map (·.id)).Nodup := by
    rw [cascadedRows, map_ids hid]
    exact h.nodup
  have hin : ∀ {x : Int}, (∃ u ∈ rows, u.id = x) → ∃ u ∈ cascadedRows now rows task, u.id = x := by
    rintro x ⟨u, hu, rfl⟩
    exact ⟨_, List.mem_map_of_mem hu, hid u⟩
  have hparent : ∀ p, task.parentId = some p → ∃ u ∈ rows, u.id = p := by
    intro p hp
    obtain ⟨t, ht, -, htp⟩ := parentOf_some (htask.trans hp)
    exact h.parent_mem t ht p htp
  have hup : ∀ x, parentOf (cascadedRows now rows task) x = parentOf rows x ∨
      parentOf (cascadedRows now rows task) x = task.parentId ∧
        ∃ k, Up (parentOf rows) (k + 1) x task.id := by
    intro x
    rw [cascadedRows, parentOf_map hid]
    cases ht : findTask rows x with
    | none => exact .inl (by simp [parentOf, ht])
    | some t =>
      obtain ⟨hmem, rfl⟩ := findTask_some ht
      rw [Option.bind_some, parentOf_of_mem h.nodup hmem]
      cases cascadedRow now h.nodup task hmem with
      | kept hsame => exact .inl (congrArg _ hsame)
      | cancelled _ hsame => exact .inl hsame
      | reparented hcur hchain _ hmoved =>
        exact .inr ⟨hmoved, _, .step ((parentOf_of_mem h.nodup hmem).trans hcur) hchain⟩
  refine ⟨hnd, ?_, ?_, ?_, h.deps_acyclic.mono ?_⟩
  · intro t' ht' p hp
    obtain ⟨t, ht, rfl⟩ := List.mem_map.mp ht'
    cases cascadedRow now h.nodup task ht with
    | kept hsame => exact hin (h.parent_mem t ht p (hsame ▸ hp))
    | cancelled _ hsame => exact hin (h.parent_mem t ht p (hsame.symm.trans hp))
    | reparented _ _ _ hmoved => exact hin (hparent p (hmoved.symm.trans hp))
  · intro t' ht' d hd
    obtain ⟨t, ht, rfl⟩ := List.mem_map.mp ht'
    rw [(cascadedRow now h.nodup task ht).dependsOn] at hd
    exact hin (h.dep_mem t ht d hd)
  · intro t' ht'
    obtain ⟨t, ht, rfl⟩ := List.mem_map.mp ht'
    obtain ⟨d, hlt, hd⟩ := h.depth t ht
    obtain ⟨e, he, hde⟩ := Depth.shorten htask hup hd
    rw [hid]
    exact ⟨e, by omega, hde⟩
  · rintro a b ⟨t', ht', hta, hb⟩
    obtain ⟨t, ht, rfl⟩ := List.mem_map.mp ht'
    rw [(cascadedRow now h.nodup task ht).dependsOn] at hb
    exact ⟨t, ht, (hid t).symm.trans hta, hb⟩

/-! ## Delete -/

/-- A deletion takes a whole subtree and every reference to it. -/
theorem deleted (h : WellFormed rows) (id : Int) : WellFormed (deletedRows now rows id) := by
  have hid := rewriteRow_id now (strippedRows rows (subtreeIdsFrom rows id))
  have hnd := deletedRows_nodup now h.nodup id
  have hin : ∀ {x : Int}, (∃ u ∈ rows, u.id = x) → x ∉ subtreeIdsFrom rows id →
      ∃ u ∈ deletedRows now rows id, u.id = x := by
    rintro x ⟨u, hu, rfl⟩ hx
    exact ⟨_, mem_deletedRows.mpr ⟨u, hu, hx, rfl⟩, hid u⟩
  -- the parent of a row that stays, stays
  have hstay : ∀ t ∈ rows, t.id ∉ subtreeIdsFrom rows id → ∀ p, t.parentId = some p →
      p ∉ subtreeIdsFrom rows id := by
    intro t ht hkeep p hp hmem
    obtain ⟨k, hk⟩ := (mem_subtreeIdsFrom h.nodup).mp hmem
    exact hkeep ((mem_subtreeIdsFrom h.nodup).mpr
      ⟨k + 1, .step ((parentOf_of_mem h.nodup ht).trans hp) hk⟩)
  have hup : ∀ t ∈ rows, t.id ∉ subtreeIdsFrom rows id →
      parentOf (deletedRows now rows id) t.id = parentOf rows t.id := by
    intro t ht hkeep
    have hmem : rewriteRow now (strippedRows rows (subtreeIdsFrom rows id)) t ∈
        deletedRows now rows id := mem_deletedRows.mpr ⟨t, ht, hkeep, rfl⟩
    have := parentOf_of_mem hnd hmem
    rw [hid, (deletedRow now h.nodup _ ht hkeep).1] at this
    rw [this, parentOf_of_mem h.nodup ht]
  have hchain : ∀ {x : Int} {d : Nat}, Depth (parentOf rows) x d → (∃ u ∈ rows, u.id = x) →
      x ∉ subtreeIdsFrom rows id → Depth (parentOf (deletedRows now rows id)) x d := by
    intro x d hd
    induction hd with
    | root hroot =>
      rintro ⟨t, ht, rfl⟩ hkeep
      exact .root ((hup t ht hkeep).trans hroot)
    | child hp _ ih =>
      rintro ⟨t, ht, rfl⟩ hkeep
      have hparent := (parentOf_of_mem h.nodup ht).symm.trans hp
      exact .child ((hup t ht hkeep).trans hp)
        (ih (h.parent_mem t ht _ hparent) (hstay t ht hkeep _ hparent))
  refine ⟨hnd, ?_, ?_, ?_, h.deps_acyclic.mono ?_⟩
  · intro t' ht' p hp
    obtain ⟨t, ht, hkeep, rfl⟩ := mem_deletedRows.mp ht'
    rw [(deletedRow now h.nodup _ ht hkeep).1] at hp
    exact hin (h.parent_mem t ht p hp) (hstay t ht hkeep p hp)
  · intro t' ht' d hd
    obtain ⟨t, ht, hkeep, rfl⟩ := mem_deletedRows.mp ht'
    obtain ⟨hd, hdkeep⟩ := ((deletedRow now h.nodup _ ht hkeep).2.2 d).mp hd
    exact hin (h.dep_mem t ht d hd) hdkeep
  · intro t' ht'
    obtain ⟨t, ht, hkeep, rfl⟩ := mem_deletedRows.mp ht'
    obtain ⟨d, hlt, hd⟩ := h.depth t ht
    rw [hid]
    exact ⟨d, hlt, hchain hd ⟨t, ht, rfl⟩ hkeep⟩
  · rintro a b ⟨t', ht', hta, hb⟩
    obtain ⟨t, ht, hkeep, rfl⟩ := mem_deletedRows.mp ht'
    exact ⟨t, ht, (hid t).symm.trans hta, (((deletedRow now h.nodup _ ht hkeep).2.2 b).mp hb).1⟩

end WellFormed

/-! ## Every step, every run -/

/-- The rows an update leaves, before its cascade. -/
theorem WellFormed.updated {env : Env} {rows : List Task} {task : Task} {patch : TaskPatch}
    {p : Patched} (h : WellFormed rows) (hmem : task ∈ rows)
    (hpatch : applyPatch env task patch = .ok p)
    (hcheck : needsGraphCheck patch = true →
      checkGraphUpdate (putTask rows p.1) p.1 patch.parentId.isSome = .ok ()) :
    WellFormed (patchedRows env.now rows p.1) := by
  have hspec := applyPatch_spec hpatch
  have hfind : (findTask rows p.1.id).isSome := findTask_isSome.mpr ⟨task, hmem, hspec.id.symm⟩
  have hold : parentOf rows p.1.id = task.parentId := by
    rw [hspec.id, parentOf_of_mem h.nodup hmem]
  by_cases hneeds : needsGraphCheck patch = true
  · refine h.patched hfind (checkGraphUpdate_ok (hcheck hneeds)) fun hnone => ?_
    rw [hold, hspec.parentId]
    rw [Option.isSome_eq_false_iff, Option.isNone_iff_eq_none] at hnone
    rw [hnone, Option.getD_none]
  · obtain ⟨hdeps, hparent⟩ : patch.dependsOn = none ∧ patch.parentId = none := by
      simpa [needsGraphCheck] using hneeds
    have hrow : ∀ t ∈ rows, t.id = p.1.id → t = task := fun t ht hid =>
      List.inj_on_of_nodup_map h.nodup ht hmem (hid.trans hspec.id)
    refine h.map_keep (patchedRow_id env.now p.1) (fun t ht => ?_) fun t ht => ?_
    · split_ifs with hid
      · rw [hrow t ht hid]
        exact hspec.parentId.trans (by rw [hparent, Option.getD_none])
      · rfl
    · split_ifs with hid
      · rw [hrow t ht hid]
        exact hspec.dependsOn.trans (by rw [hdeps, Option.getD_none])
      · rfl

/-- Every step keeps a scope's graph well formed. -/
theorem RowsStep.wellFormed {env : Env} {sc : Scope} {rows rows' : List Task} {op : Op}
    (hstep : RowsStep env sc rows op rows') (h : WellFormed rows) : WellFormed rows' := by
  cases hstep with
  | same => exact h
  | create _ _ hcheck hfresh => exact h.insert (checkCreate_ok hcheck) hfresh
  | @update task patch p hmem hpatch hcheck =>
    have hw := h.updated hmem hpatch hcheck
    split_ifs
    · refine hw.cascaded ?_
      have hfind : (findTask rows p.1.id).isSome :=
        findTask_isSome.mpr ⟨task, hmem, (applyPatch_spec hpatch).id.symm⟩
      rw [parentOf_patched _ hfind, if_pos rfl]
    · exact hw
  | complete =>
    refine h.map_keep (fun t => ?_) (fun t _ => ?_) (fun t _ => ?_) <;> split_ifs <;> rfl
  | reopen =>
    refine h.map_keep (fun t => ?_) (fun t _ => ?_) (fun t _ => ?_) <;> split_ifs <;> rfl
  | delete => exact h.deleted _
  | clear hrun =>
    induction hrun with
    | refl => exact h
    | tail _ hdelete ih =>
      obtain ⟨task, -, rfl⟩ := hdelete
      exact ih.deleted _

theorem wellFormed_of_reachable {ok : Env → Store → Op → Prop} {s : Store} (h : Reachable ok s) :
    s.Distinct ∧ ∀ sc, WellFormed (s.loadScope sc) :=
  h.rows WellFormed.nil fun _ _ hw hstep => hstep.wellFormed (hw _)

/-- **Main result.** Whatever calls were accepted, in every scope the parent relation is acyclic
with depths below the bound, `depends_on` is acyclic without self-dependencies, and every parent
and dependency names a task of the scope. -/
theorem taskGraph_wellFormed (s : Store) (sc : Scope)
    (h : Reachable (fun _ _ _ => True) s) :
    Acyclic (ParentOf (s.loadScope sc)) ∧
      (∀ t ∈ s.loadScope sc, ∃ d < taskDepthMax, Depth (parentOf (s.loadScope sc)) t.id d) ∧
      Acyclic (DependsOn (s.loadScope sc)) ∧
      (∀ t ∈ s.loadScope sc, t.id ∉ t.dependsOn) ∧
      (∀ t ∈ s.loadScope sc, ∀ p, t.parentId = some p → ∃ u ∈ s.loadScope sc, u.id = p) ∧
      ∀ t ∈ s.loadScope sc, ∀ d ∈ t.dependsOn, ∃ u ∈ s.loadScope sc, u.id = d := by
  have hw := (wellFormed_of_reachable h).2 sc
  exact ⟨hw.parent_acyclic, hw.depth, hw.deps_acyclic, hw.no_self_dependency, hw.parent_mem,
    hw.dep_mem⟩

/-- The graph of a root, its subtask and a dependent root. -/
theorem taskGraph_wellFormed_plan :
    let rows := [sampleRow 1 "A" none [], sampleRow 2 "A1" (some 1) [], sampleRow 3 "B" none [1]]
    Acyclic (ParentOf rows) ∧ (∀ t ∈ rows, ∃ d < taskDepthMax, Depth (parentOf rows) t.id d) ∧
      Acyclic (DependsOn rows) ∧ (∀ t ∈ rows, t.id ∉ t.dependsOn) ∧
      (∀ t ∈ rows, ∀ p, t.parentId = some p → ∃ u ∈ rows, u.id = p) ∧
      ∀ t ∈ rows, ∀ d ∈ t.dependsOn, ∃ u ∈ rows, u.id = d := by
  intro rows
  have hrun : Op.runAll sampleEnv Store.empty
      [.create (sampleTask "A" none []), .create (sampleTask "A1" (some 1) []),
        .create (sampleTask "B" none [1])] = .ok ⟨rows, 3⟩ := by decide
  exact taskGraph_wellFormed ⟨rows, 3⟩ sampleScope (Reachable.runAll .refl hrun)

end Nanna.Tasks
