import Nanna.Tasks.WellFormed

/-!
# Open work and the next task

A task waits for its dependencies and for its children (`Waits`). Where the wait relation of a
scope is acyclic, an open task that waits for no open task exists, and `next_admitted` finds one
(`nextAdmitted_isSome`). The guards of `create` and `update` search along `depends_on` edges alone,
so they miss cycles that also run down parent links (`crossed_plans_wedge`); a call that closes no
such cycle (`ClosesNoWait`) keeps the relation acyclic, and so does everything else: a cascade only
adds shortcuts, the other calls change no edge or remove some.
-/

namespace Nanna.Tasks

open Nanna.Lib Relation

/-- Task `a` cannot finish before task `b`: it depends on it, or is its parent. -/
def Waits (rows : List Task) (a b : Int) : Prop := DependsOn rows a b ∨ ParentOf rows a b

/-! ## An acyclic wait relation has a next task -/

theorem mem_openParents_list {s : Store} {sc : Scope} {p : Int}
    (h : p ∈ openParents (list s sc false)) :
    ∃ u ∈ s.loadScope sc, isOpen u = true ∧ u.parentId = some p := by
  obtain ⟨t, ht, hp⟩ := List.mem_filterMap.mp h
  obtain ⟨u, hu, hopen, rfl⟩ := mem_openList.mp ht
  exact ⟨u, hu, hopen, hp⟩

theorem isBlocked_true {t : Task} {rows : List Task} (h : isBlocked t rows = true) :
    ∃ u ∈ rows, isOpen u = true ∧ u.id ∈ t.dependsOn := by
  obtain ⟨dep, hdep, hopen⟩ := List.any_eq_true.mp h
  split at hopen
  · rename_i u hu
    obtain ⟨hmem, hid⟩ := findTask_some hu
    exact ⟨u, hmem, hopen, hid ▸ hdep⟩
  · simp at hopen

/-- Where no task waits for itself, open work has a next task. -/
theorem nextAdmitted_isSome {s : Store} {sc : Scope} (hwait : Acyclic (Waits (s.loadScope sc)))
    {t : Task} (ht : t ∈ s.loadScope sc) (hopen : isOpen t = true) :
    (nextAdmitted s sc fun _ => true).isSome := by
  have hne : ((s.loadScope sc).filter isOpen).map (·.id) ≠ [] :=
    List.ne_nil_of_mem (List.mem_map_of_mem (List.mem_filter.mpr ⟨ht, hopen⟩))
  obtain ⟨a, ha, hsink⟩ := hwait.exists_sink _ hne
  obtain ⟨r, hr, rfl⟩ := List.mem_map.mp ha
  obtain ⟨hr, hropen⟩ := List.mem_filter.mp hr
  have hfree : ∀ u ∈ s.loadScope sc, isOpen u = true → ¬ Waits (s.loadScope sc) r.id u.id :=
    fun u hu huopen => hsink u.id (List.mem_map_of_mem (List.mem_filter.mpr ⟨hu, huopen⟩))
  have hunblocked : isBlocked r (s.loadScope sc) = false := by
    rw [Bool.eq_false_iff]
    intro hblocked
    obtain ⟨u, hu, huopen, hdep⟩ := isBlocked_true hblocked
    exact hfree u hu huopen (.inl ⟨r, hr, rfl, hdep⟩)
  have hleaf : r.id ∉ openParents (list s sc false) := by
    intro hparent
    obtain ⟨u, hu, huopen, hp⟩ := mem_openParents_list hparent
    exact hfree u hu huopen (.inr ⟨u, hu, rfl, hp⟩)
  have hcand : { r with blocked := isBlocked r (s.loadScope sc) } ∈
      candidates (list s sc false) fun _ => true :=
    List.mem_filter.mpr ⟨mem_openList.mpr ⟨_, hr, hropen, rfl⟩, by simp [hunblocked, hleaf]⟩
  have hsorted := (List.perm_insertionSort (fun a b =>
    compareCandidates (list s sc false) a b ≠ .gt) _).mem_iff.mpr hcand
  exact List.isSome_head?.mpr (List.ne_nil_of_mem hsorted)

/-! ## The condition on a call -/

/-- The edges the call writes close no cycle of waits: a new task depends on nothing that waits for
its parent, an updated task does not come to wait for itself. -/
def ClosesNoWait (env : Env) (s : Store) : Op → Prop
  | .create new => ∀ p, new.parentId = some p → ∀ d ∈ new.dependsOn,
      ¬ ReflTransGen (Waits (s.loadScope (new.scope, new.scopeId))) d p
  | .update id patch => ∀ task ∈ s.tasks, task.id = id → ∀ p, applyPatch env task patch = .ok p →
      ¬ TransGen (Waits (patchedRows env.now (s.loadScope task.scopeOf) p.1)) id id
  | _ => True

/-! ## One step -/

section Step

variable {rows : List Task}

/-- A new task closes a cycle only from one of its dependencies to its parent. -/
theorem waits_insert {new : NewTask} {id : Int} {now : String} (hw : WellFormed rows)
    (hwait : Acyclic (Waits rows)) (hcheck : CreateChecked rows new) (hfresh : ∀ t ∈ rows, t.id < id)
    (hopen : ∀ p, new.parentId = some p → ∀ d ∈ new.dependsOn, ¬ ReflTransGen (Waits rows) d p) :
    Acyclic (Waits (rows ++ [new.toRow id now])) := by
  have hnot : ∀ {x : Int}, (∃ u ∈ rows, u.id = x) → x ≠ id := by
    rintro x ⟨u, hu, rfl⟩
    exact (hfresh u hu).ne
  -- away from the new task the edges are the old ones
  have hold : ∀ a b, a ≠ id → b ≠ id → Waits (rows ++ [new.toRow id now]) a b → Waits rows a b := by
    rintro a b ha hb (⟨t, ht, hta, hdep⟩ | ⟨t, ht, htb, hp⟩)
    · rcases List.mem_append.mp ht with ht | ht
      · exact .inl ⟨t, ht, hta, hdep⟩
      · rw [List.mem_singleton.mp ht] at hta
        exact absurd hta.symm ha
    · rcases List.mem_append.mp ht with ht | ht
      · exact .inr ⟨t, ht, htb, hp⟩
      · rw [List.mem_singleton.mp ht] at htb
        exact absurd htb.symm hb
  have hout : ∀ y, Waits (rows ++ [new.toRow id now]) id y → y ∈ new.dependsOn := by
    rintro y (⟨t, ht, hta, hdep⟩ | ⟨t, ht, -, hp⟩)
    · rcases List.mem_append.mp ht with ht | ht
      · exact absurd hta (hnot ⟨t, ht, rfl⟩)
      · rw [List.mem_singleton.mp ht] at hdep
        exact hdep
    · rcases List.mem_append.mp ht with ht | ht
      · exact absurd rfl (hnot (hw.parent_mem t ht id hp))
      · rw [List.mem_singleton.mp ht] at hp
        obtain ⟨u, hu, hid, -⟩ := hcheck.parent id hp
        exact absurd hid (hnot ⟨u, hu, rfl⟩)
  have hin : ∀ z, Waits (rows ++ [new.toRow id now]) z id → new.parentId = some z := by
    rintro z (⟨t, ht, -, hdep⟩ | ⟨t, ht, htb, hp⟩)
    · rcases List.mem_append.mp ht with ht | ht
      · exact absurd rfl (hnot (hw.dep_mem t ht id hdep))
      · rw [List.mem_singleton.mp ht] at hdep
        exact absurd rfl (hnot (hcheck.deps id hdep))
    · rcases List.mem_append.mp ht with ht | ht
      · exact absurd htb (hnot ⟨t, ht, rfl⟩)
      · rw [List.mem_singleton.mp ht] at hp
        exact hp
  refine hwait.of_through hold fun hcycle => ?_
  obtain ⟨y, z, hy, hyz, hz⟩ := exists_first_return hcycle
  refine hopen z (hin z hz) y (hout y hy) ?_
  exact hyz.lift (fun x => x) fun a b ⟨hab, ha, hb⟩ => hold a b ha hb hab

/-- A patch moves only the edges at its task. -/
theorem waits_patched {now : String} {task : Task} (hwait : Acyclic (Waits rows))
    (hopen : ¬ TransGen (Waits (patchedRows now rows task)) task.id task.id) :
    Acyclic (Waits (patchedRows now rows task)) := by
  refine hwait.of_through (fun a b ha hb hab => ?_) hopen
  have hkeep : ∀ t' ∈ patchedRows now rows task, t'.id ≠ task.id → t' ∈ rows := by
    intro t' ht' hne
    obtain ⟨t, ht, rfl⟩ := List.mem_map.mp ht'
    rw [patchedRow_id] at hne
    rw [if_neg hne]
    exact ht
  rcases hab with ⟨t, ht, rfl, hdep⟩ | ⟨t, ht, rfl, hp⟩
  · exact .inl ⟨t, hkeep t ht ha, rfl, hdep⟩
  · exact .inr ⟨t, hkeep t ht hb, rfl, hp⟩

/-- A child moved up by a cascade was below its new parent before. -/
theorem waits_cascaded {now : String} {task : Task} (hw : WellFormed rows)
    (htask : parentOf rows task.id = task.parentId) (hwait : Acyclic (Waits rows)) :
    Acyclic (Waits (cascadedRows now rows task)) := by
  have hparent : ∀ {a b : Int}, parentOf rows b = some a → TransGen (Waits rows) a b :=
    fun h => .single (.inr ((parentOf_iff hw.nodup).mpr h))
  have hup : ∀ {k : Nat} {x y : Int}, Up (parentOf rows) k x y → ReflTransGen (Waits rows) y x := by
    intro k x y h
    induction h with
    | here => exact .refl
    | step hp _ ih => exact ih.trans (hparent hp).to_reflTransGen
  refine hwait.of_transGen fun a b hab => ?_
  rcases hab with ⟨t', ht', hta, hdep⟩ | ⟨t', ht', htb, hp⟩
  · obtain ⟨t, ht, rfl⟩ := List.mem_map.mp ht'
    rw [(cascadedRow now hw.nodup task ht).dependsOn] at hdep
    rw [rewriteRow_id] at hta
    exact .single (.inl ⟨t, ht, hta, hdep⟩)
  · obtain ⟨t, ht, rfl⟩ := List.mem_map.mp ht'
    rw [rewriteRow_id] at htb
    cases cascadedRow now hw.nodup task ht with
    | kept hsame => exact .single (.inr ⟨t, ht, htb, hsame ▸ hp⟩)
    | cancelled _ hsame => exact .single (.inr ⟨t, ht, htb, hsame.symm.trans hp⟩)
    | reparented hcur hchain _ hmoved =>
      have htop : TransGen (Waits rows) a task.id := hparent (htask.trans (hmoved.symm.trans hp))
      have hbelow := hup hchain
      exact (htop.trans_left hbelow).tail (.inr ⟨t, ht, htb, hcur⟩)

theorem waits_deleted {now : String} {id : Int} (hw : WellFormed rows)
    (hwait : Acyclic (Waits rows)) : Acyclic (Waits (deletedRows now rows id)) := by
  refine hwait.mono ?_
  rintro a b (⟨t', ht', hta, hdep⟩ | ⟨t', ht', htb, hp⟩)
  · obtain ⟨t, ht, hkeep, rfl⟩ := mem_deletedRows.mp ht'
    rw [rewriteRow_id] at hta
    exact .inl ⟨t, ht, hta, (((deletedRow now hw.nodup _ ht hkeep).2.2 b).mp hdep).1⟩
  · obtain ⟨t, ht, hkeep, rfl⟩ := mem_deletedRows.mp ht'
    rw [rewriteRow_id] at htb
    rw [(deletedRow now hw.nodup _ ht hkeep).1] at hp
    exact .inr ⟨t, ht, htb, hp⟩

/-- A map that keeps every row's place keeps the waits. -/
theorem waits_map {f : Task → Task} (hid : ∀ t, (f t).id = t.id)
    (hparent : ∀ t, (f t).parentId = t.parentId) (hdeps : ∀ t, (f t).dependsOn = t.dependsOn)
    (hwait : Acyclic (Waits rows)) : Acyclic (Waits (rows.map f)) := by
  refine hwait.mono ?_
  rintro a b (⟨t', ht', hta, hdep⟩ | ⟨t', ht', htb, hp⟩)
  · obtain ⟨t, ht, rfl⟩ := List.mem_map.mp ht'
    exact .inl ⟨t, ht, (hid t).symm.trans hta, hdeps t ▸ hdep⟩
  · obtain ⟨t, ht, rfl⟩ := List.mem_map.mp ht'
    exact .inr ⟨t, ht, (hid t).symm.trans htb, (hparent t).symm.trans hp⟩

end Step

/-- A graph without wedges: well formed, and nobody waits for itself. -/
structure WedgeFree (rows : List Task) : Prop where
  wellFormed : WellFormed rows
  acyclic : Acyclic (Waits rows)

theorem WedgeFree.nil : WedgeFree [] := by
  refine ⟨.nil, fun a ha => ?_⟩
  obtain ⟨b, ⟨t, ht, -⟩ | ⟨t, ht, -⟩, -⟩ := TransGen.head'_iff.mp ha <;> simp at ht

/-- A step whose call closes no wait keeps the graph free of wedges. -/
theorem RowsStep.wedgeFree {env : Env} {s : Store} {sc : Scope} {rows' : List Task} {op : Op}
    (hstep : RowsStep env sc (s.loadScope sc) op rows') (hok : ClosesNoWait env s op)
    (h : WedgeFree (s.loadScope sc)) : WedgeFree rows' := by
  refine ⟨hstep.wellFormed h.wellFormed, ?_⟩
  cases hstep with
  | same => exact h.acyclic
  | @create new new' id hchecked hsc hcheck hfresh =>
    obtain ⟨⟨⟩, -, hchecked⟩ := bind_eq_ok.mp hchecked
    obtain ⟨acceptance, -, hnew⟩ := bind_eq_ok.mp hchecked
    cases hnew
    refine waits_insert h.wellFormed h.acyclic (checkCreate_ok hcheck) hfresh fun p hp d hd => ?_
    rw [← hsc]
    exact hok p hp d hd
  | @update task patch p hmem hpatch hcheck =>
    have hspec := applyPatch_spec hpatch
    obtain ⟨htask, hscope⟩ := mem_loadScope.mp hmem
    have hcycle := hok task htask rfl p hpatch
    rw [hscope, ← hspec.id] at hcycle
    have hacyclic := waits_patched h.acyclic hcycle
    split_ifs
    · have hfind : (findTask (s.loadScope sc) p.1.id).isSome :=
        findTask_isSome.mpr ⟨task, hmem, hspec.id.symm⟩
      refine waits_cascaded (h.wellFormed.updated hmem hpatch hcheck) ?_ hacyclic
      rw [parentOf_patched _ hfind, if_pos rfl]
    · exact hacyclic
  | complete =>
    refine waits_map (fun t => ?_) (fun t => ?_) (fun t => ?_) h.acyclic <;> split_ifs <;> rfl
  | reopen =>
    refine waits_map (fun t => ?_) (fun t => ?_) (fun t => ?_) h.acyclic <;> split_ifs <;> rfl
  | delete => exact waits_deleted h.wellFormed h.acyclic
  | clear hrun =>
    have hboth : WellFormed rows' ∧ Acyclic (Waits rows') := by
      induction hrun with
      | refl => exact ⟨h.wellFormed, h.acyclic⟩
      | tail _ hdelete ih =>
        obtain ⟨task, -, rfl⟩ := hdelete
        exact ⟨ih.1.deleted _, waits_deleted ih.1 ih.2⟩
    exact hboth.2

/-! ## Runs -/

/-- **Main result.** In every run whose calls close no cycle of waits, a scope with open work has a
next task. -/
theorem next_of_open_work (s : Store) (sc : Scope) (h : Reachable ClosesNoWait s)
    (hopen : ∃ t ∈ s.loadScope sc, isOpen t = true) :
    ∃ t, nextAdmitted s sc (fun _ => true) = some t := by
  obtain ⟨-, hfree⟩ := h.rows WedgeFree.nil fun hok _ hw hstep => hstep.wedgeFree hok (hw _)
  obtain ⟨t, ht, hopen⟩ := hopen
  exact Option.isSome_iff_exists.mp (nextAdmitted_isSome (hfree sc).acyclic ht hopen)

/-- A plan with a subtask and a dependency between roots. -/
theorem next_of_open_work_plan : ∃ t, nextAdmitted
    ⟨[sampleRow 1 "A" none [], sampleRow 2 "A1" (some 1) [], sampleRow 3 "B" none [1]], 3⟩
    sampleScope (fun _ => true) = some t := by
  refine next_of_open_work _ _ ?_ ⟨sampleRow 1 "A" none [], by decide, rfl⟩
  have h0 : Reachable ClosesNoWait Store.empty := .refl
  have h1 : Reachable ClosesNoWait ⟨[sampleRow 1 "A" none []], 1⟩ :=
    h0.call sampleEnv (.create (sampleTask "A" none [])) nofun (by decide)
  have h2 : Reachable ClosesNoWait ⟨[sampleRow 1 "A" none [], sampleRow 2 "A1" (some 1) []], 2⟩ :=
    h1.call sampleEnv (.create (sampleTask "A1" (some 1) []))
      (fun _ _ _ hd => absurd hd List.not_mem_nil) (by decide)
  exact h2.call sampleEnv (.create (sampleTask "B" none [1])) nofun (by decide)

/-- Two plans whose subtasks depend on each other's roots are accepted and leave nothing to do. -/
theorem crossed_plans_wedge : ∃ s sc, Reachable (fun _ _ _ => True) s ∧
    (∃ t ∈ s.loadScope sc, isOpen t = true) ∧ nextAdmitted s sc (fun _ => true) = none := by
  have hrun : Op.runAll sampleEnv Store.empty
      [.create (sampleTask "A" none []), .create (sampleTask "B" none []),
        .create (sampleTask "A1" (some 1) [2]), .create (sampleTask "B1" (some 2) [1])] =
      .ok ⟨[sampleRow 1 "A" none [], sampleRow 2 "B" none [], sampleRow 3 "A1" (some 1) [2],
        sampleRow 4 "B1" (some 2) [1]], 4⟩ := by decide
  refine ⟨_, sampleScope, Reachable.runAll .refl hrun, ⟨sampleRow 1 "A" none [], ?_, rfl⟩, ?_⟩
  · decide
  · decide

end Nanna.Tasks
