import Nanna.Tasks.CascadeExact

/-!
# The ancestors a completion closes, exactly

`complete_exact`: completing a task that is not done marks it and the maximal chain of its consecutive
ancestors that are open, carry no check, and have every child closed afterwards; nothing else changes.
With an open child the call fails and leaves the rows as they were. A task that is done already closes
no ancestor (`done_again_closes_nothing`).

Proof. The loop is a chain of the predicate `AutoChain` (its fuel exceeds every depth). What it holds
closed at the stop is what is closed after the call, so the ancestor it stops at fails one of the three
conditions; the ids it adds are below the parent it looks at, so none of them is that parent.
-/

namespace Nanna.Tasks

open Nanna.Lib Relation

/-! ## The call -/

/-- `complete` with the rows it leaves, also where it fails: nothing is written before the check. -/
def completeCall (env : Env) (s : Store) (id : Int) : Store × Result CompleteOutcome :=
  match s.getRaw id with
  | .error e => (s, .error e)
  | .ok task =>
    if task.status = .done then (s, .ok ⟨task, [], true⟩)
    else
      match completeMark env.now s task with
      | .error e => (s, .error e)
      | .ok s' =>
        let auto := autoComplete (s.loadScope task.scopeOf) task
        let s' := s'.markAllDone env.now auto
        (s', (s'.getRaw id).map fun task => ⟨task, auto, false⟩)

theorem completeCall_ok {env : Env} {s s' : Store} {id : Int} {out : CompleteOutcome} :
    completeCall env s id = (s', .ok out) ↔ complete env s id = .ok (s', out) := by
  unfold completeCall complete
  cases hget : s.getRaw id with
  | error e => simp [bind, Except.bind]
  | ok task =>
    by_cases hdone : task.status = .done
    · simp [bind, Except.bind, hdone]
    · cases hmark : completeMark env.now s task with
      | error e => simp [bind, Except.bind, hdone, hmark]
      | ok s₁ =>
        cases hlast : (s₁.markAllDone env.now (autoComplete (s.loadScope task.scopeOf) task)).getRaw id <;>
          simp [bind, Except.bind, Except.map, hdone, hmark, hlast]

/-! ## The loop -/

/-- The ids closed from the parent `current` on, with those of `closed` closed before. -/
inductive AutoChain (rows : List Task) : List Int → Option Int → List Int → Prop
  | root {closed : List Int} : AutoChain rows closed none []
  | stop {closed : List Int} {p : Int} {parent : Task} : findTask rows p = some parent →
      (p ∈ closed ∨ parent.acceptance.isSome ∨
        ∃ child ∈ rows, child.parentId = some p ∧ child.id ∉ closed) →
      AutoChain rows closed (some p) []
  | close {closed auto : List Int} {p : Int} {parent : Task} : findTask rows p = some parent →
      p ∉ closed → parent.acceptance = none →
      (∀ child ∈ rows, child.parentId = some p → child.id ∈ closed) →
      AutoChain rows (p :: closed) parent.parentId auto → AutoChain rows closed (some p) (p :: auto)

/-- The ids of the tasks that are closed already. -/
def closedIds (rows : List Task) : List Int := (rows.filter (·.status.isClosed)).map (·.id)

/-- An open task without a check of its own, all of whose children are closed in `rows'`. -/
def Completable (rows rows' : List Task) (x : Int) : Prop :=
  ∃ t ∈ rows, t.id = x ∧ isOpen t = true ∧ t.acceptance = none ∧
    ∀ child ∈ rows', child.parentId = some x → isOpen child = false

section Chain

variable {rows : List Task} {closed auto : List Int} {p x y : Int} {current : Option Int} {fuel d : Nat}

/-- With fuel for every ancestor the loop is a chain. -/
theorem autoCompleteFrom_chain (hw : WellFormed rows) :
    ∀ {fuel : Nat} {closed : List Int} {current : Option Int},
      (∀ p, current = some p → ∃ t ∈ rows, t.id = p) →
      (∀ p, current = some p → ∃ d < fuel, Depth (parentOf rows) p d) →
      AutoChain rows closed current (autoCompleteFrom rows fuel closed current)
  | fuel, _, none, _, _ => by
    cases fuel <;> exact .root
  | 0, _, some p, _, hdepth => by
    obtain ⟨d, hd, -⟩ := hdepth p rfl
    exact absurd hd (Nat.not_lt_zero d)
  | fuel + 1, closed, some p, hmem, hdepth => by
    obtain ⟨t, ht, rfl⟩ := hmem p rfl
    obtain ⟨d, hd, hdepth⟩ := hdepth t.id rfl
    have hfind : findTask rows t.id = some t := findTask_of_mem hw.nodup ht
    unfold autoCompleteFrom
    rw [hfind]
    dsimp only
    split_ifs with hstop hall
    · exact .stop hfind (hstop.imp_right .inl)
    · obtain ⟨hopen, hnone⟩ := not_or.mp hstop
      refine .close hfind hopen (by simpa using hnone) (fun child hchild hparent => ?_)
        (autoCompleteFrom_chain hw (fun p hp => hw.parent_mem t ht p hp) fun p hp => ?_)
      · have := List.all_eq_true.mp hall child (List.mem_filter.mpr ⟨hchild, by simpa using hparent⟩)
        simpa using this
      · cases hdepth with
        | root hroot =>
          rw [parentOf_of_mem hw.nodup ht, hp] at hroot
          cases hroot
        | @child _ p' d hparent hdepth =>
          rw [parentOf_of_mem hw.nodup ht, hp] at hparent
          obtain rfl := Option.some.inj hparent
          exact ⟨d, by omega, hdepth⟩
    · refine .stop hfind (.inr (.inr ?_))
      simpa using hall

theorem AutoChain.up (h : AutoChain rows closed current auto) (hx : x ∈ auto) :
    ∃ p, current = some p ∧ ∃ k, Up (parentOf rows) k p x := by
  induction h with
  | root => exact absurd hx List.not_mem_nil
  | stop => exact absurd hx List.not_mem_nil
  | @close closed auto p parent hfind _ _ _ _ ih =>
    refine ⟨p, rfl, ?_⟩
    rcases List.mem_cons.mp hx with rfl | hx
    · exact ⟨0, .here _⟩
    · obtain ⟨q, hq, k, hk⟩ := ih hx
      exact ⟨k + 1, .step (by rw [parentOf, hfind, Option.bind_some, hq]) hk⟩

/-- The chain has no gaps. -/
theorem AutoChain.between (hw : WellFormed rows) (h : AutoChain rows closed current auto) (hx : x ∈ auto)
    {j i : Nat} (hp : current = some p) (hpy : Up (parentOf rows) j p y) (hyx : Up (parentOf rows) i y x) :
    y ∈ auto := by
  induction h generalizing p j with
  | root => exact absurd hx List.not_mem_nil
  | stop => exact absurd hx List.not_mem_nil
  | @close closed auto p' parent hfind _ _ _ hrest ih =>
    obtain rfl := Option.some.inj hp
    cases hpy with
    | here => exact List.mem_cons_self
    | @step k _ q _ hup hqy =>
      rcases List.mem_cons.mp hx with rfl | hx
      · -- a cycle through `x`
        obtain ⟨hmem, hid⟩ := findTask_some hfind
        refine absurd ?_ (Below.not_self hw hmem)
        rw [hid]
        exact ⟨k + i, Nat.add_right_comm k 1 i ▸ (Up.step hup hqy).trans hyx⟩
      · rw [parentOf, hfind, Option.bind_some] at hup
        exact List.mem_cons_of_mem _ (ih hx hup hqy)

/-- What the chain closes was open, carries no check, and has all its children closed with it. -/
theorem AutoChain.mem (h : AutoChain rows closed current auto) (hx : x ∈ auto) :
    ∃ t, findTask rows x = some t ∧ x ∉ closed ∧ t.acceptance = none ∧
      ∀ child ∈ rows, child.parentId = some x → child.id ∈ closed ∨ child.id ∈ auto := by
  induction h with
  | root => exact absurd hx List.not_mem_nil
  | stop => exact absurd hx List.not_mem_nil
  | @close closed auto p parent hfind hopen hnone hchildren _ ih =>
    rcases List.mem_cons.mp hx with rfl | hx
    · exact ⟨parent, hfind, hopen, hnone, fun child hchild hparent => .inl (hchildren child hchild hparent)⟩
    · obtain ⟨t, ht, hclosed, hacceptance, hall⟩ := ih hx
      refine ⟨t, ht, fun hin => hclosed (List.mem_cons_of_mem _ hin), hacceptance,
        fun child hchild hparent => ?_⟩
      rcases hall child hchild hparent with hin | hin
      · rcases List.mem_cons.mp hin with heq | hin
        · exact .inr (heq ▸ List.mem_cons_self)
        · exact .inl hin
      · exact .inr (List.mem_cons_of_mem _ hin)

/-- The chain reaches as far as the conditions hold, read off what is closed in the end. -/
theorem AutoChain.reaches (hw : WellFormed rows) (before final : List Int)
    (h : AutoChain rows closed current auto) (hp : current = some p)
    (hclosed : ∀ y ∈ closed, y ∈ before ∨ Below rows y p)
    (hfinal : ∀ y ∈ final, y ∈ closed ∨ y ∈ auto) {k : Nat} (hx : Up (parentOf rows) k p x)
    (hgood : ∀ y, (∃ j, Up (parentOf rows) j p y) → (∃ i, Up (parentOf rows) i y x) →
      ∃ t, findTask rows y = some t ∧ y ∉ before ∧ t.acceptance = none ∧
        ∀ child ∈ rows, child.parentId = some y → child.id ∈ final) :
    x ∈ auto := by
  induction h generalizing p k with
  | root => cases hp
  | @stop closed p' parent hfind hstop =>
    obtain rfl := Option.some.inj hp
    obtain ⟨t, ht, hbefore, hacceptance, hchildren⟩ := hgood p' ⟨0, .here _⟩ ⟨k, hx⟩
    obtain rfl : parent = t := Option.some.inj (hfind.symm.trans ht)
    rcases hstop with hin | hsome | ⟨child, hchild, hparent, hout⟩
    · rcases hclosed p' hin with hin | hbelow
      · exact absurd hin hbefore
      · obtain ⟨hmem, hid⟩ := findTask_some hfind
        exact absurd (hid.symm ▸ hbelow) (Below.not_self hw hmem)
    · rw [hacceptance] at hsome
      cases hsome
    · rcases hfinal child.id (hchildren child hchild hparent) with hin | hin
      · exact absurd hin hout
      · exact absurd hin List.not_mem_nil
  | @close closed auto p' parent hfind _ _ _ _ ih =>
    obtain rfl := Option.some.inj hp
    cases hx with
    | here => exact List.mem_cons_self
    | @step k _ q _ hup hqx =>
      have hparent : parent.parentId = some q := by rwa [parentOf, hfind, Option.bind_some] at hup
      refine List.mem_cons_of_mem _ (ih hparent (fun y hy => ?_) (fun y hy => ?_) hqx fun y hy => ?_)
      · have hstep : Below rows p' q := .of_up hup (.here q)
        rcases List.mem_cons.mp hy with rfl | hy
        · exact .inr hstep
        · exact (hclosed y hy).imp_right fun hbelow => hbelow.trans hstep
      · rcases hfinal y hy with hin | hin
        · exact .inl (List.mem_cons_of_mem _ hin)
        · rcases List.mem_cons.mp hin with rfl | hin
          · exact .inl List.mem_cons_self
          · exact .inr hin
      · obtain ⟨j, hj⟩ := hy
        exact hgood y ⟨j + 1, .step hup hj⟩

end Chain

/-! ## What is left of the rows -/

/-- What a completion of `task` that closes the ancestors `auto` with it makes of the rows. -/
structure CompleteExact (now : String) (rows : List Task) (task : Task) (auto : List Int)
    (rows' : List Task) : Prop where
  marked : rows' = rows.map fun row => if row.id ∈ task.id :: auto then markedDone now row else row
  chain : ∀ x, x ∈ auto ↔ Below rows task.id x ∧
    ∀ y, Below rows task.id y → y = x ∨ Below rows y x → Completable rows rows' y
  no_open_child : ∀ t ∈ rows, t.id ∈ auto →
    t.acceptance = none ∧ ∀ child ∈ rows', child.parentId = some t.id → isOpen child = false

section Rows

variable {rows rows' : List Task} {task t : Task} {now : String} {auto : List Int} {x : Int}

/-- What is not above the task stays as it is. -/
theorem CompleteExact.kept (h : CompleteExact now rows task auto rows') (ht : t ∈ rows) (hne : t.id ≠ task.id)
    (habove : ¬Below rows task.id t.id) : t ∈ rows' := by
  rw [h.marked]
  refine List.mem_map.mpr ⟨t, ht, if_neg fun hmarked => ?_⟩
  rcases List.mem_cons.mp hmarked with hid | hauto
  · exact hne hid
  · exact habove ((h.chain t.id).mp hauto).1

/-- The parents are what they were. -/
theorem CompleteExact.parentOf_eq (h : CompleteExact now rows task auto rows') : parentOf rows' = parentOf rows := by
  funext x
  rw [h.marked, parentOf_map (fun row => by split <;> rfl), parentOf]
  apply congrArg
  funext row
  split <;> rfl

theorem mem_closedIds (hnd : (rows.map (·.id)).Nodup) (ht : t ∈ rows) :
    t.id ∈ closedIds rows ↔ isOpen t = false := by
  constructor
  · intro h
    obtain ⟨u, hu, hid⟩ := List.mem_map.mp h
    obtain ⟨hu, hclosed⟩ := List.mem_filter.mp hu
    obtain rfl : u = t := List.inj_on_of_nodup_map hnd hu ht hid
    simp [isOpen, hclosed]
  · intro h
    exact List.mem_map_of_mem (List.mem_filter.mpr ⟨ht, by simpa [isOpen] using h⟩)

/-- The children that are closed once the ids `marked` are. -/
theorem children_marked (hnd : (rows.map (·.id)).Nodup) (marked : List Int) (x : Int) :
    (∀ child ∈ rows.map fun row => if row.id ∈ marked then markedDone now row else row,
        child.parentId = some x → isOpen child = false) ↔
      ∀ child ∈ rows, child.parentId = some x → child.id ∈ marked ∨ child.id ∈ closedIds rows := by
  rw [List.forall_mem_map]
  refine forall₂_congr fun child hchild => ?_
  by_cases hmarked : child.id ∈ marked
  · rw [if_pos hmarked]
    exact ⟨fun _ _ => .inl hmarked, fun _ _ => rfl⟩
  · rw [if_neg hmarked, mem_closedIds hnd hchild]
    exact ⟨fun h hparent => .inr (h hparent), fun h hparent => (h hparent).resolve_left hmarked⟩

theorem completable_iff (hnd : (rows.map (·.id)).Nodup) (marked : List Int) :
    Completable rows (rows.map fun row => if row.id ∈ marked then markedDone now row else row) x ↔
      ∃ t, findTask rows x = some t ∧ x ∉ closedIds rows ∧ t.acceptance = none ∧
        ∀ child ∈ rows, child.parentId = some x → child.id ∈ marked ∨ child.id ∈ closedIds rows := by
  simp only [Completable, children_marked hnd]
  constructor
  · rintro ⟨t, ht, rfl, hopen, hrest⟩
    exact ⟨t, findTask_of_mem hnd ht, by simp [mem_closedIds hnd ht, hopen], hrest⟩
  · rintro ⟨t, hfind, hopen, hrest⟩
    obtain ⟨ht, rfl⟩ := findTask_some hfind
    exact ⟨t, ht, rfl, by simpa [mem_closedIds hnd ht] using hopen, hrest⟩

/-- The loop of a completion is a chain from the parent on. -/
theorem autoComplete_chain (hw : WellFormed rows) (htask : task ∈ rows) :
    AutoChain rows (task.id :: closedIds rows) task.parentId (autoComplete rows task) := by
  refine autoCompleteFrom_chain hw (fun p hp => hw.parent_mem task htask p hp) fun p hp => ?_
  obtain ⟨u, hu, rfl⟩ := hw.parent_mem task htask p hp
  exact hw.depth u hu

theorem completable_of_autoComplete (hw : WellFormed rows) (htask : task ∈ rows) (hx : x ∈ autoComplete rows task) :
    Completable rows (rows.map fun row =>
      if row.id ∈ task.id :: autoComplete rows task then markedDone now row else row) x := by
  obtain ⟨t, hfind, hclosed, hnone, hchildren⟩ := (autoComplete_chain hw htask).mem hx
  rw [completable_iff hw.nodup]
  refine ⟨t, hfind, fun hin => hclosed (List.mem_cons_of_mem _ hin), hnone, fun child hchild hparent => ?_⟩
  rcases hchildren child hchild hparent with hin | hin
  · rcases List.mem_cons.mp hin with heq | hin
    · exact .inl (heq ▸ List.mem_cons_self)
    · exact .inr hin
  · exact .inl (List.mem_cons_of_mem _ hin)

/-- What is completable up to an ancestor has been closed with the task. -/
theorem mem_autoComplete_of_completable (hw : WellFormed rows) (htask : task ∈ rows) (hbelow : Below rows task.id x)
    (hgood : ∀ y, Below rows task.id y → y = x ∨ Below rows y x → Completable rows (rows.map fun row =>
      if row.id ∈ task.id :: autoComplete rows task then markedDone now row else row) y) :
    x ∈ autoComplete rows task := by
  have hup := parentOf_of_mem hw.nodup htask
  obtain ⟨k, hk⟩ := hbelow
  cases hk with
  | @step _ _ p _ hparent hrest =>
    refine (autoComplete_chain hw htask).reaches hw (closedIds rows)
      (closedIds rows ++ task.id :: autoComplete rows task) (hup.symm.trans hparent) (fun y hy => ?_) (fun y hy => ?_)
      hrest fun y ⟨j, hj⟩ hyx => ?_
    · rcases List.mem_cons.mp hy with rfl | hy
      · exact .inr (.of_up hparent (.here p))
      · exact .inl hy
    · rcases List.mem_append.mp hy with hy | hy
      · exact .inl (List.mem_cons_of_mem _ hy)
      · rcases List.mem_cons.mp hy with rfl | hy
        · exact .inl List.mem_cons_self
        · exact .inr hy
    · have hcomplete := hgood y (.of_up hparent hj) (exists_up_iff.mp hyx)
      obtain ⟨t, hfind, hopen, hnone, hchildren⟩ := (completable_iff hw.nodup _).mp hcomplete
      refine ⟨t, hfind, hopen, hnone, fun child hchild hchildParent => ?_⟩
      rw [List.mem_append, or_comm]
      exact hchildren child hchild hchildParent

theorem completeExact_autoComplete (hw : WellFormed rows) (htask : task ∈ rows) :
    CompleteExact now rows task (autoComplete rows task) (rows.map fun row =>
      if row.id ∈ task.id :: autoComplete rows task then markedDone now row else row) := by
  have hup := parentOf_of_mem hw.nodup htask
  refine ⟨rfl, fun x => ⟨fun hx => ?_, fun ⟨hbelow, hgood⟩ => ?_⟩, fun t ht hauto => ?_⟩
  · obtain ⟨p, hp, k, hk⟩ := (autoComplete_chain hw htask).up hx
    refine ⟨.of_up (hup.trans hp) hk, fun y ⟨j, hj⟩ hyx => completable_of_autoComplete hw htask ?_⟩
    obtain ⟨i, hi⟩ := exists_up_iff.mpr hyx
    cases hj with
    | step hparent hrest =>
      exact (autoComplete_chain hw htask).between hw hx (hup.symm.trans hparent) hrest hi
  · exact mem_autoComplete_of_completable hw htask hbelow hgood
  · obtain ⟨u, hu, hid, -, hrest⟩ := completable_of_autoComplete hw htask hauto
    obtain rfl : u = t := List.inj_on_of_nodup_map hw.nodup hu ht hid
    exact hrest

end Rows

/-! ## Calls that succeed -/

section Succeeds

variable {env : Env} {s s' : Store} {task : Task} {id : Int} {out : CompleteOutcome}

/-- The task returned is read back at the end. -/
theorem complete_reads (h : complete env s id = .ok (s', out)) : s'.getRaw id = .ok out.task := by
  obtain ⟨task, hget, h⟩ := bind_eq_ok.mp h
  split_ifs at h
  · cases h
    exact hget
  · obtain ⟨s₁, -, h⟩ := bind_eq_ok.mp h
    obtain ⟨done, hread, h⟩ := bind_eq_ok.mp h
    cases h
    exact hread

/-- Without an open child the call succeeds. -/
theorem complete_isOk (env : Env) (hs : s.Distinct) (hmem : task ∈ s.tasks) (hopen : task.status ≠ .done)
    (hchildren : openChildren (s.loadScope task.scopeOf) task.id = []) :
    ∃ s' out, complete env s task.id = .ok (s', out) := by
  have hmark : completeMark env.now s task = .ok (s.markDone env.now task.id) :=
    completeMark_eq_ok.mpr ⟨hchildren, rfl⟩
  let s' := (s.markDone env.now task.id).markAllDone env.now (autoComplete (s.loadScope task.scopeOf) task)
  have hids : s'.tasks.map (·.id) = s.tasks.map (·.id) :=
    markAllDone_ids (task.id :: autoComplete (s.loadScope task.scopeOf) task) s
  have hkept : task.id ∈ s'.tasks.map (·.id) := hids ▸ List.mem_map_of_mem hmem
  obtain ⟨done, hread⟩ := getRaw_isOk.mpr hkept
  refine ⟨s', ⟨done, autoComplete (s.loadScope task.scopeOf) task, false⟩, ?_⟩
  refine bind_eq_ok.mpr ⟨task, getRaw_of_mem hs hmem, ?_⟩
  rw [if_neg hopen]
  exact bind_eq_ok.mpr ⟨_, hmark, bind_eq_ok.mpr ⟨done, hread, rfl⟩⟩

/-- What a successful call has made of the rows. -/
theorem completeExact_of_ok (hs : s.Distinct) (hmem : task ∈ s.tasks) (hw : WellFormed (s.loadScope task.scopeOf))
    (hopen : task.status ≠ .done) (h : complete env s task.id = .ok (s', out)) :
    s'.Distinct ∧ openChildren (s.loadScope task.scopeOf) task.id = [] ∧
      CompleteExact env.now (s.loadScope task.scopeOf) task out.autoCompleted (s'.loadScope task.scopeOf) ∧
      ∀ sc, sc ≠ task.scopeOf → s'.loadScope sc = s.loadScope sc := by
  obtain ⟨hs', u, hu, hid, -, -, hrows⟩ := complete_loadScope hs h
  obtain rfl : u = task := hs.unique hu hmem hid
  obtain ⟨hchildren, hauto, hload⟩ := hrows hopen
  refine ⟨hs', hchildren, ?_, fun sc hsc => ?_⟩
  · rw [hauto, hload, if_pos rfl]
    exact completeExact_autoComplete hw (mem_loadScope.mpr ⟨hmem, rfl⟩)
  · rw [hload, if_neg hsc]

end Succeeds

/-- **Main result.** A task that is done stays as it is, and an open child fails the call before any
write. Otherwise the call marks the task, and with it exactly the maximal chain of its consecutive
ancestors that are open, carry no check and have every child closed afterwards. -/
theorem complete_exact (env : Env) (s : Store) (task : Task) (hs : s.Distinct) (hmem : task ∈ s.tasks)
    (hw : WellFormed (s.loadScope task.scopeOf)) :
    (task.status = .done → completeCall env s task.id = (s, .ok ⟨task, [], true⟩)) ∧
      (task.status ≠ .done → openChildren (s.loadScope task.scopeOf) task.id ≠ [] →
        ∃ message, completeCall env s task.id = (s, .error (.invalid message))) ∧
      (task.status ≠ .done → openChildren (s.loadScope task.scopeOf) task.id = [] →
        ∃ s' out, completeCall env s task.id = (s', .ok out) ∧
          out.task = markedDone env.now task ∧
          CompleteExact env.now (s.loadScope task.scopeOf) task out.autoCompleted
            (s'.loadScope task.scopeOf) ∧
          ∀ sc, sc ≠ task.scopeOf → s'.loadScope sc = s.loadScope sc) := by
  have hget : s.getRaw task.id = .ok task := getRaw_of_mem hs hmem
  refine ⟨fun hdone => ?_, fun hopen hchildren => ?_, fun hopen hchildren => ?_⟩
  · rw [completeCall, hget]
    exact if_pos hdone
  · rw [completeCall, hget]
    dsimp only
    rw [if_neg hopen, completeMark, if_pos hchildren]
    exact ⟨_, rfl⟩
  · obtain ⟨s', out, hcall⟩ := complete_isOk env hs hmem hopen hchildren
    obtain ⟨hs', -, hexact, hscopes⟩ := completeExact_of_ok hs hmem hw hopen hcall
    refine ⟨s', out, completeCall_ok.mpr hcall, ?_, hexact, hscopes⟩
    have hdone : markedDone env.now task ∈ s'.tasks := by
      refine (mem_loadScope.mp (?_ : _ ∈ s'.loadScope task.scopeOf)).1
      rw [hexact.marked]
      exact List.mem_map.mpr ⟨task, mem_loadScope.mpr ⟨hmem, rfl⟩, if_pos List.mem_cons_self⟩
    obtain ⟨hread, hreadId⟩ := getRaw_ok (complete_reads hcall)
    exact hs'.unique hread hdone hreadId

/-- The last step of a plan: its completion reaches the root. -/
theorem complete_exact_plan :
    let rows := [sampleRow 1 "A" none [], sampleRow 2 "A1" (some 1) [], sampleRow 3 "A2" (some 2) []]
    ∃ s' out, completeCall sampleEnv ⟨rows, 3⟩ 3 = (s', .ok out) ∧
      out.task = markedDone sampleEnv.now (sampleRow 3 "A2" (some 2) []) ∧
      CompleteExact sampleEnv.now (Store.loadScope ⟨rows, 3⟩ sampleScope) (sampleRow 3 "A2" (some 2) [])
        out.autoCompleted (s'.loadScope sampleScope) ∧
      ∀ sc, sc ≠ sampleScope → s'.loadScope sc = Store.loadScope ⟨rows, 3⟩ sc := by
  intro rows
  have hrun : Op.runAll sampleEnv Store.empty
      [.create (sampleTask "A" none []), .create (sampleTask "A1" (some 1) []),
        .create (sampleTask "A2" (some 2) [])] = .ok ⟨rows, 3⟩ := by decide
  obtain ⟨hs, hw⟩ := wellFormed_of_reachable (Reachable.runAll .refl hrun)
  exact (complete_exact sampleEnv ⟨rows, 3⟩ (sampleRow 3 "A2" (some 2) []) hs (by decide) (hw _)).2.2
    (by decide) (by decide)

/-- A parent is reopened above its done task: completing that task again leaves the parent open. -/
theorem done_again_closes_nothing : ∃ (s : Store) (task : Task) (parent : Int),
    Reachable (fun _ _ _ => True) s ∧ task ∈ s.tasks ∧
      (completeCall sampleEnv s task.id).1 = s ∧ (completeCall sampleEnv s task.id).2.isOk = true ∧
      Below (s.loadScope task.scopeOf) task.id parent ∧
      ∀ y, Below (s.loadScope task.scopeOf) task.id y →
        Completable (s.loadScope task.scopeOf) (s.loadScope task.scopeOf) y := by
  let rows := [sampleRow 1 "A" none [], markedDone sampleEnv.now (sampleRow 2 "A1" (some 1) [])]
  have hrun : Op.runAll sampleEnv Store.empty
      [.create (sampleTask "A" none []), .create (sampleTask "A1" (some 1) []), .complete 2,
        .reopen 1] = .ok ⟨rows, 2⟩ := by decide
  refine ⟨⟨rows, 2⟩, markedDone sampleEnv.now (sampleRow 2 "A1" (some 1) []), 1,
    Reachable.runAll .refl hrun, by decide, by decide, by decide, ⟨0, .step (by decide) (.here 1)⟩, ?_⟩
  rintro y ⟨k, hk⟩
  have hparent : parentOf (Store.loadScope ⟨rows, 2⟩ sampleScope) 2 = some 1 := by decide
  have hroot : parentOf (Store.loadScope ⟨rows, 2⟩ sampleScope) 1 = none := by decide
  cases hk with
  | step hup hrest =>
    obtain rfl := Option.some.inj (hparent.symm.trans hup)
    cases hrest with
    | here => exact ⟨sampleRow 1 "A" none [], by decide, rfl, by decide, rfl, by decide⟩
    | step hup _ => cases hroot.symm.trans hup

end Nanna.Tasks
