import Nanna.Tasks.WellFormed

/-!
# The cascade of a cancellation, exactly

`cancel_cascade_exact`: when an update changes a task's status to cancelled, every open task below it
is cancelled, but for the topmost ones whose own check differs from that of the parent they are
reached from. These take the cancelled task's parent, and what is below them stays as it is. Nothing
else changes, and no open task is left below the cancelled one. An update that finds the task
cancelled already runs no cascade (`cancelled_again_keeps_open`).

Proof. The walk descends from the ids of `Walked`. What it has seen and left its queue has its
children seen (`CascadeExact.expanded`), so an empty queue means that all of `Walked` is done, and each
pop is paid by an unseen row or the root (`cascadeFrom_exact`). Then each row is read off the plan.
-/

namespace Nanna.Tasks

open Nanna.Lib Relation

/-- The ids the walk of `cascade_cancel` descends from. -/
inductive Walked (rows : List Task) (task : Task) : Int → Prop
  | root : Walked rows task task.id
  | child {t : Task} {current : Int} : Walked rows task current → t ∈ rows →
      t.parentId = some current → t.id ≠ task.id → ownContract rows task current t = false →
      Walked rows task t.id

/-- `x` is in the subtree of `a`, and is not `a`. -/
def Below (rows : List Task) (x a : Int) : Prop := ∃ k, Up (parentOf rows) (k + 1) x a

/-- An open task with an acceptance of its own, not that of its parent. -/
def OwnCheck (rows : List Task) (task t : Task) : Prop :=
  ∃ current, t.parentId = some current ∧ ownContract rows task current t = true

/-- A task of the subtree of `task` that is below none with a check of its own. -/
def Exposed (rows : List Task) (task t : Task) : Prop :=
  Below rows t.id task.id ∧
    ∀ u ∈ rows, Below rows t.id u.id → Below rows u.id task.id → ¬ OwnCheck rows task u

/-! ## The walk -/

section Walk

variable {rows : List Task} {task t u : Task} {c : Cascade} {current : Int} {pending : List Int}

theorem Walked.cases_of_mem (hnd : (rows.map (·.id)).Nodup) (ht : t ∈ rows) (hne : t.id ≠ task.id)
    (h : Walked rows task t.id) : ∃ current, Walked rows task current ∧ t.parentId = some current ∧
      ownContract rows task current t = false := by
  generalize hid : t.id = x at h
  cases h with
  | root => exact absurd hid hne
  | @child t' current hcurrent ht' hparent _ hown =>
    obtain rfl : t = t' := List.inj_on_of_nodup_map hnd ht ht' hid
    exact ⟨current, hcurrent, hparent, hown⟩

/-- What is written for a task that was seen. -/
def Planned (rows : List Task) (task t w : Task) : Prop :=
  ∃ current, t.parentId = some current ∧
    (ownContract rows task current t = true ∧ w = { t with parentId := task.parentId } ∨
      ownContract rows task current t = false ∧ isOpen t = true ∧ w = { t with status := .cancelled })

theorem Planned.id {w : Task} (h : Planned rows task t w) : w.id = t.id := by
  obtain ⟨_, -, ⟨-, rfl⟩ | ⟨-, -, rfl⟩⟩ := h <;> rfl

/-- The walk so far; the children of the ids `pending` need not have been seen. -/
structure CascadeExact (rows : List Task) (task : Task) (pending : List Int) (c : Cascade) : Prop where
  root_seen : task.id ∈ c.seen
  queued : ∀ x ∈ c.queue, Walked rows task x
  reached : ∀ t ∈ rows, t.id ∈ c.seen → t.id ≠ task.id →
    ∃ current, Walked rows task current ∧ t.parentId = some current
  expanded : ∀ x ∈ c.seen, Walked rows task x → x ∉ c.queue → x ∉ pending →
    ∀ t ∈ rows, t.parentId = some x → t.id ∈ c.seen
  writes : ∀ w, w ∈ c.writes ↔ ∃ t ∈ rows, t.id ∈ c.seen ∧ t.id ≠ task.id ∧ Planned rows task t w

theorem cascadeExact_start (rows : List Task) (task : Task) :
    CascadeExact rows task [] ⟨[task.id], [task.id], []⟩ := by
  refine ⟨List.mem_singleton_self _, fun x hx => ?_, fun t _ ht hne => ?_, fun x hx _ hqueue => ?_,
    fun w => ⟨nofun, ?_⟩⟩
  · rw [List.mem_singleton.mp hx]
    exact .root
  · exact absurd (List.mem_singleton.mp ht) hne
  · exact absurd hx hqueue
  · rintro ⟨t, -, ht, hne, -⟩
    exact absurd (List.mem_singleton.mp ht) hne

/-- A child seen for the first time, with what is queued and written for it. -/
theorem CascadeExact.visit {queue : List Int} {writes : List Task} (hnd : (rows.map (·.id)).Nodup)
    (h : CascadeExact rows task pending c) (hcurrent : Walked rows task current) (ht : t ∈ rows)
    (hparent : t.parentId = some current) (hfresh : t.id ∉ c.seen)
    (hqueue : ∀ x, x ∈ queue ↔ x ∈ c.queue ∨ x = t.id ∧ ownContract rows task current t = false)
    (hwrites : ∀ w, w ∈ writes ↔ w ∈ c.writes ∨ Planned rows task t w) :
    CascadeExact rows task pending ⟨queue, t.id :: c.seen, writes⟩ := by
  have hne : t.id ≠ task.id := fun heq => hfresh (heq ▸ h.root_seen)
  refine ⟨List.mem_cons_of_mem _ h.root_seen, fun x hx => ?_, fun u hu hseen hune => ?_,
    fun x hx hwalked hunqueued hpending u hu hup => ?_, fun w => ?_⟩
  · rcases (hqueue x).mp hx with hx | ⟨rfl, hown⟩
    · exact h.queued x hx
    · exact .child hcurrent ht hparent hne hown
  · rcases List.mem_cons.mp hseen with heq | hseen
    · obtain rfl : u = t := List.inj_on_of_nodup_map hnd hu ht heq
      exact ⟨current, hcurrent, hparent⟩
    · exact h.reached u hu hseen hune
  · rcases List.mem_cons.mp hx with rfl | hx
    · -- a fresh child that is walked is queued
      obtain ⟨current', -, hparent', hown⟩ := hwalked.cases_of_mem hnd ht hne
      obtain rfl : current = current' := Option.some.inj (hparent.symm.trans hparent')
      exact absurd ((hqueue t.id).mpr (.inr ⟨rfl, hown⟩)) hunqueued
    · have hold : x ∉ c.queue := fun hmem => hunqueued ((hqueue x).mpr (.inl hmem))
      exact List.mem_cons_of_mem _ (h.expanded x hx hwalked hold hpending u hu hup)
  · rw [hwrites, h.writes]
    constructor
    · rintro (⟨u, hu, hseen, hune, hplanned⟩ | hplanned)
      · exact ⟨u, hu, List.mem_cons_of_mem _ hseen, hune, hplanned⟩
      · exact ⟨t, ht, List.mem_cons_self, hne, hplanned⟩
    · rintro ⟨u, hu, hseen, hune, hplanned⟩
      rcases List.mem_cons.mp hseen with heq | hseen
      · obtain rfl : u = t := List.inj_on_of_nodup_map hnd hu ht heq
        exact .inr hplanned
      · exact .inl ⟨u, hu, hseen, hune, hplanned⟩

theorem planned_iff (hparent : t.parentId = some current) (w : Task) : Planned rows task t w ↔
    ownContract rows task current t = true ∧ w = { t with parentId := task.parentId } ∨
      ownContract rows task current t = false ∧ isOpen t = true ∧
        w = { t with status := .cancelled } := by
  constructor
  · rintro ⟨current', hparent', h⟩
    obtain rfl : current = current' := Option.some.inj (hparent.symm.trans hparent')
    exact h
  · exact fun h => ⟨current, hparent, h⟩

/-- From `c` to `c'`, which has seen the children of `current` in `l`: each row queued was unseen. -/
structure Progress (rows : List Task) (current : Int) (l : List Task) (c c' : Cascade) : Prop where
  seen : c.seen ⊆ c'.seen
  children : ∀ t ∈ l, t.parentId = some current → t.id ∈ c'.seen
  paid : unseen (rows.map (·.id)) c'.seen + c'.queue.length ≤
    unseen (rows.map (·.id)) c.seen + c.queue.length

/-- One row of the inner loop. -/
theorem cascadeChild_exact (hnd : (rows.map (·.id)).Nodup) (h : CascadeExact rows task pending c)
    (hcurrent : Walked rows task current) (ht : t ∈ rows) :
    CascadeExact rows task pending (cascadeChild rows task current c t) ∧
      Progress rows current [t] c (cascadeChild rows task current c t) := by
  by_cases hmeet : t.parentId = some current ∧ t.id ∉ c.seen
  · obtain ⟨hparent, hfresh⟩ := hmeet
    have hpaid : unseen (rows.map (·.id)) (t.id :: c.seen) + 1 ≤ unseen (rows.map (·.id)) c.seen := by
      rw [unseen_cons]
      exact unseen_snoc_lt hfresh (List.mem_map_of_mem ht)
    have hsub : c.seen ⊆ t.id :: c.seen := fun x hx => List.mem_cons_of_mem _ hx
    have hchildren : ∀ u ∈ [t], u.parentId = some current → u.id ∈ t.id :: c.seen := by
      intro u hu _
      rw [List.mem_singleton.mp hu]
      exact List.mem_cons_self
    cases hown : ownContract rows task current t with
    | true =>
      have hc' : cascadeChild rows task current c t =
          ⟨c.queue, t.id :: c.seen, c.writes ++ [{ t with parentId := task.parentId }]⟩ := by
        rw [cascadeChild, if_pos ⟨hparent, hfresh⟩]
        exact if_pos hown
      rw [hc']
      refine ⟨h.visit hnd hcurrent ht hparent hfresh (fun x => by simp [hown]) fun w => ?_, hsub,
        hchildren, ?_⟩
      · rw [List.mem_append, List.mem_singleton, planned_iff hparent]
        simp [hown]
      · show unseen _ (t.id :: c.seen) + c.queue.length ≤ _
        omega
    | false =>
      have hc' : cascadeChild rows task current c t = ⟨c.queue ++ [t.id], t.id :: c.seen,
          if isOpen t then c.writes ++ [{ t with status := .cancelled }] else c.writes⟩ := by
        rw [cascadeChild, if_pos ⟨hparent, hfresh⟩]
        exact if_neg (by simp [hown])
      rw [hc']
      refine ⟨h.visit hnd hcurrent ht hparent hfresh (fun x => by simp [hown]) fun w => ?_, hsub,
        hchildren, ?_⟩
      · rw [planned_iff hparent]
        by_cases hopen : isOpen t = true <;> simp [hown, hopen]
      · show unseen _ (t.id :: c.seen) + (c.queue ++ [t.id]).length ≤ _
        rw [List.length_append, List.length_singleton]
        omega
  · have hc' : cascadeChild rows task current c t = c := if_neg hmeet
    rw [hc']
    refine ⟨h, List.Subset.refl _, fun u hu hparent => not_not.mp fun hfresh => hmeet ?_, le_rfl⟩
    rw [← List.mem_singleton.mp hu]
    exact ⟨hparent, hfresh⟩

/-- The inner loop. -/
theorem foldl_cascadeChild_exact (hnd : (rows.map (·.id)).Nodup) (hcurrent : Walked rows task current)
    {l : List Task} (hl : l ⊆ rows) (h : CascadeExact rows task pending c) :
    CascadeExact rows task pending (l.foldl (cascadeChild rows task current) c) ∧
      Progress rows current l c (l.foldl (cascadeChild rows task current) c) := by
  induction l generalizing c with
  | nil => exact ⟨h, List.Subset.refl _, fun u hu => absurd hu List.not_mem_nil, le_rfl⟩
  | cons t l ih =>
    obtain ⟨hone, hfirst⟩ := cascadeChild_exact hnd h hcurrent (hl List.mem_cons_self)
    obtain ⟨hall, hrest⟩ := ih (fun u hu => hl (List.mem_cons_of_mem _ hu)) hone
    rw [List.foldl_cons]
    generalize l.foldl (cascadeChild rows task current) (cascadeChild rows task current c t) = c'
      at hall hrest ⊢
    refine ⟨hall, fun x hx => hrest.seen (hfirst.seen hx), fun u hu hparent => ?_,
      hrest.paid.trans hfirst.paid⟩
    rcases List.mem_cons.mp hu with rfl | hu
    · exact hrest.seen (hfirst.children u (List.mem_singleton_self u) hparent)
    · exact hrest.children u hu hparent

/-- With fuel for the queue and the rows not seen yet, the walk comes to an end. -/
theorem cascadeFrom_exact (hnd : (rows.map (·.id)).Nodup) : ∀ (fuel : Nat) (c : Cascade),
    CascadeExact rows task [] c → unseen (rows.map (·.id)) c.seen + c.queue.length ≤ fuel →
    CascadeExact rows task [] (cascadeFrom rows task fuel c) ∧
      (cascadeFrom rows task fuel c).queue = []
  | 0, c, h, hfuel => by
    have hempty : c.queue.length = 0 := by omega
    exact ⟨h, List.length_eq_zero_iff.mp hempty⟩
  | fuel + 1, c, h, hfuel => by
    unfold cascadeFrom
    cases hqueue : c.queue with
    | nil => exact ⟨h, hqueue⟩
    | cons current queue =>
      have hcurrent : Walked rows task current := h.queued current (by simp [hqueue])
      have hpopped : CascadeExact rows task [current] { c with queue } := by
        refine ⟨h.root_seen, fun x hx => h.queued x (by simp [hqueue, hx]), h.reached,
          fun x hx hwalked hunqueued hpending => h.expanded x hx hwalked ?_ List.not_mem_nil, h.writes⟩
        rw [hqueue]
        simpa using ⟨fun heq => hpending (List.mem_singleton.mpr heq), hunqueued⟩
      obtain ⟨hloop, hprogress⟩ := foldl_cascadeChild_exact hnd hcurrent (List.Subset.refl rows) hpopped
      have hdone : CascadeExact rows task []
          (rows.foldl (cascadeChild rows task current) { c with queue }) := by
        refine ⟨hloop.root_seen, hloop.queued, hloop.reached,
          fun x hx hwalked hunqueued _ u hu hup => ?_, hloop.writes⟩
        by_cases hx' : x = current
        · exact hprogress.children u hu (hx' ▸ hup)
        · exact hloop.expanded x hx hwalked hunqueued (by simpa using hx') u hu hup
      rw [hqueue, List.length_cons] at hfuel
      refine cascadeFrom_exact hnd fuel _ hdone (hprogress.paid.trans ?_)
      show unseen _ c.seen + queue.length ≤ fuel
      omega

/-- What the cascade writes. -/
theorem mem_cascadePlan (hnd : (rows.map (·.id)).Nodup) (w : Task) : w ∈ cascadePlan rows task ↔
    ∃ t ∈ rows, t.id ≠ task.id ∧ (∃ current, Walked rows task current ∧ t.parentId = some current) ∧
      Planned rows task t w := by
  have hfuel : unseen (rows.map (·.id)) [task.id] + [task.id].length ≤ rows.length + 1 := by
    have hle : unseen (rows.map (·.id)) [task.id] ≤ (rows.map (·.id)).length := List.length_filter_le _ _
    rw [List.length_map] at hle
    rw [List.length_singleton]
    omega
  obtain ⟨h, hempty⟩ := cascadeFrom_exact hnd (rows.length + 1) _ (cascadeExact_start rows task) hfuel
  have hall : ∀ x, Walked rows task x →
      x ∈ (cascadeFrom rows task (rows.length + 1) ⟨[task.id], [task.id], []⟩).seen := by
    intro x hx
    induction hx with
    | root => exact h.root_seen
    | child hcurrent ht hparent _ _ ih =>
      exact h.expanded _ ih hcurrent (by rw [hempty]; exact List.not_mem_nil) List.not_mem_nil _ ht hparent
  refine (h.writes w).trans ⟨?_, ?_⟩
  · rintro ⟨t, ht, hseen, hne, hplanned⟩
    exact ⟨t, ht, hne, h.reached t ht hseen hne, hplanned⟩
  · rintro ⟨t, ht, hne, ⟨current, hcurrent, hparent⟩, hplanned⟩
    refine ⟨t, ht, ?_, hne, hplanned⟩
    exact h.expanded _ (hall current hcurrent) hcurrent (by rw [hempty]; exact List.not_mem_nil)
      List.not_mem_nil t ht hparent

end Walk

/-! ## What the walk reaches -/

section Exposed

variable {rows : List Task} {task t u : Task} {x y a : Int}

theorem Below.not_self (hw : WellFormed rows) (ht : t ∈ rows) : ¬ Below rows t.id t.id := by
  rintro ⟨k, hk⟩
  obtain ⟨d, -, hd⟩ := hw.depth t ht
  obtain ⟨e, he, hde⟩ := hd.of_up hk
  have := hd.unique he
  omega

theorem Below.trans (h : Below rows x y) (h' : Below rows y a) : Below rows x a := by
  obtain ⟨j, hj⟩ := h
  obtain ⟨k, hk⟩ := h'
  refine ⟨j + 1 + k, ?_⟩
  have := hj.trans hk
  rwa [← Nat.add_assoc] at this

theorem Below.of_up {k : Nat} (hparent : parentOf rows x = some y) (h : Up (parentOf rows) k y a) :
    Below rows x a := ⟨k, .step hparent h⟩

theorem exists_up_iff : (∃ k, Up (parentOf rows) k x a) ↔ x = a ∨ Below rows x a := by
  constructor
  · rintro ⟨k, hk⟩
    cases hk with
    | here => exact .inl rfl
    | step hparent hrest => exact .inr (.of_up hparent hrest)
  · rintro (rfl | ⟨k, hk⟩)
    · exact ⟨0, .here x⟩
    · exact ⟨k + 1, hk⟩

theorem Walked.up (hnd : (rows.map (·.id)).Nodup) (h : Walked rows task x) :
    ∃ k, Up (parentOf rows) k x task.id := by
  induction h with
  | root => exact ⟨0, .here _⟩
  | child _ ht hparent _ _ ih =>
    obtain ⟨k, hk⟩ := ih
    exact ⟨k + 1, .step ((parentOf_of_mem hnd ht).trans hparent) hk⟩

/-- The walk descends from the ids that neither carry a check of their own nor are below one that
does. -/
theorem walked_iff (hw : WellFormed rows) (htask : ∃ r ∈ rows, r.id = task.id) : Walked rows task x ↔
    (∃ k, Up (parentOf rows) k x task.id) ∧ ∀ u ∈ rows, (∃ k, Up (parentOf rows) k x u.id) →
      Below rows u.id task.id → ¬ OwnCheck rows task u := by
  obtain ⟨r, hr, hrid⟩ := htask
  have hacyclic : ¬ Below rows task.id task.id := by
    rw [← hrid]
    exact Below.not_self hw hr
  refine ⟨fun h => ⟨h.up hw.nodup, fun u hu hup hbelow => ?_⟩, ?_⟩
  · obtain ⟨k, hk⟩ := hup
    induction h generalizing k with
    | root =>
      -- a cycle through the task
      obtain ⟨j, hj⟩ := hbelow
      exact absurd ⟨k + j, hk.trans hj⟩ hacyclic
    | @child t current _ ht hparent _ hown ih =>
      generalize hx : t.id = x at hk
      cases hk with
      | here =>
        obtain rfl : t = u := List.inj_on_of_nodup_map hw.nodup ht hu hx
        rintro ⟨current', hparent', hown'⟩
        obtain rfl : current = current' := Option.some.inj (hparent.symm.trans hparent')
        exact absurd hown' (by simp [hown])
      | step hup hrest =>
        rw [← hx, parentOf_of_mem hw.nodup ht, hparent] at hup
        obtain rfl := Option.some.inj hup
        exact ih _ hrest
  · rintro ⟨⟨k, hk⟩, hfree⟩
    generalize hid : task.id = a at hk
    induction hk with
    | here => exact hid ▸ .root
    | @step k x y a hup hrest ih =>
      subst hid
      obtain ⟨t, ht, rfl, hparent⟩ := parentOf_some hup
      by_cases hroot : t.id = task.id
      · exact hroot ▸ .root
      · have hcurrent : Walked rows task y :=
          ih (fun u hu ⟨j, hj⟩ => hfree u hu ⟨j + 1, .step hup hj⟩) rfl
        have hnone := hfree t ht ⟨0, .here _⟩ (.of_up hup hrest)
        refine .child hcurrent ht hparent hroot (Bool.eq_false_iff.mpr fun hown => ?_)
        exact hnone ⟨y, hparent, hown⟩

/-- The rows the walk meets. -/
theorem exposed_iff (hw : WellFormed rows) (htask : ∃ r ∈ rows, r.id = task.id) (ht : t ∈ rows) :
    Exposed rows task t ↔
      ∃ current, Walked rows task current ∧ t.parentId = some current := by
  have hup := parentOf_of_mem hw.nodup ht
  constructor
  · rintro ⟨⟨k, hk⟩, hfree⟩
    cases hk with
    | @step _ _ current _ hparent hrest =>
      refine ⟨current, (walked_iff hw htask).mpr ⟨⟨k, hrest⟩, fun u hu ⟨j, hj⟩ => ?_⟩, ?_⟩
      · exact hfree u hu (.of_up hparent hj)
      · rw [← hup, hparent]
  · rintro ⟨current, hcurrent, hparent⟩
    obtain ⟨⟨k, hk⟩, hfree⟩ := (walked_iff hw htask).mp hcurrent
    refine ⟨.of_up (hup.trans hparent) hk, fun u hu ⟨j, hj⟩ => ?_⟩
    cases hj with
    | step hparent' hrest =>
      rw [hup, hparent] at hparent'
      obtain rfl := Option.some.inj hparent'
      exact hfree u hu ⟨j, hrest⟩

/-- What is not exposed is below an exposed task with a check of its own. -/
theorem exists_exposed (hw : WellFormed rows) (hbelow : Below rows t.id task.id)
    (hhidden : ¬ Exposed rows task t) :
    ∃ top ∈ rows, Exposed rows task top ∧ OwnCheck rows task top ∧ Below rows t.id top.id := by
  obtain ⟨u, hu, hxu, hutask, hown⟩ : ∃ u ∈ rows, Below rows t.id u.id ∧ Below rows u.id task.id ∧
      OwnCheck rows task u := by
    simpa [Exposed, hbelow] using hhidden
  -- the one of least depth
  obtain ⟨d, -, hd⟩ := hw.depth u hu
  induction d using Nat.strong_induction_on generalizing u with
  | _ d ih =>
    by_cases hexposed : Exposed rows task u
    · exact ⟨u, hu, hexposed, hown, hxu⟩
    · obtain ⟨v, hv, huv, hvtask, hvown⟩ : ∃ v ∈ rows, Below rows u.id v.id ∧
          Below rows v.id task.id ∧ OwnCheck rows task v := by
        simpa [Exposed, hutask] using hexposed
      obtain ⟨k, hk⟩ := huv
      obtain ⟨e, he, hde⟩ := hd.of_up hk
      exact ih e (by omega) v hv (hxu.trans ⟨k, hk⟩) hvtask hvown he

end Exposed

/-! ## What is left of the rows -/

/-- What the cascade of the cancelled `task` makes of the rows of its scope. -/
structure CancelExact (now : String) (rows : List Task) (task : Task) (rows' : List Task) : Prop where
  ids : rows'.map (·.id) = rows.map (·.id)
  cancelled : ∀ t ∈ rows, Exposed rows task t → isOpen t = true → ¬ OwnCheck rows task t →
    { t with status := .cancelled, updatedAt := now } ∈ rows'
  reparented : ∀ t ∈ rows, Exposed rows task t → OwnCheck rows task t →
    { t with parentId := task.parentId, updatedAt := now } ∈ rows'
  kept : ∀ t ∈ rows, isOpen t = false ∨ ¬ Exposed rows task t → t ∈ rows'
  hidden : ∀ t ∈ rows, Below rows t.id task.id → ¬ Exposed rows task t →
    ∃ top ∈ rows, Exposed rows task top ∧ OwnCheck rows task top ∧ Below rows t.id top.id
  none_open : ∀ t ∈ rows', Below rows' t.id task.id → isOpen t = false

section Rows

variable {rows : List Task} {task t : Task} {now : String} {current : Int}

theorem OwnCheck.isOpen (h : OwnCheck rows task t) : isOpen t = true := by
  obtain ⟨current, -, hown⟩ := h
  simp only [ownContract, Bool.and_eq_true] at hown
  exact hown.1.1

theorem ownCheck_iff (hparent : t.parentId = some current) :
    OwnCheck rows task t ↔ ownContract rows task current t = true := by
  constructor
  · rintro ⟨current', hparent', hown⟩
    rwa [Option.some.inj (hparent.symm.trans hparent')]
  · exact fun hown => ⟨current, hparent, hown⟩

/-- The rows written are the exposed open ones. -/
theorem mem_cascadePlan_iff (hw : WellFormed rows) (htask : ∃ r ∈ rows, r.id = task.id) (w : Task) :
    w ∈ cascadePlan rows task ↔ ∃ t ∈ rows, Exposed rows task t ∧
      (OwnCheck rows task t ∧ w = { t with parentId := task.parentId } ∨
        ¬ OwnCheck rows task t ∧ isOpen t = true ∧ w = { t with status := .cancelled }) := by
  rw [mem_cascadePlan hw.nodup]
  refine exists_congr fun t => and_congr_right fun ht => ?_
  rw [exposed_iff hw htask ht]
  constructor
  · rintro ⟨-, ⟨current, hcurrent, hparent⟩, hplanned⟩
    refine ⟨⟨current, hcurrent, hparent⟩, ?_⟩
    rw [ownCheck_iff hparent, Bool.not_eq_true]
    exact (planned_iff hparent w).mp hplanned
  · rintro ⟨⟨current, hcurrent, hparent⟩, hwritten⟩
    rw [ownCheck_iff hparent, Bool.not_eq_true] at hwritten
    refine ⟨fun hroot => ?_, ⟨current, hcurrent, hparent⟩, (planned_iff hparent w).mpr hwritten⟩
    obtain ⟨k, hk⟩ := hcurrent.up hw.nodup
    exact Below.not_self hw ht (.of_up ((parentOf_of_mem hw.nodup ht).trans hparent) (hroot ▸ hk))

theorem rewriteRow_cancelled (hw : WellFormed rows) (htask : ∃ r ∈ rows, r.id = task.id) (ht : t ∈ rows)
    (hexposed : Exposed rows task t) (hopen : isOpen t = true) (hown : ¬ OwnCheck rows task t) :
    rewriteRow now (cascadePlan rows task) t = { t with status := .cancelled, updatedAt := now } := by
  have hmem : { t with status := .cancelled } ∈ cascadePlan rows task :=
    (mem_cascadePlan_iff hw htask _).mpr ⟨t, ht, hexposed, .inr ⟨hown, hopen, rfl⟩⟩
  exact rewriteRow_eq (cascadePlan_spec hw.nodup task).1 hmem rfl

theorem rewriteRow_reparented (hw : WellFormed rows) (htask : ∃ r ∈ rows, r.id = task.id) (ht : t ∈ rows)
    (hexposed : Exposed rows task t) (hown : OwnCheck rows task t) :
    rewriteRow now (cascadePlan rows task) t = { t with parentId := task.parentId, updatedAt := now } := by
  have hmem : { t with parentId := task.parentId } ∈ cascadePlan rows task :=
    (mem_cascadePlan_iff hw htask _).mpr ⟨t, ht, hexposed, .inl ⟨hown, rfl⟩⟩
  exact rewriteRow_eq (cascadePlan_spec hw.nodup task).1 hmem rfl

theorem rewriteRow_kept (hw : WellFormed rows) (htask : ∃ r ∈ rows, r.id = task.id) (ht : t ∈ rows)
    (h : isOpen t = false ∨ ¬ Exposed rows task t) :
    rewriteRow now (cascadePlan rows task) t = t := by
  refine rewriteRow_of_not_mem fun hmem => ?_
  obtain ⟨w, hw', hid⟩ := List.mem_map.mp hmem
  obtain ⟨u, hu, hexposed, hwritten⟩ := (mem_cascadePlan_iff hw htask w).mp hw'
  have hopen : isOpen u = true ∧ w.id = u.id := by
    rcases hwritten with ⟨hown, rfl⟩ | ⟨-, hopen, rfl⟩
    · exact ⟨hown.isOpen, rfl⟩
    · exact ⟨hopen, rfl⟩
  obtain rfl : u = t := List.inj_on_of_nodup_map hw.nodup hu ht (hopen.2.symm.trans hid)
  rcases h with hclosed | hhidden
  · exact Bool.false_ne_true (hclosed.symm.trans hopen.1)
  · exact hhidden hexposed

/-- What is below the cancelled task afterwards was exposed before, and moved nowhere. -/
theorem walked_of_up (hw : WellFormed rows) (htask : parentOf rows task.id = task.parentId)
    (hmem : ∃ r ∈ rows, r.id = task.id) {k : Nat} {x : Int}
    (h : Up (parentOf (cascadedRows now rows task)) k x task.id) :
    Walked rows task x ∧ (0 < k → ∃ t ∈ rows, t.id = x ∧ Exposed rows task t ∧ ¬ OwnCheck rows task t) := by
  generalize hid : task.id = a at h
  induction h with
  | here => exact ⟨hid ▸ .root, fun hk => absurd hk (lt_irrefl 0)⟩
  | @step k x y a hup hrest ih =>
    subst hid
    obtain ⟨hwalked, -⟩ := ih rfl
    obtain ⟨row, hrow, rfl, hparent⟩ := parentOf_some hup
    obtain ⟨t, ht, rfl⟩ := List.mem_map.mp hrow
    rw [rewriteRow_id]
    have hacyclic : task.parentId ≠ some y := fun hy => by
      obtain ⟨j, hj⟩ := hwalked.up hw.nodup
      obtain ⟨r, hr, hrid⟩ := hmem
      exact Below.not_self hw hr (hrid ▸ .of_up (htask.trans hy) hj)
    by_cases hmoved : Exposed rows task t ∧ OwnCheck rows task t
    · rw [rewriteRow_reparented hw hmem ht hmoved.1 hmoved.2] at hparent
      exact absurd hparent hacyclic
    · have hkept : t.parentId = some y := by
        by_cases hdead : Exposed rows task t ∧ isOpen t = true
        · rwa [rewriteRow_cancelled hw hmem ht hdead.1 hdead.2 fun hown => hmoved ⟨hdead.1, hown⟩] at hparent
        · rwa [rewriteRow_kept hw hmem ht (by
            by_cases hopen : isOpen t = true
            · exact .inr fun hexposed => hdead ⟨hexposed, hopen⟩
            · exact .inl (by simpa using hopen))] at hparent
      have hexposed : Exposed rows task t := (exposed_iff hw hmem ht).mpr ⟨y, hwalked, hkept⟩
      have hown : ¬ OwnCheck rows task t := fun hown => hmoved ⟨hexposed, hown⟩
      refine ⟨?_, fun _ => ⟨t, ht, rfl, hexposed, hown⟩⟩
      by_cases hroot : t.id = task.id
      · exact hroot ▸ .root
      · rw [ownCheck_iff hkept, Bool.not_eq_true] at hown
        exact .child hwalked ht hkept hroot hown

theorem cancelExact_cascadedRows (hw : WellFormed rows) (htask : parentOf rows task.id = task.parentId)
    (hmem : ∃ r ∈ rows, r.id = task.id) : CancelExact now rows task (cascadedRows now rows task) := by
  have hin : ∀ t ∈ rows, rewriteRow now (cascadePlan rows task) t ∈ cascadedRows now rows task :=
    fun t ht => List.mem_map_of_mem ht
  refine ⟨map_ids (rewriteRow_id now _), fun t ht hexposed hopen hown => ?_,
    fun t ht hexposed hown => ?_, fun t ht hkept => ?_,
    fun t _ hbelow hhidden => exists_exposed hw hbelow hhidden, fun row hrow hbelow => ?_⟩
  · rw [← rewriteRow_cancelled hw hmem ht hexposed hopen hown]
    exact hin t ht
  · rw [← rewriteRow_reparented hw hmem ht hexposed hown]
    exact hin t ht
  · have hsame := hin t ht
    rwa [rewriteRow_kept hw hmem ht hkept] at hsame
  · obtain ⟨k, hk⟩ := hbelow
    obtain ⟨u, hu, rfl⟩ := List.mem_map.mp hrow
    obtain ⟨-, hrest⟩ := walked_of_up hw htask hmem hk
    obtain ⟨t, ht, hid, hexposed, hown⟩ := hrest (Nat.succ_pos k)
    rw [rewriteRow_id] at hid
    obtain rfl : t = u := List.inj_on_of_nodup_map hw.nodup ht hu hid
    by_cases hopen : isOpen t = true
    · rw [rewriteRow_cancelled hw hmem ht hexposed hopen hown]
      rfl
    · rw [Bool.not_eq_true] at hopen
      rwa [rewriteRow_kept hw hmem ht (.inl hopen)]

end Rows

/-! ## The update -/

/-- **Main result.** An update that changes a task's status to cancelled cancels every open task below
it, but for the topmost ones with a check of their own: these take the cancelled task's parent, with
what is below them as it was. Nothing else changes, and no open task is below the cancelled one. -/
theorem cancel_cascade_exact (env : Env) (s s' : Store) (task t : Task) (patch : TaskPatch)
    (hs : s.Distinct) (hw : WellFormed (s.loadScope task.scopeOf)) (hmem : task ∈ s.tasks)
    (hnot : task.status ≠ .cancelled) (hpatch : patch.status = some "cancelled")
    (h : update env s task.id patch = .ok (s', t)) :
    ∃ p, applyPatch env task patch = .ok p ∧ p.1.id = task.id ∧ p.1.status = .cancelled ∧
      CancelExact env.now (patchedRows env.now (s.loadScope task.scopeOf) p.1) p.1
        (s'.loadScope task.scopeOf) ∧
      ∀ sc, sc ≠ task.scopeOf → s'.loadScope sc = s.loadScope sc := by
  obtain ⟨-, -, task', hmem', hid, p, happly, hcheck, hload⟩ := update_loadScope hs h
  obtain rfl : task' = task := hs.unique hmem' hmem hid
  have hspec := applyPatch_spec happly
  have hstatus : p.1.status = .cancelled := by
    have hwritten := hspec.written _ hpatch
    cases hp : p.1.status <;> simp [hp, TaskStatus.asStr] at hwritten ⊢
  have hcancels : cancels p = true := by
    have hchanged : "status" ∈ p.2 := hspec.changed.mpr (hstatus ▸ hnot.symm)
    simp [cancels, hchanged, hstatus]
  have hrow : task' ∈ s.loadScope task'.scopeOf := mem_loadScope.mpr ⟨hmem, rfl⟩
  have hfind : (findTask (s.loadScope task'.scopeOf) p.1.id).isSome :=
    findTask_isSome.mpr ⟨task', hrow, hspec.id.symm⟩
  refine ⟨p, happly, hspec.id, hstatus, ?_, fun sc hsc => ?_⟩
  · rw [hload, if_pos rfl, if_pos hcancels]
    refine cancelExact_cascadedRows (hw.updated hrow happly hcheck) ?_ ?_
    · rw [parentOf_patched _ hfind, if_pos rfl]
    · exact ⟨overwrite env.now task' p.1,
        List.mem_map.mpr ⟨task', hrow, if_pos hspec.id.symm⟩, hspec.id.symm⟩
  · rw [hload, if_neg hsc]

/-- A plan, its step, the step's repair with a check of its own, and what is below the repair. -/
def samplePlan : List Task :=
  [sampleRow 1 "A" none [], sampleRow 2 "step" (some 1) [],
    { sampleRow 3 "repair" (some 2) [] with acceptance := some (.str "cargo test") },
    sampleRow 4 "detail" (some 3) []]

/-- The step goes with the plan; the repair and its detail stay. -/
theorem cancel_cascade_exact_plan :
    ∃ p, applyPatch sampleEnv (sampleRow 1 "A" none []) { status := some "cancelled" } = .ok p ∧
      p.1.id = 1 ∧ p.1.status = .cancelled ∧
      CancelExact sampleEnv.now (patchedRows sampleEnv.now samplePlan p.1) p.1
        [{ sampleRow 1 "A" none [] with status := .cancelled },
          { sampleRow 2 "step" (some 1) [] with status := .cancelled },
          { sampleRow 3 "repair" none [] with acceptance := some (.str "cargo test") },
          sampleRow 4 "detail" (some 3) []] ∧
      ∀ sc, sc ≠ sampleScope → Store.loadScope ⟨[{ sampleRow 1 "A" none [] with status := .cancelled },
          { sampleRow 2 "step" (some 1) [] with status := .cancelled },
          { sampleRow 3 "repair" none [] with acceptance := some (.str "cargo test") },
          sampleRow 4 "detail" (some 3) []], 4⟩ sc = Store.loadScope ⟨samplePlan, 4⟩ sc := by
  have hrun : Op.runAll sampleEnv Store.empty
      [.create (sampleTask "A" none []), .create (sampleTask "step" (some 1) []),
        .create { sampleTask "repair" (some 2) [] with acceptance := some (.str "cargo test") },
        .create (sampleTask "detail" (some 3) [])] = .ok ⟨samplePlan, 4⟩ := by decide
  obtain ⟨hs, hw⟩ := wellFormed_of_reachable (Reachable.runAll .refl hrun)
  exact cancel_cascade_exact sampleEnv ⟨samplePlan, 4⟩ _ (sampleRow 1 "A" none []) _
    { status := some "cancelled" } hs (hw _) (by decide) (by decide) rfl rfl

/-- A task below a cancelled one is reopened, and the parent is cancelled again: the task stays open. -/
theorem cancelled_again_keeps_open : ∃ s s' : Store, ∃ task t : Task, ∃ patch : TaskPatch,
    Reachable (fun _ _ _ => True) s ∧ task ∈ s.tasks ∧ patch.status = some "cancelled" ∧
      update sampleEnv s task.id patch = .ok (s', t) ∧
      ∃ row ∈ s'.loadScope task.scopeOf, Below (s'.loadScope task.scopeOf) row.id task.id ∧
        isOpen row = true := by
  have hrun : Op.runAll sampleEnv Store.empty
      [.create (sampleTask "A" none []), .create (sampleTask "A1" (some 1) []),
        .update 1 { status := some "cancelled" }, .reopen 2] =
      .ok ⟨[{ sampleRow 1 "A" none [] with status := .cancelled }, sampleRow 2 "A1" (some 1) []], 2⟩ := by
    decide
  refine ⟨_, _, { sampleRow 1 "A" none [] with status := .cancelled }, _, { status := some "cancelled" },
    Reachable.runAll .refl hrun, by decide, rfl, rfl, sampleRow 2 "A1" (some 1) [], by decide,
    ⟨0, .step (p := 1) (by decide) (.here 1)⟩, by decide⟩

end Nanna.Tasks
