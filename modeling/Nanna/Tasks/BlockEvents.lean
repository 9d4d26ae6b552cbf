import Nanna.Tasks.CascadeExact

/-!
# The events of blocked tasks

`block_events_exact`: in every reachable store, a call publishes exactly one `blocked` or `unblocked`
event for each task that is there before and after and whose derived flag changed, and none for any
other; and `list`, `get` and `blocked_ids` derive the same flag for every task. The exception is a clear
of a whole scope: each of its deletions publishes its own difference, so that a task can be reported
free just before it is deleted as well (`cleared_task_reported_free`).

Proof. A row is blocked when an open row of its scope is named in its list (`isBlocked_iff`), which is
what the three derivations compute. A diff of two snapshots of one scope is then exact as soon as the
other scopes stayed as they were (`eventsExact_emit`), and what publishes nothing changes no flag: a new
row is named by no other, a patch of neither the status nor the dependencies keeps both, and a closed
task that goes blocked nothing.

The sink is attached; the actor of an event is left out.
-/

namespace Nanna.Tasks

open Nanna.Lib Relation

/-! ## The events -/

inductive TaskEventKind
  | blocked
  | unblocked
deriving DecidableEq

/-- The flag an event announces. -/
def TaskEventKind.flag : TaskEventKind → Bool
  | blocked => true
  | unblocked => false

structure TaskEvent where
  kind : TaskEventKind
  taskId : Int
  scope : String
  scopeId : Option String
  /-- The event's detail. -/
  dependsOn : List Int
deriving DecidableEq

/-- `blocked_ids`. -/
def blockedIds (tasks : List Task) : List Int :=
  (tasks.filter fun t => t.dependsOn.any (· ∈ (tasks.filter isOpen).map (·.id))).map (·.id)

/-- The body of the loop of `emit_block_transitions`. -/
def blockTransition (before after : List Task) (task : Task) : Option TaskEvent :=
  if task.id ∉ before.map (·.id) then none
  else if (task.id ∈ blockedIds before ↔ task.id ∈ blockedIds after) then none
  else some
    { kind := if task.id ∈ blockedIds after then .blocked else .unblocked
      taskId := task.id, scope := task.scope, scopeId := task.scopeId, dependsOn := task.dependsOn }

def emitBlockTransitions (before after : List Task) : List TaskEvent :=
  after.filterMap (blockTransition before after)

/-! ## The events of a call -/

/-- The difference is taken only where the status or the dependencies changed. -/
def updateEvents (env : Env) (s : Store) (id : Int) (patch : TaskPatch) : Result (Store × List TaskEvent) := do
  let task ← s.getRaw id
  let p ← preparePatch env task patch
  let (s', _) ← update env s id patch
  .ok (s', if "status" ∈ p.2 ∨ "depends_on" ∈ p.2 then
    emitBlockTransitions (s.loadScope p.1.scopeOf) (s'.loadScope p.1.scopeOf) else [])

def completeEvents (env : Env) (s : Store) (id : Int) : Result (Store × List TaskEvent) := do
  let task ← s.getRaw id
  let (s', out) ← complete env s id
  .ok (s', if out.alreadyDone then []
    else emitBlockTransitions (s.loadScope task.scopeOf) (s'.loadScope task.scopeOf))

def reopenEvents (env : Env) (s : Store) (id : Int) : Result (Store × List TaskEvent) := do
  let task ← s.getRaw id
  let (s', _) ← reopen env s id
  .ok (s', if task.status.isClosed then
    emitBlockTransitions (s.loadScope task.scopeOf) (s'.loadScope task.scopeOf) else [])

def deleteEvents (env : Env) (s : Store) (id : Int) : Result (Store × List TaskEvent) := do
  let task ← s.getRaw id
  let (s', _) ← delete env s id
  .ok (s', emitBlockTransitions (s.loadScope task.scopeOf) (s'.loadScope task.scopeOf))

/-- The targets of `clear` in turn. -/
def clearEventsFrom (env : Env) (rows : List Task) (closedOnly : Bool) :
    List Task → Store → Result (Store × List TaskEvent)
  | [], s => .ok (s, [])
  | target :: targets, s =>
    if closedOnly && hasOpenDescendant rows target.id then clearEventsFrom env rows closedOnly targets s
    else
      match s.getRaw target.id with
      | .error _ => clearEventsFrom env rows closedOnly targets s
      | .ok _ => do
        let (s, events) ← deleteEvents env s target.id
        let (s, rest) ← clearEventsFrom env rows closedOnly targets s
        .ok (s, events ++ rest)

/-- A call with the events it publishes about blocked tasks. -/
def Op.runEvents (env : Env) (s : Store) : Op → Result (Store × List TaskEvent)
  | create new => do
    let (s, _) ← Tasks.create env s new
    .ok (s, [])
  | update id patch => updateEvents env s id patch
  | complete id => completeEvents env s id
  | reopen id => reopenEvents env s id
  | delete id => deleteEvents env s id
  | clear sc closedOnly =>
    clearEventsFrom env (s.loadScope sc) closedOnly (clearTargets (s.loadScope sc) closedOnly) s

/-! ## What the events should be -/

/-- The flag `get` derives; none for a task that is not there. -/
def blockedFlag (s : Store) (id : Int) : Option Bool :=
  match get s id with
  | .ok task => some task.blocked
  | .error _ => none

/-- One event of the matching kind for each task that is there before and after and whose flag
changed, and no other event. -/
def EventsExact (s s' : Store) (events : List TaskEvent) : Prop :=
  ∀ kind id, events.countP (fun e => e.kind = kind && e.taskId = id) =
    if blockedFlag s id = some (!kind.flag) ∧ blockedFlag s' id = some kind.flag then 1 else 0

/-- The three derivations of the flag of `t` agree. -/
def FlagsAgree (s : Store) (sc : Scope) (t : Task) : Prop :=
  ∃ blocked, get s t.id = .ok { t with blocked } ∧ { t with blocked } ∈ list s sc true ∧
    (∀ u ∈ list s sc true, u.id = t.id → u = { t with blocked }) ∧
    (isOpen t = true → { t with blocked } ∈ list s sc false) ∧
    (blocked = true ↔ t.id ∈ blockedIds (s.loadScope sc))

/-! ## The derivations -/

section Flags

variable {rows : List Task} {t u : Task} {s s' : Store} {sc : Scope}

/-- A row is blocked by an open row it names. -/
theorem isBlocked_iff (hnd : (rows.map (·.id)).Nodup) :
    isBlocked t rows = true ↔ ∃ u ∈ rows, isOpen u = true ∧ u.id ∈ t.dependsOn := by
  unfold isBlocked
  rw [List.any_eq_true]
  constructor
  · rintro ⟨d, hd, hopen⟩
    cases hfind : findTask rows d with
    | none => simp [hfind] at hopen
    | some u =>
      obtain ⟨hu, rfl⟩ := findTask_some hfind
      exact ⟨u, hu, by simpa [hfind] using hopen, hd⟩
  · rintro ⟨u, hu, hopen, hd⟩
    exact ⟨u.id, hd, by simpa [findTask_of_mem hnd hu] using hopen⟩

theorem mem_blockedIds (hnd : (rows.map (·.id)).Nodup) (ht : t ∈ rows) :
    t.id ∈ blockedIds rows ↔ isBlocked t rows = true := by
  have hnamed : ∀ v : Task, (v.dependsOn.any fun d => decide (d ∈ (rows.filter isOpen).map (·.id))) = true ↔
      isBlocked v rows = true := by
    intro v
    rw [isBlocked_iff hnd, List.any_eq_true]
    constructor
    · rintro ⟨d, hd, hopen⟩
      obtain ⟨u, hu, rfl⟩ := List.mem_map.mp (of_decide_eq_true hopen)
      obtain ⟨hu, hopen⟩ := List.mem_filter.mp hu
      exact ⟨u, hu, hopen, hd⟩
    · rintro ⟨u, hu, hopen, hd⟩
      exact ⟨u.id, hd, decide_eq_true (List.mem_map_of_mem (List.mem_filter.mpr ⟨hu, hopen⟩))⟩
  rw [blockedIds, List.mem_map]
  constructor
  · rintro ⟨v, hv, hid⟩
    obtain ⟨hv, hblocked⟩ := List.mem_filter.mp hv
    obtain rfl : v = t := List.inj_on_of_nodup_map hnd hv ht hid
    exact (hnamed v).mp hblocked
  · exact fun hblocked => ⟨t, List.mem_filter.mpr ⟨ht, (hnamed t).mpr hblocked⟩, rfl⟩

/-- A store as the calls leave it: the graph of every scope is well formed, and no row holds a flag. -/
structure Tracked (s : Store) : Prop where
  distinct : s.Distinct
  wellFormed : ∀ sc, WellFormed (s.loadScope sc)
  unflagged : ∀ sc, ∀ t ∈ s.loadScope sc, t.blocked = false

theorem rewriteRow_blocked (now : String) (writes : List Task) (row : Task) :
    (rewriteRow now writes row).blocked = row.blocked := by
  unfold rewriteRow
  split <;> rfl

/-- No step writes a flag. -/
theorem RowsStep.unflagged {env : Env} {rows' : List Task} {op : Op}
    (hstep : RowsStep env sc rows op rows') (h : ∀ t ∈ rows, t.blocked = false) :
    ∀ t ∈ rows', t.blocked = false := by
  have hmap : ∀ {l : List Task} {f : Task → Task}, (∀ t, (f t).blocked = t.blocked) →
      (∀ t ∈ l, t.blocked = false) → ∀ t ∈ l.map f, t.blocked = false := by
    intro l f hf hl t ht
    obtain ⟨u, hu, rfl⟩ := List.mem_map.mp ht
    exact (hf u).trans (hl u hu)
  have hdeleted : ∀ {l : List Task} (id : Int), (∀ t ∈ l, t.blocked = false) →
      ∀ t ∈ deletedRows env.now l id, t.blocked = false := fun id hl =>
    hmap (rewriteRow_blocked _ _) fun t ht => hl t (List.mem_of_mem_filter ht)
  cases hstep with
  | same => exact h
  | create =>
    intro t ht
    rcases List.mem_append.mp ht with ht | ht
    · exact h t ht
    · rw [List.mem_singleton.mp ht]
      rfl
  | @update task patch p =>
    have hpatched : ∀ t ∈ patchedRows env.now rows p.1, t.blocked = false := by
      refine hmap (fun t => ?_) h
      split_ifs <;> rfl
    split_ifs
    · exact hmap (rewriteRow_blocked _ _) hpatched
    · exact hpatched
  | complete =>
    refine hmap (fun t => ?_) h
    split_ifs <;> rfl
  | reopen =>
    refine hmap (fun t => ?_) h
    split_ifs <;> rfl
  | delete => exact hdeleted _ h
  | clear hrun =>
    induction hrun with
    | refl => exact h
    | tail _ hdelete ih =>
      obtain ⟨task, -, rfl⟩ := hdelete
      exact hdeleted _ ih

theorem tracked_of_reachable (h : Reachable (fun _ _ _ => True) s) : Tracked s := by
  obtain ⟨hs, hrows⟩ := h.rows (I := fun rows => WellFormed rows ∧ ∀ t ∈ rows, t.blocked = false)
    ⟨WellFormed.nil, fun _ ht => absurd ht List.not_mem_nil⟩ fun _ _ hI hstep =>
      ⟨hstep.wellFormed (hI _).1, hstep.unflagged (hI _).2⟩
  exact ⟨hs, fun sc => (hrows sc).1, fun sc => (hrows sc).2⟩

theorem Tracked.run {env : Env} (h : Tracked s) (op : Op) (hrun : op.run env s = .ok s') : Tracked s' := by
  obtain ⟨hs', hrows⟩ := op.run_rows h.distinct hrun
  exact ⟨hs', fun sc => (hrows sc).wellFormed (h.wellFormed sc), fun sc => (hrows sc).unflagged (h.unflagged sc)⟩

theorem Tracked.get_of_mem (h : Tracked s) (ht : t ∈ s.loadScope sc) :
    get s t.id = .ok { t with blocked := isBlocked t (s.loadScope sc) } := by
  obtain ⟨hmem, rfl⟩ := mem_loadScope.mp ht
  unfold get
  rw [getRaw_of_mem h.distinct hmem]
  by_cases hdeps : t.dependsOn = []
  · have hblocked : isBlocked t (s.loadScope t.scopeOf) = t.blocked := by
      rw [h.unflagged _ t ht, isBlocked, hdeps]
      rfl
    rw [hblocked]
    exact if_pos hdeps
  · exact if_neg hdeps

theorem Tracked.blockedFlag_of_mem (h : Tracked s) (ht : t ∈ s.loadScope sc) :
    blockedFlag s t.id = some (isBlocked t (s.loadScope sc)) := by
  rw [blockedFlag, h.get_of_mem ht]

/-- A task with a flag is a row of some scope. -/
theorem mem_of_blockedFlag {id : Int} {flag : Bool} (h : blockedFlag s id = some flag) :
    ∃ sc, ∃ t ∈ s.loadScope sc, t.id = id := by
  unfold blockedFlag at h
  split at h
  · rename_i task htask
    obtain ⟨t, ht, hid⟩ := List.mem_map.mp (get_isOk.mp ⟨task, htask⟩)
    exact ⟨t.scopeOf, t, mem_loadScope.mpr ⟨ht, rfl⟩, hid⟩
  · cases h

theorem Tracked.flagsAgree (h : Tracked s) (ht : t ∈ s.loadScope sc) : FlagsAgree s sc t := by
  refine ⟨isBlocked t (s.loadScope sc), h.get_of_mem ht, mem_list.mpr ⟨t, ht, rfl⟩, fun u hu hid => ?_,
    fun hopen => mem_openList.mpr ⟨t, ht, hopen, rfl⟩, (mem_blockedIds (h.wellFormed sc).nodup ht).symm⟩
  obtain ⟨row, hrow, rfl⟩ := mem_list.mp hu
  obtain rfl : row = t := List.inj_on_of_nodup_map (h.wellFormed sc).nodup hrow ht hid
  rfl

end Flags

/-! ## The difference of two snapshots -/

section Diff

variable {rows before after : List Task} {t : Task} {s s' s'' : Store} {sc : Scope} {events : List TaskEvent}

/-- With one event a row at most, under the row's id, the events of a row are counted at that row. -/
theorem countP_filterMap_of_mem (hnd : (rows.map (·.id)).Nodup) (ht : t ∈ rows)
    {g : Task → Option TaskEvent} (hg : ∀ u e, g u = some e → e.taskId = u.id) (kind : TaskEventKind) :
    (rows.filterMap g).countP (fun e => e.kind = kind && e.taskId = t.id) =
      ((g t).toList).countP (fun e => e.kind = kind) := by
  induction rows with
  | nil => exact absurd ht List.not_mem_nil
  | cons u rows ih =>
    rw [List.map_cons, List.nodup_cons] at hnd
    have hsplit : (u :: rows).filterMap g = (g u).toList ++ rows.filterMap g := by
      cases hu : g u <;> simp [hu]
    rw [hsplit, List.countP_append]
    rcases List.mem_cons.mp ht with rfl | ht
    · have hrest : (rows.filterMap g).countP (fun e => e.kind = kind && e.taskId = t.id) = 0 := by
        rw [List.countP_eq_zero]
        intro e he
        obtain ⟨v, hv, hgv⟩ := List.mem_filterMap.mp he
        have hne : e.taskId ≠ t.id := fun heq =>
          hnd.1 (List.mem_map.mpr ⟨v, hv, (hg v e hgv).symm.trans heq⟩)
        simp [hne]
      have hhead : ((g t).toList).countP (fun e => e.kind = kind && e.taskId = t.id) =
          ((g t).toList).countP (fun e => e.kind = kind) := by
        refine List.countP_congr fun e he => ?_
        simp [hg t e (Option.mem_toList.mp he)]
      rw [hrest, hhead, Nat.add_zero]
    · have hhead : ((g u).toList).countP (fun e => e.kind = kind && e.taskId = t.id) = 0 := by
        rw [List.countP_eq_zero]
        intro e he
        have hne : e.taskId ≠ t.id := fun heq =>
          hnd.1 (List.mem_map.mpr ⟨t, ht, heq.symm.trans (hg u e (Option.mem_toList.mp he))⟩)
        simp [hne]
      rw [hhead, Nat.zero_add]
      exact ih hnd.2 ht

theorem blockTransition_id {u : Task} {e : TaskEvent} (h : blockTransition before after u = some e) :
    e.taskId = u.id := by
  unfold blockTransition at h
  split_ifs at h <;> cases h <;> rfl

/-- What the loop publishes for a row that was there before. -/
theorem countP_blockTransition {u : Task} (hbefore : (before.map (·.id)).Nodup)
    (hafter : (after.map (·.id)).Nodup) (ht : t ∈ after) (hu : u ∈ before) (hid : u.id = t.id)
    (kind : TaskEventKind) : ((blockTransition before after t).toList).countP (fun e => e.kind = kind) =
      if isBlocked u before = !kind.flag ∧ isBlocked t after = kind.flag then 1 else 0 := by
  have hwas : t.id ∈ blockedIds before ↔ isBlocked u before = true := by
    rw [← hid]
    exact mem_blockedIds hbefore hu
  have hnow := mem_blockedIds hafter ht
  have hexisted : ¬ t.id ∉ before.map (·.id) := not_not.mpr (List.mem_map.mpr ⟨u, hu, hid⟩)
  rw [blockTransition, if_neg hexisted]
  simp only [hwas, hnow]
  cases isBlocked u before <;> cases isBlocked t after <;> cases kind <;> rfl

/-- A diff of one scope is exact when the other scopes are as they were. -/
theorem eventsExact_emit (hs : Tracked s) (hs' : Tracked s')
    (hother : ∀ sc', sc' ≠ sc → s'.loadScope sc' = s.loadScope sc') :
    EventsExact s s' (emitBlockTransitions (s.loadScope sc) (s'.loadScope sc)) := by
  intro kind id
  have hnd' := (hs'.wellFormed sc).nodup
  by_cases hmem' : ∃ t ∈ s'.loadScope sc, t.id = id
  · obtain ⟨t, ht, rfl⟩ := hmem'
    rw [emitBlockTransitions, countP_filterMap_of_mem hnd' ht fun _ _ => blockTransition_id]
    by_cases hmem : ∃ u ∈ s.loadScope sc, u.id = t.id
    · obtain ⟨u, hu, hid⟩ := hmem
      rw [countP_blockTransition (hs.wellFormed sc).nodup hnd' ht hu hid, hs'.blockedFlag_of_mem ht, ← hid,
        hs.blockedFlag_of_mem hu]
      simp only [Option.some.injEq]
    · -- a new row: in no other scope before
      have hnone : blockTransition (s.loadScope sc) (s'.loadScope sc) t = none := by
        refine if_pos fun hin => hmem ?_
        obtain ⟨u, hu, hid⟩ := List.mem_map.mp hin
        exact ⟨u, hu, hid⟩
      have hflag : ¬ blockedFlag s t.id = some (!kind.flag) := fun hflag => by
        obtain ⟨sc', u, hu, hid⟩ := mem_of_blockedFlag hflag
        by_cases hsc : sc' = sc
        · exact hmem ⟨u, hsc ▸ hu, hid⟩
        · exact hsc (hs'.distinct.scope_eq (hother sc' hsc ▸ hu) ht hid)
      rw [hnone, if_neg fun hboth => hflag hboth.1]
      rfl
  · have hzero : (emitBlockTransitions (s.loadScope sc) (s'.loadScope sc)).countP
        (fun e => e.kind = kind && e.taskId = id) = 0 := by
      rw [List.countP_eq_zero]
      intro e he
      obtain ⟨u, hu, hgu⟩ := List.mem_filterMap.mp he
      have hne : e.taskId ≠ id := fun heq => hmem' ⟨u, hu, (blockTransition_id hgu).symm.trans heq⟩
      simp [hne]
    rw [hzero, if_neg]
    rintro ⟨hwas, hnow⟩
    obtain ⟨sc', u, hu, rfl⟩ := mem_of_blockedFlag hnow
    by_cases hsc : sc' = sc
    · exact hmem' ⟨u, hsc ▸ hu, rfl⟩
    · have hu' : u ∈ s.loadScope sc' := hother sc' hsc ▸ hu
      rw [hs.blockedFlag_of_mem hu', ← hother sc' hsc, ← hs'.blockedFlag_of_mem hu, hnow] at hwas
      cases kind <;> simp [TaskEventKind.flag] at hwas

/-! ## Calls that change no flag -/

/-- Every task that is there afterwards and was there before has the flag it had. -/
def FlagsKept (s s' : Store) : Prop :=
  ∀ id, blockedFlag s id = none ∨ blockedFlag s' id = none ∨ blockedFlag s' id = blockedFlag s id

theorem FlagsKept.exact (h : FlagsKept s s') : EventsExact s s' [] := by
  intro kind id
  rw [List.countP_nil, if_neg]
  rintro ⟨hwas, hnow⟩
  rcases h id with hnone | hnone | hsame
  · rw [hnone] at hwas
    cases hwas
  · rw [hnone] at hnow
    cases hnow
  · rw [hsame, hwas] at hnow
    cases kind <;> simp [TaskEventKind.flag] at hnow

/-- Where no flag changed, an exact account is empty. -/
theorem EventsExact.eq_nil (h : EventsExact s s' events) (hkept : FlagsKept s s') : events = [] := by
  refine List.eq_nil_iff_forall_not_mem.mpr fun e he => ?_
  have hcount := h e.kind e.taskId
  rw [← hkept.exact e.kind e.taskId, List.countP_nil, List.countP_eq_zero] at hcount
  simpa using hcount e he

/-- It is enough to compare each row left with the one it comes from. -/
theorem flagsKept_of_rows (hs : Tracked s) (hs' : Tracked s')
    (h : ∀ sc, ∀ t' ∈ s'.loadScope sc, (∀ t ∈ s.tasks, t.id ≠ t'.id) ∨
      ∃ t ∈ s.loadScope sc, t.id = t'.id ∧ isBlocked t' (s'.loadScope sc) = isBlocked t (s.loadScope sc)) :
    FlagsKept s s' := by
  intro id
  cases hnow : blockedFlag s' id with
  | none => exact .inr (.inl rfl)
  | some now =>
    obtain ⟨sc, t', ht', rfl⟩ := mem_of_blockedFlag hnow
    rcases h sc t' ht' with hnew | ⟨t, ht, hid, hsame⟩
    · cases hwas : blockedFlag s t'.id with
      | none => exact .inl rfl
      | some was =>
        obtain ⟨sc', t, ht, hid⟩ := mem_of_blockedFlag hwas
        exact absurd hid (hnew t (mem_loadScope.mp ht).1)
    · refine .inr (.inr ?_)
      rw [← hnow, hs'.blockedFlag_of_mem ht', hsame, ← hid, hs.blockedFlag_of_mem ht]

/-- A map that keeps ids, openness and dependencies keeps the flags. -/
theorem isBlocked_map {f : Task → Task} (hid : ∀ t, (f t).id = t.id)
    (hopen : ∀ t ∈ rows, isOpen (f t) = isOpen t) (hdeps : (f t).dependsOn = t.dependsOn) :
    isBlocked (f t) (rows.map f) = isBlocked t rows := by
  unfold isBlocked
  rw [hdeps]
  congr 1
  funext d
  rw [findTask_map hid]
  cases hfind : findTask rows d with
  | none => rfl
  | some u => exact hopen u (findTask_some hfind).1

end Diff

/-! ## One call -/

section Calls

variable {env : Env} {s s' : Store} {events : List TaskEvent}

/-- A new row is named by no other. -/
theorem create_flagsKept {new : NewTask} {t : Task} (hs : Tracked s) (h : create env s new = .ok (s', t)) :
    FlagsKept s s' := by
  have hs' : Tracked s' := hs.run (.create new) (map_eq_ok.mpr ⟨_, h, rfl⟩)
  obtain ⟨new', -, h⟩ := bind_eq_ok.mp h
  obtain ⟨⟨⟩, -, h⟩ := bind_eq_ok.mp h
  obtain ⟨s₁, hinsert, h⟩ := bind_eq_ok.mp h
  obtain ⟨⟨⟩, -, hinsert⟩ := bind_eq_ok.mp hinsert
  cases h
  cases hinsert
  have hfresh : ∀ u ∈ s.tasks, u.id ≠ s.seq + 1 := fun u hu heq => by
    have := hs.distinct.le_seq u hu
    omega
  refine flagsKept_of_rows hs hs' fun sc t' ht' => ?_
  have hnd' := (hs'.wellFormed sc).nodup
  rw [loadScope_insert] at ht' hnd' ⊢
  have hnew : ∀ u ∈ [new'.toRow (s.seq + 1) env.now].filter (·.inScope sc), u.id = s.seq + 1 := by
    intro u hu
    rw [List.mem_singleton.mp (List.mem_of_mem_filter hu)]
    rfl
  rcases List.mem_append.mp ht' with ht | ht
  · refine .inr ⟨t', ht, rfl, Bool.eq_iff_iff.mpr ?_⟩
    rw [isBlocked_iff hnd', isBlocked_iff (hs.wellFormed sc).nodup]
    constructor
    · rintro ⟨u, hu, hopen, hd⟩
      rcases List.mem_append.mp hu with hu | hu
      · exact ⟨u, hu, hopen, hd⟩
      · obtain ⟨v, hv, hid⟩ := (hs.wellFormed sc).dep_mem t' ht u.id hd
        exact absurd (hid.trans (hnew u hu)) (hfresh v (mem_loadScope.mp hv).1)
    · rintro ⟨u, hu, hopen, hd⟩
      exact ⟨u, List.mem_append_left _ hu, hopen, hd⟩
  · rw [hnew t' ht]
    exact .inl hfresh

/-- A patch that names dependencies reports them. -/
theorem applyPatch_notes {task : Task} {patch : TaskPatch} {p : Patched} (h : applyPatch env task patch = .ok p)
    (hdeps : patch.dependsOn ≠ none) : "depends_on" ∈ p.2 := by
  obtain ⟨p₁, -, h⟩ := bind_eq_ok.mp h
  obtain ⟨p₂, -, h⟩ := bind_eq_ok.mp h
  obtain ⟨p₃, h₃, h₄⟩ := bind_eq_ok.mp h
  have hnoted : "depends_on" ∈ p₃.2 := by
    rcases patchField_ok h₃ with ⟨hnone, -⟩ | ⟨_, _, -, -, rfl⟩
    · exact absurd hnone hdeps
    · exact mem_note.mpr (.inr ⟨rfl, rfl⟩)
  rcases patchField_ok h₄ with ⟨-, rfl⟩ | ⟨_, _, -, -, rfl⟩
  · exact hnoted
  · show "depends_on" ∈ note p₃.2 "parent_id" true
    exact mem_note.mpr (.inl hnoted)

theorem updateEvents_exact {id : Int} {patch : TaskPatch} (hs : Tracked s)
    (h : updateEvents env s id patch = .ok (s', events)) : EventsExact s s' events := by
  obtain ⟨task, hget, h⟩ := bind_eq_ok.mp h
  obtain ⟨p, hprep, h⟩ := bind_eq_ok.mp h
  obtain ⟨⟨s₁, t⟩, hupdate, h⟩ := bind_eq_ok.mp h
  cases h
  obtain ⟨htask, rfl⟩ := getRaw_ok hget
  obtain ⟨p', hpatch, hprep⟩ := bind_eq_ok.mp hprep
  obtain ⟨⟨⟩, -, hprep⟩ := bind_eq_ok.mp hprep
  cases hprep
  have hs' : Tracked s' := hs.run (.update task.id patch) (map_eq_ok.mpr ⟨_, hupdate, rfl⟩)
  obtain ⟨-, -, task', htask', hid, q, hq, -, hload⟩ := update_loadScope hs.distinct hupdate
  obtain rfl : task' = task := hs.distinct.unique htask' htask hid
  obtain rfl : q = p' := Except.ok.inj (hq.symm.trans hpatch)
  have hspec := applyPatch_spec hpatch
  have hscope : q.1.scopeOf = task'.scopeOf := hspec.scopeOf
  split_ifs with hchanged
  · refine eventsExact_emit hs hs' fun sc hsc => ?_
    exact (hload sc).trans (if_neg fun heq => hsc (heq.trans hscope.symm))
  · -- neither the status nor the dependencies moved
    obtain ⟨hstatus, hdeps⟩ := not_or.mp hchanged
    have hstatus' : q.1.status = task'.status := not_not.mp fun hne => hstatus (hspec.changed.mpr hne)
    have hdeps' : q.1.dependsOn = task'.dependsOn := by
      rw [hspec.dependsOn, not_not.mp fun hsome => hdeps (applyPatch_notes hpatch hsome), Option.getD_none]
    have hcancels : ¬ cancels q = true := by simp [cancels, hstatus]
    refine (flagsKept_of_rows hs hs' fun sc t' ht' => .inr ?_).exact
    rw [hload sc] at ht' ⊢
    by_cases hsc : sc = task'.scopeOf
    · rw [if_pos hsc, if_neg hcancels] at ht' ⊢
      have hrow : ∀ t ∈ s.loadScope sc, t.id = q.1.id → t = task' := fun t ht heq =>
        hs.distinct.unique (mem_loadScope.mp ht).1 htask (heq.trans hspec.id)
      obtain ⟨t, ht, rfl⟩ := List.mem_map.mp ht'
      refine ⟨t, ht, (patchedRow_id env.now q.1 t).symm,
        isBlocked_map (patchedRow_id env.now q.1) (fun u hu => ?_) ?_⟩
      · split_ifs with heq
        · rw [hrow u hu heq]
          exact congrArg (fun status : TaskStatus => !status.isClosed) hstatus'
        · rfl
      · split_ifs with heq
        · rw [hrow t ht heq]
          exact hdeps'
        · rfl
    · rw [if_neg hsc] at ht' ⊢
      exact ⟨t', ht', rfl, rfl⟩

theorem FlagsKept.refl (s : Store) : FlagsKept s s := fun _ => .inr (.inr rfl)

theorem completeEvents_exact {id : Int} (hs : Tracked s) (h : completeEvents env s id = .ok (s', events)) :
    EventsExact s s' events := by
  obtain ⟨task, hget, h⟩ := bind_eq_ok.mp h
  obtain ⟨⟨s₁, out⟩, hcomplete, h⟩ := bind_eq_ok.mp h
  cases h
  obtain ⟨htask, rfl⟩ := getRaw_ok hget
  have hs' : Tracked s' := hs.run (.complete task.id) (map_eq_ok.mpr ⟨_, hcomplete, rfl⟩)
  obtain ⟨-, task', htask', hid, hout, hdone, hopen⟩ := complete_loadScope hs.distinct hcomplete
  obtain rfl : task' = task := hs.distinct.unique htask' htask hid
  by_cases hstatus : task'.status = .done
  · rw [if_pos (hout.trans (decide_eq_true hstatus)), (hdone hstatus).1]
    exact (FlagsKept.refl s).exact
  · rw [if_neg (by rw [hout]; simpa using hstatus)]
    refine eventsExact_emit hs hs' fun sc hsc => ?_
    exact ((hopen hstatus).2.2 sc).trans (if_neg hsc)

theorem reopenEvents_exact {id : Int} (hs : Tracked s) (h : reopenEvents env s id = .ok (s', events)) :
    EventsExact s s' events := by
  obtain ⟨task, hget, h⟩ := bind_eq_ok.mp h
  obtain ⟨⟨s₁, t⟩, hreopen, h⟩ := bind_eq_ok.mp h
  cases h
  obtain ⟨htask, rfl⟩ := getRaw_ok hget
  have hs' : Tracked s' := hs.run (.reopen task.id) (map_eq_ok.mpr ⟨_, hreopen, rfl⟩)
  obtain ⟨-, task', htask', hid, hopen, hclosed⟩ := reopen_loadScope hs.distinct hreopen
  obtain rfl : task' = task := hs.distinct.unique htask' htask hid
  split_ifs with hstatus
  · exact eventsExact_emit hs hs' fun sc hsc => (hclosed hstatus sc).trans (if_neg hsc)
  · rw [hopen (Bool.eq_false_iff.mpr hstatus)]
    exact (FlagsKept.refl s).exact

theorem deleteEvents_exact {id : Int} (hs : Tracked s) (h : deleteEvents env s id = .ok (s', events)) :
    EventsExact s s' events := by
  obtain ⟨task, hget, h⟩ := bind_eq_ok.mp h
  obtain ⟨⟨s₁, n⟩, hdelete, h⟩ := bind_eq_ok.mp h
  cases h
  obtain ⟨htask, rfl⟩ := getRaw_ok hget
  have hs' : Tracked s' := hs.run (.delete task.id) (map_eq_ok.mpr ⟨_, hdelete, rfl⟩)
  obtain ⟨-, task', htask', hid, hload⟩ := delete_loadScope hs.distinct hdelete
  obtain rfl : task' = task := hs.distinct.unique htask' htask hid
  exact eventsExact_emit hs hs' fun sc hsc => (hload sc).trans (if_neg hsc)

/-! ## Clearing the closed tasks -/

/-- A chain of parents stays among the rows. -/
theorem row_of_up {rows : List Task} (hw : WellFormed rows) {t : Task} {a : Int} {k : Nat} (ht : t ∈ rows)
    (h : Up (parentOf rows) k t.id a) : ∃ u ∈ rows, u.id = a := by
  generalize hid : t.id = x at h
  induction h generalizing t with
  | here => exact ⟨t, ht, hid⟩
  | step hparent _ ih =>
    rw [← hid, parentOf_of_mem hw.nodup ht] at hparent
    obtain ⟨u, hu, huid⟩ := hw.parent_mem t ht _ hparent
    exact ih hu huid

/-- What is left of the rows of `clear` keeps its place. -/
def LeftOf (rows rows' : List Task) : Prop :=
  ∀ t ∈ rows', ∃ u ∈ rows, u.id = t.id ∧ u.parentId = t.parentId ∧ u.status = t.status

/-- Deleting closed tasks frees nothing. -/
theorem delete_flagsKept {id : Int} {n : Nat} (hs : Tracked s) (h : delete env s id = .ok (s', n))
    (hclosed : ∀ sc, ∀ u ∈ s.loadScope sc, u.id ∈ subtreeIdsFrom (s.loadScope sc) id → isOpen u = false) :
    ∀ x, blockedFlag s' x = none ∨ blockedFlag s' x = blockedFlag s x := by
  have hs' : Tracked s' := hs.run (.delete id) (map_eq_ok.mpr ⟨_, h, rfl⟩)
  obtain ⟨-, task, -, -, hload⟩ := delete_loadScope hs.distinct h
  intro x
  cases hnow : blockedFlag s' x with
  | none => exact .inl rfl
  | some now =>
    refine .inr ?_
    obtain ⟨sc, t', ht', rfl⟩ := mem_of_blockedFlag hnow
    have hnd := (hs.wellFormed sc).nodup
    have hnd' := (hs'.wellFormed sc).nodup
    rw [← hnow, hs'.blockedFlag_of_mem ht']
    have hrows := hload sc
    split_ifs at hrows with hsc
    · rw [hrows] at ht' hnd' ⊢
      obtain ⟨t, ht, hkeep, rfl⟩ := mem_deletedRows.mp ht'
      obtain ⟨-, -, hdeps⟩ := deletedRow env.now hnd (subtreeIdsFrom (s.loadScope sc) id) ht hkeep
      rw [rewriteRow_id, hs.blockedFlag_of_mem ht]
      refine congrArg some (Bool.eq_iff_iff.mpr ?_)
      rw [isBlocked_iff hnd', isBlocked_iff hnd]
      constructor
      · rintro ⟨u', hu', hopen, hd⟩
        obtain ⟨u, hu, hukeep, rfl⟩ := mem_deletedRows.mp hu'
        obtain ⟨-, hstatus, -⟩ := deletedRow env.now hnd (subtreeIdsFrom (s.loadScope sc) id) hu hukeep
        rw [rewriteRow_id] at hd
        rw [isOpen, hstatus] at hopen
        exact ⟨u, hu, hopen, ((hdeps u.id).mp hd).1⟩
      · rintro ⟨u, hu, hopen, hd⟩
        have hukeep : u.id ∉ subtreeIdsFrom (s.loadScope sc) id := fun hin => by
          rw [hclosed sc u hu hin] at hopen
          cases hopen
        obtain ⟨-, hstatus, -⟩ := deletedRow env.now hnd (subtreeIdsFrom (s.loadScope sc) id) hu hukeep
        refine ⟨_, mem_deletedRows.mpr ⟨u, hu, hukeep, rfl⟩, ?_, ?_⟩
        · rw [isOpen, hstatus]
          exact hopen
        · rw [rewriteRow_id]
          exact (hdeps u.id).mpr ⟨hd, hukeep⟩
    · rw [hrows] at ht' ⊢
      exact (hs.blockedFlag_of_mem ht').symm

/-- The subtree of a closed target without open descendants is closed in what is left of the scope. -/
theorem closed_of_leftOf {rows rows' : List Task} {target : Task} (hnd : (rows.map (·.id)).Nodup)
    (hnd' : (rows'.map (·.id)).Nodup) (hleft : LeftOf rows rows') (htarget : target ∈ rows)
    (hstatus : target.status.isClosed = true) (hnone : hasOpenDescendant rows target.id = false) :
    ∀ u ∈ rows', u.id ∈ subtreeIdsFrom rows' target.id → isOpen u = false := by
  intro u hu hin
  obtain ⟨v, hv, hid, -, hvstatus⟩ := hleft u hu
  have hopen : isOpen u = isOpen v := by rw [isOpen, isOpen, hvstatus]
  have hup : ∀ a b, parentOf rows' a = some b → parentOf rows a = some b := by
    intro a b hab
    obtain ⟨t, ht, rfl, hparent⟩ := parentOf_some hab
    obtain ⟨w, hw, hwid, hwparent, -⟩ := hleft t ht
    rw [← hwid, parentOf_of_mem hnd hw, hwparent, hparent]
  obtain ⟨k, hk⟩ := (mem_subtreeIdsFrom hnd').mp hin
  have hin' : v.id ∈ subtreeIdsFrom rows target.id :=
    (mem_subtreeIdsFrom hnd).mpr ⟨k, hid ▸ hk.mono hup⟩
  rw [hopen]
  by_cases hself : v.id = target.id
  · obtain rfl : v = target := List.inj_on_of_nodup_map hnd hv htarget hself
    simp [isOpen, hstatus]
  · have hmember := List.any_eq_false.mp hnone v.id hin'
    simpa [hself, findTask_of_mem hnd hv] using hmember

theorem clearEventsFrom_closed {sc : Scope} {rows : List Task} (hnd : (rows.map (·.id)).Nodup) :
    ∀ (targets : List Task) {s s' : Store} {events : List TaskEvent},
      clearEventsFrom env rows true targets s = .ok (s', events) → Tracked s →
      LeftOf rows (s.loadScope sc) → (∀ t ∈ targets, t ∈ rows ∧ t.status.isClosed = true) →
      (∀ t ∈ targets, ∀ u ∈ s.tasks, u.id = t.id → u.scopeOf = sc) →
      events = [] ∧ ∀ x, blockedFlag s' x = none ∨ blockedFlag s' x = blockedFlag s x
  | [], s, s', events, h, _, _, _, _ => by
    cases h
    exact ⟨rfl, fun _ => .inr rfl⟩
  | target :: targets, s, s', events, h, hs, hleft, htargets, hscope => by
    have hrest := fun t ht => htargets t (List.mem_cons_of_mem _ ht)
    have hscopes := fun t ht => hscope t (List.mem_cons_of_mem _ ht)
    unfold clearEventsFrom at h
    split_ifs at h with hskip
    · exact clearEventsFrom_closed hnd targets h hs hleft hrest hscopes
    · split at h
      · exact clearEventsFrom_closed hnd targets h hs hleft hrest hscopes
      · obtain ⟨⟨s₁, events₁⟩, hevents, h⟩ := bind_eq_ok.mp h
        obtain ⟨⟨s₂, events₂⟩, hall, h⟩ := bind_eq_ok.mp h
        cases h
        obtain ⟨row, hget, hemit⟩ := bind_eq_ok.mp hevents
        obtain ⟨⟨s₁', n⟩, hdelete, heq⟩ := bind_eq_ok.mp hemit
        cases heq
        obtain ⟨hrow, hid⟩ := getRaw_ok hget
        obtain ⟨htarget, hstatus⟩ := htargets target List.mem_cons_self
        have hsc : row.scopeOf = sc := hscope target List.mem_cons_self row hrow hid
        have hs₁ : Tracked s₁ := hs.run (.delete target.id) (map_eq_ok.mpr ⟨_, hdelete, rfl⟩)
        obtain ⟨-, task, htask, htaskId, hload⟩ := delete_loadScope hs.distinct hdelete
        obtain rfl : task = row := hs.distinct.unique htask hrow (htaskId.trans hid.symm)
        have hclosed : ∀ sc', ∀ u ∈ s.loadScope sc', u.id ∈ subtreeIdsFrom (s.loadScope sc') target.id →
            isOpen u = false := by
          intro sc' u hu hin
          by_cases hsc' : sc' = sc
          · subst hsc'
            exact closed_of_leftOf hnd (hs.wellFormed sc').nodup hleft htarget hstatus
              (by simpa using hskip) u hu hin
          · -- the target is in another scope
            have htaskIn : task ∈ s.loadScope sc := mem_loadScope.mpr ⟨hrow, hsc⟩
            obtain ⟨k, hk⟩ := (mem_subtreeIdsFrom (hs.wellFormed sc').nodup).mp hin
            obtain ⟨v, hv, hvid⟩ := row_of_up (hs.wellFormed sc') hu hk
            exact absurd (hs.distinct.scope_eq hv htaskIn (hvid.trans hid.symm)) hsc'
        have hkept := delete_flagsKept hs hdelete hclosed
        have hnothing := (deleteEvents_exact hs hevents).eq_nil fun x => .inr (hkept x)
        have hleft₁ : LeftOf rows (s₁.loadScope sc) := by
          intro t' ht'
          rw [hload sc, if_pos hsc.symm] at ht'
          obtain ⟨t, ht, hkeep, rfl⟩ := mem_deletedRows.mp ht'
          obtain ⟨hparent, hstatus', -⟩ := deletedRow env.now (hs.wellFormed sc).nodup _ ht hkeep
          rw [rewriteRow_id, hparent, hstatus']
          exact hleft t ht
        obtain ⟨hrestEvents, hrestKept⟩ := clearEventsFrom_closed hnd targets hall hs₁ hleft₁ hrest
          fun t ht u hu hut => by
            obtain ⟨v, hv, hvid, hvsc⟩ := delete_tasks hs.distinct hdelete u hu
            rw [← hvsc]
            exact hscopes t ht v hv (hvid.trans hut)
        refine ⟨by rw [hnothing, hrestEvents, List.append_nil], fun x => ?_⟩
        rcases hrestKept x with hgone | hsame
        · exact .inl hgone
        · rcases hkept x with hgone | hfirst
          · exact .inl (hsame.trans hgone)
          · exact .inr (hsame.trans hfirst)

theorem clearEvents_exact {sc : Scope} (hs : Tracked s)
    (h : (Op.clear sc true).runEvents env s = .ok (s', events)) : EventsExact s s' events := by
  have htargets : ∀ t ∈ clearTargets (s.loadScope sc) true, t ∈ s.loadScope sc ∧ t.status.isClosed = true := by
    intro t ht
    obtain ⟨hrow, hstatus⟩ := List.mem_filter.mp ((List.perm_insertionSort _ _).mem_iff.mp ht)
    exact ⟨hrow, by simpa using hstatus⟩
  obtain ⟨rfl, hkept⟩ := clearEventsFrom_closed (hs.wellFormed sc).nodup _ h hs
    (fun t ht => ⟨t, ht, rfl, rfl, rfl⟩) htargets fun t ht u hu hid => by
      obtain ⟨hmem, hsc⟩ := mem_loadScope.mp (htargets t ht).1
      rw [hs.distinct.unique hu hmem hid, hsc]
  exact FlagsKept.exact fun x => .inr (hkept x)

/-! ## Every call -/

theorem clearEventsFrom_run {rows : List Task} {closedOnly : Bool} : ∀ (targets : List Task) (acc : Store × Nat),
    (·.1) <$> targets.foldlM (clearTarget env rows closedOnly) acc =
      (·.1) <$> clearEventsFrom env rows closedOnly targets acc.1
  | [], acc => rfl
  | target :: targets, acc => by
    rw [List.foldlM_cons, clearTarget, clearEventsFrom]
    split_ifs
    · exact clearEventsFrom_run targets acc
    · cases hget : acc.1.getRaw target.id with
      | error e => exact clearEventsFrom_run targets acc
      | ok row =>
        cases hdelete : delete env acc.1 target.id with
        | error e => simp [deleteEvents, hget, hdelete, bind, Except.bind]
        | ok out =>
          have hrest := @clearEventsFrom_run rows closedOnly targets (out.1, acc.2 + out.2)
          simp only [deleteEvents, hget, hdelete, bind, Except.bind]
          cases hall : clearEventsFrom env rows closedOnly targets out.1 with
          | error e => rw [hall] at hrest; exact hrest
          | ok rest => rw [hall] at hrest; exact hrest

/-- The events come with the store the call leaves. -/
theorem Op.run_eq_runEvents (op : Op) : op.run env s = (·.1) <$> op.runEvents env s := by
  cases op with
  | create new =>
    show (·.1) <$> Tasks.create env s new = _
    simp only [Op.runEvents]
    cases Tasks.create env s new <;> rfl
  | update id patch =>
    show (·.1) <$> Tasks.update env s id patch = (·.1) <$> updateEvents env s id patch
    unfold updateEvents
    cases hget : s.getRaw id with
    | error e => simp [Tasks.update, hget, bind, Except.bind]
    | ok task =>
      cases hprep : preparePatch env task patch with
      | error e => simp [Tasks.update, hget, hprep, bind, Except.bind]
      | ok p =>
        cases hupdate : Tasks.update env s id patch <;> simp [hprep, bind, Except.bind]
  | complete id =>
    show (·.1) <$> Tasks.complete env s id = (·.1) <$> completeEvents env s id
    unfold completeEvents
    cases hget : s.getRaw id with
    | error e => simp [Tasks.complete, hget, bind, Except.bind]
    | ok task => cases hcomplete : Tasks.complete env s id <;> simp [bind, Except.bind]
  | reopen id =>
    show (·.1) <$> Tasks.reopen env s id = (·.1) <$> reopenEvents env s id
    unfold reopenEvents
    cases hget : s.getRaw id with
    | error e => simp [Tasks.reopen, hget, bind, Except.bind]
    | ok task => cases hreopen : Tasks.reopen env s id <;> simp [bind, Except.bind]
  | delete id =>
    show (·.1) <$> Tasks.delete env s id = (·.1) <$> deleteEvents env s id
    unfold deleteEvents
    cases hget : s.getRaw id with
    | error e => simp [Tasks.delete, hget, bind, Except.bind]
    | ok task => cases hdelete : Tasks.delete env s id <;> simp [bind, Except.bind]
  | clear sc closedOnly => exact clearEventsFrom_run _ _

/-- **Main result.** In every reachable store, a call other than the clear of a whole scope publishes
exactly one event of the matching kind for each task that is there before and after and whose derived
flag changed, and none for another; and the three derivations of the flag agree for every task. -/
theorem block_events_exact (env : Env) (s : Store) (h : Reachable (fun _ _ _ => True) s) :
    (∀ (op : Op) (s' : Store), (∀ sc, op ≠ .clear sc false) → op.run env s = .ok s' →
      ∃ events, op.runEvents env s = .ok (s', events) ∧ EventsExact s s' events) ∧
      ∀ sc, ∀ t ∈ s.loadScope sc, FlagsAgree s sc t := by
  have hs := tracked_of_reachable h
  refine ⟨fun op s' hop hrun => ?_, fun sc t ht => hs.flagsAgree ht⟩
  rw [op.run_eq_runEvents] at hrun
  obtain ⟨⟨_, events⟩, hevents, rfl⟩ := map_eq_ok.mp hrun
  refine ⟨events, hevents, ?_⟩
  cases op with
  | create new =>
    obtain ⟨⟨s₁, t⟩, hcreate, hrest⟩ := bind_eq_ok.mp hevents
    cases hrest
    exact (create_flagsKept hs hcreate).exact
  | update id patch => exact updateEvents_exact hs hevents
  | complete id => exact completeEvents_exact hs hevents
  | reopen id => exact reopenEvents_exact hs hevents
  | delete id => exact deleteEvents_exact hs hevents
  | clear sc closedOnly =>
    cases closedOnly with
    | false => exact absurd rfl (hop sc)
    | true => exact clearEvents_exact hs hevents

end Calls

/-- The completion of a dependency. -/
theorem block_events_exact_plan :
    let rows := [sampleRow 1 "A" none [], sampleRow 2 "B" none [1]]
    (∀ (op : Op) (s' : Store), (∀ sc, op ≠ .clear sc false) → op.run sampleEnv ⟨rows, 2⟩ = .ok s' →
      ∃ events, op.runEvents sampleEnv ⟨rows, 2⟩ = .ok (s', events) ∧ EventsExact ⟨rows, 2⟩ s' events) ∧
      ∀ sc, ∀ t ∈ Store.loadScope ⟨rows, 2⟩ sc, FlagsAgree ⟨rows, 2⟩ sc t := by
  intro rows
  have hrun : Op.runAll sampleEnv Store.empty
      [.create (sampleTask "A" none []), .create (sampleTask "B" none [1])] = .ok ⟨rows, 2⟩ := by decide
  exact block_events_exact sampleEnv ⟨rows, 2⟩ (Reachable.runAll .refl hrun)

/-- A scope of a task and its dependent is cleared: the dependent is reported free, and is gone. -/
theorem cleared_task_reported_free : ∃ (s s' : Store) (sc : Scope) (events : List TaskEvent),
    Reachable (fun _ _ _ => True) s ∧ (Op.clear sc false).run sampleEnv s = .ok s' ∧
      (Op.clear sc false).runEvents sampleEnv s = .ok (s', events) ∧ ¬ EventsExact s s' events := by
  let rows := [sampleRow 1 "A" none [], sampleRow 2 "B" none [1]]
  have hrun : Op.runAll sampleEnv Store.empty
      [.create (sampleTask "A" none []), .create (sampleTask "B" none [1])] = .ok ⟨rows, 2⟩ := by decide
  refine ⟨⟨rows, 2⟩, ⟨[], 2⟩, sampleScope, [⟨.unblocked, 2, "session", some "s", []⟩],
    Reachable.runAll .refl hrun, by decide, by decide, fun hexact => ?_⟩
  have hcount := hexact .unblocked 2
  revert hcount
  decide

end Nanna.Tasks
