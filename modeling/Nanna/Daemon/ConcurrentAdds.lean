import Nanna.Daemon.Contracts
import Nanna.Lib.Moves
import Nanna.Lib.Sections

/-!
# Concurrent calls of tasks.add

Any number of `tasks.add` calls on one store, each one section between two await points at a time (`step`); a
call that nothing comes between does what `taskAddService` does (`alone`).

`adds_idempotent`: as long as each task is inserted while every open sibling of its title was there when its
call listed the scope (`safe`), no two open siblings have one title, and a call that created nothing was given
an open task of the title, or one that the turn has closed. Between the list and the insert another call can
insert the title too (`racing_adds`), and then the insert makes a second copy (`twins_of_unsafe`).
-/

namespace Nanna.Daemon.ConcurrentAdds

open Nanna.Lib Nanna.Tasks

/-! ## One call -/

/-- Where a new task goes, and what its parent hands down. -/
structure Place where
  parentId : Option Int
  scope : Scope
  parentSort : Option Int
  parentAcceptance : Option Json

/-- What a call has read so far. -/
inductive Phase
  | starting
  | placed (place : Place)
  /-- The open items hold no task of the title. -/
  | listed (place : Place) (title : String) (openItems : List Task)
  | unclosed (place : Place) (title : String) (openItems : List Task)
  | built (new : NewTask) (openItems : List Task)
  | noted (new : NewTask) (openItems : List Task) (note : Option String)
  | checked (new : NewTask) (openItems : List Task) (note : Option String)
  | returned (reply : Except String AddReply)

def requestedTitle (params : Json) : Option String := (optString params "title").or (optString params "text")

def openSiblings (openItems : List Task) : Option Int → Nat
  | some parentId => (openItems.filter (·.parentId = some parentId)).length
  | none => 0

def placeOf (env : ServiceEnv) (params : Json) (s : Store) : Except String Place := do
  let parentId ← optI64 env.reading params "parent_id"
  let (scope, parentSort, parentAcceptance) ← addPlace env s params parentId
  .ok ⟨parentId, scope, parentSort, parentAcceptance⟩

/-- What `create` checks before it waits for the connection. -/
def createCheck (env : Env) (s : Store) (new : NewTask) : Result NewTask := do
  let new ← admitNewTask env new
  checkCreate (s.loadScope (new.scope, new.scopeId)) new
  .ok new

section Sections

variable (env : ServiceEnv) (params : Json) (s : Store)

/-- The next section of a call. The reads of `ladder_depth` are one section: no add changes a row that they
read. -/
def act : Phase → Except String (Store × Phase)
  | .starting => do
    let place ← placeOf env params s
    .ok (s, .placed place)
  | .placed place => do
    let title ← orError "title is required" (requestedTitle params)
    let openItems := list s place.scope false
    match openItems.find? fun t => t.parentId = place.parentId && sameTitle env.reading t.title title with
    | some existing => .ok (s, .returned (.ok (.reused existing (env.admits place.scope))))
    | none => .ok (s, .listed place title openItems)
  | .listed place title openItems =>
    match closedThisTurn env s place.scope title with
    | some closed => .ok (s, .returned (.ok (.closedThisTurn closed)))
    | none => .ok (s, .unclosed place title openItems)
  | .unclosed place title openItems => do
    let new ← newTask env s params place.parentId place.scope place.parentSort place.parentAcceptance title
    .ok (s, .built new openItems)
  | .built new openItems =>
    let note := decompositionNote (ladderDepth s new.parentId)
      (openSiblings openItems new.parentId) new.parentId
    .ok (s, .noted new openItems note)
  | .noted new openItems note => do
    let new ← stored (createCheck env.tasks s new)
    .ok (s, .checked new openItems note)
  | .checked new _ note => do
    let s' ← stored (createInsert env.tasks s new)
    .ok (s', .returned (.ok (.created (new.toRow s'.seq env.tasks.now) note)))
  | .returned reply => .ok (s, .returned reply)

end Sections

/-! ## Calls -/

structure Call where
  env : ServiceEnv
  params : Json
  phase : Phase

structure Adds where
  store : Store
  calls : List Call

inductive Act
  | begin_ (env : ServiceEnv) (params : Json)
  | advance (i : Nat)

/-- The calls of one process read text in one way. -/
def step (reading : Reading) (m : Adds) : Act → Option Adds
  | .begin_ env params => some { m with calls := m.calls ++ [⟨{ env with reading }, params, .starting⟩] }
  | .advance i => m.calls[i]?.map fun c =>
    let (store, phase) := resume (act c.env c.params) .returned m.store c.phase
    ⟨store, m.calls.set i { c with phase }⟩

/-- An open task of this parent and title. -/
def isTwin (reading : Reading) (parentId : Option Int) (title : String) (t : Task) : Bool :=
  isOpen t && t.parentId = parentId && sameTitle reading t.title title

/-- The open siblings of its title were there when the call listed the scope. -/
def Call.listedTwins (c : Call) (s : Store) (scope : Scope) : Bool :=
  match c.phase with
  | .checked new openItems _ => (new.scope, new.scopeId) ≠ scope || (s.loadScope scope).all fun t =>
    ! isTwin c.env.reading new.parentId new.title t || (openItems.map (·.id)).contains t.id
  | _ => true

/-- A task is inserted only while the list of its call is current for its title. -/
def safe (scope : Scope) (m : Adds) : Act → Bool
  | .begin_ _ _ => true
  | .advance i => m.calls[i]?.all fun c => c.listedTwins m.store scope

variable {env : ServiceEnv} {reading : Reading} {params : Json} {s s' : Store} {phase phase' : Phase}
  {scope : Scope} {new new' : NewTask} {openItems : List Task} {m m' : Adds} {now : String}

/-! ## A call alone -/

theorem createCheck_ok {tasks : Env} (h : createCheck tasks s new = .ok new') :
    new'.parentId = new.parentId ∧ (new'.scope, new'.scopeId) = (new.scope, new.scopeId) ∧
      new'.title = new.title := by
  obtain ⟨admitted, hadmitted, h⟩ := bind_eq_ok.mp h
  obtain ⟨⟨⟩, -, h⟩ := bind_eq_ok.mp h
  obtain ⟨⟨⟩, -, hadmitted⟩ := bind_eq_ok.mp hadmitted
  obtain ⟨acceptance, -, hadmitted⟩ := bind_eq_ok.mp hadmitted
  cases hadmitted
  cases h
  exact ⟨rfl, rfl, rfl⟩

theorem create_eq (env : Env) (s : Store) (new : NewTask) : create env s new = (do
    let new ← createCheck env s new
    let s' ← createInsert env s new
    .ok (s', new.toRow s'.seq env.now)) := by
  unfold create createCheck
  simp only [bind_assoc]
  rfl

/-- The service once no open task has the title. -/
def addListed (env : ServiceEnv) (params : Json) (s : Store) (place : Place) (title : String)
    (openItems : List Task) : Except String (Store × AddReply) :=
  match closedThisTurn env s place.scope title with
  | some closed => .ok (s, .closedThisTurn closed)
  | none => do
    let new ← newTask env s params place.parentId place.scope place.parentSort place.parentAcceptance title
    let note := decompositionNote (ladderDepth s place.parentId)
      (openSiblings openItems place.parentId) place.parentId
    let (s', task) ← stored (create env.tasks s new)
    .ok (s', .created task note)

/-- The service once the place is known. -/
def addPlaced (env : ServiceEnv) (params : Json) (s : Store) (place : Place) :
    Except String (Store × AddReply) := do
  let title ← orError "title is required" (requestedTitle params)
  let openItems := list s place.scope false
  match openItems.find? fun t => t.parentId = place.parentId && sameTitle env.reading t.title title with
  | some existing => .ok (s, .reused existing (env.admits place.scope))
  | none => addListed env params s place title openItems

theorem taskAddService_eq :
    taskAddService env s params = placeOf env params s >>= addPlaced env params s := by
  unfold placeOf taskAddService
  simp only [bind_assoc]
  rfl

theorem alone_listed {place : Place} {title : String} :
    Returns (act env params) .returned s (.listed place title openItems)
      (addListed env params s place title openItems) := by
  unfold addListed
  cases hclosed : closedThisTurn env s place.scope title with
  | some closed =>
    have hact : act env params s (.listed place title openItems) =
        .ok (s, .returned (.ok (.closedThisTurn closed))) := by
      rw [act, hclosed]
    exact .next hact (.done _)
  | none =>
    have hact : act env params s (.listed place title openItems) =
        .ok (s, .unclosed place title openItems) := by
      rw [act, hclosed]
    refine .next hact (.bind rfl fun new hnew => ⟨_, rfl, ?_⟩)
    obtain ⟨hparent, -, -⟩ := newTask_ok hnew
    rw [← hparent, create_eq, stored_bind, bind_assoc]
    refine .next rfl (.bind rfl fun checked _ => ⟨_, rfl, ?_⟩)
    cases hinsert : createInsert env.tasks s checked with
    | error e =>
      refine .fail ?_
      rw [act, hinsert]
      rfl
    | ok inserted =>
      refine .write ?_ (.done _)
      rw [act, hinsert]
      rfl

/-- Without another call in between, the sections of a call are the service. -/
theorem alone : Returns (act env params) .returned s .starting (taskAddService env s params) := by
  rw [taskAddService_eq]
  refine .bind rfl fun place _ => ⟨_, rfl, .bind rfl fun title _ => ?_⟩
  dsimp only
  cases (list s place.scope false).find? fun t =>
      t.parentId = place.parentId && sameTitle env.reading t.title title with
  | some existing => exact ⟨_, rfl, .done _⟩
  | none => exact ⟨_, rfl, alone_listed⟩

/-! ## What holds in every run -/

/-- No two open siblings have one title. -/
def NoTwins (reading : Reading) (rows : List Task) : Prop :=
  rows.Pairwise fun a b => isOpen a = true → isOpen b = true → a.parentId = b.parentId →
    sameTitle reading a.title b.title = false

/-- A call that created nothing was given an open task of its title, or one that the turn has closed. -/
def Given (env : ServiceEnv) (title : String) (s : Store) : AddReply → Prop
  | .created _ _ => True
  | .reused task _ => ∃ row ∈ s.tasks, row.id = task.id ∧ isOpen row = true ∧
      sameTitle env.reading row.title title = true
  | .closedThisTurn task => ∃ row ∈ s.tasks, row.id = task.id ∧ row.status.isClosed = true ∧
      sameTitle env.reading row.title title = true ∧
      ∃ baseline, env.baseline row.scopeOf = some baseline ∧ row.id ∉ baseline

instance (reading : Reading) (rows : List Task) : Decidable (NoTwins reading rows) :=
  inferInstanceAs (Decidable (List.Pairwise _ _))

structure Idempotent (reading : Reading) (scope : Scope) (m : Adds) : Prop where
  noTwins : NoTwins reading (m.store.loadScope scope)
  given : ∀ c ∈ m.calls, ∀ reply, c.phase = .returned (.ok reply) →
    ∃ title, requestedTitle c.params = some title ∧ Given c.env title m.store reply

/-- The listed items are rows of the past, and no open task of the requested title is among them. -/
structure Unlisted (reading : Reading) (params : Json) (s : Store) (scope : Scope) (parentId : Option Int)
    (title : String) (openItems : List Task) : Prop where
  requested : requestedTitle params = some title
  past : ∀ t ∈ openItems, t.id ≤ s.seq
  twinless : ∀ t ∈ s.loadScope scope, isTwin reading parentId title t = true →
    t.id ∉ openItems.map (·.id)

/-- What a call knows in each phase. -/
def PhaseOk (env : ServiceEnv) (params : Json) (s : Store) : Phase → Prop
  | .starting | .placed _ => True
  | .listed place title openItems | .unclosed place title openItems =>
    Unlisted env.reading params s place.scope place.parentId title openItems
  | .built new openItems | .noted new openItems _ | .checked new openItems _ =>
    Unlisted env.reading params s (new.scope, new.scopeId) new.parentId new.title openItems
  | .returned (.ok reply) => ∃ title, requestedTitle params = some title ∧ Given env title s reply
  | .returned (.error _) => True

theorem mem_loadScope_insert {t : Task} (h : t ∈ (s.insert now new).loadScope scope) :
    t ∈ s.loadScope scope ∨ t = new.toRow (s.seq + 1) now ∧ (new.scope, new.scopeId) = scope := by
  rw [loadScope_insert] at h
  refine (List.mem_append.mp h).imp_right fun h => ?_
  obtain ⟨hmem, hin⟩ := List.mem_filter.mp h
  obtain rfl := List.mem_singleton.mp hmem
  exact ⟨rfl, inScope_iff.mp hin⟩

theorem Unlisted.insert {parentId : Option Int} {title : String}
    (h : Unlisted reading params s scope parentId title openItems) (now : String) (new : NewTask) :
    Unlisted reading params (s.insert now new) scope parentId title openItems where
  requested := h.requested
  past t ht := (h.past t ht).trans (Int.le_add_one (le_refl _))
  twinless t ht htwin := by
    rcases mem_loadScope_insert ht with hold | ⟨rfl, -⟩
    · exact h.twinless t hold htwin
    · intro hid
      obtain ⟨item, hitem, hid⟩ := List.mem_map.mp hid
      have hle : item.id ≤ s.seq := h.past item hitem
      have hnew : item.id = s.seq + 1 := hid
      omega

theorem Given.insert {title : String} {reply : AddReply} (h : Given env title s reply) (now : String)
    (new : NewTask) : Given env title (s.insert now new) reply := by
  cases reply with
  | created => trivial
  | reused =>
    obtain ⟨row, hrow, hrest⟩ := h
    exact ⟨row, List.mem_append_left _ hrow, hrest⟩
  | closedThisTurn =>
    obtain ⟨row, hrow, hrest⟩ := h
    exact ⟨row, List.mem_append_left _ hrow, hrest⟩

/-- Another call's insert takes away nothing that a call knows. -/
theorem PhaseOk.insert (h : PhaseOk env params s phase) (now : String) (new : NewTask) :
    PhaseOk env params (s.insert now new) phase := by
  cases phase with
  | starting | placed => trivial
  | listed | unclosed | built | noted | checked => exact Unlisted.insert h now new
  | returned reply =>
    cases reply with
    | error => trivial
    | ok reply =>
      obtain ⟨title, htitle, hgiven⟩ := h
      exact ⟨title, htitle, hgiven.insert now new⟩

/-! ### One section -/

/-- The list holds every open row, so what it does not show does not stand. -/
theorem unlisted_list (hs : s.Distinct) {parentId : Option Int} {title : String}
    (hrequested : requestedTitle params = some title)
    (h : (list s scope false).find?
      (fun t => t.parentId = parentId && sameTitle reading t.title title) = none) :
    Unlisted reading params s scope parentId title (list s scope false) where
  requested := hrequested
  past t ht := by
    obtain ⟨row, hrow, -, rfl⟩ := mem_openList.mp ht
    exact hs.le_seq row (mem_loadScope.mp hrow).1
  twinless t ht htwin := by
    simp only [isTwin, Bool.and_eq_true] at htwin
    obtain ⟨⟨hopen, hparent⟩, htitle⟩ := htwin
    have hnone := List.find?_eq_none.mp h _ (mem_openList.mpr ⟨t, ht, hopen, rfl⟩)
    exact absurd (Bool.and_eq_true_iff.mpr ⟨hparent, htitle⟩) hnone

theorem given_reused {parentId : Option Int} {title : String} {existing : Task}
    (h : (list s scope false).find? (fun t => t.parentId = parentId && sameTitle env.reading t.title title) =
      some existing) : Given env title s (.reused existing (env.admits scope)) := by
  obtain ⟨row, hrow, hopen, rfl⟩ := mem_openList.mp (List.mem_of_find?_eq_some h)
  have hmatch := List.find?_some h
  exact ⟨row, (mem_loadScope.mp hrow).1, rfl, hopen, (Bool.and_eq_true_iff.mp hmatch).2⟩

theorem given_closedThisTurn {title : String} {closed : Task}
    (h : closedThisTurn env s scope title = some closed) : Given env title s (.closedThisTurn closed) := by
  obtain ⟨baseline, hbaseline, hfind⟩ := Option.bind_eq_some_iff.mp h
  have htitle := List.find?_some hfind
  obtain ⟨hlist, hsince⟩ := List.mem_filter.mp (List.mem_of_find?_eq_some hfind)
  obtain ⟨row, hrow, rfl⟩ := mem_list.mp hlist
  obtain ⟨htask, rfl⟩ := mem_loadScope.mp hrow
  obtain ⟨hclosed, hbefore⟩ := Bool.and_eq_true_iff.mp hsince
  exact ⟨row, htask, rfl, hclosed, htitle, baseline, hbaseline, of_decide_eq_true hbefore⟩

/-- A section leaves the store, or inserts a task. -/
theorem act_store (hact : act env params s phase = .ok (s', phase')) :
    s' = s ∨ ∃ new, s' = s.insert env.tasks.now new := by
  cases phase with
  | starting =>
    obtain ⟨place, -, hact⟩ := bind_eq_ok.mp hact
    cases hact
    exact .inl rfl
  | placed place =>
    obtain ⟨title, -, hact⟩ := bind_eq_ok.mp hact
    dsimp only at hact
    split at hact <;> cases hact <;> exact .inl rfl
  | listed place title openItems =>
    rw [act] at hact
    split at hact <;> cases hact <;> exact .inl rfl
  | unclosed | noted =>
    obtain ⟨new, -, hact⟩ := bind_eq_ok.mp hact
    cases hact
    exact .inl rfl
  | checked new openItems note =>
    obtain ⟨inserted, hinsert, hact⟩ := bind_eq_ok.mp hact
    obtain ⟨⟨⟩, -, hinsert⟩ := bind_eq_ok.mp (stored_eq_ok.mp hinsert)
    cases hinsert
    cases hact
    exact .inr ⟨new, rfl⟩
  | built | returned =>
    cases hact
    exact .inl rfl

/-- A section leaves the store, or inserts the task that `create` has checked. -/
inductive Section (env : ServiceEnv) (params : Json) (s : Store) : Phase → Store → Phase → Prop
  | read {phase phase' : Phase} : PhaseOk env params s phase' → Section env params s phase s phase'
  | insert {new : NewTask} {openItems : List Task} {note : Option String} {phase' : Phase} :
      PhaseOk env params (s.insert env.tasks.now new) phase' →
      Section env params s (.checked new openItems note) (s.insert env.tasks.now new) phase'

theorem act_inv (hs : s.Distinct) (h : PhaseOk env params s phase)
    (hact : act env params s phase = .ok (s', phase')) : Section env params s phase s' phase' := by
  cases phase with
  | starting =>
    obtain ⟨place, -, hact⟩ := bind_eq_ok.mp hact
    cases hact
    exact .read trivial
  | placed place =>
    obtain ⟨title, htitle, hact⟩ := bind_eq_ok.mp hact
    dsimp only at hact
    split at hact
    · rename_i existing hfind
      cases hact
      exact .read ⟨title, orError_eq_ok.mp htitle, given_reused hfind⟩
    · rename_i hfind
      cases hact
      exact .read (unlisted_list hs (orError_eq_ok.mp htitle) hfind)
  | listed place title openItems =>
    rw [act] at hact
    split at hact
    · rename_i closed hclosed
      cases hact
      exact .read ⟨title, Unlisted.requested h, given_closedThisTurn hclosed⟩
    · cases hact
      exact .read h
  | unclosed place title openItems =>
    obtain ⟨new, hnew, hact⟩ := bind_eq_ok.mp hact
    cases hact
    obtain ⟨hparent, hscope, htitle⟩ := newTask_ok hnew
    have hnext : PhaseOk env params s (.built new openItems) := by
      show Unlisted env.reading params s (new.scope, new.scopeId) new.parentId new.title openItems
      rw [hparent, hscope, htitle]
      exact h
    exact .read hnext
  | built new openItems =>
    cases hact
    exact .read h
  | noted new openItems note =>
    obtain ⟨admitted, hcheck, hact⟩ := bind_eq_ok.mp hact
    cases hact
    obtain ⟨hparent, hscope, htitle⟩ := createCheck_ok (stored_eq_ok.mp hcheck)
    have hnext : PhaseOk env params s (.checked admitted openItems note) := by
      show Unlisted env.reading params s (admitted.scope, admitted.scopeId) admitted.parentId
        admitted.title openItems
      rw [hparent, hscope, htitle]
      exact h
    exact .read hnext
  | checked new openItems note =>
    obtain ⟨inserted, hinsert, hact⟩ := bind_eq_ok.mp hact
    obtain ⟨⟨⟩, -, hinsert⟩ := bind_eq_ok.mp (stored_eq_ok.mp hinsert)
    cases hinsert
    cases hact
    exact .insert ⟨new.title, Unlisted.requested h, trivial⟩
  | returned reply =>
    cases hact
    exact .read h

/-! ### Runs -/

structure Kept (reading : Reading) (scope : Scope) (m : Adds) : Prop where
  distinct : m.store.Distinct
  noTwins : NoTwins reading (m.store.loadScope scope)
  calls : ∀ c ∈ m.calls, c.env.reading = reading ∧ PhaseOk c.env c.params m.store c.phase

/-- A new task makes no twin where none stands. -/
theorem NoTwins.insert (h : NoTwins reading (s.loadScope scope)) (now : String)
    (hnew : (new.scope, new.scopeId) = scope → ∀ t ∈ s.loadScope scope,
      isTwin reading new.parentId new.title t = false) :
    NoTwins reading ((s.insert now new).loadScope scope) := by
  rw [loadScope_insert]
  refine List.pairwise_append.mpr
    ⟨h, (List.pairwise_singleton _ _).sublist (List.filter_sublist ..), ?_⟩
  intro t ht row hrow hopen _ hparent
  obtain ⟨hmem, hin⟩ := List.mem_filter.mp hrow
  obtain rfl := List.mem_singleton.mp hmem
  have hno := hnew (inScope_iff.mp hin) t ht
  have hsibling : t.parentId = new.parentId := hparent
  unfold isTwin at hno
  rw [hopen, hsibling, decide_eq_true rfl, Bool.and_self, Bool.true_and] at hno
  exact hno

/-- What is listed and not among the items does not stand. -/
theorem twinless_of_listed {c : Call} {note : Option String} (hphase : c.phase = .checked new openItems note)
    (hunlisted : Unlisted c.env.reading params s (new.scope, new.scopeId) new.parentId new.title openItems)
    (h : c.listedTwins s scope = true) (hscope : (new.scope, new.scopeId) = scope) :
    ∀ t ∈ s.loadScope scope, isTwin c.env.reading new.parentId new.title t = false := by
  intro t ht
  subst hscope
  refine Bool.eq_false_iff.mpr fun htwin => hunlisted.twinless t ht htwin ?_
  unfold Call.listedTwins at h
  rw [hphase] at h
  dsimp only at h
  rw [decide_eq_false (not_not_intro rfl), Bool.false_or] at h
  have hlisted := List.all_eq_true.mp h t ht
  rw [htwin, Bool.not_true, Bool.false_or] at hlisted
  exact List.contains_iff_mem.mp hlisted

theorem safe_advance {i : Nat} {c : Call} (hget : m.calls[i]? = some c) :
    safe scope m (.advance i) = c.listedTwins m.store scope := by
  show m.calls[i]?.all _ = _
  rw [hget]
  rfl

theorem kept_step {a : Act} (h : Kept reading scope m) (hsafe : safe scope m a = true)
    (hstep : step reading m a = some m') : Kept reading scope m' := by
  cases a with
  | begin_ env params =>
    cases hstep
    refine ⟨h.distinct, h.noTwins, fun c hc => ?_⟩
    rcases List.mem_append.mp hc with hold | hnew
    · exact h.calls c hold
    · rw [List.mem_singleton.mp hnew]
      exact ⟨rfl, trivial⟩
  | advance i =>
    obtain ⟨c, hget, rfl⟩ := Option.map_eq_some_iff.mp hstep
    have hc : c ∈ m.calls := List.mem_of_getElem? hget
    obtain ⟨hreading, hphase⟩ := h.calls c hc
    cases hact : act c.env c.params m.store c.phase with
    | error e =>
      rw [resume_error hact]
      refine ⟨h.distinct, h.noTwins, fun c' hc' => ?_⟩
      rcases List.mem_or_eq_of_mem_set hc' with hold | rfl
      · exact h.calls c' hold
      · exact ⟨hreading, trivial⟩
    | ok next =>
      obtain ⟨s', phase'⟩ := next
      rw [resume_ok hact]
      have hsection := act_inv h.distinct hphase hact
      rw [safe_advance hget] at hsafe
      generalize hat : c.phase = phase at hsection
      cases hsection with
      | read hnext =>
        refine ⟨h.distinct, h.noTwins, fun c' hc' => ?_⟩
        rcases List.mem_or_eq_of_mem_set hc' with hold | rfl
        · exact h.calls c' hold
        · exact ⟨hreading, hnext⟩
      | @insert new openItems note _ hnext =>
        rw [hat] at hphase
        refine ⟨h.distinct.insert _ new, h.noTwins.insert _ fun hscope => ?_, fun c' hc' => ?_⟩
        · rw [← hreading]
          exact twinless_of_listed hat hphase hsafe hscope
        · rcases List.mem_or_eq_of_mem_set hc' with hold | rfl
          · obtain ⟨hread, hok⟩ := h.calls c' hold
            exact ⟨hread, hok.insert _ new⟩
          · exact ⟨hreading, hnext⟩

/-- **Main result.** `id` is the table's primary key. In every run of `tasks.add` calls whose inserts are safe,
no two open siblings of the scope have one title, and whoever created nothing was given a task of the title. -/
theorem adds_idempotent (reading : Reading) (scope : Scope) (s : Store) (hs : s.Distinct)
    (hstart : NoTwins reading (s.loadScope scope)) (m : Adds)
    (h : Moves (step reading) (fun m a => safe scope m a = true) ⟨s, []⟩ m) :
    Idempotent reading scope m := by
  have hkept : Kept reading scope m :=
    h.invariant (fun hsafe hstep hm => kept_step hm hsafe hstep) ⟨hs, hstart, fun c hc => nomatch hc⟩
  refine ⟨hkept.noTwins, fun c hc reply hreply => ?_⟩
  have hphase := (hkept.calls c hc).2
  rw [hreply] at hphase
  exact hphase

def sampleAdd (title : String) : Act :=
  .begin_ sampleServices (.obj [("scope", .str "session"), ("session_id", .str "s"), ("title", .str title)])

/-- Two titles are inserted side by side, and one of them is asked for again. -/
def mixedAdds : List Act :=
  [sampleAdd "A", sampleAdd "B"] ++ (List.replicate 7 [Act.advance 0, .advance 1]).flatten ++
    [sampleAdd "a", .advance 2, .advance 2]

theorem adds_idempotent_mixedAdds : ∃ m, runActs (step sampleServices.reading)
      (fun m a => safe sampleScope m a = true) ⟨Store.empty, []⟩ mixedAdds = some m ∧
    m.store.tasks.map (·.title) = ["A", "B"] ∧ Idempotent sampleServices.reading sampleScope m := by
  have hrun : (runActs (step sampleServices.reading) (fun m a => safe sampleScope m a = true)
      ⟨Store.empty, []⟩ mixedAdds).any (fun m => m.store.tasks.map (·.title) = ["A", "B"]) = true := by
    decide
  obtain ⟨m, hm, htitles⟩ := (Option.any_eq_true _ _).mp hrun
  exact ⟨m, hm, of_decide_eq_true htitles,
    adds_idempotent sampleServices.reading sampleScope Store.empty .empty .nil m (.of_acts hm)⟩

/-- Both calls list the scope before either inserts. -/
def racingAdds : List Act :=
  [sampleAdd "A", sampleAdd "A"] ++ (List.replicate 7 [Act.advance 0, .advance 1]).flatten

theorem racing_adds : ¬ ∀ (reading : Reading) (scope : Scope) (s : Store), s.Distinct →
    NoTwins reading (s.loadScope scope) → ∀ m, Moves (step reading) (fun _ _ => True) ⟨s, []⟩ m →
      Idempotent reading scope m := by
  intro h
  have hrun : (runActs (step sampleServices.reading) (fun _ _ => True) ⟨Store.empty, []⟩ racingAdds).any
      (fun m => ¬ NoTwins sampleServices.reading (m.store.loadScope sampleScope)) = true := by
    decide
  obtain ⟨m, hm, htwins⟩ := (Option.any_eq_true _ _).mp hrun
  have hkept := h sampleServices.reading sampleScope Store.empty .empty .nil m (.of_acts hm)
  exact of_decide_eq_true htwins hkept.noTwins

/-- What is inserted beside an open task of its title that the list does not show is a second copy. -/
theorem twins_of_unsafe {i : Nat} {c : Call} {note : Option String} (hget : m.calls[i]? = some c)
    (hphase : c.phase = .checked new openItems note) (hsafe : safe scope m (.advance i) = false)
    (hinsert : createInsert c.env.tasks m.store new = .ok s') :
    ¬ NoTwins c.env.reading (s'.loadScope scope) := by
  obtain ⟨⟨⟩, -, hinsert⟩ := bind_eq_ok.mp hinsert
  cases hinsert
  rw [safe_advance hget, Call.listedTwins, hphase] at hsafe
  obtain ⟨hscope, hsome⟩ := Bool.or_eq_false_iff.mp hsafe
  obtain ⟨t, ht, htwin⟩ := List.all_eq_false.mp hsome
  rw [Bool.not_eq_true, Bool.or_eq_false_iff, Bool.not_eq_false'] at htwin
  obtain ⟨hsibling, htitle⟩ := Bool.and_eq_true_iff.mp htwin.1
  obtain ⟨hopen, hparent⟩ := Bool.and_eq_true_iff.mp hsibling
  have hin : (new.toRow (m.store.seq + 1) c.env.tasks.now).inScope scope = true :=
    inScope_iff.mpr (not_not.mp (of_decide_eq_false hscope))
  intro h
  rw [loadScope_insert] at h
  have hno := (List.pairwise_append.mp h).2.2 t ht _
    (List.mem_filter.mpr ⟨List.mem_singleton_self _, hin⟩) hopen rfl (of_decide_eq_true hparent)
  exact Bool.false_ne_true (hno.symm.trans htitle)

end Nanna.Daemon.ConcurrentAdds
