import Nanna.Daemon.LosslessReaders

/-!
# What becomes of the keys of a call

`supplied_iff`: the row that `tasks.add` or `tasks.update` leaves reflects every key of the call exactly if the call is
legible. The readers of numbers, lists and checks refuse what they cannot read; a text of the wrong type is as if it
were absent, so a call that gives one is served without it. So too a check's members that its kind does not use, and
for a subtask a list that is not its parent's.

A call's `actor` says who acts and is written beside the rows.
-/

namespace Nanna.Daemon

open Nanna.Lib Nanna.Tasks Nanna.Harness

variable {env : ServiceEnv} {s s' : Store} {params : Json} {key : String} {row : Task}

/-! ## Reflection -/

/-- The columns that hold a text, by their keys. -/
def textColumns : List (String × (Task → Option String)) :=
  [("description", (·.description)), ("project", (·.project)), ("due_at", (·.dueAt)), ("deadline_at", (·.deadlineAt)),
    ("recurrence", (·.recurrence)), ("assignee", (·.assignee))]

/-- The keys of a title. -/
def titleKeys : List String := ["title", "text"]

/-- What a call gives is in the row, the floor of priorities aside. -/
structure Reflected (reading : Reading) (params : Json) (row : Task) : Prop where
  title : ∀ key ∈ titleKeys, ∀ v, given params key = some v → v = .str row.title
  texts : ∀ c ∈ textColumns, ∀ v, given params c.1 = some v → ∃ t, v = .str t ∧ c.2 row = some t
  parentId : ∀ v, given params "parent_id" = some v → ∃ n, row.parentId = some n ∧ DenotesInt reading v n
  priority : ∀ v, given params "priority" = some v → ∃ n, row.priority = max n 2 ∧ DenotesInt reading v n
  sortOrder : ∀ v, given params "sort_order" = some v → DenotesInt reading v row.sortOrder
  labels : ∀ v, given params "labels" = some v → DenotesList reading (DenotesText reading) v row.labels
  tools : ∀ v, given params "tools" = some v → DenotesList reading (DenotesText reading) v row.toolScope
  dependsOn : ∀ v, given params "depends_on" = some v → DenotesList reading (DenotesInt reading) v row.dependsOn
  acceptance : ∀ v, given params "acceptance" = some v →
    ∃ stored, row.acceptance = some stored ∧ DenotesCheck reading.dialect v stored

/-- The kind of list that a text names. -/
def namedScope (reading : Reading) (t : String) : String := String.ofList (reading.toLower t.toList)

structure AddReflected (reading : Reading) (params : Json) (row : Task) : Prop extends
    Reflected reading params row where
  scope : ∀ v, given params "scope" = some v → ∃ t, v = .str t ∧ row.scope = namedScope reading t
  session : ∀ v, given params "session_id" = some v → row.scope = "session" → ∃ t, v = .str t ∧ row.scopeId = some t

structure UpdateReflected (reading : Reading) (params : Json) (row : Task) : Prop extends
    Reflected reading params row where
  id : ∀ v, given params "id" = some v → DenotesInt reading v row.id
  status : ∀ v, given params "status" = some v → v = .str row.status.asStr

/-! ## Legible calls -/

/-- Texts are strings, one title is given, and an acceptance object has only what its kind uses. -/
structure Legible (d : Dialect) (params : Json) : Prop where
  title : ∀ key ∈ titleKeys, ∀ v, given params key = some v → ∃ t, v = .str t
  same : ∀ v w, given params "title" = some v → given params "text" = some w → v = w
  texts : ∀ c ∈ textColumns, ∀ v, given params c.1 = some v → ∃ t, v = .str t
  acceptance : ∀ v, given params "acceptance" = some v → UsesAll d v

/-- The parent of a new task. -/
def IsParent (env : ServiceEnv) (s : Store) (params : Json) (parent : Task) : Prop :=
  ∃ id, optI64 env.reading params "parent_id" = .ok (some id) ∧ get s id = .ok parent

/-- A subtask's call names no other list than its parent's. -/
structure AddLegible (env : ServiceEnv) (s : Store) (params : Json) : Prop extends
    Legible env.reading.dialect params where
  scope : ∀ v, given params "scope" = some v →
    ∃ t, v = .str t ∧ ∀ parent, IsParent env s params parent → parent.scope = namedScope env.reading t
  session : ∀ v, given params "session_id" = some v → ∀ parent, IsParent env s params parent →
    parent.scope = "session" → ∃ t, v = .str t ∧ parent.scopeId = some t

structure UpdateLegible (d : Dialect) (params : Json) : Prop extends Legible d params where
  status : ∀ v, given params "status" = some v → ∃ t, v = .str t

/-! ## Texts -/

theorem optString_eq_some {t : String} : optString params key = some t ↔ given params key = some (.str t) := by
  unfold optString given supplied
  rcases params.get key with _ | (_ | _ | _ | s | _ | _)
  case some.str =>
    by_cases hs : s = ""
    · simp [Json.asStr, hs]
    · simp [Json.asStr]
  all_goals simp [Json.asStr]

theorem optField_of_given {t : String} {x old : Option String} (hx : x = (optField params key).getD old)
    (h : given params key = some (.str t)) : x = some t := by
  have hget := (Option.filter_eq_some_iff.mp (supplied_of_given h)).1
  rw [hx, optField, hget]
  rfl

/-! ## Rows that are written as read -/

/-- The parameter is read, and sets the field where it was supplied. -/
def Sets {α : Type} (read : ParamResult α) (field : α → Prop) : Prop :=
  ∃ r, read = .ok r ∧ ∀ a, r = some a → field a

/-- Each column of the row has what its reader gave. -/
structure Written (reading : Reading) (params : Json) (row : Task) : Prop where
  title : ∀ t, (optString params "title").or (optString params "text") = some t → row.title = t
  texts : ∀ c ∈ textColumns, ∀ t, given params c.1 = some (.str t) → c.2 row = some t
  parentId : Sets (optI64 reading params "parent_id") fun n => row.parentId = some n
  priority : Sets (optI64 reading params "priority") fun n => row.priority = max n 2
  sortOrder : Sets (optI64 reading params "sort_order") fun n => row.sortOrder = n
  labels : Sets (optStringVec reading params "labels") fun labels => row.labels = labels
  tools : Sets (optStringVec reading params "tools") fun tools => row.toolScope = tools
  dependsOn : Sets (optI64Vec reading params "depends_on") fun ids => row.dependsOn = ids
  acceptance : Sets (canonicalAcceptance reading params) fun check => row.acceptance = some check

theorem Sets.of_getD {α : Type} {read : ParamResult α} {r : Option α} {x old : α} (hread : read = .ok r)
    (hx : x = r.getD old) : Sets read fun a => x = a :=
  ⟨r, hread, fun a ha => by rw [hx, ha, Option.getD_some]⟩

variable {reading : Reading} {v : Json}

theorem Sets.int {field : Int → Prop} (hparse : NearestParse reading) (h : Sets (optI64 reading params key) field)
    (hv : given params key = some v) : ∃ n, field n ∧ DenotesInt reading v n := by
  obtain ⟨r, hread, hfield⟩ := h
  obtain ⟨n, hn, hdenotes⟩ := optI64_denotes hparse hread hv
  exact ⟨n, hfield n hn, hdenotes⟩

theorem Sets.ints {field : List Int → Prop} (hparse : NearestParse reading)
    (h : Sets (optI64Vec reading params key) field) (hv : given params key = some v) :
    ∃ ns, field ns ∧ DenotesList reading (DenotesInt reading) v ns := by
  obtain ⟨r, hread, hfield⟩ := h
  obtain ⟨ns, hns, hdenotes⟩ := optI64Vec_denotes hparse hread hv
  exact ⟨ns, hfield ns hns, hdenotes⟩

theorem Sets.texts {field : List String → Prop} (h : Sets (optStringVec reading params key) field)
    (hv : given params key = some v) : ∃ ss, field ss ∧ DenotesList reading (DenotesText reading) v ss := by
  obtain ⟨r, hread, hfield⟩ := h
  obtain ⟨ss, hss, hdenotes⟩ := optStringVec_denotes hread hv
  exact ⟨ss, hfield ss hss, hdenotes⟩

theorem Sets.check {field : Json → Prop} (h : Sets (canonicalAcceptance reading params) field)
    (hv : given params "acceptance" = some v) :
    ∃ stored, field stored ∧ (DenotesCheck reading.dialect v stored ↔ UsesAll reading.dialect v) := by
  obtain ⟨r, hread, hfield⟩ := h
  obtain ⟨stored, hstored, hcanonical⟩ := readParam_ok hread (supplied_of_given hv)
  exact ⟨stored, hfield stored hstored, canonical_iff hcanonical⟩

/-- The title is the one that was given. -/
theorem Written.title_iff (h : Written reading params row) :
    (∀ key ∈ titleKeys, ∀ v, given params key = some v → v = .str row.title) ↔
      (∀ key ∈ titleKeys, ∀ v, given params key = some v → ∃ t, v = .str t) ∧
        ∀ v w, given params "title" = some v → given params "text" = some w → v = w := by
  constructor
  · refine fun htitle => ⟨fun key hkey v hv => ⟨_, htitle key hkey v hv⟩, fun v w hv hw => ?_⟩
    rw [htitle "title" (by decide) v hv, htitle "text" (by decide) w hw]
  · rintro ⟨hstring, hsame⟩ key hkey v hv
    obtain ⟨t, rfl⟩ := hstring key hkey v hv
    rw [h.title t]
    obtain rfl | rfl : key = "title" ∨ key = "text" := by simpa [titleKeys] using hkey
    · rw [optString_eq_some.mpr hv, Option.some_or]
    · cases htitle : optString params "title" with
      | none => rw [Option.none_or, optString_eq_some.mpr hv]
      | some t' => rw [Option.some_or, Json.str.inj (hsame _ _ (optString_eq_some.mp htitle) hv)]

theorem Written.reflected_iff (hparse : NearestParse reading) (h : Written reading params row) :
    Reflected reading params row ↔ Legible reading.dialect params := by
  constructor
  · intro hreflected
    obtain ⟨htitle, hsame⟩ := h.title_iff.mp hreflected.title
    refine ⟨htitle, hsame, fun c hc v hv => ?_, fun v hv => ?_⟩
    · obtain ⟨t, hv, -⟩ := hreflected.texts c hc v hv
      exact ⟨t, hv⟩
    · obtain ⟨stored, hstored, hdenotes⟩ := hreflected.acceptance v hv
      obtain ⟨stored', hstored', hiff⟩ := h.acceptance.check hv
      obtain rfl := Option.some.inj (hstored.symm.trans hstored')
      exact hiff.mp hdenotes
  · intro hlegible
    exact {
      title := h.title_iff.mpr ⟨hlegible.title, hlegible.same⟩
      texts := fun c hc v hv => by
        obtain ⟨t, rfl⟩ := hlegible.texts c hc v hv
        exact ⟨t, rfl, h.texts c hc t hv⟩
      parentId := fun v hv => h.parentId.int hparse hv
      priority := fun v hv => h.priority.int hparse hv
      sortOrder := fun v hv => by
        obtain ⟨n, rfl, hdenotes⟩ := h.sortOrder.int hparse hv
        exact hdenotes
      labels := fun v hv => by
        obtain ⟨ss, rfl, hdenotes⟩ := h.labels.texts hv
        exact hdenotes
      tools := fun v hv => by
        obtain ⟨ss, rfl, hdenotes⟩ := h.tools.texts hv
        exact hdenotes
      dependsOn := fun v hv => by
        obtain ⟨ns, rfl, hdenotes⟩ := h.dependsOn.ints hparse hv
        exact hdenotes
      acceptance := fun v hv => by
        obtain ⟨stored, hstored, hiff⟩ := h.acceptance.check hv
        exact ⟨stored, hstored, hiff.mpr (hlegible.acceptance v hv)⟩ }

/-! ## What add writes -/

/-- The store takes a canonical check as it is. -/
theorem admitOption_canonical (hadmits : env.tasks.admitAcceptance = admitAcceptance env.reading.dialect)
    {r acceptance : Option Json} (hread : canonicalAcceptance env.reading params = .ok r) {check : Json}
    (hcheck : r = some check) (h : admitOption env.tasks (some check) = .ok acceptance) :
    acceptance = some check := by
  obtain ⟨stored, hstored, rfl⟩ := map_eq_ok.mp h
  rw [hadmits, admitAcceptance_ok] at hstored
  unfold canonicalAcceptance readParam at hread
  split at hread
  · rw [hcheck] at hread
    cases hread
  · obtain ⟨check', hcanonical, hr⟩ := map_eq_ok.mp hread
    obtain rfl := Option.some.inj (hr.trans hcheck)
    obtain ⟨read, -, rfl⟩ := canonicalize_ok.mp hcanonical
    rw [Except.ok.inj (hstored.1.symm.trans canonicalizeAcceptance_toValue)]

theorem newTask_written (hadmits : env.tasks.admitAcceptance = admitAcceptance env.reading.dialect)
    {parentId parentSort : Option Int} {scope : Scope} {parentAcceptance acceptance : Option Json} {title : String}
    {new : NewTask} {id : Int} {now : String} (hparent : optI64 env.reading params "parent_id" = .ok parentId)
    (htitle : (optString params "title").or (optString params "text") = some title)
    (h : newTask env s params parentId scope parentSort parentAcceptance title = .ok new)
    (hadmitted : admitOption env.tasks new.acceptance = .ok acceptance) :
    Written env.reading params ({ new with acceptance }.toRow id now) := by
  obtain ⟨sortOrder, hsort, h⟩ := bind_eq_ok.mp h
  obtain ⟨priority, hpriority, h⟩ := bind_eq_ok.mp h
  obtain ⟨labels, hlabels, h⟩ := bind_eq_ok.mp h
  obtain ⟨toolScope, htools, h⟩ := bind_eq_ok.mp h
  obtain ⟨dependsOn, hdeps, h⟩ := bind_eq_ok.mp h
  obtain ⟨check, hcheck, h⟩ := bind_eq_ok.mp h
  obtain ⟨explicit, hexplicit, hsort⟩ := bind_eq_ok.mp hsort
  cases hsort
  cases h
  exact {
    title := fun t ht => Option.some.inj (htitle.symm.trans ht)
    texts := fun c hc t ht => by
      simp only [textColumns, List.mem_cons, List.not_mem_nil, or_false] at hc
      rcases hc with rfl | rfl | rfl | rfl | rfl | rfl <;> exact optString_eq_some.mpr ht
    parentId := ⟨parentId, hparent, fun n hn => hn⟩
    priority := ⟨priority, hpriority, fun n hn => by
      rw [hn]
      rfl⟩
    sortOrder := .of_getD hexplicit rfl
    labels := .of_getD hlabels rfl
    tools := .of_getD htools rfl
    dependsOn := .of_getD hdeps rfl
    acceptance := ⟨check, hcheck, fun c hc => by
      have hown : check.or parentAcceptance = some c := by rw [hc, Option.some_or]
      dsimp only at hadmitted
      rw [hown] at hadmitted
      exact admitOption_canonical hadmits hcheck hc hadmitted⟩ }

/-- A task without a parent is in the list that the call names. -/
theorem resolveScope_ok {sc : Scope} (h : resolveScope env params = .ok sc) :
    (∀ t, given params "scope" = some (.str t) → sc.1 = namedScope env.reading t) ∧
      (sc.1 = "session" → ∃ t, given params "session_id" = some (.str t) ∧ sc.2 = some t) := by
  have hnamed : sc.1 =
        namedScope env.reading (((params.get "scope").bind (·.asStr)).getD "session") ∧
      (sc.1 = "session" → ∃ t, optString params "session_id" = some t ∧ sc.2 = some t) := by
    unfold resolveScope at h
    dsimp only at h
    rw [← namedScope] at h
    split_ifs at h with hsession hworkspace hglobal
    · split at h
      · rename_i sessionId hid
        cases h
        exact ⟨hsession.symm, fun _ => ⟨sessionId, hid, rfl⟩⟩
      · cases h
    · split at h
      · cases h
        exact ⟨hworkspace.symm, fun hs => absurd hs (show "workspace" ≠ "session" by decide)⟩
      · cases h
    · cases h
      exact ⟨hglobal.symm, fun hs => absurd hs (show "global" ≠ "session" by decide)⟩
  refine ⟨fun t ht => ?_, fun hs => ?_⟩
  · have hget := (Option.filter_eq_some_iff.mp (supplied_of_given ht)).1
    rw [hnamed.1, hget]
    rfl
  · obtain ⟨t, ht, hid⟩ := hnamed.2 hs
    exact ⟨t, optString_eq_some.mp ht, hid⟩

theorem addPlace_ok {parentId parentSort : Option Int} {sc : Scope} {parentAcceptance : Option Json}
    (h : addPlace env s params parentId = .ok (sc, parentSort, parentAcceptance)) :
    (∃ id parent, parentId = some id ∧ get s id = .ok parent ∧ sc = parent.scopeOf) ∨
      (parentId = none ∧ resolveScope env params = .ok sc) := by
  unfold addPlace at h
  split at h
  · rename_i id
    obtain ⟨parent, hparent, h⟩ := bind_eq_ok.mp h
    cases h
    exact .inl ⟨id, parent, rfl, stored_eq_ok.mp hparent, rfl⟩
  · obtain ⟨sc', hscope, h⟩ := bind_eq_ok.mp h
    cases h
    exact .inr ⟨rfl, hscope⟩

theorem IsParent.unique {parent parent' : Task} (h : IsParent env s params parent)
    (h' : IsParent env s params parent') : parent = parent' := by
  obtain ⟨id, hid, hget⟩ := h
  obtain ⟨id', hid', hget'⟩ := h'
  obtain rfl := Option.some.inj (Except.ok.inj (hid.symm.trans hid'))
  exact Except.ok.inj (hget.symm.trans hget')

/-- What a served call made. -/
structure Created (env : ServiceEnv) (s : Store) (params : Json) (row : Task) : Prop where
  written : Written env.reading params row
  place : (∃ parent, IsParent env s params parent ∧ row.scopeOf = parent.scopeOf) ∨
    ((∀ parent, ¬ IsParent env s params parent) ∧ resolveScope env params = .ok row.scopeOf)

theorem Created.scopeOf_parent (h : Created env s params row) {parent : Task}
    (hparent : IsParent env s params parent) : parent.scopeOf = row.scopeOf := by
  rcases h.place with ⟨parent', hparent', hplace⟩ | ⟨hnone, -⟩
  · rw [hplace, hparent.unique hparent']
  · exact absurd hparent (hnone parent)

theorem add_created (hadmits : env.tasks.admitAcceptance = admitAcceptance env.reading.dialect) {note : Option String}
    (h : taskAddService env s params = .ok (s', .created row note)) : row ∈ s'.tasks ∧ Created env s params row := by
  obtain ⟨parentId, hparent, h⟩ := bind_eq_ok.mp h
  obtain ⟨⟨scope, parentSort, parentAcceptance⟩, hplace, h⟩ := bind_eq_ok.mp h
  obtain ⟨title, htitle, h⟩ := bind_eq_ok.mp h
  dsimp only at h
  split at h
  · cases h
  · split at h
    · cases h
    · obtain ⟨new, hnew, h⟩ := bind_eq_ok.mp h
      obtain ⟨⟨s'', task⟩, hcreate, h⟩ := bind_eq_ok.mp h
      cases h
      obtain ⟨acceptance, hacceptance, hmem, rfl⟩ := create_row (stored_eq_ok.mp hcreate)
      have hscope : (new.scope, new.scopeId) = scope := (newTask_ok hnew).2.1
      refine ⟨hmem, newTask_written hadmits hparent (orError_eq_ok.mp htitle) hnew hacceptance, ?_⟩
      show (∃ parent, _ ∧ (new.scope, new.scopeId) = _) ∨ (_ ∧ _ = Except.ok (new.scope, new.scopeId))
      rw [hscope]
      rcases addPlace_ok hplace with ⟨id, parent, rfl, hget, rfl⟩ | ⟨rfl, hresolve⟩
      · exact .inl ⟨parent, ⟨id, hparent, hget⟩, rfl⟩
      · refine .inr ⟨fun parent hisParent => ?_, hresolve⟩
        obtain ⟨id, hid, -⟩ := hisParent
        rw [hparent] at hid
        cases hid

theorem Created.reflected_iff (hparse : NearestParse env.reading) (h : Created env s params row) :
    AddReflected env.reading params row ↔ AddLegible env s params := by
  have hrow := h.written.reflected_iff hparse
  constructor
  · intro hreflected
    refine ⟨hrow.mp hreflected.toReflected, fun v hv => ?_, fun v hv parent hparent hsession => ?_⟩
    · obtain ⟨t, rfl, hscope⟩ := hreflected.scope v hv
      exact ⟨t, rfl, fun parent hparent => (congrArg Prod.fst (h.scopeOf_parent hparent)).trans hscope⟩
    · have hplace := h.scopeOf_parent hparent
      obtain ⟨t, rfl, hid⟩ := hreflected.session v hv ((congrArg Prod.fst hplace).symm.trans hsession)
      exact ⟨t, rfl, (congrArg Prod.snd hplace).trans hid⟩
  · intro hlegible
    refine ⟨hrow.mpr hlegible.toLegible, fun v hv => ?_, fun v hv hsession => ?_⟩
    · obtain ⟨t, rfl, hparent⟩ := hlegible.scope v hv
      refine ⟨t, rfl, ?_⟩
      rcases h.place with ⟨parent, hisParent, hplace⟩ | ⟨-, hresolve⟩
      · exact (congrArg Prod.fst hplace).trans (hparent parent hisParent)
      · exact (resolveScope_ok hresolve).1 t hv
    · rcases h.place with ⟨parent, hisParent, hplace⟩ | ⟨-, hresolve⟩
      · obtain ⟨t, rfl, hid⟩ := hlegible.session v hv parent hisParent
          ((congrArg Prod.fst hplace).symm.trans hsession)
        exact ⟨t, rfl, (congrArg Prod.snd hplace).trans hid⟩
      · obtain ⟨t, ht, hid⟩ := (resolveScope_ok hresolve).2 hsession
        exact ⟨t, Option.some.inj (hv.symm.trans ht), hid⟩

/-! ## What update writes -/

theorem updatePatch_written (hadmits : env.tasks.admitAcceptance = admitAcceptance env.reading.dialect)
    {patch : TaskPatch} {task : Task} {p : Patched} {now : String} (h : updatePatch env params = .ok patch)
    (hpatch : applyPatch env.tasks task patch = .ok p) :
    Written env.reading params (overwrite now task p.1) := by
  have hspec := applyPatch_spec hpatch
  have hfields := applyPatch_fields hpatch
  obtain ⟨priority, hpriority, h⟩ := bind_eq_ok.mp h
  obtain ⟨labels, hlabels, h⟩ := bind_eq_ok.mp h
  obtain ⟨toolScope, htools, h⟩ := bind_eq_ok.mp h
  obtain ⟨dependsOn, hdeps, h⟩ := bind_eq_ok.mp h
  obtain ⟨check, hcheck, h⟩ := bind_eq_ok.mp h
  obtain ⟨parentId, hparent, h⟩ := bind_eq_ok.mp h
  obtain ⟨sortOrder, hsort, h⟩ := bind_eq_ok.mp h
  cases h
  exact {
    title := fun t ht => by
      have htitle := hfields.title
      rwa [ht] at htitle
    texts := fun c hc t ht => by
      simp only [textColumns, List.mem_cons, List.not_mem_nil, or_false] at hc
      rcases hc with rfl | rfl | rfl | rfl | rfl | rfl
      · exact optField_of_given hfields.description ht
      · exact optField_of_given hfields.project ht
      · exact optField_of_given hfields.dueAt ht
      · exact optField_of_given hfields.deadlineAt ht
      · exact optField_of_given hfields.recurrence ht
      · exact optField_of_given hfields.assignee ht
    parentId := ⟨parentId, hparent, fun n hn => by
      have hrow := hspec.parentId
      rwa [hn] at hrow⟩
    priority := ⟨priority, hpriority, fun n hn => by
      have hrow := hfields.priority
      rwa [hn] at hrow⟩
    sortOrder := .of_getD hsort hfields.sortOrder
    labels := .of_getD hlabels hfields.labels
    tools := .of_getD htools hfields.toolScope
    dependsOn := .of_getD hdeps hspec.dependsOn
    acceptance := ⟨check, hcheck, fun c hc => by
      rcases hfields.acceptance with ⟨hnone, -⟩ | ⟨c', hc', hadmitted⟩
      · rw [hc] at hnone
        cases hnone
      · rw [hc] at hc'
        obtain rfl := Option.some.inj hc'
        exact admitOption_canonical hadmits hcheck hc hadmitted⟩ }

theorem updatePatch_status {patch : TaskPatch} (h : updatePatch env params = .ok patch) :
    patch.status = optString params "status" := by
  obtain ⟨_, -, h⟩ := bind_eq_ok.mp h
  obtain ⟨_, -, h⟩ := bind_eq_ok.mp h
  obtain ⟨_, -, h⟩ := bind_eq_ok.mp h
  obtain ⟨_, -, h⟩ := bind_eq_ok.mp h
  obtain ⟨_, -, h⟩ := bind_eq_ok.mp h
  obtain ⟨_, -, h⟩ := bind_eq_ok.mp h
  obtain ⟨_, -, h⟩ := bind_eq_ok.mp h
  cases h
  rfl

/-- What a served call changed. -/
structure Updated (env : ServiceEnv) (params : Json) (row : Task) : Prop where
  written : Written env.reading params row
  id : Sets (optI64 env.reading params "id") fun id => row.id = id
  status : ∀ status, optString params "status" = some status → row.status.asStr = status

theorem update_updated (hadmits : env.tasks.admitAcceptance = admitAcceptance env.reading.dialect) (hs : s.Distinct)
    {task : Task} (h : taskUpdateService env s params = .ok (s', task)) :
    ∃ row ∈ s'.tasks, (∃ blocked, task = { row with blocked }) ∧ Updated env params row := by
  obtain ⟨id, hid, h⟩ := bind_eq_ok.mp h
  obtain ⟨patch, hpatch, h⟩ := bind_eq_ok.mp h
  have hupdate := stored_eq_ok.mp h
  obtain ⟨old, hold, rfl, p, happly, hmem, hget⟩ := update_row hs hupdate
  have hspec := applyPatch_spec happly
  obtain ⟨row, blocked, hrow, rfl⟩ := getRaw_of_get hget
  obtain ⟨hrowMem, hrowId⟩ := getRaw_ok hrow
  have hs' : s'.Distinct := (update_rows hs hupdate).1
  obtain rfl : row = overwrite env.tasks.now old p.1 := hs'.unique hrowMem hmem hrowId
  refine ⟨_, hmem, ⟨blocked, rfl⟩, updatePatch_written hadmits hpatch happly, ?_, fun status hstatus => ?_⟩
  · obtain ⟨r, hread, hrequired⟩ := bind_eq_ok.mp hid
    refine ⟨r, hread, fun n hn => ?_⟩
    exact Option.some.inj ((orError_eq_ok.mp hrequired).symm.trans hn)
  · exact hspec.written status ((updatePatch_status hpatch).trans hstatus)

theorem Updated.reflected_iff (hparse : NearestParse env.reading) (h : Updated env params row) :
    UpdateReflected env.reading params row ↔ UpdateLegible env.reading.dialect params := by
  have hrow := h.written.reflected_iff hparse
  constructor
  · exact fun hreflected => ⟨hrow.mp hreflected.toReflected, fun v hv => ⟨_, hreflected.status v hv⟩⟩
  · intro hlegible
    refine ⟨hrow.mpr hlegible.toLegible, fun v hv => ?_, fun v hv => ?_⟩
    · obtain ⟨n, hn, hdenotes⟩ := h.id.int hparse hv
      rwa [hn]
    · obtain ⟨t, rfl⟩ := hlegible.status v hv
      rw [h.status t (optString_eq_some.mpr hv)]

/-- **Main result.** Where the parser of doubles rounds to the nearest and the store admits checks as the harness
reads them, the row that a served call leaves reflects all that the call gives exactly if the call is legible; a call
that fails leaves every row as it was. -/
theorem supplied_iff (env : ServiceEnv) (s : Store) (params : Json) (hparse : NearestParse env.reading)
    (hadmits : env.tasks.admitAcceptance = admitAcceptance env.reading.dialect) (hs : s.Distinct) :
    (∀ s' task note, taskAddService env s params = .ok (s', .created task note) →
      task ∈ s'.tasks ∧ (AddReflected env.reading params task ↔ AddLegible env s params)) ∧
    (∀ s' task, taskUpdateService env s params = .ok (s', task) →
      ∃ row ∈ s'.tasks, (∃ blocked, task = { row with blocked }) ∧
        (UpdateReflected env.reading params row ↔ UpdateLegible env.reading.dialect params)) ∧
    (∀ message, taskAddService env s params = .error message → (ServiceCall.add params).run env s = s) ∧
    ∀ message, taskUpdateService env s params = .error message → (ServiceCall.update params).run env s = s := by
  refine ⟨fun s' task note h => ?_, fun s' task h => ?_, fun message h => ?_, fun message h => ?_⟩
  · obtain ⟨hmem, hcreated⟩ := add_created hadmits h
    exact ⟨hmem, hcreated.reflected_iff hparse⟩
  · obtain ⟨row, hmem, htask, hupdated⟩ := update_updated hadmits hs h
    exact ⟨row, hmem, htask, hupdated.reflected_iff hparse⟩
  · rw [ServiceCall.run, h, leaves]
  · rw [ServiceCall.run, h, leaves]

/-- Checks are admitted as the harness reads them; one decimal text is read. -/
def decimalServices : ServiceEnv where
  tasks := { sampleServices.tasks with admitAcceptance := admitAcceptance sampleServices.reading.dialect }
  reading :=
    { sampleServices.reading with
      parseF64 := fun t => if t = "7.0".toList then some 0x401c000000000000#64 else none }
  workspaceId := none
  baseline := fun _ => none
  admits := fun _ => false
  runCheck := sampleServices.runCheck

theorem decimalServices_nearest : NearestParse decimalServices.reading := by
  intro t n bits hliteral hbits
  have hbits : (if t = "7.0".toList then some 0x401c000000000000#64 else none) = some bits := hbits
  split_ifs at hbits with ht
  rw [ht] at hliteral
  cases hliteral

def legibleParams : Json :=
  .obj [("scope", .str "global"), ("title", .str "Tests pass"), ("priority", .num (.int 1)), ("sort_order", .str "7.0"),
    ("acceptance", .obj [("kind", .str "command"), ("command", .str "cargo test")])]

theorem taskAddService_legibleParams :
    ((taskAddService decimalServices Store.empty legibleParams).toOption.any fun
      | (_, .created task _) => task.priority = 2 && task.sortOrder = 7
      | _ => false) = true := by decide

theorem supplied_iff_legible : ∃ s' task note,
    taskAddService decimalServices Store.empty legibleParams = .ok (s', .created task note) ∧
      AddReflected decimalServices.reading legibleParams task ∧ task.priority = 2 ∧ task.sortOrder = 7 := by
  have hlegible : AddLegible decimalServices Store.empty legibleParams := by
    have hparent : ∀ parent, ¬ IsParent decimalServices Store.empty legibleParams parent := by
      rintro parent ⟨id, hid, -⟩
      cases hid
    refine ⟨⟨fun key hkey v hv => ?_, fun v w hv hw => ?_, fun c hc v hv => ?_, fun v hv => ?_⟩, fun v hv => ?_,
      fun v hv parent h => absurd h (hparent parent)⟩
    · obtain rfl | rfl : key = "title" ∨ key = "text" := by simpa [titleKeys] using hkey
      · exact ⟨"Tests pass", (Option.some.inj hv).symm⟩
      · cases hv
    · cases hw
    · simp only [textColumns, List.mem_cons, List.not_mem_nil, or_false] at hc
      rcases hc with rfl | rfl | rfl | rfl | rfl | rfl <;> cases hv
    · obtain rfl := Option.some.inj hv
      intro object hobject key w kind hw hnull hkind
      obtain rfl := Option.some.inj hobject
      obtain rfl := Json.str.inj (Option.some.inj hkind)
      by_contra hunused
      simp only [usedKeys, List.mem_cons, List.not_mem_nil, or_false, not_or] at hunused
      simp [Json.get, List.lookup_cons, beq_false_of_ne hunused.1, beq_false_of_ne hunused.2.1] at hw
    · exact ⟨"global", (Option.some.inj hv).symm, fun parent h => absurd h (hparent parent)⟩
  have hrun := taskAddService_legibleParams
  cases hcall : taskAddService decimalServices Store.empty legibleParams with
  | error message =>
    rw [hcall] at hrun
    cases hrun
  | ok result =>
    obtain ⟨s', reply⟩ := result
    rw [hcall] at hrun
    cases reply with
    | created task note =>
      obtain ⟨hpriority, hsort⟩ := Bool.and_eq_true_iff.mp hrun
      have hreflected := ((supplied_iff decimalServices Store.empty legibleParams decimalServices_nearest rfl
        .empty).1 s' task note hcall).2.mpr hlegible
      exact ⟨s', task, note, rfl, hreflected, of_decide_eq_true hpriority, of_decide_eq_true hsort⟩
    | reused | closedThisTurn => cases hrun

/-- A title that is a number is dropped. -/
theorem dropped_title : ¬ ∀ (env : ServiceEnv) (s : Store) (params : Json), NearestParse env.reading →
    env.tasks.admitAcceptance = admitAcceptance env.reading.dialect → s.Distinct →
    (∀ s' task note, taskAddService env s params = .ok (s', .created task note) →
      task ∈ s'.tasks ∧ AddReflected env.reading params task) ∧
    ∀ s' task, taskUpdateService env s params = .ok (s', task) →
      ∃ row ∈ s'.tasks, (∃ blocked, task = { row with blocked }) ∧ UpdateReflected env.reading params row := by
  intro h
  have hdistinct : (⟨[sampleRow 1 "Tests pass" none []], 1⟩ : Store).Distinct := ⟨by decide, by decide⟩
  obtain ⟨-, hupdate⟩ := h decimalServices ⟨[sampleRow 1 "Tests pass" none []], 1⟩
    (.obj [("id", .num (.int 1)), ("title", .num (.int 5))]) decimalServices_nearest rfl hdistinct
  have hserved : (taskUpdateService decimalServices ⟨[sampleRow 1 "Tests pass" none []], 1⟩
      (.obj [("id", .num (.int 1)), ("title", .num (.int 5))])).toOption.isSome = true := by decide
  cases hcall : taskUpdateService decimalServices ⟨[sampleRow 1 "Tests pass" none []], 1⟩
      (.obj [("id", .num (.int 1)), ("title", .num (.int 5))]) with
  | error message =>
    rw [hcall] at hserved
    cases hserved
  | ok reply =>
    obtain ⟨row, -, -, hreflected⟩ := hupdate reply.1 reply.2 hcall
    have htitle := hreflected.title "title" (by decide) (.num (.int 5)) (by decide)
    cases htitle

end Nanna.Daemon
