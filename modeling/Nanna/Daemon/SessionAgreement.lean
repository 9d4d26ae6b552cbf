import Nanna.Daemon.Sessions
import Nanna.Lib.Moves

/-!
# Session memory and database agree

`sessions_agree`: in every run whose steps are `Safe`, whenever all operations have returned, a fresh
manager rebuilds the cached session, no added message is lost, a deleted session stays away and a dropped
turn is gone.

`Safe` asks something of three steps. A carried row is written while the session is there (or the
`delete` that removed it has its storage call still to come), and where a column of the row is not the
live one, another write that is on its way has the live value: the rows are copied under the guard and
written outside it, in any order. A regenerate writes back what the live session already has as its
messages, since `update` writes no message to the database. A message is later than those before it, since
the database gives the messages back by their instants.

The invariant says, column by column, that the database has the live value or a write on its way has it
(`Settles`); `session_defects` shows that each condition is needed.
-/

namespace Nanna.Daemon.Sessions

open Nanna.Lib

variable {engine : Engine} {s t : State} {a : Action} {live session : Session} {row : StoredRow}
  {op : Guarded}

/-! ## What is claimed -/

/-- A fresh manager rebuilds the session, and nothing is lost or comes back. -/
structure Agrees (engine : Engine) (s : State) : Prop where
  rebuilt : loadFromDb engine s.db = s.cached
  kept : ∀ m ∈ s.due, ∃ live, s.cached = some live ∧ m ∈ live.messages
  deleted : s.deleted = true → s.cached = none
  dropped : ∀ m ∈ s.dropped, ∀ live, s.cached = some live → m ∉ live.messages

/-! ## Writes on their way -/

/-- What a storage call writes into the columns of the session's row. -/
structure ColumnWrites where
  name : Option (Option String) := none
  workspaceId : Option (Option String) := none
  metadata : Option (Option Metadata) := none

def SessionRow.writes (row : SessionRow) : ColumnWrites where
  name := row.name.map some
  workspaceId := row.workspaceId.map some
  metadata := some (some row.metadata)

def Guarded.writes : Guarded → ColumnWrites
  | .setWorkspace workspaceId => { workspaceId := some workspaceId }
  | .rename name => { name := some (some name) }
  | _ => {}

def StoredRow.overwrite (row : StoredRow) (w : ColumnWrites) : StoredRow where
  name := w.name.getD row.name
  workspaceId := w.workspaceId.getD row.workspaceId
  metadata := w.metadata.getD row.metadata

/-- The writes of the operation that holds the guard and of the rows that are carried. -/
def State.pending (s : State) (carried : List SessionRow) : List ColumnWrites :=
  (s.guarded.map Guarded.writes).toList ++ carried.map SessionRow.writes

variable {α : Type*} {stored value : α} {write : Option α} {writes others : List (Option α)}

/-- A column has the live value, or a write on its way has it. -/
def Settles (stored value : α) (writes : List (Option α)) : Prop :=
  stored = value ∨ some value ∈ writes

/-- A write leaves the column alone, has the live value, or is followed by one that has. -/
def Harmless (write : Option α) (value : α) (others : List (Option α)) : Prop :=
  write = none ∨ write = some value ∨ some value ∈ others

instance [DecidableEq α] : Decidable (Harmless write value others) :=
  inferInstanceAs (Decidable (_ ∨ _))

theorem Settles.mono (h : Settles stored value writes) (hsub : writes ⊆ others) :
    Settles stored value others :=
  h.imp_right fun hmem => hsub hmem

theorem Settles.overwrite (h : Settles stored value writes) (hsub : writes ⊆ write :: others)
    (hharmless : Harmless write value others) : Settles (write.getD stored) value others := by
  rcases hharmless with rfl | rfl | hother
  · rcases h with h | h
    · exact .inl h
    · rcases List.mem_cons.mp (hsub h) with hnone | hmem
      · cases hnone
      · exact .inr hmem
  · exact .inl rfl
  · exact .inr hother

/-- Every column settles. -/
structure RowSettles (row : StoredRow) (live : Session) (writes : List ColumnWrites) : Prop where
  name : Settles row.name live.name (writes.map (·.name))
  workspaceId : Settles row.workspaceId live.workspaceId (writes.map (·.workspaceId))
  metadata : Settles row.metadata (some live.metadata) (writes.map (·.metadata))

/-- Every column of the write is harmless. -/
def ColumnWrites.Harmless (w : ColumnWrites) (live : Session) (others : List ColumnWrites) : Prop :=
  Sessions.Harmless w.name live.name (others.map (·.name)) ∧
    Sessions.Harmless w.workspaceId live.workspaceId (others.map (·.workspaceId)) ∧
      Sessions.Harmless w.metadata (some live.metadata) (others.map (·.metadata))

instance (w : ColumnWrites) (live : Session) (others : List ColumnWrites) :
    Decidable (w.Harmless live others) := inferInstanceAs (Decidable (_ ∧ _))

section
variable {w : ColumnWrites} {writes others : List ColumnWrites}

theorem RowSettles.mono (h : RowSettles row live writes) (hsub : writes ⊆ others) :
    RowSettles row live others :=
  ⟨h.name.mono (List.map_subset _ hsub), h.workspaceId.mono (List.map_subset _ hsub),
    h.metadata.mono (List.map_subset _ hsub)⟩

theorem RowSettles.overwrite (h : RowSettles row live writes) (hsub : writes ⊆ w :: others)
    (hharmless : w.Harmless live others) : RowSettles (row.overwrite w) live others :=
  ⟨h.name.overwrite (List.map_subset _ hsub) hharmless.1,
    h.workspaceId.overwrite (List.map_subset _ hsub) hharmless.2.1,
    h.metadata.overwrite (List.map_subset _ hsub) hharmless.2.2⟩

/-- A session whose own row is carried settles, where it takes back neither name nor workspace. -/
theorem RowSettles.carry (h : RowSettles row live writes) (hname : session.name = none → live.name = none)
    (hworkspace : session.workspaceId = none → live.workspaceId = none) :
    RowSettles row session (writes ++ [(SessionRow.of session).writes]) := by
  refine ⟨?_, ?_, .inr (by simp [SessionRow.writes, SessionRow.of])⟩
  · cases hn : session.name with
    | none =>
      refine (hname hn ▸ h.name).mono ?_
      rw [List.map_append]
      exact List.subset_append_left _ _
    | some name => exact .inr (by simp [SessionRow.writes, SessionRow.of, hn])
  · cases hw : session.workspaceId with
    | none =>
      refine (hworkspace hw ▸ h.workspaceId).mono ?_
      rw [List.map_append]
      exact List.subset_append_left _ _
    | some workspaceId => exact .inr (by simp [SessionRow.writes, SessionRow.of, hw])

/-- Without a write on its way the row is the session's. -/
theorem RowSettles.eq (h : RowSettles row live []) :
    row.name = live.name ∧ row.workspaceId = live.workspaceId ∧ row.metadata = some live.metadata :=
  ⟨h.name.resolve_right List.not_mem_nil, h.workspaceId.resolve_right List.not_mem_nil,
    h.metadata.resolve_right List.not_mem_nil⟩
end

/-! ## The steps that keep memory and database together -/

/-- What a step must meet. -/
def Safe (s : State) : Action → Prop
  | .addMessage m => ∀ live ∈ s.cached, ∀ earlier ∈ live.messages, earlier.timestamp < m.timestamp
  | .writeBack index =>
    ∀ snapshot ∈ s.snapshots[index]?, ∃ live ∈ s.cached,
      live.messages = snapshot.session.messages ∧
        (snapshot.session.name = none → live.name = none) ∧
          (snapshot.session.workspaceId = none → live.workspaceId = none)
  | .persist index =>
    ∀ row ∈ s.carried[index]?, (s.cached = none → s.guarded = some .delete) ∧
      ∀ live ∈ s.cached, row.writes.Harmless live (s.pending (s.carried.eraseIdx index))
  | _ => True

instance (s : State) (a : Action) : Decidable (Safe s a) := by
  cases a <;> dsimp only [Safe] <;> infer_instance

/-! ## Storing and loading -/

@[simp] theorem fromDbStr_asDbStr (role : MessageRole) : MessageRole.fromDbStr role.asDbStr = role := by
  cases role <;> rfl

/-- A message is read back from its row. -/
theorem dbMessageToSessionMessage_of (m : SessionMessage) :
    dbMessageToSessionMessage (.of m) = m := by
  obtain ⟨id, role, content, timestamp, toolCalls, attachments, reasoning, timeline, usage⟩ := m
  simp only [dbMessageToSessionMessage, StoredMessage.of, fromDbStr_asDbStr, messageToMetadata]
  by_cases h : toolCalls = [] ∧ attachments = [] ∧ reasoning = none ∧ timeline = [] ∧ usage = none
  · obtain ⟨rfl, rfl, rfl, rfl, rfl⟩ := h
    rfl
  · rw [if_neg h]
    cases toolCalls <;> cases attachments <;> cases reasoning <;> cases timeline <;> cases usage <;> rfl

/-- Rows at ascending instants come back as they were inserted. -/
theorem orderByCreatedAt_eq {rows : List StoredMessage}
    (h : rows.Pairwise (·.createdAt < ·.createdAt)) : engine.orderByCreatedAt rows = rows := by
  have hdistinct : (rows.map (·.createdAt)).Nodup := List.pairwise_map.mpr (h.imp Nat.ne_of_lt)
  refine List.Perm.eq_of_pairwise (fun x y hx hy hle hge => ?_) (engine.ascending rows)
    (h.imp Nat.le_of_lt) (engine.perm rows)
  exact List.inj_on_of_nodup_map hdistinct ((engine.perm rows).subset hx) hy (Nat.le_antisymm hle hge)

@[simp] theorem persistRow_messages (db : Database) (row : SessionRow) :
    (db.persistRow row).messages = db.messages := by
  unfold Database.persistRow Database.upsertDaemonSession
  split <;> rfl

theorem persistRow_row {db : Database} (h : db.row = some row) (carried : SessionRow) :
    (db.persistRow carried).row = some (row.overwrite carried.writes) := by
  obtain ⟨name, workspaceId, metadata⟩ := carried
  simp only [Database.persistRow, Database.upsertDaemonSession, h]
  cases name <;> cases workspaceId <;> rfl

theorem store_row {db : Database} (h : db.row = some row) (hop : op ≠ .delete) :
    (op.store db).row = some (row.overwrite op.writes) := by
  cases op with
  | setWorkspace | rename =>
    simp only [Guarded.store, Database.setDaemonSessionWorkspace, Database.renameDaemonSession, h]
    rfl
  | addMessage | clear => exact h
  | delete => exact absurd rfl hop

/-! ## The invariant -/

/-- The database once the operation that holds the guard has stored. -/
def State.settled (s : State) : Database := (s.guarded.map fun op => op.store s.db).getD s.db

/-- How the database stands to a live session. -/
structure Matches (s : State) (live : Session) : Prop where
  row : ∃ row, s.db.row = some row ∧ RowSettles row live (s.pending s.carried)
  current : ∀ op, s.guarded = some op → op ≠ .delete ∧ op.writes.Harmless live []
  messages : s.settled.messages = live.messages.map .of
  ascending : live.messages.Pairwise (·.timestamp < ·.timestamp)
  due : s.due = live.messages

/-- The identifiers given out, and the turns that are dropped. -/
structure Identified (s : State) (live : Session) : Prop where
  known : ∀ m ∈ live.messages, m.id ∈ s.issued
  snapshots : ∀ snapshot ∈ s.snapshots, ∀ m ∈ snapshot.dropped,
    m.id ∈ s.issued ∧ m ∉ snapshot.session.messages
  dropped : ∀ m ∈ s.dropped, m.id ∈ s.issued ∧ m ∉ live.messages

/-- The life of the session. -/
inductive Inv (s : State) : Prop
  | unborn (h : s = {})
  | creating (name workspaceId : Option String)
      (h : s = { born := true, creating := some { name, workspaceId },
                 db := ({} : Database).persistRow (.of { name, workspaceId }) })
  | live (live : Session) (hcached : s.cached = some live) (hborn : s.born = true)
      (hcreating : s.creating = none) (hdeleted : s.deleted = false) (hmatches : Matches s live)
      (hids : Identified s live)
  | gone (hcached : s.cached = none) (hborn : s.born = true) (hcreating : s.creating = none)
      (hdue : s.due = []) (hdb : s.guarded = some .delete ∨ s.guarded = none ∧ s.db = {})

/-- Memory and database agree once every operation has returned. -/
theorem Inv.agrees (h : Inv s) (hquiet : s.Quiet) : Agrees engine s := by
  obtain ⟨hcreating, hguarded, hcarried, -⟩ := hquiet
  cases h with
  | unborn h =>
    subst h
    exact ⟨rfl, nofun, nofun, nofun⟩
  | creating name workspaceId h =>
    subst h
    cases hcreating
  | live live hcached hborn hcreating hdeleted hmatches hids =>
    obtain ⟨⟨row, hrow, hsettles⟩, -, hmessages, hascending, hdue⟩ := hmatches
    have hstored : s.db.messages = live.messages.map .of := by
      simpa [State.settled, hguarded] using hmessages
    have hload : (engine.orderByCreatedAt s.db.messages).map dbMessageToSessionMessage =
        live.messages := by
      rw [hstored, orderByCreatedAt_eq (List.pairwise_map.mpr hascending), List.map_map]
      exact List.map_id'' dbMessageToSessionMessage_of _
    have heq : RowSettles row live [] := by
      simpa [State.pending, hguarded, hcarried] using hsettles
    obtain ⟨hname, hworkspace, hmetadata⟩ := heq.eq
    refine ⟨?_, fun m hm => ⟨live, hcached, hdue ▸ hm⟩, fun h => ?_, fun m hm live' h => ?_⟩
    · rw [loadFromDb, hrow, Option.map_some, hload, hname, hworkspace, hmetadata, hcached]
      rfl
    · rw [hdeleted] at h
      cases h
    · obtain rfl : live = live' := Option.some.inj (hcached.symm.trans h)
      exact (hids.dropped m hm).2
  | gone hcached hborn hcreating hdue hdb =>
    have hempty : s.db = {} := (hdb.resolve_left (by simp [hguarded])).2
    refine ⟨?_, fun m hm => ?_, fun _ => hcached, fun m hm live h => ?_⟩
    · rw [hempty, hcached]
      rfl
    · rw [hdue] at hm
      cases hm
    · rw [hcached] at h
      cases h

/-! ## What a step keeps of a live session -/

theorem withSession_live {f : Session → State} (h : s.withSession f = some t)
    (hcached : s.cached = some live) : s.guarded = none ∧ t = f live := by
  unfold State.withSession at h
  split at h
  · rename_i hguarded
    rw [hcached] at h
    exact ⟨hguarded, (Option.some.inj h).symm⟩
  · cases h

theorem withSession_none {f : Session → State} (h : s.withSession f = some t)
    (hcached : s.cached = none) : t = s := by
  unfold State.withSession at h
  split at h
  · rw [hcached] at h
    exact (Option.some.inj h).symm
  · cases h

/-- Without an operation under the guard the stored messages are the cached ones. -/
theorem Matches.messages_eq (h : Matches s live) (hguarded : s.guarded = none) :
    s.db.messages = live.messages.map .of := by
  have hmessages := h.messages
  rw [State.settled, hguarded] at hmessages
  exact hmessages

/-- A changed session whose row is carried. -/
theorem Matches.carry (h : Matches s live) (hguarded : s.guarded = none)
    (hmessages : session.messages = live.messages)
    (hname : session.name = none → live.name = none)
    (hworkspace : session.workspaceId = none → live.workspaceId = none)
    (hdb : t.db = s.db) (hfree : t.guarded = none) (hcarried : t.carried = s.carried ++ [.of session])
    (hdue : t.due = s.due) : Matches t session where
  row := by
    obtain ⟨row, hrow, hsettles⟩ := h.row
    refine ⟨row, hdb ▸ hrow, ?_⟩
    have hpending : t.pending t.carried = s.pending s.carried ++ [(SessionRow.of session).writes] := by
      simp [State.pending, hfree, hguarded, hcarried]
    rw [hpending]
    exact hsettles.carry hname hworkspace
  current op hop := by
    rw [hfree] at hop
    cases hop
  messages := by
    rw [hmessages, ← h.messages]
    simp [State.settled, hfree, hguarded, hdb]
  ascending := hmessages ▸ h.ascending
  due := by rw [hdue, hmessages, h.due]

/-- A changed session while the guard is kept for the storage call. -/
theorem Matches.enter (h : Matches s live) (hguarded : s.guarded = none) (hop : op ≠ .delete)
    (hharmless : op.writes.Harmless session [])
    (hname : session.name = live.name ∨ op.writes.name = some session.name)
    (hworkspace : session.workspaceId = live.workspaceId ∨ op.writes.workspaceId = some session.workspaceId)
    (hmetadata : session.metadata = live.metadata)
    (hdb : t.db = s.db) (hkept : t.guarded = some op) (hcarried : t.carried = s.carried)
    (hmessages : (op.store s.db).messages = session.messages.map .of)
    (hascending : session.messages.Pairwise (·.timestamp < ·.timestamp))
    (hdue : t.due = session.messages) : Matches t session where
  row := by
    obtain ⟨row, hrow, hsettles⟩ := h.row
    refine ⟨row, hdb ▸ hrow, ?_⟩
    have hpending : t.pending t.carried = op.writes :: s.pending s.carried := by
      simp [State.pending, hkept, hguarded, hcarried]
    have hmore := hsettles.mono (List.subset_cons_self op.writes (s.pending s.carried))
    rw [hpending]
    refine ⟨?_, ?_, hmetadata ▸ hmore.metadata⟩
    · rcases hname with hname | hname
      · exact hname ▸ hmore.name
      · exact .inr (List.mem_cons.mpr (.inl hname.symm))
    · rcases hworkspace with hworkspace | hworkspace
      · exact hworkspace ▸ hmore.workspaceId
      · exact .inr (List.mem_cons.mpr (.inl hworkspace.symm))
  current op' hop' := by
    obtain rfl : op = op' := Option.some.inj (hkept.symm.trans hop')
    exact ⟨hop, hharmless⟩
  messages := by
    rw [← hmessages]
    simp [State.settled, hkept, hdb]
  ascending := hascending
  due := hdue

theorem Harmless.mono {α : Type*} {write : Option α} {value : α} {others more : List (Option α)}
    (h : Harmless write value others) (hsub : others ⊆ more) : Harmless write value more :=
  h.imp_right fun h => h.imp_right fun hmem => hsub hmem

theorem ColumnWrites.Harmless.of_nil {w : ColumnWrites} (h : w.Harmless live [])
    (others : List ColumnWrites) : w.Harmless live others :=
  ⟨h.1.mono (List.nil_subset _), h.2.1.mono (List.nil_subset _), h.2.2.mono (List.nil_subset _)⟩

/-- The storage call under the guard. -/
theorem Matches.finish (h : Matches s live) (hop : s.guarded = some op) :
    Matches { s with guarded := none, db := op.store s.db } live where
  row := by
    obtain ⟨row, hrow, hsettles⟩ := h.row
    obtain ⟨hne, hharmless⟩ := h.current op hop
    refine ⟨_, store_row hrow hne, ?_⟩
    have hpending : s.pending s.carried = op.writes :: s.carried.map SessionRow.writes := by
      simp [State.pending, hop]
    rw [hpending] at hsettles
    exact hsettles.overwrite (List.Subset.refl _) (hharmless.of_nil _)
  current op' hop' := nomatch hop'
  messages := by
    have hmessages := h.messages
    simp only [State.settled, hop, Option.map_some, Option.getD_some] at hmessages
    exact hmessages
  ascending := h.ascending
  due := h.due

theorem store_messages {db db' : Database} (h : db.messages = db'.messages) :
    (op.store db).messages = (op.store db').messages := by
  cases op with
  | addMessage m => exact congrArg (· ++ _) h
  | setWorkspace | rename => exact h
  | clear | delete => rfl

/-- The storage call of a carried row. -/
theorem Matches.persist {index : Nat} {carried : SessionRow} (h : Matches s live)
    (hrow : s.carried[index]? = some carried)
    (hharmless : carried.writes.Harmless live (s.pending (s.carried.eraseIdx index))) :
    Matches { s with db := s.db.persistRow carried, carried := s.carried.eraseIdx index } live where
  row := by
    obtain ⟨row, hdb, hsettles⟩ := h.row
    refine ⟨_, persistRow_row hdb carried, hsettles.overwrite (fun w hw => ?_) hharmless⟩
    obtain ⟨hlt, rfl⟩ := List.getElem?_eq_some_iff.mp hrow
    rcases List.mem_append.mp hw with hguarded | hcarried
    · exact List.mem_cons_of_mem _ (List.mem_append_left _ hguarded)
    · obtain ⟨carried, hmem, rfl⟩ := List.mem_map.mp hcarried
      rcases List.mem_cons.mp ((List.getElem_cons_eraseIdx_perm hlt).symm.subset hmem) with rfl | hother
      · exact List.mem_cons_self
      · exact List.mem_cons_of_mem _ (List.mem_append_right _ (List.mem_map_of_mem hother))
  current := h.current
  messages := by
    rw [← h.messages]
    unfold State.settled
    cases s.guarded with
    | none => exact persistRow_messages _ _
    | some op => exact store_messages (persistRow_messages _ _)
  ascending := h.ascending
  due := h.due

/-! ## What a step keeps -/

section
variable {model : Option Text} {tools : List Text} {dropped : List SessionMessage}

theorem applyChatModel_spec : (live.applyChatModel model).messages = live.messages ∧
    (live.applyChatModel model).name = live.name ∧
      (live.applyChatModel model).workspaceId = live.workspaceId := by
  unfold Session.applyChatModel
  split <;> exact ⟨rfl, rfl, rfl⟩

theorem applyChatTools_spec : (live.applyChatTools tools).messages = live.messages ∧
    (live.applyChatTools tools).name = live.name ∧
      (live.applyChatTools tools).workspaceId = live.workspaceId := by
  unfold Session.applyChatTools
  dsimp only
  split <;> exact ⟨rfl, rfl, rfl⟩

theorem update_spec {cached : Option Session} : (session.update cached).messages = session.messages ∧
    (session.update cached).name = session.name ∧
      (session.update cached).workspaceId = session.workspaceId := by
  unfold Session.update
  split
  · exact ⟨rfl, rfl, rfl⟩
  · split <;> exact ⟨rfl, rfl, rfl⟩

theorem takeLastUserTurn_spec (h : live.takeLastUserTurn = some (session, dropped)) :
    session.messages ++ dropped = live.messages := by
  obtain ⟨idx, -, hidx⟩ := Option.map_eq_some_iff.mp h
  obtain ⟨rfl, rfl⟩ := Prod.mk.inj hidx
  exact List.take_append_drop idx live.messages
end

theorem Identified.congr (h : Identified s live) (hmessages : ∀ m ∈ session.messages, m ∈ live.messages)
    (hissued : t.issued = s.issued) (hsnapshots : t.snapshots = s.snapshots)
    (hdropped : t.dropped = s.dropped) : Identified t session where
  known m hm := hissued ▸ h.known m (hmessages m hm)
  snapshots snapshot hsnapshot m hm := hissued ▸ h.snapshots snapshot (hsnapshots ▸ hsnapshot) m hm
  dropped m hm := by
    obtain ⟨hmem, hnot⟩ := h.dropped m (hdropped ▸ hm)
    exact ⟨hissued ▸ hmem, fun h => hnot (hmessages m h)⟩

/-- A message with a new identifier. -/
theorem Identified.add {m : SessionMessage} (h : Identified s live) (hnew : m.id ∉ s.issued)
    (hmessages : session.messages = live.messages ++ [m]) (hissued : t.issued = m.id :: s.issued)
    (hsnapshots : t.snapshots = s.snapshots) (hdropped : t.dropped = s.dropped) :
    Identified t session where
  known m' hm' := by
    rw [hissued]
    rcases List.mem_append.mp (hmessages ▸ hm') with hold | hlast
    · exact List.mem_cons_of_mem _ (h.known m' hold)
    · rw [List.mem_singleton.mp hlast]
      exact List.mem_cons_self
  snapshots snapshot hsnapshot m' hm' := by
    obtain ⟨hmem, hnot⟩ := h.snapshots snapshot (hsnapshots ▸ hsnapshot) m' hm'
    exact ⟨hissued ▸ List.mem_cons_of_mem _ hmem, hnot⟩
  dropped m' hm' := by
    obtain ⟨hmem, hnot⟩ := h.dropped m' (hdropped ▸ hm')
    refine ⟨hissued ▸ List.mem_cons_of_mem _ hmem, fun hin => ?_⟩
    rcases List.mem_append.mp (hmessages ▸ hin) with hold | hlast
    · exact hnot hold
    · rw [List.mem_singleton.mp hlast] at hmem
      exact hnew hmem

theorem Identified.snapshot {dropped : List SessionMessage} (h : Identified s live)
    (hascending : live.messages.Pairwise (·.timestamp < ·.timestamp))
    (htake : live.takeLastUserTurn = some (session, dropped)) :
    Identified { s with snapshots := s.snapshots ++ [{ session, dropped }] } live where
  known := h.known
  snapshots snapshot hsnapshot m hm := by
    rcases List.mem_append.mp hsnapshot with hold | hlast
    · exact h.snapshots snapshot hold m hm
    · obtain rfl := List.mem_singleton.mp hlast
      have hsplit := takeLastUserTurn_spec htake
      refine ⟨h.known m (hsplit ▸ List.mem_append_right _ hm), fun hkept => ?_⟩
      rw [← hsplit] at hascending
      exact Nat.lt_irrefl _ ((List.pairwise_append.mp hascending).2.2 m hkept m hm)
  dropped := h.dropped

theorem Identified.writeBack {index : Nat} {snapshot : Snapshot} (h : Identified s live)
    (hsnapshot : s.snapshots[index]? = some snapshot)
    (hlive : live.messages = snapshot.session.messages) (hmessages : session.messages = live.messages)
    (hissued : t.issued = s.issued) (hsnapshots : t.snapshots = s.snapshots.eraseIdx index)
    (hdropped : t.dropped = s.dropped ++ snapshot.dropped) : Identified t session where
  known m hm := hissued ▸ h.known m (hmessages ▸ hm)
  snapshots other hother m hm := by
    rw [hsnapshots] at hother
    exact hissued ▸ h.snapshots other ((List.eraseIdx_subset) hother) m hm
  dropped m hm := by
    rw [hissued, hmessages]
    rcases List.mem_append.mp (hdropped ▸ hm) with hold | hnew
    · exact h.dropped m hold
    · exact hlive ▸ h.snapshots snapshot (List.mem_of_getElem? hsnapshot) m hnew

/-- A live session stays with its database, or it is deleted. -/
theorem Inv.step_live (hsafe : Safe s a) (h : step engine s a = some t) (hcached : s.cached = some live)
    (hborn : s.born = true) (hcreating : s.creating = none) (hdeleted : s.deleted = false)
    (hmatches : Matches s live) (hids : Identified s live) : Inv t := by
  cases a with
  | create => simp [step, hborn] at h
  | insertCreated => simp [step, hcreating] at h
  | setChatModel model =>
    obtain ⟨hguarded, rfl⟩ := withSession_live h hcached
    obtain ⟨hmessages, hname, hworkspace⟩ := @applyChatModel_spec live model
    exact .live _ rfl hborn hcreating hdeleted
      (hmatches.carry hguarded hmessages (hname ▸ id) (hworkspace ▸ id) rfl hguarded rfl rfl)
      (hids.congr (fun _ hm => hmessages ▸ hm) rfl rfl rfl)
  | setChatTools tools =>
    obtain ⟨hguarded, rfl⟩ := withSession_live h hcached
    obtain ⟨hmessages, hname, hworkspace⟩ := @applyChatTools_spec live tools
    exact .live _ rfl hborn hcreating hdeleted
      (hmatches.carry hguarded hmessages (hname ▸ id) (hworkspace ▸ id) rfl hguarded rfl rfl)
      (hids.congr (fun _ hm => hmessages ▸ hm) rfl rfl rfl)
  | setWorkspace workspaceId =>
    obtain ⟨hguarded, rfl⟩ := withSession_live h hcached
    have hstored := hmatches.messages_eq hguarded
    exact .live _ rfl hborn hcreating hdeleted
      (hmatches.enter hguarded (show Guarded.setWorkspace workspaceId ≠ .delete from nofun)
        ⟨.inl rfl, .inr (.inl rfl), .inl rfl⟩ (.inl rfl) (.inr rfl) rfl rfl rfl rfl hstored
        hmatches.ascending hmatches.due)
      (hids.congr (fun _ hm => hm) rfl rfl rfl)
  | rename name =>
    obtain ⟨hguarded, rfl⟩ := withSession_live h hcached
    have hstored := hmatches.messages_eq hguarded
    exact .live _ rfl hborn hcreating hdeleted
      (hmatches.enter hguarded (show Guarded.rename name ≠ .delete from nofun)
        ⟨.inr (.inl rfl), .inl rfl, .inl rfl⟩ (.inr rfl) (.inl rfl) rfl rfl rfl rfl hstored
        hmatches.ascending hmatches.due)
      (hids.congr (fun _ hm => hm) rfl rfl rfl)
  | addMessage m =>
    rw [step] at h
    split at h
    · cases h
    · rename_i hnew
      obtain ⟨hguarded, rfl⟩ := withSession_live h hcached
      have hstored : (s.db.messages ++ [StoredMessage.of m]) = (live.messages ++ [m]).map .of := by
        rw [hmatches.messages_eq hguarded, List.map_append, List.map_singleton]
      have hascending : (live.messages ++ [m]).Pairwise (·.timestamp < ·.timestamp) := by
        refine List.pairwise_append.mpr ⟨hmatches.ascending, List.pairwise_singleton _ _, ?_⟩
        intro earlier hearlier later hlater
        rw [List.mem_singleton.mp hlater]
        exact hsafe live hcached earlier hearlier
      exact .live _ rfl hborn hcreating hdeleted
        (hmatches.enter hguarded (show Guarded.addMessage m ≠ .delete from nofun)
          ⟨.inl rfl, .inl rfl, .inl rfl⟩ (.inl rfl) (.inl rfl) rfl rfl rfl rfl
          hstored hascending (congrArg (· ++ [m]) hmatches.due))
        (hids.add hnew rfl rfl rfl rfl)
  | clear =>
    obtain ⟨hguarded, rfl⟩ := withSession_live h hcached
    exact .live _ rfl hborn hcreating hdeleted
      (hmatches.enter hguarded (show Guarded.clear ≠ .delete from nofun)
        ⟨.inl rfl, .inl rfl, .inl rfl⟩ (.inl rfl) (.inl rfl) rfl rfl rfl rfl rfl .nil
        rfl)
      (hids.congr (fun _ hm => absurd hm List.not_mem_nil) rfl rfl rfl)
  | delete =>
    obtain ⟨-, rfl⟩ := withSession_live h hcached
    exact .gone rfl hborn hcreating rfl (.inl rfl)
  | finish =>
    obtain ⟨op, hop, rfl⟩ := Option.map_eq_some_iff.mp h
    exact .live _ hcached hborn hcreating hdeleted (hmatches.finish hop)
      (hids.congr (fun _ hm => hm) rfl rfl rfl)
  | snapshot =>
    obtain ⟨-, rfl⟩ := withSession_live h hcached
    split
    · rename_i session dropped htake
      exact .live _ hcached hborn hcreating hdeleted
        ⟨hmatches.row, hmatches.current, hmatches.messages, hmatches.ascending, hmatches.due⟩
        (hids.snapshot hmatches.ascending htake)
    · exact .live _ hcached hborn hcreating hdeleted hmatches hids
  | writeBack index =>
    rw [step] at h
    split at h
    · rename_i hguarded
      obtain ⟨snapshot, hsnapshot, rfl⟩ := Option.map_eq_some_iff.mp h
      obtain ⟨live', hlive, hsame, hname, hworkspace⟩ := hsafe snapshot hsnapshot
      obtain rfl : live = live' := Option.some.inj (hcached.symm.trans hlive)
      obtain ⟨hmessages, hname', hworkspace'⟩ := @update_spec snapshot.session s.cached
      have hdue : s.due.filter (· ∉ snapshot.dropped) = s.due := by
        refine List.filter_eq_self.mpr fun m hm => decide_eq_true fun hdropped => ?_
        have hnot := (hids.snapshots snapshot (List.mem_of_getElem? hsnapshot) m hdropped).2
        exact hnot (hsame ▸ hmatches.due ▸ hm)
      exact .live _ rfl hborn hcreating hdeleted
        (hmatches.carry hguarded (hmessages.trans hsame.symm) (hname' ▸ hname)
          (hworkspace' ▸ hworkspace) rfl hguarded rfl hdue)
        (hids.writeBack hsnapshot hsame (hmessages.trans hsame.symm) rfl rfl rfl)
    · cases h
  | persist index =>
    obtain ⟨row, hrow, rfl⟩ := Option.map_eq_some_iff.mp h
    exact .live _ hcached hborn hcreating hdeleted
      (hmatches.persist hrow ((hsafe row hrow).2 live hcached))
      (hids.congr (fun _ hm => hm) rfl rfl rfl)
  | restart =>
    rw [step] at h
    split at h
    · rename_i hquiet
      obtain rfl := Option.some.inj h
      have hinv : Inv s := .live live hcached hborn hcreating hdeleted hmatches hids
      rw [(hinv.agrees hquiet).rebuilt]
      exact hinv
    · cases h

/-- Before its creation nothing but `create` changes the session. -/
theorem Inv.step_unborn (h : step engine {} a = some t) : Inv t := by
  have hsame : ∀ f, State.withSession {} f = some t → Inv t := fun f h => by
    obtain rfl := withSession_none h rfl
    exact .unborn rfl
  cases a with
  | create name workspaceId =>
    obtain rfl := Option.some.inj h
    exact .creating name workspaceId rfl
  | setChatModel | setChatTools | setWorkspace | rename | clear | delete | snapshot => exact hsame _ h
  | addMessage m =>
    rw [step, if_neg List.not_mem_nil] at h
    exact hsame _ h
  | restart =>
    obtain rfl := Option.some.inj h
    exact .unborn rfl
  | insertCreated | finish | writeBack | persist => cases h

/-- A session that is being created waits for its insertion. -/
theorem Inv.step_creating {name workspaceId : Option String}
    (hs : s = { born := true, creating := some { name, workspaceId },
                db := ({} : Database).persistRow (.of { name, workspaceId }) })
    (h : step engine s a = some t) : Inv t := by
  have hcached : s.cached = none := hs ▸ rfl
  have hsame : ∀ f, s.withSession f = some t → Inv t := fun f h => by
    obtain rfl := withSession_none h hcached
    exact .creating name workspaceId hs
  cases a with
  | setChatModel | setChatTools | setWorkspace | rename | clear | delete | snapshot => exact hsame _ h
  | addMessage m =>
    subst hs
    rw [step, if_neg List.not_mem_nil] at h
    exact hsame _ h
  | insertCreated =>
    subst hs
    obtain rfl := Option.some.inj h
    refine .live _ rfl rfl rfl rfl ⟨⟨_, rfl, .inl rfl, .inl rfl, .inl rfl⟩, nofun, rfl, .nil, rfl⟩ ?_
    exact ⟨nofun, nofun, nofun⟩
  | create | finish | writeBack | persist | restart =>
    subst hs
    cases h

/-- A deleted session stays away. -/
theorem Inv.step_gone (hsafe : Safe s a) (h : step engine s a = some t) (hcached : s.cached = none)
    (hborn : s.born = true) (hcreating : s.creating = none) (hdue : s.due = [])
    (hdb : s.guarded = some .delete ∨ s.guarded = none ∧ s.db = {}) : Inv t := by
  have hsame : ∀ f, s.withSession f = some t → Inv t := fun f h => by
    obtain rfl := withSession_none h hcached
    exact .gone hcached hborn hcreating hdue hdb
  cases a with
  | setChatModel | setChatTools | setWorkspace | rename | clear | delete | snapshot => exact hsame _ h
  | addMessage m =>
    rw [step] at h
    split at h
    · cases h
    · exact hsame _ h
  | create => simp [step, hborn] at h
  | insertCreated => simp [step, hcreating] at h
  | finish =>
    obtain ⟨op, hop, rfl⟩ := Option.map_eq_some_iff.mp h
    rcases hdb with hdelete | ⟨hfree, -⟩
    · obtain rfl : op = .delete := Option.some.inj (hop.symm.trans hdelete)
      exact .gone hcached hborn hcreating hdue (.inr ⟨rfl, rfl⟩)
    · rw [hfree] at hop
      cases hop
  | writeBack index =>
    rw [step] at h
    split at h
    · obtain ⟨snapshot, hsnapshot, -⟩ := Option.map_eq_some_iff.mp h
      obtain ⟨live, hlive, -⟩ := hsafe snapshot hsnapshot
      rw [hcached] at hlive
      cases hlive
    · cases h
  | persist index =>
    obtain ⟨row, hrow, rfl⟩ := Option.map_eq_some_iff.mp h
    exact .gone hcached hborn hcreating hdue (.inl ((hsafe row hrow).1 hcached))
  | restart =>
    rw [step] at h
    split at h
    · rename_i hquiet
      have hinv : Inv s := .gone hcached hborn hcreating hdue hdb
      obtain rfl := Option.some.inj h
      rw [(hinv.agrees hquiet).rebuilt]
      exact hinv
    · cases h

theorem Inv.step (hsafe : Safe s a) (h : step engine s a = some t) (hinv : Inv s) : Inv t := by
  cases hinv with
  | unborn hs =>
    subst hs
    exact Inv.step_unborn h
  | creating name workspaceId hs => exact Inv.step_creating hs h
  | live live hcached hborn hcreating hdeleted hmatches hids =>
    exact Inv.step_live hsafe h hcached hborn hcreating hdeleted hmatches hids
  | gone hcached hborn hcreating hdue hdb =>
    exact Inv.step_gone hsafe h hcached hborn hcreating hdue hdb

/-- **Main result.** In a run of safe steps memory and database agree whenever all operations have
returned. -/
theorem sessions_agree (h : Moves (step engine) Safe {} s) (hquiet : s.Quiet) : Agrees engine s :=
  (h.invariant Inv.step (.unborn rfl)).agrees hquiet

/-! ## What the conditions are for -/

/-- An engine that sorts by insertion. -/
def insertionEngine : Engine where
  orderByCreatedAt := List.insertionSort (·.createdAt ≤ ·.createdAt)
  perm := List.perm_insertionSort _
  ascending rows :=
    haveI : Std.Total fun a b : StoredMessage => a.createdAt ≤ b.createdAt :=
      ⟨fun _ _ => Nat.le_total _ _⟩
    haveI : IsTrans StoredMessage fun a b => a.createdAt ≤ b.createdAt := ⟨fun _ _ _ => Nat.le_trans⟩
    List.pairwise_insertionSort _ rows

def hello : SessionMessage := { id := "m1", role := .user, content := "hello", timestamp := 1 }

def reply : SessionMessage := { id := "m2", role := .assistant, content := "hi", timestamp := 2 }

/-- A run with a regenerate whose turn is cleared before it is written back. -/
def clearedTurn : List Action :=
  [.create (some "chat") none, .insertCreated, .setChatModel (some "qwen".toList), .persist 0,
    .addMessage hello, .finish, .snapshot, .clear, .finish, .writeBack 0, .persist 0, .restart]

theorem sessions_agree_clearedTurn : ∃ s, runActs (step insertionEngine) Safe {} clearedTurn = some s ∧
    Agrees insertionEngine s := by
  obtain ⟨s, hs, hquiet⟩ : ∃ s ∈ runActs (step insertionEngine) Safe {} clearedTurn, s.Quiet := by
    decide
  exact ⟨s, hs, sessions_agree (.of_acts hs) hquiet⟩

/-- Runs after which memory and database differ: a regenerate on its own; a message added while one is
under way; a `delete`, another pick and a `rename` while a pick of the model is under way; a workspace
that is given up meanwhile; and a clock that is put back. -/
def divergentRuns : List (List Action) :=
  let picked : List Action :=
    [.create (some "chat") (some "w"), .insertCreated, .setChatModel (some "a".toList)]
  [[.create none none, .insertCreated, .addMessage hello, .finish, .addMessage reply, .finish, .snapshot,
      .writeBack 0, .persist 0],
    [.create none none, .insertCreated, .addMessage hello, .finish, .snapshot, .addMessage reply, .finish,
      .writeBack 0, .persist 0],
    picked ++ [.delete, .finish, .persist 0],
    picked ++ [.setChatModel (some "b".toList), .persist 1, .persist 0],
    picked ++ [.rename "notes", .finish, .persist 0],
    picked ++ [.setWorkspace none, .finish, .persist 0],
    [.create none none, .insertCreated, .addMessage reply, .finish, .addMessage hello, .finish]]

/-- None of the conditions can be left out. -/
theorem session_defects : divergentRuns.Forall fun actions => ∃ s,
    runActs (step insertionEngine) (fun _ _ => True) {} actions = some s ∧ s.Quiet ∧
      ¬ Agrees insertionEngine s := by
  have hall : ∀ actions ∈ divergentRuns,
      ∃ s ∈ runActs (step insertionEngine) (fun _ _ => True) {} actions,
        s.Quiet ∧ loadFromDb insertionEngine s.db ≠ s.cached := by
    decide
  refine List.forall_iff_forall_mem.mpr fun actions hactions => ?_
  obtain ⟨s, hs, hquiet, hdiffer⟩ := hall actions hactions
  exact ⟨s, hs, hquiet, fun h => hdiffer h.rebuilt⟩

end Nanna.Daemon.Sessions
