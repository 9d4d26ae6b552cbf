import Nanna.Lib.Moves
import Nanna.Scripting.Eviction
import Mathlib.Data.Set.Function

/-!
# The undo law

`undo_law`: in every run of one session over files that the store may copy, whose contents the hash
tells apart, each checkpoint listed puts back what the file had when it was recorded; and the state
that a write or a restore displaces can be put back right after it exactly when the store had room to
keep it (`Fits`). The store makes room for a baseline, but never for a recent checkpoint at a
baseline's cost: in a session that baselines fill, a new state of a known file is recorded and dropped
in one call (`displaced_state_evicted`).

`Sound` is the invariant: the index is ordered and within its bounds, and every checkpoint is stored
as it was recorded. One critical section keeps it (`record_sound`) and keeps the state it was given
under `Fits` (`record_holds`).
-/

namespace Nanna.Scripting

open Nanna.Lib

/-! ## Files -/

section Files

variable {files files' : Files} {path : Path} {content : Bytes}

theorem not_mem_ancestors : path ∉ ancestors path := fun hmem => by
  obtain ⟨n, hn, htake⟩ := List.mem_map.mp hmem
  have hlength := congrArg List.length htake
  rw [List.length_take] at hlength
  have hlt := List.mem_range.mp hn
  omega

theorem writable_update {node : Option Node} (h : writable files path)
    (hnode : node ≠ some .dir) : writable (Function.update (createParents files path) path node) path := by
  simp only [writable, Bool.and_eq_true, Bool.not_eq_true', decide_eq_true_eq] at h ⊢
  refine ⟨?_, by rw [Function.update_self]; exact hnode⟩
  simp only [blocked, List.any_eq_false] at h ⊢
  intro dir hdir
  have hne : dir ≠ path := fun heq => not_mem_ancestors (heq ▸ hdir)
  rw [Function.update_of_ne hne, createParents]
  split_ifs with hnew
  · simp [Node.isFile]
  · exact h.1 dir hdir

theorem writable_remove (h : writable files path) :
    writable (Function.update files path none) path := by
  simp only [writable, Bool.and_eq_true, Bool.not_eq_true', decide_eq_true_eq] at h ⊢
  refine ⟨?_, by rw [Function.update_self]; nofun⟩
  simp only [blocked, List.any_eq_false] at h ⊢
  intro dir hdir
  have hne : dir ≠ path := fun heq => not_mem_ancestors (heq ▸ hdir)
  rw [Function.update_of_ne hne]
  exact h.1 dir hdir

/-- Creating directories creates no file. -/
theorem createParents_file {dir : Path} (h : createParents files path dir = some (.file content)) :
    files dir = some (.file content) := by
  unfold createParents at h
  split_ifs at h
  · cases h
  · exact h

end Files

/-! ## The invariant -/

/-- The contents that can be stored, told apart by the hash. -/
structure Storable (S : Set Bytes) : Prop where
  small : ∀ content ∈ S, content.length ≤ snapshotBytesMax
  hash : Set.InjOn fnv1a64 S

/-- The checkpoint and its snapshot are of a file in this state. -/
structure Stored (S : Set Bytes) (w : World) (c : Checkpoint) (content : Option Bytes) : Prop where
  existed : c.existed = content.isSome
  contentHash : c.contentHash = fnv1a64 (content.getD [])
  bytes : c.bytes = (content.getD []).length
  known : ∀ bytes, content = some bytes → bytes ∈ S
  snap : ∀ bytes, content = some bytes → w.snaps c.seq = some bytes

/-- What a file path holds, as a snapshot would say it. -/
def nodeOf (content : Option Bytes) : Option Node := content.map .file

structure Sound (S : Set Bytes) (past : Checkpoint → Option Bytes → Prop) (w : World) : Prop where
  files : ∀ path content, w.files path = some (.file content) → content ∈ S
  ordered : Ordered w.index.checkpoints
  below : ∀ c ∈ w.index.checkpoints, c.seq < w.index.nextSeq
  baselineCount : (w.index.checkpoints.filter fun c => c.baseline).length ≤ baselineCheckpointsMax
  bytes : totalBytes w.index.checkpoints ≤ sessionBytesMax
  stored : ∀ c ∈ w.index.checkpoints, ∃ content, Stored S w c content ∧ past c content

/-- The critical section, as it reaches the store: the state of the path, and what it makes of it. -/
def Fits (w : World) (path : Path) (content : Option Bytes) : Prop :=
  w.previous path = none ∨ (w.previous path).any (·.describes content) = true ∨
    (∃ c ∈ w.index.checkpoints, c.path = path ∧ c.baseline = true ∧ c.describes content = true) ∨
    totalBytes (w.index.checkpoints.filter fun c => c.baseline) + (content.getD []).length ≤
      sessionBytesMax

section Sound

variable {S : Set Bytes} {past past' : Checkpoint → Option Bytes → Prop} {w w' : World} {path : Path}
  {content content' : Option Bytes} {c : Checkpoint}

theorem describes_iff : c.describes content = true ↔
    c.existed = content.isSome ∧ c.contentHash = fnv1a64 (content.getD []) := by
  simp [Checkpoint.describes]

/-- The hash tells the contents apart, and the flag tells a missing file apart. -/
theorem Stored.eq_of_describes (hS : Storable S) (h : Stored S w c content)
    (hknown : ∀ bytes, content' = some bytes → bytes ∈ S) (hdescribes : c.describes content' = true) :
    content = content' := by
  obtain ⟨hexisted, hhash⟩ := describes_iff.mp hdescribes
  rw [h.existed] at hexisted
  rw [h.contentHash] at hhash
  cases content with
  | none =>
    cases content' with
    | none => rfl
    | some bytes' => cases hexisted
  | some bytes =>
    cases content' with
    | none => cases hexisted
    | some bytes' => rw [hS.hash (h.known bytes rfl) (hknown bytes' rfl) hhash]

theorem Stored.describes (h : Stored S w c content) : c.describes content = true :=
  describes_iff.mpr ⟨h.existed, h.contentHash⟩

theorem previous_mem (h : w.previous path = some c) :
    c ∈ w.index.checkpoints ∧ c.path = path := by
  have hpath := List.find?_some h
  rw [decide_eq_true_eq] at hpath
  exact ⟨List.mem_reverse.mp (List.mem_of_find?_eq_some h), hpath⟩

theorem previous_eq_none (h : w.previous path = none) (hc : c ∈ w.index.checkpoints) :
    c.path ≠ path := by
  simpa using List.find?_eq_none.mp h c (List.mem_reverse.mpr hc)

theorem Stored.mono (h : Stored S w c content) (hsnap : w'.snaps c.seq = w.snaps c.seq) :
    Stored S w' c content :=
  ⟨h.existed, h.contentHash, h.bytes, h.known, fun bytes hbytes => hsnap.trans (h.snap bytes hbytes)⟩

theorem Sound.mono (h : Sound S past w) (hpast : ∀ c content, past c content → past' c content) :
    Sound S past' w :=
  { h with
    stored := fun c hc => by
      obtain ⟨content, hstored, hc⟩ := h.stored c hc
      exact ⟨content, hstored, hpast c content hc⟩ }

theorem Sound.ordered_append (h : Sound S past w) (path : Path) (content : Option Bytes) :
    Ordered (w.index.checkpoints ++ [w.checkpoint path content]) := by
  refine List.pairwise_append.mpr ⟨h.ordered, List.pairwise_singleton _ _, fun c hc d hd => ?_⟩
  rw [List.mem_singleton.mp hd]
  exact h.below c hc

/-- The critical section keeps the invariant. -/
theorem record_sound (h : Sound S past w) (hknown : ∀ bytes, content = some bytes → bytes ∈ S)
    (hpast : ∀ c content, past c content → past' c content)
    (hnew : ∀ c, (w.record path content).1 = some c → past' c content) :
    Sound S past' (w.record path content).2 := by
  have hordered := h.ordered_append path content
  revert hnew
  unfold World.record
  by_cases hsame : (w.previous path).any (·.describes content) = true
  · rw [if_pos hsame]
    exact fun _ => h.mono hpast
  · rw [if_neg hsame]
    intro hnew
    obtain ⟨gr, kr, gb, kb, hevicted⟩ := evictions_spec hordered
    have hrecents := hevicted.surviving_recents hordered
    have hbaselines := hevicted.surviving_baselines hordered
    refine ⟨h.files, hordered.filter _, fun c hc => ?_, ?_, ?_, fun c hc => ?_⟩
    · rcases List.mem_append.mp (List.mem_filter.mp hc).1 with hc | hc
      · exact Nat.lt_succ_of_lt (h.below c hc)
      · rw [List.mem_singleton.mp hc]
        exact Nat.lt_succ_self _
    · change ((surviving _).filter fun c => c.baseline).length ≤ _
      rw [hbaselines]
      exact hevicted.baselineCount
    · change totalBytes (surviving _) ≤ _
      rw [totalBytes_partition, hrecents, hbaselines]
      exact hevicted.bytes
    · obtain ⟨hc, hkept⟩ := List.mem_filter.mp hc
      have hkept := of_decide_eq_true hkept
      rcases List.mem_append.mp hc with hc | hc
      · obtain ⟨old, hstored, hold⟩ := h.stored c hc
        refine ⟨old, hstored.mono ?_, hpast c old hold⟩
        have hne : c.seq ≠ (w.checkpoint path content).seq := Nat.ne_of_lt (h.below c hc)
        simp only [if_neg hkept]
        split_ifs
        · exact Function.update_of_ne hne _ _
        · rfl
      · rw [List.mem_singleton.mp hc] at hkept ⊢
        refine ⟨content, ⟨rfl, rfl, rfl, hknown, fun bytes hbytes => ?_⟩, hnew _ rfl⟩
        simp only [if_neg hkept]
        rw [hbytes, Option.isSome_some, if_pos rfl, Function.update_self]

/-- It keeps the state it was given exactly when there is room. -/
theorem record_holds (hS : Storable S) (h : Sound S past w)
    (hknown : ∀ bytes, content = some bytes → bytes ∈ S) :
    (∃ c ∈ (w.record path content).2.index.checkpoints,
      c.path = path ∧ c.describes content = true) ↔ Fits w path content := by
  have hordered := h.ordered_append path content
  unfold World.record Fits
  by_cases hsame : (w.previous path).any (·.describes content) = true
  · rw [if_pos hsame]
    refine ⟨fun _ => .inr (.inl hsame), fun _ => ?_⟩
    obtain ⟨c, hc, hdescribes⟩ := (Option.any_eq_true _ _).mp hsame
    obtain ⟨hmem, hpath⟩ := previous_mem hc
    exact ⟨c, hmem, hpath, hdescribes⟩
  · rw [if_neg hsame]
    obtain ⟨gr, kr, gb, kb, hevicted⟩ := evictions_spec hordered
    have hrecents := hevicted.surviving_recents hordered
    have hbaselines := hevicted.surviving_baselines hordered
    set new := w.checkpoint path content with hnewdef
    change (∃ c ∈ surviving (w.index.checkpoints ++ [new]), _) ↔ _
    have hnewDescribes : new.describes content = true := describes_iff.mpr ⟨rfl, rfl⟩
    have hmem : ∀ c ∈ kr ++ kb, c ∈ surviving (w.index.checkpoints ++ [new]) := by
      intro c hc
      rcases List.mem_append.mp hc with hc | hc
      · exact (List.mem_filter.mp (hrecents ▸ hc)).1
      · exact (List.mem_filter.mp (hbaselines ▸ hc)).1
    have hsmall : new.bytes ≤ sessionBytesMax := by
      have hsnapshot : (content.getD []).length ≤ snapshotBytesMax := by
        cases content with
        | none => exact Nat.zero_le _
        | some bytes => exact hS.small bytes (hknown bytes rfl)
      exact hsnapshot.trans (by decide)
    cases hprevious : w.previous path with
    | none =>
      -- the path's first checkpoint is a baseline, and the newest
      refine ⟨fun _ => .inl rfl, fun _ => ?_⟩
      have hbaseline : new.baseline = true := by
        rw [hnewdef, World.checkpoint, hprevious]
        rfl
      have hnewest : gb ++ kb = (w.index.checkpoints.filter fun c => c.baseline) ++ [new] := by
        rw [← hevicted.baselines, List.filter_append, List.filter_singleton, hbaseline]
        rfl
      obtain ⟨pre, hkb⟩ := exists_concat_of_append hnewest (hevicted.newestBaseline _ _ hnewest hsmall)
      refine ⟨new, hmem new ?_, rfl, hnewDescribes⟩
      rw [hkb]
      simp
    | some last =>
      have hrecent : new.baseline = false := by
        rw [hnewdef, World.checkpoint, hprevious]
        rfl
      have hbs : (w.index.checkpoints ++ [new]).filter (fun c => c.baseline) =
          w.index.checkpoints.filter fun c => c.baseline := by
        rw [List.filter_append, List.filter_singleton, hrecent]
        exact List.append_nil _
      have hnewest : gr ++ kr = (w.index.checkpoints.filter fun c => !c.baseline) ++ [new] := by
        rw [← hevicted.recents, List.filter_append, List.filter_singleton, hrecent]
        rfl
      have hpool := hevicted.baselines
      rw [hbs] at hpool
      have hlength := h.baselineCount
      have hbytes := h.bytes
      rw [totalBytes_partition] at hbytes
      rw [hpool, List.length_append] at hlength
      rw [hpool, totalBytes_append] at hbytes
      have hgb : gb = [] := hevicted.baselinesStay hlength (by omega)
      have hkb : kb = w.index.checkpoints.filter fun c => c.baseline := by
        rw [hpool, hgb, List.nil_append]
      have hroom := hevicted.newestRecent _ _ hnewest hgb
      rw [hkb] at hroom
      have hroom' : kr ≠ [] ↔ totalBytes (w.index.checkpoints.filter fun c => c.baseline) +
          (content.getD []).length ≤ sessionBytesMax := by
        rw [Ne, hroom]
        exact Nat.not_lt
      rw [hprevious] at hsame
      constructor
      · rintro ⟨c, hc, hpath, hdescribes⟩
        cases hkind : c.baseline with
        | true =>
          have hc : c ∈ kb := hbaselines ▸ List.mem_filter.mpr ⟨hc, hkind⟩
          rw [hkb] at hc
          exact .inr (.inr (.inl ⟨c, (List.mem_filter.mp hc).1, hpath, hkind, hdescribes⟩))
        | false =>
          have hc : c ∈ kr := hrecents ▸ List.mem_filter.mpr ⟨hc, by rw [hkind]; rfl⟩
          exact .inr (.inr (.inr (hroom'.mp (List.ne_nil_of_mem hc))))
      · rintro (hnone | hlast | ⟨c, hc, hpath, hkind, hdescribes⟩ | hfits)
        · cases hnone
        · exact absurd hlast hsame
        · refine ⟨c, hmem c (List.mem_append_right _ ?_), hpath, hdescribes⟩
          rw [hkb]
          exact List.mem_filter.mpr ⟨hc, hkind⟩
        · obtain ⟨pre, hkr⟩ := exists_concat_of_append hnewest (hroom'.mpr hfits)
          refine ⟨new, hmem new (List.mem_append_left _ ?_), rfl, hnewDescribes⟩
          rw [hkr]
          simp

end Sound

/-! ## Calls -/

/-- The content of a file. -/
def contentOf : Option Node → Option Bytes
  | some (.file content) => some content
  | _ => none

section Calls

variable {S : Set Bytes} {past : Checkpoint → Option Bytes → Prop} {w w' : World} {path : Path}
  {content : Option Bytes} {c : Checkpoint}

theorem nodeOf_contentOf {node : Option Node} (h : node ≠ some .dir) : nodeOf (contentOf node) = node := by
  match node with
  | none => rfl
  | some (.file _) => rfl
  | some .dir => exact absurd rfl h

theorem record_files : (w.record path content).2.files = w.files := by
  unfold World.record
  split <;> rfl

theorem Sound.known (h : Sound S past w) : ∀ bytes, contentOf (w.files path) = some bytes → bytes ∈ S := by
  intro bytes hbytes
  unfold contentOf at hbytes
  split at hbytes
  · rename_i content hfile
    obtain rfl := Option.some.inj hbytes
    exact h.files path _ hfile
  · cases hbytes

/-- The call records the state of the path, unless that is a directory. -/
theorem recordBeforeWrite_ok (hS : Storable S) (h : Sound S past w) {out : Option Checkpoint}
    (hok : w.recordBeforeWrite path = .ok (out, w')) :
    (w.files path = some .dir ∧ out = none ∧ w' = w) ∨
      (w.files path ≠ some .dir ∧ w.record path (contentOf (w.files path)) = (out, w')) := by
  unfold World.recordBeforeWrite at hok
  split_ifs at hok
  split at hok
  · rename_i hdir
    cases hok
    exact .inl ⟨hdir, rfl, rfl⟩
  · rename_i content hfile
    have hsmall := hS.small content (h.files path content hfile)
    rw [if_neg (Nat.not_lt.mpr hsmall)] at hok
    refine .inr ⟨by rw [hfile]; nofun, ?_⟩
    rw [hfile]
    exact Except.ok.inj hok
  · rename_i hnone
    refine .inr ⟨by rw [hnone]; nofun, ?_⟩
    rw [hnone]
    exact Except.ok.inj hok

/-- On a path that can be written the call does not fail. -/
theorem recordBeforeWrite_of_writable (hS : Storable S) (h : Sound S past w)
    (hwritable : writable w.files path) :
    w.recordBeforeWrite path = .ok (w.record path (contentOf (w.files path))) := by
  simp only [writable, Bool.and_eq_true, Bool.not_eq_true', decide_eq_true_eq] at hwritable
  unfold World.recordBeforeWrite
  rw [hwritable.1, if_neg Bool.false_ne_true]
  split
  · rename_i hdir
    exact absurd hdir hwritable.2
  · rename_i content hfile
    rw [if_neg (Nat.not_lt.mpr (hS.small content (h.files path content hfile))), hfile]
    rfl
  · rename_i hnone
    rw [hnone]
    rfl

/-- The last part of a restore leaves the index alone, and the path in the state it was given. -/
theorem put_ok {r : Restored} (h : w.put path content = .ok (r, w')) :
    w'.files path = nodeOf content ∧ writable w'.files path ∧ w'.index = w.index ∧
      w'.snaps = w.snaps ∧ ∀ other bytes, w'.files other = some (.file bytes) →
        w.files other = some (.file bytes) ∨ content = some bytes := by
  cases content with
  | none =>
    unfold World.put removeFile at h
    simp only at h
    split at h
    · rename_i files hfiles
      split_ifs at hfiles with hwritable
      cases hfiles
      cases h
      refine ⟨Function.update_self _ _ _, writable_remove hwritable, rfl, rfl, ?_⟩
      intro other bytes hother
      by_cases hsame : other = path
      · rw [hsame] at hother
        simp only [Function.update_self] at hother
        cases hother
      · simp only [Function.update_of_ne hsame] at hother
        exact .inl hother
    · cases h
  | some bytes =>
    unfold World.put writeFile at h
    simp only at h
    split at h
    · rename_i files hfiles
      split_ifs at hfiles with hwritable
      cases hfiles
      cases h
      refine ⟨Function.update_self _ _ _, writable_update hwritable nofun, rfl, rfl, ?_⟩
      intro other bytes' hother
      by_cases hsame : other = path
      · rw [hsame] at hother
        simp only [Function.update_self] at hother
        obtain rfl : bytes = bytes' := by simpa using hother
        exact .inr rfl
      · simp only [Function.update_of_ne hsame] at hother
        exact .inl (createParents_file hother)
    · cases h

theorem put_of_writable (h : writable w.files path) (content : Option Bytes) :
    ∃ r w', w.put path content = .ok (r, w') := by
  cases content <;> simp [World.put, removeFile, writeFile, h]

/-- The files change, and nothing that is stored. -/
theorem Sound.setFiles (h : Sound S past w) (hindex : w'.index = w.index) (hsnaps : w'.snaps = w.snaps)
    (hfiles : ∀ path content, w'.files path = some (.file content) → content ∈ S) : Sound S past w' where
  files := hfiles
  ordered := hindex ▸ h.ordered
  below := hindex ▸ h.below
  baselineCount := hindex ▸ h.baselineCount
  bytes := hindex ▸ h.bytes
  stored := by
    rw [hindex]
    intro c hc
    obtain ⟨content, hstored, hpast⟩ := h.stored c hc
    exact ⟨content, hstored.mono (by rw [hsnaps]), hpast⟩

theorem readSnapshot_eq (h : Stored S w c content) : w.readSnapshot c = .ok content := by
  unfold World.readSnapshot
  rw [h.existed]
  cases content with
  | none => rfl
  | some bytes => rw [Option.isSome_some, if_pos rfl, h.snap bytes rfl]

theorem find_seq (h : Ordered w.index.checkpoints) (hc : c ∈ w.index.checkpoints) :
    w.index.checkpoints.find? (·.seq = c.seq) = some c := by
  cases hfind : w.index.checkpoints.find? (·.seq = c.seq) with
  | none => exact absurd (List.find?_eq_none.mp hfind c hc) (by simp)
  | some d =>
    have hseq := List.find?_some hfind
    rw [decide_eq_true_eq] at hseq
    rw [seq_inj h (List.mem_of_find?_eq_some hfind) hc hseq]

/-- Restoring the checkpoint puts the path in this state. -/
def Restores (w : World) (seq : Nat) (path : Path) (node : Option Node) : Prop :=
  ∃ r w', w.restore seq = .ok (r, w') ∧ w'.files path = node

theorem restores (hS : Storable S) (h : Sound S past w) (hc : c ∈ w.index.checkpoints)
    (hstored : Stored S w c content) (hwritable : writable w.files c.path) :
    Restores w c.seq c.path (nodeOf content) := by
  have hrecord := recordBeforeWrite_of_writable hS h hwritable
  have hwritable' : writable (w.record c.path (contentOf (w.files c.path))).2.files c.path := by
    rw [record_files]
    exact hwritable
  obtain ⟨r, w', hput⟩ := put_of_writable hwritable' content
  refine ⟨r, w', ?_, (put_ok hput).1⟩
  unfold World.restore
  rw [find_seq h.ordered hc]
  simp only [readSnapshot_eq hstored, hrecord]
  exact hput

/-- What a restore does: it reads a snapshot, records the state it displaces, and puts the snapshot
in its place. -/
theorem restore_ok (h : Sound S past w) {seq : Nat} {r : Restored}
    (hok : w.restore seq = .ok (r, w')) :
    ∃ c content out w₁, w.index.checkpoints.find? (·.seq = seq) = some c ∧ Stored S w c content ∧
      w.recordBeforeWrite c.path = .ok (out, w₁) ∧ w₁.put c.path content = .ok (r, w') := by
  unfold World.restore at hok
  split at hok
  · cases hok
  · rename_i c hfind
    obtain ⟨content, hstored, -⟩ := h.stored c (List.mem_of_find?_eq_some hfind)
    rw [readSnapshot_eq hstored] at hok
    obtain ⟨_, hread, hok⟩ := bind_eq_ok.mp hok
    obtain rfl := Except.ok.inj hread
    obtain ⟨⟨out, w₁⟩, hrecord, hput⟩ := bind_eq_ok.mp hok
    exact ⟨c, content, out, w₁, hfind, hstored, hrecord, hput⟩

/-- A script's write, past its snapshot, is a `put`. -/
theorem write_ok {bytes : Bytes} (h : w.step (.write path bytes) = some w') :
    ∃ r, (w.beforeWrite path).put path (some bytes) = .ok (r, w') := by
  obtain ⟨files, hfiles, rfl⟩ := Option.map_eq_some_iff.mp h
  unfold World.put
  simp only
  rw [hfiles]
  exact ⟨_, rfl⟩

/-- A step that displaces a state records it first, and leaves a path that can be written. -/
theorem displaces_step (hS : Storable S) (h : Sound S past w) {act : FileAct}
    (hstep : w.step act = some w') (hdisplaces : w.displaces act = some path) :
    w.files path ≠ some .dir ∧ writable w'.files path ∧
      w'.index = (w.record path (contentOf (w.files path))).2.index := by
  have hput : ∀ {out w₁ content r}, w.recordBeforeWrite path = .ok (out, w₁) →
      w₁.put path content = .ok (r, w') → w.files path ≠ some .dir ∧ writable w'.files path ∧
        w'.index = (w.record path (contentOf (w.files path))).2.index := by
    intro out w₁ content r hrecord hput
    obtain ⟨-, hwritable, hindex, -⟩ := put_ok hput
    rcases recordBeforeWrite_ok hS h hrecord with ⟨hdir, -, rfl⟩ | ⟨hfile, heq⟩
    · cases content <;> simp [World.put, removeFile, writeFile, writable, hdir] at hput
    · refine ⟨hfile, hwritable, ?_⟩
      rw [hindex, heq]
  cases act with
  | record path' => cases hdisplaces
  | write path' bytes =>
    simp only [World.displaces] at hdisplaces
    split_ifs at hdisplaces with hkeeping
    obtain rfl := Option.some.inj hdisplaces
    obtain ⟨r, hwrite⟩ := write_ok hstep
    unfold World.beforeWrite at hwrite
    rw [if_neg hkeeping] at hwrite
    split at hwrite
    · rename_i out w₁ hrecord
      exact hput hrecord hwrite
    · rename_i e hrecord
      -- what could not be recorded cannot be written either
      have hwritable : ¬writable w.files path' = true := fun hwritable => by
        rw [recordBeforeWrite_of_writable hS h hwritable] at hrecord
        cases hrecord
      simp [World.put, writeFile, hwritable] at hwrite
  | restore seq =>
    obtain ⟨⟨r, w₂⟩, hok, rfl⟩ := Option.map_eq_some_iff.mp hstep
    cases hrestore : w.restore seq with
    | error e =>
      rw [hrestore] at hok
      cases hok
    | ok pair =>
      rw [hrestore] at hok
      obtain rfl := Option.some.inj hok
      obtain ⟨c, content, out, w₁, hfind, -, hrecord, hwrite⟩ := restore_ok h hrestore
      rw [World.displaces, hfind] at hdisplaces
      obtain rfl := Option.some.inj hdisplaces
      exact hput hrecord hwrite

/-- The displaced state can be put back exactly when there was room for it. -/
theorem displaced_iff {past' : Checkpoint → Option Bytes → Prop} (hS : Storable S)
    (h : Sound S past w) (h' : Sound S past' w') {act : FileAct} (hstep : w.step act = some w')
    (hdisplaces : w.displaces act = some path) :
    (∃ c ∈ w'.index.checkpoints, c.path = path ∧ Restores w' c.seq path (w.files path)) ↔
      Fits w path (contentOf (w.files path)) := by
  obtain ⟨hfile, hwritable, hindex⟩ := displaces_step hS h hstep hdisplaces
  rw [← record_holds hS h h.known, ← hindex]
  have hnode := nodeOf_contentOf hfile
  constructor
  · rintro ⟨c, hc, rfl, r, w₂, hrestore, hstate⟩
    refine ⟨c, hc, rfl, ?_⟩
    obtain ⟨content, hstored, -⟩ := h'.stored c hc
    obtain ⟨r', w₃, hrestore', hstate'⟩ := restores hS h' hc hstored hwritable
    obtain ⟨-, rfl⟩ := Prod.mk.inj (Except.ok.inj (hrestore.symm.trans hrestore'))
    rw [hstate, ← hnode] at hstate'
    have hsame : contentOf (w.files c.path) = content :=
      Option.map_injective (fun a b h => by cases h; rfl) hstate'
    rw [hsame]
    exact hstored.describes
  · rintro ⟨c, hc, rfl, hdescribes⟩
    obtain ⟨content, hstored, -⟩ := h'.stored c hc
    refine ⟨c, hc, rfl, ?_⟩
    rw [← hnode, ← hstored.eq_of_describes hS h.known hdescribes]
    exact restores hS h' hc hstored hwritable

end Calls

/-! ## Runs -/

/-- A script writes what the store may copy. -/
def Admits (S : Set Bytes) (_ : World) : FileAct → Prop
  | .write _ content => content ∈ S
  | _ => True

/-- A run of one session, without I/O failures. -/
def Run (S : Set Bytes) : World → World → Prop := Moves World.step (Admits S)

/-- The checkpoint was recorded on the way from `w₀` to `w`, of a file in this state. -/
def Recorded (S : Set Bytes) (w₀ w : World) (c : Checkpoint) (content : Option Bytes) : Prop :=
  ∃ v, Run S w₀ v ∧ Run S v w ∧ (∃ v', v.recordBeforeWrite c.path = .ok (some c, v')) ∧
    v.files c.path = nodeOf content

section Run

variable {S : Set Bytes} {w₀ w w' : World}

theorem record_path {path : Path} {content : Option Bytes} {c : Checkpoint}
    (h : (w.record path content).1 = some c) : c.path = path := by
  unfold World.record at h
  split at h
  · cases h
  · cases h
    rfl

/-- A call that records keeps the invariant of a run that goes on from here. -/
theorem recordBeforeWrite_sound (hS : Storable S) {past : Checkpoint → Option Bytes → Prop}
    (h : Sound S (Recorded S w₀ w) w) {path : Path} {out : Option Checkpoint} {w₁ : World}
    (hok : w.recordBeforeWrite path = .ok (out, w₁))
    (hpast : ∀ c content, Recorded S w₀ w c content → past c content)
    (hnew : ∀ c content, (∃ v, w.recordBeforeWrite c.path = .ok (some c, v)) →
      w.files c.path = nodeOf content → past c content) : Sound S past w₁ := by
  rcases recordBeforeWrite_ok hS h hok with ⟨-, -, rfl⟩ | ⟨hfile, heq⟩
  · exact h.mono hpast
  · have hrecord : ∀ c, (w.record path (contentOf (w.files path))).1 = some c →
        past c (contentOf (w.files path)) := by
      intro c hc
      obtain rfl := record_path hc
      rw [heq] at hc
      have hc : out = some c := hc
      exact hnew c _ ⟨w₁, hc ▸ hok⟩ (nodeOf_contentOf hfile).symm
    have hsound := record_sound h h.known hpast hrecord
    rw [heq] at hsound
    exact hsound

theorem step_sound (hS : Storable S) (hreach : Run S w₀ w) (h : Sound S (Recorded S w₀ w) w)
    {act : FileAct} (hok : Admits S w act) (hstep : w.step act = some w') :
    Sound S (Recorded S w₀ w') w' := by
  have hmove : Run S w w' := Relation.ReflTransGen.single ⟨act, hok, hstep⟩
  have hpast : ∀ c content, Recorded S w₀ w c content → Recorded S w₀ w' c content := by
    rintro c content ⟨v, hv, hvw, hrecord⟩
    exact ⟨v, hv, hvw.trans hmove, hrecord⟩
  have hrecorded : ∀ {path out w₁}, w.recordBeforeWrite path = .ok (out, w₁) →
      Sound S (Recorded S w₀ w') w₁ := fun hrecord =>
    recordBeforeWrite_sound hS h hrecord hpast fun c content hc hstate =>
      ⟨w, hreach, hmove, hc, hstate⟩
  have hput : ∀ {w₁ path content r}, Sound S (Recorded S w₀ w') w₁ →
      w₁.put path content = .ok (r, w') → (∀ bytes, content = some bytes → bytes ∈ S) →
      Sound S (Recorded S w₀ w') w' := by
    intro w₁ path content r h₁ hput hknown
    obtain ⟨-, -, hindex, hsnaps, hfiles⟩ := put_ok hput
    refine h₁.setFiles hindex hsnaps fun other bytes hother => ?_
    rcases hfiles other bytes hother with hold | hnew
    · exact h₁.files other bytes hold
    · exact hknown bytes hnew
  cases act with
  | record path =>
    obtain ⟨⟨out, w₁⟩, hrecord, rfl⟩ := Option.map_eq_some_iff.mp hstep
    cases hresult : w.recordBeforeWrite path with
    | error e =>
      rw [hresult] at hrecord
      cases hrecord
    | ok pair =>
      rw [hresult] at hrecord
      obtain rfl := Option.some.inj hrecord
      exact hrecorded hresult
  | write path bytes =>
    obtain ⟨r, hwrite⟩ := write_ok hstep
    refine hput ?_ hwrite fun bytes' hbytes => ?_
    · unfold World.beforeWrite
      split_ifs
      · exact h.mono hpast
      · split
        · rename_i out w₁ hrecord
          exact hrecorded hrecord
        · exact h.mono hpast
    · obtain rfl := Option.some.inj hbytes
      exact hok
  | restore seq =>
    obtain ⟨⟨r, w₂⟩, hresult, rfl⟩ := Option.map_eq_some_iff.mp hstep
    cases hrestore : w.restore seq with
    | error e =>
      rw [hrestore] at hresult
      cases hresult
    | ok pair =>
      rw [hrestore] at hresult
      obtain rfl := Option.some.inj hresult
      obtain ⟨c, content, out, w₁, -, hstored, hrecord, hwrite⟩ := restore_ok h hrestore
      exact hput (hrecorded hrecord) hwrite hstored.known

theorem start_sound {files : Files}
    (hfiles : ∀ path content, files path = some (.file content) → content ∈ S)
    (past : Checkpoint → Option Bytes → Prop) : Sound S past (World.start files) :=
  ⟨hfiles, List.Pairwise.nil, nofun, Nat.zero_le _, Nat.zero_le _, nofun⟩

theorem run_sound (hS : Storable S) {files : Files}
    (hfiles : ∀ path content, files path = some (.file content) → content ∈ S)
    (hrun : Run S (World.start files) w) : Sound S (Recorded S (World.start files) w) w := by
  induction hrun with
  | refl => exact start_sound hfiles _
  | tail hprev hlast ih =>
    obtain ⟨act, hok, hstep⟩ := hlast
    exact step_sound hS hprev ih hok hstep

end Run

/-- **Main result.** In every run of one session: a listed checkpoint puts back, on any path that can be
written, the state its file had when it was recorded; and right after a step that displaces a state,
that state can be put back if and only if there was room for it. -/
theorem undo_law (S : Set Bytes) (hS : Storable S) (files : Files)
    (hfiles : ∀ path content, files path = some (.file content) → content ∈ S) (w : World)
    (hrun : Run S (World.start files) w) :
    (∀ c ∈ w.index.checkpoints, ∃ v, Run S (World.start files) v ∧ Run S v w ∧
      (∃ v', v.recordBeforeWrite c.path = .ok (some c, v')) ∧
      (writable w.files c.path → Restores w c.seq c.path (v.files c.path))) ∧
    ∀ act w' path, Admits S w act → w.step act = some w' → w.displaces act = some path →
      ((∃ c ∈ w'.index.checkpoints, c.path = path ∧ Restores w' c.seq path (w.files path)) ↔
        Fits w path (contentOf (w.files path))) := by
  have hsound := run_sound hS hfiles hrun
  refine ⟨fun c hc => ?_, fun act w' path hok hstep hdisplaces => ?_⟩
  · obtain ⟨content, hstored, v, hv, hvw, hrecord, hstate⟩ := hsound.stored c hc
    refine ⟨v, hv, hvw, hrecord, fun hwritable => ?_⟩
    rw [hstate]
    exact restores hS hsound hc hstored hwritable
  · exact displaced_iff hS hsound (step_sound hS hrun hsound hok hstep) hstep hdisplaces

/-! ## A small session -/

def smallContents : Set Bytes := {[1], [2]}

theorem small_storable : Storable smallContents := by
  refine ⟨?_, ?_⟩
  · rintro content (rfl | rfl) <;> decide
  · rintro a (rfl | rfl) b (rfl | rfl) h <;> first | rfl | exact absurd h (by decide)

def smallFiles : Files := fun path => if path = ["a"] then some (.file [1]) else none

/-- A file is overwritten, and the write is undone; what the restore displaced can be put back. -/
theorem undo_law_small : ∃ w w' : World,
    (World.start smallFiles).step (.write ["a"] [2]) = some w ∧ w.step (.restore 0) = some w' ∧
    (∀ c ∈ w.index.checkpoints, ∃ v, Run smallContents (World.start smallFiles) v ∧
      Run smallContents v w ∧ (∃ v', v.recordBeforeWrite c.path = .ok (some c, v')) ∧
      (writable w.files c.path → Restores w c.seq c.path (v.files c.path))) ∧
    ∃ c ∈ w'.index.checkpoints, c.path = ["a"] ∧ Restores w' c.seq ["a"] (some (.file [2])) := by
  have hrun : ((World.start smallFiles).step (.write ["a"] [2])).map (fun w =>
      (w.files ["a"], (w.step (.restore 0)).isSome, w.displaces (.restore 0),
        decide (totalBytes (w.index.checkpoints.filter fun c => c.baseline) = 1))) =
      some (some (.file [2]), true, some ["a"], true) := by
    decide
  obtain ⟨w, hwrite, hdata⟩ := Option.map_eq_some_iff.mp hrun
  simp only [Prod.mk.injEq, decide_eq_true_eq] at hdata
  obtain ⟨hfile, hrestore, hdisplaces, hbytes⟩ := hdata
  obtain ⟨w', hw'⟩ := Option.isSome_iff_exists.mp hrestore
  have hfiles : ∀ path content, smallFiles path = some (.file content) → content ∈ smallContents := by
    intro path content h
    unfold smallFiles at h
    split_ifs at h
    cases h
    exact .inl rfl
  have hadmits : Admits smallContents (World.start smallFiles) (.write ["a"] [2]) := .inr rfl
  have hmoves : Run smallContents (World.start smallFiles) w := .single ⟨_, hadmits, hwrite⟩
  obtain ⟨hlisted, hdisplaced⟩ := undo_law smallContents small_storable smallFiles hfiles w hmoves
  refine ⟨w, w', hwrite, hw', hlisted, ?_⟩
  rw [← hfile]
  refine (hdisplaced (.restore 0) w' ["a"] trivial hw' hdisplaces).mpr (.inr (.inr (.inr ?_)))
  rw [hbytes, hfile]
  decide

/-! ## A session full of baselines -/

/-- The largest file, of zeros. -/
@[irreducible] def zeros : Bytes := List.replicate snapshotBytesMax 0

theorem length_zeros : zeros.length = snapshotBytesMax := by
  rw [zeros, List.length_replicate]

def bulkContents : Set Bytes := {zeros, [1]}

theorem zeros_mem : zeros ∈ bulkContents := Set.mem_insert _ _

theorem one_mem : [1] ∈ bulkContents := Set.mem_insert_of_mem _ (Set.mem_singleton _)

/-- A hash stays odd over zeros. -/
theorem odd_fnv1a64_zeros (n : Nat) : (fnv1a64 (List.replicate n 0)).toNat % 2 = 1 := by
  have hfold : ∀ hash : UInt64, hash.toNat % 2 = 1 → ((List.replicate n (0 : UInt8)).foldl
      (fun hash byte => (hash ^^^ byte.toUInt64) * 0x00000100000001b3) hash).toNat % 2 = 1 := by
    induction n with
    | zero => exact fun _ h => h
    | succ n ih =>
      intro hash h
      rw [List.replicate_succ, List.foldl_cons]
      refine ih _ ?_
      have hxor : hash ^^^ (0 : UInt8).toUInt64 = hash := by simp
      rw [hxor, UInt64.toNat_mul]
      have hprime : (0x00000100000001b3 : UInt64).toNat = 1099511628211 := rfl
      rw [hprime]
      omega
  exact hfold _ (by decide)

theorem fnv1a64_zeros_ne : fnv1a64 zeros ≠ fnv1a64 [1] := fun h => by
  have hodd := odd_fnv1a64_zeros snapshotBytesMax
  rw [← zeros, h] at hodd
  exact absurd hodd (by decide)

theorem bulk_storable : Storable bulkContents := by
  refine ⟨?_, ?_⟩
  · rintro content (rfl | rfl)
    · exact length_zeros.le
    · decide
  · rintro a (rfl | rfl) b (rfl | rfl) h
    · rfl
    · exact absurd h fnv1a64_zeros_ne
    · exact absurd h.symm fnv1a64_zeros_ne
    · rfl

def bulkPath (i : Nat) : Path := [String.ofList (List.replicate i 'g')]

theorem bulkPath_injective {i j : Nat} (h : bulkPath i = bulkPath j) : i = j := by
  have hname := String.ofList_injective (List.cons.inj h).1
  simpa using congrArg List.length hname

def bulkFiles : Files := fun path =>
  if path ∈ (List.range 32).map bulkPath then some (.file zeros) else none

def bulkCheckpoint (i : Nat) : Checkpoint :=
  ⟨i, bulkPath i, true, snapshotBytesMax, fnv1a64 zeros, true⟩

theorem bulkFiles_bulkPath {i : Nat} (h : i < 32) : bulkFiles (bulkPath i) = some (.file zeros) :=
  if_pos (List.mem_map_of_mem (List.mem_range.mpr h))

theorem blocked_bulk {files : Files} (hroot : files [] = none) (i : Nat) :
    blocked files (bulkPath i) = false := by
  simp [blocked, ancestors, bulkPath, hroot]

theorem bulkFiles_root : bulkFiles [] = none := if_neg (by simp [bulkPath])

theorem previous_bulk {w : World} {k : Nat} (hindex : w.index = ⟨k, (List.range k).map bulkCheckpoint⟩) :
    w.previous (bulkPath k) = none := by
  refine List.find?_eq_none.mpr fun c hc => ?_
  rw [List.mem_reverse, hindex] at hc
  obtain ⟨i, hi, rfl⟩ := List.mem_map.mp hc
  have hne : bulkPath i ≠ bulkPath k := fun h => by
    have hlt := List.mem_range.mp hi
    have := bulkPath_injective h
    omega
  simp [bulkCheckpoint, hne]

theorem totalBytes_bulk (k : Nat) : totalBytes ((List.range k).map bulkCheckpoint) =
    k * snapshotBytesMax := by
  rw [totalBytes, List.map_map]
  have hconst : (Checkpoint.bytes ∘ bulkCheckpoint) = fun _ => snapshotBytesMax := rfl
  rw [hconst, List.map_const', List.length_range, List.sum_replicate_nat]

theorem baselines_bulk (k : Nat) : ((List.range k).map bulkCheckpoint).filter (fun c => c.baseline) =
    (List.range k).map bulkCheckpoint := by
  refine List.filter_eq_self.mpr fun c hc => ?_
  obtain ⟨i, -, rfl⟩ := List.mem_map.mp hc
  rfl

/-- Nothing goes while the baselines fit. -/
theorem evictions_bulk {k : Nat} (h : k ≤ 32) :
    evictions ((List.range k).map bulkCheckpoint) = [] := by
  have hordered : Ordered ((List.range k).map bulkCheckpoint) :=
    List.pairwise_map.mpr (List.pairwise_lt_range.imp fun h => h)
  obtain ⟨gr, kr, gb, kb, hevicted⟩ := evictions_spec hordered
  have hrecents := hevicted.recents
  have hbaselines := hevicted.baselines
  have hnone : ((List.range k).map bulkCheckpoint).filter (fun c => !c.baseline) = [] := by
    refine List.filter_eq_nil_iff.mpr fun c hc => ?_
    obtain ⟨i, -, rfl⟩ := List.mem_map.mp hc
    simp [bulkCheckpoint]
  rw [hnone] at hrecents
  rw [baselines_bulk] at hbaselines
  obtain ⟨rfl, -⟩ := List.append_eq_nil_iff.mp hrecents.symm
  have hlength := congrArg List.length hbaselines
  rw [List.length_map, List.length_range, List.length_append] at hlength
  have hbytes := congrArg totalBytes hbaselines
  rw [totalBytes_bulk, totalBytes_append] at hbytes
  have hgb : gb = [] := by
    refine hevicted.baselinesStay ?_ ?_
    · rw [← hlength]
      exact h.trans (by decide)
    · rw [← hbytes]
      exact (Nat.mul_le_mul_right _ h).trans (by decide)
  refine List.eq_nil_iff_forall_not_mem.mpr fun seq hseq => ?_
  rw [hevicted.dropped, hgb] at hseq
  cases hseq

/-- Recording the files one by one lists each as a baseline. -/
theorem run_bulk : ∀ k ≤ 32, ∃ w, Run bulkContents (World.start bulkFiles) w ∧ w.files = bulkFiles ∧
    w.index = ⟨k, (List.range k).map bulkCheckpoint⟩
  | 0, _ => ⟨_, .refl, rfl, rfl⟩
  | k + 1, hk => by
    obtain ⟨w, hrun, hfiles, hindex⟩ := run_bulk k (by omega)
    have hprevious := previous_bulk hindex
    have hcheckpoint : w.checkpoint (bulkPath k) (some zeros) = bulkCheckpoint k := by
      unfold World.checkpoint
      rw [hprevious, hindex]
      simp [bulkCheckpoint, length_zeros]
    have hlisted : w.index.checkpoints ++ [w.checkpoint (bulkPath k) (some zeros)] =
        (List.range (k + 1)).map bulkCheckpoint := by
      rw [hcheckpoint, hindex, List.range_succ, List.map_append]
      rfl
    have hrecord : w.recordBeforeWrite (bulkPath k) = .ok (w.record (bulkPath k) (some zeros)) := by
      unfold World.recordBeforeWrite
      rw [hfiles, blocked_bulk bulkFiles_root, if_neg Bool.false_ne_true,
        bulkFiles_bulkPath (by omega)]
      simp [length_zeros]
    have hstep : w.step (.record (bulkPath k)) = some (w.record (bulkPath k) (some zeros)).2 := by
      rw [World.step, hrecord]
      rfl
    refine ⟨_, hrun.tail ⟨.record (bulkPath k), trivial, hstep⟩, record_files.trans hfiles, ?_⟩
    unfold World.record
    rw [hprevious, Option.any_none, if_neg Bool.false_ne_true]
    simp only
    rw [hlisted, evictions_bulk hk, hindex]
    simp

theorem bulk_known {path : Path} {content : Bytes} (h : bulkFiles path = some (.file content)) :
    content ∈ bulkContents := by
  unfold bulkFiles at h
  split_ifs at h
  cases h
  exact zeros_mem

theorem previous_of_bulk {w : World} {k i : Nat} (hi : i < k)
    (hindex : w.index = ⟨k, (List.range k).map bulkCheckpoint⟩) :
    w.previous (bulkPath i) = some (bulkCheckpoint i) := by
  have hmem : bulkCheckpoint i ∈ w.index.checkpoints := by
    rw [hindex]
    exact List.mem_map_of_mem (List.mem_range.mpr hi)
  cases hprevious : w.previous (bulkPath i) with
  | none => exact absurd rfl (previous_eq_none hprevious hmem)
  | some c =>
    obtain ⟨hc, hpath⟩ := previous_mem hprevious
    rw [hindex] at hc
    obtain ⟨j, -, rfl⟩ := List.mem_map.mp hc
    rw [bulkPath_injective hpath]

theorem contentHash_bulk (i : Nat) : (bulkCheckpoint i).contentHash = fnv1a64 zeros := rfl

/-- There is no room for another state beside the baselines. -/
theorem not_fits_bulk {w : World} (hindex : w.index = ⟨32, (List.range 32).map bulkCheckpoint⟩) :
    ¬Fits w (bulkPath 1) (some [1]) := by
  have hdescribes : ∀ i, ¬(bulkCheckpoint i).describes (some [1]) = true := fun i h => by
    have hhash := (describes_iff.mp h).2
    rw [contentHash_bulk, Option.getD_some] at hhash
    exact fnv1a64_zeros_ne hhash
  have hprevious := previous_of_bulk (by decide : 1 < 32) hindex
  rintro (hnone | hlast | ⟨c, hc, -, -, hheld⟩ | hroom)
  · rw [hprevious] at hnone
    cases hnone
  · rw [hprevious, Option.any_some] at hlast
    exact hdescribes 1 hlast
  · rw [hindex] at hc
    obtain ⟨i, -, rfl⟩ := List.mem_map.mp hc
    exact hdescribes i hheld
  · rw [hindex, baselines_bulk, totalBytes_bulk] at hroom
    exact absurd hroom (by decide)

/-- The session is full of baselines: what the second write displaces is gone at once. -/
theorem displaced_state_evicted : ∃ (S : Set Bytes) (files : Files) (w w' : World) (path : Path)
    (content : Bytes), Storable S ∧
    (∀ path content, files path = some (.file content) → content ∈ S) ∧
    Run S (World.start files) w ∧ content ∈ S ∧ w.step (.write path content) = some w' ∧
    w.displaces (.write path content) = some path ∧
    ¬∃ c ∈ w'.index.checkpoints, c.path = path ∧ Restores w' c.seq path (w.files path) := by
  obtain ⟨w, hrun, hfiles, hindex⟩ := run_bulk 32 le_rfl
  have hlive : bulkFiles (bulkPath 1) = some (.file zeros) := bulkFiles_bulkPath (by decide)
  have hkeeping : ¬isToolHousekeeping (bulkPath 1) = true := by decide
  have hwritable : writable bulkFiles (bulkPath 1) := by
    unfold writable
    rw [blocked_bulk bulkFiles_root, hlive]
    rfl
  have hwrite : ∀ (v : World) (content : Bytes), Sound bulkContents (fun _ _ => True) v →
      writable v.files (bulkPath 1) → v.step (.write (bulkPath 1) content) = some
        { (v.record (bulkPath 1) (contentOf (v.files (bulkPath 1)))).2 with
          files := Function.update (createParents v.files (bulkPath 1)) (bulkPath 1)
            (some (.file content)) } := by
    intro v content hsound hwritable
    unfold World.step World.beforeWrite
    simp only
    rw [if_neg hkeeping, recordBeforeWrite_of_writable bulk_storable hsound hwritable]
    simp only
    unfold writeFile
    rw [record_files, if_pos hwritable]
    rfl
  -- the first write displaces what the baseline holds
  have hsound : Sound bulkContents (fun _ _ => True) w :=
    (run_sound bulk_storable (fun _ _ => bulk_known) hrun).mono fun _ _ _ => trivial
  have hfirst := hwrite w [1] hsound (by rw [hfiles]; exact hwritable)
  have hsame : w.record (bulkPath 1) (contentOf (w.files (bulkPath 1))) = (none, w) := by
    unfold World.record
    rw [hfiles, hlive, previous_of_bulk (by decide : 1 < 32) hindex]
    have hdescribes : (bulkCheckpoint 1).describes (contentOf (some (.file zeros))) = true := by
      refine describes_iff.mpr ⟨rfl, ?_⟩
      rw [contentHash_bulk, contentOf, Option.getD_some]
    rw [Option.any_some, if_pos hdescribes]
  rw [hsame] at hfirst
  set w₁ : World := { w with
    files := Function.update (createParents w.files (bulkPath 1)) (bulkPath 1) (some (.file [1])) }
  have hrun₁ : Run bulkContents (World.start bulkFiles) w₁ :=
    hrun.tail ⟨.write (bulkPath 1) [1], one_mem, hfirst⟩
  have hsound₁ := run_sound bulk_storable (fun _ _ => bulk_known) hrun₁
  have hwritable₁ : writable w₁.files (bulkPath 1) :=
    writable_update (by rw [hfiles]; exact hwritable) nofun
  have hsecond := hwrite w₁ zeros (hsound₁.mono fun _ _ _ => trivial) hwritable₁
  have hdisplaces : w₁.displaces (.write (bulkPath 1) zeros) = some (bulkPath 1) := by
    rw [World.displaces, if_neg hkeeping]
  have hadmits : Admits bulkContents w₁ (.write (bulkPath 1) zeros) := zeros_mem
  refine ⟨bulkContents, bulkFiles, w₁, _, bulkPath 1, zeros, bulk_storable, fun _ _ => bulk_known,
    hrun₁, zeros_mem, hsecond, hdisplaces, ?_⟩
  rw [displaced_iff bulk_storable hsound₁
    (step_sound bulk_storable hrun₁ hsound₁ hadmits hsecond) hsecond hdisplaces]
  have hstate : w₁.files (bulkPath 1) = some (.file [1]) := by
    simp only [w₁, Function.update_self]
  rw [hstate]
  exact not_fits_bulk hindex

end Nanna.Scripting
