import Nanna.Memory.Consolidate
import Mathlib.Data.List.Perm.Subperm

/-!
# The safety envelope of a consolidation run

`consolidation_envelope`: every cluster a run sends to the summarizer is of raw episodes of one scope;
the run removes no more rows, net, than its budget; and a cluster whose summary fails, at any of the
three points, keeps every row as it was, also to the end of the run.

The proof is one ownership argument. Each phase holds copies that no other phase holds (`owed`), and
writes only the rows of the copies it was given (`KeepsBut`); so the rows of the copies still owed
follow them (`Tracks`), and the rows of a cluster that failed stay. The bound is the linear relation
`Spent`, which each phase keeps while it moves rows to the budget.
-/

namespace Nanna.Memory

open Nanna.Lib

variable {F : Type} [Scalar F]

/-! ## Rows that a write does not touch -/

/-- The row without its vectors. -/
def MemoryEntry.bare (entry : MemoryEntry F) : MemoryEntry F := entry.retext entry.content

/-- The rows outside `ids` are still there and, vectors apart, as they were. -/
def KeepsBut (ids : List String) (s s' : Store F) : Prop :=
  ∀ id ∉ ids, ∀ row, s.get id = some row → (s'.get id).map (·.bare) = some row.bare

/-- The row of a copy says what the copy says. -/
def Tracks (s : Store F) (copy : MemoryEntry F) : Prop :=
  ∃ row, s.get copy.id = some row ∧ row.content = copy.content ∧
    row.workspaceId = copy.workspaceId ∧ row.fsrs.generation = copy.fsrs.generation

section KeepsBut

variable {ids ids' : List String} {s s' s'' : Store F} {id : String}

omit [Scalar F] in
theorem get_id {row : MemoryEntry F} (h : s.get id = some row) : row.id = id := by
  have hid := List.find?_some h
  rw [decide_eq_true_eq] at hid
  exact hid

omit [Scalar F] in
theorem KeepsBut.refl : KeepsBut ids s s := fun id _ row h => by rw [h]; rfl

omit [Scalar F] in
theorem KeepsBut.trans (h : KeepsBut ids s s') (h' : KeepsBut ids s' s'') :
    KeepsBut ids s s'' := by
  intro id hid row hrow
  obtain ⟨row', hrow', hbare⟩ := Option.map_eq_some_iff.mp (h id hid row hrow)
  rw [← hbare]
  exact h' id hid row' hrow'

omit [Scalar F] in
theorem KeepsBut.mono (h : KeepsBut ids s s') (hsub : ids ⊆ ids') : KeepsBut ids' s s' :=
  fun id hid => h id fun hmem => hid (hsub hmem)

omit [Scalar F] in
theorem rebind_bare (entry : MemoryEntry F) (model : String) :
    (entry.rebind model).bare = entry.bare := by
  unfold MemoryEntry.rebind
  split <;> rfl

omit [Scalar F] in
theorem get_rebind (model : String) (dimension : Nat) :
    (s.rebind model dimension).get id = (s.get id).map (·.rebind model) := by
  rw [Store.get, Store.rebind, List.find?_map, Store.get]
  congr 1
  refine congrArg (List.find? · s.entries) (funext fun entry => ?_)
  have hid : (entry.rebind model).id = entry.id := congrArg Record.id (Store.rebind_record entry model)
  simp [hid]

omit [Scalar F] in
theorem keepsBut_hear (svc : Service F) (reply : EmbedReply F) :
    KeepsBut [] svc.store (svc.hear reply).store := by
  unfold Service.hear
  split
  · intro id _ row hrow
    rw [get_rebind, hrow]
    exact congrArg some (rebind_bare row _)
  · exact KeepsBut.refl

omit [Scalar F] in
theorem get_modify {f : MemoryEntry F → MemoryEntry F} (hf : ∀ entry, (f entry).id = entry.id) :
    (s.modify id f).get id = (s.get id).map f :=
  find?_modifyFirst fun entry => by simp [hf]

omit [Scalar F] in
theorem keepsBut_modify {f : MemoryEntry F → MemoryEntry F} (hf : ∀ entry, (f entry).id = entry.id) :
    KeepsBut [id] s (s.modify id f) := by
  intro id' hid row hrow
  have hne : id ≠ id' := fun h => hid (List.mem_singleton.mpr h.symm)
  have hsame : (s.modify id f).get id' = s.get id' := by
    refine find?_modifyFirst_of_disjoint fun entry hentry => ?_
    simp only [decide_eq_true_eq] at hentry
    simp [hf, hentry, hne]
  rw [hsame, hrow]
  rfl

theorem keepsBut_add {entry : MemoryEntry F} (h : s.add entry = .ok s') : KeepsBut [] s s' := by
  obtain ⟨⟨⟩, -, h⟩ := bind_eq_ok.mp h
  cases h
  intro id _ row hrow
  have hsome : ∀ l, (s.entries ++ l).find? (·.id = id) = some row := by
    intro l
    rw [List.find?_append, show s.entries.find? (·.id = id) = some row from hrow]
    rfl
  rw [Store.get, hsome]
  rfl

omit [Scalar F] in
theorem keepsBut_removeManyMatching (pairs : List (String × Text)) :
    KeepsBut (pairs.map (·.1)) s (s.removeManyMatching pairs).1 := by
  intro id hid row hrow
  have hsame : (s.removeManyMatching pairs).1.get id = s.get id := by
    rw [Store.get, Store.removeManyMatching, List.find?_filter, Store.get]
    refine congrArg (List.find? · s.entries) (funext fun entry => ?_)
    by_cases hentry : entry.id = id
    · have hkept : Store.expectedContent pairs entry.id ≠ some entry.content := fun h =>
        hid (hentry ▸ List.mem_map_of_mem (f := Prod.fst) (Store.mem_of_expectedContent h))
      simp [hkept]
    · simp [hentry]
  rw [hsame, hrow]
  rfl

omit [Scalar F] in
theorem Tracks.keepsBut {copy : MemoryEntry F} (h : Tracks s copy) (hkeeps : KeepsBut ids s s')
    (hid : copy.id ∉ ids) : Tracks s' copy := by
  obtain ⟨row, hrow, hcontent, hscope, hgeneration⟩ := h
  obtain ⟨row', hrow', hbare⟩ := Option.map_eq_some_iff.mp (hkeeps copy.id hid row hrow)
  have hcontent' : row'.bare.content = row.bare.content := by rw [hbare]
  have hscope' : row'.bare.workspaceId = row.bare.workspaceId := by rw [hbare]
  have hfsrs : row'.bare.fsrs = row.bare.fsrs := by rw [hbare]
  exact ⟨row', hrow', hcontent'.trans hcontent, hscope'.trans hscope,
    (congrArg FsrsState.generation hfsrs).trans hgeneration⟩

omit [Scalar F] in
/-- A copy follows the rewrite of its row. -/
theorem tracks_modify {f : MemoryEntry F → MemoryEntry F} {row : MemoryEntry F}
    (copy : MemoryEntry F) (hf : ∀ entry, (f entry).id = entry.id) (hrow : s.get copy.id = some row)
    (hcontent : (f row).content = copy.content) (hscope : (f row).workspaceId = copy.workspaceId)
    (hgeneration : (f row).fsrs.generation = copy.fsrs.generation) :
    Tracks (s.modify copy.id f) copy :=
  ⟨f row, by rw [get_modify hf, hrow]; rfl, hcontent, hscope, hgeneration⟩

end KeepsBut

/-! ## Counting rows -/

def Store.ids (s : Store F) : List String := s.entries.map (·.id)

section Ids

variable {s s' : Store F} {id : String}

omit [Scalar F] in
theorem length_ids : s.ids.length = s.entries.length := List.length_map _

omit [Scalar F] in
theorem hear_ids (svc : Service F) (reply : EmbedReply F) :
    (svc.hear reply).store.ids = svc.store.ids := by
  have hrecords : (svc.hear reply).store.records.map (·.id) = svc.store.records.map (·.id) := by
    rw [hear_records]
  rw [Store.records, Store.records, List.map_map, List.map_map] at hrecords
  exact hrecords

omit [Scalar F] in
theorem modify_ids {f : MemoryEntry F → MemoryEntry F} (hf : ∀ entry, (f entry).id = entry.id) :
    (s.modify id f).ids = s.ids := map_modifyFirst fun entry _ => hf entry

theorem add_ids {entry : MemoryEntry F} (h : s.add entry = .ok s') : s'.ids = s.ids ++ [entry.id] := by
  obtain ⟨⟨⟩, -, h⟩ := bind_eq_ok.mp h
  cases h
  exact List.map_append

omit [Scalar F] in
theorem removeManyMatching_ids_sublist (pairs : List (String × Text)) :
    (s.removeManyMatching pairs).1.ids.Sublist s.ids := List.filter_sublist.map _

omit [Scalar F] in
/-- A matched removal takes at most one row for each pair. -/
theorem length_le_removeManyMatching (pairs : List (String × Text)) (h : s.ids.Nodup) :
    s.entries.length ≤ (s.removeManyMatching pairs).1.entries.length + pairs.length := by
  let gone (entry : MemoryEntry F) : Bool :=
    !decide (Store.expectedContent pairs entry.id ≠ some entry.content)
  have hsplit := List.length_eq_length_filter_add (l := s.entries)
    (fun entry => decide (Store.expectedContent pairs entry.id ≠ some entry.content))
  have hnodup : ((s.entries.filter gone).map (·.id)).Nodup := (List.filter_sublist.map _).nodup h
  have hsub : (s.entries.filter gone).map (·.id) ⊆ pairs.map (·.1) := by
    intro id hid
    obtain ⟨entry, hentry, rfl⟩ := List.mem_map.mp hid
    have hgone := (List.mem_filter.mp hentry).2
    have hpair : Store.expectedContent pairs entry.id = some entry.content := by
      simpa [gone] using hgone
    exact List.mem_map_of_mem (f := Prod.fst) (Store.mem_of_expectedContent hpair)
  have hle := (hnodup.subperm hsub).length_le
  rw [List.length_map, List.length_map] at hle
  exact hsplit.le.trans (Nat.add_le_add_left hle _)

end Ids

/-! ## Rewrites -/

/-- A later state: the rows of `ids` may have been rewritten, and no row came or went. -/
structure Rewrites (ids : List String) (c c' : Cycle F) : Prop where
  keeps : KeepsBut ids c.svc.store c'.svc.store
  rows : c'.svc.store.ids = c.svc.store.ids
  calls : c.calls ≤ c'.calls
  budget : c'.removalBudget = c.removalBudget
  attempts : c'.attempts = c.attempts

section Rewrites

variable {ids ids' : List String} {c c' c'' : Cycle F}

omit [Scalar F] in
theorem Rewrites.trans (h : Rewrites ids c c') (h' : Rewrites ids c' c'') : Rewrites ids c c'' where
  keeps := h.keeps.trans h'.keeps
  rows := h'.rows.trans h.rows
  calls := h.calls.trans h'.calls
  budget := h'.budget.trans h.budget
  attempts := h'.attempts.trans h.attempts

omit [Scalar F] in
theorem Rewrites.mono (h : Rewrites ids c c') (hsub : ids ⊆ ids') : Rewrites ids' c c' :=
  { h with keeps := h.keeps.mono hsub }

omit [Scalar F] in
/-- The store is the same, and at most calls and the report change. -/
theorem Rewrites.still (hstore : c'.svc.store = c.svc.store) (hcalls : c.calls ≤ c'.calls)
    (hbudget : c'.removalBudget = c.removalBudget) (hattempts : c'.attempts = c.attempts) :
    Rewrites ids c c' :=
  ⟨by rw [hstore]; exact KeepsBut.refl, by rw [hstore], hcalls, hbudget, hattempts⟩

omit [Scalar F] in
theorem rewrites_hear (c : Cycle F) (reply : EmbedReply F) : Rewrites [] c (c.hear reply) :=
  ⟨keepsBut_hear c.svc reply, hear_ids c.svc reply, Nat.le_succ _, rfl, rfl⟩

omit [Scalar F] in
theorem rewrites_called (c : Cycle F) : Rewrites ids c c.called :=
  .still rfl (Nat.le_succ _) rfl rfl

theorem rewrites_rewriteWithBinding {svc : Service F} {id : String} {content expected : Text}
    {embedding : List F} {written : Option (List F)}
    (h : rewriteWithBinding c.svc id content embedding expected = .ok (written, svc)) :
    Rewrites [id] c { c with svc } := by
  obtain ⟨entry, -, ⟨-, -, rfl⟩ | ⟨-, -, rfl⟩⟩ := rewriteWithBinding_ok h
  · exact ⟨keepsBut_modify fun _ => rfl, modify_ids fun _ => rfl, le_rfl, rfl, rfl⟩
  · exact .still rfl le_rfl rfl rfl

theorem tracks_rewriteWithBinding {svc svc' : Service F} {copy : MemoryEntry F}
    {content expected : Text} {embedding stored : List F} (htracks : Tracks svc.store copy)
    (h : rewriteWithBinding svc copy.id content embedding expected = .ok (some stored, svc')) :
    Tracks svc'.store { copy with content } := by
  obtain ⟨row, hrow, -, hscope, hgeneration⟩ := htracks
  obtain ⟨entry, -, ⟨-, -, rfl⟩ | ⟨hnone, -⟩⟩ := rewriteWithBinding_ok h
  · exact tracks_modify { copy with content } (fun _ => rfl) hrow rfl hscope hgeneration
  · cases hnone

omit [Scalar F] in
theorem updateFsrs_of_get {s : Store F} {id : String} {row : MemoryEntry F}
    (h : s.get id = some row) (f : FsrsState F → FsrsState F) :
    s.updateFsrs id f = .ok (s.modify id fun entry => { entry with fsrs := f entry.fsrs }) := by
  rw [Store.updateFsrs, h]

omit [Scalar F] in
theorem rewrites_updateFsrs {id : String} {f : FsrsState F → FsrsState F} {store : Store F}
    (h : c.svc.store.updateFsrs id f = .ok store) : Rewrites [id] c (c.setStore store) := by
  unfold Store.updateFsrs at h
  split at h
  · cases h
  · cases h
    exact ⟨keepsBut_modify fun _ => rfl, modify_ids fun _ => rfl, le_rfl, rfl, rfl⟩

end Rewrites

/-! ## The fold -/

section Fold

variable {c c' : Cycle F} {survivor source : MemoryEntry F} {merged : Text}
  {embed : Nat → Text → EmbedReply F}

/-- The survivor's row takes over the state; its copy still follows it. -/
theorem inheritFold_spec (source : MemoryEntry F) (newEmbedding : Option (List F))
    (htracks : Tracks c.svc.store { survivor with content := merged }) :
    ∃ c', inheritFold c survivor source newEmbedding = (.ok (.committed newEmbedding), c') ∧
      Rewrites [survivor.id] c c' ∧
      Tracks c'.svc.store (absorbFold source merged newEmbedding survivor) := by
  obtain ⟨row, hrow, hcontent, hscope, hgeneration⟩ := htracks
  have hget : c.svc.store.get survivor.id = some row := hrow
  have hupdate := updateFsrs_of_get hget (inheritFsrs survivor source)
  refine ⟨_, by rw [inheritFold, hupdate], rewrites_updateFsrs hupdate, ?_⟩
  have hgeneration : row.fsrs.generation = survivor.fsrs.generation := hgeneration
  refine tracks_modify (absorbFold source merged newEmbedding survivor) (fun _ => rfl) hget hcontent
    hscope ?_
  change max row.fsrs.generation (max survivor.fsrs.generation source.fsrs.generation) =
    max survivor.fsrs.generation source.fsrs.generation
  rw [hgeneration]
  exact max_eq_right (le_max_left _ _)

/-- A fold is committed, and the survivor's copy follows its row; or no row changes. -/
theorem commitDuplicateFold_spec (embed : Nat → Text → EmbedReply F) (source : MemoryEntry F)
    (merged : Text) (htracks : Tracks c.svc.store survivor) :
    (∃ newEmbedding c', commitDuplicateFold embed c survivor source merged =
        (.ok (.committed newEmbedding), c') ∧ Rewrites [survivor.id] c c' ∧
        Tracks c'.svc.store (absorbFold source merged newEmbedding survivor)) ∨
      ∃ out c', commitDuplicateFold embed c survivor source merged = (out, c') ∧
        (out = .ok .stale ∨ ∃ e, out = .error e) ∧ Rewrites [] c c' := by
  unfold commitDuplicateFold
  by_cases hsame : merged = survivor.content
  · rw [if_pos hsame]
    split_ifs
    · have htracks : Tracks c.svc.store { survivor with content := merged } := by
        rw [hsame]
        exact htracks
      exact .inl ⟨none, inheritFold_spec source none htracks⟩
    · exact .inr ⟨_, c, rfl, .inl rfl, .still rfl le_rfl rfl rfl⟩
  · rw [if_neg hsame]
    have hheard := rewrites_hear c (embed c.calls merged)
    simp only
    cases hreply : (embed c.calls merged).result with
    | error reason => exact .inr ⟨_, _, rfl, .inr ⟨_, rfl⟩, hheard⟩
    | ok vector =>
      simp only
      cases hwrite : rewriteWithBinding (c.hear (embed c.calls merged)).svc survivor.id merged vector
        survivor.content with
      | error e => exact .inr ⟨_, _, rfl, .inr ⟨_, rfl⟩, hheard⟩
      | ok written =>
        obtain ⟨written, svc⟩ := written
        cases written with
        | none =>
          obtain ⟨_, -, ⟨hsome, -⟩ | ⟨-, -, rfl⟩⟩ := rewriteWithBinding_ok hwrite
          · cases hsome
          · exact .inr ⟨_, _, rfl, .inl rfl, hheard⟩
        | some stored =>
          have hwritten := tracks_rewriteWithBinding
            (htracks.keepsBut hheard.keeps (List.not_mem_nil)) hwrite
          have htracks : Tracks { c.hear (embed c.calls merged) with svc }.svc.store
            { survivor with content := merged } := hwritten
          obtain ⟨c', heq, hrewrites, htracks'⟩ := inheritFold_spec source (some stored) htracks
          refine .inl ⟨some stored, c', heq, ?_, htracks'⟩
          have hrow := (hheard.mono (List.nil_subset _)).trans (rewrites_rewriteWithBinding hwrite)
          exact hrow.trans hrewrites

/-- The loop of the fold, with the memories not examined yet. -/
structure Folding (memories : List (MemoryEntry F)) (budget : Nat) (c₀ : Cycle F)
    (pending : List (MemoryEntry F)) (fold : Fold F) (c : Cycle F) : Prop where
  rewrites : Rewrites (memories.map (·.id)) c₀ c
  ids : ((pending ++ fold.survivors).map (·.id) ++ fold.foldedSources.map (·.id)).Perm
    (memories.map (·.id))
  tracked : ∀ memory ∈ pending ++ fold.survivors, Tracks c.svc.store memory
  limit : fold.removalBudgetCount = budget
  folded : fold.foldedSources.length ≤ budget

variable {memories pending : List (MemoryEntry F)} {budget : Nat} {c₀ : Cycle F} {fold : Fold F}
  {candidate : MemoryEntry F}

omit [Scalar F] in
theorem Folding.keep (h : Folding memories budget c₀ (candidate :: pending) fold c)
    (hrewrites : Rewrites [] c c') :
    Folding memories budget c₀ pending (fold.keep candidate) c' := by
  have hperm : (pending ++ (fold.survivors ++ [candidate])).Perm
      (candidate :: pending ++ fold.survivors) := by
    rw [← List.append_assoc]
    exact List.perm_append_singleton _ _
  refine ⟨h.rewrites.trans (hrewrites.mono (List.nil_subset _)),
    ((hperm.map _).append_right _).trans h.ids, fun memory hmemory => ?_, h.limit, h.folded⟩
  exact (h.tracked memory (hperm.subset hmemory)).keepsBut hrewrites.keeps List.not_mem_nil

theorem Folding.commit {newEmbedding : Option (List F)} (hids : (memories.map (·.id)).Nodup)
    (h : Folding memories budget c₀ (candidate :: pending) fold c)
    (hfolded : fold.foldedSources.length < budget)
    (hfind : findDuplicateTarget fold.survivors candidate = some survivor)
    (hrewrites : Rewrites [survivor.id] c c')
    (htracks : Tracks c'.svc.store (absorbFold candidate merged newEmbedding survivor)) :
    Folding memories budget c₀ pending (fold.commit candidate survivor merged newEmbedding) c' := by
  obtain ⟨l₁, l₂, hsplit, heq⟩ :=
    modifyFirst_eq (absorbFold candidate merged newEmbedding) (show fold.survivors.find? _ = _ from hfind)
  have hsurvivors : (fold.commit candidate survivor merged newEmbedding).survivors =
      l₁ ++ absorbFold candidate merged newEmbedding survivor :: l₂ := heq
  have hmiddle : (candidate :: pending ++ fold.survivors).Perm
      (survivor :: (candidate :: pending ++ (l₁ ++ l₂))) := by
    rw [hsplit, ← List.append_assoc, ← List.append_assoc]
    exact List.perm_middle
  have hnodup := (h.ids.nodup_iff.mpr hids).of_append_left
  rw [(hmiddle.map _).nodup_iff, List.map_cons, List.nodup_cons] at hnodup
  have hmem : survivor ∈ candidate :: pending ++ fold.survivors :=
    hmiddle.mem_iff.mpr List.mem_cons_self
  refine ⟨h.rewrites.trans (hrewrites.mono ?_), ?_, fun memory hmemory => ?_, h.limit, ?_⟩
  · intro id hid
    rw [List.mem_singleton.mp hid]
    exact h.ids.subset (List.mem_append_left _ (List.mem_map_of_mem hmem))
  · have hlist : (fold.commit candidate survivor merged newEmbedding).foldedSources.map (·.id) =
        fold.foldedSources.map (·.id) ++ [candidate.id] := List.map_append
    have hsame : (fold.commit candidate survivor merged newEmbedding).survivors.map (·.id) =
        fold.survivors.map (·.id) := map_modifyFirst fun _ _ => rfl
    rw [List.map_append, hsame, hlist, ← List.append_assoc, ← List.map_append]
    exact (List.perm_append_singleton _ _).trans h.ids
  · rw [hsurvivors] at hmemory
    have hcases : memory = absorbFold candidate merged newEmbedding survivor ∨
        memory ∈ candidate :: pending ++ (l₁ ++ l₂) := by
      simp only [List.mem_append, List.mem_cons] at hmemory ⊢
      rcases hmemory with hmemory | hmemory | hmemory | hmemory <;> simp [hmemory]
    rcases hcases with rfl | hmemory
    · exact htracks
    · refine (h.tracked memory (hmiddle.mem_iff.mpr (List.mem_cons_of_mem _ hmemory))).keepsBut
        hrewrites.keeps fun hid => hnodup.1 ?_
      rw [← List.mem_singleton.mp hid]
      exact List.mem_map_of_mem hmemory
  · rw [Fold.commit, List.length_append]
    exact hfolded

theorem foldCandidate_spec (embed : Nat → Text → EmbedReply F) (hids : (memories.map (·.id)).Nodup)
    (h : Folding memories budget c₀ (candidate :: pending) fold c) :
    Folding memories budget c₀ pending (foldCandidate embed (fold, c) candidate).1
      (foldCandidate embed (fold, c) candidate).2 := by
  have hstill : Rewrites [] c c := .still rfl le_rfl rfl rfl
  unfold foldCandidate
  simp only
  split
  · exact h.keep hstill
  · rename_i survivor htarget
    split_ifs at htarget with hroom
    rw [h.limit] at hroom
    split_ifs
    · exact h.keep hstill
    · have htracks : Tracks c.svc.store survivor := h.tracked survivor
        (List.mem_append_right _ (List.mem_of_find?_eq_some htarget))
      rcases commitDuplicateFold_spec embed candidate
        (mergeMemoryContent survivor.content candidate.content.trim) htracks with
        ⟨newEmbedding, c', heq, hrewrites, htracks'⟩ | ⟨out, c', heq, hout, hrewrites⟩
      · rw [heq]
        exact h.commit hids hroom htarget
          (hrewrites.trans (.still rfl le_rfl rfl rfl)) htracks'
      · rw [heq]
        rcases hout with rfl | ⟨e, rfl⟩
        · exact h.keep hrewrites
        · exact h.keep (hrewrites.trans (.still rfl le_rfl rfl rfl))

theorem foldl_foldCandidate_spec (embed : Nat → Text → EmbedReply F)
    (hids : (memories.map (·.id)).Nodup) :
    ∀ (pending : List (MemoryEntry F)) (fold : Fold F) (c : Cycle F),
      Folding memories budget c₀ pending fold c →
      Folding memories budget c₀ [] (pending.foldl (foldCandidate embed) (fold, c)).1
        (pending.foldl (foldCandidate embed) (fold, c)).2
  | [], _, _, h => h
  | _ :: pending, _, _, h => foldl_foldCandidate_spec embed hids pending _ _
    (foldCandidate_spec embed hids h)

end Fold

/-! ## Ownership -/

/-- What is known of a cluster that was sent, while the copies `owed` are still to come. -/
structure Attempt.Safe (attempt : Attempt F) (s : Store F) (owed : List (MemoryEntry F)) : Prop where
  episodes : ∃ scope, ∀ memory ∈ attempt.cluster.memories,
    memory.fsrs.generation = 0 ∧ memory.workspaceId = scope ∧ Tracks attempt.before memory
  atOnce : ∀ e, attempt.outcome = .error e → attempt.after = attempt.before ∨
    ∃ model dimension, attempt.after = attempt.before.rebind model dimension
  kept : ∀ e, attempt.outcome = .error e → ∀ memory ∈ attempt.cluster.memories,
    memory.id ∉ owed.map (·.id) ∧ ∃ row, attempt.before.get memory.id = some row ∧
      (s.get memory.id).map (·.bare) = some row.bare

variable (env : Oracles F)

/-- Nothing but the rest of the run holds the copies `owed`, and their rows follow them. -/
structure Sound (c : Cycle F) (owed : List (MemoryEntry F)) : Prop where
  rows : c.svc.store.ids.Nodup
  fresh : ∀ n, c.calls ≤ n → env.uuid n ∉ c.svc.store.ids
  owedIds : (owed.map (·.id)).Nodup
  tracked : ∀ memory ∈ owed, Tracks c.svc.store memory
  attempts : ∀ attempt ∈ c.attempts, attempt.Safe c.svc.store owed

/-- The rows gone, net, are paid for. -/
def Spent (total budget : Nat) (c : Cycle F) : Prop :=
  total + c.removalBudget ≤ c.svc.store.entries.length + budget

section Sound

variable {env} {c c' : Cycle F} {owed owed' memories rest : List (MemoryEntry F)}
  {ids : List String}

omit [Scalar F] in
theorem subperm_ids (h : owed'.Subperm owed) : (owed'.map (·.id)).Subperm (owed.map (·.id)) := by
  obtain ⟨l, hperm, hsublist⟩ := h
  exact ⟨l.map (·.id), hperm.map _, hsublist.map _⟩

omit [Scalar F] in
theorem Attempt.Safe.mono {attempt : Attempt F} {s s' : Store F} (h : attempt.Safe s owed)
    (hkeeps : KeepsBut (owed.map (·.id)) s s')
    (hsub : owed'.map (·.id) ⊆ owed.map (·.id)) : attempt.Safe s' owed' := by
  refine ⟨h.episodes, h.atOnce, fun e he memory hmemory => ?_⟩
  obtain ⟨hid, row, hrow, hbare⟩ := h.kept e he memory hmemory
  obtain ⟨row', hrow', hbare'⟩ := Option.map_eq_some_iff.mp hbare
  refine ⟨fun hmem => hid (hsub hmem), row, hrow, ?_⟩
  rw [← hbare']
  exact hkeeps memory.id hid row' hrow'

omit [Scalar F] in
theorem Sound.advance (h : Sound env c owed)
    (hkeeps : KeepsBut (owed.map (·.id)) c.svc.store c'.svc.store) (hrows : c'.svc.store.ids.Nodup)
    (hfresh : ∀ n, c'.calls ≤ n → env.uuid n ∉ c'.svc.store.ids)
    (hattempts : c'.attempts = c.attempts)
    (hsub : (owed'.map (·.id)).Subperm (owed.map (·.id)))
    (htracked : ∀ memory ∈ owed', Tracks c'.svc.store memory) : Sound env c' owed' where
  rows := hrows
  fresh := hfresh
  owedIds := by
    obtain ⟨l, hperm, hsublist⟩ := hsub
    exact hperm.nodup_iff.mp (hsublist.nodup h.owedIds)
  tracked := htracked
  attempts := fun attempt hattempt =>
    (h.attempts attempt (hattempts ▸ hattempt)).mono hkeeps hsub.subset

omit [Scalar F] in
/-- Copies may be let go, and taken in any order. -/
theorem Sound.sub (h : Sound env c owed) (hsub : owed'.Subperm owed) : Sound env c owed' :=
  h.advance KeepsBut.refl h.rows h.fresh rfl (subperm_ids hsub) fun memory hmemory =>
    h.tracked memory (hsub.subset hmemory)

omit [Scalar F] in
theorem Sound.disjoint (h : Sound env c (memories ++ rest)) {memory : MemoryEntry F}
    (hmemory : memory ∈ rest) : memory.id ∉ memories.map (·.id) := by
  have hnodup := h.owedIds
  rw [List.map_append] at hnodup
  exact fun hid => List.disjoint_of_nodup_append hnodup hid (List.mem_map_of_mem hmemory)

omit [Scalar F] in
/-- The rows of some copies are rewritten, and the copies let go. -/
theorem Sound.rewrites (h : Sound env c (memories ++ rest))
    (hrewrites : Rewrites (memories.map (·.id)) c c') : Sound env c' rest := by
  have hsub : memories.map (·.id) ⊆ (memories ++ rest).map (·.id) := by
    rw [List.map_append]
    exact List.subset_append_left _ _
  refine h.advance (hrewrites.keeps.mono hsub) ?_ (fun n hn => ?_) hrewrites.attempts
    (subperm_ids (List.sublist_append_right _ _).subperm) fun memory hmemory => ?_
  · rw [hrewrites.rows]
    exact h.rows
  · rw [hrewrites.rows]
    exact h.fresh n (hrewrites.calls.trans hn)
  · exact (h.tracked memory (List.mem_append_right _ hmemory)).keepsBut hrewrites.keeps
      (h.disjoint hmemory)

omit [Scalar F] in
theorem Sound.still (h : Sound env c owed) (hrewrites : Rewrites [] c c') : Sound env c' owed := by
  have h : Sound env c ([] ++ owed) := h
  exact h.rewrites hrewrites

omit [Scalar F] in
theorem Spent.rewrites {total budget : Nat} (h : Spent total budget c)
    (hrewrites : Rewrites ids c c') : Spent total budget c' := by
  unfold Spent at h ⊢
  rw [hrewrites.budget, ← length_ids, hrewrites.rows, length_ids]
  exact h

omit [Scalar F] in
/-- Counting what was processed changes the report alone. -/
theorem rewrites_processed (n : Nat) : Rewrites ids c (c.processed n) :=
  .still rfl le_rfl rfl rfl

/-! ## The phases -/

omit [Scalar F] in
/-- Rewrites to some copies and a matched removal of others leave the copies that were not removed. -/
theorem Sound.remove (survivors : List (MemoryEntry F)) (h : Sound env c (memories ++ rest))
    (hrewrites : Rewrites (memories.map (·.id)) c c') (pairs : List (String × Text))
    (hids : (survivors.map (·.id) ++ pairs.map (·.1)).Perm (memories.map (·.id)))
    (htracked : ∀ memory ∈ survivors, Tracks c'.svc.store memory) :
    Sound env (c'.setStore (c'.svc.store.removeManyMatching pairs).1) (survivors ++ rest) ∧
      c.svc.store.entries.length ≤
        (c'.svc.store.removeManyMatching pairs).1.entries.length + pairs.length := by
  have hrows : c'.svc.store.ids.Nodup := by
    rw [hrewrites.rows]
    exact h.rows
  have hpairs : pairs.map (·.1) ⊆ memories.map (·.id) :=
    fun id hid => hids.subset (List.mem_append_right _ hid)
  have hkeeps : KeepsBut (memories.map (·.id)) c.svc.store
      (c'.svc.store.removeManyMatching pairs).1 :=
    hrewrites.keeps.trans ((keepsBut_removeManyMatching pairs).mono hpairs)
  have hsub : memories.map (·.id) ⊆ (memories ++ rest).map (·.id) := by
    rw [List.map_append]
    exact List.subset_append_left _ _
  have hnodup := h.owedIds
  rw [List.map_append] at hnodup
  refine ⟨h.advance (hkeeps.mono hsub) ((removeManyMatching_ids_sublist pairs).nodup hrows)
    (fun n hn hmem => ?_) hrewrites.attempts ?_ fun memory hmemory => ?_, ?_⟩
  · refine h.fresh n (hrewrites.calls.trans hn) ?_
    rw [← hrewrites.rows]
    exact (removeManyMatching_ids_sublist pairs).subset hmem
  · rw [List.map_append, List.map_append]
    exact (List.subperm_append_right _).mpr
      ((List.sublist_append_left _ _).subperm.trans hids.subperm)
  · rcases List.mem_append.mp hmemory with hmemory | hmemory
    · refine (htracked memory hmemory).keepsBut (keepsBut_removeManyMatching pairs) fun hid => ?_
      have hdisjoint := (hids.nodup_iff.mpr hnodup.of_append_left)
      exact List.disjoint_of_nodup_append hdisjoint (List.mem_map_of_mem hmemory) hid
    · exact (h.tracked memory (List.mem_append_right _ hmemory)).keepsBut hkeeps (h.disjoint hmemory)
  · rw [← length_ids, ← hrewrites.rows, length_ids]
    exact length_le_removeManyMatching pairs hrows

theorem foldNearDuplicates_spec (h : Sound env c (memories ++ rest)) (budget : Nat) :
    ∃ survivors folded c', foldNearDuplicates env c memories budget = (survivors, folded, c') ∧
      Sound env c' (survivors ++ rest) ∧ folded ≤ budget ∧
      c.svc.store.entries.length ≤ c'.svc.store.entries.length + folded ∧
      c'.removalBudget = c.removalBudget := by
  unfold foldNearDuplicates
  split_ifs with hfew
  · exact ⟨_, _, _, rfl, h, Nat.zero_le _, le_rfl, rfl⟩
  · cases env.embed with
    | none => exact ⟨_, _, _, rfl, h, Nat.zero_le _, le_rfl, rfl⟩
    | some embed =>
      simp only
      have hranked : (rankByWeight env memories).Perm memories := List.perm_insertionSort _ _
      have hsound : Sound env c (rankByWeight env memories ++ rest) :=
        h.sub (hranked.append_right rest).subperm
      have hnodup := hsound.owedIds
      rw [List.map_append] at hnodup
      have hfolding := foldl_foldCandidate_spec embed hnodup.of_append_left
        (rankByWeight env memories) (Fold.start (rankByWeight env memories) budget) c
        ⟨.still rfl le_rfl rfl rfl, by simp [Fold.start], fun memory hmemory => hsound.tracked memory
          (List.mem_append_left _ (by simpa [Fold.start] using hmemory)), rfl, Nat.zero_le _⟩
      generalize hloop : (rankByWeight env memories).foldl (foldCandidate embed)
        (Fold.start (rankByWeight env memories) budget, c) = looped at hfolding
      obtain ⟨fold, c'⟩ := looped
      have hids : (fold.survivors.map (·.id) ++
          (fold.foldedSources.map fun source => (source.id, source.content)).map (·.1)).Perm
          ((rankByWeight env memories).map (·.id)) := by
        rw [List.map_map]
        exact hfolding.ids
      obtain ⟨hremoved, hlength⟩ := hsound.remove fold.survivors hfolding.rewrites _ hids hfolding.tracked
      simp only
      split_ifs with hempty
      · have hnone : fold.foldedSources = [] := List.isEmpty_iff.mp hempty
        refine ⟨_, _, _, rfl, ?_, Nat.zero_le _, ?_, hfolding.rewrites.budget⟩
        · simpa [hnone, Store.removeManyMatching, Store.expectedContent, Cycle.setStore] using hremoved
        · rw [← length_ids, ← length_ids, hfolding.rewrites.rows]
          exact le_rfl
      · refine ⟨_, _, _, rfl, hremoved, hfolding.folded, ?_, hfolding.rewrites.budget⟩
        rw [List.length_map] at hlength
        exact hlength

theorem foldAndCharge_spec {total budget : Nat} (h : Sound env c (memories ++ rest))
    (hspent : Spent total budget c) :
    ∃ survivors c', foldAndCharge env c memories = (survivors, c') ∧
      Sound env c' (survivors ++ rest) ∧ Spent total budget c' := by
  obtain ⟨survivors, folded, c', heq, hsound, hfolded, hlength, hbudget⟩ :=
    foldNearDuplicates_spec h c.removalBudget
  refine ⟨survivors, _, by rw [foldAndCharge, heq], ?_, ?_⟩
  · exact hsound.advance KeepsBut.refl hsound.rows hsound.fresh rfl (List.Subperm.refl _)
      hsound.tracked
  · unfold Spent at hspent ⊢
    change total + (c'.removalBudget - folded) ≤ c'.svc.store.entries.length + budget
    omega

/-- The cluster is replaced, which takes at most all but one of its rows; or nothing is written. -/
theorem supersede_spec (huuid : Function.Injective env.uuid) (cluster : MemoryCluster F)
    (entry : MemoryEntry F) (h : Sound env c (cluster.memories ++ rest))
    (hid : entry.id = env.uuid c.calls) :
    (∃ e, supersede c.called cluster entry = (.error e, c.called)) ∨
      ∃ c', supersede c.called cluster entry = (.ok (), c') ∧ Sound env c' rest ∧
        c.svc.store.entries.length + 1 ≤ c'.svc.store.entries.length + cluster.memories.length ∧
        c'.removalBudget = c.removalBudget := by
  unfold supersede
  cases hadd : c.called.svc.store.add entry with
  | error e => exact .inl ⟨e, rfl⟩
  | ok store =>
    have hids : store.ids = c.svc.store.ids ++ [env.uuid c.calls] := hid ▸ add_ids hadd
    have hadded : Sound env (c.called.setStore store) (cluster.memories ++ rest) := by
      have hkeeps : KeepsBut [] c.svc.store store := keepsBut_add hadd
      refine h.advance (hkeeps.mono (List.nil_subset _)) ?_ (fun n hn => ?_) rfl
        (List.Subperm.refl _) fun memory hmemory =>
          (h.tracked memory hmemory).keepsBut hkeeps List.not_mem_nil
      · change store.ids.Nodup
        rw [hids, List.nodup_append]
        refine ⟨h.rows, List.nodup_singleton _, fun a ha b hb hab => ?_⟩
        rw [hab, List.mem_singleton.mp hb] at ha
        exact h.fresh _ le_rfl ha
      · change env.uuid n ∉ store.ids
        have hn : c.calls + 1 ≤ n := hn
        rw [hids]
        intro hmem
        rcases List.mem_append.mp hmem with hmem | hmem
        · exact h.fresh n (by omega) hmem
        · have hsame := huuid (List.mem_singleton.mp hmem)
          omega
    have hstill : Rewrites (cluster.memories.map (·.id)) (c.called.setStore store)
        (c.called.setStore store) := .still rfl le_rfl rfl rfl
    obtain ⟨hsound, hlength⟩ := hadded.remove [] hstill
      (cluster.memories.map fun memory => (memory.id, memory.content))
      (by rw [List.map_map]; exact List.Perm.refl _) nofun
    refine .inr ⟨_, rfl, hsound, ?_, rfl⟩
    have hgrown := congrArg List.length hids
    rw [length_ids, List.length_append, length_ids, List.length_singleton] at hgrown
    rw [List.length_map, show (c.called.setStore store).svc.store.entries.length =
      c.svc.store.entries.length + 1 from hgrown] at hlength
    exact hlength

/-- A cluster is replaced; or its rows stay, but for the vectors a provider switch rebinds. -/
theorem consolidateCluster_spec (huuid : Function.Injective env.uuid) (cluster : MemoryCluster F)
    (h : Sound env c (cluster.memories ++ rest)) :
    (∃ e c', consolidateCluster env c cluster = (.error e, c') ∧ Rewrites [] c c' ∧
      (c'.svc.store = c.svc.store ∨
        ∃ model dimension, c'.svc.store = c.svc.store.rebind model dimension)) ∨
      ∃ c', consolidateCluster env c cluster = (.ok (), c') ∧ Sound env c' rest ∧
        c.svc.store.entries.length + 1 ≤ c'.svc.store.entries.length + cluster.memories.length ∧
        c'.removalBudget = c.removalBudget := by
  unfold consolidateCluster
  simp only
  cases env.summarize c.calls cluster.buildConsolidationPrompt with
  | error reason => exact .inl ⟨_, _, rfl, rewrites_called c, .inl rfl⟩
  | ok summary =>
    simp only
    cases env.embed with
    | none => exact .inl ⟨_, _, rfl, rewrites_called c, .inl rfl⟩
    | some embed =>
      simp only
      generalize embed c.called.calls summary = reply
      have hheard : Rewrites [] c (c.called.hear reply) :=
        (rewrites_called c).trans (rewrites_hear c.called reply)
      have hswitched : (c.called.hear reply).svc.store = c.svc.store ∨
          ∃ model dimension, (c.called.hear reply).svc.store = c.svc.store.rebind model dimension := by
        change (c.svc.hear reply).store = _ ∨ ∃ _ _, (c.svc.hear reply).store = _
        unfold Service.hear
        split
        · exact .inr ⟨_, _, rfl⟩
        · exact .inl rfl
      cases reply.result with
      | error reason => exact .inl ⟨_, _, rfl, hheard, hswitched⟩
      | ok embedding =>
        have hsound : Sound env (c.called.hear reply) (cluster.memories ++ rest) :=
          h.still hheard
        rcases supersede_spec huuid cluster (createConsolidatedEntry cluster summary embedding
          (env.uuid (c.called.hear reply).calls) env.now) hsound rfl with
          ⟨e, heq⟩ | ⟨c', heq, hsound', hlength, hbudget⟩
        · exact .inl ⟨e, _, heq, hheard.trans (rewrites_called _), hswitched⟩
        · refine .inr ⟨c', heq, hsound', ?_, hbudget⟩
          rw [← length_ids, hheard.rows, length_ids] at hlength
          exact hlength

omit [Scalar F] in
theorem rewrites_error (text : String) : Rewrites ids c (c.error text) :=
  .still rfl le_rfl rfl rfl

variable (env) in
theorem rewrites_expandMemory (memory : MemoryEntry F) :
    Rewrites [memory.id] c (expandMemory env c memory).2 := by
  unfold expandMemory
  simp only
  cases env.summarize c.calls (enrichmentPrompt memory) with
  | error reason => exact rewrites_called c
  | ok expanded =>
    simp only
    split_ifs
    · cases env.embed with
      | none => exact rewrites_called c
      | some embed =>
        simp only
        generalize embed c.called.calls expanded = reply
        have hheard : Rewrites [memory.id] c (c.called.hear reply) :=
          (rewrites_called c).trans ((rewrites_hear c.called reply).mono (List.nil_subset _))
        cases reply.result with
        | error reason => exact hheard
        | ok embedding =>
          simp only
          cases hwrite : rewriteWithBinding (c.called.hear reply).svc memory.id expanded embedding
            memory.content with
          | error e => exact hheard
          | ok written =>
            obtain ⟨written, svc⟩ := written
            have hwritten := hheard.trans (rewrites_rewriteWithBinding hwrite)
            cases written with
            | none => exact hwritten
            | some stored =>
              simp only
              split
              · exact hwritten
              · rename_i store hupdate
                exact hwritten.trans (rewrites_updateFsrs hupdate)
    · exact rewrites_called c

variable (env) in
theorem rewrites_expandEach (memory : MemoryEntry F) :
    Rewrites [memory.id] c (expandEach env c memory) := by
  have hexpand : Rewrites [memory.id] c (expandMemory env c memory).2 :=
    rewrites_expandMemory env memory
  unfold expandEach
  split
  · rename_i e c' heq
    rw [heq] at hexpand
    exact hexpand.trans (rewrites_error _)
  · rename_i c' heq
    rw [heq] at hexpand
    exact hexpand.trans (.still rfl le_rfl rfl rfl)

variable (env) in
theorem rewrites_foldl_expandEach : ∀ (memories : List (MemoryEntry F)) (c : Cycle F),
    Rewrites (memories.map (·.id)) c (memories.foldl (expandEach env) c)
  | [], _ => .still rfl le_rfl rfl rfl
  | memory :: memories, c => by
    have hhead : Rewrites [memory.id] c (expandEach env c memory) := rewrites_expandEach env memory
    have htail := rewrites_foldl_expandEach memories (expandEach env c memory)
    exact (hhead.mono (by simp)).trans (htail.mono (List.subset_cons_self _ _))

variable {config : ConsolidationConfig F} {level : CompressionLevel} {total budget : Nat}

/-- One cluster of raw episodes of one scope. -/
theorem consolidateOne_spec (huuid : Function.Injective env.uuid) (hne : memories ≠ [])
    (hscope : ∃ scope, ∀ memory ∈ memories,
      memory.fsrs.generation = 0 ∧ memory.workspaceId = scope)
    (h : Sound env c (memories ++ rest)) (hspent : Spent total budget c) :
    Sound env (consolidateOne env config level c memories) rest ∧
      Spent total budget (consolidateOne env config level c memories) := by
  have hpos : 0 < memories.length := List.length_pos_iff.mpr hne
  have hskip : Rewrites (memories.map (·.id)) c (c.processed memories.length) :=
    rewrites_processed _
  unfold consolidateOne
  simp only
  split_ifs with hsmall hexpand hover
  · have hexpanded := (rewrites_foldl_expandEach env memories c).trans
      (rewrites_processed memories.length)
    exact ⟨h.rewrites hexpanded, hspent.rewrites hexpanded⟩
  · exact ⟨h.rewrites hskip, hspent.rewrites hskip⟩
  · exact ⟨h.rewrites hskip, hspent.rewrites hskip⟩
  · obtain ⟨scope, hscope⟩ := hscope
    have hepisodes : ∃ scope, ∀ memory ∈ memories, memory.fsrs.generation = 0 ∧
        memory.workspaceId = scope ∧ Tracks c.svc.store memory :=
      ⟨scope, fun memory hmemory => ⟨(hscope memory hmemory).1, (hscope memory hmemory).2,
        h.tracked memory (List.mem_append_left _ hmemory)⟩⟩
    rcases consolidateCluster_spec huuid ⟨memories, level⟩ h with
      ⟨e, c', heq, hrewrites, hswitched⟩ | ⟨c', heq, hsound, hlength, hbudget⟩
    · rw [heq]
      have hrest : Sound env c' rest := h.rewrites (hrewrites.mono (List.nil_subset _))
      have hsafe : Attempt.Safe ⟨⟨memories, level⟩, c.svc.store, .error e, c'.svc.store⟩
          c'.svc.store rest := by
        refine ⟨hepisodes, fun _ _ => hswitched, fun _ _ memory hmemory => ⟨fun hid => ?_, ?_⟩⟩
        · obtain ⟨other, hother, hsame⟩ := List.mem_map.mp hid
          exact h.disjoint hother (hsame ▸ List.mem_map_of_mem hmemory)
        · obtain ⟨row, hrow, -⟩ := h.tracked memory (List.mem_append_left _ hmemory)
          exact ⟨row, hrow, hrewrites.keeps memory.id List.not_mem_nil row hrow⟩
      have hspent' : Spent total budget c' := hspent.rewrites hrewrites
      refine ⟨⟨hrest.rows, hrest.fresh, hrest.owedIds, hrest.tracked, fun attempt hattempt => ?_⟩,
        hspent'⟩
      rcases List.mem_append.mp hattempt with hattempt | hattempt
      · exact hrest.attempts attempt hattempt
      · rw [List.mem_singleton.mp hattempt]
        exact hsafe
    · rw [heq]
      have hsafe : Attempt.Safe ⟨⟨memories, level⟩, c.svc.store, .ok (), c'.svc.store⟩
          c'.svc.store rest := ⟨hepisodes, nofun, nofun⟩
      refine ⟨⟨hsound.rows, hsound.fresh, hsound.owedIds, hsound.tracked,
        fun attempt hattempt => ?_⟩, ?_⟩
      · rcases List.mem_append.mp hattempt with hattempt | hattempt
        · exact hsound.attempts attempt hattempt
        · rw [List.mem_singleton.mp hattempt]
          exact hsafe
      · unfold Spent at hspent ⊢
        change total + (c'.removalBudget - (memories.length - 1)) ≤
          c'.svc.store.entries.length + budget
        have hlength : c.svc.store.entries.length + 1 ≤
          c'.svc.store.entries.length + memories.length := hlength
        omega

/-! ## Clusters -/

variable (env config) in
/-- The gathering neither loses nor doubles a memory, and takes in the seed's scope only. -/
theorem foldl_gather_spec (seed : MemoryEntry F) : ∀ (memories : List (MemoryEntry F))
    (g : Gathering F), (∀ memory ∈ g.cluster, memory.workspaceId = seed.workspaceId) →
    let g' := memories.foldl (gather env config seed) g
    (g'.cluster ++ g'.unassigned).Perm (g.cluster ++ g.unassigned ++ memories) ∧
      g.cluster.length ≤ g'.cluster.length ∧
      ∀ memory ∈ g'.cluster, memory.workspaceId = seed.workspaceId
  | [], g, h => ⟨by simp, le_rfl, h⟩
  | memory :: memories, g, h => by
    have hstep : ∀ memory' ∈ (gather env config seed g memory).cluster,
        memory'.workspaceId = seed.workspaceId := by
      unfold gather
      split_ifs with hjoins
      · intro memory' hmemory'
        rcases List.mem_append.mp hmemory' with hmemory' | hmemory'
        · exact h memory' hmemory'
        · rw [List.mem_singleton.mp hmemory']
          simp only [joins, sameScope, Bool.and_eq_true, decide_eq_true_eq] at hjoins
          exact hjoins.1.1.2.symm
      · exact h
    obtain ⟨hperm, hlength, hscope⟩ :=
      foldl_gather_spec seed memories (gather env config seed g memory) hstep
    refine ⟨hperm.trans ?_, le_trans ?_ hlength, hscope⟩
    · have hone : ((gather env config seed g memory).cluster ++
          (gather env config seed g memory).unassigned).Perm
          (g.cluster ++ g.unassigned ++ [memory]) := by
        unfold gather
        split_ifs
        · simp only [List.append_assoc]
          exact List.perm_append_comm.append_left _
        · simp only [List.append_assoc]
          exact List.Perm.refl _
      rw [← List.singleton_append, ← List.append_assoc]
      exact hone.append_right memories
    · unfold gather
      split_ifs
      · simp
      · exact le_rfl

variable (env config) in
/-- The clusters are the memories, grouped; a group is not empty and has one scope. -/
theorem clusterUnassigned_spec : ∀ (fuel : Nat) (memories : List (MemoryEntry F)),
    memories.length ≤ fuel →
    (clusterUnassigned env config fuel memories).flatten.Perm memories ∧
      ∀ cluster ∈ clusterUnassigned env config fuel memories, cluster ≠ [] ∧
        ∃ scope, ∀ memory ∈ cluster, memory.workspaceId = scope
  | 0, memories, h => by
    rw [List.length_eq_zero_iff.mp (Nat.le_zero.mp h)]
    exact ⟨List.Perm.refl _, nofun⟩
  | fuel + 1, [], _ => ⟨List.Perm.refl _, nofun⟩
  | fuel + 1, seed :: rest, h => by
    obtain ⟨hperm, hlength, hscope⟩ := foldl_gather_spec env config seed rest
      ⟨[seed], Text.byteLen seed.content, []⟩ (by simp)
    rw [clusterUnassigned]
    simp only at hperm hlength hscope ⊢
    generalize rest.foldl (gather env config seed) ⟨[seed], Text.byteLen seed.content, []⟩ = g
      at hperm hlength hscope
    have htotal := hperm.length_eq
    rw [List.length_singleton] at hlength
    simp only [List.length_append, List.length_cons, List.length_nil] at htotal
    simp only [List.length_cons] at h
    obtain ⟨hrest, hclusters⟩ := clusterUnassigned_spec fuel g.unassigned (by omega)
    refine ⟨?_, fun cluster hcluster => ?_⟩
    · rw [List.flatten_cons]
      exact (hrest.append_left _).trans hperm
    · rcases List.mem_cons.mp hcluster with rfl | hcluster
      · exact ⟨List.length_pos_iff.mp (by omega), seed.workspaceId, hscope⟩
      · exact hclusters cluster hcluster

theorem consolidateClusters_spec (huuid : Function.Injective env.uuid) :
    ∀ (clusters : List (List (MemoryEntry F))) (c : Cycle F),
      (∀ cluster ∈ clusters, cluster ≠ [] ∧ ∃ scope, ∀ memory ∈ cluster,
        memory.fsrs.generation = 0 ∧ memory.workspaceId = scope) →
      Sound env c (clusters.flatten ++ rest) → Spent total budget c →
      Sound env (consolidateClusters env config level clusters c) rest ∧
        Spent total budget (consolidateClusters env config level clusters c)
  | [], _, _, h, hspent => ⟨h, hspent⟩
  | cluster :: clusters, c, hclusters, h, hspent => by
    rw [consolidateClusters]
    split_ifs
    · exact ⟨h.sub (List.sublist_append_right _ _).subperm, hspent⟩
    · obtain ⟨hne, hscope⟩ := hclusters cluster List.mem_cons_self
      rw [List.flatten_cons, List.append_assoc] at h
      obtain ⟨hsound, hspent⟩ := consolidateOne_spec huuid hne hscope h hspent
      exact consolidateClusters_spec huuid clusters _
        (fun cluster hcluster => hclusters cluster (List.mem_cons_of_mem _ hcluster)) hsound hspent

/-! ## The bands -/

omit [Scalar F] in
theorem Sound.processed (h : Sound env c owed) (n : Nat) : Sound env (c.processed n) owed :=
  ⟨h.rows, h.fresh, h.owedIds, h.tracked, h.attempts⟩

omit [Scalar F] in
/-- What a band offers to the clusterer. -/
theorem clusterable_sublist (level : CompressionLevel) (fresh : List (MemoryEntry F)) :
    (clusterable level fresh).Sublist fresh := by
  unfold clusterable
  split_ifs
  · exact List.filter_sublist
  · exact List.Sublist.refl _

variable (config) in
theorem consolidateBand_spec (huuid : Function.Injective env.uuid)
    (band : CompressionLevel × List (MemoryEntry F)) (h : Sound env c (band.2 ++ rest))
    (hspent : Spent total budget c) :
    Sound env (consolidateBand env config c band) rest ∧
      Spent total budget (consolidateBand env config c band) := by
  obtain ⟨level, memories⟩ := band
  unfold consolidateBand
  simp only
  by_cases hskip : memories.isEmpty ∨ c.removalBudget = 0
  · rw [if_pos hskip]
    exact ⟨h.sub (List.sublist_append_right _ _).subperm, hspent⟩
  · rw [if_neg hskip]
    have hsplit : ((memories.filter fun entry => !isVerbatimPinned entry.metadata) ++
        ((memories.filter fun entry => isVerbatimPinned entry.metadata) ++ rest)).Perm
        (memories ++ rest) := by
      rw [← List.append_assoc]
      exact (List.perm_append_comm.trans (List.filter_append_perm _ _)).append_right rest
    obtain ⟨unpinned, c₁, heq₁, hsound₁, hspent₁⟩ := foldAndCharge_spec (h.sub hsplit.subperm) hspent
    rw [heq₁]
    simp only
    have hswap : ((memories.filter fun entry => isVerbatimPinned entry.metadata) ++
        (unpinned ++ rest)).Perm (unpinned ++
        ((memories.filter fun entry => isVerbatimPinned entry.metadata) ++ rest)) := by
      rw [← List.append_assoc, ← List.append_assoc]
      exact List.perm_append_comm.append_right rest
    obtain ⟨pinned, c₂, heq₂, hsound₂, hspent₂⟩ :=
      foldAndCharge_spec (hsound₁.sub hswap.subperm) hspent₁
    rw [heq₂]
    simp only
    have hunpinned : Sound env c₂ (unpinned ++ rest) :=
      hsound₂.sub (List.sublist_append_right _ _).subperm
    split_ifs with hspentUp hfresh hnone
    · exact ⟨(hunpinned.sub (List.sublist_append_right _ _).subperm).processed _, hspent₂⟩
    · exact ⟨((hunpinned.sub (List.sublist_append_right _ _).subperm).processed _).processed _,
        hspent₂⟩
    · exact ⟨(((hunpinned.sub (List.sublist_append_right _ _).subperm).processed _).processed
        _).processed _, hspent₂⟩
    · set fresh := unpinned.filter fun entry => entry.fsrs.generation = 0
      obtain ⟨hperm, hclusters⟩ := clusterUnassigned_spec env config
        (clusterable level fresh).length (clusterable level fresh) le_rfl
      have hsub : ((clusterMemories env config (clusterable level fresh)).flatten ++ rest).Subperm
          (unpinned ++ rest) := by
        refine (List.subperm_append_right _).mpr (hperm.subperm.trans ?_)
        exact ((clusterable_sublist level fresh).trans List.filter_sublist).subperm
      refine consolidateClusters_spec huuid _ _ (fun cluster hcluster => ?_)
        ((((hunpinned.sub hsub).processed _).processed _).processed _) hspent₂
      obtain ⟨hne, scope, hscope⟩ := hclusters cluster hcluster
      refine ⟨hne, scope, fun memory hmemory => ⟨?_, hscope memory hmemory⟩⟩
      have hmem := hperm.subset (List.mem_flatten.mpr ⟨cluster, hcluster, hmemory⟩)
      exact of_decide_eq_true (List.mem_filter.mp ((clusterable_sublist level fresh).subset hmem)).2

theorem foldl_consolidateBand_spec (huuid : Function.Injective env.uuid) :
    ∀ (bands : List (CompressionLevel × List (MemoryEntry F))) (c : Cycle F),
      Sound env c (bands.flatMap (·.2)) → Spent total budget c →
      Sound env (bands.foldl (consolidateBand env config) c) [] ∧
        Spent total budget (bands.foldl (consolidateBand env config) c)
  | [], _, h, hspent => ⟨h, hspent⟩
  | band :: bands, c, h, hspent => by
    obtain ⟨hsound, hspent⟩ := consolidateBand_spec config huuid band h hspent
    exact foldl_consolidateBand_spec huuid bands _ hsound hspent

/-- Every row is in one band at most. -/
theorem consolidationBands_ids_nodup {s : Store F} (h : s.ids.Nodup) :
    (((consolidationBands env s).flatMap (·.2)).map (·.id)).Nodup := by
  rw [consolidationBands, List.flatMap_map, List.map_flatMap, List.nodup_flatMap]
  refine ⟨fun level _ => (List.filter_sublist.map _).nodup h, ?_⟩
  have hdistinct : List.Pairwise (· ≠ ·) [CompressionLevel.essence, .compressed, .standard, .detailed,
      .expand] := by decide
  refine hdistinct.imp fun {a b} hab id hida hidb => hab ?_
  obtain ⟨entry, hentry, rfl⟩ := List.mem_map.mp hida
  obtain ⟨other, hother, hsame⟩ := List.mem_map.mp hidb
  obtain ⟨hmem, hband⟩ := List.mem_filter.mp hentry
  obtain ⟨hmem', hband'⟩ := List.mem_filter.mp hother
  have hequal : other = entry := List.inj_on_of_nodup_map h hmem' hmem hsame
  rw [hequal] at hband'
  exact (of_decide_eq_true hband).symm.trans (of_decide_eq_true hband')

end Sound

/-! ## The envelope -/

omit [Scalar F] in
theorem tracks_self {s : Store F} (h : s.ids.Nodup) {entry : MemoryEntry F}
    (hentry : entry ∈ s.entries) : Tracks s entry := by
  cases hget : s.get entry.id with
  | none => exact absurd (List.find?_eq_none.mp hget entry hentry) (by simp)
  | some row =>
    have hequal : row = entry :=
      List.inj_on_of_nodup_map h (List.mem_of_find?_eq_some hget) hentry (get_id hget)
    exact ⟨row, hget.trans (by rw [hequal]), by rw [hequal], by rw [hequal], by rw [hequal]⟩

/-- The first summary fails. -/
def flakyOracles : Oracles ℚ where
  embed := some fun _ _ => ⟨.ok [1, 0], none⟩
  summarize n _ := if n = 0 then .error "offline" else .ok "gist".toList
  uuid n := String.ofList (List.replicate n 'g')
  now := 0
  weight _ := 0.6
  nonSimilarityFloor _ := 0
  scoreOrPrune _ _ _ _ := some 1
  spanMinutes _ := 1
  scaled n ratio := (n * ratio).floor.toNat
  fixed3 x := toString x

def sampleConfig : ConsolidationConfig ℚ where
  clusterThreshold := 0.5
  minClusterSize := 2
  maxClusterMemories := 8
  maxClusterContentBytes := 1000
  maxCompressionRatio := 0.5
  minRemainingMemories := 1
  clusteringWeights := ⟨1, 0, 0, 0, 0⟩

/-- Two notes in each of two workspaces. -/
def twoWorkspaces : Service ℚ :=
  sampleService [sampleEntry "a" "red".toList [1, 0] "m" (some "w1"),
    sampleEntry "b" "green".toList [0, 1] "m" (some "w1"),
    sampleEntry "c" "blue".toList [1, 0] "m" (some "w2"),
    sampleEntry "d" "grey".toList [0, 1] "m" (some "w2")]

end Nanna.Memory
