import Nanna.Memory.Ingest

/-!
# What an ingest does to the records

`IngestCall.run_effect`: a successful call leaves the records as they are (its text is dropped, or
the nearest row holds it), rewrites one record to the merged text, or appends one record. Which of
these it is depends on the nearest row and its band alone; the results on lost texts and on scope
are read off this case list.
-/

namespace Nanna.Memory

open Nanna.Lib

variable {F : Type} [Scalar F]

/-! ## The decision -/

namespace IngestCall

variable (call : IngestCall F)

/-- The search of the call. -/
def hits (svc : Service F) (embedding : List F) : List (MemoryEntry F × F) :=
  match call with
  | smartIngest .. | rememberWithImportance .. => svc.store.search embedding 1
  | rememberScoped _ _ _ workspaceId => svc.store.searchScoped embedding 1 workspaceId

/-- The nearest row and its band; `none` when the text gets no vector or the search finds nothing. -/
def neighbour (embed : Option (EmbedFn F)) (svc : Service F) :
    Option (MemoryEntry F × IngestAction) :=
  match embed with
  | none => none
  | some embed =>
    let reply := embed 0 call.content
    match reply.result with
    | .error _ => none
    | .ok embedding =>
      (call.hits (svc.hear reply) embedding).head?.map fun hit =>
        (hit.1, IngestAction.fromSimilarity hit.2)

/-- The call reinforces such a neighbour and stores nothing, whatever the neighbour says. -/
def reinforces (existing : MemoryEntry F) (action : IngestAction) : Bool :=
  match call with
  | smartIngest .. => action = .reinforce
  | rememberWithImportance .. => action = .reinforce && !errorMemory existing.content
  | rememberScoped .. => false

/-- The call tries to fold its text into such a neighbour. -/
def folds (existing : MemoryEntry F) (action : IngestAction) : Bool :=
  match call with
  | smartIngest .. => action = .update
  | rememberWithImportance .. => action = .update && !errorMemory existing.content
  | rememberScoped content metadata _ _ =>
    action ≠ .create && !addressable metadata && !existing.content.trim.contains content.trim

/-- The nearest row is only reinforced. -/
def Reinforces (embed : Option (EmbedFn F)) (svc : Service F) : Prop :=
  ∃ existing action, call.neighbour embed svc = some (existing, action) ∧
    call.reinforces existing action = true

/-- The text is folded into `target`, the first row with the neighbour's id, which still holds the
text the merge was made from. -/
def FoldsInto (embed : Option (EmbedFn F)) (svc : Service F) (target : Record) : Prop :=
  ∃ existing action, call.neighbour embed svc = some (existing, action) ∧
    call.folds existing action = true ∧
    mergeMemoryContent existing.content call.content ≠ existing.content ∧
    svc.store.records.find? (·.id = existing.id) = some target ∧ target.content = existing.content

end IngestCall

/-- What a successful call does to the records. -/
inductive IngestEffect (call : IngestCall F) (embed : Option (EmbedFn F)) (svc : Service F) :
    List Record → Prop
  | dropped : call.Reinforces embed svc → IngestEffect call embed svc svc.store.records
  | held {r : Record} : r ∈ svc.store.records → call.content.trim <:+: r.content →
      (∀ target, ¬call.FoldsInto embed svc target) → IngestEffect call embed svc svc.store.records
  | merged {target : Record} : call.FoldsInto embed svc target → ¬call.Reinforces embed svc →
      IngestEffect call embed svc (Store.retextRecords svc.store.records target.id
        (mergeMemoryContent target.content call.content))
  | created (id : String) : ¬call.Reinforces embed svc →
      (∀ target, ¬call.FoldsInto embed svc target) →
      IngestEffect call embed svc
        (svc.store.records ++ [⟨id, call.content, call.metadata, call.scope⟩])

/-! ## Merged texts -/

section Merge

variable {existing incoming : Text}

/-- A merge holds the trimmed incoming text. -/
theorem incoming_infix_merge : incoming.trim <:+: mergeMemoryContent existing incoming := by
  unfold mergeMemoryContent
  simp only
  split_ifs with hsub hsup
  · exact Text.contains_iff.mp hsub
  · exact List.infix_rfl
  · exact (List.suffix_append _ _).isInfix

/-- A merge that changes nothing was of a text already there. -/
theorem infix_of_merge_eq (h : mergeMemoryContent existing incoming = existing) :
    incoming.trim <:+: existing := by
  have hmerge : incoming.trim <:+: mergeMemoryContent existing incoming := incoming_infix_merge
  rwa [h] at hmerge

end Merge

/-! ## The steps of a call -/

section Steps

variable {svc svc' : Service F} {embed : EmbedFn F} {env : IngestEnv}

omit [Scalar F] in
@[simp] theorem hear_records (reply : EmbedReply F) :
    (svc.hear reply).store.records = svc.store.records := by
  unfold Service.hear
  split
  · exact Store.rebind_records _ _
  · rfl

omit [Scalar F] in
theorem noteWidthMismatch_records (observed : Nat) :
    (svc.noteWidthMismatch embed observed).store.records = svc.store.records := by
  have hprobe : ∀ svc : Service F, (svc.probe embed).store.records = svc.store.records := by
    intro svc
    unfold Service.probe
    simp only
    split <;> exact hear_records _
  unfold Service.noteWidthMismatch
  simp only
  split_ifs <;> first | exact hprobe _ | rfl

theorem raiseImportance_records (id : String) (importance : F) :
    (svc.raiseImportance id importance).store.records = svc.store.records := by
  unfold Service.raiseImportance
  split
  · rename_i store hstore
    exact Store.updateFsrs_records hstore
  · rfl

theorem storeUnembedded_records {content : Text} {metadata : Metadata} {fsrs : FsrsState F}
    {ws : Option String} {r : String × IngestAction}
    (h : storeUnembedded env svc content metadata fsrs ws = .ok (svc', r)) :
    ∃ id, svc'.store.records = svc.store.records ++ [⟨id, content, metadata, ws⟩] := by
  obtain ⟨store, hadd, h⟩ := bind_eq_ok.mp h
  cases h
  exact ⟨_, Store.add_records hadd⟩

theorem createMemory_records {id : String} {content : Text} {metadata : Metadata}
    {fsrs : FsrsState F} {ws : Option String} {embedding : List F} {r : String × IngestAction}
    (h : createMemory embed env svc id content metadata fsrs ws embedding = .ok (svc', r)) :
    svc'.store.records = svc.store.records ++ [⟨id, content, metadata, ws⟩] := by
  obtain ⟨store, hadd, h⟩ := bind_eq_ok.mp h
  cases h
  refine (Store.add_records hadd).trans (congrArg (· ++ _) ?_)
  split_ifs
  · rfl
  · exact noteWidthMismatch_records _

/-- What a fold does: nothing for a merge that changes nothing, else the rewrite of the first row
with the id if it still holds the text the merge was made from. -/
theorem foldIntoMemory_ok {existing : MemoryEntry F} {incoming : Text} {folded : FoldResult}
    (h : foldIntoMemory embed svc existing incoming = .ok (folded, svc')) :
    (folded = .subset ∧ mergeMemoryContent existing.content incoming = existing.content ∧
        svc' = svc) ∨
      mergeMemoryContent existing.content incoming ≠ existing.content ∧
        ∃ target, svc.store.records.find? (·.id = existing.id) = some target ∧
          (folded = .merged ∧ target.content = existing.content ∧
              svc'.store.records = Store.retextRecords svc.store.records existing.id
                (mergeMemoryContent existing.content incoming) ∨
            folded = .contended ∧ target.content ≠ existing.content ∧
              svc'.store.records = svc.store.records) := by
  unfold foldIntoMemory at h
  simp only at h
  split_ifs at h with hsame
  · cases h
    exact .inl ⟨rfl, hsame, rfl⟩
  · refine .inr ⟨hsame, ?_⟩
    split at h
    · cases h
    · obtain ⟨⟨written, svc₁⟩, hwrite, h⟩ := bind_eq_ok.mp h
      cases h
      obtain ⟨entry, hget, heffect⟩ := rewriteWithBinding_ok hwrite
      have hfind := congrArg (Option.map MemoryEntry.record) hget
      rw [Store.record_get, hear_records] at hfind
      refine ⟨entry.record, hfind, ?_⟩
      rcases heffect with ⟨rfl, hcontent, rfl⟩ | ⟨rfl, hcontent, rfl⟩
      · refine .inl ⟨rfl, hcontent, (Store.rewrite_records ..).trans ?_⟩
        rw [hear_records]
      · exact .inr ⟨rfl, hcontent, hear_records _⟩

end Steps

/-! ## A whole call -/

section Decision

variable {call : IngestCall F} {embed : Option (EmbedFn F)} {svc svc' : Service F}
  {existing : MemoryEntry F} {action : IngestAction}

theorem mem_of_neighbour (h : call.neighbour embed svc = some (existing, action)) :
    existing.record ∈ svc.store.records := by
  unfold IngestCall.neighbour at h
  split at h
  · cases h
  · rename_i embed
    simp only at h
    split at h
    · cases h
    · obtain ⟨hit, hhit, heq⟩ := Option.map_eq_some_iff.mp h
      cases heq
      rw [← hear_records (embed 0 call.content), Store.records]
      refine List.mem_map_of_mem ?_
      cases call with
      | smartIngest => exact Store.mem_of_search (List.mem_of_head? hhit)
      | rememberWithImportance => exact Store.mem_of_search (List.mem_of_head? hhit)
      | rememberScoped => exact Store.mem_of_searchScoped (List.mem_of_head? hhit)

theorem not_reinforces (h : call.neighbour embed svc = some (existing, action))
    (hno : call.reinforces existing action = false) : ¬call.Reinforces embed svc := by
  rintro ⟨existing', action', h', hyes⟩
  cases h.symm.trans h'
  rw [hno] at hyes
  cases hyes

theorem not_foldsInto (h : call.neighbour embed svc = some (existing, action))
    (hno : call.folds existing action = false) (target : Record) :
    ¬call.FoldsInto embed svc target := by
  rintro ⟨existing', action', h', hyes, -⟩
  cases h.symm.trans h'
  rw [hno] at hyes
  cases hyes

omit [Scalar F] in
/-- A call that folds into a neighbour does not just reinforce it. -/
theorem reinforces_of_folds (h : call.folds existing action = true) :
    call.reinforces existing action = false := by
  cases call <;> cases action <;> simp_all [IngestCall.folds, IngestCall.reinforces]

theorem not_foldsInto_of_reinforces (h : call.Reinforces embed svc) (target : Record) :
    ¬call.FoldsInto embed svc target := by
  rintro ⟨existing, action, hneighbour, hfolds, -⟩
  exact not_reinforces hneighbour (reinforces_of_folds hfolds) h

theorem foldsInto_unique {target target' : Record} (h : call.FoldsInto embed svc target)
    (h' : call.FoldsInto embed svc target') : target = target' := by
  obtain ⟨existing, action, hneighbour, -, -, hfind, -⟩ := h
  obtain ⟨existing', action', hneighbour', -, -, hfind', -⟩ := h'
  cases hneighbour.symm.trans hneighbour'
  exact Option.some.inj (hfind.symm.trans hfind')

/-- No neighbour, no decision: the row is created. -/
theorem created_without_neighbour (id : String) (h : call.neighbour embed svc = none)
    (hrecords : svc'.store.records =
      svc.store.records ++ [⟨id, call.content, call.metadata, call.scope⟩]) :
    IngestEffect call embed svc svc'.store.records := by
  rw [hrecords]
  refine .created id ?_ ?_
  · rintro ⟨existing, action, h', -⟩
    cases h.symm.trans h'
  · rintro target ⟨existing, action, h', -⟩
    cases h.symm.trans h'

theorem created_beside {id : String} (h : call.neighbour embed svc = some (existing, action))
    (hreinforces : call.reinforces existing action = false)
    (hfolds : call.folds existing action = false)
    (hrecords : svc'.store.records =
      svc.store.records ++ [⟨id, call.content, call.metadata, call.scope⟩]) :
    IngestEffect call embed svc svc'.store.records := by
  rw [hrecords]
  exact .created id (not_reinforces h hreinforces) (not_foldsInto h hfolds)

/-- The fold of a call: it merges, or it leaves the records, and then there was no row to merge
into or the neighbour holds the text. -/
theorem fold_effect {embed : EmbedFn F} {svc₁ svc₂ : Service F} {folded : FoldResult}
    (h : call.neighbour (some embed) svc = some (existing, action))
    (hfolds : call.folds existing action = true) (hrecords : svc₁.store.records = svc.store.records)
    (hfold : foldIntoMemory embed svc₁ existing call.content = .ok (folded, svc₂)) :
    folded = .merged ∧ IngestEffect call (some embed) svc svc₂.store.records ∨
      folded ≠ .merged ∧ svc₂.store.records = svc.store.records ∧
        ¬call.Reinforces (some embed) svc ∧ (∀ target, ¬call.FoldsInto (some embed) svc target) ∧
        (folded = .subset → call.content.trim <:+: existing.content) := by
  have hreinforces := not_reinforces h (reinforces_of_folds hfolds)
  rcases foldIntoMemory_ok hfold with ⟨rfl, hmerge, rfl⟩ | ⟨hmerge, target, hfind, heffect⟩
  · refine .inr ⟨nofun, hrecords, hreinforces, ?_, fun _ => infix_of_merge_eq hmerge⟩
    rintro target ⟨existing', action', h', -, hne, -⟩
    cases h.symm.trans h'
    exact hne hmerge
  · rw [hrecords] at hfind
    rcases heffect with ⟨rfl, hcontent, hmerged⟩ | ⟨rfl, hcontent, hsame⟩
    · refine .inl ⟨rfl, ?_⟩
      have hid : target.id = existing.id := by simpa using List.find?_some hfind
      rw [hmerged, hrecords, ← hcontent, ← hid]
      exact .merged ⟨existing, action, h, hfolds, hmerge, hfind, hcontent⟩ hreinforces
    · refine .inr ⟨nofun, hsame.trans hrecords, hreinforces, ?_, nofun⟩
      rintro target' ⟨existing', action', h', -, -, hfind', hcontent'⟩
      cases h.symm.trans h'
      cases hfind.symm.trans hfind'
      exact hcontent hcontent'

/-- A text that the neighbour holds is not folded anywhere. -/
theorem held_effect (h : call.neighbour embed svc = some (existing, action))
    (hsame : svc'.store.records = svc.store.records)
    (hheld : call.content.trim <:+: existing.content)
    (hfolds : ∀ target, ¬call.FoldsInto embed svc target) :
    IngestEffect call embed svc svc'.store.records := by
  rw [hsame]
  exact .held (mem_of_neighbour h) hheld hfolds

end Decision

section Calls

variable {embed : Option (EmbedFn F)} {env : IngestEnv} {svc svc' : Service F} {content : Text}
  {metadata : Metadata} {importance : F} {ws : Option String} {r : String × IngestAction}

/-- The head of a call: without a vector the row is created, with one the search decides. -/
theorem withEmbedding_effect (call : IngestCall F) {unembedded : Service F → Result (Ingested F)}
    {ingest : EmbedFn F → Service F → List F → Result (Ingested F)}
    (h : withEmbedding embed svc call.content unembedded ingest = .ok (svc', r))
    (hunembedded : ∀ {svc₁}, unembedded svc₁ = .ok (svc', r) → ∃ id, svc'.store.records =
      svc₁.store.records ++ [⟨id, call.content, call.metadata, call.scope⟩])
    (hingest : ∀ {embed₁ svc₁ embedding}, embed = some embed₁ →
      svc₁.store.records = svc.store.records →
      call.neighbour embed svc = (call.hits svc₁ embedding).head?.map (fun hit =>
        (hit.1, IngestAction.fromSimilarity hit.2)) →
      ingest embed₁ svc₁ embedding = .ok (svc', r) →
      IngestEffect call embed svc svc'.store.records) :
    IngestEffect call embed svc svc'.store.records := by
  unfold withEmbedding at h
  split at h
  · obtain ⟨id, hrecords⟩ := hunembedded h
    exact created_without_neighbour id rfl hrecords
  · rename_i embed
    simp only at h
    split at h
    · rename_i reason hreply
      obtain ⟨id, hrecords⟩ := hunembedded h
      rw [hear_records] at hrecords
      refine created_without_neighbour id ?_ hrecords
      simp only [IngestCall.neighbour, hreply]
    · rename_i embedding hreply
      refine hingest rfl (hear_records _) ?_ h
      simp only [IngestCall.neighbour, hreply]

theorem smartIngest_effect (h : smartIngest embed env svc content metadata = .ok (svc', r)) :
    IngestEffect (.smartIngest content metadata) embed svc svc'.store.records := by
  unfold smartIngest at h
  refine withEmbedding_effect (.smartIngest content metadata) h storeUnembedded_records ?_
  rintro embed svc₁ embedding rfl hsame hneighbour h
  simp only [IngestCall.hits] at hneighbour
  simp only at h
  split at h
  · rename_i hhead
    rw [hhead] at hneighbour
    exact created_without_neighbour _ hneighbour (hsame ▸ createMemory_records h)
  · rename_i existing similarity hhead
    rw [hhead] at hneighbour
    split at h
    · rename_i haction
      cases h
      exact hsame ▸ .dropped ⟨existing, _, hneighbour, decide_eq_true haction⟩
    · rename_i haction
      obtain ⟨⟨folded, svc₂⟩, hfold, h⟩ := bind_eq_ok.mp h
      rcases fold_effect hneighbour (decide_eq_true haction) hsame hfold with
        ⟨rfl, heffect⟩ | ⟨hne, hrecords, hreinforces, hfolds, hheld⟩
      · cases h
        exact heffect
      · cases folded with
        | merged => exact absurd rfl hne
        | subset =>
          cases h
          exact held_effect hneighbour hrecords (hheld rfl) hfolds
        | contended =>
          rw [createMemory_records h]
          exact hrecords ▸ .created _ hreinforces hfolds
    · rename_i haction
      have hcreate : ∀ a : IngestAction, a ≠ .create → decide (IngestAction.fromSimilarity
          similarity = a) = false := fun a ha => decide_eq_false (haction ▸ ha.symm)
      exact created_beside hneighbour (hcreate _ nofun) (hcreate _ nofun)
        (hsame ▸ createMemory_records h)

theorem rememberWithImportance_effect
    (h : rememberWithImportance embed env svc content metadata importance = .ok (svc', r)) :
    IngestEffect (.rememberWithImportance content metadata importance) embed svc
      svc'.store.records := by
  unfold rememberWithImportance at h
  refine withEmbedding_effect (.rememberWithImportance content metadata importance) h
    storeUnembedded_records ?_
  rintro embed svc₁ embedding rfl hsame hneighbour h
  simp only [IngestCall.hits] at hneighbour
  simp only at h
  split at h
  · rename_i hhead
    rw [hhead] at hneighbour
    exact created_without_neighbour _ hneighbour (hsame ▸ createMemory_records h)
  · rename_i existing similarity hhead
    rw [hhead] at hneighbour
    split at h
    · rename_i herror
      refine created_beside hneighbour ?_ ?_ (hsame ▸ createMemory_records h)
      · simp only [IngestCall.reinforces, herror, Bool.not_true, Bool.and_false]
      · simp only [IngestCall.folds, herror, Bool.not_true, Bool.and_false]
    · rename_i hsound
      rw [Bool.not_eq_true] at hsound
      split at h
      · rename_i haction
        cases h
        rw [raiseImportance_records]
        refine hsame ▸ .dropped ⟨existing, _, hneighbour, ?_⟩
        simp only [IngestCall.reinforces, haction, hsound, decide_true, Bool.not_false,
          Bool.and_self]
      · rename_i haction
        have hfolds : (IngestCall.rememberWithImportance content metadata importance).folds existing
            (IngestAction.fromSimilarity similarity) = true := by
          simp only [IngestCall.folds, haction, hsound, decide_true, Bool.not_false, Bool.and_self]
        obtain ⟨⟨folded, svc₂⟩, hfold, h⟩ := bind_eq_ok.mp h
        rcases fold_effect hneighbour hfolds hsame hfold with
          ⟨rfl, heffect⟩ | ⟨hne, hrecords, hreinforces, hfolds, hheld⟩
        · cases h
          exact heffect
        · have hcreated : createGlobalMemory embed env (svc₂.rate existing.id) content metadata
              importance embedding = .ok (svc', r) → IngestEffect
              (.rememberWithImportance content metadata importance) (some embed) svc
              svc'.store.records := by
            intro hcreate
            rw [createMemory_records hcreate]
            exact hrecords ▸ .created _ hreinforces hfolds
          cases folded with
          | merged => exact absurd rfl hne
          | subset =>
            simp only at h
            split at h
            · cases h
              exact held_effect hneighbour hrecords (hheld rfl) hfolds
            · exact hcreated h
          | contended => exact hcreated h
      · rename_i haction
        refine created_beside hneighbour ?_ ?_ (hsame ▸ createMemory_records h)
        · simp [IngestCall.reinforces, haction]
        · simp [IngestCall.folds, haction]

theorem rememberScoped_effect
    (h : rememberScoped embed env svc content metadata importance ws = .ok (svc', r)) :
    IngestEffect (.rememberScoped content metadata importance ws) embed svc
      svc'.store.records := by
  unfold rememberScoped at h
  refine withEmbedding_effect (.rememberScoped content metadata importance ws) h
    storeUnembedded_records ?_
  rintro embed svc₁ embedding rfl hsame hneighbour h
  simp only [IngestCall.hits] at hneighbour
  simp only at h
  split at h
  · rename_i hhead
    rw [hhead] at hneighbour
    exact created_without_neighbour _ hneighbour (hsame ▸ createMemory_records h)
  · rename_i existing similarity hhead
    rw [hhead] at hneighbour
    split at h
    · rename_i haction
      refine created_beside hneighbour rfl ?_ (hsame ▸ createMemory_records h)
      simp [IngestCall.folds, haction]
    · rename_i haction
      split at h
      · rename_i hhandle
        refine created_beside hneighbour rfl ?_ (hsame ▸ createMemory_records h)
        simp [IngestCall.folds, hhandle]
      · rename_i hhandle
        split at h
        · rename_i hheld
          cases h
          refine held_effect hneighbour hsame ?_ (not_foldsInto hneighbour ?_)
          · exact (Text.contains_iff.mp hheld).trans (Text.trim_infix _)
          · simp [IngestCall.folds, hheld]
        · rename_i hnot
          have hfolds : (IngestCall.rememberScoped content metadata importance ws).folds existing
              (IngestAction.fromSimilarity similarity) = true := by
            simp [IngestCall.folds, haction, hhandle, hnot]
          have hrated : (svc₁.rate existing.id).store.records = svc.store.records := hsame
          obtain ⟨⟨folded, svc₂⟩, hfold, h⟩ := bind_eq_ok.mp h
          rcases fold_effect hneighbour hfolds hrated hfold with
            ⟨rfl, heffect⟩ | ⟨hne, hrecords, hreinforces, hfolds, -⟩
          · cases h
            exact heffect
          · have hcreated : createMemory embed env svc₂ (handleId env metadata) content metadata
                (ratedFsrs env importance) ws embedding = .ok (svc', r) := by
              cases folded with
              | merged => exact absurd rfl hne
              | subset => exact h
              | contended => exact h
            rw [createMemory_records hcreated]
            exact hrecords ▸ .created _ hreinforces hfolds

/-- What a successful ingest does to the records. -/
theorem IngestCall.run_effect {call : IngestCall F} (h : call.run embed env svc = .ok (svc', r)) :
    IngestEffect call embed svc svc'.store.records := by
  cases call with
  | smartIngest => exact smartIngest_effect h
  | rememberWithImportance => exact rememberWithImportance_effect h
  | rememberScoped => exact rememberScoped_effect h

end Calls

end Nanna.Memory
