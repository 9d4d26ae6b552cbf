import Nanna.Lib.Moves
import Nanna.Memory.Cluster
import Nanna.Memory.IngestEffect

/-!
# A dreaming pass among live writes

`fold_near_duplicates` folds each duplicate of a survivor into it, by a rewrite that expects the
survivor's snapshot text, and removes the folded sources in one batch at the end;
`consolidate_cluster` stores the summarizer's reply and then removes the cluster. Both removals match
the snapshot text. `Dream` is the service between two critical sections, with the copies the pass
holds and where it stands; other callers ingest and update at any of these points.

`dream_loses_no_write`: in a run whose explicit updates keep, in a row that has taken in a text which
the pass is about to remove, that text, every row a removal takes out still has its snapshot text,
and that text is in a live row or in the prompt whose reply is live. The sources need no condition,
since the removal matches them; nor do ingests, whose merges keep what they rewrite.
`folded_text_overwritten` is the run in which the survivor is overwritten before the batch goes.
-/

namespace Nanna.Memory

open Nanna.Lib

variable {F : Type} [Scalar F]

/-! ## The state of a pass -/

/-- A folded source: its id, the text that was folded, and the survivor that took it in. Only the
first two decide the removal. -/
structure Folded where
  id : String
  content : Text
  into : String

/-- The variables of `fold_near_duplicates`. -/
structure Fold (F : Type) where
  memories : List (MemoryEntry F)
  removalBudgetCount : Nat
  /-- The memories not examined yet, strongest first. -/
  ranked : List (MemoryEntry F)
  survivors : List (MemoryEntry F)
  foldedSources : List Folded

/-- Where a pass stands between two critical sections. -/
inductive Stage (F : Type)
  | idle
  | folding (fold : Fold F)
  /-- The survivor holds the candidate's text already; the store has not been asked yet. -/
  | verifying (fold : Fold F) (candidate survivor : MemoryEntry F)
  | embedding (fold : Fold F) (candidate survivor : MemoryEntry F) (merged : Text)
  | rewriting (fold : Fold F) (candidate survivor : MemoryEntry F) (merged : Text) (vector : List F)
  /-- The survivor's row is settled; its FSRS state is not updated yet. -/
  | inheriting (fold : Fold F) (candidate survivor : MemoryEntry F) (merged : Text)
      (newEmbedding : Option (List F))
  | summarizing (cluster : MemoryCluster F) (prompt : Text)
  | summarized (cluster : MemoryCluster F) (prompt summary : Text)
  | adding (cluster : MemoryCluster F) (prompt summary : Text) (vector : List F)
  /-- The summary is stored under `id`; the cluster has not been removed yet. -/
  | superseding (cluster : MemoryCluster F) (prompt summary : Text) (id : String)

structure Dream (F : Type) where
  svc : Service F
  /-- The copies of the band that no function of the pass holds. -/
  held : List (MemoryEntry F)
  stage : Stage F

/-! ## Folding -/

/-- The survivor is a duplicate of the candidate, in the same scope. -/
def duplicateOf (candidate survivor : MemoryEntry F) : Bool :=
  !candidate.embedding.isEmpty && survivor.workspaceId = candidate.workspaceId &&
    survivor.embedding.length = candidate.embedding.length &&
    let similarity := Scalar.cosine survivor.embedding candidate.embedding
    Scalar.isFinite similarity && IngestAction.fromSimilarity similarity = .reinforce

def findDuplicateTarget (survivors : List (MemoryEntry F)) (candidate : MemoryEntry F) :
    Option (MemoryEntry F) := survivors.find? (duplicateOf candidate)

/-- `absorb_fold`: the copy follows the store. `access_count += ..` wraps in the release build. -/
def absorbFold (candidate : MemoryEntry F) (merged : Text) (newEmbedding : Option (List F))
    (survivor : MemoryEntry F) : MemoryEntry F :=
  { survivor with
    content := merged
    embedding := newEmbedding.getD survivor.embedding
    fsrs :=
      { survivor.fsrs with
        importance := fmax survivor.fsrs.importance candidate.fsrs.importance
        accessCount := (survivor.fsrs.accessCount + candidate.fsrs.accessCount) % 2 ^ 32
        generation := max survivor.fsrs.generation candidate.fsrs.generation } }

/-- The FSRS state of the survivor's row after the fold. -/
def inheritFsrs (survivor source : MemoryEntry F) (fsrs : FsrsState F) : FsrsState F :=
  { fsrs with
    importance := fmax survivor.fsrs.importance source.fsrs.importance
    accessCount := (fsrs.accessCount + source.fsrs.accessCount) % 2 ^ 32
    generation := max fsrs.generation (max survivor.fsrs.generation source.fsrs.generation) }

namespace Fold

variable (fold : Fold F)

def start (memories : List (MemoryEntry F)) (removalBudgetCount : Nat) : Fold F :=
  ⟨memories, removalBudgetCount, memories, [], []⟩

/-- The candidate is not folded. -/
def keep (candidate : MemoryEntry F) : Fold F :=
  { fold with survivors := fold.survivors ++ [candidate] }

/-- The candidate is folded into the survivor. -/
def commit (candidate survivor : MemoryEntry F) (merged : Text)
    (newEmbedding : Option (List F)) : Fold F :=
  { fold with
    survivors :=
      modifyFirst (duplicateOf candidate) (absorbFold candidate merged newEmbedding) fold.survivors
    foldedSources := fold.foldedSources ++ [⟨candidate.id, candidate.content, survivor.id⟩] }

/-- The head of the loop, up to the first await. -/
def examine (candidate : MemoryEntry F) : Stage F :=
  let target :=
    if fold.foldedSources.length < fold.removalBudgetCount then
      findDuplicateTarget fold.survivors candidate
    else none
  match target with
  | none => .folding (fold.keep candidate)
  | some survivor =>
    let incoming := candidate.content.trim
    let merged := mergeMemoryContent survivor.content incoming
    if !merged.contains incoming then .folding (fold.keep candidate)
    else if merged = survivor.content then .verifying fold candidate survivor
    else .embedding fold candidate survivor merged

end Fold

/-! ## The machine -/

/-- A critical section of the pass, or of another caller. -/
inductive DreamAct (F : Type)
  /-- The pass copies the rows. -/
  | begin
  /-- A partition of a band, in the order of the ranking. -/
  | fold (ids : List String) (removalBudgetCount : Nat)
  | examine
  | verify
  | embed (reply : EmbedReply F)
  | rewrite
  | inherit
  | consolidate (level : CompressionLevel) (ids : List String)
  | summarize (result : Except String Text)
  | add (id : String) (now : Int)
  /-- `remove_many_matching`, at the end of either function. -/
  | remove
  | create (entry : MemoryEntry F)
  /-- An ingest rewrites a row to the merge of its text with another. -/
  | ingestFold (id : String) (existing incoming : Text) (vector : List F)
  | updateFsrs (id : String) (f : FsrsState F → FsrsState F)
  /-- Another caller's embedder returns, and may have rebound the store. -/
  | hear (reply : EmbedReply F)
  | updateContent (id : String) (content : Text)

namespace Dream

variable (m : Dream F)

def setStore (result : Result (Store F)) : Dream F :=
  match result with
  | .ok store => { m with svc := { m.svc with store } }
  | .error _ => m

/-- The copies with these ids, in this order. -/
def take (ids : List String) : List (MemoryEntry F) :=
  ids.filterMap fun id => m.held.find? (·.id = id)

def without (ids : List String) : Dream F :=
  { m with held := m.held.filter fun memory => memory.id ∉ ids }

def setStage (stage : Stage F) : Dream F := { m with stage }

def step : DreamAct F → Option (Dream F)
  | .begin =>
    match m.stage with
    | .idle => some { m with held := m.svc.store.entries }
    | _ => none
  | .fold ids removalBudgetCount =>
    match m.stage with
    | .idle =>
      if ¬ids.Nodup ∨ removalBudgetCount = 0 ∨ (m.take ids).length < 2 then none
      else some ((m.without ids).setStage (.folding (.start (m.take ids) removalBudgetCount)))
    | _ => none
  | .examine =>
    match m.stage with
    | .folding fold =>
      match fold.ranked with
      | [] => none
      | candidate :: ranked => some (m.setStage (Fold.examine { fold with ranked } candidate))
    | _ => none
  | .verify =>
    match m.stage with
    | .verifying fold candidate survivor =>
      if (m.svc.store.get survivor.id).any fun live => live.content.contains candidate.content.trim
      then some (m.setStage (.inheriting fold candidate survivor survivor.content none))
      else some (m.setStage (.folding (fold.keep candidate)))
    | _ => none
  | .embed reply =>
    let heard := { m with svc := m.svc.hear reply }
    match m.stage with
    | .embedding fold candidate survivor merged =>
      match reply.result with
      | .ok vector => some (heard.setStage (.rewriting fold candidate survivor merged vector))
      | .error _ => some (heard.setStage (.folding (fold.keep candidate)))
    | .summarized cluster prompt summary =>
      match reply.result with
      | .ok vector => some (heard.setStage (.adding cluster prompt summary vector))
      | .error _ => some (heard.setStage .idle)
    | _ => none
  | .rewrite =>
    match m.stage with
    | .rewriting fold candidate survivor merged vector =>
      match rewriteWithBinding m.svc survivor.id merged vector survivor.content with
      | .ok (some stored, svc) =>
        some (Dream.setStage { m with svc } (.inheriting fold candidate survivor merged (some stored)))
      | _ => some (m.setStage (.folding (fold.keep candidate)))
    | _ => none
  | .inherit =>
    match m.stage with
    | .inheriting fold candidate survivor merged newEmbedding =>
      match m.svc.store.updateFsrs survivor.id (inheritFsrs survivor candidate) with
      | .ok store =>
        some ((m.setStore (.ok store)).setStage
          (.folding (fold.commit candidate survivor merged newEmbedding)))
      | .error _ => some (m.setStage (.folding (fold.keep candidate)))
    | _ => none
  | .consolidate level ids =>
    match m.stage with
    | .idle =>
      let cluster : MemoryCluster F := ⟨m.take ids, level⟩
      if ¬ids.Nodup ∨ (m.take ids).isEmpty then none
      else some ((m.without ids).setStage (.summarizing cluster cluster.buildConsolidationPrompt))
    | _ => none
  | .summarize result =>
    match m.stage with
    | .summarizing cluster prompt =>
      match result with
      | .ok summary => some (m.setStage (.summarized cluster prompt summary))
      | .error _ => some (m.setStage .idle)
    | _ => none
  | .add id now =>
    match m.stage with
    | .adding cluster prompt summary vector =>
      -- a fresh uuid
      if id ∈ m.svc.store.entries.map (·.id) ∨ id ∈ cluster.memories.map (·.id) then none
      else
        match m.svc.store.add (createConsolidatedEntry cluster summary vector id now) with
        | .ok store => some ((m.setStore (.ok store)).setStage (.superseding cluster prompt summary id))
        | .error _ => some (m.setStage .idle)
    | _ => none
  | .remove =>
    match m.stage with
    | .folding fold =>
      match fold.ranked with
      | [] =>
        let pairs := fold.foldedSources.map fun source => (source.id, source.content)
        some { m.setStore (.ok (m.svc.store.removeManyMatching pairs).1) with
          held := m.held ++ fold.survivors, stage := .idle }
      | _ :: _ => none
    | .superseding cluster _ _ _ =>
      let pairs := cluster.memories.map fun memory => (memory.id, memory.content)
      some ((m.setStore (.ok (m.svc.store.removeManyMatching pairs).1)).setStage .idle)
    | _ => none
  | .create entry => some (m.setStore (m.svc.store.add entry))
  | .ingestFold id existing incoming vector =>
    match rewriteWithBinding m.svc id (mergeMemoryContent existing incoming) vector existing with
    | .ok (_, svc) => some { m with svc }
    | .error _ => some m
  | .updateFsrs id f => some (m.setStore (m.svc.store.updateFsrs id f))
  | .hear reply => some { m with svc := m.svc.hear reply }
  | .updateContent id content => some (m.setStore (m.svc.store.updateContent id content))

end Dream

/-! ## What the next removal relies on -/

/-- A live record with this id holds the text. -/
def Retains (records : List Record) (row : String × Text) : Prop :=
  ∃ r ∈ records, r.id = row.1 ∧ row.2.trim <:+: r.content

/-- The rows that have taken in a text whose own row is to be removed, each with that text. -/
def Stage.relies : Stage F → List (String × Text)
  | .folding fold | .verifying fold .. | .embedding fold .. | .rewriting fold .. =>
    fold.foldedSources.map fun source => (source.into, source.content)
  | .inheriting fold candidate survivor _ _ => (survivor.id, candidate.content) ::
      fold.foldedSources.map fun source => (source.into, source.content)
  | .superseding _ _ summary id => [(id, summary)]
  | .idle | .summarizing .. | .summarized .. | .adding .. => []

/-- An explicit update of such a row leaves the text in it. -/
def Dream.KeepsAbsorbed (m : Dream F) : DreamAct F → Prop
  | .updateContent id content => ∀ row ∈ m.stage.relies, row.1 = id → row.2.trim <:+: content
  | _ => True

instance (m : Dream F) (act : DreamAct F) : Decidable (m.KeepsAbsorbed act) := by
  unfold Dream.KeepsAbsorbed
  split <;> infer_instance

section Retains

variable {records : List Record} {row : String × Text}

theorem Retains.append {r : Record} (h : Retains records row) : Retains (records ++ [r]) row := by
  obtain ⟨kept, hkept, h⟩ := h
  exact ⟨kept, List.mem_append_left _ hkept, h⟩

/-- A rewrite of one record keeps what the new text of that record keeps. -/
theorem Retains.retext {id : String} {content : Text} (h : Retains records row)
    (hkeep : ∀ r, records.find? (·.id = id) = some r → row.1 = id → row.2.trim <:+: r.content →
      row.2.trim <:+: content) : Retains (Store.retextRecords records id content) row := by
  cases hfind : records.find? (·.id = id) with
  | none =>
    rw [Store.retextRecords, modifyFirst_of_none hfind]
    exact h
  | some target =>
    have hid := List.find?_some hfind
    rw [decide_eq_true_eq] at hid
    obtain ⟨l₁, l₂, rfl, heq⟩ := modifyFirst_eq (fun r => { r with content }) hfind
    obtain ⟨kept, hkept, hrow, htext⟩ := h
    rw [Store.retextRecords, heq]
    rcases List.mem_append.mp hkept with hkept | hkept
    · exact ⟨kept, List.mem_append_left _ hkept, hrow, htext⟩
    · rcases List.mem_cons.mp hkept with rfl | hkept
      · refine ⟨_, List.mem_append_right _ List.mem_cons_self, hrow, ?_⟩
        exact hkeep kept hfind (hrow.symm.trans hid) htext
      · exact ⟨kept, List.mem_append_right _ (List.mem_cons_of_mem _ hkept), hrow, htext⟩

end Retains

/-- A merge holds every trimmed text that the existing one holds. -/
theorem infix_merge {text existing incoming : Text} (h : text.trim <:+: existing) :
    text.trim <:+: mergeMemoryContent existing incoming := by
  have htrim : text.trim <:+: existing.trim := Text.trim_infix_trim h
  unfold mergeMemoryContent
  simp only
  split_ifs with hsub hsup
  · exact htrim
  · exact htrim.trans (Text.contains_iff.mp hsup)
  · exact htrim.trans ((List.prefix_append _ _).trans (List.prefix_append _ _)).isInfix

/-! ## The pass's own state -/

/-- A fold with candidates in hand: no two of its memories have one id, a folded source is a memory
as it came, and a survivor has taken it in. -/
structure Fold.Sound (fold : Fold F) (inHand : List (MemoryEntry F)) : Prop where
  ids : ((inHand ++ fold.ranked ++ fold.survivors).map (·.id) ++
    fold.foldedSources.map (·.id)).Nodup
  memories : ∀ memory ∈ inHand ++ fold.ranked, memory ∈ fold.memories
  sources : ∀ source ∈ fold.foldedSources,
    (∃ memory ∈ fold.memories, memory.id = source.id ∧ memory.content = source.content) ∧
      source.into ∈ fold.survivors.map (·.id)

namespace Fold.Sound

variable {fold : Fold F} {candidate survivor : MemoryEntry F}

omit [Scalar F] in
theorem take {ranked : List (MemoryEntry F)} (hranked : fold.ranked = candidate :: ranked)
    (h : fold.Sound []) : Fold.Sound { fold with ranked } [candidate] := by
  obtain ⟨hids, hmemories, hsources⟩ := h
  rw [hranked] at hids hmemories
  exact ⟨hids, hmemories, hsources⟩

omit [Scalar F] in
theorem keep (h : fold.Sound [candidate]) : (fold.keep candidate).Sound [] := by
  refine ⟨?_, fun memory hmemory => h.memories memory (List.mem_append_right _ hmemory),
    fun source hsource => ?_⟩
  · have hperm : (fold.ranked ++ (fold.survivors ++ [candidate])).Perm
        ([candidate] ++ fold.ranked ++ fold.survivors) := by
      rw [← List.append_assoc, List.append_assoc [candidate]]
      exact List.perm_append_comm
    exact ((hperm.map _).append_right _).nodup_iff.mpr h.ids
  · obtain ⟨hmemory, hinto⟩ := h.sources source hsource
    refine ⟨hmemory, ?_⟩
    rw [Fold.keep, List.map_append]
    exact List.mem_append_left _ hinto

theorem commit {merged : Text} {newEmbedding : Option (List F)} (h : fold.Sound [candidate])
    (hsurvivor : survivor.id ∈ fold.survivors.map (·.id)) :
    (fold.commit candidate survivor merged newEmbedding).Sound [] := by
  have hsame : (fold.commit candidate survivor merged newEmbedding).survivors.map (·.id) =
      fold.survivors.map (·.id) := map_modifyFirst fun _ _ => rfl
  refine ⟨?_, fun memory hmemory => h.memories memory (List.mem_append_right _ hmemory),
    fun source hsource => ?_⟩
  · have hlist : (fold.commit candidate survivor merged newEmbedding).foldedSources.map (·.id) =
        fold.foldedSources.map (·.id) ++ [candidate.id] := List.map_append
    rw [List.map_append, hsame, hlist, ← List.append_assoc]
    refine List.perm_append_comm.nodup_iff.mpr ?_
    simpa only [Fold.commit, List.map_append, List.map_cons, List.map_nil, List.nil_append,
      List.append_assoc] using h.ids
  · rw [hsame]
    rcases List.mem_append.mp hsource with hsource | hsource
    · exact h.sources source hsource
    · rw [List.mem_singleton.mp hsource]
      exact ⟨⟨candidate, h.memories candidate (List.mem_append_left _ (List.mem_singleton_self _)),
        rfl, rfl⟩, hsurvivor⟩

omit [Scalar F] in
theorem start {memories : List (MemoryEntry F)} {removalBudgetCount : Nat}
    (hids : (memories.map (·.id)).Nodup) : (Fold.start memories removalBudgetCount).Sound [] := by
  refine ⟨?_, fun memory hmemory => hmemory, nofun⟩
  simpa [Fold.start] using hids

end Fold.Sound

def Stage.Sound : Stage F → Prop
  | .idle => True
  | .folding fold => fold.Sound []
  | .verifying fold candidate survivor =>
    fold.Sound [candidate] ∧ survivor.id ∈ fold.survivors.map (·.id)
  | .embedding fold candidate survivor merged | .rewriting fold candidate survivor merged _ =>
    (fold.Sound [candidate] ∧ survivor.id ∈ fold.survivors.map (·.id)) ∧
      candidate.content.trim <:+: merged ∧
      merged = mergeMemoryContent survivor.content candidate.content.trim
  | .inheriting fold candidate survivor _ _ =>
    fold.Sound [candidate] ∧ survivor.id ∈ fold.survivors.map (·.id)
  | .summarizing cluster prompt | .summarized cluster prompt _ | .adding cluster prompt _ _ =>
    prompt = cluster.buildConsolidationPrompt
  | .superseding cluster prompt _ id =>
    prompt = cluster.buildConsolidationPrompt ∧ id ∉ cluster.memories.map (·.id)

theorem examine_sound {fold : Fold F} {candidate : MemoryEntry F} (h : fold.Sound [candidate]) :
    (fold.examine candidate).Sound ∧ (fold.examine candidate).relies =
      fold.foldedSources.map fun source => (source.into, source.content) := by
  unfold Fold.examine
  simp only
  split
  · exact ⟨h.keep, rfl⟩
  · rename_i survivor htarget
    have hsurvivor : survivor.id ∈ fold.survivors.map (·.id) := by
      split at htarget
      · exact List.mem_map_of_mem (List.mem_of_find?_eq_some htarget)
      · cases htarget
    split_ifs with hlost hsame
    · exact ⟨h.keep, rfl⟩
    · exact ⟨⟨h, hsurvivor⟩, rfl⟩
    · refine ⟨⟨⟨h, hsurvivor⟩, ?_, rfl⟩, rfl⟩
      simpa using hlost

/-! ## Runs -/

namespace Dream

variable {m m' : Dream F}

structure Sound (m : Dream F) : Prop where
  stage : m.stage.Sound
  retained : ∀ row ∈ m.stage.relies, Retains m.svc.store.records row

omit [Scalar F] in
/-- The pass moves on and relies on no new row. -/
theorem Sound.setStage {stage : Stage F} (h : m.Sound) (hstage : stage.Sound)
    (hrelies : ∀ row ∈ stage.relies, row ∈ m.stage.relies) : (m.setStage stage).Sound :=
  ⟨hstage, fun row hrow => h.retained row (hrelies row hrow)⟩

omit [Scalar F] in
/-- A write of the service that keeps the rows the pass relies on. -/
theorem Sound.setSvc {svc : Service F} (h : m.Sound)
    (hkeep : ∀ row ∈ m.stage.relies, Retains m.svc.store.records row →
      Retains svc.store.records row) : Sound { m with svc } :=
  ⟨h.stage, fun row hrow => hkeep row hrow (h.retained row hrow)⟩

omit [Scalar F] in
theorem Sound.setStore {result : Result (Store F)} (h : m.Sound)
    (hkeep : ∀ store, result = .ok store → ∀ row ∈ m.stage.relies,
      Retains m.svc.store.records row → Retains store.records row) : (m.setStore result).Sound := by
  cases result with
  | error _ => exact h
  | ok store => exact h.setSvc (hkeep store rfl)

omit [Scalar F] in
theorem Sound.hear (reply : EmbedReply F) (h : m.Sound) :
    Sound { m with svc := m.svc.hear reply } := by
  refine h.setSvc fun row _ hretains => ?_
  rw [hear_records]
  exact hretains

omit [Scalar F] in
theorem take_ids_nodup {ids : List String} (h : ids.Nodup) : ((m.take ids).map (·.id)).Nodup := by
  have hsub : ((m.take ids).map (·.id)).Sublist ids := by
    unfold take
    clear h
    induction ids with
    | nil => exact .slnil
    | cons id ids ih =>
      rw [List.filterMap_cons]
      split
      · exact ih.cons id
      · rename_i memory hfind
        have hid := List.find?_some hfind
        rw [decide_eq_true_eq] at hid
        rw [List.map_cons, hid]
        exact ih.cons_cons id
  exact hsub.nodup h

omit [Scalar F] in
theorem retains_live {s : Store F} {id : String} {text : Text}
    (h : (s.get id).any (fun live => live.content.contains text.trim) = true) :
    Retains s.records (id, text) := by
  cases hget : s.get id with
  | none =>
    rw [hget] at h
    cases h
  | some live =>
    rw [hget, Option.any_some, Text.contains_iff] at h
    have hid := List.find?_some hget
    rw [decide_eq_true_eq] at hid
    exact ⟨live.record, List.mem_map_of_mem (List.mem_of_find?_eq_some hget), hid, h⟩

/-- A rewrite to a merge with the expected text keeps every text of the row. -/
theorem retains_rewriteWithBinding {svc svc' : Service F} {id : String} {existing incoming : Text}
    {vector : List F} {written : Option (List F)} {row : String × Text}
    (hwrite : rewriteWithBinding svc id (mergeMemoryContent existing incoming) vector existing =
      .ok (written, svc')) (h : Retains svc.store.records row) :
    Retains svc'.store.records row := by
  obtain ⟨entry, hget, ⟨-, hcontent, rfl⟩ | ⟨-, -, rfl⟩⟩ := rewriteWithBinding_ok hwrite
  · have hrecords := congrArg (Option.map MemoryEntry.record) hget
    rw [Store.record_get] at hrecords
    change Retains (Store.records (svc.store.modify id _)) row
    rw [Store.rewrite_records]
    refine h.retext fun r hfind _ htext => infix_merge ?_
    obtain rfl := Option.some.inj (hrecords.symm.trans hfind)
    rw [← hcontent]
    exact htext
  · exact h

/-- A rewritten row holds what the new text holds. -/
theorem retains_written {svc svc' : Service F} {id : String} {content expected : Text}
    {vector stored : List F} {text : Text}
    (hwrite : rewriteWithBinding svc id content vector expected = .ok (some stored, svc'))
    (htext : text.trim <:+: content) : Retains svc'.store.records (id, text) := by
  obtain ⟨entry, hget, ⟨-, -, rfl⟩ | ⟨hnone, -⟩⟩ := rewriteWithBinding_ok hwrite
  · have hid := List.find?_some hget
    rw [decide_eq_true_eq] at hid
    have hmem := mem_modifyFirst (fun entry : MemoryEntry F => entry.rewrite content
      (Scalar.normalize (boundVector svc vector).1) (boundVector svc vector).2) hget
    exact ⟨_, List.mem_map_of_mem hmem, hid, htext⟩
  · cases hnone

theorem step_sound {act : DreamAct F} (hok : m.KeepsAbsorbed act) (hstep : m.step act = some m')
    (h : m.Sound) : m'.Sound := by
  have hstage := h.stage
  cases act with
  | begin =>
    simp only [step] at hstep
    split at hstep
    · cases hstep
      exact ⟨h.stage, h.retained⟩
    · cases hstep
  | fold ids removalBudgetCount =>
    simp only [step] at hstep
    split at hstep
    · split_ifs at hstep with hbad
      cases hstep
      refine ⟨Fold.Sound.start ?_, nofun⟩
      exact take_ids_nodup (not_not.mp (not_or.mp hbad).1)
    · cases hstep
  | examine =>
    simp only [step] at hstep
    split at hstep
    · rename_i fold hfolding
      rw [hfolding] at hstage
      split at hstep
      · cases hstep
      · rename_i candidate ranked hranked
        cases hstep
        obtain ⟨hsound, hrelies⟩ := examine_sound (hstage.take hranked)
        refine h.setStage hsound fun row hrow => ?_
        rw [hrelies] at hrow
        rw [hfolding]
        exact hrow
    · cases hstep
  | verify =>
    simp only [step] at hstep
    split at hstep
    · rename_i fold candidate survivor hverifying
      have hrelies := h.retained
      rw [hverifying] at hstage hrelies
      split_ifs at hstep with hlive
      · cases hstep
        refine ⟨hstage, fun row hrow => ?_⟩
        rcases List.mem_cons.mp hrow with rfl | hrow
        · exact retains_live hlive
        · exact hrelies row hrow
      · cases hstep
        exact ⟨hstage.1.keep, hrelies⟩
    · cases hstep
  | embed reply =>
    have hheard := h.hear reply
    simp only [step] at hstep
    split at hstep
    · rename_i fold candidate survivor merged hembedding
      have hrelies := hheard.retained
      rw [hembedding] at hstage hrelies
      split at hstep
      · cases hstep
        exact ⟨hstage, hrelies⟩
      · cases hstep
        exact ⟨hstage.1.1.keep, hrelies⟩
    · rename_i cluster prompt summary hsummarized
      rw [hsummarized] at hstage
      split at hstep
      · cases hstep
        exact ⟨hstage, nofun⟩
      · cases hstep
        exact ⟨trivial, nofun⟩
    · cases hstep
  | rewrite =>
    simp only [step] at hstep
    split at hstep
    · rename_i fold candidate survivor merged vector hrewriting
      have hrelies := h.retained
      rw [hrewriting] at hstage hrelies
      obtain ⟨hfold, htext, hmerged⟩ := hstage
      split at hstep
      · rename_i stored svc hwrite
        cases hstep
        refine ⟨hfold, fun row hrow => ?_⟩
        rcases List.mem_cons.mp hrow with rfl | hrow
        · exact retains_written hwrite htext
        · rw [hmerged] at hwrite
          exact retains_rewriteWithBinding hwrite (hrelies row hrow)
      · cases hstep
        exact ⟨hfold.1.keep, hrelies⟩
    · cases hstep
  | inherit =>
    simp only [step] at hstep
    split at hstep
    · rename_i fold candidate survivor merged newEmbedding hinheriting
      have hrelies := h.retained
      rw [hinheriting] at hstage hrelies
      split at hstep
      · rename_i store hupdate
        cases hstep
        refine ⟨hstage.1.commit hstage.2, fun row hrow => ?_⟩
        change Retains store.records row
        rw [Store.updateFsrs_records hupdate]
        have hrow : row ∈ (fold.foldedSources ++
            [(⟨candidate.id, candidate.content, survivor.id⟩ : Folded)]).map
              fun source => (source.into, source.content) := hrow
        rw [List.map_append] at hrow
        rcases List.mem_append.mp hrow with hrow | hrow
        · exact hrelies row (List.mem_cons_of_mem _ hrow)
        · exact hrelies row (List.mem_cons.mpr (.inl (List.mem_singleton.mp hrow)))
      · cases hstep
        exact ⟨hstage.1.keep, fun row hrow => hrelies row (List.mem_cons_of_mem _ hrow)⟩
    · cases hstep
  | consolidate level ids =>
    simp only [step] at hstep
    split at hstep
    · split_ifs at hstep
      cases hstep
      exact ⟨rfl, nofun⟩
    · cases hstep
  | summarize result =>
    simp only [step] at hstep
    split at hstep
    · rename_i cluster prompt hsummarizing
      rw [hsummarizing] at hstage
      split at hstep
      · cases hstep
        exact ⟨hstage, nofun⟩
      · cases hstep
        exact ⟨trivial, nofun⟩
    · cases hstep
  | add id now =>
    simp only [step] at hstep
    split at hstep
    · rename_i cluster prompt summary vector hadding
      rw [hadding] at hstage
      split_ifs at hstep with hused
      split at hstep
      · rename_i store hadd
        cases hstep
        refine ⟨⟨hstage, (not_or.mp hused).2⟩, fun row hrow => ?_⟩
        rw [List.mem_singleton.mp hrow]
        change Retains store.records (id, summary)
        rw [Store.add_records hadd]
        exact ⟨_, List.mem_append_right _ (List.mem_singleton_self _), rfl, Text.trim_infix _⟩
      · cases hstep
        exact ⟨trivial, nofun⟩
    · cases hstep
  | remove =>
    simp only [step] at hstep
    split at hstep
    · split at hstep
      · cases hstep
        exact ⟨trivial, nofun⟩
      · cases hstep
    · cases hstep
      exact ⟨trivial, nofun⟩
    · cases hstep
  | create entry =>
    cases hstep
    refine h.setStore fun store hadd row _ hretains => ?_
    rw [Store.add_records hadd]
    exact hretains.append
  | ingestFold id existing incoming vector =>
    simp only [step] at hstep
    split at hstep
    · rename_i written svc hwrite
      cases hstep
      exact h.setSvc fun row _ hretains => retains_rewriteWithBinding hwrite hretains
    · cases hstep
      exact h
  | updateFsrs id f =>
    cases hstep
    refine h.setStore fun store hupdate row _ hretains => ?_
    rw [Store.updateFsrs_records hupdate]
    exact hretains
  | hear reply =>
    cases hstep
    exact h.hear reply
  | updateContent id content =>
    cases hstep
    refine h.setStore fun store hupdate row hrow hretains => ?_
    unfold Store.updateContent at hupdate
    split at hupdate
    · cases hupdate
    · cases hupdate
      rw [Store.retext_records]
      exact hretains.retext fun _ _ hid _ => hok row hrow hid

/-- The service before any pass. -/
def start (svc : Service F) : Dream F := ⟨svc, [], .idle⟩

def Run (ok : Dream F → DreamAct F → Prop) : Dream F → Dream F → Prop :=
  Moves (fun m act => m.step act) ok

end Dream

/-- A row that a removal takes out still has its snapshot text; and that text is in a live row, or in
the prompt whose reply is live. -/
def Accounted (stage : Stage F) (store : Store F) (entry : MemoryEntry F) : Prop :=
  match stage with
  | .folding fold =>
    (∃ memory ∈ fold.memories, memory.id = entry.id ∧ memory.content = entry.content) ∧
      ∃ live ∈ store.entries, entry.content.trim <:+: live.content
  | .superseding cluster prompt summary id =>
    (∃ memory ∈ cluster.memories, memory.id = entry.id ∧ memory.content = entry.content) ∧
      entry.content <:+: prompt ∧
      ∃ live ∈ store.entries, live.id = id ∧ summary.trim <:+: live.content
  | _ => False

omit [Scalar F] in
/-- A row that is not among the pairs outlives their removal, with what it retains. -/
theorem live_of_retains {s : Store F} {pairs : List (String × Text)} {row : String × Text}
    (h : Retains s.records row) (hrow : row.1 ∉ pairs.map (·.1)) :
    ∃ live ∈ (s.removeManyMatching pairs).1.entries, live.id = row.1 ∧
      row.2.trim <:+: live.content := by
  obtain ⟨r, hr, hid, htext⟩ := h
  obtain ⟨live, hlive, rfl⟩ := List.mem_map.mp hr
  have hid : live.id = row.1 := hid
  rw [← hid] at hrow
  exact ⟨live, Store.mem_removeManyMatching hlive hrow, hid, htext⟩

/-- A removal by a sound pass. -/
theorem remove_accounted {m m' : Dream F} (h : m.Sound) (hstep : m.step .remove = some m')
    (entry : MemoryEntry F) (hentry : entry ∈ m.svc.store.entries)
    (hgone : entry ∉ m'.svc.store.entries) : Accounted m.stage m'.svc.store entry := by
  obtain ⟨hstage, hretained⟩ := h
  simp only [Dream.step] at hstep
  split at hstep
  · rename_i fold hfolding
    rw [hfolding] at hstage hretained ⊢
    split at hstep
    · cases hstep
      have hpair := Store.mem_pairs_of_removed hentry hgone
      obtain ⟨source, hsource, heq⟩ := List.mem_map.mp hpair
      obtain ⟨hid, hcontent⟩ := Prod.mk.inj heq
      obtain ⟨⟨memory, hmemory, hmid, hmcontent⟩, hinto⟩ := hstage.sources source hsource
      refine ⟨⟨memory, hmemory, hmid.trans hid, hmcontent.trans hcontent⟩, ?_⟩
      have hretains := hretained (source.into, source.content) (List.mem_map_of_mem hsource)
      have hkept : source.into ∉
          (fold.foldedSources.map fun source => (source.id, source.content)).map (·.1) := by
        rw [List.map_map]
        refine List.disjoint_of_nodup_append hstage.ids ?_
        rw [List.map_append]
        exact List.mem_append_right _ hinto
      obtain ⟨live, hlive, -, htext⟩ := live_of_retains hretains hkept
      exact ⟨live, hlive, hcontent ▸ htext⟩
    · cases hstep
  · rename_i cluster prompt summary id hsuperseding
    rw [hsuperseding] at hstage hretained ⊢
    cases hstep
    have hpair := Store.mem_pairs_of_removed hentry hgone
    obtain ⟨memory, hmemory, heq⟩ := List.mem_map.mp hpair
    obtain ⟨hid, hcontent⟩ := Prod.mk.inj heq
    refine ⟨⟨memory, hmemory, hid, hcontent⟩, ?_, ?_⟩
    · rw [hstage.1, ← hcontent]
      exact content_infix_prompt hmemory
    · refine live_of_retains (hretained _ (List.mem_singleton_self _)) fun hmem => hstage.2 ?_
      rw [List.map_map] at hmem
      exact hmem
  · cases hstep

/-- **Main result.** In every run whose explicit updates keep what their row has taken in for the
next removal, every row that a removal of the pass takes out is accounted for. -/
theorem dream_loses_no_write (svc : Service F) (m m' : Dream F)
    (hrun : Dream.Run Dream.KeepsAbsorbed (.start svc) m) (hstep : m.step .remove = some m') :
    ∀ entry ∈ m.svc.store.entries, entry ∉ m'.svc.store.entries →
      Accounted m.stage m'.svc.store entry := by
  have hstart : (Dream.start svc).Sound := ⟨trivial, nofun⟩
  exact remove_accounted (hrun.invariant (fun hok hstep h => Dream.step_sound hok hstep h) hstart)
    hstep

/-! ## Two runs -/

/-- Two rows in one scope, the second a part of the first. -/
def restatedService : Service ℚ :=
  sampleService [sampleEntry "a" "dark mode on".toList [1, 0] "m" none,
    sampleEntry "b" "dark mode".toList [1, 0] "m" none]

def Store.texts (s : Store ℚ) : List (String × Text) := s.entries.map fun e => (e.id, e.content)

def Stage.foldedIds : Stage ℚ → Option (List String)
  | .folding fold => some (fold.foldedSources.map (·.id))
  | _ => none

/-- The pass up to the commit of the fold. -/
def foldActs : List (DreamAct ℚ) :=
  [.begin, .fold ["a", "b"] 2, .examine, .examine, .verify, .inherit]

/-- The texts before and after the removal that ends a run, and what it is to take out. -/
def Dream.removal (m : Dream ℚ) :
    Option (List (String × Text) × Option (List String) × List (String × Text)) :=
  (m.step .remove).map fun m' => (m.svc.store.texts, m.stage.foldedIds, m'.svc.store.texts)

/-- An ingest folds into the survivor before the batch goes. -/
theorem dream_loses_no_write_ingest : ∃ m m' : Dream ℚ, m.step .remove = some m' ∧
    m'.svc.store.texts = [("a", "dark mode on; thin font".toList)] ∧
      ∀ entry ∈ m.svc.store.entries, entry ∉ m'.svc.store.entries →
        Accounted m.stage m'.svc.store entry := by
  let acts : List (DreamAct ℚ) :=
    foldActs ++ [.ingestFold "a" "dark mode on".toList "thin font".toList [1, 0]]
  have hremoval : ((runActs (fun m act => m.step act) Dream.KeepsAbsorbed
      (.start restatedService) acts).bind Dream.removal).map (·.2.2) =
      some [("a", "dark mode on; thin font".toList)] := by
    decide +kernel
  obtain ⟨_, hremoval, htexts⟩ := Option.map_eq_some_iff.mp hremoval
  obtain ⟨m, hrun, hremoval⟩ := Option.bind_eq_some_iff.mp hremoval
  obtain ⟨m', hstep, rfl⟩ := Option.map_eq_some_iff.mp hremoval
  exact ⟨m, m', hstep, htexts, dream_loses_no_write restatedService m m' (.of_acts hrun) hstep⟩

/-- The survivor is overwritten before the batch goes. -/
theorem folded_text_overwritten : ∃ m m' : Dream ℚ,
    Dream.Run (fun _ _ => True) (.start restatedService) m ∧ m.step .remove = some m' ∧
      ∃ entry ∈ m.svc.store.entries, entry ∉ m'.svc.store.entries ∧
        ¬Accounted m.stage m'.svc.store entry := by
  let acts : List (DreamAct ℚ) := foldActs ++ [.updateContent "a" "x".toList]
  have hremoval : (runActs (fun m act => m.step act) (fun _ _ => True)
      (.start restatedService) acts).bind Dream.removal =
      some ([("a", "x".toList), ("b", "dark mode".toList)], some ["b"], [("a", "x".toList)]) := by
    decide +kernel
  obtain ⟨m, hrun, hremoval⟩ := Option.bind_eq_some_iff.mp hremoval
  obtain ⟨m', hstep, hpair⟩ := Option.map_eq_some_iff.mp hremoval
  obtain ⟨hbefore, hpair⟩ := Prod.mk.inj hpair
  obtain ⟨hfolded, hafter⟩ := Prod.mk.inj hpair
  have hmem : ("b", "dark mode".toList) ∈ m.svc.store.texts := by
    rw [hbefore]
    exact List.mem_cons_of_mem _ (List.mem_singleton_self _)
  obtain ⟨entry, hentry, heq⟩ := List.mem_map.mp hmem
  obtain ⟨hid, hcontent⟩ := Prod.mk.inj heq
  have hlive : ∀ live ∈ m'.svc.store.entries, live.id = "a" ∧ live.content = "x".toList := by
    intro live hlive
    have hpair : (live.id, live.content) ∈ m'.svc.store.texts := List.mem_map_of_mem hlive
    rw [hafter] at hpair
    exact Prod.mk.inj (List.mem_singleton.mp hpair)
  refine ⟨m, m', .of_acts hrun, hstep, entry, hentry, fun hkept => ?_, fun haccounted => ?_⟩
  · exact absurd (hid.symm.trans (hlive entry hkept).1) (by decide)
  · unfold Accounted at haccounted
    split at haccounted
    · obtain ⟨-, live, hmem, htext⟩ := haccounted
      rw [(hlive live hmem).2, hcontent] at htext
      exact absurd htext (by decide)
    · rename_i hstage
      rw [hstage] at hfolded
      cases hfolded
    · exact haccounted

end Nanna.Memory
