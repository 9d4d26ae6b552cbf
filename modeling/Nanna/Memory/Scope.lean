import Nanna.Memory.IngestEffect

/-!
# Ingestion and workspace scope

`ingest_respects_scope`: a successful ingest for a scope leaves the records of the other scopes as
they were, exactly when the record it folds into, if it folds, is of its own scope. A created record
is always of the call's scope, so only a fold can reach another one: the neighbour comes from a
search that also shows the global rows to a workspace and every row to a global call
(`workspace_text_folded_into_global`).
-/

namespace Nanna.Memory

open Nanna.Lib

variable {F : Type}

/-- The records of the other scopes. -/
def outside (scope : Option String) (records : List Record) : List Record :=
  records.filter fun r => r.workspaceId ≠ scope

/-- What an ingest for `scope` may do: every record it writes is of that scope, and the records of
the other scopes keep their text and metadata. -/
structure RespectsScope (scope : Option String) (before after : List Record) : Prop where
  landed : ∀ r ∈ after, r.workspaceId ≠ scope → r ∈ before
  others : outside scope after = outside scope before

theorem respectsScope_iff {scope : Option String} {before after : List Record} :
    RespectsScope scope before after ↔ outside scope after = outside scope before := by
  refine ⟨fun h => h.others, fun h => ⟨fun r hr hscope => ?_, h⟩⟩
  have hmem : r ∈ outside scope after := List.mem_filter.mpr ⟨hr, decide_eq_true hscope⟩
  rw [h] at hmem
  exact (List.mem_filter.mp hmem).1

theorem outside_append {scope : Option String} {records : List Record} {r : Record}
    (h : r.workspaceId = scope) : outside scope (records ++ [r]) = outside scope records := by
  rw [outside, outside, List.filter_append]
  simp [h]

variable [Scalar F]

/-- **Main result.** A successful ingest respects its scope, exactly when the record it folds into,
if there is one, is of that scope. -/
theorem ingest_respects_scope (call : IngestCall F) (embed : Option (EmbedFn F)) (env : IngestEnv)
    (svc svc' : Service F) (r : String × IngestAction) (h : call.run embed env svc = .ok (svc', r)) :
    RespectsScope call.scope svc.store.records svc'.store.records ↔
      ∀ target, call.FoldsInto embed svc target → target.workspaceId = call.scope := by
  have heffect := IngestCall.run_effect h
  rw [respectsScope_iff]
  generalize svc'.store.records = records at heffect
  cases heffect with
  | dropped hreinforces =>
    exact ⟨fun _ target hf => absurd hf (not_foldsInto_of_reinforces hreinforces target), fun _ => rfl⟩
  | held _ _ hfolds => exact ⟨fun _ target hf => absurd hf (hfolds target), fun _ => rfl⟩
  | created id _ hfolds =>
    exact ⟨fun _ target hf => absurd hf (hfolds target), fun _ => outside_append rfl⟩
  | @merged target hfolds _ =>
    have honly : (∀ target, call.FoldsInto embed svc target → target.workspaceId = call.scope) ↔
        target.workspaceId = call.scope :=
      ⟨fun hall => hall target hfolds, fun hscope _ hf => foldsInto_unique hfolds hf ▸ hscope⟩
    rw [honly]
    obtain ⟨existing, action, -, -, hchanged, hfind, hcontent⟩ := hfolds
    have hid := List.find?_some hfind
    rw [decide_eq_true_eq] at hid
    rw [← hid] at hfind
    rw [← hcontent] at hchanged
    constructor
    · intro hsame
      by_contra hscope
      refine filter_modifyFirst_ne hfind (decide_eq_true hscope) (decide_eq_true hscope) ?_ hsame
      exact fun heq => hchanged (congrArg Record.content heq)
    · intro hscope
      have hinside : decide (target.workspaceId ≠ call.scope) = false :=
        decide_eq_false (not_not.mpr hscope)
      exact filter_modifyFirst hfind hinside hinside

/-- A workspace's text is folded into a row of the same workspace. -/
theorem ingest_respects_scope_own :
    let call : IngestCall ℚ := .rememberScoped "ship Tue".toList (fun _ => none) 3.0 (some "a")
    let svc := sampleService [sampleEntry "e1" "ship Mon".toList [1, 0] "m" (some "a"),
      sampleEntry "e2" "no ships".toList [0, 1] "m" none]
    ∃ svc' r, call.run (some (sampleEmbed fun _ => [1, 0])) sampleIngestEnv svc = .ok (svc', r) ∧
      RespectsScope (some "a") svc.store.records svc'.store.records := by
  intro call svc
  have htexts : (fun p => p.1.store.entries.map (·.content)) <$>
      call.run (some (sampleEmbed fun _ => [1, 0])) sampleIngestEnv svc =
      .ok ["ship Mon; ship Tue".toList, "no ships".toList] := by
    decide +kernel
  obtain ⟨⟨svc', r⟩, hrun, -⟩ := map_eq_ok.mp htexts
  refine ⟨svc', r, hrun, (ingest_respects_scope _ _ _ _ _ _ hrun).mpr ?_⟩
  rintro target ⟨existing, action, hneighbour, -, -, hfind, -⟩
  have hnearest : (call.neighbour (some (sampleEmbed fun _ => [1, 0])) svc).map (·.1.id) =
      some "e1" := by
    decide +kernel
  rw [hneighbour] at hnearest
  have hid : existing.id = "e1" := Option.some.inj hnearest
  have hscope : (svc.store.records.find? (·.id = "e1")).map (·.workspaceId) = some (some "a") := by
    decide
  rw [← hid, hfind] at hscope
  exact Option.some.inj hscope

/-- A workspace's text is folded into the global row that was nearest. -/
theorem workspace_text_folded_into_global :
    let call : IngestCall ℚ := .rememberScoped "ship Tue".toList (fun _ => none) 3.0 (some "a")
    let svc := sampleService [sampleEntry "e1" "ship Mon".toList [4 / 5, 3 / 5] "m" none]
    ∃ svc' r, call.run (some (sampleEmbed fun _ => [1, 0])) sampleIngestEnv svc = .ok (svc', r) ∧
      ¬RespectsScope (some "a") svc.store.records svc'.store.records := by
  intro call svc
  have hrecords : (fun p => p.1.store.records.map fun r => (r.content, r.workspaceId)) <$>
      call.run (some (sampleEmbed fun _ => [1, 0])) sampleIngestEnv svc =
      .ok [("ship Mon; ship Tue".toList, none)] := by
    decide +kernel
  obtain ⟨⟨svc', r⟩, hrun, hrecords⟩ := map_eq_ok.mp hrecords
  refine ⟨svc', r, hrun, fun hrespects => ?_⟩
  have hmem : ("ship Mon; ship Tue".toList, none) ∈
      svc'.store.records.map fun r => (r.content, r.workspaceId) := by
    rw [hrecords]
    exact List.mem_singleton_self _
  obtain ⟨written, hwritten, heq⟩ := List.mem_map.mp hmem
  obtain ⟨htext, hglobal⟩ := Prod.mk.inj heq
  have hbefore := hrespects.landed written hwritten (hglobal ▸ nofun)
  have hold : written.content = "ship Mon".toList :=
    congrArg Record.content (List.mem_singleton.mp hbefore)
  exact absurd (htext.symm.trans hold) (by decide)

end Nanna.Memory
