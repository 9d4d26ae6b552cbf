import Nanna.Memory.IngestEffect

/-!
# No ingested text is lost, but in the reinforce band

`ingest_keeps_text`: after a successful ingest some live entry holds the trimmed text, exactly when
the call did not just reinforce its neighbour, or some entry held the text before. Every other band
keeps the text: a merge holds both texts, a merge that changes nothing was of a text already there,
and a fold that lost its row to another writer creates one. `remember_scoped` never reinforces
without that check, so it loses nothing (`Reinforces` is false for it); `smart_ingest` and
`remember_with_importance` do (`reinforced_text_lost`).
-/

namespace Nanna.Memory

open Nanna.Lib

variable {F : Type}

/-- Some live entry holds the text. -/
def Store.Holds (s : Store F) (text : Text) : Prop := ∃ entry ∈ s.entries, text.trim <:+: entry.content

theorem Store.holds_iff {s : Store F} {text : Text} :
    s.Holds text ↔ ∃ r ∈ s.records, text.trim <:+: r.content := by
  constructor
  · rintro ⟨entry, hentry, htext⟩
    exact ⟨entry.record, List.mem_map_of_mem hentry, htext⟩
  · rintro ⟨r, hr, htext⟩
    obtain ⟨entry, hentry, rfl⟩ := List.mem_map.mp hr
    exact ⟨entry, hentry, htext⟩

variable [Scalar F]

/-- **Main result.** A successful ingest leaves its text in a live entry, exactly when it did not
just reinforce its neighbour or an entry held the text already. -/
theorem ingest_keeps_text (call : IngestCall F) (embed : Option (EmbedFn F)) (env : IngestEnv)
    (svc svc' : Service F) (r : String × IngestAction) (h : call.run embed env svc = .ok (svc', r)) :
    svc'.store.Holds call.content ↔
      ¬call.Reinforces embed svc ∨ svc.store.Holds call.content := by
  have heffect := IngestCall.run_effect h
  rw [Store.holds_iff, Store.holds_iff]
  generalize svc'.store.records = records at heffect
  cases heffect with
  | dropped hreinforces => exact ⟨.inr, fun hor => hor.resolve_left (not_not.mpr hreinforces)⟩
  | held hmem htext => exact ⟨.inr, fun _ => ⟨_, hmem, htext⟩⟩
  | merged hfolds hreinforces =>
    refine ⟨fun _ => .inl hreinforces, fun _ => ?_⟩
    obtain ⟨existing, action, -, -, -, hfind, -⟩ := hfolds
    have hid := List.find?_some hfind
    rw [decide_eq_true_eq] at hid
    rw [← hid] at hfind
    exact ⟨_, mem_modifyFirst _ hfind, incoming_infix_merge⟩
  | created id hreinforces =>
    exact ⟨fun _ => .inl hreinforces, fun _ => ⟨_, List.mem_append_right _ (List.mem_singleton_self _),
      Text.trim_infix _⟩⟩

/-- A scoped text in the reinforce band of a neighbour that does not hold it is folded into it. -/
theorem ingest_keeps_text_folded :
    let call : IngestCall ℚ := .rememberScoped "ship Tue".toList (fun _ => none) 3.0 none
    let svc := sampleService [sampleEntry "e1" "ship Mon".toList [1, 0] "m" none]
    ∃ svc' r, call.run (some (sampleEmbed fun _ => [1, 0])) sampleIngestEnv svc = .ok (svc', r) ∧
      svc'.store.Holds call.content := by
  intro call svc
  have htexts : (fun p => p.1.store.entries.map (·.content)) <$>
      call.run (some (sampleEmbed fun _ => [1, 0])) sampleIngestEnv svc =
      .ok ["ship Mon; ship Tue".toList] := by
    decide +kernel
  obtain ⟨⟨svc', r⟩, hrun, -⟩ := map_eq_ok.mp htexts
  refine ⟨svc', r, hrun, (ingest_keeps_text _ _ _ _ _ _ hrun).mpr (.inl ?_)⟩
  rintro ⟨existing, action, -, hreinforces⟩
  cases hreinforces

/-- A text whose vector is its neighbour's is only counted as a repetition. -/
theorem reinforced_text_lost :
    let call : IngestCall ℚ := .smartIngest "ship Tue".toList fun _ => none
    let svc := sampleService [sampleEntry "e1" "ship Mon".toList [1, 0] "m" none]
    ∃ svc' r, call.run (some (sampleEmbed fun _ => [1, 0])) sampleIngestEnv svc = .ok (svc', r) ∧
      ¬svc'.store.Holds call.content := by
  intro call svc
  have htexts : (fun p => p.1.store.entries.map (·.content)) <$>
      call.run (some (sampleEmbed fun _ => [1, 0])) sampleIngestEnv svc =
      .ok ["ship Mon".toList] := by
    decide +kernel
  obtain ⟨⟨svc', r⟩, hrun, htexts⟩ := map_eq_ok.mp htexts
  refine ⟨svc', r, hrun, ?_⟩
  rintro ⟨entry, hentry, htext⟩
  have hmem : entry.content ∈ svc'.store.entries.map (·.content) := List.mem_map_of_mem hentry
  rw [htexts, List.mem_singleton] at hmem
  rw [hmem] at htext
  exact absurd htext (by decide)

end Nanna.Memory
