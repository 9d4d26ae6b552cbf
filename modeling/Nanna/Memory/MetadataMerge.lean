import Nanna.Lib.Dict
import Nanna.Memory.Cluster

/-!
# The metadata of a consolidated entry

`consolidated_metadata_meet`: for every cluster, the merged metadata holds a key exactly if it is no
source locator and all members that carry it carry one value, which it then has; and the result
depends neither on the order of the members nor on the order in which their hash maps are iterated.
`metadata_merge_refines` ties the loop to `consolidatedMetadata`, which the consolidation uses.

The loop keeps a key while its values agree, and remembers as contested a key that it dropped. The
invariant (`Tracks`) says of every prefix of the pairs walked which keys are kept and which are
contested, so an early conflict is not forgotten when the first value comes again.
-/

namespace Nanna.Memory

open Nanna.Lib

/-! ## The loop -/

/-- The merged map, and the keys that were dropped from it. -/
structure MetadataMerge where
  merged : Dict String String
  contested : List String

namespace MetadataMerge

def empty : MetadataMerge := ⟨Table.empty, []⟩

/-- One pair of a member. -/
def add (st : MetadataMerge) (pair : String × String) : MetadataMerge :=
  if sourceLocatorMetadataKeys.contains pair.1 then st
  else
    match st.merged.find pair.1 with
    | none =>
      if st.contested.any (· = pair.1) then st
      else { st with merged := st.merged.set pair.1 pair.2 }
    | some existing =>
      if existing ≠ pair.2 then
        { merged := st.merged.erase pair.1, contested := st.contested ++ [pair.1] }
      else st

/-- One member, in the iteration order of its map. -/
def addMember (st : MetadataMerge) (metadata : Dict String String) : MetadataMerge :=
  metadata.rows.foldl add st

end MetadataMerge

/-- `consolidated_metadata`, where the hash maps are listed in their iteration orders. -/
def mergedMetadata (members : List (Dict String String)) : Dict String String :=
  (members.foldl MetadataMerge.addMember .empty).merged

/-! ## What a prefix of the pairs decides -/

variable {seen : List (String × String)} {key value : String} {pair : String × String}
  {st : MetadataMerge} {members : List (Dict String String)}

/-- The key has a value, and no other. -/
def Unanimous (seen : List (String × String)) (key value : String) : Prop :=
  (key, value) ∈ seen ∧ ∀ v, (key, v) ∈ seen → v = value

/-- The key has two values. -/
def Contested (seen : List (String × String)) (key : String) : Prop :=
  ∃ v w, (key, v) ∈ seen ∧ (key, w) ∈ seen ∧ v ≠ w

theorem mem_concat_of_ne {v : String} (hkey : key ≠ pair.1) :
    (key, v) ∈ seen ++ [pair] ↔ (key, v) ∈ seen := by
  rw [List.mem_append, List.mem_singleton, or_iff_left]
  rintro rfl
  exact hkey rfl

theorem unanimous_of_ne (hkey : key ≠ pair.1) :
    Unanimous (seen ++ [pair]) key value ↔ Unanimous seen key value := by
  simp only [Unanimous, mem_concat_of_ne hkey]

theorem contested_of_ne (hkey : key ≠ pair.1) :
    Contested (seen ++ [pair]) key ↔ Contested seen key := by
  simp only [Contested, mem_concat_of_ne hkey]

theorem unanimous_unique {v w : String} (hv : Unanimous seen key v) (hw : Unanimous seen key w) :
    v = w := hw.2 v hv.1

/-- A conflict stays one. -/
theorem Contested.concat (h : Contested seen key) (pair : String × String) :
    Contested (seen ++ [pair]) key := by
  obtain ⟨v, w, hv, hw, hne⟩ := h
  exact ⟨v, w, List.mem_append_left _ hv, List.mem_append_left _ hw, hne⟩

theorem Contested.not_unanimous (h : Contested seen key) : ¬ Unanimous seen key value := by
  rintro ⟨-, hall⟩
  obtain ⟨v, w, hv, hw, hne⟩ := h
  exact hne ((hall v hv).trans (hall w hw).symm)

/-- A key with a value is unanimous or contested. -/
theorem unanimous_or_contested (h : (key, value) ∈ seen) :
    Unanimous seen key value ∨ Contested seen key := by
  by_cases hall : ∀ v, (key, v) ∈ seen → v = value
  · exact .inl ⟨h, hall⟩
  · right
    push Not at hall
    obtain ⟨v, hv, hne⟩ := hall
    exact ⟨v, value, hv, h, hne⟩

namespace MetadataMerge

/-- The keys that a prefix of the pairs keeps, and those that it drops. -/
structure Tracks (seen : List (String × String)) (st : MetadataMerge) : Prop where
  kept : ∀ key value, st.merged.find key = some value ↔
    key ∉ sourceLocatorMetadataKeys ∧ Unanimous seen key value
  contested : ∀ key, key ∈ st.contested ↔ key ∉ sourceLocatorMetadataKeys ∧ Contested seen key

theorem tracks_empty : Tracks [] empty := by
  refine ⟨fun key value => ?_, fun key => ?_⟩
  · simp [empty, Unanimous]
  · simp [empty, Contested]

/-- A step that leaves the state alone, where the pair decides nothing new. -/
theorem Tracks.concat_same (h : Tracks seen st)
    (hkept : ∀ v, key ∉ sourceLocatorMetadataKeys →
      (Unanimous (seen ++ [(key, value)]) key v ↔ Unanimous seen key v))
    (hcontested : key ∉ sourceLocatorMetadataKeys →
      (Contested (seen ++ [(key, value)]) key ↔ Contested seen key)) :
    Tracks (seen ++ [(key, value)]) st := by
  refine ⟨fun k v => ?_, fun k => ?_⟩
  · rw [h.kept]
    refine and_congr_right fun hlocator => ?_
    by_cases hkey : k = key
    · subst hkey
      exact (hkept v hlocator).symm
    · exact (unanimous_of_ne hkey).symm
  · rw [h.contested]
    refine and_congr_right fun hlocator => ?_
    by_cases hkey : k = key
    · subst hkey
      exact (hcontested hlocator).symm
    · exact (contested_of_ne hkey).symm

/-- One pair. -/
theorem Tracks.add (h : Tracks seen st) (pair : String × String) :
    Tracks (seen ++ [pair]) (st.add pair) := by
  obtain ⟨key, value⟩ := pair
  unfold MetadataMerge.add
  split
  · rename_i hlocator
    have hmem : key ∈ sourceLocatorMetadataKeys := List.contains_iff_mem.mp hlocator
    exact h.concat_same (fun _ hnot => absurd hmem hnot) (fun hnot => absurd hmem hnot)
  · rename_i hlocator
    have hkey : key ∉ sourceLocatorMetadataKeys := fun hmem => hlocator (List.contains_iff_mem.mpr hmem)
    have hlast : (key, value) ∈ seen ++ [(key, value)] := List.mem_append_right _ (List.mem_singleton_self _)
    split
    · rename_i hnone
      have hnone : st.merged.find key = none := hnone
      split
      · -- contested before, and still so
        rename_i hany
        have hmem : key ∈ st.contested := by simpa using hany
        have hcontested := ((h.contested key).mp hmem).2
        refine h.concat_same (fun v _ => ?_) (fun _ => ?_)
        · exact iff_of_false (hcontested.concat _).not_unanimous hcontested.not_unanimous
        · exact iff_of_true (hcontested.concat _) hcontested
      · -- the first value
        rename_i hany
        have hnew : ∀ v, (key, v) ∉ seen := by
          intro v hv
          rcases unanimous_or_contested hv with hall | hcontested
          · have hsome := (h.kept key v).mpr ⟨hkey, hall⟩
            rw [hnone] at hsome
            cases hsome
          · have hmem := (h.contested key).mpr ⟨hkey, hcontested⟩
            exact hany (by simpa using hmem)
        refine ⟨fun k v => ?_, fun k => ?_⟩
        · rw [Dict.find_set]
          split
          · rename_i hsame
            have hsame : key = k := hsame
            subst hsame
            refine ⟨fun hv => ⟨hkey, ?_⟩, fun hv => ?_⟩
            · obtain rfl := Option.some.inj hv
              refine ⟨hlast, fun w hw => ?_⟩
              rcases List.mem_append.mp hw with hw | hw
              · exact absurd hw (hnew w)
              · exact congrArg Prod.snd (List.mem_singleton.mp hw)
            · rw [hv.2.2 value hlast]
          · rename_i hne
            rw [h.kept, unanimous_of_ne (Ne.symm hne)]
        · rw [h.contested]
          refine and_congr_right fun _ => ?_
          by_cases hsame : k = key
          · subst hsame
            refine iff_of_false ?_ ?_
            · rintro ⟨v, -, hv, -⟩
              exact hnew v hv
            · rintro ⟨v, w, hv, hw, hne⟩
              have hval : ∀ u, (k, u) ∈ seen ++ [(k, value)] → u = value := by
                intro u hu
                rcases List.mem_append.mp hu with hu | hu
                · exact absurd hu (hnew u)
                · exact congrArg Prod.snd (List.mem_singleton.mp hu)
              exact hne ((hval v hv).trans (hval w hw).symm)
          · exact (contested_of_ne hsame).symm
    · rename_i existing hsome
      have hsome : st.merged.find key = some existing := hsome
      have hall := ((h.kept key existing).mp hsome).2
      split
      · -- a second value
        rename_i hne
        have hcontested : Contested (seen ++ [(key, value)]) key :=
          ⟨existing, value, List.mem_append_left _ hall.1, hlast, hne⟩
        refine ⟨fun k v => ?_, fun k => ?_⟩
        · rw [Dict.find_erase]
          split
          · rename_i hsame
            have hsame : key = k := hsame
            subst hsame
            exact iff_of_false (by simp) fun hv => hcontested.not_unanimous hv.2
          · rename_i hne'
            rw [h.kept, unanimous_of_ne (Ne.symm hne')]
        · rw [List.mem_append, List.mem_singleton, h.contested]
          by_cases hsame : k = key
          · subst hsame
            exact iff_of_true (.inr rfl) ⟨hkey, hcontested⟩
          · rw [or_iff_left hsame, contested_of_ne hsame]
      · -- the same value again
        rename_i hsame
        have hsame : existing = value := by simpa using hsame
        subst hsame
        have hmem : ∀ w, (key, w) ∈ seen ++ [(key, existing)] ↔ (key, w) ∈ seen := by
          intro w
          rw [List.mem_append, List.mem_singleton, or_iff_left_of_imp]
          intro hw
          rw [hw]
          exact hall.1
        refine h.concat_same (fun v _ => ?_) (fun _ => ?_)
        · simp only [Unanimous, hmem]
        · simp only [Contested, hmem]

theorem Tracks.addAll (h : Tracks seen st) (pairs : List (String × String)) :
    Tracks (seen ++ pairs) (pairs.foldl MetadataMerge.add st) := by
  induction pairs generalizing seen st with
  | nil => rwa [List.append_nil]
  | cons pair pairs ih =>
    have hnext := ih (h.add pair)
    rwa [List.append_assoc] at hnext

end MetadataMerge

/-- The pairs that the loop walks. -/
def memberPairs (members : List (Dict String String)) : List (String × String) :=
  members.flatMap Table.rows

theorem mem_memberPairs : (key, value) ∈ memberPairs members ↔ ∃ m ∈ members, m.find key = some value := by
  simp only [memberPairs, List.mem_flatMap, Dict.mem_rows]

theorem tracks_members : (members.foldl MetadataMerge.addMember .empty).Tracks (memberPairs members) := by
  have hall := MetadataMerge.tracks_empty.addAll (memberPairs members)
  rw [List.nil_append, memberPairs, List.foldl_flatMap] at hall
  exact hall

/-- What is kept, and with which value. -/
theorem find_mergedMetadata : (mergedMetadata members).find key = some value ↔
    key ∉ sourceLocatorMetadataKeys ∧ (∃ m ∈ members, m.find key = some value) ∧
      ∀ m ∈ members, ∀ v, m.find key = some v → v = value := by
  rw [mergedMetadata, tracks_members.kept, Unanimous, mem_memberPairs]
  refine and_congr_right fun _ => and_congr_right fun _ => ?_
  refine ⟨fun h m hm v hv => h v (mem_memberPairs.mpr ⟨m, hm, hv⟩), fun h v hv => ?_⟩
  obtain ⟨m, hm, hv⟩ := mem_memberPairs.mp hv
  exact h m hm v hv

/-- A statement about the maps of the members, whatever their order. -/
theorem exists_member_iff {members' : List (Dict String String)}
    (hperm : (members.map Dict.find).Perm (members'.map Dict.find)) (p : (String → Option String) → Prop) :
    (∃ m ∈ members', p m.find) ↔ ∃ m ∈ members, p m.find := by
  have hmem : ∀ f, f ∈ members'.map Dict.find ↔ f ∈ members.map Dict.find :=
    fun f => hperm.mem_iff.symm
  constructor
  · rintro ⟨m, hm, hp⟩
    obtain ⟨m', hm', heq⟩ := List.mem_map.mp ((hmem _).mp (List.mem_map_of_mem hm))
    exact ⟨m', hm', heq ▸ hp⟩
  · rintro ⟨m, hm, hp⟩
    obtain ⟨m', hm', heq⟩ := List.mem_map.mp ((hmem _).mpr (List.mem_map_of_mem hm))
    exact ⟨m', hm', heq ▸ hp⟩

/-- **Main result.** The merge of a cluster's metadata is a meet, in whatever order the members and
their pairs come. -/
theorem consolidated_metadata_meet (members : List (Dict String String)) :
    (∀ key value, (mergedMetadata members).find key = some value ↔
      key ∉ sourceLocatorMetadataKeys ∧ (∃ m ∈ members, m.find key = some value) ∧
        ∀ m ∈ members, ∀ v, m.find key = some v → v = value) ∧
    ∀ members' : List (Dict String String),
      (members.map Dict.find).Perm (members'.map Dict.find) →
        (mergedMetadata members').find = (mergedMetadata members).find := by
  refine ⟨fun key value => find_mergedMetadata, fun members' hperm => ?_⟩
  funext key
  apply Option.ext
  intro value
  have hother := exists_member_iff hperm fun f => ∃ v, f key = some v ∧ v ≠ value
  rw [find_mergedMetadata, find_mergedMetadata]
  refine and_congr_right fun _ => and_congr (exists_member_iff hperm fun f => f key = some value) ?_
  constructor
  · intro h m hm v hv
    by_contra hne
    obtain ⟨m', hm', v', hv', hne'⟩ := hother.mpr ⟨m, hm, v, hv, hne⟩
    exact hne' (h m' hm' v' hv')
  · intro h m hm v hv
    by_contra hne
    obtain ⟨m', hm', v', hv', hne'⟩ := hother.mp ⟨m, hm, v, hv, hne⟩
    exact hne' (h m' hm' v' hv')

/-- The first and the last member agree on the tool, the one between them does not. -/
def disagreeing : List (Dict String String) :=
  [Dict.set (Dict.set Table.empty "tool" "exec") "chunk" "1/2", Dict.set Table.empty "tool" "read",
    Dict.set (Dict.set Table.empty "tool" "exec") "outcome" "ok"]

/-- A conflict stays one when the first value comes again, from either end. -/
theorem consolidated_metadata_conflict : (mergedMetadata disagreeing).rows = [("outcome", "ok")] ∧
    (mergedMetadata disagreeing.reverse).find = (mergedMetadata disagreeing).find := by
  refine ⟨by decide, (consolidated_metadata_meet disagreeing).2 disagreeing.reverse ?_⟩
  exact ((List.reverse_perm disagreeing).map Dict.find).symm

/-! ## The entry that replaces a cluster -/

variable {F : Type} {memories : List (MemoryEntry F)}

theorem consolidatedMetadata_iff : consolidatedMetadata memories key = some value ↔
    key ∉ sourceLocatorMetadataKeys ∧ (∃ m ∈ memories, m.metadata key = some value) ∧
      ∀ m ∈ memories, ∀ v, m.metadata key = some v → v = value := by
  constructor
  · intro h
    obtain ⟨hkey, hall⟩ := consolidatedMetadata_eq_some h
    refine ⟨hkey, ?_, hall⟩
    rw [consolidatedMetadata, if_neg hkey] at h
    split at h
    · cases h
    · rename_i first values hvalues
      obtain ⟨m, hm, hfirst⟩ := List.mem_filterMap.mp (hvalues ▸ List.mem_cons_self)
      have hsame : first = value := hall m hm first hfirst
      exact ⟨m, hm, hsame ▸ hfirst⟩
  · rintro ⟨hkey, ⟨m, hm, hvalue⟩, hall⟩
    have hvalues : ∀ v ∈ memories.filterMap (·.metadata key), v = value := by
      intro v hv
      obtain ⟨m', hm', hv'⟩ := List.mem_filterMap.mp hv
      exact hall m' hm' v hv'
    have hmem : value ∈ memories.filterMap (·.metadata key) := List.mem_filterMap.mpr ⟨m, hm, hvalue⟩
    rw [consolidatedMetadata, if_neg hkey]
    split
    · rename_i hnil
      rw [hnil] at hmem
      cases hmem
    · rename_i first values heq
      rw [heq] at hvalues
      obtain rfl : first = value := hvalues first List.mem_cons_self
      rw [if_pos]
      exact List.all_eq_true.mpr fun v hv => decide_eq_true (hvalues v (List.mem_cons_of_mem _ hv))

/-- The loop over the members of a cluster computes the metadata that its entry is given. -/
theorem metadata_merge_refines (h : members.map Dict.find = memories.map (·.metadata)) :
    (mergedMetadata members).find = consolidatedMetadata memories := by
  have hmem : ∀ p : (String → Option String) → Prop,
      (∀ m ∈ members, p m.find) ↔ ∀ m ∈ memories, p m.metadata := by
    intro p
    have hmap : (∀ f ∈ members.map Dict.find, p f) ↔ ∀ f ∈ memories.map (·.metadata), p f := by
      rw [h]
    simpa only [List.forall_mem_map] using hmap
  funext key
  apply Option.ext
  intro value
  rw [find_mergedMetadata, consolidatedMetadata_iff]
  refine and_congr_right fun _ => and_congr ?_ (hmem fun f => ∀ v, f key = some v → v = value)
  have hnone := not_congr (hmem fun f => f key ≠ some value)
  push Not at hnone
  exact hnone

end Nanna.Memory
