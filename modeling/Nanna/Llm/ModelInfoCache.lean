import Mathlib.Data.Set.Function
import Mathlib.Logic.Function.Basic
import Nanna.Lib.Text

/-!
# The cache of model information

`ModelInfoCache` keeps one file for each model, under a name made from the identifier: what a file name does not take
becomes `_`. Identifiers can share a name, and an entry is not compared with the identifier it is read for.

`cache_exact_iff`: over a set of identifiers, every lookup of every run answers for the model it is asked for exactly
where no two of them share a name, and so with the entries that a call leaves alone.
-/

namespace Nanna.Llm

open Nanna.Lib

structure ModelInfo where
  id : Text
  contextWindow : Nat
  maxOutputTokens : Nat
  supportsTools : Bool := false
  supportsVision : Bool := false
  embeddingDimension : Option Nat := none
  /-- In seconds, as the clock counts. -/
  cachedAt : Int64
  provider : Text := []
  deriving DecidableEq

def ModelInfo.CACHE_TTL_SECS : Int64 := 7 * 24 * 60 * 60

def ModelInfo.isExpired (info : ModelInfo) (now : Int64) : Bool := now - info.cachedAt > CACHE_TTL_SECS

structure CachedModelInfo where
  server : Text
  info : ModelInfo
  deriving DecidableEq

/-! ## The directory -/

inductive CacheFile where
  | entry (entry : CachedModelInfo)
  /-- A write that broke off. -/
  | torn
  deriving DecidableEq

/-- The files of the cache directory, by their names. -/
abbrev CacheDir := Text → Option CacheFile

/-- How the file system serves a call. -/
structure CacheIo where
  now : Int64
  readable : Bool := true
  removable : Bool := true

inductive CacheWrite where
  | whole
  | torn
  | refused
  deriving DecidableEq

namespace ModelInfoCache

def SCHEMA_GENERATION : Nat := 4

variable (isAlphanumeric : Char → Bool)

def safeName (model : Text) : Text :=
  model.map fun c => if isAlphanumeric c || c = '-' || c = '_' then c else '_'

/-- The file of a model. -/
def cachePath (model : Text) : Text :=
  safeName isAlphanumeric model ++ ".v".toList ++ (toString SCHEMA_GENERATION).toList ++ ".json".toList

def removeFile (io : CacheIo) (dir : CacheDir) (path : Text) : CacheDir :=
  if io.removable then Function.update dir path none else dir

/-- The entry of a file that has not expired; one that has is removed. -/
def read (io : CacheIo) (dir : CacheDir) (model : Text) : CacheDir × Option CachedModelInfo :=
  let path := cachePath isAlphanumeric model
  match dir path with
  | some (.entry entry) =>
    if ! io.readable then (dir, none)
    else if entry.info.isExpired io.now then (removeFile io dir path, none)
    else (dir, some entry)
  | some .torn => (dir, none)
  | none => (dir, none)

def get (io : CacheIo) (dir : CacheDir) (model : Text) : CacheDir × Option ModelInfo :=
  let (dir, entry) := read isAlphanumeric io dir model
  (dir, entry.map (·.info))

def getFrom (io : CacheIo) (dir : CacheDir) (server model : Text) : CacheDir × Option ModelInfo :=
  let (dir, entry) := read isAlphanumeric io dir model
  (dir, (entry.filter (·.server = server)).map (·.info))

def set (dir : CacheDir) (server : Text) (info : ModelInfo) : CacheWrite → CacheDir
  | .whole => Function.update dir (cachePath isAlphanumeric info.id) (some (.entry ⟨server, info⟩))
  | .torn => Function.update dir (cachePath isAlphanumeric info.id) (some .torn)
  | .refused => dir

def forgetOtherServer (io : CacheIo) (dir : CacheDir) (server model : Text) : CacheDir :=
  let (dir, entry) := read isAlphanumeric io dir model
  if entry.any (·.server ≠ server) then removeFile io dir (cachePath isAlphanumeric model) else dir

end ModelInfoCache

/-! ## Runs -/

inductive CacheCall where
  | set (server : Text) (info : ModelInfo) (write : CacheWrite)
  | get (io : CacheIo) (model : Text)
  | getFrom (io : CacheIo) (server model : Text)
  | forgetOtherServer (io : CacheIo) (server model : Text)

namespace CacheCall

open ModelInfoCache

/-- The identifier a call is about. -/
def model : CacheCall → Text
  | set _ info _ => info.id
  | get _ model => model
  | getFrom _ _ model => model
  | forgetOtherServer _ _ model => model

/-- The servers whose answer a lookup takes. -/
def Takes (server : Text) : CacheCall → Prop
  | getFrom _ asked _ => server = asked
  | _ => True

variable (isAlphanumeric : Char → Bool)

/-- The directory after a call, and what a lookup answers. -/
def run (dir : CacheDir) : CacheCall → CacheDir × Option ModelInfo
  | set server info write => (ModelInfoCache.set isAlphanumeric dir server info write, none)
  | get io model => ModelInfoCache.get isAlphanumeric io dir model
  | getFrom io server model => ModelInfoCache.getFrom isAlphanumeric io dir server model
  | forgetOtherServer io server model =>
    (ModelInfoCache.forgetOtherServer isAlphanumeric io dir server model, none)

end CacheCall

/-- The directory after calls on an empty one. -/
def cacheAfter (isAlphanumeric : Char → Bool) (calls : List CacheCall) : CacheDir :=
  calls.foldl (fun dir call => (call.run isAlphanumeric dir).1) fun _ => none

/-- What a lookup answers was stored for the model, by the server where one is named. -/
def AnswersExactly (isAlphanumeric : Char → Bool) (calls : List CacheCall) : Prop :=
  ∀ before call after, calls = before ++ call :: after → ∀ info,
    (call.run isAlphanumeric (cacheAfter isAlphanumeric before)).2 = some info →
      info.id = call.model ∧ ∃ server, call.Takes server ∧ .set server info .whole ∈ before

/-- A call leaves the entries of other identifiers as they are. -/
def KeepsOthers (isAlphanumeric : Char → Bool) (ids : Set Text) (calls : List CacheCall) : Prop :=
  ∀ before call after, calls = before ++ call :: after → ∀ model ∈ ids, model ≠ call.model →
    cacheAfter isAlphanumeric (before ++ [call]) (ModelInfoCache.cachePath isAlphanumeric model) =
      cacheAfter isAlphanumeric before (ModelInfoCache.cachePath isAlphanumeric model)

namespace ModelInfoCache

variable {isAlphanumeric : Char → Bool} {dir : CacheDir} {io : CacheIo} {call : CacheCall} {calls : List CacheCall}
  {model model' path : Text} {entry : CachedModelInfo} {info : ModelInfo} {ids : Set Text}

theorem cachePath_inj :
    cachePath isAlphanumeric model = cachePath isAlphanumeric model' ↔
      safeName isAlphanumeric model = safeName isAlphanumeric model' := by
  rw [cachePath, cachePath, List.append_left_inj, List.append_left_inj, List.append_left_inj]

/-! ## What a call does -/

theorem removeFile_ne (h : path ≠ cachePath isAlphanumeric model) :
    removeFile io dir (cachePath isAlphanumeric model) path = dir path := by
  rw [removeFile]
  split
  · exact Function.update_of_ne h _ _
  · rfl

theorem removeFile_self : removeFile io dir path path = none ∨ removeFile io dir path path = dir path := by
  rw [removeFile]
  split
  · exact .inl (Function.update_self _ _ _)
  · exact .inr rfl

/-- The other files stay, and no entry is in the file that was not. -/
def Shrinks (dir dir' : CacheDir) (path : Text) : Prop :=
  (∀ other, other ≠ path → dir' other = dir other) ∧ (dir' path = none ∨ dir' path = dir path)

theorem Shrinks.rfl : Shrinks dir dir path := ⟨fun _ _ => Eq.refl _, .inr (Eq.refl _)⟩

theorem shrinks_removeFile : Shrinks dir (removeFile io dir (cachePath isAlphanumeric model))
    (cachePath isAlphanumeric model) := ⟨fun _ h => removeFile_ne h, removeFile_self⟩

theorem Shrinks.trans {dir' dir'' : CacheDir} (h : Shrinks dir dir' path) (h' : Shrinks dir' dir'' path) :
    Shrinks dir dir'' path := by
  refine ⟨fun other hne => (h'.1 other hne).trans (h.1 other hne), ?_⟩
  rcases h'.2 with hnone | hsame
  · exact .inl hnone
  · rw [hsame]
    exact h.2

theorem read_spec (io : CacheIo) (dir : CacheDir) (model : Text) :
    Shrinks dir (read isAlphanumeric io dir model).1 (cachePath isAlphanumeric model) ∧
    ∀ entry, (read isAlphanumeric io dir model).2 = some entry →
      dir (cachePath isAlphanumeric model) = some (.entry entry) := by
  rw [read]
  split
  · rename_i entry hfile
    split
    · exact ⟨.rfl, fun _ h => by cases h⟩
    · split
      · exact ⟨shrinks_removeFile, fun _ h => by cases h⟩
      · exact ⟨.rfl, fun _ h => Option.some.inj h ▸ hfile⟩
  · exact ⟨.rfl, fun _ h => by cases h⟩
  · exact ⟨.rfl, fun _ h => by cases h⟩

theorem shrinks_forget (io : CacheIo) (dir : CacheDir) (server model : Text) :
    Shrinks dir (forgetOtherServer isAlphanumeric io dir server model) (cachePath isAlphanumeric model) := by
  have hread := (@read_spec isAlphanumeric io dir model).1
  rw [forgetOtherServer]
  dsimp only
  split
  · exact hread.trans shrinks_removeFile
  · exact hread

theorem run_files (isAlphanumeric : Char → Bool) (dir : CacheDir) (call : CacheCall) :
    (∀ path, path ≠ cachePath isAlphanumeric call.model → (call.run isAlphanumeric dir).1 path = dir path) ∧
    ∀ entry, (call.run isAlphanumeric dir).1 (cachePath isAlphanumeric call.model) = some (.entry entry) →
      dir (cachePath isAlphanumeric call.model) = some (.entry entry) ∨
        call = .set entry.server entry.info .whole := by
  have hshrinks {dir' : CacheDir} (h : Shrinks dir dir' (cachePath isAlphanumeric call.model)) :
      (∀ path, path ≠ cachePath isAlphanumeric call.model → dir' path = dir path) ∧
      ∀ entry, dir' (cachePath isAlphanumeric call.model) = some (.entry entry) →
        dir (cachePath isAlphanumeric call.model) = some (.entry entry) ∨
          call = .set entry.server entry.info .whole := by
    refine ⟨h.1, fun entry hentry => ?_⟩
    rcases h.2 with hnone | hsame
    · cases hnone.symm.trans hentry
    · exact .inl (hsame ▸ hentry)
  cases call with
  | set server info write =>
    cases write with
    | whole =>
      refine ⟨fun path hne => Function.update_of_ne hne _ _, fun entry hentry => .inr ?_⟩
      cases (Function.update_self _ _ _).symm.trans hentry
      rfl
    | torn =>
      refine ⟨fun path hne => Function.update_of_ne hne _ _, fun entry hentry => ?_⟩
      cases (Function.update_self _ _ _).symm.trans hentry
    | refused => exact ⟨fun _ _ => rfl, fun _ h => .inl h⟩
  | get io model => exact hshrinks (read_spec io dir model).1
  | getFrom io server model => exact hshrinks (read_spec io dir model).1
  | forgetOtherServer io server model => exact hshrinks (shrinks_forget io dir server model)

theorem run_answer (h : (call.run isAlphanumeric dir).2 = some info) : ∃ server, call.Takes server ∧
    dir (cachePath isAlphanumeric call.model) = some (.entry ⟨server, info⟩) := by
  cases call with
  | set server info write => cases h
  | get io model =>
    obtain ⟨entry, hread, rfl⟩ := Option.map_eq_some_iff.mp h
    exact ⟨entry.server, trivial, (read_spec io dir model).2 entry hread⟩
  | getFrom io server model =>
    obtain ⟨entry, hfilter, rfl⟩ := Option.map_eq_some_iff.mp h
    obtain ⟨hread, hserver⟩ := Option.filter_eq_some_iff.mp hfilter
    exact ⟨entry.server, (of_decide_eq_true hserver : entry.server = server), (read_spec io dir model).2 entry hread⟩
  | forgetOtherServer io server model => cases h

/-! ## Runs -/

theorem cacheAfter_snoc : cacheAfter isAlphanumeric (calls ++ [call]) =
    (call.run isAlphanumeric (cacheAfter isAlphanumeric calls)).1 := List.foldl_concat ..

/-- Every entry was stored, in the file of its model. -/
theorem stored_of_entry (h : cacheAfter isAlphanumeric calls path = some (.entry entry)) :
    path = cachePath isAlphanumeric entry.info.id ∧ .set entry.server entry.info .whole ∈ calls := by
  induction calls using List.reverseRecOn generalizing path with
  | nil => cases h
  | append_singleton calls call ih =>
    rw [cacheAfter_snoc] at h
    obtain ⟨hothers, hown⟩ := run_files isAlphanumeric (cacheAfter isAlphanumeric calls) call
    by_cases hpath : path = cachePath isAlphanumeric call.model
    · subst hpath
      rcases hown entry h with hbefore | rfl
      · exact ⟨(ih hbefore).1, List.mem_append_left _ (ih hbefore).2⟩
      · exact ⟨rfl, List.mem_append_right _ List.mem_cons_self⟩
    · rw [hothers path hpath] at h
      exact ⟨(ih h).1, List.mem_append_left _ (ih h).2⟩

theorem answersExactly (hinj : ids.InjOn (safeName isAlphanumeric)) (hids : ∀ call ∈ calls, call.model ∈ ids) :
    AnswersExactly isAlphanumeric calls := by
  rintro before call after rfl info hanswer
  obtain ⟨server, htakes, hentry⟩ := run_answer hanswer
  obtain ⟨hpath, hset⟩ := stored_of_entry hentry
  have hcall := hids call (List.mem_append_right _ List.mem_cons_self)
  have hinfo := hids _ (List.mem_append_left _ hset)
  exact ⟨(hinj hcall hinfo (cachePath_inj.mp hpath)).symm, server, htakes, hset⟩

theorem keepsOthers (hinj : ids.InjOn (safeName isAlphanumeric)) (hids : ∀ call ∈ calls, call.model ∈ ids) :
    KeepsOthers isAlphanumeric ids calls := by
  rintro before call after rfl model hmodel hne
  rw [cacheAfter_snoc]
  refine (run_files isAlphanumeric _ call).1 _ fun hpath => hne ?_
  exact hinj hmodel (hids call (List.mem_append_right _ List.mem_cons_self)) (cachePath_inj.mp hpath)

/-! ## Names that are shared -/

/-- An answer about a model, fresh at the start of the clock. -/
def freshInfo (id : Text) (contextWindow : Nat) : ModelInfo := { id, contextWindow, maxOutputTokens := 0, cachedAt := 0 }

theorem file_shared (h : safeName isAlphanumeric model = safeName isAlphanumeric model') (contextWindow : Nat) :
    cacheAfter isAlphanumeric [.set [] (freshInfo model contextWindow) .whole] (cachePath isAlphanumeric model') =
      some (.entry ⟨[], freshInfo model contextWindow⟩) := by
  rw [← cachePath_inj.mpr h]
  exact @Function.update_self Text (fun _ => Option CacheFile) _ _ _ fun _ => none

theorem fresh (id : Text) (contextWindow : Nat) : (freshInfo id contextWindow).isExpired 0 = false := by
  have hfresh : ¬ (0 : Int64) - 0 > ModelInfo.CACHE_TTL_SECS := by decide
  exact decide_eq_false hfresh

theorem get_shared (h : safeName isAlphanumeric model = safeName isAlphanumeric model') (contextWindow : Nat) :
    ((CacheCall.get ⟨0, true, true⟩ model').run isAlphanumeric
      (cacheAfter isAlphanumeric [.set [] (freshInfo model contextWindow) .whole])).2 =
        some (freshInfo model contextWindow) := by
  have hread : (read isAlphanumeric ⟨0, true, true⟩ (cacheAfter isAlphanumeric
      [.set [] (freshInfo model contextWindow) .whole]) model').2 = some ⟨[], freshInfo model contextWindow⟩ := by
    rw [read]
    dsimp only
    rw [file_shared h]
    dsimp only
    rw [fresh]
    rfl
  rw [CacheCall.run, get]
  exact congrArg (Option.map _) hread

end ModelInfoCache

open ModelInfoCache in
/-- Exact answers over a set of identifiers are distinct file names. -/
theorem cache_exact_iff (isAlphanumeric : Char → Bool) (ids : Set Text) :
    ((∀ calls, (∀ call ∈ calls, call.model ∈ ids) → AnswersExactly isAlphanumeric calls) ↔
      ids.InjOn (safeName isAlphanumeric)) ∧
    ((∀ calls, (∀ call ∈ calls, call.model ∈ ids) → KeepsOthers isAlphanumeric ids calls) ↔
      ids.InjOn (safeName isAlphanumeric)) := by
  refine ⟨⟨fun hall model hmodel model' hmodel' hname => ?_, fun hinj calls => answersExactly hinj⟩,
    fun hall model hmodel model' hmodel' hname => ?_, fun hinj calls => keepsOthers hinj⟩
  · have hids : ∀ call ∈ [CacheCall.set [] (freshInfo model 0) .whole, .get ⟨0, true, true⟩ model'],
        call.model ∈ ids := by
      simp [CacheCall.model, freshInfo, hmodel, hmodel']
    exact (hall _ hids [_] _ [] rfl _ (get_shared hname 0)).1
  · by_contra hne
    have hids : ∀ call ∈ [CacheCall.set [] (freshInfo model 0) .whole], call.model ∈ ids := by
      simp [CacheCall.model, freshInfo, hmodel]
    have hkept := hall _ hids [] _ [] rfl model' hmodel' fun heq => hne heq.symm
    cases (file_shared hname 0).symm.trans hkept

/-- The answer about `llama3:8b` is given for `llama3_8b`. -/
theorem other_model_answered : ¬ AnswersExactly Char.isAlphanum
    [.set "ollama".toList ⟨"llama3:8b".toList, 131072, 4096, true, false, none, 0, "ollama".toList⟩ .whole,
      .getFrom ⟨60, true, true⟩ "ollama".toList "llama3_8b".toList] := by
  intro h
  have hanswer := h [_] _ [] rfl ⟨"llama3:8b".toList, 131072, 4096, true, false, none, 0, "ollama".toList⟩
    (by decide +kernel)
  exact absurd hanswer.1 (by decide +kernel)

end Nanna.Llm
