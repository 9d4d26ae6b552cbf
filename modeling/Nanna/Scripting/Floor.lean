import Nanna.Scripting.Ratchet

/-!
# The floor under a file's size

`floor_kept`: over any mix of `write_file` and `edit_file` calls that find what they are measured
against (`Anchored`), no call that shrinks the file leaves it below 30 percent of the largest size it
has held, once that is over 500. Without it the floor can be walked under: an edit of a file that the
ledger does not know is measured against 0, where a rewrite falls back on the size on disk
(`floor_walked_under`).

The invariant is `Marked`: the largest size so far is at most the size on disk or the mark that the
ledger holds for the file. Every accepted call writes a mark that is at least the size before, the
size after and the mark before, so only the first call can find the ledger behind the file.

The other guards of the tools do not look at sizes; what they answer is part of the call, and so are
the text that an edit makes of a content and the verdict of a structural checker.
-/

namespace Nanna.Scripting.Floor

open Nanna.Lib

/-! ## The structural hold -/

/-- The top-level definitions of a text, in the order they are met. -/
structure Symbols where
  names : Text → List Text

def sortNames (names : List Text) : List Text :=
  names.mergeSort fun a b => units a ≤ units b

def hashStr (t : Text) : UInt32 :=
  (units t).foldl (fun h x => ((h <<< 5) + h) ^^^ x.toUInt32) 5381

/-- The signature of the definitions that a shrinking rewrite removes, where it removes more than it
keeps or one of the last version that passed a check. -/
def gutSignature (old new goodSyms : List Text) : Option Text :=
  let removed := old.filter (· ∉ new)
  let kept := (old.filter (· ∈ new)).length
  let lost := goodSyms.filter (· ∉ new)
  if old ≠ [] ∧ new ≠ [] ∧ (kept < removed.length ∨ lost ≠ []) then
    let set := lost.foldl (fun set name => if name ∈ set then set else set ++ [name]) removed
    some (toString (hashStr (['\n'].intercalate (sortNames set))).toNat).toList
  else none

/-! ## Calls -/

inductive Mutation where
  /-- The text a `write_file` call sends. -/
  | write (text : Text)
  /-- What an `edit_file` call makes of a content, where it finds its snippet. -/
  | edit (updated : Text → Option Text)

/-- A call without `force`, with what the other guards and the checker answer. -/
structure Call where
  path : Text
  mutation : Mutation
  now : Nat
  /-- Refused before its size is looked at, or after. -/
  barred : Bool
  gated : Bool
  /-- The session has seen the content it shrinks. -/
  seen : Bool
  verdict : Option Bool

/-- A file that exists, and the ledger. -/
structure Desk where
  content : Text
  ledger : Ledger

variable (lc : Lowercase) (workdir : Option Workdir) (symbols : Symbols)

/-- Content that lost its line breaks in transit gets them back. -/
def literalNewlines : Text → Nat
  | '\\' :: 'n' :: t => literalNewlines t + 1
  | _ :: t => literalNewlines t
  | [] => 0

def unescapeNewlines : Text → Text
  | '\\' :: 'n' :: t => '\n' :: unescapeNewlines t
  | c :: t => c :: unescapeNewlines t
  | [] => []

def repairNewlines (path text : Text) : Text :=
  let jsonFamily := [".json", ".jsonl", ".ndjson", ".geojson"].any fun ext =>
    ext.toList.isSuffixOf (lc.lower path)
  if '\n' ∉ text ∧ !jsonFamily ∧ 2 ≤ literalNewlines text then unescapeNewlines text else text

def signedEntry (entry : Option Entry) (sig : Text) (now : Nat) : Entry :=
  { entry.getD { hi := 0, last := 0, time := now } with heldGut := some sig, time := now }

def heldGutPut (map : Ledger) (path : Text) (sig : Text) (now : Nat) : Ledger :=
  let (map, entry) := hiwaterEntryFor lc workdir map path
  hiwaterSave (map.put ⟨hiwaterKey lc workdir path, signedEntry entry sig now⟩)

def bestEntry (entry : Option Entry) (outCount size bytes now : Nat) : Entry :=
  { entry.getD { hi := size, last := bytes, time := now } with
    bestSyms := some outCount, bestAt := now }

/-- A version with more definitions than any parked before is noted when it is rewritten. -/
def parkBest (map : Ledger) (path : Text) (existing text : Text) (now : Nat) : Ledger :=
  let old := symbols.names existing
  if existing ≠ text ∧ old.filter (· ∉ symbols.names text) ≠ [] then
    let (map', entry) := hiwaterEntryFor lc workdir map path
    if (entry.bind Entry.bestSyms).getD 0 < old.length then
      hiwaterSave (map'.put ⟨hiwaterKey lc workdir path,
        bestEntry entry old.length (jsLength existing) (jsLength text) now⟩)
    else map
  else map

/-- The entry written after a change, and the ledger saved with it. -/
def recordEntry (map : Ledger) (path : Text) (newSize prevSize : Nat) (verdict : Option Bool)
    (goodSyms : List Text → List Text) (now : Nat) : Ledger :=
  if hiwaterExempt (hiwaterKey lc workdir path) then map
  else
    let (map, entry) := hiwaterEntryFor lc workdir map path
    let next := nextEntry entry newSize prevSize now
    let next := next.judged verdict newSize now (goodSyms (next.goodSyms.getD []))
    hiwaterSave (map.put ⟨hiwaterKey lc workdir path, next⟩)

/-- The record of an edit: definitions it removes stay in the anchor. -/
def hiwaterRecord (map : Ledger) (path : Text) (newSize prevSize : Nat) (verdict : Option Bool)
    (goodSyms : List Text) (now : Nat) : Ledger :=
  recordEntry lc workdir map path newSize prevSize verdict
    (fun prior => goodSyms ++ prior.filter (· ∉ goodSyms)) now

/-- The record of a whole-file write: the anchor is replaced. -/
def ratchetUpdate (map : Ledger) (path : Text) (newSize prevSize : Nat) (verdict : Option Bool)
    (goodSyms : List Text) (now : Nat) : Ledger :=
  recordEntry lc workdir map path newSize prevSize verdict (fun _ => goodSyms) now

/-! ## The tools -/

/-- The size a rewrite is measured against: without an anchor at least the size on disk. -/
def writeFloorBase (entry : Option Entry) (existingSize : Nat) : Nat :=
  if 0 < hiwaterGood entry then hiwaterGood entry else max existingSize (hiwaterHi entry)

/-- The size an edit is measured against, 0 when the ledger has none. -/
def hiwaterFloorInfo (map : Ledger) (path : Text) : Nat :=
  if hiwaterExempt (hiwaterKey lc workdir path) then 0
  else
    let entry := (hiwaterEntryFor lc workdir map path).2
    if 0 < hiwaterGood entry then hiwaterGood entry else hiwaterHi entry

/-- The refusal of both tools: a shrinking change to less than 30 percent of the base. On whole sizes
the product with `0.3` in floating point falls on the same side. -/
def UnderFloor (base newSize size : Nat) : Prop :=
  500 < base ∧ newSize < size ∧ 10 * newSize < 3 * base

instance (base newSize size : Nat) : Decidable (UnderFloor base newSize size) :=
  inferInstanceAs (Decidable (_ ∧ _))

/-- What the structural hold signs, where a rewrite is held that was not held for the same before. -/
def gutHold (entry : Option Entry) (existing text : Text) : Option Text :=
  if jsLength text < jsLength existing then
    (gutSignature (symbols.names existing) (symbols.names text)
      ((entry.bind Entry.goodSyms).getD [])).filter fun sig => entry.bind Entry.heldGut ≠ some sig
  else none

def writeFile (desk : Desk) (call : Call) (sent : Text) : Desk :=
  let text := repairNewlines lc call.path sent
  let bytes := jsLength text
  let size := jsLength desk.content
  let entry := (hiwaterEntryFor lc workdir desk.ledger call.path).2
  if call.barred then desk
  else if hiwaterExempt (hiwaterKey lc workdir call.path) then
    if call.gated then desk else { desk with content := text }
  else if bytes < size ∧ !call.seen then desk
  else if UnderFloor (writeFloorBase entry size) bytes size then desk
  else
    match gutHold symbols entry desk.content text with
    | some sig => { desk with ledger := heldGutPut lc workdir desk.ledger call.path sig call.now }
    | none =>
      if call.gated then desk
      else
        let ledger := ratchetUpdate lc workdir desk.ledger call.path bytes size call.verdict
          (sortNames (symbols.names text)) call.now
        ⟨text, parkBest lc workdir symbols ledger call.path desk.content text call.now⟩

def editFile (desk : Desk) (call : Call) (updated : Text → Option Text) : Desk :=
  if call.barred then desk
  else
    match updated desk.content with
    | none => desk
    | some text =>
      if call.gated then desk
      else if UnderFloor (hiwaterFloorInfo lc workdir desk.ledger call.path) (jsLength text)
          (jsLength desk.content) then desk
      else
        ⟨text, hiwaterRecord lc workdir desk.ledger call.path (jsLength text)
          (jsLength desk.content) call.verdict (sortNames (symbols.names text)) call.now⟩

def step (desk : Desk) (call : Call) : Desk :=
  match call.mutation with
  | .write text => writeFile lc workdir symbols desk call text
  | .edit updated => editFile lc workdir symbols desk call updated

def after (desk : Desk) (calls : List Call) : Desk := calls.foldl (step lc workdir symbols) desk

/-- The largest size the file has held, from before the first call. -/
def peak (desk : Desk) : List Call → Nat
  | [] => jsLength desk.content
  | call :: calls => max (jsLength desk.content) (peak (step lc workdir symbols desk call) calls)

/-! ## What a saved entry keeps -/

variable {lc workdir symbols} {map : Ledger} {path key : Text} {e : Entry} {desk : Desk}
  {call : Call} {high : Nat}

/-- An entry saved under the key of a path is found there, and takes no other file's room. -/
theorem save_put (hkey : hiwaterKey lc workdir path = key)
    (hroom : map.others key < HIWATER_MAX_ENTRIES) :
    let saved := hiwaterSave ((hiwaterEntryFor lc workdir map path).1.put ⟨key, e⟩)
    hiwaterHi (saved.find key) = e.hi ∧ saved.others key < HIWATER_MAX_ENTRIES := by
  subst hkey
  have hput : Ledger.others ((hiwaterEntryFor lc workdir map path).1.put
      ⟨hiwaterKey lc workdir path, e⟩) (hiwaterKey lc workdir path) < HIWATER_MAX_ENTRIES := by
    rw [Ledger.others_put]
    exact lt_of_le_of_lt others_entryFor hroom
  dsimp only
  rw [hiwaterSave_of_others hput]
  exact ⟨congrArg hiwaterHi Ledger.find_put, hput⟩

theorem hi_judged {verdict : Option Bool} {newSize now : Nat} {syms : List Text} :
    (e.judged verdict newSize now syms).hi = e.hi := by
  cases verdict with
  | none => rfl
  | some ok => cases ok <;> rfl

/-- The mark after a change is at least every size involved. -/
theorem recordEntry_spec {newSize prevSize now : Nat} {verdict : Option Bool}
    {goodSyms : List Text → List Text} (hkey : hiwaterKey lc workdir path = key)
    (hplain : hiwaterExempt key = false) (hroom : map.others key < HIWATER_MAX_ENTRIES) :
    let saved := recordEntry lc workdir map path newSize prevSize verdict goodSyms now
    hiwaterHi (saved.find key) =
        max (max newSize prevSize) (hiwaterHi (hiwaterEntryFor lc workdir map path).2) ∧
      saved.others key < HIWATER_MAX_ENTRIES := by
  subst hkey
  unfold recordEntry
  rw [if_neg (by rw [hplain]; exact Bool.false_ne_true)]
  obtain ⟨hhi, hothers⟩ := save_put rfl hroom
  exact ⟨hhi.trans (hi_judged.trans hi_next), hothers⟩

theorem hi_le_signed {entry : Option Entry} {sig : Text} {now : Nat} :
    hiwaterHi entry ≤ (signedEntry entry sig now).hi := by
  cases entry with
  | none => exact Nat.zero_le _
  | some _ => exact le_rfl

theorem hi_le_best {entry : Option Entry} {outCount size bytes now : Nat} :
    hiwaterHi entry ≤ (bestEntry entry outCount size bytes now).hi := by
  cases entry with
  | none => exact Nat.zero_le _
  | some _ => exact le_rfl

theorem heldGutPut_spec {sig : Text} {now : Nat} (hkey : hiwaterKey lc workdir path = key)
    (hroom : map.others key < HIWATER_MAX_ENTRIES) :
    let saved := heldGutPut lc workdir map path sig now
    hiwaterHi (map.find key) ≤ hiwaterHi (saved.find key) ∧
      saved.others key < HIWATER_MAX_ENTRIES := by
  subst hkey
  unfold heldGutPut
  obtain ⟨hhi, hothers⟩ := save_put rfl hroom
  exact ⟨hi_entryFor.trans (le_of_le_of_eq hi_le_signed hhi.symm), hothers⟩

theorem parkBest_spec {existing text : Text} {now : Nat} (hkey : hiwaterKey lc workdir path = key)
    (hroom : map.others key < HIWATER_MAX_ENTRIES) :
    let saved := parkBest lc workdir symbols map path existing text now
    hiwaterHi (map.find key) ≤ hiwaterHi (saved.find key) ∧
      saved.others key < HIWATER_MAX_ENTRIES := by
  subst hkey
  unfold parkBest
  dsimp only
  split
  · split
    · obtain ⟨hhi, hothers⟩ := save_put rfl hroom
      exact ⟨hi_entryFor.trans (le_of_le_of_eq hi_le_best hhi.symm), hothers⟩
    · exact ⟨le_rfl, hroom⟩
  · exact ⟨le_rfl, hroom⟩

/-! ## The floor -/

/-- The entry a call finds. -/
def found (lc : Lowercase) (workdir : Option Workdir) (desk : Desk) (call : Call) : Option Entry :=
  (hiwaterEntryFor lc workdir desk.ledger call.path).2

/-- A call that finds what it is measured against: the file under its one key, with no size that a
check once passed, and where it edits, with a mark that is not behind the file it shrinks. -/
structure Anchored (lc : Lowercase) (workdir : Option Workdir) (key : Text) (desk : Desk)
    (call : Call) : Prop where
  spelled : hiwaterKey lc workdir call.path = key
  plain : hiwaterExempt key = false
  unproved : hiwaterGood (found lc workdir desk call) = 0
  marked : ∀ updated text, call.mutation = .edit updated → updated desk.content = some text →
    jsLength desk.content ≤ max 500 (hiwaterHi (found lc workdir desk call)) ∨
      3 * jsLength desk.content ≤ 10 * jsLength text

/-- A change that shrinks a file that was once larger than 500 leaves 30 percent of its largest
size. -/
def FloorKept (high : Nat) (desk desk' : Desk) : Prop :=
  jsLength desk'.content < jsLength desk.content → 500 < high → 3 * high ≤ 10 * jsLength desk'.content

/-- What the ledger knows of the sizes so far. -/
structure Marked (key : Text) (high : Nat) (desk : Desk) : Prop where
  room : desk.ledger.others key < HIWATER_MAX_ENTRIES
  mark : high ≤ max (jsLength desk.content) (hiwaterHi (desk.ledger.find key))

theorem le_found (hmarked : Marked key high desk) (hcall : Anchored lc workdir key desk call) :
    high ≤ max (jsLength desk.content) (hiwaterHi (found lc workdir desk call)) := by
  obtain ⟨rfl, -, -, -⟩ := hcall
  have hmark := hmarked.mark
  have hfold : hiwaterHi (desk.ledger.find _) ≤ hiwaterHi (found lc workdir desk call) :=
    hi_entryFor
  omega

/-- A call that leaves the file alone, and at most puts marks into the ledger. -/
theorem held_spec {ledger : Ledger} (hmarked : Marked key high desk)
    (hhi : hiwaterHi (desk.ledger.find key) ≤ hiwaterHi (ledger.find key))
    (hroom : ledger.others key < HIWATER_MAX_ENTRIES) :
    FloorKept high desk { desk with ledger := ledger } ∧
      Marked key (max high (jsLength desk.content)) { desk with ledger := ledger } := by
  refine ⟨fun hshrunk => absurd hshrunk (lt_irrefl _), hroom, ?_⟩
  have hmark := hmarked.mark
  dsimp only
  omega

theorem kept_spec (hmarked : Marked key high desk) :
    FloorKept high desk desk ∧ Marked key (max high (jsLength desk.content)) desk :=
  held_spec hmarked le_rfl hmarked.room

/-- A change that the floor lets through, and the ledger that knows of it. -/
theorem landed_spec {text : Text} {ledger : Ledger} {base : Nat} (hmarked : Marked key high desk)
    (hcall : Anchored lc workdir key desk call)
    (hhi : max (max (jsLength text) (jsLength desk.content))
      (hiwaterHi (found lc workdir desk call)) ≤ hiwaterHi (ledger.find key))
    (hroom : ledger.others key < HIWATER_MAX_ENTRIES)
    (hfloor : ¬UnderFloor base (jsLength text) (jsLength desk.content))
    (hbase : 500 < high → high ≤ base ∨ 3 * high ≤ 10 * jsLength text) :
    FloorKept high desk ⟨text, ledger⟩ ∧
      Marked key (max high (jsLength text)) ⟨text, ledger⟩ := by
  have hfound := le_found hmarked hcall
  constructor
  · intro hshrunk hhigh
    rcases hbase hhigh with hle | hle
    · have hnot : ¬10 * jsLength text < 3 * base := fun hunder =>
        hfloor ⟨lt_of_lt_of_le hhigh hle, hshrunk, hunder⟩
      show 3 * high ≤ 10 * jsLength text
      omega
    · exact hle
  · refine ⟨hroom, ?_⟩
    dsimp only
    omega

theorem writeFile_spec {sent : Text} (hmarked : Marked key high desk)
    (hcall : Anchored lc workdir key desk call) :
    FloorKept high desk (writeFile lc workdir symbols desk call sent) ∧
      Marked key (max high (jsLength (writeFile lc workdir symbols desk call sent).content))
        (writeFile lc workdir symbols desk call sent) := by
  have hplain : hiwaterExempt (hiwaterKey lc workdir call.path) = false :=
    hcall.spelled ▸ hcall.plain
  unfold writeFile
  dsimp only
  split
  · exact kept_spec hmarked
  rw [if_neg (by rw [hplain]; exact Bool.false_ne_true)]
  split
  · exact kept_spec hmarked
  split
  · exact kept_spec hmarked
  · rename_i hfloor
    split
    · obtain ⟨hhi, hroom⟩ := heldGutPut_spec hcall.spelled hmarked.room
      exact held_spec hmarked hhi hroom
    · split
      · exact kept_spec hmarked
      · obtain ⟨hrecorded, hroom⟩ := recordEntry_spec hcall.spelled hcall.plain hmarked.room
        obtain ⟨hparked, hroom⟩ := parkBest_spec hcall.spelled hroom
        have hbase : writeFloorBase (found lc workdir desk call) (jsLength desk.content) =
            max (jsLength desk.content) (hiwaterHi (found lc workdir desk call)) :=
          if_neg (Nat.not_lt.mpr hcall.unproved.le)
        exact landed_spec hmarked hcall (hrecorded.ge.trans hparked) hroom hfloor fun _ =>
          .inl ((le_found hmarked hcall).trans hbase.ge)

theorem editFile_spec {updated : Text → Option Text} (hmutation : call.mutation = .edit updated)
    (hmarked : Marked key high desk) (hcall : Anchored lc workdir key desk call) :
    FloorKept high desk (editFile lc workdir symbols desk call updated) ∧
      Marked key (max high (jsLength (editFile lc workdir symbols desk call updated).content))
        (editFile lc workdir symbols desk call updated) := by
  have hplain : hiwaterExempt (hiwaterKey lc workdir call.path) = false :=
    hcall.spelled ▸ hcall.plain
  have hbase : hiwaterFloorInfo lc workdir desk.ledger call.path =
      hiwaterHi (found lc workdir desk call) := by
    unfold hiwaterFloorInfo
    rw [if_neg (by rw [hplain]; exact Bool.false_ne_true)]
    exact if_neg (Nat.not_lt.mpr hcall.unproved.le)
  unfold editFile
  split
  · exact kept_spec hmarked
  split
  · exact kept_spec hmarked
  · rename_i text htext
    split
    · exact kept_spec hmarked
    split
    · exact kept_spec hmarked
    · rename_i hfloor
      obtain ⟨hrecorded, hroom⟩ := recordEntry_spec hcall.spelled hcall.plain hmarked.room
      rw [hbase] at hfloor
      refine landed_spec hmarked hcall hrecorded.ge hroom hfloor fun hhigh => ?_
      have hfound := le_found hmarked hcall
      rcases hcall.marked updated text hmutation htext with hmark | hmark
      · omega
      · omega

theorem step_spec (hmarked : Marked key high desk) (hcall : Anchored lc workdir key desk call) :
    FloorKept high desk (step lc workdir symbols desk call) ∧
      Marked key (max high (jsLength (step lc workdir symbols desk call).content))
        (step lc workdir symbols desk call) := by
  unfold step
  split
  · exact writeFile_spec hmarked hcall
  · rename_i updated hmutation
    exact editFile_spec hmutation hmarked hcall

/-! ## Runs -/

theorem marked_start (h : desk.ledger.rows.length < HIWATER_MAX_ENTRIES) :
    Marked key (jsLength desk.content) desk where
  room := lt_of_le_of_lt (List.length_filter_le _ _) h
  mark := le_max_left _ _

theorem peak_append (desk : Desk) (calls : List Call) (call : Call) :
    peak lc workdir symbols desk (calls ++ [call]) =
      max (peak lc workdir symbols desk calls)
        (jsLength (after lc workdir symbols desk (calls ++ [call])).content) := by
  induction calls generalizing desk with
  | nil => rfl
  | cons c calls ih =>
    rw [List.cons_append, peak, ih, peak, max_assoc]
    rfl

theorem marked_run {calls : List Call} (hstart : desk.ledger.rows.length < HIWATER_MAX_ENTRIES)
    (h : ∀ pre call post, calls = pre ++ call :: post →
      Anchored lc workdir key (after lc workdir symbols desk pre) call) :
    Marked key (peak lc workdir symbols desk calls) (after lc workdir symbols desk calls) := by
  induction calls using List.reverseRecOn with
  | nil => exact marked_start hstart
  | append_singleton calls call ih =>
    have hmarked := ih fun pre c post heq => h pre c (post ++ [call]) (by rw [heq]; simp)
    rw [peak_append, after, List.foldl_append]
    exact (step_spec hmarked (h calls call [] rfl)).2

/-- **Main result.** Over any mix of calls that find what they are measured against, no call that
shrinks the file leaves less than 30 percent of its largest size. -/
theorem floor_kept (lc : Lowercase) (workdir : Option Workdir) (symbols : Symbols) (key : Text)
    (desk : Desk) (calls : List Call) (hstart : desk.ledger.rows.length < HIWATER_MAX_ENTRIES)
    (h : ∀ pre call post, calls = pre ++ call :: post →
      Anchored lc workdir key (after lc workdir symbols desk pre) call) :
    ∀ pre call post, calls = pre ++ call :: post →
      FloorKept (peak lc workdir symbols desk pre) (after lc workdir symbols desk pre)
        (step lc workdir symbols (after lc workdir symbols desk pre) call) := by
  intro pre call post heq
  have hmarked : Marked key (peak lc workdir symbols desk pre)
      (after lc workdir symbols desk pre) := by
    refine marked_run hstart fun pre' call' post' heq' => ?_
    exact h pre' call' (post' ++ call :: post) (by rw [heq, heq']; simp)
  exact (step_spec hmarked (h pre call post heq)).1

/-! ## A file nobody recorded -/

def noSymbols : Symbols := ⟨fun _ => []⟩

/-- A call on `notes.txt` that no other guard stops. -/
def onNotes (mutation : Mutation) : Call where
  path := "notes.txt".toList
  mutation := mutation
  now := 1
  barred := false
  gated := false
  seen := true
  verdict := none

def notes : Desk := ⟨List.replicate 1000 'a', Table.empty⟩

/-- A rewrite, and then an edit that the ledger already knows the file for. -/
def rewrite : Call := onNotes (.write (List.replicate 700 'a'))

def shorten (size : Nat) : Call := onNotes (.edit fun content => some (content.take size))

theorem floor_kept_notes :
    FloorKept (peak asciiLowercase none noSymbols notes [rewrite])
      (after asciiLowercase none noSymbols notes [rewrite])
      (step asciiLowercase none noSymbols (after asciiLowercase none noSymbols notes [rewrite])
        (shorten 400)) := by
  refine floor_kept asciiLowercase none noSymbols "notes.txt".toList notes [rewrite, shorten 400]
    (by decide) (fun pre call post heq => ?_) [rewrite] (shorten 400) [] rfl
  rcases pre with _ | ⟨first, _ | ⟨second, pre⟩⟩
  · obtain ⟨rfl, -⟩ := List.cons.inj heq
    exact ⟨by decide, by decide, by decide, nofun⟩
  · obtain ⟨rfl, htail⟩ := List.cons.inj heq
    obtain ⟨rfl, -⟩ := List.cons.inj htail
    exact ⟨by decide +kernel, by decide +kernel, by decide +kernel,
      fun _ _ _ _ => .inl (by decide +kernel)⟩
  · exact absurd (congrArg List.length heq) (by simp)

/-- The first edit of a file that the ledger does not know leaves one hundredth of it. -/
theorem floor_walked_under :
    ¬ ∀ (lc : Lowercase) (workdir : Option Workdir) (symbols : Symbols) (key : Text) (desk : Desk)
      (calls : List Call), desk.ledger.rows.length < HIWATER_MAX_ENTRIES →
      hiwaterExempt key = false → (∀ row ∈ desk.ledger.rows, row.entry.good = 0) →
      (∀ call ∈ calls, hiwaterKey lc workdir call.path = key ∧ call.verdict = none ∧ call.seen) →
      ∀ pre call post, calls = pre ++ call :: post →
        FloorKept (peak lc workdir symbols desk pre) (after lc workdir symbols desk pre)
          (step lc workdir symbols (after lc workdir symbols desk pre) call) := by
  intro h
  have hkept := h asciiLowercase none noSymbols "notes.txt".toList notes [shorten 10] (by decide)
    (by decide) (fun _ hrow => absurd hrow List.not_mem_nil)
    (fun call hcall => by
      obtain rfl := List.mem_singleton.mp hcall
      decide +kernel) [] (shorten 10) [] rfl (by decide +kernel) (by decide +kernel)
  revert hkept
  decide +kernel

end Nanna.Scripting.Floor
