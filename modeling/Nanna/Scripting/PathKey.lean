import Nanna.Lib.Text
import Nanna.Lib.Wildcard

/-!
# The ledger key of a path, and the prohibitions looked up under it

Before they change a file, `write_file` and `edit_file` compare the path they were given with the
globs of the declared invariants. Both sides go through `hiwaterKey`: slashes one way, lower case,
no leading `./`, no doubled separators, and the workspace prefix taken off. The path is not resolved.

A script string is compared by its UTF-16 code units, and `?` stands for one of them. Lower-casing
is the runtime's, with the properties used here (`Lowercase`).
-/

namespace Nanna.Scripting

open Nanna.Lib

/-- `toLowerCase` and `to_lowercase`: the characters it writes are those it keeps. -/
structure Lowercase where
  lower : Text → Text
  Plain : Char → Prop
  plain_of_mem : ∀ {t c}, c ∈ lower t → Plain c
  lower_of_plain : ∀ {t}, (∀ c ∈ t, Plain c) → lower t = t
  plain_wildcard : Plain '*' ∧ Plain '?'
  lower_slash : ∀ t, lower ('/' :: t) = '/' :: lower t
  backslash_of_mem : ∀ {t}, '\\' ∈ lower t → '\\' ∈ t

theorem val_toLower (c : Char) :
    c.toLower.val = if 65 ≤ c.val ∧ c.val ≤ 90 then c.val + 32 else c.val := by
  unfold Char.toLower
  split
  · rename_i h
    exact (if_pos h).symm
  · rename_i h
    exact (if_neg h).symm

theorem toLower_toLower (c : Char) : c.toLower.toLower = c.toLower := by
  refine Char.ext ?_
  rw [val_toLower c.toLower, val_toLower c]
  split <;> grind

theorem eq_backslash_of_toLower {c : Char} (h : c.toLower = '\\') : c = '\\' := by
  have hval : c.toLower.val = 92 := congrArg Char.val h
  refine Char.ext ?_
  show c.val = 92
  rw [val_toLower] at hval
  split at hval <;> grind

/-- Lower-casing on ASCII. -/
def asciiLowercase : Lowercase where
  lower t := t.map Char.toLower
  Plain c := c.toLower = c
  plain_of_mem h := by
    obtain ⟨d, -, rfl⟩ := List.mem_map.mp h
    exact toLower_toLower d
  lower_of_plain h := (List.map_congr_left h).trans (List.map_id _)
  plain_wildcard := ⟨rfl, rfl⟩
  lower_slash _ := rfl
  backslash_of_mem h := by
    obtain ⟨d, hd, hback⟩ := List.mem_map.mp h
    exact eq_backslash_of_toLower hback ▸ hd

/-- A working directory: an absolute path. -/
structure Workdir where
  path : Text
  absolute : path.head? = some '/'

/-! ## Keys -/

def toSlashes (t : Text) : Text := t.map fun c => if c = '\\' then '/' else c

def dropDotSlash : Text → Text
  | '.' :: '/' :: t => dropDotSlash t
  | t => t

/-- Every run of separators becomes one. -/
def collapse : Text → Text
  | [] => []
  | c :: t => if c = '/' ∧ t.head? = some '/' then collapse t else c :: collapse t

/-- No separators at the end, of a text of more than one character. -/
def trimSlashes : Text → Text
  | [] => []
  | c :: t => c :: t.rdropWhile (· = '/')

variable (lc : Lowercase) (workdir : Option Workdir)

def hiwaterNormKey (path : Text) : Text := collapse (dropDotSlash (lc.lower (toSlashes path)))

/-- The working directory as a prefix of keys. -/
def workdirPrefix (wd : Workdir) : Text :=
  let w := hiwaterNormKey lc wd.path
  if w.getLast? = some '/' then w else w ++ ['/']

def hiwaterKey (path : Text) : Text :=
  let k := hiwaterNormKey lc path
  match workdir with
  | none => k
  | some wd =>
    let w := workdirPrefix lc wd
    if w <+: k ∧ w.length < k.length then k.drop w.length else k

/-- The spelling under which a glob is declared. -/
def normalizeInvariantGlob (glob : Text) : Text := trimSlashes (hiwaterNormKey lc glob)

/-! ## Script strings -/

def utf16 (c : Char) : List UInt16 :=
  if c.toNat < 65536 then [c.toNat.toUInt16]
  else
    [(55296 + (c.toNat - 65536) / 1024).toUInt16, (56320 + (c.toNat - 65536) % 1024).toUInt16]

def units (t : Text) : List UInt16 := t.flatMap utf16

def star : UInt16 := 42

def question : UInt16 := 63

def slash : UInt16 := 47

def isWild (x : UInt16) : Bool := x = star || x = question

/-! ## Globs -/

def piece (x : UInt16) : Piece UInt16 :=
  if x = star then .many else if x = question then .one else .lit x

/-- What is left of a glob after `**`: a separator there is part of it. -/
def dropSlash : List UInt16 → List UInt16
  | [] => []
  | x :: t => if x = slash then t else x :: t

theorem length_dropSlash_le (t : List UInt16) : (dropSlash t).length ≤ t.length := by
  cases t with
  | nil => rfl
  | cons x t =>
    rw [dropSlash]
    split
    · exact Nat.le_succ _
    · exact le_rfl

/-- The regular expression that a glob with wildcards is turned into. -/
def compile : List UInt16 → List (Piece UInt16)
  | [] => []
  | [x] => [piece x]
  | x :: y :: t =>
    if x = star ∧ y = star then .all :: compile (dropSlash t) else piece x :: compile (y :: t)
termination_by g => g.length
decreasing_by
  · exact Nat.lt_succ_of_le (Nat.le_succ_of_le (length_dropSlash_le t))
  · exact Nat.lt_succ_self _

theorem compile_nil : compile [] = [] := by rw [compile]

theorem compile_all (t : List UInt16) :
    compile (star :: star :: t) = .all :: compile (dropSlash t) := by
  rw [compile, if_pos ⟨rfl, rfl⟩]

theorem compile_cons {x : UInt16} {t : List UInt16} (h : ¬(x = star ∧ t.head? = some star)) :
    compile (x :: t) = piece x :: compile t := by
  cases t with
  | nil => rw [compile, compile]
  | cons y t => rw [compile, if_neg fun hxy => h ⟨hxy.1, congrArg some hxy.2⟩]

/-- The path itself or anything under it. -/
def isUnder (g k : List UInt16) : Bool := k = g || (g ++ [slash]).isPrefixOf k

def globMatches (g : List UInt16) (canonPath normPath : List UInt16) : Bool :=
  if g = [] then false
  else if star ∉ g ∧ question ∉ g then isUnder g canonPath || isUnder g normPath
  else
    Wildcard.matchPieces slash (compile g) canonPath || Wildcard.matchPieces slash (compile g) normPath

def invariantMatches (glob : Text) (path : Text) : Bool :=
  globMatches (units (trimSlashes (hiwaterKey lc workdir glob))) (units (hiwaterKey lc workdir path))
    (units (hiwaterNormKey lc path))

/-! ## Refusals -/

/-- An entry of the registry; a glob that is no string is `none`. -/
structure Invariant where
  kind : String
  glob : Option Text
  source : Text
  scope : Text

inductive FileTool where
  | writeFile
  | editFile
  deriving DecidableEq

namespace FileTool
/-- The kinds of invariant a tool enforces; one against creation binds a writer where there is no
file. -/
def enforces (fileExists : Bool) : FileTool → Invariant → Bool
  | writeFile, inv => inv.kind = "read_only" || inv.kind = "no_create_under" && !fileExists
  | editFile, inv => inv.kind = "read_only"

def verb : FileTool → String
  | writeFile => "WRITE"
  | editFile => "EDIT"

def unchanged : FileTool → String
  | writeFile => ". Nothing was written and the file on disk is unchanged. "
  | editFile => ". Nothing was changed and the file on disk is intact. "
end FileTool

def refusalText (tool : FileTool) (path : Text) (inv : Invariant) (glob : Text) : Text :=
  let kind := inv.kind.toList
  tool.verb.toList ++ " REFUSED — ".toList ++ path ++
    " is under a path you declared off-limits".toList ++
    (if inv.kind = "no_create_under" then " for NEW files".toList else []) ++
    (if inv.source = [] then " (".toList ++ kind ++ " on `".toList ++ glob ++ "`)".toList
      else ": \"".toList ++ inv.source ++ "\"".toList) ++
    tool.unchanged.toList ++ "That is YOUR instruction (declared for ".toList ++
    (if inv.scope = [] then "session".toList else inv.scope) ++
    ("), not a tool limitation, and it stays in force until you lift it in chat. The fix " ++
      "belongs in the artifact you are producing — if something that READS ").toList ++ path ++
    " is failing, change the code it exercises, not ".toList ++ path ++
    ". If you believe this constraint genuinely blocks the goal, call lift_invariant with glob `".toList ++
    glob ++
    ("` — it asks the user and lifts the rule only on their yes — instead of working around " ++
      "it.").toList

/-- The refusal of the first invariant that forbids the change, if one does. -/
def invariantRefusal (tool : FileTool) (fileExists : Bool) (path : Text) :
    List Invariant → Option Text
  | [] => none
  | inv :: list =>
    match inv.glob with
    | some glob =>
      if tool.enforces fileExists inv && invariantMatches lc workdir glob path then
        some (refusalText tool path inv glob)
      else invariantRefusal tool fileExists path list
    | none => invariantRefusal tool fileExists path list

end Nanna.Scripting
