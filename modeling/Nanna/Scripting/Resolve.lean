import Nanna.Scripting.PathKey

/-!
# Which file a path string names

The bridge trims the string, expands `~`, joins a relative path onto the working directory and, when
the joined path does not exist, drops a prefix that repeats the tail of the working directory.
`fileOf` is the file that the resulting path names: the components from the root, without empty
ones, `.` and what `..` takes back.
-/

namespace Nanna.Scripting

open Nanna.Lib

/-- What the bridge asks of the system. -/
structure Host where
  workdir : Option Workdir
  home : Option Text
  /-- Where the process runs. -/
  cwd : Text
  exists_ : Text → Bool

def isRelative (path : Text) : Bool := path.head? ≠ some '/'

/-- `Path::join`: an absolute path replaces the base. -/
def join (base path : Text) : Text :=
  if isRelative path then if base.getLast? = some '/' then base ++ path else base ++ '/' :: path
  else path

/-- `Path::components`, the root left out: no empty ones, and `.` only in front. -/
def components (path : Text) : List Text :=
  match (path.splitOn '/').filter (· ≠ []) with
  | [] => []
  | c :: cs => (if c = ['.'] ∧ !isRelative path then [] else [c]) ++ cs.filter (· ≠ ['.'])

/-- `Path::parent`, for a path with a name at its end. -/
def parent (path : Text) : Option Text :=
  let cs := components path
  if cs = [] then none
  else
    some ((if isRelative path then [] else ['/']) ++ ['/'].intercalate cs.dropLast)

/-- The overlaps of a relative path with the tail of the working directory, the longest first; the
fallback is the first that would land beside existing files. -/
def repairOverlaps (exists_ : Text → Bool) (workdir literal : Text) (rel wd : List Text) :
    Option Text → List Nat → Option Text
  | fallback, [] => fallback
  | fallback, k :: ks =>
    if rel.take k ≠ wd.drop (wd.length - k) then
      repairOverlaps exists_ workdir literal rel wd fallback ks
    else
      let candidate := join workdir (['/'].intercalate (rel.drop k))
      if exists_ candidate then some candidate
      else
        let beside := (parent literal).any (fun p => !exists_ p) && (parent candidate).any exists_
        repairOverlaps exists_ workdir literal rel wd
          (fallback.or (if beside then some candidate else none)) ks

def repairRedundantPrefix (exists_ : Text → Bool) (rel workdir : Text) : Option Text :=
  let literal := join workdir rel
  if exists_ literal then none
  else
    let relParts := components rel
    let wdParts := components workdir
    let maxOverlap := min (relParts.length - 1) wdParts.length
    repairOverlaps exists_ workdir literal relParts wdParts none
      ((List.range maxOverlap).map (· + 1)).reverse

/-- What follows `~` or `~/`. -/
def afterTilde (path : Text) : Option Text :=
  match path with
  | ['~'] => some []
  | '~' :: '/' :: rest => some rest
  | '~' :: '\\' :: rest => some rest
  | _ => none

def resolvePath (host : Host) (path : Text) : Text :=
  let path := Text.trim path
  match afterTilde path, host.home with
  | some rest, some home => join home rest
  | _, _ =>
    if isRelative path ∧ path ≠ [] then
      match host.workdir, host.home with
      | some wd, _ =>
        (repairRedundantPrefix host.exists_ path wd.path).getD (join wd.path path)
      | none, some home => join home path
      | none, none => path
    else path

/-! ## The file -/

/-- Follow components from a directory. -/
def follow : List Text → List Text → List Text
  | dir, [] => dir
  | dir, c :: cs =>
    if c = [] ∨ c = ['.'] then follow dir cs
    else if c = ['.', '.'] then follow dir.dropLast cs
    else follow (dir ++ [c]) cs

/-- The file that a path string names, as its components from the root. -/
def fileOf (host : Host) (path : Text) : List Text :=
  follow [] ((join host.cwd (resolvePath host path)).splitOn '/')

def SameFile (host : Host) (p q : Text) : Prop := fileOf host p = fileOf host q

instance (host : Host) (p q : Text) : Decidable (SameFile host p q) :=
  inferInstanceAs (Decidable (_ = _))

end Nanna.Scripting
