import Nanna.Lib.Json
import Nanna.Lib.Occurrence

/-!
# Healing JSON

`healJson` salvages a JSON value from a model's output: as it stands, without a code fence, from its
first balanced span, and repaired. Parsing is `parse`. What parses once it is trimmed is read as it
stands (`healJson_of_parse`).
-/

namespace Nanna.Llm

open Nanna.Lib Nanna.Lib.Text

/-! ## Control characters -/

def hexDigit (n : Nat) : Char := "0123456789abcdef".toList.getD n '0'

/-- The escape of a control character. -/
def escapeControl (c : Char) : Text :=
  if c = '\t' then "\\t".toList
  else if c = '\n' then "\\n".toList
  else if c = '\r' then "\\r".toList
  else "\\u00".toList ++ [hexDigit (c.toNat / 16), hexDigit (c.toNat % 16)]

/-- Escape what is bare inside strings; whether anything was. -/
def escapeFrom (inString escaped : Bool) : Text → Text × Bool
  | [] => ([], false)
  | c :: cs =>
    if ! inString then
      let (out, changed) := escapeFrom (c = '"') false cs
      (c :: out, changed)
    else if escaped then
      let (out, changed) := escapeFrom true false cs
      (c :: out, changed)
    else if c = '\\' then
      let (out, changed) := escapeFrom true true cs
      (c :: out, changed)
    else if c = '"' then
      let (out, changed) := escapeFrom false false cs
      (c :: out, changed)
    else if c.toNat < 0x20 then (escapeControl c ++ (escapeFrom true false cs).1, true)
    else
      let (out, changed) := escapeFrom true false cs
      (c :: out, changed)

def escapeBareControlsInStrings (s : Text) : Option Text :=
  let (out, changed) := escapeFrom false false s
  if changed then some out else none

/-! ## Fences and spans -/

def stripCodeFence (s : Text) : Text :=
  let t := trim s
  let fence := "\x60\x60\x60".toList
  if ! fence.isPrefixOf t then t
  else
    let rest := ((t.dropPrefix? (fence ++ "json".toList)).or
      ((t.dropPrefix? (fence ++ "JSON".toList)).or (t.dropPrefix? fence))).getD t
    trim (if fence.isSuffixOf rest then rest.take (rest.length - fence.length) else rest)

/-- The text up to the bracket that closes the first one. -/
def spanFrom (opener closer : Char) (depth : Nat) (inString escape : Bool) : Text → Option Text
  | [] => none
  | c :: cs =>
    if inString then
      (spanFrom opener closer depth (escape || c ≠ '"') (! escape && c = '\\') cs).map (c :: ·)
    else if c = '"' then (spanFrom opener closer depth true false cs).map (c :: ·)
    else if c = opener then (spanFrom opener closer (depth + 1) false false cs).map (c :: ·)
    else if c = closer then
      if depth = 1 then some [c]
      else (spanFrom opener closer (depth - 1) false false cs).map (c :: ·)
    else (spanFrom opener closer depth false false cs).map (c :: ·)

/-- The first top-level span of an object or array, to the end where it is not closed. -/
def extractJsonSpan (s : Text) : Option Text :=
  match s.dropWhile fun c => c ≠ '\x7b' ∧ c ≠ '[' with
  | [] => none
  | c :: cs =>
    let closer := if c = '\x7b' then '\x7d' else ']'
    some ((spanFrom c closer 0 false false (c :: cs)).getD (trimEnd (c :: cs)))

/-! ## Repairs -/

/-- A string in single quotes, as one in double quotes, and the text after it. -/
def singleQuoted (previous : Char) : Text → Text × Text
  | [] => ([], [])
  | c :: cs =>
    if c = '\'' ∧ previous ≠ '\\' then (['"'], cs)
    else
      let (out, rest) := singleQuoted c cs
      ((if c = '"' then "\\\"".toList else [c]) ++ out, rest)

def isWordChar (c : Char) : Bool := c.isAlphanum || c = '_' || c = '-'

theorem singleQuoted_length (previous : Char) (cs : Text) :
    (singleQuoted previous cs).2.length ≤ cs.length := by
  induction cs generalizing previous with
  | nil => exact Nat.le_refl 0
  | cons c cs ih =>
    rw [singleQuoted]
    split
    · exact Nat.le_succ _
    · exact Nat.le_succ_of_le (ih c)

/-- Quote single-quoted strings and bare keys, and drop trailing commas. -/
def repairFrom (inString escape : Bool) : Text → Text
  | [] => []
  | c :: cs =>
    if inString then c :: repairFrom (escape || c ≠ '"') (! escape && c = '\\') cs
    else if c = '"' then c :: repairFrom true false cs
    else if c = '\'' then
      '"' :: (singleQuoted c cs).1 ++ repairFrom false false (singleQuoted c cs).2
    else if c = ',' then
      match trimStart cs with
      | '\x7d' :: _ | ']' :: _ => repairFrom false false cs
      | _ => c :: repairFrom false false cs
    else if c.isAlpha || c = '_' then
      let word := c :: cs.takeWhile isWordChar
      let rest := cs.dropWhile isWordChar
      match trimStart rest with
      | ':' :: _ => '"' :: word ++ '"' :: repairFrom false false rest
      | _ => word ++ repairFrom false false rest
    else c :: repairFrom false false cs
termination_by s => s.length
decreasing_by
  all_goals
    have hquoted := singleQuoted_length c cs
    have hword := (List.dropWhile_sublist (l := cs) isWordChar).length_le
    simp only [List.length_cons]
    omega

/-- What is open at the end of a text: a string, arrays, objects. -/
structure Unclosed where
  arrays : Int := 0
  objects : Int := 0
  inString : Bool := false
  escape : Bool := false
  deriving DecidableEq

def Unclosed.read (u : Unclosed) (c : Char) : Unclosed :=
  if u.inString then
    { u with inString := u.escape || c ≠ '"', escape := ! u.escape && c = '\\' }
  else if c = '"' then { u with inString := true }
  else if c = '\x7b' then { u with objects := u.objects + 1 }
  else if c = '\x7d' then { u with objects := u.objects - 1 }
  else if c = '[' then { u with arrays := u.arrays + 1 }
  else if c = ']' then { u with arrays := u.arrays - 1 }
  else u

/-- Close a string, then the arrays, then the objects. -/
def closeUnbalanced (out : Text) : Text :=
  let u := out.foldl Unclosed.read {}
  out ++ (if u.inString then ['"'] else []) ++ List.replicate u.arrays.toNat ']' ++
    List.replicate u.objects.toNat '\x7d'

def repairCommon (s : Text) : Text := closeUnbalanced (repairFrom false false s)

/-! ## The attempts -/

variable (parse : Text → Option Json)

/-- A strict parse, then one with bare control characters escaped. -/
def parseLenient (s : Text) : Option Json :=
  (parse s).or ((escapeBareControlsInStrings s).bind parse)

def healJson (input : Text) : Option Json :=
  let trimmed := trim input
  if trimmed.isEmpty then none
  else
    let unfenced := stripCodeFence trimmed
    let span := extractJsonSpan unfenced
    (parseLenient parse trimmed).or
      ((if unfenced ≠ trimmed then parseLenient parse unfenced else none).or
        ((span.bind fun span =>
            (parseLenient parse span).or (parseLenient parse (repairCommon span))).or
          (parseLenient parse (repairCommon unfenced))))

/-- The arguments of a tool call: an object, or a value in one. -/
def healToolArgs (input : Text) : Json :=
  match healJson parse input with
  | some (.obj kvs) => .obj kvs
  | some other => .obj [("value", other)]
  | none => .obj []

variable {parse} {input : Text} {value : Json}

theorem healJson_of_parse (hne : trim input ≠ []) (h : parse (trim input) = some value) :
    healJson parse input = some value := by
  rw [healJson, if_neg (by simpa using hne), parseLenient, h]
  rfl

end Nanna.Llm
