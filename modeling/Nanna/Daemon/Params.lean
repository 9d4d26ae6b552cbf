import Nanna.Harness.Acceptance
import Nanna.Lib.Decimal

/-!
# The parameters of the task services

Every parameter is JSON written by a model. A reader tells apart a parameter that was not supplied
(absent or null), one it can read, and one it cannot, which is an error that quotes what arrived.
-/

namespace Nanna.Daemon

open Nanna.Lib Nanna.Tasks Nanna.Harness

/-- What reading takes from outside: the JSON parser and the Unicode tables, the parser of doubles, how
a number is shown, and lower case. -/
structure Reading where
  dialect : Dialect
  parseF64 : Text → Option (BitVec 64)
  showNumber : JsonNumber → String
  toLower : Text → Text

abbrev ParamResult (α : Type) := Except String (Option α)

/-! ## Values -/

def paramPreviewChars : Nat := 48

/-- The value in an error message. -/
def describeValue (reading : Reading) : Json → String
  | .null => "null"
  | .bool b => s!"boolean {b}"
  | .num n => "number " ++ reading.showNumber n
  | .str s =>
    let preview := String.ofList (s.toList.take paramPreviewChars) ++
      if paramPreviewChars < s.length then "…" else ""
    "string \"" ++ preview ++ "\""
  | .arr items => s!"an array of {items.length} item(s)"
  | .obj _ => "an object"

def i64Min : Int := -2 ^ 63

def i64Max : Int := 2 ^ 63 - 1

/-- `str::parse` at `i64`. -/
def parseI64 (t : Text) : Option Int :=
  match t with
  | '-' :: digits => (readDigits (2 ^ 63 + 1) digits).map fun n => -(n : Int)
  | _ => (parseUnsigned (2 ^ 63) t).map fun n => (n : Int)

/-- The magnitude of a finite double, where it is whole. -/
def wholeMagnitude (exponent fraction : Nat) : Option Nat :=
  if exponent = 0 then if fraction = 0 then some 0 else none
  else
    let significand := 2 ^ 52 + fraction
    if 1075 ≤ exponent then some (significand * 2 ^ (exponent - 1075))
    else
      let scale := 2 ^ (1075 - exponent)
      if significand % scale = 0 then some (significand / scale) else none

def f64ExactIntMax : Nat := 2 ^ 53

/-- A whole double of at most 2^53. -/
def wholeF64ToI64 (bits : BitVec 64) : Option Int :=
  let exponent := bits.toNat / 2 ^ 52 % 2 ^ 11
  if exponent = 2047 then none
  else
    (wholeMagnitude exponent (bits.toNat % 2 ^ 52)).bind fun n =>
      if n ≤ f64ExactIntMax then some (if bits.msb then -(n : Int) else n) else none

/-- An integer above the range of `i64` is a double above 2^53. -/
def asI64Lenient (reading : Reading) : Json → Option Int
  | .num (.int n) => if i64Min ≤ n ∧ n ≤ i64Max then some n else none
  | .num (.float bits) => wholeF64ToI64 bits
  | .str s =>
    let text := Text.trim s.toList
    if text.isEmpty then none
    else (parseI64 text).or ((reading.parseF64 text).bind wholeF64ToI64)
  | _ => none

def asBoolLenient : Json → Option Bool
  | .bool b => some b
  | .str s =>
    let text := (Text.trim s.toList).map Char.toLower
    if text = "true".toList then some true
    else if text = "false".toList then some false
    else none
  | _ => none

/-- A list, or a string that holds one. -/
def unwrapArray (reading : Reading) : Json → Option (List Json)
  | .arr items => some items
  | .str s => (reading.dialect.parse (Text.trim s.toList)).bind (·.asArray)
  | _ => none

/-! ## Readers -/

variable (reading : Reading) (params : Json) (key : String)

/-- A parameter that was supplied. -/
def supplied : Option Json := (params.get key).filter fun value => value ≠ .null

/-- Read what was supplied, or say what arrived. -/
def readParam {α : Type} (read : Json → Except String α) : ParamResult α :=
  match supplied params key with
  | none => .ok none
  | some value => (read value).map some

def orError {α : Type} (message : String) : Option α → Except String α
  | some a => .ok a
  | none => .error message

def optI64 : ParamResult Int :=
  readParam params key fun value => orError
    (key ++ " must be an integer (got " ++ describeValue reading value ++
      "). Pass a number, e.g. \x7b\"" ++ key ++ "\": 42\x7d — the digits as a string (\"42\") are " ++
      "accepted too.")
    (asI64Lenient reading value)

def reqI64 : Except String Int := do
  let value ← optI64 reading params key
  orError (key ++ " is required") value

def optBool : ParamResult Bool :=
  readParam params key fun value => orError
    (key ++ " must be true or false (got " ++ describeValue reading value ++ ").")
    (asBoolLenient value)

/-- Read every element, or say which one cannot be read. -/
def readItems {α : Type} (read : Nat → Json → Except String α) (items : List Json) :
    Except String (List α) :=
  items.zipIdx.mapM fun (item, index) => read index item

def optI64Vec : ParamResult (List Int) :=
  readParam params key fun value => do
    let items ← orError
      (key ++ " must be a list of task ids (got " ++ describeValue reading value ++
        "). Pass an array, e.g. \x7b\"" ++ key ++ "\": [12, 34]\x7d — the array as a JSON string " ++
        "(\"[12, 34]\") is accepted too.")
      (unwrapArray reading value)
    readItems (fun index item => orError
      (s!"{key}[{index}] must be a task id (got " ++ describeValue reading item ++
        "). Every entry has to be an integer, e.g. \x7b\"" ++ key ++ "\": [12, 34]\x7d.")
      (asI64Lenient reading item)) items

/-- The text of a scalar. -/
def itemText : Json → Option String
  | .str s => some s
  | .num n => some (reading.showNumber n)
  | .bool b => some (toString b)
  | _ => none

def optStringVec : ParamResult (List String) :=
  readParam params key fun value => do
    let items ← orError
      (key ++ " must be a list of strings (got " ++ describeValue reading value ++
        "). Pass an array, e.g. \x7b\"" ++ key ++ "\": [\"one\", \"two\"]\x7d — the array as a JSON " ++
        "string (\"[\\\"one\\\"]\") is accepted too.")
      (unwrapArray reading value)
    readItems (fun index item => orError
      (s!"{key}[{index}] must be text (got " ++ describeValue reading item ++
        "). Every entry has to be a string, e.g. \x7b\"" ++ key ++ "\": [\"one\", \"two\"]\x7d.")
      (itemText reading item)) items

/-- A string that says something; any other value is as if it were absent. -/
def optString : Option String := ((params.get key).bind (·.asStr)).filter (· ≠ "")

/-- A string, as the value of a field that can be cleared. -/
def optField : Option (Option String) := ((params.get key).bind (·.asStr)).map some

def canonicalAcceptance : ParamResult Json :=
  readParam params "acceptance" (AcceptanceCheck.canonicalize reading.dialect)

end Nanna.Daemon
