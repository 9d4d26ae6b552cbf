import Nanna.Lib.Except
import Nanna.Lib.FirstMatch
import Nanna.Lib.Text
import Nanna.Tasks.Types

/-!
# The acceptance payload at the write boundary

`canonicalize_acceptance` brings a payload to the one form the store holds, and
`validate_acceptance` checks its fields; `admit_acceptance` is both. The JSON parser and the Unicode
tables of letters and digits come from outside (`Dialect`).

`normalizeIntegralTimeout_idem`: what is in canonical form stays as it is.
-/

namespace Nanna.Tasks

open Nanna.Lib

/-- What reading a payload takes from outside: the JSON parser, its complaints about a value that is
no check, and the Unicode classes of letters and of numerals. -/
structure Dialect where
  parse : Text → Option Json
  complaint : Json → String
  isAlphabetic : Char → Bool
  isNumeric : Char → Bool

def Dialect.isAlphanumeric (d : Dialect) (c : Char) : Bool := d.isAlphabetic c || d.isNumeric c

/-- Every canonical acceptance shape, quoted in every parse error. -/
def acceptanceShapes : String :=
  "`acceptance` must be a JSON OBJECT (not a string), exactly one of:\n" ++
  "  \x7b\"kind\":\"command\",\"command\":\"cargo test\"\x7d\n" ++
  "  \x7b\"kind\":\"file_exists\",\"path\":\"docs/plan.md\"\x7d\n" ++
  "  \x7b\"kind\":\"regex\",\"pattern\":\"0 failed\",\"path\":\"build.log\"\x7d\n" ++
  "  \x7b\"kind\":\"regex\",\"pattern\":\"0 failed\",\"command\":\"cargo test\"\x7d\n" ++
  "Optional on command and regex: \"timeout_secs\": <integer seconds>."

/-! ## A payload that arrived as a string -/

/-- Copy a JSON string through, escapes intact; the copy and what follows it. -/
def copyString : Text → Option (Text × Text)
  | [] => none
  | '"' :: cs => some (['"'], cs)
  | '\\' :: [] => none
  | '\\' :: c :: cs => (copyString cs).map fun (out, rest) => ('\\' :: c :: out, rest)
  | c :: cs => (copyString cs).map fun (out, rest) => (c :: out, rest)

/-- Rewrite a single-quoted string to double quotes. -/
def requote : Text → Option (Text × Text)
  | [] => none
  | '\'' :: cs => some (['"'], cs)
  | '\\' :: [] => none
  | '\\' :: c :: cs =>
    (requote cs).map fun (out, rest) => ((if c = '\'' then ['\''] else ['\\', c]) ++ out, rest)
  | '"' :: cs => (requote cs).map fun (out, rest) => ('\\' :: '"' :: out, rest)
  | c :: cs => (requote cs).map fun (out, rest) => (c :: out, rest)

section

variable (d : Dialect)

/-- A bare word: quoted as a key, copied as a literal, and otherwise a guess. -/
def repairWord (word rest : Text) : Option Text :=
  if (rest.find? fun c => !Text.isWhitespace c) = some ':' then some ('"' :: word ++ ['"'])
  else if word = "true".toList ∨ word = "false".toList ∨ word = "null".toList then some word
  else none

/-- The main loop; every turn takes a character, so the length is fuel enough. -/
def repairFrom : Nat → Text → Option Text
  | 0, _ | _, [] => some []
  | fuel + 1, '"' :: cs => do
    let (out, rest) ← copyString cs
    let repaired ← repairFrom fuel rest
    some ('"' :: out ++ repaired)
  | fuel + 1, '\'' :: cs => do
    let (out, rest) ← requote cs
    let repaired ← repairFrom fuel rest
    some ('"' :: out ++ repaired)
  | fuel + 1, c :: cs =>
    if d.isAlphabetic c || c == '_' then do
      let isWord := fun c => d.isAlphanumeric c || c == '_'
      let rest := cs.dropWhile isWord
      let out ← repairWord (c :: cs.takeWhile isWord) rest
      let repaired ← repairFrom fuel rest
      some (out ++ repaired)
    else do
      let repaired ← repairFrom fuel cs
      some (c :: repaired)

/-- `{kind: 'command'}` into strict JSON. -/
def repairJsObjectLiteral (text : Text) : Option Text := repairFrom d text.length text

def parseStringifiedAcceptance (text : Text) : Except String Json :=
  match d.parse text with
  | some value => .ok value
  | none =>
    match (repairJsObjectLiteral d text).bind d.parse with
    | some value => .ok value
    | none =>
      .error ("invalid acceptance check: it arrived as a string, and the text inside is not JSON. " ++
        acceptanceShapes)

end

/-! ## Canonical form -/

/-- The integer a double denotes when it is integral, non-negative and below 2^53. -/
def exactU64Below2Pow53 (bits : BitVec 64) : Option Nat :=
  if bits <<< 1 = 0 then some 0
  else if bits.msb then none
  else
    let exponent := bits.toNat / 2 ^ 52
    if exponent < 1023 ∨ 52 < exponent - 1023 then none
    else
      let significand := bits.toNat % 2 ^ 52 + 2 ^ 52
      let fractionShift := 52 - (exponent - 1023)
      if significand % 2 ^ fractionShift = 0 then some (significand / 2 ^ fractionShift) else none

/-- `Value::is_u64` -/
def isU64 : Json → Bool
  | .num (.int n) => decide (0 ≤ n ∧ n < 2 ^ 64)
  | _ => false

/-- An integer outside of u64 is negative, and no negative number is coerced. -/
def wholeTimeout : Json → Json
  | .num (.float bits) =>
    match exactU64Below2Pow53 bits with
    | some whole => .num (.int whole)
    | none => .num (.float bits)
  | timeout => timeout

def normalizeIntegralTimeout (kvs : List (String × Json)) : List (String × Json) :=
  modifyFirst (·.1 == "timeout_secs") (fun (key, timeout) => (key, wholeTimeout timeout)) kvs

def canonicalizeAcceptance (d : Dialect) : Json → Except String Json
  | .obj kvs => .ok (.obj (normalizeIntegralTimeout kvs))
  | .str text =>
    match parseStringifiedAcceptance d text.toList with
    | .error message => .error message
    | .ok (.obj kvs) => .ok (.obj (normalizeIntegralTimeout kvs))
    | .ok _ =>
      .error ("invalid acceptance check: it arrived as a string, and the text inside is not an " ++
        "object. " ++ acceptanceShapes)
  | _ => .error ("invalid acceptance check: " ++ acceptanceShapes)

/-! ## Validation -/

def requireStr (value : Json) (kind field : String) : Result Unit :=
  match (value.get field).bind Json.asStr with
  | some text =>
    if text = "" then .error (.invalid s!"acceptance kind '{kind}' requires a non-empty '{field}'")
    else .ok ()
  | none => .error (.invalid s!"acceptance kind '{kind}' requires a non-empty '{field}'")

def validateTimeout (value : Json) : Result Unit :=
  match value.get "timeout_secs" with
  | none => .ok ()
  | some timeout =>
    if isU64 timeout then .ok ()
    else .error (.invalid "acceptance 'timeout_secs' must be an unsigned integer (seconds)")

/-- A file or a command whose output is matched. -/
def requireTarget (value : Json) : Result Unit :=
  if ((value.get "path").bind Json.asStr).isNone && ((value.get "command").bind Json.asStr).isNone then
    .error (.invalid
      ("acceptance kind 'regex' needs something to match against — either a file: " ++
        "\x7b\"kind\":\"regex\",\"pattern\":\"0 failed\",\"path\":\"build.log\"\x7d or a command's " ++
        "output: \x7b\"kind\":\"regex\",\"pattern\":\"0 failed\",\"command\":\"cargo test\"\x7d"))
  else .ok ()

def validateKind (value : Json) : String → Result Unit
  | "command" => requireStr value "command" "command"
  | "file_exists" => requireStr value "file_exists" "path"
  | "regex" => do
    requireStr value "regex" "pattern"
    requireTarget value
  | other =>
    .error (.invalid s!"unknown acceptance kind '{other}' (expected command|file_exists|regex)")

def validateAcceptance (value : Json) : Result Unit :=
  match (value.get "kind").bind Json.asStr with
  | none => .error (.invalid "acceptance requires a 'kind' of command|file_exists|regex")
  | some kind => do
    validateTimeout value
    validateKind value kind

def admitAcceptance (d : Dialect) (value : Json) : Result Json :=
  match canonicalizeAcceptance d value with
  | .error message => .error (.invalid message)
  | .ok canonical => do
    validateAcceptance canonical
    .ok canonical

/-! ## What is canonical stays -/

theorem wholeTimeout_idem (timeout : Json) :
    wholeTimeout (wholeTimeout timeout) = wholeTimeout timeout := by
  rcases timeout with _ | _ | (n | bits) | _ | _ | _
  case num.float =>
    have hfloat : wholeTimeout (.num (.float bits)) =
        match exactU64Below2Pow53 bits with
        | some whole => .num (.int whole)
        | none => .num (.float bits) := rfl
    cases hwhole : exactU64Below2Pow53 bits with
    | some whole => rw [hfloat, hwhole]; rfl
    | none => rw [hfloat, hwhole, hfloat, hwhole]
  all_goals rfl

theorem normalizeIntegralTimeout_idem (kvs : List (String × Json)) :
    normalizeIntegralTimeout (normalizeIntegralTimeout kvs) = normalizeIntegralTimeout kvs :=
  modifyFirst_idem fun (key, timeout) hkey =>
    ⟨hkey, congrArg (Prod.mk key) (wholeTimeout_idem timeout)⟩

/-- What comes out of the write boundary's normal form is an object in normal form. -/
theorem canonicalizeAcceptance_idem {d : Dialect} {value canonical : Json}
    (h : canonicalizeAcceptance d value = .ok canonical) :
    canonicalizeAcceptance d canonical = .ok canonical := by
  have hobject : ∀ kvs, canonicalizeAcceptance d (.obj (normalizeIntegralTimeout kvs)) =
      .ok (.obj (normalizeIntegralTimeout kvs)) := fun kvs => by
    rw [canonicalizeAcceptance, normalizeIntegralTimeout_idem]
  unfold canonicalizeAcceptance at h
  split at h
  · cases h
    exact hobject _
  · split at h
    · cases h
    · cases h
      exact hobject _
    · cases h
  · cases h

/-! ## What validation asks -/

/-- The member is a string. -/
def isText (member : Option Json) : Bool := (member.bind Json.asStr).isSome

/-- The member is a string that says something. -/
def isFilled (member : Option Json) : Bool := isText member && decide (member ≠ some (.str ""))

/-- `timeout_secs` is absent or an unsigned integer. -/
def timeoutAdmitted (member : Option Json) : Bool := member.all isU64

theorem requireStr_ok {value : Json} {kind field : String} :
    requireStr value kind field = .ok () ↔ isFilled (value.get field) = true := by
  unfold requireStr isFilled isText
  rcases value.get field with _ | (_ | _ | _ | text | _ | _)
  case some.str =>
    by_cases htext : text = "" <;> simp [Json.asStr, htext]
  all_goals simp [Json.asStr]

theorem validateTimeout_ok {value : Json} :
    validateTimeout value = .ok () ↔ timeoutAdmitted (value.get "timeout_secs") = true := by
  unfold validateTimeout timeoutAdmitted
  cases value.get "timeout_secs" with
  | none => simp
  | some timeout => by_cases htimeout : isU64 timeout <;> simp [htimeout]

theorem requireTarget_ok {value : Json} :
    requireTarget value = .ok () ↔
      isText (value.get "path") = true ∨ isText (value.get "command") = true := by
  unfold requireTarget isText
  cases (value.get "path").bind Json.asStr <;> cases (value.get "command").bind Json.asStr <;> simp

theorem validateKind_ok {value : Json} {kind : String} :
    validateKind value kind = .ok () ↔
      (kind = "command" ∧ isFilled (value.get "command") = true) ∨
      (kind = "file_exists" ∧ isFilled (value.get "path") = true) ∨
      (kind = "regex" ∧ isFilled (value.get "pattern") = true ∧
        (isText (value.get "path") = true ∨ isText (value.get "command") = true)) := by
  unfold validateKind
  split
  · simp [requireStr_ok]
  · simp [requireStr_ok]
  · rw [check_bind_eq_ok, requireStr_ok, requireTarget_ok]
    simp
  · simp_all

/-- Validation as a condition on the members. -/
theorem validateAcceptance_ok {value : Json} :
    validateAcceptance value = .ok () ↔
      timeoutAdmitted (value.get "timeout_secs") = true ∧
      ∃ kind, value.get "kind" = some (.str kind) ∧ validateKind value kind = .ok () := by
  unfold validateAcceptance
  rcases value.get "kind" with _ | (_ | _ | _ | kind | _ | _)
  case some.str =>
    show (validateTimeout value >>= fun _ => validateKind value kind) = .ok () ↔ _
    rw [check_bind_eq_ok, validateTimeout_ok]
    simp
  all_goals simp [Json.asStr]

end Nanna.Tasks
