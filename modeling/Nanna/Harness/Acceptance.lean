import Nanna.Harness.Types
import Nanna.Tasks.Acceptance

/-!
# Acceptance checks between the store and the harness

The store validates a payload field by field; the harness reads it with a derived deserializer and
writes it back the same way. `agree_iff`: on a payload the two agree exactly if its canonical form
is neither a regex check whose second target has the wrong type (`mistargeted`), which the store
admits and the harness cannot read, nor a check that says nothing (`hollow`), which the harness
reads and the store refuses.

Both sides are turned into conditions on the members of the object (`validateAcceptance_ok`, the
lemmas `isSome_fromValue_…`), and compared there (`mistargeted_iff`, `hollow_iff`).
-/

namespace Nanna.Harness

open Nanna.Lib Nanna.Tasks

/-! ## The reader -/

namespace AcceptanceCheck

/-- A `String` field. -/
def textOf : Option Json → Option Text
  | some (.str s) => some s.toList
  | _ => none

/-- An `Option<String>` field: absent and null are the same. -/
def optionalText : Option Json → Option (Option Text)
  | none | some .null => some none
  | some (.str s) => some (some s.toList)
  | some _ => none

/-- An `Option<u64>` field. -/
def optionalSeconds : Option Json → Option (Option UInt64)
  | none | some .null => some none
  | some (.num (.int n)) =>
    if 0 ≤ n ∧ n < 2 ^ 64 then some (some (UInt64.ofNat n.toNat)) else none
  | some _ => none

/-- The derived deserializer of the enum tagged by `kind`; unknown members are passed over. -/
def fromValue (value : Json) : Option AcceptanceCheck :=
  match (value.get "kind").bind Json.asStr with
  | some "command" => do
    let cmd ← textOf (value.get "command")
    let timeoutSecs ← optionalSeconds (value.get "timeout_secs")
    some (.command cmd timeoutSecs)
  | some "file_exists" => do
    let path ← textOf (value.get "path")
    some (.fileExists path)
  | some "regex" => do
    let pattern ← textOf (value.get "pattern")
    let path ← optionalText (value.get "path")
    let cmd ← optionalText (value.get "command")
    let timeoutSecs ← optionalSeconds (value.get "timeout_secs")
    some (.regex pattern path cmd timeoutSecs)
  | _ => none

def fromJson (d : Dialect) (value : Json) : Except String AcceptanceCheck :=
  match canonicalizeAcceptance d value with
  | .error message => .error message
  | .ok canonical =>
    match fromValue canonical with
    | some check => .ok check
    | none =>
      .error ("invalid acceptance check: " ++ d.complaint canonical ++ ". " ++ acceptanceShapes)

/-! ## The writer -/

def textMember (key : String) (text : Text) : String × Json := (key, .str (String.ofList text))

/-- `skip_serializing_if = "Option::is_none"` -/
def textMember? (key : String) : Option Text → List (String × Json)
  | none => []
  | some text => [textMember key text]

def secondsMember? : Option UInt64 → List (String × Json)
  | none => []
  | some seconds => [("timeout_secs", .num (.int seconds.toNat))]

/-- The derived serializer; the members of an object are ordered by key. -/
def toValue : AcceptanceCheck → Json
  | .command cmd timeoutSecs =>
    .obj ([textMember "command" cmd, ("kind", .str "command")] ++ secondsMember? timeoutSecs)
  | .fileExists path => .obj [("kind", .str "file_exists"), textMember "path" path]
  | .regex pattern path cmd timeoutSecs =>
    .obj (textMember? "command" cmd ++ [("kind", .str "regex")] ++ textMember? "path" path ++
      [textMember "pattern" pattern] ++ secondsMember? timeoutSecs)

def canonicalize (d : Dialect) (value : Json) : Except String Json :=
  match fromJson d value with
  | .error message => .error message
  | .ok check => .ok check.toValue

end AcceptanceCheck

open AcceptanceCheck

/-! ## What agreement is -/

/-- What the store holds the harness reads, and what the harness writes the store holds as it is. -/
def Agree (d : Dialect) (value : Json) : Prop :=
  (∀ c, admitAcceptance d value = .ok c → ∃ check, fromJson d c = .ok check) ∧
    ∀ c, canonicalize d value = .ok c → admitAcceptance d c = .ok c

/-- The member is absent or null. -/
def isUnset (member : Option Json) : Bool := decide (member = none ∨ member = some .null)

/-- The member can stand for an optional string. -/
def isReadable (member : Option Json) : Bool := isUnset member || isText member

/-- A regex check that validation admits by one target, while the other has the wrong type. -/
def mistargeted (value : Json) : Bool :=
  decide (value.get "kind" = some (.str "regex")) && isFilled (value.get "pattern") &&
    timeoutAdmitted (value.get "timeout_secs") &&
    ((isText (value.get "path") && !isReadable (value.get "command")) ||
      (isText (value.get "command") && !isReadable (value.get "path")))

/-- The member can stand for optional seconds. -/
def isTimed (member : Option Json) : Bool := isUnset member || timeoutAdmitted member

/-- A well-typed check that says nothing: an empty command, path or pattern, or a regex without a
target. -/
def hollow (value : Json) : Bool :=
  (decide (value.get "kind" = some (.str "command")) &&
      decide (value.get "command" = some (.str "")) && isTimed (value.get "timeout_secs")) ||
    (decide (value.get "kind" = some (.str "file_exists")) &&
      decide (value.get "path" = some (.str ""))) ||
    (decide (value.get "kind" = some (.str "regex")) && isText (value.get "pattern") &&
      isReadable (value.get "path") && isReadable (value.get "command") &&
      isTimed (value.get "timeout_secs") &&
      (decide (value.get "pattern" = some (.str "")) ||
        (isUnset (value.get "path") && isUnset (value.get "command"))))

/-! ## Reading member by member -/

section

variable {value : Json} {member : Option Json} {text : Text}

theorem isSome_textOf : (textOf member).isSome = isText member := by
  rcases member with _ | (_ | _ | _ | _ | _ | _) <;> rfl

theorem isSome_optionalText : (optionalText member).isSome = isReadable member := by
  rcases member with _ | (_ | _ | _ | _ | _ | _) <;> rfl

theorem isSome_optionalSeconds : (optionalSeconds member).isSome = isTimed member := by
  rcases member with _ | (_ | _ | (n | _) | _ | _ | _)
  case some.num.int =>
    rw [isTimed, show isUnset (some (.num (.int n))) = false from decide_eq_false (by simp),
      Bool.false_or]
    show (if 0 ≤ n ∧ n < 2 ^ 64 then some (some (UInt64.ofNat n.toNat)) else none).isSome =
      decide (0 ≤ n ∧ n < 2 ^ 64)
    split
    · rename_i hn
      exact (decide_eq_true hn).symm
    · rename_i hn
      exact (decide_eq_false hn).symm
  all_goals rfl

theorem textOf_eq_some : textOf member = some text ↔ member = some (.str (String.ofList text)) := by
  rcases member with _ | (_ | _ | _ | s | _ | _)
  case some.str =>
    simp only [textOf, Option.some.injEq, Json.str.injEq]
    exact ⟨fun h => by rw [← h, String.ofList_toList], fun h => by rw [h, String.toList_ofList]⟩
  all_goals simp [textOf]

theorem optionalText_eq_none : optionalText member = some none ↔ isUnset member = true := by
  rcases member with _ | (_ | _ | _ | _ | _ | _) <;> simp [optionalText, isUnset]

/-! ## Reading by kind -/

theorem fromValue_command (hkind : value.get "kind" = some (.str "command")) :
    fromValue value = (textOf (value.get "command")).bind fun cmd =>
      (optionalSeconds (value.get "timeout_secs")).bind fun timeoutSecs =>
        some (.command cmd timeoutSecs) := by
  unfold fromValue
  rw [hkind]
  rfl

theorem fromValue_fileExists (hkind : value.get "kind" = some (.str "file_exists")) :
    fromValue value = (textOf (value.get "path")).bind fun path => some (.fileExists path) := by
  unfold fromValue
  rw [hkind]
  rfl

theorem fromValue_regex (hkind : value.get "kind" = some (.str "regex")) :
    fromValue value = (textOf (value.get "pattern")).bind fun pattern =>
      (optionalText (value.get "path")).bind fun path =>
        (optionalText (value.get "command")).bind fun cmd =>
          (optionalSeconds (value.get "timeout_secs")).bind fun timeoutSecs =>
            some (.regex pattern path cmd timeoutSecs) := by
  unfold fromValue
  rw [hkind]
  rfl

theorem kind_of_fromValue {check : AcceptanceCheck} (h : fromValue value = some check) :
    value.get "kind" = some (.str "command") ∨ value.get "kind" = some (.str "file_exists") ∨
      value.get "kind" = some (.str "regex") := by
  unfold fromValue at h
  rcases hkind : value.get "kind" with _ | (_ | _ | _ | kind | _ | _) <;> rw [hkind] at h
  case some.str =>
    simp only [Option.bind_some, Json.asStr] at h
    split at h
    · simp_all
    · simp_all
    · simp_all
    · cases h
  all_goals cases h

theorem isSome_fromValue_command (hkind : value.get "kind" = some (.str "command")) :
    (fromValue value).isSome =
      (isText (value.get "command") && isTimed (value.get "timeout_secs")) := by
  rw [fromValue_command hkind, ← isSome_textOf, ← isSome_optionalSeconds]
  cases textOf (value.get "command") <;> cases optionalSeconds (value.get "timeout_secs") <;> rfl

theorem isSome_fromValue_fileExists (hkind : value.get "kind" = some (.str "file_exists")) :
    (fromValue value).isSome = isText (value.get "path") := by
  rw [fromValue_fileExists hkind, ← isSome_textOf]
  cases textOf (value.get "path") <;> rfl

theorem isSome_fromValue_regex (hkind : value.get "kind" = some (.str "regex")) :
    (fromValue value).isSome = (isText (value.get "pattern") && isReadable (value.get "path") &&
      isReadable (value.get "command") && isTimed (value.get "timeout_secs")) := by
  rw [fromValue_regex hkind, ← isSome_textOf, ← isSome_optionalSeconds, ← isSome_optionalText,
    ← isSome_optionalText]
  cases textOf (value.get "pattern") <;> cases optionalText (value.get "path") <;>
    cases optionalText (value.get "command") <;>
    cases optionalSeconds (value.get "timeout_secs") <;> rfl

/-! ## What the store admits and the harness cannot read -/

theorem isText_of_isFilled (h : isFilled member = true) : isText member = true :=
  (Bool.and_eq_true_iff.mp h).1

theorem isTimed_of_admitted (h : timeoutAdmitted member = true) : isTimed member = true := by
  rw [isTimed, h, Bool.or_true]

theorem mistargeted_iff :
    mistargeted value = true ↔ validateAcceptance value = .ok () ∧ fromValue value = none := by
  rw [← Option.not_isSome_iff_eq_none]
  constructor
  · intro h
    simp only [mistargeted, Bool.and_eq_true, Bool.or_eq_true, decide_eq_true_eq,
      Bool.not_eq_true'] at h
    obtain ⟨⟨⟨hkind, hpattern⟩, htimeout⟩, htarget⟩ := h
    have hkindOk : validateKind value "regex" = .ok () :=
      validateKind_ok.mpr (.inr (.inr ⟨rfl, hpattern, htarget.imp And.left And.left⟩))
    refine ⟨validateAcceptance_ok.mpr ⟨htimeout, "regex", hkind, hkindOk⟩, ?_⟩
    rw [isSome_fromValue_regex hkind]
    rcases htarget with ⟨_, hcommand⟩ | ⟨_, hpath⟩
    · simp [hcommand]
    · simp [hpath]
  · rintro ⟨hvalid, hnone⟩
    obtain ⟨htimeout, kind, hkind, hkindOk⟩ := validateAcceptance_ok.mp hvalid
    have htimed := isTimed_of_admitted htimeout
    rcases validateKind_ok.mp hkindOk with ⟨rfl, hcommand⟩ | ⟨rfl, hpath⟩ | ⟨rfl, hpattern, htarget⟩
    · rw [isSome_fromValue_command hkind, isText_of_isFilled hcommand, htimed] at hnone
      exact absurd rfl hnone
    · rw [isSome_fromValue_fileExists hkind, isText_of_isFilled hpath] at hnone
      exact absurd rfl hnone
    · rw [isSome_fromValue_regex hkind, isText_of_isFilled hpattern, htimed, Bool.true_and,
        Bool.and_true] at hnone
      simp only [mistargeted, hkind, hpattern, htimeout, decide_true, Bool.true_and]
      rcases htarget with hpath | hcommand
      · have hreadable : isReadable (value.get "path") = true := by rw [isReadable, hpath, Bool.or_true]
        simpa [hpath, hreadable] using hnone
      · have hreadable : isReadable (value.get "command") = true := by
          rw [isReadable, hcommand, Bool.or_true]
        simpa [hcommand, hreadable] using hnone

/-! ## What the harness reads and the store refuses -/

/-- The check names something to run, to find or to match. -/
def AcceptanceCheck.speaks : AcceptanceCheck → Bool
  | .command cmd _ => decide (cmd ≠ [])
  | .fileExists path => decide (path ≠ [])
  | .regex pattern path cmd _ => decide (pattern ≠ []) && (path.isSome || cmd.isSome)

theorem textOf_eq_nil : textOf member = some [] ↔ member = some (.str "") := textOf_eq_some

theorem hollow_iff :
    hollow value = true ↔ ∃ check, fromValue value = some check ∧ check.speaks = false := by
  have hseconds : ∀ {t}, optionalSeconds (value.get "timeout_secs") = some t →
      isTimed (value.get "timeout_secs") = true := fun ht => by
    rw [← isSome_optionalSeconds, ht]
    rfl
  constructor
  · intro h
    simp only [hollow, Bool.or_eq_true, Bool.and_eq_true, decide_eq_true_eq] at h
    rcases h with (⟨⟨hkind, hcommand⟩, htimed⟩ | ⟨hkind, hpath⟩) |
      ⟨⟨⟨⟨⟨hkind, hpattern⟩, hpath⟩, hcommand⟩, htimed⟩, hempty⟩
    · obtain ⟨t, ht⟩ := Option.isSome_iff_exists.mp (isSome_optionalSeconds.trans htimed)
      refine ⟨.command [] t, ?_, rfl⟩
      rw [fromValue_command hkind, textOf_eq_nil.mpr hcommand, ht]
      rfl
    · refine ⟨.fileExists [], ?_, rfl⟩
      rw [fromValue_fileExists hkind, textOf_eq_nil.mpr hpath]
      rfl
    · obtain ⟨t, ht⟩ := Option.isSome_iff_exists.mp (isSome_optionalSeconds.trans htimed)
      obtain ⟨pattern, hread⟩ := Option.isSome_iff_exists.mp (isSome_textOf.trans hpattern)
      obtain ⟨path, hreadPath⟩ := Option.isSome_iff_exists.mp (isSome_optionalText.trans hpath)
      obtain ⟨cmd, hreadCmd⟩ := Option.isSome_iff_exists.mp (isSome_optionalText.trans hcommand)
      refine ⟨.regex pattern path cmd t, ?_, ?_⟩
      · rw [fromValue_regex hkind, hread, hreadPath, hreadCmd, ht]
        rfl
      · rcases hempty with hnil | ⟨hnoPath, hnoCmd⟩
        · rw [textOf_eq_nil.mpr hnil] at hread
          cases hread
          rfl
        · rw [optionalText_eq_none.mpr hnoPath] at hreadPath
          rw [optionalText_eq_none.mpr hnoCmd] at hreadCmd
          cases hreadPath
          cases hreadCmd
          exact Bool.and_false _
  · rintro ⟨check, hread, hmute⟩
    rcases kind_of_fromValue hread with hkind | hkind | hkind
    · rw [fromValue_command hkind] at hread
      simp only [Option.bind_eq_some_iff, Option.some.injEq] at hread
      obtain ⟨cmd, hcmd, t, ht, rfl⟩ := hread
      obtain rfl : cmd = [] := by simpa [AcceptanceCheck.speaks] using hmute
      simp [hollow, hkind, textOf_eq_nil.mp hcmd, hseconds ht]
    · rw [fromValue_fileExists hkind] at hread
      simp only [Option.bind_eq_some_iff, Option.some.injEq] at hread
      obtain ⟨path, hpath, rfl⟩ := hread
      obtain rfl : path = [] := by simpa [AcceptanceCheck.speaks] using hmute
      simp [hollow, hkind, textOf_eq_nil.mp hpath]
    · rw [fromValue_regex hkind] at hread
      simp only [Option.bind_eq_some_iff, Option.some.injEq] at hread
      obtain ⟨pattern, hpattern, path, hpath, cmd, hcmd, t, ht, rfl⟩ := hread
      have hreadable : isText (value.get "pattern") = true ∧ isReadable (value.get "path") = true ∧
          isReadable (value.get "command") = true := by
        rw [← isSome_textOf, ← isSome_optionalText, ← isSome_optionalText, hpattern, hpath, hcmd]
        exact ⟨rfl, rfl, rfl⟩
      have hempty : value.get "pattern" = some (.str "") ∨
          (isUnset (value.get "path") = true ∧ isUnset (value.get "command") = true) := by
        rw [← textOf_eq_nil, ← optionalText_eq_none, ← optionalText_eq_none, hpattern, hpath, hcmd]
        by_cases hnil : pattern = []
        · exact .inl (by rw [hnil])
        · refine .inr ?_
          simpa [AcceptanceCheck.speaks, hnil] using hmute
      simp [hollow, hkind, hreadable, hseconds ht, hempty]

/-! ## Writing back -/

variable {check : AcceptanceCheck} {d : Dialect}

@[simp] theorem isFilled_str : isFilled (some (.str (String.ofList text))) = decide (text ≠ []) := by
  have hread : textOf (some (.str (String.ofList text))) = some text := textOf_eq_some.mpr rfl
  have hnil : some (Json.str (String.ofList text)) = some (Json.str "") ↔ text = [] := by
    rw [← textOf_eq_nil, hread, Option.some.injEq]
  rw [isFilled, show isText (some (.str (String.ofList text))) = true from rfl, Bool.true_and]
  exact decide_eq_decide.mpr (not_congr hnil)

theorem timeoutAdmitted_seconds {seconds : UInt64} :
    timeoutAdmitted (some (.num (.int seconds.toNat))) = true := by
  have hlt : (seconds.toNat : Int) < 2 ^ 64 := by exact_mod_cast seconds.toNat_lt
  rw [timeoutAdmitted, Option.all_some, isU64, decide_eq_true_eq]
  exact ⟨Int.natCast_nonneg _, hlt⟩

theorem timeoutAdmitted_toValue :
    timeoutAdmitted (check.toValue.get "timeout_secs") = true := by
  have hseconds : ∀ t : Option UInt64,
      timeoutAdmitted ((secondsMember? t).lookup "timeout_secs") = true := fun t => by
    cases t with
    | none => rfl
    | some seconds => exact timeoutAdmitted_seconds
  rcases check with ⟨cmd, t⟩ | path | ⟨pattern, path, cmd, t⟩
  · exact hseconds t
  · rfl
  · cases path <;> cases cmd <;> exact hseconds t

/-- A check that says something passes validation. -/
theorem validateAcceptance_toValue :
    validateAcceptance check.toValue = .ok () ↔ check.speaks = true := by
  rw [validateAcceptance_ok, and_iff_right timeoutAdmitted_toValue]
  rcases check with ⟨cmd, t⟩ | path | ⟨pattern, path, cmd, t⟩
  · have hkind : (toValue (.command cmd t)).get "kind" = some (.str "command") := rfl
    have hcmd : (toValue (.command cmd t)).get "command" = some (.str (String.ofList cmd)) := rfl
    simp [hkind, validateKind_ok, hcmd, AcceptanceCheck.speaks]
  · have hkind : (toValue (.fileExists path)).get "kind" = some (.str "file_exists") := rfl
    have hpath : (toValue (.fileExists path)).get "path" = some (.str (String.ofList path)) := rfl
    simp [hkind, validateKind_ok, hpath, AcceptanceCheck.speaks]
  · have hkind : (toValue (.regex pattern path cmd t)).get "kind" = some (.str "regex") := by
      cases cmd <;> rfl
    have hpattern : (toValue (.regex pattern path cmd t)).get "pattern" =
        some (.str (String.ofList pattern)) := by
      cases cmd <;> cases path <;> rfl
    have hpath : isText ((toValue (.regex pattern path cmd t)).get "path") = path.isSome := by
      cases cmd <;> cases path <;> cases t <;> rfl
    have hcmd : isText ((toValue (.regex pattern path cmd t)).get "command") = cmd.isSome := by
      cases cmd <;> cases path <;> cases t <;> rfl
    simp [hkind, validateKind_ok, hpattern, hpath, hcmd, AcceptanceCheck.speaks]

theorem canonicalizeAcceptance_toValue :
    canonicalizeAcceptance d check.toValue = .ok check.toValue := by
  rcases check with ⟨cmd, _ | t⟩ | path | ⟨pattern, _ | path, _ | cmd, _ | t⟩ <;> rfl

theorem admitAcceptance_toValue :
    admitAcceptance d check.toValue = .ok check.toValue ↔ check.speaks = true := by
  rw [← validateAcceptance_toValue, admitAcceptance, canonicalizeAcceptance_toValue]
  show (validateAcceptance check.toValue >>= fun _ => Except.ok check.toValue) = _ ↔ _
  rw [check_bind_eq_ok, and_iff_left rfl]

/-! ## Agreement -/

theorem admitAcceptance_ok {c : Json} :
    admitAcceptance d value = .ok c ↔
      canonicalizeAcceptance d value = .ok c ∧ validateAcceptance c = .ok () := by
  unfold admitAcceptance
  cases hcanonical : canonicalizeAcceptance d value with
  | error message => simp
  | ok canonical =>
    show (validateAcceptance canonical >>= fun _ => Except.ok canonical) = .ok c ↔ _
    rw [check_bind_eq_ok, Except.ok.injEq, Except.ok.injEq]
    constructor
    · rintro ⟨hvalid, rfl⟩
      exact ⟨rfl, hvalid⟩
    · rintro ⟨rfl, hvalid⟩
      exact ⟨hvalid, rfl⟩

theorem fromJson_ok :
    fromJson d value = .ok check ↔
      ∃ canonical, canonicalizeAcceptance d value = .ok canonical ∧
        fromValue canonical = some check := by
  unfold fromJson
  cases canonicalizeAcceptance d value with
  | error message => simp
  | ok canonical => cases hread : fromValue canonical <;> simp [hread]

theorem canonicalize_ok {c : Json} :
    canonicalize d value = .ok c ↔ ∃ check, fromJson d value = .ok check ∧ c = check.toValue := by
  unfold canonicalize
  cases fromJson d value <;> simp [eq_comm]

/-- **Main result.** The store and the harness agree on a payload exactly if its canonical form is
neither mistargeted nor hollow. -/
theorem agree_iff (d : Dialect) (value : Json) :
    Agree d value ↔ ∀ canonical, canonicalizeAcceptance d value = .ok canonical →
      mistargeted canonical = false ∧ hollow canonical = false := by
  constructor
  · rintro ⟨hreads, hholds⟩ canonical hcanonical
    refine ⟨Bool.eq_false_iff.mpr fun hmis => ?_, Bool.eq_false_iff.mpr fun hhollow => ?_⟩
    · obtain ⟨hvalid, hnone⟩ := mistargeted_iff.mp hmis
      obtain ⟨check, hcheck⟩ := hreads canonical (admitAcceptance_ok.mpr ⟨hcanonical, hvalid⟩)
      obtain ⟨c, hc, hread⟩ := fromJson_ok.mp hcheck
      rw [canonicalizeAcceptance_idem hcanonical] at hc
      cases hc
      rw [hnone] at hread
      cases hread
    · obtain ⟨check, hread, hmute⟩ := hollow_iff.mp hhollow
      have hwritten : canonicalize d value = .ok check.toValue :=
        canonicalize_ok.mpr ⟨check, fromJson_ok.mpr ⟨canonical, hcanonical, hread⟩, rfl⟩
      have hspeaks := admitAcceptance_toValue.mp (hholds _ hwritten)
      rw [hmute] at hspeaks
      cases hspeaks
  · intro h
    refine ⟨fun c hadmitted => ?_, fun c hwritten => ?_⟩
    · obtain ⟨hcanonical, hvalid⟩ := admitAcceptance_ok.mp hadmitted
      cases hread : fromValue c with
      | some check =>
        exact ⟨check, fromJson_ok.mpr ⟨c, canonicalizeAcceptance_idem hcanonical, hread⟩⟩
      | none =>
        have hmis := mistargeted_iff.mpr ⟨hvalid, hread⟩
        rw [(h c hcanonical).1] at hmis
        cases hmis
    · obtain ⟨check, hcheck, rfl⟩ := canonicalize_ok.mp hwritten
      obtain ⟨canonical, hcanonical, hread⟩ := fromJson_ok.mp hcheck
      refine admitAcceptance_toValue.mpr (Bool.not_eq_false _ ▸ fun hmute => ?_)
      have hhollow := hollow_iff.mpr ⟨check, hread, hmute⟩
      rw [(h canonical hcanonical).2] at hhollow
      cases hhollow

end

/-! ## Where they disagree -/

/-- A dialect for payloads that are objects. -/
def objectsOnly : Dialect := ⟨fun _ => none, fun _ => "not a check", fun _ => false, fun _ => false⟩

/-- A regex check over a command's output, with a number for its path. -/
def numberedPath : Json :=
  .obj [("kind", .str "regex"), ("pattern", .str "0 failed"), ("path", .num (.int 5)),
    ("command", .str "cargo test")]

def emptyCommand : Json := .obj [("command", .str ""), ("kind", .str "command")]

/-- The store holds what the harness cannot read, and refuses what the harness writes. -/
theorem disagree : ¬ Agree objectsOnly numberedPath ∧ ¬ Agree objectsOnly emptyCommand := by
  constructor
  · rintro ⟨hreads, _⟩
    obtain ⟨check, hcheck⟩ := hreads numberedPath rfl
    cases hcheck
  · rintro ⟨_, hholds⟩
    have hadmitted := hholds emptyCommand rfl
    cases hadmitted

end Nanna.Harness
