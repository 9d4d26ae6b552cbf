import Nanna.Daemon.Contracts
import Nanna.Lib.Double

/-!
# What the readers of parameters lose

A JSON value says an integer (`DenotesInt`), a text, a list or an acceptance check; each reader of the task services
gives back what its parameter says (`asI64Lenient_denotes`, `optI64Vec_denotes`, `optStringVec_denotes`), save that an
acceptance object is stripped of the members that its kind does not use (`canonical_iff`).

Decimal text that is not an integer literal is read as the nearest double; that the parser of doubles reads an
integer literal so too (`NearestParse`) keeps a literal beyond 64 bits out.
-/

namespace Nanna.Daemon

open Nanna.Lib Nanna.Tasks Nanna.Harness

variable {reading : Reading} {params : Json} {key : String}

/-! ## Doubles -/

theorem wholeMagnitude_value {exponent fraction n : Nat} (h : wholeMagnitude exponent fraction = some n) :
    doubleMagnitude exponent fraction = n := by
  unfold wholeMagnitude at h
  dsimp only at h
  split_ifs at h with h0 hfraction hlarge hwhole
  · obtain rfl := Option.some.inj h
    rw [h0, hfraction, doubleMagnitude_zero, Nat.cast_zero]
  · rw [doubleMagnitude_shiftLeft hlarge, Option.some.inj h]
  · rw [doubleMagnitude_shiftRight h0 (by omega) hwhole, Option.some.inj h]

/-- A double that is read as an integer stands for it, and is not large. -/
theorem wholeF64ToI64_value {bits : BitVec 64} {n : Int} (h : wholeF64ToI64 bits = some n) :
    doubleValue bits = some (n : ℚ) ∧ |(n : ℚ)| ≤ 2 ^ 53 := by
  unfold wholeF64ToI64 at h
  dsimp only at h
  rw [doubleValue, doubleExponent, doubleFraction]
  split_ifs at h ⊢ with hfinite hsign
  all_goals
    obtain ⟨magnitude, hmagnitude, h⟩ := Option.bind_eq_some_iff.mp h
    split_ifs at h with hsmall
    obtain rfl := Option.some.inj h
    have hle : (magnitude : ℚ) ≤ 2 ^ 53 := by exact_mod_cast hsmall
    dsimp only
    rw [wholeMagnitude_value hmagnitude]
    push_cast
  · rw [abs_neg, abs_of_nonneg (by positivity)]
    exact ⟨rfl, hle⟩
  · rw [abs_of_nonneg (by positivity)]
    exact ⟨rfl, hle⟩

/-- A timeout that is made an integer is the same number. -/
theorem exactU64Below2Pow53_value {bits : BitVec 64} {n : Nat} (h : exactU64Below2Pow53 bits = some n) :
    doubleValue bits = some (n : ℚ) := by
  unfold exactU64Below2Pow53 at h
  dsimp only at h
  rw [doubleValue, doubleExponent, doubleFraction]
  split_ifs at h with hzero hsign hrange hwhole
  · obtain rfl := Option.some.inj h
    have hbits : bits.toNat * 2 % 2 ^ 64 = 0 := by
      have htoNat := congrArg BitVec.toNat hzero
      rw [BitVec.toNat_shiftLeft, Nat.shiftLeft_eq, pow_one] at htoNat
      exact htoNat
    have hexponent : bits.toNat / 2 ^ 52 % 2 ^ 11 = 0 := by omega
    have hfraction : bits.toNat % 2 ^ 52 = 0 := by omega
    rw [hexponent, hfraction, if_neg (by decide), doubleMagnitude_zero]
    simp
  · obtain rfl := Option.some.inj h
    have hpositive : 2 * bits.toNat < 2 ^ 64 :=
      BitVec.msb_eq_false_iff_two_mul_lt.mp (Bool.eq_false_iff.mpr hsign)
    have hexponent : bits.toNat / 2 ^ 52 % 2 ^ 11 = bits.toNat / 2 ^ 52 := by omega
    have hshift : 52 - (bits.toNat / 2 ^ 52 - 1023) = 1075 - bits.toNat / 2 ^ 52 := by omega
    rw [hshift, Nat.add_comm (bits.toNat % 2 ^ 52)] at hwhole ⊢
    rw [hexponent, if_neg (by omega)]
    dsimp only
    rw [if_neg hsign]
    by_cases hone : bits.toNat / 2 ^ 52 = 1075
    · rw [hone, doubleMagnitude_shiftLeft (by decide), Nat.sub_self, pow_zero, mul_one, Nat.div_one]
    · rw [doubleMagnitude_shiftRight (by omega) (by omega) hwhole]

/-! ## Integers -/

def digitsValue (digits : Text) : Option Nat :=
  if digits ≠ [] ∧ digits.all Char.isDigit then some (Nat.ofDigitChars 10 digits 0) else none

/-- The number that an integer literal writes, however long. -/
def literalValue : Text → Option Int
  | '-' :: digits => (digitsValue digits).map fun n : Nat => -(n : Int)
  | t => (digitsValue (if t.head? = some '+' then t.tail else t)).map fun n : Nat => (n : Int)

/-- The parser of doubles reads an integer literal as a nearest double. -/
def NearestParse (reading : Reading) : Prop :=
  ∀ t n bits, literalValue t = some n → reading.parseF64 t = some bits → Nearest bits n

/-- What a value says as an integer. -/
inductive DenotesInt (reading : Reading) : Json → Int → Prop
  | int (n : Int) : DenotesInt reading (.num (.int n)) n
  | float {bits : BitVec 64} {n : Int} : doubleValue bits = some (n : ℚ) →
      DenotesInt reading (.num (.float bits)) n
  | literal {s : String} {n : Int} : literalValue (Text.trim s.toList) = some n → DenotesInt reading (.str s) n
  | decimal {s : String} {bits : BitVec 64} {n : Int} : literalValue (Text.trim s.toList) = none →
      reading.parseF64 (Text.trim s.toList) = some bits → doubleValue bits = some (n : ℚ) →
      DenotesInt reading (.str s) n

theorem readDigits_eq (bound : Nat) (digits : Text) :
    readDigits bound digits = (digitsValue digits).filter (· < bound) := by
  unfold readDigits digitsValue
  by_cases hdigits : digits ≠ [] ∧ digits.all Char.isDigit
  · rw [if_pos hdigits]
    by_cases hlt : Nat.ofDigitChars 10 digits 0 < bound
    · rw [if_pos ⟨hdigits.1, hdigits.2, hlt⟩, Option.filter_some, if_pos (decide_eq_true hlt)]
    · rw [if_neg fun h => hlt h.2.2, Option.filter_some, if_neg (by simpa using hlt)]
  · rw [if_neg hdigits, if_neg fun h => hdigits ⟨h.1, h.2.1⟩]
    rfl

theorem map_readDigits {bound : Nat} {sign : Nat → Int} (digits : Text)
    (hsign : ∀ n, n < bound ↔ i64Min ≤ sign n ∧ sign n ≤ i64Max) :
    (readDigits bound digits).map sign =
      ((digitsValue digits).map sign).filter fun n => i64Min ≤ n ∧ n ≤ i64Max := by
  rw [readDigits_eq]
  cases digitsValue digits with
  | none => rfl
  | some n =>
    rw [Option.map_some, Option.filter_some, Option.filter_some]
    by_cases hlt : n < bound
    · rw [if_pos (decide_eq_true hlt), if_pos (decide_eq_true ((hsign n).mp hlt)), Option.map_some]
    · rw [if_neg (by simpa using hlt), if_neg fun h => hlt ((hsign n).mpr (of_decide_eq_true h))]
      rfl

/-- The parser of integers reads the literals within 64 bits. -/
theorem parseI64_eq (t : Text) :
    parseI64 t = (literalValue t).filter fun n => i64Min ≤ n ∧ n ≤ i64Max := by
  by_cases hminus : ∃ digits, t = '-' :: digits
  · obtain ⟨digits, rfl⟩ := hminus
    have hparse : parseI64 ('-' :: digits) = (readDigits (2 ^ 63 + 1) digits).map fun n : Nat => -(n : Int) := by
      show Option.map _ (readDigits (2 ^ 63 + 1) digits >>= _) = _
      cases readDigits (2 ^ 63 + 1) digits <;> rfl
    rw [hparse]
    refine map_readDigits digits fun n => ?_
    unfold i64Min i64Max
    omega
  · have hparse : parseI64 t = (parseUnsigned (2 ^ 63) t).map fun n : Nat => (n : Int) := by
      unfold parseI64
      split
      · rename_i digits
        exact absurd ⟨digits, rfl⟩ hminus
      · cases parseUnsigned (2 ^ 63) t <;> rfl
    have hliteral : literalValue t =
        (digitsValue (if t.head? = some '+' then t.tail else t)).map fun n : Nat => (n : Int) := by
      unfold literalValue
      split
      · rename_i digits
        exact absurd ⟨digits, rfl⟩ hminus
      · rfl
    rw [hparse, hliteral, parseUnsigned]
    refine map_readDigits _ fun n => ?_
    unfold i64Min i64Max
    omega

/-- An integer that is accepted is the one that the parameter says. -/
theorem asI64Lenient_denotes (hparse : NearestParse reading) {value : Json} {n : Int}
    (h : asI64Lenient reading value = some n) : DenotesInt reading value n := by
  unfold asI64Lenient at h
  split at h
  · split_ifs at h
    obtain rfl := Option.some.inj h
    exact .int _
  · exact .float (wholeF64ToI64_value h).1
  · rename_i s
    dsimp only at h
    split_ifs at h
    rcases Option.or_eq_some_iff.mp h with hint | ⟨hnone, hfloat⟩
    · rw [parseI64_eq] at hint
      exact .literal (Option.filter_eq_some_iff.mp hint).1
    · obtain ⟨bits, hbits, hwhole⟩ := Option.bind_eq_some_iff.mp hfloat
      obtain ⟨hvalue, hsmall⟩ := wholeF64ToI64_value hwhole
      cases hliteral : literalValue (Text.trim s.toList) with
      | none => exact .decimal hliteral hbits hvalue
      | some m =>
        -- a literal beyond 64 bits has no nearest double that small
        have hlt := abs_lt.mp (abs_lt_of_nearest (hparse _ m bits hliteral hbits) hvalue hsmall)
        have hrange : i64Min ≤ m ∧ m ≤ i64Max := by
          unfold i64Min i64Max
          constructor
          · have : (-2 ^ 63 : ℚ) < m := hlt.1
            exact_mod_cast this.le
          · have : (m : ℚ) < 2 ^ 63 := hlt.2
            have : m < 2 ^ 63 := by exact_mod_cast this
            omega
        rw [parseI64_eq, hliteral, Option.filter_some, if_pos (decide_eq_true hrange)] at hnone
        cases hnone
  · cases h

/-! ## Lists -/

/-- A value says a list of what its items say. -/
def DenotesList {α : Type} (reading : Reading) (den : Json → α → Prop) (value : Json) (xs : List α) : Prop :=
  ∃ items, unwrapArray reading value = some items ∧ List.Forall₂ den items xs

/-- What a value says as the text of a label. -/
inductive DenotesText (reading : Reading) : Json → String → Prop
  | str (s : String) : DenotesText reading (.str s) s
  | num (n : JsonNumber) : DenotesText reading (.num n) (reading.showNumber n)
  | bool (b : Bool) : DenotesText reading (.bool b) (toString b)

theorem itemText_denotes {item : Json} {s : String} (h : itemText reading item = some s) :
    DenotesText reading item s := by
  unfold itemText at h
  split at h <;> cases h
  · exact .str _
  · exact .num _
  · exact .bool _

theorem mapM_forall₂ {α β : Type} {f : α → Except String β} {den : α → β → Prop}
    (hf : ∀ a b, f a = .ok b → den a b) : ∀ {as : List α} {bs : List β},
    as.mapM f = .ok bs → List.Forall₂ den as bs := by
  intro as
  induction as with
  | nil =>
    intro bs h
    cases h
    exact .nil
  | cons a as ih =>
    intro bs h
    rw [List.mapM_cons] at h
    obtain ⟨b, hb, h⟩ := bind_eq_ok.mp h
    obtain ⟨bs', hbs, h⟩ := bind_eq_ok.mp h
    cases h
    exact .cons (hf a b hb) (ih hbs)

/-- Each item is read, and none is left out. -/
theorem readItems_forall₂ {α : Type} {read : Nat → Json → Except String α} {den : Json → α → Prop}
    (hread : ∀ i item a, read i item = .ok a → den item a) {items : List Json} {as : List α}
    (h : readItems read items = .ok as) : List.Forall₂ den items as := by
  have hindexed : List.Forall₂ (fun (p : Json × Nat) a => den p.1 a) items.zipIdx as :=
    mapM_forall₂ (fun p a hp => hread p.2 p.1 a hp) h
  have hitems := List.forall₂_map_left_iff.mpr hindexed
  rwa [List.zipIdx_map_fst] at hitems

/-! ## Parameters -/

/-- What a call gives for a key: present, not null and not an empty string. -/
def given (params : Json) (key : String) : Option Json := (supplied params key).filter (· ≠ .str "")

theorem readParam_ok {α : Type} {read : Json → Except String α} {r : Option α}
    (h : readParam params key read = .ok r) {value : Json} (hvalue : supplied params key = some value) :
    ∃ a, r = some a ∧ read value = .ok a := by
  unfold readParam at h
  rw [hvalue] at h
  obtain ⟨a, ha, rfl⟩ := map_eq_ok.mp h
  exact ⟨a, rfl, ha⟩

theorem supplied_of_given {value : Json} (h : given params key = some value) :
    supplied params key = some value :=
  (Option.filter_eq_some_iff.mp h).1

theorem optI64_denotes (hparse : NearestParse reading) {r : Option Int} (h : optI64 reading params key = .ok r)
    {value : Json} (hvalue : given params key = some value) : ∃ n, r = some n ∧ DenotesInt reading value n := by
  obtain ⟨n, hn, hread⟩ := readParam_ok h (supplied_of_given hvalue)
  exact ⟨n, hn, asI64Lenient_denotes hparse (orError_eq_ok.mp hread)⟩

theorem optI64Vec_denotes (hparse : NearestParse reading) {r : Option (List Int)}
    (h : optI64Vec reading params key = .ok r) {value : Json} (hvalue : given params key = some value) :
    ∃ ns, r = some ns ∧ DenotesList reading (DenotesInt reading) value ns := by
  obtain ⟨ns, hns, hread⟩ := readParam_ok h (supplied_of_given hvalue)
  obtain ⟨items, hitems, hread⟩ := bind_eq_ok.mp hread
  refine ⟨ns, hns, items, orError_eq_ok.mp hitems, readItems_forall₂ ?_ hread⟩
  exact fun _ _ _ h => asI64Lenient_denotes hparse (orError_eq_ok.mp h)

theorem optStringVec_denotes {r : Option (List String)} (h : optStringVec reading params key = .ok r)
    {value : Json} (hvalue : given params key = some value) :
    ∃ ss, r = some ss ∧ DenotesList reading (DenotesText reading) value ss := by
  obtain ⟨ss, hss, hread⟩ := readParam_ok h (supplied_of_given hvalue)
  obtain ⟨items, hitems, hread⟩ := bind_eq_ok.mp hread
  refine ⟨ss, hss, items, orError_eq_ok.mp hitems, readItems_forall₂ ?_ hread⟩
  exact fun _ _ _ h => itemText_denotes (orError_eq_ok.mp h)

/-! ## Acceptance checks -/

/-- The object that an acceptance parameter is, or holds as text. -/
def payloadObject (d : Dialect) : Json → Option Json
  | .obj kvs => some (.obj kvs)
  | .str text =>
    match parseStringifiedAcceptance d text.toList with
    | .ok (.obj kvs) => some (.obj kvs)
    | _ => none
  | _ => none

/-- The same value, or the integer that a double stands for. -/
def SameValue (given stored : Json) : Prop :=
  stored = given ∨ ∃ bits, ∃ n : Nat, given = .num (.float bits) ∧ stored = .num (.int n) ∧
    doubleValue bits = some (n : ℚ)

/-- The stored object has what the given one has, nulls aside, and nothing else. -/
def DenotesCheck (d : Dialect) (value stored : Json) : Prop :=
  ∃ object, payloadObject d value = some object ∧
    (∀ key w, object.get key = some w → w ≠ .null → ∃ w', stored.get key = some w' ∧ SameValue w w') ∧
    ∀ key w', stored.get key = some w' → ∃ w, object.get key = some w ∧ SameValue w w'

/-- The members that a kind of check has. -/
def usedKeys : String → List String
  | "command" => ["command", "kind", "timeout_secs"]
  | "file_exists" => ["kind", "path"]
  | "regex" => ["command", "kind", "path", "pattern", "timeout_secs"]
  | _ => []

/-- The object has only members that its kind uses, nulls aside. -/
def UsesAll (d : Dialect) (value : Json) : Prop :=
  ∀ object, payloadObject d value = some object → ∀ key w kind, object.get key = some w → w ≠ .null →
    object.get "kind" = some (.str kind) → key ∈ usedKeys kind

theorem canonicalizeAcceptance_payload {d : Dialect} {value canonical : Json}
    (h : canonicalizeAcceptance d value = .ok canonical) :
    ∃ kvs, payloadObject d value = some (.obj kvs) ∧ canonical = .obj (normalizeIntegralTimeout kvs) := by
  unfold canonicalizeAcceptance at h
  split at h
  · cases h
    exact ⟨_, rfl, rfl⟩
  · rename_i text
    split at h
    · cases h
    · rename_i kvs hparse
      cases h
      refine ⟨kvs, ?_, rfl⟩
      rw [payloadObject, hparse]
    · cases h
  · cases h

theorem wholeTimeout_same (w : Json) : SameValue w (wholeTimeout w) := by
  unfold wholeTimeout
  split
  · rename_i bits
    split
    · rename_i n hwhole
      exact .inr ⟨bits, n, rfl, rfl, exactU64Below2Pow53_value hwhole⟩
    · exact .inl rfl
  · exact .inl rfl

theorem get_normalized (kvs : List (String × Json)) (key : String) :
    (Json.obj (normalizeIntegralTimeout kvs)).get key =
      if key = "timeout_secs" then ((Json.obj kvs).get key).map wholeTimeout else (Json.obj kvs).get key := by
  show (normalizeIntegralTimeout kvs).lookup key =
    if key = "timeout_secs" then (kvs.lookup key).map wholeTimeout else kvs.lookup key
  induction kvs with
  | nil => exact (ite_self none).symm
  | cons member kvs ih =>
    obtain ⟨name, value⟩ := member
    rw [normalizeIntegralTimeout, modifyFirst]
    by_cases hname : name = "timeout_secs"
    · subst hname
      by_cases hkey : key = "timeout_secs"
      · simp [hkey]
      · simp [List.lookup_cons, beq_false_of_ne hkey, hkey]
    · by_cases hkey : key = name
      · simp [hkey, hname]
      · rw [if_neg (by simpa using hname), List.lookup_cons, List.lookup_cons, beq_false_of_ne hkey]
        exact ih

section Members

open AcceptanceCheck

variable {canonical : Json} {check : AcceptanceCheck} {member : Option Json} {name kind : String}

/-- The members of one key. -/
def memberList (name : String) : Option Json → List (String × Json)
  | none => []
  | some value => [(name, value)]

theorem lookup_memberList (name key : String) (member : Option Json) :
    (memberList name member).lookup key = if key = name then member else none := by
  cases member with
  | none => exact (ite_self none).symm
  | some value =>
    by_cases hkey : key = name
    · simp [memberList, hkey]
    · simp [memberList, hkey, List.lookup_cons, beq_false_of_ne hkey]

theorem lookup_members (members : String → Option Json) (key : String) (names : List String) :
    (names.flatMap fun name => memberList name (members name)).lookup key =
      if key ∈ names then members key else none := by
  induction names with
  | nil => rfl
  | cons name names ih =>
    rw [List.flatMap_cons, List.lookup_append, lookup_memberList, ih]
    by_cases hname : key = name
    · subst hname
      rw [if_pos rfl, if_pos List.mem_cons_self]
      cases members key with
      | none => simp
      | some value => rfl
    · simp [hname]

theorem textMember_of_textOf {text : Text} (h : textOf member = some text) :
    [textMember name text] = memberList name (member.filter (· ≠ .null)) := by
  rw [textOf_eq_some.mp h]
  rfl

theorem textMember_of_optionalText {text : Option Text} (h : optionalText member = some text) :
    textMember? name text = memberList name (member.filter (· ≠ .null)) := by
  unfold optionalText at h
  split at h <;> cases h
  · rfl
  · rfl
  · rw [textMember?, textMember, String.ofList_toList]
    rfl

theorem secondsMember_of_optionalSeconds {seconds : Option UInt64} (h : optionalSeconds member = some seconds) :
    secondsMember? seconds = memberList "timeout_secs" (member.filter (· ≠ .null)) := by
  unfold optionalSeconds at h
  split at h
  · cases h
    rfl
  · cases h
    rfl
  · rename_i n
    split_ifs at h with hn
    obtain rfl := Option.some.inj h
    have hseconds : ((UInt64.ofNat n.toNat).toNat : Int) = n := by
      rw [UInt64.toNat_ofNat_of_lt' (by have : UInt64.size = 2 ^ 64 := rfl; omega)]
      exact Int.toNat_of_nonneg hn.1
    rw [secondsMember?, hseconds]
    rfl
  · cases h

/-- What is written of a check is what was read, nulls aside, of the members that its kind has. -/
theorem toValue_eq (h : fromValue canonical = some check) (hkind : canonical.get "kind" = some (.str kind)) :
    check.toValue = .obj ((usedKeys kind).flatMap fun name =>
      memberList name ((canonical.get name).filter (· ≠ .null))) := by
  have hmember : memberList "kind" ((canonical.get "kind").filter (· ≠ .null)) = [("kind", .str kind)] := by
    rw [hkind]
    rfl
  rcases kind_of_fromValue h with hcommand | hfileExists | hregex
  · obtain rfl := Json.str.inj (Option.some.inj (hkind.symm.trans hcommand))
    rw [fromValue_command hcommand] at h
    simp only [Option.bind_eq_some_iff, Option.some.injEq] at h
    obtain ⟨cmd, hcmd, seconds, hseconds, rfl⟩ := h
    rw [toValue, ← List.singleton_append, textMember_of_textOf hcmd,
      secondsMember_of_optionalSeconds hseconds, ← hmember]
    simp [usedKeys]
  · obtain rfl := Json.str.inj (Option.some.inj (hkind.symm.trans hfileExists))
    rw [fromValue_fileExists hfileExists] at h
    simp only [Option.bind_eq_some_iff, Option.some.injEq] at h
    obtain ⟨path, hpath, rfl⟩ := h
    rw [toValue, ← List.singleton_append, textMember_of_textOf hpath, ← hmember]
    simp [usedKeys]
  · obtain rfl := Json.str.inj (Option.some.inj (hkind.symm.trans hregex))
    rw [fromValue_regex hregex] at h
    simp only [Option.bind_eq_some_iff, Option.some.injEq] at h
    obtain ⟨pattern, hpattern, path, hpath, cmd, hcmd, seconds, hseconds, rfl⟩ := h
    rw [toValue, textMember_of_textOf hpattern, textMember_of_optionalText hpath,
      textMember_of_optionalText hcmd, secondsMember_of_optionalSeconds hseconds, ← hmember]
    simp [usedKeys]

end Members

theorem SameValue.ne_null {w w' : Json} (h : SameValue w w') (hw : w ≠ .null) : w' ≠ .null := by
  rcases h with rfl | ⟨bits, n, rfl, rfl, -⟩
  · exact hw
  · exact nofun

/-- The canonical object has the same members, a whole timeout as an integer. -/
theorem get_canonical (kvs : List (String × Json)) (key : String) : ∃ same : Json → Json,
    (∀ w, SameValue w (same w)) ∧
      (Json.obj (normalizeIntegralTimeout kvs)).get key = ((Json.obj kvs).get key).map same := by
  rw [get_normalized]
  split_ifs
  · exact ⟨wholeTimeout, wholeTimeout_same, rfl⟩
  · exact ⟨id, fun w => .inl rfl, Option.map_id'.symm ▸ rfl⟩

/-- **Acceptance checks.** A check is stored as it was given exactly if its kind uses all of it. -/
theorem canonical_iff {d : Dialect} {value stored : Json}
    (h : AcceptanceCheck.canonicalize d value = .ok stored) : DenotesCheck d value stored ↔ UsesAll d value := by
  obtain ⟨check, hcheck, rfl⟩ := canonicalize_ok.mp h
  obtain ⟨canonical, hcanonical, hread⟩ := fromJson_ok.mp hcheck
  obtain ⟨kvs, hobject, rfl⟩ := canonicalizeAcceptance_payload hcanonical
  obtain ⟨kind, hkind⟩ : ∃ kind, (Json.obj (normalizeIntegralTimeout kvs)).get "kind" = some (.str kind) := by
    rcases kind_of_fromValue hread with hkind | hkind | hkind <;> exact ⟨_, hkind⟩
  have hgiven : (Json.obj kvs).get "kind" = some (.str kind) := by
    rwa [get_normalized, if_neg (by decide)] at hkind
  have hwritten := toValue_eq hread hkind
  have hget : ∀ key, check.toValue.get key = if key ∈ usedKeys kind then
      ((Json.obj (normalizeIntegralTimeout kvs)).get key).filter (· ≠ .null) else none := fun key => by
    rw [hwritten]
    exact lookup_members _ key (usedKeys kind)
  constructor
  · rintro ⟨object, hobject', hkept, -⟩ object' hobject'' key w kind' hw hnull hkind'
    obtain rfl := Option.some.inj (hobject.symm.trans hobject')
    obtain rfl := Option.some.inj (hobject.symm.trans hobject'')
    obtain rfl := Json.str.inj (Option.some.inj (hgiven.symm.trans hkind'))
    obtain ⟨w', hw', -⟩ := hkept key w hw hnull
    by_contra hunused
    rw [hget, if_neg hunused] at hw'
    cases hw'
  · intro huses
    refine ⟨_, hobject, fun key w hw hnull => ?_, fun key w' hw' => ?_⟩
    · obtain ⟨same, hsame, hcanonicalGet⟩ := get_canonical kvs key
      refine ⟨same w, ?_, hsame w⟩
      rw [hget, if_pos (huses _ hobject key w kind hw hnull hgiven), hcanonicalGet, hw, Option.map_some,
        Option.filter_some, if_pos (decide_eq_true ((hsame w).ne_null hnull))]
    · obtain ⟨same, hsame, hcanonicalGet⟩ := get_canonical kvs key
      rw [hget] at hw'
      split_ifs at hw'
      have hmember := (Option.filter_eq_some_iff.mp hw').1
      rw [hcanonicalGet] at hmember
      obtain ⟨w, hw, rfl⟩ := Option.map_eq_some_iff.mp hmember
      exact ⟨w, hw, hsame w⟩

end Nanna.Daemon
