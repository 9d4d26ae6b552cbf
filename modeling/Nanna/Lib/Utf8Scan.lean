import Nanna.Lib.Utf8

/-!
# Decoding bytes that may stop inside a character

`scanChar` reads one character and tells bytes that end inside one (`incomplete`) from bytes that no
continuation makes valid (`invalid`). It reads exactly the encodings (`scanChar_encode`,
`eq_encode_of_scanChar`), and what stops inside a character has at most three bytes and can be
completed (`complete_scanChar`). `fromUtf8` decodes a whole byte string; the valid text at its front
is `validPrefix`, which goes on where it stopped when more bytes come (`validPrefix_append`).
-/

namespace Nanna.Lib.Text

/-! ## One character -/

/-- The width of the character that starts with a byte, 0 for a byte that starts none. -/
def charWidth (b : Nat) : Nat :=
  if b < 0x80 then 1 else if b < 0xC2 then 0 else if b < 0xE0 then 2 else if b < 0xF0 then 3
  else if b < 0xF5 then 4 else 0

def isTail (b : Nat) : Bool := 0x80 ≤ b && b < 0xC0

/-- The bytes that may follow a first byte. -/
def isSecond (b b1 : Nat) : Bool :=
  if b = 0xE0 then 0xA0 ≤ b1 && b1 < 0xC0
  else if b = 0xED then 0x80 ≤ b1 && b1 < 0xA0
  else if b = 0xF0 then 0x90 ≤ b1 && b1 < 0xC0
  else if b = 0xF4 then 0x80 ≤ b1 && b1 < 0x90
  else isTail b1

/-- The bits of the character in its first byte. -/
def firstBits (width b : Nat) : Nat :=
  if width = 1 then b else if width = 2 then b % 32 else if width = 3 then b % 16 else b % 8

inductive CharScan where
  | empty
  | char (c : Char) (rest : List UInt8)
  | incomplete
  | invalid (errorLen : Nat)
  deriving DecidableEq

/-- Read the bytes a character still owes, the next one under a test of its own. -/
def scanTails : Nat → (Nat → Bool) → Nat → Nat → List UInt8 → CharScan
  | 0, _, value, _, rest => .char (Char.ofNat value) rest
  | _ + 1, _, _, _, [] => .incomplete
  | owed + 1, ok, value, seen, b :: rest =>
    if ok b.toNat then scanTails owed isTail (value * 64 + b.toNat % 64) (seen + 1) rest
    else .invalid seen

def scanChar : List UInt8 → CharScan
  | [] => .empty
  | b :: rest =>
    match charWidth b.toNat with
    | 0 => .invalid 1
    | owed + 1 => scanTails owed (isSecond b.toNat) (firstBits (owed + 1) b.toNat) 1 rest

variable {bytes rest more : List UInt8} {c : Char} {owed value seen : Nat} {ok : Nat → Bool}

theorem scanTails_append (h : scanTails owed ok value seen bytes = .char c rest) :
    scanTails owed ok value seen (bytes ++ more) = .char c (rest ++ more) := by
  induction owed generalizing ok value seen bytes with
  | zero =>
    cases h
    rfl
  | succ owed ih =>
    cases bytes with
    | nil => cases h
    | cons b bytes =>
      rw [scanTails] at h
      rw [List.cons_append, scanTails]
      split at h
      · rename_i hok
        rw [if_pos hok]
        exact ih h
      · cases h

theorem scanTails_append_invalid {n : Nat} (h : scanTails owed ok value seen bytes = .invalid n) :
    scanTails owed ok value seen (bytes ++ more) = .invalid n := by
  induction owed generalizing ok value seen bytes with
  | zero => cases h
  | succ owed ih =>
    cases bytes with
    | nil => cases h
    | cons b bytes =>
      rw [scanTails] at h
      rw [List.cons_append, scanTails]
      split at h
      · rename_i hok
        rw [if_pos hok]
        exact ih h
      · rename_i hok
        rw [if_neg hok]
        exact h

/-- A character read is read whatever follows. -/
theorem scanChar_append (h : scanChar bytes = .char c rest) :
    scanChar (bytes ++ more) = .char c (rest ++ more) := by
  cases bytes with
  | nil => cases h
  | cons b bytes =>
    rw [scanChar] at h
    rw [List.cons_append, scanChar]
    split at h
    · cases h
    · exact scanTails_append h

theorem scanChar_append_invalid {n : Nat} (h : scanChar bytes = .invalid n) :
    scanChar (bytes ++ more) = .invalid n := by
  cases bytes with
  | nil => cases h
  | cons b bytes =>
    rw [scanChar] at h
    rw [List.cons_append, scanChar]
    split at h
    · exact h
    · exact scanTails_append_invalid h

/-! ## Characters and their encodings -/

theorem toNat_ofNat_byte {n : Nat} (h : n < 256) : (UInt8.ofNat n).toNat = n := by
  rw [UInt8.toNat_ofNat']
  exact Nat.mod_eq_of_lt h

theorem isTail_iff {b : Nat} : isTail b = true ↔ 0x80 ≤ b ∧ b < 0xC0 := by
  simp [isTail]

theorem isSecond_iff {b b1 : Nat} : isSecond b b1 = true ↔ (0x80 ≤ b1 ∧ b1 < 0xC0) ∧
    (b = 0xE0 → 0xA0 ≤ b1) ∧ (b = 0xED → b1 < 0xA0) ∧ (b = 0xF0 → 0x90 ≤ b1) ∧
    (b = 0xF4 → b1 < 0x90) := by
  unfold isSecond
  split_ifs <;> simp only [Bool.and_eq_true, decide_eq_true_eq, isTail_iff] <;> omega

theorem charWidth_one {b : Nat} (h : b < 0x80) : charWidth b = 1 := if_pos h

theorem charWidth_two {b : Nat} (h : 0xC2 ≤ b) (h' : b < 0xE0) : charWidth b = 2 := by
  unfold charWidth
  split_ifs <;> omega

theorem charWidth_three {b : Nat} (h : 0xE0 ≤ b) (h' : b < 0xF0) : charWidth b = 3 := by
  unfold charWidth
  split_ifs <;> omega

theorem charWidth_four {b : Nat} (h : 0xF0 ≤ b) (h' : b < 0xF5) : charWidth b = 4 := by
  unfold charWidth
  split_ifs <;> omega

/-- The tails are read in order. -/
theorem scanTails_cons {b : UInt8} (h : ok b.toNat = true) :
    scanTails (owed + 1) ok value seen (b :: rest) =
      scanTails owed isTail (value * 64 + b.toNat % 64) (seen + 1) rest := if_pos h

theorem scanChar_cons {b : UInt8} (h : charWidth b.toNat = owed + 1) : scanChar (b :: rest) =
    scanTails owed (isSecond b.toNat) (firstBits (owed + 1) b.toNat) 1 rest := by
  rw [scanChar, h]

/-- An encoded character is read back. -/
theorem scanChar_encode (c : Char) : scanChar (String.utf8EncodeChar c) = .char c [] := by
  have hvalid := c.valid
  simp only [UInt32.isValidChar, Nat.isValidChar] at hvalid
  have hofNat : Char.ofNat c.val.toNat = c := Char.ofNat_toNat c
  unfold String.utf8EncodeChar
  dsimp only
  generalize hv : c.val.toNat = v at hvalid hofNat ⊢
  split
  · have hb := toNat_ofNat_byte (show v < 256 by omega)
    rw [scanChar_cons (by rw [hb]; exact charWidth_one (by omega)), scanTails, hb]
    exact congrArg (CharScan.char · []) hofNat
  · split
    · have hb := toNat_ofNat_byte (show v / 64 % 0x20 + 0xc0 < 256 by omega)
      have hb1 := toNat_ofNat_byte (show v % 0x40 + 0x80 < 256 by omega)
      rw [scanChar_cons (by rw [hb]; exact charWidth_two (by omega) (by omega)), hb,
        scanTails_cons (by rw [hb1, isSecond_iff]; omega), hb1, scanTails]
      refine congrArg (CharScan.char · []) (Eq.trans (congrArg Char.ofNat ?_) hofNat)
      show (v / 64 % 32 + 192) % 32 * 64 + (v % 64 + 128) % 64 = v
      omega
    · split
      · have hb := toNat_ofNat_byte (show v / 4096 % 0x10 + 0xe0 < 256 by omega)
        have hb1 := toNat_ofNat_byte (show v / 64 % 0x40 + 0x80 < 256 by omega)
        have hb2 := toNat_ofNat_byte (show v % 0x40 + 0x80 < 256 by omega)
        rw [scanChar_cons (by rw [hb]; exact charWidth_three (by omega) (by omega)), hb,
          scanTails_cons (by rw [hb1, isSecond_iff]; omega), hb1,
          scanTails_cons (by rw [hb2, isTail_iff]; omega), hb2, scanTails]
        refine congrArg (CharScan.char · []) (Eq.trans (congrArg Char.ofNat ?_) hofNat)
        show ((v / 4096 % 16 + 224) % 16 * 64 + (v / 64 % 64 + 128) % 64) * 64 +
          (v % 64 + 128) % 64 = v
        omega
      · have hb := toNat_ofNat_byte (show v / 262144 % 0x08 + 0xf0 < 256 by omega)
        have hb1 := toNat_ofNat_byte (show v / 4096 % 0x40 + 0x80 < 256 by omega)
        have hb2 := toNat_ofNat_byte (show v / 64 % 0x40 + 0x80 < 256 by omega)
        have hb3 := toNat_ofNat_byte (show v % 0x40 + 0x80 < 256 by omega)
        rw [scanChar_cons (by rw [hb]; exact charWidth_four (by omega) (by omega)), hb,
          scanTails_cons (by rw [hb1, isSecond_iff]; omega), hb1,
          scanTails_cons (by rw [hb2, isTail_iff]; omega), hb2,
          scanTails_cons (by rw [hb3, isTail_iff]; omega), hb3, scanTails]
        refine congrArg (CharScan.char · []) (Eq.trans (congrArg Char.ofNat ?_) hofNat)
        show (((v / 262144 % 8 + 240) % 8 * 64 + (v / 4096 % 64 + 128) % 64) * 64 +
          (v / 64 % 64 + 128) % 64) * 64 + (v % 64 + 128) % 64 = v
        omega

theorem scanChar_encode_append : scanChar (String.utf8EncodeChar c ++ rest) = .char c rest :=
  scanChar_append (scanChar_encode c)

theorem of_scanTails_succ (h : scanTails (owed + 1) ok value seen bytes = .char c rest) :
    ∃ b bytes', bytes = b :: bytes' ∧ ok b.toNat = true ∧
      scanTails owed isTail (value * 64 + b.toNat % 64) (seen + 1) bytes' = .char c rest := by
  cases bytes with
  | nil => cases h
  | cons b bytes' =>
    rw [scanTails] at h
    split at h
    · rename_i hok
      exact ⟨b, bytes', rfl, hok, h⟩
    · cases h

theorem ofNat_byte {b : UInt8} {n : Nat} (h : n = b.toNat) : UInt8.ofNat n = b := by
  rw [h]
  exact UInt8.ofNat_toNat

theorem charWidth_cases {b : Nat} (h : charWidth b = owed + 1) :
    owed = 0 ∧ b < 0x80 ∨ owed = 1 ∧ 0xC2 ≤ b ∧ b < 0xE0 ∨ owed = 2 ∧ 0xE0 ≤ b ∧ b < 0xF0 ∨
      owed = 3 ∧ 0xF0 ≤ b ∧ b < 0xF5 := by
  unfold charWidth at h
  split_ifs at h <;> omega

theorem val_ofNat {n : Nat} (h : n.isValidChar) : (Char.ofNat n).val.toNat = n := by
  rw [Char.ofNat, dif_pos h]
  rfl

/-- What is read as a character is its encoding. -/
theorem eq_encode_of_scanChar (h : scanChar bytes = .char c rest) :
    bytes = String.utf8EncodeChar c ++ rest := by
  cases bytes with
  | nil => cases h
  | cons b bytes =>
    cases hwidth : charWidth b.toNat with
    | zero =>
      rw [scanChar, hwidth] at h
      cases h
    | succ owed =>
      rw [scanChar_cons hwidth] at h
      rcases charWidth_cases hwidth with ⟨rfl, hb⟩ | ⟨rfl, hb⟩ | ⟨rfl, hb⟩ | ⟨rfl, hb⟩
      · cases h
        have hval : (Char.ofNat b.toNat).val.toNat = b.toNat := val_ofNat (.inl (by omega))
        show b :: rest = String.utf8EncodeChar (Char.ofNat b.toNat) ++ rest
        unfold String.utf8EncodeChar
        dsimp only
        rw [hval, if_pos (by omega), ofNat_byte rfl]
        rfl
      · obtain ⟨b1, bytes, rfl, hb1, h⟩ := of_scanTails_succ h
        cases h
        rw [isSecond_iff] at hb1
        have hval := val_ofNat (n := b.toNat % 32 * 64 + b1.toNat % 64) (.inl (by omega))
        show b :: b1 :: rest = String.utf8EncodeChar (Char.ofNat _) ++ rest
        unfold String.utf8EncodeChar
        dsimp only
        rw [show firstBits 2 b.toNat = b.toNat % 32 from rfl, hval, if_neg (by omega),
          if_pos (by omega), ofNat_byte (b := b) (by omega), ofNat_byte (b := b1) (by omega)]
        rfl
      · obtain ⟨b1, bytes, rfl, hb1, h⟩ := of_scanTails_succ h
        obtain ⟨b2, bytes, rfl, hb2, h⟩ := of_scanTails_succ h
        cases h
        rw [isSecond_iff] at hb1
        rw [isTail_iff] at hb2
        have hval := val_ofNat
          (n := (b.toNat % 16 * 64 + b1.toNat % 64) * 64 + b2.toNat % 64) (by
            rw [Nat.isValidChar]
            omega)
        show b :: b1 :: b2 :: rest = String.utf8EncodeChar (Char.ofNat _) ++ rest
        unfold String.utf8EncodeChar
        dsimp only
        rw [show firstBits 3 b.toNat = b.toNat % 16 from rfl, hval, if_neg (by omega),
          if_neg (by omega), if_pos (by omega), ofNat_byte (b := b) (by omega),
          ofNat_byte (b := b1) (by omega), ofNat_byte (b := b2) (by omega)]
        rfl
      · obtain ⟨b1, bytes, rfl, hb1, h⟩ := of_scanTails_succ h
        obtain ⟨b2, bytes, rfl, hb2, h⟩ := of_scanTails_succ h
        obtain ⟨b3, bytes, rfl, hb3, h⟩ := of_scanTails_succ h
        cases h
        rw [isSecond_iff] at hb1
        rw [isTail_iff] at hb2 hb3
        have hval := val_ofNat
          (n := ((b.toNat % 8 * 64 + b1.toNat % 64) * 64 + b2.toNat % 64) * 64 + b3.toNat % 64) (by
            rw [Nat.isValidChar]
            omega)
        show b :: b1 :: b2 :: b3 :: rest = String.utf8EncodeChar (Char.ofNat _) ++ rest
        unfold String.utf8EncodeChar
        dsimp only
        rw [show firstBits 4 b.toNat = b.toNat % 8 from rfl, hval, if_neg (by omega),
          if_neg (by omega), if_neg (by omega), ofNat_byte (b := b) (by omega),
          ofNat_byte (b := b1) (by omega), ofNat_byte (b := b2) (by omega),
          ofNat_byte (b := b3) (by omega)]
        rfl

/-! ## Bytes that stop inside a character -/

theorem scanTails_replicate (owed value seen : Nat) : ∃ c, scanTails owed isTail value seen
    (List.replicate owed (0x80 : UInt8)) = .char c [] := by
  induction owed generalizing value seen with
  | zero => exact ⟨_, rfl⟩
  | succ owed ih =>
    obtain ⟨c, hc⟩ := ih (value * 64 + (0x80 : UInt8).toNat % 64) (seen + 1)
    exact ⟨c, (scanTails_cons rfl).trans hc⟩

/-- What stops inside a character can be completed to it, and is short. -/
theorem complete_scanTails (hok : ∃ b : UInt8, ok b.toNat = true)
    (h : scanTails owed ok value seen bytes = .incomplete) :
    bytes.length < owed ∧ ∃ more c, scanTails owed ok value seen (bytes ++ more) = .char c [] := by
  induction owed generalizing ok value seen bytes with
  | zero => cases h
  | succ owed ih =>
    cases bytes with
    | nil =>
      obtain ⟨b, hb⟩ := hok
      obtain ⟨c, hc⟩ := scanTails_replicate owed (value * 64 + b.toNat % 64) (seen + 1)
      exact ⟨Nat.succ_pos _, b :: List.replicate owed 0x80, c, (scanTails_cons hb).trans hc⟩
    | cons b bytes =>
      rw [scanTails] at h
      split at h
      · rename_i hb
        obtain ⟨hlen, more, c, hc⟩ := ih ⟨0x80, rfl⟩ h
        exact ⟨Nat.succ_lt_succ hlen, more, c, (scanTails_cons hb).trans hc⟩
      · cases h

theorem exists_isSecond (b : Nat) : ∃ b1 : UInt8, isSecond b b1.toNat = true := by
  by_cases hlow : b = 0xE0 ∨ b = 0xF0
  · refine ⟨0xA0, isSecond_iff.mpr ?_⟩
    rw [show (0xA0 : UInt8).toNat = 160 from rfl]
    omega
  · refine ⟨0x80, isSecond_iff.mpr ?_⟩
    rw [show (0x80 : UInt8).toNat = 128 from rfl]
    omega

theorem complete_scanChar (h : scanChar bytes = .incomplete) :
    bytes ≠ [] ∧ bytes.length ≤ 3 ∧ ∃ more c, bytes ++ more = String.utf8EncodeChar c := by
  cases bytes with
  | nil => cases h
  | cons b bytes =>
    cases hwidth : charWidth b.toNat with
    | zero =>
      rw [scanChar, hwidth] at h
      cases h
    | succ owed =>
      rw [scanChar_cons hwidth] at h
      obtain ⟨hlen, more, c, hc⟩ := complete_scanTails (exists_isSecond b.toNat) h
      refine ⟨List.cons_ne_nil _ _, ?_, more, c, ?_⟩
      · have hcases := charWidth_cases hwidth
        rw [List.length_cons]
        omega
      · have hread : scanChar (b :: (bytes ++ more)) = .char c [] := (scanChar_cons hwidth).trans hc
        rw [List.cons_append, eq_encode_of_scanChar hread, List.append_nil]

/-! ## Texts -/

theorem length_lt_of_scanChar (h : scanChar bytes = .char c rest) : rest.length < bytes.length := by
  have hpos : 0 < (String.utf8EncodeChar c).length := String.length_utf8EncodeChar c ▸ c.utf8Size_pos
  rw [eq_encode_of_scanChar h, List.length_append]
  omega

/-- The characters at the front, and the bytes after them. -/
def validPrefix (bytes : List UInt8) : Text × List UInt8 :=
  match _h : scanChar bytes with
  | .char c rest => (c :: (validPrefix rest).1, (validPrefix rest).2)
  | _ => ([], bytes)
termination_by bytes.length
decreasing_by all_goals exact length_lt_of_scanChar _h

/-- `Utf8Error`. -/
structure Utf8Error where
  validUpTo : Nat
  errorLen : Option Nat
  deriving DecidableEq

/-- `str::from_utf8`. -/
def fromUtf8 (bytes : List UInt8) : Except Utf8Error Text :=
  let (text, tail) := validPrefix bytes
  match scanChar tail with
  | .incomplete => .error ⟨bytes.length - tail.length, none⟩
  | .invalid n => .error ⟨bytes.length - tail.length, some n⟩
  | _ => .ok text

theorem validPrefix_of_char (h : scanChar bytes = .char c rest) :
    validPrefix bytes = (c :: (validPrefix rest).1, (validPrefix rest).2) := by
  rw [validPrefix]
  split
  · rename_i h'
    cases h.symm.trans h'
    rfl
  · rename_i hother
    exact absurd h (hother c rest)

theorem validPrefix_of_stop (h : ∀ c rest, scanChar bytes ≠ .char c rest) :
    validPrefix bytes = ([], bytes) := by
  rw [validPrefix]
  split
  · rename_i h'
    exact absurd h' (h _ _)
  · rfl

variable {t : Text}

theorem asBytes_cons : asBytes (c :: t) = String.utf8EncodeChar c ++ asBytes t := rfl

theorem validPrefix_append (t : Text) (bytes : List UInt8) :
    validPrefix (asBytes t ++ bytes) = (t ++ (validPrefix bytes).1, (validPrefix bytes).2) := by
  induction t with
  | nil => rfl
  | cons c t ih =>
    rw [asBytes_cons, List.append_assoc, validPrefix_of_char scanChar_encode_append, ih]
    rfl

/-- The valid prefix is encoded at the front, and no character follows it. -/
theorem validPrefix_spec (bytes : List UInt8) :
    bytes = asBytes (validPrefix bytes).1 ++ (validPrefix bytes).2 ∧
      ∀ c rest, scanChar (validPrefix bytes).2 ≠ .char c rest := by
  induction bytes using validPrefix.induct with
  | case1 bytes c rest h ih =>
    rw [validPrefix_of_char h]
    refine ⟨?_, ih.2⟩
    rw [asBytes_cons, List.append_assoc, ← ih.1]
    exact eq_encode_of_scanChar h
  | case2 bytes h =>
    rw [validPrefix_of_stop h]
    exact ⟨rfl, h⟩

theorem validPrefix_asBytes (t : Text) : validPrefix (asBytes t) = (t, []) := by
  have hnil : validPrefix [] = ([], []) := validPrefix_of_stop fun _ _ h => nomatch h
  have h := validPrefix_append t []
  rwa [List.append_nil, hnil, List.append_nil] at h

@[simp] theorem fromUtf8_asBytes (t : Text) : fromUtf8 (asBytes t) = .ok t := by
  rw [fromUtf8, validPrefix_asBytes]
  rfl

/-- Bytes that end between characters or inside one. -/
def IsOpen (bytes : List UInt8) : Prop := scanChar bytes = .empty ∨ scanChar bytes = .incomplete

theorem isOpen_nil : IsOpen [] := .inl rfl

theorem IsOpen.validPrefix (h : IsOpen bytes) : Text.validPrefix bytes = ([], bytes) := by
  refine validPrefix_of_stop fun c rest hchar => ?_
  rcases h with h | h
  · cases h.symm.trans hchar
  · cases h.symm.trans hchar

theorem scanTails_ne_empty : scanTails owed ok value seen bytes ≠ .empty := by
  induction owed generalizing ok value seen bytes with
  | zero => exact fun h => nomatch h
  | succ owed ih =>
    cases bytes with
    | nil => exact fun h => nomatch h
    | cons b bytes =>
      rw [scanTails]
      split
      · exact ih
      · exact fun h => nomatch h

theorem scanChar_eq_empty : scanChar bytes = .empty ↔ bytes = [] := by
  refine ⟨fun h => ?_, fun h => h ▸ rfl⟩
  cases bytes with
  | nil => rfl
  | cons b bytes =>
    rw [scanChar] at h
    split at h
    · cases h
    · exact absurd h scanTails_ne_empty

theorem IsOpen.length_le (h : IsOpen bytes) : bytes.length ≤ 3 := by
  rcases h with h | h
  · rw [scanChar_eq_empty.mp h]
    exact Nat.zero_le _
  · exact (complete_scanChar h).2.1

/-- What is left after the valid prefix is open, or stays invalid whatever follows. -/
theorem isOpen_or_invalid (bytes : List UInt8) :
    IsOpen (Text.validPrefix bytes).2 ∨
      ∃ n, ∀ more, scanChar ((Text.validPrefix bytes).2 ++ more) = .invalid n := by
  cases h : scanChar (Text.validPrefix bytes).2 with
  | empty => exact .inl (.inl h)
  | char c rest => exact absurd h ((validPrefix_spec bytes).2 c rest)
  | incomplete => exact .inl (.inr h)
  | invalid n => exact .inr ⟨n, fun more => scanChar_append_invalid h⟩

/-- Bytes whose tail is invalid are the front of no text. -/
theorem not_prefix_of_invalid (h : ¬ IsOpen (Text.validPrefix bytes).2) :
    bytes ++ more ≠ asBytes t := by
  intro htext
  obtain ⟨n, hinvalid⟩ := (isOpen_or_invalid bytes).resolve_left h
  have hsplit := validPrefix_append (Text.validPrefix bytes).1 ((Text.validPrefix bytes).2 ++ more)
  rw [← List.append_assoc, ← (validPrefix_spec bytes).1, htext, validPrefix_asBytes,
    validPrefix_of_stop fun c rest hchar => nomatch (hinvalid more).symm.trans hchar] at hsplit
  have htail : (Text.validPrefix bytes).2 ++ more = [] := (Prod.mk.inj hsplit).2.symm
  cases (hinvalid more).symm.trans (congrArg scanChar htail)

/-- Bytes whose tail is open are the front of a text. -/
theorem prefix_of_isOpen (h : IsOpen (Text.validPrefix bytes).2) :
    ∃ more t, bytes ++ more = asBytes t := by
  have hbytes := (validPrefix_spec bytes).1
  rcases h with h | h
  · rw [scanChar_eq_empty.mp h, List.append_nil] at hbytes
    exact ⟨[], _, (List.append_nil bytes).trans hbytes⟩
  · obtain ⟨-, -, more, c, hc⟩ := complete_scanChar h
    refine ⟨more, (Text.validPrefix bytes).1 ++ [c], ?_⟩
    calc bytes ++ more
        = asBytes (Text.validPrefix bytes).1 ++ ((Text.validPrefix bytes).2 ++ more) := by
          rw [← List.append_assoc, ← hbytes]
      _ = asBytes ((Text.validPrefix bytes).1 ++ [c]) := by
          rw [hc, asBytes, asBytes, List.flatMap_append, List.flatMap_singleton]

/-- The tail is open where some bytes after it make a text. -/
theorem isOpen_iff_prefix :
    IsOpen (Text.validPrefix bytes).2 ↔ ∃ more t, bytes ++ more = asBytes t := by
  refine ⟨prefix_of_isOpen, fun ⟨more, t, htext⟩ => ?_⟩
  by_contra h
  exact not_prefix_of_invalid h htext

end Nanna.Lib.Text
