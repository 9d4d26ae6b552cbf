import Nanna.Lib.Utf8Scan
import Nanna.Scripting.PathKey

/-!
# Drive paths in a shell command

Git Bash takes a backslash for an escape, so `X:\a\b` becomes `/x/a/b` before a command is run. The scan gives every
character its part (`Piece`); it is run on the bytes, each read and written as a character.

On the bytes the scan gives the parts that it gives on the characters (`scan_bytes`), since nothing it looks for is
in a character of several bytes. So a rewritten command is the right one, spelled by its bytes
(`normalizeDrivePaths_eq`).
-/

namespace Nanna.Scripting.DrivePaths

open Nanna.Lib Nanna.Lib.Text

/-! ## The scan -/

/-- What ends a path. -/
def isDelimiter (p : Char) : Bool := p ∈ [' ', '\t', '"', '\'', '|', '>', '<', '&', ';', '\n']

/-- What a path may start behind. -/
def isBoundary (c : Char) : Bool := c ∈ [' ', '\t', '"', '|', '&', ';', '(', '\n', '=']

/-- `X:\` or `X:/`. -/
def drivePrefix : Text → Bool
  | x :: colon :: s :: _ => x.isAlpha && colon = ':' && (s = '\\' || s = '/')
  | _ => false

/-- Where the scan is: outside quotes, inside single quotes, behind the letter of a drive, or in its path. -/
inductive Place where
  | outside (prevBoundary : Bool)
  | quoted
  | colon (drive : Char)
  | path

/-- The part of a character in a command. -/
inductive Piece where
  | kept (c : Char)
  | letter (c : Char)
  | colon (drive : Char)
  | path (c : Char)
deriving DecidableEq

namespace Piece

def char : Piece → Char
  | kept c | letter c | path c => c
  | colon _ => ':'

/-- `X:` becomes `/x`, and backslashes become slashes. -/
def written : Piece → Char
  | kept c => c
  | letter _ => '/'
  | colon drive => drive
  | path c => if c = '\\' then '/' else c

def isLetter : Piece → Bool
  | letter _ => true
  | _ => false

end Piece

/-- Behind a character that no path goes on with. -/
def Place.next (c : Char) : Place := if c = '\'' then .quoted else .outside (isBoundary c)

def scan : Place → Text → List Piece
  | _, [] => []
  | .outside prevBoundary, c :: rest =>
    if prevBoundary && drivePrefix (c :: rest) then .letter c :: scan (.colon c.toLower) rest
    else .kept c :: scan (.next c) rest
  | .quoted, c :: rest => .kept c :: scan (if c = '\'' then .outside false else .quoted) rest
  | .colon drive, _ :: rest => .colon drive :: scan .path rest
  | .path, p :: rest =>
    -- the delimiter is read as outside a path, with no boundary before it
    if isDelimiter p then .kept p :: scan (.next p) rest else .path p :: scan .path rest

/-- `b as char`. -/
def asChar (b : UInt8) : Char := Char.ofNat b.toNat

/-- The bytes of a text, each as a character. -/
def bytesAsChars (t : Text) : Text := (asBytes t).map asChar

def normalizeDrivePaths (command : Text) : Text :=
  if ':' ∉ command then command
  else
    let pieces := scan (.outside true) (bytesAsChars command)
    if pieces.any Piece.isLetter then pieces.map Piece.written else command

/-! ## What it is for -/

def pieces (command : Text) : List Piece := scan (.outside true) command

/-- The drive paths of a command rewritten, and every other character kept. -/
def rewritten (command : Text) : Text := (pieces command).map Piece.written

variable {c d p x a : Char} {t rest high : Text} {place : Place} {ps : List Piece} {b : Bool}

/-! ## Bytes read as characters -/

def latin (c : Char) : Text := (String.utf8EncodeChar c).map asChar

@[simp] theorem bytesAsChars_nil : bytesAsChars [] = [] := rfl

@[simp] theorem bytesAsChars_cons : bytesAsChars (c :: t) = latin c ++ bytesAsChars t := List.map_append

theorem bytesAsChars_eq : bytesAsChars t = t.flatMap latin := by
  induction t with
  | nil => rfl
  | cons c t ih => rw [bytesAsChars_cons, ih, List.flatMap_cons]

theorem toNat_asChar (byte : UInt8) : (asChar byte).toNat = byte.toNat := by
  have hlt := byte.toNat_lt
  exact val_ofNat (.inl (by omega))

theorem latin_ascii (h : isAscii c = true) : latin c = [c] := by
  rw [latin, String.utf8EncodeChar_eq_singleton (isAscii_iff.mp h), List.map_singleton]
  refine congrArg (· :: []) (Char.toNat_inj.mp ?_)
  rw [toNat_asChar, UInt32.toNat_toUInt8]
  exact Nat.mod_eq_of_lt (Nat.lt_trans (of_decide_eq_true h) (by decide))

theorem length_latin : (latin c).length = c.utf8Size := by
  rw [latin, List.length_map, String.length_utf8EncodeChar]

theorem latin_ne_nil : latin c ≠ [] := List.ne_nil_of_length_pos (length_latin ▸ c.utf8Size_pos)

theorem high_of_mem_latin (h : isAscii c = false) (hd : d ∈ latin c) : isAscii d = false := by
  obtain ⟨byte, hbyte, rfl⟩ := List.mem_map.mp hd
  rw [isAscii, toNat_asChar, decide_eq_false_iff_not]
  intro hlow
  rw [isAscii_iff.mpr (utf8Size_of_ascii_byte hbyte (UInt8.lt_iff_toNat_lt.mpr hlow))] at h
  cases h

theorem length_bytesAsChars : (bytesAsChars t).length = byteLen t := by
  induction t with
  | nil => rfl
  | cons c t ih => rw [bytesAsChars_cons, List.length_append, length_latin, ih, byteLen_cons]

theorem length_bytesAsChars_iff : (bytesAsChars t).length = t.length ↔ ∀ c ∈ t, isAscii c = true := by
  induction t with
  | nil => simp
  | cons c t ih =>
    have hpos := c.utf8Size_pos
    have hle := length_le_byteLen t
    rw [length_bytesAsChars] at ih
    rw [List.forall_mem_cons, ← ih, length_bytesAsChars, byteLen_cons, List.length_cons, isAscii_iff]
    omega

theorem bytesAsChars_ascii (h : ∀ c ∈ t, isAscii c = true) : bytesAsChars t = t := by
  induction t with
  | nil => rfl
  | cons c t ih =>
    rw [List.forall_mem_cons] at h
    rw [bytesAsChars_cons, latin_ascii h.1, ih h.2, List.singleton_append]

theorem isAlpha_iff : x.isAlpha = true ↔ (65 ≤ x.val ∧ x.val ≤ 90) ∨ (97 ≤ x.val ∧ x.val ≤ 122) := by
  change (decide (65 ≤ x.val ∧ x.val ≤ 90) || (decide (97 ≤ x.val) && decide (x.val ≤ 122))) = true ↔ _
  simp

theorem isAlpha_toLower (h : x.isAlpha = true) : x.toLower.isAlpha = true := by
  rw [isAlpha_iff] at h ⊢
  rw [val_toLower]
  grind

theorem isAscii_of_isAlpha (h : x.isAlpha = true) : isAscii x = true := by
  have hle : x.val ≤ 122 := (isAlpha_iff.mp h).elim (fun h => Nat.le_trans h.2 (by decide)) And.right
  exact decide_eq_true (Nat.lt_of_le_of_lt hle (by decide))

theorem ne_of_high (h : isAscii d = false) (ha : isAscii a = true) : d ≠ a := by
  rintro rfl
  rw [h] at ha
  cases ha

theorem not_mem_of_high {marks : List Char} (hmarks : marks.all isAscii = true) (h : isAscii d = false) :
    d ∉ marks := fun hmem => ne_of_high h (List.all_eq_true.mp hmarks d hmem) rfl

theorem isDelimiter_high (h : isAscii d = false) : isDelimiter d = false :=
  decide_eq_false (not_mem_of_high (by decide) h)

theorem next_high (h : isAscii d = false) : Place.next d = .outside false := by
  rw [Place.next, if_neg (ne_of_high h (by decide)), isBoundary, decide_eq_false (not_mem_of_high (by decide) h)]

theorem drivePrefix_high (h : isAscii d = false) : drivePrefix (d :: rest) = false := by
  have halpha : d.isAlpha = false := eq_false_of_ne_true fun hd => by
    rw [isAscii_of_isAlpha hd] at h
    cases h
  rcases rest with _ | ⟨colon, _ | ⟨s, rest⟩⟩ <;> simp [drivePrefix, halpha]

theorem latin_high (h : isAscii c = false) : ∃ d high, latin c = d :: high ∧ isAscii d = false := by
  obtain ⟨d, high, hlatin⟩ := List.exists_cons_of_ne_nil (@latin_ne_nil c)
  exact ⟨d, high, hlatin, high_of_mem_latin h (hlatin ▸ List.mem_cons_self)⟩

theorem drivePrefix_bytes : drivePrefix (c :: bytesAsChars t) = drivePrefix (c :: t) := by
  rcases t with _ | ⟨colon, t⟩
  · rfl
  · rcases hcolon : isAscii colon
    · obtain ⟨d, high, hlatin, hd⟩ := latin_high hcolon
      have hne := ne_of_high hcolon (by decide : isAscii ':' = true)
      have hne' := ne_of_high hd (by decide : isAscii ':' = true)
      rw [bytesAsChars_cons, hlatin]
      rcases t with _ | ⟨s, t⟩ <;> rcases high with _ | ⟨e, high⟩ <;>
        rcases bytesAsChars _ with _ | ⟨f, bytes⟩ <;> simp [drivePrefix, hne, hne']
    · rw [bytesAsChars_cons, latin_ascii hcolon]
      rcases t with _ | ⟨s, t⟩
      · rfl
      · rcases hs : isAscii s
        · obtain ⟨d, high, hlatin, hd⟩ := latin_high hs
          rw [bytesAsChars_cons, hlatin]
          simp [drivePrefix, ne_of_high hs (by decide : isAscii '\\' = true),
            ne_of_high hs (by decide : isAscii '/' = true), ne_of_high hd (by decide : isAscii '\\' = true),
            ne_of_high hd (by decide : isAscii '/' = true)]
        · rw [bytesAsChars_cons, latin_ascii hs]
          rfl

theorem scan_outside_high (hne : high ≠ []) (h : ∀ d ∈ high, isAscii d = false) :
    scan (.outside b) (high ++ t) = high.map .kept ++ scan (.outside false) t := by
  induction high generalizing b with
  | nil => exact absurd rfl hne
  | cons d high ih =>
    rw [List.forall_mem_cons] at h
    rw [List.cons_append, scan, drivePrefix_high h.1, Bool.and_false, if_neg Bool.false_ne_true, next_high h.1]
    rcases eq_or_ne high [] with rfl | hhigh
    · rfl
    · rw [ih hhigh h.2]
      rfl

theorem scan_quoted_high (h : ∀ d ∈ high, isAscii d = false) :
    scan .quoted (high ++ t) = high.map .kept ++ scan .quoted t := by
  induction high with
  | nil => rfl
  | cons d high ih =>
    rw [List.forall_mem_cons] at h
    rw [List.cons_append, scan, if_neg (ne_of_high h.1 (by decide)), ih h.2]
    rfl

theorem scan_path_high (h : ∀ d ∈ high, isAscii d = false) :
    scan .path (high ++ t) = high.map .path ++ scan .path t := by
  induction high with
  | nil => rfl
  | cons d high ih =>
    rw [List.forall_mem_cons] at h
    rw [List.cons_append, scan, isDelimiter_high h.1, if_neg Bool.false_ne_true, ih h.2]
    rfl

/-- What the bytes of a piece's character are. -/
def Piece.spread : Piece → List Piece
  | kept c => (latin c).map kept
  | letter c => [letter c]
  | colon drive => (latin drive).map colon
  | path c => (latin c).map path

/-- Behind a letter there is a colon. -/
def Place.Ready (t : Text) : Place → Prop
  | colon drive => drive.isAlpha = true ∧ ∃ rest, t = ':' :: rest
  | _ => True

theorem ready_of_drivePrefix (h : drivePrefix (c :: rest) = true) : Place.Ready rest (.colon c.toLower) := by
  rcases rest with _ | ⟨colon, _ | ⟨s, rest⟩⟩
  · cases h
  · cases h
  · rw [drivePrefix, Bool.and_eq_true, Bool.and_eq_true, decide_eq_true_eq] at h
    exact ⟨isAlpha_toLower h.1.1, _, congrArg (· :: _) h.1.2⟩

theorem ready_next : (Place.next c).Ready t := by
  unfold Place.next
  split <;> trivial

theorem scan_bytes (h : place.Ready t) : scan place (bytesAsChars t) = (scan place t).flatMap Piece.spread := by
  induction t generalizing place with
  | nil => cases place <;> rfl
  | cons c t ih =>
    cases place with
    | outside b =>
      rcases hc : isAscii c
      · rw [bytesAsChars_cons, scan_outside_high latin_ne_nil fun d => high_of_mem_latin hc, scan,
          drivePrefix_high hc, Bool.and_false, if_neg Bool.false_ne_true, next_high hc, @ih (.outside false) trivial]
        rfl
      · rw [bytesAsChars_cons, latin_ascii hc, List.singleton_append, scan, scan, drivePrefix_bytes]
        split
        · rename_i hdrive
          rw [ih (ready_of_drivePrefix (Bool.and_eq_true_iff.mp hdrive).2)]
          rfl
        · rw [ih ready_next, List.flatMap_cons, Piece.spread, latin_ascii hc]
          rfl
    | quoted =>
      rcases hc : isAscii c
      · rw [bytesAsChars_cons, scan_quoted_high fun d => high_of_mem_latin hc, scan,
          if_neg (ne_of_high hc (by decide)), @ih .quoted trivial]
        rfl
      · rw [bytesAsChars_cons, latin_ascii hc, List.singleton_append, scan, scan, List.flatMap_cons, Piece.spread,
          latin_ascii hc]
        split
        · rw [@ih (.outside false) trivial]
          rfl
        · rw [@ih .quoted trivial]
          rfl
    | colon drive =>
      obtain ⟨hdrive, rest, heq⟩ := h
      cases heq
      rw [bytesAsChars_cons, latin_ascii (by decide), List.singleton_append, scan, scan, @ih .path trivial,
        List.flatMap_cons, Piece.spread, latin_ascii (isAscii_of_isAlpha hdrive)]
      rfl
    | path =>
      rcases hc : isAscii c
      · rw [bytesAsChars_cons, scan_path_high fun d => high_of_mem_latin hc, scan, isDelimiter_high hc,
          if_neg Bool.false_ne_true, @ih .path trivial]
        rfl
      · rw [bytesAsChars_cons, latin_ascii hc, List.singleton_append, scan, scan]
        split
        · rw [ih ready_next, List.flatMap_cons, Piece.spread, latin_ascii hc]
          rfl
        · rw [@ih .path trivial, List.flatMap_cons, Piece.spread, latin_ascii hc]
          rfl

theorem written_spread (piece : Piece) : piece.spread.map Piece.written = latin piece.written := by
  cases piece with
  | kept c => exact (List.map_map).trans (List.map_id _)
  | letter c => exact (latin_ascii rfl).symm
  | colon drive => exact (List.map_map).trans (List.map_id _)
  | path c =>
    rcases hc : isAscii c
    · have hkeep : ∀ d ∈ latin c, (Piece.written ∘ .path) d = d := fun d hd =>
        if_neg (ne_of_high (high_of_mem_latin hc hd) (by decide))
      rw [Piece.spread, List.map_map, List.map_congr_left hkeep, List.map_id', Piece.written,
        if_neg (ne_of_high hc (by decide))]
    · have hwritten : isAscii (Piece.written (.path c)) = true := by
        rw [Piece.written]
        split
        · rfl
        · exact hc
      rw [Piece.spread, latin_ascii hc, latin_ascii hwritten]
      rfl

theorem any_letter_spread (piece : Piece) : piece.spread.any Piece.isLetter = piece.isLetter := by
  cases piece with
  | letter c => rfl
  | _ => simp [Piece.spread, Piece.isLetter]

/-- No drive path is in the command. -/
def Untouched (command : Text) : Prop := (pieces command).any Piece.isLetter = false

theorem colon_of_letter (h : (scan place t).any Piece.isLetter = true) : ':' ∈ t := by
  induction t generalizing place with
  | nil => cases place <;> cases h
  | cons c t ih =>
    refine List.mem_cons_of_mem c ?_
    cases place with
    | outside b =>
      rw [scan] at h
      split at h
      · rename_i hdrive
        obtain ⟨-, rest, rfl⟩ := ready_of_drivePrefix (Bool.and_eq_true_iff.mp hdrive).2
        exact List.mem_cons_self
      · exact ih h
    | quoted => exact ih h
    | colon drive => exact ih h
    | path =>
      rw [scan] at h
      split at h
      · exact ih h
      · exact ih h

/-- A rewritten command is spelled by its bytes. -/
theorem normalizeDrivePaths_eq (command : Text) : normalizeDrivePaths command =
    if (pieces command).any Piece.isLetter then bytesAsChars (rewritten command) else command := by
  have hbytes : scan (.outside true) (bytesAsChars command) = (pieces command).flatMap Piece.spread :=
    @scan_bytes _ (.outside true) trivial
  have hany : ((pieces command).flatMap Piece.spread).any Piece.isLetter = (pieces command).any Piece.isLetter := by
    rw [List.any_flatMap]
    exact congrArg (pieces command).any (funext any_letter_spread)
  have hwritten : ((pieces command).flatMap Piece.spread).map Piece.written = bytesAsChars (rewritten command) := by
    rw [List.map_flatMap, bytesAsChars_eq, rewritten, List.flatMap_map]
    exact congrArg (fun f => (pieces command).flatMap f) (funext written_spread)
  simp only [normalizeDrivePaths, hbytes, hany, hwritten]
  split
  · rename_i hcolon
    exact (if_neg fun hletter => hcolon (@colon_of_letter _ (.outside true) hletter)).symm
  · rfl

end Nanna.Scripting.DrivePaths
