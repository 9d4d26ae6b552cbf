import Nanna.Scripting.DrivePaths

/-!
# When drive paths are rewritten right

`drive_paths_iff`: a command is rewritten by its characters, and a second application changes nothing, exactly where
no drive path is in it, or where it is ASCII and no path goes on with a drive prefix behind a boundary (`Nested`).

A second scan goes through what the first has written in step with it (`Follows`), and finds a letter only in a path.
-/

namespace Nanna.Scripting.DrivePaths

open Nanna.Lib Nanna.Lib.Text

/-- A path goes on with a drive prefix behind a boundary. -/
def Nested (pieces : List Piece) : Prop :=
  ∃ c x s, isBoundary c = true ∧ x.isAlpha = true ∧ s ∈ ['\\', '/'] ∧
    [.path c, .path x, .path ':', .path s] <:+: pieces

variable {c d p x a : Char} {t rest : Text} {place : Place} {ps : List Piece} {b : Bool}

/-! ## The pieces of a command -/

theorem map_char_scan (h : place.Ready t) : (scan place t).map Piece.char = t := by
  induction t generalizing place with
  | nil => cases place <;> rfl
  | cons c t ih =>
    cases place with
    | outside b =>
      rw [scan]
      split
      · rename_i hdrive
        exact congrArg (c :: ·) (ih (ready_of_drivePrefix (Bool.and_eq_true_iff.mp hdrive).2))
      · exact congrArg (c :: ·) (ih ready_next)
    | quoted =>
      refine congrArg (c :: ·) (ih ?_)
      split <;> trivial
    | colon drive =>
      obtain ⟨-, rest, heq⟩ := h
      cases heq
      exact congrArg (':' :: ·) (@ih .path trivial)
    | path =>
      rw [scan]
      split
      · exact congrArg (c :: ·) (ih ready_next)
      · exact congrArg (c :: ·) (@ih .path trivial)

/-- The letter of a drive. -/
def Piece.Sound : Piece → Prop
  | letter c | colon c => c.isAlpha = true
  | _ => True

theorem isAlpha_of_drivePrefix (h : drivePrefix (c :: rest) = true) : c.isAlpha = true := by
  rcases rest with _ | ⟨colon, _ | ⟨s, rest⟩⟩
  · cases h
  · cases h
  · rw [drivePrefix, Bool.and_eq_true, Bool.and_eq_true] at h
    exact h.1.1

theorem scan_sound (h : place.Ready t) : ∀ piece ∈ scan place t, piece.Sound := by
  induction t generalizing place with
  | nil => cases place <;> exact fun _ hmem => absurd hmem List.not_mem_nil
  | cons c t ih =>
    cases place with
    | outside b =>
      rw [scan]
      split
      · rename_i hdrive
        have hprefix := (Bool.and_eq_true_iff.mp hdrive).2
        exact List.forall_mem_cons.mpr ⟨isAlpha_of_drivePrefix hprefix, ih (ready_of_drivePrefix hprefix)⟩
      · exact List.forall_mem_cons.mpr ⟨trivial, ih ready_next⟩
    | quoted =>
      refine List.forall_mem_cons.mpr ⟨trivial, ih ?_⟩
      split <;> trivial
    | colon drive => exact List.forall_mem_cons.mpr ⟨h.1, @ih .path trivial⟩
    | path =>
      rw [scan]
      split
      · exact List.forall_mem_cons.mpr ⟨trivial, ih ready_next⟩
      · exact List.forall_mem_cons.mpr ⟨trivial, @ih .path trivial⟩

/-- Without a letter there is no path. -/
theorem kept_of_no_letter (h : (scan place t).any Piece.isLetter = false)
    (hplace : place = .quoted ∨ ∃ b, place = .outside b) :
    ∀ piece ∈ scan place t, piece.written = piece.char := by
  induction t generalizing place with
  | nil => cases place <;> exact fun _ hmem => absurd hmem List.not_mem_nil
  | cons c t ih =>
    have hnext : Place.next c = .quoted ∨ ∃ b, Place.next c = .outside b := by
      unfold Place.next
      split
      · exact .inl rfl
      · exact .inr ⟨_, rfl⟩
    rcases hplace with rfl | ⟨b, rfl⟩
    · refine List.forall_mem_cons.mpr ⟨rfl, ih h ?_⟩
      split
      · exact .inr ⟨_, rfl⟩
      · exact .inl rfl
    · rw [scan] at h ⊢
      split at h
      · cases h
      · rename_i hdrive
        rw [if_neg hdrive]
        exact List.forall_mem_cons.mpr ⟨rfl, ih h hnext⟩

theorem map_char_pieces (command : Text) : (pieces command).map Piece.char = command :=
  @map_char_scan _ (.outside true) trivial

theorem length_rewritten {command : Text} : (rewritten command).length = command.length := by
  conv_rhs => rw [← map_char_pieces command]
  rw [rewritten, List.length_map, List.length_map]

theorem rewritten_of_untouched {command : Text} (h : Untouched command) : rewritten command = command := by
  have hkept : ∀ piece ∈ pieces command, piece.written = piece.char := kept_of_no_letter h (.inr ⟨true, rfl⟩)
  rw [rewritten, List.map_congr_left hkept, map_char_pieces]

theorem untouched_of_rewritten {command : Text} (h : rewritten command = command) : Untouched command := by
  have heq : ∀ piece ∈ pieces command, piece.written = piece.char :=
    List.map_inj_left.mp (h.trans (map_char_pieces command).symm)
  rw [Untouched, List.any_eq_false]
  intro piece hpiece hletter
  cases piece with
  | letter c =>
    have halpha : c.isAlpha = true := @scan_sound _ (.outside true) trivial _ hpiece
    have hslash : '/' = c := heq _ hpiece
    rw [← hslash] at halpha
    cases halpha
  | _ => cases hletter

theorem isAscii_written {piece : Piece} (h : piece.Sound) : isAscii piece.written = isAscii piece.char := by
  cases piece with
  | kept c => rfl
  | letter c => exact (isAscii_of_isAlpha h).symm
  | colon drive => exact isAscii_of_isAlpha h
  | path c =>
    by_cases hc : c = '\\'
    · subst hc
      rfl
    · exact congrArg isAscii (if_neg hc)

theorem ascii_rewritten_iff {command : Text} :
    (∀ c ∈ rewritten command, isAscii c = true) ↔ ∀ c ∈ command, isAscii c = true := by
  have hsound := @scan_sound command (.outside true) trivial
  conv_rhs => rw [← map_char_pieces command]
  rw [rewritten, List.forall_mem_map, List.forall_mem_map]
  exact forall₂_congr fun piece hpiece => by rw [isAscii_written (hsound piece hpiece)]

/-! ## A second application -/

theorem nested_cons {piece : Piece} : Nested (piece :: ps) ↔
    (∃ c x s, isBoundary c = true ∧ x.isAlpha = true ∧ s ∈ ['\\', '/'] ∧ piece = .path c ∧
      [.path x, .path ':', .path s] <+: ps) ∨ Nested ps := by
  constructor
  · rintro ⟨c, x, s, hc, hx, hs, h⟩
    rcases List.infix_cons_iff.mp h with h | h
    · obtain ⟨rfl, hrest⟩ := List.cons_prefix_cons.mp h
      exact .inl ⟨c, x, s, hc, hx, hs, rfl, hrest⟩
    · exact .inr ⟨c, x, s, hc, hx, hs, h⟩
  · rintro (⟨c, x, s, hc, hx, hs, rfl, h⟩ | ⟨c, x, s, hc, hx, hs, h⟩)
    · exact ⟨c, x, s, hc, hx, hs, List.infix_cons_iff.mpr (.inl (List.cons_prefix_cons.mpr ⟨rfl, h⟩))⟩
    · exact ⟨c, x, s, hc, hx, hs, List.infix_cons h⟩

theorem nested_kept : Nested (.kept c :: ps) ↔ Nested ps := by
  rw [nested_cons]
  exact or_iff_right fun ⟨_, _, _, _, _, _, h, _⟩ => by cases h

theorem nested_letter : Nested (.letter c :: ps) ↔ Nested ps := by
  rw [nested_cons]
  exact or_iff_right fun ⟨_, _, _, _, _, _, h, _⟩ => by cases h

theorem nested_colon : Nested (.colon c :: ps) ↔ Nested ps := by
  rw [nested_cons]
  exact or_iff_right fun ⟨_, _, _, _, _, _, h, _⟩ => by cases h

theorem not_alpha_of_mem {marks : List Char} (hmarks : marks.all (!·.isAlpha) = true) (h : p ∈ marks) :
    p.isAlpha = false := by
  simpa using List.all_eq_true.mp hmarks p h

theorem not_alpha_of_delimiter (h : isDelimiter p = true) : p.isAlpha = false :=
  not_alpha_of_mem (by decide) (of_decide_eq_true h)

theorem path_cons_iff {l : List Piece} : .path p :: l <+: scan .path t ↔
    ∃ rest, t = p :: rest ∧ isDelimiter p = false ∧ l <+: scan .path rest := by
  cases t with
  | nil => simp [scan]
  | cons c t =>
    rw [scan]
    constructor
    · intro h
      split at h
      · obtain ⟨hhead, -⟩ := List.cons_prefix_cons.mp h
        cases hhead
      · rename_i hc
        obtain ⟨hhead, hrest⟩ := List.cons_prefix_cons.mp h
        cases hhead
        exact ⟨t, rfl, eq_false_of_ne_true hc, hrest⟩
    · rintro ⟨rest, heq, hp, hrest⟩
      cases heq
      rw [if_neg (ne_true_of_eq_false hp)]
      exact List.cons_prefix_cons.mpr ⟨rfl, hrest⟩

/-- In a path, the pieces of a drive prefix are a drive prefix of the text. -/
theorem prefix_pieces_iff : (∃ x s, x.isAlpha = true ∧ s ∈ ['\\', '/'] ∧
    [.path x, .path ':', .path s] <+: scan .path t) ↔ drivePrefix t = true := by
  constructor
  · rintro ⟨x, s, hx, hs, h⟩
    obtain ⟨t, rfl, -, h⟩ := path_cons_iff.mp h
    obtain ⟨t, rfl, -, h⟩ := path_cons_iff.mp h
    obtain ⟨t, rfl, -, -⟩ := path_cons_iff.mp h
    simpa [drivePrefix, hx] using hs
  · intro h
    rcases t with _ | ⟨x, _ | ⟨colon, _ | ⟨s, t⟩⟩⟩
    · cases h
    · cases h
    · cases h
    · simp only [drivePrefix, Bool.and_eq_true, Bool.or_eq_true, decide_eq_true_eq] at h
      obtain ⟨⟨hx, rfl⟩, hs⟩ := h
      have hdelim : isDelimiter x = false := eq_false_of_ne_true fun hd => by
        rw [not_alpha_of_delimiter hd] at hx
        cases hx
      have hs' : s ∈ ['\\', '/'] := by simpa using hs
      have hslash : isDelimiter s = false := by rcases hs with rfl | rfl <;> rfl
      refine ⟨x, s, hx, hs', path_cons_iff.mpr ⟨_, rfl, hdelim, path_cons_iff.mpr ⟨_, rfl, rfl, ?_⟩⟩⟩
      exact path_cons_iff.mpr ⟨_, rfl, hslash, List.nil_prefix⟩

theorem nested_path : Nested (.path p :: scan .path t) ↔
    (isBoundary p = true ∧ drivePrefix t = true) ∨ Nested (scan .path t) := by
  rw [nested_cons, ← prefix_pieces_iff]
  refine or_congr_left ?_
  constructor
  · rintro ⟨c, x, s, hc, hx, hs, heq, h⟩
    cases heq
    exact ⟨hc, x, s, hx, hs, h⟩
  · rintro ⟨hc, x, s, hx, hs, h⟩
    exact ⟨p, x, s, hc, hx, hs, rfl, h⟩

theorem drivePrefix_ne {colon : Char} (h : colon ≠ ':') : drivePrefix (x :: colon :: t) = false := by
  cases t with
  | nil => rfl
  | cons s t => simp [drivePrefix, h]

theorem drivePrefix_of_not_alpha (h : x.isAlpha = false) : drivePrefix (x :: t) = false := by
  rcases t with _ | ⟨colon, _ | ⟨s, t⟩⟩ <;> simp [drivePrefix, h]

theorem drivePrefix_outside :
    drivePrefix (x :: (scan (.outside false) t).map Piece.written) = drivePrefix (x :: t) := by
  rcases t with _ | ⟨colon, t⟩
  · rfl
  · rw [scan, Bool.false_and, if_neg Bool.false_ne_true, List.map_cons, Piece.written]
    by_cases hcolon : colon = ':'
    · subst hcolon
      cases t with
      | nil => rfl
      | cons s t => rfl
    · rw [drivePrefix_ne hcolon, drivePrefix_ne hcolon]

theorem written_path_cases (p : Char) :
    (p = '\\' ∧ Piece.written (.path p) = '/') ∨ (p ≠ '\\' ∧ Piece.written (.path p) = p) := by
  by_cases hp : p = '\\'
  · exact .inl ⟨hp, if_pos hp⟩
  · exact .inr ⟨hp, if_neg hp⟩

theorem drivePrefix_colon :
    drivePrefix (x :: ':' :: (scan .path t).map Piece.written) = drivePrefix (x :: ':' :: t) := by
  cases t with
  | nil => rfl
  | cons s t =>
    rw [scan]
    split
    · rfl
    · rcases written_path_cases s with ⟨rfl, -⟩ | ⟨-, hs⟩
      · simp [drivePrefix, Piece.written]
      · rw [List.map_cons, hs]
        rfl

theorem drivePrefix_path :
    drivePrefix (Piece.written (.path p) :: (scan .path t).map Piece.written) = drivePrefix (p :: t) := by
  rcases written_path_cases p with ⟨rfl, hp⟩ | ⟨-, hp⟩
  · rw [hp, drivePrefix_of_not_alpha rfl, drivePrefix_of_not_alpha rfl]
  · rw [hp]
    cases t with
    | nil => rfl
    | cons colon t =>
      rw [scan]
      split
      · rename_i hdelim
        have hcolon : colon ≠ ':' := by
          rintro rfl
          cases hdelim
        rw [List.map_cons, Piece.written, drivePrefix_ne hcolon, drivePrefix_ne hcolon]
      · by_cases hcolon : colon = ':'
        · subst hcolon
          exact drivePrefix_colon
        · have hwritten : Piece.written (.path colon) ≠ ':' := by
            rcases written_path_cases colon with ⟨-, h⟩ | ⟨-, h⟩ <;> rw [h]
            · decide
            · exact hcolon
          rw [List.map_cons, drivePrefix_ne hwritten, drivePrefix_ne hcolon]

theorem next_of_alpha (h : x.isAlpha = true) : Place.next x = .outside false := by
  have hquote : x ≠ '\'' := by
    rintro rfl
    cases h
  have hboundary : isBoundary x = false := decide_eq_false fun hmem => by
    rw [not_alpha_of_mem (by decide) hmem] at h
    cases h
  rw [Place.next, if_neg hquote, hboundary]

theorem next_written_path (h : isDelimiter p = false) :
    Place.next (Piece.written (.path p)) = .outside (isBoundary p) := by
  rcases written_path_cases p with ⟨rfl, hp⟩ | ⟨-, hp⟩
  · rw [hp]
    rfl
  · have hquote : p ≠ '\'' := by
      rintro rfl
      cases h
    rw [hp, Place.next, if_neg hquote]

/-- Where a second scan is, where the first one is. -/
inductive Follows : Place → Place → Prop
  | outside (b : Bool) : Follows (.outside b) (.outside b)
  | quoted : Follows .quoted .quoted
  | colon (drive : Char) : Follows (.colon drive) (.outside false)
  | path (b : Bool) : Follows .path (.outside b)

theorem follows_next : Follows (.next c) (.next c) := by
  unfold Place.next
  split
  · exact .quoted
  · exact .outside _

theorem next_ne_path : Place.next c ≠ .path := by
  unfold Place.next
  split <;> rintro ⟨⟩

theorem scan_quoted :
    scan .quoted (c :: t) = .kept c :: scan (if c = '\'' then .outside false else .quoted) t := rfl

theorem any_kept : (.kept c :: ps).any Piece.isLetter = ps.any Piece.isLetter := rfl

theorem any_outside (h : (b && drivePrefix (c :: t)) = false) :
    (scan (.outside b) (c :: t)).any Piece.isLetter = (scan (.next c) t).any Piece.isLetter := by
  rw [scan, if_neg (ne_true_of_eq_false h)]
  rfl

theorem nested_nil : ¬ Nested [] := fun ⟨_, _, _, _, _, _, h⟩ => List.cons_ne_nil _ _ (List.infix_nil.mp h)

/-- The letters that a second scan finds are in the drive prefixes of paths. -/
theorem letter_again {place' : Place} (hfollows : Follows place place') (h : place.Ready t) :
    (scan place' ((scan place t).map Piece.written)).any Piece.isLetter = true ↔
      (place = .path ∧ place' = .outside true ∧ drivePrefix t = true) ∨ Nested (scan place t) := by
  induction t generalizing place place' with
  | nil =>
    have hnil (place : Place) : scan place [] = [] := by cases place <;> rfl
    rw [hnil, List.map_nil, hnil]
    simp [drivePrefix, nested_nil]
  | cons c t ih =>
    have again {place place' : Place} (hfollows : Follows place place') (h : place.Ready t)
        (hpath : place ≠ .path ∨ place' ≠ .outside true) :
        (scan place' ((scan place t).map Piece.written)).any Piece.isLetter = true ↔ Nested (scan place t) := by
      rw [ih hfollows h]
      exact or_iff_right fun hextra => hpath.elim (absurd hextra.1) (absurd hextra.2.1)
    cases hfollows with
    | outside b =>
      rw [or_iff_right (by rintro ⟨⟨⟩, -⟩), scan]
      split
      · rename_i hdrive
        have hready := ready_of_drivePrefix (Bool.and_eq_true_iff.mp hdrive).2
        rw [nested_letter, List.map_cons,
          any_outside (by rw [Piece.written, drivePrefix_of_not_alpha rfl, Bool.and_false])]
        exact again (.colon c.toLower) hready (.inl (by rintro ⟨⟩))
      · rename_i hkept
        have hsecond : (b && drivePrefix (c :: (scan (.next c) t).map Piece.written)) = false := by
          refine eq_false_of_ne_true fun hdrive => hkept ?_
          rcases hc : c.isAlpha
          · rw [drivePrefix_of_not_alpha hc, Bool.and_false] at hdrive
            cases hdrive
          · rwa [next_of_alpha hc, drivePrefix_outside] at hdrive
        rw [nested_kept, List.map_cons, Piece.written, any_outside hsecond]
        exact again follows_next ready_next (.inl next_ne_path)
    | quoted =>
      rw [or_iff_right (by rintro ⟨⟨⟩, -⟩), scan_quoted, nested_kept, List.map_cons, Piece.written, scan_quoted,
        any_kept]
      split
      · exact again (.outside false) trivial (.inl (by rintro ⟨⟩))
      · exact again .quoted trivial (.inl (by rintro ⟨⟩))
    | colon drive =>
      obtain ⟨hdrive, rest, heq⟩ := h
      cases heq
      rw [or_iff_right (by rintro ⟨⟨⟩, -⟩), scan, nested_colon, List.map_cons, Piece.written,
        any_outside (Bool.false_and _), next_of_alpha hdrive]
      exact again (.path false) trivial (.inr (by rintro ⟨⟩))
    | path b =>
      rw [scan]
      split
      · rename_i hdelim
        have hplain (rest : Text) : drivePrefix (c :: rest) = false :=
          drivePrefix_of_not_alpha (not_alpha_of_delimiter hdelim)
        rw [hplain, or_iff_right (by rintro ⟨-, -, ⟨⟩⟩), nested_kept, List.map_cons, Piece.written,
          any_outside (by rw [hplain, Bool.and_false])]
        exact again follows_next ready_next (.inl next_ne_path)
      · rename_i hdelim
        rw [List.map_cons]
        rcases hdrive : b && drivePrefix (c :: t)
        · have hextra : ¬ (Place.path = .path ∧ Place.outside b = .outside true ∧ drivePrefix (c :: t) = true) := by
            rintro ⟨-, hb, hprefix⟩
            rw [Place.outside.inj hb, hprefix] at hdrive
            cases hdrive
          rw [or_iff_right hextra, any_outside (by rw [drivePrefix_path, hdrive]),
            next_written_path (eq_false_of_ne_true hdelim), ih (.path _) trivial, nested_path]
          simp
        · rw [scan, drivePrefix_path, if_pos hdrive]
          rw [Bool.and_eq_true] at hdrive
          exact iff_of_true rfl (.inl ⟨rfl, congrArg _ hdrive.1, hdrive.2⟩)

theorem untouched_again {command : Text} : Untouched (rewritten command) ↔ ¬ Nested (pieces command) := by
  have hagain := letter_again (.outside true) (t := command) trivial
  rw [or_iff_right (by rintro ⟨⟨⟩, -⟩)] at hagain
  rw [pieces, ← hagain, Bool.not_eq_true]
  rfl

end Nanna.Scripting.DrivePaths
