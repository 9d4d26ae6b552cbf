import Nanna.Lib.Utf8
import Nanna.Memory.ChunkStore

/-!
# Splitting a memory into chunks

`chunk_text_lossless`: on every text and every budget `chunk_text` ends, cuts on character
boundaries only, and its chunks rebuild the text (`Lossless`).

Proof. Every preferred break lies on a boundary and in the back half of its window
(`findBreak_spec`): a delimiter found by `rfind` ends at a boundary, and so does the whitespace byte
after a sentence, since a byte below 128 is a character of its own. So a pass of the loop takes a
non-empty piece off the rest (`takeBytes_spec`), and the loop's chunks are a `Chunked` of the text,
by induction on the fuel (`chunkLoop_spec`). The properties are read off a `Chunked` one by one.
-/

namespace Nanna.Memory

open Nanna.Lib (Text)
open Nanna.Lib.Text

/-! ## Parameters -/

def memoryChunkTargetChars : Nat := 3200
def memoryObservationHeaderChars : Nat := 192
def charsPerToken : Nat := 3
def chunkerVersion : Int := 1

structure ChunkParams where
  maxChars : Nat
  version : Int
  deriving DecidableEq

def ChunkParams.supersedes (self other : ChunkParams) : Bool :=
  self.maxChars ≠ other.maxChars || self.version ≠ other.version

/-- `usize` saturates far above the target, so the product may be the exact one. -/
def chunkMaxCharsForWindow (embeddingWindowTokens : Nat) : Nat :=
  if embeddingWindowTokens = 0 then memoryChunkTargetChars
  else
    let usable := embeddingWindowTokens * charsPerToken - memoryObservationHeaderChars
    min (max usable 1) memoryChunkTargetChars

def deriveChunkParams (windowTokens : Option Nat) : ChunkParams :=
  ⟨(windowTokens.map chunkMaxCharsForWindow).getD memoryChunkTargetChars, chunkerVersion⟩

theorem deriveChunkParams_maxChars (windowTokens : Option Nat) :
    0 < (deriveChunkParams windowTokens).maxChars ∧
      (deriveChunkParams windowTokens).maxChars ≤ memoryChunkTargetChars := by
  cases windowTokens with
  | none => exact ⟨by decide, le_rfl⟩
  | some n =>
    show 0 < chunkMaxCharsForWindow n ∧ chunkMaxCharsForWindow n ≤ memoryChunkTargetChars
    have htarget : 0 < memoryChunkTargetChars := by decide
    rw [chunkMaxCharsForWindow]
    split
    · exact ⟨htarget, le_rfl⟩
    · exact ⟨lt_min (Nat.lt_of_lt_of_le Nat.one_pos (Nat.le_max_right _ _)) htarget, min_le_right _ _⟩

/-! ## Break points -/

def breakSearchFraction : Nat := 2

/-- The body of the scans for a sentence and for a space. -/
def keepCut {α : Type} (floor : Nat) (cutAt : α → Option Nat) (best : Option Nat) (place : α) :
    Option Nat :=
  match cutAt place with
  | some cut => if floor < cut then some cut else best
  | none => best

/-- The last of the cuts that lies beyond the floor. -/
def lastCut {α : Type} (floor : Nat) (cutAt : α → Option Nat) (places : List α) : Option Nat :=
  places.foldl (keepCut floor cutAt) none

/-- Paragraph, then line. -/
def lineDelimiters : List Text := ["\n\n".toList, "\r\n\r\n".toList, "\n".toList, "\r\n".toList]

def lineBreak (floor : Nat) (window : Text) : Option Nat :=
  lineDelimiters.findSome? fun delimiter =>
    (rfind delimiter window).bind fun idx =>
      let cut := idx + byteLen delimiter
      if floor < cut then some cut else none

def isTerminal (b : UInt8) : Bool := b = 46 || b = 33 || b = 63

/-- `u8::is_ascii_whitespace`. -/
def isAsciiWhitespace (b : UInt8) : Bool := b = 32 || b = 9 || b = 10 || b = 12 || b = 13

/-- Terminal punctuation and whitespace, as a pair of bytes with the offset of the first. -/
def sentenceEnd : (UInt8 × UInt8) × Nat → Option Nat
  | ((b0, b1), idx) => if isTerminal b0 && isAsciiWhitespace b1 then some (idx + 2) else none

def spaceEnd : Nat × Char → Option Nat
  | (idx, ch) => if isWhitespace ch then some (idx + ch.utf8Size) else none

/-- `bytes.windows(2).enumerate()`. -/
def bytePairs (window : Text) : List ((UInt8 × UInt8) × Nat) :=
  (window.asBytes.zip window.asBytes.tail).zipIdx

def findBreak (window : Text) : Option Nat :=
  let floor := byteLen window / breakSearchFraction
  match lineBreak floor window with
  | some cut => some cut
  | none =>
    match lastCut floor sentenceEnd (bytePairs window) with
    | some cut => some cut
    | none => lastCut floor spaceEnd (charIndices window)

variable {window rest content : Text} {floor cut limit start ordinal : Nat}

theorem keepCut_eq_some {α : Type} {cutAt : α → Option Nat} {best : Option Nat} {place : α}
    (h : keepCut floor cutAt best place = some cut) :
    best = some cut ∨ cutAt place = some cut ∧ floor < cut := by
  rw [keepCut] at h
  split at h
  · split at h
    · obtain rfl := Option.some.inj h
      exact .inr ⟨‹_›, ‹_›⟩
    · exact .inl h
  · exact .inl h

theorem foldl_keepCut_eq_some {α : Type} {cutAt : α → Option Nat} {best : Option Nat}
    {places : List α} (h : places.foldl (keepCut floor cutAt) best = some cut) :
    best = some cut ∨ ∃ place ∈ places, cutAt place = some cut ∧ floor < cut := by
  induction places generalizing best with
  | nil => exact .inl h
  | cons place places ih =>
    rcases ih h with hbest | ⟨p, hp, hcut⟩
    · rcases keepCut_eq_some hbest with hbest | hcut
      · exact .inl hbest
      · exact .inr ⟨place, List.mem_cons_self, hcut⟩
    · exact .inr ⟨p, List.mem_cons_of_mem _ hp, hcut⟩

theorem lastCut_eq_some {α : Type} {cutAt : α → Option Nat} {places : List α}
    (h : lastCut floor cutAt places = some cut) :
    ∃ place ∈ places, cutAt place = some cut ∧ floor < cut :=
  (foldl_keepCut_eq_some h).resolve_left (by rintro ⟨⟩)

theorem lineBreak_spec (h : lineBreak floor window = some cut) :
    IsBoundary cut window ∧ floor < cut := by
  obtain ⟨delimiter, -, hd⟩ := List.exists_of_findSome?_eq_some h
  obtain ⟨idx, hidx, hcut⟩ := Option.bind_eq_some_iff.mp hd
  dsimp only at hcut
  split at hcut
  · obtain rfl := Option.some.inj hcut
    exact ⟨rfind_boundary hidx, ‹_›⟩
  · cases hcut

/-- The byte after a sentence's last is whitespace, hence a character. -/
theorem sentenceEnd_boundary {place : (UInt8 × UInt8) × Nat} (hmem : place ∈ bytePairs window)
    (h : sentenceEnd place = some cut) : IsBoundary cut window := by
  obtain ⟨⟨b0, b1⟩, idx⟩ := place
  rw [sentenceEnd] at h
  split at h
  case isFalse => cases h
  case isTrue hpair =>
    obtain rfl := Option.some.inj h
    have hzip : (window.asBytes.zip window.asBytes.tail)[idx]? = some (b0, b1) :=
      List.mk_mem_zipIdx_iff_getElem?.mp hmem
    obtain ⟨-, hnext⟩ := List.getElem?_zip_eq_some.mp hzip
    have hbyte : window.asBytes[idx + 1]? = some b1 := by rw [← hnext, List.getElem?_tail]
    have hascii : b1 < 128 := by
      simp only [isAsciiWhitespace, Bool.and_eq_true, Bool.or_eq_true, decide_eq_true_eq] at hpair
      rcases hpair.2 with (((rfl | rfl) | rfl) | rfl) | rfl <;> decide
    obtain ⟨pre, c, post, rfl, hlen, hsize⟩ := boundary_of_ascii_byte hbyte hascii
    refine ⟨pre ++ [c], post, by simp, ?_⟩
    rw [byteLen_append, byteLen_cons, byteLen_nil, hlen, hsize]

theorem spaceEnd_boundary {place : Nat × Char} (hmem : place ∈ charIndices window)
    (h : spaceEnd place = some cut) : IsBoundary cut window := by
  obtain ⟨idx, ch⟩ := place
  rw [spaceEnd] at h
  split at h
  · obtain rfl := Option.some.inj h
    exact charIndices_boundary hmem
  · cases h

/-- A preferred break is a boundary in the back half of the window. -/
theorem findBreak_spec (h : findBreak window = some cut) :
    IsBoundary cut window ∧ byteLen window < 2 * cut := by
  have key : IsBoundary cut window ∧ byteLen window / breakSearchFraction < cut := by
    rw [findBreak] at h
    split at h
    case h_1 hline =>
      obtain rfl := Option.some.inj h
      exact lineBreak_spec hline
    case h_2 =>
      split at h
      case h_1 hsentence =>
        obtain rfl := Option.some.inj h
        obtain ⟨place, hmem, hplace, hfloor⟩ := lastCut_eq_some hsentence
        exact ⟨sentenceEnd_boundary hmem hplace, hfloor⟩
      case h_2 =>
        obtain ⟨place, hmem, hplace, hfloor⟩ := lastCut_eq_some h
        exact ⟨spaceEnd_boundary hmem hplace, hfloor⟩
  refine ⟨key.1, ?_⟩
  have hfloor : byteLen window / 2 < cut := key.2
  omega

/-! ## The loop -/

structure Chunk where
  ordinal : Int
  content : Text
  charStart : Int
  charEnd : Int
  deriving DecidableEq

/-- The byte length of the first `maxChars` characters. -/
def windowBytes (maxChars : Nat) (rest : Text) : Nat :=
  ((charIndices rest)[maxChars]?.map (·.1)).getD (byteLen rest)

/-- No value where a slice panics. -/
def takeBytes (content rest : Text) (bytePos windowBytes : Nat) : Option Nat :=
  if byteLen content ≤ bytePos + windowBytes then some windowBytes
  else do
    let (window, _) ← splitBytes windowBytes rest
    some ((findBreak window).getD windowBytes)

/-- The `while`; no value where a slice panics or the fuel ends first. A text has at most
`isize::MAX` bytes, so the conversions to `i64` are exact. -/
def chunkLoop (content : Text) (maxChars : Nat) : Nat → Nat → Int → List Chunk → Option (List Chunk)
  | 0, bytePos, _, chunks => if bytePos < byteLen content then none else some chunks
  | fuel + 1, bytePos, charPos, chunks =>
    if bytePos < byteLen content then do
      let (_, rest) ← splitBytes bytePos content
      let take ← takeBytes content rest bytePos (windowBytes maxChars rest)
      let (piece, _) ← splitBytes take rest
      let pieceChars : Int := piece.length
      chunkLoop content maxChars fuel (bytePos + take) (charPos + pieceChars)
        (chunks ++ [⟨chunks.length, piece, charPos, charPos + pieceChars⟩])
    else some chunks

/-- `chunk_text`, given a number of passes. -/
def chunkText (fuel : Nat) (content : Text) (params : ChunkParams) : Option (List Chunk) :=
  chunkLoop content (max params.maxChars 1) fuel 0 0 []

/-! ## One piece -/

/-- The piece is the window's part before the preferred break, and more than half of the window in
bytes; or the whole window, which then has no such break. -/
def FairCut (limit : Nat) (rest piece : Text) : Prop :=
  match findBreak (rest.take limit) with
  | some cut => byteLen piece = cut ∧ byteLen (rest.take limit) < 2 * byteLen piece
  | none => piece = rest.take limit

/-- A piece that the loop may take off the rest. -/
structure PieceOf (limit : Nat) (piece post : Text) : Prop where
  nonempty : piece ≠ []
  bounded : piece.length ≤ limit
  fair : post ≠ [] → FairCut limit (piece ++ post) piece

theorem windowBytes_eq : windowBytes limit rest = byteLen (rest.take limit) := nth_offset

theorem splitBytes_window :
    splitBytes (byteLen (rest.take limit)) rest = some (rest.take limit, rest.drop limit) := by
  have hsplit : splitBytes (byteLen (rest.take limit)) (rest.take limit ++ rest.drop limit) =
      some (rest.take limit, rest.drop limit) := splitBytes_append
  rwa [List.take_append_drop] at hsplit

/-- The pass's cut is a boundary, and what lies before it is a piece. -/
theorem takeBytes_spec {done : Text} (hcontent : content = done ++ rest) (hne : rest ≠ [])
    (hlimit : 0 < limit) :
    ∃ piece post, rest = piece ++ post ∧ PieceOf limit piece post ∧
      takeBytes content rest (byteLen done) (windowBytes limit rest) = some (byteLen piece) := by
  have hbytes : byteLen rest = byteLen (rest.take limit) + byteLen (rest.drop limit) := by
    rw [← byteLen_append, List.take_append_drop]
  have hwindow : rest.take limit ≠ [] := by
    intro hnil
    rcases List.take_eq_nil_iff.mp hnil with hzero | hnil
    · omega
    · exact hne hnil
  have hlength : (rest.take limit).length ≤ limit := List.length_take_le _ _
  rw [takeBytes, windowBytes_eq, splitBytes_window, hcontent, byteLen_append]
  split
  case isTrue hlast =>
    -- The final chunk: the window is the whole rest.
    have hdrop : rest.drop limit = [] := by
      by_contra hdrop
      have hpos : 0 < byteLen (rest.drop limit) := byteLen_pos hdrop
      omega
    refine ⟨rest.take limit, [], ?_, ⟨hwindow, hlength, fun h => absurd rfl h⟩, rfl⟩
    rw [← hdrop, List.take_append_drop]
  case isFalse =>
    cases hbreak : findBreak (rest.take limit) with
    | none =>
      refine ⟨rest.take limit, rest.drop limit, (List.take_append_drop _ _).symm,
        ⟨hwindow, hlength, fun _ => ?_⟩, ?_⟩
      · rw [FairCut, List.take_append_drop, hbreak]
      · show some ((findBreak (rest.take limit)).getD _) = _
        rw [hbreak]
        rfl
    | some cut =>
      obtain ⟨⟨piece, tail, hsplit, rfl⟩, hhalf⟩ := findBreak_spec hbreak
      have hrest : rest = piece ++ (tail ++ rest.drop limit) := by
        rw [← List.append_assoc, ← hsplit, List.take_append_drop]
      have hpiece : piece.length ≤ (rest.take limit).length := by
        rw [hsplit, List.length_append]
        omega
      refine ⟨piece, tail ++ rest.drop limit, hrest, ⟨?_, hpiece.trans hlength, fun _ => ?_⟩, ?_⟩
      · rintro rfl
        rw [byteLen_nil] at hhalf
        omega
      · rw [FairCut, ← hrest, hbreak]
        exact ⟨rfl, hhalf⟩
      · show some ((findBreak (rest.take limit)).getD _) = _
        rw [hbreak]
        rfl

/-- A pass of the loop pushes the piece and moves both cursors past it. -/
theorem chunkLoop_succ {done piece post : Text} {fuel : Nat} {charPos : Int} {chunks : List Chunk}
    (hcontent : content = done ++ (piece ++ post)) (hpiece : piece ≠ [])
    (htake : takeBytes content (piece ++ post) (byteLen done) (windowBytes limit (piece ++ post)) =
      some (byteLen piece)) :
    chunkLoop content limit (fuel + 1) (byteLen done) charPos chunks =
      chunkLoop content limit fuel (byteLen (done ++ piece)) (charPos + piece.length)
        (chunks ++ [⟨chunks.length, piece, charPos, charPos + piece.length⟩]) := by
  have hpos : 0 < byteLen piece := byteLen_pos hpiece
  have hmore : byteLen done < byteLen content := by
    rw [hcontent, byteLen_append, byteLen_append]
    omega
  have hrest : splitBytes (byteLen done) content = some (done, piece ++ post) := by
    rw [hcontent, splitBytes_append]
  rw [chunkLoop, if_pos hmore, hrest]
  show (takeBytes content (piece ++ post) (byteLen done) _).bind _ = _
  rw [htake]
  show (splitBytes (byteLen piece) (piece ++ post)).bind _ = _
  rw [splitBytes_append, byteLen_append]
  rfl

theorem chunkLoop_done {fuel bytePos : Nat} {charPos : Int} {chunks : List Chunk}
    (hend : byteLen content ≤ bytePos) :
    chunkLoop content limit fuel bytePos charPos chunks = some chunks := by
  cases fuel with
  | zero => rw [chunkLoop, if_neg (by omega)]
  | succ fuel => rw [chunkLoop, if_neg (by omega)]

/-! ## The whole run -/

/-- Chunks of a text, from an ordinal and a character offset on. -/
inductive Chunked (limit : Nat) : Nat → Nat → Text → List Chunk → Prop
  | nil (ordinal start : Nat) : Chunked limit ordinal start [] []
  | cons {ordinal start : Nat} {piece post : Text} {chunks : List Chunk}
      (hpiece : PieceOf limit piece post)
      (hpost : Chunked limit (ordinal + 1) (start + piece.length) post chunks) :
      Chunked limit ordinal start (piece ++ post)
        (⟨ordinal, piece, start, start + piece.length⟩ :: chunks)

/-- With a pass for each character left, the loop cuts the rest. -/
theorem chunkLoop_spec (hlimit : 0 < limit) (start : Nat) (chunks : List Chunk) {done : Text}
    (hcontent : content = done ++ rest) :
    ∃ more, Chunked limit chunks.length start rest more ∧ ∀ fuel, rest.length ≤ fuel →
      chunkLoop content limit fuel (byteLen done) start chunks = some (chunks ++ more) := by
  induction hlen : rest.length using Nat.strong_induction_on generalizing done rest start chunks with
  | _ n ih =>
    subst hlen
    by_cases hne : rest = []
    · subst hne
      refine ⟨[], .nil _ _, fun fuel _ => ?_⟩
      rw [chunkLoop_done (by rw [hcontent, List.append_nil]), List.append_nil]
    · obtain ⟨piece, post, rfl, hpiece, htake⟩ := takeBytes_spec hcontent hne hlimit
      have hpos : 0 < piece.length := List.length_pos_iff.mpr hpiece.nonempty
      have hshort : post.length < (piece ++ post).length := by rw [List.length_append]; omega
      have hnext : content = (done ++ piece) ++ post := by rw [hcontent, List.append_assoc]
      obtain ⟨more, hmore, hrun⟩ := ih _ hshort (start + piece.length)
        (chunks ++ [⟨chunks.length, piece, start, start + piece.length⟩]) hnext rfl
      rw [List.length_append, List.length_singleton] at hmore
      refine ⟨_, .cons hpiece hmore, fun fuel hfuel => ?_⟩
      cases fuel with
      | zero => omega
      | succ fuel =>
        have hleft : post.length ≤ fuel := by omega
        have hrest := hrun fuel hleft
        rw [List.append_assoc, List.singleton_append] at hrest
        rw [chunkLoop_succ hcontent hpiece.nonempty htake, ← hrest, Int.natCast_add]

/-! ## Reading a chunk set -/

/-- What a chunk set promises of a text. -/
structure Lossless (content : Text) (limit : Nat) (chunks : List Chunk) : Prop where
  concat : (chunks.map (·.content)).flatten = content
  bounded : ∀ chunk ∈ chunks, chunk.content.length ≤ limit
  ordinals : ∀ i (h : i < chunks.length), chunks[i].ordinal = i
  first : ∀ chunk ∈ chunks.head?, chunk.charStart = 0
  contiguous : ∀ i (h : i + 1 < chunks.length), chunks[i + 1].charStart = chunks[i].charEnd
  ends : ∀ chunk ∈ chunks, chunk.charEnd = chunk.charStart + chunk.content.length
  /-- Every chunk starts where its offset says. -/
  addressed : ∀ chunk ∈ chunks, chunk.content <+: content.drop chunk.charStart.toNat
  /-- Every chunk but the last is its whole window or a fair part of it. -/
  fair : ∀ i (h : i + 1 < chunks.length),
    FairCut limit (content.drop chunks[i].charStart.toNat) chunks[i].content

namespace Chunked

variable {chunks : List Chunk}

theorem concat (h : Chunked limit ordinal start rest chunks) :
    (chunks.map (·.content)).flatten = rest := by
  induction h with
  | nil => rfl
  | cons hpiece hpost ih => rw [List.map_cons, List.flatten_cons, ih]

theorem bounded (h : Chunked limit ordinal start rest chunks) :
    ∀ chunk ∈ chunks, chunk.content.length ≤ limit := by
  induction h with
  | nil => exact fun _ h => absurd h List.not_mem_nil
  | cons hpiece hpost ih => exact List.forall_mem_cons.mpr ⟨hpiece.bounded, ih⟩

theorem ends (h : Chunked limit ordinal start rest chunks) :
    ∀ chunk ∈ chunks, chunk.charEnd = chunk.charStart + chunk.content.length := by
  induction h with
  | nil => exact fun _ h => absurd h List.not_mem_nil
  | cons hpiece hpost ih => exact List.forall_mem_cons.mpr ⟨rfl, ih⟩

theorem first (h : Chunked limit ordinal start rest chunks) :
    ∀ chunk ∈ chunks.head?, chunk.charStart = start := by
  cases h with
  | nil => exact fun _ h => absurd h (by simp)
  | cons hpiece hpost =>
    rintro chunk hchunk
    obtain rfl := Option.some.inj hchunk
    rfl

theorem ordinals (h : Chunked limit ordinal start rest chunks) (i : Nat) (hi : i < chunks.length) :
    chunks[i].ordinal = (ordinal + i : Nat) := by
  induction h generalizing i with
  | nil => exact absurd hi (Nat.not_lt_zero i)
  | cons hpiece hpost ih =>
    cases i with
    | zero => rfl
    | succ i =>
      rw [List.getElem_cons_succ, ih i (Nat.lt_of_succ_lt_succ hi), Nat.add_right_comm]
      rfl

theorem contiguous (h : Chunked limit ordinal start rest chunks) (i : Nat)
    (hi : i + 1 < chunks.length) : chunks[i + 1].charStart = chunks[i].charEnd := by
  induction h generalizing i with
  | nil => exact absurd hi (Nat.not_lt_zero _)
  | cons hpiece hpost ih =>
    cases i with
    | zero =>
      cases hpost with
      | nil => simp at hi
      | cons => exact Int.natCast_add _ _
    | succ i => exact ih i (Nat.lt_of_succ_lt_succ hi)

theorem ne_nil (h : Chunked limit ordinal start rest chunks) (hchunks : chunks ≠ []) :
    rest ≠ [] := by
  cases h with
  | nil => exact absurd rfl hchunks
  | cons hpiece hpost => exact List.append_ne_nil_of_left_ne_nil hpiece.nonempty _

/-- Every chunk is a piece of the rest at its offset. -/
theorem located (h : Chunked limit ordinal start rest chunks) (i : Nat) (hi : i < chunks.length) :
    ∃ offset post, chunks[i].charStart = (start + offset : Nat) ∧
      rest.drop offset = chunks[i].content ++ post ∧ PieceOf limit chunks[i].content post ∧
      (i + 1 < chunks.length → post ≠ []) := by
  induction h generalizing i with
  | nil => exact absurd hi (Nat.not_lt_zero i)
  | @cons _ _ piece post more hpiece hpost ih =>
    cases i with
    | zero =>
      refine ⟨0, post, rfl, rfl, hpiece, fun hmore => hpost.ne_nil ?_⟩
      rw [List.length_cons] at hmore
      exact List.length_pos_iff.mp (by omega)
    | succ i =>
      obtain ⟨offset, tail, hstart, hdrop, htail, hnext⟩ := ih i (Nat.lt_of_succ_lt_succ hi)
      refine ⟨piece.length + offset, tail, ?_, ?_, htail, fun hmore => hnext ?_⟩
      · rw [List.getElem_cons_succ, hstart, Nat.add_assoc]
      · rw [List.getElem_cons_succ, List.drop_length_add_append, hdrop]
      · exact Nat.lt_of_succ_lt_succ hmore

theorem lossless (h : Chunked limit 0 0 content chunks) : Lossless content limit chunks where
  concat := h.concat
  bounded := h.bounded
  ordinals i hi := by rw [h.ordinals i hi, Nat.zero_add]
  first := h.first
  contiguous := h.contiguous
  ends := h.ends
  addressed := by
    intro chunk hchunk
    obtain ⟨i, hi, rfl⟩ := List.mem_iff_getElem.mp hchunk
    obtain ⟨offset, post, hstart, hdrop, -, -⟩ := h.located i hi
    rw [hstart, Nat.zero_add, Int.toNat_natCast, hdrop]
    exact List.prefix_append _ _
  fair i hi := by
    obtain ⟨offset, post, hstart, hdrop, hpiece, hnext⟩ := h.located i (Nat.lt_of_succ_lt hi)
    rw [hstart, Nat.zero_add, Int.toNat_natCast, hdrop]
    exact hpiece.fair (hnext hi)

end Chunked

theorem chunkText_spec (content : Text) (params : ChunkParams) :
    ∃ chunks, (∀ fuel, content.length ≤ fuel → chunkText fuel content params = some chunks) ∧
      Chunked (max params.maxChars 1) 0 0 content chunks := by
  have hlimit : 0 < max params.maxChars 1 :=
    Nat.lt_of_lt_of_le Nat.one_pos (Nat.le_max_right _ _)
  obtain ⟨chunks, hchunked, hrun⟩ :=
    chunkLoop_spec hlimit 0 [] (show content = [] ++ content from rfl)
  exact ⟨chunks, hrun, hchunked⟩

/-- **Main result.** `chunk_text` ends within a pass for each character, no slice of it falls inside
a character, and its chunks are lossless and bounded. -/
theorem chunk_text_lossless (content : Text) (params : ChunkParams) :
    ∃ chunks, (∀ fuel, content.length ≤ fuel → chunkText fuel content params = some chunks) ∧
      Lossless content (max 1 params.maxChars) chunks := by
  obtain ⟨chunks, hrun, hchunked⟩ := chunkText_spec content params
  refine ⟨chunks, hrun, ?_⟩
  rw [Nat.max_comm]
  exact hchunked.lossless

/-! ## The stored chunks -/

section Stored

variable {F : Type} {chunks : List Chunk} (parent : Option (String × List F))

theorem chunkWrites_content (pieces : List Text) :
    (chunkWrites pieces parent).map (·.content) = pieces := by
  rw [chunkWrites, List.map_map]
  refine (List.map_congr_left fun p _ => ?_).trans (List.zipIdx_map_fst 0 pieces)
  rw [Function.comp_apply]
  cases parent with
  | none => rfl
  | some lent =>
    dsimp only
    split <;> rfl

theorem insertedRows_content (s : ChunkStore F) (memoryId : String) (writes : List (ChunkWrite F)) :
    (s.insertedRows memoryId writes).map (·.content) = writes.map (·.content) := by
  rw [ChunkStore.insertedRows, List.map_map]
  have hfst : (writes.zipIdx.map fun p => p.1.content) = (writes.zipIdx.map (·.1)).map (·.content) :=
    (List.map_map ..).symm
  exact hfst.trans (by rw [List.zipIdx_map_fst])

/-- The rows a memory's chunk set leaves in the table rebuild its text. -/
theorem stored_chunks_rebuild (s : ChunkStore F) (memoryId : String)
    (hchunks : Lossless content limit chunks) :
    (((s.replaceChunks memoryId (chunkWrites (chunks.map (·.content)) parent)).chunks.filter
      (·.memoryId = memoryId)).map (·.content)).flatten = content := by
  have hold : (s.chunks.filter (·.memoryId ≠ memoryId)).filter (·.memoryId = memoryId) = [] := by
    rw [List.filter_filter, List.filter_eq_nil_iff]
    intro c _ hc
    simp at hc
  have hnew : ∀ c ∈ s.insertedRows memoryId (chunkWrites (chunks.map (·.content)) parent),
      decide (c.memoryId = memoryId) = true := by
    intro c hc
    obtain ⟨i, w, -, rfl⟩ := ChunkStore.mem_insertedRows hc
    exact decide_eq_true rfl
  rw [ChunkStore.replaceChunks, List.filter_append, hold, List.nil_append,
    List.filter_eq_self.mpr hnew, insertedRows_content, chunkWrites_content]
  exact hchunks.concat

end Stored

end Nanna.Memory
