import Mathlib.Data.List.Chain
import Nanna.Agent.Compressor
import Nanna.Lib.CharBoundary
import Nanna.Lib.Decimal
import Nanna.Lib.RunLength

/-!
# A tool result as memory rows

`collapse_reversible`: collapsing repeated lines never lengthens a result, and a result with no marker line
of its own can be read back from what is left. `semanticChunk_covers`: the chunks of a text are slices of it
on character boundaries that start in or right after the chunk before, from its first byte to its last.

The overlap of two chunks is a product of floats and stands here as a number of bytes.
-/

namespace Nanna.Agent

open Nanna.Lib Nanna.Lib.Text

/-! ## Repeated lines -/

/-- The marker before its count. -/
def repeatPrefix : Text := "[REPEATED ×".toList

/-- The line that stands in for a collapsed run. -/
def repeatMarker (repeats : Nat) : Text :=
  repeatPrefix ++ Nat.toDigits 10 repeats ++ " — the line above occurred ".toList ++ Nat.toDigits 10 repeats ++
    " times in a row here with nothing between them, and ".toList ++ Nat.toDigits 10 (repeats - 1) ++
      (" identical copies were collapsed so this result costs memory in proportion to what it says. " ++
        "Nothing was lost.]").toList ++ ['\n']

/-- The run is kept as it is: the marker would not shrink it. -/
def keepsRun (line : Text) (repeats : Nat) : Bool :=
  repeats = 1 || repeats * byteLen line ≤ byteLen line + byteLen (repeatMarker repeats)

/-- The lines that one run leaves. -/
def collapseRun (run : Text × Nat) : List Text :=
  if keepsRun run.1 run.2 then List.replicate run.2 run.1 else [run.1, repeatMarker run.2]

def collapseRepeatedLines (text : Text) : Text := ((runs (splitInclusive text)).flatMap collapseRun).flatten

/-! ## Reading it back -/

/-- The count of a marker line. -/
def readMarker (line : Text) : Option Nat :=
  let repeats := Nat.ofDigitChars 10 ((line.drop repeatPrefix.length).takeWhile Char.isDigit) 0
  if line = repeatMarker repeats then some repeats else none

/-- Every marker gives back the copies of the line before it. -/
def restoreLines : Option Text → List Text → List Text
  | _, [] => []
  | last, line :: lines =>
    match last, readMarker line with
    | some last, some repeats => List.replicate (repeats - 1) last ++ restoreLines none lines
    | _, _ => line :: restoreLines (some line) lines

def restoreRepeatedLines (text : Text) : Text := (restoreLines none (splitInclusive text)).flatten

/-- No line of the text reads as a marker. -/
def Unmarked (text : Text) : Prop := ∀ line ∈ splitInclusive text, readMarker line = none

/-! ## Lines -/

/-- A line with its end. -/
def IsLine (line : Text) : Prop := ∃ body, line = body ++ ['\n'] ∧ '\n' ∉ body

/-- Lines that end, and at most one last line that does not. -/
inductive Lines : List Text → Prop
  | nil : Lines []
  | last {line : Text} : line ≠ [] → '\n' ∉ line → Lines [line]
  | cons {line : Text} {lines : List Text} : IsLine line → Lines lines → Lines (line :: lines)

variable {text line : Text} {lines rest : List Text} {repeats : Nat}

theorem splitInclusive_of_no_newline (hne : line ≠ []) (h : '\n' ∉ line) : splitInclusive line = [line] := by
  induction line with
  | nil => exact absurd rfl hne
  | cons c line ih =>
    obtain ⟨hc, hline⟩ : c ≠ '\n' ∧ '\n' ∉ line := by simpa [eq_comm] using h
    rw [splitInclusive, if_neg hc]
    cases line with
    | nil => rfl
    | cons d line => rw [ih (List.cons_ne_nil _ _) hline]

theorem splitInclusive_line (h : IsLine line) (text : Text) :
    splitInclusive (line ++ text) = line :: splitInclusive text := by
  obtain ⟨body, rfl, hbody⟩ := h
  induction body with
  | nil => simp [splitInclusive]
  | cons c body ih =>
    obtain ⟨hc, hbody⟩ : c ≠ '\n' ∧ '\n' ∉ body := by simpa [eq_comm] using hbody
    have hrest := ih hbody
    rw [List.cons_append, List.cons_append, splitInclusive, if_neg hc, hrest]

/-- Lines that are joined come apart as they were. -/
theorem splitInclusive_flatten (h : Lines lines) : splitInclusive lines.flatten = lines := by
  induction h with
  | nil => rfl
  | last hne hline => rw [List.flatten_singleton, splitInclusive_of_no_newline hne hline]
  | cons hline _ ih => rw [List.flatten_cons, splitInclusive_line hline, ih]

theorem lines_splitInclusive (text : Text) : Lines (splitInclusive text) := by
  induction text with
  | nil => exact .nil
  | cons c text ih =>
    rw [splitInclusive]
    split_ifs with hc
    · exact .cons ⟨[], by rw [hc]; rfl, List.not_mem_nil⟩ ih
    · have hne : '\n' ≠ c := Ne.symm hc
      cases hsplit : splitInclusive text with
      | nil => exact .last (List.cons_ne_nil _ _) (by simpa using hne)
      | cons line rest =>
        rw [hsplit] at ih
        cases ih with
        | last _ hline => exact .last (List.cons_ne_nil _ _) (by simp [hne, hline])
        | cons hline hrest =>
          obtain ⟨body, rfl, hbody⟩ := hline
          exact .cons ⟨c :: body, rfl, by simp [hne, hbody]⟩ hrest

theorem Lines.append (h : ∀ line ∈ lines, IsLine line) (hrest : Lines rest) : Lines (lines ++ rest) := by
  induction lines with
  | nil => exact hrest
  | cons line lines ih =>
    exact .cons (h line List.mem_cons_self) (ih fun l hl => h l (List.mem_cons_of_mem _ hl))

/-- What stands before another line ends. -/
theorem Lines.before (h : Lines (lines ++ rest)) (hrest : rest ≠ []) :
    (∀ line ∈ lines, IsLine line) ∧ Lines rest := by
  induction lines with
  | nil => exact ⟨fun _ hl => absurd hl List.not_mem_nil, h⟩
  | cons line lines ih =>
    rw [List.cons_append] at h
    have hne : lines ++ rest ≠ [] := fun hnil => hrest (List.append_eq_nil_iff.mp hnil).2
    generalize heq : lines ++ rest = all at h hne
    cases h with
    | last => exact absurd rfl hne
    | cons hline hlines =>
      obtain ⟨hbefore, hafter⟩ := ih (heq ▸ hlines)
      refine ⟨fun l hl => ?_, hafter⟩
      rcases List.mem_cons.mp hl with rfl | hl
      · exact hline
      · exact hbefore l hl

/-! ## Markers -/

theorem isLine_repeatMarker (repeats : Nat) : IsLine (repeatMarker repeats) := by
  have hdigits : ∀ n, '\n' ∉ Nat.toDigits 10 n := fun n hmem => absurd (isDigit_toDigits hmem) (by decide)
  unfold repeatMarker
  refine ⟨_, rfl, ?_⟩
  simp only [List.mem_append, String.toList_append, hdigits, or_false]
  decide

theorem readMarker_repeatMarker (repeats : Nat) : readMarker (repeatMarker repeats) = some repeats := by
  have hdigits : ((repeatMarker repeats).drop repeatPrefix.length).takeWhile Char.isDigit =
      Nat.toDigits 10 repeats := by
    unfold repeatMarker
    simp only [List.append_assoc, List.drop_left]
    rw [List.takeWhile_append_of_pos fun c hc => isDigit_toDigits hc]
    have hstop : " — the line above occurred ".toList = ' ' :: "— the line above occurred ".toList := rfl
    rw [hstop, List.cons_append, List.takeWhile_cons_of_neg (by decide), List.append_nil]
  rw [readMarker, hdigits, Nat.ofDigitChars_ten_toDigits]
  exact if_pos rfl

/-! ## Collapsing and reading back -/

/-- A collapsed run is made of lines that end, as the run was. -/
theorem collapseRun_lines {run : Text × Nat} (h : IsLine run.1) : ∀ line ∈ collapseRun run, IsLine line := by
  intro line hline
  unfold collapseRun at hline
  split_ifs at hline
  · rw [(List.mem_replicate.mp hline).2]
    exact h
  · rcases List.mem_cons.mp hline with rfl | hline
    · exact h
    · rw [List.mem_singleton.mp hline]
      exact isLine_repeatMarker run.2

theorem lines_collapse : ∀ {rs : List (Text × Nat)}, (∀ r ∈ rs, 0 < r.2) → Lines (expandRuns rs) →
    Lines (rs.flatMap collapseRun) := by
  intro rs
  induction rs with
  | nil => exact fun _ _ => .nil
  | cons run rs ih =>
    intro hpos h
    have hrest : ∀ r ∈ rs, 0 < r.2 := fun r hr => hpos r (List.mem_cons_of_mem _ hr)
    obtain ⟨line, repeats⟩ := run
    have hone := hpos _ List.mem_cons_self
    obtain ⟨repeats, rfl⟩ : ∃ k, repeats = k + 1 := ⟨repeats - 1, (Nat.sub_one_add_one hone.ne').symm⟩
    rw [expandRuns, List.flatMap_cons, ← expandRuns] at h
    rw [List.flatMap_cons]
    by_cases hnil : repeats = 0 ∧ rs = []
    · -- the last line alone
      obtain ⟨rfl, rfl⟩ := hnil
      simpa [collapseRun, keepsRun, expandRuns] using h
    · -- a copy of the line, or another run, comes after it
      have hsplit : List.replicate (repeats + 1) line ++ expandRuns rs =
          [line] ++ (List.replicate repeats line ++ expandRuns rs) := rfl
      have hafter : List.replicate repeats line ++ expandRuns rs ≠ [] := by
        intro hempty
        obtain ⟨hcopies, hruns⟩ := List.append_eq_nil_iff.mp hempty
        refine hnil ⟨by simpa using hcopies, ?_⟩
        cases rs with
        | nil => rfl
        | cons r rs =>
          have hr := hrest r List.mem_cons_self
          rw [expandRuns, List.flatMap_cons, List.append_eq_nil_iff, List.replicate_eq_nil_iff] at hruns
          omega
      rw [hsplit] at h
      obtain ⟨hline, hmore⟩ := h.before hafter
      refine .append (collapseRun_lines (hline line List.mem_cons_self)) (ih hrest ?_)
      by_cases hruns : expandRuns rs = []
      · rw [hruns]
        exact .nil
      · exact (hmore.before hruns).2

theorem restoreLines_line (h : readMarker line = none) (last : Option Text) (lines : List Text) :
    restoreLines last (line :: lines) = line :: restoreLines (some line) lines := by
  cases last <;> simp [restoreLines, h]

theorem restoreLines_marker (last : Text) (repeats : Nat) (lines : List Text) :
    restoreLines (some last) (repeatMarker repeats :: lines) =
      List.replicate (repeats - 1) last ++ restoreLines none lines := by
  simp [restoreLines, readMarker_repeatMarker]

theorem restoreLines_plain (h : ∀ line ∈ lines, readMarker line = none) (rest : List Text) :
    ∀ last, ∃ last', restoreLines last (lines ++ rest) = lines ++ restoreLines last' rest := by
  induction lines with
  | nil => exact fun last => ⟨last, rfl⟩
  | cons line lines ih =>
    intro last
    obtain ⟨last', hrest⟩ := ih (fun l hl => h l (List.mem_cons_of_mem _ hl)) (some line)
    refine ⟨last', ?_⟩
    rw [List.cons_append, List.cons_append, ← hrest, restoreLines_line (h line List.mem_cons_self)]

theorem restoreLines_collapse : ∀ {rs : List (Text × Nat)}, (∀ r ∈ rs, 0 < r.2 ∧ readMarker r.1 = none) →
    ∀ last, restoreLines last (rs.flatMap collapseRun) = expandRuns rs := by
  intro rs
  induction rs with
  | nil => exact fun _ last => by cases last <;> rfl
  | cons run rs ih =>
    intro h last
    obtain ⟨hpos, hplain⟩ := h run List.mem_cons_self
    have hrest := ih fun r hr => h r (List.mem_cons_of_mem _ hr)
    rw [List.flatMap_cons, expandRuns, List.flatMap_cons, ← expandRuns, collapseRun]
    split_ifs
    · have hcopies : ∀ l ∈ List.replicate run.2 run.1, readMarker l = none := fun l hl =>
        (List.mem_replicate.mp hl).2 ▸ hplain
      obtain ⟨last', hstep⟩ := restoreLines_plain hcopies (rs.flatMap collapseRun) last
      rw [hstep, hrest]
    · obtain ⟨repeats, hrepeats⟩ : ∃ k, run.2 = k + 1 := ⟨run.2 - 1, (Nat.sub_one_add_one hpos.ne').symm⟩
      show restoreLines last (run.1 :: repeatMarker run.2 :: rs.flatMap collapseRun) = _
      rw [restoreLines_line hplain, restoreLines_marker, hrest, hrepeats, List.replicate_succ]
      rfl

theorem byteLen_copies (line : Text) (repeats : Nat) :
    byteLen (List.replicate repeats line).flatten = repeats * byteLen line := by
  induction repeats with
  | zero => simp
  | succ n ih =>
    rw [List.replicate_succ, List.flatten_cons, byteLen_append, ih, Nat.succ_mul, Nat.add_comm]

/-- A run shrinks, or stays. -/
theorem collapseRun_shrinks (run : Text × Nat) : collapseRun run = List.replicate run.2 run.1 ∨
    byteLen (collapseRun run).flatten < byteLen (List.replicate run.2 run.1).flatten := by
  unfold collapseRun
  split_ifs with hkeep
  · exact .inl rfl
  · refine .inr ?_
    rw [byteLen_copies]
    simp only [keepsRun, Bool.or_eq_true, decide_eq_true_eq, not_or, not_le] at hkeep
    simpa using hkeep.2

theorem collapse_shrinks (rs : List (Text × Nat)) : rs.flatMap collapseRun = expandRuns rs ∨
    byteLen (rs.flatMap collapseRun).flatten < byteLen (expandRuns rs).flatten := by
  induction rs with
  | nil => exact .inl rfl
  | cons run rs ih =>
    rw [List.flatMap_cons, expandRuns, List.flatMap_cons, ← expandRuns, List.flatten_append, List.flatten_append,
      byteLen_append, byteLen_append]
    rcases collapseRun_shrinks run with hrun | hrun <;> rcases ih with hrest | hrest
    · exact .inl (by rw [hrun, hrest])
    · exact .inr (by rw [hrun]; omega)
    · exact .inr (by rw [hrest]; omega)
    · exact .inr (by omega)

/-- **Main result.** Collapsing gives the text back or a shorter one, and the text can be read back from it unless
a line of its own reads as a marker. -/
theorem collapse_reversible (text : Text) :
    (collapseRepeatedLines text = text ∨ byteLen (collapseRepeatedLines text) < byteLen text) ∧
      (Unmarked text → restoreRepeatedLines (collapseRepeatedLines text) = text) := by
  have hexpand : (expandRuns (runs (splitInclusive text))).flatten = text := by
    rw [expandRuns_runs, flatten_splitInclusive]
  refine ⟨?_, fun h => ?_⟩
  · rcases collapse_shrinks (runs (splitInclusive text)) with hsame | hless
    · exact .inl (by rw [collapseRepeatedLines, hsame, hexpand])
    · exact .inr (by rwa [hexpand] at hless)
  · have hlines : Lines ((runs (splitInclusive text)).flatMap collapseRun) := by
      refine lines_collapse (fun r hr => pos_of_mem_runs hr) ?_
      rw [expandRuns_runs]
      exact lines_splitInclusive text
    rw [restoreRepeatedLines, collapseRepeatedLines, splitInclusive_flatten hlines,
      restoreLines_collapse (fun r hr => ⟨pos_of_mem_runs hr, h r.1 (mem_of_mem_runs hr)⟩) none, hexpand]

/-- Three equal lines are one line and its marker. -/
theorem collapse_reversible_three_lines :
    let text := (List.replicate 3 (List.replicate 150 'x' ++ ['\n'])).flatten
    collapseRepeatedLines text ≠ text ∧ restoreRepeatedLines (collapseRepeatedLines text) = text := by
  refine ⟨by decide +kernel, (collapse_reversible _).2 fun line hline => ?_⟩
  have hsplit : splitInclusive (List.replicate 3 (List.replicate 150 'x' ++ ['\n'])).flatten =
      List.replicate 3 (List.replicate 150 'x' ++ ['\n']) := by decide +kernel
  rw [hsplit] at hline
  rw [(List.mem_replicate.mp hline).2]
  decide +kernel

/-! ## Chunks -/

/-- `snap_char`. -/
def snapChar (text : Text) (idx : Nat) : Nat := snapUp text (min idx (byteLen text))

/-- The end of a chunk: after the last line end of its window, if there is one. -/
def chunkEnd (text : Text) (target pos : Nat) : Option Nat :=
  let stop := snapChar text (pos + target)
  if stop < byteLen text then
    (sliceBytes text pos stop).map fun window =>
      let snapEnd := ((rfind ['\n'] window).map fun nl => pos + nl + 1).getD stop
      if snapEnd ≤ pos then stop else snapEnd
  else some stop

/-- The loop of `semantic_chunk`; there is no value where a slice panics or the rounds run out. -/
def semanticChunkFrom (text : Text) (target step : Nat) : Nat → Nat → Option (List Text)
  | 0, _ => none
  | fuel + 1, pos =>
    if pos < byteLen text then do
      let snapEnd ← chunkEnd text target pos
      let chunk ← sliceBytes text pos snapEnd
      let chunks ← semanticChunkFrom text target step fuel (snapChar text (pos + max (min step (snapEnd - pos)) 1))
      some (chunk :: chunks)
    else some []

def semanticChunk (text : Text) (target overlap : Nat) : Option (List Text) :=
  if byteLen text ≤ target then some [text]
  else semanticChunkFrom text target (max (target - overlap) 1) (byteLen text + 1) 0

/-- The chunks are the slices of these spans, which leave nothing out between `start` and the end. -/
structure Covers (text : Text) (size start : Nat) (spans : List (Nat × Nat)) (chunks : List Text) : Prop where
  slices : List.Forall₂ (fun span chunk => sliceBytes text span.1 span.2 = some chunk) spans chunks
  sizes : ∀ span ∈ spans, span.1 ≤ span.2 ∧ span.2 ≤ span.1 + size
  first : ∀ span ∈ spans.head?, span.1 = start
  joined : spans.IsChain fun span next => span.1 < next.1 ∧ next.1 ≤ span.2
  last : ∀ span ∈ spans.getLast?, span.2 = byteLen text
  ne_nil : spans ≠ []

section Chunks

variable {text : Text} {target step pos fuel : Nat}

theorem snapChar_spec (text : Text) (idx : Nat) : IsBoundary (snapChar text idx) text ∧
    min idx (byteLen text) ≤ snapChar text idx ∧ snapChar text idx < idx + 4 ∧
      ∀ m, IsBoundary m text → idx ≤ m → snapChar text idx ≤ m := by
  obtain ⟨hboundary, hle, hlt, hleast⟩ := snapUp_spec (Nat.min_le_right idx (byteLen text))
  exact ⟨hboundary, hle, by unfold snapChar; omega, fun m hm him => hleast m hm ((Nat.min_le_left _ _).trans him)⟩

/-- A chunk ends on a boundary after its start, not far behind its target. -/
theorem chunkEnd_spec (hpos : IsBoundary pos text) (hlt : pos < byteLen text) (htarget : 0 < target) :
    ∃ snapEnd, chunkEnd text target pos = some snapEnd ∧ IsBoundary snapEnd text ∧ pos < snapEnd ∧
      snapEnd ≤ pos + (target + 3) := by
  obtain ⟨hstop, hle, hfour, -⟩ := snapChar_spec text (pos + target)
  have hafter : pos < snapChar text (pos + target) := by omega
  unfold chunkEnd
  dsimp only
  split_ifs with hend
  · obtain ⟨window, hwindow, hlen, htake⟩ := sliceBytes_eq hpos hstop hafter.le
    rw [hwindow]
    refine ⟨_, rfl, ?_⟩
    dsimp only
    cases hnl : rfind ['\n'] window with
    | none =>
      rw [Option.map_none, Option.getD_none, if_neg (by omega)]
      exact ⟨hstop, hafter, by omega⟩
    | some nl =>
      have hline := rfind_boundary hnl
      have hone : byteLen ['\n'] = 1 := rfl
      rw [hone] at hline
      have hwithin := hline.le
      obtain ⟨pre, post, heq, hpre⟩ := hline
      rw [Option.map_some, Option.getD_some, if_neg (by omega)]
      refine ⟨?_, by omega, by omega⟩
      -- the line end cuts the window, and the window is a slice
      obtain ⟨tail, htail⟩ : ∃ tail, text = takeBytes (snapChar text (pos + target)) text ++ tail := by
        obtain ⟨front, tail, htext, hfront⟩ := hstop
        refine ⟨tail, ?_⟩
        generalize snapChar text (pos + target) = n at hfront
        rw [htext, ← hfront, takeBytes_self]
      refine ⟨takeBytes pos text ++ pre, post ++ tail, ?_, ?_⟩
      · rw [List.append_assoc, ← List.append_assoc pre, ← heq, ← List.append_assoc, htake]
        exact htail
      · rw [byteLen_append, hpos.byteLen_takeBytes, hpre, Nat.add_assoc]
  · exact ⟨_, rfl, hstop, hafter, by omega⟩

theorem semanticChunkFrom_spec (htarget : 0 < target) : ∀ {fuel pos : Nat}, IsBoundary pos text →
    byteLen text < pos + fuel → ∃ spans chunks, semanticChunkFrom text target step fuel pos = some chunks ∧
      if pos < byteLen text then Covers text (target + 3) pos spans chunks else chunks = [] := by
  intro fuel
  induction fuel with
  | zero =>
    intro pos hpos hfuel
    have := hpos.le
    omega
  | succ fuel ih =>
    intro pos hpos hfuel
    by_cases hlt : pos < byteLen text
    · obtain ⟨snapEnd, hend, hboundary, hafter, hsize⟩ := chunkEnd_spec hpos hlt htarget
      obtain ⟨chunk, hchunk, -, -⟩ := sliceBytes_eq hpos hboundary hafter.le
      obtain ⟨hnext, hnextLe, -, hleast⟩ := snapChar_spec text (pos + max (min step (snapEnd - pos)) 1)
      have hwithin := hleast snapEnd hboundary (by omega)
      have hle := hboundary.le
      obtain ⟨spans, chunks, hrest, hcovers⟩ := ih hnext (by omega)
      refine ⟨?_, chunk :: chunks, by simp [semanticChunkFrom, hlt, hend, hchunk, hrest], ?_⟩
      · exact if snapChar text (pos + max (min step (snapEnd - pos)) 1) < byteLen text then (pos, snapEnd) :: spans
          else [(pos, snapEnd)]
      rw [if_pos hlt]
      split_ifs at hcovers ⊢ with hmore
      · refine ⟨.cons hchunk hcovers.slices, fun span hspan => ?_, fun span hspan => ?_, ?_, fun span hspan => ?_,
          List.cons_ne_nil _ _⟩
        · rcases List.mem_cons.mp hspan with rfl | hspan
          · exact ⟨hafter.le, hsize⟩
          · exact hcovers.sizes span hspan
        · obtain rfl : (pos, snapEnd) = span := Option.some.inj hspan
          rfl
        · refine List.isChain_cons.mpr ⟨fun next hhead => ?_, hcovers.joined⟩
          rw [hcovers.first next hhead]
          exact ⟨by dsimp only; omega, hwithin⟩
        · rw [List.getLast?_cons_of_ne_nil hcovers.ne_nil] at hspan
          exact hcovers.last span hspan
      · subst hcovers
        refine ⟨.cons hchunk .nil, fun span hspan => ?_, fun span hspan => ?_, .singleton _,
          fun span hspan => ?_, List.cons_ne_nil _ _⟩
        · rw [List.mem_singleton.mp hspan]
          exact ⟨hafter.le, hsize⟩
        · obtain rfl : (pos, snapEnd) = span := Option.some.inj hspan
          rfl
        · obtain rfl : (pos, snapEnd) = span := Option.some.inj hspan
          dsimp only
          omega
    · exact ⟨[], [], by simp [semanticChunkFrom, hlt], by rw [if_neg hlt]⟩

/-- Chunking ends and cuts on boundaries only; each chunk starts behind the one before, in it or
right after it, and together they hold the text from its first byte to its last. -/
theorem semanticChunk_covers (text : Text) (target overlap : Nat) (h : 0 < target) :
    ∃ spans chunks, semanticChunk text target overlap = some chunks ∧ Covers text (target + 3) 0 spans chunks := by
  unfold semanticChunk
  split_ifs with hsmall
  · refine ⟨[(0, byteLen text)], [text], rfl, .cons (sliceBytes_full text) .nil, fun span hspan => ?_,
      fun span hspan => ?_, .singleton _, fun span hspan => ?_, List.cons_ne_nil _ _⟩
    · rw [List.mem_singleton.mp hspan]
      exact ⟨Nat.zero_le _, by dsimp only; omega⟩
    · obtain rfl : (0, byteLen text) = span := Option.some.inj hspan
      rfl
    · obtain rfl : (0, byteLen text) = span := Option.some.inj hspan
      rfl
  · obtain ⟨spans, chunks, hchunks, hcovers⟩ := semanticChunkFrom_spec h (IsBoundary.zero text)
      (Nat.lt_add_left 0 (Nat.lt_succ_self (byteLen text)))
    rw [if_pos (by omega)] at hcovers
    exact ⟨spans, chunks, hchunks, hcovers⟩

end Chunks

/-! ## The rows of a result -/

/-- `MEMORY_CHUNK_MAX_CHARS`. -/
def memoryChunkMaxChars : Nat := 3200

/-- What the call was, for the header and the tags of its rows. -/
structure ToolCallInfo where
  name : Text
  target : Option Text
  outcome : Text
  sourceId : Text

structure ToolRow where
  content : Text
  tags : String → Option Text

/-- The text before a row's chunk. -/
def ToolCallInfo.header (call : ToolCallInfo) : Text :=
  "[".toList ++ call.name ++ (call.target.elim [] (" → ".toList ++ ·)) ++ " — ".toList ++ call.outcome ++ "] ".toList

/-- `"i/N"`. -/
def chunkMark (position total : Nat) : Text := Nat.toDigits 10 position ++ '/' :: Nat.toDigits 10 total

def ToolCallInfo.row (call : ToolCallInfo) (total : Nat) (chunk : Text × Nat) : ToolRow where
  content := call.header ++ chunk.1
  tags key :=
    if key = "tool" then some call.name
    else if key = "source_id" then some call.sourceId
    else if key = "outcome" then some call.outcome
    else if key = "target" then call.target
    else if key = "chunk" then some (chunkMark (chunk.2 + 1) total)
    else none

/-- The chunks that `ingest_tool_result` stores. -/
def ingestChunks (result : Text) (overlap : Nat) : Option (List Text) :=
  let content := collapseRepeatedLines result
  if memoryChunkMaxChars < byteLen content then semanticChunk content memoryChunkMaxChars overlap else some [content]

/-- The rows that `ingest_tool_result` writes unless it is cancelled. -/
def ingestRows (call : ToolCallInfo) (result : Text) (overlap : Nat) : Option (List ToolRow) :=
  (ingestChunks result overlap).map fun chunks => chunks.zipIdx.map (call.row chunks.length)

theorem ingestChunks_covers (result : Text) (overlap : Nat) : ∃ spans chunks,
    ingestChunks result overlap = some chunks ∧ Covers (collapseRepeatedLines result) (memoryChunkMaxChars + 3) 0 spans chunks := by
  obtain ⟨spans, chunks, hchunks, hcovers⟩ :=
    semanticChunk_covers (collapseRepeatedLines result) memoryChunkMaxChars overlap (by decide)
  refine ⟨spans, chunks, ?_, hcovers⟩
  unfold ingestChunks
  dsimp only
  split_ifs with hlong
  · exact hchunks
  · rw [semanticChunk, if_pos (not_lt.mp hlong)] at hchunks
    exact hchunks

end Nanna.Agent
