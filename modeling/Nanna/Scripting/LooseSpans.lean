import Nanna.Lib.Lines

/-!
# Finding a snippet that is not there verbatim

`edit_file` falls back on two readings of the text it is to replace: whole lines that differ in blanks only
(`findLooseSpans`), and the text without the line numbers that `read_file` puts before its lines
(`stripLineNumberBlock`).

Where there is one loose span it is the one place where the lines of the file read like the lines looked for
(`findLooseSpans_single`): a span is found by positions, and the positions are those of the lines.
-/

namespace Nanna.Scripting

open Nanna.Lib Nanna.Lib.Text

/-! ## Loose spans -/

def normStep (state : Text × Bool) (c : Char) : Text × Bool :=
  if c = ' ' ∨ c = '\t' ∨ c = '\r' then (state.1, true)
  else ((if state.2 ∧ state.1 ≠ [] then state.1 ++ [' '] else state.1) ++ [c], false)

/-- A line without the blanks at its ends, and one space for those inside. -/
def normLine (line : Text) : Text := (line.foldl normStep ([], false)).1

/-- The lines looked for, without the blank ones at both ends. -/
def normOld (oldStr : Text) : List Text :=
  let blank line := decide (normLine line = [])
  (((oldStr.splitOn '\n').dropWhile blank).rdropWhile blank).map normLine

structure Span where
  start : Nat
  stop : Nat
deriving DecidableEq

def matchesAt (content : Text) (sought : List Text) (li : Nat) : Bool :=
  (List.range sought.length).all fun lj =>
    sought[lj]? = some (normLine (substring content (lineStart content (li + lj)) (lineEnd content (li + lj))))

/-- The span of `count` lines; a carriage return at its end stays in the file. -/
def spanAt (content : Text) (count li : Nat) : Span :=
  let start := lineStart content li
  let spanEnd := lineEnd content (li + count - 1)
  ⟨start, if start < spanEnd ∧ content[spanEnd - 1]? = some '\r' then spanEnd - 1 else spanEnd⟩

def findLooseSpans (content oldStr : Text) : List Span :=
  let sought := normOld oldStr
  if sought = [] then []
  else
    ((List.range ((lineStarts content).length + 1 - sought.length)).filter (matchesAt content sought)).map
      (spanAt content sought.length)

/-! ## Line numbers -/

/-- A whole number as a double holds it; from 2^1024 on it is infinite. -/
def asDouble (n : Nat) : Nat :=
  let shift := n.log2 - 52
  let low := n % 2 ^ shift
  let up := 2 ^ shift < 2 * low ∨ 2 * low = 2 ^ shift ∧ n / 2 ^ shift % 2 = 1
  min (2 ^ 1024) ((n / 2 ^ shift + if up then 1 else 0) * 2 ^ shift)

structure Block where
  width : Option Nat
  prev : Option Nat
  out : List Text
  seen : Nat

/-- `/^ *\d+$/`, and the number. -/
def lineNumber (numField : Text) : Option Nat :=
  let digits := numField.dropWhile (· = ' ')
  if digits ≠ [] ∧ digits.all Char.isDigit then some (asDouble (Nat.ofDigitChars 10 digits 0)) else none

def stripStep (block : Block) (line : Text) : Option Block :=
  if line = [] then some { block with out := block.out ++ [[]] }
  else
    let tab := indexOf ['\t'] line 0
    if tab < 1 then none
    else
      let numField := line.take tab.toNat
      match lineNumber numField with
      | none => none
      | some n =>
        if block.width.any (· ≠ numField.length) then none
        else if block.prev.any fun prev => n ≠ asDouble (prev + 1) then none
        else some ⟨some numField.length, some n, block.out ++ [line.drop (tab + 1).toNat], block.seen + 1⟩

/-- The text with its line endings as `\n`. -/
def toLf (t : Text) : Text := ['\n'].intercalate (split ['\r', '\n'] t)

def toCrlf (t : Text) : Text := ['\r', '\n'].intercalate (t.splitOn '\n')

/-- The text without the line numbers of `read_file`, where it is a block of its output. -/
def stripLineNumberBlock (t : Text) : Option Text :=
  match ((toLf t).splitOn '\n').foldlM stripStep ⟨none, none, [], 0⟩ with
  | none => none
  | some block => if block.seen < 2 then none else some (['\n'].intercalate block.out)

/-! ## The lines of a span -/

def dropCr (t : Text) : Text := if t.getLast? = some '\r' then t.dropLast else t

/-- Lines of the content that read like those looked for: what stands before them, the lines without the
carriage return of the last, and what stands behind. -/
def LoosePlace (content oldStr before found after : Text) : Prop :=
  ∃ pres ls posts, content.splitOn '\n' = pres ++ (ls ++ posts) ∧ ls ≠ [] ∧ ls.map normLine = normOld oldStr ∧
    before = upTo ['\n'] pres ∧ found = dropCr (['\n'].intercalate ls) ∧ content = before ++ (found ++ after)

variable {content oldStr before found after t : Text} {pres ls posts sought : List Text}

theorem dropCr_prefix (t : Text) : dropCr t <+: t := by
  unfold dropCr
  split
  · exact List.dropLast_prefix t
  · exact List.prefix_rfl

theorem line_at (h : content.splitOn '\n' = pres ++ (ls ++ posts)) {lj : Nat} (hlj : lj < ls.length) :
    substring content (lineStart content (pres.length + lj)) (lineEnd content (pres.length + lj)) = ls[lj] := by
  have hcut : content.splitOn '\n' = (pres ++ ls.take lj) ++ ls[lj] :: (ls.drop (lj + 1) ++ posts) := by
    rw [h, List.append_assoc, ← List.cons_append, ← List.drop_eq_getElem_cons hlj,
      ← List.append_assoc (ls.take lj), List.take_append_drop]
  have hlen : (pres ++ ls.take lj).length = pres.length + lj := by
    rw [List.length_append, List.length_take_of_le hlj.le]
  have hline := line_eq hcut
  rwa [hlen] at hline

theorem matchesAt_iff (h : content.splitOn '\n' = pres ++ (ls ++ posts)) (hlen : ls.length = sought.length) :
    matchesAt content sought pres.length = true ↔ ls.map normLine = sought := by
  rw [matchesAt, List.all_eq_true]
  constructor
  · intro hall
    refine List.ext_getElem (by rw [List.length_map, hlen]) fun lj hmapped hlj => ?_
    have hmatch := of_decide_eq_true (hall lj (List.mem_range.mpr hlj))
    rw [line_at h (hlen ▸ hlj), List.getElem?_eq_getElem hlj] at hmatch
    rw [List.getElem_map, Option.some.inj hmatch]
  · rintro rfl lj hlj
    rw [List.mem_range, List.length_map] at hlj
    rw [line_at h hlj, List.getElem?_map, List.getElem?_eq_getElem hlj]
    exact decide_eq_true rfl

theorem stop_eq (h : content = before ++ (t ++ after)) :
    (if before.length < (before ++ t).length ∧ content[(before ++ t).length - 1]? = some '\r' then
        (before ++ t).length - 1 else (before ++ t).length) = (before ++ dropCr t).length := by
  have hlast : before.length < (before ++ t).length →
      content[(before ++ t).length - 1]? = t.getLast? := by
    intro hlt
    rw [List.length_append] at hlt
    rw [h, ← List.append_assoc, List.getElem?_append_left (by rw [List.length_append]; omega),
      ← List.getLast?_eq_getElem?, List.getLast?_append_of_ne_nil]
    exact List.length_pos_iff.mp (by omega)
  unfold dropCr
  by_cases hcr : t.getLast? = some '\r'
  · have hne : t ≠ [] := by
      rintro rfl
      cases hcr
    have hpos := List.length_pos_iff.mpr hne
    have hlt : before.length < (before ++ t).length := by
      rw [List.length_append]
      omega
    rw [if_pos ⟨hlt, (hlast hlt).trans hcr⟩, if_pos hcr, List.length_append, List.length_append,
      List.length_dropLast]
    omega
  · rw [if_neg fun hstop => hcr ((hlast hstop.1).symm.trans hstop.2), if_neg hcr]

theorem spanAt_eq (h : content.splitOn '\n' = pres ++ (ls ++ posts)) (hls : ls ≠ []) :
    spanAt content ls.length pres.length =
      ⟨(upTo ['\n'] pres).length, (upTo ['\n'] pres ++ dropCr (['\n'].intercalate ls)).length⟩ := by
  have htext := eq_around_lines hls h
  obtain ⟨init, last, rfl⟩ := (List.eq_nil_or_concat' ls).resolve_left hls
  have hlast : content.splitOn '\n' = (pres ++ init) ++ last :: posts := by
    rw [h]
    simp only [List.append_assoc, List.singleton_append]
  have hend := lineEnd_eq hlast
  have hjoined : upTo ['\n'] (pres ++ init) ++ last =
      upTo ['\n'] pres ++ ['\n'].intercalate (init ++ [last]) := by
    rw [intercalate_snoc, ← List.append_assoc]
    exact congrArg (· ++ last) List.flatMap_append
  have hstart : lineStart content pres.length = (upTo ['\n'] pres).length := by
    cases init with
    | nil => exact lineStart_eq h
    | cons line init => exact lineStart_eq h
  have hlen : pres.length + (init ++ [last]).length - 1 = (pres ++ init).length := by
    rw [List.length_append, List.length_append, List.length_singleton]
    omega
  unfold spanAt
  rw [hlen, hend, hjoined, hstart]
  exact congrArg _ (stop_eq htext)

/-- Lines that read alike are found at their index. -/
theorem mem_loose (h : content.splitOn '\n' = pres ++ (ls ++ posts))
    (hread : ls.map normLine = sought) :
    pres.length ∈ (List.range ((lineStarts content).length + 1 - sought.length)).filter
      (matchesAt content sought) := by
  have hlen : ls.length = sought.length := by rw [← hread, List.length_map]
  refine List.mem_filter.mpr ⟨List.mem_range.mpr ?_, (matchesAt_iff h hlen).mpr hread⟩
  rw [length_lineStarts, h, List.length_append, List.length_append]
  omega

/-- The lines at an index where they are found. -/
theorem lines_of_mem {li : Nat} (hne : sought ≠ [])
    (h : li ∈ (List.range ((lineStarts content).length + 1 - sought.length)).filter
      (matchesAt content sought)) :
    ∃ pres ls posts, content.splitOn '\n' = pres ++ (ls ++ posts) ∧ ls ≠ [] ∧ ls.map normLine = sought ∧
      pres.length = li := by
  obtain ⟨hrange, hmatch⟩ := List.mem_filter.mp h
  rw [List.mem_range, length_lineStarts] at hrange
  have hpos := List.length_pos_iff.mpr hne
  have hpres : ((content.splitOn '\n').take li).length = li := List.length_take_of_le (by omega)
  have hls : (((content.splitOn '\n').drop li).take sought.length).length = sought.length :=
    List.length_take_of_le (by rw [List.length_drop]; omega)
  have hlines : content.splitOn '\n' = (content.splitOn '\n').take li ++
      (((content.splitOn '\n').drop li).take sought.length ++
        ((content.splitOn '\n').drop li).drop sought.length) := by
    rw [List.take_append_drop, List.take_append_drop]
  refine ⟨_, _, _, hlines, List.length_pos_iff.mp (hpos.trans_eq hls.symm), ?_, hpres⟩
  rw [← hpres] at hmatch
  exact (matchesAt_iff hlines hls).mp hmatch

theorem loosePlace_of_lines (h : content.splitOn '\n' = pres ++ (ls ++ posts)) (hls : ls ≠ [])
    (hread : ls.map normLine = normOld oldStr) : ∃ after,
      LoosePlace content oldStr (upTo ['\n'] pres) (dropCr (['\n'].intercalate ls)) after := by
  obtain ⟨tail, htail⟩ := dropCr_prefix (['\n'].intercalate ls)
  refine ⟨tail ++ downFrom posts, pres, ls, posts, h, hls, hread, rfl, rfl, ?_⟩
  rw [← List.append_assoc (dropCr _), htail]
  exact eq_around_lines hls h

/-- Where exactly one span is found, it is the only place. -/
theorem findLooseSpans_single {span : Span} (h : findLooseSpans content oldStr = [span]) :
    LoosePlace content oldStr (content.take span.start) (substring content span.start span.stop)
        (content.drop span.stop) ∧
      ∀ before found after, LoosePlace content oldStr before found after →
        before = content.take span.start ∧ found = substring content span.start span.stop ∧
          after = content.drop span.stop := by
  unfold findLooseSpans at h
  dsimp only at h
  split at h
  · cases h
  rename_i hne
  obtain ⟨li, hfound, rfl⟩ := List.map_eq_singleton_iff.mp h
  obtain ⟨pres, ls, posts, hlines, hls, hread, hli⟩ := lines_of_mem hne (hfound ▸ List.mem_singleton_self li)
  obtain ⟨after, hplace⟩ := loosePlace_of_lines hlines hls hread
  have hcontent : content = upTo ['\n'] pres ++ (dropCr (['\n'].intercalate ls) ++ after) := by
    obtain ⟨_, _, _, -, -, -, -, -, hcontent⟩ := hplace
    exact hcontent
  have hspan : spanAt content (normOld oldStr).length li = ⟨(upTo ['\n'] pres).length,
      (upTo ['\n'] pres ++ dropCr (['\n'].intercalate ls)).length⟩ := by
    rw [← hli, ← hread, List.length_map]
    exact spanAt_eq hlines hls
  have hbefore : content.take (upTo ['\n'] pres).length = upTo ['\n'] pres := by
    rw [hcontent, List.take_left]
  have hsub : substring content (upTo ['\n'] pres).length
      (upTo ['\n'] pres ++ dropCr (['\n'].intercalate ls)).length = dropCr (['\n'].intercalate ls) := by
    rw [hcontent, substring_around]
  have hafter : content.drop (upTo ['\n'] pres ++ dropCr (['\n'].intercalate ls)).length = after := by
    rw [hcontent, ← List.append_assoc, List.drop_left]
  rw [hspan, hbefore, hsub, hafter]
  refine ⟨hplace, ?_⟩
  rintro before' found' after' ⟨pres', ls', posts', hlines', hls', hread', rfl, rfl, hcontent'⟩
  have hsame : pres'.length = pres.length := by
    have hmem := mem_loose hlines' hread'
    rw [hfound, List.mem_singleton] at hmem
    rw [hmem, hli]
  have hcount : ls'.length = ls.length := by
    have hmapped := congrArg List.length (hread'.trans hread.symm)
    rwa [List.length_map, List.length_map] at hmapped
  obtain ⟨rfl, hrest⟩ := List.append_inj (hlines'.symm.trans hlines) hsame
  obtain ⟨rfl, -⟩ := List.append_inj hrest hcount
  exact ⟨rfl, rfl, List.append_cancel_left (List.append_cancel_left (hcontent'.symm.trans hcontent))⟩

/-! ## The numbered block -/

theorem stripStep_seen {block block' : Block} {line : Text} (h : stripStep block line = some block')
    (hseen : block.seen ≤ block.out.length) : block'.seen ≤ block'.out.length := by
  unfold stripStep at h
  split at h
  · cases h
    rw [List.length_append, List.length_singleton]
    exact hseen.trans (Nat.le_succ _)
  dsimp only at h
  split at h
  · cases h
  split at h
  · cases h
  split at h
  · cases h
  split at h
  · cases h
  · cases h
    rw [List.length_append, List.length_singleton]
    exact Nat.succ_le_succ hseen

theorem foldlM_seen {block block' : Block} {lines : List Text}
    (h : lines.foldlM stripStep block = some block') (hseen : block.seen ≤ block.out.length) :
    block'.seen ≤ block'.out.length := by
  induction lines generalizing block with
  | nil =>
    cases h
    exact hseen
  | cons line lines ih =>
    rw [List.foldlM_cons] at h
    obtain ⟨mid, hmid, hrest⟩ := Option.bind_eq_some_iff.mp h
    exact ih hrest (stripStep_seen hmid hseen)

/-- Two numbered lines leave a line break. -/
theorem stripped_ne_nil (h : stripLineNumberBlock oldStr = some t) : t ≠ [] := by
  unfold stripLineNumberBlock at h
  split at h
  · cases h
  rename_i block hblock
  split at h
  · cases h
  · cases h
    have hseen := foldlM_seen hblock (Nat.zero_le _)
    obtain ⟨a, b, out, hout⟩ : ∃ a b out, block.out = a :: b :: out := by
      rcases hout : block.out with _ | ⟨a, _ | ⟨b, out⟩⟩
      · rw [hout, List.length_nil] at hseen
        omega
      · rw [hout, List.length_singleton] at hseen
        omega
      · exact ⟨a, b, out, rfl⟩
    rw [hout, intercalate_cons (List.cons_ne_nil _ _)]
    simp

theorem toLf_ne_nil (h : t ≠ []) : toLf t ≠ [] := by
  have hparts : Parts ['\r', '\n'] t (split ['\r', '\n'] t) := parts_split (by decide)
  have htext := hparts.eq_intercalate
  unfold toLf
  rcases hsplit : split ['\r', '\n'] t with _ | ⟨a, _ | ⟨b, parts⟩⟩
  · exact absurd hsplit hparts.ne_nil
  · rw [hsplit, List.intercalate_singleton] at htext
    rwa [List.intercalate_singleton, ← htext]
  · rw [intercalate_cons (List.cons_ne_nil _ _)]
    simp

theorem toCrlf_ne_nil (h : t ≠ []) : toCrlf t ≠ [] := by
  have htext := intercalate_lines t
  unfold toCrlf
  rcases hsplit : t.splitOn '\n' with _ | ⟨a, _ | ⟨b, parts⟩⟩
  · exact absurd hsplit (List.splitOn_ne_nil _ _)
  · rw [hsplit, List.intercalate_singleton] at htext
    rwa [List.intercalate_singleton, htext]
  · rw [intercalate_cons (List.cons_ne_nil _ _)]
    simp

end Nanna.Scripting
