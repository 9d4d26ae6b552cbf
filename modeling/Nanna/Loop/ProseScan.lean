import Nanna.Lib.Braces
import Nanna.Lib.Matches
import Nanna.Lib.Utf8
import Nanna.Llm.Heal
import Mathlib.Data.List.Sort

/-!
# Tool calls written as prose

A model that writes its tool calls as JSON in its text has them salvaged: `collect_json_objects` finds the
objects, looking again inside of every brace region that is none, and `scan_prose_dialect` lists the call-shaped
ones.

Here are the functions as the loop runner has them, and what one pass finds in terms of the brace regions of its
text (`scanBraces_level`): the regions that are objects, in their order, and the offsets of the others, which are
scanned again. Parsing is `parse`.
-/

namespace Nanna.Loop

open Nanna.Lib Nanna.Lib.Text Nanna.Lib.Braces Nanna.Llm

/-! ## Objects -/

structure Found where
  start : Nat
  stop : Nat
  value : Json

def JSON_SCAN_DEPTH_MAX : Nat := 128

variable (parse : Text → Option Json)

def onlyObject : Option Json → Option Json
  | some (.obj kvs) => some (.obj kvs)
  | _ => none

/-- A strict parse, then one with bare control characters escaped, of an object. -/
def parseObjectSpanLenient (slice : Text) : Option Json :=
  (onlyObject (parse slice)).or (onlyObject ((escapeBareControlsInStrings slice).bind parse))

structure Scanner where
  depth : Nat
  start : Nat
  inString : Bool
  escaped : Bool
  out : List Found
  rescan : List (Nat × Nat)

/-- One character of the pass; the offsets are those of its first byte. -/
def Scanner.step (text : Text) (base : Nat) (s : Scanner) (ib : Nat × Char) : Scanner :=
  let (i, b) := ib
  if s.inString then
    if s.escaped then { s with escaped := false }
    else if b = '\\' then { s with escaped := true }
    else if b = '"' then { s with inString := false }
    else s
  else if b = '"' ∧ 0 < s.depth then { s with inString := true }
  else if b = '\x7b' then { s with start := if s.depth = 0 then i else s.start, depth := s.depth + 1 }
  else if b = '\x7d' ∧ 0 < s.depth then
    if s.depth - 1 = 0 then
      match parseObjectSpanLenient parse (text.slice s.start (i + 1)) with
      | some v => { s with depth := 0, out := s.out ++ [⟨base + s.start, base + i + 1, v⟩] }
      | none => { s with depth := 0, rescan := s.rescan ++ [(s.start + 1, i)] }
    else { s with depth := s.depth - 1 }
  else s

def scanBraces (text : Text) (base : Nat) : Scanner :=
  let s := (charIndices text).foldl (Scanner.step parse text base) ⟨0, 0, false, false, [], []⟩
  -- a dangling opener is skipped
  if 0 < s.depth ∧ s.start + 1 < text.byteLen then
    { s with rescan := s.rescan ++ [(s.start + 1, text.byteLen)] }
  else s

def collectJsonObjects : Nat → Text → Nat → List Found
  | 0, text, base => (scanBraces parse text base).out
  | depthBudget + 1, text, base =>
    let s := scanBraces parse text base
    s.out ++ s.rescan.flatMap fun (a, e) => collectJsonObjects depthBudget (text.slice a e) (base + a)

/-! ## Calls -/

def PROSE_CALL_NAME_KEYS : List String := ["tool_name", "tool", "action", "function"]

def PROSE_CALL_PARAM_KEYS : List String := ["arguments", "parameters", "params", "args", "input"]

def PROSE_CALL_FRAME_KEYS : List String := ["type", "id", "result", "output", "stdout", "status"]

def looksLikeToolName (s : Text) : Bool :=
  s ≠ [] ∧ s.byteLen ≤ 64 ∧ s.head?.any Char.isAlpha ∧
    s.all fun c => c.isAlphanum || c = '_' || c = '-' || c = '.'

/-- What the first argument key of an object gives: nothing where the arguments cannot be recovered. -/
def explicitParams (map : List (String × Json)) : List String → Option (Option Json)
  | [] => none
  | key :: keys =>
    match map.lookup key with
    | none => explicitParams map keys
    | some (.obj args) => some (some (.obj args))
    | some (.str s) => some (onlyObject (parseLenient parse s.toList))
    | some _ => some none

/-- The arguments of a call; without an argument key the other keys are. -/
def proseCallParams (map : List (String × Json)) (nameKey : String) : Option Json :=
  (explicitParams parse map PROSE_CALL_PARAM_KEYS).getD
    (some (.obj (map.filter fun kv => kv.1 ≠ nameKey ∧ kv.1 ∉ PROSE_CALL_FRAME_KEYS)))

def callNamedBy (map : List (String × Json)) (key : String) : Option (String × Option Json) :=
  match map.lookup key with
  | some (.str name) => if looksLikeToolName name.toList then some (name, proseCallParams parse map key) else none
  | _ => none

/-- The call that an object is, if it is one. -/
def proseCallFromMap (map : List (String × Json)) : Option (String × Option Json) :=
  let envelope :=
    match map.lookup "function" with
    | some (.obj inner) => callNamedBy parse inner "name"
    | _ => none
  let strong := PROSE_CALL_NAME_KEYS.findSome? (callNamedBy parse map)
  let weak :=
    if PROSE_CALL_PARAM_KEYS.any fun k => (map.lookup k).isSome then callNamedBy parse map "name" else none
  envelope.or (strong.or weak)

structure ProseToolCall where
  writtenName : String
  params : Option Json
  spanRaw : Text
deriving DecidableEq

mutual
/-- The call-shaped objects of a value; the inside of one is its arguments. -/
def collectProseCalls (spanRaw : Text) : Json → List ProseToolCall
  | .obj map =>
    match proseCallFromMap parse map with
    | some (name, params) => [⟨name, params, spanRaw⟩]
    | none => collectMembers spanRaw map
  | .arr items => collectItems spanRaw items
  | _ => []

def collectMembers (spanRaw : Text) : List (String × Json) → List ProseToolCall
  | [] => []
  | (_, v) :: map => collectProseCalls spanRaw v ++ collectMembers spanRaw map

def collectItems (spanRaw : Text) : List Json → List ProseToolCall
  | [] => []
  | v :: items => collectProseCalls spanRaw v ++ collectItems spanRaw items
end

def SELF_AUTHORED_RESULT_KEYS : List String := ["result", "output", "stdout"]

mutual
def valueContainsResultShape : Json → Bool
  | .obj map => (map.any fun kv => kv.1 ∈ SELF_AUTHORED_RESULT_KEYS ∧ kv.2 ≠ .null) || membersContain map
  | .arr items => itemsContain items
  | _ => false

def membersContain : List (String × Json) → Bool
  | [] => false
  | (_, v) :: map => valueContainsResultShape v || membersContain map

def itemsContain : List Json → Bool
  | [] => false
  | v :: items => valueContainsResultShape v || itemsContain items
end

def TOOL_CALL_FENCE_TOKENS : List String :=
  ["<tool_call>", "</tool_call>", "<|tool_call_start|>", "<|tool_call_end|>", "<|tool_call|>", "[tool_calls]"]

/-- `lower` is `str::to_lowercase`. -/
def toolCallFenceTokenCount (lower : Text → Text) (text : Text) : Nat :=
  (TOOL_CALL_FENCE_TOKENS.map fun t => countMatches t.toList (lower text)).sum

structure ProseDialectScan where
  calls : List ProseToolCall
  resultSpans : List (Nat × Nat)
  fenceTokens : Nat

def proseObjects (text : Text) : List Found := collectJsonObjects parse JSON_SCAN_DEPTH_MAX text 0

/-- The calls of one object, with the text it was found in. -/
def callsOf (text : Text) (o : Found) : List ProseToolCall :=
  collectProseCalls parse (text.slice o.start o.stop) o.value

def scanProseDialect (lower : Text → Text) (text : Text) : ProseDialectScan :=
  let objects := proseObjects parse text
  let results := (objects.filter fun o => valueContainsResultShape o.value).map fun o => (o.start, o.stop)
  { calls := objects.flatMap (callsOf parse text)
    resultSpans := results.mergeSort fun a b => a.1 < b.1 || a.1 = b.1 && a.2 ≤ b.2
    fenceTokens := toolCallFenceTokenCount lower text }

variable {parse} {text t inner : Text} {base i : Nat} {s : Scanner} {m m' : Inside} {c : Char}
  {segments : List Segment}

/-! ## One pass -/

/-- The pass inside of a region. -/
def Scanner.inside (s : Scanner) (m : Inside) : Scanner :=
  { s with depth := m.depth, inString := m.str.isSome, escaped := m.str = some true }

theorem step_inside (hm : m.depth ≠ 0) (hnext : (m.next c).depth ≠ 0) :
    (s.inside m).step parse text base (i, c) = s.inside (m.next c) := by
  obtain ⟨depth, str⟩ := m
  have hpos : 0 < depth := Nat.pos_of_ne_zero hm
  unfold Inside.next at hnext ⊢
  rcases str with _ | _ | _
  · dsimp only at hnext ⊢
    by_cases hquote : c = '"'
    · subst hquote
      simp [Scanner.step, Scanner.inside, hpos]
    by_cases hopener : c = '\x7b'
    · subst hopener
      simp [Scanner.step, Scanner.inside, hm]
    by_cases hcloser : c = '\x7d'
    · subst hcloser
      have hstays : depth - 1 ≠ 0 := hnext
      simp [Scanner.step, Scanner.inside, hpos, hstays]
    · simp [Scanner.step, Scanner.inside, hquote, hopener, hcloser]
  · dsimp only
    by_cases hslash : c = '\\'
    · subst hslash
      simp [Scanner.step, Scanner.inside]
    by_cases hquote : c = '"'
    · subst hquote
      simp [Scanner.step, Scanner.inside]
    · simp [Scanner.step, Scanner.inside, hslash, hquote]
  · simp [Scanner.step, Scanner.inside]

theorem foldl_inside (hm : m.depth ≠ 0) (h : stays m t = some m') :
    (charIndicesFrom i t).foldl (Scanner.step parse text base) (s.inside m) = s.inside m' := by
  induction t generalizing m i with
  | nil =>
    cases h
    rfl
  | cons c t ih =>
    obtain ⟨hnext, hrest⟩ := stays_cons h
    rw [charIndicesFrom, List.foldl_cons, step_inside hm hnext]
    exact ih hnext hrest

/-- The pass between two regions. -/
def Scanner.between (start : Nat) (out : List Found) (rescan : List (Nat × Nat)) : Scanner :=
  ⟨0, start, false, false, out, rescan⟩

theorem step_prose {start : Nat} {out : List Found} {rescan : List (Nat × Nat)} (hc : c ≠ '\x7b') :
    (Scanner.between start out rescan).step parse text base (i, c) = .between start out rescan := by
  simp [Scanner.step, Scanner.between, hc]

theorem step_opener {start : Nat} {out : List Found} {rescan : List (Nat × Nat)} :
    (Scanner.between start out rescan).step parse text base (i, '\x7b') =
      (Scanner.between i out rescan).inside atOpener := by
  simp [Scanner.step, Scanner.between, Scanner.inside, atOpener]

theorem step_closer {start : Nat} {out : List Found} {rescan : List (Nat × Nat)} :
    ((Scanner.between start out rescan).inside atOpener).step parse text base (i, '\x7d') =
      match parseObjectSpanLenient parse (text.slice start (i + 1)) with
      | some v => .between start (out ++ [⟨base + start, base + i + 1, v⟩]) rescan
      | none => .between start out (rescan ++ [(start + 1, i)]) := by
  simp only [Scanner.step, Scanner.between, Scanner.inside, atOpener]
  cases parseObjectSpanLenient parse (text.slice start (i + 1)) with
  | none => rfl
  | some v => rfl

/-! ## The regions of a text by their offsets -/

def placed (i : Nat) : List Segment → List (Nat × Segment)
  | [] => []
  | segment :: segments => (i, segment) :: placed (i + segment.text.byteLen) segments

variable (parse) in
/-- The object that a region is. -/
def parsedAt (place : Nat × Segment) : Option Found :=
  match place.2 with
  | .span inner => (parseObjectSpanLenient parse (Segment.span inner).text).map fun v =>
      ⟨place.1, place.1 + (Segment.span inner).text.byteLen, v⟩
  | _ => none

variable (parse) in
/-- The inside of a region that is no object. -/
def rescanned : Segment → Option Text
  | .prose _ => none
  | .span inner => if (parseObjectSpanLenient parse (Segment.span inner).text).isSome then none else some inner
  | .tail inner => some inner

variable (parse) in
/-- Its offsets; nothing is behind an opener at the end. -/
def rangeOf (place : Nat × Segment) : Option (Nat × Nat) :=
  match place.2 with
  | .prose _ => none
  | .span inner =>
    if (parseObjectSpanLenient parse (Segment.span inner).text).isSome then none
    else some (place.1 + 1, place.1 + 1 + inner.byteLen)
  | .tail inner => if inner = [] then none else some (place.1 + 1, place.1 + 1 + inner.byteLen)

theorem charIndicesFrom_append : charIndicesFrom i (t ++ inner) =
    charIndicesFrom i t ++ charIndicesFrom (i + t.byteLen) inner := by
  induction t generalizing i with
  | nil => rfl
  | cons c t ih =>
    rw [List.cons_append, charIndicesFrom, charIndicesFrom, ih, byteLen_cons, Nat.add_assoc]
    rfl

theorem slice_around {pre post : Text} : (pre ++ (t ++ post)).slice pre.byteLen (pre ++ t).byteLen = t := by
  rw [slice, ← List.append_assoc, takeBytes_self, dropBytes_self]

theorem byteLen_span : (Segment.span inner).text.byteLen = inner.byteLen + 2 := by
  have hopener : ('\x7b').utf8Size = 1 := rfl
  have hcloser : byteLen ['\x7d'] = 1 := rfl
  rw [Segment.text, byteLen_cons, byteLen_append, hopener, hcloser]
  omega

theorem byteLen_tail : (Segment.tail inner).text.byteLen = inner.byteLen + 1 := by
  have hopener : ('\x7b').utf8Size = 1 := rfl
  rw [Segment.text, byteLen_cons, hopener, Nat.add_comm]

theorem foldl_span {start : Nat} {out : List Found} {rescan : List (Nat × Nat)}
    (hinner : stays atOpener inner = some atOpener) :
    (charIndicesFrom i ((Segment.span inner).text ++ t)).foldl (Scanner.step parse text base)
        (.between start out rescan) =
      (charIndicesFrom (i + (Segment.span inner).text.byteLen) t).foldl (Scanner.step parse text base)
        (match parseObjectSpanLenient parse (text.slice i (i + (Segment.span inner).text.byteLen)) with
          | some v => .between i (out ++ [⟨base + i, base + i + (Segment.span inner).text.byteLen, v⟩]) rescan
          | none => .between i out (rescan ++ [(i + 1, i + 1 + inner.byteLen)])) := by
  have htext : (Segment.span inner).text ++ t = '\x7b' :: (inner ++ '\x7d' :: t) := by
    rw [Segment.text, List.cons_append, List.append_assoc]
    rfl
  have hend : i + 1 + inner.byteLen + 1 = i + (Segment.span inner).text.byteLen := by
    rw [byteLen_span]
    omega
  have hstop : base + (i + 1 + inner.byteLen) + 1 = base + i + (Segment.span inner).text.byteLen := by
    rw [byteLen_span]
    omega
  have hopener : ('\x7b').utf8Size = 1 := rfl
  have hcloser : ('\x7d').utf8Size = 1 := rfl
  rw [htext, charIndicesFrom, List.foldl_cons, step_opener, charIndicesFrom_append, List.foldl_append,
    hopener, foldl_inside (by decide) hinner, charIndicesFrom, List.foldl_cons, step_closer, hcloser, hend, hstop]

/-- The rescans of a pass, with that of a dangling opener. -/
def Scanner.pending (text : Text) (s : Scanner) : List (Nat × Nat) :=
  if 0 < s.depth ∧ s.start + 1 < text.byteLen then s.rescan ++ [(s.start + 1, text.byteLen)] else s.rescan

theorem foldl_level {pre : Text} {start : Nat} {out : List Found} {rescan : List (Nat × Nat)} {s : Scanner}
    (h : Level t segments) (htext : text = pre ++ t)
    (hs : s = (charIndicesFrom pre.byteLen t).foldl (Scanner.step parse text base) (.between start out rescan)) :
    s.out = out ++ (placed (base + pre.byteLen) segments).filterMap (parsedAt parse) ∧
      s.pending text = rescan ++ (placed pre.byteLen segments).filterMap (rangeOf parse) := by
  induction h generalizing pre start out rescan with
  | nil =>
    subst hs
    exact ⟨(List.append_nil _).symm, (List.append_nil _).symm⟩
  | @prose c t segments hc hrest ih =>
    rw [charIndicesFrom, List.foldl_cons, step_prose hc] at hs
    have hpre : (pre ++ [c]).byteLen = pre.byteLen + c.utf8Size := by
      rw [byteLen_append, byteLen_cons]
      rfl
    rw [← hpre] at hs
    obtain ⟨hout, hpending⟩ := ih (htext.trans (List.append_cons pre c t)) hs
    rw [hpre] at hout hpending
    have hone : (Segment.prose c).text.byteLen = c.utf8Size := by
      rw [Segment.text, byteLen_cons]
      rfl
    rw [hout, hpending, placed, placed, hone, Nat.add_assoc]
    exact ⟨rfl, rfl⟩
  | @span inner t segments hinner hrest ih =>
    rw [foldl_span hinner] at hs
    have hslice : text.slice pre.byteLen (pre.byteLen + (Segment.span inner).text.byteLen) =
        (Segment.span inner).text := by
      rw [htext, ← byteLen_append, slice_around]
    have hpre : (pre ++ (Segment.span inner).text).byteLen = pre.byteLen + (Segment.span inner).text.byteLen :=
      byteLen_append _ _
    have hrest := htext.trans (List.append_assoc pre _ t).symm
    rw [hslice, ← hpre] at hs
    rw [placed, placed, List.filterMap_cons, List.filterMap_cons, parsedAt, rangeOf, Nat.add_assoc, ← hpre]
    dsimp only
    cases hparse : parseObjectSpanLenient parse (Segment.span inner).text with
    | none =>
      rw [hparse] at hs
      obtain ⟨hout, hpending⟩ := ih hrest hs
      rw [hout, hpending]
      exact ⟨rfl, List.append_assoc ..⟩
    | some v =>
      rw [hparse] at hs
      obtain ⟨hout, hpending⟩ := ih hrest hs
      rw [hout, hpending]
      exact ⟨List.append_assoc .., rfl⟩
  | @tail inner hinner =>
    obtain ⟨m, hm⟩ := Option.isSome_iff_exists.mp hinner
    have hopener : ('\x7b').utf8Size = 1 := rfl
    have hdepth : m.depth ≠ 0 := stays_depth (s := atOpener) (by decide) hm
    rw [Segment.text, charIndicesFrom, List.foldl_cons, step_opener, foldl_inside (by decide) hm] at hs
    have hlen : text.byteLen = pre.byteLen + 1 + inner.byteLen := by
      rw [htext, byteLen_append, byteLen_tail]
      omega
    subst hs
    refine ⟨(List.append_nil _).symm, ?_⟩
    have hpos : 0 < ((Scanner.between pre.byteLen out rescan).inside m).depth := Nat.pos_of_ne_zero hdepth
    have hstart : ((Scanner.between pre.byteLen out rescan).inside m).start = pre.byteLen := rfl
    rw [Scanner.pending, hstart, hlen, placed, placed, List.filterMap_cons, rangeOf]
    cases inner with
    | nil =>
      rw [if_neg fun h => absurd h.2 (by simp)]
      exact (List.append_nil _).symm
    | cons c inner =>
      have hsome := c.utf8Size_pos
      rw [if_pos ⟨hpos, by rw [byteLen_cons]; omega⟩]
      rfl

/-- What one pass finds. -/
theorem scanBraces_level (h : Level text segments) :
    (scanBraces parse text base).out = (placed base segments).filterMap (parsedAt parse) ∧
      (scanBraces parse text base).rescan = (placed 0 segments).filterMap (rangeOf parse) := by
  obtain ⟨hout, hpending⟩ := @foldl_level parse text text base segments [] 0 [] [] _ h rfl rfl
  have hscan {s : Scanner}
      (hs : s = (charIndices text).foldl (Scanner.step parse text base) ⟨0, 0, false, false, [], []⟩) :
      (scanBraces parse text base).out = s.out ∧ (scanBraces parse text base).rescan = s.pending text := by
    unfold scanBraces Scanner.pending
    rw [← hs]
    dsimp only
    split
    · exact ⟨rfl, rfl⟩
    · exact ⟨rfl, rfl⟩
  exact ⟨(hscan rfl).1.trans hout, (hscan rfl).2.trans hpending⟩

end Nanna.Loop
