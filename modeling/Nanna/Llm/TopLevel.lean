import Nanna.Llm.Truncated

/-!
# Top-level JSON values

`top_level_exact`: in a text made of JSON objects and arrays with plain text around them,
`count_balanced_top_level_objects` counts the values, and `extract_json_span` finds the first.

The count keeps the depth of the brackets of both kinds, which on a document is the height of the
stack of `Scan.run` (`read_step`): it is back at zero once, with the last bracket of the document
(`read_document`). The span counts the brackets of the first one's kind only; these are as many on the
stack, so its depth is back at zero at the same place (`spanFrom_document`).
-/

namespace Nanna.Llm

open Nanna.Lib Nanna.Lib.Text Nanna.Lib.Scan

/-! ## Counting -/

/-- The count of `count_balanced_top_level_objects` with what the scan knows of the place it is at. -/
structure TopLevel where
  count : Nat := 0
  depth : Int := 0
  inString : Bool := false
  escape : Bool := false
  deriving DecidableEq

/-- One byte; the bytes of a character outside of ASCII are none of these. -/
def TopLevel.read (u : TopLevel) (c : Char) : TopLevel :=
  if u.inString then
    if u.escape then { u with escape := false }
    else if c = '\\' then { u with escape := true }
    else if c = '"' then { u with inString := false }
    else u
  else if c = '"' then { u with inString := true }
  else if c = '\x7b' ∨ c = '[' then { u with depth := u.depth + 1 }
  else if c = '\x7d' ∨ c = ']' then
    { u with depth := u.depth - 1, count := if u.depth - 1 = 0 then u.count + 1 else u.count }
  else u

def countBalancedTopLevelObjects (s : Text) : Nat := (s.foldl TopLevel.read {}).count

/-! ## Documents -/

/-- Text between values. -/
def Plain (t : Text) : Prop := ∀ c ∈ t, c ∉ ['"', '[', '\x7b', ']', '\x7d']

/-- The text of an object or an array. -/
structure Bracketed (limit : Nat) (scalar : Text → Bool) (t : Text) : Prop where
  accepted : accepts limit scalar t = true
  opens : ∃ f : Frame, ∃ cs, t = f.opener :: cs
  closes : ∃ f : Frame, t.getLast? = some f.closer

/-- Values, each with the text after it, behind a first text. -/
def concatenation (lead : Text) (parts : List (Text × Text)) : Text :=
  lead ++ (parts.map fun part => part.1 ++ part.2).flatten

/-! ## Plain text -/

section

variable {limit : Nat} {scalar : Text → Bool} {σ τ : State} {s t lead : Text} {c : Char} {count : Nat}
  {f : Frame} {inner : List Frame}

/-- What the count has read at a state. -/
def topLevelAt (count : Nat) (σ : State) : TopLevel where
  count := count
  depth := σ.stack.length
  inString := σ.inString
  escape := σ.escaped

theorem read_plain {u : TopLevel} (hin : u.inString = false) (h : Plain t) : t.foldl TopLevel.read u = u := by
  induction t with
  | nil => rfl
  | cons c t ih =>
    have hc := h c List.mem_cons_self
    simp only [List.mem_cons, List.not_mem_nil, or_false, not_or] at hc
    have hread : u.read c = u := by
      simp [TopLevel.read, hin, hc]
    rw [List.foldl_cons, hread]
    exact ih fun c hc => h c (List.mem_cons_of_mem _ hc)

/-! ## A document -/

/-- A closer that closes the last bracket is counted. -/
theorem topLevel_step (h : step limit scalar σ c = some τ) : (topLevelAt count σ).read c =
    topLevelAt (if σ.stack ≠ [] ∧ τ.stack = [] then count + 1 else count) τ := by
  cases hin : σ.inString with
  | true =>
    obtain ⟨hstack, hstring, hslash, -⟩ := step_inString h hin
    have hnone : ¬ (σ.stack ≠ [] ∧ σ.stack = []) := fun hboth => hboth.1 hboth.2
    rw [hstack, if_neg hnone]
    unfold topLevelAt TopLevel.read
    rw [hstack, hstring, hslash, hin]
    cases σ.escaped with
    | true => simp
    | false =>
      by_cases hbackslash : c = '\\'
      · simp [hbackslash]
      · by_cases hquote : c = '"'
        · simp [hquote]
        · simp [hbackslash, hquote]
  | false =>
    obtain ⟨hbracket, hstring, hslash⟩ := step_outside h hin
    have hescaped := escaped_of_outside hin
    unfold topLevelAt TopLevel.read
    rw [hstring, hslash, hin, hescaped]
    rcases bracket_inv hbracket with ⟨f, rfl, hpush⟩ | ⟨f, rfl, hpop⟩ | ⟨hother, hkept⟩
    · cases f <;> simp [hpush, Frame.opener]
    · cases f <;> simp [hpop, Frame.closer]
    · obtain ⟨harr, harr'⟩ := hother .arr
      obtain ⟨hobj, hobj'⟩ := hother .obj
      simp only [Frame.opener, Frame.closer] at harr harr' hobj hobj'
      by_cases hquote : c = '"'
      · simp [hquote, hkept]
      · simp [hquote, harr, hobj, harr', hobj', hkept]

theorem topLevel_after (h : run limit scalar ⟨[], .after⟩ t = some τ) :
    t.foldl TopLevel.read (topLevelAt count ⟨[], .after⟩) = topLevelAt count ⟨[], .after⟩ := by
  induction t with
  | nil => rfl
  | cons c t ih =>
    obtain ⟨ρ, hstep, hrun⟩ := run_cons_eq_some.mp h
    obtain rfl : ρ = ⟨[], .after⟩ := run_after_nil (t := [c]) (run_cons_eq_some.mpr ⟨ρ, hstep, rfl⟩)
    rw [List.foldl_cons, topLevel_step hstep, if_neg fun hboth => hboth.1 rfl]
    exact ih hrun

/-- A document is counted when its last bracket is closed. -/
theorem topLevel_run (hopen : σ.stack ≠ []) (h : run limit scalar σ t = some τ) (hnil : τ.stack = []) :
    t.foldl TopLevel.read (topLevelAt count σ) = topLevelAt (count + 1) ⟨[], .after⟩ := by
  induction t generalizing σ with
  | nil =>
    cases h
    exact absurd hnil hopen
  | cons c t ih =>
    obtain ⟨ρ, hstep, hrun⟩ := run_cons_eq_some.mp h
    rw [List.foldl_cons, topLevel_step hstep]
    by_cases hρ : ρ.stack = []
    · obtain ⟨-, -, -, -, rfl⟩ := step_to_nil hstep hopen hρ
      rw [if_pos ⟨hopen, rfl⟩]
      exact topLevel_after hrun
    · rw [if_neg fun hboth => hρ hboth.2]
      exact ih hρ hrun

/-- The first step into a document. -/
theorem step_opener (h : step limit scalar ⟨[], .value⟩ f.opener = some σ) :
    σ.stack = [f] ∧ σ.inString = false ∧ σ.escaped = false := by
  obtain ⟨hbracket, hstring, hslash⟩ := step_outside h rfl
  have hopen : bracket [] f.opener = some [f] := by cases f <;> rfl
  have hquote : f.opener ≠ '"' := by cases f <;> decide
  exact ⟨Option.some.inj (hbracket.symm.trans hopen), hstring.trans (decide_eq_false hquote), hslash⟩

theorem topLevel_document (h : Bracketed limit scalar t) :
    t.foldl TopLevel.read (topLevelAt count ⟨[], .after⟩) = topLevelAt (count + 1) ⟨[], .after⟩ := by
  obtain ⟨τ, hrun, hnil, -⟩ := accepts_iff.mp h.accepted
  obtain ⟨f, cs, rfl⟩ := h.opens
  obtain ⟨σ, hstep, hrest⟩ := run_cons_eq_some.mp hrun
  have hopen : σ.stack ≠ [] := by
    rw [(step_opener hstep).1]
    exact List.cons_ne_nil _ _
  have hfirst := @topLevel_step _ _ _ _ _ count hstep
  rw [if_neg fun hboth => hboth.1 rfl] at hfirst
  rw [List.foldl_cons]
  exact (congrArg (cs.foldl TopLevel.read) hfirst).trans (topLevel_run hopen hrest hnil)

/-- The span of a document is the document. -/
theorem spanFrom_document (h : Bracketed limit scalar (f.opener :: t)) (rest : Text) :
    spanFrom f.opener f.closer 0 false false (f.opener :: (t ++ rest)) = some (f.opener :: t) := by
  obtain ⟨τ, hrun, hnil, -⟩ := accepts_iff.mp h.accepted
  obtain ⟨g, hlast⟩ := h.closes
  obtain ⟨σ, hstep, hrest⟩ := run_cons_eq_some.mp hrun
  obtain ⟨hstack, hstring, hslash⟩ := step_opener hstep
  obtain ⟨init, rfl⟩ : ∃ init, t = init ++ [g.closer] := by
    cases ht : t.getLast? with
    | none =>
      rw [List.getLast?_eq_none_iff] at ht
      subst ht
      cases hrest
      rw [hstack] at hnil
      cases hnil
    | some c =>
      rw [List.getLast?_cons, ht] at hlast
      cases hlast
      exact ⟨_, (List.dropLast_append_getLast? _ ht).symm⟩
  rw [run_append] at hrest
  obtain ⟨ρ, hinit, hend⟩ := Option.bind_eq_some_iff.mp hrest
  obtain ⟨τ', hclose, hτ⟩ := run_cons_eq_some.mp hend
  cases hτ
  have hquote : f.opener ≠ '"' := by cases f <;> decide
  have hone : spanFrom f.opener f.closer 1 false false (init ++ ([g.closer] ++ rest)) =
      some (init ++ [g.closer]) := by
    rcases @spanFrom_run _ _ _ _ _ f [] hinit hstack with rfl | ⟨inner, hρ, hspan⟩
    · cases g <;> cases hclose
    · obtain ⟨f', hc, hf, hout, -⟩ := step_to_nil hclose (by rw [hρ]; simp) hnil
      rw [hρ] at hf
      obtain rfl : inner = [] := by
        have hlength := congrArg List.length hf
        rw [List.length_append, List.length_singleton, List.length_singleton] at hlength
        exact List.length_eq_zero_iff.mp (by omega)
      obtain rfl : f = f' := List.cons.inj hf |>.1
      have hquote : f.closer ≠ '"' := by cases f <;> decide
      have hopener : f.closer ≠ f.opener := by cases f <;> decide
      have hspan := hspan ([g.closer] ++ rest)
      rw [hstring, hslash] at hspan
      rw [List.count_nil, Nat.zero_add, hc, hout, List.singleton_append, spanFrom, if_neg Bool.false_ne_true,
        if_neg hquote, if_neg hopener, if_pos rfl, if_pos rfl] at hspan
      rw [hc]
      exact hspan
  rw [spanFrom, if_neg Bool.false_ne_true, if_neg hquote, if_pos rfl, List.append_assoc, hone]
  rfl

/-! ## Many documents -/

variable {parts : List (Text × Text)}

theorem topLevel_parts (hvalues : ∀ part ∈ parts, Bracketed limit scalar part.1)
    (hplain : ∀ part ∈ parts, Plain part.2) :
    (parts.map fun part => part.1 ++ part.2).flatten.foldl TopLevel.read (topLevelAt count ⟨[], .after⟩) =
      topLevelAt (count + parts.length) ⟨[], .after⟩ := by
  induction parts generalizing count with
  | nil => rfl
  | cons part parts ih =>
    have hrest := @ih (count + 1) (fun part hpart => hvalues part (List.mem_cons_of_mem _ hpart))
      fun part hpart => hplain part (List.mem_cons_of_mem _ hpart)
    rw [List.map_cons, List.flatten_cons, List.foldl_append, List.foldl_append,
      topLevel_document (hvalues part List.mem_cons_self),
      read_plain rfl (hplain part List.mem_cons_self), hrest, List.length_cons, Nat.add_right_comm, Nat.add_assoc]

theorem dropWhile_plain (h : Plain lead) :
    (lead ++ t).dropWhile (fun c => c ≠ '\x7b' ∧ c ≠ '[') = t.dropWhile fun c => c ≠ '\x7b' ∧ c ≠ '[' := by
  refine List.dropWhile_append_of_pos fun c hc => ?_
  have hc := h c hc
  simp only [List.mem_cons, List.not_mem_nil, or_false, not_or] at hc
  simp [hc]

theorem extractJsonSpan_document (hlead : Plain lead) (h : Bracketed limit scalar s) :
    extractJsonSpan (lead ++ (s ++ t)) = some s := by
  obtain ⟨f, cs, rfl⟩ := h.opens
  have hdrop : (f.opener :: (cs ++ t)).dropWhile (fun c => c ≠ '\x7b' ∧ c ≠ '[') = f.opener :: (cs ++ t) := by
    cases f <;> rfl
  have hcloser : (if f.opener = '\x7b' then '\x7d' else ']') = f.closer := by cases f <;> rfl
  rw [extractJsonSpan, dropWhile_plain hlead, List.cons_append, hdrop]
  dsimp only
  rw [hcloser, spanFrom_document h]
  rfl

/-- **Main result.** The values are counted, and the first is extracted. -/
theorem top_level_exact (hlead : Plain lead) (hvalues : ∀ part ∈ parts, Bracketed limit scalar part.1)
    (hplain : ∀ part ∈ parts, Plain part.2) :
    countBalancedTopLevelObjects (concatenation lead parts) = parts.length ∧
      extractJsonSpan (concatenation lead parts) = parts.head?.map (·.1) := by
  constructor
  · have hcount := @topLevel_parts _ _ 0 _ hvalues hplain
    rw [countBalancedTopLevelObjects, concatenation, List.foldl_append, read_plain rfl hlead]
    exact (congrArg TopLevel.count hcount).trans (Nat.zero_add _)
  · cases parts with
    | nil =>
      have hnone := @dropWhile_plain [] _ hlead
      rw [List.append_nil, List.dropWhile_nil] at hnone
      rw [concatenation, List.map_nil, List.flatten_nil, List.append_nil, extractJsonSpan, hnone]
      rfl
    | cons part parts =>
      rw [concatenation, List.map_cons, List.flatten_cons, List.append_assoc,
        extractJsonSpan_document hlead (hvalues part List.mem_cons_self)]
      rfl

end

/-- An object with brackets and an escaped quote in a string, and an array of arrays. -/
theorem top_level_exact_two :
    countBalancedTopLevelObjects "a: \x7b\"b\": \"]\x7d\\\"[\"\x7d, [[1], []]\n".toList = 2 ∧
      extractJsonSpan "a: \x7b\"b\": \"]\x7d\\\"[\"\x7d, [[1], []]\n".toList =
        some "\x7b\"b\": \"]\x7d\\\"[\"\x7d".toList := by
  have hobject : Bracketed 127 sampleScalar "\x7b\"b\": \"]\x7d\\\"[\"\x7d".toList :=
    ⟨by decide, ⟨.obj, _, rfl⟩, ⟨.obj, rfl⟩⟩
  have harray : Bracketed 127 sampleScalar "[[1], []]".toList := ⟨by decide, ⟨.arr, _, rfl⟩, ⟨.arr, rfl⟩⟩
  exact @top_level_exact 127 sampleScalar "a: ".toList
    [("\x7b\"b\": \"]\x7d\\\"[\"\x7d".toList, ", ".toList), ("[[1], []]".toList, "\n".toList)]
    (by simp [Plain]) (List.forall_mem_cons.mpr ⟨hobject, List.forall_mem_singleton.mpr harray⟩)
    (by simp [Plain])

end Nanna.Llm
