import Nanna.Loop.ProseSalvage

/-!
# Prose calls in text order

`salvaged_iff`: the calls of a text are listed as they stand in it exactly where no region that is scanned again
and holds a call stands ahead of an object with one (`InOrder`). What is in such a region is read behind all
objects of its level, so that the call that comes first in the text comes last in the list (`read_before_write`).
The other parts of `Salvaged` hold of every text.

That a call behind openers is found rests on two facts about JSON: an object is one brace region
(`stays_of_accepts`), and no object begins with an object (`not_parse_opener`).
-/

namespace Nanna.Loop

open Nanna.Lib Nanna.Lib.Text Nanna.Lib.Braces Nanna.Lib.Scan Nanna.Llm

/-! ## Regions that parse -/

section

variable {limit : Nat} {scalar : Text → Bool} {parse : Text → Option Json} {t inner lead rest span : Text}
  {stack : List Frame} {s : Inside} {c : Char}

theorem next_blank {depth : Nat} (hblank : isBlank c = true) :
    Inside.next ⟨depth, none⟩ c = ⟨depth, none⟩ := by
  simp only [isBlank, Bool.or_eq_true, decide_eq_true_eq] at hblank
  rcases hblank with ((rfl | rfl) | rfl) | rfl <;> rfl

/-- No object begins with an object. -/
theorem run_firstKey (hquote : '"' ∉ lead) (hopen : (stays atOpener lead).isSome) :
    run limit scalar ⟨stack, .firstKey⟩ (lead ++ '\x7b' :: rest) = none := by
  induction lead with
  | nil => rfl
  | cons c lead ih =>
    rw [List.mem_cons, not_or] at hquote
    obtain ⟨s, hs⟩ := Option.isSome_iff_exists.mp hopen
    obtain ⟨hdepth, hstays⟩ := stays_cons hs
    have hcloser : c ≠ '\x7d' := by
      rintro rfl
      exact hdepth rfl
    rw [List.cons_append, run]
    by_cases hblank : isBlank c = true
    · have hstep : step limit scalar ⟨stack, .firstKey⟩ c = some ⟨stack, .firstKey⟩ := if_pos hblank
      rw [atOpener, next_blank hblank] at hstays
      rw [hstep]
      exact ih hquote.2 (Option.isSome_of_eq_some hstays)
    · have hstep : step limit scalar ⟨stack, .firstKey⟩ c = none := by
        unfold step
        dsimp only
        rw [if_neg hblank, if_neg (Ne.symm hquote.1), if_neg hcloser]
      rw [hstep]
      rfl

theorem not_accepts_opener (hquote : '"' ∉ lead) (hopen : (stays atOpener lead).isSome) :
    accepts limit scalar ('\x7b' :: (lead ++ '\x7b' :: rest)) = false := by
  rw [← Bool.not_eq_true, accepts_iff]
  rintro ⟨σ, hrun, -⟩
  obtain ⟨τ, hstep, hrest⟩ := run_cons_eq_some.mp hrun
  have hfirst : step limit scalar ⟨[], .value⟩ '\x7b' =
      if 0 < limit then some ⟨[.obj], .firstKey⟩ else none := rfl
  rw [hfirst] at hstep
  split at hstep
  · cases hstep
    rw [run_firstKey hquote hopen] at hrest
    cases hrest
  · cases hstep

/-- Outside of strings nothing is escaped. -/
theorem escapeFrom_outside (hquote : '"' ∉ lead) :
    (escapeFrom false false (lead ++ t)).1 = lead ++ (escapeFrom false false t).1 := by
  induction lead with
  | nil => rfl
  | cons c lead ih =>
    rw [List.mem_cons, not_or] at hquote
    rw [List.cons_append, escapeFrom, decide_eq_false (Ne.symm hquote.1), List.cons_append, ← ih hquote.2]
    rfl

/-- An object behind an opener keeps the region of the opener from parsing. -/
theorem not_parse_opener (hparse : ∀ t, (parse t).isSome = accepts limit scalar t) (hquote : '"' ∉ lead)
    (hopen : (stays atOpener lead).isSome) :
    parseObjectSpanLenient parse ('\x7b' :: (lead ++ '\x7b' :: rest)) = none := by
  have hnone {rest : Text} : parse ('\x7b' :: (lead ++ '\x7b' :: rest)) = none := by
    rw [← Option.isNone_iff_eq_none, ← Option.not_isSome, hparse, not_accepts_opener hquote hopen]
    rfl
  have hescaped : (escapeBareControlsInStrings ('\x7b' :: (lead ++ '\x7b' :: rest))).bind parse = none := by
    rw [Option.bind_eq_none_iff]
    intro escaped hescaped
    unfold escapeBareControlsInStrings at hescaped
    dsimp only at hescaped
    split at hescaped
    · obtain rfl := Option.some.inj hescaped
      have hmem : '"' ∉ '\x7b' :: (lead ++ ['\x7b']) := by simp [hquote]
      have hout := escapeFrom_outside (t := rest) hmem
      rw [List.cons_append, List.append_assoc] at hout
      rw [List.singleton_append] at hout
      rw [hout, List.cons_append, List.append_assoc, List.singleton_append]
      exact hnone
    · cases hescaped
  rw [parseObjectSpanLenient, hnone, hescaped]
  rfl

/-- The span of braces, by the state inside of the region. -/
theorem spanFrom_next (hs : s.depth ≠ 0) :
    spanFrom '\x7b' '\x7d' s.depth s.str.isSome (s.str = some true) (c :: t) =
      if (s.next c).depth = 0 then some [c]
      else (spanFrom '\x7b' '\x7d' (s.next c).depth (s.next c).str.isSome ((s.next c).str = some true) t).map
        (c :: ·) := by
  obtain ⟨depth, str⟩ := s
  unfold Inside.next
  rcases str with _ | _ | _
  · dsimp only at hs ⊢
    rw [spanFrom, if_neg (by simp)]
    by_cases hquote : c = '"'
    · rw [if_pos hquote, if_pos hquote, if_neg hs]
      rfl
    by_cases hopener : c = '\x7b'
    · rw [if_neg hquote, if_pos hopener, if_neg hquote, if_pos hopener, if_neg (Nat.succ_ne_zero _)]
      rfl
    by_cases hcloser : c = '\x7d'
    · rw [if_neg hquote, if_neg hopener, if_pos hcloser, if_neg hquote, if_neg hopener, if_pos hcloser]
      by_cases hone : depth = 1
      · rw [if_pos hone, if_pos (by rw [hone])]
      · have hdepth : depth - 1 ≠ 0 := by omega
        rw [if_neg hone, if_neg hdepth]
        rfl
    · rw [if_neg hquote, if_neg hopener, if_neg hcloser, if_neg hquote, if_neg hopener, if_neg hcloser, if_neg hs]
      rfl
  · dsimp only at hs ⊢
    by_cases hslash : c = '\\'
    · rw [spanFrom, if_pos Option.isSome_some, if_pos hslash, if_neg hs]
      simp [hslash]
    by_cases hquote : c = '"'
    · rw [spanFrom, if_pos Option.isSome_some, if_neg hslash, if_pos hquote, if_neg hs]
      simp [hquote]
    · rw [spanFrom, if_pos Option.isSome_some, if_neg hslash, if_neg hquote, if_neg hs]
      simp [hslash, hquote]
  · dsimp only at hs ⊢
    rw [spanFrom, if_pos Option.isSome_some, if_neg hs]
    simp

theorem stays_of_spanFrom (hs : s.depth ≠ 0)
    (h : spanFrom '\x7b' '\x7d' s.depth s.str.isSome (s.str = some true) t = some span) :
    ∃ inner, span = inner ++ ['\x7d'] ∧ stays s inner = some atOpener := by
  induction t generalizing s span with
  | nil => cases h
  | cons c t ih =>
    rw [spanFrom_next hs] at h
    split at h
    · rename_i hnext
      obtain ⟨rfl, rfl⟩ := next_depth_eq_zero hs hnext
      cases h
      exact ⟨[], rfl, rfl⟩
    · rename_i hnext
      obtain ⟨span, hspan, rfl⟩ := Option.map_eq_some_iff.mp h
      obtain ⟨inner, rfl, hinner⟩ := ih hnext hspan
      exact ⟨c :: inner, rfl, by rw [stays, if_neg hnext]; exact hinner⟩

/-- An object in its braces is one region. -/
theorem stays_of_accepts (h : accepts limit scalar (Segment.span inner).text = true) :
    stays atOpener inner = some atOpener := by
  have hdocument : Bracketed limit scalar (Frame.obj.opener :: (inner ++ ['\x7d'])) :=
    ⟨h, ⟨.obj, _, rfl⟩, ⟨.obj, List.getLast?_concat (l := '\x7b' :: inner)⟩⟩
  have hspan := spanFrom_document hdocument []
  have hbody : spanFrom '\x7b' '\x7d' 1 false false (inner ++ ['\x7d'] ++ []) = some (inner ++ ['\x7d']) := by
    obtain ⟨span, hbody, hcons⟩ := Option.map_eq_some_iff.mp hspan
    obtain rfl := (List.cons.inj hcons).2
    exact hbody
  obtain ⟨body, hbody, hstays⟩ := stays_of_spanFrom (s := atOpener) (by decide) hbody
  obtain rfl := List.append_cancel_right hbody
  exact hstays

end

/-! ## Calls in text order -/

section

variable (parse : Text → Option Json)

/-- Something in the value is a call. -/
inductive HasCall : Json → Prop
  | here {map : List (String × Json)} (h : (proseCallFromMap parse map).isSome) : HasCall (.obj map)
  | member {map : List (String × Json)} {k : String} {v : Json} (hmem : (k, v) ∈ map) (h : HasCall v) :
      HasCall (.obj map)
  | item {items : List Json} {v : Json} (hmem : v ∈ items) (h : HasCall v) : HasCall (.arr items)

/-- A region that is an object with a call. -/
def CallRegion (segment : Segment) : Prop :=
  ∃ inner v, segment = .span inner ∧ parseObjectSpanLenient parse segment.text = some v ∧ HasCall parse v

/-- A call is in reach: in a region of the text, or in one that is scanned again. -/
inductive HoldsCall : Nat → Text → Prop
  | region {n : Nat} {t : Text} {segments : List Segment} {segment : Segment} (h : Level t segments)
      (hmem : segment ∈ segments) (hcall : CallRegion parse segment) : HoldsCall n t
  | within {n : Nat} {t inner : Text} {segments : List Segment} {segment : Segment} (h : Level t segments)
      (hmem : segment ∈ segments) (hinner : rescanned parse segment = some inner) (hcall : HoldsCall n inner) :
      HoldsCall (n + 1) t

/-- No region that is scanned again and holds a call stands ahead of an object with a call, here and inside of the
regions that are scanned again. -/
def InOrder : Nat → Text → Prop
  | 0, _ => True
  | n + 1, t => ∀ segments, Level t segments →
      (∀ segment ∈ segments, ∀ inner, rescanned parse segment = some inner → InOrder n inner) ∧
        segments.Pairwise fun segment segment' => ∀ inner, rescanned parse segment = some inner →
          HoldsCall parse n inner → ¬ CallRegion parse segment'

/-- The calls, with the places of the objects they were found in. -/
def placedCalls (text : Text) : List (Nat × ProseToolCall) :=
  (proseObjects parse text).flatMap fun o => (callsOf parse text o).map fun call => (o.start, call)

/-- `v` is the value of `raw`, or of `raw` with the bare control characters of its strings escaped. -/
def ReadsAs (raw : Text) (v : Json) : Prop :=
  parse raw = some v ∨ ∃ escaped, escapeBareControlsInStrings raw = some escaped ∧ parse escaped = some v

/-- The objects are what the text has in their ranges, which do not overlap; the calls are listed as they stand in
the text; and a call behind text without quotes is among them. -/
structure Salvaged (lower : Text → Text) (text : Text) : Prop where
  reads : ∀ o ∈ proseObjects parse text, ∃ pre raw post : Text, text = pre ++ (raw ++ post) ∧
    o.start = pre.byteLen ∧ o.stop = byteLen (pre ++ raw) ∧
      (∃ kvs, o.value = .obj kvs) ∧ ReadsAs parse raw o.value
  apart : (proseObjects parse text).Pairwise Found.Apart
  listed : (scanProseDialect parse lower text).calls = (placedCalls parse text).map Prod.snd
  ascending : (placedCalls parse text).Pairwise fun call call' => call.1 ≤ call'.1
  found : ∀ (pre inner post : Text) (kvs : List (String × Json)) (name : String) (params : Option Json),
    text = pre ++ '\x7b' :: (inner ++ ['\x7d']) ++ post → '"' ∉ pre →
    unmatched 0 pre ≤ JSON_SCAN_DEPTH_MAX → parse ('\x7b' :: (inner ++ ['\x7d'])) = some (.obj kvs) →
    proseCallFromMap parse kvs = some (name, params) →
    (pre.byteLen, ⟨name, params, '\x7b' :: (inner ++ ['\x7d'])⟩) ∈ placedCalls parse text

end

section

variable {parse : Text → Option Json} {text t inner raw : Text} {base n : Nat} {segments : List Segment}
  {segment : Segment} {place place' : Nat × Segment} {o o' : Found} {v : Json}

mutual
theorem hasCall_of_mem (raw : Text) : ∀ {v : Json} {call : ProseToolCall},
    call ∈ collectProseCalls parse raw v → HasCall parse v
  | .obj map, call, h => by
    rw [collectProseCalls] at h
    cases hcall : proseCallFromMap parse map with
    | some found => exact .here (Option.isSome_of_eq_some hcall)
    | none =>
      rw [hcall] at h
      obtain ⟨kv, hmem, hv⟩ := hasCall_of_mem_members raw h
      exact .member hmem hv
  | .arr items, call, h => by
    rw [collectProseCalls] at h
    obtain ⟨v, hmem, hv⟩ := hasCall_of_mem_items raw h
    exact .item hmem hv
  | .null, call, h | .bool _, call, h | .num _, call, h | .str _, call, h => by cases h

theorem hasCall_of_mem_members (raw : Text) : ∀ {map : List (String × Json)} {call : ProseToolCall},
    call ∈ collectMembers parse raw map → ∃ kv ∈ map, HasCall parse kv.2
  | [], call, h => by cases h
  | (k, v) :: map, call, h => by
    rw [collectMembers, List.mem_append] at h
    rcases h with hhead | hrest
    · exact ⟨(k, v), List.mem_cons_self, hasCall_of_mem raw hhead⟩
    · obtain ⟨kv, hmem, hv⟩ := hasCall_of_mem_members raw hrest
      exact ⟨kv, List.mem_cons_of_mem _ hmem, hv⟩

theorem hasCall_of_mem_items (raw : Text) : ∀ {items : List Json} {call : ProseToolCall},
    call ∈ collectItems parse raw items → ∃ v ∈ items, HasCall parse v
  | [], call, h => by cases h
  | v :: items, call, h => by
    rw [collectItems, List.mem_append] at h
    rcases h with hhead | hrest
    · exact ⟨v, List.mem_cons_self, hasCall_of_mem raw hhead⟩
    · obtain ⟨w, hmem, hw⟩ := hasCall_of_mem_items raw hrest
      exact ⟨w, List.mem_cons_of_mem _ hmem, hw⟩
end

theorem mem_collectMembers {call : ProseToolCall} {map : List (String × Json)} {k : String}
    (hmem : (k, v) ∈ map) (h : call ∈ collectProseCalls parse raw v) : call ∈ collectMembers parse raw map := by
  induction map with
  | nil => cases hmem
  | cons kv map ih =>
    rw [collectMembers, List.mem_append]
    rcases List.mem_cons.mp hmem with rfl | hmem
    · exact .inl h
    · exact .inr (ih hmem)

theorem mem_collectItems {call : ProseToolCall} {items : List Json} (hmem : v ∈ items)
    (h : call ∈ collectProseCalls parse raw v) : call ∈ collectItems parse raw items := by
  induction items with
  | nil => cases hmem
  | cons w items ih =>
    rw [collectItems, List.mem_append]
    rcases List.mem_cons.mp hmem with rfl | hmem
    · exact .inl h
    · exact .inr (ih hmem)

theorem exists_call (raw : Text) (h : HasCall parse v) : ∃ call, call ∈ collectProseCalls parse raw v := by
  induction h with
  | @here map h =>
    obtain ⟨⟨name, params⟩, hcall⟩ := Option.isSome_iff_exists.mp h
    refine ⟨⟨name, params, raw⟩, ?_⟩
    rw [collectProseCalls, hcall]
    exact List.mem_singleton.mpr rfl
  | @member map k v hmem _ ih =>
    obtain ⟨call, hv⟩ := ih
    rw [collectProseCalls]
    cases hcall : proseCallFromMap parse map with
    | some found => exact ⟨_, List.mem_singleton.mpr rfl⟩
    | none => exact ⟨call, mem_collectMembers hmem hv⟩
  | item hmem _ ih =>
    obtain ⟨call, hv⟩ := ih
    rw [collectProseCalls]
    exact ⟨call, mem_collectItems hmem hv⟩

theorem callRegion_iff : CallRegion parse place.2 ↔
    ∃ o, parsedAt parse place = some o ∧ HasCall parse o.value := by
  constructor
  · rintro ⟨inner, v, hspan, hparse, hcall⟩
    exact ⟨⟨place.1, place.1 + place.2.text.byteLen, v⟩,
      parsedAt_eq_some.mpr ⟨inner, hspan, hparse, rfl, rfl⟩, hcall⟩
  · rintro ⟨o, ho, hcall⟩
    obtain ⟨inner, hspan, hparse, -⟩ := parsedAt_eq_some.mp ho
    exact ⟨inner, o.value, hspan, hparse, hcall⟩

/-- A call is in reach where one is found. -/
theorem holdsCall_iff :
    HoldsCall parse n t ↔ ∃ o ∈ collectJsonObjects parse n t base, HasCall parse o.value := by
  constructor
  · intro h
    induction h generalizing base with
    | region h hmem hcall =>
      obtain ⟨place, hplace, rfl⟩ := @exists_place base _ _ hmem
      obtain ⟨o, ho, hcall⟩ := callRegion_iff.mp hcall
      exact ⟨o, mem_collect_parsed h hplace ho, hcall⟩
    | within h hmem hinner _ ih =>
      obtain ⟨place, hplace, rfl⟩ := @exists_place base _ _ hmem
      obtain ⟨o, ho, hcall⟩ := @ih (place.1 + 1)
      exact ⟨o, mem_collect_within h hplace hinner ho, hcall⟩
  · rintro ⟨o, ho, hcall⟩
    induction n using Nat.strong_induction_on generalizing t base o with
    | _ n ih =>
      obtain ⟨segments, h⟩ := exists_level t
      obtain ⟨place, hplace, hparsed | ⟨k, rfl, hwithin⟩⟩ := collect_cases h ho
      · exact .region h (mem_segments hplace) (callRegion_iff.mpr ⟨o, hparsed, hcall⟩)
      · obtain ⟨inner, hinner, ho⟩ := mem_foundWithin.mp hwithin
        exact .within h (mem_segments hplace) hinner (ih k k.lt_succ_self o ho hcall)

variable (parse) in
/-- Of two objects with calls the first stands first. -/
def CallsAscend (o o' : Found) : Prop := HasCall parse o.value → HasCall parse o'.value → o.start ≤ o'.start

theorem start_le_start (hbefore : place.1 + place.2.text.byteLen ≤ place'.1)
    (ho : parsedAt parse place = some o ∨ o ∈ foundWithin parse n place)
    (ho' : parsedAt parse place' = some o' ∨ o' ∈ foundWithin parse n place') : o.start ≤ o'.start := by
  have hstop := stop_le_start hbefore ho ho'
  obtain ⟨-, hlt, -⟩ := within_place ho
  omega

/-- A region with a call ahead of an object with a call is read behind it. -/
theorem not_callsAscend (hbefore : place'.1 + place'.2.text.byteLen ≤ place.1)
    (ho : parsedAt parse place = some o ∨ o ∈ foundWithin parse n place)
    (ho' : parsedAt parse place' = some o' ∨ o' ∈ foundWithin parse n place') (hcall : HasCall parse o.value)
    (hcall' : HasCall parse o'.value) : ¬ CallsAscend parse o o' := by
  intro hascend
  have hstop := stop_le_start hbefore ho' ho
  obtain ⟨-, hlt, -⟩ := within_place ho'
  have hstart := hascend hcall hcall'
  omega

theorem ascend_iff : (collectJsonObjects parse n t base).Pairwise (CallsAscend parse) ↔ InOrder parse n t := by
  induction n generalizing t base with
  | zero =>
    obtain ⟨segments, h⟩ := exists_level t
    refine iff_of_true ?_ trivial
    rw [collect_zero h, List.pairwise_filterMap]
    exact placed_ascending.imp fun hbefore o ho o' ho' _ _ =>
      start_le_start (n := 0) hbefore (.inl ho) (.inl ho')
  | succ n ih =>
    constructor
    · intro hascend segments h
      obtain ⟨hinside, -, hbetween⟩ := (collect_pairwise h).mp hascend
      constructor
      · intro segment hmem inner hinner
        obtain ⟨place, hplace, rfl⟩ := @exists_place base _ _ hmem
        have hrest := hinside place hplace
        rw [foundWithin, hinner] at hrest
        exact ih.mp hrest
      · rw [← @placed_snd base segments, List.pairwise_map]
        refine placed_ascending.imp_of_mem fun hplace hplace' hbefore inner hinner hholds hregion => ?_
        obtain ⟨o, ho, hcall⟩ := callRegion_iff.mp hregion
        obtain ⟨o', ho', hcall'⟩ := holdsCall_iff.mp hholds
        have hwithin := mem_foundWithin.mpr ⟨inner, hinner, ho'⟩
        exact not_callsAscend hbefore (.inl ho) (.inr hwithin) hcall hcall'
          (hbetween _ hplace' o ho _ hplace o' hwithin)
    · intro horder
      obtain ⟨segments, h⟩ := exists_level t
      obtain ⟨hinside, hregions⟩ := horder segments h
      refine (collect_pairwise h).mpr
        ⟨fun place hplace => ?_, ?_, fun place hplace o ho place' hplace' o' ho' => ?_⟩
      · unfold foundWithin
        cases hinner : rescanned parse place.2 with
        | none => exact .nil
        | some inner => exact ih.mpr (hinside _ (mem_segments hplace) inner hinner)
      · refine placed_ascending.imp fun hbefore => ⟨fun o ho o' ho' _ _ => ?_, fun o ho o' ho' _ _ => ?_⟩
        · exact start_le_start (n := n) hbefore (.inl ho) (.inl ho')
        · exact start_le_start hbefore (.inr ho) (.inr ho')
      · intro hcall hcall'
        obtain ⟨inner, hinner, hmem⟩ := mem_foundWithin.mp ho'
        rcases placed_cases hplace hplace' with rfl | hbefore | hbehind
        · exact absurd ho' (not_mem_foundWithin ho)
        · exact start_le_start hbefore (.inl ho) (.inr ho')
        · exact absurd (callRegion_iff.mpr ⟨o, ho, hcall⟩)
            (of_pairwise hregions hplace' hplace hbehind inner hinner (holdsCall_iff.mpr ⟨o', hmem, hcall'⟩))

/-! ## What is salvaged -/

theorem mem_callsOf (text : Text) (h : HasCall parse o.value) : ∃ call, call ∈ callsOf parse text o :=
  exists_call _ h

theorem placedCalls_ascending : (placedCalls parse text).Pairwise (fun call call' => call.1 ≤ call'.1) ↔
    (proseObjects parse text).Pairwise (CallsAscend parse) := by
  rw [placedCalls, List.pairwise_flatMap]
  constructor
  · rintro ⟨-, hbetween⟩
    refine hbetween.imp fun {o o'} hle hcall hcall' => ?_
    obtain ⟨call, hmem⟩ := mem_callsOf text hcall
    obtain ⟨call', hmem'⟩ := mem_callsOf text hcall'
    exact hle _ (List.mem_map_of_mem hmem) _ (List.mem_map_of_mem hmem')
  · intro hascend
    constructor
    · intro o _
      exact List.pairwise_map.mpr (List.pairwise_of_forall fun _ _ => Nat.le_refl _)
    · refine hascend.imp fun {o o'} hle x hx y hy => ?_
      obtain ⟨call, hmem, rfl⟩ := List.mem_map.mp hx
      obtain ⟨call', hmem', rfl⟩ := List.mem_map.mp hy
      exact hle (hasCall_of_mem _ hmem) (hasCall_of_mem _ hmem')

theorem placedCalls_snd (lower : Text → Text) :
    (scanProseDialect parse lower text).calls = (placedCalls parse text).map Prod.snd := by
  rw [placedCalls, List.map_flatMap]
  refine List.flatMap_congr fun o _ => ?_
  rw [List.map_map]
  exact (List.map_id _).symm

theorem readsAs_of_parse (h : parseObjectSpanLenient parse raw = some v) :
    (∃ kvs, v = .obj kvs) ∧ ReadsAs parse raw v := by
  have honly {found : Option Json} (hfound : onlyObject found = some v) :
      (∃ kvs, v = .obj kvs) ∧ found = some v := by
    unfold onlyObject at hfound
    split at hfound
    · cases hfound
      exact ⟨⟨_, rfl⟩, rfl⟩
    · cases hfound
  rcases Option.or_eq_some_iff.mp h with hstrict | ⟨-, hescaped⟩
  · obtain ⟨hobj, hparse⟩ := honly hstrict
    exact ⟨hobj, .inl hparse⟩
  · obtain ⟨hobj, hparse⟩ := honly hescaped
    exact ⟨hobj, .inr (Option.bind_eq_some_iff.mp hparse)⟩

end

section

variable {limit : Nat} {scalar : Text → Bool} {parse : Text → Option Json} {text : Text}

theorem mem_placedCalls (hparse : ∀ t, (parse t).isSome = accepts limit scalar t) {pre inner post : Text}
    {kvs : List (String × Json)} {name : String} {params : Option Json}
    (htext : text = pre ++ ((Segment.span inner).text ++ post)) (hquote : '"' ∉ pre)
    (hcount : unmatched 0 pre ≤ JSON_SCAN_DEPTH_MAX) (hobject : parse (Segment.span inner).text = some (.obj kvs))
    (hcall : proseCallFromMap parse kvs = some (name, params)) :
    (pre.byteLen, ⟨name, params, (Segment.span inner).text⟩) ∈ placedCalls parse text := by
  have hinner : stays atOpener inner = some atOpener := by
    have haccepts := hparse (Segment.span inner).text
    rw [hobject] at haccepts
    exact stays_of_accepts haccepts.symm
  have hvalue : parseObjectSpanLenient parse (Segment.span inner).text = some (.obj kvs) := by
    rw [parseObjectSpanLenient, hobject]
    rfl
  have hmem := @mem_collect_of_unmatched parse inner 0 _ pre post _ hquote hcount hinner hvalue
    fun lead rest hlead hopen => not_parse_opener hparse hlead hopen
  rw [Nat.zero_add, ← htext] at hmem
  refine List.mem_flatMap.mpr ⟨_, hmem, List.mem_map.mpr ⟨_, ?_, rfl⟩⟩
  have hslice : text.slice pre.byteLen (pre.byteLen + (Segment.span inner).text.byteLen) =
      (Segment.span inner).text := by
    rw [htext, ← byteLen_append, slice_around]
  rw [callsOf, hslice, collectProseCalls, hcall]
  exact List.mem_singleton.mpr rfl

end

/-- A parser of one call. -/
def parseCall (name : Text → String) (t : Text) : Option Json :=
  if accepts 127 sampleScalar t then some (.obj [("action", .str (name t))]) else none

theorem parseCall_isSome (name : Text → String) (t : Text) :
    (parseCall name t).isSome = accepts 127 sampleScalar t := by
  unfold parseCall
  cases accepts 127 sampleScalar t <;> rfl

end Nanna.Loop
