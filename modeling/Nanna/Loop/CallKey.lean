import Mathlib.Data.String.Basic
import Nanna.Lib.Decimal
import Nanna.Lib.Delimited
import Nanna.Lib.JsonPrint
import Nanna.Loop.Repeats

/-!
# When two calls share a key

`repeat_key_iff`: two calls have one key exactly where their names are equal and their inputs are the same
(`sameInput`): up to the order of members, and up to blanks in a string under no artifact field. Numbers count as
they are kept, so that the two zeros are two inputs.

What `canonical_json` prints ends by itself (`canonical_cancel`), whatever is printed beside it, so the members of an
object can be read off its text. They are sorted by keys no two of which are equal, so their order is a matter of the
keys alone (`sorted_eq_iff`).
-/

namespace Nanna.Loop

open Nanna.Lib Nanna.Lib.Text

/-- What the printers do: a string literal starts and ends with its quotes, a number is a word of its own. -/
structure RepeatEnv.Prints (env : RepeatEnv) : Prop where
  quote_head : ∀ s, (env.quote s).head? = some '"'
  quote_cancel : ∀ s t r r', env.quote s ++ r = env.quote t ++ r' → s = t ∧ r = r'
  number_ne_nil : ∀ n, env.showNumber n ≠ []
  number_chars : ∀ n, ∀ c ∈ env.showNumber n, c.isDigit = true ∨ c ∈ ['-', '+', '.', 'e', 'E']
  number_inj : Function.Injective env.showNumber

/-! ## The same input -/

/-- No object, at any depth, has two members under one key. -/
inductive DistinctKeys : Json → Prop
  | null : DistinctKeys .null
  | bool (b : Bool) : DistinctKeys (.bool b)
  | num (n : JsonNumber) : DistinctKeys (.num n)
  | str (s : String) : DistinctKeys (.str s)
  | arr {xs : List Json} (h : ∀ x ∈ xs, DistinctKeys x) : DistinctKeys (.arr xs)
  | obj {kvs : List (String × Json)} (hkeys : (kvs.map Prod.fst).Nodup) (h : ∀ kv ∈ kvs, DistinctKeys kv.2) :
    DistinctKeys (.obj kvs)

mutual
/-- Equality up to the order of members and, with `normalize`, up to blanks in strings that no artifact field is
above. -/
def sameInput (normalize : Bool) : Json → Json → Bool
  | .null, .null => true
  | .bool a, .bool b => a = b
  | .num a, .num b => a = b
  | .str a, .str b =>
    if normalize then normalizeCallText a.toList = normalizeCallText b.toList else a = b
  | .arr xs, .arr ys => sameItems normalize xs ys
  | .obj xs, .obj ys => xs.length = ys.length && sameMembers normalize xs ys
  | _, _ => false

def sameItems (normalize : Bool) : List Json → List Json → Bool
  | [], [] => true
  | x :: xs, y :: ys => sameInput normalize x y && sameItems normalize xs ys
  | _, _ => false

/-- Every member of the first list has a counterpart in the second. -/
def sameMembers (normalize : Bool) : List (String × Json) → List (String × Json) → Bool
  | [], _ => true
  | (key, x) :: xs, ys =>
    (match ys.lookup key with
      | some y => sameInput (normalize && !isArtifactField key) x y
      | none => false) && sameMembers normalize xs ys
end

/-- A step into a value. -/
inductive JsonStep where
  | member (key : String)
  | item (i : Nat)

def JsonStep.isArtifact : JsonStep → Bool
  | member key => isArtifactField key
  | item _ => false

def JsonStep.into : JsonStep → Json → Option Json
  | member key, .obj kvs => kvs.lookup key
  | item i, .arr xs => xs[i]?
  | _, _ => none

/-- The string at the end of a path. -/
def stringAt : List JsonStep → Json → Option String
  | [], j => j.asStr
  | step :: path, j => (step.into j).bind (stringAt path)

variable {env : RepeatEnv} {normalize : Bool} {x y : Json} {xs ys : List Json} {kvs kvs' : List (String × Json)}
  {members members' : List (String × Text)} {line text : Text}

@[simp] theorem sameItems_cons :
    sameItems normalize (x :: xs) (y :: ys) = (sameInput normalize x y && sameItems normalize xs ys) := rfl

theorem sameInput_str {a b : String} : sameInput normalize (.str a) (.str b) =
    if normalize then decide (normalizeCallText a.toList = normalizeCallText b.toList) else decide (a = b) := by
  cases normalize <;> rfl

theorem sameInput_arr : sameInput normalize (.arr xs) (.arr ys) = sameItems normalize xs ys := rfl

theorem sameInput_obj : sameInput normalize (.obj kvs) (.obj kvs') =
    (decide (kvs.length = kvs'.length) && sameMembers normalize kvs kvs') := rfl

theorem DistinctKeys.items (h : DistinctKeys (.arr xs)) : ∀ x ∈ xs, DistinctKeys x := by
  cases h with
  | arr h => exact h

theorem DistinctKeys.keys (h : DistinctKeys (.obj kvs)) : (kvs.map Prod.fst).Nodup := by
  cases h with
  | obj hkeys _ => exact hkeys

theorem DistinctKeys.values (h : DistinctKeys (.obj kvs)) : ∀ kv ∈ kvs, DistinctKeys kv.2 := by
  cases h with
  | obj _ h => exact h

theorem sameItems_iff : sameItems normalize xs ys = true ↔ List.Forall₂ (sameInput normalize · · = true) xs ys := by
  induction xs generalizing ys with
  | nil =>
    cases ys with
    | nil => exact iff_of_true rfl .nil
    | cons y ys => exact iff_of_false (by rintro ⟨⟩) (by rintro ⟨⟩)
  | cons x xs ih =>
    cases ys with
    | nil => exact iff_of_false (by rintro ⟨⟩) (by rintro ⟨⟩)
    | cons y ys => rw [sameItems_cons, Bool.and_eq_true, ih, List.forall₂_cons]

theorem sameMembers_iff : sameMembers normalize kvs kvs' = true ↔
    ∀ kv ∈ kvs, ∃ y, kvs'.lookup kv.1 = some y ∧ sameInput (normalize && !isArtifactField kv.1) kv.2 y = true := by
  induction kvs with
  | nil => exact iff_of_true rfl fun _ hkv => absurd hkv List.not_mem_nil
  | cons kv kvs ih =>
    have hcons : sameMembers normalize (kv :: kvs) kvs' = ((match kvs'.lookup kv.1 with
        | some y => sameInput (normalize && !isArtifactField kv.1) kv.2 y
        | none => false) && sameMembers normalize kvs kvs') := rfl
    rw [hcons, Bool.and_eq_true, ih, List.forall_mem_cons]
    refine and_congr_left' ?_
    rcases kvs'.lookup kv.1 with _ | y <;> simp

/-! ## Blanks -/

def wordsOf (line : Text) : List Text := (line.splitOnP isWhitespace).filter (· ≠ [])

/-- A line without its blanks but for one between two words. -/
def squeeze (line : Text) : Text := [' '].intercalate (wordsOf line)

theorem normalizeCallText_eq :
    normalizeCallText text = ['\n'].intercalate (((text.splitOn '\n').map squeeze).filter (· ≠ [])) := rfl

theorem of_mem_wordsOf {word : Text} (h : word ∈ wordsOf line) : word ≠ [] ∧ ∀ c ∈ word, isWhitespace c = false :=
  ⟨of_decide_eq_true (List.mem_filter.mp h).2, of_mem_splitOnP word (List.mem_filter.mp h).1⟩

theorem wordsOf_squeeze : wordsOf (squeeze line) = wordsOf line := by
  rcases eq_or_ne (wordsOf line) [] with hnone | hsome
  · rw [squeeze, hnone]
    rfl
  · rw [wordsOf, squeeze, splitOnP_intercalate (by decide) hsome fun word hword => (of_mem_wordsOf hword).2,
      List.filter_eq_self.mpr fun word hword => decide_eq_true (of_mem_wordsOf hword).1]

theorem squeeze_squeeze : squeeze (squeeze line) = squeeze line := by
  rw [squeeze, wordsOf_squeeze, squeeze]

theorem newline_not_mem_squeeze : '\n' ∉ squeeze line := by
  intro hmem
  rcases mem_intercalate hmem with hblank | ⟨word, hword, hc⟩
  · exact absurd hblank (by decide)
  · exact absurd ((of_mem_wordsOf hword).2 _ hc) (by decide)

/-- `normalize_call_text` is idempotent. -/
theorem normalize_normalize : normalizeCallText (normalizeCallText text) = normalizeCallText text := by
  rw [@normalizeCallText_eq text]
  generalize hlines : ((text.splitOn '\n').map squeeze).filter (· ≠ []) = lines
  have hline : ∀ line ∈ lines, squeeze line = line ∧ line ≠ [] ∧ '\n' ∉ line := by
    intro line hmem
    rw [← hlines, List.mem_filter, List.mem_map] at hmem
    obtain ⟨⟨line, -, rfl⟩, hne⟩ := hmem
    exact ⟨squeeze_squeeze, of_decide_eq_true hne, newline_not_mem_squeeze⟩
  rcases eq_or_ne lines [] with rfl | hsome
  · rfl
  · rw [normalizeCallText_eq, List.splitOn_intercalate '\n' (fun line hmem => (hline line hmem).2.2) hsome,
      List.map_congr_left fun line hmem => (hline line hmem).1, List.map_id',
      List.filter_eq_self.mpr fun line hmem => decide_eq_true (hline line hmem).2.1]

/-! ## Printed values end by themselves -/

theorem canonicalItems_eq : canonicalItems env normalize xs = xs.map (canonicalJson env normalize) := by
  induction xs with
  | nil => rfl
  | cons x xs ih => rw [canonicalItems, ih, List.map_cons]

theorem canonicalMembers_eq : canonicalMembers env normalize kvs =
    kvs.map fun kv => (kv.1, canonicalJson env (normalize && !isArtifactField kv.1) kv.2) := by
  induction kvs with
  | nil => rfl
  | cons kv kvs ih => rw [canonicalMembers, ih, List.map_cons]

/-- What a value starts with tells its kind. -/
inductive Kind where
  | null
  | bool (b : Bool)
  | num
  | str
  | arr
  | obj
deriving DecidableEq

def kindOf : Json → Kind
  | .null => .null
  | .bool b => .bool b
  | .num _ => .num
  | .str _ => .str
  | .arr _ => .arr
  | .obj _ => .obj

theorem kind_of_same (h : sameInput normalize x y = true) : kindOf x = kindOf y := by
  cases x with
  | bool a =>
    cases y with
    | bool b => exact congrArg Kind.bool (of_decide_eq_true h)
    | _ => cases h
  | _ =>
    cases y <;> first
      | rfl
      | cases h

def kindOfHead (c : Char) : Kind :=
  if c = 'n' then .null
  else if c = 't' then .bool true
  else if c = 'f' then .bool false
  else if c = '"' then .str
  else if c = '[' then .arr
  else if c = '\x7b' then .obj
  else .num

/-- What stands behind a value in a list, in an object, or at the end of them. -/
def stopsValue (c : Char) : Bool := c = ',' || c = ']' || c = '\x7d'

theorem canonical_head (h : env.Prints) :
    ∃ c, (canonicalJson env normalize x).head? = some c ∧ kindOfHead c = kindOf x ∧ stopsValue c = false := by
  cases x with
  | null => exact ⟨'n', rfl, rfl, rfl⟩
  | bool b =>
    cases b with
    | false => exact ⟨'f', rfl, rfl, rfl⟩
    | true => exact ⟨'t', rfl, rfl, rfl⟩
  | num n =>
    obtain ⟨c, rest, hnum⟩ := List.exists_cons_of_ne_nil (h.number_ne_nil n)
    refine ⟨c, congrArg List.head? hnum, ?_⟩
    rcases h.number_chars n c (hnum ▸ List.mem_cons_self) with hdigit | hsign
    · have hne {d : Char} (hd : d.isDigit = false) : c ≠ d := fun hc => by rw [hc, hd] at hdigit; cases hdigit
      simp [kindOfHead, kindOf, stopsValue, hne]
    · simp only [List.mem_cons, List.not_mem_nil, or_false] at hsign
      rcases hsign with rfl | rfl | rfl | rfl | rfl <;> exact ⟨rfl, rfl⟩
  | str s => exact ⟨'"', h.quote_head _, rfl, rfl⟩
  | arr xs => exact ⟨'[', rfl, rfl, rfl⟩
  | obj kvs => exact ⟨'\x7b', rfl, rfl, rfl⟩

/-- A member, as it is printed. -/
def printMember (env : RepeatEnv) (member : String × Text) : Text :=
  env.quote member.1.toList ++ ':' :: member.2

theorem canonicalJson_arr : canonicalJson env normalize (.arr xs) =
    '[' :: [','].intercalate (xs.map (canonicalJson env normalize)) ++ [']'] := by
  rw [canonicalJson, canonicalItems_eq]

/-- The members of an object, sorted by their keys. -/
def sortedMembers (env : RepeatEnv) (normalize : Bool) (kvs : List (String × Json)) : List (String × Text) :=
  (canonicalMembers env normalize kvs).insertionSort fun a b => a.1 ≤ b.1

theorem canonicalJson_obj : canonicalJson env normalize (.obj kvs) =
    '\x7b' :: [','].intercalate ((sortedMembers env normalize kvs).map (printMember env)) ++ ['\x7d'] := by
  rw [canonicalJson]
  rfl

theorem mem_sortedMembers {member : String × Text} : member ∈ sortedMembers env normalize kvs ↔
    ∃ kv ∈ kvs, (kv.1, canonicalJson env (normalize && !isArtifactField kv.1) kv.2) = member := by
  rw [sortedMembers, List.mem_insertionSort, canonicalMembers_eq, List.mem_map]

theorem cancel_of_kind {normalize' : Bool} (h : env.Prints) (hne : kindOf x ≠ kindOf y) :
    Cancels stopsValue (canonicalJson env normalize x) (canonicalJson env normalize' y) := by
  obtain ⟨a, ha, hkind, -⟩ := @canonical_head _ normalize x h
  obtain ⟨b, hb, hkind', -⟩ := @canonical_head _ normalize' y h
  refine cancels_of_head ha hb fun hab => hne ?_
  rw [← hkind, hab, hkind']

theorem canonical_start (h : env.Prints) {close : Char} (hclose : stopsValue close = true) :
    canonicalJson env normalize x ≠ [] ∧ (canonicalJson env normalize x).head? ≠ some close := by
  obtain ⟨c, hc, -, hstop⟩ := @canonical_head _ normalize x h
  refine ⟨fun hnil => ?_, fun hhead => ?_⟩
  · rw [hnil] at hc
    cases hc
  · rw [Option.some.inj (hc.symm.trans hhead), hclose] at hstop
    cases hstop

theorem member_start (h : env.Prints) {member : String × Text} :
    printMember env member ≠ [] ∧ (printMember env member).head? ≠ some '\x7d' := by
  have hhead : (printMember env member).head? = some '"' := by
    rw [printMember, List.head?_append, h.quote_head]
    rfl
  refine ⟨fun hnil => ?_, fun hclose => ?_⟩
  · rw [hnil] at hhead
    cases hhead
  · exact absurd (Option.some.inj (hhead.symm.trans hclose)) (by decide)

theorem member_cancel (h : env.Prints) {member member' : String × Text}
    (hvalue : Cancels stopsValue member.2 member'.2) :
    Cancels stopsValue (printMember env member) (printMember env member') := by
  intro r r' hr hr' heq
  rw [printMember, printMember, List.append_assoc, List.append_assoc] at heq
  obtain ⟨hkey, hrest⟩ := h.quote_cancel _ _ _ _ heq
  obtain ⟨htext, rfl⟩ := hvalue _ _ hr hr' (List.cons.inj hrest).2
  rw [printMember, printMember, hkey, htext]
  exact ⟨rfl, rfl⟩

theorem arr_cancel (h : env.Prints) {normalize' : Bool} {r r' : Text}
    (hitems : ∀ x ∈ xs, ∀ y, Cancels stopsValue (canonicalJson env normalize x) (canonicalJson env normalize' y))
    (heq : canonicalJson env normalize (.arr xs) ++ r = canonicalJson env normalize' (.arr ys) ++ r') :
    xs.map (canonicalJson env normalize) = ys.map (canonicalJson env normalize') ∧ r = r' := by
  rw [canonicalJson_arr, canonicalJson_arr] at heq
  simp only [List.cons_append, List.append_assoc, List.nil_append, List.cons.injEq, true_and] at heq
  refine @items_cancel stopsValue _ _ _ _ _ rfl rfl (by decide) ?_ ?_ heq
  · intro s hs
    rcases List.mem_append.mp hs with hs | hs
    all_goals
      obtain ⟨x, -, rfl⟩ := List.mem_map.mp hs
      exact canonical_start h rfl
  · intro s hs t ht
    obtain ⟨x, hx, rfl⟩ := List.mem_map.mp hs
    obtain ⟨y, -, rfl⟩ := List.mem_map.mp ht
    exact hitems x hx y

theorem printMember_injective (h : env.Prints) : Function.Injective (printMember env) := by
  intro member member' heq
  obtain ⟨hkey, hrest⟩ := h.quote_cancel _ _ _ _ heq
  exact Prod.ext (String.toList_injective hkey) (List.cons.inj hrest).2

theorem obj_cancel (h : env.Prints) {normalize' : Bool} {r r' : Text}
    (hmembers : ∀ kv ∈ kvs, ∀ n n' y, Cancels stopsValue (canonicalJson env n kv.2) (canonicalJson env n' y))
    (heq : canonicalJson env normalize (.obj kvs) ++ r = canonicalJson env normalize' (.obj kvs') ++ r') :
    sortedMembers env normalize kvs = sortedMembers env normalize' kvs' ∧ r = r' := by
  rw [canonicalJson_obj, canonicalJson_obj] at heq
  simp only [List.cons_append, List.append_assoc, List.nil_append, List.cons.injEq, true_and] at heq
  refine (@items_cancel stopsValue _ _ _ _ _ rfl rfl (by decide) ?_ ?_ heq).imp_left fun hsame =>
    List.map_injective_iff.mpr (printMember_injective h) hsame
  · intro s hs
    rcases List.mem_append.mp hs with hs | hs
    all_goals
      obtain ⟨member, -, rfl⟩ := List.mem_map.mp hs
      exact member_start h
  · intro s hs t ht
    obtain ⟨member, hmember, rfl⟩ := List.mem_map.mp hs
    obtain ⟨member', hmember', rfl⟩ := List.mem_map.mp ht
    obtain ⟨kv, hkv, rfl⟩ := mem_sortedMembers.mp hmember
    obtain ⟨kv', -, rfl⟩ := mem_sortedMembers.mp hmember'
    exact member_cancel h (hmembers kv hkv _ _ _)

/-- What is printed is read off, whatever follows it and however blanks count. -/
theorem canonical_cancel (h : env.Prints) : ∀ n n' y,
    Cancels stopsValue (canonicalJson env n x) (canonicalJson env n' y) := by
  induction x using Json.induct with
  | null =>
    intro n n' y
    cases y with
    | null => exact cancels_refl
    | _ => exact cancel_of_kind h (by rintro ⟨⟩)
  | bool b =>
    intro n n' y
    cases y with
    | bool b' =>
      by_cases hb : b = b'
      · exact hb ▸ cancels_refl
      · exact cancel_of_kind h fun hkind => hb (Kind.bool.inj hkind)
    | _ => exact cancel_of_kind h (by rintro ⟨⟩)
  | num a =>
    intro n n' y
    cases y with
    | num b =>
      have hstop (c : Char) (hc : stopsValue c = true) :
          decide (c.isDigit = true ∨ c ∈ ['-', '+', '.', 'e', 'E']) = false := by
        simp only [stopsValue, Bool.or_eq_true, decide_eq_true_eq] at hc
        rcases hc with (rfl | rfl) | rfl <;> rfl
      exact cancels_of_all (fun c hc => decide_eq_true (h.number_chars a c hc))
        (fun c hc => decide_eq_true (h.number_chars b c hc)) hstop
    | _ => exact cancel_of_kind h (by rintro ⟨⟩)
  | str s =>
    intro n n' y
    cases y with
    | str s' =>
      intro r r' _ _ heq
      obtain ⟨htext, hrest⟩ := h.quote_cancel _ _ _ _ heq
      exact ⟨congrArg env.quote htext, hrest⟩
    | _ => exact cancel_of_kind h (by rintro ⟨⟩)
  | arr xs ih =>
    intro n n' y
    cases y with
    | arr ys =>
      intro r r' _ _ heq
      refine (arr_cancel h (fun x hx y => ih x hx n n' y) heq).imp_left fun hitems => ?_
      rw [canonicalJson_arr, canonicalJson_arr, hitems]
    | _ => exact cancel_of_kind h (by rintro ⟨⟩)
  | obj kvs ih =>
    intro n n' y
    cases y with
    | obj kvs' =>
      intro r r' _ _ heq
      refine (obj_cancel h ih heq).imp_left fun hmembers => ?_
      rw [canonicalJson_obj, canonicalJson_obj, hmembers]
    | _ => exact cancel_of_kind h (by rintro ⟨⟩)

/-! ## Sorted members -/

theorem lookup_iff_mem {α : Type} {entries : List (String × α)} (h : (entries.map Prod.fst).Nodup) {key : String}
    {a : α} : entries.lookup key = some a ↔ (key, a) ∈ entries := by
  induction entries with
  | nil => simp
  | cons entry entries ih =>
    obtain ⟨hnot, hrest⟩ := List.nodup_cons.mp h
    rw [List.lookup_cons, List.mem_cons]
    by_cases hkey : key = entry.1
    · have hmem : (entry.1, a) ∉ entries := fun hmem => hnot (List.mem_map.mpr ⟨_, hmem, rfl⟩)
      simp [hkey, hmem, Prod.ext_iff, eq_comm]
    · rw [beq_false_of_ne hkey]
      simp [hkey, ih hrest, Prod.ext_iff]

theorem sort_eq_iff (h : (members.map Prod.fst).Nodup) :
    (members.insertionSort fun a b => a.1 ≤ b.1) = (members'.insertionSort fun a b => a.1 ≤ b.1) ↔
      members.Perm members' := by
  have hsorted (ms : List (String × Text)) := ms.perm_insertionSort fun a b => a.1 ≤ b.1
  constructor
  · exact fun heq => (hsorted members).symm.trans (heq ▸ hsorted members')
  · intro hperm
    refine List.Perm.eq_of_pairwise (fun a b ha hb hab hba => ?_) (List.pairwise_insertionSort _ _)
      (List.pairwise_insertionSort _ _) ((hsorted members).trans (hperm.trans (hsorted members').symm))
    have hb' := hperm.mem_iff.mpr ((hsorted members').mem_iff.mp hb)
    exact List.inj_on_of_nodup_map h ((hsorted members).mem_iff.mp ha) hb' (le_antisymm hab hba)

theorem keys_canonicalMembers : (canonicalMembers env normalize kvs).map Prod.fst = kvs.map Prod.fst := by
  rw [canonicalMembers_eq, List.map_map]
  rfl

theorem sortedMembers_eq_iff (h : (kvs.map Prod.fst).Nodup) (h' : (kvs'.map Prod.fst).Nodup)
    (ih : ∀ kv ∈ kvs, ∀ kv' ∈ kvs', ∀ n,
      canonicalJson env n kv.2 = canonicalJson env n kv'.2 ↔ sameInput n kv.2 kv'.2 = true) :
    sortedMembers env normalize kvs = sortedMembers env normalize kvs' ↔
      kvs.length = kvs'.length ∧ sameMembers normalize kvs kvs' = true := by
  have hkeys : ((canonicalMembers env normalize kvs).map Prod.fst).Nodup := keys_canonicalMembers ▸ h
  have hlen (kvs : List (String × Json)) : (canonicalMembers env normalize kvs).length = kvs.length := by
    rw [canonicalMembers_eq, List.length_map]
  have hcounterpart : ∀ kv ∈ kvs,
      (kv.1, canonicalJson env (normalize && !isArtifactField kv.1) kv.2) ∈ canonicalMembers env normalize kvs' ↔
        ∃ y, kvs'.lookup kv.1 = some y ∧ sameInput (normalize && !isArtifactField kv.1) kv.2 y = true := by
    intro kv hkv
    rw [canonicalMembers_eq, List.mem_map]
    constructor
    · rintro ⟨⟨key, y⟩, hy, heq⟩
      obtain ⟨rfl, htext⟩ := Prod.mk.inj heq
      exact ⟨y, (lookup_iff_mem h').mpr hy, (ih kv hkv _ hy _).mp htext.symm⟩
    · rintro ⟨y, hy, hsame⟩
      have hmem := (lookup_iff_mem h').mp hy
      exact ⟨_, hmem, Prod.ext rfl ((ih kv hkv _ hmem _).mpr hsame).symm⟩
  have hsub : canonicalMembers env normalize kvs ⊆ canonicalMembers env normalize kvs' ↔
      sameMembers normalize kvs kvs' = true := by
    rw [sameMembers_iff, canonicalMembers_eq]
    exact List.forall_mem_map.trans (forall₂_congr hcounterpart)
  rw [sortedMembers, sortedMembers, sort_eq_iff hkeys, ← hsub, ← hlen kvs, ← hlen kvs']
  constructor
  · exact fun hperm => ⟨hperm.length_eq, hperm.subset⟩
  · exact fun hboth => (List.subperm_of_subset hkeys.of_map hboth.2).perm_of_length_le hboth.1.ge

/-! ## Equal texts -/

theorem ne_of_kind (h : env.Prints) (hne : kindOf x ≠ kindOf y) :
    canonicalJson env normalize x ≠ canonicalJson env normalize y := by
  intro heq
  obtain ⟨a, ha, hkind, -⟩ := @canonical_head _ normalize x h
  obtain ⟨b, hb, hkind', -⟩ := @canonical_head _ normalize y h
  rw [heq, hb] at ha
  rw [← hkind, ← hkind', Option.some.inj ha] at hne
  exact hne rfl

theorem iff_of_kind (h : env.Prints) (hne : kindOf x ≠ kindOf y) :
    canonicalJson env normalize x = canonicalJson env normalize y ↔ sameInput normalize x y = true :=
  iff_of_false (ne_of_kind h hne) fun hsame => hne (kind_of_same hsame)

theorem items_iff (ih : ∀ x ∈ xs, ∀ y ∈ ys,
      canonicalJson env normalize x = canonicalJson env normalize y ↔ sameInput normalize x y = true) :
    xs.map (canonicalJson env normalize) = ys.map (canonicalJson env normalize) ↔ sameItems normalize xs ys = true := by
  induction xs generalizing ys with
  | nil =>
    cases ys with
    | nil => exact iff_of_true rfl rfl
    | cons y ys => exact iff_of_false (by rintro ⟨⟩) (by rintro ⟨⟩)
  | cons x xs ihs =>
    cases ys with
    | nil => exact iff_of_false (by rintro ⟨⟩) (by rintro ⟨⟩)
    | cons y ys =>
      rw [List.map_cons, List.map_cons, List.cons.injEq, sameItems_cons, Bool.and_eq_true,
        ih x List.mem_cons_self y List.mem_cons_self,
        ihs fun x hx y hy => ih x (List.mem_cons_of_mem _ hx) y (List.mem_cons_of_mem _ hy)]

/-- Two values have one text exactly where they are the same input. -/
theorem canonical_iff (h : env.Prints) (hx : DistinctKeys x) : ∀ n y, DistinctKeys y →
    (canonicalJson env n x = canonicalJson env n y ↔ sameInput n x y = true) := by
  induction x using Json.induct with
  | null =>
    intro n y _
    cases y with
    | null => exact iff_of_true rfl rfl
    | _ => exact iff_of_kind h (by rintro ⟨⟩)
  | bool b =>
    intro n y _
    cases y with
    | bool b' =>
      by_cases hb : b = b'
      · subst hb
        exact iff_of_true rfl (decide_eq_true rfl)
      · exact iff_of_kind h fun hkind => hb (Kind.bool.inj hkind)
    | _ => exact iff_of_kind h (by rintro ⟨⟩)
  | num a =>
    intro n y _
    cases y with
    | num b => exact h.number_inj.eq_iff.trans decide_eq_true_iff.symm
    | _ => exact iff_of_kind h (by rintro ⟨⟩)
  | str s =>
    intro n y _
    cases y with
    | str s' =>
      have hquote {t t' : Text} : env.quote t = env.quote t' ↔ t = t' :=
        ⟨fun heq => (h.quote_cancel _ _ [] [] (congrArg (· ++ []) heq)).1, congrArg _⟩
      rw [sameInput_str]
      cases n with
      | false => exact hquote.trans (String.toList_inj.trans decide_eq_true_iff.symm)
      | true => exact hquote.trans decide_eq_true_iff.symm
    | _ => exact iff_of_kind h (by rintro ⟨⟩)
  | arr xs ih =>
    intro n y hy
    cases y with
    | arr ys =>
      rw [sameInput_arr, ← items_iff fun x hxs y hys => ih x hxs (hx.items x hxs) n y (hy.items y hys)]
      constructor
      · intro heq
        exact (arr_cancel h (fun x _ y => canonical_cancel h n n y) (congrArg (· ++ []) heq)).1
      · intro hitems
        rw [canonicalJson_arr, canonicalJson_arr, hitems]
    | _ => exact iff_of_kind h (by rintro ⟨⟩)
  | obj kvs ih =>
    intro n y hy
    cases y with
    | obj kvs' =>
      rw [sameInput_obj, Bool.and_eq_true, decide_eq_true_eq, ← sortedMembers_eq_iff hx.keys hy.keys
        fun kv hkv kv' hkv' n => ih kv hkv (hx.values kv hkv) n kv'.2 (hy.values kv' hkv')]
      constructor
      · intro heq
        exact (obj_cancel h (fun kv _ n n' y => canonical_cancel h n n' y) (congrArg (· ++ []) heq)).1
      · intro hmembers
        rw [canonicalJson_obj, canonicalJson_obj, hmembers]
    | _ => exact iff_of_kind h (by rintro ⟨⟩)

/-! ## Texts under an artifact field -/

theorem keys_perm (hkeys : (kvs.map Prod.fst).Nodup) (hkeys' : (kvs'.map Prod.fst).Nodup)
    (hlen : kvs.length = kvs'.length) (hsame : sameMembers normalize kvs kvs' = true) :
    (kvs.map Prod.fst).Perm (kvs'.map Prod.fst) := by
  have hsub : kvs.map Prod.fst ⊆ kvs'.map Prod.fst := by
    intro key hkey
    obtain ⟨kv, hkv, rfl⟩ := List.mem_map.mp hkey
    obtain ⟨y, hy, -⟩ := sameMembers_iff.mp hsame kv hkv
    exact List.mem_map.mpr ⟨_, (lookup_iff_mem hkeys').mp hy, rfl⟩
  refine (List.subperm_of_subset hkeys hsub).perm_of_length_le ?_
  rw [List.length_map, List.length_map, hlen]

/-- The same input behind a step, or nothing. -/
def SameBehind (normalize : Bool) : Option Json → Option Json → Prop :=
  Option.Rel fun x y => DistinctKeys x ∧ DistinctKeys y ∧ sameInput normalize x y = true

theorem lookup_same {key : String} (hx : DistinctKeys (.obj kvs)) (hy : DistinctKeys (.obj kvs'))
    (h : sameInput normalize (.obj kvs) (.obj kvs') = true) :
    SameBehind (normalize && !isArtifactField key) (kvs.lookup key) (kvs'.lookup key) := by
  rw [sameInput_obj, Bool.and_eq_true, decide_eq_true_eq] at h
  rcases hlookup : kvs.lookup key with _ | x
  · have hnot : key ∉ kvs'.map Prod.fst := by
      rw [← (keys_perm hx.keys hy.keys h.1 h.2).mem_iff]
      intro hkey
      obtain ⟨kv, hkv, rfl⟩ := List.mem_map.mp hkey
      cases hlookup.symm.trans ((lookup_iff_mem hx.keys).mpr hkv)
    rcases hlookup' : kvs'.lookup key with _ | y
    · exact .none
    · exact absurd (List.mem_map.mpr ⟨_, (lookup_iff_mem hy.keys).mp hlookup', rfl⟩) hnot
  · have hmem := (lookup_iff_mem hx.keys).mp hlookup
    obtain ⟨y, hlookup', hsame⟩ := sameMembers_iff.mp h.2 _ hmem
    rw [hlookup']
    exact .some ⟨hx.values _ hmem, hy.values _ ((lookup_iff_mem hy.keys).mp hlookup'), hsame⟩

theorem item_same {i : Nat} (hx : DistinctKeys (.arr xs)) (hy : DistinctKeys (.arr ys))
    (h : sameInput normalize (.arr xs) (.arr ys) = true) : SameBehind normalize xs[i]? ys[i]? := by
  rw [sameInput_arr, sameItems_iff, List.forall₂_iff_get] at h
  by_cases hi : i < xs.length
  · rw [List.getElem?_eq_getElem hi, List.getElem?_eq_getElem (h.1 ▸ hi)]
    exact .some ⟨hx.items _ (List.getElem_mem hi), hy.items _ (List.getElem_mem _), h.2 i hi (h.1 ▸ hi)⟩
  · rw [List.getElem?_eq_none (by omega), List.getElem?_eq_none (by omega)]
    exact .none

theorem into_same (step : JsonStep) (hx : DistinctKeys x) (hy : DistinctKeys y) (h : sameInput normalize x y = true) :
    SameBehind (normalize && !step.isArtifact) (step.into x) (step.into y) := by
  cases step with
  | member key =>
    cases x with
    | obj kvs =>
      cases y with
      | obj kvs' => exact lookup_same hx hy h
      | _ => cases kind_of_same h
    | _ =>
      cases y with
      | obj kvs' => cases kind_of_same h
      | _ => exact .none
  | item i =>
    cases x with
    | arr xs =>
      cases y with
      | arr ys =>
        rw [JsonStep.isArtifact, Bool.not_false, Bool.and_true]
        exact item_same hx hy h
      | _ => cases kind_of_same h
    | _ =>
      cases y with
      | arr ys => cases kind_of_same h
      | _ => exact .none

theorem asStr_same (h : sameInput false x y = true) : x.asStr = y.asStr := by
  cases x with
  | str a =>
    cases y with
    | str b => exact congrArg some (of_decide_eq_true h)
    | _ => cases kind_of_same h
  | _ =>
    cases y with
    | str b => cases kind_of_same h
    | _ => rfl

/-- No blank of a text under an artifact field is dropped. -/
theorem stringAt_same {path : List JsonStep} (hx : DistinctKeys x) (hy : DistinctKeys y)
    (h : sameInput normalize x y = true) (hpath : (normalize && !path.any JsonStep.isArtifact) = false) :
    stringAt path x = stringAt path y := by
  induction path generalizing x y normalize with
  | nil =>
    rw [List.any_nil, Bool.not_false, Bool.and_true] at hpath
    exact asStr_same (hpath ▸ h)
  | cons step path ih =>
    rw [List.any_cons, Bool.not_or, ← Bool.and_assoc] at hpath
    rw [stringAt, stringAt]
    have hbehind := into_same step hx hy h
    generalize step.into x = x' at hbehind ⊢
    generalize step.into y = y' at hbehind ⊢
    cases hbehind with
    | some hsame => exact ih hsame.1 hsame.2.1 hsame.2.2 hpath
    | none => rfl

theorem name_inj {name name' r r' : Text} {c : Char} (h : c ∉ name) (h' : c ∉ name')
    (heq : name ++ c :: r = name' ++ c :: r') : name = name' ∧ r = r' := by
  have hsplit := congrArg (List.splitOn c) heq
  rw [List.splitOn_append_cons_self_of_not_mem h, List.splitOn_append_cons_self_of_not_mem h'] at hsplit
  obtain ⟨rfl, -⟩ := List.cons.inj hsplit
  exact ⟨rfl, (List.cons.inj (List.append_cancel_left heq)).2⟩

/-- Calls share a key exactly where they are the same call; a text under an artifact field is never respelled. -/
theorem repeat_key_iff (h : env.Prints) {name name' : Text} (hname : Char.ofNat 0x1f ∉ name)
    (hname' : Char.ofNat 0x1f ∉ name') (hx : DistinctKeys x) (hy : DistinctKeys y) :
    (repeatCallKey env name x = repeatCallKey env name' y ↔ name = name' ∧ sameInput true x y = true) ∧
      (∀ path : List JsonStep, path.any JsonStep.isArtifact = true → stringAt path x ≠ stringAt path y →
        repeatCallKey env name x ≠ repeatCallKey env name' y) ∧
      ∀ text, normalizeCallText (normalizeCallText text) = normalizeCallText text := by
  have hiff : repeatCallKey env name x = repeatCallKey env name' y ↔ name = name' ∧ sameInput true x y = true := by
    rw [← canonical_iff h hx true y hy]
    constructor
    · exact name_inj hname hname'
    · rintro ⟨rfl, htext⟩
      rw [repeatCallKey, htext, repeatCallKey]
  refine ⟨hiff, fun path hpath hne heq => hne ?_, fun text => normalize_normalize⟩
  exact stringAt_same hx hy (hiff.mp heq).2 (by rw [hpath]; rfl)

/-- A number with a sign and what follows its digits. -/
def signed (negative : Bool) (magnitude : Nat) (rest : Text) : Text :=
  (if negative then ['-'] else []) ++ Nat.toDigits 10 magnitude ++ rest

/-- Integers as they are, and the whole doubles that the zeros are the first of. -/
def decimalNumber : JsonNumber → Text
  | .int n => signed (n < 0) n.natAbs []
  | .float bits => signed (2 ^ 63 ≤ bits.toNat) (bits.toNat % 2 ^ 63) ['.', '0']

def decimalEnv : RepeatEnv where
  quote := quoted '"'
  showNumber := decimalNumber
  resultContentHash := fun _ => 0

theorem signed_inj {negative negative' : Bool} {m m' : Nat} {rest rest' : Text} (hrest : rest = [] ∨ rest = ['.', '0'])
    (hrest' : rest' = [] ∨ rest' = ['.', '0']) (h : signed negative m rest = signed negative' m' rest') :
    negative = negative' ∧ m = m' ∧ rest = rest' := by
  have hstopped {t : Text} (ht : t = [] ∨ t = ['.', '0']) : Stopped (fun c => !c.isDigit) t := by
    rcases ht with rfl | rfl
    · exact stopped_nil
    · exact stopped_cons rfl
  have hdigits (h : Nat.toDigits 10 m ++ rest = Nat.toDigits 10 m' ++ rest') : m = m' ∧ rest = rest' := by
    refine (cancels_of_all (fun _ => isDigit_toDigits) (fun _ => isDigit_toDigits) (by simp) _ _ (hstopped hrest)
      (hstopped hrest') h).imp_left fun heq => ?_
    rw [← @Nat.ofDigitChars_ten_toDigits m, heq, Nat.ofDigitChars_ten_toDigits]
  have hsign (m : Nat) (rest t : Text) : '-' :: t ≠ Nat.toDigits 10 m ++ rest := by
    intro heq
    obtain ⟨c, digits, hm⟩ := List.exists_cons_of_ne_nil (List.ne_nil_of_length_pos (@Nat.length_toDigits_pos 10 m))
    rw [hm] at heq
    exact absurd (isDigit_toDigits (hm ▸ List.mem_cons_self : c ∈ Nat.toDigits 10 m))
      ((List.cons.inj heq).1 ▸ by decide)
  cases negative <;> cases negative'
  · exact ⟨rfl, hdigits h⟩
  · exact absurd h.symm (hsign _ _ _)
  · exact absurd h (hsign _ _ _)
  · exact ⟨rfl, hdigits (List.cons.inj h).2⟩

theorem decimalNumber_injective : Function.Injective decimalNumber := by
  intro a b h
  cases a with
  | int n =>
    cases b with
    | int m =>
      obtain ⟨hsign, habs, -⟩ := signed_inj (.inl rfl) (.inl rfl) h
      rw [decide_eq_decide] at hsign
      exact congrArg JsonNumber.int (by omega)
    | float bits => cases (signed_inj (.inl rfl) (.inr rfl) h).2.2
  | float bits =>
    cases b with
    | int m => cases (signed_inj (.inr rfl) (.inl rfl) h).2.2
    | float bits' =>
      obtain ⟨hsign, hmod, -⟩ := signed_inj (.inr rfl) (.inr rfl) h
      rw [decide_eq_decide] at hsign
      have hlt := bits.isLt
      have hlt' := bits'.isLt
      exact congrArg JsonNumber.float (BitVec.eq_of_toNat_eq (by omega))

theorem decimalEnv_prints : decimalEnv.Prints where
  quote_head _ := rfl
  quote_cancel _ _ _ _ := quoted_cancel
  number_ne_nil n := by
    have hpos (m : Nat) : Nat.toDigits 10 m ≠ [] := List.ne_nil_of_length_pos Nat.length_toDigits_pos
    cases n <;> simp [decimalEnv, decimalNumber, signed, hpos]
  number_chars n c hc := by
    have hsigned {negative : Bool} {m : Nat} {rest : Text} (hrest : rest = [] ∨ rest = ['.', '0'])
        (hc : c ∈ signed negative m rest) : c.isDigit = true ∨ c ∈ ['-', '+', '.', 'e', 'E'] := by
      rcases List.mem_append.mp hc with hc | hc
      · rcases List.mem_append.mp hc with hc | hc
        · cases negative with
          | true => exact .inr (List.mem_singleton.mp hc ▸ List.mem_cons_self)
          | false => cases hc
        · exact .inl (isDigit_toDigits hc)
      · rcases hrest with rfl | rfl
        · cases hc
        · rcases List.mem_pair.mp hc with rfl | rfl
          · exact .inr (by decide)
          · exact .inl rfl
    cases n with
    | int n => exact hsigned (.inl rfl) hc
    | float bits => exact hsigned (.inr rfl) hc
  number_inj := decimalNumber_injective

/-- A respelled command, with its members the other way round. -/
theorem repeat_key_respelled :
    repeatCallKey decimalEnv "exec".toList (.obj [("command", .str "ls   -la "), ("content", .str "a  b")]) =
      repeatCallKey decimalEnv "exec".toList (.obj [("content", .str "a  b"), ("command", .str "ls -la")]) := by
  have hdistinct (s t : String) {k l : String} (hkl : k ≠ l) : DistinctKeys (.obj [(k, .str s), (l, .str t)]) :=
    .obj (by simpa using hkl) (by simpa using ⟨.str s, .str t⟩)
  exact (repeat_key_iff decimalEnv_prints (by decide) (by decide) (hdistinct _ _ (by decide))
    (hdistinct _ _ (by decide))).1.mpr ⟨rfl, by decide⟩

/-- The two zeros are one value and have two keys. -/
theorem zeros_apart :
    Json.same (.obj [("offset", .num (.float 0))]) (.obj [("offset", .num (.float (1 <<< 63)))]) = true ∧
      repeatCallKey decimalEnv "seek".toList (.obj [("offset", .num (.float 0))]) ≠
        repeatCallKey decimalEnv "seek".toList (.obj [("offset", .num (.float (1 <<< 63)))]) := by
  decide

end Nanna.Loop
