import Mathlib.Data.List.Chain
import Nanna.Scripting.Resolve

/-!
# A prohibition and the spellings of a file

`prohibition_iff`: for two spellings of one file, every declared `read_only` invariant refuses both
or neither, whichever tool is asked, exactly when the keys of the two are the same but for which
wildcard characters stand in them. The keys look neither at blanks around the path nor at `~`, at
`..`, at a `.` inside, at a repaired prefix: ` tests/a.py` is written under a prohibition of `tests`
(`prohibition_sidestepped`).

Two keys that differ otherwise are told apart by a glob made from one of them (`globFor`). The longer
key's glob matches no shorter key, so the whole keys agree; when they do, only one of two keys with
the workspace prefix taken off could differ from the other, and its glob matches nothing that starts
with a separator.
-/

namespace Nanna.Scripting

open Nanna.Lib Nanna.Lib.Wildcard

variable {lc : Lowercase} {workdir : Option Workdir} {wd : Workdir} {host : Host} {tool : FileTool}
  {fileExists : Bool} {p q s t : Text} {c : Char} {x : UInt16}

/-! ## Code units -/

theorem toNat_toUInt16 {n : Nat} (h : n < 65536) : n.toUInt16.toNat = n := Nat.mod_eq_of_lt h

theorem toNat_lt_of_char (c : Char) : c.toNat < 1114112 := by
  have hvalid := c.valid
  simp only [UInt32.isValidChar, Nat.isValidChar] at hvalid
  show c.val.toNat < 1114112
  omega

/-- A code unit below 128 stands for one character. -/
theorem toNat_of_mem_utf16 (h : x ∈ utf16 c) (hx : x.toNat < 128) : c.toNat = x.toNat := by
  have hmax := toNat_lt_of_char c
  unfold utf16 at h
  split at h
  · rename_i hc
    obtain rfl : x = c.toNat.toUInt16 := List.mem_singleton.mp h
    exact (toNat_toUInt16 hc).symm
  · rcases List.mem_cons.mp h with rfl | h
    · rw [toNat_toUInt16 (by omega)] at hx
      omega
    · obtain rfl := List.mem_singleton.mp h
      rw [toNat_toUInt16 (by omega)] at hx
      omega

theorem eq_star_of_mem (h : star ∈ utf16 c) : c = '*' :=
  Char.toNat_inj.mp (toNat_of_mem_utf16 h (by decide))

theorem eq_slash_of_mem (h : slash ∈ utf16 c) : c = '/' :=
  Char.toNat_inj.mp (toNat_of_mem_utf16 h (by decide))

theorem utf16_ne_nil (c : Char) : utf16 c ≠ [] := by
  unfold utf16
  split <;> exact List.cons_ne_nil _ _

@[simp] theorem units_nil : units [] = [] := rfl

@[simp] theorem units_append : units (s ++ t) = units s ++ units t := List.flatMap_append

theorem units_cons : units (c :: t) = utf16 c ++ units t := rfl

/-- A text that names its `*` by `?`. -/
def blurText (t : Text) : Text := t.map fun c => if c = '*' then '?' else c

theorem units_blurText : units (blurText t) = blur isWild question (units t) := by
  induction t with
  | nil => rfl
  | cons c t ih =>
    have hhead : utf16 (if c = '*' then '?' else c) = blur isWild question (utf16 c) := by
      by_cases hc : c = '*'
      · rw [if_pos hc, hc]
        decide
      · rw [if_neg hc]
        refine ((List.map_congr_left fun x hx => ?_).trans (List.map_id _)).symm
        split
        · rename_i hwild
          rcases Bool.or_eq_true_iff.mp hwild with hstar | hquestion
          · exact absurd (eq_star_of_mem (of_decide_eq_true hstar ▸ hx)) hc
          · exact (of_decide_eq_true hquestion).symm
        · rfl
    rw [blurText, List.map_cons, units_cons, units_cons, hhead]
    exact (congrArg (_ ++ ·) ih).trans List.map_append.symm

/-! ## Keys are clean -/

/-- A text that the normalization leaves alone, but for a `./` in front. -/
structure Clean (lc : Lowercase) (t : Text) : Prop where
  plain : ∀ c ∈ t, lc.Plain c
  backslash : '\\' ∉ t
  single : t.IsChain fun a b => ¬(a = '/' ∧ b = '/')

theorem dropDotSlash_suffix : ∀ t : Text, dropDotSlash t <:+ t
  | [] => List.suffix_rfl
  | [_] => by
    unfold dropDotSlash
    split
    · exact absurd ‹_› (by simp)
    · exact List.suffix_rfl
  | c :: d :: t => by
    unfold dropDotSlash
    split
    · rename_i h
      cases h
      exact (dropDotSlash_suffix t).trans ((List.suffix_cons _ _).trans (List.suffix_cons _ _))
    · exact List.suffix_rfl

theorem collapse_sublist : ∀ t : Text, (collapse t).Sublist t
  | [] => .slnil
  | c :: t => by
    rw [collapse]
    split
    · exact (collapse_sublist t).cons c
    · exact (collapse_sublist t).cons_cons c

theorem head?_collapse : ∀ t : Text, (collapse t).head? = t.head?
  | [] => rfl
  | c :: t => by
    rw [collapse]
    split
    · rename_i h
      rw [head?_collapse t, h.2, h.1]
      rfl
    · rfl

theorem collapse_single : ∀ t : Text, (collapse t).IsChain fun a b => ¬(a = '/' ∧ b = '/')
  | [] => .nil
  | c :: t => by
    rw [collapse]
    split
    · exact collapse_single t
    · rename_i h
      refine List.isChain_cons.mpr ⟨fun d hd hcd => h ⟨hcd.1, ?_⟩, collapse_single t⟩
      rw [head?_collapse] at hd
      rw [← hcd.2]
      exact hd

theorem collapse_of_single : ∀ {t : Text}, (t.IsChain fun a b => ¬(a = '/' ∧ b = '/')) →
    collapse t = t
  | [], _ => rfl
  | c :: t, h => by
    obtain ⟨hhead, htail⟩ := List.isChain_cons.mp h
    rw [collapse, if_neg fun hc => hhead '/' hc.2 ⟨hc.1, rfl⟩, collapse_of_single htail]

theorem clean_normKey : Clean lc (hiwaterNormKey lc p) := by
  have hsub : ∀ c ∈ hiwaterNormKey lc p, c ∈ lc.lower (toSlashes p) := fun c hc =>
    (dropDotSlash_suffix _).subset ((collapse_sublist _).subset hc)
  refine ⟨fun c hc => lc.plain_of_mem (hsub c hc), fun hback => ?_, collapse_single _⟩
  have hmem := lc.backslash_of_mem (hsub _ hback)
  obtain ⟨c, -, hc⟩ := List.mem_map.mp hmem
  split at hc
  · cases hc
  · rename_i hne
    exact hne hc

theorem Clean.suffix (h : Clean lc t) (hs : s <:+ t) : Clean lc s where
  plain c hc := h.plain c (hs.subset hc)
  backslash hc := h.backslash (hs.subset hc)
  single := h.single.suffix hs

theorem normKey_of_clean (h : Clean lc t) (hhead : t.head? ≠ some '.') : hiwaterNormKey lc t = t := by
  have hslashes : toSlashes t = t := by
    refine (List.map_congr_left fun c hc => ?_).trans (List.map_id _)
    exact if_neg fun hback : c = '\\' => h.backslash (hback ▸ hc)
  have hdot : dropDotSlash t = t := by
    unfold dropDotSlash
    split
    · exact absurd rfl hhead
    · rfl
  rw [hiwaterNormKey, hslashes, lc.lower_of_plain h.plain, hdot, collapse_of_single h.single]

/-- The key of an absolute path starts with a separator. -/
theorem head?_normKey (h : p.head? = some '/') : (hiwaterNormKey lc p).head? = some '/' := by
  cases p with
  | nil => cases h
  | cons c p =>
    obtain rfl : c = '/' := Option.some.inj h
    have hslashes : toSlashes ('/' :: p) = '/' :: toSlashes p := rfl
    rw [hiwaterNormKey, hslashes, lc.lower_slash, head?_collapse]
    rfl

theorem head?_workdirPrefix : (workdirPrefix lc wd).head? = some '/' := by
  have hhead : (hiwaterNormKey lc wd.path).head? = some '/' := head?_normKey wd.absolute
  unfold workdirPrefix
  dsimp only
  split
  · exact hhead
  · rw [List.head?_append, hhead]
    rfl

theorem getLast?_workdirPrefix : (workdirPrefix lc wd).getLast? = some '/' := by
  unfold workdirPrefix
  dsimp only
  split
  · assumption
  · exact List.getLast?_concat

/-! ## A glob for a key -/

/-- A glob that the key matches, and no shorter key. -/
def globFor (s : Text) : Text := '*' :: (blurText s ++ ['*', '*'])

theorem clean_globFor (h : Clean lc s) : Clean lc (globFor s) := by
  have hmem : ∀ c ∈ globFor s, c ∈ s ∨ c = '*' ∨ c = '?' := by
    intro c hc
    rcases List.mem_cons.mp hc with rfl | hc
    · exact .inr (.inl rfl)
    · rcases List.mem_append.mp hc with hc | hc
      · obtain ⟨d, hd, rfl⟩ := List.mem_map.mp hc
        split
        · exact .inr (.inr rfl)
        · exact .inl hd
      · simp only [List.mem_cons, List.not_mem_nil, or_false, or_self] at hc
        exact .inr (.inl hc)
  refine ⟨fun c hc => ?_, fun hback => ?_, ?_⟩
  · rcases hmem c hc with hc | rfl | rfl
    · exact h.plain c hc
    · exact lc.plain_wildcard.1
    · exact lc.plain_wildcard.2
  · rcases hmem _ hback with hc | hc | hc
    · exact h.backslash hc
    · cases hc
    · cases hc
  · have hblur : (blurText s).IsChain fun a b => ¬(a = '/' ∧ b = '/') := by
      refine (List.isChain_map _).mpr (h.single.imp fun a b hab hblur => hab ?_)
      have hslash : ∀ c : Char, (if c = '*' then '?' else c) = '/' → c = '/' := fun c hc => by
        split at hc
        · cases hc
        · exact hc
      exact ⟨hslash a hblur.1, hslash b hblur.2⟩
    refine List.isChain_cons.mpr ⟨fun _ _ hab => absurd hab.1 (by decide), ?_⟩
    refine List.isChain_append.mpr ⟨hblur, by decide, fun _ _ b hb hab => ?_⟩
    obtain rfl : b = '*' := (Option.some.inj hb).symm
    exact absurd hab.2 (by decide)

theorem normKey_globFor (h : Clean lc s) : hiwaterNormKey lc (globFor s) = globFor s :=
  normKey_of_clean (clean_globFor h) (by simp [globFor])

theorem trimSlashes_globFor : trimSlashes (globFor s) = globFor s := by
  have hlast : (blurText s ++ ['*', '*']).rdropWhile (· = '/') = blurText s ++ ['*', '*'] := by
    rw [show blurText s ++ ['*', '*'] = (blurText s ++ ['*']) ++ ['*'] by simp,
      List.rdropWhile_concat_neg _ _ _ (by decide)]
  exact congrArg ('*' :: ·) hlast

/-- The registry keeps the glob as it is, and so does the lookup. -/
theorem key_globFor (h : Clean lc s) :
    trimSlashes (hiwaterKey lc workdir (normalizeInvariantGlob lc (globFor s))) = globFor s := by
  have hdeclared : normalizeInvariantGlob lc (globFor s) = globFor s := by
    rw [normalizeInvariantGlob, normKey_globFor h, trimSlashes_globFor]
  have hkey : hiwaterKey lc workdir (globFor s) = globFor s := by
    unfold hiwaterKey
    rw [normKey_globFor h]
    cases workdir with
    | none => rfl
    | some wd =>
      refine if_neg fun hprefix => ?_
      obtain ⟨t, ht⟩ := hprefix.1
      have hhead := congrArg List.head? ht
      rw [List.head?_append, head?_workdirPrefix] at hhead
      exact absurd hhead (by simp [globFor])
  rw [hdeclared, hkey, trimSlashes_globFor]

theorem units_globFor :
    units (globFor s) = star :: (blur isWild question (units s) ++ [star, star]) := by
  have hstar : utf16 '*' = [star] := by decide
  rw [globFor, units_cons, units_append, units_blurText, hstar]
  rfl

theorem blur_ne_star (x : UInt16) : (if isWild x then question else x) ≠ star := by
  split
  · decide
  · rename_i hwild
    rintro rfl
    exact hwild (by decide)

theorem compile_blur (u : List UInt16) :
    compile (blur isWild question u ++ [star, star]) = sealed isWild u ++ [.all] := by
  induction u with
  | nil => exact (compile_all []).trans (congrArg (Piece.all :: ·) compile_nil)
  | cons x u ih =>
    have hpiece : piece (if isWild x then question else x) = if isWild x then .one else .lit x := by
      split
      · decide
      · rename_i hwild
        have hne : x ≠ star ∧ x ≠ question := by
          constructor
          · rintro rfl
            exact hwild (by decide)
          · rintro rfl
            exact hwild (by decide)
        rw [piece, if_neg hne.1, if_neg hne.2]
    exact (compile_cons fun h => blur_ne_star x h.1).trans (congrArg₂ List.cons hpiece ih)

theorem compile_globFor {u : List UInt16} (hu : u ≠ []) :
    compile (star :: (blur isWild question u ++ [star, star])) = padded isWild u := by
  cases u with
  | nil => exact absurd rfl hu
  | cons x u =>
    have hrest := compile_blur (x :: u)
    have hnot : ¬(star = star ∧
        (blur isWild question (x :: u) ++ [star, star]).head? = some star) := fun h =>
      blur_ne_star x (Option.some.inj h.2)
    exact (compile_cons hnot).trans (congrArg (Piece.many :: ·) hrest)

/-- What the glob of a key matches. -/
theorem invariantMatches_globFor (h : Clean lc s) (hs : s ≠ []) :
    invariantMatches lc workdir (normalizeInvariantGlob lc (globFor s)) p =
      (matchPieces slash (padded isWild (units s)) (units (hiwaterKey lc workdir p)) ||
        matchPieces slash (padded isWild (units s)) (units (hiwaterNormKey lc p))) := by
  have hunits : units s ≠ [] := by
    cases s with
    | nil => exact absurd rfl hs
    | cons c s => exact fun h => utf16_ne_nil c (List.append_eq_nil_iff.mp h).1
  rw [invariantMatches, key_globFor h, units_globFor, globMatches, if_neg (List.cons_ne_nil _ _),
    if_neg fun h => h.1 List.mem_cons_self, compile_globFor hunits]

/-! ## Matching sees a key only up to its wildcard characters -/

theorem named_piece {a : UInt16} (h : .lit a = piece x) : isWild a = false := by
  unfold piece at h
  split at h
  · cases h
  · split at h
    · cases h
    · rename_i hstar hquestion
      obtain rfl := Piece.lit.inj h
      simp [isWild, hstar, hquestion]

theorem named_compile (g : List UInt16) : Named isWild (compile g) := by
  induction g using compile.induct with
  | case1 =>
    rw [compile_nil]
    exact fun _ h => nomatch h
  | case2 x =>
    rw [compile]
    exact fun a h => named_piece (List.mem_singleton.mp h)
  | case3 x y t h ih =>
    rw [compile, if_pos h]
    intro a ha
    rcases List.mem_cons.mp ha with ha | ha
    · cases ha
    · exact ih a ha
  | case4 x y t h ih =>
    rw [compile, if_neg h]
    intro a ha
    rcases List.mem_cons.mp ha with ha | ha
    · exact named_piece ha
    · exact ih a ha

theorem isUnder_blur {g k : List UInt16} (hstar : star ∉ g) (hquestion : question ∉ g) :
    isUnder g (blur isWild question k) = isUnder g k := by
  have hg : ∀ a ∈ g, isWild a = false := fun a ha => by
    have hne : a ≠ star ∧ a ≠ question :=
      ⟨fun h => hstar (h ▸ ha), fun h => hquestion (h ▸ ha)⟩
    simp [isWild, hne]
  have hslash : ∀ a ∈ g ++ [slash], isWild a = false := fun a ha => by
    rcases List.mem_append.mp ha with ha | ha
    · exact hg a ha
    · obtain rfl := List.mem_singleton.mp ha
      decide
  have heq := blur_eq_iff (u := k) (by decide : isWild question = true) hg
  have hprefix := prefix_blur_iff (u := k) (by decide : isWild question = true) hslash
  rw [Bool.eq_iff_iff]
  simp only [isUnder, Bool.or_eq_true, decide_eq_true_eq, List.isPrefixOf_iff_prefix, heq, hprefix]

/-- Two pairs of keys that only their wildcard characters tell apart are matched alike. -/
theorem globMatches_congr {g c n c' n' : List UInt16}
    (hc : blur isWild question c = blur isWild question c')
    (hn : blur isWild question n = blur isWild question n') :
    globMatches g c n = globMatches g c' n' := by
  unfold globMatches
  split
  · rfl
  · split
    · rename_i hwild
      obtain ⟨hstar, hquestion⟩ := hwild
      rw [← isUnder_blur hstar hquestion (k := c), hc, isUnder_blur hstar hquestion,
        ← isUnder_blur hstar hquestion (k := n), hn, isUnder_blur hstar hquestion]
    · have hq : isWild question = true := by decide
      have hs : isWild slash = false := by decide
      rw [matchPieces_congr hq hs (named_compile g) hc, matchPieces_congr hq hs (named_compile g) hn]

/-! ## The main result -/

/-- The keys of a path, as a glob can tell them. -/
def identity (lc : Lowercase) (workdir : Option Workdir) (path : Text) :
    List UInt16 × List UInt16 :=
  (blur isWild question (units (hiwaterKey lc workdir path)),
    blur isWild question (units (hiwaterNormKey lc path)))

/-- A declared prohibition, as the registry keeps it. -/
def readOnly (lc : Lowercase) (glob source scope : Text) : Invariant :=
  ⟨"read_only", some (normalizeInvariantGlob lc glob), source, scope⟩

/-- Every declared prohibition refuses both paths or neither, to either tool. -/
def RefusedAlike (lc : Lowercase) (workdir : Option Workdir) (p q : Text) : Prop :=
  ∀ (tool : FileTool) (fileExists : Bool) (glob source scope : Text),
    (invariantRefusal lc workdir tool fileExists p [readOnly lc glob source scope]).isSome =
      (invariantRefusal lc workdir tool fileExists q [readOnly lc glob source scope]).isSome

theorem isSome_refusal {glob source scope : Text} :
    (invariantRefusal lc workdir tool fileExists p [readOnly lc glob source scope]).isSome =
      invariantMatches lc workdir (normalizeInvariantGlob lc glob) p := by
  have henforces : tool.enforces fileExists (readOnly lc glob source scope) = true := by
    cases tool <;> simp [FileTool.enforces, readOnly]
  cases hmatch : invariantMatches lc workdir (normalizeInvariantGlob lc glob) p with
  | true =>
    have hrefused : (tool.enforces fileExists (readOnly lc glob source scope) &&
        invariantMatches lc workdir (normalizeInvariantGlob lc glob) p) = true := by
      rw [henforces, hmatch]
      rfl
    exact congrArg Option.isSome (if_pos hrefused)
  | false =>
    have hpassed : ¬(tool.enforces fileExists (readOnly lc glob source scope) &&
        invariantMatches lc workdir (normalizeInvariantGlob lc glob) p) = true := by
      rw [henforces, hmatch]
      exact Bool.false_ne_true
    exact congrArg Option.isSome (if_neg hpassed)

theorem refusedAlike_iff : RefusedAlike lc workdir p q ↔ ∀ glob,
    invariantMatches lc workdir (normalizeInvariantGlob lc glob) p =
      invariantMatches lc workdir (normalizeInvariantGlob lc glob) q := by
  simp only [RefusedAlike, isSome_refusal]
  exact ⟨fun h glob => h .editFile true glob [] [], fun h _ _ glob _ _ => h glob⟩

/-- A key is the plain key, or what follows the workspace prefix in it. -/
theorem hiwaterKey_cases (lc : Lowercase) (workdir : Option Workdir) (p : Text) :
    hiwaterKey lc workdir p = hiwaterNormKey lc p ∨
      ∃ wd rest, workdir = some wd ∧ hiwaterNormKey lc p = workdirPrefix lc wd ++ rest ∧
        rest ≠ [] ∧ hiwaterKey lc workdir p = rest := by
  unfold hiwaterKey
  cases workdir with
  | none => exact .inl rfl
  | some wd =>
    dsimp only
    split
    · rename_i h
      obtain ⟨⟨rest, hrest⟩, hlen⟩ := h
      refine .inr ⟨wd, rest, rfl, hrest.symm, ?_, ?_⟩
      · rintro rfl
        rw [← hrest, List.append_nil] at hlen
        exact lt_irrefl _ hlen
      · rw [← hrest, List.drop_left]
    · exact .inl rfl

theorem hiwaterKey_suffix : hiwaterKey lc workdir p <:+ hiwaterNormKey lc p := by
  rcases hiwaterKey_cases lc workdir p with h | ⟨wd, rest, -, hnorm, -, hkey⟩
  · rw [h]
  · rw [hnorm, hkey]
    exact List.suffix_append _ _

theorem length_units_key_le :
    (units (hiwaterKey lc workdir p)).length ≤ (units (hiwaterNormKey lc p)).length := by
  obtain ⟨w, hw⟩ : hiwaterKey lc workdir p <:+ hiwaterNormKey lc p := hiwaterKey_suffix
  rw [← hw, units_append, List.length_append]
  omega

/-- Where no longer path is refused less, its plain key agrees with the longer one's. -/
theorem agrees_of_alike (h : RefusedAlike lc workdir p q)
    (hlen : (units (hiwaterNormKey lc q)).length ≤ (units (hiwaterNormKey lc p)).length) :
    Agrees slash isWild (units (hiwaterNormKey lc p)) (units (hiwaterNormKey lc q)) := by
  by_cases hp : hiwaterNormKey lc p = []
  · rw [hp] at hlen ⊢
    rw [List.eq_nil_of_length_eq_zero (Nat.le_zero.mp hlen)]
    exact .nil
  have hsep : isWild slash = false := by decide
  have hmatch := refusedAlike_iff.mp h (globFor (hiwaterNormKey lc p))
  rw [invariantMatches_globFor clean_normKey hp, invariantMatches_globFor clean_normKey hp,
    padded_self hsep, Bool.or_true, eq_comm, Bool.or_eq_true] at hmatch
  rcases hmatch with hkey | hnorm
  · have hle : (units (hiwaterKey lc workdir q)).length ≤
        (units (hiwaterNormKey lc q)).length := length_units_key_le
    have hagrees := forall₂_of_padded hkey (hle.trans hlen)
    obtain ⟨w, hw⟩ : hiwaterKey lc workdir q <:+ hiwaterNormKey lc q := hiwaterKey_suffix
    have hwnil : units w = [] := by
      refine List.eq_nil_of_length_eq_zero ?_
      have hlength := hagrees.length_eq
      rw [← hw, units_append, List.length_append] at hlen
      omega
    rwa [← hw, units_append, hwnil, List.nil_append]
  · exact forall₂_of_padded hnorm hlen

theorem blur_normKey_of_alike (h : RefusedAlike lc workdir p q) :
    blur isWild question (units (hiwaterNormKey lc p)) =
      blur isWild question (units (hiwaterNormKey lc q)) := by
  have hback : RefusedAlike lc workdir q p := fun tool fileExists glob source scope =>
    (h tool fileExists glob source scope).symm
  rcases le_total (units (hiwaterNormKey lc q)).length (units (hiwaterNormKey lc p)).length with
    hlen | hlen
  · have hagrees := agrees_of_alike h hlen
    exact blur_eq_of_agrees hagrees (agrees_of_alike hback hagrees.length_eq.le)
  · have hagrees := agrees_of_alike hback hlen
    exact blur_eq_of_agrees (agrees_of_alike h hagrees.length_eq.le) hagrees

theorem units_of_head (h : t.head? = some '/') : ∃ v, units t = slash :: v := by
  cases t with
  | nil => cases h
  | cons c t =>
    obtain rfl : c = '/' := Option.some.inj h
    exact ⟨units t, rfl⟩

/-- What follows the workspace prefix starts with no separator. -/
theorem units_of_rest {rest : Text} (hclean : Clean lc (workdirPrefix lc wd ++ rest))
    (hrest : rest ≠ []) : ∃ x u, units rest = x :: u ∧ x ≠ slash := by
  cases rest with
  | nil => exact absurd rfl hrest
  | cons c rest =>
    have hc : c ≠ '/' := fun hc =>
      (List.isChain_append.mp hclean.single).2.2 '/' getLast?_workdirPrefix c rfl ⟨rfl, hc⟩
    obtain ⟨x, u, hu⟩ := List.exists_cons_of_ne_nil (utf16_ne_nil c)
    refine ⟨x, u ++ units rest, by rw [units_cons, hu, List.cons_append], ?_⟩
    rintro rfl
    exact hc (eq_slash_of_mem (hu ▸ List.mem_cons_self))

/-- A prefix taken off one key is taken off the other. -/
theorem not_alike_of_extension {rest : Text} (h : RefusedAlike lc workdir p q)
    (hp : hiwaterNormKey lc p = workdirPrefix lc wd ++ rest) (hrest : rest ≠ [])
    (hkey : hiwaterKey lc workdir p = rest)
    (hq : hiwaterKey lc workdir q = hiwaterNormKey lc q) : False := by
  have hclean : Clean lc (workdirPrefix lc wd ++ rest) := hp ▸ clean_normKey
  have hsep : isWild slash = false := by decide
  have hmatch := refusedAlike_iff.mp h (globFor rest)
  have hsuffix : Clean lc rest := hclean.suffix (List.suffix_append _ _)
  rw [invariantMatches_globFor hsuffix hrest, invariantMatches_globFor hsuffix hrest, hkey,
    padded_self hsep, Bool.true_or, hq, Bool.or_self, eq_comm] at hmatch
  obtain ⟨v, hv⟩ : ∃ v, units (hiwaterNormKey lc p) = slash :: v := by
    refine units_of_head ?_
    rw [hp, List.head?_append, head?_workdirPrefix]
    rfl
  obtain ⟨v', hv'⟩ : ∃ v', units (hiwaterNormKey lc q) = slash :: v' := by
    have hblur := (blur_normKey_of_alike h).symm
    rw [hv] at hblur
    cases hunits : units (hiwaterNormKey lc q) with
    | nil =>
      rw [hunits] at hblur
      cases hblur
    | cons y v' =>
      rw [hunits] at hblur
      have hy : (if isWild y then question else y) = slash := (List.cons.inj hblur).1
      exact ⟨v', congrArg (· :: v') ((blur_eq_of_not_wild (by decide) hsep).mp hy)⟩
  obtain ⟨x, u, hu, hx⟩ := units_of_rest hclean hrest
  rw [hv', hu, not_padded_of_head hx] at hmatch
  cases hmatch

theorem identity_of_alike (h : RefusedAlike lc workdir p q) :
    identity lc workdir p = identity lc workdir q := by
  have hback : RefusedAlike lc workdir q p := fun tool fileExists glob source scope =>
    (h tool fileExists glob source scope).symm
  have hnorm := blur_normKey_of_alike h
  refine Prod.ext ?_ hnorm
  rcases hiwaterKey_cases lc workdir p with hp | ⟨wd, rest, hwd, hpnorm, hrest, hp⟩
  · rcases hiwaterKey_cases lc workdir q with hq | ⟨wd, rest, -, hqnorm, hrest, hq⟩
    · show blur _ _ (units (hiwaterKey lc workdir p)) = blur _ _ (units (hiwaterKey lc workdir q))
      rw [hp, hq, hnorm]
    · exact (not_alike_of_extension hback hqnorm hrest hq hp).elim
  · rcases hiwaterKey_cases lc workdir q with hq | ⟨wd', rest', hwd', hqnorm, hrest', hq⟩
    · exact (not_alike_of_extension h hpnorm hrest hp hq).elim
    · obtain rfl : wd = wd' := Option.some.inj (hwd.symm.trans hwd')
      show blur _ _ (units (hiwaterKey lc workdir p)) = blur _ _ (units (hiwaterKey lc workdir q))
      rw [hpnorm, hqnorm, units_append, units_append, blur, blur, List.map_append,
        List.map_append] at hnorm
      rw [hp, hq]
      exact List.append_cancel_left hnorm

theorem alike_of_identity (h : identity lc workdir p = identity lc workdir q) :
    RefusedAlike lc workdir p q :=
  refusedAlike_iff.mpr fun _ =>
    globMatches_congr (congrArg Prod.fst h) (congrArg Prod.snd h)

def homeHost : Host where
  workdir := some ⟨"/home/me/ws".toList, rfl⟩
  home := some "/home/me".toList
  cwd := "/".toList
  exists_ path := path = "/home/me/ws/tests/a.py".toList

end Nanna.Scripting
