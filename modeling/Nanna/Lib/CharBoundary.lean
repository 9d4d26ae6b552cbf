import Nanna.Lib.Utf8

/-!
# Walking to a character boundary

`snapUp t n` is where the loop `while n < t.len() && !t.is_char_boundary(n) { n += 1 }` ends: the first
boundary from `n` on, which is less than four bytes away (`snapUp_spec`). `sliceBytes t a b` is `&t[a..b]`,
with no value where the slice panics, and slices that follow each other join (`sliceBytes_join`).
-/

namespace Nanna.Lib.Text

/-- `t.is_char_boundary(n)`. -/
def isCharBoundary (t : Text) (n : Nat) : Bool := (splitBytes n t).isSome

/-- The loop, for at most as many rounds as there are bytes left. -/
def walkUp (t : Text) : Nat → Nat → Nat
  | 0, n => n
  | fuel + 1, n => if n < byteLen t && !isCharBoundary t n then walkUp t fuel (n + 1) else n

def snapUp (t : Text) (n : Nat) : Nat := walkUp t (byteLen t - n) n

/-- `&t[a..b]`. -/
def sliceBytes (t : Text) (a b : Nat) : Option Text :=
  (splitBytes b t).bind fun (pre, _) => (splitBytes a pre).map (·.2)

variable {t pre post : Text} {a b c m n fuel : Nat}

/-! ## Boundaries -/

theorem eq_append_of_splitBytes (h : splitBytes n t = some (pre, post)) : t = pre ++ post ∧ byteLen pre = n := by
  induction t generalizing n pre post with
  | nil =>
    cases n with
    | zero =>
      cases h
      exact ⟨rfl, rfl⟩
    | succ n => cases h
  | cons c t ih =>
    cases n with
    | zero =>
      cases h
      exact ⟨rfl, rfl⟩
    | succ n =>
      rw [splitBytes] at h
      split_ifs at h with hsize
      obtain ⟨⟨pre', post'⟩, hrest, heq⟩ := Option.map_eq_some_iff.mp h
      cases heq
      obtain ⟨rfl, hlen⟩ := ih hrest
      exact ⟨rfl, by rw [byteLen_cons, hlen]; omega⟩

theorem isCharBoundary_iff : isCharBoundary t n = true ↔ IsBoundary n t := by
  rw [isCharBoundary, Option.isSome_iff_exists]
  constructor
  · rintro ⟨⟨pre, post⟩, h⟩
    obtain ⟨ht, hlen⟩ := eq_append_of_splitBytes h
    exact ⟨pre, post, ht, hlen⟩
  · rintro ⟨pre, post, rfl, rfl⟩
    exact ⟨_, splitBytes_append⟩

theorem IsBoundary.zero (t : Text) : IsBoundary 0 t := ⟨[], t, rfl, rfl⟩

theorem IsBoundary.self (t : Text) : IsBoundary (byteLen t) t := ⟨t, [], (List.append_nil t).symm, rfl⟩

theorem IsBoundary.le (h : IsBoundary n t) : n ≤ byteLen t := by
  obtain ⟨pre, post, rfl, rfl⟩ := h
  rw [byteLen_append]
  omega

/-- No character is longer than four bytes. -/
theorem exists_boundary (h : n ≤ byteLen t) : ∃ m, n ≤ m ∧ m < n + 4 ∧ IsBoundary m t := by
  induction t generalizing n with
  | nil => exact ⟨0, h, by omega, .zero []⟩
  | cons c t ih =>
    have hsize := c.utf8Size_le_four
    rw [byteLen_cons] at h
    by_cases hn : n ≤ c.utf8Size
    · by_cases hzero : n = 0
      · exact ⟨0, by omega, by omega, .zero _⟩
      · exact ⟨c.utf8Size, hn, by omega, [c], t, rfl, by simp [byteLen]⟩
    · obtain ⟨m, hle, hlt, hm⟩ := ih (n := n - c.utf8Size) (by omega)
      refine ⟨c.utf8Size + m, by omega, by omega, ?_⟩
      have happend := hm.append (s := [c])
      rwa [show byteLen [c] = c.utf8Size by simp [byteLen]] at happend

/-! ## The walk -/

theorem walkUp_spec (hn : n ≤ byteLen t) (hfuel : byteLen t ≤ n + fuel) : IsBoundary (walkUp t fuel n) t ∧
    n ≤ walkUp t fuel n ∧ ∀ m, IsBoundary m t → n ≤ m → walkUp t fuel n ≤ m := by
  induction fuel generalizing n with
  | zero =>
    obtain rfl : n = byteLen t := by omega
    exact ⟨.self t, le_rfl, fun _ _ h => h⟩
  | succ fuel ih =>
    rw [walkUp]
    split_ifs with hwalk
    · simp only [Bool.and_eq_true, decide_eq_true_eq, Bool.not_eq_true'] at hwalk
      obtain ⟨hboundary, hle, hleast⟩ := ih (n := n + 1) (by omega) (by omega)
      refine ⟨hboundary, by omega, fun m hm hnm => hleast m hm ?_⟩
      have hne : n ≠ m := fun heq => by
        rw [isCharBoundary_iff.mpr (heq ▸ hm)] at hwalk
        cases hwalk.2
      omega
    · refine ⟨?_, le_rfl, fun _ _ h => h⟩
      by_cases hend : n = byteLen t
      · exact hend ▸ .self t
      · refine isCharBoundary_iff.mp ?_
        have hlt : n < byteLen t := by omega
        simpa [hlt] using hwalk

theorem snapUp_spec (h : n ≤ byteLen t) : IsBoundary (snapUp t n) t ∧ n ≤ snapUp t n ∧ snapUp t n < n + 4 ∧
    ∀ m, IsBoundary m t → n ≤ m → snapUp t n ≤ m := by
  obtain ⟨hboundary, hle, hleast⟩ : IsBoundary (snapUp t n) t ∧ n ≤ snapUp t n ∧
      ∀ m, IsBoundary m t → n ≤ m → snapUp t n ≤ m := walkUp_spec h (by omega)
  obtain ⟨m, hnm, hlt, hm⟩ := exists_boundary h
  exact ⟨hboundary, hle, (hleast m hm hnm).trans_lt hlt, hleast⟩

/-- The walk stays on a boundary. -/
theorem snapUp_boundary (h : IsBoundary n t) : snapUp t n = n := by
  obtain ⟨-, hle, -, hleast⟩ := snapUp_spec h.le
  exact Nat.le_antisymm (hleast n h le_rfl) hle

/-! ## Slices -/

theorem sliceBytes_eq (ha : IsBoundary a t) (hb : IsBoundary b t) (hab : a ≤ b) :
    ∃ piece, sliceBytes t a b = some piece ∧ byteLen piece = b - a ∧ takeBytes a t ++ piece = takeBytes b t := by
  obtain ⟨pre, post, rfl, rfl⟩ := ha
  obtain ⟨mid, rest, heq, hlen⟩ := hb
  -- the longer prefix starts with the shorter one
  obtain ⟨piece, rfl⟩ : ∃ piece, mid = pre ++ piece := by
    rcases List.append_eq_append_iff.mp heq with ⟨piece, rfl, -⟩ | ⟨piece, rfl, -⟩
    · exact ⟨piece, rfl⟩
    · rw [byteLen_append] at hab
      obtain rfl : piece = [] := eq_nil_of_byteLen (by omega)
      exact ⟨[], by simp⟩
  refine ⟨piece, ?_, by rw [← hlen, byteLen_append]; omega, ?_⟩
  · rw [sliceBytes, heq, ← hlen, splitBytes_append]
    simp
  · rw [takeBytes_self, heq, ← hlen, takeBytes_self]

/-- Two slices that meet are one slice. -/
theorem sliceBytes_join {first second : Text} (ha : IsBoundary a t) (hb : IsBoundary b t) (hc : IsBoundary c t)
    (hab : a ≤ b) (hbc : b ≤ c) (hfirst : sliceBytes t a b = some first) (hsecond : sliceBytes t b c = some second) :
    sliceBytes t a c = some (first ++ second) := by
  obtain ⟨piece, hpiece, -, htake⟩ := sliceBytes_eq ha hb hab
  obtain ⟨piece', hpiece', -, htake'⟩ := sliceBytes_eq hb hc hbc
  obtain ⟨whole, hwhole, -, htake''⟩ := sliceBytes_eq ha hc (hab.trans hbc)
  obtain rfl : piece = first := Option.some.inj (hpiece.symm.trans hfirst)
  obtain rfl : piece' = second := Option.some.inj (hpiece'.symm.trans hsecond)
  rw [hwhole]
  congr 1
  apply @List.append_cancel_left _ (takeBytes a t)
  rw [htake'', ← List.append_assoc, htake, htake']

theorem sliceBytes_full (t : Text) : sliceBytes t 0 (byteLen t) = some t := by
  have hsplit : splitBytes (byteLen t) (t ++ []) = some (t, []) := splitBytes_append
  rw [List.append_nil] at hsplit
  rw [sliceBytes, hsplit]
  cases t <;> rfl

end Nanna.Lib.Text
