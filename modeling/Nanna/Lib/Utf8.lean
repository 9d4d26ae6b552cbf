import Nanna.Lib.Bytes

/-!
# Slicing at byte offsets, and searches that return them

`splitBytes n t` cuts a text at the byte offset `n`, and has no value where `n` is not on a
character boundary, which is where the slice panics. The searches `rfind` and `charIndices` return
offsets on boundaries (`rfind_boundary`, `charIndices_boundary`). A scan of the encoded bytes
(`asBytes`) sees through characters, but a byte below 128 is a character of its own
(`boundary_of_ascii_byte`), so an offset next to one is a boundary too.
-/

namespace Nanna.Lib.Text

/-- `(&t[..n], &t[n..])`. -/
def splitBytes : Nat → Text → Option (Text × Text)
  | 0, t => some ([], t)
  | _ + 1, [] => none
  | n + 1, c :: cs =>
    if c.utf8Size ≤ n + 1 then
      (splitBytes (n + 1 - c.utf8Size) cs).map fun (pre, post) => (c :: pre, post)
    else none

/-- `t.char_indices()`, counted on from an offset. -/
def charIndicesFrom : Nat → Text → List (Nat × Char)
  | _, [] => []
  | i, c :: cs => (i, c) :: charIndicesFrom (i + c.utf8Size) cs

def charIndices (t : Text) : List (Nat × Char) := charIndicesFrom 0 t

/-- The boundaries of a text with what follows each, counted on from an offset. -/
def suffixesFrom : Nat → Text → List (Nat × Text)
  | i, [] => [(i, [])]
  | i, c :: cs => (i, c :: cs) :: suffixesFrom (i + c.utf8Size) cs

/-- `t.rfind(needle)`: the offset of the last occurrence. -/
def rfind (needle t : Text) : Option Nat :=
  ((suffixesFrom 0 t).filter fun (_, suffix) => needle.isPrefixOf suffix).getLast?.map (·.1)

/-- `t.as_bytes()`. -/
def asBytes (t : Text) : List UInt8 := t.flatMap String.utf8EncodeChar

def isAscii (c : Char) : Bool := c.toNat < 128

/-- `n` is the offset of a character boundary. -/
def IsBoundary (n : Nat) (t : Text) : Prop := ∃ pre post, t = pre ++ post ∧ byteLen pre = n

variable {s t pre post needle : Text} {n i : Nat} {c : Char}

/-! ## Slices -/

@[simp] theorem splitBytes_append : splitBytes (byteLen pre) (pre ++ post) = some (pre, post) := by
  induction pre with
  | nil =>
    cases post with
    | nil => rfl
    | cons c cs => rfl
  | cons c cs ih =>
    have hpos : 0 < c.utf8Size := c.utf8Size_pos
    obtain ⟨n, hn⟩ : ∃ n, byteLen (c :: cs) = n + 1 := ⟨byteLen (c :: cs) - 1, by
      rw [byteLen_cons]
      omega⟩
    have hsize : c.utf8Size ≤ n + 1 := by rw [← hn, byteLen_cons]; omega
    have hrest : n + 1 - c.utf8Size = byteLen cs := by rw [← hn, byteLen_cons]; omega
    rw [hn, List.cons_append, splitBytes, if_pos hsize, hrest, ih]
    rfl

theorem IsBoundary.append (h : IsBoundary n t) : IsBoundary (byteLen s + n) (s ++ t) := by
  obtain ⟨pre, post, rfl, rfl⟩ := h
  exact ⟨s ++ pre, post, (List.append_assoc _ _ _).symm, byteLen_append _ _⟩

theorem length_le_byteLen (t : Text) : t.length ≤ byteLen t := by
  induction t with
  | nil => exact le_rfl
  | cons c cs ih =>
    have hpos : 0 < c.utf8Size := c.utf8Size_pos
    rw [byteLen_cons, List.length_cons]
    omega

theorem byteLen_pos (h : t ≠ []) : 0 < byteLen t :=
  (List.length_pos_iff.mpr h).trans_le (length_le_byteLen t)

/-- The length of a literal is read off its bytes. -/
theorem byteLen_toList (s : String) : byteLen s.toList = s.utf8ByteSize := by
  have hencoded : ∀ t : Text, byteLen t = t.utf8Encode.size := by
    intro t
    induction t with
    | nil => rfl
    | cons c t ih =>
      rw [byteLen_cons, ih, List.utf8Encode_cons, ByteArray.size_append, List.utf8Encode_singleton]
      simp
  rw [hencoded]
  simp

/-! ## Prefixes -/

theorem takeBytes_self : takeBytes (byteLen pre) (pre ++ post) = pre := by
  have hrest : takeBytes 0 post = [] := eq_nil_of_byteLen (Nat.le_zero.mp byteLen_takeBytes_le)
  rw [takeBytes_append (Nat.le_refl _), Nat.sub_self, hrest, List.append_nil]

theorem dropBytes_self : dropBytes (byteLen pre) (pre ++ post) = post := by
  have hnone : dropBytes (byteLen pre) pre = [] := by
    apply eq_nil_of_byteLen
    have hle := byteLen_dropBytes_le (n := byteLen pre) (t := pre)
    omega
  rw [dropBytes_append (Nat.le_refl _), hnone, List.nil_append]

theorem IsBoundary.byteLen_takeBytes (h : IsBoundary n t) : byteLen (takeBytes n t) = n := by
  obtain ⟨pre, post, rfl, rfl⟩ := h
  rw [takeBytes_self]

/-- The text up to a boundary and the slice that starts there. -/
theorem IsBoundary.takeBytes_append_slice {a b : Nat} (ha : IsBoundary a t) (hab : a ≤ b) :
    takeBytes a t ++ t.slice a b = takeBytes b t := by
  obtain ⟨pre, post, rfl, rfl⟩ := ha
  rw [takeBytes_self, slice, takeBytes_append hab, dropBytes_self]

theorem IsBoundary.byteLen_slice {a b : Nat} (ha : IsBoundary a t) (hb : IsBoundary b t)
    (hab : a ≤ b) : byteLen (t.slice a b) = b - a := by
  have hlength := congrArg byteLen (ha.takeBytes_append_slice hab)
  rw [byteLen_append, ha.byteLen_takeBytes, hb.byteLen_takeBytes] at hlength
  omega

/-! ## Character offsets -/

theorem charIndicesFrom_getElem? :
    (charIndicesFrom i t)[n]? = t[n]?.map fun c => (i + byteLen (t.take n), c) := by
  induction t generalizing i n with
  | nil => rfl
  | cons c cs ih =>
    cases n with
    | zero => rfl
    | succ n =>
      rw [charIndicesFrom, List.getElem?_cons_succ, List.getElem?_cons_succ, ih, List.take_succ_cons,
        byteLen_cons, Nat.add_assoc]

theorem charIndices_getElem? :
    (charIndices t)[n]? = t[n]?.map fun c => (byteLen (t.take n), c) := by
  rw [charIndices, charIndicesFrom_getElem?]
  simp only [Nat.zero_add]

/-- The offset after a listed character is a boundary. -/
theorem charIndices_boundary (h : (i, c) ∈ charIndices t) : IsBoundary (i + c.utf8Size) t := by
  obtain ⟨n, hn⟩ := List.mem_iff_getElem?.mp h
  rw [charIndices_getElem?] at hn
  obtain ⟨d, hd, heq⟩ := Option.map_eq_some_iff.mp hn
  obtain ⟨rfl, rfl⟩ := Prod.mk.inj heq
  obtain ⟨hlt, rfl⟩ := List.getElem?_eq_some_iff.mp hd
  refine ⟨t.take (n + 1), t.drop (n + 1), (List.take_append_drop _ _).symm, ?_⟩
  rw [List.take_succ_eq_append_getElem hlt, byteLen_append, byteLen_cons, byteLen_nil, Nat.add_zero]

/-- The offset of the `n`th character, or the end where there is none, bounds the first `n`. -/
theorem nth_offset :
    ((charIndices t)[n]?.map (·.1)).getD (byteLen t) = byteLen (t.take n) := by
  rw [charIndices_getElem?]
  by_cases hlt : n < t.length
  · rw [List.getElem?_eq_getElem hlt]
    rfl
  · rw [List.getElem?_eq_none (Nat.le_of_not_lt hlt), List.take_of_length_le (Nat.le_of_not_lt hlt)]
    rfl

/-! ## Searching from the right -/

theorem mem_suffixesFrom (h : (n, s) ∈ suffixesFrom i t) :
    ∃ pre, t = pre ++ s ∧ i + byteLen pre = n := by
  induction t generalizing i with
  | nil =>
    obtain ⟨rfl, rfl⟩ := Prod.mk.inj (List.mem_singleton.mp h)
    exact ⟨[], rfl, rfl⟩
  | cons c cs ih =>
    rcases List.mem_cons.mp h with heq | hrest
    · obtain ⟨rfl, rfl⟩ := Prod.mk.inj heq
      exact ⟨[], rfl, rfl⟩
    · obtain ⟨pre, rfl, hlen⟩ := ih hrest
      exact ⟨c :: pre, rfl, by rw [byteLen_cons]; omega⟩

theorem rfind_eq_some (h : rfind needle t = some i) :
    ∃ pre post, t = pre ++ needle ++ post ∧ byteLen pre = i := by
  obtain ⟨⟨j, s⟩, hlast, rfl⟩ := Option.map_eq_some_iff.mp h
  obtain ⟨hmem, hprefix⟩ := List.mem_filter.mp (List.mem_of_getLast? hlast)
  obtain ⟨pre, rfl, hlen⟩ := mem_suffixesFrom hmem
  obtain ⟨post, rfl⟩ := List.isPrefixOf_iff_prefix.mp hprefix
  exact ⟨pre, post, (List.append_assoc _ _ _).symm, by simpa using hlen⟩

/-- The offset after an occurrence is a boundary. -/
theorem rfind_boundary (h : rfind needle t = some i) : IsBoundary (i + byteLen needle) t := by
  obtain ⟨pre, post, rfl, rfl⟩ := rfind_eq_some h
  exact ⟨pre ++ needle, post, rfl, byteLen_append _ _⟩

/-! ## Scanning bytes -/

theorem ofNat_add_high {k m : Nat} (hlow : 128 ≤ m) (hhigh : k + m < 256) :
    ¬ UInt8.ofNat (k + m) < 128 := by
  rw [UInt8.lt_iff_toNat_lt, UInt8.toNat_ofNat_of_lt' hhigh]
  show ¬ k + m < 128
  omega

theorem isAscii_iff : isAscii c = true ↔ c.utf8Size = 1 := by
  rw [Char.utf8Size_eq_one_iff, UInt32.le_iff_toNat_le, isAscii, decide_eq_true_eq]
  exact Nat.lt_succ_iff

/-- A byte below 128 is the whole encoding of its character. -/
theorem utf8Size_of_ascii_byte {b : UInt8} (hmem : b ∈ String.utf8EncodeChar c) (hb : b < 128) :
    c.utf8Size = 1 := by
  simp only [String.utf8EncodeChar] at hmem
  split at hmem
  case isTrue hsize => exact Char.utf8Size_eq_one_iff.mpr hsize
  case isFalse =>
    exfalso
    revert hb
    split at hmem
    · simp only [List.mem_cons, List.not_mem_nil, or_false] at hmem
      rcases hmem with rfl | rfl <;> exact ofNat_add_high (by omega) (by omega)
    · split at hmem <;> simp only [List.mem_cons, List.not_mem_nil, or_false] at hmem
      · rcases hmem with rfl | rfl | rfl <;> exact ofNat_add_high (by omega) (by omega)
      · rcases hmem with rfl | rfl | rfl | rfl <;> exact ofNat_add_high (by omega) (by omega)

/-- A byte below 128 starts and ends at a boundary. -/
theorem boundary_of_ascii_byte {b : UInt8} (h : (asBytes t)[i]? = some b) (hb : b < 128) :
    ∃ pre c post, t = pre ++ c :: post ∧ byteLen pre = i ∧ c.utf8Size = 1 := by
  induction t generalizing i with
  | nil => cases h
  | cons c cs ih =>
    rw [asBytes, List.flatMap_cons] at h
    by_cases hlt : i < (String.utf8EncodeChar c).length
    · rw [List.getElem?_append_left hlt] at h
      have hsize : c.utf8Size = 1 := utf8Size_of_ascii_byte (List.mem_of_getElem? h) hb
      rw [String.length_utf8EncodeChar, hsize] at hlt
      obtain rfl : i = 0 := Nat.lt_one_iff.mp hlt
      exact ⟨[], c, cs, rfl, rfl, hsize⟩
    · rw [List.getElem?_append_right (Nat.le_of_not_lt hlt), String.length_utf8EncodeChar] at h
      rw [String.length_utf8EncodeChar] at hlt
      obtain ⟨pre, d, post, rfl, hlen, hsize⟩ := ih h
      exact ⟨c :: pre, d, post, rfl, by rw [byteLen_cons]; omega, hsize⟩

end Nanna.Lib.Text
