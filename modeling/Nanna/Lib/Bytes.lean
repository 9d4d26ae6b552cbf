import Nanna.Lib.Text

/-!
# Byte offsets into a text

`takeBytes n t` is the text up to the character boundary at or before offset `n`, and `slice t a b`
the text between two offsets. A slice has at most `b - a` bytes (`byteLen_slice_le`), and holds
every part of the text that lies between its offsets (`infix_slice`).
-/

namespace Nanna.Lib.Text

/-- `&t[..t.floor_char_boundary(n)]`. -/
def takeBytes : Nat → Text → Text
  | _, [] => []
  | n, c :: cs => if c.utf8Size ≤ n then c :: takeBytes (n - c.utf8Size) cs else []

/-- `&t[n..]`, for an offset on a character boundary. -/
def dropBytes : Nat → Text → Text
  | 0, t => t
  | _ + 1, [] => []
  | n + 1, c :: cs => dropBytes (n + 1 - c.utf8Size) cs

/-- `&t[a..b]`. -/
def slice (t : Text) (a b : Nat) : Text := (t.takeBytes b).dropBytes a

variable {s t : Text} {n a b : Nat} {c : Char}

@[simp] theorem byteLen_cons : byteLen (c :: t) = c.utf8Size + byteLen t := by
  simp [byteLen]

theorem eq_nil_of_byteLen (h : byteLen t = 0) : t = [] := by
  cases t with
  | nil => rfl
  | cons c cs =>
    have hpos : 0 < c.utf8Size := c.utf8Size_pos
    rw [byteLen_cons] at h
    omega

theorem byteLen_le_of_infix (h : s <:+: t) : byteLen s ≤ byteLen t := by
  obtain ⟨pre, post, rfl⟩ := h
  rw [byteLen_append, byteLen_append]
  omega

theorem byteLen_takeBytes_le : byteLen (takeBytes n t) ≤ n := by
  induction t generalizing n with
  | nil => exact Nat.zero_le n
  | cons c cs ih =>
    rw [takeBytes]
    split
    · have hrest : byteLen (takeBytes (n - c.utf8Size) cs) ≤ n - c.utf8Size := ih
      rw [byteLen_cons]
      omega
    · exact Nat.zero_le n

theorem takeBytes_append (h : byteLen s ≤ n) :
    takeBytes n (s ++ t) = s ++ takeBytes (n - byteLen s) t := by
  induction s generalizing n with
  | nil => rfl
  | cons c cs ih =>
    rw [byteLen_cons] at h
    have hsize : c.utf8Size ≤ n := by omega
    have hrest : byteLen cs ≤ n - c.utf8Size := by omega
    rw [List.cons_append, takeBytes, if_pos hsize, ih hrest, byteLen_cons, Nat.sub_add_eq,
      List.cons_append]

theorem dropBytes_nil : dropBytes n [] = [] := by
  cases n with
  | zero => rfl
  | succ n => rfl

theorem dropBytes_append (h : n ≤ byteLen s) : dropBytes n (s ++ t) = dropBytes n s ++ t := by
  induction s generalizing n with
  | nil =>
    obtain rfl : n = 0 := Nat.le_zero.mp h
    cases t with
    | nil => rfl
    | cons c cs => rfl
  | cons c cs ih =>
    cases n with
    | zero => rfl
    | succ n =>
      rw [byteLen_cons] at h
      have hrest : n + 1 - c.utf8Size ≤ byteLen cs := by omega
      rw [List.cons_append, dropBytes, dropBytes, ih hrest]

theorem byteLen_dropBytes_le : byteLen (dropBytes n t) ≤ byteLen t - n := by
  induction t generalizing n with
  | nil =>
    rw [dropBytes_nil]
    exact Nat.zero_le _
  | cons c cs ih =>
    cases n with
    | zero => exact le_rfl
    | succ n =>
      have hrest : byteLen (dropBytes (n + 1 - c.utf8Size) cs) ≤
          byteLen cs - (n + 1 - c.utf8Size) := ih
      rw [dropBytes, byteLen_cons]
      omega

theorem byteLen_slice_le : byteLen (t.slice a b) ≤ b - a := by
  have htake : byteLen (takeBytes b t) ≤ b := byteLen_takeBytes_le
  have hdrop : byteLen (t.slice a b) ≤ byteLen (takeBytes b t) - a := byteLen_dropBytes_le
  omega

/-- A part of the text between the offsets is in the slice. -/
theorem infix_slice {pre mid post : Text} (ha : a ≤ byteLen pre) (hb : byteLen (pre ++ mid) ≤ b) :
    mid <:+: (pre ++ mid ++ post).slice a b := by
  rw [slice, takeBytes_append hb, List.append_assoc, dropBytes_append ha]
  exact List.infix_append' _ _ _

end Nanna.Lib.Text
