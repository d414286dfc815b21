import PsyBnc.Lib.CString

/-!
# Fixed buffers

A `char buf[n]` is the list of its `n` bytes.  A buffer that holds a text and zeros behind it is in
normal form `padded n s`; the operations of `<string.h>` that C code keeps such buffers in order
with lead from one normal form to another.
-/

namespace CLib

/-- The buffer after `memcpy(dst + off, src, n)`; `src` are the `n` bytes that are copied. -/
def memcpy (dst : List Byte) (off : Nat) (src : List Byte) : List Byte :=
  dst.take off ++ src ++ dst.drop (off + src.length)

/-- The buffer after `memset(dst + off, b, n)`. -/
def memset (dst : List Byte) (off : Nat) (b : Byte) (n : Nat) : List Byte :=
  memcpy dst off (List.replicate n b)

/-- A cleared buffer. -/
def zeros (n : Nat) : List Byte := List.replicate n 0

/-- The string that starts at the beginning of a buffer. -/
def cstr (buf : List Byte) : CStr :=
  match cutAt 0 buf with
  | some (s, _) => s
  | none => buf

/-- A text and zeros up to the size of the buffer. -/
def padded (n : Nat) (s : CStr) : List Byte := s ++ List.replicate (n - s.length) 0

/-- `replace` on a string: every byte `whatc` becomes `toc`. -/
def replaceByte (whatc toc : Byte) (s : CStr) : CStr :=
  s.map fun b => if b = whatc then toc else b

@[simp] theorem length_replaceByte (whatc toc : Byte) (s : CStr) :
    (replaceByte whatc toc s).length = s.length := by
  simp [replaceByte]

theorem cstr_append_zero {s : CStr} (hs : 0 ∉ s) (r : List Byte) : cstr (s ++ 0 :: r) = s := by
  simp [cstr, cutAt_append hs]

theorem cstr_eq_self {s : CStr} (hs : 0 ∉ s) : cstr s = s := by
  simp [cstr, cutAt_eq_none.2 hs]

section Padded

variable {n : Nat} {s : CStr}

theorem length_padded (h : s.length ≤ n) : (padded n s).length = n := by
  simp only [padded, List.length_append, List.length_replicate]
  omega

theorem cstr_padded (hs : 0 ∉ s) : cstr (padded n s) = s := by
  cases hpad : n - s.length with
  | zero =>
      simpa [padded, hpad] using cstr_eq_self hs
  | succ k =>
      simpa [padded, hpad, List.replicate_succ] using cstr_append_zero hs _

/-- Bytes received behind the text extend it. -/
theorem memcpy_padded {c : List Byte} (h : s.length + c.length ≤ n) :
    memcpy (padded n s) s.length c = padded n (s ++ c) := by
  have hdrop : (padded n s).drop (s.length + c.length) =
      List.replicate (n - (s ++ c).length) 0 := by
    simp only [padded, List.drop_append, List.drop_replicate, List.length_append]
    have hnil : s.drop (s.length + c.length) = [] := List.drop_eq_nil_of_le (by omega)
    have hn : n - s.length - (s.length + c.length - s.length) = n - (s.length + c.length) := by
      omega
    rw [hnil, hn, List.nil_append]
  rw [memcpy, hdrop]
  simp [padded]

/-- A line copied into a cleared buffer. -/
theorem memcpy_zeros (n : Nat) (c : List Byte) :
    memcpy (zeros n) 0 c = padded n c := by
  simp [memcpy, padded, zeros]

/-- A buffer that starts with a text and ends in a zero is brought to normal form by clearing the
bytes between. -/
theorem memset_rest {buf : List Byte} (hs : s.length ≤ n)
    (htake : buf.take s.length = s) (hlast : buf.drop n = [0]) :
    memset buf s.length 0 (n - s.length) = padded (n + 1) s := by
  have hn : s.length + (n - s.length) = n := by omega
  have hsucc : n + 1 - s.length = (n - s.length) + 1 := by omega
  simp only [memset, memcpy, htake, List.length_replicate, hn, hlast, padded, hsucc,
    List.append_assoc]
  simp [List.replicate_succ']

/-- The first `k` bytes of a text are shifted out of its buffer. -/
theorem memset_shift {u v : CStr} (hu : u ≠ []) (hlen : (u ++ v).length ≤ n) :
    memset (memcpy (padded (n + 1) (u ++ v)) 0 ((padded (n + 1) (u ++ v)).drop u.length))
      v.length 0 (n - v.length) = padded (n + 1) v := by
  have hpos : 0 < u.length := List.length_pos_of_ne_nil hu
  have hsum : u.length + v.length ≤ n := by simpa using hlen
  have hfull : (padded (n + 1) (u ++ v)).length = n + 1 := length_padded (by omega)
  have hshift : (padded (n + 1) (u ++ v)).drop u.length =
      v ++ List.replicate (n + 1 - (u ++ v).length) 0 := by
    simp [padded, List.append_assoc]
  have hzero : (padded (n + 1) (u ++ v)).drop n = [0] := by
    have hnil : (u ++ v).drop n = [] := List.drop_eq_nil_of_le hlen
    have hone : n + 1 - (u ++ v).length - (n - (u ++ v).length) = 1 := by omega
    simp only [padded, List.drop_append, List.drop_replicate, hnil, hone, List.nil_append]
    rfl
  refine memset_rest (by omega) ?_ ?_
  · simp only [memcpy, List.take_zero, List.nil_append, hshift, List.append_assoc]
    exact List.take_left
  · -- The last byte is not reached by the shift.
    have hle : (n + 1 - u.length) ≤ n := by omega
    have hk : n - (n + 1 - u.length) + (n + 1 - u.length) = n := by omega
    simp only [memcpy, List.take_zero, List.nil_append, Nat.zero_add, List.drop_append,
      List.length_drop, hfull, List.drop_drop]
    have hnil : (padded (n + 1) (u ++ v)).drop (u.length + n) = [] :=
      List.drop_eq_nil_of_le (by omega)
    have hsum' : n + 1 - u.length + (n - (n + 1 - u.length)) = n := by omega
    simp only [hnil, hsum', hzero, List.nil_append]

end Padded

end CLib
