import Mathlib

/-!
# Multiplication modulo `2 ^ w + 1`

The words of `w` bits stand for the nonzero residues modulo `2 ^ w + 1`, the word `0` for `2 ^ w`.
When `2 ^ w + 1` is a prime they are closed under multiplication.  A product of two words is
reduced from its low and its high half, since `2 ^ w` is `-1`.

An inverse is found by division with remainder.  `Cofactors` is what each division keeps: the two
remainders are known multiples of the number that is inverted.
-/

namespace CLib

variable {w : Nat}

/-- The residue that a word stands for. -/
def residue (x : BitVec w) : ZMod (2 ^ w + 1) := if x = 0 then 2 ^ w else x.toNat

theorem two_pow_residue : (2 : ZMod (2 ^ w + 1)) ^ w = -1 := by
  have hself : ((2 ^ w + 1 : Nat) : ZMod (2 ^ w + 1)) = 0 := ZMod.natCast_self _
  push_cast at hself
  exact eq_neg_of_add_eq_zero_left hself

/-- Each word is one of `1, …, 2 ^ w`. -/
theorem exists_ofNat (x : BitVec w) : ∃ n : Nat, 1 ≤ n ∧ n ≤ 2 ^ w ∧ x = BitVec.ofNat w n := by
  by_cases hx : x = 0
  · refine ⟨2 ^ w, Nat.one_le_two_pow, le_refl _, ?_⟩
    apply BitVec.eq_of_toNat_eq
    rw [hx, BitVec.toNat_ofNat, Nat.mod_self]
    rfl
  · have hlt := x.isLt
    have hpos : x.toNat ≠ 0 := by
      intro h
      apply hx
      apply BitVec.eq_of_toNat_eq
      simpa using h
    exact ⟨x.toNat, by omega, by omega, by simp⟩

theorem residue_ofNat {n : Nat} (hpos : 1 ≤ n) (hle : n ≤ 2 ^ w) :
    residue (BitVec.ofNat w n) = n := by
  by_cases hn : n = 2 ^ w
  · have hzero : BitVec.ofNat w n = 0 := by
      apply BitVec.eq_of_toNat_eq
      rw [hn, BitVec.toNat_ofNat, Nat.mod_self]
      rfl
    rw [residue, if_pos hzero, hn]
    push_cast
    rfl
  · have hlt : n < 2 ^ w := by omega
    have hself : (BitVec.ofNat w n).toNat = n := by
      rw [BitVec.toNat_ofNat, Nat.mod_eq_of_lt hlt]
    have hne : BitVec.ofNat w n ≠ 0 := by
      intro h
      rw [h] at hself
      have hzero : n = 0 := by simpa using hself.symm
      omega
    rw [residue, if_neg hne, hself]

theorem residue_injective : Function.Injective (residue (w := w)) := by
  intro x y h
  rcases exists_ofNat x with ⟨m, hm, hm', rfl⟩
  rcases exists_ofNat y with ⟨n, hn, hn', rfl⟩
  rw [residue_ofNat hm hm', residue_ofNat hn hn', ZMod.natCast_eq_natCast_iff'] at h
  rw [Nat.mod_eq_of_lt (by omega), Nat.mod_eq_of_lt (by omega)] at h
  rw [h]

theorem residue_one : residue (1 : BitVec w) = 1 := by
  have hres : residue (BitVec.ofNat w 1) = ((1 : Nat) : ZMod (2 ^ w + 1)) :=
    residue_ofNat (le_refl 1) Nat.one_le_two_pow
  simpa using hres

/-- `1 - x` is the negative of `x`. -/
theorem residue_one_sub (x : BitVec w) : residue (1 - x) = -residue x := by
  rcases exists_ofNat x with ⟨n, hn, hn', rfl⟩
  have hsub : 1 - BitVec.ofNat w n = BitVec.ofNat w (2 ^ w + 1 - n) := by
    apply sub_eq_of_eq_add
    rw [← BitVec.ofNat_add, Nat.sub_add_cancel (by omega)]
    apply BitVec.eq_of_toNat_eq
    simp
  have hneg : ((2 ^ w + 1 - n + n : Nat) : ZMod (2 ^ w + 1)) = 0 := by
    rw [Nat.sub_add_cancel (by omega)]
    exact ZMod.natCast_self _
  rw [hsub, residue_ofNat (by omega) (by omega), residue_ofNat hn hn']
  push_cast at hneg
  exact eq_neg_of_add_eq_zero_left hneg

/-- A product is reduced to the difference of its halves; a borrow is paid back by one. -/
theorem residue_lowHigh {t : Nat} (hlt : t < 2 ^ w * 2 ^ w) (ht : ¬ 2 ^ w + 1 ∣ t) :
    residue (BitVec.ofNat w (t % 2 ^ w) - BitVec.ofNat w (t / 2 ^ w) +
      if t % 2 ^ w < t / 2 ^ w then 1 else 0) = (t : ZMod (2 ^ w + 1)) := by
  have hlow : t % 2 ^ w < 2 ^ w := Nat.mod_lt _ (Nat.two_pow_pos w)
  have hhigh : t / 2 ^ w < 2 ^ w := Nat.div_lt_of_lt_mul hlt
  have hsplit : 2 ^ w * (t / 2 ^ w) + t % 2 ^ w = t := Nat.div_add_mod t (2 ^ w)
  generalize t % 2 ^ w = low at hlow hsplit ⊢
  generalize t / 2 ^ w = high at hhigh hsplit ⊢
  have hvalue : (t : ZMod (2 ^ w + 1)) = low - high := by
    rw [← hsplit]
    push_cast
    rw [two_pow_residue]
    ring
  have hne : low ≠ high := by
    rintro rfl
    exact ht ⟨low, by rw [← hsplit]; ring⟩
  by_cases hborrow : low < high
  · rw [if_pos hborrow, hvalue]
    have hword : BitVec.ofNat w low - BitVec.ofNat w high + 1 =
        BitVec.ofNat w (low + 2 ^ w + 1 - high) := by
      have hone : (1 : BitVec w) = BitVec.ofNat w (2 ^ w + 1) := by
        apply BitVec.eq_of_toNat_eq
        simp
      rw [sub_add_eq_add_sub, hone]
      apply sub_eq_of_eq_add
      rw [← BitVec.ofNat_add, ← BitVec.ofNat_add, Nat.sub_add_cancel (by omega), Nat.add_assoc]
    have hcast : ((low + 2 ^ w + 1 - high + high : Nat) : ZMod (2 ^ w + 1)) = low := by
      rw [Nat.sub_add_cancel (by omega), Nat.add_assoc]
      push_cast
      rw [two_pow_residue]
      ring
    rw [hword, residue_ofNat (by omega) (by omega)]
    push_cast at hcast
    exact eq_sub_of_add_eq hcast
  · rw [if_neg hborrow, hvalue, add_zero]
    have hword : BitVec.ofNat w low - BitVec.ofNat w high = BitVec.ofNat w (low - high) := by
      apply sub_eq_of_eq_add
      rw [← BitVec.ofNat_add, Nat.sub_add_cancel (by omega)]
    rw [hword, residue_ofNat (by omega) (by omega), Nat.cast_sub (by omega)]

/-! ## Inverses -/

/-- The remainders `x` and `y` of `m` and `a`, as multiples of `a` modulo `m`. -/
structure Cofactors (m a x y t0 t1 : Nat) : Prop where
  sum : t1 * x + t0 * y = m
  first : (x : ZMod m) = t0 * a
  second : (y : ZMod m) = -(t1 * a)
  coprime : x.Coprime y

namespace Cofactors

variable {m a x y t0 t1 : Nat}

theorem start (h : m.Coprime a) : Cofactors m a a (m % a) 1 (m / a) where
  sum := by
    rw [one_mul, Nat.div_add_mod']
  first := by
    rw [Nat.cast_one, one_mul]
  second := by
    have hself : ((m / a * a + m % a : Nat) : ZMod m) = 0 := by
      rw [Nat.div_add_mod']
      exact ZMod.natCast_self m
    push_cast at hself
    rw [add_comm] at hself
    exact eq_neg_of_add_eq_zero_left hself
  coprime := by
    rw [Nat.Coprime, Nat.gcd_comm, ← Nat.gcd_rec]
    exact h.symm

/-- The first remainder is divided by the second one. -/
theorem divFirst (h : Cofactors m a x y t0 t1) :
    Cofactors m a (x % y) y (t0 + x / y * t1) t1 where
  sum := by
    calc t1 * (x % y) + (t0 + x / y * t1) * y
        = t1 * (y * (x / y) + x % y) + t0 * y := by ring
      _ = m := by rw [Nat.div_add_mod, h.sum]
  first := by
    have hx : ((y * (x / y) + x % y : Nat) : ZMod m) = t0 * a := by
      rw [Nat.div_add_mod, h.first]
    push_cast at hx ⊢
    rw [h.second] at hx
    linear_combination hx
  second := h.second
  coprime := by
    rw [Nat.Coprime, ← Nat.gcd_rec, Nat.gcd_comm]
    exact h.coprime

/-- The second remainder is divided by the first one. -/
theorem divSecond (h : Cofactors m a x y t0 t1) :
    Cofactors m a x (y % x) t0 (t1 + y / x * t0) where
  sum := by
    calc (t1 + y / x * t0) * x + t0 * (y % x)
        = t1 * x + t0 * (x * (y / x) + y % x) := by ring
      _ = m := by rw [Nat.div_add_mod, h.sum]
  first := h.first
  second := by
    have hy : ((x * (y / x) + y % x : Nat) : ZMod m) = -(t1 * a) := by
      rw [Nat.div_add_mod, h.second]
    push_cast at hy ⊢
    rw [h.first] at hy
    linear_combination hy
  coprime := by
    rw [Nat.Coprime, Nat.gcd_comm, ← Nat.gcd_rec]
    exact h.coprime

/-- A cofactor is small while the other remainder is not `1`. -/
theorem two_mul_first_le (h : Cofactors m a x y t0 t1) (hy : 2 ≤ y) : 2 * t0 ≤ m := by
  have hle : t0 * 2 ≤ t0 * y := Nat.mul_le_mul_left t0 hy
  have hsum := h.sum
  omega

theorem two_mul_second_le (h : Cofactors m a x y t0 t1) (hx : 2 ≤ x) : 2 * t1 ≤ m := by
  have hle : t1 * 2 ≤ t1 * x := Nat.mul_le_mul_left t1 hx
  have hsum := h.sum
  omega

/-- A remainder is not zero while the other one is not `1`. -/
theorem mod_pos (h : Cofactors m a x y t0 t1) (hy : 2 ≤ y) : 1 ≤ x % y := by
  have hco : Nat.Coprime (x % y) y := h.divFirst.coprime
  rcases Nat.eq_zero_or_pos (x % y) with hzero | hpos
  · rw [hzero, Nat.coprime_zero_left] at hco
    omega
  · exact hpos

theorem mod_pos' (h : Cofactors m a x y t0 t1) (hx : 2 ≤ x) : 1 ≤ y % x := by
  have hco : Nat.Coprime x (y % x) := h.divSecond.coprime
  rcases Nat.eq_zero_or_pos (y % x) with hzero | hpos
  · rw [hzero, Nat.coprime_zero_right] at hco
    omega
  · exact hpos

end Cofactors

end CLib
