import Mathlib.Data.List.Basic
import Mathlib.Tactic.Common
import Mathlib.Tactic.Ring

/-!
# Word tables packed into a number

A table of `w`-bit words is evaluated quickly in the kernel when it is one natural number, whose
digits in base `2 ^ w` are the words.  `packWords` packs a list, `wordAt` reads a word and `putWord`
replaces one.  `forced` evaluates a number before it is passed on.
-/

namespace CLib

/-- `f n`, with `n` evaluated to a numeral first. -/
def forced {β : Type} (n : Nat) (f : Nat → β) : β :=
  match n with
  | 0 => f 0
  | m + 1 => f (m + 1)

@[simp] theorem forced_eq {β : Type} (n : Nat) (f : Nat → β) : forced n f = f n := by
  cases n with
  | zero =>
      rfl
  | succ m =>
      rfl

section Packed

variable {w : Nat}

def packWords : List (BitVec w) → Nat
  | [] => 0
  | x :: xs => x.toNat + 2 ^ w * packWords xs

def wordAt (w p i : Nat) : Nat := (p >>> (w * i)) % (1 <<< w)

/-- Word `i` is replaced by `x`. -/
def putWord (w p i x : Nat) : Nat := p + (x <<< (w * i)) - (wordAt w p i <<< (w * i))

theorem wordAt_eq (p i : Nat) : wordAt w p i = p / 2 ^ (w * i) % 2 ^ w := by
  rw [wordAt, Nat.shiftRight_eq_div_pow, Nat.one_shiftLeft]

theorem wordAt_packWords (xs : List (BitVec w)) (i : Nat) :
    wordAt w (packWords xs) i = (xs.getD i 0).toNat := by
  induction xs generalizing i with
  | nil =>
      simp [packWords, wordAt_eq]
  | cons x xs ih =>
      cases i with
      | zero =>
          simp [packWords, wordAt_eq, Nat.mod_eq_of_lt x.isLt]
      | succ i =>
          -- The first word is divided away.
          have hpow : 2 ^ (w * (i + 1)) = 2 ^ w * 2 ^ (w * i) := by
            rw [Nat.mul_succ, Nat.pow_add, Nat.mul_comm]
          have hdiv : (x.toNat + 2 ^ w * packWords xs) / 2 ^ w = packWords xs := by
            rw [Nat.add_mul_div_left _ _ (Nat.two_pow_pos w), Nat.div_eq_of_lt x.isLt, Nat.zero_add]
          have hword := ih i
          rw [wordAt_eq] at hword
          simp only [wordAt_eq, packWords, hpow, ← Nat.div_div_eq_div_mul, hdiv, hword,
            List.getD_cons_succ]

theorem packWords_set (xs : List (BitVec w)) {i : Nat} (h : i < xs.length) (x : BitVec w) :
    packWords (xs.set i x) = putWord w (packWords xs) i x.toNat := by
  have hsum : packWords (xs.set i x) + (xs.getD i 0).toNat * 2 ^ (w * i) =
      packWords xs + x.toNat * 2 ^ (w * i) := by
    induction xs generalizing i with
    | nil =>
        simp at h
    | cons y xs ih =>
        cases i with
        | zero =>
            simp only [List.set_cons_zero, packWords, List.getD_cons_zero, Nat.mul_zero,
              Nat.pow_zero, Nat.mul_one]
            omega
        | succ i =>
            have hpow : 2 ^ (w * (i + 1)) = 2 ^ w * 2 ^ (w * i) := by
              rw [Nat.mul_succ, Nat.pow_add, Nat.mul_comm]
            have hrest := ih (Nat.lt_of_succ_lt_succ h)
            simp only [List.set_cons_succ, packWords, List.getD_cons_succ, hpow]
            calc y.toNat + 2 ^ w * packWords (xs.set i x) +
                  (xs.getD i 0).toNat * (2 ^ w * 2 ^ (w * i))
                = y.toNat + 2 ^ w * (packWords (xs.set i x) +
                    (xs.getD i 0).toNat * 2 ^ (w * i)) := by ring
              _ = y.toNat + 2 ^ w * (packWords xs + x.toNat * 2 ^ (w * i)) := by rw [hrest]
              _ = y.toNat + 2 ^ w * packWords xs + x.toNat * (2 ^ w * 2 ^ (w * i)) := by ring
  rw [putWord, wordAt_packWords, Nat.shiftLeft_eq, Nat.shiftLeft_eq]
  exact Nat.eq_sub_of_add_eq hsum

end Packed

end CLib
