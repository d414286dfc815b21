import PsyBnc.Idea.Model
import PsyBnc.Lib.Cascade
import PsyBnc.Lib.Fermat

/-!
# Deciphering undoes ciphering

`IDEA_MUL` is the multiplication modulo `2 ^ 16 + 1` of the residues that words stand for, and
`MulInv` inverts it.  The rounds are those of a cascade, and `decryptionKey` reverses its keys.
-/

namespace PsyBnc

open CLib

instance factPrimeModulus : Fact (Nat.Prime (2 ^ 16 + 1)) := ⟨by norm_num⟩

/-! ## Arithmetic -/

theorem residue_IDEA_MUL (x y : UShort) : residue (IDEA_MUL x y) = residue x * residue y := by
  have hzero : residue (0 : UShort) = -1 := by
    rw [residue, if_pos rfl, two_pow_residue]
  by_cases hy : y = 0
  · rw [IDEA_MUL, if_neg (by simpa using hy), hy, residue_one_sub, hzero]
    ring
  by_cases hx : x = 0
  · rw [IDEA_MUL, if_pos hy, if_neg (by simpa using hx), hx, residue_one_sub, hzero]
    ring
  · have hprime : Nat.Prime (2 ^ 16 + 1) := Fact.out
    have hsmall : ∀ z : UShort, z ≠ 0 → ¬ 2 ^ 16 + 1 ∣ z.toNat := by
      intro z hz hdvd
      have hpos : 0 < z.toNat := by
        rcases Nat.eq_zero_or_pos z.toNat with h | h
        · exact absurd (BitVec.eq_of_toNat_eq (by simpa using h)) hz
        · exact h
      have hle := Nat.le_of_dvd hpos hdvd
      have hlt := z.isLt
      omega
    have hdvd : ¬ 2 ^ 16 + 1 ∣ x.toNat * y.toNat := by
      rw [hprime.dvd_mul]
      rintro (h | h)
      · exact hsmall x hx h
      · exact hsmall y hy h
    have hlt : x.toNat * y.toNat < 2 ^ 16 * 2 ^ 16 := Nat.mul_lt_mul'' x.isLt y.isLt
    have hred := residue_lowHigh hlt hdvd
    have hhigh : x.toNat * y.toNat / 2 ^ 16 < 2 ^ 16 := Nat.div_lt_of_lt_mul hlt
    have hcompare : BitVec.ofNat 16 (x.toNat * y.toNat) < BitVec.ofNat 16 (x.toNat * y.toNat / 2 ^ 16) ↔
        x.toNat * y.toNat % 2 ^ 16 < x.toNat * y.toNat / 2 ^ 16 := by
      rw [BitVec.lt_def, BitVec.toNat_ofNat, BitVec.toNat_ofNat, Nat.mod_eq_of_lt hhigh]
    have hlow : BitVec.ofNat 16 (x.toNat * y.toNat % 2 ^ 16) = BitVec.ofNat 16 (x.toNat * y.toNat) := by
      apply BitVec.eq_of_toNat_eq
      simp
    rw [hlow] at hred
    simp only [IDEA_MUL, ne_eq, hx, hy, not_false_eq_true, if_true, hcompare]
    rw [hred]
    simp only [residue, hx, hy, if_false]
    push_cast
    rfl

/-- A step of a cofactor does not overflow when its value fits. -/
theorem toNat_addMul {t q s : UShort} (h : t.toNat + q.toNat * s.toNat < 2 ^ 16) :
    (t + q * s).toNat = t.toNat + q.toNat * s.toNat := by
  rw [BitVec.toNat_add, BitVec.toNat_mul, Nat.add_mod_mod, Nat.mod_eq_of_lt h]

section Loop

variable {a x y t0 t1 : UShort}

/-- The cofactors of a round, as the words of the code. -/
abbrev WordCofactors (a x y t0 t1 : UShort) : Prop :=
  Cofactors (2 ^ 16 + 1) a.toNat x.toNat y.toNat t0.toNat t1.toNat

theorem WordCofactors.divFirst (h : WordCofactors a x y t0 t1) (hy : 2 ≤ y.toNat) :
    WordCofactors a (x % y) y (t0 + x / y * t1) t1 := by
  have hstep := Cofactors.divFirst h
  have hle := hstep.two_mul_first_le hy
  have hcofactor : (t0 + x / y * t1).toNat = t0.toNat + x.toNat / y.toNat * t1.toNat := by
    rw [← BitVec.toNat_udiv] at hle ⊢
    exact toNat_addMul (by omega)
  rw [WordCofactors, BitVec.toNat_umod, hcofactor]
  exact hstep

theorem WordCofactors.divSecond (h : WordCofactors a x y t0 t1) (hx : 2 ≤ x.toNat) :
    WordCofactors a x (y % x) t0 (t1 + y / x * t0) := by
  have hstep := Cofactors.divSecond h
  have hle := hstep.two_mul_second_le hx
  have hcofactor : (t1 + y / x * t0).toNat = t1.toNat + y.toNat / x.toNat * t0.toNat := by
    rw [← BitVec.toNat_udiv] at hle ⊢
    exact toNat_addMul (by omega)
  rw [WordCofactors, BitVec.toNat_umod, hcofactor]
  exact hstep

/-- A first remainder of `1` leaves the inverse in its cofactor. -/
theorem WordCofactors.inverse_first (h : WordCofactors a x y t0 t1) (hx : x = 1) :
    residue t0 * (a.toNat : ZMod (2 ^ 16 + 1)) = 1 := by
  have hfirst := h.first
  rw [hx] at hfirst
  have hone : ((1 : UShort).toNat : ZMod (2 ^ 16 + 1)) = 1 := by simp
  rw [hone] at hfirst
  have hne : t0 ≠ 0 := by
    rintro rfl
    simp at hfirst
  rw [residue, if_neg hne]
  exact hfirst.symm

/-- A second one leaves its negative. -/
theorem WordCofactors.inverse_second (h : WordCofactors a x y t0 t1) (hy : y = 1) :
    residue (1 - t1) * (a.toNat : ZMod (2 ^ 16 + 1)) = 1 := by
  have hsecond := h.second
  rw [hy] at hsecond
  have hone : ((1 : UShort).toNat : ZMod (2 ^ 16 + 1)) = 1 := by simp
  rw [hone] at hsecond
  have hne : t1 ≠ 0 := by
    rintro rfl
    simp at hsecond
  rw [residue_one_sub, residue, if_neg hne, neg_mul]
  exact hsecond.symm

theorem mulInvLoop_spec {n : Nat} :
    ∀ {q x y t0 t1 : UShort}, WordCofactors a x y t0 t1 → 2 ≤ x.toNat → 2 ≤ y.toNat →
      y.toNat < n → ∃ r, mulInvLoop n q x y t0 t1 = some r ∧
        residue r * (a.toNat : ZMod (2 ^ 16 + 1)) = 1 := by
  induction n with
  | zero =>
      intro q x y t0 t1 _ _ _ hn
      omega
  | succ n ih =>
      intro q x y t0 t1 h hx hy hn
      have hpos : 0 < y := by
        rw [BitVec.lt_def]
        simp
        omega
      have hfirst := h.divFirst hy
      have hxpos := Cofactors.mod_pos h hy
      have hxlt : x.toNat % y.toNat < y.toNat := Nat.mod_lt _ (by omega)
      rw [← BitVec.toNat_umod] at hxpos hxlt
      simp only [mulInvLoop, hpos, if_true]
      by_cases hone : x % y = 1
      · refine ⟨t0 + x / y * t1, ?_, hfirst.inverse_first hone⟩
        rw [if_pos (by simp [hone])]
      have hxtwo : 2 ≤ (x % y).toNat := by
        have hne : (x % y).toNat ≠ 1 := fun h1 => hone (BitVec.eq_of_toNat_eq (by simpa using h1))
        omega
      have hsecond := hfirst.divSecond hxtwo
      have hypos := Cofactors.mod_pos' hfirst hxtwo
      have hylt : y.toNat % (x % y).toNat < (x % y).toNat := Nat.mod_lt _ (by omega)
      rw [← BitVec.toNat_umod] at hypos hylt
      have hle : ¬ x % y ≤ 1 := by
        rw [BitVec.le_def]
        simp at hxtwo ⊢
        omega
      rw [if_neg hle]
      by_cases hyone : y % (x % y) = 1
      · exact ⟨_, by rw [if_neg (by simpa using hyone)], hsecond.inverse_second hyone⟩
      · have hytwo : 2 ≤ (y % (x % y)).toNat := by
          have hne : (y % (x % y)).toNat ≠ 1 :=
            fun h1 => hyone (BitVec.eq_of_toNat_eq (by simpa using h1))
          omega
        rw [if_pos hyone]
        exact ih hsecond hxtwo hytwo (by omega)

end Loop

/-- The loop ends for each word, with its inverse. -/
theorem MulInv_spec (x : UShort) : ∃ r, MulInv x = some r ∧ residue r * residue x = 1 := by
  by_cases hsmall : x ≤ 1
  · -- Zero stands for `2 ^ 16`, which like one is its own inverse.
    refine ⟨x, by rw [MulInv, if_pos hsmall], ?_⟩
    by_cases hzero : x = 0
    · rw [residue, if_pos hzero, two_pow_residue]
      ring
    · have hone : x = 1 := by
        apply BitVec.eq_of_toNat_eq
        have hne : x.toNat ≠ 0 := fun h => hzero (BitVec.eq_of_toNat_eq (by simpa using h))
        simp [BitVec.le_def] at hsmall ⊢
        omega
      rw [hone, residue_one, mul_one]
  · have htwo : 2 ≤ x.toNat := by
      simp [BitVec.le_def] at hsmall
      omega
    have hne : x ≠ 0 := by
      rintro rfl
      simp at htwo
    have hlt := x.isLt
    have hprime : Nat.Prime (2 ^ 16 + 1) := Fact.out
    have hcoprime : (2 ^ 16 + 1).Coprime x.toNat := by
      rw [hprime.coprime_iff_not_dvd]
      intro hdvd
      have hle := Nat.le_of_dvd (by omega) hdvd
      omega
    have hstart := Cofactors.start hcoprime
    have hpos := hstart.mod_pos' htwo
    have hdiv := hstart.two_mul_second_le htwo
    have hmodulus : 2 ^ 16 + 1 = 65537 := rfl
    rw [Nat.mod_mod] at hpos
    simp only [hmodulus] at hpos hdiv hstart ⊢
    have hmod : 65537 % x.toNat < x.toNat := Nat.mod_lt _ (by omega)
    have hy : (BitVec.ofNat 16 (65537 % x.toNat)).toNat = 65537 % x.toNat := by
      rw [BitVec.toNat_ofNat]
      exact Nat.mod_eq_of_lt (by omega)
    have ht1 : (BitVec.ofNat 16 (65537 / x.toNat)).toNat = 65537 / x.toNat := by
      rw [BitVec.toNat_ofNat]
      exact Nat.mod_eq_of_lt (by omega)
    -- The words the loop starts with are the first step of Euclid's algorithm, without a loss.
    have hcofactors : WordCofactors x x (BitVec.ofNat 16 (65537 % x.toNat)) 1
        (BitVec.ofNat 16 (65537 / x.toNat)) := by
      rw [WordCofactors, hy, ht1]
      exact hstart
    have hres : residue x = (x.toNat : ZMod (2 ^ 16 + 1)) := by
      rw [residue, if_neg hne]
    simp only [MulInv, if_neg hsmall, hres]
    by_cases hone : BitVec.ofNat 16 (65537 % x.toNat) = 1
    · exact ⟨_, by rw [if_pos hone], hcofactors.inverse_second hone⟩
    · have hytwo : 2 ≤ (BitVec.ofNat 16 (65537 % x.toNat)).toNat := by
        have hyne : (BitVec.ofNat 16 (65537 % x.toNat)).toNat ≠ 1 :=
          fun h => hone (BitVec.eq_of_toNat_eq (by simpa using h))
        omega
      rw [if_neg hone]
      exact mulInvLoop_spec hcofactors htwo hytwo (BitVec.isLt _)

/-! ## Rounds -/

/-- The four words that are mixed into the block, and the two of the step after it. -/
abbrev RoundKey := IdeaBlock × UShort × UShort

def ideaLayer (k x : IdeaBlock) : IdeaBlock :=
  ⟨IDEA_MUL x.x1 k.x1, x.x2 + k.x2, x.x3 + k.x3, IDEA_MUL x.x4 k.x4⟩

/-- The step in the middle changes the halves by words that depend on their differences only. -/
def ideaMix (m : UShort × UShort) (x : IdeaBlock) : IdeaBlock :=
  let t := IDEA_MUL (x.x3 ^^^ x.x1) m.1
  let u := IDEA_MUL ((x.x2 ^^^ x.x4) + t) m.2
  ⟨x.x1 ^^^ u, x.x2 ^^^ (t + u), x.x3 ^^^ u, x.x4 ^^^ (t + u)⟩

def ideaRounds : Rounds IdeaBlock IdeaBlock (UShort × UShort) where
  layer := ideaLayer
  mix := ideaMix
  swap := fun x => ⟨x.x1, x.x3, x.x2, x.x4⟩

/-- `k'` undoes the layer `k`. -/
def Outer (k k' : IdeaBlock) : Prop :=
  residue k'.x1 * residue k.x1 = 1 ∧ k'.x2 = -k.x2 ∧ k'.x3 = -k.x3 ∧
    residue k'.x4 * residue k.x4 = 1

/-- `k'` undoes the layer `k` between two swaps. -/
def Inner (k k' : IdeaBlock) : Prop :=
  residue k'.x1 * residue k.x1 = 1 ∧ k'.x2 = -k.x3 ∧ k'.x3 = -k.x2 ∧
    residue k'.x4 * residue k.x4 = 1

theorem IDEA_MUL_cancel {x k k' : UShort} (h : residue k' * residue k = 1) :
    IDEA_MUL (IDEA_MUL x k) k' = x := by
  apply residue_injective
  calc residue (IDEA_MUL (IDEA_MUL x k) k')
      = residue x * (residue k' * residue k) := by
        rw [residue_IDEA_MUL, residue_IDEA_MUL]
        ring
    _ = residue x := by rw [h, mul_one]

theorem ideaMix_mix (m : UShort × UShort) (x : IdeaBlock) : ideaMix m (ideaMix m x) = x := by
  have hcancel : ∀ a b u : UShort, (a ^^^ u) ^^^ (b ^^^ u) = a ^^^ b := by
    intro a b u
    rw [BitVec.xor_comm b u, BitVec.xor_assoc, ← BitVec.xor_assoc u u b]
    simp
  have hback : ∀ a u : UShort, (a ^^^ u) ^^^ u = a := by
    intro a u
    rw [BitVec.xor_assoc]
    simp
  simp only [ideaMix, hcancel, hback]

theorem ideaRounds_undoes : ideaRounds.Undoes Outer Inner where
  swap := fun _ => rfl
  mix := ideaMix_mix
  outer := by
    rintro k k' x ⟨h1, h2, h3, h4⟩
    simp only [ideaRounds, ideaLayer, IDEA_MUL_cancel h1, IDEA_MUL_cancel h4, h2, h3,
      add_neg_cancel_right]
  inner := by
    rintro k k' x ⟨h1, h2, h3, h4⟩
    simp only [ideaRounds, ideaLayer, IDEA_MUL_cancel h1, IDEA_MUL_cancel h4, h2, h3,
      add_neg_cancel_right]

/-- The keys of `r` rounds in an array, and the last layer. -/
def keysFrom : Nat → (Nat → UShort) → List RoundKey × IdeaBlock
  | 0, key => ([], ⟨key 0, key 1, key 2, key 3⟩)
  | r + 1, key =>
      ((⟨key 0, key 1, key 2, key 3⟩, key 4, key 5) :: (keysFrom r (ahead 6 key)).1,
        (keysFrom r (ahead 6 key)).2)

theorem cipherRound_eq (key : Nat → UShort) (x : IdeaBlock) :
    cipherRound key x = ideaRounds.swap (ideaRounds.mix (key 4, key 5)
      (ideaRounds.layer ⟨key 0, key 1, key 2, key 3⟩ x)) := by
  simp only [cipherRound, ideaRounds, ideaMix, ideaLayer, BitVec.xor_comm]

theorem cipherLoop_eq (r : Nat) :
    ∀ (key : Nat → UShort) (x : IdeaBlock),
      cipherLoop r key x = ideaRounds.run (keysFrom r key).1 (keysFrom r key).2 x := by
  induction r with
  | zero =>
      intro key x
      rfl
  | succ r ih =>
      intro key x
      rw [cipherLoop, ih, cipherRound_eq]
      rfl

/-- The keys of rounds as they lie in an array. -/
def flatKeys : List RoundKey → IdeaBlock → List UShort
  | [], k => [k.x1, k.x2, k.x3, k.x4]
  | r :: rs, k => r.1.x1 :: r.1.x2 :: r.1.x3 :: r.1.x4 :: r.2.1 :: r.2.2 :: flatKeys rs k

theorem keysFrom_flatKeys (rs : List RoundKey) (k : IdeaBlock) :
    keysFrom rs.length (arrayOf (flatKeys rs k)) = (rs, k) := by
  induction rs with
  | nil =>
      rfl
  | cons r rs ih =>
      have hahead : ahead 6 (arrayOf (flatKeys (r :: rs) k)) = arrayOf (flatKeys rs k) := by
        funext i
        rw [ahead, Nat.add_comm]
        rfl
      rw [List.length_cons, keysFrom, hahead, ih]
      rfl

/-! ## Reversed keys -/

theorem ahead_ahead (m n : Nat) (key : Nat → UShort) : ahead m (ahead n key) = ahead (n + m) key := by
  funext i
  simp only [ahead, Nat.add_assoc]

/-- The loop and what follows reverse the keys that are left. -/
theorem decryption_reversed (last : IdeaBlock) (n : Nat) :
    ∀ (ek : Nat → UShort) (back : List RoundKey) (k : IdeaBlock), ∃ undo,
      (decryptionLoop n ek (flatKeys back last)).bind (decryptionEnd (ahead (6 * n) ek)) =
          some (flatKeys undo last) ∧
        Rounds.Reversed Outer Inner ((k, ek 0, ek 1) :: (keysFrom n (ahead 2 ek)).1)
          (keysFrom n (ahead 2 ek)).2 back undo ∧
        undo.length = back.length + n + 1 := by
  induction n with
  | zero =>
      intro ek back k
      rcases MulInv_spec (ek 2) with ⟨t1, ht1, hinv1⟩
      rcases MulInv_spec (ek 5) with ⟨t4, ht4, hinv4⟩
      refine ⟨(⟨t1, -ek 3, -ek 4, t4⟩, ek 0, ek 1) :: back, ?_, ?_, by simp⟩
      · have hahead : ahead (6 * 0) ek = ek := by
          funext i
          simp [ahead]
        rw [hahead]
        simp [decryptionLoop, decryptionEnd, ht1, ht4, flatKeys]
      · exact Rounds.Reversed.last ⟨hinv1, rfl, rfl, hinv4⟩
  | succ n ih =>
      intro ek back k
      rcases MulInv_spec (ek 2) with ⟨t1, ht1, hinv1⟩
      rcases MulInv_spec (ek 5) with ⟨t4, ht4, hinv4⟩
      rcases ih (ahead 6 ek) ((⟨t1, -ek 4, -ek 3, t4⟩, ek 0, ek 1) :: back)
        ⟨ek 2, ek 3, ek 4, ek 5⟩ with ⟨undo, hundo, hreversed, hlength⟩
      have hstep : decryptionLoop (n + 1) ek (flatKeys back last) =
          decryptionLoop n (ahead 6 ek)
            (flatKeys ((⟨t1, -ek 4, -ek 3, t4⟩, ek 0, ek 1) :: back) last) := by
        simp [decryptionLoop, ht1, ht4, flatKeys]
      have hend : ahead (6 * (n + 1)) ek = ahead (6 * n) (ahead 6 ek) := by
        rw [ahead_ahead]
        congr 1
        omega
      refine ⟨undo, ?_, ?_, ?_⟩
      · rw [hstep, hend, hundo]
      · have hkeys : keysFrom (n + 1) (ahead 2 ek) =
            ((⟨ek 2, ek 3, ek 4, ek 5⟩, ek 6, ek 7) :: (keysFrom n (ahead 2 (ahead 6 ek))).1,
              (keysFrom n (ahead 2 (ahead 6 ek))).2) := by
          rw [keysFrom, ahead_ahead, ahead_ahead]
          rfl
        rw [hkeys]
        exact Rounds.Reversed.next ⟨hinv1, rfl, rfl, hinv4⟩ hreversed
      · rw [hlength, List.length_cons]
        omega

/-- The decryption keys exist, and with them the rounds undo those with the encryption keys. -/
theorem cipherLoop_undo (ek : Nat → UShort) : ∃ dk, decryptionKey ek = some dk ∧
    ∀ x, cipherLoop IDEAROUNDS (arrayOf dk) (cipherLoop IDEAROUNDS ek x) = x := by
  rcases MulInv_spec (ek 0) with ⟨t1, ht1, hinv1⟩
  rcases MulInv_spec (ek 3) with ⟨t4, ht4, hinv4⟩
  have hall := decryption_reversed ⟨t1, -ek 1, -ek 2, t4⟩ (IDEAROUNDS - 1) (ahead 4 ek) []
    ⟨ek 0, ek 1, ek 2, ek 3⟩
  rcases hall with ⟨undo, hundo, hreversed, hlength⟩
  refine ⟨flatKeys undo ⟨t1, -ek 1, -ek 2, t4⟩, ?_, fun x => ?_⟩
  · simp only [decryptionKey, ht1, ht4, Option.bind_some]
    exact hundo
  · have hkeys : keysFrom IDEAROUNDS (arrayOf (flatKeys undo ⟨t1, -ek 1, -ek 2, t4⟩)) =
        (undo, ⟨t1, -ek 1, -ek 2, t4⟩) := by
      rw [← keysFrom_flatKeys undo, hlength]
      rfl
    rw [cipherLoop_eq, cipherLoop_eq, hkeys]
    rw [ahead_ahead] at hreversed
    exact Rounds.run_undo ideaRounds_undoes ⟨hinv1, rfl, rfl, hinv4⟩ hreversed x

end PsyBnc
