import PsyBnc.Lib.CString
import Mathlib.Data.List.TakeWhile
import Mathlib.Algebra.Group.Nat.Defs
import Mathlib.Algebra.Group.Int.Defs

/-!
# Stored secrets (`p_crypt.c`)

`psycrypt` adds to every byte of a text a number that depends on two salts and on the text before
it, and writes the sum as two characters of `base`.  The salts come from `salt.h`, which is
generated for every build.  `char` is unsigned, as on the ARM targets of this port.
-/

namespace PsyBnc

open CLib

@[reducible] def PLUS : Byte := 43

/-- The contents of `salt.h`: letters, and start codes of one byte. -/
structure Salt where
  slt1 : CStr
  slt2 : CStr
  code1 : Nat
  code2 : Nat
  sa1 : Nat
  sa2 : Nat
  slt1_ne : slt1 ≠ []
  slt2_ne : slt2 ≠ []
  slt1_letters : ∀ b ∈ slt1, 97 ≤ b.toNat ∧ b.toNat ≤ 122
  slt2_letters : ∀ b ∈ slt2, 97 ≤ b.toNat ∧ b.toNat ≤ 122
  code1_le : code1 ≤ 255
  code2_le : code2 ≤ 255
  le_code2 : 64 ≤ code2

/-- The `salt.h` of the repository. -/
def buildSalt : Salt where
  slt1 := ascii "ndkandroidsalt"
  slt2 := ascii "psybncportable"
  code1 := 73
  code2 := 79
  sa1 := 3
  sa2 := 5
  slt1_ne := by decide
  slt2_ne := by decide
  slt1_letters := by decide +kernel
  slt2_letters := by decide +kernel
  code1_le := by decide
  code2_le := by decide
  le_code2 := by decide

/-! ## Two characters for a number -/

def base : CStr := ascii "'\x600123456789abcdefghijklmnopqrstuvxyzABCDEFGHIJKLMNOPQRSTUVWXYZ@$=&*-#"

@[reducible] def baselen : Nat := 67

/-- `hashdot`: the loop counts up to `r` in base `baselen`. -/
def hashdot (r : Nat) : Byte × Byte := (base.getD (r / baselen) 0, base.getD (r % baselen) 0)

/-- A loop of `unhashdot`; a character that is not found counts as `0`. -/
def baseIndex (c : Byte) : Nat := ((base.take baselen).findIdx? fun b => b == c).getD 0

def unhashdot (h₀ h₁ : Byte) : Nat := baseIndex h₀ * baselen + baseIndex h₁

/-! ## The cipher -/

/-- `*pts`, which starts over at the end of the salt. -/
def saltByte (slt : CStr) (i : Nat) : Nat := (slt.getD (i % slt.length) 0).toNat

/-- A start code that has run out of its byte starts over. -/
def restart (code tslt : Nat) : Nat := if 255 < tslt then code else tslt

/-- What is added to a byte: `p2 + p3 - p4 + p5`. -/
def offset (salt : Salt) (i tslt1 tslt2 : Nat) : Int :=
  saltByte salt.slt1 (salt.sa1 + i) + restart salt.code1 tslt1
    - saltByte salt.slt2 (salt.sa2 + i) + restart salt.code2 tslt2

/-- `tslt1--` on an `unsigned int`. -/
def next1 (salt : Salt) (tslt1 : Nat) : Nat :=
  let tslt1 := restart salt.code1 tslt1
  if tslt1 = 0 then 2 ^ 32 - 1 else tslt1 - 1

/-- `tslt2 + res / 10` on an `unsigned int`. -/
def next2 (salt : Salt) (tslt2 : Nat) (res : Int) : Nat :=
  ((restart salt.code2 tslt2 + res.tdiv 10) % 2 ^ 32).toNat

def encLoop (salt : Salt) : Nat → Nat → Nat → Nat → CStr → CStr
  | _, _, _, _, [] => []
  | slen, i, tslt1, tslt2, b :: ptt =>
      if 1990 < slen then []
      else
        let erg := b.toNat + offset salt i tslt1 tslt2
        let hpt := hashdot erg.toNat
        hpt.1 :: hpt.2 ::
          encLoop salt (slen + 2) (i + 1) (next1 salt tslt1) (next2 salt tslt2 b.toNat) ptt

/-- With an odd number of characters the loop would run over the end of the text: `none`. -/
def decLoop (salt : Salt) : Nat → Nat → Nat → Nat → CStr → Option CStr
  | _, _, _, _, [] => some []
  | slen, _, _, _, [_] => if 1990 < slen then some [] else none
  | slen, i, tslt1, tslt2, h₀ :: h₁ :: ptt =>
      if 1990 < slen then some []
      else
        let erg := (unhashdot h₀ h₁ : Int) - offset salt i tslt1 tslt2
        (decLoop salt (slen + 1) (i + 1) (next1 salt tslt1) (next2 salt tslt2 erg) ptt).map
          fun pte => UInt8.ofNat (erg % 256).toNat :: pte

/-- `cryptit`: a text that starts with `+` passes for a ciphered one. -/
def cryptit (salt : Salt) (tocipher : CStr) : CStr :=
  if tocipher.head? = some PLUS then tocipher
  else PLUS :: encLoop salt 0 0 salt.code1 salt.code2 tocipher

/-- `decryptit`; the result is a C string, so it ends at the first NUL. -/
def decryptit (salt : Salt) (todecipher : CStr) : Option CStr :=
  match afterPrefix [PLUS] todecipher with
  | none => some todecipher
  | some ptt => (decLoop salt 0 0 salt.code1 salt.code2 ptt).map fun pt => pt.takeWhile (· ≠ 0)

/-! ## Lengths -/

theorem length_encLoop_le (salt : Salt) (s : CStr) (slen i tslt1 tslt2 : Nat) :
    (encLoop salt slen i tslt1 tslt2 s).length ≤ 2 * s.length := by
  induction s generalizing slen i tslt1 tslt2 with
  | nil =>
      simp [encLoop]
  | cons b s ih =>
      by_cases hlen : 1990 < slen
      · simp [encLoop, hlen]
      · have hrest := ih (slen + 2) (i + 1) (next1 salt tslt1) (next2 salt tslt2 b.toNat)
        simp only [encLoop, hlen, if_false, List.length_cons]
        omega

theorem length_cryptit_le (salt : Salt) (s : CStr) : (cryptit salt s).length ≤ 2 * s.length + 1 := by
  rw [cryptit]
  split
  · omega
  · have hloop := length_encLoop_le salt s 0 0 salt.code1 salt.code2
    rw [List.length_cons]
    omega

/-! ## Deciphering undoes ciphering -/

theorem baseIndex_getD {n : Nat} (h : n < baselen) : baseIndex (base.getD n 0) = n := by
  have hall : ∀ n < baselen, baseIndex (base.getD n 0) = n := by decide +kernel
  exact hall n h

theorem unhashdot_hashdot {r : Nat} (h : r < baselen * baselen) :
    unhashdot (hashdot r).1 (hashdot r).2 = r := by
  have hhigh : r / baselen < baselen := Nat.div_lt_of_lt_mul h
  have hlow : r % baselen < baselen := Nat.mod_lt _ (by decide)
  calc unhashdot (hashdot r).1 (hashdot r).2
      = r / baselen * baselen + r % baselen := by
        rw [unhashdot, hashdot, baseIndex_getD hhigh, baseIndex_getD hlow]
    _ = r := Nat.div_add_mod' r baselen

section RoundTrip

variable (salt : Salt)

theorem saltByte_letters {slt : CStr} (hne : slt ≠ [])
    (h : ∀ b ∈ slt, 97 ≤ b.toNat ∧ b.toNat ≤ 122) (i : Nat) :
    97 ≤ saltByte slt i ∧ saltByte slt i ≤ 122 := by
  have hlt : i % slt.length < slt.length := Nat.mod_lt _ (List.length_pos_of_ne_nil hne)
  have hget : slt.getD (i % slt.length) 0 = slt[i % slt.length] := by simp [hlt]
  rw [saltByte, hget]
  exact h _ (List.getElem_mem hlt)

theorem restart_le {code tslt : Nat} (h : code ≤ 255) : restart code tslt ≤ 255 := by
  by_cases ht : 255 < tslt
  · simpa [restart, ht] using h
  · simpa [restart, ht] using Nat.le_of_not_lt ht

/-- The offset is positive, and with a byte it stays below `67 * 67`.  That the second code never
falls below its start value keeps it so. -/
theorem offset_bounds (i tslt1 : Nat) {tslt2 : Nat} (h : 64 ≤ tslt2) :
    0 < offset salt i tslt1 tslt2 ∧ offset salt i tslt1 tslt2 ≤ 600 := by
  have h₁ := saltByte_letters salt.slt1_ne salt.slt1_letters (salt.sa1 + i)
  have h₂ := saltByte_letters salt.slt2_ne salt.slt2_letters (salt.sa2 + i)
  have hcode1 : restart salt.code1 tslt1 ≤ 255 := restart_le salt.code1_le
  have hcode2 : restart salt.code2 tslt2 ≤ 255 := restart_le salt.code2_le
  have hlow : 64 ≤ restart salt.code2 tslt2 := by
    by_cases ht : 255 < tslt2
    · simpa [restart, ht] using salt.le_code2
    · simpa [restart, ht] using h
  simp only [offset]
  omega

theorem le_next2 {tslt2 : Nat} (h : 64 ≤ tslt2) (b : Byte) :
    64 ≤ next2 salt tslt2 b.toNat := by
  have hle : restart salt.code2 tslt2 ≤ 255 := restart_le salt.code2_le
  have hlow : 64 ≤ restart salt.code2 tslt2 := by
    by_cases ht : 255 < tslt2
    · simpa [restart, ht] using salt.le_code2
    · simpa [restart, ht] using h
  have hb : b.toNat < 256 := b.toNat_lt
  have hdiv : (b.toNat : Int).tdiv 10 = ((b.toNat / 10 : Nat) : Int) := by simp
  have hmod : ((restart salt.code2 tslt2 : Int) + (b.toNat / 10 : Nat)) % 2 ^ 32 =
      restart salt.code2 tslt2 + (b.toNat / 10 : Nat) := by
    refine Int.emod_eq_of_lt (by omega) ?_
    omega
  rw [next2, hdiv, hmod]
  omega

theorem decLoop_encLoop (s : CStr) (slen i tslt1 tslt2 : Nat) (h : 64 ≤ tslt2)
    (hslen : 2 * slen + 2 * s.length ≤ 1992) :
    decLoop salt slen i tslt1 tslt2 (encLoop salt (2 * slen) i tslt1 tslt2 s) = some s := by
  induction s generalizing slen i tslt1 tslt2 with
  | nil =>
      simp [encLoop, decLoop]
  | cons b s ih =>
      rw [List.length_cons] at hslen
      have hoff := offset_bounds salt i tslt1 h
      have hb : b.toNat < 256 := b.toNat_lt
      -- The sum is a number of two digits, and it is found again.
      have hround : unhashdot (hashdot (b.toNat + offset salt i tslt1 tslt2).toNat).1
          (hashdot (b.toNat + offset salt i tslt1 tslt2).toNat).2 =
            (b.toNat + offset salt i tslt1 tslt2).toNat :=
        unhashdot_hashdot (by
          have hbase : baselen * baselen = 4489 := rfl
          omega)
      have herg : ((b.toNat + offset salt i tslt1 tslt2).toNat : Int) - offset salt i tslt1 tslt2 =
          b.toNat := by omega
      have hbyte : UInt8.ofNat ((b.toNat : Int) % 256).toNat = b := by
        have hmod : ((b.toNat : Int) % 256).toNat = b.toNat := by omega
        rw [hmod]
        exact UInt8.ofNat_toNat
      have hrest := ih (slen + 1) (i + 1) (next1 salt tslt1) (next2 salt tslt2 b.toNat)
        (le_next2 salt h b) (by omega)
      have hfar : ¬ 1990 < 2 * slen := by omega
      have hfar' : ¬ 1990 < slen := by omega
      simp only [encLoop, decLoop, hfar, hfar', if_false, hround, herg, hbyte]
      rw [show 2 * slen + 2 = 2 * (slen + 1) by omega, hrest, Option.map_some]

/-- A text that does not look ciphered comes back. -/
theorem decryptit_cryptit {s : CStr} (hplus : s.head? ≠ some PLUS) (hnul : (0 : Byte) ∉ s)
    (hlen : s.length ≤ 996) : decryptit salt (cryptit salt s) = some s := by
  have hpre : afterPrefix [PLUS] (PLUS :: encLoop salt 0 0 salt.code1 salt.code2 s) =
      some (encLoop salt 0 0 salt.code1 salt.code2 s) := afterPrefix_append [PLUS] _
  have hround := decLoop_encLoop salt s 0 0 salt.code1 salt.code2 salt.le_code2 (by omega)
  have htake : s.takeWhile (· ≠ 0) = s := by
    refine List.takeWhile_eq_self_iff.2 (fun b hb => ?_)
    simpa using fun h0 : b = 0 => hnul (h0 ▸ hb)
  rw [cryptit, if_neg hplus, decryptit, hpre]
  simpa [hround] using htake

theorem length_decLoop {t : CStr} :
    ∀ {s : CStr} {slen i tslt1 tslt2 : Nat} {u : CStr}, s.length ≤ t.length →
      decLoop salt slen i tslt1 tslt2 s = some u → 2 * u.length ≤ s.length := by
  induction t with
  | nil =>
      intro s slen i tslt1 tslt2 u hlen h
      have hnil : s = [] := List.eq_nil_of_length_eq_zero (Nat.le_zero.1 hlen)
      rw [hnil, decLoop, Option.some.injEq] at h
      rw [← h]
      exact Nat.zero_le _
  | cons c t ih =>
      intro s slen i tslt1 tslt2 u hlen h
      match s with
      | [] =>
          rw [decLoop, Option.some.injEq] at h
          simp [← h]
      | [_] =>
          rw [decLoop] at h
          split at h
          · simp [← Option.some.inj h]
          · cases h
      | h₀ :: h₁ :: s =>
          rw [decLoop] at h
          split at h
          · simp [← Option.some.inj h]
          · rcases Option.map_eq_some_iff.1 h with ⟨v, hv, rfl⟩
            have hrest := ih (by simp only [List.length_cons] at hlen; omega) hv
            simp only [List.length_cons]
            omega

/-- A stored secret is read back exactly if it does not look ciphered already. -/
theorem decryptit_cryptit_iff {p : CStr} (hnul : (0 : Byte) ∉ p) (hlen : p.length ≤ 996) :
    decryptit salt (cryptit salt p) = some p ↔ p.head? ≠ some PLUS := by
  refine ⟨fun h hplus => ?_, fun hplus => decryptit_cryptit salt hplus hnul hlen⟩
  cases p with
  | nil =>
      cases hplus
  | cons b ptt =>
      rw [List.head?_cons, Option.some.injEq] at hplus
      subst hplus
      have hpre : afterPrefix [PLUS] (PLUS :: ptt) = some ptt := afterPrefix_append [PLUS] ptt
      rw [cryptit, if_pos List.head?_cons, decryptit, hpre] at h
      rcases Option.map_eq_some_iff.1 h with ⟨u, hu, htext⟩
      -- two characters give one byte, so the text gets shorter
      have hshort := length_decLoop salt (Nat.le_refl _) hu
      have htake : (u.takeWhile (· ≠ 0)).length ≤ u.length := (List.takeWhile_sublist _).length_le
      rw [htext, List.length_cons] at htake
      omega

end RoundTrip

/-- `secret` is read back. -/
theorem decryptit_cryptit_secret :
    decryptit buildSalt (cryptit buildSalt (ascii "secret")) = some (ascii "secret") ↔
      (ascii "secret").head? ≠ some PLUS :=
  decryptit_cryptit_iff buildSalt (by decide +kernel) (by decide +kernel)

theorem decryptit_plus :
    decryptit buildSalt (cryptit buildSalt (ascii "+secret")) ≠ some (ascii "+secret") := by
  decide +kernel

end PsyBnc
