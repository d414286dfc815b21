import PsyBnc.Blowfish.Tables
import PsyBnc.Crypt
import Mathlib.Data.List.GetD
import Mathlib.Logic.Function.Basic

/-!
# Blowfish (`p_blowfish.c`)

The tables `bf_P` and `bf_S` are functions of the index; no index outside of them is used.  The byte
order is the one without `BIGENDIAN`.  `none` stands for a division by zero, or an access outside of
a buffer.
-/

namespace PsyBnc

open CLib Function

/-- `bf_P[18]` and `bf_S[4][256]`. -/
structure Tables where
  bf_P : Nat → UWORD
  bf_S : Nat → Nat → UWORD

/-! ## `union aword` -/

def aword (byte0 byte1 byte2 byte3 : Byte) : UWORD :=
  BitVec.ofNat 32 (((byte0.toNat * 256 + byte1.toNat) * 256 + byte2.toNat) * 256 + byte3.toNat)

def byte0 (x : UWORD) : Nat := x.toNat / 16777216
def byte1 (x : UWORD) : Nat := x.toNat / 65536 % 256
def byte2 (x : UWORD) : Nat := x.toNat / 256 % 256
def byte3 (x : UWORD) : Nat := x.toNat % 256

/-- The bytes of a word in memory. -/
def wordBytes (x : UWORD) : List Byte :=
  [UInt8.ofNat (byte3 x), UInt8.ofNat (byte2 x), UInt8.ofNat (byte1 x), UInt8.ofNat (byte0 x)]

/-! ## The rounds -/

section Rounds

variable (t : Tables)

def S0 (x : UWORD) : UWORD := t.bf_S 0 (byte0 x)
def S1 (x : UWORD) : UWORD := t.bf_S 0 (byte0 x)
def S2 (x : UWORD) : UWORD := t.bf_S 0 (byte0 x)
def S3 (x : UWORD) : UWORD := t.bf_S 0 (byte0 x)

def bf_F (x : UWORD) : UWORD := ((S0 t x + S1 t x) ^^^ S2 t x) + S3 t x

def ROUND (a b : UWORD) (n : Nat) : UWORD := a ^^^ (bf_F t b ^^^ t.bf_P n)

/-- The words `*xl` and `*xr` after the call. -/
def Blowfish_encipher (x : UWORD × UWORD) : UWORD × UWORD :=
  let Xl := x.1
  let Xr := x.2
  let Xl := Xl ^^^ t.bf_P 0
  let Xr := ROUND t Xr Xl 1
  let Xl := ROUND t Xl Xr 2
  let Xr := ROUND t Xr Xl 3
  let Xl := ROUND t Xl Xr 4
  let Xr := ROUND t Xr Xl 5
  let Xl := ROUND t Xl Xr 6
  let Xr := ROUND t Xr Xl 7
  let Xl := ROUND t Xl Xr 8
  let Xr := ROUND t Xr Xl 9
  let Xl := ROUND t Xl Xr 10
  let Xr := ROUND t Xr Xl 11
  let Xl := ROUND t Xl Xr 12
  let Xr := ROUND t Xr Xl 13
  let Xl := ROUND t Xl Xr 14
  let Xr := ROUND t Xr Xl 15
  let Xl := ROUND t Xl Xr 16
  let Xr := Xr ^^^ t.bf_P 17
  (Xr, Xl)

def Blowfish_decipher (x : UWORD × UWORD) : UWORD × UWORD :=
  let Xl := x.1
  let Xr := x.2
  let Xl := Xl ^^^ t.bf_P 17
  let Xr := ROUND t Xr Xl 16
  let Xl := ROUND t Xl Xr 15
  let Xr := ROUND t Xr Xl 14
  let Xl := ROUND t Xl Xr 13
  let Xr := ROUND t Xr Xl 12
  let Xl := ROUND t Xl Xr 11
  let Xr := ROUND t Xr Xl 10
  let Xl := ROUND t Xl Xr 9
  let Xr := ROUND t Xr Xl 8
  let Xl := ROUND t Xl Xr 7
  let Xr := ROUND t Xr Xl 6
  let Xl := ROUND t Xl Xr 5
  let Xr := ROUND t Xr Xl 4
  let Xl := ROUND t Xl Xr 3
  let Xr := ROUND t Xr Xl 2
  let Xl := ROUND t Xl Xr 1
  let Xr := Xr ^^^ t.bf_P 0
  (Xr, Xl)

end Rounds

/-! ## The key -/

/-- `data` for an entry of `bf_P`; `m` is what the remainders are taken by. -/
def keyData (key : List Byte) (j m : Nat) : Option UWORD :=
  if m = 0 then none
  else
    key[j]?.bind fun b0 => key[(j + 1) % m]?.bind fun b1 =>
      key[(j + 2) % m]?.bind fun b2 => key[(j + 3) % m]?.map fun b3 => aword b0 b1 b2 b3

/-- A round of the loop that mixes the key into `bf_P`, with the variable `j`. -/
def mixKey (key : List Byte) (m : Nat) (s : Nat × Tables) (i : Nat) : Option (Nat × Tables) :=
  (keyData key s.1 m).map fun data =>
    ((s.1 + 4) % m, { s.2 with bf_P := update s.2.bf_P i (s.2.bf_P i ^^^ data) })

/-- A round of the loop that fills `bf_P`, with `datal` and `datar`. -/
def fillP (s : Tables × (UWORD × UWORD)) (i : Nat) : Tables × (UWORD × UWORD) :=
  let data := Blowfish_encipher s.1 s.2
  ({ s.1 with bf_P := update (update s.1.bf_P i data.1) (i + 1) data.2 }, data)

/-- A round of the loop that fills `bf_S[i]`. -/
def fillS (i : Nat) (s : Tables × (UWORD × UWORD)) (j : Nat) : Tables × (UWORD × UWORD) :=
  let data := Blowfish_encipher s.1 s.2
  ({ s.1 with
      bf_S := update s.1.bf_S i (update (update (s.1.bf_S i) j data.1) (j + 1) data.2) }, data)

/-- The numbers `0, 2, …` below `2 * n`. -/
def evens (n : Nat) : List Nat := (List.range n).map fun k => 2 * k

def initTables : Tables where
  bf_P i := initbf_P.getD i 0
  bf_S i j := (initbf_S.getD i []).getD j 0

/-- `InitializeBlowfish`; a remainder by a negative `keybytes` is one by its absolute value. -/
def InitializeBlowfish (key : List Byte) (keybytes : Int) : Option Tables :=
  let keybytes := if 56 < keybytes then 56 else keybytes
  ((List.range 18).foldlM (mixKey key keybytes.natAbs) (0, initTables)).map fun s =>
    let filled := (evens 9).foldl fillP (s.2, (0, 0))
    ((List.range 4).foldl (fun s i => (evens 128).foldl (fillS i) s) filled).1

/-! ## Texts -/

/-- `hashstring`: two characters for each byte. -/
def hashstring (unhashed : List Byte) : CStr :=
  unhashed.flatMap fun chr => [(hashdot chr.toNat).1, (hashdot chr.toNat).2]

/-- The loop of `BLOWencrypt`, which ends at a block that starts with a zero byte. -/
def encryptLoop (t : Tables) : List Byte → CStr
  | e0 :: e1 :: e2 :: e3 :: e4 :: e5 :: e6 :: e7 :: p =>
      if e0 = 0 then []
      else
        let data := Blowfish_encipher t (aword e3 e2 e1 e0, aword e7 e6 e5 e4)
        hashstring (wordBytes data.2) ++ hashstring (wordBytes data.1) ++ encryptLoop t p
  -- not reached: the padding is longer than a block
  | _ => []

def BLOWencrypt (t : Tables) (str : CStr) : CStr := encryptLoop t (str ++ List.replicate 9 0)

/-- `wrong` after `unhashdot`. -/
def unhashWrong (h₀ h₁ : Byte) : Bool :=
  decide (h₀ ∉ base.take baselen ∨ h₁ ∉ base.take baselen)

/-- The loop of `unhashstring`: the bytes that are written, and `wrong`. -/
def unhashLoop : CStr → List Byte × Bool
  | h₀ :: h₁ :: uhshd =>
      let b := UInt8.ofNat (unhashdot h₀ h₁)
      if unhashWrong h₀ h₁ then ([b], true)
      else (b :: (unhashLoop uhshd).1, (unhashLoop uhshd).2)
  | _ => ([], false)

/-- The buffer of `unhashstring` has this many bytes, as long as that is an `unsigned`. -/
def unhashSize (str : CStr) : Nat := str.length / 2 + 11

/-- The loop of `BLOWdecrypt`, which makes `n` rounds. -/
def decryptLoop (t : Tables) : Nat → List Byte → List Byte
  | n + 1, e0 :: e1 :: e2 :: e3 :: e4 :: e5 :: e6 :: e7 :: p =>
      let data := Blowfish_decipher t (aword e7 e6 e5 e4, aword e3 e2 e1 e0)
      wordBytes data.1 ++ wordBytes data.2 ++ decryptLoop t n p
  -- a round without eight bytes is not reached: the buffer is longer than the text
  | _, _ => []

/-- `BLOWdecrypt`, where `ln` is an `int`; the result ends at its first zero byte. -/
def BLOWdecrypt (t : Tables) (str : CStr) : Option CStr :=
  if 2 ^ 32 ≤ unhashSize str then none
  else
    let s := unhashLoop str
    if s.2 then some []
    else
      let ln := (BitVec.ofNat 32 (str.length / 2)).toInt
      let p := s.1 ++ List.replicate (unhashSize str - s.1.length) 0
      some ((decryptLoop t ((ln + 7) / 8).toNat p).takeWhile (· ≠ 0))

/-- `kbytes`, as the `short` that `InitializeBlowfish` gets. -/
def kbytes (key : CStr) : Int := (BitVec.ofNat 16 ((key.length + 4) / 4 * 4)).toInt

/-- `ek[65]` after `lngtxt(1)` or `lngtxt(2)`, which put blanks behind the key. -/
def spacedKey (key : CStr) (blanks : Nat) : List Byte :=
  clip 65 (key ++ List.replicate blanks SP) ++ [0]

def BLOW_stringencrypt (input key : CStr) : Option CStr :=
  (InitializeBlowfish (spacedKey key 61) (kbytes key)).map fun t => BLOWencrypt t input

def BLOW_stringdecrypt (input key : CStr) : Option CStr :=
  (InitializeBlowfish (spacedKey key 60) (kbytes key)).bind fun t => BLOWdecrypt t input

end PsyBnc
