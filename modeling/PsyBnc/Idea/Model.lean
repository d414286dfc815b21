import PsyBnc.Blowfish.Model

/-!
# IDEA (`p_idea.c`)

The block cipher and the ciphering of texts, which are written like those of Blowfish.  The byte
order is the one without `BIGIDEA`.  An array of sub-keys is a function of the index, and a pointer
into it starts at index `0`.
-/

namespace PsyBnc

open CLib

/-- `unsigned short`. -/
abbrev UShort := BitVec 16

@[reducible] def IDEAROUNDS : Nat := 8

@[reducible] def IDEAKEYLEN : Nat := 6 * IDEAROUNDS + 4

/-! ## Arithmetic -/

def IDEA_MUL (x y : UShort) : UShort :=
  if y ≠ 0 then
    if x ≠ 0 then
      let t32 := x.toNat * y.toNat
      let x := BitVec.ofNat 16 t32
      let t16 := BitVec.ofNat 16 (t32 / 2 ^ 16)
      (x - t16) + (if x < t16 then 1 else 0)
    else 1 - y
  else 1 - x

/-- The loop of `MulInv`, for `n` rounds at most; `q` keeps its value when `y` is `0`. -/
def mulInvLoop : Nat → UShort → UShort → UShort → UShort → UShort → Option UShort
  | 0, _, _, _, _, _ => none
  | n + 1, q, x, y, t0, t1 =>
      let qx := if 0 < y then (x / y, x % y) else (q, x)
      let t0 := t0 + qx.1 * t1
      if qx.2 ≤ 1 then some t0
      else
        let q := y / qx.2
        let y := y % qx.2
        let t1 := t1 + q * t0
        if y ≠ 1 then mulInvLoop n q qx.2 y t0 t1 else some (1 - t1)

/-- `MulInv`; `none` if the loop does not end. -/
def MulInv (x : UShort) : Option UShort :=
  if x ≤ 1 then some x
  else
    let t1 := BitVec.ofNat 16 (65537 / x.toNat)
    let y := BitVec.ofNat 16 (65537 % x.toNat)
    if y = 1 then some (1 - t1) else mulInvLoop 65536 0 x y 1 t1

/-! ## Sub-keys -/

/-- The array from `n` on. -/
def ahead (n : Nat) (key : Nat → UShort) : Nat → UShort := fun i => key (n + i)

/-- An array with the values of a list. -/
def arrayOf (l : List UShort) : Nat → UShort := fun i => l.getD i 0

/-- The loop that fills `ek[8]` to `ek[51]`; `start` is how far `ek` has moved, and `n` counts down
from `IDEAKEYLEN - 8`. -/
def expandLoop : Nat → Nat → Nat → (Nat → UShort) → (Nat → UShort)
  | 0, _, _, ek => ek
  | n + 1, start, i, ek =>
      let i := i + 1
      let word := (ek (start + i % 8) <<< 9) ||| (ek (start + (i + 1) % 8) >>> 7)
      expandLoop n (if i = 8 then start + 8 else start) (i % 8)
        (Function.update ek (start + i + 7) word)

/-- The encryption keys from the bytes of `IDEAUserKey`. -/
def encryptionKey (userkey : Nat → Byte) : Nat → UShort :=
  expandLoop (IDEAKEYLEN - 8) 0 0 fun j =>
    if j < 8 then BitVec.ofNat 16 ((userkey (2 * j)).toNat * 256 + (userkey (2 * j + 1)).toNat) else 0

/-- The loop that writes the decryption keys from the end on; `p` is what is written. -/
def decryptionLoop : Nat → (Nat → UShort) → List UShort → Option (List UShort)
  | 0, _, p => some p
  | n + 1, ek, p =>
      (MulInv (ek 2)).bind fun t1 =>
        (MulInv (ek 5)).bind fun t4 =>
          let t2 := -ek 3
          let t3 := -ek 4
          decryptionLoop n (ahead 6 ek) (t1 :: t3 :: t2 :: t4 :: ek 0 :: ek 1 :: p)

/-- What is written after the loop. -/
def decryptionEnd (ek : Nat → UShort) (p : List UShort) : Option (List UShort) :=
  (MulInv (ek 2)).bind fun t1 =>
    (MulInv (ek 5)).map fun t4 => t1 :: -ek 3 :: -ek 4 :: t4 :: ek 0 :: ek 1 :: p

/-- The decryption keys of `generatePartKeys`. -/
def decryptionKey (ek : Nat → UShort) : Option (List UShort) :=
  (MulInv (ek 0)).bind fun t1 =>
    (MulInv (ek 3)).bind fun t4 =>
      (decryptionLoop (IDEAROUNDS - 1) (ahead 4 ek) [t1, -ek 1, -ek 2, t4]).bind
        (decryptionEnd (ahead (6 * (IDEAROUNDS - 1)) (ahead 4 ek)))

/-! ## The cipher -/

/-- The variables `x1` to `x4`. -/
structure IdeaBlock where
  x1 : UShort
  x2 : UShort
  x3 : UShort
  x4 : UShort
  deriving DecidableEq

/-- One round. -/
def cipherRound (key : Nat → UShort) (x : IdeaBlock) : IdeaBlock :=
  let x1 := IDEA_MUL x.x1 (key 0)
  let x2 := x.x2 + key 1
  let x3 := x.x3 + key 2
  let x4 := IDEA_MUL x.x4 (key 3)
  let s3 := x3
  let x3 := x3 ^^^ x1
  let x3 := IDEA_MUL x3 (key 4)
  let s2 := x2
  let x2 := x2 ^^^ x4
  let x2 := x2 + x3
  let x2 := IDEA_MUL x2 (key 5)
  let x3 := x3 + x2
  let x1 := x1 ^^^ x2
  let x4 := x4 ^^^ x3
  let x2 := x2 ^^^ s3
  let x3 := x3 ^^^ s2
  ⟨x1, x2, x3, x4⟩

/-- The rounds, and what is left in `out` without its byte order. -/
def cipherLoop : Nat → (Nat → UShort) → IdeaBlock → IdeaBlock
  | 0, key, x => ⟨IDEA_MUL x.x1 (key 0), x.x3 + key 1, x.x2 + key 2, IDEA_MUL x.x4 (key 3)⟩
  | r + 1, key, x => cipherLoop r (ahead 6 key) (cipherRound key x)

def swapBytes (x : UShort) : UShort := (x >>> 8) ||| (x <<< 8)

/-- A word of memory. -/
def loadShort (b0 b1 : Byte) : UShort := BitVec.ofNat 16 (b1.toNat * 256 + b0.toNat)

def storeShort (x : UShort) : List Byte :=
  [UInt8.ofNat (x.toNat % 256), UInt8.ofNat (x.toNat / 256)]

/-- `cipher`; the copies through `cout` change nothing in this byte order. -/
def cipher (inbuf : Nat → Byte) (key : Nat → UShort) : List Byte :=
  let x := cipherLoop IDEAROUNDS key
    ⟨swapBytes (loadShort (inbuf 0) (inbuf 1)), swapBytes (loadShort (inbuf 2) (inbuf 3)),
      swapBytes (loadShort (inbuf 4) (inbuf 5)), swapBytes (loadShort (inbuf 6) (inbuf 7))⟩
  storeShort (swapBytes x.x1) ++ storeShort (swapBytes x.x2) ++ storeShort (swapBytes x.x3) ++
    storeShort (swapBytes x.x4)

/-! ## Buffers -/

/-- The bytes of a buffer from `n` on; behind its end it is filled with zeros. -/
def bytesFrom (n : Nat) (buf : List Byte) : Nat → Byte := fun i => buf.getD (n + i) 0

/-- `cipher` on the first `8 * n` bytes. -/
def blocksLoop (key : Nat → UShort) : Nat → List Byte → List Byte
  | 0, _ => []
  | n + 1, input => cipher (bytesFrom 0 input) key ++ blocksLoop key n (input.drop 8)

/-- `IDEAencrypt`, which pads the last block with zeros, and `IDEAdecrypt`, which reads it from a
buffer that ends in zeros.  In an address space of 32 bits no size here is too large for an `int`. -/
def cipherBlocks (key : Nat → UShort) (input : List Byte) : List Byte :=
  blocksLoop key ((input.length + 7) / 8) input

/-- `IDEA_keyset`, with the sub-keys for both directions.  `none` for a key that ends before its 16
bytes; the one that is made up for an empty key is not followed. -/
def IDEA_keyset (key : CStr) : Option ((Nat → UShort) × (Nat → UShort)) :=
  if key.length + 1 < 16 then none
  else
    let ek := encryptionKey (bytesFrom 0 key)
    (decryptionKey ek).map fun dk => (ek, arrayOf dk)

/-- `unhashstring`, where `wrong` keeps its value when there are no two characters. -/
def unhashstring (wrong : Bool) (hashed : CStr) : List Byte × Bool :=
  let unhashed := unhashLoop hashed
  (unhashed.1, if hashed.length < 2 then wrong else unhashed.2)

/-- What is left of a line in front of its end. -/
def cutEnd (input : CStr) : CStr :=
  match cutAt LF input with
  | some (u, _) => u
  | none =>
      match cutAt CR input with
      | some (u, _) => u
      | none => input

def IDEA_stringencrypt (input key : CStr) : Option CStr :=
  (IDEA_keyset key).map fun keys =>
    let input := cutEnd input
    if input = [] then [] else hashstring (cipherBlocks keys.1 (input ++ [0]))

/-- `IDEA_stringdecrypt`, with the global `wrong` from before. -/
def IDEA_stringdecrypt (wrong : Bool) (input key : CStr) : Option CStr :=
  let input := cutEnd input
  let unhashed := unhashstring wrong input
  if unhashed.2 then some (unhashed.1.takeWhile (· ≠ 0))
  else
    (IDEA_keyset key).map fun keys =>
      if input = [] then []
      else (cipherBlocks keys.2 unhashed.1).takeWhile (· ≠ 0)

end PsyBnc
