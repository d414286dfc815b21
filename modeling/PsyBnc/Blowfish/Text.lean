import PsyBnc.Blowfish.Published

/-!
# Encrypted texts

`BLOWencrypt` pads a text with zero bytes, writes each enciphered block as sixteen characters, and
stops at a block that starts with a zero byte; `BLOWdecrypt` counts the characters instead.  Both
undo each other while the count is an `int`, and while the length of the key is a `short` that the
key loop can take remainders by.
-/

namespace PsyBnc

open CLib Function

/-! ## Blocks -/

theorem xor_xor_cancel (a b : UWORD) : a ^^^ b ^^^ b = a := by
  rw [BitVec.xor_assoc, BitVec.xor_self, BitVec.xor_zero]

theorem decipher_encipher (t : Tables) (x : Block) :
    Blowfish_decipher t (Blowfish_encipher t x) = x := by
  have hback : network (· ^^^ ·) (bf_F t) (roundKeys t.bf_P).reverse
      (network (· ^^^ ·) (bf_F t) (roundKeys t.bf_P) (x.1 ^^^ t.bf_P 0, x.2)).swap =
      (x.1 ^^^ t.bf_P 0, x.2).swap := network_reverse xor_xor_cancel _ _
  rw [encipher_network, decipher_network]
  generalize network (· ^^^ ·) (bf_F t) (roundKeys t.bf_P) (x.1 ^^^ t.bf_P 0, x.2) = y at hback ⊢
  rcases y with ⟨l, r⟩
  simp only [Prod.swap_prod_mk] at hback
  simp only [xor_xor_cancel, hback]

theorem encipher_decipher (t : Tables) (x : Block) :
    Blowfish_encipher t (Blowfish_decipher t x) = x := by
  have hback : network (· ^^^ ·) (bf_F t) (roundKeys t.bf_P).reverse.reverse
      (network (· ^^^ ·) (bf_F t) (roundKeys t.bf_P).reverse (x.1 ^^^ t.bf_P 17, x.2)).swap =
      (x.1 ^^^ t.bf_P 17, x.2).swap := network_reverse xor_xor_cancel _ _
  rw [encipher_network, decipher_network]
  generalize network (· ^^^ ·) (bf_F t) (roundKeys t.bf_P).reverse (x.1 ^^^ t.bf_P 17, x.2) = y
    at hback ⊢
  rcases y with ⟨l, r⟩
  simp only [Prod.swap_prod_mk, List.reverse_reverse] at hback
  simp only [xor_xor_cancel, hback]

/-! ## Words and bytes -/

theorem aword_toNat (b0 b1 b2 b3 : Byte) :
    (aword b0 b1 b2 b3).toNat =
      ((b0.toNat * 256 + b1.toNat) * 256 + b2.toNat) * 256 + b3.toNat := by
  have h₀ := b0.toNat_lt
  have h₁ := b1.toNat_lt
  have h₂ := b2.toNat_lt
  have h₃ := b3.toNat_lt
  rw [aword, BitVec.toNat_ofNat, Nat.mod_eq_of_lt]
  omega

theorem wordBytes_aword (b0 b1 b2 b3 : Byte) : wordBytes (aword b0 b1 b2 b3) = [b3, b2, b1, b0] := by
  have h₀ := b0.toNat_lt
  have h₁ := b1.toNat_lt
  have h₂ := b2.toNat_lt
  have h₃ := b3.toNat_lt
  have hbyte3 : byte3 (aword b0 b1 b2 b3) = b3.toNat := by
    rw [byte3, aword_toNat]
    omega
  have hbyte2 : byte2 (aword b0 b1 b2 b3) = b2.toNat := by
    rw [byte2, aword_toNat]
    omega
  have hbyte1 : byte1 (aword b0 b1 b2 b3) = b1.toNat := by
    rw [byte1, aword_toNat]
    omega
  have hbyte0 : byte0 (aword b0 b1 b2 b3) = b0.toNat := by
    rw [byte0, aword_toNat]
    omega
  simp only [wordBytes, hbyte0, hbyte1, hbyte2, hbyte3, UInt8.ofNat_toNat]

theorem aword_bytes (x : UWORD) :
    aword (UInt8.ofNat (byte0 x)) (UInt8.ofNat (byte1 x)) (UInt8.ofNat (byte2 x))
      (UInt8.ofNat (byte3 x)) = x := by
  have hx := x.isLt
  apply BitVec.eq_of_toNat_eq
  simp only [aword_toNat, UInt8.toNat_ofNat', byte0, byte1, byte2, byte3]
  omega

/-- The eight bytes that `BLOWencrypt` writes for a block. -/
def blockBytes (y : Block) : List Byte := wordBytes y.2 ++ wordBytes y.1

theorem decryptLoop_block (t : Tables) (n : Nat) (e0 e1 e2 e3 e4 e5 e6 e7 : Byte)
    (p : List Byte) :
    decryptLoop t (n + 1)
        (blockBytes (Blowfish_encipher t (aword e3 e2 e1 e0, aword e7 e6 e5 e4)) ++ p) =
      e0 :: e1 :: e2 :: e3 :: e4 :: e5 :: e6 :: e7 :: decryptLoop t n p := by
  generalize hy : Blowfish_encipher t (aword e3 e2 e1 e0, aword e7 e6 e5 e4) = y
  have hback : Blowfish_decipher t (y.1, y.2) = (aword e3 e2 e1 e0, aword e7 e6 e5 e4) := by
    rw [← decipher_encipher t (aword e3 e2 e1 e0, aword e7 e6 e5 e4), hy]
  have hloop : decryptLoop t (n + 1) (blockBytes y ++ p) =
      wordBytes (Blowfish_decipher t (y.1, y.2)).1 ++
        wordBytes (Blowfish_decipher t (y.1, y.2)).2 ++ decryptLoop t n p := by
    rw [blockBytes, wordBytes, wordBytes]
    simp only [List.cons_append, List.nil_append, decryptLoop, aword_bytes]
  rw [hloop, hback, wordBytes_aword, wordBytes_aword]
  rfl

/-! ## Characters -/

theorem mem_base {n : Nat} (h : n < baselen) : base.getD n 0 ∈ base.take baselen := by
  have hle : baselen ≤ base.length := by decide
  have hlt : n < base.length := Nat.lt_of_lt_of_le h hle
  rw [List.getD_eq_getElem _ _ hlt]
  exact List.mem_take_iff_getElem.2 ⟨n, by omega, rfl⟩

theorem unhashWrong_hashdot (b : Byte) :
    unhashWrong (hashdot b.toNat).1 (hashdot b.toNat).2 = false := by
  have hb : b.toNat < 67 * 67 := Nat.lt_trans b.toNat_lt (by decide)
  have hhigh : base.getD (b.toNat / baselen) 0 ∈ base.take baselen :=
    mem_base (Nat.div_lt_of_lt_mul hb)
  have hlow : base.getD (b.toNat % baselen) 0 ∈ base.take baselen :=
    mem_base (Nat.mod_lt _ (by decide))
  rw [unhashWrong, decide_eq_false_iff_not, hashdot]
  rintro (h | h)
  · exact h hhigh
  · exact h hlow

/-- Every byte is two characters, and is found again. -/
theorem unhashLoop_hashstring (bs : List Byte) : unhashLoop (hashstring bs) = (bs, false) := by
  induction bs with
  | nil =>
      rfl
  | cons b bs ih =>
      have hround : unhashdot (hashdot b.toNat).1 (hashdot b.toNat).2 = b.toNat :=
        unhashdot_hashdot (Nat.lt_trans b.toNat_lt (by decide))
      have hcons : hashstring (b :: bs) =
          (hashdot b.toNat).1 :: (hashdot b.toNat).2 :: hashstring bs := rfl
      simp only [hcons, unhashLoop, hround, unhashWrong_hashdot, ih, UInt8.ofNat_toNat,
        Bool.false_eq_true, if_false]

theorem length_hashstring (bs : List Byte) : (hashstring bs).length = 2 * bs.length := by
  induction bs with
  | nil =>
      rfl
  | cons b bs ih =>
      simp only [hashstring, List.flatMap_cons, List.length_append, List.length_cons,
        List.length_nil] at ih ⊢
      omega

theorem hashstring_append (bs cs : List Byte) :
    hashstring (bs ++ cs) = hashstring bs ++ hashstring cs := by
  simp [hashstring]

/-! ## The loops -/

theorem encryptLoop_zeros (t : Tables) (m : Nat) : encryptLoop t (List.replicate m 0) = [] := by
  match m with
  | 0 | 1 | 2 | 3 | 4 | 5 | 6 | 7 =>
      rfl
  | m + 8 =>
      simp [List.replicate_succ, encryptLoop]

/-- One block, there and back. -/
theorem block_spec (t : Tables) {B : List Byte} (hlen : B.length = 8) (hne : B.head? ≠ some 0) :
    ∃ cs, cs.length = 8 ∧ (∀ p, encryptLoop t (B ++ p) = hashstring cs ++ encryptLoop t p) ∧
      ∀ n p, decryptLoop t (n + 1) (cs ++ p) = B ++ decryptLoop t n p := by
  match B, hlen with
  | [e0, e1, e2, e3, e4, e5, e6, e7], _ =>
      have he0 : ¬ e0 = 0 := fun h => hne (by simp [h])
      refine ⟨blockBytes (Blowfish_encipher t (aword e3 e2 e1 e0, aword e7 e6 e5 e4)), rfl, ?_, ?_⟩
      · intro p
        rw [blockBytes, hashstring_append]
        simp only [List.cons_append, List.nil_append, encryptLoop, he0, if_false]
      · intro n p
        exact decryptLoop_block t n e0 e1 e2 e3 e4 e5 e6 e7 p

/-- The number of blocks of a text. -/
def blocks (s : CStr) : Nat := (s.length + 7) / 8

/-- A text is enciphered block by block, and what is read back ends with zero bytes. -/
theorem encryptLoop_spec (t : Tables) (s : CStr) (hs : (0 : Byte) ∉ s) :
    ∃ bs zeros, encryptLoop t (s ++ List.replicate 9 0) = hashstring bs ∧
      bs.length = 8 * blocks s ∧
      ∀ p, decryptLoop t (blocks s) (bs ++ p) = s ++ List.replicate zeros 0 := by
  induction hn : blocks s generalizing s with
  | zero =>
      have hnil : s = [] := by
        rw [blocks] at hn
        exact List.length_eq_zero_iff.1 (by omega)
      exact ⟨[], 0, by simpa [hnil, hashstring] using encryptLoop_zeros t 9, by simp,
        fun p => by simp [hnil, decryptLoop]⟩
  | succ n ih =>
      have hhead : s.head? ≠ some 0 := fun h => hs (List.mem_of_head? h)
      have hpos : 0 < s.length := by
        rw [blocks] at hn
        omega
      by_cases hlen : 8 ≤ s.length
      · -- A whole block, and the text behind it.
        have hblock : (s.take 8).length = 8 := by rw [List.length_take]; omega
        have hfirst : (s.take 8).head? ≠ some 0 := by
          rwa [List.head?_take, if_neg (by decide)]
        have hrest : blocks (s.drop 8) = n := by
          rw [blocks, List.length_drop]
          rw [blocks] at hn
          omega
        rcases block_spec t hblock hfirst with ⟨cs, hcs, henc, hdec⟩
        rcases ih (s.drop 8) (fun h => hs (List.mem_of_mem_drop h)) hrest with
          ⟨bs, zeros, henc', hlen', hdec'⟩
        refine ⟨cs ++ bs, zeros, ?_, by simp only [List.length_append]; omega, ?_⟩
        · rw [hashstring_append, ← henc', ← henc, ← List.append_assoc, List.take_append_drop]
        · intro p
          rw [List.append_assoc, hdec, hdec', ← List.append_assoc, List.take_append_drop]
      · -- The last block is filled up with zero bytes.
        have hzeros : List.replicate (8 - s.length) (0 : Byte) ++
            List.replicate (s.length + 1) 0 = List.replicate 9 0 := by
          rw [List.replicate_append_replicate]
          congr 1
          omega
        have hblock : (s ++ List.replicate (8 - s.length) 0).length = 8 := by
          rw [List.length_append, List.length_replicate]
          omega
        have hfirst : (s ++ List.replicate (8 - s.length) 0).head? ≠ some 0 := by
          rcases List.exists_cons_of_length_pos hpos with ⟨b, s', rfl⟩
          exact hhead
        have hn0 : n = 0 := by
          rw [blocks] at hn
          omega
        rcases block_spec t hblock hfirst with ⟨cs, hcs, henc, hdec⟩
        refine ⟨cs, 8 - s.length, ?_, by omega, ?_⟩
        · rw [← hzeros, ← List.append_assoc, henc, encryptLoop_zeros, List.append_nil]
        · intro p
          have hend : decryptLoop t 0 p = [] := by simp [decryptLoop]
          rw [hn0, hdec, hend, List.append_nil]

/-! ## The length of the text -/

theorem takeWhile_append_zeros {s : CStr} (hs : (0 : Byte) ∉ s) (n : Nat) :
    (s ++ List.replicate n 0).takeWhile (· ≠ 0) = s := by
  have hself : s.takeWhile (· ≠ 0) = s := by
    refine List.takeWhile_eq_self_iff.2 fun b hb => ?_
    simpa using fun h0 : b = 0 => hs (h0 ▸ hb)
  rw [List.takeWhile_append, hself, if_pos rfl]
  cases n with
  | zero =>
      simp
  | succ n =>
      simp [List.replicate_succ]

/-- The tables do not matter: the text comes back when the number of its characters, halved, is an
`int`. -/
theorem decrypt_encrypt_iff (t : Tables) {s : CStr} (hs : (0 : Byte) ∉ s) :
    BLOWdecrypt t (BLOWencrypt t s) = some s ↔ s.length + 8 ≤ 2 ^ 31 := by
  rcases encryptLoop_spec t s hs with ⟨bs, zeros, henc, hlen, hdec⟩
  have hsize : unhashSize (hashstring bs) = 8 * blocks s + 11 := by
    rw [unhashSize, length_hashstring, hlen]
    omega
  have hhalf : (hashstring bs).length / 2 = 8 * blocks s := by
    rw [length_hashstring, hlen]
    omega
  have hfits : s.length + 8 ≤ 2 ^ 31 ↔ 8 * blocks s < 2 ^ 31 := by
    rw [blocks]
    omega
  simp only [BLOWencrypt, BLOWdecrypt, henc, unhashLoop_hashstring, hsize, hhalf]
  rw [hfits]
  by_cases hbig : 2 ^ 32 ≤ 8 * blocks s + 11
  · rw [if_pos hbig]
    constructor
    · intro h
      cases h
    · intro h
      omega
  · rw [if_neg hbig]
    simp only [Bool.false_eq_true, if_false, Option.some.injEq]
    constructor
    · intro h
      by_contra hlong
      -- A negative `ln` ends the loop at once.
      have hneg : (BitVec.ofNat 32 (8 * blocks s)).toInt = 8 * blocks s - 2 ^ 32 := by
        rw [BitVec.toInt_ofNat', Int.bmod_def]
        omega
      have hrounds : ((8 * (blocks s : Int) - 2 ^ 32 + 7) / 8).toNat = 0 := by omega
      rw [hneg, hrounds] at h
      simp only [decryptLoop, List.takeWhile_nil] at h
      rw [← h] at hlong
      exact hlong (by decide)
    · intro h
      have hln : (BitVec.ofNat 32 (8 * blocks s)).toInt = 8 * blocks s := by
        rw [BitVec.toInt_ofNat', Int.bmod_def]
        omega
      have hrounds : ((8 * (blocks s : Int) + 7) / 8).toNat = blocks s := by omega
      rw [hln, hrounds, hdec]
      exact takeWhile_append_zeros hs zeros

/-! ## The length of the key -/

section Keys

variable {key : List Byte} {m : Nat}

theorem keyData_isSome {j : Nat} (hj : j < m) (hm : m ≤ key.length) :
    (keyData key j m).isSome = true := by
  have hpos : 0 < m := by omega
  have hget : ∀ n, n < m → ∃ b, key[n]? = some b := by
    intro n hn
    exact ⟨key[n], List.getElem?_eq_getElem (Nat.lt_of_lt_of_le hn hm)⟩
  rcases hget j hj with ⟨b0, h₀⟩
  rcases hget ((j + 1) % m) (Nat.mod_lt _ hpos) with ⟨b1, h₁⟩
  rcases hget ((j + 2) % m) (Nat.mod_lt _ hpos) with ⟨b2, h₂⟩
  rcases hget ((j + 3) % m) (Nat.mod_lt _ hpos) with ⟨b3, h₃⟩
  simp [keyData, Nat.pos_iff_ne_zero.1 hpos, h₀, h₁, h₂, h₃]

/-- A key that is as long as the remainders are taken by is never left. -/
theorem mixKey_isSome (hm : m ≤ key.length) (is : List Nat) (s : Nat × Tables) (hs : s.1 < m) :
    (is.foldlM (mixKey key m) s).isSome = true := by
  induction is generalizing s with
  | nil =>
      rfl
  | cons i is ih =>
      rcases Option.isSome_iff_exists.1 (keyData_isSome hs hm) with ⟨data, hdata⟩
      simp only [List.foldlM_cons, mixKey, hdata, Option.map_some, Option.bind_eq_bind,
        Option.bind_some]
      exact ih _ (Nat.mod_lt _ (by omega))

theorem mixKey_zero (s : Nat × Tables) (i : Nat) (is : List Nat) :
    (i :: is).foldlM (mixKey key 0) s = none := by
  simp [List.foldlM_cons, mixKey, keyData]

/-- The variable `j` after `n` rounds. -/
theorem mixKey_index {t : Tables} {n : Nat} {s : Nat × Tables}
    (h : (List.range n).foldlM (mixKey key m) (0, t) = some s) : s.1 = 4 * n % m := by
  induction n generalizing s with
  | zero =>
      cases h
      simp
  | succ n ih =>
      rw [List.range_succ, List.foldlM_append] at h
      rcases Option.bind_eq_some_iff.1 h with ⟨s', hs', hlast⟩
      have hlast' : mixKey key m s' n = some s := by simpa using hlast
      rcases Option.map_eq_some_iff.1 hlast' with ⟨data, _, rfl⟩
      rw [ih hs', Nat.mod_add_mod, Nat.mul_succ]

/-- Behind byte 64 there is no key. -/
theorem mixKey_far (hkey : key.length ≤ 65) (hm : 68 ≤ m) (t : Tables) :
    (List.range 18).foldlM (mixKey key m) (0, t) = none := by
  have hrange : List.range 18 = List.range 16 ++ [16, 17] := by decide
  rw [hrange, List.foldlM_append]
  cases h : (List.range 16).foldlM (mixKey key m) (0, t) with
  | none =>
      rfl
  | some s =>
      have hj : s.1 = 64 := by
        rw [mixKey_index h, Nat.mod_eq_of_lt (by omega)]
      have hnext : key[(64 + 1) % m]? = none := by
        rw [Nat.mod_eq_of_lt (by omega)]
        exact List.getElem?_eq_none hkey
      have hdata : keyData key s.1 m = none := by
        rw [hj, keyData, if_neg (by omega), hnext]
        cases key[64]? with
        | none =>
            rfl
        | some b =>
            rfl
      simp [List.foldlM_cons, mixKey, hdata]

/-- Only the first bytes of the key count. -/
theorem mixKey_congr {key' : List Byte} (h : ∀ n < m, key[n]? = key'[n]?) (is : List Nat)
    (s : Nat × Tables) (hs : s.1 < m) :
    is.foldlM (mixKey key m) s = is.foldlM (mixKey key' m) s := by
  induction is generalizing s with
  | nil =>
      rfl
  | cons i is ih =>
      have hpos : 0 < m := by omega
      have hdata : keyData key s.1 m = keyData key' s.1 m := by
        simp only [keyData, h s.1 hs, h _ (Nat.mod_lt _ hpos)]
      simp only [List.foldlM_cons, mixKey, hdata, Option.bind_eq_bind]
      cases hd : keyData key' s.1 m with
      | none =>
          rfl
      | some data =>
          exact ih _ (Nat.mod_lt _ hpos)

end Keys

/-- The length of the key, rounded up as a `short`, is positive, or not so far below zero that a
remainder leaves `ek`. -/
def KeyFits (key : CStr) : Prop :=
  let n := (key.length + 4) / 4 * 4 % 65536
  (0 < n ∧ n < 32768) ∨ 65472 ≤ n

theorem keyFits_of_short {key : CStr} (h : key.length < 1000) : KeyFits key := by
  refine Or.inl ⟨?_, ?_⟩ <;> omega

section KeyFits

variable (key : CStr)

/-- What the remainders are taken by. -/
def keyModulus (keybytes : Int) : Nat := (if 56 < keybytes then 56 else keybytes).natAbs

/-- The loops that fill the tables. -/
def fillTables (t : Tables) : Tables :=
  ((List.range 4).foldl (fun s i => (evens 128).foldl (fillS i) s)
    ((evens 9).foldl fillP (t, (0, 0)))).1

theorem InitializeBlowfish_mixKey (ek : List Byte) (keybytes : Int) :
    InitializeBlowfish ek keybytes =
      ((List.range 18).foldlM (mixKey ek (keyModulus keybytes)) (0, initTables)).map
        fun s => fillTables s.2 := rfl

theorem kbytes_eq : kbytes key = (((key.length + 4) / 4 * 4 : Nat) : Int).bmod 65536 :=
  BitVec.toInt_ofNat' _

theorem length_spacedKey (n : Nat) : (spacedKey key n).length = min 64 (key.length + n) + 1 := by
  simp [spacedKey, length_clip]

theorem getElem?_spacedKey {blanks n : Nat} (hn : n < 60) (hblanks : 60 ≤ blanks) :
    (spacedKey key blanks)[n]? = if n < key.length then key[n]? else some SP := by
  have hlen : (clip 65 (key ++ List.replicate blanks SP)).length = min 64 (key.length + blanks) := by
    simp [length_clip]
  rw [spacedKey, List.getElem?_append_left (by omega), clip, List.getElem?_take_of_lt (by omega)]
  by_cases h : n < key.length
  · rw [List.getElem?_append_left h, if_pos h]
  · rw [List.getElem?_append_right (by omega), List.getElem?_replicate_of_lt (by omega), if_neg h]

/-- Both formats put enough blanks behind the key. -/
theorem InitializeBlowfish_spacedKey :
    InitializeBlowfish (spacedKey key 61) (kbytes key) =
      InitializeBlowfish (spacedKey key 60) (kbytes key) := by
  by_cases hlong : 4 ≤ key.length
  · -- The buffer is full either way.
    have hblanks : List.replicate 61 SP = List.replicate 60 SP ++ [SP] := by decide
    have hlen : 64 ≤ (key ++ List.replicate 60 SP).length := by
      rw [List.length_append, List.length_replicate]
      omega
    have hkey : spacedKey key 61 = spacedKey key 60 := by
      rw [spacedKey, spacedKey, hblanks, ← List.append_assoc, clip, clip,
        List.take_append_of_le_length hlen]
    rw [hkey]
  · have hfour : (key.length + 4) / 4 * 4 = 4 := by omega
    have hmodulus : keyModulus (kbytes key) = 4 := by
      rw [kbytes_eq, hfour]
      rfl
    have hagree : ∀ n < 4, (spacedKey key 61)[n]? = (spacedKey key 60)[n]? := by
      intro n hn
      rw [getElem?_spacedKey key (by omega) (by omega), getElem?_spacedKey key (by omega) (by omega)]
    rw [InitializeBlowfish_mixKey, InitializeBlowfish_mixKey, hmodulus,
      mixKey_congr hagree _ _ (by decide)]

theorem InitializeBlowfish_isSome_iff :
    (InitializeBlowfish (spacedKey key 60) (kbytes key)).isSome = true ↔ KeyFits key := by
  have hlen := length_spacedKey key 60
  have hkbytes := kbytes_eq key
  rw [Int.bmod_def] at hkbytes
  rw [InitializeBlowfish_mixKey, Option.isSome_map]
  by_cases hzero : kbytes key = 0
  · -- A remainder by zero.
    have hmodulus : keyModulus (kbytes key) = 0 := by
      rw [hzero]
      rfl
    have hnone : (List.range 18).foldlM (mixKey (spacedKey key 60) 0) (0, initTables) = none :=
      mixKey_zero _ _ _
    have hno : ¬ KeyFits key := by
      simp only [KeyFits]
      omega
    rw [hmodulus, hnone]
    simpa using hno
  · by_cases hfar : kbytes key < -64
    · have hmodulus : 68 ≤ keyModulus (kbytes key) := by
        rw [keyModulus, if_neg (by omega)]
        omega
      have hno : ¬ KeyFits key := by
        simp only [KeyFits]
        omega
      rw [mixKey_far (by omega) hmodulus]
      simpa using hno
    · have hfits : KeyFits key := by
        simp only [KeyFits]
        omega
      have hpos : 0 < keyModulus (kbytes key) := by
        rw [keyModulus]
        split
        · decide
        · omega
      have hle : keyModulus (kbytes key) ≤ (spacedKey key 60).length := by
        rw [keyModulus]
        split
        · omega
        · omega
      simp [mixKey_isSome hle (List.range 18) (0, initTables) hpos, hfits]

end KeyFits

/-! ## Texts -/

theorem blowfish_roundTrip (s key : CStr) (hs : (0 : Byte) ∉ s) :
    (∀ t x, Blowfish_decipher t (Blowfish_encipher t x) = x ∧
      Blowfish_encipher t (Blowfish_decipher t x) = x) ∧
      (((BLOW_stringencrypt s key).bind fun c => BLOW_stringdecrypt c key) = some s ↔
        KeyFits key ∧ s.length + 8 ≤ 2 ^ 31) := by
  refine ⟨fun t x => ⟨decipher_encipher t x, encipher_decipher t x⟩, ?_⟩
  rw [← InitializeBlowfish_isSome_iff]
  simp only [BLOW_stringencrypt, BLOW_stringdecrypt, InitializeBlowfish_spacedKey]
  cases h : InitializeBlowfish (spacedKey key 60) (kbytes key) with
  | none =>
      simp
  | some t =>
      simpa using decrypt_encrypt_iff t hs

theorem blowfish_roundTrip_hello :
    ((BLOW_stringencrypt (ascii "hello") (ascii "secret")).bind
      fun c => BLOW_stringdecrypt c (ascii "secret")) = some (ascii "hello") :=
  (blowfish_roundTrip (ascii "hello") (ascii "secret") (by decide)).2.2
    ⟨Or.inl (by decide), by decide⟩

/-- With a key of 65532 bytes a remainder by zero is taken. -/
theorem blowfish_longKey :
    (0 : Byte) ∉ ascii "hello" ∧
      ((BLOW_stringencrypt (ascii "hello") (List.replicate 65532 97)).bind
        fun c => BLOW_stringdecrypt c (List.replicate 65532 97)) = none := by
  have hmodulus : keyModulus (kbytes (List.replicate 65532 97)) = 0 := by
    rw [kbytes_eq, List.length_replicate]
    rfl
  have hnone : (List.range 18).foldlM (mixKey (spacedKey (List.replicate 65532 97) 61) 0)
      (0, initTables) = none := mixKey_zero _ _ _
  refine ⟨by decide, ?_⟩
  rw [BLOW_stringencrypt, InitializeBlowfish_mixKey, hmodulus, hnone]
  rfl

end PsyBnc
