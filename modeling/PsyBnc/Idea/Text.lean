import PsyBnc.Blowfish.Text
import PsyBnc.Idea.Inverse
import PsyBnc.Lib.Buffer

/-!
# Ciphered texts come back

A block is eight bytes, the last one is filled with zeros, and the text ends at the first of them.
-/

namespace PsyBnc

open CLib

/-! ## Bytes and words -/

theorem toNat_swapBytes (x : UShort) :
    (swapBytes x).toNat = 256 * (x.toNat % 256) + x.toNat / 256 := by
  have hhigh : (x >>> 8).toNat = x.toNat / 2 ^ 8 := by
    rw [BitVec.toNat_ushiftRight, Nat.shiftRight_eq_div_pow]
  have hlow : (x <<< 8).toNat = 2 ^ 8 * (x.toNat % 256) := by
    rw [BitVec.toNat_shiftLeft, Nat.shiftLeft_eq]
    omega
  have hlt : x.toNat / 2 ^ 8 < 2 ^ 8 := by
    have hx := x.isLt
    omega
  rw [swapBytes, BitVec.toNat_or, hhigh, hlow, Nat.or_comm]
  exact (Nat.two_pow_add_eq_or_of_lt hlt _).symm

theorem swapBytes_swapBytes (x : UShort) : swapBytes (swapBytes x) = x := by
  apply BitVec.eq_of_toNat_eq
  have hx := x.isLt
  rw [toNat_swapBytes, toNat_swapBytes]
  omega

theorem loadShort_bytes (x : UShort) :
    loadShort (UInt8.ofNat (x.toNat % 256)) (UInt8.ofNat (x.toNat / 256)) = x := by
  apply BitVec.eq_of_toNat_eq
  have hx := x.isLt
  simp only [loadShort, BitVec.toNat_ofNat, UInt8.toNat_ofNat']
  omega

theorem storeShort_loadShort (b0 b1 : Byte) : storeShort (loadShort b0 b1) = [b0, b1] := by
  have h0 : b0.toNat < 256 := b0.toNat_lt
  have h1 : b1.toNat < 256 := b1.toNat_lt
  have hload : (loadShort b0 b1).toNat = b1.toNat * 256 + b0.toNat := by
    rw [loadShort, BitVec.toNat_ofNat]
    exact Nat.mod_eq_of_lt (by omega)
  have hlow : (b1.toNat * 256 + b0.toNat) % 256 = b0.toNat := by omega
  have hhigh : (b1.toNat * 256 + b0.toNat) / 256 = b1.toNat := by omega
  rw [storeShort, hload, hlow, hhigh, UInt8.ofNat_toNat, UInt8.ofNat_toNat]

/-! ## Blocks -/

/-- The words that `cipher` reads. -/
def loadBlock (inbuf : Nat → Byte) : IdeaBlock :=
  ⟨swapBytes (loadShort (inbuf 0) (inbuf 1)), swapBytes (loadShort (inbuf 2) (inbuf 3)),
    swapBytes (loadShort (inbuf 4) (inbuf 5)), swapBytes (loadShort (inbuf 6) (inbuf 7))⟩

/-- The bytes that it writes. -/
def storeBlock (x : IdeaBlock) : List Byte :=
  storeShort (swapBytes x.x1) ++ storeShort (swapBytes x.x2) ++ storeShort (swapBytes x.x3) ++
    storeShort (swapBytes x.x4)

theorem cipher_eq (inbuf : Nat → Byte) (key : Nat → UShort) :
    cipher inbuf key = storeBlock (cipherLoop IDEAROUNDS key (loadBlock inbuf)) := rfl

theorem length_storeBlock (x : IdeaBlock) : (storeBlock x).length = 8 := rfl

theorem loadBlock_storeBlock (x : IdeaBlock) (rest : List Byte) :
    loadBlock (bytesFrom 0 (storeBlock x ++ rest)) = x := by
  simp only [loadBlock, bytesFrom, storeBlock, storeShort, List.cons_append, List.nil_append,
    Nat.zero_add, List.getD_cons_zero, List.getD_cons_succ, loadShort_bytes, swapBytes_swapBytes]

theorem storeBlock_loadBlock (inbuf : Nat → Byte) :
    storeBlock (loadBlock inbuf) = (List.range 8).map inbuf := by
  simp only [storeBlock, loadBlock, swapBytes_swapBytes, storeShort_loadShort]
  rfl

/-- A block comes back, with whatever stands behind it. -/
theorem cipher_cipher {ek dk : Nat → UShort}
    (h : ∀ x, cipherLoop IDEAROUNDS dk (cipherLoop IDEAROUNDS ek x) = x)
    (inbuf : Nat → Byte) (rest : List Byte) :
    cipher (bytesFrom 0 (cipher inbuf ek ++ rest)) dk = (List.range 8).map inbuf := by
  rw [cipher_eq, cipher_eq, loadBlock_storeBlock, h, storeBlock_loadBlock]

/-- The sub-keys and the rounds give the test values of the cipher. -/
example : cipher (bytesFrom 0 [0, 0, 0, 1, 0, 2, 0, 3])
    (encryptionKey (bytesFrom 0 [0, 1, 0, 2, 0, 3, 0, 4, 0, 5, 0, 6, 0, 7, 0, 8])) =
      [0x11, 0xFB, 0xED, 0x2B, 0x01, 0x98, 0x6D, 0xE5] := by
  decide +kernel

theorem length_blocksLoop (key : Nat → UShort) (n : Nat) :
    ∀ input, (blocksLoop key n input).length = 8 * n := by
  induction n with
  | zero =>
      intro input
      rfl
  | succ n ih =>
      intro input
      rw [blocksLoop, List.length_append, ih, cipher_eq, length_storeBlock]
      omega

theorem padded_eq_map {n : Nat} {s : List Byte} (h : s.length ≤ n) :
    padded n s = (List.range n).map (bytesFrom 0 s) := by
  apply List.ext_getElem
  · rw [length_padded h, List.length_map, List.length_range]
  · intro i hi hi'
    rw [List.getElem_map, List.getElem_range, bytesFrom, Nat.zero_add]
    by_cases hlt : i < s.length
    · simp [padded, List.getElem_append_left hlt, hlt]
    · simp [padded, List.getElem_append_right (Nat.le_of_not_lt hlt), hlt]

/-- The first eight bytes of a buffer, and the ones behind them. -/
theorem padded_split (n : Nat) (input : List Byte) (hn : input.length ≤ 8 * (n + 1)) :
    padded (8 * (n + 1)) input =
      (List.range 8).map (bytesFrom 0 input) ++ padded (8 * n) (input.drop 8) := by
  have hrest : (input.drop 8).length ≤ 8 * n := by
    rw [List.length_drop]
    omega
  have hsize : 8 * (n + 1) = 8 + 8 * n := by omega
  rw [padded_eq_map hn, padded_eq_map hrest, hsize, List.range_add, List.map_append, List.map_map]
  congr 1
  apply List.map_congr_left
  intro i _
  simp [bytesFrom]

theorem blocksLoop_undo {ek dk : Nat → UShort}
    (h : ∀ x, cipherLoop IDEAROUNDS dk (cipherLoop IDEAROUNDS ek x) = x) (n : Nat) :
    ∀ input : List Byte, input.length ≤ 8 * n →
      blocksLoop dk n (blocksLoop ek n input) = padded (8 * n) input := by
  induction n with
  | zero =>
      intro input hn
      have hnil : input = [] := List.eq_nil_of_length_eq_zero (by omega)
      rw [hnil]
      rfl
  | succ n ih =>
      intro input hn
      have hdrop : (cipher (bytesFrom 0 input) ek ++ blocksLoop ek n (input.drop 8)).drop 8 =
          blocksLoop ek n (input.drop 8) := List.drop_left' (length_storeBlock _)
      have hrest : (input.drop 8).length ≤ 8 * n := by
        rw [List.length_drop]
        omega
      simp only [padded_split n input hn, blocksLoop, cipher_cipher h, hdrop, ih _ hrest]

/-! ## Texts -/

theorem cutEnd_eq_self {s : CStr} (hcr : CR ∉ s) (hlf : LF ∉ s) : cutEnd s = s := by
  rw [cutEnd, cutAt_eq_none.2 hlf, cutAt_eq_none.2 hcr]

/-- Hashed bytes are characters of `base`. -/
theorem mem_hashstring {bs : List Byte} {c : Byte} (hc : c ∈ hashstring bs) : c ∈ base := by
  rcases List.mem_flatMap.1 hc with ⟨b, _, hb⟩
  have hlt : b.toNat < 67 * 67 := Nat.lt_trans b.toNat_lt (by decide)
  have hhigh : (hashdot b.toNat).1 ∈ base.take baselen := mem_base (Nat.div_lt_of_lt_mul hlt)
  have hlow : (hashdot b.toNat).2 ∈ base.take baselen := mem_base (Nat.mod_lt _ (by decide))
  rcases List.mem_cons.1 hb with rfl | hb
  · exact List.mem_of_mem_take hhigh
  · rw [List.mem_singleton.1 hb]
    exact List.mem_of_mem_take hlow

theorem cutEnd_hashstring (bs : List Byte) : cutEnd (hashstring bs) = hashstring bs := by
  have hcr : CR ∉ base := by decide +kernel
  have hlf : LF ∉ base := by decide +kernel
  exact cutEnd_eq_self (fun h => hcr (mem_hashstring h)) (fun h => hlf (mem_hashstring h))

theorem length_cipherBlocks (key : Nat → UShort) (input : List Byte) :
    (cipherBlocks key input).length = 8 * ((input.length + 7) / 8) := length_blocksLoop key _ input

/-- The blocks of a buffer come back, with zeros behind them. -/
theorem cipherBlocks_undo {ek dk : Nat → UShort}
    (h : ∀ x, cipherLoop IDEAROUNDS dk (cipherLoop IDEAROUNDS ek x) = x) (input : List Byte) :
    cipherBlocks dk (cipherBlocks ek input) = padded (8 * ((input.length + 7) / 8)) input := by
  have hcount : (8 * ((input.length + 7) / 8) + 7) / 8 = (input.length + 7) / 8 := by omega
  have hundo := blocksLoop_undo h ((input.length + 7) / 8) input (by omega)
  rw [cipherBlocks, length_cipherBlocks, hcount]
  exact hundo

/-- A ciphered text that is not empty. -/
theorem stringdecrypt_hashstring {ek dk : Nat → UShort} {s key : CStr} (wrong : Bool)
    (h : ∀ x, cipherLoop IDEAROUNDS dk (cipherLoop IDEAROUNDS ek x) = x) (hnul : 0 ∉ s)
    (hkeys : IDEA_keyset key = some (ek, dk)) :
    IDEA_stringdecrypt wrong (hashstring (cipherBlocks ek (s ++ [0]))) key = some s := by
  have hblocks := cipherBlocks_undo h (s ++ [0])
  have hcount := length_cipherBlocks ek (s ++ [0])
  have hpos : 1 ≤ (s ++ [0]).length := by simp
  generalize cipherBlocks ek (s ++ [0]) = bs at hblocks hcount ⊢
  have hlength := length_hashstring bs
  have hne : hashstring bs ≠ [] := by
    intro hnil
    rw [hnil, List.length_nil] at hlength
    omega
  have hlong : ¬ (hashstring bs).length < 2 := by omega
  have htext : (padded (8 * (((s ++ [0]).length + 7) / 8)) (s ++ [0])).takeWhile (· ≠ 0) = s := by
    have hzeros : padded (8 * (((s ++ [0]).length + 7) / 8)) (s ++ [0]) =
        s ++ List.replicate (8 * (((s ++ [0]).length + 7) / 8) - (s ++ [0]).length + 1) 0 := by
      rw [padded, List.append_assoc, List.replicate_succ]
      rfl
    rw [hzeros]
    exact takeWhile_append_zeros hnul _
  simp only [IDEA_stringdecrypt, cutEnd_hashstring, unhashstring, hlong, unhashLoop_hashstring,
    hkeys, hne, hblocks, if_false, Bool.false_eq_true, Option.map_some]
  rw [htext]

/-- For each key of 16 bytes the decryption keys are found and undo the rounds; a text without a line
end comes back. -/
theorem idea_roundTrip :
    (∀ x y : UShort, residue (IDEA_MUL x y) = residue x * residue y) ∧
    (∀ ek : Nat → UShort, ∃ dk, decryptionKey ek = some dk ∧
      ∀ (inbuf : Nat → Byte) (rest : List Byte),
        cipher (bytesFrom 0 (cipher inbuf ek ++ rest)) (arrayOf dk) = (List.range 8).map inbuf) ∧
    ∀ (s key : CStr) (wrong : Bool), 0 ∉ s → CR ∉ s → LF ∉ s → 16 ≤ key.length →
      (IDEA_stringencrypt s key).bind (fun hashed => IDEA_stringdecrypt wrong hashed key) = some s := by
  refine ⟨residue_IDEA_MUL, fun ek => ?_, fun s key wrong hnul hcr hlf hkey => ?_⟩
  · rcases cipherLoop_undo ek with ⟨dk, hdk, hundo⟩
    exact ⟨dk, hdk, fun inbuf rest => cipher_cipher hundo inbuf rest⟩
  · rcases cipherLoop_undo (encryptionKey (bytesFrom 0 key)) with ⟨dk, hdk, hundo⟩
    have hkeys : IDEA_keyset key = some (encryptionKey (bytesFrom 0 key), arrayOf dk) := by
      simp only [IDEA_keyset, if_neg (by omega : ¬ key.length + 1 < 16), hdk, Option.map_some]
    simp only [IDEA_stringencrypt, hkeys, Option.map_some, Option.bind_some, cutEnd_eq_self hcr hlf]
    by_cases hs : s = []
    · -- no byte is ciphered, and `wrong` may be left over
      subst hs
      cases wrong with
      | false =>
          simp [IDEA_stringdecrypt, cutEnd, unhashstring, unhashLoop, hkeys]
      | true =>
          simp [IDEA_stringdecrypt, cutEnd, unhashstring, unhashLoop]
    · rw [if_neg hs]
      exact stringdecrypt_hashstring wrong hundo hnul hkeys

theorem idea_roundTrip_hello :
    (IDEA_stringencrypt (ascii "hello") (ascii "0123456789abcdef")).bind
      (fun hashed => IDEA_stringdecrypt true hashed (ascii "0123456789abcdef")) =
        some (ascii "hello") :=
  idea_roundTrip.2.2 _ _ true (by decide +kernel) (by decide +kernel) (by decide +kernel)
    (by decide +kernel)

end PsyBnc
