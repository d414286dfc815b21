import PsyBnc.Userfile.User
import PsyBnc.Blowfish.Evaluate

/-!
# Which passwords have the same hash

The key of a password is padded with blanks to whole words, and cut to 56 bytes.  Only the 18 words
that it gives when it is repeated matter.  The hash starts with the first eight bytes of the salts,
enciphered under the password, and its first sixteen characters survive in `pass[20]`.
-/

namespace PsyBnc

open CLib

variable {salt : Salt} {pass pass' : CStr}

/-! ## The key -/

/-- The bytes of the key. -/
def paddedKey (pass : CStr) : CStr :=
  (pass ++ List.replicate 60 SP).take (min 56 ((pass.length + 4) / 4 * 4))

theorem length_paddedKey (pass : CStr) :
    (paddedKey pass).length = min 56 ((pass.length + 4) / 4 * 4) := by
  rw [paddedKey, List.length_take, List.length_append, List.length_replicate]
  omega

theorem paddedKey_ne_nil (pass : CStr) : paddedKey pass ≠ [] := by
  intro hnil
  have hpadded := length_paddedKey pass
  rw [hnil, List.length_nil] at hpadded
  omega

/-- Both keys have the same first bytes. -/
theorem getElem?_paddedKey {n : Nat} (hn : n < (paddedKey pass).length) :
    (spacedKey pass 60)[n]? = (paddedKey pass)[n]? := by
  rw [length_paddedKey] at hn
  rw [getElem?_spacedKey pass (by omega) (by omega), paddedKey, List.getElem?_take_of_lt hn]
  by_cases h : n < pass.length
  · rw [if_pos h, List.getElem?_append_left h]
  · rw [if_neg h, List.getElem?_append_right (by omega), List.getElem?_replicate_of_lt (by omega)]

theorem InitializeBlowfish_paddedKey (hlen : pass.length < 32764) :
    InitializeBlowfish (spacedKey pass 61) (kbytes pass) =
      InitializeBlowfish (paddedKey pass) (paddedKey pass).length := by
  have hpadded := length_paddedKey pass
  have hmodulus : keyModulus (kbytes pass) = (paddedKey pass).length := by
    rw [keyModulus, kbytes_eq, hpadded, Int.bmod_def]
    omega
  have hmodulus' : keyModulus ((paddedKey pass).length : Int) = (paddedKey pass).length := by
    rw [keyModulus, if_neg (by omega), Int.natAbs_natCast]
  rw [InitializeBlowfish_spacedKey, InitializeBlowfish_mixKey, InitializeBlowfish_mixKey, hmodulus,
    hmodulus', mixKey_congr (fun n hn => getElem?_paddedKey hn)]
  show 0 < (paddedKey pass).length
  omega

/-- The tables of a password encipher as the function of the padded key does. -/
theorem hashOf_padded (salt : Salt) (hlen : pass.length < 32764) :
    ∃ t, hashOf salt pass = some (EQUALS :: BLOWencrypt t (salt.slt1 ++ salt.slt2)) ∧
      ∀ x, Blowfish_encipher t x = blowfish oneTableF initialWords (paddedKey pass) x := by
  have hpadded := length_paddedKey pass
  rcases Blowfish_encipher_eq (paddedKey_ne_nil pass) (by omega) with ⟨t, ht, hencipher⟩
  refine ⟨t, ?_, hencipher⟩
  rw [hashOf, BLOW_stringencrypt, InitializeBlowfish_paddedKey hlen, ht]
  rfl

/-- The words that the password mixes into `bf_P`. -/
def keyWords (pass : CStr) : List UWORD := (List.range 18).map (keyWord (paddedKey pass))

/-- Passwords that give the same words have the same hash. -/
theorem hashOf_congr (salt : Salt) (hlen : pass.length < 32764) (hlen' : pass'.length < 32764)
    (h : keyWords pass = keyWords pass') : hashOf salt pass = hashOf salt pass' := by
  have hword : ∀ i < 18, keyWord (paddedKey pass) i = keyWord (paddedKey pass') i := by
    intro i hi
    exact List.map_inj_left.1 h i (List.mem_range.2 hi)
  have htables : mixedTables (paddedKey pass) initTables 18 =
      mixedTables (paddedKey pass') initTables 18 := by
    simp only [mixedTables, Tables.mk.injEq, and_true]
    funext i
    by_cases hi : i < 18
    · rw [if_pos hi, if_pos hi, hword i hi]
    · rw [if_neg hi, if_neg hi]
  have hinit : ∀ p : CStr, InitializeBlowfish (paddedKey p) (paddedKey p).length =
      some (fillTables (mixedTables (paddedKey p) initTables 18)) := by
    intro p
    have hpadded := length_paddedKey p
    rw [InitializeBlowfish_mixKey, keyModulus, if_neg (by omega), Int.natAbs_natCast,
      foldlM_mixKey (paddedKey_ne_nil p), Option.map_some]
  rw [hashOf, hashOf, BLOW_stringencrypt, BLOW_stringencrypt, InitializeBlowfish_paddedKey hlen,
    InitializeBlowfish_paddedKey hlen', hinit, hinit, htables]

/-! ## The first block -/

theorem hashstring_inj {bs cs : List Byte} (h : hashstring bs = hashstring cs) : bs = cs := by
  have hun := congrArg unhashLoop h
  rw [unhashLoop_hashstring, unhashLoop_hashstring] at hun
  exact congrArg Prod.fst hun

theorem wordBytes_inj {x y : UWORD} (h : wordBytes x = wordBytes y) : x = y := by
  have hbytes : ∀ x, ∃ b0 b1 b2 b3, wordBytes x = [b3, b2, b1, b0] ∧ aword b0 b1 b2 b3 = x :=
    fun x => ⟨_, _, _, _, rfl, aword_bytes x⟩
  rcases hbytes x with ⟨b0, b1, b2, b3, hx, hax⟩
  rcases hbytes y with ⟨c0, c1, c2, c3, hy, hay⟩
  rw [hx, hy] at h
  simp only [List.cons.injEq, and_true] at h
  rcases h with ⟨rfl, rfl, rfl, rfl⟩
  exact hax.symm.trans hay

theorem blockBytes_inj {x y : Block} (h : blockBytes x = blockBytes y) : x = y := by
  rcases List.append_inj h rfl with ⟨hr, hl⟩
  exact Prod.ext (wordBytes_inj hl) (wordBytes_inj hr)

/-- The words of a block in memory. -/
def blockWords (e0 e1 e2 e3 e4 e5 e6 e7 : Byte) : Block :=
  (aword e3 e2 e1 e0, aword e7 e6 e5 e4)

theorem encipher_eq_of_clip {t u : Tables} {e0 e1 e2 e3 e4 e5 e6 e7 : Byte} {p : CStr}
    (he : e0 ≠ 0)
    (h : clip 20 (EQUALS :: BLOWencrypt t (e0 :: e1 :: e2 :: e3 :: e4 :: e5 :: e6 :: e7 :: p)) =
      clip 20 (EQUALS :: BLOWencrypt u (e0 :: e1 :: e2 :: e3 :: e4 :: e5 :: e6 :: e7 :: p))) :
    Blowfish_encipher t (blockWords e0 e1 e2 e3 e4 e5 e6 e7) =
      Blowfish_encipher u (blockWords e0 e1 e2 e3 e4 e5 e6 e7) := by
  have hblock : ∀ t, BLOWencrypt t (e0 :: e1 :: e2 :: e3 :: e4 :: e5 :: e6 :: e7 :: p) =
      hashstring (blockBytes (Blowfish_encipher t (blockWords e0 e1 e2 e3 e4 e5 e6 e7))) ++
        encryptLoop t (p ++ List.replicate 9 0) := by
    intro t
    simp only [BLOWencrypt, List.cons_append, encryptLoop, if_neg he, blockWords, blockBytes,
      hashstring_append]
  have hfirst : ∀ (x : Block) (r : CStr),
      (clip 20 (EQUALS :: (hashstring (blockBytes x) ++ r))).take 17 =
        EQUALS :: hashstring (blockBytes x) := by
    intro x r
    have hlen : (hashstring (blockBytes x)).length = 16 := length_hashstring _
    have hmin : min 17 (20 - 1) = 16 + 1 := rfl
    rw [clip, List.take_take, hmin, List.take_succ_cons, List.take_left' hlen]
  have hchars := congrArg (List.take 17) h
  rw [hblock, hblock, hfirst, hfirst] at hchars
  exact blockBytes_inj (hashstring_inj (List.tail_eq_of_cons_eq hchars))

/-- Passwords with different first blocks have hashes that `pass[20]` keeps apart. -/
theorem clippedHash_ne (hlen : pass.length < 32764) (hlen' : pass'.length < 32764)
    {e0 e1 e2 e3 e4 e5 e6 e7 : Byte} {p : CStr}
    (hsalt : salt.slt1 ++ salt.slt2 = e0 :: e1 :: e2 :: e3 :: e4 :: e5 :: e6 :: e7 :: p)
    (he : e0 ≠ 0)
    (hne : blowfish oneTableF initialWords (paddedKey pass) (blockWords e0 e1 e2 e3 e4 e5 e6 e7) ≠
      blowfish oneTableF initialWords (paddedKey pass') (blockWords e0 e1 e2 e3 e4 e5 e6 e7)) :
    (hashOf salt pass).map (clip 20) ≠ (hashOf salt pass').map (clip 20) := by
  rcases hashOf_padded salt hlen with ⟨t, ht, hencipher⟩
  rcases hashOf_padded salt hlen' with ⟨u, hu, hencipher'⟩
  rw [ht, hu, Option.map_some, Option.map_some, hsalt]
  intro heq
  apply hne
  rw [← hencipher, ← hencipher']
  exact encipher_eq_of_clip he (Option.some_inj.1 heq)

/-- Two passwords whose hashes differ. -/
theorem clippedHash_abc_ne :
    (hashOf buildSalt (ascii "abc")).map (clip 20) ≠ (hashOf buildSalt (ascii "abd")).map (clip 20) := by
  have hsalt : buildSalt.slt1 ++ buildSalt.slt2 =
      110 :: 100 :: 107 :: 97 :: 110 :: 100 :: 114 :: 111 :: ascii "idsaltpsybncportable" := by
    decide +kernel
  apply clippedHash_ne (by decide) (by decide) hsalt (by decide)
  intro heq
  have heval := evalBlowfish_congr evalOneTableF_computes initialWords_holds.length heq
  revert heval
  decide +kernel

end PsyBnc
