import PsyBnc.Blowfish.Model
import PsyBnc.Lib.Feistel

/-!
# The published algorithm

The words of the P-array and of the four S-boxes stand in one list, in the order in which the key
expansion replaces them.  The round function is a parameter `G`, which may read the words:
`publishedF` is the one of the published algorithm, and `oneTableF` reads the first S-box only.

`InitializeBlowfish` and `Blowfish_encipher` follow the published algorithm in everything but the
round function (`Blowfish_encipher_eq`).
-/

namespace PsyBnc

open CLib Function

abbrev Block := UWORD × UWORD

/-! ## The specification -/

/-- Entry `a` of S-box `k`. -/
def sbox (T : List UWORD) (k a : Nat) : UWORD := T.getD (18 + 256 * k + a) 0

def publishedF (T : List UWORD) (x : UWORD) : UWORD :=
  ((sbox T 0 (byte0 x) + sbox T 1 (byte1 x)) ^^^ sbox T 2 (byte2 x)) + sbox T 3 (byte3 x)

def oneTableF (T : List UWORD) (x : UWORD) : UWORD :=
  ((sbox T 0 (byte0 x) + sbox T 0 (byte0 x)) ^^^ sbox T 0 (byte0 x)) + sbox T 0 (byte0 x)

section Specification

variable (G : List UWORD → UWORD → UWORD)

/-- A round, with the exchange of the halves after it. -/
def publishedRound (T : List UWORD) (x : Block) (i : Nat) : Block :=
  let xL := x.1 ^^^ T.getD i 0
  (x.2 ^^^ G T xL, xL)

/-- Sixteen rounds; the last exchange is undone. -/
def publishedEncrypt (T : List UWORD) (x : Block) : Block :=
  let y := (List.range 16).foldl (publishedRound G T) x
  (y.2 ^^^ T.getD 17 0, y.1 ^^^ T.getD 16 0)

/-- Four bytes of the key, which is repeated. -/
def keyWord (key : List Byte) (i : Nat) : UWORD :=
  let byte := fun n => key.getD (n % key.length) 0
  aword (byte (4 * i)) (byte (4 * i + 1)) (byte (4 * i + 2)) (byte (4 * i + 3))

/-- The key is mixed into the P-array. -/
def mixedWords (T : List UWORD) (key : List Byte) : List UWORD :=
  (T.take 18).zipIdx.map (fun p => p.1 ^^^ keyWord key p.2) ++ T.drop 18

/-- Two words are replaced by the ciphertext of the block before. -/
def replaceWords (s : List UWORD × Block) (i : Nat) : List UWORD × Block :=
  let y := publishedEncrypt G s.1 s.2
  ((s.1.set i y.1).set (i + 1) y.2, y)

def expandKey (T : List UWORD) (key : List Byte) : List UWORD :=
  ((evens 521).foldl (replaceWords G) (mixedWords T key, (0, 0))).1

/-- Blowfish with the round function `G` and the initial words `T`. -/
def blowfish (T : List UWORD) (key : List Byte) (x : Block) : Block :=
  publishedEncrypt G (expandKey G T key) x

end Specification

/-- The initial words. -/
def initialWords : List UWORD := initbf_P ++ initbf_S.flatten

/-! ## Both ciphers as networks -/

/-- The keys of the sixteen rounds. -/
def roundKeys (P : Nat → UWORD) : List UWORD := (List.range' 1 16).map P

theorem encipher_network (t : Tables) (x : Block) :
    Blowfish_encipher t x =
      let y := network (· ^^^ ·) (bf_F t) (roundKeys t.bf_P) (x.1 ^^^ t.bf_P 0, x.2)
      (y.2 ^^^ t.bf_P 17, y.1) := rfl

theorem decipher_network (t : Tables) (x : Block) :
    Blowfish_decipher t x =
      let y := network (· ^^^ ·) (bf_F t) (roundKeys t.bf_P).reverse (x.1 ^^^ t.bf_P 17, x.2)
      (y.2 ^^^ t.bf_P 0, y.1) := rfl

/-- The published rounds add a round key before the round, the network after the one before. -/
theorem publishedRound_network (G : List UWORD → UWORD → UWORD) (T : List UWORD) (n i : Nat)
    (x : Block) :
    let y := (List.range' i n).foldl (publishedRound G T) x
    (y.1 ^^^ T.getD (i + n) 0, y.2) =
      network (· ^^^ ·) (G T) ((List.range' (i + 1) n).map fun k => T.getD k 0)
        (x.1 ^^^ T.getD i 0, x.2) := by
  induction n generalizing i x with
  | zero =>
      rfl
  | succ n ih =>
      have hrest := ih (i + 1) (publishedRound G T x i)
      have hindex : i + 1 + n = i + (n + 1) := by omega
      rw [hindex] at hrest
      have hround : ((publishedRound G T x i).1 ^^^ T.getD (i + 1) 0, (publishedRound G T x i).2) =
          feistelRound (· ^^^ ·) (G T) (x.1 ^^^ T.getD i 0, x.2) (T.getD (i + 1) 0) := by
        simp only [publishedRound, feistelRound, BitVec.xor_assoc]
      simp only [List.range'_succ, List.foldl_cons, List.map_cons, network_cons]
      rw [← hround]
      exact hrest

theorem publishedEncrypt_network (G : List UWORD → UWORD → UWORD) (T : List UWORD) (x : Block) :
    publishedEncrypt G T x =
      let y := network (· ^^^ ·) (G T) (roundKeys fun k => T.getD k 0) (x.1 ^^^ T.getD 0 0, x.2)
      (y.2 ^^^ T.getD 17 0, y.1) := by
  have h := publishedRound_network G T 16 0 x
  simp only [publishedEncrypt, roundKeys, List.range_eq_range']
  simp only [Nat.zero_add] at h
  rw [← h]

/-! ## The tables of the code -/

/-- The list has the words of the two tables. -/
structure Holds (T : List UWORD) (t : Tables) : Prop where
  length : T.length = 1042
  words_P : ∀ i < 18, T.getD i 0 = t.bf_P i
  words_S : ∀ k < 4, ∀ a < 256, sbox T k a = t.bf_S k a

theorem byte0_lt (x : UWORD) : byte0 x < 256 :=
  Nat.div_lt_of_lt_mul x.isLt

section Holds

variable {T : List UWORD} {t : Tables}

/-- The four macros read the same entry. -/
theorem Holds.bf_F_eq (h : Holds T t) : bf_F t = oneTableF T := by
  funext x
  simp only [bf_F, S0, S1, S2, S3, oneTableF, h.words_S 0 (by decide) _ (byte0_lt x)]

theorem Holds.encipher (h : Holds T t) (x : Block) :
    Blowfish_encipher t x = publishedEncrypt oneTableF T x := by
  have hkeys : (roundKeys fun k => T.getD k 0) = roundKeys t.bf_P := by
    refine List.map_congr_left fun k hk => h.words_P k ?_
    have := List.mem_range'_1.1 hk
    omega
  rw [encipher_network, publishedEncrypt_network, hkeys, h.bf_F_eq, h.words_P 0 (by decide),
    h.words_P 17 (by decide)]

/-- Two neighbouring words are written. -/
theorem getD_set_pair (hlen : T.length = 1042) {i n : Nat} (hi : i + 1 < 1042) (w v : UWORD) :
    ((T.set i w).set (i + 1) v).getD n 0 =
      if n = i + 1 then v else if n = i then w else T.getD n 0 := by
  by_cases h₁ : n = i + 1
  · simp [h₁, List.getD_eq_getElem?_getD, hlen, hi]
  · by_cases h₂ : n = i
    · have hlt : i < 1042 := by omega
      simp [h₂, List.getD_eq_getElem?_getD, hlen, hlt]
    · have h₁' : ¬ i + 1 = n := fun e => h₁ e.symm
      have h₂' : ¬ i = n := fun e => h₂ e.symm
      simp [h₁, h₂, h₁', h₂', List.getD_eq_getElem?_getD]

/-- The states of both key expansions correspond. -/
def Expands (s : List UWORD × Block) (s' : Tables × Block) : Prop := Holds s.1 s'.1 ∧ s.2 = s'.2

theorem Holds.expands (h : Holds T t) (x : Block) : Expands (T, x) (t, x) := ⟨h, rfl⟩

theorem fillP_expands {s : List UWORD × Block} {s' : Tables × Block} (h : Expands s s') {i : Nat}
    (hi : i + 1 < 18) : Expands (replaceWords oneTableF s i) (fillP s' i) := by
  rcases s with ⟨T, x⟩
  rcases s' with ⟨t, x'⟩
  rcases h with ⟨hT, rfl⟩
  have hT' : Holds T t := hT
  have hword := @getD_set_pair T hT'.length i
  refine ⟨⟨by simp [replaceWords, hT'.length], ?_, ?_⟩, (hT'.encipher x).symm⟩
  · intro n hn
    simp only [replaceWords, fillP, hT'.encipher, hword (by omega), update_apply, hT'.words_P n hn]
  · intro k hk a ha
    have h₁ : ¬ 18 + 256 * k + a = i + 1 := by omega
    have h₂ : ¬ 18 + 256 * k + a = i := by omega
    simp only [sbox, replaceWords, fillP, hword (show i + 1 < 1042 by omega), h₁, h₂, if_false]
    exact hT'.words_S k hk a ha

theorem fillS_expands {s : List UWORD × Block} {s' : Tables × Block} (h : Expands s s') {i j : Nat}
    (hi : i < 4) (hj : j + 1 < 256) :
    Expands (replaceWords oneTableF s (18 + 256 * i + j)) (fillS i s' j) := by
  rcases s with ⟨T, x⟩
  rcases s' with ⟨t, x'⟩
  rcases h with ⟨hT, rfl⟩
  have hT' : Holds T t := hT
  have hword := @getD_set_pair T hT'.length (18 + 256 * i + j)
  refine ⟨⟨by simp [replaceWords, hT'.length], ?_, ?_⟩, (hT'.encipher x).symm⟩
  · intro n hn
    have h₁ : ¬ n = 18 + 256 * i + j + 1 := by omega
    have h₂ : ¬ n = 18 + 256 * i + j := by omega
    simp only [replaceWords, fillS, hword (by omega), h₁, h₂, if_false]
    exact hT'.words_P n hn
  · intro k hk a ha
    have hold := hT'.words_S k hk a ha
    simp only [sbox] at hold
    simp only [sbox, replaceWords, fillS, hT'.encipher, hword (by omega), update_apply]
    by_cases hki : k = i
    · subst hki
      have h₁ : (18 + 256 * k + a = 18 + 256 * k + j + 1) = (a = j + 1) := propext (by omega)
      have h₂ : (18 + 256 * k + a = 18 + 256 * k + j) = (a = j) := propext (by omega)
      simp only [h₁, h₂, if_true, hold, update_apply]
    · have h₁ : ¬ 18 + 256 * k + a = 18 + 256 * i + j + 1 := by omega
      have h₂ : ¬ 18 + 256 * k + a = 18 + 256 * i + j := by omega
      simp only [h₁, h₂, hki, if_false]
      exact hold

end Holds

/-- The order in which the code fills its tables is that of the list. -/
theorem evens_521 :
    evens 521 = evens 9 ++ (List.range 4).flatMap fun i =>
      (evens 128).map fun j => 18 + 256 * i + j := by
  decide +kernel

theorem filled_expands {s : List UWORD × Block} {s' : Tables × Block} (h : Expands s s') :
    Expands ((evens 521).foldl (replaceWords oneTableF) s)
      ((List.range 4).foldl (fun s i => (evens 128).foldl (fillS i) s)
        ((evens 9).foldl fillP s')) := by
  have hP : Expands ((evens 9).foldl (replaceWords oneTableF) s) ((evens 9).foldl fillP s') := by
    refine List.foldl_rel h fun i hi c c' hc => fillP_expands hc ?_
    simp only [evens, List.mem_map, List.mem_range] at hi
    omega
  rw [evens_521, List.foldl_append, List.foldl_flatMap]
  refine List.foldl_rel hP fun i hi c c' hc => ?_
  rw [List.foldl_map]
  refine List.foldl_rel hc fun j hj d d' hd => fillS_expands hd (List.mem_range.1 hi) ?_
  simp only [evens, List.mem_map, List.mem_range] at hj
  omega

/-! ## The key -/

section Key

variable {key : List Byte}

theorem keyData_eq (hkey : key ≠ []) (i : Nat) :
    keyData key (4 * i % key.length) key.length = some (keyWord key i) := by
  have hpos : 0 < key.length := List.length_pos_of_ne_nil hkey
  have hget : ∀ n, key[n % key.length]? = some (key.getD (n % key.length) 0) := by
    intro n
    have hlt := Nat.mod_lt n hpos
    simp [List.getD_eq_getElem?_getD, hlt]
  have hmod : ∀ m, (4 * i % key.length + m) % key.length = (4 * i + m) % key.length := by
    intro m
    exact Nat.mod_add_mod _ _ _
  simp only [keyData, Nat.pos_iff_ne_zero.1 hpos, if_false, hmod, hget, Option.bind_some,
    Option.map_some, keyWord]

/-- The tables after `n` rounds of the first loop. -/
def mixedTables (key : List Byte) (t : Tables) (n : Nat) : Tables :=
  { t with bf_P := fun i => if i < n then t.bf_P i ^^^ keyWord key i else t.bf_P i }

/-- The variable `j` goes round the key, so that the bytes of entry `i` start at `4 * i`. -/
theorem foldlM_mixKey (hkey : key ≠ []) (t : Tables) (n : Nat) :
    (List.range n).foldlM (mixKey key key.length) (0, t) =
      some (4 * n % key.length, mixedTables key t n) := by
  induction n with
  | zero =>
      simp [mixedTables]
  | succ n ih =>
      have hstep : (4 * n % key.length + 4) % key.length = 4 * (n + 1) % key.length := by
        rw [Nat.mod_add_mod, Nat.mul_succ]
      have hP : update (mixedTables key t n).bf_P n ((mixedTables key t n).bf_P n ^^^ keyWord key n) =
          (mixedTables key t (n + 1)).bf_P := by
        funext i
        simp only [mixedTables]
        rcases Nat.lt_trichotomy i n with hi | rfl | hi
        · simp [Nat.ne_of_lt hi, hi, Nat.lt_succ_of_lt hi]
        · simp
        · have h₁ : ¬ i < n := by omega
          have h₂ : ¬ i < n + 1 := by omega
          simp [Nat.ne_of_gt hi, h₁, h₂]
      rw [List.range_succ, List.foldlM_append, ih]
      simp only [Option.bind_eq_bind, Option.bind_some, List.foldlM_cons, List.foldlM_nil, mixKey,
        keyData_eq hkey, Option.map_some, hstep, hP]
      rfl

/-- An entry of a row, in the list of all rows. -/
theorem getD_flatten {n : Nat} {rows : List (List UWORD)} (h : ∀ row ∈ rows, row.length = n)
    {k a : Nat} (ha : a < n) : rows.flatten.getD (n * k + a) 0 = (rows.getD k []).getD a 0 := by
  induction rows generalizing k with
  | nil =>
      simp
  | cons row rows ih =>
      have hrow := h row (by simp)
      cases k with
      | zero =>
          rw [List.flatten_cons, Nat.mul_zero, Nat.zero_add, List.getD_append _ _ _ _ (by omega),
            List.getD_cons_zero]
      | succ k =>
          have hindex : n * (k + 1) + a - row.length = n * k + a := by
            rw [hrow, Nat.mul_succ]
            omega
          have hle : row.length ≤ n * (k + 1) + a := by
            rw [hrow, Nat.mul_succ]
            omega
          rw [List.flatten_cons, List.getD_append_right _ _ _ _ hle, hindex, List.getD_cons_succ]
          exact ih fun row hmem => h row (List.mem_cons_of_mem _ hmem)

theorem initialWords_holds : Holds initialWords initTables where
  length := by decide +kernel
  words_P := by
    intro i hi
    exact List.getD_append _ _ _ _ hi
  words_S := by
    intro k _ a ha
    have hrows : ∀ row ∈ initbf_S, row.length = 256 := by decide +kernel
    have hle : initbf_P.length ≤ 18 + 256 * k + a := by
      have hlen : initbf_P.length = 18 := rfl
      omega
    have hindex : 18 + 256 * k + a - initbf_P.length = 256 * k + a := by
      have hlen : initbf_P.length = 18 := rfl
      omega
    rw [sbox, initialWords, List.getD_append_right _ _ _ _ hle, hindex, getD_flatten hrows ha]
    rfl

theorem length_mixedWords (T : List UWORD) : (mixedWords T key).length = T.length := by
  simp only [mixedWords, List.length_append, List.length_map, List.length_zipIdx, List.length_take,
    List.length_drop]
  omega

theorem getElem?_mixedWords {T : List UWORD} (hlen : 18 ≤ T.length) (i : Nat) :
    (mixedWords T key)[i]? =
      if i < 18 then T[i]?.map fun w => w ^^^ keyWord key i else T[i]? := by
  have htake : (T.take 18).length = 18 := by
    rw [List.length_take]
    omega
  by_cases hi : i < 18
  · have hlt : i < T.length := by omega
    simp [mixedWords, List.getElem?_append, htake, hi, hlt]
  · have hindex : 18 + (i - 18) = i := by omega
    simp [mixedWords, List.getElem?_append, htake, hi, hindex]

theorem mixedWords_holds {T : List UWORD} {t : Tables} (h : Holds T t) :
    Holds (mixedWords T key) (mixedTables key t 18) where
  length := by rw [length_mixedWords, h.length]
  words_P := by
    intro i hi
    have hlen : 18 ≤ T.length := by simp [h.length]
    have hlt : i < T.length := by omega
    have hword := h.words_P i hi
    simp only [List.getD_eq_getElem?_getD, List.getElem?_eq_getElem hlt, Option.getD_some] at hword
    simp [mixedTables, List.getD_eq_getElem?_getD, getElem?_mixedWords hlen, hi, hlt, hword]
  words_S := by
    intro k hk a ha
    have hlen : 18 ≤ T.length := by simp [h.length]
    have hno : ¬ 18 + 256 * k + a < 18 := by omega
    have hword := h.words_S k hk a ha
    simp only [sbox, List.getD_eq_getElem?_getD] at hword
    simp only [mixedTables, sbox, List.getD_eq_getElem?_getD, getElem?_mixedWords hlen, hno,
      if_false, hword]

theorem InitializeBlowfish_holds (hkey : key ≠ []) (hlen : key.length ≤ 56) :
    ∃ t, InitializeBlowfish key key.length = some t ∧
      Holds (expandKey oneTableF initialWords key) t := by
  have hbytes : ¬ (56 : Int) < key.length := by omega
  have hmixed : Holds (mixedWords initialWords key) (mixedTables key initTables 18) :=
    mixedWords_holds initialWords_holds
  refine ⟨_, ?_, (filled_expands (hmixed.expands (0, 0))).1⟩
  simp only [InitializeBlowfish, hbytes, if_false, Int.natAbs_natCast, foldlM_mixKey hkey,
    Option.map_some]

/-- The code is Blowfish with the round function `oneTableF`. -/
theorem Blowfish_encipher_eq (hkey : key ≠ []) (hlen : key.length ≤ 56) :
    ∃ t, InitializeBlowfish key key.length = some t ∧
      ∀ x, Blowfish_encipher t x = blowfish oneTableF initialWords key x := by
  rcases InitializeBlowfish_holds hkey hlen with ⟨t, ht, hholds⟩
  exact ⟨t, ht, hholds.encipher⟩

end Key

end PsyBnc
