import PsyBnc.Blowfish.Evaluate

/-!
# The round function

`S0` to `S3` all read the first S-box at the first byte.  What the code computes is therefore the
published ciphertext when the two round functions agree in every round of the published algorithm,
the rounds of the key expansion included, and only then are the rounds the same
(`ciphertext_of_oneTableAgrees`).
-/

namespace PsyBnc

open CLib

/-! ## The rounds of the published algorithm -/

section Rounds

variable (G : List UWORD → UWORD → UWORD)

/-- The words that the round function is applied to in one encryption. -/
def encryptInputs (T : List UWORD) (x : Block) : List UWORD :=
  inputs (· ^^^ ·) (G T) (roundKeys fun k => T.getD k 0) (x.1 ^^^ T.getD 0 0, x.2)

def encryptOutputs (T : List UWORD) (x : Block) : List UWORD :=
  outputs (· ^^^ ·) (G T) (roundKeys fun k => T.getD k 0) (x.1 ^^^ T.getD 0 0, x.2)

/-- The words that the round function is applied to in the key expansion, each with the words of the
tables at that time. -/
def expansionInputs : List Nat → List UWORD × Block → List (List UWORD × UWORD)
  | [], _ => []
  | i :: is, s =>
      (encryptInputs G s.1 s.2).map (Prod.mk s.1) ++ expansionInputs is (replaceWords G s i)

def expansionOutputs : List Nat → List UWORD × Block → List UWORD
  | [], _ => []
  | i :: is, s => encryptOutputs G s.1 s.2 ++ expansionOutputs is (replaceWords G s i)

/-- The words that the round function is applied to when a block is encrypted with a key. -/
def blowfishInputs (T : List UWORD) (key : List Byte) (x : Block) : List (List UWORD × UWORD) :=
  expansionInputs G (evens 521) (mixedWords T key, (0, 0)) ++
    (encryptInputs G (expandKey G T key) x).map (Prod.mk (expandKey G T key))

/-- What its rounds compute, in order. -/
def blowfishOutputs (T : List UWORD) (key : List Byte) (x : Block) : List UWORD :=
  expansionOutputs G (evens 521) (mixedWords T key, (0, 0)) ++
    encryptOutputs G (expandKey G T key) x

end Rounds

section Agreement

variable {G H : List UWORD → UWORD → UWORD}

theorem xor_cancel_left (a b c : UWORD) (h : a ^^^ b = a ^^^ c) : b = c := by
  have hxor := congrArg (a ^^^ ·) h
  simpa [← BitVec.xor_assoc] using hxor

theorem xor_cancel_right (a b c : UWORD) (h : a ^^^ c = b ^^^ c) : a = b := by
  have hxor := congrArg (· ^^^ c) h
  simpa [BitVec.xor_assoc] using hxor

theorem publishedEncrypt_congr {T : List UWORD} {x : Block}
    (h : ∀ w ∈ encryptInputs G T x, H T w = G T w) :
    publishedEncrypt H T x = publishedEncrypt G T x := by
  rw [publishedEncrypt_network, publishedEncrypt_network, network_congr h]

theorem encryptOutputs_eq_iff {T : List UWORD} {x : Block} :
    encryptOutputs H T x = encryptOutputs G T x ↔ ∀ w ∈ encryptInputs G T x, H T w = G T w :=
  outputs_eq_iff xor_cancel_left xor_cancel_right

theorem length_encryptOutputs (T : List UWORD) (x : Block) : (encryptOutputs G T x).length = 16 := by
  rw [encryptOutputs, length_outputs]
  rfl

theorem replaceWords_congr {s : List UWORD × Block} {i : Nat}
    (h : ∀ w ∈ encryptInputs G s.1 s.2, H s.1 w = G s.1 w) :
    replaceWords H s i = replaceWords G s i := by
  simp only [replaceWords, publishedEncrypt_congr h]

theorem expansion_congr {is : List Nat} {s : List UWORD × Block}
    (h : ∀ p ∈ expansionInputs G is s, H p.1 p.2 = G p.1 p.2) :
    is.foldl (replaceWords H) s = is.foldl (replaceWords G) s := by
  induction is generalizing s with
  | nil =>
      rfl
  | cons i is ih =>
      have hhead : replaceWords H s i = replaceWords G s i := by
        refine replaceWords_congr fun w hw => h (s.1, w) ?_
        exact List.mem_append_left _ (List.mem_map_of_mem hw)
      rw [List.foldl_cons, List.foldl_cons, hhead]
      exact ih fun p hp => h p (List.mem_append_right _ hp)

theorem expansionOutputs_eq_iff {is : List Nat} {s : List UWORD × Block} :
    expansionOutputs H is s = expansionOutputs G is s ↔
      ∀ p ∈ expansionInputs G is s, H p.1 p.2 = G p.1 p.2 := by
  induction is generalizing s with
  | nil =>
      simp [expansionOutputs, expansionInputs]
  | cons i is ih =>
      have hlen : (encryptOutputs H s.1 s.2).length = (encryptOutputs G s.1 s.2).length := by
        rw [length_encryptOutputs, length_encryptOutputs]
      have hmem : (∀ p ∈ expansionInputs G (i :: is) s, H p.1 p.2 = G p.1 p.2) ↔
          (∀ w ∈ encryptInputs G s.1 s.2, H s.1 w = G s.1 w) ∧
            ∀ p ∈ expansionInputs G is (replaceWords G s i), H p.1 p.2 = G p.1 p.2 := by
        simp only [expansionInputs, List.forall_mem_append, List.forall_mem_map]
      rw [hmem, ← encryptOutputs_eq_iff]
      constructor
      · intro h
        rcases List.append_inj h hlen with ⟨hhead, htail⟩
        rw [replaceWords_congr (encryptOutputs_eq_iff.1 hhead)] at htail
        exact ⟨hhead, ih.1 htail⟩
      · rintro ⟨hhead, htail⟩
        simp only [expansionOutputs, hhead, replaceWords_congr (encryptOutputs_eq_iff.1 hhead),
          ih.2 htail]

theorem expandKey_congr {T : List UWORD} {key : List Byte}
    (h : ∀ p ∈ expansionInputs G (evens 521) (mixedWords T key, (0, 0)), H p.1 p.2 = G p.1 p.2) :
    expandKey H T key = expandKey G T key := by
  rw [expandKey, expandKey, expansion_congr h]

theorem forall_blowfishInputs {T : List UWORD} {key : List Byte} {x : Block} :
    (∀ p ∈ blowfishInputs G T key x, H p.1 p.2 = G p.1 p.2) ↔
      (∀ p ∈ expansionInputs G (evens 521) (mixedWords T key, (0, 0)), H p.1 p.2 = G p.1 p.2) ∧
        ∀ w ∈ encryptInputs G (expandKey G T key) x,
          H (expandKey G T key) w = G (expandKey G T key) w := by
  simp only [blowfishInputs, List.forall_mem_append, List.forall_mem_map]

/-- Round functions that agree wherever they are applied give the same ciphertext. -/
theorem blowfish_congr {T : List UWORD} {key : List Byte} {x : Block}
    (h : ∀ p ∈ blowfishInputs G T key x, H p.1 p.2 = G p.1 p.2) :
    blowfish H T key x = blowfish G T key x := by
  rcases forall_blowfishInputs.1 h with ⟨hexpand, hencrypt⟩
  rw [blowfish, blowfish, expandKey_congr hexpand, publishedEncrypt_congr hencrypt]

/-- They give the same rounds only when they agree wherever they are applied. -/
theorem blowfishOutputs_eq_iff {T : List UWORD} {key : List Byte} {x : Block} :
    blowfishOutputs H T key x = blowfishOutputs G T key x ↔
      ∀ p ∈ blowfishInputs G T key x, H p.1 p.2 = G p.1 p.2 := by
  rw [forall_blowfishInputs, ← expansionOutputs_eq_iff, ← encryptOutputs_eq_iff]
  have hlen : (encryptOutputs H (expandKey H T key) x).length =
      (encryptOutputs G (expandKey G T key) x).length := by
    rw [length_encryptOutputs, length_encryptOutputs]
  constructor
  · intro h
    rcases List.append_inj' h hlen with ⟨hexpand, hencrypt⟩
    rw [expandKey_congr (expansionOutputs_eq_iff.1 hexpand)] at hencrypt
    exact ⟨hexpand, hencrypt⟩
  · rintro ⟨hexpand, hencrypt⟩
    rw [blowfishOutputs, blowfishOutputs, hexpand,
      expandKey_congr (expansionOutputs_eq_iff.1 hexpand), hencrypt]

end Agreement

/-! ## The code and the published cipher -/

/-- The ciphertext of a block: `InitializeBlowfish`, then `Blowfish_encipher`. -/
def ciphertext (key : List Byte) (x : Block) : Option Block :=
  (InitializeBlowfish key key.length).map fun t => Blowfish_encipher t x

/-- In every round of the published algorithm the first S-box alone gives what all four give. -/
def OneTableAgrees (key : List Byte) (x : Block) : Prop :=
  ∀ p ∈ blowfishInputs publishedF initialWords key x, oneTableF p.1 p.2 = publishedF p.1 p.2

theorem ciphertext_eq {key : List Byte} (hkey : key ≠ []) (hlen : key.length ≤ 56) (x : Block) :
    ciphertext key x = some (blowfish oneTableF initialWords key x) := by
  rcases Blowfish_encipher_eq hkey hlen with ⟨t, ht, hencipher⟩
  rw [ciphertext, ht, Option.map_some, hencipher]

theorem ciphertext_of_oneTableAgrees {key : List Byte} (hkey : key ≠ []) (hlen : key.length ≤ 56)
    (x : Block) :
    ciphertext key x = some (blowfish oneTableF initialWords key x) ∧
      (OneTableAgrees key x →
        ciphertext key x = some (blowfish publishedF initialWords key x)) ∧
      (OneTableAgrees key x ↔
        blowfishOutputs oneTableF initialWords key x =
          blowfishOutputs publishedF initialWords key x) := by
  have hcode := ciphertext_eq hkey hlen x
  refine ⟨hcode, ?_, blowfishOutputs_eq_iff.symm⟩
  intro h
  rw [hcode, blowfish_congr h]

theorem ciphertext_of_oneTableAgrees_zero :
    ciphertext [0] (0, 0) = some (blowfish oneTableF initialWords [0] (0, 0)) ∧
      (OneTableAgrees [0] (0, 0) →
        ciphertext [0] (0, 0) = some (blowfish publishedF initialWords [0] (0, 0))) ∧
      (OneTableAgrees [0] (0, 0) ↔
        blowfishOutputs oneTableF initialWords [0] (0, 0) =
          blowfishOutputs publishedF initialWords [0] (0, 0)) :=
  ciphertext_of_oneTableAgrees (by decide) (by decide) (0, 0)

/-- The zero block under the zero key. -/
theorem ciphertext_zero :
    ciphertext [0] (0, 0) = some (0xb3681819, 0x3d3764b4) ∧
      blowfish publishedF initialWords [0] (0, 0) = (0x4ef99745, 0x6198dd78) ∧
      ciphertext [0] (0, 0) ≠ some (blowfish publishedF initialWords [0] (0, 0)) := by
  have hone : blowfish oneTableF initialWords [0] (0, 0) = (0xb3681819, 0x3d3764b4) :=
    blowfish_of_eval evalOneTableF_computes initialWords_holds.length (by decide +kernel)
  have hpublished : blowfish publishedF initialWords [0] (0, 0) = (0x4ef99745, 0x6198dd78) :=
    blowfish_of_eval evalPublishedF_computes initialWords_holds.length (by decide +kernel)
  have hcode : ciphertext [0] (0, 0) = some (0xb3681819, 0x3d3764b4) := by
    rw [ciphertext_eq (by decide) (by decide), hone]
  refine ⟨hcode, hpublished, ?_⟩
  rw [hcode, hpublished]
  decide

end PsyBnc
