import PsyBnc.Blowfish.Published
import PsyBnc.Lib.Packed

/-!
# Evaluating the cipher

The key expansion makes 8336 rounds over a table of 1042 words.  For the kernel the table is one
number, every half is evaluated before the next round, and the result is handed to a continuation.
A word in front of the table takes a new value at every step, because the kernel finds a number that
it has seen by its low digits.
-/

namespace PsyBnc

open CLib

variable {β : Type}

/-- Word `i` of the table. -/
def entryAt (p i : Nat) : Nat := wordAt 32 p (i + 1)

/-- `n` rounds from round key `i` on. -/
def evalNetwork (g : Nat → Nat) (p : Nat) : Nat → Nat → Nat → Nat → (Nat → Nat → β) → β
  | 0, _, a, b, next => next a b
  | n + 1, i, a, b, next =>
      forced (b ^^^ (g a ^^^ entryAt p i)) fun c => evalNetwork g p n (i + 1) c a next

def evalEncrypt (g : Nat → Nat → Nat) (p l r : Nat) (next : Nat → Nat → β) : β :=
  forced (l ^^^ entryAt p 0) fun a =>
    evalNetwork (g p) p 16 1 a r fun a b => forced (b ^^^ entryAt p 17) fun c => next c a

/-- Two words of the table are replaced. -/
def evalReplace (p i l r : Nat) (next : Nat → β) : β :=
  forced (putWord 32 p 0 l) fun p =>
    forced (putWord 32 p (i + 1) l) fun p => forced (putWord 32 p (i + 2) r) next

/-- `n` pairs of words are replaced, from word `i` on. -/
def evalExpand (g : Nat → Nat → Nat) : Nat → Nat → Nat → Nat → Nat → (Nat → β) → β
  | 0, _, p, _, _, next => next p
  | n + 1, i, p, l, r, next =>
      evalEncrypt g p l r fun l r => evalReplace p i l r fun p =>
        forced (i + 2) fun i => evalExpand g n i p l r next

def evalBlowfish (g : Nat → Nat → Nat) (T : List UWORD) (l r : Nat) : Nat × Nat :=
  forced (packWords (0 :: T)) fun p =>
    evalExpand g 521 0 p 0 0 fun p => evalEncrypt g p l r fun l r => (l, r)

section Correct

variable {g : Nat → Nat → Nat} {G : List UWORD → UWORD → UWORD}

/-- `g` computes `G` on packed words. -/
def Computes (g : Nat → Nat → Nat) (G : List UWORD → UWORD → UWORD) : Prop :=
  ∀ tick T x, g (packWords (tick :: T)) x.toNat = (G T x).toNat

theorem entryAt_packWords (tick : UWORD) (T : List UWORD) (i : Nat) :
    entryAt (packWords (tick :: T)) i = (T.getD i 0).toNat := by
  rw [entryAt, wordAt_packWords, List.getD_cons_succ]

theorem evalNetwork_eq (hg : Computes g G) (tick : UWORD) (T : List UWORD) (n i : Nat) (x : Block)
    (next : Nat → Nat → β) :
    evalNetwork (g (packWords (tick :: T))) (packWords (tick :: T)) n i x.1.toNat x.2.toNat next =
      let y := network (· ^^^ ·) (G T) ((List.range' i n).map fun k => T.getD k 0) x
      next y.1.toNat y.2.toNat := by
  induction n generalizing i x with
  | zero =>
      rfl
  | succ n ih =>
      have hround : x.2.toNat ^^^ (g (packWords (tick :: T)) x.1.toNat ^^^
          entryAt (packWords (tick :: T)) i) =
            (feistelRound (· ^^^ ·) (G T) x (T.getD i 0)).1.toNat := by
        simp only [feistelRound, BitVec.toNat_xor, hg tick T x.1, entryAt_packWords]
      rw [evalNetwork, forced_eq, hround]
      exact ih (i + 1) (feistelRound (· ^^^ ·) (G T) x (T.getD i 0))

theorem evalEncrypt_eq (hg : Computes g G) (tick : UWORD) (T : List UWORD) (x : Block)
    (next : Nat → Nat → β) :
    evalEncrypt g (packWords (tick :: T)) x.1.toNat x.2.toNat next =
      next (publishedEncrypt G T x).1.toNat (publishedEncrypt G T x).2.toNat := by
  have hfirst : x.1.toNat ^^^ entryAt (packWords (tick :: T)) 0 = (x.1 ^^^ T.getD 0 0).toNat := by
    rw [entryAt_packWords, BitVec.toNat_xor]
  have hnetwork := evalNetwork_eq hg tick T 16 1 (x.1 ^^^ T.getD 0 0, x.2)
    fun a b => forced (b ^^^ entryAt (packWords (tick :: T)) 17) fun c => next c a
  rw [evalEncrypt, forced_eq, hfirst, publishedEncrypt_network]
  refine hnetwork.trans ?_
  simp only [forced_eq, entryAt_packWords, BitVec.toNat_xor, roundKeys]

theorem evalReplace_eq (tick l r : UWORD) (T : List UWORD) {i : Nat} (hi : i + 1 < T.length)
    (next : Nat → β) :
    evalReplace (packWords (tick :: T)) i l.toNat r.toNat next =
      next (packWords (l :: (T.set i l).set (i + 1) r)) := by
  have htick := packWords_set (tick :: T) (i := 0) (by simp) l
  have hfirst := packWords_set (l :: T) (i := i + 1) (by simp; omega) l
  have hsecond := packWords_set (l :: T.set i l) (i := i + 2) (by simp; omega) r
  simp only [List.set_cons_zero, List.set_cons_succ] at htick hfirst hsecond
  rw [evalReplace, forced_eq, forced_eq, forced_eq, ← htick, ← hfirst, ← hsecond]

theorem evalExpand_eq (hg : Computes g G) (n i : Nat) (tick : UWORD) (s : List UWORD × Block)
    (hlen : i + 2 * n ≤ s.1.length) (next : Nat → β) :
    ∃ tick', evalExpand g n i (packWords (tick :: s.1)) s.2.1.toNat s.2.2.toNat next =
      next (packWords (tick' :: ((List.range' i n 2).foldl (replaceWords G) s).1)) := by
  induction n generalizing i tick s with
  | zero =>
      exact ⟨tick, rfl⟩
  | succ n ih =>
      have hlen' : i + 2 + 2 * n ≤ (replaceWords G s i).1.length := by
        simp only [replaceWords, List.length_set]
        omega
      rcases ih (i + 2) (publishedEncrypt G s.1 s.2).1 (replaceWords G s i) hlen' with
        ⟨tick', hrest⟩
      refine ⟨tick', ?_⟩
      rw [evalExpand, evalEncrypt_eq hg, evalReplace_eq _ _ _ _ (by omega), forced_eq,
        List.range'_succ, List.foldl_cons]
      exact hrest

theorem evalBlowfish_eq (hg : Computes g G) {T : List UWORD} {key : List Byte}
    (hlen : T.length = 1042) (x : Block) :
    evalBlowfish g (mixedWords T key) x.1.toNat x.2.toNat =
      ((blowfish G T key x).1.toNat, (blowfish G T key x).2.toNat) := by
  have hevens : evens 521 = List.range' 0 521 2 := by decide +kernel
  rcases evalExpand_eq hg 521 0 0 (mixedWords T key, (0, 0)) (by rw [length_mixedWords, hlen])
    (fun p => evalEncrypt g p x.1.toNat x.2.toNat fun l r => (l, r)) with ⟨tick, hexpand⟩
  rw [← hevens] at hexpand
  rw [evalBlowfish, forced_eq]
  refine hexpand.trans ?_
  exact evalEncrypt_eq hg tick _ x _

/-- A ciphertext that was evaluated. -/
theorem blowfish_of_eval (hg : Computes g G) {T : List UWORD} {key : List Byte}
    (hlen : T.length = 1042) {x y : Block}
    (h : evalBlowfish g (mixedWords T key) x.1.toNat x.2.toNat = (y.1.toNat, y.2.toNat)) :
    blowfish G T key x = y := by
  rcases Prod.mk.inj ((evalBlowfish_eq hg hlen x).symm.trans h) with ⟨hl, hr⟩
  exact Prod.ext (BitVec.eq_of_toNat_eq hl) (BitVec.eq_of_toNat_eq hr)

/-- Equal ciphertexts have equal evaluations. -/
theorem evalBlowfish_congr (hg : Computes g G) {T : List UWORD} {key key' : List Byte}
    (hlen : T.length = 1042) {x : Block} (h : blowfish G T key x = blowfish G T key' x) :
    evalBlowfish g (mixedWords T key) x.1.toNat x.2.toNat =
      evalBlowfish g (mixedWords T key') x.1.toNat x.2.toNat := by
  rw [evalBlowfish_eq hg hlen, evalBlowfish_eq hg hlen, h]

end Correct

/-! ## The two round functions -/

def packedSbox (p k a : Nat) : Nat := entryAt p (18 + 256 * k + a)

def evalPublishedF (p x : Nat) : Nat :=
  (((packedSbox p 0 (x / 16777216) + packedSbox p 1 (x / 65536 % 256)) % 4294967296 ^^^
    packedSbox p 2 (x / 256 % 256)) + packedSbox p 3 (x % 256)) % 4294967296

def evalOneTableF (p x : Nat) : Nat :=
  forced (packedSbox p 0 (x / 16777216)) fun s => (((s + s) % 4294967296 ^^^ s) + s) % 4294967296

theorem packedSbox_eq (tick : UWORD) (T : List UWORD) (k a : Nat) :
    packedSbox (packWords (tick :: T)) k a = (sbox T k a).toNat :=
  entryAt_packWords tick T _

theorem evalPublishedF_computes : Computes evalPublishedF publishedF := by
  intro tick T x
  have hpow : (4294967296 : Nat) = 2 ^ 32 := rfl
  simp only [evalPublishedF, publishedF, packedSbox_eq, BitVec.toNat_add, BitVec.toNat_xor, byte0,
    byte1, byte2, byte3, hpow]

theorem evalOneTableF_computes : Computes evalOneTableF oneTableF := by
  intro tick T x
  have hpow : (4294967296 : Nat) = 2 ^ 32 := rfl
  simp only [evalOneTableF, forced_eq, oneTableF, packedSbox_eq, BitVec.toNat_add,
    BitVec.toNat_xor, byte0, hpow]

end PsyBnc
