import PsyBnc.Lib.CString
import PsyBnc.Lib.Glob
import Mathlib.Data.Nat.Bitwise
import Mathlib.Data.List.TakeWhile

/-!
# Host masks (`match.c`)

`wild_match` compares a mask with a text from the last byte on.  A pointer is what is left of its text in
front of it, the byte it points to first; `NULL` is `none`.  The counter `sofar` has a bit that says that
the last byte was quoted.
-/

namespace PsyBnc

open CLib

/-- `QUOTE` of `match.c`. -/
@[reducible] def WILDQUOTE : Byte := 92
@[reducible] def WILDS : Byte := 42
@[reducible] def WILDP : Byte := 37
@[reducible] def WILDQ : Byte := 63

@[reducible] def UNQUOTED : Nat := 0x7FFF
@[reducible] def QUOTED : Nat := 0x8000

/-- `tolowertab`. -/
def tolower (c : Byte) : Byte := if 65 ≤ c ∧ c ≤ 90 then c + 32 else c

/-- The variables of `wild_match`. -/
structure WildMatch where
  m : CStr
  n : CStr
  lsm : Option CStr := none
  lsn : CStr := []
  score : Nat := 1
  sofar : Nat := 0
  deriving DecidableEq, Repr

/-- `m > ma && m[-1] == QUOTE` -/
def quotedAt : CStr → Bool
  | _ :: q :: _ => q == WILDQUOTE
  | _ => false

/-- The wildcards in front of `c` are passed; when the last of them is quoted, `m` goes back to it. -/
def zapWilds (c : Byte) : CStr → CStr
  | [] => []
  | b :: m =>
      if b = WILDS ∨ b = WILDP then zapWilds b m
      else if b = WILDQUOTE then c :: b :: m
      else b :: m

/-- `MATCH`, or `NOMATCH` if something of the mask is left. -/
def wildResult (s : WildMatch) : Nat :=
  if s.m.dropWhile (fun b => decide (b = WILDS ∨ b = WILDP)) = [] then (s.score + s.sofar) &&& UNQUOTED
  else 0

/-- The loop; `none` when it still runs. -/
def wildLoop : Nat → WildMatch → Option Nat
  | 0, _ => none
  | k + 1, s =>
      match s.n with
      | [] => some (wildResult s)
      | c :: n =>
          let quoted := quotedAt s.m
          -- In front of the mask there is a byte 0.
          let b := s.m.headD 0
          if quoted = false ∧ b = WILDS then
            let m := zapWilds b s.m.tail
            wildLoop k { s with m := m, lsm := some m, lsn := s.n, score := s.score + s.sofar, sofar := 0 }
          else if quoted = false ∧ b = WILDQ then wildLoop k { s with m := s.m.tail, n := n }
          else
            let sofar := if quoted then s.sofar ||| QUOTED else s.sofar &&& UNQUOTED
            if tolower b = tolower c then
              let sofar := sofar + 1
              let m := if sofar &&& QUOTED ≠ 0 then s.m.tail.tail else s.m.tail
              wildLoop k { s with m := m, n := n, sofar := sofar }
            else
              match s.lsm with
              | none => some 0
              | some lsm =>
                  let lsn := s.lsn.tail
                  wildLoop k
                    { s with
                      m := lsm
                      n := lsn
                      lsm := if lsn = [] then none else some lsm
                      lsn := lsn
                      sofar := 0 }

/-- Rounds enough for the loop. -/
def wildRounds (em en : CStr) : Nat := (em.length + 2) * ((en.length + 1) * (em.length + 1)) + 1

def wild_match (em en : CStr) : Option Nat :=
  if em = [] ∨ en = [] then some 0
  else wildLoop (wildRounds em en) { m := em.reverse, n := en.reverse }

/-! ## The language of a mask -/

/-- A byte that stands for itself. -/
def literal (c : Byte) : Glob Byte := .one fun b => tolower b == tolower c

def wildItem (c : Byte) : Glob Byte :=
  if c = WILDS then .star else if c = WILDQ then .one fun _ => true else literal c

/-- The items of a mask that is read from its end: a byte behind a `\` stands for itself. -/
def maskItems : CStr → List (Glob Byte)
  | [] => []
  | [c] => [wildItem c]
  | c :: q :: m => if q = WILDQUOTE then literal c :: maskItems m else wildItem c :: maskItems (q :: m)

/-- The texts that a mask stands for. -/
def InMask (mask text : CStr) : Prop := Glob.Matches (maskItems mask.reverse).reverse text

section Items

variable {c b : Byte} {m s : CStr}

theorem tolower_ne_zero (hc : c ≠ 0) : tolower c ≠ 0 := by
  rw [tolower]
  split
  · next h =>
    intro h0
    have hlo := UInt8.le_iff_toNat_le.1 h.1
    have hhi := UInt8.le_iff_toNat_le.1 h.2
    have hsum := congrArg UInt8.toNat h0
    rw [UInt8.toNat_add] at hsum
    simp only [UInt8.reduceToNat] at hlo hhi hsum
    omega
  · exact hc

theorem maskItems_of_not_quoted (h : quotedAt (c :: m) = false) :
    maskItems (c :: m) = wildItem c :: maskItems m := by
  cases m with
  | nil =>
      rfl
  | cons q m =>
      rw [maskItems, if_neg]
      simpa [quotedAt] using h

theorem exists_of_quotedAt (h : quotedAt m = true) :
    ∃ c m', m = c :: WILDQUOTE :: m' ∧ maskItems m = literal c :: maskItems m' := by
  match m, h with
  | c :: q :: m', h =>
      have hq : q = WILDQUOTE := by simpa [quotedAt] using h
      subst hq
      exact ⟨c, m', rfl, by rw [maskItems, if_pos rfl]⟩

/-- Adjacent stars are one star. -/
theorem zapWilds_matches (hm : WILDP ∉ m) :
    Glob.Matches (.star :: maskItems (WILDS :: m)) s ↔
      Glob.Matches (.star :: maskItems (zapWilds WILDS m)) s := by
  induction m with
  | nil =>
      exact Glob.matches_star_star
  | cons b m ih =>
      rw [List.mem_cons, not_or] at hm
      rw [zapWilds]
      by_cases hwild : b = WILDS
      · rw [if_pos (Or.inl hwild), hwild, ← ih hm.2]
        rw [maskItems_of_not_quoted rfl]
        exact Glob.matches_star_star
      · rw [if_neg (by rintro (h | h); exacts [hwild h, hm.1 h.symm])]
        by_cases hquote : b = WILDQUOTE
        · rw [if_pos hquote]
        · rw [if_neg hquote, maskItems_of_not_quoted (by simp [quotedAt, hquote])]
          exact Glob.matches_star_star

theorem zapWilds_suffix (c : Byte) (m : CStr) : zapWilds c m <:+ c :: m := by
  induction m generalizing c with
  | nil =>
      exact List.nil_suffix
  | cons b m ih =>
      rw [zapWilds]
      split
      · exact (ih b).trans (List.suffix_cons c (b :: m))
      · split
        · exact List.suffix_refl _
        · exact List.suffix_cons c (b :: m)

theorem length_zapWilds (h : quotedAt (c :: m) = false) : (zapWilds c m).length ≤ m.length := by
  cases m with
  | nil =>
      exact Nat.le_refl _
  | cons b m =>
      rw [zapWilds]
      split
      · exact (zapWilds_suffix b m).length_le
      · split
        · next hquote => simp [quotedAt, hquote] at h
        · exact Nat.le_refl _

/-- When the text is used up, only stars match. -/
theorem maskItems_nil : Glob.Matches (maskItems m) [] ↔ ∀ b ∈ m, b = WILDS := by
  induction m with
  | nil =>
      simp [maskItems, Glob.Matches]
  | cons c m ih =>
      cases hq : quotedAt (c :: m) with
      | true =>
          -- What is quoted stands for a byte, and the quote itself is no star.
          rcases exists_of_quotedAt hq with ⟨c', m', heq, hitems⟩
          cases heq
          rw [hitems]
          constructor
          · intro h
            exact absurd h Glob.not_matches_one_nil
          · intro h
            exact absurd (h WILDQUOTE (by simp)) (by decide)
      | false =>
          rw [maskItems_of_not_quoted hq, wildItem, List.forall_mem_cons]
          by_cases hstar : c = WILDS
          · rw [if_pos hstar, Glob.matches_star_nil, ih]
            simp [hstar]
          · rw [if_neg hstar]
            constructor
            · intro h
              have hone : ∃ p, (if c = WILDQ then Glob.one fun _ => true else literal c) = Glob.one p := by
                split
                · exact ⟨_, rfl⟩
                · exact ⟨_, rfl⟩
              rcases hone with ⟨p, hp⟩
              rw [hp] at h
              exact absurd h Glob.not_matches_one_nil
            · intro h
              exact absurd h.1 hstar

end Items

/-! ## The counter -/

section Counter

variable {f x : Nat}

theorem and_unquoted (y : Nat) : y &&& UNQUOTED = y % 0x8000 :=
  Nat.and_two_pow_sub_one_eq_mod y 15

theorem or_quoted (hf : f ≤ 1) (hx : x < 0x8000) : (f * 0x8000 + x) ||| QUOTED = 0x8000 + x := by
  have hor : 0x8000 * 1 + x = 0x8000 * 1 ||| x := Nat.two_pow_add_eq_or_of_lt (i := 15) hx 1
  rw [Nat.mul_one] at hor
  rcases Nat.le_one_iff_eq_zero_or_eq_one.1 hf with rfl | rfl
  · rw [Nat.zero_mul, Nat.zero_add, hor, Nat.or_comm]
  · rw [Nat.one_mul, hor, Nat.or_comm, ← Nat.or_assoc, Nat.or_self]

theorem and_quoted (hf : f ≤ 1) (hx : x < 0x8000) : (f * 0x8000 + x) &&& QUOTED ≠ 0 ↔ f = 1 := by
  have hbit : (f * 0x8000 + x) &&& QUOTED = ((f * 0x8000 + x).testBit 15).toNat * 2 ^ 15 :=
    Nat.and_two_pow _ 15
  rw [hbit, Nat.testBit_eq_decide_div_mod_eq]
  have hdiv : (f * 0x8000 + x) / 2 ^ 15 % 2 = f := by omega
  rw [hdiv]
  rcases Nat.le_one_iff_eq_zero_or_eq_one.1 hf with rfl | rfl
  · decide
  · decide

end Counter

/-! ## One round -/

/-- The place to start again from. -/
def wildRestart (s : WildMatch) : Glob.Restart Byte := s.lsm.map fun l => (maskItems l, s.lsn)

/-- `mask` and `name` are reversed. -/
structure WildInv (mask name : CStr) (s : WildMatch) : Prop where
  m : s.m <:+ mask
  n : s.n <:+ name
  lsm : ∀ l, s.lsm = some l → l <:+ mask ∧ s.m.length ≤ l.length
  lsn : s.lsm ≠ none → s.lsn <:+ name ∧ s.n.length ≤ s.lsn.length
  tried : Glob.Tried (maskItems s.m) s.n (wildRestart s)
  /-- The bits of `QUOTED` aside, the counters hold no more than the text has behind `n`. -/
  score : ∃ q c f x, s.score = q * 0x8000 + c ∧ s.sofar = f * 0x8000 + x ∧ f ≤ 1 ∧ 1 ≤ c ∧
    c + x + s.n.length ≤ name.length + 1 ∧ (s.lsm ≠ none → c + s.lsn.length ≤ name.length + 1)

/-- Rounds that may follow: stars are left behind, then starts behind a star, then bytes of the mask. -/
def wildLeft (mask name : CStr) (s : WildMatch) : Nat :=
  if s.n = [] then 0
  else
    match s.lsm with
    | none => (mask.length + 1) * ((name.length + 1) * (mask.length + 1)) + s.m.length + 1
    | some l =>
        l.length * ((name.length + 1) * (mask.length + 1)) + s.lsn.length * (mask.length + 1) +
          s.m.length + 1

/-- What a round from `s` to `t` does not change. -/
structure WildRound (mask name : CStr) (s t : WildMatch) : Prop where
  inv : WildInv mask name t
  less : wildLeft mask name t < wildLeft mask name s
  same : Glob.Open (maskItems t.m) t.n (wildRestart t) ↔ Glob.Open (maskItems s.m) s.n (wildRestart s)

section Rounds

variable {mask name m n : CStr} {s : WildMatch} {c b : Byte}

/-- With a byte of the text used up, and `m` moved on. -/
theorem wildLeft_advance (hn : s.n = c :: n) (hm : m.length < s.m.length)
    (k : Nat) :
    wildLeft mask name { s with m := m, n := n, sofar := k } < wildLeft mask name s := by
  simp only [wildLeft, hn]
  rw [if_neg (List.cons_ne_nil c n)]
  split
  · split
    · exact Nat.succ_pos _
    · exact Nat.succ_pos _
  · cases s.lsm with
    | none => simp only; omega
    | some l => simp only; omega

/-- A single item is matched. -/
theorem WildInv.advance (hinv : WildInv mask name s) (hn : s.n = c :: n) {p : Byte → Bool} (hp : p c = true)
    (hsuffix : m <:+ s.m) (hitems : maskItems s.m = .one p :: maskItems m) {k : Nat}
    (hk : k % 0x8000 ≤ s.sofar % 0x8000 + 1) (hflag : k < 0x10000) :
    WildRound mask name s { s with m := m, n := n, sofar := k } := by
  have hlt : m.length < s.m.length := by
    rcases Nat.lt_or_ge m.length s.m.length with h | h
    · exact h
    · have heq : m = s.m := hsuffix.eq_of_length_le h
      rw [heq] at hitems
      exact absurd (congrArg List.length hitems) (by simp)
  have hnsuffix : n <:+ s.n := by
    rw [hn]
    exact List.suffix_cons c n
  refine ⟨⟨hsuffix.trans hinv.m, hnsuffix.trans hinv.n, fun l hl => ?_, fun hl => ?_, ?_, ?_⟩,
    wildLeft_advance hn hlt k, ?_⟩
  · exact ⟨(hinv.lsm l hl).1, (Nat.le_of_lt hlt).trans (hinv.lsm l hl).2⟩
  · exact ⟨(hinv.lsn hl).1, hnsuffix.length_le.trans (hinv.lsn hl).2⟩
  · have htried := hinv.tried
    rw [hitems, hn] at htried
    exact Glob.tried_one htried
  · rcases hinv.score with ⟨q, c', f, x, hscore, hsofar, hf, hc, hsum, hlsn⟩
    refine ⟨q, c', k / 0x8000, k % 0x8000, hscore, ?_, ?_, hc, ?_, hlsn⟩
    · exact (Nat.div_add_mod' k 0x8000).symm
    · omega
    · rw [hn, List.length_cons] at hsum
      have hx : s.sofar % 0x8000 ≤ x := by
        rw [hsofar]
        omega
      simp only
      omega
  · rw [hitems, hn]
    exact (Glob.open_one hp).symm

/-- A star: the place behind it is the one to start again from. -/
theorem WildInv.star (hpercent : WILDP ∉ mask) (hinv : WildInv mask name s) (hm : s.m = WILDS :: m)
    (hquoted : quotedAt s.m = false) (hn : s.n ≠ []) :
    WildRound mask name s { s with
      m := zapWilds WILDS m, lsm := some (zapWilds WILDS m), lsn := s.n, score := s.score + s.sofar,
      sofar := 0 } := by
  have hnopercent : WILDP ∉ m := by
    intro hmem
    apply hpercent
    apply hinv.m.subset
    rw [hm]
    exact List.mem_cons_of_mem _ hmem
  rw [hm] at hquoted
  have hlen := length_zapWilds hquoted
  have hsuffix : zapWilds WILDS m <:+ mask := (zapWilds_suffix WILDS m).trans (hm ▸ hinv.m)
  have hmlen : m.length + 1 ≤ mask.length := by
    have hle := hinv.m.length_le
    rwa [hm, List.length_cons] at hle
  have hnlen := hinv.n.length_le
  refine ⟨⟨hsuffix, hinv.n, fun l hl => ?_, fun _ => ⟨hinv.n, Nat.le_refl _⟩, Glob.tried_self, ?_⟩, ?_, ?_⟩
  · cases hl
    exact ⟨hsuffix, Nat.le_refl _⟩
  · rcases hinv.score with ⟨q, c', f, x, hscore, hsofar, hf, hc, hsum, _⟩
    refine ⟨q + f, c' + x, 0, 0, ?_, rfl, Nat.zero_le _, Nat.le_add_right_of_le hc, ?_, fun _ => ?_⟩
    · simp only [hscore, hsofar]
      omega
    · simpa using hsum
    · simpa using hsum
  · simp only [wildLeft, if_neg hn]
    -- The measure goes down: the place behind the star is shorter than the last one to start from.
    generalize hA : (name.length + 1) * (mask.length + 1) = A
    have hroom : s.n.length * (mask.length + 1) + mask.length < A := by
      rw [← hA, Nat.succ_mul]
      have hmul := Nat.mul_le_mul_right (mask.length + 1) hnlen
      omega
    have hless : ∀ P, (zapWilds WILDS m).length + 1 ≤ P →
        (zapWilds WILDS m).length * A + A ≤ P * A := by
      intro P hP
      have hmul := Nat.mul_le_mul_right A hP
      rwa [Nat.succ_mul] at hmul
    cases hl : s.lsm with
    | none =>
        have := hless (mask.length + 1) (by omega)
        simp only
        omega
    | some l =>
        have hle := (hinv.lsm l hl).2
        rw [hm, List.length_cons] at hle
        have := hless l.length (by omega)
        simp only
        omega
  · -- What was tried before the star need not be tried again.
    have htried := hinv.tried
    rw [hm, maskItems_of_not_quoted hquoted] at htried ⊢
    rw [show wildItem WILDS = Glob.star from rfl] at htried ⊢
    rw [Glob.open_star htried, ← Glob.matches_star_open, ← Glob.matches_star_star (g := maskItems m)]
    have hzap := zapWilds_matches (s := s.n) hnopercent
    rw [maskItems_of_not_quoted hquoted, show wildItem WILDS = Glob.star from rfl] at hzap
    rw [hzap]
    exact Glob.matches_star_open.symm

/-- A byte that does not match: one byte more for the last star. -/
theorem WildInv.restart (hinv : WildInv mask name s) {l : CStr} (hl : s.lsm = some l) (hn : s.n ≠ [])
    (hno : ¬ Glob.Matches (maskItems s.m) s.n) :
    WildRound mask name s { s with
      m := l, n := s.lsn.tail, lsm := if s.lsn.tail = [] then none else some l, lsn := s.lsn.tail,
      sofar := 0 } := by
  rcases hinv.lsm l hl with ⟨hlmask, hlm⟩
  rcases hinv.lsn (by rw [hl]; simp) with ⟨hlname, hln⟩
  -- The star has a byte left to take, or the name would be at its end.
  have hlsn : ∃ a t, s.lsn = a :: t := by
    cases hcase : s.lsn with
    | nil =>
        rw [hcase] at hln
        exact absurd (List.length_eq_zero_iff.1 (Nat.le_zero.1 hln)) hn
    | cons a t => exact ⟨a, t, rfl⟩
  rcases hlsn with ⟨a, t, ht⟩
  have htname : t <:+ name := (List.suffix_cons a t).trans (ht ▸ hlname)
  -- The tail that was tried did not match, so what is open is what it was.
  have hopen : Glob.Open (maskItems l) t (some (maskItems l, t)) ↔
      Glob.Open (maskItems s.m) s.n (wildRestart s) := by
    rw [wildRestart, hl, ht]
    exact (Glob.open_restart hno).symm
  have hscore : ∃ q c f x, s.score = q * 0x8000 + c ∧ (0 : Nat) = f * 0x8000 + x ∧ f ≤ 1 ∧ 1 ≤ c ∧
      c + x + t.length ≤ name.length + 1 ∧ c + t.length ≤ name.length + 1 := by
    rcases hinv.score with ⟨q, c', f, x, hscore, _, _, hc, _, hsum⟩
    have hsum' := hsum (by rw [hl]; simp)
    rw [ht, List.length_cons] at hsum'
    exact ⟨q, c', 0, 0, hscore, rfl, Nat.zero_le _, hc, by omega, by omega⟩
  rcases hscore with ⟨q, c', f, x, hq, hx, hf, hc, hsum, hsum'⟩
  rw [ht, List.tail_cons]
  by_cases hend : t = []
  · subst hend
    refine ⟨⟨hlmask, htname, by simp, by simp, ?_, ?_⟩, ?_, ?_⟩
    · intro g' s' hnone
      simp [wildRestart] at hnone
    · exact ⟨q, c', f, x, hq, hx, hf, hc, hsum, by simp⟩
    · -- There is no byte left for the star, and its place is given up.
      simp only [wildLeft, if_neg hn, if_true]
      cases s.lsm with
      | none => exact Nat.succ_pos _
      | some l => exact Nat.succ_pos _
    · rw [← hopen, wildRestart]
      simp [Glob.Open]
  · refine ⟨⟨hlmask, htname, ?_, fun _ => ⟨htname, Nat.le_refl _⟩, ?_, ?_⟩, ?_, ?_⟩
    · intro l' hl'
      rw [if_neg hend] at hl'
      cases hl'
      exact ⟨hlmask, Nat.le_refl _⟩
    · simp only [wildRestart, if_neg hend]
      exact Glob.tried_self
    · exact ⟨q, c', f, x, hq, hx, hf, hc, hsum, fun _ => hsum'⟩
    · simp only [wildLeft, if_neg hn, if_neg hend, hl, ht, List.length_cons, Nat.succ_mul]
      have hle := hlmask.length_le
      omega
    · rw [← hopen]
      simp only [wildRestart, if_neg hend]
      rfl

end Rounds

/-! ## The loop -/

section Loop

variable {mask name : CStr} {s : WildMatch}

/-- What the result says when the text is used up. -/
theorem WildInv.result (hpercent : WILDP ∉ mask) (hlength : name.length < 0x7FFF)
    (hinv : WildInv mask name s) (hn : s.n = []) :
    wildResult s ≠ 0 ↔ Glob.Open (maskItems s.m) s.n (wildRestart s) := by
  have htried := hinv.tried
  rw [hn] at htried ⊢
  rw [Glob.open_nil htried, maskItems_nil]
  have hscore : (s.score + s.sofar) &&& UNQUOTED ≠ 0 := by
    rcases hinv.score with ⟨q, c, f, x, hscore, hsofar, hf, hc, hsum, _⟩
    rw [and_unquoted, hscore, hsofar]
    omega
  have hstars : s.m.dropWhile (fun b => decide (b = WILDS ∨ b = WILDP)) = [] ↔ ∀ b ∈ s.m, b = WILDS := by
    rw [List.dropWhile_eq_nil_iff]
    constructor
    · intro h b hb
      rcases of_decide_eq_true (h b hb) with hstar | hper
      · exact hstar
      · exact absurd (hinv.m.subset (hper ▸ hb)) hpercent
    · intro h b hb
      exact decide_eq_true (Or.inl (h b hb))
  rw [wildResult, ← hstars]
  split
  · next hnil => exact ⟨fun _ => hnil, fun _ => hscore⟩
  · next hnil => exact ⟨fun h => absurd rfl h, fun h => absurd h hnil⟩

/-- The comparison of a byte of the mask with one of the text; behind the byte `m` is left of the mask. -/
def compareRound (k : Nat) (s : WildMatch) (b c : Byte) (m n : CStr) (sofar : Nat) : Option Nat :=
  if tolower b = tolower c then wildLoop k { s with m := m, n := n, sofar := sofar }
  else
    match s.lsm with
    | none => some 0
    | some lsm =>
        wildLoop k
          { s with
            m := lsm
            n := s.lsn.tail
            lsm := if s.lsn.tail = [] then none else some lsm
            lsn := s.lsn.tail
            sofar := 0 }

section Equations

variable {m n : CStr} {b c : Byte} {k f x : Nat}

theorem wildLoop_quoted (hn : s.n = c :: n) (hm : s.m = b :: WILDQUOTE :: m) (hf : f ≤ 1)
    (hsofar : s.sofar = f * 0x8000 + x) (hx : x + 1 < 0x8000) :
    wildLoop (k + 1) s = compareRound k s b c m n (0x8000 + x + 1) := by
  have hor : s.sofar ||| QUOTED = 0x8000 + x := by
    rw [hsofar, or_quoted hf (Nat.lt_of_succ_lt hx)]
  have hflag : (0x8000 + x + 1) &&& QUOTED ≠ 0 := (and_quoted (Nat.le_refl 1) hx).2 rfl
  have hq : quotedAt (b :: WILDQUOTE :: m) = true := rfl
  simp only [wildLoop, hn, hm, hq, Bool.true_eq_false, false_and, if_false, if_true, hor,
    if_pos hflag, List.headD_cons, List.tail_cons]
  rfl

theorem wildLoop_star (hn : s.n = c :: n) (hm : s.m = WILDS :: m) (hq : quotedAt s.m = false) :
    wildLoop (k + 1) s = wildLoop k { s with
      m := zapWilds WILDS m, lsm := some (zapWilds WILDS m), lsn := s.n, score := s.score + s.sofar,
      sofar := 0 } := by
  rw [hm] at hq
  simp only [wildLoop, hn, hm, hq, List.headD_cons, true_and, if_true, List.tail_cons]

theorem wildLoop_any (hn : s.n = c :: n) (hm : s.m = WILDQ :: m) (hq : quotedAt s.m = false) :
    wildLoop (k + 1) s = wildLoop k { s with m := m, n := n } := by
  have hstar : ¬ WILDQ = WILDS := by decide
  rw [hm] at hq
  simp only [wildLoop, hn, hm, hq, List.headD_cons, true_and, if_neg hstar, if_true, List.tail_cons]

theorem wildLoop_plain (hn : s.n = c :: n) (hq : quotedAt s.m = false) (hstar : s.m.headD 0 ≠ WILDS)
    (hany : s.m.headD 0 ≠ WILDQ) (hsofar : s.sofar = f * 0x8000 + x) (hx : x + 1 < 0x8000) :
    wildLoop (k + 1) s = compareRound k s (s.m.headD 0) c s.m.tail n (x + 1) := by
  have hand : s.sofar &&& UNQUOTED = x := by
    rw [and_unquoted, hsofar]
    omega
  have hflag : ¬ ((x + 1) &&& QUOTED ≠ 0) := by
    have h := and_quoted (Nat.zero_le 1) hx
    rw [Nat.zero_mul, Nat.zero_add] at h
    rw [h]
    decide
  simp only [wildLoop, hn, hq, true_and, if_neg hstar, if_neg hany, Bool.false_eq_true, if_false, hand,
    if_neg hflag]
  rfl

end Equations

/-- The loop has ended, and says whether there is a match from `s` or from a later start. -/
def Tells (s : WildMatch) (result : Option Nat) : Prop :=
  ∃ r, result = some r ∧ (r ≠ 0 ↔ Glob.Open (maskItems s.m) s.n (wildRestart s))

/-- The byte is compared, or the last star takes one more. -/
theorem WildInv.compared (hinv : WildInv mask name s) {k : Nat}
    (hround : ∀ t, WildRound mask name s t → Tells s (wildLoop k t)) {b c : Byte} {m n : CStr}
    (hn : s.n = c :: n) {sofar : Nat} (hm : m <:+ s.m)
    (hsame : tolower b = tolower c → maskItems s.m = literal b :: maskItems m)
    (hother : tolower b ≠ tolower c → ¬ Glob.Matches (maskItems s.m) s.n)
    (hsofar : sofar % 0x8000 ≤ s.sofar % 0x8000 + 1) (hflag : sofar < 0x10000) :
    Tells s (compareRound k s b c m n sofar) := by
  rw [compareRound]
  by_cases hb : tolower b = tolower c
  · rw [if_pos hb]
    exact hround _ (hinv.advance hn (by simp [hb]) hm (hsame hb) hsofar hflag)
  · rw [if_neg hb]
    cases hl : s.lsm with
    | none =>
        refine ⟨0, rfl, ?_⟩
        simp [Glob.Open, wildRestart, hl, hother hb]
    | some l =>
        exact hround _ (hinv.restart hl (by simp [hn]) (hother hb))

theorem not_matches_literal {b c : Byte} {g : List (Glob Byte)} {n : CStr} (hb : tolower b ≠ tolower c) :
    ¬ Glob.Matches (literal b :: g) (c :: n) := by
  rw [literal, Glob.matches_one_cons]
  rintro ⟨hsame, _⟩
  exact hb (beq_iff_eq.1 hsame).symm

theorem cons_of_headD {m : CStr} {b : Byte} (h : m.headD 0 = b) (hb : b ≠ 0) : ∃ t, m = b :: t := by
  cases m with
  | nil => exact absurd h.symm hb
  | cons a t => exact ⟨t, congrArg (· :: t) h⟩

/-- In front of what is left of the mask there is neither a quoted byte nor a wildcard. -/
theorem maskItems_plain {m : CStr} (hq : quotedAt m = false) (hstar : m.headD 0 ≠ WILDS)
    (hany : m.headD 0 ≠ WILDQ) (hne : m ≠ []) : maskItems m = literal (m.headD 0) :: maskItems m.tail := by
  cases m with
  | nil => exact absurd rfl hne
  | cons b m =>
      rw [List.headD_cons] at hstar hany
      rw [maskItems_of_not_quoted hq, wildItem, if_neg hstar, if_neg hany]
      rfl

theorem WildInv.plain (hinv : WildInv mask name s) {k : Nat}
    (hround : ∀ t, WildRound mask name s t → Tells s (wildLoop k t)) {c : Byte} {n : CStr} (hc : c ≠ 0)
    (hn : s.n = c :: n) (hq : quotedAt s.m = false) (hstar : s.m.headD 0 ≠ WILDS)
    (hany : s.m.headD 0 ≠ WILDQ) {sofar : Nat} (hsofar : sofar % 0x8000 ≤ s.sofar % 0x8000 + 1)
    (hflag : sofar < 0x10000) : Tells s (compareRound k s (s.m.headD 0) c s.m.tail n sofar) := by
  apply hinv.compared hround hn (List.tail_suffix _) _ _ hsofar hflag
  · intro hb
    apply maskItems_plain hq hstar hany
    intro hnil
    rw [hnil] at hb
    exact tolower_ne_zero hc hb.symm
  · intro hb
    rw [hn]
    by_cases hnil : s.m = []
    · rw [hnil]
      exact fun h => by cases h
    · rw [maskItems_plain hq hstar hany hnil]
      exact not_matches_literal hb

theorem wildLoop_spec (hpercent : WILDP ∉ mask) (hzero : (0 : Byte) ∉ name)
    (hlength : name.length < 0x7FFF) (k : Nat) :
    ∀ s, WildInv mask name s → wildLeft mask name s < k → Tells s (wildLoop k s) := by
  induction k with
  | zero =>
      intro s _ hk
      exact absurd hk (Nat.not_lt_zero _)
  | succ k ih =>
      intro s hinv hk
      -- Each branch of the source is one round, after which the induction goes on.
      have hround : ∀ t, WildRound mask name s t → Tells s (wildLoop k t) := by
        intro t ht
        rcases ih t ht.inv (Nat.lt_of_lt_of_le ht.less (Nat.le_of_lt_succ hk)) with ⟨r, hr, hspec⟩
        exact ⟨r, hr, hspec.trans ht.same⟩
      cases hn : s.n with
      | nil =>
          exact ⟨wildResult s, by simp only [wildLoop, hn], hinv.result hpercent hlength hn⟩
      | cons c n =>
          have hne : s.n ≠ [] := by simp [hn]
          have hc : c ≠ 0 := by
            rintro rfl
            apply hzero
            apply hinv.n.subset
            rw [hn]
            exact List.mem_cons_self
          rcases hinv.score with ⟨q, c', f, x, _, hsofar, hf, hc', hsum, _⟩
          have hx : x + 1 < 0x8000 := by
            rw [hn, List.length_cons] at hsum
            omega
          cases hq : quotedAt s.m with
          | true =>
              -- A quoted byte stands for itself.
              rcases exists_of_quotedAt hq with ⟨b, m, hm, hitems⟩
              have hsuffix : m <:+ s.m := by
                rw [hm]
                exact (List.suffix_cons WILDQUOTE m).trans (List.suffix_cons b _)
              rw [wildLoop_quoted hn hm hf hsofar hx]
              apply hinv.compared hround hn hsuffix (fun _ => hitems)
              · intro hb
                rw [hitems, hn]
                exact not_matches_literal hb
              · rw [hsofar]
                omega
              · omega
          | false =>
              by_cases hstar : s.m.headD 0 = WILDS
              · rcases cons_of_headD hstar (by decide) with ⟨m, hm⟩
                rw [wildLoop_star hn hm hq]
                exact hround _ (hinv.star hpercent hm hq hne)
              by_cases hany : s.m.headD 0 = WILDQ
              · rcases cons_of_headD hany (by decide) with ⟨m, hm⟩
                -- A `?` takes any byte.
                have hitems : maskItems s.m = .one (fun _ => true) :: maskItems m := by
                  rw [hm, maskItems_of_not_quoted (hm ▸ hq)]
                  rfl
                rw [wildLoop_any hn hm hq]
                exact hround { s with m := m, n := n, sofar := s.sofar }
                  (hinv.advance hn rfl (by rw [hm]; exact List.suffix_cons _ m) hitems (Nat.le_succ _)
                    (by rw [hsofar]; omega))
              · rw [wildLoop_plain hn hq hstar hany hsofar hx]
                apply hinv.plain hround hc hn hq hstar hany
                · rw [hsofar]
                  omega
                · omega

end Loop

/-- A mask without `%` succeeds on exactly the texts of its language; an empty mask or text never does. -/
theorem wild_match_iff (em en : CStr) (hpercent : WILDP ∉ em) (hzero : (0 : Byte) ∉ en)
    (hlength : en.length < 0x7FFF) :
    ∃ r, wild_match em en = some r ∧ (r ≠ 0 ↔ em ≠ [] ∧ en ≠ [] ∧ InMask em en) := by
  rw [wild_match]
  by_cases hempty : em = [] ∨ en = []
  · rw [if_pos hempty]
    refine ⟨0, rfl, ?_⟩
    rcases hempty with h | h
    · simp [h]
    · simp [h]
  rw [if_neg hempty]
  rw [not_or] at hempty
  have hinv : WildInv em.reverse en.reverse { m := em.reverse, n := en.reverse } := by
    refine ⟨List.suffix_refl _, List.suffix_refl _, by simp, by simp, ?_, ?_⟩
    · intro g' s' hnone
      simp [wildRestart] at hnone
    · exact ⟨0, 1, 0, 0, rfl, rfl, Nat.zero_le _, Nat.le_refl _, by simp [Nat.add_comm], by simp⟩
  have hrounds : wildLeft em.reverse en.reverse { m := em.reverse, n := en.reverse } <
      wildRounds em en := by
    simp only [wildLeft, wildRounds, List.length_reverse]
    rw [if_neg (by simpa using hempty.2)]
    generalize hA : (en.length + 1) * (em.length + 1) = A
    have hle : em.length + 1 ≤ A := by
      rw [← hA]
      exact Nat.le_mul_of_pos_left _ (Nat.succ_pos _)
    rw [Nat.succ_mul (em.length + 1)]
    omega
  rcases wildLoop_spec (by simpa using hpercent) (by simpa using hzero) (by simpa using hlength) _ _ hinv
    hrounds with ⟨r, hr, hspec⟩
  refine ⟨r, hr, ?_⟩
  rw [hspec]
  have hopen : Glob.Open (maskItems em.reverse) en.reverse (wildRestart ⟨em.reverse, en.reverse, none, [], 1, 0⟩) ↔
      Glob.Matches (maskItems em.reverse) en.reverse := by
    simp [Glob.Open, wildRestart]
  have hreverse := Glob.matches_reverse (g := (maskItems em.reverse).reverse) (s := en)
  rw [List.reverse_reverse] at hreverse
  rw [hopen, InMask, hreverse]
  simp [hempty.1, hempty.2]

theorem wild_match_iff_host :
    ∃ r, wild_match (ascii "*!~b?b@*.Example.\\*") (ascii "Bob!~bob@irc.example.*") = some r ∧
      (r ≠ 0 ↔ ascii "*!~b?b@*.Example.\\*" ≠ [] ∧ ascii "Bob!~bob@irc.example.*" ≠ [] ∧
        InMask (ascii "*!~b?b@*.Example.\\*") (ascii "Bob!~bob@irc.example.*")) :=
  wild_match_iff _ _ (by decide) (by decide) (by decide)

end PsyBnc
