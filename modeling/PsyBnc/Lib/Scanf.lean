import PsyBnc.Lib.CString
import Mathlib.Tactic.IntervalCases
import Mathlib.Data.List.TakeWhile

/-!
# Decimal numbers in C strings

`dec n` is what `printf("%d")` writes for a natural number, and `sscanf` reads it back.  The
reader interprets the part of the `scanf` language that C programs use to parse keyed lines:
literal bytes, white space, `%d` and `%Ns`.
-/

namespace CLib

/-! ## Printing -/

/-- The text of `%d` for a natural number. -/
def dec (n : Nat) : CStr := (Nat.toDigits 10 n).map (fun c => UInt8.ofNat c.toNat)

def isDigit (b : Byte) : Bool := decide (48 ≤ b ∧ b ≤ 57)

/-- The value of a string of digits, most significant first. -/
def digitsVal (ds : CStr) : Nat := ds.foldl (fun a d => 10 * a + (d.toNat - 48)) 0

theorem digitsVal_append_singleton (ds : CStr) (d : Byte) :
    digitsVal (ds ++ [d]) = 10 * digitsVal ds + (d.toNat - 48) := by
  simp [digitsVal]

theorem digitChar_byte {d : Nat} (h : d < 10) :
    UInt8.ofNat (Nat.digitChar d).toNat = UInt8.ofNat (48 + d) := by
  interval_cases d <;> decide

theorem dec_of_lt {n : Nat} (h : n < 10) : dec n = [UInt8.ofNat (48 + n)] := by
  rw [dec, Nat.toDigits_of_lt_base h, List.map_singleton, digitChar_byte h]

theorem dec_of_ge {n : Nat} (h : 10 ≤ n) :
    dec n = dec (n / 10) ++ [UInt8.ofNat (48 + n % 10)] := by
  have hd : n % 10 < 10 := Nat.mod_lt _ (by omega)
  rw [dec, Nat.toDigits_of_base_le (by omega) h, List.map_append, List.map_singleton,
    digitChar_byte hd, dec]

theorem dec_ne_nil (n : Nat) : dec n ≠ [] := by
  simp [dec, Nat.toDigits_ne_nil]

theorem toNat_digitByte {d : Nat} (h : d < 10) : (UInt8.ofNat (48 + d)).toNat = 48 + d := by
  rw [UInt8.toNat_ofNat']
  omega

theorem isDigit_digitByte {d : Nat} (h : d < 10) : isDigit (UInt8.ofNat (48 + d)) = true := by
  interval_cases d <;> decide

theorem isDigit_of_mem_dec {n : Nat} {b : Byte} (h : b ∈ dec n) : isDigit b = true := by
  induction n using Nat.strong_induction_on with
  | _ n ih =>
      by_cases hn : n < 10
      · rw [dec_of_lt hn, List.mem_singleton] at h
        rw [h]
        exact isDigit_digitByte hn
      · rw [dec_of_ge (by omega), List.mem_append, List.mem_singleton] at h
        rcases h with h | rfl
        · exact ih (n / 10) (Nat.div_lt_self (by omega) (by omega)) h
        · exact isDigit_digitByte (Nat.mod_lt _ (by omega))

theorem digitsVal_dec (n : Nat) : digitsVal (dec n) = n := by
  induction n using Nat.strong_induction_on with
  | _ n ih =>
      by_cases hn : n < 10
      · rw [dec_of_lt hn]
        simp only [digitsVal, List.foldl_cons, List.foldl_nil, toNat_digitByte hn]
        omega
      · have hlt : n / 10 < n := Nat.div_lt_self (by omega) (by omega)
        have hd : n % 10 < 10 := Nat.mod_lt _ (by omega)
        rw [dec_of_ge (by omega), digitsVal_append_singleton, ih _ hlt, toNat_digitByte hd]
        omega

theorem dec_injective : Function.Injective dec := by
  intro m n h
  rw [← digitsVal_dec m, ← digitsVal_dec n, h]

theorem length_dec_le {n k : Nat} (hk : 0 < k) : (dec n).length ≤ k ↔ n < 10 ^ k := by
  rw [dec, List.length_map]
  exact Nat.length_toDigits_le_iff (by omega) hk

/-- A byte that is no digit does not occur in a printed number. -/
theorem notMem_dec {n : Nat} {b : Byte} (hb : isDigit b = false) : b ∉ dec n := by
  intro h
  rw [isDigit_of_mem_dec h] at hb
  exact Bool.noConfusion hb

theorem takeWhile_isDigit_dec (n : Nat) {b : Byte} {r : CStr} (hb : isDigit b = false) :
    (dec n ++ b :: r).takeWhile isDigit = dec n := by
  rw [List.takeWhile_append_of_pos (fun _ h => isDigit_of_mem_dec h), List.takeWhile_cons]
  simp [hb]

theorem dropWhile_isDigit_dec (n : Nat) {b : Byte} {r : CStr} (hb : isDigit b = false) :
    (dec n ++ b :: r).dropWhile isDigit = b :: r := by
  rw [List.dropWhile_append_of_pos (fun _ h => isDigit_of_mem_dec h), List.dropWhile_cons]
  simp [hb]

/-! ## Scanning -/

def isSpace (b : Byte) : Bool := decide (b = 32 ∨ (9 ≤ b ∧ b ≤ 13))

def skipSpace (s : CStr) : CStr := s.dropWhile isSpace

/-- `%d`: optional white space and sign, then at least one digit. -/
def scanInt (s : CStr) : Option (Int × CStr) :=
  let t := skipSpace s
  let neg := t.head? = some 45
  let u := if t.head? = some 45 ∨ t.head? = some 43 then t.tail else t
  let ds := u.takeWhile isDigit
  if ds = [] then none
  else some (if neg then -(digitsVal ds : Int) else (digitsVal ds : Int), u.dropWhile isDigit)

/-- `atoi`: the number `%d` reads, or `0`. -/
def atoi (s : CStr) : Int :=
  match scanInt s with
  | some (i, _) => i
  | none => 0

theorem head?_dec_isDigit (n : Nat) (r : CStr) :
    ∃ b t, dec n ++ r = b :: t ∧ isDigit b = true := by
  cases h : dec n with
  | nil =>
      exact absurd h (dec_ne_nil n)
  | cons b t =>
      exact ⟨b, t ++ r, rfl, isDigit_of_mem_dec (n := n) (by simp [h])⟩

theorem isSpace_of_isDigit {b : Byte} (h : isDigit b = true) :
    isSpace b = false ∧ b ≠ 45 ∧ b ≠ 43 := by
  simp only [isDigit, decide_eq_true_eq, UInt8.le_iff_toNat_le] at h
  refine ⟨?_, ?_, ?_⟩
  · simp only [isSpace, decide_eq_false_iff_not, UInt8.le_iff_toNat_le, ← UInt8.toNat_inj]
    simp at h ⊢
    omega
  · rintro rfl
    simp at h
  · rintro rfl
    simp at h

theorem scanInt_dec (n : Nat) {b : Byte} {r : CStr} (hb : isDigit b = false) :
    scanInt (dec n ++ b :: r) = some ((n : Int), b :: r) := by
  rcases head?_dec_isDigit n (b :: r) with ⟨c, t, hc, hdig⟩
  rcases isSpace_of_isDigit hdig with ⟨hsp, hminus, hplus⟩
  have hskip : skipSpace (dec n ++ b :: r) = dec n ++ b :: r := by
    rw [hc, skipSpace, List.dropWhile_cons]
    simp [hsp]
  have hhead : (dec n ++ b :: r).head? = some c := by rw [hc]; rfl
  simp only [scanInt, hskip, hhead, Option.some.injEq, hminus, hplus, or_self, if_false,
    takeWhile_isDigit_dec n hb, dropWhile_isDigit_dec n hb, dec_ne_nil, digitsVal_dec]

/-- A conversion or literal of a `scanf` format. -/
inductive Directive where
  | lit (b : Byte)
  | space
  | int
  | str (width : Nat)
  deriving DecidableEq, Repr

/-- A value assigned by `sscanf`. -/
inductive ScanVal where
  | int (i : Int)
  | str (s : CStr)
  deriving DecidableEq, Repr

/-- Reads a format; the first argument bounds the number of directives. -/
def scanFormatAux : Nat → CStr → List Directive
  | 0, _ => []
  | _ + 1, [] => []
  | n + 1, b :: bs =>
      if b = 37 then
        match bs.dropWhile isDigit with
        | 100 :: r => .int :: scanFormatAux n r
        | 115 :: r => .str (digitsVal (bs.takeWhile isDigit)) :: scanFormatAux n r
        | 37 :: r => .lit 37 :: scanFormatAux n r
        | _ => []
      else if isSpace b then .space :: scanFormatAux n bs
      else .lit b :: scanFormatAux n bs

def scanFormat (fmt : CStr) : List Directive := scanFormatAux fmt.length fmt

/-- The values that `sscanf(s, fmt, …)` assigns, in order; its return value is their number. -/
def sscanf : List Directive → CStr → List ScanVal
  | [], _ => []
  | .lit _ :: _, [] => []
  | .lit b :: ds, c :: cs => if c = b then sscanf ds cs else []
  | .space :: ds, s => sscanf ds (skipSpace s)
  | .int :: ds, s =>
      match scanInt s with
      | some (i, r) => .int i :: sscanf ds r
      | none => []
  | .str w :: ds, s =>
      let u := ((skipSpace s).takeWhile (fun b => !isSpace b)).take w
      if u = [] then [] else .str u :: sscanf ds ((skipSpace s).drop u.length)

/-- A byte that stands for itself in a format. -/
def isPlain (b : Byte) : Bool := decide (b ≠ 37) && !isSpace b

theorem scanFormatAux_plain {p : CStr} (hp : ∀ b ∈ p, isPlain b = true) (n : Nat) (fmt : CStr) :
    scanFormatAux (p.length + n) (p ++ fmt) = p.map .lit ++ scanFormatAux n fmt := by
  induction p with
  | nil =>
      simp
  | cons b bs ih =>
      have hb := hp b (by simp)
      simp only [isPlain, Bool.and_eq_true, decide_eq_true_eq, Bool.not_eq_true'] at hb
      have hlen : (b :: bs).length + n = (bs.length + n) + 1 := by
        simp only [List.length_cons]
        omega
      rw [hlen, List.cons_append, scanFormatAux, if_neg hb.1, hb.2,
        ih (fun c hc => hp c (List.mem_cons_of_mem _ hc))]
      simp

theorem scanFormat_plain {p : CStr} (hp : ∀ b ∈ p, isPlain b = true) (fmt : CStr) :
    scanFormat (p ++ fmt) = p.map .lit ++ scanFormat fmt := by
  rw [scanFormat, List.length_append, scanFormatAux_plain hp, scanFormat]

theorem sscanf_lit_append (p s : CStr) (ds : List Directive) :
    sscanf (p.map .lit ++ ds) (p ++ s) = sscanf ds s := by
  induction p with
  | nil =>
      rfl
  | cons b bs ih =>
      simpa [sscanf] using ih

/-- A text that does not start with the literal part of a format assigns nothing. -/
theorem sscanf_lit_of_not_prefix {p s : CStr} (h : ¬ p <+: s) (ds : List Directive) :
    sscanf (p.map .lit ++ ds) s = [] := by
  induction p generalizing s with
  | nil =>
      exact absurd (List.nil_prefix) h
  | cons b bs ih =>
      cases s with
      | nil =>
          simp [sscanf]
      | cons c cs =>
          by_cases hc : c = b
          · have htail : ¬ bs <+: cs := fun hpre => h (by simpa [hc] using hpre)
            simpa [sscanf, hc] using ih htail
          · simp [sscanf, hc]

/-! ## Signed numbers -/

/-- The text of `%d`. -/
def decInt (x : Int) : CStr := if x < 0 then 45 :: dec x.natAbs else dec x.natAbs

section Signed

variable {ds : CStr}

theorem digitsVal_lt (hds : ∀ b ∈ ds, isDigit b = true) : digitsVal ds < 10 ^ ds.length := by
  induction ds using List.reverseRecOn with
  | nil =>
      simp [digitsVal]
  | append_singleton ds d ih =>
      have hd := hds d (by simp)
      have hds' := ih (fun b hb => hds b (List.mem_append_left _ hb))
      simp only [isDigit, decide_eq_true_eq, UInt8.le_iff_toNat_le] at hd
      have hle : d.toNat ≤ 57 := hd.2
      rw [digitsVal_append_singleton, List.length_append, List.length_singleton, Nat.pow_succ]
      omega

theorem skipSpace_of_head {b : Byte} {s : CStr} (hb : isSpace b = false) :
    skipSpace (b :: s) = b :: s := by
  simp [skipSpace, hb]

/-- Digits up to the end of the text. -/
theorem atoi_digits (hne : ds ≠ []) (hds : ∀ b ∈ ds, isDigit b = true) :
    atoi ds = digitsVal ds := by
  cases ds with
  | nil =>
      exact absurd rfl hne
  | cons d ds =>
      rcases isSpace_of_isDigit (hds d (by simp)) with ⟨hspace, hminus, hplus⟩
      have htake : (d :: ds).takeWhile isDigit = d :: ds := List.takeWhile_eq_self_iff.2 hds
      simp [atoi, scanInt, skipSpace_of_head hspace, hminus, hplus, htake]

theorem atoi_minus (hds : ∀ b ∈ ds, isDigit b = true) : atoi (45 :: ds) = -(digitsVal ds : Int) := by
  have hspace : isSpace 45 = false := by decide
  have htake : ds.takeWhile isDigit = ds := List.takeWhile_eq_self_iff.2 hds
  by_cases hne : ds = []
  · subst hne
    simp [atoi, scanInt, skipSpace_of_head hspace, digitsVal]
  · simp [atoi, scanInt, skipSpace_of_head hspace, htake, hne]

theorem isDigit_dec (n : Nat) : ∀ b ∈ dec n, isDigit b = true :=
  fun _ hb => isDigit_of_mem_dec hb

theorem isDigit_take (hds : ∀ b ∈ ds, isDigit b = true) (k : Nat) :
    ∀ b ∈ ds.take k, isDigit b = true :=
  fun b hb => hds b (List.mem_of_mem_take hb)

theorem atoi_decInt (x : Int) : atoi (decInt x) = x := by
  by_cases hneg : x < 0
  · rw [decInt, if_pos hneg, atoi_minus (isDigit_dec _), digitsVal_dec]
    omega
  · rw [decInt, if_neg hneg, atoi_digits (dec_ne_nil _) (isDigit_dec _), digitsVal_dec]
    omega

/-- The first digits of a number are those of a smaller one. -/
theorem digitsVal_take_dec_lt {n k : Nat} (hpos : 0 < n ∨ 0 < k) (hk : k < (dec n).length) :
    digitsVal ((dec n).take k) < n := by
  have hlen : ((dec n).take k).length = k := by
    rw [List.length_take]
    omega
  have hlt := digitsVal_lt (isDigit_take (isDigit_dec n) k)
  rw [hlen] at hlt
  by_contra hge
  have hsmall : n < 10 ^ k := by omega
  by_cases hzero : k = 0
  · rw [hzero] at hsmall
    omega
  · have hle := (length_dec_le (by omega)).2 hsmall
    omega

/-- A number printed into a buffer is read back if and only if it fits there. -/
theorem atoi_clip_decInt_iff {n : Nat} (hn : 2 ≤ n) (x : Int) :
    atoi (clip n (decInt x)) = x ↔ (decInt x).length < n := by
  constructor
  · intro h
    by_contra hlong
    by_cases hneg : x < 0
    · -- the sign and the first digits are left
      rw [decInt, if_pos hneg, List.length_cons] at hlong
      have hcut : clip n (decInt x) = 45 :: (dec x.natAbs).take (n - 2) := by
        rw [decInt, if_pos hneg, clip, show n - 1 = (n - 2) + 1 by omega, List.take_succ_cons]
      have hlt : digitsVal ((dec x.natAbs).take (n - 2)) < x.natAbs :=
        digitsVal_take_dec_lt (Or.inl (by omega)) (by omega)
      rw [hcut, atoi_minus (isDigit_take (isDigit_dec _) _)] at h
      omega
    · rw [decInt, if_neg hneg] at hlong
      have hcut : clip n (decInt x) = (dec x.natAbs).take (n - 1) := by
        rw [decInt, if_neg hneg, clip]
      have hne : (dec x.natAbs).take (n - 1) ≠ [] := by
        rw [Ne, List.take_eq_nil_iff, not_or]
        exact ⟨by omega, dec_ne_nil _⟩
      have hlt : digitsVal ((dec x.natAbs).take (n - 1)) < x.natAbs :=
        digitsVal_take_dec_lt (Or.inr (by omega)) (by omega)
      rw [hcut, atoi_digits hne (isDigit_take (isDigit_dec _) _)] at h
      omega
  · intro hfit
    rw [clip_eq_self hfit, atoi_decInt]

end Signed

end CLib
