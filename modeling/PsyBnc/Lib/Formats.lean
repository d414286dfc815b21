import PsyBnc.Lib.Scanf

/-!
# Formats that are made of texts and conversions

A text without a `%` is a part of a `scanf` format of its own; there are no more values than conversions.
-/

namespace CLib

/-- What a byte other than `%` stands for. -/
def textDirective (b : Byte) : Directive := if isSpace b then .space else .lit b

def Directive.isConversion : Directive → Bool
  | .int => true
  | .str _ => true
  | _ => false

/-- The number of conversions. -/
def conversions (fmt : List Directive) : Nat := fmt.countP Directive.isConversion

section Formats

variable {p s fmt : CStr} {n : Nat}

theorem conversions_int (ds : List Directive) : conversions (.int :: ds) = conversions ds + 1 :=
  List.countP_cons_of_pos rfl

theorem conversions_str (w : Nat) (ds : List Directive) : conversions (.str w :: ds) = conversions ds + 1 :=
  List.countP_cons_of_pos rfl

theorem isConversion_textDirective (b : Byte) : (textDirective b).isConversion = false := by
  rw [textDirective]
  by_cases hspace : isSpace b = true
  · rw [if_pos hspace]
    rfl
  · rw [if_neg hspace]
    rfl

theorem conversions_text (p : CStr) (ds : List Directive) :
    conversions (p.map textDirective ++ ds) = conversions ds := by
  have hnone : (p.map textDirective).countP Directive.isConversion = 0 := by
    apply List.countP_eq_zero.2
    intro d hd
    rcases List.mem_map.1 hd with ⟨b, _, rfl⟩
    rw [isConversion_textDirective]
    exact Bool.false_ne_true
  rw [conversions, List.countP_append, hnone, Nat.zero_add, conversions]

theorem scanFormatAux_text (hp : 37 ∉ p) (n : Nat) (fmt : CStr) :
    scanFormatAux (p.length + n) (p ++ fmt) = p.map textDirective ++ scanFormatAux n fmt := by
  induction p with
  | nil =>
      rw [List.length_nil, Nat.zero_add]
      rfl
  | cons b p ih =>
      have hb : b ≠ 37 := fun h => hp (h ▸ List.mem_cons_self)
      have hlen : (b :: p).length + n = (p.length + n) + 1 := by
        rw [List.length_cons]
        omega
      rw [hlen, List.cons_append, scanFormatAux, if_neg hb, ih (fun h => hp (List.mem_cons_of_mem _ h)),
        List.map_cons, List.cons_append, textDirective]
      by_cases hspace : isSpace b = true
      · rw [if_pos hspace, if_pos hspace]
      · rw [if_neg hspace, if_neg hspace]

theorem scanFormat_text (hp : 37 ∉ p) (fmt : CStr) :
    scanFormat (p ++ fmt) = p.map textDirective ++ scanFormat fmt := by
  rw [scanFormat, List.length_append, scanFormatAux_text hp, scanFormat]

/-- A number between two texts, and what is left of the format. -/
theorem scanFormat_int (hp : 37 ∉ p) (hs : 37 ∉ s) (fmt : CStr) :
    scanFormat (p ++ (ascii "%d" ++ (s ++ fmt))) =
      p.map textDirective ++ .int :: (s.map textDirective ++ scanFormatAux (fmt.length + 1) fmt) := by
  have hnumber : ascii "%d" = [37, 100] := by decide
  have hdigit : (100 :: (s ++ fmt)).dropWhile isDigit = 100 :: (s ++ fmt) := by
    rw [List.dropWhile_cons, if_neg (by decide)]
  have hlen : (ascii "%d" ++ (s ++ fmt)).length = (s.length + (fmt.length + 1)) + 1 := by
    rw [hnumber, List.length_append, List.length_append]
    simp only [List.length_cons, List.length_nil]
    omega
  rw [scanFormat, List.length_append, scanFormatAux_text hp, hlen, hnumber, List.cons_append, List.cons_append,
    List.nil_append, scanFormatAux, if_pos rfl, hdigit]
  simp only [scanFormatAux_text hs]

theorem length_sscanf_le (ds : List Directive) (s : CStr) : (sscanf ds s).length ≤ conversions ds := by
  induction ds generalizing s with
  | nil =>
      exact Nat.le_refl 0
  | cons d ds ih =>
      cases d with
      | lit b =>
          cases s with
          | nil =>
              exact Nat.zero_le _
          | cons c s =>
              rw [sscanf]
              by_cases hc : c = b
              · rw [if_pos hc]
                exact ih s
              · rw [if_neg hc]
                exact Nat.zero_le _
      | space =>
          exact ih (skipSpace s)
      | int =>
          rw [sscanf, conversions_int]
          cases scanInt s with
          | none =>
              exact Nat.zero_le _
          | some v =>
              exact Nat.succ_le_succ (ih v.2)
      | str w =>
          rw [sscanf, conversions_str]
          by_cases hnil : ((skipSpace s).takeWhile (fun b => !isSpace b)).take w = []
          · simp only [if_pos hnil]
            exact Nat.zero_le _
          · simp only [if_neg hnil]
            exact Nat.succ_le_succ (ih _)

/-- Of a format with two conversions, the second one at its end, a beginning has one at most. -/
theorem conversions_cut {tail : CStr} {k : Nat} (hp : 37 ∉ p) (hs : 37 ∉ s)
    (htail : ∀ i < tail.length, conversions (scanFormatAux ((tail.take i).length + 1) (tail.take i)) = 0)
    (hk : k < (p ++ (ascii "%d" ++ (s ++ tail))).length) :
    conversions (scanFormat ((p ++ (ascii "%d" ++ (s ++ tail))).take k)) ≤ 1 := by
  have hnumber : ascii "%d" = [37, 100] := by decide
  have hpart : ∀ {t : CStr} (j : Nat), 37 ∉ t → 37 ∉ t.take j := fun j ht h => ht (List.mem_of_mem_take h)
  rcases Nat.lt_trichotomy k (p.length + 1) with hbefore | hat | hbehind
  · -- a part of the first text
    have htake : (p ++ (ascii "%d" ++ (s ++ tail))).take k = p.take k ++ [] := by
      rw [List.take_append_of_le_length (Nat.le_of_lt_succ hbefore), List.append_nil]
    rw [htake, scanFormat_text (hpart k hp), conversions_text]
    exact Nat.zero_le 1
  · have htake : (p ++ (ascii "%d" ++ (s ++ tail))).take k = p ++ [37] := by
      rw [hat, List.take_length_add_append, hnumber]
      rfl
    rw [htake, scanFormat_text hp, conversions_text]
    exact Nat.zero_le 1
  · rcases Nat.exists_eq_add_of_le hbehind with ⟨j, rfl⟩
    have hlen : p.length + 1 + 1 + j = p.length + (2 + j) := by omega
    have htake : (p ++ (ascii "%d" ++ (s ++ tail))).take (p.length + 1 + 1 + j) =
        p ++ (ascii "%d" ++ (s ++ tail).take j) := by
      rw [hlen, List.take_length_add_append, hnumber, Nat.add_comm 2 j]
      rfl
    rw [htake]
    by_cases hj : j ≤ s.length
    · have hrest : (s ++ tail).take j = s.take j ++ [] := by
        rw [List.take_append_of_le_length hj, List.append_nil]
      rw [hrest, scanFormat_int hp (hpart j hs), conversions_text, conversions_int, conversions_text]
      exact Nat.le_refl 1
    · rcases Nat.exists_eq_add_of_le (Nat.le_of_not_le hj) with ⟨i, rfl⟩
      have hi : i < tail.length := by
        simp only [List.length_append, hnumber, List.length_cons, List.length_nil] at hk
        omega
      rw [List.take_length_add_append, scanFormat_int hp hs, conversions_text, conversions_int, conversions_text,
        htail i hi]

end Formats

/-! ## Padded numbers -/

/-- The text of `%0wd`. -/
def decPad (w : Nat) (i : Int) : CStr :=
  let minus : CStr := if i < 0 then [45] else []
  minus ++ (List.replicate (w - (minus.length + (dec i.natAbs).length)) 48 ++ dec i.natAbs)

section Padded

variable {ds : CStr} {b : Byte}

/-- Digits up to a byte that is none. -/
theorem scanInt_digits (hne : ds ≠ []) (hds : ∀ c ∈ ds, isDigit c = true) (hb : isDigit b = false) (r : CStr) :
    scanInt (ds ++ b :: r) = some ((digitsVal ds : Int), b :: r) := by
  cases ds with
  | nil =>
      exact absurd rfl hne
  | cons d ds =>
      rcases isSpace_of_isDigit (hds d List.mem_cons_self) with ⟨hspace, hminus, hplus⟩
      have htake : (d :: ds ++ b :: r).takeWhile isDigit = d :: ds := by
        rw [List.takeWhile_append_of_pos hds, List.takeWhile_cons, if_neg (by rw [hb]; exact Bool.false_ne_true),
          List.append_nil]
      have hdrop : (d :: ds ++ b :: r).dropWhile isDigit = b :: r := by
        rw [List.dropWhile_append_of_pos hds, List.dropWhile_cons, if_neg (by rw [hb]; exact Bool.false_ne_true)]
      have hskip : skipSpace (d :: ds ++ b :: r) = d :: ds ++ b :: r := skipSpace_of_head hspace
      have hhead : (d :: ds ++ b :: r).head? = some d := rfl
      simp only [scanInt, hskip, hhead, Option.some.injEq, hminus, hplus, or_self, if_false, htake, hdrop,
        reduceCtorEq]

theorem digitsVal_zeros (k : Nat) (ds : CStr) : digitsVal (List.replicate k 48 ++ ds) = digitsVal ds := by
  induction k with
  | zero =>
      rfl
  | succ k ih =>
      rw [List.replicate_succ, List.cons_append]
      exact ih

theorem decPad_natCast (w n : Nat) :
    decPad w n = List.replicate (w - (dec n).length) 48 ++ dec n := by
  have hpos : ¬ (n : Int) < 0 := by omega
  rw [decPad, if_neg hpos, Int.natAbs_natCast, List.length_nil, Nat.zero_add]
  rfl

theorem isDigit_decPad (w n : Nat) : ∀ c ∈ decPad w n, isDigit c = true := by
  intro c hc
  rw [decPad_natCast] at hc
  rcases List.mem_append.1 hc with hc | hc
  · rw [List.eq_of_mem_replicate hc]
    decide
  · exact isDigit_of_mem_dec hc

theorem decPad_ne_nil (w n : Nat) : decPad w n ≠ [] := by
  rw [decPad_natCast]
  intro h
  exact dec_ne_nil n (List.append_eq_nil_iff.1 h).2

/-- A padded number is read back. -/
theorem scanInt_decPad (w n : Nat) (hb : isDigit b = false) (r : CStr) :
    scanInt (decPad w n ++ b :: r) = some ((n : Int), b :: r) := by
  rw [scanInt_digits (decPad_ne_nil w n) (isDigit_decPad w n) hb, decPad_natCast, digitsVal_zeros, digitsVal_dec]

theorem sscanf_int_decPad (w n : Nat) (hb : isDigit b = false) (ds : List Directive) (r : CStr) :
    sscanf (.int :: .lit b :: ds) (decPad w n ++ b :: r) = .int n :: sscanf ds r := by
  rw [sscanf, scanInt_decPad w n hb]
  simp only [sscanf, if_true]

theorem length_decPad_le {w n k : Nat} (hk : 0 < k) (hn : n < 10 ^ k) : (decPad w n).length ≤ max w k := by
  have hlen := (length_dec_le hk).2 hn
  rw [decPad_natCast, List.length_append, List.length_replicate]
  omega

/-- A number in front of blanks. -/
theorem sscanf_int_decPad_space (w n : Nat) (hspace : isSpace b = true) (ds : List Directive) (r : CStr) :
    sscanf (.int :: .space :: ds) (decPad w n ++ b :: r) = .int n :: sscanf ds (skipSpace r) := by
  have hb : isDigit b = false := by
    rw [← Bool.not_eq_true]
    intro hdigit
    rw [(isSpace_of_isDigit hdigit).1] at hspace
    cases hspace
  have hskip : skipSpace (b :: r) = skipSpace r := by
    rw [skipSpace, List.dropWhile_cons, if_pos hspace, skipSpace]
  rw [sscanf, scanInt_decPad w n hb]
  simp only [sscanf, hskip]

/-- A word in front of blanks. -/
theorem sscanf_str_word {w : CStr} {n : Nat} (hne : w ≠ []) (hw : ∀ c ∈ w, isSpace c = false) (hlen : w.length ≤ n)
    (hspace : isSpace b = true) (ds : List Directive) (r : CStr) :
    sscanf (.str n :: .space :: ds) (w ++ b :: r) = .str w :: sscanf ds (skipSpace r) := by
  have hskip : skipSpace (w ++ b :: r) = w ++ b :: r := by
    cases w with
    | nil =>
        exact absurd rfl hne
    | cons c w =>
        exact skipSpace_of_head (hw c List.mem_cons_self)
  have htake : ((w ++ b :: r).takeWhile fun c => !isSpace c).take n = w := by
    have hall : ∀ c ∈ w, (!isSpace c) = true := fun c hc => by rw [hw c hc]; rfl
    rw [List.takeWhile_append_of_pos hall, List.takeWhile_cons, hspace]
    simp only [Bool.not_true, Bool.false_eq_true, if_false, List.append_nil]
    exact List.take_of_length_le hlen
  have hskip' : skipSpace (b :: r) = skipSpace r := by
    rw [skipSpace, List.dropWhile_cons, if_pos hspace, skipSpace]
  rw [sscanf]
  simp only [hskip, htake, if_neg hne, List.drop_left, sscanf, hskip']

/-- Something is read from a text that is not blank. -/
theorem sscanf_str_ne_nil {s : CStr} {n : Nat} (hn : 0 < n) (hs : ∃ c ∈ s, isSpace c = false) (ds : List Directive) :
    ∃ w t, sscanf (.str n :: ds) s = .str w :: sscanf ds t := by
  have hne : skipSpace s ≠ [] := by
    rcases hs with ⟨c, hc, hspace⟩
    rw [skipSpace, Ne, List.dropWhile_eq_nil_iff]
    intro hall
    rw [hall c hc] at hspace
    cases hspace
  rcases List.exists_cons_of_ne_nil hne with ⟨c, t, hct⟩
  have hc : isSpace c = false := by
    have hhead := List.head?_dropWhile_not isSpace s
    rw [← skipSpace, hct] at hhead
    simpa using hhead
  rcases Nat.exists_eq_succ_of_ne_zero (Nat.ne_of_gt hn) with ⟨k, rfl⟩
  have hword : ((skipSpace s).takeWhile fun c => !isSpace c).take (k + 1) ≠ [] := by
    rw [hct, List.takeWhile_cons, hc]
    exact List.cons_ne_nil _ _
  refine ⟨((skipSpace s).takeWhile fun c => !isSpace c).take (k + 1),
    (skipSpace s).drop (((skipSpace s).takeWhile fun c => !isSpace c).take (k + 1)).length, ?_⟩
  rw [sscanf]
  exact if_neg hword

end Padded

end CLib
