import PsyBnc.Lib.CString
import Mathlib.Data.List.DropRight

/-!
# String helpers (`p_string.c`)
-/

namespace PsyBnc

open CLib

def ucase (inc : CStr) : CStr := inc.map toupper

/-- `strmncasecmp`: equal lengths, and one upper-cased text starts with the other. -/
def strmncasecmp (one two : CStr) : Bool :=
  if one.length = two.length then decide (ucase two <+: ucase one) else false

/-- `strmcmp`: equal lengths, and one text starts with the other. -/
def strmcmp (one two : CStr) : Bool :=
  if one.length = two.length then decide (two <+: one) else false

/-- `rtrim`: the pointer that walks left starts at the terminator, but never beyond byte 4095. -/
def rtrim (totrim : CStr) : CStr :=
  if totrim.length ≤ 4095 then totrim.rdropWhile (fun b => b == SP)
  else if totrim[4095]? = some SP then (totrim.take 4095).rdropWhile (fun b => b == SP)
  else totrim

/-! ## Comparisons -/

theorem strmcmp_iff {one two : CStr} : strmcmp one two = true ↔ one = two := by
  constructor
  · intro h
    by_cases hlen : one.length = two.length
    · simp only [strmcmp, hlen, if_true, decide_eq_true_eq] at h
      exact (h.eq_of_length hlen.symm).symm
    · simp [strmcmp, hlen] at h
  · rintro rfl
    simp [strmcmp]

theorem strmncasecmp_iff {one two : CStr} :
    strmncasecmp one two = true ↔ ucase one = ucase two := by
  constructor
  · intro h
    by_cases hlen : one.length = two.length
    · simp only [strmncasecmp, hlen, if_true, decide_eq_true_eq] at h
      exact (h.eq_of_length (by simp [ucase, hlen])).symm
    · simp [strmncasecmp, hlen] at h
  · intro h
    have hlen : one.length = two.length := by simpa [ucase] using congrArg List.length h
    simp [strmncasecmp, hlen, h]

@[simp] theorem length_ucase (s : CStr) : (ucase s).length = s.length := by
  simp [ucase]

/-- A byte that is no letter is there in both. -/
theorem mem_ucase_iff {c : Byte} (hc : c < 65 ∨ 122 < c) {s : CStr} : c ∈ ucase s ↔ c ∈ s := by
  rw [ucase, List.mem_map]
  constructor
  · rintro ⟨b, hb, hbc⟩
    rw [← (toupper_eq_iff hc).1 hbc]
    exact hb
  · intro hmem
    exact ⟨c, hmem, (toupper_eq_iff hc).2 rfl⟩

theorem ucase_ucase (s : CStr) : ucase (ucase s) = ucase s := by
  simp [ucase, toupper_toupper]

/-! ## Trimming -/

theorem rtrim_of_short {s : CStr} (hlen : s.length ≤ 4095) :
    rtrim s = s.rdropWhile (fun b => b == SP) := by
  simp [rtrim, hlen]

theorem rtrim_eq_self_of_last {s : CStr} (hlast : s.getLast? ≠ some SP) (hlen : s.length ≤ 4095) :
    rtrim s = s := by
  rw [rtrim_of_short hlen]
  refine List.rdropWhile_eq_self_iff.2 ?_
  intro hne hsp
  refine hlast ?_
  rw [List.getLast?_eq_some_getLast hne]
  exact congrArg some (by simpa using hsp)

theorem rtrim_append_sp {s : CStr} (hlen : s.length < 4095) : rtrim (s ++ [SP]) = rtrim s := by
  have hlen' : (s ++ [SP]).length ≤ 4095 := by
    rw [List.length_append, List.length_singleton]
    exact hlen
  rw [rtrim_of_short hlen', rtrim_of_short (Nat.le_of_lt hlen)]
  simp

theorem rtrim_pre {s : CStr} (hlen : s.length ≤ 4095) : rtrim s <+: s := by
  rw [rtrim_of_short hlen]
  exact List.rdropWhile_prefix _ _

/-- A text without blanks is not changed. -/
theorem rtrim_eq_self {s : CStr} (hs : SP ∉ s) : rtrim s = s := by
  have hdrop : s.rdropWhile (fun b => b == SP) = s := by
    refine List.rdropWhile_eq_self_iff.2 ?_
    intro hne hlast
    exact hs (by simpa using (beq_iff_eq.1 hlast) ▸ List.getLast_mem hne)
  by_cases hlen : s.length ≤ 4095
  · simpa [rtrim, hlen] using hdrop
  · have hno : ¬ s[4095]? = some SP := fun h => hs (List.mem_of_getElem? h)
    simp [rtrim, hlen, hno]

/-- What becomes empty is a text of blanks, or starts with more than 4095 of them. -/
theorem rtrim_eq_nil_iff {s : CStr} :
    rtrim s = [] ↔ (∀ b ∈ s.take 4096, b = SP) := by
  by_cases hlen : s.length ≤ 4095
  · have htake : s.take 4096 = s := List.take_of_length_le (by omega)
    simp [rtrim, hlen, htake, List.rdropWhile_eq_nil_iff]
  · have hlt : 4095 < s.length := by omega
    have htake : s.take 4096 = s.take 4095 ++ [s[4095]] := (List.take_append_getElem hlt).symm
    have hget : s[4095]? = some s[4095] := List.getElem?_eq_getElem hlt
    by_cases hsp : s[4095] = SP
    · simp [rtrim, hlen, hget, hsp, htake, List.rdropWhile_eq_nil_iff, or_imp]
    · have hne : s ≠ [] := by
        rintro rfl
        simp at hlt
      simp only [rtrim, hlen, hget, hsp, htake, if_false, Option.some.injEq, hne, false_iff]
      intro hall
      exact hsp (hall s[4095] (List.mem_append_right _ (List.mem_singleton.2 rfl)))

end PsyBnc
