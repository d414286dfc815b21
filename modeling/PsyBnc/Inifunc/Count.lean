import PsyBnc.Inifunc.Model
import Mathlib.Data.List.TakeWhile

/-!
# Counting the entries of a section

`countconfentries` scans every line with the format `text%d=%255s` and marks the numbers it reads.
For lines `text<i>=data` it marks exactly the numbers whose data is not blank, and the slot it
allocates is the least one that is not marked.
-/

namespace PsyBnc

open CLib

/-- A text that `%255s` reads something from. -/
def Visible (d : CStr) : Prop := ∃ b ∈ d, isSpace b = false

instance (d : CStr) : Decidable (Visible d) := by
  dsimp [Visible]
  infer_instance

theorem isPlain_of_isDigit {b : Byte} (h : isDigit b = true) : isPlain b = true := by
  have hspace := (isSpace_of_isDigit h).1
  have hne : b ≠ 37 := by
    rintro rfl
    exact absurd h (by decide)
  simp [isPlain, hspace, hne]

/-- The line of an entry. -/
def numberedLine (lit : CStr) (i : Nat) (d : CStr) : CStr := lit ++ (dec i ++ EQUALS :: d)

/-- What `scanf` makes of `lit%d=%255s`. -/
def numberedFormat (lit : CStr) : List Directive := lit.map .lit ++ [.int, .lit EQUALS, .str 255]

section Counting

variable {lit : CStr} {i j : Nat} {d d' : CStr}

theorem scanFormat_numbered (hlit : ∀ b ∈ lit, isPlain b = true) :
    scanFormat (lit ++ ascii "%d=%255s") = numberedFormat lit := by
  have hfmt : scanFormat (ascii "%d=%255s") = [.int, .lit EQUALS, .str 255] := by decide
  rw [scanFormat_plain hlit, hfmt, numberedFormat]

theorem numberedLine_injective (h : numberedLine lit i d = numberedLine lit j d') : i = j ∧ d = d' := by
  have htail := List.append_cancel_left h
  have hdigit : isDigit EQUALS = false := by decide
  rcases append_cons_inj_of_notMem (notMem_dec hdigit) (notMem_dec hdigit) htail with ⟨hi, hd⟩
  exact ⟨dec_injective hi, hd⟩

/-- What is scanned from the line of an entry: its number, and a word unless the data is blank. -/
theorem sscanf_numbered (lit : CStr) (i : Nat) (d : CStr) :
    ∃ vals, sscanf (numberedFormat lit) (numberedLine lit i d) = .int i :: vals ∧
      ((Visible d ∧ ∃ s, vals = [.str s]) ∨ (¬ Visible d ∧ vals = [])) := by
  have hint : scanInt (dec i ++ EQUALS :: d) = some ((i : Int), EQUALS :: d) :=
    scanInt_dec i (by decide)
  rw [numberedLine, numberedFormat, sscanf_lit_append]
  simp only [sscanf, hint, if_true]
  refine ⟨_, rfl, ?_⟩
  by_cases hvis : Visible d
  · refine Or.inl ⟨hvis, ?_⟩
    -- The word starts with the first byte that is no blank.
    have hskip : ∃ b r, skipSpace d = b :: r ∧ isSpace b = false := by
      rcases hvis with ⟨b, hb, hspace⟩
      have hne : skipSpace d ≠ [] := by
        rw [skipSpace, Ne, List.dropWhile_eq_nil_iff]
        intro hall
        exact absurd (hall b hb) (by simp [hspace])
      rcases List.exists_cons_of_ne_nil hne with ⟨c, r, hc⟩
      refine ⟨c, r, hc, ?_⟩
      have hhead := List.head?_dropWhile_not isSpace d
      rw [← skipSpace, hc] at hhead
      simpa using hhead
    rcases hskip with ⟨b, r, hskip, hb⟩
    refine ⟨_, if_neg ?_⟩
    simp [hskip, hb]
  · refine Or.inr ⟨hvis, ?_⟩
    have hskip : skipSpace d = [] := by
      rw [skipSpace, List.dropWhile_eq_nil_iff]
      intro b hb
      by_contra hspace
      exact hvis ⟨b, hb, by simpa using hspace⟩
    simp [hskip]

/-- A line that assigns less than two values is passed over. -/
theorem countLoop_skip {fmt : List Directive} {e : CStr} {conf : Conf} {cnt : Nat}
    {itemlist : List Nat} (hshort : (sscanf fmt e).length < 2) :
    countLoop fmt (e :: conf) cnt itemlist = countLoop fmt conf cnt itemlist := by
  rw [countLoop]
  split
  · rename_i hvals
    simp [hvals] at hshort
  · rfl

/-- The scan marks the numbers whose data is not blank. -/
theorem countLoop_numbered {conf : Conf}
    (hlines : ∀ e ∈ conf, lit <+: e → ∃ i d, i < 256 ∧ e = numberedLine lit i d)
    (cnt : Nat) (itemlist : List Nat) :
    ∃ found, countLoop (numberedFormat lit) conf cnt itemlist = some found ∧
      ∀ i, i ∈ found.2 ↔ i ∈ itemlist ∨ (i < 256 ∧ ∃ d, Visible d ∧ numberedLine lit i d ∈ conf) := by
  induction conf generalizing cnt itemlist with
  | nil =>
      exact ⟨_, rfl, by simp⟩
  | cons e conf ih =>
      have hrest : ∀ e ∈ conf, lit <+: e → ∃ i d, i < 256 ∧ e = numberedLine lit i d :=
        fun e he => hlines e (List.mem_cons_of_mem _ he)
      -- A line that gives fewer than two values is passed over, and no text of the list is in it.
      have hskip : (sscanf (numberedFormat lit) e).length < 2 →
          (∀ i d, Visible d → numberedLine lit i d ≠ e) →
          ∃ found, countLoop (numberedFormat lit) (e :: conf) cnt itemlist = some found ∧
            ∀ i, i ∈ found.2 ↔ i ∈ itemlist ∨
              (i < 256 ∧ ∃ d, Visible d ∧ numberedLine lit i d ∈ e :: conf) := by
        intro hshort hne
        rcases ih hrest cnt itemlist with ⟨found, hfound, hmem⟩
        refine ⟨found, (countLoop_skip hshort).trans hfound, fun i => (hmem i).trans ?_⟩
        apply or_congr_right
        apply and_congr_right
        intro _
        constructor
        · rintro ⟨d, hd, h⟩
          exact ⟨d, hd, List.mem_cons_of_mem _ h⟩
        · rintro ⟨d, hd, h⟩
          exact ⟨d, hd, (List.mem_cons.1 h).resolve_left (hne i d hd)⟩
      by_cases hpre : lit <+: e
      · rcases hlines e (by simp) hpre with ⟨i, d, hi, rfl⟩
        rcases sscanf_numbered lit i d with ⟨vals, hscan, ⟨hvis, s, rfl⟩ | ⟨hvis, rfl⟩⟩
        · rcases ih hrest (cnt + 1) (i :: itemlist) with ⟨found, hfound, hmem⟩
          refine ⟨found, ?_, fun j => ?_⟩
          · have hneg : ¬ ((i : Int) < 0) := by omega
            have hlt : (i : Int) < 256 := by omega
            rw [← hfound, countLoop, hscan]
            simp only [hneg, hlt, if_false, if_true, Int.toNat_natCast]
          · rw [hmem j]
            constructor
            · rintro (h | ⟨hj, d', hd', h⟩)
              · rcases List.mem_cons.1 h with rfl | h
                · exact Or.inr ⟨hi, d, hvis, by simp⟩
                · exact Or.inl h
              · exact Or.inr ⟨hj, d', hd', List.mem_cons_of_mem _ h⟩
            · rintro (h | ⟨hj, d', hd', h⟩)
              · exact Or.inl (List.mem_cons_of_mem _ h)
              · rcases List.mem_cons.1 h with h | h
                · exact Or.inl (by simp [(numberedLine_injective h).1])
                · exact Or.inr ⟨hj, d', hd', h⟩
        · -- A blank text is not counted, and it is the only line of its number here.
          refine hskip (by simp [hscan]) ?_
          intro j d' hd' heq
          exact hvis ((numberedLine_injective heq).2 ▸ hd')
      · refine hskip ?_ ?_
        · have hnone : sscanf (numberedFormat lit) e = [] := sscanf_lit_of_not_prefix hpre _
          simp [hnone]
        · rintro i d _ rfl
          exact hpre (List.prefix_append _ _)

theorem firstFree_lt (itemlist : List Nat) : firstFree itemlist < 256 := by
  rw [firstFree]
  cases hfind : (List.range 256).find? fun i => decide (i ∉ itemlist) with
  | none =>
      decide
  | some n =>
      exact List.mem_range.1 (List.mem_of_find?_eq_some hfind)

/-- The first slot that is not marked is found. -/
theorem firstFree_eq {itemlist : List Nat} {n : Nat} (hn : n < 256) (hfree : n ∉ itemlist)
    (hbelow : ∀ m < n, m ∈ itemlist) : firstFree itemlist = n := by
  have hfind : ((List.range 256).find? fun i => decide (i ∉ itemlist)) = some n := by
    refine List.find?_range_eq_some.2 ⟨by simpa using hfree, List.mem_range.2 hn, ?_⟩
    intro m hm
    simpa using hbelow m hm
  rw [firstFree, hfind, Option.getD_some]

end Counting

end PsyBnc
