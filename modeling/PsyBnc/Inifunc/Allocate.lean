import PsyBnc.Inifunc.Count
import PsyBnc.Lib.Formats

/-!
# Free slots for any pattern

`countconfentries` gets a text with one `%d`.  A slot that it finds is free unless all 256 are in use; the number of
an entry is only compared with the end of the table.
-/

namespace PsyBnc

open CLib

/-! ## The scan -/

/-- The number of an entry that a format matches. -/
def scannedNumber (fmt : List Directive) (entry : CStr) : Option Int :=
  match sscanf fmt entry with
  | [.int i, .str _] => some i
  | _ => none

section Scan

variable {fmt : List Directive} {entry : CStr} {conf : Conf} {cnt : Nat} {itemlist : List Nat}

theorem scannedNumber_of_short (h : (sscanf fmt entry).length < 2) : scannedNumber fmt entry = none := by
  rw [scannedNumber]
  split
  · next hvals =>
    rw [hvals] at h
    exact absurd h (Nat.lt_irrefl 2)
  · rfl

/-- The number stands in front of a text. -/
theorem scannedNumber_cases :
    (∃ i s, sscanf fmt entry = [.int i, .str s] ∧ scannedNumber fmt entry = some i) ∨
      (∀ i s, sscanf fmt entry ≠ [.int i, .str s]) ∧ scannedNumber fmt entry = none := by
  rw [scannedNumber]
  split
  · next i s hvals =>
    exact Or.inl ⟨i, s, hvals, rfl⟩
  · next hvals =>
    exact Or.inr ⟨hvals, rfl⟩

/-- A round of the scan. -/
theorem countLoop_cons : countLoop fmt (entry :: conf) cnt itemlist =
    (scannedNumber fmt entry).elim (countLoop fmt conf cnt itemlist) fun i =>
      if i < 0 then none
      else countLoop fmt conf (cnt + 1) (if i < 256 then i.toNat :: itemlist else itemlist) := by
  rcases @scannedNumber_cases fmt entry with ⟨i, s, hvals, hnum⟩ | ⟨hvals, hnum⟩
  · simp only [countLoop, hvals, hnum, Option.elim_some]
    by_cases hneg : i < 0
    · rw [if_pos hneg, if_pos hneg]
    · rw [if_neg hneg, if_neg hneg]
      by_cases hlt : i < 256
      · rw [if_pos hlt, if_pos hlt]
      · rw [if_neg hlt, if_neg hlt]
  · rw [hnum, Option.elim_none, countLoop]
    split
    · next i s hvals' =>
      exact absurd hvals' (hvals i s)
    · rfl

/-- A negative number is written in front of the table. -/
theorem countLoop_negative (h : ∃ entry ∈ conf, ∃ i, scannedNumber fmt entry = some i ∧ i < 0) (cnt : Nat)
    (itemlist : List Nat) : countLoop fmt conf cnt itemlist = none := by
  induction conf generalizing cnt itemlist with
  | nil =>
      rcases h with ⟨_, hmem, _⟩
      cases hmem
  | cons e conf ih =>
      rw [countLoop_cons]
      cases hnum : scannedNumber fmt e with
      | none =>
          apply ih
          rcases h with ⟨entry, hmem, i, hi, hneg⟩
          rcases List.mem_cons.1 hmem with rfl | hmem
          · rw [hnum] at hi
            cases hi
          · exact ⟨entry, hmem, i, hi, hneg⟩
      | some n =>
          rw [Option.elim_some]
          by_cases hneg : n < 0
          · rw [if_pos hneg]
          · rw [if_neg hneg]
            apply ih
            rcases h with ⟨entry, hmem, i, hi, hi'⟩
            rcases List.mem_cons.1 hmem with rfl | hmem
            · rw [hnum] at hi
              cases hi
              exact absurd hi' hneg
            · exact ⟨entry, hmem, i, hi, hi'⟩

/-- The entries that a format matches. -/
def matching (fmt : List Directive) (conf : Conf) : Conf := conf.filter fun entry => (scannedNumber fmt entry).isSome

/-- Otherwise the matching entries are counted and their numbers marked. -/
theorem countLoop_marks (h : ∀ entry ∈ conf, ∀ i, scannedNumber fmt entry = some i → 0 ≤ i) (cnt : Nat)
    (itemlist : List Nat) :
    ∃ marked, countLoop fmt conf cnt itemlist = some (cnt + (matching fmt conf).length, marked) ∧
      ∀ n < 256, n ∈ marked ↔ n ∈ itemlist ∨ ∃ entry ∈ conf, scannedNumber fmt entry = some (n : Int) := by
  induction conf generalizing cnt itemlist with
  | nil =>
      refine ⟨itemlist, rfl, fun n _ => ?_⟩
      constructor
      · exact Or.inl
      · rintro (hmem | ⟨_, hmem, _⟩)
        · exact hmem
        · cases hmem
  | cons e conf ih =>
      have hrest : ∀ entry ∈ conf, ∀ i, scannedNumber fmt entry = some i → 0 ≤ i :=
        fun entry hmem => h entry (List.mem_cons_of_mem _ hmem)
      rw [countLoop_cons]
      cases hnum : scannedNumber fmt e with
      | none =>
          rcases ih hrest cnt itemlist with ⟨marked, hloop, hmarks⟩
          refine ⟨marked, ?_, fun n hn => (hmarks n hn).trans (or_congr_right ?_)⟩
          · rw [Option.elim_none, hloop, matching, matching, List.filter_cons, hnum]
            rfl
          · rw [List.exists_mem_cons_iff, hnum]
            simp
      | some i =>
          have hpos := h e List.mem_cons_self i hnum
          rcases ih hrest (cnt + 1) (if i < 256 then i.toNat :: itemlist else itemlist) with ⟨marked, hloop, hmarks⟩
          refine ⟨marked, ?_, fun n hn => (hmarks n hn).trans ?_⟩
          · rw [Option.elim_some, if_neg (Int.not_lt.2 hpos), hloop, matching, matching, List.filter_cons, hnum]
            simp only [Option.isSome_some, if_true, List.length_cons]
            rw [Nat.add_assoc, Nat.add_comm 1]
          · -- the number of this entry is marked when it has a place in the table
            have hmark : n ∈ (if i < 256 then i.toNat :: itemlist else itemlist) ↔ n ∈ itemlist ∨ (i : Int) = n := by
              by_cases hlt : i < 256
              · rw [if_pos hlt, List.mem_cons, or_comm]
                apply or_congr_right
                omega
              · rw [if_neg hlt]
                have hne : (i : Int) ≠ n := by omega
                exact (or_iff_left hne).symm
            rw [hmark, List.exists_mem_cons_iff, hnum, Option.some_inj, or_assoc]

end Scan

theorem firstFree_full {itemlist : List Nat} (hfull : ∀ n < 256, n ∈ itemlist) : firstFree itemlist = 0 := by
  have hnone : ((List.range 256).find? fun i => decide (i ∉ itemlist)) = none := by
    apply List.find?_eq_none.2
    intro n hn
    rw [decide_eq_true_iff, not_not]
    exact hfull n (List.mem_range.1 hn)
  rw [firstFree, hnone, Option.getD_none]

theorem firstFree_notMem_iff {itemlist : List Nat} : firstFree itemlist ∉ itemlist ↔ ∃ n < 256, n ∉ itemlist := by
  constructor
  · intro hnot
    exact ⟨_, firstFree_lt itemlist, hnot⟩
  · rintro ⟨n, hn, hnot⟩
    cases hfind : (List.range 256).find? fun i => decide (i ∉ itemlist) with
    | none =>
        have hn' := List.find?_eq_none.1 hfind n (List.mem_range.2 hn)
        rw [decide_eq_true_iff] at hn'
        exact absurd hnot hn'
    | some k =>
        have hk := List.find?_some hfind
        rw [decide_eq_true_iff] at hk
        rw [firstFree, hfind, Option.getD_some]
        exact hk

/-! ## Patterns -/

/-- The names in a pattern: the one `%d` of the entry stands between `pre` and `post`. -/
structure EntryPattern where
  fname : CStr
  sect : CStr
  pre : CStr
  post : CStr
  plain : 37 ∉ fname ++ DOT :: (sect ++ DOT :: pre) ∧ 37 ∉ post

namespace EntryPattern

variable (P : EntryPattern)

def entry : CStr := P.pre ++ (ascii "%d" ++ P.post)

/-- The format, which has to fit into `buf[256]`. -/
def text : CStr := P.fname ++ DOT :: (P.sect ++ DOT :: (P.entry ++ ascii "=%255s"))

/-- The number of an entry with the pattern. -/
def number (line : CStr) : Option Int := scannedNumber (scanFormat P.text) line

/-- A count and a free slot. -/
def Counted (conf : Conf) (found : Option (Nat × Nat)) : Prop :=
  ∃ cnt lastfree, found = some (cnt, lastfree) ∧ cnt = (matching (scanFormat P.text) conf).length ∧
    lastfree < 256 ∧ ∀ line ∈ conf, P.number line ≠ some (lastfree : Int)

variable {P}

theorem text_eq : P.text = (P.fname ++ DOT :: (P.sect ++ DOT :: P.pre)) ++
    (ascii "%d" ++ ((P.post ++ [EQUALS]) ++ ascii "%255s")) := by
  have htail : ascii "=%255s" = [EQUALS] ++ ascii "%255s" := by decide
  rw [text, entry, htail]
  simp only [List.append_assoc, List.cons_append]

/-- A format that was cut has no more than one conversion, so it matches nothing. -/
theorem scannedNumber_cut (hlong : ¬ P.text.length < 256) (line : CStr) :
    scannedNumber (scanFormat (clip 256 P.text)) line = none := by
  have hpost : 37 ∉ P.post ++ [EQUALS] := by
    intro hmem
    rcases List.mem_append.1 hmem with hmem | hmem
    · exact P.plain.2 hmem
    · exact absurd hmem (by decide)
  have htail : ∀ i < (ascii "%255s").length,
      conversions (scanFormatAux (((ascii "%255s").take i).length + 1) ((ascii "%255s").take i)) = 0 := by decide
  have hone : conversions (scanFormat (clip 256 P.text)) ≤ 1 := by
    rw [clip, text_eq]
    apply conversions_cut P.plain.1 hpost htail
    rw [← text_eq]
    omega
  apply scannedNumber_of_short
  exact Nat.lt_succ_of_le (Nat.le_trans (length_sscanf_le _ line) hone)

end EntryPattern

theorem countLoop_none_matching {fmt : List Directive} {conf : Conf}
    (hnone : ∀ entry ∈ conf, scannedNumber fmt entry = none) (cnt : Nat) (itemlist : List Nat) :
    countLoop fmt conf cnt itemlist = some (cnt, itemlist) := by
  induction conf with
  | nil =>
      rfl
  | cons e conf ih =>
      rw [countLoop_cons, hnone e List.mem_cons_self]
      exact ih fun entry hmem => hnone entry (List.mem_cons_of_mem _ hmem)

theorem channelPattern_plain : 37 ∉ userFile 1 ++ DOT :: (ascii "CHANNELS" ++ DOT :: ascii "ENTRY") ∧
    (37 : Byte) ∉ ([] : CStr) := by decide

/-- The channels of the first user. -/
def channelPattern : EntryPattern where
  fname := userFile 1
  sect := ascii "CHANNELS"
  pre := ascii "ENTRY"
  post := []
  plain := channelPattern_plain

/-- All the slots in use. -/
def fullConf : Conf := (List.range 256).map fun i => numberedLine (ascii "USER1.CHANNELS.ENTRY") i (ascii "#a")

theorem lastfree_full :
    (countconfentries channelPattern.sect channelPattern.entry channelPattern.fname fullConf).map Prod.snd = some 0 := by
  have hlit : ∀ b ∈ ascii "USER1.CHANNELS.ENTRY", isPlain b = true := by decide
  have hbuf : clip 256 channelPattern.text = ascii "USER1.CHANNELS.ENTRY" ++ ascii "%d=%255s" := by decide +kernel
  have hlines : ∀ e ∈ fullConf, ascii "USER1.CHANNELS.ENTRY" <+: e →
      ∃ i d, i < 256 ∧ e = numberedLine (ascii "USER1.CHANNELS.ENTRY") i d := by
    intro e he _
    rcases List.mem_map.1 he with ⟨i, hi, rfl⟩
    exact ⟨i, _, List.mem_range.1 hi, rfl⟩
  rcases countLoop_numbered hlines 0 [] with ⟨found, hloop, hmarks⟩
  have hvisible : Visible (ascii "#a") := ⟨35, by decide, by decide⟩
  have hfull : ∀ n < 256, n ∈ found.2 := by
    intro n hn
    exact (hmarks n).2 (Or.inr ⟨hn, ascii "#a", hvisible, List.mem_map.2 ⟨n, List.mem_range.2 hn, rfl⟩⟩)
  have hcount : countconfentries channelPattern.sect channelPattern.entry channelPattern.fname fullConf =
      (countLoop (scanFormat (clip 256 channelPattern.text)) fullConf 0 []).map fun p => (p.1, firstFree p.2) := rfl
  rw [hcount, hbuf, scanFormat_numbered hlit, hloop, Option.map_some, Option.map_some, firstFree_full hfull]

end PsyBnc
