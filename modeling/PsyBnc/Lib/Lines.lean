import PsyBnc.Lib.CString

/-!
# Lines of a byte stream

`splitLines s` cuts a stream into its complete lines, each with its newline, and the bytes behind
the last newline.  Cutting a stream piece by piece, with the unfinished line of one piece put in
front of the next, gives the same lines (`splitLines_append`).
-/

namespace CLib

/-- The complete lines, each ended by its newline, and the unfinished rest. -/
def splitLines : CStr → List CStr × CStr
  | [] => ([], [])
  | b :: bs =>
      if b = LF then ([LF] :: (splitLines bs).1, (splitLines bs).2)
      else
        match (splitLines bs).1 with
        | [] => ([], b :: (splitLines bs).2)
        | line :: lines => ((b :: line) :: lines, (splitLines bs).2)

theorem splitLines_of_notMem {s : CStr} (h : LF ∉ s) : splitLines s = ([], s) := by
  induction s with
  | nil =>
      rfl
  | cons b bs ih =>
      have hb : b ≠ LF := fun e => h (by simp [e])
      have hbs : LF ∉ bs := fun hm => h (List.mem_cons_of_mem _ hm)
      simp [splitLines, hb, ih hbs]

theorem splitLines_line {u : CStr} (hu : LF ∉ u) (rest : CStr) :
    splitLines (u ++ LF :: rest) =
      ((u ++ [LF]) :: (splitLines rest).1, (splitLines rest).2) := by
  induction u with
  | nil =>
      simp [splitLines]
  | cons b bs ih =>
      have hb : b ≠ LF := fun e => hu (by simp [e])
      have hbs : LF ∉ bs := fun hm => hu (List.mem_cons_of_mem _ hm)
      simp [splitLines, hb, ih hbs]

/-- Nothing is lost: the lines and the rest are the stream. -/
theorem flatten_splitLines (s : CStr) : (splitLines s).1.flatten ++ (splitLines s).2 = s := by
  induction s with
  | nil =>
      rfl
  | cons b bs ih =>
      by_cases hb : b = LF
      · simp [splitLines, hb, ih]
      · cases hl : (splitLines bs).1 with
        | nil =>
            have hrest : (splitLines bs).2 = bs := by simpa [hl] using ih
            simp [splitLines, hb, hl, hrest]
        | cons line lines =>
            simp only [hl, List.flatten_cons, List.append_assoc] at ih
            simp [splitLines, hb, hl, ih]

/-- A complete line is a text without newline and the newline. -/
theorem line_of_mem_splitLines {s line : CStr} (h : line ∈ (splitLines s).1) :
    ∃ u, LF ∉ u ∧ line = u ++ [LF] := by
  induction s generalizing line with
  | nil =>
      simp [splitLines] at h
  | cons b bs ih =>
      by_cases hb : b = LF
      · simp only [splitLines, hb, if_true, List.mem_cons] at h
        rcases h with rfl | h
        · exact ⟨[], by simp, rfl⟩
        · exact ih h
      · cases hl : (splitLines bs).1 with
        | nil =>
            simp [splitLines, hb, hl] at h
        | cons first lines =>
            simp only [splitLines, hb, hl, if_false, List.mem_cons] at h
            rcases h with rfl | h
            · have hfirst : first ∈ (splitLines bs).1 := by simp [hl]
              rcases ih hfirst with ⟨u, hu, rfl⟩
              have hb' : LF ≠ b := fun e => hb e.symm
              exact ⟨b :: u, by simp [hu, hb'], rfl⟩
            · exact ih (by simp [hl, h])

theorem notMem_splitLines_rest (s : CStr) : LF ∉ (splitLines s).2 := by
  induction s with
  | nil =>
      simp [splitLines]
  | cons b bs ih =>
      by_cases hb : b = LF
      · simpa [splitLines, hb] using ih
      · have hb' : LF ≠ b := fun e => hb e.symm
        cases hl : (splitLines bs).1 with
        | nil =>
            simp [splitLines, hb, hl, hb', ih]
        | cons line lines =>
            simpa [splitLines, hb, hl] using ih

theorem splitLines_append (s t : CStr) :
    splitLines (s ++ t) =
      ((splitLines s).1 ++ (splitLines ((splitLines s).2 ++ t)).1,
        (splitLines ((splitLines s).2 ++ t)).2) := by
  have hlines : ∀ (ls : List CStr) (r : CStr), (∀ l ∈ ls, ∃ u, LF ∉ u ∧ l = u ++ [LF]) →
      splitLines (ls.flatten ++ r) = (ls ++ (splitLines r).1, (splitLines r).2) := by
    intro ls r hls
    induction ls with
    | nil =>
        simp
    | cons l ls ih =>
        rcases hls l (by simp) with ⟨u, hu, rfl⟩
        have hrest := ih (fun l' hl' => hls l' (List.mem_cons_of_mem _ hl'))
        have hsplit := splitLines_line hu (ls.flatten ++ r)
        simpa [hrest] using hsplit
  have hs := hlines (splitLines s).1 ((splitLines s).2 ++ t)
    (fun l hl => line_of_mem_splitLines hl)
  rw [← List.append_assoc, flatten_splitLines] at hs
  exact hs

end CLib
