import PsyBnc.Lib.CString

/-!
# Words between separators

A line is its first word, the words behind it, each with the separator in front, and the end of the line.  A
search for a word between two separators goes from word to word.
-/

namespace CLib

/-- The words behind the first one, and the end of the line. -/
def lead (sep : Byte) (e : CStr) : List CStr → CStr
  | [] => e
  | w :: ws => sep :: (w ++ lead sep e ws)

/-- The words with the separator between them. -/
def unwords (sep : Byte) : List CStr → CStr
  | [] => []
  | w :: ws => w ++ lead sep [] ws

section Words

variable {sep : Byte} {e w v z p s t : CStr} {ws us vs : List CStr}

@[simp] theorem lead_nil : lead sep e [] = e := rfl

@[simp] theorem lead_cons : lead sep e (w :: ws) = sep :: (w ++ lead sep e ws) := rfl

theorem lead_append_end : lead sep (s ++ t) ws = lead sep s ws ++ t := by
  induction ws with
  | nil => rfl
  | cons w ws ih => rw [lead_cons, lead_cons, ih, List.cons_append, List.append_assoc]

theorem length_le_lead : ws.length ≤ (lead sep e ws).length := by
  induction ws with
  | nil => exact Nat.zero_le _
  | cons w ws ih =>
      rw [lead_cons, List.length_cons, List.length_cons, List.length_append]
      omega

theorem exists_lead (sep : Byte) (s : CStr) :
    ∃ w ws, s = w ++ lead sep [] ws ∧ sep ∉ w ∧ ∀ v ∈ ws, sep ∉ v := by
  induction s with
  | nil => exact ⟨[], [], rfl, by simp, by simp⟩
  | cons b s ih =>
      rcases ih with ⟨w, ws, rfl, hw, hws⟩
      by_cases hb : b = sep
      · refine ⟨[], w :: ws, by rw [lead_cons, hb]; rfl, by simp, ?_⟩
        exact List.forall_mem_cons.2 ⟨hw, hws⟩
      · refine ⟨b :: w, ws, rfl, ?_, hws⟩
        rw [List.mem_cons, not_or]
        exact ⟨Ne.symm hb, hw⟩

/-- `exists_lead` finds the only such words. -/
theorem splitOn_lead (hw : sep ∉ w) (hws : ∀ v ∈ ws, sep ∉ v) :
    (w ++ lead sep [] ws).splitOn sep = w :: ws := by
  induction ws generalizing w with
  | nil => rw [lead_nil, List.append_nil, List.splitOn_eq_singleton hw]
  | cons v ws ih =>
      rw [List.forall_mem_cons] at hws
      rw [lead_cons, List.splitOn_append_cons_self, List.splitOn_eq_singleton hw, ih hws.1 hws.2]
      rfl

theorem splitOn_unwords (hne : ws ≠ []) (hws : ∀ v ∈ ws, sep ∉ v) : (unwords sep ws).splitOn sep = ws := by
  rcases List.exists_cons_of_ne_nil hne with ⟨w, ws, rfl⟩
  rw [List.forall_mem_cons] at hws
  exact splitOn_lead hws.1 hws.2

/-- Where one text is the start of another, they have the same first word. -/
theorem word_eq_of_start (hw : sep ∉ w) (hv : sep ∉ v) (h : w ++ sep :: s <+: v ++ sep :: t) : w = v := by
  rcases h with ⟨r, h⟩
  rw [List.append_assoc, List.cons_append] at h
  exact (append_cons_inj_of_notMem hw hv h).1

/-! ## The search for a word -/

theorem cutStr_skip (hz : sep ∉ z) :
    cutStr (sep :: p) (z ++ s) = (cutStr (sep :: p) s).map fun q => (z ++ q.1, q.2) := by
  induction z with
  | nil => simp
  | cons b z ih =>
      rw [List.mem_cons, not_or] at hz
      rw [List.cons_append, cutStr, if_neg, ih hz.2, Option.map_map]
      · rfl
      · intro hpre
        exact hz.1 (List.cons_prefix_cons.1 hpre).1

theorem cutStr_of_notMem (hz : sep ∉ z) : cutStr (sep :: p) z = none := by
  have h := cutStr_skip (p := p) (s := []) hz
  rw [List.append_nil] at h
  rw [h]
  rfl

theorem word_prefix_iff (hv : sep ∉ v) (hw : sep ∉ w) (he : sep ∉ e) :
    v ++ [sep] <+: w ++ lead sep e ws ↔ w = v ∧ ws ≠ [] := by
  cases ws with
  | nil =>
      constructor
      · intro h
        have hmem : sep ∈ w ++ lead sep e [] := h.subset (by simp)
        rw [lead_nil, List.mem_append] at hmem
        exact absurd hmem (not_or.2 ⟨hw, he⟩)
      · exact fun h => absurd rfl h.2
  | cons u ws =>
      rw [lead_cons]
      constructor
      · intro h
        exact ⟨(word_eq_of_start hv hw h).symm, by simp⟩
      · rintro ⟨rfl, _⟩
        exact ⟨u ++ lead sep e ws, by simp⟩

/-- The word is found where it stands in front of another separator. -/
theorem cutStr_lead_cons (hv : sep ∉ v) (hw : sep ∉ w) (he : sep ∉ e) :
    cutStr (sep :: (v ++ [sep])) (lead sep e (w :: ws)) =
      if w = v ∧ ws ≠ [] then some ([], (lead sep e ws).tail)
      else (cutStr (sep :: (v ++ [sep])) (lead sep e ws)).map fun q => (sep :: (w ++ q.1), q.2) := by
  rw [lead_cons, cutStr]
  by_cases h : w = v ∧ ws ≠ []
  · rw [if_pos (List.cons_prefix_cons.2 ⟨rfl, (word_prefix_iff hv hw he).2 h⟩), if_pos h]
    rcases h with ⟨rfl, hne⟩
    rcases List.exists_cons_of_ne_nil hne with ⟨u, ws, rfl⟩
    simp
  · have hno : ¬ sep :: (v ++ [sep]) <+: sep :: (w ++ lead sep e ws) := by
      intro hpre
      exact h ((word_prefix_iff hv hw he).1 (List.cons_prefix_cons.1 hpre).2)
    rw [if_neg hno, if_neg h, cutStr_skip hw, Option.map_map]
    rfl

end Words

end CLib
