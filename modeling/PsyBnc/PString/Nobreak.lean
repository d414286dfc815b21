import PsyBnc.PString

/-!
# Text without line breaks (`nobreak`)

`nobreak` looks for the first `\r` of the whole text, and for a `\n` only when there is none.
-/

namespace PsyBnc

open CLib

/-- `nobreak`: the text in front of its first `\r`, or of its first `\n` if it has no `\r`, as far as it fits `nbr`. -/
def nobreak (tobreak : CStr) : CStr :=
  rtrim <|
    match cutAt CR tobreak with
    | some (u, _) => clip 8191 u
    | none =>
        match cutAt LF tobreak with
        | some (u, _) => clip 8191 u
        | none => tobreak

/-- A text of one line. -/
def Unbroken (s : CStr) : Prop := CR ∉ s ∧ LF ∉ s

/-- The longest beginning of a text that is of one line. -/
structure FirstLine (s p : CStr) : Prop where
  pre : p <+: s
  unbroken : Unbroken p
  longest : ∀ q, q <+: s → Unbroken q → q <+: p

/-- The first line without the blanks at its end. -/
def Sanitised (s r : CStr) : Prop := ∃ p, FirstLine s p ∧ r = p.rdropWhile (fun b => b == SP)

/-- In front of the first `\r` of the text there is a `\n`. -/
def LfBeforeCr (s : CStr) : Prop := ∃ u v, s = u ++ CR :: v ∧ CR ∉ u ∧ LF ∈ u

section FirstLine

variable {s p q u v : CStr} {c : Byte}

theorem Unbroken.of_prefix (h : Unbroken p) (hq : q <+: p) : Unbroken q :=
  ⟨fun hmem => h.1 (hq.subset hmem), fun hmem => h.2 (hq.subset hmem)⟩

theorem FirstLine.whole (h : Unbroken s) : FirstLine s s where
  pre := List.prefix_rfl
  unbroken := h
  longest := fun _ hq _ => hq

/-- A line that ends with one of the two. -/
theorem FirstLine.ended (hc : c = CR ∨ c = LF) (hu : Unbroken u) : FirstLine (u ++ c :: v) u where
  pre := List.prefix_append _ _
  unbroken := hu
  longest := by
    intro q hq hunbroken
    rcases List.prefix_or_prefix_of_prefix hq (List.prefix_append u (c :: v)) with hle | hle
    · exact hle
    · rcases hle with ⟨t, rfl⟩
      cases t with
      | nil =>
          rw [List.append_nil]
      | cons d t =>
          -- what goes on behind the line starts with its end
          rw [List.prefix_append_right_inj, List.cons_prefix_cons] at hq
          rcases hc with rfl | rfl
          · exact absurd (List.mem_append_right u (hq.1 ▸ List.mem_cons_self)) hunbroken.1
          · exact absurd (List.mem_append_right u (hq.1 ▸ List.mem_cons_self)) hunbroken.2

theorem FirstLine.unique (hp : FirstLine s p) (hq : FirstLine s q) : p = q :=
  (hq.longest p hp.pre hp.unbroken).eq_of_length_le (hp.longest q hq.pre hq.unbroken).length_le

theorem mem_rdropWhile_sp (hc : c ≠ SP) (hmem : c ∈ s) : c ∈ s.rdropWhile (fun b => b == SP) := by
  rw [← @List.rdropWhile_append_rtakeWhile _ (fun b => b == SP) s, List.mem_append] at hmem
  rcases hmem with hmem | hmem
  · exact hmem
  · have hsp := List.mem_rtakeWhile_imp hmem
    exact absurd (beq_iff_eq.1 hsp) hc

theorem Sanitised.unbroken (h : Sanitised s p) : Unbroken p := by
  rcases h with ⟨line, hline, rfl⟩
  exact hline.unbroken.of_prefix (List.rdropWhile_prefix _ _)

end FirstLine

/-- `nobreak` leaves the first line exactly when there is no `\n` in front of the first `\r`. -/
theorem nobreak_sanitised_iff {s : CStr} (hlen : s.length < 4096) :
    Sanitised s (nobreak s) ∧ Unbroken (nobreak s) ↔ ¬ LfBeforeCr s := by
  rcases cut_cases CR s with ⟨hcr, hcut⟩ | ⟨u, v, rfl, hcr, hcut⟩
  · -- without a `\r` the first `\n` is looked for
    have hgood : Sanitised s (nobreak s) := by
      rcases cut_cases LF s with ⟨hlf, hcut'⟩ | ⟨u, v, rfl, hlf, hcut'⟩
      · refine ⟨s, FirstLine.whole ⟨hcr, hlf⟩, ?_⟩
        simp only [nobreak, hcut, hcut']
        exact rtrim_of_short (Nat.le_of_lt_succ hlen)
      · have hu : CR ∉ u := fun hmem => hcr (List.mem_append_left _ hmem)
        refine ⟨u, FirstLine.ended (Or.inr rfl) ⟨hu, hlf⟩, ?_⟩
        rw [List.length_append, List.length_cons] at hlen
        have hfits : clip 8191 u = u := clip_eq_self (by omega)
        simp only [nobreak, hcut, hcut', hfits]
        apply rtrim_of_short
        omega
    refine ⟨fun _ hbefore => ?_, fun _ => ⟨hgood, hgood.unbroken⟩⟩
    rcases hbefore with ⟨u, v, rfl, _, _⟩
    exact hcr (List.mem_append_right _ List.mem_cons_self)
  · have htrim : nobreak (u ++ CR :: v) = u.rdropWhile (fun b => b == SP) := by
      rw [List.length_append, List.length_cons] at hlen
      have hfits : clip 8191 u = u := clip_eq_self (by omega)
      simp only [nobreak, hcut, hfits]
      apply rtrim_of_short
      omega
    rw [htrim]
    constructor
    · rintro ⟨_, hunbroken⟩ ⟨u', v', heq, hcr', hlf⟩
      have hsame : u = u' := (append_cons_inj_of_notMem hcr hcr' heq).1
      -- the `\n` is no blank, so it is still there
      exact hunbroken.2 (mem_rdropWhile_sp (by decide) (hsame ▸ hlf))
    · intro hno
      have hlf : LF ∉ u := fun hmem => hno ⟨u, v, rfl, hcr, hmem⟩
      have hgood : Sanitised (u ++ CR :: v) (u.rdropWhile (fun b => b == SP)) :=
        ⟨u, FirstLine.ended (Or.inl rfl) ⟨hcr, hlf⟩, rfl⟩
      exact ⟨hgood, hgood.unbroken⟩

theorem nobreak_sanitised_quit : Sanitised (ascii "QUIT :bye \r\n") (nobreak (ascii "QUIT :bye \r\n")) := by
  have hno : ¬ LfBeforeCr (ascii "QUIT :bye \r\n") := by
    rintro ⟨u, v, heq, hcr, hlf⟩
    have hcut := cutAt_append (v := v) hcr
    rw [← heq] at hcut
    have hu : cutAt CR (ascii "QUIT :bye \r\n") = some (ascii "QUIT :bye ", [LF]) := by decide
    rw [hu] at hcut
    cases hcut
    revert hlf
    decide
  exact ((nobreak_sanitised_iff (by decide)).2 hno).1

/-- A second line behind a `\n` is kept when there is a `\r` behind it. -/
theorem nobreak_second_line :
    nobreak (ascii "bye\nQUIT\r") = ascii "bye\nQUIT" ∧
      ¬ Sanitised (ascii "bye\nQUIT\r") (nobreak (ascii "bye\nQUIT\r")) := by
  have hleft : nobreak (ascii "bye\nQUIT\r") = ascii "bye\nQUIT" := by decide
  refine ⟨hleft, ?_⟩
  rw [hleft]
  intro hline
  exact hline.unbroken.2 (by decide)

end PsyBnc
