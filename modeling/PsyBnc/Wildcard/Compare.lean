import PsyBnc.PString
import PsyBnc.Wildcard.Match

/-!
# The comparison with wildcards (`strmwildcmp`)

Both texts are put in capitals first.  At a star the loop goes to the first place of the word up to the
next wildcard, or to the last place of the rest when there is no wildcard left; it never comes back to
another place.
-/

namespace PsyBnc

open CLib

/-- `pat2 - pat`, where the first wildcard is. -/
def nextWildcard (pat : CStr) : Option Nat :=
  let pat2 := (cutAt WILDS pat).map fun q => q.1.length
  let pat3 := (cutAt WILDQ pat).map fun q => q.1.length
  match pat2, pat3 with
  | none, _ => pat3
  | some _, none => pat2
  | some i, some j => if j < i then pat3 else pat2

/-- `pat3` after the search that goes on one byte behind each place of `pat`. -/
def laststr (pat : CStr) : CStr → Option CStr → Option CStr
  | [], pat3 => pat3
  | b :: pat2, pat3 => laststr pat pat2 (if pat <+: b :: pat2 then some (b :: pat2) else pat3)

def wildcmpLoop : CStr → CStr → Bool
  | [], eone => decide (eone = [])
  | c :: pat, [] => decide (c = WILDS ∧ pat = [])
  | c :: pat, b :: eone =>
      if c = WILDS then
        if pat = [] then true
        else
          match nextWildcard pat with
          | none =>
              match laststr pat (b :: eone) none with
              | some pat3 => strmcmp pat3 pat
              | none => false
          | some ln =>
              match cutStr (pat.take ln) (b :: eone) with
              | none => false
              | some (_, eone) => wildcmpLoop (pat.drop ln) eone
      else if c = WILDQ then wildcmpLoop pat eone
      else if toupper c ≠ toupper b then false
      else wildcmpLoop pat eone
  termination_by pat _ => pat.length
  decreasing_by
    all_goals simp only [List.length_cons, List.length_drop]
    all_goals omega

def strmwildcmp (one pattern : CStr) : Bool :=
  wildcmpLoop (ucase (clip 1024 pattern)) (ucase (clip 2048 one))

/-! ## The language of a pattern -/

def patternItem (c : Byte) : Glob Byte :=
  if c = WILDS then .star
  else if c = WILDQ then .one fun _ => true
  else .one fun b => toupper b == toupper c

/-- The texts that a pattern stands for. -/
def InPattern (pattern one : CStr) : Prop := Glob.Matches (pattern.map patternItem) one

/-- The pattern does not end in two stars, and behind its first star a `?` comes in front of a wildcard
only. -/
structure Scannable (pattern : CStr) : Prop where
  stars : ¬ [WILDS, WILDS] <:+ pattern
  marks : ∀ u v, pattern = u ++ WILDQ :: v → WILDS ∈ u → v.head? = some WILDS ∨ v.head? = some WILDQ

section Steps

variable {pat eone u v x t : CStr} {c b : Byte}

/-- A byte that stands for itself. -/
def NoWild (c : Byte) : Prop := c ≠ WILDS ∧ c ≠ WILDQ

instance decidableNoWild (c : Byte) : Decidable (NoWild c) :=
  inferInstanceAs (Decidable (c ≠ WILDS ∧ c ≠ WILDQ))

theorem nextWildcard_append (hu : ∀ c ∈ u, NoWild c) (hc : ¬ NoWild c) :
    nextWildcard (u ++ c :: v) = some u.length := by
  have hS : WILDS ∉ u := fun h => (hu _ h).1 rfl
  have hQ : WILDQ ∉ u := fun h => (hu _ h).2 rfl
  by_cases hstar : c = WILDS
  · subst hstar
    rw [nextWildcard, cutAt_append hS]
    rcases cut_cases WILDQ (u ++ WILDS :: v) with ⟨_, hcut⟩ | ⟨u', v', heq, _, hcut⟩
    · rw [hcut]
      rfl
    · rw [hcut]
      simp only [Option.map_some]
      rw [if_neg]
      -- The mark is not in the word.
      intro hlt
      have hpre : u' ++ [WILDQ] <+: u := by
        have hwhole : u' ++ [WILDQ] <+: u ++ WILDS :: v := ⟨v', by rw [heq, List.append_assoc]; rfl⟩
        apply List.prefix_of_prefix_length_le hwhole
        · exact List.prefix_append _ _
        · simpa using Nat.succ_le_of_lt hlt
      exact hQ (hpre.subset (by simp))
  · have hmark : c = WILDQ := by
      by_contra hne
      exact hc ⟨hstar, hne⟩
    subst hmark
    rw [nextWildcard, cutAt_append hQ]
    rcases cut_cases WILDS (u ++ WILDQ :: v) with ⟨_, hcut⟩ | ⟨u', v', heq, hu', hcut⟩
    · rw [hcut]
      rfl
    · rw [hcut]
      simp only [Option.map_some]
      rw [if_pos]
      by_contra hle
      have hpre : u' ++ [WILDS] <+: u ++ [WILDQ] := by
        have hwhole : u' ++ [WILDS] <+: u ++ WILDQ :: v := ⟨v', by rw [heq, List.append_assoc]; rfl⟩
        apply List.prefix_of_prefix_length_le hwhole
        · exact ⟨v, by rw [List.append_assoc]; rfl⟩
        · simpa using Nat.le_of_not_lt hle
      have hmem : WILDS ∈ u ++ [WILDQ] := hpre.subset (by simp)
      rcases List.mem_append.1 hmem with h | h
      · exact hS h
      · cases List.mem_singleton.1 h

theorem nextWildcard_noWild (hpat : ∀ c ∈ pat, NoWild c) : nextWildcard pat = none := by
  have hS : WILDS ∉ pat := fun h => (hpat _ h).1 rfl
  have hQ : WILDQ ∉ pat := fun h => (hpat _ h).2 rfl
  rw [nextWildcard, cutAt_eq_none.2 hS, cutAt_eq_none.2 hQ]
  rfl

/-- The word at the start of a pattern. -/
theorem exists_word (pat : CStr) :
    ∃ u v, pat = u ++ v ∧ (∀ c ∈ u, NoWild c) ∧ ∀ c ∈ v.head?, ¬ NoWild c := by
  induction pat with
  | nil => exact ⟨[], [], rfl, by simp, by simp⟩
  | cons c pat ih =>
      by_cases hc : NoWild c
      · rcases ih with ⟨u, v, rfl, hu, hv⟩
        exact ⟨c :: u, v, rfl, List.forall_mem_cons.2 ⟨hc, hu⟩, hv⟩
      · refine ⟨[], c :: pat, rfl, by simp, ?_⟩
        intro c' hc'
        cases hc'
        exact hc

theorem laststr_of_short {pat3 : Option CStr} (h : eone.length < pat.length) :
    laststr pat eone pat3 = pat3 := by
  induction eone generalizing pat3 with
  | nil => rfl
  | cons b eone ih =>
      rw [laststr, if_neg, ih]
      · exact Nat.lt_of_succ_lt h
      · intro hpre
        exact absurd hpre.length_le (Nat.not_le.2 h)

/-- The last place of a word that the text ends in is that end. -/
theorem laststr_of_suffix {pat3 : Option CStr} (hne : pat ≠ []) (h : pat <:+ eone) :
    laststr pat eone pat3 = some pat := by
  induction eone generalizing pat3 with
  | nil => exact absurd (List.suffix_nil.1 h) hne
  | cons b eone ih =>
      rw [laststr]
      rcases List.suffix_cons_iff.1 h with heq | h
      · rw [← heq, if_pos (List.prefix_refl _)]
        apply laststr_of_short
        rw [heq]
        exact Nat.lt_succ_self _
      · exact ih h

theorem suffix_of_laststr {pat3 : Option CStr} (h : laststr pat eone pat3 = some t) :
    pat3 = some t ∨ t <:+ eone := by
  induction eone generalizing pat3 with
  | nil => exact Or.inl h
  | cons b eone ih =>
      rw [laststr] at h
      rcases ih h with h | h
      · split at h
        · cases h
          exact Or.inr (List.suffix_refl _)
        · exact Or.inl h
      · exact Or.inr (h.trans (List.suffix_cons b eone))

/-- The rest of a pattern without wildcards is compared with the end of the text. -/
theorem wildcmpLoop_last (hne : pat ≠ []) (hpat : ∀ c ∈ pat, NoWild c) :
    wildcmpLoop (WILDS :: pat) (b :: eone) = true ↔ pat <:+ b :: eone := by
  rw [wildcmpLoop, if_pos rfl, if_neg hne, nextWildcard_noWild hpat]
  constructor
  · intro h
    cases hlast : laststr pat (b :: eone) none with
    | none =>
        rw [hlast] at h
        cases h
    | some pat3 =>
        rw [hlast] at h
        rw [← strmcmp_iff.1 h]
        rcases suffix_of_laststr hlast with h | h
        · cases h
        · exact h
  · intro h
    rw [laststr_of_suffix hne h]
    exact strmcmp_iff.2 rfl

theorem wildcmpLoop_star (hu : ∀ c ∈ u, NoWild c) (hc : ¬ NoWild c) :
    wildcmpLoop (WILDS :: (u ++ c :: v)) (b :: eone) =
      match cutStr u (b :: eone) with
      | none => false
      | some (_, eone) => wildcmpLoop (c :: v) eone := by
  rw [wildcmpLoop, if_pos rfl, if_neg (by simp), nextWildcard_append hu hc]
  simp only [List.take_left, List.drop_left]

theorem wildcmpLoop_mark : wildcmpLoop (WILDQ :: pat) (b :: eone) = wildcmpLoop pat eone := by
  rw [wildcmpLoop, if_neg (by decide), if_pos rfl]

theorem wildcmpLoop_noWild (hc : NoWild c) :
    wildcmpLoop (c :: pat) (b :: eone) =
      if toupper c ≠ toupper b then false else wildcmpLoop pat eone := by
  rw [wildcmpLoop, if_neg hc.1, if_neg hc.2]

theorem wildcmpLoop_end : wildcmpLoop pat [] = true ↔ pat = [] ∨ pat = [WILDS] := by
  cases pat with
  | nil => simp [wildcmpLoop]
  | cons c pat => simp [wildcmpLoop]

end Steps

/-! ## What a scannable pattern finds -/

/-- An item that compares the capitals as they are. -/
def exactItem (c : Byte) : Glob Byte :=
  if c = WILDS then .star
  else if c = WILDQ then .one fun _ => true
  else .one (· == c)

def Capital (c : Byte) : Prop := toupper c = c

/-- Behind the first star: each `?` is in front of a wildcard. -/
def Marked (pat : CStr) : Prop :=
  ∀ u v, pat = u ++ WILDQ :: v → v.head? = some WILDS ∨ v.head? = some WILDQ

section Found

variable {pat eone u v x t : CStr} {c b : Byte}

theorem map_exactItem (hu : ∀ c ∈ u, NoWild c) : u.map exactItem = Glob.word u := by
  apply List.map_congr_left
  intro c hc
  rw [exactItem, if_neg (hu c hc).1, if_neg (hu c hc).2]

theorem exactItem_star : exactItem WILDS = .star := rfl

theorem exactItem_mark : exactItem WILDQ = .one fun _ => true := rfl

theorem Marked.tail (h : Marked (u ++ pat)) : Marked pat := by
  intro u' v heq
  apply h (u ++ u') v
  rw [heq, List.append_assoc]

/-- Marks and then a star: more text in front does no harm. -/
theorem Marked.extends (h : Marked (c :: pat)) (hc : ¬ NoWild c) :
    Glob.Extends ((c :: pat).map exactItem) := by
  induction pat generalizing c with
  | nil =>
      by_cases hstar : c = WILDS
      · subst hstar
        exact Glob.extends_star
      · have hmark : c = WILDQ := by
          by_contra hne
          exact hc ⟨hstar, hne⟩
        subst hmark
        rcases h [] [] rfl with h | h
        · cases h
        · cases h
  | cons d pat ih =>
      by_cases hstar : c = WILDS
      · subst hstar
        exact Glob.extends_star
      · have hmark : c = WILDQ := by
          by_contra hne
          exact hc ⟨hstar, hne⟩
        subst hmark
        apply Glob.Extends.any
        apply ih
        · exact Marked.tail (u := [WILDQ]) h
        · rcases h [] (d :: pat) rfl with h | h
          · cases h
            exact fun hd => hd.1 rfl
          · cases h
            exact fun hd => hd.2 rfl

/-- Only stars match the empty text. -/
theorem eq_replicate_of_matches_nil (h : Glob.Matches (pat.map exactItem) []) :
    pat = List.replicate pat.length WILDS := by
  induction pat with
  | nil => rfl
  | cons c pat ih =>
      rw [List.map_cons, exactItem] at h
      split at h
      · next hstar =>
        rw [List.length_cons, List.replicate_succ, ← ih (Glob.matches_star_nil.1 h), hstar]
      · split at h
        · exact absurd h Glob.not_matches_one_nil
        · exact absurd h Glob.not_matches_one_nil

/-- Where the text ends: one star may be left. -/
theorem matches_end (h : ¬ [WILDS, WILDS] <:+ pat) :
    (pat = [] ∨ pat = [WILDS]) ↔ Glob.Matches (pat.map exactItem) [] := by
  constructor
  · rintro (rfl | rfl)
    · rfl
    · exact Glob.matches_singleton_star
  · intro hm
    have hstars := eq_replicate_of_matches_nil hm
    match hlen : pat.length with
    | 0 => exact Or.inl (List.length_eq_zero_iff.1 hlen)
    | 1 =>
        rw [hlen] at hstars
        exact Or.inr hstars
    | n + 2 =>
        rw [hlen] at hstars
        have hsplit : List.replicate (n + 2) WILDS = List.replicate n WILDS ++ [WILDS, WILDS] :=
          List.replicate_append_replicate.symm
        exact absurd ⟨_, (hstars.trans hsplit).symm⟩ h

theorem matches_word {s : CStr} : Glob.Matches (Glob.word u) s ↔ s = u := by
  have h := Glob.matches_word_append (u := u) (s := s) (g := [])
  rw [List.append_nil] at h
  rw [h]
  constructor
  · rintro ⟨t, rfl, ht⟩
    rw [Glob.matches_nil_iff.1 ht, List.append_nil]
  · rintro rfl
    exact ⟨[], (List.append_nil s).symm, rfl⟩

/-- At a star: the word behind it is searched for, and the first place will do. -/
theorem matches_star_search (hu : ∀ c ∈ u, NoWild c) (hc : ¬ NoWild c) (hmarks : Marked (u ++ c :: v))
    (hcut : cutStr u eone = some (x, t)) :
    Glob.Matches ((WILDS :: (u ++ c :: v)).map exactItem) eone ↔
      Glob.Matches ((c :: v).map exactItem) t := by
  rcases cutStr_first hcut with ⟨heq, hfirst⟩
  rw [List.map_cons, List.map_append, exactItem_star, map_exactItem hu]
  exact Glob.matches_star_word (hmarks.tail.extends hc) heq hfirst

theorem not_matches_star_search {g : List (Glob Byte)} (hu : ∀ c ∈ u, NoWild c) (hcut : cutStr u eone = none) :
    ¬ Glob.Matches (Glob.star :: (u.map exactItem ++ g)) eone := by
  rw [map_exactItem hu]
  rintro ⟨x, s, heq, hs⟩
  rcases Glob.matches_word_append.1 hs with ⟨t, rfl, _⟩
  exact cutStr_eq_none hcut x t (by rw [heq, List.append_assoc])

/-- The loop is right about what is left of the pattern and of the text. -/
theorem wildcmpLoop_iff (hpat : ∀ c ∈ pat, Capital c) (hone : ∀ b ∈ eone, Capital b)
    (hstars : ¬ [WILDS, WILDS] <:+ pat) (hmarks : ∀ u v, pat = u ++ WILDS :: v → Marked v) :
    wildcmpLoop pat eone = true ↔ Glob.Matches (pat.map exactItem) eone := by
  -- Each round goes on with a shorter pattern.
  induction hlen : pat.length using Nat.strong_induction_on generalizing pat eone with
  | _ n ih =>
      subst hlen
      have hrest : ∀ (u : CStr) {pat' : CStr} {eone' : CStr}, pat = u ++ pat' → pat'.length < pat.length →
          eone' <:+ eone → (wildcmpLoop pat' eone' = true ↔ Glob.Matches (pat'.map exactItem) eone') := by
        intro u pat' eone' heq hlt hsuffix
        apply ih pat'.length hlt _ _ _ _ rfl
        · exact fun c hc => hpat c (by rw [heq]; exact List.mem_append_right _ hc)
        · exact fun b hb => hone b (hsuffix.subset hb)
        · exact fun h => hstars (h.trans ⟨u, heq.symm⟩)
        · exact fun u' v heq' => hmarks (u ++ u') v (by rw [heq, heq', List.append_assoc])
      cases eone with
      | nil =>
          exact wildcmpLoop_end.trans (matches_end hstars)
      | cons b eone =>
          cases pat with
          | nil =>
              rw [wildcmpLoop, List.map_nil, Glob.matches_nil_iff, decide_eq_true_iff]
          | cons c pat =>
              by_cases hstar : c = WILDS
              · subst hstar
                -- A star looks for the word behind it, up to the next wildcard.
                rcases exists_word pat with ⟨u, v, rfl, hu, hv⟩
                cases v with
                | nil =>
                    rw [List.append_nil]
                    by_cases hne : u = []
                    · subst hne
                      rw [wildcmpLoop, if_pos rfl, if_pos rfl]
                      exact ⟨fun _ => Glob.matches_singleton_star, fun _ => rfl⟩
                    · rw [wildcmpLoop_last hne hu, List.map_cons, exactItem_star, map_exactItem hu,
                        Glob.matches_star_iff]
                      constructor
                      · exact fun h => ⟨u, h, matches_word.2 rfl⟩
                      · rintro ⟨s, hs, hm⟩
                        rwa [← matches_word.1 hm]
                | cons d v =>
                    have hd : ¬ NoWild d := hv d rfl
                    rw [wildcmpLoop_star hu hd]
                    cases hcut : cutStr u (b :: eone) with
                    | none =>
                        rw [List.map_cons, List.map_append, exactItem_star]
                        exact ⟨fun h => (by cases h), fun h => absurd h (not_matches_star_search hu hcut)⟩
                    | some q =>
                        -- The first place of the word is enough, as the marks of the pattern do not come behind a star.
                        rw [matches_star_search hu hd (hmarks [] _ rfl) hcut]
                        apply hrest (WILDS :: u) rfl
                        · simp only [List.length_cons, List.length_append]
                          omega
                        · exact ⟨_, (cutStr_first hcut).1.symm⟩
              · have hlt : pat.length < (c :: pat).length := Nat.lt_succ_self _
                by_cases hmark : c = WILDQ
                · subst hmark
                  rw [wildcmpLoop_mark, List.map_cons, exactItem_mark, Glob.matches_one_cons]
                  rw [hrest [WILDQ] rfl hlt (List.suffix_cons b eone)]
                  exact ⟨fun h => ⟨rfl, h⟩, And.right⟩
                · rw [wildcmpLoop_noWild ⟨hstar, hmark⟩, hpat c List.mem_cons_self, hone b List.mem_cons_self,
                    List.map_cons, exactItem, if_neg hstar, if_neg hmark, Glob.matches_one_cons, beq_iff_eq]
                  by_cases hcb : c = b
                  · rw [if_neg (not_not_intro hcb), hrest [c] rfl hlt (List.suffix_cons b eone)]
                    exact ⟨fun h => ⟨hcb.symm, h⟩, And.right⟩
                  · rw [if_pos hcb]
                    exact ⟨fun h => (by cases h), fun h => absurd h.1.symm hcb⟩

end Found

/-! ## What another pattern misses -/

/-- A text for a pattern, with nothing for a star. -/
def sample : CStr → CStr
  | [] => []
  | c :: pat => if c = WILDS then sample pat else if c = WILDQ then 1 :: sample pat else c :: sample pat

section Missed

variable {pat eone u v w x t y h rest : CStr} {b c d : Byte} {j : Nat}

theorem sample_append : sample (u ++ v) = sample u ++ sample v := by
  induction u with
  | nil => rfl
  | cons c u ih =>
      rw [List.cons_append, sample, sample, ih]
      split
      · rfl
      · split <;> rfl

theorem sample_noWild (hu : ∀ c ∈ u, NoWild c) : sample u = u := by
  induction u with
  | nil => rfl
  | cons c u ih =>
      rw [List.forall_mem_cons] at hu
      rw [sample, if_neg hu.1.1, if_neg hu.1.2, ih hu.2]

theorem length_sample_le : (sample pat).length ≤ pat.length := by
  induction pat with
  | nil => exact Nat.le_refl _
  | cons c pat ih =>
      rw [sample]
      split
      · exact Nat.le_succ_of_le ih
      · split <;> exact Nat.succ_le_succ ih

theorem mem_sample (hb : b ∈ sample pat) : b = 1 ∨ b ∈ pat := by
  induction pat with
  | nil => exact Or.inr hb
  | cons c pat ih =>
      have hrest : b ∈ sample pat → b = 1 ∨ b ∈ c :: pat :=
        fun h => (ih h).imp_right (List.mem_cons_of_mem c)
      rw [sample] at hb
      split at hb
      · exact hrest hb
      · split at hb
        · rcases List.mem_cons.1 hb with rfl | hb
          · exact Or.inl rfl
          · exact hrest hb
        · rcases List.mem_cons.1 hb with rfl | hb
          · exact Or.inr List.mem_cons_self
          · exact hrest hb

theorem matches_sample : Glob.Matches (pat.map exactItem) (sample pat) := by
  induction pat with
  | nil => rfl
  | cons c pat ih =>
      rw [List.map_cons, exactItem, sample]
      split
      · exact ih.star
      · split
        · exact Glob.matches_one_cons.2 ⟨rfl, ih⟩
        · exact Glob.matches_one_cons.2 ⟨beq_self_eq_true c, ih⟩

/-- The loop goes through the sample of what stands in front of a star. -/
theorem wildcmpLoop_sample (hend : h ≠ [] ∨ rest ≠ []) :
    wildcmpLoop (pat ++ WILDS :: rest) (sample pat ++ h) = wildcmpLoop (WILDS :: rest) h := by
  induction hlen : pat.length using Nat.strong_induction_on generalizing pat with
  | _ n ih =>
      subst hlen
      cases pat with
      | nil => rfl
      | cons c pat =>
          have hlt : pat.length < (c :: pat).length := Nat.lt_succ_self _
          rw [List.cons_append, sample]
          by_cases hstar : c = WILDS
          · rw [if_pos hstar]
            subst hstar
            cases htext : sample pat ++ h with
            | nil =>
                -- There is no text left, but more than one star of the pattern.
                have hh : h = [] := (List.append_eq_nil_iff.1 htext).2
                have hrest : rest ≠ [] := hend.resolve_left (fun hne => hne hh)
                rw [hh, wildcmpLoop, wildcmpLoop]
                simp [hrest]
            | cons b eone =>
                rcases exists_word pat with ⟨u, v, rfl, hu, hv⟩
                have hv' : ∃ c v', v ++ WILDS :: rest = c :: v' ∧ ¬ NoWild c := by
                  cases v with
                  | nil => exact ⟨WILDS, rest, rfl, fun hc => hc.1 rfl⟩
                  | cons c v => exact ⟨c, v ++ WILDS :: rest, rfl, hv c rfl⟩
                rcases hv' with ⟨c, v', heq, hc⟩
                have hword : b :: eone = u ++ (sample v ++ h) := by
                  rw [← htext, sample_append, sample_noWild hu, List.append_assoc]
                rw [List.append_assoc, heq, wildcmpLoop_star hu hc, hword, cutStr_append]
                simp only
                rw [← heq]
                apply ih v.length _ rfl
                simp only [List.length_cons, List.length_append]
                omega
          · rw [if_neg hstar]
            by_cases hmark : c = WILDQ
            · rw [if_pos hmark]
              subst hmark
              rw [List.cons_append, wildcmpLoop_mark]
              exact ih _ hlt rfl
            · rw [if_neg hmark, List.cons_append, wildcmpLoop_noWild ⟨hstar, hmark⟩, if_neg (by simp)]
              exact ih _ hlt rfl

theorem wildcmpLoop_marks :
    wildcmpLoop (List.replicate j WILDQ ++ v) (List.replicate j d ++ y) = wildcmpLoop v y := by
  induction j with
  | zero => rfl
  | succ j ih =>
      rw [List.replicate_succ, List.replicate_succ, List.cons_append, List.cons_append, wildcmpLoop_mark, ih]

/-- Marks that are not in front of a wildcard: the first place of the word in front of them is not the one. -/
theorem wildcmpLoop_missed (hw : ∀ c ∈ w, NoWild c) (hv : ∀ c ∈ v.head?, NoWild c ∧ toupper c ≠ toupper d) :
    wildcmpLoop (WILDS :: (w ++ (List.replicate (j + 1) WILDQ ++ v)))
      (w ++ (List.replicate (j + 1) d ++ d :: y)) = false := by
  cases htext : w ++ (List.replicate (j + 1) d ++ d :: y) with
  | nil => simp at htext
  | cons b eone =>
      have hmark : ¬ NoWild WILDQ := fun h => h.2 rfl
      rw [List.replicate_succ, List.cons_append, wildcmpLoop_star hw hmark, ← htext, cutStr_append]
      simp only
      rw [← List.cons_append, ← List.replicate_succ, wildcmpLoop_marks]
      cases v with
      | nil => rw [wildcmpLoop, decide_eq_false (by simp)]
      | cons c v =>
          rcases hv c rfl with ⟨hc, hcd⟩
          rw [wildcmpLoop_noWild hc, if_pos hcd]

/-- The first marks behind the last star, when one of them is not in front of a wildcard. -/
theorem exists_marks (hu : WILDS ∉ u) (hv : ∀ c ∈ v.head?, NoWild c) :
    ∃ w j z, u ++ WILDQ :: v = w ++ (List.replicate (j + 1) WILDQ ++ z) ∧ (∀ c ∈ w, NoWild c) ∧
      ∀ c ∈ z.head?, NoWild c := by
  induction u with
  | nil => exact ⟨[], 0, v, rfl, by simp, hv⟩
  | cons c u ih =>
      rw [List.mem_cons, not_or] at hu
      rcases ih hu.2 with ⟨w, j, z, heq, hw, hz⟩
      by_cases hmark : c = WILDQ
      · cases w with
        | nil =>
            refine ⟨[], j + 1, z, ?_, by simp, hz⟩
            rw [List.cons_append, heq, hmark]
            rfl
        | cons a w =>
            refine ⟨[], 0, a :: w ++ (List.replicate (j + 1) WILDQ ++ z), ?_, by simp, ?_⟩
            · rw [List.cons_append, heq, hmark]
              rfl
            · intro a' ha'
              cases ha'
              exact hw a List.mem_cons_self
      · refine ⟨c :: w, j, z, by rw [List.cons_append, heq]; rfl, ?_, hz⟩
        exact List.forall_mem_cons.2 ⟨⟨Ne.symm hu.1, hmark⟩, hw⟩

end Missed

/-! ## The comparison -/

section Whole

variable {pattern one u v : CStr} {b c : Byte}

theorem noWild_toupper (hc : NoWild c) : NoWild (toupper c) :=
  ⟨fun h => hc.1 ((toupper_eq_iff (by decide)).1 h), fun h => hc.2 ((toupper_eq_iff (by decide)).1 h)⟩

theorem capital_of_mem_ucase (hc : c ∈ ucase u) : Capital c := by
  rcases List.mem_map.1 hc with ⟨a, _, rfl⟩
  exact toupper_toupper a

theorem ucase_eq_self (h : ∀ c ∈ u, Capital c) : ucase u = u := by
  have hid : u.map toupper = u.map id := List.map_congr_left h
  rwa [List.map_id] at hid

theorem strmwildcmp_eq (hpattern : pattern.length < 1024) (hone : one.length < 2048) :
    strmwildcmp one pattern = wildcmpLoop (ucase pattern) (ucase one) := by
  rw [strmwildcmp, clip_eq_self hpattern, clip_eq_self hone]

theorem inPattern_iff :
    InPattern pattern one ↔ Glob.Matches ((ucase pattern).map exactItem) (ucase one) := by
  have hitems : pattern.map patternItem = ((ucase pattern).map exactItem).map (Glob.comap toupper) := by
    rw [ucase, List.map_map, List.map_map]
    apply List.map_congr_left
    intro c _
    rw [Function.comp_apply, Function.comp_apply, patternItem, exactItem]
    have hstar : toupper c = WILDS ↔ c = WILDS := toupper_eq_iff (by decide)
    have hmark : toupper c = WILDQ ↔ c = WILDQ := toupper_eq_iff (by decide)
    simp only [hstar, hmark]
    split
    · rfl
    · split <;> rfl
  rw [InPattern, hitems, Glob.matches_comap]
  rfl

theorem Scannable.stars_ucase (h : Scannable pattern) : ¬ [WILDS, WILDS] <:+ ucase pattern := by
  rintro ⟨z, hz⟩
  rcases List.map_eq_append_iff.1 hz.symm with ⟨z', t, hpat, _, ht⟩
  rcases List.map_eq_cons_iff.1 ht with ⟨a, t, rfl, ha, ht⟩
  rcases List.map_eq_cons_iff.1 ht with ⟨b, t, rfl, hb, ht⟩
  rw [List.map_eq_nil_iff.1 ht, (toupper_eq_iff (by decide)).1 ha, (toupper_eq_iff (by decide)).1 hb] at hpat
  exact h.stars ⟨z', hpat.symm⟩

theorem Scannable.marked_ucase (h : Scannable pattern) (hpat : ucase pattern = u ++ WILDS :: v) : Marked v := by
  intro u' v' heq
  rw [heq] at hpat
  rcases List.map_eq_append_iff.1 hpat with ⟨p, t, hpat, _, ht⟩
  rcases List.map_eq_cons_iff.1 ht with ⟨a, t, rfl, ha, ht⟩
  rcases List.map_eq_append_iff.1 ht with ⟨q, t, rfl, _, ht⟩
  rcases List.map_eq_cons_iff.1 ht with ⟨b, t, rfl, hb, ht⟩
  rw [(toupper_eq_iff (by decide)).1 ha, (toupper_eq_iff (by decide)).1 hb] at hpat
  have hhead := h.marks (p ++ WILDS :: q) t (by rw [hpat, List.append_assoc]; rfl) (by simp)
  rw [← ht, List.head?_map]
  rcases hhead with hhead | hhead
  · rw [hhead]
    exact Or.inl rfl
  · rw [hhead]
    exact Or.inr rfl

/-- `strmwildcmp` decides the language of a scannable pattern. -/
theorem strmwildcmp_of_scannable (hlen : pattern.length < 1024) (h : Scannable pattern)
    (hone : one.length < 2048) : strmwildcmp one pattern = true ↔ InPattern pattern one := by
  rw [strmwildcmp_eq hlen hone, inPattern_iff]
  apply wildcmpLoop_iff
  · exact fun c => capital_of_mem_ucase
  · exact fun b => capital_of_mem_ucase
  · exact h.stars_ucase
  · exact fun u v => h.marked_ucase

/-- `strmwildcmp` is right about every text. -/
def DecidesPattern (pattern : CStr) : Prop :=
  ∀ one : CStr, 0 ∉ one → one.length < 2048 → (strmwildcmp one pattern = true ↔ InPattern pattern one)

/-- A text of the pattern's language that the loop does not accept. -/
theorem not_decides_of_missed (hlen : pattern.length < 1024) (hnul : 0 ∉ one) (hone : one.length < 2048)
    (hcap : ∀ b ∈ one, Capital b) (hm : Glob.Matches ((ucase pattern).map exactItem) one)
    (hloop : wildcmpLoop (ucase pattern) one = false) : ¬ DecidesPattern pattern := by
  intro h
  have htrue := (h one hnul hone).2 (inPattern_iff.2 (by rw [ucase_eq_self hcap]; exact hm))
  rw [strmwildcmp_eq hlen hone, ucase_eq_self hcap, hloop] at htrue
  cases htrue

theorem capital_sample {pat : CStr} (hpat : ∀ c ∈ pat, Capital c) (hb : b ∈ sample pat) : Capital b := by
  rcases mem_sample hb with rfl | hb
  · rfl
  · exact hpat b hb

theorem zero_notMem_sample {pat : CStr} (hpat : 0 ∉ pat) : 0 ∉ sample pat := by
  intro h
  rcases mem_sample h with h | h
  · cases h
  · exact hpat h

theorem zero_notMem_ucase (h : 0 ∉ u) : 0 ∉ ucase u := by
  intro h0
  rcases List.mem_map.1 h0 with ⟨c, hc, heq⟩
  exact toupper_ne_zero (fun hzero => h (hzero ▸ hc)) heq

/-- Two stars at the end: the text that leaves nothing for them. -/
theorem not_decides_of_stars (hlen : pattern.length < 1024) (hnul : 0 ∉ pattern)
    (h : [WILDS, WILDS] <:+ pattern) : ¬ DecidesPattern pattern := by
  rcases h with ⟨z, rfl⟩
  have hsplit : ucase (z ++ [WILDS, WILDS]) = ucase z ++ [WILDS, WILDS] := List.map_append
  have hz : 0 ∉ ucase z := zero_notMem_ucase (fun h => hnul (List.mem_append_left _ h))
  apply not_decides_of_missed hlen (zero_notMem_sample hz)
  · have hle := @length_sample_le (ucase z)
    rw [length_ucase] at hle
    rw [List.length_append] at hlen
    omega
  · exact fun b => capital_sample (fun c => capital_of_mem_ucase)
  · have hm := @matches_sample (ucase z ++ [WILDS, WILDS])
    rw [sample_append] at hm
    rw [hsplit]
    simpa [sample] using hm
  · have hloop := @wildcmpLoop_sample (ucase z) [] [WILDS] (Or.inr (by simp))
    rw [List.append_nil] at hloop
    rw [hsplit, hloop, wildcmpLoop]
    simp

/-- Marks in front of something else: a text with the word twice. -/
theorem not_decides_of_marks {j : Nat} {p w z : CStr} (hlen : pattern.length < 1024) (hnul : 0 ∉ pattern)
    (hpattern : pattern = p ++ WILDS :: (w ++ (List.replicate (j + 1) WILDQ ++ z)))
    (hw : ∀ c ∈ w, NoWild c) (hz : ∀ c ∈ z.head?, NoWild c) : ¬ DecidesPattern pattern := by
  have hsplit : ucase pattern =
      ucase p ++ WILDS :: (ucase w ++ (List.replicate (j + 1) WILDQ ++ ucase z)) := by
    rw [hpattern]
    simp only [ucase, List.map_append, List.map_cons, List.map_replicate]
    rfl
  have hnul' := zero_notMem_ucase hnul
  rw [hsplit] at hnul'
  simp only [List.mem_append, List.mem_cons, not_or] at hnul'
  have hwplain : ∀ c ∈ ucase w, NoWild c := by
    intro c hc
    rcases List.mem_map.1 hc with ⟨a, ha, rfl⟩
    exact noWild_toupper (hw a ha)
  -- A byte that the pattern does not have behind the marks.
  obtain ⟨d, hd, hz'⟩ : ∃ d : Byte, (d = 1 ∨ d = 2) ∧ ∀ c ∈ (ucase z).head?, NoWild c ∧ toupper c ≠ toupper d := by
    cases z with
    | nil => exact ⟨1, Or.inl rfl, by simp [ucase]⟩
    | cons c z =>
        have hc : NoWild (toupper c) := noWild_toupper (hz c rfl)
        by_cases hone : toupper c = 1
        · refine ⟨2, Or.inr rfl, fun c' hc' => ?_⟩
          cases hc'
          exact ⟨hc, by rw [hone]; decide⟩
        · refine ⟨1, Or.inl rfl, fun c' hc' => ?_⟩
          cases hc'
          refine ⟨hc, ?_⟩
          rw [toupper_toupper]
          exact hone
  have hdcap : Capital d := by rcases hd with rfl | rfl <;> rfl
  have hdnul : (0 : Byte) ≠ d := by rcases hd with rfl | rfl <;> decide
  have hpcap : ∀ c ∈ ucase p, Capital c := fun c => capital_of_mem_ucase
  have hrcap : ∀ c ∈ ucase w ++ (List.replicate (j + 1) WILDQ ++ ucase z), Capital c := by
    intro c hc
    apply capital_of_mem_ucase (u := pattern)
    rw [hsplit]
    exact List.mem_append_right _ (List.mem_cons_of_mem _ hc)
  have hrnul : (0 : Byte) ∉ ucase w ++ (List.replicate (j + 1) WILDQ ++ ucase z) := by
    simp only [List.mem_append, not_or]
    exact hnul'.2.2
  -- The word, a byte more than there are marks, and then the rest of the pattern.
  have hmissed := @not_decides_of_missed pattern (sample (ucase p) ++ (ucase w ++ (List.replicate (j + 1) d ++
    d :: sample (ucase w ++ (List.replicate (j + 1) WILDQ ++ ucase z)))))
  apply hmissed hlen
  · simp only [List.mem_append, List.mem_cons, not_or]
    refine ⟨zero_notMem_sample hnul'.1, hnul'.2.2.1, ?_, hdnul, zero_notMem_sample hrnul⟩
    exact fun h => hdnul (List.eq_of_mem_replicate h)
  · have hp := @length_sample_le (ucase p)
    have hr := @length_sample_le (ucase w ++ (List.replicate (j + 1) WILDQ ++ ucase z))
    rw [hpattern] at hlen
    simp only [List.length_append, List.length_cons, List.length_replicate, length_ucase] at hp hr hlen ⊢
    omega
  · intro b hb
    simp only [List.mem_append, List.mem_cons] at hb
    rcases hb with hb | hb | hb | rfl | hb
    · exact capital_sample hpcap hb
    · exact capital_of_mem_ucase hb
    · rw [List.eq_of_mem_replicate hb]
      exact hdcap
    · exact hdcap
    · exact capital_sample hrcap hb
  · -- The pattern matches this text by its second word, which the loop does not look for.
    rw [hsplit, List.map_append, Glob.matches_append]
    refine ⟨_, _, rfl, matches_sample, ?_⟩
    rw [List.map_cons, exactItem_star]
    exact ⟨ucase w ++ (List.replicate (j + 1) d ++ [d]), _, by simp, matches_sample⟩
  · rw [hsplit, wildcmpLoop_sample (Or.inl (by simp))]
    exact wildcmpLoop_missed hwplain hz'

/-- Without both conditions there is a text that is missed. -/
theorem scannable_of_decides (hlen : pattern.length < 1024) (hnul : 0 ∉ pattern) (h : DecidesPattern pattern) :
    Scannable pattern where
  stars := fun hstars => not_decides_of_stars hlen hnul hstars h
  marks := by
    intro u v hpattern hstar
    by_contra hhead
    rw [not_or] at hhead
    -- The last star in front of the mark.
    rcases List.eq_append_cons_of_mem (List.mem_reverse.2 hstar) with ⟨q, p, hq, hnot⟩
    have hu : u = p.reverse ++ WILDS :: q.reverse := by
      rw [← List.reverse_reverse u, hq, List.reverse_append, List.reverse_cons, List.append_assoc]
      rfl
    have hv : ∀ c ∈ v.head?, NoWild c := by
      intro c hc
      rw [Option.mem_def.1 hc] at hhead
      exact ⟨fun hs => hhead.1 (by rw [hs]), fun hs => hhead.2 (by rw [hs])⟩
    have hlast : WILDS ∉ q.reverse := fun hs => hnot (List.mem_reverse.1 hs)
    rcases exists_marks hlast hv with ⟨w, j, z, heq, hw, hz⟩
    have hwhole : pattern = p.reverse ++ WILDS :: (w ++ (List.replicate (j + 1) WILDQ ++ z)) := by
      rw [hpattern, hu, List.append_assoc, List.cons_append, heq]
    exact not_decides_of_marks hlen hnul hwhole hw hz h

end Whole

theorem strmwildcmp_iff (pattern : CStr) (hlen : pattern.length < 1024) (hnul : 0 ∉ pattern) :
    (∀ one : CStr, 0 ∉ one → one.length < 2048 → (strmwildcmp one pattern = true ↔ InPattern pattern one)) ↔
      Scannable pattern :=
  ⟨scannable_of_decides hlen hnul, fun h _ _ hone => strmwildcmp_of_scannable hlen h hone⟩

theorem strmwildcmp_iff_host :
    (∀ one : CStr, 0 ∉ one → one.length < 2048 →
        (strmwildcmp one (ascii "*.eushells.com") = true ↔ InPattern (ascii "*.eushells.com") one)) ↔
      Scannable (ascii "*.eushells.com") :=
  strmwildcmp_iff _ (by decide) (by decide)

/-- `*some?hing`, as the comment of the source has it: the first `some` is not the one. -/
theorem strmwildcmp_misses :
    ¬ ∀ one pattern : CStr, 0 ∉ one → one.length < 2048 → 0 ∉ pattern → pattern.length < 1024 →
      (strmwildcmp one pattern = true ↔ InPattern pattern one) := by
  intro h
  have hm : InPattern (ascii "*some?hing") (ascii "some  something") := by
    rw [InPattern]
    decide
  have hone : (ascii "some  something").length < 2048 := by decide
  have hpattern : (ascii "*some?hing").length < 1024 := by decide
  have htrue := (h _ (ascii "*some?hing") (by decide) hone (by decide) hpattern).2 hm
  rw [strmwildcmp_eq hpattern hone] at htrue
  have hfalse : wildcmpLoop (ucase (ascii "*some?hing")) (ucase (ascii "some  something")) = false :=
    @wildcmpLoop_missed (ascii "HING") (ascii "SOME") (ascii "SOMETHING") SP 0 (by decide)
      (fun c hc => by cases hc; decide)
  rw [hfalse] at htrue
  cases htrue

end PsyBnc
