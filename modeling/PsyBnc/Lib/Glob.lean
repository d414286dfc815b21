import Mathlib.Data.List.Infix
import Mathlib.Tactic.Common

/-!
# Patterns with wildcards

A pattern is a list of items: a star, which stands for any text, and items that stand for one letter each.
A matcher that goes through the text once and keeps one place to start again from finds a match if there
is one: what matches behind the last star decides.
-/

namespace CLib

inductive Glob (α : Type) where
  | star
  | one (p : α → Bool)

namespace Glob

variable {α : Type}

/-- The text is in the language of the pattern. -/
def Matches : List (Glob α) → List α → Prop
  | [], s => s = []
  | star :: g, s => ∃ u v, s = u ++ v ∧ Matches g v
  | one p :: g, s => ∃ a t, s = a :: t ∧ p a = true ∧ Matches g t

/-- The same as a program. -/
def accepts : List (Glob α) → List α → Bool
  | [], s => s.isEmpty
  | star :: g, s => s.tails.any (accepts g)
  | one _ :: _, [] => false
  | one p :: g, a :: t => p a && accepts g t

section Rules

variable {g h : List (Glob α)} {s t u v : List α} {a : α} {p : α → Bool}

theorem matches_nil_iff : Matches ([] : List (Glob α)) s ↔ s = [] := Iff.rfl

theorem matches_star_iff : Matches (star :: g) s ↔ ∃ v, v <:+ s ∧ Matches g v := by
  constructor
  · rintro ⟨u, v, rfl, hv⟩
    exact ⟨v, List.suffix_append u v, hv⟩
  · rintro ⟨v, ⟨u, rfl⟩, hv⟩
    exact ⟨u, v, rfl, hv⟩

theorem matches_one_cons : Matches (one p :: g) (a :: t) ↔ p a = true ∧ Matches g t := by
  constructor
  · rintro ⟨b, t', heq, hp, hg⟩
    cases heq
    exact ⟨hp, hg⟩
  · rintro ⟨hp, hg⟩
    exact ⟨a, t, rfl, hp, hg⟩

theorem not_matches_one_nil : ¬ Matches (one p :: g) [] := by
  rintro ⟨a, t, heq, _⟩
  cases heq

theorem matches_star_nil : Matches (star :: g) [] ↔ Matches g [] := by
  rw [matches_star_iff]
  constructor
  · rintro ⟨v, hv, hg⟩
    rwa [List.suffix_nil.1 hv] at hg
  · intro hg
    exact ⟨[], List.suffix_refl _, hg⟩

theorem matches_star_cons :
    Matches (star :: g) (a :: s) ↔ Matches g (a :: s) ∨ Matches (star :: g) s := by
  rw [matches_star_iff, matches_star_iff]
  constructor
  · rintro ⟨v, hv, hg⟩
    rcases List.suffix_cons_iff.1 hv with rfl | hv
    · exact Or.inl hg
    · exact Or.inr ⟨v, hv, hg⟩
  · rintro (hg | ⟨v, hv, hg⟩)
    · exact ⟨a :: s, List.suffix_refl _, hg⟩
    · exact ⟨v, hv.trans (List.suffix_cons a s), hg⟩

theorem Matches.star_of_suffix (hg : Matches (star :: g) t) (ht : t <:+ s) : Matches (star :: g) s := by
  rcases matches_star_iff.1 hg with ⟨v, hv, hg⟩
  exact matches_star_iff.2 ⟨v, hv.trans ht, hg⟩

theorem Matches.star (hg : Matches g s) : Matches (star :: g) s :=
  matches_star_iff.2 ⟨s, List.suffix_refl _, hg⟩

theorem matches_star_star : Matches (Glob.star :: Glob.star :: g) s ↔ Matches (Glob.star :: g) s := by
  constructor
  · intro hg
    rcases matches_star_iff.1 hg with ⟨v, hv, hg⟩
    exact hg.star_of_suffix hv
  · exact Matches.star

theorem matches_append :
    Matches (g ++ h) s ↔ ∃ u v, s = u ++ v ∧ Matches g u ∧ Matches h v := by
  induction g generalizing s with
  | nil =>
      constructor
      · intro hs
        exact ⟨[], s, rfl, rfl, hs⟩
      · rintro ⟨u, v, rfl, hu, hv⟩
        rw [matches_nil_iff.1 hu]
        exact hv
  | cons i g ih =>
      cases i with
      | star =>
          constructor
          · rintro ⟨w, t, rfl, ht⟩
            rcases ih.1 ht with ⟨u, v, rfl, hu, hv⟩
            exact ⟨w ++ u, v, by rw [List.append_assoc], ⟨w, u, rfl, hu⟩, hv⟩
          · rintro ⟨u, v, rfl, ⟨w, u', rfl, hu⟩, hv⟩
            exact ⟨w, u' ++ v, by rw [List.append_assoc], ih.2 ⟨u', v, rfl, hu, hv⟩⟩
      | one p =>
          constructor
          · rintro ⟨a, t, rfl, hp, ht⟩
            rcases ih.1 ht with ⟨u, v, rfl, hu, hv⟩
            exact ⟨a :: u, v, rfl, ⟨a, u, rfl, hp, hu⟩, hv⟩
          · rintro ⟨u, v, rfl, ⟨a, u', rfl, hp, hu⟩, hv⟩
            exact ⟨a, u' ++ v, rfl, hp, ih.2 ⟨u', v, rfl, hu, hv⟩⟩

theorem matches_singleton_star : Matches [(Glob.star : Glob α)] s :=
  matches_star_iff.2 ⟨[], List.nil_suffix, rfl⟩

theorem matches_singleton_one : Matches [one p] s ↔ ∃ a, s = [a] ∧ p a = true := by
  constructor
  · rintro ⟨a, t, rfl, hp, ht⟩
    rw [matches_nil_iff.1 ht]
    exact ⟨a, rfl, hp⟩
  · rintro ⟨a, rfl, hp⟩
    exact matches_one_cons.2 ⟨hp, rfl⟩

/-- A pattern can be read from either end. -/
theorem matches_reverse : Matches g.reverse s.reverse ↔ Matches g s := by
  induction g generalizing s with
  | nil =>
      simp [Matches]
  | cons i g ih =>
      rw [List.reverse_cons, matches_append]
      cases i with
      | star =>
          constructor
          · rintro ⟨u, v, heq, hu, _⟩
            refine ⟨v.reverse, u.reverse, ?_, ?_⟩
            · rw [← List.reverse_append, ← heq, List.reverse_reverse]
            · rw [← ih, List.reverse_reverse]
              exact hu
          · rintro ⟨u, v, rfl, hv⟩
            exact ⟨v.reverse, u.reverse, List.reverse_append, ih.2 hv, matches_singleton_star⟩
      | one p =>
          constructor
          · rintro ⟨u, v, heq, hu, hv⟩
            rcases matches_singleton_one.1 hv with ⟨a, rfl, hp⟩
            refine ⟨a, u.reverse, ?_, hp, ?_⟩
            · rw [← List.reverse_reverse s, heq, List.reverse_append]
              rfl
            · rw [← ih, List.reverse_reverse]
              exact hu
          · rintro ⟨a, t, rfl, hp, ht⟩
            exact ⟨t.reverse, [a], List.reverse_cons, ih.2 ht, matches_singleton_one.2 ⟨a, rfl, hp⟩⟩

theorem accepts_iff : accepts g s = true ↔ Matches g s := by
  induction g generalizing s with
  | nil =>
      simp [accepts, Matches]
  | cons i g ih =>
      cases i with
      | star =>
          rw [accepts, List.any_eq_true, matches_star_iff]
          simp [List.mem_tails, ih]
      | one p =>
          cases s with
          | nil =>
              simp [accepts, not_matches_one_nil]
          | cons a t =>
              rw [accepts, Bool.and_eq_true, ih, matches_one_cons]

instance decidableMatches (g : List (Glob α)) (s : List α) : Decidable (Matches g s) :=
  decidable_of_iff (accepts g s = true) accepts_iff

end Rules

/-! ## The first place of a word -/

/-- A word as a pattern. -/
def word [BEq α] (u : List α) : List (Glob α) := u.map fun c => one (· == c)

/-- More text in front does no harm. -/
def Extends (g : List (Glob α)) : Prop := ∀ ⦃v s : List α⦄, v <:+ s → Matches g v → Matches g s

section Word

variable {g : List (Glob α)} {s t u x : List α}

theorem matches_word_append [BEq α] [LawfulBEq α] :
    Matches (word u ++ g) s ↔ ∃ t, s = u ++ t ∧ Matches g t := by
  induction u generalizing s with
  | nil =>
      constructor
      · exact fun h => ⟨s, rfl, h⟩
      · rintro ⟨t, rfl, h⟩
        exact h
  | cons c u ih =>
      constructor
      · rintro ⟨a, t, rfl, hp, ht⟩
        rcases ih.1 ht with ⟨t, rfl, hg⟩
        exact ⟨t, by rw [← LawfulBEq.eq_of_beq hp, List.cons_append], hg⟩
      · rintro ⟨t, rfl, hg⟩
        exact ⟨c, u ++ t, rfl, beq_self_eq_true c, ih.2 ⟨t, rfl, hg⟩⟩

theorem extends_star : Extends (star :: g) := fun _ _ hv hg => hg.star_of_suffix hv

/-- A letter more is taken from the front, and as much text is left. -/
theorem Extends.any (h : Extends g) : Extends (one (fun _ => true) :: g) := by
  rintro _ s hv ⟨a, v, rfl, _, hg⟩
  cases s with
  | nil => exact absurd (List.suffix_nil.1 hv) (by simp)
  | cons b s =>
      refine ⟨b, s, rfl, rfl, h ?_ hg⟩
      have hvs : v <:+ b :: s := (List.suffix_cons a v).trans hv
      apply List.suffix_of_suffix_length_le hvs (List.suffix_cons b s)
      simpa using hv.length_le

/-- Behind a star the first place of a word is as good as any other. -/
theorem matches_star_word [BEq α] [LawfulBEq α] (hg : Extends g) (hs : s = x ++ u ++ t)
    (hfirst : ∀ x' t', s = x' ++ u ++ t' → t' <:+ t) :
    Matches (star :: (word u ++ g)) s ↔ Matches g t := by
  constructor
  · rintro ⟨x', v, heq, hv⟩
    rcases matches_word_append.1 hv with ⟨t', rfl, ht'⟩
    exact hg (hfirst x' t' (by rw [heq, List.append_assoc])) ht'
  · intro ht
    refine ⟨x, u ++ t, by rw [hs, List.append_assoc], ?_⟩
    exact matches_word_append.2 ⟨t, rfl, ht⟩

/-- The pattern for the texts whose image under `f` matches. -/
def comap {β : Type} (f : α → β) : Glob β → Glob α
  | star => star
  | one p => one fun a => p (f a)

theorem matches_comap {β : Type} {f : α → β} {g : List (Glob β)} :
    Matches (g.map (comap f)) s ↔ Matches g (s.map f) := by
  induction g generalizing s with
  | nil => simp [Matches]
  | cons i g ih =>
      cases i with
      | star =>
          constructor
          · rintro ⟨u, v, rfl, hv⟩
            exact ⟨u.map f, v.map f, List.map_append, ih.1 hv⟩
          · rintro ⟨u, v, heq, hv⟩
            rcases List.map_eq_append_iff.1 heq with ⟨u, v, rfl, rfl, rfl⟩
            exact ⟨u, v, rfl, ih.2 hv⟩
      | one p =>
          cases s with
          | nil =>
              constructor
              · exact fun h => absurd h not_matches_one_nil
              · exact fun h => absurd h not_matches_one_nil
          | cons a s =>
              rw [List.map_cons, List.map_cons, comap, matches_one_cons, matches_one_cons, ih]

end Word

/-! ## One place to start again from -/

/-- A pattern without stars. -/
def Single (g : List (Glob α)) : Prop := ∀ i ∈ g, i ≠ star

theorem Matches.length_eq {g : List (Glob α)} {s : List α} (hsingle : Single g) (h : Matches g s) :
    s.length = g.length := by
  induction g generalizing s with
  | nil =>
      rw [matches_nil_iff.1 h]
      rfl
  | cons i g ih =>
      cases i with
      | star => exact absurd rfl (hsingle _ List.mem_cons_self)
      | one p =>
          rcases h with ⟨a, t, rfl, _, ht⟩
          rw [List.length_cons, List.length_cons,
            ih (fun i hi => hsingle i (List.mem_cons_of_mem _ hi)) ht]

/-- The pattern behind the last star and the text where it was tried last. -/
abbrev Restart (α : Type) := Option (List (Glob α) × List α)

/-- There is a match from here, or from a later start behind the last star. -/
def Open (g : List (Glob α)) (s : List α) (last : Restart α) : Prop :=
  Matches g s ∨ ∃ g' s', last = some (g', s') ∧ ∃ v, v <:+ s'.tail ∧ s' ≠ [] ∧ Matches g' v

/-- What was matched behind the last star is single letters. -/
def Tried (g : List (Glob α)) (s : List α) (last : Restart α) : Prop :=
  ∀ g' s', last = some (g', s') →
    ∃ seg w, Single seg ∧ seg.length = w.length ∧ g' = seg ++ g ∧ s' = w ++ s

section Open

variable {g : List (Glob α)} {s : List α} {last : Restart α} {a : α} {p : α → Bool}

theorem matches_star_open : Matches (star :: g) s ↔ Open g s (some (g, s)) := by
  cases s with
  | nil =>
      rw [matches_star_nil]
      constructor
      · exact Or.inl
      · rintro (hg | ⟨_, _, heq, v, _, hne, _⟩)
        · exact hg
        · cases heq
          exact absurd rfl hne
  | cons a s =>
      rw [matches_star_cons]
      apply or_congr Iff.rfl
      rw [matches_star_iff]
      constructor
      · rintro ⟨v, hv, hg⟩
        exact ⟨g, a :: s, rfl, v, hv, by simp, hg⟩
      · rintro ⟨_, _, heq, v, hv, _, hg⟩
        cases heq
        exact ⟨v, hv, hg⟩

/-- At the next star the last one can be forgotten. -/
theorem open_star (h : Tried (star :: g) s last) :
    Open (star :: g) s last ↔ Open g s (some (g, s)) := by
  rw [← matches_star_open]
  constructor
  · rintro (hg | ⟨g', s', hlast, v, hv, hne, hg⟩)
    · exact hg
    · -- What the later start matches up to the star ends behind where it ended before.
      rcases h g' s' hlast with ⟨seg, w, hsingle, hlen, rfl, rfl⟩
      rcases matches_append.1 hg with ⟨x, y, rfl, hx, hy⟩
      apply hy.star_of_suffix
      have hxw : x.length = w.length := (hx.length_eq hsingle).trans hlen
      rcases hv with ⟨z, hz⟩
      have htail : (w ++ s).tail <:+ w ++ s := List.tail_suffix _
      have hsuffix : y <:+ w ++ s := by
        apply List.IsSuffix.trans _ htail
        exact ⟨z ++ x, by rw [← hz, List.append_assoc]⟩
      rcases List.suffix_or_suffix_of_suffix hsuffix (List.suffix_append w s) with hys | hsy
      · exact hys
      · have hlens := congrArg List.length hz
        have hpos := List.length_pos_iff.2 hne
        have hle := hsy.length_le
        simp only [List.length_append, List.length_tail] at hlens hpos
        omega
  · exact Or.inl

theorem open_one (hp : p a = true) : Open (one p :: g) (a :: s) last ↔ Open g s last := by
  rw [Open, Open, matches_one_cons]
  simp [hp]

theorem tried_one (h : Tried (one p :: g) (a :: s) last) : Tried g s last := by
  intro g' s' hlast
  rcases h g' s' hlast with ⟨seg, w, hsingle, hlen, rfl, rfl⟩
  refine ⟨seg ++ [one p], w ++ [a], ?_, by simp [hlen], by simp, by simp⟩
  intro i hi
  rcases List.mem_append.1 hi with hi | hi
  · exact hsingle i hi
  · rw [List.mem_singleton.1 hi]
    simp

theorem tried_self : Tried g s (some (g, s)) := by
  intro g' s' hlast
  cases hlast
  exact ⟨[], [], by simp [Single], rfl, rfl, rfl⟩

/-- Where the text ends, no later start can match: it has less text for as many letters. -/
theorem open_nil (h : Tried g [] last) : Open g [] last ↔ Matches g [] := by
  constructor
  · rintro (hg | ⟨g', s', hlast, v, hv, hne, hg⟩)
    · exact hg
    · rcases h g' s' hlast with ⟨seg, w, hsingle, hlen, rfl, rfl⟩
      rcases matches_append.1 hg with ⟨x, y, rfl, hx, _⟩
      have hxw := (hx.length_eq hsingle).trans hlen
      have hle := hv.length_le
      have hpos := List.length_pos_iff.2 hne
      simp only [List.length_append, List.length_tail, List.length_nil] at hle hpos
      omega
  · exact Or.inl

/-- A letter that does not match: the pattern behind the last star is tried one letter further on. -/
theorem open_restart {g' : List (Glob α)} {s' : List α} (h : ¬ Matches g s) :
    Open g s (some (g', a :: s')) ↔ Open g' s' (some (g', s')) := by
  have hlater : Open g s (some (g', a :: s')) ↔ ∃ v, v <:+ s' ∧ Matches g' v := by
    constructor
    · rintro (hg | ⟨_, _, heq, v, hv, _, hg⟩)
      · exact absurd hg h
      · cases heq
        exact ⟨v, hv, hg⟩
    · rintro ⟨v, hv, hg⟩
      exact Or.inr ⟨g', a :: s', rfl, v, hv, by simp, hg⟩
  rw [hlater, ← matches_star_iff, matches_star_open]

end Open

end Glob

end CLib
