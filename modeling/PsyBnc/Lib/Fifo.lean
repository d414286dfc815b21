import Mathlib.Data.List.Basic
import Mathlib.Tactic.Common

/-!
# Queues that are trimmed

`Trim P q app q'` describes what becomes of a bounded queue: new entries arrive at its end while
the oldest ones are taken away at its beginning, in any order.
-/

namespace CLib

variable {α : Type}

/-- `q'` is `q` with `app` behind it and some of the oldest entries gone; when any is, the first
one satisfies `P`. -/
def Trim (P : α → Prop) (q app q' : List α) : Prop :=
  ∃ m, m ≤ (q ++ app).length ∧ q' = (q ++ app).drop m ∧ (0 < m → ∀ e ∈ q.head?, P e)

section TrimLaws

variable {P : α → Prop} {q app q₁ q₂ : List α}

theorem Trim.keep (P : α → Prop) (q app : List α) : Trim P q app (q ++ app) :=
  ⟨0, by simp, by simp, by simp⟩

theorem Trim.pop {e : α} (he : P e) : Trim P (e :: q) [] q :=
  ⟨1, by simp, by simp, fun _ => by simpa using he⟩

/-- Entries may go after the new one has come. -/
theorem Trim.then_pop (h₁ : Trim P q app q₁) (h₂ : Trim P q₁ [] q₂) : Trim P q app q₂ := by
  rcases h₁ with ⟨m, hm, rfl, hP⟩
  rcases h₂ with ⟨n, hn, rfl, hP'⟩
  refine ⟨m + n, ?_, by simp, fun _ e he => ?_⟩
  · simp only [List.append_nil, List.length_drop] at hn
    omega
  · by_cases hm0 : 0 < m
    · exact hP hm0 e he
    · have hm' : m = 0 := by omega
      subst hm'
      refine hP' (by omega) e ?_
      cases q with
      | nil =>
          simp at he
      | cons a as =>
          simpa using he

/-- Entries may go before the new one comes. -/
theorem Trim.pop_then (h₁ : Trim P q [] q₁) (h₂ : Trim P q₁ app q₂) : Trim P q app q₂ := by
  rcases h₁ with ⟨m, hm, rfl, hP⟩
  rcases h₂ with ⟨n, hn, rfl, hP'⟩
  simp only [List.append_nil] at hm hn hP' ⊢
  refine ⟨m + n, ?_, ?_, fun _ e he => ?_⟩
  · simp only [List.length_append, List.length_drop] at hn ⊢
    omega
  · rw [← List.drop_append_of_le_length hm, List.drop_drop]
  · by_cases hm0 : 0 < m
    · exact hP hm0 e he
    · have hm' : m = 0 := by omega
      subst hm'
      exact hP' (by omega) e (by simpa using he)

theorem Trim.length_le (h : Trim P q app q₁) : q₁.length ≤ q.length + app.length := by
  rcases h with ⟨m, _, rfl, _⟩
  simp

/-- A queue that has not grown has lost its oldest entry. -/
theorem Trim.popped (h : Trim P q app q₁) (happ : app ≠ []) (hle : q₁.length ≤ q.length) :
    ∀ e ∈ q.head?, P e := by
  rcases h with ⟨m, hm, rfl, hP⟩
  refine hP ?_
  have hpos : 0 < app.length := List.length_pos_of_ne_nil happ
  simp only [List.length_drop, List.length_append] at hle
  omega

theorem Trim.mono {Q : α → Prop} (h : Trim P q app q₁) (hPQ : ∀ e, P e → Q e) :
    Trim Q q app q₁ := by
  rcases h with ⟨m, hm, rfl, hP⟩
  exact ⟨m, hm, rfl, fun h0 e he => hPQ e (hP h0 e he)⟩

end TrimLaws

end CLib
