import Mathlib.Data.List.Basic
import Mathlib.Tactic.Common

/-!
# Lookup and removal by two tests

A list is searched with one test and elements are removed from it with a finer one.  The removal
takes away exactly what the search would find when the search finds one element at most, and this
one passes the finer test.
-/

namespace CLib

variable {α : Type}

section Two

variable {answers exact : α → Bool}

theorem filter_not_eq_self_iff {xs : List α} :
    xs = xs.filter (fun x => !answers x) ↔ xs.countP answers = 0 := by
  rw [eq_comm, List.filter_eq_self, List.countP_eq_zero]
  refine forall₂_congr fun x _ => ?_
  simp

/-- Removing by the finer test leaves every element that the search passes over. -/
theorem filter_not_eraseP (h : ∀ x, exact x = true → answers x = true) (xs : List α) :
    (xs.eraseP exact).filter (fun x => !answers x) = xs.filter fun x => !answers x := by
  induction xs with
  | nil =>
      rfl
  | cons x xs ih =>
      cases hx : exact x with
      | true =>
          simp [hx, h x hx]
      | false =>
          simp only [List.eraseP_cons, hx, cond_false, List.filter_cons, ih]

theorem eraseP_eq_filter_iff (h : ∀ x, exact x = true → answers x = true) (xs : List α) :
    xs.eraseP exact = xs.filter (fun x => !answers x) ↔
      xs.countP answers ≤ 1 ∧ ∀ x ∈ xs, answers x = true → exact x = true := by
  induction xs with
  | nil =>
      simp
  | cons x xs ih =>
      cases hx : exact x with
      | true =>
          have hanswers := h x hx
          simp only [List.eraseP_cons, hx, cond_true, List.filter_cons, hanswers, Bool.not_true,
            Bool.false_eq_true, if_false, filter_not_eq_self_iff, List.countP_cons, if_true]
          constructor
          · intro hzero
            refine ⟨by omega, ?_⟩
            -- the element in front is the only one that answers
            intro y hy hyes
            rcases List.mem_cons.1 hy with rfl | hy
            · exact hx
            · exact absurd hyes (List.countP_eq_zero.1 hzero y hy)
          · rintro ⟨hle, _⟩
            omega
      | false =>
          cases hanswers : answers x with
          | true =>
              simp only [List.eraseP_cons, hx, cond_false, List.filter_cons, hanswers, Bool.not_true,
                Bool.false_eq_true, if_false]
              constructor
              · intro heq
                have hmem : x ∈ xs.filter fun x => !answers x := by
                  rw [← heq]
                  exact List.mem_cons_self
                simp [hanswers] at hmem
              · rintro ⟨_, hall⟩
                have hexact := hall x List.mem_cons_self hanswers
                rw [hx] at hexact
                cases hexact
          | false =>
              have hcount : (x :: xs).countP answers = xs.countP answers := by
                rw [List.countP_cons]
                simp [hanswers]
              simp only [List.eraseP_cons, hx, cond_false, List.filter_cons, hanswers, Bool.not_false,
                if_true, List.cons.injEq, true_and, ih, hcount, List.forall_mem_cons, Bool.false_eq_true,
                false_implies]

/-- The search finds nothing after the removal exactly in the same case. -/
theorem eraseP_all_false_iff (h : ∀ x, exact x = true → answers x = true) (xs : List α) :
    (∀ x ∈ xs.eraseP exact, answers x = false) ↔
      xs.eraseP exact = xs.filter fun x => !answers x := by
  rw [← filter_not_eraseP h xs]
  constructor
  · intro hall
    rw [eq_comm, List.filter_eq_self]
    intro x hx
    simp [hall x hx]
  · intro heq x hx
    rw [heq] at hx
    simpa using (List.mem_filter.1 hx).2

end Two

/-! ## Searching by position -/

/-- A change that the search does not see leaves every position where it is. -/
theorem findIdx?_modify {p : α → Bool} {f : α → α} (h : ∀ a, p (f a) = p a) (l : List α) (k : Nat) :
    (l.modify k f).findIdx? p = l.findIdx? p := by
  induction l generalizing k with
  | nil =>
      simp
  | cons a l ih =>
      cases k with
      | zero =>
          simp [List.findIdx?_cons, h]
      | succ k =>
          simp [List.findIdx?_cons, ih]

end CLib
