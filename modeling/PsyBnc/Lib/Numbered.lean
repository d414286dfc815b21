import Mathlib.Data.List.Nodup
import Mathlib.Data.List.Perm.Subperm
import Mathlib.Data.Nat.Find
import Mathlib.Logic.Function.Basic

/-!
# A list in numbered places

Values are kept in places that have numbers, with gaps between them.  `Numbers n g l`: the places below `n`
hold the values of `l`, each in one place, and there is nothing in the others.
-/

namespace CLib

variable {α : Type} {n : Nat} {g : Nat → Option α} {l : List α} {i : Nat} {a : α}

structure Numbers (n : Nat) (g : Nat → Option α) (l : List α) : Prop where
  lt : ∀ i a, g i = some a → i < n
  mem_iff : ∀ a, a ∈ l ↔ ∃ i, g i = some a
  once : ∀ i j a, g i = some a → g j = some a → i = j

theorem Numbers.empty (n : Nat) : Numbers n (fun _ => none) ([] : List α) where
  lt := fun _ _ h => by cases h
  mem_iff := fun _ => by simp
  once := fun _ _ _ h => by cases h

/-- The order of the list does not count. -/
theorem Numbers.congr (h : Numbers n g l) {l' : List α} (hmem : ∀ a, a ∈ l' ↔ a ∈ l) : Numbers n g l' where
  lt := h.lt
  mem_iff := fun a => (hmem a).trans (h.mem_iff a)
  once := h.once

/-- A list with less than `n` values leaves a place below `n` free; there is a first one. -/
theorem Numbers.exists_free (h : Numbers n g l) (hlen : l.length < n) :
    ∃ i < n, g i = none ∧ ∀ j < i, (g j).isSome = true := by
  have hfree : ∃ i, i < n ∧ g i = none := by
    by_contra hno
    have hall : ∀ i < n, ∃ a, g i = some a := by
      intro i hi
      rw [← Option.isSome_iff_exists, Option.isSome_iff_ne_none]
      exact fun hnone => hno ⟨i, hi, hnone⟩
    -- the places below `n` would hold `n` different values
    have hnodup : ((List.range n).map g).Nodup := by
      apply List.nodup_range.map_on
      intro i hi j _ hij
      rcases hall i (List.mem_range.1 hi) with ⟨a, ha⟩
      exact h.once i j a ha (hij ▸ ha)
    have hsub : (List.range n).map g ⊆ l.map some := by
      intro o ho
      rcases List.mem_map.1 ho with ⟨i, hi, rfl⟩
      rcases hall i (List.mem_range.1 hi) with ⟨a, ha⟩
      rw [ha]
      exact List.mem_map_of_mem ((h.mem_iff a).2 ⟨i, ha⟩)
    have hle := (hnodup.subperm hsub).length_le
    rw [List.length_map, List.length_map, List.length_range] at hle
    exact Nat.not_lt_of_le hle hlen
  classical
  refine ⟨Nat.find hfree, (Nat.find_spec hfree).1, (Nat.find_spec hfree).2, fun j hj => ?_⟩
  have hmin := Nat.find_min hfree hj
  rw [Option.isSome_iff_ne_none]
  exact fun hnone => hmin ⟨Nat.lt_trans hj (Nat.find_spec hfree).1, hnone⟩

theorem Numbers.insert (h : Numbers n g l) (hi : i < n) (hfree : g i = none) (hnew : a ∉ l) :
    Numbers n (Function.update g i (some a)) (a :: l) where
  lt := by
    intro j b hj
    by_cases hji : j = i
    · rw [hji]
      exact hi
    · rw [Function.update_of_ne hji] at hj
      exact h.lt j b hj
  mem_iff := by
    intro b
    rw [List.mem_cons, h.mem_iff]
    constructor
    · rintro (rfl | ⟨j, hj⟩)
      · exact ⟨i, Function.update_self _ _ _⟩
      · refine ⟨j, ?_⟩
        rw [Function.update_of_ne, hj]
        rintro rfl
        rw [hfree] at hj
        cases hj
    · rintro ⟨j, hj⟩
      by_cases hji : j = i
      · rw [hji, Function.update_self] at hj
        exact Or.inl (Option.some.inj hj).symm
      · rw [Function.update_of_ne hji] at hj
        exact Or.inr ⟨j, hj⟩
  once := by
    intro j k b hj hk
    have hold : ∀ m, m ≠ i → Function.update g i (some a) m = some b → b ∈ l := by
      intro m hm hmb
      rw [Function.update_of_ne hm] at hmb
      exact (h.mem_iff b).2 ⟨m, hmb⟩
    by_cases hji : j = i
    · by_cases hki : k = i
      · rw [hji, hki]
      · rw [hji, Function.update_self] at hj
        cases hj
        exact absurd (hold k hki hk) hnew
    · by_cases hki : k = i
      · rw [hki, Function.update_self] at hk
        cases hk
        exact absurd (hold j hji hj) hnew
      · rw [Function.update_of_ne hji] at hj
        rw [Function.update_of_ne hki] at hk
        exact h.once j k b hj hk

theorem Numbers.erase [BEq α] [LawfulBEq α] (h : Numbers n g l) (hl : l.Nodup) (hi : g i = some a) :
    Numbers n (Function.update g i none) (l.erase a) where
  lt := by
    intro j b hj
    by_cases hji : j = i
    · rw [hji, Function.update_self] at hj
      cases hj
    · rw [Function.update_of_ne hji] at hj
      exact h.lt j b hj
  mem_iff := by
    intro b
    rw [hl.mem_erase_iff, h.mem_iff]
    constructor
    · rintro ⟨hba, j, hj⟩
      refine ⟨j, ?_⟩
      rw [Function.update_of_ne, hj]
      rintro rfl
      rw [hi] at hj
      exact hba (Option.some.inj hj).symm
    · rintro ⟨j, hj⟩
      by_cases hji : j = i
      · rw [hji, Function.update_self] at hj
        cases hj
      · rw [Function.update_of_ne hji] at hj
        refine ⟨?_, j, hj⟩
        rintro rfl
        exact hji (h.once j i b hj hi)
  once := by
    intro j k b hj hk
    by_cases hji : j = i
    · rw [hji, Function.update_self] at hj
      cases hj
    · by_cases hki : k = i
      · rw [hki, Function.update_self] at hk
        cases hk
      · rw [Function.update_of_ne hji] at hj
        rw [Function.update_of_ne hki] at hk
        exact h.once j k b hj hk

end CLib
