import Mathlib.Logic.Function.Basic
import Mathlib.Tactic.Common

/-!
# Forests of depth one

A family tree `f` gives every live node its parent, if it has one, and a label.  It is a forest when
every parent is live, has no parent itself and carries the label of its children.  Nodes are added
and removed, a child changes places with its parent, and a parent is removed with its children.
-/

namespace CLib

open Function

variable {ι L : Type} {f : ι → Option (Option ι × L)} {i p c : ι} {l : L}

def Forest (f : ι → Option (Option ι × L)) : Prop :=
  ∀ i p l, f i = some (some p, l) → f p = some (none, l)

namespace Forest

/-- A child is nobody's parent. -/
theorem not_parent (hf : Forest f) (hc : f c = some (some p, l)) {m : L} :
    f i ≠ some (some c, m) := by
  intro hi
  have hroot := hf i c m hi
  rw [hc] at hroot
  cases hroot

section Update

variable [DecidableEq ι]

theorem addRoot (hf : Forest f) (hi : f i = none) (l : L) :
    Forest (update f i (some (none, l))) := by
  intro x q m hx
  by_cases hxi : x = i
  · rw [hxi, update_self] at hx
    cases hx
  · rw [update_of_ne hxi] at hx
    have hq := hf x q m hx
    have hqi : q ≠ i := by
      rintro rfl
      rw [hi] at hq
      cases hq
    rw [update_of_ne hqi, hq]

theorem addChild (hf : Forest f) (hi : f i = none) (hp : f p = some (none, l)) :
    Forest (update f i (some (some p, l))) := by
  have hother : ∀ {q m}, f q = some (none, m) →
      update f i (some (some p, l)) q = some (none, m) := by
    intro q m hq
    have hqi : q ≠ i := by
      rintro rfl
      rw [hi] at hq
      cases hq
    rw [update_of_ne hqi, hq]
  intro x q m hx
  by_cases hxi : x = i
  · rw [hxi, update_self] at hx
    cases hx
    exact hother hp
  · rw [update_of_ne hxi] at hx
    exact hother (hf x q m hx)

theorem removeChild (hf : Forest f) (hc : f c = some (some p, l)) : Forest (update f c none) := by
  intro x q m hx
  by_cases hxc : x = c
  · rw [hxc, update_self] at hx
    cases hx
  · rw [update_of_ne hxc] at hx
    have hq := hf x q m hx
    have hqc : q ≠ c := by
      rintro rfl
      exact hf.not_parent hc hx
    rw [update_of_ne hqc, hq]

end Update

end Forest

/-! ## Changing places -/

section Promote

variable [DecidableEq ι]

/-- The child `c` becomes the parent of `p` and of its former siblings. -/
def promote (f : ι → Option (Option ι × L)) (p c : ι) : ι → Option (Option ι × L) := fun i =>
  (f i).map fun x =>
    (if i = c then none else if i = p ∨ x.1 = some p then some c else x.1, x.2)

theorem promote_child (hc : f c = some (some p, l)) : promote f p c c = some (none, l) := by
  simp [promote, hc]

/-- Another root stays as it is. -/
theorem promote_root (hi : f i = some (none, l)) (hip : i ≠ p) (hc : f c ≠ some (none, l)) :
    promote f p c i = some (none, l) := by
  have hic : i ≠ c := by
    rintro rfl
    exact hc hi
  simp [promote, hi, hip, hic]

theorem Forest.promote (hf : Forest f) (hp : f p = some (none, l)) (hc : f c = some (some p, l)) :
    Forest (promote f p c) := by
  intro x q m hx
  rcases Option.map_eq_some_iff.1 hx with ⟨⟨r, m'⟩, hfx, hr⟩
  simp only [Prod.mk.injEq] at hr
  rcases hr with ⟨hparent, rfl⟩
  have hroot := promote_child hc
  by_cases hxc : x = c
  · rw [if_pos hxc] at hparent
    cases hparent
  · rw [if_neg hxc] at hparent
    by_cases hxp : x = p ∨ r = some p
    · rw [if_pos hxp] at hparent
      cases hparent
      -- The label is that of the old parent.
      have hlabel : m' = l := by
        rcases hxp with rfl | rfl
        · rw [hp] at hfx
          cases hfx
          rfl
        · have hfp := hf x p m' hfx
          rw [hp] at hfp
          cases hfp
          rfl
      rw [hlabel, hroot]
    · rw [if_neg hxp] at hparent
      rw [not_or] at hxp
      subst hparent
      have hq := hf x q m' hfx
      have hqc : q ≠ c := by
        rintro rfl
        exact hf.not_parent hc hfx
      have hqp : q ≠ p := by
        rintro rfl
        exact hxp.2 rfl
      simp [CLib.promote, hq, hqc, hqp]

end Promote

/-! ## Removing a tree -/

section Prune

variable [DecidableEq ι]

/-- The root `p` and its children go, but for the child `k`. -/
def prune (f : ι → Option (Option ι × L)) (p k : ι) : ι → Option (Option ι × L) := fun i =>
  if i = p ∨ (i ≠ k ∧ (f i).bind Prod.fst = some p) then none else f i

/-- Another root stays as it is. -/
theorem prune_root {k : ι} (hi : f i = some (none, l)) (hip : i ≠ p) :
    prune f p k i = some (none, l) := by
  simp [prune, hi, hip]

theorem prune_self (p k : ι) : prune f p k p = none := by
  simp [prune]

/-- A forest is left if and only if `k` was no child of `p`. -/
theorem forest_prune_iff (hf : Forest f) (hp : f p = some (none, l)) (k : ι) :
    Forest (prune f p k) ↔ (f k).bind Prod.fst ≠ some p := by
  have hgone : prune f p k p = none := prune_self p k
  constructor
  · intro hforest hk
    rcases Option.bind_eq_some_iff.1 hk with ⟨⟨r, m⟩, hfk, hr⟩
    have hkp : k ≠ p := by
      rintro rfl
      rw [hp] at hk
      cases hk
    have hkept : prune f p k k = some (some p, m) := by
      simp only at hr
      simp [prune, hkp, hfk, hr]
    have hroot := hforest k p m hkept
    rw [hgone] at hroot
    cases hroot
  · intro hk x q m hx
    rw [prune] at hx
    split at hx
    · cases hx
    · rename_i hxp
      rw [not_or, not_and] at hxp
      have hqp : q ≠ p := by
        rintro rfl
        by_cases hxk : x = k
        · apply hk
          rw [← hxk, hx]
          rfl
        · apply hxp.2 hxk
          rw [hx]
          rfl
      have hq := hf x q m hx
      simp [prune, hq, hqp]

end Prune

end CLib
