import Mathlib.Logic.Function.Basic

/-!
# Rounds of a key layer, a mixing step and a swap

A cipher that is no Feistel network: each round applies a key layer, mixes the parts of the block in
a way that undoes itself, and swaps two of them.  The last layer comes after one more swap.  The
same rounds with other keys undo it: the layers are inverted, those between two rounds with their
parts swapped, and the order is reversed.
-/

namespace CLib

variable {α κ μ : Type}

/-- The steps of a cipher. -/
structure Rounds (α κ μ : Type) where
  layer : κ → α → α
  mix : μ → α → α
  swap : α → α

namespace Rounds

variable (R : Rounds α κ μ)

/-- The rounds with the keys `rs`, and the last layer. -/
def run : List (κ × μ) → κ → α → α
  | [], k, x => R.layer k (R.swap x)
  | r :: rs, k, x => run rs k (R.swap (R.mix r.2 (R.layer r.1 x)))

/-- `outer k` undoes the layer `k`, and `inner k` does so between two swaps. -/
structure Undoes (outer inner : κ → κ → Prop) : Prop where
  swap : ∀ x, R.swap (R.swap x) = x
  mix : ∀ m x, R.mix m (R.mix m x) = x
  outer : ∀ k k' x, outer k k' → R.layer k' (R.layer k x) = x
  inner : ∀ k k' x, inner k k' → R.layer k' (R.swap (R.layer k x)) = R.swap x

/-- The keys that undo the rounds, from the second round on; `back` undoes the rounds before. -/
inductive Reversed (outer inner : κ → κ → Prop) :
    List (κ × μ) → κ → List (κ × μ) → List (κ × μ) → Prop where
  | last {r : κ × μ} {k k' : κ} {back : List (κ × μ)} (h : outer k k') :
      Reversed outer inner [r] k back ((k', r.2) :: back)
  | next {r s : κ × μ} {rs back undo : List (κ × μ)} {k k' : κ} (h : inner s.1 k')
      (hrest : Reversed outer inner (s :: rs) k ((k', r.2) :: back) undo) :
      Reversed outer inner (r :: s :: rs) k back undo

variable {R} {outer inner : κ → κ → Prop} {rs back undo : List (κ × μ)} {k last : κ} {x : α}

theorem run_reversed (hR : R.Undoes outer inner) (h : Reversed outer inner rs k back undo) :
    ∀ {y : α}, (∀ r ∈ rs.head?, R.run back last (R.swap (R.layer r.1 y)) = x) →
      R.run undo last (R.run rs k y) = x := by
  induction h with
  | @last r k k' back hk =>
      intro y hback
      have hy := hback r rfl
      calc R.run ((k', r.2) :: back) last (R.run [r] k y)
          = R.run back last (R.swap (R.mix r.2 (R.layer k'
              (R.layer k (R.swap (R.swap (R.mix r.2 (R.layer r.1 y)))))))) := rfl
        _ = R.run back last (R.swap (R.layer r.1 y)) := by
            rw [hR.outer _ _ _ hk, hR.swap, hR.mix]
        _ = x := hy
  | @next r s rs back undo k k' hk hrest ih =>
      intro y hback
      have hy := hback r rfl
      apply ih
      rintro s' ⟨⟩
      calc R.run ((k', r.2) :: back) last
            (R.swap (R.layer s.1 (R.swap (R.mix r.2 (R.layer r.1 y)))))
          = R.run back last (R.swap (R.mix r.2 (R.layer k'
              (R.swap (R.layer s.1 (R.swap (R.mix r.2 (R.layer r.1 y)))))))) := rfl
        _ = R.run back last (R.swap (R.layer r.1 y)) := by
            rw [hR.inner _ _ _ hk, hR.swap, hR.mix]
        _ = x := hy

/-- The reversed keys undo all rounds. -/
theorem run_undo (hR : R.Undoes outer inner) {r : κ × μ} (hlast : outer r.1 last)
    (h : Reversed outer inner (r :: rs) k [] undo) (x : α) :
    R.run undo last (R.run (r :: rs) k x) = x := by
  apply run_reversed hR h
  rintro r' ⟨⟩
  calc R.run [] last (R.swap (R.layer r.1 x))
      = R.layer last (R.swap (R.swap (R.layer r.1 x))) := rfl
    _ = x := by rw [hR.swap, hR.outer _ _ _ hlast]

end Rounds

end CLib
