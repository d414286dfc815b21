import Mathlib.Data.List.Nodup
import Mathlib.Logic.Function.Basic

/-!
# Sets written as subsequences

A table ranks pairs of a letter and a symbol.  A set of letters is written as the symbols of its
letters, in the order of the table.  Adding a letter goes through the whole table; removing one cuts
a symbol out.
-/

namespace CLib

open Function

variable {α β : Type} {rank : List (α × β)} {a : α} {b : β}

/-- The symbols of the letters in a set. -/
def ranked (rank : List (α × β)) (S : α → Bool) : List β := (rank.filter fun p => S p.1).map Prod.snd

/-- The symbols that are in `t`, and that of `a`. -/
def rankInsert [DecidableEq α] [DecidableEq β] (rank : List (α × β)) (a : α) (t : List β) : List β :=
  (rank.filter fun p => decide (p.2 ∈ t ∨ a = p.1)).map Prod.snd

/-- No letter and no symbol stands twice. -/
structure Ranking (rank : List (α × β)) : Prop where
  letters : (rank.map Prod.fst).Nodup
  symbols : (rank.map Prod.snd).Nodup

theorem ranked_sublist (rank : List (α × β)) (S : α → Bool) :
    (ranked rank S).Sublist (rank.map Prod.snd) := List.filter_sublist.map _

namespace Ranking

/-- A symbol belongs to one letter. -/
theorem letter_unique (h : Ranking rank) {a' : α} (hp : (a, b) ∈ rank) (hp' : (a', b) ∈ rank) :
    a = a' := by
  have hsame := List.inj_on_of_nodup_map h.symbols hp hp' rfl
  exact congrArg Prod.fst hsame

theorem symbol_unique (h : Ranking rank) {b' : β} (hp : (a, b) ∈ rank) (hp' : (a, b') ∈ rank) :
    b = b' := by
  have hsame := List.inj_on_of_nodup_map h.letters hp hp' rfl
  exact congrArg Prod.snd hsame

theorem nodup (h : Ranking rank) (S : α → Bool) : (ranked rank S).Nodup :=
  h.symbols.sublist (ranked_sublist rank S)

/-- The set can be read back. -/
theorem mem_ranked (h : Ranking rank) {S : α → Bool} (hp : (a, b) ∈ rank) :
    b ∈ ranked rank S ↔ S a = true := by
  rw [ranked, List.mem_map]
  constructor
  · rintro ⟨⟨a', b'⟩, hmem, rfl⟩
    rcases List.mem_filter.1 hmem with ⟨hp', hS⟩
    rwa [h.letter_unique hp hp']
  · intro hS
    exact ⟨(a, b), List.mem_filter.2 ⟨hp, hS⟩, rfl⟩

variable [DecidableEq α] [DecidableEq β]

theorem insert_ranked (h : Ranking rank) (S : α → Bool) :
    rankInsert rank a (ranked rank S) = ranked rank (update S a true) := by
  have hiff : ∀ p ∈ rank, decide (p.2 ∈ ranked rank S ∨ a = p.1) = update S a true p.1 := by
    rintro ⟨a', b'⟩ hp
    by_cases ha : a' = a
    · simp [ha]
    · rw [update_of_ne ha, Bool.eq_iff_iff, decide_eq_true_iff, h.mem_ranked hp]
      exact or_iff_left (Ne.symm ha)
  rw [rankInsert, List.filter_congr hiff, ranked]

theorem erase_ranked (h : Ranking rank) (S : α → Bool) (hp : (a, b) ∈ rank) :
    (ranked rank S).erase b = ranked rank (update S a false) := by
  rw [(h.nodup S).erase_eq_filter, ranked, ranked, List.filter_map, List.filter_filter]
  congr 1
  apply List.filter_congr
  rintro ⟨a', b'⟩ hp'
  by_cases hb : b' = b
  · subst hb
    simp [h.letter_unique hp' hp]
  · have ha : a' ≠ a := by
      rintro rfl
      exact hb (h.symbol_unique hp' hp)
    simp [ha, hb]

end Ranking

end CLib
