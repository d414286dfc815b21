import Mathlib.Data.List.Nodup

/-!
# Lists with room for a few distinct entries

An entry is taken into the list when it is acceptable, not there yet and the list has room; it is put at the end.
An entry that is struck out leaves the others in their order.
-/

namespace CLib

variable {α : Type} [BEq α] [LawfulBEq α]

/-- What the list looks like after any run. -/
structure Roster (ok : α → Bool) (n : Nat) (l : List α) : Prop where
  accepted : ∀ a ∈ l, ok a = true
  nodup : l.Nodup
  room : l.length ≤ n

def enrol (ok : α → Bool) (n : Nat) (l : List α) (a : α) : List α :=
  if a ∈ l then l else if ok a = true ∧ l.length < n then l ++ [a] else l

/-- Only the first `n` places are looked at. -/
def strike (ok : α → Bool) (n : Nat) (l : List α) (a : α) : List α :=
  if ok a = true ∧ a ∈ l.take n then l.erase a else l

variable {ok : α → Bool} {n : Nat} {l : List α} {a : α}

omit [BEq α] [LawfulBEq α] in
theorem Roster.nil : Roster ok n [] where
  accepted := fun _ ha => absurd ha List.not_mem_nil
  nodup := List.nodup_nil
  room := Nat.zero_le n

theorem enrol_new (hok : ok a = true) (hnew : a ∉ l) (hroom : l.length < n) : enrol ok n l a = l ++ [a] := by
  rw [enrol, if_neg hnew, if_pos ⟨hok, hroom⟩]

theorem Roster.enrol (h : Roster ok n l) (a : α) : Roster ok n (CLib.enrol ok n l a) := by
  rw [CLib.enrol]
  by_cases hmem : a ∈ l
  · rw [if_pos hmem]
    exact h
  · rw [if_neg hmem]
    by_cases hcond : ok a = true ∧ l.length < n
    · rw [if_pos hcond]
      constructor
      · intro b hb
        rcases List.mem_append.1 hb with hb | hb
        · exact h.accepted b hb
        · rw [List.mem_singleton.1 hb]
          exact hcond.1
      · apply List.nodup_append.2
        refine ⟨h.nodup, List.nodup_singleton a, ?_⟩
        rintro b hb c hc rfl
        exact hmem (List.mem_singleton.1 hc ▸ hb)
      · rw [List.length_append, List.length_singleton]
        exact hcond.2
    · rw [if_neg hcond]
      exact h

/-- Struck out is exactly the entry itself. -/
theorem Roster.strike_eq (h : Roster ok n l) (a : α) : CLib.strike ok n l a = l.filter (· != a) := by
  have htake : l.take n = l := List.take_of_length_le h.room
  have herase : l.erase a = l.filter (· != a) := h.nodup.erase_eq_filter a
  rw [CLib.strike, htake]
  by_cases hcond : ok a = true ∧ a ∈ l
  · rw [if_pos hcond]
    exact herase
  · rw [if_neg hcond, ← herase]
    -- an entry that is not acceptable is not there
    have hnot : a ∉ l := fun hmem => hcond ⟨h.accepted a hmem, hmem⟩
    exact (List.erase_of_not_mem hnot).symm

theorem Roster.strike (h : Roster ok n l) (a : α) : Roster ok n (CLib.strike ok n l a) := by
  rw [h.strike_eq]
  constructor
  · intro b hb
    exact h.accepted b (List.mem_filter.1 hb).1
  · exact h.nodup.filter _
  · exact Nat.le_trans (List.length_filter_le _ l) h.room

theorem Roster.strike_enrol (h : Roster ok n l) (hok : ok a = true) (hnew : a ∉ l) (hroom : l.length < n) :
    CLib.strike ok n (CLib.enrol ok n l a) a = l := by
  have hkept : l.filter (· != a) = l := by
    apply List.filter_eq_self.2
    intro b hb
    apply bne_iff_ne.2
    rintro rfl
    exact hnew hb
  calc CLib.strike ok n (CLib.enrol ok n l a) a
      = (l ++ [a]).filter (· != a) := by
        rw [(h.enrol a).strike_eq, enrol_new hok hnew hroom]
    _ = l := by
        rw [List.filter_append, hkept]
        simp

end CLib
