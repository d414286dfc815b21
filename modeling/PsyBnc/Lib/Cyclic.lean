import Mathlib.Data.Nat.Find
import Mathlib.Order.Basic
import Mathlib.Tactic.Common

/-!
# Searching round a counter

A counter is advanced until it stands on a number with the property `p`.  Past `last` it is put back to
`0`, and the search is given up when the counter, after this, stands where it started.  The number past
`last` is looked at too, so a search that starts behind `last` may never come back to its start.
-/

namespace CLib

variable (p : Nat → Bool) (last start : Nat)

/-- The counter after the number `n` was looked at in vain. -/
def wrapped (n : Nat) : Nat := if last < n then 0 else n

/-- The search within so many rounds: where the counter stopped, or `none` for giving up. -/
def cyclicSearch : Nat → Nat → Option (Option Nat)
  | 0, _ => none
  | k + 1, n =>
      if p (n + 1) then some (some (n + 1))
      else if wrapped last (n + 1) = start then some none
      else cyclicSearch k (wrapped last (n + 1))

/-- The search from the counter `n` ends with `r`. -/
def Searches (n : Nat) (r : Option Nat) : Prop := ∃ k, cyclicSearch p last start k n = some r

variable {p last start} {n m : Nat} {r : Option Nat}

/-! ## Single rounds -/

theorem Searches.found (hp : p (n + 1) = true) : Searches p last start n (some (n + 1)) := by
  refine ⟨1, ?_⟩
  simp [cyclicSearch, hp]

theorem Searches.given_up (hp : p (n + 1) = false) (hw : wrapped last (n + 1) = start) :
    Searches p last start n none := by
  refine ⟨1, ?_⟩
  simp [cyclicSearch, hp, hw]

theorem Searches.round (hp : p (n + 1) = false) (hw : wrapped last (n + 1) ≠ start)
    (h : Searches p last start (wrapped last (n + 1)) r) : Searches p last start n r := by
  rcases h with ⟨k, hk⟩
  refine ⟨k + 1, ?_⟩
  simpa [cyclicSearch, hp, hw] using hk

/-! ## Climbing -/

/-- The counter climbs to `m` without meeting its start. -/
theorem Searches.climb (hm : m ≤ last) (hnone : ∀ i, n < i → i ≤ m → p i = false)
    (hstart : ∀ i, n < i → i ≤ m → i ≠ start) (hle : n ≤ m) (h : Searches p last start m r) :
    Searches p last start n r := by
  induction hle with
  | refl =>
      exact h
  | @step m hle ih =>
      have hnm : n < m + 1 := Nat.lt_succ_of_le hle
      apply ih (Nat.le_of_succ_le hm)
      · exact fun i hi him => hnone i hi (Nat.le_succ_of_le him)
      · exact fun i hi him => hstart i hi (Nat.le_succ_of_le him)
      · have hw : wrapped last (m + 1) = m + 1 := by
          simp [wrapped, Nat.not_lt.2 hm]
        apply Searches.round (hnone _ hnm (Nat.le_refl _))
        · rw [hw]
          exact hstart _ hnm (Nat.le_refl _)
        · rw [hw]
          exact h

/-- The next number with the property is found, one past `last` at most. -/
theorem Searches.next (hm : m ≤ last) (hle : n ≤ m) (hnone : ∀ i, n < i → i ≤ m → p i = false)
    (hstart : ∀ i, n < i → i ≤ m → i ≠ start) (hp : p (m + 1) = true) :
    Searches p last start n (some (m + 1)) :=
  Searches.climb hm hnone hstart hle (Searches.found hp)

/-- Nothing is found up to the end: the counter goes on from `0`. -/
theorem Searches.wrap (hn : n ≤ last) (hnone : ∀ i, n < i → i ≤ last + 1 → p i = false)
    (hstart : ∀ i, n < i → i ≤ last → i ≠ start) (hzero : start ≠ 0) (h : Searches p last start 0 r) :
    Searches p last start n r := by
  have hw : wrapped last (last + 1) = 0 := by
    simp [wrapped]
  apply Searches.climb (Nat.le_refl last)
    (fun i hi hil => hnone i hi (Nat.le_succ_of_le hil)) hstart hn
  apply Searches.round (hnone _ (Nat.lt_succ_of_le hn) (Nat.le_refl _))
  · rw [hw]
    exact hzero.symm
  · rw [hw]
    exact h

theorem Searches.inv_round (h : Searches p last start n r) (hp : p (n + 1) = false)
    (hw : wrapped last (n + 1) ≠ start) : Searches p last start (wrapped last (n + 1)) r := by
  rcases h with ⟨k, hk⟩
  cases k with
  | zero =>
      cases hk
  | succ k =>
      refine ⟨k, ?_⟩
      simpa [cyclicSearch, hp, hw] using hk

theorem wrapped_le (n : Nat) : wrapped last (n + 1) ≤ last := by
  simp only [wrapped]
  split
  · exact Nat.zero_le _
  · exact Nat.le_of_not_lt ‹_›

/-- What is found has the property, and is one past `last` at most, or the very next number. -/
theorem Searches.sound {i : Nat} (h : Searches p last start n (some i)) :
    p i = true ∧ i ≤ max last n + 1 := by
  rcases h with ⟨k, hk⟩
  induction k generalizing n with
  | zero =>
      cases hk
  | succ k ih =>
      simp only [cyclicSearch] at hk
      split at hk
      · cases hk
        exact ⟨‹_›, Nat.succ_le_succ (Nat.le_max_right _ _)⟩
      · split at hk
        · cases hk
        · rcases ih hk with ⟨hpi, hle⟩
          refine ⟨hpi, hle.trans (Nat.succ_le_succ ?_)⟩
          rw [Nat.max_eq_left (wrapped_le n)]
          exact Nat.le_max_left _ _

/-! ## Whole searches -/

/-- The number to be found: the next one behind `start`, or else the first one. -/
def CyclicNext (P : Nat → Prop) (start n : Nat) : Prop :=
  P n ∧ ((start < n ∧ ∀ i, start < i → P i → n ≤ i) ∨ ((∀ i, start < i → ¬ P i) ∧ ∀ i, P i → n ≤ i))

/-- The search ends with the number to be found, and is given up only when there is none. -/
def SearchesNext (p : Nat → Bool) (last start : Nat) (P : Nat → Prop) : Prop :=
  (∃ n, Searches p last start start (some n) ∧ CyclicNext P start n) ∨
    (Searches p last start start none ∧ ∀ i, ¬ P i)

/-- A number behind the start can be reached if there is any; else the counter comes back to its start, or
finds something before. -/
def InReach (P : Nat → Prop) (last start : Nat) : Prop :=
  ((∃ n, start < n ∧ P n) → ∃ n, start < n ∧ n ≤ max last start + 1 ∧ P n) ∧
    ((∀ n, start < n → ¬ P n) → start ≤ last ∨ ∃ n, n ≤ last + 1 ∧ P n)

/-- A search that starts behind `last` and finds nothing up to there goes on for ever. -/
theorem not_searches_of_beyond (hstart : last < start) (hnone : ∀ i, 0 < i → i ≤ last + 1 → p i = false) :
    ∀ n, n ≤ last → ¬ Searches p last start n r := by
  have hrun : ∀ k n, n ≤ last → cyclicSearch p last start k n = none := by
    intro k
    induction k with
    | zero =>
        intro n _
        rfl
    | succ k ih =>
        intro n hn
        have hp : p (n + 1) = false := hnone _ (Nat.succ_pos n) (Nat.succ_le_succ hn)
        -- The counter stays within `0 … last`, and so never is at the start.
        have hw : wrapped last (n + 1) ≤ last := wrapped_le n
        have hne : wrapped last (n + 1) ≠ start := fun heq => by omega
        simpa [cyclicSearch, hp, hne] using ih _ hw
  rintro n hn ⟨k, hk⟩
  rw [hrun k n hn] at hk
  cases hk

/-- The least number of a kind. -/
theorem exists_least {Q : Nat → Prop} (h : ∃ n, Q n) : ∃ n, Q n ∧ ∀ i, Q i → n ≤ i := by
  classical
  exact ⟨Nat.find h, Nat.find_spec h, fun i hi => Nat.find_min' h hi⟩

section Next

variable {P : Nat → Prop} (hP : ∀ i, P i ↔ 0 < i ∧ p i = true)

include hP

theorem eq_false_of_not {i : Nat} (hi : 0 < i) (h : ¬ P i) : p i = false := by
  rw [← Bool.not_eq_true]
  exact fun hp => h ((hP i).2 ⟨hi, hp⟩)

/-- From a counter before it, the first number with the property behind the counter is found, as long as
the start is not met on the way. -/
theorem searches_least {n : Nat} (hn : P n) (hm : m < n) (hle : n ≤ last + 1)
    (hstart : ∀ i, m < i → i < n → i ≠ start) (hleast : ∀ i, m < i → P i → n ≤ i) :
    Searches p last start m (some n) := by
  rcases (hP n).1 hn with ⟨hpos, hp⟩
  obtain ⟨j, rfl⟩ : ∃ j, n = j + 1 := ⟨n - 1, by omega⟩
  apply Searches.next (Nat.le_of_succ_le_succ hle) (Nat.le_of_lt_succ hm)
  · intro i hi hij
    apply eq_false_of_not hP (Nat.zero_lt_of_lt hi)
    intro hPi
    exact absurd (hleast i hi hPi) (Nat.not_le_of_lt (Nat.lt_succ_of_le hij))
  · exact fun i hi hij => hstart i hi (Nat.lt_succ_of_le hij)
  · exact hp

/-- Something behind the start is within reach. -/
theorem searchesNext_behind (h : ∃ n, start < n ∧ n ≤ max last start + 1 ∧ P n) :
    SearchesNext p last start P := by
  rcases exists_least h with ⟨n, ⟨hlt, hle, hn⟩, hleast⟩
  have hmin : ∀ i, start < i → P i → n ≤ i := by
    intro i hi hPi
    by_contra hlt'
    have hin : i ≤ max last start + 1 := (Nat.le_of_lt (Nat.lt_of_not_le hlt')).trans hle
    exact hlt' (hleast i ⟨hi, hin, hPi⟩)
  refine Or.inl ⟨n, ?_, hn, Or.inl ⟨hlt, hmin⟩⟩
  rcases Nat.lt_or_ge last start with hbeyond | hwithin
  · -- Only the very next number is looked at.
    have hnext : n = start + 1 := by
      rw [Nat.max_eq_right (Nat.le_of_lt hbeyond)] at hle
      exact Nat.le_antisymm hle hlt
    subst hnext
    exact Searches.found ((hP _).1 hn).2
  · rw [Nat.max_eq_left hwithin] at hle
    exact searches_least hP hn hlt hle (fun i hi _ => Nat.ne_of_gt hi) hmin

/-- Nothing is behind the start, which is within the limits. -/
theorem searchesNext_within (hnone : ∀ n, start < n → ¬ P n) (hle : start ≤ last) :
    SearchesNext p last start P := by
  have hfalse : ∀ i, start < i → p i = false := fun i hi =>
    eq_false_of_not hP (Nat.zero_lt_of_lt hi) (hnone i hi)
  -- Up to the end nothing is found; then the counter goes on from `0`.
  have hwrap : ∀ r, start ≠ 0 → Searches p last start 0 r → Searches p last start start r :=
    fun r hzero h => Searches.wrap hle (fun i hi _ => hfalse i hi) (fun i hi _ => Nat.ne_of_gt hi) hzero h
  by_cases hany : ∃ n, P n
  · rcases exists_least hany with ⟨n, hn, hleast⟩
    have hns : n ≤ start := Nat.le_of_not_lt fun hlt => hnone n hlt hn
    have hpos : 0 < n := ((hP n).1 hn).1
    refine Or.inl ⟨n, ?_, hn, Or.inr ⟨hnone, hleast⟩⟩
    apply hwrap _ (Nat.ne_of_gt (Nat.lt_of_lt_of_le hpos hns))
    apply searches_least hP hn hpos (hns.trans (Nat.le_succ_of_le hle))
    · exact fun i _ hi => Nat.ne_of_lt (Nat.lt_of_lt_of_le hi hns)
    · exact fun i _ hi => hleast i hi
  · have hno : ∀ n, ¬ P n := fun n hn => hany ⟨n, hn⟩
    refine Or.inr ⟨?_, hno⟩
    have hall : ∀ i, 0 < i → p i = false := fun i hi => eq_false_of_not hP hi (hno i)
    cases start with
    | zero =>
        -- The counter runs to the end and is put back to where it started.
        apply Searches.climb (Nat.le_refl last) (fun i hi _ => hall i hi)
          (fun i hi _ => Nat.ne_of_gt hi) (Nat.zero_le _)
        apply Searches.given_up (hall _ (Nat.succ_pos _))
        simp [wrapped]
    | succ s =>
        apply hwrap _ (Nat.succ_ne_zero s)
        apply Searches.climb (Nat.le_of_succ_le hle) (fun i hi _ => hall i hi)
          (fun i _ hi => Nat.ne_of_lt (Nat.lt_succ_of_le hi)) (Nat.zero_le _)
        apply Searches.given_up (hall _ (Nat.succ_pos _))
        simp [wrapped, Nat.not_lt.2 hle]

/-- Nothing is behind the start, which is past the limits: the counter is put back at once. -/
theorem searchesNext_beyond (hnone : ∀ n, start < n → ¬ P n) (hlt : last < start)
    (hany : ∃ n, n ≤ last + 1 ∧ P n) : SearchesNext p last start P := by
  rcases exists_least hany with ⟨n, ⟨hle, hn⟩, hleast⟩
  have hmin : ∀ i, P i → n ≤ i := by
    intro i hPi
    by_contra hlt'
    exact hlt' (hleast i ⟨(Nat.le_of_lt (Nat.lt_of_not_le hlt')).trans hle, hPi⟩)
  have hpos : 0 < n := ((hP n).1 hn).1
  refine Or.inl ⟨n, ?_, hn, Or.inr ⟨hnone, hmin⟩⟩
  have hw : wrapped last (start + 1) = 0 := by
    simp [wrapped, Nat.lt_succ_of_lt hlt]
  apply Searches.round (eq_false_of_not hP (Nat.succ_pos _) (hnone _ (Nat.lt_succ_self _)))
  · rw [hw]
    exact Nat.ne_of_lt (Nat.zero_lt_of_lt hlt)
  · rw [hw]
    apply searches_least hP hn hpos hle
    · exact fun i _ hi => Nat.ne_of_lt (by omega)
    · exact fun i _ hi => hmin i hi

/-- A search ends, and with the number that is to be found, just if that number is within reach. -/
theorem searchesNext_iff : SearchesNext p last start P ↔ InReach P last start := by
  constructor
  · intro h
    constructor
    · rintro ⟨i, hi, hPi⟩
      rcases h with ⟨n, hs, hn, hnext⟩ | ⟨_, hno⟩
      · rcases hnext with ⟨hlt, _⟩ | ⟨hnone, _⟩
        · exact ⟨n, hlt, hs.sound.2, hn⟩
        · exact absurd hPi (hnone i hi)
      · exact absurd hPi (hno i)
    · intro hnone
      by_contra hout
      rw [not_or] at hout
      have hbeyond : last < start := Nat.lt_of_not_le hout.1
      have hno : ∀ i, 0 < i → i ≤ last + 1 → p i = false := fun i hi hle =>
        eq_false_of_not hP hi fun hPi => hout.2 ⟨i, hle, hPi⟩
      have hw : wrapped last (start + 1) = 0 := by
        simp [wrapped, Nat.lt_succ_of_lt hbeyond]
      have hstep : ∀ r, ¬ Searches p last start start r := by
        intro r hs
        have hs' := hs.inv_round (eq_false_of_not hP (Nat.succ_pos _) (hnone _ (Nat.lt_succ_self _)))
          (by rw [hw]; exact Nat.ne_of_lt (Nat.zero_lt_of_lt hbeyond))
        rw [hw] at hs'
        exact not_searches_of_beyond hbeyond hno 0 (Nat.zero_le _) hs'
      rcases h with ⟨n, hs, _⟩ | ⟨hs, _⟩
      · exact hstep _ hs
      · exact hstep _ hs
  · rintro ⟨hbehind, hback⟩
    by_cases hany : ∃ n, start < n ∧ P n
    · exact searchesNext_behind hP (hbehind hany)
    · have hnone : ∀ n, start < n → ¬ P n := fun n hlt hn => hany ⟨n, hlt, hn⟩
      rcases hback hnone with hle | hsome
      · exact searchesNext_within hP hnone hle
      · rcases Nat.lt_or_ge last start with hlt | hle
        · exact searchesNext_beyond hP hnone hlt hsome
        · exact searchesNext_within hP hnone hle

end Next

end CLib
