import Mathlib.Data.List.Induction
import Mathlib.Data.List.Nodup

/-!
# What the latest event said

A list that is kept while events come in, where an event may switch a key on or off.  `latest` is what
the last event that is about a key said of it, and `Tracks` that a list has the keys that are on, each once.
-/

namespace CLib

variable {ι κ : Type}

/-- What the last event about `k` said; at first nothing is on. -/
def latest (tells : ι → κ → Option Bool) (is : List ι) (k : κ) : Bool :=
  is.foldl (fun on i => (tells i k).getD on) false

@[simp] theorem latest_nil (tells : ι → κ → Option Bool) (k : κ) : latest tells [] k = false := rfl

theorem latest_concat (tells : ι → κ → Option Bool) (is : List ι) (i : ι) (k : κ) :
    latest tells (is ++ [i]) k = (tells i k).getD (latest tells is k) := by
  rw [latest, List.foldl_append]
  rfl

/-- The list has the keys that are on, each once. -/
structure Tracks (tells : ι → κ → Option Bool) (is : List ι) (l : List κ) : Prop where
  nodup : l.Nodup
  mem_iff : ∀ k, k ∈ l ↔ latest tells is k = true

/-- One event: it puts in what it says is on, takes out what it says is off, and keeps the rest. -/
structure Follows (tells : κ → Option Bool) (l l' : List κ) : Prop where
  nodup : l.Nodup → l'.Nodup
  mem_iff : l.Nodup → ∀ k, k ∈ l' ↔ tells k = some true ∨ tells k = none ∧ k ∈ l

theorem Tracks.nil (tells : ι → κ → Option Bool) : Tracks tells [] [] :=
  ⟨List.nodup_nil, fun k => by simp⟩

theorem Tracks.concat {tells : ι → κ → Option Bool} {is : List ι} {l l' : List κ} {i : ι}
    (h : Tracks tells is l) (hi : Follows (tells i) l l') : Tracks tells (is ++ [i]) l' := by
  refine ⟨hi.nodup h.nodup, fun k => ?_⟩
  rw [hi.mem_iff h.nodup, latest_concat]
  cases hk : tells i k with
  | none =>
      simp [h.mem_iff k]
  | some on =>
      simp

/-- A run of events that are all followed. -/
theorem Tracks.foldl {tells : ι → κ → Option Bool} {f : List κ → ι → List κ} {is : List ι}
    (hf : ∀ i ∈ is, ∀ l, Follows (tells i) l (f l i)) : Tracks tells is (is.foldl f []) := by
  induction is using List.reverseRecOn with
  | nil =>
      exact Tracks.nil tells
  | append_singleton is i ih =>
      rw [List.foldl_append]
      have his := ih fun j hj => hf j (List.mem_append_left _ hj)
      exact his.concat (hf i (List.mem_append_right _ List.mem_cons_self) _)

section Rules

variable {tells : κ → Option Bool} {l : List κ} {k : κ}

/-- A key is taken out. -/
theorem Follows.erase [DecidableEq κ] (htells : ∀ j, tells j = if j = k then some false else none) :
    Follows tells l (l.erase k) := by
  refine ⟨fun h => h.erase k, fun h j => ?_⟩
  rw [h.mem_erase_iff, htells]
  by_cases hj : j = k
  · simp [hj]
  · simp [hj]

/-- A key is put at the end, wherever it was. -/
theorem Follows.requeue [DecidableEq κ] (htells : ∀ j, tells j = if j = k then some true else none) :
    Follows tells l (l.erase k ++ [k]) := by
  refine ⟨fun h => ?_, fun h j => ?_⟩
  · rw [List.nodup_append]
    refine ⟨h.erase k, List.nodup_singleton k, fun a ha b hb hab => ?_⟩
    rw [List.mem_singleton] at hb
    rw [hab, hb] at ha
    exact h.not_mem_erase ha
  · rw [List.mem_append, List.mem_singleton, h.mem_erase_iff, htells]
    by_cases hj : j = k
    · simp [hj]
    · simp [hj]

/-- The keys of a kind are taken out. -/
theorem Follows.filter {p : κ → Bool} (htells : ∀ j, tells j = if p j = true then some false else none) :
    Follows tells l (l.filter fun j => !p j) := by
  refine ⟨fun h => h.filter _, fun _ j => ?_⟩
  rw [List.mem_filter, htells]
  cases p j with
  | true =>
      simp
  | false =>
      simp

end Rules

end CLib
