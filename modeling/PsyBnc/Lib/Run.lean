import Mathlib.Tactic.Common

/-!
# Runs of guarded steps

Proof rules for systems that take one step per input.  Two presentations are covered:

* a relation `step s i t`, with `Run step` for the runs along a list of inputs;
* a partial function `f s i : Option σ`, where `none` is a step that goes wrong.  `Safe f P s is`
  says that no step along `is` goes wrong and that `P` holds in every state on the way, and
  `StepsMeet f G s is` that every step meets the guard `G` in the state it is taken in.
-/

namespace CLib

variable {σ ι : Type}

/-! ## Relations -/

/-- `Run step s is t`: the inputs `is`, taken in order from `s`, can lead to `t`. -/
inductive Run (step : σ → ι → σ → Prop) : σ → List ι → σ → Prop where
  | nil (s : σ) : Run step s [] s
  | cons {s t u : σ} {i : ι} {is : List ι} :
      step s i t → Run step t is u → Run step s (i :: is) u

namespace Run

variable {step : σ → ι → σ → Prop}

theorem invariant {Inv : σ → Prop} (hstep : ∀ s i t, Inv s → step s i t → Inv t)
    {s t : σ} {is : List ι} (hrun : Run step s is t) : Inv s → Inv t := by
  induction hrun with
  | nil s =>
      exact id
  | cons hst _ ih =>
      exact fun hs => ih (hstep _ _ _ hs hst)

theorem append {s t u : σ} {is js : List ι} (h₁ : Run step s is t) (h₂ : Run step t js u) :
    Run step s (is ++ js) u := by
  induction h₁ with
  | nil s =>
      exact h₂
  | cons hst _ ih =>
      exact Run.cons hst (ih h₂)

end Run

/-! ## Partial functions -/

/-- The state after all inputs, when no step goes wrong. -/
def runAll (f : σ → ι → Option σ) : σ → List ι → Option σ
  | s, [] => some s
  | s, i :: is => (f s i).bind fun t => runAll f t is

/-- No step along the inputs goes wrong and every state on the way satisfies `P`. -/
def Safe (f : σ → ι → Option σ) (P : σ → Prop) : σ → List ι → Prop
  | s, [] => P s
  | s, i :: is => P s ∧ ∃ t, f s i = some t ∧ Safe f P t is

/-- Every step along the inputs meets `G` in the state it is taken in. -/
def StepsMeet (f : σ → ι → Option σ) (G : σ → ι → Prop) : σ → List ι → Prop
  | _, [] => True
  | s, i :: is => G s i ∧ ∀ t, f s i = some t → StepsMeet f G t is

instance StepsMeet.decidable (f : σ → ι → Option σ) (G : σ → ι → Prop) [∀ s i, Decidable (G s i)] :
    ∀ (s : σ) (is : List ι), Decidable (StepsMeet f G s is)
  | _, [] => isTrue trivial
  | s, i :: is =>
      match h : f s i with
      | none => decidable_of_iff (G s i) (by simp [StepsMeet, h])
      | some t =>
          have : Decidable (StepsMeet f G t is) := StepsMeet.decidable f G t is
          decidable_of_iff (G s i ∧ StepsMeet f G t is) (by simp [StepsMeet, h])

section Partial

variable {f : σ → ι → Option σ} {G : σ → ι → Prop} {P : σ → Prop}

theorem Safe.head {s : σ} {is : List ι} (h : Safe f P s is) : P s := by
  cases is with
  | nil =>
      exact h
  | cons i is =>
      exact h.1

theorem Safe.last {s t : σ} {is : List ι} (h : Safe f P s is) (hrun : runAll f s is = some t) :
    P t := by
  induction is generalizing s with
  | nil =>
      cases hrun
      exact h
  | cons i is ih =>
      rcases h with ⟨_, u, hu, hsafe⟩
      rw [runAll, hu, Option.bind_some] at hrun
      exact ih hsafe hrun

theorem Safe.mono {Q : σ → Prop} (hPQ : ∀ s, P s → Q s) {s : σ} {is : List ι}
    (h : Safe f P s is) : Safe f Q s is := by
  induction is generalizing s with
  | nil =>
      exact hPQ s h
  | cons i is ih =>
      rcases h with ⟨hP, t, ht, hsafe⟩
      exact ⟨hPQ s hP, t, ht, ih hsafe⟩

/-- Two properties that say the same wherever an invariant holds, which holds as long as they do. -/
theorem safe_congr (Inv : σ → Prop) {Q : σ → Prop} (hsame : ∀ s, Inv s → (P s ↔ Q s))
    (hInv : ∀ s i t, Inv s → P s → f s i = some t → Inv t) {s : σ} {is : List ι} (hs : Inv s) :
    Safe f P s is ↔ Safe f Q s is := by
  induction is generalizing s with
  | nil =>
      exact hsame s hs
  | cons i is ih =>
      constructor
      · rintro ⟨hP, t, ht, hsafe⟩
        exact ⟨(hsame s hs).1 hP, t, ht, (ih (hInv s i t hs hP ht)).1 hsafe⟩
      · rintro ⟨hQ, t, ht, hsafe⟩
        have hP := (hsame s hs).2 hQ
        exact ⟨hP, t, ht, (ih (hInv s i t hs hP ht)).2 hsafe⟩

/-- A guard that follows from `P` before and after a step is met all along a safe run. -/
theorem Safe.stepsMeet {s : σ} {is : List ι} (h : Safe f P s is)
    (hG : ∀ s i t, P s → f s i = some t → P t → G s i) : StepsMeet f G s is := by
  induction is generalizing s with
  | nil =>
      exact trivial
  | cons i is ih =>
      rcases h with ⟨hP, t, ht, hsafe⟩
      refine ⟨hG s i t hP ht hsafe.head, ?_⟩
      intro t' ht'
      cases ht.symm.trans ht'
      exact ih hsafe

/-- When every guarded step goes well and keeps `P`, so does a run of them. -/
theorem safe_of_stepsMeet (hstep : ∀ s i, P s → G s i → ∃ t, f s i = some t ∧ P t) {s : σ}
    {is : List ι} (hs : P s) (hG : StepsMeet f G s is) : Safe f P s is := by
  induction is generalizing s with
  | nil =>
      exact hs
  | cons i is ih =>
      rcases hstep s i hs hG.1 with ⟨t, ht, hPt⟩
      exact ⟨hs, t, ht, ih hPt (hG.2 t ht)⟩

/-- The guard is exactly what keeps every run safe, when it is so for single steps. -/
theorem safe_iff_stepsMeet (Inv : σ → Prop) (hInv : ∀ s i t, Inv s → f s i = some t → Inv t)
    (hstep : ∀ s i, Inv s → P s → (G s i ↔ ∃ t, f s i = some t ∧ P t))
    {s : σ} {is : List ι} (hs : Inv s) (hP : P s) :
    Safe f P s is ↔ StepsMeet f G s is := by
  induction is generalizing s with
  | nil =>
      simpa [Safe, StepsMeet] using hP
  | cons i is ih =>
      constructor
      · rintro ⟨_, t, ht, hsafe⟩
        refine ⟨(hstep s i hs hP).2 ⟨t, ht, hsafe.head⟩, ?_⟩
        intro t' ht'
        cases ht.symm.trans ht'
        exact (ih (hInv s i t hs ht) hsafe.head).1 hsafe
      · rintro ⟨hG, hrest⟩
        rcases (hstep s i hs hP).1 hG with ⟨t, ht, hPt⟩
        exact ⟨hP, t, ht, (ih (hInv s i t hs ht) hPt).2 (hrest t ht)⟩

/-- The same when the steps along the inputs always go well, and keep an invariant as long as `P`
holds. -/
theorem safe_iff_stepsMeet_of_inputs (Inv : σ → Prop) {W : ι → Prop}
    (hstep : ∀ s i, Inv s → W i → P s → ∃ t, f s i = some t ∧ Inv t ∧ (G s i ↔ P t))
    {s : σ} {is : List ι} (his : ∀ i ∈ is, W i) (hs : Inv s) (hP : P s) :
    Safe f P s is ↔ StepsMeet f G s is := by
  induction is generalizing s with
  | nil =>
      simpa [Safe, StepsMeet] using hP
  | cons i is ih =>
      rcases hstep s i hs (his i List.mem_cons_self) hP with ⟨t, ht, hInv, hG⟩
      have his' : ∀ j ∈ is, W j := fun j hj => his j (List.mem_cons_of_mem _ hj)
      constructor
      · rintro ⟨_, u, hu, hsafe⟩
        cases ht.symm.trans hu
        refine ⟨hG.2 hsafe.head, ?_⟩
        intro v hv
        cases ht.symm.trans hv
        exact (ih his' hInv hsafe.head).1 hsafe
      · rintro ⟨hguard, hrest⟩
        exact ⟨hP, t, ht, (ih his' hInv (hG.1 hguard)).2 (hrest t ht)⟩

theorem safe_iff_stepsMeet_of_total (Inv : σ → Prop)
    (hstep : ∀ s i, Inv s → P s → ∃ t, f s i = some t ∧ Inv t ∧ (G s i ↔ P t))
    {s : σ} {is : List ι} (hs : Inv s) (hP : P s) : Safe f P s is ↔ StepsMeet f G s is :=
  safe_iff_stepsMeet_of_inputs (W := fun _ => True) Inv (fun s i hs _ hP => hstep s i hs hP)
    (fun _ _ => trivial) hs hP

/-- A guard that each step needs to keep the invariant keeps it over whole runs. -/
theorem invariant_of_stepsMeet (Inv : σ → Prop) (hstep : ∀ s i t, Inv s → G s i → f s i = some t → Inv t)
    {s t : σ} {is : List ι} (hs : Inv s) (hG : StepsMeet f G s is)
    (hrun : runAll f s is = some t) : Inv t := by
  induction is generalizing s with
  | nil =>
      cases hrun
      exact hs
  | cons i is ih =>
      rcases Option.bind_eq_some_iff.1 hrun with ⟨u, hu, hrest⟩
      exact ih (hstep s i u hs hG.1 hu) (hG.2 u hu) hrest

/-- A guard that is met along a run is met along what is left of it. -/
theorem StepsMeet.append {s t : σ} {is js : List ι} (h : StepsMeet f G s (is ++ js))
    (hrun : runAll f s is = some t) : StepsMeet f G t js := by
  induction is generalizing s with
  | nil =>
      cases hrun
      exact h
  | cons i is ih =>
      rcases Option.bind_eq_some_iff.1 hrun with ⟨u, hu, hrest⟩
      exact ih (h.2 u hu) hrest

/-- The same input again and again, along a sequence of states. -/
theorem runAll_replicate {i : ι} (u : Nat → σ) (h : ∀ n, f (u n) i = some (u (n + 1))) (n k : Nat) :
    runAll f (u k) (List.replicate n i) = some (u (k + n)) := by
  induction n generalizing k with
  | zero =>
      rfl
  | succ n ih =>
      rw [List.replicate_succ, runAll, h k, Option.bind_some, ih, Nat.add_right_comm, Nat.add_assoc]

/-- What an invariant and the guard imply for each step holds all along a guarded run. -/
theorem StepsMeet.of_invariant (Inv : σ → Prop) {Q : σ → ι → Prop}
    (hstep : ∀ s i t, Inv s → G s i → f s i = some t → Inv t) (hQ : ∀ s i, Inv s → G s i → Q s i)
    {s : σ} {is : List ι} (hs : Inv s) (hG : StepsMeet f G s is) : StepsMeet f Q s is := by
  induction is generalizing s with
  | nil =>
      exact trivial
  | cons i is ih =>
      refine ⟨hQ s i hs hG.1, ?_⟩
      intro t ht
      exact ih (hstep s i t hs hG.1 ht) (hG.2 t ht)

/-- Two guards that say the same wherever an invariant holds. -/
theorem stepsMeet_iff_of_inputs (Inv : σ → Prop) {W : ι → Prop} {Q : σ → ι → Prop}
    (hsame : ∀ s i, Inv s → W i → (Q s i ↔ G s i))
    (hInv : ∀ s i t, Inv s → W i → G s i → f s i = some t → Inv t) {s : σ} {is : List ι}
    (his : ∀ i ∈ is, W i) (hs : Inv s) : StepsMeet f Q s is ↔ StepsMeet f G s is := by
  induction is generalizing s with
  | nil =>
      exact Iff.rfl
  | cons i is ih =>
      have hi := his i List.mem_cons_self
      have his' : ∀ j ∈ is, W j := fun j hj => his j (List.mem_cons_of_mem _ hj)
      constructor
      · rintro ⟨hQ, hrest⟩
        have hG := (hsame s i hs hi).1 hQ
        exact ⟨hG, fun t ht => (ih his' (hInv s i t hs hi hG ht)).1 (hrest t ht)⟩
      · rintro ⟨hG, hrest⟩
        exact ⟨(hsame s i hs hi).2 hG, fun t ht => (ih his' (hInv s i t hs hi hG ht)).2 (hrest t ht)⟩

end Partial

end CLib
