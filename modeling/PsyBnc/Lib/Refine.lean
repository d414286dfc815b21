import PsyBnc.Lib.Run

/-!
# Systems that speak

A step of a system can emit something.  A system refines another when every step is matched by a run of the other that
emits the same; then so is every run.
-/

namespace CLib

variable {σ τ ι κ ω : Type}

/-- The state at the end and all that was emitted, when no step goes wrong. -/
def runEmit (f : σ → ι → Option (σ × List ω)) : σ → List ι → Option (σ × List ω)
  | s, [] => some (s, [])
  | s, i :: is => (f s i).bind fun p => (runEmit f p.1 is).map fun q => (q.1, p.2 ++ q.2)

/-- A step without what it emits. -/
def silently (f : σ → ι → Option (σ × List ω)) (s : σ) (i : ι) : Option σ := (f s i).map Prod.fst

section Refines

variable {f : σ → ι → Option (σ × List ω)} {g : τ → κ → Option (τ × List ω)} {R : σ → τ → Prop} {ok : σ → ι → Prop}

theorem runEmit_cons {s t u : σ} {i : ι} {is : List ι} {out rest : List ω} (h₁ : f s i = some (t, out))
    (h₂ : runEmit f t is = some (u, rest)) : runEmit f s (i :: is) = some (u, out ++ rest) := by
  rw [runEmit, h₁, Option.bind_some, h₂, Option.map_some]

theorem runEmit_single {s t : σ} {i : ι} {out : List ω} (h : f s i = some (t, out)) :
    runEmit f s [i] = some (t, out) := by
  calc runEmit f s [i]
      = some (t, out ++ []) := runEmit_cons h rfl
    _ = some (t, out) := by rw [List.append_nil]

theorem runEmit_append {s t u : σ} {is js : List ι} {out rest : List ω} (h₁ : runEmit f s is = some (t, out))
    (h₂ : runEmit f t js = some (u, rest)) : runEmit f s (is ++ js) = some (u, out ++ rest) := by
  induction is generalizing s out with
  | nil =>
      cases h₁
      exact h₂
  | cons i is ih =>
      rcases Option.bind_eq_some_iff.1 h₁ with ⟨⟨v, first⟩, hstep, hrest⟩
      rcases Option.map_eq_some_iff.1 hrest with ⟨⟨v', more⟩, hmore, heq⟩
      cases heq
      rw [List.append_assoc]
      exact runEmit_cons hstep (ih hmore)

/-- Every step is matched by a run that emits the same. -/
theorem runEmit_refines
    (hstep : ∀ s t i, R s t → ok s i →
      ∃ s' out, f s i = some (s', out) ∧ ∃ js t', runEmit g t js = some (t', out) ∧ R s' t')
    {is : List ι} {s : σ} {t : τ} (hR : R s t) (hok : StepsMeet (silently f) ok s is) :
    ∃ s' out, runEmit f s is = some (s', out) ∧ ∃ js t', runEmit g t js = some (t', out) ∧ R s' t' := by
  induction is generalizing s t with
  | nil => exact ⟨s, [], rfl, [], t, rfl, hR⟩
  | cons i is ih =>
      rcases hstep s t i hR hok.1 with ⟨u, out, hf, js, v, hg, hR'⟩
      have hrest : StepsMeet (silently f) ok u is := by
        apply hok.2
        rw [silently, hf, Option.map_some]
      rcases ih hR' hrest with ⟨u', rest, hf', js', v', hg', hR''⟩
      exact ⟨u', out ++ rest, runEmit_cons hf hf', js ++ js', v', runEmit_append hg hg', hR''⟩

end Refines

end CLib
