import Mathlib.Data.Set.Insert
import PsyBnc.Lib.Run

/-!
# Names with rights

Whoever has rights can add and remove names, and give rights to a name or take them away; nobody else can.  So along a
run a name gets and loses what it has only by somebody who has rights then.
-/

namespace CLib

variable {ν : Type}

inductive RoleAct (ν : Type) where
  | idle
  | add (n : ν)
  | remove (n : ν)
  | entitle (n : ν) (b : Bool)

/-- What becomes of the names, each with whether it has rights. -/
def RoleAct.after : RoleAct ν → Set (ν × Bool) → Set (ν × Bool)
  | .idle, R => R
  | .add n, R => insert (n, false) R
  | .remove n, R => {p ∈ R | p.1 ≠ n}
  | .entitle n b, R => insert (n, b) {p ∈ R | p.1 ≠ n}

/-- A name acts, and has rights unless it does nothing. -/
def RoleStep (R : Set (ν × Bool)) (p : ν × RoleAct ν) (R' : Set (ν × Bool)) : Prop :=
  (p.2 = .idle ∨ (p.1, true) ∈ R) ∧ R' = p.2.after R

/-- After these a name is there, with rights or without. -/
def RoleAct.Makes (n : ν) (b : Bool) (act : RoleAct ν) : Prop := b = false ∧ act = .add n ∨ act = .entitle n b

/-- After these it is no longer so. -/
def RoleAct.Ends (n : ν) (b : Bool) (act : RoleAct ν) : Prop := act = .remove n ∨ act = .entitle n !b

section Step

variable {R R' : Set (ν × Bool)} {p : ν × RoleAct ν} {n : ν} {b : Bool}

theorem RoleStep.gained (h : RoleStep R p R') (hn : (n, b) ∈ R') :
    (n, b) ∈ R ∨ p.2.Makes n b ∧ (p.1, true) ∈ R := by
  rcases h with ⟨hwho, rfl⟩
  rcases p with ⟨m, act⟩
  cases act with
  | idle =>
      exact Or.inl hn
  | add k =>
      rcases hn with hn | hn
      · cases hn
        exact Or.inr ⟨Or.inl ⟨rfl, rfl⟩, hwho.resolve_left nofun⟩
      · exact Or.inl hn
  | remove k =>
      exact Or.inl hn.1
  | entitle k c =>
      rcases hn with hn | hn
      · cases hn
        exact Or.inr ⟨Or.inr rfl, hwho.resolve_left nofun⟩
      · exact Or.inl hn.1

theorem RoleStep.lost (h : RoleStep R p R') (hn : (n, b) ∈ R) :
    (n, b) ∈ R' ∨ p.2.Ends n b ∧ (p.1, true) ∈ R := by
  rcases h with ⟨hwho, rfl⟩
  rcases p with ⟨m, act⟩
  cases act with
  | idle =>
      exact Or.inl hn
  | add k =>
      exact Or.inl (Or.inr hn)
  | remove k =>
      by_cases hk : n = k
      · exact Or.inr ⟨Or.inl (congrArg RoleAct.remove hk.symm), hwho.resolve_left nofun⟩
      · exact Or.inl ⟨hn, hk⟩
  | entitle k c =>
      by_cases hk : n = k
      · subst hk
        by_cases hc : c = b
        · exact Or.inl (Or.inl (congrArg (Prod.mk n) hc.symm))
        · -- the other of two values
          have hnot : c = !b := Bool.eq_not.2 hc
          exact Or.inr ⟨Or.inr (congrArg (RoleAct.entitle n) hnot), hwho.resolve_left nofun⟩
      · exact Or.inl (Or.inr ⟨hn, hk⟩)

end Step

section Runs

variable {σ ι : Type} (f : σ → ι → Option σ) (roles : σ → Set (ν × Bool)) (acts : σ → ι → ν × RoleAct ν → Prop)

/-- Somewhere along the inputs a name that has rights then does such an act. -/
def Acted (Q : RoleAct ν → Prop) (s : σ) (is : List ι) : Prop :=
  ∃ before i after u p, is = before ++ i :: after ∧ runAll f s before = some u ∧ acts u i p ∧ Q p.2 ∧
    (p.1, true) ∈ roles u

variable {f roles acts} {Q : RoleAct ν → Prop} {s t : σ} {i : ι} {is : List ι}

theorem Acted.head {p : ν × RoleAct ν} (hacts : acts s i p) (hQ : Q p.2) (hp : (p.1, true) ∈ roles s) :
    Acted f roles acts Q s (i :: is) :=
  ⟨[], i, is, s, p, rfl, rfl, hacts, hQ, hp⟩

theorem Acted.tail (hstep : f s i = some t) (h : Acted f roles acts Q t is) : Acted f roles acts Q s (i :: is) := by
  rcases h with ⟨before, j, after, u, p, rfl, hrun, hacted⟩
  refine ⟨i :: before, j, after, u, p, rfl, ?_, hacted⟩
  rw [runAll, hstep, Option.bind_some, hrun]

variable {G : σ → ι → Prop} (roles acts)

/-- Steps that are acts make a run in which nothing comes or goes but by an act of one with rights. -/
theorem acted_of_stepsMeet (Inv : σ → Prop)
    (hstep : ∀ s i, Inv s → G s i → ∃ t p, f s i = some t ∧ Inv t ∧ acts s i p ∧ RoleStep (roles s) p (roles t))
    (hs : Inv s) (hG : StepsMeet f G s is) :
    ∃ t, runAll f s is = some t ∧ Inv t ∧ ∀ n b,
      ((n, b) ∈ roles t → (n, b) ∈ roles s ∨ Acted f roles acts (RoleAct.Makes n b) s is) ∧
      ((n, b) ∈ roles s → (n, b) ∈ roles t ∨ Acted f roles acts (RoleAct.Ends n b) s is) := by
  induction is generalizing s with
  | nil =>
      exact ⟨s, rfl, hs, fun n b => ⟨Or.inl, Or.inl⟩⟩
  | cons i is ih =>
      rcases hstep s i hs hG.1 with ⟨u, p, hfirst, hu, hacts, hrole⟩
      rcases ih hu (hG.2 u hfirst) with ⟨t, hrun, ht, hchanges⟩
      refine ⟨t, by rw [runAll, hfirst, Option.bind_some, hrun], ht, fun n b => ⟨?_, ?_⟩⟩
      · intro hn
        rcases (hchanges n b).1 hn with hn | hacted
        · -- it was there after the first step
          rcases hrole.gained hn with hn | ⟨hmakes, hp⟩
          · exact Or.inl hn
          · exact Or.inr (Acted.head hacts hmakes hp)
        · exact Or.inr (hacted.tail hfirst)
      · intro hn
        rcases hrole.lost hn with hn | ⟨hends, hp⟩
        · rcases (hchanges n b).2 hn with hn | hacted
          · exact Or.inl hn
          · exact Or.inr (hacted.tail hfirst)
        · exact Or.inr (Acted.head hacts hends hp)

end Runs

end CLib
