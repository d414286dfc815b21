import Mathlib.Data.List.Basic
import Mathlib.Data.List.Nodup
import Mathlib.Data.List.Perm.Subperm
import Mathlib.Tactic.Common

/-!
# Chained lists in a memory

A memory is a list of cells: a cell that was freed is `none`, and one in use has a value and the
address of the next one.  `Seg h p l q` says that the pointers lead from `p` over the cells `l` to `q`.
A walk along the pointers keeps the predecessor, and finds a cell to take out of the chain.
-/

namespace CLib

variable {α : Type}

abbrev Cells (α : Type) := List (Option (α × Option Nat))

namespace Cells

/-- The cell at an address, unless it was freed. -/
def cellAt (h : Cells α) (a : Nat) : Option (α × Option Nat) := (h[a]?).join

/-- The cells from one pointer to another. -/
def Seg (h : Cells α) : Option Nat → List (Nat × α) → Option Nat → Prop
  | p, [], q => p = q
  | p, (a, x) :: l, q => p = some a ∧ ∃ next, h.cellAt a = some (x, next) ∧ Seg h next l q

/-- The first cell whose value satisfies `t`, with its predecessor; `none` when a freed cell is met. -/
def walk (t : α → Bool) (h : Cells α) : Nat → Option Nat → Option Nat → Option (Option Nat × Option Nat)
  | _, none, prev => some (none, prev)
  | 0, some _, _ => none
  | fuel + 1, some a, prev =>
      match h.cellAt a with
      | none => none
      | some (x, next) => if t x then some (some a, prev) else walk t h fuel next (some a)

section Segments

variable {h : Cells α} {p q r : Option Nat} {l l' : List (Nat × α)} {a : Nat} {x : α}
  {next : Option Nat}

theorem Seg.append (h₁ : Seg h p l q) (h₂ : Seg h q l' r) : Seg h p (l ++ l') r := by
  induction l generalizing p with
  | nil =>
      cases h₁
      exact h₂
  | cons y l ih =>
      rcases h₁ with ⟨rfl, next, hnext, hrest⟩
      exact ⟨rfl, next, hnext, ih hrest⟩

theorem Seg.split (hseg : Seg h p (l ++ l') r) : ∃ q, Seg h p l q ∧ Seg h q l' r := by
  induction l generalizing p with
  | nil =>
      exact ⟨p, rfl, hseg⟩
  | cons y l ih =>
      rcases hseg with ⟨rfl, next, hnext, hrest⟩
      rcases ih hrest with ⟨q, hq, hr⟩
      exact ⟨q, ⟨rfl, next, hnext, hq⟩, hr⟩

/-- The cell in front of another segment. -/
theorem Seg.cell (hseg : Seg h p (l ++ (a, x) :: l') r) :
    ∃ next, Seg h p l (some a) ∧ h.cellAt a = some (x, next) ∧ Seg h next l' r := by
  rcases hseg.split with ⟨q, hq, rfl, next, hnext, hrest⟩
  exact ⟨next, hq, hnext, hrest⟩

theorem cellAt_lt {v : α × Option Nat} (ha : h.cellAt a = some v) : a < h.length := by
  by_contra hge
  rw [cellAt, List.getElem?_eq_none (Nat.le_of_not_lt hge)] at ha
  cases ha

/-- The cells of a chain without repetitions fit in the memory. -/
theorem Seg.length_le (hseg : Seg h p l q) (hnodup : (l.map Prod.fst).Nodup) :
    l.length ≤ h.length := by
  have hbound : ∀ b ∈ l.map Prod.fst, b < h.length := by
    clear hnodup
    induction l generalizing p with
    | nil =>
        intro b hb
        cases hb
    | cons y l ih =>
        rcases hseg with ⟨rfl, next, hnext, hrest⟩
        intro b hb
        rcases List.mem_cons.1 hb with rfl | hb
        · exact cellAt_lt hnext
        · exact ih hrest b hb
  have hsub : l.map Prod.fst ⊆ List.range h.length :=
    fun b hb => List.mem_range.2 (hbound b hb)
  have hle := (hnodup.subperm hsub).length_le
  rw [List.length_map, List.length_range] at hle
  exact hle

/-- The list says where a chain begins. -/
theorem Seg.eq_head (hseg : Seg h p l none) : p = l.head?.map Prod.fst := by
  cases l with
  | nil =>
      exact hseg
  | cons y l =>
      exact hseg.1

theorem cellAt_set_ne {b : Nat} (h : Cells α) (v : Option (α × Option Nat)) (hb : b ≠ a) :
    cellAt (h.set b v) a = h.cellAt a := by
  rw [cellAt, List.getElem?_set_ne hb, cellAt]

theorem cellAt_set_self {v : Option (α × Option Nat)} (ha : h.cellAt a = some (x, next)) :
    cellAt (h.set a v) a = v := by
  rw [cellAt, List.getElem?_set_self (cellAt_lt ha), Option.join_some]

/-- Cells of the chain are not touched. -/
theorem Seg.frame {h' : Cells α} (hseg : Seg h p l q)
    (hsame : ∀ b ∈ l.map Prod.fst, h'.cellAt b = h.cellAt b) : Seg h' p l q := by
  induction l generalizing p with
  | nil =>
      exact hseg
  | cons y l ih =>
      rcases hseg with ⟨rfl, next, hnext, hrest⟩
      refine ⟨rfl, next, ?_, ih hrest fun b hb => hsame b (List.mem_cons_of_mem _ hb)⟩
      rw [hsame _ List.mem_cons_self]
      exact hnext

theorem Seg.set_of_notMem (hseg : Seg h p l q) (ha : a ∉ l.map Prod.fst)
    (v : Option (α × Option Nat)) : Seg (h.set a v) p l q := by
  apply hseg.frame
  intro b hb
  apply cellAt_set_ne
  rintro rfl
  exact ha hb

/-! ## Walking -/

/-- The predecessor that a walk over `l` leaves behind. -/
def lastOf (prev : Option Nat) (l : List (Nat × α)) : Option Nat := (l.getLast?.map Prod.fst).or prev

theorem lastOf_cons (prev : Option Nat) (y : Nat × α) (l : List (Nat × α)) :
    lastOf prev (y :: l) = lastOf (some y.1) l := by
  cases l with
  | nil => rfl
  | cons z l =>
      rw [lastOf, lastOf, List.getLast?_cons_cons]
      cases hlast : (z :: l).getLast? with
      | none => simp at hlast
      | some w => rfl

theorem lastOf_concat (prev : Option Nat) (l : List (Nat × α)) (y : Nat × α) :
    lastOf prev (l ++ [y]) = some y.1 := by
  rw [lastOf, List.getLast?_concat, Option.map_some, Option.some_or]

/-- Cells that do not satisfy the test are passed. -/
theorem walk_pass {t : α → Bool} (hseg : Seg h p l q) (hno : ∀ y ∈ l, t y.2 = false)
    (fuel : Nat) (prev : Option Nat) :
    walk t h (fuel + l.length) p prev = walk t h fuel q (lastOf prev l) := by
  induction l generalizing p prev with
  | nil =>
      cases hseg
      rfl
  | cons y l ih =>
      rcases y with ⟨a, x⟩
      rcases hseg with ⟨rfl, next, hnext, hrest⟩
      have hx : t x = false := hno _ List.mem_cons_self
      rw [List.length_cons, ← Nat.add_assoc, walk, hnext]
      simp only [hx, Bool.false_eq_true, if_false]
      rw [ih hrest (fun y hy => hno y (List.mem_cons_of_mem _ hy)), lastOf_cons]

/-- The walk ends at the first cell that satisfies the test. -/
theorem walk_found {t : α → Bool} (hseg : Seg h p (l ++ (a, x) :: l') q)
    (hno : ∀ y ∈ l, t y.2 = false) (hx : t x = true) {fuel : Nat} (hfuel : l.length < fuel)
    (prev : Option Nat) : walk t h fuel p prev = some (some a, lastOf prev l) := by
  rcases hseg.cell with ⟨next, hpre, hcell, _⟩
  rcases Nat.exists_eq_add_of_lt hfuel with ⟨k, hk⟩
  have hsum : fuel = (k + 1) + l.length := by omega
  rw [hsum, walk_pass hpre hno, walk, hcell]
  simp only [hx, if_true]

/-- It ends behind the list when no cell does. -/
theorem walk_none {t : α → Bool} (hseg : Seg h p l none) (hno : ∀ y ∈ l, t y.2 = false)
    {fuel : Nat} (hfuel : l.length ≤ fuel) (prev : Option Nat) :
    walk t h fuel p prev = some (none, lastOf prev l) := by
  rcases Nat.exists_eq_add_of_le hfuel with ⟨k, hk⟩
  rw [hk, Nat.add_comm, walk_pass hseg hno]
  cases k <;> rfl

/-- The walk ends in any case, and what it finds is a cell of the list. -/
theorem walk_ends (t : α → Bool) (hseg : Seg h p l none) {fuel : Nat} (hfuel : l.length ≤ fuel)
    (prev : Option Nat) :
    ∃ r, walk t h fuel p prev = some r ∧ ∀ b, r.1 = some b → ∃ x, (b, x) ∈ l ∧ t x = true := by
  induction l generalizing p fuel prev with
  | nil =>
      cases hseg
      refine ⟨(none, prev), ?_, fun b hb => by cases hb⟩
      cases fuel <;> rfl
  | cons y l ih =>
      rcases y with ⟨a, x⟩
      rcases hseg with ⟨rfl, next, hnext, hrest⟩
      cases fuel with
      | zero => cases hfuel
      | succ fuel =>
          rw [walk, hnext]
          by_cases hx : t x = true
          · refine ⟨(some a, prev), by simp only [hx, if_true], fun b hb => ?_⟩
            cases hb
            exact ⟨x, List.mem_cons_self, hx⟩
          · rcases ih hrest (Nat.le_of_succ_le_succ hfuel) (some a) with ⟨r, hr, hmem⟩
            refine ⟨r, ?_, fun b hb => ?_⟩
            · simp only [hx, Bool.false_eq_true, if_false]
              exact hr
            · rcases hmem b hb with ⟨z, hz, ht⟩
              exact ⟨z, List.mem_cons_of_mem _ hz, ht⟩

/-! ## Changes -/

/-- The value of a cell is changed. -/
theorem Seg.update (hseg : Seg h p (l ++ (a, x) :: l') q)
    (hnodup : ((l ++ (a, x) :: l').map Prod.fst).Nodup) (hcell : h.cellAt a = some (x, next)) (y : α) :
    Seg (h.set a (some (y, next))) p (l ++ (a, y) :: l') q := by
  rcases hseg.cell with ⟨next', hpre, hcell', hpost⟩
  cases Option.some.inj (hcell.symm.trans hcell')
  rw [List.map_append, List.map_cons, List.nodup_middle, List.nodup_cons, List.mem_append] at hnodup
  have hpre' := hpre.set_of_notMem (fun hmem => hnodup.1 (Or.inl hmem)) (some (y, next))
  have hpost' := hpost.set_of_notMem (fun hmem => hnodup.1 (Or.inr hmem)) (some (y, next))
  exact hpre'.append ⟨rfl, next, cellAt_set_self hcell, hpost'⟩

/-- A cell is left out behind its predecessor. -/
theorem Seg.relink {b : Nat} {y : α} (hseg : Seg h p (l ++ (b, y) :: (a, x) :: l') q)
    (hnodup : ((l ++ (b, y) :: (a, x) :: l').map Prod.fst).Nodup)
    (hcell : h.cellAt a = some (x, next)) :
    Seg (h.set b (some (y, next))) p (l ++ (b, y) :: l') q := by
  rcases hseg.cell with ⟨nextb, hpre, hcellb, rfl, next', hcell', hpost⟩
  cases Option.some.inj (hcell.symm.trans hcell')
  simp only [List.map_append, List.map_cons] at hnodup
  have hb := (List.nodup_cons.1 (List.nodup_middle.1 hnodup)).1
  rw [List.mem_append] at hb
  have hpre' := hpre.set_of_notMem (fun hmem => hb (Or.inl hmem)) (some (y, next))
  have hpost' := hpost.set_of_notMem (fun hmem => hb (Or.inr (List.mem_cons_of_mem _ hmem)))
    (some (y, next))
  exact hpre'.append ⟨rfl, next, cellAt_set_self hcellb, hpost'⟩

/-- A cell is taken out behind its predecessor, and freed. -/
theorem Seg.unlink {b : Nat} {y : α} (hseg : Seg h p (l ++ (b, y) :: (a, x) :: l') q)
    (hnodup : ((l ++ (b, y) :: (a, x) :: l').map Prod.fst).Nodup)
    (hcell : h.cellAt a = some (x, next)) :
    Seg ((h.set b (some (y, next))).set a none) p (l ++ (b, y) :: l') q := by
  apply (hseg.relink hnodup hcell).set_of_notMem
  rw [← List.singleton_append, ← List.append_assoc, List.map_append, List.map_cons] at hnodup
  have ha := (List.nodup_cons.1 (List.nodup_middle.1 hnodup)).1
  rw [← List.map_append, List.append_assoc, List.singleton_append] at ha
  exact ha

/-- The first cell is freed. -/
theorem Seg.unlink_head (hseg : Seg h p ((a, x) :: l) q)
    (hnodup : (((a, x) :: l).map Prod.fst).Nodup) (hcell : h.cellAt a = some (x, next)) :
    Seg (h.set a none) next l q := by
  rcases hseg with ⟨rfl, next', hcell', hrest⟩
  cases Option.some.inj (hcell.symm.trans hcell')
  exact hrest.set_of_notMem (List.nodup_cons.1 hnodup).1 none

/-- A cell is added behind the last one. -/
theorem Seg.push {b : Nat} {y : α} (hseg : Seg h p (l ++ [(b, y)]) none)
    (hnodup : ((l ++ [(b, y)]).map Prod.fst).Nodup) (hlt : ∀ c ∈ (l ++ [(b, y)]).map Prod.fst, c < h.length) :
    Seg (h.set b (some (y, some h.length)) ++ [some (x, none)]) p
      (l ++ [(b, y), (h.length, x)]) none := by
  have hold : ∀ c, c < h.length → cellAt (h.set b (some (y, some h.length)) ++ [some (x, none)]) c =
      cellAt (h.set b (some (y, some h.length))) c := by
    intro c hc
    rw [cellAt, List.getElem?_append_left (by rw [List.length_set]; exact hc), cellAt]
  have hnew : cellAt (h.set b (some (y, some h.length)) ++ [some (x, none)]) h.length = some (x, none) := by
    rw [cellAt, List.getElem?_append_right (Nat.le_of_eq List.length_set), List.length_set, Nat.sub_self]
    rfl
  rcases hseg.cell with ⟨nextb, hpre, hcellb, _⟩
  rw [List.map_append, List.map_cons, List.map_nil] at hnodup hlt
  have hb : b ∉ l.map Prod.fst := by
    intro hmem
    exact (List.disjoint_of_nodup_append hnodup) hmem List.mem_cons_self
  have hpre' : Seg (h.set b (some (y, some h.length)) ++ [some (x, none)]) p l (some b) := by
    apply (hpre.set_of_notMem hb (some (y, some h.length))).frame
    intro c hc
    exact hold c (hlt c (List.mem_append_left _ hc))
  refine hpre'.append ⟨rfl, some h.length, ?_, rfl, none, hnew, rfl⟩
  rw [hold b (hlt b (List.mem_append_right _ List.mem_cons_self))]
  exact cellAt_set_self hcellb

end Segments

end Cells

end CLib
