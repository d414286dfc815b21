import Mathlib.Data.List.Nodup
import Mathlib.Data.List.Perm.Basic
import Mathlib.Tactic.Common

/-!
# Trees with slots

A node has an array of slots, each of them free or taken by a node below it; behind the last entry all
slots are free.  `dig` searches in depth first order with a budget.  The budget is tested for zero
only: the search does not go below the node that exhausts it, but it does go on behind it.
-/

namespace CLib

/-- An array of slots. -/
inductive Slots (α : Type) where
  | nil : Slots α
  | free (rest : Slots α)
  | used (label : α) (below rest : Slots α)
  deriving DecidableEq, Repr

/-- A way to a node: behind a slot, or below the node in it. -/
inductive Dir where
  | next
  | down
  deriving DecidableEq, Repr

namespace Slots

variable {α : Type}

/-! ## Nodes -/

/-- The nodes in depth first order, with the number of nodes below each of them. -/
def nodes : Slots α → List (α × Nat)
  | nil => []
  | free rest => rest.nodes
  | used a below rest => (a, below.nodes.length) :: (below.nodes ++ rest.nodes)

def labels (s : Slots α) : List α := s.nodes.map Prod.fst

@[simp] theorem labels_nil : (nil : Slots α).labels = [] := rfl

@[simp] theorem labels_free (rest : Slots α) : (free rest).labels = rest.labels := rfl

@[simp] theorem labels_used (a : α) (below rest : Slots α) :
    (used a below rest).labels = a :: (below.labels ++ rest.labels) := by
  simp [labels, nodes]

/-- What is below a node follows it. -/
theorem below_le {s : Slots α} {n : Nat} {x : α × Nat} (h : s.nodes[n]? = some x) :
    n + 1 + x.2 ≤ s.nodes.length := by
  induction s generalizing n with
  | nil =>
      simp [nodes] at h
  | free rest ih =>
      exact ih h
  | used a below rest ihb ihr =>
      rw [nodes] at h ⊢
      cases n with
      | zero =>
          have hx : (a, below.nodes.length) = x := by simpa using h
          rw [← hx]
          simp only [List.length_cons, List.length_append]
          omega
      | succ n =>
          rw [List.getElem?_cons_succ] at h
          by_cases hn : n < below.nodes.length
          · rw [List.getElem?_append_left hn] at h
            have hle := ihb h
            simp only [List.length_cons, List.length_append]
            omega
          · rw [List.getElem?_append_right (Nat.le_of_not_lt hn)] at h
            have hle := ihr h
            simp only [List.length_cons, List.length_append]
            omega

/-! ## Searching -/

/-- The search with a budget, and the budget that is left. -/
def dig (p : α → Bool) : Slots α → Int → Option (List Dir) × Int
  | nil, b => (none, b)
  | free rest, b => ((dig p rest b).1.map (Dir.next :: ·), (dig p rest b).2)
  | used a below rest, b =>
      if p a then (some [], b)
      else if b - 1 = 0 then ((dig p rest 0).1.map (Dir.next :: ·), (dig p rest 0).2)
      else
        match dig p below (b - 1) with
        | (some q, b') => (some (Dir.down :: q), b')
        | (none, b') => ((dig p rest b').1.map (Dir.next :: ·), (dig p rest b').2)

/-- The nodes that a search in vain visits. -/
def visited : Slots α → Int → List (α × Nat)
  | nil, _ => []
  | free rest, b => visited rest b
  | used a below rest, b =>
      (a, below.nodes.length) ::
        if b - 1 = 0 then visited rest 0
        else visited below (b - 1) ++ visited rest (b - 1 - (visited below (b - 1)).length)

/-- A search finds something when one of these nodes is searched for; otherwise each of them has cost
one of the budget. -/
theorem dig_spec (p : α → Bool) (s : Slots α) (b : Int) :
    ((dig p s b).1.isSome = true ↔ ∃ x ∈ s.visited b, p x.1 = true) ∧
      ((dig p s b).1 = none → (dig p s b).2 = b - (s.visited b).length) := by
  induction s generalizing b with
  | nil =>
      simp [dig, visited]
  | free rest ih =>
      simpa [dig, visited] using ih b
  | used a below rest ihb ihr =>
      rw [dig, visited]
      by_cases ha : p a = true
      · simp [ha]
      rw [if_neg ha]
      by_cases hb : b - 1 = 0
      · -- The budget ends here: nothing below is visited.
        have hrest := ihr 0
        rw [if_pos hb, if_pos hb]
        refine ⟨?_, fun hnone => ?_⟩
        · simpa [ha] using hrest.1
        · have hleft := hrest.2 (by simpa using hnone)
          simp only [hleft, List.length_cons]
          omega
      · have hbelow := ihb (b - 1)
        rw [if_neg hb, if_neg hb]
        rcases hdig : dig p below (b - 1) with ⟨q, b'⟩
        rw [hdig] at hbelow
        cases q with
        | some q =>
            -- Found below.
            have hfound := hbelow.1.1 rfl
            refine ⟨⟨fun _ => ?_, fun _ => rfl⟩, fun hnone => by cases hnone⟩
            rcases hfound with ⟨x, hx, hpx⟩
            exact ⟨x, List.mem_cons_of_mem _ (List.mem_append_left _ hx), hpx⟩
        | none =>
            -- Not found below, which has used up its part of the budget.
            have hleft : b' = b - 1 - (below.visited (b - 1)).length := hbelow.2 rfl
            have hno : ∀ x ∈ below.visited (b - 1), p x.1 ≠ true := by
              intro x hx hpx
              have hsome := hbelow.1.2 ⟨x, hx, hpx⟩
              cases hsome
            subst hleft
            have hrest := ihr (b - 1 - (below.visited (b - 1)).length)
            simp only
            refine ⟨?_, fun hnone => ?_⟩
            · rw [Option.isSome_map, hrest.1]
              constructor
              · rintro ⟨x, hx, hpx⟩
                exact ⟨x, List.mem_cons_of_mem _ (List.mem_append_right _ hx), hpx⟩
              · rintro ⟨x, hx, hpx⟩
                rcases List.mem_cons.1 hx with rfl | hx
                · exact absurd hpx ha
                · rcases List.mem_append.1 hx with hx | hx
                  · exact absurd hpx (hno x hx)
                  · exact ⟨x, hx, hpx⟩
            · have hrest' := hrest.2 (by simpa using hnone)
              simp only [hrest', List.length_cons, List.length_append]
              omega

/-- All nodes but those below the one with the number `n`. -/
def passed (l : List (α × Nat)) (n : Nat) : List (α × Nat) :=
  l.take (n + 1) ++ l.drop (n + 1 + ((l[n]?).map Prod.snd).getD 0)

theorem passed_of_le {l : List (α × Nat)} {n : Nat} (h : l.length ≤ n) : passed l n = l := by
  rw [passed, List.take_of_length_le (Nat.le_succ_of_le h), List.drop_eq_nil_of_le (by omega),
    List.append_nil]

/-- When the node has nothing below it, all nodes are visited. -/
theorem passed_of_leaf {l : List (α × Nat)} {n : Nat} (h : ∀ x ∈ l[n]?, x.2 = 0) :
    passed l n = l := by
  have hnone : ((l[n]?).map Prod.snd).getD 0 = 0 := by
    cases hget : l[n]? with
    | none => rfl
    | some x =>
        rw [Option.map_some, Option.getD_some]
        exact h x hget
  rw [passed, hnone, Nat.add_zero, List.take_append_drop]

/-- The node that follows is not visited when it is below that one, nor is another one of its name. -/
theorem passed_skips {β : Type} {f : α → β} {l : List (α × Nat)}
    (hnodup : (l.map fun x => f x.1).Nodup) {n : Nat} {x y : α × Nat} (hx : l[n]? = some x)
    (hbelow : x.2 ≠ 0) (hy : l[n + 1]? = some y) :
    f y.1 ∉ (passed l n).map fun x => f x.1 := by
  have hname : ∀ {i : Nat} {z : α × Nat}, l[i]? = some z → f z.1 = f y.1 → i = n + 1 := by
    intro i z hz heq
    have hi : i < (l.map fun x => f x.1).length := by
      rw [List.length_map]
      exact (List.getElem?_eq_some_iff.1 hz).1
    apply (List.getElem?_inj hi hnodup).1
    rw [List.getElem?_map, List.getElem?_map, hz, hy, Option.map_some, Option.map_some, heq]
  intro hmem
  rcases List.mem_map.1 hmem with ⟨z, hz, heq⟩
  rw [passed, hx, Option.map_some, Option.getD_some] at hz
  rcases List.mem_append.1 hz with hz | hz
  · rcases List.mem_iff_getElem?.1 hz with ⟨i, hi⟩
    rw [List.getElem?_take] at hi
    split at hi
    · next hlt =>
      have hsame := hname hi heq
      omega
    · cases hi
  · rcases List.mem_iff_getElem?.1 hz with ⟨i, hi⟩
    rw [List.getElem?_drop] at hi
    have hsame := hname hi heq
    omega

/-- Without a budget everything is visited. -/
theorem visited_nonpos (s : Slots α) {b : Int} (hb : b ≤ 0) : s.visited b = s.nodes := by
  induction s generalizing b with
  | nil =>
      rfl
  | free rest ih =>
      exact ih hb
  | used a below rest ihb ihr =>
      rw [visited, nodes, if_neg (by omega), ihb (by omega), ihr (by omega)]

/-- With a budget, nothing is visited below the node that exhausts it. -/
theorem visited_eq (s : Slots α) (n : Nat) : s.visited (n + 1) = passed s.nodes n := by
  induction s generalizing n with
  | nil =>
      simp [visited, nodes, passed]
  | free rest ih =>
      exact ih n
  | used a below rest ihb ihr =>
      rw [visited, nodes]
      cases n with
      | zero =>
          rw [if_pos (by simp), visited_nonpos rest (Int.le_refl 0)]
          simp [passed, Nat.add_comm 1]
      | succ n =>
          have hbudget : ((n + 1 : Nat) : Int) + 1 - 1 = (n : Int) + 1 := by omega
          rw [if_neg (by omega), hbudget, ihb n]
          by_cases hn : below.nodes.length ≤ n
          · -- the budget is exhausted behind
            rw [passed_of_le hn]
            have hrest : (n : Int) + 1 - (below.nodes.length : Int) =
                ((n - below.nodes.length : Nat) : Int) + 1 := by omega
            rw [hrest, ihr, passed, passed, List.getElem?_cons_succ,
              List.getElem?_append_right hn, List.take_succ_cons, List.take_append,
              List.take_of_length_le (Nat.le_succ_of_le hn), List.cons_append, List.append_assoc]
            have htake : n + 1 - below.nodes.length = n - below.nodes.length + 1 := by omega
            rw [htake]
            generalize ((rest.nodes[n - below.nodes.length]?).map Prod.snd).getD 0 = c
            have hdrop : n + 1 + 1 + c = (n + 1 + c) + 1 := by omega
            rw [hdrop, List.drop_succ_cons, List.drop_append,
              List.drop_eq_nil_of_le (show below.nodes.length ≤ n + 1 + c by omega), List.nil_append]
            have hdrop' : n + 1 + c - below.nodes.length = n - below.nodes.length + 1 + c := by omega
            rw [hdrop']
          · -- the budget is exhausted below
            have hlt : n < below.nodes.length := Nat.lt_of_not_le hn
            have hget := List.getElem?_eq_getElem hlt
            have hle := below_le hget
            have hlength : n + 1 ≤ (passed below.nodes n).length := by
              rw [passed, List.length_append, List.length_take]
              omega
            rw [visited_nonpos rest (by omega), passed, passed, List.getElem?_cons_succ,
              List.getElem?_append_left hlt, hget, Option.map_some, Option.getD_some,
              List.take_succ_cons, List.take_append_of_le_length hlt, List.cons_append,
              List.append_assoc]
            have hdrop : n + 1 + 1 + (below.nodes[n]).2 = (n + 1 + (below.nodes[n]).2) + 1 := by omega
            rw [hdrop, List.drop_succ_cons, List.drop_append_of_le_length (by omega)]

/-! ## Changes -/

/-- What a way leads to is changed. -/
def modifyAt (f : Slots α → Slots α) : List Dir → Slots α → Slots α
  | [], s => f s
  | .next :: q, free rest => free (modifyAt f q rest)
  | .next :: q, used a below rest => used a below (modifyAt f q rest)
  | .down :: q, used a below rest => used a (modifyAt f q below) rest
  | _ :: _, s => s

/-- The first free slot of `n` is taken. -/
def addTo (x : α) : Nat → Slots α → Slots α
  | 0, s => s
  | _ + 1, nil => used x nil nil
  | _ + 1, free rest => used x nil rest
  | n + 1, used a below rest => used a below (addTo x n rest)

/-- A node is added below another one, which has `n` slots. -/
def attach (x : α) (n : Nat) : Slots α → Slots α
  | used a below rest => used a (addTo x n below) rest
  | s => s

/-- Everything below a node is removed. -/
def clear : Slots α → Slots α
  | used a _ rest => used a nil rest
  | s => s

/-- The slot of a node is made free. -/
def unlink : Slots α → Slots α
  | used _ _ rest => free rest
  | s => s

/-- What a change at one place does to the labels is the same in the tree, when it is kept in every
context. -/
theorem labels_modifyAt {R : List α → List α → Prop} (hrefl : ∀ l, R l l)
    (hctx : ∀ pre post l l', R l l' → R (pre ++ l ++ post) (pre ++ l' ++ post))
    {f : Slots α → Slots α} (hf : ∀ s, R s.labels (f s).labels) (q : List Dir) (s : Slots α) :
    R s.labels (modifyAt f q s).labels := by
  induction q generalizing s with
  | nil =>
      exact hf s
  | cons d q ih =>
      cases s with
      | nil =>
          cases d <;> exact hrefl _
      | free rest =>
          cases d with
          | next => exact ih rest
          | down => exact hrefl _
      | used a below rest =>
          cases d with
          | next =>
              have hrest := hctx (a :: below.labels) [] _ _ (ih rest)
              simpa [modifyAt] using hrest
          | down =>
              have hbelow := hctx [a] rest.labels _ _ (ih below)
              simpa [modifyAt] using hbelow

/-- The labels `l'` are `l`, or `l` and `x`. -/
def Grown (x : α) (l l' : List α) : Prop := l' = l ∨ l'.Perm (x :: l)

theorem Grown.context {x : α} (pre post : List α) {l l' : List α} (h : Grown x l l') :
    Grown x (pre ++ l ++ post) (pre ++ l' ++ post) := by
  rcases h with rfl | h
  · exact Or.inl rfl
  · right
    have hpre : (pre ++ l').Perm (x :: (pre ++ l)) :=
      (h.append_left pre).trans List.perm_middle
    exact hpre.append_right post

theorem labels_addTo (x : α) (n : Nat) (s : Slots α) : Grown x s.labels (addTo x n s).labels := by
  induction s generalizing n with
  | nil =>
      cases n with
      | zero => exact Or.inl rfl
      | succ n => exact Or.inr (List.Perm.refl _)
  | free rest _ =>
      cases n with
      | zero => exact Or.inl rfl
      | succ n => exact Or.inr (List.Perm.refl _)
  | used a below rest _ ih =>
      cases n with
      | zero => exact Or.inl rfl
      | succ n =>
          have hrest := (ih n).context (a :: below.labels) []
          simpa [addTo] using hrest

theorem labels_attach (x : α) (n : Nat) (q : List Dir) (s : Slots α) :
    Grown x s.labels (modifyAt (attach x n) q s).labels := by
  apply labels_modifyAt (fun l => Or.inl rfl) (fun pre post l l' h => h.context pre post)
  intro s
  cases s with
  | nil => exact Or.inl rfl
  | free rest => exact Or.inl rfl
  | used a below rest =>
      have hbelow := (labels_addTo x n below).context [a] rest.labels
      simpa [attach] using hbelow

theorem labels_sublist {f : Slots α → Slots α} (hf : ∀ s, (f s).labels.Sublist s.labels)
    (q : List Dir) (s : Slots α) : (modifyAt f q s).labels.Sublist s.labels := by
  apply labels_modifyAt (R := fun l l' => l'.Sublist l) (fun l => List.Sublist.refl l) _ hf
  intro pre post l l' h
  exact (h.append_left pre).append_right post

theorem labels_clear (s : Slots α) : s.clear.labels.Sublist s.labels := by
  cases s with
  | nil => exact List.Sublist.refl _
  | free rest => exact List.Sublist.refl _
  | used a below rest =>
      rw [clear, labels_used, labels_used, labels_nil, List.nil_append]
      exact (List.sublist_append_right _ _).cons_cons a

theorem labels_unlink (s : Slots α) : s.unlink.labels.Sublist s.labels := by
  cases s with
  | nil => exact List.Sublist.refl _
  | free rest => exact List.Sublist.refl _
  | used a below rest =>
      rw [unlink, labels_used, labels_free]
      exact (List.sublist_append_right _ _).trans (List.sublist_cons_self a _)

/-- A tree with one node at the top keeps it. -/
theorem modifyAt_root {f : Slots α → Slots α} (hnil : f nil = nil) {q : List Dir} {a : α}
    {below : Slots α} (hf : q = [] → ∃ below', f (used a below nil) = used a below' nil) :
    ∃ below', modifyAt f q (used a below nil) = used a below' nil := by
  cases q with
  | nil =>
      exact hf rfl
  | cons d q =>
      cases d with
      | next =>
          refine ⟨below, ?_⟩
          rw [modifyAt]
          cases q with
          | nil => rw [modifyAt, hnil]
          | cons d q => cases d <;> rfl
      | down =>
          exact ⟨_, rfl⟩

end Slots

end CLib
