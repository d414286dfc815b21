import Mathlib.Data.List.Basic
import Mathlib.Tactic.Common

/-!
# Feistel networks

A block is a pair of halves.  A round mixes a function of the first half and a round key into the
second half and swaps the two; nothing is asked of the function.  `op` stands for the exclusive or,
of which only `op (op a b) b = a` and that it cancels is used.

* `network_reverse` undoes a network with the keys in reverse order;
* `network_congr` says that two round functions give the same result when they agree on the halves
  that occur on the way, and `outputs_eq_iff` that the rounds are the same only then.
-/

namespace CLib

variable {α : Type}

/-- One round with the key `k`. -/
def feistelRound (op : α → α → α) (F : α → α) (s : α × α) (k : α) : α × α :=
  (op s.2 (op (F s.1) k), s.1)

/-- The rounds with the keys `ks`. -/
def network (op : α → α → α) (F : α → α) (ks : List α) (s : α × α) : α × α :=
  ks.foldl (feistelRound op F) s

/-- The halves that `F` is applied to, in order. -/
def inputs (op : α → α → α) (F : α → α) : List α → α × α → List α
  | [], _ => []
  | k :: ks, s => s.1 :: inputs op F ks (feistelRound op F s k)

/-- The halves that the rounds compute, in order. -/
def outputs (op : α → α → α) (F : α → α) : List α → α × α → List α
  | [], _ => []
  | k :: ks, s => (feistelRound op F s k).1 :: outputs op F ks (feistelRound op F s k)

section Network

variable {op : α → α → α} {F G : α → α}

theorem network_cons (k : α) (ks : List α) (s : α × α) :
    network op F (k :: ks) s = network op F ks (feistelRound op F s k) := rfl

theorem network_append (ks js : List α) (s : α × α) :
    network op F (ks ++ js) s = network op F js (network op F ks s) :=
  List.foldl_append

/-- A round undoes itself between two swaps. -/
theorem feistelRound_swap (hop : ∀ a b, op (op a b) b = a) (s : α × α) (k : α) :
    feistelRound op F (feistelRound op F s k).swap k = s.swap := by
  rcases s with ⟨a, b⟩
  simp [feistelRound, hop]

theorem network_reverse (hop : ∀ a b, op (op a b) b = a) (ks : List α) (s : α × α) :
    network op F ks.reverse (network op F ks s).swap = s.swap := by
  induction ks generalizing s with
  | nil =>
      rfl
  | cons k ks ih =>
      -- The first key comes last on the way back.
      rw [List.reverse_cons, network_append, network_cons k ks s, ih]
      exact feistelRound_swap hop s k

theorem network_congr {ks : List α} {s : α × α} (h : ∀ x ∈ inputs op F ks s, G x = F x) :
    network op G ks s = network op F ks s := by
  induction ks generalizing s with
  | nil =>
      rfl
  | cons k ks ih =>
      have hhead : feistelRound op G s k = feistelRound op F s k := by
        simp [feistelRound, h s.1 (by simp [inputs])]
      rw [network_cons, network_cons, hhead]
      exact ih fun x hx => h x (by simp [inputs, hx])

theorem length_outputs (ks : List α) (s : α × α) : (outputs op F ks s).length = ks.length := by
  induction ks generalizing s with
  | nil =>
      rfl
  | cons k ks ih =>
      simp [outputs, ih]

theorem outputs_eq_iff (hleft : ∀ a b c, op a b = op a c → b = c)
    (hright : ∀ a b c, op a c = op b c → a = b) {ks : List α} {s : α × α} :
    outputs op G ks s = outputs op F ks s ↔ ∀ x ∈ inputs op F ks s, G x = F x := by
  induction ks generalizing s with
  | nil =>
      simp [outputs, inputs]
  | cons k ks ih =>
      constructor
      · intro h
        rcases List.cons.inj h with ⟨hhead, htail⟩
        have hs : G s.1 = F s.1 := hright _ _ _ (hleft _ _ _ hhead)
        have hround : feistelRound op G s k = feistelRound op F s k := by
          simp [feistelRound, hs]
        rw [hround] at htail
        intro x hx
        rcases List.mem_cons.1 hx with rfl | hx
        · exact hs
        · exact ih.1 htail x hx
      · intro h
        have hround : feistelRound op G s k = feistelRound op F s k := by
          simp [feistelRound, h s.1 (by simp [inputs])]
        simp only [outputs, hround, List.cons.injEq, true_and]
        exact ih.2 fun x hx => h x (by simp [inputs, hx])

end Network

end CLib
