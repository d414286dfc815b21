import PsyBnc.Lib.SlotTree

/-!
# Ways into a tree with slots, and pruning it

`node? q s` is the node at the way `q`.  `prune p s` is the tree `s` without the nodes that satisfy `p` and
what is below them; their slots are free.  When one node satisfies `p`, freeing its slot prunes the tree.
-/

namespace CLib

namespace Slots

variable {α β : Type}

/-! ## The node at a way -/

/-- The node at a way, with its slots. -/
def node? : List Dir → Slots α → Option (α × Slots α)
  | [], used a below _ => some (a, below)
  | .next :: q, free rest => node? q rest
  | .next :: q, used _ _ rest => node? q rest
  | .down :: q, used _ below _ => node? q below
  | _, _ => none

/-- The first node in depth first order that satisfies `p`, with its slots. -/
def find? (p : α → Bool) : Slots α → Option (α × Slots α)
  | nil => none
  | free rest => find? p rest
  | used a below rest => if p a then some (a, below) else (find? p below).or (find? p rest)

/-- The labels in the slots themselves. -/
def top : Slots α → List α
  | nil => []
  | free rest => rest.top
  | used a _ rest => a :: rest.top

/-- The nodes with `p` are taken away with all that is below them. -/
def prune (p : α → Bool) : Slots α → Slots α
  | nil => nil
  | free rest => free (prune p rest)
  | used a below rest => if p a then free (prune p rest) else used a (prune p below) (prune p rest)

section Node

variable {p : α → Bool} {f : α → β} {s x y : Slots α} {q r : List Dir} {a b : α}

theorem mem_labels_of_node (h : node? q s = some (a, x)) : a ∈ s.labels := by
  induction s generalizing q with
  | nil =>
      cases q with
      | nil => cases h
      | cons d q => cases d <;> cases h
  | free rest ih =>
      cases q with
      | nil => cases h
      | cons d q =>
          cases d with
          | next => exact ih h
          | down => cases h
  | used c below rest ihb ihr =>
      rw [labels_used]
      cases q with
      | nil =>
          cases h
          exact List.mem_cons_self
      | cons d q =>
          cases d with
          | next => exact List.mem_cons_of_mem _ (List.mem_append_right _ (ihr h))
          | down => exact List.mem_cons_of_mem _ (List.mem_append_left _ (ihb h))

theorem mem_labels_of_find (h : find? p s = some (a, x)) : a ∈ s.labels ∧ p a = true := by
  induction s with
  | nil =>
      cases h
  | free rest ih =>
      exact ih h
  | used c below rest ihb ihr =>
      rw [labels_used]
      rw [find?] at h
      split at h
      · cases h
        exact ⟨List.mem_cons_self, ‹_›⟩
      · rcases Option.or_eq_some_iff.1 h with hbelow | ⟨_, hrest⟩
        · exact ⟨List.mem_cons_of_mem _ (List.mem_append_left _ (ihb hbelow).1), (ihb hbelow).2⟩
        · exact ⟨List.mem_cons_of_mem _ (List.mem_append_right _ (ihr hrest).1), (ihr hrest).2⟩

theorem find_eq_none (h : ∀ b ∈ s.labels, p b = false) : find? p s = none := by
  cases hfind : find? p s with
  | none => rfl
  | some c =>
      rcases mem_labels_of_find hfind with ⟨hmem, hp⟩
      rw [h _ hmem] at hp
      cases hp

/-- What is found is at some way. -/
theorem exists_node_of_find (h : find? p s = some (a, x)) : ∃ q, node? q s = some (a, x) := by
  induction s with
  | nil =>
      cases h
  | free rest ih =>
      rcases ih h with ⟨q, hq⟩
      exact ⟨Dir.next :: q, hq⟩
  | used c below rest ihb ihr =>
      rw [find?] at h
      split at h
      · cases h
        exact ⟨[], rfl⟩
      · rcases Option.or_eq_some_iff.1 h with hbelow | ⟨_, hrest⟩
        · rcases ihb hbelow with ⟨q, hq⟩
          exact ⟨Dir.down :: q, hq⟩
        · rcases ihr hrest with ⟨q, hq⟩
          exact ⟨Dir.next :: q, hq⟩

/-- A way goes on below its node. -/
theorem node_append (h : node? q s = some (a, x)) (r : List Dir) :
    node? (q ++ Dir.down :: r) s = node? r x := by
  induction s generalizing q with
  | nil =>
      cases q with
      | nil => cases h
      | cons d q => cases d <;> cases h
  | free rest ih =>
      cases q with
      | nil => cases h
      | cons d q =>
          cases d with
          | next => exact ih h
          | down => cases h
  | used c below rest ihb ihr =>
      cases q with
      | nil =>
          cases h
          rfl
      | cons d q =>
          cases d with
          | next => exact ihr h
          | down => exact ihb h

/-- The slots themselves are reached without going down. -/
theorem exists_node_of_top (h : a ∈ s.top) :
    ∃ k x, node? (List.replicate k Dir.next) s = some (a, x) := by
  induction s with
  | nil =>
      cases h
  | free rest ih =>
      rcases ih h with ⟨k, x, hk⟩
      exact ⟨k + 1, x, hk⟩
  | used c below rest _ ih =>
      rcases List.mem_cons.1 h with rfl | hrest
      · exact ⟨0, below, rfl⟩
      · rcases ih hrest with ⟨k, x, hk⟩
        exact ⟨k + 1, x, hk⟩

/-! ## Searching, before and after a node is cleared -/

/-- What is dug up is a node with the property. -/
theorem node_of_dig {n m : Int} (h : dig p s n = (some q, m)) :
    ∃ a x, node? q s = some (a, x) ∧ p a = true := by
  induction s generalizing q n m with
  | nil =>
      cases h
  | free rest ih =>
      rcases Option.map_eq_some_iff.1 (congrArg Prod.fst h) with ⟨r, hr, rfl⟩
      exact ih (Prod.ext hr rfl)
  | used c below rest ihb ihr =>
      have hnext : ∀ n', (dig p rest n').1.map (Dir.next :: ·) = some q →
          ∃ a x, node? q (used c below rest) = some (a, x) ∧ p a = true := by
        intro n' h'
        rcases Option.map_eq_some_iff.1 h' with ⟨r, hr, rfl⟩
        exact ihr (Prod.ext hr rfl)
      rw [dig] at h
      split at h
      · cases h
        exact ⟨c, below, rfl, ‹_›⟩
      · split at h
        · exact hnext _ (congrArg Prod.fst h)
        · split at h
          · next r _ hbelow =>
            cases h
            exact ihb hbelow
          · exact hnext _ (congrArg Prod.fst h)

/-- Clearing what is at the found node, or below it, does not change the search. -/
theorem dig_clear {n m : Int} (h : dig p s n = (some q, m)) (hq : q <+: r) :
    dig p (modifyAt clear r s) n = (some q, m) := by
  induction s generalizing q r n m with
  | nil =>
      cases h
  | free rest ih =>
      rcases Option.map_eq_some_iff.1 (congrArg Prod.fst h) with ⟨q', hq', rfl⟩
      rcases hq with ⟨t, rfl⟩
      have hrest := ih (q := q') (n := n) (Prod.ext hq' rfl) (List.prefix_append q' t)
      have hleft : (dig p rest n).2 = m := congrArg Prod.snd h
      rw [List.cons_append, modifyAt, dig, hrest]
      exact Prod.ext rfl hleft
  | used c below rest ihb ihr =>
      by_cases hc : p c = true
      · -- Found at the top, whatever is changed below and behind.
        rw [dig, if_pos hc] at h
        cases h
        have hkeep : ∃ below' rest', modifyAt clear r (used c below rest) = used c below' rest' := by
          cases r with
          | nil => exact ⟨_, _, rfl⟩
          | cons d r =>
              cases d with
              | next => exact ⟨_, _, rfl⟩
              | down => exact ⟨_, _, rfl⟩
        rcases hkeep with ⟨below', rest', heq⟩
        rw [heq, dig, if_pos hc]
      · -- Found behind this node: the way goes on with the next one.
        have hnext : ∀ n' m', ((dig p rest n').1.map (Dir.next :: ·), m') = (some q, m) →
            ∃ r', r = Dir.next :: r' ∧
              (dig p (modifyAt clear r' rest) n').1.map (Dir.next :: ·) = some q ∧
              (dig p (modifyAt clear r' rest) n').2 = (dig p rest n').2 := by
          intro n' m' h'
          rcases Option.map_eq_some_iff.1 (congrArg Prod.fst h') with ⟨q', hq', rfl⟩
          rcases hq with ⟨t, rfl⟩
          have hrest := ihr (q := q') (n := n') (Prod.ext hq' rfl) (List.prefix_append q' t)
          refine ⟨q' ++ t, rfl, ?_, ?_⟩
          · rw [hrest]
            rfl
          · rw [hrest]
        rw [dig, if_neg hc] at h
        by_cases hn : n - 1 = 0
        · rw [if_pos hn] at h
          -- The budget is used up here, so nothing below is searched.
          have hm : (dig p rest 0).2 = m := congrArg Prod.snd h
          rcases hnext _ _ h with ⟨r', rfl, hfound, hleft⟩
          rw [modifyAt, dig, if_neg hc, if_pos hn, hfound, hleft, hm]
        · rw [if_neg hn] at h
          rcases hdig : dig p below (n - 1) with ⟨o, n'⟩
          rw [hdig] at h
          cases o with
          | some q' =>
              cases h
              rcases hq with ⟨t, rfl⟩
              -- Found below this node.
              have hbelow := ihb hdig (List.prefix_append q' t)
              rw [List.cons_append, modifyAt, dig, if_neg hc, if_neg hn, hbelow]
          | none =>
              have hm : (dig p rest n').2 = m := congrArg Prod.snd h
              rcases hnext _ _ h with ⟨r', rfl, hfound, hleft⟩
              rw [modifyAt, dig, if_neg hc, if_neg hn, hdig]
              simp only [hfound, hleft, hm]

end Node

/-! ## Trees in which a name is there once -/

section Named

variable {f : α → β} {s x y : Slots α} {q r : List Dir} {a b : α} {n m : β}

/-- The names at, below and behind a node are different ones. -/
theorem nodup_used (h : ((used a x y).labels.map f).Nodup) :
    (x.labels.map f).Nodup ∧ (y.labels.map f).Nodup ∧
      (∀ b ∈ x.labels, f b ≠ f a) ∧ (∀ b ∈ y.labels, f b ≠ f a) ∧
        ∀ b ∈ x.labels, ∀ c ∈ y.labels, f b ≠ f c := by
  rw [labels_used, List.map_cons, List.map_append, List.nodup_cons, List.nodup_append] at h
  rcases h with ⟨hhead, hx, hy, hxy⟩
  have hne : ∀ b ∈ x.labels ++ y.labels, f b ≠ f a := by
    intro b hb heq
    apply hhead
    rw [← List.map_append, ← heq]
    exact List.mem_map_of_mem hb
  refine ⟨hx, hy, fun b hb => hne b (List.mem_append_left _ hb),
    fun b hb => hne b (List.mem_append_right _ hb), fun b hb c hc => ?_⟩
  exact hxy _ (List.mem_map_of_mem hb) _ (List.mem_map_of_mem hc)

/-- There is one way to a name. -/
theorem node_unique (hnodup : (s.labels.map f).Nodup) (h : node? q s = some (a, x))
    (h' : node? r s = some (b, y)) (hab : f a = f b) : q = r := by
  induction s generalizing q r with
  | nil =>
      cases q with
      | nil => cases h
      | cons d q => cases d <;> cases h
  | free rest ih =>
      cases q with
      | nil => cases h
      | cons d q =>
          cases r with
          | nil => cases h'
          | cons e r =>
              cases d with
              | down => cases h
              | next =>
                  cases e with
                  | down => cases h'
                  | next => rw [ih hnodup h h']
  | used c below rest ihb ihr =>
      rcases nodup_used hnodup with ⟨hb, hr, hbc, hrc, hbr⟩
      -- A node below or behind has another name than the one at the top, and than each other.
      have hplace : ∀ {d q z w}, node? (d :: q) (used c below rest) = some (z, w) →
          (d = Dir.down ∧ z ∈ below.labels) ∨ (d = Dir.next ∧ z ∈ rest.labels) := by
        intro d q z w hz
        cases d with
        | next => exact Or.inr ⟨rfl, mem_labels_of_node (q := q) hz⟩
        | down => exact Or.inl ⟨rfl, mem_labels_of_node (q := q) hz⟩
      cases q with
      | nil =>
          cases h
          cases r with
          | nil => rfl
          | cons e r =>
              rcases hplace h' with ⟨_, hmem⟩ | ⟨_, hmem⟩
              · exact absurd hab.symm (hbc b hmem)
              · exact absurd hab.symm (hrc b hmem)
      | cons d q =>
          cases r with
          | nil =>
              cases h'
              rcases hplace h with ⟨_, hmem⟩ | ⟨_, hmem⟩
              · exact absurd hab (hbc a hmem)
              · exact absurd hab (hrc a hmem)
          | cons e r =>
              rcases hplace h with ⟨rfl, hmem⟩ | ⟨rfl, hmem⟩
              · rcases hplace h' with ⟨rfl, hmem'⟩ | ⟨rfl, hmem'⟩
                · rw [ihb hb h h']
                · exact absurd hab (hbr a hmem b hmem')
              · rcases hplace h' with ⟨rfl, hmem'⟩ | ⟨rfl, hmem'⟩
                · exact absurd hab.symm (hbr b hmem' a hmem)
                · rw [ihr hr h h']

variable [DecidableEq β]

/-- The nodes of a name. -/
def named (f : α → β) (n : β) (b : α) : Bool := decide (f b = n)

theorem named_of_ne (h : f b ≠ n) : named f n b = false := decide_eq_false h

theorem find_of_node (hnodup : (s.labels.map f).Nodup) (h : node? q s = some (a, x)) :
    find? (named f (f a)) s = some (a, x) := by
  induction s generalizing q with
  | nil =>
      cases q with
      | nil => cases h
      | cons d q => cases d <;> cases h
  | free rest ih =>
      cases q with
      | nil => cases h
      | cons d q =>
          cases d with
          | next => exact ih hnodup h
          | down => cases h
  | used c below rest ihb ihr =>
      rcases nodup_used hnodup with ⟨hb, hr, hbc, hrc, hbr⟩
      cases q with
      | nil =>
          cases h
          simp [find?, named]
      | cons d q =>
          cases d with
          | next =>
              have hmem : a ∈ rest.labels := mem_labels_of_node (q := q) h
              have hc : named f (f a) c = false := named_of_ne (hrc a hmem).symm
              have hnone : find? (named f (f a)) below = none :=
                find_eq_none fun b hb => named_of_ne (hbr b hb a hmem)
              rw [find?, hc, hnone]
              exact ihr hr h
          | down =>
              have hmem : a ∈ below.labels := mem_labels_of_node (q := q) h
              have hc : named f (f a) c = false := named_of_ne (hbc a hmem).symm
              rw [find?, hc, ihb hb h]
              rfl

/-! ## Pruning a name -/

theorem prune_of_none (h : ∀ b ∈ s.labels, f b ≠ n) : prune (named f n) s = s := by
  induction s with
  | nil =>
      rfl
  | free rest ih =>
      rw [prune, ih h]
  | used c below rest ihb ihr =>
      rw [labels_used] at h
      have hc := named_of_ne (h c List.mem_cons_self)
      have hbelow := ihb fun b hb => h b (List.mem_cons_of_mem _ (List.mem_append_left _ hb))
      have hrest := ihr fun b hb => h b (List.mem_cons_of_mem _ (List.mem_append_right _ hb))
      rw [prune, hc, hbelow, hrest]
      rfl

theorem mem_labels_of_prune {p : α → Bool} (h : b ∈ (prune p s).labels) : b ∈ s.labels := by
  induction s with
  | nil =>
      exact h
  | free rest ih =>
      exact ih h
  | used c below rest ihb ihr =>
      rw [labels_used]
      rw [prune] at h
      split at h
      · exact List.mem_cons_of_mem _ (List.mem_append_right _ (ihr h))
      · rw [labels_used] at h
        rcases List.mem_cons.1 h with rfl | h
        · exact List.mem_cons_self
        · rcases List.mem_append.1 h with h | h
          · exact List.mem_cons_of_mem _ (List.mem_append_left _ (ihb h))
          · exact List.mem_cons_of_mem _ (List.mem_append_right _ (ihr h))

/-- Freeing the slot of a node prunes the tree. -/
theorem unlink_eq_prune (hnodup : (s.labels.map f).Nodup) (h : node? q s = some (a, x)) :
    modifyAt unlink q s = prune (named f (f a)) s := by
  induction s generalizing q with
  | nil =>
      cases q with
      | nil => cases h
      | cons d q => cases d <;> cases h
  | free rest ih =>
      cases q with
      | nil => cases h
      | cons d q =>
          cases d with
          | next => rw [modifyAt, prune, ih hnodup h]
          | down => cases h
  | used c below rest ihb ihr =>
      rcases nodup_used hnodup with ⟨hb, hr, hbc, hrc, hbr⟩
      cases q with
      | nil =>
          cases h
          rw [modifyAt, unlink, prune, if_pos (by simp [named]), prune_of_none hrc]
      | cons d q =>
          cases d with
          | next =>
              have hmem : a ∈ rest.labels := mem_labels_of_node (q := q) h
              have hc : named f (f a) c = false := named_of_ne (hrc a hmem).symm
              rw [modifyAt, prune, hc, ihr hr h, prune_of_none fun b hb => hbr b hb a hmem]
              rfl
          | down =>
              have hmem : a ∈ below.labels := mem_labels_of_node (q := q) h
              have hc : named f (f a) c = false := named_of_ne (hbc a hmem).symm
              rw [modifyAt, prune, hc, ihb hb h, prune_of_none fun b hb => (hbr a hmem b hb).symm]
              rfl

/-- What is cleared first can be unlinked afterwards all the same. -/
theorem unlink_clear (q : List Dir) (s : Slots α) :
    modifyAt unlink q (modifyAt clear q s) = modifyAt unlink q s := by
  induction q generalizing s with
  | nil =>
      cases s <;> rfl
  | cons d q ih =>
      cases s with
      | nil => cases d <;> rfl
      | free rest =>
          cases d with
          | next => simp only [modifyAt, ih]
          | down => rfl
      | used c below rest =>
          cases d with
          | next => simp only [modifyAt, ih]
          | down => simp only [modifyAt, ih]

/-- The nodes are those of the subtree and those that are left. -/
theorem labels_prune (hnodup : (s.labels.map f).Nodup) (h : find? (named f n) s = some (a, x)) :
    s.labels.Perm ((a :: x.labels) ++ (prune (named f n) s).labels) := by
  induction s with
  | nil =>
      cases h
  | free rest ih =>
      exact ih hnodup h
  | used c below rest ihb ihr =>
      rcases nodup_used hnodup with ⟨hb, hr, hbc, hrc, hbr⟩
      rw [find?] at h
      rw [prune]
      split at h
      · next hc =>
        cases h
        have hname : f a = n := of_decide_eq_true hc
        rw [if_pos hc, labels_free, prune_of_none (hname ▸ hrc), labels_used, List.cons_append]
      · next hc =>
        rw [if_neg hc, labels_used, labels_used]
        rcases Option.or_eq_some_iff.1 h with hbelow | ⟨_, hrest⟩
        · rcases mem_labels_of_find hbelow with ⟨hmem, hp⟩
          have hname : f a = n := of_decide_eq_true hp
          have hperm := (ihb hb hbelow).append_right rest.labels
          rw [List.append_assoc] at hperm
          rw [prune_of_none (s := rest) fun b hb => hname ▸ (hbr a hmem b hb).symm]
          exact (hperm.cons c).trans List.perm_middle.symm
        · rcases mem_labels_of_find hrest with ⟨hmem, hp⟩
          have hname : f a = n := of_decide_eq_true hp
          have hperm := (ihr hr hrest).append_left (c :: below.labels)
          rw [prune_of_none fun b hb => hname ▸ hbr b hb a hmem]
          refine hperm.trans ?_
          rw [← List.append_assoc, ← List.cons_append]
          rw [← List.append_assoc]
          exact List.perm_append_comm.append_right _

/-- The other nodes keep their slots, with one of them free if the node was in it. -/
theorem top_prune (p : α → Bool) (s : Slots α) : (prune p s).top = s.top.filter fun b => !p b := by
  induction s with
  | nil =>
      rfl
  | free rest ih =>
      exact ih
  | used c below rest _ ih =>
      rw [prune, top, List.filter_cons]
      cases hc : p c with
      | true =>
          exact ih
      | false =>
          rw [if_neg (by decide), top, ih]
          rfl

theorem find_prune {p : α → Bool} (hnodup : (s.labels.map f).Nodup)
    (h : b ∈ (prune p s).labels) :
    find? (named f (f b)) (prune p s) =
      (find? (named f (f b)) s).map fun z => (z.1, prune p z.2) := by
  induction s with
  | nil =>
      cases h
  | free rest ih =>
      exact ih hnodup h
  | used c below rest ihb ihr =>
      rcases nodup_used hnodup with ⟨hb, hr, hbc, hrc, hbr⟩
      rw [prune] at h ⊢
      -- A node of `below` is not searched for in `rest`, and the other way round.
      have hbelow : b ∈ rest.labels → find? (named f (f b)) below = none ∧
          named f (f b) c = false := by
        intro hmem
        exact ⟨find_eq_none fun z hz => named_of_ne (hbr z hz b hmem),
          named_of_ne (hrc b hmem).symm⟩
      split at h
      · next hc =>
        rw [if_pos hc, find?, find?, ihr hr h]
        rcases hbelow (mem_labels_of_prune h) with ⟨hnone, hname⟩
        rw [hname, hnone]
        rfl
      · next hc =>
        rw [if_neg hc, find?, find?]
        rw [labels_used] at h
        rcases List.mem_cons.1 h with rfl | h
        · simp [named]
        · rcases List.mem_append.1 h with h | h
          · have hmem := mem_labels_of_prune h
            have hname : named f (f b) c = false := named_of_ne (hbc b hmem).symm
            have hnone : ∀ t : Slots α, (∀ z ∈ t.labels, z ∈ rest.labels) →
                find? (named f (f b)) t = none := fun t ht =>
              find_eq_none fun z hz => named_of_ne (hbr b hmem z (ht z hz)).symm
            rw [hname, ihb hb h, hnone rest (fun _ hz => hz),
              hnone (prune p rest) (fun _ hz => mem_labels_of_prune hz)]
            simp
          · have hmem := mem_labels_of_prune h
            rcases hbelow hmem with ⟨hnone, hname⟩
            have hnone' : find? (named f (f b)) (prune p below) = none :=
              find_eq_none fun z hz => named_of_ne (hbr z (mem_labels_of_prune hz) b hmem)
            rw [hname, hnone, hnone', ihr hr h]
            rfl

end Named

end Slots

end CLib
