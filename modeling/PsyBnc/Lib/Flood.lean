import Mathlib.Combinatorics.SimpleGraph.Acyclic

/-!
# Flooding an acyclic graph

A message starts at a node `r` and is passed on: a node that receives it from a neighbour hands it
to some of its other neighbours.  The graph is acyclic, so every message in flight moves away from
`r`, no edge is used twice or in both directions, and every node other than `r` is sent the message
at most once.  Messages may be delivered in any order.
-/

namespace CLib

variable {V : Type} {G : SimpleGraph V} {r u v w : V}

/-! ## Moving away from a node -/

theorem path_eq (hG : G.IsAcyclic) {p q : G.Walk u v} (hp : p.IsPath) (hq : q.IsPath) : p = q :=
  congrArg Subtype.val ((hG.subsingleton_path u v).elim ⟨p, hp⟩ ⟨q, hq⟩)

/-- The edge from `u` to `v` leads away from `r`. -/
def Away (G : SimpleGraph V) (r u v : V) : Prop :=
  ∃ p : G.Walk r u, p.IsPath ∧ v ∉ p.support ∧ G.Adj u v

theorem away_start (h : G.Adj r v) : Away G r r v := by
  refine ⟨SimpleGraph.Walk.nil, SimpleGraph.Walk.IsPath.nil, ?_, h⟩
  simpa using h.ne'

theorem Away.ne_start (h : Away G r u v) : v ≠ r := by
  rcases h with ⟨p, _, hv, _⟩
  rintro rfl
  exact hv p.start_mem_support

/-- A node is reached from one neighbour only. -/
theorem Away.unique (hG : G.IsAcyclic) (h : Away G r u v) (h' : Away G r w v) : u = w := by
  rcases h with ⟨p, hp, hv, huv⟩
  rcases h' with ⟨q, hq, hv', hwv⟩
  have hsame : p.concat huv = q.concat hwv := path_eq hG (hp.concat hv huv) (hq.concat hv' hwv)
  calc u = (p.concat huv).penultimate := (p.penultimate_concat huv).symm
    _ = (q.concat hwv).penultimate := by rw [hsame]
    _ = w := q.penultimate_concat hwv

/-- What does not go back goes on. -/
theorem Away.next (hG : G.IsAcyclic) (h : Away G r u v) (hvw : G.Adj v w) (hne : w ≠ u) :
    Away G r v w := by
  rcases h with ⟨p, hp, hv, huv⟩
  have hpath : (p.concat huv).IsPath := hp.concat hv huv
  refine ⟨p.concat huv, hpath, ?_, hvw⟩
  intro hmem
  have hback := hG.eq_penultimate_of_adj_end hpath hvw hmem
  exact hne (hback.trans (p.penultimate_concat huv))

theorem Away.not_back (hG : G.IsAcyclic) (h : Away G r u v) : ¬ Away G r v u := by
  rintro ⟨q, hq, hu, hvu⟩
  rcases h with ⟨p, hp, hv, huv⟩
  -- There is one path from `r` to `v` only, and it passes through `u`.
  have hsame : q = p.concat huv := path_eq hG hq (hp.concat hv huv)
  apply hu
  rw [hsame, SimpleGraph.Walk.support_concat]
  simp

/-! ## Spreading -/

/-- The deliveries so far and the messages in flight, as pairs of sender and receiver. -/
structure Flood (V : Type) where
  delivered : List (V × V) := []
  flight : List (V × V)

def Flood.sent (s : Flood V) : List (V × V) := s.delivered ++ s.flight

/-- One delivery: the receiver passes the message on, but not to where it came from. -/
inductive Flood.Step (G : SimpleGraph V) : Flood V → Flood V → Prop where
  | deliver {delivered before after : List (V × V)} {u v : V} {targets : List V} :
      targets.Nodup → (∀ w ∈ targets, G.Adj v w ∧ w ≠ u) →
      Flood.Step G ⟨delivered, before ++ (u, v) :: after⟩
        ⟨(u, v) :: delivered, before ++ after ++ targets.map fun w => (v, w)⟩

/-- Everything moves away from `r`, nothing is sent twice, and only `r` and nodes that have the
message send it. -/
structure Flood.Spreads (G : SimpleGraph V) (r : V) (s : Flood V) : Prop where
  away : ∀ e ∈ s.sent, Away G r e.1 e.2
  nodup : s.sent.Nodup
  source : ∀ e ∈ s.sent, e.1 = r ∨ ∃ u, (u, e.1) ∈ s.delivered

namespace Flood.Spreads

theorem start {targets : List V} (hnodup : targets.Nodup) (hadj : ∀ w ∈ targets, G.Adj r w) :
    Spreads G r { flight := targets.map fun w => (r, w) } := by
  refine ⟨?_, ?_, ?_⟩
  · intro e he
    rcases List.mem_map.1 he with ⟨w, hw, rfl⟩
    exact away_start (hadj w hw)
  · exact hnodup.map (fun _ _ h => congrArg Prod.snd h)
  · intro e he
    rcases List.mem_map.1 he with ⟨w, _, rfl⟩
    exact Or.inl rfl

theorem step (hG : G.IsAcyclic) {s s' : Flood V} (h : Spreads G r s) (hstep : Flood.Step G s s') :
    Spreads G r s' := by
  cases hstep with
  | @deliver delivered before after u v targets hnodup htargets =>
      let new : List (V × V) := targets.map fun w => (v, w)
      have hin : (u, v) ∈ delivered ++ (before ++ (u, v) :: after) := by simp
      have huv : Away G r u v := h.away _ hin
      -- What was sent before is still there, only in another order.
      have hperm : ((u, v) :: delivered ++ (before ++ after ++ new)).Perm
          ((delivered ++ (before ++ (u, v) :: after)) ++ new) := by
        have hmid : ((u, v) :: (delivered ++ before) ++ (after ++ new)).Perm
            ((delivered ++ before) ++ (u, v) :: (after ++ new)) := List.perm_middle.symm
        simpa [List.append_assoc] using hmid
      have hmem : ∀ e, e ∈ (u, v) :: delivered ++ (before ++ after ++ new) ↔
          e ∈ delivered ++ (before ++ (u, v) :: after) ∨ e ∈ new := by
        intro e
        rw [hperm.mem_iff, List.mem_append]
      refine ⟨?_, ?_, ?_⟩
      · intro e he
        rcases (hmem e).1 he with hold | hnew
        · exact h.away e hold
        · rcases List.mem_map.1 hnew with ⟨w, hw, rfl⟩
          exact huv.next hG (htargets w hw).1 (htargets w hw).2
      · refine hperm.nodup_iff.2 ?_
        refine List.Nodup.append h.nodup (hnodup.map (fun _ _ h => congrArg Prod.snd h)) ?_
        -- `v` has sent nothing yet: the message was still on its way to it.
        intro e hold hnew
        rcases List.mem_map.1 hnew with ⟨w, hw, rfl⟩
        rcases h.source _ hold with hr | ⟨u', hu'⟩
        · exact huv.ne_start hr
        · have hsame : u' = u := by
            have hu'v : Away G r u' v := h.away _ (List.mem_append_left _ hu')
            exact hu'v.unique hG huv
          subst hsame
          have hdis := List.disjoint_of_nodup_append h.nodup
          exact hdis hu' (by simp)
      · intro e he
        rcases (hmem e).1 he with hold | hnew
        · rcases h.source e hold with hr | ⟨u', hu'⟩
          · exact Or.inl hr
          · exact Or.inr ⟨u', List.mem_cons_of_mem _ hu'⟩
        · rcases List.mem_map.1 hnew with ⟨w, _, rfl⟩
          exact Or.inr ⟨u, List.mem_cons_self⟩

/-- Every node other than `r` is sent the message at most once, and `r` is not. -/
theorem nodup_receivers (hG : G.IsAcyclic) {s : Flood V} (h : Spreads G r s) :
    (r :: s.sent.map Prod.snd).Nodup := by
  refine List.nodup_cons.2 ⟨?_, ?_⟩
  · intro hmem
    rcases List.mem_map.1 hmem with ⟨e, he, hr⟩
    exact (h.away e he).ne_start hr
  · refine h.nodup.map_on ?_
    rintro ⟨u, v⟩ he ⟨u', v'⟩ he' hsnd
    have hv : v' = v := hsnd.symm
    subst hv
    have hu : u = u' := (h.away _ he).unique hG (h.away _ he')
    rw [hu]

/-- No edge is used in both directions. -/
theorem not_back (hG : G.IsAcyclic) {s : Flood V} (h : Spreads G r s) {u v : V}
    (huv : (u, v) ∈ s.sent) : (v, u) ∉ s.sent :=
  fun hvu => (h.away _ huv).not_back hG (h.away _ hvu)

/-- In a finite graph the flood ends: fewer messages are ever sent than there are nodes. -/
theorem length_lt [Fintype V] (hG : G.IsAcyclic) {s : Flood V} (h : Spreads G r s) :
    s.sent.length < Fintype.card V := by
  have hlen := (h.nodup_receivers hG).length_le_card
  rw [List.length_cons, List.length_map] at hlen
  exact hlen

end Flood.Spreads

end CLib
