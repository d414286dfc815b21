import PsyBnc.Socket.Accounting

/-!
# Writing to a group

A text for a socket of a group is meant for every member.  The loop of `addq` looks for the next
member behind the node it served last; it begins behind the first node of the list, which is the
listener until a network is resumed.
-/

namespace PsyBnc

open CLib

/-- The group that `addq` works for. -/
def groupOf (net : Net) (socket : Int) : Nat :=
  (((getpsocketbysock net socket).bind fun k => net.socketnode[k]?).map Psockett.sockgroup).getD 0

/-- The nodes at which the loop of `addq` stops behind node `k`. -/
def groupNodes (net : Net) (group : Nat) : Nat → Nat → List Nat
  | 0, _ => []
  | fuel + 1, k =>
      match getpsocketbygroup net (k + 1) group (-1) with
      | none => []
      | some j => j :: groupNodes net group fuel j

/-- The nodes that get the text, in the order of the rounds. -/
def served (net : Net) (socket : Int) : List Nat :=
  groupNodes net (groupOf net socket) net.socketnode.length 0

/-- Every member but `notsocket` is served once, and nobody else is. -/
structure GroupDelivery (net : Net) (group : Nat) (nodes : List Nat) : Prop where
  once : ∀ i s, net.socketnode[i]? = some s → s.sockgroup = group → s.syssock ≠ net.notsocket →
    nodes.count i = 1
  only : ∀ i ∈ nodes, ∃ s, net.socketnode[i]? = some s ∧ s.sockgroup = group ∧
    s.syssock ≠ net.notsocket

section Nodes

variable {net net' : Net} {socket : Int} {data : List Byte} {sqdelay : Int} {group i : Nat}
  {s : Psockett}

theorem isMember_iff (hs : net.socketnode[i]? = some s) :
    isMember net group (-1) i = true ↔
      s.sockgroup = group ∧ s.syssock ≠ -1 ∧ s.syssock ≠ net.notsocket := by
  rw [isMember, hs, Option.any_some, decide_eq_true_eq]

theorem mem_groupNodes_iff {fuel k : Nat} (hfuel : net.socketnode.length ≤ k + 1 + fuel) :
    i ∈ groupNodes net group fuel k ↔ k < i ∧ isMember net group (-1) i = true := by
  induction fuel generalizing k with
  | zero =>
      constructor
      · intro hmem
        cases hmem
      · rintro ⟨hki, hm⟩
        have hlt := lt_of_isMember hm
        omega
  | succ fuel ih =>
      rw [groupNodes]
      cases hnext : getpsocketbygroup net (k + 1) group (-1) with
      | none =>
          constructor
          · intro hmem
            cases hmem
          · rintro ⟨hki, hm⟩
            exact absurd (hm.symm.trans (getpsocketbygroup_eq_none hnext hki)) (by simp)
      | some j =>
          rcases getpsocketbygroup_eq_some hnext with ⟨hkj, hm, hbetween⟩
          have hrest := ih (k := j) (by omega)
          rw [List.mem_cons, hrest]
          constructor
          · rintro (rfl | ⟨hji, hmi⟩)
            · exact ⟨hkj, hm⟩
            · exact ⟨Nat.lt_trans hkj hji, hmi⟩
          · rintro ⟨hki, hmi⟩
            -- nothing is a member between the two nodes
            rcases Nat.lt_trichotomy i j with hij | rfl | hij
            · exact absurd (hmi.symm.trans (hbetween i hki hij)) (by simp)
            · exact Or.inl rfl
            · exact Or.inr ⟨hij, hmi⟩

theorem lt_of_mem_groupNodes {fuel k : Nat} (h : i ∈ groupNodes net group fuel k) : k < i := by
  induction fuel generalizing k with
  | zero =>
      cases h
  | succ fuel ih =>
      rw [groupNodes] at h
      cases hnext : getpsocketbygroup net (k + 1) group (-1) with
      | none =>
          rw [hnext] at h
          cases h
      | some j =>
          have hkj : k < j := (getpsocketbygroup_eq_some hnext).1
          rw [hnext, List.mem_cons] at h
          rcases h with rfl | h
          · exact hkj
          · exact Nat.lt_trans hkj (ih h)

/-- The walk only goes on. -/
theorem nodup_groupNodes (fuel k : Nat) : (groupNodes net group fuel k).Nodup := by
  induction fuel generalizing k with
  | zero =>
      exact List.nodup_nil
  | succ fuel ih =>
      rw [groupNodes]
      cases getpsocketbygroup net (k + 1) group (-1) with
      | none =>
          exact List.nodup_nil
      | some j =>
          apply List.nodup_cons.2
          exact ⟨fun hmem => Nat.lt_irrefl j (lt_of_mem_groupNodes hmem), ih j⟩

theorem mem_served_iff :
    i ∈ served net socket ↔ 0 < i ∧ isMember net (groupOf net socket) (-1) i = true :=
  mem_groupNodes_iff (by omega)

theorem count_served (net : Net) (socket : Int) (i : Nat) :
    (served net socket).count i = if i ∈ served net socket then 1 else 0 :=
  (nodup_groupNodes _ _).count

/-! ## The rounds -/

theorem SameNodes.groupNodes (h : SameNodes net net') (fuel k : Nat) :
    PsyBnc.groupNodes net' group fuel k = PsyBnc.groupNodes net group fuel k := by
  have hlen : net'.socketnode.length = net.socketnode.length := by
    simpa using congrArg List.length h.nodes
  induction fuel generalizing k with
  | zero =>
      rfl
  | succ fuel ih =>
      have hnext : getpsocketbygroup net' (k + 1) group (-1) =
          getpsocketbygroup net (k + 1) group (-1) := by
        simp only [getpsocketbygroup, hlen, h.isMember]
      rw [PsyBnc.groupNodes, PsyBnc.groupNodes, hnext]
      simp only [ih]

/-- The loop is one round for each of the nodes. -/
theorem groupLoop_eq (fuel k : Nat) (net : Net) :
    groupLoop socket data sqdelay group fuel k net =
      (groupNodes net group fuel k).foldlM (fun net j => addEntry socket data sqdelay j net) net := by
  induction fuel generalizing k net with
  | zero =>
      rfl
  | succ fuel ih =>
      rw [groupLoop, groupNodes]
      cases hnext : getpsocketbygroup net (k + 1) group (-1) with
      | none =>
          rfl
      | some j =>
          rcases node_of_isMember (getpsocketbygroup_eq_some hnext).2.1 with ⟨s, hs⟩
          simp only [List.foldlM_cons]
          cases hentry : addEntry socket data sqdelay j net with
          | none =>
              rfl
          | some net₁ =>
              -- a round leaves the groups as they are
              have hsame : groupNodes net₁ group fuel j = groupNodes net group fuel j :=
                (addEntry_step hs hentry).nodes.groupNodes fuel j
              calc groupLoop socket data sqdelay group fuel j net₁
                  = (groupNodes net₁ group fuel j).foldlM _ net₁ := ih j net₁
                _ = (groupNodes net group fuel j).foldlM _ net₁ := by rw [hsame]

theorem addq_eq_served (hgroup : groupOf net socket ≠ 0) :
    addq socket data sqdelay net =
      (served net socket).foldlM (fun net j => addEntry socket data sqdelay j net) net := by
  have hloop : addq socket data sqdelay net =
      groupLoop socket data sqdelay (groupOf net socket) net.socketnode.length 0 net := if_pos hgroup
  rw [hloop, groupLoop_eq, served]

theorem appends_eq_served (hgroup : groupOf net socket ≠ 0) (i : Nat) :
    appends net socket i = decide (i ∈ served net socket) := by
  rw [groupOf] at hgroup
  cases ha : getpsocketbysock net socket with
  | none =>
      rw [ha] at hgroup
      exact absurd rfl hgroup
  | some a =>
      rcases node_of_getpsocketbysock ha with ⟨s, hs, _⟩
      have hof : groupOf net socket = s.sockgroup := by
        rw [groupOf, ha, Option.bind_some, hs, Option.map_some, Option.getD_some]
      rw [ha, Option.bind_some, hs, Option.map_some, Option.getD_some] at hgroup
      rw [appends, ha]
      simp only [hs, Option.any_some, if_neg hgroup, mem_served_iff, hof]
      simp

end Nodes

section Delivery

variable {net : Net} {socket : Int}

/-- The appending rounds of a call for a group are those of `served`.  They serve every member once
if and only if none that is to be served stands at the beginning of the list, or has the number `-1`
that the search leaves out. -/
theorem addq_group_iff (hgroup : groupOf net socket ≠ 0) :
    (∀ data sqdelay, addq socket data sqdelay net =
      (served net socket).foldlM (fun net j => addEntry socket data sqdelay j net) net) ∧
    (∀ data sqdelay net', addq socket data sqdelay net = some net' →
      QueueStep socket (fun i => List.replicate ((served net socket).count i) data) net net') ∧
    (GroupDelivery net (groupOf net socket) (served net socket) ↔
      ∀ i s, net.socketnode[i]? = some s → s.sockgroup = groupOf net socket →
        s.syssock ≠ net.notsocket → 0 < i ∧ s.syssock ≠ -1) := by
  refine ⟨fun data sqdelay => addq_eq_served hgroup, ?_, ?_⟩
  · intro data sqdelay net' h
    have hstep := addq_step h
    have happ : (fun i => if appends net socket i = true then [data] else []) =
        fun i => List.replicate ((served net socket).count i) data := by
      funext i
      rw [appends_eq_served hgroup, count_served]
      by_cases hi : i ∈ served net socket
      · simp [hi]
      · simp [hi]
    exact happ ▸ hstep
  · constructor
    · intro hdel i s hs hin hnot
      have hcount := hdel.once i s hs hin hnot
      have hmem : i ∈ served net socket := List.count_pos_iff.1 (by omega)
      rcases mem_served_iff.1 hmem with ⟨hi, hm⟩
      exact ⟨hi, ((isMember_iff hs).1 hm).2.1⟩
    · intro hguard
      refine ⟨fun i s hs hin hnot => ?_, fun i hi => ?_⟩
      · rcases hguard i s hs hin hnot with ⟨hi, hsock⟩
        have hmem : i ∈ served net socket := mem_served_iff.2 ⟨hi, (isMember_iff hs).2 ⟨hin, hsock, hnot⟩⟩
        rw [count_served, if_pos hmem]
      · rcases mem_served_iff.1 hi with ⟨_, hm⟩
        rcases node_of_isMember hm with ⟨s, hs⟩
        rcases (isMember_iff hs).1 hm with ⟨hin, _, hnot⟩
        exact ⟨s, hs, hin, hnot⟩

end Delivery

/-- A listener and two clients of a user. -/
def clients : List Psockett :=
  [{ syssock := 4, flag := SOC_CONN, sockgroup := 7 }, { syssock := 5, flag := SOC_CONN, sockgroup := 7 }]

theorem addq_group_listener :
    groupOf { socketnode := { syssock := 3 } :: clients } 4 ≠ 0 ∧
      GroupDelivery { socketnode := { syssock := 3 } :: clients } 7
        (served { socketnode := { syssock := 3 } :: clients } 4) := by
  have hgroup : groupOf { socketnode := { syssock := 3 } :: clients } 4 ≠ 0 := by decide
  refine ⟨hgroup, (addq_group_iff hgroup).2.2.2 ?_⟩
  intro i s hs hin _
  match i, hs with
  | 0, hs =>
      cases hs
      exact absurd hin (by decide)
  | 1, hs =>
      cases hs
      exact ⟨by decide, by decide⟩
  | 2, hs =>
      cases hs
      exact ⟨by decide, by decide⟩

/-- Without the listener a text for the first client goes to the second one only. -/
theorem addq_group_resumed :
    groupOf { socketnode := clients } 4 = 7 ∧ served { socketnode := clients } 4 = [1] ∧
      addq 4 (ascii "x") 0 { socketnode := clients } =
        addEntry 4 (ascii "x") 0 1 { socketnode := clients } ∧
      ¬ GroupDelivery { socketnode := clients } 7 (served { socketnode := clients } 4) := by
  refine ⟨by decide, by decide, rfl, fun hdel => ?_⟩
  have honce := hdel.once 0 _ rfl rfl (by decide)
  exact absurd honce (by decide)

end PsyBnc
