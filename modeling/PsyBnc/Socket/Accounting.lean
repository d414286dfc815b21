import PsyBnc.Lib.Fifo
import PsyBnc.Lib.Run
import PsyBnc.Socket.Sendq

/-!
# Queue accounting

`entrys` counts the entries of `sendq`, in every state that calls and changes from outside can
lead to.  The bound `MAX_SENDQ` is another matter: when `addq` finds a queue too long it flushes
the socket it was called with, so a member of a group that is full while another one is addressed
keeps growing.
-/

namespace PsyBnc

open CLib

/-! ## Counters -/

/-- The counter is `d` ahead of the queue, and only servers are waited for. -/
structure CountedSock (d : Int) (s : Psockett) : Prop where
  entrys : s.entrys = s.sendq.length + d
  unstoned : s.serversocket = false → s.serverstoned = 0

def Counted (d : Nat → Int) (net : Net) : Prop :=
  ∀ j s, net.socketnode[j]? = some s → CountedSock (d j) s

/-- The counter of every socket is the length of its queue. -/
def Accounting (net : Net) : Prop := Counted (fun _ => 0) net

theorem Kept.counted {s s' : Psockett} (h : Kept s s') {d : Int} (hc : CountedSock d s) :
    CountedSock d s' := by
  have hlen : s'.sendq.length = s.sendq.length := by
    simpa using congrArg List.length h.sendq
  have hserver : s'.serversocket = s.serversocket := congrArg (fun p => p.2.2.2.2.2) h.fixed
  refine ⟨?_, fun hs => ?_⟩
  · rw [h.entrys, hlen]
    exact hc.entrys
  · exact (h.unstoned (hserver ▸ hs)).trans (hc.unstoned (hserver ▸ hs))

theorem Popped.counted {rest : List Sendqt} {s s' : Psockett} (h : Popped rest s s') {msq : Sendqt}
    (hq : s.sendq = msq :: rest) {d : Int} (hc : CountedSock d s) : CountedSock d s' := by
  have hserver : s'.serversocket = s.serversocket := congrArg (fun p => p.2.2.2.2.2) h.fixed
  refine ⟨?_, fun hs => ?_⟩
  · have hcount := hc.entrys
    rw [hq, List.length_cons] at hcount
    rw [h.entrys, h.sendq, hcount]
    omega
  · exact (h.unstoned (hserver ▸ hs)).trans (hc.unstoned (hserver ▸ hs))

section Counting

variable {net net' : Net} {d : Nat → Int} {k : Nat} {s s' : Psockett} {socket : Int}

theorem Counted.touch (h : Counted d net) (hs : net.socketnode[k]? = some s) {d' : Nat → Int}
    (hk : CountedSock (d' k) s') (hd : ∀ j, j ≠ k → d' j = d j) (u : Bool) (outs : List Output) :
    Counted d' (net.touch k s' u outs) := by
  intro j t ht
  by_cases hj : j = k
  · subst hj
    have ht' : t = s' := Option.some.inj (ht.symm.trans (node_touch hs u outs))
    rw [ht']
    exact hk
  · rw [node_touch_ne hj] at ht
    rw [hd j hj]
    exact h j t ht

theorem flushsendq_counted {forced : Bool} (h : flushsendq socket forced net = some net')
    (hc : Counted d net) : Counted d net' := by
  have hresult := flushsendq_result net socket forced
  rw [h] at hresult
  cases hresult with
  | idle _ =>
      exact hc
  | kept hhead _ hkept _ =>
      exact hc.touch hhead.sock (hkept.counted (hc _ _ hhead.sock)) (fun _ _ => rfl) _ _
  | sent hhead _ _ hpop =>
      exact hc.touch hhead.sock (hpop.counted hhead.sendq (hc _ _ hhead.sock)) (fun _ _ => rfl) _ _

theorem writesockNow_counted {data : CStr} (hs : net.socketnode[k]? = some s)
    (h : writesockNow k socket data net = some net') (hc : Counted d net) : Counted d net' := by
  have hresult := writesockNow_result hs socket data
  rw [h] at hresult
  cases hresult with
  | written _ hkept _ =>
      exact hc.touch hs (hkept.counted (hc _ _ hs)) (fun _ _ => rfl) _ _

end Counting

/-! ## What happens to the queues -/

/-- The data of the entries of a socket, oldest first. -/
def queue (s : Psockett) : List (List Byte) := s.sendq.map Sendqt.data

def queueAt (net : Net) (k : Nat) : List (List Byte) :=
  ((net.socketnode[k]?).map queue).getD []

/-- Everything that writing the entry `e` to the socket puts on the wire is there. -/
def OnWire (before : Byte) (socket : Int) (s : Psockett) (wire : List Output) (e : List Byte) :
    Prop :=
  ∃ u outs, entryOutput before socket s e = some (u, outs) ∧ outs ⊆ wire

section Queues

variable {net net' : Net} {k : Nat} {s s' : Psockett} {socket : Int}

theorem queueAt_eq (hs : net.socketnode[k]? = some s) : queueAt net k = queue s := by
  simp [queueAt, hs]

theorem queueAt_touch (hs : net.socketnode[k]? = some s) (u : Bool) (outs : List Output) :
    queueAt (net.touch k s' u outs) k = queue s' :=
  queueAt_eq (node_touch hs u outs)

theorem queueAt_touch_ne {j : Nat} (h : j ≠ k) (u : Bool) (outs : List Output) :
    queueAt (net.touch k s' u outs) j = queueAt net j := by
  simp only [queueAt, node_touch_ne h]

theorem entryOutput_congr (h : s'.fixed = s.fixed) (before : Byte) (socket : Int)
    (e : List Byte) : entryOutput before socket s' e = entryOutput before socket s e := by
  have hflag : s'.flag = s.flag := congrArg (fun p => p.2.1) h
  have hflow : s'.dataflow = s.dataflow := congrArg (fun p => p.2.2.2.2.1) h
  simp only [entryOutput, textOutput, hflag, hflow]

theorem OnWire.mono {before : Byte} {wire wire' : List Output} {e : List Byte}
    (h : OnWire before socket s wire e) (hsub : wire ⊆ wire') : OnWire before socket s wire' e := by
  rcases h with ⟨u, outs, hout, hmem⟩
  exact ⟨u, outs, hout, List.Subset.trans hmem hsub⟩

/-- What one step of the sending side does to the queues: only that of the addressed socket may
lose entries, which are written. -/
structure QueueStep (socket : Int) (app : Nat → List (List Byte)) (net net' : Net) : Prop where
  nodes : SameNodes net net'
  wire : net.wire ⊆ net'.wire
  other : ∀ i, getpsocketbysock net socket ≠ some i → queueAt net' i = queueAt net i ++ app i
  addressed : ∀ i s, getpsocketbysock net socket = some i → net.socketnode[i]? = some s →
    Trim (OnWire net.before socket s net'.wire) (queueAt net i) (app i) (queueAt net' i)

theorem QueueStep.refl (socket : Int) (net : Net) : QueueStep socket (fun _ => []) net net where
  nodes := SameNodes.refl net
  wire := List.Subset.refl _
  other := by simp
  addressed := fun i _ _ _ => by simpa using Trim.keep _ (queueAt net i) []

/-- Two steps, when at most one of them has something for each socket. -/
theorem QueueStep.trans {net'' : Net} {app app' : Nat → List (List Byte)}
    (h : QueueStep socket app net net') (h' : QueueStep socket app' net' net'')
    (hdis : ∀ i, app i = [] ∨ app' i = []) :
    QueueStep socket (fun i => app i ++ app' i) net net'' := by
  have haddr := h.nodes.getpsocketbysock socket
  refine ⟨h.nodes.trans h'.nodes, List.Subset.trans h.wire h'.wire, ?_, ?_⟩
  · intro i hi
    rw [h'.other i (by rwa [haddr]), h.other i hi, List.append_assoc]
  · intro i s hi hs
    rcases h.nodes.node hs with ⟨s', hs', hfix⟩
    have hout : ∀ e, OnWire net'.before socket s' net''.wire e →
        OnWire net.before socket s net''.wire e := by
      rintro e ⟨u, outs, ho, hsub⟩
      exact ⟨u, outs, by rwa [← entryOutput_congr hfix, ← h.nodes.before], hsub⟩
    have h₁ := (h.addressed i s hi hs).mono (fun e he => he.mono h'.wire)
    have h₂ := (h'.addressed i s' (by rwa [haddr]) hs').mono hout
    rcases hdis i with happ | happ
    · rw [happ] at h₁
      simpa [happ] using h₁.pop_then h₂
    · rw [happ] at h₂
      simpa [happ] using h₁.then_pop h₂

theorem flushsendq_step {forced : Bool} (h : flushsendq socket forced net = some net') :
    QueueStep socket (fun _ => []) net net' := by
  have hresult := flushsendq_result net socket forced
  rw [h] at hresult
  cases hresult with
  | idle _ =>
      exact QueueStep.refl socket net
  | @kept k s s' msq rest outs hhead _ hkept _ =>
      refine ⟨sameNodes_touch hhead.sock hkept.fixed _ _, by simp [Net.touch], ?_, ?_⟩
      · intro i hi
        have hik : i ≠ k := fun e => hi (e ▸ hhead.node)
        simp [queueAt_touch_ne hik]
      · intro i t hi ht
        have hik : i = k := Option.some.inj (hi.symm.trans hhead.node)
        subst hik
        have hsame : queueAt (net.touch i s' net.urgent outs) i = queueAt net i := by
          rw [queueAt_touch hhead.sock, queueAt_eq hhead.sock]
          exact hkept.sendq
        rw [hsame]
        simpa using Trim.keep _ (queueAt net i) []
  | @sent k s s' msq rest u outs hhead _ hout hpop =>
      refine ⟨sameNodes_touch hhead.sock hpop.fixed _ _, by simp [Net.touch], ?_, ?_⟩
      · intro i hi
        have hik : i ≠ k := fun e => hi (e ▸ hhead.node)
        simp [queueAt_touch_ne hik]
      · intro i t hi ht
        have hik : i = k := Option.some.inj (hi.symm.trans hhead.node)
        subst hik
        have hst : t = s := Option.some.inj (ht.symm.trans hhead.sock)
        subst hst
        have hold : queueAt net i = msq.data :: rest.map Sendqt.data := by
          simp [queueAt_eq hhead.sock, queue, hhead.sendq]
        have hnew : queueAt (net.touch i s' u outs) i = rest.map Sendqt.data := by
          simp [queueAt_touch hhead.sock, queue, hpop.sendq]
        rw [hold, hnew]
        exact Trim.pop ⟨u, outs, hout, by simp [Net.touch]⟩

/-- A forced flush of a connected socket that is no server takes an entry, if there is one. -/
theorem flushsendq_forced_length (h : flushsendq socket true net = some net')
    (hk : getpsocketbysock net socket = some k) (hs : net.socketnode[k]? = some s)
    (hconn : s.flag = SOC_CONN) (hserver : s.serversocket = false) :
    (queueAt net' k).length = (queueAt net k).length - 1 := by
  cases hq : s.sendq with
  | nil =>
      have hnone : flushsendq socket true net = some net := by simp [flushsendq, hk, hs, hq]
      have hsame : net' = net := Option.some.inj (h.symm.trans hnone)
      simp [hsame, queueAt_eq hs, queue, hq]
  | cons msq rest =>
      have hhead : Head net socket k s msq rest := ⟨hk, hs, hq⟩
      have htakes : Takes s true msq :=
        ⟨Nat.le_of_eq hconn.symm, Or.inl rfl, fun hc => absurd (hserver.symm.trans hc) (by simp)⟩
      have hresult := flushsendq_head true hhead
      rw [h] at hresult
      cases hresult with
      | idle hno =>
          exact absurd htakes (hno _ _ _ _ hhead)
      | kept hhead' hno _ _ =>
          rcases hhead.unique hhead' with ⟨_, rfl, rfl, _⟩
          exact absurd htakes hno
      | sent hhead' _ _ hpop =>
          rcases hhead.unique hhead' with ⟨rfl, rfl, rfl, rfl⟩
          simp [queueAt_touch hs, queueAt_eq hs, queue, hq, hpop.sendq]

/-- A step that only puts entries at the end of one queue. -/
theorem touch_step (hs : net.socketnode[k]? = some s) {app : List (List Byte)}
    (hq : queue s' = queue s ++ app) (hfix : s'.fixed = s.fixed) (socket : Int) (u : Bool) :
    QueueStep socket (fun i => if i = k then app else []) net (net.touch k s' u []) := by
  have hqueue : ∀ i, queueAt (net.touch k s' u []) i =
      queueAt net i ++ if i = k then app else [] := by
    intro i
    by_cases hi : i = k
    · subst hi
      simp [queueAt_touch hs, queueAt_eq hs, hq]
    · simp [queueAt_touch_ne hi, hi]
  refine ⟨sameNodes_touch hs hfix _ _, by simp [Net.touch], fun i _ => hqueue i, ?_⟩
  intro i t _ _
  rw [hqueue i]
  exact Trim.keep _ _ _

end Queues

/-! ## `addq` -/

section Addq

variable {net net' : Net} {socket : Int} {data : List Byte} {sqdelay : Int} {j : Nat}
  {s : Psockett}

/-- One round: the counter goes up, the addressed socket may be flushed, the entry is appended. -/
theorem addEntry_cases (hs : net.socketnode[j]? = some s)
    (h : addEntry socket data sqdelay j net = some net') :
    ∃ net₂ t, net₂.socketnode[j]? = some t ∧
      net' = net₂.touch j (t.append ⟨data, sqdelay⟩) net₂.urgent [] ∧
      (if (MAX_SENDQ : Int) < s.entrys + 1 ∧ s.serverstoned = 0 then
        flushsendq socket true (net.touch j s.countUp net.urgent []) =
          some net₂
      else net₂ = net.touch j s.countUp net.urgent []) := by
  have hnode : (net.touch j s.countUp net.urgent []).socketnode[j]? =
      some s.countUp := node_touch hs net.urgent []
  simp only [addEntry, modify_eq_touch hs, hnode, Option.any_some, decide_eq_true_eq,
    Option.map_eq_some_iff] at h
  rcases h with ⟨net₂, hcall, rfl⟩
  have hflush : (if (MAX_SENDQ : Int) < s.entrys + 1 ∧ s.serverstoned = 0 then
      flushsendq socket true (net.touch j s.countUp net.urgent [])
    else some (net.touch j s.countUp net.urgent [])) = some net₂ := hcall
  have hnode₂ : ∃ t, net₂.socketnode[j]? = some t := by
    by_cases hfull : (MAX_SENDQ : Int) < s.entrys + 1 ∧ s.serverstoned = 0
    · rw [if_pos hfull] at hflush
      rcases (flushsendq_step hflush).nodes.node hnode with ⟨t, ht, _⟩
      exact ⟨t, ht⟩
    · rw [if_neg hfull, Option.some.injEq] at hflush
      exact ⟨_, hflush ▸ hnode⟩
  rcases hnode₂ with ⟨t, ht⟩
  refine ⟨net₂, t, ht, modify_eq_touch ht _, ?_⟩
  by_cases hfull : (MAX_SENDQ : Int) < s.entrys + 1 ∧ s.serverstoned = 0
  · rw [if_pos hfull] at hflush ⊢
    exact hflush
  · rw [if_neg hfull, Option.some.injEq] at hflush
    rw [if_neg hfull]
    exact hflush.symm

/-- With room in the queue the entry is just appended. -/
theorem addEntry_room (hs : net.socketnode[j]? = some s) (socket : Int) (data : List Byte)
    (sqdelay : Int) (hroom : ¬ ((MAX_SENDQ : Int) < s.entrys + 1 ∧ s.serverstoned = 0)) :
    addEntry socket data sqdelay j net =
      some (net.touch j (s.countUp.append ⟨data, sqdelay⟩) net.urgent []) := by
  have hnode : (net.touch j s.countUp net.urgent []).socketnode[j]? = some s.countUp :=
    node_touch hs net.urgent []
  have hfull : ¬ ((MAX_SENDQ : Int) < s.countUp.entrys ∧ s.countUp.serverstoned = 0) := hroom
  simp only [addEntry, modify_eq_touch hs, hnode, Option.any_some, decide_eq_true_eq, hfull,
    if_false, Option.map_some]
  exact congrArg some ((modify_eq_touch hnode _).trans (touch_touch _ _ _ _))

/-- Without room the addressed socket is flushed first. -/
theorem addEntry_full (hs : net.socketnode[j]? = some s) (socket : Int) (data : List Byte)
    (sqdelay : Int) (hfull : (MAX_SENDQ : Int) < s.entrys + 1 ∧ s.serverstoned = 0) :
    addEntry socket data sqdelay j net =
      (flushsendq socket true (net.touch j s.countUp net.urgent [])).map fun net =>
        net.modify j fun s => s.append ⟨data, sqdelay⟩ := by
  have hnode : (net.touch j s.countUp net.urgent []).socketnode[j]? = some s.countUp :=
    node_touch hs net.urgent []
  have hfull' : (MAX_SENDQ : Int) < s.countUp.entrys ∧ s.countUp.serverstoned = 0 := hfull
  simp only [addEntry, modify_eq_touch hs, hnode, Option.any_some, decide_eq_true_eq]
  rw [if_pos hfull']

theorem addEntry_step (hs : net.socketnode[j]? = some s)
    (h : addEntry socket data sqdelay j net = some net') :
    QueueStep socket (fun i => if i = j then [data] else []) net net' := by
  rcases addEntry_cases hs h with ⟨net₂, t, ht, rfl, hflush⟩
  have h₁ : QueueStep socket (fun _ => []) net
      (net.touch j s.countUp net.urgent []) := by
    have hq : queue s.countUp = queue s ++ [] := by simp [queue, Psockett.countUp]
    simpa using touch_step hs hq rfl socket net.urgent
  have h₂ : QueueStep socket (fun _ => [])
      (net.touch j s.countUp net.urgent []) net₂ := by
    by_cases hfull : (MAX_SENDQ : Int) < s.entrys + 1 ∧ s.serverstoned = 0
    · rw [if_pos hfull] at hflush
      exact flushsendq_step hflush
    · rw [if_neg hfull] at hflush
      rw [hflush]
      exact QueueStep.refl _ _
  have hq : queue (t.append ⟨data, sqdelay⟩) = queue t ++ [data] := by
    simp [queue, Psockett.append]
  have h₃ := touch_step ht hq rfl socket net₂.urgent
  have h₁₂ := h₁.trans h₂ (fun _ => Or.inl rfl)
  simpa using h₁₂.trans h₃ (fun _ => Or.inl rfl)

theorem addEntry_accounting (hs : net.socketnode[j]? = some s)
    (h : addEntry socket data sqdelay j net = some net') (hacc : Accounting net) :
    Accounting net' := by
  rcases addEntry_cases hs h with ⟨net₂, t, ht, rfl, hflush⟩
  have hs' := hacc j s hs
  -- While the entry is on its way the counter of this socket is one ahead.
  have h₁ : Counted (fun i => if i = j then 1 else 0)
      (net.touch j s.countUp net.urgent []) := by
    refine Counted.touch hacc hs ?_ ?_ _ _
    · exact ⟨by simp [Psockett.countUp, hs'.entrys], hs'.unstoned⟩
    · intro i hi
      simp [hi]
  have h₂ : Counted (fun i => if i = j then 1 else 0) net₂ := by
    by_cases hfull : (MAX_SENDQ : Int) < s.entrys + 1 ∧ s.serverstoned = 0
    · rw [if_pos hfull] at hflush
      exact flushsendq_counted hflush h₁
    · rw [if_neg hfull] at hflush
      rw [hflush]
      exact h₁
  have ht' := h₂ j t ht
  refine Counted.touch h₂ ht ?_ ?_ _ _
  · exact ⟨by simp [Psockett.append, ht'.entrys], ht'.unstoned⟩
  · intro i hi
    simp [hi]

/-- Connected, no server, and with all the entries it may have. -/
def Overfull (s : Psockett) : Prop :=
  s.flag = SOC_CONN ∧ s.serversocket = false ∧ MAX_SENDQ ≤ s.sendq.length

/-- The addressed socket, when full, does not grow by its own entry. -/
theorem addEntry_bounded (hs : net.socketnode[j]? = some s)
    (h : addEntry socket data sqdelay j net = some net') (hacc : Accounting net)
    (haddr : getpsocketbysock net socket = some j) (hover : Overfull s) :
    (queueAt net' j).length ≤ s.sendq.length := by
  rcases addEntry_cases hs h with ⟨net₂, t, ht, rfl, hflush⟩
  rcases hover with ⟨hconn, hserver, hmax⟩
  have hs' := hacc j s hs
  have hfull : (MAX_SENDQ : Int) < s.entrys + 1 ∧ s.serverstoned = 0 := by
    refine ⟨?_, hs'.unstoned hserver⟩
    have hcount : s.entrys = s.sendq.length + 0 := hs'.entrys
    omega
  rw [if_pos hfull] at hflush
  have hsame : SameNodes net (net.touch j s.countUp net.urgent []) :=
    sameNodes_touch hs (rfl : s.countUp.fixed = s.fixed) net.urgent []
  have hlen := flushsendq_forced_length hflush ((hsame.getpsocketbysock socket).trans haddr)
    (node_touch hs net.urgent []) hconn hserver
  have hold : (queueAt (net.touch j s.countUp net.urgent []) j).length =
      s.sendq.length := by
    simp [queueAt_touch hs, queue, Psockett.countUp]
  have hnew : (queueAt net₂ j).length = t.sendq.length := by
    simp [queueAt_eq ht, queue]
  rw [hold, hnew] at hlen
  rw [queueAt_touch ht]
  have hpos : 0 < MAX_SENDQ := by decide
  simp only [queue, Psockett.append, List.map_append, List.length_append, List.length_map, List.map_cons,
    List.map_nil, List.length_cons, List.length_nil]
  omega

/-! ## The group loop -/

variable {group : Nat}

/-- The members behind node `k` get the entry, each once. -/
theorem groupLoop_step (fuel k : Nat) (hfuel : net.socketnode.length ≤ k + 1 + fuel)
    (h : groupLoop socket data sqdelay group fuel k net = some net') :
    QueueStep socket
      (fun i => if k < i ∧ isMember net group (-1) i = true then [data] else []) net net' := by
  induction fuel generalizing k net with
  | zero =>
      have hnone : ∀ i, ¬ (k < i ∧ isMember net group (-1) i = true) := by
        rintro i ⟨hki, hm⟩
        have hlt := lt_of_isMember hm
        omega
      have hsame : net' = net := (Option.some.inj h).symm
      rw [hsame]
      simpa [hnone] using QueueStep.refl socket net
  | succ fuel ih =>
      cases hnext : getpsocketbygroup net (k + 1) group (-1) with
      | none =>
          have hnone : ∀ i, ¬ (k < i ∧ isMember net group (-1) i = true) := by
            rintro i ⟨hki, hm⟩
            exact absurd (hm.symm.trans (getpsocketbygroup_eq_none hnext hki)) (by simp)
          simp only [groupLoop, hnext, Option.some.injEq] at h
          rw [← h]
          simpa [hnone] using QueueStep.refl socket net
      | some j =>
          rcases getpsocketbygroup_eq_some hnext with ⟨hkj, hm, hbetween⟩
          simp only [groupLoop, hnext] at h
          rcases Option.bind_eq_some_iff.1 h with ⟨net₁, hentry, hloop⟩
          rcases node_of_isMember hm with ⟨s, hs⟩
          have h₁ := addEntry_step hs hentry
          have hlen : net₁.socketnode.length = net.socketnode.length := by
            simpa using congrArg List.length h₁.nodes.nodes
          have h₂ := ih j (by omega) hloop
          simp only [h₁.nodes.isMember] at h₂
          -- The node that is served first is not among the ones behind it.
          have hdis : ∀ i, (if i = j then [data] else []) = [] ∨
              (if j < i ∧ isMember net group (-1) i = true then [data] else []) = [] := by
            intro i
            by_cases hi : i = j
            · exact Or.inr (by simp [hi])
            · exact Or.inl (by simp [hi])
          have happ : (fun i => (if i = j then [data] else []) ++
              if j < i ∧ isMember net group (-1) i = true then [data] else []) =
              fun i => if k < i ∧ isMember net group (-1) i = true then [data] else [] := by
            funext i
            -- Between `k` and `j` there is no member of the group.
            rcases Nat.lt_trichotomy i j with hij | rfl | hij
            · have hno : ¬ (k < i ∧ isMember net group (-1) i = true) := by
                rintro ⟨hki, hmi⟩
                exact absurd (hmi.symm.trans (hbetween i hki hij)) (by simp)
              have hji : ¬ j < i := Nat.lt_asymm hij
              simp [hno, Nat.ne_of_lt hij, hji]
            · have hki : k < i := hkj
              simp [hki, hm]
            · have hki : k < i := by omega
              simp [hki, hij, Nat.ne_of_gt hij]
          exact happ ▸ h₁.trans h₂ hdis

theorem groupLoop_accounting (fuel k : Nat) (hacc : Accounting net)
    (h : groupLoop socket data sqdelay group fuel k net = some net') : Accounting net' := by
  induction fuel generalizing k net with
  | zero =>
      cases h
      exact hacc
  | succ fuel ih =>
      cases hnext : getpsocketbygroup net (k + 1) group (-1) with
      | none =>
          simp only [groupLoop, hnext, Option.some.injEq] at h
          exact h ▸ hacc
      | some j =>
          simp only [groupLoop, hnext] at h
          rcases Option.bind_eq_some_iff.1 h with ⟨net₁, hentry, hloop⟩
          rcases node_of_isMember (getpsocketbygroup_eq_some hnext).2.1 with ⟨s, hs⟩
          exact ih j (addEntry_accounting hs hentry hacc) hloop

theorem Overfull.congr {s' : Psockett} (hover : Overfull s) (hfix : s'.fixed = s.fixed)
    (hlen : s.sendq.length ≤ s'.sendq.length) : Overfull s' := by
  have hflag : s'.flag = s.flag := congrArg (fun p => p.2.1) hfix
  have hserver : s'.serversocket = s.serversocket := congrArg (fun p => p.2.2.2.2.2) hfix
  exact ⟨hflag.trans hover.1, hserver.trans hover.2.1, Nat.le_trans hover.2.2 hlen⟩

/-- The addressed socket, when it is a full member behind node `k`, does not grow. -/
theorem groupLoop_bounded (fuel k : Nat) (hfuel : net.socketnode.length ≤ k + 1 + fuel)
    (hacc : Accounting net) (h : groupLoop socket data sqdelay group fuel k net = some net')
    {a : Nat} (haddr : getpsocketbysock net socket = some a)
    (hs : net.socketnode[a]? = some s) (hover : Overfull s) (hka : k < a)
    (hm : isMember net group (-1) a = true) : (queueAt net' a).length ≤ s.sendq.length := by
  induction fuel generalizing k net s with
  | zero =>
      -- The loop is behind the last node, where no member is.
      have hlt := lt_of_isMember hm
      omega
  | succ fuel ih =>
      cases hnext : getpsocketbygroup net (k + 1) group (-1) with
      | none =>
          exact absurd (hm.symm.trans (getpsocketbygroup_eq_none hnext hka)) (by simp)
      | some j =>
          rcases getpsocketbygroup_eq_some hnext with ⟨hkj, hmj, hbetween⟩
          simp only [groupLoop, hnext] at h
          rcases Option.bind_eq_some_iff.1 h with ⟨net₁, hentry, hloop⟩
          rcases node_of_isMember hmj with ⟨t, ht⟩
          have h₁ := addEntry_step ht hentry
          have hacc₁ := addEntry_accounting ht hentry hacc
          have haddr₁ := (h₁.nodes.getpsocketbysock socket).trans haddr
          have hlen : net₁.socketnode.length = net.socketnode.length := by
            simpa using congrArg List.length h₁.nodes.nodes
          rcases h₁.nodes.node hs with ⟨s₁, hs₁, hfix₁⟩
          have hrest := (groupLoop_step fuel j (by omega) hloop).addressed a s₁ haddr₁ hs₁
          have hqs : (queueAt net a).length = s.sendq.length := by simp [queueAt_eq hs, queue]
          have hqs₁ : (queueAt net₁ a).length = s₁.sendq.length := by
            simp [queueAt_eq hs₁, queue]
          by_cases hja : j = a
          · -- Its own round, after which it can only lose entries.
            subst hja
            have hst : t = s := Option.some.inj (ht.symm.trans hs)
            have hround := addEntry_bounded hs hentry hacc haddr hover
            have hlater := hrest.length_le
            simp only [Nat.lt_irrefl, false_and, if_false, List.length_nil] at hlater
            omega
          · -- A round of another member: it loses an entry now, or is still full later.
            have hnow := (h₁.addressed a s haddr hs).length_le
            have haj : ¬ a = j := fun e => hja e.symm
            simp only [haj, if_false, List.length_nil, Nat.add_zero] at hnow
            by_cases hsame : s₁.sendq.length = s.sendq.length
            · have hover₁ := hover.congr hfix₁ (Nat.le_of_eq hsame.symm)
              have hja' : j < a := by
                by_contra hge
                exact absurd (hm.symm.trans (hbetween a hka (by omega))) (by simp)
              have hm₁ := (h₁.nodes.isMember group (-1) a).trans hm
              have hlater := ih j (by omega) hacc₁ hloop haddr₁ hs₁ hover₁ hja' hm₁
              omega
            · have hlater := hrest.length_le
              have happ : (if j < a ∧ isMember net₁ group (-1) a = true then [data]
                  else []).length ≤ 1 := by
                split
                · simp
                · simp
              omega

end Addq

/-- The nodes that `addq` appends to: the addressed socket, or the members of its group behind the
first node. -/
def appends (net : Net) (socket : Int) (i : Nat) : Bool :=
  match getpsocketbysock net socket with
  | none => false
  | some a =>
      (net.socketnode[a]?).any fun s =>
        if s.sockgroup = 0 then decide (i = a)
        else decide (0 < i) && isMember net s.sockgroup (-1) i

section Whole

variable {net net' : Net} {socket : Int} {data : List Byte} {sqdelay : Int}

/-- `addq` is one round for a socket of its own, and the loop for a group. -/
theorem addq_cases (h : addq socket data sqdelay net = some net') :
    (getpsocketbysock net socket = none ∧ net' = { net with urgent := true }) ∨
      ∃ a s, getpsocketbysock net socket = some a ∧ net.socketnode[a]? = some s ∧
        ((s.sockgroup = 0 ∧ addEntry socket data sqdelay a net = some net') ∨
          (s.sockgroup ≠ 0 ∧ groupLoop socket data sqdelay s.sockgroup net.socketnode.length 0 net =
            some net')) := by
  cases ha : getpsocketbysock net socket with
  | none =>
      simp only [addq, ha, Option.bind_none, Option.map_none, Option.getD_none, ne_eq,
        not_true_eq_false, if_false, Option.some.injEq] at h
      exact Or.inl ⟨rfl, h.symm⟩
  | some a =>
      rcases node_of_getpsocketbysock ha with ⟨s, hs, _⟩
      refine Or.inr ⟨a, s, rfl, hs, ?_⟩
      by_cases hgroup : s.sockgroup = 0
      · refine Or.inl ⟨hgroup, ?_⟩
        simpa [addq, ha, hs, hgroup] using h
      · refine Or.inr ⟨hgroup, ?_⟩
        simpa [addq, ha, hs, hgroup] using h

theorem addq_step (h : addq socket data sqdelay net = some net') :
    QueueStep socket (fun i => if appends net socket i = true then [data] else []) net net' := by
  rcases addq_cases h with ⟨ha, rfl⟩ | ⟨a, s, ha, hs, ⟨hgroup, hentry⟩ | ⟨hgroup, hloop⟩⟩
  · have hno : ∀ i, appends net socket i = false := by simp [appends, ha]
    refine ⟨⟨rfl, rfl, rfl⟩, List.Subset.refl _, fun i _ => ?_, fun i _ hi => ?_⟩
    · simp [hno, queueAt]
    · exact absurd (ha.symm.trans hi) (by simp)
  · have happ : ∀ i, appends net socket i = decide (i = a) := by simp [appends, ha, hs, hgroup]
    simpa [happ] using addEntry_step hs hentry
  · have happ : ∀ i, appends net socket i =
        (decide (0 < i) && isMember net s.sockgroup (-1) i) := by
      simp [appends, ha, hs, hgroup]
    simpa [happ] using groupLoop_step _ 0 (by omega) hloop

theorem addq_accounting (h : addq socket data sqdelay net = some net') (hacc : Accounting net) :
    Accounting net' := by
  rcases addq_cases h with ⟨_, rfl⟩ | ⟨a, s, _, hs, ⟨_, hentry⟩ | ⟨_, hloop⟩⟩
  · exact hacc
  · exact addEntry_accounting hs hentry hacc
  · exact groupLoop_accounting _ 0 hacc hloop

/-- `writesock` on a socket: to the queue or past it, whatever becomes of `urgent` first. -/
theorem writesock_eq {text : CStr} (hk : getpsocketbysock net socket = some k)
    (hs : net.socketnode[k]? = some s) :
    ∃ u : Bool, writesock socket text net =
      if u = false ∧ s.nowfds = false then addq socket (text ++ [0]) 0 { net with urgent := u }
      else writesockNow k socket text { net with urgent := u } := by
  by_cases hflag : s.flag < SOC_CONN
  · exact ⟨false, by simp [writesock, hk, hs, hflag]⟩
  · exact ⟨net.urgent, by simp [writesock, hk, hs, hflag]⟩

theorem writesock_accounting {text : CStr} (h : writesock socket text net = some net')
    (hacc : Accounting net) : Accounting net' := by
  cases hk : getpsocketbysock net socket with
  | none =>
      simp only [writesock, hk, Option.some.injEq] at h
      exact h ▸ hacc
  | some k =>
      rcases node_of_getpsocketbysock hk with ⟨s, hs, _⟩
      rcases writesock_eq hk hs with ⟨u, hcall⟩
      rw [hcall] at h
      have hacc' : Accounting { net with urgent := u } := hacc
      by_cases hqueue : u = false ∧ s.nowfds = false
      · rw [if_pos hqueue] at h
        exact addq_accounting h hacc'
      · rw [if_neg hqueue] at h
        have hs' : ({ net with urgent := u } : Net).socketnode[k]? = some s := hs
        exact writesockNow_counted hs' h hacc'

theorem writesock_STREAM_accounting (h : writesock_STREAM socket data net = some net')
    (hacc : Accounting net) : Accounting net' := by
  cases hk : getpsocketbysock net socket with
  | none =>
      simp only [writesock_STREAM, hk, Option.some.injEq] at h
      exact h ▸ hacc
  | some k =>
      rcases node_of_getpsocketbysock hk with ⟨s, hs, _⟩
      by_cases hu : net.urgent = false
      · simp only [writesock_STREAM, hk, hu, if_true] at h
        exact addq_accounting h hacc
      · simp only [writesock_STREAM, hk] at h
        rw [if_neg hu, writesockStreamNow_eq hs, Option.some.injEq] at h
        rw [← h]
        refine Counted.touch hacc hs ?_ (fun _ _ => rfl) _ _
        exact ⟨(hacc k s hs).entrys, (hacc k s hs).unstoned⟩

/-- No full, connected socket that is no server grows; its oldest entry goes to it instead. -/
def Bounded (socket : Int) (net net' : Net) : Prop :=
  ∀ i s, net.socketnode[i]? = some s → appends net socket i = true → Overfull s →
    (queueAt net' i).length ≤ s.sendq.length ∧
      ∀ e ∈ (queue s).head?, OnWire net.before s.syssock s net'.wire e

/-- The bound holds at a call if and only if no full member other than the addressed socket is
appended to. -/
theorem addq_bounded_iff (h : addq socket data sqdelay net = some net') (hacc : Accounting net) :
    Bounded socket net net' ↔
      ∀ i s, net.socketnode[i]? = some s → appends net socket i = true → Overfull s →
        getpsocketbysock net socket = some i := by
  have hstep := addq_step h
  constructor
  · intro hb i s hs happ hover
    by_contra hne
    have hlen := (hb i s hs happ hover).1
    rw [hstep.other i hne, queueAt_eq hs, if_pos happ] at hlen
    simp only [queue, List.length_append, List.length_map, List.length_cons,
      List.length_nil] at hlen
    omega
  · intro hguard i s hs happ hover
    have ha := hguard i s hs happ hover
    have hsock : s.syssock = socket := by
      rcases node_of_getpsocketbysock ha with ⟨t, ht, hsys⟩
      rw [← Option.some.inj (ht.symm.trans hs)]
      exact hsys
    have hle : (queueAt net' i).length ≤ s.sendq.length := by
      rcases addq_cases h with ⟨hnone, _⟩ | ⟨a, t, ha', ht, ⟨_, hentry⟩ | ⟨hgroup, hloop⟩⟩
      · exact absurd (hnone.symm.trans ha) (by simp)
      · have hia : a = i := Option.some.inj (ha'.symm.trans ha)
        subst hia
        have hts : t = s := Option.some.inj (ht.symm.trans hs)
        subst hts
        exact addEntry_bounded ht hentry hacc ha hover
      · have hia : a = i := Option.some.inj (ha'.symm.trans ha)
        subst hia
        have hts : t = s := Option.some.inj (ht.symm.trans hs)
        subst hts
        have hmem : 0 < a ∧ isMember net t.sockgroup (-1) a = true := by
          simpa [appends, ha, ht, hgroup] using happ
        exact groupLoop_bounded _ 0 (by omega) hacc hloop ha ht hover hmem.1 hmem.2
    have htrim := hstep.addressed i s ha hs
    rw [if_pos happ, queueAt_eq hs] at htrim
    refine ⟨hle, hsock ▸ htrim.popped (by simp) ?_⟩
    simpa [queue] using hle

end Whole

/-! ## Reachable states -/

inductive SendCall where
  | writesock (socket : Int) (data : CStr)
  | writesock_URGENT (socket : Int) (data : CStr)
  | writesock_STREAM (socket : Int) (data : List Byte)
  | writesock_DELAY (socket : Int) (data : CStr) (delay : Int)
  | ssnprintf (sock : Int) (text : CStr)
  | flushsendq (socket : Int) (forced : Bool)
  | other

/-- What the rest of the program does to the sockets: it makes new ones, removes some, moves them
about and changes their flags, groups and timers, but never a queue or its counter. -/
def Undisturbed (net net' : Net) : Prop :=
  ∀ s' ∈ net'.socketnode, (s'.serversocket = false → s'.serverstoned = 0) ∧
    ((s'.sendq = [] ∧ s'.entrys = 0) ∨
      ∃ s ∈ net.socketnode, s'.entrys = s.entrys ∧ s'.sendq.length = s.sendq.length)

inductive SendStep : Net → SendCall → Net → Prop where
  | writesock {net net' : Net} {socket : Int} {data : CStr} :
      PsyBnc.writesock socket data net = some net' → SendStep net (.writesock socket data) net'
  | writesock_URGENT {net net' : Net} {socket : Int} {data : CStr} :
      PsyBnc.writesock_URGENT socket data net = some net' →
      SendStep net (.writesock_URGENT socket data) net'
  | writesock_STREAM {net net' : Net} {socket : Int} {data : List Byte} :
      PsyBnc.writesock_STREAM socket data net = some net' →
      SendStep net (.writesock_STREAM socket data) net'
  | writesock_DELAY {net net' : Net} {socket : Int} {data : CStr} {delay : Int} :
      PsyBnc.writesock_DELAY socket data delay net = some net' →
      SendStep net (.writesock_DELAY socket data delay) net'
  | ssnprintf {net net' : Net} {sock : Int} {text : CStr} :
      PsyBnc.ssnprintf sock text net = some net' → SendStep net (.ssnprintf sock text) net'
  | flushsendq {net net' : Net} {socket : Int} {forced : Bool} :
      PsyBnc.flushsendq socket forced net = some net' →
      SendStep net (.flushsendq socket forced) net'
  | other {net net' : Net} : Undisturbed net net' → SendStep net .other net'

theorem sendStep_accounting {net net' : Net} {call : SendCall} (hacc : Accounting net)
    (h : SendStep net call net') : Accounting net' := by
  cases h with
  | writesock h =>
      exact writesock_accounting h hacc
  | writesock_URGENT h =>
      exact writesock_accounting h hacc
  | writesock_STREAM h =>
      exact writesock_STREAM_accounting h hacc
  | writesock_DELAY h =>
      exact addq_accounting h hacc
  | ssnprintf h =>
      exact writesock_accounting h hacc
  | flushsendq h =>
      exact flushsendq_counted h hacc
  | other h =>
      intro j s' hs'
      rcases h s' (List.mem_of_getElem? hs') with ⟨hserver, ⟨hq, hn⟩ | ⟨s, hs, hn, hq⟩⟩
      · exact ⟨by simp [hq, hn], hserver⟩
      · rcases List.getElem?_of_mem hs with ⟨i, hi⟩
        refine ⟨?_, hserver⟩
        rw [hn, hq]
        exact (hacc i s hi).entrys

/-- A connection with `n` lines waiting. -/
def waitingSock (group n : Nat) : Psockett where
  syssock := 5
  flag := SOC_CONN
  sockgroup := group
  entrys := n
  sendq := List.replicate n ⟨ascii "x" ++ [0], 0⟩

/-- A listener and two connections. -/
def waiting (group n : Nat) : Net where
  socketnode := [{ syssock := 3 }, { syssock := 4, flag := SOC_CONN, sockgroup := group },
    waitingSock group n]

theorem writesock_waiting {n : Nat} (hn : n < 1000) :
    writesock 5 (ascii "x") (waiting 0 n) = some (waiting 0 (n + 1)) := by
  have hnode : (waiting 0 n).socketnode[2]? = some (waitingSock 0 n) := rfl
  have hroom : (waitingSock 0 n).entrys + 1 ≤ MAX_SENDQ := by
    have hn' : (waitingSock 0 n).entrys = n := rfl
    have hmax : MAX_SENDQ = 1000 := rfl
    omega
  have hsock : (waitingSock 0 n).countUp.append ⟨ascii "x" ++ [0], 0⟩ = waitingSock 0 (n + 1) := by
    simp only [waitingSock, Psockett.countUp, Psockett.append, ← List.replicate_succ']
    rfl
  calc writesock 5 (ascii "x") (waiting 0 n)
      = addEntry 5 (ascii "x" ++ [0]) 0 2 (waiting 0 n) := rfl
    _ = some ((waiting 0 n).touch 2 (waitingSock 0 (n + 1)) false []) := by
        rw [addEntry_room hnode _ _ _ (fun h => absurd h.1 (Int.not_lt.2 hroom)), hsock]
        rfl
    _ = some (waiting 0 (n + 1)) := rfl

theorem undisturbed_waiting (group : Nat) {n : Nat} {net : Net}
    (hn : n = 0 ∨ net = waiting 0 n) : Undisturbed net (waiting group n) := by
  intro s' hs'
  simp only [waiting, List.mem_cons, List.not_mem_nil, or_false] at hs'
  rcases hs' with rfl | rfl | rfl
  · exact ⟨fun _ => rfl, Or.inl ⟨rfl, rfl⟩⟩
  · exact ⟨fun _ => rfl, Or.inl ⟨rfl, rfl⟩⟩
  · refine ⟨fun _ => rfl, ?_⟩
    rcases hn with rfl | rfl
    · exact Or.inl ⟨rfl, rfl⟩
    · exact Or.inr ⟨waitingSock 0 n, by simp [waiting], rfl, rfl⟩

/-- In every state that a run from an empty list of sockets reaches, the counters are right, and a
call of `addq` there keeps the bound if and only if no full member of the group but the addressed
one is appended to. -/
theorem sendq_accounting (calls : List SendCall) (net : Net)
    (hrun : Run SendStep { socketnode := [] } calls net) :
    (∀ s ∈ net.socketnode, s.entrys = s.sendq.length) ∧
      ∀ socket data sqdelay net', addq socket data sqdelay net = some net' →
        (Bounded socket net net' ↔
          ∀ i s, net.socketnode[i]? = some s → appends net socket i = true → Overfull s →
            getpsocketbysock net socket = some i) := by
  have hacc : Accounting net := by
    refine hrun.invariant (fun _ _ _ hs hst => sendStep_accounting hs hst) ?_
    intro j s hs
    simp at hs
  refine ⟨fun s hs => ?_, fun _ _ _ _ h => addq_bounded_iff h hacc⟩
  rcases List.getElem?_of_mem hs with ⟨i, hi⟩
  simpa using (hacc i s hi).entrys

/-! ## A full queue, alone and in a group -/

theorem waiting_reachable (n : Nat) (hn : n ≤ 1000) :
    ∃ calls, Run SendStep { socketnode := [] } calls (waiting 0 n) := by
  induction n with
  | zero =>
      have hstep : SendStep { socketnode := [] } .other (waiting 0 0) :=
        SendStep.other (undisturbed_waiting 0 (Or.inl rfl))
      exact ⟨[.other], Run.cons hstep (Run.nil _)⟩
  | succ n ih =>
      rcases ih (by omega) with ⟨calls, hrun⟩
      refine ⟨calls ++ [.writesock 5 (ascii "x")], hrun.append ?_⟩
      exact Run.cons (SendStep.writesock (writesock_waiting (by omega))) (Run.nil _)

/-- A connection is filled up, and its next line takes the place of the oldest one. -/
theorem sendq_accounting_full_queue :
    (∀ s ∈ (waiting 0 1000).socketnode, s.entrys = s.sendq.length) ∧
      ∃ net', addq 5 (ascii "y" ++ [0]) 0 (waiting 0 1000) = some net' ∧
        Bounded 5 (waiting 0 1000) net' := by
  rcases waiting_reachable 1000 (Nat.le_refl _) with ⟨calls, hrun⟩
  have hall := sendq_accounting calls (waiting 0 1000) hrun
  have hcall : (addq 5 (ascii "y" ++ [0]) 0 (waiting 0 1000)).isSome = true := by decide +kernel
  rcases Option.isSome_iff_exists.1 hcall with ⟨net', hnet'⟩
  refine ⟨hall.1, net', hnet', (hall.2 5 _ 0 net' hnet').2 fun i s hs happ _ => ?_⟩
  -- Outside a group only the addressed node is appended to.
  have hfirst : getpsocketbysock (waiting 0 1000) 5 = some 2 := rfl
  have hnode : (waiting 0 1000).socketnode[2]? = some (waitingSock 0 1000) := rfl
  have halone : (waitingSock 0 1000).sockgroup = 0 := rfl
  have hi : i = 2 := by
    rw [appends, hfirst] at happ
    simp only [hnode, Option.any_some, halone, if_pos, decide_eq_true_eq] at happ
    exact happ
  rw [hfirst, hi]

/-- A connection is filled up and then grouped with another one.  A line for that one is appended
to both, and the full queue grows. -/
theorem sendq_accounting_group :
    ∃ calls, Run SendStep { socketnode := [] } calls (waiting 7 1000) ∧
      ∃ net', addq 4 (ascii "y" ++ [0]) 0 (waiting 7 1000) = some net' ∧
        ¬ Bounded 4 (waiting 7 1000) net' := by
  rcases waiting_reachable 1000 (Nat.le_refl _) with ⟨calls, hrun⟩
  have hgroup : SendStep (waiting 0 1000) .other (waiting 7 1000) :=
    SendStep.other (undisturbed_waiting 7 (Or.inr rfl))
  refine ⟨_, hrun.append (Run.cons hgroup (Run.nil _)), ?_⟩
  have hcall : (addq 4 (ascii "y" ++ [0]) 0 (waiting 7 1000)).isSome = true := by decide +kernel
  rcases Option.isSome_iff_exists.1 hcall with ⟨net', hnet'⟩
  have hacc : Accounting (waiting 7 1000) :=
    (hrun.append (Run.cons hgroup (Run.nil _))).invariant
      (fun _ _ _ hs hst => sendStep_accounting hs hst) (fun j s hs => by simp at hs)
  refine ⟨net', hnet', fun hb => ?_⟩
  have haddr := (addq_bounded_iff hnet' hacc).1 hb 2 (waitingSock 7 1000) rfl (by decide)
    ⟨rfl, rfl, Nat.le_of_eq List.length_replicate.symm⟩
  exact absurd haddr (by decide)

end PsyBnc
