import PsyBnc.Lib.Flood
import PsyBnc.Lib.Run
import PsyBnc.Socket.Model
import PsyBnc.Intnet.Relay

/-!
# Relaying on a network of bouncers

Linked bouncers without a cycle, and one line that is sent into this network.  The line is relayed
as long as every bouncer that gets it knows whom it is for; then each of them is sent it once,
however the deliveries are ordered and whatever else happens to clients and channels meanwhile.
-/

namespace PsyBnc

open CLib

/-- Bouncers and their links; `peer v i` is the bouncer behind link number `i` of `v`. -/
structure Topology (V : Type) where
  graph : SimpleGraph V
  acyclic : graph.IsAcyclic
  links : V → List Datalink
  peer : V → Nat → V
  adj : ∀ v, ∀ l ∈ links v, graph.Adj v (peer v l.uid)
  uids : ∀ v, ((links v).map Datalink.uid).Nodup
  once : ∀ v, ∀ l ∈ links v, ∀ l' ∈ links v, peer v l.uid = peer v l'.uid → l.uid = l'.uid

/-- A line on its way: sender, receiver, and the text that was passed to `writesock`. -/
abbrev LinkMessage (V : Type) := V × V × CStr

structure Bouncers (V : Type) where
  intnet : V → Intnet
  flight : List (LinkMessage V)
  delivered : List (LinkMessage V) := []

inductive NetEvent (V : Type) where
  | deliver (i : Nat)
  | change (v : V) (clients : List Clientt) (intchan : List Uchannelt) (instate : List Nat)

def NetEvent.isDeliver {V : Type} : NetEvent V → Bool
  | .deliver _ => true
  | .change _ _ _ _ => false

/-- The `ircbuf` that a bouncer reads when another one has written `ircbuf`. -/
def overLink (ircbuf : CStr) : CStr :=
  replaceByte 37 127 (replaceByte 127 37 (lineEnd 0 (clip 8200 ircbuf)))

namespace Topology

variable {V : Type} [DecidableEq V]

/-- A bouncer with the links that it has in the network. -/
def bouncerAt (T : Topology V) (s : Bouncers V) (v : V) : Intnet :=
  { s.intnet v with linknode := T.links v }

/-- The link of `v` to `u`. -/
def uidOf (T : Topology V) (v u : V) : Option Nat :=
  ((T.links v).find? fun l => decide (T.peer v l.uid = u)).map Datalink.uid

def messages (T : Topology V) (v : V) (outs : List Out) : List (LinkMessage V) :=
  (linkOuts outs).map fun out => (v, T.peer v out.1, out.2)

/-- One event: a line in flight is delivered, or something else changes a bouncer. -/
def step (T : Topology V) (s : Bouncers V) : NetEvent V → Option (Bouncers V)
  | .deliver i =>
      match s.flight[i]? with
      | none => none
      | some m =>
          (T.uidOf m.2.1 m.1).map fun nlink =>
            let got := processlink (T.bouncerAt s m.2.1) nlink (overLink m.2.2)
            { intnet := Function.update s.intnet m.2.1 got.1
              flight := s.flight.eraseIdx i ++ T.messages m.2.1 got.2
              delivered := m :: s.delivered }
  | .change v clients intchan instate =>
      let net := { s.intnet v with clients := clients, intchan := intchan, instate := instate }
      some { s with intnet := Function.update s.intnet v net }

/-- The start: a bouncer sends a line to all its links. -/
def inject (T : Topology V) (intnet : V → Intnet) (r : V) (text : CStr) : Bouncers V :=
  let net : Intnet := { intnet r with linknode := T.links r }
  { intnet := intnet, flight := T.messages r (broadcast net 0 (intnetLine net.me text)) }

/-- A line is delivered to a bouncer that knows whom it is for. -/
def Fine (T : Topology V) (s : Bouncers V) : NetEvent V → Prop
  | .deliver i => ∀ m, s.flight[i]? = some m →
      TargetKnown (T.bouncerAt s m.2.1) (overLink m.2.2) ∧ InvitedKnown (T.bouncerAt s m.2.1) (overLink m.2.2)
  | .change _ _ _ _ => True

end Topology

def LinkMessage.ends {V : Type} (m : LinkMessage V) : V × V := (m.1, m.2.1)

/-- Nobody is sent the line twice, the bouncer that sent it first is not sent it at all, and it
does not go back over a link. -/
structure NoStorm {V : Type} (r : V) (s : Bouncers V) : Prop where
  once : (r :: (s.delivered ++ s.flight).map fun m => m.2.1).Nodup
  notBack : ∀ m ∈ s.delivered ++ s.flight, ∀ m' ∈ s.delivered ++ s.flight,
    ¬ (m'.1 = m.2.1 ∧ m'.2.1 = m.1)

/-! ## The flood -/

section Flooding

variable {V : Type} {T : Topology V} {s : Bouncers V} {u v : V}

/-- The deliveries and the messages in flight, without their texts. -/
def Bouncers.flood (s : Bouncers V) : Flood V where
  delivered := s.delivered.map LinkMessage.ends
  flight := s.flight.map LinkMessage.ends

/-- The neighbours that a broadcast reaches. -/
def Topology.reached (T : Topology V) (v : V) (nlink : Nat) : List V :=
  ((T.links v).filter fun l => decide (l.uid ≠ nlink) && l.open).map fun l => T.peer v l.uid

theorem ends_messages (outs : List Out) :
    (T.messages v outs).map LinkMessage.ends =
      ((linkOuts outs).map fun out => T.peer v out.1).map fun w => (v, w) := by
  simp [Topology.messages, LinkMessage.ends, Function.comp_def]

theorem nodup_reached (v : V) (nlink : Nat) : (T.reached v nlink).Nodup := by
  have hlinks : ((T.links v).filter fun l => decide (l.uid ≠ nlink) && l.open).Nodup :=
    (List.Nodup.of_map _ (T.uids v)).filter _
  refine hlinks.map_on (fun l hl l' hl' hpeer => ?_)
  have hmem := (List.mem_filter.1 hl).1
  have hmem' := (List.mem_filter.1 hl').1
  exact List.inj_on_of_nodup_map (T.uids v) hmem hmem' (T.once v l hmem l' hmem' hpeer)

theorem adj_of_mem_reached {nlink : Nat} {w : V} (h : w ∈ T.reached v nlink) :
    T.graph.Adj v w := by
  rcases List.mem_map.1 h with ⟨l, hl, rfl⟩
  exact T.adj v l (List.mem_filter.1 hl).1

theorem targets_broadcast (net : Intnet) (hlinks : net.linknode = T.links v) (nlink : Nat)
    (text : CStr) :
    (linkOuts (broadcast net nlink text)).map (fun out => T.peer v out.1) =
      T.reached v nlink := by
  simp [linkOuts_broadcast, hlinks, Topology.reached, Function.comp_def]

/-- The line leaves the bouncer that sends it first. -/
theorem spreads_inject (intnet : V → Intnet) (r : V) (text : CStr) :
    Flood.Spreads T.graph r (T.inject intnet r text).flood := by
  let net : Intnet := { intnet r with linknode := T.links r }
  have hflood : (T.inject intnet r text).flood =
      { flight := (T.reached r 0).map fun w => (r, w) } := by
    have htargets := targets_broadcast net (rfl : net.linknode = T.links r) 0 (intnetLine net.me text)
    simp only [Bouncers.flood, Topology.inject, ends_messages, List.map_nil]
    exact congrArg (fun targets => ({ flight := targets.map fun w => (r, w) } : Flood V)) htargets
  rw [hflood]
  exact Flood.Spreads.start (nodup_reached r 0) (fun w hw => adj_of_mem_reached hw)

theorem noStorm_of_spreads {r : V} (h : Flood.Spreads T.graph r s.flood) : NoStorm r s := by
  have hsent : s.flood.sent = (s.delivered ++ s.flight).map LinkMessage.ends := by
    simp [Flood.sent, Bouncers.flood]
  refine ⟨?_, ?_⟩
  · have hnodup := h.nodup_receivers T.acyclic
    rw [hsent, List.map_map] at hnodup
    exact hnodup
  · rintro m hm m' hm' ⟨hsender, hreceiver⟩
    have hin : (m.1, m.2.1) ∈ s.flood.sent := by
      rw [hsent]
      exact List.mem_map_of_mem hm
    have hback : (m.2.1, m.1) ∈ s.flood.sent := by
      rw [hsent, ← hsender, ← hreceiver]
      exact List.mem_map_of_mem hm'
    exact h.not_back T.acyclic hin hback

variable [DecidableEq V]

theorem uidOf_eq_some {nlink : Nat} (h : T.uidOf v u = some nlink) :
    ∃ l ∈ T.links v, l.uid = nlink ∧ T.peer v nlink = u := by
  rcases Option.map_eq_some_iff.1 h with ⟨l, hfind, rfl⟩
  have hpeer := List.find?_some hfind
  exact ⟨l, List.mem_of_find?_eq_some hfind, rfl, by simpa using hpeer⟩

/-- A broadcast that leaves out the link to `u` does not reach `u`. -/
theorem ne_of_mem_reached {nlink : Nat} (huid : T.uidOf v u = some nlink) {w : V}
    (h : w ∈ T.reached v nlink) : w ≠ u := by
  rcases uidOf_eq_some huid with ⟨l, hl, rfl, hpeer⟩
  rcases List.mem_map.1 h with ⟨l', hl', rfl⟩
  rcases List.mem_filter.1 hl' with ⟨hmem, huids⟩
  intro hsame
  have hother : l'.uid ≠ l.uid := by
    simp only [Bool.and_eq_true, decide_eq_true_eq] at huids
    exact huids.1
  exact hother (T.once v l' hmem l hl (hsame.trans hpeer.symm))

/-- Delivering a line is one step of the flood. -/
theorem flood_deliver {i : Nat} {s' : Bouncers V} (hstep : T.step s (.deliver i) = some s')
    (hfine : T.Fine s (.deliver i)) : Flood.Step T.graph s.flood s'.flood := by
  cases hm : s.flight[i]? with
  | none =>
      simp [Topology.step, hm] at hstep
  | some m =>
      rcases m with ⟨u, v, ircbuf⟩
      simp only [Topology.step, hm] at hstep
      rcases Option.map_eq_some_iff.1 hstep with ⟨nlink, huid, rfl⟩
      rcases hfine _ hm with ⟨htarget, hinvite⟩
      let got := processlink (T.bouncerAt s v) nlink (overLink ircbuf)
      let targets := (linkOuts got.2).map fun out => T.peer v out.1
      -- A bouncer sends nothing on, or one text to every link but the one it came from.
      have hpasses : PassesOn (T.bouncerAt s v) nlink got.2 := by
        simp only [got, processlink]
        split
        · exact internalinbound_passesOn htarget hinvite
        · exact Or.inl rfl
      have htargets : targets = [] ∨ targets = T.reached v nlink := by
        rcases hpasses with hnone | ⟨text, htext⟩
        · exact Or.inl (by simp [targets, hnone])
        · refine Or.inr ?_
          calc targets
              = (linkOuts (broadcast (T.bouncerAt s v) nlink text)).map fun out => T.peer v out.1 := by
                simp only [targets, htext]
            _ = T.reached v nlink := targets_broadcast _ rfl nlink text
      have hnodup : targets.Nodup := by
        rcases htargets with h | h
        · rw [h]
          exact List.nodup_nil
        · rw [h]
          exact nodup_reached v nlink
      have haway : ∀ w ∈ targets, T.graph.Adj v w ∧ w ≠ u := by
        intro w hw
        rcases htargets with h | h
        · rw [h] at hw
          exact absurd hw List.not_mem_nil
        · rw [h] at hw
          exact ⟨adj_of_mem_reached hw, ne_of_mem_reached huid hw⟩
      -- The line leaves its place in the list of lines in flight.
      rcases List.getElem?_eq_some_iff.1 hm with ⟨hi, hget⟩
      have hflight : s.flood.flight = (s.flight.take i).map LinkMessage.ends ++
          (u, v) :: (s.flight.drop (i + 1)).map LinkMessage.ends := by
        have hsplit : s.flight = s.flight.take i ++ s.flight[i] :: s.flight.drop (i + 1) := by
          rw [List.cons_getElem_drop_succ, List.take_append_drop]
        have hends := congrArg (List.map LinkMessage.ends) hsplit
        simpa [Bouncers.flood, hget, LinkMessage.ends] using hends
      have hflood : s.flood = ⟨s.flood.delivered, (s.flight.take i).map LinkMessage.ends ++
          (u, v) :: (s.flight.drop (i + 1)).map LinkMessage.ends⟩ := by
        rw [← hflight]
      have hflood' : Bouncers.flood { intnet := Function.update s.intnet v got.1
                                      flight := s.flight.eraseIdx i ++ T.messages v got.2
                                      delivered := (u, v, ircbuf) :: s.delivered } =
          ⟨(u, v) :: s.flood.delivered, (s.flight.take i).map LinkMessage.ends ++
            (s.flight.drop (i + 1)).map LinkMessage.ends ++ targets.map fun w => (v, w)⟩ := by
        simp [Bouncers.flood, ends_messages, targets, LinkMessage.ends,
          List.eraseIdx_eq_take_drop_succ]
      rw [hflood, hflood']
      exact Flood.Step.deliver hnodup haway

theorem flood_change {e : NetEvent V} (he : e.isDeliver = false) {s' : Bouncers V}
    (hstep : T.step s e = some s') : s'.flood = s.flood := by
  cases e with
  | deliver i =>
      exact absurd he (by simp [NetEvent.isDeliver])
  | change v clients intchan instate =>
      simp only [Topology.step, Option.some.injEq] at hstep
      rw [← hstep]
      rfl

theorem spreads_step {r : V} {e : NetEvent V} {s' : Bouncers V}
    (h : Flood.Spreads T.graph r s.flood) (hfine : T.Fine s e) (hstep : T.step s e = some s') :
    Flood.Spreads T.graph r s'.flood := by
  cases e with
  | deliver i =>
      exact h.step T.acyclic (flood_deliver hstep hfine)
  | change v clients intchan instate =>
      rw [flood_change rfl hstep]
      exact h

theorem length_delivered {events : List (NetEvent V)} {s' : Bouncers V}
    (hrun : runAll T.step s events = some s') :
    s'.delivered.length = s.delivered.length + events.countP NetEvent.isDeliver := by
  induction events generalizing s with
  | nil =>
      cases hrun
      simp
  | cons e events ih =>
      rcases Option.bind_eq_some_iff.1 hrun with ⟨t, hstep, hrest⟩
      have hlen := ih hrest
      cases e with
      | deliver i =>
          cases hm : s.flight[i]? with
          | none =>
              simp [Topology.step, hm] at hstep
          | some m =>
              simp only [Topology.step, hm] at hstep
              rcases Option.map_eq_some_iff.1 hstep with ⟨nlink, _, rfl⟩
              simp only [List.length_cons] at hlen
              simp only [List.countP_cons, NetEvent.isDeliver, if_true]
              omega
      | change v clients intchan instate =>
          simp only [Topology.step, Option.some.injEq] at hstep
          subst hstep
          simpa [List.countP_cons, NetEvent.isDeliver] using hlen

end Flooding

/-! ## Runs -/

/-- A line is relayed without a storm, in every state of every run in which each bouncer that gets
the line knows whom it is for; fewer deliveries are made than there are bouncers. -/
theorem relay_noStorm {V : Type} [DecidableEq V] [Fintype V] (T : Topology V) (intnet : V → Intnet)
    (r : V) (text : CStr) (events : List (NetEvent V)) (s : Bouncers V)
    (hfine : StepsMeet T.step T.Fine (T.inject intnet r text) events)
    (hrun : runAll T.step (T.inject intnet r text) events = some s) :
    NoStorm r s ∧ events.countP NetEvent.isDeliver < Fintype.card V := by
  have hspreads : Flood.Spreads T.graph r s.flood := by
    refine invariant_of_stepsMeet (fun s => Flood.Spreads T.graph r s.flood) ?_
      (spreads_inject intnet r text) hfine hrun
    exact fun _ _ _ h hG hstep => spreads_step h hG hstep
  refine ⟨noStorm_of_spreads hspreads, ?_⟩
  have hsent := hspreads.length_lt T.acyclic
  have hlen := length_delivered hrun
  have hdelivered : s.delivered.length ≤ s.flood.sent.length := by
    simp [Flood.sent, Bouncers.flood]
  have hnone : (T.inject intnet r text).delivered.length = 0 := rfl
  omega

/-! ## Two bouncers -/

/-- Two bouncers and one link between them. -/
def pair : Topology Bool where
  graph := ⊤
  acyclic := SimpleGraph.IsAcyclic.of_card_le_two (by simp)
  links := fun _ => [{ uid := 1, outstate := true }]
  peer := fun v _ => !v
  adj := by simp
  uids := by simp
  once := by simp

/-- A client of the one bouncer, and one that the other bouncer may have. -/
def pairIntnet (target : List Clientt) : Bool → Intnet
  | false =>
      { me := ascii "A"
        clients := [⟨1, ascii "al", ascii "i", ascii "h", ascii "A"⟩,
          ⟨0, ascii "bob", ascii "i", ascii "h", ascii "B"⟩] }
  | true =>
      { me := ascii "B"
        clients := ⟨0, ascii "al", ascii "i", ascii "h", ascii "A"⟩ :: target }

def pairStart (target : List Clientt) : Bouncers Bool :=
  pair.inject (pairIntnet target) false (ascii ":al!i@h PRIVMSG bob :hi")

theorem relay_noStorm_pair :
    ∃ s, runAll pair.step (pairStart [⟨2, ascii "bob", ascii "i", ascii "h", ascii "B"⟩])
        [.deliver 0] = some s ∧ NoStorm false s := by
  refine ⟨_, rfl, (relay_noStorm pair _ false _ [.deliver 0] _ ?_ rfl).1⟩
  refine ⟨?_, fun _ _ => trivial⟩
  intro m hm
  rw [← Option.some.inj hm]
  exact ⟨fun _ => Or.inr (Or.inr (by decide)), fun h => absurd h (by decide)⟩

/-- The target has quit before the line arrives, and the line goes back. -/
theorem relay_back :
    ∃ s, runAll pair.step (pairStart [⟨2, ascii "bob", ascii "i", ascii "h", ascii "B"⟩])
        [.change true [⟨0, ascii "al", ascii "i", ascii "h", ascii "A"⟩] [] [], .deliver 0] =
          some s ∧
      s.delivered.map LinkMessage.ends = [(false, true)] ∧
      s.flight.map LinkMessage.ends = [(true, false)] ∧ ¬ NoStorm false s := by
  refine ⟨_, rfl, rfl, rfl, fun h => ?_⟩
  exact absurd h.once (by decide)

end PsyBnc
