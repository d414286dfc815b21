import PsyBnc.Socket.Model

/-!
# One call on one queue

Every function of the sending side changes at most one socket at a time and may write; `Net.touch`
is that kind of step.  For `writesock` past the queue and for `flushsendq` this file says which
socket is touched, what becomes of its queue, and what goes to the wire.
-/

namespace PsyBnc

open CLib

/-! ## Steps that touch one socket -/

/-- Socket number `k` becomes `s`, `urgent` is set to `u`, and `outs` go to the wire. -/
def Net.touch (net : Net) (k : Nat) (s : Psockett) (u : Bool) (outs : List Output) : Net :=
  { net with socketnode := net.socketnode.set k s, urgent := u, wire := net.wire ++ outs }

/-- What the sending side never changes of a socket. -/
def Psockett.fixed (s : Psockett) : Int × Nat × Bool × Nat × Dataflow × Bool :=
  (s.syssock, s.flag, s.nowfds, s.sockgroup, s.dataflow, s.serversocket)

/-- The two states have the same sockets, up to their queues and counters. -/
structure SameNodes (net net' : Net) : Prop where
  nodes : net'.socketnode.map Psockett.fixed = net.socketnode.map Psockett.fixed
  before : net'.before = net.before
  notsocket : net'.notsocket = net.notsocket

theorem SameNodes.refl (net : Net) : SameNodes net net := ⟨rfl, rfl, rfl⟩

theorem SameNodes.trans {net net' net'' : Net} (h : SameNodes net net') (h' : SameNodes net' net'') :
    SameNodes net net'' :=
  ⟨h'.nodes.trans h.nodes, h'.before.trans h.before, h'.notsocket.trans h.notsocket⟩

section Touch

variable {net net' : Net} {k j : Nat} {s s' : Psockett}

theorem modify_eq_touch (hs : net.socketnode[k]? = some s) (f : Psockett → Psockett) :
    net.modify k f = net.touch k (f s) net.urgent [] := by
  simp [Net.modify, Net.touch, List.modify_eq_set_getElem?, hs]

theorem touch_self (hs : net.socketnode[k]? = some s) : net.touch k s net.urgent [] = net := by
  have hset : net.socketnode.set k s = net.socketnode := by
    rcases List.getElem?_eq_some_iff.1 hs with ⟨hk, hget⟩
    rw [← hget]
    exact List.set_getElem_self hk
  simp [Net.touch, hset]

theorem touch_touch (u u' : Bool) (outs outs' : List Output) :
    (net.touch k s u outs).touch k s' u' outs' = net.touch k s' u' (outs ++ outs') := by
  simp [Net.touch, List.append_assoc]

theorem node_touch (hs : net.socketnode[k]? = some s) (u : Bool) (outs : List Output) :
    (net.touch k s' u outs).socketnode[k]? = some s' := by
  rcases List.getElem?_eq_some_iff.1 hs with ⟨hk, _⟩
  simp [Net.touch, hk]

theorem node_touch_ne (h : j ≠ k) (u : Bool) (outs : List Output) :
    (net.touch k s' u outs).socketnode[j]? = net.socketnode[j]? := by
  simp [Net.touch, List.getElem?_set_ne (Ne.symm h)]

theorem sameNodes_touch (hs : net.socketnode[k]? = some s) (hfix : s'.fixed = s.fixed) (u : Bool)
    (outs : List Output) : SameNodes net (net.touch k s' u outs) := by
  rcases List.getElem?_eq_some_iff.1 hs with ⟨hk, hget⟩
  have hk' : k < (net.socketnode.map Psockett.fixed).length := by simpa using hk
  have hmap : (net.socketnode.map Psockett.fixed)[k] = s'.fixed := by simp [hget, hfix]
  refine ⟨?_, rfl, rfl⟩
  simp only [Net.touch, List.map_set, ← hmap]
  exact List.set_getElem_self _

theorem SameNodes.node (h : SameNodes net net') (hs : net.socketnode[k]? = some s) :
    ∃ s', net'.socketnode[k]? = some s' ∧ s'.fixed = s.fixed := by
  have hmap := congrArg (fun l => l[k]?) h.nodes
  simp only [List.getElem?_map, hs, Option.map_some] at hmap
  exact Option.map_eq_some_iff.1 hmap

theorem SameNodes.getpsocketbysock (h : SameNodes net net') (socket : Int) :
    PsyBnc.getpsocketbysock net' socket = PsyBnc.getpsocketbysock net socket := by
  have hfind : ∀ n : Net, PsyBnc.getpsocketbysock n socket =
      (n.socketnode.map Psockett.fixed).findIdx? (fun p => decide (p.1 = socket)) := by
    intro n
    simp only [PsyBnc.getpsocketbysock, List.findIdx?_map]
    rfl
  rw [hfind, hfind, h.nodes]

theorem SameNodes.isMember (h : SameNodes net net') (group : Nat) (notsock : Int) (j : Nat) :
    PsyBnc.isMember net' group notsock j = PsyBnc.isMember net group notsock j := by
  have hmap : ∀ n : Net, PsyBnc.isMember n group notsock j =
      ((n.socketnode.map Psockett.fixed)[j]?).any (fun p =>
        decide (p.2.2.2.1 = group ∧ p.1 ≠ notsock ∧ p.1 ≠ n.notsocket)) := by
    intro n
    simp only [PsyBnc.isMember, List.getElem?_map, Option.any_map]
    rfl
  rw [hmap, hmap, h.nodes, h.notsocket]

end Touch

/-! ## Looking up -/

theorem node_of_getpsocketbysock {net : Net} {socket : Int} {k : Nat}
    (h : getpsocketbysock net socket = some k) :
    ∃ s, net.socketnode[k]? = some s ∧ s.syssock = socket := by
  rcases List.findIdx?_eq_some_iff_getElem.1 h with ⟨hk, hp, _⟩
  exact ⟨net.socketnode[k], List.getElem?_eq_getElem hk, by simpa using hp⟩

theorem lt_of_isMember {net : Net} {group j : Nat} {notsock : Int}
    (h : isMember net group notsock j = true) : j < net.socketnode.length := by
  by_contra hge
  have hnone : net.socketnode[j]? = none := List.getElem?_eq_none (Nat.le_of_not_lt hge)
  simp [isMember, hnone] at h

theorem node_of_isMember {net : Net} {group j : Nat} {notsock : Int}
    (h : isMember net group notsock j = true) : ∃ s, net.socketnode[j]? = some s :=
  ⟨_, List.getElem?_eq_getElem (lt_of_isMember h)⟩

/-- `getpsocketbygroup` finds the next member. -/
theorem getpsocketbygroup_eq_some {net : Net} {first group j : Nat} {notsock : Int}
    (h : getpsocketbygroup net first group notsock = some j) :
    first ≤ j ∧ isMember net group notsock j = true ∧
      ∀ i, first ≤ i → i < j → isMember net group notsock i = false := by
  simp only [getpsocketbygroup, List.find?_range_eq_some, Bool.and_eq_true, decide_eq_true_eq] at h
  rcases h with ⟨⟨hle, hm⟩, _, hno⟩
  refine ⟨hle, hm, fun i hi hij => ?_⟩
  simpa [hi] using hno i hij

theorem getpsocketbygroup_eq_none {net : Net} {first group : Nat} {notsock : Int}
    (h : getpsocketbygroup net first group notsock = none) {i : Nat} (hi : first ≤ i) :
    isMember net group notsock i = false := by
  by_contra hm
  have hm' : isMember net group notsock i = true := by simpa using hm
  have hno := List.find?_eq_none.1 h i (List.mem_range.2 (lt_of_isMember hm'))
  simp [hi, hm'] at hno

/-! ## What goes to the wire -/

/-- What `writesock`, past the queue, makes of `urgent` and puts on the wire. -/
def textOutput (before : Byte) (socket : Int) (s : Psockett) (urgent : Bool) (data : CStr) :
    Option (Bool × List Output) :=
  if socket = 0 ∨ data = [] then some (urgent, [])
  else
    (lineText before data).map fun buf =>
      (false, if s.flag = SOC_CONN then [⟨.writesock, socket, replaceByte 127 37 buf⟩] else [])

/-- The same for an entry that is taken from the queue. -/
def entryOutput (before : Byte) (socket : Int) (s : Psockett) (data : List Byte) :
    Option (Bool × List Output) :=
  if s.dataflow = .stream then
    some (false, if s.flag = SOC_CONN then [⟨.writesock_STREAM, socket, data⟩] else [])
  else textOutput before socket s true (cstr data)

/-- `s'` differs from `s` in counters and timers only. -/
structure Kept (s s' : Psockett) : Prop where
  fixed : s'.fixed = s.fixed
  sendq : s'.sendq.map Sendqt.data = s.sendq.map Sendqt.data
  entrys : s'.entrys = s.entrys
  unstoned : s.serversocket = false → s'.serverstoned = s.serverstoned

/-- The first entry is gone, and counted as gone. -/
structure Popped (rest : List Sendqt) (s s' : Psockett) : Prop where
  fixed : s'.fixed = s.fixed
  sendq : s'.sendq = rest
  entrys : s'.entrys = s.entrys - 1
  unstoned : s.serversocket = false → s'.serverstoned = s.serverstoned

section Results

variable {net : Net} {k : Nat} {s : Psockett}

inductive NowResult (net : Net) (k : Nat) (s : Psockett) (socket : Int) (data : CStr) :
    Option Net → Prop where
  | failed : textOutput net.before socket s net.urgent data = none →
      NowResult net k s socket data none
  | written {u : Bool} {outs : List Output} {s' : Psockett} :
      textOutput net.before socket s net.urgent data = some (u, outs) → Kept s s' →
      s'.sendq = s.sendq → NowResult net k s socket data (some (net.touch k s' u outs))

theorem writesockNow_result (hs : net.socketnode[k]? = some s) (socket : Int) (data : CStr) :
    NowResult net k s socket data (writesockNow k socket data net) := by
  by_cases hzero : socket = 0 ∨ data = []
  · have hout : textOutput net.before socket s net.urgent data = some (net.urgent, []) := by
      simp [textOutput, hzero]
    have hcall : writesockNow k socket data net = some (net.touch k s net.urgent []) := by
      rw [touch_self hs]
      rcases hzero with h | h
      · simp [writesockNow, hs, h]
      · simp [writesockNow, hs, h]
    rw [hcall]
    exact NowResult.written hout ⟨rfl, rfl, rfl, fun _ => rfl⟩ rfl
  · rcases not_or.1 hzero with ⟨hsock, hdata⟩
    cases hbuf : lineText net.before data with
    | none =>
        have hcall : writesockNow k socket data net = none := by
          simp [writesockNow, hs, hsock, hdata, hbuf]
        rw [hcall]
        exact NowResult.failed (by simp [textOutput, hsock, hdata, hbuf])
    | some buf =>
        -- the two counters of `s` that the write moves
        let s' : Psockett := { s with bytesout := s.bytesout + buf.length, delay := 300 }
        have hcall : writesockNow k socket data net = some (net.touch k s' false
            (if s.flag = SOC_CONN then [⟨.writesock, socket, replaceByte 127 37 buf⟩]
              else [])) := by
          by_cases hconn : s.flag = SOC_CONN
          · simp [writesockNow, hs, hsock, hdata, hbuf, hconn, Net.write, Net.modify, Net.touch,
              List.modify_eq_set_getElem?, s']
          · simp [writesockNow, hs, hsock, hdata, hbuf, hconn, Net.modify, Net.touch,
              List.modify_eq_set_getElem?, s']
        rw [hcall]
        exact NowResult.written (by simp [textOutput, hsock, hdata, hbuf])
          ⟨rfl, rfl, rfl, fun _ => rfl⟩ rfl

theorem writesockStreamNow_eq (hs : net.socketnode[k]? = some s) (socket : Int)
    (data : List Byte) :
    writesockStreamNow k socket data net =
      net.touch k { s with bytesout := s.bytesout + data.length } false
        (if s.flag = SOC_CONN then [⟨.writesock_STREAM, socket, data⟩] else []) := by
  by_cases hconn : s.flag = SOC_CONN
  · simp [writesockStreamNow, hs, hconn, Net.write, Net.modify, Net.touch,
      List.modify_eq_set_getElem?]
  · simp [writesockStreamNow, hs, hconn, Net.modify, Net.touch, List.modify_eq_set_getElem?]

/-! ## `flushsendq` -/

/-- The socket that is asked for, and the first entry of its queue. -/
structure Head (net : Net) (socket : Int) (k : Nat) (s : Psockett) (msq : Sendqt)
    (rest : List Sendqt) : Prop where
  node : getpsocketbysock net socket = some k
  sock : net.socketnode[k]? = some s
  sendq : s.sendq = msq :: rest

/-- `flushsendq` takes the entry from the queue. -/
def Takes (s : Psockett) (forced : Bool) (msq : Sendqt) : Prop :=
  SOC_CONN ≤ s.flag ∧ (forced = true ∨ msq.delay ≤ 0) ∧
    (s.serversocket = true → s.flag = SOC_CONN →
      s.serverstoned ≤ 0 ∧ (s.serverbytes + (cstr msq.data).length ≤ 700 ∨
        700 ≤ (cstr msq.data).length))

inductive FlushResult (net : Net) (socket : Int) (forced : Bool) : Option Net → Prop where
  | idle : (∀ k s msq rest, Head net socket k s msq rest → ¬ Takes s forced msq) →
      FlushResult net socket forced (some net)
  | kept {k : Nat} {s s' : Psockett} {msq : Sendqt} {rest : List Sendqt} {outs : List Output} :
      Head net socket k s msq rest → ¬ Takes s forced msq → Kept s s' →
      (∀ o ∈ outs, o.site = .ping) →
      FlushResult net socket forced (some (net.touch k s' net.urgent outs))
  | failed {k : Nat} {s : Psockett} {msq : Sendqt} {rest : List Sendqt} :
      Head net socket k s msq rest → Takes s forced msq →
      entryOutput net.before socket s msq.data = none → FlushResult net socket forced none
  | sent {k : Nat} {s s' : Psockett} {msq : Sendqt} {rest : List Sendqt} {u : Bool}
      {outs : List Output} :
      Head net socket k s msq rest → Takes s forced msq →
      entryOutput net.before socket s msq.data = some (u, outs) → Popped rest s s' →
      FlushResult net socket forced (some (net.touch k s' u outs))

/-- Two descriptions of the head of a queue agree. -/
theorem Head.unique {socket : Int} {k' : Nat} {s' : Psockett} {msq msq' : Sendqt}
    {rest rest' : List Sendqt} (h : Head net socket k s msq rest)
    (h' : Head net socket k' s' msq' rest') : k' = k ∧ s' = s ∧ msq' = msq ∧ rest' = rest := by
  have hk : k' = k := Option.some.inj (h'.node.symm.trans h.node)
  subst hk
  have hs : s' = s := Option.some.inj (h'.sock.symm.trans h.sock)
  subst hs
  rcases List.cons.inj (h'.sendq.symm.trans h.sendq) with ⟨rfl, rfl⟩
  exact ⟨rfl, rfl, rfl, rfl⟩

/-- `sendHead` pops the entry and writes it; `s₁` is the socket it finds. -/
theorem sendHead_result {socket : Int} {s₁ : Psockett} {msq : Sendqt} {rest : List Sendqt}
    (hs : net.socketnode[k]? = some s₁) (hfix : s₁.fixed = s.fixed) :
    (entryOutput net.before socket s msq.data = none ∧
      sendHead k socket s msq rest net = none) ∨
    ∃ u outs s', entryOutput net.before socket s msq.data = some (u, outs) ∧ Popped rest s₁ s' ∧
      sendHead k socket s msq rest net = some (net.touch k s' u outs) := by
  let s₂ : Psockett := { s₁ with sendq := rest, entrys := s₁.entrys - 1 }
  let net₂ : Net := net.touch k s₂ true []
  have hnet₂ : { net.modify k fun s => { s with sendq := rest, entrys := s.entrys - 1 } with
      urgent := true } = net₂ := by
    simp [net₂, s₂, Net.modify, Net.touch, List.modify_eq_set_getElem?, hs]
  have hnode : net₂.socketnode[k]? = some s₂ := node_touch hs true []
  have hflag : s₂.flag = s.flag := congrArg (fun p => p.2.1) hfix
  by_cases hflow : s.dataflow = .stream
  · refine Or.inr ⟨false, if s.flag = SOC_CONN then [⟨.writesock_STREAM, socket, msq.data⟩] else [],
      { s₂ with bytesout := s₂.bytesout + msq.data.length }, ?_,
      ⟨rfl, rfl, rfl, fun _ => rfl⟩, ?_⟩
    · exact if_pos hflow
    · simp only [sendHead, hnet₂, hflow, if_true]
      rw [writesockStreamNow_eq hnode, hflag]
      exact congrArg some (touch_touch _ _ _ _)
  · have hout : entryOutput net.before socket s msq.data =
        textOutput net₂.before socket s₂ net₂.urgent (cstr msq.data) := by
      simp [entryOutput, hflow, textOutput, hflag, net₂, Net.touch]
    have hcall : sendHead k socket s msq rest net = writesockNow k socket (cstr msq.data) net₂ := by
      simp only [sendHead, hnet₂, hflow, if_false]
    have hresult := writesockNow_result hnode socket (cstr msq.data)
    rw [← hcall] at hresult
    rw [hout]
    generalize sendHead k socket s msq rest net = result at hresult
    cases hresult with
    | failed hnone =>
        exact Or.inl ⟨hnone, rfl⟩
    | written hsome hkept hsendq =>
        refine Or.inr ⟨_, _, _, hsome, ⟨hkept.fixed, hsendq, hkept.entrys, hkept.unstoned⟩, ?_⟩
        exact congrArg some (touch_touch _ _ _ _)

theorem FlushResult.of_not_takes {socket : Int} {forced : Bool} {msq : Sendqt}
    {rest : List Sendqt} (hhead : Head net socket k s msq rest) (hno : ¬ Takes s forced msq) :
    FlushResult net socket forced (some net) := by
  refine FlushResult.idle (fun k' s' msq' rest' hhead' => ?_)
  rcases hhead.unique hhead' with ⟨_, rfl, rfl, _⟩
  exact hno

/-- The end of `flushsendq`, from a socket `s₁` that may differ from `s` in `serverbytes`. -/
theorem FlushResult.of_sendHead {socket : Int} {forced : Bool} {msq : Sendqt}
    {rest : List Sendqt} (hhead : Head net socket k s msq rest) (htakes : Takes s forced msq)
    {s₁ : Psockett} (hkept : Kept s s₁) :
    FlushResult net socket forced
      (sendHead k socket s msq rest (net.touch k s₁ net.urgent [])) := by
  rcases sendHead_result (node_touch hhead.sock net.urgent []) hkept.fixed with
    ⟨hnone, hcall⟩ | ⟨u, outs, s', hsome, hpop, hcall⟩
  · rw [hcall]
    exact FlushResult.failed hhead htakes hnone
  · have hpop' : Popped rest s s' := by
      have hserver : s₁.serversocket = s.serversocket :=
        congrArg (fun p => p.2.2.2.2.2) hkept.fixed
      refine ⟨hpop.fixed.trans hkept.fixed, hpop.sendq, ?_, ?_⟩
      · rw [hpop.entrys, hkept.entrys]
      · exact fun h => (hpop.unstoned (hserver.trans h)).trans (hkept.unstoned h)
    rw [hcall, touch_touch, List.nil_append]
    exact FlushResult.sent hhead htakes hsome hpop'

theorem flushsendq_head {socket : Int} (forced : Bool) {msq : Sendqt} {rest : List Sendqt}
    (hhead : Head net socket k s msq rest) :
    FlushResult net socket forced (flushsendq socket forced net) := by
  have hk := hhead.node
  have hs := hhead.sock
  have hq := hhead.sendq
  by_cases hflag : s.flag < SOC_CONN
  · have hcall : flushsendq socket forced net = some net := by
      simp [flushsendq, hk, hs, hq, hflag]
    rw [hcall]
    exact FlushResult.of_not_takes hhead (fun ht => absurd ht.1 (Nat.not_le_of_lt hflag))
  by_cases hwait : forced = false ∧ 0 < msq.delay
  · -- The delay of the first entry runs down.
    let s' : Psockett :=
      { s with sendq := { msq with delay := msq.delay - net.delayinc } :: rest }
    have hcall : flushsendq socket forced net = some (net.touch k s' net.urgent []) := by
      simp only [flushsendq, hk, hs, hq, hflag, hwait, if_false, if_true, and_self]
      exact congrArg some (modify_eq_touch hs _)
    rw [hcall]
    refine FlushResult.kept hhead ?_ ⟨rfl, by simp [s', hq], rfl, fun _ => rfl⟩ (by simp)
    rintro ⟨_, hforced | hdelay, _⟩
    · exact absurd (hwait.1.symm.trans hforced) (by simp)
    · omega
  have hready : forced = true ∨ msq.delay ≤ 0 := by
    by_cases hf : forced = true
    · exact Or.inl hf
    · refine Or.inr ?_
      exact Int.not_lt.1 (fun hd => hwait ⟨by simpa using hf, hd⟩)
  by_cases hserver : s.serversocket = true ∧ s.flag = SOC_CONN
  · by_cases hstoned : 0 < s.serverstoned
    · have hcall : flushsendq socket forced net = some net := by
        simp only [flushsendq, hk, hs, hq]
        rw [if_neg hflag, if_neg hwait, if_pos hserver, if_pos hstoned]
      rw [hcall]
      refine FlushResult.of_not_takes hhead (fun ht => ?_)
      have hle := (ht.2.2 hserver.1 hserver.2).1
      omega
    by_cases hflood : 700 < s.serverbytes + (cstr msq.data).length ∧ (cstr msq.data).length < 700
    · -- The server is pinged instead, and nothing is sent until it answers.
      have hcall : flushsendq socket forced net =
          some (net.touch k { s with serverstoned := 20 } net.urgent
            [⟨.ping, socket, pingText⟩]) := by
        simp only [flushsendq, hk, hs, hq]
        rw [if_neg hflag, if_neg hwait, if_pos hserver, if_neg hstoned, if_pos hflood,
          modify_eq_touch hs]
        simp [Net.write, Net.touch, hq]
      rw [hcall]
      refine FlushResult.kept hhead ?_ ⟨rfl, rfl, rfl, fun h => ?_⟩ (by simp)
      · intro ht
        rcases (ht.2.2 hserver.1 hserver.2).2 with hle | hle
        · omega
        · omega
      · exact absurd (hserver.1.symm.trans h) (by simp)
    · -- The entry is sent and counted.
      have hcall : flushsendq socket forced net = sendHead k socket s msq rest
          (net.touch k { s with serverbytes := s.serverbytes + (cstr msq.data).length } net.urgent
            []) := by
        simp only [flushsendq, hk, hs, hq]
        rw [if_neg hflag, if_neg hwait, if_pos hserver, if_neg hstoned, if_neg hflood,
          modify_eq_touch hs]
        simp only [hq]
      rw [hcall]
      refine FlushResult.of_sendHead hhead ⟨Nat.le_of_not_lt hflag, hready, fun _ _ => ?_⟩
        ⟨rfl, rfl, rfl, fun _ => rfl⟩
      exact ⟨by omega, by omega⟩
  · have hcall : flushsendq socket forced net =
        -- No server: nothing is counted.
        sendHead k socket s msq rest (net.touch k s net.urgent []) := by
      simp only [flushsendq, hk, hs, hq]
      rw [if_neg hflag, if_neg hwait, if_neg hserver, touch_self hs]
    rw [hcall]
    refine FlushResult.of_sendHead hhead ⟨Nat.le_of_not_lt hflag, hready, ?_⟩
      ⟨rfl, rfl, rfl, fun _ => rfl⟩
    exact fun h h' => absurd ⟨h, h'⟩ hserver

theorem flushsendq_result (net : Net) (socket : Int) (forced : Bool) :
    FlushResult net socket forced (flushsendq socket forced net) := by
  cases hk : getpsocketbysock net socket with
  | none =>
      have hcall : flushsendq socket forced net = some net := by simp [flushsendq, hk]
      rw [hcall]
      exact FlushResult.idle (fun k s msq rest hhead => absurd (hk.symm.trans hhead.node) (by simp))
  | some k =>
      rcases node_of_getpsocketbysock hk with ⟨s, hs, _⟩
      cases hq : s.sendq with
      | nil =>
          have hcall : flushsendq socket forced net = some net := by simp [flushsendq, hk, hs, hq]
          rw [hcall]
          refine FlushResult.idle (fun k' s' msq rest hhead => ?_)
          have hk' : k' = k := Option.some.inj (hhead.node.symm.trans hk)
          subst hk'
          have hs' : s' = s := Option.some.inj (hhead.sock.symm.trans hs)
          subst hs'
          exact absurd (hq.symm.trans hhead.sendq) (by simp)
      | cons msq rest =>
          exact flushsendq_head forced ⟨hk, hs, hq⟩

end Results

end PsyBnc
