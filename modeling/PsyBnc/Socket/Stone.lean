import PsyBnc.Socket.Order

/-!
# The flood protection of servers

What is sent to a server is counted in `serverbytes`.  Before a line would raise it over 700 the server
is pinged, and `serverstoned` holds the queue back until the server answers or 20 seconds are over; then
the counting starts over.  A line of 700 bytes and more is sent anyway.
-/

namespace PsyBnc

open CLib

/-! ## Timers and answers -/

/-- The timer of a stoned server in `socketdriver`. -/
def stoneTimer (delayinc : Int) (s : Psockett) : Psockett :=
  if s.serversocket = true ∧ 0 < s.serverstoned then
    let serverstoned := s.serverstoned - delayinc
    { s with
      serverstoned := serverstoned
      serverbytes := if serverstoned = 0 then 0 else s.serverbytes }
  else s

/-- The timer of the first entry of a queue in `socketdriver`. -/
def queueTimer (delayinc : Int) (s : Psockett) : Psockett :=
  match s.sendq with
  | [] => s
  | msq :: rest =>
      if (s.flag = SOC_SYN ∨ s.flag = SOC_CONN ∧ 0 < s.syssock) ∧ 0 < msq.delay then
        { s with sendq := { msq with delay := msq.delay - delayinc } :: rest }
      else s

/-- A PONG that `receivesock` finds on a socket. -/
def receivedPong (s : Psockett) : Psockett :=
  if s.serversocket = true then (gotPong { sock := s }).sock else s

/-- What happens to the socket of a server: `addq`, `flushsendq`, a round of `socketdriver` in which the
second has advanced or not, and the answer to a PING. -/
inductive ServerCall where
  | addq (data : List Byte) (sqdelay : Int)
  | flushsendq (forced : Bool)
  | timer (advanced : Bool)
  | pong
  deriving DecidableEq

/-- The sockets, with what was put into the queue of one of them, and how much was on the wire when its
`serverbytes` was last set to 0. -/
structure Watch where
  net : Net
  queued : List (List Byte)
  reset : Nat := 0

/-- The watch begins with what is in the queue, and an empty wire. -/
def Watch.start (net : Net) (socket : Int) : Watch where
  net := { net with wire := [] }
  queued := ((getpsocketbysock net socket).map (queueAt net)).getD []

/-- A change of one socket outside the queues, that may set `serverbytes` to 0. -/
def Watch.change (w : Watch) (socket : Int) (resets : Psockett → Bool) (f : Psockett → Psockett) : Watch :=
  match getpsocketbysock w.net socket with
  | none => w
  | some k =>
      { w with
        net := w.net.modify k f
        reset := if (w.net.socketnode[k]?).any resets then w.net.wire.length else w.reset }

def ServerCall.run (socket : Int) (w : Watch) : ServerCall → Option Watch
  | .addq data sqdelay =>
      (PsyBnc.addq socket data sqdelay w.net).map fun net =>
        { w with net := net, queued := w.queued ++ [data] }
  | .flushsendq forced => (PsyBnc.flushsendq socket forced w.net).map fun net => { w with net := net }
  | .timer advanced =>
      let delayinc : Int := if advanced then 1 else 0
      let w := { w with net := { w.net with delayinc := delayinc } }
      some (w.change socket (fun s => decide (0 < s.serverstoned ∧ s.serverstoned - delayinc = 0))
        fun s => queueTimer delayinc (stoneTimer delayinc s))
  | .pong => some (w.change socket (fun s => decide (s.serverstoned ≠ 0)) receivedPong)

/-- What a call puts into the queue. -/
def ServerCall.adds : ServerCall → List (List Byte)
  | .addq data _ => [data]
  | _ => []

/-! ## What is to hold -/

/-- The connected socket of a server, which is in no group. -/
structure ServerSocket (net : Net) (socket : Int) (k : Nat) (s : Psockett) : Prop where
  node : getpsocketbysock net socket = some k
  sock : net.socketnode[k]? = some s
  number : socket ≠ 0
  connected : s.flag = SOC_CONN
  server : s.serversocket = true
  alone : s.sockgroup = 0

/-- The length of the text of an entry, as `strlen` sees it. -/
def strlen (e : List Byte) : Nat := (cstr e).length

def total : List (List Byte) → Nat
  | [] => 0
  | e :: rest => strlen e + total rest

/-- The lines on the wire that come from the queue of a socket. -/
def queueLines (socket : Int) (wire : List Output) : List (List Byte) :=
  linesOn socket (wire.filter fun out => decide (out.site ≠ .ping))

/-- What was put into the queue is what was written before the last reset, what was written since, and
what is still in the queue, in this order; what was written since keeps to the budget, unless a line is
too long for it by itself. -/
def Controlled (socket : Int) (w : Watch) (s : Psockett) : Prop :=
  ∃ old recent, w.queued = old ++ recent ++ queue s ∧
    queueLines socket (w.net.wire.take w.reset) = old.flatMap (entryLines w.net.before s) ∧
    queueLines socket (w.net.wire.drop w.reset) = recent.flatMap (entryLines w.net.before s) ∧
    (total recent ≤ 700 ∨ ∃ e ∈ recent, 700 ≤ strlen e)

/-! ## One step -/

/-- What a call does to the socket: `gone` leaves the queue and is written, `app` comes to its end. -/
structure ServerStep (socket : Int) (k : Nat) (net net' : Net) (s s' : Psockett)
    (app gone : List (List Byte)) : Prop where
  nodes : SameNodes net net'
  sock : net'.socketnode[k]? = some s'
  fixed : s'.fixed = s.fixed
  entries : queue s ++ app = gone ++ queue s'
  wire : ∃ outs, net'.wire = net.wire ++ outs ∧
    queueLines socket outs = gone.flatMap (entryLines net.before s)
  bytes : s'.serverbytes = s.serverbytes + total gone
  budget : gone ≠ [] →
    s.serverstoned ≤ 0 ∧ (s.serverbytes + total gone ≤ 700 ∨ ∃ e ∈ gone, 700 ≤ strlen e)

section Steps

variable {net net' : Net} {socket : Int} {k : Nat} {s s' : Psockett} {app gone : List (List Byte)}

theorem queueLines_append (socket : Int) (wire wire' : List Output) :
    queueLines socket (wire ++ wire') = queueLines socket wire ++ queueLines socket wire' := by
  rw [queueLines, List.filter_append, linesOn_append, queueLines, queueLines]

theorem total_append (es es' : List (List Byte)) : total (es ++ es') = total es + total es' := by
  induction es with
  | nil =>
      simp [total]
  | cons e es ih =>
      rw [List.cons_append, total, total, ih, Nat.add_assoc]

theorem ServerSocket.step (h : ServerSocket net socket k s) (hnodes : SameNodes net net')
    (hs : net'.socketnode[k]? = some s') (hfixed : s'.fixed = s.fixed) :
    ServerSocket net' socket k s' where
  node := by
    rw [hnodes.getpsocketbysock]
    exact h.node
  sock := hs
  number := h.number
  connected := (congrArg (fun p => p.2.1) hfixed).trans h.connected
  server := (congrArg (fun p => p.2.2.2.2.2) hfixed).trans h.server
  alone := (congrArg (fun p => p.2.2.2.1) hfixed).trans h.alone

/-- Nothing is written when the socket changes without losing an entry. -/
theorem ServerStep.quiet (h : ServerSocket net socket k s) (s' : Psockett) (hfixed : s'.fixed = s.fixed)
    (hqueue : queue s' = queue s ++ app) (hbytes : s'.serverbytes = s.serverbytes) (u : Bool)
    {outs : List Output} (hping : ∀ out ∈ outs, out.site = .ping) :
    ServerStep socket k net (net.touch k s' u outs) s s' app [] where
  nodes := sameNodes_touch h.sock hfixed u outs
  sock := node_touch h.sock u outs
  fixed := hfixed
  entries := hqueue.symm
  wire := by
    refine ⟨outs, rfl, ?_⟩
    rw [queueLines, List.filter_eq_nil_iff.2]
    · rfl
    · intro out hout
      simp [hping out hout]
  bytes := hbytes
  budget := fun hne => absurd rfl hne

/-- A step that takes nothing from the queue, and then another one. -/
theorem ServerStep.quiet_trans {net'' : Net} {s'' : Psockett} {app' : List (List Byte)}
    (h : ServerStep socket k net net' s s' app []) (h' : ServerStep socket k net' net'' s' s'' app' gone)
    (hstoned : s'.serverstoned = s.serverstoned) :
    ServerStep socket k net net'' s s'' (app ++ app') gone := by
  rcases h.wire with ⟨outs, houts, hlines⟩
  rcases h'.wire with ⟨outs', houts', hlines'⟩
  have hbytes : s'.serverbytes = s.serverbytes := h.bytes
  refine ⟨h.nodes.trans h'.nodes, h'.sock, h'.fixed.trans h.fixed, ?_, ?_, ?_, ?_⟩
  · rw [← List.append_assoc, h.entries, List.nil_append]
    exact h'.entries
  · refine ⟨outs ++ outs', ?_, ?_⟩
    · rw [houts', houts, List.append_assoc]
    · rw [queueLines_append, hlines, List.flatMap_nil, List.nil_append, hlines', h.nodes.before,
        entryLines_congr h.fixed]
  · rw [h'.bytes, hbytes]
  · rw [← hstoned, ← hbytes]
    exact h'.budget

/-- The same when the second step is the quiet one. -/
theorem ServerStep.trans_quiet {net'' : Net} {s'' : Psockett} {app' : List (List Byte)}
    (h : ServerStep socket k net net' s s' app gone) (h' : ServerStep socket k net' net'' s' s'' app' []) :
    ServerStep socket k net net'' s s'' (app ++ app') gone := by
  rcases h.wire with ⟨outs, houts, hlines⟩
  rcases h'.wire with ⟨outs', houts', hlines'⟩
  have hbytes : s''.serverbytes = s'.serverbytes := h'.bytes
  have hqueue : queue s' ++ app' = queue s'' := h'.entries
  refine ⟨h.nodes.trans h'.nodes, h'.sock, h'.fixed.trans h.fixed, ?_, ?_, ?_, h.budget⟩
  · rw [← List.append_assoc, h.entries, List.append_assoc, hqueue]
  · refine ⟨outs ++ outs', ?_, ?_⟩
    · rw [houts', houts, List.append_assoc]
    · rw [queueLines_append, hlines, hlines', List.flatMap_nil, List.append_nil]
  · rw [hbytes, h.bytes]

/-- Writing the first entry leaves `serverbytes` alone. -/
theorem sendHead_bytes {msq : Sendqt} {rest : List Sendqt} {t : Psockett}
    (ht : net.socketnode[k]? = some t) (h : sendHead k socket s msq rest net = some net') :
    ∃ t', net'.socketnode[k]? = some t' ∧ t'.serverbytes = t.serverbytes := by
  let popped : Psockett := { t with sendq := rest, entrys := t.entrys - 1 }
  have hnet : { net.modify k fun s => { s with sendq := rest, entrys := s.entrys - 1 } with
      urgent := true } = net.touch k popped true [] := by
    simp [popped, Net.modify, Net.touch, List.modify_eq_set_getElem?, ht]
  have hnode : (net.touch k popped true []).socketnode[k]? = some popped := node_touch ht true []
  rw [sendHead] at h
  simp only [hnet] at h
  split at h
  · cases h
    rw [writesockStreamNow_eq hnode, touch_touch]
    exact ⟨_, node_touch ht _ _, rfl⟩
  · rw [writesockNow, hnode] at h
    simp only at h
    split at h
    · cases h
      exact ⟨popped, hnode, rfl⟩
    · split at h
      · cases h
        exact ⟨popped, hnode, rfl⟩
      · rcases Option.map_eq_some_iff.1 h with ⟨buf, _, rfl⟩
        refine ⟨{ popped with bytesout := popped.bytesout + buf.length, delay := 300 }, ?_, rfl⟩
        split
        · simp [Net.modify, Net.write, hnode]
        · simp [Net.modify, hnode]

/-- `flushsendq` counts what it takes from the queue of a server. -/
theorem flushsendq_bytes (h : ServerSocket net socket k s) {forced : Bool}
    (hcall : flushsendq socket forced net = some net') :
    ∃ s', net'.socketnode[k]? = some s' ∧
      ((∃ msq rest, s.sendq = msq :: rest ∧ Takes s forced msq ∧
          s'.serverbytes = s.serverbytes + strlen msq.data) ∨
        ((∀ msq rest, s.sendq = msq :: rest → ¬ Takes s forced msq) ∧
          s'.serverbytes = s.serverbytes)) := by
  have hflag : ¬ s.flag < SOC_CONN := by
    rw [h.connected]
    exact lt_irrefl _
  simp only [flushsendq, h.node, h.sock] at hcall
  cases hq : s.sendq with
  | nil =>
      rw [hq] at hcall
      cases hcall
      refine ⟨s, h.sock, Or.inr ⟨?_, rfl⟩⟩
      intro msq rest hno
      cases hno
  | cons msq rest =>
      rw [hq] at hcall
      simp only [if_neg hflag] at hcall
      have hserver : s.serversocket = true ∧ s.flag = SOC_CONN := ⟨h.server, h.connected⟩
      have hhead : ∀ msq' rest', msq :: rest = msq' :: rest' → msq' = msq := by
        intro msq' rest' hsame
        exact (List.cons.inj hsame).1.symm
      -- The cases are the guards of the source, in its order; only behind the last one is an entry taken.
      by_cases hwait : forced = false ∧ 0 < msq.delay
      · rw [if_pos hwait] at hcall
        cases hcall
        refine ⟨{ s with sendq := { msq with delay := msq.delay - net.delayinc } :: rest }, ?_,
          Or.inr ⟨?_, rfl⟩⟩
        · rw [modify_eq_touch h.sock]
          exact node_touch h.sock _ _
        · intro msq' rest' hsame htakes
          rw [hhead msq' rest' hsame] at htakes
          rcases htakes.2.1 with hforced | hdelay
          · exact absurd (hwait.1.symm.trans hforced) (by simp)
          · exact absurd hwait.2 (Int.not_lt.2 hdelay)
      have hready : forced = true ∨ msq.delay ≤ 0 := by
        by_cases hforced : forced = true
        · exact Or.inl hforced
        · right
          apply Int.not_lt.1
          exact fun hdelay => hwait ⟨Bool.eq_false_iff.2 hforced, hdelay⟩
      rw [if_neg hwait, if_pos hserver] at hcall
      by_cases hstoned : 0 < s.serverstoned
      · rw [if_pos hstoned] at hcall
        cases hcall
        refine ⟨s, h.sock, Or.inr ⟨?_, rfl⟩⟩
        intro msq' rest' _ htakes
        exact absurd hstoned (Int.not_lt.2 (htakes.2.2 h.server h.connected).1)
      rw [if_neg hstoned] at hcall
      by_cases hflood : 700 < s.serverbytes + (cstr msq.data).length ∧ (cstr msq.data).length < 700
      · rw [if_pos hflood] at hcall
        cases hcall
        -- The server is pinged instead, and the count stays.
        refine ⟨{ s with serverstoned := 20 }, ?_, Or.inr ⟨?_, rfl⟩⟩
        · rw [modify_eq_touch h.sock]
          exact node_touch h.sock net.urgent []
        · intro msq' rest' hsame htakes
          rw [hhead msq' rest' hsame] at htakes
          rcases (htakes.2.2 h.server h.connected).2 with hle | hlong
          · exact absurd hflood.1 (Nat.not_lt_of_le hle)
          · exact absurd hflood.2 (Nat.not_lt_of_le hlong)
      · rw [if_neg hflood, modify_eq_touch h.sock] at hcall
        rcases sendHead_bytes (node_touch h.sock _ _) hcall with ⟨s', hs', hbytes⟩
        refine ⟨s', hs', Or.inl ⟨msq, rest, rfl, ⟨Nat.le_of_not_lt hflag, hready, ?_⟩, hbytes⟩⟩
        intro _ _
        refine ⟨Int.not_lt.1 hstoned, ?_⟩
        by_cases hlong : 700 ≤ (cstr msq.data).length
        · exact Or.inr hlong
        · left
          apply Nat.le_of_not_lt
          exact fun hover => hflood ⟨hover, Nat.lt_of_not_le hlong⟩

/-- An entry that is taken is written as its lines. -/
theorem entryOutput_lines (h : ServerSocket net socket k s) {u : Bool} {outs : List Output} {e : List Byte}
    (hout : entryOutput net.before socket s e = some (u, outs)) :
    queueLines socket outs = entryLines net.before s e := by
  rcases entryOutput_cases h.connected h.number net.before e with
    ⟨_, out, hsome, hsite, hsock, hlines⟩ | ⟨hbad, hnone | hsome⟩
  · cases hout.symm.trans hsome
    rw [hlines, queueLines, linesOn, List.filter_cons_of_pos (by simpa using hsite), List.filter_nil,
      List.filter_cons_of_pos (by simpa using hsock)]
    rfl
  · cases hout.symm.trans hnone
  · cases hout.symm.trans hsome
    have hflow : s.dataflow ≠ .stream := fun hstream => hbad (Or.inl hstream)
    have hempty : cstr e = [] := by
      by_contra hne
      apply hbad
      right
      refine ⟨hne, ?_⟩
      rw [entryOutput, if_neg hflow, textOutput,
        if_neg (not_or.2 ⟨h.number, hne⟩)] at hsome
      rcases Option.map_eq_some_iff.1 hsome with ⟨buf, hbuf, _⟩
      rw [hbuf]
      rfl
    rw [entryLines, if_neg hflow, hempty]
    rfl

/-- One call of `flushsendq` on the socket of a server. -/
theorem flushsendq_server (h : ServerSocket net socket k s) {forced : Bool}
    (hcall : flushsendq socket forced net = some net') :
    ∃ s' gone, ServerStep socket k net net' s s' [] gone := by
  rcases flushsendq_bytes h hcall with ⟨s', hs', hbytes⟩
  have hresult := flushsendq_result net socket forced
  rw [hcall] at hresult
  cases hresult with
  | idle hno =>
      cases h.sock.symm.trans hs'
      refine ⟨s, [], SameNodes.refl net, h.sock, rfl, by simp, ⟨[], by simp, rfl⟩, rfl, ?_⟩
      exact fun hne => absurd rfl hne
  | @kept k' t t' msq rest outs hhead hno hkept hping =>
      have hk : k' = k := Option.some.inj (hhead.node.symm.trans h.node)
      subst hk
      have ht : t = s := Option.some.inj (hhead.sock.symm.trans h.sock)
      subst ht
      have ht' : t' = s' := Option.some.inj ((node_touch h.sock _ _).symm.trans hs')
      subst ht'
      rcases hbytes with ⟨msq', rest', hq, htakes, _⟩ | ⟨_, hsame⟩
      · rcases List.cons.inj (hhead.sendq.symm.trans hq) with ⟨rfl, rfl⟩
        exact absurd htakes hno
      · refine ⟨t', [], ServerStep.quiet h t' hkept.fixed ?_ hsame _ hping⟩
        rw [List.append_nil]
        exact hkept.sendq
  | @sent k' t t' msq rest u outs hhead htakes hout hpop =>
      have hk : k' = k := Option.some.inj (hhead.node.symm.trans h.node)
      subst hk
      have ht : t = s := Option.some.inj (hhead.sock.symm.trans h.sock)
      subst ht
      have ht' : t' = s' := Option.some.inj ((node_touch h.sock _ _).symm.trans hs')
      subst ht'
      rcases hbytes with ⟨msq', rest', hq, _, hcount⟩ | ⟨hno, _⟩
      · rcases List.cons.inj (hhead.sendq.symm.trans hq) with ⟨rfl, rfl⟩
        refine ⟨t', [msq.data], sameNodes_touch h.sock hpop.fixed _ _, node_touch h.sock _ _,
          hpop.fixed, ?_, ⟨outs, rfl, ?_⟩, ?_, ?_⟩
        · simp [queue, hhead.sendq, hpop.sendq]
        · rw [entryOutput_lines h hout, List.flatMap_singleton]
        · simp [hcount, total]
        · intro _
          rcases htakes.2.2 h.server h.connected with ⟨hstoned, hfits | hlong⟩
          · exact ⟨hstoned, Or.inl hfits⟩
          · exact ⟨hstoned, Or.inr ⟨msq.data, List.mem_singleton_self _, hlong⟩⟩
      · exact absurd htakes (hno msq rest hhead.sendq)

/-- A socket without a group gets one entry. -/
theorem ServerSocket.addq_eq (h : ServerSocket net socket k s) (data : List Byte) (sqdelay : Int) :
    addq socket data sqdelay net = addEntry socket data sqdelay k net := by
  rw [addq, h.node]
  simp only [Option.bind_some, h.sock, Option.map_some, Option.getD_some, h.alone, ne_eq,
    not_true, if_false]

/-- One call of `addq` on the socket of a server. -/
theorem addq_server (h : ServerSocket net socket k s) {data : List Byte} {sqdelay : Int}
    (hcall : addq socket data sqdelay net = some net') :
    ∃ s' gone, ServerStep socket k net net' s s' [data] gone := by
  rw [h.addq_eq] at hcall
  rcases addEntry_cases h.sock hcall with ⟨net₂, t, ht, rfl, hflush⟩
  have hcount : ServerStep socket k net (net.touch k s.countUp net.urgent []) s s.countUp [] [] :=
    ServerStep.quiet h s.countUp rfl (List.append_nil _).symm rfl _ (List.forall_mem_nil _)
  have hserver := h.step hcount.nodes hcount.sock hcount.fixed
  -- The entry comes behind what the flush has left.
  have happend : ∀ {net₂ : Net} {t : Psockett}, ServerSocket net₂ socket k t →
      ServerStep socket k net₂ (net₂.touch k (t.append ⟨data, sqdelay⟩) net₂.urgent []) t
        (t.append ⟨data, sqdelay⟩) [data] [] := by
    intro net₂ t hserver₂
    refine ServerStep.quiet hserver₂ (t.append ⟨data, sqdelay⟩) rfl ?_ rfl _ (List.forall_mem_nil _)
    simp [queue, Psockett.append]
  split at hflush
  · rcases flushsendq_server hserver hflush with ⟨t', gone, hstep⟩
    cases ht.symm.trans hstep.sock
    have hboth := hcount.quiet_trans hstep rfl
    exact ⟨_, gone, hboth.trans_quiet (happend (h.step hboth.nodes hboth.sock hboth.fixed))⟩
  · subst hflush
    cases ht.symm.trans hcount.sock
    exact ⟨_, [], hcount.trans_quiet (happend hserver)⟩

end Steps

/-! ## Runs -/

/-- `Controlled`, with what the counter stands for. -/
structure Balanced (socket : Int) (k : Nat) (w : Watch) (s : Psockett) : Prop where
  server : ServerSocket w.net socket k s
  reset : w.reset ≤ w.net.wire.length
  lines : ∃ old recent, w.queued = old ++ recent ++ queue s ∧
    queueLines socket (w.net.wire.take w.reset) = old.flatMap (entryLines w.net.before s) ∧
    queueLines socket (w.net.wire.drop w.reset) = recent.flatMap (entryLines w.net.before s) ∧
    (total recent ≤ 700 ∨ ∃ e ∈ recent, 700 ≤ strlen e) ∧ total recent ≤ s.serverbytes

section Runs

variable {w w' : Watch} {net : Net} {socket : Int} {k : Nat} {s s' : Psockett}

theorem Balanced.controlled (h : Balanced socket k w s) : Controlled socket w s := by
  rcases h.lines with ⟨old, recent, hqueued, hold, hrecent, hbudget, _⟩
  exact ⟨old, recent, hqueued, hold, hrecent, hbudget⟩

/-- The counter grows with what is written, and a line is written only when it fits. -/
theorem Balanced.step (h : Balanced socket k w s) {app gone : List (List Byte)}
    (hstep : ServerStep socket k w.net net s s' app gone) :
    Balanced socket k { w with net := net, queued := w.queued ++ app } s' := by
  rcases h.lines with ⟨old, recent, hqueued, hold, hrecent, hbudget, htotal⟩
  rcases hstep.wire with ⟨outs, hwire, hlines⟩
  have hsame := entryLines_congr hstep.fixed w.net.before
  have hcount : total (recent ++ gone) ≤ s'.serverbytes := by
    rw [total_append, hstep.bytes]
    exact Nat.add_le_add_right htotal _
  refine ⟨h.server.step hstep.nodes hstep.sock hstep.fixed, ?_, old, recent ++ gone, ?_, ?_, ?_, ?_,
    hcount⟩
  · simp only [hwire, List.length_append]
    exact Nat.le_add_right_of_le h.reset
  · simp only [hqueued, List.append_assoc]
    rw [hstep.entries]
  · simp only [hwire]
    rw [List.take_append_of_le_length h.reset, hold, hstep.nodes.before, hsame]
  · simp only [hwire]
    rw [List.drop_append_of_le_length h.reset, queueLines_append, hrecent, hlines,
      List.flatMap_append, hstep.nodes.before, hsame]
  · by_cases hgone : gone = []
    · rw [hgone, List.append_nil]
      exact hbudget
    · rcases (hstep.budget hgone).2 with hfits | ⟨e, he, hlong⟩
      · left
        rw [total_append]
        exact (Nat.add_le_add_right htotal _).trans hfits
      · exact Or.inr ⟨e, List.mem_append_right _ he, hlong⟩

/-- What is set to 0 starts a new period. -/
theorem Balanced.change (h : Balanced socket k w s) {resets : Psockett → Bool} {f : Psockett → Psockett}
    (hfixed : (f s).fixed = s.fixed) (hqueue : queue (f s) = queue s)
    (hbytes : resets s = false → (f s).serverbytes = s.serverbytes) :
    Balanced socket k (w.change socket resets f) (f s) := by
  rcases h.lines with ⟨old, recent, hqueued, hold, hrecent, hbudget, htotal⟩
  have hsame := entryLines_congr hfixed w.net.before
  have hnet : w.net.modify k f = w.net.touch k (f s) w.net.urgent [] := modify_eq_touch h.server.sock f
  have hnodes := sameNodes_touch h.server.sock hfixed w.net.urgent []
  have hserver : ServerSocket (w.net.modify k f) socket k (f s) := by
    rw [hnet]
    exact h.server.step hnodes (node_touch h.server.sock _ _) hfixed
  rw [Watch.change, h.server.node]
  simp only [h.server.sock, Option.any_some]
  refine ⟨hserver, ?_, ?_⟩
  · simp only
    split
    · exact le_refl _
    · exact h.reset
  · cases hresets : resets s with
    | true =>
        refine ⟨old ++ recent, [], ?_, ?_, ?_, Or.inl (Nat.zero_le _), Nat.zero_le _⟩
        · simp only [hqueued, List.append_nil]
          rw [hqueue]
        · have hall : queueLines socket w.net.wire =
              queueLines socket (w.net.wire.take w.reset) ++ queueLines socket (w.net.wire.drop w.reset) := by
            rw [← queueLines_append, List.take_append_drop]
          simp only [if_true, Net.modify, List.take_length]
          rw [hall, hold, hrecent, List.flatMap_append, hsame]
        · simp only [if_true, Net.modify, List.drop_length]
          rfl
    | false =>
        refine ⟨old, recent, ?_, ?_, ?_, hbudget, ?_⟩
        · simp only [hqueued]
          rw [hqueue]
        · simp only [Bool.false_eq_true, if_false, Net.modify]
          rw [hold, hsame]
        · simp only [Bool.false_eq_true, if_false, Net.modify]
          rw [hrecent, hsame]
        · rw [hbytes hresets]
          exact htotal

theorem stoneTimer_spec (delayinc : Int) (s : Psockett) :
    (stoneTimer delayinc s).fixed = s.fixed ∧ (stoneTimer delayinc s).sendq = s.sendq ∧
      (decide (0 < s.serverstoned ∧ s.serverstoned - delayinc = 0) = false →
        (stoneTimer delayinc s).serverbytes = s.serverbytes) := by
  rw [stoneTimer]
  split
  · next hstoned =>
    refine ⟨rfl, rfl, fun hno => ?_⟩
    rw [decide_eq_false_iff_not] at hno
    exact if_neg fun hzero => hno ⟨hstoned.2, hzero⟩
  · exact ⟨rfl, rfl, fun _ => rfl⟩

theorem queueTimer_spec (delayinc : Int) (s : Psockett) :
    (queueTimer delayinc s).fixed = s.fixed ∧ queue (queueTimer delayinc s) = queue s ∧
      (queueTimer delayinc s).serverbytes = s.serverbytes := by
  rw [queueTimer]
  split
  · exact ⟨rfl, rfl, rfl⟩
  · next msq rest hq =>
    split
    · refine ⟨rfl, ?_, rfl⟩
      simp [queue, hq]
    · exact ⟨rfl, rfl, rfl⟩

theorem receivedPong_spec (s : Psockett) :
    (receivedPong s).fixed = s.fixed ∧ queue (receivedPong s) = queue s ∧
      (decide (s.serverstoned ≠ 0) = false → (receivedPong s).serverbytes = s.serverbytes) := by
  rw [receivedPong, gotPong]
  split
  · split
    · next hstoned =>
      refine ⟨rfl, rfl, fun hno => ?_⟩
      exact absurd hstoned (of_decide_eq_false hno)
    · exact ⟨rfl, rfl, fun _ => rfl⟩
  · exact ⟨rfl, rfl, fun _ => rfl⟩

theorem ServerStep.mem {net' : Net} {app gone : List (List Byte)}
    (h : ServerStep socket k net net' s s' app gone) {e : List Byte} (he : e ∈ queue s') :
    e ∈ queue s ++ app := by
  rw [h.entries]
  exact List.mem_append_right _ he

/-- Every call keeps what was written within the budget. -/
theorem Balanced.run (h : Balanced socket k w s) {call : ServerCall} (hcall : call.run socket w = some w') :
    ∃ s', Balanced socket k w' s' ∧ ∀ e ∈ queue s', e ∈ queue s ++ call.adds := by
  cases call with
  | addq data sqdelay =>
      rcases Option.map_eq_some_iff.1 hcall with ⟨net, hnet, rfl⟩
      rcases addq_server h.server hnet with ⟨s', gone, hstep⟩
      exact ⟨s', h.step hstep, fun e he => hstep.mem he⟩
  | flushsendq forced =>
      rcases Option.map_eq_some_iff.1 hcall with ⟨net, hnet, rfl⟩
      rcases flushsendq_server h.server hnet with ⟨s', gone, hstep⟩
      have hbalanced := h.step hstep
      rw [List.append_nil] at hbalanced
      exact ⟨s', hbalanced, fun e he => hstep.mem he⟩
  | timer advanced =>
      cases hcall
      rcases stoneTimer_spec (if advanced then 1 else 0) s with ⟨hfixed, hsendq, hbytes⟩
      rcases queueTimer_spec (if advanced then 1 else 0) (stoneTimer (if advanced then 1 else 0) s) with
        ⟨hfixed', hqueue, hbytes'⟩
      have hticked : Balanced socket k
          { w with net := { w.net with delayinc := if advanced then 1 else 0 } } s :=
        ⟨⟨h.server.node, h.server.sock, h.server.number, h.server.connected, h.server.server,
          h.server.alone⟩, h.reset, h.lines⟩
      have hsame : queue (queueTimer (if advanced then 1 else 0)
          (stoneTimer (if advanced then 1 else 0) s)) = queue s := by
        rw [hqueue, queue, hsendq, queue]
      refine ⟨_, hticked.change (hfixed'.trans hfixed) hsame ?_, fun e he => ?_⟩
      · exact fun hno => hbytes'.trans (hbytes hno)
      · rw [hsame] at he
        exact List.mem_append_left _ he
  | pong =>
      cases hcall
      rcases receivedPong_spec s with ⟨hfixed, hqueue, hbytes⟩
      refine ⟨_, h.change hfixed hqueue hbytes, fun e he => ?_⟩
      rw [hqueue] at he
      exact List.mem_append_left _ he

theorem Balanced.runAll (h : Balanced socket k w s) {calls : List ServerCall}
    (hrun : CLib.runAll (ServerCall.run socket) w calls = some w') : ∃ s', Balanced socket k w' s' := by
  induction calls generalizing w s with
  | nil =>
      cases hrun
      exact ⟨s, h⟩
  | cons call calls ih =>
      rcases Option.bind_eq_some_iff.1 hrun with ⟨between, hcall, hrest⟩
      rcases h.run hcall with ⟨t, ht, _⟩
      exact ih ht hrest

theorem ServerStep.silent {net' : Net} {app gone : List (List Byte)}
    (h : ServerStep socket k net net' s s' app gone) (hstoned : 0 < s.serverstoned) :
    queueLines socket (net'.wire.drop net.wire.length) = [] := by
  have hgone : gone = [] := by
    by_contra hne
    exact absurd hstoned (Int.not_lt.2 (h.budget hne).1)
  rcases h.wire with ⟨outs, hwire, hlines⟩
  rw [hwire, List.drop_left, hlines, hgone]
  rfl

/-- A stoned socket does not write from its queue. -/
theorem Balanced.silent (h : Balanced socket k w s) (hstoned : 0 < s.serverstoned) {call : ServerCall}
    (hcall : call.run socket w = some w') :
    queueLines socket (w'.net.wire.drop w.net.wire.length) = [] := by
  have hsame : w'.net.wire = w.net.wire → queueLines socket (w'.net.wire.drop w.net.wire.length) = [] := by
    intro hwire
    rw [hwire, List.drop_length]
    rfl
  cases call with
  | addq data sqdelay =>
      rcases Option.map_eq_some_iff.1 hcall with ⟨net, hnet, rfl⟩
      rcases addq_server h.server hnet with ⟨s', gone, hstep⟩
      exact hstep.silent hstoned
  | flushsendq forced =>
      rcases Option.map_eq_some_iff.1 hcall with ⟨net, hnet, rfl⟩
      rcases flushsendq_server h.server hnet with ⟨s', gone, hstep⟩
      exact hstep.silent hstoned
  | timer advanced =>
      cases hcall
      apply hsame
      rw [Watch.change]
      split <;> rfl
  | pong =>
      cases hcall
      apply hsame
      rw [Watch.change]
      split <;> rfl

/-! ## Runs that do not stop -/

/-- The texts in the queue fit the buffer of `writesock` with a line end. -/
def ShortLines (s : Psockett) : Prop := ∀ e ∈ queue s, strlen e < 8198

theorem lineText_of_short (before : Byte) {data : CStr} (hshort : data.length < 8198) :
    (lineText before data).isSome = true := by
  have hclip : clip 8200 data = data := by
    rw [clip, List.take_of_length_le]
    exact Nat.le_of_lt (Nat.lt_trans hshort (by decide))
  have hfits : (lineEnd before data).length < 8200 := by
    rw [lineEnd]
    cases hcut : cutAt LF data with
    | none =>
        simp only [List.length_append, List.length_cons, List.length_nil]
        omega
    | some parts =>
        rcases parts with ⟨u, v⟩
        rcases cutAt_eq_some.1 hcut with ⟨rfl, _⟩
        rw [List.length_append, List.length_cons] at hshort
        simp only
        split
        · simp only [List.length_append, List.length_cons]
          omega
        · simp only [List.length_append, List.length_cons, List.length_nil]
          omega
  rw [lineText, hclip]
  simp only [hfits, if_true]
  rfl

theorem flushsendq_isSome (h : ServerSocket net socket k s) (hshort : ShortLines s) (forced : Bool) :
    ∃ net', flushsendq socket forced net = some net' := by
  have hresult := flushsendq_result net socket forced
  generalize flushsendq socket forced net = result at hresult
  cases hresult with
  | idle _ => exact ⟨_, rfl⟩
  | kept _ _ _ _ => exact ⟨_, rfl⟩
  | sent _ _ _ _ => exact ⟨_, rfl⟩
  | @failed k' t msq rest hhead _ hnone =>
      have hk : k' = k := Option.some.inj (hhead.node.symm.trans h.node)
      subst hk
      have ht : t = s := Option.some.inj (hhead.sock.symm.trans h.sock)
      subst ht
      have hmem : msq.data ∈ queue t := by
        rw [queue, hhead.sendq]
        exact List.mem_map_of_mem List.mem_cons_self
      have hline := lineText_of_short net.before (hshort _ hmem)
      rw [entryOutput] at hnone
      split at hnone
      · cases hnone
      · rw [textOutput] at hnone
        split at hnone
        · cases hnone
        · rw [Option.map_eq_none_iff.1 hnone] at hline
          cases hline

theorem addq_isSome (h : ServerSocket net socket k s) (hshort : ShortLines s) (data : List Byte)
    (sqdelay : Int) : ∃ net', addq socket data sqdelay net = some net' := by
  rw [h.addq_eq]
  by_cases hfull : (MAX_SENDQ : Int) < s.entrys + 1 ∧ s.serverstoned = 0
  · rw [addEntry_full h.sock _ _ _ hfull]
    have hsame : SameNodes net (net.touch k s.countUp net.urgent []) :=
      sameNodes_touch h.sock (rfl : s.countUp.fixed = s.fixed) _ _
    have hcount : ServerSocket (net.touch k s.countUp net.urgent []) socket k s.countUp :=
      h.step hsame (node_touch h.sock _ _) rfl
    rcases flushsendq_isSome hcount hshort true with ⟨net', hnet'⟩
    rw [hnet']
    exact ⟨_, rfl⟩
  · exact ⟨_, addEntry_room h.sock _ _ _ hfull⟩

theorem Balanced.run_isSome (h : Balanced socket k w s) (hshort : ShortLines s) (call : ServerCall) :
    ∃ w', call.run socket w = some w' := by
  cases call with
  | addq data sqdelay =>
      rcases addq_isSome h.server hshort data sqdelay with ⟨net, hnet⟩
      rw [ServerCall.run, hnet]
      exact ⟨_, rfl⟩
  | flushsendq forced =>
      rcases flushsendq_isSome h.server hshort forced with ⟨net, hnet⟩
      rw [ServerCall.run, hnet]
      exact ⟨_, rfl⟩
  | timer advanced => exact ⟨_, rfl⟩
  | pong => exact ⟨_, rfl⟩

theorem Balanced.runAll_isSome (h : Balanced socket k w s) (hshort : ShortLines s) {calls : List ServerCall}
    (hcalls : ∀ call ∈ calls, ∀ e ∈ call.adds, strlen e < 8198) :
    ∃ w', CLib.runAll (ServerCall.run socket) w calls = some w' := by
  induction calls generalizing w s with
  | nil =>
      exact ⟨w, rfl⟩
  | cons call calls ih =>
      rcases h.run_isSome hshort call with ⟨between, hbetween⟩
      rcases h.run hbetween with ⟨t, ht, hmem⟩
      have hshort' : ShortLines t := by
        intro e he
        rcases List.mem_append.1 (hmem e he) with hold | hnew
        · exact hshort e hold
        · exact hcalls call List.mem_cons_self e hnew
      rcases ih ht hshort' fun c hc => hcalls c (List.mem_cons_of_mem _ hc) with ⟨w', hw'⟩
      exact ⟨w', by rw [CLib.runAll, hbetween]; exact hw'⟩

theorem balanced_start (h : ServerSocket net socket k s) :
    Balanced socket k (Watch.start net socket) s := by
  refine ⟨⟨h.node, h.sock, h.number, h.connected, h.server, h.alone⟩, le_refl _, [], [], ?_, rfl, rfl,
    Or.inl (Nat.zero_le _), Nat.zero_le _⟩
  rw [Watch.start, h.node]
  exact queueAt_eq h.sock

/-- In every run on the socket of a server, what is written from the queue between two resets of
`serverbytes` has at most 700 bytes unless one line alone has as many, every line is still queued or
was written once, in the order of the queue, and nothing is written from the queue of a stoned socket.
The run does not stop as long as the lines fit the buffer they are written from. -/
theorem server_flood_control (h : ServerSocket net socket k s) (calls : List ServerCall) :
    (∀ w, CLib.runAll (ServerCall.run socket) (Watch.start net socket) calls = some w →
      ∃ s', ServerSocket w.net socket k s' ∧ Controlled socket w s' ∧
        (0 < s'.serverstoned → ∀ call w', ServerCall.run socket w call = some w' →
          queueLines socket (w'.net.wire.drop w.net.wire.length) = [])) ∧
    (ShortLines s → (∀ call ∈ calls, ∀ e ∈ call.adds, strlen e < 8198) →
      ∃ w, CLib.runAll (ServerCall.run socket) (Watch.start net socket) calls = some w) := by
  have hstart := balanced_start h
  constructor
  · intro w hrun
    rcases hstart.runAll hrun with ⟨s', hend⟩
    exact ⟨s', hend.server, hend.controlled, fun hstoned call w' => hend.silent hstoned⟩
  · exact fun hshort hcalls => hstart.runAll_isSome hshort hcalls

end Runs

/-- A server without anything in its queue. -/
def quietServer : Net where
  socketnode := [{ syssock := 5, flag := SOC_CONN, serversocket := true }]

theorem server_flood_control_line :
    ∃ w s, CLib.runAll (ServerCall.run 5) (Watch.start quietServer 5)
      [.addq (ascii "JOIN" ++ [0]) 0, .timer true, .flushsendq false, .pong] = some w ∧
      Controlled 5 w s := by
  have hserver : ServerSocket quietServer 5 0
      { syssock := 5, flag := SOC_CONN, serversocket := true } :=
    ⟨rfl, rfl, by decide, rfl, rfl, rfl⟩
  rcases server_flood_control hserver
    [.addq (ascii "JOIN" ++ [0]) 0, .timer true, .flushsendq false, .pong] with ⟨hall, hsome⟩
  have hshort : ShortLines { syssock := 5, flag := SOC_CONN, serversocket := true } := by
    intro e he
    cases he
  rcases hsome hshort (by decide) with ⟨w, hw⟩
  rcases hall w hw with ⟨s, _, hcontrolled, _⟩
  exact ⟨w, s, hw, hcontrolled⟩

end PsyBnc
