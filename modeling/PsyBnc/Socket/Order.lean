import PsyBnc.Lib.Run
import PsyBnc.Socket.Accounting

/-!
# The order of lines

A line written without urgency waits in the queue of its socket, or goes out at once on a socket
with `nowfds`; either way it reaches the wire behind the lines written before it.  This rests on
`urgent` being cleared at the end of every call.  Writing an empty line returns before the flag is
cleared, and then the next line, on whatever socket, overtakes a queue.
-/

namespace PsyBnc

open CLib

/-- A text that C code can pass on. -/
abbrev Text := {s : CStr // (0 : Byte) ∉ s}

inductive LineCall where
  | writesock (socket : Int) (data : Text)
  | writesock_URGENT (socket : Int) (data : Text)
  | ssnprintf (sock : Int) (text : Text)
  | flushsendq (socket : Int) (forced : Bool)

/-! ## What is asked for and what is sent -/

/-- A line as it should appear on the wire. -/
def wireLine (before : Byte) (data : CStr) : List Byte :=
  replaceByte 127 37 ((lineText before data).getD [])

/-- The empty text is no line. -/
def textLines (before : Byte) (data : CStr) : List (List Byte) :=
  if data = [] then [] else [wireLine before data]

/-- The same for an entry of a queue; a binary socket sends it as it is. -/
def entryLines (before : Byte) (s : Psockett) (e : List Byte) : List (List Byte) :=
  if s.dataflow = .stream then [e] else textLines before (cstr e)

/-- What a plain write to the socket should put on its wire. -/
def plainLines (before : Byte) (s : Psockett) (data : CStr) : List (List Byte) :=
  if s.nowfds = true then textLines before data else entryLines before s (data ++ [0])

/-- The sockets, with a record of the plain writes that were asked for and of what calls that were
not urgent have put on the wire. -/
structure Session where
  net : Net
  asked : List (Int × List Byte) := []
  sent : List Output := []

/-- What a call put on the wire, the PING of the flood protection apart. -/
def newLines (net net' : Net) : List Output :=
  (net'.wire.drop net.wire.length).filter fun out => decide (out.site ≠ .ping)

def Session.emit (sess : Session) (net' : Net) : Session :=
  { sess with net := net', sent := sess.sent ++ newLines sess.net net' }

def Session.ask (sess : Session) (socket : Int) (data : CStr) : Session :=
  match (getpsocketbysock sess.net socket).bind fun k => sess.net.socketnode[k]? with
  | none => sess
  | some s =>
      let lines := plainLines sess.net.before s data
      { sess with asked := sess.asked ++ lines.map fun line => (socket, line) }

/-- One call, with its record. -/
def LineCall.run (sess : Session) : LineCall → Option Session
  | .writesock socket data =>
      (PsyBnc.writesock socket data.1 sess.net).map fun net' => (sess.ask socket data.1).emit net'
  | .writesock_URGENT socket data =>
      (PsyBnc.writesock_URGENT socket data.1 sess.net).map fun net' => { sess with net := net' }
  | .ssnprintf sock text =>
      (PsyBnc.ssnprintf sock text.1 sess.net).map fun net' =>
        (sess.ask sock (clip 8192 text.1)).emit net'
  | .flushsendq socket forced =>
      (PsyBnc.flushsendq socket forced sess.net).map sess.emit

def askedOn (sess : Session) (socket : Int) : List (List Byte) :=
  (sess.asked.filter fun p => decide (p.1 = socket)).map Prod.snd

def linesOn (socket : Int) (outs : List Output) : List (List Byte) :=
  (outs.filter fun out => decide (out.socket = socket)).map Output.bytes

def queuedOn (net : Net) (socket : Int) : List (List Byte) :=
  (((getpsocketbysock net socket).bind fun k => net.socketnode[k]?).map fun s =>
    (queue s).flatMap (entryLines net.before s)).getD []

/-- Nothing is urgent, and on every socket what was sent and what is queued is what was asked for,
in this order. -/
structure InOrder (sess : Session) : Prop where
  urgent : sess.net.urgent = false
  lines : ∀ socket, linesOn socket sess.sent ++ queuedOn sess.net socket = askedOn sess socket

/-- The sockets of the run: connected, in no group, with the number of a descriptor. -/
def Connected (net : Net) : Prop :=
  ∀ s ∈ net.socketnode, s.flag = SOC_CONN ∧ s.sockgroup = 0 ∧ s.syssock ≠ 0

/-! ## The condition -/

/-- A text that `writesock` writes: not empty, and no longer than its buffer with a line end. -/
def Writable (before : Byte) (data : CStr) : Prop :=
  data ≠ [] ∧ (lineText before data).isSome = true

/-- The entry that `flushsendq` would take from the queue, if any, is binary or writable. -/
def FlushFine (net : Net) (socket : Int) (forced : Bool) : Prop :=
  ∀ k s msq rest, Head net socket k s msq rest → Takes s forced msq →
    s.dataflow = .stream ∨ Writable net.before (cstr msq.data)

/-- A line that is written past the queue fits the buffer, and what is queued are copies of it at
most; with a full queue the oldest entry can be flushed. -/
def PlainFine (net : Net) (socket : Int) (data : CStr) : Prop :=
  ∀ k s, getpsocketbysock net socket = some k → net.socketnode[k]? = some s →
    (s.nowfds = true → data ≠ [] → Writable net.before data ∧
      wireLine net.before data :: queuedOn net socket =
        queuedOn net socket ++ [wireLine net.before data]) ∧
    (s.nowfds = false → (MAX_SENDQ : Int) < s.entrys + 1 → s.serverstoned = 0 →
      FlushFine net socket true)

def LineCall.Fine (sess : Session) : LineCall → Prop
  | .writesock socket data => PlainFine sess.net socket data.1
  | .writesock_URGENT socket data =>
      (∃ k, getpsocketbysock sess.net socket = some k) ∧ Writable sess.net.before data.1
  | .ssnprintf sock text => PlainFine sess.net sock (clip 8192 text.1)
  | .flushsendq socket forced => FlushFine sess.net socket forced

/-! ## Records and queues -/

section Records

variable {net net' : Net} {socket : Int} {k : Nat} {s s' : Psockett}

theorem newLines_touch (k : Nat) (s' : Psockett) (u : Bool) (outs : List Output) :
    newLines net (net.touch k s' u outs) = outs.filter fun out => decide (out.site ≠ .ping) := by
  simp [newLines, Net.touch]

theorem linesOn_append (socket : Int) (outs outs' : List Output) :
    linesOn socket (outs ++ outs') = linesOn socket outs ++ linesOn socket outs' := by
  simp [linesOn]

theorem queuedOn_eq (hk : getpsocketbysock net socket = some k)
    (hs : net.socketnode[k]? = some s) :
    queuedOn net socket = (queue s).flatMap (entryLines net.before s) := by
  simp [queuedOn, hk, hs]

theorem entryLines_congr (h : s'.fixed = s.fixed) (before : Byte) :
    entryLines before s' = entryLines before s := by
  have hflow : s'.dataflow = s.dataflow := congrArg (fun p => p.2.2.2.2.1) h
  funext e
  simp only [entryLines, hflow]

/-- After a step on the socket found for `socket` its queue is that of the new socket, and no other
queue has changed. -/
theorem queuedOn_touch (hk : getpsocketbysock net socket = some k)
    (hs : net.socketnode[k]? = some s) (hfix : s'.fixed = s.fixed) (u : Bool)
    (outs : List Output) (socket' : Int) :
    queuedOn (net.touch k s' u outs) socket' =
      if socket' = socket then (queue s').flatMap (entryLines net.before s)
      else queuedOn net socket' := by
  have hsame := sameNodes_touch hs hfix u outs
  have hfind := hsame.getpsocketbysock socket'
  by_cases hsock : socket' = socket
  · subst hsock
    rw [if_pos rfl, queuedOn_eq (hfind.trans hk) (node_touch hs u outs), hsame.before,
      entryLines_congr hfix]
  · rw [if_neg hsock]
    have hne : getpsocketbysock net socket' ≠ some k := by
      intro hk'
      rcases node_of_getpsocketbysock hk with ⟨t, ht, hsys⟩
      rcases node_of_getpsocketbysock hk' with ⟨t', ht', hsys'⟩
      have htt : t' = t := Option.some.inj (ht'.symm.trans ht)
      exact hsock (hsys'.symm.trans (htt ▸ hsys))
    simp only [queuedOn, hfind, hsame.before]
    cases hk' : getpsocketbysock net socket' with
    | none =>
        rfl
    | some k' =>
        have hkk : k' ≠ k := fun e => hne (e ▸ hk')
        simp only [Option.bind_some, node_touch_ne hkk]

theorem SameNodes.connected (h : SameNodes net net') (hconn : Connected net) : Connected net' := by
  intro s' hs'
  rcases List.getElem?_of_mem hs' with ⟨k, hk⟩
  have hmap := congrArg (fun l => l[k]?) h.nodes
  simp only [List.getElem?_map, hk, Option.map_some] at hmap
  rcases Option.map_eq_some_iff.1 hmap.symm with ⟨s, hs, hfix⟩
  have hold := hconn s (List.mem_of_getElem? hs)
  have hflag : s.flag = s'.flag := congrArg (fun p => p.2.1) hfix
  have hgroup : s.sockgroup = s'.sockgroup := congrArg (fun p => p.2.2.2.1) hfix
  have hsys : s.syssock = s'.syssock := congrArg (fun p => p.1) hfix
  exact ⟨hflag ▸ hold.1, hgroup ▸ hold.2.1, hsys ▸ hold.2.2⟩

theorem Connected.node (hconn : Connected net) (hs : net.socketnode[k]? = some s) :
    s.flag = SOC_CONN ∧ s.sockgroup = 0 ∧ s.syssock ≠ 0 :=
  hconn s (List.mem_of_getElem? hs)

theorem syssock_ne_zero (hconn : Connected net) (hk : getpsocketbysock net socket = some k) :
    socket ≠ 0 := by
  rcases node_of_getpsocketbysock hk with ⟨s, hs, hsys⟩
  exact hsys ▸ (hconn.node hs).2.2

end Records

/-! ## What goes out -/

section Outputs

variable {socket : Int} {s : Psockett}

/-- Past the queue a text either goes out as a line and clears `urgent`, or it does neither. -/
theorem textOutput_cases (hflag : s.flag = SOC_CONN) (hsock : socket ≠ 0) (before : Byte)
    (u : Bool) (data : CStr) :
    (Writable before data ∧ ∃ out, textOutput before socket s u data = some (false, [out]) ∧
      out.site ≠ .ping ∧ out.socket = socket ∧ out.bytes = wireLine before data) ∨
    (¬ Writable before data ∧ (textOutput before socket s u data = none ∨
      textOutput before socket s u data = some (u, []))) := by
  by_cases hdata : data = []
  · refine Or.inr ⟨fun h => h.1 hdata, Or.inr ?_⟩
    simp [textOutput, hdata]
  · cases hbuf : lineText before data with
    | none =>
        refine Or.inr ⟨fun h => ?_, Or.inl ?_⟩
        · simpa [hbuf] using h.2
        · simp [textOutput, hdata, hsock, hbuf]
    | some buf =>
        refine Or.inl ⟨⟨hdata, by simp [hbuf]⟩, ⟨.writesock, socket, replaceByte 127 37 buf⟩, ?_⟩
        refine ⟨?_, by simp, rfl, by simp [wireLine, hbuf]⟩
        simp [textOutput, hdata, hsock, hbuf, hflag]

theorem entryOutput_cases (hflag : s.flag = SOC_CONN) (hsock : socket ≠ 0) (before : Byte)
    (e : List Byte) :
    ((s.dataflow = .stream ∨ Writable before (cstr e)) ∧
      ∃ out, entryOutput before socket s e = some (false, [out]) ∧ out.site ≠ .ping ∧
        out.socket = socket ∧ entryLines before s e = [out.bytes]) ∨
    (¬ (s.dataflow = .stream ∨ Writable before (cstr e)) ∧
      (entryOutput before socket s e = none ∨ entryOutput before socket s e = some (true, []))) := by
  by_cases hflow : s.dataflow = .stream
  · refine Or.inl ⟨Or.inl hflow, ⟨.writesock_STREAM, socket, e⟩, ?_, by simp, rfl, ?_⟩
    · simp [entryOutput, hflow, hflag]
    · simp [entryLines, hflow]
  · have hlines : entryLines before s e = textLines before (cstr e) := if_neg hflow
    have hout : entryOutput before socket s e = textOutput before socket s true (cstr e) :=
      if_neg hflow
    simp only [hout, hlines, hflow, false_or]
    rcases textOutput_cases hflag hsock before true (cstr e) with
      ⟨hgood, out, hsome, hsite, hsock', hbytes⟩ | hbad
    · exact Or.inl ⟨hgood, out, hsome, hsite, hsock', by simp [textLines, hgood.1, hbytes]⟩
    · exact Or.inr hbad

end Outputs

/-! ## Flushing -/

section Calls

variable {sess : Session} {socket : Int} {k : Nat} {s : Psockett}

/-- A step on the socket found for `socket`, of which `lines` are asked for, keeps the order exactly
when what it puts on the wire and what it leaves in the queue make up the old queue and `lines`. -/
theorem emit_touch_iff (hin : InOrder sess) (hk : getpsocketbysock sess.net socket = some k)
    (hs : sess.net.socketnode[k]? = some s) {s' : Psockett} (hfix : s'.fixed = s.fixed) (u : Bool)
    {outs : List Output} (hsock : ∀ out ∈ outs, out.socket = socket) (lines : List (List Byte)) :
    InOrder ({ sess with asked := sess.asked ++ lines.map fun line => (socket, line) }.emit
        (sess.net.touch k s' u outs)) ↔
      u = false ∧
        ((outs.filter fun out => decide (out.site ≠ .ping)).map Output.bytes) ++
            (queue s').flatMap (entryLines sess.net.before s) =
          (queue s).flatMap (entryLines sess.net.before s) ++ lines := by
  let news := outs.filter fun out => decide (out.site ≠ .ping)
  let new : Session := { sess with asked := sess.asked ++ lines.map fun line => (socket, line) }
  have hsock' : ∀ out ∈ news, out.socket = socket :=
    fun out hout => hsock out (List.mem_filter.1 hout).1
  have hnet : (new.emit (sess.net.touch k s' u outs)).net = sess.net.touch k s' u outs := rfl
  have hsent : (new.emit (sess.net.touch k s' u outs)).sent = sess.sent ++ news :=
    congrArg (sess.sent ++ ·) (newLines_touch k s' u outs)
  have hasked : ∀ socket', askedOn (new.emit (sess.net.touch k s' u outs)) socket' =
      askedOn sess socket' ++ if socket' = socket then lines else [] := by
    intro socket'
    by_cases hsame : socket' = socket
    · simp [askedOn, Session.emit, new, hsame, List.filter_map, Function.comp_def]
    · have hne : ¬ socket = socket' := fun e => hsame e.symm
      simp [askedOn, Session.emit, new, hsame, hne, List.filter_map, Function.comp_def]
  have hmine : linesOn socket news = news.map Output.bytes := by
    rw [linesOn, List.filter_eq_self.2 (fun out hout => by simp [hsock' out hout])]
  have hlines := hin.lines socket
  rw [queuedOn_eq hk hs] at hlines
  constructor
  · intro h
    refine ⟨h.urgent, ?_⟩
    -- What was sent before is on both sides.
    have hbalance := h.lines socket
    rw [hnet, hsent, hasked, linesOn_append, queuedOn_touch hk hs hfix, hmine, if_pos rfl,
      if_pos rfl, ← hlines, List.append_assoc, List.append_assoc] at hbalance
    exact List.append_cancel_left hbalance
  · rintro ⟨hu, hbalance⟩
    refine ⟨hu, fun socket' => ?_⟩
    rw [hnet, hsent, hasked, linesOn_append, queuedOn_touch hk hs hfix, ← hin.lines socket']
    by_cases hsame : socket' = socket
    · subst hsame
      rw [if_pos rfl, if_pos rfl, hmine, List.append_assoc, hbalance, queuedOn_eq hk hs,
        List.append_assoc]
    · -- Nothing was written to this socket.
      have hnone : linesOn socket' news = [] := by
        rw [linesOn, List.filter_eq_nil_iff.2, List.map_nil]
        intro out hout
        have hne : out.socket ≠ socket' := by
          rw [hsock' out hout]
          exact fun e => hsame e.symm
        simpa using hne
      rw [if_neg hsame, if_neg hsame, hnone, List.append_nil, List.append_nil]

theorem inOrder_emit_touch (hin : InOrder sess) (hk : getpsocketbysock sess.net socket = some k)
    (hs : sess.net.socketnode[k]? = some s) {s' : Psockett} (hfix : s'.fixed = s.fixed) {u : Bool}
    (hu : u = false) {outs : List Output} (hsock : ∀ out ∈ outs, out.socket = socket)
    (hlines : ((outs.filter fun out => decide (out.site ≠ .ping)).map Output.bytes) ++
      (queue s').flatMap (entryLines sess.net.before s) =
        (queue s).flatMap (entryLines sess.net.before s)) :
    InOrder (sess.emit (sess.net.touch k s' u outs)) := by
  have hiff := emit_touch_iff hin hk hs hfix u hsock []
  simp only [List.map_nil, List.append_nil] at hiff
  exact hiff.2 ⟨hu, hlines⟩

theorem flush_iff (hconn : Connected sess.net) (hin : InOrder sess) (socket : Int)
    (forced : Bool) :
    FlushFine sess.net socket forced ↔
      ∃ net', flushsendq socket forced sess.net = some net' ∧ InOrder (sess.emit net') := by
  have hresult := flushsendq_result sess.net socket forced
  generalize flushsendq socket forced sess.net = result at hresult
  cases hresult with
  | idle hno =>
      constructor
      · intro _
        refine ⟨sess.net, rfl, ⟨hin.urgent, fun socket' => ?_⟩⟩
        simpa [Session.emit, newLines] using hin.lines socket'
      · exact fun _ k s msq rest hhead htakes => absurd htakes (hno k s msq rest hhead)
  | @kept k s s' msq rest outs hhead hno hkept hping =>
      constructor
      · intro _
        -- Only a ping may go out, which nobody asked for.
        have hnone : outs.filter (fun out => decide (out.site ≠ .ping)) = [] := by
          refine List.filter_eq_nil_iff.2 (fun out hout => ?_)
          simp [hping out hout]
        refine ⟨_, rfl, ?_⟩
        refine ⟨hin.urgent, fun socket' => ?_⟩
        have hold := hin.lines socket'
        simp only [Session.emit, newLines_touch, hnone, List.append_nil,
          queuedOn_touch hhead.node hhead.sock hkept.fixed]
        by_cases hsame : socket' = socket
        · subst hsame
          rw [if_pos rfl, queue, hkept.sendq, ← queue, ← queuedOn_eq hhead.node hhead.sock]
          exact hold
        · rw [if_neg hsame]
          exact hold
      · intro _ k' t msq' rest' hhead' htakes
        rcases hhead.unique hhead' with ⟨_, rfl, rfl, _⟩
        exact absurd htakes hno
  | failed hhead htakes hnone =>
      -- The buffer is left, so the entry had no room for the end of its line.
      constructor
      · intro hfine
        have hnode := hconn.node hhead.sock
        rcases entryOutput_cases hnode.1 (syssock_ne_zero hconn hhead.node) _ _ with
          ⟨_, out, hout, _⟩ | ⟨hbad, _⟩
        · exact absurd (hnone.symm.trans hout) (by simp)
        · exact absurd (hfine _ _ _ _ hhead htakes) hbad
      · rintro ⟨net', h, _⟩
        exact absurd h (by simp)
  | @sent k s s' msq rest u outs hhead htakes hsome hpop =>
      have hnode := hconn.node hhead.sock
      rcases entryOutput_cases hnode.1 (syssock_ne_zero hconn hhead.node) _ msq.data with
        ⟨hgood, out, hout, hsite, hsock, hbytes⟩ | ⟨hbad, hnone | hout⟩
      · have heq := Option.some.inj (hsome.symm.trans hout)
        rcases Prod.mk.inj heq with ⟨rfl, rfl⟩
        constructor
        · intro _
          refine ⟨_, rfl, inOrder_emit_touch hin hhead.node hhead.sock hpop.fixed rfl ?_ ?_⟩
          · simpa using hsock
          · simp [hsite, hbytes, queue, hhead.sendq, hpop.sendq]
        · intro _ k' t msq' rest' hhead' _
          rcases hhead.unique hhead' with ⟨_, rfl, rfl, _⟩
          exact hgood
      · exact absurd (hsome.symm.trans hnone) (by simp)
      · have heq := Option.some.inj (hsome.symm.trans hout)
        rcases Prod.mk.inj heq with ⟨rfl, rfl⟩
        constructor
        · -- The entry is taken and not written: `urgent` stays set.
          exact fun hfine => absurd (hfine _ _ _ _ hhead htakes) hbad
        · rintro ⟨net', h, horder⟩
          have hurgent := horder.urgent
          rw [← Option.some.inj h] at hurgent
          exact absurd hurgent (by simp [Session.emit, Net.touch])

/-! ## Writing -/

/-- An entry at the end of the queue and the line it stands for in the record balance. -/
theorem append_iff (hk : getpsocketbysock sess.net socket = some k)
    (hs : sess.net.socketnode[k]? = some s) (msq : Sendqt) :
    InOrder sess ↔
      InOrder { sess with
        net := sess.net.touch k (s.append msq) sess.net.urgent []
        asked := sess.asked ++
          (entryLines sess.net.before s msq.data).map fun line => (socket, line) } := by
  let lines := entryLines sess.net.before s msq.data
  let sess' : Session := { sess with
    net := sess.net.touch k (s.append msq) sess.net.urgent []
    asked := sess.asked ++ lines.map fun line => (socket, line) }
  have hqueue : ∀ socket', queuedOn sess'.net socket' =
      queuedOn sess.net socket' ++ if socket' = socket then lines else [] := by
    intro socket'
    rw [queuedOn_touch hk hs (rfl : (s.append msq).fixed = s.fixed)]
    by_cases hsame : socket' = socket
    · subst hsame
      simp [queuedOn_eq hk hs, queue, Psockett.append, lines]
    · simp [hsame]
  have hasked : ∀ socket', askedOn sess' socket' =
      askedOn sess socket' ++ if socket' = socket then lines else [] := by
    intro socket'
    by_cases hsame : socket' = socket
    · simp [askedOn, sess', hsame, List.filter_map, Function.comp_def]
    · have hne : ¬ socket = socket' := fun e => hsame e.symm
      simp [askedOn, sess', hsame, hne, List.filter_map, Function.comp_def]
  change InOrder sess ↔ InOrder sess'
  constructor
  · intro h
    refine ⟨h.urgent, fun socket' => ?_⟩
    rw [hqueue, hasked, ← h.lines socket', List.append_assoc]
  · intro h
    refine ⟨h.urgent, fun socket' => ?_⟩
    have hlines := h.lines socket'
    rw [hqueue, hasked, ← List.append_assoc] at hlines
    exact List.append_cancel_right hlines

/-- A plain write that queues is one round of `addq`. -/
theorem writesock_queue (hconn : Connected sess.net) (hu : sess.net.urgent = false)
    (hk : getpsocketbysock sess.net socket = some k) (hs : sess.net.socketnode[k]? = some s)
    (hnow : s.nowfds = false) (data : CStr) :
    writesock socket data sess.net = addEntry socket (data ++ [0]) 0 k sess.net := by
  have hnode := hconn.node hs
  have hflag : ¬ s.flag < SOC_CONN := Nat.not_lt.2 (Nat.le_of_eq hnode.1.symm)
  simp [writesock, hk, hs, hflag, hu, hnow, addq, hnode.2.1]

theorem ask_eq (hk : getpsocketbysock sess.net socket = some k)
    (hs : sess.net.socketnode[k]? = some s) (data : CStr) :
    sess.ask socket data =
      { sess with asked := sess.asked ++
          (plainLines sess.net.before s data).map fun line => (socket, line) } := by
  simp [Session.ask, hk, hs]

theorem queue_iff (hconn : Connected sess.net) (hin : InOrder sess)
    (hk : getpsocketbysock sess.net socket = some k) (hs : sess.net.socketnode[k]? = some s)
    (hnow : s.nowfds = false) (data : CStr) :
    ((MAX_SENDQ : Int) < s.entrys + 1 → s.serverstoned = 0 →
      FlushFine sess.net socket true) ↔
    ∃ net', writesock socket data sess.net = some net' ∧
      InOrder ((sess.ask socket data).emit net') := by
  -- `addq` counts the entry first.
  let net₁ := sess.net.touch k s.countUp sess.net.urgent []
  let sess₁ : Session := { sess with net := net₁ }
  have hs₁ : net₁.socketnode[k]? = some s.countUp := node_touch hs _ _
  have hsame₁ : SameNodes sess.net net₁ := sameNodes_touch hs (rfl : s.countUp.fixed = s.fixed) _ _
  have hk₁ : getpsocketbysock net₁ socket = some k := (hsame₁.getpsocketbysock socket).trans hk
  have hin₁ : InOrder sess₁ := by
    have hemit : InOrder (sess.emit (sess.net.touch k s.countUp sess.net.urgent [])) :=
      inOrder_emit_touch hin hk hs (rfl : s.countUp.fixed = s.fixed) hin.urgent (by simp)
        (by simp [queue, Psockett.countUp])
    simpa [Session.emit, newLines_touch, sess₁, net₁, hin.urgent] using hemit
  have hfine₁ : FlushFine net₁ socket true ↔ FlushFine sess.net socket true := by
    -- Raising the counter changes neither the head of the queue nor what the flush looks at.
    constructor
    · intro h k' t msq rest hhead htakes
      rcases Option.some.inj (hhead.node.symm.trans hk) with rfl
      rcases Option.some.inj (hhead.sock.symm.trans hs) with rfl
      exact h k' t.countUp msq rest ⟨hk₁, hs₁, hhead.sendq⟩ htakes
    · intro h k' t msq rest hhead htakes
      rcases Option.some.inj (hhead.node.symm.trans hk₁) with rfl
      rcases Option.some.inj (hhead.sock.symm.trans hs₁) with rfl
      exact h k' s msq rest ⟨hk, hs, hhead.sendq⟩ htakes
  -- Appending the entry and recording the line keep the balance, whatever was flushed before.
  have happend : ∀ net₂ t, net₂.socketnode[k]? = some t → SameNodes net₁ net₂ →
      (InOrder (sess₁.emit net₂) ↔ InOrder ((sess.ask socket data).emit
        (net₂.touch k (t.append ⟨data ++ [0], 0⟩) net₂.urgent []))) := by
    intro net₂ t ht hsame₂
    have hk₂ := (hsame₂.getpsocketbysock socket).trans hk₁
    have hfix : t.fixed = s.fixed := by
      rcases hsame₂.node hs₁ with ⟨t', ht', hfix⟩
      rw [Option.some.inj (ht.symm.trans ht')]
      exact hfix
    have hline : plainLines sess.net.before s data =
        entryLines net₂.before t (data ++ [0]) := by
      rw [hsame₂.before, entryLines_congr hfix]
      simp [plainLines, hnow, net₁, Net.touch]
    have hiff : InOrder (sess₁.emit net₂) ↔ _ := append_iff hk₂ ht ⟨data ++ [0], 0⟩
    rw [hiff, ask_eq hk hs, hline]
    simp [Session.emit, newLines, Net.touch, sess₁, net₁]
  rw [writesock_queue hconn hin.urgent hk hs hnow]
  by_cases hfull : (MAX_SENDQ : Int) < s.entrys + 1 ∧ s.serverstoned = 0
  · -- The queue is full, so its head is flushed before the entry is appended.
    have hflush := flush_iff (hsame₁.connected hconn) hin₁ socket true
    have hguard : ((MAX_SENDQ : Int) < s.entrys + 1 → s.serverstoned = 0 →
        FlushFine sess.net socket true) ↔ FlushFine net₁ socket true := by
      rw [hfine₁]
      exact ⟨fun h => h hfull.1 hfull.2, fun h _ _ => h⟩
    rw [hguard, hflush, addEntry_full hs socket (data ++ [0]) 0 hfull]
    constructor
    · rintro ⟨net₂, hnet₂, horder⟩
      have hsame₂ := (flushsendq_step hnet₂).nodes
      rcases hsame₂.node hs₁ with ⟨t, ht, _⟩
      refine ⟨net₂.modify k fun s => s.append ⟨data ++ [0], 0⟩, by rw [hnet₂]; rfl, ?_⟩
      rw [modify_eq_touch ht]
      exact (happend net₂ t ht hsame₂).1 horder
    · rintro ⟨net', hnet', horder⟩
      rcases Option.map_eq_some_iff.1 hnet' with ⟨net₂, hnet₂, rfl⟩
      have hsame₂ := (flushsendq_step hnet₂).nodes
      rcases hsame₂.node hs₁ with ⟨t, ht, _⟩
      have happended := modify_eq_touch ht fun s => s.append ⟨data ++ [0], 0⟩
      exact ⟨net₂, hnet₂, (happend net₂ t ht hsame₂).2 (happended ▸ horder)⟩
  · -- There is room, and nothing is flushed.
    have hemit : InOrder (sess₁.emit net₁) := by
      simpa [Session.emit, newLines, sess₁] using hin₁
    have horder := (happend net₁ s.countUp hs₁ (SameNodes.refl _)).1 hemit
    rw [addEntry_room hs socket (data ++ [0]) 0 hfull]
    refine ⟨fun _ => ⟨_, rfl, ?_⟩, fun _ h h' => absurd ⟨h, h'⟩ hfull⟩
    simpa [net₁, touch_touch, Net.touch] using horder

/-- Past the queue a line goes out behind the queued ones only when it is one of them. -/
theorem now_iff (hconn : Connected sess.net) (hin : InOrder sess)
    (hk : getpsocketbysock sess.net socket = some k) (hs : sess.net.socketnode[k]? = some s)
    (hnow : s.nowfds = true) (data : CStr) :
    (data ≠ [] → Writable sess.net.before data ∧
      wireLine sess.net.before data :: queuedOn sess.net socket =
        queuedOn sess.net socket ++ [wireLine sess.net.before data]) ↔
    ∃ net', writesock socket data sess.net = some net' ∧
      InOrder ((sess.ask socket data).emit net') := by
  have hnode := hconn.node hs
  have hflag : ¬ s.flag < SOC_CONN := Nat.not_lt.2 (Nat.le_of_eq hnode.1.symm)
  have hcall : writesock socket data sess.net = writesockNow k socket data sess.net := by
    simp [writesock, hk, hs, hflag, hnow]
  have hlines : plainLines sess.net.before s data = textLines sess.net.before data := by
    simp [plainLines, hnow]
  have hresult := writesockNow_result hs socket data
  rw [hcall, ask_eq hk hs, hlines, queuedOn_eq hk hs]
  generalize writesockNow k socket data sess.net = result at hresult
  have hnosock : ∀ out ∈ ([] : List Output), out.socket = socket := by simp
  by_cases hdata : data = []
  · -- The empty text changes nothing.
    have hnone : textOutput sess.net.before socket s sess.net.urgent data =
        some (sess.net.urgent, []) := by simp [textOutput, hdata]
    cases hresult with
    | failed hfail =>
        exact absurd (hfail.symm.trans hnone) (by simp)
    | @written u outs s' hsome hkept hsendq =>
        rcases Prod.mk.inj (Option.some.inj (hsome.symm.trans hnone)) with ⟨rfl, rfl⟩
        have hqueue : queue s' = queue s := congrArg (List.map Sendqt.data) hsendq
        have hiff := emit_touch_iff hin hk hs hkept.fixed sess.net.urgent hnosock
          (textLines sess.net.before data)
        refine ⟨fun _ => ⟨_, rfl, hiff.2 ⟨hin.urgent, ?_⟩⟩, fun _ h => absurd hdata h⟩
        simp [hqueue, textLines, hdata]
  have hline : textLines sess.net.before data = [wireLine sess.net.before data] := if_neg hdata
  rw [hline]
  -- The line is written, or it has no room for its end or an odd one.
  have hcases := textOutput_cases hnode.1 (syssock_ne_zero hconn hk) sess.net.before
    sess.net.urgent data
  rcases hcases with ⟨hgood, out, hout, hsite, hsock, hbytes⟩ | ⟨hbad, hout⟩
  · cases hresult with
    | failed hnone =>
        exact absurd (hnone.symm.trans hout) (by simp)
    | @written u outs s' hsome hkept hsendq =>
        rcases Prod.mk.inj (Option.some.inj (hsome.symm.trans hout)) with ⟨rfl, rfl⟩
        have hsocks : ∀ o ∈ [out], o.socket = socket := by simpa using hsock
        have hiff := emit_touch_iff hin hk hs hkept.fixed false hsocks
          [wireLine sess.net.before data]
        have hqueue : queue s' = queue s := congrArg (List.map Sendqt.data) hsendq
        have hfilter : ([out].filter fun out => decide (out.site ≠ .ping)) = [out] := by
          simp [hsite]
        simp only [hfilter, hqueue, List.map_cons, List.map_nil, hbytes, List.singleton_append]
          at hiff
        constructor
        · intro h
          exact ⟨_, rfl, hiff.2 ⟨trivial, (h hdata).2⟩⟩
        · rintro ⟨net', h, horder⟩ _
          rw [← Option.some.inj h] at horder
          exact ⟨hgood, (hiff.1 horder).2⟩
  · -- Nothing is written, but a line was asked for.
    refine ⟨fun h => absurd (h hdata).1 hbad, ?_⟩
    rintro ⟨net', h, horder⟩
    rw [h] at hresult
    cases hresult with
    | @written u outs s' hsome hkept hsendq =>
        rcases hout with hnone | hout
        · exact absurd (hsome.symm.trans hnone) (by simp)
        · rcases Prod.mk.inj (Option.some.inj (hsome.symm.trans hout)) with ⟨rfl, rfl⟩
          have hqueue : queue s' = queue s := congrArg (List.map Sendqt.data) hsendq
          have hbalance := (emit_touch_iff hin hk hs hkept.fixed sess.net.urgent hnosock
            [wireLine sess.net.before data]).1 horder
          have hlen := congrArg List.length hbalance.2
          simp [hqueue] at hlen

theorem plain_iff (hconn : Connected sess.net) (hin : InOrder sess) (socket : Int)
    (data : CStr) :
    PlainFine sess.net socket data ↔
      ∃ net', writesock socket data sess.net = some net' ∧
        InOrder ((sess.ask socket data).emit net') := by
  cases hk : getpsocketbysock sess.net socket with
  | none =>
      constructor
      · intro _
        have hcall : writesock socket data sess.net = some sess.net := by simp [writesock, hk]
        refine ⟨sess.net, hcall, hin.urgent, fun socket' => ?_⟩
        simpa [Session.ask, hk, Session.emit, newLines] using hin.lines socket'
      · exact fun _ k s hk' => absurd (hk.symm.trans hk') (by simp)
  | some k =>
      rcases node_of_getpsocketbysock hk with ⟨s, hs, _⟩
      have hfine : PlainFine sess.net socket data ↔
          (s.nowfds = true → data ≠ [] → Writable sess.net.before data ∧
            wireLine sess.net.before data :: queuedOn sess.net socket =
              queuedOn sess.net socket ++ [wireLine sess.net.before data]) ∧
          (s.nowfds = false → (MAX_SENDQ : Int) < s.entrys + 1 → s.serverstoned = 0 →
            FlushFine sess.net socket true) := by
        constructor
        · exact fun h => h k s hk hs
        · intro h k' t hk' ht
          rcases Option.some.inj (hk'.symm.trans hk) with rfl
          rcases Option.some.inj (ht.symm.trans hs) with rfl
          exact h
      rw [hfine]
      cases hnow : s.nowfds with
      | true =>
          simpa using now_iff hconn hin hk hs hnow data
      | false =>
          simpa using queue_iff hconn hin hk hs hnow data

theorem urgent_iff (hconn : Connected sess.net) (hin : InOrder sess) (socket : Int)
    (data : CStr) :
    ((∃ k, getpsocketbysock sess.net socket = some k) ∧ Writable sess.net.before data) ↔
      ∃ net', writesock_URGENT socket data sess.net = some net' ∧
        InOrder { sess with net := net' } := by
  cases hk : getpsocketbysock sess.net socket with
  | none =>
      -- No socket, no write: `urgent` stays as it was set.
      have hcall : writesock_URGENT socket data sess.net = some { sess.net with urgent := true } := by
        have hk' : getpsocketbysock { sess.net with urgent := true } socket = none := hk
        simp [writesock_URGENT, writesock, hk']
      rw [hcall]
      constructor
      · rintro ⟨⟨k, h⟩, _⟩
        exact absurd h (by simp)
      · rintro ⟨net', h, horder⟩
        have hurgent := horder.urgent
        rw [← Option.some.inj h] at hurgent
        exact absurd hurgent (by simp)
  | some k =>
      rcases node_of_getpsocketbysock hk with ⟨s, hs, _⟩
      have hnode := hconn.node hs
      let net₁ : Net := { sess.net with urgent := true }
      have hk₁ : getpsocketbysock net₁ socket = some k := hk
      have hs₁ : net₁.socketnode[k]? = some s := hs
      have hflag : ¬ s.flag < SOC_CONN := Nat.not_lt.2 (Nat.le_of_eq hnode.1.symm)
      have hcall : writesock_URGENT socket data sess.net = writesockNow k socket data net₁ := by
        have hurgent : net₁.urgent = true := rfl
        change writesock socket data net₁ = _
        simp only [writesock, hk₁, hs₁]
        rw [if_neg hflag, if_neg (by simp [hurgent])]
      have hresult := writesockNow_result hs₁ socket data
      rw [hcall]
      generalize writesockNow k socket data net₁ = result at hresult
      have hcases := textOutput_cases hnode.1 (syssock_ne_zero hconn hk) net₁.before true data
      rcases hcases with ⟨hgood, out, hout, _⟩ | ⟨hbad, hout⟩
      · cases hresult with
        | failed hnone =>
            exact absurd (hnone.symm.trans hout) (by simp)
        | @written u outs s' hsome hkept hsendq =>
            rcases Prod.mk.inj (Option.some.inj (hsome.symm.trans hout)) with ⟨rfl, rfl⟩
            refine ⟨fun _ => ⟨_, rfl, rfl, fun socket' => ?_⟩, fun _ => ⟨⟨k, rfl⟩, hgood⟩⟩
            -- The queues stay as they are.
            have hsame : queuedOn (net₁.touch k s' false [out]) socket' =
                queuedOn net₁ socket' := by
              rw [queuedOn_touch hk₁ hs₁ hkept.fixed, queue, hsendq, ← queue,
                ← queuedOn_eq hk₁ hs₁]
              by_cases hsock : socket' = socket
              · rw [if_pos hsock, hsock]
              · rw [if_neg hsock]
            exact (congrArg (linesOn socket' sess.sent ++ ·) hsame).trans (hin.lines socket')
      · refine ⟨fun h => absurd h.2 hbad, ?_⟩
        rintro ⟨net', h, horder⟩
        rw [h] at hresult
        cases hresult with
        | @written u outs s' hsome _ _ =>
            rcases hout with hnone | hout
            · exact absurd (hsome.symm.trans hnone) (by simp)
            · rcases Prod.mk.inj (Option.some.inj (hsome.symm.trans hout)) with ⟨rfl, rfl⟩
              exact absurd horder.urgent (by simp [Net.touch])

end Calls

/-! ## Runs -/

theorem writesock_nodes {net net' : Net} {socket : Int} {data : CStr}
    (h : writesock socket data net = some net') : SameNodes net net' := by
  cases hk : getpsocketbysock net socket with
  | none =>
      simp only [writesock, hk, Option.some.injEq] at h
      exact h ▸ SameNodes.refl net
  | some k =>
      rcases node_of_getpsocketbysock hk with ⟨s, hs, _⟩
      rcases writesock_eq hk hs with ⟨u, hcall⟩
      have hset : SameNodes net { net with urgent := u } := ⟨rfl, rfl, rfl⟩
      refine hset.trans ?_
      rw [hcall] at h
      by_cases hqueue : u = false ∧ s.nowfds = false
      · rw [if_pos hqueue] at h
        exact (addq_step h).nodes
      · rw [if_neg hqueue] at h
        have hs' : ({ net with urgent := u } : Net).socketnode[k]? = some s := hs
        have hresult := writesockNow_result hs' socket data
        rw [h] at hresult
        cases hresult with
        | written _ hkept _ =>
            exact sameNodes_touch hs' hkept.fixed _ _

theorem LineCall.run_nodes {sess sess' : Session} {call : LineCall}
    (h : call.run sess = some sess') : SameNodes sess.net sess'.net := by
  cases call with
  | writesock socket data =>
      rcases Option.map_eq_some_iff.1 h with ⟨net', hcall, rfl⟩
      exact writesock_nodes hcall
  | writesock_URGENT socket data =>
      rcases Option.map_eq_some_iff.1 h with ⟨net', hcall, rfl⟩
      have hset : SameNodes sess.net { sess.net with urgent := true } := ⟨rfl, rfl, rfl⟩
      exact hset.trans (writesock_nodes hcall)
  | ssnprintf sock text =>
      rcases Option.map_eq_some_iff.1 h with ⟨net', hcall, rfl⟩
      exact writesock_nodes hcall
  | flushsendq socket forced =>
      rcases Option.map_eq_some_iff.1 h with ⟨net', hcall, rfl⟩
      exact (flushsendq_step hcall).nodes

theorem LineCall.fine_iff {sess : Session} (hconn : Connected sess.net) (hin : InOrder sess)
    (call : LineCall) :
    call.Fine sess ↔ ∃ sess', call.run sess = some sess' ∧ InOrder sess' := by
  -- A call succeeds as its function does, and the record follows.
  have hmap : ∀ (result : Option Net) (f : Net → Session),
      (∃ net', result = some net' ∧ InOrder (f net')) ↔
        ∃ sess', result.map f = some sess' ∧ InOrder sess' := by
    intro result f
    cases result <;> simp
  cases call with
  | writesock socket data =>
      exact (plain_iff hconn hin socket data.1).trans (hmap _ _)
  | writesock_URGENT socket data =>
      exact (urgent_iff hconn hin socket data.1).trans (hmap _ _)
  | ssnprintf sock text =>
      exact (plain_iff hconn hin sock (clip 8192 text.1)).trans (hmap _ _)
  | flushsendq socket forced =>
      exact (flush_iff hconn hin socket forced).trans (hmap _ _)

/-- Along a run on connected sockets lines stay in order, exactly once each, and nothing stays
urgent, if and only if every call meets its condition. -/
theorem lines_inOrder_iff (sess : Session) (hconn : Connected sess.net) (hin : InOrder sess)
    (calls : List LineCall) :
    Safe (fun sess call => LineCall.run sess call) InOrder sess calls ↔
      StepsMeet (fun sess call => LineCall.run sess call) (fun sess call => call.Fine sess) sess
        calls := by
  refine safe_iff_stepsMeet (fun sess => Connected sess.net) ?_ ?_ hconn hin
  · exact fun _ _ _ h hrun => (LineCall.run_nodes hrun).connected h
  · exact fun _ call h horder => LineCall.fine_iff h horder call

/-- Connected sockets 4 and 5 with nothing to send. -/
def quiet : Session where
  net := { socketnode := [{ syssock := 4, flag := SOC_CONN, commbuf := [] },
    { syssock := 5, flag := SOC_CONN, commbuf := [] }] }

theorem connected_quiet : Connected quiet.net := by
  intro s hs
  simp only [quiet, List.mem_cons, List.not_mem_nil, or_false] at hs
  rcases hs with rfl | rfl
  · decide
  · decide

theorem inOrder_quiet : InOrder quiet := by
  refine ⟨rfl, fun socket => ?_⟩
  by_cases h4 : socket = 4
  · subst h4
    decide
  · by_cases h5 : socket = 5
    · subst h5
      decide
    · have hnone : getpsocketbysock quiet.net socket = none := by
        simp [getpsocketbysock, quiet, List.findIdx?_cons, Ne.symm h4, Ne.symm h5]
      have hqueued : queuedOn quiet.net socket = [] := by simp [queuedOn, hnone]
      rw [hqueued]
      rfl

/-- A plain line for a queue with room meets its condition. -/
theorem PlainFine.of_room {net : Net} {socket : Int} {k : Nat} {s : Psockett}
    (hk : getpsocketbysock net socket = some k) (hs : net.socketnode[k]? = some s)
    (hnow : s.nowfds = false) (hroom : s.entrys + 1 ≤ MAX_SENDQ) (data : CStr) :
    PlainFine net socket data := by
  intro k' t hk' ht
  rcases Option.some.inj (hk'.symm.trans hk) with rfl
  rcases Option.some.inj (ht.symm.trans hs) with rfl
  refine ⟨fun h => ?_, fun _ hfull => absurd hfull (Int.not_lt.2 hroom)⟩
  rw [hnow] at h
  exact absurd h (by decide)

/-- A flush whose next line can be written meets its condition. -/
theorem FlushFine.of_head {net : Net} {socket : Int} {k : Nat} {s : Psockett} {msq : Sendqt}
    {rest : List Sendqt} (hhead : Head net socket k s msq rest) {forced : Bool}
    (hwrite : Writable net.before (cstr msq.data)) : FlushFine net socket forced := by
  intro k' t msq' rest' hhead' _
  rcases Option.some.inj (hhead'.node.symm.trans hhead.node) with rfl
  rcases Option.some.inj (hhead'.sock.symm.trans hhead.sock) with rfl
  rcases List.cons.inj (hhead'.sendq.symm.trans hhead.sendq) with ⟨rfl, _⟩
  exact Or.inr hwrite

/-- Plain lines for both sockets, a flush of each, and an urgent line in front of a queued one. -/
theorem lines_inOrder_iff_two_sockets :
    Safe (fun sess call => LineCall.run sess call) InOrder quiet
      [.writesock 4 ⟨ascii "a", by decide⟩, .writesock 5 ⟨ascii "b", by decide⟩, .flushsendq 4 true,
        .writesock_URGENT 5 ⟨ascii "c", by decide⟩, .writesock 5 ⟨ascii "d", by decide⟩,
        .flushsendq 5 true] := by
  refine (lines_inOrder_iff quiet connected_quiet inOrder_quiet _).2 ⟨?_, ?_⟩
  · exact PlainFine.of_room rfl rfl rfl (by decide) _
  intro sess hsess
  rw [← Option.some.inj hsess]
  refine ⟨PlainFine.of_room rfl rfl rfl (by decide) _, ?_⟩
  intro sess hsess
  rw [← Option.some.inj hsess]
  refine ⟨FlushFine.of_head ⟨rfl, rfl, rfl⟩ ⟨by decide, by decide⟩, ?_⟩
  intro sess hsess
  rw [← Option.some.inj hsess]
  refine ⟨⟨⟨_, rfl⟩, by decide, by decide⟩, ?_⟩
  intro sess hsess
  rw [← Option.some.inj hsess]
  refine ⟨PlainFine.of_room rfl rfl rfl (by decide) _, ?_⟩
  intro sess hsess
  rw [← Option.some.inj hsess]
  exact ⟨FlushFine.of_head ⟨rfl, rfl, rfl⟩ ⟨by decide, by decide⟩, fun _ _ => trivial⟩

/-- Flushing an empty line on socket 4 makes the next line on socket 5 overtake its queue. -/
theorem lines_overtake :
    Connected quiet.net ∧ InOrder quiet ∧
      ∃ sess, runAll (fun sess call => LineCall.run sess call) quiet
          [.writesock 4 ⟨[], by decide⟩, .writesock 5 ⟨ascii "a", by decide⟩, .flushsendq 4 true,
            .writesock 5 ⟨ascii "b", by decide⟩] = some sess ∧
        linesOn 5 sess.sent = [ascii "b" ++ [CR, LF]] ∧
        queuedOn sess.net 5 = [ascii "a" ++ [CR, LF]] ∧
        askedOn sess 5 = [ascii "a" ++ [CR, LF], ascii "b" ++ [CR, LF]] ∧ ¬ InOrder sess := by
  refine ⟨connected_quiet, inOrder_quiet, _, rfl, by decide, by decide, by decide, ?_⟩
  intro h
  exact absurd (h.lines 5) (by decide)

end PsyBnc
