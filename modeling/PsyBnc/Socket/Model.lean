import PsyBnc.Lib.Buffer

/-!
# Sockets (`p_socket.c`)

The list `socketnode` is a list of sockets; a `struct socketnodes *` is an index into it.  The
functions modelled here neither add nor remove nodes.  Sockets are plain ones (`ssl` is off), so
the global `readd`, set only around a failed `SSL_write`, stays 0.

A result `none` is a write behind the end of `writesock`'s static buffer.  The byte in front of
that buffer, which it looks at when a text starts with a newline, is a parameter of the state.
-/

namespace PsyBnc

open CLib

@[reducible] def SOC_NOUSE : Nat := 0
@[reducible] def SOC_SYN : Nat := 1
@[reducible] def SOC_CONN : Nat := 2
@[reducible] def MAX_SENDQ : Nat := 1000

inductive Dataflow where
  | ascii
  | stream
  deriving DecidableEq

/-- `struct sendqt`: the `len` bytes that `addq` copied, and the delay. -/
structure Sendqt where
  data : List Byte
  delay : Int := 0
  deriving DecidableEq

/-- The fields of `struct psockett` that receiving and sending use. -/
structure Psockett where
  syssock : Int
  flag : Nat := SOC_NOUSE
  nowfds : Bool := false
  sockgroup : Nat := 0
  dataflow : Dataflow := .ascii
  datalen : Nat := 0
  handler : Bool := false
  commbuf : List Byte := zeros 8192
  bytesread : Nat := 0
  serversocket : Bool := false
  serverstoned : Int := 0
  serverbytes : Nat := 0
  bytesin : Nat := 0
  bytesout : Nat := 0
  delay : Int := 0
  sendq : List Sendqt := []
  entrys : Int := 0
  deriving DecidableEq

/-- The call of `write` that put something on the wire. -/
inductive Site where
  | ping
  | writesock
  | writesock_STREAM
  deriving DecidableEq

structure Output where
  site : Site
  socket : Int
  bytes : List Byte
  deriving DecidableEq

/-- The globals of the sending side. -/
structure Net where
  socketnode : List Psockett
  urgent : Bool := false
  delayinc : Int := 0
  notsocket : Int := 0
  before : Byte := 0
  wire : List Output := []
  deriving DecidableEq

/-! ## Looking up sockets -/

def getpsocketbysock (net : Net) (syssock : Int) : Option Nat :=
  net.socketnode.findIdx? fun s => decide (s.syssock = syssock)

/-- The test that `getpsocketbygroup` makes at a node. -/
def isMember (net : Net) (group : Nat) (notsock : Int) (j : Nat) : Bool :=
  (net.socketnode[j]?).any fun s =>
    decide (s.sockgroup = group ∧ s.syssock ≠ notsock ∧ s.syssock ≠ net.notsocket)

/-- `getpsocketbygroup`: the first member of the group from node `first` on. -/
def getpsocketbygroup (net : Net) (first group : Nat) (notsock : Int) : Option Nat :=
  (List.range net.socketnode.length).find? fun j =>
    decide (first ≤ j) && isMember net group notsock j

/-- The state after an assignment to fields of node `k`. -/
def Net.modify (net : Net) (k : Nat) (f : Psockett → Psockett) : Net :=
  { net with socketnode := net.socketnode.modify k f }

def Net.write (net : Net) (out : Output) : Net :=
  { net with wire := net.wire ++ [out] }

/-! ## Writing -/

/-- `buf` with its line end: `before` is the byte in front of it. -/
def lineEnd (before : Byte) (buf : CStr) : CStr :=
  match cutAt LF buf with
  | none => buf ++ [CR, LF]
  | some (u, _) => if (before :: u).getLast? = some CR then buf else u ++ [CR, LF]

/-- The text in `buf[8200]` of `writesock`, when it fits. -/
def lineText (before : Byte) (data : CStr) : Option CStr :=
  let buf := lineEnd before (clip 8200 data)
  if buf.length < 8200 then some buf else none

/-- `writesock` from the test of `socket` on; node `k` is that of `socket`. -/
def writesockNow (k : Nat) (socket : Int) (data : CStr) (net : Net) : Option Net :=
  match net.socketnode[k]? with
  | none => some net
  | some s =>
      if socket = 0 then some net
      else if data = [] then some net
      else
        (lineText net.before data).map fun buf =>
          let out : Output := ⟨.writesock, socket, replaceByte 127 37 buf⟩
          let net := if s.flag = SOC_CONN then net.write out else net
          { net.modify k fun s => { s with bytesout := s.bytesout + buf.length, delay := 300 } with
            urgent := false }

/-- `writesock_STREAM` with `urgent` set. -/
def writesockStreamNow (k : Nat) (socket : Int) (data : List Byte) (net : Net) : Net :=
  match net.socketnode[k]? with
  | none => net
  | some s =>
      let net :=
        if s.flag = SOC_CONN then net.write ⟨.writesock_STREAM, socket, data⟩ else net
      { net.modify k fun s => { s with bytesout := s.bytesout + data.length } with
        urgent := false }

/-- `lngtxt(801)`. -/
def pingText : CStr := ascii "PING :p" ++ [CR, LF]

/-- The end of `flushsendq`: the first entry of node `k` is unlinked and written. -/
def sendHead (k : Nat) (socket : Int) (s : Psockett) (msq : Sendqt) (rest : List Sendqt)
    (net : Net) : Option Net :=
  let net := { net.modify k fun s => { s with sendq := rest, entrys := s.entrys - 1 } with
    urgent := true }
  if s.dataflow = .stream then some (writesockStreamNow k socket msq.data net)
  else writesockNow k socket (cstr msq.data) net

/-- `flushsendq`.  The inner call of `writesock` finds `urgent` set and the socket connected, so it
does not come back to the queue. -/
def flushsendq (socket : Int) (forced : Bool) (net : Net) : Option Net :=
  match getpsocketbysock net socket with
  | none => some net
  | some k =>
      match net.socketnode[k]? with
      | none => some net
      | some s =>
          match s.sendq with
          | [] => some net
          | msq :: rest =>
              let strlen := (cstr msq.data).length
              if s.flag < SOC_CONN then some net
              else if forced = false ∧ 0 < msq.delay then
                some (net.modify k fun s =>
                  { s with sendq := { msq with delay := msq.delay - net.delayinc } :: rest })
              else if s.serversocket = true ∧ s.flag = SOC_CONN then
                if 0 < s.serverstoned then some net
                else if 700 < s.serverbytes + strlen ∧ strlen < 700 then
                  some ((net.modify k fun s => { s with serverstoned := 20 }).write
                    ⟨.ping, socket, pingText⟩)
                else
                  sendHead k socket s msq rest
                    (net.modify k fun s => { s with serverbytes := s.serverbytes + strlen })
              else sendHead k socket s msq rest net

/-- The socket with its counter raised for an entry to come. -/
def Psockett.countUp (s : Psockett) : Psockett := { s with entrys := s.entrys + 1 }

/-- The socket with an entry at the end of its queue. -/
def Psockett.append (s : Psockett) (msq : Sendqt) : Psockett :=
  { s with sendq := s.sendq ++ [msq] }

/-- One round of `addq`: node `j` gets a new entry, and when it holds too many `socket` is
flushed. -/
def addEntry (socket : Int) (data : List Byte) (sqdelay : Int) (j : Nat) (net : Net) :
    Option Net :=
  let net := net.modify j Psockett.countUp
  let full := (net.socketnode[j]?).any fun s =>
    decide ((MAX_SENDQ : Int) < s.entrys ∧ s.serverstoned = 0)
  (if full then flushsendq socket true net else some net).map fun net =>
    net.modify j fun s => s.append ⟨data, sqdelay⟩

/-- The loop of `addq` over the members of a group behind node `k`; every round moves on, so the
number of nodes is fuel enough. -/
def groupLoop (socket : Int) (data : List Byte) (sqdelay : Int) (group : Nat) :
    Nat → Nat → Net → Option Net
  | 0, _, net => some net
  | fuel + 1, k, net =>
      match getpsocketbygroup net (k + 1) group (-1) with
      | none => some net
      | some j =>
          (addEntry socket data sqdelay j net).bind (groupLoop socket data sqdelay group fuel j)

/-- `addq`; without a node and a group the inner `writesock` finds no socket either. -/
def addq (socket : Int) (data : List Byte) (sqdelay : Int) (net : Net) : Option Net :=
  let akm := getpsocketbysock net socket
  let group := ((akm.bind fun k => net.socketnode[k]?).map Psockett.sockgroup).getD 0
  if group ≠ 0 then
    groupLoop socket data sqdelay group net.socketnode.length 0 net
  else
    match akm with
    | none => some { net with urgent := true }
    | some k => addEntry socket data sqdelay k net

def writesock (socket : Int) (data : CStr) (net : Net) : Option Net :=
  match getpsocketbysock net socket with
  | none => some net
  | some k =>
      match net.socketnode[k]? with
      | none => some net
      | some s =>
          let net := if s.flag < SOC_CONN then { net with urgent := false } else net
          if net.urgent = false ∧ s.nowfds = false then addq socket (data ++ [0]) 0 net
          else writesockNow k socket data net

def writesock_STREAM (socket : Int) (data : List Byte) (net : Net) : Option Net :=
  match getpsocketbysock net socket with
  | none => some net
  | some k =>
      if net.urgent = false then addq socket data 0 net
      else some (writesockStreamNow k socket data net)

def writesock_URGENT (socket : Int) (data : CStr) (net : Net) : Option Net :=
  writesock socket data { net with urgent := true }

def writesock_DELAY (socket : Int) (data : CStr) (delay : Int) (net : Net) : Option Net :=
  addq socket (data ++ [0]) delay net

/-- `ssnprintf`; `text` is the expanded format. -/
def ssnprintf (sock : Int) (text : CStr) (net : Net) : Option Net :=
  writesock sock (clip 8192 text) net

/-! ## Receiving -/

/-- What a call of `recv` brings. -/
inductive Received where
  | data (chunk : List Byte)
  | again
  | closed

/-- A socket that is read, the lines its handler was called with, and `pinged` of its user. -/
structure Receiver where
  sock : Psockett
  handled : List CStr := []
  pinged : Bool := false
  killed : Bool := false

/-- `lngtxt(802)` behind the first blank of a line. -/
def isPong (ircbuf : CStr) : Bool :=
  match cutAt SP ircbuf with
  | none => false
  | some (_, pt) => decide (ascii "PONG " <+: pt)

/-- The answer to a PING: the flood protection, or the user's lag check, starts over. -/
def gotPong (r : Receiver) : Receiver :=
  if r.sock.serverstoned ≠ 0 then
    { r with sock := { r.sock with serverstoned := 0, serverbytes := 0 } }
  else { r with pinged := false }

/-- The receiver with other bytes in its buffer. -/
def Receiver.keep (r : Receiver) (commbuf : List Byte) (bytesread : Nat) : Receiver :=
  { r with sock := { r.sock with commbuf := commbuf, bytesread := bytesread } }

/-- One round of the loop in `receivesock`: the line of `k` bytes at the start of `commbuf`. -/
def receiveLine (k : Nat) (r : Receiver) : Receiver :=
  let ircbuf := cstr (memcpy (zeros 8192) 0 (r.sock.commbuf.take k))
  let commbuf := memcpy r.sock.commbuf 0 (r.sock.commbuf.drop k)
  let bytesread := r.sock.bytesread - k
  let commbuf := memset commbuf bytesread 0 (8191 - bytesread)
  let ircbuf := replaceByte 37 127 ircbuf
  let r := r.keep commbuf bytesread
  if r.sock.serversocket = true ∧ isPong ircbuf = true then gotPong r
  else if r.sock.handler = true ∧ 1 < ircbuf.length then
    { r with handled := r.handled ++ [ircbuf] }
  else r

/-- The loop of `receivesock`, with a handler that leaves the socket alive. -/
def receiveLoop : Nat → Receiver → Receiver
  | 0, r => r
  | fuel + 1, r =>
      match cutAt LF (cstr r.sock.commbuf) with
      | none => r
      | some (line, _) => receiveLoop fuel (receiveLine (line.length + 1) r)

/-- The socket after `recv` wrote a chunk behind the bytes already read. -/
def Psockett.recv (s : Psockett) (chunk : List Byte) : Psockett :=
  { s with
    commbuf := memcpy s.commbuf s.bytesread chunk
    bytesread := s.bytesread + chunk.length
    bytesin := s.bytesin + chunk.length }

/-- `receivesock`: at most `8191 - bytesread` bytes are asked for. -/
def receivesock (recv : Received) (r : Receiver) : Receiver :=
  let sz := 8191 - r.sock.bytesread
  if sz = 0 then { r with killed := true }
  else
    match recv with
    | .again => r
    | .closed => r
    | .data chunk =>
        let s := r.sock.recv chunk
        if s.dataflow = .stream then
          let handled := if s.handler then r.handled ++ [s.commbuf.take chunk.length] else r.handled
          { r with sock := { s with datalen := chunk.length, bytesread := 0 }, handled := handled }
        else receiveLoop 8192 { r with sock := s }

end PsyBnc
