import PsyBnc.Parse.Model
import PsyBnc.UChannel.Model

/-!
# The internal network (`p_intnet.c`, with `p_link.c` and `p_sysmsg.c`)

The internal ircd of one bouncer, as far as it talks to other bouncers: the handlers are those for
lines that come over a link (`link >= 0 && usern == 0`).  A function that writes returns what it
writes, in order.  What goes to a local user is recorded before `addtoken` marks its network.
-/

namespace PsyBnc

open CLib

structure Clientt where
  intuser : Nat := 0
  nick : CStr
  ident : CStr
  host : CStr
  server : CStr
  deriving DecidableEq

inductive LinkType where
  | link
  | allow
  | relay
  deriving DecidableEq

/-- A link; the two states say whether it is `STD_CONN`. -/
structure Datalink where
  uid : Nat
  type : LinkType := .link
  instate : Bool := false
  outstate : Bool := false
  iam : CStr := []
  deriving DecidableEq

/-- The globals of a bouncer; `instate` lists the local users that are connected. -/
structure Intnet where
  me : CStr
  clients : List Clientt := []
  intchan : List Uchannelt := []
  linknode : List Datalink := []
  instate : List Nat := []
  deriving DecidableEq

/-- What is written: to a link, or to a local user. -/
inductive Out where
  | link (nlink : Nat) (ircbuf : CStr)
  | user (usern : Nat) (buf : CStr)
  deriving DecidableEq

/-! ## Clients -/

def getclientbynick (net : Intnet) (nick : CStr) : Option Clientt :=
  net.clients.find? fun cl => sameName 64 nick cl.nick

/-- `createclient`, without its return value. -/
def createclient (net : Intnet) (usern : Nat) (nick ident host server : CStr) : Intnet :=
  if (net.clients.any fun cl => decide (cl.intuser = usern ∧ usern ≠ 0)) then net
  else
    { net with clients := net.clients ++
        [⟨usern, clip 64 nick, clip 30 ident, clip 200 host, clip 200 server⟩] }

/-! ## Sending -/

/-- A link that `broadcast` writes to. -/
def Datalink.open (l : Datalink) : Bool :=
  match l.type with
  | .link => l.outstate
  | .allow => l.instate
  | .relay => false

/-- `broadcast`: to all linked bouncers except `nlink`. -/
def broadcast (net : Intnet) (nlink : Nat) (ircbuf : CStr) : List Out :=
  (net.linknode.filter fun l => decide (l.uid ≠ nlink) && l.open).map fun l => .link l.uid ircbuf

/-- The part of `lngtxt(386)` to `lngtxt(391)` before the text. -/
def intnetPrefix (me : CStr) : CStr := ascii ":intnet!intnet@" ++ me ++ ascii " INTNET *@* :"

def intnetLine (me buf : CStr) : CStr := clip 8192 (intnetPrefix me ++ buf)

/-- `ap_snprintf(ircbuf, …, lngtxt(386), me, ircbuf)`: the text is read from the buffer that is
being written, after the prefix has been put over its start, so the prefix repeats. -/
def intnetOverlap (me buf : CStr) : CStr :=
  let p := intnetPrefix me
  let length := p.length + max buf.length p.length
  (List.range (min 8191 length)).map fun i => p.getD (i % p.length) 0

/-- A line for a client of this bouncer. -/
def toLocal (net : Intnet) (client : Clientt) (buf : CStr) : List Out :=
  if 0 < client.intuser ∧ client.intuser ∈ net.instate then [.user client.intuser buf] else []

def sendtoclient (net : Intnet) (nick : CStr) (notlink : Nat) (text : CStr) : List Out :=
  let buf := clip 2048 text
  match getclientbynick net nick with
  | none => broadcast net 0 (intnetOverlap net.me buf)
  | some client =>
      if 0 < client.intuser then toLocal net client buf
      else broadcast net notlink (intnetLine net.me buf)

/-- A line for a member of a channel. -/
def toMember (net : Intnet) (buf : CStr) (chanu : Uchannelusert) : List Out :=
  match getclientbynick net chanu.nick with
  | none => []
  | some client => toLocal net client buf

def sendtochannel (net : Intnet) (channel : CStr) (notlink : Nat) (text : CStr) : List Out :=
  let buf := clip 2048 text
  let chan := (getuserchannel net.intchan channel).bind fun k => net.intchan[k]?
  let users := (chan.map Uchannelt.users).getD []
  users.flatMap (toMember net buf) ++ broadcast net notlink (intnetLine net.me buf)

/-! ## Lists of a channel -/

/-- The test on a mask in `addban` and `removeban`: a `!`, and no `@` before it. -/
def isMask (banmask : CStr) : Bool :=
  match cutAt BANG banmask, cutAt AT banmask with
  | some (q, _), some (p, _) => decide (q.length ≤ p.length)
  | _, _ => false

/-- `addban`, with its return value. -/
def addban (chan : Uchannelt) (banmask : CStr) : Uchannelt × Bool :=
  if banmask ∈ chan.bans then (chan, false)
  else if isMask banmask = true ∧ chan.bans.length < 20 then
    ({ chan with bans := chan.bans ++ [banmask] }, true)
  else (chan, false)

/-- `removeban`, which looks at 20 entries. -/
def removeban (chan : Uchannelt) (banmask : CStr) : Uchannelt × Bool :=
  if isMask banmask = true ∧ banmask ∈ chan.bans.take 20 then
    ({ chan with bans := chan.bans.erase banmask }, true)
  else (chan, false)

/-- A text up to its first blank, as `addinvite` and the like leave it. -/
def firstWord (s : CStr) : CStr :=
  match cutAt SP s with
  | none => s
  | some (w, _) => w

def addinvite (chan : Uchannelt) (invite : CStr) : Uchannelt :=
  if chan.invites.length < 20 then { chan with invites := chan.invites ++ [firstWord invite] }
  else chan

def removeinvite (chan : Uchannelt) (invite : CStr) : Uchannelt :=
  if firstWord invite ∈ chan.invites.take 20 then
    { chan with invites := chan.invites.erase (firstWord invite) }
  else chan

def addintop (chan : Uchannelt) (intop : CStr) : Uchannelt :=
  if chan.intops.length < 100 then { chan with intops := chan.intops ++ [firstWord intop] }
  else chan

def removeintop (chan : Uchannelt) (intop : CStr) : Uchannelt :=
  if firstWord intop ∈ chan.intops.take 100 then
    { chan with intops := chan.intops.erase (firstWord intop) }
  else chan

/-! ## PRIVMSG, NOTICE and INVITE -/

/-- `cmdintprivmsg`, and `cmdintnotice`. -/
def cmdintprivmsg (net : Intnet) (irc : Parsed) (ircbuf : CStr) (link : Nat) : List Out :=
  if getclientbynick net irc.ircnick = none ∧ irc.ircnick ≠ [] then []
  else if irc.ircto.head? = some 35 then sendtochannel net irc.ircto link ircbuf
  else sendtoclient net irc.ircto link ircbuf

/-- `cmdintinvite`; `addinvite` cuts `ircto`. -/
def cmdintinvite (net : Intnet) (irc : Parsed) (ircbuf : CStr) (link : Nat) : Intnet × List Out :=
  match getclientbynick net irc.ircnick, getuserchannel net.intchan irc.irccontent with
  | some _, some k =>
      if ((net.intchan[k]?).bind fun chan => getchannelnick chan irc.ircto) ≠ none then (net, [])
      else
        let net :=
          { net with intchan := net.intchan.modify k fun chan => addinvite chan irc.ircto }
        (net, sendtoclient net (firstWord irc.ircto) link ircbuf)
  | _, _ => (net, [])

/-! ## JOIN -/

def cmdintjoin (net : Intnet) (irc : Parsed) (ircbuf : CStr) (link : Nat) : Intnet × List Out :=
  match getclientbynick net irc.ircnick with
  | none => (net, [])
  | some client =>
      let added := addintchannel net.intchan irc.ircto
      let joined := fun chan =>
        addnicktochannel (removeinvite chan client.nick) client.nick client.ident client.host
      let net := { net with intchan := added.1.modify added.2 joined }
      (net, sendtochannel net irc.ircto link ircbuf)

/-! ## MODE -/

/-- The mask by which a local user is remembered as operator. -/
def opMask (client : Clientt) : CStr :=
  clip 200 (ascii "*!" ++ client.ident ++ AT :: client.host)

/-- What becomes of the operators to remember when `nick` is a local client. -/
def remember (net : Intnet) (nick : CStr) (change : Uchannelt → CStr → Uchannelt)
    (chan : Uchannelt) : Uchannelt :=
  match getclientbynick net nick with
  | none => chan
  | some opclient => if 0 < opclient.intuser then change chan (opMask opclient) else chan

def setmember (chan : Uchannelt) (k : Nat) (mode : CStr) : Uchannelt :=
  { chan with users := chan.users.modify k fun chanuser => { chanuser with mode := mode } }

def membermode (chan : Uchannelt) (k : Nat) : CStr :=
  ((chan.users[k]?).map Uchannelusert.mode).getD []

/-- `addop` for a link, where a nick that is not on the channel counts as done. -/
def addop (net : Intnet) (chan : Uchannelt) (nick : CStr) : Uchannelt × Bool :=
  match getchannelnick chan nick with
  | none => (chan, true)
  | some k => (setmember (remember net nick addintop chan) k (ascii "@"), true)

def delop (net : Intnet) (chan : Uchannelt) (nick : CStr) : Uchannelt × Bool :=
  match getchannelnick chan nick with
  | none => (chan, true)
  | some k =>
      if AT ∈ membermode chan k then
        let mode := if PLUS ∈ membermode chan k then ascii "+" else []
        (remember net nick removeintop (setmember chan k mode), true)
      else (chan, false)

def addvoice (chan : Uchannelt) (nick : CStr) : Uchannelt × Bool :=
  match getchannelnick chan nick with
  | none => (chan, true)
  | some k => (if AT ∈ membermode chan k then chan else setmember chan k (ascii "+"), true)

def delvoice (chan : Uchannelt) (nick : CStr) : Uchannelt × Bool :=
  match getchannelnick chan nick with
  | none => (chan, true)
  | some k =>
      if PLUS ∈ membermode chan k then
        (setmember chan k (if AT ∈ membermode chan k then ascii "@" else []), true)
      else (chan, false)

/-- The variables of the loop in `intmode`. -/
structure Intmode where
  chan : Uchannelt
  newmode : CStr := []
  newparam : CStr := []
  sign : Byte := PLUS
  prefixchange : Bool := false
  aktbans : Nat := 0
  p : Option CStr
  p2 : Option CStr := none

/-- A parameter is added to `newparam[400]` when it fits. -/
def addParam (newparam p text : CStr) : CStr :=
  if newparam.length + p.length + 1 < 399 then newparam ++ text ++ [SP] else newparam

/-- A mode was applied. -/
def Intmode.done (s : Intmode) (m : Byte) (chan : Uchannelt) (p text : CStr) : Intmode :=
  { s with
    chan := chan
    newmode := s.newmode ++ [m]
    newparam := addParam s.newparam p text
    aktbans := s.aktbans + 1
    prefixchange := false }

/-- One letter; `p2` keeps its value when there is no parameter. -/
def intmodeStep (net : Intnet) (s : Intmode) (m : Byte) : Intmode :=
  if m = PLUS ∨ m = MINUS then
    if s.sign ≠ m ∧ s.prefixchange = false then
      { s with sign := m, prefixchange := true, newmode := s.newmode ++ [m] }
    else s
  else if m ∈ ascii "smitn" then
    if m ∉ s.newmode ∧ (s.sign = PLUS ↔ m ∉ s.chan.modes) then
      { s with newmode := s.newmode ++ [m], prefixchange := false }
    else s
  else if m = 98 then
    match s.p with
    | none => { s with p := s.p2 }
    | some par =>
        let arg := nextParam par
        let p := if 100 < arg.1.length then arg.1.take 99 else arg.1
        let s' := { s with p := arg.2, p2 := arg.2 }
        if s.aktbans < 3 then
          let change := if s.sign = PLUS then addban s.chan p else removeban s.chan p
          if change.2 then s'.done m change.1 p p else s'
        else s'
  else if m = 111 ∨ m = 118 then
    match s.p with
    | none => { s with p := s.p2 }
    | some par =>
        let arg := nextParam par
        let p := arg.1
        let s' := { s with p := arg.2, p2 := arg.2 }
        if s.aktbans < 3 then
          let change :=
            if s.sign = PLUS then
              if m = 111 then addop net s.chan p else addvoice s.chan p
            else if m = 111 then delop net s.chan p else delvoice s.chan p
          let text := ((getclientbynick net p).map Clientt.nick).getD p
          if change.2 then s'.done m change.1 p text else { s' with chan := change.1 }
        else s'
  else if m = 107 then
    match s.p with
    | none => s
    | some par =>
        let arg := nextParam par
        let s' := { s with p := arg.2, p2 := arg.2, newmode := s.newmode ++ [m] }
        if s.newparam.length + arg.1.length + 1 < 399 then
          { s' with newparam := s.newparam ++ arg.1 ++ [SP], prefixchange := false }
        else s'
  else s

/-- The parameters that `intmode` starts with: a single byte counts as none. -/
def modeParams (params : CStr) : Option CStr :=
  if (rtrim params).length ≤ 1 then none else some (rtrim params)

/-- `intmode` for a link. -/
def intmode (net : Intnet) (ircfrom currentto modes params : CStr) (link : Nat) : Intnet × List Out :=
  match getuserchannel net.intchan currentto with
  | none => (net, [])
  | some k =>
      match net.intchan[k]? with
      | none => (net, [])
      | some chan =>
          let s := modes.foldl (intmodeStep net) { chan := chan, p := modeParams params }
          let setchan := fun chan => { net with intchan := net.intchan.modify k fun _ => chan }
          if s.newmode = [] ∨ s.newmode = [PLUS] ∨ s.newmode = [MINUS] then (setchan s.chan, [])
          else
            let mm :=
              if s.newmode.head? = some PLUS ∨ s.newmode.head? = some MINUS then [] else [PLUS]
            let newparam := rtrim s.newparam
            let text := COLON :: ircfrom ++ ascii " MODE " ++ currentto ++ SP :: mm ++ s.newmode ++
              SP :: newparam
            (setchan (addchannelmode s.chan s.newmode newparam).1,
              sendtochannel (setchan s.chan) s.chan.name link text)

def cmdintmode (net : Intnet) (irc : Parsed) (link : Nat) : Intnet × List Out :=
  let currentto := clip 200 irc.ircto
  if currentto = [] then (net, [])
  else
    match cutAt SP irc.irccontent with
    | none => intmode net irc.ircfrom currentto (clip 200 irc.irccontent) [] link
    | some (pt, pt2) => intmode net irc.ircfrom currentto (clip 200 pt) (clip 400 pt2) link

/-! ## USER -/

/-- `cmdintuser`; what `cmdrelink` does to the link after a collision is left out. -/
def cmdintuser (net : Intnet) (irc : Parsed) (link : Nat) : Intnet × List Out :=
  let server := clip 200 irc.irccontent
  match cutAt SP irc.ircto with
  | none => (net, [])
  | some (w, pt) =>
      let nick := clip 64 w
      if ascii "Guest" <+: nick ∧ atoi (nick.drop 5) ≠ 0 then (net, [])
      else
        match cutAt SP pt with
        | none => (net, [])
        | some (pt, ept) =>
            let ident := clip 16 pt
            let host := firstWord (clip 200 ept)
            match getclientbynick net nick with
            | some client =>
                let iam := ((net.linknode.find? fun l => l.uid == link).map Datalink.iam).getD []
                let text := COLON :: nick ++ BANG :: ident ++ AT :: host ++ ascii " NOTICE " ++
                  client.nick ++ ascii " :Your nick was introduced to the intnet by link '" ++
                  iam ++ ascii "'. The link had been resetted due to collide."
                (net, sendtoclient net client.nick link text)
            | none =>
                let net := createclient net 0 nick ident host server
                let text := ascii "USER " ++ nick ++ SP :: ident ++ SP :: host ++ SP :: COLON ::
                  server
                (net, broadcast net link (intnetLine net.me text))

/-! ## Dispatch -/

/-- `internalinbound` for a link.  The other commands of the internal network have handlers of
their own, which are not modelled. -/
def internalinbound (net : Intnet) (ircbuf : CStr) (link : Nat) : Intnet × List Out :=
  let irc := parse ircbuf
  if ifcommand irc (ascii "PRIVMSG") || ifcommand irc (ascii "NOTICE") then
    (net, cmdintprivmsg net irc ircbuf link)
  else if ifcommand irc (ascii "JOIN") then cmdintjoin net irc ircbuf link
  else if ifcommand irc (ascii "MODE") then cmdintmode net irc link
  else if ifcommand irc (ascii "USER") then cmdintuser net irc link
  else if ifcommand irc (ascii "INVITE") then cmdintinvite net irc ircbuf link
  else (net, [])

/-- `processlink` on an INTNET line; other lines are not followed here. -/
def processlink (net : Intnet) (nlink : Nat) (ircbuf : CStr) : Intnet × List Out :=
  let irc := parse ircbuf
  if ifcommand irc (ascii "INTNET") then
    internalinbound net (clip 8192 (rtrim irc.irccontent)) nlink
  else (net, [])

/-! ## Joining a link -/

/-- `sendtolink`: the `ircbuf` that `broadcasttolink` writes to the link. -/
def sendtolink (me text : CStr) : CStr := intnetLine me (clip 2048 text)

/-- `lngtxt(495)`, `lngtxt(498)`, `lngtxt(500)`, `lngtxt(502)`. -/
def modeline (me name : CStr) : CStr :=
  clip 1024 (COLON :: me ++ ascii "-psybnc.net MODE " ++ name ++ ascii " +")

/-- `lngtxt(497)`, `lngtxt(499)`, `lngtxt(501)`, `lngtxt(503)`. -/
def modeText (line paramline : CStr) : CStr := line ++ SP :: paramline

/-- The loop over the members of a channel. -/
def joinMembers (me name : CStr) : List Uchannelusert → CStr → CStr → Nat → List CStr
  | [], line, paramline, modes => if modes ≠ 0 then [sendtolink me (modeText line paramline)] else []
  | chanuser :: rest, line, paramline, modes =>
      let join := COLON :: chanuser.nick ++ BANG :: chanuser.ident ++ AT :: chanuser.host ++
        ascii " JOIN :" ++ name
      if chanuser.mode.head? = some AT ∨ chanuser.mode.head? = some PLUS then
        let full := decide (modes = 3)
        let sent := if full then [sendtolink me (modeText line paramline)] else []
        let line := if full then modeline me name else line
        let paramline := if full then [] else paramline
        let modes := if full then 0 else modes
        let line := line ++ if chanuser.mode.head? = some AT then [111] else [118]
        let fits := decide (paramline.length + chanuser.nick.length + 1 < 1024)
        let paramline :=
          if fits then paramline ++ chanuser.nick ++ if modes + 1 ≠ 3 then [SP] else []
          else paramline
        let modes := if fits then modes + 1 else modes
        sendtolink me join :: sent ++ joinMembers me name rest line paramline modes
      else sendtolink me join :: joinMembers me name rest line paramline modes

/-- The loop over the bans of a channel. -/
def joinBans (me name : CStr) : List CStr → CStr → CStr → Nat → List CStr
  | [], line, paramline, modes => if modes ≠ 0 then [sendtolink me (modeText line paramline)] else []
  | entry :: bans, line, paramline, modes =>
      let full := decide (modes = 3)
      let sent := if full then [sendtolink me (modeText line paramline)] else []
      let line := if full then modeline me name else line
      let paramline := if full then [] else paramline
      let modes := if full then 0 else modes
      let line := if line.length + 1 < 1024 then line ++ [98] else line
      let paramline :=
        if paramline.length + entry.length + 1 < 1024 then paramline ++ entry ++ [SP]
        else paramline
      sent ++ joinBans me name bans line paramline (modes + 1)

def joinChannel (me : CStr) (chan : Uchannelt) : List CStr :=
  joinMembers me chan.name chan.users (modeline me chan.name) [] 0 ++
    joinBans me chan.name chan.bans (modeline me chan.name) [] 0 ++
    [sendtolink me (COLON :: me ++ ascii "-psybnc.net MODE " ++ chan.name ++ SP :: chan.modes)]

/-- `lngtxt(494)`. -/
def userText (client : Clientt) : CStr :=
  ascii "USER " ++ client.nick ++ SP :: client.ident ++ SP :: client.host ++ SP :: COLON ::
    client.server

/-- `joinintnettolink`: the lines for a link, in order. -/
def joinintnettolink (net : Intnet) : List CStr :=
  (net.clients.map fun client => sendtolink net.me (userText client)) ++
    net.intchan.flatMap (joinChannel net.me)

end PsyBnc
