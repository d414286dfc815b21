import PsyBnc.Intnet.Nick
import PsyBnc.UChannel.Grammar

/-!
# Lines of the server (`p_server.c`, with `p_uchannel.c`)

What the lines that a server sends for one user change in his record, his channels and the
configuration.  `none` is a fault of the configuration functions.  What is sent, logged or shown,
the topics and the mark `ison` are left out, and so are the sockets.
-/

namespace PsyBnc

open CLib

/-- A user with a connection to a server; `net.instate` tells whether he is connected himself. -/
structure UserSession where
  user : Usert
  nick : CStr
  login : CStr
  host : CStr
  parent : Nat := 0
  conf : Conf
  net : Intnet
  /-- The WHO requests of the client whose replies have not ended yet. -/
  triggered : Nat := 0

/-! ## Channels and members -/

def removeallusersfromchannel (lkm : Uchannelt) : Uchannelt := { lkm with users := [] }

def resetallchannels (u : Usert) : Usert :=
  { u with channels := u.channels.map removeallusersfromchannel }

/-- The loop of `removenickfromallchannels` for a user, as `removenickLoop`. -/
def quitLoop (nick : CStr) : Nat → Nat → Usert → Conf → Option (Usert × Conf)
  | 0, _, u, conf => some (u, conf)
  | n + 1, i, u, conf =>
      match u.channels[i]? with
      | none => some (u, conf)
      | some channel =>
          let echannel := removenickfromchannel channel nick
          let u := { u with channels := u.channels.set i echannel }
          if echannel.users = [] then
            (removechannelfromuser u echannel.name conf).bind fun left =>
              quitLoop nick n i left.1 left.2
          else quitLoop nick n (i + 1) u conf

/-- `removenickfromallchannels` for a user. -/
def removenickfromuser (u : Usert) (nick : CStr) (conf : Conf) : Option (Usert × Conf) :=
  quitLoop nick u.channels.length 0 u conf

/-- A channel of a user is changed. -/
def changechannel (s : UserSession) (name : CStr) (change : Uchannelt → Uchannelt) : UserSession :=
  match getuserchannel s.user.channels name with
  | none => s
  | some k => { s with user := { s.user with channels := s.user.channels.modify k change } }

/-! ## Modes -/

/-- A parameter and the text behind its blank. -/
def nextWord (par : CStr) : CStr × Option CStr :=
  match cutAt SP par with
  | none => (par, none)
  | some (w, rest) => (w, some rest)

/-- The loop of `setchannelmode`: only `l` and `k` have a parameter. -/
def setmodeLoop : CStr → Option CStr → Uchannelt → Uchannelt × List KeyWrite
  | [], _, lkm => (lkm, [])
  | md :: rest, par, lkm =>
      if md = 108 then
        match par with
        | none => setmodeLoop rest par lkm
        | some par =>
            let arg := nextWord par
            setmodeLoop rest arg.2 { lkm with limit := atoi arg.1 }
      else if md = 107 then
        match par with
        | none => setmodeLoop rest par lkm
        | some par =>
            let arg := nextWord par
            let lkm := { lkm with key := clip 64 arg.1 }
            let done := setmodeLoop rest arg.2 lkm
            (done.1, (if 0 < lkm.usern then [some (cryptit buildSalt lkm.key)] else []) ++ done.2)
      else setmodeLoop rest par lkm

def setchannelmode (lkm : Uchannelt) (mode param : CStr) : Uchannelt × List KeyWrite :=
  setmodeLoop mode (some param) { lkm with modes := clip 20 mode }

/-- A line without its end. -/
def cutLine (line : CStr) : CStr :=
  match cutAt CR line with
  | some (u, _) => u
  | none =>
      match cutAt LF line with
      | some (u, _) => u
      | none => line

/-- The channel, the modes and the parameters of a 324 line. -/
def modeReply (ircbuf : CStr) : Option (CStr × CStr × CStr) :=
  (cutStr (ascii " 324 ") (cutLine (clip 2048 ircbuf))).bind fun line =>
    (cutAt SP line.2).bind fun words =>
      (cutAt SP words.2).map fun p =>
        let pt2 := (afterPrefix [PLUS] p.2).getD p.2
        match cutAt SP pt2 with
        | some (mode, param) => (clip 200 p.1, clip 40 mode, clip 200 param)
        | none => (clip 200 p.1, clip 40 pt2, [])

def msg324 (s : UserSession) (ircbuf : CStr) : Option UserSession :=
  match modeReply ircbuf with
  | none => some s
  | some (chan, mode, param) =>
      match getuserchannel s.user.channels chan with
      | none => some s
      | some k =>
          match s.user.channels[k]? with
          | none => some s
          | some lkm =>
              let done := setchannelmode lkm mode param
              (writeKeys s.user.uid lkm.isentry done.2 s.conf).map fun conf =>
                { s with
                  user := { s.user with channels := s.user.channels.modify k fun _ => done.1 }
                  conf := conf }

def gotmode (s : UserSession) (irc : Parsed) : Option UserSession :=
  let words := (cutAt SP irc.irccontent).getD (irc.irccontent, [])
  (changemodes s.user irc.ircto words.1 words.2 s.conf).map fun done =>
    { s with user := done.1, conf := done.2 }

/-! ## Members -/

/-- What the own JOIN copies into the channel. -/
def copygrammar (u : Usert) (chan : Uchannelt) : Uchannelt :=
  { chan with
    prefixmodes := clip 30 u.prefixmodes
    prefixchars := clip 30 u.prefixchars
    chanmodes := clip 100 u.prefixmodes }

def gotjoin (s : UserSession) (irc : Parsed) : Option UserSession :=
  let join := fun chan => addnicktochannel chan irc.ircnick irc.ircident irc.irchost
  if strmcmp s.nick irc.ircnick then
    (addchanneltouser s.user irc.ircto false s.conf).map fun added =>
      let u := added.1
      { s with
        user := { u with channels := u.channels.modify added.2.2 fun chan => copygrammar u (join chan) }
        conf := added.2.1 }
  else some (changechannel s irc.ircto join)

def gotpart (s : UserSession) (irc : Parsed) : Option UserSession :=
  if strmcmp s.nick irc.ircnick then
    if s.user.uid ∈ s.net.instate then
      (removechannelfromuser s.user irc.ircto s.conf).map fun left =>
        { s with user := left.1, conf := left.2 }
    else some (changechannel s irc.ircto removeallusersfromchannel)
  else some (changechannel s irc.ircto fun chan => removenickfromchannel chan irc.ircnick)

/-- The channel and the nick of a KICK line. -/
def kicked (ircbuf : CStr) : Option (CStr × CStr) :=
  (cutStr (ascii " KICK ") ircbuf).bind fun line =>
    (cutAt SP line.2).bind fun words =>
      (cutAt SP words.2).map fun p => (clip 200 words.1, clip 64 p.1)

def gotkick (s : UserSession) (ircbuf : CStr) : UserSession :=
  match kicked ircbuf with
  | none => s
  | some (kchan, knick) =>
      let s := changechannel s kchan fun chan => removenickfromchannel chan knick
      if strmcmp knick s.nick then changechannel s kchan removeallusersfromchannel else s

def gotquit (s : UserSession) (irc : Parsed) : Option UserSession :=
  if strmcmp irc.ircnick s.nick then some { s with user := resetallchannels s.user }
  else
    (removenickfromuser s.user irc.ircnick s.conf).map fun left =>
      { s with user := left.1, conf := left.2 }

/-- A name of a 353 line, with its prefixes. -/
def namesWord (prefixchars : CStr) (chan : Uchannelt) (word : CStr) : Uchannelt :=
  let mm := (word.takeWhile fun b => decide (b ∈ prefixchars)).take 1
  let nick := word.dropWhile fun b => decide (b ∈ prefixchars)
  if nick = [] then chan
  else
    let chan := addnicktochannel chan nick [] []
    match getchannelnick chan nick with
    | none => chan
    | some k => setmember chan k mm

/-- The channel and the names of a 353 line. -/
def namesReply (ircbuf : CStr) : Option (CStr × CStr) :=
  (cutStr (ascii " 353 ") (cutLine (clip 2048 ircbuf))).bind fun line =>
    let pt2 := (cutStr (ascii " = ") line.2).or
      ((cutStr (ascii " @ ") line.2).or (cutStr (ascii " * ") line.2))
    pt2.bind fun kind =>
      (cutAt SP kind.2).bind fun words =>
        (cutAt COLON (SP :: words.2)).map fun p => (clip 300 words.1, p.2)

def msg353 (s : UserSession) (ircbuf : CStr) : UserSession :=
  match namesReply ircbuf with
  | none => s
  | some (channel, names) =>
      changechannel s channel fun chan =>
        (names.splitOn SP).foldl (namesWord s.user.prefixchars) chan

def performwho (s : UserSession) (ircbuf : CStr) : UserSession :=
  match (clip 8192 ircbuf).splitOn SP with
  | _ :: _ :: _ :: hchan :: hident :: hhost :: _ :: hnick :: _ :: _ :: _ =>
      changechannel s (clip 1024 hchan) fun chan =>
        addnicktochannel chan (clip 64 hnick) (clip 64 hident) (clip 1024 hhost)
  | _ => s

/-- The replies to a WHO of the client are passed on, and nothing is learned from them. -/
def msg352 (s : UserSession) (ircbuf : CStr) : UserSession :=
  if s.triggered = 0 then performwho s ircbuf else s

/-- The end of the replies to a WHO. -/
def msg315 (s : UserSession) : UserSession :=
  if s.triggered = 0 then s else { s with triggered := s.triggered - 1 }

/-- The client asks for a WHO. -/
def cmdwho (s : UserSession) : UserSession := { s with triggered := s.triggered + 1 }

/-! ## Nicks -/

/-- `gotnick`: the internal network is told first, and then the globals are read again. -/
def gotnick (s : UserSession) (irc : Parsed) : Option UserSession :=
  let rename := fun (s : UserSession) (irc : Parsed) =>
    { s with user := { s.user with channels := nickchange s.user.channels irc.ircnick irc.ircto } }
  if strmcmp irc.ircnick s.nick then
    (writeini (ascii "USER") (ascii "NICK") (userFile s.user.uid) (some irc.ircto) s.conf).map
      fun conf =>
        let s := { s with nick := clip 64 irc.ircto, conf := conf }
        if s.parent = 0 then
          let irc := { irc with irccontent := clip 6000 irc.ircto }
          let done := nickLocal s.net s.user.uid s.nick s.login irc
          rename { s with net := done.1 } (globalsAfter irc done.2)
        else rename s irc
  else some (rename s irc)

/-! ## Announcements -/

/-- The welcome line, with the host of the user behind the first `@`. -/
def welcomeLine (host ircbuf : CStr) : CStr :=
  match cutStr (ascii " 001 ") ircbuf with
  | none => ircbuf
  | some (u, v) =>
      match cutAt AT v with
      | none => ircbuf
      | some (w, _) =>
          let line := u ++ ascii " 001 " ++ w ++ [AT]
          if line.length + host.length < 8192 then line ++ host else line

/-- `001`, with `serverinit`, which parses the line again after the internal network was told. -/
def msg001 (s : UserSession) (irc : Parsed) (ircbuf : CStr) : UserSession :=
  let u := { s.user with
    prefixmodes := ascii "ov"
    prefixchars := ascii "@+"
    chanmodes := ascii "beI,k,l,imnpst" }
  let s := { s with user := resetallchannels u }
  if s.parent = 0 then
    let net := (nickLocal s.net u.uid s.nick s.login { irc with irccontent := clip 6000 irc.ircto }).1
    let irc := parse (clip 4096 (welcomeLine s.host ircbuf))
    { s with net := net, nick := clip 64 irc.ircto }
  else { s with nick := clip 64 irc.ircto }

/-- The `PREFIX` of a `005` line; the blank that ends it is looked for from its start on. -/
def mapPrefix (ircbuf : CStr) (u : Usert) : Usert :=
  match (cutStr (ascii " PREFIX=(") ircbuf).bind fun line => cutAt 41 line.2 with
  | none => u
  | some (modes, chars) =>
      let u := { u with prefixmodes := clip 30 modes }
      if SP ∈ modes then { u with prefixchars := clip 30 chars }
      else
        match cutAt SP chars with
        | none => u
        | some (chars, _) => { u with prefixchars := clip 30 chars }

def mapChanmodes (ircbuf : CStr) (u : Usert) : Usert :=
  match (cutStr (ascii " CHANMODES=") ircbuf).bind fun line => cutAt SP line.2 with
  | none => u
  | some (chanmodes, _) => { u with chanmodes := clip 100 chanmodes }

/-- `mapprefixed`, without `CHANTYPES`. -/
def mapprefixed (s : UserSession) (ircbuf : CStr) : UserSession :=
  { s with user := mapChanmodes ircbuf (mapPrefix ircbuf s.user) }

/-- `ERROR`, after which psyBNC closes its connection to the server. -/
def msgERROR (s : UserSession) : UserSession := { s with user := resetallchannels s.user }

/-! ## Dispatch -/

/-- `useroutbound`, for the commands that are followed here. -/
def useroutbound (s : UserSession) (ircbuf : CStr) : Option UserSession :=
  let irc := parse ircbuf
  if ifcommand irc (ascii "ERROR") then some (msgERROR s)
  else if ifcommand irc (ascii "001") then some (msg001 s irc ircbuf)
  else if ifcommand irc (ascii "005") then some (mapprefixed s ircbuf)
  else if ifcommand irc (ascii "352") then some (msg352 s ircbuf)
  else if ifcommand irc (ascii "353") then some (msg353 s ircbuf)
  else if ifcommand irc (ascii "315") then some (msg315 s)
  else if ifcommand irc (ascii "324") then msg324 s ircbuf
  else if ifcommand irc (ascii "NICK") then gotnick s irc
  else if ifcommand irc (ascii "JOIN") then gotjoin s irc
  else if ifcommand irc (ascii "PART") then gotpart s irc
  else if ifcommand irc (ascii "QUIT") then gotquit s irc
  else if ifcommand irc (ascii "KICK") then some (gotkick s ircbuf)
  else if ifcommand irc (ascii "MODE") then gotmode s irc
  else some s

end PsyBnc
