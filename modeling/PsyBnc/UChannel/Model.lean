import PsyBnc.PString
import PsyBnc.Crypt
import PsyBnc.Inifunc.Model

/-!
# Channels (`p_uchannel.c`)

A channel list is a Lean list, and a pointer into it is an index.  The channels of a user are also
kept in the configuration, which the functions here change; those of the internal network
(`usern == -1`) are not.
-/

namespace PsyBnc

open CLib

@[reducible] def MINUS : Byte := 45
@[reducible] def COMMA : Byte := 44

structure Uchannelusert where
  nick : CStr
  ident : CStr := []
  host : CStr := []
  mode : CStr := []
  deriving DecidableEq

/-- `struct uchannelt` without its topic. -/
structure Uchannelt where
  name : CStr
  modes : CStr := []
  limit : Int := 0
  key : CStr := []
  prefixmodes : CStr := []
  prefixchars : CStr := []
  chanmodes : CStr := []
  isentry : Nat := 0
  usern : Int := -1
  bans : List CStr := []
  invites : List CStr := []
  intops : List CStr := []
  users : List Uchannelusert := []
  deriving DecidableEq

/-- The fields of `struct usert` that its channels use; `uid` is a positive `int`. -/
structure Usert where
  uid : Nat
  prefixmodes : CStr
  prefixchars : CStr
  chanmodes : CStr
  channels : List Uchannelt := []
  uid_pos : 0 < uid
  uid_lt : uid < 2 ^ 31
  deriving DecidableEq

/-! ## Looking up -/

/-- Two names, each upper-cased in a buffer of `n` bytes. -/
def sameName (n : Nat) (one two : CStr) : Bool :=
  strmcmp (ucase (clip n one)) (ucase (clip n two))

def getuserchannel (channels : List Uchannelt) (channel : CStr) : Option Nat :=
  channels.findIdx? fun lkm => sameName 255 lkm.name channel

def getchannelnick (channel : Uchannelt) (nick : CStr) : Option Nat :=
  channel.users.findIdx? fun ukm => sameName 64 ukm.nick nick

/-! ## Adding and removing -/

/-- A new channel with the standard modes. -/
def newchannel (usern : Int) (prefixmodes prefixchars chanmodes channel : CStr) : Uchannelt where
  name := clip 255 channel
  modes := ascii "nt"
  prefixmodes := clip 30 prefixmodes
  prefixchars := clip 30 prefixchars
  chanmodes := clip 100 chanmodes
  usern := usern

/-- `addchanneltouser(-1, …)`. -/
def addintchannel (channels : List Uchannelt) (channel : CStr) : List Uchannelt × Nat :=
  match getuserchannel channels channel with
  | some k => (channels, k)
  | none =>
      (channels ++ [newchannel (-1) (ascii "ov") (ascii "@+") (ascii "b,k,l,imnpst") channel],
        channels.length)

/-- `addchanneltouser` for a user: his record, the configuration, and the channel. -/
def addchanneltouser (u : Usert) (channel : CStr) (nowrite : Bool) (conf : Conf) :
    Option (Usert × Conf × Nat) :=
  match getuserchannel u.channels channel with
  | some k => some (u, conf, k)
  | none =>
      let lkm := newchannel u.uid u.prefixmodes u.prefixchars u.chanmodes channel
      let added := fun lkm => { u with channels := u.channels ++ [lkm] }
      if nowrite then some (added lkm, conf, u.channels.length)
      else
        (countconfentries (ascii "CHANNELS") (ascii "ENTRY%d") (userFile u.uid) conf).bind
          fun found =>
            let lastfree := found.2
            (writeini (ascii "CHANNELS") (ascii "ENTRY" ++ dec lastfree) (userFile u.uid)
              (some channel) conf).map fun conf =>
                (added { lkm with isentry := lastfree }, conf, u.channels.length)

/-- `lngtxt(884)` and `lngtxt(885)`: what is cleared with a channel. -/
def slotPattern (uid : Nat) (entry : CStr) (isentry : Nat) : CStr :=
  clip 255 (userFile uid ++ ascii ".CHANNELS." ++ entry ++ dec isentry)

def removechannelfromuser (u : Usert) (channel : CStr) (conf : Conf) : Option (Usert × Conf) :=
  match getuserchannel u.channels channel with
  | none => some (u, conf)
  | some k =>
      let isentry := ((u.channels[k]?).map Uchannelt.isentry).getD 0
      (clearsectionconfig (slotPattern u.uid (ascii "ENTRY") isentry) conf).bind fun conf =>
        (clearsectionconfig (slotPattern u.uid (ascii "KEY") isentry) conf).map fun conf =>
          ({ u with channels := u.channels.eraseIdx k }, conf)

/-- `addnicktochannel`; a nick that is there keeps its mode. -/
def addnicktochannel (chan : Uchannelt) (nick ident host : CStr) : Uchannelt :=
  match getchannelnick chan nick with
  | some k =>
      { chan with users := chan.users.modify k fun scu =>
          { scu with nick := clip 64 nick, ident := clip 64 ident, host := clip 256 host } }
  | none =>
      { chan with users := chan.users ++
          [{ nick := clip 64 nick, ident := clip 64 ident, host := clip 256 host }] }

/-! ## Modes -/

/-- A round of the loop in `ordermodes`: the new modes and what is left of the old ones. -/
def ordermode (modes : CStr × CStr) (known : Byte) : CStr × CStr :=
  match cutAt known modes.2 with
  | none => modes
  | some (u, v) =>
      (if modes.1.length < 29 then modes.1 ++ [known] else modes.1, u ++ SP :: v)

/-- `ordermodes`: the known modes in their order; a user's channel keeps the others behind them. -/
def ordermodes (channel : Uchannelt) : Uchannelt :=
  let ordered := (ascii "spmntilk").foldl ordermode ([], channel.modes)
  let newmode :=
    if channel.usern ≠ -1 then (ordered.1 ++ ordered.2.filter (· ≠ SP)).take 29 else ordered.1
  { channel with modes := clip 20 newmode }

def addmodetochannel (channel : Uchannelt) (mode : Byte) : Uchannelt :=
  if channel.modes.length < 20 ∧ mode ∉ channel.modes then
    { channel with modes := channel.modes ++ [mode] }
  else channel

def deletemodefromchannel (channel : Uchannelt) (mode : Byte) : Uchannelt :=
  match cutAt mode channel.modes with
  | none => channel
  | some (u, v) => { channel with modes := clip 20 (clip 60 (u ++ v)) }

/-- `addchannelusermode`: `prefixmodes` and `prefixchars` are parallel. -/
def addchannelusermode (channel : Uchannelt) (nickname : CStr) (mode : Byte) : Uchannelt :=
  match getchannelnick channel nickname with
  | none => channel
  | some k =>
      let order := fun chanuser : Uchannelusert =>
        (channel.prefixmodes.zip channel.prefixchars).filter fun p =>
          decide (p.2 ∈ chanuser.mode ∨ mode = p.1)
      { channel with users := channel.users.modify k fun chanuser =>
          { chanuser with mode := ((order chanuser).map Prod.snd).take 20 } }

def removechannelusermode (channel : Uchannelt) (nickname : CStr) (mode : Byte) : Uchannelt :=
  let imode :=
    match (channel.prefixmodes.zip channel.prefixchars).find? fun p => p.1 == mode with
    | none => mode
    | some p => p.2
  match getchannelnick channel nickname with
  | none => channel
  | some k =>
      { channel with users := channel.users.modify k fun chanuser =>
          { chanuser with mode := chanuser.mode.erase imode } }

/-- A parameter and the ones behind it; no empty rest is left. -/
def nextParam (par : CStr) : CStr × Option CStr :=
  match cutAt SP par with
  | none => (par, none)
  | some (w, rest) => (w, if rest = [] then none else some rest)

/-- `chanmodes` has four groups, separated by commas; the third has a parameter on `+` only.  The
first byte is not counted as a comma. -/
def hasparam (chanmodes : CStr) (md sign : Byte) : Bool :=
  match cutAt md chanmodes with
  | none => false
  | some (u, _) =>
      let aftercomma := (u ++ [md]).tail.count COMMA
      decide (aftercomma < 2 ∨ (aftercomma = 2 ∧ sign ≠ MINUS))

/-- A line that `addchannelmode` writes with `writeini`: the key of a user's channel. -/
abbrev KeyWrite := Option CStr

/-- The switch for a mode with a parameter. -/
def paramMode (lkm : Uchannelt) (md sign : Byte) (par : CStr) : Uchannelt × List KeyWrite :=
  if md = 108 then ({ lkm with limit := atoi par }, [])
  else if md = 107 then
    if sign = PLUS then
      let lkm := { lkm with key := clip 64 par }
      (lkm, if 0 < lkm.usern then [some (cryptit buildSalt lkm.key)] else [])
    else ({ lkm with key := [] }, if 0 < lkm.usern then [none] else [])
  else if md = 115 then
    (if sign = PLUS then deletemodefromchannel lkm 112 else lkm, [])
  else if md = 112 then
    (if sign = PLUS then deletemodefromchannel lkm 115 else lkm, [])
  else (lkm, [])

def setMode (lkm : Uchannelt) (md sign : Byte) : Uchannelt :=
  if sign = PLUS then addmodetochannel lkm md else deletemodefromchannel lkm md

/-- The loop of `addchannelmode`; a mode whose parameter is missing ends it. -/
def modeLoop : CStr → Byte → Option CStr → Uchannelt → Uchannelt × List KeyWrite
  | [], _, _, lkm => (lkm, [])
  | md :: rest, sign, par, lkm =>
      if md = PLUS ∨ md = MINUS then modeLoop rest md par lkm
      else if md ∈ lkm.prefixmodes then
        match par with
        | none => (lkm, [])
        | some par =>
            let arg := nextParam par
            let change := if sign = PLUS then addchannelusermode else removechannelusermode
            modeLoop rest sign arg.2 (change lkm arg.1 md)
      else if md ∈ lkm.chanmodes then
        if hasparam lkm.chanmodes md sign then
          match par with
          | none => (lkm, [])
          | some par =>
              let arg := nextParam par
              let changed := paramMode lkm md sign arg.1
              let done := modeLoop rest sign arg.2 (setMode changed.1 md sign)
              (done.1, changed.2 ++ done.2)
        else
          let lkm := setMode lkm md sign
          modeLoop rest sign par (if md = 108 then { lkm with limit := 0 } else lkm)
      else modeLoop rest sign par lkm

/-- `addchannelmode`: the channel, and the values that were written for its key. -/
def addchannelmode (lkm : Uchannelt) (mode param : CStr) : Uchannelt × List KeyWrite :=
  let done := modeLoop (clip 200 mode) PLUS (some (clip 4096 param)) lkm
  (ordermodes done.1, done.2)

/-- The calls of `writeini` in `addchannelmode`. -/
def writeKeys (uid isentry : Nat) : List KeyWrite → Conf → Option Conf
  | [], conf => some conf
  | key :: keys, conf =>
      (writeini (ascii "CHANNELS") (ascii "KEY" ++ dec isentry) (userFile uid) key conf).bind
        (writeKeys uid isentry keys)

/-- `addchannelmode` on a channel of a user. -/
def changemodes (u : Usert) (channel mode param : CStr) (conf : Conf) : Option (Usert × Conf) :=
  match getuserchannel u.channels channel with
  | none => some (u, conf)
  | some k =>
      match u.channels[k]? with
      | none => some (u, conf)
      | some lkm =>
          let done := addchannelmode lkm mode param
          (writeKeys u.uid lkm.isentry done.2 conf).map fun conf =>
            ({ u with channels := u.channels.modify k fun _ => done.1 }, conf)

/-! ## Loading -/

/-- One round of `loadchannels`; `value` keeps its old text when `getini` finds nothing, but is
used only when it does. -/
def loadchannel (conf : Conf) (u : Usert) (i : Nat) : Option Usert :=
  match getini (ascii "CHANNELS") (ascii "ENTRY" ++ dec i) (userFile u.uid) conf with
  | none => some u
  | some value =>
      (addchanneltouser u value true conf).bind fun added =>
        let u := added.1
        let k := added.2.2
        let u := { u with channels := u.channels.modify k fun chan => { chan with isentry := i } }
        match getini (ascii "CHANNELS") (ascii "KEY" ++ dec i) (userFile u.uid) conf with
        | none => some u
        | some value =>
            (decryptit buildSalt value).map fun key =>
              { u with channels := u.channels.modify k fun chan =>
                  { chan with modes := ascii "tnk", key := clip 64 key } }

/-- `loadchannels`, which looks at 40 slots. -/
def loadchannels (conf : Conf) (u : Usert) : Option Usert :=
  (List.range 40).foldlM (loadchannel conf) u

end PsyBnc
