import PsyBnc.Intnet.Invite
import PsyBnc.StringList.Slots

/-!
# JOIN of a local user, and the channels that are saved for him

The body of the loop in `cmdintjoin`, for one channel of the request.  The channels a user is on are kept in the
section `INTCHANS` of his file, in slots: they are looked for in the slots 0 to 19, while a new one goes to
the first slot that is free.
-/

namespace PsyBnc

open CLib

@[reducible] def CHANSIGN : Byte := 35

/-- `cmdintjoin` for a client and a channel that was made for it, with its `rc`: the client becomes operator
and is remembered as one. -/
def openround (chan : Uchannelt) (client : Clientt) (key : CStr) : Uchannelt × Int :=
  let rc := if getchannelnick chan client.nick ≠ none then -5 else mayjoin chan client key
  if rc < 0 then (chan, rc)
  else
    let client := { client with nick := firstWord client.nick }
    let joined := addnicktochannel (removeinvite chan client.nick) client.nick client.ident client.host
    match getchannelnick joined client.nick with
    | none => (joined, rc)
    | some k => (addintop (setmember joined k (ascii "@")) (opMask client), rc)

/-- The body of the loop in `cmdintjoin`: the channels, and the name of the one that was joined. -/
def userJoin (channels : List Uchannelt) (client : Clientt) (channel key : CStr) :
    List Uchannelt × Option CStr :=
  let currentto := clip 200 channel
  if currentto.head? ≠ some CHANSIGN then (channels, none)
  else
    let added := addintchannel channels currentto
    match added.1[added.2]? with
    | none => (channels, none)
    | some chan =>
        let joined :=
          if getuserchannel channels currentto = none then openround chan client key
          else joinround chan client key
        (added.1.set added.2 joined.1, if joined.2 < 0 then none else some joined.1.name)

/-- The body of the loop in `cmdintpart`: what is left, and the name of the channel that was parted. -/
def userPart (net : Intnet) (client : Clientt) (channel irccontent : CStr) : Intnet × Option CStr :=
  let currentto := clip 200 channel
  if currentto.head? ≠ some CHANSIGN then (net, none)
  else
    let chan := (getuserchannel net.intchan currentto).bind fun k => net.intchan[k]?
    ((partChannel net client currentto irccontent).1,
      (chan.filter fun chan => (getchannelnick chan client.nick).isSome).map Uchannelt.name)

/-- `lngtxt(403)`, `lngtxt(407)` and the like. -/
def intchanEntry (i : Nat) : CStr := clip 200 (ascii "ENTRY" ++ dec i)

def INTCHANS : CStr := ascii "INTCHANS"

/-- `getini` for a slot. -/
def intchanSlot (usern : Nat) (conf : Conf) (i : Nat) : Option CStr :=
  getini INTCHANS (intchanEntry i) (clip 200 (userFile usern)) conf

def addconfigchannel (usern : Nat) (channel : CStr) (conf : Conf) : Option Conf :=
  if (List.range 20).any fun i => (intchanSlot usern conf i).any fun value => strmcmp value channel then
    some conf
  else
    (countconfentries INTCHANS (ascii "ENTRY%d") (clip 200 (userFile usern)) conf).bind fun found =>
      writeini INTCHANS (intchanEntry found.2) (clip 200 (userFile usern)) (some channel) conf

def removeconfigchannel (usern : Nat) (channel : CStr) (conf : Conf) : Option Conf :=
  match (List.range 20).find? fun i => (intchanSlot usern conf i).any fun value => strmcmp channel value with
  | none => some conf
  | some i => writeini INTCHANS (intchanEntry i) (clip 200 (userFile usern)) none conf

/-- The first channel that `cmdintjoin` takes from a request. -/
def joinTarget (irccontent : CStr) : Option CStr :=
  let pt := ((cutAt SP irccontent).map Prod.fst).getD irccontent
  let currentto := clip 200 (((cutAt COMMA pt).map Prod.fst).getD pt)
  if currentto.head? = some CHANSIGN then some currentto else none

/-- `rejoinintchannels`: the channels, and what was tried to join; nothing is saved meanwhile. -/
def rejoinintchannels (usern : Nat) (client : Clientt) (key : CStr) (conf : Conf) (channels : List Uchannelt) :
    List Uchannelt × List CStr :=
  let tried := (List.range 20).filterMap fun i => (intchanSlot usern conf i).bind joinTarget
  (tried.foldl (fun channels channel => (userJoin channels client channel key).1) channels, tried)

end PsyBnc
