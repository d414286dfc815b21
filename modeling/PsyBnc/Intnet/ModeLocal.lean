import PsyBnc.Intnet.Interpret
import PsyBnc.Intnet.Nick

/-!
# MODE for a local client

A local operator is told about nicks that are not on the channel, and about the bans when `b` comes
without a mask; `addop`, `delop` and `delvoice` then refuse, where they ignore an unknown nick that a
link names.
-/

namespace PsyBnc

open CLib

/-- `lngtxt(425)` to `lngtxt(428)`. -/
def notOnChannel (net : Intnet) (client : Clientt) (chan : Uchannelt) : List Out :=
  sendtoclient net client.nick 0
    (COLON :: net.me ++ ascii "-psybnc.net 441 " ++ client.nick ++ SP :: chan.name ++
      ascii " :They aren't on that channel")

/-- `lngtxt(432)` and `lngtxt(433)`: the bans of a channel. -/
def banList (net : Intnet) (client : Clientt) (chan : Uchannelt) : List Out :=
  (chan.bans.flatMap fun entry => sendtoclient net client.nick 0
    (COLON :: net.me ++ ascii "-psybnc.net 367 " ++ client.nick ++ SP :: chan.name ++ SP :: entry)) ++
  sendtoclient net client.nick 0
    (COLON :: net.me ++ ascii "-psybnc.net 368 " ++ client.nick ++ SP :: chan.name ++
      ascii " :End of Channel Ban-List")

/-- The loop of `intmode` for a local client. -/
def intmodeLocalStep (net : Intnet) (client : Clientt) (s : Intmode) (m : Byte) :
    Intmode × List Out :=
  match s.p with
  | none => (intmodeStep net s m, if m = 98 then banList net client s.chan else [])
  | some par =>
      let arg := nextParam par
      if (m = 111 ∨ m = 118) ∧ s.aktbans < 3 ∧ getchannelnick s.chan arg.1 = none then
        let told := notOnChannel net client s.chan
        if m = 118 ∧ s.sign = PLUS then (intmodeStep net s m, told)
        else ({ s with p := arg.2, p2 := arg.2 }, told)
      else (intmodeStep net s m, [])

/-- The loop of `intmode`, for a local client or for a link. -/
def loopStep (net : Intnet) : Option Clientt → Intmode → Byte → Intmode
  | none => intmodeStep net
  | some client => fun s m => (intmodeLocalStep net client s m).1

/-- What the local client is told in the loop. -/
def modeTold (net : Intnet) (client : Clientt) : Intmode → CStr → List Out
  | _, [] => []
  | s, m :: modes =>
      (intmodeLocalStep net client s m).2 ++
        modeTold net client (intmodeLocalStep net client s m).1 modes

/-- `intmode` for a local client. -/
def intmodeLocal (net : Intnet) (client : Clientt) (currentto modes params : CStr) :
    Intnet × List Out :=
  match getuserchannel net.intchan currentto with
  | none =>
      (net,
        if currentto.head? = some 35 then
          sendtoclient net client.nick 0
            (COLON :: net.me ++ ascii "-psybnc.net 403 " ++ client.nick ++ SP :: currentto ++
              ascii " :No such Channel")
        else [])
  | some k =>
      match net.intchan[k]? with
      | none => (net, [])
      | some chan =>
          let start : Intmode := { chan := chan, p := modeParams params }
          let s := modes.foldl (loopStep net (some client)) start
          let told := modeTold net client start modes
          let setchan := fun chan => { net with intchan := net.intchan.modify k fun _ => chan }
          if s.newmode = [] ∨ s.newmode = [PLUS] ∨ s.newmode = [MINUS] then (setchan s.chan, told)
          else
            let mm :=
              if s.newmode.head? = some PLUS ∨ s.newmode.head? = some MINUS then [] else [PLUS]
            let newparam := rtrim s.newparam
            let text := COLON :: clientMask client ++ ascii " MODE " ++ currentto ++ SP :: mm ++
              s.newmode ++ SP :: newparam
            (setchan (addchannelmode s.chan s.newmode newparam).1,
              told ++ sendtochannel (setchan s.chan) s.chan.name 0 text)

/-- What `intmode` makes of a channel, for a local client or for a link. -/
def effectOf (net : Intnet) (client : Option Clientt) (chan : Uchannelt) (modes params : CStr) :
    Uchannelt :=
  let s := modes.foldl (loopStep net client) { chan := chan, p := modeParams params }
  if s.newmode = [] ∨ s.newmode = [PLUS] ∨ s.newmode = [MINUS] then s.chan
  else (addchannelmode s.chan s.newmode (rtrim s.newparam)).1

theorem intmodeLocal_known {net : Intnet} {client : Clientt} {chan : Uchannelt}
    {name modes params : CStr} {k : Nat} (h : getuserchannel net.intchan name = some k)
    (hk : net.intchan[k]? = some chan) :
    (intmodeLocal net client name modes params).1 =
      { net with intchan := net.intchan.modify k fun _ =>
          effectOf net (some client) chan modes params } := by
  simp only [intmodeLocal, h, hk, effectOf]
  split
  · rfl
  · rfl

end PsyBnc
