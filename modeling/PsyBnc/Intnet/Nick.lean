import PsyBnc.Intnet.Leave

/-!
# Entering and NICK

`enteruser` makes a client of a local user, under his nick and his login; `cmdintnick` renames
him.
-/

namespace PsyBnc

open CLib

/-- `intname`: the host of the local clients. -/
def intname (me : CStr) : CStr := clip 100 (me ++ ascii "-psybnc.net")

/-- `enteruser` for a local user `usern`, with the client that it returns.  A client of his that is
there already quits first. -/
def enteruser (net : Intnet) (usern : Nat) (nick ident : CStr) :
    Intnet × List Said × Option Clientt :=
  let enter := fun (net : Intnet) (said : List Said) =>
    let net := createclient net usern nick ident (intname net.me) net.me
    let text := ascii "USER " ++ nick ++ SP :: ident ++ SP :: intname net.me ++ SP :: COLON :: net.me
    let said := said ++ [⟨none, broadcast net 0 (intnetLine net.me text)⟩]
    (net, said, getclientbynumber net usern)
  match getclientbynick net nick with
  | none => enter net []
  | some client =>
      if client.intuser = usern then
        let said := saytochannelsofnick net nick (clientMask client ++ ascii " QUIT :reconnected" ++ [255])
        let net := { net with intchan := removenickfromallchannels net.intchan nick }
        enter (removeclient net nick) [said]
      else
        let text := ascii ":-psyBNC!psyBNC@psyBNC.dk PRIVMSG " ++ nick ++
          ascii " :The internal network (int~) could not be joined, because your nick is already in use by " ++
          clientMask client ++ ascii ". Change your nick, then retry to join."
        (net, [⟨none, [.user usern text]⟩], none)

/-- How the handlers for local users find their client. -/
def localclient (net : Intnet) (usern : Nat) (nick ident : CStr) :
    Intnet × List Said × Option Clientt :=
  match getclientbynumber net usern with
  | some client => (net, [], some client)
  | none => enteruser net usern nick ident

/-- A client gets another nick. -/
def renameclient (net : Intnet) (client : Clientt) (nick : CStr) : Intnet :=
  { net with
    intchan := nickchange net.intchan client.nick nick
    clients := net.clients.modify (net.clients.idxOf client) fun cl =>
      { cl with nick := clip 64 nick } }

/-- The line by which a local client is renamed. -/
def nickLine (client : Clientt) (ircto : CStr) : CStr :=
  COLON :: clientMask client ++ ascii " NICK :" ++ ircto

/-- `cmdintnick` for a local user, whose nick is `nick`.  The new nick is read from the globals, before
and after the line is composed. -/
def nickLocal (net : Intnet) (usern : Nat) (nick login : CStr) (irc : Parsed) :
    Intnet × List Said :=
  match getclientbynick net irc.ircto with
  | some _ => (net, [])
  | none =>
      match localclient net usern nick login with
      | (net, said, none) => (net, said)
      | (net, said, some client) =>
          if strmcmp irc.ircto client.nick = false then
            let line := saytochannelsofnick net client.nick (nickLine client irc.ircto)
            let irc := globalsAfter irc [line]
            (renameclient net client irc.ircto, said ++ [line])
          else (net, said)

end PsyBnc
