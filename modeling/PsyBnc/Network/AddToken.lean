import PsyBnc.Lib.Scanf
import PsyBnc.Network.ModeLine
import PsyBnc.Network.Names

/-!
# The token on the lines of a network (`addtoken`)

A line that the server of a network sends is rewritten before the user gets it: channels and nicks bear the name of the
network in front, and the user himself is called by the nick of the parent.  What is done depends on the command.
-/

namespace PsyBnc

open CLib

/-- `user(usern)` of a network, with what is read of its parent. -/
structure TokenUser where
  net : NetworkUser
  network : CStr
  grammar : ModeGrammar
  chantypes : CStr
  network_lt : network.length < 10

/-- The parameters of a handler, with what it reads of `user(usern)`. -/
def TokenUser.caller (u : TokenUser) (usern : Nat) : NetModeUser :=
  if usern > 10000 then ⟨u.net.nick, u.grammar, u.chantypes, ascii "int", u.net.nick⟩
  else ⟨u.net.nick, u.grammar, u.chantypes, clip 20 u.network, clip 64 u.net.parentnick⟩

def NetModeUser.names (u : NetModeUser) : NamesUser := ⟨u.nick, u.grammar.prefixchars, u.netname, u.myparentnick⟩

/-! ## The handlers -/

section Handlers

variable (u : NetModeUser) (irc : Parsed) (netircfrom ircbuf : CStr)

/-- A name with the token in front. -/
def tokened (name : CStr) : CStr := u.netname ++ TILDE :: name

/-- A line that is written anew. -/
def netline (text : CStr) : CStr := clip 8192 (COLON :: (netircfrom ++ text))

def netnick : CStr :=
  if strmncasecmp u.nick irc.ircto = false ∧ strmncasecmp u.myparentnick irc.ircto = false then
    netline netircfrom (ascii " NICK :" ++ tokened u irc.ircto)
  else []

def netjoin : CStr := netline netircfrom (ascii " JOIN :#" ++ tokened u irc.ircto)

def netpart : CStr := netline netircfrom (ascii " PART #" ++ tokened u irc.ircto ++ SP :: COLON :: irc.irccontent)

def nettopic : CStr := netline netircfrom (ascii " TOPIC #" ++ tokened u irc.ircto ++ SP :: COLON :: irc.irccontent)

def netquit : CStr := if strmncasecmp u.nick irc.ircnick then [] else ircbuf

/-- `strchr` finds the terminator of an empty target, too. -/
def netprivmsg : CStr :=
  if irc.ircto.head?.all fun b => decide (b ∈ ascii "#!+&") then
    netline netircfrom (SP :: (irc.irccommand ++ ascii " #" ++ tokened u irc.ircto ++ SP :: COLON :: irc.irccontent))
  else ircbuf

/-- The line ends behind the channel when no blank follows the nick. -/
def netkick : CStr :=
  match cutStr (ascii " KICK ") ircbuf with
  | none => ircbuf
  | some (front, kchan) =>
      match cutAt SP kchan with
      | none => ircbuf
      | some (kchan, knick) =>
          match cutAt SP knick with
          | none => front ++ ascii " KICK " ++ kchan
          | some (knick, _) =>
              let kicked := if strmncasecmp u.nick knick then knick else tokened u knick
              netline netircfrom (ascii " KICK #" ++ tokened u kchan ++ SP :: kicked ++ SP :: COLON :: irc.irccontent)

def netinvite : CStr :=
  match cutStr (clip 8192 (SP :: COLON :: irc.irccontent)) ircbuf with
  | none => ircbuf
  | some (front, _) => clip 8192 (front ++ ascii " :#" ++ tokened u irc.irccontent)

def netisonuserhost : CStr :=
  if irc.irccontent = [] then ircbuf
  else if clip 200 (u.nick ++ [EQUALS]) <+: irc.irccontent then
    netline netircfrom (SP :: (irc.irccommand ++ SP :: u.myparentnick ++ SP :: COLON :: irc.irccontent))
  else
    netline netircfrom (SP :: (irc.irccommand ++ SP :: u.myparentnick ++ SP :: COLON :: tokened u irc.irccontent))

/-- Where the nick of a numeric begins: the user's own, else that of the parent. -/
def numericNick : Option (CStr × CStr × CStr) :=
  let checkcmd := fun nick => clip 200 (SP :: (irc.irccommand ++ SP :: nick))
  match cutStr (checkcmd u.nick) ircbuf with
  | some (front, pt) => some (front, clip 64 u.nick, pt)
  | none => (cutStr (checkcmd u.myparentnick) ircbuf).map fun q => (q.1, clip 64 u.myparentnick, q.2)

/-- `netdefault`; `none` when nothing is behind the nick: the byte behind the terminator is read. -/
def netdefault : Option CStr :=
  if atoi irc.irccommand = 0 then some ircbuf
  else
    match numericNick u irc ircbuf with
    | none => some ircbuf
    | some (_, _, []) => none
    | some (front, checknick, _ :: pt) =>
        let front := front ++ SP :: irc.irccommand ++ SP :: u.myparentnick
        if pt.head?.all fun b => decide (b ∈ u.types) then some (clip 8192 (front ++ ascii " #" ++ tokened u pt))
        else if pt.head? = some COLON then some (clip 8192 (front ++ SP :: pt))
        else
          match afterPrefix (clip 200 (checknick ++ [SP])) pt with
          | some pt => some (clip 8192 (front ++ SP :: u.myparentnick ++ SP :: pt))
          | none => some (clip 8192 (front ++ SP :: tokened u pt))

/-- The nick in a WHO reply; the line ends in front of it when no blank follows. -/
def whoNick : CStr :=
  match blanksTo 7 ircbuf with
  | none => ircbuf
  | some (front, pt) =>
      match cutAt SP pt.tail with
      | none => front
      | some (nick, pt2) =>
          clip 8192 (front ++ SP :: (if strmncasecmp u.nick nick then u.myparentnick else tokened u nick) ++ SP :: pt2)

/-- `netwho`; without the blanks nothing else is done. -/
def netwho : Option CStr :=
  match (blanksTo 7 ircbuf).bind fun q => cutAt SP q.2.tail with
  | none => some (whoNick u ircbuf)
  | some _ => netdefault u irc (whoNick u ircbuf)

/-- The channels of a WHOIS reply; `none` when the last word is empty: what stands behind the terminator is read.  An
empty word in the middle takes all that follows. -/
def whoisLoop : List CStr → CStr → Option CStr
  | [], out => some out
  | t :: ts, out =>
      let flagged : Option (CStr × CStr) :=
        match t, ts with
        | [], [] => none
        | [], _ => some ([], unwords SP ts)
        | b :: pt, _ => if b ∈ u.names.chars then some ([b], pt) else some ([], b :: pt)
      match flagged with
      | none => none
      | some (mm, pt) =>
          if out.length + u.netname.length + 6 + pt.length < 8192 ∧ pt.head?.any fun b => b ≠ SP then
            whoisLoop ts (out ++ mm ++ HASH :: tokened u pt ++ [SP])
          else whoisLoop ts out

def netwhoischannels : Option CStr :=
  match cutStr (clip 8192 (SP :: COLON :: irc.irccontent)) ircbuf with
  | none => netdefault u irc ircbuf
  | some (front, _) =>
      match whoisLoop u (irc.irccontent.splitOn SP) [] with
      | none => none
      | some channels => netdefault u irc (clip 8192 (front ++ SP :: COLON :: channels))

/-- The first entry of `thash` whose command it is. -/
def thash : Option (List CStr × CStr) :=
  if ifcommand irc (ascii "MODE") then some ([], (netmode u netircfrom ircbuf).2)
  else if ifcommand irc (ascii "KICK") then some ([], netkick u irc netircfrom ircbuf)
  else if ifcommand irc (ascii "PRIVMSG") then some ([], netprivmsg u irc netircfrom ircbuf)
  else if ifcommand irc (ascii "NICK") then some ([], netnick u irc netircfrom)
  else if ifcommand irc (ascii "JOIN") then some ([], netjoin u irc netircfrom)
  else if ifcommand irc (ascii "PART") then some ([], netpart u irc netircfrom)
  else if ifcommand irc (ascii "TOPIC") then some ([], nettopic u irc netircfrom)
  else if ifcommand irc (ascii "NOTICE") then some ([], netprivmsg u irc netircfrom ircbuf)
  else if ifcommand irc (ascii "QUIT") then some ([], netquit u irc ircbuf)
  else if ifcommand irc (ascii "INVITE") then some ([], netinvite u irc ircbuf)
  else if ifcommand irc (ascii "353") then some (netnames u.names ircbuf)
  else if ifcommand irc (ascii "319") then (netwhoischannels u irc ircbuf).map fun line => ([], line)
  else if ifcommand irc (ascii "352") then (netwho u irc ircbuf).map fun line => ([], line)
  else if ifcommand irc (ascii "302") then some ([], netisonuserhost u irc netircfrom ircbuf)
  else if ifcommand irc (ascii "303") then some ([], netisonuserhost u irc netircfrom ircbuf)
  else (netdefault u irc ircbuf).map fun line => ([], line)

/-- The sender with the token, or the user's own with the parent's nick. -/
def netSender : CStr :=
  if strmncasecmp u.nick irc.ircnick then
    match cutAt BANG irc.ircfrom with
    | some (_, pt2) => clip 200 (u.myparentnick ++ BANG :: pt2)
    | none => clip 200 irc.ircfrom
  else clip 200 (tokened u irc.ircfrom)

/-- `netircfrom` and the line with the new source; `old` is what `netircfrom` was. -/
def netSource (old : CStr) : CStr × CStr :=
  if ircbuf.head? = some COLON ∧ AT ∈ irc.ircfrom ∧ strmncasecmp u.myparentnick irc.ircnick = false then
    match cutAt SP ircbuf with
    | none => (old, ircbuf)
    | some (_, pt) => (netSender u irc, netline (netSender u irc) (SP :: pt))
  else (clip 200 irc.ircfrom, ircbuf)

end Handlers

/-- The lines that were sent already, and what is left for the caller. -/
structure Tokened where
  sent : List CStr
  ircbuf : CStr
  netircfrom : CStr
  net : NetworkUser

/-- `addtoken` with the line as it was parsed; the nick of the parent is read before `parentnick` may set it. -/
def addtoken (usern : Nat) (u : TokenUser) (irc : Parsed) (old ircbuf : CStr) : Option Tokened :=
  match parentnick usern u.net ircbuf with
  | none => none
  | some (ircbuf, net) =>
      let caller := u.caller usern
      let source := netSource caller irc ircbuf old
      (thash caller irc source.1 source.2).map fun q => ⟨q.1, q.2, source.1, net⟩

end PsyBnc
