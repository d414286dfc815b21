import PsyBnc.Blowfish.Model
import PsyBnc.Idea.Model
import PsyBnc.Parse.Model
import PsyBnc.StringList.Model

/-!
# Talk encryption (`checkcrypt`)

`checkcrypt` ciphers the text of what a user sends, and deciphers the text of what he gets, when he has set a key for
the channel or the nick.  It works on the line in `ircbuf`, where it looks for the text that was parsed.
-/

namespace PsyBnc

open CLib

/-- The cipher that this bouncer was built with. -/
inductive TalkCipher where
  | blowfish
  | idea
  deriving DecidableEq

namespace TalkCipher

/-- `bx`. -/
def tag : TalkCipher → CStr
  | blowfish => ascii "[B]"
  | idea => ascii "[I]"

def stringencrypt : TalkCipher → CStr → CStr → Option CStr
  | blowfish => BLOW_stringencrypt
  | idea => IDEA_stringencrypt

/-- `wrong` is the global of `unhashstring`. -/
def stringdecrypt (wrong : Bool) : TalkCipher → CStr → CStr → Option CStr
  | blowfish => BLOW_stringdecrypt
  | idea => IDEA_stringdecrypt wrong

end TalkCipher

/-- `act`. -/
def act : CStr := 1 :: ascii "ACTION "

/-- `keyhash`, where a `char` has no sign. -/
def keyhash (key : CStr) : Nat := (key.map fun b : Byte => b.toNat).sum % 2 ^ 32

/-- A user with the entries `name;key` of his encryption list. -/
structure Talker where
  cipher : TalkCipher
  salt : Salt
  encrypt : List CStr
  chantypes : CStr
  wrong : Bool := false

/-- The loop over the entries; one without a `;` ends it. -/
def findkey (buf : CStr) : List CStr → Option CStr
  | [] => none
  | entry :: lkm =>
      match cutAt SEMICOLON (clip 200 entry) with
      | none => none
      | some (pt, pt2) => if ucase pt = buf then some pt2 else findkey buf lkm

/-- Whom the key is for; `strchr` also finds the end of `chantypes`. -/
def tomatch (user : Talker) (ircbuf : CStr) (irc : Parsed) : CStr :=
  if ircbuf.head? = some COLON then
    if irc.ircto.head?.all fun b => decide (b ∈ user.chantypes) then irc.ircto else irc.ircnick
  else irc.ircto

/-- A line that comes in.  The tag stays in front of the text; `lngtxt(271)` ends the line. -/
def decryptLine (user : Talker) (pt1 ircbuf : CStr) (irc : Parsed) : Option (CStr × Parsed) :=
  let pt :=
    if irc.irccontent.head? = some 1 then
      if act <+: irc.irccontent then some (irc.irccontent.drop act.length) else none
    else some irc.irccontent
  let pt2 := pt.bind fun pt =>
    if TalkCipher.blowfish.tag <+: pt then some (TalkCipher.blowfish.stringdecrypt user.wrong (pt.drop 3) pt1)
    else if TalkCipher.idea.tag <+: pt then some (TalkCipher.idea.stringdecrypt user.wrong (pt.drop 3) pt1)
    else none
  match pt2 with
  | none => some (ircbuf, irc)
  | some none => none
  | some (some pt2) =>
      match cutStr irc.irccontent ircbuf with
      | none => some (ircbuf, irc)
      | some (u, _) =>
          let skip := if act <+: ircbuf.drop u.length then act.length else 0
          let buf := clip 800 (ircbuf.take (u.length + skip + 3))
          let ircbuf := clip 8192 (buf ++ pt2 ++ [CR, LF])
          some (ircbuf, parse ircbuf)

/-- A line that goes out: the checksum of the key is put behind the text; `lngtxt(272)` ends the line. -/
def encryptLine (user : Talker) (pt1 ircbuf : CStr) (irc : Parsed) : Option (CStr × Parsed) :=
  let valid := irc.irccontent.head? = some 1
  if valid ∧ ¬ act <+: irc.irccontent then some (ircbuf, irc)
  else
    match cutStr irc.irccontent ircbuf with
    | none => some (ircbuf, irc)
    | some (u, _) =>
        let buf := clip 800 (u ++ if valid then act else [])
        let chkbuf := clip 30 (ascii " <" ++ dec (keyhash pt1) ++ ascii ">" ++ if valid then [1] else [])
        let text := if valid then irc.irccontent.dropLast else irc.irccontent
        let content := if text.length + chkbuf.length + 1 < 6000 then text ++ chkbuf else text
        let pt2 := if valid then content.drop act.length else content
        (user.cipher.stringencrypt pt2 pt1).map fun pt =>
          let ircbuf := clip 8192 (buf ++ user.cipher.tag ++ pt ++ [CR, LF])
          (ircbuf, parse ircbuf)

/-- `checkcrypt`: the line and what is parsed of it.  `none` where the key set-up would leave its buffers. -/
def checkcrypt (user : Talker) (ircbuf : CStr) (irc : Parsed) : Option (CStr × Parsed) :=
  if ascii "[N]" <+: irc.irccontent then some (ircbuf, irc)
  else
    match findkey (ucase (clip 800 (tomatch user ircbuf irc))) user.encrypt with
    | none => some (ircbuf, irc)
    | some pt2 =>
        (decryptit user.salt pt2).bind fun pt1 =>
          if ircbuf.head? = some COLON then decryptLine user pt1 ircbuf irc
          else encryptLine user pt1 ircbuf irc

end PsyBnc
