import PsyBnc.PString

/-!
# The line parser (`p_parse.c`)

`generalparse` cuts a line into the global buffers `irc…`.  The buffer `secbuf` that it works in is
overwritten by its own rest at every step; here the rest is passed on.
-/

namespace PsyBnc

open CLib

@[reducible] def COLON : Byte := 58
@[reducible] def BANG : Byte := 33
@[reducible] def AT : Byte := 64
@[reducible] def QUOTE : Byte := 34

/-- The globals that the parser fills; the initial values are those `generalparse` starts with. -/
structure Parsed where
  ircserver : Bool := false
  irchost : CStr := []
  ircident : CStr := []
  ircnick : CStr := []
  ircfrom : CStr := []
  ircto : CStr := []
  irccommand : CStr := []
  irccontent : CStr := []
  deriving DecidableEq

/-- The line without its terminator: up to the first CR, and only without one up to the first
LF. -/
def lineOf (ircbuf : CStr) : CStr :=
  let secbuf := clip 8191 ircbuf
  match cutAt CR secbuf with
  | some (line, _) => line
  | none =>
      match cutAt LF secbuf with
      | some (line, _) => line
      | none => secbuf

/-- The trailing text of a server line, from the pointer `p2` on. -/
def serverContent (p2 : CStr) : CStr :=
  match p2 with
  | [] => []
  | b :: p2' =>
      if b = COLON then p2'
      else
        match cutAt COLON p2 with
        | some (_, p1) => p1
        | none => p2

/-- The parameter and the trailing text of a server line: `secbuf` is what follows the command. -/
def serverParams (secbuf : CStr) (irc : Parsed) : Parsed :=
  match cutAt SP secbuf with
  | none =>
      let p1 := (afterPrefix [COLON] secbuf).getD secbuf
      { irc with ircto := clip 800 (rtrim p1) }
  | some (w, p2) =>
      match afterPrefix [COLON] w with
      | none =>
          { irc with ircto := clip 800 (rtrim w), irccontent := clip 6000 (serverContent p2) }
      | some [] =>
          -- stleng is 0 and p1 stands behind the byte that is zeroed: rtrim sees the rest
          let p1 := rtrim (SP :: p2)
          { irc with ircto := clip 800 p1, irccontent := clip 6000 (serverContent p1.tail) }
      | some (b :: bs) =>
          -- stleng is counted from p1 but indexes secbuf: the zero is one byte early
          { irc with
            ircto := clip 800 (rtrim (b :: bs).dropLast)
            irccontent := clip 6000 (serverContent p2) }

/-- A line that starts with `:`; `p1` is the text behind it. -/
def serverLine (p1 : CStr) : Parsed :=
  let irc : Parsed := { ircserver := true }
  match cutAt SP p1 with
  | none => irc
  | some (prefixed, p2) =>
      let irc := { irc with ircfrom := clip 300 prefixed }
      match cutAt SP (clip 8191 p2) with
      | none => irc
      | some (cmd, p2) => serverParams (clip 8191 p2) { irc with irccommand := clip 64 cmd }

/-- The parameters of a client's line. -/
def clientParams (secbuf : CStr) (irc : Parsed) : Parsed :=
  match afterPrefix [QUOTE] secbuf with
  | some p1 =>
      match cutAt QUOTE p1 with
      | none => { irc with irccontent := clip 6000 p1 }
      | some (quoted, p2) =>
          let irc := { irc with ircto := clip 800 (rtrim quoted) }
          match cutAt COLON p2 with
          | some (_, p1) => { irc with irccontent := clip 6000 p1 }
          | none => { irc with irccontent := clip 6000 p2 }
  | none =>
      match cutAt COLON secbuf with
      | none => { irc with irccontent := clip 6000 secbuf }
      | some (p1, p2) =>
          { irc with ircto := clip 800 (rtrim p1), irccontent := clip 6000 p2 }

def clientLine (secbuf : CStr) : Parsed :=
  match cutAt SP secbuf with
  | none => { irccommand := clip 64 secbuf }
  | some (cmd, p2) => clientParams (clip 8191 p2) { irccommand := clip 64 cmd }

def generalparse (ircbuf : CStr) : Parsed :=
  match afterPrefix [COLON] (lineOf ircbuf) with
  | some p1 => serverLine p1
  | none => clientLine (lineOf ircbuf)

/-- `ircnick` and `ircident`: the sender up to its first `!`, and from there up to the next `@`. -/
def nickIdent (irc : Parsed) : Parsed :=
  match cutAt BANG irc.ircfrom with
  | none => irc
  | some (nick, p2) =>
      let stlen := min (nick.length + 1) 64
      let irc := { irc with ircnick := clip stlen irc.ircfrom }
      match cutAt AT p2 with
      | some (ident, _) => { irc with ircident := clip 32 ident }
      | none => irc

/-- `irchost`: the sender behind its first `@`. -/
def hostOf (irc : Parsed) : Parsed :=
  match cutAt AT irc.ircfrom with
  | none => irc
  | some (_, p2) =>
      let stlen := min (p2.length + 1) 200
      { irc with irchost := clip stlen p2 }

def parse (ircbuf : CStr) : Parsed :=
  let irc := generalparse ircbuf
  let irc := if 0 < irc.ircfrom.length then hostOf (nickIdent irc) else irc
  { irc with irccommand := ucase irc.irccommand }

/-- `ifcommand`. -/
def ifcommand (irc : Parsed) (cmd : CStr) : Bool :=
  if irc.irccommand = [] then false else strmcmp cmd irc.irccommand

end PsyBnc
