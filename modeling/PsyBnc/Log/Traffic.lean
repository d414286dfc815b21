import PsyBnc.Inifunc.Model
import PsyBnc.Lib.Formats
import PsyBnc.Parse.Server
import PsyBnc.StringList.Model

/-!
# The traffic log (`p_log.c`)

`checklogging` writes a line with the year in four digits and the month counted from 0.  `playtrafficlog` takes the
year it reads for one of two digits, as it does with the years of the query, where that is what its syntax asks for.
-/

namespace PsyBnc

open CLib

/-- `*`, a filter that lets everything pass. -/
@[reducible] def ANYTEXT : Byte := 42

@[reducible] def DASH : Byte := 45

/-! ## Writing -/

/-- `struct tm`: years since 1900, months since January. -/
structure Tm where
  tm_year : Nat
  tm_mon : Nat
  tm_mday : Nat
  tm_hour : Nat
  tm_min : Nat
  tm_sec : Nat
  year_lt : tm_year < 2 ^ 31 - 2000
  fields_lt : tm_mon < 12 ∧ tm_mday < 32 ∧ tm_hour < 24 ∧ tm_min < 60 ∧ tm_sec < 62

/-- A line that comes in while the user is away, and the time. -/
structure TrafficEvent where
  tm : Tm
  irccommand : CStr
  ircto : CStr
  ircbuf : CStr
  ircto_lt : ircto.length < 800
  ircto_line : LF ∉ ircto

/-- `iyear`. -/
def writtenYear (tm_year : Nat) : Nat :=
  let iyear := if tm_year < 80 then tm_year + 2000 else tm_year
  if iyear < 1900 then iyear + 1900 else iyear

/-- The date in `lngtxt(601)`. -/
def stampText (tm : Tm) : CStr :=
  decPad 2 (writtenYear tm.tm_year) ++ DASH :: (decPad 2 tm.tm_mon ++ DASH :: (decPad 2 tm.tm_mday ++
    DASH :: (decPad 2 tm.tm_hour ++ DASH :: (decPad 2 tm.tm_min ++ DASH :: decPad 2 tm.tm_sec))))

/-- `lngtxt(601)`; `ircto` was put into upper case. -/
def trafficLine (ev : TrafficEvent) : CStr :=
  stampText ev.tm ++ COLON :: (ucase ev.ircto ++ COLON :: (ev.ircbuf ++ [LF]))

/-- An entry `filter;dest` of the list lets the line pass. -/
def logEntryMatches (ev : TrafficEvent) (somp : CStr) : Bool :=
  match cutAt SEMICOLON (clip 400 (clip 650 somp)) with
  | none => false
  | some (filter, dest) =>
      (strmcmp (ucase dest) (ucase ev.ircto) || strmcmp ev.irccommand (ascii "QUIT")) &&
        (decide (filter.head? = some ANYTEXT) || (cutStr filter ev.ircbuf).isSome)

/-- The line is logged. -/
def trafficLogged (logs : List CStr) (ev : TrafficEvent) : Bool :=
  logs.any (logEntryMatches ev) && decide (ev.ircbuf ≠ [])

/-- `checklogging`, by what it appends to the file; the first entry that matches writes the line. -/
def checklogging (logs : List CStr) (ev : TrafficEvent) : CStr :=
  if trafficLogged logs ev then trafficLine ev else []

/-- The file after some events. -/
def trafficLog (logs : List CStr) (events : List TrafficEvent) : CStr := events.flatMap (checklogging logs)

/-! ## Reading -/

/-- A date and a time, as the six numbers of a query or an entry. -/
structure Stamp where
  yy : Int
  mm : Int
  dd : Int
  h : Int
  m : Int
  s : Int
  deriving DecidableEq, Repr

/-- The test for the end of the range. -/
def Stamp.beyond (x t : Stamp) : Bool :=
  decide (x.yy > t.yy) || decide (x.yy = t.yy ∧ x.mm > t.mm) || decide (x.yy = t.yy ∧ x.mm = t.mm ∧ x.dd > t.dd) ||
    decide (x.yy = t.yy ∧ x.mm = t.mm ∧ x.dd = t.dd ∧ x.h > t.h) ||
    decide (x.yy = t.yy ∧ x.mm = t.mm ∧ x.dd = t.dd ∧ x.h = t.h ∧ x.m > t.m) ||
    decide (x.yy = t.yy ∧ x.mm = t.mm ∧ x.dd = t.dd ∧ x.h = t.h ∧ x.m = t.m ∧ x.s > t.s)

/-- The test for its beginning. -/
def Stamp.reached (x f : Stamp) : Bool :=
  decide (x.yy > f.yy) || decide (x.yy = f.yy ∧ x.mm > f.mm) || decide (x.yy = f.yy ∧ x.mm = f.mm ∧ x.dd > f.dd) ||
    decide (x.yy = f.yy ∧ x.mm = f.mm ∧ x.dd = f.dd ∧ x.h > f.h) ||
    decide (x.yy = f.yy ∧ x.mm = f.mm ∧ x.dd = f.dd ∧ x.h = f.h ∧ x.m > f.m) ||
    decide (x.yy = f.yy ∧ x.mm = f.mm ∧ x.dd = f.dd ∧ x.h = f.h ∧ x.m = f.m ∧ x.s ≥ f.s)

/-- A year of two digits. -/
def fullYear (yy : Int) : Int := if yy < 80 then yy + 2000 else yy + 1900

/-- What stands behind the second `:` of an entry, if the filter lets it pass. -/
def shownText (filter buf : CStr) : List CStr :=
  match cutAt COLON buf with
  | none => []
  | some (_, pt) =>
      match cutAt COLON pt with
      | none => []
      | some (_, pt) => if filter.head? = some ANYTEXT ∨ (cutStr filter pt).isSome then [pt] else []

/-- `lngtxt(588)`: `"%d-%d-%d-%d-%d-%d:%s:"`, where `%s` takes a whole word. -/
def trafficFormat : List Directive :=
  [.int, .lit DASH, .int, .lit DASH, .int, .lit DASH, .int, .lit DASH, .int, .lit DASH, .int, .lit COLON, .str 8191,
    .lit COLON]

/-- The loop over the file for a range. -/
def rangeLoop (source filter : CStr) (from_ to_ : Stamp) : Nat → CStr → List CStr
  | 0, _ => []
  | _ + 1, [] => []
  | n + 1, b :: log =>
      let buf := (fgets 4200 (b :: log)).1
      let log' := (fgets 4200 (b :: log)).2
      match sscanf trafficFormat buf with
      | [.int xyy, .int xmm, .int xdd, .int xh, .int xm, .int xs, .str src2] =>
          let x : Stamp := ⟨fullYear xyy, xmm, xdd, xh, xm, xs⟩
          let src2 := ucase (match cutAt COLON src2 with
            | some (u, _) => u
            | none => src2)
          if x.beyond to_ then []
          else if x.reached from_ && strmncasecmp source src2 then
            shownText filter buf ++ rangeLoop source filter from_ to_ n log'
          else rangeLoop source filter from_ to_ n log'
      | _ => rangeLoop source filter from_ to_ n log'

/-- The loop for `last`. -/
def lastLoop : Nat → CStr → List CStr
  | 0, _ => []
  | _ + 1, [] => []
  | n + 1, b :: log => shownText [ANYTEXT] (fgets 4200 (b :: log)).1 ++ lastLoop n (fgets 4200 (b :: log)).2

/-- `lngtxt(585)`: `"%s %d-%d-%d %d:%d:%d %d-%d-%d %d:%d:%d :%s\n"`. -/
def queryFormat : List Directive :=
  [.str 8191, .space, .int, .lit DASH, .int, .lit DASH, .int, .space, .int, .lit COLON, .int, .lit COLON, .int, .space,
    .int, .lit DASH, .int, .lit DASH, .int, .space, .int, .lit COLON, .int, .lit COLON, .int, .space, .lit COLON,
    .str 8191, .space]

/-- What the handler uses of a user: `nick` is that of the parent, `file` the log when it can be opened. -/
structure TrafficUser where
  nick : CStr
  lastlog : Nat
  file : Option CStr

/-- The lines for the client, and `lastlog`. -/
structure Played where
  lines : List CStr
  lastlog : Nat
  deriving DecidableEq, Repr

def trafficMessage (to_ text : CStr) : CStr :=
  ascii ":-psyBNC!psyBNC@psyBNC.dk PRIVMSG " ++ to_ ++ ascii " :" ++ text ++ [CR, LF]

/-- `lngtxt(584)`. -/
def noFilter (nick : CStr) : CStr :=
  trafficMessage nick (ascii "No Filter defined. Use PLAYTRAFFICLOG source mm-dd-yy hh:mm:ss mm-dd-yy hh:mm:ss :text (or * for everything). You can also use PLAYTRAFFICLOG last to play.")

/-- `lngtxt(591)`. -/
def wrongSyntax (nick : CStr) : CStr :=
  trafficMessage nick (ascii "Wrong Syntax. Use PLAYTRAFFICLOG source mm-dd-yy hh:mm:ss mm-dd-yy hh:mm:ss :text (or * for everything)")

/-- A time in `lngtxt(587)`. -/
def stampShown (x : Stamp) : CStr :=
  decPad 4 x.yy ++ DASH :: (decPad 2 x.mm ++ DASH :: (decPad 2 x.dd ++ SP :: (decPad 2 x.h ++ COLON :: (decPad 2 x.m ++
    COLON :: decPad 2 x.s))))

/-- `lngtxt(587)`. -/
def startRange (source filter : CStr) (from_ to_ : Stamp) : CStr :=
  trafficMessage source (ascii "Starting playing log (" ++ source ++ ascii ", from " ++ stampShown from_ ++ ascii " to " ++
    stampShown to_ ++ ascii ", filter " ++ filter ++ ascii ")")

/-- The lines for a range, with `lngtxt(590)` at the end. -/
def playRange (source filter : CStr) (from_ to_ : Stamp) (log : CStr) : List CStr :=
  clip 4200 (startRange source filter from_ to_) ::
    (rangeLoop source filter from_ to_ log.length log ++
      [clip 8192 (trafficMessage source (ascii "End of log (" ++ filter ++ ascii ")"))])

/-- The lines for `last`, with `lngtxt(586)` and `lngtxt(589)`. -/
def playLast (log : CStr) : List CStr :=
  trafficMessage (ascii "*") (ascii "Starting playing log since last.") ::
    (lastLoop log.length log ++ [trafficMessage (ascii "*") (ascii "End of log.")])

/-- `playtrafficlog`. -/
def playtrafficlog (u : TrafficUser) (ircbuf irccontent : CStr) : Played :=
  let wrong : Played := ⟨[wrongSyntax u.nick], u.lastlog⟩
  if irccontent = [] then ⟨[noFilter u.nick], u.lastlog⟩
  else
    match cutAt SP ircbuf, u.file with
    | some (_, pt), some log =>
        if ascii "last" <+: irccontent then ⟨playLast (log.drop u.lastlog), max u.lastlog log.length⟩
        else
          match sscanf queryFormat pt with
          | [.str source, .int fmm, .int fdd, .int fyy, .int fh, .int fm, .int fs, .int tmm, .int tdd, .int tyy, .int th,
              .int tm, .int ts, .str filter] =>
              ⟨playRange (ucase source) filter ⟨fullYear fyy, fmm, fdd, fh, fm, fs⟩ ⟨fullYear tyy, tmm, tdd, th, tm, ts⟩
                log, u.lastlog⟩
          | _ => wrong
    | _, _ => wrong

end PsyBnc
