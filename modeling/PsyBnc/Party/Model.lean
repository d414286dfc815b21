import PsyBnc.Parse.Model
import PsyBnc.StringList.Model

/-!
# The party line (`p_sysmsg.c`, `p_link.c`)

Messages to all users of the party line, and the list of those who are on it: a user of this bouncer
is kept as `$user`, a user of a linked one as `$user*bouncer`.  The list is not changed by calls of
its own but on the way, in the loops that deliver the messages that somebody has come, gone or been lost.

Outputs go to users; what is broadcast to the links is kept apart.  A list of strings is a Lean list, and
a loop over it holds the part that was passed, whose last node is `pre` (`NULL` when there is none).
-/

namespace PsyBnc

open CLib

@[reducible] def STAR : Byte := 42
@[reducible] def DOLLAR : Byte := 36
@[reducible] def PAREN : Byte := 41

def MAXUSER : Nat := 100

def PARTYCHAN : CStr := ascii "&partyline"

/-- What the party line uses of a user: `connected` is `instate==STD_CONN`. -/
structure PartyUser where
  uid : Nat
  login : CStr
  nick : CStr := []
  connected : Bool := true
  parent : Nat := 0
  sysmsg : Bool := true
  deriving DecidableEq, Repr

/-- The four globals and buffers that a line of the party line is made of. -/
structure PartyText where
  login : CStr
  command : CStr
  ircto : CStr
  content : CStr
  deriving DecidableEq, Repr

/-- What is written to a user. -/
inductive PartyLine where
  | message (line : CStr)
  | quit (line : CStr)
  | reply (line : CStr)
  deriving DecidableEq, Repr

/-! ## The list -/

/-- The first `@` of a name becomes a `*`. -/
def starred (xuser : CStr) : CStr :=
  match cutAt AT xuser with
  | none => xuser
  | some (u, v) => u ++ STAR :: v

/-- The loop of `partyremove`: the list without the node, when it is found. -/
def partyremoveLoop (buf : CStr) : List CStr → List CStr → Option (List CStr)
  | _, [] => none
  | pre, lkm :: next =>
      if strmcmp lkm buf then some (pre ++ next) else partyremoveLoop buf (pre ++ [lkm]) next

/-- `partyremove`: the list, and whether the user is new. -/
def partyremove (xuser : CStr) (partyusers : List CStr) : List CStr × Bool :=
  let buf := clip 200 (DOLLAR :: starred xuser)
  match partyremoveLoop buf [] partyusers with
  | some partyusers => (partyusers, false)
  | none => (partyusers, true)

def partyadd (xuser : CStr) (partyusers : List CStr) : List CStr × Bool :=
  let removed := partyremove xuser partyusers
  (addstring (clip 200 (DOLLAR :: starred xuser)) removed.1, removed.2)

/-- The test of a link loss: the first `eb` in the entry is its end. -/
def entryEnds (eb entry : CStr) : Bool :=
  match cutStr eb entry with
  | none => false
  | some (_, t) => t.isEmpty

/-- The loops of a link loss: the list that is kept, and the entries that were taken out. -/
def linklostLoop (eb : CStr) : List CStr → List CStr → List CStr × List CStr
  | pre, [] => (pre, [])
  | pre, lkm :: next =>
      if entryEnds eb lkm then
        let done := linklostLoop eb pre next
        (done.1, lkm :: done.2)
      else linklostLoop eb (pre ++ [lkm]) next

/-- `lngtxt(840)`, with the second `*` of the line made an `@`. -/
def linklostText (entry linkname : CStr) : CStr :=
  let buf := clip 200 (ascii ":" ++ entry ++ ascii "!" ++ entry.tail ++ ascii ". QUIT :link lost (" ++
    linkname ++ ascii ")" ++ [CR, LF])
  match cutAt STAR buf with
  | none => buf
  | some (u, v) =>
      match cutAt STAR v with
      | none => buf
      | some (v, w) => u ++ STAR :: (v ++ AT :: w)

/-- On the party line: connected, no network of a user, and `sysmsg` is on. -/
def PartyUser.joined (u : PartyUser) : Bool := u.connected && decide (u.parent = 0) && u.sysmsg

/-- `partylinklost`: the list, and what the users are told. -/
def partylinklost (me linkname : CStr) (users : List PartyUser) (partyusers : List CStr) :
    List CStr × List (Nat × PartyLine) :=
  if strmcmp me linkname then (partyusers, [])
  else
    let done := linklostLoop (clip 100 (STAR :: linkname)) [] partyusers
    (done.1, done.2.flatMap fun entry =>
      (users.filter PartyUser.joined).map fun u => (u.uid, .quit (linklostText entry linkname)))

/-! ## Messages from here -/

/-- The system's own login, `lngtxt(848)` and `lngtxt(536)`. -/
def systemLogin : CStr := ascii "psyBNC"

def loggedIn : CStr := ascii "logged in."

def loggedOff : CStr := ascii "logged off."

def lostLink : CStr := ascii "Lost Link ("

/-- What becomes of the list of the party line. -/
inductive PartyEdit where
  | add (xuser : CStr)
  | remove (xuser : CStr)
  deriving DecidableEq, Repr

def PartyEdit.apply : PartyEdit → List CStr → List CStr
  | add xuser, partyusers => (partyadd xuser partyusers).1
  | remove xuser, partyusers => (partyremove xuser partyusers).1

/-- "logged in." becomes a JOIN of the second word. -/
def loggedInText (t : PartyText) : PartyText × Option PartyEdit :=
  match cutAt SP (t.content.drop 5) with
  | none => ({ t with ircto := [], content := PARTYCHAN }, none)
  | some (w, _) =>
      (⟨clip 64 w, ascii "JOIN", [], PARTYCHAN⟩, some (.add (clip 4096 w)))

/-- "logged off." becomes a PART of the second word. -/
def loggedOffText (t : PartyText) : PartyText × Option PartyEdit :=
  match cutAt SP (t.content.drop 5) with
  | none => ({ t with content := loggedOff }, none)
  | some (w, _) =>
      ({ t with login := clip 64 w, command := ascii "PART", content := loggedOff },
        some (.remove (clip 4096 w)))

/-- The system's messages about users, one test after the other. -/
def systemText (t : PartyText) : PartyText × Option PartyEdit :=
  let a := if loggedIn <:+: t.content then loggedInText t else (t, none)
  if loggedOff <:+: a.1.content then
    let b := loggedOffText a.1
    (b.1, a.2.or b.2)
  else a

/-- `lngtxt(854)`. -/
def PartyText.line (me : CStr) (t : PartyText) : CStr :=
  ascii ":$" ++ t.login ++ ascii "!" ++ t.login ++ ascii "@" ++ me ++ ascii ". " ++ t.command ++
    ascii " " ++ t.ircto ++ ascii ":" ++ t.content

/-- `lngtxt(853)`. -/
def lostQuit (entry : CStr) : CStr :=
  ascii ":" ++ entry ++ ascii "!psyBNC@" ++ entry.tail ++ ascii ". QUIT :Lost Link" ++ [CR, LF]

/-- What the loop of `querybounce` changes: the list, whether it was changed, the two globals that a
round leaves behind, and what was written. -/
structure Bounce where
  partyusers : List CStr
  rr : Bool := false
  command : CStr
  content : CStr
  sent : List (Nat × PartyLine) := []
  deriving DecidableEq, Repr

/-- The round of a connected user without parent. -/
def partyRound (me login : CStr) (usern : Nat) (u : PartyUser) (s : Bounce) : Bounce :=
  let t : PartyText := ⟨login, s.command, clip 800 PARTYCHAN ++ ascii " ", s.content⟩
  let system := strmcmp login systemLogin
  let a := if system then systemText t else (t, none)
  let partyusers :=
    match a.2 with
    | none => s.partyusers
    | some edit => if s.rr then s.partyusers else edit.apply s.partyusers
  let lost :=
    if system && decide (lostLink <+: a.1.content) then
      let buf := clip 4096 (STAR :: a.1.content.drop 11)
      let eb := ((cutAt PAREN buf).map Prod.fst).getD buf
      linklostLoop eb [] partyusers
    else (partyusers, [])
  let quits := if u.sysmsg then lost.2.map fun entry => (u.uid, PartyLine.quit (lostQuit entry)) else []
  let said := if usern ≠ u.uid ∧ u.sysmsg = true then [(u.uid, PartyLine.message (a.1.line me))] else []
  { partyusers := lost.1
    rr := s.rr || a.2.isSome
    command := a.1.command
    content := clip 500 s.content
    sent := s.sent ++ quits ++ said }

/-- The record of a number; without one it is not connected. -/
def partyUser (users : List PartyUser) (rc : Nat) : Option PartyUser := users.find? fun u => u.uid == rc

/-- A round of the loop for a message to all. -/
def allRound (me login : CStr) (usern : Nat) (users : List PartyUser) (s : Bounce) (rc : Nat) : Bounce :=
  match partyUser users rc with
  | none => s
  | some u => if u.connected && decide (u.parent = 0) then partyRound me login usern u s else s

/-- `checkuser`: the number of the user with a login, or of its parent. -/
def partyCheckuser (users : List PartyUser) (nick : CStr) : Nat :=
  match users.find? fun u => decide (u.login = nick) with
  | none => 0
  | some u => if u.parent ≠ 0 then u.parent else u.uid

/-- The numbers that the loop for a message to all goes through from `rc` on. -/
def allNumbers (rc : Nat) : List Nat := if rc < MAXUSER then List.range' rc (MAXUSER - rc) else [rc]

/-- Texts 847 and 856. -/
def notOnBounce (nick po : CStr) : PartyLine :=
  .reply (ascii ":-psyBNC!psyBNC@psyBNC.dk PRIVMSG " ++ nick ++ ascii " :User " ++ po ++
    ascii " not on bounce")

/-- The loop of `querybounce`, at `rc`, the user called `po` or the first of all. -/
def bounceLoop (me login nick : CStr) (usern : Nat) (users : List PartyUser) (all : Bool) (po : CStr)
    (rc : Nat) (s : Bounce) : Bounce :=
  let missing := { s with sent := s.sent ++ [(usern, notOnBounce nick po)] }
  if all then
    let s := if rc = 0 then missing else s
    (allNumbers (if rc = 0 then 1 else rc)).foldl (allRound me login usern users) s
  else if rc = 0 then missing
  else
    match partyUser users rc with
    | none => missing
    | some u =>
        if u.connected then
          { s with sent := s.sent ++ [(rc, .message (ascii ":$" ++ login ++ ascii "!" ++ login ++
              ascii "@" ++ me ++ ascii " " ++ s.command ++ ascii " " ++ u.nick ++ ascii " :" ++ s.content))] }
        else missing

/-- `querybounce`: what it leaves behind, and what is broadcast to the links. -/
def querybounce (me login nick : CStr) (usern : Nat) (users : List PartyUser) (ircto : CStr) (s : Bounce) :
    Bounce × List CStr :=
  let po := ircto.tail
  let all := decide (po.head? = some DOLLAR)
  let party :=
    if all then [ascii ":" ++ login ++ ascii "!*@" ++ me ++ ascii " PARTY * :" ++ s.content ++ [CR, LF]]
    else []
  let rc := if all then 1 else partyCheckuser users po
  match if ircto.head? = some DOLLAR then cutAt STAR ircto else none with
  | none => (bounceLoop me login nick usern users all po rc s, party)
  | some (u, v) =>
      if strmcmp v me then
        (bounceLoop me login nick usern users all u.tail (partyCheckuser users u.tail) s, party)
      else
        (s, party ++ [ascii ":" ++ login ++ ascii "!*@" ++ me ++ ascii " QUERY " ++ u.tail ++ AT :: v ++
          ascii " :" ++ s.content ++ [CR, LF]])

/-- `sysparty`: the system says something to all. -/
def sysparty (me content : CStr) (users : List PartyUser) (partyusers : List CStr) : Bounce :=
  (querybounce me systemLogin (ascii "SYS") 0 users (ascii "$$")
    { partyusers := partyusers, command := ascii "PRIVMSG", content := clip 6000 content }).1

/-! ## Messages from a link -/

/-- What the loop for a PARTY line changes: the sender's name, the text, the list, whether it was
changed, and what was written. -/
structure Linked where
  ircnick : CStr
  content : CStr
  partyusers : List CStr
  rr : Bool := false
  sent : List (Nat × PartyLine) := []
  deriving DecidableEq, Repr

/-- The word behind the first `User `. -/
def userWord (content : CStr) : Option CStr :=
  (cutStr (ascii "User ") content).map fun p => ((cutAt SP p.2).map Prod.fst).getD p.2

/-- The parsed line while a round works on it, and what becomes of the list. -/
structure LinkText where
  ircnick : CStr
  command : CStr
  ircto : CStr
  content : CStr
  edit : Option PartyEdit := none
  deriving DecidableEq, Repr

/-- What the system of another bouncer says about its users, one test after the other. -/
def linkText (irchost : CStr) (t : LinkText) : LinkText :=
  let t :=
    match if loggedIn <:+: t.content then userWord t.content else none with
    | none => t
    | some w => ⟨clip 64 w, ascii "JOIN", [], PARTYCHAN, some (.add (clip 600 (w ++ AT :: irchost)))⟩
  match if loggedOff <:+: t.content then userWord t.content else none with
  | none => t
  | some w =>
      { t with
        ircnick := clip 64 w
        command := ascii "PART"
        content := ascii "logged off"
        edit := t.edit.or (some (.remove (clip 600 (w ++ AT :: irchost)))) }

/-- `lngtxt(547)`. -/
def LinkText.line (irchost : CStr) (t : LinkText) : CStr :=
  clip 600 (ascii ":$" ++ t.ircnick ++ STAR :: irchost ++ ascii "!" ++ t.ircnick ++ AT :: irchost ++
    ascii ". " ++ t.command ++ ascii " " ++ t.ircto ++ ascii ":" ++ t.content)

/-- A round of the loop for a PARTY line; `none` when the line was the news of a link and the loop is
left.  `lost` are the servers that `removetopology` finds lost. -/
def linkRound (me irchost : CStr) (users : List PartyUser) (lost : CStr → List CStr) (s : Linked)
    (u : PartyUser) : Except Linked Linked :=
  if !(u.joined || decide (u.uid = 1)) then .ok s
  else
    let sic := clip 500 s.content
    let t : LinkText := ⟨s.ircnick, ascii "PRIVMSG", clip 800 PARTYCHAN ++ ascii " ", s.content, none⟩
    let system := decide (s.ircnick.length = 6) && decide (systemLogin <+: s.ircnick)
    let t := if system then linkText irchost t else t
    let partyusers :=
      match t.edit with
      | none => s.partyusers
      | some edit => if s.rr then s.partyusers else edit.apply s.partyusers
    let s := { s with ircnick := t.ircnick, partyusers := partyusers, rr := s.rr || t.edit.isSome }
    if system && decide (ascii "Linked to " <+: t.content) then .error { s with content := t.content }
    else
      let s :=
        if system && decide (lostLink <+: t.content) then
          let name := t.content.drop 11
          let servers := lost (((cutAt PAREN name).map Prod.fst).getD name)
          servers.foldl (fun s server =>
            let done := partylinklost me server users s.partyusers
            { s with partyusers := done.1, sent := s.sent ++ done.2 }) s
        else s
      let said := if u.joined then [(u.uid, PartyLine.message (t.line irchost))] else []
      .ok { s with content := sic, sent := s.sent ++ said }

/-- The branch of `processlink` for a PARTY line. -/
def processParty (me irchost : CStr) (users : List PartyUser) (lost : CStr → List CStr) (s : Linked) :
    Linked :=
  match users.foldlM (linkRound me irchost users lost) s with
  | .ok s => s
  | .error s => s

end PsyBnc
