import PsyBnc.Lib.Scanf

/-!
# The configuration cache (`p_inifunc.c`)

The cache `conf` is a singly linked list of lines `file.section.param=data`.  It is modelled by the
list of its lines; a traversal with a current and a lagging pointer is a loop over two lists, the
nodes already passed (last one first) and the nodes from the current one on, so the lagging pointer
`xconf` is the head of the first list, or the current node itself while that list is empty.

A result `none` is a read or write through a NULL or dangling pointer.  The texts are those of
`lang/english.lng`.
-/

namespace PsyBnc

open CLib

/-- `struct stringarray *conf`, entry by entry. -/
abbrev Conf := List CStr

/-! ## Keys -/

/-- `lngtxt(371)`: `"%s.%s.%s="`. -/
def entryText (inidat sect param : CStr) : CStr :=
  inidat ++ DOT :: (sect ++ DOT :: (param ++ [EQUALS]))

/-- `lngtxt(372)`: `"%s.%s."`. -/
def sectionText (inidat sect : CStr) : CStr :=
  inidat ++ DOT :: (sect ++ [DOT])

/-- `lngtxt(373)`, `lngtxt(402)`, `lngtxt(878)`, …: the file name of a user. -/
def userFile (usern : Nat) : CStr := ascii "USER" ++ dec usern

/-! ## Reading and writing the file -/

/-- `fgets(buf, n, handle)` on the unread rest of the file: the bytes stored and the new rest. -/
def fgets (n : Nat) (file : CStr) : CStr × CStr :=
  match cutAt LF (file.take (n - 1)) with
  | some (u, _) => (u ++ [LF], file.drop (u.length + 1))
  | none => (file.take (n - 1), file.drop (n - 1))

/-- The loop of `readconfig`; every round consumes a byte, so the length of the file is fuel
enough. -/
def readLines : Nat → CStr → Conf
  | 0, _ => []
  | _ + 1, [] => []
  | k + 1, b :: bs =>
      let (inistring, rest) := fgets 400 (b :: bs)
      let entry :=
        match cutAt LF inistring with
        | some (u, _) => u
        | none => inistring
      entry :: readLines k rest

/-- `readconfig`: `file` is the content of the configuration file, `none` when it does not open.
With a cache already loaded the first line is appended to a node that `resetconfig` just freed. -/
def readconfig (conf : Conf) (file : Option CStr) : Option Conf :=
  match file with
  | none => some []
  | some text =>
      if conf = [] ∨ text = [] then some (readLines text.length text) else none

/-- `flushconfig`: the text written to the configuration file. -/
def flushconfig (conf : Conf) : CStr :=
  conf.flatMap fun entry => if 1 < entry.length then entry ++ [LF] else []

/-! ## Erasing a section -/

/-- The loop of `clearsectionconfig`.  When the head is erased the new head becomes the current
node without being looked at, and the loop moves on from it. -/
def clearLoop (pattern : CStr) : Conf → Conf → Option Conf
  | seen, [] => some seen.reverse
  | [], [entry] =>
      if pattern <+: entry then none else some [entry]
  | [], entry :: next :: rest =>
      if pattern <+: entry then clearLoop pattern [next] rest
      else clearLoop pattern [entry] (next :: rest)
  | x :: seen, entry :: rest =>
      if pattern <+: entry then clearLoop pattern (x :: seen) rest
      else clearLoop pattern (entry :: x :: seen) rest

def clearsectionconfig (pattern : CStr) (conf : Conf) : Option Conf :=
  clearLoop pattern [] conf

/-! ## Looking up and writing entries -/

/-- `getini`: the new content of `value[200]`, or `none` for the return value `-2`. -/
def getini (sect param inidat : CStr) (conf : Conf) : Option CStr :=
  let ppuf := clip 400 (entryText inidat sect param)
  conf.findSome? fun entry => (afterPrefix ppuf entry).map (clip 200)

/-- A new node after node number `k`. -/
def insertAfter (k : Nat) (entry : CStr) (conf : Conf) : Conf :=
  conf.take (k + 1) ++ entry :: conf.drop (k + 1)

/-- The loop of `writeini` and the code after it.  `buf` is the new line, or `none` when the entry
is to be deleted; `sectconf` is the number of the node saved as the last one of the section. -/
def writeLoop (ppuf spuf : CStr) (buf : Option CStr) :
    Conf → Conf → Option Nat → Option Conf
  | seen, [], sectconf =>
      match buf, sectconf with
      | none, _ => some seen.reverse
      | some line, none => if seen = [] then none else some (seen.reverse ++ [line])
      | some line, some k => some (insertAfter k line seen.reverse)
  | seen, entry :: rest, sectconf =>
      if spuf <+: entry then
        if ppuf <+: entry then
          match buf with
          | none => some (seen.reverse ++ rest)
          | some line => some (seen.reverse ++ line :: rest)
        else writeLoop ppuf spuf buf (entry :: seen) rest (some (seen.length - 1))
      else writeLoop ppuf spuf buf (entry :: seen) rest sectconf

/-- `data_p`: an empty text counts as no data. -/
def dataPtr (data : Option CStr) : Option CStr :=
  data.filter (fun d => decide (d ≠ []))

/-- The line that `writeini` stores. -/
def iniLine (sect param inidat data : CStr) : CStr :=
  clip 2048 (clip 200 (entryText inidat sect param) ++ data)

def writeini (sect param inidat : CStr) (data : Option CStr) (conf : Conf) : Option Conf :=
  let ppuf := clip 200 (entryText inidat sect param)
  let spuf := clip 200 (sectionText inidat sect)
  writeLoop ppuf spuf ((dataPtr data).map (iniLine sect param inidat)) [] conf none

/-! ## Allocating a slot -/

/-- The scan of `countconfentries`: the number of matching entries and the slots they mark in
`itemlist`.  A negative index would be written in front of the table. -/
def countLoop (fmt : List Directive) : Conf → Nat → List Nat → Option (Nat × List Nat)
  | [], cnt, itemlist => some (cnt, itemlist)
  | entry :: rest, cnt, itemlist =>
      match sscanf fmt entry with
      | [.int i, .str _] =>
          if i < 0 then none
          else if i < 256 then countLoop fmt rest (cnt + 1) (i.toNat :: itemlist)
          else countLoop fmt rest (cnt + 1) itemlist
      | _ => countLoop fmt rest cnt itemlist

/-- The first of the 256 slots that is not marked, or `0`. -/
def firstFree (itemlist : List Nat) : Nat :=
  ((List.range 256).find? fun i => decide (i ∉ itemlist)).getD 0

/-- `countconfentries`: its return value and the global `lastfree`. -/
def countconfentries (sect entry fname : CStr) (conf : Conf) : Option (Nat × Nat) :=
  let buf := clip 256 (fname ++ DOT :: (sect ++ DOT :: (entry ++ ascii "=%255s")))
  (countLoop (scanFormat buf) conf 0 []).map fun p => (p.1, firstFree p.2)

/-! ## Deleting a user -/

/-- The cache that `deluser` leaves and writes to the file. -/
def deluser (uind : Nat) (conf : Conf) : Option Conf :=
  clearsectionconfig (clip 60 (userFile uind ++ [DOT])) conf

end PsyBnc
