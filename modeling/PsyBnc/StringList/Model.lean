import PsyBnc.Inifunc.Count
import PsyBnc.Inifunc.Store
import PsyBnc.Lib.Run

/-!
# The string lists of the users (`p_string.c`)

Operators, bans, log sources and the like are lists of texts `host;param`.  A list lives twice: as a
`struct stringarray` in memory and as the entries `ENTRY0`, `ENTRY1`, … of a section of the
configuration.  `writelist` and `eraselist` change both, `loadlist` makes the first of the second.
-/

namespace PsyBnc

open CLib

/-- The `;` between the two parts of an entry. -/
@[reducible] def SEMICOLON : Byte := 59

/-! ## Lists in memory -/

/-- `addstring`: the text goes into a new last node. -/
def addstring (toadd : CStr) (ltm : List CStr) : List CStr := ltm ++ [toadd]

/-- `removestring`: node number `entry` is unlinked, if there is one. -/
def removestring (entry : Int) (ltm : List CStr) : List CStr :=
  if 0 ≤ entry then ltm.eraseIdx entry.toNat else ltm

/-! ## Lists in the configuration -/

/-- `fname` and `section`: the parts of `afile` around its first dot, read from a copy in a buffer
of `size` bytes.  Without a dot the file is called `LISTS`. -/
def listName (size : Nat) (afile : CStr) : CStr × CStr :=
  match cutAt DOT (clip size afile) with
  | some (file, sect) => (clip 100 file, clip 100 sect)
  | none => (clip 100 (ascii "LISTS"), clip 100 afile)

/-- `lngtxt(819)`, `lngtxt(822)`, `lngtxt(826)`: `"ENTRY%d"`. -/
def listEntry (i : Nat) : CStr := clip 100 (ascii "ENTRY" ++ dec i)

/-- The body of the loop in `loadlist`. -/
def loadEntry (conf : Conf) (fname sect : CStr) (first : List CStr) (i : Nat) : List CStr :=
  match getini sect (listEntry i) fname conf with
  | some value => addstring value first
  | none => first

def loadlist (conf : Conf) (afile : CStr) (th : List CStr) : List CStr :=
  let (fname, sect) := listName 100 afile
  (List.range 100).foldl (loadEntry conf fname sect) th

/-- A list in memory, and the configuration. -/
structure StoredList where
  conf : Conf
  list : List CStr

/-- `writelist`: the entry goes to the first free number. -/
def writelist (host param afile : CStr) (s : StoredList) : Option StoredList :=
  let (fname, sect) := listName 2048 afile
  (countconfentries sect (clip 100 (ascii "ENTRY%d")) fname s.conf).bind fun (_, lastfree) =>
    let buf := clip 2048 (host ++ SEMICOLON :: param)
    (writeini sect (listEntry lastfree) fname (some buf) s.conf).map fun conf =>
      { conf := conf, list := addstring buf s.list }

/-- The reorganisation: the entries are written again, numbered from `cnt` on. -/
def rewriteEntries (fname sect : CStr) : List CStr → Nat → Conf → Option Conf
  | [], _, conf => some conf
  | entry :: rest, cnt, conf =>
      (writeini sect (listEntry cnt) fname (some entry) conf).bind
        (rewriteEntries fname sect rest (cnt + 1))

/-- `eraselist`: the whole section is cleared and written anew. -/
def eraselist (entryn : Int) (afile : CStr) (s : StoredList) : Option StoredList :=
  let (fname, sect) := listName 200 afile
  let first := removestring entryn s.list
  (clearsectionconfig (clip 200 (sectionText fname sect)) s.conf).bind fun conf =>
    (rewriteEntries fname sect first 0 conf).map fun conf' => { conf := conf', list := first }

/-! ## Calls -/

/-- The two texts of an entry that fits `value[200]` when it is read back. -/
structure ListText where
  host : CStr
  param : CStr
  short : (host ++ SEMICOLON :: param).length < 199

def ListText.text (x : ListText) : CStr := x.host ++ SEMICOLON :: x.param

/-- A change of a list. -/
inductive ListCall where
  | write (x : ListText)
  | erase (entryn : Int)

def listStep (afile : CStr) (s : StoredList) : ListCall → Option StoredList
  | .write x => writelist x.host x.param afile s
  | .erase entryn => eraselist entryn afile s

/-! ## Names -/

/-- The name `file.sect` of a list.  Neither part can be confused with another one in a key, or read
as a directive of a format. -/
structure ListName where
  file : CStr
  sect : CStr
  plain : Plain file ∧ Plain sect
  literal : ∀ b ∈ file ++ sect, isPlain b = true
  fits : file.length + sect.length < 99

namespace ListName

/-- `afile` -/
def text (f : ListName) : CStr := f.file ++ DOT :: f.sect

/-- `lngtxt(1006)`: the hosts that may connect. -/
def hostallows : ListName where
  file := ascii "PSYBNC"
  sect := ascii "HOSTALLOWS"
  plain := by decide
  literal := by decide +kernel
  fits := by decide

end ListName

/-- The name is taken apart in the same way everywhere. -/
theorem listName_text (f : ListName) {size : Nat} (hsize : 100 ≤ size) :
    listName size f.text = (f.file, f.sect) := by
  have hfits := f.fits
  have hlen : f.text.length < size := by
    simp only [ListName.text, List.length_append, List.length_cons]
    omega
  have hcut : cutAt DOT f.text = some (f.file, f.sect) := cutAt_append f.plain.1.2
  have hfile : f.file.length < 100 := by omega
  have hsect : f.sect.length < 100 := by omega
  simp only [listName, clip_eq_self hlen, hcut, clip_eq_self hfile, clip_eq_self hsect]

end PsyBnc
