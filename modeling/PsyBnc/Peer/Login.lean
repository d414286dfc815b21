import PsyBnc.Userfile.User
import PsyBnc.Memory.Model
import PsyBnc.PString
import Mathlib.Logic.Function.Basic

/-!
# Logins (`p_peer.c`, `p_userfile.c`, `p_client.c`)

What `linkpeer` does for a peer that has sent a nick, a login and a password, behind the branch for
the first user: it finds the account, compares the hash of the password and keeps the accounts'
counters of wrong passwords.  `PASSWORD` and the reload of a user change the same records.  Every
record is taken to be allocated: `user` allocates a blank one where it finds a NULL pointer.
-/

namespace PsyBnc

open CLib Function

/-- The part of `struct usert` that a login reads or writes.  `penalty` is an `int`.  The times fit
`time_t`, which leaves room for the addition in the `unsigned long` of `pentime`. -/
structure Account extends UserRecord where
  penalty : Int
  pentime : Nat
  deriving DecidableEq, Repr

/-- The memory that `user` hands out: the record of a node, or one of the two shared records. -/
inductive Slot where
  | nulluser
  | dummyuser
  | node (uid : Int)
  deriving DecidableEq, Repr

/-- The numbers of the nodes in `usernode`, the records, and the cache of the configuration. -/
structure Users where
  usernode : List Int
  user : Slot → Account
  conf : Conf

def RI_ADMIN : Int := 1

/-- A record that `pmalloc` has just allocated. -/
def blankAccount : Account where
  nick := []
  login := []
  user := []
  pass := []
  vhost := []
  proxy := []
  away := []
  leavemsg := []
  awaynick := []
  network := []
  rights := 0
  vlink := 0
  pport := 0
  parent := 0
  quitted := 0
  dccenabled := 0
  autogetdcc := 0
  antiidle := 0
  leavequit := 0
  autorejoin := 0
  sysmsg := 0
  lastlog := 0
  penalty := 0
  pentime := 0

namespace Users

/-- The record behind `user(usern)`. -/
def slot (s : Users) (usern : Int) : Slot :=
  let usern := UserMem.plainUid usern
  if usern = 0 ∨ MAX_USER < usern then .nulluser
  else if usern ∈ s.usernode then .node usern
  else .dummyuser

/-- `user(usern)` -/
def account (s : Users) (usern : Int) : Account := s.user (s.slot usern)

/-- A record is overwritten. -/
def put (s : Users) (k : Slot) (u : Account) : Users := { s with user := update s.user k u }

/-! ## Finding the account -/

/-- The loop of `checkuser`. -/
def checkuserLoop (s : Users) (nick : CStr) : List Int → Int
  | [] => 0
  | uind :: th =>
      if (s.account uind).login.length = nick.length ∧ nick <:+: (s.account uind).login then
        if (s.account uind).parent ≠ 0 then (s.account uind).parent else uind
      else s.checkuserLoop nick th

def checkuser (s : Users) (nick : CStr) : Int := s.checkuserLoop nick s.usernode

end Users

/-! ## Logging in -/

/-- The end of `linkpeer`. -/
inductive Verdict where
  | unknown
  | wrong
  | locked
  | accepted
  deriving DecidableEq, Repr

/-- What `linkpeer` reads of the peer, `time(NULL)` and `rand()`. -/
structure Attempt where
  login : CStr
  pass : CStr
  time : Nat
  rand : Nat
  deriving DecidableEq, Repr

/-- `newpeer(npeer)->pass` after the password was hashed. -/
def offeredPass (salt : Salt) (pass : CStr) : Option CStr := (hashOf salt pass).map (clip 20)

/-- `penalty++`, which goes on with the smallest `int` after the largest one. -/
def incPenalty (penalty : Int) : Int := (penalty + 1).bmod (2 ^ 32)

/-- `linkpeer`; `none` is an access out of bounds. -/
def Users.linkpeer (salt : Salt) (s : Users) (a : Attempt) : Option (Verdict × Users) :=
  let rc := s.checkuser a.login
  if rc = 0 then some (.unknown, s)
  else
    (offeredPass salt a.pass).map fun pass =>
      let u := s.account rc
      if strmcmp pass u.pass = false then
        (.wrong, s.put (s.slot rc) { u with penalty := incPenalty u.penalty, pentime := a.time })
      else if u.penalty > 2 ∧ u.pentime + 600 + a.rand % 120 > a.time then (.locked, s)
      else (.accepted, s.put (s.slot rc) { u with penalty := 0, pentime := 0 })

namespace Users

/-! ## Changing a password -/

/-- The number whose password `PASSWORD` changes, unless it is refused. -/
def passwordTarget (s : Users) (usern : Int) (ircto irccontent : CStr) : Option Int :=
  if irccontent = [] then none
  else
    let uind := if ircto = [] then usern else s.checkuser ircto
    if ircto ≠ [] ∧ uind = 0 then none
    else if uind ≠ usern ∧ (s.account usern).rights ≠ RI_ADMIN then none
    else some uind

/-- The nodes whose password is changed with that of `uind`. -/
def passwordNodes (s : Users) (uind : Int) : List Int :=
  s.usernode.filter fun uid => uid ≠ 0 ∧ (uid = uind ∨ (s.user (.node uid)).parent = uind)

/-- The loop of `cmdpassword` for one node. -/
def setPass (pass : CStr) (s : Users) (uid : Int) : Option Users :=
  let u := { s.account uid with pass := pass, pentime := 0, penalty := 0 }
  (writeini (ascii "USER") (ascii "PASS") (clip 20 (userFile uid.toNat)) (some pass) s.conf).map
    fun conf => { s.put (s.slot uid) u with conf := conf }

/-- `cmdpassword` -/
def cmdpassword (salt : Salt) (s : Users) (usern : Int) (ircto irccontent : CStr) : Option Users :=
  match s.passwordTarget usern ircto irccontent with
  | none => some s
  | some uind =>
      (hashOf salt irccontent).bind fun hash =>
        (s.passwordNodes uind).foldlM (setPass (clip 20 hash)) s

/-! ## Loading -/

/-- `U_CREATE` and `user`: a node is added for a number without one. -/
def create (s : Users) (usern : Int) : Users :=
  if usern = 0 ∨ MAX_USER < usern ∨ usern ∈ s.usernode then s
  else { s.put (.node usern) blankAccount with usernode := s.usernode ++ [usern] }

/-- The record of a node is overwritten by what was loaded; its counter stays as it is. -/
def fill (s : Users) (usern : Int) (u : UserRecord) : Users :=
  s.put (s.slot usern) { s.account usern with toUserRecord := u }

/-- `loaduser`: the record of a user who is not in the configuration is freed, any other one is
overwritten. -/
def loaduser (salt : Salt) (randstring : CStr) (s : Users) (usernum : Nat) : Option Users :=
  (PsyBnc.loaduser salt randstring usernum s.conf).map fun
    | none => s.put (.node usernum) blankAccount
    | some (u, conf) => { (s.create usernum).fill usernum u with conf := conf }

/-! ## Events -/

/-- What changes the counters. -/
inductive Event where
  | linkpeer (a : Attempt)
  | password (usern : Int) (ircto irccontent : CStr)
  | loaduser (usernum : Nat) (randstring : CStr)
  deriving DecidableEq, Repr

def step (salt : Salt) (s : Users) : Event → Option Users
  | .linkpeer a => (s.linkpeer salt a).map Prod.snd
  | .password usern ircto irccontent => s.cmdpassword salt usern ircto irccontent
  | .loaduser usernum randstring => s.loaduser salt randstring usernum

end Users

end PsyBnc
