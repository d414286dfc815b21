import PsyBnc.Peer.Login

/-!
# Commands on accounts (`p_client.c`)

`ADDUSER`, `ADDNETWORK`, `DELNETWORK`, `SWITCHNET` and `DELUSER`, and what the first login does.  A
new record is written to the configuration, freed and loaded again.  The arguments of a command are
`ircto` and `irccontent`; `none` is an access out of bounds.
-/

namespace PsyBnc

open CLib Function

/-- `randstring(length)`, where `rand` gives the results of `rand()`. -/
def randstring (length : Nat) (rand : Nat → Nat) : CStr :=
  (List.range (min length 100)).map fun i => UInt8.ofNat (97 + rand i % 16)

namespace Users

/-! ## Records and the configuration -/

def writeuser (salt : Salt) (s : Users) (usern : Int) : Option Users :=
  (PsyBnc.writeuser salt usern.toNat (s.account usern).toUserRecord s.conf).map fun (u, conf) =>
    { s.fill usern u with conf := conf }

def clearuser (s : Users) (usern : Int) : Users := s.put (.node usern) blankAccount

/-- `writeuser`, `clearuser` and `loaduser`, as they follow a new record.  `rand` is for
`randstring(16)`. -/
def renew (salt : Salt) (rand : Nat → Nat) (s : Users) (usern : Int) : Option Users :=
  (s.writeuser salt usern).bind fun s =>
    (s.clearuser usern).loaduser salt (randstring 16 rand) usern.toNat

/-- `deluser` and `loaduser`. -/
def remove (salt : Salt) (rand : Nat → Nat) (s : Users) (usern : Int) : Option Users :=
  (deluser usern.toNat s.conf).bind fun conf =>
    { s with conf := conf }.loaduser salt (randstring 16 rand) usern.toNat

/-- The login that `user(uind)` shows when a missing node is added on the way. -/
def loginOf (s : Users) (uind : Int) : CStr :=
  if uind ∈ s.usernode then (s.user (.node uind)).login else []

/-- The scan for a number without a login, from 1 up to `count`. -/
def freeUid (s : Users) (count : Nat) : Option Int :=
  ((List.range count).map fun n : Nat => (n : Int) + 1).find? fun uind => s.loginOf uind = []

/-- `checkusernetwork`, for the name in `irccontent`. -/
def checkusernetwork (s : Users) (usern : Int) (irccontent : CStr) : Int :=
  if strmcmp (s.account usern).network (ascii "int") then 0
  else
    (s.usernode.find? fun uind =>
      (s.account uind).parent = usern ∧ strmcmp (s.account uind).network irccontent = true).getD 0

/-! ## The commands -/

/-- The password of a new account: the one of the first user, or a random one. -/
def newPass (s : Users) (usern : Int) (rand : Nat → Nat) : CStr :=
  if usern = 0 then clip 20 (s.account 0).pass else clip 20 (randstring 8 rand)

/-- What `cmdadduser` puts into a record. -/
def newUser (u : Account) (ircto irccontent pass : CStr) : Account :=
  { u with
    nick := clip 64 ircto
    login := clip 64 ircto
    user := clip 64 irccontent
    pass := pass
    rights := 0
    dccenabled := 1
    autorejoin := 1
    sysmsg := 1 }

/-- `cmdadduser`: its return value and the new state. -/
def cmdadduser (salt : Salt) (rand : Nat → Nat) (s : Users) (usern : Int)
    (ircto irccontent : CStr) : Option (Int × Users) :=
  if ircto = [] ∨ irccontent = [] ∨ s.checkuser ircto > 0 then some (-1, s)
  else
    match s.freeUid 100 with
    | none => some (-1, s)
    | some uind =>
        let u := newUser ((s.create uind).account uind) ircto irccontent (s.newPass usern rand)
        (((s.create uind).put (.node uind) u).renew salt rand uind).map fun s => (uind, s)

/-- What `cmdaddnetwork` puts into a record. -/
def newNetwork (u own : Account) (usern : Int) (irccontent : CStr) : Account :=
  { u with
    nick := own.nick
    login := own.login
    user := own.user
    pass := own.pass
    rights := own.rights
    parent := usern
    network := clip 10 irccontent }

/-- `cmdaddnetwork` -/
def cmdaddnetwork (salt : Salt) (rand : Nat → Nat) (s : Users) (usern : Int) (irccontent : CStr) :
    Option Users :=
  if (s.account usern).parent ≠ 0 ∨ irccontent = [] ∨ irccontent.length > 10 ∨
      s.checkusernetwork usern irccontent > 0 then some s
  else
    match s.freeUid 99 with
    | none => some s
    | some uind =>
        let u := newNetwork ((s.create uind).account uind) (s.account usern) usern irccontent
        ((s.create uind).put (.node uind) u).renew salt rand uind

/-- `cmddelnetwork` -/
def cmddelnetwork (salt : Salt) (rand : Nat → Nat) (s : Users) (usern : Int) (irccontent : CStr) :
    Option Users :=
  let uind := s.checkusernetwork usern irccontent
  if irccontent = [] ∨ uind = 0 then some s else s.remove salt rand uind

/-- The loop of `cmdswitchnet`: the two records change their nodes, which change their numbers, and
the other networks get the new parent. -/
def swapNodes (s : Users) (usern uind : Int) : Users where
  usernode := s.usernode.map (Equiv.swap usern uind)
  user k :=
    match k with
    | .node uid =>
        if uid ∈ s.usernode ∧ uid ≠ 0 ∧ uid ≠ usern ∧ uid ≠ uind ∧ (s.user k).parent = usern then
          { s.user k with parent := uind }
        else s.user k
    | _ => s.user k
  conf := s.conf

/-- The new main network and the old one. -/
def switchRecords (s : Users) (usern uind : Int) (ircto : CStr) : Users :=
  let s := s.put (s.slot uind) { s.account uind with network := [], parent := 0 }
  s.put (s.slot usern) { s.account usern with network := clip 10 ircto, parent := uind }

/-- The network that `SWITCHNET` makes the main one, unless it is refused. -/
def switchTarget (s : Users) (usern : Int) (ircto irccontent : CStr) : Option Int :=
  let uind := s.checkusernetwork usern irccontent
  if (s.account usern).parent ≠ 0 ∨ irccontent = [] ∨ ircto = [] ∨ uind = 0 ∨
      s.checkusernetwork usern ircto ≠ 0 then none
  else some uind

/-- `cmdswitchnet` -/
def cmdswitchnet (salt : Salt) (s : Users) (usern : Int) (ircto irccontent : CStr) :
    Option Users :=
  match s.switchTarget usern ircto irccontent with
  | none => some s
  | some uind =>
      (((s.swapNodes usern uind).switchRecords usern uind ircto).writeuser salt uind).bind fun s =>
        s.writeuser salt usern

/-- The loop of `cmddeluser` over the networks of the user. -/
def delNetworks (salt : Salt) (rand : Nat → Nat) (uind : Int) (s : Users) (uid : Int) :
    Option Users :=
  if (s.user (.node uid)).parent = uind ∧ uid > 1 ∧ uid ≠ uind then s.remove salt rand uid
  else some s

/-- The account that `DELUSER` deletes, unless it is refused. -/
def delTarget (s : Users) (irccontent : CStr) : Option Int :=
  let uind := s.checkuser irccontent
  if irccontent = [] ∨ uind = 0 ∨ uind = 1 then none else some uind

/-- `cmddeluser` -/
def cmddeluser (salt : Salt) (rand : Nat → Nat) (s : Users) (irccontent : CStr) : Option Users :=
  match s.delTarget irccontent with
  | none => some s
  | some uind =>
      (s.usernode.foldlM (delNetworks salt rand uind) s).bind fun s => s.remove salt rand uind

/-! ## The first login -/

/-- What `linkpeer` copies from a peer. -/
structure NewPeer where
  nick : CStr
  user : CStr
  login : CStr
  pass : CStr
  deriving DecidableEq, Repr

/-- `firstuser`: its return value and the new state. -/
def firstuser (salt : Salt) (rand : Nat → Nat) (s : Users) (peer : NewPeer) :
    Option (Int × Users) :=
  let nulluser := { s.user .nulluser with
    rights := RI_ADMIN
    nick := clip 64 peer.nick
    login := clip 64 peer.login
    pass := clip 20 peer.pass }
  ((s.put .nulluser nulluser).cmdadduser salt rand 0 (clip 800 peer.login)
      (clip 6000 peer.user)).bind fun (linkto, s) =>
    if linkto = -1 then some (-1, s)
    else
      let s :=
        if linkto = 1 then s.put (s.slot linkto) { s.account linkto with rights := RI_ADMIN } else s
      (s.writeuser salt linkto).map fun s => (linkto, s)

/-- The branch of `linkpeer` for the first user. -/
def firstLogin (salt : Salt) (rand : Nat → Nat) (s : Users) (peer : NewPeer) :
    Option (Int × Users) :=
  (s.firstuser salt rand peer).bind fun (rc, s) =>
    if rc = -1 then some (-1, s)
    else
      let s := s.put (s.slot rc)
        { s.account rc with nick := clip 64 peer.nick, user := clip 64 peer.user }
      (s.writeuser salt rc).map fun s =>
        (rc, (s.put .nulluser blankAccount).put .dummyuser blankAccount)

end Users

end PsyBnc
