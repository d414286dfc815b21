import PsyBnc.Lib.Run

/-!
# The records of the users (`p_memory.c`)

`user(n)` finds the record of user `n` in the list `usernode`.  It keeps the last answer in `_lastu`
for the number in `_lastuser`, and adds a node when `U_CREATE` is set.  Records are modelled by the
numbers in which they were allocated, so that a record that was freed can be told from every other
one; what is stored in them is not modelled here.
-/

namespace PsyBnc

open CLib

/-- A `struct usert *`. -/
inductive UserPtr where
  | null
  | dummyuser
  | nulluser
  | alloc (r : Nat)
  deriving DecidableEq, Repr

/-- `struct usernodes`; the record is `none` for a NULL pointer. -/
structure UserNode where
  uid : Int
  user : Option Nat
  deriving DecidableEq, Repr

def MAX_USER : Int := 100

/-- The globals of `user`.  `thisuser` is the position of the node in the list. -/
structure UserMem where
  usernode : List UserNode
  lastuser : Int
  lastu : UserPtr
  create : Bool
  thisuser : Option Nat
  fresh : Nat
  freed : List Nat
  deriving DecidableEq, Repr

namespace UserMem

/-- After the start: the root of the list, and nothing looked up yet. -/
def start : UserMem where
  usernode := [{ uid := 0, user := none }]
  lastuser := -1
  lastu := .null
  create := false
  thisuser := none
  fresh := 0
  freed := []

/-! ## Looking up -/

/-- `if(usern>10000) usern-=10000`. -/
def plainUid (usern : Int) : Int := if 10000 < usern then usern - 10000 else usern

/-- The position of the first node with the number. -/
def nodeIdx (s : UserMem) (usern : Int) : Option Nat :=
  s.usernode.findIdx? fun th => decide (th.uid = usern)

/-- The record of a node. -/
def record (s : UserMem) (k : Nat) : Option Nat := (s.usernode[k]?).bind UserNode.user

/-- `thisuser=th; _lastu=th->user; return th->user`. -/
def found (s : UserMem) (k r : Nat) : UserPtr × UserMem :=
  (.alloc r, { s with thisuser := some k, lastu := .alloc r })

/-- The scan of `user`, behind the check of the cache. -/
def scanuser (mem : UserMem) (usern : Int) : UserPtr × UserMem :=
  let s := { mem with
    lastuser := usern
    usernode := if mem.usernode = [] then [{ uid := 0, user := none }] else mem.usernode }
  if usern = 0 ∨ MAX_USER < usern then
    (.nulluser, { s with thisuser := none, lastu := .nulluser })
  else
    match s.nodeIdx usern with
    | some k =>
        match s.record k with
        | some r => s.found k r
        | none =>
            found { s with
              usernode := s.usernode.modify k fun th => { th with user := some s.fresh }
              fresh := s.fresh + 1 } k s.fresh
    | none =>
        if s.create then
          found { s with
            create := false
            usernode := s.usernode ++ [{ uid := usern, user := some s.fresh }]
            fresh := s.fresh + 1 } s.usernode.length s.fresh
        else (.dummyuser, { s with thisuser := none, lastu := .dummyuser })

/-- `user` -/
def user (s : UserMem) (n : Int) : UserPtr × UserMem :=
  let usern := plainUid n
  if usern = s.lastuser ∧ s.create = false then (s.lastu, s) else s.scanuser usern

/-! ## Freeing -/

/-- The garbage collection at the end of `clearuser`. -/
def collect (s : UserMem) : UserMem :=
  match s.thisuser with
  | none => s
  | some k =>
      match s.record k with
      | none => { s with thisuser := none }
      | some r =>
          { s with
            usernode := s.usernode.modify k fun th => { th with user := none }
            freed := r :: s.freed
            thisuser := none }

/-- `clearuser`.  Its calls of `user` are all for the same number, and only the first one can change
anything (`clearuser_calls`). -/
def clearuser (s : UserMem) (n : Int) : UserMem :=
  (user { s with lastuser := -1 } n).2.collect

/-- `loaduser`; `known` tells whether the configuration has the login of the user. -/
def loaduser (s : UserMem) (n : Int) (known : Bool) : UserMem :=
  if known then (user { s with create := true } n).2 else (s.user n).2.clearuser n

/-! ## Calls -/

/-- `request` is `U_CREATE=1`. -/
inductive Call where
  | request
  | user (n : Int)
  | clearuser (n : Int)
  | loaduser (n : Int) (known : Bool)
  deriving DecidableEq, Repr

def step (s : UserMem) : Call → UserMem
  | .request => { s with create := true }
  | .user n => (s.user n).2
  | .clearuser n => s.clearuser n
  | .loaduser n known => s.loaduser n known

/-- The lookups that a call makes, each with the state it is made in. -/
def lookups (s : UserMem) : Call → List (UserMem × Int)
  | .request => []
  | .user n => [(s, n)]
  | .clearuser n => [({ s with lastuser := -1 }, n)]
  | .loaduser n true => [({ s with create := true }, n)]
  | .loaduser n false => [(s, n), ({ (s.user n).2 with lastuser := -1 }, n)]

/-- The calls that set `U_CREATE`. -/
def requests : Call → Bool
  | .request => true
  | .user _ => false
  | .clearuser _ => false
  | .loaduser _ known => known

/-! ## What is expected of a lookup -/

/-- The answer is that of the scan without a cache, and no freed record. -/
def Right (s : UserMem) (n : Int) : Prop :=
  (s.user n).1 = (s.scanuser (plainUid n)).1 ∧ (s.user n).1 ≠ .null ∧
    ∀ r ∈ (s.user n).2.freed, (s.user n).1 ≠ .alloc r

/-- The node of the number is there, and its record was cleared. -/
def Cleared (s : UserMem) (usern : Int) : Prop :=
  usern ≠ 0 ∧ usern ≤ MAX_USER ∧ ∃ k, s.nodeIdx usern = some k ∧ s.record k = none

/-- The lookup is not for the mark of the empty cache, and it is not answered from the cache for a
user whose record was cleared. -/
def Fit (s : UserMem) (n : Int) : Prop :=
  n ≠ -1 ∧ ¬ (plainUid n = s.lastuser ∧ s.create = false ∧ Cleared s (plainUid n))

end UserMem

end PsyBnc
