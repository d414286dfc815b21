import PsyBnc.Dcc.Model
import PsyBnc.Lib.Chain
import PsyBnc.Lib.Run

/-!
# Requests that nobody answers

`checkdcctimeouts` counts the delays of the requests down.  A request whose delay is over is taken out
of the list that the loop is walking over, its socket is killed, and it is freed.  The destructor of the
socket, which `removepdcc` takes away before it kills one, looks for an entry with the number of the socket.
-/

namespace PsyBnc

open CLib

/-- Requests that wait for an answer. -/
def DccType.isRequest : DccType → Bool
  | .sendToRq | .recvFromRq | .chatToRq | .chatFromRq => true
  | _ => false

/-- An entry with its socket, its script and whether its file is open. -/
structure DccEntry extends Dcct where
  sock : Int := 0
  pid : Int := 0
  fhandle : Bool := false
  deriving DecidableEq

/-- `pdcc->delay--`. -/
def DccEntry.decrement (pdcc : DccEntry) : DccEntry := { pdcc with delay := pdcc.delay - 1 }

/-- The destructors that look for an entry of a user; any other one leaves the entries alone. -/
inductive Closer where
  | pdccclosed
  | pdccfileclosed
  | pdccfclosed
  | other
  deriving DecidableEq, Repr

/-- A socket with its destructor and the user the destructor is called for. -/
structure DccSocket where
  syssock : Int
  listener : Bool := false
  destructor : Option (Closer × Nat) := none
  deriving DecidableEq, Repr

structure Subtask where
  pid : Int
  fdin : Int
  fdout : Int
  fderr : Int
  deriving DecidableEq, Repr

/-- A node of a user, and the pointer `pdcc` of its record. -/
structure DccUser where
  uid : Nat
  user : Option (Option Nat)
  deriving DecidableEq, Repr

def DccUser.pdcc (un : DccUser) : Option Nat := un.user.join

/-- The entries of all users in the memory.  `freed` is not of the program: it notes the records as they
were when they were freed. -/
structure DccMemory where
  cells : Cells DccEntry
  usernode : List DccUser
  sockets : List DccSocket
  subtasks : List Subtask := []
  freed : List (Nat × DccEntry) := []
  deriving DecidableEq

namespace DccMemory

/-- The node of a user; there is none for the number 0. -/
def nodeOf (m : DccMemory) (usern : Nat) : Option Nat :=
  if usern = 0 then none else m.usernode.findIdx? fun un => un.uid == usern

def pdccOf (m : DccMemory) (usern : Nat) : Option Nat :=
  ((m.nodeOf usern).bind fun i => m.usernode[i]?).bind DccUser.pdcc

/-- An assignment to `pdcc` of the record at a node. -/
def setPdcc (m : DccMemory) (i : Nat) (pdcc : Option Nat) : DccMemory :=
  { m with usernode := m.usernode.modify i fun un => { un with user := un.user.map fun _ => pdcc } }

def store (m : DccMemory) (a : Nat) (cell : Option (DccEntry × Option Nat)) : DccMemory :=
  { m with cells := m.cells.set a cell }

/-- `free`, of an entry. -/
def free (m : DccMemory) (a : Nat) (pdcc : DccEntry) : DccMemory :=
  { m with cells := m.cells.set a none, freed := m.freed ++ [(a, pdcc)] }

/-- What is behind `prev`, or at the head of the list of the node `i`, is `next` from now on. -/
def relink (m : DccMemory) (i : Nat) (prev next : Option Nat) : Option DccMemory :=
  match prev with
  | none => some (m.setPdcc i next)
  | some b => (m.cells.cellAt b).map fun cell => m.store b (some (cell.1, next))

/-- `killsocket` for a socket whose destructor was called or taken away. -/
def close (m : DccMemory) (syssock : Int) : DccMemory :=
  match m.sockets.find? fun s => s.syssock == syssock with
  | none => m
  | some s =>
      if s.listener then m
      else { m with sockets := m.sockets.eraseP fun s => s.syssock == syssock }

/-- `terminatetask`, when there is such a task: its sockets are killed without their destructors. -/
def terminatetask (m : DccMemory) (pid : Int) : DccMemory :=
  if pid = 0 then m
  else
    match m.subtasks.find? fun st => st.pid == pid with
    | none => m
    | some st =>
        if pid < 0 then m
        else
          (({ m with subtasks := m.subtasks.eraseP fun st => st.pid == pid }.close st.fdin).close
            st.fdout).close st.fderr

/-- `getpsocketpdcc`, with the predecessor; `none` when a freed entry is met. -/
def getpsocketpdcc (m : DccMemory) (usern : Nat) (syssock : Int) : Option (Option Nat × Option Nat) :=
  m.cells.walk (fun pdcc => pdcc.sock == syssock) m.cells.length (m.pdccOf usern) none

/-- `removepdcc`, called with the socket `syssock` as `currentsocket`. -/
def removepdcc (m : DccMemory) (usern : Nat) (syssock : Int) : Option DccMemory :=
  match m.getpsocketpdcc usern syssock with
  | none => none
  | some (none, _) => some m
  | some (some a, epdcc) =>
      match m.cells.cellAt a, m.nodeOf usern with
      | some (pdcc, next), some i =>
          (m.relink i epdcc next).map fun m =>
            let m :=
              if 0 < pdcc.sock ∧ (m.sockets.any fun s => s.syssock == pdcc.sock) then
                (m.terminatetask pdcc.pid).close pdcc.sock
              else m
            m.free a pdcc
      | _, _ => none

/-- A destructor.  `pdccfileclosed` closes the file of the entry whether it is open or not. -/
def runCloser (m : DccMemory) (closer : Closer) (usern : Nat) (syssock : Int) : Option DccMemory :=
  match closer with
  | .other => some m
  | .pdccclosed | .pdccfclosed => m.removepdcc usern syssock
  | .pdccfileclosed =>
      match m.getpsocketpdcc usern syssock with
      | none => none
      | some (none, _) => some m
      | some (some a, _) =>
          match m.cells.cellAt a with
          | none => none
          | some (pdcc, _) => if pdcc.fhandle then m.removepdcc usern syssock else none

/-- `killsocket` for sockets that are in no group. -/
def killsocket (m : DccMemory) (syssock : Int) : Option DccMemory :=
  match m.sockets.find? fun s => s.syssock == syssock with
  | none => some m
  | some s =>
      if s.listener then some m
      else
        match s.destructor with
        | none => some (m.close syssock)
        | some (closer, param) =>
            (m.runCloser closer param syssock).map fun m => m.close syssock

/-- A request whose delay is over is taken out of the list of the node `i`, and its script ended. -/
def unlink (m : DccMemory) (i : Nat) (pdcc : DccEntry) (epdcc prevdcc : Option Nat) : Option DccMemory :=
  (m.relink i prevdcc epdcc).map fun m => m.terminatetask pdcc.pid

/-- Then its socket is killed, and it is freed. -/
def expireEntry (m : DccMemory) (i a : Nat) (pdcc : DccEntry) (epdcc prevdcc : Option Nat) :
    Option DccMemory :=
  (m.unlink i pdcc epdcc prevdcc).bind fun m =>
    (m.killsocket pdcc.sock).map fun m => m.free a pdcc

/-- The inner loop of `checkdcctimeouts`; every round moves on. -/
def timeoutLoop (i : Nat) : Nat → Option Nat → Option Nat → DccMemory → Option DccMemory
  | _, none, _, m => some m
  | 0, some _, _, _ => none
  | fuel + 1, some a, prevdcc, m =>
      match m.cells.cellAt a with
      | none => none
      | some (pdcc, epdcc) =>
          if pdcc.type.isRequest = true ∧ 0 < pdcc.delay then
            let pdcc := pdcc.decrement
            let m := m.store a (some (pdcc, epdcc))
            if pdcc.delay = 0 then
              -- the entry is gone: what comes next has the same predecessor
              (m.expireEntry i a pdcc epdcc prevdcc).bind (timeoutLoop i fuel epdcc prevdcc)
            else timeoutLoop i fuel epdcc (some a) m
          else timeoutLoop i fuel epdcc (some a) m

def checkUser (m : DccMemory) (i : Nat) : Option DccMemory :=
  timeoutLoop i m.cells.length ((m.usernode[i]?).bind DccUser.pdcc) none m

def checkdcctimeouts (m : DccMemory) : Option DccMemory :=
  (List.range m.usernode.length).foldlM checkUser m

/-! ## What the destructors find -/

/-- The entry that is found by the destructor of a socket when the socket is killed. -/
def victim (m : DccMemory) (syssock : Int) : Option Nat :=
  (m.sockets.find? fun s => s.syssock == syssock).bind fun s =>
    if s.listener then none
    else s.destructor.bind fun d =>
      if d.1 = .other then none else (m.getpsocketpdcc d.2 syssock).bind Prod.fst

/-- Whenever the inner loop ends a request, the destructor of its socket finds no entry. -/
def spares (i : Nat) : Nat → Option Nat → Option Nat → DccMemory → Bool
  | _, none, _, _ => true
  | 0, some _, _, _ => true
  | fuel + 1, some a, prevdcc, m =>
      match m.cells.cellAt a with
      | none => true
      | some (pdcc, epdcc) =>
          if pdcc.type.isRequest = true ∧ 0 < pdcc.delay then
            let pdcc := pdcc.decrement
            let m := m.store a (some (pdcc, epdcc))
            if pdcc.delay = 0 then
              ((m.unlink i pdcc epdcc prevdcc).all fun m => m.victim pdcc.sock == none) &&
                (m.expireEntry i a pdcc epdcc prevdcc).all (spares i fuel epdcc prevdcc)
            else spares i fuel epdcc (some a) m
          else spares i fuel epdcc (some a) m

/-- The same for the list of a node. -/
def SparesUser (m : DccMemory) (i : Nat) : Prop :=
  spares i m.cells.length ((m.usernode[i]?).bind DccUser.pdcc) none m = true

instance SparesUser.decidable (m : DccMemory) (i : Nat) : Decidable (m.SparesUser i) :=
  inferInstanceAs (Decidable (_ = true))

end DccMemory

/-! ## What the call does to a list -/

/-- A request one tick later; it is gone when its delay is over. -/
def DccEntry.tick (pdcc : DccEntry) : Option DccEntry :=
  if pdcc.type.isRequest = true ∧ 0 < pdcc.delay then
    if pdcc.delay = 1 then none else some pdcc.decrement
  else some pdcc

def tickAll (l : List (Nat × DccEntry)) : List (Nat × DccEntry) :=
  l.filterMap fun y => y.2.tick.map (Prod.mk y.1)

/-- The entries that are to be freed, as they are then. -/
def endedAll (l : List (Nat × DccEntry)) : List (Nat × DccEntry) :=
  (l.filter fun y => y.2.tick.isNone).map fun y => (y.1, y.2.decrement)

/-- The memory holds the lists: the pointer of every user leads over its entries, and no entry is in two
places. -/
structure Chained (m : DccMemory) (lists : List (List (Nat × DccEntry))) : Prop where
  length : lists.length = m.usernode.length
  chain : ∀ (i : Nat) (un : DccUser) (l : List (Nat × DccEntry)), m.usernode[i]? = some un →
    lists[i]? = some l → m.cells.Seg un.pdcc l none
  nodup : (lists.flatten.map Prod.fst).Nodup

/-- The users and their entries, as the program keeps them. -/
structure DccStore where
  memory : DccMemory
  lists : List (List (Nat × DccEntry))
  chained : Chained memory lists

/-- A call ends, counts the requests of every user down, frees those whose delay is over by that and no
other, and keeps the other entries as and where they were. -/
def DccStore.Expires (s : DccStore) : Prop :=
  ∃ s' : DccStore, s.memory.checkdcctimeouts = some s'.memory ∧
    s'.lists = s.lists.map (fun l => l.filterMap fun y => y.2.tick.map (Prod.mk y.1)) ∧
    s'.memory.freed = s.memory.freed ++ endedAll s.lists.flatten

/-- Whenever a call ends a request, the destructor of its socket finds no entry with its number. -/
def DccStore.Spares (s : DccStore) : Prop :=
  StepsMeet DccMemory.checkUser DccMemory.SparesUser s.memory (List.range s.memory.usernode.length)

instance DccStore.Spares.decidable (s : DccStore) : Decidable s.Spares :=
  inferInstanceAs (Decidable (StepsMeet _ _ _ _))

/-- Only the list `l` of the node `i` is worked on. -/
structure Touches (m m' : DccMemory) (i : Nat) (l : List (Nat × DccEntry)) : Prop where
  length : m'.usernode.length = m.usernode.length
  others : ∀ j, j ≠ i → m'.usernode[j]? = m.usernode[j]?
  cells : ∀ b, b ∉ l.map Prod.fst → m'.cells.cellAt b = m.cells.cellAt b

section Lists

variable {m m' : DccMemory} {lists : List (List (Nat × DccEntry))} {i a : Nat}
  {l l' l₁ l₂ : List (Nat × DccEntry)} {x y : DccEntry} {next : Option Nat}

theorem flatten_set_sublist {α : Type} {ls : List (List α)} {l l' : List α} (h : ls[i]? = some l)
    {β : Type} (f : α → β) (hsub : (l'.map f).Sublist (l.map f)) :
    ((ls.set i l').flatten.map f).Sublist (ls.flatten.map f) := by
  induction ls generalizing i with
  | nil =>
      cases h
  | cons k ls ih =>
      cases i with
      | zero =>
          cases Option.some.inj h
          simp only [List.set_cons_zero, List.flatten_cons, List.map_append]
          exact hsub.append (List.Sublist.refl _)
      | succ i =>
          simp only [List.set_cons_succ, List.flatten_cons, List.map_append]
          exact (List.Sublist.refl _).append (ih h)

theorem flatten_set_perm {α : Type} {ls : List (List α)} {l₁ l₂ : List α} {z : α}
    (h : ls[i]? = some (l₁ ++ z :: l₂)) :
    ls.flatten.Perm (z :: (ls.set i (l₁ ++ l₂)).flatten) := by
  induction ls generalizing i with
  | nil =>
      cases h
  | cons k ls ih =>
      cases i with
      | zero =>
          cases Option.some.inj h
          simp only [List.set_cons_zero, List.flatten_cons]
          exact List.perm_middle.append_right _
      | succ i =>
          simp only [List.set_cons_succ, List.flatten_cons]
          exact ((ih h).append_left k).trans List.perm_middle

theorem Chained.node (h : Chained m lists) (hl : lists[i]? = some l) :
    ∃ un, m.usernode[i]? = some un ∧ m.cells.Seg un.pdcc l none := by
  have hi : i < m.usernode.length := by
    rw [← h.length]
    exact (List.getElem?_eq_some_iff.1 hl).1
  exact ⟨_, List.getElem?_eq_getElem hi, h.chain i _ l (List.getElem?_eq_getElem hi) hl⟩

theorem Chained.nodup_at (h : Chained m lists) (hl : lists[i]? = some l) : (l.map Prod.fst).Nodup := by
  have hall := h.nodup
  rw [List.map_flatten, List.nodup_flatten] at hall
  exact hall.1 _ (List.mem_map_of_mem (List.mem_of_getElem? hl))

/-- Entries of one list are not in another. -/
theorem Chained.apart (h : Chained m lists) (hl : lists[i]? = some l) {j : Nat}
    (hl' : lists[j]? = some l') (hij : i ≠ j) {b : Nat} (hb : b ∈ l.map Prod.fst) :
    b ∉ l'.map Prod.fst := by
  have hall := h.nodup
  rw [List.map_flatten, List.nodup_flatten, List.pairwise_map, List.pairwise_iff_getElem] at hall
  rcases List.getElem?_eq_some_iff.1 hl with ⟨hi, rfl⟩
  rcases List.getElem?_eq_some_iff.1 hl' with ⟨hj, rfl⟩
  intro hb'
  rcases Nat.lt_or_gt_of_ne hij with hlt | hlt
  · exact hall.2 i j hi hj hlt hb hb'
  · exact hall.2 j i hj hi hlt hb' hb

/-- One list changes, and keeps or loses entries. -/
theorem Chained.change (h : Chained m lists) (hl : lists[i]? = some l) (t : Touches m m' i l)
    (hfst : (l'.map Prod.fst).Sublist (l.map Prod.fst))
    (hseg : ∀ un, m'.usernode[i]? = some un → m'.cells.Seg un.pdcc l' none) :
    Chained m' (lists.set i l') where
  length := by
    rw [List.length_set, h.length, t.length]
  chain := by
    intro j un k hun hk
    by_cases hj : j = i
    · subst hj
      rw [List.getElem?_set_self (List.getElem?_eq_some_iff.1 hl).1] at hk
      exact Option.some.inj hk ▸ hseg un hun
    · rw [List.getElem?_set_ne (Ne.symm hj)] at hk
      rw [t.others j hj] at hun
      apply (h.chain j un k hun hk).frame
      intro b hb
      exact t.cells b (h.apart hk hl hj hb)
  nodup := h.nodup.sublist (flatten_set_sublist hl Prod.fst hfst)

theorem Chained.sockets (h : Chained m lists) (hcells : m'.cells = m.cells)
    (hnode : m'.usernode = m.usernode) : Chained m' lists where
  length := by rw [hnode, h.length]
  chain := by
    intro i un l hun hl
    rw [hnode] at hun
    rw [hcells]
    exact h.chain i un l hun hl
  nodup := h.nodup

/-- A cell that is in no list is freed. -/
theorem Chained.free (h : Chained m lists) (ha : a ∉ lists.flatten.map Prod.fst) (pdcc : DccEntry) :
    Chained (m.free a pdcc) lists where
  length := h.length
  chain := by
    intro i un l hun hl
    apply (h.chain i un l hun hl).set_of_notMem
    intro hmem
    apply ha
    rcases List.mem_map.1 hmem with ⟨y, hy, rfl⟩
    exact List.mem_map_of_mem (List.mem_flatten_of_mem (List.mem_of_getElem? hl) hy)
  nodup := h.nodup

/-- An entry is changed in its place. -/
theorem Chained.update (h : Chained m lists) (hl : lists[i]? = some (l₁ ++ (a, x) :: l₂))
    (hcell : m.cells.cellAt a = some (x, next)) (y : DccEntry) :
    Chained (m.store a (some (y, next))) (lists.set i (l₁ ++ (a, y) :: l₂)) := by
  have ht : Touches m (m.store a (some (y, next))) i (l₁ ++ (a, x) :: l₂) := by
    refine ⟨rfl, fun _ _ => rfl, fun b hb => ?_⟩
    apply Cells.cellAt_set_ne
    rintro rfl
    apply hb
    simp
  apply h.change hl ht
  · simp
  · intro un hun
    exact (h.chain i un _ hun hl).update (h.nodup_at hl) hcell y

/-- The pointer of another node is not changed. -/
theorem setPdcc_usernode (m : DccMemory) (i : Nat) (p : Option Nat) (j : Nat) :
    (m.setPdcc i p).usernode[j]? =
      if i = j then (m.usernode[j]?).map fun un => { un with user := un.user.map fun _ => p }
      else m.usernode[j]? := by
  rw [DccMemory.setPdcc, List.getElem?_modify]
  split
  · rfl
  · exact Option.map_id'

/-- An entry is taken out of its list. -/
theorem Chained.relink (h : Chained m lists) (hl : lists[i]? = some (l₁ ++ (a, x) :: l₂))
    (hcell : m.cells.cellAt a = some (x, next)) :
    ∃ m', m.relink i (Cells.lastOf none l₁) next = some m' ∧ Chained m' (lists.set i (l₁ ++ l₂)) ∧
      m'.sockets = m.sockets ∧ m'.freed = m.freed := by
  rcases h.node hl with ⟨un, hun, hseg⟩
  have hnodup := h.nodup_at hl
  have hsub : (l₁ ++ l₂).Sublist (l₁ ++ (a, x) :: l₂) :=
    (List.Sublist.refl l₁).append (List.sublist_cons_self _ _)
  rcases List.eq_nil_or_concat l₁ with rfl | ⟨l₀, ⟨b, y⟩, rfl⟩
  · -- the first entry: the pointer of the user moves on
    rcases hseg with ⟨hp, next', hcell', hrest⟩
    cases Option.some.inj (hcell.symm.trans hcell')
    refine ⟨_, rfl, h.change hl ⟨?_, ?_, fun _ _ => rfl⟩ (hsub.map _) ?_, rfl, rfl⟩
    · exact List.length_modify _ _ _
    · intro j hj
      rw [setPdcc_usernode, if_neg (Ne.symm hj)]
    · intro un' hun'
      rw [setPdcc_usernode, if_pos rfl, hun] at hun'
      have huser : ∃ p, un.user = some p := by
        cases huser : un.user with
        | none =>
            rw [DccUser.pdcc, huser] at hp
            cases hp
        | some p =>
            exact ⟨p, rfl⟩
      rcases huser with ⟨p, huser⟩
      have hhead : (un.user.map fun _ => next).join = next := by rw [huser, Option.map_some, Option.join_some]
      cases hun'
      change m.cells.Seg (un.user.map fun _ => next).join l₂ none
      rw [hhead]
      exact hrest
  · rw [List.concat_eq_append] at *
    rw [List.append_assoc, List.singleton_append] at hl hseg hnodup
    rcases hseg.cell with ⟨nextb, _, hcellb, _⟩
    have hlast : Cells.lastOf none (l₀ ++ [(b, y)]) = some b := Cells.lastOf_concat none l₀ (b, y)
    refine ⟨m.store b (some (y, next)), ?_, ?_, rfl, rfl⟩
    · rw [hlast, DccMemory.relink, hcellb]
      rfl
    · rw [List.append_assoc, List.singleton_append]
      have ht : Touches m (m.store b (some (y, next))) i (l₀ ++ (b, y) :: (a, x) :: l₂) := by
        refine ⟨rfl, fun _ _ => rfl, fun c hc => ?_⟩
        apply Cells.cellAt_set_ne
        rintro rfl
        apply hc
        simp
      have hsub' : (l₀ ++ (b, y) :: l₂).Sublist (l₀ ++ (b, y) :: (a, x) :: l₂) :=
        (List.Sublist.refl l₀).append ((List.sublist_cons_self _ _).cons_cons _)
      apply h.change hl ht (hsub'.map _)
      intro un' hun'
      cases Option.some.inj (hun.symm.trans hun')
      exact hseg.relink hnodup hcell

end Lists

end PsyBnc
