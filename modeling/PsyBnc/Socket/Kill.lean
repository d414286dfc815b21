import PsyBnc.Lib.Chain

/-!
# Killing sockets

`killsocket` takes a socket out of the chained list of all sockets.  Whether the socket is the first one
is asked before its destructor runs, which may kill and create other sockets; the predecessor is left
behind by the last lookup.
-/

namespace PsyBnc

open CLib

/-- What `killsocket` looks at: the number, whether it is a static listener, the group, and whether a
destructor is set. -/
structure Listed where
  syssock : Int
  listener : Bool := false
  sockgroup : Nat := 0
  destructor : Bool := false
  deriving DecidableEq, Repr

/-- The list of sockets in the memory, with the pointer `previous` that lookups leave behind. -/
structure Sockets where
  cells : Cells Listed
  socketnode : Option Nat
  previous : Option Nat := none
  notsocket : Int := 0
  deriving DecidableEq

/-- Why there is no state afterwards: a freed node was used, or the program has ended. -/
inductive Stop where
  | freed
  | exit
  deriving DecidableEq, Repr

namespace Sockets

def getpsocketbysock (m : Sockets) (syssock : Int) : Except Stop (Option Nat × Sockets) :=
  match m.cells.walk (fun sock => sock.syssock == syssock) m.cells.length m.socketnode m.socketnode with
  | none => .error .freed
  | some (th, previous) => .ok (th, { m with previous := previous })

/-- Another socket of the group is looked for. -/
def getpsocketbygroup (m : Sockets) (sock : Listed) : Except Stop Bool :=
  match m.cells.walk (fun other => other.sockgroup == sock.sockgroup && other.syssock != sock.syssock &&
      other.syssock != m.notsocket) m.cells.length m.socketnode none with
  | none => .error .freed
  | some (lkm, _) => .ok (decide (0 < sock.sockgroup) && lkm.isSome)

/-- The node at the end of `createsocket`: nothing is created for a number that is there. -/
def createsocket (m : Sockets) (sock : Listed) : Except Stop Sockets :=
  match m.getpsocketbysock sock.syssock with
  | .error stop => .error stop
  | .ok (some _, m) => .ok m
  | .ok (none, m) =>
      match m.cells.walk (fun _ => false) m.cells.length m.socketnode none with
      | some (_, some lkm) =>
          match m.cells.cellAt lkm with
          | none => .error .freed
          | some (last, _) =>
              .ok { m with
                cells := m.cells.set lkm (some (last, some m.cells.length)) ++ [some (sock, none)] }
      | some (_, none) => .error .exit
      | none => .error .freed

/-- The destructor and the error handler are taken away. -/
def disarm (m : Sockets) (lkm : Nat) : Sockets :=
  match m.cells.cellAt lkm with
  | none => m
  | some (sock, next) =>
      { m with cells := m.cells.set lkm (some ({ sock with destructor := false }, next)) }

/-- The end of `killsocket`: `flushsendq` looks the socket up once more, which does not change the list,
then the node is taken out and freed. -/
def unlink (m : Sockets) (first : Bool) (lkm : Nat) (syssock : Int) : Except Stop Sockets :=
  match m.getpsocketbysock syssock with
  | .error stop => .error stop
  | .ok (_, m) =>
      match m.cells.cellAt lkm with
      | none => .error .freed
      | some (_, next) =>
          if first then .ok { m with cells := m.cells.set lkm none, socketnode := next }
          else
            match m.previous.bind fun previous => (m.cells.cellAt previous).map (Prod.mk previous) with
            | none => .error .freed
            | some (previous, sock, _) =>
                .ok { m with cells := (m.cells.set previous (some (sock, next))).set lkm none }

/-- `killsocket`, when the destructor behaves like `behave`.  A socket of a group is remapped instead,
which does not touch the list. -/
def killsocket (behave : Sockets → Except Stop Sockets) (m : Sockets) (syssock : Int) :
    Except Stop Sockets :=
  match m.getpsocketbysock syssock with
  | .error stop => .error stop
  | .ok (none, m) => .ok m
  | .ok (some lkm, m) =>
      match m.cells.cellAt lkm with
      | none => .error .freed
      | some (sock, _) =>
          let first := decide (m.socketnode = some lkm)
          if sock.listener then .ok m
          else
            match m.getpsocketbygroup sock with
            | .error stop => .error stop
            | .ok ingroup =>
                if !ingroup && sock.destructor then
                  match behave (m.disarm lkm) with
                  | .error stop => .error stop
                  | .ok m =>
                      match m.getpsocketbysock syssock with
                      | .error stop => .error stop
                      | .ok (none, m) => .ok m
                      | .ok (some lkm, m) => m.unlink first lkm syssock
                else m.unlink first lkm syssock

end Sockets

/-- What a destructor does: it kills sockets, whose destructors do something as well, creates some and
looks for some. -/
inductive Script where
  | done
  | kill (syssock : Int) (inner rest : Script)
  | create (sock : Listed) (rest : Script)
  | look (syssock : Int) (rest : Script)
  deriving DecidableEq

def Script.run : Script → Sockets → Except Stop Sockets
  | done, m => .ok m
  | kill syssock inner rest, m =>
      match m.killsocket inner.run syssock with
      | .error stop => .error stop
      | .ok m => rest.run m
  | create sock rest, m =>
      match m.createsocket sock with
      | .error stop => .error stop
      | .ok m => rest.run m
  | look syssock rest, m =>
      match m.getpsocketbysock syssock with
      | .error stop => .error stop
      | .ok (_, m) => rest.run m

/-! ## Lists of sockets -/

/-- A list of sockets with the addresses of their nodes, of which `fresh` is the next one. -/
structure SockList where
  nodes : List (Nat × Listed)
  fresh : Nat
  notsocket : Int := 0
  deriving DecidableEq

namespace SockList

def find (l : SockList) (syssock : Int) : Option (Nat × Listed) :=
  l.nodes.find? fun y => y.2.syssock == syssock

def ingroup (l : SockList) (sock : Listed) : Bool :=
  decide (0 < sock.sockgroup) && l.nodes.any fun y =>
    y.2.sockgroup == sock.sockgroup && y.2.syssock != sock.syssock && y.2.syssock != l.notsocket

def disarm (l : SockList) (a : Nat) : SockList :=
  { l with nodes := l.nodes.map fun y => if y.1 = a then (y.1, { y.2 with destructor := false }) else y }

def without (l : SockList) (a : Nat) : SockList := { l with nodes := l.nodes.filter fun y => y.1 != a }

/-- A socket comes to the end of a list; nothing is done without any socket. -/
def create (l : SockList) (sock : Listed) : Option SockList :=
  if (l.find sock.syssock).isSome then some l
  else if l.nodes = [] then none
  else some { l with nodes := l.nodes ++ [(l.fresh, sock)], fresh := l.fresh + 1 }

/-- What killing a socket is to do to the list: its destructor does something to it, and then this one
socket is gone. -/
def kill (behave : SockList → Option SockList) (l : SockList) (syssock : Int) : Option SockList :=
  match l.find syssock with
  | none => some l
  | some (a, sock) =>
      if sock.listener then some l
      else if !l.ingroup sock && sock.destructor then (behave (l.disarm a)).map fun l' => l'.without a
      else some (l.without a)

/-- The node is the first one. -/
def first (l : SockList) (a : Nat) : Prop := (l.nodes.head?).map Prod.fst = some a

instance first.decidable (l : SockList) (a : Nat) : Decidable (l.first a) :=
  inferInstanceAs (Decidable (_ = _))

end SockList

/-- What a destructor is to do to the list. -/
def Script.on : Script → SockList → Option SockList
  | done, l => some l
  | kill syssock inner rest, l => (l.kill inner.on syssock).bind rest.on
  | create sock rest, l => (l.create sock).bind rest.on
  | look _ rest, l => rest.on l

/-- The nodes in the memory are those of the list. -/
structure Rep (m : Sockets) (l : SockList) : Prop where
  chain : m.cells.Seg m.socketnode l.nodes none
  addresses : (l.nodes.map Prod.fst).Nodup
  numbers : (l.nodes.map fun y => y.2.syssock).Nodup
  bound : ∀ a ∈ l.nodes.map Prod.fst, a < m.cells.length
  fresh : l.fresh = m.cells.length
  notsocket : l.notsocket = m.notsocket

/-- What happens in the memory is what is to happen to the list. -/
def Refines (r : Except Stop Sockets) : Option SockList → Prop
  | some l => ∃ m, r = .ok m ∧ Rep m l
  | none => r = .error .exit

/-! ## One operation -/

section Operations

variable {m m' : Sockets} {l : SockList} {a : Nat} {x : Listed} {t : Int}

theorem Rep.of_previous (h : Rep m l) (previous : Option Nat) :
    Rep { m with previous := previous } l :=
  ⟨h.chain, h.addresses, h.numbers, h.bound, h.fresh, h.notsocket⟩

theorem Rep.length_le (h : Rep m l) : l.nodes.length ≤ m.cells.length :=
  h.chain.length_le h.addresses

/-- The node of a number, and those in front of it. -/
theorem find_split (h : l.find t = some (a, x)) :
    ∃ pre post, l.nodes = pre ++ (a, x) :: post ∧ x.syssock = t ∧
      ∀ y ∈ pre, (y.2.syssock == t) = false := by
  rw [SockList.find, List.find?_eq_some_iff_append] at h
  rcases h with ⟨hx, pre, post, hnodes, hpre⟩
  refine ⟨pre, post, hnodes, by simpa using hx, fun y hy => ?_⟩
  simpa using hpre y hy

theorem find_none (h : l.find t = none) : ∀ y ∈ l.nodes, (y.2.syssock == t) = false := by
  intro y hy
  simpa using List.find?_eq_none.1 h y hy

/-- A lookup finds the node, and leaves its predecessor behind. -/
theorem Rep.look (h : Rep m l) (t : Int) :
    ∃ previous, m.getpsocketbysock t = .ok ((l.find t).map Prod.fst, { m with previous := previous }) ∧
      ∀ a x, l.find t = some (a, x) → ∃ pre post, l.nodes = pre ++ (a, x) :: post ∧
        previous = Cells.lastOf m.socketnode pre := by
  have hlength := h.length_le
  rw [Sockets.getpsocketbysock]
  cases hfind : l.find t with
  | none =>
      rw [Cells.walk_none h.chain (find_none hfind) hlength]
      exact ⟨_, rfl, fun a x hno => by cases hno⟩
  | some y =>
      rcases y with ⟨a, x⟩
      rcases find_split hfind with ⟨pre, post, hnodes, hx, hpre⟩
      have hchain := h.chain
      rw [hnodes] at hchain hlength
      have hfuel : pre.length < m.cells.length := by
        rw [List.length_append, List.length_cons] at hlength
        omega
      have hx' : (x.syssock == t) = true := by
        rw [hx]
        exact beq_self_eq_true t
      rw [Cells.walk_found (t := fun sock : Listed => sock.syssock == t) hchain hpre hx' hfuel]
      refine ⟨_, rfl, fun a' x' hsame => ?_⟩
      cases hsame
      exact ⟨pre, post, hnodes, rfl⟩

theorem find_mem (h : l.find t = some (a, x)) : (a, x) ∈ l.nodes := List.mem_of_find?_eq_some h

/-- The cell of a node. -/
theorem Rep.cell (h : Rep m l) (hmem : (a, x) ∈ l.nodes) : ∃ next, m.cells.cellAt a = some (x, next) := by
  rcases List.append_of_mem hmem with ⟨pre, post, hnodes⟩
  have hchain := h.chain
  rw [hnodes] at hchain
  rcases hchain.cell with ⟨next, _, hcell, _⟩
  exact ⟨next, hcell⟩

/-- The first pointer leads to the first node. -/
theorem Rep.head (h : Rep m l) (a : Nat) : m.socketnode = some a ↔ l.first a := by
  have hchain := h.chain
  rw [SockList.first]
  cases hnodes : l.nodes with
  | nil =>
      rw [hnodes] at hchain
      have hnone : m.socketnode = none := hchain
      rw [hnone]
      rfl
  | cons y rest =>
      rw [hnodes] at hchain
      rw [hchain.1]
      rfl

theorem Rep.group (h : Rep m l) (sock : Listed) :
    m.getpsocketbygroup sock = .ok (l.ingroup sock) := by
  rw [Sockets.getpsocketbygroup, SockList.ingroup, h.notsocket]
  have hlength := h.length_le
  by_cases hany : l.nodes.any (fun y => y.2.sockgroup == sock.sockgroup &&
      y.2.syssock != sock.syssock && y.2.syssock != m.notsocket) = true
  · rcases List.any_eq_true.1 hany with ⟨y, hy, htest⟩
    rcases hfind : l.nodes.find? (fun y => y.2.sockgroup == sock.sockgroup &&
      y.2.syssock != sock.syssock && y.2.syssock != m.notsocket) with _ | ⟨a, x⟩
    · exact absurd htest (List.find?_eq_none.1 hfind y hy)
    rcases List.find?_eq_some_iff_append.1 hfind with ⟨hx, pre, post, hnodes, hpre⟩
    have hchain := h.chain
    rw [hnodes] at hchain hlength
    have hfuel : pre.length < m.cells.length := by
      rw [List.length_append, List.length_cons] at hlength
      omega
    rw [hany, Cells.walk_found (t := fun other : Listed => other.sockgroup == sock.sockgroup &&
      other.syssock != sock.syssock && other.syssock != m.notsocket) hchain
      (fun y hy => by rw [← Bool.not_eq_true']; exact hpre y hy) hx hfuel]
    rfl
  · have hno : ∀ y ∈ l.nodes, (y.2.sockgroup == sock.sockgroup && y.2.syssock != sock.syssock &&
        y.2.syssock != m.notsocket) = false := by
      intro y hy
      rw [Bool.eq_false_iff]
      exact fun htest => hany (List.any_eq_true.2 ⟨y, hy, htest⟩)
    rw [Bool.eq_false_iff.2 hany, Cells.walk_none (t := fun other : Listed =>
      other.sockgroup == sock.sockgroup && other.syssock != sock.syssock &&
        other.syssock != m.notsocket) h.chain hno hlength]
    rfl

/-- A node is one of the list when its address stands there once. -/
theorem without_split {pre post : List (Nat × Listed)} (hnodes : l.nodes = pre ++ (a, x) :: post)
    (haddresses : (l.nodes.map Prod.fst).Nodup) : (l.without a).nodes = pre ++ post := by
  rw [hnodes, List.map_append, List.map_cons, List.nodup_middle, List.nodup_cons,
    List.mem_append] at haddresses
  have hkeep : ∀ part : List (Nat × Listed), a ∉ part.map Prod.fst →
      part.filter (fun y => y.1 != a) = part := by
    intro part hpart
    apply List.filter_eq_self.2
    intro y hy
    rw [bne_iff_ne]
    rintro rfl
    exact hpart (List.mem_map_of_mem hy)
  rw [SockList.without]
  simp only
  rw [hnodes, List.filter_append, List.filter_cons_of_neg (by simp),
    hkeep pre fun hmem => haddresses.1 (Or.inl hmem),
    hkeep post fun hmem => haddresses.1 (Or.inr hmem)]

theorem first_split {pre post : List (Nat × Listed)} (hnodes : l.nodes = pre ++ (a, x) :: post)
    (haddresses : (l.nodes.map Prod.fst).Nodup) : l.first a ↔ pre = [] := by
  rw [SockList.first, hnodes]
  cases pre with
  | nil => simp
  | cons y pre =>
      rw [hnodes, List.cons_append, List.map_cons, List.nodup_cons] at haddresses
      have hya : y.1 ≠ a := by
        rintro rfl
        exact haddresses.1 (by simp)
      simp [hya]

/-- The rest of a list after one node has been freed. -/
theorem Rep.rest (h : Rep m l) {cells : Cells Listed} {socketnode previous : Option Nat}
    (hchain : cells.Seg socketnode (l.without a).nodes none) (hlength : cells.length = m.cells.length) :
    Rep { m with cells := cells, socketnode := socketnode, previous := previous } (l.without a) := by
  have hsub : (l.without a).nodes.Sublist l.nodes := List.filter_sublist
  refine ⟨hchain, h.addresses.sublist (hsub.map _), h.numbers.sublist (hsub.map _), ?_, ?_, h.notsocket⟩
  · intro b hb
    simp only
    rw [hlength]
    exact h.bound b ((hsub.map _).subset hb)
  · exact h.fresh.trans hlength.symm

/-- The socket is taken out of the list when it is known whether it is the first one. -/
theorem Rep.unlink (h : Rep m l) (hfind : l.find t = some (a, x)) {first : Bool}
    (hfirst : first = true ↔ l.first a) :
    ∃ m', m.unlink first a t = .ok m' ∧ Rep m' (l.without a) := by
  rcases h.look t with ⟨previous, hlook, hprevious⟩
  rcases hprevious a x hfind with ⟨pre, post, hnodes, hlast⟩
  rcases h.cell (find_mem hfind) with ⟨next, hcell⟩
  have hwithout := without_split hnodes h.addresses
  have haddresses := h.addresses
  have hchain := h.chain
  rw [Sockets.unlink, hlook]
  simp only [hcell]
  rw [first_split hnodes haddresses] at hfirst
  rcases List.eq_nil_or_concat pre with rfl | ⟨front, ⟨b, y⟩, hconcat⟩
  · rw [hfirst.2 rfl, if_pos rfl]
    refine ⟨_, rfl, h.rest ?_ (by rw [List.length_set])⟩
    rw [hnodes, List.nil_append] at hchain haddresses
    rw [hwithout, List.nil_append]
    exact hchain.unlink_head haddresses hcell
  · rw [List.concat_eq_append] at hconcat
    subst hconcat
    have hnot : first = false := by
      rw [Bool.eq_false_iff]
      intro htrue
      simpa using hfirst.1 htrue
    have hprev : previous = some b := by
      rw [hlast, Cells.lastOf]
      simp
    rw [hnodes, List.append_assoc, List.singleton_append] at hchain haddresses
    rcases hchain.cell with ⟨nextb, _, hcellb, _⟩
    rw [hnot, hprev]
    simp only [Bool.false_eq_true, if_false, Option.bind_some, hcellb, Option.map_some]
    refine ⟨_, rfl, h.rest ?_ (by rw [List.length_set, List.length_set])⟩
    rw [hwithout, List.append_assoc, List.singleton_append]
    exact hchain.unlink haddresses hcell

/-- Whatever the flag says, the node is freed, and without it the first pointer stays. -/
theorem unlink_frees (h : Rep m l) (hfind : l.find t = some (a, x)) {first : Bool}
    (hunlink : m.unlink first a t = .ok m') :
    m'.cells.cellAt a = none ∧ (first = false → m'.socketnode = m.socketnode) := by
  rcases h.look t with ⟨previous, hlook, _⟩
  rcases h.cell (find_mem hfind) with ⟨next, hcell⟩
  rw [Sockets.unlink, hlook] at hunlink
  simp only [hcell] at hunlink
  split at hunlink
  · next hfirst =>
    cases hunlink
    refine ⟨Cells.cellAt_set_self hcell, fun hno => ?_⟩
    rw [hfirst] at hno
    cases hno
  · split at hunlink
    · cases hunlink
    · next b sock nextb hprevious =>
      cases hunlink
      refine ⟨?_, fun _ => rfl⟩
      by_cases hab : b = a
      · subst hab
        exact Cells.cellAt_set_self (Cells.cellAt_set_self hcell)
      · exact Cells.cellAt_set_self ((Cells.cellAt_set_ne _ _ hab).trans hcell)

/-- The destructor of a node is taken away. -/
theorem Rep.disarm (h : Rep m l) (hfind : l.find t = some (a, x)) : Rep (m.disarm a) (l.disarm a) := by
  rcases find_split hfind with ⟨pre, post, hnodes, _, _⟩
  rcases h.cell (find_mem hfind) with ⟨next, hcell⟩
  have haddresses := h.addresses
  have hchain := h.chain
  rw [hnodes] at haddresses hchain
  have hdisarm : (l.disarm a).nodes = pre ++ (a, { x with destructor := false }) :: post := by
    have hnodup := haddresses
    rw [List.map_append, List.map_cons, List.nodup_middle, List.nodup_cons, List.mem_append] at hnodup
    have hkeep : ∀ part : List (Nat × Listed), a ∉ part.map Prod.fst →
        part.map (fun y => if y.1 = a then (y.1, { y.2 with destructor := false }) else y) = part := by
      intro part hpart
      rw [List.map_congr_left (g := id), List.map_id]
      intro y hy
      apply if_neg
      rintro rfl
      exact hpart (List.mem_map_of_mem hy)
    rw [SockList.disarm]
    simp only
    rw [hnodes, List.map_append, List.map_cons, if_pos rfl,
      hkeep pre fun hmem => hnodup.1 (Or.inl hmem), hkeep post fun hmem => hnodup.1 (Or.inr hmem)]
  have hmem : m.disarm a =
      { m with cells := m.cells.set a (some ({ x with destructor := false }, next)) } := by
    rw [Sockets.disarm, hcell]
  have hfst : (l.disarm a).nodes.map Prod.fst = l.nodes.map Prod.fst := by
    rw [hdisarm, hnodes]
    simp
  have hsnd : ((l.disarm a).nodes.map fun y => y.2.syssock) = l.nodes.map fun y => y.2.syssock := by
    rw [hdisarm, hnodes]
    simp
  rw [hmem]
  refine ⟨?_, ?_, ?_, ?_, ?_, h.notsocket⟩
  · rw [hdisarm]
    exact hchain.update haddresses hcell _
  · rw [hfst]
    exact h.addresses
  · rw [hsnd]
    exact h.numbers
  · intro b hb
    rw [hfst] at hb
    simp only [List.length_set]
    exact h.bound b hb
  · simp only [List.length_set]
    exact h.fresh

/-- A new node comes behind the last one. -/
theorem Rep.create (h : Rep m l) (sock : Listed) : Refines (m.createsocket sock) (l.create sock) := by
  rcases h.look sock.syssock with ⟨previous, hlook, _⟩
  rw [Sockets.createsocket, hlook, SockList.create]
  cases hfind : l.find sock.syssock with
  | some y =>
      exact ⟨_, rfl, h.of_previous previous⟩
  | none =>
      have hwalk := Cells.walk_none (t := fun _ => false) h.chain (fun _ _ => rfl) h.length_le none
      simp only [Option.map_none, Option.isSome_none, Bool.false_eq_true, if_false, hwalk]
      rcases List.eq_nil_or_concat l.nodes with hnil | ⟨front, ⟨b, y⟩, hconcat⟩
      · -- Without any node the source would end the program.
        rw [hnil, if_pos rfl]
        rfl
      · rw [List.concat_eq_append] at hconcat
        have hlast : Cells.lastOf none l.nodes = some b := by
          rw [hconcat, Cells.lastOf]
          simp
        have hchain := h.chain
        have haddresses := h.addresses
        have hbound := h.bound
        have hnumbers := h.numbers
        rw [hconcat] at hchain haddresses hbound hnumbers
        rcases hchain.cell with ⟨next, _, hcell, _⟩
        rw [if_neg (by rw [hconcat]; simp), hlast]
        simp only [hcell]
        refine ⟨_, rfl, ?_, ?_, ?_, ?_, ?_, h.notsocket⟩
        · simp only
          rw [h.fresh, hconcat, List.append_assoc]
          exact hchain.push haddresses hbound
        · simp only
          rw [List.map_append, h.fresh, List.nodup_append]
          refine ⟨h.addresses, List.nodup_singleton _, ?_⟩
          intro c hc d hd
          rw [List.map_cons, List.map_nil, List.mem_singleton] at hd
          have hlt := h.bound c hc
          omega
        · simp only
          rw [List.map_append, List.nodup_append]
          refine ⟨h.numbers, List.nodup_singleton _, ?_⟩
          intro c hc d hd
          rw [List.map_cons, List.map_nil, List.mem_singleton] at hd
          rcases List.mem_map.1 hc with ⟨z, hz, rfl⟩
          have hno := find_none hfind z hz
          rw [hd]
          simpa using hno
        · intro c hc
          simp only [List.map_append, List.mem_append, List.map_cons, List.map_nil,
            List.mem_singleton] at hc
          simp only [List.length_append, List.length_set, List.length_singleton]
          rcases hc with hold | hnew
          · exact Nat.lt_succ_of_lt (h.bound c hold)
          · rw [hnew, h.fresh]
            exact Nat.lt_succ_self _
        · simp only [List.length_append, List.length_set, List.length_singleton]
          rw [h.fresh]

end Operations

/-! ## Nodes that stay -/

/-- The address of a node and the number of its socket. -/
def nodeKey (y : Nat × Listed) : Nat × Int := (y.1, y.2.syssock)

/-- Some of the old nodes, in their order, and new ones behind them. -/
def Grown (l l' : SockList) : Prop :=
  ∃ kept new, l'.nodes = kept ++ new ∧ (kept.map nodeKey).Sublist (l.nodes.map nodeKey) ∧
    (∀ y ∈ new, l.fresh ≤ y.1) ∧ l.fresh ≤ l'.fresh

section Nodes

variable {l l' l'' : SockList} {a : Nat} {t : Int}

theorem Grown.refl (l : SockList) : Grown l l :=
  ⟨l.nodes, [], (List.append_nil _).symm, List.Sublist.refl _, List.forall_mem_nil _, Nat.le_refl _⟩

/-- Fewer of the old nodes. -/
theorem Grown.of_sublist (hsub : (l'.nodes.map nodeKey).Sublist (l.nodes.map nodeKey))
    (hfresh : l'.fresh = l.fresh) : Grown l l' :=
  ⟨l'.nodes, [], (List.append_nil _).symm, hsub, List.forall_mem_nil _, Nat.le_of_eq hfresh.symm⟩

theorem Grown.trans (h : Grown l l') (h' : Grown l' l'') : Grown l l'' := by
  rcases h with ⟨kept, new, hnodes, hsub, hnew, hfresh⟩
  rcases h' with ⟨kept', new', hnodes', hsub', hnew', hfresh'⟩
  rw [hnodes, List.map_append] at hsub'
  -- The old nodes that were kept twice, and the new ones that were kept once.
  rcases List.sublist_append_iff.1 hsub' with ⟨one, two, hboth, hone, htwo⟩
  rcases List.map_eq_append_iff.1 hboth with ⟨front, back, rfl, rfl, rfl⟩
  refine ⟨front, back ++ new', ?_, hone.trans hsub, ?_, Nat.le_trans hfresh hfresh'⟩
  · rw [hnodes', List.append_assoc]
  · intro y hy
    rcases List.mem_append.1 hy with hback | hlast
    · rcases List.mem_map.1 (htwo.subset (List.mem_map_of_mem hback)) with ⟨z, hz, hzy⟩
      have haddress : z.1 = y.1 := (Prod.mk.inj hzy).1
      rw [← haddress]
      exact hnew z hz
    · exact Nat.le_trans hfresh (hnew' y hlast)

theorem grown_without (l : SockList) (a : Nat) : Grown l (l.without a) :=
  Grown.of_sublist (List.filter_sublist.map _) rfl

theorem grown_disarm (l : SockList) (a : Nat) : Grown l (l.disarm a) := by
  refine Grown.of_sublist ?_ rfl
  rw [SockList.disarm]
  simp only
  rw [List.map_map, List.map_congr_left (g := nodeKey)]
  intro y _
  rw [Function.comp_apply]
  split <;> rfl

theorem grown_create {sock : Listed} (h : l.create sock = some l') : Grown l l' := by
  rw [SockList.create] at h
  split at h
  · cases h
    exact Grown.refl l
  · split at h
    · cases h
    · cases h
      refine ⟨l.nodes, [(l.fresh, sock)], rfl, List.Sublist.refl _, ?_, Nat.le_succ _⟩
      intro y hy
      cases List.mem_singleton.1 hy
      exact Nat.le_refl _

/-- What a killed socket's destructor is to do to the list, before the socket is gone. -/
theorem grown_kill {behave : SockList → Option SockList}
    (hbehave : ∀ l l', behave l = some l' → Grown l l') (h : l.kill behave t = some l') : Grown l l' := by
  rw [SockList.kill] at h
  split at h
  · cases h
    exact Grown.refl l
  · split at h
    · cases h
      exact Grown.refl l
    · split at h
      · rcases Option.map_eq_some_iff.1 h with ⟨inside, hinside, rfl⟩
        exact ((grown_disarm l _).trans (hbehave _ _ hinside)).trans (grown_without _ _)
      · cases h
        exact grown_without l _

/-- A destructor keeps some of the old sockets, and adds new ones behind them. -/
theorem grown_on (script : Script) {l l' : SockList} (h : script.on l = some l') : Grown l l' := by
  induction script generalizing l l' with
  | done =>
      cases h
      exact Grown.refl l
  | kill t inner rest ihinner ihrest =>
      rcases Option.bind_eq_some_iff.1 h with ⟨between, hkill, hrest⟩
      exact (grown_kill (fun _ _ => ihinner) hkill).trans (ihrest hrest)
  | create sock rest ih =>
      rcases Option.bind_eq_some_iff.1 h with ⟨between, hcreate, hrest⟩
      exact (grown_create hcreate).trans (ih hrest)
  | look t rest ih =>
      exact ih h

/-- A node that is still there was kept. -/
theorem Grown.kept (h : Grown l l') (hbound : a < l.fresh) {y : Nat × Listed} (hy : y ∈ l'.nodes)
    (ha : y.1 = a) : nodeKey y ∈ l.nodes.map nodeKey := by
  rcases h with ⟨kept, new, hnodes, hsub, hnew, _⟩
  rw [hnodes, List.mem_append] at hy
  rcases hy with hold | hadded
  · exact hsub.subset (List.mem_map_of_mem hold)
  · have hle := hnew y hadded
    rw [ha] at hle
    exact absurd hle (Nat.not_le_of_lt hbound)

/-- The first node stays the first one as long as it is there. -/
theorem Grown.first (h : Grown l l') (hfirst : l.first a) (hnodup : (l.nodes.map Prod.fst).Nodup)
    (hbound : a < l.fresh) (hmem : a ∈ l'.nodes.map Prod.fst) : l'.first a := by
  rcases h with ⟨kept, new, hnodes, hsub, hnew, _⟩
  have haddresses : (kept.map Prod.fst).Sublist (l.nodes.map Prod.fst) := by
    have hmap := hsub.map Prod.fst
    rw [List.map_map, List.map_map] at hmap
    exact hmap
  have hfirst' := hfirst
  rw [SockList.first, ← List.head?_map] at hfirst'
  rcases List.head?_eq_some_iff.1 hfirst' with ⟨others, hothers⟩
  rw [hothers] at haddresses hnodup
  rw [hnodes, List.map_append, List.mem_append] at hmem
  have hkept : a ∈ kept.map Prod.fst := by
    rcases hmem with hold | hadded
    · exact hold
    · rcases List.mem_map.1 hadded with ⟨y, hy, rfl⟩
      exact absurd (hnew y hy) (Nat.not_le_of_lt hbound)
  rw [SockList.first, hnodes, ← List.head?_map, List.map_append]
  cases hcase : kept.map Prod.fst with
  | nil =>
      rw [hcase] at hkept
      cases hkept
  | cons b more =>
      rw [hcase] at haddresses hkept
      rcases List.sublist_cons_iff.1 haddresses with hno | ⟨r, hr, _⟩
      · exact absurd (hno.subset hkept) (List.nodup_cons.1 hnodup).1
      · cases hr
        rfl

end Nodes

/-! ## The law -/

/-- The destructor of the socket with this number runs when it is killed. -/
def SockList.destructs (l : SockList) (syssock : Int) (a : Nat) : Prop :=
  ∃ sock, l.find syssock = some (a, sock) ∧ sock.listener = false ∧ l.ingroup sock = false ∧
    sock.destructor = true

/-- After the destructor, the number still belongs to the same node if to any, and that is the first one
only when it was before. -/
def SameHead (l l' : SockList) (syssock : Int) (a : Nat) : Prop :=
  ∀ b sock, l'.find syssock = some (b, sock) → b = a ∧ (l'.first a → l.first a)

/-- No kill among these becomes the first one through its destructor. -/
def Script.Tame : Script → SockList → Prop
  | done, _ => True
  | kill syssock inner rest, l =>
      (∀ a, l.destructs syssock a → inner.Tame (l.disarm a) ∧
        ∀ l', inner.on (l.disarm a) = some l' → SameHead l l' syssock a) ∧
      ∀ l', l.kill inner.on syssock = some l' → rest.Tame l'
  | create sock rest, l => ∀ l', l.create sock = some l' → rest.Tame l'
  | look _ rest, l => rest.Tame l

/-- Every call of `killsocket`, those of the destructors included, leaves the list it is to leave. -/
def Script.Lawful : Script → Sockets → SockList → Prop
  | done, _, _ => True
  | kill syssock inner rest, m, l =>
      Refines (m.killsocket inner.run syssock) (l.kill inner.on syssock) ∧
      (∀ a th m', l.destructs syssock a → m.getpsocketbysock syssock = .ok (th, m') →
        inner.Lawful (m'.disarm a) (l.disarm a)) ∧
      ∀ m' l', m.killsocket inner.run syssock = .ok m' → l.kill inner.on syssock = some l' →
        rest.Lawful m' l'
  | create sock rest, m, l => ∀ m' l', m.createsocket sock = .ok m' → l.create sock = some l' →
      rest.Lawful m' l'
  | look syssock rest, m, l => ∀ th m', m.getpsocketbysock syssock = .ok (th, m') → rest.Lawful m' l

section Law

variable {m : Sockets} {l : SockList} {a : Nat} {t : Int} {inner : Script}

/-- Without a destructor the law holds. -/
theorem refines_of_not_destructs (h : Rep m l) (behave : Sockets → Except Stop Sockets)
    (on : SockList → Option SockList) (hno : ∀ a, ¬ l.destructs t a) :
    Refines (m.killsocket behave t) (l.kill on t) := by
  rcases h.look t with ⟨previous, hlook, _⟩
  have hrep := h.of_previous previous
  rw [Sockets.killsocket, hlook, SockList.kill]
  cases hfind : l.find t with
  | none =>
      exact ⟨_, rfl, hrep⟩
  | some y =>
      rcases y with ⟨a, sock⟩
      rcases hrep.cell (find_mem hfind) with ⟨next, hcell⟩
      simp only [Option.map_some, hcell, hrep.group]
      cases hlistener : sock.listener with
      | true =>
          exact ⟨_, rfl, hrep⟩
      | false =>
          have hplain : (!l.ingroup sock && sock.destructor) = false := by
            rw [Bool.eq_false_iff]
            intro hruns
            rw [Bool.and_eq_true, Bool.not_eq_true'] at hruns
            exact hno a ⟨sock, hfind, hlistener, hruns.1, hruns.2⟩
          simp only [hplain, Bool.false_eq_true, if_false]
          apply hrep.unlink hfind
          rw [decide_eq_true_iff]
          exact hrep.head a

/-- With a destructor, the kill is made of what the destructor does and of taking out the node that has
the number then. -/
theorem killsocket_destructs (h : Rep m l) (behave : Sockets → Except Stop Sockets)
    (on : SockList → Option SockList) (hruns : l.destructs t a) :
    ∃ m₁, m.getpsocketbysock t = .ok (some a, m₁) ∧ Rep m₁ l ∧
      l.kill on t = (on (l.disarm a)).map (fun l' => l'.without a) ∧
      m.killsocket behave t = match behave (m₁.disarm a) with
        | .error stop => .error stop
        | .ok m' =>
            match m'.getpsocketbysock t with
            | .error stop => .error stop
            | .ok (none, m') => .ok m'
            | .ok (some b, m') => m'.unlink (decide (l.first a)) b t := by
  rcases hruns with ⟨sock, hfind, hlistener, hgroup, hdestructor⟩
  rcases h.look t with ⟨previous, hlook, _⟩
  have hrep := h.of_previous previous
  rcases hrep.cell (find_mem hfind) with ⟨next, hcell⟩
  refine ⟨{ m with previous := previous }, ?_, hrep, ?_, ?_⟩
  · rw [hlook, hfind]
    rfl
  · rw [SockList.kill, hfind]
    simp only [hlistener, hgroup, hdestructor, Bool.false_eq_true, if_false, Bool.not_false,
      Bool.and_self, if_true]
  · rw [Sockets.killsocket, hlook, hfind]
    simp only [Option.map_some, hcell, hrep.group, hlistener, hgroup, hdestructor,
      Bool.false_eq_true, if_false, Bool.not_false, Bool.and_self, if_true]
    have hhead : decide (m.socketnode = some a) = decide (l.first a) := decide_eq_decide.2 (h.head a)
    rw [hhead]

/-- The law holds of one kill, when its destructor does what it is to do, just if the head stays. -/
theorem refines_kill_iff (h : Rep m l) (hruns : l.destructs t a) {behave : Sockets → Except Stop Sockets}
    {on : SockList → Option SockList} (hgrown : ∀ l l', on l = some l' → Grown l l')
    (hbehave : ∀ m₁, m.getpsocketbysock t = .ok (some a, m₁) →
      Refines (behave (m₁.disarm a)) (on (l.disarm a))) :
    Refines (m.killsocket behave t) (l.kill on t) ↔
      ∀ l', on (l.disarm a) = some l' → SameHead l l' t a := by
  rcases killsocket_destructs h behave on hruns with ⟨m₁, hlook, hrep₁, hkill, hcode⟩
  have hinside := hbehave m₁ hlook
  rw [hcode, hkill]
  cases hon : on (l.disarm a) with
  | none =>
      rw [hon] at hinside
      -- The destructor is not to come back, and does not: there is nothing left to compare.
      have hexit : behave (m₁.disarm a) = .error .exit := hinside
      rw [hexit]
      constructor
      · intro _ l' hno
        cases hno
      · intro _
        rfl
  | some l' =>
      rw [hon] at hinside
      rcases hinside with ⟨m', hm', hrep'⟩
      -- The second lookup of the source, after the destructor.
      rcases hrep'.look t with ⟨previous, hlook', _⟩
      have hrep'' := hrep'.of_previous previous
      rw [hm']
      simp only [hlook', Option.map_some, Option.some.injEq, forall_eq']
      have hgrow : Grown l l' := (grown_disarm l a).trans (hgrown _ _ hon)
      rcases hruns with ⟨x, hfindx, _⟩
      rcases find_split hfindx with ⟨pre, post, hnodes, hx, _⟩
      have hmema : a ∈ l.nodes.map Prod.fst := by
        rw [hnodes]
        simp
      have hbound : a < l.fresh := by
        rw [h.fresh]
        exact h.bound a hmema
      cases hfind : l'.find t with
      | none =>
          -- The destructor has killed the socket itself, so its node is not there any more.
          have hgone : l'.without a = l' := by
            have hkeep : l'.nodes.filter (fun y => y.1 != a) = l'.nodes := by
              apply List.filter_eq_self.2
              intro y hy
              rw [bne_iff_ne]
              intro hya
              rcases List.mem_map.1 (hgrow.kept hbound hy hya) with ⟨z, hz, hzy⟩
              rcases Prod.mk.inj hzy with ⟨haddress, hnumber⟩
              have hza : z = (a, x) :=
                List.inj_on_of_nodup_map h.addresses hz (find_mem hfindx) (haddress.trans hya)
              have hno := find_none hfind y hy
              rw [← hnumber, hza, hx] at hno
              simp at hno
            rw [SockList.without, hkeep]
          rw [hgone]
          constructor
          · intro _ b y hno
            rw [hfind] at hno
            cases hno
          · intro _
            exact ⟨_, rfl, hrep''⟩
      | some y =>
          rcases y with ⟨b, sock⟩
          simp only [Option.map_some]
          constructor
          · intro hrefines b' y' hfind'
            cases Option.some.inj (hfind.symm.trans hfind')
            rcases hrefines with ⟨last, hlast, hreplast⟩
            rcases unlink_frees hrep'' hfind hlast with ⟨hfreed, hstays⟩
            have hsame : b = a := by
              by_contra hne
              have hkept : (b, sock) ∈ (l'.without a).nodes :=
                List.mem_filter.2 ⟨find_mem hfind, bne_iff_ne.2 hne⟩
              rcases hreplast.cell hkept with ⟨next, hcell⟩
              rw [hfreed] at hcell
              cases hcell
            refine ⟨hsame, fun hfirst' => ?_⟩
            by_contra hfirst
            -- The first pointer still leads to the node that is free now.
            have hpointer := hstays (decide_eq_false hfirst)
            rw [(hrep''.head a).2 hfirst'] at hpointer
            have hstill := (hreplast.head a).1 hpointer
            rw [SockList.first, ← List.head?_map] at hstill
            rcases List.mem_map.1 (List.mem_of_head? hstill) with ⟨z, hz, hza⟩
            exact bne_iff_ne.1 (List.mem_filter.1 hz).2 hza
          · intro hsame
            rcases hsame b sock hfind with ⟨rfl, hback⟩
            apply hrep''.unlink hfind
            rw [decide_eq_true_iff]
            constructor
            · intro hfirst
              exact hgrow.first hfirst h.addresses hbound (List.mem_map_of_mem (find_mem hfind))
            · exact hback

/-- The same with or without a destructor. -/
theorem refines_kill (h : Rep m l) (hinner : ∀ a m₁, l.destructs t a →
      m.getpsocketbysock t = .ok (some a, m₁) → Refines (inner.run (m₁.disarm a)) (inner.on (l.disarm a))) :
    Refines (m.killsocket inner.run t) (l.kill inner.on t) ↔
      ∀ a, l.destructs t a → ∀ l', inner.on (l.disarm a) = some l' → SameHead l l' t a := by
  by_cases hruns : ∃ a, l.destructs t a
  · rcases hruns with ⟨a, ha⟩
    rw [refines_kill_iff h ha (fun _ _ => grown_on inner) fun m₁ hlook => hinner a m₁ ha hlook]
    constructor
    · intro hhead b hb
      rcases ha with ⟨x, hx, _⟩
      rcases hb with ⟨y, hy, _⟩
      cases Option.some.inj (hx.symm.trans hy)
      exact hhead
    · intro hhead
      exact hhead a ha
  · have hno : ∀ a, ¬ l.destructs t a := fun a ha => hruns ⟨a, ha⟩
    constructor
    · intro _ a ha
      exact absurd ha (hno a)
    · intro _
      exact refines_of_not_destructs h _ _ hno

theorem Rep.disarm_destructs {m₁ : Sockets} (h : Rep m l) (hruns : l.destructs t a)
    (hlook : m.getpsocketbysock t = .ok (some a, m₁)) : Rep (m₁.disarm a) (l.disarm a) := by
  rcases hruns with ⟨x, hfind, _⟩
  rcases h.look t with ⟨previous, hcode, _⟩
  rw [hlook] at hcode
  rw [(Prod.mk.inj (Except.ok.inj hcode)).2]
  exact (h.of_previous previous).disarm hfind

/-- What tame destructors do in the memory is what they are to do to the list. -/
theorem run_refines (script : Script) {m : Sockets} {l : SockList} (h : Rep m l)
    (htame : script.Tame l) : Refines (script.run m) (script.on l) := by
  induction script generalizing m l with
  | done =>
      exact ⟨m, rfl, h⟩
  | kill t inner rest ihinner ihrest =>
      rcases htame with ⟨hinner, hrest⟩
      have hkill : Refines (m.killsocket inner.run t) (l.kill inner.on t) := by
        apply (refines_kill h _).2
        · exact fun a ha => (hinner a ha).2
        · exact fun a m₁ ha hlook => ihinner (h.disarm_destructs ha hlook) (hinner a ha).1
      rw [Script.run, Script.on]
      cases hon : l.kill inner.on t with
      | none =>
          rw [hon] at hkill
          have hexit : m.killsocket inner.run t = .error .exit := hkill
          rw [hexit]
          rfl
      | some l' =>
          rw [hon] at hkill
          rcases hkill with ⟨m', hm', hrep⟩
          rw [hm']
          exact ihrest hrep (hrest l' hon)
  | create sock rest ih =>
      have hcreate := h.create sock
      rw [Script.run, Script.on]
      cases hon : l.create sock with
      | none =>
          rw [hon] at hcreate
          have hexit : m.createsocket sock = .error .exit := hcreate
          rw [hexit]
          rfl
      | some l' =>
          rw [hon] at hcreate
          rcases hcreate with ⟨m', hm', hrep⟩
          rw [hm']
          exact ih hrep (htame l' hon)
  | look t rest ih =>
      rcases h.look t with ⟨previous, hlook, _⟩
      rw [Script.run, hlook]
      exact ih (h.of_previous previous) htame

/-- The calls of `killsocket` leave the lists they are to leave just if the destructors are tame. -/
theorem lawful_iff_tame (script : Script) {m : Sockets} {l : SockList} (h : Rep m l) :
    script.Lawful m l ↔ script.Tame l := by
  induction script generalizing m l with
  | done =>
      exact Iff.rfl
  | kill t inner rest ihinner ihrest =>
      -- What the destructor calls runs on the list it finds, with its own entry disarmed.
      have hnested : (∀ a th m', l.destructs t a → m.getpsocketbysock t = .ok (th, m') →
          inner.Lawful (m'.disarm a) (l.disarm a)) ↔ ∀ a, l.destructs t a → inner.Tame (l.disarm a) := by
        constructor
        · intro hall a ha
          rcases killsocket_destructs h inner.run inner.on ha with ⟨m₁, hlook, _⟩
          exact (ihinner (h.disarm_destructs ha hlook)).1 (hall a _ m₁ ha hlook)
        · intro hall a th m' ha hlook
          rcases killsocket_destructs h inner.run inner.on ha with ⟨m₁, hlook₁, _⟩
          cases hlook.symm.trans hlook₁
          exact (ihinner (h.disarm_destructs ha hlook)).2 (hall a ha)
      -- The kill itself keeps the law just if the head stays.
      have hkill : (∀ a, l.destructs t a → inner.Tame (l.disarm a)) →
          (Refines (m.killsocket inner.run t) (l.kill inner.on t) ↔
            ∀ a, l.destructs t a → ∀ l', inner.on (l.disarm a) = some l' → SameHead l l' t a) := by
        intro hall
        apply refines_kill h
        exact fun a m₁ ha hlook => run_refines inner (h.disarm_destructs ha hlook) (hall a ha)
      rw [Script.Lawful, Script.Tame, hnested]
      constructor
      · rintro ⟨hlaw, hall, hrest⟩
        refine ⟨fun a ha => ⟨hall a ha, (hkill hall).1 hlaw a ha⟩, fun l' hon => ?_⟩
        rw [hon] at hlaw
        rcases hlaw with ⟨m', hm', hrep⟩
        exact (ihrest hrep).1 (hrest m' l' hm' hon)
      · rintro ⟨hboth, hrest⟩
        have hlaw := (hkill fun a ha => (hboth a ha).1).2 fun a ha => (hboth a ha).2
        refine ⟨hlaw, fun a ha => (hboth a ha).1, fun m' l' hm' hon => ?_⟩
        rw [hon] at hlaw
        rcases hlaw with ⟨m'', hm'', hrep⟩
        cases hm'.symm.trans hm''
        exact (ihrest hrep).2 (hrest l' hon)
  | create sock rest ih =>
      have hcreate := h.create sock
      rw [Script.Lawful, Script.Tame]
      constructor
      · intro hrest l' hon
        rw [hon] at hcreate
        rcases hcreate with ⟨m', hm', hrep⟩
        exact (ih hrep).1 (hrest m' l' hm' hon)
      · intro hrest m' l' hm' hon
        rw [hon] at hcreate
        rcases hcreate with ⟨m'', hm'', hrep⟩
        cases hm'.symm.trans hm''
        exact (ih hrep).2 (hrest l' hon)
  | look t rest ih =>
      rcases h.look t with ⟨previous, hlook, _⟩
      rw [Script.Lawful, Script.Tame, hlook]
      constructor
      · intro hrest
        exact (ih (h.of_previous previous)).1 (hrest _ _ rfl)
      · intro hrest th m' hm'
        cases hm'
        exact (ih (h.of_previous previous)).2 hrest

/-- Killing a socket leaves the sockets there were and the created ones, less the killed ones, and no
freed node, in this call and in those of the destructors, just if no destructor makes its socket the
first one or gives its number to another one. -/
theorem killsocket_law_iff (h : Rep m l) (syssock : Int) (destructor : Script) :
    ((Script.kill syssock destructor .done).Lawful m l ↔
      (Script.kill syssock destructor .done).Tame l) ∧
    ((Script.kill syssock destructor .done).Tame l →
      Refines (m.killsocket destructor.run syssock) (l.kill destructor.on syssock)) := by
  have hiff := lawful_iff_tame (.kill syssock destructor .done) h
  exact ⟨hiff, fun htame => (hiff.2 htame).1⟩

end Law

/-- Two sockets, the second one with a destructor. -/
def twoSockets : Sockets where
  cells := [some ({ syssock := 1 }, some 1), some ({ syssock := 2, destructor := true }, none)]
  socketnode := some 0

def bothSockets : SockList where
  nodes := [(0, { syssock := 1 }), (1, { syssock := 2, destructor := true })]
  fresh := 2

theorem twoSockets_rep : Rep twoSockets bothSockets where
  chain := ⟨rfl, some 1, rfl, rfl, none, rfl, rfl⟩
  addresses := by decide
  numbers := by decide
  bound := by decide
  fresh := rfl
  notsocket := rfl

/-- A destructor that creates a socket and looks for one is tame here. -/
theorem killsocket_law_create :
    Refines (twoSockets.killsocket (Script.create { syssock := 3 } (.look 1 .done)).run 2)
      (bothSockets.kill (Script.create { syssock := 3 } (.look 1 .done)).on 2) := by
  apply (killsocket_law_iff twoSockets_rep 2 (.create { syssock := 3 } (.look 1 .done))).2
  refine ⟨?_, fun _ _ => trivial⟩
  rintro a ⟨sock, hfind, _⟩
  cases hfind
  refine ⟨fun _ _ => trivial, ?_⟩
  intro l' hon
  cases hon
  intro b sock' hfind'
  cases hfind'
  refine ⟨rfl, fun hfirst => ?_⟩
  cases hfirst

/-- When the destructor of the second socket kills the first one, the list is left at a freed node. -/
theorem killsocket_leaves_freed :
    Rep twoSockets bothSockets ∧
    (∃ m, twoSockets.killsocket (Script.kill 1 .done .done).run 2 = .ok m ∧ m.socketnode = some 1 ∧
      m.cells.cellAt 1 = none) ∧
    ¬ Refines (twoSockets.killsocket (Script.kill 1 .done .done).run 2)
      (bothSockets.kill (Script.kill 1 .done .done).on 2) := by
  refine ⟨twoSockets_rep, ⟨_, rfl, rfl, rfl⟩, ?_⟩
  rintro ⟨m, hm, hrep⟩
  cases hm
  cases hrep.chain

end PsyBnc
