import Mathlib.Data.Finset.Card
import Mathlib.Data.List.Nodup
import Mathlib.Algebra.BigOperators.Group.List.Basic
import Mathlib.Algebra.GroupWithZero.Nat

/-!
# `select` on the Vita (`vita_net_compat.c`)

`vita_select` registers the descriptors of the two sets with `sceNetEpoll` and turns the events that are delivered into
sets again.  Its return value is the number of events.
-/

namespace PsyBnc

/-- `fd_set`, by the bits that are set; newlib's has 256 of them. -/
abbrev FdSet := Finset ℕ

@[reducible] def FD_SETSIZE : Nat := 256

/-- `SceNetEpollEvent`, with the bits of `events` and `data.fd`. -/
structure EpollEvent where
  fd : Nat
  epollin : Bool := false
  epollout : Bool := false
  epollhup : Bool := false
  epollerr : Bool := false
  deriving DecidableEq, Repr

namespace EpollEvent

/-- The bits that are taken for readability. -/
def readable (ev : EpollEvent) : Bool := ev.epollin || ev.epollhup || ev.epollerr

def writable (ev : EpollEvent) : Bool := ev.epollout

end EpollEvent

/-- The answers of the system: the epoll's number, the results of adding a descriptor for input and output, whether
there is memory for the events, and the events that a wait delivers for the descriptors that are registered. -/
structure SceNetEpoll where
  eid : Int
  add : Nat → Bool → Bool → Int
  malloc : Bool
  wait : List Nat → Int → List EpollEvent
  registered : ∀ watched timeout, ∀ ev ∈ wait watched timeout, ev.fd ∈ watched
  once : ∀ watched timeout, ((wait watched timeout).map EpollEvent.fd).Nodup

/-- `FD_ISSET` behind a test for `NULL`. -/
def isset (fd : Nat) (fds : Option FdSet) : Bool := fds.any fun s => decide (fd ∈ s)

/-- The descriptors that get registered; with a set, a number from 256 on is read behind its end. -/
def watchedFds (nfds : Nat) (readfds writefds : Option FdSet) (epoll : SceNetEpoll) : Option (List Nat) :=
  if (readfds.isSome || writefds.isSome) ∧ FD_SETSIZE < nfds then none
  else
    some <| (List.range nfds).filter fun fd =>
      (isset fd readfds || isset fd writefds) && epoll.add fd (isset fd readfds) (isset fd writefds) == 0

/-- `timeout_us`, with `tv_sec` and `tv_usec`. -/
def timeoutUs (timeout : Option (Int × Int)) : Int :=
  match timeout with
  | none => -1
  | some (sec, usec) => (BitVec.ofInt 32 (sec * 1000000 + usec)).toInt

/-- The events that the loop goes through. -/
def deliveredEvents (epoll : SceNetEpoll) (watched : List Nat) (timeout : Option (Int × Int)) : List EpollEvent :=
  if watched ≠ [] ∧ epoll.malloc = true then epoll.wait watched (timeoutUs timeout) else []

/-- A round of the loop over the events, on `out_r` and `out_w`. -/
def setReady (out : FdSet × FdSet) (ev : EpollEvent) : FdSet × FdSet :=
  (if ev.readable then insert ev.fd out.1 else out.1, if ev.writable then insert ev.fd out.2 else out.2)

/-- The return value and the sets afterwards. -/
structure Selected where
  ret : Int
  readfds : Option FdSet
  writefds : Option FdSet
  exceptfds : Option FdSet
  deriving DecidableEq

def vita_select (nfds : Int) (readfds writefds exceptfds : Option FdSet) (timeout : Option (Int × Int))
    (epoll : SceNetEpoll) : Option Selected :=
  if nfds ≤ 0 then
    some ⟨0, readfds.map fun _ => ∅, writefds.map fun _ => ∅, exceptfds.map fun _ => ∅⟩
  else if epoll.eid < 0 then some ⟨-1, readfds, writefds, exceptfds⟩
  else
    (watchedFds nfds.toNat readfds writefds epoll).map fun watched =>
      let events := deliveredEvents epoll watched timeout
      let out := events.foldl setReady (∅, ∅)
      ⟨events.length, readfds.map fun _ => out.1, writefds.map fun _ => out.2, exceptfds.map fun _ => ∅⟩

/-- The events of a call, none of them when it does not come to the wait. -/
def reportedEvents (nfds : Int) (readfds writefds : Option FdSet) (timeout : Option (Int × Int)) (epoll : SceNetEpoll) :
    List EpollEvent :=
  if nfds ≤ 0 ∨ epoll.eid < 0 then []
  else
    (watchedFds nfds.toNat readfds writefds epoll).elim [] fun watched => deliveredEvents epoll watched timeout

/-- The bits of a set, none for `NULL`. -/
def fdBits (fds : Option FdSet) : FdSet := fds.getD ∅

/-- What `select` promises for the events that were reported; none of their bits is an exceptional condition. -/
structure SelectContract (readfds writefds exceptfds : Option FdSet) (events : List EpollEvent) (s : Selected) : Prop where
  read_subset : fdBits s.readfds ⊆ fdBits readfds
  write_subset : fdBits s.writefds ⊆ fdBits writefds
  except_subset : fdBits s.exceptfds ⊆ fdBits exceptfds
  read_ready : ∀ ev ∈ events, ev.readable = true → ev.fd ∈ fdBits readfds → ev.fd ∈ fdBits s.readfds
  write_ready : ∀ ev ∈ events, ev.writable = true → ev.fd ∈ fdBits writefds → ev.fd ∈ fdBits s.writefds
  count : s.ret = (fdBits s.readfds).card + (fdBits s.writefds).card + (fdBits s.exceptfds).card

/-! ## The sets that come out -/

section Sets

variable {events : List EpollEvent} {p : EpollEvent → Bool}

/-- The descriptors of the events with some bits. -/
def fdsWith (p : EpollEvent → Bool) (events : List EpollEvent) : FdSet := ((events.filter p).map EpollEvent.fd).toFinset

theorem mem_fdsWith {fd : Nat} : fd ∈ fdsWith p events ↔ ∃ ev ∈ events, p ev = true ∧ ev.fd = fd := by
  rw [fdsWith, List.mem_toFinset, List.mem_map]
  constructor
  · rintro ⟨ev, hev, rfl⟩
    rcases List.mem_filter.1 hev with ⟨hmem, hp⟩
    exact ⟨ev, hmem, hp, rfl⟩
  · rintro ⟨ev, hmem, hp, rfl⟩
    exact ⟨ev, List.mem_filter.2 ⟨hmem, hp⟩, rfl⟩

/-- No descriptor comes twice. -/
theorem card_fdsWith (honce : (events.map EpollEvent.fd).Nodup) : (fdsWith p events).card = events.countP p := by
  have hsub : ((events.filter p).map EpollEvent.fd).Sublist (events.map EpollEvent.fd) :=
    List.filter_sublist.map EpollEvent.fd
  rw [fdsWith, List.toFinset_card_of_nodup (honce.sublist hsub), List.length_map, List.countP_eq_length_filter]

theorem fdsWith_cons (ev : EpollEvent) :
    fdsWith p (ev :: events) = if p ev then insert ev.fd (fdsWith p events) else fdsWith p events := by
  rw [fdsWith, List.filter_cons]
  by_cases hp : p ev = true
  · rw [if_pos hp, if_pos hp, List.map_cons, List.toFinset_cons, fdsWith]
  · rw [if_neg hp, if_neg hp, fdsWith]

theorem foldl_setReady (events : List EpollEvent) (out : FdSet × FdSet) :
    events.foldl setReady out =
      (out.1 ∪ fdsWith EpollEvent.readable events, out.2 ∪ fdsWith EpollEvent.writable events) := by
  induction events generalizing out with
  | nil =>
      apply Prod.ext
      · exact (Finset.union_empty out.1).symm
      · exact (Finset.union_empty out.2).symm
  | cons ev events ih =>
      have hinsert : ∀ (q : EpollEvent → Bool) (s : FdSet),
          (if q ev then insert ev.fd s else s) ∪ fdsWith q events = s ∪ fdsWith q (ev :: events) := by
        intro q s
        rw [fdsWith_cons]
        by_cases hq : q ev = true
        · rw [if_pos hq, if_pos hq, Finset.insert_union, Finset.union_insert]
        · rw [if_neg hq, if_neg hq]
      rw [List.foldl_cons, ih, setReady]
      exact Prod.ext (hinsert _ _) (hinsert _ _)

end Sets

/-! ## The contract -/

/-- The bits that an event sets in the sets that are given. -/
def EpollEvent.marks (readfds writefds : Option FdSet) (ev : EpollEvent) : Nat :=
  (readfds.isSome && ev.readable).toNat + (writefds.isSome && ev.writable).toNat

/-- An event is for what was asked, as far as a set is given. -/
def EpollEvent.Asked (readfds writefds : Option FdSet) (ev : EpollEvent) : Prop :=
  (∀ fds ∈ readfds, ev.readable = true → ev.fd ∈ fds) ∧ ∀ fds ∈ writefds, ev.writable = true → ev.fd ∈ fds

section Contract

variable {readfds writefds exceptfds : Option FdSet} {events : List EpollEvent}

theorem card_map_fdsWith (fds : Option FdSet) (p : EpollEvent → Bool) (honce : (events.map EpollEvent.fd).Nodup) :
    (fdBits (fds.map fun _ => fdsWith p events)).card = events.countP fun ev => fds.isSome && p ev := by
  cases fds with
  | none =>
      rw [Option.map_none, fdBits, Option.getD_none, Finset.card_empty]
      exact (List.countP_eq_zero.2 fun _ _ h => Bool.noConfusion h).symm
  | some s =>
      rw [Option.map_some, fdBits, Option.getD_some, card_fdsWith honce]
      rfl

theorem subset_map_fdsWith {fds : Option FdSet} {p : EpollEvent → Bool} :
    fdBits (fds.map fun _ => fdsWith p events) ⊆ fdBits fds ↔
      ∀ ev ∈ events, ∀ s ∈ fds, p ev = true → ev.fd ∈ s := by
  cases fds with
  | none =>
      refine ⟨fun _ ev _ s hs => ?_, fun _ => Finset.Subset.refl _⟩
      cases hs
  | some s =>
      rw [Option.map_some, fdBits, fdBits, Option.getD_some, Option.getD_some]
      constructor
      · intro hsub ev hev t ht hp
        cases ht
        exact hsub (mem_fdsWith.2 ⟨ev, hev, hp, rfl⟩)
      · intro hall fd hfd
        rcases mem_fdsWith.1 hfd with ⟨ev, hev, hp, rfl⟩
        exact hall ev hev s rfl hp

theorem ready_map_fdsWith {fds : Option FdSet} {p : EpollEvent → Bool} {ev : EpollEvent} (hev : ev ∈ events)
    (hp : p ev = true) (hfd : ev.fd ∈ fdBits fds) : ev.fd ∈ fdBits (fds.map fun _ => fdsWith p events) := by
  cases fds with
  | none =>
      exact absurd hfd (Finset.notMem_empty _)
  | some s =>
      rw [Option.map_some, fdBits, Option.getD_some]
      exact mem_fdsWith.2 ⟨ev, hev, hp, rfl⟩

theorem sum_marks (events : List EpollEvent) :
    (events.map (EpollEvent.marks readfds writefds)).sum =
      (events.countP fun ev => readfds.isSome && ev.readable) +
        events.countP fun ev => writefds.isSome && ev.writable := by
  induction events with
  | nil =>
      rfl
  | cons ev events ih =>
      rw [List.map_cons, List.sum_cons, ih, List.countP_cons, List.countP_cons, EpollEvent.marks]
      cases readfds.isSome && ev.readable <;> cases writefds.isSome && ev.writable <;>
        simp only [Bool.toNat_true, Bool.toNat_false, if_true, if_false, Bool.false_eq_true] <;> omega

/-- The contract of the sets that the loop makes. -/
theorem contract_iff (honce : (events.map EpollEvent.fd).Nodup) :
    SelectContract readfds writefds exceptfds events
        ⟨events.length, readfds.map fun _ => (events.foldl setReady (∅, ∅)).1,
          writefds.map fun _ => (events.foldl setReady (∅, ∅)).2, exceptfds.map fun _ => ∅⟩ ↔
      (∀ ev ∈ events, ev.Asked readfds writefds) ∧
        (events.map (EpollEvent.marks readfds writefds)).sum = events.length := by
  have hexcept : fdBits (exceptfds.map fun _ => (∅ : FdSet)) = ∅ := by
    cases exceptfds with
    | none => rfl
    | some s => rfl
  rw [foldl_setReady, Finset.empty_union, Finset.empty_union, sum_marks]
  constructor
  · intro h
    refine ⟨fun ev hev => ⟨subset_map_fdsWith.1 h.read_subset ev hev, subset_map_fdsWith.1 h.write_subset ev hev⟩, ?_⟩
    have hcount := h.count
    simp only [card_map_fdsWith _ _ honce, hexcept, Finset.card_empty] at hcount
    omega
  · rintro ⟨hasked, hsum⟩
    constructor
    · exact subset_map_fdsWith.2 fun ev hev => (hasked ev hev).1
    · exact subset_map_fdsWith.2 fun ev hev => (hasked ev hev).2
    · rw [hexcept]
      exact Finset.empty_subset _
    · exact fun ev hev hp hfd => ready_map_fdsWith hev hp hfd
    · exact fun ev hev hp hfd => ready_map_fdsWith hev hp hfd
    · simp only [card_map_fdsWith _ _ honce, hexcept, Finset.card_empty]
      omega

end Contract

theorem nodup_deliveredEvents (epoll : SceNetEpoll) (watched : List Nat) (timeout : Option (Int × Int)) :
    ((deliveredEvents epoll watched timeout).map EpollEvent.fd).Nodup := by
  rw [deliveredEvents]
  by_cases hwait : watched ≠ [] ∧ epoll.malloc = true
  · rw [if_pos hwait]
    exact epoll.once watched (timeoutUs timeout)
  · rw [if_neg hwait]
    exact List.nodup_nil

/-- `vita_select` keeps the contract of `select` exactly when its sets hold all descriptors, the epoll is made, every
event is for what was asked, and the events that set two bits are as many as those that set none. -/
theorem vita_select_contract_iff (nfds : Int) (readfds writefds exceptfds : Option FdSet)
    (timeout : Option (Int × Int)) (epoll : SceNetEpoll) :
    (∃ s, vita_select nfds readfds writefds exceptfds timeout epoll = some s ∧
        SelectContract readfds writefds exceptfds (reportedEvents nfds readfds writefds timeout epoll) s) ↔
      (0 < nfds → 0 ≤ epoll.eid ∧ (nfds ≤ FD_SETSIZE ∨ readfds = none ∧ writefds = none)) ∧
        (∀ ev ∈ reportedEvents nfds readfds writefds timeout epoll, ev.Asked readfds writefds) ∧
          ((reportedEvents nfds readfds writefds timeout epoll).map (EpollEvent.marks readfds writefds)).sum =
            (reportedEvents nfds readfds writefds timeout epoll).length := by
  rw [vita_select, reportedEvents]
  by_cases hnfds : nfds ≤ 0
  · -- nothing is asked for, and the sets are cleared
    rw [if_pos hnfds, if_pos (Or.inl hnfds)]
    have hnothing : ∀ ev ∈ ([] : List EpollEvent), ev.Asked readfds writefds := fun _ h => absurd h List.not_mem_nil
    have hcontract := (@contract_iff readfds writefds exceptfds [] List.nodup_nil).2 ⟨hnothing, rfl⟩
    constructor
    · intro _
      exact ⟨fun hpos => absurd hpos (Int.not_lt.2 hnfds), hnothing, rfl⟩
    · intro _
      exact ⟨_, rfl, hcontract⟩
  · have hpos : 0 < nfds := Int.not_le.1 hnfds
    rw [if_neg hnfds]
    by_cases heid : epoll.eid < 0
    · -- Without an epoll the result is an error, which no contract allows.
      rw [if_pos heid, if_pos (Or.inr heid)]
      constructor
      · rintro ⟨s, hs, hcontract⟩
        cases hs
        have hcount := hcontract.count
        simp only at hcount
        omega
      · rintro ⟨hmade, _⟩
        exact absurd heid (Int.not_lt.2 (hmade hpos).1)
    · have hmade : 0 ≤ epoll.eid := Int.not_lt.1 heid
      rw [if_neg heid, if_neg (not_or.2 ⟨hnfds, heid⟩)]
      by_cases hlarge : (readfds.isSome || writefds.isSome) ∧ FD_SETSIZE < nfds.toNat
      · -- A descriptor is looked up past the end of a set.
        have hnone : watchedFds nfds.toNat readfds writefds epoll = none := if_pos hlarge
        rw [hnone]
        constructor
        · rintro ⟨s, hs, _⟩
          cases hs
        · rintro ⟨hsize, _⟩
          rcases (hsize hpos).2 with hle | ⟨rfl, rfl⟩
          · have hlt := hlarge.2
            omega
          · exact absurd hlarge.1 Bool.false_ne_true
      · have hsize : nfds ≤ FD_SETSIZE ∨ readfds = none ∧ writefds = none := by
          by_cases hle : nfds ≤ FD_SETSIZE
          · exact Or.inl hle
          · have hnot : ¬ (readfds.isSome || writefds.isSome) = true := fun h => hlarge ⟨h, by omega⟩
            rw [Bool.or_eq_true, not_or, Option.not_isSome_iff_eq_none, Option.not_isSome_iff_eq_none] at hnot
            exact Or.inr hnot
        have hwatched : ∃ watched, watchedFds nfds.toNat readfds writefds epoll = some watched := ⟨_, if_neg hlarge⟩
        rcases hwatched with ⟨watched, hwatched⟩
        have hiff := @contract_iff readfds writefds exceptfds _ (nodup_deliveredEvents epoll watched timeout)
        rw [hwatched, Option.map_some, Option.elim_some]
        constructor
        · rintro ⟨s, hs, hcontract⟩
          cases hs
          exact ⟨fun _ => ⟨hmade, hsize⟩, hiff.1 hcontract⟩
        · rintro ⟨_, hevents⟩
          exact ⟨_, rfl, hiff.2 hevents⟩

/-! ## One event -/

theorem registered_one (ev : EpollEvent) (watched : List Nat) :
    ∀ e ∈ (if ev.fd ∈ watched then [ev] else []), e.fd ∈ watched := by
  intro e he
  by_cases hmem : ev.fd ∈ watched
  · rw [if_pos hmem] at he
    rw [List.mem_singleton.1 he]
    exact hmem
  · rw [if_neg hmem] at he
    cases he

theorem once_one (ev : EpollEvent) (watched : List Nat) :
    ((if ev.fd ∈ watched then [ev] else []).map EpollEvent.fd).Nodup := by
  by_cases hmem : ev.fd ∈ watched
  · rw [if_pos hmem]
    exact List.nodup_singleton _
  · rw [if_neg hmem]
    exact List.nodup_nil

/-- A system that has one event. -/
def oneEvent (ev : EpollEvent) : SceNetEpoll where
  eid := 1
  add := fun _ _ _ => 0
  malloc := true
  wait := fun watched _ => if ev.fd ∈ watched then [ev] else []
  registered := fun watched _ => registered_one ev watched
  once := fun watched _ => once_one ev watched

/-- A socket that is ready for both is counted once, and one that hangs up comes back in a set it was not put into. -/
theorem vita_select_miscounts :
    (vita_select 4 (some {3}) (some {3}) none none (oneEvent { fd := 3, epollin := true, epollout := true }) =
        some ⟨1, some {3}, some {3}, none⟩ ∧
      ∀ events, ¬ SelectContract (some {3}) (some {3}) none events ⟨1, some {3}, some {3}, none⟩) ∧
    vita_select 4 (some ∅) (some {3}) none none (oneEvent { fd := 3, epollhup := true }) =
        some ⟨1, some {3}, some ∅, none⟩ ∧
      ∀ events, ¬ SelectContract (some ∅) (some {3}) none events ⟨1, some {3}, some ∅, none⟩ := by
  refine ⟨⟨by decide +kernel, fun events h => ?_⟩, by decide +kernel, fun events h => ?_⟩
  · exact absurd h.count (by decide)
  · exact absurd h.read_subset (by decide)

end PsyBnc
