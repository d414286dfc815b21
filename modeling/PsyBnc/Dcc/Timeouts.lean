import PsyBnc.Dcc.Pending

/-!
# When a call of `checkdcctimeouts` does what it is for

The destructor of a killed socket takes out the entry that it finds.  It finds none unless another entry
has the number of the socket, and exactly then a call frees the requests whose delay is over, and no other
entry.  An entry that is freed by a destructor is noted in front of the request, so the record of what was
freed tells the two apart.
-/

namespace PsyBnc

open CLib

/-! ## Killing a socket -/

section Kill

variable {m m' : DccMemory} {lists : List (List (Nat × DccEntry))}

/-- What killing a socket without its destructor, or a task, leaves as it was. -/
structure SocketsGo (m m' : DccMemory) : Prop where
  cells : m'.cells = m.cells
  usernode : m'.usernode = m.usernode
  sockets : m'.sockets ⊆ m.sockets
  freed : m'.freed = m.freed

theorem SocketsGo.refl (m : DccMemory) : SocketsGo m m := ⟨rfl, rfl, fun _ hs => hs, rfl⟩

theorem SocketsGo.trans {m'' : DccMemory} (h : SocketsGo m m') (h' : SocketsGo m' m'') :
    SocketsGo m m'' :=
  ⟨h'.cells.trans h.cells, h'.usernode.trans h.usernode, fun _ hs => h.sockets (h'.sockets hs),
    h'.freed.trans h.freed⟩

theorem Chained.socketsGo (h : Chained m lists) (hgo : SocketsGo m m') : Chained m' lists :=
  h.sockets hgo.cells hgo.usernode

theorem socketsGo_close (m : DccMemory) (syssock : Int) : SocketsGo m (m.close syssock) := by
  rw [DccMemory.close]
  split
  · exact SocketsGo.refl m
  · split
    · exact SocketsGo.refl m
    · exact ⟨rfl, rfl, List.eraseP_subset, rfl⟩

theorem socketsGo_terminatetask (m : DccMemory) (pid : Int) : SocketsGo m (m.terminatetask pid) := by
  rw [DccMemory.terminatetask]
  split
  · exact SocketsGo.refl m
  split
  · exact SocketsGo.refl m
  split
  · exact SocketsGo.refl m
  · refine SocketsGo.trans ?_ (socketsGo_close _ _)
    refine SocketsGo.trans ?_ (socketsGo_close _ _)
    refine SocketsGo.trans ?_ (socketsGo_close _ _)
    exact ⟨rfl, rfl, fun _ hs => hs, rfl⟩

/-- A destructor's search for its entry ends, with an entry of a user or with none. -/
theorem Chained.getpsocketpdcc (h : Chained m lists) (usern : Nat) (syssock : Int) :
    ∃ r, m.getpsocketpdcc usern syssock = some r ∧
      ∀ b, r.1 = some b → ∃ x, (b, x) ∈ lists.flatten ∧ x.sock = syssock := by
  have hnone : ∀ fuel, ∃ r, m.cells.walk (fun pdcc => pdcc.sock == syssock) fuel none none = some r ∧
      ∀ b, r.1 = some b → ∃ x, (b, x) ∈ lists.flatten ∧ x.sock = syssock := by
    intro fuel
    refine ⟨(none, none), ?_, fun b hb => by cases hb⟩
    cases fuel <;> rfl
  rw [DccMemory.getpsocketpdcc, DccMemory.pdccOf]
  cases m.nodeOf usern with
  | none => exact hnone _
  | some i =>
      rw [Option.bind_some]
      cases hun : m.usernode[i]? with
      | none => exact hnone _
      | some un =>
          have hi : i < lists.length := by
            rw [h.length]
            exact (List.getElem?_eq_some_iff.1 hun).1
          have hl := List.getElem?_eq_getElem hi
          have hseg := h.chain i un _ hun hl
          rcases Cells.walk_ends (fun pdcc : DccEntry => pdcc.sock == syssock) hseg
            (hseg.length_le (h.nodup_at hl)) none with ⟨r, hr, hmem⟩
          refine ⟨r, hr, fun b hb => ?_⟩
          rcases hmem b hb with ⟨x, hx, hsock⟩
          exact ⟨x, List.mem_flatten_of_mem (List.getElem_mem hi) hx, beq_iff_eq.1 hsock⟩

/-- A destructor that finds an entry is that of a socket with the number of the entry. -/
theorem Chained.victim_mem (h : Chained m lists) {syssock : Int} {b : Nat}
    (hb : m.victim syssock = some b) :
    (∃ x, (b, x) ∈ lists.flatten ∧ x.sock = syssock) ∧ ∃ s ∈ m.sockets, s.syssock = syssock := by
  rcases Option.bind_eq_some_iff.1 hb with ⟨s, hfind, hs⟩
  refine ⟨?_, s, List.mem_of_find?_eq_some hfind, by simpa using List.find?_some hfind⟩
  split at hs
  · cases hs
  · rcases Option.bind_eq_some_iff.1 hs with ⟨d, _, hd⟩
    split at hd
    · cases hd
    · rcases h.getpsocketpdcc d.2 syssock with ⟨r, hr, hmem⟩
      rw [hr, Option.bind_some] at hd
      exact hmem b hd

theorem freed_relink {i : Nat} {prev next : Option Nat} (h : m.relink i prev next = some m') :
    m'.freed = m.freed := by
  cases prev with
  | none =>
      cases h
      rfl
  | some b =>
      rcases Option.map_eq_some_iff.1 h with ⟨cell, _, rfl⟩
      rfl

theorem freed_unlink {i : Nat} {x : DccEntry} {prev next : Option Nat}
    (h : m.unlink i x next prev = some m') : m'.freed = m.freed := by
  rcases Option.map_eq_some_iff.1 h with ⟨m₁, h₁, rfl⟩
  exact (socketsGo_terminatetask m₁ x.pid).freed.trans (freed_relink h₁)

/-- A destructor frees the entry that it finds, and no other. -/
theorem freed_removepdcc {usern : Nat} {syssock : Int} (h : m.removepdcc usern syssock = some m') :
    ∃ ys, m'.freed = m.freed ++ ys ∧
      ys.map Prod.fst = ((m.getpsocketpdcc usern syssock).bind Prod.fst).toList := by
  rw [DccMemory.removepdcc] at h
  split at h
  · cases h
  · next epdcc hget =>
    cases h
    refine ⟨[], (List.append_nil _).symm, ?_⟩
    rw [hget]
    rfl
  · next a epdcc hget =>
    split at h
    · next pdcc next i hcell hnode =>
      rcases Option.map_eq_some_iff.1 h with ⟨m₁, h₁, rfl⟩
      refine ⟨[(a, pdcc)], ?_, ?_⟩
      · have hkill : ∀ {p : Prop} [Decidable p],
            (if p then (m₁.terminatetask pdcc.pid).close pdcc.sock else m₁).freed = m₁.freed := by
          intro p _
          split
          · exact (socketsGo_close _ _).freed.trans (socketsGo_terminatetask _ _).freed
          · rfl
        rw [DccMemory.free, hkill, freed_relink h₁]
      · rw [hget]
        rfl
    · cases h

theorem freed_runCloser {closer : Closer} {usern : Nat} {syssock : Int}
    (h : m.runCloser closer usern syssock = some m') :
    ∃ ys, m'.freed = m.freed ++ ys ∧ ys.map Prod.fst =
      (if closer = .other then none else (m.getpsocketpdcc usern syssock).bind Prod.fst).toList := by
  cases closer with
  | other =>
      cases h
      exact ⟨[], (List.append_nil _).symm, rfl⟩
  | pdccclosed => exact freed_removepdcc h
  | pdccfclosed => exact freed_removepdcc h
  | pdccfileclosed =>
      rw [DccMemory.runCloser] at h
      split at h
      · cases h
      · next prev hget =>
        cases h
        refine ⟨[], (List.append_nil _).symm, ?_⟩
        simp only [hget]
        rfl
      · split at h
        · cases h
        · split at h
          · exact freed_removepdcc h
          · cases h

theorem freed_killsocket {syssock : Int} (h : m.killsocket syssock = some m') :
    ∃ ys, m'.freed = m.freed ++ ys ∧ ys.map Prod.fst = (m.victim syssock).toList := by
  rw [DccMemory.killsocket] at h
  rw [DccMemory.victim]
  cases hfind : m.sockets.find? fun s => s.syssock == syssock with
  | none =>
      rw [hfind] at h
      cases h
      exact ⟨[], (List.append_nil _).symm, rfl⟩
  | some s =>
      simp only [hfind] at h
      rw [Option.bind_some]
      by_cases hlisten : s.listener = true
      · rw [if_pos hlisten] at h ⊢
        cases h
        exact ⟨[], (List.append_nil _).symm, rfl⟩
      · rw [if_neg hlisten] at h ⊢
        cases hdestructor : s.destructor with
        | none =>
            rw [hdestructor] at h
            cases h
            exact ⟨[], (socketsGo_close m syssock).freed.trans (List.append_nil _).symm, rfl⟩
        | some d =>
            simp only [hdestructor] at h
            rcases Option.map_eq_some_iff.1 h with ⟨m₁, h₁, rfl⟩
            rw [(socketsGo_close m₁ syssock).freed]
            exact freed_runCloser h₁

/-- The entries are not changed when the destructor finds none. -/
theorem Chained.killsocket (h : Chained m lists) {syssock : Int} (hno : m.victim syssock = none) :
    ∃ m', m.killsocket syssock = some m' ∧ SocketsGo m m' := by
  rw [DccMemory.killsocket]
  cases hfind : m.sockets.find? fun s => s.syssock == syssock with
  | none =>
      exact ⟨m, rfl, SocketsGo.refl m⟩
  | some s =>
      simp only
      by_cases hlisten : s.listener = true
      · rw [if_pos hlisten]
        exact ⟨m, rfl, SocketsGo.refl m⟩
      · rw [if_neg hlisten]
        simp only [DccMemory.victim, hfind, Option.bind_some, if_neg hlisten] at hno
        cases hdestructor : s.destructor with
        | none =>
            exact ⟨_, rfl, socketsGo_close m syssock⟩
        | some d =>
            rcases d with ⟨closer, param⟩
            rw [hdestructor, Option.bind_some] at hno
            refine ⟨_, ?_, socketsGo_close m syssock⟩
            have hrun : m.runCloser closer param syssock = some m := by
              rcases h.getpsocketpdcc param syssock with ⟨⟨found, prev⟩, hget, _⟩
              have hnone : closer ≠ .other → found = none := by
                intro hcloser
                rw [if_neg hcloser, hget] at hno
                exact hno
              cases closer with
              | other => rfl
              | pdccclosed =>
                  cases hnone (by decide)
                  rw [DccMemory.runCloser, DccMemory.removepdcc, hget]
              | pdccfclosed =>
                  cases hnone (by decide)
                  rw [DccMemory.runCloser, DccMemory.removepdcc, hget]
              | pdccfileclosed =>
                  cases hnone (by decide)
                  rw [DccMemory.runCloser, hget]
            simp only
            rw [hrun, Option.map_some]

end Kill

/-! ## Outcomes -/

section Outcomes

variable {m : DccMemory} {r : Option DccMemory} {ended ended' : List (Nat × DccEntry)}
  {lists lists' : List (List (Nat × DccEntry))}

/-- With `ok` the call returns, `lists` is what is left and `ended` what it frees.  Without it something
else is freed, which no later call can take back. -/
structure Outcome (ok : Prop) (m : DccMemory) (r : Option DccMemory) (ended : List (Nat × DccEntry))
    (lists : List (List (Nat × DccEntry))) : Prop where
  good : ok → ∃ m', r = some m' ∧ Chained m' lists ∧ m'.sockets ⊆ m.sockets ∧ m'.freed = m.freed ++ ended
  bad : ¬ ok → ∀ m', r = some m' → ∀ freed, m'.freed <+: freed → ¬ m.freed ++ ended <+: freed

theorem Outcome.congr {ok ok' : Prop} (h : Outcome ok m r ended lists) (hsame : ok' ↔ ok) :
    Outcome ok' m r ended lists :=
  ⟨fun hok => h.good (hsame.1 hok), fun hno => h.bad fun hok => hno (hsame.2 hok)⟩

theorem Outcome.of_store {ok : Prop} {a : Nat} {cell : Option (DccEntry × Option Nat)}
    (h : Outcome ok (m.store a cell) r ended lists) : Outcome ok m r ended lists := ⟨h.good, h.bad⟩

/-- One call after the other. -/
theorem Outcome.bind {ok : Prop} (h : Outcome ok m r ended lists) {f : DccMemory → Option DccMemory}
    (hgrows : ∀ m₁ m', f m₁ = some m' → m₁.freed <+: m'.freed) {ok' : DccMemory → Prop}
    (hnext : ∀ m₁, Chained m₁ lists → Outcome (ok' m₁) m₁ (f m₁) ended' lists') :
    Outcome (ok ∧ ∀ m₁, r = some m₁ → ok' m₁) m (r.bind f) (ended ++ ended') lists' where
  good := by
    rintro ⟨hok, hok'⟩
    rcases h.good hok with ⟨m₁, h₁, hchained, hsockets, hfreed⟩
    rcases (hnext m₁ hchained).good (hok' m₁ h₁) with ⟨m', h', hchained', hsockets', hfreed'⟩
    refine ⟨m', ?_, hchained', fun _ hs => hsockets (hsockets' hs), ?_⟩
    · rw [h₁, Option.bind_some, h']
    · rw [hfreed', hfreed, List.append_assoc]
  bad := by
    intro hno m' h' freed hlater hall
    rcases Option.bind_eq_some_iff.1 h' with ⟨m₁, h₁, hf⟩
    rw [← List.append_assoc] at hall
    by_cases hok : ok
    · rcases h.good hok with ⟨m₂, h₂, hchained, _, hfreed⟩
      cases h₁.symm.trans h₂
      have hok' : ¬ ok' m₁ := by
        intro hok'
        apply hno
        refine ⟨hok, fun m₂ h₂ => ?_⟩
        cases h₁.symm.trans h₂
        exact hok'
      rw [← hfreed] at hall
      exact (hnext m₁ hchained).bad hok' m' hf freed hlater hall
    · apply h.bad hok m₁ h₁ freed ((hgrows m₁ m' hf).trans hlater)
      exact (List.prefix_append _ _).trans hall

end Outcomes

/-! ## The loop -/

section Loop

variable {m m' : DccMemory} {lists : List (List (Nat × DccEntry))} {i a : Nat}
  {l l₁ l₂ : List (Nat × DccEntry)} {x y : DccEntry} {next prev : Option Nat}

/-- What an ended request frees. -/
theorem freed_expireEntry (h : m.expireEntry i a x next prev = some m') :
    ∃ m₁ ys, m.unlink i x next prev = some m₁ ∧ m'.freed = m₁.freed ++ ys ++ [(a, x)] ∧
      ys.map Prod.fst = (m₁.victim x.sock).toList := by
  rcases Option.bind_eq_some_iff.1 h with ⟨m₁, h₁, hrest⟩
  rcases Option.map_eq_some_iff.1 hrest with ⟨m₂, h₂, rfl⟩
  rcases freed_killsocket h₂ with ⟨ys, hys, hfst⟩
  exact ⟨m₁, ys, h₁, by rw [DccMemory.free, hys], hfst⟩

/-- The request is unlinked, and freed behind the entry that its destructor finds. -/
theorem Chained.expireEntry (h : Chained m lists) (hl : lists[i]? = some (l₁ ++ (a, x) :: l₂))
    (hcell : m.cells.cellAt a = some (x, next)) :
    Outcome (∀ m₁, m.unlink i x next (Cells.lastOf none l₁) = some m₁ → m₁.victim x.sock = none) m
      (m.expireEntry i a x next (Cells.lastOf none l₁)) [(a, x)] (lists.set i (l₁ ++ l₂)) := by
  rcases h.relink hl hcell with ⟨m₀, hrelink, h₀, hsockets₀, hfreed₀⟩
  have hgo := socketsGo_terminatetask m₀ x.pid
  have h₁ := h₀.socketsGo hgo
  have hfreed := hgo.freed.trans hfreed₀
  have hunlink : m.unlink i x next (Cells.lastOf none l₁) = some (m₀.terminatetask x.pid) := by
    rw [DccMemory.unlink, hrelink, Option.map_some]
  have hfresh : a ∉ (lists.set i (l₁ ++ l₂)).flatten.map Prod.fst := by
    have hall := ((flatten_set_perm hl).map Prod.fst).nodup_iff.1 h.nodup
    rw [List.map_cons, List.nodup_cons] at hall
    exact hall.1
  constructor
  · intro hno
    rcases h₁.killsocket (hno _ hunlink) with ⟨m₂, hkill, hgo₂⟩
    refine ⟨m₂.free a x, ?_, (h₁.socketsGo hgo₂).free hfresh x, ?_, ?_⟩
    · rw [DccMemory.expireEntry, hunlink, Option.bind_some, hkill, Option.map_some]
    · rw [← hsockets₀]
      exact fun _ hs => hgo.sockets (hgo₂.sockets hs)
    · rw [DccMemory.free, hgo₂.freed, hfreed]
  · intro hvictim m' h' freed hlater hall
    rcases freed_expireEntry h' with ⟨m₁, ys, hm₁, hm', hys⟩
    cases hunlink.symm.trans hm₁
    cases hfound : (m₀.terminatetask x.pid).victim x.sock with
    | none =>
        apply hvictim
        intro m₂ hm₂
        cases hunlink.symm.trans hm₂
        exact hfound
    | some b =>
        -- another entry is noted where the request should be
        rw [hfound] at hys
        rcases List.map_eq_singleton_iff.1 hys with ⟨z, rfl, hz⟩
        have hfirst : m.freed ++ [z] <+: freed := by
          apply List.IsPrefix.trans _ hlater
          rw [hm', hfreed]
          exact List.prefix_append _ _
        have hsame : m.freed ++ [z] = m.freed ++ [(a, x)] :=
          (List.prefix_of_prefix_length_le hfirst hall (by simp)).eq_of_length (by simp)
        rw [List.append_cancel_left_eq, List.singleton_inj] at hsame
        rcases (h₁.victim_mem hfound).1 with ⟨w, hw, _⟩
        have hmem : b ∈ (lists.set i (l₁ ++ l₂)).flatten.map Prod.fst := List.mem_map_of_mem hw
        rw [← hz, hsame] at hmem
        exact hfresh hmem

section Ticks

theorem tickAll_cons (a : Nat) (x : DccEntry) (l : List (Nat × DccEntry)) :
    tickAll ((a, x) :: l) = (x.tick.map (Prod.mk a)).toList ++ tickAll l := by
  rw [tickAll, tickAll, List.filterMap_cons]
  cases x.tick with
  | none => rfl
  | some y => rfl

theorem endedAll_append (l l' : List (Nat × DccEntry)) :
    endedAll (l ++ l') = endedAll l ++ endedAll l' := by
  simp only [endedAll, List.filter_append, List.map_append]

theorem endedAll_kept (a : Nat) (l : List (Nat × DccEntry)) (htick : x.tick = some y) :
    endedAll ((a, x) :: l) = endedAll l := by
  rw [endedAll, List.filter_cons_of_neg]
  · rfl
  · simp [htick]

theorem endedAll_over (a : Nat) (l : List (Nat × DccEntry)) (htick : x.tick = none) :
    endedAll ((a, x) :: l) = [(a, x.decrement)] ++ endedAll l := by
  rw [endedAll, List.filter_cons_of_pos]
  · rfl
  · simp [htick]

/-- An entry that is already as it is to be. -/
theorem store_same (hcell : m.cells.cellAt a = some (x, next)) : m.store a (some (x, next)) = m := by
  have hget : m.cells[a]? = some (some (x, next)) := Option.join_eq_some_iff.1 hcell
  have hset : m.cells.set a (some (x, next)) = m.cells := by
    rcases List.getElem?_eq_some_iff.1 hget with ⟨ha, hat⟩
    rw [← hat, List.set_getElem_self]
  rw [DccMemory.store, hset]

/-- What `tick` says of an entry, as the loop tests it. -/
theorem tick_cases (x : DccEntry) :
    (¬ (x.type.isRequest = true ∧ 0 < x.delay) ∧ x.tick = some x) ∨
      ((x.type.isRequest = true ∧ 0 < x.delay) ∧ x.decrement.delay ≠ 0 ∧ x.tick = some x.decrement) ∨
        ((x.type.isRequest = true ∧ 0 < x.delay) ∧ x.decrement.delay = 0 ∧ x.tick = none) := by
  have hdelay : x.decrement.delay = x.delay - 1 := rfl
  rw [DccEntry.tick]
  by_cases hwait : x.type.isRequest = true ∧ 0 < x.delay
  · rw [if_pos hwait]
    by_cases hone : x.delay = 1
    · right; right
      refine ⟨hwait, ?_, if_pos hone⟩
      rw [hdelay, hone]
      rfl
    · right; left
      refine ⟨hwait, ?_, if_neg hone⟩
      rw [hdelay]
      omega
  · left
    exact ⟨hwait, if_neg hwait⟩

/-- A round at an entry that stays. -/
theorem timeoutLoop_kept (hcell : m.cells.cellAt a = some (x, next)) (htick : x.tick = some y) (fuel : Nat) :
    DccMemory.timeoutLoop i (fuel + 1) (some a) prev m =
        DccMemory.timeoutLoop i fuel next (some a) (m.store a (some (y, next))) ∧
      DccMemory.spares i (fuel + 1) (some a) prev m =
        DccMemory.spares i fuel next (some a) (m.store a (some (y, next))) := by
  rw [DccMemory.timeoutLoop, DccMemory.spares, hcell]
  simp only
  rcases tick_cases x with ⟨hwait, hsame⟩ | ⟨hwait, hone, hsame⟩ | ⟨hwait, hone, hsame⟩
  · cases htick.symm.trans hsame
    rw [if_neg hwait, if_neg hwait, store_same hcell]
    exact ⟨rfl, rfl⟩
  · cases htick.symm.trans hsame
    rw [if_pos hwait, if_pos hwait, if_neg hone, if_neg hone]
    exact ⟨rfl, rfl⟩
  · cases htick.symm.trans hsame

/-- A round at a request whose delay is over. -/
theorem timeoutLoop_over (hcell : m.cells.cellAt a = some (x, next)) (htick : x.tick = none) (fuel : Nat) :
    DccMemory.timeoutLoop i (fuel + 1) (some a) prev m =
        ((m.store a (some (x.decrement, next))).expireEntry i a x.decrement next prev).bind
          (DccMemory.timeoutLoop i fuel next prev) ∧
      (DccMemory.spares i (fuel + 1) (some a) prev m = true ↔
        (∀ m₁, (m.store a (some (x.decrement, next))).unlink i x.decrement next prev = some m₁ →
          m₁.victim x.decrement.sock = none) ∧
        ∀ m₁, (m.store a (some (x.decrement, next))).expireEntry i a x.decrement next prev = some m₁ →
          DccMemory.spares i fuel next prev m₁ = true) := by
  rw [DccMemory.timeoutLoop, DccMemory.spares, hcell]
  simp only
  rcases tick_cases x with ⟨hwait, hsame⟩ | ⟨hwait, hone, hsame⟩ | ⟨hwait, hone, hsame⟩
  · cases htick.symm.trans hsame
  · cases htick.symm.trans hsame
  · rw [if_pos hwait, if_pos hwait, if_pos hone, if_pos hone, Bool.and_eq_true, Option.all_eq_true,
      Option.all_eq_true]
    refine ⟨rfl, ?_⟩
    simp only [beq_iff_eq]

end Ticks

/-- Nothing that was freed is forgotten. -/
theorem timeoutLoop_grows {fuel : Nat} {p : Option Nat}
    (h : DccMemory.timeoutLoop i fuel p prev m = some m') : m.freed <+: m'.freed := by
  induction fuel generalizing p prev m with
  | zero =>
      cases p with
      | none =>
          cases h
          exact List.prefix_refl _
      | some a => cases h
  | succ fuel ih =>
      cases p with
      | none =>
          cases h
          exact List.prefix_refl _
      | some a =>
          cases hcell : m.cells.cellAt a with
          | none =>
              rw [DccMemory.timeoutLoop, hcell] at h
              cases h
          | some cell =>
              rcases cell with ⟨x, next⟩
              cases htick : x.tick with
              | some y =>
                  rw [(timeoutLoop_kept hcell htick fuel).1] at h
                  exact ih (m := m.store a (some (y, next))) h
              | none =>
                  rw [(timeoutLoop_over hcell htick fuel).1] at h
                  rcases Option.bind_eq_some_iff.1 h with ⟨m₁, h₁, hrest⟩
                  rcases freed_expireEntry h₁ with ⟨m₂, ys, hunlink, hfreed, _⟩
                  have hkept : m₂.freed = (m.store a (some (x.decrement, next))).freed :=
                    freed_unlink hunlink
                  have hstore : (m.store a (some (x.decrement, next))).freed = m.freed := rfl
                  apply List.IsPrefix.trans _ (ih hrest)
                  rw [hfreed, hkept, hstore, List.append_assoc]
                  exact List.prefix_append _ _

/-- An entry that stays is behind the walk from then on. -/
theorem Chained.kept (h : Chained m lists) (hl : lists[i]? = some (l₁ ++ (a, x) :: l₂))
    (hcell : m.cells.cellAt a = some (x, next)) (y : DccEntry) :
    Chained (m.store a (some (y, next))) (lists.set i (l₁ ++ (a, y) :: l₂)) ∧
      (lists.set i (l₁ ++ (a, y) :: l₂))[i]? = some (l₁ ++ [(a, y)] ++ l₂) ∧
        (m.store a (some (y, next))).cells.Seg next l₂ none := by
  have h₁ := h.update hl hcell y
  have hl₁ : (lists.set i (l₁ ++ (a, y) :: l₂))[i]? = some (l₁ ++ (a, y) :: l₂) :=
    List.getElem?_set_self (List.getElem?_eq_some_iff.1 hl).1
  rcases h₁.node hl₁ with ⟨un, _, hseg⟩
  rcases hseg.cell with ⟨next', _, hcell', hq⟩
  cases Option.some.inj ((Cells.cellAt_set_self hcell).symm.trans hcell')
  refine ⟨h₁, ?_, hq⟩
  rw [hl₁, List.append_assoc, List.singleton_append]

/-- What comes behind an entry that is gone is where it was. -/
theorem Chained.gone (h : Chained m lists) (hl : lists[i]? = some (l₁ ++ l₂))
    (hrest : m'.cells.Seg next l₂ none) : m.cells.Seg next l₂ none := by
  rcases h.node hl with ⟨un, _, hseg⟩
  rcases hseg.split with ⟨q, _, hq⟩
  have hnext : q = next := hq.eq_head.trans hrest.eq_head.symm
  rw [← hnext]
  exact hq

/-- The walk over the rest of a list does to every entry what `tick` says. -/
theorem Chained.timeoutLoop (h : Chained m lists) (hl : lists[i]? = some (l₁ ++ l₂)) {p : Option Nat}
    (hp : m.cells.Seg p l₂ none) {fuel : Nat} (hfuel : l₂.length ≤ fuel) :
    Outcome (DccMemory.spares i fuel p (Cells.lastOf none l₁) m = true) m
      (DccMemory.timeoutLoop i fuel p (Cells.lastOf none l₁) m) (endedAll l₂)
      (lists.set i (l₁ ++ tickAll l₂)) := by
  induction l₂ generalizing m lists l₁ p fuel with
  | nil =>
      cases hp
      rcases List.getElem?_eq_some_iff.1 hl with ⟨hi, hget⟩
      have hset : lists.set i (l₁ ++ tickAll []) = lists := by
        have htick : l₁ ++ tickAll [] = lists[i] := hget.symm
        rw [htick, List.set_getElem_self]
      have hloop : DccMemory.timeoutLoop i fuel none (Cells.lastOf none l₁) m = some m := by
        cases fuel <;> rfl
      have hspares : DccMemory.spares i fuel none (Cells.lastOf none l₁) m = true := by
        cases fuel <;> rfl
      rw [hset]
      exact ⟨fun _ => ⟨m, hloop, h, fun _ hs => hs, (List.append_nil _).symm⟩,
        fun hno => absurd hspares hno⟩
  | cons y l₂ ih =>
      rcases y with ⟨a, x⟩
      rcases hp with ⟨rfl, next, hcell, hrest⟩
      cases fuel with
      | zero =>
          cases hfuel
      | succ fuel =>
          have hfuel' : l₂.length ≤ fuel := Nat.le_of_succ_le_succ hfuel
          rcases List.getElem?_eq_some_iff.1 hl with ⟨hi, _⟩
          rw [tickAll_cons]
          cases htick : x.tick with
          | some y =>
              -- The entry stays, with one second less, and becomes the predecessor.
              have hround : DccMemory.timeoutLoop i (fuel + 1) (some a) (Cells.lastOf none l₁) m = _ ∧ _ :=
                timeoutLoop_kept hcell htick fuel
              rcases hround with ⟨hloop, hspares⟩
              rw [hloop, hspares, endedAll_kept a l₂ htick]
              rcases h.kept hl hcell y with ⟨h₁, hl₁, hq⟩
              have hout := ih h₁ hl₁ hq hfuel'
              rw [List.set_set, List.append_assoc, Cells.lastOf_concat] at hout
              exact hout.of_store
          | none =>
              -- Its time is over: it is taken out of the list and freed.
              have hround : DccMemory.timeoutLoop i (fuel + 1) (some a) (Cells.lastOf none l₁) m = _ ∧ _ :=
                timeoutLoop_over hcell htick fuel
              rcases hround with ⟨hloop, hspares⟩
              rw [hloop, endedAll_over a l₂ htick]
              have h₁ := h.update hl hcell x.decrement
              have hl₁ : (lists.set i (l₁ ++ (a, x.decrement) :: l₂))[i]? =
                  some (l₁ ++ (a, x.decrement) :: l₂) := List.getElem?_set_self hi
              have hexpire := h₁.expireEntry hl₁ (Cells.cellAt_set_self hcell)
              rw [List.set_set] at hexpire
              apply Outcome.congr _ hspares
              apply Outcome.of_store
              apply hexpire.bind (f := DccMemory.timeoutLoop i fuel next (Cells.lastOf none l₁))
                (fun _ _ => timeoutLoop_grows)
              intro m₂ h₂
              -- what comes next has the same predecessor
              have hl₂ : (lists.set i (l₁ ++ l₂))[i]? = some (l₁ ++ l₂) := List.getElem?_set_self hi
              have hout := ih h₂ hl₂ (h₂.gone hl₂ hrest) hfuel'
              rw [List.set_set] at hout
              exact hout

theorem Chained.checkUser (h : Chained m lists) (hl : lists[i]? = some l) :
    Outcome (m.SparesUser i) m (m.checkUser i) (endedAll l) (lists.set i (tickAll l)) := by
  rcases h.node hl with ⟨un, hun, hseg⟩
  have hfuel := hseg.length_le (h.nodup_at hl)
  rw [DccMemory.checkUser, DccMemory.SparesUser, hun, Option.bind_some]
  have hl' : lists[i]? = some ([] ++ l) := hl
  exact h.timeoutLoop hl' hseg hfuel

theorem checkUsers_grows {is : List Nat} (h : is.foldlM DccMemory.checkUser m = some m') :
    m.freed <+: m'.freed := by
  induction is generalizing m with
  | nil =>
      cases h
      exact List.prefix_refl _
  | cons i is ih =>
      rw [List.foldlM_cons] at h
      rcases Option.bind_eq_some_iff.1 h with ⟨m₁, h₁, hrest⟩
      have hfirst : m.freed <+: m₁.freed := timeoutLoop_grows h₁
      exact hfirst.trans (ih hrest)

/-- The users of `before` are done, those of `after` are as they were. -/
theorem Chained.checkUsers {before after : List (List (Nat × DccEntry))}
    (h : Chained m (before ++ after)) :
    Outcome (StepsMeet DccMemory.checkUser DccMemory.SparesUser m
        (List.range' before.length after.length)) m
      ((List.range' before.length after.length).foldlM DccMemory.checkUser m)
      (endedAll after.flatten) (before ++ after.map tickAll) := by
  induction after generalizing m before with
  | nil =>
      exact ⟨fun _ => ⟨m, rfl, h, fun _ hs => hs, (List.append_nil _).symm⟩,
        fun hno => absurd trivial hno⟩
  | cons l after ih =>
      have hl : (before ++ l :: after)[before.length]? = some l := by simp
      have hset : (before ++ l :: after).set before.length (tickAll l) =
          (before ++ [tickAll l]) ++ after := by
        rw [List.set_append_right _ _ (le_refl _), Nat.sub_self, List.set_cons_zero, List.append_assoc,
          List.singleton_append]
      have hcheck := h.checkUser hl
      rw [hset] at hcheck
      rw [List.length_cons, List.range'_succ, List.foldlM_cons, List.flatten_cons, endedAll_append,
        List.map_cons]
      have hout := hcheck.bind (fun _ _ => checkUsers_grows) fun m₁ h₁ => ih h₁
      rw [List.append_assoc, List.singleton_append, List.length_append, List.length_singleton] at hout
      exact hout

end Loop

/-! ## Sockets that belong to one entry -/

section Own

variable {m m' : DccMemory} {lists lists' : List (List (Nat × DccEntry))} {i a : Nat}
  {l l₁ l₂ : List (Nat × DccEntry)} {x y : DccEntry} {next : Option Nat}

/-- No two entries have the number of one live socket. -/
def OwnSockets (m : DccMemory) (lists : List (List (Nat × DccEntry))) : Prop :=
  (lists.flatten.map fun y => y.2.sock).Pairwise fun n k => n = k → ∀ s ∈ m.sockets, s.syssock ≠ n

theorem OwnSockets.less (h : OwnSockets m lists) (hsockets : m'.sockets ⊆ m.sockets)
    (hsub : (lists'.flatten.map fun y => y.2.sock).Sublist (lists.flatten.map fun y => y.2.sock)) :
    OwnSockets m' lists' :=
  (h.sublist hsub).imp fun hne heq s hs => hne heq s (hsockets hs)

theorem tick_sock (htick : x.tick = some y) : y.sock = x.sock := by
  rcases tick_cases x with ⟨_, hsame⟩ | ⟨_, _, hsame⟩ | ⟨_, _, hsame⟩
  · cases htick.symm.trans hsame
    rfl
  · cases htick.symm.trans hsame
    rfl
  · cases htick.symm.trans hsame

theorem tickAll_sock (l : List (Nat × DccEntry)) :
    ((tickAll l).map fun y => y.2.sock).Sublist (l.map fun y => y.2.sock) := by
  induction l with
  | nil => exact List.Sublist.refl _
  | cons z l ih =>
      rcases z with ⟨a, x⟩
      rw [tickAll_cons]
      cases htick : x.tick with
      | none => exact ih.cons _
      | some y =>
          have hsock := tick_sock htick
          simp only [Option.map_some, Option.toList_some, List.singleton_append, List.map_cons, hsock]
          exact ih.cons_cons _

/-- The destructor of an ended request finds no entry then. -/
theorem OwnSockets.victim_none (hown : OwnSockets m lists) (h : Chained m lists)
    (hl : lists[i]? = some (l₁ ++ (a, x) :: l₂)) (hcell : m.cells.cellAt a = some (x, next)) {m₁ : DccMemory}
    (h₁ : m.unlink i x next (Cells.lastOf none l₁) = some m₁) : m₁.victim x.sock = none := by
  rcases h.relink hl hcell with ⟨m₀, hrelink, h₀, hsockets₀, _⟩
  have hgo := socketsGo_terminatetask m₀ x.pid
  rw [DccMemory.unlink, hrelink, Option.map_some, Option.some.injEq] at h₁
  subst h₁
  cases hfound : (m₀.terminatetask x.pid).victim x.sock with
  | none => rfl
  | some b =>
      rcases (h₀.socketsGo hgo).victim_mem hfound with ⟨⟨w, hw, hsame⟩, s, hs, hlive⟩
      have hall := ((flatten_set_perm hl).map fun y => y.2.sock).pairwise_iff
        (fun {n k} (hne : n = k → ∀ s ∈ m.sockets, s.syssock ≠ n) heq => heq ▸ hne heq.symm) |>.1 hown
      rw [List.map_cons, List.pairwise_cons] at hall
      have hsock := hall.1 _ (List.mem_map_of_mem hw) hsame.symm
      exact absurd hlive (hsock s (hsockets₀ ▸ hgo.sockets hs))

theorem OwnSockets.timeoutLoop (hown : OwnSockets m lists) (h : Chained m lists)
    (hl : lists[i]? = some (l₁ ++ l₂)) {p : Option Nat} (hp : m.cells.Seg p l₂ none) (fuel : Nat) :
    DccMemory.spares i fuel p (Cells.lastOf none l₁) m = true := by
  induction l₂ generalizing m lists l₁ p fuel with
  | nil =>
      cases hp
      cases fuel <;> rfl
  | cons z l₂ ih =>
      rcases z with ⟨a, x⟩
      rcases hp with ⟨rfl, next, hcell, hrest⟩
      cases fuel with
      | zero => rfl
      | succ fuel =>
          have hstored : ∀ y : DccEntry, y.sock = x.sock →
              OwnSockets (m.store a (some (y, next))) (lists.set i (l₁ ++ (a, y) :: l₂)) := by
            intro y hsock
            apply hown.less (fun _ hs => hs)
            apply flatten_set_sublist hl
            simp [hsock]
          cases htick : x.tick with
          | some y =>
              rw [(timeoutLoop_kept hcell htick fuel).2]
              rcases h.kept hl hcell y with ⟨h₁, hl₁, hq⟩
              have hend := ih (hstored y (tick_sock htick)) h₁ hl₁ hq fuel
              rw [Cells.lastOf_concat] at hend
              exact hend
          | none =>
              rw [(timeoutLoop_over hcell htick fuel).2]
              rcases h.kept hl hcell x.decrement with ⟨h₁, hl₁, _⟩
              have hown₁ := hstored x.decrement rfl
              rw [List.append_assoc, List.singleton_append] at hl₁
              have hcell₁ := Cells.cellAt_set_self (v := some (x.decrement, next)) hcell
              have hnone : ∀ m₁, (m.store a (some (x.decrement, next))).unlink i x.decrement next
                  (Cells.lastOf none l₁) = some m₁ → m₁.victim x.decrement.sock = none :=
                fun m₁ hm₁ => hown₁.victim_none h₁ hl₁ hcell₁ hm₁
              refine ⟨hnone, fun m₂ hm₂ => ?_⟩
              rcases (h₁.expireEntry hl₁ hcell₁).good hnone with ⟨m₃, hm₃, h₃, hsockets, _⟩
              cases hm₂.symm.trans hm₃
              rw [List.set_set] at h₃
              have hl₂ : (lists.set i (l₁ ++ l₂))[i]? = some (l₁ ++ l₂) :=
                List.getElem?_set_self (List.getElem?_eq_some_iff.1 hl).1
              have hown₂ : OwnSockets m₂ (lists.set i (l₁ ++ l₂)) := by
                apply hown.less hsockets
                apply flatten_set_sublist hl
                simp
              exact ih hown₂ h₃ hl₂ (h₃.gone hl₂ hrest) fuel

theorem OwnSockets.checkUsers {before after : List (List (Nat × DccEntry))}
    (hown : OwnSockets m (before ++ after)) (h : Chained m (before ++ after)) :
    StepsMeet DccMemory.checkUser DccMemory.SparesUser m
      (List.range' before.length after.length) := by
  induction after generalizing m before with
  | nil => exact trivial
  | cons l after ih =>
      have hl : (before ++ l :: after)[before.length]? = some l := by simp
      rw [List.length_cons, List.range'_succ]
      have hspares : m.SparesUser before.length := by
        rcases h.node hl with ⟨un, hun, hseg⟩
        have hl' : (before ++ l :: after)[before.length]? = some ([] ++ l) := hl
        rw [DccMemory.SparesUser, hun, Option.bind_some]
        exact hown.timeoutLoop h hl' hseg _
      refine ⟨hspares, fun m₁ hm₁ => ?_⟩
      rcases (h.checkUser hl).good hspares with ⟨m₂, hm₂, h₂, hsockets, _⟩
      cases hm₁.symm.trans hm₂
      have hown₂ := hown.less hsockets (flatten_set_sublist hl (fun y => y.2.sock) (tickAll_sock l))
      have hset : (before ++ l :: after).set before.length (tickAll l) =
          (before ++ [tickAll l]) ++ after := by
        rw [List.set_append_right _ _ (le_refl _), Nat.sub_self, List.set_cons_zero, List.append_assoc,
          List.singleton_append]
      rw [hset] at h₂ hown₂
      have hrest := ih hown₂ h₂
      rw [List.length_append, List.length_singleton] at hrest
      exact hrest

end Own

/-- The condition is met as long as no two entries have the number of one live socket. -/
theorem DccStore.spares_of_own (s : DccStore) (hown : OwnSockets s.memory s.lists) : s.Spares := by
  have hnil : OwnSockets s.memory ([] ++ s.lists) := hown
  have hall := hnil.checkUsers s.chained
  rw [List.length_nil, s.chained.length, ← List.range_eq_range'] at hall
  exact hall

/-- A call does what it is for exactly if no destructor of a socket that it kills finds an entry. -/
theorem checkdcctimeouts_expires (s : DccStore) : s.Expires ↔ s.Spares := by
  have hnil : Chained s.memory ([] ++ s.lists) := s.chained
  have hout := hnil.checkUsers
  rw [List.length_nil, s.chained.length, ← List.range_eq_range'] at hout
  constructor
  · rintro ⟨s', hcall, _, hfreed⟩
    by_contra hno
    apply hout.bad hno s'.memory hcall s'.memory.freed (List.prefix_refl _)
    rw [hfreed]
  · intro hspares
    rcases hout.good hspares with ⟨m', hcall, hchained, _, hfreed⟩
    exact ⟨⟨m', _, hchained⟩, hcall, rfl, hfreed⟩

/-! ## Two stores -/

def entryOf (type : DccType) (delay sock : Int) : DccEntry :=
  { type := type, host := [], file := [], nick := ascii "bob", delay := delay, sock := sock }

/-- The first two requests of a user end, and one between entries that stay; another user has a chat. -/
def requests : List (List (Nat × DccEntry)) :=
  [[(0, entryOf .chatToRq 1 5), (1, entryOf .recvFromRq 1 0), (2, entryOf .chatFrom 0 6),
      (3, entryOf .sendToRq 1 7), (4, entryOf .chatFromRq 2 0)],
    [(5, entryOf .chatTo 0 8)]]

def requestMemory : DccMemory where
  cells := [some (entryOf .chatToRq 1 5, some 1), some (entryOf .recvFromRq 1 0, some 2),
    some (entryOf .chatFrom 0 6, some 3), some (entryOf .sendToRq 1 7, some 4),
    some (entryOf .chatFromRq 2 0, none), some (entryOf .chatTo 0 8, none)]
  usernode := [⟨1, some (some 0)⟩, ⟨2, some (some 5)⟩]
  sockets := [⟨5, false, some (.pdccclosed, 1)⟩, ⟨6, false, some (.pdccclosed, 1)⟩,
    ⟨7, false, some (.pdccfileclosed, 1)⟩, ⟨8, false, some (.pdccclosed, 2)⟩]

theorem requestMemory_chained : Chained requestMemory requests where
  length := rfl
  chain := by
    intro i un l hun hl
    match i with
    | 0 =>
        cases hun
        cases hl
        exact ⟨rfl, some 1, rfl, rfl, some 2, rfl, rfl, some 3, rfl, rfl, some 4, rfl, rfl, none, rfl, rfl⟩
    | 1 =>
        cases hun
        cases hl
        exact ⟨rfl, none, rfl, rfl⟩
    | i + 2 => cases hun
  nodup := by decide

def requestStore : DccStore := ⟨requestMemory, requests, requestMemory_chained⟩

theorem requestStore_own : OwnSockets requestStore.memory requestStore.lists := by
  unfold OwnSockets
  decide

theorem checkdcctimeouts_expires_requests : requestStore.Expires :=
  (checkdcctimeouts_expires requestStore).2 (requestStore.spares_of_own requestStore_own)

/-- A chat whose number is out of date: `convert_v6` closes its socket and gives it another one, and the
next listener gets the number. -/
def staleMemory : DccMemory where
  cells := [some (entryOf .chatFrom 0 5, some 1), some (entryOf .chatToRq 1 5, none)]
  usernode := [⟨1, some (some 0)⟩]
  sockets := [⟨6, false, some (.pdccclosed, 1)⟩, ⟨5, false, some (.pdccclosed, 1)⟩]

theorem staleMemory_chained :
    Chained staleMemory [[(0, entryOf .chatFrom 0 5), (1, entryOf .chatToRq 1 5)]] where
  length := rfl
  chain := by
    intro i un l hun hl
    match i with
    | 0 =>
        cases hun
        cases hl
        exact ⟨rfl, some 1, rfl, rfl, none, rfl, rfl⟩
    | i + 1 => cases hun
  nodup := by decide

def staleStore : DccStore := ⟨staleMemory, _, staleMemory_chained⟩

/-- The end of the request takes the chat with it. -/
theorem checkdcctimeouts_takes_chat :
    staleStore.memory.checkdcctimeouts = some { staleStore.memory with
      cells := [none, none]
      usernode := [⟨1, some none⟩]
      sockets := [⟨6, false, some (.pdccclosed, 1)⟩]
      freed := [(0, entryOf .chatFrom 0 5), (1, entryOf .chatToRq 0 5)] } ∧
      (entryOf .chatFrom 0 5).tick = some (entryOf .chatFrom 0 5) ∧ ¬ staleStore.Expires := by
  refine ⟨by decide, by decide, ?_⟩
  rintro ⟨s', hcall, _, hfreed⟩
  have hrun : staleStore.memory.checkdcctimeouts.map DccMemory.freed =
      some [(0, entryOf .chatFrom 0 5), (1, entryOf .chatToRq 0 5)] := by decide
  rw [hcall, Option.map_some, hfreed] at hrun
  exact absurd hrun (by decide)

end PsyBnc
