import PsyBnc.Peer.Login
import PsyBnc.Userfile.Hash
import PsyBnc.Lib.Run

/-!
# The lockout of an account

`Watched` runs beside the code and counts, for every record, the wrong passwords that were given for
it.  The counter of the code agrees with it as long as it does not run over: then three wrong
passwords close an account for ten minutes, and nothing but wrong passwords for the account itself
closes it.
-/

namespace PsyBnc

open CLib Function

/-! ## Watching the attempts -/

/-- The wrong passwords for an account: `wrong` counts them since the last success, password change
or reload, `held` goes on over a reload that keeps the record, and `last` is the time of the last
one. -/
structure Tries where
  wrong : Nat
  held : Nat
  last : Nat
  deriving DecidableEq, Repr

namespace Tries

def none : Tries where
  wrong := 0
  held := 0
  last := 0

def afterLogin (t : Tries) (v : Verdict) (time : Nat) : Tries :=
  match v with
  | .wrong => ⟨t.wrong + 1, t.held + 1, time⟩
  | .accepted => none
  | .unknown | .locked => t

end Tries

structure Watched where
  users : Users
  tries : Slot → Tries

namespace Watched

/-- Before the first attempt. -/
def start (s : Users) : Watched where
  users := s
  tries _ := Tries.none

/-- The record that an attempt is for. -/
def target (w : Watched) (a : Attempt) : Slot := w.users.slot (w.users.checkuser a.login)

/-- A node that is added has a new record. -/
def create (w : Watched) (usern : Int) : Watched where
  users := w.users.create usern
  tries :=
    if usern = 0 ∨ MAX_USER < usern ∨ usern ∈ w.users.usernode then w.tries
    else update w.tries (.node usern) Tries.none

/-- A record that stays is loaded again. -/
def fill (w : Watched) (usern : Int) (u : UserRecord) : Watched where
  users := w.users.fill usern u
  tries :=
    let k := w.users.slot usern
    update w.tries k { w.tries k with wrong := 0 }

def step (salt : Salt) (w : Watched) : Users.Event → Option Watched
  | .linkpeer a =>
      (w.users.linkpeer salt a).map fun (v, s) =>
        ⟨s, update w.tries (w.target a) ((w.tries (w.target a)).afterLogin v a.time)⟩
  | .password usern ircto irccontent =>
      let changed := (w.users.passwordTarget usern ircto irccontent).elim [] w.users.passwordNodes
      (w.users.cmdpassword salt usern ircto irccontent).map fun s =>
        ⟨s, fun k => if k ∈ changed.map w.users.slot then Tries.none else w.tries k⟩
  | .loaduser usernum randstring =>
      (PsyBnc.loaduser salt randstring usernum w.users.conf).map fun
        | none => ⟨w.users.put (.node usernum) blankAccount, update w.tries (.node usernum) Tries.none⟩
        | some (u, conf) =>
            let w := (w.create usernum).fill usernum u
            { w with users := { w.users with conf := conf } }

/-- Watching does not change what the code does. -/
theorem step_users (salt : Salt) (w : Watched) (e : Users.Event) :
    (w.step salt e).map Watched.users = w.users.step salt e := by
  cases e with
  | linkpeer a =>
      simp only [step, Users.step, Option.map_map]
      rfl
  | password usern ircto irccontent =>
      simp only [step, Users.step, Option.map_map]
      exact congrFun Option.map_id _
  | loaduser usernum randstring =>
      simp only [step, Users.step, Users.loaduser, Option.map_map]
      congr 1
      funext r
      cases r with
      | none => rfl
      | some p => rfl

theorem run_users (salt : Salt) (es : List Users.Event) (w : Watched) :
    (runAll (step salt) w es).map Watched.users = runAll (Users.step salt) w.users es := by
  induction es generalizing w with
  | nil =>
      rfl
  | cons e es ih =>
      rw [runAll, runAll, ← step_users]
      cases w.step salt e with
      | none =>
          rfl
      | some w' =>
          exact ih w'

end Watched

/-! ## What an attempt does -/

section Attempts

variable {salt : Salt} {s s' : Users} {a : Attempt} {v : Verdict}

/-- The password of the account that the attempt is for. -/
def RightPass (salt : Salt) (s : Users) (a : Attempt) : Prop :=
  offeredPass salt a.pass = some (s.account (s.checkuser a.login)).pass

/-- The account is closed at that time. -/
def Closed (u : Account) (a : Attempt) : Prop :=
  u.penalty > 2 ∧ u.pentime + 600 + a.rand % 120 > a.time

theorem Users.linkpeer_cases (h : s.linkpeer salt a = some (v, s')) :
    let rc := s.checkuser a.login
    let u := s.account rc
    (v = .unknown ∧ s' = s) ∨
      (v = .wrong ∧ rc ≠ 0 ∧ ¬ RightPass salt s a ∧
        s' = s.put (s.slot rc) { u with penalty := incPenalty u.penalty, pentime := a.time }) ∨
      (v = .locked ∧ RightPass salt s a ∧ Closed u a ∧ s' = s) ∨
      (v = .accepted ∧ RightPass salt s a ∧ ¬ Closed u a ∧
        s' = s.put (s.slot rc) { u with penalty := 0, pentime := 0 }) := by
  intro rc u
  rw [linkpeer] at h
  by_cases hrc : s.checkuser a.login = 0
  · rw [if_pos hrc] at h
    cases h
    exact Or.inl ⟨rfl, rfl⟩
  · rw [if_neg hrc] at h
    rcases Option.map_eq_some_iff.1 h with ⟨pass, hpass, hv⟩
    have hright : RightPass salt s a ↔ strmcmp pass u.pass = true := by
      rw [strmcmp_iff, RightPass, hpass, Option.some_inj]
    simp only [] at hv
    split at hv
    · rename_i hno
      cases hv
      have hwrong : ¬ RightPass salt s a := fun hr => Bool.noConfusion (hno.symm.trans (hright.1 hr))
      exact Or.inr (Or.inl ⟨rfl, hrc, hwrong, rfl⟩)
    · rename_i hyes
      have hok : RightPass salt s a := hright.2 (Bool.eq_true_of_not_eq_false hyes)
      split at hv
      · rename_i hclosed
        cases hv
        exact Or.inr (Or.inr (Or.inl ⟨rfl, hok, hclosed, rfl⟩))
      · rename_i hopen
        cases hv
        exact Or.inr (Or.inr (Or.inr ⟨rfl, hok, hopen, rfl⟩))

end Attempts

/-! ## The counter -/

/-- The counter of a record agrees with what was watched. -/
structure Tracks (u : Account) (t : Tries) : Prop where
  penalty : u.penalty = t.held
  fits : t.held < 2 ^ 31
  wrong : t.wrong ≤ t.held
  last : 0 < t.held → u.pentime = t.last

/-- All counters agree. -/
def Watched.Tracked (w : Watched) : Prop := ∀ k, Tracks (w.users.user k) (w.tries k)

/-- The counter has room for one more wrong password. -/
def CounterFits (salt : Salt) (w : Watched) : Users.Event → Prop
  | .linkpeer a =>
      w.users.checkuser a.login ≠ 0 → ¬ RightPass salt w.users a →
        (w.users.user (w.target a)).penalty ≠ 2 ^ 31 - 1
  | .password _ _ _ => True
  | .loaduser _ _ => True

/-- After three wrong passwords no attempt succeeds for ten minutes, and an account that is closed
to its password was given three wrong ones itself. -/
def Lockout (salt : Salt) (w : Watched) : Users.Event → Prop
  | .linkpeer a =>
      ∀ v s', w.users.linkpeer salt a = some (v, s') →
        (v = .accepted → 3 ≤ (w.tries (w.target a)).wrong →
          (w.tries (w.target a)).last + 600 ≤ a.time) ∧
        (v = .locked → 3 ≤ (w.tries (w.target a)).held)
  | .password _ _ _ => True
  | .loaduser _ _ => True

theorem Tracks.none {u : Account} (h : u.penalty = 0) : Tracks u Tries.none where
  penalty := h
  fits := by decide
  wrong := Nat.le_refl 0
  last := fun hpos => absurd hpos (Nat.lt_irrefl 0)

namespace Watched

variable {salt : Salt} {w w' : Watched}

theorem tracked_start {s : Users} (h : ∀ k, (s.user k).penalty = 0) : (start s).Tracked :=
  fun k => Tracks.none (h k)

/-- A record and what is watched of it are replaced together. -/
theorem Tracked.update (h : w.Tracked) {k : Slot} {u : Account} {t : Tries} (hu : Tracks u t) :
    Tracked ⟨w.users.put k u, Function.update w.tries k t⟩ := by
  intro k'
  by_cases hk : k' = k
  · subst hk
    simpa [Users.put] using hu
  · simpa [Users.put, hk] using h k'

theorem incPenalty_eq {n : Nat} (h : (n : Int) ≠ 2 ^ 31 - 1) (hn : n < 2 ^ 31) :
    incPenalty n = ((n + 1 : Nat) : Int) := by
  rw [incPenalty, Int.bmod_def]
  omega

/-- A wrong password is counted on both sides. -/
theorem tracks_wrong {u : Account} {t : Tries} (h : Tracks u t) (hfits : u.penalty ≠ 2 ^ 31 - 1)
    (time : Nat) :
    Tracks { u with penalty := incPenalty u.penalty, pentime := time }
      (t.afterLogin .wrong time) where
  penalty := by
    have hne : (t.held : Int) ≠ 2 ^ 31 - 1 := h.penalty ▸ hfits
    simpa only [Tries.afterLogin, h.penalty] using incPenalty_eq hne h.fits
  fits := by
    have hlt := h.fits
    have hne : (t.held : Int) ≠ 2 ^ 31 - 1 := h.penalty ▸ hfits
    have hsucc : t.held + 1 < 2 ^ 31 := by omega
    simpa only [Tries.afterLogin] using hsucc
  wrong := Nat.succ_le_succ h.wrong
  last := fun _ => rfl

/-- One login keeps the counters in agreement. -/
theorem tracked_linkpeer (h : w.Tracked) {a : Attempt} (hfits : CounterFits salt w (.linkpeer a))
    (hstep : w.step salt (.linkpeer a) = some w') : w'.Tracked := by
  rcases Option.map_eq_some_iff.1 hstep with ⟨⟨v, s⟩, hlogin, rfl⟩
  rcases Users.linkpeer_cases hlogin with ⟨rfl, rfl⟩ | ⟨rfl, hrc, hwrong, rfl⟩ | ⟨rfl, _, _, rfl⟩ |
    ⟨rfl, _, _, rfl⟩
  · -- no such account
    simpa [Tries.afterLogin] using h
  · exact h.update (tracks_wrong (h _) (hfits hrc hwrong) a.time)
  · simpa [Tries.afterLogin] using h
  · exact h.update (Tracks.none rfl)

/-- The loop of `cmdpassword` resets the records of its nodes, and no other record. -/
theorem setPass_foldlM {pass : CStr} {uids : List Int} {s s' : Users}
    (h : uids.foldlM (Users.setPass pass) s = some s') (k : Slot) :
    (k ∈ uids.map s.slot → (s'.user k).penalty = 0) ∧
      (k ∉ uids.map s.slot → s'.user k = s.user k) := by
  induction uids generalizing s with
  | nil =>
      cases h
      simp
  | cons uid uids ih =>
      rw [List.foldlM_cons] at h
      rcases Option.bind_eq_some_iff.1 h with ⟨s₁, hone, hrest⟩
      rcases Option.map_eq_some_iff.1 hone with ⟨conf, _, rfl⟩
      rcases ih hrest with ⟨hmem, hno⟩
      by_cases hk : k ∈ uids.map s.slot
      · exact ⟨fun _ => hmem hk, fun hnot => absurd (List.mem_cons_of_mem _ hk) hnot⟩
      · have heq := hno hk
        rw [List.map_cons, List.mem_cons, heq]
        by_cases huid : k = s.slot uid
        · subst huid
          simp [Users.put]
        · simp [Users.put, huid, hk]

theorem tracked_password (h : w.Tracked) {usern : Int} {ircto irccontent : CStr}
    (hstep : w.step salt (.password usern ircto irccontent) = some w') : w'.Tracked := by
  rcases Option.map_eq_some_iff.1 hstep with ⟨s, hcmd, rfl⟩
  rw [Users.cmdpassword] at hcmd
  cases htarget : w.users.passwordTarget usern ircto irccontent with
  | none =>
      rw [htarget] at hcmd
      cases hcmd
      intro k
      simpa [htarget] using h k
  | some uind =>
      rw [htarget] at hcmd
      rcases Option.bind_eq_some_iff.1 hcmd with ⟨hash, _, hloop⟩
      intro k
      rcases setPass_foldlM hloop k with ⟨hmem, hno⟩
      by_cases hk : k ∈ (w.users.passwordNodes uind).map w.users.slot
      · simpa [htarget, hk] using Tracks.none (hmem hk)
      · simpa [htarget, hk, hno hk] using h k

theorem Tracked.create (h : w.Tracked) (usern : Int) : (w.create usern).Tracked := by
  rw [Watched.create, Users.create]
  split
  · exact h
  · exact h.update (Tracks.none rfl)

/-- Loading a record again leaves its counter alone. -/
theorem Tracked.fill (h : w.Tracked) (usern : Int) (u : UserRecord) :
    (w.fill usern u).Tracked := by
  have hk := h (w.users.slot usern)
  exact h.update
    { penalty := hk.penalty
      fits := hk.fits
      wrong := Nat.zero_le _
      last := hk.last }

theorem tracked_loaduser (h : w.Tracked) {usernum : Nat} {randstring : CStr}
    (hstep : w.step salt (.loaduser usernum randstring) = some w') : w'.Tracked := by
  rcases Option.map_eq_some_iff.1 hstep with ⟨r, _, rfl⟩
  cases r with
  | none =>
      exact h.update (Tracks.none rfl)
  | some p =>
      exact (h.create usernum).fill usernum p.1

theorem tracked_step (h : w.Tracked) {e : Users.Event} (hfits : CounterFits salt w e)
    (hstep : w.step salt e = some w') : w'.Tracked := by
  cases e with
  | linkpeer a =>
      exact tracked_linkpeer h hfits hstep
  | password usern ircto irccontent =>
      exact tracked_password h hstep
  | loaduser usernum randstring =>
      exact tracked_loaduser h hstep

/-- What the counters decide is what was watched. -/
theorem Tracked.lockout (h : w.Tracked) (e : Users.Event) : Lockout salt w e := by
  cases e with
  | linkpeer a =>
      intro v s' hlogin
      have hk := h (w.target a)
      have haccount : w.users.account (w.users.checkuser a.login) = w.users.user (w.target a) := rfl
      rcases Users.linkpeer_cases hlogin with ⟨rfl, _⟩ | ⟨rfl, _⟩ | ⟨rfl, _, hclosed, _⟩ |
        ⟨rfl, _, hopen, _⟩
      · simp
      · simp
      · -- the account is closed
        refine ⟨fun heq => Verdict.noConfusion heq, fun _ => ?_⟩
        have hpenalty := hclosed.1
        rw [haccount, hk.penalty] at hpenalty
        omega
      · refine ⟨fun _ hthree => ?_, fun heq => Verdict.noConfusion heq⟩
        have hwrong := hk.wrong
        have htime := hk.last (by omega)
        simp only [Closed, haccount, hk.penalty, htime] at hopen
        omega
  | password usern ircto irccontent =>
      exact trivial
  | loaduser usernum randstring =>
      exact trivial

end Watched

/-- No run of logins, password changes and reloads lets a login through a lockout, as long as no
counter runs over; watching the attempts does not change the run. -/
theorem no_login_in_lockout (salt : Salt) (s : Users) (hstart : ∀ k, (s.user k).penalty = 0)
    (es : List Users.Event)
    (hfits : StepsMeet (Watched.step salt) (CounterFits salt) (Watched.start s) es) :
    (runAll (Watched.step salt) (Watched.start s) es).map Watched.users = runAll (Users.step salt) s es ∧
      StepsMeet (Watched.step salt) (Lockout salt) (Watched.start s) es := by
  refine ⟨Watched.run_users salt es (Watched.start s), ?_⟩
  apply hfits.of_invariant Watched.Tracked
  · exact fun w e w' hw he hstep => Watched.tracked_step hw he hstep
  · exact fun w e hw _ => hw.lockout e
  · exact Watched.tracked_start hstart

/-! ## A counter that runs over -/

/-- One account, with the counter at a given value. -/
def soleUser (pass : CStr) (penalty : Int) : Users where
  usernode := [0, 1]
  user :=
    update (fun _ => blankAccount) (.node 1)
      { blankAccount with login := ascii "owner", pass := pass, penalty := penalty }
  conf := []

def ownerTries (pass : CStr) (time : Nat) : Attempt where
  login := ascii "owner"
  pass := pass
  time := time
  rand := 0

section Overflow

variable {pass offered password : CStr} {penalty : Int}

theorem checkuser_soleUser : (soleUser pass penalty).checkuser (ascii "owner") = 1 := rfl

theorem account_soleUser : (soleUser pass penalty).account 1 =
    { blankAccount with login := ascii "owner", pass := pass, penalty := penalty } := rfl

/-- A wrong password at time 0 only moves the counter. -/
theorem linkpeer_soleUser_wrong (hoffered : offeredPass buildSalt password = some offered)
    (hne : offered ≠ pass) :
    (soleUser pass penalty).linkpeer buildSalt (ownerTries password 0) =
      some (.wrong, soleUser pass (incPenalty penalty)) := by
  have hwrong : strmcmp offered pass = false := by
    rw [← Bool.not_eq_true, strmcmp_iff]
    exact hne
  have hput : (soleUser pass penalty).put ((soleUser pass penalty).slot 1)
      { blankAccount with
        login := ascii "owner"
        pass := pass
        penalty := incPenalty penalty
        pentime := 0 } = soleUser pass (incPenalty penalty) := by
    have hslot : (soleUser pass penalty).slot 1 = .node 1 := rfl
    rw [hslot]
    simp only [soleUser, Users.put, update_idem, blankAccount]
  have hrc : (1 : Int) ≠ 0 := by decide
  simp only [Users.linkpeer, ownerTries, checkuser_soleUser, if_neg hrc, hoffered, Option.map_some,
    account_soleUser, hwrong, if_true]
  exact congrArg (fun s => some (Verdict.wrong, s)) hput

/-- What is watched after `n` wrong passwords. -/
def afterWrong (pass : CStr) (n : Nat) : Watched where
  users := soleUser pass ((n : Int).bmod (2 ^ 32))
  tries := update (fun _ => Tries.none) (.node 1) ⟨n, n, 0⟩

theorem start_eq_afterWrong : Watched.start (soleUser pass 0) = afterWrong pass 0 := by
  have htries : update (fun _ => Tries.none) (Slot.node 1) ⟨0, 0, 0⟩ = fun _ => Tries.none :=
    update_eq_self _ _
  rw [afterWrong, htries]
  rfl

theorem step_afterWrong (hoffered : offeredPass buildSalt password = some offered)
    (hne : offered ≠ pass) (n : Nat) :
    (afterWrong pass n).step buildSalt (.linkpeer (ownerTries password 0)) =
      some (afterWrong pass (n + 1)) := by
  have hinc : incPenalty ((n : Int).bmod (2 ^ 32)) = ((n + 1 : Nat) : Int).bmod (2 ^ 32) := by
    rw [incPenalty, Int.bmod_add_bmod, Nat.cast_add, Nat.cast_one]
  have hlogin : (soleUser pass ((n : Int).bmod (2 ^ 32))).linkpeer buildSalt (ownerTries password 0) =
      some (.wrong, soleUser pass (((n + 1 : Nat) : Int).bmod (2 ^ 32))) := by
    rw [linkpeer_soleUser_wrong hoffered hne, hinc]
  have htarget : (afterWrong pass n).target (ownerTries password 0) = .node 1 := rfl
  have husers : (afterWrong pass n).users = soleUser pass ((n : Int).bmod (2 ^ 32)) := rfl
  simp only [Watched.step, husers, hlogin, Option.map_some, htarget]
  simp only [afterWrong, update_self, update_idem, Tries.afterLogin, ownerTries]

theorem counterFits_afterWrong {n : Nat} (hn : n < 2 ^ 31 - 1) (time : Nat) :
    CounterFits buildSalt (afterWrong pass n) (.linkpeer (ownerTries password time)) := by
  intro _ _
  have hpenalty : ((afterWrong pass n).users.user (.node 1)).penalty = (n : Int).bmod (2 ^ 32) := by
    simp only [afterWrong, soleUser, update_self]
  have htarget : (afterWrong pass n).target (ownerTries password time) = .node 1 := rfl
  rw [htarget, hpenalty, Int.bmod_def]
  omega

/-- Wrong passwords and one more attempt, without an overflow. -/
theorem counterFits_wrongs (hoffered : offeredPass buildSalt password = some offered)
    (hne : offered ≠ pass) (again : CStr) (time n k : Nat) (hk : k + n < 2 ^ 31 - 1) :
    StepsMeet (Watched.step buildSalt) (CounterFits buildSalt) (afterWrong pass k)
      (List.replicate n (.linkpeer (ownerTries password 0)) ++
        [.linkpeer (ownerTries again time)]) := by
  induction n generalizing k with
  | zero =>
      exact ⟨counterFits_afterWrong hk time, fun _ _ => trivial⟩
  | succ n ih =>
      refine ⟨counterFits_afterWrong (by omega) 0, ?_⟩
      intro w hw
      cases (step_afterWrong hoffered hne k).symm.trans hw
      exact ih (k + 1) (by omega)

/-- The right password is let in while the counter is small. -/
theorem linkpeer_soleUser_right (hoffered : offeredPass buildSalt password = some pass)
    (hopen : penalty ≤ 2) (time : Nat) :
    ∃ s', (soleUser pass penalty).linkpeer buildSalt (ownerTries password time) =
      some (.accepted, s') := by
  have hright : strmcmp pass pass = true := strmcmp_iff.2 rfl
  have hrc : (1 : Int) ≠ 0 := by decide
  have hno : ¬ penalty > 2 := not_lt.2 hopen
  simp only [Users.linkpeer, ownerTries, checkuser_soleUser, if_neg hrc, hoffered, Option.map_some,
    account_soleUser, hright, hno, false_and, if_false, Bool.true_eq_false]
  exact ⟨_, rfl⟩

theorem not_lockout_afterWrong {n : Nat} (hoffered : offeredPass buildSalt password = some pass)
    (hthree : 3 ≤ n) (hopen : (n : Int).bmod (2 ^ 32) ≤ 2) :
    ¬ Lockout buildSalt (afterWrong pass n) (.linkpeer (ownerTries password 1)) := by
  intro hlockout
  rcases linkpeer_soleUser_right hoffered hopen 1 with ⟨s', hs'⟩
  have htarget : (afterWrong pass n).target (ownerTries password 1) = .node 1 := rfl
  have htries : (afterWrong pass n).tries (.node 1) = ⟨n, n, 0⟩ := by
    simp only [afterWrong, update_self]
  have htime := (hlockout .accepted s' hs').1 rfl
  rw [htarget, htries] at htime
  exact absurd (htime hthree) (by simp [ownerTries])

end Overflow

/-- Two passwords that are told apart. -/
theorem exists_offeredPass_abc :
    ∃ right wrong, offeredPass buildSalt (ascii "abc") = some right ∧
      offeredPass buildSalt (ascii "abd") = some wrong ∧ wrong ≠ right := by
  rcases exists_hashOf buildSalt (ascii "abc") (by decide) with ⟨right, hright⟩
  rcases exists_hashOf buildSalt (ascii "abd") (by decide) with ⟨wrong, hwrong⟩
  refine ⟨clip 20 right, clip 20 wrong, ?_, ?_, ?_⟩
  · rw [offeredPass, hright, Option.map_some]
  · rw [offeredPass, hwrong, Option.map_some]
  · intro heq
    apply clippedHash_abc_ne
    rw [hright, hwrong, Option.map_some, Option.map_some, heq]

theorem soleUser_penalty (pass : CStr) (k : Slot) : ((soleUser pass 0).user k).penalty = 0 := by
  by_cases hk : k = .node 1
  · rw [hk]
    rfl
  · simp [soleUser, hk, blankAccount]

/-- Three wrong passwords and the right one. -/
theorem no_login_in_lockout_three :
    ∃ right wrong, offeredPass buildSalt (ascii "abc") = some right ∧
      offeredPass buildSalt (ascii "abd") = some wrong ∧ wrong ≠ right ∧
      StepsMeet (Watched.step buildSalt) (Lockout buildSalt) (Watched.start (soleUser right 0))
        (List.replicate 3 (.linkpeer (ownerTries (ascii "abd") 0)) ++
          [.linkpeer (ownerTries (ascii "abc") 1)]) := by
  rcases exists_offeredPass_abc with ⟨right, wrong, hright, hwrong, hne⟩
  refine ⟨right, wrong, hright, hwrong, hne, ?_⟩
  apply (no_login_in_lockout buildSalt (soleUser right 0) (soleUser_penalty right) _ ?_).2
  rw [start_eq_afterWrong]
  exact counterFits_wrongs hwrong hne (ascii "abc") 1 3 0 (by decide)

/-- After 2^31 wrong passwords the counter is negative, and the right one is let in at once. -/
theorem login_after_overflow :
    ∃ right, offeredPass buildSalt (ascii "abc") = some right ∧
      ¬ StepsMeet (Watched.step buildSalt) (Lockout buildSalt) (Watched.start (soleUser right 0))
        (List.replicate (2 ^ 31) (.linkpeer (ownerTries (ascii "abd") 0)) ++
          [.linkpeer (ownerTries (ascii "abc") 1)]) := by
  rcases exists_offeredPass_abc with ⟨right, wrong, hright, hwrong, hne⟩
  refine ⟨right, hright, ?_⟩
  intro hmeet
  rw [start_eq_afterWrong] at hmeet
  have hrun := runAll_replicate (afterWrong right) (step_afterWrong hwrong hne) (2 ^ 31) 0
  apply not_lockout_afterWrong hright (by decide) (by decide) (hmeet.append hrun).1

end PsyBnc
