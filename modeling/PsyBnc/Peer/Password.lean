import PsyBnc.Accounts.Owner
import PsyBnc.Userfile.Hash

/-!
# Passwords that work

A password is set by `PASSWORD`, by `ADDUSER`, or by the first login; later a peer sends it with
`PASS`.  `checkoldlistener` turns a leading `+` into `-` and keeps 19 bytes, which `PASSWORD` does
not do, and a first password that starts with `=` is taken for a hash.
-/

namespace PsyBnc

open CLib Function

/-- `PASS` in `checkoldlistener`. -/
def peerPass (irccontent : CStr) : CStr :=
  clip 20 (if irccontent.head? = some PLUS then 45 :: irccontent.tail else irccontent)

/-! ## Setting a password -/

/-- The login account that belongs to a record. -/
def Users.loginAccount (s : Users) (uid : Int) : Int :=
  if (s.account uid).parent ≠ 0 then (s.account uid).parent else uid

/-- Where a password comes from. -/
inductive PassSource where
  | password (usern : Int) (ircto irccontent : CStr)
  | adduser (usern : Int) (ircto irccontent : CStr)
  | first (nick user login irccontent : CStr)
  deriving DecidableEq, Repr

namespace PassSource

/-- The texts come from lines, a password is set for an account that exists, `user(0)` gives no
commands, and the first peer has sent a nick. -/
def Received (s : Users) : PassSource → Prop
  | .password usern ircto irccontent =>
      irccontent.length < 6000 ∧ ∀ uind ∈ s.passwordTarget usern ircto irccontent, s.Live uind
  | .adduser usern ircto irccontent => usern ≠ 0 ∧ LF ∉ ircto ∧ LF ∉ irccontent
  | .first nick user login irccontent =>
      nick ≠ [] ∧ LF ∉ nick ∧ LF ∉ user ∧ LF ∉ login ∧ LF ∉ irccontent

/-- The number of the account, the password as the user knows it, and the new state; `none` when the
password is not accepted. -/
def accept (salt : Salt) (rand : Nat → Nat) (s : Users) : PassSource → Option (Int × CStr × Users)
  | .password usern ircto irccontent =>
      (s.passwordTarget usern ircto irccontent).bind fun uind =>
        (s.cmdpassword salt usern ircto irccontent).map fun s => (uind, irccontent, s)
  | .adduser usern ircto irccontent =>
      (s.cmdadduser salt rand usern ircto irccontent).bind fun (rc, s) =>
        if rc = -1 then none else some (rc, randstring 8 rand, s)
  | .first nick user login irccontent =>
      (s.firstLogin salt rand ⟨nick, user, login, peerPass irccontent⟩).bind fun (rc, s) =>
        if rc = -1 then none else some (rc, irccontent, s)

theorem accept_password {salt : Salt} {rand : Nat → Nat} {s s' : Users} {usern uid : Int}
    {ircto irccontent pass : CStr}
    (h : (PassSource.password usern ircto irccontent).accept salt rand s = some (uid, pass, s')) :
    s.passwordTarget usern ircto irccontent = some uid ∧ irccontent = pass ∧
      s.cmdpassword salt usern ircto irccontent = some s' := by
  rcases Option.bind_eq_some_iff.1 h with ⟨uind, htarget, hrest⟩
  rcases Option.map_eq_some_iff.1 hrest with ⟨s₁, hcmd, heq⟩
  cases heq
  exact ⟨htarget, rfl, hcmd⟩

/-- Two passwords with different keys whose hashes agree as far as `pass[20]` goes. -/
def Collide (salt : Salt) (pass pass' : CStr) : Prop :=
  keyWords pass ≠ keyWords pass' ∧ offeredPass salt pass = offeredPass salt pass'

/-- `PASSWORD` for an account that logs in by itself, with a password that gives the same key when it
comes back through `PASS`; a first password that does not look like a hash, or is its own hash. -/
def Keeps (salt : Salt) (s : Users) : PassSource → Prop
  | .password usern ircto irccontent =>
      (∀ uind ∈ s.passwordTarget usern ircto irccontent, s.loginAccount uind = uind) ∧
        (keyWords (peerPass irccontent) = keyWords irccontent ∨
          Collide salt (peerPass irccontent) irccontent)
  | .adduser _ _ _ => True
  | .first _ _ _ irccontent =>
      irccontent.head? ≠ some EQUALS ∨
        offeredPass salt (peerPass irccontent) = some (peerPass irccontent)

end PassSource

/-! ## Giving it back -/

/-- After the account was saved, and loaded by a process that has fewer than three wrong passwords
for it, a peer with its login and this password is accepted. -/
def PassWorks (salt : Salt) (s : Users) (uid : Int) (pass : CStr) : Prop :=
  ∃ s₁ conf, s.writeuser salt uid = some s₁ ∧
    readconfig [] (some (flushconfig s₁.conf)) = some conf ∧
    ∀ (t : Users) (randstring : CStr), t.conf = conf → (t.account uid).penalty ≤ 2 →
      ∃ t₁, t.loaduser salt randstring uid.toNat = some t₁ ∧
        (t₁.checkuser (s.account uid).login = t₁.loginAccount uid → ∀ time rand,
          ∃ t₂, t₁.linkpeer salt ⟨(s.account uid).login, peerPass pass, time, rand⟩ =
            some (.accepted, t₂))

namespace Users

variable {salt : Salt} {s : Users} {uid parent : Int} {rand : Nat → Nat} {pass p : CStr}

/-- The record of an account whose password is stored as a hash, or as what looks like one. -/
structure Ready (s : Users) (uid parent : Int) (p : CStr) : Prop where
  sound : s.Sound
  user : s.IsUser uid
  login : (s.user (.node uid)).login ≠ []
  parent : (s.user (.node uid)).parent = parent
  pass : (s.user (.node uid)).pass = p
  head : p.head? = some EQUALS

/-- Loading a record into a process, whether it knows the account or not. -/
theorem loaduser_create (t : Users) (hpos : 0 < uid) (hle : uid ≤ 100) {u : UserRecord}
    (hu : u.Declared) (hlogin : u.login ≠ []) (hnick : u.nick ≠ [])
    (hpass : u.pass.head? = some EQUALS) (huid : uid.toNat < 2 ^ 31) {conf : Conf}
    (hstored : Stored (userSection huid) (userFields u) conf t.conf) (salt : Salt)
    (randstring : CStr) :
    ∃ t₁, t.loaduser salt randstring uid.toNat = some t₁ ∧
      t₁.account uid = { (t.create uid).user (.node uid) with toUserRecord := u.through } ∧
      t₁.usernode = (t.create uid).usernode ∧
      ∀ k, (∀ x, k ≠ .node x) → t₁.user k = t.user k := by
  refine ⟨(t.create uid).put (.node uid)
    { (t.create uid).user (.node uid) with toUserRecord := u.through }, ?_, ?_, rfl, ?_⟩
  · have hcast : ((uid.toNat : Nat) : Int) = uid := by omega
    have huser := isUser_create (s := t) hpos hle
    have hconf : (t.create uid).conf = t.conf := by
      rw [create]
      split
      · rfl
      · rfl
    rw [loaduser, loaduser_stored huid hu hpass hnick hlogin hstored salt randstring,
      Option.map_some, hcast]
    simp only [fill, slot_of_isUser huser, account_of_isUser huser, ← hconf]
    rfl
  · exact account_put (isUser_create hpos hle) _
  · intro k hk
    rw [create]
    split
    · simp [put, hk uid]
    · simp [put, hk uid]

/-- The counter of a record that is loaded is the one the process had, or a new one. -/
theorem penalty_create (t : Users) (hpos : 0 < uid) (hle : uid ≤ 100)
    (h : (t.account uid).penalty ≤ 2) : ((t.create uid).user (.node uid)).penalty ≤ 2 := by
  by_cases hmem : uid ∈ t.usernode
  · rw [create_of_mem hmem]
    rwa [account_of_isUser ⟨hmem, hpos, hle⟩] at h
  · have hnew : ¬ (uid = 0 ∨ MAX_USER < uid ∨ uid ∈ t.usernode) := by
      rw [MAX_USER, not_or, not_or]
      exact ⟨by omega, by omega, hmem⟩
    rw [create, if_neg hnew]
    simp [put, blankAccount]

/-- The right password for an account that is not closed. -/
theorem linkpeer_accepted {t : Users} {login : CStr} (hne : t.checkuser login ≠ 0)
    (hoffered : offeredPass salt pass = some (t.account (t.checkuser login)).pass)
    (hpenalty : (t.account (t.checkuser login)).penalty ≤ 2) (time rnd : Nat) :
    ∃ t', t.linkpeer salt ⟨login, pass, time, rnd⟩ = some (.accepted, t') := by
  have hright : strmcmp (t.account (t.checkuser login)).pass (t.account (t.checkuser login)).pass =
      true := strmcmp_iff.2 rfl
  have hopen : ¬ (t.account (t.checkuser login)).penalty > 2 := not_lt.2 hpenalty
  simp only [linkpeer, if_neg hne, hoffered, Option.map_some, hright, hopen, false_and, if_false,
    Bool.true_eq_false]
  exact ⟨_, rfl⟩

/-- Nobody else is accepted. -/
theorem linkpeer_offered {t t' : Users} {login : CStr} (hne : t.checkuser login ≠ 0) {time rnd : Nat}
    (h : t.linkpeer salt ⟨login, pass, time, rnd⟩ = some (.accepted, t')) :
    offeredPass salt pass = some (t.account (t.checkuser login)).pass := by
  simp only [linkpeer, if_neg hne] at h
  rcases Option.map_eq_some_iff.1 h with ⟨offered, hoffered, heq⟩
  by_cases hsame : strmcmp offered (t.account (t.checkuser login)).pass = true
  · rw [hoffered, strmcmp_iff.1 hsame]
  · rw [if_pos (Bool.eq_false_iff.2 hsame)] at heq
    exact Verdict.noConfusion (Prod.mk.inj heq).1

/-- What a peer offers is a hash. -/
theorem offeredPass_ne_nil : offeredPass salt pass ≠ some [] := by
  intro h
  rcases Option.map_eq_some_iff.1 h with ⟨hash, hhash, hnil⟩
  rcases hashOf_eq_cons hhash with ⟨t, rfl⟩
  exact List.cons_ne_nil _ _ hnil

/-- The number of an account that is not there. -/
theorem slot_dummyuser (hmem : uid ∉ s.usernode) (hpos : 0 < uid) (hle : uid ≤ 100) :
    s.slot uid = .dummyuser := by
  have hplain : UserMem.plainUid uid = uid := by
    rw [UserMem.plainUid, if_neg (by omega)]
  have hrange : ¬ (uid = 0 ∨ MAX_USER < uid) := by
    rw [MAX_USER]
    omega
  simp only [slot, hplain, if_neg hrange, if_neg hmem]

/-- A process without accounts. -/
def newProcess (conf : Conf) : Users where
  usernode := [0]
  user := fun _ => blankAccount
  conf := conf

/-- Nothing but the account is found in a new process. -/
theorem checkuser_newProcess {t : Users} (husernode : t.usernode = [0, uid])
    (hzero : t.user .nulluser = blankAccount)
    (hlogin : (t.account uid).login ≠ []) :
    t.checkuser (t.account uid).login = t.loginAccount uid := by
  have hnull : (t.account 0).login = [] := by
    rw [account_zero, hzero]
    rfl
  have hother : ¬ ((t.account 0).login.length = (t.account uid).login.length ∧
      (t.account uid).login <:+: (t.account 0).login) := by
    rw [hnull]
    rintro ⟨hlength, -⟩
    exact hlogin (List.eq_nil_of_length_eq_zero hlength.symm)
  rw [checkuser, husernode, checkuserLoop, if_neg hother, checkuserLoop,
    if_pos ⟨rfl, List.infix_refl _⟩, loginAccount]

/-- What a process that loads the configuration finds in it. -/
structure Loaded (s : Users) (uid parent : Int) (p : CStr) (t t₁ : Users) : Prop where
  login : (t₁.account uid).login = (s.account uid).login
  parent : (t₁.account uid).parent = parent
  pass : (t₁.account uid).pass = p
  penalty : (t₁.account uid).penalty ≤ 2
  usernode : t₁.usernode = (t.create uid).usernode
  shared : ∀ k, (∀ x, k ≠ .node x) → t₁.user k = t.user k

/-- Saving and loading. -/
theorem Ready.loaded (h : Ready s uid parent p) (salt : Salt) :
    ∃ s₁, s.writeuser salt uid = some s₁ ∧ readconfig [] (some (flushconfig s₁.conf)) = some s₁.conf ∧
      ∀ (t : Users) (randstring : CStr), t.conf = s₁.conf → (t.account uid).penalty ≤ 2 →
        ∃ t₁, t.loaduser salt randstring uid.toNat = some t₁ ∧ Loaded s uid parent p t t₁ := by
  have hrecord := h.sound.records uid
  rcases writeuser_spec h.sound h.user salt with
    ⟨s₁, pass', hwrite, hs₁, hhash, hhead, hdecl, hrep, hstored⟩
  -- the password is hashed already
  have hsame : pass' = p := by
    rw [hashInPlace, h.pass, if_pos h.head] at hhash
    exact (Option.some.inj hhash).symm
  subst hsame
  refine ⟨s₁, hwrite, (roundTrips_iff_short hs₁.conf.lines).2 hs₁.conf.short, ?_⟩
  intro t randstring hconf hpenalty
  have hnick := hrecord.named h.login
  rw [← hconf] at hstored
  rcases loaduser_create t h.user.pos h.user.le hdecl h.login hnick hhead (toNat_lt h.user) hstored
    salt randstring with ⟨t₁, hload, haccount, husernode, hshared⟩
  refine ⟨t₁, hload, ?_⟩
  exact
    { login := by
        rw [haccount, account_of_isUser h.user]
        rfl
      parent := by
        rw [haccount]
        exact (atoi_iset_parent hrecord.parent).trans h.parent
      pass := by
        rw [haccount]
        rfl
      penalty := by
        rw [haccount]
        exact penalty_create t h.user.pos h.user.le hpenalty
      usernode := husernode
      shared := hshared }

theorem Ready.loginAccount (h : Ready s uid parent p) :
    s.loginAccount uid = if parent ≠ 0 then parent else uid := by
  rw [Users.loginAccount, account_of_isUser h.user, h.parent]

/-- Saving, loading and logging in. -/
theorem Ready.works_iff (h : Ready s uid parent p) :
    PassWorks salt s uid pass ↔
      s.loginAccount uid = uid ∧ offeredPass salt (peerPass pass) = some p := by
  rcases h.loaded salt with ⟨s₁, hwrite, hread, hloaded⟩
  have hlogin := h.loginAccount
  have hpos := h.user.pos
  constructor
  · rintro ⟨s₁', conf, hwrite', hread', hworks⟩
    cases hwrite.symm.trans hwrite'
    cases hread.symm.trans hread'
    -- A process that starts anew counts no wrong logins.
    have hpenalty : ((newProcess s₁.conf).account uid).penalty ≤ 2 := by
      show blankAccount.penalty ≤ 2
      decide
    rcases hloaded (newProcess s₁.conf) [] rfl hpenalty with ⟨t₁, hload, hl⟩
    rcases hworks (newProcess s₁.conf) [] rfl hpenalty with ⟨t₁', hload', hopen⟩
    cases hload.symm.trans hload'
    have husernode : t₁.usernode = [0, uid] := by
      rw [hl.usernode, create, if_neg]
      · rfl
      · rintro (hzero | hmax | hmem)
        · exact hpos.ne' hzero
        · exact absurd h.user.le (not_le.2 hmax)
        · exact hpos.ne' (List.mem_singleton.1 hmem)
    have hne : (t₁.account uid).login ≠ [] := by
      rw [hl.login, account_of_isUser h.user]
      exact h.login
    -- It finds the one account that was loaded, or the parent of it.
    have hfound := checkuser_newProcess husernode (hl.shared .nulluser (by simp)) hne
    have hself : t₁.loginAccount uid = s.loginAccount uid := by
      rw [Users.loginAccount, hl.parent, hlogin]
    rw [hl.login] at hfound
    rcases hopen hfound 0 0 with ⟨t₂, hlink⟩
    rw [hself] at hfound
    by_cases hown : s.loginAccount uid = uid
    · refine ⟨hown, ?_⟩
      rw [hown] at hfound
      rw [linkpeer_offered (by rw [hfound]; exact hpos.ne') hlink, hfound, hl.pass]
    · -- the parent of a network was not loaded, and nobody has an empty password
      rw [hlogin] at hfound hown
      by_cases hparent : parent = 0
      · exact absurd (if_neg (not_not_intro hparent)) hown
      · rw [if_pos hparent] at hfound hown
        have hle : 0 ≤ parent ∧ parent ≤ 100 := by
          rw [← h.parent]
          exact (h.sound.records uid).parent
        have hdummy : t₁.account parent = blankAccount := by
          rw [account, slot_dummyuser (by rw [husernode]; simp [hparent, hown]) (by omega) hle.2]
          exact hl.shared .dummyuser (by simp)
        have hoffered := linkpeer_offered (by rwa [hfound]) hlink
        rw [hfound, hdummy] at hoffered
        exact absurd hoffered offeredPass_ne_nil
  · rintro ⟨hself, hoffered⟩
    -- The account is its own login account, and the password that is offered is the stored one.
    refine ⟨s₁, s₁.conf, hwrite, hread, fun t randstring hconf hpenalty => ?_⟩
    rcases hloaded t randstring hconf hpenalty with ⟨t₁, hload, hl⟩
    refine ⟨t₁, hload, fun hcheck time rnd => ?_⟩
    have huid : t₁.checkuser (s.account uid).login = uid := by
      rw [hcheck, Users.loginAccount, hl.parent, ← hlogin, hself]
    apply linkpeer_accepted
    · rw [huid]
      exact hpos.ne'
    · rw [huid, hl.pass, hoffered]
    · rw [huid]
      exact hl.penalty

/-! ## Where the password was set -/

theorem hashInPlace_head {p : CStr} (h : hashInPlace salt pass = some p) :
    p.head? = some EQUALS := by
  rw [hashInPlace] at h
  split at h
  · rename_i hhead
    cases h
    exact hhead
  · rcases Option.map_eq_some_iff.1 h with ⟨hash, hhash, rfl⟩
    rcases hashOf_eq_cons hhash with ⟨t, rfl⟩
    rfl

/-- A password that is no hash is hashed as the peer's one. -/
theorem hashInPlace_eq_offered (h : pass.head? ≠ some EQUALS) :
    hashInPlace salt pass = offeredPass salt pass := by
  rw [hashInPlace, if_neg h, offeredPass]

theorem Adds.ready {s' : Users} {u : Account} (h : Adds salt s s' uid u) (hlogin : u.login ≠ [])
    (hhash : hashInPlace salt u.pass = some p) : Ready s' uid u.parent p := by
  rcases h.user with ⟨p', hhash', huser, hsame⟩
  cases hhash.symm.trans hhash'
  have hrecord : s'.user (.node uid) = renewed u p := by
    rw [huser, update_self]
  have hmem : uid ∈ s'.usernode := by
    rw [h.usernode]
    exact (isUser_create h.pos h.le).mem
  refine ⟨h.sound, ⟨hmem, h.pos, h.le⟩, ?_, ?_, ?_, hashInPlace_head hhash⟩
  · rw [hrecord]
    exact hlogin
  · rw [hrecord, hsame]
  · rw [hrecord]
    rfl

/-- The record may change in other fields. -/
theorem Ready.put (h : Ready s uid parent p) {u : Account} (hu : u.Sound)
    (hlogin : u.login = (s.user (.node uid)).login)
    (hparent : u.parent = (s.user (.node uid)).parent)
    (hpass : u.pass = (s.user (.node uid)).pass) :
    Ready (s.put (.node uid) u) uid parent p := by
  have hrecord : (s.put (.node uid) u).user (.node uid) = u := update_self _ _ _
  refine ⟨h.sound.put hu, isUser_congr h.user rfl, ?_, ?_, ?_, h.head⟩
  · rw [hrecord, hlogin]
    exact h.login
  · rw [hrecord, hparent]
    exact h.parent
  · rw [hrecord, hpass]
    exact h.pass

theorem Ready.writeuser (h : Ready s uid parent p) {s' : Users}
    (hwrite : s.writeuser salt uid = some s') : Ready s' uid parent p := by
  rcases writeuser_spec h.sound h.user salt with ⟨s₁, p', hwrite₁, hs₁, hhash, _, _, hrep, _⟩
  cases hwrite.symm.trans hwrite₁
  rw [hashInPlace, h.pass, if_pos h.head] at hhash
  have hrecord : s'.user (.node uid) = s.user (.node uid) := by
    rw [hrep.user, update_self, ← Option.some.inj hhash, ← h.pass]
  refine ⟨hs₁, isUser_congr h.user hrep.usernode, ?_, ?_, ?_, h.head⟩
  · rw [hrecord]
    exact h.login
  · rw [hrecord]
    exact h.parent
  · rw [hrecord]
    exact h.pass

/-- The shared records do not matter. -/
theorem Ready.put_shared (h : Ready s uid parent p) {k : Slot} (hk : ∀ x, k ≠ .node x) (u : Account) :
    Ready (s.put k u) uid parent p := by
  have hrecord : ∀ x, (s.put k u).user (.node x) = s.user (.node x) :=
    fun x => update_of_ne (hk x).symm _ _
  refine ⟨{ h.sound with records := fun x => ?_ }, isUser_congr h.user rfl, ?_, ?_, ?_, h.head⟩
  · rw [hrecord]
    exact h.sound.records x
  · rw [hrecord]
    exact h.login
  · rw [hrecord]
    exact h.parent
  · rw [hrecord]
    exact h.pass

/-! ### `PASSWORD` -/

theorem setPass_spec (hs : s.Sound) (h : s.IsUser uid) {p : CStr} (hp : p.length < 20 ∧ LF ∉ p)
    {s' : Users} (hset : setPass p s uid = some s') :
    s'.Sound ∧ s.Replaces s' uid
      { s.user (.node uid) with pass := p, pentime := 0, penalty := 0 } := by
  rcases Option.map_eq_some_iff.1 hset with ⟨conf', hw, rfl⟩
  have hfile : clip 20 (userFile uid.toNat) = userFile uid.toNat := by
    have hlen := length_userFile (toNat_lt h)
    exact clip_eq_self (by omega)
  rw [hfile] at hw
  have hname : Plain (ascii "PASS") ∧ LF ∉ ascii "PASS" ∧ (ascii "PASS").length < 40 := by decide
  have hrecord := hs.records uid
  have hnew : Account.Sound { s.user (.node uid) with pass := p, pentime := 0, penalty := 0 } :=
    { hrecord with declared := { hrecord.declared with pass := hp } }
  have hput : (s.put (.node uid) _).Sound := hs.put hnew
  have hconf := hs.conf.writeini (toNat_lt h) hname ⟨hp.2, Nat.lt_trans hp.1 (by decide)⟩ hw
  rw [slot_of_isUser h, account_of_isUser h]
  exact ⟨{ hput with conf := hconf }, rfl, rfl⟩

/-- The loop of `cmdpassword` gives every node of its list the password. -/
theorem setPass_foldlM_spec (hs : s.Sound) {p : CStr} (hp : p.length < 20 ∧ LF ∉ p)
    {uids : List Int} (huids : ∀ x ∈ uids, s.IsUser x) {s' : Users}
    (h : uids.foldlM (setPass p) s = some s') :
    s'.Sound ∧ s'.usernode = s.usernode ∧ ∀ x,
      (s'.user (.node x)).login = (s.user (.node x)).login ∧
      (s'.user (.node x)).parent = (s.user (.node x)).parent ∧
      (s'.user (.node x)).pass = if x ∈ uids then p else (s.user (.node x)).pass := by
  induction uids generalizing s with
  | nil =>
      cases h
      exact ⟨hs, rfl, fun x => ⟨rfl, rfl, by simp⟩⟩
  | cons uid uids ih =>
      rw [List.foldlM_cons] at h
      rcases Option.bind_eq_some_iff.1 h with ⟨s₁, hone, hrest⟩
      rcases setPass_spec hs (huids uid (by simp)) hp hone with ⟨hs₁, hrep⟩
      have huids₁ : ∀ x ∈ uids, s₁.IsUser x :=
        fun x hx => isUser_congr (huids x (List.mem_cons_of_mem _ hx)) hrep.usernode
      rcases ih hs₁ huids₁ hrest with ⟨hs', hnode, hrecords⟩
      refine ⟨hs', hnode.trans hrep.usernode, ?_⟩
      intro x
      rcases hrecords x with ⟨hlogin, hparent, hpass⟩
      rw [hlogin, hparent, hpass, hrep.user]
      by_cases hx : x = uid
      · subst hx
        simp
      · have hnode' : Slot.node x ≠ Slot.node uid := fun heq => hx (Slot.node.inj heq)
        rw [update_of_ne hnode']
        simp [hx]

theorem length_peerPass (pass : CStr) : (peerPass pass).length < 20 := by
  rw [peerPass, length_clip]
  omega

theorem cmdpassword_ready (hs : s.Sound) {usern uind : Int} {ircto irccontent : CStr}
    (htarget : s.passwordTarget usern ircto irccontent = some uind) (hlive : s.Live uind) {s' : Users}
    (h : s.cmdpassword salt usern ircto irccontent = some s') :
    ∃ p, offeredPass salt irccontent = some p ∧ Ready s' uind (s.account uind).parent p := by
  have huser := hlive.isUser hs
  have hlogin := hlive.2.2
  rw [account_of_isUser huser] at hlogin
  rw [cmdpassword, htarget] at h
  rcases Option.bind_eq_some_iff.1 h with ⟨hash, hhash, hloop⟩
  have hp : (clip 20 hash).length < 20 ∧ LF ∉ clip 20 hash :=
    field_of_text (by decide) (lf_notMem_hashOf hhash)
  have huids : ∀ x ∈ s.passwordNodes uind, s.IsUser x := by
    intro x hx
    rcases List.mem_filter.1 hx with ⟨hmem, hcond⟩
    exact isUser_of_mem hs hmem (of_decide_eq_true hcond).1
  rcases setPass_foldlM_spec hs hp huids hloop with ⟨hs', hnode, hrecords⟩
  rcases hrecords uind with ⟨hlogin', hparent', hpass'⟩
  have hmem : uind ∈ s.passwordNodes uind :=
    List.mem_filter.2 ⟨hlive.1, decide_eq_true ⟨hlive.2.1, Or.inl rfl⟩⟩
  rw [if_pos hmem] at hpass'
  refine ⟨clip 20 hash, ?_, hs', isUser_congr huser hnode, ?_, ?_, hpass', ?_⟩
  · rw [offeredPass, hhash, Option.map_some]
  · rw [hlogin']
    exact hlogin
  · rw [hparent', account_of_isUser huser]
  · rcases hashOf_eq_cons hhash with ⟨t, rfl⟩
    rfl

/-- Passwords with the same key have the same hash. -/
theorem sameHash_iff {pass' : CStr} (hlen : pass.length < 32764) (hlen' : pass'.length < 32764) :
    offeredPass salt pass = offeredPass salt pass' ↔
      keyWords pass = keyWords pass' ∨ PassSource.Collide salt pass pass' := by
  constructor
  · intro heq
    by_cases hkeys : keyWords pass = keyWords pass'
    · exact Or.inl hkeys
    · exact Or.inr ⟨hkeys, heq⟩
  · rintro (hkeys | hcollide)
    · rw [offeredPass, offeredPass, hashOf_congr salt hlen hlen' hkeys]
    · exact hcollide.2

/-! ### `ADDUSER` -/

theorem length_randstring (rand : Nat → Nat) : (randstring 8 rand).length = 8 := by
  simp [randstring]

/-- The generated password is eight letters. -/
theorem head_randstring (rand : Nat → Nat) :
    ∃ b t, randstring 8 rand = b :: t ∧ 97 ≤ b.toNat := by
  refine ⟨UInt8.ofNat (97 + rand 0 % 16), _, rfl, ?_⟩
  rw [UInt8.toNat_ofNat']
  omega

theorem cmdadduser_ready (hs : s.Sound) {usern : Int} (husern : usern ≠ 0)
    {ircto irccontent : CStr} (hto : LF ∉ ircto) (hcontent : LF ∉ irccontent) {rc : Int} {s' : Users}
    (h : s.cmdadduser salt rand usern ircto irccontent = some (rc, s')) (hrc : rc ≠ -1) :
    ∃ p, offeredPass salt (peerPass (randstring 8 rand)) = some p ∧ Ready s' rc 0 p := by
  have hclip : clip 20 (randstring 8 rand) = randstring 8 rand := by
    apply clip_eq_self
    rw [length_randstring]
    decide
  have hnew : s.newPass usern rand = randstring 8 rand := by
    rw [newPass, if_neg husern, hclip]
  have hpass : LF ∉ s.newPass usern rand := by
    rw [hnew]
    exact lf_notMem_randstring 8 rand
  rcases cmdadduser_spec hs hto hcontent hpass salt with
    hrefused | ⟨uid, s₁, u, hcmd, hadds, _, hlogin, hparent, hupass, _⟩
  · cases hrefused.symm.trans h
    exact absurd rfl hrc
  · cases hcmd.symm.trans h
    rcases head_randstring rand with ⟨b, t, hletters, hletter⟩
    have hplus : (randstring 8 rand).head? ≠ some PLUS := by
      rw [hletters]
      rintro ⟨⟩
      exact absurd hletter (by decide)
    have hequals : (randstring 8 rand).head? ≠ some EQUALS := by
      rw [hletters]
      rintro ⟨⟩
      exact absurd hletter (by decide)
    have hpeer : peerPass (randstring 8 rand) = randstring 8 rand := by
      rw [peerPass, if_neg hplus, hclip]
    rcases hadds.user with ⟨p, hhash, -⟩
    refine ⟨p, ?_, hparent ▸ hadds.ready hlogin hhash⟩
    rw [hpeer, ← hashInPlace_eq_offered hequals, ← hnew, ← hupass]
    exact hhash

/-! ### The first login -/

/-- `PASS` makes no `=` out of another letter. -/
theorem head_peerPass {irccontent : CStr} :
    (peerPass irccontent).head? = some EQUALS ↔ irccontent.head? = some EQUALS := by
  have hclip : ∀ t : CStr, (clip 20 t).head? = t.head? := by
    intro t
    rw [clip, List.head?_take, if_neg (by decide)]
  rw [peerPass, hclip]
  split
  · rename_i hplus
    rw [List.head?_cons, hplus]
    decide
  · rfl

theorem lf_notMem_peerPass {irccontent : CStr} (h : LF ∉ irccontent) : LF ∉ peerPass irccontent := by
  intro hmem
  have hin := mem_of_mem_clip hmem
  split at hin
  · rcases List.mem_cons.1 hin with hlf | hin
    · exact absurd hlf (by decide)
    · exact h (List.mem_of_mem_tail hin)
  · exact h hin

/-- `firstuser` hashes the password of the peer, unless it looks like a hash. -/
theorem firstuser_ready (hs : s.Sound) {nick user login irccontent : CStr} (huser : LF ∉ user)
    (hlogin : LF ∉ login) (hpass : LF ∉ irccontent) {rc : Int} {s' : Users}
    (h : s.firstuser salt rand ⟨nick, user, login, peerPass irccontent⟩ = some (rc, s'))
    (hrc : rc ≠ -1) :
    ∃ p, hashInPlace salt (peerPass irccontent) = some p ∧ Ready s' rc 0 p := by
  rcases Option.bind_eq_some_iff.1 h with ⟨⟨linkto, s₁⟩, hadd, hrest⟩
  dsimp only at hrest
  split at hrest
  · cases hrest
    exact absurd rfl hrc
  · rename_i hlinkto
    rcases Option.map_eq_some_iff.1 hrest with ⟨s₂, hwrite, heq⟩
    rcases Prod.mk.inj heq with ⟨hlinkto', rfl⟩
    subst hlinkto'
    generalize hnull : ({ s.user .nulluser with
      rights := RI_ADMIN
      nick := clip 64 nick
      login := clip 64 login
      pass := clip 20 (peerPass irccontent) } : Account) = nulluser at hadd
    have hs₀ : (s.put .nulluser nulluser).Sound :=
      { hs with records := fun x => by simpa [Users.put] using hs.records x }
    -- The new account takes the password of the peer, which is in record 0.
    have hnew : (s.put .nulluser nulluser).newPass 0 rand = peerPass irccontent := by
      have haccount : (s.put .nulluser nulluser).account 0 = nulluser := by
        rw [account_zero]
        simp only [put, update_self]
      have hclip := clip_eq_self (length_peerPass irccontent)
      rw [newPass, if_pos rfl, haccount, ← hnull, hclip, hclip]
    have hclean : LF ∉ (s.put .nulluser nulluser).newPass 0 rand := by
      rw [hnew]
      exact lf_notMem_peerPass hpass
    have htexts : LF ∉ clip 800 login ∧ LF ∉ clip 6000 user :=
      ⟨fun hmem => hlogin (mem_of_mem_clip hmem), fun hmem => huser (mem_of_mem_clip hmem)⟩
    have hready : ∃ p, hashInPlace salt (peerPass irccontent) = some p ∧ Ready s₁ linkto 0 p := by
      rcases cmdadduser_spec hs₀ htexts.1 htexts.2 hclean salt with
        hrefused | ⟨uid, t, u, hcmd, hadds, _, hne, hparent, hupass, _⟩
      · cases hrefused.symm.trans hadd
        exact absurd rfl hlinkto
      · cases hcmd.symm.trans hadd
        rcases hadds.user with ⟨p, hhash, -⟩
        refine ⟨p, ?_, hparent ▸ hadds.ready hne hhash⟩
        rw [← hnew, ← hupass]
        exact hhash
    rcases hready with ⟨p, hhash, hready⟩
    refine ⟨p, hhash, ?_⟩
    apply Ready.writeuser _ hwrite
    split
    · -- the first account may be the owner's
      have hrecord := hready.sound.records linkto
      rw [slot_of_isUser hready.user, account_of_isUser hready.user]
      have hnew : Account.Sound { s₁.user (.node linkto) with rights := RI_ADMIN } :=
        { declared := { hrecord.declared with }
          named := hrecord.named
          parent := hrecord.parent
          dead := hrecord.dead }
      exact hready.put hnew rfl rfl rfl
    · exact hready

theorem firstLogin_ready (hs : s.Sound) {nick user login irccontent : CStr} (hnick : nick ≠ [])
    (hnick' : LF ∉ nick) (huser : LF ∉ user) (hlogin : LF ∉ login) (hpass : LF ∉ irccontent)
    {rc : Int} {s' : Users}
    (h : s.firstLogin salt rand ⟨nick, user, login, peerPass irccontent⟩ = some (rc, s'))
    (hrc : rc ≠ -1) :
    ∃ p, hashInPlace salt (peerPass irccontent) = some p ∧ Ready s' rc 0 p := by
  rcases Option.bind_eq_some_iff.1 h with ⟨⟨rc', s₁⟩, hfirst, hrest⟩
  dsimp only at hrest
  split at hrest
  · cases hrest
    exact absurd rfl hrc
  · rename_i hrc'
    rcases Option.map_eq_some_iff.1 hrest with ⟨s₂, hwrite, heq⟩
    rcases Prod.mk.inj heq with ⟨hrc'', rfl⟩
    subst hrc''
    rcases firstuser_ready hs huser hlogin hpass hfirst hrc' with ⟨p, hhash, hready⟩
    have hrecord := hready.sound.records rc'
    have hne : clip 64 nick ≠ [] := clip_ne_nil (by decide) hnick
    have hnew : Account.Sound { s₁.user (.node rc') with nick := clip 64 nick, user := clip 64 user } :=
      { declared :=
          { hrecord.declared with
            nick := field_of_text (by decide) hnick'
            user := field_of_text (by decide) huser }
        named := fun _ => hne
        parent := hrecord.parent
        dead := hrecord.dead }
    rw [slot_of_isUser hready.user, account_of_isUser hready.user] at hwrite
    have hwritten := (hready.put hnew rfl rfl rfl).writeuser hwrite
    refine ⟨p, hhash, ?_⟩
    apply Ready.put_shared _ (by simp)
    exact hwritten.put_shared (by simp) _

end Users

/-- A password that was accepted works after the account was saved and loaded exactly when `PASS`
leaves it as good as it was, the account logs in by itself, and a first password is hashed. -/
theorem accepted_password_works_iff (salt : Salt) (rand : Nat → Nat) (s : Users) (hs : s.Sound)
    (source : PassSource) (hreceived : source.Received s) (uid : Int) (pass : CStr) (s' : Users)
    (haccept : source.accept salt rand s = some (uid, pass, s')) :
    PassWorks salt s' uid pass ↔ source.Keeps salt s := by
  cases source with
  | password usern ircto irccontent =>
      rcases PassSource.accept_password haccept with ⟨htarget, rfl, hcmd⟩
      rcases hreceived with ⟨hlen, hlive⟩
      rcases Users.cmdpassword_ready hs htarget (hlive _ htarget) hcmd with ⟨p, hp, hready⟩
      have hself : s'.loginAccount uid = s.loginAccount uid := hready.loginAccount
      have hshort : (peerPass irccontent).length < 32764 :=
        Nat.lt_trans (Users.length_peerPass irccontent) (by decide)
      have hlong : irccontent.length < 32764 := Nat.lt_trans hlen (by decide)
      have htargets : (∀ uind ∈ s.passwordTarget usern ircto irccontent, s.loginAccount uind = uind) ↔
          s.loginAccount uid = uid := by
        rw [htarget]
        simp
      rw [hready.works_iff, hself, ← hp, Users.sameHash_iff hshort hlong]
      exact and_congr_left' htargets.symm
  | adduser usern ircto irccontent =>
      rcases Option.bind_eq_some_iff.1 haccept with ⟨⟨rc, s₁⟩, hcmd, hrest⟩
      dsimp only at hrest
      split at hrest
      · cases hrest
      · rename_i hrc
        cases hrest
        rcases Users.cmdadduser_ready hs hreceived.1 hreceived.2.1 hreceived.2.2 hcmd hrc with
          ⟨p, hp, hready⟩
        exact iff_of_true (hready.works_iff.2 ⟨hready.loginAccount, hp⟩) trivial
  | first nick user login irccontent =>
      rcases Option.bind_eq_some_iff.1 haccept with ⟨⟨rc, s₁⟩, hcmd, hrest⟩
      dsimp only at hrest
      split at hrest
      · cases hrest
      · rename_i hrc
        cases hrest
        rcases hreceived with ⟨hnick, hnick', huser, hlogin, hpass⟩
        rcases Users.firstLogin_ready hs hnick hnick' huser hlogin hpass hcmd hrc with
          ⟨p, hhash, hready⟩
        have hself : s'.loginAccount uid = uid := hready.loginAccount
        rw [hready.works_iff, and_iff_right hself]
        by_cases hequals : pass.head? = some EQUALS
        · -- the password is stored as it is
          rw [hashInPlace, if_pos (Users.head_peerPass.2 hequals)] at hhash
          rw [← hhash]
          exact (or_iff_right (not_not_intro hequals)).symm
        · rw [← hhash, Users.hashInPlace_eq_offered (fun h => hequals (Users.head_peerPass.1 h))]
          exact iff_of_true rfl (Or.inl hequals)

/-- Evaluating `accept` on a fixed input. -/
theorem exists_accept (rand : Nat → Nat) (s : Users) (source : PassSource) (uid : Int) (pass : CStr)
    (h : (source.accept buildSalt rand s).map (fun r => (r.1, r.2.1)) = some (uid, pass)) :
    ∃ s', source.accept buildSalt rand s = some (uid, pass, s') := by
  rcases Option.map_eq_some_iff.1 h with ⟨⟨uid', pass', s'⟩, haccept, heq⟩
  rcases Prod.mk.inj heq with ⟨rfl, rfl⟩
  exact ⟨s', haccept⟩

/-- The owner changes the password from a client. -/
theorem accepted_password_works_owner :
    ∃ s', (PassSource.password 1 [] (ascii "secret")).accept buildSalt (fun _ => 0) ownerOnly =
        some (1, ascii "secret", s') ∧ PassWorks buildSalt s' 1 (ascii "secret") := by
  rcases exists_accept (fun _ => 0) ownerOnly (.password 1 [] (ascii "secret")) 1 (ascii "secret")
    (by decide +kernel) with ⟨s', haccept⟩
  have hpeer : peerPass (ascii "secret") = ascii "secret" := by
    decide
  have hevery : ∀ {P : Int → Prop}, P 1 →
      ∀ uind ∈ ownerOnly.passwordTarget 1 [] (ascii "secret"), P uind := by
    intro P hone uind hmem
    have htarget : ownerOnly.passwordTarget 1 [] (ascii "secret") = some 1 := by
      decide
    rwa [← Option.some.inj (htarget.symm.trans hmem)]
  refine ⟨s', haccept, ?_⟩
  apply (accepted_password_works_iff buildSalt (fun _ => 0) ownerOnly ownerOnly_sound _ _ _ _ s'
    haccept).2
  · exact ⟨hevery (by decide), Or.inl (congrArg keyWords hpeer)⟩
  · exact ⟨by decide, hevery (by decide)⟩

/-! ## Passwords that do not work -/

/-- `PASS` sends another password than the one that was set. -/
theorem offered_plus_ne :
    offeredPass buildSalt (peerPass (ascii "+abc")) ≠ offeredPass buildSalt (ascii "+abc") := by
  have hsalt : buildSalt.slt1 ++ buildSalt.slt2 =
      110 :: 100 :: 107 :: 97 :: 110 :: 100 :: 114 :: 111 :: ascii "idsaltpsybncportable" := by
    decide +kernel
  apply clippedHash_ne (by decide) (by decide) hsalt (by decide)
  intro heq
  have heval := evalBlowfish_congr evalOneTableF_computes initialWords_holds.length heq
  revert heval
  decide +kernel

/-- The owner sets a password that starts with `+`. -/
theorem plus_password_fails :
    ∃ s', (PassSource.password 1 [] (ascii "+abc")).accept buildSalt (fun _ => 0) ownerOnly =
        some (1, ascii "+abc", s') ∧ ¬ PassWorks buildSalt s' 1 (ascii "+abc") := by
  rcases exists_accept (fun _ => 0) ownerOnly (.password 1 [] (ascii "+abc")) 1 (ascii "+abc")
    (by decide +kernel) with ⟨s', haccept⟩
  refine ⟨s', haccept, fun hworks => ?_⟩
  rcases PassSource.accept_password haccept with ⟨htarget, -, hcmd⟩
  rcases Users.cmdpassword_ready ownerOnly_sound htarget (by decide) hcmd with ⟨p, hp, hready⟩
  have hoffered := (hready.works_iff.1 hworks).2
  exact offered_plus_ne (hoffered.trans hp.symm)

end PsyBnc
