import PsyBnc.Accounts.Sound
import PsyBnc.Lib.Forest
import PsyBnc.Lib.Run

/-!
# Accounts and their networks

The accounts form a forest of depth one: a login account has no parent, a network has its login
account as parent and the same login.  Each command is an operation on that forest, and `SWITCHNET`
lets a network change places with its parent.
-/

namespace PsyBnc

open CLib Function

namespace Users

/-- An account: a node with a login. -/
def Live (s : Users) (uid : Int) : Prop :=
  uid ∈ s.usernode ∧ uid ≠ 0 ∧ (s.account uid).login ≠ []

instance Live.decidable (s : Users) (uid : Int) : Decidable (s.Live uid) := by
  dsimp [Live]
  infer_instance

/-- A record as a node of the forest. -/
def familyEntry (u : Account) : Option (Option Int × CStr) :=
  if u.login = [] then none else some (if u.parent = 0 then none else some u.parent, u.login)

/-- The forest of the accounts. -/
def kin (s : Users) (uid : Int) : Option (Option Int × CStr) :=
  if s.Live uid then familyEntry (s.account uid) else none

/-- The record that stands for no user at all. -/
structure Idle (s : Users) : Prop where
  login : (s.user .nulluser).login = []
  parent : (s.user .nulluser).parent = 0

variable {salt : Salt} {rand : Nat → Nat} {s s' : Users} {uid p : Int} {l : CStr}

/-! ## Reading the forest -/

theorem isUser_of_mem (hs : s.Sound) (hmem : uid ∈ s.usernode) (hne : uid ≠ 0) : s.IsUser uid := by
  rcases hs.uids uid hmem with ⟨hle, hle'⟩
  exact ⟨hmem, by omega, hle'⟩

theorem Live.isUser (hs : s.Sound) (h : s.Live uid) : s.IsUser uid := isUser_of_mem hs h.1 h.2.1

theorem familyEntry_eq_some {u : Account} {x : Option Int} :
    familyEntry u = some (x, l) ↔
      u.login ≠ [] ∧ x = (if u.parent = 0 then none else some u.parent) ∧ l = u.login := by
  rw [familyEntry]
  by_cases hlogin : u.login = []
  · simp [hlogin]
  · simp only [hlogin, if_false, Option.some.injEq, Prod.mk.injEq, ne_eq, not_false_eq_true,
      true_and]
    exact and_congr eq_comm eq_comm

theorem kin_eq_some {x : Option Int} :
    s.kin uid = some (x, l) ↔ s.Live uid ∧
      x = (if (s.account uid).parent = 0 then none else some (s.account uid).parent) ∧
      l = (s.account uid).login := by
  rw [kin]
  by_cases hlive : s.Live uid
  · rw [if_pos hlive, familyEntry_eq_some]
    exact ⟨fun h => ⟨hlive, h.2⟩, fun h => ⟨hlive.2.2, h.2⟩⟩
  · rw [if_neg hlive]
    exact ⟨fun h => absurd h (by simp), fun h => absurd h.1 hlive⟩

/-- A login account. -/
theorem kin_root : s.kin uid = some (none, l) ↔
    s.Live uid ∧ (s.account uid).parent = 0 ∧ (s.account uid).login = l := by
  rw [kin_eq_some]
  by_cases hparent : (s.account uid).parent = 0
  · simp [hparent, eq_comm]
  · simp [hparent]

/-- A network. -/
theorem kin_child : s.kin uid = some (some p, l) ↔
    s.Live uid ∧ p ≠ 0 ∧ (s.account uid).parent = p ∧ (s.account uid).login = l := by
  rw [kin_eq_some]
  by_cases hparent : (s.account uid).parent = 0
  · simp only [hparent, if_true, reduceCtorEq, false_and, and_false, false_iff, not_and]
    rintro _ hp rfl
    exact absurd rfl hp
  · simp only [hparent, if_false, Option.some.injEq]
    constructor
    · rintro ⟨hlive, rfl, rfl⟩
      exact ⟨hlive, hparent, rfl, rfl⟩
    · rintro ⟨hlive, _, rfl, rfl⟩
      exact ⟨hlive, rfl, rfl⟩

/-- Every account has no parent, or an account without a parent and with the same login as parent. -/
def ParentsKept (s : Users) : Prop :=
  ∀ uid, s.Live uid → (s.account uid).parent = 0 ∨
    (s.Live (s.account uid).parent ∧ (s.account (s.account uid).parent).parent = 0 ∧
      (s.account (s.account uid).parent).login = (s.account uid).login)

theorem parentsKept_iff_forest : s.ParentsKept ↔ Forest s.kin := by
  constructor
  · intro h uid p l hkin
    rcases kin_child.1 hkin with ⟨hlive, hp, rfl, rfl⟩
    exact kin_root.2 ((h uid hlive).resolve_left hp)
  · intro h uid hlive
    by_cases hparent : (s.account uid).parent = 0
    · exact Or.inl hparent
    · exact Or.inr (kin_root.1 (h uid _ _ (kin_child.2 ⟨hlive, hparent, rfl, rfl⟩)))

/-! ## Changing the forest -/

section View

variable {β : Type} {f : Account → Option β}

/-- What is read off the record of each account. -/
def view (f : Account → Option β) (s : Users) (uid : Int) : Option β :=
  if s.Live uid then f (s.account uid) else none

theorem view_of_isUser (hf : ∀ u, u.login = [] → f u = none) (h : s.IsUser uid) :
    view f s uid = f (s.user (.node uid)) := by
  have hne : uid ≠ 0 := by
    have hpos := h.pos
    omega
  rw [view, account_of_isUser h]
  by_cases hlogin : (s.user (.node uid)).login = []
  · have hdead : ¬ s.Live uid := by
      intro hlive
      apply hlive.2.2
      rw [account_of_isUser h, hlogin]
    rw [if_neg hdead, hf _ hlogin]
  · have hlive : s.Live uid := ⟨h.mem, hne, by rwa [account_of_isUser h]⟩
    rw [if_pos hlive]

theorem view_of_not_isUser (hs : s.Sound) (h : ¬ s.IsUser uid) : view f s uid = none := by
  rw [view, if_neg]
  exact fun hlive => h (hlive.isUser hs)

/-- Replacing a record replaces one entry. -/
theorem view_replaces (hf : ∀ u, u.login = [] → f u = none) (hs : s.Sound) (hs' : s'.Sound)
    (h : s.IsUser uid) {u : Account} (hrep : s.Replaces s' uid u) :
    view f s' = update (view f s) uid (f u) := by
  funext x
  by_cases hx : s.IsUser x
  · have hx' : s'.IsUser x := isUser_congr hx hrep.usernode
    rw [view_of_isUser hf hx', hrep.user]
    by_cases hxu : x = uid
    · rw [hxu, update_self, update_self]
    · have hnode : Slot.node x ≠ Slot.node uid := by
        intro heq
        cases heq
        exact hxu rfl
      rw [update_of_ne hnode, update_of_ne hxu, view_of_isUser hf hx]
  · have hx' : ¬ s'.IsUser x := fun h' => hx (isUser_congr h' hrep.usernode.symm)
    have hxu : x ≠ uid := by
      rintro rfl
      exact hx h
    rw [view_of_not_isUser hs' hx', update_of_ne hxu, view_of_not_isUser hs hx]

/-- A node that is added is not an account yet. -/
theorem view_create (hf : ∀ u, u.login = [] → f u = none) (hs : s.Sound) (hpos : 0 < uid)
    (hle : uid ≤ 100) : view f (s.create uid) = view f s := by
  by_cases hmem : uid ∈ s.usernode
  · rw [create_of_mem hmem]
  · funext x
    by_cases hxu : x = uid
    · subst hxu
      have hfree : s.loginOf x = [] := if_neg hmem
      have hno : ¬ s.IsUser x := fun h => hmem h.mem
      rw [view_of_isUser hf (isUser_create hpos hle), hf _ (login_create hfree hpos hle),
        view_of_not_isUser hs hno]
    · by_cases hx : s.IsUser x
      · have hx' : (s.create uid).IsUser x := ⟨mem_create s uid hx.mem, hx.pos, hx.le⟩
        rw [view_of_isUser hf hx', view_of_isUser hf hx, user_create_of_ne hxu]
      · have hx' : ¬ (s.create uid).IsUser x := by
          intro h
          apply hx
          refine ⟨?_, h.pos, h.le⟩
          have hin := h.mem
          rw [create] at hin
          split at hin
          · exact hin
          · rcases List.mem_append.1 hin with hin | hin
            · exact hin
            · exact absurd (List.mem_singleton.1 hin) hxu
        rw [view_of_not_isUser (hs.create hpos hle) hx', view_of_not_isUser hs hx]

/-- A new account is one new entry, where there was none. -/
theorem view_adds (hf : ∀ u, u.login = [] → f u = none) (hs : s.Sound) {u : Account}
    (h : Adds salt s s' uid u) :
    view f s uid = none ∧ ∃ pass, (renewed u pass).parent = u.parent ∧
      view f s' = update (view f s) uid (f (renewed u pass)) := by
  rcases h.user with ⟨pass, _, huser, hparent⟩
  have hcreate := isUser_create (s := s) h.pos h.le
  refine ⟨?_, pass, hparent, ?_⟩
  · rw [← view_create hf hs h.pos h.le, view_of_isUser hf hcreate, hf _ (login_create h.free h.pos h.le)]
  · rw [view_replaces hf (hs.create h.pos h.le) h.sound hcreate ⟨h.usernode, huser⟩,
      view_create hf hs h.pos h.le]

/-- A record that gets another password, as when it is written. -/
theorem view_pass (hf : ∀ u, u.login = [] → f u = none)
    (hpass : ∀ (u : Account) (pass : CStr), f { u with pass := pass } = f u) (hs : s.Sound) (hs' : s'.Sound)
    (h : s.IsUser uid) {pass : CStr} (hrep : s.Replaces s' uid { s.user (.node uid) with pass := pass }) :
    view f s' = view f s := by
  rw [view_replaces hf hs hs' h hrep, hpass, ← view_of_isUser hf h, update_eq_self]

end View

theorem familyEntry_dead (u : Account) (h : u.login = []) : familyEntry u = none := by
  rw [familyEntry, if_pos h]

/-- The forest is read off the nodes. -/
theorem kin_of_isUser (h : s.IsUser uid) : s.kin uid = familyEntry (s.user (.node uid)) :=
  view_of_isUser familyEntry_dead h

theorem kin_of_not_isUser (hs : s.Sound) (h : ¬ s.IsUser uid) : s.kin uid = none :=
  view_of_not_isUser hs h

theorem kin_replaces (hs : s.Sound) (hs' : s'.Sound) (h : s.IsUser uid) {u : Account}
    (hrep : s.Replaces s' uid u) : s'.kin = update s.kin uid (familyEntry u) :=
  view_replaces familyEntry_dead hs hs' h hrep

theorem kin_adds (hs : s.Sound) {u : Account} (h : Adds salt s s' uid u) (hlogin : u.login ≠ []) :
    s.kin uid = none ∧
      s'.kin = update s.kin uid (some (if u.parent = 0 then none else some u.parent, u.login)) := by
  rcases view_adds familyEntry_dead hs h with ⟨hnone, pass, hparent, hview⟩
  have hentry : familyEntry (renewed u pass) =
      some (if u.parent = 0 then none else some u.parent, u.login) := by
    rw [familyEntry_eq_some, hparent]
    exact ⟨hlogin, rfl, rfl⟩
  exact ⟨hnone, by rw [← hentry]; exact hview⟩

/-- Removing a user takes one entry away. -/
theorem remove_kin (hs : s.Sound) (h : s.IsUser uid) (salt : Salt) (rand : Nat → Nat) :
    ∃ s', s.remove salt rand uid = some s' ∧ s'.Sound ∧ s'.kin = update s.kin uid none ∧
      s.Replaces s' uid blankAccount := by
  rcases remove_spec hs h salt rand with ⟨s', hremove, hs', hrep⟩
  exact ⟨s', hremove, hs', kin_replaces hs hs' h hrep, hrep⟩

theorem Replaces.idle {u : Account} (h : s.Replaces s' uid u) (hidle : s.Idle) : s'.Idle := by
  have hnull : s'.user .nulluser = s.user .nulluser := by
    rw [h.user]
    exact update_of_ne (by simp) _ _
  exact ⟨by rw [hnull, hidle.login], by rw [hnull, hidle.parent]⟩

theorem Idle.create (hidle : s.Idle) (uid : Int) : (s.create uid).Idle := by
  rw [Users.create]
  split
  · exact hidle
  · exact ⟨by simpa [put] using hidle.login, by simpa [put] using hidle.parent⟩

/-! ## Looking up -/

theorem account_zero (s : Users) : s.account 0 = s.user .nulluser := rfl

/-- The scan of `checkuser` ends at an account with that login, or at its parent. -/
theorem checkuserLoop_spec (hidle : s.Idle) {nick : CStr} (hnick : nick ≠ []) (uids : List Int)
    (hmem : ∀ uid ∈ uids, uid ∈ s.usernode) :
    s.checkuserLoop nick uids = 0 ∨ ∃ uid, s.Live uid ∧ (s.account uid).login = nick ∧
      s.checkuserLoop nick uids =
        if (s.account uid).parent ≠ 0 then (s.account uid).parent else uid := by
  induction uids with
  | nil =>
      exact Or.inl rfl
  | cons uid uids ih =>
      rw [checkuserLoop]
      split
      · rename_i hfound
        have hlogin : (s.account uid).login = nick :=
          (hfound.2.eq_of_length hfound.1.symm).symm
        have hne : uid ≠ 0 := by
          rintro rfl
          rw [account_zero, hidle.login] at hlogin
          exact hnick hlogin.symm
        exact Or.inr ⟨uid, ⟨hmem uid (by simp), hne, by rwa [hlogin]⟩, hlogin, rfl⟩
      · exact ih (fun x hx => hmem x (List.mem_cons_of_mem _ hx))

/-- In a forest it ends at a login account. -/
theorem checkuser_root (hidle : s.Idle) (hf : Forest s.kin) {nick : CStr} (hnick : nick ≠ [])
    (hne : s.checkuser nick ≠ 0) : s.kin (s.checkuser nick) = some (none, nick) := by
  rcases checkuserLoop_spec hidle hnick s.usernode (fun _ h => h) with hzero | ⟨uid, hlive, hlogin, hr⟩
  · exact absurd hzero hne
  · rw [checkuser, hr]
    by_cases hparent : (s.account uid).parent = 0
    · rw [if_neg (not_not_intro hparent)]
      exact kin_root.2 ⟨hlive, hparent, hlogin⟩
    · rw [if_pos hparent]
      exact hf uid _ _ (kin_child.2 ⟨hlive, hparent, rfl, hlogin⟩)

/-- `checkusernetwork` finds a network of the user. -/
theorem checkusernetwork_child (hs : s.Sound) (hidle : s.Idle) {usern : Int} (husern : usern ≠ 0)
    {irccontent : CStr} (hne : s.checkusernetwork usern irccontent ≠ 0) :
    ∃ l, s.kin (s.checkusernetwork usern irccontent) = some (some usern, l) := by
  rw [checkusernetwork] at hne ⊢
  split at hne
  · exact absurd rfl hne
  · rename_i hint
    rw [if_neg hint]
    generalize hfind : (s.usernode.find? fun uind => decide
      ((s.account uind).parent = usern ∧ strmcmp (s.account uind).network irccontent = true)) = found
      at hne ⊢
    cases found with
    | none =>
        exact absurd rfl hne
    | some uid =>
        have hmem := List.mem_of_find?_eq_some hfind
        have hfound := List.find?_some hfind
        simp only [decide_eq_true_eq] at hfound
        have hparent : (s.account uid).parent = usern := hfound.1
        have huid : uid ≠ 0 := by
          rintro rfl
          rw [account_zero, hidle.parent] at hparent
          exact husern hparent.symm
        have huser := isUser_of_mem hs hmem huid
        have hlogin : (s.account uid).login ≠ [] := by
          intro hnil
          rw [account_of_isUser huser] at hnil hparent
          exact husern (hparent.symm.trans ((hs.records uid).dead hnil))
        exact ⟨_, kin_child.2 ⟨⟨hmem, huid, hlogin⟩, husern, hparent, rfl⟩⟩

/-! ## The commands on the forest -/

theorem Adds.idle {u : Account} (h : Adds salt s s' uid u) (hidle : s.Idle) : s'.Idle := by
  rcases h.user with ⟨pass, _, huser, _⟩
  exact Replaces.idle (s := s.create uid) ⟨h.usernode, huser⟩ (hidle.create uid)

/-- `ADDUSER` adds a login account, or nothing. -/
theorem cmdadduser_kin (hs : s.Sound) (hidle : s.Idle) {usern : Int} (husern : usern ≠ 0)
    {ircto irccontent : CStr} (hto : LF ∉ ircto) (hcontent : LF ∉ irccontent) (salt : Salt)
    (rand : Nat → Nat) :
    ∃ rc s', s.cmdadduser salt rand usern ircto irccontent = some (rc, s') ∧ s'.Sound ∧ s'.Idle ∧
      (s'.kin = s.kin ∨
        ∃ uid l, s.kin uid = none ∧ s'.kin = update s.kin uid (some (none, l))) := by
  have hpass : LF ∉ s.newPass usern rand := by
    rw [newPass, if_neg husern]
    exact fun hmem => lf_notMem_randstring 8 rand (mem_of_mem_clip hmem)
  rcases cmdadduser_spec hs hto hcontent hpass salt with
    hrefused | ⟨uid, s', u, hcmd, hadds, _, hlogin, hparent, _⟩
  · exact ⟨-1, s, hrefused, hs, hidle, Or.inl rfl⟩
  · rcases kin_adds hs hadds hlogin with ⟨hnone, hkin⟩
    rw [if_pos hparent] at hkin
    exact ⟨uid, s', hcmd, hadds.sound, hadds.idle hidle, Or.inr ⟨uid, u.login, hnone, hkin⟩⟩

/-- `ADDNETWORK` adds an account with the user as parent, unless it is refused. -/
theorem cmdaddnetwork_spec (hs : s.Sound) {usern : Int} (hlive : s.Live usern) {irccontent : CStr}
    (hcontent : LF ∉ irccontent) (salt : Salt) (rand : Nat → Nat) :
    s.cmdaddnetwork salt rand usern irccontent = some s ∨
      ∃ s' uid u, s.cmdaddnetwork salt rand usern irccontent = some s' ∧ Adds salt s s' uid u ∧
        s.freeUid 99 = some uid ∧ (s.account usern).parent = 0 ∧ irccontent ≠ [] ∧ irccontent.length ≤ 10 ∧
        ¬ s.checkusernetwork usern irccontent > 0 ∧ u.login = (s.account usern).login ∧
        u.parent = usern ∧ u.network = clip 10 irccontent ∧ u.rights = (s.account usern).rights := by
  have huser := hlive.isUser hs
  have hown := hs.records usern
  rw [cmdaddnetwork]
  split
  · exact Or.inl rfl
  · rename_i hok
    rw [not_or, not_not, not_or, not_or, Nat.not_lt] at hok
    cases hfree : s.freeUid 99 with
    | none =>
        exact Or.inl rfl
    | some uid =>
        rcases freeUid_spec hfree with ⟨hpos, hle, hnone⟩
        have huid : (s.create uid).IsUser uid := isUser_create hpos (by omega)
        have hold := (hs.create hpos (by omega)).records uid
        have hlogin : (s.account usern).login ≠ [] := hlive.2.2
        have hrange := huser.le
        have hlow := huser.pos
        have hnew : Account.Sound (newNetwork ((s.create uid).account uid) (s.account usern) usern
            irccontent) := by
          rw [account_of_isUser huid, account_of_isUser huser]
          exact
            { declared :=
                { hold.declared with
                  nick := hown.declared.nick
                  login := hown.declared.login
                  user := hown.declared.user
                  pass := hown.declared.pass
                  network := field_of_text (by decide) hcontent }
              named := hown.named
              parent := ⟨by show 0 ≤ usern; omega, hrange⟩
              dead := fun hnil => absurd hnil (by rwa [← account_of_isUser huser]) }
        rcases adds_of_renew hs hfree (by decide) hnew hlogin salt rand with ⟨s', hrenew, hadds⟩
        exact Or.inr ⟨s', uid, _, hrenew, hadds, rfl, hok.1, hok.2.1, hok.2.2.1, hok.2.2.2, rfl, rfl, rfl, rfl⟩

/-- `ADDNETWORK` adds a network of the user, or nothing. -/
theorem cmdaddnetwork_kin (hs : s.Sound) (hidle : s.Idle) {usern : Int} (hlive : s.Live usern)
    {irccontent : CStr} (hcontent : LF ∉ irccontent) (salt : Salt) (rand : Nat → Nat) :
    ∃ s', s.cmdaddnetwork salt rand usern irccontent = some s' ∧ s'.Sound ∧ s'.Idle ∧
      (s'.kin = s.kin ∨ ∃ uid l, s.kin uid = none ∧ s.kin usern = some (none, l) ∧
        s'.kin = update s.kin uid (some (some usern, l))) := by
  rcases cmdaddnetwork_spec hs hlive hcontent salt rand with
    hrefused | ⟨s', uid, u, hcmd, hadds, _, hroot, _, _, _, hlogin, hparent, _⟩
  · exact ⟨s, hrefused, hs, hidle, Or.inl rfl⟩
  · have hne : u.login ≠ [] := by
      rw [hlogin]
      exact hlive.2.2
    rcases kin_adds hs hadds hne with ⟨hnone, hkin⟩
    have hentry : s.kin usern = some (none, (s.account usern).login) := kin_root.2 ⟨hlive, hroot, rfl⟩
    refine ⟨s', hcmd, hadds.sound, hadds.idle hidle, Or.inr ⟨uid, _, hnone, hentry, ?_⟩⟩
    rw [hkin, hlogin, hparent, if_neg hlive.2.1]

/-- `DELNETWORK` removes a network of the user, or nothing. -/
theorem cmddelnetwork_kin (hs : s.Sound) (hidle : s.Idle) {usern : Int} (husern : usern ≠ 0)
    (irccontent : CStr) (salt : Salt) (rand : Nat → Nat) :
    ∃ s', s.cmddelnetwork salt rand usern irccontent = some s' ∧ s'.Sound ∧ s'.Idle ∧
      (s'.kin = s.kin ∨
        ∃ uid l, s.kin uid = some (some usern, l) ∧ s'.kin = update s.kin uid none) := by
  simp only [cmddelnetwork]
  split
  · exact ⟨s, rfl, hs, hidle, Or.inl rfl⟩
  · rename_i hok
    rw [not_or] at hok
    rcases checkusernetwork_child hs hidle husern hok.2 with ⟨l, hchild⟩
    have huid := (kin_child.1 hchild).1.isUser hs
    rcases remove_kin hs huid salt rand with ⟨s', hremove, hs', hkin, hrep⟩
    exact ⟨s', hremove, hs', hrep.idle hidle, Or.inr ⟨_, l, hchild, hkin⟩⟩

section Switch

variable {usern uind : Int}

theorem mem_swapNodes (hu : usern ∈ s.usernode) (hc : uind ∈ s.usernode) {x : Int} :
    x ∈ (s.swapNodes usern uind).usernode ↔ x ∈ s.usernode := by
  have hswap : ∀ {y}, y ∈ s.usernode → Equiv.swap usern uind y ∈ s.usernode := by
    intro y hy
    rw [Equiv.swap_apply_def]
    split
    · exact hc
    · split
      · exact hu
      · exact hy
  constructor
  · intro hx
    rcases List.mem_map.1 hx with ⟨y, hy, rfl⟩
    exact hswap hy
  · intro hx
    exact List.mem_map.2 ⟨Equiv.swap usern uind x, hswap hx, Equiv.swap_apply_self _ _ _⟩

theorem isUser_swapNodes (hu : s.IsUser usern) (hc : s.IsUser uind) {x : Int} :
    (s.swapNodes usern uind).IsUser x ↔ s.IsUser x := by
  constructor
  · exact fun h => ⟨(mem_swapNodes hu.mem hc.mem).1 h.mem, h.pos, h.le⟩
  · exact fun h => ⟨(mem_swapNodes hu.mem hc.mem).2 h.mem, h.pos, h.le⟩

/-- The other networks of the user get the new parent. -/
theorem user_swapNodes {x : Int} (hx : s.IsUser x) (hxu : x ≠ usern) (hxc : x ≠ uind) :
    (s.swapNodes usern uind).user (.node x) =
      if (s.user (.node x)).parent = usern then { s.user (.node x) with parent := uind }
      else s.user (.node x) := by
  have hne : x ≠ 0 := by
    have hpos := hx.pos
    omega
  simp only [swapNodes, hx.mem, hne, hxu, hxc, ne_eq, not_false_eq_true, true_and]

/-- A record that gets another parent and another name. -/
theorem sound_moved {u : Account} (hu : u.Sound) {network : CStr} {parent : Int}
    (hnetwork : network.length < 10 ∧ LF ∉ network) (hparent : 0 ≤ parent ∧ parent ≤ 100)
    (hdead : u.login = [] → parent = 0) :
    Account.Sound { u with network := network, parent := parent } where
  declared := { hu.declared with network := hnetwork }
  named := hu.named
  parent := hparent
  dead := hdead

theorem IsUser.range (h : s.IsUser uid) : 0 ≤ uid ∧ uid ≤ 100 := ⟨Int.le_of_lt h.pos, h.le⟩

theorem sound_swapNodes (hs : s.Sound) (hu : s.IsUser usern) (hc : s.IsUser uind) :
    (s.swapNodes usern uind).Sound where
  uids := fun x hx => hs.uids x ((mem_swapNodes hu.mem hc.mem).1 hx)
  root := (mem_swapNodes hu.mem hc.mem).2 hs.root
  nodup := hs.nodup.map (Equiv.injective _)
  records := by
    intro x
    have hx := hs.records x
    simp only [swapNodes]
    split
    · rename_i hcond
      apply sound_moved hx hx.declared.network hc.range
      intro hnil
      have hpos := hu.pos
      have hzero := hx.dead hnil
      omega
    · exact hx
  conf := hs.conf

/-- The records after `cmdswitchnet`, before they are written. -/
theorem switchRecords_eq (hu : s.IsUser usern) (hc : s.IsUser uind) (hne : usern ≠ uind)
    (ircto : CStr) :
    s.switchRecords usern uind ircto =
      (s.put (.node uind) { s.user (.node uind) with network := [], parent := 0 }).put (.node usern)
        { s.user (.node usern) with network := clip 10 ircto, parent := uind } := by
  have hu' : (s.put (.node uind) { s.user (.node uind) with network := [], parent := 0 }).IsUser
      usern := isUser_congr hu rfl
  have hnode : Slot.node usern ≠ Slot.node uind := fun heq => hne (Slot.node.inj heq)
  have hsame : (s.put (.node uind) { s.user (.node uind) with network := [], parent := 0 }).user
      (.node usern) = s.user (.node usern) := update_of_ne hnode _ _
  simp only [switchRecords, slot_of_isUser hc, account_of_isUser hc, slot_of_isUser hu',
    account_of_isUser hu', hsame]

theorem familyEntry_moved (u : Account) (network : CStr) (parent : Int) :
    familyEntry { u with network := network, parent := parent } =
      (familyEntry u).map fun x => (if parent = 0 then none else some parent, x.2) := by
  simp only [familyEntry]
  split
  · rfl
  · rfl

/-- Away from the two records the loop only changes the parent. -/
theorem kin_swapNodes (hs : s.Sound) (hu : s.IsUser usern) (hc : s.IsUser uind) {x : Int}
    (hxu : x ≠ usern) (hxc : x ≠ uind) :
    (s.swapNodes usern uind).kin x =
      (s.kin x).map fun y => (if y.1 = some usern then some uind else y.1, y.2) := by
  have hpos := hu.pos
  have hpos' := hc.pos
  by_cases hx : s.IsUser x
  · rw [kin_of_isUser ((isUser_swapNodes hu hc).2 hx), kin_of_isUser hx, user_swapNodes hx hxu hxc]
    by_cases hparent : (s.user (.node x)).parent = usern
    · have hentry := familyEntry_moved (s.user (.node x)) (s.user (.node x)).network uind
      have hzero : uind ≠ 0 := by omega
      have hzero' : usern ≠ 0 := by omega
      rw [if_pos hparent, hentry, familyEntry, hparent, if_neg hzero, if_neg hzero']
      by_cases hlogin : (s.user (.node x)).login = []
      · simp [hlogin]
      · simp [hlogin]
    · rw [if_neg hparent, familyEntry]
      split
      · rfl
      · by_cases hroot : (s.user (.node x)).parent = 0
        · simp [hroot]
        · simp [hroot, hparent]
  · have hx' : ¬ (s.swapNodes usern uind).IsUser x := fun h => hx ((isUser_swapNodes hu hc).1 h)
    rw [kin_of_not_isUser (sound_swapNodes hs hu hc) hx', kin_of_not_isUser hs hx, Option.map_none]

theorem kin_put (hs : s.Sound) (h : s.IsUser uid) {u : Account} (hu : u.Sound) :
    (s.put (.node uid) u).kin = update s.kin uid (familyEntry u) :=
  kin_replaces hs (hs.put hu) h ⟨rfl, rfl⟩

/-- `SWITCHNET` lets the network change places with its parent. -/
theorem kin_switchRecords (hs : s.Sound) (hp : s.kin usern = some (none, l))
    (hc : s.kin uind = some (some usern, l)) {ircto : CStr} (hto : LF ∉ ircto) :
    ((s.swapNodes usern uind).switchRecords usern uind ircto).Sound ∧
      ((s.swapNodes usern uind).switchRecords usern uind ircto).kin = promote s.kin usern uind := by
  rcases kin_root.1 hp with ⟨hlive, _, _⟩
  rcases kin_child.1 hc with ⟨hlive', husern, _, _⟩
  have hu := hlive.isUser hs
  have hn := hlive'.isUser hs
  have hne : usern ≠ uind := by
    rintro rfl
    rw [hp] at hc
    cases hc
  have hzero : uind ≠ 0 := hlive'.2.1
  have hu₁ := (isUser_swapNodes hu hn).2 hu
  have hn₁ := (isUser_swapNodes hu hn).2 hn
  have hs₁ := sound_swapNodes hs hu hn
  -- The two records have not changed yet.
  have huser : (s.swapNodes usern uind).user (.node usern) = s.user (.node usern) := by
    simp [swapNodes]
  have hnew : (s.swapNodes usern uind).user (.node uind) = s.user (.node uind) := by
    simp [swapNodes]
  have hlogin : (s.user (.node usern)).login ≠ [] := by
    rw [← account_of_isUser hu]
    exact hlive.2.2
  have hmain : Account.Sound { s.user (.node uind) with network := [], parent := 0 } :=
    sound_moved (hs.records uind) (by decide) (by decide) fun _ => rfl
  have hsub : Account.Sound { s.user (.node usern) with network := clip 10 ircto, parent := uind } :=
    sound_moved (hs.records usern) (field_of_text (by decide) hto) hn.range
      fun hnil => absurd hnil hlogin
  rw [switchRecords_eq hu₁ hn₁ hne, huser, hnew]
  refine ⟨(hs₁.put hmain).put hsub, ?_⟩
  have hmainEntry := familyEntry_moved (s.user (.node uind)) [] 0
  have hsubEntry := familyEntry_moved (s.user (.node usern)) (clip 10 ircto) uind
  rw [← kin_of_isUser hn, hc] at hmainEntry
  rw [← kin_of_isUser hu, hp] at hsubEntry
  rw [kin_put (hs₁.put hmain) (isUser_congr hu₁ rfl) hsub, kin_put hs₁ hn₁ hmain, hmainEntry,
    hsubEntry]
  funext x
  rw [promote]
  by_cases hxp : x = usern
  · subst hxp
    rw [update_self, hp]
    simp [hne, hzero]
  · rw [update_of_ne hxp]
    by_cases hxc : x = uind
    · subst hxc
      rw [update_self, hc]
      simp
    · rw [update_of_ne hxc, kin_swapNodes hs hu hn hxp hxc]
      simp only [hxp, hxc, if_false, false_or]

theorem idle_switchRecords (hidle : s.Idle) (hu : s.IsUser usern) (hn : s.IsUser uind)
    (hne : usern ≠ uind) (ircto : CStr) :
    ((s.swapNodes usern uind).switchRecords usern uind ircto).Idle := by
  rw [switchRecords_eq ((isUser_swapNodes hu hn).2 hu) ((isUser_swapNodes hu hn).2 hn) hne]
  exact ⟨by simpa [put, swapNodes] using hidle.login, by simpa [put, swapNodes] using hidle.parent⟩

theorem switchTarget_child (hs : s.Sound) (hidle : s.Idle) (hlive : s.Live usern)
    {ircto irccontent : CStr} (h : s.switchTarget usern ircto irccontent = some uind) :
    s.kin usern = some (none, (s.account usern).login) ∧ ∃ l, s.kin uind = some (some usern, l) := by
  simp only [switchTarget] at h
  split at h
  · cases h
  · rename_i hok
    cases h
    rw [not_or, not_not, not_or, not_or, not_or] at hok
    exact ⟨kin_root.2 ⟨hlive, hok.1, rfl⟩,
      checkusernetwork_child hs hidle hlive.2.1 hok.2.2.2.1⟩

/-- `SWITCHNET` changes the records of the user and the network, unless it is refused; writing them changes
the passwords only. -/
theorem cmdswitchnet_spec (hs : s.Sound) (hidle : s.Idle) (hf : Forest s.kin) (hlive : s.Live usern)
    {ircto irccontent : CStr} (hto : LF ∉ ircto) (salt : Salt) :
    (s.switchTarget usern ircto irccontent = none ∧ s.cmdswitchnet salt usern ircto irccontent = some s) ∨
      ∃ s' uind l, s.switchTarget usern ircto irccontent = some uind ∧
        s.cmdswitchnet salt usern ircto irccontent = some s' ∧ s'.Sound ∧ s'.Idle ∧
        s.kin usern = some (none, l) ∧ s.kin uind = some (some usern, l) ∧
        ∀ {β : Type} (f : Account → Option β), (∀ u, u.login = [] → f u = none) →
          (∀ (u : Account) (pass : CStr), f { u with pass := pass } = f u) →
            view f s' = view f ((s.swapNodes usern uind).switchRecords usern uind ircto) := by
  rw [cmdswitchnet]
  cases htarget : s.switchTarget usern ircto irccontent with
  | none =>
      exact Or.inl ⟨rfl, rfl⟩
  | some uind =>
      rcases switchTarget_child hs hidle hlive htarget with ⟨hroot, l, hchild⟩
      -- the network has the login of its parent
      have hlogin := hf uind usern l hchild
      have hu := hlive.isUser hs
      have hn := (kin_child.1 hchild).1.isUser hs
      have hne : usern ≠ uind := by
        rintro rfl
        rw [hlogin] at hchild
        cases hchild
      have hs₁ := (kin_switchRecords hs hlogin hchild hto).1
      have hidle₁ := idle_switchRecords hidle hu hn hne ircto
      have hmem : ∀ {x}, s.IsUser x →
          ((s.swapNodes usern uind).switchRecords usern uind ircto).IsUser x := by
        intro x hx
        exact isUser_congr ((isUser_swapNodes hu hn).2 hx) rfl
      rcases writeuser_spec hs₁ (hmem hn) salt with ⟨s₂, pass₂, hwrite₂, hs₂, _, _, _, hrep₂, _⟩
      rcases writeuser_spec hs₂ (isUser_congr (hmem hu) hrep₂.usernode) salt with
        ⟨s₃, pass₃, hwrite₃, hs₃, _, _, _, hrep₃, _⟩
      refine Or.inr ⟨s₃, uind, l, rfl, ?_, hs₃, hrep₃.idle (hrep₂.idle hidle₁), hlogin, hchild, ?_⟩
      · simp only [hwrite₂, Option.bind_some, hwrite₃]
      · intro β f hdead hpass
        exact (view_pass hdead hpass hs₂ hs₃ (isUser_congr (hmem hu) hrep₂.usernode) hrep₃).trans
          (view_pass hdead hpass hs₁ hs₂ (hmem hn) hrep₂)

/-- `SWITCHNET` lets a network of the user change places with its parent, or does nothing. -/
theorem cmdswitchnet_kin (hs : s.Sound) (hidle : s.Idle) (hf : Forest s.kin) (hlive : s.Live usern)
    {ircto irccontent : CStr} (hto : LF ∉ ircto) (salt : Salt) :
    ∃ s', s.cmdswitchnet salt usern ircto irccontent = some s' ∧ s'.Sound ∧ s'.Idle ∧
      s'.kin = (s.switchTarget usern ircto irccontent).elim s.kin (promote s.kin usern) := by
  rcases cmdswitchnet_spec hs hidle hf hlive hto salt with
    ⟨htarget, hcmd⟩ | ⟨s', uind, l, htarget, hcmd, hs', hidle', hroot, hchild, hview⟩
  · rw [htarget]
    exact ⟨s, hcmd, hs, hidle, rfl⟩
  · rw [htarget]
    exact ⟨s', hcmd, hs', hidle', (hview familyEntry familyEntry_dead fun _ _ => rfl).trans
      (kin_switchRecords hs hroot hchild hto).2⟩

end Switch

section Delete

variable {uind : Int}

/-- The test of the loop of `cmddeluser`, on the forest. -/
theorem parent_iff (hs : s.Sound) (h : s.IsUser uid) (hne : uind ≠ 0) :
    (s.user (.node uid)).parent = uind ↔ (s.kin uid).bind Prod.fst = some uind := by
  rw [kin_of_isUser h, familyEntry]
  constructor
  · intro hparent
    have hlogin : (s.user (.node uid)).login ≠ [] :=
      fun hnil => hne (hparent.symm.trans ((hs.records uid).dead hnil))
    simp [hlogin, hparent, hne]
  · intro hkin
    by_cases hlogin : (s.user (.node uid)).login = []
    · simp [hlogin] at hkin
    · by_cases hparent : (s.user (.node uid)).parent = 0
      · simp [hlogin, hparent] at hkin
      · simpa [hlogin, hparent] using hkin

/-- The loop of `cmddeluser` removes the networks among the nodes it passes, but for number 1. -/
theorem delNetworks_foldlM (hs : s.Sound) (hidle : s.Idle) (hne : uind ≠ 0) (uids : List Int)
    (hmem : ∀ uid ∈ uids, uid ∈ s.usernode) (salt : Salt) (rand : Nat → Nat) :
    ∃ s', uids.foldlM (delNetworks salt rand uind) s = some s' ∧ s'.Sound ∧ s'.Idle ∧
      s'.usernode = s.usernode ∧
      s'.kin = fun x =>
        if x ∈ uids ∧ x > 1 ∧ x ≠ uind ∧ (s.kin x).bind Prod.fst = some uind then none
        else s.kin x := by
  induction uids generalizing s with
  | nil =>
      exact ⟨s, rfl, hs, hidle, rfl, by simp⟩
  | cons uid uids ih =>
      have hrest : ∀ x ∈ uids, x ∈ s.usernode := fun x hx => hmem x (List.mem_cons_of_mem _ hx)
      rw [List.foldlM_cons]
      by_cases hdel : (s.user (.node uid)).parent = uind ∧ uid > 1 ∧ uid ≠ uind
      · have huid : s.IsUser uid := isUser_of_mem hs (hmem uid (by simp)) (by omega)
        rcases remove_kin hs huid salt rand with ⟨s₁, hremove, hs₁, hkin₁, hrep⟩
        have hrest₁ : ∀ x ∈ uids, x ∈ s₁.usernode := by
          intro x hx
          rw [hrep.usernode]
          exact hrest x hx
        rcases ih hs₁ (hrep.idle hidle) hrest₁ with ⟨s', hfold, hs', hidle', hnode, hkin⟩
        refine ⟨s', ?_, hs', hidle', hnode.trans hrep.usernode, ?_⟩
        · have hone : delNetworks salt rand uind s uid = some s₁ := by
            rw [delNetworks, if_pos hdel, hremove]
          rw [hone]
          exact hfold
        · have hparent := (parent_iff hs huid hne).1 hdel.1
          rw [hkin, hkin₁]
          funext x
          by_cases hxu : x = uid
          · subst hxu
            simp [hdel.2.1, hdel.2.2, hparent]
          · simp [hxu]
      · rcases ih hs hidle hrest with ⟨s', hfold, hs', hidle', hnode, hkin⟩
        refine ⟨s', ?_, hs', hidle', hnode, ?_⟩
        · have hone : delNetworks salt rand uind s uid = some s := by
            rw [delNetworks, if_neg hdel]
          rw [hone]
          exact hfold
        · rw [hkin]
          funext x
          by_cases hxu : x = uid
          · subst hxu
            have hkeep : ¬ (x > 1 ∧ x ≠ uind ∧ (s.kin x).bind Prod.fst = some uind) := by
              rintro ⟨hgt, hxne, hbind⟩
              have hx := isUser_of_mem hs (hmem x (by simp)) (by omega)
              exact hdel ⟨(parent_iff hs hx hne).2 hbind, hgt, hxne⟩
            simp [hkeep]
          · simp [hxu]

theorem delTarget_root (hidle : s.Idle) (hf : Forest s.kin) {irccontent : CStr}
    (h : s.delTarget irccontent = some uind) :
    uind ≠ 1 ∧ s.kin uind = some (none, irccontent) := by
  simp only [delTarget] at h
  split at h
  · cases h
  · rename_i hok
    cases h
    rw [not_or, not_or] at hok
    exact ⟨hok.2.2, checkuser_root hidle hf hok.1 hok.2.1⟩

/-- `DELUSER` removes a login account and its networks, but for a network with the number 1. -/
theorem cmddeluser_kin (hs : s.Sound) (hidle : s.Idle) (hf : Forest s.kin) (irccontent : CStr)
    (salt : Salt) (rand : Nat → Nat) :
    ∃ s', s.cmddeluser salt rand irccontent = some s' ∧ s'.Sound ∧ s'.Idle ∧
      s'.kin = (s.delTarget irccontent).elim s.kin fun uind => prune s.kin uind 1 := by
  rw [cmddeluser]
  cases htarget : s.delTarget irccontent with
  | none =>
      exact ⟨s, rfl, hs, hidle, rfl⟩
  | some uind =>
      rcases delTarget_root hidle hf htarget with ⟨hone, hroot⟩
      have hlive := (kin_root.1 hroot).1
      rcases delNetworks_foldlM hs hidle hlive.2.1 s.usernode (fun _ h => h) salt rand with
        ⟨s₁, hfold, hs₁, hidle₁, hnode, hkin₁⟩
      have huser : s₁.IsUser uind := isUser_congr (hlive.isUser hs) hnode
      rcases remove_kin hs₁ huser salt rand with ⟨s₂, hremove, hs₂, hkin₂, hrep⟩
      refine ⟨s₂, ?_, hs₂, hrep.idle hidle₁, ?_⟩
      · simp only [hfold, Option.bind_some, hremove]
      · rw [hkin₂, hkin₁, Option.elim_some]
        funext x
        rw [prune]
        by_cases hx : x = uind
        · simp [hx]
        · rw [update_of_ne hx]
          by_cases hbind : (s.kin x).bind Prod.fst = some uind
          · -- a network of the account
            rcases Option.bind_eq_some_iff.1 hbind with ⟨⟨r, l⟩, hkinx, hr⟩
            simp only at hr
            rw [hr] at hkinx
            have hxlive := (kin_child.1 hkinx).1
            have hxpos := (hxlive.isUser hs).pos
            by_cases hxone : x = 1
            · subst hxone
              simp [hx]
            · have hgt : x > 1 := by omega
              simp [hx, hbind, hxone, hgt, hxlive.1]
          · simp [hx, hbind]

end Delete

end Users

end PsyBnc
