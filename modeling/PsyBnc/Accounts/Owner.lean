import PsyBnc.Accounts.Families

/-!
# The account of the owner

The owner of the bouncer starts with account 1, which `DELUSER` spares.  After a `SWITCHNET` of the
owner the login account has another number, and number 1 is one of its networks: then `DELUSER`
deletes the account of the owner and leaves number 1 behind without a parent.
-/

namespace PsyBnc

open CLib Function

inductive AccountCommand where
  | adduser
  | addnetwork
  | delnetwork
  | switchnet
  | deluser
  deriving DecidableEq, Repr

/-- A command of the client of `usern`, with its arguments and the results of `rand()`. -/
structure Issued where
  usern : Int
  command : AccountCommand
  ircto : CStr
  irccontent : CStr
  rand : Nat → Nat
  line : LF ∉ ircto ∧ LF ∉ irccontent

/-- `adminonly` in the table of the commands. -/
def AccountCommand.adminonly : AccountCommand → Bool
  | .adduser | .deluser => true
  | .addnetwork | .delnetwork | .switchnet => false

/-- The users, and the number that the login account of the owner has now. -/
structure Bouncer where
  users : Users
  owner : Int

namespace Bouncer

/-- The user exists and may give the command. -/
def Permitted (b : Bouncer) (i : Issued) : Prop :=
  b.users.Live i.usern ∧
    (i.command.adminonly = true → (b.users.account i.usern).rights = RI_ADMIN)

instance Permitted.decidable (b : Bouncer) (i : Issued) : Decidable (b.Permitted i) := by
  dsimp [Permitted]
  infer_instance

def step (salt : Salt) (b : Bouncer) (i : Issued) : Option Bouncer :=
  if b.Permitted i then
    match i.command with
    | .adduser =>
        (b.users.cmdadduser salt i.rand i.usern i.ircto i.irccontent).map fun (_, s) =>
          ⟨s, b.owner⟩
    | .addnetwork =>
        (b.users.cmdaddnetwork salt i.rand i.usern i.irccontent).map fun s => ⟨s, b.owner⟩
    | .delnetwork =>
        (b.users.cmddelnetwork salt i.rand i.usern i.irccontent).map fun s => ⟨s, b.owner⟩
    | .switchnet =>
        (b.users.cmdswitchnet salt i.usern i.ircto i.irccontent).map fun s =>
          ⟨s, if i.usern = b.owner then
            (b.users.switchTarget i.usern i.ircto i.irccontent).getD b.owner else b.owner⟩
    | .deluser => (b.users.cmddeluser salt i.rand i.irccontent).map fun s => ⟨s, b.owner⟩
  else some b

/-- The accounts are login accounts and networks of login accounts, and the owner has kept the login
account. -/
structure AccountsKept (login : CStr) (b : Bouncer) : Prop where
  parents : b.users.ParentsKept
  owner : b.users.Live b.owner
  parent : (b.users.account b.owner).parent = 0
  login : (b.users.account b.owner).login = login

/-- A `DELUSER` deletes neither the account of the owner nor the parent of account 1. -/
def SparesOwner (b : Bouncer) (i : Issued) : Prop :=
  b.Permitted i → i.command = .deluser → ∀ uind, b.users.delTarget i.irccontent = some uind →
    uind ≠ b.owner ∧ ¬ (b.users.Live 1 ∧ (b.users.account 1).parent = uind)

/-- The records are sound, the shared one is idle. -/
def Inv (b : Bouncer) : Prop := b.users.Sound ∧ b.users.Idle

section Step

variable {salt : Salt} {b : Bouncer} {i : Issued} {login : CStr} {s' : Users}

theorem accountsKept_iff :
    b.AccountsKept login ↔ Forest b.users.kin ∧ b.users.kin b.owner = some (none, login) := by
  constructor
  · intro h
    exact ⟨Users.parentsKept_iff_forest.1 h.parents, Users.kin_root.2 ⟨h.owner, h.parent, h.login⟩⟩
  · rintro ⟨hforest, hroot⟩
    rcases Users.kin_root.1 hroot with ⟨hlive, hparent, hlogin⟩
    exact ⟨Users.parentsKept_iff_forest.2 hforest, hlive, hparent, hlogin⟩

/-- The owner's account is not the node that was added. -/
theorem kept_update {f : Int → Option (Option Int × CStr)} {uid : Int}
    {x : Option (Option Int × CStr)} (howner : f b.owner = some (none, login))
    (huid : f uid ≠ some (none, login)) : update f uid x b.owner = some (none, login) := by
  have hne : b.owner ≠ uid := by
    intro heq
    exact huid (heq ▸ howner)
  rw [update_of_ne hne, howner]

/-- What a permitted command does, when it is no `DELUSER`. -/
theorem step_kept (hinv : b.Inv) (hkept : b.AccountsKept login) (hpermitted : b.Permitted i)
    (hno : i.command ≠ .deluser) : ∃ t, b.step salt i = some t ∧ t.Inv ∧ t.AccountsKept login := by
  rcases hinv with ⟨hs, hidle⟩
  rcases accountsKept_iff.1 hkept with ⟨hforest, howner⟩
  have hlive := hpermitted.1
  rw [step, if_pos hpermitted]
  cases hcommand : i.command with
  | adduser =>
      rcases Users.cmdadduser_kin hs hidle hlive.2.1 i.line.1 i.line.2 salt i.rand with
        ⟨rc, s', hcmd, hs', hidle', heffect⟩
      refine ⟨⟨s', b.owner⟩, by simp only [hcmd, Option.map_some], ⟨hs', hidle'⟩, ?_⟩
      -- The command did nothing, or there is one more login account.
      rcases heffect with hkin | ⟨uid, l, hnone, hkin⟩
      · exact accountsKept_iff.2 ⟨hkin ▸ hforest, by rw [hkin, howner]⟩
      · apply accountsKept_iff.2
        rw [hkin]
        exact ⟨hforest.addRoot hnone l, kept_update howner (by rw [hnone]; simp)⟩
  | addnetwork =>
      rcases Users.cmdaddnetwork_kin hs hidle hlive i.line.2 salt i.rand with
        ⟨s', hcmd, hs', hidle', heffect⟩
      refine ⟨⟨s', b.owner⟩, by simp only [hcmd, Option.map_some], ⟨hs', hidle'⟩, ?_⟩
      -- The same, with a network below the one who asks.
      rcases heffect with hkin | ⟨uid, l, hnone, hroot, hkin⟩
      · exact accountsKept_iff.2 ⟨hkin ▸ hforest, by rw [hkin, howner]⟩
      · apply accountsKept_iff.2
        rw [hkin]
        exact ⟨hforest.addChild hnone hroot, kept_update howner (by rw [hnone]; simp)⟩
  | delnetwork =>
      rcases Users.cmddelnetwork_kin hs hidle hlive.2.1 i.irccontent salt i.rand with
        ⟨s', hcmd, hs', hidle', heffect⟩
      refine ⟨⟨s', b.owner⟩, by simp only [hcmd, Option.map_some], ⟨hs', hidle'⟩, ?_⟩
      -- A network is gone, which is not the owner: the owner has no parent.
      rcases heffect with hkin | ⟨uid, l, hchild, hkin⟩
      · exact accountsKept_iff.2 ⟨hkin ▸ hforest, by rw [hkin, howner]⟩
      · apply accountsKept_iff.2
        rw [hkin]
        exact ⟨hforest.removeChild hchild, kept_update howner (by rw [hchild]; simp)⟩
  | switchnet =>
      have hswitch : ∃ s', b.users.cmdswitchnet salt i.usern i.ircto i.irccontent = some s' ∧
          s'.Sound ∧ s'.Idle ∧ s'.kin = (b.users.switchTarget i.usern i.ircto i.irccontent).elim
            b.users.kin (promote b.users.kin i.usern) :=
        Users.cmdswitchnet_kin hs hidle hforest hlive i.line.1 salt
      rcases hswitch with ⟨s', hcmd, hs', hidle', hkin⟩
      refine ⟨⟨s', if i.usern = b.owner then
        (b.users.switchTarget i.usern i.ircto i.irccontent).getD b.owner else b.owner⟩,
        by simp only [hcmd, Option.map_some], ⟨hs', hidle'⟩, accountsKept_iff.2 ?_⟩
      cases htarget : b.users.switchTarget i.usern i.ircto i.irccontent with
      | none =>
          rw [htarget, Option.elim_none] at hkin
          simp only [Option.getD_none, ite_self]
          exact ⟨hkin ▸ hforest, by rw [hkin, howner]⟩
      | some uind =>
          rcases Users.switchTarget_child hs hidle hlive htarget with ⟨hroot, l, hchild⟩
          have hlabel := hforest uind _ l hchild
          rw [htarget, Option.elim_some] at hkin
          simp only [Option.getD_some]
          rw [hkin]
          refine ⟨hforest.promote hlabel hchild, ?_⟩
          by_cases hself : i.usern = b.owner
          · -- the owner is now the network
            rw [if_pos hself, promote_child hchild, ← howner, ← hself, hlabel]
          · rw [if_neg hself]
            exact promote_root howner (Ne.symm hself) (by rw [hchild]; simp)
  | deluser =>
      exact absurd hcommand hno

/-- What a permitted `DELUSER` does. -/
theorem step_deluser (hinv : b.Inv) (hkept : b.AccountsKept login) (hpermitted : b.Permitted i)
    (hcommand : i.command = .deluser) :
    ∃ t, b.step salt i = some t ∧ t.Inv ∧ (b.SparesOwner i ↔ t.AccountsKept login) := by
  rcases hinv with ⟨hs, hidle⟩
  rcases accountsKept_iff.1 hkept with ⟨hforest, howner⟩
  rcases Users.cmddeluser_kin hs hidle hforest i.irccontent salt i.rand with
    ⟨s', hcmd, hs', hidle', hkin⟩
  have hstep : b.step salt i = some ⟨s', b.owner⟩ := by
    rw [step, if_pos hpermitted, hcommand]
    simp only [hcmd, Option.map_some]
  refine ⟨⟨s', b.owner⟩, hstep, ⟨hs', hidle'⟩, ?_⟩
  rw [accountsKept_iff, hkin]
  cases htarget : b.users.delTarget i.irccontent with
  | none =>
      have hspares : b.SparesOwner i := by
        intro _ _ uind h
        rw [htarget] at h
        cases h
      exact iff_of_true hspares ⟨hforest, howner⟩
  | some uind =>
      rcases Users.delTarget_root hidle hforest htarget with ⟨_, hroot⟩
      have hzero : uind ≠ 0 := (Users.kin_root.1 hroot).1.2.1
      have hspares : b.SparesOwner i ↔
          uind ≠ b.owner ∧ ¬ (b.users.Live 1 ∧ (b.users.account 1).parent = uind) := by
        constructor
        · exact fun h => h hpermitted hcommand uind htarget
        · intro h _ _ uind' huind'
          cases htarget.symm.trans huind'
          exact h
      have hone : (b.users.kin 1).bind Prod.fst = some uind ↔
          b.users.Live 1 ∧ (b.users.account 1).parent = uind := by
        constructor
        · intro h
          rcases Option.bind_eq_some_iff.1 h with ⟨⟨r, l⟩, hkin1, hr⟩
          simp only at hr
          rw [hr] at hkin1
          exact ⟨(Users.kin_child.1 hkin1).1, (Users.kin_child.1 hkin1).2.2.1⟩
        · rintro ⟨hlive, hparent⟩
          rw [Users.kin_child.2 ⟨hlive, hzero, hparent, rfl⟩]
          rfl
      rw [Option.elim_some, forest_prune_iff hforest hroot, hspares, ← hone, and_comm]
      apply and_congr_right'
      constructor
      · exact fun hne => prune_root howner hne.symm
      · rintro hkept' rfl
        rw [prune_self] at hkept'
        cases hkept'

/-- One command, permitted or not. -/
theorem step_spec (hinv : b.Inv) (hkept : b.AccountsKept login) :
    ∃ t, b.step salt i = some t ∧ t.Inv ∧ (b.SparesOwner i ↔ t.AccountsKept login) := by
  by_cases hpermitted : b.Permitted i
  · by_cases hcommand : i.command = .deluser
    · exact step_deluser hinv hkept hpermitted hcommand
    · rcases step_kept hinv hkept hpermitted hcommand with ⟨t, hstep, hinv', hkept'⟩
      exact ⟨t, hstep, hinv', iff_of_true (fun _ h => absurd h hcommand) hkept'⟩
  · refine ⟨b, ?_, hinv, iff_of_true (fun h => absurd h hpermitted) hkept⟩
    rw [step, if_neg hpermitted]

end Step

/-- From the account of the owner alone. -/
def start (s : Users) : Bouncer where
  users := s
  owner := 1

end Bouncer

/-- Every run of commands keeps the accounts in order if and only if no `DELUSER` on the way deletes
the account of the owner or the parent of account 1. -/
theorem accounts_kept_iff (salt : Salt) (s : Users) (hs : s.Sound) (hidle : s.Idle)
    (howner : s.Live 1) (hparent : (s.account 1).parent = 0) (hsingle : ∀ uid, s.Live uid → uid = 1)
    (is : List Issued) :
    Safe (Bouncer.step salt) (Bouncer.AccountsKept (s.account 1).login) (Bouncer.start s) is ↔
      StepsMeet (Bouncer.step salt) Bouncer.SparesOwner (Bouncer.start s) is := by
  apply safe_iff_stepsMeet_of_total Bouncer.Inv
  · exact fun b i hinv hkept => Bouncer.step_spec hinv hkept
  · exact ⟨hs, hidle⟩
  · refine ⟨?_, howner, hparent, rfl⟩
    intro uid hlive
    cases hsingle uid hlive
    exact Or.inl hparent

/-! ## One account -/

/-- The owner of a new bouncer, as `loaduser` left the record. -/
def ownerOnly : Users where
  usernode := [0, 1]
  user :=
    update (fun _ => blankAccount) (.node 1) { blankAccount with toUserRecord := ownerRecord }
  conf := [ascii "PSYBNC.SYSTEM.PORT1=31337", ascii "USER1.USER.LOGIN=owner"]

theorem ownerOnly_sound : ownerOnly.Sound where
  uids := by decide
  root := by decide
  nodup := by decide
  records := by
    intro uid
    by_cases huid : uid = 1
    · subst huid
      exact
        { declared := ownerRecord_declared
          named := fun _ => by decide
          parent := by decide
          dead := fun _ => rfl }
    · simpa [ownerOnly, huid] using blankAccount_sound
  conf :=
    { unique := by decide
      lines := by decide
      short := by decide
      head := ⟨_, rfl, by decide⟩ }

theorem ownerOnly_single (uid : Int) (h : ownerOnly.Live uid) : uid = 1 := by
  have hmem : uid ∈ [0, 1] := h.1
  have hne : uid ≠ 0 := h.2.1
  simpa [hne] using hmem

def ownerSays (command : AccountCommand) (ircto irccontent : CStr)
    (h : LF ∉ ircto ∧ LF ∉ irccontent) : Issued where
  usern := 1
  command := command
  ircto := ircto
  irccontent := irccontent
  rand := fun _ => 0
  line := h

/-- A network is added and removed. -/
theorem accounts_kept_network :
    Safe (Bouncer.step buildSalt) (Bouncer.AccountsKept (ownerOnly.account 1).login)
      (Bouncer.start ownerOnly)
      [ownerSays .addnetwork [] (ascii "net") (by decide),
        ownerSays .delnetwork [] (ascii "net") (by decide)] := by
  apply (accounts_kept_iff buildSalt ownerOnly ownerOnly_sound ⟨rfl, rfl⟩ (by decide) rfl
    ownerOnly_single _).2
  refine ⟨fun _ h => AccountCommand.noConfusion h, fun _ _ => ?_⟩
  exact ⟨fun _ h => AccountCommand.noConfusion h, fun _ _ => trivial⟩

/-- The owner makes a network the main one, and deletes the login `owner` from there. -/
def orphaning : List Issued :=
  [ownerSays .addnetwork [] (ascii "net") (by decide),
    ownerSays .switchnet (ascii "main") (ascii "net") (by decide),
    { ownerSays .deluser [] (ascii "owner") (by decide) with usern := 2 }]

theorem orphaning_result :
    (runAll (Bouncer.step buildSalt) (Bouncer.start ownerOnly) orphaning).map (fun b =>
      (decide (b.users.Live 1), (b.users.account 1).parent, decide (b.users.Live 2))) =
        some (true, 2, false) := by
  decide +kernel

/-- Account 1 is left with a parent that does not exist. -/
theorem accounts_orphaned :
    ¬ Safe (Bouncer.step buildSalt) (Bouncer.AccountsKept (ownerOnly.account 1).login)
      (Bouncer.start ownerOnly) orphaning := by
  intro hsafe
  rcases Option.map_eq_some_iff.1 orphaning_result with ⟨b, hrun, hresult⟩
  simp only [Prod.mk.injEq, decide_eq_true_eq, decide_eq_false_iff_not] at hresult
  rcases hresult with ⟨hlive, hparent, hdead⟩
  rcases (hsafe.last hrun).parents 1 hlive with hzero | hkept
  · rw [hparent] at hzero
    cases hzero
  · rw [hparent] at hkept
    exact hdead hkept.1

end PsyBnc
