import PsyBnc.Accounts.Members
import PsyBnc.Accounts.Owner

/-!
# Rights of the accounts (`p_client.c`, `p_hash.c`)

`ADMIN` and `UNADMIN` set the rights of an account and of its networks, and the table of the commands has some
that only an account with rights may give.
-/

namespace PsyBnc

open CLib Function

namespace Users

/-! ## The commands -/

/-- The loop of `cmdadmin` and `cmdunadmin` for one node. -/
def crown (salt : Salt) (rc rights : Int) (s : Users) (uid : Int) : Option Users :=
  if uid ≠ 0 ∧ (uid = rc ∨ (s.user (.node uid)).parent = rc) then
    (s.put (.node uid) { s.user (.node uid) with rights := rights }).writeuser salt uid
  else some s

/-- The account whose rights are set, when `checkuser` has found one. -/
def rightsTarget (s : Users) (irccontent : CStr) : Int :=
  let rc := s.checkuser irccontent
  if (s.account rc).parent ≠ 0 then (s.account rc).parent else rc

/-- `cmdadmin` and `cmdunadmin` differ in the rights. -/
def setRights (salt : Salt) (rights : Int) (s : Users) (irccontent : CStr) : Option Users :=
  if irccontent = [] ∨ s.checkuser irccontent = 0 then some s
  else s.usernode.foldlM (crown salt (s.rightsTarget irccontent) rights) s

def cmdadmin (salt : Salt) (s : Users) (irccontent : CStr) : Option Users := s.setRights salt RI_ADMIN irccontent

def cmdunadmin (salt : Salt) (s : Users) (irccontent : CStr) : Option Users := s.setRights salt RI_USER irccontent

/-! ## The members -/

/-- A record as a member. -/
def memberEntry (u : Account) : Option Member :=
  if u.login = [] then none else some ⟨if u.parent = 0 then none else some u.parent, u.login, u.rights⟩

/-- The table of the accounts. -/
def members (s : Users) : Int → Option Member := view memberEntry s

theorem memberEntry_dead (u : Account) (h : u.login = []) : memberEntry u = none := if_pos h

variable {salt : Salt} {s s' : Users} {uid u rc rights : Int} {m : Member} {l : CStr} {o : Option Int}

/-- The members are the forest with the rights. -/
theorem members_eq (s : Users) (x : Int) :
    s.members x = (s.kin x).map fun y => ⟨y.1, y.2, (s.account x).rights⟩ := by
  rw [members, view, kin]
  split
  · rw [memberEntry, familyEntry]
    split
    · rfl
    · rfl
  · rfl

theorem members_of_kin (h : s.kin uid = some (o, l)) :
    s.members uid = some ⟨o, l, (s.account uid).rights⟩ := by
  rw [members_eq, h, Option.map_some]

theorem kin_of_members (h : s.members uid = some m) :
    s.kin uid = some (m.parent, m.login) ∧ (s.account uid).rights = m.rights := by
  rw [members_eq] at h
  rcases Option.map_eq_some_iff.1 h with ⟨y, hy, rfl⟩
  exact ⟨hy, rfl⟩

theorem members_of_live (h : s.Live uid) : ∃ m, s.members uid = some m ∧ m.login = (s.account uid).login ∧
    m.rights = (s.account uid).rights :=
  ⟨_, members_of_kin (kin_eq_some.2 ⟨h, rfl, rfl⟩), rfl, rfl⟩

theorem live_of_members (h : s.members uid = some m) :
    s.Live uid ∧ (s.account uid).login = m.login ∧ (s.account uid).rights = m.rights := by
  rcases kin_of_members h with ⟨hkin, hrights⟩
  rcases kin_eq_some.1 hkin with ⟨hlive, _, hlogin⟩
  exact ⟨hlive, hlogin.symm, hrights⟩

/-- What holds of the accounts all the time. -/
structure RightsKept (s : Users) : Prop where
  sound : s.Sound
  idle : s.Idle
  ruled : Ruled s.members

/-- Members that are ruled form a forest. -/
theorem RightsKept.forest (h : s.RightsKept) : Forest s.kin := by
  intro x p l hx
  rcases h.ruled.parents x _ p (members_of_kin hx) rfl with ⟨r, hr, rfl⟩
  exact (kin_of_members hr).1

/-- Who has rights. -/
def roles (s : Users) : Set (CStr × Bool) := rolesOf s.members

/-! ## Looking up a login -/

theorem login_eq_iff {nick : CStr} {v : Account} :
    v.login.length = nick.length ∧ nick <:+: v.login ↔ v.login = nick := by
  constructor
  · exact fun h => (h.2.eq_of_length h.1.symm).symm
  · rintro rfl
    exact ⟨rfl, List.infix_rfl⟩

/-- `checkuser` finds an account when there is one. -/
theorem checkuser_pos (hs : s.Sound) (hidle : s.Idle) (hx : s.Live uid) : 0 < s.checkuser (s.account uid).login := by
  have hloop : ∀ uids : List Int, uid ∈ uids → (∀ x ∈ uids, x ∈ s.usernode) →
      0 < s.checkuserLoop (s.account uid).login uids := by
    intro uids
    induction uids with
    | nil =>
        exact fun hmem => absurd hmem List.not_mem_nil
    | cons x uids ih =>
        intro hmem hnodes
        rw [checkuserLoop]
        split
        · next hfound =>
          have hlogin := login_eq_iff.1 hfound
          have hne : x ≠ 0 := by
            rintro rfl
            rw [account_zero, hidle.login] at hlogin
            exact hx.2.2 hlogin.symm
          have huser := isUser_of_mem hs (hnodes x List.mem_cons_self) hne
          split
          · next hparent =>
            rw [account_of_isUser huser] at hparent ⊢
            have hrange := (hs.records x).parent
            omega
          · exact huser.pos
        · next hmiss =>
          have hrest : uid ∈ uids := by
            rcases List.mem_cons.1 hmem with rfl | hrest
            · exact absurd (login_eq_iff.2 rfl) hmiss
            · exact hrest
          exact ih hrest fun y hy => hnodes y (List.mem_cons_of_mem _ hy)
  exact hloop s.usernode hx.1 fun _ h => h

/-! ## Setting rights -/

theorem memberEntry_crowned {v : Account} (hrc : rc ≠ 0) (h : uid = rc ∨ v.parent = rc) (rights : Int) :
    memberEntry { v with rights := rights } = (memberEntry v).map (crownedMember rc rights uid) := by
  have hcond : uid = rc ∨ (if v.parent = 0 then none else some v.parent) = some rc := by
    rcases h with huid | hparent
    · exact Or.inl huid
    · right
      rw [hparent, if_neg hrc]
  by_cases hlogin : v.login = []
  · rw [memberEntry_dead v hlogin, memberEntry_dead { v with rights := rights } hlogin, Option.map_none]
  · simp only [memberEntry, hlogin, if_false, Option.map_some, crownedMember, hcond, if_true]

/-- One account gets the rights, when it is the account or one of its networks. -/
theorem crown_spec (hs : s.Sound) (hidle : s.Idle) (hrc : rc ≠ 0) (huid : uid ∈ s.usernode) (salt : Salt)
    (rights : Int) :
    ∃ s', crown salt rc rights s uid = some s' ∧ s'.Sound ∧ s'.Idle ∧ s'.usernode = s.usernode ∧
      s'.members = update s.members uid ((s.members uid).map (crownedMember rc rights uid)) := by
  rw [crown]
  split
  · next hok =>
    have huser := isUser_of_mem hs huid hok.1
    have hrecord := hs.records uid
    have hnew : Account.Sound { s.user (.node uid) with rights := rights } :=
      { declared := { hrecord.declared with }
        named := hrecord.named
        parent := hrecord.parent
        dead := hrecord.dead }
    have hs₁ : (s.put (.node uid) { s.user (.node uid) with rights := rights }).Sound := hs.put hnew
    have huser₁ : (s.put (.node uid) { s.user (.node uid) with rights := rights }).IsUser uid :=
      isUser_congr huser rfl
    rcases writeuser_spec hs₁ huser₁ salt with ⟨s₂, pass, hwrite, hs₂, _, _, _, hrep, _⟩
    refine ⟨s₂, hwrite, hs₂, hrep.idle ?_, hrep.usernode, ?_⟩
    · exact Replaces.idle (u := { s.user (.node uid) with rights := rights }) (s := s) ⟨rfl, rfl⟩ hidle
    · have hput := view_replaces memberEntry_dead hs hs₁ huser (u := { s.user (.node uid) with rights := rights })
        ⟨rfl, rfl⟩
      have hwritten : s₂.members = members (s.put (.node uid) { s.user (.node uid) with rights := rights }) :=
        view_pass memberEntry_dead (fun _ _ => rfl) hs₁ hs₂ huser₁ hrep
      rw [hwritten, members, hput, memberEntry_crowned hrc hok.2 rights, members,
        view_of_isUser memberEntry_dead huser]
  · next hno =>
    refine ⟨s, rfl, hs, hidle, rfl, ?_⟩
    have hsame : (s.members uid).map (crownedMember rc rights uid) = s.members uid := by
      cases hm : s.members uid with
      | none =>
          rfl
      | some m =>
          rcases kin_of_members hm with ⟨hkin, _⟩
          have hlive := (live_of_members hm).1
          rw [Option.map_some, crownedMember, if_neg]
          rintro (hrcuid | hparent)
          · exact hno ⟨hlive.2.1, Or.inl hrcuid⟩
          · rw [hparent] at hkin
            have hrecord := (kin_child.1 hkin).2.2.1
            rw [account_of_isUser (hlive.isUser hs)] at hrecord
            exact hno ⟨hlive.2.1, Or.inr hrecord⟩
    rw [hsame, update_eq_self]

/-- The loop gives the rights to all nodes that it passes. -/
theorem crown_foldlM (hs : s.Sound) (hidle : s.Idle) (hrc : rc ≠ 0) {uids : List Int} (hnodup : uids.Nodup)
    (hmem : ∀ uid ∈ uids, uid ∈ s.usernode) (salt : Salt) (rights : Int) :
    ∃ s', uids.foldlM (crown salt rc rights) s = some s' ∧ s'.Sound ∧ s'.Idle ∧ s'.usernode = s.usernode ∧
      ∀ x, s'.members x = if x ∈ uids then (s.members x).map (crownedMember rc rights x) else s.members x := by
  induction uids generalizing s with
  | nil =>
      exact ⟨s, rfl, hs, hidle, rfl, fun x => (if_neg List.not_mem_nil).symm⟩
  | cons uid uids ih =>
      rcases crown_spec hs hidle hrc (hmem uid List.mem_cons_self) salt rights with
        ⟨s₁, hone, hs₁, hidle₁, hnode₁, hmembers₁⟩
      have hmem₁ : ∀ x ∈ uids, x ∈ s₁.usernode := by
        intro x hx
        rw [hnode₁]
        exact hmem x (List.mem_cons_of_mem _ hx)
      rcases ih hs₁ hidle₁ (List.nodup_cons.1 hnodup).2 hmem₁ with
        ⟨s', hfold, hs', hidle', hnode', hmembers'⟩
      refine ⟨s', ?_, hs', hidle', hnode'.trans hnode₁, ?_⟩
      · rw [List.foldlM_cons, hone]
        exact hfold
      · intro x
        rw [hmembers', hmembers₁]
        by_cases hx : x = uid
        · subst hx
          rw [if_neg (List.nodup_cons.1 hnodup).1, if_pos List.mem_cons_self, update_self]
        · rw [update_of_ne hx]
          have hiff : x ∈ uid :: uids ↔ x ∈ uids := by
            rw [List.mem_cons, or_iff_right hx]
          rw [if_congr hiff rfl rfl]

/-! ## The commands -/

/-- The accounts stay in order and the roles are acted on. -/
structure Does (s s' : Users) (act : RoleAct CStr) : Prop where
  kept : s'.RightsKept
  roles : s'.roles = act.after s.roles

theorem Does.refl (h : s.RightsKept) : s.Does s .idle := ⟨h, rfl⟩

/-- A table that is ruled and has the same roles. -/
theorem Does.of_table (hs' : s'.Sound) (hidle' : s'.Idle) {t : Int → Option Member} (ht : s'.members = t)
    (h : Ruled t ∧ rolesOf t = s.roles) : s.Does s' .idle := by
  rw [← ht] at h
  exact ⟨⟨hs', hidle', h.1⟩, h.2⟩

theorem memberEntry_renewed {v : Account} {pass : CStr} (hlogin : v.login ≠ [])
    (hparent : (renewed v pass).parent = v.parent) (hrights : v.rights = RI_USER ∨ v.rights = RI_ADMIN) :
    memberEntry (renewed v pass) = some ⟨if v.parent = 0 then none else some v.parent, v.login, v.rights⟩ := by
  have hread : (renewed v pass).rights = v.rights := by
    have hrange : 0 ≤ v.rights ∧ v.rights ≤ 100 := by
      rcases hrights with hrights | hrights
      · rw [hrights]
        decide
      · rw [hrights]
        decide
    exact atoi_iset_parent hrange
  have hsame : (renewed v pass).login = v.login := rfl
  rw [memberEntry, hsame, if_neg hlogin, hparent, hread]

/-- The login of a new account is stored whole or, where it is cut, not in use. -/
def FreshLogin (s : Users) (ircto : CStr) : Prop :=
  ircto.length < 64 ∨ ∀ x, s.Live x → (s.account x).login ≠ clip 64 ircto

theorem cmdadduser_does (h : s.RightsKept) {usern : Int} (husern : usern ≠ 0) {ircto irccontent : CStr}
    (hto : LF ∉ ircto) (hcontent : LF ∉ irccontent) (hfresh : s.FreshLogin ircto) (salt : Salt)
    (rand : Nat → Nat) :
    ∃ rc s', s.cmdadduser salt rand usern ircto irccontent = some (rc, s') ∧
      (s.Does s' .idle ∨ s.Does s' (.add (clip 64 ircto))) := by
  have hpass : LF ∉ s.newPass usern rand := by
    rw [newPass, if_neg husern]
    exact fun hmem => lf_notMem_randstring 8 rand (mem_of_mem_clip hmem)
  rcases cmdadduser_spec h.sound hto hcontent hpass salt with
    hrefused | ⟨uid, s', u, hcmd, hadds, hlogin, hne, hparent, _, hrights, hunknown⟩
  · exact ⟨-1, s, hrefused, Or.inl (Does.refl h)⟩
  · refine ⟨uid, s', hcmd, Or.inr ?_⟩
    have hnew : ∀ x m, s.members x = some m → m.login ≠ clip 64 ircto := by
      intro x m hx heq
      rcases live_of_members hx with ⟨hlive, hloginx, _⟩
      rcases hfresh with hshort | hfresh
      · rw [heq, clip_eq_self (by omega)] at hloginx
        have hfound := checkuser_pos h.sound h.idle hlive
        rw [hloginx] at hfound
        exact hunknown hfound
      · exact hfresh x hlive (hloginx.trans heq)
    rcases view_adds memberEntry_dead h.sound hadds with ⟨hnone, pass, hsame, hview⟩
    rw [memberEntry_renewed hne hsame (Or.inl hrights), if_pos hparent, hlogin, hrights] at hview
    rcases h.ruled.addRoot hnone hnew with ⟨hruled, hroles⟩
    have hmembers : s'.members = update s.members uid (some ⟨none, clip 64 ircto, RI_USER⟩) := hview
    rw [← hmembers] at hruled hroles
    exact ⟨⟨hadds.sound, hadds.idle h.idle, hruled⟩, hroles⟩

theorem cmdaddnetwork_does (h : s.RightsKept) {usern : Int} (hlive : s.Live usern) {irccontent : CStr}
    (hcontent : LF ∉ irccontent) (salt : Salt) (rand : Nat → Nat) :
    ∃ s', s.cmdaddnetwork salt rand usern irccontent = some s' ∧ s.Does s' .idle := by
  rcases cmdaddnetwork_spec h.sound hlive hcontent salt rand with
    hrefused | ⟨s', uid, u, hcmd, hadds, _, hroot, _, _, _, hlogin, hparent, _, hrights⟩
  · exact ⟨s, hrefused, Does.refl h⟩
  · refine ⟨s', hcmd, ?_⟩
    have hown := members_of_kin (kin_root.2 ⟨hlive, hroot, rfl⟩)
    have hplain := h.ruled.plain usern _ hown
    rcases view_adds memberEntry_dead h.sound hadds with ⟨hnone, pass, hsame, hview⟩
    have hne : u.login ≠ [] := by
      rw [hlogin]
      exact hlive.2.2
    rw [memberEntry_renewed hne hsame (by rwa [hrights]), hparent, if_neg hlive.2.1, hlogin, hrights] at hview
    exact Does.of_table hadds.sound (hadds.idle h.idle) hview (h.ruled.addChild hnone hown rfl)

theorem cmddelnetwork_does (h : s.RightsKept) {usern : Int} (husern : usern ≠ 0) (irccontent : CStr) (salt : Salt)
    (rand : Nat → Nat) :
    ∃ s', s.cmddelnetwork salt rand usern irccontent = some s' ∧ s.Does s' .idle := by
  simp only [cmddelnetwork]
  split
  · exact ⟨s, rfl, Does.refl h⟩
  · next hok =>
    rw [not_or] at hok
    rcases checkusernetwork_child h.sound h.idle husern hok.2 with ⟨l, hchild⟩
    have huid := (kin_child.1 hchild).1.isUser h.sound
    rcases remove_kin h.sound huid salt rand with ⟨s', hremove, hs', _, hrep⟩
    refine ⟨s', hremove, ?_⟩
    have hmembers := view_replaces memberEntry_dead h.sound hs' huid hrep
    exact Does.of_table hs' (hrep.idle h.idle) hmembers (h.ruled.removeChild (members_of_kin hchild) rfl)

/-- `SWITCHNET` leaves the rights as they are. -/
theorem rights_switchRecords {usern uind : Int} (hu : s.IsUser usern) (hc : s.IsUser uind) (hne : usern ≠ uind)
    (ircto : CStr) {x : Int} (hx : s.IsUser x) :
    (((s.swapNodes usern uind).switchRecords usern uind ircto).account x).rights = (s.account x).rights := by
  have hswap : ∀ y, ((s.swapNodes usern uind).user (.node y)).rights = (s.user (.node y)).rights := by
    intro y
    simp only [swapNodes]
    split
    · rfl
    · rfl
  have hu₁ := (isUser_swapNodes hu hc).2 hu
  have hc₁ := (isUser_swapNodes hu hc).2 hc
  have hx₁ : ((s.swapNodes usern uind).switchRecords usern uind ircto).IsUser x :=
    isUser_congr ((isUser_swapNodes hu hc).2 hx) rfl
  rw [account_of_isUser hx₁, account_of_isUser hx, switchRecords_eq hu₁ hc₁ hne]
  by_cases hxu : x = usern
  · subst hxu
    simp only [put, update_self]
    exact hswap x
  · have hnode : Slot.node x ≠ Slot.node usern := fun heq => hxu (Slot.node.inj heq)
    by_cases hxc : x = uind
    · subst hxc
      simp only [put, update_of_ne hnode, update_self]
      exact hswap x
    · have hnode' : Slot.node x ≠ Slot.node uind := fun heq => hxc (Slot.node.inj heq)
      simp only [put, update_of_ne hnode, update_of_ne hnode']
      exact hswap x

theorem cmdswitchnet_does (h : s.RightsKept) {usern : Int} (hlive : s.Live usern) {ircto irccontent : CStr}
    (hto : LF ∉ ircto) (salt : Salt) :
    ∃ s', s.cmdswitchnet salt usern ircto irccontent = some s' ∧ s.Does s' .idle := by
  rcases cmdswitchnet_spec h.sound h.idle h.forest hlive hto salt with
    ⟨_, hcmd⟩ | ⟨s', uind, l, _, hcmd, hs', hidle', hroot, hchild, hview⟩
  · exact ⟨s, hcmd, Does.refl h⟩
  · refine ⟨s', hcmd, ?_⟩
    have hu := (kin_root.1 hroot).1.isUser h.sound
    have hc := (kin_child.1 hchild).1.isUser h.sound
    have hne : usern ≠ uind := by
      rintro rfl
      rw [hroot] at hchild
      cases hchild
    have hkin := (kin_switchRecords h.sound hroot hchild hto).2
    have hmembers : s'.members = fun x => (s.members x).map (switchedMember usern uind x) := by
      have hwritten : s'.members = ((s.swapNodes usern uind).switchRecords usern uind ircto).members :=
        hview memberEntry memberEntry_dead fun _ _ => rfl
      funext x
      rw [hwritten, members_eq, hkin, members_eq, promote]
      cases hx : s.kin x with
      | none =>
          rfl
      | some y =>
          have huser := (kin_eq_some.1 hx).1.isUser h.sound
          rw [Option.map_some, Option.map_some, Option.map_some, Option.map_some,
            rights_switchRecords hu hc hne ircto huser]
          rfl
    exact Does.of_table hs' hidle' hmembers
      (h.ruled.switch (members_of_kin hroot) rfl (members_of_kin hchild) rfl)

/-- Records that are as they were, or freed. -/
def Survives (s s' : Users) : Prop :=
  ∀ x, s'.user (.node x) = s.user (.node x) ∨ s'.user (.node x) = blankAccount

theorem Replaces.survives (h : s.Replaces s' uid blankAccount) : s.Survives s' := by
  intro x
  rw [h.user]
  by_cases hx : x = uid
  · rw [hx, update_self]
    exact Or.inr rfl
  · have hnode : Slot.node x ≠ Slot.node uid := fun heq => hx (Slot.node.inj heq)
    rw [update_of_ne hnode]
    exact Or.inl rfl

theorem Survives.trans {s'' : Users} (h : s.Survives s') (h' : s'.Survives s'') : s.Survives s'' := by
  intro x
  rcases h' x with hsame | hfreed
  · rw [hsame]
    exact h x
  · exact Or.inr hfreed

/-- The loop of `cmddeluser` frees records and touches no other one. -/
theorem delNetworks_survives {uind : Int} (hs : s.Sound) (uids : List Int) (hmem : ∀ uid ∈ uids, uid ∈ s.usernode)
    (salt : Salt) (rand : Nat → Nat) :
    ∀ s', uids.foldlM (delNetworks salt rand uind) s = some s' → s.Survives s' := by
  induction uids generalizing s with
  | nil =>
      intro s' hfold
      cases hfold
      exact fun x => Or.inl rfl
  | cons uid uids ih =>
      intro s' hfold
      have hrest : ∀ x ∈ uids, x ∈ s.usernode := fun x hx => hmem x (List.mem_cons_of_mem _ hx)
      rw [List.foldlM_cons, delNetworks] at hfold
      split at hfold
      · next hdel =>
        have huid : s.IsUser uid := isUser_of_mem hs (hmem uid List.mem_cons_self) (by omega)
        rcases remove_spec hs huid salt rand with ⟨s₁, hremove, hs₁, hrep⟩
        rw [hremove] at hfold
        have hrest₁ : ∀ x ∈ uids, x ∈ s₁.usernode := by
          intro x hx
          rw [hrep.usernode]
          exact hrest x hx
        exact hrep.survives.trans (ih hs₁ hrest₁ s' hfold)
      · exact ih hs hrest s' hfold

theorem cmddeluser_survives (h : s.RightsKept) {irccontent : CStr} {rand : Nat → Nat}
    (hcmd : s.cmddeluser salt rand irccontent = some s') : s.Survives s' := by
  rw [cmddeluser] at hcmd
  cases htarget : s.delTarget irccontent with
  | none =>
      rw [htarget] at hcmd
      cases hcmd
      exact fun x => Or.inl rfl
  | some uind =>
      rw [htarget] at hcmd
      have hroot := (delTarget_root h.idle h.forest htarget).2
      have hlive := (kin_root.1 hroot).1
      rcases delNetworks_foldlM h.sound h.idle hlive.2.1 s.usernode (fun _ hx => hx) salt rand with
        ⟨s₁, hfold, hs₁, _, hnode, _⟩
      have huser : s₁.IsUser uind := isUser_congr (hlive.isUser h.sound) hnode
      rcases remove_spec hs₁ huser salt rand with ⟨s₂, hremove, _, hrep⟩
      simp only [hfold, Option.bind_some, hremove] at hcmd
      cases hcmd
      exact (delNetworks_survives h.sound s.usernode (fun _ hx => hx) salt rand s₁ hfold).trans hrep.survives

/-- An account that is left has the rights that it had. -/
theorem Survives.same_rights (h : s.Survives s') (hs : s.Sound) (hs' : s'.Sound) {x : Int} (hx : s.Live x)
    (hx' : s'.Live x) : (s'.account x).rights = (s.account x).rights := by
  have huser := hx.isUser hs
  have huser' := hx'.isUser hs'
  have hlogin := hx'.2.2
  rw [account_of_isUser huser'] at hlogin ⊢
  rw [account_of_isUser huser]
  rcases h x with hsame | hfreed
  · rw [hsame]
  · rw [hfreed] at hlogin
    exact absurd rfl hlogin

/-- `DELUSER` does not delete the parent of account 1. -/
def SparesFirst (s : Users) (irccontent : CStr) : Prop :=
  ∀ uind, s.delTarget irccontent = some uind → ¬ (s.Live 1 ∧ (s.account 1).parent = uind)

theorem cmddeluser_does (h : s.RightsKept) {irccontent : CStr} (hspares : s.SparesFirst irccontent) (salt : Salt)
    (rand : Nat → Nat) :
    ∃ s', s.cmddeluser salt rand irccontent = some s' ∧
      (s.Does s' .idle ∨ s.Does s' (.remove irccontent)) := by
  rcases cmddeluser_kin h.sound h.idle h.forest irccontent salt rand with ⟨s', hcmd, hs', hidle', hkin⟩
  refine ⟨s', hcmd, ?_⟩
  have hsurvives := cmddeluser_survives h hcmd
  cases htarget : s.delTarget irccontent with
  | none =>
      rw [cmddeluser, htarget] at hcmd
      cases hcmd
      exact Or.inl (Does.refl h)
  | some uind =>
      have hroot := (delTarget_root h.idle h.forest htarget).2
      have hmembers : s'.members = fun x => (s.members x).bind (prunedMember uind x) := by
        funext x
        rw [htarget, Option.elim_some] at hkin
        rw [members_eq, members_eq]
        cases hx : s.kin x with
        | none =>
            have hgone : s'.kin x = none := by
              rw [hkin, prune, hx]
              exact ite_self none
            rw [hgone]
            rfl
        | some y =>
            have hlive := (kin_eq_some.1 hx).1
            by_cases hfamily : x = uind ∨ y.1 = some uind
            · have hgone : s'.kin x = none := by
                rw [hkin, prune, hx, if_pos]
                rcases hfamily with hself | hparent
                · exact Or.inl hself
                · refine Or.inr ⟨?_, hparent⟩
                  rintro rfl
                  have hchild : s.kin 1 = some (some uind, y.2) := by rw [hx, ← hparent]
                  rcases kin_child.1 hchild with ⟨hone, _, hof, _⟩
                  exact hspares uind htarget ⟨hone, hof⟩
              rw [hgone, Option.map_some, Option.bind_some, prunedMember, if_pos hfamily]
              rfl
            · have hleft : s'.kin x = some y := by
                rw [hkin, prune, hx, if_neg]
                rintro (hself | hparent)
                · exact hfamily (Or.inl hself)
                · exact hfamily (Or.inr hparent.2)
              have hlive' := (kin_eq_some.1 hleft).1
              rw [hleft, Option.map_some, Option.map_some, Option.bind_some, prunedMember, if_neg hfamily,
                hsurvives.same_rights h.sound hs' hlive hlive']
      rcases h.ruled.prune (members_of_kin hroot) rfl with ⟨hruled, hroles⟩
      rw [← hmembers] at hruled hroles
      exact Or.inr ⟨⟨hs', hidle', hruled⟩, hroles⟩

/-- `ADMIN` and `UNADMIN` set the rights of a login, or do nothing. -/
theorem setRights_does (h : s.RightsKept) (hrights : rights = RI_USER ∨ rights = RI_ADMIN) (irccontent : CStr)
    (salt : Salt) :
    ∃ s', s.setRights salt rights irccontent = some s' ∧
      (s.Does s' .idle ∨ s.Does s' (.entitle irccontent (decide (rights = RI_ADMIN)))) := by
  rw [setRights]
  split
  · exact ⟨s, rfl, Or.inl (Does.refl h)⟩
  · next hok =>
    rw [not_or] at hok
    have hroot := checkuser_root h.idle h.forest hok.1 hok.2
    have hmember := members_of_kin hroot
    have htarget : s.rightsTarget irccontent = s.checkuser irccontent := by
      rw [rightsTarget, if_neg (not_not_intro (kin_root.1 hroot).2.1)]
    rcases crown_foldlM h.sound h.idle hok.2 h.sound.nodup (fun _ hx => hx) salt rights with
      ⟨s', hfold, hs', hidle', _, hmembers⟩
    have hall : s'.members = fun x => (s.members x).map (crownedMember (s.checkuser irccontent) rights x) := by
      funext x
      rw [hmembers]
      split
      · rfl
      · next hx =>
        -- a number without a node is no account
        cases hm : s.members x with
        | none =>
            rfl
        | some m =>
            exact absurd (live_of_members hm).1.1 hx
    rcases h.ruled.crown hmember rfl hrights with ⟨hruled, hroles⟩
    rw [← hall] at hruled hroles
    refine ⟨s', ?_, Or.inr ⟨⟨hs', hidle', hruled⟩, hroles⟩⟩
    rw [htarget]
    exact hfold

/-! ## Orders -/

/-- The commands on accounts, and those on rights. -/
inductive RightsCommand where
  | account (command : AccountCommand)
  | admin
  | unadmin
  deriving DecidableEq, Repr

/-- `adminonly` in the table of the commands. -/
def RightsCommand.adminonly : RightsCommand → Bool
  | .account command => command.adminonly
  | .admin | .unadmin => true

/-- A command of the client of `usern`, with its arguments and the results of `rand()`. -/
structure Order where
  usern : Int
  command : RightsCommand
  ircto : CStr
  irccontent : CStr
  rand : Nat → Nat
  line : LF ∉ ircto ∧ LF ∉ irccontent

/-- The account of the client exists, and has rights where the table wants them. -/
def Obeyed (s : Users) (i : Order) : Prop :=
  s.Live i.usern ∧ (i.command.adminonly = true → (s.account i.usern).rights = RI_ADMIN)

instance Obeyed.decidable (s : Users) (i : Order) : Decidable (s.Obeyed i) := by
  dsimp [Obeyed]
  infer_instance

def orderStep (salt : Salt) (s : Users) (i : Order) : Option Users :=
  if s.Obeyed i then
    match i.command with
    | .account .adduser => (s.cmdadduser salt i.rand i.usern i.ircto i.irccontent).map Prod.snd
    | .account .addnetwork => s.cmdaddnetwork salt i.rand i.usern i.irccontent
    | .account .delnetwork => s.cmddelnetwork salt i.rand i.usern i.irccontent
    | .account .switchnet => s.cmdswitchnet salt i.usern i.ircto i.irccontent
    | .account .deluser => s.cmddeluser salt i.rand i.irccontent
    | .admin => s.cmdadmin salt i.irccontent
    | .unadmin => s.cmdunadmin salt i.irccontent
  else some s

/-- A new login can be told from the others, and account 1 keeps its parent. -/
def OrderFits (s : Users) (i : Order) : Prop :=
  (i.command = .account .adduser → s.FreshLogin i.ircto) ∧
    (i.command = .account .deluser → s.SparesFirst i.irccontent)

/-- The client of `usern` acts as his login, and what he does is what the command is for. -/
def Acts (s : Users) (i : Order) (p : CStr × RoleAct CStr) : Prop :=
  p.1 = (s.account i.usern).login ∧
    match p.2 with
    | .idle => True
    | .add n => i.command = .account .adduser ∧ n = clip 64 i.ircto
    | .remove n => i.command = .account .deluser ∧ n = i.irccontent
    | .entitle n b => i.command = (if b then .admin else .unadmin) ∧ n = i.irccontent

/-- An order that is obeyed is an act; one that needs rights is given by a client with rights. -/
theorem obeyed_does (salt : Salt) {i : Order} (h : s.RightsKept) (hobeyed : s.Obeyed i) (hfits : s.OrderFits i) :
    ∃ s' act, orderStep salt s i = some s' ∧ s.Does s' act ∧ s.Acts i ((s.account i.usern).login, act) ∧
      (act = .idle ∨ i.command.adminonly = true) := by
  rcases hobeyed with ⟨hlive, hrights⟩
  rw [orderStep, if_pos ⟨hlive, hrights⟩]
  cases hcommand : i.command with
  | account command =>
      cases command with
      | adduser =>
          rcases cmdadduser_does h hlive.2.1 i.line.1 i.line.2 (hfits.1 hcommand) salt i.rand with
            ⟨rc, s', hcmd, hidle | hadd⟩
          · exact ⟨s', _, by simp only [hcmd, Option.map_some], hidle, ⟨rfl, trivial⟩, Or.inl rfl⟩
          · exact ⟨s', _, by simp only [hcmd, Option.map_some], hadd, ⟨rfl, hcommand, rfl⟩, Or.inr rfl⟩
      | addnetwork =>
          rcases cmdaddnetwork_does h hlive i.line.2 salt i.rand with ⟨s', hcmd, hidle⟩
          exact ⟨s', _, hcmd, hidle, ⟨rfl, trivial⟩, Or.inl rfl⟩
      | delnetwork =>
          rcases cmddelnetwork_does h hlive.2.1 i.irccontent salt i.rand with ⟨s', hcmd, hidle⟩
          exact ⟨s', _, hcmd, hidle, ⟨rfl, trivial⟩, Or.inl rfl⟩
      | switchnet =>
          rcases cmdswitchnet_does h hlive i.line.1 salt with ⟨s', hcmd, hidle⟩
          exact ⟨s', _, hcmd, hidle, ⟨rfl, trivial⟩, Or.inl rfl⟩
      | deluser =>
          rcases cmddeluser_does h (hfits.2 hcommand) salt i.rand with ⟨s', hcmd, hidle | hremove⟩
          · exact ⟨s', _, hcmd, hidle, ⟨rfl, trivial⟩, Or.inl rfl⟩
          · exact ⟨s', _, hcmd, hremove, ⟨rfl, hcommand, rfl⟩, Or.inr rfl⟩
  | admin =>
      rcases setRights_does h (Or.inr rfl) i.irccontent salt with ⟨s', hcmd, hidle | hentitle⟩
      · exact ⟨s', _, hcmd, hidle, ⟨rfl, trivial⟩, Or.inl rfl⟩
      · exact ⟨s', _, hcmd, hentitle, ⟨rfl, hcommand, rfl⟩, Or.inr rfl⟩
  | unadmin =>
      rcases setRights_does h (Or.inl rfl) i.irccontent salt with ⟨s', hcmd, hidle | hentitle⟩
      · exact ⟨s', _, hcmd, hidle, ⟨rfl, trivial⟩, Or.inl rfl⟩
      · exact ⟨s', _, hcmd, hentitle, ⟨rfl, hcommand, rfl⟩, Or.inr rfl⟩

/-- There is such a login, with rights or without. -/
def HasLogin (s : Users) (l : CStr) (b : Bool) : Prop :=
  ∃ x, s.Live x ∧ (s.account x).login = l ∧ b = decide ((s.account x).rights = RI_ADMIN)

theorem mem_roles {b : Bool} : (l, b) ∈ s.roles ↔ s.HasLogin l b := by
  constructor
  · rintro ⟨x, m, hx, heq⟩
    rcases live_of_members hx with ⟨hlive, hlogin, hrights⟩
    rw [Prod.mk.injEq] at heq
    exact ⟨x, hlive, by rw [hlogin, heq.1], by rw [hrights, heq.2]⟩
  · rintro ⟨x, hlive, rfl, rfl⟩
    rcases members_of_live hlive with ⟨m, hx, hlogin, hrights⟩
    exact ⟨x, m, hx, by rw [hlogin, hrights]⟩

/-- One order, obeyed or not. -/
theorem orderStep_acts (salt : Salt) {i : Order} (h : s.RightsKept) (hfits : s.OrderFits i) :
    ∃ s' p, orderStep salt s i = some s' ∧ s'.RightsKept ∧ s.Acts i p ∧ RoleStep s.roles p s'.roles := by
  by_cases hobeyed : s.Obeyed i
  · rcases obeyed_does salt h hobeyed hfits with ⟨s', act, hstep, hdoes, hacts, hwho⟩
    refine ⟨s', _, hstep, hdoes.kept, hacts, hwho.imp id ?_, hdoes.roles⟩
    intro hadmin
    exact mem_roles.2 ⟨i.usern, hobeyed.1, rfl, (decide_eq_true (hobeyed.2 hadmin)).symm⟩
  · refine ⟨s, ((s.account i.usern).login, .idle), ?_, h, ⟨rfl, trivial⟩, Or.inl rfl, rfl⟩
    rw [orderStep, if_neg hobeyed]

/-- After such an order a login is there, with rights or without. -/
def Order.Makes (l : CStr) (b : Bool) (i : Order) : Prop :=
  b = false ∧ i.command = .account .adduser ∧ l = clip 64 i.ircto ∨
    i.command = (if b then .admin else .unadmin) ∧ l = i.irccontent

/-- After such an order it is no longer so. -/
def Order.Ends (l : CStr) (b : Bool) (i : Order) : Prop :=
  (i.command = .account .deluser ∨ i.command = if b then .unadmin else .admin) ∧ l = i.irccontent

/-- Along the orders there is one that is given by a client whose login has rights then. -/
def Ordered (salt : Salt) (Q : Order → Prop) (s : Users) (is : List Order) : Prop :=
  ∃ before i after u, is = before ++ i :: after ∧ runAll (orderStep salt) s before = some u ∧ Q i ∧
    u.HasLogin (u.account i.usern).login true

theorem ordered_of_acted {Q : RoleAct CStr → Prop} {P : Order → Prop} {is : List Order}
    (hsay : ∀ u i p, Acts u i p → Q p.2 → P i) (h : Acted (orderStep salt) roles Acts Q s is) :
    Ordered salt P s is := by
  rcases h with ⟨before, i, after, u, p, heq, hrun, hacts, hQ, hp⟩
  refine ⟨before, i, after, u, heq, hrun, hsay u i p hacts hQ, ?_⟩
  rw [← hacts.1]
  exact mem_roles.1 hp

end Users

/-- From accounts whose rights are in order, commands keep all accounts of a login on the same rights.  A login gets
rights or appears, and loses rights or disappears, only by a command that a client whose login has rights then has
given for it. -/
theorem rights_by_admins (salt : Salt) (s : Users) (hs : s.RightsKept) (is : List Users.Order)
    (his : StepsMeet (Users.orderStep salt) Users.OrderFits s is) :
    ∃ t, runAll (Users.orderStep salt) s is = some t ∧ t.RightsKept ∧
      (∀ x y, t.Live x → t.Live y → (t.account x).login = (t.account y).login →
        (t.account x).rights = (t.account y).rights) ∧
      (∀ l b, t.HasLogin l b → s.HasLogin l b ∨ Users.Ordered salt (Users.Order.Makes l b) s is) ∧
      ∀ l b, s.HasLogin l b → t.HasLogin l b ∨ Users.Ordered salt (Users.Order.Ends l b) s is := by
  have hrun := acted_of_stepsMeet Users.roles Users.Acts Users.RightsKept
    (fun u i hu hfits => Users.orderStep_acts salt hu hfits) hs his
  rcases hrun with ⟨t, hrun, ht, hchanges⟩
  refine ⟨t, hrun, ht, ?_, ?_, ?_⟩
  · intro x y hx hy hlogin
    rcases Users.members_of_live hx with ⟨m, hm, hmlogin, hmrights⟩
    rcases Users.members_of_live hy with ⟨r, hr, hrlogin, hrrights⟩
    rw [← hmrights, ← hrrights]
    exact ht.ruled.uniform hm hr (by rw [hmlogin, hrlogin, hlogin])
  · intro l b hl
    refine ((hchanges l b).1 (Users.mem_roles.2 hl)).imp Users.mem_roles.1 (Users.ordered_of_acted ?_)
    rintro u i ⟨n, act⟩ ⟨_, hact⟩ (⟨hb, rfl⟩ | rfl)
    · exact Or.inl ⟨hb, hact⟩
    · exact Or.inr hact
  · intro l b hl
    refine ((hchanges l b).2 (Users.mem_roles.2 hl)).imp Users.mem_roles.1 (Users.ordered_of_acted ?_)
    rintro u i ⟨n, act⟩ ⟨_, hact⟩ (rfl | rfl)
    · exact ⟨Or.inl hact.1, hact.2⟩
    · refine ⟨Or.inr ?_, hact.2⟩
      rw [hact.1]
      cases b with
      | false => rfl
      | true => rfl

/-! ## An account that gets rights -/

theorem ownerOnly_rightsKept : ownerOnly.RightsKept where
  sound := ownerOnly_sound
  idle := ⟨rfl, rfl⟩
  ruled := by
    have hone : ∀ x m, ownerOnly.members x = some m → x = 1 ∧ m = ⟨none, ascii "owner", RI_ADMIN⟩ := by
      intro x m hx
      have huid := ownerOnly_single x (Users.live_of_members hx).1
      subst huid
      have howner : ownerOnly.members 1 = some ⟨none, ascii "owner", RI_ADMIN⟩ := by decide
      exact ⟨rfl, (Option.some.inj (howner.symm.trans hx)).symm⟩
    refine ⟨?_, ?_, ?_⟩
    · intro x m p hx hparent
      rw [(hone x m hx).2] at hparent
      cases hparent
    · intro x y m r hx hy _ _ _
      rw [(hone x m hx).1, (hone y r hy).1]
    · intro x m hx
      rw [(hone x m hx).2]
      exact Or.inr rfl

def orders (usern : Int) (command : Users.RightsCommand) (ircto irccontent : CStr)
    (h : LF ∉ ircto ∧ LF ∉ irccontent) : Users.Order where
  usern := usern
  command := command
  ircto := ircto
  irccontent := irccontent
  rand := fun _ => 0
  line := h

theorem line_bob : LF ∉ ascii "bob" ∧ LF ∉ ascii "Bob" := by decide

theorem line_net : LF ∉ ([] : CStr) ∧ LF ∉ ascii "net" := by decide

theorem line_admin : LF ∉ ([] : CStr) ∧ LF ∉ ascii "bob" := by decide

/-- The owner adds a user, who adds a network and then gets rights. -/
def crowning : List Users.Order :=
  [orders 1 (.account .adduser) (ascii "bob") (ascii "Bob") line_bob,
    orders 2 (.account .addnetwork) [] (ascii "net") line_net,
    orders 1 .admin [] (ascii "bob") line_admin]

theorem rights_by_admins_crowning :
    ∃ t, runAll (Users.orderStep buildSalt) ownerOnly crowning = some t ∧ t.RightsKept ∧
      ∀ l, t.HasLogin l true → ownerOnly.HasLogin l true ∨
        Users.Ordered buildSalt (Users.Order.Makes l true) ownerOnly crowning := by
  have hfits : StepsMeet (Users.orderStep buildSalt) Users.OrderFits ownerOnly crowning := by
    refine ⟨⟨fun _ => Or.inl (by decide), nofun⟩, fun _ _ => ?_⟩
    refine ⟨⟨nofun, nofun⟩, fun _ _ => ?_⟩
    exact ⟨⟨nofun, nofun⟩, fun _ _ => trivial⟩
  rcases rights_by_admins buildSalt ownerOnly ownerOnly_rightsKept crowning hfits with ⟨t, hrun, ht, _, hgained, _⟩
  exact ⟨t, hrun, ht, fun l => hgained l true⟩

/-- The network has the new rights as well. -/
example : (runAll (Users.orderStep buildSalt) ownerOnly crowning).map (fun s =>
    ((s.account 2).login, (s.account 2).rights, (s.account 3).parent, (s.account 3).rights)) =
      some (ascii "bob", RI_ADMIN, 2, RI_ADMIN) := by
  decide +kernel

end PsyBnc
