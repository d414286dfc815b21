import PsyBnc.Lib.Roles
import PsyBnc.Peer.Login

/-!
# The members of a bouncer

A table of the accounts: login accounts, and the networks that belong to them.  All accounts of a login have the same
rights as long as the table is changed in the ways below.
-/

namespace PsyBnc

open CLib Function

def RI_USER : Int := 0

/-- What is known of an account: the login account that it belongs to, the login and the rights. -/
structure Member where
  parent : Option Int
  login : CStr
  rights : Int
  deriving DecidableEq

/-- A login has one login account, whose networks have its login and its rights. -/
structure Ruled (t : Int → Option Member) : Prop where
  parents : ∀ x m p, t x = some m → m.parent = some p → ∃ r, t p = some r ∧ r = { m with parent := none }
  single : ∀ x y m r, t x = some m → t y = some r → m.parent = none → r.parent = none → m.login = r.login → x = y
  plain : ∀ x m, t x = some m → m.rights = RI_USER ∨ m.rights = RI_ADMIN

/-- The logins, each with whether it has rights. -/
def rolesOf (t : Int → Option Member) : Set (CStr × Bool) :=
  {p | ∃ x m, t x = some m ∧ p = (m.login, decide (m.rights = RI_ADMIN))}

/-- A network changes places with its login account. -/
def switchedMember (p c x : Int) (m : Member) : Member :=
  { m with
    parent := if x = c then none else if x = p ∨ m.parent = some p then some c else m.parent }

/-- A login account goes with its networks. -/
def prunedMember (u x : Int) (m : Member) : Option Member :=
  if x = u ∨ m.parent = some u then none else some m

/-- A login account and its networks get other rights. -/
def crownedMember (u rights x : Int) (m : Member) : Member :=
  if x = u ∨ m.parent = some u then { m with rights := rights } else m

namespace Ruled

variable {t : Int → Option Member} {x y u p c : Int} {m r : Member} {l : CStr}

/-- The login account of a member. -/
theorem root (h : Ruled t) (hx : t x = some m) :
    ∃ u, t u = some { m with parent := none } ∧ (x = u ∧ m.parent = none ∨ m.parent = some u) := by
  cases hparent : m.parent with
  | none =>
      refine ⟨x, ?_, Or.inl ⟨rfl, rfl⟩⟩
      rw [hx]
      cases m
      cases hparent
      rfl
  | some u =>
      rcases h.parents x m u hx hparent with ⟨r, hr, rfl⟩
      exact ⟨u, hr, Or.inr rfl⟩

/-- Accounts of one login belong to one login account. -/
theorem of_login (h : Ruled t) (hu : t u = some r) (hroot : r.parent = none) (hx : t x = some m) :
    m.login = r.login ↔ x = u ∨ m.parent = some u := by
  rcases h.root hx with ⟨v, hv, hwhere⟩
  constructor
  · intro hlogin
    have hvu := h.single v u _ _ hv hu rfl hroot hlogin
    subst hvu
    exact hwhere.imp And.left id
  · rintro (rfl | hparent)
    · rw [hu] at hx
      rw [Option.some.inj hx]
    · rcases h.parents x m u hx hparent with ⟨r', hr', rfl⟩
      rw [hu] at hr'
      rw [Option.some.inj hr']

/-- All accounts of a login have the same rights. -/
theorem uniform (h : Ruled t) (hx : t x = some m) (hy : t y = some r) (hlogin : m.login = r.login) :
    m.rights = r.rights := by
  rcases h.root hx with ⟨u, hu, _⟩
  rcases h.root hy with ⟨v, hv, _⟩
  have huv := h.single u v _ _ hu hv rfl rfl hlogin
  rw [huv, hv] at hu
  exact (congrArg Member.rights (Option.some.inj hu)).symm

/-! ## What commands do to the table -/

/-- A login account with a new login. -/
theorem addRoot (h : Ruled t) (hfree : t u = none) (hnew : ∀ x m, t x = some m → m.login ≠ l) :
    Ruled (update t u (some ⟨none, l, RI_USER⟩)) ∧
      rolesOf (update t u (some ⟨none, l, RI_USER⟩)) = (RoleAct.add l).after (rolesOf t) := by
  have hother : ∀ {x m}, t x = some m → x ≠ u := by
    rintro x m hx rfl
    rw [hfree] at hx
    cases hx
  have hcases : ∀ {x m}, update t u (some ⟨none, l, RI_USER⟩) x = some m →
      x = u ∧ m = ⟨none, l, RI_USER⟩ ∨ t x = some m := by
    intro x m hx
    by_cases hxu : x = u
    · rw [hxu, update_self] at hx
      exact Or.inl ⟨hxu, (Option.some.inj hx).symm⟩
    · rw [update_of_ne hxu] at hx
      exact Or.inr hx
  refine ⟨⟨?_, ?_, ?_⟩, ?_⟩
  · intro x m p hx hparent
    rcases hcases hx with ⟨_, rfl⟩ | hx
    · cases hparent
    · rcases h.parents x m p hx hparent with ⟨r, hr, hrm⟩
      exact ⟨r, by rw [update_of_ne (hother hr), hr], hrm⟩
  · intro x y m r hx hy hm hr hlogin
    rcases hcases hx with ⟨hxu, rfl⟩ | hx'
    · rcases hcases hy with ⟨hyu, rfl⟩ | hy'
      · rw [hxu, hyu]
      · exact absurd hlogin.symm (hnew y r hy')
    · rcases hcases hy with ⟨hyu, rfl⟩ | hy'
      · exact absurd hlogin (hnew x m hx')
      · exact h.single x y m r hx' hy' hm hr hlogin
  · intro x m hx
    rcases hcases hx with ⟨_, rfl⟩ | hx
    · exact Or.inl rfl
    · exact h.plain x m hx
  · ext q
    constructor
    · rintro ⟨x, m, hx, rfl⟩
      rcases hcases hx with ⟨_, rfl⟩ | hx
      · exact Or.inl rfl
      · exact Or.inr ⟨x, m, hx, rfl⟩
    · rintro (rfl | ⟨x, m, hx, rfl⟩)
      · exact ⟨u, ⟨none, l, RI_USER⟩, update_self _ _ _, rfl⟩
      · exact ⟨x, m, by rw [update_of_ne (hother hx), hx], rfl⟩

/-- A network of a login account. -/
theorem addChild (h : Ruled t) (hfree : t u = none) (hp : t p = some m) (hroot : m.parent = none) :
    Ruled (update t u (some { m with parent := some p })) ∧
      rolesOf (update t u (some { m with parent := some p })) = rolesOf t := by
  have hother : ∀ {x r}, t x = some r → x ≠ u := by
    rintro x r hx rfl
    rw [hfree] at hx
    cases hx
  have hcases : ∀ {x r}, update t u (some { m with parent := some p }) x = some r →
      x = u ∧ r = { m with parent := some p } ∨ t x = some r := by
    intro x r hx
    by_cases hxu : x = u
    · rw [hxu, update_self] at hx
      exact Or.inl ⟨hxu, (Option.some.inj hx).symm⟩
    · rw [update_of_ne hxu] at hx
      exact Or.inr hx
  refine ⟨⟨?_, ?_, ?_⟩, ?_⟩
  · intro x r q hx hparent
    rcases hcases hx with ⟨_, rfl⟩ | hx
    · cases hparent
      refine ⟨m, by rw [update_of_ne (hother hp), hp], ?_⟩
      cases m
      cases hroot
      rfl
    · rcases h.parents x r q hx hparent with ⟨r', hr', hrm⟩
      exact ⟨r', by rw [update_of_ne (hother hr'), hr'], hrm⟩
  · intro x y r r' hx hy hr hr' hlogin
    rcases hcases hx with ⟨_, rfl⟩ | hx'
    · cases hr
    · rcases hcases hy with ⟨_, rfl⟩ | hy'
      · cases hr'
      · exact h.single x y r r' hx' hy' hr hr' hlogin
  · intro x r hx
    rcases hcases hx with ⟨_, rfl⟩ | hx
    · exact h.plain p m hp
    · exact h.plain x r hx
  · ext q
    constructor
    · rintro ⟨x, r, hx, rfl⟩
      rcases hcases hx with ⟨_, rfl⟩ | hx
      · exact ⟨p, m, hp, rfl⟩
      · exact ⟨x, r, hx, rfl⟩
    · rintro ⟨x, r, hx, rfl⟩
      exact ⟨x, r, by rw [update_of_ne (hother hx), hx], rfl⟩

/-- A network goes. -/
theorem removeChild (h : Ruled t) (hu : t u = some m) (hparent : m.parent = some p) :
    Ruled (update t u none) ∧ rolesOf (update t u none) = rolesOf t := by
  rcases h.parents u m p hu hparent with ⟨r, hp, hr⟩
  have hpu : p ≠ u := by
    rintro rfl
    rw [hu] at hp
    rw [← Option.some.inj hp] at hr
    cases (congrArg Member.parent hr).symm.trans hparent
  have hcases : ∀ {x r}, update t u none x = some r → t x = some r := by
    intro x r hx
    by_cases hxu : x = u
    · rw [hxu, update_self] at hx
      cases hx
    · rwa [update_of_ne hxu] at hx
  refine ⟨⟨?_, ?_, ?_⟩, ?_⟩
  · intro x k q hx hq
    rcases h.parents x k q (hcases hx) hq with ⟨r', hr', hrm⟩
    have hqu : q ≠ u := by
      rintro rfl
      rw [hu] at hr'
      rw [← Option.some.inj hr'] at hrm
      cases (congrArg Member.parent hrm).symm.trans hparent
    exact ⟨r', by rw [update_of_ne hqu, hr'], hrm⟩
  · exact fun x y k k' hx hy => h.single x y k k' (hcases hx) (hcases hy)
  · exact fun x k hx => h.plain x k (hcases hx)
  · ext q
    constructor
    · rintro ⟨x, k, hx, rfl⟩
      exact ⟨x, k, hcases hx, rfl⟩
    · rintro ⟨x, k, hx, rfl⟩
      by_cases hxu : x = u
      · -- the login account has the same login and rights
        subst hxu
        rw [hu] at hx
        refine ⟨p, r, by rw [update_of_ne hpu, hp], ?_⟩
        rw [hr, Option.some.inj hx]
      · exact ⟨x, k, by rw [update_of_ne hxu, hx], rfl⟩

/-- A table whose members change, but for the login. -/
theorem mem_rolesOf_map {f : Int → Member → Member} (hlogin : ∀ x m, (f x m).login = m.login)
    (hrights : ∀ x m, (f x m).rights = m.rights) : rolesOf (fun x => (t x).map (f x)) = rolesOf t := by
  ext q
  constructor
  · rintro ⟨x, k, hx, rfl⟩
    rcases Option.map_eq_some_iff.1 hx with ⟨m, hm, rfl⟩
    exact ⟨x, m, hm, by rw [hlogin, hrights]⟩
  · rintro ⟨x, m, hx, rfl⟩
    have hfx : (t x).map (f x) = some (f x m) := by rw [hx, Option.map_some]
    exact ⟨x, f x m, hfx, by rw [hlogin, hrights]⟩

theorem switch (h : Ruled t) (hp : t p = some r) (hroot : r.parent = none) (hc : t c = some m)
    (hchild : m.parent = some p) :
    Ruled (fun x => (t x).map (switchedMember p c x)) ∧
      rolesOf (fun x => (t x).map (switchedMember p c x)) = rolesOf t := by
  have hm : m.login = r.login ∧ m.rights = r.rights := by
    rcases h.parents c m p hc hchild with ⟨r', hr', heq⟩
    rw [hp] at hr'
    rw [Option.some.inj hr', heq]
    exact ⟨rfl, rfl⟩
  have hcp : c ≠ p := by
    rintro rfl
    rw [hc] at hp
    rw [Option.some.inj hp, hroot] at hchild
    cases hchild
  -- The network becomes the login account of the family.
  have hnew : (t c).map (switchedMember p c c) = some ⟨none, r.login, r.rights⟩ := by
    rw [hc, Option.map_some, switchedMember, if_pos rfl, hm.1, hm.2]
  refine ⟨⟨?_, ?_, ?_⟩, mem_rolesOf_map (fun _ _ => rfl) fun _ _ => rfl⟩
  · intro x k q hx hq
    rcases Option.map_eq_some_iff.1 hx with ⟨k, hk, rfl⟩
    have hq' : (if x = c then none else if x = p ∨ k.parent = some p then some c else k.parent) = some q := hq
    split at hq'
    · cases hq'
    · next hxc =>
      split at hq'
      · next hfam =>
        cases hq'
        refine ⟨_, hnew, ?_⟩
        -- One of the family: it points to the new login account, whose login and rights are its own.
        have hlogin := (h.of_login hp hroot hk).2 hfam
        have hrights := h.uniform hk hp hlogin
        simp only [switchedMember, hlogin, hrights]
      · next hfam =>
        -- One of another family, which is not touched.
        rcases h.parents x k q hk hq' with ⟨r', hr', rfl⟩
        have hqc : q ≠ c := by
          rintro rfl
          rw [hc] at hr'
          cases (congrArg Member.parent (Option.some.inj hr')).symm.trans hchild
        have hqp : q ≠ p := by
          rintro rfl
          exact hfam (Or.inr hq')
        refine ⟨_, by rw [hr']; rfl, ?_⟩
        simp only [switchedMember, hqc, hqp, if_false, false_or, reduceCtorEq]
  · intro x y k k' hx hy hk hk' hlogin
    rcases Option.map_eq_some_iff.1 hx with ⟨k, hkx, rfl⟩
    rcases Option.map_eq_some_iff.1 hy with ⟨k', hky, rfl⟩
    -- A login account is the new one, or was one before and is not the old.
    have hone : ∀ {z k}, t z = some k → (switchedMember p c z k).parent = none →
        z = c ∨ k.parent = none ∧ z ≠ p := by
      intro z k hz hnone
      have hnone' : (if z = c then none else if z = p ∨ k.parent = some p then some c else k.parent) = none := hnone
      split at hnone'
      · next hzc => exact Or.inl hzc
      · split at hnone'
        · cases hnone'
        · next hfam => exact Or.inr ⟨hnone', fun heq => hfam (Or.inl heq)⟩
    have hlogin' : k.login = k'.login := hlogin
    -- another login account has another login than the network
    have hapart : ∀ {z k}, t z = some k → k.parent = none → z ≠ p → k.login ≠ m.login := by
      intro z k hz hnone hzp heq
      exact hzp (h.single z p k r hz hp hnone hroot (heq.trans hm.1))
    rcases hone hkx hk with rfl | ⟨hxroot, hxp⟩
    · rcases hone hky hk' with rfl | ⟨hyroot, hyp⟩
      · rfl
      · rw [hc] at hkx
        rw [← Option.some.inj hkx] at hlogin'
        exact absurd hlogin'.symm (hapart hky hyroot hyp)
    · rcases hone hky hk' with rfl | ⟨hyroot, hyp⟩
      · rw [hc] at hky
        rw [← Option.some.inj hky] at hlogin'
        exact absurd hlogin' (hapart hkx hxroot hxp)
      · exact h.single x y k k' hkx hky hxroot hyroot hlogin'
  · intro x k hx
    rcases Option.map_eq_some_iff.1 hx with ⟨m', hm', rfl⟩
    exact h.plain x m' hm'

theorem prune (h : Ruled t) (hu : t u = some r) (hroot : r.parent = none) :
    Ruled (fun x => (t x).bind (prunedMember u x)) ∧
      rolesOf (fun x => (t x).bind (prunedMember u x)) = (RoleAct.remove r.login).after (rolesOf t) := by
  have hcases : ∀ {x k}, (t x).bind (prunedMember u x) = some k ↔ t x = some k ∧ k.login ≠ r.login := by
    intro x k
    constructor
    · intro hx
      rcases Option.bind_eq_some_iff.1 hx with ⟨m, hm, hkept⟩
      rw [prunedMember] at hkept
      split at hkept
      · cases hkept
      · next hno =>
        cases hkept
        exact ⟨hm, fun heq => hno ((h.of_login hu hroot hm).1 heq)⟩
    · rintro ⟨hx, hlogin⟩
      rw [hx, Option.bind_some, prunedMember, if_neg]
      exact fun hfam => hlogin ((h.of_login hu hroot hx).2 hfam)
  refine ⟨⟨?_, ?_, ?_⟩, ?_⟩
  · intro x k q hx hq
    rcases hcases.1 hx with ⟨hx', hlogin⟩
    rcases h.parents x k q hx' hq with ⟨r', hr', rfl⟩
    exact ⟨_, hcases.2 ⟨hr', hlogin⟩, rfl⟩
  · exact fun x y k k' hx hy => h.single x y k k' (hcases.1 hx).1 (hcases.1 hy).1
  · exact fun x k hx => h.plain x k (hcases.1 hx).1
  · ext q
    constructor
    · rintro ⟨x, k, hx, rfl⟩
      exact ⟨⟨x, k, (hcases.1 hx).1, rfl⟩, (hcases.1 hx).2⟩
    · rintro ⟨⟨x, k, hx, rfl⟩, hlogin⟩
      exact ⟨x, k, hcases.2 ⟨hx, hlogin⟩, rfl⟩

theorem crown {rights : Int} (h : Ruled t) (hu : t u = some r) (hroot : r.parent = none)
    (hrights : rights = RI_USER ∨ rights = RI_ADMIN) :
    Ruled (fun x => (t x).map (crownedMember u rights x)) ∧
      rolesOf (fun x => (t x).map (crownedMember u rights x)) =
        (RoleAct.entitle r.login (decide (rights = RI_ADMIN))).after (rolesOf t) := by
  have hfields : ∀ x m, (crownedMember u rights x m).parent = m.parent ∧
      (crownedMember u rights x m).login = m.login := by
    intro x m
    rw [crownedMember]
    split
    · exact ⟨rfl, rfl⟩
    · exact ⟨rfl, rfl⟩
  -- The rights change for the accounts of the login, and for no other.
  have hin : ∀ {x m}, t x = some m → m.login = r.login → crownedMember u rights x m = { m with rights := rights } :=
    fun hx hlogin => if_pos ((h.of_login hu hroot hx).1 hlogin)
  have hout : ∀ {x m}, t x = some m → m.login ≠ r.login → crownedMember u rights x m = m :=
    fun hx hlogin => if_neg fun hfam => hlogin ((h.of_login hu hroot hx).2 hfam)
  have hmap : ∀ {x m}, t x = some m →
      (t x).map (crownedMember u rights x) = some (crownedMember u rights x m) := by
    intro x m hx
    rw [hx, Option.map_some]
  refine ⟨⟨?_, ?_, ?_⟩, ?_⟩
  · intro x k q hx hq
    rcases Option.map_eq_some_iff.1 hx with ⟨m, hm, rfl⟩
    rw [(hfields x m).1] at hq
    rcases h.parents x m q hm hq with ⟨r', hr', rfl⟩
    refine ⟨_, by rw [hr']; rfl, ?_⟩
    by_cases hlogin : m.login = r.login
    · rw [hin hm hlogin, hin hr' hlogin]
    · rw [hout hm hlogin, hout hr' hlogin]
  · intro x y k k' hx hy hk hk' hlogin
    rcases Option.map_eq_some_iff.1 hx with ⟨m, hm, rfl⟩
    rcases Option.map_eq_some_iff.1 hy with ⟨m', hm', rfl⟩
    rw [(hfields x m).1] at hk
    rw [(hfields y m').1] at hk'
    rw [(hfields x m).2, (hfields y m').2] at hlogin
    exact h.single x y m m' hm hm' hk hk' hlogin
  · intro x k hx
    rcases Option.map_eq_some_iff.1 hx with ⟨m, hm, rfl⟩
    by_cases hlogin : m.login = r.login
    · rw [hin hm hlogin]
      exact hrights
    · rw [hout hm hlogin]
      exact h.plain x m hm
  · ext q
    constructor
    · rintro ⟨x, k, hx, rfl⟩
      rcases Option.map_eq_some_iff.1 hx with ⟨m, hm, rfl⟩
      by_cases hlogin : m.login = r.login
      · left
        rw [hin hm hlogin, ← hlogin]
      · right
        rw [hout hm hlogin]
        exact ⟨⟨x, m, hm, rfl⟩, hlogin⟩
    · rintro (rfl | ⟨⟨x, m, hx, rfl⟩, hlogin⟩)
      · exact ⟨u, crownedMember u rights u r, hmap hu, by rw [hin hu rfl]⟩
      · exact ⟨x, crownedMember u rights x m, hmap hx, by rw [hout hx hlogin]⟩

end Ruled

end PsyBnc
