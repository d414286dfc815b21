import PsyBnc.Accounts.Owner
import PsyBnc.Network.Token

/-!
# The names of the networks

The networks of a user are told apart by their names.  `ADDNETWORK` and `SWITCHNET` look for the name as it was
given and store nine bytes of it; the lookups take what was stored.
-/

namespace PsyBnc

open CLib Function

namespace Users

/-- The parent and the name of an account. -/
def nameEntry (u : Account) : Option (Int × CStr) :=
  if u.login = [] then none else some (u.parent, u.network)

def names (s : Users) : Int → Option (Int × CStr) := view nameEntry s

/-- A line with the token of a network in front of a nick or a channel. -/
structure TokenLine (front mark rest name : CStr) : Prop where
  start : front ≠ [] ∧ TILDE ∉ front ∧ COLON ∉ front
  sign : mark = [] ∨ mark = [HASH]
  short : (front ++ SP :: (mark ++ (name ++ TILDE :: rest))).length < 8192

/-- Every network has a name of its own, by which both lookups find it. -/
structure NamesClear (s : Users) : Prop where
  name : ∀ x, s.Live x → (s.account x).parent ≠ 0 →
    (s.account x).network ≠ [] ∧ strmncasecmp (s.account x).network (ascii "int") = false
  distinct : ∀ x y, s.Live x → s.Live y → (s.account x).parent ≠ 0 →
    (s.account y).parent = (s.account x).parent → (s.account y).network = (s.account x).network → y = x
  checkusernetwork : ∀ x, s.Live x → (s.account x).parent ≠ 0 →
    s.checkusernetwork (s.account x).parent (s.account x).network = x
  checknetwork : ∀ x, s.Live x → (s.account x).parent ≠ 0 →
    ∀ front mark rest, TokenLine front mark rest (s.account x).network →
      s.checknetwork (s.account x).parent
        (front ++ SP :: (mark ++ ((s.account x).network ++ TILDE :: rest))) =
          some ⟨x, front ++ SP :: rest, none⟩

/-! ## Tables of names -/

/-- A table of names: the networks of a user have tokens for names, and no two have the same. -/
structure ClearTable (t : Int → Option (Int × CStr)) : Prop where
  token : ∀ x p n, t x = some (p, n) → p ≠ 0 → n ≠ [] ∧ TokenName n
  distinct : ∀ x y p n, t x = some (p, n) → t y = some (p, n) → p ≠ 0 → y = x
  root : ∀ x n, t x = some (0, n) → n ≠ ascii "int"

/-- The network `uind` and its parent change places, and the parent gets the name `m`. -/
def switched (t : Int → Option (Int × CStr)) (usern uind : Int) (m : CStr) (x : Int) : Option (Int × CStr) :=
  if x = usern then some (uind, m)
  else if x = uind then some (0, [])
  else (t x).map fun e => (if e.1 = usern then uind else e.1, e.2)

section Table

variable {t : Int → Option (Int × CStr)} {usern uind uid x y p : Int} {m n : CStr}

theorem ClearTable.add (ht : ClearTable t) (husern : usern ≠ 0) (hm : m ≠ [] ∧ TokenName m)
    (hfree : ∀ y, t y ≠ some (usern, m)) : ClearTable (update t uid (some (usern, m))) where
  token := by
    intro x p n hx hp
    by_cases hxu : x = uid
    · rw [hxu, update_self] at hx
      cases hx
      exact hm
    · rw [update_of_ne hxu] at hx
      exact ht.token x p n hx hp
  distinct := by
    intro x y p n hx hy hp
    by_cases hxu : x = uid
    · by_cases hyu : y = uid
      · rw [hxu, hyu]
      · rw [hxu, update_self] at hx
        rw [update_of_ne hyu] at hy
        cases hx
        exact absurd hy (hfree y)
    · rw [update_of_ne hxu] at hx
      by_cases hyu : y = uid
      · rw [hyu, update_self] at hy
        cases hy
        exact absurd hx (hfree x)
      · rw [update_of_ne hyu] at hy
        exact ht.distinct x y p n hx hy hp
  root := by
    intro x n hx
    by_cases hxu : x = uid
    · rw [hxu, update_self] at hx
      cases hx
      exact absurd rfl husern
    · rw [update_of_ne hxu] at hx
      exact ht.root x n hx

/-- An entry of a network behind a switch: the old parent, or a network that has moved with the others, or one of
another user. -/
theorem switched_eq (hchild : ∀ y n, t y ≠ some (uind, n)) (hp : p ≠ 0)
    (h : switched t usern uind m x = some (p, n)) :
    (x = usern ∧ p = uind ∧ n = m) ∨
      (x ≠ usern ∧ x ≠ uind ∧ p = uind ∧ t x = some (usern, n)) ∨
      (x ≠ usern ∧ x ≠ uind ∧ p ≠ uind ∧ t x = some (p, n)) := by
  rw [switched] at h
  split at h
  · next hx =>
    cases h
    exact Or.inl ⟨hx, rfl, rfl⟩
  · next hx =>
    right
    split at h
    · cases h
      exact absurd rfl hp
    · next hxu =>
      rcases Option.map_eq_some_iff.1 h with ⟨⟨q, k⟩, htx, heq⟩
      rw [Prod.mk.injEq] at heq
      rcases heq with ⟨hq, rfl⟩
      dsimp only at hq
      split at hq
      · next hparent =>
        left
        rw [hparent] at htx
        exact ⟨hx, hxu, hq.symm, htx⟩
      · right
        rw [hq] at htx
        refine ⟨hx, hxu, ?_, htx⟩
        rintro rfl
        exact hchild x k htx

theorem ClearTable.switch (ht : ClearTable t) (husern : usern ≠ 0) (huind : uind ≠ 0)
    (hchild : ∀ y n, t y ≠ some (uind, n)) (hm : m ≠ [] ∧ TokenName m)
    (hfree : ∀ y, y ≠ uind → t y ≠ some (usern, m)) : ClearTable (switched t usern uind m) where
  token := by
    intro x p n hx hp
    rcases switched_eq hchild hp hx with ⟨_, _, rfl⟩ | ⟨_, _, _, htx⟩ | ⟨_, _, _, htx⟩
    · exact hm
    · exact ht.token x usern n htx husern
    · exact ht.token x p n htx hp
  distinct := by
    intro x y p n hx hy hp
    rcases switched_eq hchild hp hx with ⟨rfl, rfl, rfl⟩ | ⟨_, hxu, rfl, htx⟩ | ⟨_, _, hne, htx⟩
    · rcases switched_eq hchild hp hy with ⟨rfl, _, _⟩ | ⟨_, hyu, _, hty⟩ | ⟨_, _, hne, _⟩
      · rfl
      · exact absurd hty (hfree y hyu)
      · exact absurd rfl hne
    · rcases switched_eq hchild hp hy with ⟨_, _, rfl⟩ | ⟨_, _, _, hty⟩ | ⟨_, _, hne, _⟩
      · exact absurd htx (hfree x hxu)
      · exact ht.distinct x y usern n htx hty husern
      · exact absurd rfl hne
    · rcases switched_eq hchild hp hy with ⟨_, rfl, _⟩ | ⟨_, _, rfl, _⟩ | ⟨_, _, _, hty⟩
      · exact absurd rfl hne
      · exact absurd rfl hne
      · exact ht.distinct x y p n htx hty hp
  root := by
    intro x n hx
    rw [switched] at hx
    split at hx
    · cases hx
      exact absurd rfl huind
    · split at hx
      · cases hx
        decide
      · rcases Option.map_eq_some_iff.1 hx with ⟨⟨q, k⟩, htx, heq⟩
        rw [Prod.mk.injEq] at heq
        rcases heq with ⟨hq, rfl⟩
        dsimp only at hq
        split at hq
        · exact absurd hq huind
        · rw [hq] at htx
          exact ht.root x k htx

end Table

section Lookup

variable {salt : Salt} {rand : Nat → Nat} {s s' : Users} {usern uind x p : Int} {n : CStr}

theorem nameEntry_dead (u : Account) (h : u.login = []) : nameEntry u = none := by
  rw [nameEntry, if_pos h]

theorem names_eq_some :
    s.names x = some (p, n) ↔ s.Live x ∧ (s.account x).parent = p ∧ (s.account x).network = n := by
  rw [names, view]
  by_cases hlive : s.Live x
  · rw [if_pos hlive, nameEntry, if_neg hlive.2.2, Option.some.injEq, Prod.mk.injEq, and_iff_right hlive]
  · rw [if_neg hlive]
    exact iff_of_false (by simp) (fun h => hlive h.1)

/-- The networks that the scans of a user's networks see. -/
theorem find_network (hs : s.Sound) (hidle : s.Idle) (husern : usern ≠ 0) {P : CStr → Prop} [DecidablePred P]
    (hfind : (s.usernode.find? fun uid => (s.account uid).parent = usern ∧ P (s.account uid).network) = some x) :
    s.Live x ∧ (s.account x).parent = usern ∧ P (s.account x).network := by
  have hmem := List.mem_of_find?_eq_some hfind
  have hfound := List.find?_some hfind
  rw [decide_eq_true_eq] at hfound
  have hx : x ≠ 0 := by
    rintro rfl
    rw [account_zero, hidle.parent] at hfound
    exact husern hfound.1.symm
  have huser := isUser_of_mem hs hmem hx
  refine ⟨⟨hmem, hx, fun hnil => ?_⟩, hfound⟩
  rw [account_of_isUser huser] at hnil hfound
  exact husern (hfound.1.symm.trans ((hs.records x).dead hnil))

/-- A name that one network has is found. -/
theorem find_name (hs : s.Sound) (hidle : s.Idle) (ht : ClearTable s.names) (hp : p ≠ 0)
    (hx : s.names x = some (p, n)) :
    (s.usernode.find? fun uid => (s.account uid).parent = p ∧ strmcmp (s.account uid).network n = true) =
      some x := by
  rcases names_eq_some.1 hx with ⟨hlive, hparent, hname⟩
  cases hfind : s.usernode.find? fun uid =>
      (s.account uid).parent = p ∧ strmcmp (s.account uid).network n = true with
  | none =>
      have hno := List.find?_eq_none.1 hfind x hlive.1
      rw [decide_eq_true_eq] at hno
      exact absurd ⟨hparent, by rw [hname, strmcmp_iff]⟩ hno
  | some y =>
      have hfound := @find_network s p y hs hidle hp (fun k => strmcmp k n = true) _ hfind
      have hy : s.names y = some (p, n) := names_eq_some.2 ⟨hfound.1, hfound.2.1, strmcmp_iff.1 hfound.2.2⟩
      rw [ht.distinct x y p n hx hy hp]

/-- A user whose own record is not called `int` has no network of a name that is not found. -/
theorem no_name (hs : s.Sound) (hidle : s.Idle) (husern : usern ≠ 0) (hint : (s.account usern).network ≠ ascii "int")
    (hzero : s.checkusernetwork usern n = 0) : s.names x ≠ some (usern, n) := by
  intro hx
  rcases names_eq_some.1 hx with ⟨hlive, hparent, hname⟩
  have hstrm : ¬ strmcmp (s.account usern).network (ascii "int") = true := fun h => hint (strmcmp_iff.1 h)
  rw [Users.checkusernetwork, if_neg hstrm] at hzero
  cases hfind : s.usernode.find? fun uid =>
      (s.account uid).parent = usern ∧ strmcmp (s.account uid).network n = true with
  | none =>
      have hno := List.find?_eq_none.1 hfind x hlive.1
      rw [decide_eq_true_eq] at hno
      exact hno ⟨hparent, by rw [hname, strmcmp_iff]⟩
  | some y =>
      have hfound := @find_network s usern y hs hidle husern (fun k => strmcmp k n = true) _ hfind
      rw [hfind, Option.getD_some] at hzero
      exact hfound.1.2.1 hzero

theorem namesClear_of_table (hs : s.Sound) (hidle : s.Idle) (hf : Forest s.kin) (ht : ClearTable s.names) :
    s.NamesClear := by
  have hentry : ∀ x, s.Live x → s.names x = some ((s.account x).parent, (s.account x).network) :=
    fun x hlive => names_eq_some.2 ⟨hlive, rfl, rfl⟩
  refine ⟨?_, ?_, ?_, ?_⟩
  · intro x hlive hparent
    have htoken := ht.token x _ _ (hentry x hlive) hparent
    exact ⟨htoken.1, htoken.2.free⟩
  · intro x y hlive hlive' hparent hsame hname
    apply ht.distinct x y _ _ (hentry x hlive) _ hparent
    rw [hentry y hlive', hsame, hname]
  · intro x hlive hparent
    -- the parent is a login account, which is not called `int`
    rcases (parentsKept_iff_forest.2 hf) x hlive with hzero | ⟨hroot, hzero, _⟩
    · exact absurd hzero hparent
    · have hint : ¬ strmcmp (s.account (s.account x).parent).network (ascii "int") = true := by
        intro h
        apply ht.root (s.account x).parent _ _ (strmcmp_iff.1 h)
        rw [hentry _ hroot, hzero]
      rw [Users.checkusernetwork, if_neg hint, find_name hs hidle ht hparent (hentry x hlive), Option.getD_some]
  · intro x hlive hparent front mark rest hline
    have htoken := ht.token x _ _ (hentry x hlive) hparent
    exact checknetwork_token htoken.2 hline.start hline.sign hline.short
      (find_name hs hidle ht hparent (hentry x hlive))

end Lookup

section Commands

variable {salt : Salt} {rand : Nat → Nat} {s s' : Users} {usern uind x p : Int} {n l ircto irccontent : CStr}

/-- The name as it is stored is a token, and where it is cut no other network has it. -/
structure Storable (s : Users) (usern : Int) (target : Option Int) (name : CStr) : Prop where
  token : TokenName (clip 10 name)
  cut : name.length < 10 ∨ ∀ x, s.Live x → target ≠ some x → (s.account x).parent = usern →
    (s.account x).network ≠ clip 10 name

/-- `cmdaddnetwork` stores the name. -/
def AddsNetwork (s : Users) (usern : Int) (irccontent : CStr) : Prop :=
  (s.account usern).parent = 0 ∧ irccontent ≠ [] ∧ irccontent.length ≤ 10 ∧
    s.checkusernetwork usern irccontent = 0 ∧ s.freeUid 99 ≠ none

/-- No other network of the user has the name as it is stored. -/
theorem Storable.fresh {target : Option Int} (h : s.Storable usern target n) (hs : s.Sound) (hidle : s.Idle)
    (husern : usern ≠ 0) (hint : (s.account usern).network ≠ ascii "int")
    (hzero : s.checkusernetwork usern n = 0) (hx : target ≠ some x) : s.names x ≠ some (usern, clip 10 n) := by
  rcases h.cut with hshort | hfree
  · rw [clip_eq_self hshort]
    exact no_name hs hidle husern hint hzero
  · intro hname
    rcases names_eq_some.1 hname with ⟨hlive, hparent, heq⟩
    exact hfree x hlive hx hparent heq

theorem checkusernetwork_nonneg (hs : s.Sound) : 0 ≤ s.checkusernetwork usern n := by
  rw [Users.checkusernetwork]
  split
  · exact Int.le_refl 0
  · cases hfind : s.usernode.find? fun uid =>
        (s.account uid).parent = usern ∧ strmcmp (s.account uid).network n = true with
    | none => exact Int.le_refl 0
    | some y => exact (hs.uids y (List.mem_of_find?_eq_some hfind)).1

theorem clearTable_addnetwork (hs : s.Sound) (hidle : s.Idle) (hf : Forest s.kin) (ht : ClearTable s.names)
    (hlive : s.Live usern) (hcontent : LF ∉ irccontent)
    (hstore : s.AddsNetwork usern irccontent → s.Storable usern none irccontent) (salt : Salt)
    (rand : Nat → Nat) :
    ∃ s', s.cmdaddnetwork salt rand usern irccontent = some s' ∧ s'.Sound ∧ s'.Idle ∧ Forest s'.kin ∧
      ClearTable s'.names := by
  rcases cmdaddnetwork_spec hs hlive hcontent salt rand with
    hrefused | ⟨s', uid, u, hcmd, hadds, hfreeUid, hroot, hne, hlen, hcheck, hlogin, hparent, hnetwork, _⟩
  · exact ⟨s, hrefused, hs, hidle, hf, ht⟩
  · have hzero : s.checkusernetwork usern irccontent = 0 := by
      have hnonneg := @checkusernetwork_nonneg s usern irccontent hs
      omega
    have hadd : s.AddsNetwork usern irccontent := ⟨hroot, hne, hlen, hzero, by rw [hfreeUid]; simp⟩
    have hstorable := hstore hadd
    have hint : (s.account usern).network ≠ ascii "int" := by
      apply ht.root usern
      rw [names_eq_some]
      exact ⟨hlive, hroot, rfl⟩
    have hulogin : u.login ≠ [] := by
      rw [hlogin]
      exact hlive.2.2
    rcases kin_adds hs hadds hulogin with ⟨hnone, hkin⟩
    rcases view_adds nameEntry_dead hs hadds with ⟨_, pass, hpass, hview⟩
    have hnew : nameEntry (renewed u pass) = some (usern, clip 10 irccontent) := by
      rw [nameEntry, hpass, hparent]
      have hname : (renewed u pass).network = clip 10 irccontent := hnetwork
      rw [if_neg (show (renewed u pass).login ≠ [] from hulogin), hname]
    refine ⟨s', hcmd, hadds.sound, hadds.idle hidle, ?_, ?_⟩
    · rw [hkin, hlogin, hparent, if_neg hlive.2.1]
      exact hf.addChild hnone (kin_root.2 ⟨hlive, hroot, rfl⟩)
    · rw [names, hview, hnew]
      apply ht.add hlive.2.1
      · exact ⟨clip_ne_nil (by decide) hne, hstorable.token⟩
      · exact fun y => hstorable.fresh hs hidle hlive.2.1 hint hzero (by simp)

theorem nameEntry_moved (u : Account) (usern uind : Int) :
    nameEntry (if u.parent = usern then { u with parent := uind } else u) =
      (nameEntry u).map fun e => (if e.1 = usern then uind else e.1, e.2) := by
  by_cases hdead : u.login = []
  · have hdead' : (if u.parent = usern then { u with parent := uind } else u : Account).login = [] := by
      split
      · exact hdead
      · exact hdead
    rw [nameEntry_dead _ hdead', nameEntry_dead u hdead]
    rfl
  · have hentry : nameEntry u = some (u.parent, u.network) := if_neg hdead
    rw [hentry, Option.map_some]
    by_cases hparent : u.parent = usern
    · rw [if_pos hparent, if_pos hparent]
      exact if_neg hdead
    · rw [if_neg hparent, if_neg hparent]
      exact if_neg hdead

/-- The names after `cmdswitchnet`, before the records are written. -/
theorem names_switchRecords (hs : s.Sound) (hp : s.kin usern = some (none, l))
    (hc : s.kin uind = some (some usern, l)) (hto : LF ∉ ircto) :
    names ((s.swapNodes usern uind).switchRecords usern uind ircto) =
      switched s.names usern uind (clip 10 ircto) := by
  rcases kin_root.1 hp with ⟨hlive, _, _⟩
  rcases kin_child.1 hc with ⟨hlive', husern, _, _⟩
  have hu := hlive.isUser hs
  have hn := hlive'.isUser hs
  have hne : usern ≠ uind := by
    rintro rfl
    rw [hp] at hc
    cases hc
  have hu₁ := (isUser_swapNodes hu hn).2 hu
  have hn₁ := (isUser_swapNodes hu hn).2 hn
  have hs₁ := sound_swapNodes hs hu hn
  have huser : (s.swapNodes usern uind).user (.node usern) = s.user (.node usern) := by
    simp [swapNodes]
  have hnew : (s.swapNodes usern uind).user (.node uind) = s.user (.node uind) := by
    simp [swapNodes]
  have hlogin : (s.user (.node usern)).login ≠ [] := by
    rw [← account_of_isUser hu]
    exact hlive.2.2
  have hlogin' : (s.user (.node uind)).login ≠ [] := by
    rw [← account_of_isUser hn]
    exact hlive'.2.2
  have hmain : Account.Sound { s.user (.node uind) with network := [], parent := 0 } :=
    sound_moved (hs.records uind) (by decide) (by decide) fun _ => rfl
  have hsub : Account.Sound { s.user (.node usern) with network := clip 10 ircto, parent := uind } :=
    sound_moved (hs.records usern) (field_of_text (by decide) hto) hn.range
      fun hnil => absurd hnil hlogin
  rw [switchRecords_eq hu₁ hn₁ hne, huser, hnew, names,
    view_replaces nameEntry_dead (hs₁.put hmain) ((hs₁.put hmain).put hsub) (isUser_congr hu₁ rfl) ⟨rfl, rfl⟩,
    view_replaces nameEntry_dead hs₁ (hs₁.put hmain) hn₁ ⟨rfl, rfl⟩]
  funext x
  rw [switched]
  by_cases hxp : x = usern
  · rw [hxp, update_self, if_pos rfl, nameEntry, if_neg hlogin]
  · rw [update_of_ne hxp, if_neg hxp]
    by_cases hxc : x = uind
    · rw [hxc, update_self, if_pos rfl, nameEntry, if_neg hlogin']
    · rw [update_of_ne hxc, if_neg hxc]
      by_cases hx : s.IsUser x
      · rw [view_of_isUser nameEntry_dead ((isUser_swapNodes hu hn).2 hx), user_swapNodes hx hxp hxc, names,
          view_of_isUser nameEntry_dead hx, nameEntry_moved]
      · have hx' : ¬ (s.swapNodes usern uind).IsUser x := fun h => hx ((isUser_swapNodes hu hn).1 h)
        rw [view_of_not_isUser hs₁ hx', names, view_of_not_isUser hs hx]
        rfl

theorem clearTable_switchnet (hs : s.Sound) (hidle : s.Idle) (hf : Forest s.kin) (ht : ClearTable s.names)
    (hlive : s.Live usern) (hto : LF ∉ ircto)
    (hstore : ∀ uind, s.switchTarget usern ircto irccontent = some uind → s.Storable usern (some uind) ircto)
    (salt : Salt) :
    ∃ s', s.cmdswitchnet salt usern ircto irccontent = some s' ∧ s'.Sound ∧ s'.Idle ∧ Forest s'.kin ∧
      ClearTable s'.names := by
  have hspec := @cmdswitchnet_spec s usern hs hidle hf hlive ircto irccontent hto salt
  rcases hspec with
    ⟨_, hcmd⟩ | ⟨s', uind, l, htarget, hcmd, hs', hidle', hroot, hchild, hview⟩
  · exact ⟨s, hcmd, hs, hidle, hf, ht⟩
  · have hstorable := hstore uind htarget
    rcases kin_root.1 hroot with ⟨_, hparent, _⟩
    have huind : uind ≠ 0 := (kin_child.1 hchild).1.2.1
    have hint : (s.account usern).network ≠ ascii "int" := by
      apply ht.root usern
      rw [names_eq_some]
      exact ⟨hlive, hparent, rfl⟩
    have hok : ircto ≠ [] ∧ s.checkusernetwork usern ircto = 0 := by
      rw [switchTarget] at htarget
      split at htarget
      · cases htarget
      · next hno =>
        simp only [not_or, not_not] at hno
        exact ⟨hno.2.2.1, hno.2.2.2.2⟩
    have hkin : s'.kin = promote s.kin usern uind :=
      (hview familyEntry familyEntry_dead fun _ _ => rfl).trans (kin_switchRecords hs hroot hchild hto).2
    have hnames : s'.names = switched s.names usern uind (clip 10 ircto) :=
      (hview nameEntry nameEntry_dead fun _ _ => rfl).trans (names_switchRecords hs hroot hchild hto)
    refine ⟨s', hcmd, hs', hidle', ?_, ?_⟩
    · rw [hkin]
      exact hf.promote hroot hchild
    · rw [hnames]
      apply ht.switch hlive.2.1 huind
      · intro y n hy
        rcases names_eq_some.1 hy with ⟨hlive', hparent', _⟩
        exact hf.not_parent hchild (kin_child.2 ⟨hlive', huind, hparent', rfl⟩)
      · exact ⟨clip_ne_nil (by decide) hok.1, hstorable.token⟩
      · intro y hy
        exact hstorable.fresh hs hidle hlive.2.1 hint hok.2 (fun h => hy (Option.some.inj h).symm)

end Commands

/-! ## Requests -/

inductive NetworkCommand where
  | addnetwork
  | switchnet
  deriving DecidableEq, Repr

/-- A request of the client of `usern`, with its arguments and the results of `rand()`. -/
structure NetworkRequest where
  usern : Int
  command : NetworkCommand
  ircto : CStr
  irccontent : CStr
  rand : Nat → Nat
  line : LF ∉ ircto ∧ LF ∉ irccontent

def requestStep (salt : Salt) (s : Users) (i : NetworkRequest) : Option Users :=
  if s.Live i.usern then
    match i.command with
    | .addnetwork => s.cmdaddnetwork salt i.rand i.usern i.irccontent
    | .switchnet => s.cmdswitchnet salt i.usern i.ircto i.irccontent
  else some s

/-- What the request stores can be told from the other names. -/
def NamesStorable (s : Users) (i : NetworkRequest) : Prop :=
  (i.command = .addnetwork → s.AddsNetwork i.usern i.irccontent → s.Storable i.usern none i.irccontent) ∧
    (i.command = .switchnet → ∀ uind, s.switchTarget i.usern i.ircto i.irccontent = some uind →
      s.Storable i.usern (some uind) i.ircto)

/-- A token of at most nine bytes can be stored in every state. -/
theorem namesStorable_adds {i : NetworkRequest} (hcommand : i.command = .addnetwork)
    (hname : TokenName i.irccontent) (hlen : i.irccontent.length < 10) (s : Users) : s.NamesStorable i := by
  refine ⟨fun _ _ => ⟨?_, Or.inl hlen⟩, fun hswitch => ?_⟩
  · rw [clip_eq_self hlen]
    exact hname
  · rw [hcommand] at hswitch
    cases hswitch

theorem namesStorable_switches {i : NetworkRequest} (hcommand : i.command = .switchnet)
    (hname : TokenName i.ircto) (hlen : i.ircto.length < 10) (s : Users) : s.NamesStorable i := by
  refine ⟨fun hadd => ?_, fun _ _ _ => ⟨?_, Or.inl hlen⟩⟩
  · rw [hcommand] at hadd
    cases hadd
  · rw [clip_eq_self hlen]
    exact hname

/-- The records are sound and the names clear. -/
structure NamesInv (s : Users) : Prop where
  sound : s.Sound
  idle : s.Idle
  forest : Forest s.kin
  table : ClearTable s.names

/-- One request. -/
theorem requestStep_inv {salt : Salt} {s : Users} {i : NetworkRequest} (h : s.NamesInv)
    (hstore : s.NamesStorable i) : ∃ s', requestStep salt s i = some s' ∧ s'.NamesInv := by
  rcases h with ⟨hs, hidle, hf, ht⟩
  rw [requestStep]
  by_cases hlive : s.Live i.usern
  · rw [if_pos hlive]
    cases hcommand : i.command with
    | addnetwork =>
        rcases clearTable_addnetwork hs hidle hf ht hlive i.line.2 (hstore.1 hcommand) salt i.rand with
          ⟨s', hstep, hs', hidle', hf', ht'⟩
        exact ⟨s', hstep, hs', hidle', hf', ht'⟩
    | switchnet =>
        rcases clearTable_switchnet hs hidle hf ht hlive i.line.1 (hstore.2 hcommand) salt with
          ⟨s', hstep, hs', hidle', hf', ht'⟩
        exact ⟨s', hstep, hs', hidle', hf', ht'⟩
  · rw [if_neg hlive]
    exact ⟨s, rfl, hs, hidle, hf, ht⟩

end Users

/-- From login accounts alone, requests keep the names clear as long as every name they store is a token and is
either stored whole or, where it is cut, not in use. -/
theorem networks_clear (salt : Salt) (s : Users) (hs : s.Sound) (hidle : s.Idle)
    (hstart : ∀ x, s.Live x → (s.account x).parent = 0 ∧ (s.account x).network ≠ ascii "int")
    (is : List Users.NetworkRequest) (his : StepsMeet (Users.requestStep salt) Users.NamesStorable s is) :
    Safe (Users.requestStep salt) Users.NamesClear s is := by
  have hforest : Forest s.kin := Users.parentsKept_iff_forest.1 fun x hlive => Or.inl (hstart x hlive).1
  have htable : Users.ClearTable s.names := by
    have hroot : ∀ x p n, s.names x = some (p, n) → p = 0 ∧ n ≠ ascii "int" := by
      intro x p n hx
      rcases Users.names_eq_some.1 hx with ⟨hlive, rfl, rfl⟩
      exact hstart x hlive
    exact ⟨fun x p n hx hp => absurd (hroot x p n hx).1 hp, fun x y p n hx _ hp => absurd (hroot x p n hx).1 hp,
      fun x n hx => (hroot x 0 n hx).2⟩
  have hsafe : Safe (Users.requestStep salt) Users.NamesInv s is := by
    apply safe_of_stepsMeet _ _ his
    · exact fun t i ht hstore => Users.requestStep_inv ht hstore
    · exact ⟨hs, hidle, hforest, htable⟩
  exact hsafe.mono fun t ht => Users.namesClear_of_table ht.sound ht.idle ht.forest ht.table

def ownerAdds (irccontent : CStr) (h : LF ∉ irccontent) : Users.NetworkRequest where
  usern := 1
  command := .addnetwork
  ircto := []
  irccontent := irccontent
  rand := fun _ => 0
  line := ⟨List.not_mem_nil, h⟩

def ownerSwitches (ircto irccontent : CStr) (h : LF ∉ ircto ∧ LF ∉ irccontent) : Users.NetworkRequest where
  usern := 1
  command := .switchnet
  ircto := ircto
  irccontent := irccontent
  rand := fun _ => 0
  line := h

/-- Two networks, a switch that makes `net` (account 2) the main one and calls the old one `home`, and a new `net`. -/
def ownerBuilds : List Users.NetworkRequest :=
  [ownerAdds (ascii "net") (by decide), ownerAdds (ascii "irc") (by decide),
    ownerSwitches (ascii "home") (ascii "net") (by decide),
    { ownerAdds (ascii "net") (by decide) with usern := 2 }]

theorem tokenName_net : TokenName (ascii "net") := ⟨by decide, by decide, by decide, by decide, by decide⟩

theorem tokenName_irc : TokenName (ascii "irc") := ⟨by decide, by decide, by decide, by decide, by decide⟩

theorem tokenName_home : TokenName (ascii "home") := ⟨by decide, by decide, by decide, by decide, by decide⟩

theorem networks_clear_net : Safe (Users.requestStep buildSalt) Users.NamesClear ownerOnly ownerBuilds := by
  apply networks_clear buildSalt ownerOnly ownerOnly_sound ⟨rfl, rfl⟩
  · intro x hlive
    rw [ownerOnly_single x hlive]
    exact ⟨rfl, by decide⟩
  · refine ⟨Users.namesStorable_adds rfl tokenName_net (by decide) _, fun s _ => ?_⟩
    refine ⟨Users.namesStorable_adds rfl tokenName_irc (by decide) _, fun s _ => ?_⟩
    refine ⟨Users.namesStorable_switches rfl tokenName_home (by decide) _, fun s _ => ?_⟩
    exact ⟨Users.namesStorable_adds rfl tokenName_net (by decide) _, fun _ _ => trivial⟩

/-- The networks `home`, `irc` and `net` of account 2. -/
example :
    (runAll (Users.requestStep buildSalt) ownerOnly ownerBuilds).map (fun s =>
      s.usernode.map fun uid => ((s.account uid).parent, (s.account uid).network)) =
      some [(0, []), (0, []), (2, ascii "home"), (2, ascii "irc"), (2, ascii "net")] := by
  decide +kernel

/-- Two names of ten bytes that differ in the last one. -/
def ownerCollides : List Users.NetworkRequest :=
  [ownerAdds (ascii "abcdefghij") (by decide), ownerAdds (ascii "abcdefghik") (by decide)]

theorem ownerCollides_result :
    (runAll (Users.requestStep buildSalt) ownerOnly ownerCollides).map (fun s =>
      (decide (s.Live 2), decide (s.Live 3), (s.account 2).parent, (s.account 3).parent,
        decide ((s.account 2).network = (s.account 3).network))) = some (true, true, 1, 1, true) := by
  decide +kernel

/-- Both networks are called `abcdefghi`. -/
theorem networks_collide : ¬ ∀ (salt : Salt) (s : Users), s.Sound → s.Idle →
    (∀ x, s.Live x → (s.account x).parent = 0 ∧ (s.account x).network ≠ ascii "int") →
      ∀ is, Safe (Users.requestStep salt) Users.NamesClear s is := by
  intro hall
  have hsafe := hall buildSalt ownerOnly ownerOnly_sound ⟨rfl, rfl⟩ (fun x hlive => by
    rw [ownerOnly_single x hlive]
    exact ⟨rfl, by decide⟩) ownerCollides
  rcases Option.map_eq_some_iff.1 ownerCollides_result with ⟨s, hrun, hresult⟩
  simp only [Prod.mk.injEq, decide_eq_true_eq] at hresult
  rcases hresult with ⟨hlive, hlive', hparent, hparent', hname⟩
  have hdistinct := (hsafe.last hrun).distinct 2 3 hlive hlive' (by rw [hparent]; decide)
    (by rw [hparent, hparent']) hname.symm
  exact absurd hdistinct (by decide)

end PsyBnc
