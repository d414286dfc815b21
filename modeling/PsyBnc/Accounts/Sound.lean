import PsyBnc.Accounts.Commands
import PsyBnc.Inifunc.Clear

/-!
# What the commands keep

`Sound` says what holds of the records and the configuration all the time: the texts fit their
fields, the numbers of the nodes are those of users, every key has one line, and the configuration
starts with a line that is not about a user.  On a sound state a record that is written and loaded
again comes back, and a user who is deleted leaves nothing behind.
-/

namespace PsyBnc

open CLib Function

/-! ## The configuration -/

/-- A configuration whose first line is not about a user. -/
structure SoundConf (conf : Conf) : Prop where
  unique : UniqueKeys conf
  lines : Lines conf
  short : Short conf
  head : ∃ e, conf.head? = some e ∧ ¬ ascii "USER" <+: e

section Config

variable {usern : Nat} {u : UserRecord} {conf conf' : Conf} {e : CStr}

theorem user_prefix_sectionText : ascii "USER" <+: clip 200 (sectionText (userFile usern) (ascii "USER")) := by
  refine ⟨clip 196 (dec usern ++ DOT :: (ascii "USER" ++ [DOT])), ?_⟩
  have hname : ascii "USER" = [85, 83, 69, 82] := by decide
  simp [sectionText, userFile, clip, hname]

theorem user_prefix_userPattern : ascii "USER" <+: userPattern usern := by
  refine ⟨clip 56 (dec usern ++ [DOT]), ?_⟩
  have hname : ascii "USER" = [85, 83, 69, 82] := by decide
  simp [userPattern, userFile, clip, hname]

/-- A line of a user starts with the name of the users' sections. -/
theorem user_prefix_of_keyOf {p : CStr} (husern : usern < 2 ^ 31)
    (hp : Plain p ∧ LF ∉ p ∧ p.length < 40)
    (h : keyOf e = some ((userSection husern).keyText p)) : ascii "USER" <+: e := by
  have hkey := (prefix_iff_keyOf ((userSection husern).key hp).equals_notMem_text e).2 h
  have hname : ascii "USER" <+: ((userSection husern).key hp).text ++ [EQUALS] := by
    refine ⟨dec usern ++ DOT :: (ascii "USER" ++ DOT :: p) ++ [EQUALS], ?_⟩
    simp [IniSection.key, IniKey.text, userSection, userFile]
  exact hname.trans hkey

namespace SoundConf

theorem exists_writeFields (hconf : SoundConf conf) (husern : usern < 2 ^ 31) (hu : u.Declared) :
    ∃ conf', writeFields (ascii "USER") (userFile usern) (userFields u) conf = some conf' := by
  rcases hconf.head with ⟨e, he, hno⟩
  have hnames := userFields_names u
  have hdata : ∀ p ∈ userFields u, ∀ d, p.2 = some d → d.length < 1800 :=
    fun p hp d hd => Nat.lt_trans (userFields_data hu p hp d hd).2 (by decide)
  apply PsyBnc.exists_writeFields (S := userSection husern) hnames hdata hconf.unique
  refine ⟨e, List.mem_of_mem_head? he, ?_⟩
  intro p hp hkey
  exact hno (user_prefix_of_keyOf husern (hnames.1 p.1 (List.mem_map_of_mem hp)) hkey)

theorem writeFields (hconf : SoundConf conf) (husern : usern < 2 ^ 31) (hu : u.Declared)
    (hw : PsyBnc.writeFields (ascii "USER") (userFile usern) (userFields u) conf = some conf') :
    SoundConf conf' where
  unique := (saved_stored husern hu hconf.unique hw).unique
  lines := (writeFields_fileLines (S := userSection husern) (userFields_names u) (userFields_data hu)
    hconf.lines hconf.short hw).1
  short := (writeFields_fileLines (S := userSection husern) (userFields_names u) (userFields_data hu)
    hconf.lines hconf.short hw).2
  head := by
    rcases hconf.head with ⟨e, he, hno⟩
    refine ⟨e, writeFields_head he ?_ hw, hno⟩
    exact fun hpre => hno (user_prefix_sectionText.trans hpre)

/-- One entry of a user is written. -/
theorem writeini (hconf : SoundConf conf) (husern : usern < 2 ^ 31) {param data : CStr}
    (hparam : Plain param ∧ LF ∉ param ∧ param.length < 40) (hdata : LF ∉ data ∧ data.length < 255)
    (hw : PsyBnc.writeini (ascii "USER") param (userFile usern) (some data) conf = some conf') :
    SoundConf conf' := by
  have hdata' : ∀ d, some data = some d → LF ∉ d ∧ d.length < 255 := by
    intro d hd
    cases hd
    exact hdata
  have hstored := writeini_stored (S := userSection husern) (p := (param, some data)) hparam
    (fun d hd => Nat.lt_trans (hdata' d hd).2 (by decide)) hconf.unique hw
  rcases writeini_fileLines (S := userSection husern) (p := (param, some data)) hparam hdata'
    hconf.lines hconf.short hw with ⟨hlines, hshort⟩
  rcases hconf.head with ⟨e, he, hno⟩
  refine ⟨hstored.unique, hlines, hshort, e, writeini_head he ?_ hw, hno⟩
  exact fun hpre => hno (user_prefix_sectionText.trans hpre)

theorem headSafe (hconf : SoundConf conf) : HeadSafe (userPattern usern) conf := by
  rcases hconf.head with ⟨e, he, hno⟩
  have hmiss : ¬ userPattern usern <+: e := fun hpre => hno (user_prefix_userPattern.trans hpre)
  match conf with
  | [] => trivial
  | [x] =>
      cases he
      exact hmiss
  | x :: next :: rest =>
      cases he
      exact fun hpre => absurd hpre hmiss

/-- A user is deleted without a trace. -/
theorem deluser (hconf : SoundConf conf) (usern : Nat) :
    ∃ conf', PsyBnc.deluser usern conf = some conf' ∧ SoundConf conf' ∧
      ∀ sect param, getini sect param (userFile usern) conf' = none := by
  have hsafe : HeadSafe (userPattern usern) conf := hconf.headSafe
  have hsub : (erased (userPattern usern) conf).Sublist conf := List.filter_sublist
  refine ⟨erased (userPattern usern) conf, hsafe.eq_erased, ?_, ?_⟩
  · rcases hconf.head with ⟨e, he, hno⟩
    refine ⟨?_, fun x hx => hconf.lines x (hsub.subset hx), fun x hx => hconf.short x (hsub.subset hx),
      e, ?_, hno⟩
    · exact hconf.unique.sublist (hsub.filterMap keyOf)
    · have hmiss : ¬ userPattern usern <+: e := fun hpre => hno (user_prefix_userPattern.trans hpre)
      cases conf with
      | nil =>
          cases he
      | cons x rest =>
          cases he
          rw [erased_cons_of_not_match hmiss, List.head?_cons]
  · intro sect param
    exact getini_eq_none_of_erased (userPattern_prefix_key usern sect param)
      (fun entry hmem => (mem_erased.1 hmem).2)

end SoundConf

end Config

/-! ## The records -/

/-- What holds of every record of a node. -/
structure Account.Sound (u : Account) : Prop where
  declared : u.Declared
  named : u.login ≠ [] → u.nick ≠ []
  parent : 0 ≤ u.parent ∧ u.parent ≤ 100
  dead : u.login = [] → u.parent = 0

theorem blankAccount_declared : blankAccount.Declared where
  nick := by decide
  login := by decide
  user := by decide
  pass := by decide
  vhost := by decide
  proxy := by decide
  away := by decide
  leavemsg := by decide
  awaynick := by decide
  network := by decide

theorem blankAccount_sound : blankAccount.Sound where
  declared := blankAccount_declared
  named := fun h => absurd rfl h
  parent := by decide
  dead := fun _ => rfl

namespace Users

structure Sound (s : Users) : Prop where
  uids : ∀ uid ∈ s.usernode, 0 ≤ uid ∧ uid ≤ 100
  root : 0 ∈ s.usernode
  nodup : s.usernode.Nodup
  records : ∀ uid, (s.user (.node uid)).Sound
  conf : SoundConf s.conf

/-- The number of a node that has a record of its own. -/
structure IsUser (s : Users) (uid : Int) : Prop where
  mem : uid ∈ s.usernode
  pos : 0 < uid
  le : uid ≤ 100

variable {salt : Salt} {s : Users} {uid : Int} {rand : Nat → Nat}

theorem slot_of_isUser (h : s.IsUser uid) : s.slot uid = .node uid := by
  have hpos := h.pos
  have hle := h.le
  have hplain : UserMem.plainUid uid = uid := by
    rw [UserMem.plainUid, if_neg (by omega)]
  have hrange : ¬ (uid = 0 ∨ MAX_USER < uid) := by
    rw [MAX_USER]
    omega
  rw [slot, hplain, if_neg hrange, if_pos h.mem]

theorem account_of_isUser (h : s.IsUser uid) : s.account uid = s.user (.node uid) := by
  rw [account, slot_of_isUser h]

theorem toNat_lt (h : s.IsUser uid) : uid.toNat < 2 ^ 31 := by
  have hle := h.le
  omega

theorem Sound.put (hs : s.Sound) {u : Account} (hu : u.Sound) : (s.put (.node uid) u).Sound where
  uids := hs.uids
  root := hs.root
  nodup := hs.nodup
  records := by
    intro x
    by_cases hx : x = uid
    · simpa [Users.put, hx] using hu
    · simpa [Users.put, hx] using hs.records x
  conf := hs.conf

/-- One record is replaced, and the configuration may have changed. -/
structure Replaces (s s' : Users) (uid : Int) (u : Account) : Prop where
  usernode : s'.usernode = s.usernode
  user : s'.user = update s.user (.node uid) u

/-! ## Writing and loading -/

/-- The record of a user is written; its password is hashed in place. -/
theorem writeuser_spec (hs : s.Sound) (h : s.IsUser uid) (salt : Salt) :
    ∃ s' pass, s.writeuser salt uid = some s' ∧ s'.Sound ∧
      hashInPlace salt (s.user (.node uid)).pass = some pass ∧ pass.head? = some EQUALS ∧
      UserRecord.Declared { (s.user (.node uid)).toUserRecord with pass := pass } ∧
      s.Replaces s' uid { s.user (.node uid) with pass := pass } ∧
      Stored (userSection (toNat_lt h))
        (userFields { (s.user (.node uid)).toUserRecord with pass := pass }) s.conf s'.conf := by
  have hrecord := hs.records uid
  rcases writeuser_eq (toNat_lt h) hrecord.declared salt with ⟨pass, hhash, hhead, hdecl, hwrite⟩
  rcases hs.conf.exists_writeFields (toNat_lt h) hdecl with ⟨conf', hw⟩
  refine ⟨{ s.put (.node uid) { s.user (.node uid) with pass := pass } with conf := conf' }, pass,
    ?_, ?_, hhash, hhead, hdecl, ⟨rfl, rfl⟩, saved_stored (toNat_lt h) hdecl hs.conf.unique hw⟩
  · rw [writeuser, account_of_isUser h, hwrite, hw]
    simp only [Option.map_some, fill, slot_of_isUser h, account_of_isUser h]
  · have hnew : Account.Sound { s.user (.node uid) with pass := pass } :=
      { hrecord with declared := hdecl }
    have hput : (s.put (.node uid) _).Sound := hs.put hnew
    exact { hput with conf := hs.conf.writeFields (toNat_lt h) hdecl hw }

theorem create_of_mem (h : uid ∈ s.usernode) : s.create uid = s := by
  rw [create, if_pos (Or.inr (Or.inr h))]

/-- What was written for a user is loaded into the record, whatever the record was. -/
theorem loaduser_spec (h : s.IsUser uid) {u : UserRecord} (hu : u.Declared) (hlogin : u.login ≠ [])
    (hnick : u.nick ≠ []) (hpass : u.pass.head? = some EQUALS) {conf : Conf}
    (hstored : Stored (userSection (toNat_lt h)) (userFields u) conf s.conf) (salt : Salt)
    (randstring : CStr) :
    s.loaduser salt randstring uid.toNat =
      some (s.put (.node uid) { s.user (.node uid) with toUserRecord := u.through }) := by
  have hcast : ((uid.toNat : Nat) : Int) = uid := by
    have hpos := h.pos
    omega
  rw [loaduser, loaduser_stored (toNat_lt h) hu hpass hnick hlogin hstored salt randstring,
    Option.map_some, hcast]
  simp only [create_of_mem h.mem, fill, slot_of_isUser h, account_of_isUser h]
  rfl

/-- A user who is not in the configuration is freed. -/
theorem loaduser_unknown (h : s.IsUser uid)
    (hnone : ∀ sect param, getini sect param (userFile uid.toNat) s.conf = none) (salt : Salt)
    (randstring : CStr) :
    s.loaduser salt randstring uid.toNat = some (s.put (.node uid) blankAccount) := by
  have hcast : ((uid.toNat : Nat) : Int) = uid := by
    have hpos := h.pos
    omega
  have hfile : clip 100 (userFile uid.toNat) = userFile uid.toNat := by
    have hlen := length_userFile (toNat_lt h)
    exact clip_eq_self (by omega)
  simp only [loaduser, PsyBnc.loaduser, hfile, hnone, Option.map_some, hcast]

/-- The record that comes back when a new one was written, freed and loaded. -/
def renewed (u : Account) (pass : CStr) : Account :=
  { blankAccount with toUserRecord := UserRecord.through { u.toUserRecord with pass := pass } }

theorem isUser_congr {s' : Users} (h : s.IsUser uid) (hnode : s'.usernode = s.usernode) :
    s'.IsUser uid where
  mem := hnode ▸ h.mem
  pos := h.pos
  le := h.le

theorem account_put (h : s.IsUser uid) (u : Account) : (s.put (.node uid) u).account uid = u := by
  have h' : (s.put (.node uid) u).IsUser uid := isUser_congr h rfl
  rw [account_of_isUser h']
  exact update_self _ _ _

theorem atoi_iset_parent {x : Int} (h : 0 ≤ x ∧ x ≤ 100) : atoi (iset x) = x := by
  rw [atoi_iset_iff, decInt, if_neg (not_lt.2 h.1)]
  have hlen : (dec x.natAbs).length ≤ 3 := (length_dec_le (by omega)).2 (by omega)
  omega

theorem through_declared {u : UserRecord} (hu : u.Declared) : u.through.Declared :=
  { hu with
    vhost := ⟨by
      show (clip 200 u.vhost).length < 255
      rw [length_clip]
      omega, fun hmem => hu.vhost.2 (mem_of_mem_clip hmem)⟩
    proxy := ⟨by
      show (clip 200 u.proxy).length < 255
      rw [length_clip]
      omega, fun hmem => hu.proxy.2 (mem_of_mem_clip hmem)⟩ }

/-- `writeuser`, `clearuser`, `loaduser`: only the texts and the parent matter in what follows. -/
theorem renew_spec (hs : s.Sound) (h : s.IsUser uid) (hlogin : (s.user (.node uid)).login ≠ [])
    (salt : Salt) (rand : Nat → Nat) :
    ∃ s' pass, s.renew salt rand uid = some s' ∧ s'.Sound ∧
      hashInPlace salt (s.user (.node uid)).pass = some pass ∧
      s.Replaces s' uid (renewed (s.user (.node uid)) pass) ∧
      (renewed (s.user (.node uid)) pass).parent = (s.user (.node uid)).parent := by
  have hrecord := hs.records uid
  rcases writeuser_spec hs h salt with
    ⟨s₁, pass, hwrite, hs₁, hhash, hhead, hdecl, hreplace, hstored⟩
  have h₂ : (s₁.clearuser uid).IsUser uid := isUser_congr h hreplace.usernode
  have hload := loaduser_spec h₂ hdecl hlogin (hrecord.named hlogin) hhead hstored salt
    (randstring 16 rand)
  have hblank : (s₁.clearuser uid).user (.node uid) = blankAccount := update_self _ _ _
  rw [hblank] at hload
  have hparent : (renewed (s.user (.node uid)) pass).parent = (s.user (.node uid)).parent :=
    atoi_iset_parent hrecord.parent
  have hnew : (renewed (s.user (.node uid)) pass).Sound :=
    { declared := through_declared hdecl
      named := fun _ => hrecord.named hlogin
      parent := by
        rw [hparent]
        exact hrecord.parent
      dead := fun hdead => absurd hdead hlogin }
  refine ⟨(s₁.clearuser uid).put (.node uid) (renewed (s.user (.node uid)) pass), pass, ?_,
    (hs₁.put blankAccount_sound).put hnew, hhash, ⟨hreplace.usernode, ?_⟩, hparent⟩
  · rw [renew, hwrite, Option.bind_some]
    exact hload
  · simp only [clearuser, put, hreplace.user, update_idem]

/-- `deluser` and `loaduser`. -/
theorem remove_spec (hs : s.Sound) (h : s.IsUser uid) (salt : Salt) (rand : Nat → Nat) :
    ∃ s', s.remove salt rand uid = some s' ∧ s'.Sound ∧ s.Replaces s' uid blankAccount := by
  rcases hs.conf.deluser uid.toNat with ⟨conf', hdel, hconf, hnone⟩
  have h' : ({ s with conf := conf' } : Users).IsUser uid := isUser_congr h rfl
  have hsound : ({ s with conf := conf' } : Users).Sound := { hs with conf := hconf }
  refine ⟨({ s with conf := conf' } : Users).put (.node uid) blankAccount, ?_,
    hsound.put blankAccount_sound, rfl, rfl⟩
  rw [remove, hdel, Option.bind_some]
  exact loaduser_unknown h' hnone salt (randstring 16 rand)

/-! ## New nodes -/

theorem mem_create (s : Users) (uid : Int) {x : Int} (hx : x ∈ s.usernode) :
    x ∈ (s.create uid).usernode := by
  rw [create]
  split
  · exact hx
  · exact List.mem_append_left _ hx

theorem user_create_of_ne {x : Int} (hx : x ≠ uid) :
    (s.create uid).user (.node x) = s.user (.node x) := by
  rw [create]
  split
  · rfl
  · simp [put, hx]

theorem isUser_create (hpos : 0 < uid) (hle : uid ≤ 100) : (s.create uid).IsUser uid where
  mem := by
    rw [create]
    split
    · rename_i h
      rcases h with h | h | h
      · omega
      · rw [MAX_USER] at h
        omega
      · exact h
    · exact List.mem_append_right _ (List.mem_singleton_self uid)
  pos := hpos
  le := hle

theorem Sound.create (hs : s.Sound) (hpos : 0 < uid) (hle : uid ≤ 100) : (s.create uid).Sound := by
  rw [Users.create]
  split
  · exact hs
  · rename_i h
    simp only [not_or] at h
    refine ⟨?_, List.mem_append_left _ hs.root, ?_, (hs.put blankAccount_sound).records, hs.conf⟩
    · intro x hx
      rcases List.mem_append.1 hx with hx | hx
      · exact hs.uids x hx
      · rw [List.mem_singleton.1 hx]
        omega
    · exact List.nodup_append.2 ⟨hs.nodup, List.nodup_singleton uid, by
        intro x hx y hy heq
        rw [List.mem_singleton.1 hy] at heq
        exact h.2.2 (heq ▸ hx)⟩

/-- The record of a node without a login. -/
theorem login_create (hfree : s.loginOf uid = []) (hpos : 0 < uid) (hle : uid ≤ 100) :
    ((s.create uid).user (.node uid)).login = [] := by
  by_cases hmem : uid ∈ s.usernode
  · rw [create_of_mem hmem]
    rwa [loginOf, if_pos hmem] at hfree
  · have hnew : ¬ (uid = 0 ∨ MAX_USER < uid ∨ uid ∈ s.usernode) := by
      rw [MAX_USER, not_or, not_or]
      exact ⟨by omega, by omega, hmem⟩
    rw [create, if_neg hnew]
    simp [put, blankAccount]

theorem freeUid_spec {count : Nat} (h : s.freeUid count = some uid) :
    0 < uid ∧ uid ≤ count ∧ s.loginOf uid = [] := by
  rw [freeUid] at h
  rcases List.mem_map.1 (List.mem_of_find?_eq_some h) with ⟨n, hn, hnum⟩
  have hlt := List.mem_range.1 hn
  have hlogin : s.loginOf uid = [] := by
    have hfound := List.find?_some h
    simpa using hfound
  exact ⟨by omega, by omega, hlogin⟩

theorem lf_notMem_randstring (length : Nat) (rand : Nat → Nat) : LF ∉ randstring length rand := by
  intro hmem
  rcases List.mem_map.1 hmem with ⟨i, _, hi⟩
  have hnat := congrArg UInt8.toNat hi
  have hlf : LF.toNat = 10 := rfl
  rw [UInt8.toNat_ofNat', hlf] at hnat
  omega

/-- A text that is copied into a field. -/
theorem field_of_text {t : CStr} {n : Nat} (hn : 0 < n) (h : LF ∉ t) :
    (clip n t).length < n ∧ LF ∉ clip n t := by
  refine ⟨?_, fun hmem => h (mem_of_mem_clip hmem)⟩
  rw [length_clip]
  omega

/-- A command that adds an account: the record `u`, with its password hashed, is the only change. -/
structure Adds (salt : Salt) (s s' : Users) (uid : Int) (u : Account) : Prop where
  sound : s'.Sound
  free : s.loginOf uid = []
  pos : 0 < uid
  le : uid ≤ 100
  usernode : s'.usernode = (s.create uid).usernode
  user : ∃ pass, hashInPlace salt u.pass = some pass ∧
    s'.user = update (s.create uid).user (.node uid) (renewed u pass) ∧
    (renewed u pass).parent = u.parent

/-- Filling in a free record, `writeuser`, `clearuser` and `loaduser`. -/
theorem adds_of_renew (hs : s.Sound) {count : Nat} (hfree : s.freeUid count = some uid)
    (hcount : count ≤ 100) {u : Account} (hu : u.Sound) (hlogin : u.login ≠ []) (salt : Salt)
    (rand : Nat → Nat) :
    ∃ s', ((s.create uid).put (.node uid) u).renew salt rand uid = some s' ∧
      Adds salt s s' uid u := by
  rcases freeUid_spec hfree with ⟨hpos, hle, hnone⟩
  have hle' : uid ≤ 100 := by omega
  have hput : ((s.create uid).put (.node uid) u).user (.node uid) = u := update_self _ _ _
  have huser : ((s.create uid).put (.node uid) u).IsUser uid :=
    isUser_congr (isUser_create hpos hle') rfl
  have hspec := renew_spec ((hs.create hpos hle').put hu) huser (by rwa [hput]) salt rand
  rw [hput] at hspec
  rcases hspec with ⟨s', pass, hrenew, hsound, hhash, hreplace, hparent⟩
  refine ⟨s', hrenew, hsound, hnone, hpos, hle', hreplace.usernode, pass, hhash, ?_, hparent⟩
  rw [hreplace.user]
  simp only [Users.put, update_idem]

theorem clip_ne_nil {n : Nat} {t : CStr} (hn : 1 < n) (ht : t ≠ []) : clip n t ≠ [] := by
  intro hnil
  have hlen := congrArg List.length hnil
  have hpos := List.length_pos_of_ne_nil ht
  rw [length_clip, List.length_nil] at hlen
  omega

theorem length_newPass (s : Users) (usern : Int) (rand : Nat → Nat) :
    (s.newPass usern rand).length < 20 := by
  rw [newPass]
  split
  · rw [length_clip]
    omega
  · rw [length_clip]
    omega

/-- `ADDUSER` is refused, or it adds an account of its own. -/
theorem cmdadduser_spec (hs : s.Sound) {usern : Int} {ircto irccontent : CStr} (hto : LF ∉ ircto)
    (hcontent : LF ∉ irccontent) (hpass : LF ∉ s.newPass usern rand) (salt : Salt) :
    s.cmdadduser salt rand usern ircto irccontent = some (-1, s) ∨
      ∃ uid s' u, s.cmdadduser salt rand usern ircto irccontent = some (uid, s') ∧
        Adds salt s s' uid u ∧ u.login = clip 64 ircto ∧ u.login ≠ [] ∧ u.parent = 0 ∧
        u.pass = s.newPass usern rand ∧ u.rights = 0 ∧ ¬ s.checkuser ircto > 0 := by
  rw [cmdadduser]
  split
  · exact Or.inl rfl
  · rename_i hok
    rw [not_or, not_or] at hok
    cases hfree : s.freeUid 100 with
    | none =>
        exact Or.inl rfl
    | some uid =>
        rcases freeUid_spec hfree with ⟨hpos, hle, hnone⟩
        have huser : (s.create uid).IsUser uid := isUser_create hpos (by omega)
        have hold := (hs.create hpos (by omega)).records uid
        have hdead := hold.dead (login_create hnone hpos (by omega))
        have hlogin : clip 64 ircto ≠ [] := clip_ne_nil (by decide) hok.1
        have hnew : Account.Sound (newUser ((s.create uid).user (.node uid)) ircto irccontent
            (s.newPass usern rand)) :=
          { declared :=
              { hold.declared with
                nick := field_of_text (by decide) hto
                login := field_of_text (by decide) hto
                user := field_of_text (by decide) hcontent
                pass := ⟨length_newPass s usern rand, hpass⟩ }
            named := fun _ => hlogin
            parent := hold.parent
            dead := fun hnil => absurd hnil hlogin }
        rcases adds_of_renew hs hfree (by decide) hnew hlogin salt rand with ⟨s', hrenew, hadds⟩
        refine Or.inr ⟨uid, s', _, ?_, hadds, rfl, hlogin, hdead, rfl, rfl, hok.2.2⟩
        simp only [account_of_isUser huser, hrenew, Option.map_some]

end Users

end PsyBnc
