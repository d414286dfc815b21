import PsyBnc.Inifunc.Fields
import PsyBnc.Blowfish.Text
import PsyBnc.Crypt

/-!
# Users in the configuration (`p_userfile.c`)

`writeuser` puts the record of a user into the section `USER%d.USER`, `loaduser` reads it from there.
Numbers are printed into eight bytes, texts come back through `value[200]`, and a password is
hashed, by enciphering the salts with it, on whichever side it is met unhashed.
-/

namespace PsyBnc

open CLib

/-- The part of `struct usert` that the configuration keeps. -/
structure UserRecord where
  nick : CStr
  login : CStr
  user : CStr
  pass : CStr
  vhost : CStr
  proxy : CStr
  away : CStr
  leavemsg : CStr
  awaynick : CStr
  network : CStr
  rights : Int
  vlink : Int
  pport : Int
  parent : Int
  quitted : Int
  dccenabled : Int
  autogetdcc : Int
  antiidle : Int
  leavequit : Int
  autorejoin : Int
  sysmsg : Int
  lastlog : Int
  deriving DecidableEq, Repr

/-! ## Passwords -/

/-- `"=%s"` of the salts enciphered with the password. -/
def hashOf (salt : Salt) (pass : CStr) : Option CStr :=
  (BLOW_stringencrypt (salt.slt1 ++ salt.slt2) pass).map fun pt => EQUALS :: pt

/-- `writeuser`: a password that is not hashed yet is hashed in the record, in `pass[20]`. -/
def hashInPlace (salt : Salt) (pass : CStr) : Option CStr :=
  if pass.head? = some EQUALS then some pass else (hashOf salt pass).map (clip 20)

/-! ## Writing -/

/-- What `writeuser` writes, field by field. -/
def userFields (u : UserRecord) : List (CStr × Option CStr) :=
  [(ascii "NICK", some u.nick),
    (ascii "LOGIN", some u.login),
    (ascii "USER", some u.user),
    (ascii "PASS", some u.pass),
    (ascii "VHOST", some u.vhost),
    (ascii "PROXY", some u.proxy),
    (ascii "AWAY", some u.away),
    (ascii "LEAVEMSG", some u.leavemsg),
    (ascii "AWAYNICK", some u.awaynick),
    (ascii "NETWORK", some u.network),
    (ascii "RIGHTS", some (iset u.rights)),
    (ascii "VLINK", some (iset u.vlink)),
    (ascii "PPORT", some (iset u.pport)),
    (ascii "PARENT", some (iset u.parent)),
    (ascii "QUITTED", some (iset u.quitted)),
    (ascii "DCCENABLED", some (iset u.dccenabled)),
    (ascii "AUTOGETDCC", some (iset u.autogetdcc)),
    (ascii "AIDLE", some (iset u.antiidle)),
    (ascii "LEAVEQUIT", some (iset u.leavequit)),
    (ascii "AUTOREJOIN", some (iset u.autorejoin)),
    (ascii "SYSMSG", some (iset u.sysmsg)),
    (ascii "LASTLOG", some (iset u.lastlog)),
    (ascii "LASTWHOIS", none)]

/-- `writeuser`: the record with its password hashed, and the cache. -/
def writeuser (salt : Salt) (usern : Nat) (u : UserRecord) (conf : Conf) :
    Option (UserRecord × Conf) :=
  (hashInPlace salt u.pass).bind fun pass =>
    let u := { u with pass := pass }
    (writeFields (ascii "USER") (clip 20 (userFile usern)) (userFields u) conf).map fun conf =>
      (u, conf)

/-! ## Loading -/

/-- `lngtxt(909)`: the nick of a user without one. -/
def defaultNick (usernum : Nat) : CStr := clip 200 (ascii "psy" ++ dec usernum)

/-- The password that `loaduser` copies into the record, and the cache, in which a password that was
not hashed is replaced by its hash. -/
def loadPass (salt : Salt) (randstring : CStr) (fnmuser : CStr) (conf : Conf) :
    Option (CStr × Conf) :=
  let value := (getini (ascii "USER") (ascii "PASS") fnmuser conf).getD (clip 200 randstring)
  if value.head? = some EQUALS then some (value, conf)
  else
    (if value.head? = some PLUS then (decryptit salt value).map (clip 200) else some value).bind
      fun value => (hashOf salt value).bind fun hash =>
        (writeini (ascii "USER") (ascii "PASS") fnmuser (some (clip 200 hash)) conf).map fun conf =>
          (clip 200 hash, conf)

/-- The record that `loaduser` fills in, from the password and what `getini` finds under the other
names. -/
def readUser (usernum : Nat) (value : CStr → Option CStr) (pass : CStr) : UserRecord where
  nick := clip 64 ((value (ascii "NICK")).getD (defaultNick usernum))
  login := clip 64 ((value (ascii "LOGIN")).getD [])
  user := clip 64 ((value (ascii "USER")).getD [])
  pass := clip 20 pass
  vhost := clip 255 ((value (ascii "VHOST")).getD [])
  proxy := clip 255 ((value (ascii "PROXY")).getD [])
  away := clip 64 ((value (ascii "AWAY")).getD [])
  leavemsg := clip 64 ((value (ascii "LEAVEMSG")).getD [])
  awaynick := clip 16 ((value (ascii "AWAYNICK")).getD [])
  network := clip 10 ((value (ascii "NETWORK")).getD [])
  rights := (value (ascii "RIGHTS")).elim 0 atoi
  vlink := (value (ascii "VLINK")).elim 0 atoi
  pport := (value (ascii "PPORT")).elim 0 atoi
  parent := (value (ascii "PARENT")).elim 0 atoi
  quitted := (value (ascii "QUITTED")).elim 0 atoi
  dccenabled := (value (ascii "DCCENABLED")).elim 1 atoi
  autogetdcc := (value (ascii "AUTOGETDCC")).elim 0 atoi
  antiidle := (value (ascii "AIDLE")).elim 1 atoi
  leavequit := (value (ascii "LEAVEQUIT")).elim 0 atoi
  autorejoin := (value (ascii "AUTOREJOIN")).elim 0 atoi
  sysmsg := (value (ascii "SYSMSG")).elim 1 atoi
  lastlog := (value (ascii "LASTLOG")).elim 0 atoi

/-- `loaduser`; the entry `PASS` is the only one that changes on the way.  The inner `none` is its
return value `-1` for a user without a login, the outer one a
read or write out of bounds.  `randstring` stands for `randstring(16)`. -/
def loaduser (salt : Salt) (randstring : CStr) (usernum : Nat) (conf : Conf) :
    Option (Option (UserRecord × Conf)) :=
  let fnmuser := clip 100 (userFile usernum)
  let value := fun param => getini (ascii "USER") param fnmuser conf
  match value (ascii "LOGIN") with
  | none => some none
  | some _ =>
      (loadPass salt randstring fnmuser conf).map fun (pass, conf') =>
        some (readUser usernum value pass, conf')

/-! ## Hashes -/

section Hashes

variable {salt : Salt} {pass hash : CStr}

/-- A password of a record can be hashed. -/
theorem exists_hashOf (salt : Salt) (pass : CStr) (h : pass.length < 1000) :
    ∃ hash, hashOf salt pass = some hash := by
  have hsome := (InitializeBlowfish_isSome_iff pass).2 (keyFits_of_short h)
  rcases Option.isSome_iff_exists.1 hsome with ⟨t, ht⟩
  refine ⟨EQUALS :: BLOWencrypt t (salt.slt1 ++ salt.slt2), ?_⟩
  rw [hashOf, BLOW_stringencrypt, InitializeBlowfish_spacedKey, ht]
  rfl

theorem hashOf_eq_cons (h : hashOf salt pass = some hash) : ∃ t, hash = EQUALS :: t := by
  rcases Option.map_eq_some_iff.1 h with ⟨t, _, rfl⟩
  exact ⟨t, rfl⟩

theorem getD_base_ne_lf (n : Nat) : base.getD n 0 ≠ LF := by
  have hbase : LF ∉ base := by decide
  by_cases hn : n < base.length
  · rw [List.getD_eq_getElem _ _ hn]
    exact fun heq => hbase (heq ▸ List.getElem_mem hn)
  · rw [List.getD_eq_default _ _ (Nat.le_of_not_lt hn)]
    decide

theorem lf_notMem_hashstring (bs : List Byte) : LF ∉ hashstring bs := by
  intro hmem
  rcases List.mem_flatMap.1 hmem with ⟨chr, _, hchr⟩
  rcases List.mem_cons.1 hchr with h | h
  · exact getD_base_ne_lf _ h.symm
  · exact getD_base_ne_lf _ (List.mem_singleton.1 h).symm

theorem lf_notMem_encryptLoop (t : Tables) (p : List Byte) : LF ∉ encryptLoop t p := by
  induction p using encryptLoop.induct t with
  | case1 e1 e2 e3 e4 e5 e6 e7 p =>
      simp [encryptLoop]
  | case2 e0 e1 e2 e3 e4 e5 e6 e7 p he ih =>
      simp only [encryptLoop, if_neg he, List.mem_append, not_or]
      exact ⟨⟨lf_notMem_hashstring _, lf_notMem_hashstring _⟩, ih⟩
  | case3 p hp =>
      rw [encryptLoop]
      · simp
      · exact hp

theorem lf_notMem_hashOf (h : hashOf salt pass = some hash) : LF ∉ hash := by
  rcases Option.map_eq_some_iff.1 h with ⟨c, hc, rfl⟩
  rcases Option.map_eq_some_iff.1 hc with ⟨t, _, rfl⟩
  have heq : LF ≠ EQUALS := by decide
  rw [List.mem_cons, not_or]
  exact ⟨heq, lf_notMem_encryptLoop t _⟩

theorem hashInPlace_spec (salt : Salt) (hpass : pass.length < 20) (hlf : LF ∉ pass) :
    ∃ p, hashInPlace salt pass = some p ∧ p.head? = some EQUALS ∧ p.length < 20 ∧ LF ∉ p := by
  by_cases heq : pass.head? = some EQUALS
  · exact ⟨pass, if_pos heq, heq, hpass, hlf⟩
  · rcases exists_hashOf salt pass (by omega) with ⟨hash, hhash⟩
    rcases hashOf_eq_cons hhash with ⟨t, ht⟩
    refine ⟨clip 20 hash, ?_, ?_, ?_, ?_⟩
    · rw [hashInPlace, if_neg heq, hhash, Option.map_some]
    · rw [ht]
      rfl
    · rw [length_clip]
      omega
    · exact fun hmem => lf_notMem_hashOf hhash (mem_of_mem_clip hmem)

end Hashes

/-! ## The section -/

section Section

variable {usern : Nat}

/-- `USER%d.USER` -/
def userSection (husern : usern < 2 ^ 31) : IniSection where
  inidat := userFile usern
  sect := ascii "USER"
  plain := by
    refine ⟨⟨?_, ?_⟩, by decide⟩
    · exact byte_notMem_userFile (by decide) (by decide)
    · exact byte_notMem_userFile (by decide) (by decide)
  line := ⟨byte_notMem_userFile (by decide) (by decide), by decide⟩
  fits := by
    have hlen := length_userFile husern
    have hsect : (ascii "USER").length = 4 := by decide
    omega

theorem userFields_names (u : UserRecord) : FieldNames ((userFields u).map Prod.fst) := by
  have hnames : (userFields u).map Prod.fst =
      ["NICK", "LOGIN", "USER", "PASS", "VHOST", "PROXY", "AWAY", "LEAVEMSG", "AWAYNICK", "NETWORK",
        "RIGHTS", "VLINK", "PPORT", "PARENT", "QUITTED", "DCCENABLED", "AUTOGETDCC", "AIDLE",
        "LEAVEQUIT", "AUTOREJOIN", "SYSMSG", "LASTLOG", "LASTWHOIS"].map ascii := rfl
  rw [hnames]
  decide +kernel

end Section

/-! ## Saving and loading -/

namespace UserRecord

/-- The texts fit their fields, and none of them ends a line. -/
structure Declared (u : UserRecord) : Prop where
  nick : u.nick.length < 64 ∧ LF ∉ u.nick
  login : u.login.length < 64 ∧ LF ∉ u.login
  user : u.user.length < 64 ∧ LF ∉ u.user
  pass : u.pass.length < 20 ∧ LF ∉ u.pass
  vhost : u.vhost.length < 255 ∧ LF ∉ u.vhost
  proxy : u.proxy.length < 255 ∧ LF ∉ u.proxy
  away : u.away.length < 64 ∧ LF ∉ u.away
  leavemsg : u.leavemsg.length < 64 ∧ LF ∉ u.leavemsg
  awaynick : u.awaynick.length < 16 ∧ LF ∉ u.awaynick
  network : u.network.length < 10 ∧ LF ∉ u.network

/-- The fields that are printed into `iset`. -/
def numbers (u : UserRecord) : List Int :=
  [u.rights, u.vlink, u.pport, u.parent, u.quitted, u.dccenabled, u.autogetdcc, u.antiidle,
    u.leavequit, u.autorejoin, u.sysmsg, u.lastlog]

/-- The record has a login and a nick, its long texts fit `value`, and its numbers fit `iset`. -/
def Kept (u : UserRecord) : Prop :=
  u.login ≠ [] ∧ u.nick ≠ [] ∧ u.vhost.length < 200 ∧ u.proxy.length < 200 ∧
    ∀ x ∈ u.numbers, (decInt x).length < 8

instance (u : UserRecord) : Decidable u.Kept := by
  dsimp [Kept]
  infer_instance

/-- The record behind the buffers on the way. -/
def through (u : UserRecord) : UserRecord :=
  { u with
    vhost := clip 200 u.vhost
    proxy := clip 200 u.proxy
    rights := atoi (iset u.rights)
    vlink := atoi (iset u.vlink)
    pport := atoi (iset u.pport)
    parent := atoi (iset u.parent)
    quitted := atoi (iset u.quitted)
    dccenabled := atoi (iset u.dccenabled)
    autogetdcc := atoi (iset u.autogetdcc)
    antiidle := atoi (iset u.antiidle)
    leavequit := atoi (iset u.leavequit)
    autorejoin := atoi (iset u.autorejoin)
    sysmsg := atoi (iset u.sysmsg)
    lastlog := atoi (iset u.lastlog) }

theorem clip_eq_self_iff {d : CStr} : clip 200 d = d ↔ d.length < 200 := by
  rw [clip, List.take_eq_self_iff]
  omega

theorem through_eq_self_iff (u : UserRecord) :
    u.through = u ↔ u.vhost.length < 200 ∧ u.proxy.length < 200 ∧
      ∀ x ∈ u.numbers, (decInt x).length < 8 := by
  cases u
  simp only [through, mk.injEq, true_and, clip_eq_self_iff, atoi_iset_iff, numbers,
    List.forall_mem_cons, List.not_mem_nil, false_implies, implies_true, and_true]

end UserRecord

section RoundTrip

variable {usern : Nat} {u : UserRecord} {conf conf' : Conf}

theorem userFields_data (hu : u.Declared) :
    ∀ p ∈ userFields u, ∀ d, p.2 = some d → LF ∉ d ∧ d.length < 255 := by
  have htext : ∀ {d : CStr} {n : Nat}, n ≤ 255 → d.length < n ∧ LF ∉ d → LF ∉ d ∧ d.length < 255 :=
    fun hn h => ⟨h.2, Nat.lt_of_lt_of_le h.1 hn⟩
  have hset : ∀ x, LF ∉ iset x ∧ (iset x).length < 255 := by
    intro x
    have hlen := length_iset_lt x
    exact ⟨lf_notMem_iset x, by omega⟩
  simp only [userFields, List.forall_mem_cons, Option.some.injEq, forall_eq', hset]
  exact ⟨htext (by decide) hu.nick, htext (by decide) hu.login, htext (by decide) hu.user,
    htext (by decide) hu.pass, htext (by decide) hu.vhost, htext (by decide) hu.proxy,
    htext (by decide) hu.away, htext (by decide) hu.leavemsg, htext (by decide) hu.awaynick,
    htext (by decide) hu.network, by simp, by simp⟩

/-- What `loaduser` reads from what `writeuser` wrote. -/
theorem readUser_stored (husern : usern < 2 ^ 31) (hu : u.Declared) (hnick : u.nick ≠ [])
    (hstored : Stored (userSection husern) (userFields u) conf conf') :
    readUser usern (fun param => getini (ascii "USER") param (userFile usern) conf') u.pass =
      u.through := by
  have hvalue : ∀ p ∈ userFields u, getini (ascii "USER") p.1 (userFile usern) conf' =
      (dataPtr p.2).map (clip 200) := hstored.value
  have hclip : ∀ {d : CStr} {n : Nat}, n ≤ 200 → d.length < n ∧ LF ∉ d →
      clip n (clip 200 d) = d := by
    intro d n hn h
    rw [clip_eq_self (Nat.lt_of_lt_of_le h.1 hn), clip_eq_self h.1]
  have hlong : ∀ d : CStr, clip 255 (clip 200 d) = clip 200 d := by
    intro d
    have hlen := length_clip 200 d
    exact clip_eq_self (by omega)
  simp only [userFields, List.forall_mem_cons] at hvalue
  rcases hvalue with ⟨h₁, h₂, h₃, _, h₅, h₆, h₇, h₈, h₉, h₁₀, h₁₁, h₁₂, h₁₃, h₁₄, h₁₅, h₁₆, h₁₇, h₁₈, h₁₉,
    h₂₀, h₂₁, h₂₂, _⟩
  have hnick' : (dataPtr (some u.nick)).map (clip 200) = some (clip 200 u.nick) := by
    rw [dataPtr_some hnick, Option.map_some]
  simp only [readUser, UserRecord.through, h₁, hnick', h₂, h₃, h₅, h₆, h₇, h₈, h₉, h₁₀, h₁₁, h₁₂, h₁₃,
    h₁₄, h₁₅, h₁₆, h₁₇, h₁₈, h₁₉, h₂₀, h₂₁, h₂₂, Option.getD_some, getD_dataPtr, elim_dataPtr_iset,
    hclip (by decide) hu.nick, hclip (by decide) hu.login, hclip (by decide) hu.user,
    hclip (by decide) hu.away, hclip (by decide) hu.leavemsg, hclip (by decide) hu.awaynick,
    hclip (by decide) hu.network, hlong, clip_eq_self hu.pass.1]

theorem Stored.login (husern : usern < 2 ^ 31)
    (hstored : Stored (userSection husern) (userFields u) conf conf') :
    getini (ascii "USER") (ascii "LOGIN") (userFile usern) conf' =
      (dataPtr (some u.login)).map (clip 200) :=
  hstored.value (ascii "LOGIN", some u.login) (by simp [userFields])

theorem Stored.pass (husern : usern < 2 ^ 31) (hu : u.Declared) (hpass : u.pass.head? = some EQUALS)
    (hstored : Stored (userSection husern) (userFields u) conf conf') (salt : Salt)
    (randstring : CStr) :
    loadPass salt randstring (userFile usern) conf' = some (u.pass, conf') := by
  have hne : u.pass ≠ [] := by
    intro hnil
    rw [hnil] at hpass
    cases hpass
  have hvalue : getini (ascii "USER") (ascii "PASS") (userFile usern) conf' = some u.pass := by
    have hshort : u.pass.length < 200 := Nat.lt_trans hu.pass.1 (by decide)
    have hmem : (ascii "PASS", some u.pass) ∈ userFields u := by simp [userFields]
    have hget := hstored.value _ hmem
    rw [dataPtr_some hne, Option.map_some, clip_eq_self hshort] at hget
    exact hget
  simp only [loadPass, hvalue, Option.getD_some, hpass, if_true]

/-- A fresh process loads what was saved: the record behind the buffers on the way, unless it has no
login. -/
theorem loaduser_stored (husern : usern < 2 ^ 31) (hu : u.Declared)
    (hpass : u.pass.head? = some EQUALS) (hnick : u.nick ≠ []) (hlogin : u.login ≠ [])
    (hstored : Stored (userSection husern) (userFields u) conf conf') (salt : Salt)
    (randstring : CStr) :
    loaduser salt randstring usern conf' = some (some (u.through, conf')) := by
  have hfile : clip 100 (userFile usern) = userFile usern := by
    have hlen := length_userFile husern
    exact clip_eq_self (by omega)
  simp only [loaduser, hfile, hstored.login, dataPtr_some hlogin, Option.map_some,
    hstored.pass husern hu hpass salt randstring, readUser_stored husern hu hnick hstored]

end RoundTrip

section Saved

variable {usern : Nat} {u : UserRecord} {conf conf₁ : Conf}

/-- Without a nick the default one is loaded. -/
theorem readUser_default (husern : usern < 2 ^ 31)
    (hstored : Stored (userSection husern) (userFields u) conf conf₁) (hnick : u.nick = [])
    (pass : CStr) :
    (readUser usern (fun param => getini (ascii "USER") param (userFile usern) conf₁) pass).nick ≠
      [] := by
  have hmem : (ascii "NICK", some u.nick) ∈ userFields u := by simp [userFields]
  have hvalue : getini (ascii "USER") (ascii "NICK") (userFile usern) conf₁ = none := by
    have hget := hstored.value _ hmem
    rw [hnick, dataPtr_nil] at hget
    exact hget
  have hpsy : ascii "psy" = [112, 115, 121] := by decide
  simp [readUser, hvalue, defaultNick, hpsy, clip]

/-- A saved cache is read back by a fresh process. -/
theorem readconfig_saved (husern : usern < 2 ^ 31) (hu : u.Declared) (hlines : Lines conf)
    (hshort : Short conf)
    (hw : writeFields (ascii "USER") (userFile usern) (userFields u) conf = some conf₁) :
    readconfig [] (some (flushconfig conf₁)) = some conf₁ := by
  have hw' : writeFields (userSection husern).sect (userSection husern).inidat (userFields u) conf =
      some conf₁ := hw
  rcases writeFields_fileLines (userFields_names u) (userFields_data hu) hlines hshort hw' with
    ⟨hlines₁, hshort₁⟩
  exact (roundTrips_iff_short hlines₁).2 hshort₁

theorem saved_stored (husern : usern < 2 ^ 31) (hu : u.Declared) (huniq : UniqueKeys conf)
    (hw : writeFields (ascii "USER") (userFile usern) (userFields u) conf = some conf₁) :
    Stored (userSection husern) (userFields u) conf conf₁ := by
  have hdata : ∀ p ∈ userFields u, ∀ d, p.2 = some d → d.length < 1800 :=
    fun p hp d hd => Nat.lt_trans (userFields_data hu p hp d hd).2 (by decide)
  exact writeFields_stored (userFields_names u) hdata huniq hw

/-- The record in memory behind `writeuser`, and how it was written. -/
theorem writeuser_eq (husern : usern < 2 ^ 31) (hu : u.Declared) (salt : Salt) :
    ∃ pass, hashInPlace salt u.pass = some pass ∧ pass.head? = some EQUALS ∧
      UserRecord.Declared { u with pass := pass } ∧
      ∀ conf, writeuser salt usern u conf =
        (writeFields (ascii "USER") (userFile usern) (userFields { u with pass := pass }) conf).map
          fun conf => ({ u with pass := pass }, conf) := by
  rcases hashInPlace_spec salt hu.pass.1 hu.pass.2 with ⟨pass, hhash, hhead, hlen, hlf⟩
  have hfile : clip 20 (userFile usern) = userFile usern := by
    have hlen := length_userFile husern
    exact clip_eq_self (by omega)
  refine ⟨pass, hhash, hhead, { hu with pass := ⟨hlen, hlf⟩ }, ?_⟩
  intro conf
  rw [writeuser, hhash, Option.bind_some, hfile]

end Saved

/-- A record that is saved and loaded by a fresh process comes back as it was left in memory by
`writeuser`, if and only if it is a record that the buffers on the way keep. -/
theorem loaduser_writeuser_iff (salt : Salt) (randstring : CStr) (usern : Nat)
    (husern : usern < 2 ^ 31) (u : UserRecord) (hu : u.Declared) (conf : Conf) (hne : conf ≠ [])
    (huniq : UniqueKeys conf) (hlines : Lines conf) (hshort : Short conf) :
    (∃ u' conf₁ conf₂ conf₃, writeuser salt usern u conf = some (u', conf₁) ∧
      readconfig [] (some (flushconfig conf₁)) = some conf₂ ∧
      loaduser salt randstring usern conf₂ = some (some (u', conf₃))) ↔ u.Kept := by
  rcases writeuser_eq husern hu salt with ⟨pass, _, hpass, hv, hwrite⟩
  have hsame : u.Kept ↔ UserRecord.Kept { u with pass := pass } := Iff.rfl
  rw [hsame, UserRecord.Kept]
  have hvpass : ({ u with pass := pass } : UserRecord).pass.head? = some EQUALS := hpass
  -- the record that is in memory afterwards
  generalize ({ u with pass := pass } : UserRecord) = v at hv hvpass hwrite ⊢
  constructor
  · rintro ⟨u', conf₁, conf₂, conf₃, hw, hread, hload⟩
    rw [hwrite] at hw
    rcases Option.map_eq_some_iff.1 hw with ⟨conf', hw₁, heq⟩
    cases heq
    have hstored := saved_stored husern hv huniq hw₁
    rw [readconfig_saved husern hv hlines hshort hw₁] at hread
    cases hread
    have hfile : clip 100 (userFile usern) = userFile usern := by
      have hlen := length_userFile husern
      exact clip_eq_self (by omega)
    by_cases hlogin' : v.login = []
    · -- a user without a login is not loaded
      simp only [loaduser, hfile, hstored.login, hlogin', dataPtr_nil, Option.map_none] at hload
      cases hload
    · by_cases hnick' : v.nick = []
      · simp only [loaduser, hfile, hstored.login, dataPtr_some hlogin', Option.map_some,
          hstored.pass husern hv hvpass, Option.some.injEq, Prod.mk.injEq] at hload
        exact absurd ((congrArg UserRecord.nick hload.1).trans hnick')
          (readUser_default husern hstored hnick' v.pass)
      · rw [loaduser_stored husern hv hvpass hnick' hlogin' hstored] at hload
        simp only [Option.some.injEq, Prod.mk.injEq] at hload
        exact ⟨hlogin', hnick', (UserRecord.through_eq_self_iff v).1 hload.1⟩
  · rintro ⟨hlogin', hnick', hkept⟩
    have hdata : ∀ p ∈ userFields v, ∀ d, p.2 = some d → d.length < 1800 :=
      fun p hp d hd => Nat.lt_trans (userFields_data hv p hp d hd).2 (by decide)
    rcases exists_writeFields_of_first (S := userSection husern) (d := v.nick) rfl hnick' hne
      (userFields_names v) hdata huniq with ⟨conf₁, hw₁⟩
    have hstored := saved_stored husern hv huniq hw₁
    refine ⟨v, conf₁, conf₁, conf₁, ?_, readconfig_saved husern hv hlines hshort hw₁, ?_⟩
    · rw [hwrite]
      exact Option.map_eq_some_iff.2 ⟨conf₁, hw₁, rfl⟩
    · rw [loaduser_stored husern hv hvpass hnick' hlogin' hstored,
        (UserRecord.through_eq_self_iff v).2 hkept]

/-- The first user of a bouncer. -/
def ownerRecord : UserRecord where
  nick := ascii "owner"
  login := ascii "owner"
  user := ascii "The owner"
  pass := ascii "=0123456789abcdef"
  vhost := []
  proxy := []
  away := ascii "away"
  leavemsg := []
  awaynick := []
  network := []
  rights := 1
  vlink := 0
  pport := 0
  parent := 0
  quitted := 0
  dccenabled := 1
  autogetdcc := 0
  antiidle := 1
  leavequit := 0
  autorejoin := 1
  sysmsg := 1
  lastlog := 4096

theorem ownerRecord_declared : ownerRecord.Declared where
  nick := by decide
  login := by decide
  user := by decide
  pass := by decide
  vhost := by decide
  proxy := by decide
  away := by decide
  leavemsg := by decide
  awaynick := by decide
  network := by decide

theorem loaduser_writeuser_owner :
    ∃ u' conf₁ conf₂ conf₃,
      writeuser buildSalt 1 ownerRecord [ascii "PSYBNC.SYSTEM.PORT1=31337"] = some (u', conf₁) ∧
      readconfig [] (some (flushconfig conf₁)) = some conf₂ ∧
      loaduser buildSalt [] 1 conf₂ = some (some (u', conf₃)) :=
  (loaduser_writeuser_iff buildSalt [] 1 (by decide) ownerRecord ownerRecord_declared
    [ascii "PSYBNC.SYSTEM.PORT1=31337"] (by simp) (by decide) (by decide) (by decide)).2
    (by decide +kernel)

/-- A position of eight digits in the log loses the last one, and a long vhost its end. -/
theorem loaduser_cuts :
    let again := fun u => (writeuser buildSalt 1 u [ascii "PSYBNC.SYSTEM.PORT1=31337"]).bind
      fun (_, conf₁) => (readconfig [] (some (flushconfig conf₁))).bind (loaduser buildSalt [] 1)
    (again { ownerRecord with lastlog := 12345678 }).map (Option.map fun p => p.1.lastlog) =
        some (some 1234567) ∧
      (again { ownerRecord with vhost := List.replicate 200 97 }).map (Option.map fun p => p.1.vhost) =
        some (some (List.replicate 199 97)) := by
  decide +kernel

end PsyBnc
