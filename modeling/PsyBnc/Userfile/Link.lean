import PsyBnc.Inifunc.Fields
import PsyBnc.Crypt

/-!
# Links in the configuration (`p_userfile.c`)

A link to another bouncer is a record that `writelink` puts into the section `LINKS.LINK%d` and
`loadlink` reads from there.  Numbers are printed into eight bytes, and every text passes through
`value[200]` on its way back.
-/

namespace PsyBnc

open CLib

/-- `LI_RELAY`: an active relay, which is not stored in a link of its own. -/
def LI_RELAY : Int := 3

def STD_NOCON : Int := 1

/-- `struct datalinkt`, without its sockets. -/
structure Datalinkt where
  type : Int
  name : CStr
  host : CStr
  pass : CStr
  vhost : CStr
  iam : CStr
  port : Int
  allowrelay : Int
  instate : Int
  outstate : Int
  delayed : Int
  deriving DecidableEq, Repr

/-- The record that `clearlink` leaves. -/
def Datalinkt.cleared : Datalinkt where
  type := 0
  name := []
  host := []
  pass := []
  vhost := []
  iam := []
  port := 0
  allowrelay := 0
  instate := 0
  outstate := 0
  delayed := 0

/-- `lngtxt(958)` -/
def linkFile : CStr := ascii "LINKS"

/-- `lngtxt(959)` and `lngtxt(968)`. -/
def linkSect (linkn : Nat) : CStr := clip 20 (ascii "LINK" ++ dec linkn)

/-- What `writelink` writes, field by field. -/
def linkFields (salt : Salt) (link : Datalinkt) : List (CStr × Option CStr) :=
  [(ascii "TYPE", some (iset link.type)),
    (ascii "PORT", some (iset link.port)),
    (ascii "NAME", some link.name),
    (ascii "IAM", some link.iam),
    (ascii "HOST", some link.host),
    (ascii "PASS", some (cryptit salt link.pass)),
    (ascii "ALLOWRELAY", some (iset link.allowrelay))]

def writelink (salt : Salt) (linkn : Nat) (link : Datalinkt) (conf : Conf) : Option Conf :=
  writeFields (linkSect linkn) linkFile (linkFields salt link) conf

/-- The record that `loadlink` fills in, from the number of its type, the deciphered password, and what
`getini` finds under the other names. -/
def readLink (value : CStr → Option CStr) (type pass : CStr) : Datalinkt where
  type := atoi type
  name := clip 64 ((value (ascii "NAME")).getD [])
  host := clip 400 ((value (ascii "HOST")).getD [])
  pass := clip 20 pass
  vhost := []
  iam := clip 64 ((value (ascii "IAM")).getD [])
  port := (value (ascii "PORT")).elim 0 atoi
  allowrelay := (value (ascii "ALLOWRELAY")).elim 0 atoi
  instate := STD_NOCON
  outstate := STD_NOCON
  delayed := 1

/-- `loadlink`, on the record `link` that is in memory.  The result is `none` when `decryptit` runs
over the end of the stored password. -/
def loadlink (salt : Salt) (linkn : Nat) (link : Datalinkt) (conf : Conf) : Option Datalinkt :=
  let value := fun param => getini (linkSect linkn) param linkFile conf
  if link.type = LI_RELAY then some link
  else
    match value (ascii "TYPE") with
    | none => some .cleared
    | some type => (decryptit salt ((value (ascii "PASS")).getD [])).map (readLink value type)

/-! ## The section -/

section Section

variable {linkn : Nat}

theorem linkSect_eq (hlinkn : linkn < 2 ^ 31) : linkSect linkn = ascii "LINK" ++ dec linkn := by
  have hdec : (dec linkn).length ≤ 10 := (length_dec_le (by omega)).2 (by omega)
  have hname : (ascii "LINK").length = 4 := by decide
  apply clip_eq_self
  simp only [List.length_append, hname]
  omega

theorem notMem_linkSect (hlinkn : linkn < 2 ^ 31) {b : Byte} (hb : isDigit b = false)
    (hname : b ∉ ascii "LINK") : b ∉ linkSect linkn := by
  rw [linkSect_eq hlinkn, List.mem_append, not_or]
  exact ⟨hname, notMem_dec hb⟩

/-- `LINKS.LINK%d` -/
def linkSection (hlinkn : linkn < 2 ^ 31) : IniSection where
  inidat := linkFile
  sect := linkSect linkn
  plain := by
    refine ⟨by decide, ?_, ?_⟩
    · exact notMem_linkSect hlinkn (by decide) (by decide)
    · exact notMem_linkSect hlinkn (by decide) (by decide)
  line := ⟨by decide, notMem_linkSect hlinkn (by decide) (by decide)⟩
  fits := by
    have hlen : (linkSect linkn).length ≤ 19 := by
      rw [linkSect, length_clip]
      exact Nat.min_le_left _ _
    have hfile : linkFile.length = 5 := by decide
    omega

theorem linkFields_names (salt : Salt) (link : Datalinkt) :
    FieldNames ((linkFields salt link).map Prod.fst) := by
  have hnames : (linkFields salt link).map Prod.fst =
      [ascii "TYPE", ascii "PORT", ascii "NAME", ascii "IAM", ascii "HOST", ascii "PASS",
        ascii "ALLOWRELAY"] := rfl
  rw [hnames]
  decide

end Section

/-! ## Saving and loading -/

/-- A record within its buffers and those it passes through, with a password that `cryptit` does
not take for a ciphered one. -/
structure Datalinkt.Storable (link : Datalinkt) : Prop where
  name : link.name.length < 64
  iam : link.iam.length < 64
  host : link.host.length < 200
  pass : link.pass.length < 20 ∧ (0 : Byte) ∉ link.pass ∧ link.pass.head? ≠ some PLUS
  numbers : (decInt link.type).length < 8 ∧ (decInt link.port).length < 8 ∧
    (decInt link.allowrelay).length < 8

/-- What the configuration keeps of a link. -/
def Datalinkt.stored (link : Datalinkt) : Int × CStr × CStr × CStr × CStr × Int × Int :=
  (link.type, link.name, link.host, link.pass, link.iam, link.port, link.allowrelay)

/-- A stored link is loaded with the values it was saved with.  `link` is what is in memory then: no
active relay, or the saved record. -/
theorem loadlink_writelink (salt : Salt) (linkn : Nat) (hlinkn : linkn < 2 ^ 31) (r link : Datalinkt)
    (hr : r.Storable) (hlink : link.type ≠ LI_RELAY ∨ link = r) (conf : Conf) (hne : conf ≠ [])
    (huniq : UniqueKeys conf) :
    ∃ conf' loaded, writelink salt linkn r conf = some conf' ∧
      loadlink salt linkn link conf' = some loaded ∧ loaded.stored = r.stored ∧
      (link.type ≠ LI_RELAY → loaded.vhost = []) := by
  have hcrypt : (cryptit salt r.pass).length < 200 := by
    have hle := length_cryptit_le salt r.pass
    have hpass := hr.pass.1
    omega
  -- Every field fits its line.
  have hdata : ∀ p ∈ linkFields salt r, ∀ d, p.2 = some d → d.length < 1800 := by
    have hname := hr.name
    have hiam := hr.iam
    have hhost := hr.host
    have htype := length_iset_lt r.type
    have hport := length_iset_lt r.port
    have hrelay := length_iset_lt r.allowrelay
    intro p hp d hd
    simp only [linkFields, List.mem_cons, List.not_mem_nil, or_false] at hp
    rcases hp with rfl | rfl | rfl | rfl | rfl | rfl | rfl <;> cases hd <;> omega
  rcases exists_writeFields_of_first (S := linkSection hlinkn) (d := iset r.type) rfl (iset_ne_nil _)
    hne (linkFields_names salt r) hdata huniq with ⟨conf', hw⟩
  have hstored := writeFields_stored (linkFields_names salt r) hdata huniq hw
  have hvalue : ∀ p ∈ linkFields salt r, getini (linkSect linkn) p.1 linkFile conf' =
      (dataPtr p.2).map (clip 200) := hstored.value
  by_cases hrelay : link.type = LI_RELAY
  · -- a relay in memory is not touched
    refine ⟨conf', link, hw, by simp [loadlink, hrelay], ?_, fun h => absurd hrelay h⟩
    rw [hlink.resolve_left (fun h => h hrelay)]
  · have hpass : decryptit salt (((dataPtr (some (cryptit salt r.pass))).map (clip 200)).getD []) =
        some r.pass := by
      rw [getD_dataPtr_clip hcrypt]
      have hlen := hr.pass.1
      exact decryptit_cryptit salt hr.pass.2.2 hr.pass.2.1 (by omega)
    have htype : getini (linkSect linkn) (ascii "TYPE") linkFile conf' = some (iset r.type) := by
      have hlen := length_iset_lt r.type
      rw [hvalue (ascii "TYPE", some (iset r.type)) (by simp [linkFields]),
        dataPtr_some (iset_ne_nil _), Option.map_some, clip_eq_self (by omega)]
    have hpass' := hvalue (ascii "PASS", some (cryptit salt r.pass)) (by simp [linkFields])
    simp only at hpass'
    refine ⟨conf', readLink (fun param => getini (linkSect linkn) param linkFile conf') (iset r.type)
      r.pass, hw, ?_, ?_, fun _ => rfl⟩
    · rw [loadlink, if_neg hrelay]
      simp only [htype, hpass', hpass, Option.map_some]
    · have hhost : r.host.length < 400 := Nat.lt_trans hr.host (by decide)
      have hport := hvalue (ascii "PORT", some (iset r.port)) (by simp [linkFields])
      have hallow := hvalue (ascii "ALLOWRELAY", some (iset r.allowrelay)) (by simp [linkFields])
      have hname := hvalue (ascii "NAME", some r.name) (by simp [linkFields])
      have hiam := hvalue (ascii "IAM", some r.iam) (by simp [linkFields])
      have hhost' := hvalue (ascii "HOST", some r.host) (by simp [linkFields])
      -- What is read field by field is what was written.
      simp only at hport hallow hname hiam hhost'
      simp only [Datalinkt.stored, readLink, hport, hallow, hname, hiam, hhost', elim_dataPtr_iset]
      rw [getD_dataPtr_clip hr.host, getD_dataPtr_clip (Nat.lt_trans hr.name (by decide)),
        getD_dataPtr_clip (Nat.lt_trans hr.iam (by decide)), clip_eq_self hhost,
        clip_eq_self hr.name, clip_eq_self hr.iam, clip_eq_self hr.pass.1,
        (atoi_iset_iff _).2 hr.numbers.1, (atoi_iset_iff _).2 hr.numbers.2.1,
        (atoi_iset_iff _).2 hr.numbers.2.2]

/-- A link to another bouncer. -/
def hubLink : Datalinkt where
  type := 2
  name := ascii "leaf"
  host := ascii "10.0.0.1"
  pass := ascii "secret"
  vhost := []
  iam := ascii "hub"
  port := 31337
  allowrelay := 1
  instate := STD_NOCON
  outstate := STD_NOCON
  delayed := 1

theorem hubLink_storable : hubLink.Storable where
  name := by decide
  iam := by decide
  host := by decide
  pass := by decide +kernel
  numbers := by decide +kernel

theorem loadlink_writelink_hub :
    ∃ conf' loaded, writelink buildSalt 1 hubLink [ascii "PSYBNC.SYSTEM.PORT1=31337"] = some conf' ∧
      loadlink buildSalt 1 .cleared conf' = some loaded ∧ loaded.stored = hubLink.stored := by
  rcases loadlink_writelink buildSalt 1 (by decide) hubLink .cleared hubLink_storable
    (Or.inl (by decide)) [ascii "PSYBNC.SYSTEM.PORT1=31337"] (by simp) (by decide) with
    ⟨conf', loaded, hw, hload, hsame, _⟩
  exact ⟨conf', loaded, hw, hload, hsame⟩

/-- Neither a vhost nor a password with a leading `+` comes back, nor a host of 200 letters, nor a
number of eight digits. -/
theorem loadlink_loses :
    let again := fun link => (writelink buildSalt 1 link [ascii "PSYBNC.SYSTEM.PORT1=31337"]).bind
      (loadlink buildSalt 1 .cleared)
    (again { hubLink with vhost := ascii "10.0.0.2" }).map Datalinkt.vhost = some [] ∧
      (again { hubLink with pass := ascii "+secret" }).map Datalinkt.pass ≠ some (ascii "+secret") ∧
      (again { hubLink with host := List.replicate 200 97 }).map Datalinkt.host =
        some (List.replicate 199 97) ∧
      (again { hubLink with port := 12345678 }).map Datalinkt.port = some 1234567 := by
  decide +kernel

end PsyBnc
