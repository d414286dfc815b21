import PsyBnc.Inifunc.Servers
import PsyBnc.Inifunc.Store
import PsyBnc.Parse.Model
import PsyBnc.Wildcard.Compare

/-!
# The commands for the server list (`p_client.c`)

`ADDSERVER`, `DELSERVER` and `LISTSERVERS` look at the slots 1 to 9.  They look with `getserver`, which
stores what it reads in the record of the user.
-/

namespace PsyBnc

open CLib

/-- What the commands read and change. -/
structure ServerSession where
  conf : Conf
  user : UserServer
  delayed : Int
  deriving DecidableEq, Repr

/-- The session after a command, the lines on `insock` and the return value. -/
structure ServerReply where
  session : ServerSession
  lines : List CStr
  result : Int
  deriving DecidableEq, Repr

/-- The form of all the replies. -/
def serverMessage (nick text : CStr) : CStr :=
  clip 8192 (ascii ":-psyBNC!psyBNC@psyBNC.dk PRIVMSG " ++ nick ++ ascii " :" ++ text ++ [CR, LF])

/-- The file name and a key of the slot, in `fname[20]` and `buf[400]`. -/
def writeserver (usern nmsrv : Nat) (name data : CStr) (conf : Conf) : Option Conf :=
  writeini (ascii "SERVERS") (clip 400 (name ++ dec nmsrv)) (clip 20 (userFile usern)) (some data) conf

/-- The host and what follows it: `gsrv` is cut at its last `:`, looked for from the second byte on.  In a text of
blanks the search starts behind the terminator. -/
def splitserver (gsrv : CStr) : Option (CStr × CStr) :=
  match gsrv.dropWhile fun b => b == SP with
  | [] => none
  | b :: pt =>
      match cutLast COLON pt with
      | some (u, dpt) => some (b :: u, dpt)
      -- `dpt` is still `pt`, and the byte there is overwritten.
      | none => some ([], pt)

/-- The port and the password. -/
def splitport (dpt : CStr) : CStr × Option CStr :=
  match cutAt SP dpt with
  | none => (dpt, none)
  | some (port, pw) => (port, some pw)

/-- `irccontent` after the port has been put there. -/
def filledPort (port : CStr) : CStr := if port = [] then ascii "6667" else clip 6000 port

/-- The password is only written when there is a blank in front of it. -/
def writepass (usern nmsrv : Nat) : Option CStr → Conf → Option Conf
  | none, conf => some conf
  | some pw, conf => writeserver usern nmsrv (ascii "SPASS") pw conf

/-- The free slot `nmsrv` is filled. -/
def saveserver (usern nmsrv : Nat) (nick pt dpt : CStr) (sess : ServerSession) : Option ServerReply :=
  let port := filledPort (splitport dpt).1
  let pw := (splitport dpt).2
  (writepass usern nmsrv pw sess.conf).bind fun conf =>
    (writeserver usern nmsrv (ascii "PORT") port conf).bind fun conf =>
      (writeserver usern nmsrv (ascii "SERVER") pt conf).map fun conf =>
        { session := { sess with conf := conf, delayed := 0 }
          lines := [serverMessage nick (ascii "Server " ++ pt ++ ascii " port " ++ port ++ ascii " (password: " ++
            pw.getD (ascii "None") ++ ascii ") added.")]
          result := 0 }

/-- The loop of `cmdaddserver` from slot `nmsrv` on, `k` slots in front of its end. -/
def addserverLoop (usern : Nat) (nick ircto irccontent : CStr) :
    Nat → Nat → ServerSession → Option ServerReply
  | 0, _, sess => some ⟨sess, [serverMessage nick (ascii "No server entry free.")], -1⟩
  | k + 1, nmsrv, sess =>
      (splitserver (clip 400 (ircto ++ COLON :: irccontent))).bind fun parts =>
        match getserver sess.conf usern nmsrv sess.user with
        | some user => addserverLoop usern nick ircto irccontent k (nmsrv + 1) { sess with user := user }
        | none => saveserver usern nmsrv nick parts.1 parts.2 sess

/-- `cmdaddserver`; `nick` is that of the parent. -/
def cmdaddserver (usern : Nat) (nick ircto irccontent : CStr) (sess : ServerSession) : Option ServerReply :=
  if ircto = [] then
    some ⟨sess, [serverMessage nick (ascii "No server given. Syntax is ADDSERVER hostname :port")], -1⟩
  else if strmwildcmp ircto (ascii "*.eushells.com") then
    some ⟨sess, [serverMessage nick
      (ascii "Please provide a valid IRC-server as hostname, not your bouncer itself.")], -1⟩
  else addserverLoop usern nick ircto irccontent 9 1 sess

/-- `cmddelserver` with its reply. -/
def delserverReply (usern : Nat) (nick irccontent : CStr) (sess : ServerSession) : Option ServerReply :=
  if irccontent = [] then
    some ⟨sess, [serverMessage nick (ascii "No server given. Syntax is DELSERVER number")], -1⟩
  else
    (cmddelserver usern irccontent sess.conf).map fun conf =>
      ⟨{ sess with conf := conf }, [serverMessage nick (ascii "Server " ++ irccontent ++ ascii " deleted.")], -1⟩

/-- The loop of `cmdlistservers`: the record at the end, and the lines. -/
def listserversLoop (conf : Conf) (usern : Nat) (nick : CStr) : Nat → Nat → UserServer → UserServer × List CStr
  | 0, _, user => (user, [])
  | k + 1, nmsrv, user =>
      match getserver conf usern nmsrv user with
      | none => listserversLoop conf usern nick k (nmsrv + 1) user
      | some user =>
          let shown := serverMessage nick (ascii "Server #" ++ dec nmsrv ++ ascii ": " ++ user.server ++
            ascii " port " ++ decInt user.port)
          let rest := listserversLoop conf usern nick k (nmsrv + 1) user
          (rest.1, shown :: rest.2)

/-- `cmdlistservers`; the server goes through `sicsrv[400]`. -/
def cmdlistservers (usern : Nat) (nick : CStr) (sess : ServerSession) : ServerReply :=
  let shown := listserversLoop sess.conf usern nick 9 1 sess.user
  let sicsrv := clip 400 sess.user.server
  { session := { sess with user := { shown.1 with server := clip 255 sicsrv, port := sess.user.port } }
    lines := shown.2 ++ [serverMessage nick (ascii "End of Servers.")]
    result := -1 }

/-! ## The entries of a slot -/

/-- The names that have a number behind them. -/
def serverFields : List CStr := [ascii "SERVER", ascii "PORT", ascii "SPASS"]

section Keys

variable {usern n k : Nat} {name name' : CStr}

theorem serverFields_plain : ∀ name ∈ serverFields, Plain name ∧ name.length ≤ 6 := by decide

theorem serverFields_apart :
    ∀ name ∈ serverFields, ∀ name' ∈ serverFields, name.take 2 = name'.take 2 → name = name' := by
  decide

theorem plain_serverParam (hname : name ∈ serverFields) (n : Nat) : Plain (serverParam name n) := by
  have hplain := (serverFields_plain name hname).1
  have hno : ∀ b, isDigit b = false → b ∉ name → b ∉ serverParam name n := by
    intro b hdigit hb hmem
    rcases List.mem_append.1 (mem_of_mem_clip hmem) with h | h
    · exact hb h
    · exact notMem_dec hdigit h
  exact ⟨hno EQUALS (by decide) hplain.1, hno DOT (by decide) hplain.2⟩

theorem serverKey_plain (usern : Nat) (hname : name ∈ serverFields) (n : Nat) :
    Plain (clip 20 (userFile usern)) ∧ Plain (ascii "SERVERS") ∧ Plain (serverParam name n) := by
  have hfile := plain_userFile usern
  refine ⟨⟨?_, ?_⟩, by decide, plain_serverParam hname n⟩
  · exact fun h => hfile.1 (mem_of_mem_clip h)
  · exact fun h => hfile.2 (mem_of_mem_clip h)

theorem serverKey_fits (usern : Nat) (name : CStr) (n : Nat) :
    (entryText (clip 20 (userFile usern)) (ascii "SERVERS") (serverParam name n)).length < 200 := by
  have hfile := length_clip 20 (userFile usern)
  have hparam := length_clip 100 (name ++ dec n)
  have hsect : (ascii "SERVERS").length = 7 := by decide
  simp only [entryText, serverParam, List.length_append, List.length_cons, List.length_nil, hfile, hparam, hsect]
  omega

/-- The key of an entry. -/
def serverKey (usern : Nat) {name : CStr} (hname : name ∈ serverFields) (n : Nat) : IniKey where
  inidat := clip 20 (userFile usern)
  sect := ascii "SERVERS"
  param := serverParam name n
  plain := serverKey_plain usern hname n
  fits := serverKey_fits usern name n

theorem server_mem : ascii "SERVER" ∈ serverFields := by decide

theorem port_mem : ascii "PORT" ∈ serverFields := by decide

theorem spass_mem : ascii "SPASS" ∈ serverFields := by decide

/-- The key of a password. -/
def spassKey (usern n : Nat) : IniKey := serverKey usern spass_mem n

theorem serverValue_eq_lookup (conf : Conf) (hname : name ∈ serverFields) :
    serverValue conf usern name n = lookup conf (serverKey usern hname n) := rfl

/-- One of the slots that the commands look at has a number of one digit. -/
theorem dec_slot (hk : k < 10) : (dec k).length = 1 := by
  rw [dec_of_lt hk]
  rfl

theorem serverParam_slot (hname : name ∈ serverFields) (hk : k < 10) : serverParam name k = name ++ dec k := by
  have hlen := (serverFields_plain name hname).2
  apply clip_eq_self
  rw [List.length_append, dec_slot hk]
  omega

theorem serverParam_inj (hname : name ∈ serverFields) (hname' : name' ∈ serverFields) (hk : k < 10)
    (h : serverParam name' n = serverParam name k) : name' = name ∧ n = k := by
  have hlen := (serverFields_plain name hname).2
  have hlen' := (serverFields_plain name' hname').2
  have hlong : ∀ name ∈ serverFields, ∀ t : CStr, (name ++ t).take 2 = name.take 2 := by
    intro name hmem t
    have htwo : ∀ name ∈ serverFields, 2 ≤ name.length := by decide
    exact List.take_append_of_le_length (htwo name hmem)
  have hnames : name' = name := by
    apply serverFields_apart name' hname' name hname
    calc name'.take 2 = (serverParam name' n).take 2 := by
          rw [serverParam, clip, List.take_take, ← hlong name' hname' (dec n)]
          rfl
      _ = (serverParam name k).take 2 := by rw [h]
      _ = name.take 2 := by rw [serverParam_slot hname hk, hlong name hname]
  subst hnames
  refine ⟨rfl, ?_⟩
  -- The other number has one digit as well, since what is cut off comes behind many more.
  have hall : name'.take (100 - 1) = name' := List.take_of_length_le (by omega)
  have hcut : (dec n).take (99 - name'.length) = dec k := by
    have hsplit : name' ++ (dec n).take (99 - name'.length) = name' ++ dec k := by
      calc name' ++ (dec n).take (99 - name'.length) = serverParam name' n := by
            rw [serverParam, clip, List.take_append, hall]
        _ = name' ++ dec k := by rw [h, serverParam_slot hname hk]
    exact List.append_cancel_left hsplit
  have hone : (dec n).length ≤ 1 := by
    have hshort := congrArg List.length hcut
    rw [List.length_take, dec_slot hk] at hshort
    omega
  rw [List.take_of_length_le (by omega)] at hcut
  exact dec_injective hcut

theorem serverKey_ne (hname : name ∈ serverFields) (hname' : name' ∈ serverFields) (hk : k < 10)
    (hne : name' ≠ name ∨ n ≠ k) : serverKey usern hname' n ≠ serverKey usern hname k := by
  intro heq
  rcases serverParam_inj hname hname' hk (congrArg IniKey.param heq) with ⟨hnames, hnumbers⟩
  rcases hne with hne | hne
  · exact hne hnames
  · exact hne hnumbers

end Keys

/-! ## What a slot holds -/

/-- The entries of a slot, as they fit the record. -/
def slotServer (conf : Conf) (usern n : Nat) : CStr :=
  clip 255 ((serverValue conf usern (ascii "SERVER") n).getD [])

def slotPort (conf : Conf) (usern n : Nat) : Int := (serverValue conf usern (ascii "PORT") n).elim 6667 atoi

def slotPass (conf : Conf) (usern n : Nat) : CStr := clip 64 ((serverValue conf usern (ascii "SPASS") n).getD [])

/-- The record when `getserver` has found the slot. -/
def withSlot (conf : Conf) (usern n : Nat) (u : UserServer) : UserServer :=
  { u with server := slotServer conf usern n, port := slotPort conf usern n, spass := slotPass conf usern n }

section Slots

variable {conf conf' : Conf} {usern n m : Nat} {u v : UserServer}

@[simp] theorem withSlot_withSlot : withSlot conf usern n (withSlot conf usern m u) = withSlot conf usern n u := rfl

theorem getserver_of_configured (h : configured conf usern n = true) (u : UserServer) :
    getserver conf usern n u = some (withSlot conf usern n u) := by
  rw [configured, Option.isSome_iff_exists] at h
  rcases h with ⟨server, hserver⟩
  unfold getserver withSlot slotServer slotPort slotPass
  rw [hserver]
  cases serverValue conf usern (ascii "PORT") n with
  | none =>
      cases serverValue conf usern (ascii "SPASS") n with
      | none => rfl
      | some spass => rfl
  | some port =>
      cases serverValue conf usern (ascii "SPASS") n with
      | none => rfl
      | some spass => rfl

theorem getserver_of_not_configured (h : configured conf usern n = false) (u : UserServer) :
    getserver conf usern n u = none := getserver_eq_none.2 h

theorem configured_of_getserver (h : getserver conf usern n u = some v) : configured conf usern n = true := by
  rw [← Bool.not_eq_false, ← getserver_eq_none, h]
  exact Option.some_ne_none v

/-- Slots with the same entries are read alike. -/
theorem getserver_congr (h : ∀ name ∈ serverFields, serverValue conf' usern name n = serverValue conf usern name n) :
    getserver conf' usern n u = getserver conf usern n u := by
  unfold getserver
  rw [h _ server_mem, h _ port_mem, h _ spass_mem]

theorem length_getini_lt {sect param inidat value : CStr} (h : getini sect param inidat conf = some value) :
    value.length < 200 := by
  rcases List.exists_of_findSome?_eq_some h with ⟨entry, _, hentry⟩
  rcases Option.map_eq_some_iff.1 hentry with ⟨rest, _, hrest⟩
  rw [← hrest, length_clip]
  omega

/-- No server of 200 bytes and no password of 64 is read. -/
theorem getserver_fits (h : getserver conf usern n u = some v) : v.server.length < 200 ∧ v.spass.length < 64 := by
  have hconf := configured_of_getserver h
  rw [getserver_of_configured hconf u] at h
  cases h
  rw [configured, Option.isSome_iff_exists] at hconf
  rcases hconf with ⟨server, hserver⟩
  constructor
  · have hlen := length_getini_lt hserver
    change (slotServer conf usern n).length < 200
    rw [slotServer, hserver, Option.getD_some, length_clip]
    omega
  · change (slotPass conf usern n).length < 64
    rw [slotPass, length_clip]
    omega

end Slots

/-! ## Writing one entry -/

section Write

variable {usern n k : Nat} {name name' data : CStr} {conf conf' : Conf}

theorem writeserver_eq (hname : name ∈ serverFields) (hk : k < 10) :
    writeserver usern k name data conf = writeini (serverKey usern hname k).sect (serverKey usern hname k).param
      (serverKey usern hname k).inidat (some data) conf := by
  have hparam : clip 400 (name ++ dec k) = serverParam name k := by
    have hlen := (serverFields_plain name hname).2
    rw [serverParam_slot hname hk]
    apply clip_eq_self
    rw [List.length_append, dec_slot hk]
    omega
  rw [writeserver, hparam]
  rfl

theorem writeserver_reads (hname : name ∈ serverFields) (hk : k < 10) (hdata : data ≠ []) (hlen : data.length < 1800)
    (h : writeserver usern k name data conf = some conf') :
    serverValue conf' usern name k = some (clip 200 data) := by
  rw [writeserver_eq hname hk] at h
  rw [serverValue_eq_lookup conf' hname]
  exact lookup_writeini_some hdata hlen h

theorem writeserver_other (hname : name ∈ serverFields) (hname' : name' ∈ serverFields) (hk : k < 10)
    (hlen : data.length < 1800) (hne : name' ≠ name ∨ n ≠ k)
    (h : writeserver usern k name data conf = some conf') :
    serverValue conf' usern name' n = serverValue conf usern name' n := by
  rw [writeserver_eq hname hk] at h
  rw [serverValue_eq_lookup conf' hname', serverValue_eq_lookup conf hname']
  apply lookup_writeini_of_ne h
  · intro d hd
    cases hd
    exact hlen
  · exact serverKey_ne hname hname' hk hne

/-- Only an empty list has no node to go on from. -/
theorem writeserver_eq_none (hdata : data ≠ []) : writeserver usern k name data conf = none ↔ conf = [] := by
  rw [writeserver, writeini_eq_none_iff, dataPtr_some hdata]
  simp

theorem writeserver_ne_nil (hdata : data ≠ []) (h : writeserver usern k name data conf = some conf') : conf' ≠ [] := by
  rcases writeini_written h with ⟨l₁, old, l₂, _, rfl, _, _⟩
  rw [newLine, dataPtr_some hdata]
  simp

end Write

/-! ## Filling a slot -/

/-- There is a node left to go on from when the password of the slot has been written: an empty password deletes
the line. -/
def Attached (usern k : Nat) (pw : Option CStr) (conf : Conf) : Prop :=
  conf ≠ [] ∧ (pw = some [] → ∀ e, conf = [e] → keyOf e ≠ some (spassKey usern k).text)

section Save

variable {usern k n : Nat} {nick gsrv pt dpt port name : CStr} {pw : Option CStr} {conf conf' : Conf}
  {sess : ServerSession} {r : ServerReply}

theorem length_splitserver (h : splitserver gsrv = some (pt, dpt)) :
    pt.length ≤ gsrv.length ∧ dpt.length ≤ gsrv.length := by
  unfold splitserver at h
  cases hdrop : gsrv.dropWhile fun b => b == SP with
  | nil =>
      rw [hdrop] at h
      cases h
  | cons b t =>
      have hlen : t.length + 1 ≤ gsrv.length := by
        rw [← List.length_cons, ← hdrop]
        exact (List.dropWhile_sublist _).length_le
      rw [hdrop] at h
      cases hcut : cutLast COLON t with
      | none =>
          simp only [hcut] at h
          cases h
          exact ⟨Nat.zero_le _, by omega⟩
      | some p =>
          rcases p with ⟨u, v⟩
          simp only [hcut] at h
          cases h
          have ht := congrArg List.length (cutLast_eq_some hcut).1
          simp only [List.length_append, List.length_cons] at ht ⊢
          omega

theorem length_splitport (dpt : CStr) :
    (splitport dpt).1.length ≤ dpt.length ∧ ∀ p, (splitport dpt).2 = some p → p.length ≤ dpt.length := by
  unfold splitport
  cases hcut : cutAt SP dpt with
  | none =>
      exact ⟨Nat.le_refl _, fun p hp => absurd hp (Option.some_ne_none p).symm⟩
  | some q =>
      rcases q with ⟨u, v⟩
      have hlen := congrArg List.length (cutAt_eq_some.1 hcut).1
      simp only [List.length_append, List.length_cons] at hlen
      refine ⟨by simp only; omega, fun p hp => ?_⟩
      cases hp
      omega

theorem filledPort_ne_nil (port : CStr) : filledPort port ≠ [] := by
  unfold filledPort
  split
  · decide
  · next hport =>
    rw [clip, Ne, List.take_eq_nil_iff, not_or]
    exact ⟨by decide, hport⟩

theorem length_filledPort (hport : port.length < 400) : (filledPort port).length < 1800 := by
  unfold filledPort
  split
  · decide
  · rw [length_clip]
    omega

/-- The deletion of the password empties the cache if that was its only line. -/
theorem writeserver_nil_eq_nil (h : writeserver usern k (ascii "SPASS") [] conf = some conf') (hk : k < 10)
    (hne : conf ≠ []) :
    conf' = [] ↔ ∃ e, conf = [e] ∧ keyOf e = some (spassKey usern k).text := by
  rw [writeserver_eq spass_mem hk] at h
  rcases writeini_written h with ⟨l₁, old, l₂, hconf, hconf', hl₁, hold⟩
  rw [newLine, dataPtr_nil, Option.map_none, Option.toList_none, List.append_nil] at hconf'
  constructor
  · intro hnil
    rw [hconf', List.append_eq_nil_iff] at hnil
    rw [hnil.1, hnil.2, List.nil_append, List.append_nil] at hconf
    rcases hold with ⟨e, hone, hit⟩ | ⟨hnone, _⟩
    · exact ⟨e, hconf.trans hone, (iniHit_iff _).1 hit⟩
    · exact absurd (hconf.trans hnone) hne
  · rintro ⟨e, hone, hkey⟩
    have hit := (iniHit_iff (spassKey usern k)).2 hkey
    rw [hone] at hconf
    rcases hold with ⟨e', hold, _⟩ | ⟨hold, hl₂⟩
    · -- The one line is the one that goes.
      have hlen := congrArg List.length hconf
      rw [hold] at hlen
      simp only [List.length_append, List.length_cons, List.length_nil] at hlen
      have h₁ : l₁ = [] := List.length_eq_zero_iff.1 (by omega)
      have h₂ : l₂ = [] := List.length_eq_zero_iff.1 (by omega)
      rw [hconf', h₁, h₂, List.append_nil]
    · exfalso
      have hmem : e ∈ l₁ ++ l₂ := by
        rw [hold, List.append_nil] at hconf
        rw [← hconf]
        exact List.mem_singleton_self e
      rcases List.mem_append.1 hmem with hmem | hmem
      · exact hl₁ e hmem hit
      · exact hl₂ e hmem hit

/-- What the writing of the password does to the entries. -/
structure PassWritten (usern k : Nat) (pw : Option CStr) (conf conf' : Conf) : Prop where
  attached : conf' ≠ [] ↔ Attached usern k pw conf
  kept : pw = none → serverValue conf' usern (ascii "SPASS") k = serverValue conf usern (ascii "SPASS") k
  pass : ∀ p, pw = some p → p ≠ [] → serverValue conf' usern (ascii "SPASS") k = some (clip 200 p)
  other : ∀ name ∈ serverFields, ∀ n, name ≠ ascii "SPASS" ∨ n ≠ k →
    serverValue conf' usern name n = serverValue conf usern name n

theorem writepass_written (hk : k < 10) (hlen : ∀ p, pw = some p → p.length < 1800) (hne : conf ≠ []) :
    ∃ conf', writepass usern k pw conf = some conf' ∧ PassWritten usern k pw conf conf' := by
  cases pw with
  | none =>
      refine ⟨conf, rfl, ⟨?_, fun _ => rfl, ?_, fun _ _ _ _ => rfl⟩⟩
      · constructor
        · intro _
          refine ⟨hne, fun h => ?_⟩
          cases h
        · exact fun h => h.1
      · intro p hp
        cases hp
  | some p =>
      cases hw : writeserver usern k (ascii "SPASS") p conf with
      | none =>
          exact absurd (writeini_eq_none_iff.1 hw).1 hne
      | some conf' =>
          have hp := hlen p rfl
          refine ⟨conf', hw, ⟨?_, fun h => absurd h (Option.some_ne_none p), ?_, ?_⟩⟩
          · by_cases hnil : p = []
            · subst hnil
              have hgone := writeserver_nil_eq_nil hw hk hne
              constructor
              · intro hleft
                exact ⟨hne, fun _ e hone hkey => hleft (hgone.2 ⟨e, hone, hkey⟩)⟩
              · intro hatt hempty
                rcases hgone.1 hempty with ⟨e, hone, hkey⟩
                exact hatt.2 rfl e hone hkey
            · constructor
              · exact fun _ => ⟨hne, fun h => absurd (Option.some.inj h) hnil⟩
              · exact fun _ => writeserver_ne_nil hnil hw
          · intro p' hp' hne'
            cases hp'
            exact writeserver_reads spass_mem hk hne' hp hw
          · intro name hname n hother
            exact writeserver_other spass_mem hname hk hp hother hw

/-- What a slot holds when it has been filled, and the other slots. -/
structure Filled (usern k : Nat) (pt dpt : CStr) (conf conf' : Conf) : Prop where
  server : pt ≠ [] → serverValue conf' usern (ascii "SERVER") k = some (clip 200 pt)
  port : serverValue conf' usern (ascii "PORT") k = some (clip 200 (filledPort (splitport dpt).1))
  kept : (splitport dpt).2 = none →
    serverValue conf' usern (ascii "SPASS") k = serverValue conf usern (ascii "SPASS") k
  pass : ∀ p, (splitport dpt).2 = some p → p ≠ [] →
    serverValue conf' usern (ascii "SPASS") k = some (clip 200 p)
  other : ∀ name ∈ serverFields, ∀ n, n ≠ k → serverValue conf' usern name n = serverValue conf usern name n

/-- The port and the server are written behind the password. -/
theorem PassWritten.filled {conf₁ conf₂ : Conf} (hk : k < 10) (hpt : pt.length < 400) (hdpt : dpt.length < 400)
    (hpass : PassWritten usern k (splitport dpt).2 conf conf₁)
    (hport : writeserver usern k (ascii "PORT") (filledPort (splitport dpt).1) conf₁ = some conf₂)
    (hserver : writeserver usern k (ascii "SERVER") pt conf₂ = some conf') : Filled usern k pt dpt conf conf' := by
  have hportlen : (filledPort (splitport dpt).1).length < 1800 := by
    apply length_filledPort
    exact Nat.lt_of_le_of_lt (length_splitport dpt).1 hdpt
  have hptlen : pt.length < 1800 := Nat.lt_trans hpt (by decide)
  -- Neither of the two writes touches a password.
  have hspass : serverValue conf' usern (ascii "SPASS") k = serverValue conf₁ usern (ascii "SPASS") k := by
    calc serverValue conf' usern (ascii "SPASS") k = serverValue conf₂ usern (ascii "SPASS") k :=
          writeserver_other server_mem spass_mem hk hptlen (Or.inl (by decide)) hserver
      _ = serverValue conf₁ usern (ascii "SPASS") k :=
          writeserver_other port_mem spass_mem hk hportlen (Or.inl (by decide)) hport
  refine ⟨?_, ?_, ?_, ?_, ?_⟩
  · intro hne
    exact writeserver_reads server_mem hk hne hptlen hserver
  · calc serverValue conf' usern (ascii "PORT") k = serverValue conf₂ usern (ascii "PORT") k :=
          writeserver_other server_mem port_mem hk hptlen (Or.inl (by decide)) hserver
      _ = some (clip 200 (filledPort (splitport dpt).1)) :=
          writeserver_reads port_mem hk (filledPort_ne_nil _) hportlen hport
  · exact fun hnone => hspass.trans (hpass.kept hnone)
  · exact fun p hp hne => hspass.trans (hpass.pass p hp hne)
  · intro name hname n hn
    calc serverValue conf' usern name n = serverValue conf₂ usern name n :=
          writeserver_other server_mem hname hk hptlen (Or.inr hn) hserver
      _ = serverValue conf₁ usern name n := writeserver_other port_mem hname hk hportlen (Or.inr hn) hport
      _ = serverValue conf usern name n := hpass.other name hname n (Or.inr hn)

/-- The slot is filled, or there is no node to go on from. -/
theorem saveserver_cases (hk : k < 10) (hpt : pt.length < 400) (hdpt : dpt.length < 400) :
    (saveserver usern k nick pt dpt sess = none ∧ ¬ Attached usern k (splitport dpt).2 sess.conf) ∨
      ∃ r, saveserver usern k nick pt dpt sess = some r ∧ Attached usern k (splitport dpt).2 sess.conf ∧
        r.result = 0 ∧ r.session.user = sess.user ∧ Filled usern k pt dpt sess.conf r.session.conf := by
  have hport := filledPort_ne_nil (splitport dpt).1
  by_cases hnil : sess.conf = []
  · -- Whatever is done about the password, the port is written to an empty list.
    refine Or.inl ⟨?_, fun h => h.1 hnil⟩
    have hempty : ∀ conf', writepass usern k (splitport dpt).2 sess.conf = some conf' → conf' = [] := by
      intro conf' hw
      rw [hnil] at hw
      cases hpw : (splitport dpt).2 with
      | none =>
          rw [hpw] at hw
          cases hw
          rfl
      | some p =>
          rw [hpw] at hw
          by_cases hp : p = []
          · subst hp
            cases hw
            rfl
          · rw [writepass, (writeserver_eq_none hp).2 rfl] at hw
            cases hw
    cases hw : writepass usern k (splitport dpt).2 sess.conf with
    | none =>
        rw [saveserver, hw, Option.bind_none]
    | some conf' =>
        rw [saveserver, hw, Option.bind_some, (writeserver_eq_none hport).2 (hempty conf' hw), Option.bind_none]
  · have hpasslen : ∀ p, (splitport dpt).2 = some p → p.length < 1800 := by
      intro p hp
      have hle := (length_splitport dpt).2 p hp
      omega
    rcases writepass_written hk hpasslen hnil with ⟨conf₁, hw₁, hpass⟩
    by_cases hleft : conf₁ = []
    · refine Or.inl ⟨?_, fun h => hpass.attached.2 h hleft⟩
      rw [saveserver, hw₁, Option.bind_some, (writeserver_eq_none hport).2 hleft, Option.bind_none]
    · right
      cases hw₂ : writeserver usern k (ascii "PORT") (filledPort (splitport dpt).1) conf₁ with
      | none =>
          exact absurd ((writeserver_eq_none hport).1 hw₂) hleft
      | some conf₂ =>
          cases hw₃ : writeserver usern k (ascii "SERVER") pt conf₂ with
          | none =>
              exact absurd (writeini_eq_none_iff.1 hw₃).1 (writeserver_ne_nil hport hw₂)
          | some conf₃ =>
              rw [saveserver, hw₁, Option.bind_some, hw₂, Option.bind_some, hw₃, Option.map_some]
              exact ⟨_, rfl, hpass.attached.1 hleft, rfl, rfl, hpass.filled hk hpt hdpt hw₂ hw₃⟩

end Save

end PsyBnc
