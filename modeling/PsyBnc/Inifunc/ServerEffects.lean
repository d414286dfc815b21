import PsyBnc.Inifunc.ServerList

/-!
# What the server commands change

A slot that is looked at goes into the record of the user.  `ADDSERVER` leaves there the slot in front of the one that
it fills, and `LISTSERVERS` puts back the server and the port.
-/

namespace PsyBnc

open CLib

/-! ## Which slots are looked at -/

/-- The first free slot from `n` on, or 10. -/
def FirstEmpty (conf : Conf) (usern n f : Nat) : Prop :=
  n ≤ f ∧ f ≤ 10 ∧ (∀ m, n ≤ m → m < f → configured conf usern m = true) ∧ (f < 10 → configured conf usern f = false)

/-- The record after the slots from `n` up to the free slot `f` have been read. -/
def probed (conf : Conf) (usern n f : Nat) (u : UserServer) : UserServer :=
  if n < f then withSlot conf usern (f - 1) u else u

/-- The last configured slot from `n` on. -/
def LastConfigured (conf : Conf) (usern n l : Nat) : Prop :=
  n ≤ l ∧ l < 10 ∧ configured conf usern l = true ∧ ∀ m, l < m → m < 10 → configured conf usern m = false

section Probe

variable {usern n f l k : Nat} {nick ircto irccontent : CStr} {conf : Conf} {u : UserServer} {parts : CStr × CStr}

theorem firstEmpty_unique {f' : Nat} (h : FirstEmpty conf usern n f) (h' : FirstEmpty conf usern n f') : f = f' := by
  have hle : ∀ {f f' : Nat}, FirstEmpty conf usern n f → FirstEmpty conf usern n f' → f ≤ f' := by
    intro f f' hf hf'
    by_contra hlt
    have hconf := hf.2.2.1 f' hf'.1 (Nat.lt_of_not_le hlt)
    have hten : f' < 10 := Nat.lt_of_lt_of_le (Nat.lt_of_not_le hlt) hf.2.1
    rw [hf'.2.2.2 hten] at hconf
    cases hconf
  exact Nat.le_antisymm (hle h h') (hle h' h)

/-- The slot is configured, and the search goes on. -/
theorem FirstEmpty.next (hconf : configured conf usern n = true) (h : FirstEmpty conf usern (n + 1) f) :
    FirstEmpty conf usern n f := by
  rcases h with ⟨hle, hten, hall, hfree⟩
  refine ⟨Nat.le_of_succ_le hle, hten, fun m hm hlt => ?_, hfree⟩
  rcases Nat.eq_or_lt_of_le hm with rfl | hgt
  · exact hconf
  · exact hall m hgt hlt

theorem probed_next (hle : n + 1 ≤ f) :
    probed conf usern (n + 1) f (withSlot conf usern n u) = probed conf usern n f u := by
  unfold probed
  rw [if_pos (Nat.lt_of_succ_le hle)]
  rcases Nat.eq_or_lt_of_le hle with rfl | hlt
  · rw [if_neg (Nat.lt_irrefl _), Nat.add_sub_cancel]
  · rw [if_pos hlt, withSlot_withSlot]

/-- The loop ends at the first free slot, with the record of the slot in front of it. -/
theorem addserverLoop_probes (hsplit : splitserver (clip 400 (ircto ++ COLON :: irccontent)) = some parts) (k : Nat) :
    ∀ n sess, n + k = 10 → ∃ f, FirstEmpty sess.conf usern n f ∧
      addserverLoop usern nick ircto irccontent k n sess =
        if f < 10 then
          saveserver usern f nick parts.1 parts.2 { sess with user := probed sess.conf usern n f sess.user }
        else some ⟨{ sess with user := probed sess.conf usern n f sess.user },
          [serverMessage nick (ascii "No server entry free.")], -1⟩ := by
  induction k with
  | zero =>
      intro n sess hn
      subst hn
      refine ⟨10, ⟨Nat.le_refl _, Nat.le_refl _, fun m hm hlt => absurd hm (Nat.not_le.2 hlt),
        fun h => absurd h (Nat.lt_irrefl _)⟩, ?_⟩
      rw [if_neg (Nat.lt_irrefl _), probed, if_neg (Nat.lt_irrefl _), addserverLoop]
  | succ k ih =>
      intro n sess hn
      rw [addserverLoop, hsplit, Option.bind_some]
      cases hconf : configured sess.conf usern n with
      | true =>
          rw [getserver_of_configured hconf]
          rcases ih (n + 1) { sess with user := withSlot sess.conf usern n sess.user } (by omega)
            with ⟨f, hfirst, hloop⟩
          have hrec := @probed_next usern n f sess.conf sess.user hfirst.1
          refine ⟨f, hfirst.next hconf, hloop.trans ?_⟩
          rw [hrec]
      | false =>
          rw [getserver_of_not_configured hconf]
          refine ⟨n, ⟨Nat.le_refl _, by omega, fun m hm hlt => absurd hm (Nat.not_le.2 hlt), fun _ => hconf⟩, ?_⟩
          rw [if_pos (by omega), probed, if_neg (Nat.lt_irrefl _)]

/-- The list ends with the record of the last configured slot. -/
theorem listserversLoop_probes (k : Nat) :
    ∀ n u, n + k = 10 →
      ((∀ m, n ≤ m → m < 10 → configured conf usern m = false) ∧ (listserversLoop conf usern nick k n u).1 = u) ∨
      ∃ l, LastConfigured conf usern n l ∧ (listserversLoop conf usern nick k n u).1 = withSlot conf usern l u := by
  induction k with
  | zero =>
      intro n u hn
      exact Or.inl ⟨fun m hm hlt => absurd hm (by omega), rfl⟩
  | succ k ih =>
      intro n u hn
      rw [listserversLoop]
      cases hconf : configured conf usern n with
      | true =>
          rw [getserver_of_configured hconf]
          right
          rcases ih (n + 1) (withSlot conf usern n u) (by omega) with ⟨hrest, hrec⟩ | ⟨l, hlast, hrec⟩
          · exact ⟨n, ⟨Nat.le_refl _, by omega, hconf, fun m hm => hrest m hm⟩, hrec⟩
          · exact ⟨l, ⟨Nat.le_of_succ_le hlast.1, hlast.2⟩, hrec.trans withSlot_withSlot⟩
      | false =>
          rw [getserver_of_not_configured hconf]
          rcases ih (n + 1) u (by omega) with ⟨hrest, hrec⟩ | ⟨l, hlast, hrec⟩
          · refine Or.inl ⟨fun m hm hlt => ?_, hrec⟩
            rcases Nat.eq_or_lt_of_le hm with rfl | hgt
            · exact hconf
            · exact hrest m hgt hlt
          · exact Or.inr ⟨l, ⟨Nat.le_of_succ_le hlast.1, hlast.2⟩, hrec⟩

theorem lastConfigured_unique {l' : Nat} (h : LastConfigured conf usern n l) (h' : LastConfigured conf usern n l') :
    l = l' := by
  have hle : ∀ {l l' : Nat}, LastConfigured conf usern n l → LastConfigured conf usern n l' → l ≤ l' := by
    intro l l' hl hl'
    by_contra hlt
    have hfree := hl'.2.2.2 l (Nat.lt_of_not_le hlt) hl.2.1
    rw [hl.2.2.1] at hfree
    cases hfree
  exact Nat.le_antisymm (hle h h') (hle h' h)

end Probe

/-! ## What `ADDSERVER` can do -/

/-- The server is given, and not one of the excluded ones. -/
def Accepted (ircto : CStr) : Prop := ircto ≠ [] ∧ strmwildcmp ircto (ascii "*.eushells.com") = false

/-- What `cmdaddserver` comes to; `none` is a read behind a text of blanks or through the NULL in front of an empty
list. -/
inductive AddOutcome (usern : Nat) (ircto irccontent : CStr) (sess : ServerSession) : Option ServerReply → Prop where
  | refused (line : CStr) : ¬ Accepted ircto → AddOutcome usern ircto irccontent sess (some ⟨sess, [line], -1⟩)
  | blank : Accepted ircto → splitserver (clip 400 (ircto ++ COLON :: irccontent)) = none →
      AddOutcome usern ircto irccontent sess none
  | full {parts : CStr × CStr} (line : CStr) : Accepted ircto →
      splitserver (clip 400 (ircto ++ COLON :: irccontent)) = some parts → FirstEmpty sess.conf usern 1 10 →
      AddOutcome usern ircto irccontent sess
        (some ⟨{ sess with user := probed sess.conf usern 1 10 sess.user }, [line], -1⟩)
  | detached {parts : CStr × CStr} {f : Nat} : Accepted ircto →
      splitserver (clip 400 (ircto ++ COLON :: irccontent)) = some parts → FirstEmpty sess.conf usern 1 f → f < 10 →
      ¬ Attached usern f (splitport parts.2).2 sess.conf → AddOutcome usern ircto irccontent sess none
  | filled {parts : CStr × CStr} {f : Nat} (r : ServerReply) : Accepted ircto →
      splitserver (clip 400 (ircto ++ COLON :: irccontent)) = some parts → FirstEmpty sess.conf usern 1 f → f < 10 →
      Attached usern f (splitport parts.2).2 sess.conf → r.result = 0 →
      r.session.user = probed sess.conf usern 1 f sess.user →
      Filled usern f parts.1 parts.2 sess.conf r.session.conf → AddOutcome usern ircto irccontent sess (some r)

theorem cmdaddserver_outcome (usern : Nat) (nick ircto irccontent : CStr) (sess : ServerSession) :
    AddOutcome usern ircto irccontent sess (cmdaddserver usern nick ircto irccontent sess) := by
  unfold cmdaddserver
  by_cases hnil : ircto = []
  · rw [if_pos hnil]
    exact AddOutcome.refused _ fun h => h.1 hnil
  rw [if_neg hnil]
  by_cases hself : strmwildcmp ircto (ascii "*.eushells.com") = true
  · rw [if_pos hself]
    exact AddOutcome.refused _ fun h => Bool.false_ne_true (h.2.symm.trans hself)
  rw [if_neg hself]
  have hacc : Accepted ircto := ⟨hnil, Bool.eq_false_iff.2 hself⟩
  cases hsplit : splitserver (clip 400 (ircto ++ COLON :: irccontent)) with
  | none =>
      rw [addserverLoop, hsplit, Option.bind_none]
      exact AddOutcome.blank hacc hsplit
  | some parts =>
      rcases parts with ⟨pt, dpt⟩
      rcases @addserverLoop_probes usern nick ircto irccontent (pt, dpt) hsplit 9 1 sess rfl with ⟨f, hfirst, hloop⟩
      rw [hloop]
      by_cases hf : f < 10
      · rw [if_pos hf]
        have hlen := length_clip 400 (ircto ++ COLON :: irccontent)
        have hparts := length_splitserver hsplit
        rcases @saveserver_cases usern f nick pt dpt
          { sess with user := probed sess.conf usern 1 f sess.user } hf (by omega) (by omega)
          with ⟨hnone, hloose⟩ | ⟨r, hr, hatt, hres, huser, hfilled⟩
        · rw [hnone]
          exact AddOutcome.detached hacc hsplit hfirst hf hloose
        · rw [hr]
          exact AddOutcome.filled r hacc hsplit hfirst hf hatt hres huser hfilled
      · rw [if_neg hf]
        have hten : f = 10 := Nat.le_antisymm hfirst.2.1 (Nat.le_of_not_lt hf)
        subst hten
        exact AddOutcome.full _ hacc hsplit hfirst

/-! ## The connection -/

/-- A command as it arrives in `ircto` and `irccontent`. -/
inductive ServerCommand where
  | addserver (ircto irccontent : CStr)
  | delserver (irccontent : CStr)
  | listservers

def ServerCommand.run (usern : Nat) (nick : CStr) : ServerCommand → ServerSession → Option ServerReply
  | .addserver ircto irccontent, sess => cmdaddserver usern nick ircto irccontent sess
  | .delserver irccontent, sess => delserverReply usern nick irccontent sess
  | .listservers, sess => some (cmdlistservers usern nick sess)

/-- Server, port and password are as they were. -/
def SameConnection (u v : UserServer) : Prop := v.server = u.server ∧ v.port = u.port ∧ v.spass = u.spass

/-- The command returns and leaves the connection of the user alone. -/
def LeavesConnection (usern : Nat) (nick : CStr) (cmd : ServerCommand) (sess : ServerSession) : Prop :=
  ∃ r, cmd.run usern nick sess = some r ∧ SameConnection sess.user r.session.user

/-- The slots that a command reads do not show in the record: the one in front of the first free slot is the server
that the user is on, or the last one in the list has his password. -/
def ServerCommand.Harmless (usern : Nat) (sess : ServerSession) : ServerCommand → Prop
  | .addserver ircto irccontent =>
      ¬ Accepted ircto ∨
        ∃ parts, splitserver (clip 400 (ircto ++ COLON :: irccontent)) = some parts ∧
          ∀ f, FirstEmpty sess.conf usern 1 f →
            (f < 10 → Attached usern f (splitport parts.2).2 sess.conf) ∧
              (1 < f → SameConnection sess.user (withSlot sess.conf usern (f - 1) sess.user))
  | .delserver _ => True
  | .listservers => ∀ l, LastConfigured sess.conf usern 1 l → slotPass sess.conf usern l = sess.user.spass

section Connection

variable {usern f : Nat} {nick ircto irccontent : CStr} {sess : ServerSession} {u : UserServer} {conf : Conf}

theorem SameConnection.refl (u : UserServer) : SameConnection u u := ⟨rfl, rfl, rfl⟩

theorem sameConnection_probed :
    SameConnection u (probed conf usern 1 f u) ↔ (1 < f → SameConnection u (withSlot conf usern (f - 1) u)) := by
  unfold probed
  by_cases hf : 1 < f
  · rw [if_pos hf]
    exact ⟨fun h _ => h, fun h => h hf⟩
  · rw [if_neg hf]
    exact ⟨fun _ h => absurd h hf, fun _ => SameConnection.refl u⟩

theorem addserver_leaves_iff :
    LeavesConnection usern nick (.addserver ircto irccontent) sess ↔
      (ServerCommand.addserver ircto irccontent).Harmless usern sess := by
  have hout := cmdaddserver_outcome usern nick ircto irccontent sess
  rw [LeavesConnection, ServerCommand.run, ServerCommand.Harmless]
  generalize hrun : cmdaddserver usern nick ircto irccontent sess = run at hout
  cases hout with
  | refused line hno =>
      exact ⟨fun _ => Or.inl hno, fun _ => ⟨_, rfl, SameConnection.refl sess.user⟩⟩
  | blank hacc hsplit =>
      constructor
      · rintro ⟨r, hr, _⟩
        cases hr
      · rintro (hno | ⟨parts, hparts, _⟩)
        · exact absurd hacc hno
        · rw [hsplit] at hparts
          cases hparts
  | full line hacc hsplit hfull =>
      constructor
      · rintro ⟨r, hr, hsame⟩
        cases hr
        refine Or.inr ⟨_, hsplit, fun f hf => ?_⟩
        rw [firstEmpty_unique hf hfull]
        exact ⟨fun h => absurd h (Nat.lt_irrefl _), sameConnection_probed.1 hsame⟩
      · rintro (hno | ⟨parts, _, hall⟩)
        · exact absurd hacc hno
        · exact ⟨_, rfl, sameConnection_probed.2 (hall 10 hfull).2⟩
  | detached hacc hsplit hfirst hf hloose =>
      constructor
      · rintro ⟨r, hr, _⟩
        cases hr
      · rintro (hno | ⟨parts, hparts, hall⟩)
        · exact absurd hacc hno
        · rw [hsplit] at hparts
          cases hparts
          exact absurd ((hall _ hfirst).1 hf) hloose
  | filled r hacc hsplit hfirst hf hatt _ huser _ =>
      constructor
      · rintro ⟨r', hr, hsame⟩
        cases hr
        rw [huser] at hsame
        refine Or.inr ⟨_, hsplit, fun f hf => ?_⟩
        rw [firstEmpty_unique hf hfirst]
        exact ⟨fun _ => hatt, sameConnection_probed.1 hsame⟩
      · rintro (hno | ⟨parts, _, hall⟩)
        · exact absurd hacc hno
        · refine ⟨r, rfl, ?_⟩
          rw [huser]
          exact sameConnection_probed.2 (hall _ hfirst).2

/-- Nothing is read, and what is deleted is no part of the record. -/
theorem delserver_leaves (usern : Nat) (nick irccontent : CStr) (sess : ServerSession) :
    LeavesConnection usern nick (.delserver irccontent) sess := by
  rw [LeavesConnection, ServerCommand.run, delserverReply]
  by_cases hnil : irccontent = []
  · rw [if_pos hnil]
    exact ⟨_, rfl, SameConnection.refl sess.user⟩
  · have herase : ∀ name conf, ∃ conf', writeini (ascii "SERVERS") (clip 400 (name ++ irccontent))
        (clip 20 (userFile usern)) none conf = some conf' := by
      intro name conf
      apply Option.ne_none_iff_exists'.1
      rw [Ne, writeini_eq_none_iff, dataPtr_none]
      exact fun h => h.2 rfl
    rcases herase (ascii "SPASS") sess.conf with ⟨conf₁, h₁⟩
    rcases herase (ascii "PORT") conf₁ with ⟨conf₂, h₂⟩
    rcases herase (ascii "SERVER") conf₂ with ⟨conf₃, h₃⟩
    rw [if_neg hnil]
    simp only [cmddelserver, if_neg hnil, h₁, h₂, h₃, Option.bind_some, Option.map_some]
    exact ⟨_, rfl, SameConnection.refl sess.user⟩

theorem listservers_leaves_iff (hserver : sess.user.server.length < 255) :
    LeavesConnection usern nick .listservers sess ↔ ServerCommand.listservers.Harmless usern sess := by
  rw [LeavesConnection, ServerCommand.run, ServerCommand.Harmless, cmdlistservers]
  have hback : clip 255 (clip 400 sess.user.server) = sess.user.server := by
    rw [clip_eq_self (Nat.lt_trans hserver (by decide)), clip_eq_self hserver]
  rcases @listserversLoop_probes usern nick sess.conf 9 1 sess.user rfl with ⟨hnone, hrec⟩ | ⟨l, hlast, hrec⟩
  · constructor
    · intro _ l hl
      have hfree := hnone l hl.1 hl.2.1
      rw [hl.2.2.1] at hfree
      cases hfree
    · intro _
      rw [hrec]
      exact ⟨_, rfl, hback, rfl, rfl⟩
  · rw [hrec]
    constructor
    · rintro ⟨r, hr, hsame⟩ l' hl'
      cases hr
      rw [lastConfigured_unique hl' hlast]
      exact hsame.2.2
    · intro hall
      exact ⟨_, rfl, hback, rfl, hall l hlast⟩

end Connection

/-! ## The slot that is added -/

/-- What a user asks for with `ADDSERVER host :port password`: three words, of which the last two may be missing. -/
structure ServerRequest where
  host : CStr
  port : Option Nat
  pass : Option CStr
  host_word : host ≠ [] ∧ SP ∉ host
  port_int : ∀ n ∈ port, n < 2 ^ 31
  pass_word : ∀ p ∈ pass, p ≠ [] ∧ SP ∉ p

namespace ServerRequest

variable (req : ServerRequest)

/-- The port as it is typed. -/
def typedPort : CStr := req.port.elim [] dec

def irccontent : CStr := req.typedPort ++ req.pass.elim [] fun p => SP :: p

/-- The port that is meant. -/
def givenPort : Int := (req.port.getD 6667 : Nat)

/-- What the slot reads as. -/
def entry (u : UserServer) : UserServer :=
  { u with server := req.host, port := req.givenPort, spass := req.pass.getD [] }

/-- The password has a `:`, with the port behind the last one, the host is as long as `value[200]`, and the password
stood in the slot before. -/
def ByChance (stale p : CStr) : Prop :=
  req.host.length = 199 ∧ stale = p ∧ ∀ u v, cutLast COLON p = some (u, v) → atoi (filledPort v) = req.givenPort

/-- The request fits the entries, the password has no `:`, and where none is given there was none. -/
def Fits (stale : CStr) : Prop :=
  req.host.length < 200 ∧ (req.pass = none → stale = []) ∧
    ∀ p ∈ req.pass, p.length < 64 ∧ (COLON ∈ p → req.ByChance stale p)

end ServerRequest

/-- An `ADDSERVER` that succeeds makes one free slot readable as it was given, and every other slot stays. -/
def AddsAsGiven (usern : Nat) (nick : CStr) (req : ServerRequest) (sess : ServerSession) : Prop :=
  ∀ r, cmdaddserver usern nick req.host req.irccontent sess = some r → r.result = 0 →
    ∃ k, 0 < k ∧ configured sess.conf usern k = false ∧
      (∀ u, getserver r.session.conf usern k u = some (req.entry u)) ∧
      ∀ n, n ≠ k → ∀ u, getserver r.session.conf usern n u = getserver sess.conf usern n u

/-- The command comes to fill slot `f`. -/
def Fills (usern : Nat) (ircto irccontent : CStr) (sess : ServerSession) (f : Nat) : Prop :=
  Accepted ircto ∧ FirstEmpty sess.conf usern 1 f ∧ f < 10 ∧
    ∃ parts, splitserver (clip 400 (ircto ++ COLON :: irccontent)) = some parts ∧
      Attached usern f (splitport parts.2).2 sess.conf

section Split

variable {x v p : CStr}

/-- The text is cut at its last `:`. -/
theorem splitserver_last {b : Byte} (hb : b ≠ SP) (hv : COLON ∉ v) (hlen : x.length + v.length < 398) :
    splitserver (clip 400 ((b :: x) ++ COLON :: v)) = some (b :: x, v) := by
  have hfits : ((b :: x) ++ COLON :: v).length < 400 := by
    simp only [List.length_append, List.length_cons]
    omega
  have hhead : ((b :: x) ++ COLON :: v).dropWhile (fun b => b == SP) = b :: (x ++ COLON :: v) := by
    rw [List.cons_append, List.dropWhile_cons_of_neg (by simpa using hb)]
  rw [clip_eq_self hfits, splitserver, hhead]
  simp only [cutLast_append hv]

theorem splitport_word (hv : SP ∉ v) : splitport v = (v, none) := by
  rw [splitport, cutAt_eq_none.2 hv]

theorem splitport_pass (hv : SP ∉ v) : splitport (v ++ SP :: p) = (v, some p) := by
  rw [splitport, cutAt_append hv]

end Split

section Reading

variable {usern k : Nat} {pt dpt port p : CStr} {conf conf' : Conf}

/-- What is read in the slot that has been filled. -/
theorem Filled.reads_server (h : Filled usern k pt dpt conf conf') (hpt : pt ≠ []) :
    configured conf' usern k = true ∧ slotServer conf' usern k = clip 200 pt := by
  have hserver := h.server hpt
  have hlen := length_clip 200 pt
  constructor
  · rw [configured, hserver]
    rfl
  · rw [slotServer, hserver, Option.getD_some]
    apply clip_eq_self
    omega

theorem Filled.reads_port (h : Filled usern k pt dpt conf conf') :
    slotPort conf' usern k = atoi (clip 200 (filledPort (splitport dpt).1)) := by
  rw [slotPort, h.port, Option.elim_some]

theorem Filled.pass_kept (h : Filled usern k pt dpt conf conf') (hpw : (splitport dpt).2 = none) :
    slotPass conf' usern k = slotPass conf usern k := by
  rw [slotPass, h.kept hpw]
  rfl

theorem Filled.pass_new (h : Filled usern k pt dpt conf conf') (hpw : (splitport dpt).2 = some p) (hp : p ≠ []) :
    slotPass conf' usern k = clip 64 p := by
  rw [slotPass, h.pass p hpw hp, Option.getD_some, clip, clip, clip, List.take_take]
  rfl

/-- Every other slot is read as before. -/
theorem Filled.getserver_other (h : Filled usern k pt dpt conf conf') {n : Nat} (hn : n ≠ k) (u : UserServer) :
    getserver conf' usern n u = getserver conf usern n u :=
  getserver_congr fun name hname => h.other name hname n hn

end Reading

namespace ServerRequest

variable (req : ServerRequest)

theorem typedPort_word {b : Byte} (hb : isDigit b = false) : b ∉ req.typedPort := by
  unfold typedPort
  cases req.port with
  | none => exact List.not_mem_nil
  | some n => exact notMem_dec hb

theorem length_typedPort : req.typedPort.length ≤ 10 := by
  unfold typedPort
  cases hport : req.port with
  | none => exact Nat.zero_le _
  | some n =>
      have hn := req.port_int n hport
      exact (length_dec_le (by decide)).2 (by omega)

theorem atoi_typedPort : atoi (clip 200 (filledPort req.typedPort)) = req.givenPort := by
  have hlen := req.length_typedPort
  unfold filledPort givenPort
  cases hport : req.port with
  | none =>
      have hnone : req.typedPort = [] := by
        rw [typedPort, hport]
        rfl
      rw [hnone, if_pos rfl]
      rfl
  | some n =>
      have hsome : req.typedPort = dec n := by
        rw [typedPort, hport]
        rfl
      rw [hsome] at hlen ⊢
      rw [if_neg (dec_ne_nil n), clip_eq_self (Nat.lt_of_le_of_lt hlen (by decide)),
        clip_eq_self (Nat.lt_of_le_of_lt hlen (by decide))]
      exact atoi_decInt n

end ServerRequest

namespace ServerRequest

variable (req : ServerRequest)

/-- A host starts with no blank. -/
theorem host_cons : ∃ b x, req.host = b :: x ∧ b ≠ SP := by
  cases hhost : req.host with
  | nil => exact absurd hhost req.host_word.1
  | cons b x =>
      refine ⟨b, x, rfl, fun hb => req.host_word.2 ?_⟩
      rw [hhost, hb]
      exact List.mem_cons_self

section Cases

variable {req} {p u v : CStr}

theorem split_without (hlen : req.host.length < 200) (hpass : req.pass = none) :
    splitserver (clip 400 (req.host ++ COLON :: req.irccontent)) = some (req.host, req.typedPort) := by
  rcases req.host_cons with ⟨b, x, hhost, hb⟩
  have hport := req.length_typedPort
  rw [irccontent, hpass, Option.elim_none, List.append_nil]
  rw [hhost, List.length_cons] at hlen
  rw [hhost]
  exact splitserver_last hb (req.typedPort_word (by decide)) (by omega)

theorem split_plain (hlen : req.host.length < 200) (hpass : req.pass = some p) (hp : p.length < 64)
    (hplain : COLON ∉ p) :
    splitserver (clip 400 (req.host ++ COLON :: req.irccontent)) = some (req.host, req.typedPort ++ SP :: p) := by
  rcases req.host_cons with ⟨b, x, hhost, hb⟩
  have hport := req.length_typedPort
  have hno : COLON ∉ req.typedPort ++ SP :: p := by
    rw [List.mem_append, List.mem_cons, not_or, not_or]
    exact ⟨req.typedPort_word (by decide), by decide, hplain⟩
  rw [irccontent, hpass, Option.elim_some]
  rw [hhost, List.length_cons] at hlen
  rw [hhost]
  apply splitserver_last hb hno
  rw [List.length_append, List.length_cons]
  omega

/-- With a `:` in the password the host reaches up to it. -/
theorem split_colon (hlen : req.host.length < 200) (hpass : req.pass = some p) (hp : p.length < 64)
    (hcut : cutLast COLON p = some (u, v)) :
    splitserver (clip 400 (req.host ++ COLON :: req.irccontent)) =
      some (req.host ++ COLON :: (req.typedPort ++ SP :: u), v) := by
  rcases req.host_cons with ⟨b, x, hhost, hb⟩
  rcases cutLast_eq_some hcut with ⟨rfl, hv⟩
  have hport := req.length_typedPort
  have htext : req.host ++ COLON :: req.irccontent =
      (b :: (x ++ COLON :: (req.typedPort ++ SP :: u))) ++ COLON :: v := by
    rw [irccontent, hpass, hhost, Option.elim_some]
    simp only [List.append_assoc, List.cons_append]
  rw [hhost, List.length_cons] at hlen
  rw [htext, hhost, List.cons_append]
  apply splitserver_last hb hv
  simp only [List.length_append, List.length_cons] at hp ⊢
  omega

end Cases

end ServerRequest

/-- Cut after 199 bytes, a longer text is its first part only if that has this length. -/
theorem clip_append_eq_left {x t : CStr} {b : Byte} (hx : x.length < 200) :
    clip 200 (x ++ b :: t) = x ↔ x.length = 199 := by
  constructor
  · intro h
    have hlen := congrArg List.length h
    rw [length_clip, List.length_append, List.length_cons] at hlen
    omega
  · intro h
    rw [clip, List.take_append_of_le_length (by omega), List.take_of_length_le (by omega)]

section Adds

variable {usern f k : Nat} {nick ircto irccontent pt dpt : CStr} {conf conf' : Conf} {sess : ServerSession}
  {req : ServerRequest} {r : ServerReply} {parts : CStr × CStr}

/-- How a slot is read, entry by entry. -/
theorem getserver_entry_iff : (∀ u, getserver conf usern k u = some (req.entry u)) ↔ configured conf usern k = true ∧
    slotServer conf usern k = req.host ∧ slotPort conf usern k = req.givenPort ∧
    slotPass conf usern k = req.pass.getD [] := by
  constructor
  · intro h
    have hconf := configured_of_getserver (h ⟨0, [], 0, []⟩)
    have hread := h ⟨0, [], 0, []⟩
    rw [getserver_of_configured hconf, Option.some.injEq] at hread
    exact ⟨hconf, congrArg UserServer.server hread, congrArg UserServer.port hread, congrArg UserServer.spass hread⟩
  · rintro ⟨hconf, hserver, hport, hpass⟩ u
    rw [getserver_of_configured hconf, withSlot, hserver, hport, hpass]
    rfl

theorem fits_without {stale : CStr} (hpass : req.pass = none) :
    req.Fits stale ↔ req.host.length < 200 ∧ stale = [] := by
  constructor
  · exact fun h => ⟨h.1, h.2.1 hpass⟩
  · intro h
    refine ⟨h.1, fun _ => h.2, fun p hp => ?_⟩
    rw [hpass] at hp
    cases hp

theorem fits_with {stale p : CStr} (hpass : req.pass = some p) :
    req.Fits stale ↔ req.host.length < 200 ∧ p.length < 64 ∧ (COLON ∈ p → req.ByChance stale p) := by
  constructor
  · exact fun h => ⟨h.1, h.2.2 p hpass⟩
  · intro h
    refine ⟨h.1, fun hnone => ?_, fun p' hp' => ?_⟩
    · rw [hpass] at hnone
      cases hnone
    · rw [hpass] at hp'
      cases hp'
      exact h.2

/-- Without a password the old one stays. -/
theorem Filled.reads_without (hfilled : Filled usern k parts.1 parts.2 conf conf') (hhost : req.host.length < 200)
    (hsplit : splitserver (clip 400 (req.host ++ COLON :: req.irccontent)) = some parts) (hpass : req.pass = none) :
    (∀ u, getserver conf' usern k u = some (req.entry u)) ↔ req.Fits (slotPass conf usern k) := by
  rw [ServerRequest.split_without hhost hpass, Option.some.injEq] at hsplit
  subst hsplit
  have hword : splitport req.typedPort = (req.typedPort, none) := splitport_word (req.typedPort_word (by decide))
  have hserver := hfilled.reads_server req.host_word.1
  have hport : slotPort conf' usern k = req.givenPort := by
    rw [hfilled.reads_port, hword]
    exact req.atoi_typedPort
  have hkept := hfilled.pass_kept (by rw [hword])
  rw [getserver_entry_iff, fits_without hpass, hkept, hpass, Option.getD_none]
  constructor
  · exact fun h => ⟨hhost, h.2.2.2⟩
  · exact fun h => ⟨hserver.1, hserver.2.trans (clip_eq_self hhost), hport, h.2⟩

/-- A password without a `:` is stored. -/
theorem Filled.reads_plain {p : CStr} (hfilled : Filled usern k parts.1 parts.2 conf conf')
    (hhost : req.host.length < 200)
    (hsplit : splitserver (clip 400 (req.host ++ COLON :: req.irccontent)) = some parts) (hpass : req.pass = some p)
    (hlen : p.length < 64) (hplain : COLON ∉ p) : ∀ u, getserver conf' usern k u = some (req.entry u) := by
  rw [ServerRequest.split_plain hhost hpass hlen hplain, Option.some.injEq] at hsplit
  subst hsplit
  have hword : splitport (req.typedPort ++ SP :: p) = (req.typedPort, some p) :=
    splitport_pass (req.typedPort_word (by decide))
  have hserver := hfilled.reads_server req.host_word.1
  have hport : slotPort conf' usern k = req.givenPort := by
    rw [hfilled.reads_port, hword]
    exact req.atoi_typedPort
  have hnew : slotPass conf' usern k = clip 64 p := by
    apply hfilled.pass_new
    · rw [hword]
    · exact (req.pass_word p hpass).1
  rw [getserver_entry_iff, hpass, Option.getD_some]
  exact ⟨hserver.1, hserver.2.trans (clip_eq_self hhost), hport, hnew.trans (clip_eq_self hlen)⟩

/-- With a `:` in the password the host is too long, and the old password stays. -/
theorem Filled.reads_colon {p u v : CStr} (hfilled : Filled usern k parts.1 parts.2 conf conf')
    (hhost : req.host.length < 200)
    (hsplit : splitserver (clip 400 (req.host ++ COLON :: req.irccontent)) = some parts) (hpass : req.pass = some p)
    (hlen : p.length < 64) (hcut : cutLast COLON p = some (u, v)) :
    (∀ u, getserver conf' usern k u = some (req.entry u)) ↔ req.ByChance (slotPass conf usern k) p := by
  rw [ServerRequest.split_colon hhost hpass hlen hcut, Option.some.injEq] at hsplit
  subst hsplit
  rcases cutLast_eq_some hcut with ⟨htext, hv⟩
  have hword : splitport v = (v, none) := by
    apply splitport_word
    intro hblank
    apply (req.pass_word p hpass).2
    rw [htext]
    exact List.mem_append_right _ (List.mem_cons_of_mem _ hblank)
  have hfit : (filledPort v).length < 200 := by
    have hlens := congrArg List.length htext
    rw [List.length_append, List.length_cons] at hlens
    unfold filledPort
    split
    · decide
    · rw [length_clip]
      omega
  have hserver := hfilled.reads_server (List.append_ne_nil_of_left_ne_nil req.host_word.1 _)
  have hport : slotPort conf' usern k = atoi (filledPort v) := by
    rw [hfilled.reads_port, hword, clip_eq_self hfit]
  have hkept := hfilled.pass_kept (by rw [hword])
  rw [getserver_entry_iff, hkept, hserver.2, hport, clip_append_eq_left hhost, hpass, Option.getD_some]
  constructor
  · rintro ⟨_, h199, hnum, hold⟩
    refine ⟨h199, hold, fun u' v' hcut' => ?_⟩
    rw [hcut] at hcut'
    cases hcut'
    exact hnum
  · rintro ⟨h199, hold, hnum⟩
    exact ⟨hserver.1, h199, hnum u v hcut, hold⟩

/-- The filled slot reads as the request, if that fits. -/
theorem Filled.reads_iff (hfilled : Filled usern k parts.1 parts.2 conf conf')
    (hsplit : splitserver (clip 400 (req.host ++ COLON :: req.irccontent)) = some parts) :
    (∀ u, getserver conf' usern k u = some (req.entry u)) ↔ req.Fits (slotPass conf usern k) := by
  -- What is too long for the record is never read.
  by_cases hhost : req.host.length < 200
  swap
  · exact ⟨fun h => absurd (getserver_fits (h ⟨0, [], 0, []⟩)).1 hhost, fun h => absurd h.1 hhost⟩
  cases hpass : req.pass with
  | none => exact hfilled.reads_without hhost hsplit hpass
  | some p =>
      rw [fits_with hpass]
      by_cases hlen : p.length < 64
      swap
      · constructor
        · intro h
          have hread := (getserver_fits (h ⟨0, [], 0, []⟩)).2
          rw [ServerRequest.entry, hpass] at hread
          exact absurd hread hlen
        · exact fun h => absurd h.2.1 hlen
      cases hcut : cutLast COLON p with
      | none =>
          have hplain := cutLast_eq_none.1 hcut
          constructor
          · exact fun _ => ⟨hhost, hlen, fun hcolon => absurd hcolon hplain⟩
          · exact fun _ => hfilled.reads_plain hhost hsplit hpass hlen hplain
      | some q =>
          have hcolon : COLON ∈ p := by
            rw [(cutLast_eq_some hcut).1]
            exact List.mem_append_right _ List.mem_cons_self
          rw [hfilled.reads_colon hhost hsplit hpass hlen hcut]
          constructor
          · exact fun h => ⟨hhost, hlen, fun _ => h⟩
          · exact fun h => h.2.2 hcolon

/-- When the command comes to fill a slot it succeeds. -/
theorem cmdaddserver_of_fills (nick : CStr) (h : Fills usern ircto irccontent sess f) :
    ∃ r parts, cmdaddserver usern nick ircto irccontent sess = some r ∧ r.result = 0 ∧
      splitserver (clip 400 (ircto ++ COLON :: irccontent)) = some parts ∧
      Filled usern f parts.1 parts.2 sess.conf r.session.conf := by
  rcases h with ⟨hacc, hfirst, hf, parts, hsplit, hatt⟩
  have hout := cmdaddserver_outcome usern nick ircto irccontent sess
  generalize hrun : cmdaddserver usern nick ircto irccontent sess = run at hout
  cases hout with
  | refused line hno =>
      exact absurd hacc hno
  | blank _ hnone =>
      rw [hsplit] at hnone
      cases hnone
  | full line _ _ hfull =>
      rw [firstEmpty_unique hfirst hfull] at hf
      exact absurd hf (Nat.lt_irrefl _)
  | detached _ hsplit' hfirst' _ hloose =>
      rw [hsplit] at hsplit'
      cases hsplit'
      rw [firstEmpty_unique hfirst hfirst'] at hatt
      exact absurd hatt hloose
  | filled r _ hsplit' hfirst' _ _ hres _ hfilled =>
      rw [firstEmpty_unique hfirst hfirst']
      exact ⟨r, _, rfl, hres, hsplit', hfilled⟩

/-- It succeeds in no other way. -/
theorem fills_of_success (h : cmdaddserver usern nick ircto irccontent sess = some r) (hres : r.result = 0) :
    ∃ f parts, Fills usern ircto irccontent sess f ∧
      splitserver (clip 400 (ircto ++ COLON :: irccontent)) = some parts ∧
      Filled usern f parts.1 parts.2 sess.conf r.session.conf := by
  have hout := cmdaddserver_outcome usern nick ircto irccontent sess
  rw [h] at hout
  cases hout with
  | refused line _ => cases hres
  | full line _ _ _ => cases hres
  | filled _ hacc hsplit hfirst hf hatt _ _ hfilled =>
      exact ⟨_, _, ⟨hacc, hfirst, hf, _, hsplit, hatt⟩, hsplit, hfilled⟩

theorem addsAsGiven_iff : AddsAsGiven usern nick req sess ↔
    ∀ f, Fills usern req.host req.irccontent sess f → req.Fits (slotPass sess.conf usern f) := by
  constructor
  · intro hadds f hfills
    have hfree := hfills.2.1.2.2.2 hfills.2.2.1
    rcases cmdaddserver_of_fills nick hfills with ⟨r, parts, hrun, hres, hsplit, hfilled⟩
    rcases hadds r hrun hres with ⟨k, _, hempty, hreads, _⟩
    have hk : k = f := by
      by_contra hne
      have hread := hreads ⟨0, [], 0, []⟩
      rw [hfilled.getserver_other hne, getserver_of_not_configured hempty] at hread
      cases hread
    subst hk
    exact (hfilled.reads_iff hsplit).1 hreads
  · intro hfits r hrun hres
    rcases fills_of_success hrun hres with ⟨f, parts, hfills, hsplit, hfilled⟩
    refine ⟨f, hfills.2.1.1, hfills.2.1.2.2.2 hfills.2.2.1, ?_, fun n hn u => hfilled.getserver_other hn u⟩
    exact (hfilled.reads_iff hsplit).2 (hfits f hfills)

/-- The commands leave the connection alone unless a slot they read shows in the record, and a server that is added
reads as it was given if it fits. -/
theorem server_commands_iff (usern : Nat) (nick : CStr) (sess : ServerSession)
    (hserver : sess.user.server.length < 255) :
    (∀ cmd : ServerCommand, LeavesConnection usern nick cmd sess ↔ cmd.Harmless usern sess) ∧
      ∀ req : ServerRequest, AddsAsGiven usern nick req sess ↔
        ∀ f, Fills usern req.host req.irccontent sess f → req.Fits (slotPass sess.conf usern f) := by
  refine ⟨fun cmd => ?_, fun req => addsAsGiven_iff⟩
  cases cmd with
  | addserver ircto irccontent => exact addserver_leaves_iff
  | delserver irccontent => exact ⟨fun _ => True.intro, fun _ => delserver_leaves usern nick irccontent sess⟩
  | listservers => exact listservers_leaves_iff hserver

end Adds

/-! ## A user with two servers -/

/-- Connected to the first server; there is a password for the second one, and one left in slot 3. -/
def twoServers : ServerSession where
  conf := [ascii "USER1.SERVERS.SERVER1=irc.one.net", ascii "USER1.SERVERS.PORT1=6667",
    ascii "USER1.SERVERS.SERVER2=irc.two.net", ascii "USER1.SERVERS.PORT2=6697", ascii "USER1.SERVERS.SPASS2=secret",
    ascii "USER1.SERVERS.SPASS3=old"]
  user := ⟨1, ascii "irc.one.net", 6667, []⟩
  delayed := 0

theorem thirdServer_host : ascii "irc.three.net" ≠ [] ∧ SP ∉ ascii "irc.three.net" := by decide

theorem thirdServer_port : ∀ n ∈ some 6667, n < 2 ^ 31 := by decide

theorem thirdServer_pass : ∀ p ∈ (none : Option CStr), p ≠ [] ∧ SP ∉ p := by simp

/-- `ADDSERVER irc.three.net :6667`. -/
def thirdServer : ServerRequest where
  host := ascii "irc.three.net"
  port := some 6667
  pass := none
  host_word := thirdServer_host
  port_int := thirdServer_port
  pass_word := thirdServer_pass

/-- The conditions are those of the session at hand. -/
theorem server_commands_two :
    twoServers.user.server.length < 255 ∧
      (∀ cmd : ServerCommand, LeavesConnection 1 (ascii "bob") cmd twoServers ↔ cmd.Harmless 1 twoServers) ∧
        ∀ req : ServerRequest, AddsAsGiven 1 (ascii "bob") req twoServers ↔
          ∀ f, Fills 1 req.host req.irccontent twoServers f → req.Fits (slotPass twoServers.conf 1 f) :=
  ⟨by decide, server_commands_iff 1 (ascii "bob") twoServers (by decide)⟩

/-- The user is on the first server.  Adding a third one makes the second the current one, the list gives him its
password, and the new server has the password that was left in its slot. -/
theorem addserver_moves_user :
    ¬ LeavesConnection 1 (ascii "bob") (.addserver (ascii "irc.three.net") (ascii "6667")) twoServers ∧
      ¬ LeavesConnection 1 (ascii "bob") .listservers twoServers ∧
        ¬ AddsAsGiven 1 (ascii "bob") thirdServer twoServers := by
  have hadd : ((cmdaddserver 1 (ascii "bob") (ascii "irc.three.net") (ascii "6667") twoServers).map fun r =>
      (r.session.user, r.result)) = some (⟨1, ascii "irc.two.net", 6697, ascii "secret"⟩, 0) := by
    decide +kernel
  have hlist : (cmdlistservers 1 (ascii "bob") twoServers).session.user.spass = ascii "secret" := by
    decide +kernel
  have hread : ((cmdaddserver 1 (ascii "bob") (ascii "irc.three.net") (ascii "6667") twoServers).bind fun r =>
      getserver r.session.conf 1 3 twoServers.user) = some ⟨1, ascii "irc.three.net", 6667, ascii "old"⟩ := by
    decide +kernel
  refine ⟨?_, ?_, ?_⟩
  · rintro ⟨r, hrun, hsame⟩
    rw [show cmdaddserver 1 (ascii "bob") (ascii "irc.three.net") (ascii "6667") twoServers = some r from hrun,
      Option.map_some, Option.some.injEq, Prod.mk.injEq] at hadd
    rw [hadd.1] at hsame
    exact absurd hsame.1 (by decide)
  · rintro ⟨r, hrun, hsame⟩
    cases hrun
    have hpass := hsame.2.2
    rw [hlist] at hpass
    exact absurd hpass (by decide)
  · intro hadds
    rcases Option.map_eq_some_iff.1 hadd with ⟨r, hrun, heq⟩
    rcases hadds r hrun (congrArg Prod.snd heq) with ⟨k, _, hfree, hreads, hother⟩
    rw [hrun, Option.bind_some] at hread
    by_cases hk : k = 3
    · subst hk
      rw [hreads, Option.some.injEq] at hread
      exact absurd (congrArg UserServer.spass hread) (by decide)
    · have hempty : getserver twoServers.conf 1 3 twoServers.user = none := by decide +kernel
      rw [hother 3 (fun h => hk h.symm), hempty] at hread
      cases hread

end PsyBnc
