import PsyBnc.Network.Retell
import PsyBnc.Network.AddToken
import PsyBnc.Server.Op
import PsyBnc.Server.Told

/-!
# What a client is shown of a network

`addtoken` turns the line of an event on the network into the line of the event as it is retold.
-/

namespace PsyBnc

open CLib

/-! ## The source of a line -/

section Header

variable {v y rest r s t u : CStr} {ws : List CStr}

/-- A word that is not in the header stands behind the colon. -/
theorem behind_header (hv : SP ∉ v) (hne : ∃ b ∈ v.head?, b ≠ COLON) (hws : ∀ w ∈ ws, SP ∉ w ∧ w ≠ v)
    (h : lead SP (SP :: COLON :: r) ws = u ++ SP :: (v ++ SP :: t)) : (lead SP [] ws).length + 1 < u.length := by
  induction ws generalizing u with
  | nil =>
      rw [lead_nil, List.length_nil]
      cases u with
      | nil =>
          rcases hne with ⟨b, hb, hcolon⟩
          cases v with
          | nil => cases hb
          | cons c v =>
              rw [lead_nil, List.nil_append, List.cons.injEq, List.cons_append, List.cons.injEq] at h
              exact absurd ((Option.some.inj hb).symm.trans h.2.1.symm) hcolon
      | cons b u =>
          cases u with
          | nil =>
              rw [lead_nil, List.cons_append, List.nil_append, List.cons.injEq, List.cons.injEq] at h
              exact absurd h.2.1 (by decide)
          | cons c u =>
              simp only [List.length_cons]
              omega
  | cons w ws ih =>
      rw [List.forall_mem_cons] at hws
      rw [lead_cons] at h ⊢
      -- What stands behind the word `w` begins with a blank.
      have hstep : ∃ z, lead SP (SP :: COLON :: r) ws = SP :: z := by
        cases ws with
        | nil => exact ⟨_, rfl⟩
        | cons w' ws => exact ⟨_, rfl⟩
      cases u with
      | nil =>
          rcases hstep with ⟨z, hz⟩
          rw [List.nil_append, List.cons.injEq, hz] at h
          exact absurd (append_cons_inj_of_notMem hws.1.1 hv h.2).1 hws.1.2
      | cons b u =>
          rw [List.cons_append, List.cons.injEq] at h
          -- the blank in front of `v` is not in the word `w`
          rcases List.append_eq_append_iff.1 h.2 with ⟨u', rfl, hrest⟩ | ⟨u', hw, hrest⟩
          · have hlt := ih hws.2 hrest
            simp only [List.length_cons, List.length_append]
            omega
          · cases u' with
            | nil =>
                rw [List.append_nil] at hw
                rw [List.nil_append] at hrest
                have hlt := ih hws.2 (u := []) hrest.symm
                exact absurd hlt (Nat.not_lt_zero _)
            | cons c u' =>
                rw [List.cons_append, List.cons.injEq] at hrest
                have hsp : SP ∈ w := by
                  rw [hw, hrest.1]
                  exact List.mem_append_right _ List.mem_cons_self
                exact absurd hsp hws.1.1

theorem firstColon_le {z : CStr} (b : Byte) : ∃ c ∈ firstColon (b :: (z ++ COLON :: r)), c ≤ z.length + 1 := by
  cases hcut : cutAt COLON (z ++ COLON :: r) with
  | none => exact absurd (List.mem_append_right z List.mem_cons_self) (cutAt_eq_none.1 hcut)
  | some q =>
      rcases q with ⟨x, x'⟩
      rcases cutAt_eq_some.1 hcut with ⟨heq, hx⟩
      refine ⟨x.length + 1, ?_, ?_⟩
      · rw [firstColon, List.drop_succ_cons, List.drop_zero, hcut]
        rfl
      · apply Nat.succ_le_succ
        by_contra hlt
        -- the first colon does not stand behind another one
        have hpre : z ++ [COLON] <+: x := by
          apply @List.prefix_of_prefix_length_le _ _ _ (z ++ COLON :: r)
          · exact (List.prefix_append_right_inj z).2 ⟨r, rfl⟩
          · rw [heq]
            exact List.prefix_append _ _
          · rw [List.length_append, List.length_singleton]
            exact Nat.lt_of_not_le hlt
        exact hx (hpre.subset (List.mem_append_right _ List.mem_cons_self))

/-- The loop leaves a line alone that has the nick nowhere in its header. -/
theorem loop_quiet (parent r : CStr) (hv : SP ∉ v) (hne : ∃ b ∈ v.head?, b ≠ COLON) (hy : SP ∉ y)
    (hws : ∀ w ∈ ws, SP ∉ w ∧ w ≠ v) :
    parentnickLoop (SP :: (v ++ [SP])) parent (firstColon (COLON :: (y ++ lead SP (SP :: COLON :: r) ws))) 8192 0
      (COLON :: (y ++ lead SP (SP :: COLON :: r) ws)) = some (COLON :: (y ++ lead SP (SP :: COLON :: r) ws)) := by
  cases hcut : cutStr (SP :: (v ++ [SP])) ((COLON :: (y ++ lead SP (SP :: COLON :: r) ws)).drop (0 + 1)) with
  | none => exact loop_none hcut
  | some q =>
      rcases q with ⟨u, t⟩
      have hskip := cutStr_skip (p := v ++ [SP]) (s := lead SP (SP :: COLON :: r) ws) hy
      rw [Nat.zero_add, List.drop_succ_cons, List.drop_zero, hskip] at hcut
      rcases Option.map_eq_some_iff.1 hcut with ⟨⟨u', t'⟩, hfound, heq⟩
      cases heq
      have hsplit := (cutStr_first hfound).1
      rw [List.append_assoc, List.cons_append, List.append_assoc, List.singleton_append] at hsplit
      have hlt := behind_header hv hne hws hsplit
      have hfirst : COLON :: (y ++ lead SP (SP :: COLON :: r) ws) =
          COLON :: (y ++ lead SP [SP] ws ++ COLON :: r) := by
        rw [List.append_assoc, ← lead_append_end]
        rfl
      rcases @firstColon_le r (y ++ lead SP [SP] ws) COLON with ⟨c, hc, hle⟩
      rw [← hfirst] at hc
      apply loop_stop
      · rw [Nat.zero_add, List.drop_succ_cons, List.drop_zero, hskip, hfound]
        rfl
      · refine ⟨c, hc, ?_⟩
        have hlen : (lead SP [SP] ws).length = (lead SP [] ws).length + 1 := by
          rw [← List.nil_append [SP], lead_append_end, List.length_append, List.length_singleton]
        rw [List.length_append, hlen] at hle
        simp only [List.length_append]
        omega

end Header

/-! ## The account -/

/-- What stays the same of the account of a network; with `salt` the lists can be deciphered. -/
structure NetAccount where
  usern : Nat
  uparent : Nat
  network : CStr
  parentnick : CStr
  wantnick : CStr
  chantypes : CStr
  bans : List CStr
  aops : List CStr
  salt : Salt
  usern_le : usern ≤ 10000
  uparent_ne : uparent ≠ 0
  network_lt : network.length < 10
  parentnick_lt : parentnick.length < 64
  wantnick_lt : wantnick.length < 64

theorem clip_nick_lt (s : CStr) : (clip 64 s).length < 64 := by
  rw [length_clip]
  omega

/-- `user(usern)` with the nick and the modes that the session has. -/
def NetAccount.user (a : NetAccount) (s : UserSession) : TokenUser where
  net :=
    { uparent := a.uparent
      nick := clip 64 s.nick
      parentnick := a.parentnick
      wantnick := a.wantnick
      nick_lt := clip_nick_lt s.nick
      parentnick_lt := a.parentnick_lt
      wantnick_lt := a.wantnick_lt }
  network := a.network
  grammar := ⟨s.user.prefixmodes, s.user.prefixchars, s.user.chanmodes⟩
  chantypes := a.chantypes
  network_lt := a.network_lt

/-- `srinit` after a line: the replies to a registration begin with 001 and end with 376. -/
def initAfter (srinit : Bool) (irc : Parsed) : Bool :=
  if ifcommand irc (ascii "001") then true
  else if ifcommand irc (ascii "376") then false
  else srinit

/-- `ircbuf` as `serverinit` leaves it for a network: 001 and 005 are taken out of it. -/
def initLine (srinit : Bool) (irc : Parsed) (ircbuf : CStr) : CStr :=
  if ifcommand irc (ascii "001") ∨ srinit = true ∧ ifcommand irc (ascii "005") then [] else ircbuf

/-- `ircto` after `checkbans` and `checkautoop`, each of which can turn it into upper case; what they
send is left out. -/
def NetAccount.checkjoin (a : NetAccount) (ircfrom ircto : CStr) : Option CStr :=
  (checkstrings a.salt ircfrom a.bans ircto).bind fun banned =>
    (checkstrings a.salt ircfrom a.aops banned.2).map fun opped => opped.2

/-- The parts of a line as the handler of the command leaves them: somebody who joins is looked up in the lists. -/
def NetAccount.handled (a : NetAccount) (s : UserSession) (irc : Parsed) : Option Parsed :=
  if ifcommand irc (ascii "JOIN") ∧ strmcmp s.nick irc.ircnick = false then
    (a.checkjoin irc.ircfrom irc.ircto).map fun ircto => { irc with ircto := ircto }
  else some irc

/-- The lines that a connected client gets for a line of the network about who is where, without their ends; `s` is the
session after the handler of the command.  An ERROR and a reply to the bouncer's own WHO are not passed on. -/
def NetAccount.shows (a : NetAccount) (srinit : Bool) (old : CStr) (s : UserSession) (ircbuf : CStr) :
    Option (List CStr) :=
  let irc := parse ircbuf
  if ifcommand irc (ascii "ERROR") ∨ ifcommand irc (ascii "352") ∧ s.triggered = 0 then some []
  else
    (a.handled s irc).bind fun left =>
      (addtoken a.usern (a.user s) left old (initLine srinit irc ircbuf)).map fun q =>
        (q.sent ++ if q.ircbuf = [] then [] else [q.ircbuf]).map lineOf

/-- The account of the network with the token `tok`, and the user's nick there. -/
structure NetAccount.Fits (a : NetAccount) (tok pa me : CStr) (s : UserSession) : Prop where
  network : a.network = tok
  parentnick : a.parentnick = pa
  types : ∀ b ∈ a.chantypes, b ∈ ascii "#&+!"
  int : tok ≠ ascii "int"
  lists : ∀ entry ∈ a.bans ++ a.aops, (opString a.salt entry).isSome = true
  nick : s.nick = me
  short : me.length < 64

section Account

variable {a : NetAccount} {tok pa all me sender rest old : CStr} {s : UserSession} {irc : Parsed}

namespace NetAccount.Fits

theorem user_nick (h : a.Fits tok pa me s) : (a.user s).net.nick = me := by
  have hnick : (a.user s).net.nick = clip 64 s.nick := rfl
  rw [hnick, h.nick, clip_eq_self h.short]

theorem user_parent (h : a.Fits tok pa me s) : (a.user s).net.parentnick = pa := h.parentnick

theorem caller (h : a.Fits tok pa me s) :
    (a.user s).caller a.usern =
      ⟨me, ⟨s.user.prefixmodes, s.user.prefixchars, s.user.chanmodes⟩, a.chantypes, tok, pa⟩ := by
  have hnet : clip 20 a.network = tok := by
    rw [clip_eq_self (Nat.lt_trans a.network_lt (by decide)), h.network]
  have hpa : clip 64 a.parentnick = pa := by
    rw [clip_eq_self a.parentnick_lt, h.parentnick]
  have hcaller : (a.user s).caller a.usern =
      ⟨(a.user s).net.nick, (a.user s).grammar, a.chantypes, clip 20 a.network, clip 64 a.parentnick⟩ :=
    if_neg (Nat.not_lt.2 a.usern_le)
  rw [hcaller, h.user_nick, hnet, hpa]
  rfl

/-- The checks of a join keep the channel up to the case of its letters. -/
theorem checkjoin_case (h : a.Fits tok pa me s) (ircfrom chan : CStr) :
    ∃ c, ucase c = ucase chan ∧ a.checkjoin ircfrom chan = some c := by
  rcases checkstrings_eq ircfrom a.bans (fun e he => h.lists e (List.mem_append_left _ he)) chan with
    ⟨c, hbans, hc⟩
  rcases checkstrings_eq ircfrom a.aops (fun e he => h.lists e (List.mem_append_right _ he)) c with
    ⟨c', haops, hc'⟩
  refine ⟨c', hc'.trans hc, ?_⟩
  rw [NetAccount.checkjoin, hbans, Option.bind_some, haops]
  rfl

/-- The parts of a JOIN when it was looked up. -/
theorem handled_join (h : a.Fits tok pa me s) (n ircfrom chan : CStr) :
    ∃ c, ucase c = ucase chan ∧ ∀ irc : Parsed, irc.ircnick = n → irc.ircfrom = ircfrom → irc.ircto = chan →
      ifcommand irc (ascii "JOIN") = true → a.handled s irc = some { irc with ircto := c } := by
  by_cases hown : strmcmp s.nick n = true
  · refine ⟨chan, rfl, ?_⟩
    rintro irc rfl _ rfl _
    rw [NetAccount.handled, if_neg]
    exact fun hno => Bool.false_ne_true (hno.2.symm.trans hown)
  · rcases h.checkjoin_case ircfrom chan with ⟨c, hcase, hcheck⟩
    refine ⟨c, hcase, ?_⟩
    rintro irc rfl rfl rfl hjoin
    rw [NetAccount.handled, if_pos ⟨hjoin, Bool.eq_false_of_not_eq_true hown⟩, hcheck]
    rfl

end NetAccount.Fits

/-- How the user is called on the network and by the client. -/
structure Called (me pa : CStr) : Prop where
  own : NickText me ∧ me.length < 64 ∧ (∃ b ∈ me.head?, b ≠ COLON) ∧ BANG ∉ me
  parent : NickText pa ∧ pa.length < 64 ∧ pa ≠ []
  /-- The two nicks do not differ in their case only. -/
  apart : ucase me = ucase pa → me = pa

theorem strmncasecmp_false {one two : CStr} : strmncasecmp one two = false ↔ ucase one ≠ ucase two := by
  rw [← Bool.not_eq_true, not_iff_not]
  exact strmncasecmp_iff

/-- What `parentnick` does with the user of an account. -/
theorem parentnick_account (hfit : a.Fits tok pa me s) (hc : Called me pa) (line : CStr) :
    ∃ net, parentnick a.usern (a.user s).net line =
      (if me = pa then some line else parentLine me pa line).map fun l => (l, net) := by
  have hnamed : ((a.user s).net.named line).parentnick = pa := by
    rw [NetworkUser.named, if_neg]
    · exact hfit.user_parent
    · rw [hfit.user_parent]
      exact fun h => hc.parent.2.2 h.2.1
  have heq := @parentnick_eq line (a.user s).net a.usern a.usern_le a.uparent_ne
  rw [hfit.user_nick, hfit.user_parent, hnamed] at heq
  have hcase : (if strmncasecmp me pa then some line else parentLine me pa line) =
      if me = pa then some line else parentLine me pa line := by
    by_cases hme : me = pa
    · rw [if_pos hme, if_pos (strmncasecmp_iff.2 (congrArg ucase hme))]
    · rw [if_neg hme, if_neg fun h => hme (hc.apart (strmncasecmp_iff.1 h))]
  rw [hcase] at heq
  cases hcode : parentnick a.usern (a.user s).net line with
  | none =>
      rw [hcode, Option.map_none] at heq
      exact ⟨(a.user s).net, by rw [← heq]; rfl⟩
  | some q =>
      rw [hcode, Option.map_some] at heq
      exact ⟨q.2, by rw [← heq]; rfl⟩

/-- The sender after `parentnick`: the user's own nick is replaced. -/
theorem parentSource_word (hc : Called me pa) (hlen : (COLON :: (sender ++ SP :: rest)).length < 8000) :
    ∃ y, parentSource me pa (COLON :: (sender ++ SP :: rest)) = COLON :: (y ++ SP :: rest) ∧
      (SP ∉ sender → SP ∉ y) ∧ (BANG ∉ sender → y = sender) := by
  rw [parentSource, clip_sourceText hc.own.2.1]
  cases hcut : afterPrefix (COLON :: (me ++ [EXCL])) (COLON :: (sender ++ SP :: rest)) with
  | none => exact ⟨sender, rfl, id, fun _ => rfl⟩
  | some pt =>
      have heq := afterPrefix_eq_some.1 hcut
      rw [List.cons_append, List.cons.injEq, List.append_assoc, List.singleton_append] at heq
      -- the nick and the `!` are in the sender
      have hpre : me ++ [EXCL] <+: sender := by
        have hwhole : me ++ [EXCL] <+: sender ++ SP :: rest := ⟨pt, by rw [heq.2]; simp⟩
        rcases Nat.le_total (me ++ [EXCL]).length sender.length with hle | hle
        · exact List.prefix_of_prefix_length_le hwhole (List.prefix_append _ _) hle
        · have hsender : sender <+: me ++ [EXCL] :=
            List.prefix_of_prefix_length_le (List.prefix_append _ _) hwhole hle
          rcases hsender with ⟨z, hz⟩
          cases z with
          | nil =>
              rw [List.append_nil] at hz
              rw [← hz]
          | cons b z =>
              have hb : b = SP := by
                rcases hwhole with ⟨z', hz'⟩
                rw [← hz, List.append_assoc, List.append_right_inj, List.cons_append, List.cons.injEq] at hz'
                exact hz'.1
              have hmem : SP ∈ me ++ [EXCL] := by
                rw [← hz, hb]
                exact List.mem_append_right _ List.mem_cons_self
              rcases List.mem_append.1 hmem with hmem | hmem
              · exact absurd hmem hc.own.1.1
              · exact absurd (List.mem_singleton.1 hmem) (by decide)
      rcases hpre with ⟨mask, rfl⟩
      -- What stands behind the nick is the rest of the sender, and then the line.
      have hpt : pt = mask ++ SP :: rest := by
        have h2 := heq.2
        rw [List.append_assoc, List.append_assoc, List.append_right_inj, List.singleton_append, List.cons.injEq] at h2
        exact h2.2.symm
      refine ⟨pa ++ EXCL :: mask, ?_, ?_, ?_⟩
      · dsimp only
        rw [clip_eq_self]
        · rw [hpt]
          simp
        · have hshort := hc.parent.2.1
          rw [hpt]
          simp only [List.length_cons, List.length_append, List.length_nil] at hlen ⊢
          omega
      · intro hsp
        rw [List.mem_append, List.mem_cons, not_or, not_or]
        refine ⟨hc.parent.1.1, by decide, fun hmem => hsp ?_⟩
        exact List.mem_append_right _ hmem
      · intro hbang
        exact absurd (List.mem_append_left _ (List.mem_append_right _ List.mem_cons_self)) hbang

/-- Whatever becomes of the line, it goes on beginning with a word behind a colon. -/
theorem parentnick_source (hfit : a.Fits tok pa me s) (hc : Called me pa) (hsender : SP ∉ sender)
    (hlen : (COLON :: (sender ++ SP :: rest)).length < 8000) :
    ∃ y rest' net, parentnick a.usern (a.user s).net (COLON :: (sender ++ SP :: rest)) =
      some (COLON :: (y ++ SP :: rest'), net) ∧ SP ∉ y := by
  rcases parentnick_account hfit hc (COLON :: (sender ++ SP :: rest)) with ⟨net, hcode⟩
  rw [hcode]
  by_cases hme : me = pa
  · rw [if_pos hme]
    exact ⟨sender, rest, net, rfl, hsender⟩
  · rw [if_neg hme]
    rcases parentSource_word hc hlen with ⟨y, hsource, hy, _⟩
    have hlong : (COLON :: (sender ++ SP :: rest)).length < 8192 := Nat.lt_trans hlen (by decide)
    have hB := @length_parentSource me pa _ hlong
    rcases @parentLine_returns me pa _ hlong with ⟨out, hout, _⟩
    rw [hout]
    rw [parentLine, if_neg (by rw [hsource]; simp)] at hout
    have hword : SP ∉ ((parentSource me pa (COLON :: (sender ++ SP :: rest))).drop (0 + 1)).take y.length := by
      rw [hsource, Nat.zero_add, List.drop_succ_cons, List.drop_zero, List.take_left]
      exact hy hsender
    have hkept := take_prefix_loop hB hword hout
    have htake : (parentSource me pa (COLON :: (sender ++ SP :: rest))).take (0 + 1 + y.length + 1) =
        COLON :: (y ++ [SP]) := by
      have hnum : 0 + 1 + y.length + 1 = (y.length + 1) + 1 := by omega
      rw [hsource, hnum, List.take_succ_cons, List.take_append, List.take_of_length_le (Nat.le_succ _)]
      simp
    rw [htake] at hkept
    rcases hkept with ⟨rest', rfl⟩
    exact ⟨y, rest', net, by simp, hy hsender⟩

/-- A line is left alone that has the nick nowhere in its header. -/
theorem parentnick_quiet (hfit : a.Fits tok pa me s) (hc : Called me pa) (hsender : SP ∉ sender) {ws : List CStr}
    (hws : me = pa ∨ ∀ w ∈ ws, SP ∉ w ∧ w ≠ me) (hne : ws ≠ [])
    (hlen : (COLON :: (sender ++ lead SP (SP :: COLON :: rest) ws)).length < 8000) :
    ∃ y net, parentnick a.usern (a.user s).net (COLON :: (sender ++ lead SP (SP :: COLON :: rest) ws)) =
      some (COLON :: (y ++ lead SP (SP :: COLON :: rest) ws), net) ∧ SP ∉ y ∧
        (me = pa ∨ BANG ∉ sender → y = sender) := by
  rcases parentnick_account hfit hc (COLON :: (sender ++ lead SP (SP :: COLON :: rest) ws)) with ⟨net, hcode⟩
  rw [hcode]
  by_cases hme : me = pa
  · rw [if_pos hme]
    exact ⟨sender, net, rfl, hsender, fun _ => rfl⟩
  · rw [if_neg hme]
    rcases List.exists_cons_of_ne_nil hne with ⟨w, vs, rfl⟩
    have hstart : COLON :: (sender ++ lead SP (SP :: COLON :: rest) (w :: vs)) =
        COLON :: (sender ++ SP :: (w ++ lead SP (SP :: COLON :: rest) vs)) := rfl
    rw [hstart] at hlen ⊢
    rcases parentSource_word hc hlen with ⟨y, hsource, hy, hsame⟩
    have hquiet := loop_quiet pa rest hc.own.1.1 hc.own.2.2.1 (hy hsender) (hws.resolve_left hme)
    rw [lead_cons] at hquiet
    refine ⟨y, net, ?_, hy hsender, fun h => hsame (h.resolve_left hme)⟩
    rw [parentLine, if_neg (by rw [hsource]; simp), hsource, hquiet]
    rfl

end Account

section Source

variable {tok pa all me sender rest old : CStr} {irc : Parsed} {g : ModeGrammar} {types : CStr}

/-- `netircfrom` is the sender as it is retold, and the line begins with it. -/
theorem netSource_retold (g : ModeGrammar) (types rest old : CStr) (hs : SenderFits tok pa me sender)
    (hlen : sender.length < 300) (hfrom : irc.ircfrom = clip 300 sender)
    (hnick : ∀ n r, sender = n ++ BANG :: r → BANG ∉ n → n.length < 64 → irc.ircnick = n) {y : CStr} (hy : SP ∉ y) :
    (netSource ⟨me, g, types, tok, pa⟩ irc (COLON :: (y ++ SP :: rest)) old).1 = retoldSource tok pa me sender ∧
      ((netSource ⟨me, g, types, tok, pa⟩ irc (COLON :: (y ++ SP :: rest)) old).2 =
          netline (retoldSource tok pa me sender) (SP :: rest) ∨
        ((netSource ⟨me, g, types, tok, pa⟩ irc (COLON :: (y ++ SP :: rest)) old).2 = COLON :: (y ++ SP :: rest) ∧
          (me = pa ∨ BANG ∉ sender) ∧ retoldSource tok pa me sender = sender)) := by
  rw [clip_eq_self hlen] at hfrom
  have hcut : cutAt SP (COLON :: (y ++ SP :: rest)) = some (COLON :: y, rest) := by
    have hsp : SP ∉ COLON :: y := by
      rw [List.mem_cons, not_or]
      exact ⟨by decide, hy⟩
    rw [← List.cons_append, cutAt_append hsp]
  rcases hs.1 with ⟨n, mask, hsender, ⟨hbang, hn⟩, hat, hpa, hme⟩ | ⟨hat, hbang⟩
  · have hname := hnick n mask hsender hbang hn
    have hat' : AT ∈ sender := by
      rw [hsender]
      exact List.mem_append_right _ (List.mem_cons_of_mem _ hat)
    have hretold : retoldSource tok pa me sender = retoldNick tok pa me n ++ BANG :: mask := by
      rw [retoldSource, if_pos hat', hsender, cutAt_append hbang]
    have hshort := hs.2
    rw [hretold] at hshort ⊢
    by_cases hown : ucase pa = ucase n
    · -- the user has the parent's nick, and the line stays as it is
      rcases hpa hown.symm with ⟨rfl, rfl⟩
      have hsame : strmncasecmp n irc.ircnick = true := by
        rw [hname]
        exact strmncasecmp_iff.2 rfl
      rw [retoldNick_self] at hshort ⊢
      rw [← hsender] at hshort ⊢
      rw [netSource, if_neg (by simp [hsame]), hfrom, clip_eq_self hshort]
      exact ⟨rfl, Or.inr ⟨rfl, Or.inl rfl, rfl⟩⟩
    · have hcond : (COLON :: (y ++ SP :: rest)).head? = some COLON ∧ AT ∈ irc.ircfrom ∧
          strmncasecmp pa irc.ircnick = false := by
        refine ⟨rfl, ?_, ?_⟩
        · rw [hfrom]
          exact hat'
        · rw [hname]
          exact strmncasecmp_false.2 hown
      have hnew : netSender ⟨me, g, types, tok, pa⟩ irc = retoldNick tok pa me n ++ BANG :: mask := by
        rw [netSender, hname, hfrom, hsender, cutAt_append hbang]
        -- Our own line comes from the nick of the parent, any other from a nick with the token.
        by_cases hself : n = me
        · rw [hself, retoldNick_self] at hshort
          rw [hself, if_pos (strmncasecmp_iff.2 rfl), retoldNick_self]
          exact clip_eq_self hshort
        · rw [retoldNick_other hself] at hshort ⊢
          rw [if_neg fun h => hself (hme (strmncasecmp_iff.1 h).symm), tokened]
          rw [List.append_assoc] at hshort ⊢
          exact clip_eq_self hshort
      rw [netSource, if_pos hcond, hcut, ← hnew]
      exact ⟨rfl, Or.inl rfl⟩
  · -- A server is told as it is.
    have hretold : retoldSource tok pa me sender = sender := by rw [retoldSource, if_neg hat]
    have hshort := hs.2
    rw [hretold] at hshort ⊢
    have hcond : ¬ ((COLON :: (y ++ SP :: rest)).head? = some COLON ∧ AT ∈ irc.ircfrom ∧
        strmncasecmp pa irc.ircnick = false) := by
      rw [hfrom]
      exact fun h => hat h.2.1
    rw [netSource, if_neg hcond, hfrom, clip_eq_self hshort]
    exact ⟨rfl, Or.inr ⟨rfl, Or.inr hbang, rfl⟩⟩

end Source

/-! ## Lines from a sender -/

section Lines

variable {a : NetAccount} {tok pa all me sender cmd params rest old r : CStr} {s : UserSession} {irc : Parsed}
  {ws : List CStr}

theorem parse_ircfrom {ircbuf : CStr} (hline : lineOf ircbuf = COLON :: (sender ++ SP :: rest))
    (hsender : SP ∉ sender) : (parse ircbuf).ircfrom = clip 300 sender := by
  have hkeep : (parse ircbuf).ircfrom = (generalparse ircbuf).ircfrom := by
    rw [parse]
    dsimp only
    split
    · exact (hostOf_ircto _).2.2.1.trans (nickIdent_ircto _).2.2.1
    · rfl
  have hafter : afterPrefix [COLON] (COLON :: (sender ++ SP :: rest)) = some (sender ++ SP :: rest) :=
    afterPrefix_append [COLON] _
  rw [hkeep]
  simp only [generalparse, hline, hafter, serverLine, cutAt_append hsender]
  cases cutAt SP (clip 8191 rest) with
  | none => rfl
  | some q => exact (serverParams_ircfrom _ _).1

theorem lineOf_inline {l : CStr} (h : Inline l) (hlen : l.length < 8191) : lineOf l = l := by
  simp only [lineOf, clip_eq_self hlen, cutAt_eq_none.2 h.2.1, cutAt_eq_none.2 h.2.2]

/-- What is known of a parsed line. -/
structure Heard (sender cmd params : CStr) (irc : Parsed) : Prop where
  sent : Sent sender cmd params irc
  source : irc.ircfrom = clip 300 sender

theorem heard_text (hsender : SP ∉ sender ∧ sender ≠ [] ∧ Inline sender)
    (hcmd : SP ∉ cmd ∧ Inline cmd ∧ cmd.length < 64) (hparams : Inline params)
    (hlen : (COLON :: (sender ++ SP :: (cmd ++ SP :: params))).length < 8000) (t : Terminator) :
    Heard sender cmd params (parse (COLON :: (sender ++ SP :: (cmd ++ SP :: params)) ++ t.bytes)) := by
  have hinline : Inline (COLON :: (sender ++ SP :: (cmd ++ SP :: params))) :=
    inline_cons (by decide) (inline_append hsender.2.2
      (inline_cons (by decide) (inline_append hcmd.2.1 (inline_cons (by decide) hparams))))
  have hline := lineOf_terminated hinline.2.1 hinline.2.2 (by omega) t
  exact ⟨parse_text hsender hcmd hparams hlen t, parse_ircfrom hline hsender.1⟩

/-- The line reaches its handler with the sender as it is retold. -/
theorem addtoken_source (old : CStr) (hfit : a.Fits tok pa me s) (hc : Called me pa) (hs : SenderFits tok pa me sender)
    (hsender : SP ∉ sender ∧ sender.length < 300) (hlen : (COLON :: (sender ++ SP :: rest)).length < 8000)
    (hfrom : irc.ircfrom = clip 300 sender)
    (hnick : ∀ n r, sender = n ++ BANG :: r → BANG ∉ n → n.length < 64 → irc.ircnick = n) :
    ∃ line net, addtoken a.usern (a.user s) irc old (COLON :: (sender ++ SP :: rest)) =
      (thash ((a.user s).caller a.usern) irc (retoldSource tok pa me sender) line).map fun q =>
        ⟨q.1, q.2, retoldSource tok pa me sender, net⟩ := by
  rcases parentnick_source hfit hc hsender.1 hlen with ⟨y, rest', net, hcode, hy⟩
  have hsource := (netSource_retold ⟨s.user.prefixmodes, s.user.prefixchars, s.user.chanmodes⟩ a.chantypes rest' old hs
    hsender.2 hfrom hnick hy).1
  rw [addtoken, hcode]
  simp only [hfit.caller, hsource]
  exact ⟨_, net, rfl⟩

/-- The rest of a line stays as it is when the user's nick is not in its header. -/
theorem addtoken_quiet (old : CStr) (hfit : a.Fits tok pa me s) (hc : Called me pa) (hs : SenderFits tok pa me sender)
    (hsender : SP ∉ sender ∧ sender.length < 300) (hws : me = pa ∨ ∀ w ∈ ws, SP ∉ w ∧ w ≠ me) (hne : ws ≠ [])
    (hlen : (COLON :: (sender ++ lead SP (SP :: COLON :: r) ws)).length < 7900) (hirc : Heard sender cmd params irc) :
    ∃ net, addtoken a.usern (a.user s) irc old (COLON :: (sender ++ lead SP (SP :: COLON :: r) ws)) =
      (thash ((a.user s).caller a.usern) irc (retoldSource tok pa me sender)
        (COLON :: (retoldSource tok pa me sender ++ lead SP (SP :: COLON :: r) ws))).map fun q =>
          ⟨q.1, q.2, retoldSource tok pa me sender, net⟩ := by
  have hlen' := Nat.lt_trans hlen (by decide : 7900 < 8000)
  rcases parentnick_quiet hfit hc hsender.1 hws hne hlen' with ⟨y, net, hcode, hy, hsame⟩
  rcases List.exists_cons_of_ne_nil hne with ⟨w, vs, rfl⟩
  have hsource := netSource_retold ⟨s.user.prefixmodes, s.user.prefixchars, s.user.chanmodes⟩ a.chantypes
    (w ++ lead SP (SP :: COLON :: r) vs) old hs hsender.2 hirc.source hirc.sent.nick hy
  rw [lead_cons] at hcode ⊢
  have hline : (netSource ⟨me, ⟨s.user.prefixmodes, s.user.prefixchars, s.user.chanmodes⟩, a.chantypes, tok, pa⟩ irc
      (COLON :: (y ++ SP :: (w ++ lead SP (SP :: COLON :: r) vs))) old).2 =
      COLON :: (retoldSource tok pa me sender ++ SP :: (w ++ lead SP (SP :: COLON :: r) vs)) := by
    rcases hsource.2 with hnew | ⟨hkept, hown, hsrc⟩
    · rw [hnew, netline, clip_eq_self]
      have hshort := hs.2
      rw [lead_cons] at hlen
      simp only [List.length_cons, List.length_append] at hlen ⊢
      omega
    · rw [hkept, hsrc, hsame hown]
  rw [addtoken, hcode]
  simp only [hfit.caller, hsource.1, hline]
  exact ⟨net, rfl⟩

/-- The commands of lines that are not passed on, or not always. -/
def silentCommands : List CStr := [ascii "ERROR", ascii "352", ascii "001", ascii "005"]

/-- A line that is not one of the replies to a registration. -/
theorem initLine_eq {init : Bool} (line : CStr) (hcmd : ∀ word, ifcommand irc word = decide (word = cmd))
    (hinit : cmd ∉ silentCommands) : initLine init irc line = line := by
  simp only [silentCommands, List.mem_cons, List.not_mem_nil, or_false, not_or] at hinit
  rw [initLine, hcmd, hcmd, if_neg]
  simp only [decide_eq_true_eq]
  rintro (heq | ⟨_, heq⟩)
  · exact hinit.2.2.1 heq.symm
  · exact hinit.2.2.2 heq.symm

/-- A line that goes on to `addtoken`. -/
theorem shows_eq {init : Bool} {line : CStr} {left : Parsed} (old : CStr)
    (hcmd : ∀ word, ifcommand (parse line) word = decide (word = cmd)) (hno : cmd ∉ [ascii "ERROR", ascii "352"])
    (hleft : a.handled s (parse line) = some left) :
    a.shows init old s line = (addtoken a.usern (a.user s) left old (initLine init (parse line) line)).map fun q =>
      (q.sent ++ if q.ircbuf = [] then [] else [q.ircbuf]).map lineOf := by
  simp only [List.mem_cons, List.not_mem_nil, or_false, not_or] at hno
  rw [NetAccount.shows, hcmd, hcmd, if_neg, hleft, Option.bind_some]
  simp only [decide_eq_true_eq]
  rintro (heq | ⟨heq, _⟩)
  · exact hno.1 heq.symm
  · exact hno.2 heq.symm

/-- Only a JOIN is looked up. -/
theorem handled_other (a : NetAccount) (s : UserSession)
    (hcmd : ∀ word, ifcommand irc word = decide (word = cmd)) (hjoin : cmd ≠ ascii "JOIN") :
    a.handled s irc = some irc := by
  rw [NetAccount.handled, hcmd, if_neg]
  rw [decide_eq_true_iff]
  exact fun h => hjoin h.1.symm

/-- What the client gets of a line that is written anew. -/
theorem shows_line {init : Bool} {line out : CStr} {old : CStr} {q : Tokened} {left : Parsed}
    (hcmd : ∀ word, ifcommand (parse line) word = decide (word = cmd)) (hinit : cmd ∉ silentCommands)
    (hleft : a.handled s (parse line) = some left)
    (htoken : addtoken a.usern (a.user s) left old line = some q) (hq : q.sent = [] ∧ q.ircbuf = out)
    (hout : out ≠ []) (hlineOf : lineOf out = rest) : a.shows init old s line = some [rest] := by
  have hno : cmd ∉ [ascii "ERROR", ascii "352"] := fun h => hinit (List.mem_append_left _ h)
  rw [shows_eq old hcmd hno hleft, initLine_eq line hcmd hinit, htoken, Option.map_some, hq.1, hq.2, if_neg hout,
    ← hlineOf]
  rfl

end Lines

/-! ## The events -/

namespace Beyond

variable {tok pa all : CStr} {w w' : World} {n m mask chan : CStr} {a : NetAccount} {s : UserSession} {old : CStr}

/-- A nick as `parentnick` finds it. -/
theorem called_nick {signs : CStr} (hp : TokenParent tok pa all) (hm : ServerNick signs m)
    (hapart : ucase m = ucase pa → m = pa) : Called m pa where
  own := by
    refine ⟨⟨hm.stops (by decide), hm.stops (by decide), hm.stops (by decide)⟩, hm.2.1, ?_, hm.stops (by decide)⟩
    rcases List.exists_cons_of_ne_nil hm.1 with ⟨b, m', rfl⟩
    refine ⟨b, rfl, ?_⟩
    rintro rfl
    exact hm.stops (by decide : COLON ∈ nickStops) List.mem_cons_self
  parent := by
    have hpa := hp.nick
    exact ⟨⟨hpa.stops (by decide), hpa.stops (by decide), hpa.stops (by decide)⟩, hpa.2.1, hpa.1⟩
  apart := hapart

theorem called (h : Beyond tok pa all w w') (hp : TokenParent tok pa all) : Called w.me pa :=
  called_nick hp h.sound.me_nick fun heq => (h.apart w.me (Set.mem_insert _ _) heq).2

/-- The mask of a user that is there. -/
theorem senderFits (h : Beyond tok pa all w w') (hn : n ∈ insert w.me w.online) (hmask : w.MaskFits tok pa n mask) :
    SenderFits tok pa w.me (n ++ BANG :: mask) ∧
      retoldSource tok pa w.me (n ++ BANG :: mask) = retoldNick tok pa w.me n ++ BANG :: mask := by
  have hnick := h.sound.nicks n hn
  have hbang : BANG ∉ n := hnick.stops (by decide)
  have hsource : retoldSource tok pa w.me (n ++ BANG :: mask) = retoldNick tok pa w.me n ++ BANG :: mask := by
    rw [retoldSource, if_pos (List.mem_append_right _ (List.mem_cons_of_mem _ hmask.1)), cutAt_append hbang]
  refine ⟨⟨Or.inl ⟨n, mask, rfl, ⟨hbang, hnick.2.1⟩, hmask.1, h.apart n hn, ?_⟩, ?_⟩, hsource⟩
  · exact fun heq => h.sound.apart n hn w.me (Set.mem_insert _ _) heq
  · rw [hsource]
    exact hmask.2

theorem retold_nick_inline (h : Beyond tok pa all w w') (hn : n ∈ insert w.me w.online) :
    Inline (retoldNick tok pa w.me n) := by
  have hmem : retoldNick tok pa w.me n ∈ insert w'.me w'.online := by
    rw [h.everybody]
    exact Set.mem_image_of_mem _ hn
  exact (h.sound'.nicks _ hmem).inline

theorem sender_text (h : Beyond tok pa all w w') (hn : n ∈ insert w.me w.online) (hmask : MaskText mask) :
    (SP ∉ n ++ BANG :: mask ∧ n ++ BANG :: mask ≠ [] ∧ Inline (n ++ BANG :: mask)) ∧
      (n ++ BANG :: mask).length < 300 := by
  have hnick := h.sound.nicks n hn
  refine ⟨⟨?_, ?_, inline_append hnick.inline (inline_cons (by decide) hmask.2.1)⟩, ?_⟩
  · rw [List.mem_append, List.mem_cons, not_or, not_or]
    exact ⟨hnick.stops (by decide), by decide, hmask.1⟩
  · exact List.append_ne_nil_of_right_ne_nil n (List.cons_ne_nil _ _)
  · have hnlen := hnick.2.1
    have hmlen := hmask.2.2
    rw [List.length_append, List.length_cons]
    omega

/-- A line from a user whose handler writes the line anew. -/
theorem shows_anew {cmd params out : CStr} (h : Beyond tok pa all w w') (hfit : a.Fits tok pa m s) (hc : Called m pa)
    (hn : n ∈ insert w.me w.online) (hmask : MaskText mask) (hs : SenderFits tok pa m (n ++ BANG :: mask))
    (hcmd : (SP ∉ cmd ∧ Inline cmd ∧ cmd.length < 64) ∧ ucase cmd = cmd ∧ cmd ≠ [] ∧ cmd ∉ silentCommands)
    (hparams : Inline params ∧ params.length < 4000) (t : Terminator)
    (hout : out ≠ [] ∧ Inline out ∧ out.length < 8191)
    (hthash : ∀ irc, Heard (n ++ BANG :: mask) cmd params irc →
      (∀ word, ifcommand irc word = decide (word = cmd)) →
      ∃ left, (a.handled s irc = some left ∧ left.ircfrom = irc.ircfrom ∧ left.ircnick = irc.ircnick) ∧
        ∀ line, thash ((a.user s).caller a.usern) left (retoldSource tok pa m (n ++ BANG :: mask)) line =
          some ([], out)) :
    a.shows init old s (World.fromUser n mask cmd params ++ t.bytes) = some [out] := by
  have hnick := h.sound.nicks n hn
  have hsender : SP ∉ n ++ BANG :: mask ∧ n ++ BANG :: mask ≠ [] ∧ Inline (n ++ BANG :: mask) := by
    refine ⟨?_, ?_, inline_append hnick.inline (inline_cons (by decide) hmask.2.1)⟩
    · rw [List.mem_append, List.mem_cons, not_or, not_or]
      exact ⟨hnick.stops (by decide), by decide, hmask.1⟩
    · exact List.append_ne_nil_of_right_ne_nil n (List.cons_ne_nil _ _)
  have hlen : (n ++ BANG :: mask).length < 300 := by
    have hnlen := hnick.2.1
    have hmlen := hmask.2.2
    rw [List.length_append, List.length_cons]
    omega
  have hbytes := length_bytes t
  have hshort : (COLON :: (n ++ BANG :: mask ++ SP :: (cmd ++ SP :: params))).length < 7000 := by
    have hclen := hcmd.1.2.2
    have hplen := hparams.2
    simp only [List.length_cons, List.length_append] at hlen ⊢
    omega
  have hheard := heard_text hsender hcmd.1 hparams.1 (by omega) t
  have hif := ifcommand_eq (hheard.sent.command.trans hcmd.2.1) hcmd.2.2.1
  have hline : World.fromUser n mask cmd params ++ t.bytes =
      COLON :: (n ++ BANG :: mask ++ SP :: (cmd ++ SP :: params ++ t.bytes)) := by
    rw [World.fromUser]
    simp
  have hlen' : (COLON :: (n ++ BANG :: mask ++ SP :: (cmd ++ SP :: params ++ t.bytes))).length < 8000 := by
    simp only [List.length_cons, List.length_append] at hshort ⊢
    omega
  rcases hthash _ hheard hif with ⟨left, ⟨hleft, hfrom, hname⟩, hthash⟩
  have hnick' : ∀ n' r, n ++ BANG :: mask = n' ++ BANG :: r → BANG ∉ n' → n'.length < 64 → left.ircnick = n' := by
    intro n' r heq hbang hshort
    rw [hname]
    exact hheard.sent.nick n' r heq hbang hshort
  rcases addtoken_source old hfit hc hs ⟨hsender.1, hlen⟩ hlen' (hfrom.trans hheard.source) hnick' with
    ⟨line, net, hcode⟩
  rw [hthash line, Option.map_some] at hcode
  rw [← hline] at hcode
  exact shows_line hif hcmd.2.2.2 hleft hcode ⟨rfl, rfl⟩ hout.1 (lineOf_inline hout.2.1 hout.2.2)

theorem fromUser_inline {cmd params : CStr} (hn : Inline n) (hmask : Inline mask) (hcmd : Inline cmd)
    (hparams : Inline params) : World.fromUser n mask cmd params ≠ [] ∧ Inline (World.fromUser n mask cmd params) := by
  refine ⟨List.cons_ne_nil _ _, ?_⟩
  exact inline_cons (by decide) (inline_append (inline_append hn (inline_cons (by decide) hmask))
    (inline_cons (by decide) (inline_append hcmd (inline_cons (by decide) hparams))))

theorem shows_join {colon : Bool} (h : Beyond tok pa all w w') (hp : TokenParent tok pa all)
    (hfit : a.Fits tok pa w.me s) (he : w.Valid (.join n mask chan colon))
    (hr : w.Retellable tok pa all (.join n mask chan colon)) (t : Terminator) :
    ∃ c, ucase c = ucase chan ∧ a.shows init old s (w.line t (.join n mask chan colon)) =
      some [w'.text (.join (retoldNick tok pa w.me n) mask (retoldChan tok c) true)] := by
  have hn := Set.mem_insert_of_mem w.me he.1
  rcases h.senderFits hn hr.1 with ⟨hs, hsource⟩
  have hchan := he.2.2.2
  have hshort := hchan.short
  -- `gotjoin` may have turned the name of the channel into upper case.
  rcases hfit.handled_join n (clip 300 (n ++ BANG :: mask)) chan with ⟨c, hcase, hhandled⟩
  refine ⟨c, hcase, ?_⟩
  have hclen : (retoldChan tok c).length < 200 := by
    rw [length_retoldChan hcase]
    exact hr.2
  have hchan' := chanText_retold hp (hchan.of_case hcase) hclen
  have hparams : Inline (if colon then COLON :: chan else chan) ∧
      (if colon then COLON :: chan else chan).length < 4000 := by
    cases colon with
    | false => exact ⟨hchan.word.2.2, Nat.lt_trans hshort (by decide)⟩
    | true =>
        refine ⟨inline_cons (by decide) hchan.word.2.2, ?_⟩
        rw [if_pos rfl, List.length_cons]
        omega
  have hlen : (World.fromUser (retoldNick tok pa w.me n) mask (ascii "JOIN") (COLON :: retoldChan tok c)).length <
      8191 := by
    have hmlen := hr.1.2
    rw [List.length_append, List.length_cons] at hmlen
    have hcmd : (ascii "JOIN").length = 4 := by decide
    simp only [World.fromUser, List.length_cons, List.length_append, hcmd]
    omega
  apply h.shows_anew hfit (h.called hp) hn he.2.2.1 hs ⟨by decide, by decide, by decide, by decide⟩ hparams t
  · have hinline := @fromUser_inline (retoldNick tok pa w.me n) mask (ascii "JOIN") (COLON :: retoldChan tok c)
      (h.retold_nick_inline hn) he.2.2.1.2.1 (by decide) (inline_cons (by decide) hchan'.word.2.2)
    exact ⟨hinline.1, hinline.2, hlen⟩
  · intro irc hheard hif
    -- The name is the same with a colon in front of it or without.
    have hto : irc.ircto = chan := by
      rw [hheard.sent.target]
      have hlong : chan.length < 800 := Nat.lt_trans hshort (by decide)
      cases colon with
      | false => exact ircto_word _ hchan.word.1 hchan.head hlong
      | true => exact ircto_colon _ hchan.word.1 hlong
    have hname := hheard.sent.nick n mask rfl ((h.sound.nicks n hn).stops (by decide)) (h.sound.nicks n hn).2.1
    have hjoin : ifcommand irc (ascii "JOIN") = true := (hif _).trans (by decide)
    refine ⟨{ irc with ircto := c }, ⟨hhandled irc hname hheard.source hto hjoin, rfl, rfl⟩, ?_⟩
    intro line
    have hif' : ∀ word, ifcommand { irc with ircto := c } word = decide (word = ascii "JOIN") := hif
    have hcode : thash ((a.user s).caller a.usern) { irc with ircto := c }
        (retoldSource tok pa w.me (n ++ BANG :: mask)) line = some ([], netjoin ((a.user s).caller a.usern)
          { irc with ircto := c } (retoldSource tok pa w.me (n ++ BANG :: mask))) := by
      rw [thash]
      simp only [hif']
      rfl
    rw [hcode, hsource, hfit.caller, netjoin, netline, tokened]
    have htext : COLON :: (retoldNick tok pa w.me n ++ BANG :: mask ++ (ascii " JOIN :#" ++ (tok ++ TILDE :: c))) =
        World.fromUser (retoldNick tok pa w.me n) mask (ascii "JOIN") (COLON :: retoldChan tok c) := by
      simp [World.fromUser, retoldChan, ascii]
    rw [htext, clip_eq_self (Nat.lt_trans hlen (by decide))]
    rfl

theorem irccontent_word (irc : Parsed) {c : CStr} (hc : SP ∉ c) : (serverParams c irc).irccontent = irc.irccontent := by
  simp only [serverParams, cutAt_eq_none.2 hc]

theorem irccontent_trailing (irc : Parsed) {c r : CStr} (hc : SP ∉ c) (hhead : c.head? ≠ some COLON)
    (hlen : r.length < 6000) : (serverParams (c ++ SP :: COLON :: r) irc).irccontent = r := by
  have hcontent : serverContent (COLON :: r) = r := by simp [serverContent]
  simp only [serverParams, cutAt_append hc, afterPrefix_colon_of_head hhead, hcontent, clip_eq_self hlen]

theorem shows_part {reason : Option CStr} (h : Beyond tok pa all w w') (hp : TokenParent tok pa all)
    (hfit : a.Fits tok pa w.me s) (he : w.Valid (.part n mask chan reason))
    (hr : w.Retellable tok pa all (.part n mask chan reason)) (t : Terminator) :
    a.shows init old s (w.line t (.part n mask chan reason)) =
      some [w'.text (.part (retoldNick tok pa w.me n) mask (retoldChan tok chan) (some (reason.getD [])))] := by
  rcases he with ⟨hon, hmask, hchan, hreason⟩
  have hn := Set.mem_insert_of_mem w.me (h.sound.sub _ hon)
  rcases h.senderFits hn hr.1 with ⟨hs, hsource⟩
  have hchan' := chanText_retold hp hchan hr.2
  have hshort := hchan.short
  have hlong : chan.length < 800 := Nat.lt_trans hshort (by decide)
  -- A PART without a reason comes out with an empty one.
  have htext : ReasonText (reason.getD []) := by
    cases reason with
    | none => exact ⟨by decide, by decide⟩
    | some r => exact hreason r rfl
  have hparams : Inline (chan ++ (reason.map fun r => SP :: COLON :: r).getD []) ∧
      (chan ++ (reason.map fun r => SP :: COLON :: r).getD []).length < 4000 := by
    cases reason with
    | none =>
        rw [Option.map_none, Option.getD_none, List.append_nil]
        exact ⟨hchan.word.2.2, Nat.lt_trans hshort (by decide)⟩
    | some r =>
        have hrlen := htext.2
        rw [Option.getD_some] at hrlen
        refine ⟨inline_append hchan.word.2.2 (inline_cons (by decide) (inline_cons (by decide) htext.1)), ?_⟩
        simp only [Option.map_some, Option.getD_some, List.length_append, List.length_cons]
        omega
  have hlen : (World.fromUser (retoldNick tok pa w.me n) mask (ascii "PART")
      (retoldChan tok chan ++ SP :: COLON :: reason.getD [])).length < 8191 := by
    have hmlen := hr.1.2
    have hclen := hr.2
    have hrlen := htext.2
    have hcmd : (ascii "PART").length = 4 := by decide
    simp only [World.fromUser, List.length_cons, List.length_append, hcmd] at hmlen ⊢
    omega
  apply h.shows_anew hfit (h.called hp) hn hmask hs ⟨by decide, by decide, by decide, by decide⟩ hparams t
  · have hinline := @fromUser_inline (retoldNick tok pa w.me n) mask (ascii "PART")
      (retoldChan tok chan ++ SP :: COLON :: reason.getD []) (h.retold_nick_inline hn) hmask.2.1 (by decide)
      (inline_append hchan'.word.2.2 (inline_cons (by decide) (inline_cons (by decide) htext.1)))
    exact ⟨hinline.1, hinline.2, hlen⟩
  · intro irc hheard hif
    refine ⟨irc, ⟨handled_other a s hif (by decide), rfl, rfl⟩, ?_⟩
    intro line
    -- What `netpart` reads of the line.
    have hfields : irc.ircto = chan ∧ irc.irccontent = reason.getD [] := by
      rw [hheard.sent.target, hheard.sent.content]
      cases reason with
      | none =>
          rw [Option.map_none, Option.getD_none, List.append_nil]
          exact ⟨ircto_word _ hchan.word.1 hchan.head hlong, irccontent_word _ hchan.word.1⟩
      | some r =>
          have hrlen := htext.2
          rw [Option.getD_some] at hrlen
          exact ⟨ircto_first _ hchan.word.1 hchan.head hlong _,
            irccontent_trailing _ hchan.word.1 hchan.head (Nat.lt_trans hrlen (by decide))⟩
    have hcode : thash ((a.user s).caller a.usern) irc (retoldSource tok pa w.me (n ++ BANG :: mask)) line =
        some ([], netpart ((a.user s).caller a.usern) irc (retoldSource tok pa w.me (n ++ BANG :: mask))) := by
      rw [thash]
      simp only [hif]
      rfl
    rw [hcode, hsource, hfit.caller, netpart, netline, tokened, hfields.1, hfields.2]
    have hline : COLON :: (retoldNick tok pa w.me n ++ BANG :: mask ++
        (ascii " PART #" ++ (tok ++ TILDE :: chan) ++ SP :: COLON :: reason.getD [])) =
        World.fromUser (retoldNick tok pa w.me n) mask (ascii "PART")
          (retoldChan tok chan ++ SP :: COLON :: reason.getD []) := by
      simp [World.fromUser, retoldChan, ascii]
    rw [hline, clip_eq_self (Nat.lt_trans hlen (by decide))]
    rfl

theorem shows_nick_other {colon : Bool} (h : Beyond tok pa all w w') (hp : TokenParent tok pa all)
    (hfit : a.Fits tok pa w.me s) (hother : n ≠ w.me) (he : w.Valid (.nick n mask m colon))
    (hr : w.Retellable tok pa all (.nick n mask m colon)) (t : Terminator) :
    a.shows init old s (w.line t (.nick n mask m colon)) =
      some [w'.text (.nick (tok ++ TILDE :: n) mask (tok ++ TILDE :: m) true)] := by
  have hvalid := (h.nick_other hp hother he hr).1
  rcases he with ⟨hon, hne, hm, hfree, hmask⟩
  have hn := Set.mem_insert_of_mem w.me hon
  rcases h.senderFits hn (hr.2 hother).1 with ⟨hs, hsource⟩
  rw [retoldNick_other hother] at hsource
  have hlong : m.length < 800 := Nat.lt_trans hm.2.1 (by decide)
  have hsp : SP ∉ m := hm.stops (by decide)
  have hparams : Inline (if colon then COLON :: m else m) ∧ (if colon then COLON :: m else m).length < 4000 := by
    have hmlen := hm.2.1
    cases colon with
    | false => exact ⟨hm.inline, Nat.lt_trans hmlen (by decide)⟩
    | true =>
        refine ⟨inline_cons (by decide) hm.inline, ?_⟩
        rw [if_pos rfl, List.length_cons]
        omega
  have hlen : (World.fromUser (tok ++ TILDE :: n) mask (ascii "NICK") (COLON :: (tok ++ TILDE :: m))).length <
      8191 := by
    have hmlen := (hr.2 hother).1.2
    have hnew := (hr.2 hother).2
    have hcmd : (ascii "NICK").length = 4 := by decide
    rw [retoldNick_other hother] at hmlen
    simp only [World.fromUser, List.length_cons, List.length_append, hcmd] at hmlen hnew ⊢
    omega
  apply h.shows_anew hfit (h.called hp) hn hmask hs ⟨by decide, by decide, by decide, by decide⟩ hparams t
  · have hinline := @fromUser_inline (tok ++ TILDE :: n) mask (ascii "NICK") (COLON :: (tok ++ TILDE :: m))
      (h.sound'.nicks _ (Set.mem_insert_of_mem _ hvalid.1)).inline hmask.2.1 (by decide)
      (inline_cons (by decide) hvalid.2.2.1.inline)
    exact ⟨hinline.1, hinline.2, hlen⟩
  · intro irc hheard hif
    refine ⟨irc, ⟨handled_other a s hif (by decide), rfl, rfl⟩, ?_⟩
    intro line
    have hto : irc.ircto = m := by
      rw [hheard.sent.target]
      cases colon with
      | false => exact ircto_word _ hsp hm.head hlong
      | true => exact ircto_colon _ hsp hlong
    have hcode : thash ((a.user s).caller a.usern) irc (retoldSource tok pa w.me (n ++ BANG :: mask)) line =
        some ([], netnick ((a.user s).caller a.usern) irc (retoldSource tok pa w.me (n ++ BANG :: mask))) := by
      rw [thash]
      simp only [hif]
      rfl
    -- The new nick is neither ours nor the one of the parent, which `netnick` would keep.
    have hfresh : strmncasecmp w.me m = false ∧ strmncasecmp pa m = false := by
      rw [strmncasecmp_false, strmncasecmp_false]
      refine ⟨hfree w.me (Set.mem_insert _ _) (Ne.symm hother), ?_⟩
      exact fun heq => hother (hr.1 heq.symm).1
    rw [hcode, hsource, hfit.caller, netnick, hto, if_pos hfresh, netline, tokened]
    have hline : COLON :: (tok ++ TILDE :: n ++ BANG :: mask ++ (ascii " NICK :" ++ (tok ++ TILDE :: m))) =
        World.fromUser (tok ++ TILDE :: n) mask (ascii "NICK") (COLON :: (tok ++ TILDE :: m)) := by
      simp [World.fromUser, ascii]
    rw [List.append_assoc, List.cons_append] at hline
    rw [List.append_assoc, List.cons_append, hline, clip_eq_self (Nat.lt_trans hlen (by decide))]
    rfl

/-- A line of which nothing is left. -/
theorem shows_nothing {line cmd : CStr} {q : Tokened}
    (hcmd : ∀ word, ifcommand (parse line) word = decide (word = cmd))
    (hno : cmd ∉ [ascii "ERROR", ascii "352", ascii "JOIN"])
    (htoken : addtoken a.usern (a.user s) (parse line) old (initLine init (parse line) line) = some q)
    (hq : q.sent = [] ∧ q.ircbuf = []) : a.shows init old s line = some [] := by
  simp only [List.mem_cons, List.not_mem_nil, or_false, not_or] at hno
  have hother : cmd ∉ [ascii "ERROR", ascii "352"] := by
    simp only [List.mem_cons, List.not_mem_nil, or_false, not_or]
    exact ⟨hno.1, hno.2.1⟩
  rw [shows_eq old hcmd hother (handled_other a s hcmd hno.2.2), htoken, Option.map_some, hq.1, hq.2]
  rfl

/-- The session knows the new nick already, so that nothing is shown. -/
theorem shows_nick_own {colon : Bool} (h : Beyond tok pa all w w') (hfit : a.Fits tok pa m s)
    (he : w.Valid (.nick n mask m colon)) (t : Terminator) :
    a.shows init old s (w.line t (.nick n mask m colon)) = some [] := by
  rcases he with ⟨hon, _, hm, _, hmask⟩
  have hnick := h.sound.nicks n (Set.mem_insert_of_mem _ hon)
  have hsp : SP ∉ m := hm.stops (by decide)
  have hlong : m.length < 800 := Nat.lt_trans hm.2.1 (by decide)
  have hparams : Inline (if colon then COLON :: m else m) ∧ (if colon then COLON :: m else m).length < 4000 := by
    have hmlen := hm.2.1
    cases colon with
    | false => exact ⟨hm.inline, Nat.lt_trans hmlen (by decide)⟩
    | true =>
        refine ⟨inline_cons (by decide) hm.inline, ?_⟩
        rw [if_pos rfl, List.length_cons]
        omega
  rcases parse_fromUser (ascii "NICK") hnick hmask (by decide) hparams.1 hparams.2 t with ⟨hcmd, _, irc, hto⟩
  have hto' : (parse (w.line t (.nick n mask m colon))).ircto = m := by
    apply hto.trans
    cases colon with
    | false => exact ircto_word irc hsp hm.head hlong
    | true => exact ircto_colon irc hsp hlong
  have hif := ifcommand_eq hcmd (by decide)
  have hshort : (w.line t (.nick n mask m colon)).length < 8192 := by
    have hnlen := hnick.2.1
    have hmlen := hmask.2.2
    have hplen := hparams.2
    have hbytes := length_bytes t
    have hlen : (ascii "NICK").length = 4 := by decide
    simp only [World.line, World.text, World.fromUser, List.length_cons, List.length_append, hlen]
    omega
  -- `parentnick` may change the line, but `netnick` reads the nick of the session.
  rcases parentnick_returns a.usern (a.user s).net hshort with ⟨out, hcode⟩
  have htoken : addtoken a.usern (a.user s) (parse (w.line t (.nick n mask m colon))) old
      (w.line t (.nick n mask m colon)) =
      some ⟨[], [], (netSource ((a.user s).caller a.usern) (parse (w.line t (.nick n mask m colon))) out.1 old).1,
        out.2⟩ := by
    -- `netnick` empties the line, as the nick is the one of the session.
    have hown : netnick ((a.user s).caller a.usern) (parse (w.line t (.nick n mask m colon)))
        (netSource ((a.user s).caller a.usern) (parse (w.line t (.nick n mask m colon))) out.1 old).1 = [] := by
      rw [netnick, hfit.caller, hto', if_neg]
      rw [strmncasecmp_false]
      exact fun h => h.1 rfl
    have hthash : ∀ src line, thash ((a.user s).caller a.usern) (parse (w.line t (.nick n mask m colon))) src line =
        some ([], netnick ((a.user s).caller a.usern) (parse (w.line t (.nick n mask m colon))) src) := by
      intro src line
      rw [thash]
      simp only [World.line, World.text, hif]
      rfl
    rw [addtoken, hcode]
    dsimp only
    rw [hthash, hown]
    rfl
  have hinit : initLine init (parse (w.line t (.nick n mask m colon))) (w.line t (.nick n mask m colon)) =
      w.line t (.nick n mask m colon) := initLine_eq _ hif (by decide)
  have hsame := congrArg (addtoken a.usern (a.user s) (parse (w.line t (.nick n mask m colon))) old) hinit
  exact shows_nothing hif (by decide) (hsame.trans htoken) ⟨rfl, rfl⟩

theorem shows_quit {reason : CStr} (h : Beyond tok pa all w w') (hp : TokenParent tok pa all)
    (hfit : a.Fits tok pa w.me s) (he : w.Valid (.quit n mask reason)) (hr : w.Retellable tok pa all (.quit n mask reason))
    (t : Terminator) :
    a.shows init old s (w.line t (.quit n mask reason)) =
      some [w'.text (.quit (retoldNick tok pa w.me n) mask reason)] := by
  rcases he with ⟨hon, hmask, hreason⟩
  have hn := Set.mem_insert_of_mem w.me hon
  rcases h.senderFits hn hr.2.1 with ⟨hs, hsource⟩
  rcases h.sender_text hn hmask with ⟨hsender, hslen⟩
  have hcmd : (ascii "QUIT").length = 4 := by decide
  have hlen : (COLON :: (n ++ BANG :: mask ++ SP :: (ascii "QUIT" ++ SP :: COLON :: reason))).length < 7000 := by
    have hrlen := hreason.2
    simp only [List.length_cons, List.length_append, hcmd] at hslen ⊢
    omega
  have hheard := @heard_text (n ++ BANG :: mask) (ascii "QUIT") (COLON :: reason) hsender (by decide)
    (inline_cons (by decide) hreason.1) (by omega) t
  have hif := ifcommand_eq hheard.sent.command (by decide)
  have hline : COLON :: (n ++ BANG :: mask ++ SP :: (ascii "QUIT" ++ SP :: COLON :: reason)) ++ t.bytes =
      COLON :: (n ++ BANG :: mask ++ lead SP (SP :: COLON :: (reason ++ t.bytes)) [ascii "QUIT"]) := by
    simp
  have hlen' : (COLON :: (n ++ BANG :: mask ++
      lead SP (SP :: COLON :: (reason ++ t.bytes)) [ascii "QUIT"])).length < 7900 := by
    have hbytes := length_bytes t
    simp only [List.length_cons, List.length_append, lead_cons, lead_nil] at hlen ⊢
    omega
  have hws : w.me = pa ∨ ∀ v ∈ [ascii "QUIT"], SP ∉ v ∧ v ≠ w.me := by
    rcases hr.2.2 with heq | hne
    · exact Or.inl heq
    · right
      intro v hv
      rw [List.mem_singleton.1 hv]
      exact ⟨by decide, Ne.symm hne⟩
  rcases addtoken_quiet old hfit (h.called hp) hs ⟨hsender.1, hslen⟩ hws (List.cons_ne_nil _ _) hlen'
    hheard with ⟨net, hcode⟩
  have hname := hheard.sent.nick n mask rfl ((h.sound.nicks n hn).stops (by decide)) (h.sound.nicks n hn).2.1
  -- It is not we who quit, so the line goes on with the name of the network.
  have hother : strmncasecmp w.me n = false := by
    rw [strmncasecmp_false]
    exact fun heq => hr.1 (h.sound.apart n hn w.me (Set.mem_insert _ _) heq.symm)
  have hthash : ∀ line, thash ((a.user s).caller a.usern)
      (parse (COLON :: (n ++ BANG :: mask ++ SP :: (ascii "QUIT" ++ SP :: COLON :: reason)) ++ t.bytes))
      (retoldSource tok pa w.me (n ++ BANG :: mask)) line =
      some ([], netquit ((a.user s).caller a.usern)
        (parse (COLON :: (n ++ BANG :: mask ++ SP :: (ascii "QUIT" ++ SP :: COLON :: reason)) ++ t.bytes)) line) := by
    intro line
    rw [thash]
    simp only [hif]
    rfl
  rw [hthash, Option.map_some, hfit.caller, netquit, hname, hother, if_neg (by decide), ← hline] at hcode
  have htext : COLON :: (retoldSource tok pa w.me (n ++ BANG :: mask) ++
      lead SP (SP :: COLON :: (reason ++ t.bytes)) [ascii "QUIT"]) =
      World.fromUser (retoldNick tok pa w.me n) mask (ascii "QUIT") (COLON :: reason) ++ t.bytes := by
    rw [hsource, World.fromUser]
    simp
  apply shows_line hif (by decide) (handled_other a s hif (by decide)) hcode ⟨rfl, rfl⟩ (List.cons_ne_nil _ _)
  have hinline := @fromUser_inline (retoldNick tok pa w.me n) mask (ascii "QUIT") (COLON :: reason)
    (h.retold_nick_inline hn) hmask.2.1 (by decide) (inline_cons (by decide) hreason.1)
  rw [htext]
  apply lineOf_terminated hinline.2.2.1 hinline.2.2.2
  have hmlen := hr.2.1.2
  have hrlen := hreason.2
  simp only [World.fromUser, List.length_cons, List.length_append, hcmd] at hmlen ⊢
  omega

/-- A KICK is one line. -/
theorem inline_kick {sender reason : CStr} {v : World} (hv : v.Sound)
    (he : v.Valid (.kick sender chan n reason)) : Inline (v.text (.kick sender chan n reason)) := by
  rcases he with ⟨hon, hsender, hchan, hreason⟩
  have hnick := hv.nicks n (Set.mem_insert_of_mem _ (hv.sub _ hon))
  have hparams : Inline (chan ++ SP :: (n ++ SP :: COLON :: reason)) :=
    inline_append hchan.word.2.2 (inline_cons (by decide)
      (inline_append hnick.inline (inline_cons (by decide) (inline_cons (by decide) hreason.1))))
  exact inline_cons (by decide) (inline_append hsender.1.2.2 (inline_cons (by decide)
    (inline_append (by decide) (inline_cons (by decide) hparams))))

theorem length_kick (v : World) (sender chan n reason : CStr) :
    (v.text (.kick sender chan n reason)).length =
      sender.length + chan.length + n.length + reason.length + 10 := by
  have hcmd : (ascii "KICK").length = 4 := by decide
  simp only [World.text, List.length_cons, List.length_append, hcmd]
  omega

theorem irccontent_kick {sender reason : CStr} {irc : Parsed}
    (hheard : Heard sender (ascii "KICK") (chan ++ SP :: (n ++ SP :: COLON :: reason)) irc)
    (hchan : ChanText chan) (hn : COLON ∉ n) (hreason : ReasonText reason) : irc.irccontent = reason := by
  have hcolon : COLON ∉ n ++ [SP] := by
    rw [List.mem_append, not_or]
    exact ⟨hn, by decide⟩
  have hwords : n ++ SP :: COLON :: reason = n ++ [SP] ++ COLON :: reason := by simp
  rw [hheard.sent.content]
  simp only [serverParams, cutAt_append hchan.word.1, afterPrefix_colon_of_head hchan.head]
  rw [hwords, serverContent_append hcolon, clip_eq_self (Nat.lt_trans hreason.2 (by decide))]

/-- The user is kicked by the nick that the client knows. -/
theorem kicked (h : Beyond tok pa all w w') (hn : n ∈ insert w.me w.online) (hme : w.me = pa ∨ n ≠ w.me) :
    (if strmncasecmp w.me n then n else tok ++ TILDE :: n) = retoldNick tok pa w.me n := by
  by_cases hown : n = w.me
  · rw [hown, if_pos (strmncasecmp_iff.2 rfl), retoldNick_self, hme.resolve_right (not_not.2 hown)]
  · rw [retoldNick_other hown, if_neg]
    intro heq
    exact hown (h.sound.apart n hn w.me (Set.mem_insert _ _) (strmncasecmp_iff.1 heq).symm)

/-- A KICK whose sender is retold is written anew. -/
theorem netkick_eq (u : NetModeUser) (irc : Parsed) {src rest : CStr} (hsrc : SP ∉ src) (hchan : SP ∉ chan)
    (hn : SP ∉ n) :
    netkick u irc src (COLON :: (src ++ lead SP (SP :: COLON :: rest) [ascii "KICK", chan, n])) =
      netline src (ascii " KICK #" ++ tokened u chan ++
        SP :: (if strmncasecmp u.nick n then n else tokened u n) ++ SP :: COLON :: irc.irccontent) := by
  have hstart : SP ∉ COLON :: src := by
    rw [List.mem_cons, not_or]
    exact ⟨by decide, hsrc⟩
  have hform : COLON :: (src ++ lead SP (SP :: COLON :: rest) [ascii "KICK", chan, n]) =
      (COLON :: src) ++ (ascii " KICK " ++ (chan ++ SP :: (n ++ SP :: COLON :: rest))) := by
    simp [ascii]
  have hcut := cutStr_skip (p := ascii "KICK ")
    (s := ascii " KICK " ++ (chan ++ SP :: (n ++ SP :: COLON :: rest))) hstart
  have hpattern : SP :: ascii "KICK " = ascii " KICK " := by decide
  rw [hpattern, cutStr_append] at hcut
  rw [netkick, hform, hcut]
  simp only [Option.map_some, cutAt_append hchan, cutAt_append hn]

theorem shows_kick {sender reason : CStr} (h : Beyond tok pa all w w') (hp : TokenParent tok pa all)
    (hfit : a.Fits tok pa w.me s) (he : w.Valid (.kick sender chan n reason))
    (hr : w.Retellable tok pa all (.kick sender chan n reason)) (t : Terminator) :
    a.shows init old s (w.line t (.kick sender chan n reason)) =
      some [w'.text
        (.kick (retoldSource tok pa w.me sender) (retoldChan tok chan) (retoldNick tok pa w.me n) reason)] := by
  have hvalid := (h.kick hp he hr).1
  have hlength := length_kick w sender chan n reason
  have htinline := inline_kick h.sound' hvalid
  have htlength := length_kick w' (retoldSource tok pa w.me sender) (retoldChan tok chan) (retoldNick tok pa w.me n)
    reason
  rcases he with ⟨hon, hsender, hchan, hreason⟩
  have hn := Set.mem_insert_of_mem w.me (h.sound.sub _ hon)
  have hnick := h.sound.nicks n hn
  have hnick' := h.sound'.nicks _ (Set.mem_insert_of_mem _ (h.sound'.sub _ hvalid.1))
  have hsp : SP ∉ n := hnick.stops (by decide)
  have hslen := hsender.2
  have hclen := hchan.short
  have hnlen := hnick.2.1
  have hrlen := hreason.2
  -- The line as the source parses it.
  have hparams : Inline (chan ++ SP :: (n ++ SP :: COLON :: reason)) :=
    inline_append hchan.word.2.2 (inline_cons (by decide)
      (inline_append hnick.inline (inline_cons (by decide) (inline_cons (by decide) hreason.1))))
  have hheard := @heard_text sender (ascii "KICK") (chan ++ SP :: (n ++ SP :: COLON :: reason))
    (Reflects.serverText_sender hsender) (by decide) hparams
    (by rw [World.text] at hlength; omega) t
  have hif := ifcommand_eq hheard.sent.command (by decide)
  have hline : COLON :: (sender ++ SP :: (ascii "KICK" ++ SP :: (chan ++ SP :: (n ++ SP :: COLON :: reason)))) ++
      t.bytes = COLON :: (sender ++ lead SP (SP :: COLON :: (reason ++ t.bytes)) [ascii "KICK", chan, n]) := by
    simp
  have hlen' : (COLON :: (sender ++
      lead SP (SP :: COLON :: (reason ++ t.bytes)) [ascii "KICK", chan, n])).length < 7900 := by
    have hbytes := length_bytes t
    rw [← hline, List.length_append]
    rw [World.text] at hlength
    omega
  -- `parentnick` finds our own nick in no word that it could change.
  have hws : w.me = pa ∨ ∀ v ∈ [ascii "KICK", chan, n], SP ∉ v ∧ v ≠ w.me := by
    rcases hr.2.2 with heq | hne
    · exact Or.inl heq
    · right
      intro v hv
      simp only [List.mem_cons, List.not_mem_nil, or_false] at hv hne
      rcases hv with rfl | rfl | rfl
      · exact ⟨by decide, fun heq => hne (Or.inr (Or.inr heq.symm))⟩
      · exact ⟨hchan.word.1, fun heq => hne (Or.inr (Or.inl heq.symm))⟩
      · exact ⟨hsp, fun heq => hne (Or.inl heq.symm)⟩
  rcases addtoken_quiet old hfit (h.called hp) hr.1 ⟨hsender.1.2.1, hsender.2⟩ hws (List.cons_ne_nil _ _) hlen'
    hheard with ⟨net, hcode⟩
  have hthash : ∀ line, thash ((a.user s).caller a.usern)
      (parse (COLON :: (sender ++ SP ::
        (ascii "KICK" ++ SP :: (chan ++ SP :: (n ++ SP :: COLON :: reason)))) ++ t.bytes))
      (retoldSource tok pa w.me sender) line = some ([], netkick ((a.user s).caller a.usern)
        (parse (COLON :: (sender ++ SP :: (ascii "KICK" ++ SP :: (chan ++ SP :: (n ++ SP :: COLON :: reason)))) ++
          t.bytes)) (retoldSource tok pa w.me sender) line) := by
    intro line
    rw [thash]
    simp only [hif]
    rfl
  -- The line that comes out is the one the client's server would have sent.
  have hme : w.me = pa ∨ n ≠ w.me :=
    hr.2.2.imp_right fun hno heq => hno (heq ▸ List.mem_cons_self)
  have htlen : (w'.text (.kick (retoldSource tok pa w.me sender) (retoldChan tok chan) (retoldNick tok pa w.me n)
      reason)).length < 8191 := by
    have hslen' := hr.1.2
    have hclen' := hr.2.1
    have hnlen' := hnick'.2.1
    omega
  have htext : COLON :: (retoldSource tok pa w.me sender ++ (ascii " KICK #" ++ (tok ++ TILDE :: chan) ++
      SP :: retoldNick tok pa w.me n ++ SP :: COLON :: reason)) =
      w'.text (.kick (retoldSource tok pa w.me sender) (retoldChan tok chan) (retoldNick tok pa w.me n) reason) := by
    simp [World.text, retoldChan, ascii]
  rw [hthash, hfit.caller, netkick_eq _ _ hvalid.2.1.1.2.1 hchan.word.1 hsp,
    irccontent_kick hheard hchan (hnick.stops (by decide)) hreason, Option.map_some, ← hline, netline, tokened,
    tokened] at hcode
  dsimp only at hcode
  rw [h.kicked hn hme, htext, clip_eq_self (Nat.lt_trans htlen (by decide))] at hcode
  exact shows_line hif (by decide) (handled_other a s hif (by decide)) hcode ⟨rfl, rfl⟩ (List.cons_ne_nil _ _)
    (lineOf_inline htinline htlen)

/-! ### Numerics -/

/-- The line of a server to a user with the parent's nick reaches its handler as it is. -/
theorem addtoken_own (old line : CStr) {irc : Parsed} (hfit : a.Fits tok pa pa s) (hc : Called pa pa)
    (hat : AT ∉ irc.ircfrom) :
    ∃ src net, addtoken a.usern (a.user s) irc old line =
      (thash ((a.user s).caller a.usern) irc src line).map fun q => ⟨q.1, q.2, src, net⟩ := by
  rcases parentnick_account hfit hc line with ⟨net, hcode⟩
  rw [if_pos rfl, Option.map_some] at hcode
  have hcond : ¬ (line.head? = some COLON ∧ AT ∈ irc.ircfrom ∧
      strmncasecmp ((a.user s).caller a.usern).myparentnick irc.ircnick = false) := fun h => hat h.2.1
  refine ⟨clip 200 irc.ircfrom, net, ?_⟩
  rw [addtoken, hcode]
  dsimp only
  rw [netSource, if_neg hcond]

/-- A buffer that was emptied stays so. -/
theorem addtoken_nil (old : CStr) {m cmd : CStr} {irc : Parsed} (hfit : a.Fits tok pa m s) (hc : Called m pa)
    (hcmd : ∀ word, ifcommand irc word = decide (word = cmd)) (hnumber : cmd = ascii "001" ∨ cmd = ascii "005") :
    ∃ src net, addtoken a.usern (a.user s) irc old [] = some ⟨[], [], src, net⟩ := by
  rcases parentnick_account hfit hc [] with ⟨net, hcode⟩
  have hline : (if m = pa then some [] else parentLine m pa []) = some [] := by
    split
    · rfl
    · rfl
  rw [hline, Option.map_some] at hcode
  have hsource : netSource ((a.user s).caller a.usern) irc [] old = (clip 200 irc.ircfrom, []) :=
    if_neg fun h => nomatch h.1
  have hdefault : netdefault ((a.user s).caller a.usern) irc [] = some [] := by
    have hnick : numericNick ((a.user s).caller a.usern) irc [] = none := rfl
    rw [netdefault, hnick]
    split
    · rfl
    · rfl
  have hthash : ∀ src, thash ((a.user s).caller a.usern) irc src [] = some ([], []) := by
    intro src
    rw [thash]
    rcases hnumber with rfl | rfl
    · simp only [hcmd]
      exact congrArg (Option.map fun line => ([], line)) hdefault
    · simp only [hcmd]
      exact congrArg (Option.map fun line => ([], line)) hdefault
  refine ⟨clip 200 irc.ircfrom, net, ?_⟩
  rw [addtoken, hcode]
  dsimp only
  rw [hsource, hthash]
  rfl

/-- The client hears nothing of the replies to a registration. -/
theorem shows_init {line cmd : CStr} (hfit : a.Fits tok pa m s) (hc : Called m pa)
    (hcmd : ∀ word, ifcommand (parse line) word = decide (word = cmd))
    (hinit : cmd = ascii "001" ∨ cmd = ascii "005" ∧ init = true) : a.shows init old s line = some [] := by
  have hempty : initLine init (parse line) line = [] := by
    rw [initLine, if_pos]
    rw [hcmd, hcmd, decide_eq_true_iff, decide_eq_true_iff]
    rcases hinit with rfl | ⟨rfl, hinit⟩
    · exact Or.inl rfl
    · exact Or.inr ⟨hinit, rfl⟩
  have hnumber : cmd = ascii "001" ∨ cmd = ascii "005" := hinit.imp_right And.left
  rcases addtoken_nil old hfit hc hcmd hnumber with ⟨src, net, hcode⟩
  rw [← hempty] at hcode
  apply shows_nothing hcmd _ hcode ⟨rfl, hempty⟩
  rcases hnumber with rfl | rfl
  · decide
  · decide

end Beyond

end PsyBnc
