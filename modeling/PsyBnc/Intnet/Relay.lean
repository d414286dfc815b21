import PsyBnc.Intnet.Model

/-!
# What a bouncer passes on

A bouncer that gets a line of the internal network passes it on to all its links but the one the
line came from.  `sendtoclient` breaks this rule for a nick that it does not know: it writes to all
links.
-/

namespace PsyBnc

open CLib

/-- The links that are written to, with the texts. -/
def linkOuts (outs : List Out) : List (Nat × CStr) :=
  outs.filterMap fun out =>
    match out with
    | .link nlink ircbuf => some (nlink, ircbuf)
    | .user _ _ => none

/-- Nothing is passed on, or one text to all open links but `nlink`. -/
def PassesOn (net : Intnet) (nlink : Nat) (outs : List Out) : Prop :=
  linkOuts outs = [] ∨ ∃ text, linkOuts outs = linkOuts (broadcast net nlink text)

section OneBouncer

variable {net : Intnet} {nlink : Nat}

theorem linkOuts_append (outs outs' : List Out) :
    linkOuts (outs ++ outs') = linkOuts outs ++ linkOuts outs' := by
  simp [linkOuts]

theorem linkOuts_broadcast (net : Intnet) (nlink : Nat) (text : CStr) :
    linkOuts (broadcast net nlink text) =
      (net.linknode.filter fun l => decide (l.uid ≠ nlink) && l.open).map fun l => (l.uid, text) := by
  simp [linkOuts, broadcast, List.filterMap_map]

theorem broadcast_passesOn {net' : Intnet} (h : net'.linknode = net.linknode) (text : CStr) :
    PassesOn net nlink (broadcast net' nlink text) :=
  Or.inr ⟨text, by simp only [linkOuts_broadcast, h]⟩

theorem linknode_createclient (usern : Nat) (nick ident host server : CStr) :
    (createclient net usern nick ident host server).linknode = net.linknode := by
  by_cases h : net.clients.any fun cl => decide (cl.intuser = usern ∧ usern ≠ 0)
  · rw [createclient, if_pos h]
  · rw [createclient, if_neg h]

@[simp] theorem linkOuts_toLocal (client : Clientt) (buf : CStr) :
    linkOuts (toLocal net client buf) = [] := by
  by_cases h : 0 < client.intuser ∧ client.intuser ∈ net.instate
  · simp [toLocal, h, linkOuts]
  · simp [toLocal, h, linkOuts]

@[simp] theorem linkOuts_toMember (buf : CStr) (chanu : Uchannelusert) :
    linkOuts (toMember net buf chanu) = [] := by
  cases hclient : getclientbynick net chanu.nick with
  | none =>
      simp [toMember, hclient, linkOuts]
  | some client =>
      simp [toMember, hclient]

theorem linkOuts_members (buf : CStr) (users : List Uchannelusert) :
    linkOuts (users.flatMap (toMember net buf)) = [] := by
  induction users with
  | nil =>
      rfl
  | cons chanu users ih =>
      rw [List.flatMap_cons, linkOuts_append, ih, linkOuts_toMember, List.append_nil]

theorem sendtochannel_passesOn (channel text : CStr) :
    PassesOn net nlink (sendtochannel net channel nlink text) := by
  refine Or.inr ⟨intnetLine net.me (clip 2048 text), ?_⟩
  simp only [sendtochannel, linkOuts_append, linkOuts_members, List.nil_append]

theorem sendtoclient_passesOn {nick : CStr} (hknown : getclientbynick net nick ≠ none)
    (text : CStr) : PassesOn net nlink (sendtoclient net nick nlink text) := by
  rcases Option.ne_none_iff_exists'.1 hknown with ⟨client, hclient⟩
  by_cases huser : 0 < client.intuser
  · refine Or.inl ?_
    simp [sendtoclient, hclient, huser]
  · refine Or.inr ⟨intnetLine net.me (clip 2048 text), ?_⟩
    simp [sendtoclient, hclient, huser]

/-- A client is found under its own nick. -/
theorem getclientbynick_self {nick : CStr} {client : Clientt}
    (h : getclientbynick net nick = some client) :
    getclientbynick net client.nick ≠ none := by
  have hmem : client ∈ net.clients := List.mem_of_find?_eq_some h
  intro hnone
  have hno := List.find?_eq_none.1 hnone client hmem
  exact hno (strmcmp_iff.2 rfl)

/-- The condition at one bouncer: whom the line is for is a channel or a nick known here, unless
the line is ignored. -/
def TargetKnown (net : Intnet) (ircbuf : CStr) : Prop :=
  let irc := parse (clip 8192 (rtrim (parse ircbuf).irccontent))
  (ifcommand irc (ascii "PRIVMSG") || ifcommand irc (ascii "NOTICE")) = true →
      (getclientbynick net irc.ircnick = none ∧ irc.ircnick ≠ []) ∨ irc.ircto.head? = some 35 ∨
        getclientbynick net irc.ircto ≠ none

/-- The same for an invitation, which is ignored on an unknown channel and for a member. -/
def InvitedKnown (net : Intnet) (ircbuf : CStr) : Prop :=
  let irc := parse (clip 8192 (rtrim (parse ircbuf).irccontent))
  ifcommand irc (ascii "INVITE") = true → getclientbynick net irc.ircnick ≠ none →
    ∀ k, getuserchannel net.intchan irc.irccontent = some k →
      ((net.intchan[k]?).bind fun chan => getchannelnick chan irc.ircto) = none →
        getclientbynick net (firstWord irc.ircto) ≠ none

theorem intmode_passesOn (ircfrom currentto modes params : CStr) :
    PassesOn net nlink (intmode net ircfrom currentto modes params nlink).2 := by
  cases hk : getuserchannel net.intchan currentto with
  | none =>
      exact Or.inl (by simp [intmode, hk, linkOuts])
  | some k =>
      cases hchan : net.intchan[k]? with
      | none =>
          exact Or.inl (by simp [intmode, hk, hchan, linkOuts])
      | some chan =>
          let s := modes.foldl (intmodeStep net) { chan := chan, p := modeParams params }
          by_cases hmode : s.newmode = [] ∨ s.newmode = [PLUS] ∨ s.newmode = [MINUS]
          · refine Or.inl ?_
            simp only [intmode, hk, hchan]
            rw [if_pos hmode]
            rfl
          · simp only [intmode, hk, hchan]
            rw [if_neg hmode]
            -- The bouncer with the changed channel has the links of the old one.
            exact sendtochannel_passesOn _ _

theorem cmdintuser_passesOn (irc : Parsed) :
    PassesOn net nlink (cmdintuser net irc nlink).2 := by
  simp only [cmdintuser]
  cases cutAt SP irc.ircto with
  | none =>
      exact Or.inl rfl
  | some p =>
      by_cases hguest : ascii "Guest" <+: clip 64 p.1 ∧ atoi ((clip 64 p.1).drop 5) ≠ 0
      · simp only [if_pos hguest]
        exact Or.inl rfl
      simp only [if_neg hguest]
      cases cutAt SP p.2 with
      | none =>
          exact Or.inl rfl
      | some q =>
          cases hclient : getclientbynick net (clip 64 p.1) with
          | some client =>
              -- The collision is reported to a client that is known.
              exact sendtoclient_passesOn (getclientbynick_self hclient) _
          | none =>
              exact broadcast_passesOn (linknode_createclient _ _ _ _ _) _

theorem cmdintinvite_passesOn {irc : Parsed} (ircbuf : CStr)
    (hknown : getclientbynick net irc.ircnick ≠ none →
      ∀ k, getuserchannel net.intchan irc.irccontent = some k →
        ((net.intchan[k]?).bind fun chan => getchannelnick chan irc.ircto) = none →
          getclientbynick net (firstWord irc.ircto) ≠ none) :
    PassesOn net nlink (cmdintinvite net irc ircbuf nlink).2 := by
  simp only [cmdintinvite]
  cases hclient : getclientbynick net irc.ircnick with
  | none =>
      exact Or.inl rfl
  | some client =>
      cases hk : getuserchannel net.intchan irc.irccontent with
      | none =>
          exact Or.inl rfl
      | some k =>
          by_cases hmember : ((net.intchan[k]?).bind fun chan => getchannelnick chan irc.ircto) ≠
              none
          · simp only [if_pos hmember]
            exact Or.inl rfl
          · simp only [if_neg hmember]
            have hsome := hknown (by simp [hclient]) k hk (not_not.1 hmember)
            exact sendtoclient_passesOn hsome _

theorem internalinbound_passesOn {ircbuf : CStr} (htarget : TargetKnown net ircbuf)
    (hinvite : InvitedKnown net ircbuf) :
    PassesOn net nlink
      (internalinbound net (clip 8192 (rtrim (parse ircbuf).irccontent)) nlink).2 := by
  simp only [TargetKnown, InvitedKnown] at htarget hinvite
  generalize clip 8192 (rtrim (parse ircbuf).irccontent) = inner at htarget hinvite ⊢
  generalize hirc : parse inner = irc at htarget hinvite
  simp only [internalinbound, hirc]
  by_cases hmsg : (ifcommand irc (ascii "PRIVMSG") || ifcommand irc (ascii "NOTICE")) = true
  · simp only [hmsg, if_true, cmdintprivmsg]
    by_cases hfake : getclientbynick net irc.ircnick = none ∧ irc.ircnick ≠ []
    · rw [if_pos hfake]
      exact Or.inl rfl
    by_cases hchan : irc.ircto.head? = some 35
    · rw [if_neg hfake, if_pos hchan]
      exact sendtochannel_passesOn _ _
    · rw [if_neg hfake, if_neg hchan]
      rcases htarget hmsg with h | h | hknown
      · exact absurd h hfake
      · exact absurd h hchan
      · exact sendtoclient_passesOn hknown _
  rw [if_neg hmsg]
  by_cases hjoin : ifcommand irc (ascii "JOIN") = true
  · simp only [hjoin, if_true, cmdintjoin]
    cases getclientbynick net irc.ircnick with
    | none =>
        exact Or.inl rfl
    | some client =>
        exact sendtochannel_passesOn _ _
  rw [if_neg hjoin]
  by_cases hmode : ifcommand irc (ascii "MODE") = true
  · simp only [hmode, if_true, cmdintmode]
    by_cases hto : clip 200 irc.ircto = []
    · rw [if_pos hto]
      exact Or.inl rfl
    · rw [if_neg hto]
      cases cutAt SP irc.irccontent with
      | none =>
          exact intmode_passesOn _ _ _ _
      | some p =>
          exact intmode_passesOn _ _ _ _
  rw [if_neg hmode]
  by_cases huser : ifcommand irc (ascii "USER") = true
  · simp only [huser, if_true]
    exact cmdintuser_passesOn irc
  rw [if_neg huser]
  by_cases hinv : ifcommand irc (ascii "INVITE") = true
  · simp only [hinv, if_true]
    exact cmdintinvite_passesOn inner (hinvite hinv)
  · simp only [hinv]
    exact Or.inl rfl

end OneBouncer

end PsyBnc
