import PsyBnc.Intnet.Leave
import PsyBnc.Lib.Run
import PsyBnc.Wildcard.Match

/-!
# Invites

An invite is an entry of the channel's list `invites`, which holds 20 of them.  A client that joins uses
up one entry with its nick; as `addinvite` does not look for one that is there, a second entry of the nick
lets the client in once more.
-/

namespace PsyBnc

open CLib

/-- A mask matches. -/
def maskMatches (mask text : CStr) : Bool := (wild_match mask text).any (· != 0)

/-- `mayjoin`: `0`, or `-1`, `-2` or `-3` for a ban, a wrong key or no invite. -/
def mayjoin (chan : Uchannelt) (client : Clientt) (key : CStr) : Int :=
  let ehost := clip 300 (clientMask client)
  if 105 ∈ chan.modes then if client.nick ∈ chan.invites then 0 else -3
  else if chan.bans.any fun entry => maskMatches entry ehost then -1
  else if 107 ∈ chan.modes ∧ strmcmp chan.key key = false then -2
  else 0

/-- What `cmdintjoin` does for a client of this bouncer and a channel that exists, with its `rc`;
`removeinvite` cuts the nick at a blank. -/
def joinround (chan : Uchannelt) (client : Clientt) (key : CStr) : Uchannelt × Int :=
  let rc := if getchannelnick chan client.nick ≠ none then -5 else mayjoin chan client key
  if rc < 0 then (chan, rc)
  else
    let client := { client with nick := firstWord client.nick }
    let joined := addnicktochannel (removeinvite chan client.nick) client.nick client.ident client.host
    let bop := clip 200 (clientMask client)
    match getchannelnick joined client.nick with
    | none => (joined, rc)
    | some k =>
        if chan.intops.any fun entry => maskMatches entry bop then (setmember joined k (ascii "@"), rc)
        else (joined, rc)

/-! ## Runs -/

/-- What happens on a channel: an invite, a request to join, a JOIN that comes over a link, and a client
that leaves. -/
inductive InviteEvent where
  | invite (nick : CStr)
  | join (client : Clientt) (key : CStr)
  | linkjoin (client : Clientt)
  | leave (nick : CStr)

/-- A channel, and the nicks that joined it and were not invited since. -/
structure InviteState where
  chan : Uchannelt
  spent : List CStr

def InviteEvent.run (s : InviteState) : InviteEvent → Option InviteState
  | .invite nick =>
      let spent :=
        if s.chan.invites.length < 20 then s.spent.filter (· ≠ firstWord nick) else s.spent
      some ⟨addinvite s.chan nick, spent⟩
  | .join client key =>
      let joined := joinround s.chan client key
      some ⟨joined.1, if joined.2 < 0 then s.spent else client.nick :: s.spent⟩
  | .linkjoin client =>
      let chan := addnicktochannel (removeinvite s.chan client.nick) client.nick client.ident client.host
      some ⟨chan, client.nick :: s.spent⟩
  | .leave nick => some ⟨removenickfromchannel s.chan nick, s.spent⟩

/-- Who has joined is not let in again without a new invite. -/
def InviteState.AdmitsOnce (s : InviteState) : Prop :=
  ∀ client key, client.nick ∈ s.spent → mayjoin s.chan client key = -3

/-- A client that comes onto the channel finds one invite for its nick at most. -/
def InviteEvent.Single (s : InviteState) : InviteEvent → Prop
  | .join client _ => getchannelnick s.chan client.nick = none → s.chan.invites.count client.nick ≤ 1
  | .linkjoin client => s.chan.invites.count client.nick ≤ 1
  | _ => True

/-- An invite-only channel with its list. -/
structure InviteOnly (s : InviteState) : Prop where
  mode : (105 : Byte) ∈ s.chan.modes
  room : s.chan.invites.length ≤ 20
  words : ∀ entry ∈ s.chan.invites, SP ∉ entry

section Runs

variable {s t : InviteState} {chan : Uchannelt} {nick ident host : CStr}

theorem mayjoin_inviteOnly (h : InviteOnly s) (client : Clientt) (key : CStr) :
    mayjoin s.chan client key = -3 ↔ client.nick ∉ s.chan.invites := by
  rw [mayjoin, if_pos h.mode]
  split
  · next hmem => simp [hmem]
  · next hmem => simp [hmem]

theorem admitsOnce_iff (h : InviteOnly s) : s.AdmitsOnce ↔ ∀ n ∈ s.spent, n ∉ s.chan.invites := by
  constructor
  · intro hadmits n hn
    have hclient := hadmits { nick := n, ident := [], host := [], server := [] } [] hn
    exact (mayjoin_inviteOnly h _ _).1 hclient
  · intro hspent client key hmem
    exact (mayjoin_inviteOnly h client key).2 (hspent _ hmem)

theorem notMem_firstWord (s : CStr) : SP ∉ firstWord s := by
  rw [firstWord]
  cases hcut : cutAt SP s with
  | none => exact cutAt_eq_none.1 hcut
  | some p => exact (cutAt_eq_some.1 hcut).2

theorem firstWord_eq_self {s : CStr} (h : SP ∉ s) : firstWord s = s := by
  rw [firstWord, cutAt_eq_none.2 h]

/-- Nothing but the list of members changes when a nick is added or set. -/
theorem addnicktochannel_invites :
    (addnicktochannel chan nick ident host).invites = chan.invites ∧
      (addnicktochannel chan nick ident host).modes = chan.modes := by
  rw [addnicktochannel]
  cases getchannelnick chan nick with
  | none => exact ⟨rfl, rfl⟩
  | some k => exact ⟨rfl, rfl⟩

theorem removeinvite_modes : (removeinvite chan nick).modes = chan.modes := by
  rw [removeinvite]
  split
  · rfl
  · rfl

/-- With the whole list looked at, one entry of the nick is taken out. -/
theorem removeinvite_invites (hroom : chan.invites.length ≤ 20) :
    (removeinvite chan nick).invites = chan.invites.erase (firstWord nick) := by
  rw [removeinvite, List.take_of_length_le hroom]
  split
  · rfl
  · next hmem => exact (List.erase_of_not_mem hmem).symm

/-- What joins for a client that may join: its invite is used up. -/
theorem joinround_spec (client : Clientt) (key : CStr) :
    ((joinround chan client key).2 < 0 ∧ (joinround chan client key).1 = chan ∧
        (getchannelnick chan client.nick ≠ none ∨ mayjoin chan client key < 0)) ∨
      (¬ (joinround chan client key).2 < 0 ∧ getchannelnick chan client.nick = none ∧
        ¬ mayjoin chan client key < 0 ∧
        (joinround chan client key).1.invites = (removeinvite chan (firstWord client.nick)).invites ∧
          (joinround chan client key).1.modes = chan.modes) := by
  rw [joinround]
  by_cases hon : getchannelnick chan client.nick ≠ none
  · left
    simp [hon]
  · simp only [if_neg hon]
    by_cases hmay : mayjoin chan client key < 0
    · left
      simp [hmay]
    · right
      simp only [if_neg hmay]
      rcases @addnicktochannel_invites (removeinvite chan (firstWord client.nick)) (firstWord client.nick)
        client.ident client.host with ⟨hinvites, hmodes⟩
      refine ⟨?_, not_not.1 hon, hmay, ?_, ?_⟩
      · split
        · exact hmay
        · split
          · exact hmay
          · exact hmay
      · split
        · exact hinvites
        · split
          · exact hinvites
          · exact hinvites
      · have hsame := hmodes.trans removeinvite_modes
        split
        · exact hsame
        · split
          · exact hsame
          · exact hsame

/-- After one entry of a nick is used up there is no other if it was there once at most. -/
theorem notMem_erase_iff {l : List CStr} {n : CStr} : n ∉ l.erase n ↔ l.count n ≤ 1 := by
  rw [← List.count_eq_zero, List.count_erase_self]
  omega

/-- A nick joins: the others are as they were. -/
theorem admitsOnce_join (hs : InviteOnly s) (hadmits : s.AdmitsOnce) (ht : InviteOnly t)
    (hspent : t.spent = nick :: s.spent) (hinvites : t.chan.invites = s.chan.invites.erase nick) :
    t.AdmitsOnce ↔ s.chan.invites.count nick ≤ 1 := by
  rw [admitsOnce_iff hs] at hadmits
  rw [admitsOnce_iff ht, hspent, List.forall_mem_cons, hinvites, notMem_erase_iff]
  constructor
  · exact fun h => h.1
  · intro hcount
    exact ⟨hcount, fun n hn hmem => hadmits n hn (List.mem_of_mem_erase hmem)⟩

theorem InviteOnly.erase (h : InviteOnly s) (hmodes : t.chan.modes = s.chan.modes) {n : CStr}
    (hinvites : t.chan.invites = s.chan.invites.erase n) : InviteOnly t where
  mode := by
    rw [hmodes]
    exact h.mode
  room := by
    rw [hinvites]
    exact (List.length_erase_le).trans h.room
  words := by
    intro entry hmem
    rw [hinvites] at hmem
    exact h.words entry (List.mem_of_mem_erase hmem)

/-- One event. -/
theorem InviteEvent.step (hs : InviteOnly s) (hadmits : s.AdmitsOnce) (e : InviteEvent) :
    ∃ t, e.run s = some t ∧ InviteOnly t ∧ (e.Single s ↔ t.AdmitsOnce) := by
  cases e with
  | invite nick =>
      refine ⟨_, rfl, ?_, ?_⟩
      · rw [addinvite]
        split
        · next hroom =>
          refine ⟨hs.mode, ?_, ?_⟩
          · rw [List.length_append, List.length_singleton]
            exact hroom
          · intro entry hmem
            rcases List.mem_append.1 hmem with hmem | hmem
            · exact hs.words entry hmem
            · rw [List.mem_singleton.1 hmem]
              exact notMem_firstWord nick
        · exact ⟨hs.mode, hs.room, hs.words⟩
      · refine ⟨fun _ => ?_, fun _ => trivial⟩
        -- A new invite admits its nick again, who therefore leaves the list of the spent.
        have hspent := (admitsOnce_iff hs).1 hadmits
        rw [addinvite]
        by_cases hroom : s.chan.invites.length < 20
        · rw [if_pos hroom, if_pos hroom]
          intro client key hmem
          rcases List.mem_filter.1 hmem with ⟨hmem, hne⟩
          have hnew : client.nick ∉ s.chan.invites ++ [firstWord nick] := by
            rw [List.mem_append, List.mem_singleton, not_or]
            exact ⟨hspent _ hmem, of_decide_eq_true hne⟩
          rw [mayjoin, if_pos hs.mode, if_neg hnew]
        · rw [if_neg hroom, if_neg hroom]
          exact hadmits
  | join client key =>
      have hmayjoin := mayjoin_inviteOnly hs client key
      rcases @joinround_spec s.chan client key with
        ⟨hrc, hchan, hno⟩ | ⟨hrc, hon, hmay, hinvites, hmodes⟩
      · refine ⟨⟨s.chan, s.spent⟩, ?_, hs, fun _ => hadmits, fun _ hon => ?_⟩
        · simp only [InviteEvent.run, hchan, hrc, if_true]
        · rcases hno with hno | hno
          · exact absurd hon hno
          · -- The client was refused, so there is no invite.
            have hnone : client.nick ∉ s.chan.invites := by
              intro hmem
              rw [mayjoin, if_pos hs.mode, if_pos hmem] at hno
              exact absurd hno (by decide)
            rw [List.count_eq_zero.2 hnone]
            exact Nat.zero_le 1
      · -- The client came in, so an invite was there, and the join takes one of them away.
        have hmem : client.nick ∈ s.chan.invites := by
          by_contra hmem
          rw [hmayjoin.2 hmem] at hmay
          exact hmay (by decide)
        have hword := firstWord_eq_self (hs.words _ hmem)
        rw [removeinvite_invites hs.room, hword, hword] at hinvites
        have ht : InviteOnly ⟨(joinround s.chan client key).1, client.nick :: s.spent⟩ :=
          hs.erase hmodes hinvites
        refine ⟨⟨(joinround s.chan client key).1, client.nick :: s.spent⟩, ?_, ht, ?_⟩
        · simp only [InviteEvent.run, if_neg hrc]
        · rw [admitsOnce_join hs hadmits ht rfl hinvites]
          simp [InviteEvent.Single, hon]
  | linkjoin client =>
      rcases @addnicktochannel_invites (removeinvite s.chan client.nick) client.nick client.ident
        client.host with ⟨hinvites, hmodes⟩
      rw [removeinvite_invites hs.room] at hinvites
      rw [removeinvite_modes] at hmodes
      refine ⟨_, rfl, hs.erase hmodes hinvites, ?_⟩
      by_cases hblank : SP ∈ client.nick
      · -- Such a nick is in no entry.
        have hnone : client.nick ∉ s.chan.invites := fun hmem => hs.words _ hmem hblank
        have hsingle : InviteEvent.Single s (.linkjoin client) := by
          rw [InviteEvent.Single, List.count_eq_zero.2 hnone]
          exact Nat.zero_le 1
        refine ⟨fun _ => ?_, fun _ => hsingle⟩
        rw [admitsOnce_iff (hs.erase hmodes hinvites), List.forall_mem_cons, hinvites]
        have hspent := (admitsOnce_iff hs).1 hadmits
        exact ⟨fun hmem => hnone (List.mem_of_mem_erase hmem),
          fun n hn hmem => hspent n hn (List.mem_of_mem_erase hmem)⟩
      · rw [firstWord_eq_self hblank] at hinvites
        exact (admitsOnce_join hs hadmits (hs.erase hmodes hinvites) rfl hinvites).symm
  | leave nick =>
      exact ⟨_, rfl, ⟨hs.mode, hs.room, hs.words⟩, fun _ => hadmits, fun _ => trivial⟩

end Runs

/-- An invite admits once in the whole of a run just if every client that comes onto the channel finds one
invite for its nick at most. -/
theorem invite_admits_once_iff (chan : Uchannelt) (hmode : (105 : Byte) ∈ chan.modes)
    (hinvites : chan.invites = []) (events : List InviteEvent) :
    Safe InviteEvent.run InviteState.AdmitsOnce ⟨chan, []⟩ events ↔
      StepsMeet InviteEvent.run InviteEvent.Single ⟨chan, []⟩ events := by
  have hstart : InviteOnly ⟨chan, []⟩ := ⟨hmode, by simp [hinvites], by simp [hinvites]⟩
  apply safe_iff_stepsMeet_of_inputs InviteOnly (W := fun _ => True)
  · intro s e hs _ hadmits
    exact e.step hs hadmits
  · exact fun _ _ => trivial
  · exact hstart
  · intro client key hmem
    cases hmem

/-- A channel that can be joined by invite only. -/
def inviteChannel : Uchannelt :=
  { name := ascii "#secret", modes := ascii "nti", users := [{ nick := ascii "op", mode := ascii "@" }] }

def invitedBob : Clientt :=
  { intuser := 2, nick := ascii "bob", ident := ascii "b", host := ascii "h", server := ascii "me" }

theorem invite_admits_once_iff_bob :
    Safe InviteEvent.run InviteState.AdmitsOnce ⟨inviteChannel, []⟩
        [.invite (ascii "bob"), .join invitedBob [], .leave (ascii "bob")] ↔
      StepsMeet InviteEvent.run InviteEvent.Single ⟨inviteChannel, []⟩
        [.invite (ascii "bob"), .join invitedBob [], .leave (ascii "bob")] :=
  invite_admits_once_iff inviteChannel (by decide) rfl _

/-- Invited twice, a client that has joined and left is let in again. -/
theorem invite_twice :
    ∃ s, runAll InviteEvent.run ⟨inviteChannel, []⟩
        [.invite (ascii "bob"), .invite (ascii "bob"), .join invitedBob [], .leave (ascii "bob")] = some s ∧
      s.spent = [ascii "bob"] ∧ getchannelnick s.chan (ascii "bob") = none ∧
        mayjoin s.chan invitedBob [] = 0 :=
  ⟨_, rfl, by decide +kernel, by decide +kernel, by decide +kernel⟩

end PsyBnc
