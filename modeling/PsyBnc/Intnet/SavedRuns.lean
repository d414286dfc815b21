import PsyBnc.Intnet.Mine
import PsyBnc.Intnet.Saved

/-!
# Saved channels over whole runs

A local user joins and parts, and so do others, here and behind links.  What is saved for him are the channels he
joined and did not part since, up to case, as long as he joins no channel while he is on 20 of them.
-/

namespace PsyBnc

open CLib

/-- A local user, and his client. -/
structure IntUser where
  usern : Nat
  client : Clientt
  usern_lt : usern < 2 ^ 31
  blank : SP ∉ client.nick
  short : client.nick.length < 64

/-- Another number, and a nick that is not the same. -/
def OtherUser (u v : IntUser) : Prop :=
  v.usern ≠ u.usern ∧ sameName 64 v.client.nick u.client.nick = false

/-- One channel of a request: requests are cut at these bytes. -/
structure Asked where
  channel : CStr
  blank : SP ∉ channel
  comma : COMMA ∉ channel

/-- The network, the configuration, and the names in upper case of the channels that the user joined and did not
part since. -/
structure IntState where
  net : Intnet
  conf : Conf
  joined : List CStr

inductive IntEvent (u : IntUser) where
  | join (asked : Asked) (key : CStr)
  | part (asked : Asked) (irccontent : CStr)
  | userJoin (v : IntUser) (hother : OtherUser u v) (channel key : CStr)
  | userPart (v : IntUser) (hother : OtherUser u v) (channel irccontent : CStr)
  | linkJoin (irc : Parsed) (hother : sameName 64 irc.ircnick u.client.nick = false) (ircbuf : CStr) (link : Nat)
  | linkPart (irc : Parsed) (hother : sameName 64 irc.ircnick u.client.nick = false) (ircbuf : CStr) (link : Nat)

/-- `cmdintjoin` for one channel, with `addconfigchannel` when it was joined. -/
def savedJoin (v : IntUser) (channel key : CStr) (net : Intnet) (conf : Conf) : Option (Intnet × Conf) :=
  let joined := userJoin net.intchan v.client channel key
  let net := { net with intchan := joined.1 }
  match joined.2 with
  | none => some (net, conf)
  | some name => (addconfigchannel v.usern name conf).map fun conf => (net, conf)

/-- `cmdintpart` for one channel, with `removeconfigchannel` when it was parted. -/
def savedPart (v : IntUser) (channel irccontent : CStr) (net : Intnet) (conf : Conf) : Option (Intnet × Conf) :=
  let parted := userPart net v.client channel irccontent
  match parted.2 with
  | none => some (parted.1, conf)
  | some name => (removeconfigchannel v.usern name conf).map fun conf => (parted.1, conf)

/-- The user joins the channel. -/
def Joining (u : IntUser) (s : IntState) (channel key : CStr) : Prop :=
  (userJoin s.net.intchan u.client channel key).2 ≠ none

instance (u : IntUser) (s : IntState) (channel key : CStr) : Decidable (Joining u s channel key) := by
  unfold Joining
  infer_instance

def Parting (u : IntUser) (s : IntState) (channel irccontent : CStr) : Prop :=
  (userPart s.net u.client channel irccontent).2 ≠ none

instance (u : IntUser) (s : IntState) (channel irccontent : CStr) :
    Decidable (Parting u s channel irccontent) := by
  unfold Parting
  infer_instance

def intStep (u : IntUser) (s : IntState) : IntEvent u → Option IntState
  | .join asked key =>
      let joined :=
        if Joining u s asked.channel key then ucase (clip 200 asked.channel) :: s.joined else s.joined
      (savedJoin u asked.channel key s.net s.conf).map fun p => ⟨p.1, p.2, joined⟩
  | .part asked irccontent =>
      let joined :=
        if Parting u s asked.channel irccontent then s.joined.erase (ucase (clip 200 asked.channel))
        else s.joined
      (savedPart u asked.channel irccontent s.net s.conf).map fun p => ⟨p.1, p.2, joined⟩
  | .userJoin v _ channel key =>
      (savedJoin v channel key s.net s.conf).map fun p => ⟨p.1, p.2, s.joined⟩
  | .userPart v _ channel irccontent =>
      (savedPart v channel irccontent s.net s.conf).map fun p => ⟨p.1, p.2, s.joined⟩
  | .linkJoin irc _ ircbuf link => some { s with net := (cmdintjoin s.net irc ircbuf link).1 }
  | .linkPart irc _ ircbuf link => some { s with net := (cmdintpart s.net irc ircbuf link).1 }

/-- What is saved, and what is joined again, are the channels that the user joined. -/
structure ChannelsSaved (u : IntUser) (s : IntState) : Prop where
  once : s.joined.Nodup
  saved : ((savedNames u.usern s.conf).map ucase).Perm s.joined
  rejoined : ∀ (client : Clientt) (key : CStr) (channels : List Uchannelt),
    ((rejoinintchannels u.usern client key s.conf channels).2.map ucase).Perm s.joined

/-- There is a slot for the channel that the user joins. -/
def HasSlot (u : IntUser) (s : IntState) : IntEvent u → Prop
  | .join asked key => Joining u s asked.channel key → s.joined.length < 20
  | _ => True

instance (u : IntUser) (s : IntState) : ∀ event : IntEvent u, Decidable (HasSlot u s event)
  | .join asked key => inferInstanceAs (Decidable (Joining u s asked.channel key → s.joined.length < 20))
  | .part _ _ => isTrue trivial
  | .userJoin _ _ _ _ => isTrue trivial
  | .userPart _ _ _ _ => isTrue trivial
  | .linkJoin _ _ _ _ => isTrue trivial
  | .linkPart _ _ _ _ => isTrue trivial

/-- The user is on no channel, and none is saved for him. -/
structure IntStart (u : IntUser) (s : IntState) : Prop where
  names : (s.net.intchan.map fun chan => foldName chan.name).Nodup
  absent : ∀ chan ∈ s.net.intchan, getchannelnick chan u.client.nick = none
  joined : s.joined = []
  unsaved : ∀ e ∈ s.conf, ¬ sectionText (userFile u.usern) INTCHANS <+: e
  other : OtherLine s.conf
  counted : EntriesNumbered s.conf

/-! ## Names up to case -/

section Names

variable {name w : CStr}

theorem ucase_of_foldName (hw : w.length < 200) (h : foldName name = foldName w) :
    name.length < 200 ∧ ucase name = ucase w := by
  have hclip : clip 255 w = w := clip_eq_self (Nat.lt_trans hw (by decide))
  rw [foldName, foldName, hclip] at h
  have hlen := congrArg List.length h
  rw [length_ucase, length_ucase, length_clip] at hlen
  have hname : name.length < 200 := by omega
  rw [clip_eq_self (Nat.lt_trans hname (by decide))] at h
  exact ⟨hname, h⟩

theorem JoinWord.congr (h : JoinWord w) (hlen : name.length < 200) (heq : ucase name = ucase w) :
    JoinWord name where
  sign := by
    have hhead := congrArg List.head? heq
    rw [ucase, ucase, List.head?_map, List.head?_map, h.sign, Option.map_some] at hhead
    rcases Option.map_eq_some_iff.1 hhead with ⟨b, hb, hsign⟩
    have hb' : b = CHANSIGN := (toupper_eq_iff (by decide)).1 hsign
    rw [hb, hb']
  blank := by
    rw [← mem_ucase_iff (by decide), heq, mem_ucase_iff (by decide)]
    exact h.blank
  comma := by
    rw [← mem_ucase_iff (by decide), heq, mem_ucase_iff (by decide)]
    exact h.comma
  short := hlen

theorem Asked.joinWord (asked : Asked) (hsign : (clip 200 asked.channel).head? = some CHANSIGN) :
    JoinWord (clip 200 asked.channel) where
  sign := hsign
  blank := fun hmem => asked.blank (List.mem_of_mem_take hmem)
  comma := fun hmem => asked.comma (List.mem_of_mem_take hmem)
  short := by
    rw [length_clip]
    omega

end Names

/-! ## What a step keeps -/

theorem Saves.perm {usern : Nat} {husern : usern < 2 ^ 31} {n : Nat} {conf : Conf} {names names' : List CStr}
    (h : Saves husern n conf names) (hperm : names'.Perm names) : Saves husern n conf names' := by
  rcases h.slots with ⟨g, hslots, hnumbers⟩
  exact ⟨⟨g, hslots, hnumbers.congr fun _ => hperm.mem_iff⟩, hperm.nodup_iff.2 h.nodup,
    fun name hname => h.short name (hperm.mem_iff.1 hname)⟩

/-- The channels that the user is on, and the lines of the configuration. -/
structure IntKept (u : IntUser) (s : IntState) : Prop where
  membership : Membership u.client.nick s.net.intchan
  names : ((mine u.client.nick s.net.intchan).map ucase).Perm s.joined
  words : ∀ name ∈ mine u.client.nick s.net.intchan, JoinWord name
  other : OtherLine s.conf
  counted : EntriesNumbered s.conf
  saves : s.joined.length ≤ 20 → Saves u.usern_lt 20 s.conf (mine u.client.nick s.net.intchan)

section Steps

variable {u : IntUser} {s : IntState} {net : Intnet} {conf : Conf}

theorem OtherLine.ne_nil (h : OtherLine conf) : conf ≠ [] := by
  rcases h with ⟨e, he, _⟩
  exact List.ne_nil_of_mem he

theorem IntStart.kept (h : IntStart u s) : IntKept u s := by
  have hours : ∀ chan ∈ s.net.intchan, ours u.client.nick chan = [] :=
    fun chan hchan => ours_eq_nil_iff.2 (h.absent chan hchan)
  have hmine : mine u.client.nick s.net.intchan = [] := by
    rw [List.eq_nil_iff_forall_not_mem]
    intro name hname
    rcases mem_mine.1 hname with ⟨chan, hchan, hon, _⟩
    exact hon (hours chan hchan)
  have hslots : Slots (intchanName u.usern_lt) s.conf fun _ => none := by
    rcases h.other with ⟨e, he, hother⟩
    refine ⟨⟨e, he, hother u.usern⟩, ?_, fun e => ?_, fun _ _ hd => by cases hd⟩
    · have hnil : s.conf.filter (fun e => decide ((intchanName u.usern_lt).pattern <+: e)) = [] := by
        rw [List.filter_eq_nil_iff]
        intro e he
        rw [decide_eq_true_iff]
        exact h.unsaved e he
      rw [hnil]
      exact List.nodup_nil
    · constructor
      · rintro ⟨he, hpre⟩
        exact absurd hpre (h.unsaved e he)
      · rintro ⟨_, _, hd, _⟩
        cases hd
  refine ⟨⟨h.names, fun chan hchan => Or.inl (hours chan hchan)⟩, ?_, ?_, h.other, h.counted, fun _ => ?_⟩
  · rw [hmine, h.joined]
    exact List.Perm.refl _
  · rw [hmine]
    exact fun _ hname => absurd hname List.not_mem_nil
  · rw [hmine]
    exact ⟨⟨_, hslots, Numbers.empty 20⟩, List.nodup_nil, fun _ hname => absurd hname List.not_mem_nil⟩

theorem length_rejoined_le (usern : Nat) (client : Clientt) (key : CStr) (conf : Conf) (channels : List Uchannelt) :
    (rejoinintchannels usern client key conf channels).2.length ≤ 20 :=
  calc
    (rejoinintchannels usern client key conf channels).2.length ≤ (List.range 20).length :=
      List.length_filterMap_le _ _
    _ = 20 := List.length_range

/-- What is saved are the channels exactly when there are no more of them than slots. -/
theorem IntKept.saved_iff (h : IntKept u s) : ChannelsSaved u s ↔ s.joined.length ≤ 20 := by
  constructor
  · intro hsaved
    have hlen := (hsaved.rejoined u.client [] []).length_eq
    rw [List.length_map] at hlen
    rw [← hlen]
    exact length_rejoined_le u.usern u.client [] s.conf []
  · intro hlen
    have hsaves := h.saves hlen
    refine ⟨?_, ?_, fun client key channels => ?_⟩
    · -- up to case there is one channel of a name
      have hfold : (mine u.client.nick s.net.intchan).map foldName =
          (mine u.client.nick s.net.intchan).map ucase := by
        apply List.map_congr_left
        intro name hname
        rw [foldName, clip_eq_self (Nat.lt_trans (h.words name hname).short (by decide))]
      have hnodup := h.membership.nodup_mine
      rw [hfold] at hnodup
      exact h.names.nodup_iff.1 hnodup
    · exact ((hsaves.savedNames_perm u.usern_lt).map ucase).trans h.names
    · exact ((hsaves.rejoin_perm u.usern_lt h.words client key channels).map ucase).trans h.names

/-- Somebody else does something. -/
theorem IntKept.quiet (h : IntKept u s) (hquiet : Quiet u.client.nick s.net.intchan net.intchan) {v : Nat}
    (hv : v < 2 ^ 31) (hne : v ≠ u.usern) (htouch : TouchesSection v s.conf conf) :
    IntKept u ⟨net, conf, s.joined⟩ where
  membership := hquiet.membership h.membership
  names := by
    simp only
    rw [hquiet.mine_eq]
    exact h.names
  words := by
    simp only
    rw [hquiet.mine_eq]
    exact h.words
  other := h.other.touched hv htouch
  counted := h.counted.touched hv htouch
  saves := by
    simp only
    rw [hquiet.mine_eq]
    exact fun hlen => (h.saves hlen).frame u.usern_lt hv hne h.other htouch

theorem IntKept.quietNet (h : IntKept u s) (hquiet : Quiet u.client.nick s.net.intchan net.intchan) :
    IntKept u { s with net := net } where
  membership := hquiet.membership h.membership
  names := by
    simp only
    rw [hquiet.mine_eq]
    exact h.names
  words := by
    simp only
    rw [hquiet.mine_eq]
    exact h.words
  other := h.other
  counted := h.counted
  saves := by
    simp only
    rw [hquiet.mine_eq]
    exact h.saves

theorem IntKept.join (h : IntKept u s) (hlen : s.joined.length ≤ 20) (asked : Asked) (key : CStr) :
    ∃ t, intStep u s (.join asked key) = some t ∧ IntKept u t ∧
      (HasSlot u s (.join asked key) ↔ t.joined.length ≤ 20) := by
  rcases h.membership.userJoin u.blank u.short asked.channel key with
    ⟨hmembership, ⟨hnone, hmine⟩ | ⟨name, hsome, hfold, hsign, hnew, hperm⟩⟩
  · have hno : ¬ Joining u s asked.channel key := not_not.2 hnone
    refine ⟨⟨{ s.net with intchan := (userJoin s.net.intchan u.client asked.channel key).1 }, s.conf, s.joined⟩,
      ?_, ?_, ?_⟩
    · simp only [intStep, savedJoin, hnone, if_neg hno, Option.map_some]
    · exact h.quietNet ⟨fun _ => hmembership, hmine⟩
    · exact ⟨fun _ => hlen, fun _ hjoining => absurd hjoining hno⟩
  · have hyes : Joining u s asked.channel key := by
      rw [Joining, hsome]
      exact Option.some_ne_none name
    have hword := asked.joinWord hsign
    rcases ucase_of_foldName hword.short hfold with ⟨hshort, hcase⟩
    have hname := hword.congr hshort hcase
    rcases addconfigchannel_touches name u.usern_lt h.counted h.other.ne_nil with ⟨conf, hadd, htouch⟩
    refine ⟨⟨{ s.net with intchan := (userJoin s.net.intchan u.client asked.channel key).1 }, conf,
      ucase (clip 200 asked.channel) :: s.joined⟩, ?_, ?_, ?_⟩
    · simp only [intStep, savedJoin, hsome, if_pos hyes, hadd, Option.map_some]
    · refine ⟨hmembership, ?_, ?_, h.other.touched u.usern_lt htouch, h.counted.touched u.usern_lt htouch, ?_⟩
      · have hnames := hperm.map ucase
        rw [List.map_cons, hcase] at hnames
        exact hnames.trans (h.names.cons _)
      · intro d hd
        rcases List.mem_cons.1 (hperm.mem_iff.1 hd) with rfl | hd
        · exact hname
        · exact h.words d hd
      · intro hroom
        have hcount := h.names.length_eq
        rw [List.length_map] at hcount
        rw [List.length_cons, ← hcount] at hroom
        have hnot : name ∉ mine u.client.nick s.net.intchan := fun hmem => hnew name hmem rfl
        rcases (h.saves hlen).add u.usern_lt hname.savable hnot hroom with ⟨conf', hadd', hsaves⟩
        cases hadd.symm.trans hadd'
        exact hsaves.perm hperm
    · rw [List.length_cons]
      constructor
      · exact fun hslot => hslot hyes
      · exact fun hroom _ => hroom

theorem IntKept.part (h : IntKept u s) (hlen : s.joined.length ≤ 20) (asked : Asked) (irccontent : CStr) :
    ∃ t, intStep u s (.part asked irccontent) = some t ∧ IntKept u t ∧ t.joined.length ≤ 20 := by
  rcases h.membership.userPart asked.channel irccontent with
    ⟨hmembership, ⟨hnone, hmine⟩ | ⟨name, hsome, hfold, hperm⟩⟩
  · have hno : ¬ Parting u s asked.channel irccontent := not_not.2 hnone
    refine ⟨⟨(userPart s.net u.client asked.channel irccontent).1, s.conf, s.joined⟩, ?_,
      h.quietNet ⟨fun _ => hmembership, hmine⟩, hlen⟩
    simp only [intStep, savedPart, hnone, if_neg hno, Option.map_some]
  · have hyes : Parting u s asked.channel irccontent := by
      rw [Parting, hsome]
      exact Option.some_ne_none name
    have hclip : (clip 200 asked.channel).length < 200 := by
      rw [length_clip]
      omega
    rcases ucase_of_foldName hclip hfold with ⟨_, hcase⟩
    have hmem : name ∈ mine u.client.nick s.net.intchan := hperm.mem_iff.1 List.mem_cons_self
    rcases removeconfigchannel_touches name u.usern_lt h.other.ne_nil with ⟨conf, hremove, htouch⟩
    have herase : (s.joined.erase (ucase (clip 200 asked.channel))).length ≤ s.joined.length :=
      List.length_erase_le
    refine ⟨⟨(userPart s.net u.client asked.channel irccontent).1, conf,
      s.joined.erase (ucase (clip 200 asked.channel))⟩, ?_, ?_, herase.trans hlen⟩
    · simp only [intStep, savedPart, hsome, if_pos hyes, hremove, Option.map_some]
    · refine ⟨hmembership, ?_, ?_, h.other.touched u.usern_lt htouch, h.counted.touched u.usern_lt htouch,
        fun _ => ?_⟩
      · have hnames := ((hperm.map ucase).trans h.names).erase (ucase (clip 200 asked.channel))
        rw [List.map_cons, hcase, List.erase_cons_head] at hnames
        exact hnames
      · exact fun d hd => h.words d (hperm.mem_iff.1 (List.mem_cons_of_mem _ hd))
      · rcases (h.saves hlen).remove u.usern_lt hmem with ⟨conf', hremove', hsaves⟩
        cases hremove.symm.trans hremove'
        apply hsaves.perm
        have hleft := hperm.erase name
        rw [List.erase_cons_head] at hleft
        exact hleft

theorem savedJoin_other {v : IntUser} (hother : OtherUser u v) (h : IntKept u s) (channel key : CStr) :
    ∃ p, savedJoin v channel key s.net s.conf = some p ∧ IntKept u ⟨p.1, p.2, s.joined⟩ := by
  have hword : sameName 64 (firstWord v.client.nick) u.client.nick = false := by
    rw [firstWord_eq_self v.blank]
    exact hother.2
  have hquiet := Quiet.userJoin hword s.net.intchan channel key
  rw [savedJoin]
  cases (userJoin s.net.intchan v.client channel key).2 with
  | none =>
      exact ⟨_, rfl, h.quietNet hquiet⟩
  | some name =>
      rcases addconfigchannel_touches name v.usern_lt h.counted h.other.ne_nil with ⟨conf, hadd, htouch⟩
      refine ⟨({ s.net with intchan := _ }, conf), ?_, h.quiet hquiet v.usern_lt hother.1 htouch⟩
      simp only [hadd, Option.map_some]

theorem savedPart_other {v : IntUser} (hother : OtherUser u v) (h : IntKept u s) (channel irccontent : CStr) :
    ∃ p, savedPart v channel irccontent s.net s.conf = some p ∧ IntKept u ⟨p.1, p.2, s.joined⟩ := by
  have hquiet := Quiet.userPart hother.2 s.net channel irccontent
  rw [savedPart]
  cases (userPart s.net v.client channel irccontent).2 with
  | none =>
      exact ⟨_, rfl, h.quietNet hquiet⟩
  | some name =>
      rcases removeconfigchannel_touches name v.usern_lt h.other.ne_nil with ⟨conf, hremove, htouch⟩
      refine ⟨((userPart s.net v.client channel irccontent).1, conf), ?_,
        h.quiet hquiet v.usern_lt hother.1 htouch⟩
      simp only [hremove, Option.map_some]

/-- A step goes well, and leaves no more channels than slots exactly when there is one for the channel. -/
theorem IntKept.step (h : IntKept u s) (hlen : s.joined.length ≤ 20) (event : IntEvent u) :
    ∃ t, intStep u s event = some t ∧ IntKept u t ∧ (HasSlot u s event ↔ t.joined.length ≤ 20) := by
  cases event with
  | join asked key =>
      exact h.join hlen asked key
  | part asked irccontent =>
      rcases h.part hlen asked irccontent with ⟨t, ht, hkept, hroom⟩
      exact ⟨t, ht, hkept, iff_of_true trivial hroom⟩
  | userJoin v hother channel key =>
      rcases savedJoin_other hother h channel key with ⟨p, hp, hkept⟩
      refine ⟨_, ?_, hkept, iff_of_true trivial hlen⟩
      simp only [intStep, hp, Option.map_some]
  | userPart v hother channel irccontent =>
      rcases savedPart_other hother h channel irccontent with ⟨p, hp, hkept⟩
      refine ⟨_, ?_, hkept, iff_of_true trivial hlen⟩
      simp only [intStep, hp, Option.map_some]
  | linkJoin irc hother ircbuf link =>
      exact ⟨_, rfl, h.quietNet (Quiet.cmdintjoin hother s.net ircbuf link), iff_of_true trivial hlen⟩
  | linkPart irc hother ircbuf link =>
      exact ⟨_, rfl, h.quietNet (Quiet.cmdintpart hother s.net ircbuf link), iff_of_true trivial hlen⟩

/-- Over every run: what is saved, and what is joined again, are the channels that the user joined and did not
part since, exactly when there was a slot for each channel that he joined. -/
theorem intStep_channelsSaved (hstart : IntStart u s) (events : List (IntEvent u)) :
    Safe (intStep u) (ChannelsSaved u) s events ↔ StepsMeet (intStep u) (HasSlot u) s events := by
  have hkept := hstart.kept
  apply safe_iff_stepsMeet_of_total (IntKept u)
  · intro s event hs hsaved
    rcases hs.step (hs.saved_iff.1 hsaved) event with ⟨t, ht, hkept, hroom⟩
    exact ⟨t, ht, hkept, hroom.trans hkept.saved_iff.symm⟩
  · exact hkept
  · rw [hkept.saved_iff, hstart.joined]
    exact Nat.zero_le 20

end Steps

/-! ## One channel too many -/

theorem clientNick_fits : SP ∉ ascii "anna" ∧ (ascii "anna").length < 64 := by decide

theorem clientNumber_fits : 1 < 2 ^ 31 := by decide

def anna : IntUser where
  usern := 1
  client := { intuser := 1, nick := ascii "anna", ident := ascii "a", host := ascii "home", server := ascii "hub" }
  usern_lt := clientNumber_fits
  blank := clientNick_fits.1
  short := clientNick_fits.2

/-- On no channel, with no line of a user. -/
def annaStart : IntState where
  net := { me := ascii "hub" }
  conf := [ascii "PSYBNC.SYSTEM.ME=hub"]
  joined := []

theorem annaStart_ok : IntStart anna annaStart := by
  have hline : ∀ v, ¬ sectionText (userFile v) INTCHANS <+: ascii "PSYBNC.SYSTEM.ME=hub" := by
    intro v hpre
    have huser : ascii "USER" <+: sectionText (userFile v) INTCHANS := by
      rw [sectionText, userFile, List.append_assoc]
      exact List.prefix_append _ _
    exact absurd (huser.trans hpre) (by decide)
  have hconf : ∀ e ∈ annaStart.conf, ∀ v, ¬ sectionText (userFile v) INTCHANS <+: e := by
    intro e he
    rw [List.mem_singleton.1 he]
    exact hline
  refine ⟨List.nodup_nil, fun _ hchan => absurd hchan List.not_mem_nil, rfl, fun e he => hconf e he 1,
    ⟨_, List.mem_singleton_self _, hline⟩, fun v hv e he hlit => ?_⟩
  exact absurd ((List.prefix_append _ _).trans hlit) (hconf e he v)

theorem lettered_words : ∀ i : Fin 26,
    SP ∉ [CHANSIGN, 97 + UInt8.ofNat i] ∧ COMMA ∉ [CHANSIGN, 97 + UInt8.ofNat i] := by
  decide

/-- `#` and a letter. -/
def lettered (i : Fin 26) : Asked where
  channel := [CHANSIGN, 97 + UInt8.ofNat i]
  blank := (lettered_words i).1
  comma := (lettered_words i).2

/-- With one channel more than there are slots, not all of them are joined again. -/
theorem intStep_twentyOne :
    IntStart anna annaStart ∧ ¬ Safe (intStep anna) (ChannelsSaved anna) annaStart
      (((List.finRange 26).take 21).map fun i => .join (lettered i) []) := by
  have hcount : (runAll (intStep anna) annaStart
      (((List.finRange 26).take 21).map fun i => .join (lettered i) [])).map (fun s => s.joined.length) =
        some 21 := by
    decide +kernel
  refine ⟨annaStart_ok, fun hsafe => ?_⟩
  rcases Option.map_eq_some_iff.1 hcount with ⟨s, hs, hlen⟩
  have hsaved := hsafe.last hs
  have hrejoined := (hsaved.rejoined anna.client [] []).length_eq
  rw [List.length_map, hlen] at hrejoined
  have hle := length_rejoined_le anna.usern anna.client [] s.conf []
  rw [hrejoined] at hle
  exact absurd hle (by decide)

theorem intStep_channelsSaved_anna :
    Safe (intStep anna) (ChannelsSaved anna) annaStart
      [.join (lettered 0) [], .join (lettered 1) [], .part (lettered 0) []] :=
  (intStep_channelsSaved annaStart_ok _).2 (by decide +kernel)

end PsyBnc
