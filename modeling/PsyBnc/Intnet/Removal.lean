import PsyBnc.Intnet.Nick

/-!
# What is announced is removed

Clients also quit without asking for it: one that enters again, and with `removeinternal` those of a server that is
lost.  Each PART, KICK and QUIT is compared with what becomes of the own lists.
-/

namespace PsyBnc

open CLib

/-! ## A lost server -/

/-- `lngtxt(505)` and `lngtxt(506)`. -/
def lostLine (me server : CStr) (client : Clientt) : CStr :=
  COLON :: clientMask client ++ ascii " QUIT :" ++ me ++ SP :: server

/-- What `removeinternal` does with a client that goes. -/
def dropclient (net : Intnet) (server : CStr) (client : Clientt) : Intnet × List Said :=
  let tmpnick := clip 64 client.nick
  let said := saytochannelsofnick net tmpnick (lostLine net.me server client)
  let net := removeclient net tmpnick
  ({ net with intchan := removenickfromallchannels net.intchan tmpnick }, [said])

/-- A client of the server, or of one that is not known any more; `known` tells what `gettopology` finds. -/
def lost (known : CStr → Bool) (server : CStr) (client : Clientt) : Bool :=
  strmcmp client.server server || !known client.server

/-- The loop of `removeinternal`: the client behind is kept in `eclient`, so that all are looked at. -/
def removeinternalLoop (known : CStr → Bool) (server : CStr) : List Clientt → Intnet → Intnet × List Said
  | [], net => (net, [])
  | client :: rest, net =>
      if lost known server client then
        let done := dropclient net server client
        let more := removeinternalLoop known server rest done.1
        (more.1, done.2 ++ more.2)
      else removeinternalLoop known server rest net

def removeinternal (net : Intnet) (known : CStr → Bool) (server : CStr) : Intnet × List Said :=
  if strmcmp server net.me then (net, []) else removeinternalLoop known server net.clients net

/-! ## Other nicks -/

section Others

variable {channel channel' : Uchannelt} {nick other : CStr}

theorem getchannelnick_none_filter :
    getchannelnick channel nick = none ↔ channel.users.filter (answers nick) = [] := by
  rw [getchannelnick_none_iff, List.filter_eq_nil_iff]
  simp only [Bool.not_eq_true]

/-- Only the members count that answer. -/
theorem spelled_congr (h : channel.users.filter (answers nick) = channel'.users.filter (answers nick)) :
    Spelled channel nick ↔ Spelled channel' nick := by
  have hfilter : ∀ c : Uchannelt, Spelled c nick ↔
      (c.users.filter (answers nick)).length ≤ 1 ∧
        ∀ chanuser ∈ c.users.filter (answers nick), chanuser.nick = nick := by
    intro c
    rw [Spelled, List.countP_eq_length_filter]
    simp only [List.mem_filter, and_imp]
  rw [hfilter, hfilter, h]

/-- Whoever answers to a nick is not removed under another one. -/
theorem answers_removed_other (hother : sameName 64 other nick = false) :
    (removenickfromchannel channel other).users.filter (answers nick) = channel.users.filter (answers nick) := by
  have hno : ∀ chanuser : Uchannelusert, strmcmp chanuser.nick other = true → (!answers nick chanuser) = true := by
    intro chanuser hsame
    have hnick : chanuser.nick = other := strmcmp_iff.1 hsame
    rw [answers, hnick, hother]
    rfl
  have hkept := filter_not_eraseP hno channel.users
  simp only [Bool.not_not] at hkept
  exact hkept

/-- A property of those who answer is the same on all channels, before and after somebody else has left. -/
theorem leaveAll_forall_iff {P : Uchannelt → Prop} {channels : List Uchannelt}
    (hother : sameName 64 other nick = false)
    (hcongr : ∀ c c' : Uchannelt, c.users.filter (answers nick) = c'.users.filter (answers nick) → (P c ↔ P c'))
    (hempty : ∀ c : Uchannelt, c.users = [] → P c) :
    (∀ channel ∈ leaveAll channels other, P channel) ↔ ∀ channel ∈ channels, P channel := by
  have hstep : ∀ channel, P (removenickfromchannel channel other) ↔ P channel :=
    fun channel => hcongr _ _ (answers_removed_other hother)
  constructor
  · intro h channel hchannel
    rw [← hstep]
    by_cases hnone : (removenickfromchannel channel other).users = []
    · exact hempty _ hnone
    · apply h
      rw [leaveAll, List.mem_filter]
      exact ⟨List.mem_map_of_mem hchannel, by simpa using hnone⟩
  · intro h channel hchannel
    rw [leaveAll, List.mem_filter] at hchannel
    rcases List.mem_map.1 hchannel.1 with ⟨c, hc, rfl⟩
    exact (hstep c).2 (h c hc)

theorem leaveAll_spelled_iff {channels : List Uchannelt} (hother : sameName 64 other nick = false) :
    (∀ channel ∈ leaveAll channels other, Spelled channel nick) ↔ ∀ channel ∈ channels, Spelled channel nick := by
  apply leaveAll_forall_iff hother
  · exact fun c c' h => spelled_congr h
  · intro c hnone
    rw [Spelled, hnone]
    simp

theorem leaveAll_none_iff {channels : List Uchannelt} (hother : sameName 64 other nick = false) :
    (∀ channel ∈ leaveAll channels other, getchannelnick channel nick = none) ↔
      ∀ channel ∈ channels, getchannelnick channel nick = none := by
  apply leaveAll_forall_iff hother
  · intro c c' h
    rw [getchannelnick_none_filter, getchannelnick_none_filter, h]
  · intro c hnone
    rw [getchannelnick_none_filter, hnone, List.filter_nil]

end Others

/-! ## All that are lost -/

section Lost

variable {known : CStr → Bool} {server : CStr}

/-- Names of their own stay so when channels go. -/
theorem leaveAll_nodup {channels : List Uchannelt} (hnames : (channels.map fun c => foldName c.name).Nodup)
    (nick : CStr) : ((leaveAll channels nick).map fun c => foldName c.name).Nodup := by
  have hsub : ((leaveAll channels nick).map fun c => foldName c.name).Sublist
      ((channels.map fun channel => removenickfromchannel channel nick).map fun c => foldName c.name) :=
    List.filter_sublist.map _
  rw [List.map_map] at hsub
  exact hnames.sublist hsub

theorem removeinternalLoop_me (clients : List Clientt) (net : Intnet) :
    (removeinternalLoop known server clients net).2.map Said.text =
      (clients.filter (lost known server)).map fun client => some (clip 2048 (lostLine net.me server client)) := by
  induction clients generalizing net with
  | nil =>
      rfl
  | cons client rest ih =>
      rw [removeinternalLoop]
      by_cases hlost : lost known server client = true
      · have hrest := ih (dropclient net server client).1
        rw [if_pos hlost, List.filter_cons_of_pos hlost, List.map_cons]
        dsimp only
        rw [List.map_append, hrest]
        rfl
      · rw [if_neg hlost, List.filter_cons_of_neg hlost, ih]

/-- Who leaves later does not bring anybody back. -/
theorem removeinternalLoop_none_iff {clients : List Clientt} {net : Intnet} {nick : CStr}
    (hnames : (net.intchan.map fun c => foldName c.name).Nodup)
    (hothers : ∀ client ∈ clients, sameName 64 (clip 64 client.nick) nick = false) :
    (∀ chan ∈ (removeinternalLoop known server clients net).1.intchan, getchannelnick chan nick = none) ↔
      ∀ chan ∈ net.intchan, getchannelnick chan nick = none := by
  induction clients generalizing net with
  | nil =>
      rfl
  | cons client rest ih =>
      rw [List.forall_mem_cons] at hothers
      rw [removeinternalLoop]
      split
      · have hleft : (dropclient net server client).1.intchan = leaveAll net.intchan (clip 64 client.nick) :=
          removenickfromallchannels_eq (clip 64 client.nick) hnames
        rw [ih (hleft ▸ leaveAll_nodup hnames (clip 64 client.nick)) hothers.2, hleft]
        exact leaveAll_none_iff hothers.1
      · exact ih hnames hothers.2

theorem removeinternalLoop_gone_iff {clients : List Clientt} {net : Intnet}
    (hnames : (net.intchan.map fun c => foldName c.name).Nodup)
    (hapart : clients.Pairwise fun one two => sameName 64 one.nick two.nick = false) :
    (∀ client ∈ clients.filter (lost known server),
        ∀ chan ∈ (removeinternalLoop known server clients net).1.intchan,
          getchannelnick chan (clip 64 client.nick) = none) ↔
      ∀ client ∈ clients.filter (lost known server), ∀ chan ∈ net.intchan, Spelled chan (clip 64 client.nick) := by
  induction clients generalizing net with
  | nil =>
      simp
  | cons client rest ih =>
      rw [List.pairwise_cons] at hapart
      rw [removeinternalLoop]
      by_cases hlost : lost known server client = true
      · rw [if_pos hlost, List.filter_cons_of_pos hlost, List.forall_mem_cons, List.forall_mem_cons]
        have hleft : (dropclient net server client).1.intchan = leaveAll net.intchan (clip 64 client.nick) :=
          removenickfromallchannels_eq (clip 64 client.nick) hnames
        have hnames' := hleft ▸ leaveAll_nodup hnames (clip 64 client.nick)
        have hothers : ∀ c ∈ rest, sameName 64 (clip 64 c.nick) (clip 64 client.nick) = false ∧
            sameName 64 (clip 64 client.nick) (clip 64 c.nick) = false := by
          intro c hc
          have hno := hapart.1 c hc
          have hclip : ∀ one two : CStr, sameName 64 (clip 64 one) (clip 64 two) = sameName 64 one two := by
            intro one two
            rw [sameName_clip, sameName_comm, sameName_clip, sameName_comm]
          rw [hclip, hclip, sameName_comm]
          exact ⟨hno, hno⟩
        apply and_congr
        · -- the client itself, who is not touched any more
          rw [removeinternalLoop_none_iff hnames' fun c hc => (hothers c hc).1, hleft]
          exact leaveAll_gone_iff
        · rw [ih hnames' hapart.2, hleft]
          apply forall₂_congr
          intro c hc
          exact leaveAll_spelled_iff (hothers c (List.mem_of_mem_filter hc)).2
      · rw [if_neg hlost, List.filter_cons_of_neg hlost]
        exact ih hnames hapart.2

end Lost

/-! ## All handlers -/

section Quit

variable {net : Intnet} (hnames : (net.intchan.map fun c => foldName c.name).Nodup)

include hnames

/-- The nick that is announced is the client's, the one that is removed is that of the user. -/
theorem enteruser_departed_iff {usern : Nat} {nick : CStr} {client : Clientt} (ident : CStr)
    (hclient : getclientbynick net nick = some client) (hown : client.intuser = usern) :
    (enteruser net usern nick ident).2.1.head? = some (saytochannelsofnick net nick
        (clientMask client ++ ascii " QUIT :reconnected" ++ [255])) ∧
      ((∀ chan ∈ (enteruser net usern nick ident).1.intchan, getchannelnick chan client.nick = none) ↔
        ∀ chan ∈ net.intchan, Spelled chan nick) := by
  have hsame : sameName 64 client.nick nick = true := by
    rw [sameName_comm]
    simpa using List.find?_some hclient
  have hentered : (enteruser net usern nick ident).1.intchan = removenickfromallchannels net.intchan nick ∧
      (enteruser net usern nick ident).2.1.head? = some (saytochannelsofnick net nick
        (clientMask client ++ ascii " QUIT :reconnected" ++ [255])) := by
    simp only [enteruser, hclient, if_pos hown]
    refine ⟨?_, rfl⟩
    rw [createclient]
    split
    · rfl
    · rfl
  refine ⟨hentered.2, ?_⟩
  rw [hentered.1]
  simp only [getchannelnick_congr hsame]
  exact removenickfromallchannels_gone_iff hnames nick

theorem removeinternal_departed_iff {known : CStr → Bool} {server : CStr} (hserver : strmcmp server net.me = false)
    (hapart : net.clients.Pairwise fun one two => sameName 64 one.nick two.nick = false) :
    (removeinternal net known server).2.map Said.text =
        (net.clients.filter (lost known server)).map
          (fun client => some (clip 2048 (lostLine net.me server client))) ∧
      ((∀ client ∈ net.clients.filter (lost known server), ∀ chan ∈ (removeinternal net known server).1.intchan,
          getchannelnick chan (clip 64 client.nick) = none) ↔
        ∀ client ∈ net.clients.filter (lost known server), ∀ chan ∈ net.intchan,
          Spelled chan (clip 64 client.nick)) := by
  rw [removeinternal, hserver, if_neg Bool.false_ne_true]
  exact ⟨removeinternalLoop_me net.clients net, removeinternalLoop_gone_iff hnames hapart⟩

end Quit

/-- Removal undoes lookup exactly for nicks that are spelled as they are looked up; and so far each
PART, KICK and QUIT takes the member that it announces off the own list. -/
theorem removal_matches_iff (net : Intnet) (irc : Parsed) (ircbuf irccontent : CStr) (link : Nat) :
    (∀ chan nick, Removed chan (removenickfromchannel chan nick) nick ↔ Spelled chan nick) ∧
    (∀ client k chan member, getclientbynick net irc.ircnick = some client →
      OnChannel net irc.ircto irc.ircnick k chan member →
        (cmdintpart net irc ircbuf link).2 =
            sendtochannel (cmdintpart net irc ircbuf link).1 irc.ircto link ircbuf ∧
          (Departed net.intchan (cmdintpart net irc ircbuf link).1.intchan k irc.ircnick ↔
            Spelled chan irc.ircnick)) ∧
    (∀ client k chan member name nick reason, kickWords ircbuf = some (name, nick, reason) →
      getclientbynick net irc.ircnick = some client → OnChannel net name nick k chan member →
        (cmdintkick net irc ircbuf link).2 =
            sendtochannel net name link (COLON :: clientMask client ++ ascii " KICK " ++ name ++
              SP :: clip 64 member.nick ++ ascii " :" ++ reason) ∧
          (Departed net.intchan (cmdintkick net irc ircbuf link).1.intchan k
              (clip 64 member.nick) ↔ Spelled chan (clip 64 member.nick))) ∧
    (∀ client k chan member name, OnChannel net name client.nick k chan member →
        (partChannel net client name irccontent).2 =
            [saytochannel net chan.name
              (COLON :: clientMask client ++ ascii " PART " ++ name ++ ascii " :" ++ irccontent)] ∧
          (Departed net.intchan (partChannel net client name irccontent).1.intchan k client.nick ↔
            Spelled chan client.nick)) ∧
    (∀ client k chan member name nick, OnChannel net name nick k chan member →
        (kickNick net client name irccontent k chan nick).2 =
            [saytochannel net name (COLON :: clientMask client ++ ascii " KICK " ++ name ++ SP ::
              member.nick ++ ascii " :" ++ irccontent)] ∧
          (Departed net.intchan (kickNick net client name irccontent k chan nick).1.intchan k
              member.nick ↔ Spelled chan nick)) ∧
    ((net.intchan.map fun c => foldName c.name).Nodup → ∀ client,
      (getclientbynick net irc.ircnick = some client → client.intuser = 0 →
        (cmdintquit net irc ircbuf link).2 =
            sendtochannelsofnick net (clip 64 irc.ircnick) link ircbuf ∧
          ((∀ chan ∈ (cmdintquit net irc ircbuf link).1.intchan,
              getchannelnick chan (clip 64 irc.ircnick) = none) ↔
            ∀ chan ∈ net.intchan, Spelled chan (clip 64 irc.ircnick))) ∧
      ∀ usern, getclientbynumber net usern = some client →
        (quitLocal net usern irccontent).2 =
            [saytochannelsofnick net client.nick
              (COLON :: clientMask client ++ ascii " QUIT :" ++ irccontent)] ∧
          ((∀ chan ∈ (quitLocal net usern irccontent).1.intchan,
              getchannelnick chan client.nick = none) ↔
            ∀ chan ∈ net.intchan, Spelled chan client.nick)) ∧
    ((net.intchan.map fun c => foldName c.name).Nodup →
      (∀ usern nick ident client, getclientbynick net nick = some client → client.intuser = usern →
        (enteruser net usern nick ident).2.1.head? = some (saytochannelsofnick net nick
            (clientMask client ++ ascii " QUIT :reconnected" ++ [255])) ∧
          ((∀ chan ∈ (enteruser net usern nick ident).1.intchan, getchannelnick chan client.nick = none) ↔
            ∀ chan ∈ net.intchan, Spelled chan nick)) ∧
      ∀ known server, strmcmp server net.me = false →
        net.clients.Pairwise (fun one two => sameName 64 one.nick two.nick = false) →
        (removeinternal net known server).2.map Said.text =
            (net.clients.filter (lost known server)).map
              (fun client => some (clip 2048 (lostLine net.me server client))) ∧
          ((∀ client ∈ net.clients.filter (lost known server),
              ∀ chan ∈ (removeinternal net known server).1.intchan,
                getchannelnick chan (clip 64 client.nick) = none) ↔
            ∀ client ∈ net.clients.filter (lost known server), ∀ chan ∈ net.intchan,
              Spelled chan (clip 64 client.nick))) := by
  refine ⟨fun chan nick => removed_iff, ?_, ?_, ?_, ?_, ?_, ?_⟩
  · intro client k chan member hclient h
    exact cmdintpart_departed_iff ircbuf link hclient h
  · intro client k chan member name nick reason hwords hclient h
    exact cmdintkick_departed_iff link hwords hclient h
  · intro client k chan member name h
    exact partChannel_departed_iff irccontent h
  · intro client k chan member name nick h
    exact kickNick_departed_iff irccontent h
  · intro hnames client
    refine ⟨fun hclient hremote => ?_, fun usern hclient => ?_⟩
    · exact cmdintquit_departed_iff hnames ircbuf link hclient hremote
    · exact quitLocal_departed_iff hnames irccontent hclient
  · intro hnames
    refine ⟨fun usern nick ident client hclient hown => ?_, fun known server hserver hapart => ?_⟩
    · exact enteruser_departed_iff hnames ident hclient hown
    · exact removeinternal_departed_iff hnames hserver hapart

/-- The operator `boss` and `Joe`, on one channel. -/
def kingdom : Intnet where
  me := ascii "home"
  clients := [
    ⟨1, ascii "boss", ascii "b", ascii "home-psybnc.net", ascii "home"⟩,
    ⟨0, ascii "Joe", ascii "j", ascii "away-psybnc.net", ascii "away"⟩]
  intchan := [
    { name := ascii "#a", users := [
      ⟨ascii "boss", ascii "b", ascii "home-psybnc.net", ascii "@"⟩,
      ⟨ascii "Joe", ascii "j", ascii "away-psybnc.net", []⟩] }]

/-- `KICK #a joe` tells the network that `Joe` is gone, and keeps him. -/
theorem kickNick_otherCase : ∃ boss chan, kingdom.clients.head? = some boss ∧
    kingdom.intchan = [chan] ∧
    (kickNick kingdom boss (ascii "#a") (ascii "out") 0 chan (ascii "joe")).2 =
      [saytochannel kingdom (ascii "#a") (ascii ":boss!b@home-psybnc.net KICK #a Joe :out")] ∧
    (kickNick kingdom boss (ascii "#a") (ascii "out") 0 chan (ascii "joe")).1.intchan = [chan] ∧
    ¬ Removed chan (removenickfromchannel chan (ascii "joe")) (ascii "joe") := by
  refine ⟨_, _, rfl, rfl, by decide +kernel, by decide +kernel, ?_⟩
  rw [removed_iff]
  decide +kernel

/-- `Joe` quits over a link, or his server is lost, and nobody answers to his nick any more. -/
theorem removal_matches_iff_joe :
    (∀ chan ∈ (cmdintquit kingdom (parse (ascii ":Joe!j@away-psybnc.net QUIT :bye"))
        (ascii ":Joe!j@away-psybnc.net QUIT :bye") 5).1.intchan, getchannelnick chan (ascii "Joe") = none) ∧
      ∀ client ∈ kingdom.clients.filter (lost (fun _ => true) (ascii "away")),
        ∀ chan ∈ (removeinternal kingdom (fun _ => true) (ascii "away")).1.intchan,
          getchannelnick chan (clip 64 client.nick) = none := by
  have hall := removal_matches_iff kingdom (parse (ascii ":Joe!j@away-psybnc.net QUIT :bye"))
    (ascii ":Joe!j@away-psybnc.net QUIT :bye") (ascii "bye") 5
  have hnames : (kingdom.intchan.map fun c => foldName c.name).Nodup := by decide +kernel
  rcases hall with ⟨_, _, _, _, _, hquit, hlost⟩
  constructor
  · have hjoe := (hquit hnames ⟨0, ascii "Joe", ascii "j", ascii "away-psybnc.net", ascii "away"⟩).1
      (by decide +kernel) rfl
    have hnick : clip 64 (parse (ascii ":Joe!j@away-psybnc.net QUIT :bye")).ircnick = ascii "Joe" := by
      decide +kernel
    rw [hnick] at hjoe
    exact hjoe.2.2 (by decide +kernel)
  · exact ((hlost hnames).2 (fun _ => true) (ascii "away") (by decide) (by decide +kernel)).2.2 (by decide +kernel)

end PsyBnc
