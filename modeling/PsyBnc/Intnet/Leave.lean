import PsyBnc.Intnet.Model
import PsyBnc.UChannel.Members

/-!
# PART, KICK and QUIT

The handlers by which clients leave channels: for lines that come over a link, and for the requests
of a local user.  The latter read the request from the globals `irc…`, into which most lines that
are composed are parsed before they are sent; `Said` keeps these texts.
-/

namespace PsyBnc

open CLib

def getclientbynumber (net : Intnet) (usern : Nat) : Option Clientt :=
  net.clients.find? fun cl => decide (usern = cl.intuser)

def removeclient (net : Intnet) (nick : CStr) : Intnet :=
  { net with clients := net.clients.eraseP fun client => strmcmp client.nick nick }

/-- `sendtochannelsofnick`: to every client that shares a channel with `nick`. -/
def sendtochannelsofnick (net : Intnet) (nick : CStr) (notlink : Nat) (text : CStr) : List Out :=
  let buf := clip 2048 text
  let shares := fun cyc : Clientt => net.intchan.any fun chan =>
    (getchannelnick chan cyc.nick).isSome && (getchannelnick chan nick).isSome
  (net.clients.filter shares).flatMap (fun cyc => toLocal net cyc buf) ++
    broadcast net notlink (intnetLine net.me buf)

/-- `%s!%s@%s` of a client. -/
def clientMask (client : Clientt) : CStr :=
  client.nick ++ BANG :: client.ident ++ AT :: client.host

/-- A line that is composed, the text of it that is parsed, and what is written. -/
structure Said where
  text : Option CStr
  out : List Out
  deriving DecidableEq

def saytoclient (net : Intnet) (nick text : CStr) : Said :=
  ⟨some (clip 2048 text), sendtoclient net nick 0 text⟩

def saytochannel (net : Intnet) (channel text : CStr) : Said :=
  ⟨some (clip 2048 text), sendtochannel net channel 0 text⟩

def saytochannelsofnick (net : Intnet) (nick text : CStr) : Said :=
  ⟨some (clip 2048 text), sendtochannelsofnick net nick 0 text⟩

/-- The globals `irc…` after these lines. -/
def globalsAfter (irc : Parsed) (said : List Said) : Parsed :=
  said.foldl (fun irc line => (line.text.map parse).getD irc) irc

/-- A numeric of this bouncer. -/
def numeric (me : CStr) (code : String) (nick text : CStr) : CStr :=
  COLON :: me ++ ascii "-psybnc.net " ++ ascii code ++ SP :: nick ++ SP :: text

/-- The channel at `k` is stored, and removed under `name` when nobody is left on it. -/
def storeLeft (channels : List Uchannelt) (k : Nat) (name : CStr) (chan : Uchannelt) :
    List Uchannelt :=
  if chan.users = [] then removeintchannel (channels.set k chan) name else channels.set k chan

/-! ## Over a link -/

/-- `cmdintpart`. -/
def cmdintpart (net : Intnet) (irc : Parsed) (ircbuf : CStr) (link : Nat) : Intnet × List Out :=
  match getclientbynick net irc.ircnick, getuserchannel net.intchan irc.ircto with
  | some _, some k =>
      match net.intchan[k]? with
      | none => (net, [])
      | some chan =>
          match getchannelnick chan irc.ircnick with
          | none => (net, [])
          | some _ =>
              let chan := removenickfromchannel chan irc.ircnick
              let net := { net with intchan := storeLeft net.intchan k chan.name chan }
              (net, sendtochannel net irc.ircto link ircbuf)
  | _, _ => (net, [])

/-- What the channel is after a KICK of `nick`; an operator to remember is forgotten when he is a local client. -/
def kickedChannel (net : Intnet) (chan : Uchannelt) (nick : CStr) : Uchannelt :=
  remember net nick removeintop (removenickfromchannel chan nick)

/-- The channel, the nick and the reason in the `ircbuf` of a KICK. -/
def kickWords (ircbuf : CStr) : Option (CStr × CStr × CStr) :=
  (cutStr (ascii " KICK ") ircbuf).bind fun line =>
    (cutAt SP line.2).bind fun words =>
      (cutStr (ascii " :") words.2).map fun tail =>
        (clip 800 words.1, clip 6000 tail.1, tail.2)

/-- `cmdintkick`. -/
def cmdintkick (net : Intnet) (irc : Parsed) (ircbuf : CStr) (link : Nat) : Intnet × List Out :=
  match kickWords ircbuf with
  | none => (net, [])
  | some (ircto, irccontent, reason) =>
      match getclientbynick net irc.ircnick, getuserchannel net.intchan ircto with
      | some client, some k =>
          match net.intchan[k]? with
          | none => (net, [])
          | some chan =>
              match (getchannelnick chan irccontent).bind fun i => chan.users[i]? with
              | none => (net, [])
              | some chanuser =>
                  let currentnick := clip 64 chanuser.nick
                  let text := COLON :: clientMask client ++ ascii " KICK " ++ ircto ++ SP ::
                    currentnick ++ ascii " :" ++ reason
                  let chan := kickedChannel net chan currentnick
                  ({ net with intchan := storeLeft net.intchan k chan.name chan },
                    sendtochannel net ircto link text)
      | _, _ => (net, [])

/-- `cmdintquit`; local clients cannot be made to quit. -/
def cmdintquit (net : Intnet) (irc : Parsed) (ircbuf : CStr) (link : Nat) : Intnet × List Out :=
  match getclientbynick net irc.ircnick with
  | none => (net, [])
  | some client =>
      if client.intuser = 0 then
        let tmpnick := clip 64 irc.ircnick
        let out := sendtochannelsofnick net tmpnick link ircbuf
        let net := { net with intchan := removenickfromallchannels net.intchan tmpnick }
        (removeclient net tmpnick, out)
      else (net, [])

/-! ## For a local user -/

/-- `cmdintpart` for one channel, where `client` is the user.  The channel is also removed from the
configuration of the user, which is not followed here. -/
def partChannel (net : Intnet) (client : Clientt) (currentto irccontent : CStr) :
    Intnet × List Said :=
  match (getuserchannel net.intchan currentto).bind fun k => (net.intchan[k]?).map ((k, ·)) with
  | none =>
      (net, [saytoclient net client.nick
        (numeric net.me "403" client.nick (currentto ++ ascii " :No such Channel"))])
  | some (k, chan) =>
      match getchannelnick chan client.nick with
      | none =>
          (net, [saytoclient net client.nick
            (numeric net.me "442" client.nick (currentto ++ ascii " :You're not on that channel"))])
      | some _ =>
          let said := saytochannel net chan.name
            (COLON :: clientMask client ++ ascii " PART " ++ currentto ++ ascii " :" ++ irccontent)
          let chan := removenickfromchannel chan client.nick
          ({ net with intchan := storeLeft net.intchan k chan.name chan }, [said])

/-- `cmdintkick` for one nick `ot` of the list, on the channel at `k`. -/
def kickNick (net : Intnet) (client : Clientt) (currentto irccontent : CStr) (k : Nat)
    (chan : Uchannelt) (ot : CStr) : Intnet × List Said :=
  match (getchannelnick chan ot).bind fun i => chan.users[i]? with
  | none =>
      (net, [saytoclient net client.nick
        (numeric net.me "441" client.nick (ot ++ ascii " :They aren't on that channel"))])
  | some chanuser =>
      let said := saytochannel net currentto
        (COLON :: clientMask client ++ ascii " KICK " ++ currentto ++ SP :: chanuser.nick ++
          ascii " :" ++ irccontent)
      let chan := kickedChannel net chan ot
      ({ net with intchan := storeLeft net.intchan k currentto chan }, [said])

/-- `cmdintquit` for a local user. -/
def quitLocal (net : Intnet) (usern : Nat) (irccontent : CStr) : Intnet × List Said :=
  match getclientbynumber net usern with
  | none => (net, [])
  | some client =>
      let said := saytochannelsofnick net client.nick
        (COLON :: clientMask client ++ ascii " QUIT :" ++ irccontent)
      let net := { net with intchan := removenickfromallchannels net.intchan client.nick }
      (removeclient net client.nick, [said])

/-! ## What is announced and what is removed -/

/-- Nobody on the channel that was at `k` answers to `nick` any more, or the channel is gone. -/
def Departed (before after : List Uchannelt) (k : Nat) (nick : CStr) : Prop :=
  after = before.eraseIdx k ∨
    ∃ chan, after = before.set k chan ∧ getchannelnick chan nick = none

section Stored

variable {channels : List Uchannelt} {k : Nat} {name : CStr} {old chan : Uchannelt}

/-- The channel that is stored is found under its name again. -/
theorem getuserchannel_set (hfound : getuserchannel channels name = some k)
    (hget : channels[k]? = some old) (hname : chan.name = old.name) :
    getuserchannel (channels.set k chan) name = some k := by
  rcases List.findIdx?_eq_some_iff_getElem.1 hfound with ⟨hk, hsame, hbefore⟩
  rw [List.getElem?_eq_getElem hk, Option.some.injEq] at hget
  refine List.findIdx?_eq_some_iff_getElem.2 ⟨by simpa using hk, ?_, ?_⟩
  · rw [List.getElem_set_self, hname, ← hget]
    exact hsame
  · intro j hj
    rw [List.getElem_set_ne (by omega)]
    exact hbefore j hj

theorem storeLeft_eq (hfound : getuserchannel channels name = some k)
    (hget : channels[k]? = some old) (hname : chan.name = old.name) :
    storeLeft channels k name chan =
      if chan.users = [] then channels.eraseIdx k else channels.set k chan := by
  have hagain := getuserchannel_set hfound hget hname
  have herase : (channels.set k chan).eraseIdx k = channels.eraseIdx k := by
    rw [List.eraseIdx_set_eq]
  unfold storeLeft
  split
  · rw [removeintchannel, hagain]
    exact herase
  · rfl

theorem departed_storeLeft_iff (hfound : getuserchannel channels name = some k)
    (hget : channels[k]? = some old) (hname : chan.name = old.name) {nick : CStr} :
    Departed channels (storeLeft channels k name chan) k nick ↔
      getchannelnick chan nick = none := by
  have hk : k < channels.length := (List.getElem?_eq_some_iff.1 hget).1
  rw [storeLeft_eq hfound hget hname]
  split
  · next hempty =>
    constructor
    · intro _
      rw [getchannelnick, hempty]
      rfl
    · intro _
      exact Or.inl rfl
  · constructor
    · rintro (hgone | ⟨chan', hset, hnone⟩)
      · have hlength := congrArg List.length hgone
        rw [List.length_set, List.length_eraseIdx_of_lt hk] at hlength
        omega
      · have hget' := congrArg (fun l => l[k]?) hset
        simp only [List.getElem?_set_self hk, Option.some.injEq] at hget'
        rw [hget']
        exact hnone
    · intro hnone
      exact Or.inr ⟨chan, rfl, hnone⟩

end Stored

/-- `name` leads to the channel at `k`, and `nick` to one of its members. -/
structure OnChannel (net : Intnet) (name nick : CStr) (k : Nat) (chan : Uchannelt)
    (member : Uchannelusert) : Prop where
  found : getuserchannel net.intchan name = some k
  channel : net.intchan[k]? = some chan
  member : ((getchannelnick chan nick).bind fun i => chan.users[i]?) = some member

section Handlers

variable {net : Intnet} {name nick : CStr} {k : Nat} {chan : Uchannelt} {member : Uchannelusert}
  {client : Clientt}

theorem OnChannel.answers (h : OnChannel net name nick k chan member) :
    sameName 64 member.nick nick = true := by
  rcases Option.bind_eq_some_iff.1 h.member with ⟨i, hi, hget⟩
  rcases List.findIdx?_eq_some_iff_getElem.1 hi with ⟨hlt, hsame, _⟩
  rw [List.getElem?_eq_getElem hlt, Option.some.injEq] at hget
  rw [← hget]
  exact hsame

theorem OnChannel.index (h : OnChannel net name nick k chan member) :
    ∃ i, getchannelnick chan nick = some i := by
  rcases Option.bind_eq_some_iff.1 h.member with ⟨i, hi, _⟩
  exact ⟨i, hi⟩

/-- The channel is also found under the name that it has. -/
theorem OnChannel.found_name (h : OnChannel net name nick k chan member) :
    getuserchannel net.intchan chan.name = some k := by
  rcases getuserchannel_eq_some h.found with ⟨c, hc, hfold⟩
  rw [h.channel, Option.some.injEq] at hc
  rw [hc, getuserchannel_congr hfold]
  exact h.found

@[simp] theorem remember_users (net : Intnet) (nick : CStr) (chan : Uchannelt) :
    (remember net nick removeintop chan).users = chan.users := by
  unfold remember removeintop
  repeat' split
  all_goals rfl

@[simp] theorem remember_name (net : Intnet) (nick : CStr) (chan : Uchannelt) :
    (remember net nick removeintop chan).name = chan.name := by
  unfold remember removeintop
  repeat' split
  all_goals rfl

theorem getchannelnick_remember (nick' : CStr) :
    getchannelnick (remember net nick removeintop chan) nick' = getchannelnick chan nick' := by
  rw [getchannelnick, getchannelnick, remember_users]

theorem cmdintpart_departed_iff {irc : Parsed} (ircbuf : CStr) (link : Nat)
    (hclient : getclientbynick net irc.ircnick = some client)
    (h : OnChannel net irc.ircto irc.ircnick k chan member) :
    (cmdintpart net irc ircbuf link).2 =
        sendtochannel (cmdintpart net irc ircbuf link).1 irc.ircto link ircbuf ∧
      (Departed net.intchan (cmdintpart net irc ircbuf link).1.intchan k irc.ircnick ↔
        Spelled chan irc.ircnick) := by
  rcases h.index with ⟨i, hi⟩
  simp only [cmdintpart, hclient, h.found, h.channel, hi, removenickfromchannel_name]
  refine ⟨trivial, ?_⟩
  rw [← getchannelnick_removed_iff]
  exact departed_storeLeft_iff h.found_name h.channel (removenickfromchannel_name _ _)

theorem cmdintkick_departed_iff {irc : Parsed} {ircbuf reason : CStr} (link : Nat)
    (hwords : kickWords ircbuf = some (name, nick, reason))
    (hclient : getclientbynick net irc.ircnick = some client)
    (h : OnChannel net name nick k chan member) :
    (cmdintkick net irc ircbuf link).2 =
        sendtochannel net name link (COLON :: clientMask client ++ ascii " KICK " ++ name ++ SP ::
          clip 64 member.nick ++ ascii " :" ++ reason) ∧
      (Departed net.intchan (cmdintkick net irc ircbuf link).1.intchan k (clip 64 member.nick) ↔
        Spelled chan (clip 64 member.nick)) := by
  simp only [cmdintkick, kickedChannel, hwords, hclient, h.found, h.channel, h.member, remember_name,
    removenickfromchannel_name]
  refine ⟨trivial, ?_⟩
  rw [departed_storeLeft_iff h.found_name h.channel (by simp), getchannelnick_remember]
  exact getchannelnick_removed_iff

theorem partChannel_departed_iff (irccontent : CStr)
    (h : OnChannel net name client.nick k chan member) :
    (partChannel net client name irccontent).2 =
        [saytochannel net chan.name
          (COLON :: clientMask client ++ ascii " PART " ++ name ++ ascii " :" ++ irccontent)] ∧
      (Departed net.intchan (partChannel net client name irccontent).1.intchan k client.nick ↔
        Spelled chan client.nick) := by
  rcases h.index with ⟨i, hi⟩
  simp only [partChannel, h.found, Option.bind_some, h.channel, Option.map_some, hi,
    removenickfromchannel_name]
  refine ⟨trivial, ?_⟩
  rw [← getchannelnick_removed_iff]
  exact departed_storeLeft_iff h.found_name h.channel (removenickfromchannel_name _ _)

/-- The nick that is announced is the member's, the one that is removed is the nick as typed. -/
theorem kickNick_departed_iff (irccontent : CStr) (h : OnChannel net name nick k chan member) :
    (kickNick net client name irccontent k chan nick).2 =
        [saytochannel net name (COLON :: clientMask client ++ ascii " KICK " ++ name ++ SP ::
          member.nick ++ ascii " :" ++ irccontent)] ∧
      (Departed net.intchan (kickNick net client name irccontent k chan nick).1.intchan k
          member.nick ↔ Spelled chan nick) := by
  simp only [kickNick, kickedChannel, h.member]
  refine ⟨trivial, ?_⟩
  rw [departed_storeLeft_iff h.found h.channel (by simp), getchannelnick_remember,
    getchannelnick_congr h.answers]
  exact getchannelnick_removed_iff

end Handlers

/-! ## Quitting -/

section Quit

variable {net : Intnet} (hnames : (net.intchan.map fun c => foldName c.name).Nodup)

include hnames

theorem removenickfromallchannels_gone_iff (nick : CStr) :
    (∀ chan ∈ removenickfromallchannels net.intchan nick, getchannelnick chan nick = none) ↔
      ∀ chan ∈ net.intchan, Spelled chan nick := by
  rw [removenickfromallchannels_eq nick hnames]
  exact leaveAll_gone_iff

theorem cmdintquit_departed_iff {irc : Parsed} {client : Clientt} (ircbuf : CStr) (link : Nat)
    (hclient : getclientbynick net irc.ircnick = some client) (hremote : client.intuser = 0) :
    (cmdintquit net irc ircbuf link).2 =
        sendtochannelsofnick net (clip 64 irc.ircnick) link ircbuf ∧
      ((∀ chan ∈ (cmdintquit net irc ircbuf link).1.intchan,
          getchannelnick chan (clip 64 irc.ircnick) = none) ↔
        ∀ chan ∈ net.intchan, Spelled chan (clip 64 irc.ircnick)) := by
  simp only [cmdintquit, hclient, hremote, if_true, removeclient]
  exact ⟨trivial, removenickfromallchannels_gone_iff hnames _⟩

theorem quitLocal_departed_iff {usern : Nat} {client : Clientt} (irccontent : CStr)
    (hclient : getclientbynumber net usern = some client) :
    (quitLocal net usern irccontent).2 =
        [saytochannelsofnick net client.nick
          (COLON :: clientMask client ++ ascii " QUIT :" ++ irccontent)] ∧
      ((∀ chan ∈ (quitLocal net usern irccontent).1.intchan,
          getchannelnick chan client.nick = none) ↔
        ∀ chan ∈ net.intchan, Spelled chan client.nick) := by
  simp only [quitLocal, hclient, removeclient]
  exact ⟨trivial, removenickfromallchannels_gone_iff hnames _⟩

end Quit

end PsyBnc
