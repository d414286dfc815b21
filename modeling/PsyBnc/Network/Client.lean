import PsyBnc.Network.ShownNames
import PsyBnc.Lib.Refine

/-!
# The client's server

All that a client is shown of a network is what a server of its own would send him, along every run.
-/

namespace PsyBnc

open CLib

/-! ## Who is told -/

namespace Beyond

variable {tok pa all : CStr} {w w' : World} {n m mask chan : CStr}

/-- Who shares a channel with the user does so on the client's server. -/
theorem together (h : Beyond tok pa all w w') (hp : TokenParent tok pa all) :
    (∃ c, retoldNick tok pa w.me n ∈ w'.on c ∧ w'.me ∈ w'.on c) ↔ ∃ c, n ∈ w.on c ∧ w.me ∈ w.on c :=
  h.maps.together (injective hp)

theorem self_iff (h : Beyond tok pa all w w') (hp : TokenParent tok pa all) :
    retoldNick tok pa w.me n = w'.me ↔ n = w.me := by
  rw [h.maps.me]
  exact (injective hp).eq_iff

theorem me_on (h : Beyond tok pa all w w') (hp : TokenParent tok pa all) (hlen : (retoldChan tok chan).length < 200) :
    w'.me ∈ w'.on (foldName (retoldChan tok chan)) ↔ w.me ∈ w.on (foldName chan) := by
  rw [h.maps.me]
  exact h.mem_on hp hlen

theorem seen_join {colon : Bool} (h : Beyond tok pa all w w') (hp : TokenParent tok pa all)
    (hlen : (retoldChan tok chan).length < 200) :
    w'.Seen (.join (retoldNick tok pa w.me n) mask (retoldChan tok chan) true) ↔ w.Seen (.join n mask chan colon) :=
  or_congr (h.self_iff hp) (h.me_on hp hlen)

theorem seen_part {reason reason' : Option CStr} (h : Beyond tok pa all w w') (hp : TokenParent tok pa all)
    (hlen : (retoldChan tok chan).length < 200) :
    w'.Seen (.part (retoldNick tok pa w.me n) mask (retoldChan tok chan) reason') ↔
      w.Seen (.part n mask chan reason) :=
  h.me_on hp hlen

theorem seen_kick {sender reason : CStr} (h : Beyond tok pa all w w') (hp : TokenParent tok pa all)
    (hlen : (retoldChan tok chan).length < 200) :
    w'.Seen (.kick (retoldSource tok pa w.me sender) (retoldChan tok chan) (retoldNick tok pa w.me n) reason) ↔
      w.Seen (.kick sender chan n reason) :=
  h.me_on hp hlen

theorem seen_quit {reason : CStr} (h : Beyond tok pa all w w') (hp : TokenParent tok pa all) :
    w'.Seen (.quit (retoldNick tok pa w.me n) mask reason) ↔ w.Seen (.quit n mask reason) :=
  or_congr (h.self_iff hp) (h.together hp)

theorem seen_nick (mask m : CStr) (colon : Bool) (h : Beyond tok pa all w w') (hp : TokenParent tok pa all) :
    w'.Seen (.nick (retoldNick tok pa w.me n) mask (tok ++ TILDE :: m) true) ↔ w.Seen (.nick n mask m colon) :=
  or_congr (h.self_iff hp) (h.together hp)

end Beyond

/-! ## What is emitted -/

open Classical in
/-- A server with the line that its user is sent; nothing impossible happens there. -/
noncomputable def World.tellStep (w : World) (e : ServerEvent) : Option (World × List CStr) :=
  if w.Valid e then some (w.step e, if w.Seen e then [w.text e] else []) else none

/-- A line of the network, with what `netircfrom` was before: any user's line can have come in between. -/
structure Arrival where
  event : ServerEvent
  netircfrom : CStr

/-- A network with the session of a user there; `srinit` is set from 001 up to 376. -/
structure Connection where
  world : World
  session : UserSession
  srinit : Bool

/-- What a connected client gets of a line.  Those that do not tell who is where are left out here. -/
def NetAccount.passes (a : NetAccount) (t : Terminator) (w : World) (srinit : Bool) (s : UserSession) (i : Arrival) :
    Option (List CStr) :=
  match i.event with
  | .whoEnd _ => some []
  | .other _ => some []
  | e => a.shows srinit i.netircfrom s (w.line t e)

open Classical in
/-- An event on the network: `useroutbound` follows it, and what it leaves of the line goes to the client. -/
noncomputable def NetAccount.passStep (a : NetAccount) (t : Terminator) (p : Connection) (i : Arrival) :
    Option (Connection × List CStr) :=
  let line := p.world.line t i.event
  if p.world.Seen i.event then
    (useroutbound p.session line).bind fun s =>
      (a.passes t p.world p.srinit s i).map fun out =>
        (⟨p.world.step i.event, s, initAfter p.srinit (parse line)⟩, out)
  else some ({ p with world := p.world.step i.event, session := p.session.doing i.event }, [])

/-- What can happen and be retold; the signs come with the replies to the registration. -/
def Connection.Allows (tok pa all : CStr) (p : Connection) (i : Arrival) : Prop :=
  p.world.Valid i.event ∧ p.world.Retellable tok pa all i.event ∧
    ∀ server before modes signs after, i.event = .isupport server before modes signs after → p.srinit = true

/-- The account of the network with the token. -/
structure NetAccount.Belongs (a : NetAccount) (tok pa : CStr) : Prop where
  network : a.network = tok
  parentnick : a.parentnick = pa
  types : ∀ b ∈ a.chantypes, b ∈ ascii "#&+!"
  int : tok ≠ ascii "int"
  /-- Every entry of the lists can be deciphered. -/
  lists : ∀ entry ∈ a.bans ++ a.aops, (opString a.salt entry).isSome = true

section Steps

variable {a : NetAccount} {tok pa all : CStr} {w w' : World} {s s' : UserSession} {e e' : ServerEvent} {i : Arrival}
  {t : Terminator} {out : List CStr}

theorem NetAccount.Belongs.fits (ha : a.Belongs tok pa) (hw : w.Sound) (hs : Reflects w s) : a.Fits tok pa w.me s where
  network := ha.network
  parentnick := ha.parentnick
  types := ha.types
  int := ha.int
  lists := ha.lists
  nick := hs.nick
  short := hw.me_nick.2.1

theorem runEmit_tell (he : w.Valid e) (hseen : w.Seen e) :
    runEmit World.tellStep w [e] = some (w.step e, [w.text e]) := by
  apply runEmit_single
  rw [World.tellStep, if_pos he, if_pos hseen]

theorem runEmit_untold (he : w.Valid e) (hseen : ¬ w.Seen e) :
    runEmit World.tellStep w [e] = some (w.step e, []) := by
  apply runEmit_single
  rw [World.tellStep, if_pos he, if_neg hseen]

/-- What a step of the network is for the client's server. -/
def Matched (tok pa all : CStr) (v w' : World) (out : List CStr) : Prop :=
  ∃ es v', runEmit World.tellStep w' es = some (v', out) ∧ Beyond tok pa all v v'

/-- An event that is one event there. -/
theorem matched_one {v : World} (he' : w'.Valid e' ∧ Beyond tok pa all v (w'.step e')) (hseen : w'.Seen e') :
    Matched tok pa all v w' [w'.text e'] :=
  ⟨[e'], w'.step e', runEmit_tell he'.1 hseen, he'.2⟩

theorem matched_unseen {v : World} (he' : w'.Valid e' ∧ Beyond tok pa all v (w'.step e')) (hseen : ¬ w'.Seen e') :
    Matched tok pa all v w' [] :=
  ⟨[e'], w'.step e', runEmit_untold he'.1 hseen, he'.2⟩

/-- An event of which nothing is told. -/
theorem matched_none {v : World} (h : Beyond tok pa all v w') : Matched tok pa all v w' [] := ⟨[], w', rfl, h⟩

/-- What NAMES tells on the client's server does not change who is where. -/
theorem Beyond.told {server chan : CStr} {kind : Byte} {words : List (CStr × CStr)} (h : Beyond tok pa all w w')
    (he' : w'.Valid (.names server kind chan words)) :
    Beyond tok pa all w (w'.step (.names server kind chan words)) := by
  have hmaps : Presence.Maps (retoldNick tok pa w.me) (retoldKey tok) w.toPresence
      (w'.step (.names server kind chan words)).toPresence := ⟨h.maps.me, h.maps.on, h.maps.only⟩
  exact h.moved w (w'.step (.names server kind chan words)) hmaps rfl rfl rfl rfl rfl h.sound (h.sound'.step he')

/-- Replies that tell who is on a channel, one behind the other. -/
theorem Beyond.matched_names {server chan : CStr} {kind : Byte} {yss : List (List (CStr × CStr))}
    (h : Beyond tok pa all w w') (hvalid : ∀ ys ∈ yss, w'.Valid (.names server kind chan ys)) :
    Matched tok pa all w w' (yss.map fun ys => w'.text (.names server kind chan ys)) := by
  induction yss generalizing w' with
  | nil => exact matched_none h
  | cons ys yss ih =>
      rw [List.forall_mem_cons] at hvalid
      -- the next reply is the same after this one
      rcases ih (h.told hvalid.1) hvalid.2 with ⟨es, v', hrun, hv'⟩
      refine ⟨.names server kind chan ys :: es, v', ?_, hv'⟩
      have hfirst : w'.tellStep (.names server kind chan ys) =
          some (w'.step (.names server kind chan ys), [w'.text (.names server kind chan ys)]) := by
        rw [World.tellStep, if_pos hvalid.1]
        exact congrArg (fun out => some (_, out)) (if_pos trivial)
      exact runEmit_cons hfirst hrun

/-- An event that tells only whom the session may know. -/
theorem Matched.untold {c : CStr} {ns : List CStr} (h : Matched tok pa all w w' out)
    (hstep : w.step e = w.move (.tell c ns)) (he : w.Valid e) : Matched tok pa all (w.step e) w' out := by
  rcases h with ⟨es, v', hrun, hv'⟩
  exact ⟨es, v', hrun, hv'.untold hstep he⟩

theorem shows_who {srinit : Bool} {old line : CStr} (hcmd : (parse line).irccommand = ascii "352")
    (hasked : s.triggered = 0) : a.shows srinit old s line = some [] := by
  have hif := ifcommand_eq hcmd (by decide)
  rw [NetAccount.shows, if_pos]
  right
  refine ⟨?_, hasked⟩
  rw [hif]
  decide

/-- The lines that are passed on are what the client's server sends. -/
theorem passes_matched {srinit : Bool} (hp : TokenParent tok pa all) (ha : a.Belongs tok pa)
    (h : Beyond tok pa all w w') (hs : Reflects (w.step i.event) s) (he : w.Valid i.event)
    (hr : w.Retellable tok pa all i.event)
    (hin : ∀ server before modes signs after, i.event = .isupport server before modes signs after → srinit = true)
    (hseen : w.Seen i.event) :
    ∃ out, a.passes t w srinit s i = some out ∧ Matched tok pa all (w.step i.event) w' out := by
  rcases i with ⟨e, old⟩
  have hfits := ha.fits (h.sound.step he) hs
  cases e with
  | connect n =>
      exact hseen.elim
  | join n mask chan colon =>
      rcases h.shows_join hp hfits he hr t with ⟨c, hcase, hshows⟩
      -- the channel is the same in other letters
      have hfold : foldName c = foldName chan := foldName_of_case hcase
      have hlen : (retoldChan tok c).length < 200 := by
        rw [length_retoldChan hcase]
        exact hr.2
      have he' : w.Valid (.join n mask c colon) := ⟨he.1, hfold.symm ▸ he.2.1, he.2.2.1, he.2.2.2.of_case hcase⟩
      have hstep : w.step (.join n mask c colon) = w.step (.join n mask chan colon) := by
        rw [World.step, World.step, hfold]
      have hnext := h.join hp he' ⟨hr.1, hlen⟩
      rw [hstep] at hnext
      refine ⟨_, hshows, matched_one hnext ?_⟩
      have hseen' : w.Seen (.join n mask c colon) := by
        rw [World.Seen, hfold]
        exact hseen
      exact (h.seen_join hp hlen).2 hseen'
  | names server kind chan words =>
      -- A NAMES reply may be passed on in several lines, each of which the client's server could have sent.
      rcases h.shows_names hp hfits hs.signs he hr t with ⟨yss, hshows, hvalid⟩
      refine ⟨_, hshows, ?_⟩
      have hvalid' : ∀ zs ∈ yss.map fun ys => ys.map (Beyond.retoldWord tok pa w.me) ++ [([], [])],
          w'.Valid (.names server kind (retoldChan tok chan) zs) := by
        intro zs hzs
        rcases List.mem_map.1 hzs with ⟨ys, hys, rfl⟩
        exact hvalid ys hys
      have hmatched := h.matched_names hvalid'
      rw [List.map_map] at hmatched
      exact hmatched.untold rfl he
  | who server chan ident host hop n flags hops real =>
      -- Nobody asked for this WHO, so psyBNC takes the reply for itself.
      have hnone : w.asked = 0 := hr
      have hasked : s.triggered = 0 := by
        rw [hs.asked, World.step, if_pos hnone]
        exact hnone
      refine ⟨[], shows_who (Reflects.parse_who h.sound t he) hasked, ?_⟩
      exact (matched_none h).untold (if_pos hnone) he
  | part n mask chan reason =>
      refine ⟨_, h.shows_part hp hfits he hr t, matched_one (h.part hp he hr) ?_⟩
      exact (h.seen_part hp hr.2).2 hseen
  | kick sender chan n reason =>
      refine ⟨_, h.shows_kick hp hfits he hr t, matched_one (h.kick hp he hr) ?_⟩
      exact (h.seen_kick hp hr.2.1).2 hseen
  | quit n mask reason =>
      refine ⟨_, h.shows_quit hp hfits he hr t, matched_one (h.quit hp he) ?_⟩
      exact (h.seen_quit hp).2 hseen
  | nick n mask m colon =>
      by_cases hown : n = w.me
      · -- A change of our own nick stays inside: the client knows the nick of the parent.
        have hme : (w.step (.nick n mask m colon)).me = m := if_pos hown.symm
        rw [hme] at hfits
        exact ⟨[], h.shows_nick_own hfits he t, matched_none (h.nick_own hown he hr)⟩
      · have hme : (w.step (.nick n mask m colon)).me = w.me := if_neg (Ne.symm hown)
        rw [hme] at hfits
        refine ⟨_, h.shows_nick_other hp hfits hown he hr t, matched_one (h.nick_other hp hown he hr) ?_⟩
        have hseen' := (h.seen_nick mask m colon hp).2 hseen
        rw [retoldNick_other hown] at hseen'
        exact hseen'
  | welcome server m text =>
      have hcmd : (parse (w.line t (.welcome server m text))).irccommand = ascii "001" :=
        (Reflects.sent_welcome t he).command.trans (by decide)
      have hif := ifcommand_eq hcmd (by decide)
      have hnext := h.welcome hp he hr
      exact ⟨[], Beyond.shows_init hfits (hnext.called hp) hif (Or.inl rfl), matched_none hnext⟩
  | isupport server before modes signs after =>
      have hif := ifcommand_eq (Reflects.parse_isupport h.sound t he) (by decide)
      have hnext := h.isupport he hr
      exact ⟨[], Beyond.shows_init hfits (hnext.called hp) hif (Or.inr ⟨rfl, hin _ _ _ _ _ rfl⟩), matched_none hnext⟩
  | error line =>
      exact hr.elim
  | whoEnd line =>
      exact ⟨[], rfl, matched_none (h.asking (w.asked - 1))⟩
  | other line =>
      exact ⟨[], rfl, matched_none h⟩
  | ask =>
      exact hseen.elim
  | forget =>
      exact hseen.elim

/-- What happens where the user is not is nothing to the client either. -/
theorem unseen_matched (hp : TokenParent tok pa all) (h : Beyond tok pa all w w') (he : w.Valid e)
    (hr : w.Retellable tok pa all e) (hseen : ¬ w.Seen e) : Matched tok pa all (w.step e) w' [] := by
  cases e with
  | connect n =>
      exact matched_unseen (h.connect hp he hr) not_false
  | join n mask chan colon =>
      exact matched_unseen (h.join hp he hr) fun hs => hseen ((h.seen_join hp hr.2).1 hs)
  | part n mask chan reason =>
      exact matched_unseen (h.part hp he hr) fun hs => hseen ((h.seen_part hp hr.2).1 hs)
  | kick sender chan n reason =>
      exact matched_unseen (h.kick hp he hr) fun hs => hseen ((h.seen_kick hp hr.2.1).1 hs)
  | quit n mask reason =>
      exact matched_unseen (h.quit hp he) fun hs => hseen ((h.seen_quit hp).1 hs)
  | nick n mask m colon =>
      have hother : n ≠ w.me := (not_or.1 hseen).1
      apply matched_unseen (h.nick_other hp hother he hr)
      intro hs
      rw [← @retoldNick_other tok pa w.me n hother] at hs
      exact hseen ((h.seen_nick mask m colon hp).1 hs)
  | names server kind chan words =>
      exact absurd trivial hseen
  | who server chan ident host hop n flags hops real =>
      exact absurd trivial hseen
  | welcome server m text =>
      exact absurd trivial hseen
  | isupport server before modes signs after =>
      exact absurd trivial hseen
  | error line =>
      exact absurd trivial hseen
  | whoEnd line =>
      exact absurd trivial hseen
  | other line =>
      exact absurd trivial hseen
  | ask =>
      exact matched_none (h.asking (w.asked + 1))
  | forget =>
      exact matched_none (h.asking 0)

/-- The session knows the network, and the client's server is the network's behind the token. -/
def Shown (tok pa all : CStr) (p : Connection) (w' : World) : Prop :=
  Reflects p.world p.session ∧ Beyond tok pa all p.world w'

/-- What one event of the network is to the client. -/
theorem passStep_matched {p : Connection} (hp : TokenParent tok pa all) (ha : a.Belongs tok pa)
    (h : Shown tok pa all p w') (hi : p.Allows tok pa all i) :
    ∃ q out, a.passStep t p i = some (q, out) ∧
      ∃ es v', runEmit World.tellStep w' es = some (v', out) ∧ Shown tok pa all q v' := by
  rcases h with ⟨hs, h⟩
  rcases hi with ⟨he, hr, hin⟩
  by_cases hseen : p.world.Seen i.event
  · rcases hs.hear h.sound t he hseen with ⟨s, hhear, hs'⟩
    rcases passes_matched hp ha h hs' he hr hin hseen with ⟨out, hpass, es, v', hrun, hv'⟩
    refine ⟨⟨p.world.step i.event, s, initAfter p.srinit (parse (p.world.line t i.event))⟩, out, ?_, es, v', hrun,
      hs', hv'⟩
    rw [NetAccount.passStep, if_pos hseen, hhear, Option.bind_some, hpass]
    rfl
  · rcases unseen_matched hp h he hr hseen with ⟨es, v', hrun, hv'⟩
    refine ⟨{ p with world := p.world.step i.event, session := p.session.doing i.event }, [], ?_, es, v', hrun,
      hs.unseen h.sound he hseen, hv'⟩
    rw [NetAccount.passStep, if_neg hseen]

/-- Along every run the client is sent what a possible run of its own server sends. -/
theorem passStep_refines {p : Connection} (hp : TokenParent tok pa all) (ha : a.Belongs tok pa)
    (h : Shown tok pa all p w') {is : List Arrival}
    (his : StepsMeet (silently (a.passStep t)) (fun p i => p.Allows tok pa all i) p is) :
    ∃ q out, runEmit (a.passStep t) p is = some (q, out) ∧
      ∃ es v', runEmit World.tellStep w' es = some (v', out) ∧ Shown tok pa all q v' :=
  runEmit_refines (fun _ _ _ h hi => passStep_matched hp ha h hi) h his

end Steps

/-! ## A visit -/

/-- The client's server before the visit. -/
def quietClient : World where
  me := ascii "me"
  on := fun _ => ∅
  owed := fun _ => ∅
  online := {ascii "me", ascii "net~bob"}
  signs := ascii "@+"
  asked := 0

theorem quietNetwork_lt : (ascii "net").length < 10 := by decide

theorem quietNick_lt : (ascii "me").length < 64 := by decide

theorem quietUser_le : 3 ≤ 10000 := by decide

theorem quietParent_ne : 2 ≠ 0 := by decide

def quietAccount : NetAccount where
  usern := 3
  uparent := 2
  network := ascii "net"
  parentnick := ascii "me"
  wantnick := ascii "me"
  chantypes := ascii "#&"
  bans := []
  aops := [ascii "*!b@*;#a"]
  salt := buildSalt
  usern_le := quietUser_le
  uparent_ne := quietParent_ne
  network_lt := quietNetwork_lt
  parentnick_lt := quietNick_lt
  wantnick_lt := quietNick_lt

theorem quietToken : TokenParent (ascii "net") (ascii "me") (ascii "@+") where
  text := by decide
  short := by decide
  head := ⟨110, rfl, by decide⟩
  nick := by decide
  tilde := by decide
  first := by decide

theorem quietAccount_belongs : quietAccount.Belongs (ascii "net") (ascii "me") where
  network := rfl
  parentnick := rfl
  types := by decide
  int := by decide
  lists := by decide

theorem quietClient_sound : quietClient.Sound where
  presence := ⟨fun _ h => h, fun _ _ h => h⟩
  sub := fun _ _ h => absurd h (Set.notMem_empty _)
  nicks := by
    rintro n (rfl | rfl | rfl)
    · decide
    · decide
    · decide
  apart := by
    rintro n (rfl | rfl | rfl) m (rfl | rfl | rfl) heq
    all_goals first | rfl | exact absurd heq (by decide)
  signs := by decide

theorem quietClient_behind : Beyond (ascii "net") (ascii "me") (ascii "@+") quietWorld quietClient where
  maps := by
    refine ⟨rfl, fun c => (Set.image_empty _).symm, ?_⟩
    rintro c ⟨n, hn⟩
    exact absurd hn (Set.notMem_empty _)
  online := by
    have hpair := Set.image_pair (retoldNick (ascii "net") (ascii "me") (ascii "me")) (ascii "me") (ascii "bob")
    have hme : retoldNick (ascii "net") (ascii "me") (ascii "me") (ascii "me") = ascii "me" := by decide
    have hbob : retoldNick (ascii "net") (ascii "me") (ascii "me") (ascii "bob") = ascii "net~bob" := by decide
    rw [hme, hbob] at hpair
    exact hpair.symm
  signs := fun b hb => hb
  signs' := rfl
  sound := quietWorld_sound
  sound' := quietClient_sound
  apart := by
    rintro n (rfl | rfl | rfl) heq
    · exact ⟨rfl, rfl⟩
    · exact ⟨rfl, rfl⟩
    · exact absurd heq (by decide)
  short := by
    rintro n (rfl | rfl)
    · decide
    · decide

/-- The user finds somebody on a channel, is told his name, and is kicked by him. -/
def callIn : List Arrival :=
  [⟨.join (ascii "bob") (ascii "b@h") (ascii "#a") true, []⟩, ⟨.join (ascii "me") (ascii "m@h") (ascii "#A") false, []⟩,
    ⟨.names (ascii "irc") EQUALS (ascii "#a") [(ascii "@", ascii "bob"), ([], ascii "me"), ([], [])], []⟩,
    ⟨.kick (ascii "bob!b@h") (ascii "#a") (ascii "me") (ascii "out"), []⟩]

/-- The world of a connection does not depend on what the client gets. -/
theorem passStep_world {a : NetAccount} {t : Terminator} {p q : Connection} {i : Arrival}
    (h : silently (a.passStep t) p i = some q) : q.world = p.world.step i.event := by
  rcases Option.map_eq_some_iff.1 h with ⟨⟨r, out⟩, hstep, rfl⟩
  rw [NetAccount.passStep] at hstep
  split at hstep
  · rcases Option.bind_eq_some_iff.1 hstep with ⟨s, _, hs⟩
    rcases Option.map_eq_some_iff.1 hs with ⟨out', _, heq⟩
    cases heq
    rfl
  · cases hstep
    rfl

/-- A first event that is possible in the world. -/
theorem meets_cons {a : NetAccount} {t : Terminator} {tok pa all : CStr} {w : World} {i : Arrival} {is : List Arrival}
    (hi : w.Valid i.event ∧ w.Retellable tok pa all i.event)
    (hno : ∀ server before modes signs after, i.event ≠ .isupport server before modes signs after)
    (his : ∀ q : Connection, q.world = w.step i.event →
      StepsMeet (silently (a.passStep t)) (fun p i => p.Allows tok pa all i) q is) :
    ∀ p : Connection, p.world = w →
      StepsMeet (silently (a.passStep t)) (fun p i => p.Allows tok pa all i) p (i :: is) := by
  rintro p rfl
  refine ⟨⟨hi.1, hi.2, ?_⟩, fun q hq => his q (passStep_world hq)⟩
  exact fun server before modes signs after heq => absurd heq (hno server before modes signs after)

theorem callIn_allowed (t : Terminator) : ∀ p : Connection, p.world = quietWorld →
    StepsMeet (silently (quietAccount.passStep t)) (fun p i => p.Allows (ascii "net") (ascii "me") (ascii "@+") i) p
      callIn := by
  have hfold : foldName (ascii "#A") = foldName (ascii "#a") := by decide
  have hbob : ascii "me" ≠ ascii "bob" := by decide
  refine meets_cons ?_ (by rintro _ _ _ _ _ ⟨⟩) ?_
  · exact ⟨⟨Or.inr rfl, Set.notMem_empty _, by decide, visit_chan⟩, ⟨by decide, by decide⟩, by decide⟩
  refine meets_cons ?_ (by rintro _ _ _ _ _ ⟨⟩) ?_
  · refine ⟨⟨Or.inl rfl, ?_, by decide, ⟨⟨35, by decide, by decide⟩, by decide, by decide⟩⟩,
      ⟨by decide, by decide⟩, by decide⟩
    simp [World.step, World.move, Presence.move, quietWorld, hfold, hbob]
  refine meets_cons ?_ (by rintro _ _ _ _ _ ⟨⟩) ?_
  · refine ⟨⟨?_, ⟨⟨by decide, by decide⟩, visit_chan, by decide⟩, by decide, by decide, ?_⟩, ⟨rfl, by decide⟩,
      by decide, [(ascii "@", ascii "bob"), ([], ascii "me")], rfl, by decide⟩
    · simp [World.step, World.move, Presence.move, quietWorld, hfold]
    · simp [World.step, World.move, Presence.move, quietWorld, hfold]
      decide
  refine meets_cons ?_ (by rintro _ _ _ _ _ ⟨⟩) ?_
  · refine ⟨⟨?_, ⟨by decide, by decide⟩, visit_chan, ⟨by decide, by decide⟩⟩, ⟨?_, by decide⟩, by decide, Or.inl rfl⟩
    · simp [World.step, World.move, Presence.move, quietWorld, hfold]
    · refine Or.inl ⟨ascii "bob", ascii "b@h", rfl, ⟨by decide, by decide⟩, by decide, ?_, ?_⟩
      · exact fun h => absurd h (by decide)
      · exact fun h => absurd h (by decide)
  exact fun _ _ => trivial

/-- The client sees the visit as one on its own server. -/
theorem passStep_refines_callIn :
    ∃ q out, runEmit (quietAccount.passStep .crlf) ⟨quietWorld, quietSession, false⟩ callIn = some (q, out) ∧
      ∃ es v', runEmit World.tellStep quietClient es = some (v', out) ∧
        Shown (ascii "net") (ascii "me") (ascii "@+") q v' :=
  passStep_refines quietToken quietAccount_belongs ⟨quietSession_reflects, quietClient_behind⟩
    (callIn_allowed .crlf _ rfl)

end PsyBnc
