import PsyBnc.Network.Names
import PsyBnc.Server.World

/-!
# A server behind a token

The client of a user with networks sees the names of a network with its token in front.  To the client the network is a
server of its own: each event there is retold as an event on that server, where the same users are on the same channels
by their other names.
-/

namespace PsyBnc

open CLib

/-! ## Names with a token -/

/-- A nick as the client sees it: the user himself has the nick of the parent. -/
def retoldNick (tok pa me n : CStr) : CStr := if n = me then pa else tok ++ TILDE :: n

def retoldChan (tok chan : CStr) : CStr := HASH :: (tok ++ TILDE :: chan)

/-- The folded name of a channel. -/
def retoldKey (tok key : CStr) : CStr := HASH :: (ucase tok ++ TILDE :: key)

/-- The sender of a line: one with an `@` in it is a user. -/
def retoldSource (tok pa me sender : CStr) : CStr :=
  if AT ∈ sender then
    match cutAt BANG sender with
    | some (n, mask) => retoldNick tok pa me n ++ BANG :: mask
    | none => tok ++ TILDE :: sender
  else sender

/-- A token and a nick of the parent that a client can tell apart; `all` are the signs that it knows. -/
structure TokenParent (tok pa all : CStr) : Prop where
  text : ∀ b ∈ tok, b ∉ nickStops
  short : tok.length < 10
  head : ∃ b ∈ tok.head?, b ∉ all
  nick : ServerNick all pa
  tilde : TILDE ∉ pa
  first : ∀ b ∈ World.firstSigns, b ∈ all

section Names

variable {tok pa all me n m chan : CStr}

/-- The name of a channel in other letters. -/
theorem ChanText.of_case {c : CStr} (h : ChanText chan) (hcase : ucase c = ucase chan) : ChanText c := by
  have hsame : ∀ b : Byte, b < 65 ∨ 122 < b → b ∉ chan → b ∉ c := by
    intro b hb hno hmem
    rw [← mem_ucase_iff hb, hcase, mem_ucase_iff hb] at hmem
    exact hno hmem
  rcases h.word with ⟨hsp, hcolon, hzero, hcr, hlf⟩
  refine ⟨?_, ⟨hsame SP (by decide) hsp, hsame COLON (by decide) hcolon, hsame 0 (by decide) hzero,
    hsame CR (by decide) hcr, hsame LF (by decide) hlf⟩, ?_⟩
  · rcases h.sign with ⟨b, hb, hsign⟩
    have hsigns : ∀ b ∈ ascii "#&+!", b < 65 ∨ 122 < b := by decide
    have hhead := congrArg List.head? hcase
    rw [ucase, ucase, List.head?_map, List.head?_map, hb, Option.map_some,
      (toupper_eq_iff (hsigns b hsign)).2 rfl] at hhead
    rcases Option.map_eq_some_iff.1 hhead with ⟨b', hb', heq⟩
    exact ⟨b', hb', (toupper_eq_iff (hsigns b hsign)).1 heq ▸ hsign⟩
  · have hlen := congrArg List.length hcase
    rw [length_ucase, length_ucase] at hlen
    rw [hlen]
    exact h.short

theorem ucase_append (s t : CStr) : ucase (s ++ t) = ucase s ++ ucase t := List.map_append

theorem ucase_tokened : ucase (tok ++ TILDE :: n) = ucase tok ++ TILDE :: ucase n := by
  rw [ucase_append]
  rfl

theorem retoldNick_self : retoldNick tok pa me me = pa := if_pos rfl

theorem retoldNick_other (h : n ≠ me) : retoldNick tok pa me n = tok ++ TILDE :: n := if_neg h

/-- The parent's nick has no token. -/
theorem ucase_ne_tokened (htilde : TILDE ∉ pa) (n : CStr) : ucase pa ≠ ucase (tok ++ TILDE :: n) := by
  intro heq
  apply htilde
  rw [← mem_ucase_iff (by decide), heq, mem_ucase_iff (by decide)]
  exact List.mem_append_right _ List.mem_cons_self

theorem retoldNick_injective (htilde : TILDE ∉ pa) : Function.Injective (retoldNick tok pa me) := by
  intro n m heq
  rw [retoldNick, retoldNick] at heq
  split at heq
  · next hn =>
    split at heq
    · next hm => rw [hn, hm]
    · exact absurd (congrArg ucase heq) (ucase_ne_tokened htilde m)
  · split at heq
    · exact absurd (congrArg ucase heq.symm) (ucase_ne_tokened htilde n)
    · exact List.cons_injective (List.append_cancel_left heq)

theorem retoldKey_injective : Function.Injective (retoldKey tok) := by
  intro k j heq
  rw [retoldKey, retoldKey, List.cons.injEq, List.append_right_inj] at heq
  exact List.cons_injective heq.2

theorem foldName_of_case {c : CStr} (hcase : ucase c = ucase chan) : foldName c = foldName chan := by
  have hmap : ∀ s : CStr, ucase (clip 255 s) = clip 255 (ucase s) := fun s => List.map_take
  rw [foldName, foldName, hmap, hmap, hcase]

theorem length_retoldChan {c : CStr} (hcase : ucase c = ucase chan) :
    (retoldChan tok c).length = (retoldChan tok chan).length := by
  have hlen := congrArg List.length hcase
  rw [length_ucase, length_ucase] at hlen
  simp only [retoldChan, List.length_cons, List.length_append, hlen]

theorem foldName_retoldChan (hlen : (retoldChan tok chan).length < 200) :
    foldName (retoldChan tok chan) = retoldKey tok (foldName chan) := by
  have hshort : chan.length < 255 := by
    rw [retoldChan, List.length_cons, List.length_append, List.length_cons] at hlen
    omega
  rw [foldName, foldName, clip_eq_self (Nat.lt_trans hlen (by decide)), clip_eq_self hshort, retoldChan, retoldKey,
    ← ucase_tokened]
  rfl

/-- Bytes of a name with a token. -/
theorem mem_tokened {b : Byte} {s : CStr} (h : b ∈ tok ++ TILDE :: s) : b ∈ tok ∨ b = TILDE ∨ b ∈ s := by
  rw [List.mem_append, List.mem_cons] at h
  exact h

/-- A nick with a token is one on the client's server, whatever its signs were. -/
theorem serverNick_tokened {signs : CStr} (hp : TokenParent tok pa all) (hn : ServerNick signs n)
    (hlen : (tok ++ TILDE :: n).length < 64) : ServerNick all (tok ++ TILDE :: n) := by
  refine ⟨List.append_ne_nil_of_right_ne_nil tok (List.cons_ne_nil _ _), hlen, ?_, ?_⟩
  · intro b hb
    rcases mem_tokened hb with hb | rfl | hb
    · exact hp.text b hb
    · decide
    · exact hn.2.2.1 b hb
  · rcases hp.head with ⟨c, hc, hall⟩
    intro b hb
    have hhead : (tok ++ TILDE :: n).head? = some c := by
      cases tok with
      | nil => cases hc
      | cons d tok => exact hc
    rw [hhead] at hb
    exact Option.some.inj hb ▸ hall

theorem chanText_retold (hp : TokenParent tok pa all) (hchan : ChanText chan)
    (hlen : (retoldChan tok chan).length < 200) : ChanText (retoldChan tok chan) := by
  have hfree : ∀ b : Byte, b ∈ nickStops → b ≠ HASH → b ≠ TILDE → b ∉ chan → b ∉ retoldChan tok chan := by
    intro b hstop hhash htilde hb hmem
    rcases List.mem_cons.1 hmem with h | h
    · exact hhash h
    · rcases mem_tokened h with h | h | h
      · exact hp.text b h hstop
      · exact htilde h
      · exact hb h
  rcases hchan.word with ⟨hsp, hcolon, hzero, hcr, hlf⟩
  refine ⟨⟨HASH, rfl, by decide⟩, ⟨?_, ?_, ?_, ?_, ?_⟩, hlen⟩
  · exact hfree SP (by decide) (by decide) (by decide) hsp
  · exact hfree COLON (by decide) (by decide) (by decide) hcolon
  · exact hfree 0 (by decide) (by decide) (by decide) hzero
  · exact hfree CR (by decide) (by decide) (by decide) hcr
  · exact hfree LF (by decide) (by decide) (by decide) hlf

end Names

/-! ## Two servers -/

/-- The client's server is the network's beyond its token. -/
structure Beyond (tok pa all : CStr) (w w' : World) : Prop where
  maps : Presence.Maps (retoldNick tok pa w.me) (retoldKey tok) w.toPresence w'.toPresence
  online : w'.online = Set.image (retoldNick tok pa w.me) w.online
  signs : ∀ b ∈ w.signs, b ∈ all
  signs' : w'.signs = all
  sound : w.Sound
  sound' : w'.Sound
  /-- Nobody else has the nick of the parent, and the user has it only as it is written there. -/
  apart : ∀ n ∈ insert w.me w.online, ucase n = ucase pa → n = w.me ∧ n = pa
  short : ∀ n ∈ w.online, (retoldNick tok pa w.me n).length < 64

/-- A sender that is a user with a mask, whose nick is not that of the parent or of the user himself unless he is the
user, or has the name of a server. -/
def SenderFits (tok pa me sender : CStr) : Prop :=
  ((∃ n mask, sender = n ++ BANG :: mask ∧ (BANG ∉ n ∧ n.length < 64) ∧ AT ∈ mask ∧
      (ucase n = ucase pa → n = me ∧ n = pa) ∧ (ucase n = ucase me → n = me)) ∨ (AT ∉ sender ∧ BANG ∉ sender)) ∧
    (retoldSource tok pa me sender).length < 200

/-- The mask has an `@`, and what the client sees of the user fits `netircfrom`. -/
def World.MaskFits (w : World) (tok pa n mask : CStr) : Prop :=
  AT ∈ mask ∧ (retoldNick tok pa w.me n ++ BANG :: mask).length < 200

/-- What can be retold: names that fit with the token, nobody who takes the parent's nick, and no line in which the
user himself is called by another nick than the parent's where only the own nick is looked for.  The client hears
neither of a welcome, when the user is nowhere yet, nor of the signs, nor of a WHO that he did not ask for, and of an
ERROR he would have to hear. -/
def World.Retellable (tok pa all : CStr) (w : World) : ServerEvent → Prop
  | .connect n => ucase n ≠ ucase pa ∧ (tok ++ TILDE :: n).length < 64
  | .join n mask chan _ => w.MaskFits tok pa n mask ∧ (retoldChan tok chan).length < 200
  | .names server _ chan words =>
      (w.me = pa ∧ AT ∉ server) ∧ (retoldChan tok chan).length < 200 ∧
        ∃ ws, words = ws ++ [([], [])] ∧ ∀ p ∈ ws, p.1.length ≤ 1 ∧ p.2 ≠ []
  | .who _ _ _ _ _ _ _ _ _ => w.asked = 0
  | .part n mask chan _ => w.MaskFits tok pa n mask ∧ (retoldChan tok chan).length < 200
  | .kick sender chan n _ =>
      SenderFits tok pa w.me sender ∧ (retoldChan tok chan).length < 200 ∧
        (w.me = pa ∨ w.me ∉ [n, chan, ascii "KICK"])
  | .quit n mask _ => n ≠ w.me ∧ w.MaskFits tok pa n mask ∧ (w.me = pa ∨ w.me ≠ ascii "QUIT")
  | .nick n mask m _ =>
      (ucase m = ucase pa → n = w.me ∧ m = pa) ∧
        (n ≠ w.me → w.MaskFits tok pa n mask ∧ (tok ++ TILDE :: m).length < 64)
  | .welcome _ m _ => (w.me ∈ w.online ∧ ∀ c, w.me ∉ w.on c) ∧ (ucase m = ucase pa → m = pa)
  | .isupport _ _ _ signs _ => ∀ b ∈ signs, b ∈ all
  | .error _ => False
  | .whoEnd _ => True
  | .other _ => True
  | .ask => True
  | .forget => True

/-! ## Steps -/

namespace Beyond

variable {tok pa all : CStr} {w w' : World} {n m mask chan : CStr}

theorem me (h : Beyond tok pa all w w') : w'.me = pa := h.maps.me.trans retoldNick_self

theorem injective (hp : TokenParent tok pa all) : Function.Injective (retoldNick tok pa w.me) :=
  retoldNick_injective hp.tilde

/-- All who are on the client's server. -/
theorem everybody (h : Beyond tok pa all w w') :
    insert w'.me w'.online = Set.image (retoldNick tok pa w.me) (insert w.me w.online) := by
  rw [h.online, h.maps.me, Set.image_insert_eq]

theorem mem_online (h : Beyond tok pa all w w') (hp : TokenParent tok pa all) :
    retoldNick tok pa w.me n ∈ w'.online ↔ n ∈ w.online := by
  rw [h.online]
  exact (injective hp).mem_set_image

theorem mem_on (h : Beyond tok pa all w w') (hp : TokenParent tok pa all) (hlen : (retoldChan tok chan).length < 200) :
    retoldNick tok pa w.me n ∈ w'.on (foldName (retoldChan tok chan)) ↔ n ∈ w.on (foldName chan) := by
  rw [foldName_retoldChan hlen]
  exact h.maps.mem_on (injective hp)

/-- Whoever comes with a free name does so for the client. -/
theorem free_tokened (h : Beyond tok pa all w w') (hp : TokenParent tok pa all) {n : CStr}
    (hfree : ∀ k ∈ insert w.me w.online, k ≠ n → ucase k ≠ ucase m) :
    ∀ k ∈ insert w'.me w'.online, k ≠ retoldNick tok pa w.me n → ucase k ≠ ucase (tok ++ TILDE :: m) := by
  rw [h.everybody]
  rintro k ⟨j, hj, rfl⟩ hne
  have hjn : j ≠ n := fun heq => hne (congrArg _ heq)
  by_cases hme : j = w.me
  · rw [hme, retoldNick_self]
    exact ucase_ne_tokened hp.tilde m
  · rw [retoldNick_other hme, ucase_tokened, ucase_tokened]
    intro heq
    exact hfree j hj hjn (List.cons_injective (List.append_cancel_left heq))

/-- The same users with a change in the places. -/
theorem moved (h : Beyond tok pa all w w') (v v' : World)
    (hmaps : Presence.Maps (retoldNick tok pa w.me) (retoldKey tok) v.toPresence v'.toPresence) (hme : v.me = w.me)
    (honline : v.online = w.online) (honline' : v'.online = w'.online) (hsigns : v.signs = w.signs)
    (hsigns' : v'.signs = w'.signs) (hv : v.Sound) (hv' : v'.Sound) : Beyond tok pa all v v' where
  maps := by
    rw [hme]
    exact hmaps
  online := by
    rw [honline', honline, hme]
    exact h.online
  signs := by
    rw [hsigns]
    exact h.signs
  signs' := hsigns'.trans h.signs'
  sound := hv
  sound' := hv'
  apart := by
    rw [hme, honline]
    exact h.apart
  short := by
    rw [hme, honline]
    exact h.short

theorem connect (h : Beyond tok pa all w w') (hp : TokenParent tok pa all) (he : w.Valid (.connect n))
    (hr : w.Retellable tok pa all (.connect n)) :
    w'.Valid (.connect (tok ++ TILDE :: n)) ∧
      Beyond tok pa all (w.step (.connect n)) (w'.step (.connect (tok ++ TILDE :: n))) := by
  have hne : n ≠ w.me := by
    rintro rfl
    exact he.2 _ (Set.mem_insert _ _) rfl
  have hvalid : w'.Valid (.connect (tok ++ TILDE :: n)) := by
    constructor
    · rw [h.signs']
      exact serverNick_tokened hp he.1 hr.2
    · intro k hk
      by_cases hkn : k = retoldNick tok pa w.me n
      · -- nobody has the name yet
        rw [h.everybody] at hk
        rcases hk with ⟨j, hj, rfl⟩
        rw [injective hp hkn] at hj
        exact absurd rfl (he.2 n hj)
      · exact h.free_tokened hp (fun k hk _ => he.2 k hk) k hk hkn
  refine ⟨hvalid, ?_⟩
  exact
    { maps := h.maps
      online := by
        have hnew : (w.step (.connect n)).online = insert n w.online := rfl
        have hnew' : (w'.step (.connect (tok ++ TILDE :: n))).online = insert (tok ++ TILDE :: n) w'.online := rfl
        have hme : (w.step (.connect n)).me = w.me := rfl
        rw [hnew, hnew', hme, h.online, Set.image_insert_eq, retoldNick_other hne]
      signs := h.signs
      signs' := h.signs'
      sound := h.sound.step he
      sound' := h.sound'.step hvalid
      apart := by
        rintro k (rfl | rfl | hk) heq
        · exact h.apart _ (Set.mem_insert _ _) heq
        · exact absurd heq hr.1
        · exact h.apart k (Set.mem_insert_of_mem _ hk) heq
      short := by
        rintro k (rfl | hk)
        · have hme : (w.step (.connect k)).me = w.me := rfl
          rw [hme, retoldNick_other hne]
          exact hr.2
        · exact h.short k hk }

theorem join {colon : Bool} (h : Beyond tok pa all w w') (hp : TokenParent tok pa all)
    (he : w.Valid (.join n mask chan colon)) (hr : w.Retellable tok pa all (.join n mask chan colon)) :
    w'.Valid (.join (retoldNick tok pa w.me n) mask (retoldChan tok chan) true) ∧
      Beyond tok pa all (w.step (.join n mask chan colon))
        (w'.step (.join (retoldNick tok pa w.me n) mask (retoldChan tok chan) true)) := by
  have hvalid : w'.Valid (.join (retoldNick tok pa w.me n) mask (retoldChan tok chan) true) := by
    refine ⟨(h.mem_online hp).2 he.1, ?_, he.2.2.1, chanText_retold hp he.2.2.2 hr.2⟩
    rw [h.mem_on hp hr.2]
    exact he.2.1
  refine ⟨hvalid, ?_⟩
  have hmaps := h.maps.arrive (@retoldKey_injective tok) (c := foldName chan) (n := n)
  rw [← foldName_retoldChan hr.2] at hmaps
  exact h.moved (w.step (.join n mask chan colon))
    (w'.step (.join (retoldNick tok pa w.me n) mask (retoldChan tok chan) true)) hmaps rfl rfl rfl rfl rfl
    (h.sound.step he) (h.sound'.step hvalid)

theorem depart (h : Beyond tok pa all w w') (hp : TokenParent tok pa all) (hlen : (retoldChan tok chan).length < 200)
    {e e' : ServerEvent} (hstep : w.step e = w.move (.depart (foldName chan) n))
    (hstep' : w'.step e' = w'.move (.depart (foldName (retoldChan tok chan)) (retoldNick tok pa w.me n)))
    (he : w.Valid e) (he' : w'.Valid e') : Beyond tok pa all (w.step e) (w'.step e') := by
  have hv := h.sound.step he
  have hv' := h.sound'.step he'
  rw [hstep] at hv ⊢
  rw [hstep'] at hv' ⊢
  have hmaps := h.maps.depart (injective hp) (@retoldKey_injective tok) (c := foldName chan) (n := n)
  rw [← foldName_retoldChan hlen] at hmaps
  exact h.moved (w.move (.depart (foldName chan) n))
    (w'.move (.depart (foldName (retoldChan tok chan)) (retoldNick tok pa w.me n))) hmaps rfl rfl rfl rfl rfl hv hv'

theorem part {reason : Option CStr} (h : Beyond tok pa all w w') (hp : TokenParent tok pa all)
    (he : w.Valid (.part n mask chan reason)) (hr : w.Retellable tok pa all (.part n mask chan reason)) :
    w'.Valid (.part (retoldNick tok pa w.me n) mask (retoldChan tok chan) (some (reason.getD []))) ∧
      Beyond tok pa all (w.step (.part n mask chan reason))
        (w'.step (.part (retoldNick tok pa w.me n) mask (retoldChan tok chan) (some (reason.getD [])))) := by
  have hvalid : w'.Valid (.part (retoldNick tok pa w.me n) mask (retoldChan tok chan) (some (reason.getD []))) := by
    refine ⟨(h.mem_on hp hr.2).2 he.1, he.2.1, chanText_retold hp he.2.2.1 hr.2, ?_⟩
    intro r hreason
    rw [← Option.some.inj hreason]
    cases reason with
    | none => exact ⟨by decide, by decide⟩
    | some r => exact he.2.2.2 r rfl
  exact ⟨hvalid, h.depart hp hr.2 rfl rfl he hvalid⟩

theorem sender_word (hp : TokenParent tok pa all) {sender : CStr} (hs : ServerText sender)
    (hsender : SenderFits tok pa w.me sender) : ServerText (retoldSource tok pa w.me sender) := by
  refine ⟨?_, Nat.lt_trans hsender.2 (by decide)⟩
  rw [retoldSource]
  rcases hsender.1 with ⟨n, mask, rfl, ⟨hbang, _⟩, hat, _⟩ | ⟨hat, _⟩
  · rw [if_pos (List.mem_append_right _ (List.mem_cons_of_mem _ hat)), cutAt_append hbang]
    -- what is in the retold nick
    have hbytes : ∀ b : Byte, b ∈ nickStops → b ≠ TILDE → b ∉ n → b ∉ retoldNick tok pa w.me n := by
      intro b hstop htilde hb hmem
      rw [retoldNick] at hmem
      split at hmem
      · exact hp.nick.2.2.1 b hmem hstop
      · rcases mem_tokened hmem with hmem | hmem | hmem
        · exact hp.text b hmem hstop
        · exact htilde hmem
        · exact hb hmem
    have hall : ∀ b : Byte, b ∈ nickStops → b ≠ TILDE → b ≠ BANG → b ∉ n ++ BANG :: mask →
        b ∉ retoldNick tok pa w.me n ++ BANG :: mask := by
      intro b hstop htilde hbang' hb
      rw [List.mem_append, List.mem_cons, not_or, not_or] at hb ⊢
      exact ⟨hbytes b hstop htilde hb.1, hb.2⟩
    refine ⟨List.append_ne_nil_of_right_ne_nil _ (List.cons_ne_nil _ _), ?_, ?_, ?_, ?_⟩
    · exact hall SP (by decide) (by decide) (by decide) hs.1.2.1
    · exact hall 0 (by decide) (by decide) (by decide) hs.1.2.2.1
    · exact hall CR (by decide) (by decide) (by decide) hs.1.2.2.2.1
    · exact hall LF (by decide) (by decide) (by decide) hs.1.2.2.2.2
  · rw [if_neg hat]
    exact hs.1

theorem kick {sender reason : CStr} (h : Beyond tok pa all w w') (hp : TokenParent tok pa all)
    (he : w.Valid (.kick sender chan n reason)) (hr : w.Retellable tok pa all (.kick sender chan n reason)) :
    w'.Valid (.kick (retoldSource tok pa w.me sender) (retoldChan tok chan) (retoldNick tok pa w.me n) reason) ∧
      Beyond tok pa all (w.step (.kick sender chan n reason))
        (w'.step
          (.kick (retoldSource tok pa w.me sender) (retoldChan tok chan) (retoldNick tok pa w.me n) reason)) := by
  have hvalid : w'.Valid
      (.kick (retoldSource tok pa w.me sender) (retoldChan tok chan) (retoldNick tok pa w.me n) reason) :=
    ⟨(h.mem_on hp hr.2.1).2 he.1, sender_word hp he.2.1 hr.1, chanText_retold hp he.2.2.1 hr.2.1, he.2.2.2⟩
  exact ⟨hvalid, h.depart hp hr.2.1 rfl rfl he hvalid⟩

theorem quit {reason : CStr} (h : Beyond tok pa all w w') (hp : TokenParent tok pa all)
    (he : w.Valid (.quit n mask reason)) :
    w'.Valid (.quit (retoldNick tok pa w.me n) mask reason) ∧
      Beyond tok pa all (w.step (.quit n mask reason)) (w'.step (.quit (retoldNick tok pa w.me n) mask reason)) := by
  have hvalid : w'.Valid (.quit (retoldNick tok pa w.me n) mask reason) := ⟨(h.mem_online hp).2 he.1, he.2⟩
  refine ⟨hvalid, ?_⟩
  exact
    { maps := h.maps.vanish (injective hp)
      online := by
        have hleft : (w.step (.quit n mask reason)).online = w.online \ {n} := rfl
        have hleft' : (w'.step (.quit (retoldNick tok pa w.me n) mask reason)).online =
            w'.online \ {retoldNick tok pa w.me n} := rfl
        have hme : (w.step (.quit n mask reason)).me = w.me := rfl
        rw [hleft, hleft', hme, h.online, Set.image_sdiff (injective hp), Set.image_singleton]
      signs := h.signs
      signs' := h.signs'
      sound := h.sound.step he
      sound' := h.sound'.step hvalid
      apart := fun k hk heq => h.apart k (Set.insert_subset_insert Set.sdiff_subset hk) heq
      short := fun k hk => h.short k hk.1 }

theorem nick_other {colon : Bool} (h : Beyond tok pa all w w') (hp : TokenParent tok pa all) (hother : n ≠ w.me)
    (he : w.Valid (.nick n mask m colon)) (hr : w.Retellable tok pa all (.nick n mask m colon)) :
    w'.Valid (.nick (tok ++ TILDE :: n) mask (tok ++ TILDE :: m) true) ∧
      Beyond tok pa all (w.step (.nick n mask m colon))
        (w'.step (.nick (tok ++ TILDE :: n) mask (tok ++ TILDE :: m) true)) := by
  rcases he with ⟨hn, hne, hm, hfree, hmask⟩
  have hm' : m ≠ w.me := fun heq => hfree w.me (Set.mem_insert _ _) (Ne.symm hother) (congrArg ucase heq.symm)
  have hvalid : w'.Valid (.nick (tok ++ TILDE :: n) mask (tok ++ TILDE :: m) true) := by
    refine ⟨?_, ?_, ?_, ?_, hmask⟩
    · rw [← @retoldNick_other tok pa w.me n hother]
      exact (h.mem_online hp).2 hn
    · exact fun heq => hne (List.cons_injective (List.append_cancel_left heq))
    · rw [h.signs']
      exact serverNick_tokened hp hm (hr.2 hother).2
    · have hfree' := h.free_tokened hp (n := n) (m := m) hfree
      rw [retoldNick_other hother] at hfree'
      exact hfree'
  have he : w.Valid (.nick n mask m colon) := ⟨hn, hne, hm, hfree, hmask⟩
  refine ⟨hvalid, ?_⟩
  have hme : (w.step (.nick n mask m colon)).me = w.me := if_neg (Ne.symm hother)
  have hold := @retoldNick_other tok pa w.me n hother
  have hnew := @retoldNick_other tok pa w.me m hm'
  exact
    { maps := by
        rw [hme, ← hold, ← hnew]
        exact h.maps.rename (injective hp)
      online := by
        have hleft : (w.step (.nick n mask m colon)).online = insert m (w.online \ {n}) := rfl
        have hleft' : (w'.step (.nick (tok ++ TILDE :: n) mask (tok ++ TILDE :: m) true)).online =
            insert (tok ++ TILDE :: m) (w'.online \ {tok ++ TILDE :: n}) := rfl
        rw [hme, hleft, hleft', h.online, Set.image_insert_eq, Set.image_sdiff (injective hp), Set.image_singleton,
          hold, hnew]
      signs := h.signs
      signs' := h.signs'
      sound := h.sound.step he
      sound' := h.sound'.step hvalid
      apart := by
        rw [hme]
        rintro k (rfl | rfl | hk) heq
        · exact h.apart _ (Set.mem_insert _ _) heq
        · exact absurd (hr.1 heq).1 hother
        · exact h.apart k (Set.mem_insert_of_mem _ hk.1) heq
      short := by
        rw [hme]
        rintro k (rfl | hk)
        · rw [hnew]
          exact (hr.2 hother).2
        · exact h.short k hk.1 }

/-- The user has another nick, and the client goes on knowing him by the parent's. -/
theorem recalled (h : Beyond tok pa all w w') (v : World) (hme : v.me = m)
    (hmaps : Presence.Maps (retoldNick tok pa m) (retoldKey tok) v.toPresence w'.toPresence)
    (honline : v.online = insert m (w.online \ {w.me})) (hown : w.me ∈ w.online) (hfree : w.Free w.me m)
    (hpa : ucase m = ucase pa → m = pa) (hsigns : ∀ b ∈ v.signs, b ∈ all) (hv : v.Sound) : Beyond tok pa all v w' := by
  have hother : ∀ k ∈ w.online, k ≠ w.me → k ≠ m := by
    rintro k hk hkn rfl
    exact hfree k (Set.mem_insert_of_mem _ hk) hkn rfl
  exact
    { maps := by
        rw [hme]
        exact hmaps
      online := by
        rw [hme, honline, h.online]
        ext j
        constructor
        · rintro ⟨k, hk, rfl⟩
          by_cases hkn : k = w.me
          · exact ⟨m, Set.mem_insert _ _, by rw [hkn, retoldNick_self, retoldNick_self]⟩
          · refine ⟨k, Set.mem_insert_of_mem _ ⟨hk, hkn⟩, ?_⟩
            rw [retoldNick_other hkn, retoldNick_other (hother k hk hkn)]
        · rintro ⟨k, rfl | ⟨hk, hkn⟩, rfl⟩
          · exact ⟨w.me, hown, by rw [retoldNick_self, retoldNick_self]⟩
          · refine ⟨k, hk, ?_⟩
            rw [retoldNick_other hkn, retoldNick_other (hother k hk hkn)]
      signs := hsigns
      signs' := h.signs'
      sound := hv
      sound' := h.sound'
      apart := by
        rw [hme, honline]
        rintro k (rfl | rfl | ⟨hk, hkn⟩) heq
        · exact ⟨rfl, hpa heq⟩
        · exact ⟨rfl, hpa heq⟩
        · exact absurd (h.apart k (Set.mem_insert_of_mem _ hk) heq).1 hkn
      short := by
        rw [hme, honline]
        rintro k (rfl | ⟨hk, hkn⟩)
        · have hshort := h.short _ hown
          rw [retoldNick_self] at hshort ⊢
          exact hshort
        · have hshort := h.short k hk
          rw [retoldNick_other hkn] at hshort
          rw [retoldNick_other (hother k hk hkn)]
          exact hshort }

/-- Everybody is known to the client by the same nick as before. -/
theorem retold_newName (hfree : w.Free w.me m) :
    ∀ k ∈ w.online, retoldNick tok pa m (newName w.me m k) = retoldNick tok pa w.me k := by
  intro k hk
  by_cases hkn : k = w.me
  · rw [hkn, newName, if_pos rfl, retoldNick_self, retoldNick_self]
  · have hkm : k ≠ m := by
      rintro rfl
      exact hfree k (Set.mem_insert_of_mem _ hk) hkn rfl
    rw [newName, if_neg hkn, retoldNick_other hkn, retoldNick_other hkm]

/-- The user's own change of nick is not told. -/
theorem nick_own {colon : Bool} (h : Beyond tok pa all w w') (hown : n = w.me) (he : w.Valid (.nick n mask m colon))
    (hr : w.Retellable tok pa all (.nick n mask m colon)) : Beyond tok pa all (w.step (.nick n mask m colon)) w' := by
  subst hown
  have hme : (w.step (.nick w.me mask m colon)).me = m := if_pos rfl
  apply h.recalled (w.step (.nick w.me mask m colon)) hme _ rfl he.1 he.2.2.2.1 (fun heq => (hr.1 heq).2) h.signs
    (h.sound.step he)
  apply h.maps.recall
  · rw [retoldNick_self, retoldNick_self]
  · exact fun c k hk => retold_newName he.2.2.2.1 k (h.sound.sub c hk)

/-- A welcome finds the user nowhere, and the client does not hear of it. -/
theorem welcome {server text : CStr} (h : Beyond tok pa all w w') (hp : TokenParent tok pa all)
    (he : w.Valid (.welcome server m text)) (hr : w.Retellable tok pa all (.welcome server m text)) :
    Beyond tok pa all (w.step (.welcome server m text)) w' := by
  have hme : (w.step (.welcome server m text)).me = m := if_pos rfl
  apply h.recalled (w.step (.welcome server m text)) hme _ rfl hr.1.1 he.2.2.2.1 hr.2 hp.first (h.sound.step he)
  -- nobody leaves a channel
  have hmaps : Presence.Maps (retoldNick tok pa w.me) (retoldKey tok) (w.move (.vanish w.me)).toPresence
      w'.toPresence := by
    refine ⟨h.maps.me, ?_, h.maps.only⟩
    intro c
    have hon : (w.move (.vanish w.me)).on c = w.on c \ {w.me} := rfl
    rw [hon, Set.sdiff_singleton_eq_self (hr.1.2 c)]
    exact h.maps.on c
  apply hmaps.recall
  · exact retoldNick_self.trans retoldNick_self.symm
  · exact fun c k hk => retold_newName he.2.2.2.1 k (h.sound.sub c hk.1)

/-- The signs change, but the client knows all of them. -/
theorem isupport {server modes signs after : CStr} {before : List CStr} (h : Beyond tok pa all w w')
    (he : w.Valid (.isupport server before modes signs after))
    (hr : w.Retellable tok pa all (.isupport server before modes signs after)) :
    Beyond tok pa all (w.step (.isupport server before modes signs after)) w' where
  maps := h.maps
  online := h.online
  signs := hr
  signs' := h.signs'
  sound := h.sound.step he
  sound' := h.sound'
  apart := h.apart
  short := h.short

/-- What is asked for changes nothing. -/
theorem asking (h : Beyond tok pa all w w') (asked : Nat) : Beyond tok pa all { w with asked := asked } w' :=
  ⟨h.maps, h.online, h.signs, h.signs', h.sound.asking asked, h.sound', h.apart, h.short⟩

/-- What the server tells does not change who is where. -/
theorem untold (h : Beyond tok pa all w w') {e : ServerEvent} {c : CStr} {ns : List CStr}
    (hstep : w.step e = w.move (.tell c ns)) (he : w.Valid e) : Beyond tok pa all (w.step e) w' := by
  have hv := h.sound.step he
  rw [hstep] at hv ⊢
  have hmaps : Presence.Maps (retoldNick tok pa w.me) (retoldKey tok) (w.move (.tell c ns)).toPresence w'.toPresence :=
    ⟨h.maps.me, h.maps.on, h.maps.only⟩
  exact h.moved (w.move (.tell c ns)) w' hmaps rfl rfl rfl rfl rfl hv h.sound'

end Beyond

end PsyBnc
