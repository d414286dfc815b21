import PsyBnc.Lib.Presence
import PsyBnc.Lib.Words
import PsyBnc.Parse.Server
import PsyBnc.UChannel.Load
import PsyBnc.Wildcard.Match

/-!
# A server with its users

Users come to the channels of a server and leave them, are kicked, quit and change their nicks.  The server tells a user
about the channels that he is on himself; `World.line` is the line that it sends for an event.  The user asks for replies
to a WHO in between, and what he asked for is not told to psyBNC.
-/

namespace PsyBnc

open CLib

/-! ## Texts -/

/-- Bytes that no nick has. -/
def nickStops : CStr := [0, CR, LF, SP, BANG, AT, COLON, EQUALS, WILDS]

def ServerNick (signs n : CStr) : Prop :=
  n ≠ [] ∧ n.length < 64 ∧ (∀ b ∈ n, b ∉ nickStops) ∧ ∀ b ∈ n.head?, b ∉ signs

instance (signs n : CStr) : Decidable (ServerNick signs n) := by
  dsimp [ServerNick]
  infer_instance

/-- A name as it stands in a line: the sign, and no separator. -/
structure ChanText (c : CStr) : Prop where
  sign : ∃ b ∈ c.head?, b ∈ ascii "#&+!"
  word : SP ∉ c ∧ COLON ∉ c ∧ Inline c
  short : c.length < 200

/-- The user and the host behind a nick. -/
def MaskText (mask : CStr) : Prop := SP ∉ mask ∧ Inline mask ∧ mask.length < 200

instance (mask : CStr) : Decidable (MaskText mask) := by
  dsimp [MaskText]
  infer_instance

def ServerText (server : CStr) : Prop := Word server ∧ server.length < 300

def ReasonText (reason : CStr) : Prop := Inline reason ∧ reason.length < 2000

/-! ## The server's side -/

/-- The users of a server, with the signs of the modes that it writes in front of nicks, and the requests of the user
that it has not answered to the end. -/
structure World extends Presence CStr CStr where
  online : Set CStr
  signs : CStr
  asked : Nat

inductive ServerEvent where
  | connect (n : CStr)
  | join (n mask chan : CStr) (colon : Bool)
  | names (server : CStr) (kind : Byte) (chan : CStr) (words : List (CStr × CStr))
  | who (server chan ident host hop n flags hops real : CStr)
  | part (n mask chan : CStr) (reason : Option CStr)
  | kick (sender chan n reason : CStr)
  | quit (n mask reason : CStr)
  | nick (n mask m : CStr) (colon : Bool)
  | welcome (server m text : CStr)
  | isupport (server : CStr) (before : List CStr) (modes signs : CStr) (after : CStr)
  | error (line : CStr)
  | whoEnd (line : CStr)
  | other (line : CStr)
  /-- The user asks for a WHO himself. -/
  | ask
  /-- What he asked for counts no more: psyBNC connects anew, or its last client has left. -/
  | forget

/-- The nicks of a NAMES reply, whose words have signs in front; a word without nick is passed over. -/
def namesNicks (words : List (CStr × CStr)) : List CStr := (words.map Prod.snd).filter fun n => n ≠ []

namespace World

def move (w : World) (a : Move CStr CStr) : World := { w with toPresence := w.toPresence.move a }

/-- The signs after a welcome. -/
def firstSigns : CStr := ascii "@+"

def step (w : World) : ServerEvent → World
  | .connect n => { w with online := insert n w.online }
  | .join n _ chan _ => w.move (.arrive (foldName chan) n)
  | .names _ _ chan words => w.move (.tell (foldName chan) (namesNicks words))
  | .who _ chan _ _ _ n _ _ _ => if w.asked = 0 then w.move (.tell (foldName chan) [n]) else w
  | .part n _ chan _ => w.move (.depart (foldName chan) n)
  | .kick _ chan n _ => w.move (.depart (foldName chan) n)
  | .quit n _ _ => { w.move (.vanish n) with online := w.online \ {n} }
  | .nick n _ m _ => { w.move (.rename n m) with online := insert m (w.online \ {n}) }
  | .welcome _ m _ =>
      { (w.move (.vanish w.me)).move (.rename w.me m) with
        online := insert m (w.online \ {w.me})
        signs := firstSigns }
  | .isupport _ _ _ signs _ => { w with signs := signs }
  | .error _ => { w.move (.vanish w.me) with online := w.online \ {w.me} }
  | .whoEnd _ => { w with asked := w.asked - 1 }
  | .other _ => w
  | .ask => { w with asked := w.asked + 1 }
  | .forget => { w with asked := 0 }

/-- The nick is not that of somebody else. -/
def Free (w : World) (n m : CStr) : Prop := ∀ k ∈ insert w.me w.online, k ≠ n → ucase k ≠ ucase m

/-- The commands that tell who is where, or what is told. -/
def commands : List CStr :=
  [ascii "ERROR", ascii "001", ascii "005", ascii "352", ascii "353", ascii "315", ascii "NICK", ascii "JOIN",
    ascii "PART", ascii "QUIT", ascii "KICK"]

def Valid (w : World) : ServerEvent → Prop
  | .connect n => ServerNick w.signs n ∧ ∀ k ∈ insert w.me w.online, ucase k ≠ ucase n
  | .join n mask chan _ => n ∈ w.online ∧ n ∉ w.on (foldName chan) ∧ MaskText mask ∧ ChanText chan
  | .names server kind chan words =>
      w.me ∈ w.on (foldName chan) ∧ (ServerText server ∧ ChanText chan ∧ kind ∈ [EQUALS, AT, WILDS]) ∧ words ≠ [] ∧
        (words.map fun p => p.1.length + p.2.length + 1).sum < 1000 ∧
        ∀ p ∈ words, (∀ b ∈ p.1, b ∈ w.signs) ∧ (p.2 ∈ w.on (foldName chan) ∨ p = ([], []))
  | .who server chan ident host hop n flags hops real =>
      w.me ∈ w.on (foldName chan) ∧ n ∈ w.on (foldName chan) ∧ ServerText server ∧ ChanText chan ∧
        (∀ v ∈ [ident, host, hop, flags, hops], SP ∉ v ∧ Inline v ∧ v.length < 300) ∧ ReasonText real
  | .part n mask chan reason =>
      n ∈ w.on (foldName chan) ∧ MaskText mask ∧ ChanText chan ∧ ∀ r ∈ reason, ReasonText r
  | .kick sender chan n reason =>
      n ∈ w.on (foldName chan) ∧ ServerText sender ∧ ChanText chan ∧ ReasonText reason
  | .quit n mask reason => n ∈ w.online ∧ MaskText mask ∧ ReasonText reason
  | .nick n mask m _ => n ∈ w.online ∧ n ≠ m ∧ ServerNick w.signs m ∧ w.Free n m ∧ MaskText mask
  | .welcome server m text =>
      ServerText server ∧ ReasonText text ∧ ServerNick firstSigns m ∧ w.Free w.me m ∧
        ∀ n ∈ w.online, ServerNick firstSigns n
  | .isupport server before modes signs after =>
      (ServerText server ∧ ReasonText after ∧ ∀ v ∈ before, SP ∉ v ∧ Inline v ∧ ¬ ascii "PREFIX=(" <+: v) ∧
        (before.map fun v => v.length + 1).sum < 1000 ∧
        (SP ∉ modes ∧ (41 : Byte) ∉ modes ∧ Inline modes ∧ modes.length < 30) ∧
        (SP ∉ signs ∧ Inline signs ∧ signs.length < 30) ∧ ∀ n ∈ insert w.me w.online, ServerNick signs n
  | .error line => ifcommand (parse line) (ascii "ERROR") = true
  | .whoEnd line => ifcommand (parse line) (ascii "315") = true
  | .other line => ∀ cmd ∈ commands, ifcommand (parse line) cmd = false
  | .ask => True
  | .forget => True

/-- Every event is possible when it happens. -/
def Possible : World → List ServerEvent → Prop
  | _, [] => True
  | w, e :: es => w.Valid e ∧ (w.step e).Possible es

/-- What holds on a server at any time. -/
structure Sound (w : World) : Prop where
  presence : w.toPresence.Sound
  sub : ∀ c, w.on c ⊆ w.online
  nicks : ∀ n ∈ insert w.me w.online, ServerNick w.signs n
  apart : ∀ n ∈ insert w.me w.online, ∀ m ∈ insert w.me w.online, ucase n = ucase m → n = m
  signs : SP ∉ w.signs ∧ Inline w.signs

/-! ## The lines -/

/-- A line from a user. -/
def fromUser (n mask cmd params : CStr) : CStr := COLON :: (n ++ BANG :: mask ++ SP :: (cmd ++ SP :: params))

/-- The words of a NAMES reply, the first one behind a colon. -/
def namesWords : List (CStr × CStr) → List CStr
  | [] => [[COLON]]
  | p :: words => (COLON :: (p.1 ++ p.2)) :: words.map fun p => p.1 ++ p.2

def text (w : World) : ServerEvent → CStr
  | .connect _ => []
  | .join n mask chan colon => fromUser n mask (ascii "JOIN") (if colon then COLON :: chan else chan)
  | .names server kind chan words =>
      COLON :: (server ++ lead SP [] ([ascii "353", w.me, [kind], chan] ++ namesWords words))
  | .who server chan ident host hop n flags hops real =>
      COLON :: (server ++ lead SP (SP :: (hops ++ SP :: real))
        [ascii "352", w.me, chan, ident, host, hop, n, flags])
  | .part n mask chan reason =>
      fromUser n mask (ascii "PART") (chan ++ (reason.map fun r => SP :: COLON :: r).getD [])
  | .kick sender chan n reason =>
      COLON :: (sender ++ SP :: (ascii "KICK" ++ SP :: (chan ++ SP :: (n ++ SP :: COLON :: reason))))
  | .quit n mask reason => fromUser n mask (ascii "QUIT") (COLON :: reason)
  | .nick n mask m colon => fromUser n mask (ascii "NICK") (if colon then COLON :: m else m)
  | .welcome server m text => COLON :: (server ++ SP :: (ascii "001" ++ SP :: (m ++ SP :: COLON :: text)))
  | .isupport server before modes signs after =>
      COLON :: (server ++ lead SP (SP :: (ascii "PREFIX=(" ++ modes ++ 41 :: signs ++ SP :: after))
        (ascii "005" :: w.me :: before))
  | .error line => line
  | .whoEnd line => line
  | .other line => line
  | .ask => []
  | .forget => []

/-- What happens where the user is not stays away from him. -/
def Seen (w : World) : ServerEvent → Prop
  | .connect _ => False
  | .join n _ chan _ => n = w.me ∨ w.me ∈ w.on (foldName chan)
  | .part _ _ chan _ => w.me ∈ w.on (foldName chan)
  | .kick _ chan _ _ => w.me ∈ w.on (foldName chan)
  | .quit n _ _ => n = w.me ∨ ∃ c, n ∈ w.on c ∧ w.me ∈ w.on c
  | .nick n _ _ _ => n = w.me ∨ ∃ c, n ∈ w.on c ∧ w.me ∈ w.on c
  | .ask => False
  | .forget => False
  | _ => True

/-- The bytes that are sent. -/
def line (w : World) (t : Terminator) : ServerEvent → CStr
  | .error line => line
  | .whoEnd line => line
  | .other line => line
  | e => w.text e ++ t.bytes

end World

/-! ## What holds on the server -/

namespace World.Sound

variable {w : World} {n m c : CStr}

/-- The users stay the same. -/
theorem moved (hw : w.Sound) {a : Move CStr CStr} (ha : w.toPresence.Allows a) (hme : (w.move a).me = w.me)
    (hsub : ∀ c, (w.move a).on c ⊆ w.online) : (w.move a).Sound where
  presence := hw.presence.move ha
  sub := hsub
  nicks := by
    rw [hme]
    exact hw.nicks
  apart := by
    rw [hme]
    exact hw.apart
  signs := hw.signs

theorem arrive (hw : w.Sound) (hn : n ∈ w.online) (hnew : n ∉ w.on c) : (w.move (.arrive c n)).Sound := by
  apply @moved w hw (.arrive c n) hnew rfl
  intro k
  by_cases hk : k = c
  · subst hk
    have hon : (w.move (.arrive k n)).on k = insert n (w.on k) := Function.update_self _ _ _
    rw [hon]
    exact Set.insert_subset hn (hw.sub k)
  · have hon : (w.move (.arrive c n)).on k = w.on k := Function.update_of_ne hk _ _
    rw [hon]
    exact hw.sub k

theorem depart (hw : w.Sound) (c n : CStr) : (w.move (.depart c n)).Sound := by
  apply @moved w hw (.depart c n) trivial rfl
  intro k
  by_cases hk : k = c
  · subst hk
    have hon : (w.move (.depart k n)).on k = w.on k \ {n} := Function.update_self _ _ _
    rw [hon]
    exact Set.sdiff_subset.trans (hw.sub k)
  · have hon : (w.move (.depart c n)).on k = w.on k := Function.update_of_ne hk _ _
    rw [hon]
    exact hw.sub k

theorem tell (hw : w.Sound) {ns : List CStr} (hns : ∀ n ∈ ns, n ∈ w.on c) : (w.move (.tell c ns)).Sound :=
  hw.moved hns rfl hw.sub

theorem quit (hw : w.Sound) (n mask reason : CStr) : (w.step (.quit n mask reason)).Sound where
  presence := hw.presence.move (a := .vanish n) trivial
  sub := fun c => Set.sdiff_subset_sdiff_left (hw.sub c)
  nicks := fun k hk => hw.nicks k (Set.insert_subset_insert Set.sdiff_subset hk)
  apart := by
    intro k hk j hj
    exact hw.apart k (Set.insert_subset_insert Set.sdiff_subset hk) j (Set.insert_subset_insert Set.sdiff_subset hj)
  signs := hw.signs

/-- Somebody is known by another name, which is free. -/
theorem apart_insert {s : Set CStr} (hs : ∀ k ∈ s, ∀ j ∈ s, ucase k = ucase j → k = j)
    (hm : ∀ k ∈ s, ucase k = ucase m → k = m) :
    ∀ k ∈ insert m s, ∀ j ∈ insert m s, ucase k = ucase j → k = j := by
  rintro k (rfl | hk) j (rfl | hj) heq
  · rfl
  · exact (hm j hj heq.symm).symm
  · exact hm k hk heq
  · exact hs k hk j hj heq

theorem connect (hw : w.Sound) (hn : ServerNick w.signs n) (hfree : ∀ k ∈ insert w.me w.online, ucase k ≠ ucase n) :
    (w.step (.connect n)).Sound where
  presence := hw.presence
  sub := fun c => (hw.sub c).trans (Set.subset_insert n _)
  nicks := by
    rintro k (rfl | rfl | hk)
    · exact hw.nicks _ (Set.mem_insert _ _)
    · exact hn
    · exact hw.nicks k (Set.mem_insert_of_mem _ hk)
  apart := by
    have hset : insert w.me (insert n w.online) = insert n (insert w.me w.online) := Set.insert_comm _ _ _
    have happart := @apart_insert n _ hw.apart fun k hk heq => absurd heq (hfree k hk)
    rw [← hset] at happart
    exact happart
  signs := hw.signs

/-- After a change of name only the new name is new. -/
theorem renamed_online :
    ∀ k ∈ insert (newName n m w.me) (insert m (w.online \ {n})), k = m ∨ (k ∈ insert w.me w.online ∧ k ≠ n) := by
  rintro k (rfl | rfl | hk)
  · by_cases heq : w.me = n
    · exact Or.inl (if_pos heq)
    · right
      rw [newName, if_neg heq]
      exact ⟨Set.mem_insert _ _, heq⟩
  · exact Or.inl rfl
  · exact Or.inr ⟨Set.mem_insert_of_mem _ hk.1, hk.2⟩

theorem apart_renamed (hw : w.Sound) (hfree : w.Free n m) :
    ∀ k ∈ insert (newName n m w.me) (insert m (w.online \ {n})),
      ∀ j ∈ insert (newName n m w.me) (insert m (w.online \ {n})), ucase k = ucase j → k = j := by
  intro k hk j hj heq
  rcases renamed_online k hk with hkm | ⟨hk', hkn⟩
  · rcases renamed_online j hj with hjm | ⟨hj', hjn⟩
    · rw [hkm, hjm]
    · exact absurd (heq.symm.trans (congrArg ucase hkm)) (hfree j hj' hjn)
  · rcases renamed_online j hj with hjm | ⟨hj', hjn⟩
    · exact absurd (heq.trans (congrArg ucase hjm)) (hfree k hk' hkn)
    · exact hw.apart k hk' j hj' heq

theorem allows_rename (hw : w.Sound) (hne : n ≠ m) (hfree : w.Free n m) : w.toPresence.Allows (.rename n m) := by
  constructor
  · rintro rfl
    by_contra hn
    exact hfree w.me (Set.mem_insert _ _) (Ne.symm hn) rfl
  · intro c hm
    exact hfree m (Set.mem_insert_of_mem _ (hw.sub c hm)) (Ne.symm hne) rfl

theorem nick (hw : w.Sound) (mask : CStr) (colon : Bool) (hne : n ≠ m) (hm : ServerNick w.signs m)
    (hfree : w.Free n m) : (w.step (.nick n mask m colon)).Sound where
  presence := hw.presence.move (hw.allows_rename hne hfree)
  sub := by
    rintro c k ⟨j, hj, rfl⟩
    rw [newName]
    by_cases hjn : j = n
    · rw [if_pos hjn]
      exact Set.mem_insert _ _
    · rw [if_neg hjn]
      exact Set.mem_insert_of_mem _ ⟨hw.sub c hj, hjn⟩
  nicks := by
    intro k hk
    rcases renamed_online k hk with rfl | ⟨hk, _⟩
    · exact hm
    · exact hw.nicks k hk
  apart := hw.apart_renamed hfree
  signs := hw.signs

theorem firstSigns_inline : SP ∉ World.firstSigns ∧ Inline World.firstSigns := by decide

theorem welcome (hw : w.Sound) (server text : CStr) (hm : ServerNick World.firstSigns m) (hfree : w.Free w.me m)
    (hnicks : ∀ n ∈ w.online, ServerNick World.firstSigns n) : (w.step (.welcome server m text)).Sound where
  presence := by
    apply (hw.presence.move (a := .vanish w.me) trivial).move (a := .rename w.me m)
    refine ⟨fun _ => rfl, ?_⟩
    rintro c ⟨hm, hme⟩
    exact hfree m (Set.mem_insert_of_mem _ (hw.sub c hm)) hme rfl
  sub := by
    rintro c k ⟨j, hj, rfl⟩
    have hne : j ≠ w.me := hj.2
    rw [newName, if_neg hne]
    exact Set.mem_insert_of_mem _ ⟨hw.sub c hj.1, hne⟩
  nicks := by
    intro k hk
    rcases renamed_online k hk with rfl | ⟨rfl | hk, hne⟩
    · exact hm
    · exact absurd rfl hne
    · exact hnicks k hk
  apart := hw.apart_renamed hfree
  signs := firstSigns_inline

/-- What is asked for does not move anybody. -/
theorem asking (hw : w.Sound) (asked : Nat) : ({ w with asked := asked } : World).Sound :=
  ⟨hw.presence, hw.sub, hw.nicks, hw.apart, hw.signs⟩

/-- Every event leaves a sound world. -/
theorem step (hw : w.Sound) {e : ServerEvent} (he : w.Valid e) : (w.step e).Sound := by
  cases e with
  | connect n =>
      exact hw.connect he.1 he.2
  | join n mask chan colon =>
      exact hw.arrive he.1 he.2.1
  | names server kind chan words =>
      apply hw.tell
      intro n hn
      rcases List.mem_filter.1 hn with ⟨hn, hne⟩
      rcases List.mem_map.1 hn with ⟨p, hp, rfl⟩
      rcases (he.2.2.2.2 p hp).2 with hin | heq
      · exact hin
      · rw [heq] at hne
        exact absurd rfl (of_decide_eq_true hne)
  | who server chan ident host hop n flags hops real =>
      rw [World.step]
      split
      · apply hw.tell
        intro k hk
        rw [List.mem_singleton.1 hk]
        exact he.2.1
      · exact hw
  | part n mask chan reason =>
      exact hw.depart _ n
  | kick sender chan n reason =>
      exact hw.depart _ n
  | quit n mask reason =>
      exact hw.quit n mask reason
  | nick n mask m colon =>
      exact hw.nick mask colon he.2.1 he.2.2.1 he.2.2.2.1
  | welcome server m text =>
      exact hw.welcome server text he.2.2.1 he.2.2.2.1 he.2.2.2.2
  | isupport server before modes signs after =>
      exact ⟨hw.presence, hw.sub, he.2.2.2.2, hw.apart, he.2.2.2.1.1, he.2.2.2.1.2.1⟩
  | error line =>
      exact hw.quit w.me [] []
  | whoEnd line =>
      exact hw.asking (w.asked - 1)
  | other line =>
      exact hw
  | ask =>
      exact hw.asking (w.asked + 1)
  | forget =>
      exact hw.asking 0

end World.Sound

end PsyBnc
