import PsyBnc.Intnet.Invite
import PsyBnc.PString.Nobreak
import PsyBnc.StringList.Model
import Mathlib.Data.List.Find

/-!
# Op by password (`checkstrings`, `checkop`)

An entry of a list of operators is `mask;password`, `mask;#channel password` or `mask;+…` with the
second part ciphered.  `checkstrings` leaves off at the first entry that is for the sender and the channel, or
that is marked as a bot's with `-` or `)`; only then does `checkop` compare the password, and it takes
`-` alone for a mark.
-/

namespace PsyBnc

open CLib

@[reducible] def OPSIGN : Byte := 64
@[reducible] def BOTSIGN : Byte := 41

/-- `#&+!` -/
def chanSigns : CStr := ascii "#&+!"

/-- `ehost`, `echan` and `eparm`. -/
structure OpString where
  ehost : CStr
  echan : Option CStr
  eparm : CStr
  deriving DecidableEq, Repr

/-- An entry in its parts, without a `;` `none`; the whole is `none` when `decryptit` runs over the end of its
text.  `strchr` finds the byte 0 of an empty text among the signs. -/
def opString (salt : Salt) (entry : CStr) : Option (Option OpString) :=
  match cutAt SEMICOLON (clip 650 entry) with
  | none => some none
  | some (pt, po) =>
      (decryptit salt po).map fun po =>
        some <|
          if po.head?.all fun c => decide (c ∈ chanSigns) then
            match cutAt SP po with
            | some (pc, po) =>
                ⟨clip 400 (nobreak pt), some (clip 200 (nobreak (ucase pc))), clip 200 (nobreak po)⟩
            | none => ⟨clip 400 (nobreak pt), some (clip 200 (nobreak (ucase po))), []⟩
          else ⟨clip 400 (nobreak pt), none, clip 200 (nobreak po)⟩

/-- A bot's entry. -/
def OpString.marked (s : OpString) : Bool := decide (s.ehost.head? = some MINUS ∨ s.ehost.head? = some BOTSIGN)

/-- `checkstrings`: the entry it leaves off at, and `ircto`, which is upper-cased on the way. -/
def checkstrings (salt : Salt) (ircfrom : CStr) : List CStr → CStr → Option (Option OpString × CStr)
  | [], ircto => some (none, ircto)
  | entry :: th, ircto =>
      (opString salt entry).bind fun s =>
        match s with
        | none => checkstrings salt ircfrom th ircto
        | some s =>
            let ircto := if s.echan.isSome then ucase ircto else ircto
            if s.echan.all (fun echan => strmcmp ircto echan) && (s.marked || maskMatches s.ehost ircfrom) then
              some (some s, ircto)
            else checkstrings salt ircfrom th ircto

def hasmode (channels : List Uchannelt) (nick channel : CStr) (modesymbol : Byte) : Bool :=
  ((getuserchannel channels channel).bind fun k => channels[k]?).any fun chan =>
    ((getchannelnick chan nick).bind fun i => chan.users[i]?).any fun chanuser =>
      decide (modesymbol ∈ chanuser.mode)

/-- What `checkop` uses of a user; `owner` is the nick of the user or its parent. -/
structure OpUser where
  nick : CStr
  owner : CStr := nick
  channels : List Uchannelt
  ops : List CStr
  connected : Bool := false

/-- What goes to the server and to the user, and whether the message is done with. -/
structure OpReply where
  server : List CStr := []
  client : List CStr := []
  done : Bool := false
  deriving DecidableEq, Repr

/-- `lngtxt(751)`. -/
def opLine (channel ircnick : CStr) : CStr := ascii "MODE " ++ channel ++ ascii " +o " ++ ircnick

/-- `lngtxt(752)`. -/
def oppedLine (owner ircnick ircfrom ehost channel : CStr) : CStr :=
  ascii ":-psyBNC!psyBNC@psyBNC.dk PRIVMSG " ++ owner ++ ascii " :User " ++ ircnick ++ ascii "(" ++ ircfrom ++
    ascii ") matches op (" ++ ehost ++ ascii "), opped on " ++ channel

def blanks (s : CStr) : CStr := s.dropWhile fun b => b == SP

def checkop (salt : Salt) (u : OpUser) (ircfrom ircnick irccontent : CStr) : Option OpReply :=
  let pt1 := blanks (irccontent.drop 3)
  match cutAt SP pt1 with
  | none => some {}
  | some (pt, rest) =>
      let pt2 := blanks rest
      (checkstrings salt ircfrom u.ops (clip 800 pt2)).map fun found =>
        match found.1 with
        | none => {}
        | some s =>
            if decide (s.ehost.head? ≠ some MINUS) && hasmode u.channels u.nick found.2 OPSIGN &&
                strmcmp pt s.eparm then
              { server := [clip 8192 (opLine pt2 ircnick)]
                client := if u.connected then [clip 8192 (oppedLine u.owner ircnick ircfrom s.ehost pt2)] else []
                done := u.connected }
            else {}

/-! ## Which entries count -/

section Entries

variable (ircfrom chan pass : CStr)

/-- The entries that can be read, in their parts. -/
def opStrings (salt : Salt) (ops : List CStr) : List OpString :=
  ops.filterMap fun entry => (opString salt entry).join

/-- The channel is the entry's, or the entry is for all channels. -/
def OpString.forChannel (s : OpString) : Bool := s.echan.all fun echan => strmcmp (ucase chan) echan

/-- The scan leaves off at the entry. -/
def OpString.stops (s : OpString) : Bool := s.forChannel chan && (s.marked || maskMatches s.ehost ircfrom)

/-- An entry without mark for the sender and the channel, with the password. -/
def OpString.grants (s : OpString) : Bool :=
  s.forChannel chan && !s.marked && maskMatches s.ehost ircfrom && decide (s.eparm = pass)

/-- What `checkop` asks of the entry the scan left off at. -/
def OpString.answers (s : OpString) : Bool := decide (s.ehost.head? ≠ some MINUS) && strmcmp pass s.eparm

/-- The first entry at which the scan leaves off hides nothing: if it has the password and no `-`, it has no
mark either or a later entry grants, and otherwise no later entry grants. -/
def FirstDecides : List OpString → Prop
  | [] => True
  | s :: rest =>
      if s.stops ircfrom chan = true then
        if s.answers pass = true then
          s.marked = false ∨ ∃ s' ∈ rest, s'.grants ircfrom chan pass = true
        else ∀ s' ∈ rest, s'.grants ircfrom chan pass = false
      else FirstDecides rest

variable {ircfrom chan pass}

theorem grants_iff (s : OpString) :
    s.grants ircfrom chan pass = true ↔
      s.stops ircfrom chan = true ∧ s.answers pass = true ∧ s.marked = false := by
  have hsame : strmcmp pass s.eparm = decide (s.eparm = pass) := by
    rw [Bool.eq_iff_iff, strmcmp_iff, decide_eq_true_iff, eq_comm]
  rw [OpString.grants, OpString.stops, OpString.answers, hsame]
  cases hm : s.marked with
  | true =>
      simp
  | false =>
      have hminus : s.ehost.head? ≠ some MINUS := by
        intro h
        rw [OpString.marked, decide_eq_false_iff_not] at hm
        exact hm (Or.inl h)
      simp [hminus, and_assoc]

/-- The entry the scan leaves off at has the password exactly when some entry grants, if and only if it hides
nothing. -/
theorem firstDecides_iff (l : List OpString) :
    ((l.find? (OpString.stops ircfrom chan)).any (OpString.answers pass) = true ↔
        ∃ s ∈ l, s.grants ircfrom chan pass = true) ↔ FirstDecides ircfrom chan pass l := by
  induction l with
  | nil =>
      simp [FirstDecides]
  | cons s rest ih =>
      rw [FirstDecides]
      by_cases hstops : s.stops ircfrom chan = true
      · rw [if_pos hstops, List.find?_cons_of_pos hstops, Option.any_some, List.exists_mem_cons_iff, grants_iff]
        by_cases hanswers : s.answers pass = true
        · simp [hstops, hanswers]
        · simp [hanswers]
      · have hno : ¬ s.grants ircfrom chan pass = true := fun h => hstops ((grants_iff s).1 h).1
        rw [if_neg hstops, List.find?_cons_of_neg hstops, List.exists_mem_cons_iff, ← ih]
        simp [hno]

end Entries

/-! ## The scan -/

section Scan

variable {salt : Salt}

theorem opString_echan {entry : CStr} {s : OpString} (h : opString salt entry = some (some s)) :
    s.echan.all (fun echan => decide (echan.length < 200)) = true := by
  have hclip : ∀ t : CStr, (clip 200 t).length < 200 := by
    intro t
    rw [length_clip]
    omega
  rw [opString] at h
  cases hcut : cutAt SEMICOLON (clip 650 entry) with
  | none =>
      rw [hcut] at h
      cases h
  | some p =>
      rw [hcut] at h
      simp only [Option.map_eq_some_iff] at h
      rcases h with ⟨po, _, hs⟩
      cases hs
      by_cases hsign : (po.head?.all fun c => decide (c ∈ chanSigns)) = true
      · rw [if_pos hsign]
        cases cutAt SP po with
        | none =>
            exact decide_eq_true (hclip _)
        | some q =>
            exact decide_eq_true (hclip _)
      · rw [if_neg hsign]
        rfl

/-- A channel that is cut off at `ircto[800]` is none that an entry can have. -/
theorem forChannel_clip {s : OpString} (hs : s.echan.all (fun echan => decide (echan.length < 200)) = true)
    (chan : CStr) : s.forChannel (clip 800 chan) = s.forChannel chan := by
  rw [OpString.forChannel, OpString.forChannel]
  cases hechan : s.echan with
  | none =>
      rfl
  | some echan =>
      rw [hechan, Option.all_some, decide_eq_true_iff] at hs
      rw [Option.all_some, Option.all_some]
      by_cases hlen : chan.length < 800
      · rw [clip_eq_self hlen]
      · have hne : ∀ c : CStr, 200 ≤ c.length → strmcmp (ucase c) echan = false := by
          intro c hc
          rw [← Bool.not_eq_true, strmcmp_iff]
          rintro rfl
          rw [length_ucase] at hs
          omega
        have hclip : 200 ≤ (clip 800 chan).length := by
          rw [length_clip]
          omega
        rw [hne _ hclip, hne _ (by omega)]

/-- The scan finds the first entry it leaves off at; `ircto` keeps its letters up to case. -/
theorem checkstrings_eq (ircfrom : CStr) (ops : List CStr)
    (hread : ∀ entry ∈ ops, (opString salt entry).isSome = true) (ircto : CStr) :
    ∃ ircto', checkstrings salt ircfrom ops ircto =
        some ((opStrings salt ops).find? (OpString.stops ircfrom ircto), ircto') ∧
      ucase ircto' = ucase ircto := by
  induction ops generalizing ircto with
  | nil =>
      exact ⟨ircto, rfl, rfl⟩
  | cons entry ops ih =>
      rcases Option.isSome_iff_exists.1 (hread entry List.mem_cons_self) with ⟨s, hs⟩
      have hrest := ih fun e he => hread e (List.mem_cons_of_mem _ he)
      rw [checkstrings, hs, Option.bind_some]
      cases s with
      | none =>
          have hlist : opStrings salt (entry :: ops) = opStrings salt ops := by
            rw [opStrings, List.filterMap_cons, hs]
            rfl
          rw [hlist]
          exact hrest ircto
      | some s =>
          have hlist : opStrings salt (entry :: ops) = s :: opStrings salt ops := by
            rw [opStrings, List.filterMap_cons, hs]
            rfl
          rw [hlist]
          simp only
          -- an entry for all channels leaves `ircto` as it is
          have hcase : ucase (if s.echan.isSome = true then ucase ircto else ircto) = ucase ircto := by
            split
            · exact ucase_ucase ircto
            · rfl
          have hstops : (s.echan.all (fun echan =>
              strmcmp (if s.echan.isSome = true then ucase ircto else ircto) echan) &&
                (s.marked || maskMatches s.ehost ircfrom)) = s.stops ircfrom ircto := by
            rw [OpString.stops, OpString.forChannel]
            cases s.echan with
            | none =>
                rfl
            | some echan =>
                rfl
          rw [hstops]
          by_cases hs : s.stops ircfrom ircto = true
          · rw [if_pos hs, List.find?_cons_of_pos hs]
            exact ⟨_, rfl, hcase⟩
          · rw [if_neg hs, List.find?_cons_of_neg hs]
            rcases hrest (if s.echan.isSome = true then ucase ircto else ircto) with ⟨ircto', hscan, hcase'⟩
            have hstops' : OpString.stops ircfrom (if s.echan.isSome = true then ucase ircto else ircto) =
                OpString.stops ircfrom ircto := by
              funext s'
              rw [OpString.stops, OpString.stops, OpString.forChannel, OpString.forChannel, hcase]
            rw [hstops'] at hscan
            exact ⟨ircto', hscan, hcase'.trans hcase⟩

theorem hasmode_congr (channels : List Uchannelt) (nick : CStr) {c c' : CStr}
    (h : ucase (clip 255 c) = ucase (clip 255 c')) (symbol : Byte) :
    hasmode channels nick c symbol = hasmode channels nick c' symbol := by
  have hget : getuserchannel channels c = getuserchannel channels c' := by
    rw [getuserchannel, getuserchannel]
    congr 1
    funext lkm
    rw [sameName, sameName, h]
  rw [hasmode, hasmode, hget]

theorem ucase_clip (n : Nat) (s : CStr) : ucase (clip n s) = clip n (ucase s) := List.map_take

end Scan

/-! ## The message -/

/-- `op <password> #channel`, with any number of blanks between the words. -/
structure OpMessage where
  pass : CStr
  chan : CStr
  before : Nat := 0
  behind : Nat := 0
  word : SP ∉ pass
  given : pass ≠ []
  start : chan.head? ≠ some SP

def OpMessage.text (m : OpMessage) : CStr :=
  ascii "op " ++ (List.replicate m.before SP ++ (m.pass ++ SP :: (List.replicate m.behind SP ++ m.chan)))

theorem blanks_replicate (n : Nat) {s : CStr} (h : s.head? ≠ some SP) :
    blanks (List.replicate n SP ++ s) = s := by
  rw [blanks, List.dropWhile_append_of_pos]
  · cases s with
    | nil =>
        rfl
    | cons b s =>
        have hb : ¬ (b == SP) = true := by
          intro hb
          apply h
          rw [List.head?_cons, beq_iff_eq.1 hb]
        exact List.dropWhile_cons_of_neg hb
  · intro b hb
    rw [(List.mem_replicate.1 hb).2]
    rfl

/-- The bouncer's user is operator on the channel, and some entry grants. -/
def OpGranted (salt : Salt) (u : OpUser) (ircfrom : CStr) (m : OpMessage) : Prop :=
  hasmode u.channels u.nick m.chan OPSIGN = true ∧
    ∃ s ∈ opStrings salt u.ops, s.grants ircfrom m.chan m.pass = true

instance OpGranted.decidable (salt : Salt) (u : OpUser) (ircfrom : CStr) (m : OpMessage) :
    Decidable (OpGranted salt u ircfrom m) :=
  inferInstanceAs (Decidable (hasmode u.channels u.nick m.chan OPSIGN = true ∧
    ∃ s ∈ opStrings salt u.ops, s.grants ircfrom m.chan m.pass = true))

/-- The sender is made operator exactly when he is to be. -/
def OpsRightly (salt : Salt) (u : OpUser) (ircfrom ircnick : CStr) (m : OpMessage) : Prop :=
  ∃ reply, checkop salt u ircfrom ircnick m.text = some reply ∧
    (OpGranted salt u ircfrom m → reply.server = [clip 8192 (opLine m.chan ircnick)]) ∧
    (¬ OpGranted salt u ircfrom m → reply.server = [])

theorem checkop_server (salt : Salt) (u : OpUser) (ircfrom ircnick : CStr) (m : OpMessage)
    (hread : ∀ entry ∈ u.ops, (opString salt entry).isSome = true) :
    ∃ reply, checkop salt u ircfrom ircnick m.text = some reply ∧
      reply.server =
        if hasmode u.channels u.nick m.chan OPSIGN = true ∧
            ((opStrings salt u.ops).find? (OpString.stops ircfrom m.chan)).any (OpString.answers m.pass) = true then
          [clip 8192 (opLine m.chan ircnick)]
        else [] := by
  -- The blanks in front of the password end at it.
  have hpass : (m.pass ++ SP :: (List.replicate m.behind SP ++ m.chan)).head? ≠ some SP := by
    have hword := m.word
    cases hp : m.pass with
    | nil =>
        exact absurd hp m.given
    | cons b t =>
        rw [hp] at hword
        rw [List.cons_append, List.head?_cons]
        intro h
        cases h
        exact hword List.mem_cons_self
  have hdrop : m.text.drop 3 =
      List.replicate m.before SP ++ (m.pass ++ SP :: (List.replicate m.behind SP ++ m.chan)) := rfl
  have hcut : cutAt SP (m.pass ++ SP :: (List.replicate m.behind SP ++ m.chan)) =
      some (m.pass, List.replicate m.behind SP ++ m.chan) := cutAt_append m.word
  rcases checkstrings_eq ircfrom u.ops hread (clip 800 m.chan) with ⟨ircto, hscan, hcase⟩
  -- `ircto` is cut off, and the channel of an entry is short enough not to notice.
  have hstops : (opStrings salt u.ops).find? (OpString.stops ircfrom (clip 800 m.chan)) =
      (opStrings salt u.ops).find? (OpString.stops ircfrom m.chan) := by
    apply List.find?_congr
    intro s hs
    rcases List.mem_filterMap.1 hs with ⟨entry, _, hentry⟩
    rw [OpString.stops, OpString.stops, forChannel_clip (opString_echan (Option.join_eq_some_iff.1 hentry))]
  -- The scan may have turned the channel into upper case, which the lookup ignores.
  have hmode : hasmode u.channels u.nick ircto OPSIGN = hasmode u.channels u.nick m.chan OPSIGN := by
    apply hasmode_congr
    rw [ucase_clip, hcase, ← ucase_clip]
    congr 1
    rw [clip, clip, clip, List.take_take]
    rfl
  rw [checkop, hdrop, blanks_replicate _ hpass, hcut]
  simp only
  rw [blanks_replicate _ m.start, hscan, hstops, Option.map_some]
  refine ⟨_, rfl, ?_⟩
  cases hfind : (opStrings salt u.ops).find? (OpString.stops ircfrom m.chan) with
  | none =>
      simp
  | some s =>
      have hanswers : (decide (s.ehost.head? ≠ some MINUS) && hasmode u.channels u.nick ircto OPSIGN &&
          strmcmp m.pass s.eparm) = true ↔
          hasmode u.channels u.nick m.chan OPSIGN = true ∧ s.answers m.pass = true := by
        rw [hmode, OpString.answers, Bool.and_eq_true, Bool.and_eq_true, Bool.and_eq_true, and_right_comm, and_comm]
      rw [Option.any_some]
      simp only
      by_cases h : hasmode u.channels u.nick m.chan OPSIGN = true ∧ s.answers m.pass = true
      · rw [if_pos (hanswers.2 h), if_pos h]
      · rw [if_neg (fun h' => h (hanswers.1 h')), if_neg h]

/-- The sender is made operator exactly when some entry grants it, if and only if the bouncer's user is no
operator there, or the first entry the scan leaves off at hides nothing. -/
theorem checkop_grants_iff (salt : Salt) (u : OpUser) (ircfrom ircnick : CStr) (m : OpMessage)
    (hread : ∀ entry ∈ u.ops, (opString salt entry).isSome = true) :
    OpsRightly salt u ircfrom ircnick m ↔
      (hasmode u.channels u.nick m.chan OPSIGN = true →
        FirstDecides ircfrom m.chan m.pass (opStrings salt u.ops)) := by
  rcases checkop_server salt u ircfrom ircnick m hread with ⟨reply, hreply, hserver⟩
  have hline : [clip 8192 (opLine m.chan ircnick)] ≠ [] := List.cons_ne_nil _ _
  have hrightly : OpsRightly salt u ircfrom ircnick m ↔
      ((hasmode u.channels u.nick m.chan OPSIGN = true ∧
          ((opStrings salt u.ops).find? (OpString.stops ircfrom m.chan)).any (OpString.answers m.pass) = true) ↔
        OpGranted salt u ircfrom m) := by
    constructor
    · rintro ⟨reply', hreply', hyes, hno⟩
      cases Option.some.inj (hreply.symm.trans hreply')
      constructor
      · intro hfound
        by_contra hgranted
        rw [if_pos hfound] at hserver
        exact hline (hserver.symm.trans (hno hgranted))
      · intro hgranted
        by_contra hfound
        rw [if_neg hfound] at hserver
        exact hline ((hyes hgranted).symm.trans hserver)
    · intro hiff
      refine ⟨reply, hreply, fun hgranted => ?_, fun hgranted => ?_⟩
      · rw [hserver, if_pos (hiff.2 hgranted)]
      · rw [hserver, if_neg (fun hfound => hgranted (hiff.1 hfound))]
  rw [hrightly, ← firstDecides_iff, OpGranted]
  by_cases hmode : hasmode u.channels u.nick m.chan OPSIGN = true
  · simp [hmode]
  · simp [hmode]

/-! ## Two entries -/

/-- The bouncer is operator on `#c`. -/
def opUser (ops : List CStr) : OpUser where
  nick := ascii "me"
  channels := [{ name := ascii "#c", users := [{ nick := ascii "me", mode := ascii "@" }] }]
  ops := ops

theorem opMessage_words : SP ∉ ascii "two" ∧ ascii "two" ≠ [] ∧ (ascii "#C").head? ≠ some SP := by decide

/-- `op two #C` -/
def opTwo : OpMessage :=
  { pass := ascii "two", chan := ascii "#C", word := opMessage_words.1, given := opMessage_words.2.1,
    start := opMessage_words.2.2 }

/-- An entry as `cmdaddop` makes it. -/
def opEntry (mask pass : CStr) : CStr := mask ++ SEMICOLON :: cryptit buildSalt pass

theorem checkop_grants_two :
    OpsRightly buildSalt (opUser [opEntry (ascii "*!b@*") (ascii "one"), opEntry (ascii "*!a@*") (ascii "two")])
      (ascii "amy!a@host") (ascii "amy") opTwo := by
  apply (checkop_grants_iff buildSalt
    (opUser [opEntry (ascii "*!b@*") (ascii "one"), opEntry (ascii "*!a@*") (ascii "two")])
    (ascii "amy!a@host") (ascii "amy") opTwo (by decide +kernel)).2
  exact fun _ => (firstDecides_iff _).1 (by decide +kernel)

/-- With another password for the sender in front, the right one is not found, the other way round it is;
and an entry of a bot makes anybody operator. -/
theorem checkop_other_first :
    (checkop buildSalt (opUser [opEntry (ascii "*!a@*") (ascii "one"), opEntry (ascii "amy!*") (ascii "two")])
        (ascii "amy!a@host") (ascii "amy") opTwo.text).map OpReply.server = some [] ∧
      (checkop buildSalt (opUser [opEntry (ascii "amy!*") (ascii "two"), opEntry (ascii "*!a@*") (ascii "one")])
        (ascii "amy!a@host") (ascii "amy") opTwo.text).map OpReply.server =
          some [ascii "MODE #C +o amy"] ∧
      (checkop buildSalt (opUser [opEntry (ascii ")bot") (ascii "two")]) (ascii "amy!a@host") (ascii "amy")
        opTwo.text).map OpReply.server = some [ascii "MODE #C +o amy"] ∧
      ¬ OpsRightly buildSalt
        (opUser [opEntry (ascii "*!a@*") (ascii "one"), opEntry (ascii "amy!*") (ascii "two")])
        (ascii "amy!a@host") (ascii "amy") opTwo := by
  have hserver : (checkop buildSalt
      (opUser [opEntry (ascii "*!a@*") (ascii "one"), opEntry (ascii "amy!*") (ascii "two")])
      (ascii "amy!a@host") (ascii "amy") opTwo.text).map OpReply.server = some [] := by
    decide +kernel
  refine ⟨hserver, by decide +kernel, by decide +kernel, ?_⟩
  rintro ⟨reply, hreply, hyes, _⟩
  have hgranted : OpGranted buildSalt
      (opUser [opEntry (ascii "*!a@*") (ascii "one"), opEntry (ascii "amy!*") (ascii "two")])
      (ascii "amy!a@host") opTwo := by
    decide +kernel
  rw [hreply, Option.map_some, hyes hgranted] at hserver
  cases hserver

end PsyBnc
