import PsyBnc.UChannel.MemberModes

/-!
# Sending the names of a channel

`sendnames` writes the members of a channel in as many lines as it needs.  A line that has become too
long is written and a new one begun with the same header, in a round that takes no member; the header
is kept in a buffer of its own, `nameline[300]`.
-/

namespace PsyBnc

open CLib

/-- What `sendnames` uses of a user; `parent` is the nick of the parent's record. -/
structure NamedUser where
  nick : CStr
  server : CStr
  network : CStr := []
  parent : Option CStr := none
  innames : Nat := 0
  inchan : CStr := []
  nick_lt : nick.length < 64
  parent_lt : ∀ n ∈ parent, n.length < 64

namespace NamedUser

/-- Two records are equal when they agree in what is not a proof. -/
theorem mk_eq_iff {n n' s s' w w' : CStr} {p p' : Option CStr} {i i' : Nat} {c c' : CStr} {hn hn' hp hp'} :
    (⟨n, s, w, p, i, c, hn, hp⟩ : NamedUser) = ⟨n', s', w', p', i', c', hn', hp'⟩ ↔
      n = n' ∧ s = s' ∧ w = w' ∧ p = p' ∧ i = i' ∧ c = c' := by
  constructor
  · intro h
    cases h
    exact ⟨rfl, rfl, rfl, rfl, rfl, rfl⟩
  · rintro ⟨rfl, rfl, rfl, rfl, rfl, rfl⟩
    rfl

instance : DecidableEq NamedUser
  | ⟨_, _, _, _, _, _, _, _⟩, ⟨_, _, _, _, _, _, _, _⟩ => decidable_of_iff _ mk_eq_iff.symm

/-- The nick the user sees himself under. -/
def shown (u : NamedUser) (intnet : Bool) : CStr := if intnet then u.nick else u.parent.getD u.nick

/-- `token[60]`, the network in front of a channel; `lngtxt(889)` for the internal one. -/
def token (u : NamedUser) (intnet : Bool) : CStr :=
  if intnet then ascii "#int~"
  else if u.parent.isSome then clip 60 (ascii "#" ++ u.network ++ ascii "~")
  else []

def sender (u : NamedUser) (intnet : Bool) : CStr :=
  if intnet then ascii "intnet-psybnc.net" else u.server

/-- A NAMES of the client for the channel is under way. -/
def pending (u : NamedUser) (chan : Uchannelt) : Bool :=
  decide (u.innames = 1) &&
    strmcmp (ucase (clip 200 (rtrim chan.name))) (ucase (clip 200 (rtrim u.inchan)))

end NamedUser

/-- `lngtxt(890)`, the header of the lines. -/
def namesHeader (u : NamedUser) (intnet : Bool) (name : CStr) : CStr :=
  ascii ":" ++ u.sender intnet ++ ascii " 353 " ++ u.nick ++ ascii " = " ++ u.token intnet ++ name ++
    ascii " :"

/-- `lngtxt(891)`, the last line. -/
def namesEnd (u : NamedUser) (intnet : Bool) (name : CStr) : CStr :=
  ascii ":" ++ u.sender intnet ++ ascii " 366 " ++ u.nick ++ ascii " " ++ u.token intnet ++ name ++
    ascii " :End of /NAMES list." ++ [LF]

/-- `strcat(line,s)` for `line[1024]`, when there is room. -/
def strcatLine (line s : CStr) : Option CStr :=
  if (line ++ s).length < 1024 then some (line ++ s) else none

/-- The round of a member: its first mode symbol, its nick and a blank. -/
def appendMember (u : NamedUser) (intnet : Bool) (user : Uchannelusert) (line : CStr) : Option CStr :=
  (strcatLine line (user.mode.take 1)).bind fun line =>
    (if strmcmp user.nick u.nick then strcatLine line (u.shown intnet)
      else (strcatLine line (u.token intnet).tail).bind fun line => strcatLine line user.nick).bind
        fun line => strcatLine line [SP]

/-- The loop of `sendnames`: the lines written, and the unfinished one. -/
def sendnamesLoop (u : NamedUser) (intnet : Bool) (nameline : CStr) :
    Nat → List Uchannelusert → CStr → Option (List CStr × CStr)
  | _, [], line => some ([], line)
  | 0, _ :: _, _ => none
  | fuel + 1, user :: users, line =>
      if 500 < line.length then
        (strcatLine line [LF]).bind fun written =>
          (sendnamesLoop u intnet nameline fuel (user :: users) nameline).map fun r =>
            (written :: r.1, r.2)
      else
        (appendMember u intnet user line).bind fun line =>
          sendnamesLoop u intnet nameline fuel users line

/-- The user and the channel afterwards, and the lines for the client. -/
structure NamesSent where
  user : NamedUser
  chan : Uchannelt
  lines : List CStr
  deriving DecidableEq

/-- While a NAMES of the client is under way `rtrim` cuts the blanks off in both names themselves. -/
def trimNames (intnet : Bool) (u : NamedUser) (chan : Uchannelt) : NamedUser × Uchannelt :=
  if intnet = false ∧ u.innames = 1 then
    ({ u with inchan := rtrim u.inchan }, { chan with name := rtrim chan.name })
  else (u, chan)

/-- `sendnames`, with `fuel` rounds of its loop. -/
def sendnames (fuel : Nat) (intnet : Bool) (u : NamedUser) (chan : Uchannelt) : Option NamesSent :=
  let trimmed := trimNames intnet u chan
  if intnet = false ∧ u.pending chan = true then
    some ⟨{ trimmed.1 with innames := 2 }, trimmed.2, []⟩
  else
    let nameline := clip 300 (namesHeader u intnet trimmed.2.name)
    (sendnamesLoop u intnet nameline fuel chan.users nameline).bind fun r =>
      (strcatLine r.2 [LF]).map fun last =>
        ⟨trimmed.1, trimmed.2, r.1 ++ [last, clip 1024 (namesEnd u intnet trimmed.2.name)]⟩

/-! ## The reply -/

/-- The highest prefix of a member: `mode` keeps the symbols in the order of their ranks. -/
def Uchannelusert.highest (user : Uchannelusert) : CStr := user.mode.take 1

/-- How a member is listed: under its nick behind its highest prefix, the user himself under the nick
that his client knows. -/
def namesItem (u : NamedUser) (intnet : Bool) (user : Uchannelusert) : CStr :=
  user.highest ++
    (if user.nick = u.nick then u.shown intnet else (u.token intnet).tail ++ user.nick) ++ [SP]

/-- A line with some members behind it. -/
def namesLine (u : NamedUser) (intnet : Bool) (line : CStr) (g : List Uchannelusert) : CStr :=
  line ++ g.flatMap (namesItem u intnet) ++ [LF]

/-- The lines list all members, each once and in order, and one last line ends them. -/
def ListsNames (u : NamedUser) (intnet : Bool) (chan : Uchannelt) (lines : List CStr) : Prop :=
  ∃ groups : List (List Uchannelusert), groups.flatten = chan.users ∧
    lines = groups.map (namesLine u intnet (namesHeader u intnet chan.name)) ++
      [namesEnd u intnet chan.name]

section Symbols

variable {rank : List (Byte × Byte)} {S : Byte → Bool}

/-- Of a mode in the order of the ranks, the first symbol is the one of the highest rank. -/
theorem highest_ranked {user : Uchannelusert} (hmode : user.mode = ranked rank S) :
    user.highest = ((rank.find? fun p => S p.1).map Prod.snd).toList := by
  rw [Uchannelusert.highest, hmode, ranked, ← List.head?_filter]
  cases rank.filter fun p => S p.1 with
  | nil =>
      rfl
  | cons p ps =>
      rfl

end Symbols

section Loop

variable {u : NamedUser} {intnet : Bool} {nameline line : CStr} {users : List Uchannelusert}
  {user : Uchannelusert}

theorem strcatLine_eq {s : CStr} (h : (line ++ s).length < 1024) : strcatLine line s = some (line ++ s) :=
  if_pos h

theorem length_token_le (u : NamedUser) (intnet : Bool) : (u.token intnet).length ≤ 59 := by
  rw [NamedUser.token]
  split
  · decide
  · split
    · rw [length_clip]
      exact Nat.min_le_left _ _
    · exact Nat.zero_le _

theorem length_shown_lt (u : NamedUser) (intnet : Bool) : (u.shown intnet).length < 64 := by
  rw [NamedUser.shown]
  split
  · exact u.nick_lt
  · cases hparent : u.parent with
    | none =>
        exact u.nick_lt
    | some n =>
        exact u.parent_lt n hparent

/-- A member has room behind 500 bytes. -/
theorem appendMember_eq (hnick : user.nick.length < 64) (hline : line.length ≤ 500) :
    appendMember u intnet user line = some (line ++ namesItem u intnet user) := by
  have hmode : (user.mode.take 1).length ≤ 1 := List.length_take_le 1 _
  have htoken := length_token_le u intnet
  have hshown := length_shown_lt u intnet
  rw [appendMember, strcatLine_eq (by rw [List.length_append]; omega), Option.bind_some, namesItem,
    Uchannelusert.highest]
  by_cases hown : user.nick = u.nick
  · rw [if_pos (strmcmp_iff.2 hown), if_pos hown,
      strcatLine_eq (by simp only [List.length_append]; omega), Option.bind_some,
      strcatLine_eq (by simp only [List.length_append, List.length_singleton]; omega)]
    simp only [List.append_assoc]
  · have hno : ¬ strmcmp user.nick u.nick = true := fun h => hown (strmcmp_iff.1 h)
    rw [if_neg hno, if_neg hown,
      strcatLine_eq (by simp only [List.length_append, List.length_tail]; omega), Option.bind_some,
      strcatLine_eq (by simp only [List.length_append, List.length_tail]; omega), Option.bind_some,
      strcatLine_eq (by simp only [List.length_append, List.length_tail, List.length_singleton]; omega)]
    simp only [List.append_assoc]

theorem length_namesItem_le (u : NamedUser) (intnet : Bool) (hnick : user.nick.length < 64) :
    (namesItem u intnet user).length ≤ 124 := by
  have hmode : (user.mode.take 1).length ≤ 1 := List.length_take_le 1 _
  have htoken := length_token_le u intnet
  have hshown := length_shown_lt u intnet
  rw [namesItem, Uchannelusert.highest]
  split
  · simp only [List.length_append, List.length_singleton]
    omega
  · simp only [List.length_append, List.length_singleton, List.length_tail]
    omega

/-- Two rounds for each member are enough, and no line becomes too long for its buffer. -/
theorem sendnamesLoop_spec (u : NamedUser) (intnet : Bool)
    (hnick : ∀ user ∈ users, user.nick.length < 64) (hhead : nameline.length < 300)
    (hline : line.length ≤ 624) {fuel : Nat} (hfuel : 2 * users.length ≤ fuel) :
    ∃ lines last first rest, sendnamesLoop u intnet nameline fuel users line = some (lines, last) ∧
      (first :: rest).flatten = users ∧
      lines ++ [last ++ [LF]] =
        namesLine u intnet line first :: rest.map (namesLine u intnet nameline) ∧
      last.length ≤ 624 ∧ ∀ l ∈ lines, l.length < 1024 := by
  induction users generalizing line fuel with
  | nil =>
      refine ⟨[], line, [], [], ?_, rfl, ?_, hline, ?_⟩
      · cases fuel <;> rfl
      · rw [namesLine, List.flatMap_nil, List.append_nil]
        rfl
      · intro l hl
        cases hl
  | cons user users ih =>
      rw [List.length_cons] at hfuel
      have hnick' : ∀ user ∈ users, user.nick.length < 64 :=
        fun user hmem => hnick user (List.mem_cons_of_mem _ hmem)
      have hitem := length_namesItem_le u intnet (hnick user List.mem_cons_self)
      -- the round that takes the member
      have hround : ∀ (line : CStr) (fuel : Nat), line.length ≤ 500 → 2 * users.length + 1 ≤ fuel →
          ∃ lines last first rest,
            sendnamesLoop u intnet nameline fuel (user :: users) line = some (lines, last) ∧
            (first :: rest).flatten = user :: users ∧
            lines ++ [last ++ [LF]] =
              namesLine u intnet line first :: rest.map (namesLine u intnet nameline) ∧
            last.length ≤ 624 ∧ ∀ l ∈ lines, l.length < 1024 := by
        -- It goes on with the other members, and its member comes in front of those of the first line.
        intro line fuel hshort hfuel
        cases fuel with
        | zero =>
            exact absurd hfuel (Nat.not_succ_le_zero _)
        | succ fuel =>
            have hnew : (line ++ namesItem u intnet user).length ≤ 624 := by
              rw [List.length_append]
              omega
            rcases ih hnick' hnew (Nat.le_of_succ_le_succ hfuel) with
              ⟨lines, last, first, rest, hloop, hflat, hlines, hlast, hall⟩
            refine ⟨lines, last, user :: first, rest, ?_, ?_, ?_, hlast, hall⟩
            · rw [sendnamesLoop, if_neg (Nat.not_lt.2 hshort),
                appendMember_eq (hnick user List.mem_cons_self) hshort, Option.bind_some]
              exact hloop
            · rw [List.flatten_cons, List.cons_append, ← List.flatten_cons, hflat]
            · rw [hlines]
              simp only [namesLine, List.flatMap_cons, List.append_assoc]
      by_cases hlong : 500 < line.length
      · -- the line is written first, in a round that takes nobody
        cases fuel with
        | zero =>
            omega
        | succ fuel =>
            rcases hround nameline fuel (by omega) (by omega) with
              ⟨lines, last, first, rest, hloop, hflat, hlines, hlast, hall⟩
            have hwritten : strcatLine line [LF] = some (line ++ [LF]) := by
              apply strcatLine_eq
              rw [List.length_append, List.length_singleton]
              omega
            refine ⟨(line ++ [LF]) :: lines, last, [], first :: rest, ?_, ?_, ?_, hlast, ?_⟩
            · rw [sendnamesLoop, if_pos hlong, hwritten, Option.bind_some, hloop, Option.map_some]
            · rw [List.flatten_cons, List.nil_append, hflat]
            · rw [List.cons_append, hlines, List.map_cons]
              simp only [namesLine, List.flatMap_nil, List.append_nil]
            · intro l hl
              rcases List.mem_cons.1 hl with rfl | hl
              · rw [List.length_append, List.length_singleton]
                omega
              · exact hall l hl
      · exact hround line fuel (Nat.le_of_not_lt hlong) (by omega)

end Loop

/-! ## The whole reply -/

section Reply

variable {u : NamedUser} {intnet : Bool} {chan : Uchannelt}

/-- Lines with equally many headers of different lengths are different. -/
theorem length_lines (header : CStr) (groups : List (List Uchannelusert)) :
    ((groups.map (namesLine u intnet header)).flatten).length =
      groups.length * (header.length + 1) + (groups.flatten.flatMap (namesItem u intnet)).length := by
  induction groups with
  | nil =>
      simp
  | cons g groups ih =>
      simp only [List.map_cons, List.flatten_cons, List.length_append, ih, List.flatMap_append, namesLine,
        List.length_cons, List.length_nil, Nat.succ_mul]
      omega

theorem length_namesEnd (u : NamedUser) (intnet : Bool) (name : CStr) :
    (namesEnd u intnet name).length = (namesHeader u intnet name).length + 18 := by
  have hmsg : (ascii " :End of /NAMES list.").length = 21 := rfl
  have hend : (ascii " 366 ").length = 5 := rfl
  have hnum : (ascii " 353 ").length = 5 := rfl
  have heq : (ascii " = ").length = 3 := rfl
  have hsp : (ascii " ").length = 1 := rfl
  have hcolon : (ascii " :").length = 2 := rfl
  simp only [namesEnd, namesHeader, List.length_append, List.length_singleton, hmsg, hend, hnum, heq, hsp, hcolon]
  omega

@[simp] theorem users_trimNames (intnet : Bool) (u : NamedUser) (chan : Uchannelt) :
    (trimNames intnet u chan).2.users = chan.users := by
  rw [trimNames]
  split <;> rfl

/-- The lines of a reply, with the header as the buffer holds it. -/
theorem sendnames_reply (hnick : ∀ user ∈ chan.users, user.nick.length < 64)
    (hpending : ¬ (intnet = false ∧ u.pending chan = true)) :
    ∃ groups : List (List Uchannelusert), groups ≠ [] ∧ groups.flatten = chan.users ∧
      sendnames (2 * chan.users.length) intnet u chan =
        some ⟨(trimNames intnet u chan).1, (trimNames intnet u chan).2,
          groups.map (namesLine u intnet
            (clip 300 (namesHeader u intnet (trimNames intnet u chan).2.name))) ++
            [clip 1024 (namesEnd u intnet (trimNames intnet u chan).2.name)]⟩ ∧
      ∀ line ∈ groups.map (namesLine u intnet
          (clip 300 (namesHeader u intnet (trimNames intnet u chan).2.name))) ++
            [clip 1024 (namesEnd u intnet (trimNames intnet u chan).2.name)], line.length < 1024 := by
  have hhead : (clip 300 (namesHeader u intnet (trimNames intnet u chan).2.name)).length < 300 := by
    rw [length_clip]
    exact Nat.lt_succ_of_le (Nat.min_le_left _ _)
  rcases sendnamesLoop_spec u intnet hnick hhead (Nat.le_of_lt (hhead.trans (by decide)))
    (Nat.le_refl _) with ⟨lines, last, first, rest, hloop, hflat, hlines, hlast, hall⟩
  have hlast' : (last ++ [LF]).length < 1024 := by
    rw [List.length_append, List.length_singleton]
    omega
  refine ⟨first :: rest, List.cons_ne_nil _ _, hflat, ?_, ?_⟩
  · rw [sendnames]
    simp only
    rw [if_neg hpending, hloop, Option.bind_some, strcatLine_eq hlast', Option.map_some, List.map_cons,
      ← hlines, List.append_assoc]
    rfl
  · intro line hline
    rw [List.map_cons, ← hlines] at hline
    rcases List.mem_append.1 hline with hline | hline
    · rcases List.mem_append.1 hline with hline | hline
      · exact hall line hline
      · rw [List.mem_singleton] at hline
        rw [hline]
        exact hlast'
    · rw [List.mem_singleton] at hline
      rw [hline, length_clip]
      exact Nat.lt_succ_of_le (Nat.min_le_left _ _)

/-- What is written lists the names if and only if the header was not cut. -/
theorem listsNames_iff {groups : List (List Uchannelusert)} (hne : groups ≠ [])
    (hflat : groups.flatten = chan.users) :
    ListsNames u intnet chan
        (groups.map (namesLine u intnet (clip 300 (namesHeader u intnet chan.name))) ++
          [clip 1024 (namesEnd u intnet chan.name)]) ↔
      (namesHeader u intnet chan.name).length < 300 := by
  constructor
  · rintro ⟨groups', hflat', hlines⟩
    by_contra hlong
    have hcut : (clip 300 (namesHeader u intnet chan.name)).length = 299 := by
      rw [length_clip]
      exact Nat.min_eq_left (by omega)
    -- as many lines with the same members, behind a shorter header
    have hsame := (List.append_inj' hlines rfl).1
    have hcount : groups.length = groups'.length := by simpa using congrArg List.length hsame
    have htotal := congrArg (fun l => l.flatten.length) hsame
    simp only [length_lines, hcut, hcount, hflat, hflat'] at htotal
    have hpos : 0 < groups'.length := by
      rw [← hcount]
      exact List.length_pos_of_ne_nil hne
    have hequal := Nat.eq_of_mul_eq_mul_left hpos (Nat.add_right_cancel htotal)
    omega
  · intro hshort
    have hend : (namesEnd u intnet chan.name).length < 1024 := by
      rw [length_namesEnd]
      omega
    refine ⟨groups, hflat, ?_⟩
    rw [clip_eq_self hshort, clip_eq_self hend]

/-- A call ends, in lines that fit.  Unless the client has asked for the names itself, the reply lists every
member once, in order and behind its highest prefix, with one last line, if and only if the header fits
into `nameline[300]`. -/
theorem sendnames_lists_iff (intnet : Bool) (u : NamedUser) (chan : Uchannelt)
    (hnick : ∀ user ∈ chan.users, user.nick.length < 64) :
    ∃ r, sendnames (2 * chan.users.length) intnet u chan = some r ∧ r.chan.users = chan.users ∧
      (∀ line ∈ r.lines, line.length < 1024) ∧
      (intnet = false ∧ u.pending chan = true → r.lines = [] ∧ r.user.innames = 2) ∧
      (¬ (intnet = false ∧ u.pending chan = true) →
        (ListsNames u intnet (trimNames intnet u chan).2 r.lines ↔
          (namesHeader u intnet (trimNames intnet u chan).2.name).length < 300)) ∧
      ∀ user ∈ chan.users, ∀ S, user.mode = ranked chan.prefixes S →
        user.highest = ((chan.prefixes.find? fun p => S p.1).map Prod.snd).toList := by
  have hsymbol : ∀ user ∈ chan.users, ∀ S, user.mode = ranked chan.prefixes S →
      user.highest = ((chan.prefixes.find? fun p => S p.1).map Prod.snd).toList :=
    fun user _ S hmode => highest_ranked hmode
  by_cases hpending : intnet = false ∧ u.pending chan = true
  · refine ⟨_, if_pos hpending, users_trimNames intnet u chan, ?_, fun _ => ⟨rfl, rfl⟩,
      fun h => absurd hpending h, hsymbol⟩
    intro line hline
    cases hline
  · rcases sendnames_reply hnick hpending with ⟨groups, hne, hflat, hsend, hfit⟩
    refine ⟨_, hsend, users_trimNames intnet u chan, hfit, fun h => absurd h hpending, fun _ => ?_, hsymbol⟩
    exact listsNames_iff hne (hflat.trans (users_trimNames intnet u chan).symm)

end Reply

/-- A user with a nick of 30 bytes, and a channel with an operator beside him. -/
def replyUser (server : Nat) : NamedUser where
  nick := List.replicate 30 98
  server := List.replicate server 115
  nick_lt := Nat.le_of_ble_eq_true rfl
  parent_lt := fun _ h => absurd h (Option.not_mem_none _)

def replyChannel (name : Nat) : Uchannelt where
  name := 35 :: List.replicate name 99
  users := [⟨ascii "amy", [], [], ascii "@"⟩, ⟨List.replicate 30 98, [], [], []⟩]

theorem sendnames_lists_amy :
    ∃ r, sendnames 4 false (replyUser 9) (replyChannel 3) = some r ∧
      ListsNames (replyUser 9) false (trimNames false (replyUser 9) (replyChannel 3)).2 r.lines := by
  rcases sendnames_lists_iff false (replyUser 9) (replyChannel 3)
    (by decide) with ⟨r, hr, _, _, _, hlists, _⟩
  exact ⟨r, hr, (hlists (by decide)).2 (by decide)⟩

/-- A server name of 63 bytes and a channel name of 200 push the end of the header out of
`nameline[300]`: the names stand right behind that of the channel. -/
theorem sendnames_cuts_header :
    ∃ r, sendnames 4 false (replyUser 63) (replyChannel 199) = some r ∧
      r.lines.head? = some ((namesHeader (replyUser 63) false (replyChannel 199).name).take 299 ++
        ascii "@amy " ++ (replyUser 63).nick ++ ascii " " ++ [LF]) ∧
      ¬ ListsNames (replyUser 63) false (replyChannel 199) r.lines := by
  have hpending : ¬ (false = false ∧ (replyUser 63).pending (replyChannel 199) = true) := by decide
  have hnick : ∀ user ∈ (replyChannel 199).users, user.nick.length < 64 := by decide
  rcases sendnames_reply hnick hpending with ⟨groups, hne, hflat, hsend, _⟩
  refine ⟨_, hsend, ?_, fun hlists => ?_⟩
  · have hhead : ((sendnames 4 false (replyUser 63) (replyChannel 199)).bind fun r => r.lines.head?) =
        some ((namesHeader (replyUser 63) false (replyChannel 199).name).take 299 ++
          ascii "@amy " ++ (replyUser 63).nick ++ ascii " " ++ [LF]) := by decide +kernel
    exact (congrArg (fun o => o.bind fun r : NamesSent => r.lines.head?) hsend).symm.trans hhead
  · have hlong : ¬ (namesHeader (replyUser 63) false (replyChannel 199).name).length < 300 := by
      decide +kernel
    exact hlong ((listsNames_iff hne hflat).1 hlists)

end PsyBnc
