import PsyBnc.Party.Model

/-!
# A message to all

`querybounce` goes through the numbers from 1 on and leaves off in front of `MAXUSER`, although there may
be a user of that number.  In every round it puts the text back from a copy in `sic[500]`.
-/

namespace PsyBnc

open CLib

/-- The lines a user gets, without the QUITs of users of a lost link. -/
def messagesTo (uid : Nat) (sent : List (Nat × PartyLine)) : List CStr :=
  sent.filterMap fun o =>
    if o.1 = uid then
      match o.2 with
      | .message line => some line
      | _ => none
    else none

/-- Whom a message to all is for: everybody on the party line but the sender. -/
def partySelected (usern : Nat) (users : List PartyUser) (uid : Nat) : Bool :=
  (partyUser users uid).any fun u => u.joined && decide (usern ≠ uid)

/-- A round that does something. -/
def reached (users : List PartyUser) (rc : Nat) : Bool :=
  (partyUser users rc).any fun u => u.connected && decide (u.parent = 0)

/-- The text of a message to all. -/
def partyText (login command content : CStr) : PartyText :=
  let t : PartyText := ⟨login, command, clip 800 PARTYCHAN ++ ascii " ", content⟩
  if strmcmp login systemLogin then (systemText t).1 else t

/-- The text that is left for the rounds behind the first one. -/
def partyTextLater (login command content : CStr) : PartyText :=
  partyText login (partyText login command content).command (clip 500 content)

section Texts

variable {login command content : CStr}

theorem not_loggedOff_partychan : ¬ loggedOff <:+: PARTYCHAN := by decide

/-- A JOIN or a PART does not depend on the command that was there, other texts keep it. -/
theorem systemText_command (t : PartyText) :
    (systemText t).1.command = t.command ∨
      ∀ c, (systemText { t with command := c }).1 = (systemText t).1 := by
  by_cases hin : loggedIn <:+: t.content
  · cases hcut : cutAt SP (t.content.drop 5) with
    | none =>
        left
        simp only [systemText, if_pos hin, loggedInText, hcut, if_neg not_loggedOff_partychan]
    | some p =>
        right
        intro c
        simp only [systemText, if_pos hin, loggedInText, hcut, if_neg not_loggedOff_partychan]
  · by_cases hoff : loggedOff <:+: t.content
    · cases hcut : cutAt SP (t.content.drop 5) with
      | none =>
          left
          simp only [systemText, if_neg hin, if_pos hoff, loggedOffText, hcut]
      | some p =>
          right
          intro c
          simp only [systemText, if_neg hin, if_pos hoff, loggedOffText, hcut]
    · left
      simp only [systemText, if_neg hin, if_neg hoff]

/-- The command that a round leaves behind makes the same text of the same words. -/
theorem partyText_again (login command content : CStr) :
    partyText login (partyText login command content).command content =
      partyText login command content := by
  rw [partyText, partyText]
  by_cases hsys : strmcmp login systemLogin = true
  · rw [if_pos hsys, if_pos hsys]
    rcases systemText_command ⟨login, command, clip 800 PARTYCHAN ++ ascii " ", content⟩ with h | h
    · rw [h]
    · exact h _
  · rw [if_neg hsys, if_neg hsys]

end Texts

section Rounds

variable {me login : CStr} {usern : Nat} {users : List PartyUser} {u : PartyUser} {s : Bounce} {uid : Nat}

theorem messagesTo_append (uid : Nat) (sent sent' : List (Nat × PartyLine)) :
    messagesTo uid (sent ++ sent') = messagesTo uid sent ++ messagesTo uid sent' :=
  List.filterMap_append

theorem messagesTo_quits (rc : Nat) (entries : List CStr) (sysmsg : Bool) :
    messagesTo uid (if sysmsg then entries.map fun entry => (rc, PartyLine.quit (lostQuit entry)) else []) =
      [] := by
  rw [messagesTo, List.filterMap_eq_nil_iff]
  intro o ho
  cases sysmsg with
  | false =>
      cases ho
  | true =>
      rcases List.mem_map.1 ho with ⟨entry, _, rfl⟩
      exact ite_self _

theorem messagesTo_message (rc : Nat) (line : CStr) :
    messagesTo uid [(rc, .message line)] = if rc = uid then [line] else [] := by
  by_cases h : rc = uid
  · rw [if_pos h, messagesTo, List.filterMap_cons, if_pos h]
    rfl
  · rw [if_neg h, messagesTo, List.filterMap_cons, if_neg h]
    rfl

theorem partyUser_uid (h : partyUser users uid = some u) : u.uid = uid := by
  simpa using List.find?_some h

/-- One round: the text goes to the user, if he is to have it. -/
theorem messagesTo_allRound (me login : CStr) (usern : Nat) (users : List PartyUser) (uid : Nat) (s : Bounce)
    (rc : Nat) :
    messagesTo uid (allRound me login usern users s rc).sent =
      messagesTo uid s.sent ++
        (if uid = rc ∧ partySelected usern users rc = true then
          [(partyText login s.command s.content).line me] else []) := by
  rw [allRound]
  cases huser : partyUser users rc with
  | none =>
      simp [partySelected, huser]
  | some u =>
      have huid := partyUser_uid huser
      simp only
      by_cases hroot : (u.connected && decide (u.parent = 0)) = true
      · rw [if_pos hroot, partyRound]
        have htext : (if strmcmp login systemLogin then
            systemText ⟨login, s.command, clip 800 PARTYCHAN ++ ascii " ", s.content⟩
          else (⟨login, s.command, clip 800 PARTYCHAN ++ ascii " ", s.content⟩, none)).1 =
            partyText login s.command s.content := by
          rw [partyText]
          split <;> rfl
        have hselected : partySelected usern users rc = true ↔ usern ≠ u.uid ∧ u.sysmsg = true := by
          rw [partySelected, huser, Option.any_some, PartyUser.joined, hroot, Bool.true_and,
            Bool.and_eq_true, decide_eq_true_iff, huid, and_comm]
        simp only [messagesTo_append, messagesTo_quits, htext, List.append_nil]
        congr 1
        by_cases hsel : usern ≠ u.uid ∧ u.sysmsg = true
        · rw [if_pos hsel, messagesTo_message, huid, hselected.2 hsel]
          simp [eq_comm]
        · have hno : ¬ (uid = rc ∧ partySelected usern users rc = true) :=
            fun h => hsel (hselected.1 h.2)
          rw [if_neg hsel, if_neg hno]
          rfl
      · rw [if_neg hroot]
        have hno : partySelected usern users rc = false := by
          rw [Bool.not_eq_true] at hroot
          rw [partySelected, huser, Option.any_some, PartyUser.joined, hroot, Bool.false_and, Bool.false_and]
        simp [hno]

theorem allRound_of_not_reached {rc : Nat} (h : reached users rc = false) (s : Bounce) :
    allRound me login usern users s rc = s := by
  rw [reached] at h
  rw [allRound]
  cases huser : partyUser users rc with
  | none =>
      rfl
  | some u =>
      rw [huser, Option.any_some] at h
      simp only
      rw [h, if_neg Bool.false_ne_true]

/-- What a round leaves for the next one. -/
theorem allRound_text (me login : CStr) (usern : Nat) {rc : Nat} (h : reached users rc = true) (s : Bounce) :
    (allRound me login usern users s rc).command = (partyText login s.command s.content).command ∧
      (allRound me login usern users s rc).content = clip 500 s.content := by
  rw [reached] at h
  rw [allRound]
  cases huser : partyUser users rc with
  | none =>
      rw [huser] at h
      cases h
  | some u =>
      rw [huser, Option.any_some] at h
      simp only
      rw [if_pos h, partyRound]
      refine ⟨?_, rfl⟩
      rw [partyText]
      by_cases hsys : strmcmp login systemLogin = true
      · simp only [hsys, if_true]
      · rw [Bool.not_eq_true] at hsys
        simp only [hsys, Bool.false_eq_true, if_false]

theorem reached_of_selected {rc : Nat} (h : partySelected usern users rc = true) :
    reached users rc = true := by
  rw [partySelected] at h
  rw [reached]
  cases huser : partyUser users rc with
  | none =>
      rw [huser] at h
      cases h
  | some u =>
      rw [huser, Option.any_some, PartyUser.joined, Bool.and_eq_true, Bool.and_eq_true] at h
      exact h.1.1

/-- Behind the first round everybody gets the same text. -/
theorem messagesTo_later (me login : CStr) (usern : Nat) (users : List PartyUser) (uid : Nat)
    {rcs : List Nat} (hnodup : rcs.Nodup) {t : PartyText} {s : Bounce}
    (ht : partyText login s.command s.content = t) (hclip : clip 500 s.content = s.content) :
    messagesTo uid (rcs.foldl (allRound me login usern users) s).sent =
      messagesTo uid s.sent ++
        (if uid ∈ rcs ∧ partySelected usern users uid = true then [t.line me] else []) := by
  induction rcs generalizing s with
  | nil =>
      simp
  | cons rc rcs ih =>
      rw [List.nodup_cons] at hnodup
      rw [List.foldl_cons]
      have hround := messagesTo_allRound me login usern users uid s rc
      by_cases hreach : reached users rc = true
      · rcases allRound_text me login usern hreach s with ⟨hcommand, hcontent⟩
        have hnext := ih hnodup.2 (s := allRound me login usern users s rc)
          (by rw [hcommand, hcontent, hclip, partyText_again, ht]) (by rw [hcontent, hclip, hclip])
        rw [hnext, hround, ht, List.append_assoc]
        congr 1
        by_cases huid : uid = rc
        · subst huid
          simp [hnodup.1]
        · simp [huid]
      · rw [Bool.not_eq_true] at hreach
        rw [allRound_of_not_reached hreach, ih hnodup.2 ht hclip]
        congr 1
        by_cases huid : uid = rc
        · subst huid
          have hno : ¬ partySelected usern users uid = true := by
            intro h
            rw [reached_of_selected h] at hreach
            cases hreach
          simp [hno]
        · simp [huid]

/-- The first user that is reached gets the text as it came. -/
theorem messagesTo_rounds (me login : CStr) (usern : Nat) (users : List PartyUser) (uid : Nat)
    {rcs : List Nat} (hnodup : rcs.Nodup) (s : Bounce) :
    messagesTo uid (rcs.foldl (allRound me login usern users) s).sent =
      messagesTo uid s.sent ++
        (if uid ∈ rcs ∧ partySelected usern users uid = true then
          [(if rcs.find? (reached users) = some uid then partyText login s.command s.content
            else partyTextLater login s.command s.content).line me]
        else []) := by
  induction rcs with
  | nil =>
      simp
  | cons rc rcs ih =>
      rw [List.nodup_cons] at hnodup
      rw [List.foldl_cons]
      by_cases hreach : reached users rc = true
      · rcases allRound_text me login usern hreach s with ⟨hcommand, hcontent⟩
        have hnext := messagesTo_later me login usern users uid hnodup.2 (s := allRound me login usern users s rc)
          (t := partyTextLater login s.command s.content)
          (by rw [hcommand, hcontent, partyTextLater]) (by rw [hcontent, clip_clip])
        rw [hnext, messagesTo_allRound, List.append_assoc, List.find?_cons_of_pos hreach]
        congr 1
        by_cases huid : uid = rc
        · subst huid
          simp [hnodup.1]
        · simp [huid, Ne.symm huid]
      · have hfind : (rc :: rcs).find? (reached users) = rcs.find? (reached users) :=
          List.find?_cons_of_neg hreach
        rw [Bool.not_eq_true] at hreach
        rw [allRound_of_not_reached hreach, ih hnodup.2, hfind]
        congr 1
        by_cases huid : uid = rc
        · subst huid
          have hno : ¬ partySelected usern users uid = true := by
            intro h
            rw [reached_of_selected h] at hreach
            cases hreach
          simp [hno]
        · simp [huid]

end Rounds

/-! ## The whole call -/

section Call

variable {me login nick : CStr} {usern : Nat} {users : List PartyUser} {ircto : CStr} {s : Bounce}

/-- An address for all: it starts with `$$`, and names no other bouncer. -/
def ToAll (ircto : CStr) : Prop := [DOLLAR, DOLLAR] <+: ircto ∧ STAR ∉ ircto

instance ToAll.decidable (ircto : CStr) : Decidable (ToAll ircto) :=
  inferInstanceAs (Decidable ([DOLLAR, DOLLAR] <+: ircto ∧ STAR ∉ ircto))

theorem querybounce_toAll (hto : ToAll ircto) (me login nick : CStr) (usern : Nat) (users : List PartyUser)
    (s : Bounce) :
    (querybounce me login nick usern users ircto s).1 =
      (List.range' 1 (MAXUSER - 1)).foldl (allRound me login usern users) s := by
  rcases hto with ⟨⟨rest, rfl⟩, hstar⟩
  rw [querybounce]
  have hall : decide (([DOLLAR, DOLLAR] ++ rest).tail.head? = some DOLLAR) = true := rfl
  have hhead : (if ([DOLLAR, DOLLAR] ++ rest).head? = some DOLLAR then
      cutAt STAR ([DOLLAR, DOLLAR] ++ rest) else none) = none := by
    rw [cutAt_eq_none.2 hstar, ite_self]
  simp only [hall, hhead, if_true]
  rw [bounceLoop]
  rfl

/-- Everybody who is to have the text gets it once, and nobody else does. -/
def Delivered (me : CStr) (usern : Nat) (users : List PartyUser) (t : PartyText)
    (sent : List (Nat × PartyLine)) : Prop :=
  ∀ uid, messagesTo uid sent = if partySelected usern users uid = true then [t.line me] else []

/-- A text for all users is delivered if and only if it is not meant for a user with the number
`MAXUSER`, and cutting it down to 499 bytes does not change the line, or leaves nobody to get one. -/
theorem querybounce_delivers_iff (me login nick : CStr) (usern : Nat) (users : List PartyUser)
    (ircto command content : CStr) (partyusers : List CStr) (hto : ToAll ircto)
    (hrange : ∀ u ∈ users, 1 ≤ u.uid ∧ u.uid ≤ MAXUSER) :
    Delivered me usern users (partyText login command content)
        (querybounce me login nick usern users ircto
          { partyusers := partyusers, command := command, content := content }).1.sent ↔
      partySelected usern users MAXUSER = false ∧
        ∀ uid, partySelected usern users uid = true →
          (List.range' 1 (MAXUSER - 1)).find? (reached users) ≠ some uid →
            (partyTextLater login command content).line me = (partyText login command content).line me := by
  -- What one user gets: the line as it came in the first round, and the cut one in the later rounds.
  have hsent : ∀ uid, messagesTo uid (querybounce me login nick usern users ircto
      { partyusers := partyusers, command := command, content := content }).1.sent =
      if uid ∈ List.range' 1 (MAXUSER - 1) ∧ partySelected usern users uid = true then
        [(if (List.range' 1 (MAXUSER - 1)).find? (reached users) = some uid then
            partyText login command content else partyTextLater login command content).line me]
      else [] := by
    intro uid
    rw [querybounce_toAll hto]
    exact messagesTo_rounds me login usern users uid List.nodup_range' _
  -- somebody who is selected has a number from 1 to `MAXUSER`
  have hnumber : ∀ uid, partySelected usern users uid = true → 1 ≤ uid ∧ uid ≤ MAXUSER := by
    intro uid hsel
    rw [partySelected] at hsel
    cases huser : partyUser users uid with
    | none =>
        rw [huser] at hsel
        cases hsel
    | some u =>
        rw [← partyUser_uid huser]
        exact hrange u (List.mem_of_find?_eq_some huser)
  have hmem : ∀ uid, uid ∈ List.range' 1 (MAXUSER - 1) ↔ 1 ≤ uid ∧ uid < MAXUSER := by
    intro uid
    rw [List.mem_range'_1]
    exact Iff.rfl
  constructor
  · intro hdel
    -- The loop never comes to the user with the highest number.
    have hlast : partySelected usern users MAXUSER = false := by
      by_contra hsel
      rw [Bool.not_eq_false] at hsel
      have hget := hdel MAXUSER
      rw [hsent, if_neg (fun h => Nat.lt_irrefl _ ((hmem _).1 h.1).2), if_pos hsel] at hget
      cases hget
    refine ⟨hlast, fun uid hsel hfirst => ?_⟩
    have hne : uid ≠ MAXUSER := by
      rintro rfl
      rw [hlast] at hsel
      cases hsel
    rcases hnumber uid hsel with ⟨hlow, hhigh⟩
    have hget := hdel uid
    rw [hsent, if_pos ⟨(hmem uid).2 ⟨hlow, Nat.lt_of_le_of_ne hhigh hne⟩, hsel⟩, if_pos hsel,
      if_neg hfirst] at hget
    exact (List.cons.inj hget).1
  · rintro ⟨hlast, hsame⟩ uid
    rw [hsent]
    by_cases hsel : partySelected usern users uid = true
    · have hne : uid ≠ MAXUSER := by
        rintro rfl
        rw [hlast] at hsel
        cases hsel
      rcases hnumber uid hsel with ⟨hlow, hhigh⟩
      rw [if_pos ⟨(hmem uid).2 ⟨hlow, Nat.lt_of_le_of_ne hhigh hne⟩, hsel⟩, if_pos hsel]
      split
      · rfl
      · next hfirst =>
        rw [hsame uid hsel hfirst]
    · rw [if_neg (fun h => hsel h.2), if_neg hsel]

end Call

/-- Two users on the party line, the second with the number `uid`. -/
def partyPair (uid : Nat) : List PartyUser :=
  [{ uid := 1, login := ascii "ann" }, { uid := uid, login := ascii "bob" }]

theorem querybounce_delivers_bob :
    Delivered (ascii "here") 1 (partyPair 2) (partyText (ascii "ann") (ascii "PRIVMSG") (ascii "hi"))
      (querybounce (ascii "here") (ascii "ann") (ascii "ann") 1 (partyPair 2) (ascii "$$")
        { partyusers := [], command := ascii "PRIVMSG", content := ascii "hi" }).1.sent := by
  apply (querybounce_delivers_iff (ascii "here") (ascii "ann") (ascii "ann") 1 (partyPair 2) (ascii "$$")
    (ascii "PRIVMSG") (ascii "hi") [] (by decide) (by decide)).2
  exact ⟨by decide, fun uid _ _ => by decide⟩

/-- The user with the highest number is left out. -/
theorem querybounce_misses_last :
    partySelected 1 (partyPair MAXUSER) MAXUSER = true ∧
      (querybounce (ascii "here") (ascii "ann") (ascii "ann") 1 (partyPair MAXUSER) (ascii "$$")
        { partyusers := [], command := ascii "PRIVMSG", content := ascii "hi" }).1.sent = [] ∧
      ¬ Delivered (ascii "here") 1 (partyPair MAXUSER)
        (partyText (ascii "ann") (ascii "PRIVMSG") (ascii "hi"))
        (querybounce (ascii "here") (ascii "ann") (ascii "ann") 1 (partyPair MAXUSER) (ascii "$$")
          { partyusers := [], command := ascii "PRIVMSG", content := ascii "hi" }).1.sent := by
  have hsent : (querybounce (ascii "here") (ascii "ann") (ascii "ann") 1 (partyPair MAXUSER) (ascii "$$")
      { partyusers := [], command := ascii "PRIVMSG", content := ascii "hi" }).1.sent = [] := by
    decide +kernel
  refine ⟨by decide, hsent, fun hdel => ?_⟩
  have hget := hdel MAXUSER
  rw [hsent] at hget
  cases hget

end PsyBnc
