import PsyBnc.Party.Model

/-!
# News from a linked bouncer

A linked bouncer says in a PARTY line that one of its users has come or gone.  The loop of `processlink`
makes a JOIN or a PART of it in the round of the first user; the name of the sender is then that of the
user, and the later rounds take the line for one of his own.
-/

namespace PsyBnc

open CLib

/-- A name as it stands in a line: it has no blank, and fits into `ircnick[64]`. -/
structure PartyName where
  name : CStr
  blank : SP ∉ name
  short : name.length < 64
  deriving DecidableEq

/-- `User %s logged in.` and `User %s logged off.` -/
def userNews (name : CStr) (on : Bool) : CStr :=
  ascii "User " ++ name ++ SP :: (if on then loggedIn else loggedOff)

/-- The JOIN, or PART, of a remote user. -/
def newsLine (irchost name : CStr) (on : Bool) : CStr :=
  (if on then (⟨name, ascii "JOIN", [], PARTYCHAN, none⟩ : LinkText)
    else ⟨name, ascii "PART", PARTYCHAN ++ ascii " ", ascii "logged off", none⟩).line irchost

/-- What news of a user make of the list. -/
def userEdit (xuser : CStr) (on : Bool) : PartyEdit := if on then .add xuser else .remove xuser

/-- A user whose round does something. -/
def PartyUser.visited (u : PartyUser) : Bool := u.joined || decide (u.uid = 1)

section News

variable {name : CStr} {on : Bool}

/-- A text with a `c` in it, compared with one that has its first `c` behind `u'`. -/
theorem append_cons_cases {c : Byte} {u v u' v' : CStr} (h : u ++ c :: v = u' ++ c :: v') (hu' : c ∉ u') :
    (u = u' ∧ v = v') ∨ ∃ w, u = u' ++ c :: w ∧ w ++ c :: v = v' := by
  rcases cut_cases c u with ⟨hno, _⟩ | ⟨u₁, w, rfl, hu₁, _⟩
  · have hcut := cutAt_append (v := v) hno
    rw [h, cutAt_append hu'] at hcut
    cases hcut
    exact Or.inl ⟨rfl, rfl⟩
  · have hcut := cutAt_append (v := w ++ c :: v) hu₁
    rw [← List.cons_append, ← List.append_assoc, h, cutAt_append hu'] at hcut
    cases hcut
    exact Or.inr ⟨w, rfl, rfl⟩

/-- Two words in a text, when the text begins with a word. -/
theorem infix_blank {u v w rest : CStr} (hu : SP ∉ u) (hw : SP ∉ w) (h : u ++ SP :: v <:+: w ++ SP :: rest) :
    (u <:+ w ∧ v <+: rest) ∨ u ++ SP :: v <:+: rest := by
  rcases h with ⟨y, t, heq⟩
  have heq' : (y ++ u) ++ SP :: (v ++ t) = w ++ SP :: rest := by
    rw [← heq]
    simp
  rcases append_cons_cases heq' hw with ⟨hword, hrest⟩ | ⟨z, hword, hrest⟩
  · exact Or.inl ⟨⟨y, hword⟩, ⟨t, hrest⟩⟩
  · right
    -- the blank behind the first word is not in `u`
    have hsuffix : u <:+ z := by
      have hu' : u <:+ w ++ SP :: z := ⟨y, hword⟩
      have hz : SP :: z <:+ w ++ SP :: z := List.suffix_append _ _
      rcases List.suffix_or_suffix_of_suffix hu' hz with h | h
      · rcases List.suffix_cons_iff.1 h with rfl | h
        · exact absurd List.mem_cons_self hu
        · exact h
      · exact absurd (h.mem List.mem_cons_self) hu
    rcases hsuffix with ⟨y', rfl⟩
    exact ⟨y', t, by rw [← hrest]; simp⟩

/-- Who goes is not said to come. -/
theorem not_loggedIn_off (hname : SP ∉ name) : ¬ loggedIn <:+: userNews name false := by
  have hin : loggedIn = ascii "logged" ++ SP :: ascii "in." := rfl
  have hoff : userNews name false = ascii "User" ++ SP :: (name ++ SP :: (ascii "logged" ++ SP :: ascii "off.")) := by
    rw [userNews, List.append_assoc]
    rfl
  intro h
  rw [hin, hoff] at h
  rcases infix_blank (by decide) (by decide) h with ⟨huser, _⟩ | h
  · exact absurd huser (by decide)
  rcases infix_blank (by decide) hname h with ⟨_, hword⟩ | h
  · exact absurd hword (by decide)
  · exact absurd h (by decide)

theorem loggedIn_on : loggedIn <:+: userNews name true :=
  ⟨ascii "User " ++ name ++ [SP], [], by simp [userNews]⟩

theorem loggedOff_off : loggedOff <:+: userNews name false :=
  ⟨ascii "User " ++ name ++ [SP], [], by simp [userNews]⟩

theorem userWord_userNews (hname : SP ∉ name) : userWord (userNews name on) = some name := by
  rw [userWord, userNews, List.append_assoc, cutStr_append, Option.map_some, cutAt_append hname]
  rfl

/-- What the system of a bouncer says of its user, as the first round rewrites it. -/
theorem linkText_userNews (irchost : CStr) (x : PartyName) (on : Bool) :
    linkText irchost ⟨systemLogin, ascii "PRIVMSG", clip 800 PARTYCHAN ++ ascii " ", userNews x.name on, none⟩ =
      if on then
        ⟨x.name, ascii "JOIN", [], PARTYCHAN, some (.add (clip 600 (x.name ++ AT :: irchost)))⟩
      else
        ⟨x.name, ascii "PART", PARTYCHAN ++ ascii " ", ascii "logged off",
          some (.remove (clip 600 (x.name ++ AT :: irchost)))⟩ := by
  have hname : clip 64 x.name = x.name := clip_eq_self x.short
  have hword : ∀ on, userWord (userNews x.name on) = some x.name := fun on => userWord_userNews x.blank
  cases on with
  | true =>
      have hoff : ¬ loggedOff <:+: PARTYCHAN := by decide
      simp only [linkText, if_pos loggedIn_on, hword, hname, if_neg hoff, if_true]
  | false =>
      have hchan : clip 800 PARTYCHAN = PARTYCHAN := clip_eq_self (by decide)
      simp only [linkText, if_neg (not_loggedIn_off x.blank), if_pos loggedOff_off, hword, hname, hchan,
        Bool.false_eq_true, if_false]
      rfl

theorem length_userNews_lt (x : PartyName) (on : Bool) : (userNews x.name on).length < 500 := by
  have hshort := x.short
  have hin : loggedIn.length = 10 := rfl
  have hoff : loggedOff.length = 11 := rfl
  have huser : (ascii "User ").length = 5 := rfl
  rw [userNews, List.length_append, List.length_append, List.length_cons, huser]
  cases on with
  | true =>
      rw [if_pos rfl, hin]
      omega
  | false =>
      rw [if_neg Bool.false_ne_true, hoff]
      omega

/-- The line that the other bouncer's text would be if its user said it. -/
def plainLine (irchost name : CStr) (on : Bool) : CStr :=
  (⟨name, ascii "PRIVMSG", PARTYCHAN ++ ascii " ", userNews name on, none⟩ : LinkText).line irchost

/-- Lines of one user with different commands; the names leave room for the first two bytes. -/
theorem line_ne (t t' : LinkText) (hnick : t'.ircnick = t.ircnick) (hshort : t.ircnick.length < 64)
    {irchost : CStr} (hhost : irchost.length < 200) (hlen : 2 ≤ t.command.length)
    (hlen' : 2 ≤ t'.command.length) (hcommand : t.command.take 2 ≠ t'.command.take 2) :
    t.line irchost ≠ t'.line irchost := by
  have hfront : ∃ front : CStr, front.length ≤ 531 ∧ ∀ t' : LinkText, t'.ircnick = t.ircnick →
      t'.line irchost = clip 600 (front ++ (t'.command ++ (ascii " " ++ t'.ircto ++ ascii ":" ++ t'.content))) := by
    refine ⟨ascii ":$" ++ t.ircnick ++ STAR :: irchost ++ ascii "!" ++ t.ircnick ++ AT :: irchost ++ ascii ". ",
      ?_, fun t' ht => ?_⟩
    · have h2 : (ascii ":$").length = 2 := rfl
      have h1 : (ascii "!").length = 1 := rfl
      have h2' : (ascii ". ").length = 2 := rfl
      simp only [List.length_append, List.length_cons, h2, h1, h2']
      omega
    · rw [LinkText.line, ht]
      simp only [List.append_assoc, List.cons_append]
  rcases hfront with ⟨front, hfront, hline⟩
  have hcut : ∀ t' : LinkText, t'.ircnick = t.ircnick → 2 ≤ t'.command.length →
      ((t'.line irchost).drop front.length).take 2 = t'.command.take 2 := by
    intro t' ht h2
    rw [hline t' ht, clip, List.take_append, List.take_of_length_le (l := front) (by omega), List.drop_left,
      List.take_take, Nat.min_eq_left (by omega), List.take_append_of_le_length h2]
  intro heq
  apply hcommand
  rw [← hcut t rfl hlen, ← hcut t' hnick hlen', heq]

theorem plainLine_ne (x : PartyName) {irchost : CStr} (hhost : irchost.length < 200) (on : Bool) :
    plainLine irchost x.name on ≠ newsLine irchost x.name on := by
  have hpriv : 2 ≤ (ascii "PRIVMSG").length := by decide
  cases on with
  | true =>
      have hjoin : 2 ≤ (ascii "JOIN").length := by decide
      have hne : (ascii "PRIVMSG").take 2 ≠ (ascii "JOIN").take 2 := by decide
      exact line_ne ⟨x.name, ascii "PRIVMSG", PARTYCHAN ++ ascii " ", userNews x.name true, none⟩
        ⟨x.name, ascii "JOIN", [], PARTYCHAN, none⟩ rfl x.short hhost hpriv hjoin hne
  | false =>
      have hpart : 2 ≤ (ascii "PART").length := by decide
      have hne : (ascii "PRIVMSG").take 2 ≠ (ascii "PART").take 2 := by decide
      exact line_ne ⟨x.name, ascii "PRIVMSG", PARTYCHAN ++ ascii " ", userNews x.name false, none⟩
        ⟨x.name, ascii "PART", PARTYCHAN ++ ascii " ", ascii "logged off", none⟩ rfl x.short hhost hpriv hpart hne

end News

section Rounds

variable {me irchost : CStr} {users : List PartyUser} {lost : CStr → List CStr} {x : PartyName} {on : Bool}
  {s : Linked} {u : PartyUser}

theorem linkRound_unvisited (hu : u.visited = false) (s : Linked) :
    linkRound me irchost users lost s u = .ok s := by
  rw [linkRound, ← PartyUser.visited, hu]
  rfl

/-- The user's name is taken for the system's when it is the same. -/
theorem system_iff (name : CStr) :
    (decide (name.length = 6) && decide (systemLogin <+: name)) = true ↔ name = systemLogin := by
  rw [Bool.and_eq_true, decide_eq_true_iff, decide_eq_true_iff]
  constructor
  · rintro ⟨hlen, hpre⟩
    exact (hpre.eq_of_length hlen.symm).symm
  · rintro rfl
    exact ⟨rfl, List.prefix_refl _⟩

/-- A round in the name of the system. -/
theorem linkRound_system (me irchost : CStr) (users : List PartyUser) (lost : CStr → List CStr)
    (hu : u.visited = true) (hs : s.ircnick = systemLogin)
    (hcontent : s.content = userNews x.name on) :
    ∃ s', linkRound me irchost users lost s u = .ok s' ∧ s'.ircnick = x.name ∧
      s'.content = userNews x.name on ∧
      s'.sent = s.sent ++ (if u.joined then [(u.uid, .message (newsLine irchost x.name on))] else []) ∧
      s'.rr = true ∧
      s'.partyusers =
        if s.rr then s.partyusers
        else (userEdit (clip 600 (x.name ++ AT :: irchost)) on).apply s.partyusers := by
  have hsys : (decide (systemLogin.length = 6) && decide (systemLogin <+: systemLogin)) = true :=
    (system_iff systemLogin).2 rfl
  have hclip : clip 500 (userNews x.name on) = userNews x.name on := clip_eq_self (length_userNews_lt x on)
  have htext := linkText_userNews irchost x on
  rw [linkRound, ← PartyUser.visited, hu]
  simp only [hs, hcontent, hclip, hsys, htext]
  cases on with
  | true =>
      have hlinked : ¬ ascii "Linked to " <+: PARTYCHAN := by decide
      have hlost : ¬ lostLink <+: PARTYCHAN := by decide
      simp only [if_true, hlinked, hlost, decide_false, Bool.and_false, Bool.false_eq_true, if_false]
      exact ⟨_, rfl, rfl, rfl, rfl, Bool.or_true _, rfl⟩
  | false =>
      have hlinked : ¬ ascii "Linked to " <+: ascii "logged off" := by decide
      have hlost : ¬ lostLink <+: ascii "logged off" := by decide
      simp only [if_true, hlinked, hlost, decide_false, Bool.and_false, Bool.false_eq_true, if_false]
      exact ⟨_, rfl, rfl, rfl, rfl, Bool.or_true _, rfl⟩

/-- A round in the name of the user. -/
theorem linkRound_plain (me irchost : CStr) (users : List PartyUser) (lost : CStr → List CStr)
    (hu : u.visited = true) (hs : s.ircnick = x.name) (hne : x.name ≠ systemLogin)
    (hcontent : s.content = userNews x.name on) :
    ∃ s', linkRound me irchost users lost s u = .ok s' ∧ s'.ircnick = x.name ∧
      s'.content = userNews x.name on ∧
      s'.sent = s.sent ++ (if u.joined then [(u.uid, .message (plainLine irchost x.name on))] else []) ∧
      s'.rr = s.rr ∧ s'.partyusers = s.partyusers := by
  have hsys : (decide (x.name.length = 6) && decide (systemLogin <+: x.name)) = false := by
    rw [Bool.eq_false_iff]
    exact fun h => hne ((system_iff _).1 h)
  have hclip : clip 500 (userNews x.name on) = userNews x.name on := clip_eq_self (length_userNews_lt x on)
  have hchan : clip 800 PARTYCHAN = PARTYCHAN := clip_eq_self (by decide)
  rw [linkRound, ← PartyUser.visited, hu]
  simp only [hsys, hs, hcontent, hclip, hchan]
  exact ⟨_, rfl, rfl, rfl, rfl, Bool.or_false _, rfl⟩

/-- The line of the rounds behind the first one. -/
def laterLine (irchost name : CStr) (on : Bool) : CStr :=
  if name = systemLogin then newsLine irchost name on else plainLine irchost name on

theorem linkRound_later (me irchost : CStr) (users : List PartyUser) (lost : CStr → List CStr)
    (hu : u.visited = true) (hs : s.ircnick = x.name)
    (hcontent : s.content = userNews x.name on) :
    ∃ s', linkRound me irchost users lost s u = .ok s' ∧ s'.ircnick = x.name ∧
      s'.content = userNews x.name on ∧
      s'.sent = s.sent ++ (if u.joined then [(u.uid, .message (laterLine irchost x.name on))] else []) ∧
      (s.rr = true → s'.rr = true ∧ s'.partyusers = s.partyusers) := by
  rw [laterLine]
  by_cases hname : x.name = systemLogin
  · rw [if_pos hname]
    rcases linkRound_system me irchost users lost hu (hs.trans hname) hcontent with
      ⟨s', hround, hnick, htext, hsent, hrr, hlist⟩
    refine ⟨s', hround, hnick, htext, hsent, fun h => ⟨hrr, ?_⟩⟩
    rw [hlist, h, if_pos rfl]
  · rw [if_neg hname]
    rcases linkRound_plain me irchost users lost hu hs hname hcontent with
      ⟨s', hround, hnick, htext, hsent, hrr, hlist⟩
    exact ⟨s', hround, hnick, htext, hsent, fun h => ⟨hrr.trans h, hlist⟩⟩

theorem joined_visited (h : u.joined = true) : u.visited = true := by
  rw [PartyUser.visited, h, Bool.true_or]

theorem filter_visited_joined (users : List PartyUser) :
    (users.filter PartyUser.visited).filter PartyUser.joined = users.filter PartyUser.joined := by
  rw [List.filter_filter]
  apply List.filter_congr
  intro v _
  cases hj : v.joined with
  | true =>
      rw [joined_visited hj, Bool.and_self]
  | false =>
      rfl

/-- The rounds behind the first one. -/
theorem linkRounds_later (me irchost : CStr) (users : List PartyUser) (lost : CStr → List CStr)
    (rest : List PartyUser) (hs : s.ircnick = x.name)
    (hcontent : s.content = userNews x.name on) :
    ∃ s', rest.foldlM (linkRound me irchost users lost) s = .ok s' ∧
      s'.sent = s.sent ++ (rest.filter PartyUser.joined).map
        (fun u => (u.uid, .message (laterLine irchost x.name on))) ∧
      (s.rr = true → s'.partyusers = s.partyusers) := by
  induction rest generalizing s with
  | nil =>
      exact ⟨s, rfl, (List.append_nil _).symm, fun _ => rfl⟩
  | cons u rest ih =>
      rw [List.foldlM_cons]
      by_cases hu : u.visited = true
      · rcases linkRound_later me irchost users lost hu hs hcontent with
          ⟨s₁, hround, hnick, htext, hsent, hlist⟩
        rcases ih hnick htext with ⟨s', hrest, hsent', hlist'⟩
        refine ⟨s', ?_, ?_, fun h => ?_⟩
        · rw [hround]
          exact hrest
        · rw [hsent', hsent, List.append_assoc]
          by_cases hj : u.joined = true
          · rw [if_pos hj, List.filter_cons_of_pos hj, List.map_cons, List.singleton_append]
          · rw [if_neg hj, List.filter_cons_of_neg hj, List.nil_append]
        · rw [hlist' (hlist h).1, (hlist h).2]
      · have hj : ¬ u.joined = true := fun h => hu (joined_visited h)
        rw [Bool.not_eq_true] at hu
        rcases ih hs hcontent with ⟨s', hrest, hsent', hlist⟩
        refine ⟨s', ?_, ?_, hlist⟩
        · rw [linkRound_unvisited hu]
          exact hrest
        · rw [hsent', List.filter_cons_of_neg hj]

/-- All rounds: the first user that is visited gets the news. -/
theorem linkRounds (me irchost : CStr) (users : List PartyUser) (lost : CStr → List CStr)
    (rest : List PartyUser) (x : PartyName) (on : Bool) (hs : s.ircnick = systemLogin)
    (hcontent : s.content = userNews x.name on) :
    ∃ s', rest.foldlM (linkRound me irchost users lost) s = .ok s' ∧
      s'.sent = s.sent ++ ((rest.filter PartyUser.visited).take 1).flatMap (fun u =>
          if u.joined then [(u.uid, .message (newsLine irchost x.name on))] else []) ++
        (((rest.filter PartyUser.visited).drop 1).filter PartyUser.joined).map
          (fun u => (u.uid, .message (laterLine irchost x.name on))) ∧
      (s.rr = false → s'.partyusers =
        if rest.any PartyUser.visited then
          (userEdit (clip 600 (x.name ++ AT :: irchost)) on).apply s.partyusers
        else s.partyusers) := by
  induction rest with
  | nil =>
      exact ⟨s, rfl, by simp, fun _ => rfl⟩
  | cons u rest ih =>
      rw [List.foldlM_cons]
      by_cases hu : u.visited = true
      · rcases linkRound_system me irchost users lost hu hs hcontent with
          ⟨s₁, hround, hnick, htext, hsent, hrr, hlist⟩
        rcases linkRounds_later me irchost users lost rest hnick htext with
          ⟨s', hrest, hsent', hlist'⟩
        refine ⟨s', ?_, ?_, fun h => ?_⟩
        · rw [hround]
          exact hrest
        · rw [hsent', hsent, List.filter_cons_of_pos hu, List.take_succ_cons, List.take_zero,
            List.flatMap_cons, List.flatMap_nil, List.append_nil, List.drop_succ_cons, List.drop_zero,
            filter_visited_joined]
        · rw [hlist' hrr, hlist, h, if_neg Bool.false_ne_true, List.any_cons, hu, Bool.true_or, if_pos rfl]
      · rw [Bool.not_eq_true] at hu
        rcases ih with ⟨s', hrest, hsent', hlist⟩
        refine ⟨s', ?_, ?_, fun h => ?_⟩
        · rw [linkRound_unvisited hu]
          exact hrest
        · rw [hsent', List.filter_cons_of_neg (by rw [hu]; exact Bool.false_ne_true)]
        · rw [hlist h, List.any_cons, hu, Bool.false_or]

end Rounds

/-- A linked bouncer says that its user has come or gone.  Everybody on the party line gets the same JOIN,
or PART, and nobody else gets anything, if and only if all rounds but the first are for nobody on the
party line, or the user has the name of the system. -/
theorem processParty_announces_iff (me irchost : CStr) (hhost : irchost.length < 200)
    (users : List PartyUser) (lost : CStr → List CStr) (x : PartyName) (on : Bool) (partyusers : List CStr) :
    (processParty me irchost users lost
        { ircnick := systemLogin, content := userNews x.name on, partyusers := partyusers }).sent =
      (users.filter PartyUser.joined).map (fun u => (u.uid, .message (newsLine irchost x.name on))) ↔
    x.name = systemLogin ∨ ∀ u ∈ (users.filter PartyUser.visited).drop 1, u.joined = false := by
  have hall := linkRounds me irchost users lost users x on
    (s := { ircnick := systemLogin, content := userNews x.name on, partyusers := partyusers }) rfl rfl
  rcases hall with ⟨s', hrounds, hsent, _⟩
  have hparty : processParty me irchost users lost
      { ircnick := systemLogin, content := userNews x.name on, partyusers := partyusers } = s' := by
    rw [processParty, hrounds]
  have hfirst : ∀ l : List PartyUser, l.flatMap (fun u =>
      if u.joined then [(u.uid, PartyLine.message (newsLine irchost x.name on))] else []) =
      (l.filter PartyUser.joined).map fun u => (u.uid, .message (newsLine irchost x.name on)) := by
    intro l
    induction l with
    | nil =>
        rfl
    | cons u l ih =>
        rw [List.flatMap_cons, ih]
        by_cases hj : u.joined = true
        · rw [if_pos hj, List.filter_cons_of_pos hj, List.map_cons, List.singleton_append]
        · rw [if_neg hj, List.filter_cons_of_neg hj, List.nil_append]
  rw [hparty, hsent, ← filter_visited_joined users]
  generalize users.filter PartyUser.visited = v
  conv_lhs => rhs; rw [← List.take_append_drop 1 v, List.filter_append, List.map_append]
  rw [List.nil_append, hfirst, List.append_cancel_left_eq]
  constructor
  · intro heq
    by_cases hname : x.name = systemLogin
    · exact Or.inl hname
    · refine Or.inr fun u hu => ?_
      by_contra hj
      rw [Bool.not_eq_false] at hj
      have hline := List.map_inj_left.1 heq u (List.mem_filter.2 ⟨hu, hj⟩)
      rw [laterLine, if_neg hname] at hline
      exact plainLine_ne x hhost on (PartyLine.message.inj (Prod.mk.inj hline).2)
  · rintro (hname | hnone)
    · rw [laterLine, if_pos hname]
    · have hnil : (v.drop 1).filter PartyUser.joined = [] := by
        rw [List.filter_eq_nil_iff]
        intro u hu hj
        rw [hnone u hu] at hj
        cases hj
      rw [hnil]
      rfl

/-- One user on the party line. -/
theorem processParty_announces_eve :
    (processParty (ascii "here") (ascii "there") [{ uid := 1, login := ascii "ann" }] (fun _ => [])
        { ircnick := systemLogin, content := userNews (ascii "eve") true, partyusers := [] }).sent =
      [(1, .message (newsLine (ascii "there") (ascii "eve") true))] :=
  (processParty_announces_iff (ascii "here") (ascii "there") (by decide)
    [{ uid := 1, login := ascii "ann" }] (fun _ => []) ⟨ascii "eve", by decide, by decide⟩ true []).2
    (Or.inr (by decide))

/-- Of two users on the party line the second is told that eve says so. -/
theorem processParty_second_user :
    (processParty (ascii "here") (ascii "there")
        [{ uid := 1, login := ascii "ann" }, { uid := 2, login := ascii "bob" }] (fun _ => [])
        { ircnick := systemLogin, content := userNews (ascii "eve") true, partyusers := [] }).sent =
      [(1, .message (ascii ":$eve*there!eve@there. JOIN :&partyline")),
        (2, .message (ascii ":$eve*there!eve@there. PRIVMSG &partyline :User eve logged in."))] ∧
      (processParty (ascii "here") (ascii "there")
        [{ uid := 1, login := ascii "ann" }, { uid := 2, login := ascii "bob" }] (fun _ => [])
        { ircnick := systemLogin, content := userNews (ascii "eve") true, partyusers := [] }).sent ≠
      [(1, .message (newsLine (ascii "there") (ascii "eve") true)),
        (2, .message (newsLine (ascii "there") (ascii "eve") true))] := by
  decide +kernel

end PsyBnc
