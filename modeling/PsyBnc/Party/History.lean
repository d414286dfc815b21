import PsyBnc.Lib.Latest
import PsyBnc.Party.Fanout
import PsyBnc.Party.Remote

/-!
# Who is on the party line

The list over whole runs.  News of a local user, and of a link that is lost, change it in the rounds of
`querybounce`, news from a link in those of `processlink`; a message that no round hears changes nothing.
-/

namespace PsyBnc

open CLib

/-- A user name with nothing in it that separates user and bouncer. -/
structure PartyUserName extends PartyName where
  star : STAR ∉ name
  host : AT ∉ name
  deriving DecidableEq

/-- The name of another bouncer, as it fits into `iam[64]`. -/
structure LinkedBouncer (me : CStr) where
  name : CStr
  blank : SP ∉ name
  star : STAR ∉ name
  paren : PAREN ∉ name
  short : name.length < 64
  other : name ≠ me

theorem LinkedBouncer.eq_of_name {me : CStr} {one two : LinkedBouncer me} (h : one.name = two.name) : one = two := by
  cases one
  cases two
  simp only at h
  subst h
  rfl

instance (me : CStr) : DecidableEq (LinkedBouncer me) := fun one two =>
  decidable_of_iff (one.name = two.name) ⟨LinkedBouncer.eq_of_name, congrArg LinkedBouncer.name⟩

/-- A user on the party line, of this bouncer when there is no other. -/
structure PartyKey (me : CStr) where
  user : PartyUserName
  bouncer : Option (LinkedBouncer me)
  deriving DecidableEq

/-- `User %s logged in.`, or `logged off.`, and `Lost Link (%s)`, from here or from a link.  `servers` are those
that `removetopology` finds lost. -/
inductive PartyNews (me : CStr) where
  | user (k : PartyKey me) (on : Bool)
  | lost (b : LinkedBouncer me) (link : Option CStr) (servers : List (LinkedBouncer me))

/-- News, and who is there when they come. -/
structure PartyStep (me : CStr) where
  users : List PartyUser
  news : PartyNews me

section Definitions

variable {me : CStr}

def PartyKey.entry (k : PartyKey me) : CStr :=
  DOLLAR :: (k.user.name ++ k.bouncer.elim [] fun b => STAR :: b.name)

/-- Whether the bouncer of a user is one of these. -/
def PartyKey.lostWith (bs : List (LinkedBouncer me)) (k : PartyKey me) : Bool :=
  k.bouncer.any fun c => decide (c ∈ bs)

def linkNews (name : CStr) : CStr := lostLink ++ name ++ [PAREN]

/-- What becomes of the list, `killedlink` or `errorlink` with their call of `removetopology` included. -/
def partyStep (l : List CStr) (s : PartyStep me) : List CStr :=
  match s.news with
  | .user ⟨x, none⟩ on => (sysparty me (userNews x.name on) s.users l).partyusers
  | .user ⟨x, some b⟩ on =>
      (processParty me b.name s.users (fun _ => [])
        { ircnick := systemLogin, content := userNews x.name on, partyusers := l }).partyusers
  | .lost b none servers =>
      servers.foldl (fun l c => (partylinklost me c.name s.users l).1)
        (sysparty me (linkNews b.name) s.users l).partyusers
  | .lost b (some irchost) servers =>
      (processParty me irchost s.users (fun _ => servers.map LinkedBouncer.name)
        { ircnick := systemLogin, content := linkNews b.name, partyusers := l }).partyusers

/-- A run from the empty list the bouncer starts with. -/
def partyRun (steps : List (PartyStep me)) : List CStr := steps.foldl partyStep []

/-- There is a round in `querybounce`. -/
def heardHere (users : List PartyUser) : Bool := (List.range' 1 (MAXUSER - 1)).any (reached users)

/-- There is a round that takes notice, or `removetopology` finds the link. -/
def PartyStep.heard (s : PartyStep me) : Bool :=
  match s.news with
  | .user ⟨_, none⟩ _ => heardHere s.users
  | .user ⟨_, some _⟩ _ => s.users.any PartyUser.visited
  | .lost b none servers => heardHere s.users || decide (b ∈ servers)
  | .lost b (some _) servers => s.users.any PartyUser.visited && decide (b ∈ servers)

/-- What the news say of a user. -/
def PartyStep.tells (s : PartyStep me) (j : PartyKey me) : Option Bool :=
  match s.news with
  | .user k on => if j = k then some on else none
  | .lost b _ servers => if j.lostWith (b :: servers) = true then some false else none

/-- The list has the users whose latest news are that they have come, each once. -/
def ListsPresent (steps : List (PartyStep me)) (l : List CStr) : Prop :=
  l.Nodup ∧ ∀ entry, entry ∈ l ↔ ∃ k, latest PartyStep.tells steps k = true ∧ k.entry = entry

end Definitions

/-! ## Entries -/

section Entries

variable {me : CStr}

theorem LinkedBouncer.name_injective : Function.Injective (@LinkedBouncer.name me) := by
  intro b c h
  rcases b with ⟨_, _, _, _, _, _⟩
  rcases c with ⟨_, _, _, _, _, _⟩
  cases h
  rfl

theorem dollar_name (x : PartyUserName) : STAR ∉ DOLLAR :: x.name := by
  rw [List.mem_cons]
  rintro (h | h)
  · exact absurd h (by decide)
  · exact x.star h

theorem cutAt_entry (k : PartyKey me) :
    cutAt STAR k.entry = k.bouncer.map fun b => (DOLLAR :: k.user.name, b.name) := by
  have hfront := dollar_name k.user
  rw [PartyKey.entry]
  cases k.bouncer with
  | none =>
      rw [Option.elim_none, List.append_nil, cutAt_eq_none.2 hfront]
      rfl
  | some b =>
      rw [Option.elim_some, ← List.cons_append, cutAt_append hfront]
      rfl

theorem entry_injective : Function.Injective (@PartyKey.entry me) := by
  intro j k h
  have hcut : cutAt STAR j.entry = cutAt STAR k.entry := congrArg (cutAt STAR) h
  rw [cutAt_entry, cutAt_entry] at hcut
  rcases j with ⟨⟨⟨x, _, _⟩, _, _⟩, c⟩
  rcases k with ⟨⟨⟨y, _, _⟩, _, _⟩, d⟩
  cases c with
  | none =>
      cases d with
      | none =>
          rw [PartyKey.entry, PartyKey.entry, Option.elim_none, List.append_nil, List.append_nil] at h
          cases h
          rfl
      | some d =>
          cases hcut
  | some c =>
      cases d with
      | none =>
          cases hcut
      | some d =>
          have hpair := Option.some.inj hcut
          rw [Prod.mk.injEq] at hpair
          cases hpair.1
          cases LinkedBouncer.name_injective hpair.2
          rfl

/-- The name that the edits of the list are made of. -/
def PartyKey.xuser (k : PartyKey me) : CStr := k.user.name ++ k.bouncer.elim [] fun b => AT :: b.name

theorem clip_starred_xuser (k : PartyKey me) : clip 200 (DOLLAR :: starred k.xuser) = k.entry := by
  have hshort := k.user.short
  have hstarred : DOLLAR :: starred k.xuser = k.entry := by
    rw [PartyKey.xuser, PartyKey.entry, starred]
    cases k.bouncer with
    | none =>
        rw [Option.elim_none, Option.elim_none, List.append_nil, cutAt_eq_none.2 k.user.host]
    | some b =>
        rw [Option.elim_some, Option.elim_some, cutAt_append k.user.host]
  rw [hstarred]
  apply clip_eq_self
  rw [PartyKey.entry, List.length_cons, List.length_append]
  cases k.bouncer with
  | none =>
      rw [Option.elim_none, List.length_nil]
      omega
  | some b =>
      have hb := b.short
      rw [Option.elim_some, List.length_cons]
      omega

theorem partyremoveLoop_eq (buf : CStr) (pre l : List CStr) :
    partyremoveLoop buf pre l = if buf ∈ l then some (pre ++ l.erase buf) else none := by
  induction l generalizing pre with
  | nil =>
      rfl
  | cons lkm l ih =>
      rw [partyremoveLoop]
      by_cases h : lkm = buf
      · rw [if_pos (strmcmp_iff.2 h), h, if_pos List.mem_cons_self, List.erase_cons_head]
      · have hne : (lkm == buf) = false := by simpa using h
        rw [if_neg (fun h' => h (strmcmp_iff.1 h')), ih, List.erase_cons_tail (by simpa using h),
          List.append_assoc, List.singleton_append]
        simp [Ne.symm h]

theorem partyremove_eq (xuser : CStr) (l : List CStr) :
    (partyremove xuser l).1 = l.erase (clip 200 (DOLLAR :: starred xuser)) := by
  simp only [partyremove, partyremoveLoop_eq, List.nil_append]
  by_cases h : clip 200 (DOLLAR :: starred xuser) ∈ l
  · rw [if_pos h]
  · rw [if_neg h, List.erase_of_not_mem h]

theorem userEdit_apply (k : PartyKey me) (on : Bool) (keys : List (PartyKey me)) :
    (userEdit k.xuser on).apply (keys.map PartyKey.entry) =
      (if on then keys.erase k ++ [k] else keys.erase k).map PartyKey.entry := by
  have herase : (partyremove k.xuser (keys.map PartyKey.entry)).1 = (keys.erase k).map PartyKey.entry := by
    rw [partyremove_eq, clip_starred_xuser, List.map_erase entry_injective]
  cases on with
  | true =>
      rw [userEdit, if_pos rfl, if_pos rfl, PartyEdit.apply, partyadd, addstring, herase, clip_starred_xuser,
        List.map_append]
      rfl
  | false =>
      rw [userEdit, if_neg Bool.false_ne_true, if_neg Bool.false_ne_true, PartyEdit.apply, herase]

theorem entryEnds_entry (b : LinkedBouncer me) (k : PartyKey me) :
    entryEnds (STAR :: b.name) k.entry = k.lostWith [b] := by
  have hfront := dollar_name k.user
  rw [entryEnds, PartyKey.lostWith]
  cases hbouncer : k.bouncer with
  | none =>
      rw [Option.any_none]
      cases hcut : cutStr (STAR :: b.name) k.entry with
      | none =>
          rfl
      | some p =>
          -- without a bouncer there is no `*`
          exfalso
          have hmem : STAR ∈ k.entry := by
            rw [(cutStr_first hcut).1]
            simp
          rw [PartyKey.entry, hbouncer, Option.elim_none, List.append_nil] at hmem
          exact hfront hmem
  | some c =>
      have hentry : k.entry = (DOLLAR :: k.user.name) ++ STAR :: c.name := by
        rw [PartyKey.entry, hbouncer, Option.elim_some, List.cons_append]
      have hmem : c ∈ [b] ↔ c.name = b.name := by
        rw [List.mem_singleton]
        exact ⟨congrArg LinkedBouncer.name, fun h => LinkedBouncer.name_injective h⟩
      rw [Option.any_some, decide_eq_decide.2 hmem]
      cases hcut : cutStr (STAR :: b.name) k.entry with
      | none =>
          have hne : c.name ≠ b.name := by
            intro h
            apply cutStr_eq_none hcut (DOLLAR :: k.user.name) []
            rw [hentry, h, List.append_nil]
          exact (decide_eq_false hne).symm
      | some p =>
          rcases p with ⟨x, t⟩
          have hsplit := (cutStr_first hcut).1
          rw [hentry, List.append_assoc, List.cons_append] at hsplit
          rcases append_cons_cases hsplit.symm hfront with ⟨_, ht⟩ | ⟨w, _, hw⟩
          · rw [← ht]
            cases t with
            | nil =>
                simp
            | cons y t =>
                simp
          · exact absurd (hw ▸ List.mem_append_right w List.mem_cons_self) c.star

theorem linklostLoop_eq (eb : CStr) (pre l : List CStr) :
    (linklostLoop eb pre l).1 = pre ++ l.filter fun entry => !entryEnds eb entry := by
  induction l generalizing pre with
  | nil =>
      rw [linklostLoop, List.filter_nil, List.append_nil]
  | cons lkm l ih =>
      rw [linklostLoop]
      by_cases h : entryEnds eb lkm = true
      · rw [if_pos h, ih, List.filter_cons_of_neg (by simp [h])]
      · rw [if_neg h, ih, List.filter_cons_of_pos (by simpa using h), List.append_assoc, List.singleton_append]

theorem linklostLoop_map (b : LinkedBouncer me) (keys : List (PartyKey me)) :
    (linklostLoop (STAR :: b.name) [] (keys.map PartyKey.entry)).1 =
      (keys.filter fun k => !k.lostWith [b]).map PartyKey.entry := by
  rw [linklostLoop_eq, List.nil_append, List.filter_map]
  congr 1
  apply List.filter_congr
  intro k _
  rw [Function.comp_apply, entryEnds_entry]

theorem partylinklost_map (b : LinkedBouncer me) (users : List PartyUser) (keys : List (PartyKey me)) :
    (partylinklost me b.name users (keys.map PartyKey.entry)).1 =
      (keys.filter fun k => !k.lostWith [b]).map PartyKey.entry := by
  have hme : ¬ strmcmp me b.name = true := fun h => b.other (strmcmp_iff.1 h).symm
  have hclip : clip 100 (STAR :: b.name) = STAR :: b.name := by
    apply clip_eq_self
    have hb := b.short
    rw [List.length_cons]
    omega
  rw [partylinklost, if_neg hme]
  simp only [hclip]
  exact linklostLoop_map b keys

end Entries

/-! ## Rounds -/

section Rounds

variable {me : CStr} {users : List PartyUser} {u : PartyUser} {s : Bounce} {x : PartyName} {on : Bool}
  {b : LinkedBouncer me}

theorem no_news_of_link (word : CStr) (b : LinkedBouncer me) :
    ¬ ascii "logged" ++ SP :: word <:+: linkNews b.name := by
  have htext : linkNews b.name =
      ascii "Lost" ++ SP :: (ascii "Link" ++ SP :: (ascii "(" ++ b.name ++ [PAREN])) := by
    simp [linkNews, lostLink, ascii]
  intro h
  rw [htext] at h
  rcases infix_blank (by decide) (by decide) h with ⟨hlost, _⟩ | h
  · exact absurd hlost (by decide)
  rcases infix_blank (by decide) (by decide) h with ⟨hlink, _⟩ | h
  · exact absurd hlink (by decide)
  · have hmem : SP ∈ ascii "(" ++ b.name ++ [PAREN] :=
      h.mem (List.mem_append_right _ List.mem_cons_self)
    rw [List.mem_append, List.mem_append] at hmem
    rcases hmem with (h | h) | h
    · exact absurd h (by decide)
    · exact b.blank h
    · exact absurd h (by decide)

theorem not_loggedIn_link (b : LinkedBouncer me) : ¬ loggedIn <:+: linkNews b.name :=
  no_news_of_link (ascii "in.") b

theorem not_loggedOff_link (b : LinkedBouncer me) : ¬ loggedOff <:+: linkNews b.name :=
  no_news_of_link (ascii "off.") b

theorem systemText_userNews (x : PartyName) (on : Bool) (login command ircto : CStr) :
    systemText ⟨login, command, ircto, userNews x.name on⟩ =
      (if on then (⟨x.name, ascii "JOIN", [], PARTYCHAN⟩ : PartyText)
        else ⟨x.name, ascii "PART", ircto, loggedOff⟩, some (userEdit x.name on)) := by
  have hshort := x.short
  have hcut : ∀ on, cutAt SP ((userNews x.name on).drop 5) =
      some (x.name, if on then loggedIn else loggedOff) := by
    intro on
    have hdrop : (userNews x.name on).drop 5 = x.name ++ SP :: (if on then loggedIn else loggedOff) := by
      rw [userNews, List.append_assoc]
      rfl
    rw [hdrop, cutAt_append x.blank]
  have h64 : clip 64 x.name = x.name := clip_eq_self hshort
  have h4096 : clip 4096 x.name = x.name := clip_eq_self (by omega)
  cases on with
  | true =>
      simp only [systemText, if_pos loggedIn_on, loggedInText, hcut, h64, h4096, if_neg not_loggedOff_partychan,
        userEdit, if_true]
  | false =>
      simp only [systemText, if_neg (not_loggedIn_off x.blank), if_pos loggedOff_off, loggedOffText, hcut, h64,
        h4096, userEdit, Bool.false_eq_true, if_false]
      rfl

/-- A round with news of a user: the list is changed if no earlier round did it. -/
theorem partyRound_user (me : CStr) (u : PartyUser) (hcontent : s.content = userNews x.name on) :
    (partyRound me systemLogin 0 u s).partyusers =
        (if s.rr then s.partyusers else (userEdit x.name on).apply s.partyusers) ∧
      (partyRound me systemLogin 0 u s).rr = true ∧
      (partyRound me systemLogin 0 u s).content = userNews x.name on := by
  have hsys : strmcmp systemLogin systemLogin = true := by decide
  have hclip : clip 500 (userNews x.name on) = userNews x.name on := clip_eq_self (length_userNews_lt x on)
  have hlost : ¬ lostLink <+: (if on then (⟨x.name, ascii "JOIN", [], PARTYCHAN⟩ : PartyText)
      else ⟨x.name, ascii "PART", clip 800 PARTYCHAN ++ ascii " ", loggedOff⟩).content := by
    cases on with
    | true =>
        have hchan : ¬ lostLink <+: PARTYCHAN := by decide
        exact hchan
    | false =>
        have hoff : ¬ lostLink <+: loggedOff := by decide
        exact hoff
  rw [partyRound, hcontent, hsys]
  simp only [if_true, systemText_userNews, hlost, hclip, Bool.true_and, decide_false, Bool.false_eq_true, if_false,
    Option.isSome_some, Bool.or_true]
  exact ⟨trivial, trivial, trivial⟩

/-- A round with news of a link. -/
theorem partyRound_link (hcontent : s.content = linkNews b.name) :
    (partyRound me systemLogin 0 u s).partyusers = (linklostLoop (STAR :: b.name) [] s.partyusers).1 ∧
      (partyRound me systemLogin 0 u s).content = linkNews b.name := by
  have hsys : strmcmp systemLogin systemLogin = true := by decide
  have hshort := b.short
  have hlen : (linkNews b.name).length < 500 := by
    have h11 : lostLink.length = 11 := rfl
    rw [linkNews, List.length_append, List.length_append, h11, List.length_singleton]
    omega
  have hclip : clip 500 (linkNews b.name) = linkNews b.name := clip_eq_self hlen
  have hprefix : lostLink <+: linkNews b.name := by
    rw [linkNews, List.append_assoc]
    exact List.prefix_append _ _
  have hname : ((cutAt PAREN (clip 4096 (STAR :: (linkNews b.name).drop 11))).map Prod.fst).getD
      (clip 4096 (STAR :: (linkNews b.name).drop 11)) = STAR :: b.name := by
    have hdrop : (linkNews b.name).drop 11 = b.name ++ [PAREN] := by
      rw [linkNews, List.append_assoc]
      rfl
    have hclip' : clip 4096 (STAR :: (b.name ++ [PAREN])) = (STAR :: b.name) ++ PAREN :: [] := by
      rw [List.cons_append]
      apply clip_eq_self
      rw [List.length_cons, List.length_append, List.length_singleton]
      omega
    have hparen : PAREN ∉ STAR :: b.name := by
      rw [List.mem_cons]
      rintro (h | h)
      · exact absurd h (by decide)
      · exact b.paren h
    rw [hdrop, hclip', cutAt_append hparen]
    rfl
  rw [partyRound, hcontent, hsys]
  simp only [if_true, systemText, if_neg (not_loggedIn_link b), if_neg (not_loggedOff_link b), hprefix,
    decide_true, Bool.and_self, hname, hclip]
  exact ⟨trivial, trivial⟩

theorem reached_round (me : CStr) {rc : Nat} (h : reached users rc = true) (s : Bounce) :
    ∃ u, allRound me systemLogin 0 users s rc = partyRound me systemLogin 0 u s := by
  rw [reached] at h
  rw [allRound]
  cases huser : partyUser users rc with
  | none =>
      rw [huser] at h
      cases h
  | some u =>
      rw [huser, Option.any_some] at h
      exact ⟨u, if_pos h⟩

/-- The rounds with news of a user. -/
theorem rounds_user (me : CStr) (users : List PartyUser) (rcs : List Nat)
    (hcontent : s.content = userNews x.name on) :
    (rcs.foldl (allRound me systemLogin 0 users) s).partyusers =
      if !s.rr && rcs.any (reached users) then (userEdit x.name on).apply s.partyusers else s.partyusers := by
  induction rcs generalizing s with
  | nil =>
      rw [List.foldl_nil, List.any_nil, Bool.and_false, if_neg Bool.false_ne_true]
  | cons rc rcs ih =>
      rw [List.foldl_cons, List.any_cons]
      cases hreach : reached users rc with
      | false =>
          rw [allRound_of_not_reached hreach, ih hcontent, Bool.false_or]
      | true =>
          rcases reached_round me hreach s with ⟨u, hu⟩
          rcases partyRound_user me u hcontent with ⟨hlist, hrr, htext⟩
          rw [hu, ih htext, hrr, Bool.not_true, Bool.false_and, if_neg Bool.false_ne_true, hlist, Bool.true_or,
            Bool.and_true]
          cases s.rr with
          | true =>
              rfl
          | false =>
              rfl

/-- The rounds with news of a link. -/
theorem rounds_link (me : CStr) (users : List PartyUser) {b : LinkedBouncer me} (rcs : List Nat)
    (hcontent : s.content = linkNews b.name) :
    (rcs.foldl (allRound me systemLogin 0 users) s).partyusers =
      if rcs.any (reached users) then (linklostLoop (STAR :: b.name) [] s.partyusers).1 else s.partyusers := by
  induction rcs generalizing s with
  | nil =>
      rfl
  | cons rc rcs ih =>
      rw [List.foldl_cons, List.any_cons]
      cases hreach : reached users rc with
      | false =>
          rw [allRound_of_not_reached hreach, ih hcontent, Bool.false_or]
      | true =>
          rcases reached_round me hreach s with ⟨u, hu⟩
          rcases partyRound_link (u := u) hcontent with ⟨hlist, htext⟩
          rw [hu, ih htext, hlist, Bool.true_or, if_pos rfl]
          split
          · -- a second time there is nothing left to take out
            simp only [linklostLoop_eq, List.nil_append, List.filter_filter, Bool.and_self]
          · rfl

end Rounds

/-! ## Steps -/

section Steps

variable {me : CStr} {users : List PartyUser}

theorem toAll_system : ToAll (ascii "$$") := by decide

theorem sysparty_user (k : PartyKey me) (hlocal : k.bouncer = none) (on : Bool) (users : List PartyUser)
    (keys : List (PartyKey me)) :
    (sysparty me (userNews k.user.name on) users (keys.map PartyKey.entry)).partyusers =
      (if heardHere users = true then if on then keys.erase k ++ [k] else keys.erase k else keys).map
        PartyKey.entry := by
  have hshort := length_userNews_lt k.user.toPartyName on
  have hclip : clip 6000 (userNews k.user.name on) = userNews k.user.name on := clip_eq_self (by omega)
  have hname : k.xuser = k.user.name := by
    rw [PartyKey.xuser, hlocal, Option.elim_none, List.append_nil]
  rw [sysparty, querybounce_toAll toAll_system, hclip, rounds_user me users _ rfl, ← hname, userEdit_apply]
  rw [Bool.not_false, Bool.true_and, heardHere]
  split
  · rfl
  · rfl

theorem sysparty_link (b : LinkedBouncer me) (users : List PartyUser) (keys : List (PartyKey me)) :
    (sysparty me (linkNews b.name) users (keys.map PartyKey.entry)).partyusers =
      (if heardHere users = true then keys.filter fun k => !k.lostWith [b] else keys).map PartyKey.entry := by
  have hshort := b.short
  have hclip : clip 6000 (linkNews b.name) = linkNews b.name := by
    apply clip_eq_self
    have h11 : lostLink.length = 11 := rfl
    rw [linkNews, List.length_append, List.length_append, h11, List.length_singleton]
    omega
  rw [sysparty, querybounce_toAll toAll_system, hclip, rounds_link me users _ rfl, linklostLoop_map, heardHere]
  split
  · rfl
  · rfl

theorem lostWith_append (bs cs : List (LinkedBouncer me)) (k : PartyKey me) :
    k.lostWith (bs ++ cs) = (k.lostWith bs || k.lostWith cs) := by
  rw [PartyKey.lostWith, PartyKey.lostWith, PartyKey.lostWith]
  cases k.bouncer with
  | none =>
      rfl
  | some c =>
      simp

/-- The calls of `lostlink`, one server after the other. -/
theorem lostlinks_map (users : List PartyUser) (servers : List (LinkedBouncer me)) (keys : List (PartyKey me)) :
    servers.foldl (fun l c => (partylinklost me c.name users l).1) (keys.map PartyKey.entry) =
      (keys.filter fun k => !k.lostWith servers).map PartyKey.entry := by
  induction servers generalizing keys with
  | nil =>
      have hall : (keys.filter fun k => !k.lostWith []) = keys := by
        rw [List.filter_eq_self]
        intro k _
        rw [PartyKey.lostWith]
        cases k.bouncer <;> simp
      rw [List.foldl_nil, hall]
  | cons c servers ih =>
      rw [List.foldl_cons, partylinklost_map, ih, List.filter_filter]
      congr 2
      funext k
      have happend := lostWith_append [c] servers k
      rw [List.singleton_append] at happend
      rw [happend, Bool.not_or, Bool.and_comm]

theorem processParty_user (k : PartyKey me) {b : LinkedBouncer me} (hremote : k.bouncer = some b) (on : Bool)
    (users : List PartyUser) (keys : List (PartyKey me)) :
    (processParty me b.name users (fun _ => [])
        { ircnick := systemLogin, content := userNews k.user.name on,
          partyusers := keys.map PartyKey.entry }).partyusers =
      (if users.any PartyUser.visited = true then if on then keys.erase k ++ [k] else keys.erase k
        else keys).map PartyKey.entry := by
  have hshort := k.user.short
  have hb := b.short
  have hname : clip 600 (k.user.name ++ AT :: b.name) = k.xuser := by
    rw [PartyKey.xuser, hremote, Option.elim_some]
    apply clip_eq_self
    rw [List.length_append, List.length_cons]
    omega
  have hall := linkRounds me b.name users (fun _ => []) users k.user.toPartyName on
    (s := { ircnick := systemLogin, content := userNews k.user.name on,
            partyusers := keys.map PartyKey.entry }) rfl rfl
  rcases hall with ⟨s', hrounds, _, hlist⟩
  rw [processParty, hrounds]
  simp only
  rw [hlist rfl, hname, userEdit_apply]
  split
  · rfl
  · rfl

/-- A call of `lostlink` in a round. -/
def Linked.lostlink (me : CStr) (users : List PartyUser) (s : Linked) (server : CStr) : Linked :=
  let done := partylinklost me server users s.partyusers
  { s with partyusers := done.1, sent := s.sent ++ done.2 }

theorem lostlinks_ircnick (users : List PartyUser) (servers : List CStr) (s : Linked) :
    (servers.foldl (Linked.lostlink me users) s).ircnick = s.ircnick := by
  induction servers generalizing s with
  | nil =>
      rfl
  | cons c servers ih =>
      rw [List.foldl_cons, ih]
      rfl

theorem lostlinks_partyusers (users : List PartyUser) (servers : List CStr) (s : Linked) :
    (servers.foldl (Linked.lostlink me users) s).partyusers =
      servers.foldl (fun l c => (partylinklost me c users l).1) s.partyusers := by
  induction servers generalizing s with
  | nil =>
      rfl
  | cons c servers ih =>
      rw [List.foldl_cons, ih]
      rfl

/-- A round of a link with news of another one. -/
theorem linkRound_link (me irchost : CStr) (users : List PartyUser) (lost : CStr → List CStr) {u : PartyUser}
    {s : Linked} {b : LinkedBouncer me} (hu : u.visited = true) (hs : s.ircnick = systemLogin)
    (hcontent : s.content = linkNews b.name) :
    ∃ s', linkRound me irchost users lost s u = .ok s' ∧ s'.ircnick = systemLogin ∧
      s'.content = linkNews b.name ∧
      s'.partyusers = (lost b.name).foldl (fun l c => (partylinklost me c users l).1) s.partyusers := by
  have hsys : (decide (systemLogin.length = 6) && decide (systemLogin <+: systemLogin)) = true :=
    (system_iff systemLogin).2 rfl
  have htext : ∀ t : LinkText, t.content = linkNews b.name → linkText irchost t = t := by
    intro t ht
    rw [linkText]
    simp only [ht, if_neg (not_loggedIn_link b), if_neg (not_loggedOff_link b)]
  have hlinked : ¬ ascii "Linked to " <+: linkNews b.name := by
    rintro ⟨t, h⟩
    cases congrArg (List.take 2) h
  have hlost : lostLink <+: linkNews b.name := by
    rw [linkNews, List.append_assoc]
    exact List.prefix_append _ _
  have hname : ((cutAt PAREN ((linkNews b.name).drop 11)).map Prod.fst).getD ((linkNews b.name).drop 11) =
      b.name := by
    have hdrop : (linkNews b.name).drop 11 = b.name ++ PAREN :: [] := by
      rw [linkNews, List.append_assoc]
      rfl
    rw [hdrop, cutAt_append b.paren]
    rfl
  have hshort := b.short
  have hclip : clip 500 (linkNews b.name) = linkNews b.name := by
    apply clip_eq_self
    have h11 : lostLink.length = 11 := rfl
    rw [linkNews, List.length_append, List.length_append, h11, List.length_singleton]
    omega
  rw [linkRound, ← PartyUser.visited, hu]
  simp only [hs, hcontent, hsys, htext, hclip, hname, if_true, hlinked, hlost, decide_false, decide_true,
    Bool.and_false, Bool.and_self, Bool.not_true, Bool.false_eq_true, if_false]
  refine ⟨_, rfl, ?_, rfl, ?_⟩
  · exact lostlinks_ircnick users (lost b.name) _
  · exact lostlinks_partyusers users (lost b.name) _

theorem processParty_link (irchost : CStr) (b : LinkedBouncer me) (servers : List (LinkedBouncer me))
    (users : List PartyUser) (keys : List (PartyKey me)) :
    (processParty me irchost users (fun _ => servers.map LinkedBouncer.name)
        { ircnick := systemLogin, content := linkNews b.name,
          partyusers := keys.map PartyKey.entry }).partyusers =
      (if users.any PartyUser.visited = true then keys.filter fun k => !k.lostWith servers
        else keys).map PartyKey.entry := by
  have hrounds : ∀ (rest : List PartyUser) (s : Linked) (keys : List (PartyKey me)),
      s.ircnick = systemLogin → s.content = linkNews b.name → s.partyusers = keys.map PartyKey.entry →
      ∃ s', rest.foldlM (linkRound me irchost users fun _ => servers.map LinkedBouncer.name) s = .ok s' ∧
        s'.partyusers = (if rest.any PartyUser.visited = true then keys.filter fun k => !k.lostWith servers
          else keys).map PartyKey.entry := by
    intro rest
    induction rest with
    | nil =>
        intro s keys _ _ hlist
        exact ⟨s, rfl, hlist⟩
    | cons u rest ih =>
        intro s keys hs hcontent hlist
        rw [List.foldlM_cons, List.any_cons]
        cases hu : u.visited with
        | false =>
            rcases ih s keys hs hcontent hlist with ⟨s', hrest, hlist'⟩
            refine ⟨s', ?_, ?_⟩
            · rw [linkRound_unvisited hu]
              exact hrest
            · rw [Bool.false_or]
              exact hlist'
        | true =>
            rcases linkRound_link me irchost users (fun _ => servers.map LinkedBouncer.name) hu hs hcontent with
              ⟨s₁, hround, hnick, htext, hlist₁⟩
            rw [hlist, List.foldl_map, lostlinks_map] at hlist₁
            rcases ih s₁ _ hnick htext hlist₁ with ⟨s', hrest, hlist'⟩
            refine ⟨s', ?_, ?_⟩
            · rw [hround]
              exact hrest
            · rw [hlist', Bool.true_or, if_pos rfl, List.filter_filter]
              split
              · simp only [Bool.and_self]
              · rfl
  rcases hrounds users { ircnick := systemLogin, content := linkNews b.name,
                         partyusers := keys.map PartyKey.entry } keys rfl rfl rfl with ⟨s', hall, hlist⟩
  rw [processParty, hall]
  exact hlist

/-- What the news make of the users on the party line, when there is a round for them. -/
def PartyStep.follow (keys : List (PartyKey me)) (s : PartyStep me) : List (PartyKey me) :=
  match s.news with
  | .user k on => if on then keys.erase k ++ [k] else keys.erase k
  | .lost b _ servers => keys.filter fun k => !k.lostWith (b :: servers)

theorem partyStep_map {s : PartyStep me} (hheard : s.heard = true) (keys : List (PartyKey me)) :
    partyStep (keys.map PartyKey.entry) s = (s.follow keys).map PartyKey.entry := by
  rcases s with ⟨users, news⟩
  cases news with
  | user k on =>
      rcases k with ⟨x, bouncer⟩
      cases bouncer with
      | none =>
          have hhere : heardHere users = true := hheard
          have hlist := sysparty_user ⟨x, none⟩ rfl on users keys
          rw [if_pos hhere] at hlist
          exact hlist
      | some b =>
          have hthere : users.any PartyUser.visited = true := hheard
          have hlist := processParty_user ⟨x, some b⟩ rfl on users keys
          rw [if_pos hthere] at hlist
          exact hlist
  | lost b link servers =>
      have hcons : ∀ k : PartyKey me, k.lostWith (b :: servers) = (k.lostWith [b] || k.lostWith servers) :=
        lostWith_append [b] servers
      -- When `removetopology` finds the link itself, it is among the servers that are lost.
      have hself : b ∈ servers →
          ∀ k : PartyKey me, (k.lostWith [b] || k.lostWith servers) = k.lostWith servers := by
        intro hb k
        rw [PartyKey.lostWith, PartyKey.lostWith]
        cases k.bouncer with
        | none =>
            rfl
        | some c =>
            by_cases hc : c = b
            · simp [hc, hb]
            · simp [hc]
      rw [PartyStep.follow]
      simp only [hcons]
      cases link with
      | none =>
          rw [partyStep]
          simp only
          rw [sysparty_link, lostlinks_map]
          by_cases hhere : heardHere users = true
          · rw [if_pos hhere, List.filter_filter]
            simp only [Bool.not_or, Bool.and_comm]
          · have hb : b ∈ servers := by
              have hor : (heardHere users || decide (b ∈ servers)) = true := hheard
              rw [Bool.or_eq_true, decide_eq_true_iff] at hor
              exact hor.resolve_left hhere
            rw [if_neg hhere]
            simp only [hself hb]
      | some irchost =>
          have hand : (users.any PartyUser.visited && decide (b ∈ servers)) = true := hheard
          rw [Bool.and_eq_true, decide_eq_true_iff] at hand
          rw [partyStep]
          simp only
          rw [processParty_link, if_pos hand.1]
          simp only [hself hand.2]

end Steps

/-! ## Runs -/

section Runs

variable {me : CStr}

theorem follows (s : PartyStep me) (keys : List (PartyKey me)) :
    Follows s.tells keys (s.follow keys) := by
  rcases s with ⟨users, news⟩
  cases news with
  | user k on =>
      cases on with
      | true =>
          exact Follows.requeue fun j => rfl
      | false =>
          exact Follows.erase fun j => rfl
  | lost b link servers =>
      exact Follows.filter fun j => rfl

theorem partyRun_map {steps : List (PartyStep me)} (hheard : ∀ s ∈ steps, s.heard = true) :
    partyRun steps = (steps.foldl (fun keys s => s.follow keys) []).map PartyKey.entry := by
  induction steps using List.reverseRecOn with
  | nil =>
      rfl
  | append_singleton steps s ih =>
      have hsteps := ih fun s hs => hheard s (List.mem_append_left _ hs)
      rw [partyRun] at hsteps ⊢
      rw [List.foldl_append, List.foldl_append, hsteps]
      exact partyStep_map (hheard s (List.mem_append_right _ List.mem_cons_self)) _

/-- In a run in which all news are heard the list has, in every state, the users whose latest news are that
they have come, each once; and the loss of bouncers takes out the entries with one of them behind the `*`,
and keeps the others in order. -/
theorem partyRun_lists (steps : List (PartyStep me)) (hheard : ∀ s ∈ steps, s.heard = true) :
    ListsPresent steps (partyRun steps) ∧
      ∀ users (b : LinkedBouncer me) link servers,
        (⟨users, .lost b link servers⟩ : PartyStep me).heard = true →
        partyRun (steps ++ [⟨users, .lost b link servers⟩]) =
          (partyRun steps).filter fun entry =>
            !(cutAt STAR entry).any fun p => decide (p.2 ∈ (b :: servers).map LinkedBouncer.name) := by
  have htracks : Tracks PartyStep.tells steps (steps.foldl (fun keys s => s.follow keys) []) :=
    Tracks.foldl fun s _ keys => follows s keys
  have hlist := partyRun_map hheard
  refine ⟨⟨?_, fun entry => ?_⟩, fun users b link servers hlost => ?_⟩
  · rw [hlist]
    exact htracks.nodup.map entry_injective
  · rw [hlist, List.mem_map]
    simp only [htracks.mem_iff]
  · have hstep : partyRun (steps ++ [⟨users, .lost b link servers⟩]) =
        partyStep (partyRun steps) ⟨users, .lost b link servers⟩ := by
      rw [partyRun, List.foldl_append]
      rfl
    rw [hstep, hlist, partyStep_map hlost, PartyStep.follow]
    simp only
    rw [List.filter_map]
    congr 1
    apply List.filter_congr
    intro k _
    rw [Function.comp_apply, cutAt_entry, Option.any_map, PartyKey.lostWith]
    simp only [List.mem_map_of_injective LinkedBouncer.name_injective]

end Runs

/-! ## The last user -/

theorem ann_fits :
    SP ∉ ascii "ann" ∧ (ascii "ann").length < 64 ∧ STAR ∉ ascii "ann" ∧ AT ∉ ascii "ann" := by
  decide

def ann : PartyUserName := ⟨⟨ascii "ann", ann_fits.1, ann_fits.2.1⟩, ann_fits.2.2.1, ann_fits.2.2.2⟩

theorem there_fits : SP ∉ ascii "there" ∧ STAR ∉ ascii "there" ∧ PAREN ∉ ascii "there" ∧
    (ascii "there").length < 64 ∧ ascii "there" ≠ ascii "here" := by
  decide

def there : LinkedBouncer (ascii "here") :=
  ⟨ascii "there", there_fits.1, there_fits.2.1, there_fits.2.2.1, there_fits.2.2.2.1, there_fits.2.2.2.2⟩

/-- Somebody has come, here or at a linked bouncer, or gone, while ann is connected or not. -/
def annStep (connected : Bool) (bouncer : Option (LinkedBouncer (ascii "here"))) (on : Bool) :
    PartyStep (ascii "here") :=
  ⟨[{ uid := 1, login := ascii "ann", connected := connected }], .user ⟨ann, bouncer⟩ on⟩

theorem partyRun_lists_ann :
    ListsPresent [annStep true none true, annStep true (some there) true]
        (partyRun [annStep true none true, annStep true (some there) true]) ∧
      partyRun ([annStep true none true, annStep true (some there) true] ++
          [⟨[], .lost there none [there]⟩]) = [ascii "$ann"] := by
  have hheard : ∀ s ∈ [annStep true none true, annStep true (some there) true], s.heard = true := by
    decide +kernel
  have hrun := partyRun_lists [annStep true none true, annStep true (some there) true] hheard
  refine ⟨hrun.1, ?_⟩
  rw [hrun.2 [] there none [there] (by decide +kernel)]
  decide +kernel

/-- When the last one goes there is nobody who is told, and he stays on the list. -/
theorem partyRun_last_user :
    partyRun [annStep true none true, annStep false none false] = [ascii "$ann"] ∧
      ¬ ListsPresent [annStep true none true, annStep false none false]
        (partyRun [annStep true none true, annStep false none false]) := by
  have hrun : partyRun [annStep true none true, annStep false none false] = [ascii "$ann"] := by
    decide +kernel
  refine ⟨hrun, fun hlists => ?_⟩
  rw [hrun] at hlists
  rcases (hlists.2 (ascii "$ann")).1 List.mem_cons_self with ⟨k, hlatest, hk⟩
  have hann : (⟨ann, none⟩ : PartyKey (ascii "here")).entry = ascii "$ann" := by decide
  cases entry_injective (hk.trans hann.symm)
  exact absurd hlatest (by decide +kernel)

end PsyBnc
