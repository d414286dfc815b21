import PsyBnc.Lib.Run
import PsyBnc.Server.Model

/-!
# The grammar of a joined channel

The own JOIN copies the announced grammar into the channel, but writes the `PREFIX` modes over the
`CHANMODES`.  No other line touches the copy, so what it says lasts until the channel goes or the
server announces something else.
-/

namespace PsyBnc

open CLib

/-! ## What a line leaves of the channels -/

/-- The name and the grammar of a channel. -/
def tag (chan : Uchannelt) : CStr × ModeGrammar := (chan.name, chan.grammar)

def tags (u : Usert) : List (CStr × ModeGrammar) := u.channels.map tag

/-- No channel is new and none has another name or grammar; the announcement is the same. -/
def Keeps (u u' : Usert) : Prop :=
  (tags u').Sublist (tags u) ∧ u'.grammar = u.grammar

theorem Keeps.refl (u : Usert) : Keeps u u := ⟨List.Sublist.refl _, rfl⟩

theorem Keeps.trans {u v w : Usert} (h : Keeps u v) (h' : Keeps v w) : Keeps u w :=
  ⟨h'.1.trans h.1, h'.2.trans h.2⟩

theorem tag_of_frame {chan chan' : Uchannelt} (h : chan'.frame = chan.frame) :
    tag chan' = tag chan := by
  have htag := congrArg tag h
  exact htag

theorem tags_modify {channels : List Uchannelt} {k : Nat} {change : Uchannelt → Uchannelt}
    (h : ∀ chan, channels[k]? = some chan → tag (change chan) = tag chan) :
    (channels.modify k change).map tag = channels.map tag := by
  apply List.ext_getElem?
  intro i
  rw [List.getElem?_map, List.getElem?_map, List.getElem?_modify]
  cases hget : channels[i]? with
  | none =>
      rfl
  | some chan =>
      by_cases hk : k = i
      · subst hk
        simp [h chan hget]
      · simp [hk]

theorem keeps_modify {u : Usert} {k : Nat} {change : Uchannelt → Uchannelt}
    (h : ∀ chan, u.channels[k]? = some chan → tag (change chan) = tag chan) :
    Keeps u { u with channels := u.channels.modify k change } := by
  refine ⟨?_, rfl⟩
  rw [tags, tags, tags_modify h]

theorem keeps_changechannel (s : UserSession) (name : CStr) {change : Uchannelt → Uchannelt}
    (h : ∀ chan, tag (change chan) = tag chan) :
    Keeps s.user (changechannel s name change).user := by
  unfold changechannel
  split
  · exact Keeps.refl _
  · exact keeps_modify fun chan _ => h chan

theorem keeps_removechannelfromuser {u : Usert} {name : CStr} {conf : Conf} {left : Usert × Conf}
    (h : removechannelfromuser u name conf = some left) : Keeps u left.1 := by
  unfold removechannelfromuser at h
  split at h
  · cases h
    exact Keeps.refl _
  · next k _ =>
    rcases Option.bind_eq_some_iff.1 h with ⟨conf', _, h⟩
    rcases Option.map_eq_some_iff.1 h with ⟨conf'', _, rfl⟩
    exact ⟨(List.eraseIdx_sublist u.channels k).map tag, rfl⟩

theorem keeps_quitLoop {nick : CStr} {n : Nat} :
    ∀ {i : Nat} {u : Usert} {conf : Conf} {left : Usert × Conf},
      quitLoop nick n i u conf = some left → Keeps u left.1 := by
  induction n with
  | zero =>
      intro i u conf left h
      cases h
      exact Keeps.refl _
  | succ n ih =>
      intro i u conf left h
      unfold quitLoop at h
      split at h
      · cases h
        exact Keeps.refl _
      · next channel hget =>
        have hset : Keeps u
            { u with channels := u.channels.set i (removenickfromchannel channel nick) } := by
          rw [List.set_eq_modify]
          apply keeps_modify
          intro chan hchan
          rw [hget, Option.some.injEq] at hchan
          rw [← hchan]
          rfl
        simp only at h
        split at h
        · rcases Option.bind_eq_some_iff.1 h with ⟨left', hleft, h⟩
          exact hset.trans ((keeps_removechannelfromuser hleft).trans (ih h))
        · exact hset.trans (ih h)

theorem keeps_nickchange (u : Usert) (oldnick newnick : CStr) :
    Keeps u { u with channels := nickchange u.channels oldnick newnick } := by
  refine ⟨?_, rfl⟩
  have hsame : (nickchange u.channels oldnick newnick).map tag = u.channels.map tag := by
    rw [nickchange, List.map_map]
    apply List.map_congr_left
    intro chan _
    simp only [Function.comp_apply]
    split
    · rfl
    · rfl
  rw [tags, tags, hsame]

@[simp] theorem tag_addnicktochannel (chan : Uchannelt) (nick ident host : CStr) :
    tag (addnicktochannel chan nick ident host) = tag chan := by
  unfold addnicktochannel
  split
  · rfl
  · rfl

theorem tag_namesWord (prefixchars : CStr) (chan : Uchannelt) (word : CStr) :
    tag (namesWord prefixchars chan word) = tag chan := by
  unfold namesWord
  simp only
  split
  · rfl
  · split
    · exact tag_addnicktochannel chan _ [] []
    · exact tag_addnicktochannel chan _ [] []

theorem tag_names {prefixchars : CStr} {words : List CStr} :
    ∀ chan, tag (words.foldl (namesWord prefixchars) chan) = tag chan := by
  induction words with
  | nil =>
      intro chan
      rfl
  | cons word words ih =>
      intro chan
      rw [List.foldl_cons, ih, tag_namesWord]

theorem tag_setmodeLoop {mode : CStr} :
    ∀ (par : Option CStr) (lkm : Uchannelt), tag (setmodeLoop mode par lkm).1 = tag lkm := by
  induction mode with
  | nil =>
      intro par lkm
      rfl
  | cons md rest ih =>
      intro par lkm
      unfold setmodeLoop
      split
      · cases par with
        | none =>
            exact ih none lkm
        | some par =>
            exact ih _ _
      · split
        · cases par with
          | none =>
              exact ih none lkm
          | some par =>
              exact ih _ _
        · exact ih par lkm

theorem tag_setchannelmode (lkm : Uchannelt) (mode param : CStr) :
    tag (setchannelmode lkm mode param).1 = tag lkm :=
  tag_setmodeLoop (some param) { lkm with modes := clip 20 mode }

theorem tag_addchannelmode (lkm : Uchannelt) (mode param : CStr) :
    tag (addchannelmode lkm mode param).1 = tag lkm := by
  have hloop : tag (modeLoop (clip 200 mode) PLUS (some (clip 4096 param)) lkm).1 = tag lkm := by
    rw [modeLoop_eq (clip 200 mode) PLUS (some (clip 4096 param)) lkm rfl]
    exact tag_of_frame (frame_applyChanges _ lkm)
  exact hloop

/-! ## Line by line -/

section Lines

variable {s s' : UserSession} {irc : Parsed} {ircbuf : CStr}

theorem keeps_msg324 (h : msg324 s ircbuf = some s') : Keeps s.user s'.user := by
  unfold msg324 at h
  split at h
  · cases h
    exact Keeps.refl _
  · split at h
    · cases h
      exact Keeps.refl _
    · split at h
      · cases h
        exact Keeps.refl _
      · next mode param _ k _ lkm hget =>
        rcases Option.map_eq_some_iff.1 h with ⟨conf, _, rfl⟩
        apply keeps_modify
        intro chan hchan
        rw [hget, Option.some.injEq] at hchan
        rw [tag_setchannelmode, hchan]

theorem keeps_changemodes {u : Usert} {channel mode param : CStr} {conf : Conf}
    {done : Usert × Conf} (h : changemodes u channel mode param conf = some done) :
    Keeps u done.1 := by
  unfold changemodes at h
  split at h
  · cases h
    exact Keeps.refl _
  · split at h
    · cases h
      exact Keeps.refl _
    · next k _ lkm hget =>
      rcases Option.map_eq_some_iff.1 h with ⟨conf', _, rfl⟩
      apply keeps_modify
      intro chan hchan
      rw [hget, Option.some.injEq] at hchan
      rw [tag_addchannelmode, hchan]

theorem keeps_gotmode (h : gotmode s irc = some s') : Keeps s.user s'.user := by
  rcases Option.map_eq_some_iff.1 h with ⟨done, hdone, rfl⟩
  exact keeps_changemodes hdone

theorem keeps_gotpart (h : gotpart s irc = some s') : Keeps s.user s'.user := by
  unfold gotpart at h
  split at h
  · split at h
    · rcases Option.map_eq_some_iff.1 h with ⟨left, hleft, rfl⟩
      exact keeps_removechannelfromuser hleft
    · cases h
      exact keeps_changechannel s _ fun chan => rfl
  · cases h
    exact keeps_changechannel s _ fun chan => rfl

theorem keeps_gotkick (s : UserSession) (ircbuf : CStr) : Keeps s.user (gotkick s ircbuf).user := by
  unfold gotkick
  split
  · exact Keeps.refl _
  · simp only
    split
    · refine Keeps.trans (v := (changechannel s _ _).user) (keeps_changechannel s _ ?_)
        (keeps_changechannel _ _ ?_)
      · exact fun chan => rfl
      · exact fun chan => rfl
    · exact keeps_changechannel s _ fun chan => rfl

theorem keeps_resetallchannels (u : Usert) : Keeps u (resetallchannels u) := by
  refine ⟨?_, rfl⟩
  have hsame : (u.channels.map removeallusersfromchannel).map tag = u.channels.map tag := by
    rw [List.map_map]
    rfl
  rw [tags, tags, resetallchannels, hsame]

theorem keeps_gotquit (h : gotquit s irc = some s') : Keeps s.user s'.user := by
  unfold gotquit at h
  split at h
  · cases h
    exact keeps_resetallchannels s.user
  · rcases Option.map_eq_some_iff.1 h with ⟨left, hleft, rfl⟩
    exact keeps_quitLoop hleft

theorem keeps_msg353 (s : UserSession) (ircbuf : CStr) : Keeps s.user (msg353 s ircbuf).user := by
  unfold msg353
  split
  · exact Keeps.refl _
  · exact keeps_changechannel s _ tag_names

theorem keeps_performwho (s : UserSession) (ircbuf : CStr) : Keeps s.user (performwho s ircbuf).user := by
  unfold performwho
  split
  · exact keeps_changechannel s _ fun chan => tag_addnicktochannel chan _ _ _
  · exact Keeps.refl _

theorem keeps_msg352 (s : UserSession) (ircbuf : CStr) : Keeps s.user (msg352 s ircbuf).user := by
  unfold msg352
  split
  · exact keeps_performwho s ircbuf
  · exact Keeps.refl _

theorem keeps_msg315 (s : UserSession) : Keeps s.user (msg315 s).user := by
  unfold msg315
  split
  · exact Keeps.refl _
  · exact Keeps.refl _

theorem keeps_gotnick (h : gotnick s irc = some s') : Keeps s.user s'.user := by
  unfold gotnick at h
  simp only at h
  split at h
  · rcases Option.map_eq_some_iff.1 h with ⟨conf, _, rfl⟩
    split
    · exact keeps_nickchange s.user _ _
    · exact keeps_nickchange s.user _ _
  · cases h
    exact keeps_nickchange s.user _ _

end Lines

/-! ## The own JOIN -/

/-- A line by which the user joins a channel himself. -/
def OwnJoin (s : UserSession) (irc : Parsed) : Prop :=
  ifcommand irc (ascii "JOIN") = true ∧ strmcmp s.nick irc.ircnick = true

instance (s : UserSession) (irc : Parsed) : Decidable (OwnJoin s irc) :=
  inferInstanceAs (Decidable (_ ∧ _))

/-- The fields of the user are buffers. -/
structure Fits (u : Usert) : Prop where
  prefixmodes : u.prefixmodes.length < 30
  prefixchars : u.prefixchars.length < 30
  chanmodes : u.chanmodes.length < 100

/-- What the own JOIN makes of the announcement. -/
def joinedGrammar (u : Usert) : ModeGrammar := ⟨u.prefixmodes, u.prefixchars, u.prefixmodes⟩

theorem joinedGrammar_eq_iff {u : Usert} :
    joinedGrammar u = u.grammar ↔ u.prefixmodes = u.chanmodes := by
  simp [joinedGrammar, Usert.grammar]

theorem tag_copygrammar {u : Usert} (hfits : Fits u) (chan : Uchannelt) :
    tag (copygrammar u chan) = (chan.name, joinedGrammar u) := by
  have hp := hfits.prefixmodes
  simp only [tag, copygrammar, Uchannelt.grammar, joinedGrammar]
  rw [clip_eq_self hfits.prefixmodes, clip_eq_self hfits.prefixchars, clip_eq_self (by omega)]

theorem foldName_clip (name : CStr) : foldName (clip 255 name) = foldName name := by
  rw [foldName, foldName, clip, clip, List.take_take, Nat.min_self]

/-- A list whose element at `k` is changed. -/
theorem map_modify_split {α β : Type} {l : List α} {k : Nat} {x : α} (hget : l[k]? = some x)
    (f : α → β) (g : α → α) : ∃ front back, l.map f = front ++ f x :: back ∧
      (l.modify k g).map f = front ++ f (g x) :: back := by
  rcases List.getElem?_eq_some_iff.1 hget with ⟨hk, rfl⟩
  refine ⟨(l.take k).map f, (l.drop (k + 1)).map f, ?_, ?_⟩
  · rw [← List.map_cons, ← List.map_append, List.getElem_cons_drop, List.take_append_drop]
  · rw [List.modify_eq_take_cons_drop hk, List.map_append, List.map_cons]

/-- The own JOIN finds the channel or adds it, and writes its grammar. -/
theorem gotjoin_own {s s' : UserSession} {irc : Parsed} (hfits : Fits s.user)
    (hown : strmcmp s.nick irc.ircnick = true) (h : gotjoin s irc = some s') :
    s'.user.grammar = s.user.grammar ∧
      ∃ front back name old, foldName name = foldName irc.ircto ∧
        tags s'.user = front ++ (name, joinedGrammar s.user) :: back ∧
        (tags s.user = front ++ (name, old) :: back ∨
          (back = [] ∧ tags s.user = front ∧ ∀ p ∈ front, foldName p.1 ≠ foldName name)) := by
  simp only [gotjoin, hown, if_true] at h
  rcases Option.map_eq_some_iff.1 h with ⟨added, hadded, rfl⟩
  have hname : ∀ chan : Uchannelt,
      (addnicktochannel chan irc.ircnick irc.ircident irc.irchost).name = chan.name := by
    intro chan
    exact congrArg Prod.fst (tag_addnicktochannel chan irc.ircnick irc.ircident irc.irchost)
  unfold addchanneltouser at hadded
  split at hadded
  · next k hfound =>
    cases hadded
    rcases getuserchannel_eq_some hfound with ⟨chan, hget, hfold⟩
    rcases map_modify_split hget tag (fun chan => copygrammar s.user
      (addnicktochannel chan irc.ircnick irc.ircident irc.irchost)) with ⟨front, back, hold, hnew⟩
    refine ⟨rfl, front, back, chan.name, chan.grammar, hfold, ?_, Or.inl hold⟩
    rw [tag_copygrammar hfits, hname] at hnew
    exact hnew
  · next hnone =>
    -- a new channel, which is the last one
    have hadd : ∃ lkm : Uchannelt, lkm.name = clip 255 irc.ircto ∧
        added.1 = { s.user with channels := s.user.channels ++ [lkm] } ∧
        added.2.2 = s.user.channels.length := by
      simp only [Bool.false_eq_true, if_false] at hadded
      rcases Option.bind_eq_some_iff.1 hadded with ⟨found, _, hadded⟩
      rcases Option.map_eq_some_iff.1 hadded with ⟨conf, _, rfl⟩
      exact ⟨_, rfl, rfl, rfl⟩
    rcases hadd with ⟨lkm, hlkm, huser, hk⟩
    have hfresh := getuserchannel_eq_none.1 hnone
    refine ⟨by rw [huser]; rfl, tags s.user, [], clip 255 irc.ircto, s.user.grammar,
      foldName_clip irc.ircto, ?_, Or.inr ⟨rfl, rfl, ?_⟩⟩
    · have hcopied : tag (copygrammar s.user
          (addnicktochannel lkm irc.ircnick irc.ircident irc.irchost)) =
          (clip 255 irc.ircto, joinedGrammar s.user) := by
        rw [tag_copygrammar hfits, hname, hlkm]
      rw [← hcopied, hk, huser]
      simp only [tags, modify_last, List.map_append, List.map_cons, List.map_nil]
      rfl
    · intro p hp
      rcases List.mem_map.1 hp with ⟨chan, hchan, rfl⟩
      rw [foldName_clip]
      exact hfresh chan hchan

/-! ## Runs -/

/-- A user with the folded names of the channels that he joined himself. -/
structure Tracked where
  session : UserSession
  joined : List CStr := []

def trackedStep (t : Tracked) (ircbuf : CStr) : Option Tracked :=
  (useroutbound t.session ircbuf).map fun s =>
    { session := s
      joined :=
        if OwnJoin t.session (parse ircbuf) then foldName (parse ircbuf).ircto :: t.joined
        else t.joined }

/-- The announcement after a line. -/
def announced (s : UserSession) (ircbuf : CStr) : ModeGrammar :=
  if ifcommand (parse ircbuf) (ascii "001") then ⟨ascii "ov", ascii "@+", ascii "beI,k,l,imnpst"⟩
  else if ifcommand (parse ircbuf) (ascii "005") then (mapprefixed s ircbuf).user.grammar
  else s.user.grammar

/-- The server announces what it announced before, and at an own JOIN the `PREFIX` modes are the
`CHANMODES`. -/
def CopiedRight (t : Tracked) (ircbuf : CStr) : Prop :=
  announced t.session ircbuf = t.session.user.grammar ∧
    (OwnJoin t.session (parse ircbuf) → t.session.user.prefixmodes = t.session.user.chanmodes)

instance (t : Tracked) (ircbuf : CStr) : Decidable (CopiedRight t ircbuf) :=
  inferInstanceAs (Decidable (_ ∧ (_ → _)))

/-- The channels have names of their own, and those that were joined have the grammar of the user. -/
structure JoinInv (t : Tracked) : Prop where
  fits : Fits t.session.user
  names : ((tags t.session.user).map fun p => foldName p.1).Nodup
  grammar : ∀ p ∈ tags t.session.user, foldName p.1 ∈ t.joined → p.2 = t.session.user.grammar

theorem ifcommand_unique {irc : Parsed} {one two : CStr} (h₁ : ifcommand irc one = true)
    (h₂ : ifcommand irc two = true) : one = two := by
  unfold ifcommand at h₁ h₂
  split at h₁
  · cases h₁
  · next hne =>
    rw [if_neg hne] at h₂
    rw [strmcmp_iff.1 h₁, strmcmp_iff.1 h₂]

theorem keeps_msg001 (s : UserSession) (irc : Parsed) (ircbuf : CStr) :
    (tags (msg001 s irc ircbuf).user).Sublist (tags s.user) ∧
      (msg001 s irc ircbuf).user.grammar = ⟨ascii "ov", ascii "@+", ascii "beI,k,l,imnpst"⟩ := by
  have hkeeps := (keeps_resetallchannels s.user).1
  unfold msg001
  simp only
  split
  · exact ⟨hkeeps, rfl⟩
  · exact ⟨hkeeps, rfl⟩

theorem channels_mapPrefix (ircbuf : CStr) (u : Usert) :
    (mapPrefix ircbuf u).channels = u.channels := by
  unfold mapPrefix
  simp only
  repeat' split
  all_goals rfl

theorem channels_mapChanmodes (ircbuf : CStr) (u : Usert) :
    (mapChanmodes ircbuf u).channels = u.channels := by
  unfold mapChanmodes
  split
  · rfl
  · rfl

theorem tags_mapprefixed (s : UserSession) (ircbuf : CStr) :
    tags (mapprefixed s ircbuf).user = tags s.user := by
  rw [tags, tags, mapprefixed, channels_mapChanmodes, channels_mapPrefix]

/-- What a line can do to the channels. -/
theorem useroutbound_cases {s s' : UserSession} {ircbuf : CStr} (h : useroutbound s ircbuf = some s') :
    (OwnJoin s (parse ircbuf) ∧ gotjoin s (parse ircbuf) = some s') ∨
      (¬ OwnJoin s (parse ircbuf) ∧ (tags s'.user).Sublist (tags s.user) ∧
        s'.user.grammar = announced s ircbuf) := by
  have hother : ∀ {word : CStr}, ifcommand (parse ircbuf) word = true → word ≠ ascii "JOIN" →
      ¬ OwnJoin s (parse ircbuf) :=
    fun hword hne hown => hne (ifcommand_unique hword hown.1)
  unfold useroutbound at h
  simp only at h
  by_cases herror : ifcommand (parse ircbuf) (ascii "ERROR") = true
  · -- `ERROR` empties the channels, which keep their grammar.
    have hno : ∀ {word : CStr}, word ≠ ascii "ERROR" → ¬ ifcommand (parse ircbuf) word = true :=
      fun hne hword => hne (ifcommand_unique hword herror)
    rw [if_pos herror, Option.some.injEq] at h
    rw [announced, if_neg (hno (by decide)), if_neg (hno (by decide)), ← h]
    exact Or.inr ⟨hother herror (by decide), keeps_resetallchannels s.user⟩
  rw [if_neg herror] at h
  by_cases h001 : ifcommand (parse ircbuf) (ascii "001") = true
  · rw [if_pos h001, Option.some.injEq] at h
    rw [announced, if_pos h001, ← h]
    exact Or.inr ⟨hother h001 (by decide), keeps_msg001 s _ ircbuf⟩
  by_cases h005 : ifcommand (parse ircbuf) (ascii "005") = true
  · rw [if_neg h001, if_pos h005, Option.some.injEq] at h
    rw [announced, if_neg h001, if_pos h005, ← h, tags_mapprefixed]
    exact Or.inr ⟨hother h005 (by decide), List.Sublist.refl _, rfl⟩
  rw [announced, if_neg h001, if_neg h005]
  rw [if_neg h001, if_neg h005] at h
  -- the other lines announce nothing
  split at h
  · next hcmd => cases h; exact Or.inr ⟨hother hcmd (by decide), keeps_msg352 s ircbuf⟩
  split at h
  · next hcmd => cases h; exact Or.inr ⟨hother hcmd (by decide), keeps_msg353 s ircbuf⟩
  split at h
  · next hcmd => cases h; exact Or.inr ⟨hother hcmd (by decide), keeps_msg315 s⟩
  split at h
  · next hcmd => exact Or.inr ⟨hother hcmd (by decide), keeps_msg324 h⟩
  split at h
  · next hcmd => exact Or.inr ⟨hother hcmd (by decide), keeps_gotnick h⟩
  split at h
  · next hcmd =>
    by_cases hown : strmcmp s.nick (parse ircbuf).ircnick = true
    · exact Or.inl ⟨⟨hcmd, hown⟩, h⟩
    · rw [gotjoin, if_neg hown, Option.some.injEq] at h
      refine Or.inr ⟨fun hjoin => hown hjoin.2, ?_⟩
      rw [← h]
      exact keeps_changechannel s _ fun chan => tag_addnicktochannel chan _ _ _
  · next hjoin =>
    have hown : ¬ OwnJoin s (parse ircbuf) := fun hown => hjoin hown.1
    split at h
    · exact Or.inr ⟨hown, keeps_gotpart h⟩
    split at h
    · exact Or.inr ⟨hown, keeps_gotquit h⟩
    split at h
    · cases h
      exact Or.inr ⟨hown, keeps_gotkick s ircbuf⟩
    split at h
    · exact Or.inr ⟨hown, keeps_gotmode h⟩
    · cases h
      exact Or.inr ⟨hown, Keeps.refl _⟩

/-- Beside the channel that is joined there are only channels that were there before, under other
names. -/
theorem others_of_join {before front back : List (CStr × ModeGrammar)} {name : CStr} {old : ModeGrammar}
    (hnames : (before.map fun p => foldName p.1).Nodup)
    (hbefore : before = front ++ (name, old) :: back ∨
      (back = [] ∧ before = front ∧ ∀ p ∈ front, foldName p.1 ≠ foldName name)) :
    ∀ p, p ∈ front ∨ p ∈ back → p ∈ before ∧ foldName p.1 ≠ foldName name := by
  rcases hbefore with rfl | ⟨rfl, rfl, hfresh⟩
  · rw [List.map_append, List.map_cons, List.nodup_append, List.nodup_cons] at hnames
    rintro p (hp | hp)
    · exact ⟨by simp [hp], hnames.2.2 _ (List.mem_map_of_mem hp) _ List.mem_cons_self⟩
    · refine ⟨by simp [hp], fun heq => hnames.2.1.1 ?_⟩
      rw [← heq]
      exact List.mem_map_of_mem hp
  · rintro p (hp | hp)
    · exact ⟨hp, hfresh p hp⟩
    · cases hp

theorem Fits.of_grammar {u u' : Usert} (hfits : Fits u) (h : u'.grammar = u.grammar) : Fits u' := by
  simp only [Usert.grammar, ModeGrammar.mk.injEq] at h
  rcases h with ⟨hmodes, hchars, hchan⟩
  exact ⟨hmodes ▸ hfits.prefixmodes, hchars ▸ hfits.prefixchars, hchan ▸ hfits.chanmodes⟩

/-- At an own JOIN the channel gets the grammar of the user exactly if his `PREFIX` modes are his
`CHANMODES`. -/
theorem gotjoin_grammar_iff {s s' : UserSession} {irc : Parsed} (hfits : Fits s.user)
    (hnames : ((tags s.user).map fun p => foldName p.1).Nodup)
    (hown : OwnJoin s irc) (h : gotjoin s irc = some s') :
    (∀ p ∈ tags s'.user, foldName p.1 = foldName irc.ircto → p.2 = s'.user.grammar) ↔
      s.user.prefixmodes = s.user.chanmodes := by
  rcases gotjoin_own hfits hown.2 h with ⟨hgrammar, front, back, name, old, hname, htags, hbefore⟩
  rw [htags, hgrammar, ← joinedGrammar_eq_iff]
  constructor
  · intro hall
    exact hall (name, joinedGrammar s.user) (by simp) hname
  · intro hcopy p hp hfold
    rw [List.mem_append, List.mem_cons] at hp
    have hothers := others_of_join hnames hbefore
    rcases hp with hp | rfl | hp
    · exact absurd (hfold.trans hname.symm) (hothers p (Or.inl hp)).2
    · exact hcopy
    · exact absurd (hfold.trans hname.symm) (hothers p (Or.inr hp)).2

/-- A line that copies right keeps the grammar of the joined channels. -/
theorem JoinInv.step {t t' : Tracked} {ircbuf : CStr} (hinv : JoinInv t)
    (hright : CopiedRight t ircbuf) (h : trackedStep t ircbuf = some t') : JoinInv t' := by
  rcases Option.map_eq_some_iff.1 h with ⟨s', hs', rfl⟩
  rcases useroutbound_cases hs' with ⟨hown, hjoin⟩ | ⟨hown, hsub, hgrammar⟩
  · rcases gotjoin_own hinv.fits hown.2 hjoin with
      ⟨hgrammar, front, back, name, old, hname, htags, hbefore⟩
    have hcopy := (gotjoin_grammar_iff hinv.fits hinv.names hown hjoin).2 (hright.2 hown)
    have hothers := others_of_join hinv.names hbefore
    refine ⟨hinv.fits.of_grammar hgrammar, ?_, ?_⟩
    · rw [htags]
      rcases hbefore with hbefore | ⟨rfl, hbefore, hfresh⟩
      · have hnodup := hinv.names
        rw [hbefore] at hnodup
        simpa using hnodup
      · have hnodup := hinv.names
        rw [hbefore] at hnodup
        rw [List.map_append, List.nodup_append]
        refine ⟨hnodup, by simp, ?_⟩
        rintro a ha b hb rfl
        rcases List.mem_map.1 ha with ⟨p, hp, rfl⟩
        simp only [List.map_cons, List.map_nil, List.mem_singleton] at hb
        exact hfresh p hp hb
    · intro p hp hjoined
      by_cases hfold : foldName p.1 = foldName (parse ircbuf).ircto
      · exact hcopy p hp hfold
      · rw [htags, List.mem_append, List.mem_cons] at hp
        have hcases : p = (name, joinedGrammar t.session.user) ∨ (p ∈ front ∨ p ∈ back) := by
          tauto
        rw [if_pos hown, List.mem_cons] at hjoined
        rw [hgrammar]
        rcases hcases with rfl | hp
        · exact absurd hname hfold
        · exact hinv.grammar p (hothers p hp).1 (hjoined.resolve_left hfold)
  · have hgrammar' : s'.user.grammar = t.session.user.grammar := hgrammar.trans hright.1
    refine ⟨hinv.fits.of_grammar hgrammar', hinv.names.sublist (hsub.map _), ?_⟩
    intro p hp hjoined
    rw [if_neg hown] at hjoined
    rw [hgrammar']
    exact hinv.grammar p (hsub.subset hp) hjoined

/-- In a run whose lines copy right, the joined channels have the grammar of the user, and a mode
change does to them what he was announced. -/
theorem joined_grammar {t t' : Tracked} {lines : List CStr} (hfits : Fits t.session.user)
    (hnames : (t.session.user.channels.map fun c => foldName c.name).Nodup) (hnone : t.joined = [])
    (hright : StepsMeet trackedStep CopiedRight t lines)
    (hrun : runAll trackedStep t lines = some t') :
    ∀ chan ∈ t'.session.user.channels, foldName chan.name ∈ t'.joined →
      chan.grammar = t'.session.user.grammar ∧
        (t'.session.user.grammar.Regular → ∀ mode param, COMMA ∉ mode →
          (addchannelmode chan mode param).1.settings =
            t'.session.user.grammar.settled chan.usern chan.settings mode param) := by
  have hstart : JoinInv t := by
    refine ⟨hfits, ?_, ?_⟩
    · rw [tags, List.map_map]
      exact hnames
    · intro p _ hjoined
      rw [hnone] at hjoined
      cases hjoined
  have hinv : JoinInv t' :=
    invariant_of_stepsMeet JoinInv (fun _ _ _ hinv hstep h => hinv.step hstep h) hstart hright hrun
  intro chan hchan hjoined
  have hgrammar : chan.grammar = t'.session.user.grammar :=
    hinv.grammar (tag chan) (List.mem_map_of_mem hchan) hjoined
  refine ⟨hgrammar, ?_⟩
  intro hregular mode param hcomma
  rw [← hgrammar] at hregular ⊢
  exact addchannelmode_settled hregular param hcomma

/-- A user `me` without channels, with the modes that he was announced. -/
def newcomer (prefixmodes prefixchars chanmodes : CStr) : Tracked where
  session := {
    user := ⟨1, prefixmodes, prefixchars, chanmodes, [], by decide, by decide⟩
    nick := ascii "me"
    login := ascii "me"
    host := ascii "home"
    conf := [ascii "USER1.USER.NICK=me"]
    net := { me := ascii "home" } }

theorem joined_grammar_newcomer : ∃ t',
    runAll trackedStep (newcomer (ascii "ov") (ascii "@+") (ascii "ov"))
        [ascii ":me!m@home JOIN :#a"] = some t' ∧
      t'.joined = [ascii "#A"] ∧
      ∀ chan ∈ t'.session.user.channels, foldName chan.name ∈ t'.joined →
        chan.grammar = t'.session.user.grammar := by
  cases h : runAll trackedStep (newcomer (ascii "ov") (ascii "@+") (ascii "ov"))
      [ascii ":me!m@home JOIN :#a"] with
  | none =>
      have hsome : (runAll trackedStep (newcomer (ascii "ov") (ascii "@+") (ascii "ov"))
          [ascii ":me!m@home JOIN :#a"]).isSome = true := by decide +kernel
      rw [h] at hsome
      cases hsome
  | some t' =>
      have hjoined : (runAll trackedStep (newcomer (ascii "ov") (ascii "@+") (ascii "ov"))
          [ascii ":me!m@home JOIN :#a"]).map Tracked.joined = some [ascii "#A"] := by
        decide +kernel
      rw [h, Option.map_some, Option.some.injEq] at hjoined
      refine ⟨t', rfl, hjoined, fun chan hchan hmem => ?_⟩
      exact (joined_grammar (t := newcomer (ascii "ov") (ascii "@+") (ascii "ov"))
        ⟨by decide, by decide, by decide⟩ List.nodup_nil rfl (by decide +kernel) h chan hchan hmem).1

/-- What is left of the modes that servers announce: the key is not seen. -/
theorem joined_grammar_keyLost :
    (runAll trackedStep (newcomer (ascii "ov") (ascii "@+") (ascii "beI,k,l,imnpst"))
        [ascii ":me!m@home JOIN :#a", ascii ":boss!b@away MODE #a +k secret"]).map
      (fun t => (t.session.user.grammar,
        t.session.user.channels.map fun c => (c.grammar, c.settings))) =
        some (⟨ascii "ov", ascii "@+", ascii "beI,k,l,imnpst"⟩,
          [(⟨ascii "ov", ascii "@+", ascii "ov"⟩, ⟨ascii "nt", 0, []⟩)]) ∧
      (ModeGrammar.settled ⟨ascii "ov", ascii "@+", ascii "beI,k,l,imnpst"⟩ 1 ⟨ascii "nt", 0, []⟩
        (ascii "+k") (ascii "secret")).key = ascii "secret" := by
  constructor
  · decide +kernel
  · decide +kernel

end PsyBnc
