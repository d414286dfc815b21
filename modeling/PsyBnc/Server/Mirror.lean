import PsyBnc.Server.Rows
import PsyBnc.Server.World

/-!
# What a user knows of his channels

`Reflects` relates a session to a server: the lists of members are right up to the nicks that a NAMES reply still owes.
Each handler of `useroutbound` follows its event.
-/

namespace PsyBnc

open CLib

/-! ## The user's side -/

/-- The session knows its nick and the members of its channels, as far as it was told of them. -/
structure Reflects (w : World) (s : UserSession) : Prop where
  nick : s.nick = w.me
  signs : s.user.prefixchars = w.signs
  asked : s.triggered = w.asked
  parent : s.parent ≠ 0
  conf : ConfReady s.user.uid s.conf
  follows : Tabulates w.shown (rows s.user.channels)

/-! ## What a line changes -/

section Handlers

variable {w w' : World} {s : UserSession} {irc : Parsed} {n m c : CStr}

theorem World.Sound.me_nick (hw : w.Sound) : ServerNick w.signs w.me := hw.nicks w.me (Set.mem_insert _ _)

theorem World.Sound.same (hw : w.Sound) (hn : n ∈ insert w.me w.online) (hm : m ∈ w.online)
    (hsame : sameName 64 m n = true) : m = n := by
  have hmem := Set.mem_insert_of_mem w.me hm
  rw [sameName, clip_eq_self (hw.nicks m hmem).2.1, clip_eq_self (hw.nicks n hn).2.1, strmcmp_iff] at hsame
  exact hw.apart m hmem n hn hsame

namespace Reflects

theorem nicks_online (h : Reflects w s) (hw : w.Sound) : ∀ chan ∈ s.user.channels, ∀ k ∈ chan.nicks, k ∈ w.online := by
  intro chan hchan k hk
  have hrow := h.follows.mem (rowOf chan) (List.mem_map_of_mem hchan) k
  exact hw.sub _ (hrow.1 hk).2.1

theorem apart (h : Reflects w s) (hw : w.Sound) (hn : n ∈ insert w.me w.online) {chan : Uchannelt}
    (hchan : chan ∈ s.user.channels) : NickApart chan.nicks n :=
  fun k hk hsame => hw.same hn (h.nicks_online hw chan hchan k hk) hsame

/-- The session differs in its channels and its configuration. -/
theorem next (h : Reflects w s) (hme : w'.me = w.me) (hsigns : w'.signs = w.signs) (hasked : w'.asked = w.asked)
    {channels : List Uchannelt} {conf : Conf} (hconf : ConfReady s.user.uid conf)
    (hfollows : Tabulates w'.shown (rows channels)) :
    Reflects w' { s with user := { s.user with channels := channels }, conf := conf } where
  nick := h.nick.trans hme.symm
  signs := h.signs.trans hsigns.symm
  asked := h.asked.trans hasked.symm
  parent := h.parent
  conf := hconf
  follows := hfollows

theorem changed (h : Reflects w s) (hme : w'.me = w.me) (hsigns : w'.signs = w.signs) (hasked : w'.asked = w.asked)
    {name : CStr} {change : Uchannelt → Uchannelt} {g : List CStr → List CStr}
    (hchange : ∀ chan ∈ s.user.channels, rowOf (change chan) = (foldName chan.name, g chan.nicks))
    (hfollows : Tabulates w'.shown ((rows s.user.channels).onRow (foldName name) g)) :
    Reflects w' (changechannel s name change) := by
  have hrows := @rows_changechannel s name change g h.follows.keys hchange
  have hsession : changechannel s name change =
      { s with user := { s.user with channels := (changechannel s name change).user.channels }, conf := s.conf } := by
    rw [changechannel]
    split
    · rfl
    · rfl
  rw [hsession]
  apply h.next hme hsigns hasked h.conf
  rw [hrows]
  exact hfollows

theorem not_own (h : Reflects w s) (hn : n ≠ w.me) : strmcmp s.nick n = false := by
  rw [← Bool.not_eq_true, strmcmp_iff, h.nick]
  exact Ne.symm hn

theorem own (h : Reflects w s) : strmcmp s.nick w.me = true := strmcmp_iff.2 h.nick

/-! ### Coming -/

theorem join_other (h : Reflects w s) (hw : w.Sound) (hnick : irc.ircnick = n) (hto : irc.ircto = c) (hn : n ∈ w.online)
    (hother : n ≠ w.me) (hnew : n ∉ w.on (foldName c)) (hon : w.me ∈ w.on (foldName c)) :
    ∃ s', gotjoin s irc = some s' ∧ Reflects (w.move (.arrive (foldName c) n)) s' := by
  have hshown := Presence.shown_arrive hw.presence hother hnew hon
  have hlen := (hw.nicks n (Set.mem_insert_of_mem w.me hn)).2.1
  have hrow : (w.move (.arrive (foldName c) n)).shown (foldName c) = _ := (hshown _).trans (if_pos rfl)
  rw [gotjoin, hnick, hto, h.not_own hother, if_neg Bool.false_ne_true]
  refine ⟨_, rfl, ?_⟩
  apply @changed w (w.move (.arrive (foldName c) n)) s h rfl rfl rfl c _ fun ns => enlist ns n
  · intro chan hchan
    have hnicks := nicks_addnicktochannel irc.ircident irc.irchost hlen
      (h.apart hw (Set.mem_insert_of_mem _ hn) hchan)
    exact Prod.ext (congrArg foldName (name_addnicktochannel chan n _ _)) hnicks
  · apply h.follows.onRow
    · intro k hk
      exact (hshown k).trans (if_neg hk)
    · intro ns hns hmem
      refine ⟨nodup_enlist hns, ?_⟩
      intro k
      rw [hrow, mem_enlist, hmem, Set.mem_insert_iff]
    · intro _
      exact h.follows.here _ ((hw.presence.shown_nonempty).2 hon)

theorem join_own (h : Reflects w s) (hw : w.Sound) (hnick : irc.ircnick = w.me) (hto : irc.ircto = c)
    (hc : c.length < 200) (hnew : w.me ∉ w.on (foldName c)) :
    ∃ s', gotjoin s irc = some s' ∧ Reflects (w.move (.arrive (foldName c) w.me)) s' := by
  have hshown := Presence.shown_arrive_me hnew
  have hlen := hw.me_nick.2.1
  rcases addchanneltouser_added h.conf (Nat.lt_trans hc (by decide)) with ⟨added, hadd, hadded, hready⟩
  -- On the row of the channel there is one more nick, our own.
  have hrow : ∀ chan : Uchannelt, NickApart chan.nicks w.me →
      rowOf (copygrammar added.1 (addnicktochannel chan w.me irc.ircident irc.irchost)) =
        (foldName chan.name, enlist chan.nicks w.me) := by
    intro chan hapart
    have hnicks := nicks_addnicktochannel irc.ircident irc.irchost hlen hapart
    have hname := name_addnicktochannel chan w.me irc.ircident irc.irchost
    exact Prod.ext (congrArg foldName hname) hnicks
  have hnew' : ∀ chan : Uchannelt, chan.users = [] →
      rowOf (copygrammar added.1 (addnicktochannel chan w.me irc.ircident irc.irchost)) =
        (foldName chan.name, enlist [] w.me) := by
    intro chan hchan
    have hnil : chan.nicks = [] := by rw [Uchannelt.nicks, hchan, List.map_nil]
    have hapart : NickApart chan.nicks w.me := by
      intro k hk
      rw [hnil] at hk
      cases hk
    rw [hrow chan hapart, hnil]
  have hrows := hadded.rows_modify (g := fun ns => enlist ns w.me) h.follows.keys
    (fun chan hchan => hrow chan (h.apart hw (Set.mem_insert _ _) hchan)) hnew'
  have hself : (w.move (.arrive (foldName c) w.me)).shown (foldName c) = {w.me} := (hshown _).trans (if_pos rfl)
  have hfollows : Tabulates (w.move (.arrive (foldName c) w.me)).shown
      (rows (added.1.channels.modify added.2.2 fun chan =>
        copygrammar added.1 (addnicktochannel chan w.me irc.ircident irc.irchost))) := by
    rw [hrows]
    split
    · next hmem =>
      -- The channel was kept while nobody followed it: its row is empty by now.
      apply h.follows.onRow
      · intro k hk
        exact (hshown k).trans (if_neg hk)
      · intro ns hns hns'
        have hempty : ns = [] := by
          apply List.eq_nil_iff_forall_not_mem.2
          exact fun k hk => hnew ((hns' k).1 hk).1
        rw [hself, hempty]
        refine ⟨List.nodup_singleton w.me, ?_⟩
        exact fun k => List.mem_singleton
      · exact fun _ => hmem
    · next hmem =>
      -- A new channel has a new row.
      apply h.follows.push hmem
      · intro k hk
        exact (hshown k).trans (if_neg hk)
      · exact List.nodup_singleton w.me
      · intro k
        rw [hself]
        exact List.mem_singleton
  rw [gotjoin, hnick, h.own, if_pos rfl, hto, hadd, Option.map_some]
  refine ⟨_, rfl, ?_⟩
  exact
    { nick := h.nick
      signs := (congrArg Usert.prefixchars hadded.user).trans h.signs
      asked := h.asked
      parent := h.parent
      conf := (congrArg Usert.uid hadded.user).symm ▸ hready
      follows := hfollows }

/-! ### Leaving -/

theorem tabulates_erase (h : Reflects w s) (hother : n ≠ w.me) (c : CStr) :
    Tabulates (w.move (.depart c n)).shown ((rows s.user.channels).onRow c fun ns => ns.erase n) := by
  have hshown := @Presence.shown_depart _ _ _ _ w.toPresence c n hother
  apply h.follows.onRow
  · intro k hk
    exact (hshown k).trans (if_neg hk)
  · intro ns hns hmem
    refine ⟨hns.erase n, ?_⟩
    intro k
    have hrow : (w.move (.depart c n)).shown c = _ := (hshown _).trans (if_pos rfl)
    rw [hrow, hns.mem_erase_iff, hmem, Set.mem_sdiff, Set.mem_singleton_iff, and_comm]
  · rintro ⟨k, hk⟩
    have hrow : (w.move (.depart c n)).shown c = _ := (hshown _).trans (if_pos rfl)
    rw [hrow] at hk
    exact h.follows.here c ⟨k, hk.1⟩

theorem rowOf_removenick (n : CStr) (chan : Uchannelt) :
    rowOf (removenickfromchannel chan n) = (foldName chan.name, chan.nicks.erase n) := by
  rw [rowOf, nicks_removenickfromchannel]
  rfl

theorem part_other (h : Reflects w s) (hnick : irc.ircnick = n) (hto : irc.ircto = c) (hother : n ≠ w.me) :
    ∃ s', gotpart s irc = some s' ∧ Reflects (w.move (.depart (foldName c) n)) s' := by
  rw [gotpart, hnick, hto, h.not_own hother, if_neg Bool.false_ne_true]
  refine ⟨_, rfl, ?_⟩
  apply @changed w (w.move (.depart (foldName c) n)) s h rfl rfl rfl c _ fun ns => ns.erase n
  · exact fun chan _ => rowOf_removenick n chan
  · exact h.tabulates_erase hother (foldName c)

theorem tabulates_clear {f : CStr → Set CStr} {rs : Rows CStr CStr} (h : Tabulates f rs) {f' : CStr → Set CStr}
    (hother : ∀ k, k ≠ c → f' k = f k) (hc : f' c = ∅) : Tabulates f' (rs.onRow c fun _ => []) := by
  apply h.onRow hother
  · intro ns _ _
    refine ⟨List.nodup_nil, ?_⟩
    intro k
    rw [hc]
    exact ⟨fun hk => absurd hk List.not_mem_nil, fun hk => absurd hk (Set.notMem_empty k)⟩
  · intro hk
    rw [hc] at hk
    exact absurd hk Set.not_nonempty_empty

theorem part_own (h : Reflects w s) (hnick : irc.ircnick = w.me) (hto : irc.ircto = c) :
    ∃ s', gotpart s irc = some s' ∧ Reflects (w.move (.depart (foldName c) w.me)) s' := by
  have hshown := @Presence.shown_depart_me _ _ _ _ w.toPresence (foldName c)
  have hother : ∀ k, k ≠ foldName c → (w.move (.depart (foldName c) w.me)).shown k = w.shown k :=
    fun k hk => (hshown k).trans (if_neg hk)
  have hself : (w.move (.depart (foldName c) w.me)).shown (foldName c) = ∅ := (hshown _).trans (if_pos rfl)
  rw [gotpart, hnick, h.own, if_pos rfl, hto]
  by_cases hin : s.user.uid ∈ s.net.instate
  · rcases removechannelfromuser_rows h.conf h.follows.keys c with ⟨channels, conf, hremove, hrows, hready⟩
    rw [if_pos hin, hremove, Option.map_some]
    refine ⟨_, rfl, ?_⟩
    apply @next w (w.move (.depart (foldName c) w.me)) s h rfl rfl rfl channels conf hready
    rw [hrows]
    exact h.follows.without hother hself
  · rw [if_neg hin]
    refine ⟨_, rfl, ?_⟩
    apply @changed w (w.move (.depart (foldName c) w.me)) s h rfl rfl rfl c _ fun _ => []
    · exact fun chan _ => rfl
    · exact tabulates_clear h.follows hother hself

theorem nick_changechannel (s : UserSession) (name : CStr) (change : Uchannelt → Uchannelt) :
    (changechannel s name change).nick = s.nick := by
  rw [changechannel]
  split
  · rfl
  · rfl

theorem kick_other (h : Reflects w s) {line : CStr} (hkick : kicked line = some (c, n)) (hother : n ≠ w.me) :
    Reflects (w.move (.depart (foldName c) n)) (gotkick s line) := by
  have hno : strmcmp n (changechannel s c fun chan => removenickfromchannel chan n).nick = false := by
    rw [nick_changechannel, ← Bool.not_eq_true, strmcmp_iff, h.nick]
    exact hother
  simp only [gotkick, hkick, hno, Bool.false_eq_true, if_false]
  apply @changed w (w.move (.depart (foldName c) n)) s h rfl rfl rfl c _ fun ns => ns.erase n
  · exact fun chan _ => rowOf_removenick n chan
  · exact h.tabulates_erase hother (foldName c)

theorem kick_own (h : Reflects w s) {line : CStr} (hkick : kicked line = some (c, w.me)) :
    Reflects (w.move (.depart (foldName c) w.me)) (gotkick s line) := by
  have hshown := @Presence.shown_depart_me _ _ _ _ w.toPresence (foldName c)
  have hyes : strmcmp w.me (changechannel s c fun chan => removenickfromchannel chan w.me).nick = true := by
    rw [nick_changechannel, strmcmp_iff, h.nick]
  have hfirst := @rows_changechannel s c _ (fun ns => ns.erase w.me) h.follows.keys
    fun chan _ => rowOf_removenick w.me chan
  have hkeys : ((rows (changechannel s c fun chan => removenickfromchannel chan w.me).user.channels).map
      Prod.fst).Nodup := by
    rw [hfirst, Rows.onRow, Rows.map_fst_each]
    exact h.follows.keys
  have hsecond := @rows_changechannel _ c removeallusersfromchannel (fun _ => []) hkeys fun chan _ => rfl
  rw [hfirst, Rows.onRow_onRow] at hsecond
  have hfollows : Tabulates (w.move (.depart (foldName c) w.me)).shown
      ((rows s.user.channels).onRow (foldName c) fun _ => []) :=
    tabulates_clear h.follows (fun k hk => (hshown k).trans (if_neg hk)) ((hshown _).trans (if_pos rfl))
  simp only [gotkick, hkick, hyes, if_true]
  rw [← hsecond] at hfollows
  have hfields : ∀ (s : UserSession) (change : Uchannelt → Uchannelt),
      changechannel s c change =
        { s with user := { s.user with channels := (changechannel s c change).user.channels }, conf := s.conf } := by
    intro s change
    rw [changechannel]
    split
    · rfl
    · rfl
  rw [hfields] at hfollows ⊢
  rw [hfields s] at hfollows ⊢
  exact @next w (w.move (.depart (foldName c) w.me)) s h rfl rfl rfl _ _ h.conf hfollows

theorem quit_other (h : Reflects w s) (hnick : irc.ircnick = n) (hother : n ≠ w.me) :
    ∃ s', gotquit s irc = some s' ∧ Reflects (w.move (.vanish n)) s' := by
  have hshown := @Presence.shown_vanish _ _ _ _ w.toPresence n hother
  have hno : strmcmp n s.nick = false := by
    rw [← Bool.not_eq_true, strmcmp_iff, h.nick]
    exact hother
  rcases removenickfromuser_eq h.conf h.follows.keys n with ⟨conf, hremove, hready⟩
  rw [gotquit, hnick, hno, if_neg Bool.false_ne_true, hremove, Option.map_some]
  refine ⟨_, rfl, ?_⟩
  apply @next w (w.move (.vanish n)) s h rfl rfl rfl _ _ hready
  rw [rows_leaveAll]
  apply Tabulates.filled
  apply h.follows.each
  · intro k ns hns hmem
    refine ⟨hns.erase n, ?_⟩
    intro j
    have hrow : (w.move (.vanish n)).shown k = _ := hshown k
    rw [hrow, hns.mem_erase_iff, hmem, Set.mem_sdiff, Set.mem_singleton_iff, and_comm]
  · rintro k ⟨j, hj⟩
    have hrow : (w.move (.vanish n)).shown k = _ := hshown k
    rw [hrow] at hj
    exact h.follows.here k ⟨j, hj.1⟩

theorem tabulates_empty {f : CStr → Set CStr} {rs : Rows CStr CStr} (h : Tabulates f rs) {f' : CStr → Set CStr}
    (hf' : ∀ k, f' k = ∅) : Tabulates f' (rs.each fun _ _ => []) := by
  apply h.each
  · intro k ns _ _
    refine ⟨List.nodup_nil, ?_⟩
    intro j
    rw [hf' k]
    exact ⟨fun hj => absurd hj List.not_mem_nil, fun hj => absurd hj (Set.notMem_empty j)⟩
  · intro k hk
    rw [hf' k] at hk
    exact absurd hk Set.not_nonempty_empty

theorem quit_own (h : Reflects w s) (hnick : irc.ircnick = w.me) :
    ∃ s', gotquit s irc = some s' ∧ Reflects (w.move (.vanish w.me)) s' := by
  have hyes : strmcmp w.me s.nick = true := strmcmp_iff.2 h.nick.symm
  rw [gotquit, hnick, hyes, if_pos rfl]
  refine ⟨_, rfl, ?_⟩
  apply @next w (w.move (.vanish w.me)) s h rfl rfl rfl _ _ h.conf
  have hrows := rows_resetallchannels s.user
  rw [resetallchannels] at hrows
  rw [hrows]
  exact tabulates_empty h.follows Presence.shown_vanish_me

/-! ### Nicks -/

theorem tabulates_rename (h : Reflects w s) (hw : w.Sound) (ha : w.toPresence.Allows (.rename n m)) :
    Tabulates (w.move (.rename n m)).shown ((rows s.user.channels).each fun _ ns => ns.map (newName n m)) := by
  have hshown := Presence.shown_rename hw.presence ha
  apply h.follows.each
  · intro k ns hns hmem
    have hrow : (w.move (.rename n m)).shown k = _ := hshown k
    have hfree : ∀ j ∈ ns, j ≠ m := by
      intro j hj heq
      exact ha.2 k (heq ▸ ((hmem j).1 hj).2.1)
    refine ⟨?_, ?_⟩
    · apply (List.nodup_map_iff_inj_on hns).2
      exact fun i hi j hj heq => (Presence.newName_eq_iff (hfree i hi) (hfree j hj)).1 heq
    · intro j
      rw [hrow, List.mem_map]
      constructor
      · rintro ⟨i, hi, rfl⟩
        exact Set.mem_image_of_mem _ ((hmem i).1 hi)
      · rintro ⟨i, hi, rfl⟩
        exact ⟨i, (hmem i).2 hi, rfl⟩
  · rintro k ⟨j, hj⟩
    have hrow : (w.move (.rename n m)).shown k = _ := hshown k
    rw [hrow] at hj
    rcases hj with ⟨i, hi, _⟩
    exact h.follows.here k ⟨i, hi⟩

theorem rows_renamed (h : Reflects w s) (hw : w.Sound) (hn : n ∈ insert w.me w.online) (hm : m.length < 64) :
    rows (nickchange s.user.channels n m) = (rows s.user.channels).each fun _ ns => ns.map (newName n m) := by
  apply rows_nickchange hm
  · exact fun chan hchan => h.follows.nodup (rowOf chan) (List.mem_map_of_mem hchan)
  · exact fun chan hchan => h.apart hw hn hchan

theorem nick_other (h : Reflects w s) (hw : w.Sound) (hnick : irc.ircnick = n) (hto : irc.ircto = m)
    (hn : n ∈ w.online) (hother : n ≠ w.me) (hm : m.length < 64) (ha : w.toPresence.Allows (.rename n m)) :
    ∃ s', gotnick s irc = some s' ∧ Reflects (w.move (.rename n m)) s' := by
  have hno : strmcmp n s.nick = false := by
    rw [← Bool.not_eq_true, strmcmp_iff, h.nick]
    exact hother
  have hme : (w.move (.rename n m)).me = w.me := if_neg (Ne.symm hother)
  rw [gotnick, hnick, hto, hno, if_neg Bool.false_ne_true]
  refine ⟨_, rfl, ?_⟩
  apply @next w (w.move (.rename n m)) s h hme rfl rfl _ _ h.conf
  rw [hnick, hto, h.rows_renamed hw (Set.mem_insert_of_mem _ hn) hm]
  exact h.tabulates_rename hw ha

theorem nickLine_not_channel (uid : Nat) (huid : uid < 2 ^ 31) (d : CStr) :
    ¬ channelSect uid <+: iniLine (ascii "USER") (ascii "NICK") (userFile uid) d := by
  intro hpre
  have hlen := length_userFile huid
  have hkey : (entryText (userFile uid) (ascii "USER") (ascii "NICK")).length < 200 := by
    have hnames : (ascii "USER").length + (ascii "NICK").length = 8 := by decide
    simp only [entryText, List.length_append, List.length_cons, List.length_nil]
    omega
  rw [iniLine, clip_eq_self hkey] at hpre
  have hwhole := hpre.trans (clip_prefix_self 2048 _)
  have htext : entryText (userFile uid) (ascii "USER") (ascii "NICK") ++ d =
      userFile uid ++ DOT :: (ascii "USER" ++ DOT :: (ascii "NICK" ++ EQUALS :: d)) := by
    simp [entryText]
  rw [htext, channelSect, List.prefix_append_right_inj] at hwhole
  rcases (List.cons_prefix_cons.1 hwhole).2 with ⟨t, ht⟩
  have hhead := congrArg List.head? ht
  simp [ascii] at hhead

theorem nick_own (h : Reflects w s) (hw : w.Sound) (hnick : irc.ircnick = w.me) (hto : irc.ircto = m)
    (hm : m ≠ [] ∧ m.length < 64) (ha : w.toPresence.Allows (.rename w.me m)) :
    ∃ s', gotnick s irc = some s' ∧ Reflects (w.move (.rename w.me m)) s' := by
  have hyes : strmcmp w.me s.nick = true := strmcmp_iff.2 h.nick.symm
  have hme : (w.move (.rename w.me m)).me = m := if_pos rfl
  have hline : newLine (ascii "USER") (ascii "NICK") (userFile s.user.uid) (some m) =
      some (iniLine (ascii "USER") (ascii "NICK") (userFile s.user.uid) m) := by
    rw [newLine, dataPtr_some hm.1, Option.map_some]
  rcases h.conf.write hline (nickLine_not_channel _ s.user.uid_lt m) with ⟨conf, hwrite, hready⟩
  rw [gotnick, hnick, hto, hyes, if_pos rfl, hwrite, Option.map_some]
  simp only [if_neg h.parent]
  refine ⟨_, rfl, ?_⟩
  exact
    { nick := (clip_eq_self hm.2).trans hme.symm
      signs := h.signs
      asked := h.asked
      parent := h.parent
      conf := hready
      follows := by
        simp only [hnick, hto]
        rw [h.rows_renamed hw (Set.mem_insert _ _) hm.2]
        exact h.tabulates_rename hw ha }

/-! ### Being told -/

theorem tabulates_told (h : Reflects w s) {ns : List CStr} (hns : ∀ n ∈ ns, n ∈ w.on c) (hon : w.me ∈ w.on c)
    (hw : w.Sound) : Tabulates (w.move (.tell c ns)).shown ((rows s.user.channels).onRow c (ns.foldl enlist ·)) := by
  have hshown := Presence.shown_tell hns hon
  have hrow : (w.move (.tell c ns)).shown c = _ := (hshown c).trans (if_pos rfl)
  apply h.follows.onRow
  · intro k hk
    exact (hshown k).trans (if_neg hk)
  · intro old hold hmem
    refine ⟨nodup_foldl_enlist hold, ?_⟩
    intro k
    rw [hrow, mem_foldl_enlist, hmem, Set.mem_union, or_comm]
    rfl
  · intro _
    exact h.follows.here c ((hw.presence.shown_nonempty).2 hon)

theorem names (h : Reflects w s) (hw : w.Sound) {line text : CStr} {words : List (CStr × CStr)}
    (hreply : namesReply line = some (c, text)) (hsplit : text.splitOn SP = words.map fun p => p.1 ++ p.2)
    (hon : w.me ∈ w.on (foldName c))
    (hwords : ∀ p ∈ words, (∀ b ∈ p.1, b ∈ w.signs) ∧ (p.2 ∈ w.on (foldName c) ∨ p = ([], []))) :
    Reflects (w.move (.tell (foldName c) (namesNicks words))) (msg353 s line) := by
  have hknown : ∀ n ∈ w.online, n.length < 64 ∧ (∀ b ∈ n.head?, b ∉ w.signs) ∧
      ∀ m ∈ w.online, sameName 64 m n = true → m = n := by
    intro n hn
    have hnick := hw.nicks n (Set.mem_insert_of_mem _ hn)
    exact ⟨hnick.2.1, hnick.2.2.2, fun m hm hsame => hw.same (Set.mem_insert_of_mem _ hn) hm hsame⟩
  have hwords' : ∀ p ∈ words, (∀ b ∈ p.1, b ∈ w.signs) ∧ (p.2 ∈ w.online ∨ p.2 = []) := by
    intro p hp
    refine ⟨(hwords p hp).1, ?_⟩
    exact (hwords p hp).2.imp (fun hin => hw.sub _ hin) fun heq => congrArg Prod.snd heq
  have htold : ∀ n ∈ namesNicks words, n ∈ w.on (foldName c) := by
    intro n hn
    rcases List.mem_filter.1 hn with ⟨hn, hne⟩
    rcases List.mem_map.1 hn with ⟨p, hp, rfl⟩
    rcases (hwords p hp).2 with hin | heq
    · exact hin
    · rw [heq] at hne
      exact absurd rfl (of_decide_eq_true hne)
  simp only [msg353, hreply]
  apply @changed w (w.move (.tell (foldName c) (namesNicks words))) s h rfl rfl rfl c _ ((namesNicks words).foldl enlist ·)
  · intro chan hchan
    have hnicks := nicks_namesFold hknown hwords' chan (h.nicks_online hw chan hchan)
    have hname := congrArg Prod.fst (@tag_names w.signs (words.map fun p => p.1 ++ p.2) chan)
    rw [h.signs, hsplit]
    exact Prod.ext (congrArg foldName hname) hnicks
  · exact h.tabulates_told htold hon hw

theorem who (h : Reflects w s) (hw : w.Sound) {line ident host : CStr} {v₁ v₂ v₃ v₄ v₅ v₆ : CStr} {vs : List CStr}
    (hsplit : (clip 8192 line).splitOn SP = v₁ :: v₂ :: v₃ :: c :: ident :: host :: v₄ :: n :: v₅ :: v₆ :: vs)
    (hc : c.length < 200) (hn : n ∈ w.on (foldName c)) (hon : w.me ∈ w.on (foldName c)) :
    Reflects (w.move (.tell (foldName c) [n])) (performwho s line) := by
  have honline := hw.sub _ hn
  have hlen := (hw.nicks n (Set.mem_insert_of_mem _ honline)).2.1
  have hshort : c.length < 1024 := Nat.lt_trans hc (by decide)
  simp only [performwho, hsplit, clip_eq_self hshort, clip_eq_self hlen]
  apply @changed w (w.move (.tell (foldName c) [n])) s h rfl rfl rfl c _ ([n].foldl enlist ·)
  · intro chan hchan
    have hnicks := nicks_addnicktochannel (clip 64 ident) (clip 1024 host) hlen
      (h.apart hw (Set.mem_insert_of_mem _ honline) hchan)
    exact Prod.ext (congrArg foldName (name_addnicktochannel chan n _ _)) hnicks
  · apply h.tabulates_told _ hon hw
    intro k hk
    rw [List.mem_singleton.1 hk]
    exact hn

/-! ### The rest -/

/-- What is waited for on both sides. -/
theorem asking (h : Reflects w s) (asked : Nat) :
    Reflects { w with asked := asked } { s with triggered := asked } :=
  ⟨h.nick, h.signs, rfl, h.parent, h.conf, h.follows⟩

theorem whoEnd (h : Reflects w s) (line : CStr) : Reflects (w.step (.whoEnd line)) (msg315 s) := by
  have hnext := h.asking (w.asked - 1)
  rw [msg315]
  split
  · next hnone =>
    have hsame : w.asked - 1 = s.triggered := by
      rw [← h.asked, hnone]
    rw [hsame] at hnext
    rw [World.step, hsame]
    exact hnext
  · rw [h.asked]
    exact hnext

theorem error (h : Reflects w s) (line : CStr) : Reflects (w.step (.error line)) (msgERROR s) := by
  apply @next w (w.step (.error line)) s h rfl rfl rfl _ _ h.conf
  have hrows := rows_resetallchannels s.user
  rw [resetallchannels] at hrows
  rw [hrows]
  exact tabulates_empty h.follows Presence.shown_vanish_me

theorem welcome (h : Reflects w s) (hw : w.Sound) {line server text : CStr} (hto : irc.ircto = m) (hm : m.length < 64)
    (hfree : w.Free w.me m) : Reflects (w.step (.welcome server m text)) (msg001 s irc line) := by
  have hme : (w.step (.welcome server m text)).me = m := if_pos rfl
  have hempty : ∀ k, (w.step (.welcome server m text)).shown k = ∅ := by
    intro k
    apply Presence.shown_of_absent
    rw [hme]
    rintro ⟨j, ⟨hj, hjme⟩, heq⟩
    have hjm : j = m := (if_neg hjme).symm.trans heq
    exact hfree j (Set.mem_insert_of_mem _ (hw.sub k hj)) hjme (congrArg ucase hjm)
  have hsession : msg001 s irc line =
      { s with
        user := resetallchannels { s.user with
          prefixmodes := ascii "ov"
          prefixchars := World.firstSigns
          chanmodes := ascii "beI,k,l,imnpst" }
        nick := clip 64 irc.ircto } := by
    rw [msg001]
    simp only [if_neg h.parent]
    rfl
  rw [hsession, hto, clip_eq_self hm]
  exact
    { nick := hme.symm
      signs := rfl
      asked := h.asked
      parent := h.parent
      conf := h.conf
      follows := by
        rw [rows_resetallchannels]
        exact tabulates_empty h.follows hempty }

/-- A change of one channel that leaves its name and its members. -/
theorem kept (h : Reflects w s) {k : Nat} {lkm lkm' : Uchannelt} (hget : s.user.channels[k]? = some lkm)
    (hrow : rowOf lkm' = rowOf lkm) {conf : Conf} (hready : ConfReady s.user.uid conf) :
    Reflects w { s with
      user := { s.user with channels := s.user.channels.modify k fun _ => lkm' }
      conf := conf } := by
  apply h.next rfl rfl rfl hready
  have hrows : rows (s.user.channels.modify k fun _ => lkm') = rows s.user.channels := by
    apply map_modify_of_eq
    intro chan hchan
    rw [hget, Option.some.injEq] at hchan
    rw [hrow, hchan]
  rw [hrows]
  exact h.follows

theorem modes324 (h : Reflects w s) (line : CStr) : ∃ s', msg324 s line = some s' ∧ Reflects w s' := by
  rw [msg324]
  cases modeReply line with
  | none =>
      exact ⟨s, rfl, h⟩
  | some p =>
      cases hfound : getuserchannel s.user.channels p.1 with
      | none =>
          exact ⟨s, by simp only [hfound], h⟩
      | some k =>
          rcases getuserchannel_eq_some hfound with ⟨lkm, hget, _⟩
          rcases h.conf.writeKeys s.user.uid_lt lkm.isentry (setchannelmode lkm p.2.1 p.2.2).2 with
            ⟨conf, hwrite, hready⟩
          simp only [hfound, hget, hwrite, Option.map_some]
          exact ⟨_, rfl, h.kept hget (rowOf_setchannelmode lkm p.2.1 p.2.2) hready⟩

theorem mode (h : Reflects w s) (irc : Parsed) : ∃ s', gotmode s irc = some s' ∧ Reflects w s' := by
  rw [gotmode]
  generalize (cutAt SP irc.irccontent).getD (irc.irccontent, []) = words
  simp only [changemodes]
  cases hfound : getuserchannel s.user.channels irc.ircto with
  | none =>
      exact ⟨s, rfl, h⟩
  | some k =>
      rcases getuserchannel_eq_some hfound with ⟨lkm, hget, _⟩
      rcases h.conf.writeKeys s.user.uid_lt lkm.isentry (addchannelmode lkm words.1 words.2).2 with
        ⟨conf, hwrite, hready⟩
      simp only [hget, hwrite, Option.map_some]
      exact ⟨_, rfl, h.kept hget (rowOf_addchannelmode lkm words.1 words.2) hready⟩

end Reflects

end Handlers

end PsyBnc
