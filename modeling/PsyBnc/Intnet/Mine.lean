import PsyBnc.Intnet.Join
import PsyBnc.UChannel.Persist

/-!
# One nick on the channels

The channels that one nick is on, and what a JOIN or a PART of this nick or of another makes of them.
-/

namespace PsyBnc

open CLib

/-- The nicks on a channel that are the same as `nick` up to case. -/
def ours (nick : CStr) (chan : Uchannelt) : List CStr :=
  (chan.users.filter (answers nick)).map Uchannelusert.nick

/-- The names of the channels that `nick` is on. -/
def mine (nick : CStr) (channels : List Uchannelt) : List CStr :=
  (channels.filter fun chan => decide (ours nick chan ≠ [])).map Uchannelt.name

/-- No two channels have the same name, and `nick` is on a channel once at most, as it is spelled. -/
structure Membership (nick : CStr) (channels : List Uchannelt) : Prop where
  names : (channels.map fun chan => foldName chan.name).Nodup
  once : ∀ chan ∈ channels, ours nick chan = [] ∨ ours nick chan = [nick]

section Channel

variable {nick n ident host : CStr} {chan chan' : Uchannelt} {client : Clientt} {key : CStr}

theorem ours_eq_nil_iff : ours nick chan = [] ↔ getchannelnick chan nick = none := by
  rw [ours, List.map_eq_nil_iff, List.filter_eq_nil_iff, getchannelnick_none_iff]
  simp only [Bool.not_eq_true]

/-- Only the nicks count. -/
theorem ours_congr (h : chan'.users.map Uchannelusert.nick = chan.users.map Uchannelusert.nick) :
    ours nick chan' = ours nick chan := by
  have hours : ∀ chan : Uchannelt, ours nick chan =
      (chan.users.map Uchannelusert.nick).filter fun n => sameName 64 n nick := by
    intro chan
    rw [ours, List.filter_map]
    rfl
  rw [hours, hours, h]

/-- Somebody who answers to another nick does not answer to this one. -/
theorem answers_other (hother : sameName 64 n nick = false) {chanuser : Uchannelusert}
    (h : answers n chanuser = true) : answers nick chanuser = false := by
  rw [← Bool.not_eq_true] at hother ⊢
  intro hnick
  apply hother
  rw [answers, sameName, strmcmp_iff] at h hnick
  rw [sameName, strmcmp_iff, ← h, hnick]

theorem ours_addnicktochannel_other (hother : sameName 64 n nick = false) :
    ours nick (addnicktochannel chan n ident host) = ours nick chan := by
  rw [addnicktochannel]
  cases hget : getchannelnick chan n with
  | none =>
      have hnew : answers nick { nick := clip 64 n, ident := clip 64 ident, host := clip 256 host } = false := by
        rw [answers, sameName_clip]
        exact hother
      simp only
      rw [ours, ours, List.filter_append, List.filter_cons_of_neg (by rw [hnew]; exact Bool.false_ne_true),
        List.filter_nil, List.append_nil]
  | some k =>
      rcases List.findIdx?_eq_some_iff_getElem.1 hget with ⟨hk, hsame, _⟩
      have hold : ¬ answers nick chan.users[k] = true := by
        rw [answers_other hother hsame]
        exact Bool.false_ne_true
      have hnew : ¬ answers nick { chan.users[k] with
          nick := clip 64 n, ident := clip 64 ident, host := clip 256 host } = true := by
        rw [answers, sameName_clip, hother]
        exact Bool.false_ne_true
      simp only
      rw [ours, ours, List.modify_eq_take_cons_drop hk]
      conv_rhs => rw [← List.take_append_drop k chan.users, ← List.getElem_cons_drop hk]
      rw [List.filter_append, List.filter_append, List.filter_cons_of_neg hnew, List.filter_cons_of_neg hold]

theorem ours_addnicktochannel_self (hnew : getchannelnick chan nick = none) (hshort : nick.length < 64) :
    ours nick (addnicktochannel chan nick ident host) = [nick] := by
  have hself : answers nick { nick := clip 64 nick, ident := clip 64 ident, host := clip 256 host } = true := by
    rw [answers, sameName_clip]
    exact strmcmp_iff.2 rfl
  have hnone := ours_eq_nil_iff.2 hnew
  rw [ours, List.map_eq_nil_iff] at hnone
  rw [addnicktochannel, hnew]
  simp only
  rw [ours, List.filter_append, hnone, List.nil_append, List.filter_cons_of_pos hself, List.filter_nil,
    List.map_cons, List.map_nil, clip_eq_self hshort]

theorem ours_removenickfromchannel_other (hother : sameName 64 n nick = false) :
    ours nick (removenickfromchannel chan n) = ours nick chan := by
  have hsafe : ∀ chanuser : Uchannelusert, strmcmp chanuser.nick n = true → (!answers nick chanuser) = true := by
    intro chanuser h
    rw [answers_other hother (answers_of_strmcmp chanuser h)]
    rfl
  have hfilter := filter_not_eraseP hsafe chan.users
  simp only [Bool.not_not] at hfilter
  rw [ours, ours, removenickfromchannel]
  simp only
  rw [hfilter]

theorem ours_removenickfromchannel_self (h : ours nick chan = [] ∨ ours nick chan = [nick]) :
    ours nick (removenickfromchannel chan nick) = [] := by
  have hmem : ∀ chanuser ∈ chan.users, answers nick chanuser = true → chanuser.nick ∈ ours nick chan := by
    intro chanuser hin hanswers
    exact List.mem_map_of_mem (List.mem_filter.2 ⟨hin, hanswers⟩)
  rw [ours_eq_nil_iff, getchannelnick_removed_iff, Spelled, List.countP_eq_length_filter,
    ← List.length_map Uchannelusert.nick]
  rcases h with h | h
  · refine ⟨?_, fun chanuser hin hanswers => ?_⟩
    · rw [← ours, h]
      exact Nat.zero_le 1
    · have hnick := hmem chanuser hin hanswers
      rw [h] at hnick
      cases hnick
  · refine ⟨?_, fun chanuser hin hanswers => ?_⟩
    · rw [← ours, h]
      exact Nat.le_refl 1
    · have hnick := hmem chanuser hin hanswers
      rw [h, List.mem_singleton] at hnick
      exact hnick

theorem ours_setmember (k : Nat) (mode : CStr) : ours nick (setmember chan k mode) = ours nick chan := by
  apply ours_congr
  rw [setmember]
  apply List.ext_getElem?
  intro i
  rw [List.getElem?_map, List.getElem?_map, List.getElem?_modify]
  cases chan.users[i]? with
  | none =>
      rfl
  | some chanuser =>
      by_cases hk : k = i
      · simp [hk]
      · simp [hk]

theorem addintop_keeps (nick mask : CStr) :
    ours nick (addintop chan mask) = ours nick chan ∧ (addintop chan mask).name = chan.name := by
  rw [addintop]
  split
  · exact ⟨rfl, rfl⟩
  · exact ⟨rfl, rfl⟩

/-- A round for a channel: it stays as it is, or the client is added. -/
def Joins (client : Clientt) (chan : Uchannelt) (joined : Uchannelt × Int) : Prop :=
  (joined.2 < 0 ∧ joined.1 = chan) ∨
    (¬ joined.2 < 0 ∧ getchannelnick chan client.nick = none ∧ joined.1.name = chan.name ∧
      ∀ nick, ours nick joined.1 = ours nick (addnicktochannel chan (firstWord client.nick) client.ident client.host))

theorem removeinvite_users (chan : Uchannelt) (nick : CStr) :
    (removeinvite chan nick).users = chan.users ∧ (removeinvite chan nick).name = chan.name := by
  rw [removeinvite]
  split
  · exact ⟨rfl, rfl⟩
  · exact ⟨rfl, rfl⟩

theorem ours_addnick_removeinvite (nick w : CStr) :
    ours nick (addnicktochannel (removeinvite chan w) n ident host) =
        ours nick (addnicktochannel chan n ident host) ∧
      (addnicktochannel (removeinvite chan w) n ident host).name = chan.name := by
  rcases removeinvite_users chan w with ⟨husers, hname⟩
  have hget : getchannelnick (removeinvite chan w) n = getchannelnick chan n := by
    rw [getchannelnick, getchannelnick, husers]
  rw [addnicktochannel, addnicktochannel, hget]
  cases getchannelnick chan n with
  | none =>
      simp only
      refine ⟨?_, hname⟩
      rw [ours, ours, husers]
  | some k =>
      simp only
      refine ⟨?_, hname⟩
      rw [ours, ours, husers]

/-- The client has been added, and what is done then leaves the nicks alone. -/
theorem joins_of_added {joined : Uchannelt} {rc : Int} (hrc : ¬ rc < 0)
    (hon : getchannelnick chan client.nick = none)
    (hname : joined.name = (addnicktochannel (removeinvite chan (firstWord client.nick)) (firstWord client.nick)
      client.ident client.host).name)
    (hours : ∀ nick, ours nick joined = ours nick (addnicktochannel (removeinvite chan (firstWord client.nick))
      (firstWord client.nick) client.ident client.host)) : Joins client chan (joined, rc) := by
  refine Or.inr ⟨hrc, hon, ?_, fun nick => ?_⟩
  · exact hname.trans (ours_addnick_removeinvite [] _).2
  · exact (hours nick).trans (ours_addnick_removeinvite nick _).1

theorem joinround_joins (chan : Uchannelt) (client : Clientt) (key : CStr) :
    Joins client chan (joinround chan client key) := by
  rw [joinround]
  by_cases hon : getchannelnick chan client.nick ≠ none
  · have hneg : (-5 : Int) < 0 := by decide
    simp only [if_pos hon, if_pos hneg]
    exact Or.inl ⟨hneg, rfl⟩
  · rw [if_neg hon]
    rw [not_not] at hon
    by_cases hmay : mayjoin chan client key < 0
    · simp only [if_pos hmay]
      exact Or.inl ⟨hmay, rfl⟩
    · simp only [if_neg hmay]
      split
      · exact joins_of_added hmay hon rfl fun nick => rfl
      · split
        · exact joins_of_added hmay hon rfl fun nick => ours_setmember _ _
        · exact joins_of_added hmay hon rfl fun nick => rfl

theorem openround_joins (chan : Uchannelt) (client : Clientt) (key : CStr) :
    Joins client chan (openround chan client key) := by
  rw [openround]
  by_cases hon : getchannelnick chan client.nick ≠ none
  · have hneg : (-5 : Int) < 0 := by decide
    simp only [if_pos hon, if_pos hneg]
    exact Or.inl ⟨hneg, rfl⟩
  · rw [if_neg hon]
    rw [not_not] at hon
    by_cases hmay : mayjoin chan client key < 0
    · simp only [if_pos hmay]
      exact Or.inl ⟨hmay, rfl⟩
    · simp only [if_neg hmay]
      split
      · exact joins_of_added hmay hon rfl fun nick => rfl
      · refine joins_of_added hmay hon (addintop_keeps [] _).2 fun nick => ?_
        exact (addintop_keeps nick _).1.trans (ours_setmember _ _)

end Channel

/-! ## Lists of channels -/

section Channels

variable {nick : CStr} {channels l₁ l₂ : List Uchannelt} {c c' : Uchannelt}

theorem mine_append (nick : CStr) (l₁ l₂ : List Uchannelt) :
    mine nick (l₁ ++ l₂) = mine nick l₁ ++ mine nick l₂ := by
  rw [mine, List.filter_append, List.map_append]
  rfl

theorem mine_cons (nick : CStr) (c : Uchannelt) (l : List Uchannelt) :
    mine nick (c :: l) = (if ours nick c = [] then [] else [c.name]) ++ mine nick l := by
  rw [mine, mine]
  by_cases h : ours nick c = []
  · rw [if_pos h, List.filter_cons_of_neg (by simp [h])]
    rfl
  · rw [if_neg h, List.filter_cons_of_pos (by simp [h])]
    rfl

theorem mem_mine {name : CStr} :
    name ∈ mine nick channels ↔ ∃ c ∈ channels, ours nick c ≠ [] ∧ c.name = name := by
  rw [mine, List.mem_map]
  simp only [List.mem_filter, decide_eq_true_eq, and_assoc]

/-- The names of channels that a nick is on are different even when case does not count. -/
theorem Membership.nodup_mine (h : Membership nick channels) : ((mine nick channels).map foldName).Nodup := by
  rw [mine, List.map_map]
  exact List.Nodup.sublist (List.filter_sublist.map _) h.names

/-- A channel is replaced. -/
theorem Membership.set (h : Membership nick (l₁ ++ c :: l₂)) (hname : c'.name = c.name)
    (honce : ours nick c' = [] ∨ ours nick c' = [nick]) : Membership nick (l₁ ++ c' :: l₂) := by
  refine ⟨?_, fun d hd => ?_⟩
  · have hnames := h.names
    rw [List.map_append, List.map_cons] at hnames ⊢
    rw [hname]
    exact hnames
  · rcases List.mem_append.1 hd with hd | hd
    · exact h.once d (List.mem_append_left _ hd)
    · rcases List.mem_cons.1 hd with rfl | hd
      · exact honce
      · exact h.once d (List.mem_append_right _ (List.mem_cons_of_mem _ hd))

/-- A channel is removed. -/
theorem Membership.erase (h : Membership nick (l₁ ++ c :: l₂)) : Membership nick (l₁ ++ l₂) := by
  have hsub : (l₁ ++ l₂).Sublist (l₁ ++ c :: l₂) := (List.sublist_cons_self c l₂).append_left l₁
  exact ⟨h.names.sublist (hsub.map _), fun d hd => h.once d (hsub.subset hd)⟩

/-- A channel with a new name is made. -/
theorem Membership.concat (h : Membership nick channels)
    (hnew : ∀ d ∈ channels, foldName d.name ≠ foldName c.name)
    (honce : ours nick c = [] ∨ ours nick c = [nick]) : Membership nick (channels ++ [c]) := by
  refine ⟨?_, fun d hd => ?_⟩
  · rw [List.map_append, List.nodup_append]
    refine ⟨h.names, List.nodup_singleton _, fun a ha b hb => ?_⟩
    rcases List.mem_map.1 ha with ⟨d, hd, rfl⟩
    rw [List.map_cons, List.map_nil, List.mem_singleton] at hb
    rw [hb]
    exact hnew d hd
  · rcases List.mem_append.1 hd with hd | hd
    · exact h.once d hd
    · rw [List.mem_singleton.1 hd]
      exact honce

/-- Nothing happens to the channels that `nick` is on. -/
structure Quiet (nick : CStr) (channels channels' : List Uchannelt) : Prop where
  membership : Membership nick channels → Membership nick channels'
  mine_eq : mine nick channels' = mine nick channels

theorem Quiet.refl (nick : CStr) (channels : List Uchannelt) : Quiet nick channels channels := ⟨id, rfl⟩

theorem Quiet.set (hname : c'.name = c.name) (hours : ours nick c' = ours nick c) :
    Quiet nick (l₁ ++ c :: l₂) (l₁ ++ c' :: l₂) := by
  refine ⟨fun h => h.set hname ?_, ?_⟩
  · rw [hours]
    exact h.once c (List.mem_append_right _ List.mem_cons_self)
  · rw [mine_append, mine_append, mine_cons, mine_cons, hname, hours]

theorem Quiet.erase (hours : ours nick c = []) : Quiet nick (l₁ ++ c :: l₂) (l₁ ++ l₂) := by
  refine ⟨Membership.erase, ?_⟩
  rw [mine_append, mine_append, mine_cons, if_pos hours, List.nil_append]

theorem Quiet.concat (hnew : ∀ d ∈ channels, foldName d.name ≠ foldName c.name) (hours : ours nick c = []) :
    Quiet nick channels (channels ++ [c]) := by
  refine ⟨fun h => h.concat hnew (Or.inl hours), ?_⟩
  rw [mine_append, mine_cons, if_pos hours]
  exact List.append_nil _

theorem exists_middle {k : Nat} (h : channels[k]? = some c) :
    ∃ l₁ l₂, channels = l₁ ++ c :: l₂ ∧ l₁.length = k := by
  rcases List.getElem?_eq_some_iff.1 h with ⟨hk, rfl⟩
  refine ⟨channels.take k, channels.drop (k + 1), ?_, ?_⟩
  · rw [List.getElem_cons_drop, List.take_append_drop]
  · rw [List.length_take, Nat.min_eq_left (Nat.le_of_lt hk)]

/-- The channel of a name, with those in front of it and behind it. -/
theorem exists_channel {name : CStr} {k : Nat} (h : getuserchannel channels name = some k) :
    ∃ l₁ c l₂, channels = l₁ ++ c :: l₂ ∧ l₁.length = k ∧ foldName c.name = foldName name := by
  rcases getuserchannel_eq_some h with ⟨c, hget, hname⟩
  rcases exists_middle hget with ⟨l₁, l₂, hsplit, hlen⟩
  exact ⟨l₁, c, l₂, hsplit, hlen, hname⟩

/-! ## PART -/

/-- The channel that somebody has left stays, or goes when nobody is left on it. -/
theorem storeLeft_middle {name : CStr} (hfound : getuserchannel (l₁ ++ c :: l₂) name = some l₁.length)
    (hfold : foldName c.name = foldName name) (hname : c'.name = c.name) :
    storeLeft (l₁ ++ c :: l₂) l₁.length c'.name c' =
      if c'.users = [] then l₁ ++ l₂ else l₁ ++ c' :: l₂ := by
  have hget : (l₁ ++ c :: l₂)[l₁.length]? = some c := by simp
  have hfound' : getuserchannel (l₁ ++ c :: l₂) c'.name = some l₁.length := by
    rw [hname, getuserchannel_congr hfold]
    exact hfound
  rw [storeLeft_eq hfound' hget hname]
  have herase : (l₁ ++ c :: l₂).eraseIdx l₁.length = l₁ ++ l₂ := by
    rw [List.eraseIdx_append_of_length_le (Nat.le_refl _), Nat.sub_self, List.eraseIdx_cons_zero]
  have hset : (l₁ ++ c :: l₂).set l₁.length c' = l₁ ++ c' :: l₂ := by
    rw [List.set_append_right _ _ (Nat.le_refl _), Nat.sub_self, List.set_cons_zero]
  rw [herase, hset]

theorem Quiet.storeLeft {n name : CStr} (hother : sameName 64 n nick = false)
    (hfound : getuserchannel (l₁ ++ c :: l₂) name = some l₁.length) (hfold : foldName c.name = foldName name) :
    Quiet nick (l₁ ++ c :: l₂)
      (storeLeft (l₁ ++ c :: l₂) l₁.length (removenickfromchannel c n).name (removenickfromchannel c n)) := by
  have hours := @ours_removenickfromchannel_other nick n c hother
  rw [storeLeft_middle hfound hfold (removenickfromchannel_name c n)]
  by_cases hempty : (removenickfromchannel c n).users = []
  · rw [if_pos hempty]
    apply Quiet.erase
    rw [← hours, ours, hempty]
    rfl
  · rw [if_neg hempty]
    exact Quiet.set (removenickfromchannel_name c n) hours

/-- The nick itself leaves a channel that it is on. -/
theorem Membership.storeLeft {name : CStr} (h : Membership nick (l₁ ++ c :: l₂)) (hon : ours nick c ≠ [])
    (hfound : getuserchannel (l₁ ++ c :: l₂) name = some l₁.length) (hfold : foldName c.name = foldName name) :
    Membership nick (storeLeft (l₁ ++ c :: l₂) l₁.length (removenickfromchannel c nick).name
        (removenickfromchannel c nick)) ∧
      (c.name :: mine nick (storeLeft (l₁ ++ c :: l₂) l₁.length (removenickfromchannel c nick).name
        (removenickfromchannel c nick))).Perm (mine nick (l₁ ++ c :: l₂)) := by
  have hours := ours_removenickfromchannel_self (h.once c (List.mem_append_right _ List.mem_cons_self))
  have hmine : mine nick (l₁ ++ c :: l₂) = mine nick l₁ ++ c.name :: mine nick l₂ := by
    rw [mine_append, mine_cons, if_neg hon]
    rfl
  rw [storeLeft_middle hfound hfold (removenickfromchannel_name c nick), hmine]
  by_cases hempty : (removenickfromchannel c nick).users = []
  · rw [if_pos hempty, mine_append]
    exact ⟨h.erase, List.perm_middle.symm⟩
  · rw [if_neg hempty, mine_append, mine_cons, if_pos hours]
    exact ⟨h.set (removenickfromchannel_name c nick) (Or.inl hours), List.perm_middle.symm⟩

/-! ## JOIN -/

/-- A request to join: there is no such channel name, the channel is there, or it is made. -/
theorem userJoin_cases (channels : List Uchannelt) (client : Clientt) (channel key : CStr) :
    userJoin channels client channel key = (channels, none) ∨
      (clip 200 channel).head? = some CHANSIGN ∧
        ((∃ l₁ c l₂, channels = l₁ ++ c :: l₂ ∧ foldName c.name = foldName (clip 200 channel) ∧
            userJoin channels client channel key =
              (l₁ ++ (joinround c client key).1 :: l₂,
                if (joinround c client key).2 < 0 then none else some (joinround c client key).1.name)) ∨
          ∃ c : Uchannelt, c.name = clip 200 channel ∧ c.users = [] ∧
            (∀ d ∈ channels, foldName d.name ≠ foldName c.name) ∧
            userJoin channels client channel key =
              (channels ++ [(openround c client key).1],
                if (openround c client key).2 < 0 then none else some (openround c client key).1.name)) := by
  rw [userJoin]
  by_cases hsign : (clip 200 channel).head? ≠ some CHANSIGN
  · left
    simp only [if_pos hsign]
  · right
    simp only [if_neg hsign]
    rw [not_not] at hsign
    refine ⟨hsign, ?_⟩
    cases hfound : getuserchannel channels (clip 200 channel) with
    | none =>
        right
        have hclip : clip 255 (clip 200 channel) = clip 200 channel := by
          apply clip_eq_self
          rw [length_clip]
          omega
        refine ⟨newchannel (-1) (ascii "ov") (ascii "@+") (ascii "b,k,l,imnpst") (clip 200 channel),
          hclip, rfl, ?_, ?_⟩
        · have hname : (newchannel (-1) (ascii "ov") (ascii "@+") (ascii "b,k,l,imnpst") (clip 200 channel)).name =
              clip 200 channel := hclip
          rw [hname]
          exact getuserchannel_eq_none.1 hfound
        · rw [addintchannel, hfound]
          simp
    | some k =>
        left
        rcases exists_channel hfound with ⟨l₁, c, l₂, rfl, rfl, hname⟩
        refine ⟨l₁, c, l₂, rfl, hname, ?_⟩
        rw [addintchannel, hfound]
        simp

/-- Another client joins. -/
theorem Quiet.round {client : Clientt} {joined : Uchannelt × Int} (hround : Joins client c joined)
    (hother : sameName 64 (firstWord client.nick) nick = false) :
    joined.1.name = c.name ∧ ours nick joined.1 = ours nick c := by
  rcases hround with ⟨_, hchan⟩ | ⟨_, _, hname, hours⟩
  · rw [hchan]
    exact ⟨rfl, rfl⟩
  · exact ⟨hname, (hours nick).trans (ours_addnicktochannel_other hother)⟩

theorem Quiet.userJoin {client : Clientt} (hother : sameName 64 (firstWord client.nick) nick = false)
    (channels : List Uchannelt) (channel key : CStr) :
    Quiet nick channels (userJoin channels client channel key).1 := by
  rcases userJoin_cases channels client channel key with
    hno | ⟨_, ⟨l₁, c, l₂, rfl, _, hjoin⟩ | ⟨c, _, husers, hnew, hjoin⟩⟩
  · rw [hno]
    exact Quiet.refl nick channels
  · rcases Quiet.round (joinround_joins c client key) hother with ⟨hname, hours⟩
    rw [hjoin]
    exact Quiet.set hname hours
  · rcases Quiet.round (openround_joins c client key) hother with ⟨hname, hours⟩
    rw [hjoin]
    apply Quiet.concat
    · rw [hname]
      exact hnew
    · rw [hours, ours, husers]
      rfl

/-- A JOIN of the nick itself: it is on one channel more when it joined, and else on the same. -/
theorem Membership.userJoin {client : Clientt} (h : Membership client.nick channels)
    (hblank : SP ∉ client.nick) (hshort : client.nick.length < 64) (channel key : CStr) :
    Membership client.nick (userJoin channels client channel key).1 ∧
      (((userJoin channels client channel key).2 = none ∧
          mine client.nick (userJoin channels client channel key).1 = mine client.nick channels) ∨
        ∃ name, (userJoin channels client channel key).2 = some name ∧
          foldName name = foldName (clip 200 channel) ∧ (clip 200 channel).head? = some CHANSIGN ∧
          (∀ d ∈ mine client.nick channels, foldName d ≠ foldName name) ∧
          (mine client.nick (userJoin channels client channel key).1).Perm (name :: mine client.nick channels)) := by
  have hword := firstWord_eq_self hblank
  rcases userJoin_cases channels client channel key with
    hno | ⟨hsign, ⟨l₁, c, l₂, rfl, hfold, hjoin⟩ | ⟨c, hc, husers, hnew, hjoin⟩⟩
  · rw [hno]
    exact ⟨h, Or.inl ⟨rfl, rfl⟩⟩
  · rw [hjoin]
    rcases joinround_joins c client key with ⟨hneg, hchan⟩ | ⟨hneg, hon, hname, hours⟩
    · -- The channel is there and does not let the user in.
      rw [hchan, if_pos hneg]
      exact ⟨h, Or.inl ⟨rfl, rfl⟩⟩
    · rw [if_neg hneg, hname]
      have hself : ours client.nick (joinround c client key).1 = [client.nick] := by
        rw [hours, hword]
        exact ours_addnicktochannel_self hon hshort
      refine ⟨h.set hname (Or.inr hself), Or.inr ⟨c.name, rfl, hfold, hsign, ?_, ?_⟩⟩
      · -- the nick is on no channel of the name, for there is only this one
        intro d hd heq
        rcases mem_mine.1 hd with ⟨e, he, hours', rfl⟩
        have hnames := h.names
        rw [List.map_append, List.map_cons, List.nodup_middle, List.nodup_cons, ← List.map_append] at hnames
        rcases List.mem_append.1 he with he | he
        · exact hnames.1 (heq ▸ List.mem_map_of_mem (List.mem_append_left _ he))
        · rcases List.mem_cons.1 he with rfl | he
          · exact hours' (ours_eq_nil_iff.2 hon)
          · exact hnames.1 (heq ▸ List.mem_map_of_mem (List.mem_append_right _ he))
      · rw [mine_append, mine_append, mine_cons, mine_cons, hself, if_neg (List.cons_ne_nil _ _), hname,
          if_pos (ours_eq_nil_iff.2 hon), List.nil_append, List.singleton_append]
        exact List.perm_middle
  · rw [hjoin]
    -- The channel is new.
    have hnone : ours client.nick c = [] := by
      rw [ours, husers]
      rfl
    rcases openround_joins c client key with ⟨hneg, hchan⟩ | ⟨hneg, hon, hname, hours⟩
    · rw [hchan, if_pos hneg]
      have hquiet : Quiet client.nick channels (channels ++ [c]) := Quiet.concat hnew hnone
      exact ⟨hquiet.membership h, Or.inl ⟨rfl, hquiet.mine_eq⟩⟩
    · rw [if_neg hneg, hname]
      have hself : ours client.nick (openround c client key).1 = [client.nick] := by
        rw [hours, hword]
        exact ours_addnicktochannel_self hon hshort
      refine ⟨h.concat ?_ (Or.inr hself), Or.inr ⟨c.name, rfl, ?_, hsign, ?_, ?_⟩⟩
      · rw [hname]
        exact hnew
      · rw [hc]
      · intro d hd
        rcases mem_mine.1 hd with ⟨e, he, _, rfl⟩
        exact hnew e he
      · rw [mine_append, mine_cons, hself, if_neg (List.cons_ne_nil _ _), hname]
        exact List.perm_append_comm

/-! ## Requests and lines to part -/

theorem userPart_cases (net : Intnet) (client : Clientt) (channel irccontent : CStr) :
    ((userPart net client channel irccontent).2 = none ∧
        (userPart net client channel irccontent).1.intchan = net.intchan) ∨
      ∃ l₁ c l₂, net.intchan = l₁ ++ c :: l₂ ∧ foldName c.name = foldName (clip 200 channel) ∧
        getuserchannel net.intchan (clip 200 channel) = some l₁.length ∧ ours client.nick c ≠ [] ∧
        (userPart net client channel irccontent).2 = some c.name ∧
        (userPart net client channel irccontent).1.intchan =
          storeLeft net.intchan l₁.length (removenickfromchannel c client.nick).name
            (removenickfromchannel c client.nick) := by
  rw [userPart]
  by_cases hsign : (clip 200 channel).head? ≠ some CHANSIGN
  · left
    simp only [if_pos hsign]
    exact ⟨trivial, trivial⟩
  · simp only [if_neg hsign]
    cases hfound : getuserchannel net.intchan (clip 200 channel) with
    | none =>
        left
        simp only [partChannel, hfound, Option.bind_none, Option.filter_none, Option.map_none]
        exact ⟨trivial, trivial⟩
    | some k =>
        rcases exists_channel hfound with ⟨l₁, c, l₂, hsplit, rfl, hname⟩
        have hget : net.intchan[l₁.length]? = some c := by
          rw [hsplit]
          simp
        cases hon : getchannelnick c client.nick with
        | none =>
            left
            simp only [partChannel, hfound, Option.bind_some, hget, Option.map_some, hon, Option.filter_some,
              Option.isSome_none, Bool.false_eq_true, if_false, Option.map_none]
            exact ⟨trivial, trivial⟩
        | some i =>
            right
            refine ⟨l₁, c, l₂, hsplit, hname, rfl, ?_, ?_, ?_⟩
            · rw [Ne, ours_eq_nil_iff, hon]
              exact Option.some_ne_none i
            · simp only [Option.bind_some, hget, Option.filter_some, hon, Option.isSome_some, if_true,
                Option.map_some]
            · simp only [partChannel, hfound, Option.bind_some, hget, Option.map_some, hon]

/-- Another client parts. -/
theorem Quiet.userPart {client : Clientt} (hother : sameName 64 client.nick nick = false) (net : Intnet)
    (channel irccontent : CStr) :
    Quiet nick net.intchan (userPart net client channel irccontent).1.intchan := by
  rcases userPart_cases net client channel irccontent with
    ⟨_, hsame⟩ | ⟨l₁, c, l₂, hsplit, hfold, hfound, _, _, hleft⟩
  · rw [hsame]
    exact Quiet.refl nick _
  · rw [hsplit] at hfound
    rw [hleft, hsplit]
    exact Quiet.storeLeft hother hfound hfold

/-- A PART of the nick itself: it is on the channel less, or on the same ones. -/
theorem Membership.userPart {net : Intnet} {client : Clientt} (h : Membership client.nick net.intchan)
    (channel irccontent : CStr) :
    Membership client.nick (userPart net client channel irccontent).1.intchan ∧
      (((userPart net client channel irccontent).2 = none ∧
          mine client.nick (userPart net client channel irccontent).1.intchan = mine client.nick net.intchan) ∨
        ∃ name, (userPart net client channel irccontent).2 = some name ∧
          foldName name = foldName (clip 200 channel) ∧
          (name :: mine client.nick (userPart net client channel irccontent).1.intchan).Perm
            (mine client.nick net.intchan)) := by
  rcases userPart_cases net client channel irccontent with
    ⟨hnone, hsame⟩ | ⟨l₁, c, l₂, hsplit, hfold, hfound, hon, hsome, hleft⟩
  · rw [hsame]
    exact ⟨h, Or.inl ⟨hnone, rfl⟩⟩
  · rw [hsplit] at h hfound
    rw [hleft, hsplit]
    rcases h.storeLeft hon hfound hfold with ⟨hmembership, hperm⟩
    exact ⟨hmembership, Or.inr ⟨c.name, hsome, hfold, hperm⟩⟩

theorem sameName_client {net : Intnet} {n : CStr} {client : Clientt} (hclient : getclientbynick net n = some client)
    (hother : sameName 64 n nick = false) : sameName 64 client.nick nick = false := by
  have hsame : sameName 64 n client.nick = true := by
    simpa using List.find?_some hclient
  rw [← Bool.not_eq_true] at hother ⊢
  intro heq
  apply hother
  rw [sameName, strmcmp_iff] at hsame heq ⊢
  rw [hsame, heq]

theorem modify_middle (l₁ l₂ : List Uchannelt) (c : Uchannelt) (f : Uchannelt → Uchannelt) :
    (l₁ ++ c :: l₂).modify l₁.length f = l₁ ++ f c :: l₂ := by
  induction l₁ with
  | nil =>
      rfl
  | cons d l₁ ih =>
      rw [List.cons_append, List.length_cons, List.modify_succ_cons, ih, List.cons_append]

/-- A JOIN of another client that comes over a link. -/
theorem Quiet.cmdintjoin {irc : Parsed} (hother : sameName 64 irc.ircnick nick = false) (net : Intnet)
    (ircbuf : CStr) (link : Nat) : Quiet nick net.intchan (cmdintjoin net irc ircbuf link).1.intchan := by
  rw [PsyBnc.cmdintjoin]
  cases hclient : getclientbynick net irc.ircnick with
  | none =>
      exact Quiet.refl nick _
  | some client =>
      have hours : ∀ c : Uchannelt, ours nick (addnicktochannel (removeinvite c client.nick) client.nick client.ident
          client.host) = ours nick c := by
        intro c
        exact (ours_addnick_removeinvite nick client.nick).1.trans
          (ours_addnicktochannel_other (sameName_client hclient hother))
      simp only
      rw [addintchannel]
      cases hfound : getuserchannel net.intchan irc.ircto with
      | none =>
          have hclip : foldName (clip 255 irc.ircto) = foldName irc.ircto := by
            rw [foldName, foldName, clip, clip, List.take_take, Nat.min_self]
          have hnew : ∀ c : Uchannelt, c.name = clip 255 irc.ircto →
              ∀ d ∈ net.intchan, foldName d.name ≠ foldName c.name := by
            intro c hc
            rw [hc, hclip]
            exact getuserchannel_eq_none.1 hfound
          simp only
          rw [modify_middle]
          apply Quiet.concat
          · rw [(ours_addnick_removeinvite [] client.nick).2]
            exact hnew _ rfl
          · rw [hours]
            rfl
      | some k =>
          rcases exists_channel hfound with ⟨l₁, c, l₂, hsplit, rfl, _⟩
          simp only
          rw [hsplit]
          rw [modify_middle]
          exact Quiet.set (ours_addnick_removeinvite [] client.nick).2 (hours c)

/-- A PART of another client that comes over a link. -/
theorem Quiet.cmdintpart {irc : Parsed} (hother : sameName 64 irc.ircnick nick = false) (net : Intnet)
    (ircbuf : CStr) (link : Nat) : Quiet nick net.intchan (cmdintpart net irc ircbuf link).1.intchan := by
  rw [PsyBnc.cmdintpart]
  cases hclient : getclientbynick net irc.ircnick with
  | none =>
      exact Quiet.refl nick _
  | some client =>
      cases hfound : getuserchannel net.intchan irc.ircto with
      | none =>
          exact Quiet.refl nick _
      | some k =>
          rcases exists_channel hfound with ⟨l₁, c, l₂, hsplit, rfl, hname⟩
          have hget : net.intchan[l₁.length]? = some c := by
            rw [hsplit]
            simp
          simp only [hget]
          cases hon : getchannelnick c irc.ircnick with
          | none =>
              exact Quiet.refl nick _
          | some i =>
              rw [hsplit] at hfound
              simp only
              rw [hsplit]
              exact Quiet.storeLeft hother hfound hname

end Channels

end PsyBnc
