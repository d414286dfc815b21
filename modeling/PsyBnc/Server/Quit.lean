import PsyBnc.Server.Join

/-!
# QUIT of somebody else

`removenickfromallchannels` drops each channel that is left without members, for a user as for the internal network;
the entry of the channel in the configuration goes with it.
-/

namespace PsyBnc

open CLib

section Loop

variable {nick : CStr} {u : Usert} {conf : Conf}

theorem Keeps.length_le {u u' : Usert} (h : Keeps u u') : u'.channels.length ≤ u.channels.length := by
  have hlen := h.1.length_le
  rw [tags, tags, List.length_map, List.length_map] at hlen
  exact hlen

/-- A channel that is looked up under its name is dropped. -/
theorem length_removechannelfromuser {k : Nat} {chan : Uchannelt} {left : Usert × Conf}
    (hget : u.channels[k]? = some chan) (h : removechannelfromuser u chan.name conf = some left) :
    left.1.channels.length < u.channels.length := by
  rw [removechannelfromuser] at h
  cases hfound : getuserchannel u.channels chan.name with
  | none =>
      have hmem := List.mem_of_getElem? hget
      exact absurd rfl (getuserchannel_eq_none.1 hfound chan hmem)
  | some j =>
      rw [hfound] at h
      rcases Option.bind_eq_some_iff.1 h with ⟨conf', _, h⟩
      rcases Option.map_eq_some_iff.1 h with ⟨conf'', _, rfl⟩
      have hj := (List.findIdx?_eq_some_iff_getElem.1 hfound).1
      simp only
      rw [List.length_eraseIdx_of_lt hj]
      omega

/-- The channels from `done.length` on are looked at; all of them keep a member. -/
theorem quitLoop_of_kept {rest : List Uchannelt} (hkept : ∀ chan ∈ rest, (removenickfromchannel chan nick).users ≠ [])
    (done : List Uchannelt) :
    quitLoop nick rest.length done.length { u with channels := done ++ rest } conf =
      some ({ u with channels := done ++ rest.map fun chan => removenickfromchannel chan nick }, conf) := by
  induction rest generalizing done with
  | nil =>
      rfl
  | cons chan rest ih =>
      have hget : (done ++ chan :: rest)[done.length]? = some chan := by simp
      have hset : (done ++ chan :: rest).set done.length (removenickfromchannel chan nick) =
          (done ++ [removenickfromchannel chan nick]) ++ rest := by
        rw [List.set_append_right _ _ (Nat.le_refl _), Nat.sub_self, List.set_cons_zero, List.append_assoc]
        rfl
      have hnext := ih (fun c hc => hkept c (List.mem_cons_of_mem _ hc)) (done ++ [removenickfromchannel chan nick])
      rw [List.length_append, List.length_singleton] at hnext
      rw [List.length_cons, quitLoop]
      simp only [hget, hset, if_neg (hkept chan List.mem_cons_self)]
      rw [hnext, List.map_cons, List.append_assoc, List.singleton_append]

/-- A channel that keeps none is dropped. -/
theorem quitLoop_drops {rest : List Uchannelt} (hempty : ∃ chan ∈ rest, (removenickfromchannel chan nick).users = [])
    (done : List Uchannelt) {left : Usert × Conf}
    (h : quitLoop nick rest.length done.length { u with channels := done ++ rest } conf = some left) :
    left.1.channels.length < (done ++ rest).length := by
  induction rest generalizing done with
  | nil =>
      rcases hempty with ⟨chan, hchan, _⟩
      cases hchan
  | cons chan rest ih =>
      have hget : (done ++ chan :: rest)[done.length]? = some chan := by simp
      have hset : (done ++ chan :: rest).set done.length (removenickfromchannel chan nick) =
          (done ++ [removenickfromchannel chan nick]) ++ rest := by
        rw [List.set_append_right _ _ (Nat.le_refl _), Nat.sub_self, List.set_cons_zero, List.append_assoc]
        rfl
      have hlen : ((done ++ [removenickfromchannel chan nick]) ++ rest).length = (done ++ chan :: rest).length := by
        simp
      rw [List.length_cons, quitLoop] at h
      simp only [hget, hset] at h
      by_cases hnone : (removenickfromchannel chan nick).users = []
      · rw [if_pos hnone] at h
        rcases Option.bind_eq_some_iff.1 h with ⟨left', hleft, h⟩
        have hget' : ((done ++ [removenickfromchannel chan nick]) ++ rest)[done.length]? =
            some (removenickfromchannel chan nick) := by simp
        have hshorter := length_removechannelfromuser hget' hleft
        have hrest := (keeps_quitLoop h).length_le
        simp only at hshorter
        rw [hlen] at hshorter
        exact Nat.lt_of_le_of_lt hrest hshorter
      · rw [if_neg hnone] at h
        have hempty' : ∃ chan ∈ rest, (removenickfromchannel chan nick).users = [] := by
          rcases hempty with ⟨c, hc, hgone⟩
          rcases List.mem_cons.1 hc with rfl | hc
          · exact absurd hgone hnone
          · exact ⟨c, hc, hgone⟩
        have hnext := ih hempty' (done ++ [removenickfromchannel chan nick])
          (by rw [List.length_append, List.length_singleton]; exact h)
        rw [hlen] at hnext
        exact hnext

end Loop

/-- The nick is all that there is on the channel, or nobody is. -/
def Uchannelt.LeftBy (chan : Uchannelt) (nick : CStr) : Prop :=
  chan.users = [] ∨ ∃ chanuser, chan.users = [chanuser] ∧ strmcmp chanuser.nick nick = true

theorem removenickfromchannel_users_eq_nil {chan : Uchannelt} {nick : CStr} :
    (removenickfromchannel chan nick).users = [] ↔ chan.LeftBy nick := by
  rw [removenickfromchannel, List.eraseP_eq_nil_iff, Uchannelt.LeftBy]
  constructor
  · rintro (hnil | ⟨chanuser, hnick, hone⟩)
    · exact Or.inl hnil
    · exact Or.inr ⟨chanuser, hone, hnick⟩
  · rintro (hnil | ⟨chanuser, hone, hnick⟩)
    · exact Or.inl hnil
    · exact Or.inr ⟨chanuser, hnick, hone⟩

instance (chan : Uchannelt) (nick : CStr) : Decidable (chan.LeftBy nick) :=
  decidable_of_iff ((removenickfromchannel chan nick).users = []) removenickfromchannel_users_eq_nil

/-- Somebody else is gone from the lists of members. -/
def UserSession.withoutNick (s : UserSession) (nick : CStr) : UserSession :=
  { s with user := { s.user with channels := s.user.channels.map fun chan => removenickfromchannel chan nick } }

/-- The channels of the user and the configuration stay as they are exactly when each channel has another member. -/
theorem gotquit_keeps_channels_iff (s : UserSession) (irc : Parsed) (hother : strmcmp irc.ircnick s.nick = false) :
    gotquit s irc = some (s.withoutNick irc.ircnick) ↔
      ∀ chan ∈ s.user.channels, ¬ chan.LeftBy irc.ircnick := by
  rw [gotquit, hother, if_neg Bool.false_ne_true, removenickfromuser]
  constructor
  · intro h chan hchan hnone
    rcases Option.map_eq_some_iff.1 h with ⟨left, hleft, hsame⟩
    have hempty := removenickfromchannel_users_eq_nil.2 hnone
    have hdrop := @quitLoop_drops irc.ircnick s.user s.conf s.user.channels ⟨chan, hchan, hempty⟩ [] left hleft
    have hchannels := congrArg (fun s : UserSession => s.user.channels.length) hsame
    simp only [UserSession.withoutNick, List.length_map] at hchannels
    rw [hchannels, List.nil_append] at hdrop
    exact Nat.lt_irrefl _ hdrop
  · intro hkept
    have hmember : ∀ chan ∈ s.user.channels, (removenickfromchannel chan irc.ircnick).users ≠ [] :=
      fun chan hchan hempty => hkept chan hchan (removenickfromchannel_users_eq_nil.1 hempty)
    have hloop := @quitLoop_of_kept irc.ircnick s.user s.conf s.user.channels hmember []
    rw [List.nil_append, List.nil_append] at hloop
    have hloop' : quitLoop irc.ircnick s.user.channels.length 0 s.user s.conf =
        some ({ s.user with channels := s.user.channels.map fun chan => removenickfromchannel chan irc.ircnick },
          s.conf) := hloop
    rw [hloop']
    rfl

/-! ## After a KICK -/

theorem quitUid_pos : 0 < 1 := by decide

theorem quitUid_lt : 1 < 2 ^ 31 := by decide

/-- A user who is on `#b` with somebody else, and who was kicked from `#a` when `users` is empty. -/
def quitSession (users : List Uchannelusert) : UserSession where
  user :=
    { uid := 1, prefixmodes := ascii "ov", prefixchars := ascii "@+", chanmodes := ascii "b,k,l,imnpst"
      channels :=
        [{ name := ascii "#a", users := users }, { name := ascii "#b", isentry := 1, users := [{ nick := ascii "me" }] }]
      uid_pos := quitUid_pos
      uid_lt := quitUid_lt }
  nick := ascii "me"
  login := ascii "me"
  host := ascii "home"
  conf := [ascii "USER1.USER.LOGIN=me", ascii "USER1.CHANNELS.ENTRY0=#a", ascii "USER1.CHANNELS.ENTRY1=#b"]
  net := { me := ascii "hub" }

def quitLine : CStr := ascii ":bob!b@h QUIT :bye"

theorem gotquit_keeps_channels_me :
    gotquit (quitSession [{ nick := ascii "me" }, { nick := ascii "bob" }]) (parse quitLine) =
      some ((quitSession [{ nick := ascii "me" }, { nick := ascii "bob" }]).withoutNick (parse quitLine).ircnick) :=
  (gotquit_keeps_channels_iff _ _ (by decide +kernel)).2 (by decide +kernel)

/-- The channel that the user was kicked from is forgotten with its entry. -/
theorem gotquit_kicked :
    strmcmp (parse quitLine).ircnick (quitSession []).nick = false ∧
      (gotquit (quitSession []) (parse quitLine)).map (fun s => (s.user.channels.map Uchannelt.name, s.conf)) =
        some ([ascii "#b"], [ascii "USER1.USER.LOGIN=me", ascii "USER1.CHANNELS.ENTRY1=#b"]) := by
  decide +kernel

end PsyBnc
