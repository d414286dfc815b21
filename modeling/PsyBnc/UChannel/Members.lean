import PsyBnc.Lib.Lookup
import PsyBnc.UChannel.Load

/-!
# Members of a channel (`p_uchannel.c`)

`getchannelnick` compares upper-cased copies of 63 bytes at most, `removenickfromchannel` compares
the nicks as they are.
-/

namespace PsyBnc

open CLib

def removenickfromchannel (channel : Uchannelt) (nick : CStr) : Uchannelt :=
  { channel with users := channel.users.eraseP fun chanuser => strmcmp chanuser.nick nick }

@[simp] theorem removenickfromchannel_name (channel : Uchannelt) (nick : CStr) :
    (removenickfromchannel channel nick).name = channel.name := rfl

/-- `nickchange`, on the channels of a user or on those of the internal network. -/
def nickchange (channels : List Uchannelt) (oldnick newnick : CStr) : List Uchannelt :=
  channels.map fun channel =>
    match getchannelnick channel oldnick with
    | none => channel
    | some k =>
        { channel with users := channel.users.modify k fun chanuser =>
            { chanuser with nick := clip 64 newnick } }

/-- `removechannelfromuser(-1, …)`. -/
def removeintchannel (channels : List Uchannelt) (channel : CStr) : List Uchannelt :=
  match getuserchannel channels channel with
  | none => channels
  | some k => channels.eraseIdx k

/-- The loop of `removenickfromallchannels(-1, …)`; `n` channels are left to look at, from the one
at `i` on. -/
def removenickLoop (nick : CStr) : Nat → Nat → List Uchannelt → List Uchannelt
  | 0, _, channels => channels
  | n + 1, i, channels =>
      match channels[i]? with
      | none => channels
      | some channel =>
          let echannel := removenickfromchannel channel nick
          let channels := channels.set i echannel
          if echannel.users = [] then
            -- the next channel has moved up to `i`
            removenickLoop nick n i (removeintchannel channels echannel.name)
          else removenickLoop nick n (i + 1) channels

def removenickfromallchannels (channels : List Uchannelt) (nick : CStr) : List Uchannelt :=
  removenickLoop nick channels.length 0 channels

/-! ## Removal and lookup -/

theorem sameName_comm (n : Nat) (one two : CStr) : sameName n one two = sameName n two one := by
  rw [Bool.eq_iff_iff, sameName, sameName, strmcmp_iff, strmcmp_iff]
  exact eq_comm

theorem sameName_clip (one two : CStr) : sameName 64 (clip 64 one) two = sameName 64 one two := by
  rw [sameName, sameName, clip_clip]

/-- A member for which `getchannelnick` answers. -/
def answers (nick : CStr) (chanuser : Uchannelusert) : Bool := sameName 64 chanuser.nick nick

/-- The members that are left are those that do not answer to `nick`. -/
def Removed (before after : Uchannelt) (nick : CStr) : Prop :=
  getchannelnick after nick = none ∧
    after.users = before.users.filter fun chanuser => !answers nick chanuser

/-- One member at most answers to `nick`, and it is spelled like this. -/
def Spelled (channel : Uchannelt) (nick : CStr) : Prop :=
  channel.users.countP (answers nick) ≤ 1 ∧
    ∀ chanuser ∈ channel.users, answers nick chanuser = true → chanuser.nick = nick

instance (channel : Uchannelt) (nick : CStr) : Decidable (Spelled channel nick) :=
  inferInstanceAs (Decidable (_ ∧ _))

theorem answers_of_strmcmp {nick : CStr} (chanuser : Uchannelusert)
    (h : strmcmp chanuser.nick nick = true) : answers nick chanuser = true := by
  rw [answers, sameName, strmcmp_iff.1 h]
  exact strmcmp_iff.2 rfl

/-- Nicks that are the same up to case and length lead to the same member. -/
theorem getchannelnick_congr {one two : CStr} (h : sameName 64 one two = true)
    (channel : Uchannelt) : getchannelnick channel one = getchannelnick channel two := by
  rw [sameName, strmcmp_iff] at h
  simp only [getchannelnick, sameName, h]

theorem getuserchannel_congr {one two : CStr} (h : foldName one = foldName two)
    (channels : List Uchannelt) : getuserchannel channels one = getuserchannel channels two := by
  rw [foldName, foldName] at h
  simp only [getuserchannel, sameName, h]

theorem getchannelnick_none_iff {channel : Uchannelt} {nick : CStr} :
    getchannelnick channel nick = none ↔
      ∀ chanuser ∈ channel.users, answers nick chanuser = false := by
  rw [getchannelnick, List.findIdx?_eq_none_iff]
  rfl

theorem spelled_iff {channel : Uchannelt} {nick : CStr} :
    (removenickfromchannel channel nick).users =
        channel.users.filter (fun chanuser => !answers nick chanuser) ↔
      Spelled channel nick := by
  have herase : (removenickfromchannel channel nick).users = _ ↔ _ :=
    eraseP_eq_filter_iff answers_of_strmcmp channel.users
  rw [herase, Spelled]
  simp only [strmcmp_iff]

theorem getchannelnick_removed_iff {channel : Uchannelt} {nick : CStr} :
    getchannelnick (removenickfromchannel channel nick) nick = none ↔ Spelled channel nick := by
  rw [getchannelnick_none_iff, ← spelled_iff]
  exact eraseP_all_false_iff answers_of_strmcmp channel.users

theorem removed_iff {channel : Uchannelt} {nick : CStr} :
    Removed channel (removenickfromchannel channel nick) nick ↔ Spelled channel nick := by
  rw [Removed, getchannelnick_removed_iff, spelled_iff, and_self_iff]

/-! ## All channels -/

/-- The channels after a nick has left all of them. -/
def leaveAll (channels : List Uchannelt) (nick : CStr) : List Uchannelt :=
  (channels.map fun channel => removenickfromchannel channel nick).filter
    fun channel => decide (channel.users ≠ [])

/-- A channel whose name is not found before it is the one that is removed. -/
theorem removeintchannel_append {front back : List Uchannelt} {channel : Uchannelt}
    (hfront : ∀ c ∈ front, foldName c.name ≠ foldName channel.name) :
    removeintchannel (front ++ channel :: back) channel.name = front ++ back := by
  have hnone : front.findIdx? (fun lkm => sameName 255 lkm.name channel.name) = none :=
    getuserchannel_eq_none.2 hfront
  have hself : sameName 255 channel.name channel.name = true := sameName_iff.2 rfl
  have hfound : getuserchannel (front ++ channel :: back) channel.name = some front.length := by
    rw [getuserchannel, List.findIdx?_append, hnone]
    simp [List.findIdx?_cons, hself]
  rw [removeintchannel, hfound]
  simp [List.eraseIdx_append_of_length_le]

theorem removenickLoop_eq (nick : CStr) {rest : List Uchannelt} :
    ∀ {front : List Uchannelt}, ((front ++ rest).map fun c => foldName c.name).Nodup →
      removenickLoop nick rest.length front.length (front ++ rest) =
        front ++ leaveAll rest nick := by
  induction rest with
  | nil =>
      intro front _
      rw [List.length_nil, removenickLoop]
      rfl
  | cons channel rest ih =>
      intro front hnodup
      have hget : (front ++ channel :: rest)[front.length]? = some channel := by simp
      have hset : (front ++ channel :: rest).set front.length (removenickfromchannel channel nick) =
          front ++ removenickfromchannel channel nick :: rest := by simp
      rw [List.length_cons, removenickLoop, hget]
      simp only [hset]
      split
      · next hempty =>
        have hfront : ∀ c ∈ front,
            foldName c.name ≠ foldName (removenickfromchannel channel nick).name := by
          intro c hc heq
          rw [List.map_append, List.nodup_append] at hnodup
          exact hnodup.2.2 _ (List.mem_map_of_mem hc) _ List.mem_cons_self heq
        have hrest : ((front ++ rest).map fun c => foldName c.name).Nodup :=
          hnodup.sublist ((List.Sublist.append_left (List.sublist_cons_self _ _) _).map _)
        rw [removeintchannel_append hfront, ih hrest]
        simp [leaveAll, hempty]
      · next hnonempty =>
        have hrest : (((front ++ [removenickfromchannel channel nick]) ++ rest).map
            fun c => foldName c.name).Nodup := by
          simpa [removenickfromchannel] using hnodup
        have happend : front ++ removenickfromchannel channel nick :: rest =
            (front ++ [removenickfromchannel channel nick]) ++ rest := by simp
        have hlength : front.length + 1 = (front ++ [removenickfromchannel channel nick]).length := by
          simp
        rw [happend, hlength, ih hrest]
        simp [leaveAll, hnonempty]

theorem removenickfromallchannels_eq {channels : List Uchannelt} (nick : CStr)
    (hnodup : (channels.map fun c => foldName c.name).Nodup) :
    removenickfromallchannels channels nick = leaveAll channels nick := by
  have hnodup' : ((([] : List Uchannelt) ++ channels).map fun c => foldName c.name).Nodup := hnodup
  exact removenickLoop_eq nick hnodup'

/-- No channel that is left has a member that answers, exactly if every channel spells it so. -/
theorem leaveAll_gone_iff {channels : List Uchannelt} {nick : CStr} :
    (∀ channel ∈ leaveAll channels nick, getchannelnick channel nick = none) ↔
      ∀ channel ∈ channels, Spelled channel nick := by
  constructor
  · intro hgone channel hchannel
    rw [← getchannelnick_removed_iff]
    by_cases hempty : (removenickfromchannel channel nick).users = []
    · rw [getchannelnick, hempty]
      rfl
    · apply hgone
      rw [leaveAll, List.mem_filter]
      exact ⟨List.mem_map_of_mem hchannel, by simpa using hempty⟩
  · intro hspelled channel hchannel
    rw [leaveAll, List.mem_filter] at hchannel
    rcases List.mem_map.1 hchannel.1 with ⟨c, hc, rfl⟩
    exact getchannelnick_removed_iff.2 (hspelled c hc)

end PsyBnc
