import PsyBnc.UChannel.Slots
import Mathlib.Data.List.Nodup
import Mathlib.Data.List.Perm.Basic

/-!
# Loading the channels of a user

`Agrees uid channels conf`: the configuration holds the channel list, every channel under a slot of
its own, and nothing else in the section.  From such a configuration `loadchannels` makes the same
list, in the order of the slots.
-/

namespace PsyBnc

open CLib

/-- What `sameName 255` compares. -/
def foldName (name : CStr) : CStr := ucase (clip 255 name)

/-- The key that `loadchannels` makes of what `getini` found. -/
def storedKey (value : Option CStr) : Option CStr :=
  match value with
  | none => some []
  | some v => (decryptit buildSalt v).map (clip 64)

structure Agrees (uid : Nat) (channels : List Uchannelt) (conf : Conf) : Prop where
  unique : UniqueKeys conf
  slots : (channels.map Uchannelt.isentry).Nodup
  names : (channels.map fun c => foldName c.name).Nodup
  own : ∀ c ∈ channels, c.usern = uid ∧ c.isentry < 40
  entry : ∀ c ∈ channels, slotValue uid conf .entry c.isentry = some c.name
  key : ∀ c ∈ channels, storedKey (slotValue uid conf .key c.isentry) = some c.key
  only : ∀ e ∈ conf, channelSect uid <+: e →
    ∃ c ∈ channels, ∃ kind, keyOf e = some (slotText uid kind c.isentry)

/-! ## Looking up -/

section Lookup

variable {channels : List Uchannelt} {name : CStr}

theorem sameName_iff {one two : CStr} : sameName 255 one two = true ↔ foldName one = foldName two :=
  strmcmp_iff

theorem getuserchannel_eq_none :
    getuserchannel channels name = none ↔ ∀ c ∈ channels, foldName c.name ≠ foldName name := by
  rw [getuserchannel, List.findIdx?_eq_none_iff]
  refine forall₂_congr fun c _ => ?_
  rw [← Bool.not_eq_true, sameName_iff]

theorem getuserchannel_eq_some {k : Nat} (h : getuserchannel channels name = some k) :
    ∃ c, channels[k]? = some c ∧ foldName c.name = foldName name := by
  rcases List.findIdx?_eq_some_iff_getElem.1 h with ⟨hk, hsame, _⟩
  exact ⟨channels[k], List.getElem?_eq_getElem hk, sameName_iff.1 hsame⟩

theorem slotValue_eq_lookup {uid : Nat} (huid : uid < 2 ^ 31) (conf : Conf) (kind : SlotKind)
    {i : Nat} (hi : i < 256) : slotValue uid conf kind i = lookup conf (slotKey huid kind hi) := rfl

end Lookup

/-! ## Facts about an agreeing cache -/

namespace Agrees

variable {uid : Nat} {channels : List Uchannelt} {conf : Conf}

theorem slot_lt (h : Agrees uid channels conf) {c : Uchannelt} (hc : c ∈ channels) :
    c.isentry < 256 := by
  have := (h.own c hc).2
  omega

/-- Two channels in one slot are one channel. -/
theorem eq_of_slot (h : Agrees uid channels conf) {c d : Uchannelt} (hc : c ∈ channels)
    (hd : d ∈ channels) (hslot : c.isentry = d.isentry) : c = d :=
  List.inj_on_of_nodup_map h.slots hc hd hslot

theorem eq_of_name (h : Agrees uid channels conf) {c d : Uchannelt} (hc : c ∈ channels)
    (hd : d ∈ channels) (hname : foldName c.name = foldName d.name) : c = d :=
  List.inj_on_of_nodup_map h.names hc hd hname

theorem channelSect_pre {e : CStr} {kind : SlotKind} {i : Nat}
    (hkey : keyOf e = some (slotText uid kind i)) : channelSect uid <+: e := by
  rcases Option.map_eq_some_iff.1 hkey with ⟨⟨u, d⟩, hcut, hu⟩
  rcases cutAt_eq_some.1 hcut with ⟨rfl, _⟩
  refine ⟨kind.text ++ (dec i ++ EQUALS :: d), ?_⟩
  have hu' : u = slotText uid kind i := hu
  simp [hu', slotText]

/-- A line of a slot is a line of a channel in that slot. -/
theorem exists_of_line (h : Agrees uid channels conf) {e : CStr} (he : e ∈ conf) {kind : SlotKind}
    {i : Nat} (hkey : keyOf e = some (slotText uid kind i)) : ∃ c ∈ channels, c.isentry = i := by
  rcases h.only e he (channelSect_pre hkey) with ⟨c, hc, kind', hkey'⟩
  have heq : slotText uid kind' c.isentry = slotText uid kind i := by
    rw [hkey] at hkey'
    exact (Option.some.inj hkey').symm
  exact ⟨c, hc, (slotText_injective heq).2⟩

theorem slotValue_eq_none (h : Agrees uid channels conf) (huid : uid < 2 ^ 31) {i : Nat}
    (hi : i < 256) (hfree : ∀ c ∈ channels, c.isentry ≠ i) (kind : SlotKind) :
    slotValue uid conf kind i = none := by
  rw [slotValue_eq_lookup huid conf kind hi]
  refine lookup_eq_none_of_forall fun e he hkey => ?_
  rw [text_slotKey] at hkey
  rcases h.exists_of_line he hkey with ⟨c, hc, hslot⟩
  exact hfree c hc hslot

end Agrees

/-! ## The loop -/

/-- The channels in the first `n` slots. -/
def inSlots (channels : List Uchannelt) (n : Nat) : List Uchannelt :=
  (List.range n).filterMap fun i => channels.find? fun c => c.isentry == i

/-- What is loaded of a channel. -/
def nameKey (c : Uchannelt) : CStr × CStr := (c.name, c.key)

section Loop

variable {uid : Nat} {channels : List Uchannelt} {conf : Conf}

theorem mem_inSlots (h : Agrees uid channels conf) {n : Nat} {c : Uchannelt} :
    c ∈ inSlots channels n ↔ c ∈ channels ∧ c.isentry < n := by
  simp only [inSlots, List.mem_filterMap, List.mem_range]
  constructor
  · rintro ⟨i, hi, hfind⟩
    have hslot : c.isentry = i := by simpa using List.find?_some hfind
    exact ⟨List.mem_of_find?_eq_some hfind, hslot ▸ hi⟩
  · rintro ⟨hc, hlt⟩
    refine ⟨c.isentry, hlt, ?_⟩
    cases hfind : channels.find? fun d => d.isentry == c.isentry with
    | none =>
        exact absurd (List.find?_eq_none.1 hfind c hc) (by simp)
    | some d =>
        have hslot : d.isentry = c.isentry := by simpa using List.find?_some hfind
        exact congrArg some (h.eq_of_slot (List.mem_of_find?_eq_some hfind) hc hslot)

theorem nodup_inSlots (n : Nat) : (inSlots channels n).Nodup := by
  refine List.nodup_range.filterMap ?_
  intro i j c hi hj
  have h₁ : c.isentry = i := by simpa using List.find?_some (Option.mem_def.1 hi)
  have h₂ : c.isentry = j := by simpa using List.find?_some (Option.mem_def.1 hj)
  exact h₁.symm.trans h₂

/-- All slots together hold the whole list. -/
theorem inSlots_perm (h : Agrees uid channels conf) : (inSlots channels 40).Perm channels := by
  refine (List.perm_ext_iff_of_nodup (nodup_inSlots 40) h.slots.of_map).2 fun c => ?_
  rw [mem_inSlots h]
  exact ⟨fun hc => hc.1, fun hc => ⟨hc, (h.own c hc).2⟩⟩

theorem inSlots_succ (n : Nat) :
    inSlots channels (n + 1) =
      inSlots channels n ++ (channels.find? fun c => c.isentry == n).toList := by
  rw [inSlots, List.range_succ, List.filterMap_append]
  cases h : channels.find? fun c => c.isentry == n with
  | none =>
      simp [inSlots, h]
  | some c =>
      simp [inSlots, h]

theorem modify_last {α : Type} (l : List α) (x : α) (f : α → α) :
    (l ++ [x]).modify l.length f = l ++ [f x] := by
  induction l with
  | nil =>
      rfl
  | cons y l ih =>
      simpa using ih

/-- A round for a free slot. -/
theorem loadchannel_free (h : Agrees uid channels conf) {u : Usert} (hu : u.uid = uid) {n : Nat}
    (hn : n < 256) (hfree : ∀ c ∈ channels, c.isentry ≠ n) : loadchannel conf u n = some u := by
  subst hu
  have hnone := h.slotValue_eq_none u.uid_lt hn hfree .entry
  simp only [slotValue, SlotKind.text] at hnone
  simp only [loadchannel, hnone]

/-- A round for the slot of a channel that is not there yet. -/
theorem loadchannel_channel (h : Agrees uid channels conf) {u : Usert} (hu : u.uid = uid)
    {c : Uchannelt} (hc : c ∈ channels)
    (hnew : ∀ d ∈ u.channels, foldName d.name ≠ foldName c.name) :
    ∃ u', loadchannel conf u c.isentry = some u' ∧ u'.uid = uid ∧
      u'.channels.map nameKey = u.channels.map nameKey ++ [nameKey c] := by
  subst hu
  have hentry := h.entry c hc
  have hkey := h.key c hc
  have hname : c.name.length < 255 := by
    have hlook := hentry
    rw [slotValue_eq_lookup u.uid_lt conf .entry (h.slot_lt hc), lookup_eq] at hlook
    rcases List.exists_of_findSome?_eq_some hlook with ⟨e, _, he⟩
    rcases Option.map_eq_some_iff.1 he with ⟨d, _, hd⟩
    have hlen := congrArg List.length hd
    rw [length_clip] at hlen
    omega
  simp only [slotValue, SlotKind.text] at hentry hkey
  have hfresh : getuserchannel u.channels c.name = none := getuserchannel_eq_none.2 hnew
  simp only [loadchannel, hentry, addchanneltouser, hfresh, if_true, Option.bind_some]
  cases hvalue : getini (ascii "CHANNELS") (ascii "KEY" ++ dec c.isentry) (userFile u.uid) conf with
  | none =>
      have hnil : c.key = [] := by simpa [hvalue, storedKey] using hkey.symm
      refine ⟨_, rfl, rfl, ?_⟩
      simp [modify_last, nameKey, newchannel, hnil, clip_eq_self hname]
  | some value =>
      rw [hvalue, storedKey] at hkey
      rcases Option.map_eq_some_iff.1 hkey with ⟨key, hdec, hclip⟩
      simp only [hdec, Option.map_some]
      refine ⟨_, rfl, rfl, ?_⟩
      simp [modify_last, nameKey, newchannel, hclip, clip_eq_self hname]

theorem loadLoop_spec (h : Agrees uid channels conf) {u : Usert} (hu : u.uid = uid)
    (hempty : u.channels = []) {n : Nat} (hn : n ≤ 256) :
    ∃ u', (List.range n).foldlM (loadchannel conf) u = some u' ∧ u'.uid = uid ∧
      u'.channels.map nameKey = (inSlots channels n).map nameKey := by
  induction n with
  | zero =>
      exact ⟨u, rfl, hu, by simp [hempty, inSlots]⟩
  | succ n ih =>
      rcases ih (by omega) with ⟨v, hv, hvuid, hloaded⟩
      have hrun : (List.range (n + 1)).foldlM (loadchannel conf) u = loadchannel conf v n := by
        rw [List.range_succ, List.foldlM_append, hv]
        simp
      rw [hrun, inSlots_succ]
      cases hfind : channels.find? fun c => c.isentry == n with
      | none =>
          have hfree : ∀ c ∈ channels, c.isentry ≠ n := fun c hc => by
            simpa using List.find?_eq_none.1 hfind c hc
          exact ⟨v, loadchannel_free h hvuid (by omega) hfree, hvuid, by simpa using hloaded⟩
      | some c =>
          have hc := List.mem_of_find?_eq_some hfind
          have hslot : c.isentry = n := by simpa using List.find?_some hfind
          subst hslot
          -- Its name is none of those loaded before, which are in lower slots.
          have hnew : ∀ d ∈ v.channels, foldName d.name ≠ foldName c.name := by
            intro d hd hname
            have hmem : nameKey d ∈ v.channels.map nameKey := List.mem_map_of_mem hd
            rw [hloaded] at hmem
            rcases List.mem_map.1 hmem with ⟨d', hd', heq⟩
            rcases (mem_inSlots h).1 hd' with ⟨hin, hlt⟩
            have hname' : d'.name = d.name := congrArg Prod.fst heq
            have hsame := h.eq_of_name hin hc (by rw [hname', hname])
            rw [hsame] at hlt
            exact Nat.lt_irrefl _ hlt
          rcases loadchannel_channel h hvuid hc hnew with ⟨w, hw, hwuid, hmap⟩
          exact ⟨w, hw, hwuid, by simp [hmap, hloaded]⟩

/-- From an agreeing configuration the channel list is loaded back. -/
theorem loadchannels_agrees (h : Agrees uid channels conf) {u : Usert} (hu : u.uid = uid)
    (hempty : u.channels = []) :
    ∃ u', loadchannels conf u = some u' ∧
      (u'.channels.map nameKey).Perm (channels.map nameKey) := by
  rcases loadLoop_spec h hu hempty (n := 40) (by omega) with ⟨u', hload, _, hmap⟩
  exact ⟨u', hload, hmap ▸ (inSlots_perm h).map nameKey⟩

end Loop

end PsyBnc
