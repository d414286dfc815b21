import PsyBnc.UChannel.Load
import PsyBnc.Lib.Run

/-!
# The channels of a user are persistent

Joining, leaving and setting a key write the configuration through.  Each call keeps the agreement
between the list and the configuration, unless it runs into the limits of the slots: leaving clears
by prefix, joining takes the first slot whose line has a readable name, loading stops at slot 40,
and a key that starts with `+` passes for an encrypted one.
-/

namespace PsyBnc

open CLib

/-! ## What a single write does to the agreement -/

namespace Agrees

variable {uid : Nat} {channels l₁ l₂ : List Uchannelt} {c c' : Uchannelt} {conf conf' : Conf}

/-- The channels beside one of the list are in other slots. -/
theorem other_slot (h : Agrees uid (l₁ ++ c :: l₂) conf) {d : Uchannelt} (hd : d ∈ l₁ ++ l₂) :
    d.isentry ≠ c.isentry := by
  have hnodup := h.slots
  rw [List.map_append, List.map_cons, List.nodup_middle, ← List.map_append] at hnodup
  intro heq
  exact (List.nodup_cons.1 hnodup).1 (heq ▸ List.mem_map_of_mem hd)

theorem mem_middle {d : Uchannelt} : d ∈ l₁ ++ c :: l₂ ↔ d = c ∨ d ∈ l₁ ++ l₂ := by
  simp only [List.mem_append, List.mem_cons]
  exact or_left_comm

/-- The value of a slot does not change when another one is written. -/
theorem slotValue_write (huid : uid < 2 ^ 31) {kind kind' : SlotKind} {i j : Nat} (hi : i < 256)
    (hj : j < 256) {data : Option CStr} (hdata : ∀ d, data = some d → d.length < 200)
    (hw : writeini (ascii "CHANNELS") (kind.text ++ dec i) (userFile uid) data conf = some conf')
    (hne : ¬ (kind' = kind ∧ j = i)) :
    slotValue uid conf' kind' j = slotValue uid conf kind' j := by
  have hw' : writeini (slotKey huid kind hi).sect (slotKey huid kind hi).param
      (slotKey huid kind hi).inidat data conf = some conf' := hw
  have hkey : slotKey huid kind' hj ≠ slotKey huid kind hi := by
    intro heq
    have htext := congrArg IniKey.text heq
    rw [text_slotKey, text_slotKey] at htext
    exact hne (slotText_injective htext)
  exact lookup_writeini_of_ne hw' (lt_line_of_lt hdata) hkey

theorem slotValue_write_self (huid : uid < 2 ^ 31) {kind : SlotKind} {i : Nat} (hi : i < 256)
    {data : Option CStr} (hdata : ∀ d, data = some d → d.length < 200) (huniq : UniqueKeys conf)
    (hw : writeini (ascii "CHANNELS") (kind.text ++ dec i) (userFile uid) data conf = some conf') :
    slotValue uid conf' kind i = dataPtr data :=
  lookup_writeini_self (k := slotKey huid kind hi) hw hdata huniq

/-- A line behind a write was there before, or has the key of the slot. -/
theorem line_of_write (huid : uid < 2 ^ 31) {kind : SlotKind} {i : Nat} (hi : i < 256)
    {data : Option CStr} (hdata : ∀ d, data = some d → d.length < 200)
    (hw : writeini (ascii "CHANNELS") (kind.text ++ dec i) (userFile uid) data conf = some conf')
    {e : CStr} (he : e ∈ conf') : e ∈ conf ∨ keyOf e = some (slotText uid kind i) := by
  have hw' : writeini (slotKey huid kind hi).sect (slotKey huid kind hi).param
      (slotKey huid kind hi).inidat data conf = some conf' := hw
  rcases (writeini_written hw').splice with ⟨old, hsplice, _, _⟩
  rcases hsplice.mem_or_of_mem he with hnew | hold
  · exact Or.inr (text_slotKey huid kind hi ▸ keyOf_newLine _ (lt_line_of_lt hdata) e hnew)
  · exact Or.inl hold

theorem uniqueKeys_write (huid : uid < 2 ^ 31) {kind : SlotKind} {i : Nat} (hi : i < 256)
    {data : Option CStr} (hdata : ∀ d, data = some d → d.length < 200) (huniq : UniqueKeys conf)
    (hw : writeini (ascii "CHANNELS") (kind.text ++ dec i) (userFile uid) data conf = some conf') :
    UniqueKeys conf' :=
  uniqueKeys_writeini (k := slotKey huid kind hi) hw (lt_line_of_lt hdata) huniq

/-- A channel is appended and written into a free slot. -/
theorem added (h : Agrees uid channels conf) (huid : uid < 2 ^ 31) (hslot : c.isentry < 40)
    (hfree : ∀ d ∈ channels, d.isentry ≠ c.isentry) (husern : c.usern = uid) (hkey : c.key = [])
    (hname : c.name ≠ []) (hlen : c.name.length < 200)
    (hnew : ∀ d ∈ channels, foldName d.name ≠ foldName c.name)
    (hw : writeini (ascii "CHANNELS") (ascii "ENTRY" ++ dec c.isentry) (userFile uid)
      (some c.name) conf = some conf') : Agrees uid (channels ++ [c]) conf' := by
  have hi : c.isentry < 256 := by omega
  have hdata : ∀ d, some c.name = some d → d.length < 200 := by
    rintro d ⟨⟩
    exact hlen
  have hw' : writeini (ascii "CHANNELS") (SlotKind.entry.text ++ dec c.isentry) (userFile uid)
      (some c.name) conf = some conf' := hw
  have hother : ∀ d ∈ channels, ∀ kind,
      slotValue uid conf' kind d.isentry = slotValue uid conf kind d.isentry := by
    intro d hd kind
    exact slotValue_write huid hi (h.slot_lt hd) hdata hw' fun hsame => hfree d hd hsame.2
  refine ⟨uniqueKeys_write huid hi hdata h.unique hw', ?_, ?_, ?_, ?_, ?_, ?_⟩
  · rw [List.map_append, List.map_singleton, List.nodup_append_comm, List.singleton_append,
      List.nodup_cons]
    refine ⟨?_, h.slots⟩
    rintro hmem
    rcases List.mem_map.1 hmem with ⟨d, hd, heq⟩
    exact hfree d hd heq
  · rw [List.map_append, List.map_singleton, List.nodup_append_comm, List.singleton_append,
      List.nodup_cons]
    refine ⟨?_, h.names⟩
    rintro hmem
    rcases List.mem_map.1 hmem with ⟨d, hd, heq⟩
    exact hnew d hd heq
  · intro d hd
    rcases List.mem_append.1 hd with hd | hd
    · exact h.own d hd
    · rcases List.mem_singleton.1 hd with rfl
      exact ⟨husern, hslot⟩
  · intro d hd
    rcases List.mem_append.1 hd with hd | hd
    · rw [hother d hd, h.entry d hd]
    · rcases List.mem_singleton.1 hd with rfl
      rw [slotValue_write_self huid hi hdata h.unique hw', dataPtr_some hname]
  · intro d hd
    rcases List.mem_append.1 hd with hd | hd
    · rw [hother d hd, h.key d hd]
    · rcases List.mem_singleton.1 hd with rfl
      have hnone := h.slotValue_eq_none huid hi hfree .key
      rw [slotValue_write huid hi hi hdata hw' (by simp), hnone, storedKey, hkey]
  · intro e he hpre
    rcases line_of_write huid hi hdata hw' he with hold | hline
    · rcases h.only e hold hpre with ⟨d, hd, hd'⟩
      exact ⟨d, List.mem_append_left _ hd, hd'⟩
    · exact ⟨c, by simp, .entry, hline⟩

/-- A channel of the list changes, and the lines of its slot with it. -/
theorem replaced (h : Agrees uid (l₁ ++ c :: l₂) conf) (hname : c'.name = c.name)
    (hslot : c'.isentry = c.isentry) (husern : c'.usern = c.usern) (huniq : UniqueKeys conf')
    (hvalue : ∀ d ∈ l₁ ++ l₂, ∀ kind,
      slotValue uid conf' kind d.isentry = slotValue uid conf kind d.isentry)
    (hentry : slotValue uid conf' .entry c.isentry = slotValue uid conf .entry c.isentry)
    (hkey : storedKey (slotValue uid conf' .key c.isentry) = some c'.key)
    (hline : ∀ e ∈ conf', e ∈ conf ∨ ∃ kind, keyOf e = some (slotText uid kind c.isentry)) :
    Agrees uid (l₁ ++ c' :: l₂) conf' := by
  have hc : c ∈ l₁ ++ c :: l₂ := by simp
  have hother : ∀ {d}, d ∈ l₁ ++ l₂ → d ∈ l₁ ++ c :: l₂ := fun hd => mem_middle.2 (Or.inr hd)
  refine ⟨huniq, ?_, ?_, ?_, ?_, ?_, ?_⟩
  · simpa [hslot] using h.slots
  · simpa [hname] using h.names
  · intro d hd
    rcases mem_middle.1 hd with rfl | hd
    · rw [husern, hslot]
      exact h.own c hc
    · exact h.own d (hother hd)
  · intro d hd
    rcases mem_middle.1 hd with rfl | hd
    · rw [hslot, hname, hentry]
      exact h.entry c hc
    · rw [hvalue d hd]
      exact h.entry d (hother hd)
  · intro d hd
    rcases mem_middle.1 hd with rfl | hd
    · rw [hslot, hkey]
    · rw [hvalue d hd]
      exact h.key d (hother hd)
  · intro e he hpre
    rcases hline e he with hold | ⟨kind, hself⟩
    · rcases h.only e hold hpre with ⟨d, hd, kind, hin⟩
      rcases mem_middle.1 hd with rfl | hd
      · exact ⟨c', by simp, kind, hslot ▸ hin⟩
      · exact ⟨d, mem_middle.2 (Or.inr hd), kind, hin⟩
    · exact ⟨c', by simp, kind, hslot ▸ hself⟩

/-- A channel of the list gets another key, and the key is written. -/
theorem rekeyed (h : Agrees uid (l₁ ++ c :: l₂) conf) (huid : uid < 2 ^ 31)
    (hname : c'.name = c.name) (hslot : c'.isentry = c.isentry) (husern : c'.usern = c.usern)
    {data : Option CStr} (hdata : ∀ d, data = some d → d.length < 200)
    (hkey : storedKey (dataPtr data) = some c'.key)
    (hw : writeini (ascii "CHANNELS") (ascii "KEY" ++ dec c.isentry) (userFile uid) data conf =
      some conf') : Agrees uid (l₁ ++ c' :: l₂) conf' := by
  have hi := h.slot_lt (c := c) (by simp)
  have hw' : writeini (ascii "CHANNELS") (SlotKind.key.text ++ dec c.isentry) (userFile uid)
      data conf = some conf' := hw
  refine h.replaced hname hslot husern (uniqueKeys_write huid hi hdata h.unique hw') ?_ ?_ ?_ ?_
  · intro d hd kind
    have hj := h.slot_lt (mem_middle.2 (Or.inr hd))
    exact slotValue_write huid hi hj hdata hw' fun hsame => h.other_slot hd hsame.2
  · exact slotValue_write huid hi hi hdata hw' (by simp)
  · rw [slotValue_write_self huid hi hdata h.unique hw', hkey]
  · intro e he
    exact (line_of_write huid hi hdata hw' he).imp_right fun hline => ⟨.key, hline⟩

/-- Clearing a slot takes its own line only, when no other number starts with its number. -/
theorem line_of_pattern (h : Agrees uid channels conf) {i : Nat} {kind : SlotKind}
    (halone : ∀ d ∈ channels, dec i <+: dec d.isentry → d.isentry = i) {e : CStr} (he : e ∈ conf)
    (hpre : slotText uid kind i <+: e) : keyOf e = some (slotText uid kind i) := by
  have hsect : channelSect uid <+: e := (List.prefix_append _ _).trans hpre
  rcases h.only e he hsect with ⟨d, hd, kind', hline⟩
  have hin := (prefix_line_iff (equals_notMem_slotText uid kind i) hline).1 hpre
  rcases slotText_prefix_iff.1 hin with ⟨rfl, hdec⟩
  rw [hline, halone d hd hdec]

/-- A channel leaves the list and its slot is cleared. -/
theorem removed (h : Agrees uid (l₁ ++ c :: l₂) conf) (huid : uid < 2 ^ 31)
    (halone : ∀ d ∈ l₁ ++ c :: l₂, dec c.isentry <+: dec d.isentry → d.isentry = c.isentry)
    (hother : ∃ e ∈ conf, keyOf e ≠ some (slotText uid .entry c.isentry) ∧
      keyOf e ≠ some (slotText uid .key c.isentry)) :
    ∃ mid conf',
      clearsectionconfig (slotPattern uid (ascii "ENTRY") c.isentry) conf = some mid ∧
      clearsectionconfig (slotPattern uid (ascii "KEY") c.isentry) mid = some conf' ∧
      Agrees uid (l₁ ++ l₂) conf' := by
  have hc : c ∈ l₁ ++ c :: l₂ := by simp
  have hi := h.slot_lt hc
  have hsub : (l₁ ++ l₂).Sublist (l₁ ++ c :: l₂) :=
    List.Sublist.append (List.Sublist.refl _) (List.sublist_cons_self _ _)
  have hentry : ∀ e ∈ conf, slotText uid .entry c.isentry <+: e →
      keyOf e = some (slotText uid .entry c.isentry) :=
    fun e he => h.line_of_pattern halone he
  have hkey : ∀ e ∈ conf, slotText uid .key c.isentry <+: e →
      keyOf e = some (slotText uid .key c.isentry) :=
    fun e he => h.line_of_pattern halone he
  rcases hother with ⟨e₀, he₀, hne, hne'⟩
  -- Each of the two calls of `clearsectionconfig` takes one line out, as its pattern begins no other key.
  have hfirst := clearsectionconfig_one h.unique hentry ⟨e₀, he₀, hne⟩
  have hmid : e₀ ∈ erased (slotText uid .entry c.isentry) conf :=
    mem_erased.2 ⟨he₀, fun hpre => hne (hentry e₀ he₀ hpre)⟩
  have hsecond := clearsectionconfig_one (uniqueKeys_erased h.unique)
    (fun e he => hkey e (mem_erased.1 he).1) ⟨e₀, hmid, hne'⟩
  have hpat₁ : slotPattern uid (ascii "ENTRY") c.isentry = slotText uid .entry c.isentry :=
    slotPattern_eq huid hi .entry
  have hpat₂ : slotPattern uid (ascii "KEY") c.isentry = slotText uid .key c.isentry :=
    slotPattern_eq huid hi .key
  rw [hpat₁, hpat₂]
  refine ⟨_, _, hfirst, hsecond, ?_⟩
  -- What the other channels have stored stays.
  have hvalue : ∀ d ∈ l₁ ++ l₂, ∀ kind,
      slotValue uid (erased (slotText uid .key c.isentry)
        (erased (slotText uid .entry c.isentry) conf)) kind d.isentry =
      slotValue uid conf kind d.isentry := by
    intro d hd kind
    have hj := h.slot_lt (hsub.subset hd)
    have hno : ∀ kind', ¬ slotText uid kind' c.isentry <+: (slotKey huid kind hj).text := by
      intro kind' hpre
      rw [text_slotKey] at hpre
      exact h.other_slot hd (halone d (hsub.subset hd) (slotText_prefix_iff.1 hpre).2)
    rw [slotValue_eq_lookup huid _ kind hj, slotValue_eq_lookup huid _ kind hj,
      lookup_erased (equals_notMem_slotText _ _ _) (hno _),
      lookup_erased (equals_notMem_slotText _ _ _) (hno _)]
  refine ⟨uniqueKeys_erased (uniqueKeys_erased h.unique), h.slots.sublist (hsub.map _),
    h.names.sublist (hsub.map _), fun d hd => h.own d (hsub.subset hd), ?_, ?_, ?_⟩
  · intro d hd
    rw [hvalue d hd, h.entry d (hsub.subset hd)]
  · intro d hd
    rw [hvalue d hd, h.key d (hsub.subset hd)]
  · intro e he hpre
    rcases mem_erased.1 he with ⟨hin, hnokey⟩
    rcases mem_erased.1 hin with ⟨hin, hnoentry⟩
    rcases h.only e hin hpre with ⟨d, hd, kind, hline⟩
    rcases mem_middle.1 hd with rfl | hd
    · -- The lines of the slot itself are gone.
      have hself := (prefix_line_iff (equals_notMem_slotText uid kind d.isentry) hline).2
        List.prefix_rfl
      cases kind
      · exact absurd hself hnoentry
      · exact absurd hself hnokey
    · exact ⟨d, hd, kind, hline⟩

end Agrees

/-! ## Setting and clearing the key -/

/-- What the configuration knows of a channel. -/
def stored (c : Uchannelt) : CStr × CStr × Nat × Int := (c.name, c.key, c.isentry, c.usern)

section Modes

variable (lkm : Uchannelt) (md sign : Byte)

theorem stored_setMode : stored (setMode lkm md sign) = stored lkm := by
  unfold setMode addmodetochannel deletemodefromchannel
  split
  · split <;> rfl
  · split <;> rfl

theorem stored_changeusermode (nickname : CStr) :
    stored ((if sign = PLUS then addchannelusermode else removechannelusermode) lkm nickname md) =
      stored lkm := by
  unfold addchannelusermode removechannelusermode
  split
  · dsimp only
    split <;> rfl
  · dsimp only
    split <;> rfl

theorem stored_ordermodes : stored (ordermodes lkm) = stored lkm := rfl

/-- The key that `+k` and `-k` leave. -/
def newKey (sign : Byte) (param : CStr) : CStr :=
  if sign = PLUS then clip 64 (nextParam (clip 4096 param)).1 else []

/-- What they write for it. -/
def keyWrite (sign : Byte) (param : CStr) : KeyWrite :=
  if sign = PLUS then some (cryptit buildSalt (newKey sign param)) else none

/-- The server has told that `k` is a mode with a parameter. -/
def TakesKey (lkm : Uchannelt) (sign : Byte) : Prop :=
  107 ∉ lkm.prefixmodes ∧ 107 ∈ lkm.chanmodes ∧ hasparam lkm.chanmodes 107 sign = true

instance : Decidable (TakesKey lkm sign) := by
  dsimp [TakesKey]
  infer_instance

theorem modeLoop_sign (hsign : sign = PLUS ∨ sign = MINUS) (param : CStr) :
    addchannelmode lkm [sign, 107] param =
      (ordermodes (modeLoop [107] sign (some (clip 4096 param)) lkm).1,
        (modeLoop [107] sign (some (clip 4096 param)) lkm).2) := by
  have hclip : clip 200 [sign, 107] = [sign, 107] := clip_eq_self (by simp)
  rw [addchannelmode, hclip, modeLoop, if_pos hsign]

/-- `+k` and `-k` set the key and write it. -/
theorem addchannelmode_key (htakes : TakesKey lkm sign) (hsign : sign = PLUS ∨ sign = MINUS)
    (husern : 0 < lkm.usern) (param : CStr) :
    stored (addchannelmode lkm [sign, 107] param).1 =
        stored { lkm with key := newKey sign param } ∧
      (addchannelmode lkm [sign, 107] param).2 = [keyWrite sign param] := by
  have hk : ¬ ((107 : Byte) = PLUS ∨ (107 : Byte) = MINUS) := by decide
  have hminus : ¬ MINUS = PLUS := by decide
  rcases htakes with ⟨hmember, hchan, hpar⟩
  simp only [modeLoop_sign lkm sign hsign, stored_ordermodes, modeLoop, hk, hmember, hchan, hpar,
    if_true, if_false, List.append_nil, stored_setMode]
  rcases hsign with rfl | rfl
  · simp [paramMode, husern, newKey, keyWrite]
  · simp [paramMode, husern, newKey, keyWrite, hminus]

/-- Where the server has no such mode, they do neither. -/
theorem addchannelmode_no_key (hno : ¬ TakesKey lkm sign) (hsign : sign = PLUS ∨ sign = MINUS)
    (param : CStr) :
    stored (addchannelmode lkm [sign, 107] param).1 = stored lkm ∧
      (addchannelmode lkm [sign, 107] param).2 = [] := by
  have hk : ¬ ((107 : Byte) = PLUS ∨ (107 : Byte) = MINUS) := by decide
  have h108 : ¬ (107 : Byte) = 108 := by decide
  simp only [modeLoop_sign lkm sign hsign, stored_ordermodes, modeLoop, hk, if_false]
  by_cases hmember : (107 : Byte) ∈ lkm.prefixmodes
  · simp only [hmember, if_true]
    exact ⟨stored_changeusermode lkm 107 sign _, trivial⟩
  · by_cases hchan : (107 : Byte) ∈ lkm.chanmodes
    · have hpar : ¬ hasparam lkm.chanmodes 107 sign = true := fun h => hno ⟨hmember, hchan, h⟩
      simp only [hmember, hchan, hpar, h108, if_true, if_false, Bool.false_eq_true]
      exact ⟨stored_setMode lkm 107 sign, trivial⟩
    · simp only [hmember, hchan, if_false]
      exact ⟨trivial, trivial⟩

end Modes

section Key

theorem prefix_newKey (param : CStr) : newKey PLUS param <+: param := by
  have hword : (nextParam (clip 4096 param)).1 <+: clip 4096 param := by
    rcases cut_cases SP (clip 4096 param) with ⟨_, hcut⟩ | ⟨u, v, hsplit, _, hcut⟩
    · simp [nextParam, hcut]
    · rw [nextParam, hcut, hsplit]
      exact List.prefix_append _ _
  exact (clip_prefix_self _ _).trans (hword.trans (clip_prefix_self _ _))

/-- A key that does not start with `+` is read back from what is written for it. -/
theorem storedKey_keyWrite {sign : Byte} {param : CStr} (hnul : (0 : Byte) ∉ param)
    (hplus : sign = PLUS → param.head? ≠ some PLUS) :
    (∀ d, keyWrite sign param = some d → d.length < 200) ∧
      storedKey (dataPtr (keyWrite sign param)) = some (newKey sign param) := by
  by_cases hsign : sign = PLUS
  · subst hsign
    have hpre := prefix_newKey param
    have hlen : (newKey PLUS param).length < 64 := by
      simp only [newKey, if_true, length_clip]
      omega
    have hhead : (newKey PLUS param).head? ≠ some PLUS := by
      intro hhead
      rcases List.head?_eq_some_iff.1 hhead with ⟨r, hr⟩
      rcases hpre with ⟨t, ht⟩
      refine hplus rfl ?_
      rw [← ht, hr]
      rfl
    have hcrypt : cryptit buildSalt (newKey PLUS param) =
        PLUS :: encLoop buildSalt 0 0 buildSalt.code1 buildSalt.code2 (newKey PLUS param) := by
      rw [cryptit, if_neg hhead]
    have hround : decryptit buildSalt (cryptit buildSalt (newKey PLUS param)) =
        some (newKey PLUS param) :=
      decryptit_cryptit buildSalt hhead (fun h => hnul (hpre.subset h)) (by omega)
    have hwrite : keyWrite PLUS param = some (cryptit buildSalt (newKey PLUS param)) := if_pos rfl
    rw [hwrite]
    constructor
    · rintro d ⟨⟩
      have hle := length_encLoop_le buildSalt (newKey PLUS param) 0 0 buildSalt.code1
        buildSalt.code2
      rw [hcrypt, List.length_cons]
      omega
    · rw [dataPtr_some (by simp [hcrypt]), storedKey, hround, Option.map_some, clip_eq_self hlen]
  · simp [keyWrite, newKey, hsign, storedKey]

end Key

/-! ## The calls -/

/-- A channel name or a key. -/
structure ChannelWord where
  text : CStr
  nul : (0 : Byte) ∉ text
  lf : LF ∉ text
  short : text.length < 199
  deriving DecidableEq

inductive ChannelCall where
  | add (channel : ChannelWord)
  | remove (channel : ChannelWord)
  | setkey (channel key : ChannelWord)
  | clearkey (channel key : ChannelWord)

structure UserChannels where
  user : Usert
  conf : Conf
  deriving DecidableEq

/-- `addchanneltouser` with `nowrite` 0, `removechannelfromuser`, and `addchannelmode` with `+k` or
`-k`. -/
def ChannelCall.run (s : UserChannels) : ChannelCall → Option UserChannels
  | .add channel =>
      (addchanneltouser s.user channel.text false s.conf).map fun r => ⟨r.1, r.2.1⟩
  | .remove channel => (removechannelfromuser s.user channel.text s.conf).map fun r => ⟨r.1, r.2⟩
  | .setkey channel key =>
      (changemodes s.user channel.text [PLUS, 107] key.text s.conf).map fun r => ⟨r.1, r.2⟩
  | .clearkey channel key =>
      (changemodes s.user channel.text [MINUS, 107] key.text s.conf).map fun r => ⟨r.1, r.2⟩

/-- The call does not run into a limit of the slots. -/
def ChannelCall.Fits (s : UserChannels) : ChannelCall → Prop
  | .add channel =>
      (∃ d ∈ s.user.channels, foldName d.name = foldName channel.text) ∨
        (channel.text ≠ [] ∧ s.conf ≠ [] ∧
          ∃ n, n < 40 ∧ (∀ d ∈ s.user.channels, d.isentry ≠ n) ∧
            ∀ m, m < n → ∃ d ∈ s.user.channels, d.isentry = m ∧ Visible d.name)
  | .remove channel =>
      ∀ c ∈ s.user.channels, foldName c.name = foldName channel.text →
        (∀ d ∈ s.user.channels, dec c.isentry <+: dec d.isentry → d.isentry = c.isentry) ∧
          ∃ e ∈ s.conf, keyOf e ≠ some (slotText s.user.uid .entry c.isentry) ∧
            keyOf e ≠ some (slotText s.user.uid .key c.isentry)
  | .setkey channel key =>
      (∃ c ∈ s.user.channels, foldName c.name = foldName channel.text ∧ TakesKey c PLUS) →
        key.text.head? ≠ some PLUS
  | .clearkey _ _ => True

instance (s : UserChannels) (call : ChannelCall) : Decidable (call.Fits s) := by
  cases call <;> dsimp [ChannelCall.Fits] <;> infer_instance

def UserChannels.Agree (s : UserChannels) : Prop := Agrees s.user.uid s.user.channels s.conf

/-- `loadchannels` makes the names and keys of the list from the configuration. -/
def UserChannels.LoadsBack (s : UserChannels) : Prop :=
  ∃ u, loadchannels s.conf { s.user with channels := [] } = some u ∧
    (u.channels.map nameKey).Perm (s.user.channels.map nameKey)

section Calls

variable {s : UserChannels}

theorem exists_split {channels : List Uchannelt} {c : Uchannelt} {k : Nat}
    (h : channels[k]? = some c) :
    ∃ l₁ l₂, channels = l₁ ++ c :: l₂ ∧ (∀ f, channels.modify k f = l₁ ++ f c :: l₂) ∧
      channels.eraseIdx k = l₁ ++ l₂ := by
  rcases List.getElem?_eq_some_iff.1 h with ⟨hk, rfl⟩
  refine ⟨channels.take k, channels.drop (k + 1), ?_, ?_, List.eraseIdx_eq_take_drop_succ _ _⟩
  · rw [List.getElem_cons_drop, List.take_append_drop]
  · exact fun f => List.modify_eq_take_cons_drop hk

/-- The slot that a channel is put in: the first one with no readable name. -/
theorem countconfentries_agrees (h : s.Agree) {n : Nat} (hn : n < 40)
    (hfree : ∀ d ∈ s.user.channels, d.isentry ≠ n)
    (hbelow : ∀ m, m < n → ∃ d ∈ s.user.channels, d.isentry = m ∧ Visible d.name) :
    ∃ cnt, countconfentries (ascii "CHANNELS") (ascii "ENTRY%d") (userFile s.user.uid) s.conf =
      some (cnt, n) := by
  have huid := s.user.uid_lt
  have hlines : ∀ e ∈ s.conf, entryLit s.user.uid <+: e →
      ∃ i d, i < 256 ∧ e = slotText s.user.uid .entry i ++ EQUALS :: d := by
    intro e he hpre
    have hsect : channelSect s.user.uid <+: e := (List.prefix_append _ _).trans hpre
    rcases h.only e he hsect with ⟨c, hc, kind, hkey⟩
    rcases Option.map_eq_some_iff.1 hkey with ⟨⟨u, d⟩, hcut, hu⟩
    rcases cutAt_eq_some.1 hcut with ⟨rfl, _⟩
    have hu' : u = slotText s.user.uid kind c.isentry := hu
    subst hu'
    cases kind with
    | entry =>
        exact ⟨c.isentry, d, h.slot_lt hc, rfl⟩
    | key =>
        -- The line of a key does not start like that of a name.
        have hentry : ascii "ENTRY" <+: ascii "KEY" ++ (dec c.isentry ++ EQUALS :: d) := by
          have hpre' := hpre
          rw [entryLit, slotText, List.append_assoc, List.append_assoc,
            List.prefix_append_right_inj] at hpre'
          exact hpre'
        exact absurd hentry (by simp [ascii])
  rcases countLoop_spec hlines 0 [] with ⟨found, hfound, hmem⟩
  have hvalue : ∀ {i d}, slotText s.user.uid .entry i ++ EQUALS :: d ∈ s.conf →
      ∃ c ∈ s.user.channels, c.isentry = i :=
    fun hin => h.exists_of_line hin (keyOf_append (equals_notMem_slotText _ _ _) _)
  -- The slots below are marked, and the slot itself is not.
  have hfirst : firstFree found.2 = n := by
    refine firstFree_eq (by omega) ?_ ?_
    · rw [hmem]
      rintro (hin | ⟨_, d, _, hin⟩)
      · exact absurd hin (by simp)
      · rcases hvalue hin with ⟨c, hc, hslot⟩
        exact hfree c hc hslot
    · intro m hm
      rcases hbelow m hm with ⟨d, hd, rfl, hvis⟩
      rw [hmem]
      refine Or.inr ⟨by omega, ?_⟩
      have hentry := h.entry d hd
      rw [slotValue_eq_lookup huid s.conf .entry (h.slot_lt hd), lookup_eq] at hentry
      rcases List.exists_of_findSome?_eq_some hentry with ⟨e, he, hval⟩
      rcases Option.map_eq_some_iff.1 hval with ⟨t, ht, hclip⟩
      have hline := afterPrefix_eq_some.1 ht
      rw [text_slotKey] at hline
      refine ⟨t, ?_, ?_⟩
      · rcases hvis with ⟨b, hb, hspace⟩
        exact ⟨b, mem_of_mem_clip (hclip ▸ hb), hspace⟩
      · have heq : e = slotText s.user.uid .entry d.isentry ++ EQUALS :: t := by simp [hline]
        exact heq ▸ he
  refine ⟨found.1, ?_⟩
  rw [countconfentries, countFormat_eq huid, hfound, Option.map_some, hfirst]

theorem run_add (h : s.Agree) {channel : ChannelWord} (hfits : (ChannelCall.add channel).Fits s) :
    ∃ t, ChannelCall.run s (.add channel) = some t ∧ t.Agree := by
  cases hget : getuserchannel s.user.channels channel.text with
  | some k =>
      exact ⟨s, by simp [ChannelCall.run, addchanneltouser, hget], h⟩
  | none =>
      have hnew := getuserchannel_eq_none.1 hget
      rcases hfits with ⟨d, hd, hname⟩ | ⟨hne, hconf, n, hn, hfree, hbelow⟩
      · exact absurd hname (hnew d hd)
      · rcases countconfentries_agrees h hn hfree hbelow with ⟨cnt, hcount⟩
        have hclip : clip 255 channel.text = channel.text := clip_eq_self (by
          have := channel.short
          omega)
        cases hw : writeini (ascii "CHANNELS") (ascii "ENTRY" ++ dec n) (userFile s.user.uid)
            (some channel.text) s.conf with
        | none =>
            exact absurd (writeini_eq_none_iff.1 hw).1 hconf
        | some conf =>
            refine ⟨_, by simp only [ChannelCall.run, addchanneltouser, hget, hcount, hw,
              Bool.false_eq_true, if_false, Option.bind_some, Option.map_some]; rfl, ?_⟩
            refine h.added s.user.uid_lt (c := { newchannel s.user.uid s.user.prefixmodes
              s.user.prefixchars s.user.chanmodes channel.text with isentry := n }) hn hfree rfl rfl
              ?_ ?_ ?_ ?_
            · simpa [newchannel, hclip] using hne
            · have hshort := channel.short
              simp only [newchannel, hclip]
              omega
            · simpa [newchannel, hclip] using hnew
            · simpa [newchannel, hclip] using hw

theorem run_remove (h : s.Agree) {channel : ChannelWord} (hfits : (ChannelCall.remove channel).Fits s) :
    ∃ t, ChannelCall.run s (.remove channel) = some t ∧ t.Agree := by
  cases hget : getuserchannel s.user.channels channel.text with
  | none =>
      exact ⟨s, by simp [ChannelCall.run, removechannelfromuser, hget], h⟩
  | some k =>
      rcases getuserchannel_eq_some hget with ⟨c, hk, hname⟩
      rcases exists_split hk with ⟨l₁, l₂, hsplit, _, herase⟩
      have hc : c ∈ s.user.channels := by simp [hsplit]
      rcases hfits c hc hname with ⟨halone, hother⟩
      have hagree : Agrees s.user.uid (l₁ ++ c :: l₂) s.conf := hsplit ▸ h
      rcases hagree.removed s.user.uid_lt (hsplit ▸ halone) hother with
        ⟨mid, conf, hfirst, hsecond, hafter⟩
      refine ⟨⟨{ s.user with channels := l₁ ++ l₂ }, conf⟩, ?_, hafter⟩
      simp [ChannelCall.run, removechannelfromuser, hget, hk, hfirst, hsecond, herase]

/-- `+k` and `-k`. -/
theorem changemodes_agrees (h : s.Agree) {sign : Byte} (hsign : sign = PLUS ∨ sign = MINUS)
    (channel key : ChannelWord)
    (hplus : sign = PLUS →
      (∃ c ∈ s.user.channels, foldName c.name = foldName channel.text ∧ TakesKey c PLUS) →
        key.text.head? ≠ some PLUS) :
    ∃ r, changemodes s.user channel.text [sign, 107] key.text s.conf = some r ∧
      UserChannels.Agree ⟨r.1, r.2⟩ := by
  cases hget : getuserchannel s.user.channels channel.text with
  | none =>
      exact ⟨(s.user, s.conf), by simp [changemodes, hget], h⟩
  | some k =>
      rcases getuserchannel_eq_some hget with ⟨c, hk, hname⟩
      rcases exists_split hk with ⟨l₁, l₂, hsplit, hmodify, _⟩
      have hc : c ∈ s.user.channels := by simp [hsplit]
      have hagree : Agrees s.user.uid (l₁ ++ c :: l₂) s.conf := hsplit ▸ h
      have husern : 0 < c.usern := by
        rw [(h.own c hc).1]
        exact_mod_cast s.user.uid_pos
      simp only [changemodes, hget, hk, hmodify]
      by_cases htakes : TakesKey c sign
      · rcases addchannelmode_key c sign htakes hsign husern key.text with ⟨hstored, hwrites⟩
        have hplus' : sign = PLUS → key.text.head? ≠ some PLUS :=
          fun hs => hplus hs ⟨c, hc, hname, hs ▸ htakes⟩
        rcases storedKey_keyWrite key.nul hplus' with ⟨hdata, hkey⟩
        have hne : s.conf ≠ [] := by
          intro hnil
          have hentry := h.entry c hc
          simp [hnil, slotValue, getini] at hentry
        cases hw : writeini (ascii "CHANNELS") (ascii "KEY" ++ dec c.isentry)
            (userFile s.user.uid) (keyWrite sign key.text) s.conf with
        | none =>
            exact absurd (writeini_eq_none_iff.1 hw).1 hne
        | some conf =>
            simp only [stored, Prod.mk.injEq] at hstored
            refine ⟨_, by simp only [hwrites, writeKeys, hw, Option.bind_some, Option.map_some]; rfl,
              ?_⟩
            exact hagree.rekeyed s.user.uid_lt hstored.1 hstored.2.2.1 hstored.2.2.2 hdata
              (hstored.2.1.symm ▸ hkey) hw
      · rcases addchannelmode_no_key c sign htakes hsign key.text with ⟨hstored, hwrites⟩
        simp only [stored, Prod.mk.injEq] at hstored
        refine ⟨_, by simp only [hwrites, writeKeys, Option.map_some]; rfl, ?_⟩
        exact hagree.replaced hstored.1 hstored.2.2.1 hstored.2.2.2 hagree.unique
          (fun _ _ _ => rfl) rfl (hstored.2.1.symm ▸ hagree.key c (by simp)) fun _ he => Or.inl he

theorem ChannelCall.run_agrees (h : s.Agree) (call : ChannelCall) (hfits : call.Fits s) :
    ∃ t, call.run s = some t ∧ t.Agree := by
  cases call with
  | add channel =>
      exact run_add h hfits
  | remove channel =>
      exact run_remove h hfits
  | setkey channel key =>
      rcases changemodes_agrees h (Or.inl rfl) channel key (fun _ => hfits) with ⟨r, hr, hagree⟩
      exact ⟨_, by simp [ChannelCall.run, hr], hagree⟩
  | clearkey channel key =>
      have hminus : ¬ MINUS = PLUS := by decide
      rcases changemodes_agrees h (Or.inr rfl) channel key (fun hs => absurd hs hminus) with
        ⟨r, hr, hagree⟩
      exact ⟨_, by simp [ChannelCall.run, hr], hagree⟩

theorem UserChannels.Agree.loadsBack (h : s.Agree) : s.LoadsBack :=
  loadchannels_agrees h rfl rfl

end Calls

/-- Along every run of calls that stay within the slots nothing goes wrong, and what is loaded is
the channel list. -/
theorem channels_loadBack {s : UserChannels} (h : s.Agree) {calls : List ChannelCall}
    (hfits : StepsMeet ChannelCall.run ChannelCall.Fits s calls) :
    Safe ChannelCall.run UserChannels.LoadsBack s calls := by
  have hstep : ∀ (s : UserChannels) (call : ChannelCall), s.Agree → call.Fits s →
      ∃ t, call.run s = some t ∧ t.Agree :=
    fun _ call hs hcall => call.run_agrees hs hcall
  exact (safe_of_stepsMeet hstep h hfits).mono fun _ hs => hs.loadsBack

/-! ## Two runs -/

theorem one_uid_lt : 1 < 2 ^ 31 := by decide

/-- A user of a network with the usual modes, and his configuration. -/
def newUser : UserChannels where
  user :=
    { uid := 1, prefixmodes := ascii "ov", prefixchars := ascii "@+",
      chanmodes := ascii "b,k,l,imnpst", uid_pos := Nat.one_pos, uid_lt := one_uid_lt }
  conf := [ascii "USER1.USER.LOGIN=joe"]

theorem newUser_agree : newUser.Agree := by
  refine ⟨by decide, by decide, by decide, ?_, ?_, ?_, ?_⟩
  · exact fun c hc => absurd hc (by simp [newUser])
  · exact fun c hc => absurd hc (by simp [newUser])
  · exact fun c hc => absurd hc (by simp [newUser])
  · have hno : ∀ e ∈ newUser.conf, ¬ channelSect newUser.user.uid <+: e := by decide
    exact fun e he hpre => absurd hpre (hno e he)

/-- The channels `#0` to `#10`. -/
def numbered (i : Fin 11) : ChannelWord where
  text := 35 :: dec i
  nul := by decide +revert
  lf := by decide +revert
  short := by decide +revert

/-- A channel is joined, gets a key, and is left again. -/
theorem channels_loadBack_join_key_part :
    Safe ChannelCall.run UserChannels.LoadsBack newUser
      [.add (numbered 3), .setkey (numbered 3) (numbered 7), .add (numbered 4),
        .remove (numbered 3)] :=
  channels_loadBack newUser_agree (by decide +kernel)

/-- With eleven channels joined, leaving the second one loses the eleventh as well. -/
theorem channels_lost :
    let calls := (List.finRange 11).map (fun i => ChannelCall.add (numbered i)) ++
      [.remove (numbered 1)]
    newUser.Agree ∧ ∃ s, runAll ChannelCall.run newUser calls = some s ∧ ¬ s.LoadsBack := by
  intro calls
  have hcount : ((runAll ChannelCall.run newUser calls).map fun s =>
      (s.user.channels.length,
        (loadchannels s.conf { s.user with channels := [] }).map fun u => u.channels.length)) =
      some (10, some 9) := by decide +kernel
  rcases Option.map_eq_some_iff.1 hcount with ⟨s, hrun, hlengths⟩
  refine ⟨newUser_agree, s, hrun, ?_⟩
  rintro ⟨u, hload, hperm⟩
  simp only [hload, Option.map_some, Prod.mk.injEq, Option.some.injEq] at hlengths
  have hlen := hperm.length_eq
  simp only [List.length_map] at hlen
  omega

end PsyBnc
