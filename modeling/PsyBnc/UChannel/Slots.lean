import PsyBnc.Inifunc.Clear
import PsyBnc.Inifunc.Count
import PsyBnc.Inifunc.Store
import PsyBnc.UChannel.Model

/-!
# The slots of a user's channels

A channel is kept in the configuration under a slot number: its name under `ENTRY`, its key under
`KEY`.  Writing changes one slot.  Clearing goes by prefix, so it takes the slots whose number only
starts with the given one along.
-/

namespace PsyBnc

open CLib

inductive SlotKind where
  | entry
  | key
  deriving DecidableEq

def SlotKind.text : SlotKind → CStr
  | .entry => ascii "ENTRY"
  | .key => ascii "KEY"

/-- `USER%d.CHANNELS.` -/
def channelSect (uid : Nat) : CStr := userFile uid ++ DOT :: (ascii "CHANNELS" ++ [DOT])

/-- The key of a slot. -/
def slotText (uid : Nat) (kind : SlotKind) (i : Nat) : CStr :=
  channelSect uid ++ (kind.text ++ dec i)

/-- What `getini` finds there. -/
def slotValue (uid : Nat) (conf : Conf) (kind : SlotKind) (i : Nat) : Option CStr :=
  getini (ascii "CHANNELS") (kind.text ++ dec i) (userFile uid) conf

section Slots

variable {uid : Nat} {kind kind' : SlotKind} {i j : Nat}

theorem length_dec_uid (huid : uid < 2 ^ 31) : (dec uid).length ≤ 10 :=
  (length_dec_le (by omega)).2 (by omega)

theorem length_dec_slot (hi : i < 256) : (dec i).length ≤ 3 :=
  (length_dec_le (by omega)).2 (by omega)

theorem length_slotText_lt (huid : uid < 2 ^ 31) (hi : i < 256) (kind : SlotKind) :
    (slotText uid kind i).length < 199 := by
  have huser := length_dec_uid huid
  have hslot := length_dec_slot hi
  have hkind : kind.text.length ≤ 5 := by cases kind <;> decide
  have hname : (ascii "USER").length = 4 := by decide
  have hsect : (ascii "CHANNELS").length = 8 := by decide
  simp only [slotText, channelSect, userFile, List.length_append, List.length_cons, List.length_nil,
    hname, hsect]
  omega

theorem notMem_kind_dec (kind : SlotKind) (i : Nat) {b : Byte} (hb : isDigit b = false)
    (hkind : b ∉ kind.text) : b ∉ kind.text ++ dec i := by
  rw [List.mem_append]
  rintro (h | h)
  · exact hkind h
  · exact notMem_dec hb h

theorem notMem_userFile (uid : Nat) {b : Byte} (hb : isDigit b = false)
    (huser : b ∉ ascii "USER") : b ∉ userFile uid := by
  rw [userFile, List.mem_append]
  rintro (h | h)
  · exact huser h
  · exact notMem_dec hb h

/-- The key of a slot, as a key of the configuration. -/
def slotKey (huid : uid < 2 ^ 31) (kind : SlotKind) (hi : i < 256) : IniKey where
  inidat := userFile uid
  sect := ascii "CHANNELS"
  param := kind.text ++ dec i
  plain := by
    refine ⟨⟨notMem_userFile uid (by decide) (by decide), notMem_userFile uid (by decide)
      (by decide)⟩, by decide, ?_, ?_⟩
    · exact notMem_kind_dec kind i (by decide) (by cases kind <;> decide)
    · exact notMem_kind_dec kind i (by decide) (by cases kind <;> decide)
  fits := by
    have hlen := length_slotText_lt huid hi kind
    simp only [entryText, slotText, channelSect, List.length_append, List.length_cons,
      List.length_nil] at hlen ⊢
    omega

theorem text_slotKey (huid : uid < 2 ^ 31) (kind : SlotKind) (hi : i < 256) :
    (slotKey huid kind hi).text = slotText uid kind i := by
  simp [IniKey.text, slotKey, slotText, channelSect]

theorem equals_notMem_slotText (uid : Nat) (kind : SlotKind) (i : Nat) :
    EQUALS ∉ slotText uid kind i := by
  have huser : EQUALS ∉ userFile uid := notMem_userFile uid (by decide) (by decide)
  have hkind : EQUALS ∉ kind.text ++ dec i :=
    notMem_kind_dec kind i (by decide) (by cases kind <;> decide)
  have hsect : EQUALS ∉ DOT :: (ascii "CHANNELS" ++ [DOT]) := by decide
  simp only [slotText, channelSect, List.mem_append, not_or] at huser hkind hsect ⊢
  exact ⟨⟨huser, hsect⟩, hkind⟩

/-- The text of one slot starts with that of another one if the number does. -/
theorem slotText_prefix_iff :
    slotText uid kind i <+: slotText uid kind' j ↔ kind = kind' ∧ dec i <+: dec j := by
  rw [slotText, slotText, List.prefix_append_right_inj]
  cases kind <;> cases kind'
  · simp [SlotKind.text, List.prefix_append_right_inj]
  · simp [SlotKind.text, ascii]
  · simp [SlotKind.text, ascii]
  · simp [SlotKind.text, List.prefix_append_right_inj]

theorem slotText_injective (h : slotText uid kind i = slotText uid kind' j) :
    kind = kind' ∧ i = j := by
  have hpre : slotText uid kind i <+: slotText uid kind' j := h ▸ List.prefix_rfl
  rcases slotText_prefix_iff.1 hpre with ⟨rfl, _⟩
  have htail := List.append_cancel_left (List.append_cancel_left h)
  exact ⟨rfl, dec_injective htail⟩

theorem slotPattern_eq (huid : uid < 2 ^ 31) (hi : i < 256) (kind : SlotKind) :
    slotPattern uid kind.text i = slotText uid kind i := by
  have hlen := length_slotText_lt huid hi kind
  have heq : userFile uid ++ ascii ".CHANNELS." ++ kind.text ++ dec i = slotText uid kind i := by
    simp [slotText, channelSect, ascii]
  rw [slotPattern, heq, clip_eq_self (by omega)]

end Slots

/-! ## Lines and their keys -/

section Lines

variable {pattern k e : CStr} {conf conf' : Conf}

/-- A pattern without `=` is found in the key of a line. -/
theorem prefix_line_iff (hpattern : EQUALS ∉ pattern) (hkey : keyOf e = some k) :
    pattern <+: e ↔ pattern <+: k := by
  rcases Option.map_eq_some_iff.1 hkey with ⟨⟨u, d⟩, hcut, rfl⟩
  rcases cutAt_eq_some.1 hcut with ⟨rfl, _⟩
  constructor
  · intro h
    by_cases hlen : pattern.length ≤ u.length
    · exact List.prefix_of_prefix_length_le h (List.prefix_append _ _) hlen
    · -- A longer pattern would have the `=`.
      have hpre : u ++ [EQUALS] <+: u ++ EQUALS :: d := ⟨d, by simp⟩
      have hle : (u ++ [EQUALS]).length ≤ pattern.length := by
        simp only [List.length_append, List.length_cons, List.length_nil]
        omega
      have hin : u ++ [EQUALS] <+: pattern := List.prefix_of_prefix_length_le hpre h hle
      exact absurd (hin.subset (by simp)) hpattern
  · exact fun h => h.trans (List.prefix_append _ _)

theorem uniqueKeys_erased (huniq : UniqueKeys conf) : UniqueKeys (erased pattern conf) :=
  huniq.sublist (List.Sublist.filterMap _ List.filter_sublist)

/-- Two lines of one cache with the same key are one line. -/
theorem UniqueKeys.pair (huniq : UniqueKeys conf) {l₁ l₂ : Conf} {e' : CStr}
    (hconf : conf = l₁ ++ e :: l₂) (hmem : e' ∈ l₂) (hkey : keyOf e = some k) :
    keyOf e' ≠ some k := by
  intro hkey'
  subst hconf
  simp only [UniqueKeys, List.filterMap_append, List.filterMap_cons, hkey] at huniq
  have hcons := (List.nodup_append.1 huniq).2.1
  exact (List.nodup_cons.1 hcons).1 (List.mem_filterMap.2 ⟨e', hmem, hkey'⟩)

/-- A cache in which at most one key starts with the pattern, and that holds something else as
well, is cleared exactly. -/
theorem clearsectionconfig_one (huniq : UniqueKeys conf)
    (hone : ∀ e ∈ conf, pattern <+: e → keyOf e = some k) (hother : ∃ e ∈ conf, keyOf e ≠ some k) :
    clearsectionconfig pattern conf = some (erased pattern conf) := by
  refine (clearsectionconfig_eq_erased_iff pattern conf).2 ?_
  match conf with
  | [] =>
      exact trivial
  | [e] =>
      rcases hother with ⟨e', he', hne⟩
      rcases List.mem_singleton.1 he' with rfl
      exact fun h => hne (hone _ (by simp) h)
  | e :: next :: rest =>
      intro hhead hnext
      have hkey := hone e (by simp) hhead
      have hkey' := hone next (by simp) hnext
      have hsplit : e :: next :: rest = [] ++ e :: next :: rest := rfl
      exact huniq.pair hsplit (by simp) hkey hkey'

/-- What is looked up under a key that the pattern does not match stays. -/
theorem lookup_erased {K : IniKey} (hpattern : EQUALS ∉ pattern) (hno : ¬ pattern <+: K.text) :
    lookup (erased pattern conf) K = lookup conf K := by
  rw [lookup_eq, lookup_eq]
  induction conf with
  | nil =>
      rfl
  | cons e conf ih =>
      by_cases hm : pattern <+: e
      · have hkey : keyOf e ≠ some K.text := fun h => hno ((prefix_line_iff hpattern h).1 hm)
        rw [erased_cons_of_match hm, ih, List.findSome?_cons, valueAt_eq_none_iff.2 hkey]
      · rw [erased_cons_of_not_match hm, List.findSome?_cons, List.findSome?_cons, ih]

end Lines

/-! ## Counting -/

/-- The literal part of the format that `countconfentries` scans with. -/
def entryLit (uid : Nat) : CStr := channelSect uid ++ ascii "ENTRY"

def entryFormat (uid : Nat) : List Directive :=
  (entryLit uid).map .lit ++ [.int, .lit EQUALS, .str 255]

section Counting

variable {uid : Nat}

theorem isPlain_entryLit {b : Byte} (h : b ∈ entryLit uid) : isPlain b = true := by
  have hlit : ∀ b ∈ ascii "USER" ++ DOT :: (ascii "CHANNELS" ++ [DOT]) ++ ascii "ENTRY",
      isPlain b = true := by decide +kernel
  simp only [entryLit, channelSect, userFile, List.mem_append] at h
  rcases h with ((h | h) | h) | h
  · exact hlit b (by simp [h])
  · exact isPlain_of_isDigit (isDigit_of_mem_dec h)
  · exact hlit b (List.mem_append_left _ (List.mem_append_right _ h))
  · exact hlit b (List.mem_append_right _ h)

theorem countFormat_eq (huid : uid < 2 ^ 31) :
    scanFormat (clip 256 (userFile uid ++ DOT :: (ascii "CHANNELS" ++ DOT ::
      (ascii "ENTRY%d" ++ ascii "=%255s")))) = entryFormat uid := by
  have heq : userFile uid ++ DOT :: (ascii "CHANNELS" ++ DOT :: (ascii "ENTRY%d" ++
      ascii "=%255s")) = entryLit uid ++ ascii "%d=%255s" := by
    simp [entryLit, channelSect, ascii]
  have hlen : (entryLit uid ++ ascii "%d=%255s").length < 256 := by
    have huser := length_dec_uid huid
    have hrest : (ascii "USER").length + (ascii "CHANNELS").length + (ascii "ENTRY").length +
        (ascii "%d=%255s").length = 25 := by decide
    simp only [entryLit, channelSect, userFile, List.length_append, List.length_cons,
      List.length_nil]
    omega
  rw [heq, clip_eq_self hlen, scanFormat_numbered (fun b hb => isPlain_entryLit hb), entryFormat,
    numberedFormat]

theorem slotText_entry (uid i : Nat) : slotText uid .entry i = entryLit uid ++ dec i := by
  simp [slotText, entryLit, SlotKind.text]

theorem slotLine_eq (uid i : Nat) (d : CStr) :
    slotText uid .entry i ++ EQUALS :: d = numberedLine (entryLit uid) i d := by
  simp [slotText_entry, numberedLine]

/-- The scan marks the slots whose name is not blank. -/
theorem countLoop_spec {conf : Conf}
    (hlines : ∀ e ∈ conf, entryLit uid <+: e →
      ∃ i d, i < 256 ∧ e = slotText uid .entry i ++ EQUALS :: d) (cnt : Nat) (itemlist : List Nat) :
    ∃ found, countLoop (entryFormat uid) conf cnt itemlist = some found ∧
      ∀ i, i ∈ found.2 ↔ i ∈ itemlist ∨
        (i < 256 ∧ ∃ d, Visible d ∧ slotText uid .entry i ++ EQUALS :: d ∈ conf) := by
  simp only [slotLine_eq] at hlines ⊢
  exact countLoop_numbered hlines cnt itemlist

end Counting

end PsyBnc
