import PsyBnc.UChannel.Slots

/-!
# A configuration that the channels of a user can be kept in

The functions that add, remove and change a channel of a user fail on a configuration whose first line is erased
with the last one behind it, and `countconfentries` on a slot with a negative number.  Where the first line is of
another section and the slots are numbered they do not fail, and leave such a configuration.
-/

namespace PsyBnc

open CLib

structure ConfReady (uid : Nat) (conf : Conf) : Prop where
  head : ∃ e rest, conf = e :: rest ∧ ¬ channelSect uid <+: e
  slots : ∀ e ∈ conf, entryLit uid <+: e → ∃ i d, i < 256 ∧ e = slotText uid .entry i ++ EQUALS :: d

section Written

variable {hit : CStr → Prop} {buf : Option CStr} {conf conf' : Conf} {e : CStr}

theorem Written.mem (h : Written hit buf conf conf') (he : e ∈ conf') : e ∈ conf ∨ buf = some e := by
  rcases h with ⟨l₁, old, l₂, rfl, rfl, _, _⟩
  rcases List.mem_append.1 he with he | he
  · rcases List.mem_append.1 he with he | he
    · exact Or.inl (List.mem_append_left _ (List.mem_append_left _ he))
    · right
      rw [Option.mem_toList] at he
      exact he
  · exact Or.inl (List.mem_append_right _ he)

/-- When something is written the first line is the old one or the new one. -/
theorem Written.first {line : CStr} (h : Written hit (some line) (e :: conf) conf') :
    ∃ first rest, conf' = first :: rest ∧ (first = e ∨ first = line) := by
  rcases h with ⟨l₁, old, l₂, hconf, rfl, _, _⟩
  cases l₁ with
  | nil =>
      exact ⟨line, l₂, rfl, Or.inr rfl⟩
  | cons first l₁ =>
      rw [List.cons_append, List.cons_append, List.cons.injEq] at hconf
      exact ⟨first, l₁ ++ [line] ++ l₂, rfl, Or.inl hconf.1.symm⟩

end Written

section Sections

variable {uid : Nat}

/-- The section is written out before the text of a line is cut. -/
theorem channelSect_prefix_line (param d : CStr) (huid : uid < 2 ^ 31) :
    channelSect uid ++ param.take 100 <+: iniLine (ascii "CHANNELS") param (userFile uid) d := by
  have hsect : (channelSect uid).length < 40 := by
    have hlen := length_userFile huid
    have hname : (ascii "CHANNELS").length = 8 := by decide
    simp only [channelSect, List.length_append, List.length_cons, List.length_nil, hname]
    omega
  have hkey : channelSect uid ++ param.take 100 <+: entryText (userFile uid) (ascii "CHANNELS") param := by
    have htext : entryText (userFile uid) (ascii "CHANNELS") param = channelSect uid ++ (param ++ [EQUALS]) := by
      simp [entryText, channelSect]
    rw [htext, List.prefix_append_right_inj]
    exact (List.take_prefix 100 param).trans (List.prefix_append _ _)
  have hlen : (channelSect uid ++ param.take 100).length < 200 := by
    rw [List.length_append, List.length_take]
    omega
  have hclip : channelSect uid ++ param.take 100 <+:
      clip 200 (entryText (userFile uid) (ascii "CHANNELS") param) := by
    rw [clip]
    exact List.prefix_take_iff.2 ⟨hkey, by omega⟩
  rw [iniLine, clip]
  exact List.prefix_take_iff.2 ⟨hclip.trans (List.prefix_append _ _), by omega⟩

theorem entryLit_ne_key (i : Nat) : ¬ entryLit uid <+: channelSect uid ++ (ascii "KEY" ++ dec i).take 100 := by
  rw [entryLit, List.prefix_append_right_inj]
  intro h
  rcases h with ⟨t, ht⟩
  have hhead := congrArg List.head? ht
  simp [ascii] at hhead

end Sections

namespace ConfReady

variable {uid : Nat} {conf : Conf}

/-- A section or a slot of the channels is erased. -/
theorem clear (h : ConfReady uid conf) {pattern : CStr} (hpattern : channelSect uid <+: pattern) :
    ∃ conf', clearsectionconfig pattern conf = some conf' ∧ ConfReady uid conf' := by
  rcases h.head with ⟨e, rest, rfl, hother⟩
  have hno : ¬ pattern <+: e := fun hpre => hother (hpattern.trans hpre)
  refine ⟨_, clearsectionconfig_of_not_match hno rest, ?_, ?_⟩
  · refine ⟨e, erased pattern rest, erased_cons_of_not_match hno rest, hother⟩
  · intro d hd hlit
    exact h.slots d (mem_erased.1 hd).1 hlit

/-- A line of another section is written. -/
theorem write (h : ConfReady uid conf) {sect param inidat line : CStr} {data : Option CStr}
    (hline : newLine sect param inidat data = some line) (hother : ¬ channelSect uid <+: line) :
    ∃ conf', writeini sect param inidat data conf = some conf' ∧ ConfReady uid conf' := by
  rcases h.head with ⟨e, rest, rfl, hhead⟩
  cases hwrite : writeini sect param inidat data (e :: rest) with
  | none =>
      exact absurd (writeini_eq_none_iff.1 hwrite).1 (List.cons_ne_nil e rest)
  | some conf' =>
      have hwritten := writeini_written hwrite
      refine ⟨conf', rfl, ?_, ?_⟩
      · rw [hline] at hwritten
        rcases hwritten.first with ⟨first, rest', rfl, rfl | rfl⟩
        · exact ⟨_, rest', rfl, hhead⟩
        · exact ⟨_, rest', rfl, hother⟩
      · intro d hd hlit
        rcases hwritten.mem hd with hd | hd
        · exact h.slots d hd hlit
        · rw [hline, Option.some.injEq] at hd
          exact absurd ((List.prefix_append _ _).trans (hd ▸ hlit)) hother

/-- A line of the channels is written, or taken out. -/
theorem writeChannels (h : ConfReady uid conf) (huid : uid < 2 ^ 31) {param : CStr} {data : Option CStr}
    (hline : ∀ line, newLine (ascii "CHANNELS") param (userFile uid) data = some line → entryLit uid <+: line →
      ∃ i d, i < 256 ∧ line = slotText uid .entry i ++ EQUALS :: d) :
    ∃ conf', writeini (ascii "CHANNELS") param (userFile uid) data conf = some conf' ∧ ConfReady uid conf' := by
  rcases h.head with ⟨e, rest, rfl, hhead⟩
  have hsect : clip 200 (sectionText (userFile uid) (ascii "CHANNELS")) = channelSect uid := by
    have hlen := length_userFile huid
    have hname : (ascii "CHANNELS").length = 8 := by decide
    apply clip_eq_self
    simp only [sectionText, List.length_append, List.length_cons, List.length_nil, hname]
    omega
  cases hwrite : writeini (ascii "CHANNELS") param (userFile uid) data (e :: rest) with
  | none =>
      exact absurd (writeini_eq_none_iff.1 hwrite).1 (List.cons_ne_nil e rest)
  | some conf' =>
      refine ⟨conf', rfl, ?_, ?_⟩
      · have hfirst := writeini_head (e := e) rfl (hsect.symm ▸ hhead) hwrite
        cases conf' with
        | nil =>
            cases hfirst
        | cons first rest' =>
            cases hfirst
            exact ⟨e, rest', rfl, hhead⟩
      · intro d hd hlit
        rcases (writeini_written hwrite).mem hd with hd | hd
        · exact h.slots d hd hlit
        · exact hline d hd hlit

theorem writeEntry (h : ConfReady uid conf) (huid : uid < 2 ^ 31) {i : Nat} (hi : i < 256) {d : CStr}
    (hd : d.length < 1800) :
    ∃ conf', writeini (ascii "CHANNELS") (ascii "ENTRY" ++ dec i) (userFile uid) (some d) conf = some conf' ∧
      ConfReady uid conf' := by
  apply h.writeChannels huid
  intro line hline _
  rcases Option.map_eq_some_iff.1 hline with ⟨d', hd', rfl⟩
  refine ⟨i, d, hi, ?_⟩
  have heq : d' = d := by
    rcases dataPtr_cases (some d) with hnone | ⟨d'', hsome, _, hdata⟩
    · rw [hnone] at hd'
      cases hd'
    · rw [hdata, Option.some.injEq] at hd'
      rw [Option.some.injEq] at hsome
      exact hd'.symm.trans hsome.symm
  rw [heq, ← text_slotKey huid .entry hi]
  exact iniLine_eq (slotKey huid .entry hi) hd

theorem writeKey (h : ConfReady uid conf) (huid : uid < 2 ^ 31) (i : Nat) (data : Option CStr) :
    ∃ conf', writeini (ascii "CHANNELS") (ascii "KEY" ++ dec i) (userFile uid) data conf = some conf' ∧
      ConfReady uid conf' := by
  apply h.writeChannels huid
  intro line hline hlit
  rcases Option.map_eq_some_iff.1 hline with ⟨d, _, rfl⟩
  have hpre := channelSect_prefix_line (ascii "KEY" ++ dec i) d huid
  exfalso
  rcases Nat.le_total (entryLit uid).length (channelSect uid ++ (ascii "KEY" ++ dec i).take 100).length with hle | hle
  · exact entryLit_ne_key i (List.prefix_of_prefix_length_le hlit hpre hle)
  · have hback := List.prefix_of_prefix_length_le hpre hlit hle
    rw [entryLit, List.prefix_append_right_inj] at hback
    rcases hback with ⟨t, ht⟩
    have hhead := congrArg List.head? ht
    simp [ascii] at hhead

theorem writeKeys (h : ConfReady uid conf) (huid : uid < 2 ^ 31) (i : Nat) (keys : List KeyWrite) :
    ∃ conf', PsyBnc.writeKeys uid i keys conf = some conf' ∧ ConfReady uid conf' := by
  induction keys generalizing conf with
  | nil =>
      exact ⟨conf, rfl, h⟩
  | cons key keys ih =>
      rcases h.writeKey huid i key with ⟨conf₁, hwrite, hready⟩
      rcases ih hready with ⟨conf₂, hrest, hready'⟩
      refine ⟨conf₂, ?_, hready'⟩
      rw [PsyBnc.writeKeys, hwrite]
      exact hrest

theorem countconfentries (h : ConfReady uid conf) (huid : uid < 2 ^ 31) :
    ∃ found, PsyBnc.countconfentries (ascii "CHANNELS") (ascii "ENTRY%d") (userFile uid) conf = some found ∧
      found.2 < 256 := by
  rcases countLoop_spec h.slots 0 [] with ⟨p, hloop, _⟩
  refine ⟨(p.1, firstFree p.2), ?_, firstFree_lt p.2⟩
  rw [PsyBnc.countconfentries]
  simp only [countFormat_eq huid, hloop, Option.map_some]

end ConfReady

end PsyBnc
