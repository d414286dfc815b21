import Mathlib.Data.List.Nodup
import PsyBnc.Lib.Run
import PsyBnc.UChannel.Grammar

/-!
# The mode string of a channel

`addmodetochannel` appends a letter, `deletemodefromchannel` cuts one out, and `ordermodes`, at the
end of every `addchannelmode`, puts the known letters in front.  A call of `addchannelmode` is taken
apart into its changes and the ordering, since the string may be too long, or hold two letters that
exclude each other, only between them.
-/

namespace PsyBnc

open CLib

/-! ## Steps -/

/-- A step of `addchannelmode`. -/
inductive ModeStep where
  | change (c : Change)
  | order
  deriving DecidableEq

def ModeStep.apply (lkm : Uchannelt) : ModeStep → Uchannelt
  | .change c => (applyChange lkm c).1
  | .order => ordermodes lkm

/-- The steps of a call. -/
def callSteps (g : ModeGrammar) (call : CStr × CStr) : List ModeStep :=
  (readChanges g (codeTakes g) (clip 200 call.1) PLUS (some (clip 4096 call.2))).map ModeStep.change ++
    [.order]

theorem foldl_change (cs : List Change) (lkm : Uchannelt) :
    (cs.map ModeStep.change).foldl ModeStep.apply lkm = (applyChanges lkm cs).1 := by
  induction cs generalizing lkm with
  | nil =>
      rfl
  | cons c cs ih =>
      exact ih _

/-- A call is the run of its steps. -/
theorem addchannelmode_eq_steps (lkm : Uchannelt) (call : CStr × CStr) :
    (addchannelmode lkm call.1 call.2).1 =
      (callSteps lkm.grammar call).foldl ModeStep.apply lkm := by
  have hloop := modeLoop_eq (clip 200 call.1) PLUS (some (clip 4096 call.2)) lkm rfl
  rw [callSteps, List.foldl_append, foldl_change, ← hloop]
  rfl

theorem grammar_apply (lkm : Uchannelt) (i : ModeStep) : (i.apply lkm).grammar = lkm.grammar := by
  cases i with
  | change c =>
      exact grammar_applyChange lkm c
  | order =>
      rfl

/-! ## Ordering -/

/-- The letters that `ordermodes` knows. -/
def knownModes : CStr := ascii "spmntilk"

/-- The known letters in their order, and the others behind them. -/
def orderedList (known modes : CStr) : CStr :=
  known.filter (· ∈ modes) ++ modes.filter fun b => decide (b ∉ known ∧ b ≠ SP)

section Ordering

variable {known modes acc rest : CStr} {b : Byte}

/-- The places of some letters are blank. -/
def blanked (known rest : CStr) : CStr := rest.map fun c => if c ∈ known then SP else c

theorem blanked_of_notMem (h : ∀ c ∈ rest, c ∉ known) : blanked known rest = rest := by
  rw [blanked]
  calc rest.map (fun c => if c ∈ known then SP else c)
      = rest.map id := List.map_congr_left fun c hc => if_neg (h c hc)
    _ = rest := List.map_id rest

/-- One round: a letter is found once at most. -/
theorem ordermode_eq (hcount : rest.count b ≤ 1) (hacc : acc.length < 29) :
    ordermode (acc, rest) b = (acc ++ [b].filter (· ∈ rest), blanked [b] rest) := by
  rw [ordermode]
  rcases cut_cases b rest with ⟨hnot, hcut⟩ | ⟨u, v, hrest, hu, hcut⟩
  · have hsame : blanked [b] rest = rest := by
      apply blanked_of_notMem
      intro c hc hcb
      exact hnot (List.mem_singleton.1 hcb ▸ hc)
    simp only [hcut, hsame, List.filter_cons, hnot, decide_false, Bool.false_eq_true, if_false,
      List.filter_nil, List.append_nil]
  · have hv : b ∉ v := by
      rw [hrest, List.count_append, List.count_eq_zero_of_not_mem hu, List.count_cons_self] at hcount
      exact List.count_eq_zero.1 (by omega)
    have hmem : b ∈ rest := by
      rw [hrest]
      simp
    have hother : ∀ {t : CStr}, b ∉ t → blanked [b] t = t := by
      intro t ht
      apply blanked_of_notMem
      intro c hc hcb
      exact ht (List.mem_singleton.1 hcb ▸ hc)
    have hblank : blanked [b] rest = u ++ SP :: v := by
      calc blanked [b] rest
          = blanked [b] u ++ SP :: blanked [b] v := by rw [hrest]; simp [blanked]
        _ = u ++ SP :: v := by rw [hother hu, hother hv]
    simp only [hcut, hacc, if_true, hblank, List.filter_cons, hmem, decide_true, List.filter_nil]

theorem mem_blanked_iff {c : Byte} (hc : c ∉ known) (hblank : c ≠ SP) :
    c ∈ blanked known rest ↔ c ∈ rest := by
  rw [blanked, List.mem_map]
  constructor
  · rintro ⟨d, hd, heq⟩
    by_cases hknown : d ∈ known
    · rw [if_pos hknown] at heq
      exact absurd heq.symm hblank
    · rw [if_neg hknown] at heq
      exact heq ▸ hd
  · exact fun h => ⟨c, h, if_neg hc⟩

theorem count_blanked {c : Byte} (hc : c ∉ known) (hblank : c ≠ SP) :
    (blanked known rest).count c = rest.count c := by
  rw [blanked, List.count_eq_countP, List.countP_map, List.count_eq_countP]
  apply List.countP_congr
  intro d hd
  by_cases hknown : d ∈ known
  · have hne : d ≠ c := fun h => hc (h ▸ hknown)
    simp [hknown, hne, hblank.symm]
  · simp [hknown]

/-- The rounds of `ordermodes`. -/
theorem foldl_ordermode (hnodup : known.Nodup) (hblank : SP ∉ known)
    (hcount : ∀ b ∈ known, rest.count b ≤ 1) (hfit : acc.length + known.length ≤ 29) :
    known.foldl ordermode (acc, rest) =
      (acc ++ known.filter (· ∈ rest), blanked known rest) := by
  induction known generalizing acc rest with
  | nil =>
      simp [blanked]
  | cons b known ih =>
      rcases List.nodup_cons.1 hnodup with ⟨hb, hknown⟩
      have hone : ∀ c ∈ known, c ∉ [b] ∧ c ≠ SP := by
        intro c hc
        refine ⟨fun hcb => hb (List.mem_singleton.1 hcb ▸ hc), ?_⟩
        rintro rfl
        exact hblank (List.mem_cons_of_mem _ hc)
      rw [List.length_cons] at hfit
      have hlength : (acc ++ [b].filter (· ∈ rest)).length + known.length ≤ 29 := by
        have hle := List.length_filter_le (· ∈ rest) [b]
        rw [List.length_singleton] at hle
        rw [List.length_append]
        omega
      have hcount' : ∀ c ∈ known, (blanked [b] rest).count c ≤ 1 := by
        intro c hc
        rw [count_blanked (hone c hc).1 (hone c hc).2]
        exact hcount c (List.mem_cons_of_mem _ hc)
      have hmem : known.filter (· ∈ blanked [b] rest) = known.filter (· ∈ rest) := by
        apply List.filter_congr
        intro c hc
        exact decide_eq_decide.2 (mem_blanked_iff (hone c hc).1 (hone c hc).2)
      have htwice : blanked known (blanked [b] rest) = blanked (b :: known) rest := by
        rw [blanked, blanked, List.map_map, blanked]
        apply List.map_congr_left
        intro c _
        by_cases hc : c = b
        · have hsp : SP ∉ known := fun h => hblank (List.mem_cons_of_mem _ h)
          simp [hc, hsp]
        · simp [hc]
      rw [List.foldl_cons, ordermode_eq (hcount b List.mem_cons_self) (by omega),
        ih hknown (fun h => hblank (List.mem_cons_of_mem _ h)) hcount' hlength, hmem, htwice,
        List.append_assoc, ← List.filter_append]
      rfl

/-- Nothing but the letters that are not known is left. -/
theorem filter_blanked (known rest : CStr) :
    (blanked known rest).filter (· ≠ SP) = rest.filter fun b => decide (b ∉ known ∧ b ≠ SP) := by
  induction rest with
  | nil =>
      rfl
  | cons c rest ih =>
      rw [blanked, List.map_cons, ← blanked, List.filter_cons, ih, List.filter_cons]
      by_cases hc : c ∈ known
      · simp [hc]
      · simp [hc]

/-- What `ordermodes` makes of a string without duplicates. -/
theorem ordermodes_modes (lkm : Uchannelt) (hnodup : lkm.modes.Nodup) :
    (ordermodes lkm).modes =
      clip 20 (if lkm.usern ≠ -1 then (orderedList knownModes lkm.modes).take 29
        else knownModes.filter (· ∈ lkm.modes)) := by
  have hfold : knownModes.foldl ordermode ([], lkm.modes) =
      ([] ++ knownModes.filter (· ∈ lkm.modes), blanked knownModes lkm.modes) := by
    apply foldl_ordermode (by decide) (by decide) _ (by decide)
    exact fun b _ => List.nodup_iff_count_le_one.1 hnodup b
  have hknown : ascii "spmntilk" = knownModes := rfl
  simp only [ordermodes, hknown, hfold, List.nil_append, filter_blanked, orderedList]

end Ordering

/-- The known letters come first, in their order. -/
theorem orderedList_known (known modes : CStr) :
    ∃ u v, orderedList known modes = u ++ v ∧ u.Sublist known ∧ ∀ b ∈ v, b ∉ known := by
  refine ⟨_, _, rfl, List.filter_sublist, ?_⟩
  intro b hb
  exact (of_decide_eq_true (List.mem_filter.1 hb).2).1

theorem mem_orderedList {known modes : CStr} {b : Byte} (hb : b ≠ SP) :
    b ∈ orderedList known modes ↔ b ∈ modes := by
  rw [orderedList, List.mem_append, List.mem_filter, List.mem_filter, decide_eq_true_iff,
    decide_eq_true_iff]
  constructor
  · rintro (⟨_, hmem⟩ | ⟨hmem, _⟩)
    · exact hmem
    · exact hmem
  · intro hmem
    by_cases hknown : b ∈ known
    · exact Or.inl ⟨hknown, hmem⟩
    · exact Or.inr ⟨hmem, hknown, hb⟩

theorem nodup_orderedList {known modes : CStr} (hknown : known.Nodup) (hmodes : modes.Nodup) :
    (orderedList known modes).Nodup := by
  apply List.Nodup.append (hknown.filter _) (hmodes.filter _)
  intro b hb hb'
  exact (of_decide_eq_true (List.mem_filter.1 hb').2).1 (List.mem_filter.1 hb).1

/-- The same letters. -/
theorem orderedList_perm {known modes : CStr} (hknown : known.Nodup) (hmodes : modes.Nodup)
    (hblank : SP ∉ modes) (hblank' : SP ∉ known) : (orderedList known modes).Perm modes := by
  apply (List.perm_ext_iff_of_nodup (nodup_orderedList hknown hmodes) hmodes).2
  intro b
  by_cases hb : b = SP
  · subst hb
    refine iff_of_false ?_ hblank
    rw [orderedList, List.mem_append]
    rintro (hmem | hmem)
    · exact hblank' (List.mem_filter.1 hmem).1
    · exact (of_decide_eq_true (List.mem_filter.1 hmem).2).2 rfl
  · exact mem_orderedList hb

/-- Ordering twice is ordering once. -/
theorem orderedList_orderedList {known modes : CStr} (hblank : SP ∉ known) :
    orderedList known (orderedList known modes) = orderedList known modes := by
  have hfront : known.filter (· ∈ orderedList known modes) = known.filter (· ∈ modes) := by
    apply List.filter_congr
    intro b hb
    have hne : b ≠ SP := fun h => hblank (h ▸ hb)
    exact decide_eq_decide.2 (mem_orderedList hne)
  have hgone : (known.filter (· ∈ modes)).filter (fun b => decide (b ∉ known ∧ b ≠ SP)) = [] := by
    apply List.filter_eq_nil_iff.2
    intro b hb
    simp [(List.mem_filter.1 hb).1]
  conv_lhs => rw [orderedList, hfront]
  rw [orderedList, List.filter_append, hgone, List.nil_append, List.filter_filter]
  simp only [Bool.and_self]

/-! ## Changes -/

/-- `s` and `p`. -/
def rival (md : Byte) : Option Byte :=
  if md = 115 then some 112 else if md = 112 then some 115 else none

/-- The letter that `+s` or `+p` removes, in the switch for modes with a parameter. -/
def Change.excludes (c : Change) : Option Byte :=
  if c.par.isSome ∧ c.sign = PLUS then rival c.md else none

/-- The letters that are left beside the one that is set. -/
def Change.beside (c : Change) (modes : CStr) : CStr :=
  match c.excludes with
  | none => modes
  | some b => modes.erase b

theorem removeLetter_eq_erase {modes : CStr} (hlen : modes.length ≤ 20) (md : Byte) :
    removeLetter modes md = modes.erase md := by
  rw [removeLetter]
  rcases cut_cases md modes with ⟨hnot, hcut⟩ | ⟨u, v, hmodes, hu, hcut⟩
  · rw [hcut, List.erase_of_not_mem hnot]
  · have hlength : (u ++ v).length < 20 := by
      rw [hmodes, List.length_append, List.length_cons] at hlen
      rw [List.length_append]
      omega
    have herase : modes.erase md = u ++ v := by
      rw [hmodes, List.erase_append_right _ hu, List.erase_cons_head]
    simp only [hcut]
    rw [clip_eq_self (Nat.lt_trans hlength (by decide)), clip_eq_self hlength, herase]

theorem mem_addLetter_of_ne {modes : CStr} {md b : Byte} (h : b ≠ md) :
    b ∈ addLetter modes md ↔ b ∈ modes := by
  rw [addLetter]
  split
  · simp [h]
  · exact Iff.rfl

theorem mem_addLetter_self {modes : CStr} {md : Byte} :
    md ∈ addLetter modes md ↔ md ∈ modes ∨ modes.length < 20 := by
  rw [addLetter]
  by_cases hmem : md ∈ modes
  · simp [hmem]
  · by_cases hlen : modes.length < 20
    · simp [hmem, hlen]
    · simp [hmem, hlen]

theorem length_addLetter_le {modes : CStr} {md : Byte} (h : modes.length ≤ 20) :
    (addLetter modes md).length ≤ 20 := by
  rw [addLetter]
  split
  · next hroom =>
    rw [List.length_append, List.length_singleton]
    exact hroom.1
  · exact h

theorem nodup_addLetter {modes : CStr} {md : Byte} (h : modes.Nodup) : (addLetter modes md).Nodup := by
  rw [addLetter]
  split
  · next hroom => exact h.append (List.nodup_singleton _) (by simpa using hroom.2)
  · exact h

section Modes

variable {lkm : Uchannelt} {c : Change}

theorem modes_setMode (lkm : Uchannelt) (md sign : Byte) :
    (setMode lkm md sign).modes =
      if sign = PLUS then addLetter lkm.modes md else removeLetter lkm.modes md :=
  congrArg Settings.modes (settings_setMode lkm md sign)

theorem modes_deletemodefromchannel (lkm : Uchannelt) (md : Byte) :
    (deletemodefromchannel lkm md).modes = removeLetter lkm.modes md :=
  congrArg Settings.modes (settings_deletemodefromchannel lkm md)

theorem modes_paramMode (hlen : lkm.modes.length ≤ 20) (c : Change) (par : CStr)
    (hpar : c.par = some par) : (paramMode lkm c.md c.sign par).1.modes = c.beside lkm.modes := by
  rw [Change.beside, Change.excludes, rival, hpar, Option.isSome_some, paramMode]
  by_cases hlimit : c.md = 108
  · simp [hlimit]
  by_cases hkey : c.md = 107
  · by_cases hplus : c.sign = PLUS
    · simp [hkey, hplus]
    · simp [hkey, hplus]
  by_cases hsecret : c.md = 115
  · by_cases hplus : c.sign = PLUS
    · simp [hsecret, hplus, modes_deletemodefromchannel, removeLetter_eq_erase hlen]
    · simp [hsecret, hplus]
  by_cases hprivate : c.md = 112
  · by_cases hplus : c.sign = PLUS
    · simp [hprivate, hplus, modes_deletemodefromchannel, removeLetter_eq_erase hlen]
    · simp [hprivate, hplus]
  simp [hlimit, hkey, hsecret, hprivate]

theorem length_beside_le (c : Change) (modes : CStr) : (c.beside modes).length ≤ modes.length := by
  rw [Change.beside]
  cases c.excludes with
  | none =>
      exact le_rfl
  | some b =>
      exact List.erase_sublist.length_le

/-- What a change does to the mode string. -/
theorem modes_applyChange (hlen : lkm.modes.length ≤ 20)
    (hpar : c.md ∈ lkm.prefixmodes → c.par.isSome = true) :
    (applyChange lkm c).1.modes =
      if c.md ∈ lkm.prefixmodes then lkm.modes
      else if c.sign = PLUS then addLetter (c.beside lkm.modes) c.md
      else lkm.modes.erase c.md := by
  rw [applyChange]
  cases hcase : c.par with
  | none =>
      have huser : c.md ∉ lkm.prefixmodes := by
        intro h
        have hsome := hpar h
        rw [hcase] at hsome
        cases hsome
      have hset : (setMode lkm c.md c.sign).modes =
          if c.sign = PLUS then addLetter (c.beside lkm.modes) c.md else lkm.modes.erase c.md := by
        rw [modes_setMode, removeLetter_eq_erase hlen, Change.beside, Change.excludes, hcase]
        simp
      rw [if_neg huser]
      by_cases hlimit : c.md = 108
      · simp only [if_pos hlimit]
        exact hset
      · simp only [if_neg hlimit]
        exact hset
  | some par =>
      simp only
      by_cases huser : c.md ∈ lkm.prefixmodes
      · rw [if_pos huser, if_pos huser]
        split
        · exact congrArg Settings.modes (settings_addchannelusermode lkm par c.md)
        · exact congrArg Settings.modes (settings_removechannelusermode lkm par c.md)
      · have hbeside := length_beside_le c lkm.modes
        have hminus : c.sign ≠ PLUS → c.beside lkm.modes = lkm.modes := by
          intro h
          simp [Change.beside, Change.excludes, h]
        rw [if_neg huser, if_neg huser, modes_setMode, modes_paramMode hlen c par hcase]
        by_cases hplus : c.sign = PLUS
        · rw [if_pos hplus, if_pos hplus]
        · rw [if_neg hplus, if_neg hplus, hminus hplus, removeLetter_eq_erase hlen]

end Modes

/-! ## Runs -/

/-- A step that `addchannelmode` takes on a channel with an announcement. -/
def ModeStep.ReadBy (g : ModeGrammar) : ModeStep → Prop
  | .change c =>
      (c.sign = PLUS ∨ c.sign = MINUS) ∧ (c.md ∈ g.prefixmodes ∨ c.md ∈ g.chanmodes) ∧
        (c.md ∈ g.prefixmodes → c.par.isSome = true)
  | .order => True

theorem readBy_of_mem_callSteps {g : ModeGrammar} {call : CStr × CStr} {i : ModeStep}
    (hi : i ∈ callSteps g call) : i.ReadBy g := by
  rcases List.mem_append.1 hi with hchange | horder
  · rcases List.mem_map.1 hchange with ⟨c, hc, rfl⟩
    rcases readChanges_read (Or.inl rfl) c hc with ⟨hsign, hknown, hpar⟩
    refine ⟨hsign, hknown, fun huser => ?_⟩
    rw [hpar, codeTakes]
    simp [huser]
  · rw [List.mem_singleton.1 horder]
    exact trivial

/-- The steps of a sequence of calls. -/
def callsSteps (g : ModeGrammar) (calls : List (CStr × CStr)) : List ModeStep :=
  calls.flatMap (callSteps g)

theorem readBy_of_mem_callsSteps {g : ModeGrammar} {calls : List (CStr × CStr)} :
    ∀ i ∈ callsSteps g calls, i.ReadBy g := by
  intro i hi
  rcases List.mem_flatMap.1 hi with ⟨call, _, hmem⟩
  exact readBy_of_mem_callSteps hmem

/-- A sequence of calls is the run of their steps. -/
theorem foldl_addchannelmode (calls : List (CStr × CStr)) (lkm : Uchannelt) :
    calls.foldl (fun lkm call => (addchannelmode lkm call.1 call.2).1) lkm =
      (callsSteps lkm.grammar calls).foldl ModeStep.apply lkm := by
  have hgrammar : ∀ (is : List ModeStep) (lkm : Uchannelt),
      (is.foldl ModeStep.apply lkm).grammar = lkm.grammar := by
    intro is
    induction is with
    | nil =>
        exact fun _ => rfl
    | cons i is ih =>
        exact fun lkm => (ih _).trans (grammar_apply lkm i)
  induction calls generalizing lkm with
  | nil =>
      rfl
  | cons call calls ih =>
      rw [List.foldl_cons, ih, addchannelmode_eq_steps, hgrammar, callsSteps, callsSteps,
        List.flatMap_cons, List.foldl_append]

/-- A step as a partial function, for the rules of `Safe` and `StepsMeet`. -/
def ModeStep.step (lkm : Uchannelt) (i : ModeStep) : Option Uchannelt := some (i.apply lkm)

/-! ## The bounds of the string -/

/-- No duplicates, a terminator inside `modes[20]`, and what is to hold of `ordermodes`. -/
structure ModesKept (lkm : Uchannelt) : Prop where
  nodup : lkm.modes.Nodup
  fits : lkm.modes.length < 20
  perm : (ordermodes lkm).modes.Perm lkm.modes
  known : ∃ u v, (ordermodes lkm).modes = u ++ v ∧ u.Sublist knownModes ∧ ∀ b ∈ v, b ∉ knownModes
  idem : ordermodes (ordermodes lkm) = ordermodes lkm

/-- The channel of a user, with an announcement without blanks. -/
structure UserModes (g : ModeGrammar) (lkm : Uchannelt) : Prop where
  grammar : lkm.grammar = g
  usern : lkm.usern ≠ -1
  nodup : lkm.modes.Nodup
  blank : SP ∉ lkm.modes

section Bounds

variable {g : ModeGrammar} {lkm : Uchannelt}

theorem UserModes.perm (h : UserModes g lkm) : (orderedList knownModes lkm.modes).Perm lkm.modes :=
  orderedList_perm (by decide) h.nodup h.blank (by decide)

theorem UserModes.ordermodes_eq (h : UserModes g lkm) (hfits : lkm.modes.length < 20) :
    (ordermodes lkm).modes = orderedList knownModes lkm.modes := by
  have hperm := h.perm
  have hlength : (orderedList knownModes lkm.modes).length < 20 := by
    rw [hperm.length_eq]
    exact hfits
  rw [ordermodes_modes lkm h.nodup, if_pos h.usern, List.take_of_length_le (by omega),
    clip_eq_self hlength]

theorem UserModes.order (h : UserModes g lkm) : UserModes g (ordermodes lkm) := by
  have hnodup : (ordermodes lkm).modes.Nodup := by
    rw [ordermodes_modes lkm h.nodup, if_pos h.usern]
    exact (nodup_orderedList (by decide) h.nodup).sublist
      ((List.take_sublist _ _).trans (List.take_sublist _ _))
  refine ⟨h.grammar, h.usern, hnodup, ?_⟩
  intro hmem
  rw [ordermodes_modes lkm h.nodup, if_pos h.usern] at hmem
  have hin := List.mem_of_mem_take (mem_of_mem_clip hmem)
  have hperm := h.perm
  exact h.blank (hperm.mem_iff.1 hin)

/-- Beside the length nothing can go wrong. -/
theorem UserModes.kept_iff (h : UserModes g lkm) : ModesKept lkm ↔ lkm.modes.length < 20 := by
  refine ⟨ModesKept.fits, fun hfits => ?_⟩
  have hordered := h.ordermodes_eq hfits
  have hperm := h.perm
  have hfits' : (ordermodes lkm).modes.length < 20 := by
    rw [hordered, hperm.length_eq]
    exact hfits
  refine ⟨h.nodup, hfits, hordered ▸ hperm, ?_, ?_⟩
  · rw [hordered]
    exact orderedList_known _ _
  · have htwice : (ordermodes (ordermodes lkm)).modes = (ordermodes lkm).modes := by
      rw [h.order.ordermodes_eq hfits', hordered, orderedList_orderedList (by decide)]
    exact congrArg (fun modes => { lkm with modes := modes }) htwice

/-- There is room for the letter that a change sets. -/
def HasRoom (lkm : Uchannelt) : ModeStep → Prop
  | .change c =>
      c.sign = PLUS → c.md ∉ lkm.prefixmodes →
        c.md ∈ lkm.modes ∨ lkm.modes.length < 19 ∨ ∃ b ∈ c.excludes, b ∈ lkm.modes
  | .order => True

instance HasRoom.decidable (lkm : Uchannelt) : ∀ i, Decidable (HasRoom lkm i)
  | .change _ => by
      dsimp only [HasRoom]
      infer_instance
  | .order => isTrue trivial

theorem rival_cases {md other : Byte} (h : rival md = some other) :
    (md = 115 ∧ other = 112) ∨ (md = 112 ∧ other = 115) := by
  rw [rival] at h
  split at h
  · next hmd =>
    cases h
    exact Or.inl ⟨hmd, rfl⟩
  · split at h
    · next hmd =>
      cases h
      exact Or.inr ⟨hmd, rfl⟩
    · cases h

theorem excludes_ne {c : Change} {b : Byte} (h : c.excludes = some b) : b ≠ c.md := by
  rw [Change.excludes] at h
  split at h
  · rcases rival_cases h with ⟨hmd, rfl⟩ | ⟨hmd, rfl⟩
    · rw [hmd]
      decide
    · rw [hmd]
      decide
  · cases h

theorem nodup_beside {modes : CStr} (h : modes.Nodup) (c : Change) : (c.beside modes).Nodup := by
  rw [Change.beside]
  cases c.excludes with
  | none =>
      exact h
  | some b =>
      exact h.erase b

theorem mem_beside {modes : CStr} {c : Change} : c.md ∈ c.beside modes ↔ c.md ∈ modes := by
  rw [Change.beside]
  cases hexcludes : c.excludes with
  | none =>
      rfl
  | some b =>
      exact List.mem_erase_of_ne (excludes_ne hexcludes).symm

theorem beside_sublist (modes : CStr) (c : Change) : (c.beside modes).Sublist modes := by
  rw [Change.beside]
  cases c.excludes with
  | none =>
      exact List.Sublist.refl _
  | some b =>
      exact List.erase_sublist

/-- The letters beside the one that is set leave room for it. -/
theorem length_beside_lt {modes : CStr} {c : Change} (hfits : modes.length < 20) :
    (c.beside modes).length < 19 ↔ modes.length < 19 ∨ ∃ b ∈ c.excludes, b ∈ modes := by
  rw [Change.beside]
  cases c.excludes with
  | none =>
      simp
  | some b =>
      by_cases hb : b ∈ modes
      · have hlength := List.length_erase_of_mem hb
        have hpos := List.length_pos_of_mem hb
        simp only [hlength, Option.mem_def, Option.some.injEq, exists_eq_left', hb, or_true, iff_true]
        omega
      · simp [List.erase_of_not_mem hb, hb]

/-- A step keeps the channel as it is to be, as long as there is room. -/
theorem UserModes.step (h : UserModes g lkm) (hchan : SP ∉ g.chanmodes) {i : ModeStep}
    (hi : i.ReadBy g) (hfits : lkm.modes.length < 20) :
    UserModes g (i.apply lkm) ∧ (HasRoom lkm i ↔ (i.apply lkm).modes.length < 20) := by
  cases i with
  | order =>
      refine ⟨h.order, iff_of_true trivial ?_⟩
      have hperm := h.perm
      show (ordermodes lkm).modes.length < 20
      rw [h.ordermodes_eq hfits, hperm.length_eq]
      exact hfits
  | change c =>
      rcases hi with ⟨_, hknown, hpar⟩
      have hletters : lkm.prefixmodes = g.prefixmodes := congrArg ModeGrammar.prefixmodes h.grammar
      have hmodes := modes_applyChange (by omega : lkm.modes.length ≤ 20) (hletters ▸ hpar)
      have hgrammar : ((ModeStep.change c).apply lkm).grammar = g :=
        (grammar_apply lkm _).trans h.grammar
      have husern : ((ModeStep.change c).apply lkm).usern ≠ -1 := by
        have hframe := congrArg Uchannelt.usern (frame_applyChange lkm c)
        rw [ModeStep.apply]
        exact fun hminus => h.usern (hframe.symm.trans hminus)
      have hstring : UserModes g ((ModeStep.change c).apply lkm) ↔
          (applyChange lkm c).1.modes.Nodup ∧ SP ∉ (applyChange lkm c).1.modes :=
        ⟨fun h => ⟨h.nodup, h.blank⟩, fun h => ⟨hgrammar, husern, h.1, h.2⟩⟩
      rw [hstring, ModeStep.apply, hmodes, HasRoom]
      by_cases huser : c.md ∈ lkm.prefixmodes
      · rw [if_pos huser]
        exact ⟨⟨h.nodup, h.blank⟩, iff_of_true (fun _ hno => absurd huser hno) hfits⟩
      rw [if_neg huser]
      by_cases hplus : c.sign = PLUS
      · have hblank : SP ≠ c.md := by
          rintro hsp
          rw [← hsp] at hknown huser
          exact hchan (hknown.resolve_left (hletters ▸ huser))
        have hsub := beside_sublist lkm.modes c
        have hle := hsub.length_le
        have hbeside := nodup_beside h.nodup c
        have hlt : (c.beside lkm.modes).length < 20 := lt_of_le_of_lt hle hfits
        -- There is room for the letter when `s` or `p` makes room for its rival, too.
        have hroom : (c.sign = PLUS → c.md ∉ lkm.prefixmodes →
            c.md ∈ lkm.modes ∨ lkm.modes.length < 19 ∨ ∃ b ∈ c.excludes, b ∈ lkm.modes) ↔
            c.md ∈ c.beside lkm.modes ∨ (c.beside lkm.modes).length < 19 := by
          rw [mem_beside, length_beside_lt hfits]
          exact ⟨fun hall => hall hplus huser, fun hone _ _ => hone⟩
        rw [if_pos hplus, hroom, addLetter]
        by_cases hmem : c.md ∈ c.beside lkm.modes
        · rw [if_neg (fun hcond => hcond.2 hmem)]
          exact ⟨⟨hbeside, fun hsp => h.blank (hsub.subset hsp)⟩, iff_of_true (Or.inl hmem) hlt⟩
        · rw [if_pos ⟨hlt, hmem⟩]
          refine ⟨⟨?_, ?_⟩, ?_⟩
          · exact hbeside.append (List.nodup_singleton _) (by simpa using hmem)
          · simp only [List.mem_append, List.mem_singleton, not_or]
            exact ⟨fun hsp => h.blank (hsub.subset hsp), hblank⟩
          · rw [List.length_append, List.length_singleton]
            constructor
            · rintro (hin | hlt')
              · exact absurd hin hmem
              · omega
            · exact fun hlt' => Or.inr (by omega)
      · rw [if_neg hplus]
        have hsub : (lkm.modes.erase c.md).Sublist lkm.modes := List.erase_sublist
        refine ⟨⟨h.nodup.erase _, fun hsp => h.blank (hsub.subset hsp)⟩, ?_⟩
        exact iff_of_true (fun h => absurd h hplus) (lt_of_le_of_lt hsub.length_le hfits)

/-- Along every sequence of calls the string is as it is to be exactly when every letter has room. -/
theorem UserModes.safe_iff (h : UserModes g lkm) (hchan : SP ∉ g.chanmodes)
    (hfits : lkm.modes.length < 20) (calls : List (CStr × CStr)) :
    Safe ModeStep.step ModesKept lkm (callsSteps g calls) ↔
      StepsMeet ModeStep.step HasRoom lkm (callsSteps g calls) := by
  apply safe_iff_stepsMeet_of_inputs (UserModes g) _ readBy_of_mem_callsSteps h (h.kept_iff.2 hfits)
  intro lkm i h hi hkept
  rcases h.step hchan hi hkept.fits with ⟨hnext, hroom⟩
  exact ⟨i.apply lkm, rfl, hnext, hroom.trans hnext.kept_iff.symm⟩

end Bounds

end PsyBnc
