import PsyBnc.UChannel.ModeString

/-!
# Secret and private channels

A channel is to be secret or private, not both.  `addchannelmode` removes the one for the other in
the switch for modes that are read with a parameter, where `CHANMODES` usually has neither of them.
-/

namespace PsyBnc

open CLib

/-- A letter that takes no parameter, set or removed. -/
def ModeGrammar.Flag (g : ModeGrammar) (md : Byte) : Prop :=
  md ∈ g.chanmodes ∧ ∀ sign, g.takes md sign = false

/-- At most one of `s` and `p` is set; after `+s` it is `s`, after `+p` it is `p`, and ordering the
modes does not change this. -/
def Exclusive (lkm : Uchannelt) (i : ModeStep) : Prop :=
  let modes := (i.apply lkm).modes
  ¬ (115 ∈ modes ∧ 112 ∈ modes) ∧
    match i with
    | .change c => c.sign = PLUS → ∀ other ∈ rival c.md, c.md ∈ modes ∧ other ∉ modes
    | .order => (115 ∈ modes ↔ 115 ∈ lkm.modes) ∧ (112 ∈ modes ↔ 112 ∈ lkm.modes)

/-- A flag `s` or `p` is set while the other one is not, unless a parameter is read for it, and while
the string has room. -/
def NoClash (lkm : Uchannelt) : ModeStep → Prop
  | .change c =>
      c.sign = PLUS → ∀ other ∈ rival c.md,
        (c.par = none → other ∉ lkm.modes) ∧ (c.md ∈ lkm.modes ∨ (c.beside lkm.modes).length < 20)
  | .order => True

instance Exclusive.decidable (lkm : Uchannelt) : ∀ i, Decidable (Exclusive lkm i)
  | .change _ => by
      dsimp only [Exclusive]
      infer_instance
  | .order => by
      dsimp only [Exclusive]
      infer_instance

instance NoClash.decidable (lkm : Uchannelt) : ∀ i, Decidable (NoClash lkm i)
  | .change _ => by
      dsimp only [NoClash]
      infer_instance
  | .order => isTrue trivial

/-- A mode string without duplicates, in which `s` and `p` are not set together. -/
structure Apart (g : ModeGrammar) (lkm : Uchannelt) : Prop where
  grammar : lkm.grammar = g
  nodup : lkm.modes.Nodup
  fits : lkm.modes.length ≤ 20
  apart : ¬ (115 ∈ lkm.modes ∧ 112 ∈ lkm.modes)

section Secret

variable {g : ModeGrammar} {lkm : Uchannelt}

/-- Known letters come first, so that none of them is lost. -/
theorem mem_ordermodes (hnodup : lkm.modes.Nodup) {b : Byte} (hb : b ∈ knownModes) :
    b ∈ (ordermodes lkm).modes ↔ b ∈ lkm.modes := by
  have hblank : b ≠ SP := by
    rintro rfl
    exact absurd hb (by decide)
  rw [ordermodes_modes lkm hnodup]
  constructor
  · intro hmem
    have hin := mem_of_mem_clip hmem
    split at hin
    · exact (mem_orderedList hblank).1 (List.mem_of_mem_take hin)
    · exact of_decide_eq_true (List.mem_filter.1 hin).2
  · intro hmem
    have hfront : b ∈ knownModes.filter (· ∈ lkm.modes) :=
      List.mem_filter.2 ⟨hb, decide_eq_true hmem⟩
    have hlength : (knownModes.filter (· ∈ lkm.modes)).length ≤ 8 := List.length_filter_le _ _
    have hclip : clip 20 (knownModes.filter (· ∈ lkm.modes)) = knownModes.filter (· ∈ lkm.modes) :=
      clip_eq_self (by omega)
    split
    · rw [orderedList, clip, List.take_take, List.take_append]
      apply List.mem_append_left
      rwa [List.take_of_length_le (by omega)]
    · rwa [hclip]

theorem ModeGrammar.Flag.notMem {md : Byte} (h : g.Flag md) : md ∉ g.prefixmodes := by
  intro hmem
  have htakes := h.2 PLUS
  rw [ModeGrammar.takes] at htakes
  simp [hmem] at htakes

/-- After a letter with a rival was set, the rival is gone only if a parameter was read. -/
theorem rival_notMem_beside {c : Change} {other : Byte} (hplus : c.sign = PLUS)
    (hrival : rival c.md = some other) {modes : CStr} (hnodup : modes.Nodup) :
    other ∉ c.beside modes ↔ (c.par = none → other ∉ modes) := by
  rw [Change.beside, Change.excludes, hrival]
  cases hpar : c.par with
  | none =>
      simp
  | some par =>
      simpa [hplus] using hnodup.not_mem_erase

/-- A step keeps `s` and `p` apart exactly when they do not clash. -/
theorem Apart.exclusive_iff (h : Apart g lkm) (hs : g.Flag 115) (hp : g.Flag 112) {i : ModeStep}
    (hi : i.ReadBy g) : Exclusive lkm i ↔ NoClash lkm i := by
  cases i with
  | order =>
      -- Putting the modes in order takes no letter away.
      have hsecret : 115 ∈ (ordermodes lkm).modes ↔ 115 ∈ lkm.modes :=
        mem_ordermodes h.nodup (by decide)
      have hprivate : 112 ∈ (ordermodes lkm).modes ↔ 112 ∈ lkm.modes :=
        mem_ordermodes h.nodup (by decide)
      refine iff_of_true ⟨?_, hsecret, hprivate⟩ trivial
      show ¬ (115 ∈ (ordermodes lkm).modes ∧ 112 ∈ (ordermodes lkm).modes)
      rw [hsecret, hprivate]
      exact h.apart
  | change c =>
      rcases hi with ⟨_, _, hpar⟩
      have hletters : lkm.prefixmodes = g.prefixmodes := congrArg ModeGrammar.prefixmodes h.grammar
      have hmodes := modes_applyChange h.fits (hletters ▸ hpar)
      simp only [Exclusive, NoClash, ModeStep.apply, hmodes]
      by_cases huser : c.md ∈ lkm.prefixmodes
      · -- a mode of a member
        have hnone : ∀ other, rival c.md = some other → False := by
          intro other hrival
          rw [hletters] at huser
          rcases rival_cases hrival with ⟨hmd, _⟩ | ⟨hmd, _⟩
          · exact hs.notMem (hmd ▸ huser)
          · exact hp.notMem (hmd ▸ huser)
        rw [if_pos huser]
        exact iff_of_true ⟨h.apart, fun _ other hother => (hnone other hother).elim⟩
          (fun _ other hother => (hnone other hother).elim)
      rw [if_neg huser]
      by_cases hplus : c.sign = PLUS
      · rw [if_pos hplus]
        simp only [hplus, true_implies]
        cases hrival : rival c.md with
        | none =>
            -- A letter without a rival is neither `s` nor `p`.
            have hne : 115 ≠ c.md ∧ 112 ≠ c.md := by
              constructor
              · intro hmd
                rw [← hmd] at hrival
                cases hrival
              · intro hmd
                rw [← hmd] at hrival
                cases hrival
            have hbeside : c.beside lkm.modes = lkm.modes := by
              simp [Change.beside, Change.excludes, hrival]
            rw [mem_addLetter_of_ne hne.1, mem_addLetter_of_ne hne.2, hbeside]
            simpa using h.apart
        | some other =>
            have hother : other ≠ c.md := by
              rcases rival_cases hrival with ⟨hmd, rfl⟩ | ⟨hmd, rfl⟩
              · rw [hmd]
                decide
              · rw [hmd]
                decide
            -- `s` and `p` are the letter and its rival, in one order or the other.
            have hpair : ∀ P : Byte → Prop, (P 115 ∧ P 112) ↔ (P c.md ∧ P other) := by
              intro P
              rcases rival_cases hrival with ⟨hmd, rfl⟩ | ⟨hmd, rfl⟩
              · rw [hmd]
              · rw [hmd, and_comm]
            have hgone := rival_notMem_beside hplus hrival h.nodup
            rw [hpair (· ∈ addLetter (c.beside lkm.modes) c.md)]
            simp only [Option.mem_def, Option.some.injEq, forall_eq', mem_addLetter_of_ne hother,
              mem_addLetter_self, mem_beside]
            rw [← hgone]
            constructor
            · rintro ⟨_, hset, hnot⟩
              exact ⟨hnot, hset⟩
            · rintro ⟨hnot, hset⟩
              exact ⟨fun hboth => hnot hboth.2, hset, hnot⟩
      · -- A letter that is taken away cannot bring two together.
        have hsub : (lkm.modes.erase c.md).Sublist lkm.modes := List.erase_sublist
        rw [if_neg hplus]
        refine iff_of_true ⟨?_, fun h => absurd h hplus⟩ (fun h => absurd h hplus)
        exact fun hboth => h.apart ⟨hsub.subset hboth.1, hsub.subset hboth.2⟩

theorem Apart.step (h : Apart g lkm) (hs : g.Flag 115) (hp : g.Flag 112) {i : ModeStep}
    (hi : i.ReadBy g) (hclash : NoClash lkm i) : Apart g (i.apply lkm) := by
  have hexclusive := (h.exclusive_iff hs hp hi).2 hclash
  refine ⟨(grammar_apply lkm i).trans h.grammar, ?_, ?_, hexclusive.1⟩
  · cases i with
    | order =>
        show (ordermodes lkm).modes.Nodup
        rw [ordermodes_modes lkm h.nodup]
        apply List.Nodup.sublist (List.take_sublist _ _)
        split
        · exact (nodup_orderedList (by decide) h.nodup).sublist (List.take_sublist _ _)
        · exact List.Nodup.filter _ (by decide)
    | change c =>
        have hletters : lkm.prefixmodes = g.prefixmodes := congrArg ModeGrammar.prefixmodes h.grammar
        have hmodes := modes_applyChange h.fits (hletters ▸ hi.2.2)
        show (applyChange lkm c).1.modes.Nodup
        rw [hmodes]
        repeat' split
        · exact h.nodup
        · exact nodup_addLetter (nodup_beside h.nodup c)
        · exact h.nodup.erase _
  · cases i with
    | order =>
        show (clip 20 _).length ≤ 20
        rw [length_clip]
        omega
    | change c =>
        have hletters : lkm.prefixmodes = g.prefixmodes := congrArg ModeGrammar.prefixmodes h.grammar
        have hmodes := modes_applyChange h.fits (hletters ▸ hi.2.2)
        show (applyChange lkm c).1.modes.length ≤ 20
        rw [hmodes]
        repeat' split
        · exact h.fits
        · exact length_addLetter_le ((length_beside_le c lkm.modes).trans h.fits)
        · exact List.erase_sublist.length_le.trans h.fits

end Secret

/-- Where `CHANMODES` has `s` and `p` among the flags, they exclude each other along a sequence of
calls exactly when none of them is set while the other one is. -/
theorem secret_private_exclude_iff (lkm : Uchannelt) (hs : lkm.grammar.Flag 115)
    (hp : lkm.grammar.Flag 112) (hnodup : lkm.modes.Nodup) (hfits : lkm.modes.length < 20)
    (hapart : ¬ (115 ∈ lkm.modes ∧ 112 ∈ lkm.modes)) (calls : List (CStr × CStr)) :
    StepsMeet ModeStep.step Exclusive lkm (callsSteps lkm.grammar calls) ↔
      StepsMeet ModeStep.step NoClash lkm (callsSteps lkm.grammar calls) := by
  have hstart : Apart lkm.grammar lkm := ⟨rfl, hnodup, le_of_lt hfits, hapart⟩
  apply stepsMeet_iff_of_inputs (Apart lkm.grammar) _ _ readBy_of_mem_callsSteps hstart
  · intro lkm' i h hi
    exact h.exclusive_iff hs hp hi
  · intro lkm' i t h hi hclash ht
    cases ht
    exact h.step hs hp hi hclash

/-- A channel after the standard announcement. -/
def plainChannel : Uchannelt :=
  newchannel 1 (ascii "ov") (ascii "@+") (ascii "beI,k,l,imnpst") (ascii "#a")

theorem plainChannel_flag {md : Byte} (h : md = 115 ∨ md = 112) : plainChannel.grammar.Flag md := by
  have hclass : ∀ md : Byte, md = 115 ∨ md = 112 →
      md ∈ plainChannel.grammar.chanmodes ∧ md ∉ plainChannel.grammar.prefixmodes ∧
        plainChannel.grammar.class? md = some 3 := by
    rintro md (rfl | rfl)
    · decide
    · decide
  rcases hclass md h with ⟨hmem, huser, hthree⟩
  refine ⟨hmem, fun sign => ?_⟩
  rw [ModeGrammar.takes, hthree]
  simp [huser]

theorem secret_private_exclude_flags :
    StepsMeet ModeStep.step Exclusive plainChannel
      (callsSteps plainChannel.grammar [(ascii "+s", []), (ascii "-s+p", []), (ascii "-p", [])]) := by
  apply (secret_private_exclude_iff plainChannel (plainChannel_flag (Or.inl rfl))
    (plainChannel_flag (Or.inr rfl)) (by decide) (by decide) (by decide) _).2
  decide

/-- `+s` and then `+p`. -/
theorem secret_and_private :
    ¬ StepsMeet ModeStep.step Exclusive plainChannel
      (callsSteps plainChannel.grammar [(ascii "+s", []), (ascii "+p", [])]) := by
  decide

end PsyBnc
