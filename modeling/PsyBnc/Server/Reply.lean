import PsyBnc.Intnet.Interpret
import PsyBnc.Server.Model
import PsyBnc.UChannel.ModeString
import Mathlib.Data.List.Perm.Basic

/-!
# The modes in a 324 reply

`setchannelmode` reads the reply, `addchannelmode` a mode change with the same letters and
parameters.  The first gives a parameter to `l` and to `k`, the second to each letter for which one
is announced, so the word that falls to a letter depends on which letters before it take one.
-/

namespace PsyBnc

open CLib

/-! ## The words for the letters -/

/-- The word that falls to `md` when the letters in `takes` take a word each. -/
def wordFor (takes : Byte → Bool) (md : Byte) : CStr → List CStr → Option CStr
  | [], _ => none
  | m :: mode, ws =>
      if m = md then if takes m then ws.head? else none
      else wordFor takes md mode (if takes m then ws.tail else ws)

/-- The letters that have a parameter for `setchannelmode`. -/
def replyTakes (md : Byte) : Bool := decide (md = 108 ∨ md = 107)

/-- The letters that have one for `addchannelmode`, when they are set. -/
def changeTakes (g : ModeGrammar) (md : Byte) : Bool := codeTakes g md PLUS

/-- The words of a text of parameters; an empty text counts as one word. -/
def textWords (ws : List CStr) : List CStr := if ws = [] then [[]] else ws

/-- Words that both readers find in a text: only the first one may be empty. -/
def Readable (ws : List CStr) : Prop := (∀ w ∈ ws, SP ∉ w) ∧ ∀ w ∈ ws.tail, w ≠ []

theorem wordFor_nil (takes : Byte → Bool) (md : Byte) (mode : CStr) :
    wordFor takes md mode [] = none := by
  induction mode with
  | nil =>
      rfl
  | cons m mode ih =>
      rw [wordFor]
      split
      · split
        · rfl
        · rfl
      · rw [List.tail_nil, ite_self, ih]

theorem wordFor_notMem {takes : Byte → Bool} {md : Byte} {mode : CStr} (h : md ∉ mode) :
    ∀ ws, wordFor takes md mode ws = none := by
  induction mode with
  | nil =>
      intro ws
      rfl
  | cons m mode ih =>
      intro ws
      have hne : m ≠ md := fun heq => h (by simp [heq])
      rw [wordFor, if_neg hne]
      exact ih (fun hmem => h (List.mem_cons_of_mem _ hmem)) _

section Words

variable {w : CStr} {ws : List CStr}

theorem Readable.tail (h : Readable (w :: ws)) : Readable ws :=
  ⟨fun v hv => h.1 v (List.mem_cons_of_mem _ hv), fun v hv => h.2 v (List.mem_of_mem_tail hv)⟩

theorem Readable.spaced_tail (h : Readable (w :: ws)) (hne : ws ≠ []) : spaced ws ≠ [] :=
  spaced_ne_nil (fun v hv => ⟨h.2 v hv, h.1 v (List.mem_cons_of_mem _ hv)⟩) hne

theorem readable_textWords (hws : ∀ v ∈ ws, Param v) : Readable (textWords ws) := by
  unfold textWords
  split
  · exact ⟨by simp, by simp⟩
  · exact ⟨fun v hv => (hws v hv).2, fun v hv => (hws v (List.mem_of_mem_tail hv)).1⟩

theorem spacedPtr_textWords (ws : List CStr) : spacedPtr (textWords ws) = some (spaced ws) := by
  unfold textWords spacedPtr
  split
  · next h =>
    rw [h]
    rfl
  · rfl

theorem cutAt_spaced (h : Readable (w :: ws)) :
    cutAt SP (spaced (w :: ws)) = if ws = [] then none else some (w, spaced ws) := by
  have hw := h.1 w List.mem_cons_self
  cases ws with
  | nil =>
      simpa [spaced] using cutAt_eq_none.2 hw
  | cons v ws =>
      rw [spaced_cons (by simp), cutAt_append hw, if_neg (by simp)]

theorem nextParam_readable (h : Readable (w :: ws)) :
    nextParam (spaced (w :: ws)) = (w, spacedPtr ws) := by
  rw [nextParam, cutAt_spaced h]
  by_cases hws : ws = []
  · simp [hws, spaced, spacedPtr]
  · simp [hws, spacedPtr, h.spaced_tail hws]

theorem nextWord_readable (h : Readable (w :: ws)) :
    nextWord (spaced (w :: ws)) = (w, spacedPtr ws) := by
  rw [nextWord, cutAt_spaced h]
  by_cases hws : ws = []
  · simp [hws, spaced, spacedPtr]
  · simp [hws, spacedPtr]

end Words

/-! ## `setchannelmode` -/

/-- What is written for a key that was found. -/
def keyWrites (usern : Int) (word : Option CStr) : List KeyWrite :=
  match word with
  | none => []
  | some w => if 0 < usern then [some (cryptit buildSalt (clip 64 w))] else []

/-- A channel with the limit and the key from two words. -/
def withWords (lkm : Uchannelt) (limit key : Option CStr) : Uchannelt :=
  { lkm with
    limit := (limit.map atoi).getD lkm.limit
    key := (key.map (clip 64)).getD lkm.key }

theorem setmodeLoop_words {mode : CStr} (hmode : mode.Nodup) :
    ∀ {ws : List CStr} (lkm : Uchannelt), Readable ws →
      setmodeLoop mode (spacedPtr ws) lkm =
        (withWords lkm (wordFor replyTakes 108 mode ws) (wordFor replyTakes 107 mode ws),
          keyWrites lkm.usern (wordFor replyTakes 107 mode ws)) := by
  induction mode with
  | nil =>
      intro ws lkm _
      rfl
  | cons md mode ih =>
      intro ws lkm hws
      rw [List.nodup_cons] at hmode
      cases ws with
      | nil =>
          -- no parameter is left: nothing more is found
          have hskip : setmodeLoop (md :: mode) none lkm = setmodeLoop mode none lkm := by
            simp [setmodeLoop]
          have hrest := ih hmode.2 lkm hws
          simp only [spacedPtr, if_true, wordFor_nil] at hrest ⊢
          rw [hskip, hrest]
      | cons w ws =>
          have hword := nextWord_readable hws
          have hptr : spacedPtr (w :: ws) = some (spaced (w :: ws)) := if_neg (by simp)
          by_cases hlimit : md = 108
          · subst hlimit
            simp only [setmodeLoop, hptr, if_true, hword, ih hmode.2 _ hws.tail, wordFor, replyTakes]
            simp [withWords, wordFor_notMem hmode.1]
          by_cases hkey : md = 107
          · subst hkey
            simp only [setmodeLoop, hptr, hword, ih hmode.2 _ hws.tail, wordFor, replyTakes]
            simp [withWords, keyWrites, wordFor_notMem hmode.1]
          · simp only [setmodeLoop, hlimit, hkey, if_false, ih hmode.2 lkm hws]
            simp [wordFor, replyTakes, hlimit, hkey]

/-! ## `addchannelmode` -/

/-- The letters with their words, up to the first one for which a word is missing. -/
def pairUp (takes : Byte → Bool) : CStr → List CStr → List Change
  | [], _ => []
  | md :: mode, ws =>
      if takes md then
        match ws with
        | [] => []
        | w :: ws => ⟨PLUS, md, some w⟩ :: pairUp takes mode ws
      else ⟨PLUS, md, none⟩ :: pairUp takes mode ws

section PairUp

variable {takes : Byte → Bool} {md : Byte} {mode : CStr}

theorem pairUp_noWord (ws : List CStr) (htakes : takes md = false) :
    pairUp takes (md :: mode) ws = ⟨PLUS, md, none⟩ :: pairUp takes mode ws := by
  simp [pairUp, htakes]

theorem pairUp_word (w : CStr) (ws : List CStr) (htakes : takes md = true) :
    pairUp takes (md :: mode) (w :: ws) = ⟨PLUS, md, some w⟩ :: pairUp takes mode ws := by
  simp [pairUp, htakes]

theorem pairUp_missing (htakes : takes md = true) : pairUp takes (md :: mode) [] = [] := by
  simp [pairUp, htakes]

end PairUp

/-- The letters of a reply: each is announced, and none is a sign or a prefix mode. -/
def ReplyLetters (g : ModeGrammar) (mode : CStr) : Prop :=
  ∀ md ∈ mode, md ∈ g.chanmodes ∧ md ∉ g.prefixmodes ∧ md ≠ PLUS ∧ md ≠ MINUS

theorem readChanges_pairUp {g : ModeGrammar} {mode : CStr} (hmode : ReplyLetters g mode) :
    ∀ {ws : List CStr}, Readable ws →
      readChanges g (codeTakes g) mode PLUS (spacedPtr ws) = pairUp (changeTakes g) mode ws := by
  induction mode with
  | nil =>
      intro ws _
      rfl
  | cons md mode ih =>
      intro ws hws
      rcases hmode md List.mem_cons_self with ⟨hknown, _, hplus, hminus⟩
      have hrest : ReplyLetters g mode := fun m hm => hmode m (List.mem_cons_of_mem _ hm)
      have hread : ∀ par, readChanges g (codeTakes g) (md :: mode) PLUS par =
          if changeTakes g md then
            match par with
            | none => []
            | some par => ⟨PLUS, md, some (nextParam par).1⟩ ::
                readChanges g (codeTakes g) mode PLUS (nextParam par).2
          else ⟨PLUS, md, none⟩ :: readChanges g (codeTakes g) mode PLUS par := by
        intro par
        rw [readChanges.eq_def]
        simp only [changeTakes]
        rw [if_neg (by simp [hplus, hminus]), if_pos (Or.inr hknown)]
        cases par with
        | none =>
            rfl
        | some par =>
            rfl
      rw [hread]
      cases htakes : changeTakes g md with
      | false =>
          simp only [Bool.false_eq_true, if_false, pairUp, htakes, ih hrest hws]
      | true =>
          cases ws with
          | nil =>
              simp [pairUp, htakes, spacedPtr]
          | cons w ws =>
              have hptr : spacedPtr (w :: ws) = some (spaced (w :: ws)) := if_neg (by simp)
              simp only [if_true, hptr, nextParam_readable hws, ih hrest hws.tail, pairUp, htakes]

/-- How the modes of a channel grow by one letter that is set. -/
def plusStep (takes : Byte → Bool) (modes : CStr) (md : Byte) : CStr :=
  let kept :=
    if takes md = true ∧ md = 115 then removeLetter modes 112
    else if takes md = true ∧ md = 112 then removeLetter modes 115
    else modes
  addLetter kept md

/-- A letter that is set with a word. -/
theorem applyChange_word {takes : Byte → Bool} {lkm : Uchannelt} {md : Byte} (w : CStr)
    (hmd : md ∉ lkm.prefixmodes) (htakes : takes md = true) :
    (applyChange lkm ⟨PLUS, md, some w⟩).1.settings =
        ⟨plusStep takes lkm.modes md, if md = 108 then atoi w else lkm.limit,
          if md = 107 then clip 64 w else lkm.key⟩ ∧
      (applyChange lkm ⟨PLUS, md, some w⟩).2 =
        if md = 107 then keyWrites lkm.usern (some w) else [] := by
  simp only [applyChange, hmd, if_false, settings_setMode, if_true, plusStep, htakes, true_and]
  by_cases hlimit : md = 108
  · subst hlimit
    simp [paramMode, Uchannelt.settings]
  by_cases hkey : md = 107
  · subst hkey
    simp [paramMode, Uchannelt.settings, keyWrites]
  by_cases hs : md = 115
  · subst hs
    have hdel := settings_deletemodefromchannel lkm 112
    simp only [Uchannelt.settings, Settings.mk.injEq] at hdel
    simp [paramMode, Uchannelt.settings, hdel]
  by_cases hp : md = 112
  · subst hp
    have hdel := settings_deletemodefromchannel lkm 115
    simp only [Uchannelt.settings, Settings.mk.injEq] at hdel
    simp [paramMode, Uchannelt.settings, hdel]
  · simp [paramMode, Uchannelt.settings, hlimit, hkey, hs, hp]

/-- A letter that is set without a word. -/
theorem applyChange_noWord {takes : Byte → Bool} (lkm : Uchannelt) {md : Byte}
    (htakes : takes md = false) :
    (applyChange lkm ⟨PLUS, md, none⟩).1.settings =
        ⟨plusStep takes lkm.modes md, if md = 108 then 0 else lkm.limit, lkm.key⟩ ∧
      (applyChange lkm ⟨PLUS, md, none⟩).2 = [] := by
  have hset := settings_setMode lkm md PLUS
  simp only [if_true, Uchannelt.settings, Settings.mk.injEq] at hset
  by_cases hlimit : md = 108
  · simp [applyChange, plusStep, hlimit, Uchannelt.settings]
    simp [hlimit] at hset
    exact ⟨hset.1, hset.2.2⟩
  · simp [applyChange, plusStep, htakes, hlimit, Uchannelt.settings, hset]

/-- The channel after the letters of a reply were set. -/
theorem applyChanges_pairUp (takes : Byte → Bool) {mode : CStr} (hmode : mode.Nodup) :
    ∀ (ws : List CStr) {lkm : Uchannelt}, (∀ md ∈ mode, md ∉ lkm.prefixmodes) →
      (lkm.limit = 0 ∨ 108 ∉ mode) →
      (applyChanges lkm (pairUp takes mode ws)).1.settings =
          ⟨((pairUp takes mode ws).map Change.md).foldl (plusStep takes) lkm.modes,
            ((wordFor takes 108 mode ws).map atoi).getD lkm.limit,
            ((wordFor takes 107 mode ws).map (clip 64)).getD lkm.key⟩ ∧
        (applyChanges lkm (pairUp takes mode ws)).2 =
          keyWrites lkm.usern (wordFor takes 107 mode ws) := by
  induction mode with
  | nil =>
      intro ws lkm _ _
      exact ⟨rfl, rfl⟩
  | cons md mode ih =>
      intro ws lkm hnone hlimit
      rw [List.nodup_cons] at hmode
      have hmd : md ∉ lkm.prefixmodes := hnone md List.mem_cons_self
      -- the prefix modes and the user of the channel stay the same
      have hframe : ∀ c, (∀ m ∈ mode, m ∉ (applyChange lkm c).1.prefixmodes) ∧
          (applyChange lkm c).1.usern = lkm.usern := by
        intro c
        have hletters := congrArg Uchannelt.prefixmodes (frame_applyChange lkm c)
        have husern := congrArg Uchannelt.usern (frame_applyChange lkm c)
        simp only [Uchannelt.frame] at hletters husern
        rw [hletters]
        exact ⟨fun m hm => hnone m (List.mem_cons_of_mem _ hm), husern⟩
      cases htakes : takes md with
      | false =>
          -- The letter takes no word: the rest of the reply starts from the limit it leaves.
          rcases applyChange_noWord lkm htakes with ⟨hset, hwrites⟩
          have hparts := hset
          simp only [Uchannelt.settings, Settings.mk.injEq] at hparts
          rcases hparts with ⟨hmodes, hlim, hkey⟩
          have hlimit' : (applyChange lkm ⟨PLUS, md, none⟩).1.limit = 0 ∨ 108 ∉ mode := by
            rw [hlim]
            split
            · exact Or.inl rfl
            · exact hlimit.imp_right fun h hm => h (List.mem_cons_of_mem _ hm)
          rcases ih hmode.2 ws (hframe ⟨PLUS, md, none⟩).1 hlimit' with ⟨hrest, hwrites'⟩
          have hl : ((wordFor takes 108 mode ws).map atoi).getD (if md = 108 then 0 else lkm.limit) =
              ((wordFor takes 108 (md :: mode) ws).map atoi).getD lkm.limit := by
            -- An `l` without a word sets the limit to zero, where it is already.
            by_cases h108 : md = 108
            · subst h108
              have hzero : lkm.limit = 0 := hlimit.resolve_right fun h => h List.mem_cons_self
              simp [wordFor, htakes, wordFor_notMem hmode.1, hzero]
            · simp [wordFor, htakes, h108]
          have hk : wordFor takes 107 (md :: mode) ws = wordFor takes 107 mode ws := by
            by_cases h107 : md = 107
            · subst h107
              simp [wordFor, htakes, wordFor_notMem hmode.1]
            · simp [wordFor, htakes, h107]
          rw [pairUp_noWord ws htakes, applyChanges, hk]
          simp only [hrest, hwrites, hwrites', (hframe _).2, List.nil_append, List.map_cons,
            List.foldl_cons, hmodes, hlim, hkey, hl, and_self]
      | true =>
          cases ws with
          | nil =>
              -- The words have run out: this letter and the ones behind it change nothing.
              simp [pairUp, htakes, applyChanges, wordFor_nil, Uchannelt.settings, keyWrites]
          | cons w ws =>
              -- The letter takes the next word, which is the limit or the key when it is `l` or `k`.
              rcases applyChange_word w hmd htakes with ⟨hset, hwrites⟩
              have hparts := hset
              simp only [Uchannelt.settings, Settings.mk.injEq] at hparts
              rcases hparts with ⟨hmodes, hlim, hkey⟩
              have hlimit' : (applyChange lkm ⟨PLUS, md, some w⟩).1.limit = 0 ∨ 108 ∉ mode := by
                by_cases h108 : md = 108
                · exact Or.inr (h108 ▸ hmode.1)
                · rw [hlim, if_neg h108]
                  exact hlimit.imp_right fun h hm => h (List.mem_cons_of_mem _ hm)
              rcases ih hmode.2 ws (hframe ⟨PLUS, md, some w⟩).1 hlimit' with
                ⟨hrest, hwrites'⟩
              have hl : ((wordFor takes 108 mode ws).map atoi).getD
                    (if md = 108 then atoi w else lkm.limit) =
                  ((wordFor takes 108 (md :: mode) (w :: ws)).map atoi).getD lkm.limit := by
                by_cases h108 : md = 108
                · subst h108
                  simp [wordFor, htakes, wordFor_notMem hmode.1]
                · simp [wordFor, htakes, h108]
              have hk : ((wordFor takes 107 mode ws).map (clip 64)).getD
                    (if md = 107 then clip 64 w else lkm.key) =
                  ((wordFor takes 107 (md :: mode) (w :: ws)).map (clip 64)).getD lkm.key := by
                by_cases h107 : md = 107
                · subst h107
                  simp [wordFor, htakes, wordFor_notMem hmode.1]
                · simp [wordFor, htakes, h107]
              -- The key is written once, as `k` does not come again.
              have hw : (if md = 107 then keyWrites lkm.usern (some w) else []) ++
                    keyWrites lkm.usern (wordFor takes 107 mode ws) =
                  keyWrites lkm.usern (wordFor takes 107 (md :: mode) (w :: ws)) := by
                by_cases h107 : md = 107
                · subst h107
                  simp [wordFor, htakes, wordFor_notMem hmode.1, keyWrites]
                · simp [wordFor, htakes, h107]
              rw [pairUp_word w ws htakes, applyChanges]
              simp only [hrest, hwrites, hwrites', (hframe _).2, List.map_cons, List.foldl_cons,
                hmodes, hlim, hkey, hl, hk, hw, and_self]

/-! ## The modes -/

section Modes

variable {takes : Byte → Bool}

theorem mem_plusStep {modes : CStr} {md x : Byte} (hlen : modes.length < 20)
    (hx : x ∈ plusStep takes modes md) : x ∈ modes ∨ x = md := by
  have hkept : ∀ kept : CStr, (∀ y ∈ kept, y ∈ modes) → x ∈ addLetter kept md → x ∈ modes ∨ x = md := by
    intro kept hsub hmem
    unfold addLetter at hmem
    split at hmem
    · rcases List.mem_append.1 hmem with h | h
      · exact Or.inl (hsub x h)
      · exact Or.inr (List.mem_singleton.1 h)
    · exact Or.inl (hsub x hmem)
  unfold plusStep at hx
  simp only [removeLetter_eq_erase (le_of_lt hlen)] at hx
  apply hkept _ _ hx
  intro y hy
  split at hy
  · exact List.mem_of_mem_erase hy
  · split at hy
    · exact List.mem_of_mem_erase hy
    · exact hy

theorem length_plusStep {modes : CStr} (hlen : modes.length < 20) (md : Byte) :
    (plusStep takes modes md).length ≤ modes.length + 1 := by
  have hkept : ∀ kept : CStr, kept.length ≤ modes.length →
      (addLetter kept md).length ≤ modes.length + 1 := by
    intro kept hle
    unfold addLetter
    split
    · simpa using hle
    · omega
  unfold plusStep
  simp only [removeLetter_eq_erase (le_of_lt hlen)]
  apply hkept
  split
  · exact List.length_erase_le
  · split
    · exact List.length_erase_le
    · exact Nat.le_refl _

theorem nodup_plusStep {modes : CStr} (hlen : modes.length < 20) (hnodup : modes.Nodup) (md : Byte) :
    (plusStep takes modes md).Nodup := by
  have hkept : ∀ kept : CStr, kept.Nodup → (addLetter kept md).Nodup := by
    intro kept hn
    unfold addLetter
    split
    · next h =>
      rw [List.nodup_append]
      refine ⟨hn, by simp, ?_⟩
      rintro a ha b hb rfl
      exact h.2 (List.mem_singleton.1 hb ▸ ha)
    · exact hn
  unfold plusStep
  simp only [removeLetter_eq_erase (le_of_lt hlen)]
  apply hkept
  split
  · exact hnodup.erase _
  · split
    · exact hnodup.erase _
    · exact hnodup

variable (takes) in
/-- The modes grow within bounds, and only by the letters that are set. -/
theorem foldl_plusStep {letters : CStr} :
    ∀ {modes : CStr}, modes.length + letters.length < 20 → modes.Nodup →
      (letters.foldl (plusStep takes) modes).length ≤ modes.length + letters.length ∧
        (letters.foldl (plusStep takes) modes).Nodup ∧
        ∀ x ∈ letters.foldl (plusStep takes) modes, x ∈ modes ∨ x ∈ letters := by
  induction letters with
  | nil =>
      intro modes _ hnodup
      exact ⟨Nat.le_refl _, hnodup, fun x hx => Or.inl hx⟩
  | cons md letters ih =>
      intro modes hlen hnodup
      rw [List.length_cons] at hlen
      have hshort : modes.length < 20 := by omega
      have hstep : (plusStep takes modes md).length ≤ modes.length + 1 := length_plusStep hshort md
      have hn : (plusStep takes modes md).Nodup := nodup_plusStep hshort hnodup md
      rcases ih (by omega) hn with ⟨hle, hn, hmem⟩
      rw [List.foldl_cons, List.length_cons]
      refine ⟨by omega, hn, fun x hx => ?_⟩
      rcases hmem x hx with h | h
      · rcases mem_plusStep hshort h with h | rfl
        · exact Or.inl h
        · exact Or.inr List.mem_cons_self
      · exact Or.inr (List.mem_cons_of_mem _ h)

/-- `s` and `p` meet: the later one takes a word and removes the other. -/
def Clash (takes : Byte → Bool) (mode : CStr) : Prop :=
  (takes 115 = true ∧ [112, 115].Sublist mode) ∨ (takes 112 = true ∧ [115, 112].Sublist mode)

instance (takes : Byte → Bool) (mode : CStr) : Decidable (Clash takes mode) :=
  inferInstanceAs (Decidable (_ ∨ _))

theorem foldl_plusStep_noClash {letters : CStr} :
    ∀ {modes : CStr}, (modes ++ letters).length < 20 → (modes ++ letters).Nodup →
      ¬ Clash takes (modes ++ letters) →
      letters.foldl (plusStep takes) modes = modes ++ letters := by
  induction letters with
  | nil =>
      intro modes _ _ _
      simp
  | cons md letters ih =>
      intro modes hlen hnodup hclash
      have hlen' : modes.length < 20 := by
        rw [List.length_append] at hlen
        omega
      have hnew : md ∉ modes := by
        intro hmem
        exact (List.nodup_append.1 hnodup).2.2 md hmem md List.mem_cons_self rfl
      have hpair : ∀ x, x ∈ modes → [x, md].Sublist (modes ++ md :: letters) := by
        intro x hx
        exact (List.singleton_sublist.2 hx).append (List.singleton_sublist.2 List.mem_cons_self)
      -- there is nothing to remove
      have hstep : plusStep takes modes md = modes ++ [md] := by
        have hkept : ∀ kept, kept = modes → addLetter kept md = modes ++ [md] := by
          rintro kept rfl
          rw [addLetter, if_pos ⟨hlen', hnew⟩]
        unfold plusStep
        simp only [removeLetter_eq_erase (le_of_lt hlen')]
        apply hkept
        split
        · next h =>
          apply List.erase_of_not_mem
          intro hmem
          exact hclash (Or.inl ⟨h.2 ▸ h.1, h.2 ▸ hpair 112 hmem⟩)
        · split
          · next h =>
            apply List.erase_of_not_mem
            intro hmem
            exact hclash (Or.inr ⟨h.2 ▸ h.1, h.2 ▸ hpair 115 hmem⟩)
          · rfl
      have happend : modes ++ md :: letters = (modes ++ [md]) ++ letters := by simp
      rw [happend] at hlen hnodup hclash ⊢
      rw [List.foldl_cons, hstep]
      exact ih hlen hnodup hclash

/-- A letter that stands before another one does not stand behind it. -/
theorem notMem_of_sublist_pair {x y : Byte} {front back : CStr}
    (hnodup : (front ++ y :: back).Nodup) (hsub : [x, y].Sublist (front ++ y :: back)) :
    x ≠ y ∧ x ∉ back := by
  have hxy : x ≠ y := by
    have hpair := hnodup.sublist hsub
    simpa using hpair
  rw [List.nodup_append, List.nodup_cons] at hnodup
  rcases hnodup with ⟨_, ⟨hy, _⟩, hapart⟩
  refine ⟨hxy, fun hback => ?_⟩
  rcases List.sublist_append_iff.1 hsub with ⟨one, two, heq, hone, htwo⟩
  cases one with
  | nil =>
      rw [List.nil_append] at heq
      subst heq
      rcases List.cons_sublist_cons'.1 htwo with h | ⟨h, _⟩
      · exact hy (h.subset (by simp))
      · exact hxy h
  | cons a one =>
      rw [List.cons_append, List.cons.injEq] at heq
      have hmem : x ∈ front := hone.subset (by simp [heq.1])
      exact hapart x hmem x (List.mem_cons_of_mem _ hback) rfl

/-- A letter that is removed by a later one is missing. -/
theorem notMem_foldl_plusStep {x y : Byte} {letters : CStr}
    (hstep : ∀ modes, plusStep takes modes y = addLetter (removeLetter modes x) y)
    (hlen : letters.length < 20) (hnodup : letters.Nodup) (hsub : [x, y].Sublist letters) :
    x ∉ letters.foldl (plusStep takes) [] := by
  have hy : y ∈ letters := hsub.subset (by simp)
  rcases List.append_of_mem hy with ⟨front, back, rfl⟩
  rcases notMem_of_sublist_pair hnodup hsub with ⟨hxy, hback⟩
  rw [List.length_append, List.length_cons] at hlen
  have hfront : ([] : CStr).length + front.length < 20 := by
    rw [List.length_nil]
    omega
  have hbefore := foldl_plusStep takes hfront List.nodup_nil
  rw [List.foldl_append, List.foldl_cons]
  generalize front.foldl (plusStep takes) [] = modes at hbefore ⊢
  rcases hbefore with ⟨hle, hn, _⟩
  rw [List.length_nil, Nat.zero_add] at hle
  have hshort : modes.length < 20 := by omega
  have hgone : x ∉ plusStep takes modes y := by
    rw [hstep, removeLetter_eq_erase (le_of_lt hshort), addLetter]
    split
    · simp [hxy, hn.mem_erase_iff]
    · simp [hn.mem_erase_iff]
  have hlength : (plusStep takes modes y).length ≤ modes.length + 1 := length_plusStep hshort y
  have hroom : (plusStep takes modes y).length + back.length < 20 := by omega
  have hafter := foldl_plusStep takes hroom (nodup_plusStep hshort hn y)
  intro hmem
  rcases hafter.2.2 x hmem with h | h
  · exact hgone h
  · exact hback h

/-- The modes are the letters of the reply exactly if no two of them clash. -/
theorem foldl_plusStep_eq_iff {letters : CStr} (hlen : letters.length < 20) (hnodup : letters.Nodup) :
    (∀ x, x ∈ letters.foldl (plusStep takes) [] ↔ x ∈ letters) ↔ ¬ Clash takes letters := by
  constructor
  · rintro hsame (⟨htakes, hsub⟩ | ⟨htakes, hsub⟩)
    · have hstep : ∀ modes, plusStep takes modes 115 = addLetter (removeLetter modes 112) 115 := by
        intro modes
        simp [plusStep, htakes]
      have hgone := notMem_foldl_plusStep hstep hlen hnodup hsub
      exact hgone ((hsame 112).2 (hsub.subset (by simp)))
    · have hstep : ∀ modes, plusStep takes modes 112 = addLetter (removeLetter modes 115) 112 := by
        intro modes
        simp [plusStep, htakes]
      have hgone := notMem_foldl_plusStep hstep hlen hnodup hsub
      exact hgone ((hsame 115).2 (hsub.subset (by simp)))
  · intro hclash x
    have heq : letters.foldl (plusStep takes) [] = [] ++ letters :=
      foldl_plusStep_noClash hlen hnodup hclash
    rw [heq, List.nil_append]

/-- The letters that are set stand at the start of the reply. -/
theorem pairUp_start {mode : CStr} :
    ∀ ws : List CStr, (pairUp takes mode ws).map Change.md <+: mode := by
  induction mode with
  | nil =>
      intro ws
      exact List.prefix_refl _
  | cons md mode ih =>
      intro ws
      cases htakes : takes md with
      | false =>
          rw [pairUp_noWord ws htakes]
          simpa using ih ws
      | true =>
          cases ws with
          | nil =>
              rw [pairUp_missing htakes]
              exact List.nil_prefix
          | cons w ws =>
              rw [pairUp_word w ws htakes]
              simpa using ih ws

/-- All letters are reached exactly if there are words enough. -/
theorem pairUp_all_iff {mode : CStr} :
    ∀ {ws : List CStr}, (pairUp takes mode ws).map Change.md = mode ↔
      mode.countP takes ≤ ws.length := by
  induction mode with
  | nil =>
      intro ws
      simp [pairUp]
  | cons md mode ih =>
      intro ws
      rw [List.countP_cons]
      cases htakes : takes md with
      | false =>
          rw [pairUp_noWord ws htakes]
          simpa using ih
      | true =>
          cases ws with
          | nil =>
              rw [pairUp_missing htakes]
              simp
          | cons w ws =>
              rw [pairUp_word w ws htakes]
              simpa using ih

variable (takes) in
/-- The modes that `addchannelmode` gives are those of the reply exactly if no word is missing and
no two letters clash. -/
theorem modes_pairUp_iff {mode : CStr} (ws : List CStr) (hlen : mode.length < 20)
    (hnodup : mode.Nodup) :
    (∀ x, x ∈ mode ↔ x ∈ ((pairUp takes mode ws).map Change.md).foldl (plusStep takes) []) ↔
      mode.countP takes ≤ ws.length ∧ ¬ Clash takes mode := by
  constructor
  · intro hsame
    have hall : (pairUp takes mode ws).map Change.md = mode := by
      have hstart : (pairUp takes mode ws).map Change.md <+: mode := pairUp_start ws
      generalize (pairUp takes mode ws).map Change.md = letters at hstart hsame ⊢
      have hshort : ([] : CStr).length + letters.length < 20 := by
        have hle := hstart.length_le
        rw [List.length_nil]
        omega
      have hmem := (foldl_plusStep takes hshort List.nodup_nil).2.2
      -- a letter that is not reached would be missing
      have hsub : ∀ x ∈ mode, x ∈ letters := by
        intro x hx
        exact (hmem x ((hsame x).1 hx)).resolve_left List.not_mem_nil
      exact hstart.eq_of_length_le (hnodup.subperm hsub).length_le
    rw [hall] at hsame
    exact ⟨pairUp_all_iff.1 hall, (foldl_plusStep_eq_iff hlen hnodup).1 fun x => (hsame x).symm⟩
  · rintro ⟨hcount, hclash⟩ x
    rw [pairUp_all_iff.2 hcount]
    exact ((foldl_plusStep_eq_iff hlen hnodup).2 hclash x).symm

end Modes

theorem ordermode_perm {modes : CStr × CStr} {known : Byte} (hknown : known ≠ SP)
    (hlen : modes.1.length < 29) :
    ((ordermode modes known).1 ++ (ordermode modes known).2.filter (· ≠ SP)).Perm
      (modes.1 ++ modes.2.filter (· ≠ SP)) := by
  rcases modes with ⟨one, two⟩
  rcases cut_cases known two with ⟨_, hcut⟩ | ⟨u, v, rfl, _, hcut⟩
  · simp only [ordermode, hcut]
    exact List.Perm.refl _
  · simp only [ordermode, hcut, hlen, if_true]
    have hfilter : (u ++ SP :: v).filter (· ≠ SP) = u.filter (· ≠ SP) ++ v.filter (· ≠ SP) := by
      simp
    have hfilter' : (u ++ known :: v).filter (· ≠ SP) =
        u.filter (· ≠ SP) ++ known :: v.filter (· ≠ SP) := by
      simp [hknown]
    rw [hfilter, hfilter', List.append_assoc]
    apply List.Perm.append_left
    rw [List.singleton_append]
    exact List.perm_middle.symm

theorem ordermode_fold_perm {known : CStr} (hknown : SP ∉ known) :
    ∀ modes : CStr × CStr, (modes.1 ++ modes.2.filter (· ≠ SP)).length < 29 →
      ((known.foldl ordermode modes).1 ++ (known.foldl ordermode modes).2.filter (· ≠ SP)).Perm
        (modes.1 ++ modes.2.filter (· ≠ SP)) := by
  induction known with
  | nil =>
      intro modes _
      exact List.Perm.refl _
  | cons md known ih =>
      intro modes hlen
      have hmd : md ≠ SP := fun h => hknown (by simp [h])
      have hone : modes.1.length < 29 := by
        rw [List.length_append] at hlen
        omega
      have hstep := ordermode_perm hmd hone
      rw [List.foldl_cons]
      apply List.Perm.trans _ hstep
      apply ih (fun h => hknown (List.mem_cons_of_mem _ h)) (ordermode modes md)
      rwa [hstep.length_eq]

/-- `ordermodes` keeps the modes of a user's channel. -/
theorem ordermodes_perm {channel : Uchannelt} (huser : channel.usern ≠ -1)
    (hlen : channel.modes.length < 20) (hblank : SP ∉ channel.modes) :
    (ordermodes channel).modes.Perm channel.modes := by
  have hfilter : channel.modes.filter (· ≠ SP) = channel.modes := by
    rw [List.filter_eq_self]
    intro b hb
    apply decide_eq_true
    rintro rfl
    exact hblank hb
  have hknown : SP ∉ ascii "spmntilk" := by decide +kernel
  have hroom : (([] : CStr) ++ channel.modes.filter (· ≠ SP)).length < 29 := by
    rw [List.nil_append, hfilter]
    omega
  have hperm := ordermode_fold_perm hknown ([], channel.modes) hroom
  rw [List.nil_append, hfilter] at hperm
  have hlength := hperm.length_eq
  simp only [ordermodes, if_pos huser]
  rw [List.take_of_length_le (by omega), clip_eq_self (by omega)]
  exact hperm

/-! ## Replies and changes -/

/-- The channel without modes. -/
def unset (lkm : Uchannelt) : Uchannelt := { lkm with modes := [], limit := 0, key := [] }

/-- A reply for a channel of a user, with the parameters `ws`. -/
structure ModeReply (lkm : Uchannelt) (mode : CStr) (ws : List CStr) : Prop where
  user : 0 < lkm.usern
  letters : ReplyLetters lkm.grammar mode
  distinct : mode.Nodup
  blank : SP ∉ mode
  short : mode.length < 20
  params : ∀ w ∈ ws, Param w
  room : (spaced ws).length < 4096

/-- The same modes, limit and key, and the same writes of the key. -/
def Agree (one two : Uchannelt × List KeyWrite) : Prop :=
  (∀ md, md ∈ one.1.modes ↔ md ∈ two.1.modes) ∧ one.1.limit = two.1.limit ∧
    one.1.key = two.1.key ∧ one.2 = two.2

/-- No word is missing, no letters clash, and `l` and `k` find the same words whether each letter
that is announced with a parameter takes one or `l` and `k` only. -/
structure ReplyFits (lkm : Uchannelt) (mode : CStr) (ws : List CStr) : Prop where
  enough : mode.countP (changeTakes lkm.grammar) ≤ ws.length
  apart : ¬ Clash (changeTakes lkm.grammar) mode
  limit : ((wordFor replyTakes 108 mode ws).map atoi).getD lkm.limit =
    ((wordFor (changeTakes lkm.grammar) 108 mode ws).map atoi).getD 0
  key : (wordFor replyTakes 107 mode ws).map (clip 64) =
    (wordFor (changeTakes lkm.grammar) 107 mode ws).map (clip 64)
  old : wordFor replyTakes 107 mode ws = none → lkm.key = []

section Reply

variable {lkm : Uchannelt} {mode : CStr} {ws : List CStr}

theorem setchannelmode_reply (h : ModeReply lkm mode ws) :
    setchannelmode lkm mode (spaced ws) =
      (withWords { lkm with modes := mode } (wordFor replyTakes 108 mode (textWords ws))
          (wordFor replyTakes 107 mode (textWords ws)),
        keyWrites lkm.usern (wordFor replyTakes 107 mode (textWords ws))) := by
  rw [setchannelmode, clip_eq_self h.short, ← spacedPtr_textWords]
  exact setmodeLoop_words h.distinct { lkm with modes := mode } (readable_textWords h.params)

theorem addchannelmode_reply (h : ModeReply lkm mode ws) :
    (addchannelmode (unset lkm) (PLUS :: mode) (spaced ws)).1.modes.Perm
        (((pairUp (changeTakes lkm.grammar) mode (textWords ws)).map Change.md).foldl
          (plusStep (changeTakes lkm.grammar)) []) ∧
      (addchannelmode (unset lkm) (PLUS :: mode) (spaced ws)).1.limit =
        ((wordFor (changeTakes lkm.grammar) 108 mode (textWords ws)).map atoi).getD 0 ∧
      (addchannelmode (unset lkm) (PLUS :: mode) (spaced ws)).1.key =
        ((wordFor (changeTakes lkm.grammar) 107 mode (textWords ws)).map (clip 64)).getD [] ∧
      (addchannelmode (unset lkm) (PLUS :: mode) (spaced ws)).2 =
        keyWrites lkm.usern (wordFor (changeTakes lkm.grammar) 107 mode (textWords ws)) := by
  have hclip : clip 200 (PLUS :: mode) = PLUS :: mode := by
    apply clip_eq_self
    have hshort := h.short
    rw [List.length_cons]
    omega
  -- The letters of the reply are paired with its words, as far as they take one.
  have hread : modeLoop (PLUS :: mode) PLUS (some (spaced ws)) (unset lkm) =
      applyChanges (unset lkm) (pairUp (changeTakes lkm.grammar) mode (textWords ws)) := by
    have hloop := modeLoop_eq (g := lkm.grammar) (PLUS :: mode) PLUS (some (spaced ws)) (unset lkm) rfl
    have hsign : readChanges lkm.grammar (codeTakes lkm.grammar) (PLUS :: mode) PLUS
        (some (spaced ws)) =
          readChanges lkm.grammar (codeTakes lkm.grammar) mode PLUS (some (spaced ws)) := by
      rw [readChanges.eq_def]
      simp
    rw [hloop, hsign, ← spacedPtr_textWords, readChanges_pairUp h.letters (readable_textWords h.params)]
  have huser : ∀ md ∈ mode, md ∉ (unset lkm).prefixmodes := fun md hmd => (h.letters md hmd).2.1
  have hmade := applyChanges_pairUp (changeTakes lkm.grammar) h.distinct (textWords ws)
    huser (Or.inl rfl)
  rw [← hread] at hmade
  have husern : (modeLoop (PLUS :: mode) PLUS (some (spaced ws)) (unset lkm)).1.usern = lkm.usern := by
    have hframe := congrArg Uchannelt.usern (frame_applyChanges
      (pairUp (changeTakes lkm.grammar) mode (textWords ws)) (unset lkm))
    rw [hread]
    exact hframe
  simp only [addchannelmode, hclip, clip_eq_self h.room]
  generalize modeLoop (PLUS :: mode) PLUS (some (spaced ws)) (unset lkm) = done at hmade husern ⊢
  rcases hmade with ⟨hset, hwrites⟩
  simp only [Uchannelt.settings, Settings.mk.injEq] at hset
  rcases hset with ⟨hmodes, hlimit, hkey⟩
  -- the modes are letters of the reply, and there are fewer than 20 of them
  have hstart : (pairUp (changeTakes lkm.grammar) mode (textWords ws)).map Change.md <+: mode :=
    pairUp_start _
  have hroom : ([] : CStr).length +
      ((pairUp (changeTakes lkm.grammar) mode (textWords ws)).map Change.md).length < 20 := by
    have hle := hstart.length_le
    have hshort := h.short
    rw [List.length_nil]
    omega
  have hfold := foldl_plusStep (changeTakes lkm.grammar) hroom List.nodup_nil
  have hlength : done.1.modes.length < 20 := by
    rw [hmodes]
    exact Nat.lt_of_le_of_lt hfold.1 hroom
  have hblank : SP ∉ done.1.modes := by
    intro hmem
    rw [hmodes] at hmem
    rcases hfold.2.2 SP hmem with hnil | hletter
    · cases hnil
    · exact h.blank (hstart.subset hletter)
  have huser : done.1.usern ≠ -1 := by
    have hpos := h.user
    omega
  refine ⟨?_, hlimit, hkey, hwrites⟩
  have hperm := ordermodes_perm huser hlength hblank
  rwa [hmodes] at hperm

theorem keyWrites_congr {usern : Int} {one two : Option CStr}
    (h : one.map (clip 64) = two.map (clip 64)) : keyWrites usern one = keyWrites usern two := by
  cases one with
  | none =>
      cases two with
      | none =>
          rfl
      | some w =>
          cases h
  | some v =>
      cases two with
      | none =>
          cases h
      | some w =>
          rw [Option.map_some, Option.map_some, Option.some.injEq] at h
          simp only [keyWrites, h]

/-- The same key and the same writes mean the same word. -/
theorem keyWord_iff {usern : Int} (huser : 0 < usern) (key : CStr) (one two : Option CStr) :
    ((one.map (clip 64)).getD key = (two.map (clip 64)).getD [] ∧
        keyWrites usern one = keyWrites usern two) ↔
      one.map (clip 64) = two.map (clip 64) ∧ (one = none → key = []) := by
  constructor
  · rintro ⟨hkey, hwrites⟩
    cases one with
    | none =>
        cases two with
        | none =>
            exact ⟨rfl, fun _ => hkey⟩
        | some w =>
            simp [keyWrites, huser] at hwrites
    | some v =>
        cases two with
        | none =>
            simp [keyWrites, huser] at hwrites
        | some w =>
            exact ⟨congrArg some hkey, fun hnone => by cases hnone⟩
  · rintro ⟨hwords, hold⟩
    refine ⟨?_, keyWrites_congr hwords⟩
    rw [hwords]
    cases two with
    | none =>
        cases one with
        | none =>
            exact hold rfl
        | some v =>
            cases hwords
    | some w =>
        rfl

/-- A reply for `#a` with the common announcement: a key, a limit and two flags. -/
def keyedReply : Uchannelt :=
  { name := ascii "#a", usern := 1, prefixmodes := ascii "ov", prefixchars := ascii "@+",
    chanmodes := ascii "beI,k,l,imnpst" }

end Reply

end PsyBnc
