import PsyBnc.UChannel.Model

/-!
# The grammar of mode changes

A server announces its modes as `PREFIX` and `CHANMODES`.  `addchannelmode` cuts the parameters and
changes the channel in one pass, but what it cuts depends on the announced texts alone:
`modeChanges` reads the changes, `applyChange` makes them.  `prescribed` says what they are to do
to the modes, the key and the limit of a channel.
-/

namespace PsyBnc

open CLib

/-- What a server announces; a channel keeps a copy. -/
structure ModeGrammar where
  prefixmodes : CStr
  prefixchars : CStr
  chanmodes : CStr
  deriving DecidableEq

def Uchannelt.grammar (lkm : Uchannelt) : ModeGrammar :=
  ⟨lkm.prefixmodes, lkm.prefixchars, lkm.chanmodes⟩

def Usert.grammar (u : Usert) : ModeGrammar := ⟨u.prefixmodes, u.prefixchars, u.chanmodes⟩

/-- A letter of a mode change, and its parameter when it takes one. -/
structure Change where
  sign : Byte
  md : Byte
  par : Option CStr
  deriving DecidableEq

/-! ## Reading changes -/

/-- The class of a letter in `CHANMODES`, counted from zero. -/
def ModeGrammar.class? (g : ModeGrammar) (md : Byte) : Option Nat :=
  (cutAt md g.chanmodes).map fun p => p.1.count COMMA

/-- The letters with a parameter: those of `PREFIX` and of the first two classes, and those of the
third when they are set. -/
def ModeGrammar.takes (g : ModeGrammar) (md sign : Byte) : Bool :=
  decide (md ∈ g.prefixmodes) ||
    match g.class? md with
    | none => false
    | some n => decide (n < 2 ∨ (n = 2 ∧ sign ≠ MINUS))

/-- The changes in a mode string, with the test `takes` for the letters that take a parameter; they
end where a parameter is missing. -/
def readChanges (g : ModeGrammar) (takes : Byte → Byte → Bool) :
    CStr → Byte → Option CStr → List Change
  | [], _, _ => []
  | md :: rest, sign, par =>
      if md = PLUS ∨ md = MINUS then readChanges g takes rest md par
      else if md ∈ g.prefixmodes ∨ md ∈ g.chanmodes then
        if takes md sign then
          match par with
          | none => []
          | some par =>
              ⟨sign, md, some (nextParam par).1⟩ :: readChanges g takes rest sign (nextParam par).2
        else ⟨sign, md, none⟩ :: readChanges g takes rest sign par
      else readChanges g takes rest sign par

/-- The changes that the server announces. -/
def ModeGrammar.changes (g : ModeGrammar) (mode param : CStr) : List Change :=
  readChanges g g.takes mode PLUS (some param)

/-- The test in `addchannelmode`. -/
def codeTakes (g : ModeGrammar) (md sign : Byte) : Bool :=
  decide (md ∈ g.prefixmodes) || hasparam g.chanmodes md sign

/-- A comma is no letter of a class, and the first class is not empty. -/
theorem hasparam_eq {g : ModeGrammar} {md : Byte} (sign : Byte) (hcomma : md ≠ COMMA)
    (hfirst : g.chanmodes.head? ≠ some COMMA) : codeTakes g md sign = g.takes md sign := by
  simp only [codeTakes, ModeGrammar.takes, ModeGrammar.class?, hasparam]
  cases hcut : cutAt md g.chanmodes with
  | none =>
      rfl
  | some p =>
      rcases p with ⟨u, v⟩
      have hcount : (u ++ [md]).tail.count COMMA = u.count COMMA := by
        cases u with
        | nil =>
            rfl
        | cons b u =>
            have hb : b ≠ COMMA := by
              rintro rfl
              apply hfirst
              rw [(cutAt_eq_some.1 hcut).1]
              rfl
            rw [List.cons_append, List.tail_cons, List.count_append, List.count_cons_of_ne hb]
            simp [hcomma]
      simp only [hcount, Option.map_some]

/-! ## Making changes -/

/-- One change of `modeLoop`. -/
def applyChange (lkm : Uchannelt) (c : Change) : Uchannelt × List KeyWrite :=
  match c.par with
  | some par =>
      if c.md ∈ lkm.prefixmodes then
        ((if c.sign = PLUS then addchannelusermode else removechannelusermode) lkm par c.md, [])
      else
        let changed := paramMode lkm c.md c.sign par
        (setMode changed.1 c.md c.sign, changed.2)
  | none =>
      let lkm := setMode lkm c.md c.sign
      (if c.md = 108 then { lkm with limit := 0 } else lkm, [])

def applyChanges : Uchannelt → List Change → Uchannelt × List KeyWrite
  | lkm, [] => (lkm, [])
  | lkm, c :: cs =>
      let changed := applyChange lkm c
      let done := applyChanges changed.1 cs
      (done.1, changed.2 ++ done.2)

/-- What a mode change leaves alone. -/
def Uchannelt.frame (lkm : Uchannelt) : Uchannelt :=
  { lkm with modes := [], limit := 0, key := [], users := [] }

@[simp] theorem frame_addmodetochannel (lkm : Uchannelt) (md : Byte) :
    (addmodetochannel lkm md).frame = lkm.frame := by
  unfold addmodetochannel
  split
  · rfl
  · rfl

@[simp] theorem frame_deletemodefromchannel (lkm : Uchannelt) (md : Byte) :
    (deletemodefromchannel lkm md).frame = lkm.frame := by
  unfold deletemodefromchannel
  split
  · rfl
  · rfl

@[simp] theorem frame_setMode (lkm : Uchannelt) (md sign : Byte) :
    (setMode lkm md sign).frame = lkm.frame := by
  unfold setMode
  split
  · simp
  · simp

@[simp] theorem frame_paramMode (lkm : Uchannelt) (md sign : Byte) (par : CStr) :
    (paramMode lkm md sign par).1.frame = lkm.frame := by
  unfold paramMode
  repeat' split
  all_goals first | rfl | simp

@[simp] theorem frame_addchannelusermode (lkm : Uchannelt) (nick : CStr) (md : Byte) :
    (addchannelusermode lkm nick md).frame = lkm.frame := by
  unfold addchannelusermode
  split
  · rfl
  · rfl

@[simp] theorem frame_removechannelusermode (lkm : Uchannelt) (nick : CStr) (md : Byte) :
    (removechannelusermode lkm nick md).frame = lkm.frame := by
  unfold removechannelusermode
  simp only
  repeat' split
  all_goals rfl

@[simp] theorem frame_applyChange (lkm : Uchannelt) (c : Change) :
    (applyChange lkm c).1.frame = lkm.frame := by
  unfold applyChange
  cases c.par with
  | some par =>
      simp only
      repeat' split
      all_goals simp
  | none =>
      simp only
      split
      · exact frame_setMode lkm _ _
      · exact frame_setMode lkm _ _

theorem grammar_applyChange (lkm : Uchannelt) (c : Change) :
    (applyChange lkm c).1.grammar = lkm.grammar := by
  have hframe := congrArg Uchannelt.grammar (frame_applyChange lkm c)
  exact hframe

theorem frame_applyChanges (cs : List Change) :
    ∀ lkm : Uchannelt, (applyChanges lkm cs).1.frame = lkm.frame := by
  induction cs with
  | nil =>
      intro lkm
      rfl
  | cons c cs ih =>
      intro lkm
      rw [applyChanges, ih, frame_applyChange]

/-- The pass of `addchannelmode` reads the changes and makes them one by one. -/
theorem modeLoop_eq {g : ModeGrammar} (mode : CStr) :
    ∀ (sign : Byte) (par : Option CStr) (lkm : Uchannelt), lkm.grammar = g →
      modeLoop mode sign par lkm = applyChanges lkm (readChanges g (codeTakes g) mode sign par) := by
  induction mode with
  | nil =>
      intro sign par lkm _
      rfl
  | cons md rest ih =>
      intro sign par lkm hg
      have hletters : lkm.prefixmodes = g.prefixmodes := congrArg ModeGrammar.prefixmodes hg
      have hchan : lkm.chanmodes = g.chanmodes := congrArg ModeGrammar.chanmodes hg
      unfold modeLoop readChanges
      by_cases hsign : md = PLUS ∨ md = MINUS
      · rw [if_pos hsign, if_pos hsign, ih md par lkm hg]
      rw [if_neg hsign, if_neg hsign, hletters, hchan]
      by_cases huser : md ∈ g.prefixmodes
      · -- a letter of PREFIX: it takes a parameter in any case
        have htakes : codeTakes g md sign = true := by simp [codeTakes, huser]
        rw [if_pos huser, if_pos (Or.inl huser), if_pos htakes]
        cases par with
        | none =>
            rfl
        | some par =>
            have hstep := grammar_applyChange lkm ⟨sign, md, some (nextParam par).1⟩
            simp only [applyChange, hletters, huser, if_true] at hstep
            simp only [applyChanges, applyChange, hletters, huser, if_true, List.nil_append]
            exact ih _ _ _ (hstep.trans hg)
      · by_cases hmode : md ∈ g.chanmodes
        · have htakes : codeTakes g md sign = hasparam g.chanmodes md sign := by
            simp [codeTakes, huser]
          rw [if_neg huser, if_pos hmode, if_pos (Or.inr hmode), htakes]
          split
          · cases par with
            | none =>
                rfl
            | some par =>
                have hstep := grammar_applyChange lkm ⟨sign, md, some (nextParam par).1⟩
                simp only [applyChange, hletters, huser, if_false] at hstep
                simp only [applyChanges, applyChange, hletters, huser, if_false,
                  ih _ _ _ (hstep.trans hg)]
          · have hstep := grammar_applyChange lkm ⟨sign, md, none⟩
            simp only [applyChange] at hstep
            simp only [applyChanges, applyChange, List.nil_append]
            exact ih _ _ _ (hstep.trans hg)
        · rw [if_neg huser, if_neg hmode, if_neg (by simp [huser, hmode])]
          exact ih sign par lkm hg

/-! ## What a change is to do -/

/-- What a channel has beside its members. -/
structure Settings where
  modes : CStr
  limit : Int
  key : CStr
  deriving DecidableEq

def Uchannelt.settings (lkm : Uchannelt) : Settings := ⟨lkm.modes, lkm.limit, lkm.key⟩

def addLetter (modes : CStr) (md : Byte) : CStr :=
  if modes.length < 20 ∧ md ∉ modes then modes ++ [md] else modes

def removeLetter (modes : CStr) (md : Byte) : CStr :=
  match cutAt md modes with
  | none => modes
  | some (u, v) => clip 20 (clip 60 (u ++ v))

/-- A letter of `CHANMODES` is set or removed, with the limit and the key if it is theirs. -/
def prescribed (g : ModeGrammar) (s : Settings) (c : Change) : Settings :=
  if c.md ∈ g.prefixmodes then s
  else
    { modes := if c.sign = PLUS then addLetter s.modes c.md else removeLetter s.modes c.md
      limit :=
        if c.md = 108 then if c.sign = PLUS then atoi (c.par.getD []) else 0 else s.limit
      key := if c.md = 107 then if c.sign = PLUS then clip 64 (c.par.getD []) else [] else s.key }

/-- The announcements that the code reads right: the first class is not empty, `k` always has a
parameter and `l` has one when it is set, and `s` and `p` have none. -/
structure ModeGrammar.Regular (g : ModeGrammar) : Prop where
  first : g.chanmodes.head? ≠ some COMMA
  key : ∀ n, g.class? 107 = some n → n < 2
  limit : ∀ n, g.class? 108 = some n → n = 2
  flags : ∀ md ∈ [115, 112], ∀ n, g.class? md = some n → 2 < n

@[simp] theorem settings_addmodetochannel (lkm : Uchannelt) (md : Byte) :
    (addmodetochannel lkm md).settings = { lkm.settings with modes := addLetter lkm.modes md } := by
  unfold addmodetochannel addLetter
  split
  · rfl
  · rfl

@[simp] theorem settings_deletemodefromchannel (lkm : Uchannelt) (md : Byte) :
    (deletemodefromchannel lkm md).settings =
      { lkm.settings with modes := removeLetter lkm.modes md } := by
  unfold deletemodefromchannel removeLetter
  cases cutAt md lkm.modes with
  | none =>
      rfl
  | some p =>
      rfl

theorem settings_setMode (lkm : Uchannelt) (md sign : Byte) :
    (setMode lkm md sign).settings =
      { lkm.settings with
        modes := if sign = PLUS then addLetter lkm.modes md else removeLetter lkm.modes md } := by
  unfold setMode
  split
  · simp
  · simp

@[simp] theorem settings_addchannelusermode (lkm : Uchannelt) (nick : CStr) (md : Byte) :
    (addchannelusermode lkm nick md).settings = lkm.settings := by
  unfold addchannelusermode
  split
  · rfl
  · rfl

@[simp] theorem settings_removechannelusermode (lkm : Uchannelt) (nick : CStr) (md : Byte) :
    (removechannelusermode lkm nick md).settings = lkm.settings := by
  unfold removechannelusermode
  simp only
  repeat' split
  all_goals rfl

/-- A change as `readChanges` reads it. -/
structure Change.WellRead (g : ModeGrammar) (c : Change) : Prop where
  sign : c.sign = PLUS ∨ c.sign = MINUS
  known : c.md ∈ g.prefixmodes ∨ c.md ∈ g.chanmodes
  par : c.par.isSome = g.takes c.md c.sign

/-- Every change that is read has a sign, a letter that is announced, and a parameter when its letter
takes one. -/
theorem readChanges_read {g : ModeGrammar} {takes : Byte → Byte → Bool} {mode : CStr} :
    ∀ {sign : Byte} {par : Option CStr}, sign = PLUS ∨ sign = MINUS →
      ∀ c ∈ readChanges g takes mode sign par,
        (c.sign = PLUS ∨ c.sign = MINUS) ∧ (c.md ∈ g.prefixmodes ∨ c.md ∈ g.chanmodes) ∧
          c.par.isSome = takes c.md c.sign := by
  induction mode with
  | nil =>
      intro sign par _ c hc
      cases hc
  | cons md rest ih =>
      intro sign par hsign c hc
      unfold readChanges at hc
      split at hc
      · next hmd => exact ih hmd c hc
      · split at hc
        · next hknown =>
          split at hc
          · next htakes =>
            cases par with
            | none =>
                cases hc
            | some par =>
                rcases List.mem_cons.1 hc with rfl | hc
                · exact ⟨hsign, hknown, by simp [htakes]⟩
                · exact ih hsign c hc
          · next htakes =>
            rcases List.mem_cons.1 hc with rfl | hc
            · exact ⟨hsign, hknown, by simpa using htakes⟩
            · exact ih hsign c hc
        · exact ih hsign c hc

theorem readChanges_wellRead {g : ModeGrammar} {mode : CStr} {sign : Byte} {par : Option CStr}
    (hsign : sign = PLUS ∨ sign = MINUS) :
    ∀ c ∈ readChanges g g.takes mode sign par, c.WellRead g := by
  intro c hc
  rcases readChanges_read hsign c hc with ⟨hplus, hknown, hpar⟩
  exact ⟨hplus, hknown, hpar⟩

section Regular

variable {g : ModeGrammar} {c : Change}

theorem ModeGrammar.Regular.takes_class (hc : c.WellRead g) (huser : c.md ∉ g.prefixmodes) :
    ∃ n, g.class? c.md = some n ∧
      (c.par.isSome ↔ n < 2 ∨ (n = 2 ∧ c.sign ≠ MINUS)) := by
  have hmode : c.md ∈ g.chanmodes := hc.known.resolve_left huser
  cases hcut : cutAt c.md g.chanmodes with
  | none =>
      exact absurd hmode (cutAt_eq_none.1 hcut)
  | some p =>
      refine ⟨p.1.count COMMA, by simp [ModeGrammar.class?, hcut], ?_⟩
      rw [hc.par]
      simp [ModeGrammar.takes, ModeGrammar.class?, huser, hcut]

theorem applyChange_prescribed (hg : g.Regular) (hc : c.WellRead g) {lkm : Uchannelt}
    (hlkm : lkm.grammar = g) : (applyChange lkm c).1.settings = prescribed g lkm.settings c := by
  have hletters : lkm.prefixmodes = g.prefixmodes := congrArg ModeGrammar.prefixmodes hlkm
  rw [prescribed]
  by_cases huser : c.md ∈ g.prefixmodes
  · -- a member's mode: nothing else changes
    have htakes : c.par.isSome = true := by
      rw [hc.par, ModeGrammar.takes]
      simp [huser]
    rcases Option.isSome_iff_exists.1 htakes with ⟨par, hpar⟩
    rw [if_pos huser, applyChange, hpar]
    simp only [hletters, huser, if_true]
    split
    · exact settings_addchannelusermode lkm par c.md
    · exact settings_removechannelusermode lkm par c.md
  rw [if_neg huser]
  rcases ModeGrammar.Regular.takes_class hc huser with ⟨n, hclass, hpar⟩
  cases hcase : c.par with
  | some par =>
      rw [hcase] at hpar
      -- A letter with a word is no flag, so it is neither `s` nor `p`.
      have htakes : n < 2 ∨ (n = 2 ∧ c.sign ≠ MINUS) := hpar.1 rfl
      have hnot : c.md ≠ 115 ∧ c.md ≠ 112 := by
        constructor
        · intro hmd
          have hflag := hg.flags 115 (by simp) n (by rw [← hmd]; exact hclass)
          omega
        · intro hmd
          have hflag := hg.flags 112 (by simp) n (by rw [← hmd]; exact hclass)
          omega
      simp only [applyChange, hcase, hletters, huser, if_false, settings_setMode]
      by_cases hlimit : c.md = 108
      · -- `l` has a parameter only when it is set
        have hn : n = 2 := hg.limit n (by rw [← hlimit]; exact hclass)
        have hplus : c.sign = PLUS := by
          rcases htakes with hlt | ⟨_, hminus⟩
          · omega
          · exact hc.sign.resolve_right hminus
        simp [paramMode, hlimit, hplus, Uchannelt.settings]
      by_cases hkey : c.md = 107
      · by_cases hplus : c.sign = PLUS
        · simp [paramMode, hkey, hplus, Uchannelt.settings]
        · simp [paramMode, hkey, hplus, Uchannelt.settings]
      simp [paramMode, hlimit, hkey, hnot, Uchannelt.settings]
  | none =>
      rw [hcase] at hpar
      -- A letter without a word is not the key, and the limit only when it is taken away.
      have hnone : ¬ (n < 2 ∨ (n = 2 ∧ c.sign ≠ MINUS)) := fun h => by simpa using hpar.2 h
      have hkey : c.md ≠ 107 := by
        intro hmd
        exact hnone (Or.inl (hg.key n (by rw [← hmd]; exact hclass)))
      have hset := settings_setMode lkm c.md c.sign
      simp only [applyChange, hcase]
      by_cases hlimit : c.md = 108
      · have hn : n = 2 := hg.limit n (by rw [← hlimit]; exact hclass)
        have hminus : ¬ c.sign = PLUS := by
          intro hplus
          exact hnone (Or.inr ⟨hn, by rw [hplus]; decide⟩)
        simp only [Uchannelt.settings, Settings.mk.injEq] at hset ⊢
        simp [hlimit, hminus] at hset ⊢
        exact ⟨hset.1, hset.2.2⟩
      · rw [if_neg hlimit, hset]
        simp [hlimit, hkey, Uchannelt.settings]

theorem applyChanges_prescribed (hg : g.Regular) {cs : List Change} :
    ∀ {lkm : Uchannelt}, (∀ c ∈ cs, c.WellRead g) → lkm.grammar = g →
      (applyChanges lkm cs).1.settings = cs.foldl (prescribed g) lkm.settings := by
  induction cs with
  | nil =>
      intro lkm _ _
      rfl
  | cons c cs ih =>
      intro lkm hcs hlkm
      rw [applyChanges, List.foldl_cons, ← applyChange_prescribed hg (hcs c List.mem_cons_self) hlkm]
      apply ih
      · exact fun d hd => hcs d (List.mem_cons_of_mem _ hd)
      · rw [grammar_applyChange, hlkm]

/-- A text without a comma is read as announced. -/
theorem readChanges_codeTakes (hfirst : g.chanmodes.head? ≠ some COMMA) {mode : CStr} :
    ∀ {sign : Byte} {par : Option CStr}, COMMA ∉ mode →
      readChanges g (codeTakes g) mode sign par = readChanges g g.takes mode sign par := by
  induction mode with
  | nil =>
      intro sign par _
      rfl
  | cons md rest ih =>
      intro sign par hcomma
      have hmd : md ≠ COMMA := fun h => hcomma (by simp [h])
      have hrest : COMMA ∉ rest := fun h => hcomma (List.mem_cons_of_mem _ h)
      unfold readChanges
      simp only [hasparam_eq sign hmd hfirst, ih hrest]

/-- The modes as `ordermodes` leaves them on a channel of `usern`. -/
def orderedModes (usern : Int) (modes : CStr) : CStr :=
  (ordermodes { name := [], modes := modes, usern := usern }).modes

/-- What a MODE line of the server is to make of a channel. -/
def ModeGrammar.settled (g : ModeGrammar) (usern : Int) (s : Settings) (mode param : CStr) : Settings :=
  let done := (g.changes (clip 200 mode) (clip 4096 param)).foldl (prescribed g) s
  { done with modes := orderedModes usern done.modes }

theorem addchannelmode_settled {lkm : Uchannelt} (hg : lkm.grammar.Regular) {mode : CStr}
    (param : CStr) (hcomma : COMMA ∉ mode) :
    (addchannelmode lkm mode param).1.settings =
      lkm.grammar.settled lkm.usern lkm.settings mode param := by
  have hcomma' : COMMA ∉ clip 200 mode := fun h => hcomma (mem_of_mem_clip h)
  have hread := modeLoop_eq (clip 200 mode) PLUS (some (clip 4096 param)) lkm rfl
  rw [readChanges_codeTakes hg.first hcomma'] at hread
  have hwell : ∀ c ∈ readChanges lkm.grammar lkm.grammar.takes (clip 200 mode) PLUS
      (some (clip 4096 param)), c.WellRead lkm.grammar := readChanges_wellRead (Or.inl rfl)
  have hmade := applyChanges_prescribed hg hwell rfl
  rw [← hread] at hmade
  have husern : (modeLoop (clip 200 mode) PLUS (some (clip 4096 param)) lkm).1.usern = lkm.usern := by
    have hframe := congrArg Uchannelt.usern (frame_applyChanges
      (readChanges lkm.grammar lkm.grammar.takes (clip 200 mode) PLUS (some (clip 4096 param))) lkm)
    rw [hread]
    exact hframe
  simp only [addchannelmode, ModeGrammar.settled, ModeGrammar.changes, ← hmade]
  simp only [orderedModes, ordermodes, Uchannelt.settings, husern]

end Regular

end PsyBnc
