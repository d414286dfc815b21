import PsyBnc.Intnet.ModeLocal

/-!
# Signs in mode strings

`intmode` takes a sign that differs from the one it has only while the flag `prefixchange` is not set.  The
flag is set by a change of the sign, and taken back by the next letter that goes into the string that is
sent; until then other signs are ignored.
-/

namespace PsyBnc

open CLib

@[reducible] def IsSign (m : Byte) : Prop := m = PLUS ∨ m = MINUS

/-- The letters of a mode string, each with the last sign before it. -/
def signedLetters : Byte → CStr → List (Byte × Byte)
  | _, [] => []
  | sign, m :: modes =>
      if IsSign m then signedLetters m modes else (sign, m) :: signedLetters sign modes

/-- The last sign of a mode string. -/
def lastSign : Byte → CStr → Byte
  | sign, [] => sign
  | sign, m :: modes => lastSign (if IsSign m then m else sign) modes

/-- The letters as the loop of `intmode` applies them, each with the sign that it has then. -/
def appliedLetters (net : Intnet) (client : Option Clientt) : Intmode → CStr → List (Byte × Byte)
  | _, [] => []
  | s, m :: modes =>
      let rest := appliedLetters net client (loopStep net client s m) modes
      if IsSign m then rest else (s.sign, m) :: rest

/-- The letters that go into the string that is sent, each with the last sign before it in the string that
was given. -/
def acceptedLetters (net : Intnet) (client : Option Clientt) : Byte → Intmode → CStr → List (Byte × Byte)
  | _, _, [] => []
  | sign, s, m :: modes =>
      let t := loopStep net client s m
      if IsSign m then acceptedLetters net client m t modes
      else if t.newmode = s.newmode then acceptedLetters net client sign t modes
      else (sign, m) :: acceptedLetters net client sign t modes

/-- No sign that stands before a letter is ignored: it is the one that the loop has, or no change of the
sign waits for its letter. -/
def SignsTaken (net : Intnet) (client : Option Clientt) : Intmode → CStr → Prop
  | s, c :: m :: modes =>
      (IsSign c → ¬ IsSign m → s.sign = c ∨ s.prefixchange = false) ∧
        SignsTaken net client (loopStep net client s c) (m :: modes)
  | _, _ => True

instance SignsTaken.decidable (net : Intnet) (client : Option Clientt) :
    ∀ (s : Intmode) (modes : CStr), Decidable (SignsTaken net client s modes)
  | _, [] => isTrue trivial
  | _, [_] => isTrue trivial
  | s, c :: m :: modes =>
      have : Decidable (SignsTaken net client (loopStep net client s c) (m :: modes)) :=
        SignsTaken.decidable net client _ _
      inferInstanceAs (Decidable (_ ∧ _))

/-- The mode string that is sent: `mm` and `newmode`. -/
def sentModes (newmode : CStr) : CStr :=
  (if newmode.head? = some PLUS ∨ newmode.head? = some MINUS then [] else [PLUS]) ++ newmode

/-- What `intmode` does to the signs of the letters, in the loop and in the string that it sends. -/
structure SignsKept (net : Intnet) (client : Option Clientt) (chan : Uchannelt) (modes params : CStr) :
    Prop where
  applied : appliedLetters net client { chan := chan, p := modeParams params } modes =
    signedLetters PLUS modes
  sent : signedLetters PLUS
      (sentModes (modes.foldl (loopStep net client) { chan := chan, p := modeParams params }).newmode) =
    acceptedLetters net client PLUS { chan := chan, p := modeParams params } modes

section Signs

variable {net : Intnet} {client : Option Clientt} {s : Intmode} {sign m : Byte} {modes u v : CStr}

theorem signedLetters_append (u v : CStr) :
    signedLetters sign (u ++ v) = signedLetters sign u ++ signedLetters (lastSign sign u) v := by
  induction u generalizing sign with
  | nil =>
      rfl
  | cons m u ih =>
      rw [List.cons_append, signedLetters, signedLetters, lastSign]
      by_cases hm : IsSign m
      · rw [if_pos hm, if_pos hm, if_pos hm, ih]
      · rw [if_neg hm, if_neg hm, if_neg hm, ih, List.cons_append]

theorem lastSign_append (u v : CStr) : lastSign sign (u ++ v) = lastSign (lastSign sign u) v := by
  induction u generalizing sign with
  | nil =>
      rfl
  | cons m u ih =>
      rw [List.cons_append, lastSign, lastSign, ih]

theorem signedLetters_sentModes (newmode : CStr) :
    signedLetters PLUS (sentModes newmode) = signedLetters PLUS newmode := by
  rw [sentModes]
  split
  · rfl
  · rfl

/-! ## One letter -/

/-- A sign is taken, or nothing happens. -/
theorem loopStep_sign (hm : IsSign m) :
    loopStep net client s m =
      if s.sign ≠ m ∧ s.prefixchange = false then
        { s with sign := m, prefixchange := true, newmode := s.newmode ++ [m] }
      else s := by
  have hstep : intmodeStep net s m =
      if s.sign ≠ m ∧ s.prefixchange = false then
        { s with sign := m, prefixchange := true, newmode := s.newmode ++ [m] }
      else s := by
    rw [intmodeStep, if_pos hm]
  cases client with
  | none => exact hstep
  | some client =>
      rw [← hstep]
      have hother : ¬ (m = 111 ∨ m = 118) := by
        rcases hm with rfl | rfl
        · decide
        · decide
      simp only [loopStep, intmodeLocalStep, hother, false_and, if_false]
      split
      · rfl
      · rfl

/-- A letter keeps the sign, and is written once at most. -/
structure LetterKeeps (s t : Intmode) (m : Byte) : Prop where
  sign : t.sign = s.sign
  newmode : t.newmode = s.newmode ∨ t.newmode = s.newmode ++ [m]

theorem intmodeStep_letter (hm : ¬ IsSign m) : LetterKeeps s (intmodeStep net s m) m := by
  have hquiet : ∀ {t : Intmode}, t.sign = s.sign → t.newmode = s.newmode → LetterKeeps s t m :=
    fun h h' => ⟨h, Or.inl h'⟩
  have hwrite : ∀ {t : Intmode}, t.sign = s.sign → t.newmode = s.newmode ++ [m] → LetterKeeps s t m :=
    fun h h' => ⟨h, Or.inr h'⟩
  -- A letter with a parameter is written if the change was made.
  have hchange : ∀ {p : Prop} [Decidable p] {t t' : Intmode}, LetterKeeps s t m → LetterKeeps s t' m →
      LetterKeeps s (if p then t else t') m := by
    intro p _ t t' h h'
    split
    · exact h
    · exact h'
  simp only [intmodeStep, if_neg hm]
  split
  · split
    · exact hwrite rfl rfl
    · exact hquiet rfl rfl
  · split
    · split
      · exact hquiet rfl rfl
      · split
        · exact hchange (hwrite rfl rfl) (hquiet rfl rfl)
        · exact hquiet rfl rfl
    · split
      · split
        · exact hquiet rfl rfl
        · split
          · exact hchange (hwrite rfl rfl) (hquiet rfl rfl)
          · exact hquiet rfl rfl
      · split
        · split
          · exact hquiet rfl rfl
          · split
            · exact hwrite rfl rfl
            · exact hwrite rfl rfl
        · exact hquiet rfl rfl

theorem loopStep_letter (hm : ¬ IsSign m) : LetterKeeps s (loopStep net client s m) m := by
  cases client with
  | none => exact intmodeStep_letter hm
  | some client =>
      simp only [loopStep, intmodeLocalStep]
      split
      · exact intmodeStep_letter hm
      · split
        · split
          · exact intmodeStep_letter hm
          · exact ⟨rfl, Or.inl rfl⟩
        · exact intmodeStep_letter hm

/-! ## The loop -/

/-- The sign of the loop is the last one, or it is not needed: another sign follows. -/
def Awaits (s : Intmode) (sign : Byte) (modes : CStr) : Prop :=
  s.sign = sign ∨ (s.prefixchange = true ∧ ∀ m ∈ modes.head?, IsSign m)

/-- A sign, whether it is taken or not, as long as no letter follows one that is ignored. -/
theorem Awaits.turn {modes : CStr} (hm : IsSign m)
    (htaken : (∃ c ∈ modes.head?, ¬ IsSign c) → s.sign = m ∨ s.prefixchange = false) :
    Awaits (loopStep net client s m) m modes := by
  rw [loopStep_sign hm]
  by_cases hchange : s.sign ≠ m ∧ s.prefixchange = false
  · rw [if_pos hchange]
    exact Or.inl rfl
  · rw [if_neg hchange]
    by_cases hsame : s.sign = m
    · exact Or.inl hsame
    · have hwait : s.prefixchange = true := by
        rw [← Bool.not_eq_false]
        exact fun hno => hchange ⟨hsame, hno⟩
      refine Or.inr ⟨hwait, fun c hc => ?_⟩
      by_contra hletter
      rcases htaken ⟨c, hc, hletter⟩ with h | h
      · exact hsame h
      · rw [hwait] at h
        cases h

theorem Awaits.letter (h : Awaits s sign (m :: modes)) (hm : ¬ IsSign m) : s.sign = sign := by
  rcases h with h | ⟨_, h⟩
  · exact h
  · exact absurd (h m rfl) hm

/-- One step, when no sign before a letter is ignored. -/
theorem Awaits.step (h : Awaits s sign (m :: modes)) (htaken : SignsTaken net client s (m :: modes)) :
    Awaits (loopStep net client s m) (if IsSign m then m else sign) modes ∧
      SignsTaken net client (loopStep net client s m) modes := by
  constructor
  · by_cases hm : IsSign m
    · rw [if_pos hm]
      apply Awaits.turn hm
      rintro ⟨c, hc, hletter⟩
      cases modes with
      | nil => cases hc
      | cons c' modes =>
          cases hc
          exact htaken.1 hm hletter
    · have hkeep : LetterKeeps s (loopStep net client s m) m := loopStep_letter hm
      rw [if_neg hm]
      exact Or.inl (hkeep.sign.trans (h.letter hm))
  · cases modes with
    | nil => exact trivial
    | cons c modes => exact htaken.2

theorem appliedLetters_iff (h : Awaits s sign modes) :
    appliedLetters net client s modes = signedLetters sign modes ↔ SignsTaken net client s modes := by
  induction modes generalizing s sign with
  | nil =>
      exact ⟨fun _ => trivial, fun _ => rfl⟩
  | cons m modes ih =>
      rw [appliedLetters, signedLetters]
      by_cases hm : IsSign m
      · simp only [if_pos hm]
        cases modes with
        | nil =>
            exact ⟨fun _ => trivial, fun _ => rfl⟩
        | cons c modes =>
            rw [SignsTaken]
            by_cases htaken : ¬ IsSign c → s.sign = m ∨ s.prefixchange = false
            · have hwait : Awaits (loopStep net client s m) m (c :: modes) := by
                apply Awaits.turn hm
                rintro ⟨c', hc, hletter⟩
                cases hc
                exact htaken hletter
              rw [ih hwait]
              constructor
              · exact fun hrest => ⟨fun _ => htaken, hrest⟩
              · exact fun hall => hall.2
            · -- The sign is ignored, and the letter behind it is applied with the other one.
              rcases Classical.not_imp.1 htaken with ⟨hletter, hno⟩
              have hsign : s.sign ≠ m := fun h => hno (Or.inl h)
              have hwait : s.prefixchange ≠ false := fun h => hno (Or.inr h)
              have hsame : loopStep net client s m = s := by
                rw [loopStep_sign hm, if_neg]
                exact fun hchange => hwait hchange.2
              constructor
              · intro heq
                rw [hsame, appliedLetters, signedLetters] at heq
                simp only [if_neg hletter] at heq
                exact absurd (congrArg Prod.fst (List.cons.inj heq).1) hsign
              · intro hall
                rcases hall.1 hm hletter with h | h
                · exact absurd h hsign
                · exact absurd h hwait
      · simp only [if_neg hm]
        have hsign := h.letter hm
        have hkeep : LetterKeeps s (loopStep net client s m) m := loopStep_letter hm
        rw [hsign, List.cons.injEq, ih (Or.inl (hkeep.sign.trans hsign))]
        cases modes with
        | nil => exact ⟨fun _ => trivial, fun _ => ⟨rfl, trivial⟩⟩
        | cons c modes =>
            rw [SignsTaken]
            constructor
            · exact fun hrest => ⟨fun hno => absurd hno hm, hrest.2⟩
            · exact fun hall => ⟨rfl, hall.2⟩

/-- The letters that are sent have the signs with which they were applied. -/
theorem newmode_signedLetters (h : Awaits s sign modes) (htaken : SignsTaken net client s modes)
    (hlast : lastSign PLUS s.newmode = s.sign) :
    signedLetters PLUS (modes.foldl (loopStep net client) s).newmode =
      signedLetters PLUS s.newmode ++ acceptedLetters net client sign s modes := by
  induction modes generalizing s sign with
  | nil =>
      rw [acceptedLetters, List.append_nil]
      rfl
  | cons m modes ih =>
      rw [List.foldl_cons, acceptedLetters]
      rcases h.step htaken with ⟨hwait, hrest⟩
      by_cases hm : IsSign m
      · simp only [if_pos hm] at hwait ⊢
        -- A sign that is written is the last one from then on.
        have hsigned : signedLetters PLUS (loopStep net client s m).newmode = signedLetters PLUS s.newmode ∧
            lastSign PLUS (loopStep net client s m).newmode = (loopStep net client s m).sign := by
          rw [loopStep_sign hm]
          split
          · refine ⟨?_, ?_⟩
            · rw [signedLetters_append, signedLetters, if_pos hm]
              exact List.append_nil _
            · rw [lastSign_append, lastSign, if_pos hm]
              rfl
          · exact ⟨rfl, hlast⟩
        rw [ih hwait hrest hsigned.2, hsigned.1]
      · simp only [if_neg hm] at hwait ⊢
        have hsign := h.letter hm
        have hkeep : LetterKeeps s (loopStep net client s m) m := loopStep_letter hm
        by_cases hsame : (loopStep net client s m).newmode = s.newmode
        · rw [if_pos hsame, ih hwait hrest (by rw [hsame, hkeep.sign, hlast]), hsame]
        · have hwritten : (loopStep net client s m).newmode = s.newmode ++ [m] :=
            hkeep.newmode.resolve_left hsame
          have hlast' : lastSign PLUS (loopStep net client s m).newmode =
              (loopStep net client s m).sign := by
            rw [hwritten, lastSign_append, lastSign, if_neg hm, hkeep.sign]
            exact hlast
          rw [if_neg hsame, ih hwait hrest hlast', hwritten, signedLetters_append, hlast, hsign,
            signedLetters, if_neg hm, List.append_assoc]
          rfl

end Signs

/-- Every letter gets the last sign before it, in the loop and in the string that is sent, just if no sign
right before a letter is ignored. -/
theorem intmode_signs_iff (net : Intnet) (client : Option Clientt) (chan : Uchannelt)
    (modes params : CStr) :
    SignsKept net client chan modes params ↔
      SignsTaken net client { chan := chan, p := modeParams params } modes := by
  have hstart : Awaits { chan := chan, p := modeParams params } PLUS modes := Or.inl rfl
  constructor
  · exact fun h => (appliedLetters_iff hstart).1 h.applied
  · intro h
    refine ⟨(appliedLetters_iff hstart).2 h, ?_⟩
    rw [signedLetters_sentModes, newmode_signedLetters hstart h rfl]
    rfl

/-- `-+i` on an open channel: the `+` is ignored, and the channel is not made invite-only. -/
theorem intmode_ignores_sign :
    let net : Intnet := { me := ascii "hub" }
    let chan := newchannel (-1) (ascii "ov") (ascii "@+") (ascii "b,k,l,imnpst") (ascii "#a")
    signedLetters PLUS (ascii "-+i") = [(PLUS, 105)] ∧
      appliedLetters net none { chan := chan, p := none } (ascii "-+i") = [(MINUS, 105)] ∧
        (effectOf net none chan (ascii "-+i") []).modes = ascii "nt" ∧
          (105 : Byte) ∈ (effectOf net none chan (ascii "+i") []).modes :=
  ⟨by decide +kernel, by decide +kernel, by decide +kernel, by decide +kernel⟩

end PsyBnc
