import PsyBnc.Intnet.ModeReplay

/-!
# The letters of `intmode`

The helpers overwrite the mode of a member while the letters are read.  Each letter writes at most one
change into `newmode` and `newparam`, and changes at most one member: `loopStep_spec` says so for all
letters, and the rest of the development uses it alone.
-/

namespace PsyBnc

open CLib Function

section Helpers

variable {net : Intnet} {chan : Uchannelt} {nick : CStr} {j : Nat} {S : Byte → Bool}

/-! ## The helpers -/

/-- The helper for a letter and a sign. -/
def modeHelper (net : Intnet) (sign m : Byte) (chan : Uchannelt) (nick : CStr) : Uchannelt × Bool :=
  if sign = PLUS then
    if m = 111 then addop net chan nick else addvoice chan nick
  else if m = 111 then delop net chan nick else delvoice chan nick

/-- A mode is written for the member `k`. -/
theorem setmember_spec (chan : Uchannelt) (k : Nat) (mode : CStr) :
    SameMembers chan (setmember chan k mode) ∧
      ∀ j, (setmember chan k mode).modeAt j =
        if k = j then (chan.modeAt j).map fun _ => mode else chan.modeAt j :=
  modify_mode_spec chan k fun _ => mode

theorem remember_keeps (net : Intnet) (nick : CStr) {change : Uchannelt → CStr → Uchannelt}
    (hchange : ∀ chan mask, (change chan mask).users = chan.users ∧
      (change chan mask).grammar = chan.grammar) (chan : Uchannelt) :
    (remember net nick change chan).users = chan.users ∧
      (remember net nick change chan).grammar = chan.grammar := by
  rw [remember]
  split
  · exact ⟨rfl, rfl⟩
  · split
    · exact hchange _ _
    · exact ⟨rfl, rfl⟩

theorem addintop_users (chan : Uchannelt) (mask : CStr) :
    (addintop chan mask).users = chan.users ∧ (addintop chan mask).grammar = chan.grammar := by
  rw [addintop]
  split
  · exact ⟨rfl, rfl⟩
  · exact ⟨rfl, rfl⟩

theorem removeintop_users (chan : Uchannelt) (mask : CStr) :
    (removeintop chan mask).users = chan.users ∧
      (removeintop chan mask).grammar = chan.grammar := by
  rw [removeintop]
  split
  · exact ⟨rfl, rfl⟩
  · exact ⟨rfl, rfl⟩

theorem membermode_eq {chan : Uchannelt} {j : Nat} {mode : CStr} (h : chan.modeAt j = some mode) :
    membermode chan j = mode := by
  rw [membermode, ← Uchannelt.modeAt, h, Option.getD_some]

/-- What a helper does to the mode string of a member. -/
def helperMode (sign m : Byte) (mode : CStr) : CStr :=
  if sign = PLUS then
    if m = 111 then [AT] else if AT ∈ mode then mode else [PLUS]
  else if m = 111 then
    if AT ∈ mode then if PLUS ∈ mode then [PLUS] else [] else mode
  else if PLUS ∈ mode then if AT ∈ mode then [AT] else [] else mode

/-- A helper whose nick is on the channel says whether it changed something; adding always counts. -/
def helperDone (sign m : Byte) (mode : CStr) : Bool :=
  decide (sign = PLUS ∨ (m = 111 ∧ AT ∈ mode) ∨ (m ≠ 111 ∧ PLUS ∈ mode))

/-- A nick that is not on the channel changes nothing. -/
theorem modeHelper_absent (h : getchannelnick chan nick = none) (sign m : Byte) :
    (modeHelper net sign m chan nick).1 = chan := by
  rw [modeHelper]
  split
  · split
    · rw [addop, h]
    · rw [addvoice, h]
  · split
    · rw [delop, h]
    · rw [delvoice, h]

/-- A helper for the member `k`. -/
theorem modeHelper_present {k : Nat} {mode : CStr} (h : getchannelnick chan nick = some k)
    (hmode : chan.modeAt k = some mode) (sign m : Byte) :
    SameMembers chan (modeHelper net sign m chan nick).1 ∧
      (∀ j, (modeHelper net sign m chan nick).1.modeAt j =
        if k = j then some (helperMode sign m mode) else chan.modeAt j) ∧
      (modeHelper net sign m chan nick).2 = helperDone sign m mode := by
  have hmember : membermode chan k = mode := membermode_eq hmode
  -- a mode that is written, before or after the operators to remember
  have hwrite : ∀ {chan' : Uchannelt} {new : CStr}, chan'.users = chan.users →
      chan'.grammar = chan.grammar → SameMembers chan (setmember chan' k new) ∧
        ∀ j, (setmember chan' k new).modeAt j = if k = j then some new else chan.modeAt j := by
    intro chan' new husers hgrammar
    rcases sameMembers_of_users ⟨husers, hgrammar⟩ with ⟨hsame, hmodes⟩
    rcases setmember_spec chan' k new with ⟨hset, hat⟩
    refine ⟨hsame.trans hset, fun j => ?_⟩
    rw [hat j, hmodes]
    by_cases hj : k = j
    · rw [if_pos hj, if_pos hj, ← hj, hmode, Option.map_some]
    · rw [if_neg hj, if_neg hj]
  -- A helper that does nothing leaves the member's mode, too.
  have hkeep : ∀ j, chan.modeAt j = if k = j then some mode else chan.modeAt j := by
    intro j
    by_cases hj : k = j
    · rw [if_pos hj, ← hj, hmode]
    · rw [if_neg hj]
  rw [modeHelper, helperMode, helperDone]
  by_cases hplus : sign = PLUS
  · rw [if_pos hplus, if_pos hplus, decide_eq_true (Or.inl hplus)]
    by_cases hop : m = 111
    · have hremember := remember_keeps net nick addintop_users chan
      rw [if_pos hop, if_pos hop, addop, h]
      exact ⟨(hwrite hremember.1 hremember.2).1, (hwrite hremember.1 hremember.2).2, rfl⟩
    · rw [if_neg hop, if_neg hop, addvoice, h]
      simp only [hmember]
      by_cases hat : AT ∈ mode
      · rw [if_pos hat, if_pos hat]
        exact ⟨SameMembers.refl chan, hkeep, trivial⟩
      · rw [if_neg hat, if_neg hat]
        exact ⟨(hwrite rfl rfl).1, (hwrite rfl rfl).2, trivial⟩
  · rw [if_neg hplus, if_neg hplus]
    by_cases hop : m = 111
    · rw [if_pos hop, if_pos hop, delop, h]
      simp only [hmember, hplus, hop, true_and, false_or, ne_eq, not_true_eq_false, false_and,
        or_false]
      by_cases hat : AT ∈ mode
      · have hmode' : SameMembers chan (setmember chan k (if PLUS ∈ mode then ascii "+" else [])) ∧
            ∀ j, (setmember chan k (if PLUS ∈ mode then ascii "+" else [])).modeAt j =
              if k = j then some (if PLUS ∈ mode then ascii "+" else []) else chan.modeAt j :=
          hwrite rfl rfl
        have hremember := remember_keeps net nick removeintop_users
          (setmember chan k (if PLUS ∈ mode then ascii "+" else []))
        rcases sameMembers_of_users hremember with ⟨hsame, hmodes⟩
        rw [if_pos hat, if_pos hat]
        refine ⟨hmode'.1.trans hsame, fun j => ?_, (decide_eq_true hat).symm⟩
        exact (hmodes j).trans (hmode'.2 j)
      · rw [if_neg hat, if_neg hat]
        exact ⟨SameMembers.refl chan, hkeep, (decide_eq_false hat).symm⟩
    · rw [if_neg hop, if_neg hop, delvoice, h]
      simp only [hmember, hplus, hop, false_and, false_or, ne_eq, not_false_eq_true, true_and]
      by_cases hvoice : PLUS ∈ mode
      · rw [if_pos hvoice, if_pos hvoice]
        exact ⟨(hwrite rfl rfl).1, (hwrite rfl rfl).2, (decide_eq_true hvoice).symm⟩
      · rw [if_neg hvoice, if_neg hvoice]
        exact ⟨SameMembers.refl chan, hkeep, (decide_eq_false hvoice).symm⟩

/-- The first pass on the set of a member: a new operator loses his voice, and the voice of an operator
is not noted. -/
def firstPass (sign m : Byte) (S : Byte → Bool) : Byte → Bool :=
  if sign = PLUS then
    if m = 111 then update (update S 118 false) 111 true
    else if S 111 then S else update S 118 true
  else update S m false

theorem helperMode_intMode {m : Byte} (hm : m = 111 ∨ m = 118) (sign : Byte) (S : Byte → Bool) :
    helperMode sign m (intMode S) = intMode (firstPass sign m S) := by
  rw [helperMode, firstPass]
  simp only [at_mem_intMode, plus_mem_intMode]
  rw [intMode_eq S, intMode_eq]
  by_cases hplus : sign = PLUS
  · rcases hm with rfl | rfl
    · simp [hplus]
    · cases hop : S 111 with
      | false => simp [hplus, hop]
      | true => simp [hplus, hop]
  · rcases hm with rfl | rfl
    · cases hop : S 111 with
      | false => simp [hplus]
      | true => simp [hplus]
    · cases hvoice : S 118 with
      | false => simp [hplus]
      | true => simp [hplus]

end Helpers

/-! ## One letter -/

section Letter

variable {net : Intnet} {client : Option Clientt} {j : Nat} {s s' : Intmode} {m : Byte}

/-- The change of the member `j` that a letter asks for, unless three were made before. -/
def named (j : Nat) (s : Intmode) (m : Byte) : List ModeCall :=
  match s.p with
  | none => []
  | some par =>
      if (m = 111 ∨ m = 118) ∧ s.aktbans < 3 ∧ getchannelnick s.chan (nextParam par).1 = some j then
        [⟨decide (s.sign = PLUS), m⟩]
      else []

/-- The change, when the helper makes it: it is then written into `newmode`. -/
def noted (j : Nat) (s : Intmode) (m : Byte) : List ModeCall :=
  if helperDone s.sign m (membermode s.chan j) then named j s m else []

/-- The letters and parameters that are left fit into `newparam`. -/
def Room (newparam : CStr) : Option CStr → Prop
  | none => newparam.length ≤ 398
  | some p => newparam.length + p.length + 1 ≤ 398

/-- What one letter does to `newmode` and `newparam`: it writes changes of which `done` are those of
the member. -/
structure Advance (j : Nat) (s s' : Intmode) (done : List ModeCall) : Prop where
  same : SameMembers s.chan s'.chan
  text : ∃ letters cs, s'.newmode = s.newmode ++ letters ∧ letters.length ≤ 1 ∧
    ReadsAs intGrammar letters s.sign cs s'.sign ∧
    s'.newparam = s.newparam ++ spacedOut (cs.filterMap Change.par) ∧
    (∀ w ∈ cs.filterMap Change.par, SP ∉ w) ∧ memberCalls s.chan j cs = done
  room : Room s'.newparam s'.p

/-- Nothing is written. -/
theorem Advance.quiet (hsame : SameMembers s.chan s'.chan) (hmode : s'.newmode = s.newmode)
    (hparam : s'.newparam = s.newparam) (hsign : s'.sign = s.sign) (hroom : Room s'.newparam s'.p) :
    Advance j s s' [] := by
  refine ⟨hsame, ⟨[], [], ?_⟩, hroom⟩
  refine ⟨by rw [hmode, List.append_nil], by simp, ?_, by rw [hparam]; simp [spacedOut], by simp, rfl⟩
  rw [hsign]
  exact ReadsAs.nil s.sign

/-- A change is written with a parameter. -/
theorem Advance.write (hsame : SameMembers s.chan s'.chan) (hmode : s'.newmode = s.newmode ++ [m])
    {text : CStr} (hparam : s'.newparam = s.newparam ++ (text ++ [SP])) (htext : SP ∉ text)
    (hsign : s'.sign = s.sign) (hm : m = 98 ∨ m = 107 ∨ m = 111 ∨ m = 118)
    (hroom : Room s'.newparam s'.p) :
    Advance j s s' (memberCalls s.chan j [⟨s.sign, m, some text⟩]) := by
  refine ⟨hsame, ⟨[m], [⟨s.sign, m, some text⟩], hmode, le_refl _, ?_, ?_, ?_, rfl⟩, hroom⟩
  · have hread : ReadsAs intGrammar [m] s.sign [⟨s.sign, m, some text⟩] s.sign := by
      apply ReadsAs.change _ _ _ (ReadsAs.nil s.sign)
      · rcases hm with rfl | rfl | rfl | rfl
        · decide
        · decide
        · decide
        · decide
      · rcases hm with rfl | rfl | rfl | rfl
        · decide
        · decide
        · decide
        · decide
      · rcases hm with rfl | rfl | rfl | rfl
        · rfl
        · rfl
        · rfl
        · rfl
    rw [hsign]
    exact hread
  · rw [hparam]
    simp [spacedOut]
  · intro w hw
    have hw' : w = text := by simpa using hw
    rw [hw']
    exact htext

/-- A flag is written. -/
theorem Advance.flag (hsame : SameMembers s.chan s'.chan) (hmode : s'.newmode = s.newmode ++ [m])
    (hparam : s'.newparam = s.newparam) (hsign : s'.sign = s.sign) (hm : m ∈ ascii "smitn")
    (hroom : Room s'.newparam s'.p) : Advance j s s' [] := by
  have hflag : m = 115 ∨ m = 109 ∨ m = 105 ∨ m = 116 ∨ m = 110 := by
    simpa [ascii] using hm
  refine ⟨hsame, ⟨[m], [⟨s.sign, m, none⟩], hmode, le_refl _, ?_, ?_, by simp, by simp [memberCalls]⟩,
    hroom⟩
  · have hread : ReadsAs intGrammar [m] s.sign [⟨s.sign, m, none⟩] s.sign := by
      apply ReadsAs.change _ _ _ (ReadsAs.nil s.sign)
      · rcases hflag with rfl | rfl | rfl | rfl | rfl
        all_goals decide
      · rcases hflag with rfl | rfl | rfl | rfl | rfl
        all_goals decide
      · rcases hflag with rfl | rfl | rfl | rfl | rfl
        all_goals rfl
    rw [hsign]
    exact hread
  · rw [hparam]
    simp [spacedOut]

/-- A sign is written. -/
theorem Advance.turn (hsame : SameMembers s.chan s'.chan) (hmode : s'.newmode = s.newmode ++ [m])
    (hparam : s'.newparam = s.newparam) (hsign : s'.sign = m) (hm : m = PLUS ∨ m = MINUS)
    (hroom : Room s'.newparam s'.p) : Advance j s s' [] := by
  refine ⟨hsame, ⟨[m], [], hmode, le_refl _, ?_, ?_, by simp, rfl⟩, hroom⟩
  · rw [hsign]
    exact ReadsAs.sign hm (ReadsAs.nil m)
  · rw [hparam]
    simp [spacedOut]

/-! ## Parameters -/

theorem nextParam_length (par : CStr) :
    SP ∉ (nextParam par).1 ∧ (nextParam par).1.length ≤ par.length ∧
      ∀ rest, (nextParam par).2 = some rest →
        (nextParam par).1.length + 1 + rest.length = par.length := by
  rw [nextParam]
  rcases cut_cases SP par with ⟨hno, hcut⟩ | ⟨u, v, hpar, hu, hcut⟩
  · rw [hcut]
    exact ⟨hno, le_refl _, fun rest h => by cases h⟩
  · rw [hcut, hpar]
    refine ⟨hu, by simp, fun rest h => ?_⟩
    by_cases hv : v = []
    · simp [hv] at h
    · simp only [hv, if_false, Option.some.injEq] at h
      subst h
      simp only [List.length_append, List.length_cons]
      omega

/-- Taking a parameter, and writing a text that is no longer. -/
theorem Room.write {newparam par text : CStr} (h : Room newparam (some par))
    (htext : text.length ≤ (nextParam par).1.length) :
    Room (newparam ++ (text ++ [SP])) (nextParam par).2 := by
  rcases nextParam_length par with ⟨_, hword, hrest⟩
  simp only [Room] at h
  cases hnext : (nextParam par).2 with
  | none =>
      simp only [Room, List.length_append, List.length_singleton]
      omega
  | some rest =>
      have hlength := hrest rest hnext
      simp only [Room, List.length_append, List.length_singleton]
      omega

/-- Taking a parameter. -/
theorem Room.skip {newparam par : CStr} (h : Room newparam (some par)) :
    Room newparam (nextParam par).2 := by
  rcases nextParam_length par with ⟨_, hword, hrest⟩
  simp only [Room] at h
  cases hnext : (nextParam par).2 with
  | none =>
      simp only [Room]
      omega
  | some rest =>
      have hlength := hrest rest hnext
      simp only [Room]
      omega

theorem Room.fits {newparam par : CStr} (h : Room newparam (some par)) {w : CStr}
    (hw : w.length ≤ (nextParam par).1.length) : newparam.length + w.length + 1 < 399 := by
  have hword := (nextParam_length par).2.1
  simp only [Room] at h
  omega

/-- The nick that is written for a parameter: that of the client of this name. -/
def writtenNick (net : Intnet) (w : CStr) : CStr :=
  ((getclientbynick net w).map Clientt.nick).getD w

/-- It has no blank, is no longer than the parameter and names the same member. -/
theorem writtenNick_spec (hnicks : ∀ c ∈ net.clients, c.nick.length < 64) {w : CStr} (hw : SP ∉ w) :
    SP ∉ writtenNick net w ∧ (writtenNick net w).length ≤ w.length ∧
      ∀ chan, getchannelnick chan (writtenNick net w) = getchannelnick chan w := by
  rw [writtenNick]
  cases hclient : getclientbynick net w with
  | none =>
      exact ⟨hw, le_refl _, fun _ => rfl⟩
  | some c =>
      have hsame : sameName 64 w c.nick = true := by
        simpa using List.find?_some hclient
      have hshort : clip 64 c.nick = c.nick :=
        List.take_of_length_le (Nat.le_of_lt_succ (hnicks c (List.mem_of_find?_eq_some hclient)))
      have htext : ucase (clip 64 w) = ucase c.nick := by
        rw [sameName, strmcmp_iff, hshort] at hsame
        exact hsame
      refine ⟨?_, ?_, fun chan => (getchannelnick_congr hsame chan).symm⟩
      · intro hblank
        have hmem : SP ∈ ucase (clip 64 w) := by
          rw [htext]
          exact (mem_ucase_iff (by decide)).2 hblank
        exact hw (List.mem_of_mem_take ((mem_ucase_iff (by decide)).1 hmem))
      · have hlength := congrArg List.length htext
        rw [length_ucase, length_ucase] at hlength
        have hclip : (clip 64 w).length ≤ w.length := List.length_take_le' _ _
        simp only [Option.map_some, Option.getD_some]
        omega

/-! ## The step -/

/-- The state of the loop, with the modes `S` of the member `j`. -/
structure InLoop (j : Nat) (S : Byte → Bool) (s : Intmode) : Prop where
  grammar : s.chan.grammar = intGrammar
  mode : s.chan.modeAt j = some (intMode S)
  room : Room s.newparam s.p
  synced : s.p = none → s.p2 = none

/-- What a letter does: it writes the change of the member that it notes, and the modes of the member
are those of the first pass. -/
structure LetterSpec (j : Nat) (S : Byte → Bool) (s s' : Intmode) (m : Byte) : Prop where
  advance : Advance j s s' (noted j s m)
  mode : s'.chan.modeAt j =
    some (intMode (if named j s m = [] then S else firstPass s.sign m S))
  synced : s'.p = none → s'.p2 = none

theorem named_other (h : ¬ (m = 111 ∨ m = 118)) : named j s m = [] := by
  rw [named]
  split
  · rfl
  · rw [if_neg fun hcond => h hcond.1]

theorem noted_of_named (h : named j s m = []) : noted j s m = [] := by
  rw [noted, h, ite_self]

/-- A letter that names nobody. -/
theorem LetterSpec.of_unnamed (hnamed : named j s m = []) {S : Byte → Bool}
    (hadvance : Advance j s s' []) (hmode : s'.chan.modeAt j = some (intMode S))
    (hsynced : s'.p = none → s'.p2 = none) : LetterSpec j S s s' m := by
  refine ⟨?_, ?_, hsynced⟩
  · rw [noted_of_named hnamed]
    exact hadvance
  · rw [hnamed, if_pos rfl]
    exact hmode

variable {S : Byte → Bool}

theorem intmodeStep_sign (h : InLoop j S s) (hm : m = PLUS ∨ m = MINUS) :
    LetterSpec j S s (intmodeStep net s m) m := by
  have hnamed : named j s m = [] := by
    apply named_other
    rcases hm with rfl | rfl
    · decide
    · decide
  rw [intmodeStep, if_pos hm]
  split
  · exact LetterSpec.of_unnamed hnamed
      (Advance.turn (SameMembers.refl s.chan) rfl rfl rfl hm h.room) h.mode h.synced
  · exact LetterSpec.of_unnamed hnamed
      (Advance.quiet (SameMembers.refl s.chan) rfl rfl rfl h.room) h.mode h.synced

theorem intmodeStep_flag (h : InLoop j S s) (hsign : ¬ (m = PLUS ∨ m = MINUS))
    (hm : m ∈ ascii "smitn") : LetterSpec j S s (intmodeStep net s m) m := by
  have hnamed : named j s m = [] := by
    apply named_other
    rintro (rfl | rfl)
    · exact absurd hm (by decide)
    · exact absurd hm (by decide)
  rw [intmodeStep, if_neg hsign, if_pos hm]
  split
  · exact LetterSpec.of_unnamed hnamed
      (Advance.flag (SameMembers.refl s.chan) rfl rfl rfl hm h.room) h.mode h.synced
  · exact LetterSpec.of_unnamed hnamed
      (Advance.quiet (SameMembers.refl s.chan) rfl rfl rfl h.room) h.mode h.synced

theorem addban_users (chan : Uchannelt) (mask : CStr) :
    (addban chan mask).1.users = chan.users ∧ (addban chan mask).1.grammar = chan.grammar := by
  rw [addban]
  split
  · exact ⟨rfl, rfl⟩
  · split
    · exact ⟨rfl, rfl⟩
    · exact ⟨rfl, rfl⟩

theorem removeban_users (chan : Uchannelt) (mask : CStr) :
    (removeban chan mask).1.users = chan.users ∧ (removeban chan mask).1.grammar = chan.grammar := by
  rw [removeban]
  split
  · exact ⟨rfl, rfl⟩
  · exact ⟨rfl, rfl⟩

/-- A letter without a member writes no change of a member. -/
theorem memberCalls_other (chan : Uchannelt) (h : ¬ (m = 111 ∨ m = 118)) (sign : Byte)
    (par : Option CStr) : memberCalls chan j [⟨sign, m, par⟩] = [] := by
  simp [memberCalls, h]

/-- The parameter is taken. -/
def Intmode.past (s : Intmode) (par : CStr) : Intmode :=
  { s with p := (nextParam par).2, p2 := (nextParam par).2 }

theorem LetterSpec.past (h : InLoop j S s) {par : CStr} (hp : s.p = some par)
    (hnamed : named j s m = []) : LetterSpec j S s (s.past par) m := by
  have hroom : Room s.newparam (some par) := hp ▸ h.room
  exact LetterSpec.of_unnamed hnamed
    (Advance.quiet (SameMembers.refl s.chan) rfl rfl rfl hroom.skip) h.mode fun hnone => hnone

/-- No parameter is left. -/
theorem LetterSpec.bare (h : InLoop j S s) (hp : s.p = none) :
    LetterSpec j S s { s with p := s.p2 } m := by
  have hnamed : named j s m = [] := by
    rw [named, hp]
  have hroom : Room s.newparam s.p2 := by
    rw [h.synced hp, ← hp]
    exact h.room
  exact LetterSpec.of_unnamed hnamed
    (Advance.quiet (SameMembers.refl s.chan) rfl rfl rfl hroom) h.mode fun hnone => hnone

/-- The mask of a `b`. -/
def banParam (par : CStr) : CStr :=
  if 100 < (nextParam par).1.length then (nextParam par).1.take 99 else (nextParam par).1

theorem banParam_spec (par : CStr) :
    SP ∉ banParam par ∧ (banParam par).length ≤ (nextParam par).1.length := by
  have hblank := (nextParam_length par).1
  rw [banParam]
  split
  · exact ⟨fun hmem => hblank (List.mem_of_mem_take hmem), List.length_take_le' _ _⟩
  · exact ⟨hblank, le_refl _⟩

def changeBan (s : Intmode) (mask : CStr) : Uchannelt × Bool :=
  if s.sign = PLUS then addban s.chan mask else removeban s.chan mask

theorem changeBan_users (s : Intmode) (mask : CStr) :
    (changeBan s mask).1.users = s.chan.users ∧
      (changeBan s mask).1.grammar = s.chan.grammar := by
  rw [changeBan]
  split
  · exact addban_users s.chan mask
  · exact removeban_users s.chan mask

theorem intmodeStep_b {par : CStr} (hp : s.p = some par) :
    intmodeStep net s 98 =
      if s.aktbans < 3 then
        if (changeBan s (banParam par)).2 then
          (s.past par).done 98 (changeBan s (banParam par)).1 (banParam par) (banParam par)
        else s.past par
      else s.past par := by
  rw [intmodeStep, if_neg (by decide), if_neg (by decide), if_pos rfl, hp]
  rfl

theorem intmodeStep_ban (h : InLoop j S s) : LetterSpec j S s (intmodeStep net s 98) 98 := by
  have hother : ¬ ((98 : Byte) = 111 ∨ (98 : Byte) = 118) := by decide
  have hnamed : named j s 98 = [] := named_other hother
  cases hp : s.p with
  | none =>
      rw [intmodeStep, if_neg (by decide), if_neg (by decide), if_pos rfl, hp]
      exact LetterSpec.bare h hp
  | some par =>
      rw [intmodeStep_b hp]
      split
      · split
        · -- the mask is written as it was tried
          have hroom : Room s.newparam (some par) := hp ▸ h.room
          rcases banParam_spec par with ⟨hblank, hlength⟩
          rcases sameMembers_of_users (changeBan_users s (banParam par)) with ⟨hsame, hmodes⟩
          have hparam := addParam_fits (hroom.fits hlength) (banParam par)
          have hafter : Room (addParam s.newparam (banParam par) (banParam par))
              (nextParam par).2 := by
            rw [hparam]
            exact hroom.write hlength
          have hwrite : Advance j s
              ((s.past par).done 98 (changeBan s (banParam par)).1 (banParam par) (banParam par))
              (memberCalls s.chan j [⟨s.sign, 98, some (banParam par)⟩]) :=
            Advance.write hsame rfl hparam hblank rfl (Or.inl rfl) hafter
          rw [memberCalls_other s.chan hother] at hwrite
          exact LetterSpec.of_unnamed hnamed hwrite ((hmodes j).trans h.mode) fun hnone => hnone
        · exact LetterSpec.past h hp hnamed
      · exact LetterSpec.past h hp hnamed

theorem intmodeStep_k {par : CStr} (hp : s.p = some par) :
    intmodeStep net s 107 =
      if s.newparam.length + (nextParam par).1.length + 1 < 399 then
        { s.past par with
          newmode := s.newmode ++ [107]
          newparam := s.newparam ++ (nextParam par).1 ++ [SP]
          prefixchange := false }
      else { s.past par with newmode := s.newmode ++ [107] } := by
  rw [intmodeStep, if_neg (by decide), if_neg (by decide), if_neg (by decide), if_neg (by decide),
    if_pos rfl, hp]
  rfl

theorem intmodeStep_key (h : InLoop j S s) : LetterSpec j S s (intmodeStep net s 107) 107 := by
  have hother : ¬ ((107 : Byte) = 111 ∨ (107 : Byte) = 118) := by decide
  have hnamed : named j s 107 = [] := named_other hother
  cases hp : s.p with
  | none =>
      rw [intmodeStep, if_neg (by decide), if_neg (by decide), if_neg (by decide),
        if_neg (by decide), if_pos rfl, hp]
      exact LetterSpec.of_unnamed hnamed
        (Advance.quiet (SameMembers.refl s.chan) rfl rfl rfl h.room) h.mode h.synced
  | some par =>
      have hroom : Room s.newparam (some par) := hp ▸ h.room
      have hblank := (nextParam_length par).1
      rw [intmodeStep_k hp, if_pos (hroom.fits (le_refl _)), List.append_assoc]
      have hwrite : Advance j s
          { s.past par with
            newmode := s.newmode ++ [107]
            newparam := s.newparam ++ ((nextParam par).1 ++ [SP])
            prefixchange := false }
          (memberCalls s.chan j [⟨s.sign, 107, some (nextParam par).1⟩]) := by
        refine Advance.write ?_ rfl rfl hblank rfl (Or.inr (Or.inl rfl)) ?_
        · exact SameMembers.refl s.chan
        · exact hroom.write (le_refl _)
      rw [memberCalls_other s.chan hother] at hwrite
      exact LetterSpec.of_unnamed hnamed hwrite h.mode fun hnone => hnone

theorem modeAt_of_getchannelnick {chan : Uchannelt} {nick : CStr} {k : Nat}
    (h : getchannelnick chan nick = some k) : ∃ mode, chan.modeAt k = some mode := by
  rw [getchannelnick] at h
  rcases List.findIdx?_eq_some_iff_getElem.1 h with ⟨hk, _⟩
  exact ⟨_, by rw [Uchannelt.modeAt, List.getElem?_eq_getElem hk, Option.map_some]⟩

/-- A letter `o` or `v`, of which less than four have been done. -/
theorem named_member (hm : m = 111 ∨ m = 118) {par : CStr} (hp : s.p = some par)
    (hthree : s.aktbans < 3) :
    named j s m = if getchannelnick s.chan (nextParam par).1 = some j then
      [⟨decide (s.sign = PLUS), m⟩] else [] := by
  simp only [named, hp, hm, hthree, true_and]

/-- A helper, on the member `j`. -/
theorem modeHelper_spec (hm : m = 111 ∨ m = 118) (h : InLoop j S s) (sign : Byte) (w : CStr) :
    SameMembers s.chan (modeHelper net sign m s.chan w).1 ∧
      (modeHelper net sign m s.chan w).1.modeAt j =
        some (intMode (if getchannelnick s.chan w = some j then firstPass sign m S else S)) ∧
      (getchannelnick s.chan w = some j →
        (modeHelper net sign m s.chan w).2 = helperDone sign m (membermode s.chan j)) := by
  cases hk : getchannelnick s.chan w with
  | none =>
      rw [modeHelper_absent hk, if_neg (by simp)]
      exact ⟨SameMembers.refl s.chan, h.mode, fun hno => by cases hno⟩
  | some k =>
      rcases modeAt_of_getchannelnick hk with ⟨mode, hmode⟩
      have hpresent : SameMembers s.chan (modeHelper net sign m s.chan w).1 ∧ _ ∧ _ :=
        modeHelper_present hk hmode sign m
      rcases hpresent with ⟨hsame, hmodes, hdone⟩
      by_cases hkj : k = j
      · subst hkj
        have hset : mode = intMode S := Option.some.inj (hmode.symm.trans h.mode)
        refine ⟨hsame, ?_, fun _ => ?_⟩
        · rw [hmodes, if_pos rfl, if_pos rfl, hset, helperMode_intMode hm]
        · rw [hdone, membermode_eq hmode]
      · refine ⟨hsame, ?_, fun heq => absurd (Option.some.inj heq) hkj⟩
        rw [hmodes, if_neg hkj, if_neg fun heq => hkj (Option.some.inj heq)]
        exact h.mode

theorem intmodeStep_ov (hm : m = 111 ∨ m = 118) {par : CStr} (hp : s.p = some par) :
    intmodeStep net s m =
      if s.aktbans < 3 then
        if (modeHelper net s.sign m s.chan (nextParam par).1).2 then
          (s.past par).done m (modeHelper net s.sign m s.chan (nextParam par).1).1 (nextParam par).1
            (writtenNick net (nextParam par).1)
        else { s.past par with chan := (modeHelper net s.sign m s.chan (nextParam par).1).1 }
      else s.past par := by
  have hsign : ¬ (m = PLUS ∨ m = MINUS) := by
    rcases hm with rfl | rfl
    · decide
    · decide
  have hflag : m ∉ ascii "smitn" := by
    rcases hm with rfl | rfl
    · decide
    · decide
  have hban : m ≠ 98 := by
    rcases hm with rfl | rfl
    · decide
    · decide
  rw [intmodeStep, if_neg hsign, if_neg hflag, if_neg hban, if_pos hm, hp]
  rfl

theorem intmodeStep_member (hnicks : ∀ c ∈ net.clients, c.nick.length < 64) (h : InLoop j S s)
    (hm : m = 111 ∨ m = 118) : LetterSpec j S s (intmodeStep net s m) m := by
  cases hp : s.p with
  | none =>
      -- No word is left for the letter, which then changes nothing.
      have hsign : ¬ (m = PLUS ∨ m = MINUS) := by
        rcases hm with rfl | rfl
        · decide
        · decide
      have hflag : m ∉ ascii "smitn" := by
        rcases hm with rfl | rfl
        · decide
        · decide
      have hban : m ≠ 98 := by
        rcases hm with rfl | rfl
        · decide
        · decide
      rw [intmodeStep, if_neg hsign, if_neg hflag, if_neg hban, if_pos hm, hp]
      exact LetterSpec.bare h hp
  | some par =>
      rw [intmodeStep_ov hm hp]
      by_cases hthree : s.aktbans < 3
      · have hroom : Room s.newparam (some par) := hp ▸ h.room
        have hnamed := named_member (j := j) hm hp hthree
        have hhelper : SameMembers s.chan (modeHelper net s.sign m s.chan (nextParam par).1).1 ∧ _ ∧ _ :=
          modeHelper_spec hm h s.sign (nextParam par).1
        rcases hhelper with ⟨hsame, hmode, hdone⟩
        rcases writtenNick_spec hnicks (nextParam_length par).1 with ⟨hblank, hlength, hwho⟩
        have hset : (if getchannelnick s.chan (nextParam par).1 = some j then firstPass s.sign m S else S) =
            if named j s m = [] then S else firstPass s.sign m S := by
          rw [hnamed]
          split
          · rfl
          · rfl
        rw [hset] at hmode
        -- what is noted depends on the helper when the member is named
        have hnoted : noted j s m =
            if (modeHelper net s.sign m s.chan (nextParam par).1).2 then named j s m else [] := by
          rw [noted]
          by_cases hj : getchannelnick s.chan (nextParam par).1 = some j
          · rw [hdone hj]
          · rw [hnamed, if_neg hj, ite_self, ite_self]
        rw [if_pos hthree]
        split
        · next htrue =>
          -- The helper accepts the change: it is written down with the nick as the client has it.
          have hparam := addParam_fits (hroom.fits (le_refl _)) (writtenNick net (nextParam par).1)
          have hwrite : Advance j s
              ((s.past par).done m (modeHelper net s.sign m s.chan (nextParam par).1).1 (nextParam par).1
                (writtenNick net (nextParam par).1))
              (memberCalls s.chan j [⟨s.sign, m, some (writtenNick net (nextParam par).1)⟩]) := by
            refine Advance.write hsame rfl hparam hblank rfl (Or.inr (Or.inr hm)) ?_
            simp only [Intmode.done]
            rw [show (s.past par).newparam = s.newparam from rfl, hparam]
            exact hroom.write hlength
          have hcalls : memberCalls s.chan j [⟨s.sign, m, some (writtenNick net (nextParam par).1)⟩] =
              noted j s m := by
            rw [hnoted, if_pos htrue, hnamed]
            by_cases hj : getchannelnick s.chan (nextParam par).1 = some j
            · simp [memberCalls, hm, hwho, hj]
            · simp [memberCalls, hwho, hj]
          rw [hcalls] at hwrite
          exact ⟨hwrite, hmode, fun hnone => hnone⟩
        · next hfalse =>
          -- The helper refuses: the word is used up and nothing is written.
          rw [if_neg hfalse] at hnoted
          refine ⟨?_, hmode, fun hnone => hnone⟩
          rw [hnoted]
          refine Advance.quiet hsame rfl rfl rfl ?_
          exact hroom.skip
      · -- Three changes were accepted already, so this one is passed over.
        have hnamed : named j s m = [] := by
          simp only [named, hp, hthree, false_and, and_false, if_false]
        rw [if_neg hthree]
        exact LetterSpec.past h hp hnamed

/-- One letter for a link. -/
theorem intmodeStep_spec (hnicks : ∀ c ∈ net.clients, c.nick.length < 64) (h : InLoop j S s) (m : Byte) :
    LetterSpec j S s (intmodeStep net s m) m := by
  by_cases hsign : m = PLUS ∨ m = MINUS
  · exact intmodeStep_sign h hsign
  by_cases hflag : m ∈ ascii "smitn"
  · exact intmodeStep_flag h hsign hflag
  by_cases hban : m = 98
  · rw [hban]
    exact intmodeStep_ban h
  by_cases hmember : m = 111 ∨ m = 118
  · exact intmodeStep_member hnicks h hmember
  by_cases hkey : m = 107
  · rw [hkey]
    exact intmodeStep_key h
  · have hstep : intmodeStep net s m = s := by
      rw [intmodeStep, if_neg hsign, if_neg hflag, if_neg hban, if_neg hmember, if_neg hkey]
    rw [hstep]
    exact LetterSpec.of_unnamed (named_other hmember)
      (Advance.quiet (SameMembers.refl s.chan) rfl rfl rfl h.room) h.mode h.synced

/-- One letter, for a link or for a local client. -/
theorem loopStep_spec (hnicks : ∀ c ∈ net.clients, c.nick.length < 64) (h : InLoop j S s)
    (client : Option Clientt) (m : Byte) : LetterSpec j S s (loopStep net client s m) m := by
  cases client with
  | none =>
      exact intmodeStep_spec hnicks h m
  | some client =>
      rw [loopStep]
      simp only [intmodeLocalStep]
      cases hp : s.p with
      | none =>
          exact intmodeStep_spec hnicks h m
      | some par =>
          simp only
          split
          · next hunknown =>
            split
            · exact intmodeStep_spec hnicks h m
            · -- nobody of that name is there to be changed
              have hnamed : named j s m = [] := by
                simp only [named, hp, hunknown.2.2]
                simp
              exact LetterSpec.past h hp hnamed
          · exact intmodeStep_spec hnicks h m

end Letter

end PsyBnc
