import PsyBnc.Intnet.ModeLoop
import PsyBnc.Intnet.ModeSigns
import PsyBnc.Lib.Run

/-!
# Operators and voices

`intmode` changes the modes of members twice: its helpers overwrite the mode of a member while the
letters are read, and `addchannelmode` then makes the changes that were noted again.  The first pass
forgets the voice of a new operator, and does not note the one that an operator is given.
-/

namespace PsyBnc

open CLib Function

/-! ## What is noted -/

section Noted

variable {S F : Byte → Bool} {notes : List ModeCall}

/-- The change does not harm the voice of a member with these modes, of whom `notes` were noted:
a voiced member is not made an operator, unless his voice was changed before in the same line, and a
`-v` that would be ignored does not follow a `+v`. -/
def Spares (notes : List ModeCall) (mode : CStr) (c : ModeCall) : Prop :=
  (c = ⟨true, 111⟩ → PLUS ∈ mode → lastChange notes 118 ≠ none) ∧
    (c = ⟨false, 118⟩ → PLUS ∉ mode → lastChange notes 118 ≠ some true)

instance Spares.decidable (notes : List ModeCall) (mode : CStr) (c : ModeCall) :
    Decidable (Spares notes mode c) := inferInstanceAs (Decidable (_ ∧ _))

/-- The modes `S` of the first pass and the changes that were noted agree with the modes `F` that were
asked for. -/
structure Accounted (S F : Byte → Bool) (notes : List ModeCall) : Prop where
  op : S 111 = F 111
  opNoted : (lastChange notes 111).getD (S 111) = F 111
  voice : (lastChange notes 118).getD (S 118) = F 118

/-- One change in the first pass. -/
theorem Accounted.step (h : Accounted S F notes) {sign m : Byte} (hm : m = 111 ∨ m = 118)
    (hspares : Spares notes (intMode S) ⟨decide (sign = PLUS), m⟩) :
    Accounted (firstPass sign m S) (update F m (decide (sign = PLUS)))
      (if helperDone sign m (intMode S) then notes ++ [⟨decide (sign = PLUS), m⟩] else notes) := by
  have hop := h.op
  have hopNoted := h.opNoted
  have hvoice := h.voice
  rw [firstPass, helperDone]
  simp only [at_mem_intMode, plus_mem_intMode]
  rw [Spares, plus_mem_intMode] at hspares
  by_cases hplus : sign = PLUS
  · rcases hm with rfl | rfl
    · -- a new operator: the voice stays only when it is noted
      have hkept : (lastChange notes 118).getD false = F 118 := by
        cases hlast : lastChange notes 118 with
        | some add =>
            rw [hlast] at hvoice
            exact hvoice
        | none =>
            rw [hlast] at hvoice
            cases hS : S 118 with
            | false =>
                rw [← hvoice, hS, Option.getD_none]
            | true =>
                exact absurd hlast (hspares.1 (by simp [hplus]) hS)
      refine ⟨?_, ?_, ?_⟩
      · simp [hplus]
      · simp [hplus, lastChange_append]
      · simpa [hplus, lastChange_append] using hkept
    · refine ⟨?_, ?_, ?_⟩
      · cases hS : S 111 with
        | false => simp [hplus, hS, ← hop]
        | true => simp [hplus, hS, ← hop]
      · cases hS : S 111 with
        | false => simpa [hplus, hS, lastChange_append] using hopNoted
        | true => simpa [hplus, hS, lastChange_append] using hopNoted
      · simp [hplus, lastChange_append]
  · rcases hm with rfl | rfl
    · refine ⟨?_, ?_, ?_⟩
      · simp [hplus]
      · cases hS : S 111 with
        | true => simp [hplus, lastChange_append]
        | false =>
            rw [hS] at hopNoted hop
            simpa [hplus, hS, ← hop] using hopNoted
      · cases hS : S 111 with
        | true => simpa [hplus, hS, lastChange_append] using hvoice
        | false => simpa [hplus, hS] using hvoice
    · refine ⟨?_, ?_, ?_⟩
      · simpa [hplus] using hop
      · -- A voice that is there and taken, or not there and given, is noted; anything else changes nothing.
        cases hS : S 118 with
        | true => simpa [hplus, hS, lastChange_append] using hopNoted
        | false => simpa [hplus, hS] using hopNoted
      · cases hS : S 118 with
        | true => simp [hplus, lastChange_append]
        | false =>
            -- the change is not noted
            have hno := hspares.2 (by simp [hplus]) (by simp [hS])
            cases hlast : lastChange notes 118 with
            | none => simp [hplus, hlast]
            | some add =>
                cases add with
                | false => simp [hplus, hlast]
                | true => exact absurd hlast hno

end Noted

/-! ## The loop -/

section Loop

variable {net : Intnet} {client : Option Clientt} {j : Nat} {S₀ : Byte → Bool}

/-- The change of a member that a letter asks for, with the sign that is written before it. -/
def asks (j : Nat) (s : Intmode) (sign m : Byte) : List ModeCall :=
  match s.p with
  | none => []
  | some par =>
      if (m = 111 ∨ m = 118) ∧ getchannelnick s.chan (nextParam par).1 = some j then
        [⟨decide (sign = PLUS), m⟩]
      else []

/-- The changes of a member that the letters ask for. -/
def asked (net : Intnet) (client : Option Clientt) (j : Nat) :
    Byte → Intmode → CStr → List ModeCall
  | _, _, [] => []
  | sign, s, m :: modes =>
      asks j s sign m ++
        asked net client j (if IsSign m then m else sign) (loopStep net client s m) modes

/-- No letter that names a member comes after three that were accepted, or harms the voice of the member,
of whom `notes` were noted. -/
def Harmless (net : Intnet) (client : Option Clientt) (j : Nat) :
    List ModeCall → Byte → Intmode → CStr → Prop
  | _, _, _, [] => True
  | notes, sign, s, m :: modes =>
      (∀ c ∈ asks j s sign m, s.aktbans < 3 ∧ Spares notes (membermode s.chan j) c) ∧
        Harmless net client j (notes ++ noted j s m) (if IsSign m then m else sign)
          (loopStep net client s m) modes

instance Harmless.decidable (net : Intnet) (client : Option Clientt) (j : Nat) :
    ∀ (notes : List ModeCall) (sign : Byte) (s : Intmode) (modes : CStr),
      Decidable (Harmless net client j notes sign s modes)
  | _, _, _, [] => isTrue trivial
  | notes, sign, s, m :: modes =>
      have : Decidable (Harmless net client j (notes ++ noted j s m) (if IsSign m then m else sign)
          (loopStep net client s m) modes) :=
        Harmless.decidable net client j _ _ _ modes
      inferInstanceAs (Decidable (_ ∧ _))

/-- What is asked for is what the loop reads, as long as the sign is the one that is written, and less than
three letters were accepted. -/
theorem named_of_asks {s : Intmode} {sign m : Byte} {modes : CStr} (h : Awaits s sign (m :: modes))
    (hlimit : ∀ c ∈ asks j s sign m, s.aktbans < 3) : named j s m = asks j s sign m := by
  rw [named]
  rw [asks] at hlimit ⊢
  cases hp : s.p with
  | none => rfl
  | some par =>
      simp only [hp] at hlimit ⊢
      by_cases hname : (m = 111 ∨ m = 118) ∧ getchannelnick s.chan (nextParam par).1 = some j
      · have hletter : ¬ IsSign m := by
          rcases hname.1 with rfl | rfl
          · decide
          · decide
        rw [if_pos hname] at hlimit ⊢
        have hthree := hlimit _ (List.mem_singleton_self _)
        rw [if_pos ⟨hname.1, hthree, hname.2⟩, h.letter hletter]
      · rw [if_neg hname, if_neg fun hall => hname ⟨hall.1, hall.2.2⟩]

/-- The loop has come to `s`, where `ms` were asked for and `notes` noted. -/
structure OnTrack (chan₀ : Uchannelt) (j : Nat) (S₀ : Byte → Bool) (s : Intmode)
    (ms notes : List ModeCall) : Prop where
  same : SameMembers chan₀ s.chan
  loop : ∃ S, InLoop j S s ∧ Accounted S (grantedBy S₀ ms) notes
  text : ∃ cs, ReadsAs intGrammar s.newmode PLUS cs s.sign ∧
    s.newparam = spacedOut (cs.filterMap Change.par) ∧
    (∀ w ∈ cs.filterMap Change.par, SP ∉ w) ∧ memberCalls chan₀ j cs = notes

/-- A member is named at most once by a letter. -/
theorem named_cases (j : Nat) (s : Intmode) (m : Byte) :
    named j s m = [] ∨
      ((m = 111 ∨ m = 118) ∧ named j s m = [⟨decide (s.sign = PLUS), m⟩]) := by
  rw [named]
  split
  · exact Or.inl rfl
  · split
    · next h => exact Or.inr ⟨h.1, rfl⟩
    · exact Or.inl rfl

theorem OnTrack.step (hnicks : ∀ c ∈ net.clients, c.nick.length < 64) {chan₀ : Uchannelt}
    {s : Intmode} {ms notes : List ModeCall} (h : OnTrack chan₀ j S₀ s ms notes) {m : Byte}
    (hspares : ∀ c ∈ named j s m, Spares notes (membermode s.chan j) c) :
    OnTrack chan₀ j S₀ (loopStep net client s m) (ms ++ named j s m) (notes ++ noted j s m) ∧
      (loopStep net client s m).newmode.length ≤ s.newmode.length + 1 := by
  rcases h.loop with ⟨S, hloop, haccount⟩
  rcases loopStep_spec hnicks hloop client m with ⟨⟨hsame, htext, hroom⟩, hmode, hsynced⟩
  rcases htext with ⟨letters, ds, hmodes, hlength, hread, hparam, hblank, hcalls⟩
  rcases h.text with ⟨cs, hread₀, hparam₀, hblank₀, hcalls₀⟩
  have hgrammar := hsame.grammar.trans hloop.grammar
  constructor
  · refine ⟨h.same.trans hsame, ?_, cs ++ ds, ?_, ?_, ?_, ?_⟩
    · refine ⟨_, ⟨hgrammar, hmode, hroom, hsynced⟩, ?_⟩
      rw [grantedBy_append]
      rcases named_cases j s m with hnone | ⟨hm, hone⟩
      · rw [noted_of_named hnone, hnone, if_pos rfl, List.append_nil]
        exact haccount
      · have hmember := membermode_eq hloop.mode
        have hone' : Spares notes (intMode S) ⟨decide (s.sign = PLUS), m⟩ := by
          rw [← hmember]
          exact hspares _ (by rw [hone]; exact List.mem_singleton_self _)
        have hstep := haccount.step hm hone'
        rw [noted, hmember, hone, if_neg (List.cons_ne_nil _ _)]
        by_cases hdone : helperDone s.sign m (intMode S) = true
        · rw [if_pos hdone] at hstep ⊢
          exact hstep
        · rw [if_neg hdone] at hstep
          rw [if_neg hdone, List.append_nil]
          exact hstep
    · rw [hmodes]
      exact hread₀.append hread
    · rw [hparam, hparam₀, List.filterMap_append, spacedOut, spacedOut, spacedOut,
        List.flatMap_append]
    · intro w hw
      rw [List.filterMap_append] at hw
      rcases List.mem_append.1 hw with hw | hw
      · exact hblank₀ w hw
      · exact hblank w hw
    · rw [← hcalls, ← hcalls₀, memberCalls_congr h.same, memberCalls, memberCalls, memberCalls,
        List.filterMap_append]
  · rw [hmodes, List.length_append]
    exact Nat.add_le_add_left hlength _

/-- The whole loop. -/
theorem OnTrack.loopAll (hnicks : ∀ c ∈ net.clients, c.nick.length < 64) {chan₀ : Uchannelt}
    {modes : CStr} : ∀ {sign : Byte} {s : Intmode} {ms notes : List ModeCall},
      OnTrack chan₀ j S₀ s ms notes → Awaits s sign modes → SignsTaken net client s modes →
      Harmless net client j notes sign s modes →
      ∃ notes', OnTrack chan₀ j S₀ (modes.foldl (loopStep net client) s)
        (ms ++ asked net client j sign s modes) notes' ∧
        (modes.foldl (loopStep net client) s).newmode.length ≤ s.newmode.length + modes.length := by
  induction modes with
  | nil =>
      intro sign s ms notes h _ _ _
      refine ⟨notes, ?_, le_refl _⟩
      rw [asked, List.append_nil]
      exact h
  | cons m modes ih =>
      intro sign s ms notes h hwait htaken hharm
      have hnamed : named j s m = asks j s sign m := named_of_asks hwait fun c hc => (hharm.1 c hc).1
      have hspares : ∀ c ∈ named j s m, Spares notes (membermode s.chan j) c := by
        intro c hc
        rw [hnamed] at hc
        exact (hharm.1 c hc).2
      have hnext : OnTrack chan₀ j S₀ (loopStep net client s m) _ _ ∧ _ := h.step hnicks hspares
      rcases hnext with ⟨hstep, hlength⟩
      rcases hwait.step htaken with ⟨hwait', htaken'⟩
      rcases ih hstep hwait' htaken' hharm.2 with ⟨notes', hend, hall⟩
      refine ⟨notes', ?_, ?_⟩
      · rw [asked, ← List.append_assoc, ← hnamed]
        exact hend
      · rw [List.foldl_cons, List.length_cons]
        omega

/-- What `addchannelmode` makes of the changes that were noted. -/
theorem OnTrack.replay {chan₀ : Uchannelt} {s : Intmode} {ms notes : List ModeCall}
    (h : OnTrack chan₀ j S₀ s ms notes) (hempty : getchannelnick chan₀ [] ≠ some j)
    (hlength : s.newmode.length < 200) :
    SameMembers chan₀ (addchannelmode s.chan s.newmode (rtrim s.newparam)).1 ∧
      (addchannelmode s.chan s.newmode (rtrim s.newparam)).1.modeAt j =
        some (intMode (grantedBy S₀ ms)) := by
  rcases h.loop with ⟨S, hloop, haccount⟩
  rcases h.text with ⟨cs, hread, hparam, hblank, hcalls⟩
  -- The noted words fit, and reading them again gives the changes back as far as they have words.
  have hroom : s.newparam.length ≤ 398 := by
    have hroom := hloop.room
    cases hp : s.p with
    | none =>
        rw [hp] at hroom
        exact hroom
    | some par =>
        rw [hp] at hroom
        simp only [Room] at hroom
        omega
  have htrim : Trimmed (some (rtrim s.newparam)) (cs.filterMap Change.par) := by
    rw [hparam] at hroom ⊢
    exact trimmed_rtrim (by omega)
  rcases hread.read hblank htrim with ⟨n, hchanges, hdropped⟩
  -- the changes that are cut off name nobody
  have hnotes : memberCalls s.chan j (cs.take n) = notes := by
    have hnone : memberCalls chan₀ j (cs.drop n) = [] := by
      apply List.filterMap_eq_nil_iff.2
      intro c hc
      apply if_neg
      rintro ⟨_, hwho⟩
      rcases Option.bind_eq_some_iff.1 hwho with ⟨w, hw, hj⟩
      rw [hdropped c hc w hw] at hj
      exact hempty hj
    rw [memberCalls_congr h.same, ← hcalls, ← List.append_nil (memberCalls chan₀ j (cs.take n)),
      ← hnone]
    simp only [memberCalls]
    rw [← List.filterMap_append, List.take_append_drop]
  have hshort : (rtrim s.newparam).length < 4096 := by
    rcases rtrim_spec (p := s.newparam) (by omega) with ⟨k, hk⟩
    have hsum := congrArg List.length hk
    rw [List.length_append] at hsum
    omega
  have hmade : (addchannelmode s.chan s.newmode (rtrim s.newparam)).1 =
      ordermodes (applyChanges s.chan (cs.take n)).1 := by
    rw [addchannelmode, clip_eq_self hlength, clip_eq_self hshort,
      modeLoop_eq s.newmode PLUS _ s.chan hloop.grammar, hchanges]
  have hpars : ∀ c ∈ cs.take n, c.md = 111 ∨ c.md = 118 → c.par.isSome = true := by
    intro c hc hmd
    rw [← hchanges] at hc
    rw [(readChanges_read (Or.inl rfl) c hc).2.2]
    rcases hmd with hmd | hmd
    · rw [hmd]
      rfl
    · rw [hmd]
      rfl
  -- For the member they are a run of changes, and putting the modes in order leaves him alone.
  rcases applyChanges_member hloop.grammar hloop.mode hpars with ⟨hsame, hmode⟩
  have horder : SameMembers (applyChanges s.chan (cs.take n)).1
      (ordermodes (applyChanges s.chan (cs.take n)).1) := ⟨rfl, fun _ => rfl⟩
  rw [hmade]
  refine ⟨(h.same.trans hsame).trans horder, ?_⟩
  have hkeep : (ordermodes (applyChanges s.chan (cs.take n)).1).modeAt j =
      (applyChanges s.chan (cs.take n)).1.modeAt j := rfl
  rw [hkeep, hmode, hnotes]
  apply congrArg some
  apply intMode_congr
  · rw [grantedBy_eq S, haccount.opNoted]
  · rw [grantedBy_eq S, haccount.voice]

/-- One call of `intmode`, on a member with the modes `S₀`. -/
theorem effectOf_member (hnicks : ∀ c ∈ net.clients, c.nick.length < 64) {chan : Uchannelt}
    (hg : chan.grammar = intGrammar) (hmode : chan.modeAt j = some (intMode S₀))
    (hempty : getchannelnick chan [] ≠ some j) {modes params : CStr} (hmodes : modes.length < 200)
    (hparams : params.length ≤ 397)
    (htaken : SignsTaken net client { chan := chan, p := modeParams params } modes)
    (hharm : Harmless net client j [] PLUS { chan := chan, p := modeParams params } modes) :
    SameMembers chan (effectOf net client chan modes params) ∧
      (effectOf net client chan modes params).modeAt j =
        some (intMode (grantedBy S₀
          (asked net client j PLUS { chan := chan, p := modeParams params } modes))) := by
  have hroom : Room [] (modeParams params) := by
    rw [modeParams]
    split
    · exact Nat.zero_le _
    · rcases rtrim_spec (p := params) (by omega) with ⟨k, hk⟩
      have hsum := congrArg List.length hk
      rw [List.length_append] at hsum
      simp only [Room, List.length_nil]
      omega
  have hstart : OnTrack chan j S₀ { chan := chan, p := modeParams params } [] [] := by
    refine ⟨SameMembers.refl chan, ⟨S₀, ⟨hg, hmode, hroom, fun _ => rfl⟩, rfl, rfl, rfl⟩, [], ?_⟩
    exact ⟨ReadsAs.nil PLUS, rfl, by simp, rfl⟩
  rcases OnTrack.loopAll hnicks hstart (Or.inl rfl) htaken hharm with ⟨notes, hend, hlength⟩
  rw [List.nil_append] at hend
  rw [effectOf]
  split
  · next hnothing =>
    -- nothing is left to be made again
    rcases hend.loop with ⟨S, hloop, haccount⟩
    rcases hend.text with ⟨cs, hread, _, _, hcalls⟩
    have hnotes : notes = [] := by
      rw [← hcalls, hread.nil_of_empty hnothing]
      rfl
    refine ⟨hend.same, ?_⟩
    rw [hloop.mode]
    apply congrArg some
    apply intMode_congr
    · exact haccount.op
    · have hvoice := haccount.voice
      rw [hnotes] at hvoice
      exact hvoice
  · apply hend.replay hempty
    exact lt_of_le_of_lt hlength (by simpa using hmodes)

end Loop

/-! ## Lines -/

/-- A call of `intmode`: for a local client, or for a link. -/
structure ModeLine where
  client : Option Clientt
  ircfrom : CStr
  name : CStr
  modes : CStr
  params : CStr
  link : Nat

def ModeLine.run (net : Intnet) (l : ModeLine) : Intnet :=
  match l.client with
  | none => (intmode net l.ircfrom l.name l.modes l.params l.link).1
  | some client => (intmodeLocal net client l.name l.modes l.params).1

/-- The variables that the loop starts with. -/
def ModeLine.start (l : ModeLine) (chan : Uchannelt) : Intmode :=
  { chan := chan, p := modeParams l.params }

/-- The changes that a line asks for, of the member `j` of the channel `k`. -/
def ModeLine.changes (net : Intnet) (k j : Nat) (l : ModeLine) : List ModeCall :=
  if getuserchannel net.intchan l.name = some k then
    match net.intchan[k]? with
    | none => []
    | some chan => asked net l.client j PLUS (l.start chan) l.modes
  else []

/-- A line whose parameters fit into `newparam`, whose signs are all taken, which names the member among
its first letters, and that does not harm his voice. -/
def ModeLine.Gentle (k j : Nat) (net : Intnet) (l : ModeLine) : Prop :=
  l.params.length ≤ 397 ∧
    (getuserchannel net.intchan l.name = some k →
      ∀ chan ∈ net.intchan[k]?, SignsTaken net l.client (l.start chan) l.modes ∧
        Harmless net l.client j [] PLUS (l.start chan) l.modes)

instance ModeLine.Gentle.decidable (k j : Nat) (net : Intnet) (l : ModeLine) :
    Decidable (l.Gentle k j net) := inferInstanceAs (Decidable (_ ∧ _))

/-- The changes that are asked for line by line. -/
def allChanges (k j : Nat) : Intnet → List ModeLine → List ModeCall
  | _, [] => []
  | net, l :: ls => l.changes net k j ++ allChanges k j (l.run net) ls

section Lines

variable {net : Intnet} {k j : Nat} {S : Byte → Bool} {l : ModeLine}

theorem run_unknown (h : getuserchannel net.intchan l.name = none) : l.run net = net := by
  rw [ModeLine.run]
  cases l.client with
  | none =>
      exact intmode_unknown h
  | some client =>
      simp only [intmodeLocal, h]

theorem run_known {chan : Uchannelt} {i : Nat} (h : getuserchannel net.intchan l.name = some i)
    (hi : net.intchan[i]? = some chan) :
    l.run net =
      { net with intchan := net.intchan.modify i fun _ =>
          effectOf net l.client chan l.modes l.params } := by
  rw [ModeLine.run]
  cases l.client with
  | none =>
      exact intmode_known h hi
  | some client =>
      exact intmodeLocal_known h hi

/-- The member `j` of the channel `k` has the modes `S`. -/
structure HasModes (k j : Nat) (net : Intnet) (S : Byte → Bool) : Prop where
  nicks : ∀ c ∈ net.clients, c.nick.length < 64
  chan : ∃ chan, net.intchan[k]? = some chan ∧ chan.grammar = intGrammar ∧
    getchannelnick chan [] ≠ some j ∧ chan.modeAt j = some (intMode S)

/-- One line. -/
theorem HasModes.step (h : HasModes k j net S) (hmodes : l.modes.length < 200)
    (hgentle : l.Gentle k j net) :
    HasModes k j (l.run net) (grantedBy S (l.changes net k j)) := by
  rcases h with ⟨hnicks, chan, hk, hg, hempty, hmode⟩
  rw [ModeLine.changes]
  cases hname : getuserchannel net.intchan l.name with
  | none =>
      rw [run_unknown hname, if_neg (by simp)]
      exact ⟨hnicks, chan, hk, hg, hempty, hmode⟩
  | some i =>
      have hi : i < net.intchan.length := by
        rw [getuserchannel] at hname
        exact (List.findIdx?_eq_some_iff_getElem.1 hname).1
      rw [run_known hname (List.getElem?_eq_getElem hi)]
      by_cases hik : i = k
      · subst hik
        rcases hgentle.2 hname chan hk with ⟨htaken, hharm⟩
        have hchan : net.intchan[i] = chan := by
          rw [List.getElem?_eq_getElem hi] at hk
          exact Option.some.inj hk
        rcases effectOf_member hnicks hg hmode hempty hmodes hgentle.1 htaken hharm with ⟨hsame, hset⟩
        rw [if_pos rfl, hk, hchan]
        refine ⟨hnicks, effectOf net l.client chan l.modes l.params, ?_, ?_, ?_, hset⟩
        · rw [List.getElem?_modify_eq, hk]
          rfl
        · exact hsame.grammar.trans hg
        · rw [hsame.nicks]
          exact hempty
      · rw [if_neg fun heq => hik (Option.some.inj heq)]
        refine ⟨hnicks, chan, ?_, hg, hempty, hmode⟩
        rw [List.getElem?_modify, hk]
        simp [hik]

/-- A run of lines. -/
theorem HasModes.runAll {ls : List ModeLine} (h : HasModes k j net S)
    (hmodes : ∀ l ∈ ls, l.modes.length < 200)
    (hgentle : StepsMeet (fun net l => some (ModeLine.run net l)) (ModeLine.Gentle k j) net ls) :
    HasModes k j (ls.foldl ModeLine.run net) (grantedBy S (allChanges k j net ls)) := by
  induction ls generalizing net S with
  | nil =>
      exact h
  | cons l ls ih =>
      have hstep := h.step (hmodes l List.mem_cons_self) hgentle.1
      rw [allChanges, grantedBy_append, List.foldl_cons]
      exact ih hstep (fun l' hl' => hmodes l' (List.mem_cons_of_mem _ hl')) (hgentle.2 _ rfl)

end Lines

/-- The mode of the member `j` of the channel `k`. -/
def memberMode (net : Intnet) (k j : Nat) : Option CStr := (net.intchan[k]?).bind fun chan => chan.modeAt j

/-- After lines that spare his voice, a member is operator, and is voiced, as the last change that
names him says. -/
theorem op_voice_last (net : Intnet) (hnicks : ∀ c ∈ net.clients, c.nick.length < 64) (k j : Nat)
    (chan : Uchannelt) (hk : net.intchan[k]? = some chan) (hchan : chan.grammar = intGrammar)
    (hnick : getchannelnick chan [] ≠ some j) (mode : CStr) (hmode : chan.modeAt j = some mode)
    (hstart : mode ∈ [[], [AT], [PLUS], [AT, PLUS]]) (ls : List ModeLine)
    (hls : ∀ l ∈ ls, l.modes.length < 200)
    (hgentle : StepsMeet (fun net l => some (ModeLine.run net l)) (ModeLine.Gentle k j) net ls) :
    ∃ mode', memberMode (ls.foldl ModeLine.run net) k j = some mode' ∧
      (AT ∈ mode' ↔
        (lastChange (allChanges k j net ls) 111).getD (decide (AT ∈ mode)) = true) ∧
      (PLUS ∈ mode' ↔
        (lastChange (allChanges k j net ls) 118).getD (decide (PLUS ∈ mode)) = true) := by
  -- the modes he starts with
  have hset : mode = intMode fun md => if md = 111 then decide (AT ∈ mode) else decide (PLUS ∈ mode) := by
    simp only [List.mem_cons, List.not_mem_nil, or_false] at hstart
    rcases hstart with rfl | rfl | rfl | rfl
    · decide
    · decide
    · decide
    · decide
  have hbegin : HasModes k j net
      (fun md => if md = 111 then decide (AT ∈ mode) else decide (PLUS ∈ mode)) := by
    refine ⟨hnicks, chan, hk, hchan, hnick, ?_⟩
    rw [hmode]
    exact congrArg some hset
  rcases (hbegin.runAll hls hgentle).chan with ⟨chan', hk', _, _, hmode'⟩
  rw [memberMode, hk', Option.bind_some, hmode']
  refine ⟨_, rfl, ?_, ?_⟩
  · rw [at_mem_intMode, grantedBy_eq]
    rfl
  · rw [plus_mem_intMode, grantedBy_eq]
    rfl

/-- A channel of the internal network with one member. -/
def channelOf (mode : CStr) : Intnet :=
  { me := ascii "me", intchan := [{ newchannel (-1) (ascii "ov") (ascii "@+") (ascii "b,k,l,imnpst")
      (ascii "#a") with users := [{ nick := ascii "bob", mode := mode }] }] }

def memberLine (modes params : String) : ModeLine :=
  { client := none, ircfrom := ascii "al", name := ascii "#a", modes := ascii modes,
    params := ascii params, link := 1 }

/-- A member is given a voice, made an operator and no longer one: the voice is gone. -/
theorem op_voice_lost :
    let net := channelOf []
    let ls := [memberLine "+v" "bob", memberLine "+o" "bob", memberLine "-o" "bob"]
    memberMode (ls.foldl ModeLine.run net) 0 0 = some [] ∧
      allChanges 0 0 net ls = [⟨true, 118⟩, ⟨true, 111⟩, ⟨false, 111⟩] ∧
      lastChange (allChanges 0 0 net ls) 118 = some true := by
  decide +kernel

/-- The `+` behind a `-v` that was not accepted is ignored: `+o` is asked for, and not given. -/
example : allChanges 0 0 (channelOf []) [memberLine "-v+o" "bob bob"] = [⟨false, 118⟩, ⟨true, 111⟩] ∧
    memberMode ((memberLine "-v+o" "bob bob").run (channelOf [])) 0 0 = some [] := by
  decide +kernel

/-- An operator who is given a voice, and then is no longer one. -/
theorem op_voice_last_kept :
    ∃ mode', memberMode ([memberLine "+o" "bob", memberLine "+v-o" "bob bob"].foldl ModeLine.run
        (channelOf [])) 0 0 = some mode' ∧
      (AT ∈ mode' ↔ (lastChange (allChanges 0 0 (channelOf [])
        [memberLine "+o" "bob", memberLine "+v-o" "bob bob"]) 111).getD
          (decide (AT ∈ ([] : CStr))) = true) ∧
      (PLUS ∈ mode' ↔ (lastChange (allChanges 0 0 (channelOf [])
        [memberLine "+o" "bob", memberLine "+v-o" "bob bob"]) 118).getD
          (decide (PLUS ∈ ([] : CStr))) = true) := by
  apply op_voice_last (channelOf []) (by simp [channelOf]) 0 0 _ rfl (by decide) (by decide) [] rfl
    (by decide)
  · decide
  · decide +kernel

end PsyBnc
