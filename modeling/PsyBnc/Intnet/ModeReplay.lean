import PsyBnc.Intnet.ModeLocal
import PsyBnc.UChannel.Grammar
import PsyBnc.UChannel.MemberModes

/-!
# Changes that are made again

`intmode` writes the accepted letters and their parameters into `newmode` and `newparam`, from which
`addchannelmode` reads them: it finds the same changes, apart from empty parameters at the end, which
`rtrim` cuts off.
-/

namespace PsyBnc

open CLib Function

/-- The announcement of the internal channels. -/
def intGrammar : ModeGrammar := ⟨ascii "ov", ascii "@+", ascii "b,k,l,imnpst"⟩

/-- The ranks of operator and voice. -/
def intPrefixes : List (Byte × Byte) := [(111, AT), (118, PLUS)]

theorem ranking_intPrefixes : Ranking intPrefixes := ⟨by decide, by decide⟩

/-- A member's modes as a string. -/
def intMode (S : Byte → Bool) : CStr := ranked intPrefixes S

theorem at_mem_intMode {S : Byte → Bool} : AT ∈ intMode S ↔ S 111 = true :=
  ranking_intPrefixes.mem_ranked (by decide)

theorem plus_mem_intMode {S : Byte → Bool} : PLUS ∈ intMode S ↔ S 118 = true :=
  ranking_intPrefixes.mem_ranked (by decide)

theorem intMode_eq (S : Byte → Bool) :
    intMode S = (if S 111 = true then [AT] else []) ++ if S 118 = true then [PLUS] else [] := by
  rw [intMode, ranked, intPrefixes]
  cases hop : S 111 with
  | false =>
      cases hvoice : S 118 with
      | false => simp [hop, hvoice]
      | true => simp [hop, hvoice]
  | true =>
      cases hvoice : S 118 with
      | false => simp [hop, hvoice]
      | true => simp [hop, hvoice]

/-- Only operator and voice matter. -/
theorem intMode_congr {S T : Byte → Bool} (hop : S 111 = T 111) (hvoice : S 118 = T 118) :
    intMode S = intMode T := by
  rw [intMode_eq, intMode_eq, hop, hvoice]

/-! ## What is read -/

/-- A mode string, from one sign to another, stands for a list of changes. -/
inductive ReadsAs (g : ModeGrammar) : CStr → Byte → List Change → Byte → Prop where
  | nil (sign : Byte) : ReadsAs g [] sign [] sign
  | sign {m sign sign' : Byte} {mode : CStr} {cs : List Change} (hm : m = PLUS ∨ m = MINUS) :
      ReadsAs g mode m cs sign' → ReadsAs g (m :: mode) sign cs sign'
  | change {m sign sign' : Byte} {mode : CStr} {par : Option CStr} {cs : List Change}
      (hm : ¬ (m = PLUS ∨ m = MINUS)) (hknown : m ∈ g.prefixmodes ∨ m ∈ g.chanmodes)
      (hpar : par.isSome = codeTakes g m sign) :
      ReadsAs g mode sign cs sign' → ReadsAs g (m :: mode) sign (⟨sign, m, par⟩ :: cs) sign'

theorem ReadsAs.append {g : ModeGrammar} {one two : CStr} {a b c : Byte} {cs ds : List Change}
    (h₁ : ReadsAs g one a cs b) (h₂ : ReadsAs g two b ds c) :
    ReadsAs g (one ++ two) a (cs ++ ds) c := by
  induction h₁ with
  | nil sign =>
      exact h₂
  | sign hm _ ih =>
      exact ReadsAs.sign hm (ih h₂)
  | change hm hknown hpar _ ih =>
      exact ReadsAs.change hm hknown hpar (ih h₂)

theorem ReadsAs.nil_of_empty {g : ModeGrammar} {mode : CStr} {a b : Byte} {cs : List Change}
    (h : ReadsAs g mode a cs b) (hmode : mode = [] ∨ mode = [PLUS] ∨ mode = [MINUS]) : cs = [] := by
  cases h with
  | nil sign =>
      rfl
  | sign hm hrest =>
      cases hrest with
      | nil sign => rfl
      | sign _ _ => simp at hmode
      | change _ _ _ _ => simp at hmode
  | change hm _ _ _ =>
      rcases hmode with hnil | hone | hone
      · cases hnil
      · exact absurd (Or.inl (List.cons.inj hone).1) hm
      · exact absurd (Or.inr (List.cons.inj hone).1) hm

/-- The parameters with a blank behind each of them. -/
def spacedOut (ws : List CStr) : CStr := ws.flatMap fun w => w ++ [SP]

/-- What is left to read: the parameters, without blanks at the end. -/
def Trimmed (par : Option CStr) (ws : List CStr) : Prop :=
  match par with
  | none => ∀ w ∈ ws, w = []
  | some p => ws = [] ∨ ∃ n, p ++ List.replicate n SP = spacedOut ws

/-- Only empty parameters consist of blanks alone. -/
theorem eq_nil_of_spacedOut {ws : List CStr} (hws : ∀ w ∈ ws, SP ∉ w) {n : Nat}
    (h : List.replicate n SP = spacedOut ws) : ∀ w ∈ ws, w = [] := by
  intro w hw
  apply List.eq_nil_iff_forall_not_mem.2
  intro b hb
  have hmem : b ∈ spacedOut ws := List.mem_flatMap.2 ⟨w, hw, List.mem_append_left _ hb⟩
  rw [← h] at hmem
  rw [List.eq_of_mem_replicate hmem] at hb
  exact hws w hw hb

theorem Trimmed.next {w : CStr} {ws : List CStr} (hws : ∀ v ∈ w :: ws, SP ∉ v) {p : CStr}
    (h : Trimmed (some p) (w :: ws)) :
    (nextParam p).1 = w ∧ Trimmed (nextParam p).2 ws := by
  rcases h with hnil | ⟨n, hn⟩
  · cases hnil
  have hw : SP ∉ w := hws w List.mem_cons_self
  have hrest : ∀ v ∈ ws, SP ∉ v := fun v hv => hws v (List.mem_cons_of_mem _ hv)
  have hline : p ++ List.replicate n SP = w ++ SP :: spacedOut ws := by
    rw [hn, spacedOut, List.flatMap_cons, List.append_assoc, ← spacedOut]
    rfl
  rw [nextParam]
  rcases cut_cases SP p with ⟨hnot, hcut⟩ | ⟨u, v, hp, hu, hcut⟩
  · rw [hcut]
    have hcutLine := cutAt_append (v := spacedOut ws) hw
    rw [← hline] at hcutLine
    cases n with
    | zero =>
        rw [List.replicate_zero, List.append_nil, cutAt_eq_none.2 hnot] at hcutLine
        cases hcutLine
    | succ n =>
        rw [List.replicate_succ, cutAt_append hnot, Option.some.injEq, Prod.mk.injEq] at hcutLine
        exact ⟨hcutLine.1, eq_nil_of_spacedOut hrest hcutLine.2⟩
  · rw [hcut]
    have hcutLine := cutAt_append (v := spacedOut ws) hw
    rw [← hline, hp, List.append_assoc, List.cons_append, cutAt_append hu, Option.some.injEq,
      Prod.mk.injEq] at hcutLine
    rcases hcutLine with ⟨rfl, hv⟩
    refine ⟨rfl, ?_⟩
    by_cases hnil : v = []
    · rw [hnil, List.nil_append] at hv
      simp only [if_pos hnil]
      exact eq_nil_of_spacedOut hrest hv
    · simp only [if_neg hnil]
      exact Or.inr ⟨n, hv⟩

/-- The changes are read again, up to some at the end whose parameters are empty. -/
theorem ReadsAs.read {g : ModeGrammar} {mode : CStr} {a b : Byte} {cs : List Change}
    (h : ReadsAs g mode a cs b) (hcs : ∀ w ∈ cs.filterMap Change.par, SP ∉ w) {par : Option CStr}
    (hpar : Trimmed par (cs.filterMap Change.par)) :
    ∃ n, readChanges g (codeTakes g) mode a par = cs.take n ∧
      ∀ c ∈ cs.drop n, ∀ w ∈ c.par, w = [] := by
  induction h generalizing par with
  | nil sign =>
      exact ⟨0, rfl, by simp⟩
  | sign hm hrest ih =>
      simp only [readChanges, if_pos hm]
      exact ih hcs hpar
  | @change m sign sign' mode word cs hm hknown htakes hrest ih =>
      simp only [readChanges, if_neg hm, if_pos hknown]
      cases word with
      | none =>
          have hno : ¬ codeTakes g m sign = true := by
            rw [← htakes]
            simp
          rcases ih hcs hpar with ⟨n, hread, hempty⟩
          rw [if_neg hno, hread]
          exact ⟨n + 1, rfl, hempty⟩
      | some w =>
          have hyes : codeTakes g m sign = true := htakes.symm.trans rfl
          rw [if_pos hyes]
          cases par with
          | none =>
              refine ⟨0, rfl, ?_⟩
              intro c hc v hv
              exact hpar v (List.mem_filterMap.2 ⟨c, hc, hv⟩)
          | some p =>
              rcases Trimmed.next hcs hpar with ⟨hword, hleft⟩
              have hcs' : ∀ v ∈ cs.filterMap Change.par, SP ∉ v :=
                fun v hv => hcs v (List.mem_cons_of_mem _ hv)
              rcases ih hcs' hleft with ⟨n, hread, hempty⟩
              simp only [hword, hread]
              exact ⟨n + 1, rfl, hempty⟩

/-- `rtrim` of a short text. -/
theorem rtrim_spec {p : CStr} (h : p.length ≤ 4095) :
    ∃ n, rtrim p ++ List.replicate n SP = p := by
  rw [rtrim, if_pos h]
  refine ⟨(p.rtakeWhile fun b => b == SP).length, ?_⟩
  have hblank : p.rtakeWhile (fun b => b == SP) =
      List.replicate (p.rtakeWhile fun b => b == SP).length SP := by
    apply List.eq_replicate_of_mem
    intro b hb
    simpa using List.mem_rtakeWhile_imp hb
  rw [← hblank]
  exact List.rdropWhile_append_rtakeWhile

theorem trimmed_rtrim {ws : List CStr} (h : (spacedOut ws).length ≤ 4095) :
    Trimmed (some (rtrim (spacedOut ws))) ws := Or.inr (rtrim_spec h)

/-! ## What is changed -/

section Replay

variable {lkm : Uchannelt} {j : Nat} {S : Byte → Bool}

/-- Only the modes of members, and what is no member's, are changed. -/
structure SameMembers (chan chan' : Uchannelt) : Prop where
  grammar : chan'.grammar = chan.grammar
  nicks : ∀ nick, getchannelnick chan' nick = getchannelnick chan nick

theorem SameMembers.refl (chan : Uchannelt) : SameMembers chan chan := ⟨rfl, fun _ => rfl⟩

theorem SameMembers.trans {a b c : Uchannelt} (h : SameMembers a b) (h' : SameMembers b c) :
    SameMembers a c := ⟨h'.grammar.trans h.grammar, fun nick => (h'.nicks nick).trans (h.nicks nick)⟩

theorem sameMembers_of_users {chan chan' : Uchannelt}
    (h : chan'.users = chan.users ∧ chan'.grammar = chan.grammar) :
    SameMembers chan chan' ∧ ∀ j, chan'.modeAt j = chan.modeAt j := by
  refine ⟨⟨h.2, fun nick => ?_⟩, fun j => ?_⟩
  · rw [getchannelnick, getchannelnick, h.1]
  · rw [Uchannelt.modeAt, Uchannelt.modeAt, h.1]

/-- A mode of the member `k` is changed. -/
theorem modify_mode_spec (chan : Uchannelt) (k : Nat) (f : CStr → CStr) :
    SameMembers chan { chan with users := chan.users.modify k fun chanuser =>
      { chanuser with mode := f chanuser.mode } } ∧
      ∀ j, Uchannelt.modeAt { chan with users := chan.users.modify k fun chanuser =>
        { chanuser with mode := f chanuser.mode } } j =
          if k = j then (chan.modeAt j).map f else chan.modeAt j := by
  refine ⟨⟨rfl, fun nick => getchannelnick_modify_mode chan nick k f⟩, fun j => ?_⟩
  by_cases hj : k = j
  · subst hj
    rw [if_pos rfl]
    exact modeAt_modify chan k f
  · rw [if_neg hj]
    simp only [Uchannelt.modeAt, List.getElem?_modify, if_neg hj]
    cases chan.users[j]? with
    | none => rfl
    | some chanuser => rfl

/-- The changes of the modes of a member. -/
def memberCalls (lkm : Uchannelt) (j : Nat) (cs : List Change) : List ModeCall :=
  cs.filterMap fun c =>
    if (c.md = 111 ∨ c.md = 118) ∧ c.par.bind (getchannelnick lkm) = some j then
      some ⟨decide (c.sign = PLUS), c.md⟩
    else none

theorem users_setMode (lkm : Uchannelt) (md sign : Byte) : (setMode lkm md sign).users = lkm.users := by
  unfold setMode addmodetochannel deletemodefromchannel
  repeat' split
  all_goals rfl

theorem users_paramMode (lkm : Uchannelt) (md sign : Byte) (par : CStr) :
    (paramMode lkm md sign par).1.users = lkm.users := by
  unfold paramMode deletemodefromchannel
  repeat' split
  all_goals rfl

/-- A change that is no member's. -/
theorem users_applyChange {c : Change} (hmd : c.md ∉ lkm.prefixmodes) :
    (applyChange lkm c).1.users = lkm.users := by
  rw [applyChange]
  cases c.par with
  | none =>
      simp only
      split
      · exact users_setMode lkm _ _
      · exact users_setMode lkm _ _
  | some par =>
      simp only [hmd, if_false]
      rw [users_setMode, users_paramMode]

theorem prefixes_of_intGrammar (h : lkm.grammar = intGrammar) : lkm.prefixes = intPrefixes := by
  have hletters : lkm.prefixmodes = ascii "ov" := congrArg ModeGrammar.prefixmodes h
  have hsymbols : lkm.prefixchars = ascii "@+" := congrArg ModeGrammar.prefixchars h
  rw [Uchannelt.prefixes, hletters, hsymbols]
  decide

theorem parallel_of_intGrammar (h : lkm.grammar = intGrammar) : lkm.Parallel := by
  have hletters : lkm.prefixmodes = ascii "ov" := congrArg ModeGrammar.prefixmodes h
  have hsymbols : lkm.prefixchars = ascii "@+" := congrArg ModeGrammar.prefixchars h
  refine ⟨?_, ?_, ?_, ?_⟩
  · rw [hletters]
    decide
  · rw [hsymbols]
    decide
  · rw [hletters, hsymbols]
    decide
  · rw [hletters]
    decide

theorem mem_prefixmodes_iff (h : lkm.grammar = intGrammar) {md : Byte} :
    md ∈ lkm.prefixmodes ↔ md = 111 ∨ md = 118 := by
  have hletters : lkm.prefixmodes = [111, 118] := congrArg ModeGrammar.prefixmodes h
  rw [hletters]
  simp

/-- A call changes the mode of the member it names. -/
theorem modeCall_modify (c : ModeCall) (nick : CStr) (lkm : Uchannelt) :
    (getchannelnick lkm nick = none ∧ c.apply nick lkm = lkm) ∨
      ∃ k, ∃ f : CStr → CStr, getchannelnick lkm nick = some k ∧
        c.apply nick lkm =
          { lkm with users := lkm.users.modify k fun chanuser => { chanuser with mode := f chanuser.mode } } := by
  rcases c with ⟨add, mode⟩
  cases hget : getchannelnick lkm nick with
  | none =>
      refine Or.inl ⟨rfl, ?_⟩
      cases add with
      | true => rw [ModeCall.apply, if_pos rfl, addchannelusermode, hget]
      | false => rw [ModeCall.apply, if_neg (by simp), removechannelusermode, hget]
  | some k =>
      refine Or.inr ⟨k, ?_⟩
      cases add with
      | true =>
          refine ⟨fun t => (rankInsert lkm.prefixes mode t).take 20, rfl, ?_⟩
          rw [ModeCall.apply, if_pos rfl, addchannelusermode, hget]
          rfl
      | false =>
          rw [ModeCall.apply, if_neg (by simp), removechannelusermode, hget]
          exact ⟨fun t => t.erase _, rfl, rfl⟩

theorem modeCall_same (c : ModeCall) (nick : CStr) (lkm : Uchannelt) :
    SameMembers lkm (c.apply nick lkm) := by
  rcases modeCall_modify c nick lkm with ⟨_, hsame⟩ | ⟨k, f, _, hf⟩
  · rw [hsame]
    exact SameMembers.refl lkm
  · rw [hf]
    exact (modify_mode_spec lkm k f).1

/-- Calls for another member. -/
theorem modeCall_other (c : ModeCall) (nick : CStr) (lkm : Uchannelt)
    (h : getchannelnick lkm nick ≠ some j) : (c.apply nick lkm).modeAt j = lkm.modeAt j := by
  rcases modeCall_modify c nick lkm with ⟨_, hsame⟩ | ⟨k, f, hk, hf⟩
  · rw [hsame]
  · rw [hf, (modify_mode_spec lkm k f).2 j, if_neg]
    rintro rfl
    exact h hk

/-- One change, on the set of a member. -/
theorem applyChange_member (hg : lkm.grammar = intGrammar)
    (hset : lkm.modeAt j = some (intMode S)) {c : Change}
    (hpar : c.md ∈ lkm.prefixmodes → c.par.isSome = true) :
    SameMembers lkm (applyChange lkm c).1 ∧
      (applyChange lkm c).1.modeAt j = some (intMode (grantedBy S (memberCalls lkm j [c]))) := by
  by_cases huser : c.md ∈ lkm.prefixmodes
  · rcases Option.isSome_iff_exists.1 (hpar huser) with ⟨par, hcase⟩
    have happly : (applyChange lkm c).1 =
        (ModeCall.mk (decide (c.sign = PLUS)) c.md).apply par lkm := by
      rw [applyChange, hcase]
      simp only [if_pos huser, ModeCall.apply]
      by_cases hplus : c.sign = PLUS
      · simp [hplus]
      · simp [hplus]
    have hmd := (mem_prefixmodes_iff hg).1 huser
    rw [happly]
    refine ⟨modeCall_same _ par lkm, ?_⟩
    by_cases hj : getchannelnick lkm par = some j
    · have hcalls : memberCalls lkm j [c] = [⟨decide (c.sign = PLUS), c.md⟩] := by
        simp [memberCalls, hmd, hcase, hj]
      rw [intMode, ← prefixes_of_intGrammar hg] at hset
      have hranked := ModeCall.apply_ranked (c := ⟨decide (c.sign = PLUS), c.md⟩)
        (parallel_of_intGrammar hg) hj hset huser
      rw [hcalls, hranked.2, prefixes_of_intGrammar hg]
      rfl
    · have hcalls : memberCalls lkm j [c] = [] := by
        simp [memberCalls, hcase, hj]
      rw [hcalls, modeCall_other _ par lkm hj, hset]
      rfl
  · have hmd : ¬ (c.md = 111 ∨ c.md = 118) := fun h => huser ((mem_prefixmodes_iff hg).2 h)
    have hcalls : memberCalls lkm j [c] = [] := by
      simp [memberCalls, hmd]
    have hgrammar : (applyChange lkm c).1.grammar = lkm.grammar := grammar_applyChange lkm c
    rcases sameMembers_of_users ⟨users_applyChange huser, hgrammar⟩ with ⟨hsame, hmodes⟩
    refine ⟨hsame, ?_⟩
    rw [hcalls, hmodes, hset]
    rfl

theorem memberCalls_congr {chan chan' : Uchannelt} (h : SameMembers chan chan') (j : Nat)
    (cs : List Change) : memberCalls chan' j cs = memberCalls chan j cs := by
  have hnicks : getchannelnick chan' = getchannelnick chan := funext h.nicks
  rw [memberCalls, hnicks, memberCalls]

theorem memberCalls_cons (lkm : Uchannelt) (j : Nat) (c : Change) (cs : List Change) :
    memberCalls lkm j (c :: cs) = memberCalls lkm j [c] ++ memberCalls lkm j cs := by
  rw [memberCalls, memberCalls, memberCalls, ← List.filterMap_append]
  rfl

theorem grantedBy_append (S : Byte → Bool) (one two : List ModeCall) :
    grantedBy S (one ++ two) = grantedBy (grantedBy S one) two := List.foldl_append

/-- The changes, on the set of a member. -/
theorem applyChanges_member {cs : List Change} (hg : lkm.grammar = intGrammar)
    (hset : lkm.modeAt j = some (intMode S))
    (hpar : ∀ c ∈ cs, c.md = 111 ∨ c.md = 118 → c.par.isSome = true) :
    SameMembers lkm (applyChanges lkm cs).1 ∧
      (applyChanges lkm cs).1.modeAt j = some (intMode (grantedBy S (memberCalls lkm j cs))) := by
  induction cs generalizing lkm S with
  | nil =>
      exact ⟨SameMembers.refl lkm, hset⟩
  | cons c cs ih =>
      have hone := applyChange_member hg hset (c := c)
        fun huser => hpar c List.mem_cons_self ((mem_prefixmodes_iff hg).1 huser)
      have hrest := ih (hone.1.grammar.trans hg) hone.2 fun d hd => hpar d (List.mem_cons_of_mem _ hd)
      rw [memberCalls_congr hone.1] at hrest
      rw [applyChanges, memberCalls_cons, grantedBy_append]
      exact ⟨hone.1.trans hrest.1, hrest.2⟩

end Replay

end PsyBnc
