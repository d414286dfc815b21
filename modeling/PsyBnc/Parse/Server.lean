import PsyBnc.Parse.Model

/-!
# Lines from a server

The grammar of a server line is `: P SP C SP W [SP R]`, ended by CR, LF or both.  `Grammar` states
what a parser should store for such a line; `Regular` is the condition on the line under which
`parse` does.
-/

namespace PsyBnc

open CLib

/-! ## The grammar -/

/-- A text that can stand inside a line. -/
def Inline (s : CStr) : Prop := 0 ∉ s ∧ CR ∉ s ∧ LF ∉ s

/-- A part of a line that ends at a blank. -/
def Word (s : CStr) : Prop := s ≠ [] ∧ SP ∉ s ∧ Inline s

instance (s : CStr) : Decidable (Inline s) := by
  dsimp [Inline]
  infer_instance

instance (s : CStr) : Decidable (Word s) := by
  dsimp [Word]
  infer_instance

/-- The parts of a server line, each shorter than the buffer it goes to. -/
structure ServerLine where
  sender : CStr
  command : CStr
  target : CStr
  rest : Option CStr
  sender_word : Word sender ∧ sender.length < 300
  command_word : Word command ∧ command.length < 64
  target_word : Word target ∧ target.length < 800
  rest_inline : ∀ r, rest = some r → Inline r ∧ r.length < 6000

inductive Terminator where
  | cr
  | lf
  | crlf

def Terminator.bytes : Terminator → CStr
  | .cr => [CR]
  | .lf => [LF]
  | .crlf => [CR, LF]

namespace ServerLine

/-- `W [SP R]`. -/
def params (l : ServerLine) : CStr :=
  match l.rest with
  | none => l.target
  | some r => l.target ++ SP :: r

def text (l : ServerLine) : CStr :=
  COLON :: (l.sender ++ SP :: (l.command ++ SP :: l.params))

end ServerLine

/-- The text behind the first `" :"`. -/
def afterBlankColon : CStr → Option CStr
  | [] => none
  | b :: bs =>
      if b = SP ∧ bs.head? = some COLON then some bs.tail else afterBlankColon bs

/-- The trailing text of the grammar: a `:` starts it at the beginning or behind a blank. -/
def trailing (r : CStr) : CStr :=
  match r with
  | [] => []
  | b :: bs => if b = COLON then bs else (afterBlankColon r).getD r

/-- The sender is `n ! i @ h` with parts that fit their buffers. -/
structure Userhost (sender n i h : CStr) : Prop where
  eq : sender = n ++ BANG :: (i ++ AT :: h)
  nick : BANG ∉ n ∧ n.length < 64
  ident : AT ∉ i ∧ i.length < 32
  host : h.length < 200

structure Grammar (l : ServerLine) (irc : Parsed) : Prop where
  ircfrom : irc.ircfrom = l.sender
  irccommand : irc.irccommand = ucase l.command
  ircto : irc.ircto = (afterPrefix [COLON] l.target).getD l.target
  irccontent : irc.irccontent = (l.rest.map trailing).getD []
  userhost : ∀ n i h, Userhost l.sender n i h →
    irc.ircnick = n ∧ irc.ircident = i ∧ irc.irchost = h

/-! ## Where the code follows it -/

/-- The first `:` of `r`, if there is one, is at its beginning or follows a blank. -/
def FirstColonFree (r : CStr) : Prop :=
  ∀ u v, r = u ++ COLON :: v → COLON ∉ u → u = [] ∨ u.getLast? = some SP

/-- No `@` stands in the nick of `n ! i @ h`; the one that may is followed by a text that the host
of full length repeats. -/
def HostFree (sender : CStr) : Prop :=
  ∀ n i h, Userhost sender n i h → ∀ u v, n = u ++ AT :: v → AT ∉ u →
    h.length = 199 ∧ h <+: v ++ BANG :: (i ++ AT :: h)

/-- The first parameter does not start with `:` when another follows, and the first `:` of the rest
starts the trailing text.  A lone `:` is harmless when nothing of the rest is left of it. -/
def ParamsFree (target r : CStr) : Prop :=
  if target = [COLON] then r = [] ∨ (List.replicate 4095 SP <+: r ∧ trailing r = [])
  else target.head? ≠ some COLON ∧ FirstColonFree r

structure Regular (l : ServerLine) : Prop where
  host : HostFree l.sender
  params : ∀ r, l.rest = some r → ParamsFree l.target r

/-! ## The trailing text -/

theorem afterBlankColon_of_notMem {r : CStr} (h : COLON ∉ r) : afterBlankColon r = none := by
  induction r with
  | nil =>
      rfl
  | cons b bs ih =>
      have hbs : COLON ∉ bs := fun hm => h (List.mem_cons_of_mem _ hm)
      have hhead : bs.head? ≠ some COLON := fun hh => hbs (List.mem_of_head? hh)
      simpa [afterBlankColon, hhead] using ih hbs

theorem afterBlankColon_append {u v : CStr} (hu : COLON ∉ u) (hlast : u.getLast? = some SP) :
    afterBlankColon (u ++ COLON :: v) = some v := by
  induction u with
  | nil =>
      simp at hlast
  | cons b bs ih =>
      cases bs with
      | nil =>
          have hb : b = SP := by simpa using hlast
          simp [afterBlankColon, hb]
      | cons c cs =>
          have hc : c ≠ COLON := fun e => hu (by simp [e])
          have hrest : COLON ∉ c :: cs := fun hm => hu (List.mem_cons_of_mem _ hm)
          have hlast' : (c :: cs).getLast? = some SP := by simpa using hlast
          have hstep := ih hrest hlast'
          simpa [afterBlankColon, hc] using hstep

/-- A first `:` that follows no blank is passed over. -/
theorem afterBlankColon_skip {u v : CStr} (hu : COLON ∉ u) (hlast : u.getLast? ≠ some SP) :
    afterBlankColon (u ++ COLON :: v) = afterBlankColon v := by
  have hsp : COLON ≠ SP := by decide
  induction u with
  | nil =>
      simp [afterBlankColon, hsp]
  | cons b bs ih =>
      cases bs with
      | nil =>
          have hb : b ≠ SP := by simpa using hlast
          simp [afterBlankColon, hb, hsp]
      | cons c cs =>
          have hc : c ≠ COLON := fun e => hu (by simp [e])
          have hrest : COLON ∉ c :: cs := fun hm => hu (List.mem_cons_of_mem _ hm)
          have hlast' : (c :: cs).getLast? ≠ some SP := by simpa using hlast
          have hstep := ih hrest hlast'
          simpa [afterBlankColon, hc] using hstep

theorem length_afterBlankColon {r t : CStr} (h : afterBlankColon r = some t) :
    t.length < r.length := by
  induction r with
  | nil =>
      simp [afterBlankColon] at h
  | cons b bs ih =>
      by_cases hb : b = SP ∧ bs.head? = some COLON
      · simp only [afterBlankColon, hb, and_self, if_true, Option.some.injEq] at h
        rw [← h, List.length_tail, List.length_cons]
        omega
      · simp only [afterBlankColon, hb, if_false] at h
        exact Nat.lt_succ_of_lt (ih h)

theorem serverContent_append {u v : CStr} (hu : COLON ∉ u) :
    serverContent (u ++ COLON :: v) = v := by
  cases u with
  | nil =>
      simp [serverContent]
  | cons b bs =>
      have hb : b ≠ COLON := fun e => hu (by simp [e])
      have hcut : cutAt COLON (b :: (bs ++ COLON :: v)) = some (b :: bs, v) := cutAt_append hu
      simp [serverContent, hb, hcut]

theorem serverContent_of_notMem {r : CStr} (h : COLON ∉ r) : serverContent r = r := by
  cases r with
  | nil =>
      rfl
  | cons b bs =>
      have hb : b ≠ COLON := fun e => h (by simp [e])
      simp [serverContent, hb, cutAt_eq_none.2 h]

theorem trailing_of_notMem {r : CStr} (h : COLON ∉ r) : trailing r = r := by
  cases r with
  | nil =>
      rfl
  | cons b bs =>
      have hb : b ≠ COLON := fun e => h (by simp [e])
      simp [trailing, hb, afterBlankColon_of_notMem h]

theorem trailing_append {u v : CStr} (hu : COLON ∉ u) (hne : u ≠ []) :
    trailing (u ++ COLON :: v) =
      (afterBlankColon (u ++ COLON :: v)).getD (u ++ COLON :: v) := by
  cases u with
  | nil =>
      exact absurd rfl hne
  | cons b bs =>
      have hb : b ≠ COLON := fun e => hu (by simp [e])
      simp [trailing, hb]

/-- Behind a first `:` that neither begins the rest nor follows a blank, the grammar's trailing
text is longer or shorter than what the code takes. -/
theorem trailing_ne {u v : CStr} (hu : COLON ∉ u) (hne : u ≠ []) (hlast : u.getLast? ≠ some SP) :
    trailing (u ++ COLON :: v) ≠ v := by
  rw [trailing_append hu hne, afterBlankColon_skip hu hlast]
  intro heq
  have hlen := congrArg List.length heq
  cases hv : afterBlankColon v with
  | none =>
      simp [hv] at hlen
      omega
  | some t =>
      have hlt := length_afterBlankColon hv
      simp [hv] at hlen
      omega

theorem serverContent_eq_trailing_iff (r : CStr) :
    serverContent r = trailing r ↔ FirstColonFree r := by
  rcases cut_cases COLON r with ⟨hr, _⟩ | ⟨u, v, rfl, hu, _⟩
  · rw [serverContent_of_notMem hr, trailing_of_notMem hr]
    refine ⟨fun _ u v h _ => absurd ?_ hr, fun _ => rfl⟩
    simp [h]
  · rw [serverContent_append hu]
    constructor
    · intro heq u' v' hsplit hu'
      rcases append_cons_inj_of_notMem hu hu' hsplit with ⟨rfl, rfl⟩
      by_contra hbad
      rcases not_or.1 hbad with ⟨hne, hlast⟩
      exact trailing_ne hu hne hlast heq.symm
    · intro hfree
      rcases hfree u v rfl hu with rfl | hlast
      · simp [trailing]
      · have hne : u ≠ [] := by
          rintro rfl
          simp at hlast
        rw [trailing_append hu hne, afterBlankColon_append hu hlast]
        rfl

/-! ## The parameters -/

theorem length_serverContent_le (r : CStr) : (serverContent r).length ≤ r.length := by
  rcases cut_cases COLON r with ⟨hr, _⟩ | ⟨u, v, rfl, hu, _⟩
  · rw [serverContent_of_notMem hr]
  · rw [serverContent_append hu]
    simp only [List.length_append, List.length_cons]
    omega

/-- What `serverParams` should store for the parameters. -/
def ParamsStored (target : CStr) (rest : Option CStr) (irc : Parsed) : Prop :=
  irc.ircto = (afterPrefix [COLON] target).getD target ∧
    irc.irccontent = (rest.map trailing).getD []

theorem afterPrefix_colon_of_head {target : CStr} (h : target.head? ≠ some COLON) :
    afterPrefix [COLON] target = none := by
  refine afterPrefix_eq_none.2 ?_
  rintro ⟨t, rfl⟩
  simp at h

theorem serverParams_no_rest {target : CStr} (irc : Parsed) (hsp : SP ∉ target)
    (hlen : target.length < 800) (hc : irc.irccontent = []) :
    ParamsStored target none (serverParams target irc) := by
  have hto : (afterPrefix [COLON] target).getD target <:+ target := by
    cases ha : afterPrefix [COLON] target with
    | none =>
        simp
    | some t =>
        exact ⟨[COLON], (afterPrefix_eq_some.1 ha).symm⟩
  have hsp' : SP ∉ (afterPrefix [COLON] target).getD target := fun hm => hsp (hto.subset hm)
  have hlen' := Nat.lt_of_le_of_lt hto.length_le hlen
  simp [serverParams, cutAt_eq_none.2 hsp, ParamsStored, rtrim_eq_self hsp', clip_eq_self hlen', hc]

/-- A `:` in front of the first parameter costs its last byte when another parameter follows. -/
theorem serverParams_colon {b : Byte} {bs r : CStr} (irc : Parsed) (hsp : SP ∉ COLON :: b :: bs)
    (hlen : (COLON :: b :: bs).length < 800) :
    (serverParams ((COLON :: b :: bs) ++ SP :: r) irc).ircto = (b :: bs).dropLast := by
  have hcut : cutAt SP ((COLON :: b :: bs) ++ SP :: r) = some (COLON :: b :: bs, r) :=
    cutAt_append hsp
  have hafter : afterPrefix [COLON] (COLON :: b :: bs) = some (b :: bs) :=
    afterPrefix_append [COLON] (b :: bs)
  have hsp' : SP ∉ (b :: bs).dropLast :=
    fun hm => hsp (List.mem_cons_of_mem _ (List.mem_of_mem_dropLast hm))
  have hlen' : (b :: bs).dropLast.length < 800 := by
    simp only [List.length_cons, List.length_dropLast] at hlen ⊢
    omega
  simp only [serverParams, hcut, hafter, rtrim_eq_self hsp', clip_eq_self hlen']

theorem serverParams_lone_colon (r : CStr) (irc : Parsed) :
    serverParams ([COLON] ++ SP :: r) irc =
      { irc with
        ircto := clip 800 (rtrim (SP :: r))
        irccontent := clip 6000 (serverContent (rtrim (SP :: r)).tail) } := by
  have hsp : SP ∉ [COLON] := by decide
  have hafter : afterPrefix [COLON] [COLON] = some [] := afterPrefix_append [COLON] []
  simp only [serverParams, cutAt_append hsp, hafter]

theorem serverParams_plain {target r : CStr} (irc : Parsed) (hsp : SP ∉ target)
    (hhead : target.head? ≠ some COLON) (hlen : target.length < 800) (hr : r.length < 6000) :
    serverParams (target ++ SP :: r) irc =
      { irc with ircto := target, irccontent := serverContent r } := by
  have hlen' := Nat.lt_of_le_of_lt (length_serverContent_le r) hr
  simp only [serverParams, cutAt_append hsp, afterPrefix_colon_of_head hhead, rtrim_eq_self hsp,
    clip_eq_self hlen, clip_eq_self hlen']

theorem rtrim_blank_eq_nil_iff {r : CStr} (htr : trailing r = []) :
    rtrim (SP :: r) = [] ↔ r = [] ∨ List.replicate 4095 SP <+: r := by
  rw [rtrim_eq_nil_iff, List.take_succ_cons]
  simp only [List.mem_cons, forall_eq_or_imp, true_and]
  constructor
  · intro hall
    have htake : r.take 4095 = List.replicate (r.take 4095).length SP :=
      List.eq_replicate_iff.2 ⟨rfl, hall⟩
    by_cases hlen : 4095 ≤ r.length
    · refine Or.inr ?_
      rw [List.length_take, Nat.min_eq_left hlen] at htake
      exact htake ▸ List.take_prefix 4095 r
    · -- A shorter rest is all blanks, and its trailing text is itself.
      have hself : r.take 4095 = r := List.take_of_length_le (by omega)
      rw [hself] at hall
      have hcolon : COLON ∉ r := fun hm => absurd (hall COLON hm) (by decide)
      exact Or.inl ((trailing_of_notMem hcolon).symm.trans htr)
  · rintro (rfl | ⟨t, rfl⟩) b hb
    · simp at hb
    · have htake : (List.replicate 4095 SP ++ t).take 4095 = List.replicate 4095 SP :=
        List.take_left' List.length_replicate
      rw [htake] at hb
      exact (List.mem_replicate.1 hb).2

theorem serverParams_iff {target r : CStr} (irc : Parsed) (hw : Word target)
    (hlen : target.length < 800) (hr : r.length < 6000) :
    ParamsStored target (some r) (serverParams (target ++ SP :: r) irc) ↔ ParamsFree target r := by
  by_cases hlone : target = [COLON]
  · subst hlone
    -- A lone colon: the whole rest is the parameter, and nothing is content.
    have hafter : afterPrefix [COLON] [COLON] = some [] := afterPrefix_append [COLON] []
    rw [serverParams_lone_colon]
    simp only [ParamsStored, ParamsFree, hafter, Option.getD_some, Option.map_some, if_true]
    have hclip : ∀ s : CStr, clip 800 s = [] ↔ s = [] := by simp [clip]
    rw [hclip]
    constructor
    · rintro ⟨hto, hcontent⟩
      have htr : trailing r = [] := by
        rw [← hcontent, hto]
        rfl
      rcases (rtrim_blank_eq_nil_iff htr).1 hto with hnil | hpre
      · exact Or.inl hnil
      · exact Or.inr ⟨hpre, htr⟩
    · intro hcond
      have htr : trailing r = [] := by
        rcases hcond with rfl | ⟨_, htr⟩
        · rfl
        · exact htr
      have hto : rtrim (SP :: r) = [] :=
        (rtrim_blank_eq_nil_iff htr).2 (hcond.imp id And.left)
      refine ⟨hto, ?_⟩
      rw [hto, htr]
      rfl
  · by_cases hhead : target.head? = some COLON
    · -- The last byte of the parameter is missing.
      cases target with
      | nil =>
          simp at hhead
      | cons c cs =>
          cases cs with
          | nil =>
              simp at hhead
              simp [hhead] at hlone
          | cons b bs =>
              have hc : c = COLON := by simpa using hhead
              subst hc
              have hafter : afterPrefix [COLON] (COLON :: b :: bs) = some (b :: bs) :=
                afterPrefix_append [COLON] (b :: bs)
              have hto := serverParams_colon (r := r) irc hw.2.1 hlen
              have hne : (b :: bs).dropLast ≠ b :: bs := by
                intro heq
                have hl := congrArg List.length heq
                simp at hl
              simp only [ParamsStored, ParamsFree, hlone, hto, hafter, Option.getD_some, hne,
                false_and, if_false, hhead, not_true_eq_false, ne_eq]
    · -- No colon in front: the parameter is whole, and only the content can differ.
      rw [serverParams_plain irc hw.2.1 hhead hlen hr]
      simp only [ParamsStored, ParamsFree, hlone, if_false, afterPrefix_colon_of_head hhead,
        Option.getD_none, Option.map_some, Option.getD_some, true_and, ne_eq, hhead,
        not_false_eq_true, serverContent_eq_trailing_iff]

/-! ## The sender -/

theorem nickIdent_ircto (irc : Parsed) : (nickIdent irc).ircto = irc.ircto ∧
    (nickIdent irc).irccontent = irc.irccontent ∧ (nickIdent irc).ircfrom = irc.ircfrom ∧
    (nickIdent irc).irccommand = irc.irccommand := by
  simp only [nickIdent]
  cases cutAt BANG irc.ircfrom with
  | none =>
      simp
  | some p =>
      cases h : cutAt AT p.2 with
      | none =>
          simp [h]
      | some q =>
          simp [h]

theorem hostOf_ircto (irc : Parsed) : (hostOf irc).ircto = irc.ircto ∧
    (hostOf irc).irccontent = irc.irccontent ∧ (hostOf irc).ircfrom = irc.ircfrom ∧
    (hostOf irc).irccommand = irc.irccommand ∧ (hostOf irc).ircnick = irc.ircnick ∧
    (hostOf irc).ircident = irc.ircident := by
  simp only [hostOf]
  cases cutAt AT irc.ircfrom with
  | none =>
      simp
  | some p =>
      simp

section Sender

variable {sender n i h : CStr}

theorem nickIdent_userhost (hu : Userhost sender n i h) {irc : Parsed} (hfrom : irc.ircfrom = sender) :
    (nickIdent irc).ircnick = n ∧ (nickIdent irc).ircident = i := by
  have hbang : cutAt BANG sender = some (n, i ++ AT :: h) := by
    rw [hu.eq]
    exact cutAt_append hu.nick.1
  have hat : cutAt AT (i ++ AT :: h) = some (i, h) := cutAt_append hu.ident.1
  have hmin : min (n.length + 1) 64 = n.length + 1 := Nat.min_eq_left hu.nick.2
  have hnick : clip (n.length + 1) sender = n := by
    rw [hu.eq]
    simp [clip]
  simp [nickIdent, hfrom, hbang, hat, hmin, hnick, clip_eq_self hu.ident.2]

/-- The host is the text behind the first `@` of the sender, wherever that stands. -/
theorem hostOf_cut {irc : Parsed} {u v : CStr} (hcut : cutAt AT irc.ircfrom = some (u, v)) :
    (hostOf irc).irchost = v.take 199 := by
  have hclip : clip (min (v.length + 1) 200) v = v.take 199 := by
    have hmin : min (v.length + 1) 200 - 1 = min 199 v.length := by omega
    rw [clip, hmin, ← List.take_eq_take_min]
  simp [hostOf, hcut, hclip]

theorem hostOf_userhost (hu : Userhost sender n i h) {irc : Parsed} (hfrom : irc.ircfrom = sender) :
    (hostOf irc).irchost = h ↔ ∀ u v, n = u ++ AT :: v → AT ∉ u →
      h.length = 199 ∧ h <+: v ++ BANG :: (i ++ AT :: h) := by
  have hbang : AT ≠ BANG := by decide
  rcases cut_cases AT n with ⟨hn, _⟩ | ⟨u, v, hnuv, hu', _⟩
  · have hpre : AT ∉ n ++ BANG :: i := by simp [hn, hbang, hu.ident.1]
    have hcut : cutAt AT irc.ircfrom = some (n ++ BANG :: i, h) := by
      rw [hfrom, hu.eq]
      simpa using cutAt_append hpre
    have htake : h.take 199 = h := List.take_of_length_le (Nat.le_of_lt_succ hu.host)
    rw [hostOf_cut hcut, htake]
    refine ⟨fun _ u v hnuv _ => absurd ?_ hn, fun _ => rfl⟩
    simp [hnuv]
  · have hcut : cutAt AT irc.ircfrom = some (u, v ++ BANG :: (i ++ AT :: h)) := by
      rw [hfrom, hu.eq, hnuv]
      simpa using cutAt_append hu'
    rw [hostOf_cut hcut]
    constructor
    · intro heq u' v' hsplit hu''
      rcases append_cons_inj_of_notMem hu' hu'' (hnuv.symm.trans hsplit) with ⟨rfl, rfl⟩
      have hlen := congrArg List.length heq
      simp only [List.length_take, List.length_append, List.length_cons] at hlen
      have hhost := hu.host
      have hpre := List.take_prefix 199 (v ++ BANG :: (i ++ AT :: h))
      rw [heq] at hpre
      exact ⟨by omega, hpre⟩
    · intro hcond
      rcases hcond u v hnuv hu' with ⟨hlen, t, ht⟩
      rw [← ht]
      exact List.take_left' hlen

end Sender

/-! ## The whole line -/

/-- The terminator of a line that fits is cut off. -/
theorem lineOf_terminated {s : CStr} (hcr : CR ∉ s) (hlf : LF ∉ s) (hlen : s.length < 8189) (t : Terminator) :
    lineOf (s ++ t.bytes) = s := by
  have hclip : (s ++ t.bytes).length < 8191 := by
    have ht : t.bytes.length ≤ 2 := by
      cases t with
      | cr => decide
      | lf => decide
      | crlf => decide
    rw [List.length_append]
    omega
  simp only [lineOf, clip_eq_self hclip]
  cases t with
  | cr =>
      simp [Terminator.bytes, cutAt_append hcr]
  | lf =>
      have hnone : cutAt CR (s ++ [LF]) = none := by
        refine cutAt_eq_none.2 ?_
        have hne : CR ≠ LF := by decide
        simp [hcr, hne]
      simp [Terminator.bytes, hnone, cutAt_append hlf]
  | crlf =>
      simp [Terminator.bytes, cutAt_append hcr]

namespace ServerLine

variable (l : ServerLine)

theorem inline_params : CR ∉ l.params ∧ LF ∉ l.params := by
  have hw := l.target_word.1.2.2
  have hcr : CR ≠ SP := by decide
  have hlf : LF ≠ SP := by decide
  cases hr : l.rest with
  | none =>
      simpa [params, hr] using hw.2
  | some r =>
      have hrest := (l.rest_inline r hr).1
      simp [params, hr, hw.2.1, hw.2.2, hrest.2.1, hrest.2.2, hcr, hlf]

theorem length_params_lt : l.params.length < 6800 := by
  have hw := l.target_word.2
  cases hr : l.rest with
  | none =>
      simp only [params, hr]
      omega
  | some r =>
      have hrest := (l.rest_inline r hr).2
      simp only [params, hr, List.length_append, List.length_cons]
      omega

/-- Whatever the terminator, the line is recovered whole. -/
theorem lineOf_text (t : Terminator) : lineOf (l.text ++ t.bytes) = l.text := by
  have hparams := l.inline_params
  have hlen : l.text.length < 8189 := by
    have h₁ := l.sender_word.2
    have h₂ := l.command_word.2
    have h₃ := l.length_params_lt
    simp only [text, List.length_append, List.length_cons]
    omega
  have hcr : CR ∉ l.text := by
    have hsp : CR ≠ SP := by decide
    have hcolon : CR ≠ COLON := by decide
    simp [text, l.sender_word.1.2.2.2.1, l.command_word.1.2.2.2.1, hparams.1, hsp, hcolon]
  have hlf : LF ∉ l.text := by
    have hsp : LF ≠ SP := by decide
    have hcolon : LF ≠ COLON := by decide
    simp [text, l.sender_word.1.2.2.2.2, l.command_word.1.2.2.2.2, hparams.2, hsp, hcolon]
  exact lineOf_terminated hcr hlf hlen t

/-- The sender and the command are cut off, whatever the parameters look like. -/
theorem generalparse_text (t : Terminator) :
    generalparse (l.text ++ t.bytes) =
      serverParams l.params
        { ircserver := true, ircfrom := l.sender, irccommand := l.command } := by
  have hlen := l.length_params_lt
  have hcmd := l.command_word.2
  have h₁ : (l.command ++ SP :: l.params).length < 8191 := by
    simp only [List.length_append, List.length_cons]
    omega
  have h₂ : l.params.length < 8191 := by omega
  have hafter : afterPrefix [COLON] l.text = some (l.sender ++ SP :: (l.command ++ SP :: l.params)) :=
    afterPrefix_append [COLON] _
  simp only [generalparse, l.lineOf_text t, hafter, serverLine, cutAt_append l.sender_word.1.2.1,
    clip_eq_self h₁, cutAt_append l.command_word.1.2.1, clip_eq_self h₂,
    clip_eq_self l.sender_word.2, clip_eq_self l.command_word.2]

end ServerLine

theorem serverParams_ircfrom (secbuf : CStr) (irc : Parsed) :
    (serverParams secbuf irc).ircfrom = irc.ircfrom ∧
      (serverParams secbuf irc).irccommand = irc.irccommand := by
  simp only [serverParams]
  cases cutAt SP secbuf with
  | none =>
      simp
  | some p =>
      rcases p with ⟨w, p2⟩
      cases hw : afterPrefix [COLON] w with
      | none =>
          simp [hw]
      | some t =>
          cases t with
          | nil =>
              simp [hw]
          | cons b bs =>
              simp [hw]

/-- What is parsed of a line with a sender and a command. -/
structure Sent (sender cmd secbuf : CStr) (irc : Parsed) : Prop where
  command : irc.irccommand = ucase cmd
  target : irc.ircto =
    (serverParams secbuf { ircserver := true, ircfrom := clip 300 sender, irccommand := cmd }).ircto
  content : irc.irccontent =
    (serverParams secbuf
      { ircserver := true, ircfrom := clip 300 sender, irccommand := cmd }).irccontent
  nick : ∀ n r, sender = n ++ BANG :: r → BANG ∉ n → n.length < 64 → irc.ircnick = n

theorem parse_sent {ircbuf sender cmd secbuf : CStr}
    (hline : lineOf ircbuf = COLON :: (sender ++ SP :: (cmd ++ SP :: secbuf)))
    (hsender : SP ∉ sender) (hne : sender ≠ []) (hcmd : SP ∉ cmd) (hclen : cmd.length < 64)
    (hlen : secbuf.length < 8000) : Sent sender cmd secbuf (parse ircbuf) := by
  have hafter : afterPrefix [COLON] (COLON :: (sender ++ SP :: (cmd ++ SP :: secbuf))) =
      some (sender ++ SP :: (cmd ++ SP :: secbuf)) := afterPrefix_append [COLON] _
  have h₁ : (cmd ++ SP :: secbuf).length < 8191 := by
    simp only [List.length_append, List.length_cons]
    omega
  have h₂ : secbuf.length < 8191 := by omega
  -- No buffer cuts the words off.
  have hgen : generalparse ircbuf = serverParams secbuf
      { ircserver := true, ircfrom := clip 300 sender, irccommand := cmd } := by
    simp only [generalparse, hline, hafter, serverLine, cutAt_append hsender, clip_eq_self h₁,
      cutAt_append hcmd, clip_eq_self h₂, clip_eq_self hclen]
  have hfrom := serverParams_ircfrom secbuf
    { ircserver := true, ircfrom := clip 300 sender, irccommand := cmd }
  rw [← hgen] at hfrom
  have hpos : 0 < (generalparse ircbuf).ircfrom.length := by
    have := List.length_pos_of_ne_nil hne
    rw [hfrom.1, length_clip]
    omega
  have hparse : parse ircbuf =
      { hostOf (nickIdent (generalparse ircbuf)) with
        irccommand := ucase (hostOf (nickIdent (generalparse ircbuf))).irccommand } := by
    simp only [parse, hpos, if_true]
  have hnick := nickIdent_ircto (generalparse ircbuf)
  have hhost := hostOf_ircto (nickIdent (generalparse ircbuf))
  rw [hparse]
  refine ⟨?_, ?_, ?_, ?_⟩
  · exact congrArg ucase ((hhost.2.2.2.1.trans hnick.2.2.2).trans hfrom.2)
  · exact (hhost.1.trans hnick.1).trans (congrArg Parsed.ircto hgen)
  · exact (hhost.2.1.trans hnick.2.1).trans (congrArg Parsed.irccontent hgen)
  · rintro n r rfl hbang hn
    refine hhost.2.2.2.2.1.trans ?_
    -- The sender may be cut off, but behind its nick.
    have hclip : clip 300 (n ++ BANG :: r) = n ++ BANG :: r.take (298 - n.length) := by
      have hsub : 299 - n.length = (298 - n.length) + 1 := by omega
      rw [clip, List.take_append, hsub, List.take_succ_cons, List.take_of_length_le (by omega)]
    have hcut : cutAt BANG (generalparse ircbuf).ircfrom = some (n, r.take (298 - n.length)) := by
      rw [hfrom.1, hclip]
      exact cutAt_append hbang
    have hmin : min (n.length + 1) 64 = n.length + 1 := Nat.min_eq_left (by omega)
    have hres : clip (n.length + 1) (generalparse ircbuf).ircfrom = n := by
      rw [hfrom.1, hclip]
      simp [clip]
    simp only [nickIdent, hcut, hmin, hres]
    cases cutAt AT (r.take (298 - n.length)) with
    | none =>
        rfl
    | some q =>
        rfl

/-- `parse` stores what the grammar says if and only if the line is regular. -/
theorem parse_serverLine_iff (l : ServerLine) (t : Terminator) :
    Grammar l (parse (l.text ++ t.bytes)) ↔ Regular l := by
  have hgen := l.generalparse_text t
  have hfrom := (serverParams_ircfrom l.params
    { ircserver := true, ircfrom := l.sender, irccommand := l.command })
  rw [← hgen] at hfrom
  have hpos : 0 < (generalparse (l.text ++ t.bytes)).ircfrom.length := by
    rw [hfrom.1]
    exact List.length_pos_of_ne_nil l.sender_word.1.1
  have hparse : parse (l.text ++ t.bytes) =
      { hostOf (nickIdent (generalparse (l.text ++ t.bytes))) with
        irccommand := ucase (hostOf (nickIdent (generalparse (l.text ++ t.bytes)))).irccommand } := by
    simp only [parse, hpos, if_true]
  have hnick := nickIdent_ircto (generalparse (l.text ++ t.bytes))
  have hhost := hostOf_ircto (nickIdent (generalparse (l.text ++ t.bytes)))
  have hsender := hnick.2.2.1.trans hfrom.1
  have hparams : ParamsStored l.target l.rest (generalparse (l.text ++ t.bytes)) ↔
      ∀ r, l.rest = some r → ParamsFree l.target r := by
    rw [hgen]
    cases hr : l.rest with
    | none =>
        have hstored := serverParams_no_rest
          { ircserver := true, ircfrom := l.sender, irccommand := l.command }
          l.target_word.1.2.1 l.target_word.2 rfl
        simpa [ServerLine.params, hr] using hstored
    | some r =>
        simpa [ServerLine.params, hr] using serverParams_iff
          { ircserver := true, ircfrom := l.sender, irccommand := l.command }
          l.target_word.1 l.target_word.2 (l.rest_inline r hr).2
  rw [hparse]
  constructor
  · intro hg
    refine ⟨?_, hparams.1 ⟨?_, ?_⟩⟩
    · intro n i h hu
      exact (hostOf_userhost hu hsender).1 (hg.userhost n i h hu).2.2
    · exact (hhost.1.trans hnick.1).symm.trans hg.ircto
    · exact (hhost.2.1.trans hnick.2.1).symm.trans hg.irccontent
  · intro hreg
    have hstored := hparams.2 hreg.params
    refine ⟨hhost.2.2.1.trans hsender, ?_, (hhost.1.trans hnick.1).trans hstored.1,
      (hhost.2.1.trans hnick.2.1).trans hstored.2, ?_⟩
    · exact congrArg ucase ((hhost.2.2.2.1.trans hnick.2.2.2).trans hfrom.2)
    · intro n i h hu
      have hni := nickIdent_userhost hu hfrom.1
      exact ⟨hhost.2.2.2.2.1.trans hni.1, hhost.2.2.2.2.2.trans hni.2,
        (hostOf_userhost hu hsender).2 (hreg.host n i h hu)⟩

/-- `:op!o@h MODE #c +b *!*@2001:db8::1`. -/
def ipv6Ban : ServerLine where
  sender := ascii "op!o@h"
  command := ascii "mode"
  target := ascii "#c"
  rest := some (ascii "+b *!*@2001:db8::1")
  sender_word := by decide
  command_word := by decide
  target_word := by decide
  rest_inline := by
    intro r hr
    cases hr
    decide

/-- The `:` inside the ban mask starts the trailing text, and the mode itself is lost. -/
theorem parse_ipv6Ban :
    (parse (ipv6Ban.text ++ [CR, LF])).irccontent = ascii "db8::1" ∧
      trailing (ascii "+b *!*@2001:db8::1") = ascii "+b *!*@2001:db8::1" ∧
      ¬ Grammar ipv6Ban (parse (ipv6Ban.text ++ Terminator.crlf.bytes)) := by
  refine ⟨by decide, by decide, ?_⟩
  intro hg
  exact absurd hg.irccontent (by decide)

end PsyBnc
