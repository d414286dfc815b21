import PsyBnc.Network.Names
import PsyBnc.UChannel.ModeString

/-!
# The mode line of another network (`netmode`)

`netmode` reads the mode changes of a line once more, to put the network's token in front of the nicks and
the masks.  `addchannelmode` has read them for the channel.  The theorem says when both give a letter the
same parameter and the rewritten line is right.
-/

namespace PsyBnc

open CLib

/-- What `netmode` reads: the fields of `user(usern)` and its parameters. -/
structure NetModeUser where
  nick : CStr
  grammar : ModeGrammar
  chantypes : CStr
  netname : CStr
  myparentnick : CStr
  deriving DecidableEq

namespace NetModeUser

/-- `chanmodes` and `prefixmodes` of `netmode`. -/
def modes (u : NetModeUser) : ModeGrammar :=
  if strmcmp u.netname (ascii "int") then ⟨ascii "ov", ascii "@+", ascii "b,k,l,imnps"⟩ else u.grammar

/-- `chantypes` of `netmode`. -/
def types (u : NetModeUser) : CStr := if strmcmp u.netname (ascii "int") then ascii "#" else u.chantypes

end NetModeUser

/-- `hasparam` of `netmode`: the commas are counted down to the first byte, which is left out. -/
def netHasparam (g : ModeGrammar) (md : Byte) (minus : Bool) : Bool :=
  decide (md ∈ g.prefixmodes) ||
    match cutAt md g.chanmodes with
    | none => false
    | some (u, _) =>
        let aftercomma := (u ++ [md]).tail.count COMMA
        decide (aftercomma < 2) || (decide (aftercomma = 2) && !minus)

/-- `nmode`: behind the loop `ept` points to the start of `chanmodes`, no longer to the letter. -/
def netNmode (g : ModeGrammar) (md : Byte) : Bool :=
  decide (md ∈ g.prefixmodes) || decide (g.chanmodes.head? ≠ some 108 ∧ g.chanmodes.head? ≠ some 107)

/-- The word up to the end of the line. -/
def lineWord (w : CStr) : CStr :=
  match cutAt CR w with
  | some q => q.1
  | none => ((cutAt LF w).map Prod.fst).getD w

/-- What a parameter adds to `params`. -/
def addNetParam (u : NetModeUser) (md : Byte) (inparams params : CStr) : CStr :=
  if inparams = [] then params
  else if netNmode u.modes md then
    if params.length + u.netname.length + 1 + inparams.length + 2 < 8192 then
      if strmncasecmp (lineWord inparams) u.nick = false ∧
          strmncasecmp (lineWord inparams) u.myparentnick = false then
        params ++ (u.netname ++ TILDE :: (lineWord inparams ++ [SP]))
      else if params.length + u.myparentnick.length + 1 < 8192 then params ++ (u.myparentnick ++ [SP])
      else params
    else params
  else if params.length + 1 + inparams.length + 1 < 8192 then params ++ (inparams ++ [SP])
  else params

/-- `inparams` up to the next blank, and `nextparam`. -/
def cutParam (inparams : CStr) : CStr × Option CStr :=
  match cutAt SP inparams with
  | none => (inparams, none)
  | some q => (q.1, some q.2)

/-- The letters with the parameter that each takes, and `params` at the end. -/
def netmodeLoop (u : NetModeUser) : CStr → Bool → Option CStr → CStr → List Change × CStr
  | [], _, _, params => ([], params)
  | md :: inmodes, minus, inparams, params =>
      let minus := if md = MINUS then true else if md = PLUS then false else minus
      if netHasparam u.modes md minus = true ∧ inparams.getD [] ≠ [] then
        let cut := cutParam (inparams.getD [])
        let rest := netmodeLoop u inmodes minus cut.2 (addNetParam u md cut.1 params)
        (⟨if minus then MINUS else PLUS, md, some cut.1⟩ :: rest.1, rest.2)
      else netmodeLoop u inmodes minus inparams params

/-- `netmode`: the letters with the parameter that each takes, and `ircbuf`. -/
def netmode (u : NetModeUser) (netircfrom ircbuf : CStr) : List Change × CStr :=
  match cutStr (ascii " MODE ") ircbuf with
  | none => ([], ircbuf)
  | some (_, pt) =>
      if pt.head?.all (fun b => decide (b ∈ u.types)) then
        match cutAt SP pt with
        | none => ([], ircbuf)
        | some (channel, inmodes) =>
            let dest := clip 512 (HASH :: (u.netname ++ TILDE :: channel))
            let front := COLON :: (netircfrom ++ ascii " MODE " ++ dest ++ [SP])
            match cutAt SP inmodes with
            | none => ([], clip 8192 (front ++ inmodes))
            | some (pmode, inparams) =>
                let rest := netmodeLoop u pmode false (some inparams) []
                (rest.1, clip 8192 (front ++ pmode ++ SP :: rest.2))
      else ([], ircbuf)

/-- The letters with the parameter that each takes in `addchannelmode`. -/
def addedParams (g : ModeGrammar) (mode param : CStr) : List Change :=
  (readChanges g (codeTakes g) (clip 200 mode) PLUS (some (clip 4096 param))).filter fun c => c.par.isSome

/-! ## Mode lines -/

/-- The last word with the end of the line. -/
def endWords (e : CStr) : List CStr → List CStr
  | [] => []
  | w :: ws => if ws = [] then [w ++ e] else w :: endWords e ws

structure NetModeLine where
  source : CStr
  channel : CStr
  mode : CStr
  params : List CStr
  ending : CStr
  deriving DecidableEq, Repr

namespace NetModeLine

/-- The parameters as they stand in the line. -/
def raw (r : NetModeLine) : List CStr := endWords r.ending r.params

def line (r : NetModeLine) : CStr :=
  r.source ++ (ascii " MODE " ++ (r.channel ++ SP :: (r.mode ++
    if r.params = [] then r.ending else SP :: unwords SP r.raw)))

/-- The line up to the channel, with the token. -/
def front (u : NetModeUser) (netircfrom : CStr) (r : NetModeLine) : CStr :=
  COLON :: (netircfrom ++ ascii " MODE " ++ HASH :: (u.netname ++ TILDE :: r.channel) ++ [SP])

/-- The line with other parameters. -/
def withParams (u : NetModeUser) (netircfrom : CStr) (r : NetModeLine) (ts : List CStr) : CStr :=
  r.front u netircfrom ++ (r.mode ++ if ts = [] then r.ending else SP :: (ts.map (· ++ [SP])).flatten)

end NetModeLine

/-- A nick or a mask in the parent's channel. -/
def netNick (u : NetModeUser) (nick : CStr) : CStr :=
  if strmncasecmp nick u.nick = false ∧ strmncasecmp nick u.myparentnick = false then
    u.netname ++ TILDE :: nick
  else u.myparentnick

/-- What stands for a parameter: a prefix mode and a list mode name somebody, the parameters of `k` and `l` are
forwarded, and of the others nothing is said. -/
def Rewritten (u : NetModeUser) (ending : CStr) (c : Change) (t : CStr) : Prop :=
  ∀ p ∈ c.par,
    if c.md ∈ u.modes.prefixmodes then t = netNick u p
    else if c.md = 107 ∨ c.md = 108 then t = p ∨ t = p ++ ending
    else if u.modes.class? c.md = some 0 then t = netNick u p
    else t = netNick u p ∨ t = p ∨ t = p ++ ending

/-- Both interpreters give the same parameters to the same letters, and the line has as many of them as before,
in the same order and rewritten. -/
def NetModeLine.Agreed (u : NetModeUser) (netircfrom : CStr) (r : NetModeLine) : Prop :=
  let out := netmode u netircfrom r.line
  let added := addedParams u.modes r.mode (unwords SP r.params)
  out.1.map (fun c => { c with par := c.par.map lineWord }) = added ∧
    ∃ ts : List CStr, ts.length = r.params.length ∧ List.Forall₂ (Rewritten u r.ending) added ts ∧
      out.2 = r.withParams u netircfrom ts

/-- A mode is a letter and no sign, and names have no blank. -/
structure NetModeUser.Sound (u : NetModeUser) : Prop where
  plus : PLUS ∉ u.modes.prefixmodes ∧ PLUS ∉ u.modes.chanmodes
  minus : MINUS ∉ u.modes.prefixmodes ∧ MINUS ∉ u.modes.chanmodes
  netname : SP ∉ u.netname
  parentnick : NickText u.myparentnick

/-- The line is one that a server sends for a channel. -/
structure NetModeLine.WellFormed (u : NetModeUser) (r : NetModeLine) : Prop where
  source : SP ∉ r.source
  channel : SP ∉ r.channel ∧ ∃ b channel, r.channel = b :: channel ∧ b ∈ u.types
  mode : SP ∉ r.mode
  params : ∀ p ∈ r.params, p ≠ [] ∧ NickText p
  ending : r.ending = [] ∨ r.ending = [LF] ∨ r.ending = [CR, LF]

/-- The texts are not longer than the buffers for them. -/
structure NetModeLine.Fits (u : NetModeUser) (netircfrom : CStr) (r : NetModeLine) : Prop where
  pr : (unwords SP r.params).length < 4096
  dest : u.netname.length + r.channel.length + 2 < 512
  line : (r.front u netircfrom).length + r.mode.length + r.ending.length +
    (r.raw.map fun w => w.length + u.netname.length + u.myparentnick.length + 4).sum < 8191

/-- The letters that take a parameter, with their signs. -/
def takers (takes : Byte → Byte → Bool) : CStr → Byte → List (Byte × Byte)
  | [], _ => []
  | md :: mode, sign =>
      if md = PLUS ∨ md = MINUS then takers takes mode md
      else if takes md sign then (sign, md) :: takers takes mode sign
      else takers takes mode sign

/-- `netmode` asks for the first byte of `CHANMODES` where it means the letter: it finds out `k` and `l` only if
that byte is one of them, and then takes the masks for keys. -/
def NetModeUser.Fair (u : NetModeUser) (md : Byte) (w : CStr) : Prop :=
  md ∈ u.modes.prefixmodes ∨
    ((md = 107 ∨ md = 108) ∧ (netNmode u.modes md = false ∨ lineWord w = u.myparentnick)) ∨
    (md ≠ 107 ∧ md ≠ 108 ∧ (u.modes.class? md ≠ some 0 ∨ netNmode u.modes md = true ∨ w = u.myparentnick))

section Words

variable {g : ModeGrammar} {takes : Byte → Byte → Bool} {u : NetModeUser} {mode s t w p e params : CStr}
  {ws : List CStr} {sign md b : Byte} {minus : Bool}

/-- A pointer to the rest of the parameters. -/
def wordsPtr : List CStr → Option CStr
  | [] => none
  | w :: ws => some (unwords SP (w :: ws))

/-- Parameters that the blanks tell apart. -/
def WordsApart (ws : List CStr) : Prop := ∀ w ∈ ws, w ≠ [] ∧ SP ∉ w

theorem cutParam_words (h : WordsApart (w :: ws)) : cutParam (unwords SP (w :: ws)) = (w, wordsPtr ws) := by
  have hw : SP ∉ w := (h w List.mem_cons_self).2
  cases ws with
  | nil =>
      rw [unwords, lead_nil, List.append_nil, cutParam, cutAt_eq_none.2 hw]
      rfl
  | cons v ws =>
      rw [unwords, lead_cons, cutParam, cutAt_append hw]
      rfl

theorem nextParam_words (h : WordsApart (w :: ws)) : nextParam (unwords SP (w :: ws)) = (w, wordsPtr ws) := by
  have hw : SP ∉ w := (h w List.mem_cons_self).2
  cases ws with
  | nil =>
      rw [unwords, lead_nil, List.append_nil, nextParam, cutAt_eq_none.2 hw]
      rfl
  | cons v ws =>
      have hv : v ++ lead SP [] ws ≠ [] := by
        intro hnil
        exact (h v (List.mem_cons_of_mem _ List.mem_cons_self)).1 (List.append_eq_nil_iff.1 hnil).1
      rw [unwords, lead_cons, nextParam, cutAt_append hw]
      simp only [hv, if_false]
      rfl

/-- Each letter with its parameter, until one of both runs out. -/
def handed (ls : List (Byte × Byte)) (ws : List CStr) : List Change :=
  List.zipWith (fun l w => ⟨l.1, l.2, some w⟩) ls ws

theorem handed_nil {ls : List (Byte × Byte)} : handed ls [] = [] := List.zipWith_nil_right

theorem handed_cons {l : Byte × Byte} {ls : List (Byte × Byte)} :
    handed (l :: ls) (w :: ws) = ⟨l.1, l.2, some w⟩ :: handed ls ws := rfl

theorem length_handed {ls : List (Byte × Byte)} : (handed ls ws).length = min ls.length ws.length := by
  rw [handed, List.length_zipWith]

/-- `addchannelmode` hands them out. -/
theorem readChanges_words (h : WordsApart ws) :
    (readChanges g (codeTakes g) mode sign (wordsPtr ws)).filter (fun c => c.par.isSome) =
      handed (takers (codeTakes g) mode sign) ws := by
  induction mode generalizing sign ws with
  | nil => rfl
  | cons md mode ih =>
      rw [readChanges.eq_def, takers]
      by_cases hsign : md = PLUS ∨ md = MINUS
      · simp only [hsign, if_true]
        exact ih h
      · simp only [hsign, if_false]
        cases htakes : codeTakes g md sign with
        | false =>
            simp only [Bool.false_eq_true, if_false]
            split
            · rw [List.filter_cons_of_neg (by simp)]
              exact ih h
            · exact ih h
        | true =>
            have hknown : md ∈ g.prefixmodes ∨ md ∈ g.chanmodes := by
              by_contra hno
              rw [not_or] at hno
              rw [codeTakes, hasparam, cutAt_eq_none.2 hno.2] at htakes
              simp [hno.1] at htakes
            simp only [hknown, if_true]
            cases ws with
            | nil =>
                rw [handed_nil]
                rfl
            | cons w ws =>
                rw [wordsPtr]
                simp only [nextParam_words h]
                rw [List.filter_cons_of_pos rfl, ih fun v hv => h v (List.mem_cons_of_mem _ hv)]
                rfl

/-- Without parameters, the first letter that takes one gets an empty text. -/
theorem readChanges_empty :
    (readChanges g (codeTakes g) mode sign (some [])).filter (fun c => c.par.isSome) = [] ↔
      takers (codeTakes g) mode sign = [] := by
  induction mode generalizing sign with
  | nil => exact iff_of_true rfl rfl
  | cons md mode ih =>
      rw [readChanges.eq_def, takers]
      by_cases hsign : md = PLUS ∨ md = MINUS
      · simp only [hsign, if_true]
        exact ih
      · simp only [hsign, if_false]
        cases htakes : codeTakes g md sign with
        | false =>
            simp only [Bool.false_eq_true, if_false]
            split
            · rw [List.filter_cons_of_neg (by simp)]
              exact ih
            · exact ih
        | true =>
            have hknown : md ∈ g.prefixmodes ∨ md ∈ g.chanmodes := by
              by_contra hno
              rw [not_or] at hno
              rw [codeTakes, hasparam, cutAt_eq_none.2 hno.2] at htakes
              simp [hno.1] at htakes
            simp only [hknown, if_true]
            rw [List.filter_cons_of_pos rfl]
            exact iff_of_false (List.cons_ne_nil _ _) (List.cons_ne_nil _ _)

theorem netHasparam_eq : netHasparam g md (decide (sign = MINUS)) = codeTakes g md sign := by
  rw [netHasparam, codeTakes, hasparam]
  cases cutAt md g.chanmodes with
  | none => rfl
  | some q => simp [Bool.decide_or, Bool.decide_and]

theorem netHasparam_unknown (h : md ∉ g.prefixmodes ∧ md ∉ g.chanmodes) : netHasparam g md minus = false := by
  rw [netHasparam, cutAt_eq_none.2 h.2]
  simp [h.1]

/-- `netmode` hands them out, too. -/
theorem netmodeLoop_words (hu : u.Sound) (h : WordsApart ws) (hsign : sign = PLUS ∨ sign = MINUS) :
    (netmodeLoop u mode (decide (sign = MINUS)) (wordsPtr ws) params).1 =
      handed (takers (codeTakes u.modes) mode sign) ws := by
  induction mode generalizing sign ws params with
  | nil => rfl
  | cons md mode ih =>
      rw [netmodeLoop, takers]
      by_cases hmd : md = PLUS ∨ md = MINUS
      · -- A sign is no letter with a parameter: it is kept for the letters behind it.
        have hminus : (if md = MINUS then true else if md = PLUS then false else decide (sign = MINUS)) =
            decide (md = MINUS) := by
          rcases hmd with rfl | rfl
          · rw [if_neg (by decide), if_pos rfl]
            rfl
          · rw [if_pos rfl]
            rfl
        have hno : netHasparam u.modes md (decide (md = MINUS)) = false := by
          apply netHasparam_unknown
          rcases hmd with rfl | rfl
          · exact hu.plus
          · exact hu.minus
        simp only [hminus, hno, Bool.false_eq_true, false_and, if_false, hmd, if_true]
        exact ih h hmd
      · have hminus : (if md = MINUS then true else if md = PLUS then false else decide (sign = MINUS)) =
            decide (sign = MINUS) := by
          rw [not_or] at hmd
          rw [if_neg hmd.2, if_neg hmd.1]
        simp only [hminus, netHasparam_eq, hmd, if_false]
        -- A letter takes the next word just if its class asks for one.
        cases htakes : codeTakes u.modes md sign with
        | false =>
            simp only [Bool.false_eq_true, false_and, if_false]
            exact ih h hsign
        | true =>
            cases ws with
            | nil =>
                have hrest := @ih params [] sign h hsign
                rw [handed_nil] at hrest
                simp only [wordsPtr, Option.getD_none, ne_eq, not_true_eq_false, and_false, if_false, if_true]
                rw [handed_nil]
                exact hrest
            | cons w ws =>
                -- The word is cut off in front of the blank, and the rest is read on.
                have hne : unwords SP (w :: ws) ≠ [] := by
                  intro hnil
                  exact (h w List.mem_cons_self).1 (List.append_eq_nil_iff.1 hnil).1
                have hrest : WordsApart ws := fun v hv => h v (List.mem_cons_of_mem _ hv)
                have hptr : wordsPtr (w :: ws) = some (unwords SP (w :: ws)) := rfl
                simp only [hptr, Option.getD_some, ne_eq, hne, not_false_eq_true, and_self, if_true,
                  cutParam_words h, ih hrest hsign]
                rw [handed_cons, List.cons.injEq, Change.mk.injEq]
                refine ⟨⟨?_, rfl, rfl⟩, rfl⟩
                rcases hsign with rfl | rfl
                · exact if_neg (by decide)
                · exact if_pos (by decide)

/-- `params` is what the letters add. -/
theorem netmodeLoop_params (inparams : Option CStr) :
    (netmodeLoop u mode minus inparams params).2 =
      (netmodeLoop u mode minus inparams params).1.foldl
        (fun params c => addNetParam u c.md (c.par.getD []) params) params := by
  induction mode generalizing minus inparams params with
  | nil => rfl
  | cons md mode ih =>
      rw [netmodeLoop]
      dsimp only
      by_cases htakes : netHasparam u.modes md (if md = MINUS then true else if md = PLUS then false else minus) =
          true ∧ inparams.getD [] ≠ []
      · rw [if_pos htakes, List.foldl_cons]
        exact ih _
      · rw [if_neg htakes]
        exact ih _

/-- What a letter adds to `params`, without the blank. -/
def netText (u : NetModeUser) (c : Change) : CStr :=
  if netNmode u.modes c.md then netNick u (lineWord (c.par.getD [])) else c.par.getD []

theorem length_lineWord_le : (lineWord w).length ≤ w.length := by
  rw [lineWord]
  cases hcr : cutAt CR w with
  | some q =>
      rcases q with ⟨x, y⟩
      rw [(cutAt_eq_some.1 hcr).1, List.length_append]
      exact Nat.le_add_right _ _
  | none =>
      cases hlf : cutAt LF w with
      | some q =>
          rcases q with ⟨x, y⟩
          rw [(cutAt_eq_some.1 hlf).1]
          simp
      | none => exact Nat.le_refl _

theorem addNetParam_text {c : Change} (hc : c.par.getD [] ≠ [])
    (hfits : params.length + ((c.par.getD []).length + u.netname.length + u.myparentnick.length + 4) < 8191) :
    addNetParam u c.md (c.par.getD []) params = params ++ (netText u c ++ [SP]) := by
  rw [addNetParam, netText, netNick, if_neg hc]
  by_cases hnmode : netNmode u.modes c.md = true
  · rw [if_pos hnmode, if_pos hnmode, if_pos (by omega)]
    by_cases hother : strmncasecmp (lineWord (c.par.getD [])) u.nick = false ∧
        strmncasecmp (lineWord (c.par.getD [])) u.myparentnick = false
    · rw [if_pos hother, if_pos hother, List.append_assoc, List.cons_append]
    · rw [if_neg hother, if_neg hother, if_pos (by omega)]
  · rw [if_neg hnmode, if_neg hnmode, if_pos (by omega)]

theorem length_netText_le {c : Change} :
    (netText u c ++ [SP]).length ≤ (c.par.getD []).length + u.netname.length + u.myparentnick.length + 4 := by
  have hword := @length_lineWord_le (c.par.getD [])
  rw [netText, netNick, List.length_append, List.length_singleton]
  split
  · split
    · rw [List.length_append, List.length_cons]
      omega
    · omega
  · omega

/-- As long as `params` is large enough, every parameter gets into it. -/
theorem foldl_addNetParam (cs : List Change) (hcs : ∀ c ∈ cs, c.par.getD [] ≠ [])
    (hfits : params.length + (cs.map fun c =>
      (c.par.getD []).length + u.netname.length + u.myparentnick.length + 4).sum < 8191) :
    cs.foldl (fun params c => addNetParam u c.md (c.par.getD []) params) params =
      params ++ ((cs.map (netText u)).map (· ++ [SP])).flatten := by
  induction cs generalizing params with
  | nil => simp
  | cons c cs ih =>
      rw [List.forall_mem_cons] at hcs
      rw [List.map_cons, List.sum_cons] at hfits
      rw [List.foldl_cons, addNetParam_text hcs.1 (by omega), ih hcs.2]
      · simp
      · have hle := @length_netText_le u c
        rw [List.length_append]
        omega

theorem sum_handed_le (f : CStr → Nat) (ls : List (Byte × Byte)) (ws : List CStr) :
    ((handed ls ws).map fun c => f (c.par.getD [])).sum ≤ (ws.map f).sum := by
  induction ls generalizing ws with
  | nil => exact Nat.zero_le _
  | cons l ls ih =>
      cases ws with
      | nil => exact Nat.zero_le _
      | cons w ws =>
          rw [handed_cons, List.map_cons, List.sum_cons, List.map_cons, List.sum_cons]
          exact Nat.add_le_add_left (ih ws) _

theorem mem_handed {ls : List (Byte × Byte)} {c : Change} (hc : c ∈ handed ls ws) :
    ∃ w ∈ ws, c.par = some w := by
  induction ls generalizing ws with
  | nil => cases hc
  | cons l ls ih =>
      cases ws with
      | nil => cases hc
      | cons w ws =>
          rw [handed_cons, List.mem_cons] at hc
          rcases hc with rfl | hc
          · exact ⟨w, List.mem_cons_self, rfl⟩
          · rcases ih hc with ⟨v, hv, hpar⟩
            exact ⟨v, List.mem_cons_of_mem w hv, hpar⟩

/-- Letters behind the last word get nothing. -/
theorem handed_append {ls ls' : List (Byte × Byte)} (h : ws.length ≤ ls.length) :
    handed (ls ++ ls') ws = handed ls ws := by
  induction ls generalizing ws with
  | nil =>
      rw [List.length_eq_zero_iff.1 (Nat.le_zero.1 h), handed_nil, handed_nil]
  | cons l ls ih =>
      cases ws with
      | nil => rfl
      | cons w ws =>
          rw [List.cons_append, handed_cons, handed_cons, ih (Nat.le_of_succ_le_succ h)]

theorem takers_append (s t : CStr) (sign : Byte) :
    ∃ sign', takers takes (s ++ t) sign = takers takes s sign ++ takers takes t sign' := by
  induction s generalizing sign with
  | nil => exact ⟨sign, rfl⟩
  | cons md s ih =>
      rw [List.cons_append, takers, takers]
      split
      · exact ih md
      · split
        · rcases ih sign with ⟨sign', heq⟩
          exact ⟨sign', by rw [heq]; rfl⟩
        · exact ih sign

/-- The words of a line are found again behind their blanks. -/
theorem spaced_inj {ts ts' : List CStr} (hts : ∀ t ∈ ts, SP ∉ t) (hts' : ∀ t ∈ ts', SP ∉ t)
    (h : (ts.map (· ++ [SP])).flatten = (ts'.map (· ++ [SP])).flatten) : ts = ts' := by
  induction ts generalizing ts' with
  | nil =>
      cases ts' with
      | nil => rfl
      | cons t' ts' => simp at h
  | cons t ts ih =>
      cases ts' with
      | nil => simp at h
      | cons t' ts' =>
          rw [List.forall_mem_cons] at hts hts'
          simp only [List.map_cons, List.flatten_cons, List.append_assoc, List.singleton_append] at h
          rcases append_cons_inj_of_notMem hts.1 hts'.1 h with ⟨rfl, hrest⟩
          rw [ih hts.2 hts'.2 hrest]

theorem blankfree_of_spaced (hw : SP ∉ w) : SP ∉ lineWord w := by
  rw [lineWord]
  cases hcr : cutAt CR w with
  | some q =>
      rcases q with ⟨x, y⟩
      rw [(cutAt_eq_some.1 hcr).1, List.mem_append, not_or] at hw
      exact hw.1
  | none =>
      cases hlf : cutAt LF w with
      | some q =>
          rcases q with ⟨x, y⟩
          rw [(cutAt_eq_some.1 hlf).1, List.mem_append, not_or] at hw
          exact hw.1
      | none => exact hw

theorem lineWord_ending (hp : NickText p) (he : e = [] ∨ e = [LF] ∨ e = [CR, LF]) : lineWord (p ++ e) = p := by
  rcases he with rfl | rfl | rfl
  · rw [List.append_nil, lineWord, cutAt_eq_none.2 hp.2.1, cutAt_eq_none.2 hp.2.2]
    rfl
  · have hcr : CR ∉ p ++ [LF] := by
      rw [List.mem_append, not_or]
      exact ⟨hp.2.1, by decide⟩
    rw [lineWord, cutAt_eq_none.2 hcr, cutAt_append hp.2.2]
    rfl
  · rw [lineWord, cutAt_append hp.2.1]

theorem endWords_eq_nil : endWords e ws = [] ↔ ws = [] := by
  cases ws with
  | nil => exact iff_of_true rfl rfl
  | cons w ws =>
      refine iff_of_false ?_ (List.cons_ne_nil w ws)
      rw [endWords]
      split
      · exact List.cons_ne_nil _ _
      · exact List.cons_ne_nil _ _

theorem length_endWords : (endWords e ws).length = ws.length := by
  induction ws with
  | nil => rfl
  | cons w ws ih =>
      rw [endWords]
      split
      · next hlast =>
        rw [hlast]
        rfl
      · rw [List.length_cons, List.length_cons, ih]

theorem mem_endWords (hw : w ∈ endWords e ws) : ∃ p ∈ ws, w = p ∨ w = p ++ e := by
  induction ws with
  | nil => cases hw
  | cons v ws ih =>
      rw [endWords] at hw
      split at hw
      · exact ⟨v, List.mem_cons_self, Or.inr (List.mem_singleton.1 hw)⟩
      · rcases List.mem_cons.1 hw with rfl | hw
        · exact ⟨w, List.mem_cons_self, Or.inl rfl⟩
        · rcases ih hw with ⟨p, hp, heq⟩
          exact ⟨p, List.mem_cons_of_mem v hp, heq⟩

theorem map_lineWord_endWords (hws : ∀ p ∈ ws, NickText p) (he : e = [] ∨ e = [LF] ∨ e = [CR, LF]) :
    (endWords e ws).map lineWord = ws := by
  induction ws with
  | nil => rfl
  | cons w ws ih =>
      rw [List.forall_mem_cons] at hws
      have hbare : lineWord w = w := by
        have h := @lineWord_ending w [] hws.1 (Or.inl rfl)
        rwa [List.append_nil] at h
      rw [endWords]
      split
      · next hlast =>
        rw [hlast, List.map_singleton, lineWord_ending hws.1 he]
      · rw [List.map_cons, hbare, ih hws.2]

end Words

section Line

variable {u : NetModeUser} {netircfrom p w t : CStr} {r : NetModeLine} {c : Change} {md : Byte}

/-- The letters of `netmode` with their words. -/
def NetModeLine.given (u : NetModeUser) (r : NetModeLine) : List Change :=
  handed (takers (codeTakes u.modes) r.mode PLUS) r.raw

theorem NetModeLine.WellFormed.apart (h : r.WellFormed u) : WordsApart r.raw := by
  intro w hw
  rcases mem_endWords hw with ⟨p, hp, heq⟩
  have hparam := h.params p hp
  have hend : SP ∉ r.ending := by
    rcases h.ending with he | he | he
    · rw [he]
      decide
    · rw [he]
      decide
    · rw [he]
      decide
  rcases heq with rfl | rfl
  · exact ⟨hparam.1, hparam.2.1⟩
  · rw [List.mem_append, not_or]
    exact ⟨List.append_ne_nil_of_left_ne_nil hparam.1 _, hparam.2.1, hend⟩

theorem netmode_line (hu : u.Sound) (h : r.WellFormed u) (hfits : r.Fits u netircfrom) :
    netmode u netircfrom r.line =
      (r.given u, r.front u netircfrom ++ (r.mode ++
        if r.params = [] then r.ending else SP :: (((r.given u).map (netText u)).map (· ++ [SP])).flatten)) := by
  rcases h.channel.2 with ⟨b, channel, hchannel, hb⟩
  have hcut : ∀ s, cutStr (ascii " MODE ") (r.source ++ (ascii " MODE " ++ s)) = some (r.source, s) := by
    intro s
    have hskip := @cutStr_skip SP r.source (ascii "MODE ") (ascii " MODE " ++ s) h.source
    have hhere : cutStr (ascii " MODE ") (ascii " MODE " ++ s) = some ([], s) := cutStr_append _ _
    calc cutStr (ascii " MODE ") (r.source ++ (ascii " MODE " ++ s))
        = (cutStr (ascii " MODE ") (ascii " MODE " ++ s)).map fun q => (r.source ++ q.1, q.2) := hskip
      _ = some (r.source, s) := by rw [hhere, Option.map_some, List.append_nil]
  have htype : (r.channel ++ SP :: (r.mode ++ if r.params = [] then r.ending else SP :: unwords SP r.raw)).head?.all
      (fun b => decide (b ∈ u.types)) = true := by
    rw [hchannel, List.cons_append, List.head?_cons]
    simp [hb]
  have hdest : clip 512 (HASH :: (u.netname ++ TILDE :: r.channel)) = HASH :: (u.netname ++ TILDE :: r.channel) := by
    apply clip_eq_self
    have hlen := hfits.dest
    simp only [List.length_cons, List.length_append]
    omega
  have hline := hfits.line
  rw [netmode, NetModeLine.line, hcut]
  simp only [htype, if_true, cutAt_append h.channel.1, hdest]
  have hfront : COLON :: (netircfrom ++ ascii " MODE " ++ HASH :: (u.netname ++ TILDE :: r.channel) ++ [SP]) =
      r.front u netircfrom := rfl
  rw [hfront]
  by_cases hparams : r.params = []
  · -- Without parameters the line has no blank behind the modes, and is left at its end.
    have hend : SP ∉ r.mode ++ r.ending := by
      rw [List.mem_append, not_or]
      refine ⟨h.mode, ?_⟩
      rcases h.ending with he | he | he
      · rw [he]
        decide
      · rw [he]
        decide
      · rw [he]
        decide
    have hraw : r.raw = [] := endWords_eq_nil.2 hparams
    rw [if_pos hparams, cutAt_eq_none.2 hend, NetModeLine.given, hraw, handed_nil]
    dsimp only
    rw [clip_eq_self, if_pos hparams]
    rw [List.length_append, List.length_append]
    omega
  · -- With parameters the loop hands one word to each change that takes one.
    have hptr : some (unwords SP r.raw) = wordsPtr r.raw := by
      rcases List.exists_cons_of_ne_nil (mt endWords_eq_nil.1 hparams) with ⟨w, ws, hraw⟩
      rw [NetModeLine.raw, hraw]
      rfl
    have hgiven : (netmodeLoop u r.mode false (wordsPtr r.raw) []).1 = r.given u :=
      netmodeLoop_words hu h.apart (Or.inl rfl)
    have hsum : ((r.given u).map fun c =>
        (c.par.getD []).length + u.netname.length + u.myparentnick.length + 4).sum ≤
          (r.raw.map fun w => w.length + u.netname.length + u.myparentnick.length + 4).sum :=
      sum_handed_le (fun w => w.length + u.netname.length + u.myparentnick.length + 4) _ _
    have htexts : (netmodeLoop u r.mode false (wordsPtr r.raw) []).2 =
        (((r.given u).map (netText u)).map (· ++ [SP])).flatten := by
      rw [netmodeLoop_params, hgiven, foldl_addNetParam]
      · rfl
      · intro c hc
        rcases mem_handed hc with ⟨w, hw, hpar⟩
        rw [hpar]
        exact (h.apart w hw).1
      · rw [List.length_nil]
        omega
    -- No text of a change is longer than its word with the token and the nick.
    have hlen : ∀ cs : List Change, ((cs.map (netText u)).map (· ++ [SP])).flatten.length ≤
        (cs.map fun c => (c.par.getD []).length + u.netname.length + u.myparentnick.length + 4).sum := by
      intro cs
      induction cs with
      | nil => exact Nat.zero_le _
      | cons c cs ih =>
          rw [List.map_cons, List.map_cons, List.flatten_cons, List.length_append, List.map_cons, List.sum_cons]
          exact Nat.add_le_add length_netText_le ih
    have hle := hlen (r.given u)
    rw [if_neg hparams, cutAt_append h.mode]
    dsimp only
    rw [hptr, hgiven, htexts, if_neg hparams, clip_eq_self]
    · rw [List.append_assoc]
    · rw [List.length_append, List.length_append, List.length_cons]
      omega

/-! ## One parameter -/

theorem netNick_blankfree (hu : u.Sound) (hp : SP ∉ p) : SP ∉ netNick u p := by
  rw [netNick]
  split
  · simp only [List.mem_append, List.mem_cons, not_or]
    exact ⟨hu.netname, by decide, hp⟩
  · exact hu.parentnick.1

/-- Only the parent's nick stays as it is. -/
theorem netNick_eq_self : netNick u p = p ↔ p = u.myparentnick := by
  rw [netNick]
  constructor
  · split
    · intro heq
      have hlen := congrArg List.length heq
      rw [List.length_append, List.length_cons] at hlen
      omega
    · exact Eq.symm
  · intro heq
    have hparent : strmncasecmp p u.myparentnick = true := by
      rw [heq, strmncasecmp_iff]
    rw [if_neg (fun hno => by rw [hparent] at hno; cases hno.2), heq]

/-- No name ends as a line does. -/
theorem netNick_ne_ending (hu : u.Sound) (hp : p ≠ [] ∧ NickText p)
    (he : r.ending = [LF] ∨ r.ending = [CR, LF]) : netNick u p ≠ w ++ r.ending := by
  intro heq
  have hlast : (netNick u p).getLast? = some LF := by
    rw [heq]
    rcases he with he | he
    · rw [he, List.getLast?_append]
      rfl
    · rw [he, List.getLast?_append]
      rfl
  have hmem := List.mem_of_getLast? hlast
  rw [netNick] at hlast hmem
  split at hlast
  · rcases List.exists_cons_of_ne_nil hp.1 with ⟨b, p', hcons⟩
    rw [List.getLast?_append, List.getLast?_cons, hcons, List.getLast?_cons] at hlast
    have hin : LF ∈ p := by
      rw [hcons]
      apply List.mem_of_getLast?
      rw [List.getLast?_cons]
      simpa using hlast
    exact hp.2.2.2 hin
  · exact hu.parentnick.2.2 (List.mem_of_getLast? hlast)

theorem fair_key (hrank : md ∉ u.modes.prefixmodes) (hkey : md = 107 ∨ md = 108) :
    u.Fair md w ↔ netNmode u.modes md = false ∨ lineWord w = u.myparentnick := by
  have hno : ¬ (md ≠ 107 ∧ md ≠ 108) := by
    rcases hkey with hmd | hmd
    · exact fun hne => hne.1 hmd
    · exact fun hne => hne.2 hmd
  rw [NetModeUser.Fair, or_iff_right hrank, and_iff_right hkey, or_iff_left]
  exact fun h => hno ⟨h.1, h.2.1⟩

theorem fair_other (hrank : md ∉ u.modes.prefixmodes) (hkey : ¬ (md = 107 ∨ md = 108)) :
    u.Fair md w ↔ u.modes.class? md ≠ some 0 ∨ netNmode u.modes md = true ∨ w = u.myparentnick := by
  rw [NetModeUser.Fair, or_iff_right hrank, or_iff_right (fun h => hkey h.1)]
  rw [not_or] at hkey
  rw [← and_assoc, and_iff_right hkey]

theorem rewritten_iff (hu : u.Sound) (hp : p ≠ [] ∧ NickText p) (hw : w = p ∨ w = p ++ r.ending)
    (he : r.ending = [] ∨ r.ending = [LF] ∨ r.ending = [CR, LF]) (hc : c.par = some w) :
    Rewritten u r.ending { c with par := c.par.map lineWord } (netText u c) ↔ u.Fair c.md w := by
  have hbare : lineWord w = p := by
    have hself := @lineWord_ending p [] hp.2 (Or.inl rfl)
    rw [List.append_nil] at hself
    rcases hw with rfl | rfl
    · exact hself
    · exact lineWord_ending hp.2 he
  -- The nick gets no token just if it is the nick of the parent.
  have hown : netNick u p = p ++ r.ending ↔ p = u.myparentnick ∧ r.ending = [] := by
    rcases he with he | he
    · rw [he, List.append_nil, netNick_eq_self, and_iff_left rfl]
    · refine iff_of_false (netNick_ne_ending hu hp he) (fun hno => ?_)
      rw [hno.2] at he
      rcases he with he | he
      · cases he
      · cases he
  -- With the end of the line behind it the word is nobody's nick.
  have hsame : w = netNick u p ↔ w = u.myparentnick := by
    rcases hw with rfl | rfl
    · rw [eq_comm, netNick_eq_self]
    · rw [eq_comm, hown]
      constructor
      · rintro ⟨rfl, hend⟩
        rw [hend, List.append_nil]
      · intro heq
        rcases he with hend | hend
        · rw [hend, List.append_nil] at heq
          exact ⟨heq, hend⟩
        · exfalso
          apply hu.parentnick.2.2
          rw [← heq, List.mem_append]
          right
          rcases hend with hend | hend
          · rw [hend]
            decide
          · rw [hend]
            decide
  have hforward : netNick u p = p ∨ netNick u p = p ++ r.ending ↔ p = u.myparentnick := by
    rw [netNick_eq_self, hown]
    exact ⟨fun h => h.elim id And.left, Or.inl⟩
  simp only [Rewritten, netText, hc, Option.map_some, Option.mem_def, Option.some.injEq, forall_eq', hbare,
    Option.getD_some]
  by_cases hrank : c.md ∈ u.modes.prefixmodes
  · have hnmode : netNmode u.modes c.md = true := by
      rw [netNmode, decide_eq_true hrank]
      rfl
    rw [if_pos hrank, if_pos hnmode]
    exact iff_of_true rfl (Or.inl hrank)
  by_cases hkey : c.md = 107 ∨ c.md = 108
  · -- The key and the limit should stay as they are, whatever class they were announced in.
    rw [if_neg hrank, if_pos hkey, fair_key hrank hkey, hbare]
    cases hnmode : netNmode u.modes c.md with
    | true =>
        rw [if_pos rfl, hforward, or_iff_right (by simp)]
    | false =>
        rw [if_neg Bool.false_ne_true]
        exact iff_of_true hw (Or.inl rfl)
  · rw [if_neg hrank, if_neg hkey, fair_other hrank hkey]
    cases hnmode : netNmode u.modes c.md with
    | true =>
        rw [if_pos rfl]
        refine iff_of_true ?_ (Or.inr (Or.inl rfl))
        split
        · rfl
        · exact Or.inl rfl
    | false =>
        rw [if_neg Bool.false_ne_true]
        -- A list mode should get a token; the code gives it none.
        by_cases hlist : u.modes.class? c.md = some 0
        · rw [if_pos hlist, hsame, or_iff_right (fun hno => hno hlist), or_iff_right Bool.false_ne_true]
        · rw [if_neg hlist]
          exact iff_of_true (Or.inr hw) (Or.inl hlist)

theorem Rewritten.blankfree (hu : u.Sound) (he : SP ∉ r.ending) (hc : c.par = some p) (hp : SP ∉ p)
    (h : Rewritten u r.ending c t) : SP ∉ t := by
  have hnick := netNick_blankfree hu hp
  have hword := h p hc
  have hend : SP ∉ p ++ r.ending := by
    rw [List.mem_append, not_or]
    exact ⟨hp, he⟩
  split at hword
  · rwa [hword]
  · split at hword
    · rcases hword with rfl | rfl
      · exact hp
      · exact hend
    · split at hword
      · rwa [hword]
      · rcases hword with rfl | rfl | rfl
        · exact hnick
        · exact hp
        · exact hend

theorem rewritten_blankfree (hu : u.Sound) (he : SP ∉ r.ending) {cs : List Change} {ts : List CStr}
    (hcs : ∀ c ∈ cs, ∃ p, c.par = some p ∧ SP ∉ p) (h : List.Forall₂ (Rewritten u r.ending) cs ts) :
    ∀ t ∈ ts, SP ∉ t := by
  induction h with
  | nil => exact fun t ht => by cases ht
  | cons hc _ ih =>
      rw [List.forall_mem_cons] at hcs
      rcases hcs.1 with ⟨p, hpar, hp⟩
      exact List.forall_mem_cons.2 ⟨hc.blankfree hu he hpar hp, ih hcs.2⟩

theorem netText_blankfree (hu : u.Sound) (h : r.WellFormed u) : ∀ t ∈ (r.given u).map (netText u), SP ∉ t := by
  intro t ht
  rcases List.mem_map.1 ht with ⟨c, hc, rfl⟩
  rcases mem_handed hc with ⟨w, hw, hpar⟩
  have hblank := (h.apart w hw).2
  rw [netText, hpar]
  split
  · exact netNick_blankfree hu (blankfree_of_spaced hblank)
  · exact hblank

theorem forall_handed {ls : List (Byte × Byte)} {ws : List CStr} {P : Change → Prop} :
    (∀ c ∈ handed ls ws, P c) ↔ ∀ x ∈ ls.zip ws, P ⟨x.1.1, x.1.2, some x.2⟩ := by
  induction ls generalizing ws with
  | nil => exact iff_of_true (fun c hc => by cases hc) (fun x hx => by cases hx)
  | cons l ls ih =>
      cases ws with
      | nil => exact iff_of_true (fun c hc => by cases hc) (fun x hx => by cases hx)
      | cons w ws => rw [handed_cons, List.forall_mem_cons, List.zip_cons_cons, List.forall_mem_cons, ih]

theorem map_lineWord_handed {ls : List (Byte × Byte)} {ws : List CStr} :
    (handed ls ws).map (fun c => { c with par := c.par.map lineWord }) = handed ls (ws.map lineWord) := by
  induction ls generalizing ws with
  | nil => rfl
  | cons l ls ih =>
      cases ws with
      | nil => rfl
      | cons w ws => rw [handed_cons, List.map_cons, List.map_cons, handed_cons, ih]; rfl

/-- The parameters of `netmode`, without the end of the line. -/
theorem given_lineWord (h : r.WellFormed u) : (r.given u).map (fun c => { c with par := c.par.map lineWord }) =
    handed (takers (codeTakes u.modes) r.mode PLUS) r.params := by
  rw [NetModeLine.given, map_lineWord_handed, NetModeLine.raw,
    map_lineWord_endWords (fun p hp => (h.params p hp).2) h.ending]

/-- The parameters of `addchannelmode`. -/
theorem addedParams_words (h : r.WellFormed u) (hfits : (unwords SP r.params).length < 4096) (hne : r.params ≠ []) :
    addedParams u.modes r.mode (unwords SP r.params) =
      handed (takers (codeTakes u.modes) (clip 200 r.mode) PLUS) r.params := by
  have hptr : some (unwords SP r.params) = wordsPtr r.params := by
    rcases List.exists_cons_of_ne_nil hne with ⟨w, ws, hws⟩
    rw [hws]
    rfl
  rw [addedParams, clip_eq_self hfits, hptr]
  exact readChanges_words fun p hp => ⟨(h.params p hp).1, (h.params p hp).2.1⟩

theorem addedParams_nil (hnil : r.params = []) : addedParams u.modes r.mode (unwords SP r.params) = [] ↔
    takers (codeTakes u.modes) (clip 200 r.mode) PLUS = [] := by
  have hclip : clip 4096 (unwords SP ([] : List CStr)) = unwords SP [] := by decide
  rw [addedParams, hnil, hclip]
  exact readChanges_empty

/-- What the letters get is right. -/
theorem forall₂_rewritten_iff (hu : u.Sound) (h : r.WellFormed u) : List.Forall₂ (Rewritten u r.ending)
    ((r.given u).map fun c => { c with par := c.par.map lineWord }) ((r.given u).map (netText u)) ↔
      ∀ x ∈ (takers (codeTakes u.modes) r.mode PLUS).zip r.raw, u.Fair x.1.2 x.2 := by
  have hzip : (∀ x ∈ (takers (codeTakes u.modes) r.mode PLUS).zip r.raw, u.Fair x.1.2 x.2) ↔
      ∀ c ∈ r.given u, u.Fair c.md (c.par.getD []) :=
    (@forall_handed _ _ fun c => u.Fair c.md (c.par.getD [])).symm
  rw [hzip, List.forall₂_map_left_iff, List.forall₂_map_right_iff, List.forall₂_same]
  apply forall₂_congr
  intro c hc
  rcases mem_handed hc with ⟨w, hw, hpar⟩
  rcases mem_endWords hw with ⟨p, hp, hcase⟩
  rw [rewritten_iff hu (h.params p hp) hcase h.ending hpar, hpar]
  rfl

/-- The letters of the whole line that take a parameter go on behind those of its first 199 bytes. -/
theorem takers_clip (u : NetModeUser) (mode : CStr) : ∃ more, takers (codeTakes u.modes) mode PLUS =
    takers (codeTakes u.modes) (clip 200 mode) PLUS ++ more := by
  rcases clip_prefix_self 200 mode with ⟨s, hs⟩
  rcases @takers_append (codeTakes u.modes) (clip 200 mode) s PLUS with ⟨sign, htakers⟩
  rw [hs] at htakers
  exact ⟨_, htakers⟩

/-- With as many letters as parameters both hand out the same. -/
theorem given_eq_addedParams (h : r.WellFormed u) (hfits : (unwords SP r.params).length < 4096)
    (hle : r.params.length ≤ (takers (codeTakes u.modes) (clip 200 r.mode) PLUS).length)
    (hempty : r.params = [] → takers (codeTakes u.modes) (clip 200 r.mode) PLUS = []) :
    (r.given u).map (fun c => { c with par := c.par.map lineWord }) =
        addedParams u.modes r.mode (unwords SP r.params) ∧
      (r.given u).length = r.params.length := by
  rcases takers_clip u r.mode with ⟨more, htakers⟩
  constructor
  · rw [given_lineWord h]
    by_cases hne : r.params = []
    · rw [(addedParams_nil hne).2 (hempty hne), hne, handed_nil]
    · rw [addedParams_words h hfits hne, htakers, handed_append hle]
  · rw [NetModeLine.given, length_handed, NetModeLine.raw, length_endWords, htakers, List.length_append]
    omega

/-- No parameter is left over where both have handed out the same. -/
theorem params_le_takers (h : r.WellFormed u) (hfits : (unwords SP r.params).length < 4096)
    (hlen : (addedParams u.modes r.mode (unwords SP r.params)).length = r.params.length) :
    r.params.length ≤ (takers (codeTakes u.modes) (clip 200 r.mode) PLUS).length ∧
      (r.params = [] → takers (codeTakes u.modes) (clip 200 r.mode) PLUS = []) := by
  constructor
  · by_cases hne : r.params = []
    · rw [hne]
      exact Nat.zero_le _
    · rw [addedParams_words h hfits hne, length_handed] at hlen
      omega
  · intro hnil
    apply (addedParams_nil hnil).1
    apply List.eq_nil_of_length_eq_zero
    rw [hlen, hnil]
    rfl

end Line

/-- Both agree if no parameter is left over, the letters that take one are among the first 199, and `k` and `l`
are told from the lists. -/
theorem netmode_agrees_iff (u : NetModeUser) (netircfrom : CStr) (r : NetModeLine) (hu : u.Sound)
    (h : r.WellFormed u) (hfits : r.Fits u netircfrom) :
    r.Agreed u netircfrom ↔
      r.params.length ≤ (takers (codeTakes u.modes) (clip 200 r.mode) PLUS).length ∧
        (r.params = [] → takers (codeTakes u.modes) (clip 200 r.mode) PLUS = []) ∧
        ∀ x ∈ (takers (codeTakes u.modes) r.mode PLUS).zip r.raw, u.Fair x.1.2 x.2 := by
  rw [NetModeLine.Agreed, netmode_line hu h hfits]
  dsimp only
  constructor
  · rintro ⟨hsame, ts, hts, hrewritten, hout⟩
    have hleft := params_le_takers h hfits.pr (hrewritten.length_eq.trans hts)
    refine ⟨hleft.1, hleft.2, ?_⟩
    by_cases hne : r.params = []
    · intro x hx
      rw [NetModeLine.raw, endWords_eq_nil.2 hne, List.zip_nil_right] at hx
      cases hx
    · have htsne : ts ≠ [] := by
        intro hnil
        rw [hnil] at hts
        exact hne (List.eq_nil_of_length_eq_zero hts.symm)
      rw [NetModeLine.withParams, if_neg hne, if_neg htsne, List.append_right_inj, List.append_right_inj,
        List.cons.injEq] at hout
      have hend : SP ∉ r.ending := by
        rcases h.ending with he | he | he
        · rw [he]
          decide
        · rw [he]
          decide
        · rw [he]
          decide
      -- No text has a blank, so the line gives them back one by one.
      have hblank : ∀ t ∈ ts, SP ∉ t := by
        apply rewritten_blankfree hu hend _ hrewritten
        intro c hc
        rw [addedParams_words h hfits.pr hne] at hc
        rcases mem_handed hc with ⟨p, hp, hpar⟩
        exact ⟨p, hpar, (h.params p hp).2.1⟩
      rw [← forall₂_rewritten_iff hu h, hsame, spaced_inj (netText_blankfree hu h) hblank hout.2]
      exact hrewritten
  · rintro ⟨hle, hempty, hall⟩
    rw [← forall₂_rewritten_iff hu h] at hall
    -- The loop gives every letter the word that the grammar gives it.
    rcases given_eq_addedParams h hfits.pr hle hempty with ⟨hadds, hlength⟩
    have htexts : ((r.given u).map (netText u)).length = r.params.length := by
      rw [List.length_map, hlength]
    refine ⟨hadds, (r.given u).map (netText u), htexts, hadds ▸ hall, ?_⟩
    rw [NetModeLine.withParams]
    by_cases hne : r.params = []
    · rw [if_pos hne, if_pos]
      apply List.eq_nil_of_length_eq_zero
      rw [htexts, hne]
      rfl
    · rw [if_neg hne, if_neg]
      intro hnil
      rw [hnil] at htexts
      exact hne (List.eq_nil_of_length_eq_zero htexts.symm)

/-- The announcement that most servers make, up to the letters. -/
def usualModes : ModeGrammar := ⟨ascii "ov", ascii "@+", ascii "b,k,l,imnps"⟩

def aliceModes : NetModeUser := ⟨ascii "alice", usualModes, ascii "#", ascii "net", ascii "ally"⟩

theorem aliceModes_sound : aliceModes.Sound where
  plus := ⟨by decide, by decide⟩
  minus := ⟨by decide, by decide⟩
  netname := by decide
  parentnick := ⟨by decide, by decide, by decide⟩

/-- Bob gives `dave` and `alice` a mode. -/
def bobsOps : NetModeLine := ⟨ascii ":bob", ascii "#c", ascii "+o-v", [ascii "dave", ascii "alice"], [CR, LF]⟩

/-- Bob sets a key. -/
def bobsKey : NetModeLine := ⟨ascii ":bob", ascii "#c", ascii "+k", [ascii "secret"], [CR, LF]⟩

theorem bobsKey_wellFormed : bobsKey.WellFormed aliceModes where
  source := by decide
  channel := ⟨by decide, HASH, ascii "c", rfl, by decide⟩
  mode := by decide
  params := by
    intro p hp
    rcases List.mem_singleton.1 hp with rfl
    exact ⟨by decide, by decide, by decide, by decide⟩
  ending := Or.inr (Or.inr rfl)

theorem netmode_agrees_bob : bobsOps.Agreed aliceModes (ascii "bob") := by
  refine (netmode_agrees_iff aliceModes (ascii "bob") bobsOps aliceModes_sound ?_ ?_).2 ⟨?_, ?_, ?_⟩
  · refine ⟨by decide, ⟨by decide, HASH, ascii "c", rfl, by decide⟩, by decide, ?_, Or.inr (Or.inr rfl)⟩
    intro p hp
    simp only [bobsOps, List.mem_cons, List.not_mem_nil, or_false] at hp
    rcases hp with rfl | rfl
    · exact ⟨by decide, by decide, by decide, by decide⟩
    · exact ⟨by decide, by decide, by decide, by decide⟩
  · exact ⟨by decide, by decide, by decide⟩
  · decide
  · exact fun hnil => by cases hnil
  · have hzip : (takers (codeTakes aliceModes.modes) bobsOps.mode PLUS).zip bobsOps.raw =
        [((PLUS, 111), ascii "dave"), ((MINUS, 118), ascii "alice\r\n")] := by
      decide
    rw [hzip]
    intro x hx
    simp only [List.mem_cons, List.not_mem_nil, or_false] at hx
    rcases hx with rfl | rfl
    · exact Or.inl (by decide)
    · exact Or.inl (by decide)

/-- The key gets the token. -/
theorem netmode_changes_key : ¬ ∀ (u : NetModeUser) (netircfrom : CStr) (r : NetModeLine), u.Sound → r.WellFormed u →
    r.Fits u netircfrom → (takers u.modes.takes r.mode PLUS).length ≤ r.params.length →
      r.Agreed u netircfrom := by
  intro hall
  have hfits : bobsKey.Fits aliceModes (ascii "bob") := ⟨by decide, by decide, by decide⟩
  rcases hall aliceModes (ascii "bob") bobsKey aliceModes_sound bobsKey_wellFormed hfits (by decide) with
    ⟨_, ts, _, hrewritten, hout⟩
  have hadded : addedParams aliceModes.modes bobsKey.mode (unwords SP bobsKey.params) =
      [⟨PLUS, 107, some (ascii "secret")⟩] := by
    decide
  have hline : (netmode aliceModes (ascii "bob") bobsKey.line).2 = ascii ":bob MODE #net~#c +k net~secret " := by
    decide
  rw [hadded, List.forall₂_cons_left_iff] at hrewritten
  rcases hrewritten with ⟨t, ts', ht, hrest, rfl⟩
  rw [List.forall₂_nil_left_iff.1 hrest, hline] at hout
  have hkey := ht (ascii "secret") rfl
  rw [if_neg (by decide), if_pos (by decide)] at hkey
  rcases hkey with rfl | rfl
  · exact absurd hout (by decide)
  · exact absurd hout (by decide)

end PsyBnc
