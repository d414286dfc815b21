import PsyBnc.Server.Mirror

/-!
# Hearing the server

The lines of a server are taken apart by `useroutbound` as they were put together, so that a session goes on reflecting
the server along every run.
-/

namespace PsyBnc

open CLib

section Parsing

variable {sender cmd params : CStr} {irc : Parsed}

theorem length_bytes (t : Terminator) : t.bytes.length ≤ 2 := by
  cases t with
  | cr => decide
  | lf => decide
  | crlf => decide

theorem parse_text (hsender : SP ∉ sender ∧ sender ≠ [] ∧ Inline sender)
    (hcmd : SP ∉ cmd ∧ Inline cmd ∧ cmd.length < 64) (hparams : Inline params)
    (hlen : (COLON :: (sender ++ SP :: (cmd ++ SP :: params))).length < 8000) (t : Terminator) :
    Sent sender cmd params (parse (COLON :: (sender ++ SP :: (cmd ++ SP :: params)) ++ t.bytes)) := by
  have hstop : ∀ b : Byte, b = CR ∨ b = LF → b ∉ COLON :: (sender ++ SP :: (cmd ++ SP :: params)) := by
    have hc : ∀ b : Byte, b = CR ∨ b = LF → b ≠ COLON ∧ b ≠ SP := by
      rintro b (rfl | rfl)
      · decide
      · decide
    intro b hb hmem
    rw [List.mem_cons, List.mem_append, List.mem_cons, List.mem_append, List.mem_cons] at hmem
    have hin : ∀ s : CStr, Inline s → b ∉ s := by
      intro s hs
      rcases hb with rfl | rfl
      · exact hs.2.1
      · exact hs.2.2
    rcases hmem with h | h | h | h | h | h
    · exact (hc b hb).1 h
    · exact hin _ hsender.2.2 h
    · exact (hc b hb).2 h
    · exact hin _ hcmd.2.1 h
    · exact (hc b hb).2 h
    · exact hin _ hparams h
  have hline := lineOf_terminated (hstop CR (Or.inl rfl)) (hstop LF (Or.inr rfl)) (by omega) t
  apply parse_sent hline hsender.1 hsender.2.1 hcmd.1 hcmd.2.2
  simp only [List.length_cons, List.length_append] at hlen
  omega

theorem ifcommand_eq (h : irc.irccommand = cmd) (hne : cmd ≠ []) (word : CStr) :
    ifcommand irc word = decide (word = cmd) := by
  rw [ifcommand, h, if_neg hne, Bool.eq_iff_iff, strmcmp_iff, decide_eq_true_iff]

theorem irccommand_eq (h : ifcommand irc cmd = true) : irc.irccommand = cmd ∧ cmd ≠ [] := by
  rw [ifcommand] at h
  split at h
  · cases h
  · next hne =>
    have hcmd := (strmcmp_iff.1 h).symm
    exact ⟨hcmd, hcmd ▸ hne⟩

end Parsing

/-! ## Lines of the server -/

section Lines

variable {c v q r : CStr} {ws : List CStr}

theorem ircto_word (irc : Parsed) (hc : SP ∉ c) (hhead : c.head? ≠ some COLON) (hlen : c.length < 800) :
    (serverParams c irc).ircto = c := by
  simp only [serverParams, cutAt_eq_none.2 hc, afterPrefix_colon_of_head hhead, Option.getD_none, rtrim_eq_self hc,
    clip_eq_self hlen]

theorem ircto_colon (irc : Parsed) (hc : SP ∉ c) (hlen : c.length < 800) :
    (serverParams (COLON :: c) irc).ircto = c := by
  have hsp : SP ∉ COLON :: c := by
    rw [List.mem_cons, not_or]
    exact ⟨by decide, hc⟩
  have hafter : afterPrefix [COLON] (COLON :: c) = some c := afterPrefix_append [COLON] c
  simp only [serverParams, cutAt_eq_none.2 hsp, hafter, Option.getD_some, rtrim_eq_self hc, clip_eq_self hlen]

theorem ircto_first (irc : Parsed) (hc : SP ∉ c) (hhead : c.head? ≠ some COLON) (hlen : c.length < 800) (r : CStr) :
    (serverParams (c ++ SP :: r) irc).ircto = c := by
  simp only [serverParams, cutAt_append hc, afterPrefix_colon_of_head hhead, rtrim_eq_self hc, clip_eq_self hlen]

/-- A line in front of its end. -/
theorem cutLine_terminated {s : CStr} (hcr : CR ∉ s) (hlf : LF ∉ s) (hlen : s.length < 2046) (t : Terminator) :
    cutLine (clip 2048 (s ++ t.bytes)) = s := by
  have hshort : (s ++ t.bytes).length < 2048 := by
    rw [List.length_append]
    exact Nat.add_lt_add_of_lt_of_le hlen (length_bytes t)
  rw [clip_eq_self hshort]
  cases t with
  | cr =>
      rw [cutLine, Terminator.bytes, cutAt_append hcr]
  | lf =>
      have hno : CR ∉ s ++ [LF] := by
        rw [List.mem_append, not_or]
        exact ⟨hcr, by decide⟩
      rw [cutLine, Terminator.bytes, cutAt_eq_none.2 hno]
      simp only [cutAt_append hlf]
  | crlf =>
      rw [cutLine, Terminator.bytes, cutAt_append hcr]

/-- A word that does not stand between separators is not found. -/
theorem cutStr_lead_none {e : CStr} (hv : SP ∉ v) (he : SP ∉ e) (hws : ∀ w ∈ ws, SP ∉ w ∧ w ≠ v) :
    cutStr (SP :: (v ++ [SP])) (lead SP e ws) = none := by
  induction ws with
  | nil =>
      exact cutStr_of_notMem he
  | cons w ws ih =>
      rw [List.forall_mem_cons] at hws
      have hno : ¬ (w = v ∧ ws ≠ []) := fun h => hws.1.2 h.1
      rw [cutStr_lead_cons hv hws.1.1 he, if_neg hno, ih hws.2]
      rfl

/-- The first word with the start `q`. -/
theorem cutStr_lead_start (hq : SP ∉ q) (hws : ∀ w ∈ ws, SP ∉ w ∧ ¬ q <+: w) :
    cutStr (SP :: q) (lead SP (SP :: (q ++ r)) ws) = some (lead SP [] ws, r) := by
  induction ws with
  | nil =>
      exact cutStr_append (SP :: q) r
  | cons w ws ih =>
      rw [List.forall_mem_cons] at hws
      have hno : ¬ SP :: q <+: SP :: (w ++ lead SP (SP :: (q ++ r)) ws) := by
        intro hpre
        have hpre' := (List.cons_prefix_cons.1 hpre).2
        rcases Nat.le_total q.length w.length with hle | hle
        · exact hws.1.2 (List.prefix_of_prefix_length_le hpre' (List.prefix_append _ _) hle)
        · -- the separator behind the word would stand in the start
          have hstep : ∃ z, lead SP (SP :: (q ++ r)) ws = SP :: z := by
            cases ws with
            | nil => exact ⟨_, rfl⟩
            | cons u us => exact ⟨_, rfl⟩
          rcases hstep with ⟨z, hz⟩
          rw [hz] at hpre'
          rcases Nat.eq_or_lt_of_le hle with heq | hlt
          · have hsame := List.prefix_of_prefix_length_le hpre' (List.prefix_append w (SP :: z)) (Nat.le_of_eq heq.symm)
            exact hws.1.2 hsame
          · have hlong : w ++ [SP] <+: q := by
              apply List.prefix_of_prefix_length_le _ hpre'
              · rw [List.length_append, List.length_singleton]
                exact hlt
              · exact (List.prefix_append_right_inj w).2 ⟨z, rfl⟩
            exact hq (hlong.subset (List.mem_append_right _ List.mem_cons_self))
      rw [lead_cons, cutStr, if_neg hno, cutStr_skip hws.1.1, ih hws.2]
      rfl

end Lines

/-! ## One event -/

/-- What the user or psyBNC does itself. -/
def UserSession.doing (s : UserSession) : ServerEvent → UserSession
  | .ask => cmdwho s
  | .forget => { s with triggered := 0 }
  | _ => s

section Hearing

variable {w : World} {s : UserSession} {n m c mask params : CStr}

theorem Reflects.congr (h : Reflects w s) (w' : World) (hme : w'.me = w.me) (hsigns : w'.signs = w.signs)
    (hasked : w'.asked = w.asked) (hshown : w'.shown = w.shown) : Reflects w' s where
  nick := h.nick.trans hme.symm
  signs := h.signs.trans hsigns.symm
  asked := h.asked.trans hasked.symm
  parent := h.parent
  conf := h.conf
  follows := hshown ▸ h.follows

theorem ServerNick.stops {signs : CStr} (h : ServerNick signs n) {b : Byte} (hb : b ∈ nickStops) : b ∉ n :=
  fun hmem => h.2.2.1 b hmem hb

theorem ServerNick.inline {signs : CStr} (h : ServerNick signs n) : Inline n :=
  ⟨h.stops (by decide), h.stops (by decide), h.stops (by decide)⟩

theorem ServerNick.head {signs : CStr} (h : ServerNick signs n) : n.head? ≠ some COLON :=
  fun hhead => h.stops (by decide : COLON ∈ nickStops) (List.mem_of_head? hhead)

theorem ChanText.head (h : ChanText c) : c.head? ≠ some COLON :=
  fun hhead => h.word.2.1 (List.mem_of_head? hhead)

theorem inline_append {s t : CStr} (hs : Inline s) (ht : Inline t) : Inline (s ++ t) := by
  refine ⟨?_, ?_, ?_⟩
  · exact fun h => (List.mem_append.1 h).elim hs.1 ht.1
  · exact fun h => (List.mem_append.1 h).elim hs.2.1 ht.2.1
  · exact fun h => (List.mem_append.1 h).elim hs.2.2 ht.2.2

theorem inline_cons {b : Byte} {s : CStr} (hb : b ≠ 0 ∧ b ≠ CR ∧ b ≠ LF) (hs : Inline s) : Inline (b :: s) :=
  ⟨List.not_mem_cons_of_ne_of_not_mem (Ne.symm hb.1) hs.1,
    List.not_mem_cons_of_ne_of_not_mem (Ne.symm hb.2.1) hs.2.1,
    List.not_mem_cons_of_ne_of_not_mem (Ne.symm hb.2.2) hs.2.2⟩

/-- What `parse` reads of a line from a user. -/
theorem parse_fromUser {signs : CStr} (cmd : CStr) (hn : ServerNick signs n) (hmask : MaskText mask)
    (hcmd : SP ∉ cmd ∧ Inline cmd ∧ cmd.length < 64) (hparams : Inline params) (hlen : params.length < 4000)
    (t : Terminator) :
    (parse (World.fromUser n mask cmd params ++ t.bytes)).irccommand = ucase cmd ∧
      (parse (World.fromUser n mask cmd params ++ t.bytes)).ircnick = n ∧
      ∃ irc, (parse (World.fromUser n mask cmd params ++ t.bytes)).ircto = (serverParams params irc).ircto := by
  have hsender : SP ∉ n ++ BANG :: mask ∧ n ++ BANG :: mask ≠ [] ∧ Inline (n ++ BANG :: mask) := by
    refine ⟨?_, ?_, inline_append hn.inline (inline_cons (by decide) hmask.2.1)⟩
    · rw [List.mem_append, List.mem_cons, not_or, not_or]
      exact ⟨hn.stops (by decide), by decide, hmask.1⟩
    · exact List.append_ne_nil_of_right_ne_nil n (List.cons_ne_nil _ _)
  have hshort : (COLON :: (n ++ BANG :: mask ++ SP :: (cmd ++ SP :: params))).length < 8000 := by
    have hnlen := hn.2.1
    have hmlen := hmask.2.2
    have hclen := hcmd.2.2
    simp only [List.length_cons, List.length_append]
    omega
  have hsent := parse_text hsender hcmd hparams hshort t
  exact ⟨hsent.command, hsent.nick n mask rfl (hn.stops (by decide)) hn.2.1, _, hsent.target⟩

namespace Reflects

theorem hear_join (h : Reflects w s) (hw : w.Sound) {chan : CStr} {colon : Bool} (t : Terminator)
    (he : w.Valid (.join n mask chan colon)) (hseen : w.Seen (.join n mask chan colon)) :
    ∃ s', useroutbound s (w.line t (.join n mask chan colon)) = some s' ∧
      Reflects (w.step (.join n mask chan colon)) s' := by
  rcases he with ⟨hn, hnew, hmask, hchan⟩
  have hnick := hw.nicks n (Set.mem_insert_of_mem _ hn)
  have hparams : Inline (if colon then COLON :: chan else chan) ∧
      (if colon then COLON :: chan else chan).length < 4000 := by
    have hshort := hchan.short
    cases colon with
    | false => exact ⟨hchan.word.2.2, Nat.lt_trans hshort (by decide)⟩
    | true =>
        refine ⟨inline_cons (by decide) hchan.word.2.2, ?_⟩
        simp only [if_pos, List.length_cons]
        omega
  rcases parse_fromUser (ascii "JOIN") hnick hmask (by decide) hparams.1 hparams.2 t with
    ⟨hcmd, hfrom, irc, hto⟩
  have hto' : (parse (w.line t (.join n mask chan colon))).ircto = chan := by
    apply hto.trans
    have hshort : chan.length < 800 := Nat.lt_trans hchan.short (by decide)
    cases colon with
    | false => exact ircto_word irc hchan.word.1 hchan.head hshort
    | true => exact ircto_colon irc hchan.word.1 hshort
  have hcode : useroutbound s (w.line t (.join n mask chan colon)) =
      gotjoin s (parse (w.line t (.join n mask chan colon))) := by
    have hif := ifcommand_eq hcmd (by decide)
    rw [useroutbound]
    simp only [World.line, World.text, hif]
    rfl
  rw [hcode]
  by_cases hother : n = w.me
  · subst hother
    exact h.join_own hw hfrom hto' hchan.short hnew
  · exact h.join_other hw hfrom hto' hn hother hnew (hseen.resolve_left hother)

theorem hear_part (h : Reflects w s) {chan : CStr} {reason : Option CStr} (t : Terminator)
    (he : w.Valid (.part n mask chan reason)) (hw : w.Sound) :
    ∃ s', useroutbound s (w.line t (.part n mask chan reason)) = some s' ∧
      Reflects (w.step (.part n mask chan reason)) s' := by
  rcases he with ⟨hn, hmask, hchan, hreason⟩
  have hnick := hw.nicks n (Set.mem_insert_of_mem _ (hw.sub _ hn))
  have hshort : chan.length < 800 := Nat.lt_trans hchan.short (by decide)
  have hparams : Inline (chan ++ (reason.map fun r => SP :: COLON :: r).getD []) ∧
      (chan ++ (reason.map fun r => SP :: COLON :: r).getD []).length < 4000 := by
    have hlen := hchan.short
    cases reason with
    | none =>
        rw [Option.map_none, Option.getD_none, List.append_nil]
        exact ⟨hchan.word.2.2, Nat.lt_trans hlen (by decide)⟩
    | some r =>
        have hr := hreason r rfl
        refine ⟨inline_append hchan.word.2.2 (inline_cons (by decide) (inline_cons (by decide) hr.1)), ?_⟩
        have hrlen := hr.2
        simp only [Option.map_some, Option.getD_some, List.length_append, List.length_cons]
        omega
  rcases parse_fromUser (ascii "PART") hnick hmask (by decide) hparams.1 hparams.2 t with
    ⟨hcmd, hfrom, irc, hto⟩
  have hto' : (parse (w.line t (.part n mask chan reason))).ircto = chan := by
    apply hto.trans
    cases reason with
    | none =>
        rw [Option.map_none, Option.getD_none, List.append_nil]
        exact ircto_word irc hchan.word.1 hchan.head hshort
    | some r =>
        exact ircto_first irc hchan.word.1 hchan.head hshort (COLON :: r)
  have hcode : useroutbound s (w.line t (.part n mask chan reason)) =
      gotpart s (parse (w.line t (.part n mask chan reason))) := by
    have hif := ifcommand_eq hcmd (by decide)
    rw [useroutbound]
    simp only [World.line, World.text, hif]
    rfl
  rw [hcode]
  by_cases hother : n = w.me
  · subst hother
    exact h.part_own hfrom hto'
  · exact h.part_other hfrom hto' hother

theorem hear_quit (h : Reflects w s) {reason : CStr} (t : Terminator) (he : w.Valid (.quit n mask reason))
    (hw : w.Sound) :
    ∃ s', useroutbound s (w.line t (.quit n mask reason)) = some s' ∧ Reflects (w.step (.quit n mask reason)) s' := by
  rcases he with ⟨hn, hmask, hreason⟩
  have hnick := hw.nicks n (Set.mem_insert_of_mem _ hn)
  have hparams : Inline (COLON :: reason) := inline_cons (by decide) hreason.1
  have hlen : (COLON :: reason).length < 4000 := Nat.lt_trans (Nat.succ_lt_succ hreason.2) (by decide)
  rcases parse_fromUser (ascii "QUIT") hnick hmask (by decide) hparams hlen t with ⟨hcmd, hfrom, _⟩
  have hcode : useroutbound s (w.line t (.quit n mask reason)) =
      gotquit s (parse (w.line t (.quit n mask reason))) := by
    have hif := ifcommand_eq hcmd (by decide)
    rw [useroutbound]
    simp only [World.line, World.text, hif]
    rfl
  rw [hcode]
  by_cases hother : n = w.me
  · subst hother
    rcases h.quit_own hfrom with ⟨s', hquit, hs'⟩
    exact ⟨s', hquit, hs'.congr _ rfl rfl rfl rfl⟩
  · rcases h.quit_other hfrom hother with ⟨s', hquit, hs'⟩
    exact ⟨s', hquit, hs'.congr _ rfl rfl rfl rfl⟩

theorem hear_nick (h : Reflects w s) {colon : Bool} (t : Terminator) (he : w.Valid (.nick n mask m colon))
    (hw : w.Sound) :
    ∃ s', useroutbound s (w.line t (.nick n mask m colon)) = some s' ∧ Reflects (w.step (.nick n mask m colon)) s' := by
  rcases he with ⟨hn, hne, hm, hfree, hmask⟩
  have hnick := hw.nicks n (Set.mem_insert_of_mem _ hn)
  have hsp : SP ∉ m := hm.stops (by decide)
  have hshort : m.length < 800 := Nat.lt_trans hm.2.1 (by decide)
  have hparams : Inline (if colon then COLON :: m else m) ∧ (if colon then COLON :: m else m).length < 4000 := by
    have hlen := hm.2.1
    cases colon with
    | false => exact ⟨hm.inline, Nat.lt_trans hlen (by decide)⟩
    | true =>
        refine ⟨inline_cons (by decide) hm.inline, ?_⟩
        simp only [if_pos, List.length_cons]
        omega
  rcases parse_fromUser (ascii "NICK") hnick hmask (by decide) hparams.1 hparams.2 t with
    ⟨hcmd, hfrom, irc, hto⟩
  have hto' : (parse (w.line t (.nick n mask m colon))).ircto = m := by
    apply hto.trans
    cases colon with
    | false => exact ircto_word irc hsp hm.head hshort
    | true => exact ircto_colon irc hsp hshort
  have hcode : useroutbound s (w.line t (.nick n mask m colon)) =
      gotnick s (parse (w.line t (.nick n mask m colon))) := by
    have hif := ifcommand_eq hcmd (by decide)
    rw [useroutbound]
    simp only [World.line, World.text, hif]
    rfl
  have hallows := hw.allows_rename hne hfree
  rw [hcode]
  by_cases hother : n = w.me
  · subst hother
    rcases h.nick_own hw hfrom hto' ⟨hm.1, hm.2.1⟩ hallows with ⟨s', hnick', hs'⟩
    exact ⟨s', hnick', hs'.congr _ rfl rfl rfl rfl⟩
  · rcases h.nick_other hw hfrom hto' hn hother hm.2.1 hallows with ⟨s', hnick', hs'⟩
    exact ⟨s', hnick', hs'.congr _ rfl rfl rfl rfl⟩

/-! ### From the server -/

theorem serverText_sender {server : CStr} (h : ServerText server) :
    SP ∉ server ∧ server ≠ [] ∧ Inline server := ⟨h.1.2.1, h.1.1, h.1.2.2⟩

theorem hear_kick (h : Reflects w s) {sender chan reason : CStr} (t : Terminator)
    (he : w.Valid (.kick sender chan n reason)) (hw : w.Sound) :
    ∃ s', useroutbound s (w.line t (.kick sender chan n reason)) = some s' ∧
      Reflects (w.step (.kick sender chan n reason)) s' := by
  rcases he with ⟨hn, hsender, hchan, hreason⟩
  have hnick := hw.nicks n (Set.mem_insert_of_mem _ (hw.sub _ hn))
  have hparams : Inline (chan ++ SP :: (n ++ SP :: COLON :: reason)) :=
    inline_append hchan.word.2.2 (inline_cons (by decide)
      (inline_append hnick.inline (inline_cons (by decide) (inline_cons (by decide) hreason.1))))
  have hlen : (COLON :: (sender ++ SP :: (ascii "KICK" ++ SP ::
      (chan ++ SP :: (n ++ SP :: COLON :: reason))))).length < 8000 := by
    have hslen := hsender.2
    have hclen := hchan.short
    have hnlen := hnick.2.1
    have hrlen := hreason.2
    have hkick : (ascii "KICK").length = 4 := by decide
    simp only [List.length_cons, List.length_append, hkick]
    omega
  have hsent := parse_text (serverText_sender hsender) (by decide) hparams hlen t
  have hcode : useroutbound s (w.line t (.kick sender chan n reason)) =
      some (gotkick s (w.line t (.kick sender chan n reason))) := by
    have hif := ifcommand_eq hsent.command (by decide)
    rw [useroutbound]
    simp only [World.line, World.text, hif]
    rfl
  have hkick : kicked (w.line t (.kick sender chan n reason)) = some (chan, n) := by
    have hsp : SP ∉ COLON :: sender := by
      rw [List.mem_cons, not_or]
      exact ⟨by decide, hsender.1.2.1⟩
    have hline : w.line t (.kick sender chan n reason) =
        (COLON :: sender) ++ (ascii " KICK " ++ (chan ++ SP :: (n ++ SP :: (COLON :: reason ++ t.bytes)))) := by
      simp [World.line, World.text, ascii]
    have hcut := cutStr_skip (p := ascii "KICK ")
      (s := ascii " KICK " ++ (chan ++ SP :: (n ++ SP :: (COLON :: reason ++ t.bytes)))) hsp
    have hpattern : SP :: ascii "KICK " = ascii " KICK " := by decide
    rw [hpattern, cutStr_append] at hcut
    have hstop : SP ∉ n := hnick.stops (by decide)
    rw [kicked, hline, hcut]
    simp only [Option.map_some, Option.bind_some, cutAt_append hchan.word.1, cutAt_append hstop,
      clip_eq_self hchan.short, clip_eq_self hnick.2.1]
  rw [hcode]
  refine ⟨_, rfl, ?_⟩
  by_cases hother : n = w.me
  · subst hother
    exact h.kick_own hkick
  · exact h.kick_other hkick hother

theorem sent_welcome (t : Terminator) {server text : CStr} (he : w.Valid (.welcome server m text)) :
    Sent server (ascii "001") (m ++ SP :: COLON :: text) (parse (w.line t (.welcome server m text))) := by
  rcases he with ⟨hserver, htext, hm, _⟩
  have hparams : Inline (m ++ SP :: COLON :: text) :=
    inline_append hm.inline (inline_cons (by decide) (inline_cons (by decide) htext.1))
  have hlen : (COLON :: (server ++ SP :: (ascii "001" ++ SP :: (m ++ SP :: COLON :: text)))).length < 8000 := by
    have hslen := hserver.2
    have hmlen := hm.2.1
    have htlen := htext.2
    have hcmd : (ascii "001").length = 3 := by decide
    simp only [List.length_cons, List.length_append, hcmd]
    omega
  exact parse_text (serverText_sender hserver) (by decide) hparams hlen t

theorem hear_welcome (h : Reflects w s) {server text : CStr} (t : Terminator) (he : w.Valid (.welcome server m text))
    (hw : w.Sound) :
    ∃ s', useroutbound s (w.line t (.welcome server m text)) = some s' ∧
      Reflects (w.step (.welcome server m text)) s' := by
  have hsent := sent_welcome t he
  rcases he with ⟨hserver, htext, hm, hfree, _⟩
  have hcode : useroutbound s (w.line t (.welcome server m text)) =
      some (msg001 s (parse (w.line t (.welcome server m text))) (w.line t (.welcome server m text))) := by
    have hif := ifcommand_eq hsent.command (by decide)
    rw [useroutbound]
    simp only [hif]
    rfl
  rw [hcode]
  refine ⟨_, rfl, ?_⟩
  apply h.welcome hw _ hm.2.1 hfree
  apply hsent.target.trans
  exact ircto_first _ (hm.stops (by decide)) hm.head (Nat.lt_trans hm.2.1 (by decide)) (COLON :: text)

theorem hear_other (h : Reflects w s) {line : CStr} (t : Terminator) (he : w.Valid (.other line)) :
    ∃ s', useroutbound s (w.line t (.other line)) = some s' ∧ Reflects (w.step (.other line)) s' := by
  have hno : ∀ cmd ∈ World.commands, ifcommand (parse line) cmd = false := he
  simp only [World.commands, List.forall_mem_cons] at hno
  rcases hno with ⟨herror, h001, h005, h352, h353, h315, hnick, hjoin, hpart, hquit, hkick, _⟩
  have hline : w.line t (.other line) = line := rfl
  have hstep : w.step (.other line) = w := rfl
  rw [hline, hstep]
  simp only [useroutbound, herror, h001, h005, h352, h353, h315, hnick, hjoin, hpart, hquit, hkick,
    Bool.false_eq_true, if_false]
  by_cases h324 : ifcommand (parse line) (ascii "324") = true
  · rw [if_pos h324]
    exact h.modes324 line
  · rw [if_neg h324]
    by_cases hmode : ifcommand (parse line) (ascii "MODE") = true
    · rw [if_pos hmode]
      exact h.mode (parse line)
    · rw [if_neg hmode]
      exact ⟨s, rfl, h⟩

theorem hear_error (h : Reflects w s) {line : CStr} (t : Terminator) (he : w.Valid (.error line)) :
    ∃ s', useroutbound s (w.line t (.error line)) = some s' ∧ Reflects (w.step (.error line)) s' := by
  refine ⟨msgERROR s, ?_, h.error line⟩
  rw [useroutbound]
  exact if_pos he

theorem hear_whoEnd (h : Reflects w s) {line : CStr} (t : Terminator) (he : w.Valid (.whoEnd line)) :
    ∃ s', useroutbound s (w.line t (.whoEnd line)) = some s' ∧ Reflects (w.step (.whoEnd line)) s' := by
  have hcmd := irccommand_eq he
  refine ⟨msg315 s, ?_, h.whoEnd line⟩
  have hif := ifcommand_eq hcmd.1 hcmd.2
  rw [useroutbound]
  simp only [World.line, hif]
  rfl

/-- A text after a number, from a server. -/
theorem parse_numeric {server rest : CStr} (number : CStr) (hserver : ServerText server)
    (hnumber : SP ∉ number ∧ Inline number ∧ number.length < 64) (hrest : Inline rest) (hlen : rest.length < 4000)
    (t : Terminator) :
    (parse (COLON :: (server ++ SP :: (number ++ SP :: rest)) ++ t.bytes)).irccommand = ucase number := by
  have hshort : (COLON :: (server ++ SP :: (number ++ SP :: rest))).length < 8000 := by
    have hslen := hserver.2
    have hnlen := hnumber.2.2
    simp only [List.length_cons, List.length_append]
    omega
  exact (parse_text (serverText_sender hserver) hnumber hrest hshort t).command

theorem inline_lead {e : CStr} {ws : List CStr} (he : Inline e) (hws : ∀ v ∈ ws, Inline v) : Inline (lead SP e ws) := by
  induction ws with
  | nil =>
      exact he
  | cons v ws ih =>
      rw [List.forall_mem_cons] at hws
      exact inline_cons (by decide) (inline_append hws.1 (ih hws.2))

theorem length_lead (e : CStr) (ws : List CStr) :
    (lead SP e ws).length = e.length + (ws.map fun v => v.length + 1).sum := by
  induction ws with
  | nil =>
      rfl
  | cons v ws ih =>
      rw [lead_cons, List.length_cons, List.length_append, ih, List.map_cons, List.sum_cons]
      omega

/-- The parameters of a WHO reply. -/
theorem rest_who (hw : w.Sound) {server chan ident host hop flags hops real : CStr}
    (he : w.Valid (.who server chan ident host hop n flags hops real)) :
    Inline (w.me ++ lead SP (SP :: (hops ++ SP :: real)) [chan, ident, host, hop, n, flags]) ∧
      (w.me ++ lead SP (SP :: (hops ++ SP :: real)) [chan, ident, host, hop, n, flags]).length < 4000 := by
  rcases he with ⟨_, hn, _, hchan, hwords, hreal⟩
  have hnick := hw.nicks n (Set.mem_insert_of_mem _ (hw.sub _ hn))
  have hme := hw.me_nick
  have hident := hwords ident (by simp)
  have hhost := hwords host (by simp)
  have hhop := hwords hop (by simp)
  have hflags := hwords flags (by simp)
  have hhops := hwords hops (by simp)
  constructor
  · apply inline_append hme.inline
    apply inline_lead (inline_cons (by decide) (inline_append hhops.2.1 (inline_cons (by decide) hreal.1)))
    simp only [List.forall_mem_cons]
    exact ⟨hchan.word.2.2, hident.2.1, hhost.2.1, hhop.2.1, hnick.inline, hflags.2.1, fun v hv => nomatch hv⟩
  · have h₁ := hme.2.1
    have h₂ := hchan.short
    have h₃ := hident.2.2
    have h₄ := hhost.2.2
    have h₅ := hhop.2.2
    have h₆ := hnick.2.1
    have h₇ := hflags.2.2
    have h₈ := hhops.2.2
    have h₉ := hreal.2
    simp only [List.length_append, length_lead, List.length_cons, List.map_cons, List.sum_cons, List.map_nil,
      List.sum_nil]
    omega

/-- A WHO reply is known by its number. -/
theorem parse_who (hw : w.Sound) {server chan ident host hop flags hops real : CStr} (t : Terminator)
    (he : w.Valid (.who server chan ident host hop n flags hops real)) :
    (parse (w.line t (.who server chan ident host hop n flags hops real))).irccommand = ascii "352" := by
  have hrest := rest_who hw he
  have hline : w.line t (.who server chan ident host hop n flags hops real) =
      COLON :: (server ++ SP :: (ascii "352" ++ SP ::
        (w.me ++ lead SP (SP :: (hops ++ SP :: real)) [chan, ident, host, hop, n, flags]))) ++ t.bytes := by
    simp [World.line, World.text]
  rw [hline]
  exact parse_numeric (ascii "352") he.2.2.1 (by decide) hrest.1 hrest.2 t

theorem hear_who (h : Reflects w s) {server chan ident host hop flags hops real : CStr} (t : Terminator)
    (he : w.Valid (.who server chan ident host hop n flags hops real)) (hw : w.Sound) :
    ∃ s', useroutbound s (w.line t (.who server chan ident host hop n flags hops real)) = some s' ∧
      Reflects (w.step (.who server chan ident host hop n flags hops real)) s' := by
  have hcmd := parse_who hw t he
  have hlens := (rest_who hw he).2
  rcases he with ⟨hon, hn, hserver, hchan, hwords, hreal⟩
  have hnick := hw.nicks n (Set.mem_insert_of_mem _ (hw.sub _ hn))
  have hme := hw.me_nick
  have hident := hwords ident (by simp)
  have hhost := hwords host (by simp)
  have hhop := hwords hop (by simp)
  have hflags := hwords flags (by simp)
  have hhops := hwords hops (by simp)
  have hline : w.line t (.who server chan ident host hop n flags hops real) =
      COLON :: (server ++ SP :: (ascii "352" ++ SP ::
        (w.me ++ lead SP (SP :: (hops ++ SP :: real)) [chan, ident, host, hop, n, flags]))) ++ t.bytes := by
    simp [World.line, World.text]
  have hcode : useroutbound s (w.line t (.who server chan ident host hop n flags hops real)) =
      some (msg352 s (w.line t (.who server chan ident host hop n flags hops real))) := by
    have hif := ifcommand_eq hcmd (by decide)
    rw [useroutbound]
    simp only [hif]
    rfl
  -- The words of the line are those that `msg352` picks by their number.
  have hsplit : (clip 8192 (w.line t (.who server chan ident host hop n flags hops real))).splitOn SP =
      (COLON :: server) :: ascii "352" :: w.me :: chan :: ident :: host :: hop :: n :: flags :: hops ::
        (real ++ t.bytes).splitOn SP := by
    have hshort : (w.line t (.who server chan ident host hop n flags hops real)).length < 8192 := by
      have hbytes := length_bytes t
      have hslen := hserver.2
      have hnum : (ascii "352").length = 3 := by decide
      rw [hline]
      simp only [List.length_append, List.length_cons, hnum] at hlens ⊢
      omega
    have hwhole : w.line t (.who server chan ident host hop n flags hops real) =
        ((COLON :: server) ++ lead SP [] [ascii "352", w.me, chan, ident, host, hop, n, flags, hops]) ++
          SP :: (real ++ t.bytes) := by
      simp [World.line, World.text]
    rw [clip_eq_self hshort, hwhole, List.splitOn_append_cons_self, splitOn_lead]
    · rfl
    · rw [List.mem_cons, not_or]
      exact ⟨by decide, hserver.1.2.1⟩
    · simp only [List.forall_mem_cons]
      exact ⟨by decide, hme.stops (by decide), hchan.word.1, hident.1, hhost.1, hhop.1, hnick.stops (by decide),
        hflags.1, hhops.1, fun v hv => nomatch hv⟩
  rw [hcode]
  refine ⟨_, rfl, ?_⟩
  by_cases hnone : w.asked = 0
  · rw [World.step, if_pos hnone, msg352, if_pos (h.asked.trans hnone)]
    exact h.who hw hsplit hchan.short hn hon
  · -- the client asked for it
    rw [World.step, if_neg hnone, msg352, if_neg (h.asked.symm ▸ hnone)]
    exact h

/-- The kind of the channel is looked for behind the own nick. -/
theorem cutStr_kind {me chan first : CStr} {kind b : Byte} {more : List CStr} (hme : SP ∉ me) (hkind : SP ∉ [kind])
    (hb : SP ∉ [b]) (hws : ∀ v ∈ chan :: (COLON :: first) :: more, SP ∉ v ∧ v ≠ [b]) :
    cutStr (SP :: ([b] ++ [SP])) (me ++ lead SP [] ([kind] :: chan :: (COLON :: first) :: more)) =
      if kind = b then some (me, chan ++ SP :: COLON :: (first ++ lead SP [] more)) else none := by
  rw [cutStr_skip hme, cutStr_lead_cons hb hkind (by decide)]
  by_cases heq : kind = b
  · subst heq
    rw [if_pos ⟨rfl, List.cons_ne_nil _ _⟩, if_pos rfl]
    simp
  · have hno : ¬ ([kind] = [b] ∧ chan :: (COLON :: first) :: more ≠ []) := by
      rintro ⟨hkb, _⟩
      exact heq (List.cons.inj hkb).1
    rw [if_neg hno, if_neg heq, cutStr_lead_none hb (by decide) hws]
    rfl

theorem namesReply_line {server me chan first : CStr} {kind : Byte} {more : List CStr} (hserver : SP ∉ server)
    (hme : SP ∉ me) (hchan : ChanText chan) (hkind : kind ∈ [EQUALS, AT, WILDS])
    (hwords : ∀ v ∈ (COLON :: first) :: more, SP ∉ v ∧ ∀ b ∈ [EQUALS, AT, WILDS], v ≠ [b])
    (hinline : Inline (COLON :: (server ++
      lead SP [] (ascii "353" :: me :: [kind] :: chan :: (COLON :: first) :: more))))
    (hlen : (COLON :: (server ++
      lead SP [] (ascii "353" :: me :: [kind] :: chan :: (COLON :: first) :: more))).length < 2046) (t : Terminator) :
    namesReply (COLON :: (server ++
      lead SP [] (ascii "353" :: me :: [kind] :: chan :: (COLON :: first) :: more)) ++ t.bytes) =
        some (chan, first ++ lead SP [] more) := by
  have hsp : SP ∉ COLON :: server := by
    rw [List.mem_cons, not_or]
    exact ⟨by decide, hserver⟩
  have hnumber : ascii " 353 " = SP :: (ascii "353" ++ [SP]) := by decide
  have hcut : cutStr (ascii " 353 ") ((COLON :: server) ++
      lead SP [] (ascii "353" :: me :: [kind] :: chan :: (COLON :: first) :: more)) =
      some (COLON :: server, me ++ lead SP [] ([kind] :: chan :: (COLON :: first) :: more)) := by
    rw [hnumber, cutStr_skip hsp, cutStr_lead_cons (by decide) (by decide) (by decide),
      if_pos ⟨rfl, List.cons_ne_nil _ _⟩]
    simp
  -- Of the three signs that the source looks for, only the one of the line is found.
  have hkinds : ∀ b ∈ [EQUALS, AT, WILDS], cutStr (SP :: ([b] ++ [SP]))
      (me ++ lead SP [] ([kind] :: chan :: (COLON :: first) :: more)) =
        if kind = b then some (me, chan ++ SP :: COLON :: (first ++ lead SP [] more)) else none := by
    have hsep : ∀ b ∈ [EQUALS, AT, WILDS], SP ∉ [b] := by decide
    intro b hb
    apply cutStr_kind hme (hsep kind hkind) (hsep b hb)
    rw [List.forall_mem_cons]
    refine ⟨⟨hchan.word.1, ?_⟩, fun v hv => ⟨(hwords v hv).1, (hwords v hv).2 b hb⟩⟩
    rintro rfl
    rcases hchan.sign with ⟨b', hb', hsign⟩
    cases hb'
    have hno : ∀ b ∈ [EQUALS, AT, WILDS], b ∉ ascii "#&+!" := by decide
    exact hno b hb hsign
  have hkind' : (cutStr (ascii " = ") (me ++ lead SP [] ([kind] :: chan :: (COLON :: first) :: more))).or
      ((cutStr (ascii " @ ") (me ++ lead SP [] ([kind] :: chan :: (COLON :: first) :: more))).or
        (cutStr (ascii " * ") (me ++ lead SP [] ([kind] :: chan :: (COLON :: first) :: more)))) =
      some (me, chan ++ SP :: COLON :: (first ++ lead SP [] more)) := by
    have h₁ := hkinds EQUALS (by decide)
    have h₂ := hkinds AT (by decide)
    have h₃ := hkinds WILDS (by decide)
    have hp₁ : ascii " = " = SP :: ([EQUALS] ++ [SP]) := by decide
    have hp₂ : ascii " @ " = SP :: ([AT] ++ [SP]) := by decide
    have hp₃ : ascii " * " = SP :: ([WILDS] ++ [SP]) := by decide
    rw [hp₁, hp₂, hp₃, h₁, h₂, h₃]
    simp only [List.mem_cons, List.not_mem_nil, or_false] at hkind
    rcases hkind with rfl | rfl | rfl
    · rfl
    · rfl
    · rfl
  have hcolon : cutAt COLON (SP :: COLON :: (first ++ lead SP [] more)) = some ([SP], first ++ lead SP [] more) :=
    cutAt_append (u := [SP]) (by decide)
  have hshort : chan.length < 300 := Nat.lt_trans hchan.short (by decide)
  have hcut' := hcut
  rw [List.cons_append] at hcut'
  rw [namesReply, cutLine_terminated hinline.2.1 hinline.2.2 hlen, hcut']
  simp only [Option.bind_some, hkind', cutAt_append hchan.word.1, hcolon, Option.map_some, clip_eq_self hshort]

theorem namesWords_inline {words : List (CStr × CStr)} {signs : CStr} {on : Set CStr}
    (hsigns : SP ∉ signs ∧ Inline signs) (hon : ∀ n ∈ on, ServerNick signs n)
    (hwords : ∀ p ∈ words, (∀ b ∈ p.1, b ∈ signs) ∧ (p.2 ∈ on ∨ p = ([], []))) :
    ∀ p ∈ words, SP ∉ p.1 ++ p.2 ∧ Inline (p.1 ++ p.2) ∧ ∀ b ∈ [EQUALS, AT, WILDS], p.1 ++ p.2 ≠ [b] := by
  intro p hp
  rcases hwords p hp with ⟨hpre, hnick | heq⟩
  · have hn := hon p.2 hnick
    have hin : ∀ b, b ∉ signs → b ∈ nickStops → b ∉ p.1 ++ p.2 := by
      intro b hb hstop hmem
      rcases List.mem_append.1 hmem with hmem | hmem
      · exact hb (hpre b hmem)
      · exact hn.stops hstop hmem
    refine ⟨hin SP hsigns.1 (by decide), ⟨hin 0 hsigns.2.1 (by decide), hin CR hsigns.2.2.1 (by decide),
      hin LF hsigns.2.2.2 (by decide)⟩, ?_⟩
    intro b hb heq
    have hlast : b ∈ p.2 := by
      have hne := hn.1
      have hget := congrArg List.getLast? heq
      rw [List.getLast?_append_of_ne_nil _ hne, List.getLast?_singleton] at hget
      exact List.mem_of_getLast? hget
    have hstop : b ∈ nickStops := by
      simp only [List.mem_cons, List.not_mem_nil, or_false] at hb
      rcases hb with rfl | rfl | rfl
      · decide
      · decide
      · decide
    exact hn.stops hstop hlast
  · rw [heq]
    exact ⟨by decide, by decide, fun b _ h => nomatch h⟩

theorem length_words (words : List (CStr × CStr)) :
    ((words.map fun p => p.1 ++ p.2).map fun v => v.length + 1).sum =
      (words.map fun p => p.1.length + p.2.length + 1).sum := by
  rw [List.map_map]
  congr 1
  apply List.map_congr_left
  intro p _
  rw [Function.comp_apply, List.length_append]

/-- The parameters of a NAMES reply. -/
theorem rest_names (hw : w.Sound) {server chan : CStr} {kind : Byte} {words : List (CStr × CStr)}
    (he : w.Valid (.names server kind chan words)) :
    Inline (w.me ++ lead SP [] ([kind] :: chan :: World.namesWords words)) ∧
      (w.me ++ lead SP [] ([kind] :: chan :: World.namesWords words)).length < 1500 := by
  rcases he with ⟨_, ⟨_, hchan, hkind⟩, hne, hsum, hwords⟩
  rcases List.exists_cons_of_ne_nil hne with ⟨p, rest, rfl⟩
  have hme := hw.me_nick
  have hnicks : ∀ n ∈ w.on (foldName chan), ServerNick w.signs n :=
    fun n hn => hw.nicks n (Set.mem_insert_of_mem _ (hw.sub _ hn))
  have htexts := namesWords_inline hw.signs hnicks hwords
  have hkind' : Inline [kind] := by
    simp only [List.mem_cons, List.not_mem_nil, or_false] at hkind
    rcases hkind with rfl | rfl | rfl
    · decide
    · decide
    · decide
  constructor
  · apply inline_append hme.inline
    apply inline_lead (by decide)
    rw [World.namesWords]
    simp only [List.forall_mem_cons]
    refine ⟨hkind', hchan.word.2.2, inline_cons (by decide) (htexts p List.mem_cons_self).2.1, ?_⟩
    intro v hv
    rcases List.mem_map.1 hv with ⟨q, hq, rfl⟩
    exact (htexts q (List.mem_cons_of_mem p hq)).2.1
  · have h₁ := hme.2.1
    have h₂ := hchan.short
    have hwhole := length_words rest
    simp only [List.map_cons, List.sum_cons] at hsum
    rw [World.namesWords]
    simp only [List.length_append, length_lead, List.length_cons, List.map_cons, List.sum_cons, List.length_nil, hwhole]
    omega

theorem hear_names (h : Reflects w s) {server chan : CStr} {kind : Byte} {words : List (CStr × CStr)} (t : Terminator)
    (he : w.Valid (.names server kind chan words)) (hw : w.Sound) :
    ∃ s', useroutbound s (w.line t (.names server kind chan words)) = some s' ∧
      Reflects (w.step (.names server kind chan words)) s' := by
  rcases rest_names hw he with ⟨hrest, hlens⟩
  rcases he with ⟨hon, ⟨hserver, hchan, hkind⟩, hne, hsum, hwords⟩
  rcases List.exists_cons_of_ne_nil hne with ⟨p, rest, rfl⟩
  have hme := hw.me_nick
  have hnicks : ∀ n ∈ w.on (foldName chan), ServerNick w.signs n :=
    fun n hn => hw.nicks n (Set.mem_insert_of_mem _ (hw.sub _ hn))
  have htexts := namesWords_inline hw.signs hnicks hwords
  have hmore : ∀ v ∈ rest.map fun p => p.1 ++ p.2, SP ∉ v ∧ Inline v ∧ ∀ b ∈ [EQUALS, AT, WILDS], v ≠ [b] := by
    intro v hv
    rcases List.mem_map.1 hv with ⟨q, hq, rfl⟩
    exact htexts q (List.mem_cons_of_mem p hq)
  have hline : w.line t (.names server kind chan (p :: rest)) =
      COLON :: (server ++ SP :: (ascii "353" ++ SP ::
        (w.me ++ lead SP [] ([kind] :: chan :: World.namesWords (p :: rest))))) ++ t.bytes := by
    simp [World.line, World.text]
  have hcmd := parse_numeric (ascii "353") hserver (by decide) hrest (by omega) t
  rw [← hline] at hcmd
  have hcode : useroutbound s (w.line t (.names server kind chan (p :: rest))) =
      some (msg353 s (w.line t (.names server kind chan (p :: rest)))) := by
    have hif := ifcommand_eq hcmd (by decide)
    rw [useroutbound]
    simp only [hif]
    rfl
  -- `msg353` finds the channel and the names behind the colon.
  have hreply : namesReply (w.line t (.names server kind chan (p :: rest))) =
      some (chan, (p.1 ++ p.2) ++ lead SP [] (rest.map fun p => p.1 ++ p.2)) := by
    have hwhole : w.line t (.names server kind chan (p :: rest)) = COLON :: (server ++
        lead SP [] (ascii "353" :: w.me :: [kind] :: chan :: World.namesWords (p :: rest))) ++ t.bytes := rfl
    rw [hwhole]
    apply namesReply_line hserver.1.2.1 (hme.stops (by decide)) hchan hkind
    · rw [List.forall_mem_cons]
      refine ⟨⟨?_, ?_⟩, fun v hv => ⟨(hmore v hv).1, (hmore v hv).2.2⟩⟩
      · rw [List.mem_cons, not_or]
        exact ⟨by decide, (htexts p List.mem_cons_self).1⟩
      · intro b hb heq
        have hno : COLON ∉ [EQUALS, AT, WILDS] := by decide
        exact hno ((List.cons.inj heq).1 ▸ hb)
    · exact inline_cons (by decide) (inline_append hserver.1.2.2 (inline_cons (by decide)
        (inline_append (by decide : Inline (ascii "353")) (inline_cons (by decide) hrest))))
    · have hslen := hserver.2
      have hnum : (ascii "353").length = 3 := by decide
      simp only [List.length_cons, List.length_append, lead_cons, World.namesWords, hnum] at hlens ⊢
      omega
  have hsplit : ((p.1 ++ p.2) ++ lead SP [] (rest.map fun p => p.1 ++ p.2)).splitOn SP =
      (p :: rest).map fun p => p.1 ++ p.2 :=
    splitOn_lead (htexts p List.mem_cons_self).1 fun v hv => (hmore v hv).1
  rw [hcode]
  exact ⟨_, rfl, h.names hw hreply hsplit hon hwords⟩

theorem mapChanmodes_fields (line : CStr) (u : Usert) :
    (mapChanmodes line u).prefixchars = u.prefixchars ∧ (mapChanmodes line u).uid = u.uid := by
  rw [mapChanmodes]
  split
  · exact ⟨rfl, rfl⟩
  · exact ⟨rfl, rfl⟩

/-- The announced signs are stored. -/
theorem mapPrefix_line {server me modes signs r : CStr} {before : List CStr} (u : Usert) (hserver : SP ∉ server)
    (hme : SP ∉ me ∧ EQUALS ∉ me) (hbefore : ∀ v ∈ before, SP ∉ v ∧ ¬ ascii "PREFIX=(" <+: v)
    (hmodes : SP ∉ modes ∧ (41 : Byte) ∉ modes) (hsigns : SP ∉ signs ∧ signs.length < 30) :
    (mapPrefix ((COLON :: server) ++ lead SP (SP :: (ascii "PREFIX=(" ++ (modes ++ 41 :: (signs ++ SP :: r))))
      (ascii "005" :: me :: before)) u).prefixchars = signs ∧
    (mapPrefix ((COLON :: server) ++ lead SP (SP :: (ascii "PREFIX=(" ++ (modes ++ 41 :: (signs ++ SP :: r))))
      (ascii "005" :: me :: before)) u).uid = u.uid := by
  have hsp : SP ∉ COLON :: server := by
    rw [List.mem_cons, not_or]
    exact ⟨by decide, hserver⟩
  have hpattern : ascii " PREFIX=(" = SP :: ascii "PREFIX=(" := by decide
  have hcut : cutStr (ascii " PREFIX=(") ((COLON :: server) ++
      lead SP (SP :: (ascii "PREFIX=(" ++ (modes ++ 41 :: (signs ++ SP :: r)))) (ascii "005" :: me :: before)) =
      some ((COLON :: server) ++ lead SP [] (ascii "005" :: me :: before), modes ++ 41 :: (signs ++ SP :: r)) := by
    rw [hpattern, cutStr_skip hsp, cutStr_lead_start (by decide)]
    · rfl
    · simp only [List.forall_mem_cons]
      refine ⟨by decide, ⟨hme.1, ?_⟩, hbefore⟩
      exact fun hpre => hme.2 (hpre.subset (by decide))
  rw [mapPrefix, hcut]
  simp only [Option.bind_some, cutAt_append hmodes.2, if_neg hmodes.1, cutAt_append hsigns.1, clip_eq_self hsigns.2]
  exact ⟨trivial, trivial⟩

/-- The parameters of an ISUPPORT line. -/
theorem rest_isupport (hw : w.Sound) {server modes signs after : CStr} {before : List CStr}
    (he : w.Valid (.isupport server before modes signs after)) :
    Inline (w.me ++ lead SP (SP :: (ascii "PREFIX=(" ++ (modes ++ 41 :: (signs ++ SP :: after)))) before) ∧
      (w.me ++ lead SP (SP :: (ascii "PREFIX=(" ++ (modes ++ 41 :: (signs ++ SP :: after)))) before).length < 4000 := by
  rcases he with ⟨⟨_, hafter, hbefore⟩, hsum, hmodes, hsigns, _⟩
  have hme := hw.me_nick
  have htail : Inline (SP :: (ascii "PREFIX=(" ++ (modes ++ 41 :: (signs ++ SP :: after)))) :=
    inline_cons (by decide) (inline_append (by decide : Inline (ascii "PREFIX=(")) (inline_append hmodes.2.2.1
      (inline_cons (by decide) (inline_append hsigns.2.1 (inline_cons (by decide) hafter.1)))))
  constructor
  · exact inline_append hme.inline (inline_lead htail fun v hv => (hbefore v hv).2.1)
  · have h₁ := hme.2.1
    have h₂ := hafter.2
    have h₃ := hmodes.2.2.2
    have h₄ := hsigns.2.2
    have hkey : (ascii "PREFIX=(").length = 8 := by decide
    simp only [List.length_append, length_lead, List.length_cons, hkey]
    omega

theorem line_isupport (t : Terminator) {server modes signs after : CStr} {before : List CStr} :
    w.line t (.isupport server before modes signs after) =
      COLON :: (server ++ SP :: (ascii "005" ++ SP :: (w.me ++
        lead SP (SP :: (ascii "PREFIX=(" ++ (modes ++ 41 :: (signs ++ SP :: after)))) before))) ++ t.bytes := by
  simp [World.line, World.text]

theorem parse_isupport (hw : w.Sound) (t : Terminator) {server modes signs after : CStr} {before : List CStr}
    (he : w.Valid (.isupport server before modes signs after)) :
    (parse (w.line t (.isupport server before modes signs after))).irccommand = ascii "005" := by
  have hrest := rest_isupport hw he
  rw [line_isupport]
  exact parse_numeric (ascii "005") he.1.1 (by decide) hrest.1 hrest.2 t

theorem hear_isupport (h : Reflects w s) {server modes signs after : CStr} {before : List CStr} (t : Terminator)
    (he : w.Valid (.isupport server before modes signs after)) (hw : w.Sound) :
    ∃ s', useroutbound s (w.line t (.isupport server before modes signs after)) = some s' ∧
      Reflects (w.step (.isupport server before modes signs after)) s' := by
  have hcmd := parse_isupport hw t he
  rcases he with ⟨⟨hserver, hafter, hbefore⟩, hsum, hmodes, hsigns, _⟩
  have hme := hw.me_nick
  have hcode : useroutbound s (w.line t (.isupport server before modes signs after)) =
      some (mapprefixed s (w.line t (.isupport server before modes signs after))) := by
    have hif := ifcommand_eq hcmd (by decide)
    rw [useroutbound]
    simp only [hif]
    rfl
  have hwhole : w.line t (.isupport server before modes signs after) =
      (COLON :: server) ++ lead SP (SP :: (ascii "PREFIX=(" ++ (modes ++ 41 :: (signs ++ SP :: (after ++ t.bytes)))))
        (ascii "005" :: w.me :: before) := by
    rw [line_isupport]
    have hend : ∀ e : CStr, lead SP e before ++ t.bytes = lead SP (e ++ t.bytes) before := fun e => lead_append_end.symm
    simp only [lead_cons, List.cons_append, List.append_assoc, hend]
  have hfields := mapPrefix_line (r := after ++ t.bytes) s.user hserver.1.2.1
    ⟨hme.stops (by decide), hme.stops (by decide)⟩
    (fun v hv => ⟨(hbefore v hv).1, (hbefore v hv).2.2⟩) ⟨hmodes.1, hmodes.2.1⟩ ⟨hsigns.1, hsigns.2.2⟩
  rw [← hwhole] at hfields
  have hlast := mapChanmodes_fields (w.line t (.isupport server before modes signs after))
    (mapPrefix (w.line t (.isupport server before modes signs after)) s.user)
  rw [hcode]
  refine ⟨_, rfl, ?_⟩
  exact
    { nick := h.nick
      signs := hlast.1.trans hfields.1
      asked := h.asked
      parent := h.parent
      conf := (hlast.2.trans hfields.2).symm ▸ h.conf
      follows := by
        rw [mapprefixed, channels_mapChanmodes, channels_mapPrefix]
        exact h.follows }

/-- A line that is sent is followed. -/
theorem hear (h : Reflects w s) (hw : w.Sound) (t : Terminator) {e : ServerEvent} (he : w.Valid e) (hseen : w.Seen e) :
    ∃ s', useroutbound s (w.line t e) = some s' ∧ Reflects (w.step e) s' := by
  cases e with
  | connect n =>
      exact hseen.elim
  | join n mask chan colon =>
      exact h.hear_join hw t he hseen
  | names server kind chan words =>
      exact h.hear_names t he hw
  | who server chan ident host hop n flags hops real =>
      exact h.hear_who t he hw
  | part n mask chan reason =>
      exact h.hear_part t he hw
  | kick sender chan n reason =>
      exact h.hear_kick t he hw
  | quit n mask reason =>
      exact h.hear_quit t he hw
  | nick n mask m colon =>
      exact h.hear_nick t he hw
  | welcome server m text =>
      exact h.hear_welcome t he hw
  | isupport server before modes signs after =>
      exact h.hear_isupport t he hw
  | error line =>
      exact h.hear_error t he
  | whoEnd line =>
      exact h.hear_whoEnd t he
  | other line =>
      exact h.hear_other t he
  | ask =>
      exact hseen.elim
  | forget =>
      exact hseen.elim

theorem depart_unseen (h : Reflects w s) (hn : n ∈ w.on c) (hoff : w.me ∉ w.on c) :
    Reflects (w.move (.depart c n)) s := by
  have hother : n ≠ w.me := by
    rintro rfl
    exact hoff hn
  have hoff' : w.me ∉ (w.move (.depart c n)).on c := by
    have hon : (w.move (.depart c n)).on c = w.on c \ {n} := Function.update_self _ _ _
    rw [hon]
    exact fun hmem => hoff hmem.1
  have hsame := @Presence.shown_unseen _ _ w.toPresence c (w.move (.depart c n)).toPresence rfl hoff hoff'
    (fun k hk => Function.update_of_ne hk _ _) (fun k hk => Function.update_of_ne hk _ _)
  exact h.congr _ rfl rfl rfl hsame

/-- Whoever shares no channel with the user is not known to him. -/
theorem not_shown (hapart : ¬ ∃ c, n ∈ w.on c ∧ w.me ∈ w.on c) (c : CStr) : n ∉ w.shown c :=
  fun hn => hapart ⟨c, hn.2.1, hn.1⟩

/-- What is not sent changes nothing that the user could know, and what he asks for he knows. -/
theorem unseen (h : Reflects w s) (hw : w.Sound) {e : ServerEvent} (he : w.Valid e) (hseen : ¬ w.Seen e) :
    Reflects (w.step e) (s.doing e) := by
  cases e with
  | connect n =>
      exact h.congr _ rfl rfl rfl rfl
  | join n mask chan colon =>
      have hboth := not_or.1 hseen
      exact h.congr _ rfl rfl rfl (Presence.shown_arrive_unseen hboth.1 hboth.2)
  | part n mask chan reason =>
      exact h.depart_unseen he.1 hseen
  | kick sender chan n reason =>
      exact h.depart_unseen he.1 hseen
  | quit n mask reason =>
      have hboth := not_or.1 hseen
      apply h.congr (w.step (.quit n mask reason)) rfl rfl rfl
      funext c
      have hshown := @Presence.shown_vanish _ _ _ _ w.toPresence n hboth.1 c
      exact hshown.trans (Set.sdiff_singleton_eq_self (not_shown hboth.2 c))
  | nick n mask m colon =>
      have hboth := not_or.1 hseen
      have hallows := hw.allows_rename he.2.1 he.2.2.2.1
      apply h.congr (w.step (.nick n mask m colon)) (if_neg (Ne.symm hboth.1)) rfl rfl
      funext c
      have hshown := Presence.shown_rename hw.presence hallows c
      apply hshown.trans
      -- Nobody who is shown carries the old nick.
      have hsame : ∀ k ∈ w.shown c, newName n m k = k := by
        intro k hk
        rw [newName, if_neg]
        rintro rfl
        exact not_shown hboth.2 c hk
      rw [Set.image_congr hsame, Set.image_id']
  | names server kind chan words =>
      exact absurd trivial hseen
  | who server chan ident host hop n flags hops real =>
      exact absurd trivial hseen
  | welcome server m text =>
      exact absurd trivial hseen
  | isupport server before modes signs after =>
      exact absurd trivial hseen
  | error line =>
      exact absurd trivial hseen
  | whoEnd line =>
      exact absurd trivial hseen
  | other line =>
      exact absurd trivial hseen
  | ask =>
      rw [UserSession.doing, cmdwho, h.asked]
      exact h.asking (w.asked + 1)
  | forget =>
      exact h.asking 0

end Reflects

end Hearing

/-! ## Runs -/

open Classical in
/-- An event on the server, and what the user makes of it if it is sent to him, or if it is his own doing. -/
noncomputable def hearStep (t : Terminator) (p : World × UserSession) (e : ServerEvent) :
    Option (World × UserSession) :=
  (if p.1.Seen e then useroutbound p.2 (p.1.line t e) else some (p.2.doing e)).map fun s => (p.1.step e, s)

/-- On every channel where the user is, the listed nicks are those that are there, but for the ones that were not
told yet. -/
def UserSession.Lists (s : UserSession) (w : World) : Prop :=
  s.nick = w.me ∧ ∀ chan, w.me ∈ w.on (foldName chan) →
    ∃ k c, getuserchannel s.user.channels chan = some k ∧ s.user.channels[k]? = some c ∧ c.nicks.Nodup ∧
      ∀ n, n ∈ c.nicks ↔ n ∈ w.on (foldName chan) ∧ n ∉ w.owed (foldName chan)

theorem Reflects.lists {w : World} {s : UserSession} (h : Reflects w s) (hw : w.Sound) : s.Lists w := by
  refine ⟨h.nick, ?_⟩
  intro chan hon
  have hkey := h.follows.here _ ((hw.presence.shown_nonempty).2 hon)
  cases hfound : getuserchannel s.user.channels chan with
  | none =>
      exact absurd hkey (getuserchannel_eq_none_iff_rows.1 hfound)
  | some k =>
      rcases getuserchannel_eq_some hfound with ⟨c, hget, hname⟩
      have hrow : rowOf c ∈ rows s.user.channels := List.mem_map_of_mem (List.mem_of_getElem? hget)
      refine ⟨k, c, rfl, hget, h.follows.nodup _ hrow, ?_⟩
      intro n
      have hmem := h.follows.mem _ hrow n
      rw [rowOf, hname] at hmem
      exact hmem.trans (and_iff_right hon)

/-- What is possible does not depend on the user. -/
theorem World.Possible.stepsMeet (t : Terminator) {es : List ServerEvent} :
    ∀ {w : World} {s : UserSession}, w.Possible es →
      StepsMeet (hearStep t) (fun p e => p.1.Valid e) (w, s) es := by
  induction es with
  | nil =>
      intro w s _
      exact trivial
  | cons e es ih =>
      intro w s h
      refine ⟨h.1, ?_⟩
      intro q hq
      rcases Option.map_eq_some_iff.1 hq with ⟨s', _, rfl⟩
      exact ih h.2

/-- Along every run of the server the user goes on knowing who is on his channels. -/
theorem useroutbound_lists (t : Terminator) {w : World} {s : UserSession} (hw : w.Sound) (hs : Reflects w s)
    {es : List ServerEvent} (hes : w.Possible es) :
    Safe (hearStep t) (fun p => p.2.Lists p.1) (w, s) es := by
  have hstep : ∀ (p : World × UserSession) (e : ServerEvent), p.1.Sound ∧ Reflects p.1 p.2 → p.1.Valid e →
      ∃ q, hearStep t p e = some q ∧ q.1.Sound ∧ Reflects q.1 q.2 := by
    rintro ⟨w, s⟩ e ⟨hw, hs⟩ he
    by_cases hseen : w.Seen e
    · rcases hs.hear hw t he hseen with ⟨s', hhear, hs'⟩
      refine ⟨(w.step e, s'), ?_, hw.step he, hs'⟩
      rw [hearStep, if_pos hseen, hhear]
      rfl
    · refine ⟨(w.step e, s.doing e), ?_, hw.step he, hs.unseen hw he hseen⟩
      rw [hearStep, if_neg hseen]
      rfl
  have hsafe := safe_of_stepsMeet hstep (s := (w, s)) ⟨hw, hs⟩ (hes.stepsMeet t)
  exact hsafe.mono fun p hp => hp.2.lists hp.1

/-! ## A visit -/

/-- Two users who are nowhere. -/
def quietWorld : World where
  me := ascii "me"
  on := fun _ => ∅
  owed := fun _ => ∅
  online := {ascii "me", ascii "bob"}
  signs := ascii "@+"
  asked := 0

theorem visitUid_pos : 0 < 1 := by decide

theorem visitUid_lt : 1 < 2 ^ 31 := by decide

def quietSession : UserSession where
  user :=
    { uid := 1, prefixmodes := ascii "ov", prefixchars := ascii "@+", chanmodes := ascii "b,k,l,imnpst"
      uid_pos := visitUid_pos
      uid_lt := visitUid_lt }
  nick := ascii "me"
  login := ascii "me"
  host := ascii "home"
  parent := 2
  conf := [ascii "USER1.USER.LOGIN=me"]
  net := { me := ascii "hub" }

theorem quietWorld_sound : quietWorld.Sound where
  presence := ⟨fun _ h => h, fun _ _ h => h⟩
  sub := fun _ _ h => absurd h (Set.notMem_empty _)
  nicks := by
    rintro n (rfl | rfl | rfl)
    · decide
    · decide
    · decide
  apart := by
    rintro n (rfl | rfl | rfl) m (rfl | rfl | rfl) heq
    all_goals first | rfl | exact absurd heq (by decide)
  signs := by decide

theorem quietSession_reflects : Reflects quietWorld quietSession where
  nick := rfl
  signs := rfl
  asked := rfl
  parent := by decide
  conf := ⟨⟨_, [], rfl, by decide⟩, by
    intro e he hpre
    rw [List.mem_singleton.1 he] at hpre
    exact absurd hpre (by decide)⟩
  follows :=
    { keys := List.nodup_nil
      nodup := fun r hr => absurd hr List.not_mem_nil
      mem := fun r hr => absurd hr List.not_mem_nil
      here := by
        rintro c ⟨n, hn⟩
        exact absurd hn.1 (Set.notMem_empty _) }

theorem visit_chan : ChanText (ascii "#a") := ⟨⟨35, by decide, by decide⟩, by decide, by decide⟩

/-- The user finds somebody on a channel, is told his name, asks for more, and is thrown out by the server. -/
def visit : List ServerEvent :=
  [.join (ascii "bob") (ascii "b@h") (ascii "#a") true, .join (ascii "me") (ascii "m@h") (ascii "#A") false,
    .names (ascii "irc") EQUALS (ascii "#a") [(ascii "@", ascii "bob"), ([], ascii "me")], .ask,
    .who (ascii "irc") (ascii "#a") (ascii "b") (ascii "h") (ascii "irc") (ascii "bob") (ascii "H") (ascii ":0")
      (ascii "Bob"),
    .whoEnd (ascii ":irc 315 me #a :End of /WHO list."), .error (ascii "ERROR :Closing Link")]

theorem visit_possible : quietWorld.Possible visit := by
  have hfold : foldName (ascii "#A") = foldName (ascii "#a") := by decide
  have hbob : ascii "me" ≠ ascii "bob" := by decide
  refine ⟨?_, ?_, ?_, trivial, ?_, ?_, ?_, trivial⟩
  · exact ⟨Or.inr rfl, Set.notMem_empty _, by decide, visit_chan⟩
  · refine ⟨Or.inl rfl, ?_, by decide, ⟨⟨35, by decide, by decide⟩, by decide, by decide⟩⟩
    simp [World.step, World.move, Presence.move, quietWorld, hfold, hbob]
  · refine ⟨?_, ⟨⟨by decide, by decide⟩, visit_chan, by decide⟩, by decide, by decide, ?_⟩
    · simp [World.step, World.move, Presence.move, quietWorld, hfold]
    · simp [World.step, World.move, Presence.move, quietWorld, hfold]
      decide
  · refine ⟨?_, ?_, ⟨by decide, by decide⟩, visit_chan, by decide, by decide, by decide⟩
    · simp [World.step, World.move, Presence.move, quietWorld, hfold]
    · simp [World.step, World.move, Presence.move, quietWorld, hfold]
  · exact (by decide : ifcommand (parse (ascii ":irc 315 me #a :End of /WHO list.")) (ascii "315") = true)
  · exact (by decide : ifcommand (parse (ascii "ERROR :Closing Link")) (ascii "ERROR") = true)

theorem useroutbound_lists_visit :
    Safe (hearStep .crlf) (fun p => p.2.Lists p.1) (quietWorld, quietSession) visit :=
  useroutbound_lists .crlf quietWorld_sound quietSession_reflects visit_possible

end PsyBnc
