import PsyBnc.Network.TokenLoop

/-!
# What a call of `checknetwork` sees

`checknetwork` looks at the first `~` behind the mask of a user, and at nothing behind a colon unless the command is
`NICK`.
-/

namespace PsyBnc

open CLib

/-! ## What a call sees -/

/-- The part of a line in which a token is looked for: up to the first colon behind the first byte, and everything
for `NICK`. -/
def openPart (line : CStr) : CStr :=
  if ascii "NICK " <+: line then line else line.take 1 ++ line.tail.takeWhile fun b => b != COLON

section Quiet

variable {p t x y z rest before pt2 w : CStr}

/-- Behind a text in which no token is seen the next `~` counts. -/
theorem tildeSplit_behind (hp : tildeSplit p = none) (h : tildeSplit (p ++ t) = some (before, pt2)) :
    ∃ x, before = p ++ x ∧ t = x ++ TILDE :: pt2 := by
  rw [tildeSplit] at hp
  cases hcut : cutAt TILDE p with
  | none =>
      rw [tildeSplit] at h
      -- There is no tilde in `p`, so the one found is in `t`.
      rcases cut_cases TILDE t with ⟨hno, _⟩ | ⟨u, v, rfl, hu, _⟩
      · have hnone : TILDE ∉ p ++ t := by
          rw [List.mem_append, not_or]
          exact ⟨cutAt_eq_none.1 hcut, hno⟩
        rw [cutAt_eq_none.2 hnone] at h
        cases h
      · have hpu : TILDE ∉ p ++ u := by
          rw [List.mem_append, not_or]
          exact ⟨cutAt_eq_none.1 hcut, hu⟩
        rw [← List.append_assoc, cutAt_append hpu] at h
        simp only at h
        split at h
        · rcases Option.map_eq_some_iff.1 h with ⟨⟨c, d⟩, hsecond, heq⟩
          rcases cutAt_eq_some.1 hsecond with ⟨rfl, _⟩
          cases heq
          exact ⟨u ++ TILDE :: c, by simp only [List.append_assoc], by simp only [List.append_assoc, List.cons_append]⟩
        · cases h
          exact ⟨u, rfl, rfl⟩
  | some q =>
      rcases q with ⟨u, v⟩
      rcases cutAt_eq_some.1 hcut with ⟨rfl, hu⟩
      rw [hcut] at hp
      simp only at hp
      split at hp
      · next hmask =>
        rw [Option.map_eq_none_iff, cutAt_eq_none] at hp
        rw [tildeSplit, List.append_assoc, List.cons_append, cutAt_append hu] at h
        simp only at h
        rw [if_pos hmask] at h
        rcases Option.map_eq_some_iff.1 h with ⟨⟨c, d⟩, hsecond, heq⟩
        cases heq
        -- The tilde in `p` belongs to a mask and is passed over, and there is no other in `p`.
        rcases cut_cases TILDE t with ⟨hno, _⟩ | ⟨t₁, t₂, rfl, ht₁, _⟩
        · have hnone : TILDE ∉ v ++ t := by
            rw [List.mem_append, not_or]
            exact ⟨hp, hno⟩
          rw [cutAt_eq_none.2 hnone] at hsecond
          cases hsecond
        · have hvt : TILDE ∉ v ++ t₁ := by
            rw [List.mem_append, not_or]
            exact ⟨hp, ht₁⟩
          rw [← List.append_assoc, cutAt_append hvt] at hsecond
          cases hsecond
          exact ⟨t₁, by simp only [List.append_assoc, List.cons_append], rfl⟩
      · cases hp

/-- A token behind such a text is seen. -/
theorem tildeSplit_quiet (hp : tildeSplit p = none) (hz : TILDE ∉ z) (hne : z ≠ []) (hstar : z.getLast? ≠ some WILDS)
    (hmark : z.getLast? ≠ some EXCL) : tildeSplit (p ++ (z ++ TILDE :: rest)) = some (p ++ z, rest) := by
  rw [tildeSplit] at hp
  cases hcut : cutAt TILDE p with
  | none =>
      have hpz : TILDE ∉ p ++ z := by
        rw [List.mem_append, not_or]
        exact ⟨cutAt_eq_none.1 hcut, hz⟩
      have hlast : (p ++ z).getLast? = z.getLast? := by
        rw [List.getLast?_append]
        cases hl : z.getLast? with
        | none => exact absurd (List.getLast?_eq_none_iff.1 hl) hne
        | some b => rfl
      rw [tildeSplit, ← List.append_assoc, cutAt_append hpz]
      simp only [hlast, hstar, hmark, or_self, if_false]
  | some q =>
      rcases q with ⟨u, v⟩
      rcases cutAt_eq_some.1 hcut with ⟨rfl, hu⟩
      rw [hcut] at hp
      simp only at hp
      split at hp
      · next hmask =>
        rw [Option.map_eq_none_iff, cutAt_eq_none] at hp
        have hvz : TILDE ∉ v ++ z := by
          rw [List.mem_append, not_or]
          exact ⟨hp, hz⟩
        rw [tildeSplit, List.append_assoc, List.cons_append, cutAt_append hu]
        simp only
        rw [if_pos hmask, ← List.append_assoc, cutAt_append hvz, Option.map_some]
        simp only [List.append_assoc, List.cons_append]
      · cases hp

/-- What is seen in a part is seen in the whole. -/
theorem tildeSplit_extend (h : tildeSplit p = some (before, pt2)) (t : CStr) :
    tildeSplit (p ++ t) = some (before, pt2 ++ t) := by
  rw [tildeSplit] at h
  cases hcut : cutAt TILDE p with
  | none =>
      rw [hcut] at h
      cases h
  | some q =>
      rcases q with ⟨u, v⟩
      rcases cutAt_eq_some.1 hcut with ⟨rfl, hu⟩
      rw [hcut] at h
      simp only at h
      rw [tildeSplit, List.append_assoc, List.cons_append, cutAt_append hu]
      simp only
      split at h
      · next hmask =>
        rw [if_pos hmask]
        rcases Option.map_eq_some_iff.1 h with ⟨⟨c, d⟩, hsecond, heq⟩
        rcases cutAt_eq_some.1 hsecond with ⟨rfl, hc⟩
        cases heq
        rw [List.append_assoc, List.cons_append, cutAt_append hc, Option.map_some]
      · next hmask =>
        rw [if_neg hmask]
        cases h
        rfl

/-- A part of a text in which no token is seen is one as well. -/
theorem quiet_of_prefix (hpre : p <+: x) (hx : tildeSplit x = none) : tildeSplit p = none := by
  rcases hpre with ⟨t, rfl⟩
  cases h : tildeSplit p with
  | none => rfl
  | some q =>
      rw [tildeSplit_extend h t] at hx
      cases hx

/-- The start of a token that stands behind a blank or a colon. -/
theorem tokenStart_front {b : Byte} (hb : b = SP ∨ b = COLON) (x y : CStr) : x <+: (tokenStart (x ++ b :: y)).1 := by
  have htoken : ((x ++ b :: y).reverse.takeWhile fun b => decide (b ≠ SP ∧ b ≠ COLON)).reverse.length ≤ y.length := by
    rw [List.length_reverse, List.reverse_append, List.reverse_cons, List.append_assoc, List.takeWhile_append]
    have hstop : ([b] ++ x.reverse).takeWhile (fun b => decide (b ≠ SP ∧ b ≠ COLON)) = [] := by
      rcases hb with rfl | rfl
      · rfl
      · rfl
    rw [hstop, List.append_nil]
    split
    · rw [List.length_reverse]
    · exact (List.takeWhile_sublist _).length_le.trans (Nat.le_of_eq List.length_reverse)
  rw [tokenStart]
  apply List.prefix_of_prefix_length_le (List.prefix_append x (b :: y)) (List.take_prefix _ _)
  simp only [List.length_take, List.length_append, List.length_cons]
  omega

/-- The token takes all that has neither a blank nor a colon. -/
theorem mem_tokenStart {b : Byte} (hb : b ≠ SP ∧ b ≠ COLON) (hw : SP ∉ w ∧ COLON ∉ w) :
    b ∈ (tokenStart (x ++ b :: w)).2 := by
  have hall : ∀ c ∈ (b :: w).reverse, decide (c ≠ SP ∧ c ≠ COLON) = true := by
    intro c hc
    rw [decide_eq_true_eq]
    rcases List.mem_cons.1 (List.mem_reverse.1 hc) with rfl | hc
    · exact hb
    · exact ⟨fun h => hw.1 (h ▸ hc), fun h => hw.2 (h ▸ hc)⟩
  have hfull := List.takeWhile_eq_self_iff.2 hall
  rw [tokenStart]
  simp only
  rw [List.mem_reverse, List.reverse_append, List.takeWhile_append, hfull, if_pos rfl, List.mem_append,
    List.mem_reverse]
  exact Or.inl List.mem_cons_self

/-- The line is its open part, and a text behind a colon if there is one. -/
theorem openPart_append (x : CStr) :
    ∃ t, x = openPart x ++ t ∧ (t = [] ∨ ¬ ascii "NICK " <+: x ∧ ∃ v, t = COLON :: v) := by
  rw [openPart]
  by_cases hnick : ascii "NICK " <+: x
  · rw [if_pos hnick]
    exact ⟨[], (List.append_nil x).symm, Or.inl rfl⟩
  · rw [if_neg hnick]
    cases x with
    | nil => exact ⟨[], rfl, Or.inl rfl⟩
    | cons b x =>
        refine ⟨x.dropWhile fun b => b != COLON, ?_, ?_⟩
        · change b :: x = b :: (x.takeWhile (fun b => b != COLON) ++ x.dropWhile fun b => b != COLON)
          rw [List.takeWhile_append_dropWhile]
        · cases hdrop : x.dropWhile fun b => b != COLON with
          | nil => exact Or.inl rfl
          | cons c v =>
              right
              have hc := List.head_dropWhile_not (fun b => b != COLON) (hdrop ▸ List.cons_ne_nil c v)
              simp only [hdrop, List.head_cons, bne_eq_false_iff_eq] at hc
              exact ⟨hnick, v, by rw [hc]⟩

/-- A start of the line without a colon behind its first byte is open. -/
theorem prefix_openPart (hp : p ≠ []) (hcolon : ascii "NICK " <+: p ++ t ∨ COLON ∉ p.tail) :
    p <+: openPart (p ++ t) := by
  rw [openPart]
  by_cases hnick : ascii "NICK " <+: p ++ t
  · rw [if_pos hnick]
    exact List.prefix_append p t
  · rw [if_neg hnick]
    have hno := hcolon.resolve_left hnick
    cases p with
    | nil => exact absurd rfl hp
    | cons b p =>
        change b :: p <+: b :: (p ++ t).takeWhile fun b => b != COLON
        have hall : ∀ c ∈ p, (c != COLON) = true := fun c hc => bne_iff_ne.2 fun h => hno (h ▸ hc)
        rw [List.takeWhile_append, List.takeWhile_eq_self_iff.2 hall, if_pos rfl]
        exact ⟨_, rfl⟩

/-- A colon behind the first byte closes the line. -/
theorem openPart_of_colon (hnick : ¬ ascii "NICK " <+: p ++ t) (hnick' : ¬ ascii "NICK " <+: p ++ x)
    (hcolon : COLON ∈ p.tail) : openPart (p ++ t) = openPart (p ++ x) := by
  cases p with
  | nil => cases hcolon
  | cons b p =>
      rw [openPart, openPart, if_neg hnick, if_neg hnick']
      change b :: (p ++ t).takeWhile _ = b :: (p ++ x).takeWhile _
      have hless : ¬ (p.takeWhile fun b => b != COLON).length = p.length := by
        intro h
        have hself := (List.takeWhile_prefix fun b => b != COLON).eq_of_length h
        have hall := List.takeWhile_eq_self_iff.1 hself COLON hcolon
        exact absurd rfl (bne_iff_ne.1 hall)
      rw [List.takeWhile_append, List.takeWhile_append, if_neg hless, if_neg hless]

end Quiet

/-! ## Single calls on lines with tokens -/

section Calls

variable {front b : Byte} {s : Users} {usern : Int} {line h p t w x y rest pt1 : CStr}

theorem network_ne_kept (hroot : (s.account usern).parent ≠ usern) : s.network usern pt1 t ≠ ⟨usern, line, none⟩ := by
  intro hkept
  rcases network_cases s usern pt1 t with ⟨uid, hnet, hwho⟩ | hnet
  · have huid : uid = usern := congrArg Users.Networked.uid (hnet.symm.trans hkept)
    subst huid
    rcases hwho with hint | hparent
    · omega
    · exact hroot hparent
  · exact absurd (congrArg Users.Networked.unknown (hnet.symm.trans hkept)) (Option.some_ne_none pt1)

/-- A line with nothing to see in its open part is left alone. -/
theorem kept_of_quiet (hlen : line.length < 8192) (hne : line ≠ []) (hhead : line.head? ≠ some TILDE)
    (hquiet : tildeSplit (openPart line) = none) : s.checknetworkFrom front usern line = ⟨usern, line, none⟩ := by
  rcases openPart_append line with ⟨t, hline, hrest⟩
  rw [Users.checknetworkFrom, clip_eq_self hlen, tildeSplitFrom_eq hhead]
  cases hsplit : tildeSplit line with
  | none => rfl
  | some q =>
      rcases q with ⟨before, pt2⟩
      simp only
      rcases hrest with rfl | ⟨hnick, v, rfl⟩
      · rw [List.append_nil] at hline
        rw [← hline, hsplit] at hquiet
        cases hquiet
      · -- What is seen stands behind the colon.
        have hopen : openPart line ≠ [] := by
          rw [openPart, if_neg hnick]
          cases line with
          | nil => exact absurd rfl hne
          | cons c line => exact List.cons_ne_nil _ _
        have hcolon : COLON ∈ before.tail := by
          have hwhole := hsplit
          rw [hline] at hwhole
          rcases tildeSplit_behind hquiet hwhole with ⟨x, rfl, hx⟩
          cases x with
          | nil => exact absurd (List.cons.inj hx).1 (by decide)
          | cons c x =>
              rw [List.tail_append_of_ne_nil hopen, ← (List.cons.inj hx).1]
              exact List.mem_append_right _ List.mem_cons_self
        rw [if_pos ⟨hcolon, hnick⟩]

theorem openPart_closed (hnick : ¬ ascii "NICK " <+: line) : COLON ∉ (openPart line).tail := by
  rw [openPart, if_neg hnick]
  cases line with
  | nil => exact List.not_mem_nil
  | cons c line =>
      intro hmem
      have hc := List.mem_takeWhile_imp (show COLON ∈ line.takeWhile fun b => b != COLON from hmem)
      exact absurd rfl (bne_iff_ne.1 hc)

/-- Only such a line is. -/
theorem quiet_of_kept (hroot : (s.account usern).parent ≠ usern) (hlen : (h ++ SP :: t).length < 8192)
    (hh : h ≠ [] ∧ TILDE ∉ h ∧ COLON ∉ h.tail)
    (hkept : s.checknetworkFrom front usern (h ++ SP :: t) = ⟨usern, h ++ SP :: t, none⟩) :
    tildeSplit (openPart (h ++ SP :: t)) = none := by
  cases hsplit : tildeSplit (openPart (h ++ SP :: t)) with
  | none => rfl
  | some q =>
      rcases q with ⟨before, pt2⟩
      exfalso
      rcases openPart_append (h ++ SP :: t) with ⟨t', hline, _⟩
      have hhead : (h ++ SP :: t).head? ≠ some TILDE := by
        rw [List.head?_append_of_ne_nil _ hh.1]
        exact fun heq => hh.2.1 (List.mem_of_mem_head? heq)
      have hwhole : tildeSplit (h ++ SP :: t) = some (before, pt2 ++ t') := by
        rw [hline]
        exact tildeSplit_extend hsplit t'
      have htext : openPart (h ++ SP :: t) = before ++ TILDE :: pt2 := by
        rw [← tildeSplitFrom_text ((tildeSplitFrom_eq _ front).trans hsplit)]
        rcases prefix_openPart hh.1 (Or.inr hh.2.2 : ascii "NICK " <+: h ++ SP :: t ∨ COLON ∉ h.tail) with ⟨r, hr⟩
        rw [← hr, List.head?_append_of_ne_nil _ hh.1]
        exact fun heq => hh.2.1 (List.mem_of_mem_head? heq)
      -- The first word is in the open part, and the token behind it.
      have hword : h ++ [SP] <+: before := by
        have hopen : h ++ [SP] <+: openPart (h ++ SP :: t) := by
          have hsp : h ++ SP :: t = (h ++ [SP]) ++ t := by simp
          rw [hsp]
          apply prefix_openPart (List.append_ne_nil_of_left_ne_nil hh.1 _)
          right
          rw [List.tail_append_of_ne_nil hh.1, List.mem_append, not_or]
          exact ⟨hh.2.2, by decide⟩
        rw [htext] at hopen
        rcases Nat.lt_or_ge before.length (h ++ [SP]).length with hlt | hge
        · have hpre : before ++ [TILDE] <+: h ++ [SP] := by
            apply List.prefix_of_prefix_length_le (List.prefix_append_right_inj before |>.2 ⟨pt2, rfl⟩) hopen
            rw [List.length_append, List.length_singleton]
            exact hlt
          have hmem : TILDE ∈ h ++ [SP] := hpre.subset (List.mem_append_right _ List.mem_cons_self)
          rw [List.mem_append] at hmem
          rcases hmem with hmem | hmem
          · exact absurd hmem hh.2.1
          · exact absurd hmem (by decide)
        · exact List.prefix_of_prefix_length_le hopen (List.prefix_append _ _) hge
      -- So `checknetwork` comes to the token, and leaves no such line as it is.
      have hstart : (tokenStart before).1 ≠ [] := by
        rcases hword with ⟨y, rfl⟩
        have hfront := tokenStart_front (Or.inl rfl) h y
        rw [List.append_assoc]
        exact fun hnil => hh.1 (List.prefix_nil.1 (hnil ▸ hfront))
      have hcontent : ascii "NICK " <+: h ++ SP :: t ∨ COLON ∉ before.tail := by
        by_cases hnick : ascii "NICK " <+: h ++ SP :: t
        · exact Or.inl hnick
        · right
          have hclosed := openPart_closed hnick
          rw [htext] at hclosed
          cases before with
          | nil => exact List.not_mem_nil
          | cons c before => exact fun hmem => hclosed (List.mem_append_left _ hmem)
      rw [checknetworkFrom_found hlen hhead hwhole hcontent hstart] at hkept
      exact network_ne_kept hroot hkept

/-- A token behind a text in which none is seen is cut out. -/
theorem checknetworkFrom_token (hp : p ≠ [] ∧ p.head? ≠ some TILDE) (hquiet : tildeSplit p = none)
    (hw : SP ∉ w ∧ COLON ∉ w ∧ TILDE ∉ w) (hlast : w.getLast? ≠ some WILDS ∧ w.getLast? ≠ some EXCL)
    (hcontent : ascii "NICK " <+: p ++ SP :: (w ++ TILDE :: rest) ∨ COLON ∉ p.tail)
    (hlen : (p ++ SP :: (w ++ TILDE :: rest)).length < 8192) :
    s.checknetworkFrom front usern (p ++ SP :: (w ++ TILDE :: rest)) =
      s.network usern (untagged w) (p ++ SP :: rest) := by
  have hhead : (p ++ SP :: (w ++ TILDE :: rest)).head? ≠ some TILDE := by
    rw [List.head?_append_of_ne_nil _ hp.1]
    exact hp.2
  have hz : TILDE ∉ SP :: w := by
    rw [List.mem_cons, not_or]
    exact ⟨by decide, hw.2.2⟩
  have hend : (SP :: w).getLast? ≠ some WILDS ∧ (SP :: w).getLast? ≠ some EXCL := by
    cases w with
    | nil => exact ⟨by decide, by decide⟩
    | cons c w =>
        rw [List.getLast?_cons_cons]
        exact hlast
  have hsplit : tildeSplit (p ++ SP :: (w ++ TILDE :: rest)) = some (p ++ SP :: w, rest) :=
    tildeSplit_quiet hquiet hz (List.cons_ne_nil _ _) hend.1 hend.2
  have hstart := tokenStart_append (z := p) ⟨hw.1, hw.2.1⟩
  have hopen : ascii "NICK " <+: p ++ SP :: (w ++ TILDE :: rest) ∨ COLON ∉ (p ++ SP :: w).tail := by
    rcases hcontent with hnick | hno
    · exact Or.inl hnick
    · right
      rw [List.tail_append_of_ne_nil hp.1, List.mem_append, List.mem_cons, not_or, not_or]
      exact ⟨hno, by decide, hw.2.1⟩
  rw [checknetworkFrom_found hlen hhead hsplit hopen (by rw [hstart]; exact hp.1), hstart]
  have hshort : (p ++ SP :: rest).length < 8192 := by
    simp only [List.length_append, List.length_cons] at hlen ⊢
    omega
  rw [clip_eq_self hshort]

/-- Behind a comma the token reaches back over it. -/
theorem checknetworkFrom_comma (hx : x ≠ [] ∧ x.head? ≠ some TILDE) (hquiet : tildeSplit (x ++ SP :: y) = none)
    (hw : SP ∉ w ∧ COLON ∉ w ∧ TILDE ∉ w) (hlast : w.getLast? ≠ some WILDS ∧ w.getLast? ≠ some EXCL)
    (hcontent : ascii "NICK " <+: x ++ SP :: (y ++ COMMA :: (w ++ TILDE :: rest)) ∨ COLON ∉ (x ++ SP :: y).tail)
    (hlen : (x ++ SP :: (y ++ COMMA :: (w ++ TILDE :: rest))).length < 8192) :
    ∃ pt1 line', s.checknetworkFrom front usern (x ++ SP :: (y ++ COMMA :: (w ++ TILDE :: rest))) =
        s.network usern pt1 line' ∧
      line'.count COMMA < (x ++ SP :: (y ++ COMMA :: (w ++ TILDE :: rest))).count COMMA := by
  have hassoc : x ++ SP :: (y ++ COMMA :: (w ++ TILDE :: rest)) =
      (x ++ SP :: y) ++ ((COMMA :: w) ++ TILDE :: rest) := by
    simp only [List.append_assoc, List.cons_append]
  have hne : x ++ SP :: y ≠ [] := List.append_ne_nil_of_left_ne_nil hx.1 _
  rw [hassoc] at hcontent hlen ⊢
  have hhead : ((x ++ SP :: y) ++ ((COMMA :: w) ++ TILDE :: rest)).head? ≠ some TILDE := by
    rw [List.head?_append_of_ne_nil _ hne, List.head?_append_of_ne_nil _ hx.1]
    exact hx.2
  have hz : TILDE ∉ COMMA :: w := by
    rw [List.mem_cons, not_or]
    exact ⟨by decide, hw.2.2⟩
  have hend : (COMMA :: w).getLast? ≠ some WILDS ∧ (COMMA :: w).getLast? ≠ some EXCL := by
    cases w with
    | nil => exact ⟨by decide, by decide⟩
    | cons c w =>
        rw [List.getLast?_cons_cons]
        exact hlast
  have hsplit := @tildeSplit_quiet (x ++ SP :: y) (COMMA :: w) rest hquiet hz (List.cons_ne_nil _ _) hend.1 hend.2
  have hopen : ascii "NICK " <+: (x ++ SP :: y) ++ ((COMMA :: w) ++ TILDE :: rest) ∨
      COLON ∉ ((x ++ SP :: y) ++ COMMA :: w).tail := by
    rcases hcontent with hnick | hno
    · exact Or.inl hnick
    · right
      rw [List.tail_append_of_ne_nil hne, List.mem_append, List.mem_cons, not_or, not_or]
      exact ⟨hno, by decide, hw.2.1⟩
  have hstart : (tokenStart ((x ++ SP :: y) ++ COMMA :: w)).1 ≠ [] := by
    have hfront := tokenStart_front (Or.inl rfl) x (y ++ COMMA :: w)
    rw [List.append_assoc, List.cons_append]
    exact fun hnil => hx.1 (List.prefix_nil.1 (hnil ▸ hfront))
  have hcomma : 0 < (tokenStart ((x ++ SP :: y) ++ COMMA :: w)).2.count COMMA :=
    List.count_pos_iff.2 (mem_tokenStart (by decide) ⟨hw.1, hw.2.1⟩)
  refine ⟨_, _, checknetworkFrom_found hlen hhead hsplit hopen hstart, ?_⟩
  have hfrom : tildeSplitFrom front (clip 8192 ((x ++ SP :: y) ++ ((COMMA :: w) ++ TILDE :: rest))) =
      some ((x ++ SP :: y) ++ COMMA :: w, rest) := by
    rw [clip_eq_self hlen, tildeSplitFrom_eq hhead]
    exact hsplit
  have hcount := count_cut_le hfrom hstart
  omega

end Calls

end PsyBnc
