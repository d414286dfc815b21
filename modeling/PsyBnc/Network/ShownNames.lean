import PsyBnc.Network.Shown

/-!
# The names that a client is shown

A NAMES reply can come to the client in more than one line, each of them a NAMES reply of its own server.
-/

namespace PsyBnc

open CLib

section NamesLines

variable {u : NamesUser} {header : CStr} {k : Nat}

/-- No line gets longer than a piece behind the limit. -/
theorem namesLoop_short {ts : List CStr} (hpieces : ∀ p ∈ piecesOf u ts, p.length ≤ k) {start : CStr}
    (hstart : start.length ≤ max 500 header.length) :
    ∀ l ∈ (namesLoop u header ts start).1 ++ [(namesLoop u header ts start).2],
      l.length ≤ max 500 header.length + k := by
  induction ts generalizing start with
  | nil =>
      intro l hl
      rw [List.mem_singleton.1 hl]
      exact Nat.le_add_right_of_le hstart
  | cons t ts ih =>
      rw [piecesOf, List.forall_mem_cons] at hpieces
      have hlen : (clip 8192 (start ++ namesPiece u t ts)).length ≤ max 500 header.length + k := by
        rw [length_clip, List.length_append]
        have hpiece := hpieces.1
        omega
      rw [namesLoop]
      by_cases hlong : 500 < (clip 8192 (start ++ namesPiece u t ts)).length
      · simp only [hlong, if_true]
        intro l hl
        rcases List.mem_cons.1 hl with rfl | hl
        · exact hlen
        · exact ih hpieces.2 (Nat.le_max_right _ _) l hl
      · simp only [hlong, if_false]
        apply ih hpieces.2
        exact le_max_of_le_left (Nat.le_of_not_lt hlong)

/-- How a list with an end is handed out. -/
theorem pieces_split {α β : Type} {f : α → β} {e : β} :
    ∀ {lines : List (List β)} {xs : List α}, lines.flatten = xs.map f ++ [e] →
      ∀ l ∈ lines, ∃ ys : List α, (∀ y ∈ ys, y ∈ xs) ∧ (l = ys.map f ∨ l = ys.map f ++ [e]) := by
  intro lines
  induction lines with
  | nil => exact fun _ l hl => absurd hl List.not_mem_nil
  | cons l lines ih =>
      intro xs h
      rw [List.flatten_cons] at h
      rcases List.append_eq_append_iff.1 h with ⟨z, hxs, hrest⟩ | ⟨z, hl, hrest⟩
      · -- the line lies in front of the end
        rcases List.map_eq_append_iff.1 hxs with ⟨ys, zs, rfl, rfl, rfl⟩
        refine List.forall_mem_cons.2 ⟨⟨ys, fun y hy => List.mem_append_left _ hy, Or.inl rfl⟩, ?_⟩
        intro l hl
        rcases ih hrest l hl with ⟨vs, hvs, heq⟩
        exact ⟨vs, fun y hy => List.mem_append_right _ (hvs y hy), heq⟩
      · cases z with
        | nil =>
            rw [List.append_nil] at hl
            rw [List.nil_append] at hrest
            refine List.forall_mem_cons.2 ⟨⟨xs, fun y hy => hy, Or.inl hl⟩, ?_⟩
            intro l' hl'
            rcases @ih [] hrest.symm l' hl' with ⟨vs, hvs, heq⟩
            exact ⟨vs, fun y hy => absurd (hvs y hy) List.not_mem_nil, heq⟩
        | cons b z =>
            rw [List.cons_append, List.cons.injEq] at hrest
            rcases hrest with ⟨rfl, hnil⟩
            rcases List.append_eq_nil_iff.1 hnil.symm with ⟨rfl, hflat⟩
            refine List.forall_mem_cons.2 ⟨⟨xs, fun y hy => hy, Or.inr hl⟩, ?_⟩
            intro l' hl'
            refine ⟨[], fun y hy => absurd hy List.not_mem_nil, Or.inl ?_⟩
            exact List.flatten_eq_nil_iff.1 hflat l' hl'

theorem codedNames_trailing {e : CStr} : ∀ {ns : List ListedName},
    codedNames u true e ns = (ns.map fun n => n.named u ++ [SP]) ++ [e] := by
  intro ns
  induction ns with
  | nil => rfl
  | cons n ns ih =>
      rw [codedNames, if_neg (fun h => Bool.noConfusion h.2), ih]
      rfl

/-- The lines of a reply in which a blank follows the last name. -/
theorem netnames_handed {r : NamesReply} (hu : u.Sound) (h : r.WellFormed u) (hlen : r.line.length ≤ 7500)
    (htrailing : r.trailing = true) (hk : ∀ n ∈ r.names, (n.named u).length < k) (he : r.ending.length ≤ k) :
    ∃ lines : List (List CStr), lines.flatten = (r.names.map fun n => n.named u ++ [SP]) ++ [r.ending] ∧
      (netnames u r.line).1 ++ [(netnames u r.line).2] = lines.map (fun l => r.header u ++ l.flatten) ∧
      ∀ l ∈ lines, l.flatten.length ≤ 500 + k := by
  have hnet := hu.netname.2
  have hlistable : ∀ n ∈ r.names, Listable u n :=
    fun n hn => ⟨h.flags n hn, (h.nicks n hn).1, (h.nicks n hn).2⟩
  have hpieces := @piecesOf_nameWords u r.names r.trailing r.ending hu h.ending hlistable
  have hheader : (r.header u).length + r.text.length ≤ r.line.length + 21 := by
    rw [NamesReply.header, NamesReply.line]
    simp only [List.length_append, lead_cons, lead_nil, List.length_cons, List.length_nil]
    omega
  have hfits : ∀ p ∈ piecesOf u (nameWords r.trailing r.ending r.names),
      max 500 (r.header u).length + p.length < 8192 := by
    intro p hp
    rw [hpieces] at hp
    have hle := length_codedNames hu hp
    rw [← NamesReply.text] at hle
    omega
  rcases @namesLoop_lines u (r.header u) (nameWords r.trailing r.ending r.names) [] (max 500 (r.header u).length)
    (by omega) (by omega) hfits
    (by rw [List.flatten_nil, List.append_nil]; exact Nat.le_max_right _ _) with ⟨hshort, g, lines, hflat, hlines⟩
  rw [List.flatten_nil, List.append_nil] at hshort hlines
  rw [hpieces, htrailing, codedNames_trailing] at hflat
  have hbound : ∀ p ∈ piecesOf u (nameWords r.trailing r.ending r.names), p.length ≤ k := by
    rw [hpieces, htrailing, codedNames_trailing]
    intro p hp
    rcases List.mem_append.1 hp with hp | hp
    · rcases List.mem_map.1 hp with ⟨n, hn, rfl⟩
      rw [List.length_append, List.length_singleton]
      exact hk n hn
    · rw [List.mem_singleton.1 hp]
      exact he
  have hlong := namesLoop_short hbound (Nat.le_max_right 500 (r.header u).length)
  rw [netnames_line hu h hlen, clip_eq_self (by omega)]
  refine ⟨g :: lines, ?_, hlines, ?_⟩
  · rw [List.flatten_cons]
    exact hflat
  · intro l hl
    rw [hlines] at hlong
    have hle := hlong _ (List.mem_map_of_mem (f := fun l => r.header u ++ l.flatten) hl)
    rw [List.length_append] at hle
    omega

end NamesLines

namespace Beyond

variable {tok pa all : CStr} {w w' : World} {chan server : CStr} {kind : Byte} {ws words : List (CStr × CStr)}
  {a : NetAccount} {s : UserSession} {old : CStr} {init : Bool}

/-- A word of a NAMES reply with the nick as it is retold. -/
def retoldWord (tok pa me : CStr) (p : CStr × CStr) : CStr × CStr := (p.1, retoldNick tok pa me p.2)

/-- The words of a reply, with a blank behind each. -/
theorem lead_namesWords {e : CStr} :
    lead SP e (World.namesWords (ws ++ [([], [])])) =
      SP :: COLON :: ((ws.map fun p => p.1 ++ p.2 ++ [SP]).flatten ++ e) := by
  have hmore : ∀ vs : List (CStr × CStr), lead SP e ((vs ++ [([], [])]).map fun p : CStr × CStr => p.1 ++ p.2) =
      SP :: ((vs.map fun p => p.1 ++ p.2 ++ [SP]).flatten ++ e) := by
    intro vs
    induction vs with
    | nil => rfl
    | cons p vs ih =>
        rw [List.cons_append, List.map_cons, lead_cons, ih]
        simp
  cases ws with
  | nil => rfl
  | cons p ws =>
      rw [List.cons_append, World.namesWords, lead_cons, hmore]
      simp

theorem length_namesWords (hne : words ≠ []) :
    (lead SP [] (World.namesWords words)).length = (words.map fun p => p.1.length + p.2.length + 1).sum + 1 := by
  cases words with
  | nil => exact absurd rfl hne
  | cons p words =>
      have hrest : ((words.map fun p => p.1 ++ p.2).map fun v => v.length + 1) =
          words.map fun p => p.1.length + p.2.length + 1 := by
        rw [List.map_map]
        apply List.map_congr_left
        intro q _
        rw [Function.comp_apply, List.length_append]
      rw [World.namesWords, Reflects.length_lead, List.map_cons, List.sum_cons, hrest, List.map_cons, List.sum_cons,
        List.length_cons, List.length_append, List.length_nil]
      omega

/-- The reply as `netnames` takes it apart. -/
def replyOf (server pa chan : CStr) (kind : Byte) (ws : List (CStr × CStr)) (t : Terminator) : NamesReply where
  source := COLON :: server
  target := pa
  symbol := [kind]
  channel := chan
  names := ws.map fun p => ⟨p.1.head?, p.2⟩
  trailing := true
  ending := t.bytes

theorem listed_trailing {f : ListedName → CStr} {e : CStr} : ∀ {ns : List ListedName},
    listed f true e ns = (ns.map fun n => f n ++ [SP]) ++ [e] := by
  intro ns
  induction ns with
  | nil => rfl
  | cons n ns ih =>
      rw [listed, if_neg (fun h => Bool.noConfusion h.2), ih]
      rfl

theorem toList_head? {p : CStr} (h : p.length ≤ 1) : p.head?.toList = p := by
  cases p with
  | nil => rfl
  | cons b p =>
      cases p with
      | nil => rfl
      | cons c p =>
          simp only [List.length_cons] at h
          omega

theorem replyOf_line (t : Terminator) (hws : ∀ p ∈ ws, p.1.length ≤ 1) (hme : w.me = pa) :
    (replyOf server pa chan kind ws t).line = w.line t (.names server kind chan (ws ++ [([], [])])) := by
  have htext : (replyOf server pa chan kind ws t).text =
      (ws.map fun p => p.1 ++ p.2 ++ [SP]).flatten ++ t.bytes := by
    have hnames : ((replyOf server pa chan kind ws t).names.map fun n => n.text ++ [SP]) =
        ws.map fun p => p.1 ++ p.2 ++ [SP] := by
      rw [replyOf, List.map_map]
      apply List.map_congr_left
      intro p hp
      rw [Function.comp_apply, ListedName.text, toList_head? (hws p hp)]
    have hlisted := @listed_trailing ListedName.text t.bytes (replyOf server pa chan kind ws t).names
    rw [hnames] at hlisted
    calc (replyOf server pa chan kind ws t).text
        = (listed ListedName.text true t.bytes (replyOf server pa chan kind ws t).names).flatten := rfl
      _ = _ := by rw [hlisted, List.flatten_append, List.flatten_singleton]
  have hwords : w.line t (.names server kind chan (ws ++ [([], [])])) =
      COLON :: (server ++ lead SP (lead SP t.bytes (World.namesWords (ws ++ [([], [])])))
        [ascii "353", pa, [kind], chan]) := by
    have happend : ∀ (us vs : List CStr) (e : CStr), lead SP e (us ++ vs) = lead SP (lead SP e vs) us := by
      intro us vs e
      induction us with
      | nil => rfl
      | cons u us ih => rw [List.cons_append, lead_cons, ih, lead_cons]
    have hraw : w.line t (.names server kind chan (ws ++ [([], [])])) =
        COLON :: (server ++ lead SP [] ([ascii "353", w.me, [kind], chan] ++
          World.namesWords (ws ++ [([], [])])) ++ t.bytes) := rfl
    rw [hraw, hme, List.append_assoc, ← lead_append_end, List.nil_append, happend]
  rw [hwords, lead_namesWords, ← htext]
  rfl

/-- The user as `netnames` knows him. -/
def namesUser (tok pa : CStr) (w : World) : NamesUser := ⟨pa, w.signs, tok, pa⟩

section Reply

variable (hp : TokenParent tok pa all) (hint : tok ≠ ascii "int")

include hint in
theorem namesUser_chars : (namesUser tok pa w).chars = w.signs := by
  rw [NamesUser.chars, if_neg]
  · rfl
  · exact fun h => hint (strmcmp_iff.1 h)

include hp hint in
theorem namesUser_sound (hw : w.Sound) : (namesUser tok pa w).Sound := by
  have hpa := hp.nick
  refine ⟨⟨⟨hpa.stops (by decide), hpa.stops (by decide), hpa.stops (by decide)⟩, hpa.1⟩, ?_, ⟨?_, ?_⟩, hpa.2.1⟩
  · rw [namesUser_chars hint]
    exact ⟨hw.signs.1, hw.signs.2.2.1, hw.signs.2.2.2⟩
  · exact fun hmem => hp.text SP hmem (by decide)
  · exact Nat.lt_trans hp.short (by decide)

/-- The nicks in the words, of which the last one is empty. -/
theorem nick_of_word
    (hwords : ∀ p ∈ ws ++ [([], [])], (∀ b ∈ p.1, b ∈ w.signs) ∧ (p.2 ∈ w.on (foldName chan) ∨ p = ([], [])))
    (hws : ∀ p ∈ ws, p.1.length ≤ 1 ∧ p.2 ≠ []) : ∀ p ∈ ws, p.2 ∈ w.on (foldName chan) := by
  intro p hp
  rcases (hwords p (List.mem_append_left _ hp)).2 with hin | heq
  · exact hin
  · exact absurd (congrArg Prod.snd heq) (hws p hp).2

include hp hint in
theorem replyOf_wellFormed (hw : w.Sound) (hserver : ServerText server) (hchan : ChanText chan)
    (hkind : kind ∈ [EQUALS, AT, WILDS]) (hflags : ∀ p ∈ ws, ∀ b ∈ p.1, b ∈ w.signs) (hnicks : ∀ p ∈ ws, p.2 ∈ w.online)
    (t : Terminator) : (replyOf server pa chan kind ws t).WellFormed (namesUser tok pa w) := by
  have hpa := hp.nick
  refine ⟨⟨List.cons_ne_nil _ _, ?_⟩, ⟨hpa.stops (by decide), hpa.head⟩, ⟨?_, ?_⟩, hchan.word.1, ?_, ?_, ?_⟩
  · rw [replyOf, List.mem_cons, not_or]
    exact ⟨by decide, hserver.1.2.1⟩
  · rw [replyOf, List.mem_singleton]
    rintro rfl
    exact absurd hkind (by decide)
  · rw [replyOf]
    rintro heq
    rw [Option.some.inj heq] at hkind
    exact absurd hkind (by decide)
  · intro b hb
    cases t with
    | cr => exact Or.inl (List.mem_singleton.1 hb)
    | lf => exact Or.inr (List.mem_singleton.1 hb)
    | crlf => simpa [replyOf, Terminator.bytes] using hb
  · intro n hn b hb
    rcases List.mem_map.1 hn with ⟨p, hp, rfl⟩
    rw [namesUser_chars hint]
    exact hflags p hp b (List.mem_of_head? hb)
  · intro n hn
    rcases List.mem_map.1 hn with ⟨p, hp, rfl⟩
    have hnick := hw.nicks _ (Set.mem_insert_of_mem _ (hnicks p hp))
    refine ⟨⟨hnick.stops (by decide), hnick.stops (by decide), hnick.stops (by decide)⟩, ?_⟩
    rcases List.exists_cons_of_ne_nil hnick.1 with ⟨b, nick, hcons⟩
    refine ⟨b, nick, hcons, ?_⟩
    rw [namesUser_chars hint]
    apply hnick.2.2.2
    rw [hcons]
    rfl

/-- A word as `netnames` writes it. -/
theorem named_word (hw : w.Sound) (hme : w.me = pa) {p : CStr × CStr} (hone : p.1.length ≤ 1) (hn : p.2 ∈ w.online) :
    (ListedName.mk p.1.head? p.2).named (namesUser tok pa w) = p.1 ++ retoldNick tok pa w.me p.2 := by
  have hflag : (ListedName.mk p.1.head? p.2).flag.toList = p.1 := toList_head? hone
  rw [ListedName.named, hflag]
  by_cases hown : p.2 = w.me
  · rw [if_pos, hown, retoldNick_self]
    · rfl
    · rw [hown, hme]
      exact strmncasecmp_iff.2 rfl
  · rw [if_neg, retoldNick_other hown]
    · rfl
    · intro heq
      apply hown
      apply hw.apart _ (Set.mem_insert_of_mem _ hn) _ (Set.mem_insert _ _)
      rw [hme]
      exact strmncasecmp_iff.1 heq

theorem names_length (hserver : ServerText server) (hchan : ChanText chan) (hme : w.me.length < 64)
    (hne : words ≠ []) (hsum : (words.map fun p => p.1.length + p.2.length + 1).sum < 1000) (t : Terminator) :
    (w.line t (.names server kind chan words)).length ≤ 7500 := by
  have hslen := hserver.2
  have hclen := hchan.short
  have hbytes := length_bytes t
  have hcmd : (ascii "353").length = 3 := by decide
  have hwlen := length_namesWords hne
  have hraw : w.line t (.names server kind chan words) =
      COLON :: (server ++ lead SP (lead SP [] (World.namesWords words)) [ascii "353", w.me, [kind], chan]) ++
        t.bytes := rfl
  rw [hraw]
  simp only [List.length_cons, List.length_append, lead_cons, lead_nil, List.length_nil, hcmd, hwlen]
  omega

end Reply

section Part

variable {ys : List (CStr × CStr)} {l : List CStr}

/-- The line that is sent for some of the words. -/
theorem text_names (hme' : w'.me = pa) :
    w'.text (.names server kind (retoldChan tok chan) (ys.map (retoldWord tok pa w.me) ++ [([], [])])) =
      COLON :: server ++ lead SP [SP, COLON] [ascii "353", pa, [kind], retoldChan tok chan] ++
        (ys.map fun p => p.1 ++ retoldNick tok pa w.me p.2 ++ [SP]).flatten := by
  have hwords : (ys.map (retoldWord tok pa w.me)).map (fun p => p.1 ++ p.2 ++ [SP]) =
      ys.map fun p => p.1 ++ retoldNick tok pa w.me p.2 ++ [SP] := by
    rw [List.map_map]
    rfl
  have hraw : w'.text (.names server kind (retoldChan tok chan) (ys.map (retoldWord tok pa w.me) ++ [([], [])])) =
      COLON :: (server ++ lead SP
        (lead SP [] (World.namesWords (ys.map (retoldWord tok pa w.me) ++ [([], [])])))
        [ascii "353", w'.me, [kind], retoldChan tok chan]) := rfl
  rw [hraw, lead_namesWords, hwords, hme']
  simp

/-- A part of the names is itself a reply of the client's server. -/
theorem valid_names (h : Beyond tok pa all w w') (hp : TokenParent tok pa all) (hon : w.me ∈ w.on (foldName chan))
    (hserver : ServerText server) (hchan : ChanText chan) (hchanlen : (retoldChan tok chan).length < 200)
    (hkind : kind ∈ [EQUALS, AT, WILDS])
    (hys : ∀ p ∈ ys, (∀ b ∈ p.1, b ∈ w.signs) ∧ p.2 ∈ w.on (foldName chan))
    (hlen : (ys.map fun p => p.1 ++ retoldNick tok pa w.me p.2 ++ [SP]).flatten.length < 900) :
    w'.Valid (.names server kind (retoldChan tok chan) (ys.map (retoldWord tok pa w.me) ++ [([], [])])) := by
  refine ⟨?_, ⟨hserver, chanText_retold hp hchan hchanlen, hkind⟩, ?_, ?_, ?_⟩
  · rw [h.maps.me, h.mem_on hp hchanlen]
    exact hon
  · exact List.append_ne_nil_of_right_ne_nil _ (List.cons_ne_nil _ _)
  · have hsum : ((ys.map (retoldWord tok pa w.me)).map fun p => p.1.length + p.2.length + 1).sum =
        (ys.map fun p => p.1 ++ retoldNick tok pa w.me p.2 ++ [SP]).flatten.length := by
      rw [List.length_flatten, List.map_map, List.map_map]
      apply congrArg List.sum
      apply List.map_congr_left
      intro p _
      simp only [Function.comp_apply, retoldWord, List.length_append, List.length_singleton]
    rw [List.map_append, List.sum_append, hsum, List.map_singleton, List.sum_singleton, List.length_nil]
    omega
  · intro q hq
    rcases List.mem_append.1 hq with hq | hq
    · rcases List.mem_map.1 hq with ⟨p, hp', rfl⟩
      refine ⟨?_, Or.inl ?_⟩
      · rw [h.signs']
        exact fun b hb => h.signs b ((hys p hp').1 b hb)
      · exact (h.mem_on hp hchanlen).2 (hys p hp').2
    · rw [List.mem_singleton.1 hq]
      exact ⟨fun b hb => absurd hb List.not_mem_nil, Or.inr rfl⟩

/-- The part without the end of the line. -/
theorem lineOf_names (h : Beyond tok pa all w w') (hp : TokenParent tok pa all) (hserver : ServerText server)
    (hchan : ChanText chan) (hchanlen : (retoldChan tok chan).length < 200) (hkind : kind ∈ [EQUALS, AT, WILDS])
    (hys : ∀ p ∈ ys, (∀ b ∈ p.1, b ∈ w.signs) ∧ p.2 ∈ w.online)
    (hlen : (ys.map fun p => p.1 ++ retoldNick tok pa w.me p.2 ++ [SP]).flatten.length < 900) (t : Terminator)
    (hl : l = ys.map (fun p => p.1 ++ retoldNick tok pa w.me p.2 ++ [SP]) ∨
      l = ys.map (fun p => p.1 ++ retoldNick tok pa w.me p.2 ++ [SP]) ++ [t.bytes]) :
    lineOf (COLON :: server ++ lead SP [SP, COLON] [ascii "353", pa, [kind], retoldChan tok chan] ++ l.flatten) =
      w'.text (.names server kind (retoldChan tok chan) (ys.map (retoldWord tok pa w.me) ++ [([], [])])) := by
  have hpa := hp.nick
  have hchan' := chanText_retold hp hchan hchanlen
  have hkind' : Inline [kind] := by
    simp only [List.mem_cons, List.not_mem_nil, or_false] at hkind
    rcases hkind with rfl | rfl | rfl
    · decide
    · decide
    · decide
  have hwords : Inline (ys.map fun p => p.1 ++ retoldNick tok pa w.me p.2 ++ [SP]).flatten := by
    have hinline : ∀ v ∈ ys.map fun p => p.1 ++ retoldNick tok pa w.me p.2 ++ [SP], Inline v := by
      intro v hv
      rcases List.mem_map.1 hv with ⟨p, hp', rfl⟩
      have hsigns := h.sound.signs.2
      have hflags := (hys p hp').1
      refine inline_append (inline_append ⟨?_, ?_, ?_⟩ ?_) (by decide)
      · exact fun hmem => hsigns.1 (hflags 0 hmem)
      · exact fun hmem => hsigns.2.1 (hflags CR hmem)
      · exact fun hmem => hsigns.2.2 (hflags LF hmem)
      · exact h.retold_nick_inline (Set.mem_insert_of_mem _ (hys p hp').2)
    refine ⟨?_, ?_, ?_⟩
    · rintro hmem
      rcases List.mem_flatten.1 hmem with ⟨v, hv, hb⟩
      exact (hinline v hv).1 hb
    · rintro hmem
      rcases List.mem_flatten.1 hmem with ⟨v, hv, hb⟩
      exact (hinline v hv).2.1 hb
    · rintro hmem
      rcases List.mem_flatten.1 hmem with ⟨v, hv, hb⟩
      exact (hinline v hv).2.2 hb
  have hinline : Inline (COLON :: server ++ lead SP [SP, COLON] [ascii "353", pa, [kind], retoldChan tok chan] ++
      (ys.map fun p => p.1 ++ retoldNick tok pa w.me p.2 ++ [SP]).flatten) := by
    refine inline_append (inline_append (inline_cons (by decide) hserver.1.2.2) ?_) hwords
    apply Reflects.inline_lead (by decide)
    simp only [List.forall_mem_cons]
    exact ⟨by decide, hpa.inline, hkind', hchan'.word.2.2, fun v hv => absurd hv List.not_mem_nil⟩
  have hshort : (COLON :: server ++ lead SP [SP, COLON] [ascii "353", pa, [kind], retoldChan tok chan] ++
      (ys.map fun p => p.1 ++ retoldNick tok pa w.me p.2 ++ [SP]).flatten).length < 8189 := by
    have hslen := hserver.2
    have hplen := hpa.2.1
    have hcmd : (ascii "353").length = 3 := by decide
    simp only [List.length_cons, List.length_append, lead_cons, lead_nil, List.length_nil, hcmd]
    omega
  -- The end of the line is cut off, when the part has it.
  rw [text_names h.me]
  rcases hl with rfl | rfl
  · exact lineOf_inline hinline (Nat.lt_trans hshort (by decide))
  · rw [List.flatten_append, List.flatten_singleton, ← List.append_assoc]
    exact lineOf_terminated hinline.2.1 hinline.2.2 hshort t

end Part

/-- The reply is taken apart as it was put together. -/
theorem heard_353 (hw : w.Sound) (he : w.Valid (.names server kind chan words)) (t : Terminator) :
    ∃ params, Heard server (ascii "353") params (parse (w.line t (.names server kind chan words))) := by
  have hrest := Reflects.rest_names hw he
  have hserver := he.2.1.1
  have hlen : (COLON :: (server ++ SP :: (ascii "353" ++ SP ::
      (w.me ++ lead SP [] ([kind] :: chan :: World.namesWords words))))).length < 8000 := by
    have hslen := hserver.2
    have hwlen := hrest.2
    have hcmd : (ascii "353").length = 3 := by decide
    simp only [List.length_append, List.length_cons, hcmd] at hwlen ⊢
    omega
  exact ⟨_, heard_text (Reflects.serverText_sender hserver) (by decide) hrest.1 hlen t⟩

/-- The reply reaches `netnames`. -/
theorem shows_353 {line : CStr} (hfit : a.Fits tok pa pa s) (hp : TokenParent tok pa all)
    (hsigns : s.user.prefixchars = w.signs) (hserver : ServerText server ∧ AT ∉ server) {params : CStr}
    (hheard : Heard server (ascii "353") params (parse line))
    (hout : (netnames (namesUser tok pa w) line).2 ≠ []) :
    a.shows init old s line =
      some (((netnames (namesUser tok pa w) line).1 ++ [(netnames (namesUser tok pa w) line).2]).map lineOf) := by
  have hcommand : (parse line).irccommand = ascii "353" := hheard.sent.command.trans (by decide)
  have hif := ifcommand_eq hcommand (by decide)
  have hfrom : AT ∉ (parse line).ircfrom := by
    rw [hheard.source]
    exact fun hmem => hserver.2 (mem_of_mem_clip hmem)
  rcases addtoken_own old line hfit (called_nick hp hp.nick fun _ => rfl) hfrom with ⟨src, net, hcode⟩
  have hthash : thash ((a.user s).caller a.usern) (parse line) src line =
      some (netnames (namesUser tok pa w) line) := by
    rw [thash, hfit.caller]
    simp only [hif]
    rw [namesUser, ← hsigns]
    rfl
  rw [hthash, Option.map_some] at hcode
  rw [shows_eq old hif (by decide) (handled_other a s hif (by decide)), initLine_eq line hif (by decide), hcode,
    Option.map_some, if_neg hout]

/-- The client gets the names in one line or more, each of them a reply of its own server. -/
theorem shows_names (h : Beyond tok pa all w w') (hp : TokenParent tok pa all) (hfit : a.Fits tok pa w.me s)
    (hsigns : s.user.prefixchars = w.signs) (he : w.Valid (.names server kind chan words))
    (hr : w.Retellable tok pa all (.names server kind chan words)) (t : Terminator) :
    ∃ yss : List (List (CStr × CStr)),
      a.shows init old s (w.line t (.names server kind chan words)) = some (yss.map fun ys =>
        w'.text (.names server kind (retoldChan tok chan) (ys.map (retoldWord tok pa w.me) ++ [([], [])]))) ∧
      ∀ ys ∈ yss, w'.Valid
        (.names server kind (retoldChan tok chan) (ys.map (retoldWord tok pa w.me) ++ [([], [])])) := by
  rcases hr with ⟨⟨hme, hat⟩, hchanlen, ws, rfl, hws⟩
  rcases id he with ⟨hon, ⟨hserver, hchan, hkind⟩, hne, hsum, hwords⟩
  have hnicks := nick_of_word hwords hws
  have honline : ∀ p ∈ ws, p.2 ∈ w.online := fun p hp => h.sound.sub _ (hnicks p hp)
  have hflags : ∀ p ∈ ws, ∀ b ∈ p.1, b ∈ w.signs := fun p hp => (hwords p (List.mem_append_left _ hp)).1
  have hline := @replyOf_line pa w chan server kind ws t (fun p hp => (hws p hp).1) hme
  have hlen : (replyOf server pa chan kind ws t).line.length ≤ 7500 := by
    rw [hline]
    exact names_length hserver hchan h.sound.me_nick.2.1 hne hsum t
  -- No name is longer with its token than the line has room for.
  have hk : ∀ n ∈ (replyOf server pa chan kind ws t).names, (n.named (namesUser tok pa w)).length < 66 := by
    intro n hn
    rcases List.mem_map.1 hn with ⟨p, hp, rfl⟩
    have hshort := h.short _ (honline p hp)
    have hone := (hws p hp).1
    rw [named_word h.sound hme hone (honline p hp), List.length_append]
    omega
  have hnames : ((replyOf server pa chan kind ws t).names.map fun n => n.named (namesUser tok pa w) ++ [SP]) =
      ws.map fun p => p.1 ++ retoldNick tok pa w.me p.2 ++ [SP] := by
    rw [replyOf, List.map_map]
    apply List.map_congr_left
    intro p hp
    rw [Function.comp_apply, named_word h.sound hme (hws p hp).1 (honline p hp)]
  rcases netnames_handed (namesUser_sound hp hfit.int h.sound)
    (replyOf_wellFormed hp hfit.int h.sound hserver hchan hkind hflags honline t) hlen rfl hk
    (Nat.le_trans (length_bytes t) (by decide)) with ⟨lines, hflat, hout, hbound⟩
  rw [hnames] at hflat
  rw [hline] at hout
  -- every line has some of the words, and the last one the end of the reply
  have hsplit : ∀ l ∈ lines, ∃ ys : List (CStr × CStr), (∀ y ∈ ys, y ∈ ws) ∧
      (l = ys.map (fun p => p.1 ++ retoldNick tok pa w.me p.2 ++ [SP]) ∨
        l = ys.map (fun p => p.1 ++ retoldNick tok pa w.me p.2 ++ [SP]) ++ [t.bytes]) := pieces_split hflat
  choose! g hg hcut using hsplit
  have hshort : ∀ l ∈ lines, ((g l).map fun p => p.1 ++ retoldNick tok pa w.me p.2 ++ [SP]).flatten.length < 900 := by
    intro l hl
    have hle := hbound l hl
    rcases hcut l hl with heq | heq
    · rw [← heq]
      omega
    · have hlen := congrArg (fun l : List CStr => l.flatten.length) heq
      rw [List.flatten_append, List.length_append] at hlen
      omega
  refine ⟨lines.map g, ?_, ?_⟩
  · rcases heard_353 h.sound he t with ⟨params, hheard⟩
    -- The last line is not empty, so it is passed on.
    have hne' : (netnames (namesUser tok pa w) (w.line t (.names server kind chan (ws ++ [([], [])])))).2 ≠ [] := by
      have hmem : (netnames (namesUser tok pa w) (w.line t (.names server kind chan (ws ++ [([], [])])))).2 ∈
          lines.map fun l => (replyOf server pa chan kind ws t).header (namesUser tok pa w) ++ l.flatten := by
        rw [← hout]
        exact List.mem_append_right _ List.mem_cons_self
      rcases List.mem_map.1 hmem with ⟨l, _, heq⟩
      rw [← heq]
      exact List.cons_ne_nil _ _
    rw [shows_353 (hme ▸ hfit) hp hsigns ⟨hserver, hat⟩ hheard hne', hout, List.map_map, List.map_map]
    apply congrArg some
    apply List.map_congr_left
    intro l hl
    have hys : ∀ p ∈ g l, (∀ b ∈ p.1, b ∈ w.signs) ∧ p.2 ∈ w.online :=
      fun p hp => ⟨hflags p (hg l hl p hp), honline p (hg l hl p hp)⟩
    exact h.lineOf_names hp hserver hchan hchanlen hkind hys (hshort l hl) t (hcut l hl)
  · intro ys hys
    rcases List.mem_map.1 hys with ⟨l, hl, rfl⟩
    have hin : ∀ p ∈ g l, (∀ b ∈ p.1, b ∈ w.signs) ∧ p.2 ∈ w.on (foldName chan) :=
      fun p hp => ⟨hflags p (hg l hl p hp), hnicks p (hg l hl p hp)⟩
    exact h.valid_names hp hon hserver hchan hchanlen hkind hin (hshort l hl)

end Beyond

end PsyBnc
