import PsyBnc.Network.TokenSight

/-!
# Lines with tokens (`userinbound`)

A command with the token of one network in front of every target, and what is left of it when `userinbound` has called
`checknetwork` often enough.
-/

namespace PsyBnc

open CLib Function

/-! ## Lines with one token in front of every parameter -/

/-- A name that is seen as a token when `~` stands behind it. -/
structure TokenText (n : CStr) : Prop where
  blank : SP ∉ n
  colon : COLON ∉ n
  comma : COMMA ∉ n
  tilde : TILDE ∉ n
  last : n.getLast? ≠ some WILDS ∧ n.getLast? ≠ some EXCL

/-- A target behind its token, `#net~` or `net~`. -/
structure TokenItem where
  mark : Bool
  rest : CStr

/-- The targets of a parameter, with commas between them. -/
structure TokenParam where
  first : TokenItem
  more : List TokenItem

def markText (mark : Bool) : CStr := if mark then [HASH] else []

def TokenItem.typed (name : CStr) (item : TokenItem) : CStr := markText item.mark ++ name ++ TILDE :: item.rest

def TokenParam.typed (name : CStr) (p : TokenParam) : CStr :=
  p.first.typed name ++ lead COMMA [] (p.more.map (TokenItem.typed name))

def TokenParam.stripped (p : TokenParam) : CStr := p.first.rest ++ lead COMMA [] (p.more.map TokenItem.rest)

/-- The text at the end of a line. -/
def trailingText (text : Option CStr) : CStr := text.elim [] fun text => SP :: COLON :: text

/-- A command of a client in which every parameter has the token of the network `name`. -/
structure TokenCommand where
  head : CStr
  name : CStr
  param : TokenParam
  params : List TokenParam
  text : Option CStr
  head_word : head ≠ [] ∧ TILDE ∉ head ∧ COLON ∉ head.tail
  name_text : COMMA ∉ name ∧ TILDE ∉ name
  short : (head ++ lead SP (trailingText text) ((param :: params).map (TokenParam.typed name))).length < 8192

namespace TokenCommand

variable (l : TokenCommand)

def typed : CStr := l.head ++ lead SP (trailingText l.text) ((l.param :: l.params).map (TokenParam.typed l.name))

/-- The line without its tokens. -/
def stripped : CStr := l.head ++ lead SP (trailingText l.text) ((l.param :: l.params).map TokenParam.stripped)

end TokenCommand

section Texts

variable {sep : Byte} {e name x : CStr} {mark : Bool}

theorem count_lead_congr {β : Type} {f g : β → CStr} (c : Byte) (h : ∀ b, (f b).count c = (g b).count c) (ws : List β) :
    (lead sep e (ws.map f)).count c = (lead sep e (ws.map g)).count c := by
  induction ws with
  | nil => rfl
  | cons w ws ih =>
      simp only [List.map_cons, lead_cons, List.count_cons, List.count_append, ih, h w]

theorem length_lead_lt {β : Type} {f g : β → CStr} (h : ∀ b, (g b).length < (f b).length) (ws : List β) :
    (lead sep e (ws.map g)).length + ws.length ≤ (lead sep e (ws.map f)).length := by
  induction ws with
  | nil => exact Nat.le_refl _
  | cons w ws ih =>
      have hw := h w
      simp only [List.map_cons, lead_cons, List.length_cons, List.length_append]
      omega

theorem notMem_mark {b : Byte} (hb : b ≠ HASH) (h : b ∉ name) (mark : Bool) : b ∉ markText mark ++ name := by
  rw [List.mem_append, not_or]
  refine ⟨?_, h⟩
  cases mark with
  | true => exact fun hmem => hb (List.mem_singleton.1 hmem)
  | false => exact List.not_mem_nil

/-- A token has no comma. -/
theorem count_token (hname : TokenText name) (mark : Bool) : (markText mark ++ name).count COMMA = 0 :=
  List.count_eq_zero_of_not_mem (notMem_mark (by decide) hname.comma mark)

theorem TokenItem.count_typed (hname : TokenText name) (item : TokenItem) :
    (item.typed name).count COMMA = item.rest.count COMMA := by
  have htilde : (TILDE :: item.rest).count COMMA = item.rest.count COMMA := List.count_cons_of_ne (by decide)
  rw [TokenItem.typed, List.count_append, count_token hname, htilde, Nat.zero_add]

theorem TokenItem.length_typed (name : CStr) (item : TokenItem) : item.rest.length < (item.typed name).length := by
  rw [TokenItem.typed, List.length_append, List.length_cons]
  omega

theorem TokenParam.count_typed (hname : TokenText name) (p : TokenParam) :
    (p.typed name).count COMMA = p.stripped.count COMMA := by
  rw [TokenParam.typed, TokenParam.stripped, List.count_append, List.count_append, TokenItem.count_typed hname,
    count_lead_congr COMMA (TokenItem.count_typed hname)]

theorem TokenParam.length_typed (name : CStr) (p : TokenParam) : p.stripped.length < (p.typed name).length := by
  have hfirst := p.first.length_typed name
  have hmore := @length_lead_lt COMMA [] _ _ _ (TokenItem.length_typed name) p.more
  rw [TokenParam.typed, TokenParam.stripped, List.length_append, List.length_append]
  omega

/-- The token in front of its `~`. -/
theorem tokenText_mark (hname : TokenText name) (mark : Bool) :
    (SP ∉ markText mark ++ name ∧ COLON ∉ markText mark ++ name ∧ TILDE ∉ markText mark ++ name) ∧
      ((markText mark ++ name).getLast? ≠ some WILDS ∧ (markText mark ++ name).getLast? ≠ some EXCL) := by
  constructor
  · exact ⟨notMem_mark (by decide) hname.blank mark, notMem_mark (by decide) hname.colon mark,
      notMem_mark (by decide) hname.tilde mark⟩
  · cases mark with
    | false => exact hname.last
    | true =>
        cases name with
        | nil => exact ⟨by decide, by decide⟩
        | cons c name =>
            have hcons : markText true ++ c :: name = HASH :: c :: name := rfl
            rw [hcons, List.getLast?_cons_cons]
            exact hname.last

/-- Behind the first blank the command is known. -/
theorem nick_iff {head x : CStr} (h : head ++ [SP] <+: x) : ascii "NICK " <+: x ↔ ascii "NICK " <+: head ++ [SP] := by
  refine ⟨fun hx => ?_, fun hx => hx.trans h⟩
  rcases Nat.lt_or_ge (head ++ [SP]).length (ascii "NICK ").length with hlt | hge
  · exfalso
    have hpre := List.prefix_of_prefix_length_le h hx (Nat.le_of_lt hlt)
    have hmem : SP ∈ (ascii "NICK ").take (head ++ [SP]).length := by
      rw [← List.prefix_iff_eq_take.1 hpre]
      exact List.mem_append_right _ List.mem_cons_self
    have hfour : SP ∈ (ascii "NICK ").take 4 := by
      apply (List.take_subset_take_left _ _) hmem
      exact Nat.le_of_lt_succ hlt
    exact absurd hfour (by decide)
  · exact List.prefix_of_prefix_length_le hx h hge

end Texts

/-! ## The loop on such a line -/

section Main

variable {front : Nat → Byte} {s : Users} {ausern uid : Int} {i : Nat} {head name e x line line' t t' y w rest : CStr}

/-- A line behind the first word, as long as the buffer allows. -/
structure Behind (head line : CStr) : Prop where
  word : head ≠ [] ∧ TILDE ∉ head ∧ COLON ∉ head.tail
  blank : head ++ [SP] <+: line
  short : line.length < 8192

theorem Behind.ne_nil (h : Behind head line) : line ≠ [] := by
  intro hnil
  have hpre := h.blank
  rw [hnil, List.prefix_nil] at hpre
  exact List.append_ne_nil_of_left_ne_nil h.word.1 _ hpre

theorem Behind.head? (h : Behind head line) : line.head? ≠ some TILDE := by
  rcases h.blank with ⟨t, rfl⟩
  rw [List.append_assoc, List.head?_append_of_ne_nil _ h.word.1]
  exact fun heq => h.word.2.1 (List.mem_of_mem_head? heq)

theorem Behind.stays (h : Behind head line) (hquiet : tildeSplit (openPart line) = none) :
    Strips front s ausern i line e ↔ e = line :=
  strips_kept (kept_of_quiet h.short h.ne_nil h.head? hquiet)

/-- A line that the loop ends with has nothing to see. -/
theorem Behind.quiet (h : Behind head e) (hroot : (s.account ausern).parent ≠ ausern)
    (hs : Strips front s ausern i line e) : tildeSplit (openPart e) = none := by
  rcases hs.last hroot with hnil | ⟨b, hkept⟩
  · exact absurd hnil h.ne_nil
  · rcases h.blank with ⟨t, rfl⟩
    have hassoc : head ++ [SP] ++ t = head ++ SP :: t := by rw [List.append_assoc, List.singleton_append]
    have hlen := h.short
    rw [hassoc] at hkept hlen ⊢
    exact quiet_of_kept hroot hlen h.word hkept

/-- Once a colon is passed nothing more is cut out. -/
theorem Behind.closed (hl : Behind head (x ++ t)) (he : Behind head (x ++ t')) (hcolon : COLON ∈ x.tail)
    (hnick : ¬ ascii "NICK " <+: head ++ [SP]) (hquiet : tildeSplit (openPart (x ++ t')) = none)
    (hlen : (x ++ t').length < (x ++ t).length) : ¬ Strips front s ausern i (x ++ t) (x ++ t') := by
  intro hs
  have hopen : openPart (x ++ t) = openPart (x ++ t') := by
    apply openPart_of_colon _ _ hcolon
    · exact fun h => hnick ((nick_iff hl.blank).1 h)
    · exact fun h => hnick ((nick_iff he.blank).1 h)
  rw [← hopen] at hquiet
  have heq := (hl.stays hquiet).1 hs
  rw [heq] at hlen
  exact absurd hlen (Nat.lt_irrefl _)

/-- The start of a line that is left is quiet itself, as long as it is open. -/
theorem Behind.quiet_start (he : Behind head (x ++ t)) (hx : x ≠ [])
    (hopen : ascii "NICK " <+: head ++ [SP] ∨ COLON ∉ x.tail) (hquiet : tildeSplit (openPart (x ++ t)) = none) :
    tildeSplit x = none := by
  apply quiet_of_prefix _ hquiet
  apply prefix_openPart hx
  rcases hopen with hnick | hno
  · exact Or.inl ((nick_iff he.blank).2 hnick)
  · exact Or.inr hno

/-- After a comma the tokens are not told apart any more. -/
theorem Behind.comma (hname : TokenText name) (hroot : (s.account ausern).parent ≠ ausern) {mark : Bool} (hx : x ≠ [])
    (hhead : x.head? ≠ some TILDE)
    (hl : Behind head (x ++ SP :: (y ++ COMMA :: ((markText mark ++ name) ++ TILDE :: rest))))
    (he : Behind head (x ++ SP :: (y ++ COMMA :: t)))
    (hquiet : tildeSplit (openPart (x ++ SP :: (y ++ COMMA :: t))) = none)
    (hlen : (COMMA :: t).length < (COMMA :: ((markText mark ++ name) ++ TILDE :: rest)).length)
    (hcount : t.count COMMA = ((markText mark ++ name) ++ TILDE :: rest).count COMMA) :
    ¬ Strips front s ausern i (x ++ SP :: (y ++ COMMA :: ((markText mark ++ name) ++ TILDE :: rest)))
      (x ++ SP :: (y ++ COMMA :: t)) := by
  intro hs
  have hassoc : ∀ t : CStr, x ++ SP :: (y ++ COMMA :: t) = (x ++ SP :: y) ++ COMMA :: t := by
    intro t
    rw [List.append_assoc, List.cons_append]
  have hne : x ++ SP :: y ≠ [] := List.append_ne_nil_of_left_ne_nil hx _
  by_cases hopen : ascii "NICK " <+: head ++ [SP] ∨ COLON ∉ (x ++ SP :: y).tail
  · have hstart : tildeSplit (x ++ SP :: y) = none := by
      rw [hassoc] at he hquiet
      exact he.quiet_start hne hopen hquiet
    have hcontent : ascii "NICK " <+: x ++ SP :: (y ++ COMMA :: ((markText mark ++ name) ++ TILDE :: rest)) ∨
        COLON ∉ (x ++ SP :: y).tail := by
      rcases hopen with hnick | hno
      · exact Or.inl ((nick_iff hl.blank).2 hnick)
      · exact Or.inr hno
    rcases tokenText_mark hname mark with ⟨hw, hlast⟩
    rcases @checknetworkFrom_comma (front i) s ausern (markText mark ++ name) x y rest ⟨hx, hhead⟩ hstart hw hlast
      hcontent hl.short with ⟨pt1, line', hcall, hless⟩
    rcases network_cases s ausern pt1 line' with ⟨uid, hnet, hwho⟩ | hnet
    · have huid : uid ≠ ausern := by
        rintro rfl
        rcases hwho with hint | hparent
        · omega
        · exact hroot hparent
      have hle := ((strips_next (hcall.trans hnet) huid).1 hs).count_le
      simp only [List.count_append, List.count_cons] at hless hle hcount
      omega
    · exact he.ne_nil ((strips_unknown (hcall.trans hnet)).1 hs)
  · rw [not_or, not_not] at hopen
    rw [hassoc] at hs hl
    rw [hassoc] at hs he hquiet
    apply hl.closed he hopen.2 hopen.1 hquiet _ hs
    simp only [List.length_append, List.length_cons] at hlen ⊢
    omega

end Main

section Params

variable {front : Nat → Byte} {s : Users} {ausern uid : Int} {i : Nat} {head name e x t u : CStr}

/-- What follows the blank does not matter. -/
theorem Behind.other (h : Behind head (x ++ SP :: t)) (hx : head <+: x) (hlen : (x ++ SP :: u).length < 8192) :
    Behind head (x ++ SP :: u) := by
  have hassoc : ∀ t : CStr, x ++ SP :: t = (x ++ [SP]) ++ t := by
    intro t
    rw [List.append_assoc, List.singleton_append]
  have hblank : head ++ [SP] <+: x ++ [SP] := by
    have hpre := h.blank
    rw [hassoc] at hpre
    apply List.prefix_of_prefix_length_le hpre (List.prefix_append _ t)
    rw [List.length_append, List.length_append]
    exact Nat.add_le_add_right hx.length_le _
  refine ⟨h.word, ?_, hlen⟩
  rw [hassoc]
  exact hblank.trans (List.prefix_append _ u)

/-- The first token of a parameter goes if it is known. -/
theorem strips_first (hname : TokenText name) (hroot : (s.account ausern).parent ≠ ausern) {mark : Bool}
    (hx : x ≠ [] ∧ x.head? ≠ some TILDE) (hquiet : tildeSplit x = none)
    (hopen : ascii "NICK " <+: head ++ [SP] ∨ COLON ∉ x.tail)
    (hl : Behind head (x ++ SP :: ((markText mark ++ name) ++ TILDE :: t))) (he : e ≠ []) :
    Strips front s ausern i (x ++ SP :: ((markText mark ++ name) ++ TILDE :: t)) e ↔
      s.Known ausern (untagged (markText mark ++ name)) ∧ Strips front s ausern (i + 1) (x ++ SP :: t) e := by
  rcases tokenText_mark hname mark with ⟨hw, hlast⟩
  have hcontent : ascii "NICK " <+: x ++ SP :: ((markText mark ++ name) ++ TILDE :: t) ∨ COLON ∉ x.tail :=
    hopen.imp_left (nick_iff hl.blank).2
  have hcall := @checknetworkFrom_token (front i) s ausern x (markText mark ++ name) t hx hquiet hw hlast hcontent
    hl.short
  by_cases hknown : s.Known ausern (untagged (markText mark ++ name))
  · rcases network_known hroot hknown (x ++ SP :: t) with ⟨uid, hnet, huid⟩
    rw [strips_next (hcall.trans hnet) huid]
    exact ⟨fun hs => ⟨hknown, hs⟩, fun hs => hs.2⟩
  · rw [strips_unknown (hcall.trans (network_unknown hknown _))]
    exact ⟨fun hnil => absurd hnil he, fun hs => absurd hs.1 hknown⟩

theorem TokenParam.typed_eq (name : CStr) (p : TokenParam) :
    p.typed name = (markText p.first.mark ++ name) ++
      TILDE :: (p.first.rest ++ lead COMMA [] (p.more.map (TokenItem.typed name))) := by
  rw [TokenParam.typed, TokenItem.typed, List.append_assoc (markText p.first.mark ++ name), List.cons_append]

/-- Behind a parameter with one target the colons that matter are those in front of the last parameter. -/
theorem colon_cons_iff {p : TokenParam} (hmore : p.more = []) (params : List TokenParam)
    (hopen : ascii "NICK " <+: head ++ [SP] ∨ COLON ∉ x.tail) :
    (p :: params = [] ∨ ascii "NICK " <+: head ++ [SP] ∨
        COLON ∉ (x ++ lead SP [] ((p :: params).dropLast.map TokenParam.stripped)).tail) ↔
      params = [] ∨ ascii "NICK " <+: head ++ [SP] ∨
        COLON ∉ ((x ++ SP :: p.first.rest) ++ lead SP [] (params.dropLast.map TokenParam.stripped)).tail := by
  cases params with
  | nil =>
      -- Nothing stands behind the only parameter.
      refine ⟨fun _ => Or.inl rfl, fun _ => Or.inr ?_⟩
      rw [List.dropLast_singleton, List.map_nil, lead_nil, List.append_nil]
      exact hopen
  | cons q params =>
      have htext : x ++ lead SP [] ((p :: q :: params).dropLast.map TokenParam.stripped) =
          (x ++ SP :: p.first.rest) ++ lead SP [] ((q :: params).dropLast.map TokenParam.stripped) := by
        rw [List.dropLast_cons_cons, List.map_cons, lead_cons, TokenParam.stripped, hmore, List.map_nil,
          lead_nil, List.append_nil, List.append_assoc, List.cons_append]
      rw [htext]
      constructor
      · rintro (hnil | hcolon)
        · cases hnil
        · exact Or.inr hcolon
      · rintro (hnil | hcolon)
        · cases hnil
        · exact Or.inr hcolon

/-- The token of a second target is not told from the first target. -/
theorem not_strips_list (hname : TokenText name) (hroot : (s.account ausern).parent ≠ ausern) {rest : CStr}
    {item : TokenItem} {more : List TokenItem} (params : List TokenParam) (hx : x ≠ [] ∧ x.head? ≠ some TILDE)
    (hl : Behind head (x ++ SP :: (rest ++ lead COMMA [] ((item :: more).map (TokenItem.typed name)) ++
      lead SP e (params.map (TokenParam.typed name)))))
    (he : Behind head (x ++ SP :: (rest ++ lead COMMA [] ((item :: more).map TokenItem.rest) ++
      lead SP e (params.map TokenParam.stripped))))
    (hquiet : tildeSplit (openPart (x ++ SP :: (rest ++ lead COMMA [] ((item :: more).map TokenItem.rest) ++
      lead SP e (params.map TokenParam.stripped)))) = none) :
    ¬ Strips front s ausern i
      (x ++ SP :: (rest ++ lead COMMA [] ((item :: more).map (TokenItem.typed name)) ++
        lead SP e (params.map (TokenParam.typed name))))
      (x ++ SP :: (rest ++ lead COMMA [] ((item :: more).map TokenItem.rest) ++
        lead SP e (params.map TokenParam.stripped))) := by
  have htyped : rest ++ lead COMMA [] ((item :: more).map (TokenItem.typed name)) ++
      lead SP e (params.map (TokenParam.typed name)) =
        rest ++ COMMA :: ((markText item.mark ++ name) ++ TILDE ::
          (item.rest ++ (lead COMMA [] (more.map (TokenItem.typed name)) ++
            lead SP e (params.map (TokenParam.typed name))))) := by
    rw [List.map_cons, lead_cons, TokenItem.typed]
    simp only [List.append_assoc, List.cons_append]
  have hstripped : rest ++ lead COMMA [] ((item :: more).map TokenItem.rest) ++
      lead SP e (params.map TokenParam.stripped) =
        rest ++ COMMA :: (item.rest ++ (lead COMMA [] (more.map TokenItem.rest) ++
          lead SP e (params.map TokenParam.stripped))) := by
    rw [List.map_cons, lead_cons]
    simp only [List.append_assoc, List.cons_append]
  have hmoreless := @length_lead_lt COMMA [] _ _ _ (TokenItem.length_typed name) more
  have hparamless := @length_lead_lt SP e _ _ _ (TokenParam.length_typed name) params
  rw [htyped] at hl
  rw [hstripped] at he hquiet
  rw [htyped, hstripped]
  refine hl.comma hname hroot hx.1 hx.2 he hquiet ?_ ?_
  · simp only [List.length_append, List.length_cons]
    omega
  · have htilde : ∀ t : CStr, (TILDE :: t).count COMMA = t.count COMMA :=
      fun t => List.count_cons_of_ne (by decide)
    rw [@List.count_append _ _ COMMA (markText item.mark ++ name), count_token hname, htilde, Nat.zero_add]
    simp only [List.count_append, count_lead_congr COMMA (TokenItem.count_typed hname),
      count_lead_congr COMMA (TokenParam.count_typed hname)]

/-- A colon in front of the token keeps it from being found. -/
theorem not_strips_closed (p : TokenParam) (params : List TokenParam)
    (hl : Behind head (x ++ SP :: (p.typed name ++ lead SP e (params.map (TokenParam.typed name)))))
    (he : Behind head (x ++ SP :: (p.stripped ++ lead SP e (params.map TokenParam.stripped))))
    (hcolon : COLON ∈ x.tail) (hnick : ¬ ascii "NICK " <+: head ++ [SP])
    (hquiet : tildeSplit (openPart (x ++ SP :: (p.stripped ++ lead SP e (params.map TokenParam.stripped)))) =
      none) :
    ¬ Strips front s ausern i (x ++ SP :: (p.typed name ++ lead SP e (params.map (TokenParam.typed name))))
      (x ++ SP :: (p.stripped ++ lead SP e (params.map TokenParam.stripped))) := by
  have hless := p.length_typed name
  have hrest := @length_lead_lt SP e _ _ _ (TokenParam.length_typed name) params
  apply hl.closed he hcolon hnick hquiet
  simp only [List.length_append, List.length_cons]
  omega

/-- The parameters are looked through one after the other; `x` is the part of the line that has no token left. -/
theorem strips_params (hname : TokenText name) (hroot : (s.account ausern).parent ≠ ausern) (params : List TokenParam)
    (hx : head <+: x) (hl : Behind head (x ++ lead SP e (params.map (TokenParam.typed name))))
    (he : Behind head (x ++ lead SP e (params.map TokenParam.stripped))) :
    Strips front s ausern i (x ++ lead SP e (params.map (TokenParam.typed name)))
        (x ++ lead SP e (params.map TokenParam.stripped)) ↔
      (∀ p ∈ params, p.more = [] ∧ s.Known ausern (untagged (markText p.first.mark ++ name))) ∧
        (params = [] ∨ ascii "NICK " <+: head ++ [SP] ∨
          COLON ∉ (x ++ lead SP [] (params.dropLast.map TokenParam.stripped)).tail) ∧
        tildeSplit (openPart (x ++ lead SP e (params.map TokenParam.stripped))) = none := by
  induction params generalizing i x with
  | nil =>
      constructor
      · exact fun hs => ⟨fun p hp => absurd hp List.not_mem_nil, Or.inl rfl, he.quiet hroot hs⟩
      · rintro ⟨_, _, hquiet⟩
        exact (hl.stays hquiet).2 rfl
  | cons p params ih =>
      have hne : x ≠ [] := by
        rintro rfl
        exact hl.word.1 (List.prefix_nil.1 hx)
      have hhead : x.head? ≠ some TILDE := by
        rcases hx with ⟨z, rfl⟩
        rw [List.head?_append_of_ne_nil _ hl.word.1]
        exact fun heq => hl.word.2.1 (List.mem_of_mem_head? heq)
      by_cases hquiet : tildeSplit (openPart (x ++ lead SP e ((p :: params).map TokenParam.stripped))) = none
      swap
      · -- The line that should be left still shows a token.
        exact ⟨fun hs => absurd (he.quiet hroot hs) hquiet, fun h => absurd h.2.2 hquiet⟩
      simp only [List.map_cons, lead_cons] at hl he hquiet ⊢
      by_cases hopen : ascii "NICK " <+: head ++ [SP] ∨ COLON ∉ x.tail
      swap
      · rw [not_or, not_not] at hopen
        constructor
        · intro hs
          exact absurd hs (not_strips_closed p params hl he hopen.2 hopen.1 hquiet)
        · rintro ⟨_, hcolon, _⟩
          rcases hcolon with hnil | hnick | hno
          · exact absurd hnil (List.cons_ne_nil p params)
          · exact absurd hnick hopen.1
          · rw [List.tail_append_of_ne_nil hne, List.mem_append, not_or] at hno
            exact absurd hopen.2 hno.1
      -- The round takes the token of the first parameter out, and the rest is the line of the next round.
      have hstart := he.quiet_start hne hopen hquiet
      rw [p.typed_eq, List.append_assoc, List.cons_append] at hl ⊢
      rw [strips_first hname hroot ⟨hne, hhead⟩ hstart hopen hl he.ne_nil]
      have hlen := hl.short
      have hl' : Behind head (x ++ SP :: (p.first.rest ++ lead COMMA [] (p.more.map (TokenItem.typed name)) ++
          lead SP e (params.map (TokenParam.typed name)))) := by
        apply hl.other hx
        simp only [List.length_append, List.length_cons] at hlen ⊢
        omega
      rw [TokenParam.stripped] at he hquiet ⊢
      cases hmore : p.more with
      | nil =>
          -- A parameter of one item: the induction goes on behind it.
          simp only [hmore, List.map_nil, lead_nil, List.append_nil] at hl' he hquiet ⊢
          have hassoc : ∀ t : CStr, x ++ SP :: (p.first.rest ++ t) = (x ++ SP :: p.first.rest) ++ t := by
            intro t
            rw [List.append_assoc, List.cons_append]
          rw [hassoc] at hl' he hquiet
          rw [hassoc, hassoc, ih (hx.trans (List.prefix_append _ _)) hl' he, colon_cons_iff hmore params hopen]
          constructor
          · rintro ⟨hknown, hall, hrest⟩
            refine ⟨?_, hrest⟩
            rintro q (_ | ⟨_, hq⟩)
            · exact ⟨hmore, hknown⟩
            · exact hall q hq
          · rintro ⟨hall, hrest⟩
            exact ⟨(hall p List.mem_cons_self).2, fun q hq => hall q (List.mem_cons_of_mem p hq), hrest⟩
      | cons item more =>
          rw [hmore] at hl' he hquiet
          constructor
          · rintro ⟨_, hs⟩
            exact absurd hs (not_strips_list hname hroot params ⟨hne, hhead⟩ hl' he hquiet)
          · rintro ⟨hsingle, _⟩
            -- In a list of items only the first token is seen.
            have hnil := (hsingle p List.mem_cons_self).1
            rw [hmore] at hnil
            cases hnil

end Params

/-! ## Names that end like a mask -/

/-- The line starts with a `~` that is passed over, and the word behind it is known. -/
structure Masked (u c line : CStr) : Prop where
  passed : TILDE ∉ u ∧ (u.getLast? = some WILDS ∨ u.getLast? = some EXCL)
  word : TILDE ∉ c
  stop : ∃ b, (b = SP ∨ b = COLON) ∧ (u ++ TILDE :: c) ++ [b] <+: line

section Mask

variable {front : Nat → Byte} {s : Users} {ausern uid : Int} {i : Nat} {b : Byte} {u c e r t w line before pt2 : CStr}

theorem Masked.head? (h : Masked u c line) : line.head? ≠ some TILDE := by
  rcases h.stop with ⟨b, _, t, rfl⟩
  have hne : u ≠ [] := by
    rintro rfl
    rcases h.passed.2 with hlast | hlast
    · cases hlast
    · cases hlast
  rw [List.append_assoc, List.append_assoc, List.head?_append_of_ne_nil _ hne]
  exact fun heq => h.passed.1 (List.mem_of_mem_head? heq)

theorem Masked.quiet (h : Masked u c line) (hb : b = SP ∨ b = COLON) :
    tildeSplit ((u ++ TILDE :: c) ++ [b]) = none := by
  have hno : TILDE ∉ c ++ [b] := by
    rw [List.mem_append, not_or]
    refine ⟨h.word, ?_⟩
    rcases hb with rfl | rfl
    · decide
    · decide
  rw [List.append_assoc, List.cons_append, tildeSplit, cutAt_append h.passed.1]
  simp only
  rw [if_pos h.passed.2, cutAt_eq_none.2 hno, Option.map_none]

/-- The next `~` stands behind the word. -/
theorem Masked.split (h : Masked u c line) {front : Byte} (hsplit : tildeSplitFrom front line = some (before, pt2)) :
    ∃ b y, (b = SP ∨ b = COLON) ∧ before = (u ++ TILDE :: c) ++ b :: y := by
  rw [tildeSplitFrom_eq h.head?] at hsplit
  rcases h.stop with ⟨b, hb, t, rfl⟩
  rcases tildeSplit_behind (h.quiet hb) hsplit with ⟨x, rfl, _⟩
  exact ⟨b, x, hb, by rw [List.append_assoc, List.singleton_append]⟩

/-- A token that is cut out stands behind the word. -/
theorem Masked.cut (h : Masked u c line) {front : Byte} (hsplit : tildeSplitFrom front line = some (before, pt2))
    (hstart : (tokenStart before).1 ≠ []) : Masked u c ((tokenStart before).1 ++ SP :: pt2) := by
  rcases h.split hsplit with ⟨b, y, hb, hbefore⟩
  refine ⟨h.passed, h.word, ?_⟩
  have hfront := tokenStart_front hb (u ++ TILDE :: c) y
  rw [← hbefore] at hfront
  rcases hfront with ⟨z, hz⟩
  cases z with
  | nil =>
      rw [List.append_nil] at hz
      rw [← hz]
      exact ⟨SP, Or.inl rfl, pt2, by rw [List.append_assoc, List.singleton_append]⟩
  | cons b' z =>
      rcases (tokenStart_cases before).resolve_left hstart with ⟨d, _, htext⟩
      rw [← hz, List.append_assoc, hbefore] at htext
      have hbyte : b = b' := (List.cons.inj (List.append_cancel_left htext)).1
      rw [← hz, ← hbyte]
      exact ⟨b, hb, z ++ SP :: pt2, by simp only [List.append_assoc, List.cons_append, List.nil_append]⟩

/-- Such a `~` stays in the line. -/
theorem Strips.masked (h : Masked u c line) (hlen : line.length < 8192) (hs : Strips front s ausern i line e) :
    e = [] ∨ Masked u c e := by
  rcases hs with ⟨k, msgs, hk⟩
  induction k generalizing i line msgs with
  | zero => cases hk
  | succ k ih =>
      rw [Users.tokenLoop] at hk
      have hout := checknetworkFrom_outcome (front i) s ausern line
      generalize s.checknetworkFrom (front i) ausern line = r at hout hk
      have hnext : r.ircbuf = [] ∨ Masked u c r.ircbuf ∧ r.ircbuf.length < 8192 := by
        cases hout with
        | kept => exact Or.inr ⟨h, hlen⟩
        | unknown pt1 => exact Or.inl rfl
        | cut uid before pt2 hsplit hstart _ =>
            right
            have hless := length_cut_lt hsplit hstart
            have hshort : ((tokenStart before).1 ++ SP :: pt2).length < 8192 := by
              rcases (tokenStart_cases before).resolve_left hstart with ⟨d, _, hbefore⟩
              rw [clip_eq_self hlen] at hsplit
              have htext := congrArg List.length (tildeSplitFrom_text hsplit)
              have hparts := congrArg List.length hbefore
              simp only [List.length_append, List.length_cons] at htext hparts ⊢
              omega
            rw [clip_eq_self hlen] at hsplit
            rw [clip_eq_self hshort]
            exact ⟨h.cut hsplit hstart, hshort⟩
      split at hk
      · cases hk
        exact hnext.imp_right And.left
      · next huid =>
        rcases Option.map_eq_some_iff.1 hk with ⟨q, hq, heq⟩
        cases heq
        rcases hnext with hnil | ⟨hmasked, hshort⟩
        · left
          rw [hnil] at hq
          have hstay : Strips front s ausern (i + 1) [] q.1 := ⟨k, q.2, hq⟩
          exact (strips_kept rfl).1 hstay
        · exact ih hmasked hshort _ hq

/-- The word behind such a token is no longer the same when the token is gone. -/
theorem not_masked {x : CStr} (hw : SP ∉ w ∧ COLON ∉ w ∧ COMMA ∉ w)
    (hx : x = [] ∨ ∃ d t, (d = COMMA ∨ d = SP) ∧ x = d :: t)
    (hc : TILDE ∉ c) (hb : b = SP ∨ b = COLON) (hpre : c ++ [b] <+: r ++ t) : ¬ w ++ [TILDE] <+: r ++ x := by
  intro h
  have hstop : ∀ d, d = SP ∨ d = COLON ∨ d = COMMA → d ∉ w ++ [TILDE] := by
    rintro d hd hmem
    rcases List.mem_append.1 hmem with hmem | hmem
    · rcases hd with rfl | rfl | rfl
      · exact hw.1 hmem
      · exact hw.2.1 hmem
      · exact hw.2.2 hmem
    · rw [List.mem_singleton] at hmem
      subst hmem
      revert hd
      decide
  rcases Nat.lt_or_ge r.length (w ++ [TILDE]).length with hlt | hge
  · -- The token ends behind the target.
    rcases hx with rfl | ⟨d, t, hd, rfl⟩
    · have hle := h.length_le
      rw [List.append_nil] at hle
      exact absurd hlt (Nat.not_lt.2 hle)
    · have hshort : r ++ [d] <+: w ++ [TILDE] := by
        apply List.prefix_of_prefix_length_le _ h
        · rw [List.length_append, List.length_singleton]
          exact hlt
        · exact (List.prefix_append_right_inj r).2 ⟨t, rfl⟩
      refine hstop d ?_ (hshort.subset (List.mem_append_right _ List.mem_cons_self))
      rcases hd with rfl | rfl
      · exact Or.inr (Or.inr rfl)
      · exact Or.inl rfl
  · -- The target starts with the token once more.
    have hinner : w ++ [TILDE] <+: r ++ t :=
      (List.prefix_of_prefix_length_le h (List.prefix_append _ _) hge).trans (List.prefix_append _ _)
    rcases Nat.le_total (c ++ [b]).length (w ++ [TILDE]).length with hle | hle
    · have hshort := List.prefix_of_prefix_length_le hpre hinner hle
      refine hstop b ?_ (hshort.subset (List.mem_append_right _ List.mem_cons_self))
      exact hb.imp_right Or.inl
    · have hlong := List.prefix_of_prefix_length_le hinner hpre hle
      have hmem : TILDE ∈ c ++ [b] := hlong.subset (List.mem_append_right _ List.mem_cons_self)
      rcases List.mem_append.1 hmem with hmem | hmem
      · exact hc hmem
      · rw [List.mem_singleton] at hmem
        subst hmem
        revert hb
        decide

end Mask

/-! ## The network of a line -/

/-- `uid` is the network `name` of the user. -/
structure Users.OwnNetwork (s : Users) (usern : Int) (name : CStr) (uid : Int) : Prop where
  mem : uid ∈ s.usernode
  parent : (s.account uid).parent = usern
  network : (s.account uid).network = name

/-- Every parameter has one target behind a token that is known, no colon stands in front of the last one, nothing
looks like a token when the tokens are gone, and the first token names the network itself. -/
structure TokenCommand.Strippable (l : TokenCommand) (s : Users) (usern uid : Int) : Prop where
  params : ∀ p ∈ l.param :: l.params, p.more = [] ∧ s.Known usern (untagged (markText p.first.mark ++ l.name))
  colon : ascii "NICK " <+: l.head ++ [SP] ∨
    COLON ∉ (l.head ++ lead SP [] ((l.param :: l.params).dropLast.map TokenParam.stripped)).tail
  quiet : tildeSplit (openPart l.stripped) = none
  blank : SP ∉ l.name ∧ COLON ∉ l.name
  last : l.name.getLast? ≠ some WILDS ∧ l.name.getLast? ≠ some EXCL
  own : untagged (markText l.param.first.mark ++ l.name) = l.name
  free : strmncasecmp l.name (ascii "int") = false
  first : ∀ v ∈ s.usernode.takeWhile (fun v => v ≠ uid), (s.account v).parent = usern → (s.account v).network ≠ l.name

section Found

variable {α : Type} [DecidableEq α] {a : α} {front : Byte} {s : Users} {usern uid : Int} {name before line p : CStr}

theorem find?_eq_some_iff_first {p : α → Bool} {as : List α} (hp : p a = true) (hmem : a ∈ as) :
    as.find? p = some a ↔ ∀ b ∈ as.takeWhile (fun b => b ≠ a), p b = false := by
  induction as with
  | nil => cases hmem
  | cons b as ih =>
      by_cases hb : b = a
      · subst hb
        simp [hp]
      · have hmem' : a ∈ as := (List.mem_cons.1 hmem).resolve_left (Ne.symm hb)
        have htake : (b :: as).takeWhile (fun b => decide (b ≠ a)) = b :: as.takeWhile fun b => decide (b ≠ a) := by
          rw [List.takeWhile_cons, if_pos (decide_eq_true hb)]
        rw [htake, List.forall_mem_cons]
        cases hpb : p b with
        | true =>
            rw [List.find?_cons_of_pos hpb, Option.some.injEq]
            exact ⟨fun h => absurd h hb, fun h => Bool.noConfusion h.1⟩
        | false =>
            rw [List.find?_cons_of_neg (by rw [hpb]; exact Bool.false_ne_true), ih hmem']
            exact ⟨fun h => ⟨rfl, h⟩, fun h => h.2⟩

/-- Which token stands for the network. -/
theorem network_uid (h : s.OwnNetwork usern name uid) (huid : uid ≠ usern) (hint : uid ≠ usern + 10000) :
    (s.network usern p line).uid = uid ↔ p = name ∧ strmncasecmp name (ascii "int") = false ∧
      ∀ v ∈ s.usernode.takeWhile (fun v => v ≠ uid), (s.account v).parent = usern → (s.account v).network ≠ name := by
  have hown : ∀ v, decide ((s.account v).parent = usern ∧ strmcmp (s.account v).network name = true) = false ↔
      ((s.account v).parent = usern → (s.account v).network ≠ name) := by
    intro v
    rw [decide_eq_false_iff_not, not_and, strmcmp_iff]
  have hself : decide ((s.account uid).parent = usern ∧ strmcmp (s.account uid).network name = true) = true :=
    decide_eq_true ⟨h.parent, strmcmp_iff.2 h.network⟩
  have hfirst := @find?_eq_some_iff_first Int _ uid
    (fun v => decide ((s.account v).parent = usern ∧ strmcmp (s.account v).network name = true)) _ hself h.mem
  simp only [hown] at hfirst
  rw [← hfirst]
  by_cases hp : strmncasecmp p (ascii "int") = true
  · rw [Users.network, if_pos hp]
    refine ⟨fun heq => absurd heq.symm hint, ?_⟩
    rintro ⟨rfl, hfree, _⟩
    rw [hp] at hfree
    cases hfree
  rw [Users.network, if_neg hp]
  cases hfind : s.usernode.find? fun v => (s.account v).parent = usern ∧ strmcmp (s.account v).network p = true with
  | none =>
      refine ⟨fun heq => absurd heq.symm huid, ?_⟩
      rintro ⟨rfl, _, hsome⟩
      rw [hfind] at hsome
      cases hsome
  | some v =>
      constructor
      · intro heq
        change v = uid at heq
        subst heq
        have hfound := List.find?_some hfind
        rw [decide_eq_true_eq, strmcmp_iff] at hfound
        have hname := hfound.2.symm.trans h.network
        subst hname
        exact ⟨rfl, Bool.eq_false_iff.2 hp, hfind⟩
      · rintro ⟨rfl, _, hsome⟩
        exact Option.some.inj (hfind.symm.trans hsome)

/-- The token has neither a blank nor a colon. -/
theorem tokenStart_word (before : CStr) : SP ∉ (tokenStart before).2 ∧ COLON ∉ (tokenStart before).2 := by
  rw [tokenStart]
  simp only [List.mem_reverse]
  constructor
  · intro hmem
    have hbyte := List.mem_takeWhile_imp hmem
    rw [decide_eq_true_eq] at hbyte
    exact hbyte.1 rfl
  · intro hmem
    have hbyte := List.mem_takeWhile_imp hmem
    rw [decide_eq_true_eq] at hbyte
    exact hbyte.2 rfl

theorem mem_of_untagged {b : Byte} (h : b ∈ untagged p) : b ∈ p := by
  rw [untagged] at h
  split at h
  · exact List.mem_of_mem_tail h
  · exact h

theorem mem_untagged {b : Byte} (hb : b ≠ HASH) (h : b ∈ p) : b ∈ untagged p := by
  rw [untagged]
  split
  · next hhash =>
    cases p with
    | nil => cases hhash
    | cons c p =>
        rw [List.head?_cons, Option.some.injEq] at hhash
        exact (List.mem_cons.1 h).resolve_left fun heq => hb (heq.trans hhash)
  · exact h

/-- A call that finds a network has looked at a token. -/
theorem checknetworkFrom_uid (hlen : line.length < 8192) (hhead : line.head? ≠ some TILDE) (huid : uid ≠ usern)
    (h : (s.checknetworkFrom front usern line).uid = uid) : ∃ before pt2, tildeSplit line = some (before, pt2) ∧
      (tokenStart before).1 ≠ [] ∧ s.checknetworkFrom front usern line =
        s.network usern (untagged (tokenStart before).2) (clip 8192 ((tokenStart before).1 ++ SP :: pt2)) := by
  rw [Users.checknetworkFrom, clip_eq_self hlen, tildeSplitFrom_eq hhead] at h ⊢
  cases hsplit : tildeSplit line with
  | none =>
      rw [hsplit] at h
      exact absurd h.symm huid
  | some q =>
      rcases q with ⟨before, pt2⟩
      rw [hsplit] at h
      simp only at h ⊢
      by_cases hcontent : COLON ∈ before.tail ∧ ¬ ascii "NICK " <+: line
      · rw [if_pos hcontent] at h
        exact absurd h.symm huid
      rw [if_neg hcontent] at h ⊢
      by_cases hstart : (tokenStart before).1 = []
      · rw [if_pos hstart] at h
        exact absurd h.symm huid
      rw [if_neg hstart]
      exact ⟨before, pt2, rfl, hstart, rfl⟩

end Found

namespace TokenCommand

variable {l : TokenCommand} {front : Nat → Byte} {s : Users} {usern uid : Int}

theorem typed_first (l : TokenCommand) : ∃ t, l.typed = l.head ++ SP :: ((markText l.param.first.mark ++ l.name) ++
    TILDE :: (l.param.first.rest ++ t)) := by
  refine ⟨lead COMMA [] (l.param.more.map (TokenItem.typed l.name)) ++
    lead SP (trailingText l.text) (l.params.map (TokenParam.typed l.name)), ?_⟩
  rw [typed, List.map_cons, lead_cons, TokenParam.typed_eq]
  simp only [List.append_assoc, List.cons_append]

theorem stripped_first (l : TokenCommand) : ∃ x, (x = [] ∨ ∃ d t, (d = COMMA ∨ d = SP) ∧ x = d :: t) ∧
    l.stripped = l.head ++ SP :: (l.param.first.rest ++ x) := by
  refine ⟨lead COMMA [] (l.param.more.map TokenItem.rest) ++ lead SP (trailingText l.text)
    (l.params.map TokenParam.stripped), ?_, ?_⟩
  · cases l.param.more with
    | cons item more => exact Or.inr ⟨COMMA, _, Or.inl rfl, rfl⟩
    | nil =>
        cases l.params with
        | cons p params => exact Or.inr ⟨SP, _, Or.inr rfl, rfl⟩
        | nil =>
            cases l.text with
            | none => exact Or.inl rfl
            | some text => exact Or.inr ⟨SP, _, Or.inr rfl, rfl⟩
  · rw [stripped, List.map_cons, lead_cons, TokenParam.stripped, List.append_assoc]

theorem behind_typed (l : TokenCommand) : Behind l.head l.typed where
  word := l.head_word
  blank := by
    rcases l.typed_first with ⟨t, ht⟩
    rw [ht]
    exact (List.prefix_append_right_inj l.head).2 ⟨_, rfl⟩
  short := l.short

theorem behind_stripped (l : TokenCommand) : Behind l.head l.stripped where
  word := l.head_word
  blank := by
    rcases l.stripped_first with ⟨x, _, hx⟩
    rw [hx]
    exact (List.prefix_append_right_inj l.head).2 ⟨_, rfl⟩
  short := by
    have hless := @length_lead_lt SP (trailingText l.text) _ _ _ (TokenParam.length_typed l.name) (l.param :: l.params)
    have hlen := l.short
    rw [stripped, List.length_append]
    rw [List.length_append] at hlen
    omega

theorem head_quiet (l : TokenCommand) : tildeSplit l.head = none := by
  rw [tildeSplit, cutAt_eq_none.2 l.head_word.2.1]

theorem head_front (l : TokenCommand) : l.head ≠ [] ∧ l.head.head? ≠ some TILDE :=
  ⟨l.head_word.1, fun heq => l.head_word.2.1 (List.mem_of_mem_head? heq)⟩

/-- The first call. -/
theorem uid_iff {front : Byte} (hname : TokenText l.name) (h : s.OwnNetwork usern l.name uid) (huid : uid ≠ usern)
    (hint : uid ≠ usern + 10000) : (s.checknetworkFrom front usern l.typed).uid = uid ↔
      untagged (markText l.param.first.mark ++ l.name) = l.name ∧ strmncasecmp l.name (ascii "int") = false ∧
        ∀ v ∈ s.usernode.takeWhile (fun v => v ≠ uid),
          (s.account v).parent = usern → (s.account v).network ≠ l.name := by
  rcases tokenText_mark hname l.param.first.mark with ⟨hw, hlast⟩
  have hshort := l.behind_typed.short
  rcases l.typed_first with ⟨t, ht⟩
  rw [ht] at hshort ⊢
  rw [checknetworkFrom_token l.head_front l.head_quiet hw hlast (Or.inr l.head_word.2.2) hshort,
    network_uid h huid hint]

/-- When the network is found the token is the name. -/
theorem token_of_uid {front : Byte} (h : s.OwnNetwork usern l.name uid) (huid : uid ≠ usern)
    (hint : uid ≠ usern + 10000) (hcall : (s.checknetworkFrom front usern l.typed).uid = uid) :
    (SP ∉ l.name ∧ COLON ∉ l.name) ∧
      ∃ before pt2, tildeSplit l.typed = some (before, pt2) ∧ untagged (tokenStart before).2 = l.name := by
  rcases checknetworkFrom_uid l.behind_typed.short l.behind_typed.head? huid hcall with ⟨before, pt2, hsplit, _, heq⟩
  rw [heq] at hcall
  have htoken := ((network_uid h huid hint).1 hcall).1
  refine ⟨?_, before, pt2, hsplit, htoken⟩
  rw [← htoken]
  exact ⟨fun hmem => (tokenStart_word before).1 (mem_of_untagged hmem),
    fun hmem => (tokenStart_word before).2 (mem_of_untagged hmem)⟩

/-- A name that ends like a mask leaves its first token in the line. -/
theorem last_of_strips (h : s.OwnNetwork usern l.name uid) (huid : uid ≠ usern) (hint : uid ≠ usern + 10000)
    (hcall : (s.checknetworkFrom (front 0) usern l.typed).uid = uid) (hs : Strips front s usern 0 l.typed l.stripped) :
    l.name.getLast? ≠ some WILDS ∧ l.name.getLast? ≠ some EXCL := by
  rw [← not_or]
  intro hmask
  rcases token_of_uid h huid hint hcall with ⟨hword, before, pt2, hsplit, htoken⟩
  have hu : TILDE ∉ l.head ++ SP :: (markText l.param.first.mark ++ l.name) := by
    rw [List.mem_append, List.mem_cons, not_or, not_or]
    exact ⟨l.head_word.2.1, by decide, notMem_mark (by decide) l.name_text.2 _⟩
  have hlast : (l.head ++ SP :: (markText l.param.first.mark ++ l.name)).getLast? = some WILDS ∨
      (l.head ++ SP :: (markText l.param.first.mark ++ l.name)).getLast? = some EXCL := by
    rw [← List.singleton_append, ← List.append_assoc, ← List.append_assoc, List.getLast?_append]
    rcases hmask with hstar | hexcl
    · rw [hstar]
      exact Or.inl rfl
    · rw [hexcl]
      exact Or.inr rfl
  rcases l.typed_first with ⟨t, ht⟩
  have htyped : l.typed = (l.head ++ SP :: (markText l.param.first.mark ++ l.name)) ++
      TILDE :: (l.param.first.rest ++ t) := by
    rw [ht]
    simp only [List.append_assoc, List.cons_append]
  -- The first `~` is passed over; the token of the call reaches back to a blank or a colon behind it.
  rw [htyped, tildeSplit, cutAt_append hu] at hsplit
  simp only at hsplit
  rw [if_pos hlast, Option.map_eq_some_iff] at hsplit
  rcases hsplit with ⟨⟨c, d⟩, hcut, heq⟩
  cases heq
  rcases cutAt_eq_some.1 hcut with ⟨hrest, hc⟩
  have hsep : ∃ c' b y, (b = SP ∨ b = COLON) ∧ c = c' ++ b :: y := by
    by_cases hblank : SP ∈ c
    · rcases List.append_of_mem hblank with ⟨c', y, rfl⟩
      exact ⟨c', SP, y, Or.inl rfl, rfl⟩
    by_cases hcolon : COLON ∈ c
    · rcases List.append_of_mem hcolon with ⟨c', y, rfl⟩
      exact ⟨c', COLON, y, Or.inr rfl, rfl⟩
    exfalso
    -- Without a separator the token would have a `~`, which no name of a network has.
    have hmem : TILDE ∈ untagged (tokenStart
        ((l.head ++ SP :: (markText l.param.first.mark ++ l.name)) ++ TILDE :: c)).2 :=
      mem_untagged (by decide) (mem_tokenStart (by decide) ⟨hblank, hcolon⟩)
    rw [htoken] at hmem
    exact l.name_text.2 hmem
  rcases hsep with ⟨c', b, y, hb, rfl⟩
  have hc' : TILDE ∉ c' := fun hmem => hc (List.mem_append_left _ hmem)
  have hpre : c' ++ [b] <+: l.param.first.rest ++ t := by
    rw [hrest]
    exact ⟨y ++ TILDE :: d, by simp only [List.append_assoc, List.cons_append, List.nil_append]⟩
  have hmasked : Masked (l.head ++ SP :: (markText l.param.first.mark ++ l.name)) c' l.typed := by
    refine ⟨⟨hu, hlast⟩, hc', b, hb, ?_⟩
    rw [htyped, List.append_assoc, List.prefix_append_right_inj]
    exact (List.prefix_append_right_inj [TILDE]).2 hpre
  -- The same two `~` are in the line that should be left, where the second is none of a token.
  rcases hs.masked hmasked l.behind_typed.short with hnil | hstay
  · exact l.behind_stripped.ne_nil hnil
  · rcases l.stripped_first with ⟨x, hx, hstripped⟩
    rcases hstay.stop with ⟨b', _, t', ht'⟩
    refine not_masked ⟨?_, ?_, ?_⟩ hx hc' hb hpre (w := markText l.param.first.mark ++ l.name) ?_
    · exact notMem_mark (by decide) hword.1 _
    · exact notMem_mark (by decide) hword.2 _
    · exact notMem_mark (by decide) l.name_text.1 _
    · rw [hstripped] at ht'
      refine ⟨c' ++ [b'] ++ t', ?_⟩
      apply (List.append_right_inj (l.head ++ [SP])).1
      simpa only [List.append_assoc, List.cons_append, List.nil_append] using ht'

/-- The loop takes the tokens out of such a line. -/
theorem strips_iff (h : s.OwnNetwork usern l.name uid) (hroot : (s.account usern).parent ≠ usern)
    (hint : uid ≠ usern + 10000) : (s.checknetworkFrom (front 0) usern l.typed).uid = uid ∧
      Strips front s usern 1 (s.checknetworkFrom (front 0) usern l.typed).ircbuf l.stripped ↔
        l.Strippable s usern uid := by
  have huid : uid ≠ usern := fun heq => hroot (heq ▸ h.parent)
  have hparams : ∀ hname : TokenText l.name, Strips front s usern 0 l.typed l.stripped ↔ _ := fun hname =>
    strips_params hname hroot (l.param :: l.params) (List.prefix_refl l.head) l.behind_typed l.behind_stripped
  constructor
  · rintro ⟨hcall, hs⟩
    have hs' := (strips_succ (hcall.symm ▸ huid)).2 hs
    have hlast := last_of_strips h huid hint hcall hs'
    have hblank := (token_of_uid h huid hint hcall).1
    have hname : TokenText l.name := ⟨hblank.1, hblank.2, l.name_text.1, l.name_text.2, hlast⟩
    rcases (uid_iff hname h huid hint).1 hcall with ⟨hown, hfree, hfirst⟩
    rcases (hparams hname).1 hs' with ⟨hall, hcolon, hquiet⟩
    exact ⟨hall, hcolon.resolve_left (List.cons_ne_nil _ _), hquiet, hblank, hlast, hown, hfree, hfirst⟩
  · intro hstrip
    have hname : TokenText l.name :=
      ⟨hstrip.blank.1, hstrip.blank.2, l.name_text.1, l.name_text.2, hstrip.last⟩
    have hcall := (@uid_iff l s usern uid (front 0) hname h huid hint).2 ⟨hstrip.own, hstrip.free, hstrip.first⟩
    have hs := (hparams hname).2 ⟨hstrip.params, Or.inr hstrip.colon, hstrip.quiet⟩
    exact ⟨hcall, (strips_succ (hcall.symm ▸ huid)).1 hs⟩

end TokenCommand

/-! ## Lines of a user -/

namespace Users

/-- The accounts as `userinbound` relies on them: the numbers of the users are far from those of the internal
network, and who types is not his own parent. -/
structure Typist (s : Users) (iusern : Int) : Prop where
  uids : ∀ uid ∈ s.usernode, uid ≤ 100
  pos : 0 < s.ausern iusern
  root : (s.account (s.ausern iusern)).parent ≠ s.ausern iusern

/-- Every user of a sound forest is one who can type. -/
theorem Live.typist {s : Users} {iusern : Int} (hs : s.Sound) (hkept : s.ParentsKept) (hlive : s.Live iusern) :
    s.Typist iusern := by
  have hroot : s.Live (s.ausern iusern) ∧ (s.account (s.ausern iusern)).parent = 0 := by
    rw [ausern]
    by_cases hparent : (s.account iusern).parent = 0
    · rw [if_neg (not_not.2 hparent)]
      exact ⟨hlive, hparent⟩
    · rw [if_pos hparent]
      have hkin := (hkept iusern hlive).resolve_left hparent
      exact ⟨hkin.1, hkin.2.1⟩
  refine ⟨fun uid hmem => (hs.uids uid hmem).2, (hroot.1.isUser hs).pos, ?_⟩
  rw [hroot.2]
  exact hroot.1.2.1.symm

end Users

/-- `userinbound` goes on with a line from every line, and from one with tokens it goes on with the line without them
for the network exactly if the tokens can be told apart. -/
theorem userinbound_strips_iff (front : Nat → Byte) (s : Users) (iusern : Int) (htypist : s.Typist iusern) :
    (∀ line, ∃ r, s.userinbound front iusern line = some r) ∧
      ∀ (l : TokenCommand) (uid : Int), s.OwnNetwork (s.ausern iusern) l.name uid →
        ((∃ msgs, s.userinbound front iusern l.typed = some ⟨uid, l.stripped, msgs⟩) ↔
          l.Strippable s (s.ausern iusern) uid) := by
  refine ⟨userinbound_returns front s iusern, ?_⟩
  intro l uid hown
  have hint : uid ≠ s.ausern iusern + 10000 := by
    have hle := htypist.uids uid hown.mem
    have hpos := htypist.pos
    omega
  rw [userinbound_iff]
  exact TokenCommand.strips_iff hown htypist.root hint

/-- The owner and his network `net`. -/
def ownerNet : Users where
  usernode := [0, 1, 2]
  user :=
    update (update (fun _ => blankAccount) (.node 1) { blankAccount with toUserRecord := ownerRecord }) (.node 2)
      { blankAccount with toUserRecord := { ownerRecord with parent := 1, network := ascii "net" } }
  conf := [ascii "PSYBNC.SYSTEM.PORT1=31337", ascii "USER1.USER.LOGIN=owner"]

theorem ownerNet_typist : ownerNet.Typist 1 := ⟨by decide, by decide, by decide⟩

theorem ownerNet_own : ownerNet.OwnNetwork (ownerNet.ausern 1) (ascii "net") 2 := ⟨by decide, by decide, by decide⟩

theorem kickNet_word : ascii "KICK" ≠ [] ∧ TILDE ∉ ascii "KICK" ∧ COLON ∉ (ascii "KICK").tail := by decide

theorem kickNet_text : COMMA ∉ ascii "net" ∧ TILDE ∉ ascii "net" := by decide

theorem kickNet_short : (ascii "KICK" ++ lead SP (trailingText (some (ascii "so long")))
    ([⟨⟨true, ascii "#a"⟩, []⟩, ⟨⟨false, ascii "bob"⟩, []⟩].map (TokenParam.typed (ascii "net")))).length < 8192 := by
  decide

/-- The line `KICK #net~#a net~bob :so long`. -/
def kickNet : TokenCommand where
  head := ascii "KICK"
  name := ascii "net"
  param := ⟨⟨true, ascii "#a"⟩, []⟩
  params := [⟨⟨false, ascii "bob"⟩, []⟩]
  text := some (ascii "so long")
  head_word := kickNet_word
  name_text := kickNet_text
  short := kickNet_short

theorem userinbound_strips_kick :
    kickNet.typed = ascii "KICK #net~#a net~bob :so long" ∧
      ∃ msgs, ownerNet.userinbound (fun _ => 0) 1 kickNet.typed = some ⟨2, ascii "KICK #a bob :so long", msgs⟩ := by
  refine ⟨by decide, ?_⟩
  apply ((userinbound_strips_iff (fun _ => 0) ownerNet 1 ownerNet_typist).2 kickNet 2 ownerNet_own).2
  exact
    { params := by
        intro p hp
        rcases List.mem_cons.1 hp with rfl | hp
        · exact ⟨rfl, Or.inr ⟨2, by decide, by decide, by decide⟩⟩
        · rw [List.mem_singleton.1 hp]
          exact ⟨rfl, Or.inr ⟨2, by decide, by decide, by decide⟩⟩
      colon := Or.inr (by decide)
      quiet := by decide
      blank := by decide
      last := by decide
      own := by decide
      free := by decide
      first := by decide }

/-- A list of targets is lost: the second token reaches back over the comma and is unknown. -/
example : ownerNet.userinbound (fun _ => 0) 1 (ascii "JOIN #net~#a,#net~#b") = some ⟨2, [], [ascii "a,#net"]⟩ := by
  decide

end PsyBnc
