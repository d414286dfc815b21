import PsyBnc.Log.Traffic

/-!
# What a range query answers

The first line of the log is already behind the end of every range that can be typed with years of two digits, so the
loop is left there.
-/

namespace PsyBnc

open CLib

/-! ## Queries -/

/-- `mm-dd-yy hh:mm:ss`, each with two digits. -/
structure QueryTime where
  mon : Nat
  mday : Nat
  year : Nat
  hour : Nat
  min : Nat
  sec : Nat
  two : mon < 100 ∧ mday < 100 ∧ year < 100 ∧ hour < 100 ∧ min < 100 ∧ sec < 100

/-- The text of a time, in front of something else. -/
def QueryTime.text (x : QueryTime) (rest : CStr) : CStr :=
  decPad 2 x.mon ++ DASH :: (decPad 2 x.mday ++ DASH :: (decPad 2 x.year ++ SP :: (decPad 2 x.hour ++ COLON ::
    (decPad 2 x.min ++ COLON :: (decPad 2 x.sec ++ SP :: rest)))))

/-- The time itself; years below 80 are of this century. -/
def QueryTime.stamp (x : QueryTime) : Stamp :=
  ⟨if x.year < 80 then 2000 + x.year else 1900 + x.year, x.mon, x.mday, x.hour, x.min, x.sec⟩

/-- The part of a query that gives the range and the filter. -/
def rangeText (source : CStr) (from_ to_ : QueryTime) (filter : CStr) : CStr :=
  source ++ SP :: from_.text (to_.text (COLON :: filter))

/-- `PLAYTRAFFICLOG source fromdate fromtime todate totime :filter`. -/
structure RangeQuery where
  source : CStr
  from_ : QueryTime
  to_ : QueryTime
  filter : CStr
  source_name : source ≠ [] ∧ source.head? ≠ some QUOTE ∧ ∀ c ∈ source, isSpace c = false ∧ c ≠ COLON
  filter_text : (∃ c ∈ filter, isSpace c = false) ∧ CR ∉ filter ∧ LF ∉ filter
  fits : source.length + filter.length < 8100

def RangeQuery.line (q : RangeQuery) : CStr :=
  ascii "PLAYTRAFFICLOG" ++ SP :: rangeText q.source q.from_ q.to_ q.filter

/-! ## Answers -/

/-- The time that an event is logged at. -/
def TrafficEvent.time (ev : TrafficEvent) : Stamp :=
  ⟨ev.tm.tm_year + 1900, ev.tm.tm_mon + 1, ev.tm.tm_mday, ev.tm.tm_hour, ev.tm.tm_min, ev.tm.tm_sec⟩

/-- A logged event answers a query. -/
def RangeQuery.asks (q : RangeQuery) (ev : TrafficEvent) : Bool :=
  !ev.time.beyond q.to_.stamp && !q.from_.stamp.beyond ev.time && decide (ucase q.source = ucase ev.ircto) &&
    (decide (q.filter = [ANYTEXT]) || decide (q.filter <:+: ev.ircbuf))

def trafficAnswers (logs : List CStr) (events : List TrafficEvent) (q : RangeQuery) : List TrafficEvent :=
  events.filter fun ev => trafficLogged logs ev && q.asks ev

/-- Between the two lines around them, the answers are played and nothing else. -/
def PlaysAnswers (logs : List CStr) (events : List TrafficEvent) (q : RangeQuery) (lines : List CStr) : Prop :=
  ∃ start stop, lines = start :: ((trafficAnswers logs events q).map (fun ev => ev.ircbuf ++ [LF]) ++ [stop])

/-! ## The first line of the log -/

section Log

variable {logs : List CStr} {events : List TrafficEvent}

theorem le_writtenYear (tm_year : Nat) : 1900 ≤ writtenYear tm_year := by
  rw [writtenYear]
  by_cases hold : tm_year < 80
  · rw [if_pos hold]
    rw [if_neg (by omega)]
    omega
  · rw [if_neg hold]
    by_cases hshort : tm_year < 1900
    · rw [if_pos hshort]
      omega
    · rw [if_neg hshort]
      omega

theorem writtenYear_lt (tm : Tm) : writtenYear tm.tm_year < 10 ^ 10 := by
  have hyear := tm.year_lt
  rw [writtenYear]
  split <;> split <;> omega

theorem length_stampText_le (tm : Tm) : (stampText tm).length ≤ 25 := by
  rcases tm.fields_lt with ⟨hmon, hmday, hhour, hmin, hsec⟩
  have hyear := length_decPad_le (w := 2) (k := 10) (by decide) (writtenYear_lt tm)
  have htwo : ∀ n : Nat, n < 100 → (decPad 2 (n : Int)).length ≤ 2 :=
    fun n hn => length_decPad_le (w := 2) (k := 2) (by decide) hn
  have h₁ := htwo tm.tm_mon (by omega)
  have h₂ := htwo tm.tm_mday (by omega)
  have h₃ := htwo tm.tm_hour (by omega)
  have h₄ := htwo tm.tm_min (by omega)
  have h₅ := htwo tm.tm_sec (by omega)
  simp only [stampText, List.length_append, List.length_cons]
  omega

theorem lf_notMem_decPad (w n : Nat) : LF ∉ decPad w n := by
  intro h
  exact absurd (isDigit_decPad w n LF h) (by decide)

theorem lf_notMem_stampText (tm : Tm) : LF ∉ stampText tm := by
  have hdash : LF ≠ DASH := by decide
  simp only [stampText, List.mem_append, List.mem_cons, lf_notMem_decPad, hdash, or_self, not_false_iff]

/-- The date of an entry and the word behind it are read. -/
theorem sscanf_stampText (tm : Tm) {rest : CStr} (hrest : ∃ c ∈ rest, isSpace c = false) :
    ∃ src2, sscanf trafficFormat (stampText tm ++ COLON :: rest) =
      [.int (writtenYear tm.tm_year), .int tm.tm_mon, .int tm.tm_mday, .int tm.tm_hour, .int tm.tm_min, .int tm.tm_sec,
        .str src2] := by
  have hdash : isDigit DASH = false := by decide
  have hcolon : isDigit COLON = false := by decide
  rcases sscanf_str_ne_nil (n := 8191) (by decide) hrest [.lit COLON] with ⟨src2, t, hstr⟩
  have hlast : sscanf [.lit COLON] t = [] := by
    cases t with
    | nil =>
        rfl
    | cons c t =>
        rw [sscanf]
        exact ite_self _
  refine ⟨src2, ?_⟩
  simp only [trafficFormat, stampText, List.append_assoc, List.cons_append]
  rw [sscanf_int_decPad _ _ hdash, sscanf_int_decPad _ _ hdash, sscanf_int_decPad _ _ hdash, sscanf_int_decPad _ _ hdash,
    sscanf_int_decPad _ _ hdash, sscanf_int_decPad _ _ hcolon, hstr, hlast]

/-- What `fgets` reads starts with what is in front of the first line end and fits. -/
theorem fgets_starts {n : Nat} {h t : CStr} (hfit : h.length ≤ n - 1) (hlf : LF ∉ h) :
    ∃ x, (fgets n (h ++ t)).1 = h ++ x := by
  have htake : (h ++ t).take (n - 1) = h ++ t.take (n - 1 - h.length) := by
    rw [List.take_append, List.take_of_length_le hfit]
  rw [fgets, htake]
  rcases cut_cases LF (t.take (n - 1 - h.length)) with ⟨hno, _⟩ | ⟨u, v, heq, hu, _⟩
  · have hnone : cutAt LF (h ++ t.take (n - 1 - h.length)) = none := by
      apply cutAt_eq_none.2
      intro hmem
      rcases List.mem_append.1 hmem with hmem | hmem
      · exact hlf hmem
      · exact hno hmem
    rw [hnone]
    exact ⟨_, rfl⟩
  · have hsome : cutAt LF (h ++ t.take (n - 1 - h.length)) = some (h ++ u, v) := by
      rw [heq, ← List.append_assoc]
      apply cutAt_append
      intro hmem
      rcases List.mem_append.1 hmem with hmem | hmem
      · exact hlf hmem
      · exact hu hmem
    rw [hsome]
    exact ⟨u ++ [LF], List.append_assoc _ _ _⟩

/-- The first piece of the log is read as an entry. -/
theorem sscanf_first (ev : TrafficEvent) (t : CStr) :
    ∃ src2, sscanf trafficFormat (fgets 4200 (trafficLine ev ++ t)).1 =
      [.int (writtenYear ev.tm.tm_year), .int ev.tm.tm_mon, .int ev.tm.tm_mday, .int ev.tm.tm_hour, .int ev.tm.tm_min,
        .int ev.tm.tm_sec, .str src2] := by
  have hsplit : trafficLine ev ++ t =
      (stampText ev.tm ++ COLON :: (ucase ev.ircto ++ [COLON])) ++ (ev.ircbuf ++ [LF] ++ t) := by
    simp only [trafficLine, List.append_assoc, List.cons_append, List.nil_append]
  have hlen : (stampText ev.tm ++ COLON :: (ucase ev.ircto ++ [COLON])).length ≤ 4200 - 1 := by
    have hstamp := length_stampText_le ev.tm
    have hto := ev.ircto_lt
    simp only [List.length_append, List.length_cons, List.length_nil, length_ucase]
    omega
  have hlf : LF ∉ stampText ev.tm ++ COLON :: (ucase ev.ircto ++ [COLON]) := by
    have hcolon : LF ≠ COLON := by decide
    have hto : LF ∉ ucase ev.ircto := fun h => ev.ircto_line ((mem_ucase_iff (by decide)).1 h)
    simp only [List.mem_append, List.mem_cons, lf_notMem_stampText, hcolon, hto, List.not_mem_nil, or_self, not_false_iff]
  rcases @fgets_starts 4200 _ (ev.ircbuf ++ [LF] ++ t) hlen hlf with ⟨x, hx⟩
  rw [hsplit, hx, List.append_assoc, List.cons_append]
  apply sscanf_stampText
  exact ⟨COLON, by simp, by decide⟩

theorem trafficLog_cases (logs : List CStr) (events : List TrafficEvent) :
    trafficLog logs events = [] ∨ ∃ ev t, trafficLog logs events = trafficLine ev ++ t := by
  induction events with
  | nil =>
      exact Or.inl rfl
  | cons ev events ih =>
      have hcons : trafficLog logs (ev :: events) = checklogging logs ev ++ trafficLog logs events := rfl
      rw [hcons, checklogging]
      by_cases hlogged : trafficLogged logs ev = true
      · rw [if_pos hlogged]
        exact Or.inr ⟨ev, _, rfl⟩
      · rw [if_neg hlogged, List.nil_append]
        exact ih

/-- The loop is left at the first entry. -/
theorem rangeLoop_trafficLog {source filter : CStr} {from_ to_ : Stamp} (hto : to_.yy < 3800) (n : Nat) :
    rangeLoop source filter from_ to_ n (trafficLog logs events) = [] := by
  rcases trafficLog_cases logs events with hnil | ⟨ev, t, hlog⟩
  · rw [hnil]
    cases n with
    | zero => rfl
    | succ n => rfl
  · rw [hlog]
    cases n with
    | zero =>
        rfl
    | succ n =>
        rcases sscanf_first ev t with ⟨src2, hscan⟩
        cases hbytes : trafficLine ev ++ t with
        | nil =>
            rfl
        | cons b rest =>
            have hyear := le_writtenYear ev.tm.tm_year
            have hnorm : fullYear (writtenYear ev.tm.tm_year) = writtenYear ev.tm.tm_year + 1900 := by
              rw [fullYear, if_neg (by omega)]
            rw [hbytes] at hscan
            rw [rangeLoop, hscan]
            have hbeyond : ∀ mm dd h m s, (⟨fullYear (writtenYear ev.tm.tm_year), mm, dd, h, m, s⟩ : Stamp).beyond to_ =
                true := by
              intro mm dd h m s
              have hgt : (writtenYear ev.tm.tm_year : Int) + 1900 > to_.yy := by omega
              simp only [Stamp.beyond, hnorm, decide_eq_true hgt, Bool.true_or]
            simp only [hbeyond, if_true]

end Log

/-! ## Reading a query -/

section Reading

variable {source filter : CStr} {from_ to_ : QueryTime}

theorem skipSpace_decPad (w n : Nat) (r : CStr) : skipSpace (decPad w n ++ r) = decPad w n ++ r := by
  have hdigits := isDigit_decPad w n
  cases hds : decPad w n with
  | nil =>
      exact absurd hds (decPad_ne_nil w n)
  | cons d ds =>
      rw [hds] at hdigits
      exact skipSpace_of_head (isSpace_of_isDigit (hdigits d List.mem_cons_self)).1

/-- The six numbers of a time. -/
theorem sscanf_queryTime (x : QueryTime) (ds : List Directive) (rest : CStr) :
    sscanf (.int :: .lit DASH :: .int :: .lit DASH :: .int :: .space :: .int :: .lit COLON :: .int :: .lit COLON ::
        .int :: .space :: ds) (x.text rest) =
      .int x.mon :: .int x.mday :: .int x.year :: .int x.hour :: .int x.min :: .int x.sec :: sscanf ds (skipSpace rest) := by
  have hdash : isDigit DASH = false := by decide
  have hcolon : isDigit COLON = false := by decide
  have hsp : isSpace SP = true := by decide
  rw [QueryTime.text, sscanf_int_decPad _ _ hdash, sscanf_int_decPad _ _ hdash, sscanf_int_decPad_space _ _ hsp,
    skipSpace_decPad, sscanf_int_decPad _ _ hcolon, sscanf_int_decPad _ _ hcolon, sscanf_int_decPad_space _ _ hsp]

theorem skipSpace_text (x : QueryTime) (rest : CStr) : skipSpace (x.text rest) = x.text rest := by
  rw [QueryTime.text, skipSpace_decPad]

/-- A query is read to its end. -/
theorem sscanf_rangeText (hne : source ≠ []) (hname : ∀ c ∈ source, isSpace c = false) (hlen : source.length ≤ 8191)
    (hfilter : ∃ c ∈ filter, isSpace c = false) :
    ∃ w, sscanf queryFormat (rangeText source from_ to_ filter) =
      [.str source, .int from_.mon, .int from_.mday, .int from_.year, .int from_.hour, .int from_.min, .int from_.sec,
        .int to_.mon, .int to_.mday, .int to_.year, .int to_.hour, .int to_.min, .int to_.sec, .str w] := by
  have hsp : isSpace SP = true := by decide
  have hcolon : skipSpace (COLON :: filter) = COLON :: filter := skipSpace_of_head (by decide)
  rcases sscanf_str_ne_nil (n := 8191) (by decide) hfilter [.space] with ⟨w, t, hstr⟩
  refine ⟨w, ?_⟩
  have hlast : sscanf (.lit COLON :: .str 8191 :: [.space]) (COLON :: filter) = [.str w] := by
    rw [sscanf, if_pos rfl, hstr]
    rfl
  rw [queryFormat, rangeText, sscanf_str_word hne hname hlen hsp, skipSpace_text, sscanf_queryTime, skipSpace_text,
    sscanf_queryTime, hcolon, hlast]

end Reading

/-! ## The command -/

namespace RangeQuery

variable (q : RangeQuery)

theorem length_text_le (x : QueryTime) (rest : CStr) : (x.text rest).length ≤ 18 + rest.length := by
  rcases x.two with ⟨hmon, hmday, hyear, hhour, hmin, hsec⟩
  have htwo : ∀ n : Nat, n < 100 → (decPad 2 (n : Int)).length ≤ 2 :=
    fun n hn => length_decPad_le (w := 2) (k := 2) (by decide) hn
  have h₁ := htwo x.mon hmon
  have h₂ := htwo x.mday hmday
  have h₃ := htwo x.year hyear
  have h₄ := htwo x.hour hhour
  have h₅ := htwo x.min hmin
  have h₆ := htwo x.sec hsec
  simp only [QueryTime.text, List.length_append, List.length_cons]
  omega

theorem length_rangeText_le :
    (rangeText q.source q.from_ q.to_ q.filter).length ≤ q.source.length + q.filter.length + 38 := by
  have hfrom := length_text_le q.from_ (q.to_.text (COLON :: q.filter))
  have hto := length_text_le q.to_ (COLON :: q.filter)
  simp only [rangeText, List.length_append, List.length_cons] at hto ⊢
  omega

/-- A byte that ends a line is no part of a time. -/
theorem notMem_text {c : Byte} (hc : isDigit c = false) (hother : c ≠ DASH ∧ c ≠ SP ∧ c ≠ COLON) {x : QueryTime}
    {rest : CStr} (hrest : c ∉ rest) : c ∉ x.text rest := by
  have hpad : ∀ n : Nat, c ∉ decPad 2 (n : Int) := by
    intro n hmem
    rw [isDigit_decPad 2 n c hmem] at hc
    cases hc
  simp only [QueryTime.text, List.mem_append, List.mem_cons, hpad, hother, hrest, or_self, not_false_iff]

theorem notMem_line {c : Byte} (hspace : isSpace c = true) (hne : c ≠ SP) (hfilter : c ∉ q.filter) : c ∉ q.line := by
  have hdigit : isDigit c = false := by
    rw [← Bool.not_eq_true]
    intro hdigit
    rw [(isSpace_of_isDigit hdigit).1] at hspace
    cases hspace
  have hdash : c ≠ DASH := by
    rintro rfl
    exact absurd hspace (by decide)
  have hcolon : c ≠ COLON := by
    rintro rfl
    exact absurd hspace (by decide)
  have hsource : c ∉ q.source := by
    intro hmem
    rw [(q.source_name.2.2 c hmem).1] at hspace
    cases hspace
  have hcmd : c ∉ ascii "PLAYTRAFFICLOG" := by
    intro hmem
    have hall : ∀ d ∈ ascii "PLAYTRAFFICLOG", isSpace d = false := by decide
    rw [hall c hmem] at hspace
    cases hspace
  have htail : c ∉ COLON :: q.filter := by
    rw [List.mem_cons, not_or]
    exact ⟨hcolon, hfilter⟩
  have htext := notMem_text (x := q.from_) hdigit ⟨hdash, hne, hcolon⟩
    (notMem_text (x := q.to_) hdigit ⟨hdash, hne, hcolon⟩ htail)
  simp only [line, rangeText, List.mem_append, List.mem_cons, hcmd, hsource, htext, hne, or_self, not_false_iff]

/-- The content that the parser finds starts behind the first `:`, which is that of the first time. -/
theorem irccontent_line (t : Terminator) : ∃ rest,
    (parse (q.line ++ t.bytes)).irccontent = clip 6000 (decPad 2 q.from_.min ++ rest) := by
  have hsource := q.source_name
  have hcr : CR ∉ q.line := q.notMem_line (by decide) (by decide) q.filter_text.2.1
  have hlf : LF ∉ q.line := q.notMem_line (by decide) (by decide) q.filter_text.2.2
  have hfits := q.fits
  have hlong := q.length_rangeText_le
  have hlen : q.line.length < 8189 := by
    have hcmd : (ascii "PLAYTRAFFICLOG").length = 14 := by decide
    simp only [line, List.length_append, List.length_cons, hcmd]
    omega
  have hclip : clip 8191 (rangeText q.source q.from_ q.to_ q.filter) = rangeText q.source q.from_ q.to_ q.filter :=
    clip_eq_self (by omega)
  -- A line of the client: no prefix, the command, and no quote behind it.
  have hserver : afterPrefix [COLON] q.line = none := by
    apply afterPrefix_eq_none.2
    intro hpre
    have hhead : q.line.head? = some 80 := rfl
    rcases hpre with ⟨x, hx⟩
    rw [← hx] at hhead
    cases hhead
  have hcmd : cutAt SP q.line = some (ascii "PLAYTRAFFICLOG", rangeText q.source q.from_ q.to_ q.filter) :=
    cutAt_append (by decide)
  have hquote : afterPrefix [QUOTE] (rangeText q.source q.from_ q.to_ q.filter) = none := by
    apply afterPrefix_eq_none.2
    rintro ⟨x, hx⟩
    cases hs : q.source with
    | nil =>
        exact hsource.1 hs
    | cons c s =>
        rw [rangeText, hs, List.cons_append, List.cons_append] at hx
        injection hx with hc _
        apply hsource.2.1
        rw [hs, ← hc]
        rfl
  -- up to the minutes there is no `:`
  have hcolon : ∃ u rest, rangeText q.source q.from_ q.to_ q.filter = u ++ COLON :: (decPad 2 q.from_.min ++ rest) ∧
      COLON ∉ u := by
    refine ⟨q.source ++ SP :: (decPad 2 q.from_.mon ++ DASH :: (decPad 2 q.from_.mday ++ DASH ::
      (decPad 2 q.from_.year ++ SP :: decPad 2 q.from_.hour))),
      COLON :: (decPad 2 q.from_.sec ++ SP :: q.to_.text (COLON :: q.filter)), ?_, ?_⟩
    · simp only [rangeText, QueryTime.text, List.append_assoc, List.cons_append]
    · have hpad : ∀ n : Nat, COLON ∉ decPad 2 (n : Int) := by
        intro n hmem
        exact absurd (isDigit_decPad 2 n COLON hmem) (by decide)
      have hname : COLON ∉ q.source := fun hmem => (hsource.2.2 COLON hmem).2 rfl
      have hdash : COLON ≠ DASH := by decide
      have hsp : COLON ≠ SP := by decide
      simp only [List.mem_append, List.mem_cons, hpad, hname, hdash, hsp, or_self, not_false_iff]
  rcases hcolon with ⟨u, rest, hsplit, hu⟩
  refine ⟨rest, ?_⟩
  have hclient : generalparse (q.line ++ t.bytes) =
      { irccommand := clip 64 (ascii "PLAYTRAFFICLOG"), ircto := clip 800 (rtrim u)
        irccontent := clip 6000 (decPad 2 q.from_.min ++ rest) } := by
    rw [generalparse, lineOf_terminated hcr hlf hlen, hserver]
    simp only [clientLine, hcmd, hclip, clientParams, hquote]
    rw [hsplit, cutAt_append hu]
  rw [parse, hclient]
  rfl

theorem irccontent_ne_last (t : Terminator) :
    (parse (q.line ++ t.bytes)).irccontent ≠ [] ∧ ¬ ascii "last" <+: (parse (q.line ++ t.bytes)).irccontent := by
  rcases q.irccontent_line t with ⟨rest, hcontent⟩
  have hdigits := isDigit_decPad 2 q.from_.min
  rw [hcontent]
  cases hds : decPad 2 (q.from_.min : Int) with
  | nil =>
      exact absurd hds (decPad_ne_nil 2 _)
  | cons d ds =>
      rw [hds] at hdigits
      have hd := hdigits d List.mem_cons_self
      have hclip : clip 6000 (d :: ds ++ rest) = d :: (ds ++ rest).take 5998 := rfl
      rw [hclip]
      refine ⟨List.cons_ne_nil _ _, ?_⟩
      rintro ⟨x, hx⟩
      injection hx with hl _
      rw [← hl] at hd
      exact absurd hd (by decide)

end RangeQuery

theorem rangeText_append (source filter more : CStr) (from_ to_ : QueryTime) :
    rangeText source from_ to_ filter ++ more = rangeText source from_ to_ (filter ++ more) := by
  simp only [rangeText, QueryTime.text, List.append_assoc, List.cons_append]

/-- A query that is read to its end. -/
theorem playtrafficlog_range {u : TrafficUser} {ircbuf irccontent log cmd pt source filter : CStr}
    {fmm fdd fyy fh fm fs tmm tdd tyy th tm ts : Int} (hfile : u.file = some log) (hcontent : irccontent ≠ [])
    (hlast : ¬ ascii "last" <+: irccontent) (hcmd : cutAt SP ircbuf = some (cmd, pt))
    (hscan : sscanf queryFormat pt = [.str source, .int fmm, .int fdd, .int fyy, .int fh, .int fm, .int fs, .int tmm,
      .int tdd, .int tyy, .int th, .int tm, .int ts, .str filter]) :
    (playtrafficlog u ircbuf irccontent).lines =
      playRange (ucase source) filter ⟨fullYear fyy, fmm, fdd, fh, fm, fs⟩ ⟨fullYear tyy, tmm, tdd, th, tm, ts⟩ log := by
  rw [playtrafficlog, if_neg hcontent, hcmd, hfile]
  simp only
  rw [if_neg hlast, hscan]

/-- Nothing is played but the lines around the answer. -/
theorem playtrafficlog_lines (u : TrafficUser) (logs : List CStr) (events : List TrafficEvent) (q : RangeQuery)
    (t : Terminator) : ∃ start stop,
      (playtrafficlog { u with file := some (trafficLog logs events) } (q.line ++ t.bytes)
        (parse (q.line ++ t.bytes)).irccontent).lines = [start, stop] := by
  rcases q.irccontent_ne_last t with ⟨hcontent, hlast⟩
  have hcmd : cutAt SP (q.line ++ t.bytes) =
      some (ascii "PLAYTRAFFICLOG", rangeText q.source q.from_ q.to_ (q.filter ++ t.bytes)) := by
    rw [← rangeText_append, RangeQuery.line, List.append_assoc, List.cons_append]
    exact cutAt_append (by decide)
  have hvisible : ∃ c ∈ q.filter ++ t.bytes, isSpace c = false := by
    rcases q.filter_text.1 with ⟨c, hc, hspace⟩
    exact ⟨c, List.mem_append_left _ hc, hspace⟩
  have hfits := q.fits
  rcases @sscanf_rangeText q.source (q.filter ++ t.bytes) q.from_ q.to_ q.source_name.1
    (fun c hc => (q.source_name.2.2 c hc).1) (by omega) hvisible with ⟨w, hscan⟩
  have hyear := q.to_.two.2.2.1
  have hto : ∀ mm dd h m s, (⟨fullYear q.to_.year, mm, dd, h, m, s⟩ : Stamp).yy < 3800 := by
    intro mm dd h m s
    change fullYear q.to_.year < 3800
    rw [fullYear]
    split <;> omega
  have hplay := playtrafficlog_range (u := { u with file := some (trafficLog logs events) }) rfl hcontent hlast hcmd hscan
  rw [hplay, playRange, rangeLoop_trafficLog (hto _ _ _ _ _), List.nil_append]
  exact ⟨_, _, rfl⟩

/-- A range query plays the logged lines that answer it exactly when there are none of them. -/
theorem playtrafficlog_answers_iff (u : TrafficUser) (logs : List CStr) (events : List TrafficEvent) (q : RangeQuery)
    (t : Terminator) :
    PlaysAnswers logs events q (playtrafficlog { u with file := some (trafficLog logs events) } (q.line ++ t.bytes)
        (parse (q.line ++ t.bytes)).irccontent).lines ↔
      trafficAnswers logs events q = [] := by
  rcases playtrafficlog_lines u logs events q t with ⟨start, stop, hlines⟩
  rw [hlines]
  constructor
  · rintro ⟨start', stop', heq⟩
    have hlen := congrArg List.length heq
    simp only [List.length_cons, List.length_append, List.length_map, List.length_nil] at hlen
    exact List.eq_nil_of_length_eq_zero (by omega)
  · intro hnone
    refine ⟨start, stop, ?_⟩
    rw [hnone]
    rfl

/-! ## An entry of the day -/

theorem logTm_ok : 124 < 2 ^ 31 - 2000 ∧ 4 < 12 ∧ 6 < 32 ∧ 12 < 24 ∧ 30 < 60 ∧ 0 < 62 := by decide

theorem helloEvent_ok : (ascii "#leet").length < 800 ∧ LF ∉ ascii "#leet" := by decide

/-- The sixth of May 2024, half past twelve. -/
def helloEvent : TrafficEvent where
  tm := ⟨124, 4, 6, 12, 30, 0, logTm_ok.1, logTm_ok.2⟩
  irccommand := ascii "PRIVMSG"
  ircto := ascii "#leet"
  ircbuf := ascii ":bob!b@h PRIVMSG #leet :hello"
  ircto_lt := helloEvent_ok.1
  ircto_line := helloEvent_ok.2

theorem dayTime_ok : ∀ hour < 100, 5 < 100 ∧ 6 < 100 ∧ 24 < 100 ∧ hour < 100 ∧ 0 < 100 ∧ 0 < 100 := by decide

theorem dayQuery_source : ascii "#leet" ≠ [] ∧ (ascii "#leet").head? ≠ some QUOTE ∧
    ∀ c ∈ ascii "#leet", isSpace c = false ∧ c ≠ COLON := by decide

theorem dayQuery_filter : (∃ c ∈ ascii "*", isSpace c = false) ∧ CR ∉ ascii "*" ∧ LF ∉ ascii "*" :=
  ⟨⟨ANYTEXT, by decide, by decide⟩, by decide, by decide⟩

theorem dayQuery_fits : (ascii "#leet").length + (ascii "*").length < 8100 := by decide

/-- `PLAYTRAFFICLOG #leet 05-06-24 12:00:00 05-06-24 13:00:00 :*` -/
def dayQuery : RangeQuery where
  source := ascii "#leet"
  from_ := ⟨5, 6, 24, 12, 0, 0, dayTime_ok 12 (by decide)⟩
  to_ := ⟨5, 6, 24, 13, 0, 0, dayTime_ok 13 (by decide)⟩
  filter := ascii "*"
  source_name := dayQuery_source
  filter_text := dayQuery_filter
  fits := dayQuery_fits

/-- The line is in the range, and is not played. -/
theorem playtrafficlog_hello :
    (trafficAnswers [ascii "*;#leet"] [helloEvent] dayQuery).length = 1 ∧
      ¬ PlaysAnswers [ascii "*;#leet"] [helloEvent] dayQuery
        (playtrafficlog { nick := ascii "me", lastlog := 0, file := some (trafficLog [ascii "*;#leet"] [helloEvent]) }
          (dayQuery.line ++ [CR, LF]) (parse (dayQuery.line ++ [CR, LF])).irccontent).lines := by
  have hone : (trafficAnswers [ascii "*;#leet"] [helloEvent] dayQuery).length = 1 := by decide +kernel
  have htwo : (playtrafficlog { nick := ascii "me", lastlog := 0, file := some (trafficLog [ascii "*;#leet"] [helloEvent]) }
      (dayQuery.line ++ [CR, LF]) (parse (dayQuery.line ++ [CR, LF])).irccontent).lines.length = 2 := by decide +kernel
  refine ⟨hone, ?_⟩
  rintro ⟨start, stop, heq⟩
  have hlen := congrArg List.length heq
  rw [htwo] at hlen
  simp only [List.length_cons, List.length_append, List.length_map, List.length_nil, hone] at hlen
  omega

end PsyBnc
