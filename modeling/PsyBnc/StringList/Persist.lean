import PsyBnc.StringList.Model
import PsyBnc.Inifunc.Clear

/-!
# Lists that are loaded as they were

`Mirrors f s`: the section of the list `f` holds the entries of the list in memory, numbered from
zero on, and nothing else.  A call of `writelist` keeps this as long as there is a free slot, and
`eraselist` restores the numbering.  What is loaded of such a section is its first hundred entries.
-/

namespace PsyBnc

open CLib

namespace ListName

variable (f : ListName)

/-- What the lines of the section start with. -/
def pattern : CStr := sectionText f.file f.sect

/-- What the entries start with. -/
def entryLit : CStr := f.pattern ++ ascii "ENTRY"

def line (i : Nat) (d : CStr) : CStr := numberedLine f.entryLit i d

theorem pattern_prefix_line (i : Nat) (d : CStr) : f.pattern <+: f.line i d := by
  refine ⟨ascii "ENTRY" ++ (dec i ++ EQUALS :: d), ?_⟩
  simp [line, numberedLine, entryLit]

theorem length_pattern_lt : f.pattern.length < 101 := by
  have hfits := f.fits
  simp only [pattern, sectionText, List.length_append, List.length_cons, List.length_nil]
  omega

theorem clip_pattern : clip 200 f.pattern = f.pattern := by
  have hlen := f.length_pattern_lt
  apply clip_eq_self
  omega

theorem isPlain_entryLit {b : Byte} (h : b ∈ f.entryLit) : isPlain b = true := by
  have hlit : ∀ b ∈ DOT :: (DOT :: ascii "ENTRY"), isPlain b = true := by decide +kernel
  simp only [entryLit, pattern, sectionText, List.mem_append, List.mem_cons] at h
  rcases h with (h | h | h | h | h) | h
  · exact f.literal b (List.mem_append_left _ h)
  · exact hlit b (by simp [h])
  · exact f.literal b (List.mem_append_right _ h)
  · exact hlit b (by simp [h])
  · exact absurd h (by simp)
  · exact hlit b (by simp [h])

/-- What `countconfentries` scans with. -/
theorem countFormat :
    scanFormat (clip 256 (f.file ++ DOT :: (f.sect ++ DOT ::
      (clip 100 (ascii "ENTRY%d") ++ ascii "=%255s")))) = numberedFormat f.entryLit := by
  have hclip : clip 100 (ascii "ENTRY%d") = ascii "ENTRY" ++ ascii "%d" := by decide
  have htail : ascii "%d" ++ ascii "=%255s" = ascii "%d=%255s" := by decide
  have heq : f.file ++ DOT :: (f.sect ++ DOT :: (clip 100 (ascii "ENTRY%d") ++ ascii "=%255s")) =
      f.entryLit ++ ascii "%d=%255s" := by
    simp [entryLit, pattern, sectionText, hclip, ← htail]
  have hlen : (f.entryLit ++ ascii "%d=%255s").length < 256 := by
    have hpattern := f.length_pattern_lt
    have hentry : (ascii "ENTRY").length = 5 := by decide
    have hrest : (ascii "%d=%255s").length = 8 := by decide
    simp only [entryLit, List.length_append, hentry, hrest]
    omega
  rw [heq, clip_eq_self hlen, scanFormat_numbered (fun b hb => f.isPlain_entryLit hb)]

/-! ## Keys -/

theorem length_dec_entry {i : Nat} (hi : i < 256) : (dec i).length ≤ 3 :=
  (length_dec_le (by omega)).2 (by omega)

theorem listEntry_eq {i : Nat} (hi : i < 256) : listEntry i = ascii "ENTRY" ++ dec i := by
  have hdec := length_dec_entry hi
  have hentry : (ascii "ENTRY").length = 5 := by decide
  apply clip_eq_self
  simp only [List.length_append, hentry]
  omega

theorem plain_listEntry {i : Nat} (hi : i < 256) : Plain (listEntry i) := by
  rw [listEntry_eq hi]
  constructor
  · rw [List.mem_append, not_or]
    exact ⟨by decide, notMem_dec (by decide)⟩
  · rw [List.mem_append, not_or]
    exact ⟨by decide, notMem_dec (by decide)⟩

theorem length_entryText_lt {i : Nat} (hi : i < 256) :
    (entryText f.file f.sect (listEntry i)).length < 200 := by
  have hfits := f.fits
  have hdec := length_dec_entry hi
  have hentry : (ascii "ENTRY").length = 5 := by decide
  simp only [listEntry_eq hi, entryText, List.length_append, List.length_cons, List.length_nil,
    hentry]
  omega

/-- The key of an entry. -/
def key {i : Nat} (hi : i < 256) : IniKey where
  inidat := f.file
  sect := f.sect
  param := listEntry i
  plain := ⟨f.plain.1, f.plain.2, plain_listEntry hi⟩
  fits := f.length_entryText_lt hi

theorem line_eq {i : Nat} (hi : i < 256) (d : CStr) :
    f.line i d = (f.key hi).text ++ EQUALS :: d := by
  simp [line, numberedLine, entryLit, pattern, sectionText, IniKey.text, key, listEntry_eq hi]

theorem keyOf_line {i : Nat} (hi : i < 256) (d : CStr) :
    keyOf (f.line i d) = some (f.key hi).text := by
  rw [f.line_eq hi]
  exact keyOf_append (f.key hi).equals_notMem_text d

theorem pattern_prefix_of_keyOf {i : Nat} (hi : i < 256) {e : CStr}
    (h : keyOf e = some (f.key hi).text) : f.pattern <+: e := by
  rcases (prefix_iff_keyOf (f.key hi).equals_notMem_text e).2 h with ⟨d, rfl⟩
  have hline := f.pattern_prefix_line i d
  rw [f.line_eq hi] at hline
  simpa using hline

end ListName

/-! ## The invariant -/

structure Mirrors (f : ListName) (s : StoredList) : Prop where
  /-- The section is not the head of the cache. -/
  head : ∀ e ∈ s.conf.head?, ¬ f.pattern <+: e
  lines : ∀ e, e ∈ s.conf ∧ f.pattern <+: e ↔ ∃ i d, s.list[i]? = some d ∧ e = f.line i d
  short : ∀ d ∈ s.list, d.length < 200 ∧ Visible d

section Steps

variable {f : ListName} {s : StoredList} {conf' : Conf} {d : CStr}

theorem Mirrors.mem_line (h : Mirrors f s) {i : Nat} : f.line i d ∈ s.conf ↔ s.list[i]? = some d := by
  constructor
  · intro hmem
    rcases (h.lines _).1 ⟨hmem, f.pattern_prefix_line i d⟩ with ⟨j, d', hj, heq⟩
    rcases numberedLine_injective heq with ⟨rfl, rfl⟩
    exact hj
  · intro hi
    exact ((h.lines _).2 ⟨i, d, hi, rfl⟩).1

/-- A line under the key of an entry is the line of that entry. -/
theorem Mirrors.line_of_key (h : Mirrors f s) {i : Nat} (hi : i < 256) {e : CStr} (he : e ∈ s.conf)
    (hkey : keyOf e = some (f.key hi).text) : ∃ d, s.list[i]? = some d ∧ e = f.line i d := by
  rcases (h.lines e).1 ⟨he, f.pattern_prefix_of_keyOf hi hkey⟩ with ⟨j, d, hj, rfl⟩
  rcases (prefix_iff_keyOf (f.key hi).equals_notMem_text _).2 hkey with ⟨r, hr⟩
  have hsame : f.line j d = f.line i r := by
    rw [f.line_eq hi, ← hr]
    simp
  rcases numberedLine_injective hsame with ⟨rfl, rfl⟩
  exact ⟨d, hj, rfl⟩

/-- What is looked up is what is in the list. -/
theorem Mirrors.lookup (h : Mirrors f s) {i : Nat} (hi : i < 256) :
    getini f.sect (listEntry i) f.file s.conf = s.list[i]? := by
  have hlook : getini f.sect (listEntry i) f.file s.conf = s.conf.findSome? (valueAt (f.key hi)) :=
    lookup_eq s.conf (f.key hi)
  have hline : ∀ e ∈ s.conf, valueAt (f.key hi) e = none ∨
      ∃ d, s.list[i]? = some d ∧ e = f.line i d := by
    intro e he
    by_cases hkey : keyOf e = some (f.key hi).text
    · exact Or.inr (h.line_of_key hi he hkey)
    · exact Or.inl (valueAt_eq_none_iff.2 hkey)
  rw [hlook]
  cases hget : s.list[i]? with
  | none =>
      refine List.findSome?_eq_none_iff.2 fun e he => ?_
      rcases hline e he with hnone | ⟨d, hd, _⟩
      · exact hnone
      · rw [hget] at hd
        exact absurd hd (by simp)
  | some d =>
      have hshort : d.length < 200 := (h.short d (List.mem_of_getElem? hget)).1
      have hvalue : valueAt (f.key hi) (f.line i d) = some d := by
        rw [f.line_eq hi, valueAt_line, clip_eq_self hshort]
      cases hfind : s.conf.findSome? (valueAt (f.key hi)) with
      | none =>
          have hno := List.findSome?_eq_none_iff.1 hfind _ (h.mem_line.2 hget)
          rw [hvalue] at hno
          exact absurd hno (by simp)
      | some v =>
          rcases List.exists_of_findSome?_eq_some hfind with ⟨e, he, hv⟩
          rcases hline e he with hnone | ⟨d', hd', rfl⟩
          · rw [hnone] at hv
            exact absurd hv (by simp)
          · rw [hget] at hd'
            cases hd'
            rw [← hv, hvalue]

/-! ## One entry more -/

/-- A new line behind the head leaves the head where it is. -/
theorem head?_writeLoop {ppuf spuf : CStr} {buf : Option CStr} {seen rest : Conf}
    {sectconf : Option Nat} (hseen : seen ≠ [])
    (hw : writeLoop ppuf spuf buf seen rest sectconf = some conf') :
    conf'.head? = seen.reverse.head? := by
  have hkeep : ∀ l : Conf, (seen.reverse ++ l).head? = seen.reverse.head? := by
    intro l
    exact List.head?_append_of_ne_nil _ (by simpa using hseen)
  induction rest generalizing seen sectconf with
  | nil =>
      cases buf with
      | none =>
          simp only [writeLoop, Option.some.injEq] at hw
          rw [← hw]
      | some line =>
          cases sectconf with
          | none =>
              simp only [writeLoop, hseen, if_false, Option.some.injEq] at hw
              rw [← hw, hkeep]
          | some k =>
              simp only [writeLoop, Option.some.injEq] at hw
              rw [← hw, insertAfter]
              cases hrev : seen.reverse with
              | nil =>
                  exact absurd (List.reverse_eq_nil_iff.1 hrev) hseen
              | cons x xs =>
                  simp
  | cons entry rest ih =>
      have hnext : ∀ sc, writeLoop ppuf spuf buf (entry :: seen) rest sc = some conf' →
          conf'.head? = seen.reverse.head? := by
        intro sc hsc
        have hcons := ih (by simp) hsc (fun l => List.head?_append_of_ne_nil _ (by simp))
        rw [hcons, List.reverse_cons, hkeep]
      by_cases hs : spuf <+: entry
      · by_cases hp : ppuf <+: entry
        · cases buf with
          | none =>
              simp only [writeLoop, hs, hp, if_true, Option.some.injEq] at hw
              rw [← hw, hkeep]
          | some line =>
              simp only [writeLoop, hs, hp, if_true, Option.some.injEq] at hw
              rw [← hw, hkeep]
        · simp only [writeLoop, hs, hp, if_true, if_false] at hw
          exact hnext _ hw
      · simp only [writeLoop, hs, if_false] at hw
        exact hnext _ hw

theorem head?_writeini {sect param inidat : CStr} {data : Option CStr} {conf : Conf}
    (hhead : ∀ e ∈ conf.head?, ¬ clip 200 (sectionText inidat sect) <+: e) (hne : conf ≠ [])
    (hw : writeini sect param inidat data conf = some conf') : conf'.head? = conf.head? := by
  cases conf with
  | nil =>
      exact absurd rfl hne
  | cons x conf =>
      have hx : ¬ clip 200 (sectionText inidat sect) <+: x := hhead x (by simp)
      rw [writeini, writeLoop.eq_def] at hw
      simp only [hx, if_false] at hw
      simpa using head?_writeLoop (by simp) hw

/-- Writing the entry behind the last one. -/
theorem Mirrors.writeini_next (h : Mirrors f s) (hne : s.conf ≠ []) (hroom : s.list.length < 256)
    (hd : d.length < 200) (hvis : Visible d) :
    ∃ conf', writeini f.sect (listEntry s.list.length) f.file (some d) s.conf = some conf' ∧
      conf' ≠ [] ∧ Mirrors f { conf := conf', list := addstring d s.list } := by
  have hdne : d ≠ [] := by
    rintro rfl
    rcases hvis with ⟨b, hb, _⟩
    exact absurd hb (by simp)
  cases hw : writeini f.sect (listEntry s.list.length) f.file (some d) s.conf with
  | none =>
      exact absurd (writeini_eq_none_iff.1 hw).1 hne
  | some conf' =>
      have hhead : conf'.head? = s.conf.head? := by
        refine head?_writeini ?_ hne hw
        rw [← ListName.pattern, f.clip_pattern]
        exact h.head
      -- No line has the key, so the new line is inserted and no other line changes.
      have hmem : ∀ e, e ∈ conf' ↔ e ∈ s.conf ∨ e = f.line s.list.length d := by
        have hno : ∀ e ∈ s.conf, ¬ IniHit f.sect (listEntry s.list.length) f.file e := by
          intro e he hhit
          have hkey := (iniHit_iff (f.key hroom)).1 hhit
          rcases h.line_of_key hroom he hkey with ⟨d', hd', _⟩
          exact absurd hd' (by simp)
        have hline : newLine f.sect (listEntry s.list.length) f.file (some d) =
            some (f.line s.list.length d) := by
          rw [newLine, dataPtr_some hdne, Option.map_some, f.line_eq hroom]
          exact congrArg some (iniLine_eq (f.key hroom) (Nat.lt_trans hd (by decide)))
        rcases writeini_written hw with ⟨l₁, old, l₂, hconf, hconf', _, hold⟩
        have hold' : old = [] := by
          rcases hold with ⟨e, rfl, he⟩ | ⟨rfl, _⟩
          · exact absurd he (hno e (by simp [hconf]))
          · rfl
        intro e
        rw [hconf', hconf, hold', hline]
        simp only [List.append_nil, Option.toList_some, List.mem_append, List.mem_singleton]
        tauto
      refine ⟨conf', rfl, ?_, ?_, ?_, ?_⟩
      · exact List.ne_nil_of_mem ((hmem _).2 (Or.inr rfl))
      · intro e he
        exact h.head e (hhead ▸ he)
      · intro e
        rw [hmem]
        simp only [addstring]
        constructor
        · rintro ⟨he | rfl, hpre⟩
          · -- A line of the section is one of the list, or the new one.
            rcases (h.lines e).1 ⟨he, hpre⟩ with ⟨i, d', hi, rfl⟩
            exact ⟨i, d', by rw [List.getElem?_append_left (List.getElem?_eq_some_iff.1 hi).1, hi],
              rfl⟩
          · exact ⟨s.list.length, d, by simp, rfl⟩
        · rintro ⟨i, d', hi, rfl⟩
          refine ⟨?_, f.pattern_prefix_line i d'⟩
          -- The slot is one of the list, or the one behind it.
          rcases Nat.lt_or_ge i s.list.length with hlt | hge
          · rw [List.getElem?_append_left hlt] at hi
            exact Or.inl (h.mem_line.2 hi)
          · have hi' : i = s.list.length ∧ d = d' := by
              rw [List.getElem?_append_right hge] at hi
              have hlen := (List.getElem?_eq_some_iff.1 hi).1
              simp only [List.length_singleton] at hlen
              have hzero : i - s.list.length = 0 := by omega
              rw [hzero] at hi
              exact ⟨by omega, by simpa using hi⟩
            rw [hi'.1, hi'.2]
            exact Or.inr rfl
      · intro e he
        rcases List.mem_append.1 he with he | he
        · exact h.short e he
        · rw [List.mem_singleton.1 he]
          exact ⟨hd, hvis⟩

theorem visible_text (x : ListText) : Visible x.text :=
  ⟨SEMICOLON, by simp [ListText.text], by decide⟩

/-- The slot that is allocated is the one behind the last entry. -/
theorem Mirrors.countconfentries_eq (h : Mirrors f s) (hroom : s.list.length < 256) :
    ∃ cnt, countconfentries f.sect (clip 100 (ascii "ENTRY%d")) f.file s.conf =
      some (cnt, s.list.length) := by
  have hlines : ∀ e ∈ s.conf, f.entryLit <+: e →
      ∃ i d, i < 256 ∧ e = numberedLine f.entryLit i d := by
    intro e he hlit
    have hpattern : f.pattern <+: e := (List.prefix_append _ _).trans hlit
    rcases (h.lines e).1 ⟨he, hpattern⟩ with ⟨i, d, hi, rfl⟩
    have hlt := (List.getElem?_eq_some_iff.1 hi).1
    exact ⟨i, d, by omega, rfl⟩
  rcases countLoop_numbered hlines 0 [] with ⟨found, hfound, hmarked⟩
  have hfree : firstFree found.2 = s.list.length := by
    apply firstFree_eq hroom
    · intro hmem
      rcases (hmarked _).1 hmem with hnil | ⟨_, d, _, hline⟩
      · exact absurd hnil (by simp)
      · have hget := h.mem_line.1 hline
        exact absurd hget (by simp)
    · intro m hm
      have hget : s.list[m]? = some s.list[m] := List.getElem?_eq_getElem hm
      have hvis := (h.short _ (List.getElem_mem hm)).2
      exact (hmarked m).2 (Or.inr ⟨by omega, s.list[m], hvis, h.mem_line.2 hget⟩)
  refine ⟨found.1, ?_⟩
  rw [countconfentries, f.countFormat, hfound, Option.map_some, hfree]

theorem Mirrors.writelist (h : Mirrors f s) (hne : s.conf ≠ []) (hroom : s.list.length < 256)
    (x : ListText) :
    ∃ t, writelist x.host x.param f.text s = some t ∧ Mirrors f t ∧ t.conf ≠ [] ∧
      t.list = addstring x.text s.list := by
  have hshort : x.text.length < 200 := Nat.lt_succ_of_lt x.short
  have hbuf : clip 2048 (x.host ++ SEMICOLON :: x.param) = x.text := by
    apply clip_eq_self
    have := x.short
    omega
  rcases h.countconfentries_eq hroom with ⟨cnt, hcount⟩
  rcases h.writeini_next hne hroom hshort (visible_text x) with ⟨conf', hw, hne', hmirrors⟩
  refine ⟨{ conf := conf', list := addstring x.text s.list }, ?_, hmirrors, hne', rfl⟩
  simp only [PsyBnc.writelist, listName_text f (by omega : 100 ≤ 2048), hcount, Option.bind_some, hbuf,
    hw, Option.map_some]

/-! ## The reorganisation -/

/-- The loop goes on where the list in the section ends. -/
theorem Mirrors.rewriteEntries (h : Mirrors f s) {rest : List CStr} (hne : s.conf ≠ [] ∨ rest = [])
    (hroom : s.list.length + rest.length ≤ 256)
    (hrest : ∀ d ∈ rest, d.length < 200 ∧ Visible d) :
    ∃ conf', rewriteEntries f.file f.sect rest s.list.length s.conf = some conf' ∧
      Mirrors f { conf := conf', list := s.list ++ rest } := by
  induction rest generalizing s with
  | nil =>
      exact ⟨s.conf, rfl, by simpa using h⟩
  | cons d rest ih =>
      have hne' : s.conf ≠ [] := hne.resolve_right (by simp)
      have hd := hrest d (by simp)
      simp only [List.length_cons] at hroom
      rcases h.writeini_next hne' (by omega) hd.1 hd.2 with ⟨conf₁, hw, hne₁, h₁⟩
      have hroom₁ : (addstring d s.list).length + rest.length ≤ 256 := by
        simp only [addstring, List.length_append, List.length_singleton]
        omega
      rcases ih h₁ (Or.inl hne₁) hroom₁ (fun e he => hrest e (List.mem_cons_of_mem _ he))
        with ⟨conf', hrun, hmirrors⟩
      refine ⟨conf', ?_, by simpa [addstring] using hmirrors⟩
      rw [PsyBnc.rewriteEntries, hw, Option.bind_some, ← hrun]
      simp [addstring]

theorem mem_of_mem_removestring {entryn : Int} {list : List CStr} {d : CStr}
    (h : d ∈ removestring entryn list) : d ∈ list := by
  by_cases hneg : 0 ≤ entryn
  · rw [removestring, if_pos hneg] at h
    exact List.mem_of_mem_eraseIdx h
  · rw [removestring, if_neg hneg] at h
    exact h

theorem length_removestring_le (entryn : Int) (list : List CStr) :
    (removestring entryn list).length ≤ list.length := by
  by_cases hneg : 0 ≤ entryn
  · rw [removestring, if_pos hneg]
    exact List.length_eraseIdx_le _ _
  · rw [removestring, if_neg hneg]

/-- The section is emptied, since its first line is not the head of the cache. -/
theorem Mirrors.cleared (h : Mirrors f s) :
    ∃ conf', clearsectionconfig f.pattern s.conf = some conf' ∧ (s.conf ≠ [] → conf' ≠ []) ∧
      Mirrors f { conf := conf', list := [] } := by
  have hsafe : HeadSafe f.pattern s.conf := by
    match hconf : s.conf with
    | [] =>
        exact trivial
    | [e] =>
        exact h.head e (by simp [hconf])
    | e :: _ :: _ =>
        exact fun hpre => absurd hpre (h.head e (by simp [hconf]))
  refine ⟨erased f.pattern s.conf, hsafe.eq_erased, ?_, ?_, ?_, ?_⟩
  · intro hne
    rcases List.exists_cons_of_ne_nil hne with ⟨e, conf, hconf⟩
    have hhead := h.head e (by simp [hconf])
    apply List.ne_nil_of_mem
    exact mem_erased.2 ⟨by simp [hconf], hhead⟩
  · intro e he
    exact (mem_erased.1 (List.mem_of_mem_head? he)).2
  · intro e
    constructor
    · rintro ⟨he, hpre⟩
      exact absurd hpre (mem_erased.1 he).2
    · rintro ⟨i, d, hi, _⟩
      exact absurd hi (by simp)
  · simp

theorem Mirrors.eraselist (h : Mirrors f s) (hlen : s.list.length ≤ 256) (entryn : Int) :
    ∃ t, eraselist entryn f.text s = some t ∧ Mirrors f t ∧
      t.list = removestring entryn s.list := by
  rcases h.cleared with ⟨conf₁, hclear, hne, h₁⟩
  -- From an empty cache nothing has to be written.
  have hne₁ : conf₁ ≠ [] ∨ removestring entryn s.list = [] := by
    by_cases hconf : s.conf = []
    · refine Or.inr (List.eq_nil_iff_forall_not_mem.2 fun d hd => ?_)
      rcases List.getElem?_of_mem (mem_of_mem_removestring hd) with ⟨i, hi⟩
      have hmem := h.mem_line.2 hi
      simp [hconf] at hmem
    · exact Or.inl (hne hconf)
  have hroom : ([] : List CStr).length + (removestring entryn s.list).length ≤ 256 := by
    have := length_removestring_le entryn s.list
    simp only [List.length_nil]
    omega
  rcases h₁.rewriteEntries hne₁ hroom (fun d hd => h.short d (mem_of_mem_removestring hd))
    with ⟨conf', hrun, hmirrors⟩
  refine ⟨{ conf := conf', list := removestring entryn s.list }, ?_, by simpa using hmirrors, rfl⟩
  have hpattern : clip 200 (sectionText f.file f.sect) = f.pattern := f.clip_pattern
  simp only [List.length_nil] at hrun
  simp only [PsyBnc.eraselist, listName_text f (by omega : 100 ≤ 200), hpattern, hclear,
    Option.bind_some, hrun, Option.map_some]

/-! ## Loading -/

/-- The list is what a `loadlist` of its section makes. -/
def Loads (f : ListName) (s : StoredList) : Prop := loadlist s.conf f.text [] = s.list

/-- The loop collects what the lookups find. -/
theorem foldl_loadEntry (conf : Conf) (fname sect : CStr) (is : List Nat) (first : List CStr) :
    is.foldl (loadEntry conf fname sect) first =
      first ++ is.filterMap fun i => getini sect (listEntry i) fname conf := by
  induction is generalizing first with
  | nil =>
      simp
  | cons i is ih =>
      rw [List.foldl_cons, ih, List.filterMap_cons]
      cases hget : getini sect (listEntry i) fname conf with
      | none =>
          simp [loadEntry, hget]
      | some value =>
          simp [loadEntry, hget, addstring]

theorem loadlist_eq (conf : Conf) (f : ListName) :
    loadlist conf f.text [] =
      (List.range 100).filterMap fun i => getini f.sect (listEntry i) f.file conf := by
  simp only [loadlist, listName_text f (by omega : 100 ≤ 100), foldl_loadEntry, List.nil_append]

theorem length_loadlist_le (conf : Conf) (f : ListName) : (loadlist conf f.text []).length ≤ 100 := by
  rw [loadlist_eq]
  simpa using List.length_filterMap_le (fun i => getini f.sect (listEntry i) f.file conf)
    (List.range 100)

theorem filterMap_getElem?_range {α : Type} (l : List α) (n : Nat) :
    ((List.range n).filterMap fun i => l[i]?) = l.take n := by
  induction n with
  | zero =>
      simp
  | succ n ih =>
      rw [List.range_succ, List.filterMap_append, ih, List.take_add_one]
      cases h : l[n]? with
      | none =>
          have hlen := List.getElem?_eq_none_iff.1 h
          simp [hlen]
      | some x =>
          simp [h]

/-- A section that mirrors the list loads its first hundred entries. -/
theorem Mirrors.loadlist_eq_take (h : Mirrors f s) :
    loadlist s.conf f.text [] = s.list.take 100 := by
  rw [loadlist_eq, ← filterMap_getElem?_range]
  apply List.filterMap_congr
  intro i hi
  have hlt := List.mem_range.1 hi
  exact h.lookup (by omega)

theorem Mirrors.loads_iff (h : Mirrors f s) : Loads f s ↔ s.list.length ≤ 100 := by
  rw [Loads, h.loadlist_eq_take, List.take_eq_self_iff]

end Steps

/-! ## Runs -/

/-- Where a call is in bounds: there is a cache to write to, and a number that `loadlist` asks
for. -/
def InBounds (s : StoredList) : ListCall → Prop
  | .write _ => s.conf ≠ [] ∧ s.list.length < 100
  | .erase _ => True

instance (s : StoredList) (c : ListCall) : Decidable (InBounds s c) := by
  cases c with
  | write x =>
      dsimp [InBounds]
      infer_instance
  | erase entryn =>
      exact isTrue trivial

section Runs

variable {f : ListName} {s t : StoredList} {calls : List ListCall}

theorem writelist_ne_nil {x : ListText} (h : writelist x.host x.param f.text s = some t) :
    s.conf ≠ [] ∧ t.list = addstring x.text s.list := by
  have hbuf : clip 2048 (x.host ++ SEMICOLON :: x.param) = x.text := by
    apply clip_eq_self
    have := x.short
    omega
  have hdata : dataPtr (some x.text) ≠ none := by
    have hne : x.text ≠ [] := by simp [ListText.text]
    simp [dataPtr_some hne]
  simp only [writelist, listName_text f (by omega : 100 ≤ 2048), hbuf, Option.bind_eq_some_iff,
    Option.map_eq_some_iff] at h
  rcases h with ⟨⟨cnt, lastfree⟩, _, conf', hw, rfl⟩
  refine ⟨?_, rfl⟩
  rintro hnil
  have hnone : writeini f.sect (listEntry lastfree) f.file (some x.text) s.conf = none :=
    writeini_eq_none_iff.2 ⟨hnil, hdata⟩
  rw [hw] at hnone
  exact absurd hnone (by simp)

/-- A call in bounds keeps the section in step with a list that is loaded completely. -/
theorem listStep_mirrors (h : Mirrors f s ∧ s.list.length ≤ 100) {c : ListCall}
    (hc : InBounds s c) : ∃ t, listStep f.text s c = some t ∧ Mirrors f t ∧ t.list.length ≤ 100 := by
  rcases h with ⟨h, hlen⟩
  cases c with
  | write x =>
      rcases hc with ⟨hne, hroom⟩
      rcases h.writelist hne (by omega) x with ⟨t, ht, hmirrors, _, hlist⟩
      refine ⟨t, ht, hmirrors, ?_⟩
      rw [hlist, addstring, List.length_append, List.length_singleton]
      omega
  | erase entryn =>
      rcases h.eraselist (by omega) entryn with ⟨t, ht, hmirrors, hlist⟩
      refine ⟨t, ht, hmirrors, ?_⟩
      rw [hlist]
      exact (length_removestring_le entryn s.list).trans hlen

/-- Two lists that are both loaded back have at most a hundred entries. -/
theorem inBounds_of_loads {c : ListCall} (ht : listStep f.text s c = some t) (hload : Loads f t) :
    InBounds s c := by
  cases c with
  | erase entryn =>
      exact trivial
  | write x =>
      rcases writelist_ne_nil ht with ⟨hne, hlist⟩
      refine ⟨hne, ?_⟩
      have hlen := length_loadlist_le t.conf f
      rw [hload, hlist, addstring, List.length_append, List.length_singleton] at hlen
      omega

theorem mirrors_empty {conf : Conf} (hempty : ∀ e ∈ conf, ¬ f.pattern <+: e) :
    Mirrors f { conf := conf, list := [] } := by
  refine ⟨fun e he => hempty e (List.mem_of_mem_head? he), fun e => ?_, by simp⟩
  constructor
  · rintro ⟨he, hpre⟩
    exact absurd hpre (hempty e he)
  · rintro ⟨i, d, hi, _⟩
    exact absurd hi (by simp)

/-- As long as there are free slots, every entry gets one. -/
theorem runAll_writes (h : Mirrors f s) (hne : s.conf ≠ []) (x : ListText) {n : Nat}
    (hroom : s.list.length + n ≤ 256) :
    ∃ t, runAll (listStep f.text) s (List.replicate n (.write x)) = some t ∧ Mirrors f t ∧
      t.list.length = s.list.length + n := by
  induction n generalizing s with
  | zero =>
      exact ⟨s, rfl, h, rfl⟩
  | succ n ih =>
      rcases h.writelist hne (by omega) x with ⟨s₁, hw, h₁, hne₁, hlist⟩
      have hlen : s₁.list.length = s.list.length + 1 := by
        rw [hlist, addstring, List.length_append, List.length_singleton]
      rcases ih h₁ hne₁ (by omega) with ⟨t, hrun, ht, hcount⟩
      refine ⟨t, ?_, ht, by omega⟩
      rw [List.replicate_succ, runAll, listStep, hw, Option.bind_some, hrun]

end Runs

/-- A list stays what would be loaded of it, in every state of a run of calls from an empty list
and section, if and only if no call adds an entry to a list of a hundred. -/
theorem loads_iff_inBounds (f : ListName) (conf : Conf) (hempty : ∀ e ∈ conf, ¬ f.pattern <+: e)
    (calls : List ListCall) :
    Safe (listStep f.text) (Loads f) { conf := conf, list := [] } calls ↔
      StepsMeet (listStep f.text) InBounds { conf := conf, list := [] } calls := by
  constructor
  · intro hsafe
    exact hsafe.stepsMeet fun s c t _ ht hload => inBounds_of_loads ht hload
  · intro hG
    have hstart : Mirrors f { conf := conf, list := [] } ∧ ([] : List CStr).length ≤ 100 :=
      ⟨mirrors_empty hempty, by simp⟩
    have hsafe := safe_of_stepsMeet (fun s c h hc => listStep_mirrors h hc) hstart hG
    exact hsafe.mono fun s h => h.1.loads_iff.2 h.2

/-- The entry `*;*` of a bouncer that lets everybody in. -/
def anyHost : ListText where
  host := ascii "*"
  param := ascii "*"
  short := by decide

theorem loads_iff_inBounds_hostallows :
    Safe (listStep ListName.hostallows.text) (Loads ListName.hostallows)
      { conf := [ascii "PSYBNC.SYSTEM.PORT1=31337"], list := [] }
      [.write anyHost, .write anyHost, .erase 0] :=
  (loads_iff_inBounds ListName.hostallows [ascii "PSYBNC.SYSTEM.PORT1=31337"] (by decide)
    [.write anyHost, .write anyHost, .erase 0]).2 (by decide +kernel)

/-- The entry number 101 is written to the configuration, and not loaded from there. -/
theorem loadlist_drops_entry :
    ∃ t, runAll (listStep ListName.hostallows.text)
        { conf := [ascii "PSYBNC.SYSTEM.PORT1=31337"], list := [] }
        (List.replicate 101 (.write anyHost)) = some t ∧
      t.list.length = 101 ∧ (loadlist t.conf ListName.hostallows.text []).length = 100 ∧
      ¬ Loads ListName.hostallows t := by
  have hempty : ∀ e ∈ [ascii "PSYBNC.SYSTEM.PORT1=31337"], ¬ ListName.hostallows.pattern <+: e := by
    decide
  rcases runAll_writes (n := 101) (mirrors_empty hempty) (by simp) anyHost (by simp) with
    ⟨t, hrun, ht, hlen⟩
  have hlen' : t.list.length = 101 := by simpa using hlen
  refine ⟨t, hrun, hlen', ?_, ?_⟩
  · rw [ht.loadlist_eq_take, List.length_take, hlen']
    rfl
  · rw [ht.loads_iff]
    omega

end PsyBnc
