import PsyBnc.Inifunc.File

/-!
# Records in a section

A record is saved by one `writeini` for each field, all in one section, and loaded by one `getini`
for each.  When the names of the fields differ, what is looked up afterwards under each name is the
first 199 bytes of its text, and nothing else has changed.
-/

namespace PsyBnc

open CLib

/-- A section whose name can be told apart inside a line. -/
structure IniSection where
  inidat : CStr
  sect : CStr
  plain : Plain inidat ∧ Plain sect
  line : LF ∉ inidat ∧ LF ∉ sect
  fits : inidat.length + sect.length < 100

/-- Different names that can be told apart inside a line. -/
def FieldNames (names : List CStr) : Prop :=
  (∀ p ∈ names, Plain p ∧ LF ∉ p ∧ p.length < 40) ∧ names.Nodup

instance (names : List CStr) : Decidable (FieldNames names) := by
  dsimp [FieldNames]
  infer_instance

/-- The calls of `writeini` for the fields of a record, in their order. -/
def writeFields (sect inidat : CStr) (fields : List (CStr × Option CStr)) (conf : Conf) :
    Option Conf :=
  fields.foldlM (fun conf p => writeini sect p.1 inidat p.2 conf) conf

namespace IniSection

variable (S : IniSection)

/-- `file.section.name`. -/
def keyText (p : CStr) : CStr := S.inidat ++ DOT :: (S.sect ++ DOT :: p)

theorem length_entryText_lt {p : CStr} (hp : p.length < 40) :
    (entryText S.inidat S.sect p).length < 200 := by
  have hfits := S.fits
  simp only [entryText, List.length_append, List.length_cons, List.length_nil]
  omega

def key {p : CStr} (hp : Plain p ∧ LF ∉ p ∧ p.length < 40) : IniKey where
  inidat := S.inidat
  sect := S.sect
  param := p
  plain := ⟨S.plain.1, S.plain.2, hp.1⟩
  fits := S.length_entryText_lt hp.2.2

theorem text_key {p : CStr} (hp : Plain p ∧ LF ∉ p ∧ p.length < 40) :
    (S.key hp).text = S.keyText p := rfl

theorem keyText_injective {p q : CStr} (h : S.keyText p = S.keyText q) : p = q := by
  have hdot := List.append_cancel_left h
  have hsect := List.append_cancel_left (List.cons.inj hdot).2
  exact (List.cons.inj hsect).2

end IniSection

/-- What a list of fields leaves behind. -/
structure Stored (S : IniSection) (fields : List (CStr × Option CStr)) (conf conf' : Conf) :
    Prop where
  unique : UniqueKeys conf'
  value : ∀ p ∈ fields, getini S.sect p.1 S.inidat conf' = (dataPtr p.2).map (clip 200)
  other : ∀ k : IniKey, (∀ p ∈ fields, k.text ≠ S.keyText p.1) → lookup conf' k = lookup conf k
  kept : ∀ e ∈ conf, (∀ p ∈ fields, keyOf e ≠ some (S.keyText p.1)) → e ∈ conf'

section Fields

variable {S : IniSection} {fields : List (CStr × Option CStr)} {p : CStr × Option CStr}
  {conf conf' : Conf}

theorem FieldNames.tail {name : CStr} {names : List CStr} (h : FieldNames (name :: names)) :
    FieldNames names :=
  ⟨fun p hp => h.1 p (List.mem_cons_of_mem _ hp), (List.nodup_cons.1 h.2).2⟩

/-- One field. -/
theorem writeini_stored (hp : Plain p.1 ∧ LF ∉ p.1 ∧ p.1.length < 40)
    (hdata : ∀ d, p.2 = some d → d.length < 1800) (huniq : UniqueKeys conf)
    (hw : writeini S.sect p.1 S.inidat p.2 conf = some conf') : Stored S [p] conf conf' := by
  have hw' : writeini (S.key hp).sect (S.key hp).param (S.key hp).inidat p.2 conf = some conf' := hw
  refine ⟨uniqueKeys_writeini hw' hdata huniq, ?_, ?_, ?_⟩
  · intro q hq
    rw [List.mem_singleton.1 hq]
    exact lookup_writeini_clip hw' hdata huniq
  · intro k hk
    have hne : k ≠ S.key hp := fun heq => hk p (by simp) (congrArg IniKey.text heq)
    exact lookup_writeini_of_ne hw' hdata hne
  · intro e he hkey
    have hmem : e ∈ conf.filter fun e => decide (keyOf e ≠ some (S.key hp).text) :=
      List.mem_filter.2 ⟨he, by simpa [S.text_key] using hkey p (by simp)⟩
    rw [← filter_writeini hw' hdata] at hmem
    exact (List.mem_filter.1 hmem).1

/-- The first field and then the others. -/
theorem Stored.cons {conf₁ : Conf} (hname : p.1 ∉ fields.map Prod.fst)
    (hp : Plain p.1 ∧ LF ∉ p.1 ∧ p.1.length < 40)
    (h₁ : Stored S [p] conf conf₁) (h : Stored S fields conf₁ conf') :
    Stored S (p :: fields) conf conf' := by
  refine ⟨h.unique, ?_, ?_, ?_⟩
  · intro q hq
    rcases List.mem_cons.1 hq with rfl | hq
    · have hother := h.other (S.key hp) (fun r hr heq => by
        have hsame : q.1 = r.1 := S.keyText_injective heq
        exact hname (hsame ▸ List.mem_map_of_mem hr))
      exact hother.trans (h₁.value q (by simp))
    · exact h.value q hq
  · intro k hk
    have htail := h.other k (fun q hq => hk q (List.mem_cons_of_mem _ hq))
    exact htail.trans (h₁.other k (fun q hq => hk q (by simp [List.mem_singleton.1 hq])))
  · intro e he hkey
    have he₁ := h₁.kept e he (fun q hq => hkey q (by simp [List.mem_singleton.1 hq]))
    exact h.kept e he₁ (fun q hq => hkey q (List.mem_cons_of_mem _ hq))

theorem writeFields_cons (conf : Conf) :
    writeFields S.sect S.inidat (p :: fields) conf =
      (writeini S.sect p.1 S.inidat p.2 conf).bind (writeFields S.sect S.inidat fields) := by
  rw [writeFields, List.foldlM_cons]
  rfl

theorem writeFields_stored (hnames : FieldNames (fields.map Prod.fst))
    (hdata : ∀ p ∈ fields, ∀ d, p.2 = some d → d.length < 1800) (huniq : UniqueKeys conf)
    (hw : writeFields S.sect S.inidat fields conf = some conf') : Stored S fields conf conf' := by
  induction fields generalizing conf with
  | nil =>
      cases hw
      exact ⟨huniq, by simp, fun _ _ => rfl, fun _ he _ => he⟩
  | cons p fields ih =>
      rw [writeFields_cons] at hw
      rcases Option.bind_eq_some_iff.1 hw with ⟨conf₁, hw₁, hrest⟩
      have hp := hnames.1 p.1 (by simp)
      have hname : p.1 ∉ fields.map Prod.fst := (List.nodup_cons.1 hnames.2).1
      have h₁ := writeini_stored hp (hdata p (by simp)) huniq hw₁
      have h := ih hnames.tail (fun q hq => hdata q (List.mem_cons_of_mem _ hq)) h₁.unique hrest
      exact h₁.cons hname hp h

/-- As long as the cache holds a line that is not written, all fields can be. -/
theorem exists_writeFields (hnames : FieldNames (fields.map Prod.fst))
    (hdata : ∀ p ∈ fields, ∀ d, p.2 = some d → d.length < 1800) (huniq : UniqueKeys conf)
    (hkeep : ∃ e ∈ conf, ∀ p ∈ fields, keyOf e ≠ some (S.keyText p.1)) :
    ∃ conf', writeFields S.sect S.inidat fields conf = some conf' := by
  induction fields generalizing conf with
  | nil =>
      exact ⟨conf, rfl⟩
  | cons p fields ih =>
      rcases hkeep with ⟨e, he, hkey⟩
      rw [writeFields_cons]
      cases hw : writeini S.sect p.1 S.inidat p.2 conf with
      | none =>
          rw [(writeini_eq_none_iff.1 hw).1] at he
          exact absurd he (by simp)
      | some conf₁ =>
          have h₁ := writeini_stored (hnames.1 p.1 (by simp)) (hdata p (by simp)) huniq hw
          have he₁ := h₁.kept e he (fun q hq => hkey q (by simp [List.mem_singleton.1 hq]))
          exact ih hnames.tail (fun q hq => hdata q (List.mem_cons_of_mem _ hq)) h₁.unique
            ⟨e, he₁, fun q hq => hkey q (List.mem_cons_of_mem _ hq)⟩

/-- A first field that is not empty makes the line that the cache then keeps. -/
theorem exists_writeFields_of_first {d : CStr} (hp : p.2 = some d) (hd : d ≠ []) (hne : conf ≠ [])
    (hnames : FieldNames ((p :: fields).map Prod.fst))
    (hdata : ∀ q ∈ p :: fields, ∀ d, q.2 = some d → d.length < 1800) (huniq : UniqueKeys conf) :
    ∃ conf', writeFields S.sect S.inidat (p :: fields) conf = some conf' := by
  have hgood := hnames.1 p.1 (by simp)
  rw [writeFields_cons]
  cases hw : writeini S.sect p.1 S.inidat p.2 conf with
  | none =>
      exact absurd (writeini_eq_none_iff.1 hw).1 hne
  | some conf₁ =>
      have h₁ := writeini_stored hgood (hdata p (by simp)) huniq hw
      have hlook : lookup conf₁ (S.key hgood) = some (clip 200 d) := by
        have hvalue := h₁.value p (by simp)
        rw [hp, dataPtr_some hd] at hvalue
        exact hvalue
      rcases exists_line_of_lookup hlook with ⟨e, he, hkey⟩
      apply exists_writeFields hnames.tail (fun q hq => hdata q (List.mem_cons_of_mem _ hq)) h₁.unique
      refine ⟨e, he, fun q hq heq => (List.nodup_cons.1 hnames.2).1 ?_⟩
      rw [hkey, Option.some.injEq] at heq
      have hsame : p.1 = q.1 := S.keyText_injective heq
      exact hsame ▸ List.mem_map_of_mem hq

/-! ## Lines -/

theorem writeini_fileLines (hp : Plain p.1 ∧ LF ∉ p.1 ∧ p.1.length < 40)
    (hdata : ∀ d, p.2 = some d → LF ∉ d ∧ d.length < 255) (hlines : Lines conf) (hshort : Short conf)
    (hw : writeini S.sect p.1 S.inidat p.2 conf = some conf') : Lines conf' ∧ Short conf' := by
  have hfits := S.fits
  have hlen := hp.2.2
  have hnew : ∀ e ∈ (newLine S.sect p.1 S.inidat p.2).toList,
      (LF ∉ e ∧ 2 ≤ e.length) ∧ e.length ≤ 398 := by
    intro e he
    rcases dataPtr_cases p.2 with hnone | ⟨d, hd, _, hptr⟩
    · simp [newLine, hnone] at he
    · rcases hdata d hd with ⟨hlf, hshort⟩
      have hdot : LF ≠ DOT := by decide
      have heq : LF ≠ EQUALS := by decide
      have hline : e = S.keyText p.1 ++ EQUALS :: d := by
        simp only [newLine, hptr, Option.map_some, Option.toList_some, List.mem_singleton] at he
        rw [he]
        exact iniLine_eq (S.key hp) (by omega)
      rw [hline]
      refine ⟨⟨?_, ?_⟩, ?_⟩
      · simp [IniSection.keyText, S.line.1, S.line.2, hp.2.1, hlf, hdot, heq]
      · simp only [IniSection.keyText, List.length_append, List.length_cons]
        omega
      · simp only [IniSection.keyText, List.length_append, List.length_cons]
        omega
  rcases (writeini_written hw).splice with ⟨old, hsplice, _, _⟩
  constructor
  · intro e he
    rcases hsplice.mem_or_of_mem he with h | h
    · exact (hnew e h).1
    · exact hlines e h
  · intro e he
    rcases hsplice.mem_or_of_mem he with h | h
    · exact (hnew e h).2
    · exact hshort e h

theorem writeFields_fileLines (hnames : FieldNames (fields.map Prod.fst))
    (hdata : ∀ p ∈ fields, ∀ d, p.2 = some d → LF ∉ d ∧ d.length < 255) (hlines : Lines conf)
    (hshort : Short conf) (hw : writeFields S.sect S.inidat fields conf = some conf') :
    Lines conf' ∧ Short conf' := by
  induction fields generalizing conf with
  | nil =>
      cases hw
      exact ⟨hlines, hshort⟩
  | cons p fields ih =>
      rw [writeFields_cons] at hw
      rcases Option.bind_eq_some_iff.1 hw with ⟨conf₁, hw₁, hrest⟩
      rcases writeini_fileLines (hnames.1 p.1 (by simp)) (hdata p (by simp)) hlines hshort hw₁ with
        ⟨hlines₁, hshort₁⟩
      exact ih hnames.tail (fun q hq => hdata q (List.mem_cons_of_mem _ hq)) hlines₁ hshort₁ hrest

theorem writeFields_head {sect inidat e : CStr} (he : conf.head? = some e)
    (hother : ¬ clip 200 (sectionText inidat sect) <+: e)
    (hw : writeFields sect inidat fields conf = some conf') : conf'.head? = some e := by
  induction fields generalizing conf with
  | nil =>
      cases hw
      exact he
  | cons p fields ih =>
      rw [writeFields, List.foldlM_cons] at hw
      rcases Option.bind_eq_some_iff.1 hw with ⟨conf₁, hw₁, hrest⟩
      exact ih (writeini_head he hother hw₁) hrest

end Fields

/-! ## Numbers and texts of a record -/

/-- `iset` -/
def iset (x : Int) : CStr := clip 8 (decInt x)

theorem decInt_ne_nil (x : Int) : decInt x ≠ [] := by
  by_cases hneg : x < 0
  · simp [decInt, hneg]
  · rw [decInt, if_neg hneg]
    exact dec_ne_nil _

theorem length_iset_lt (x : Int) : (iset x).length < 8 := by
  rw [iset, length_clip]
  omega

theorem iset_ne_nil (x : Int) : iset x ≠ [] := by
  intro hnil
  have hlen := congrArg List.length hnil
  have hpos := List.length_pos_of_ne_nil (decInt_ne_nil x)
  rw [iset, length_clip, List.length_nil] at hlen
  omega

theorem lf_notMem_iset (x : Int) : LF ∉ iset x := by
  intro hmem
  have hdigits : LF ∉ dec x.natAbs := notMem_dec (by decide)
  have hin : LF ∈ decInt x := mem_of_mem_clip hmem
  by_cases hneg : x < 0
  · rw [decInt, if_pos hneg, List.mem_cons] at hin
    exact hdigits (hin.resolve_left (by decide))
  · rw [decInt, if_neg hneg] at hin
    exact hdigits hin

/-- A number that fits the buffer is read back. -/
theorem atoi_iset_iff (x : Int) : atoi (iset x) = x ↔ (decInt x).length < 8 :=
  atoi_clip_decInt_iff (by decide) x

/-- What is looked up under the name of a text that was written. -/
theorem getD_dataPtr (d : CStr) : ((dataPtr (some d)).map (clip 200)).getD [] = clip 200 d := by
  by_cases hnil : d = []
  · rw [hnil]
    rfl
  · rw [dataPtr_some hnil, Option.map_some, Option.getD_some]

theorem getD_dataPtr_clip {d : CStr} (hd : d.length < 200) :
    ((dataPtr (some d)).map (clip 200)).getD [] = d := by
  rw [getD_dataPtr, clip_eq_self hd]

theorem elim_dataPtr_iset (x default : Int) :
    ((dataPtr (some (iset x))).map (clip 200)).elim default atoi = atoi (iset x) := by
  have hlen := length_iset_lt x
  rw [dataPtr_some (iset_ne_nil x), Option.map_some, clip_eq_self (by omega), Option.elim_some]

end PsyBnc
