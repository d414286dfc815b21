import PsyBnc.Inifunc.Model
import PsyBnc.Lib.Splice
import Mathlib.Logic.Function.Basic

/-!
# The cache as a store

`getini` and `writeini` implement a map from keys `file.section.param` to texts.  The abstract
store is the function `lookup conf : IniKey → Option CStr`; `writeini` refines the update of one
point of it, and on the list of lines it is a splice: one line is replaced, removed, or inserted,
and no other line moves.
-/

namespace PsyBnc

open CLib

/-! ## What one call does to the list -/

/-- `conf'` is `conf` with its first line satisfying `hit` replaced by `buf` (removed, for `none`);
when no line does, `buf` is inserted somewhere. -/
def Written (hit : CStr → Prop) (buf : Option CStr) (conf conf' : Conf) : Prop :=
  ∃ l₁ old l₂, conf = l₁ ++ old ++ l₂ ∧ conf' = l₁ ++ buf.toList ++ l₂ ∧ (∀ e ∈ l₁, ¬ hit e) ∧
    ((∃ e, old = [e] ∧ hit e) ∨ (old = [] ∧ ∀ e ∈ l₂, ¬ hit e))

theorem Written.splice {hit : CStr → Prop} {buf : Option CStr} {conf conf' : Conf}
    (h : Written hit buf conf conf') :
    ∃ old, Splice old buf.toList conf conf' ∧ (∀ e ∈ old, hit e) ∧
      ((∃ e ∈ conf, hit e) → ∃ e, old = [e]) := by
  rcases h with ⟨l₁, old, l₂, hconf, hconf', hl₁, hold⟩
  refine ⟨old, ⟨l₁, l₂, hconf, hconf'⟩, ?_, ?_⟩
  · rcases hold with ⟨e, rfl, he⟩ | ⟨rfl, _⟩
    · simpa using he
    · simp
  · rintro ⟨e, he, hhit⟩
    rcases hold with ⟨e', rfl, _⟩ | ⟨rfl, hl₂⟩
    · exact ⟨e', rfl⟩
    · have hmem : e ∈ l₁ ++ l₂ := by simpa [hconf] using he
      rcases List.mem_append.1 hmem with h₁ | h₂
      · exact absurd hhit (hl₁ e h₁)
      · exact absurd hhit (hl₂ e h₂)

section Loop

variable {ppuf spuf : CStr} {buf : Option CStr}

/-- The test `writeini` makes for the entry it looks for. -/
def Hit (ppuf spuf entry : CStr) : Prop := spuf <+: entry ∧ ppuf <+: entry

theorem written_of_no_hit {conf conf' : Conf} (hno : ∀ e ∈ conf, ¬ Hit ppuf spuf e)
    (hend : ∃ l₁ l₂, conf = l₁ ++ l₂ ∧ conf' = l₁ ++ buf.toList ++ l₂) :
    Written (Hit ppuf spuf) buf conf conf' := by
  rcases hend with ⟨l₁, l₂, rfl, rfl⟩
  refine ⟨l₁, [], l₂, by simp, rfl, ?_, Or.inr ⟨rfl, ?_⟩⟩
  · exact fun e he => hno e (List.mem_append_left _ he)
  · exact fun e he => hno e (List.mem_append_right _ he)

/-- The end of the list is reached: the line is inserted behind the saved node or at the end. -/
theorem writeLoop_end {seen conf' : Conf} {sectconf : Option Nat}
    (hno : ∀ e ∈ seen, ¬ Hit ppuf spuf e)
    (h : writeLoop ppuf spuf buf seen [] sectconf = some conf') :
    Written (Hit ppuf spuf) buf seen.reverse conf' := by
  refine written_of_no_hit (fun e he => hno e (List.mem_reverse.1 he)) ?_
  cases buf with
  | none =>
      simp only [writeLoop, Option.some.injEq] at h
      exact ⟨seen.reverse, [], by simp, by simp [← h]⟩
  | some line =>
      cases sectconf with
      | none =>
          by_cases hs : seen = []
          · simp [writeLoop, hs] at h
          · simp only [writeLoop, hs, if_false, Option.some.injEq] at h
            exact ⟨seen.reverse, [], by simp, by simp [← h]⟩
      | some k =>
          simp only [writeLoop, Option.some.injEq] at h
          refine ⟨seen.reverse.take (k + 1), seen.reverse.drop (k + 1), ?_, ?_⟩
          · exact (List.take_append_drop _ _).symm
          · simp [← h, insertAfter]

theorem writeLoop_written {seen rest conf' : Conf} {sectconf : Option Nat}
    (hno : ∀ e ∈ seen, ¬ Hit ppuf spuf e)
    (h : writeLoop ppuf spuf buf seen rest sectconf = some conf') :
    Written (Hit ppuf spuf) buf (seen.reverse ++ rest) conf' := by
  induction rest generalizing seen sectconf with
  | nil =>
      simpa using writeLoop_end hno h
  | cons entry rest ih =>
      by_cases hhit : Hit ppuf spuf entry
      · -- The loop stops here and rewrites or unlinks this node.
        refine ⟨seen.reverse, [entry], rest, by simp, ?_,
          fun e he => hno e (List.mem_reverse.1 he), Or.inl ⟨entry, rfl, hhit⟩⟩
        cases buf with
        | none =>
            simp only [writeLoop, hhit.1, hhit.2, if_true, Option.some.injEq] at h
            simp [← h]
        | some line =>
            simp only [writeLoop, hhit.1, hhit.2, if_true, Option.some.injEq] at h
            simp [← h]
      · have hno' : ∀ e ∈ entry :: seen, ¬ Hit ppuf spuf e := by
          intro e he
          rcases List.mem_cons.1 he with rfl | he
          · exact hhit
          · exact hno e he
        have hnext : ∃ sc, writeLoop ppuf spuf buf (entry :: seen) rest sc = some conf' := by
          by_cases hs : spuf <+: entry
          · have hp : ¬ ppuf <+: entry := fun hp => hhit ⟨hs, hp⟩
            exact ⟨_, by simpa [writeLoop, hs, hp] using h⟩
          · exact ⟨_, by simpa [writeLoop, hs] using h⟩
        rcases hnext with ⟨sc, hsc⟩
        simpa using ih hno' hsc

/-- The loop only fails on an empty cache, by following `xconf->next`. -/
theorem writeLoop_ne_none {seen rest : Conf} {sectconf : Option Nat}
    (hne : seen ≠ [] ∨ rest ≠ [] ∨ buf = none) :
    writeLoop ppuf spuf buf seen rest sectconf ≠ none := by
  induction rest generalizing seen sectconf with
  | nil =>
      cases buf with
      | none =>
          simp [writeLoop]
      | some line =>
          cases sectconf with
          | none =>
              simpa [writeLoop] using hne
          | some k =>
              simp [writeLoop]
  | cons entry rest ih =>
      have hcons : entry :: seen ≠ [] ∨ rest ≠ [] ∨ buf = none := Or.inl (by simp)
      by_cases hs : spuf <+: entry
      · by_cases hp : ppuf <+: entry
        · cases buf with
          | none =>
              simp [writeLoop, hs, hp]
          | some line =>
              simp [writeLoop, hs, hp]
        · simpa [writeLoop, hs, hp] using ih hcons
      · simpa [writeLoop, hs] using ih hcons

/-- Once there is a first node, it stays the first one. -/
theorem writeLoop_head {seen rest conf' : Conf} {sectconf : Option Nat} {e : CStr}
    (hseen : seen.getLast? = some e)
    (h : writeLoop ppuf spuf buf seen rest sectconf = some conf') : conf'.head? = some e := by
  have hfirst : ∀ t, (seen.reverse ++ t).head? = some e := by
    intro t
    rw [List.head?_append, List.head?_reverse, hseen, Option.some_or]
  induction rest generalizing seen sectconf with
  | nil =>
      cases buf with
      | none =>
          cases h
          rw [List.head?_reverse, hseen]
      | some line =>
          cases sectconf with
          | none =>
              simp only [writeLoop] at h
              split at h
              · cases h
              · cases h
                exact hfirst [line]
          | some k =>
              cases h
              rw [insertAfter, List.head?_append, List.head?_take, if_neg (Nat.succ_ne_zero k),
                List.head?_reverse, hseen, Option.some_or]
  | cons entry rest ih =>
      have hcons : (entry :: seen).getLast? = some e := by
        rw [List.getLast?_cons, hseen, Option.getD_some]
      have hnext : ∀ t, ((entry :: seen).reverse ++ t).head? = some e := by
        intro t
        rw [List.head?_append, List.head?_reverse, hcons, Option.some_or]
      by_cases hs : spuf <+: entry
      · by_cases hp : ppuf <+: entry
        · cases buf with
          | none =>
              simp only [writeLoop, hs, hp, if_true, Option.some.injEq] at h
              rw [← h]
              exact hfirst rest
          | some line =>
              simp only [writeLoop, hs, hp, if_true, Option.some.injEq] at h
              rw [← h]
              exact hfirst (line :: rest)
        · simp only [writeLoop, hs, hp, if_true, if_false] at h
          exact ih hcons h hnext
      · simp only [writeLoop, hs, if_false] at h
        exact ih hcons h hnext

end Loop

/-- The line that a call of `writeini` stores, if it stores one. -/
def newLine (sect param inidat : CStr) (data : Option CStr) : Option CStr :=
  (dataPtr data).map (iniLine sect param inidat)

/-- The entry that a call of `writeini` is about. -/
def IniHit (sect param inidat entry : CStr) : Prop :=
  Hit (clip 200 (entryText inidat sect param)) (clip 200 (sectionText inidat sect)) entry

theorem writeini_written {sect param inidat : CStr} {data : Option CStr} {conf conf' : Conf}
    (h : writeini sect param inidat data conf = some conf') :
    Written (IniHit sect param inidat) (newLine sect param inidat data) conf conf' := by
  have hno : ∀ e ∈ ([] : Conf), ¬ IniHit sect param inidat e := by simp
  exact writeLoop_written hno h

theorem writeini_eq_none_iff {sect param inidat : CStr} {data : Option CStr} {conf : Conf} :
    writeini sect param inidat data conf = none ↔ conf = [] ∧ dataPtr data ≠ none := by
  constructor
  · intro h
    refine ⟨?_, ?_⟩
    · by_contra hne
      exact writeLoop_ne_none (Or.inr (Or.inl hne)) h
    · intro hnone
      exact writeLoop_ne_none (Or.inr (Or.inr (by simp [hnone]))) h
  · rintro ⟨rfl, hdata⟩
    cases hd : dataPtr data with
    | none =>
        exact absurd hd hdata
    | some d =>
        simp [writeini, writeLoop, hd]

/-- A first line of another section stays the first line. -/
theorem writeini_head {sect param inidat : CStr} {data : Option CStr} {conf conf' : Conf} {e : CStr}
    (he : conf.head? = some e) (hother : ¬ clip 200 (sectionText inidat sect) <+: e)
    (h : writeini sect param inidat data conf = some conf') : conf'.head? = some e := by
  cases conf with
  | nil =>
      cases he
  | cons entry rest =>
      cases he
      simp only [writeini, writeLoop, hother, if_false] at h
      exact writeLoop_head rfl h

/-! ## Keys -/

/-- A part of a key that can be told apart inside a line. -/
def Plain (s : CStr) : Prop := EQUALS ∉ s ∧ DOT ∉ s

instance (s : CStr) : Decidable (Plain s) := by
  dsimp [Plain]
  infer_instance

theorem plain_userFile (usern : Nat) : Plain (userFile usern) := by
  constructor
  · rw [userFile, List.mem_append, not_or]
    exact ⟨by decide, notMem_dec (by decide)⟩
  · rw [userFile, List.mem_append, not_or]
    exact ⟨by decide, notMem_dec (by decide)⟩

theorem length_userFile {usern : Nat} (husern : usern < 2 ^ 31) : (userFile usern).length < 15 := by
  have hdec : (dec usern).length ≤ 10 := (length_dec_le (by omega)).2 (by omega)
  have hname : (ascii "USER").length = 4 := by decide
  simp only [userFile, List.length_append, hname]
  omega

theorem byte_notMem_userFile {usern : Nat} {b : Byte} (hb : isDigit b = false) (hname : b ∉ ascii "USER") :
    b ∉ userFile usern := by
  rw [userFile, List.mem_append, not_or]
  exact ⟨hname, notMem_dec hb⟩

/-- A key `file.section.param` that fits the buffers and cannot be confused with another one. -/
structure IniKey where
  inidat : CStr
  sect : CStr
  param : CStr
  plain : Plain inidat ∧ Plain sect ∧ Plain param
  fits : (entryText inidat sect param).length < 200
  deriving DecidableEq

/-- The part of a line before its first `=`. -/
def keyOf (entry : CStr) : Option CStr := (cutAt EQUALS entry).map Prod.fst

/-- No key occurs on two lines. -/
def UniqueKeys (conf : Conf) : Prop := (conf.filterMap keyOf).Nodup

instance (conf : Conf) : Decidable (UniqueKeys conf) := by
  dsimp [UniqueKeys]
  infer_instance

namespace IniKey

/-- `file.section.param`. -/
def text (k : IniKey) : CStr := k.inidat ++ DOT :: (k.sect ++ DOT :: k.param)

theorem entryText_eq (k : IniKey) : entryText k.inidat k.sect k.param = k.text ++ [EQUALS] := by
  simp [entryText, text]

theorem equals_notMem_text (k : IniKey) : EQUALS ∉ k.text := by
  have h₁ := k.plain.1.1
  have h₂ := k.plain.2.1.1
  have h₃ := k.plain.2.2.1
  have hdot : EQUALS ≠ DOT := by decide
  simp [text, h₁, h₂, h₃, hdot]

theorem text_injective : Function.Injective text := by
  intro k k' h
  rcases append_cons_inj_of_notMem k.plain.1.2 k'.plain.1.2 h with ⟨hfile, hrest⟩
  rcases append_cons_inj_of_notMem k.plain.2.1.2 k'.plain.2.1.2 hrest with ⟨hsect, hparam⟩
  cases k
  cases k'
  simp_all

end IniKey

theorem keyOf_append {t : CStr} (ht : EQUALS ∉ t) (d : CStr) :
    keyOf (t ++ EQUALS :: d) = some t := by
  simp [keyOf, cutAt_append ht]

/-- For a text without `=`, starting with `text=` is the same as having that key. -/
theorem prefix_iff_keyOf {t : CStr} (ht : EQUALS ∉ t) (entry : CStr) :
    t ++ [EQUALS] <+: entry ↔ keyOf entry = some t := by
  constructor
  · rintro ⟨d, rfl⟩
    simpa using keyOf_append ht d
  · intro h
    rcases Option.map_eq_some_iff.1 h with ⟨⟨u, v⟩, hcut, rfl⟩
    rcases cutAt_eq_some.1 hcut with ⟨rfl, _⟩
    exact ⟨v, by simp⟩

/-! ## The store that a cache implements -/

def lookup (conf : Conf) (k : IniKey) : Option CStr := getini k.sect k.param k.inidat conf

/-- What a line contributes to the store at `k`. -/
def valueAt (k : IniKey) (entry : CStr) : Option CStr :=
  (afterPrefix (k.text ++ [EQUALS]) entry).map (clip 200)

theorem lookup_eq (conf : Conf) (k : IniKey) : lookup conf k = conf.findSome? (valueAt k) := by
  have hfits : (entryText k.inidat k.sect k.param).length < 400 := by
    have := k.fits
    omega
  have hval : (fun e => (afterPrefix (clip 400 (entryText k.inidat k.sect k.param)) e).map
      (clip 200)) = valueAt k := by
    funext e
    rw [clip_eq_self hfits, k.entryText_eq, valueAt]
  simp [lookup, getini, hval]

theorem valueAt_eq_none_iff {k : IniKey} {entry : CStr} :
    valueAt k entry = none ↔ keyOf entry ≠ some k.text := by
  have hiff := prefix_iff_keyOf k.equals_notMem_text entry
  simp [valueAt, afterPrefix_eq_none, hiff]

theorem valueAt_line (k : IniKey) (d : CStr) :
    valueAt k (k.text ++ EQUALS :: d) = some (clip 200 d) := by
  have h : k.text ++ EQUALS :: d = (k.text ++ [EQUALS]) ++ d := by simp
  simp only [valueAt, h, afterPrefix_append, Option.map_some]

theorem lookup_eq_none_of_forall {conf : Conf} {k : IniKey} (hno : ∀ e ∈ conf, keyOf e ≠ some k.text) :
    lookup conf k = none := by
  rw [lookup_eq]
  exact List.findSome?_eq_none_iff.2 (fun e he => valueAt_eq_none_iff.2 (hno e he))

theorem exists_line_of_lookup {conf : Conf} {k : IniKey} {v : CStr} (h : lookup conf k = some v) :
    ∃ e ∈ conf, keyOf e = some k.text := by
  by_contra hno
  push Not at hno
  rw [lookup_eq_none_of_forall hno] at h
  exact absurd h (by simp)

theorem iniHit_iff (k : IniKey) {entry : CStr} :
    IniHit k.sect k.param k.inidat entry ↔ keyOf entry = some k.text := by
  have hsect : sectionText k.inidat k.sect <+: entryText k.inidat k.sect k.param := by
    refine ⟨k.param ++ [EQUALS], ?_⟩
    simp [sectionText, entryText]
  have hlen : (sectionText k.inidat k.sect).length < 200 :=
    Nat.lt_of_le_of_lt hsect.length_le k.fits
  have hkey := prefix_iff_keyOf k.equals_notMem_text entry
  simp only [IniHit, Hit, clip_eq_self k.fits, clip_eq_self hlen, ← hkey, ← k.entryText_eq]
  constructor
  · exact fun h => h.2
  · exact fun h => ⟨hsect.trans h, h⟩

/-- The line stored for a key and a text that fits. -/
theorem iniLine_eq (k : IniKey) {d : CStr} (hd : d.length < 1800) :
    iniLine k.sect k.param k.inidat d = k.text ++ EQUALS :: d := by
  have hlen : (entryText k.inidat k.sect k.param ++ d).length < 2048 := by
    have := k.fits
    simp only [List.length_append]
    omega
  calc iniLine k.sect k.param k.inidat d
      = entryText k.inidat k.sect k.param ++ d := by
        simp only [iniLine, clip_eq_self k.fits, clip_eq_self hlen]
    _ = k.text ++ EQUALS :: d := by
        simp [k.entryText_eq]

@[simp] theorem dataPtr_none : dataPtr none = none := rfl

@[simp] theorem dataPtr_nil : dataPtr (some []) = none := rfl

theorem dataPtr_some {d : CStr} (hd : d ≠ []) : dataPtr (some d) = some d := by
  simp [dataPtr, hd]

theorem dataPtr_cases (data : Option CStr) :
    dataPtr data = none ∨ ∃ d, data = some d ∧ d ≠ [] ∧ dataPtr data = some d := by
  cases data with
  | none =>
      exact Or.inl rfl
  | some d =>
      by_cases hd : d = []
      · exact Or.inl (by simp [hd])
      · exact Or.inr ⟨d, rfl, hd, dataPtr_some hd⟩

/-- The new line, if any, has the key that was written. -/
theorem keyOf_newLine (k : IniKey) {data : Option CStr}
    (hdata : ∀ d, data = some d → d.length < 1800) :
    ∀ e ∈ (newLine k.sect k.param k.inidat data).toList, keyOf e = some k.text := by
  intro e he
  rcases dataPtr_cases data with hnone | ⟨d, hd, _, hptr⟩
  · simp [newLine, hnone] at he
  · simp only [newLine, hptr, Option.map_some, Option.toList_some, List.mem_singleton] at he
    rw [he, iniLine_eq k (hdata d hd)]
    exact keyOf_append k.equals_notMem_text d

section Law

variable {k : IniKey} {data : Option CStr} {conf conf' : Conf}

/-- A call leaves every line with another key alone. -/
theorem filter_writeini (h : writeini k.sect k.param k.inidat data conf = some conf')
    (hdata : ∀ d, data = some d → d.length < 1800) :
    conf'.filter (fun e => decide (keyOf e ≠ some k.text)) =
      conf.filter (fun e => decide (keyOf e ≠ some k.text)) := by
  rcases (writeini_written h).splice with ⟨old, hsplice, hold, _⟩
  refine hsplice.filter_eq ?_ ?_
  · refine List.filter_eq_nil_iff.2 ?_
    intro e he
    simpa using (iniHit_iff k).1 (hold e he)
  · refine List.filter_eq_nil_iff.2 ?_
    intro e he
    simpa using keyOf_newLine k hdata e he

theorem lookup_writeini_of_ne (h : writeini k.sect k.param k.inidat data conf = some conf')
    (hdata : ∀ d, data = some d → d.length < 1800) {k' : IniKey} (hk : k' ≠ k) :
    lookup conf' k' = lookup conf k' := by
  rcases (writeini_written h).splice with ⟨old, hsplice, hold, _⟩
  have hother : ∀ e, keyOf e = some k.text → valueAt k' e = none := by
    intro e he
    refine valueAt_eq_none_iff.2 ?_
    rw [he]
    exact fun heq => hk (IniKey.text_injective (Option.some.inj heq)).symm
  simp only [lookup_eq]
  exact hsplice.findSome?_eq (fun e he => hother e ((iniHit_iff k).1 (hold e he)))
    (fun e he => hother e (keyOf_newLine k hdata e he))

theorem uniqueKeys_writeini (h : writeini k.sect k.param k.inidat data conf = some conf')
    (hdata : ∀ d, data = some d → d.length < 1800) (huniq : UniqueKeys conf) :
    UniqueKeys conf' := by
  rcases (writeini_written h).splice with ⟨old, hsplice, hold, hfound⟩
  refine hsplice.nodup_filterMap huniq ?_ ?_
  · cases hline : newLine k.sect k.param k.inidat data with
    | none =>
        simp
    | some line =>
        have hkey : keyOf line = some k.text := keyOf_newLine k hdata line (by simp [hline])
        simp [hkey]
  · intro t ht
    rcases List.mem_filterMap.1 ht with ⟨e, he, het⟩
    rw [keyOf_newLine k hdata e he] at het
    cases het
    by_cases hex : ∃ e ∈ conf, keyOf e = some k.text
    · rcases hex with ⟨e', he', hkey'⟩
      rcases hfound ⟨e', he', (iniHit_iff k).2 hkey'⟩ with ⟨e'', rfl⟩
      refine Or.inl (List.mem_filterMap.2 ⟨e'', by simp, ?_⟩)
      exact (iniHit_iff k).1 (hold e'' (by simp))
    · refine Or.inr (fun hmem => hex ?_)
      rcases List.mem_filterMap.1 hmem with ⟨e', he', hkey'⟩
      exact ⟨e', he', hkey'⟩

/-- What is read back under the key. -/
theorem lookup_writeini_some {d : CStr} (hd : d ≠ []) (hlen : d.length < 1800)
    (h : writeini k.sect k.param k.inidat (some d) conf = some conf') :
    lookup conf' k = some (clip 200 d) := by
  rcases writeini_written h with ⟨l₁, old, l₂, _, rfl, hl₁, _⟩
  have hmiss : ∀ e ∈ l₁, valueAt k e = none := by
    intro e he
    exact valueAt_eq_none_iff.2 fun hkey => hl₁ e he ((iniHit_iff k).2 hkey)
  have hnew : newLine k.sect k.param k.inidat (some d) = some (k.text ++ EQUALS :: d) := by
    rw [newLine, dataPtr_some hd, Option.map_some, iniLine_eq k hlen]
  rw [lookup_eq, hnew, List.append_assoc, List.findSome?_append, List.findSome?_eq_none_iff.2 hmiss, Option.none_or]
  simp [valueAt_line]

/-- What is read back is what fits `value[200]`. -/
theorem lookup_writeini_clip (h : writeini k.sect k.param k.inidat data conf = some conf')
    (hdata : ∀ d, data = some d → d.length < 1800) (huniq : UniqueKeys conf) :
    lookup conf' k = (dataPtr data).map (clip 200) := by
  rcases dataPtr_cases data with hnone | ⟨d, rfl, hne, hptr⟩
  · -- Deleting: by uniqueness no second line has the key.
    rcases writeini_written h with ⟨l₁, old, l₂, rfl, rfl, hl₁, hold⟩
    have hmiss : ∀ e, ¬ IniHit k.sect k.param k.inidat e → valueAt k e = none := by
      intro e he
      exact valueAt_eq_none_iff.2 (fun hkey => he ((iniHit_iff k).2 hkey))
    have h₁ : l₁.findSome? (valueAt k) = none :=
      List.findSome?_eq_none_iff.2 (fun e he => hmiss e (hl₁ e he))
    have h₂ : l₂.findSome? (valueAt k) = none := by
      refine List.findSome?_eq_none_iff.2 (fun e he => ?_)
      rcases hold with ⟨e', rfl, he'⟩ | ⟨_, hl₂⟩
      · refine valueAt_eq_none_iff.2 (fun hkey => ?_)
        have hkey' := (iniHit_iff k).1 he'
        simp only [UniqueKeys, List.filterMap_append, List.filterMap_cons, hkey',
          List.filterMap_nil, List.nodup_append, List.mem_append, List.mem_singleton] at huniq
        exact huniq.2.2 k.text (Or.inr rfl) k.text (List.mem_filterMap.2 ⟨e, he, hkey⟩) rfl
      · exact hmiss e (hl₂ e he)
    simp [lookup_eq, newLine, hnone, List.findSome?_append, h₁, h₂]
  · rw [hptr, Option.map_some]
    exact lookup_writeini_some hne (hdata d rfl) h

theorem lt_line_of_lt (hdata : ∀ d, data = some d → d.length < 200) :
    ∀ d, data = some d → d.length < 1800 :=
  fun d hd => Nat.lt_trans (hdata d hd) (by decide)

theorem lookup_writeini_self (h : writeini k.sect k.param k.inidat data conf = some conf')
    (hdata : ∀ d, data = some d → d.length < 200) (huniq : UniqueKeys conf) :
    lookup conf' k = dataPtr data := by
  rw [lookup_writeini_clip h (lt_line_of_lt hdata) huniq]
  rcases dataPtr_cases data with hnone | ⟨d, hd, _, hptr⟩
  · rw [hnone, Option.map_none]
  · rw [hptr, Option.map_some, clip_eq_self (hdata d hd)]

end Law

/-- The laws of the configuration store: on a non-empty cache without double keys a call of
`writeini` succeeds, sets or deletes its own key and leaves everything else as it was. -/
theorem writeini_updates_store (k : IniKey) (data : Option CStr) (conf : Conf)
    (hne : conf ≠ []) (huniq : UniqueKeys conf)
    (hdata : ∀ d, data = some d → d.length < 200) :
    ∃ conf', writeini k.sect k.param k.inidat data conf = some conf' ∧
      (∀ d, data = some d → d ≠ [] → getini k.sect k.param k.inidat conf' = some d) ∧
      (data = none ∨ data = some [] → getini k.sect k.param k.inidat conf' = none) ∧
      (∀ k' : IniKey, k' ≠ k →
        getini k'.sect k'.param k'.inidat conf' = getini k'.sect k'.param k'.inidat conf) ∧
      conf'.filter (fun e => decide (keyOf e ≠ some k.text)) =
        conf.filter (fun e => decide (keyOf e ≠ some k.text)) ∧
      UniqueKeys conf' := by
  cases hw : writeini k.sect k.param k.inidat data conf with
  | none =>
      exact absurd (writeini_eq_none_iff.1 hw).1 hne
  | some conf' =>
      have hself := lookup_writeini_self hw hdata huniq
      have hline := lt_line_of_lt hdata
      refine ⟨conf', rfl, ?_, ?_, ?_, filter_writeini hw hline, uniqueKeys_writeini hw hline huniq⟩
      · intro d hd hne'
        simpa [lookup, hd, dataPtr_some hne'] using hself
      · rintro (rfl | rfl)
        · simpa [lookup] using hself
        · simpa [lookup] using hself
      · exact fun k' hk' => lookup_writeini_of_ne hw hline hk'

/-- `USER1.USER.NICK`. -/
def nickKey : IniKey where
  inidat := userFile 1
  sect := ascii "USER"
  param := ascii "NICK"
  plain := by decide
  fits := by decide

/-- A user renames himself; his password entry, which comes first, is still found. -/
theorem writeini_updates_store_nick :
    let conf := [ascii "USER1.USER.PASS=x", ascii "USER1.USER.NICK=bob"]
    ∃ conf', writeini nickKey.sect nickKey.param nickKey.inidat (some (ascii "eve")) conf =
        some conf' ∧
      getini nickKey.sect nickKey.param nickKey.inidat conf' = some (ascii "eve") ∧
      UniqueKeys conf' := by
  intro conf
  have hdata : ∀ d, some (ascii "eve") = some d → d.length < 200 := by
    intro d hd
    cases hd
    decide
  rcases writeini_updates_store nickKey (some (ascii "eve")) conf (by simp [conf]) (by decide) hdata
    with ⟨conf', hw, hset, _, _, _, huniq⟩
  exact ⟨conf', hw, hset (ascii "eve") rfl (by decide), huniq⟩

end PsyBnc
