import PsyBnc.Dcc.Aligned
import PsyBnc.Intnet.Join
import PsyBnc.Lib.Numbered
import PsyBnc.Lib.Run

/-!
# Channels that are saved

Over whole runs: a local user joins and parts, and others do.  His entries are in the slots 0 to 19 as long as
there are no more channels than these.
-/

namespace PsyBnc

open CLib

/-! ## The section of a user -/

theorem isPlain_intchans (usern : Nat) : ∀ b ∈ userFile usern ++ INTCHANS, isPlain b = true := by
  intro b hb
  rcases List.mem_append.1 hb with huser | hsect
  · exact isPlain_userFile usern b huser
  · have hall : ∀ b ∈ INTCHANS, isPlain b = true := by decide +kernel
    exact hall b hsect

theorem length_intchans {usern : Nat} (husern : usern < 2 ^ 31) :
    (userFile usern).length + INTCHANS.length < 99 := by
  have hname : INTCHANS.length = 8 := by decide
  have huser := length_userFile husern
  rw [hname]
  omega

theorem plain_INTCHANS : Plain INTCHANS := by decide

def intchanName {usern : Nat} (husern : usern < 2 ^ 31) : ListName where
  file := userFile usern
  sect := INTCHANS
  plain := ⟨plain_userFile usern, plain_INTCHANS⟩
  literal := isPlain_intchans usern
  fits := length_intchans husern

/-- The names in the lines of the section. -/
def savedNames (usern : Nat) (conf : Conf) : List CStr :=
  conf.filterMap fun e =>
    (afterPrefix (sectionText (userFile usern) INTCHANS) e).bind fun r => (cutAt EQUALS r).map Prod.snd

section Config

variable {usern : Nat} {conf conf' : Conf} {g : Nat → Option CStr} {names : List CStr} {name : CStr}

theorem clip_userFile (husern : usern < 2 ^ 31) : clip 200 (userFile usern) = userFile usern := by
  have huser := length_userFile husern
  exact clip_eq_self (by omega)

theorem intchanEntry_eq {i : Nat} (hi : i < 256) : intchanEntry i = listEntry i := by
  rw [ListName.listEntry_eq hi]
  have hdec := ListName.length_dec_entry hi
  have hentry : (ascii "ENTRY").length = 5 := by decide
  apply clip_eq_self
  rw [List.length_append, hentry]
  omega

/-- The entries of a user are these names, in slots of their own below `n`. -/
structure Saves (husern : usern < 2 ^ 31) (n : Nat) (conf : Conf) (names : List CStr) : Prop where
  slots : ∃ g, Slots (intchanName husern) conf g ∧ Numbers n g names
  nodup : names.Nodup
  short : ∀ name ∈ names, name.length < 200

theorem intchanSlot_eq (husern : usern < 2 ^ 31) (h : Slots (intchanName husern) conf g) {i : Nat}
    (hi : i < 256) : intchanSlot usern conf i = (g i).map (clip 200) := by
  rw [intchanSlot, intchanEntry_eq hi, clip_userFile husern]
  exact h.getini hi

theorem intchanSlot_some (husern : usern < 2 ^ 31) (h : Slots (intchanName husern) conf g)
    (hnumbers : Numbers 20 g names) (hshort : ∀ name ∈ names, name.length < 200) {i : Nat} (hi : i < 20) :
    intchanSlot usern conf i = some name ↔ g i = some name := by
  have hclip : ∀ d, g i = some d → clip 200 d = d := by
    intro d hd
    exact clip_eq_self (hshort d ((hnumbers.mem_iff d).2 ⟨i, hd⟩))
  rw [intchanSlot_eq husern h (by omega)]
  constructor
  · intro hslot
    rcases Option.map_eq_some_iff.1 hslot with ⟨d, hd, hname⟩
    rw [hclip d hd] at hname
    rw [hd, hname]
  · intro hg
    rw [hg, Option.map_some, hclip name hg]

/-- A name that can be saved. -/
def Savable (name : CStr) : Prop := name.length < 200 ∧ Visible name

theorem Saves.add (husern : usern < 2 ^ 31) (h : Saves husern 20 conf names) (hname : Savable name)
    (hnew : name ∉ names) (hroom : names.length < 20) :
    ∃ conf', addconfigchannel usern name conf = some conf' ∧ Saves husern 20 conf' (name :: names) := by
  rcases h.slots with ⟨g, hslots, hnumbers⟩
  rcases hnumbers.exists_free hroom with ⟨n, hn, hfree, hused⟩
  have hno : ((List.range 20).any fun i => (intchanSlot usern conf i).any fun value => strmcmp value name) =
      false := by
    rw [List.any_eq_false]
    intro i hi hany
    rw [Option.any_eq_true] at hany
    rcases hany with ⟨value, hvalue, hsame⟩
    rw [strmcmp_iff] at hsame
    rw [hsame, intchanSlot_some husern hslots hnumbers h.short (List.mem_range.1 hi)] at hvalue
    exact hnew ((hnumbers.mem_iff name).2 ⟨i, hvalue⟩)
  have hn' : n < 256 := Nat.lt_trans hn (by decide)
  have hdata : ∀ d, some name = some d → d.length < 1800 ∧ Visible d := by
    intro d hd
    cases hd
    exact ⟨Nat.lt_trans hname.1 (by decide), hname.2⟩
  rcases hslots.countconfentries hn' hfree hused with ⟨cnt, hcount⟩
  rcases hslots.writeini hn' (some name) hdata with ⟨conf', hwrite, hslots'⟩
  refine ⟨conf', ?_, ⟨_, hslots', hnumbers.insert hn hfree hnew⟩, List.nodup_cons.2 ⟨hnew, h.nodup⟩, ?_⟩
  · have hformat : clip 100 (ascii "ENTRY%d") = ascii "ENTRY%d" := by decide
    rw [hformat] at hcount
    rw [addconfigchannel, hno, if_neg Bool.false_ne_true, clip_userFile husern]
    have hcount' : countconfentries INTCHANS (ascii "ENTRY%d") (userFile usern) conf = some (cnt, n) := hcount
    rw [hcount', Option.bind_some, intchanEntry_eq hn']
    exact hwrite
  · intro d hd
    rcases List.mem_cons.1 hd with rfl | hd
    · exact hname.1
    · exact h.short d hd

theorem Saves.remove (husern : usern < 2 ^ 31) (h : Saves husern 20 conf names) (hname : name ∈ names) :
    ∃ conf', removeconfigchannel usern name conf = some conf' ∧ Saves husern 20 conf' (names.erase name) := by
  rcases h.slots with ⟨g, hslots, hnumbers⟩
  rcases (hnumbers.mem_iff name).1 hname with ⟨i, hi⟩
  have hlt := hnumbers.lt i name hi
  have hhit : ∀ j < 20, ((intchanSlot usern conf j).any fun value => strmcmp name value) = true ↔ j = i := by
    intro j hj
    rw [Option.any_eq_true]
    constructor
    · rintro ⟨value, hvalue, hsame⟩
      rw [strmcmp_iff] at hsame
      rw [← hsame, intchanSlot_some husern hslots hnumbers h.short hj] at hvalue
      exact hnumbers.once j i name hvalue hi
    · rintro rfl
      exact ⟨name, (intchanSlot_some husern hslots hnumbers h.short hj).2 hi, strmcmp_iff.2 rfl⟩
  have hfind : ((List.range 20).find? fun j =>
      (intchanSlot usern conf j).any fun value => strmcmp name value) = some i := by
    cases hf : (List.range 20).find? fun j =>
        (intchanSlot usern conf j).any fun value => strmcmp name value with
    | none =>
        have hnone := List.find?_eq_none.1 hf i (List.mem_range.2 hlt)
        exact absurd ((hhit i hlt).2 rfl) hnone
    | some j =>
        have hj := List.mem_range.1 (List.mem_of_find?_eq_some hf)
        have hp := List.find?_some hf
        rw [(hhit j hj).1 hp]
  have hi' : i < 256 := Nat.lt_trans hlt (by decide)
  rcases hslots.writeini hi' none (fun d hd => by cases hd) with ⟨conf', hwrite, hslots'⟩
  refine ⟨conf', ?_, ⟨_, hslots', hnumbers.erase h.nodup hi⟩, h.nodup.erase name, ?_⟩
  · rw [removeconfigchannel, hfind]
    simp only
    rw [intchanEntry_eq hi', clip_userFile husern]
    exact hwrite
  · exact fun d hd => h.short d (List.mem_of_mem_erase hd)

/-! ## Lines of other sections -/

/-- The one thing that becomes of the configuration: an entry of the user's section is written or deleted. -/
def TouchesSection (usern : Nat) (conf conf' : Conf) : Prop :=
  conf' = conf ∨ ∃ i < 256, ∃ data, writeini INTCHANS (listEntry i) (userFile usern) data conf = some conf'

/-- The entries in the sections of saved channels have numbers that `countconfentries` can mark. -/
def EntriesNumbered (conf : Conf) : Prop :=
  ∀ (v : Nat) (hv : v < 2 ^ 31), ∀ e ∈ conf, (intchanName hv).entryLit <+: e →
    ∃ i d, i < 256 ∧ e = numberedLine (intchanName hv).entryLit i d

theorem addconfigchannel_touches (name : CStr) (husern : usern < 2 ^ 31) (hcounted : EntriesNumbered conf)
    (hne : conf ≠ []) :
    ∃ conf', addconfigchannel usern name conf = some conf' ∧ TouchesSection usern conf conf' := by
  rw [addconfigchannel, clip_userFile husern]
  split
  · exact ⟨conf, rfl, Or.inl rfl⟩
  · rcases countLoop_numbered (hcounted usern husern) 0 [] with ⟨found, hfound, _⟩
    have hcount : countconfentries INTCHANS (ascii "ENTRY%d") (userFile usern) conf =
        some (found.1, firstFree found.2) := by
      have hformat : clip 100 (ascii "ENTRY%d") = ascii "ENTRY%d" := by decide
      have hscan := (intchanName husern).countFormat
      rw [hformat] at hscan
      have hscan' : scanFormat (clip 256 (userFile usern ++ DOT :: (INTCHANS ++ DOT ::
          (ascii "ENTRY%d" ++ ascii "=%255s")))) = numberedFormat (intchanName husern).entryLit := hscan
      rw [countconfentries, hscan', hfound, Option.map_some]
    have hfree := firstFree_lt found.2
    rw [hcount, Option.bind_some, intchanEntry_eq hfree]
    cases hwrite : writeini INTCHANS (listEntry (firstFree found.2)) (userFile usern) (some name) conf with
    | none =>
        exact absurd (writeini_eq_none_iff.1 hwrite).1 hne
    | some conf' =>
        exact ⟨conf', rfl, Or.inr ⟨_, hfree, _, hwrite⟩⟩

theorem removeconfigchannel_touches (name : CStr) (husern : usern < 2 ^ 31) (hne : conf ≠ []) :
    ∃ conf', removeconfigchannel usern name conf = some conf' ∧ TouchesSection usern conf conf' := by
  rw [removeconfigchannel, clip_userFile husern]
  split
  · exact ⟨conf, rfl, Or.inl rfl⟩
  · rename_i i hfind
    have hi : i < 256 := by
      have hmem := List.mem_range.1 (List.mem_of_find?_eq_some hfind)
      omega
    rw [intchanEntry_eq hi]
    cases hwrite : writeini INTCHANS (listEntry i) (userFile usern) none conf with
    | none =>
        exact absurd (writeini_eq_none_iff.1 hwrite).1 hne
    | some conf' =>
        exact ⟨conf', rfl, Or.inr ⟨i, hi, none, hwrite⟩⟩

/-- Some line is in no section of saved channels. -/
def OtherLine (conf : Conf) : Prop := ∃ e ∈ conf, ∀ v, ¬ sectionText (userFile v) INTCHANS <+: e

/-- What is taken away and what is put in have the start of their section. -/
theorem touches_lines {param : CStr} {data : Option CStr} (husern : usern < 2 ^ 31)
    (h : writeini INTCHANS param (userFile usern) data conf = some conf') :
    ∃ l₁ old l₂, conf = l₁ ++ old ++ l₂ ∧
      conf' = l₁ ++ (newLine INTCHANS param (userFile usern) data).toList ++ l₂ ∧
      ∀ e ∈ old ++ (newLine INTCHANS param (userFile usern) data).toList,
        sectionText (userFile usern) INTCHANS <+: e := by
  have hclip : clip 200 (sectionText (userFile usern) INTCHANS) = sectionText (userFile usern) INTCHANS :=
    (intchanName husern).clip_pattern
  have hlen : (sectionText (userFile usern) INTCHANS).length < 101 := (intchanName husern).length_pattern_lt
  rcases writeini_written h with ⟨l₁, old, l₂, hconf, hconf', _, hold⟩
  refine ⟨l₁, old, l₂, hconf, hconf', fun e he => ?_⟩
  rcases List.mem_append.1 he with he | he
  · rcases hold with ⟨e', rfl, hhit⟩ | ⟨rfl, _⟩
    · rw [List.mem_singleton] at he
      rw [he, ← hclip]
      exact hhit.1
    · cases he
  · rw [Option.mem_toList, newLine, Option.map_eq_some_iff] at he
    rcases he with ⟨d, _, rfl⟩
    have hentry : sectionText (userFile usern) INTCHANS <+: entryText (userFile usern) INTCHANS param := by
      refine ⟨param ++ [EQUALS], ?_⟩
      simp [sectionText, entryText]
    have hclipped : sectionText (userFile usern) INTCHANS <+:
        clip 200 (entryText (userFile usern) INTCHANS param) := by
      rw [clip, List.prefix_take_iff]
      exact ⟨hentry, by omega⟩
    rw [iniLine, clip, List.prefix_take_iff]
    exact ⟨hclipped.trans (List.prefix_append _ _), by omega⟩

theorem OtherLine.touched (husern : usern < 2 ^ 31) (h : OtherLine conf) (htouch : TouchesSection usern conf conf') :
    OtherLine conf' := by
  rcases htouch with rfl | ⟨i, _, data, hwrite⟩
  · exact h
  · rcases h with ⟨e, he, hapart⟩
    rcases touches_lines husern hwrite with ⟨l₁, old, l₂, rfl, rfl, hlines⟩
    refine ⟨e, ?_, hapart⟩
    rw [List.append_assoc, List.mem_append, List.mem_append] at he ⊢
    rcases he with he | he | he
    · exact Or.inl he
    · exact absurd (hlines e (List.mem_append_left _ he)) (hapart usern)
    · exact Or.inr (Or.inr he)

theorem sectionText_other {v : Nat} (hne : v ≠ usern) {e : CStr} (h : sectionText (userFile v) INTCHANS <+: e) :
    ¬ sectionText (userFile usern) INTCHANS <+: e := by
  rintro ⟨t, ht⟩
  rcases h with ⟨t', ht'⟩
  rw [← ht, sectionText, sectionText, List.append_assoc, List.append_assoc, List.cons_append,
    List.cons_append] at ht'
  have hfile := (append_cons_inj_of_notMem (plain_userFile v).2 (plain_userFile usern).2 ht').1
  exact hne (dec_injective (List.append_cancel_left hfile))

theorem EntriesNumbered.touched (husern : usern < 2 ^ 31) (h : EntriesNumbered conf)
    (htouch : TouchesSection usern conf conf') : EntriesNumbered conf' := by
  rcases htouch with rfl | ⟨i, hi, data, hwrite⟩
  · exact h
  · rcases touches_lines husern hwrite with ⟨l₁, old, l₂, rfl, rfl, hlines⟩
    intro v hv e he hlit
    rw [List.append_assoc, List.mem_append, List.mem_append] at he
    have hold : e ∈ l₁ ++ old ++ l₂ → ∃ i d, i < 256 ∧ e = numberedLine (intchanName hv).entryLit i d :=
      fun hmem => h v hv e hmem hlit
    rcases he with he | he | he
    · exact hold (by simp [he])
    · have hsect := hlines e (List.mem_append_right _ he)
      have hsame : v = usern := by
        by_contra hne
        have hpre : sectionText (userFile v) INTCHANS <+: e := (List.prefix_append _ _).trans hlit
        exact sectionText_other hne hpre hsect
      subst hsame
      rw [Option.mem_toList, newLine, Option.map_eq_some_iff] at he
      rcases he with ⟨d, _, rfl⟩
      refine ⟨i, d.take (2047 - (entryText (userFile v) INTCHANS (listEntry i)).length), hi, ?_⟩
      have hshort : (entryText (userFile v) INTCHANS (listEntry i)).length < 200 :=
        (intchanName husern).length_entryText_lt hi
      have hentry : ∀ d, numberedLine (intchanName husern).entryLit i d =
          entryText (userFile v) INTCHANS (listEntry i) ++ d := by
        intro d
        rw [ListName.listEntry_eq hi]
        simp [numberedLine, ListName.entryLit, ListName.pattern, intchanName, sectionText, entryText]
      rw [hentry, iniLine, clip_eq_self hshort, clip, List.take_append, List.take_of_length_le (by omega)]
    · exact hold (by simp [he])

/-- The lines of another user do not matter. -/
theorem Saves.frame (husern : usern < 2 ^ 31) {n : Nat} (h : Saves husern n conf names) {v : Nat}
    (hv : v < 2 ^ 31) (hne : v ≠ usern) (hapart : OtherLine conf) (htouch : TouchesSection v conf conf') :
    Saves husern n conf' names := by
  rcases hapart.touched hv htouch with ⟨e, he, hother⟩
  rcases htouch with rfl | ⟨i, _, data, hwrite⟩
  · exact h
  · rcases touches_lines hv hwrite with ⟨l₁, old, l₂, hconf, hconf', hlines⟩
    rcases h.slots with ⟨g, hslots, hnumbers⟩
    have hdrop : ∀ l : Conf, (∀ e ∈ l, e ∈ old ++ (newLine INTCHANS (listEntry i) (userFile v) data).toList) →
        l.filter (fun e => decide ((intchanName husern).pattern <+: e)) = [] := by
      intro l hl
      rw [List.filter_eq_nil_iff]
      intro e he
      rw [decide_eq_true_iff]
      exact sectionText_other hne (hlines e (hl e he))
    have hfilter : conf'.filter (fun e => decide ((intchanName husern).pattern <+: e)) =
        conf.filter fun e => decide ((intchanName husern).pattern <+: e) := by
      rw [hconf, hconf', List.filter_append, List.filter_append, List.filter_append, List.filter_append,
        hdrop old fun e he => List.mem_append_left _ he, hdrop _ fun e he => List.mem_append_right _ he]
    refine ⟨⟨g, ⟨⟨e, he, hother usern⟩, ?_, fun e => ?_, hslots.texts⟩, hnumbers⟩, h.nodup, h.short⟩
    · rw [hfilter]
      exact hslots.once
    · have hmem : ∀ l : Conf, e ∈ l ∧ (intchanName husern).pattern <+: e ↔
          e ∈ l.filter fun e => decide ((intchanName husern).pattern <+: e) := by
        intro l
        rw [List.mem_filter, decide_eq_true_iff]
      rw [hmem, hfilter, ← hmem]
      exact hslots.lines e

/-! ## What is saved, and what is joined again -/

/-- The lines of the section have these names, each one once. -/
theorem Saves.savedNames_perm (husern : usern < 2 ^ 31) {n : Nat} (h : Saves husern n conf names) :
    (savedNames usern conf).Perm names := by
  rcases h.slots with ⟨g, hslots, hnumbers⟩
  have hline : ∀ i d, (afterPrefix (sectionText (userFile usern) INTCHANS) ((intchanName husern).line i d)).bind
      (fun r => (cutAt EQUALS r).map Prod.snd) = some d := by
    intro i d
    have htext : (intchanName husern).line i d =
        sectionText (userFile usern) INTCHANS ++ ((ascii "ENTRY" ++ dec i) ++ EQUALS :: d) := by
      simp [ListName.line, numberedLine, ListName.entryLit, ListName.pattern, intchanName]
    have hno : EQUALS ∉ ascii "ENTRY" ++ dec i := by
      rw [List.mem_append, not_or]
      exact ⟨by decide, notMem_dec (by decide)⟩
    rw [htext, afterPrefix_append, Option.bind_some, cutAt_append hno]
    rfl
  have hread : ∀ e ∈ conf, ∀ d, (afterPrefix (sectionText (userFile usern) INTCHANS) e).bind
      (fun r => (cutAt EQUALS r).map Prod.snd) = some d → ∃ i, g i = some d ∧ e = (intchanName husern).line i d := by
    intro e he d hd
    cases hafter : afterPrefix (sectionText (userFile usern) INTCHANS) e with
    | none =>
        rw [hafter] at hd
        cases hd
    | some r =>
        have hpre : (intchanName husern).pattern <+: e := ⟨r, (afterPrefix_eq_some.1 hafter).symm⟩
        rcases (hslots.lines e).1 ⟨he, hpre⟩ with ⟨i, d', hi, rfl⟩
        rw [hline] at hd
        cases hd
        exact ⟨i, hi, rfl⟩
  apply (List.perm_ext_iff_of_nodup ?_ h.nodup).2
  · intro d
    rw [savedNames, List.mem_filterMap, hnumbers.mem_iff]
    constructor
    · rintro ⟨e, he, hd⟩
      rcases hread e he d hd with ⟨i, hi, _⟩
      exact ⟨i, hi⟩
    · rintro ⟨i, hi⟩
      exact ⟨_, hslots.mem_line.2 hi, hline i d⟩
  · rw [savedNames, List.nodup_iff_pairwise_ne, List.pairwise_filterMap]
    have honce := hslots.once
    rw [List.nodup_iff_pairwise_ne, List.pairwise_filter] at honce
    refine honce.imp_of_mem fun {a b} ha hb hab d hd d' hd' => ?_
    rcases hread a ha d hd with ⟨i, hi, rfl⟩
    rcases hread b hb d' hd' with ⟨j, hj, rfl⟩
    rintro rfl
    cases hnumbers.once i j d hi hj
    have hpre := decide_eq_true ((intchanName husern).pattern_prefix_line i d)
    exact hab hpre hpre rfl

/-- A channel name in a request. -/
structure JoinWord (name : CStr) : Prop where
  sign : name.head? = some CHANSIGN
  blank : SP ∉ name
  comma : COMMA ∉ name
  short : name.length < 200

theorem JoinWord.savable (h : JoinWord name) : Savable name := by
  refine ⟨h.short, CHANSIGN, ?_, by decide⟩
  exact List.mem_of_mem_head? h.sign

theorem JoinWord.joinTarget (h : JoinWord name) : joinTarget name = some name := by
  rw [PsyBnc.joinTarget, cutAt_eq_none.2 h.blank]
  simp only [Option.map_none, Option.getD_none]
  rw [cutAt_eq_none.2 h.comma]
  simp only [Option.map_none, Option.getD_none]
  rw [clip_eq_self h.short, if_pos h.sign]

/-- All names are tried to join again, each once. -/
theorem Saves.rejoin_perm (husern : usern < 2 ^ 31) (h : Saves husern 20 conf names)
    (hwords : ∀ name ∈ names, JoinWord name) (client : Clientt) (key : CStr) (channels : List Uchannelt) :
    (rejoinintchannels usern client key conf channels).2.Perm names := by
  rcases h.slots with ⟨g, hslots, hnumbers⟩
  have htried : (rejoinintchannels usern client key conf channels).2 = (List.range 20).filterMap g := by
    apply List.filterMap_congr
    intro i hi
    have hi' := List.mem_range.1 hi
    rw [intchanSlot_eq husern hslots (Nat.lt_trans hi' (by decide))]
    cases hg : g i with
    | none =>
        rfl
    | some name =>
        have hname := hwords name ((hnumbers.mem_iff name).2 ⟨i, hg⟩)
        rw [Option.map_some, clip_eq_self hname.short, Option.bind_some, hname.joinTarget]
  rw [htried]
  apply (List.perm_ext_iff_of_nodup ?_ h.nodup).2
  · intro name
    rw [List.mem_filterMap, hnumbers.mem_iff]
    constructor
    · rintro ⟨i, _, hi⟩
      exact ⟨i, hi⟩
    · rintro ⟨i, hi⟩
      exact ⟨i, List.mem_range.2 (hnumbers.lt i name hi), hi⟩
  · apply List.Nodup.filterMap
    · intro i j name hi hj
      exact hnumbers.once i j name hi hj
    · exact List.nodup_range

end Config

end PsyBnc
