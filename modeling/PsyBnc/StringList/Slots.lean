import PsyBnc.StringList.Persist

/-!
# The entries of a section, one by one

`Slots f conf g`: the section of the list `f` holds the entries `g`, by number, and nothing else.  Any
entry can be looked up, written and deleted by its number; the entries need not be without gaps.
-/

namespace PsyBnc

open CLib

structure Slots (f : ListName) (conf : Conf) (g : Nat → Option CStr) : Prop where
  /-- There are other lines. -/
  other : ∃ e ∈ conf, ¬ f.pattern <+: e
  once : (conf.filter fun e => decide (f.pattern <+: e)).Nodup
  lines : ∀ e, e ∈ conf ∧ f.pattern <+: e ↔ ∃ i d, g i = some d ∧ e = f.line i d
  texts : ∀ i d, g i = some d → i < 256 ∧ d.length < 1800 ∧ Visible d

section Slots

variable {f : ListName} {conf conf' : Conf} {g : Nat → Option CStr} {i : Nat} {d : CStr}

theorem Slots.mem_line (h : Slots f conf g) : f.line i d ∈ conf ↔ g i = some d := by
  constructor
  · intro hmem
    rcases (h.lines _).1 ⟨hmem, f.pattern_prefix_line i d⟩ with ⟨j, d', hj, heq⟩
    rcases numberedLine_injective heq with ⟨rfl, rfl⟩
    exact hj
  · intro hi
    exact ((h.lines _).2 ⟨i, d, hi, rfl⟩).1

/-- A line under the key of an entry is the line of that entry. -/
theorem Slots.line_of_key (h : Slots f conf g) (hi : i < 256) {e : CStr} (he : e ∈ conf)
    (hkey : keyOf e = some (f.key hi).text) : ∃ d, g i = some d ∧ e = f.line i d := by
  rcases (h.lines e).1 ⟨he, f.pattern_prefix_of_keyOf hi hkey⟩ with ⟨j, d, hj, rfl⟩
  rcases (prefix_iff_keyOf (f.key hi).equals_notMem_text _).2 hkey with ⟨r, hr⟩
  have hsame : f.line j d = f.line i r := by
    rw [f.line_eq hi, ← hr]
    simp
  rcases numberedLine_injective hsame with ⟨rfl, rfl⟩
  exact ⟨d, hj, rfl⟩

/-- An entry is found as far as it fits `value[200]`. -/
theorem Slots.getini (h : Slots f conf g) (hi : i < 256) :
    getini f.sect (listEntry i) f.file conf = (g i).map (clip 200) := by
  have hlook : PsyBnc.getini f.sect (listEntry i) f.file conf = conf.findSome? (valueAt (f.key hi)) :=
    lookup_eq conf (f.key hi)
  have hline : ∀ e ∈ conf, valueAt (f.key hi) e = none ∨ ∃ d, g i = some d ∧ e = f.line i d := by
    intro e he
    by_cases hkey : keyOf e = some (f.key hi).text
    · exact Or.inr (h.line_of_key hi he hkey)
    · exact Or.inl (valueAt_eq_none_iff.2 hkey)
  rw [hlook]
  cases hget : g i with
  | none =>
      rw [Option.map_none, List.findSome?_eq_none_iff]
      intro e he
      rcases hline e he with hnone | ⟨d, hd, _⟩
      · exact hnone
      · rw [hget] at hd
        cases hd
  | some d =>
      have hvalue : valueAt (f.key hi) (f.line i d) = some (clip 200 d) := by
        rw [f.line_eq hi, valueAt_line]
      cases hfind : conf.findSome? (valueAt (f.key hi)) with
      | none =>
          have hno := List.findSome?_eq_none_iff.1 hfind _ (h.mem_line.2 hget)
          rw [hvalue] at hno
          cases hno
      | some v =>
          rcases List.exists_of_findSome?_eq_some hfind with ⟨e, he, hv⟩
          rcases hline e he with hnone | ⟨d', hd', rfl⟩
          · rw [hnone] at hv
            cases hv
          · cases hget.symm.trans hd'
            rw [← hv, hvalue, Option.map_some]

/-- Lines that are left when the line of an entry is taken away have other keys. -/
theorem Slots.others (h : Slots f conf g) (hi : i < 256) {l₁ old l₂ : Conf} (hconf : conf = l₁ ++ old ++ l₂)
    (hl₁ : ∀ e ∈ l₁, keyOf e ≠ some (f.key hi).text)
    (hold : (∃ e, old = [e] ∧ keyOf e = some (f.key hi).text) ∨
      (old = [] ∧ ∀ e ∈ l₂, keyOf e ≠ some (f.key hi).text)) :
    ∀ e ∈ l₁ ++ l₂, keyOf e ≠ some (f.key hi).text := by
  intro e he hkey
  rcases List.mem_append.1 he with hfirst | hsecond
  · exact hl₁ e hfirst hkey
  · rcases hold with ⟨e', rfl, hkey'⟩ | ⟨_, hl₂⟩
    · -- Both lines have the key, so they are the same line, twice.
      have hmem : e ∈ conf := by
        rw [hconf]
        exact List.mem_append_right _ hsecond
      have hmem' : e' ∈ conf := by
        rw [hconf]
        simp
      rcases h.line_of_key hi hmem hkey with ⟨d, hd, rfl⟩
      rcases h.line_of_key hi hmem' hkey' with ⟨d', hd', rfl⟩
      cases hd.symm.trans hd'
      have honce := h.once
      rw [hconf, List.filter_append, List.nodup_append] at honce
      refine honce.2.2 _ ?_ _ (List.mem_filter.2 ⟨hsecond, ?_⟩) rfl
      · rw [List.filter_append]
        refine List.mem_append_right _ (List.mem_filter.2 ⟨List.mem_singleton_self _, ?_⟩)
        simpa using f.pattern_prefix_line i d
      · simpa using f.pattern_prefix_line i d
    · exact hl₂ e hsecond hkey

theorem newLine_entry (hi : i < 256) {data : Option CStr}
    (hdata : ∀ d, data = some d → d.length < 1800 ∧ Visible d) :
    newLine f.sect (listEntry i) f.file data = data.map (f.line i) := by
  cases data with
  | none => rfl
  | some d =>
      rcases hdata d rfl with ⟨hlength, b, hb, _⟩
      rw [newLine, dataPtr_some (List.ne_nil_of_mem hb), Option.map_some, Option.map_some, f.line_eq hi]
      exact congrArg some (iniLine_eq (f.key hi) hlength)

/-- The new line stands between lines under other keys, and these are all that there were. -/
theorem Slots.written (h : Slots f conf g) (hi : i < 256) {data : Option CStr}
    (hdata : ∀ d, data = some d → d.length < 1800 ∧ Visible d)
    (hw : writeini f.sect (listEntry i) f.file data conf = some conf') :
    ∃ l₁ l₂, conf' = l₁ ++ (data.map (f.line i)).toList ++ l₂ ∧ (l₁ ++ l₂).Sublist conf ∧
      ∀ e, e ∈ l₁ ++ l₂ ↔ e ∈ conf ∧ keyOf e ≠ some (f.key hi).text := by
  rcases writeini_written hw with ⟨l₁, old, l₂, hconf, hconf', hl₁, hold⟩
  rw [newLine_entry hi hdata] at hconf'
  have hkeys : ∀ e ∈ l₁ ++ l₂, keyOf e ≠ some (f.key hi).text := by
    apply h.others hi hconf
    · exact fun e he hkey => hl₁ e he ((iniHit_iff (f.key hi)).2 hkey)
    · rcases hold with ⟨e, hone, he⟩ | ⟨hnil, hl₂⟩
      · exact Or.inl ⟨e, hone, (iniHit_iff (f.key hi)).1 he⟩
      · exact Or.inr ⟨hnil, fun e he hkey => hl₂ e he ((iniHit_iff (f.key hi)).2 hkey)⟩
  have hgone : ∀ e ∈ old, keyOf e = some (f.key hi).text := by
    intro e he
    rcases hold with ⟨e', rfl, hhit⟩ | ⟨rfl, _⟩
    · rw [List.mem_singleton.1 he]
      exact (iniHit_iff (f.key hi)).1 hhit
    · cases he
  have hpart : (l₁ ++ l₂).Sublist conf := by
    rw [hconf, List.append_assoc]
    exact (List.Sublist.refl l₁).append (List.sublist_append_right old l₂)
  refine ⟨l₁, l₂, hconf', hpart, fun e => ⟨fun he => ⟨hpart.subset he, hkeys e he⟩, ?_⟩⟩
  rintro ⟨he, hkey⟩
  rw [hconf] at he
  rcases List.mem_append.1 he with hleft | hsecond
  · rcases List.mem_append.1 hleft with hfirst | hmid
    · exact List.mem_append_left _ hfirst
    · exact absurd (hgone e hmid) hkey
  · exact List.mem_append_right _ hsecond

theorem mem_around {l₁ l₂ : Conf} {o : Option CStr} {e : CStr} :
    e ∈ l₁ ++ o.toList ++ l₂ ↔ e ∈ l₁ ++ l₂ ∨ o = some e := by
  simp only [List.mem_append, Option.mem_toList]
  exact or_right_comm

/-- Under the key of the entry there is one line at most. -/
theorem Slots.once_written (h : Slots f conf g) (hi : i < 256) {l₁ l₂ : Conf} (data : Option CStr)
    (hpart : (l₁ ++ l₂).Sublist conf) (hkeys : ∀ e ∈ l₁ ++ l₂, keyOf e ≠ some (f.key hi).text) :
    ((l₁ ++ (data.map (f.line i)).toList ++ l₂).filter fun e => decide (f.pattern <+: e)).Nodup := by
  have hleft := List.Nodup.sublist (hpart.filter fun e => decide (f.pattern <+: e)) h.once
  rw [List.filter_append] at hleft
  rw [List.append_assoc, List.filter_append, List.filter_append]
  cases data with
  | none =>
      exact hleft
  | some d =>
      have hnew : f.line i d ∉ l₁ ++ l₂ := fun hin => hkeys _ hin (f.keyOf_line hi d)
      have hpre : decide (f.pattern <+: f.line i d) = true := by
        simpa using f.pattern_prefix_line i d
      have hone : ([f.line i d].filter fun e => decide (f.pattern <+: e)) = [f.line i d] :=
        List.filter_cons_of_pos hpre
      rw [Option.map_some, Option.toList_some, hone, List.singleton_append, List.nodup_middle, List.nodup_cons,
        List.mem_append]
      refine ⟨?_, hleft⟩
      rintro (hin | hin)
      · exact hnew (List.mem_append_left _ (List.mem_filter.1 hin).1)
      · exact hnew (List.mem_append_right _ (List.mem_filter.1 hin).1)

/-- The lines of the other entries and the new one are the lines of the entries now. -/
theorem Slots.lines_written (h : Slots f conf g) (hi : i < 256) (data : Option CStr) (e : CStr) :
    ((e ∈ conf ∧ keyOf e ≠ some (f.key hi).text) ∨ data.map (f.line i) = some e) ∧ f.pattern <+: e ↔
      ∃ j d, Function.update g i data j = some d ∧ e = f.line j d := by
  constructor
  · rintro ⟨⟨he, hkey⟩ | hnew, hpre⟩
    · rcases (h.lines e).1 ⟨he, hpre⟩ with ⟨j, d, hj, rfl⟩
      refine ⟨j, d, ?_, rfl⟩
      rw [Function.update_of_ne _ _ _, hj]
      rintro rfl
      exact hkey (f.keyOf_line hi d)
    · rcases Option.map_eq_some_iff.1 hnew with ⟨d, hd, rfl⟩
      exact ⟨i, d, by rw [Function.update_self, hd], rfl⟩
  · rintro ⟨j, d, hj, rfl⟩
    refine ⟨?_, f.pattern_prefix_line j d⟩
    by_cases hji : j = i
    · subst hji
      rw [Function.update_self] at hj
      exact Or.inr (Option.map_eq_some_iff.2 ⟨d, hj, rfl⟩)
    · rw [Function.update_of_ne hji] at hj
      refine Or.inl ⟨h.mem_line.2 hj, fun hkey => ?_⟩
      rcases h.line_of_key hi (h.mem_line.2 hj) hkey with ⟨d', _, hsame⟩
      exact hji (numberedLine_injective hsame).1

/-- One entry is written or deleted. -/
theorem Slots.writeini (h : Slots f conf g) (hi : i < 256) (data : Option CStr)
    (hdata : ∀ d, data = some d → d.length < 1800 ∧ Visible d) :
    ∃ conf', writeini f.sect (listEntry i) f.file data conf = some conf' ∧
      Slots f conf' (Function.update g i data) := by
  have hne : conf ≠ [] := by
    rcases h.other with ⟨e, he, _⟩
    exact List.ne_nil_of_mem he
  cases hw : PsyBnc.writeini f.sect (listEntry i) f.file data conf with
  | none =>
      exact absurd (writeini_eq_none_iff.1 hw).1 hne
  | some conf' =>
      rcases h.written hi hdata hw with ⟨l₁, l₂, rfl, hpart, hrest⟩
      refine ⟨_, rfl, ?_, h.once_written hi data hpart fun e he => ((hrest e).1 he).2, ?_, ?_⟩
      · rcases h.other with ⟨e, he, hpre⟩
        refine ⟨e, mem_around.2 (Or.inl ((hrest e).2 ⟨he, fun hkey => ?_⟩)), hpre⟩
        exact hpre (f.pattern_prefix_of_keyOf hi hkey)
      · intro e
        rw [mem_around, hrest]
        exact h.lines_written hi data e
      · intro j d hj
        by_cases hji : j = i
        · subst hji
          rw [Function.update_self] at hj
          exact ⟨hi, hdata d hj⟩
        · rw [Function.update_of_ne hji] at hj
          exact h.texts j d hj

/-- The number for a new entry is the first one without an entry. -/
theorem Slots.countconfentries (h : Slots f conf g) {n : Nat} (hn : n < 256) (hfree : g n = none)
    (hused : ∀ i < n, (g i).isSome = true) :
    ∃ cnt, countconfentries f.sect (clip 100 (ascii "ENTRY%d")) f.file conf = some (cnt, n) := by
  have hlines : ∀ e ∈ conf, f.entryLit <+: e → ∃ i d, i < 256 ∧ e = numberedLine f.entryLit i d := by
    intro e he hlit
    have hpattern : f.pattern <+: e := (List.prefix_append _ _).trans hlit
    rcases (h.lines e).1 ⟨he, hpattern⟩ with ⟨i, d, hi, rfl⟩
    exact ⟨i, d, (h.texts i d hi).1, rfl⟩
  rcases countLoop_numbered hlines 0 [] with ⟨found, hfound, hmarked⟩
  have hfirst : firstFree found.2 = n := by
    apply firstFree_eq hn
    · intro hmem
      rcases (hmarked _).1 hmem with hnil | ⟨_, d, _, hline⟩
      · cases hnil
      · cases hfree.symm.trans (h.mem_line.1 hline)
    · intro m hm
      rcases Option.isSome_iff_exists.1 (hused m hm) with ⟨d, hd⟩
      rcases h.texts m d hd with ⟨hlt, _, hvis⟩
      exact (hmarked m).2 (Or.inr ⟨hlt, d, hvis, h.mem_line.2 hd⟩)
  refine ⟨found.1, ?_⟩
  rw [PsyBnc.countconfentries, f.countFormat, hfound, Option.map_some, hfirst]

end Slots

end PsyBnc
