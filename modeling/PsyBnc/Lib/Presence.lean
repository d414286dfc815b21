import Mathlib.Data.List.Nodup
import Mathlib.Data.Set.Insert
import Mathlib.Data.Set.Image

/-!
# Who is where

A table of lists holds a family of sets: each row has a key and the members of its set, and a key without row has
none.  `Presence` is a world of names that come to places and leave them; `me` is told of the places where it is
itself, and of those who were there before it only when it is told so.
-/

namespace CLib

variable {κ ν : Type} [DecidableEq κ] [DecidableEq ν]

/-! ## Tables of sets -/

abbrev Rows (κ ν : Type) := List (κ × List ν)

/-- The rows hold the family `f`. -/
structure Tabulates (f : κ → Set ν) (rows : Rows κ ν) : Prop where
  keys : (rows.map Prod.fst).Nodup
  nodup : ∀ r ∈ rows, r.2.Nodup
  mem : ∀ r ∈ rows, ∀ n, n ∈ r.2 ↔ n ∈ f r.1
  here : ∀ c, (f c).Nonempty → c ∈ rows.map Prod.fst

namespace Rows

def each (g : κ → List ν → List ν) (rows : Rows κ ν) : Rows κ ν := rows.map fun r => (r.1, g r.1 r.2)

def onRow (c : κ) (g : List ν → List ν) (rows : Rows κ ν) : Rows κ ν :=
  each (fun k ns => if k = c then g ns else ns) rows

def without (c : κ) (rows : Rows κ ν) : Rows κ ν := rows.filter fun r => r.1 ≠ c

/-- The rows that have members. -/
def filled (rows : Rows κ ν) : Rows κ ν := rows.filter fun r => r.2 ≠ []

omit [DecidableEq κ] [DecidableEq ν] in
@[simp] theorem map_fst_each (g : κ → List ν → List ν) (rows : Rows κ ν) :
    (each g rows).map Prod.fst = rows.map Prod.fst := by
  rw [each, List.map_map]
  rfl

omit [DecidableEq ν] in
theorem onRow_onRow (c : κ) (g g' : List ν → List ν) (rows : Rows κ ν) :
    onRow c g' (onRow c g rows) = onRow c (fun ns => g' (g ns)) rows := by
  rw [onRow, onRow, onRow, each, each, each, List.map_map]
  apply List.map_congr_left
  intro r _
  by_cases hr : r.1 = c
  · simp only [Function.comp_apply, if_pos hr]
  · simp only [Function.comp_apply, if_neg hr]

end Rows

/-- A name is put at the end, unless it is there. -/
def enlist (ns : List ν) (n : ν) : List ν := if n ∈ ns then ns else ns ++ [n]

theorem mem_enlist {ns : List ν} {n k : ν} : k ∈ enlist ns n ↔ k = n ∨ k ∈ ns := by
  rw [enlist]
  split
  · next h =>
    constructor
    · exact Or.inr
    · rintro (rfl | hk)
      · exact h
      · exact hk
  · rw [List.mem_append, List.mem_singleton, or_comm]

theorem nodup_enlist {ns : List ν} {n : ν} (h : ns.Nodup) : (enlist ns n).Nodup := by
  rw [enlist]
  split
  · exact h
  · next hn =>
    apply List.nodup_append.2
    refine ⟨h, List.nodup_singleton n, ?_⟩
    rintro k hk m hm rfl
    exact hn (List.mem_singleton.1 hm ▸ hk)

theorem mem_foldl_enlist {ms : List ν} {k : ν} :
    ∀ {ns : List ν}, k ∈ ms.foldl enlist ns ↔ k ∈ ms ∨ k ∈ ns := by
  induction ms with
  | nil =>
      simp
  | cons m ms ih =>
      intro ns
      rw [List.foldl_cons, ih, mem_enlist, List.mem_cons]
      tauto

theorem nodup_foldl_enlist {ms : List ν} : ∀ {ns : List ν}, ns.Nodup → (ms.foldl enlist ns).Nodup := by
  induction ms with
  | nil =>
      exact id
  | cons m ms ih =>
      exact fun h => ih (nodup_enlist h)

namespace Tabulates

variable {f f' : κ → Set ν} {rows : Rows κ ν} {c : κ}

omit [DecidableEq κ] [DecidableEq ν] in
/-- Every row is changed by its own function. -/
theorem each (h : Tabulates f rows) {g : κ → List ν → List ν}
    (hrow : ∀ k ns, ns.Nodup → (∀ n, n ∈ ns ↔ n ∈ f k) → (g k ns).Nodup ∧ ∀ n, n ∈ g k ns ↔ n ∈ f' k)
    (hhere : ∀ k, (f' k).Nonempty → k ∈ rows.map Prod.fst) : Tabulates f' (rows.each g) where
  keys := by
    rw [Rows.map_fst_each]
    exact h.keys
  nodup := by
    intro r hr
    rcases List.mem_map.1 hr with ⟨q, hq, rfl⟩
    exact (hrow q.1 q.2 (h.nodup q hq) (h.mem q hq)).1
  mem := by
    intro r hr
    rcases List.mem_map.1 hr with ⟨q, hq, rfl⟩
    exact (hrow q.1 q.2 (h.nodup q hq) (h.mem q hq)).2
  here := by
    intro k hk
    rw [Rows.map_fst_each]
    exact hhere k hk

omit [DecidableEq ν] in
/-- One row is changed. -/
theorem onRow (h : Tabulates f rows) {g : List ν → List ν} (hother : ∀ k, k ≠ c → f' k = f k)
    (hrow : ∀ ns, ns.Nodup → (∀ n, n ∈ ns ↔ n ∈ f c) → (g ns).Nodup ∧ ∀ n, n ∈ g ns ↔ n ∈ f' c)
    (hhere : (f' c).Nonempty → c ∈ rows.map Prod.fst) : Tabulates f' (rows.onRow c g) := by
  apply h.each
  · intro k ns hns hmem
    by_cases hk : k = c
    · subst hk
      rw [if_pos rfl]
      exact hrow ns hns hmem
    · rw [if_neg hk, hother k hk]
      exact ⟨hns, hmem⟩
  · intro k hk
    by_cases hc : k = c
    · subst hc
      exact hhere hk
    · rw [hother k hc] at hk
      exact h.here k hk

omit [DecidableEq κ] [DecidableEq ν] in
theorem push (h : Tabulates f rows) (hnew : c ∉ rows.map Prod.fst) (hother : ∀ k, k ≠ c → f' k = f k) {ns : List ν}
    (hns : ns.Nodup) (hmem : ∀ n, n ∈ ns ↔ n ∈ f' c) : Tabulates f' (rows ++ [(c, ns)]) where
  keys := by
    rw [List.map_append, List.map_cons, List.map_nil]
    apply List.nodup_append.2
    refine ⟨h.keys, List.nodup_singleton c, ?_⟩
    rintro k hk m hm rfl
    exact hnew ((List.mem_singleton.1 hm : k = c) ▸ hk)
  nodup := by
    intro r hr
    rcases List.mem_append.1 hr with hr | hr
    · exact h.nodup r hr
    · rw [List.mem_singleton.1 hr]
      exact hns
  mem := by
    intro r hr n
    rcases List.mem_append.1 hr with hr | hr
    · have hne : r.1 ≠ c := fun heq => hnew (heq ▸ List.mem_map_of_mem hr)
      rw [hother r.1 hne]
      exact h.mem r hr n
    · rw [List.mem_singleton.1 hr]
      exact hmem n
  here := by
    intro k hk
    rw [List.map_append, List.mem_append]
    by_cases hc : k = c
    · right
      rw [hc]
      exact List.mem_singleton_self c
    · left
      rw [hother k hc] at hk
      exact h.here k hk

omit [DecidableEq ν] in
theorem without (h : Tabulates f rows) (hother : ∀ k, k ≠ c → f' k = f k) (hc : f' c = ∅) :
    Tabulates f' (rows.without c) where
  keys := h.keys.sublist (List.filter_sublist.map Prod.fst)
  nodup := fun r hr => h.nodup r (List.mem_filter.1 hr).1
  mem := by
    intro r hr n
    rcases List.mem_filter.1 hr with ⟨hmem, hne⟩
    rw [hother r.1 (of_decide_eq_true hne)]
    exact h.mem r hmem n
  here := by
    intro k hk
    have hne : k ≠ c := by
      rintro rfl
      rw [hc] at hk
      exact Set.not_nonempty_empty hk
    rw [hother k hne] at hk
    rcases List.mem_map.1 (h.here k hk) with ⟨r, hr, rfl⟩
    apply List.mem_map_of_mem
    exact List.mem_filter.2 ⟨hr, decide_eq_true hne⟩

omit [DecidableEq κ] [DecidableEq ν] in
/-- A row without members can go. -/
theorem filled (h : Tabulates f rows) : Tabulates f rows.filled where
  keys := h.keys.sublist (List.filter_sublist.map Prod.fst)
  nodup := fun r hr => h.nodup r (List.mem_filter.1 hr).1
  mem := fun r hr => h.mem r (List.mem_filter.1 hr).1
  here := by
    intro k hk
    rcases List.mem_map.1 (h.here k hk) with ⟨r, hr, rfl⟩
    apply List.mem_map_of_mem
    apply List.mem_filter.2
    refine ⟨hr, ?_⟩
    rcases hk with ⟨n, hn⟩
    have hmem := (h.mem r hr n).2 hn
    exact decide_eq_true (List.ne_nil_of_mem hmem)

end Tabulates

/-! ## Names and places -/

/-- Who is in which place, and who of them `me` was not told of. -/
structure Presence (κ ν : Type) where
  me : ν
  on : κ → Set ν
  owed : κ → Set ν

inductive Move (κ ν : Type) where
  | arrive (c : κ) (n : ν)
  | depart (c : κ) (n : ν)
  | vanish (n : ν)
  | rename (n m : ν)
  | tell (c : κ) (ns : List ν)

def newName (n m k : ν) : ν := if k = n then m else k

namespace Presence

/-- What `me` can know of a place: nothing when it is not there. -/
def shown (w : Presence κ ν) (c : κ) : Set ν := {n | w.me ∈ w.on c ∧ n ∈ w.on c ∧ n ∉ w.owed c}

/-- Only others are owed, and only where they are. -/
structure Sound (w : Presence κ ν) : Prop where
  own : ∀ c, w.me ∉ w.owed c
  sub : ∀ c, w.owed c ⊆ w.on c

/-- Who comes is told of nobody yet. -/
def move (w : Presence κ ν) : Move κ ν → Presence κ ν
  | .arrive c n =>
      { w with
        on := Function.update w.on c (insert n (w.on c))
        owed := if n = w.me then Function.update w.owed c (w.on c \ {n}) else w.owed }
  | .depart c n =>
      { w with
        on := Function.update w.on c (w.on c \ {n})
        owed := Function.update w.owed c (w.owed c \ {n}) }
  | .vanish n => { w with on := fun c => w.on c \ {n}, owed := fun c => w.owed c \ {n} }
  | .rename n m =>
      { me := newName n m w.me
        on := fun c => Set.image (newName n m) (w.on c)
        owed := fun c => Set.image (newName n m) (w.owed c) }
  | .tell c ns => { w with owed := Function.update w.owed c {n | n ∈ w.owed c ∧ n ∉ ns} }

/-- What the places allow: nobody comes twice, a new name is free, and only who is there is told. -/
def Allows (w : Presence κ ν) : Move κ ν → Prop
  | .arrive c n => n ∉ w.on c
  | .depart _ _ => True
  | .vanish _ => True
  | .rename n m => (m = w.me → n = w.me) ∧ ∀ c, m ∉ w.on c
  | .tell c ns => ∀ n ∈ ns, n ∈ w.on c

variable {w : Presence κ ν} {c : κ} {n m k : ν}

omit [DecidableEq κ] [DecidableEq ν] in
theorem shown_of_absent (h : w.me ∉ w.on c) : w.shown c = ∅ := by
  apply Set.eq_empty_of_forall_notMem
  exact fun n hn => h hn.1

omit [DecidableEq κ] [DecidableEq ν] in
/-- Where `me` is it knows at least of itself. -/
theorem Sound.shown_nonempty (h : w.Sound) : (w.shown c).Nonempty ↔ w.me ∈ w.on c := by
  constructor
  · rintro ⟨n, hn⟩
    exact hn.1
  · exact fun hme => ⟨w.me, hme, hme, h.own c⟩

/-- Whoever is not at the new name keeps apart from the others. -/
theorem newName_eq_iff (hm : k ≠ m) {j : ν} (hj : j ≠ m) : newName n m k = newName n m j ↔ k = j := by
  rw [newName, newName]
  constructor
  · intro h
    split at h
    · next hk =>
      split at h
      · next hjn => rw [hk, hjn]
      · exact absurd h.symm hj
    · split at h
      · exact absurd h hm
      · exact h
  · rintro rfl
    rfl

theorem mem_image_newName {s : Set ν} (hs : m ∉ s) (hk : k ≠ m) :
    newName n m k ∈ Set.image (newName n m) s ↔ k ∈ s := by
  constructor
  · rintro ⟨j, hj, heq⟩
    have hjm : j ≠ m := fun h => hs (h ▸ hj)
    exact (newName_eq_iff hjm hk).1 heq ▸ hj
  · exact Set.mem_image_of_mem _

theorem Sound.move (h : w.Sound) {a : Move κ ν} (ha : w.Allows a) : (w.move a).Sound := by
  cases a with
  | arrive c n =>
      constructor
      · intro k
        rw [Presence.move]
        dsimp only
        -- The follower itself arrives: everybody who is there is owed, but not itself.
        by_cases hn : n = w.me
        · rw [if_pos hn]
          by_cases hk : k = c
          · subst hk
            rw [Function.update_self]
            exact fun hmem => hmem.2 hn.symm
          · rw [Function.update_of_ne hk]
            exact h.own k
        · rw [if_neg hn]
          exact h.own k
      · intro k
        rw [Presence.move]
        dsimp only
        by_cases hk : k = c
        · subst hk
          rw [Function.update_self]
          by_cases hn : n = w.me
          · rw [if_pos hn, Function.update_self]
            exact fun j hj => Set.mem_insert_of_mem n hj.1
          · rw [if_neg hn]
            -- Somebody else arrives, who is not owed.
            exact (h.sub k).trans (Set.subset_insert n _)
        · rw [Function.update_of_ne hk]
          by_cases hn : n = w.me
          · rw [if_pos hn, Function.update_of_ne hk]
            exact h.sub k
          · rw [if_neg hn]
            exact h.sub k
  | depart c n =>
      constructor
      · intro k
        by_cases hk : k = c
        · subst hk
          simp only [Presence.move, Function.update_self]
          exact fun hmem => h.own k hmem.1
        · simp only [Presence.move, Function.update_of_ne hk]
          exact h.own k
      · intro k
        by_cases hk : k = c
        · subst hk
          simp only [Presence.move, Function.update_self]
          exact Set.sdiff_subset_sdiff_left (h.sub k)
        · simp only [Presence.move, Function.update_of_ne hk]
          exact h.sub k
  | vanish n =>
      constructor
      · exact fun k hmem => h.own k hmem.1
      · exact fun k => Set.sdiff_subset_sdiff_left (h.sub k)
  | rename n m =>
      constructor
      · intro k hmem
        have howed : m ∉ w.owed k := fun hm => ha.2 k (h.sub k hm)
        rcases hmem with ⟨j, hj, heq⟩
        have hjm : j ≠ m := fun hm => howed (hm ▸ hj)
        by_cases hme : w.me = m
        · -- the follower's own name, written anew
          have hn := ha.1 hme.symm
          have hjn : j ≠ n := fun hjn => h.own k (hn ▸ hjn ▸ hj)
          simp only [Presence.move, newName, if_neg hjn, if_pos hn.symm] at heq
          exact hjm heq
        · exact h.own k ((newName_eq_iff hjm hme).1 heq ▸ hj)
      · exact fun k => Set.image_mono (h.sub k)
  | tell c ns =>
      constructor
      · intro k
        by_cases hk : k = c
        · subst hk
          simp only [Presence.move, Function.update_self]
          exact fun hmem => h.own k hmem.1
        · simp only [Presence.move, Function.update_of_ne hk]
          exact h.own k
      · intro k
        by_cases hk : k = c
        · subst hk
          simp only [Presence.move, Function.update_self]
          exact fun j hj => h.sub k hj.1
        · simp only [Presence.move, Function.update_of_ne hk]
          exact h.sub k

/-! ## What becomes known -/

theorem shown_arrive_me (h : w.me ∉ w.on c) (k : κ) :
    (w.move (.arrive c w.me)).shown k = if k = c then {w.me} else w.shown k := by
  ext j
  by_cases hk : k = c
  · subst hk
    simp only [shown, move, if_pos, Function.update_self, Set.mem_ofPred_eq, Set.mem_insert_iff, Set.mem_sdiff,
      Set.mem_singleton_iff, true_or, true_and, not_and, not_not]
    constructor
    · rintro ⟨rfl | hj, hj'⟩
      · rfl
      · exact hj' hj
    · rintro rfl
      exact ⟨Or.inl rfl, fun hj => absurd hj h⟩
  · simp only [shown, move, if_pos, if_neg hk, Function.update_of_ne hk]

omit [DecidableEq κ] [DecidableEq ν] in
/-- What happens where `me` is not is not seen. -/
theorem shown_unseen {w' : Presence κ ν} (hme : w'.me = w.me) (hoff : w.me ∉ w.on c) (hoff' : w.me ∉ w'.on c)
    (hon : ∀ k, k ≠ c → w'.on k = w.on k) (howed : ∀ k, k ≠ c → w'.owed k = w.owed k) : w'.shown = w.shown := by
  funext k
  rcases eq_or_ne k c with rfl | hk
  · rw [shown_of_absent hoff]
    exact shown_of_absent (hme.symm ▸ hoff')
  · simp only [shown, hme, hon k hk, howed k hk]

theorem shown_arrive (h : w.Sound) (hn : n ≠ w.me) (hnew : n ∉ w.on c) (hon : w.me ∈ w.on c) (k : κ) :
    (w.move (.arrive c n)).shown k = if k = c then insert n (w.shown k) else w.shown k := by
  have hme : w.me ∈ insert n (w.on c) := Set.mem_insert_of_mem n hon
  have howed : n ∉ w.owed c := fun hm => hnew (h.sub c hm)
  ext j
  by_cases hk : k = c
  · subst hk
    simp only [shown, move, if_neg hn, if_pos, Function.update_self, Set.mem_ofPred_eq, hme, hon, true_and,
      Set.mem_insert_iff]
    constructor
    · rintro ⟨rfl | hj, hj'⟩
      · exact Or.inl rfl
      · exact Or.inr ⟨hj, hj'⟩
    · rintro (rfl | hj)
      · exact ⟨Or.inl rfl, howed⟩
      · exact ⟨Or.inr hj.1, hj.2⟩
  · rw [if_neg hk]
    simp only [shown, move, if_neg hn, Function.update_of_ne hk]

theorem shown_arrive_unseen (hn : n ≠ w.me) (hoff : w.me ∉ w.on c) : (w.move (.arrive c n)).shown = w.shown := by
  have hoff' : w.me ∉ (w.move (.arrive c n)).on c := by
    simp only [move, Function.update_self, Set.mem_insert_iff, not_or]
    exact ⟨Ne.symm hn, hoff⟩
  apply @shown_unseen κ ν w c (w.move (.arrive c n)) rfl hoff hoff'
  · exact fun k hk => Function.update_of_ne hk _ _
  · intro k _
    simp only [move, if_neg hn]

theorem shown_depart (hn : n ≠ w.me) (k : κ) :
    (w.move (.depart c n)).shown k = if k = c then w.shown k \ {n} else w.shown k := by
  ext j
  by_cases hk : k = c
  · subst hk
    have hme : w.me ∈ w.on k \ {n} ↔ w.me ∈ w.on k := by
      rw [Set.mem_sdiff, Set.mem_singleton_iff, and_iff_left (Ne.symm hn)]
    simp only [shown, move, if_pos, Function.update_self, Set.mem_ofPred_eq, hme]
    simp only [Set.mem_sdiff, Set.mem_singleton_iff, Set.mem_ofPred_eq]
    tauto
  · simp only [shown, move, if_neg hk, Function.update_of_ne hk]

theorem shown_depart_me (k : κ) :
    (w.move (.depart c w.me)).shown k = if k = c then ∅ else w.shown k := by
  by_cases hk : k = c
  · subst hk
    rw [if_pos rfl]
    apply shown_of_absent
    simp only [move, Function.update_self]
    exact fun hmem => hmem.2 rfl
  · rw [if_neg hk]
    simp only [shown, move, Function.update_of_ne hk]

theorem shown_vanish (hn : n ≠ w.me) (k : κ) : (w.move (.vanish n)).shown k = w.shown k \ {n} := by
  have hme : w.me ∈ w.on k \ {n} ↔ w.me ∈ w.on k := by
    rw [Set.mem_sdiff, Set.mem_singleton_iff, and_iff_left (Ne.symm hn)]
  ext j
  simp only [shown, move, Set.mem_ofPred_eq, hme]
  simp only [Set.mem_sdiff, Set.mem_singleton_iff, Set.mem_ofPred_eq]
  tauto

theorem shown_vanish_me (k : κ) : (w.move (.vanish w.me)).shown k = ∅ :=
  shown_of_absent fun hmem => hmem.2 rfl

theorem shown_rename (h : w.Sound) (ha : w.Allows (.rename n m)) (k : κ) :
    (w.move (.rename n m)).shown k = Set.image (newName n m) (w.shown k) := by
  have hon : m ∉ w.on k := ha.2 k
  have howed : m ∉ w.owed k := fun hm => hon (h.sub k hm)
  have hme : newName n m w.me ∈ Set.image (newName n m) (w.on k) ↔ w.me ∈ w.on k := by
    by_cases heq : w.me = m
    · have hn := ha.1 heq.symm
      constructor
      · rintro ⟨j, hj, hjm⟩
        simp only [newName, if_pos hn.symm] at hjm
        split at hjm
        · next hjn => exact hn ▸ hjn ▸ hj
        · exact absurd (hjm ▸ hj) hon
      · exact Set.mem_image_of_mem _
    · exact mem_image_newName hon heq
  ext j
  simp only [shown, move, Set.mem_ofPred_eq, hme]
  constructor
  · rintro ⟨hme', ⟨i, hi, rfl⟩, hi'⟩
    have him : i ≠ m := fun heq => hon (heq ▸ hi)
    exact ⟨i, ⟨hme', hi, fun hmem => hi' ((mem_image_newName howed him).2 hmem)⟩, rfl⟩
  · rintro ⟨i, ⟨hme', hi, hi'⟩, rfl⟩
    have him : i ≠ m := fun heq => hon (heq ▸ hi)
    exact ⟨hme', Set.mem_image_of_mem _ hi, fun hmem => hi' ((mem_image_newName howed him).1 hmem)⟩

theorem shown_tell {ns : List ν} (hns : ∀ n ∈ ns, n ∈ w.on c) (hon : w.me ∈ w.on c) (k : κ) :
    (w.move (.tell c ns)).shown k = if k = c then w.shown k ∪ {n | n ∈ ns} else w.shown k := by
  ext j
  by_cases hk : k = c
  · subst hk
    simp only [shown, move, if_pos, Function.update_self, hon, true_and, Set.mem_union, Set.mem_ofPred_eq, not_and,
      not_not]
    constructor
    · rintro ⟨hj, hj'⟩
      by_cases hjo : j ∈ w.owed k
      · exact Or.inr (hj' hjo)
      · exact Or.inl ⟨hj, hjo⟩
    · rintro (hj | hj)
      · exact ⟨hj.1, fun hjo => absurd hjo hj.2⟩
      · exact ⟨hns j hj, fun _ => hj⟩
  · rw [if_neg hk]
    simp only [shown, move, Function.update_of_ne hk]

end Presence

/-! ## Names and places by other names -/

namespace Presence

variable {κ' ν' : Type} [DecidableEq κ'] [DecidableEq ν'] {f f' : ν → ν'} {g : κ → κ'} {w : Presence κ ν}
  {w' : Presence κ' ν'} {c : κ} {n m : ν}

/-- The second is the first with other names: the same people are in the same places. -/
structure Maps (f : ν → ν') (g : κ → κ') (w : Presence κ ν) (w' : Presence κ' ν') : Prop where
  me : w'.me = f w.me
  on : ∀ c, w'.on (g c) = Set.image f (w.on c)
  only : ∀ c, (w'.on c).Nonempty → ∃ k, g k = c

omit [DecidableEq κ] [DecidableEq ν] [DecidableEq κ'] [DecidableEq ν'] in
theorem Maps.mem_on (h : Maps f g w w') (hf : Function.Injective f) : f n ∈ w'.on (g c) ↔ n ∈ w.on c := by
  rw [h.on c]
  exact hf.mem_set_image

omit [DecidableEq κ] [DecidableEq ν] [DecidableEq κ'] [DecidableEq ν'] in
/-- Who is together with `me` is so by the other names. -/
theorem Maps.together (h : Maps f g w w') (hf : Function.Injective f) :
    (∃ c, f n ∈ w'.on c ∧ w'.me ∈ w'.on c) ↔ ∃ c, n ∈ w.on c ∧ w.me ∈ w.on c := by
  rw [h.me]
  constructor
  · rintro ⟨c, hn, hme⟩
    rcases h.only c ⟨_, hn⟩ with ⟨k, rfl⟩
    exact ⟨k, (h.mem_on hf).1 hn, (h.mem_on hf).1 hme⟩
  · rintro ⟨c, hn, hme⟩
    exact ⟨g c, (h.mem_on hf).2 hn, (h.mem_on hf).2 hme⟩

omit [DecidableEq ν] [DecidableEq ν'] in
/-- One place is changed, the same way on both sides. -/
theorem Maps.update (h : Maps f g w w') (hg : Function.Injective g) {s : Set ν} {v : Presence κ ν}
    {v' : Presence κ' ν'} (hme : v.me = w.me) (hme' : v'.me = w'.me) (hon : v.on = Function.update w.on c s)
    (hon' : v'.on = Function.update w'.on (g c) (Set.image f s)) : Maps f g v v' where
  me := by rw [hme, hme', h.me]
  on := by
    intro k
    rw [hon, hon']
    by_cases hk : k = c
    · subst hk
      rw [Function.update_self, Function.update_self]
    · rw [Function.update_of_ne hk, Function.update_of_ne (hg.ne hk)]
      exact h.on k
  only := by
    intro k hk
    by_cases hc : k = g c
    · exact ⟨c, hc.symm⟩
    · rw [hon', Function.update_of_ne hc] at hk
      exact h.only k hk

theorem Maps.arrive (h : Maps f g w w') (hg : Function.Injective g) :
    Maps f g (w.move (.arrive c n)) (w'.move (.arrive (g c) (f n))) := by
  have himage : insert (f n) (w'.on (g c)) = Set.image f (insert n (w.on c)) := by
    rw [h.on c, Set.image_insert_eq]
  have hon' : (w'.move (.arrive (g c) (f n))).on = Function.update w'.on (g c) (Set.image f (insert n (w.on c))) := by
    rw [← himage]
    rfl
  exact @Maps.update _ _ _ _ _ _ f g w w' c h hg _ (w.move (.arrive c n)) _ rfl rfl rfl hon'

theorem Maps.depart (h : Maps f g w w') (hf : Function.Injective f) (hg : Function.Injective g) :
    Maps f g (w.move (.depart c n)) (w'.move (.depart (g c) (f n))) := by
  have himage : w'.on (g c) \ {f n} = Set.image f (w.on c \ {n}) := by
    rw [h.on c, Set.image_sdiff hf, Set.image_singleton]
  have hon' : (w'.move (.depart (g c) (f n))).on = Function.update w'.on (g c) (Set.image f (w.on c \ {n})) := by
    rw [← himage]
    rfl
  exact @Maps.update _ _ _ _ _ _ f g w w' c h hg _ (w.move (.depart c n)) _ rfl rfl rfl hon'

theorem Maps.vanish (h : Maps f g w w') (hf : Function.Injective f) :
    Maps f g (w.move (.vanish n)) (w'.move (.vanish (f n))) where
  me := h.me
  on := by
    intro c
    have hon' : (w'.move (.vanish (f n))).on (g c) = w'.on (g c) \ {f n} := rfl
    have hon : (w.move (.vanish n)).on c = w.on c \ {n} := rfl
    rw [hon', hon, h.on c, Set.image_sdiff hf, Set.image_singleton]
  only := fun c hc => h.only c (hc.mono Set.sdiff_subset)

omit [DecidableEq κ] [DecidableEq κ'] in
theorem newName_map (hf : Function.Injective f) (k : ν) : newName (f n) (f m) (f k) = f (newName n m k) := by
  by_cases hk : k = n
  · rw [newName, newName, if_pos hk, if_pos (congrArg f hk)]
  · rw [newName, newName, if_neg hk, if_neg (hf.ne hk)]

theorem Maps.rename (h : Maps f g w w') (hf : Function.Injective f) :
    Maps f g (w.move (.rename n m)) (w'.move (.rename (f n) (f m))) where
  me := by
    have hme : (w.move (.rename n m)).me = newName n m w.me := rfl
    have hme' : (w'.move (.rename (f n) (f m))).me = newName (f n) (f m) w'.me := rfl
    rw [hme, hme', h.me, newName_map hf]
  on := by
    intro c
    have hon : (w.move (.rename n m)).on c = Set.image (newName n m) (w.on c) := rfl
    have hon' : (w'.move (.rename (f n) (f m))).on (g c) = Set.image (newName (f n) (f m)) (w'.on (g c)) := rfl
    rw [hon, hon', h.on c, Set.image_image, Set.image_image]
    exact Set.image_congr fun k _ => newName_map hf k
  only := by
    rintro c ⟨_, j, hj, _⟩
    exact h.only c ⟨j, hj⟩

omit [DecidableEq κ'] [DecidableEq ν'] in
/-- `me` takes another name, and the second side does not hear of it. -/
theorem Maps.recall (h : Maps f g w w') (hme : f' m = f w.me)
    (hsame : ∀ c, ∀ k ∈ w.on c, f' (newName w.me m k) = f k) : Maps f' g (w.move (.rename w.me m)) w' where
  me := by
    have hnew : (w.move (.rename w.me m)).me = m := if_pos rfl
    rw [hnew, hme, h.me]
  on := by
    intro c
    have hon : (w.move (.rename w.me m)).on c = Set.image (newName w.me m) (w.on c) := rfl
    rw [hon, h.on c, Set.image_image]
    exact (Set.image_congr (hsame c)).symm
  only := h.only

end Presence

end CLib
