import Mathlib.Logic.Function.Iterate
import PsyBnc.Memory.Model
import PsyBnc.Lib.Lookup

/-!
# The cache in front of the user records

`Coherent s`: no node holds a freed record or the record of another node, and the cache holds what a
scan would find, unless the node it was filled from was cleared since.
-/

namespace PsyBnc

open CLib

namespace UserMem

/-- What the scan finds without adding anything. -/
def answer (s : UserMem) (usern : Int) : UserPtr :=
  if usern = 0 ∨ MAX_USER < usern then .nulluser
  else
    match s.nodeIdx usern with
    | none => .dummyuser
    | some k => (s.record k).elim .null .alloc

structure Coherent (s : UserMem) : Prop where
  root : s.usernode ≠ []
  records : ∀ i j r, s.record i = some r → s.record j = some r → i = j
  live : ∀ i r, s.record i = some r → r < s.fresh ∧ r ∉ s.freed
  freed : ∀ r ∈ s.freed, r < s.fresh
  cache : s.lastuser ≠ -1 → ¬ Cleared s s.lastuser → s.lastu = s.answer s.lastuser

/-! ## Nodes -/

section Nodes

variable {s t : UserMem} {usern : Int} {k i : Nat} {v : Option Nat}

theorem record_setRecord (ht : t.usernode = s.usernode.modify k fun th => { th with user := v })
    (hk : k < s.usernode.length) : t.record i = if i = k then v else s.record i := by
  rw [record, record, ht, List.getElem?_modify]
  by_cases hik : i = k
  · subst hik
    simp [List.getElem?_eq_getElem hk]
  · have hki : ¬ k = i := fun h => hik h.symm
    simp [hik, hki]

theorem nodeIdx_setRecord (ht : t.usernode = s.usernode.modify k fun th => { th with user := v }) :
    t.nodeIdx usern = s.nodeIdx usern := by
  rw [nodeIdx, nodeIdx, ht]
  exact findIdx?_modify (f := fun th : UserNode => { th with user := v }) (fun _ => rfl) s.usernode k

theorem record_append {th : UserNode} (ht : t.usernode = s.usernode ++ [th]) :
    t.record i = if i = s.usernode.length then th.user else s.record i := by
  rw [record, record, ht]
  rcases Nat.lt_trichotomy i s.usernode.length with h | h | h
  · rw [List.getElem?_append_left h, if_neg (by omega)]
  · subst h
    simp
  · have h₁ : (s.usernode ++ [th])[i]? = none := by
      rw [List.getElem?_eq_none_iff, List.length_append, List.length_singleton]
      omega
    have h₂ : s.usernode[i]? = none := List.getElem?_eq_none_iff.2 (by omega)
    rw [h₁, h₂, if_neg (by omega)]

theorem nodeIdx_append {th : UserNode} (ht : t.usernode = s.usernode ++ [th])
    (hnew : s.nodeIdx usern = none) (huid : th.uid = usern) :
    t.nodeIdx usern = some s.usernode.length := by
  rw [nodeIdx, ht, List.findIdx?_append]
  rw [nodeIdx] at hnew
  simp [hnew, huid]

theorem nodeIdx_lt (h : s.nodeIdx usern = some k) : k < s.usernode.length :=
  (List.findIdx?_eq_some_iff_getElem.1 h).1

end Nodes

/-! ## The scan -/

section Scan

variable {s : UserMem} {usern n : Int} {k r : Nat}

theorem answer_node (hzero : usern ≠ 0) (hmax : usern ≤ MAX_USER) (hidx : s.nodeIdx usern = some k)
    (hrec : s.record k = some r) : s.answer usern = .alloc r := by
  have hrange : ¬ (usern = 0 ∨ MAX_USER < usern) := by
    rintro (hz | hlt)
    · exact hzero hz
    · exact Int.not_lt.2 hmax hlt
  rw [answer, if_neg hrange, hidx]
  simp [hrec]

theorem answer_missing (hzero : usern ≠ 0) (hmax : usern ≤ MAX_USER)
    (hidx : s.nodeIdx usern = none) : s.answer usern = .dummyuser := by
  have hrange : ¬ (usern = 0 ∨ MAX_USER < usern) := by
    rintro (hz | hlt)
    · exact hzero hz
    · exact Int.not_lt.2 hmax hlt
  rw [answer, if_neg hrange, hidx]

theorem answer_out (hout : usern = 0 ∨ MAX_USER < usern) : s.answer usern = .nulluser := by
  rw [answer, if_pos hout]

/-- The list when the record of a node is set or cleared. -/
def setRecord (s : UserMem) (k : Nat) (v : Option Nat) : List UserNode :=
  s.usernode.modify k fun th => { th with user := v }

/-- The node `k` with a new record. -/
def refilled (s : UserMem) (usern : Int) (k : Nat) : UserMem :=
  { s with
    lastuser := usern
    usernode := s.setRecord k (some s.fresh)
    fresh := s.fresh + 1 }

/-- A new node with a new record. -/
def extended (s : UserMem) (usern : Int) : UserMem :=
  { s with
    lastuser := usern
    create := false
    usernode := s.usernode ++ [{ uid := usern, user := some s.fresh }]
    fresh := s.fresh + 1 }

/-- No record is handed out. -/
def passed (s : UserMem) (usern : Int) (u : UserPtr) : UserPtr × UserMem :=
  (u, { s with lastuser := usern, thisuser := none, lastu := u })

theorem scanuser_out (hroot : s.usernode ≠ []) (hout : usern = 0 ∨ MAX_USER < usern) :
    s.scanuser usern = s.passed usern .nulluser := by
  simp [scanuser, hroot, hout, passed]

theorem scanuser_node (hroot : s.usernode ≠ []) (hzero : usern ≠ 0) (hmax : usern ≤ MAX_USER)
    (hidx : s.nodeIdx usern = some k) (hrec : s.record k = some r) :
    s.scanuser usern = found { s with lastuser := usern } k r := by
  have hmax' : ¬ MAX_USER < usern := Int.not_lt.2 hmax
  simp only [nodeIdx] at hidx
  simp only [record] at hrec
  simp [scanuser, hroot, hzero, hmax', nodeIdx, hidx, record, hrec]

/-- What the scan can do. -/
theorem scanuser_cases (hroot : s.usernode ≠ []) (usern : Int) :
    ((usern = 0 ∨ MAX_USER < usern) ∧ s.scanuser usern = s.passed usern .nulluser) ∨
    (usern ≠ 0 ∧ usern ≤ MAX_USER ∧
      ((∃ k r, s.nodeIdx usern = some k ∧ s.record k = some r ∧
          s.scanuser usern = found { s with lastuser := usern } k r) ∨
        (∃ k, s.nodeIdx usern = some k ∧ s.record k = none ∧
          s.scanuser usern = (s.refilled usern k).found k s.fresh) ∨
        (s.nodeIdx usern = none ∧ s.create = true ∧
          s.scanuser usern = (s.extended usern).found s.usernode.length s.fresh) ∨
        (s.nodeIdx usern = none ∧ s.create = false ∧
          s.scanuser usern = s.passed usern .dummyuser))) := by
  by_cases hrange : usern = 0 ∨ MAX_USER < usern
  · exact Or.inl ⟨hrange, scanuser_out hroot hrange⟩
  · have hzero : usern ≠ 0 := fun h => hrange (Or.inl h)
    have hmax : usern ≤ MAX_USER := Int.not_lt.1 (fun h => hrange (Or.inr h))
    refine Or.inr ⟨hzero, hmax, ?_⟩
    cases hidx : s.nodeIdx usern with
    | none =>
        simp only [nodeIdx] at hidx
        cases hcreate : s.create with
        | true =>
            refine Or.inr (Or.inr (Or.inl ⟨rfl, rfl, ?_⟩))
            simp [scanuser, hroot, hrange, nodeIdx, hidx, hcreate, extended]
        | false =>
            refine Or.inr (Or.inr (Or.inr ⟨rfl, rfl, ?_⟩))
            simp [scanuser, hroot, hrange, nodeIdx, hidx, hcreate, passed]
    | some k =>
        cases hrec : s.record k with
        | none =>
            refine Or.inr (Or.inl ⟨k, rfl, hrec, ?_⟩)
            simp only [nodeIdx] at hidx
            simp only [record] at hrec
            simp [scanuser, hroot, hrange, nodeIdx, hidx, record, hrec, setRecord, refilled]
        | some r =>
            exact Or.inl ⟨k, r, rfl, hrec, scanuser_node hroot hzero hmax hidx hrec⟩

/-- The answer is no freed record, and `thisuser` is the node it is in. -/
structure Answered (usern : Int) (res : UserPtr × UserMem) : Prop where
  coherent : Coherent res.2
  lastuser : res.2.lastuser = usern
  node : ∀ k, res.2.thisuser = some k →
    usern ≠ 0 ∧ usern ≤ MAX_USER ∧ res.2.nodeIdx usern = some k
  valid : res.1 ≠ .null ∧ ∀ r ∈ res.2.freed, res.1 ≠ .alloc r

theorem passed_answered (h : Coherent s) {u : UserPtr} (hu : u = s.answer usern)
    (hne : u ≠ .null) (halloc : ∀ r, u ≠ .alloc r) : Answered usern (s.passed usern u) := by
  refine ⟨⟨h.root, h.records, h.live, h.freed, fun _ _ => hu⟩, rfl, ?_, hne, fun r _ => halloc r⟩
  rintro k hk
  exact absurd hk (by simp [passed])

theorem found_answered (h : Coherent { s with lastuser := -1 }) (hlast : s.lastuser = usern)
    (hzero : usern ≠ 0) (hmax : usern ≤ MAX_USER) (hidx : s.nodeIdx usern = some k)
    (hrec : s.record k = some r) : Answered usern (s.found k r) := by
  refine ⟨⟨h.root, h.records, h.live, h.freed, fun _ _ => ?_⟩, hlast, ?_, by simp [found], ?_⟩
  · have hanswer : s.answer usern = .alloc r := answer_node hzero hmax hidx hrec
    rw [← hlast] at hanswer
    exact hanswer.symm
  · rintro k' hk'
    cases hk'
    exact ⟨hzero, hmax, hidx⟩
  · intro r' hr' heq
    cases heq
    exact (h.live k r hrec).2 hr'

/-- Nothing is claimed of an empty cache. -/
theorem Coherent.forget (h : Coherent s) : Coherent { s with lastuser := -1 } :=
  ⟨h.root, h.records, h.live, h.freed, fun hne => absurd rfl hne⟩

theorem Coherent.request (h : Coherent s) : Coherent { s with create := true } :=
  ⟨h.root, h.records, h.live, h.freed, h.cache⟩

/-- One node gets the next record number, every other one keeps what it has. -/
theorem Coherent.fresh_record (h : Coherent s) {t : UserMem} (hroot : t.usernode ≠ [])
    (hrec : ∀ i, t.record i = if i = k then some s.fresh else s.record i)
    (hfresh : t.fresh = s.fresh + 1) (hfreed : t.freed = s.freed) :
    Coherent { t with lastuser := -1 } := by
  have hnew : s.fresh ∉ s.freed := fun hmem => Nat.lt_irrefl _ (h.freed _ hmem)
  -- an old record is never the new one
  have hold : ∀ i, s.record i ≠ some s.fresh :=
    fun i hi => Nat.lt_irrefl _ (h.live i _ hi).1
  have hcases : ∀ i r, t.record i = some r → (i = k ∧ r = s.fresh) ∨ s.record i = some r := by
    intro i r hi
    rw [hrec] at hi
    by_cases hik : i = k
    · rw [if_pos hik] at hi
      cases hi
      exact Or.inl ⟨hik, rfl⟩
    · rw [if_neg hik] at hi
      exact Or.inr hi
  refine ⟨hroot, ?_, ?_, ?_, fun hne => absurd rfl hne⟩
  · intro i j r hi hj
    rcases hcases i r hi with ⟨hik, rfl⟩ | hi
    · rcases hcases j s.fresh hj with ⟨hjk, _⟩ | hj
      · rw [hik, hjk]
      · exact absurd hj (hold j)
    · rcases hcases j r hj with ⟨_, rfl⟩ | hj
      · exact absurd hi (hold i)
      · exact h.records i j r hi hj
  · intro i r hi
    simp only [hfresh, hfreed]
    rcases hcases i r hi with ⟨_, rfl⟩ | hi
    · exact ⟨Nat.lt_succ_self _, hnew⟩
    · exact ⟨Nat.lt_succ_of_lt (h.live i r hi).1, (h.live i r hi).2⟩
  · intro r hr
    simp only [hfresh, hfreed] at hr ⊢
    exact Nat.lt_succ_of_lt (h.freed r hr)

theorem scanuser_answered (h : Coherent s) (usern : Int) : Answered usern (s.scanuser usern) := by
  rcases scanuser_cases h.root usern with ⟨hout, hscan⟩ | ⟨hzero, hmax, hin⟩
  · rw [hscan]
    exact passed_answered h (answer_out hout).symm (by simp) (by simp)
  · rcases hin with ⟨k, r, hidx, hrec, hscan⟩ | ⟨k, hidx, hrec, hscan⟩ | ⟨hidx, _, hscan⟩ |
      ⟨hidx, _, hscan⟩
    · rw [hscan]
      exact found_answered h.forget rfl hzero hmax hidx hrec
    · have hk := nodeIdx_lt hidx
      have hroot : (s.refilled usern k).usernode ≠ [] := by
        apply List.ne_nil_of_length_pos
        simp only [refilled, setRecord, List.length_modify]
        omega
      have hset : ∀ i, (s.refilled usern k).record i = if i = k then some s.fresh else s.record i :=
        fun i => record_setRecord rfl hk
      have hidx' : (s.refilled usern k).nodeIdx usern = some k := by
        rw [← hidx]
        exact nodeIdx_setRecord rfl
      rw [hscan]
      exact found_answered (h.fresh_record hroot hset rfl rfl) rfl hzero hmax hidx' (by simp [hset])
    · have hroot : (s.extended usern).usernode ≠ [] := by simp [extended]
      have happend : (s.extended usern).usernode =
          s.usernode ++ [{ uid := usern, user := some s.fresh }] := rfl
      have hset : ∀ i, (s.extended usern).record i =
          if i = s.usernode.length then some s.fresh else s.record i := fun i => record_append happend
      have hidx' : (s.extended usern).nodeIdx usern = some s.usernode.length :=
        nodeIdx_append happend hidx rfl
      rw [hscan]
      exact found_answered (h.fresh_record hroot hset rfl rfl) rfl hzero hmax hidx' (by simp [hset])
    · rw [hscan]
      exact passed_answered h (answer_missing hzero hmax hidx).symm (by simp) (by simp)

theorem scanuser_freed (h : Coherent s) (usern : Int) : (s.scanuser usern).2.freed = s.freed := by
  rcases scanuser_cases h.root usern with ⟨_, hscan⟩ | ⟨_, _, ⟨k, r, _, _, hscan⟩ | ⟨k, _, _, hscan⟩ |
    ⟨_, _, hscan⟩ | ⟨_, _, hscan⟩⟩ <;> rw [hscan] <;> rfl

/-- Without a request, and with the record in place, the scan only looks. -/
theorem scanuser_eq_answer (h : Coherent s) (hcreate : s.create = false)
    (hcleared : ¬ Cleared s usern) : (s.scanuser usern).1 = s.answer usern := by
  rcases scanuser_cases h.root usern with ⟨hout, hscan⟩ | ⟨hzero, hmax, hin⟩
  · rw [hscan, answer_out hout]
    rfl
  · rcases hin with ⟨k, r, hidx, hrec, hscan⟩ | ⟨k, hidx, hrec, _⟩ | ⟨_, htrue, _⟩ | ⟨hidx, _, hscan⟩
    · rw [hscan, answer_node hzero hmax hidx hrec]
      rfl
    · exact absurd ⟨hzero, hmax, k, hidx, hrec⟩ hcleared
    · rw [hcreate] at htrue
      cases htrue
    · rw [hscan, answer_missing hzero hmax hidx]
      rfl

end Scan

/-! ## Calls -/

section Calls

variable {s : UserMem} {n : Int}

theorem plainUid_eq_iff : plainUid n = -1 ↔ n = -1 := by
  rw [plainUid]
  split
  · omega
  · exact Iff.rfl

theorem user_coherent (h : Coherent s) (n : Int) : Coherent (s.user n).2 := by
  rw [user]
  split
  · exact h
  · exact (scanuser_answered h _).coherent

theorem user_right (h : Coherent s) (hfit : Fit s n) : Right s n := by
  rcases hfit with ⟨hne, hfit⟩
  have hvalid := (scanuser_answered h (plainUid n)).valid
  rw [scanuser_freed h] at hvalid
  rw [Right, user]
  split
  · rename_i hcache
    rcases hcache with ⟨hlast, hcreate⟩
    have hcleared : ¬ Cleared s (plainUid n) := fun hc => hfit ⟨hlast, hcreate, hc⟩
    have hmark : s.lastuser ≠ -1 := by
      rw [← hlast]
      exact fun heq => hne (plainUid_eq_iff.1 heq)
    have hsame : s.lastu = (s.scanuser (plainUid n)).1 := by
      rw [scanuser_eq_answer h hcreate hcleared, h.cache hmark (hlast ▸ hcleared), hlast]
    rw [← hsame] at hvalid
    exact ⟨hsame, hvalid⟩
  · refine ⟨rfl, hvalid.1, ?_⟩
    rw [scanuser_freed h]
    exact hvalid.2

/-- A second scan finds what the first one did, or is answered from the cache. -/
theorem scanuser_again (h : Coherent s) (usern : Int) :
    ((s.scanuser usern).2.create = true →
      (s.scanuser usern).2.scanuser usern = s.scanuser usern) ∧
    (s.scanuser usern).2.lastu = (s.scanuser usern).1 := by
  have hcoh := (scanuser_answered h usern).coherent
  rcases scanuser_cases h.root usern with ⟨hout, hscan⟩ | ⟨hzero, hmax, hin⟩
  · rw [hscan] at hcoh ⊢
    exact ⟨fun _ => scanuser_out hcoh.root hout, rfl⟩
  · rcases hin with ⟨k, r, hidx, hrec, hscan⟩ | ⟨k, hidx, hrec, hscan⟩ | ⟨_, _, hscan⟩ |
      ⟨_, hcreate, hscan⟩
    · rw [hscan] at hcoh ⊢
      exact ⟨fun _ => scanuser_node hcoh.root hzero hmax hidx hrec, rfl⟩
    · rw [hscan] at hcoh ⊢
      have hidx' : (s.refilled usern k).nodeIdx usern = some k := by
        rw [← hidx]
        exact nodeIdx_setRecord rfl
      have hrec' : (s.refilled usern k).record k = some s.fresh := by
        have hset := record_setRecord (s := s) (t := s.refilled usern k) (i := k) rfl (nodeIdx_lt hidx)
        rwa [if_pos rfl] at hset
      exact ⟨fun _ => scanuser_node hcoh.root hzero hmax hidx' hrec', rfl⟩
    · rw [hscan]
      exact ⟨fun hcreate => absurd hcreate (by simp [found, extended]), rfl⟩
    · rw [hscan]
      exact ⟨fun htrue => absurd (hcreate.symm.trans htrue) (by simp), rfl⟩

/-- The calls of `user` that follow a first one, for the same number, change nothing. -/
theorem user_again (h : Coherent s) (n : Int) : (s.user n).2.user n = s.user n := by
  by_cases hcache : plainUid n = s.lastuser ∧ s.create = false
  · have hhit : s.user n = (s.lastu, s) := by rw [user, if_pos hcache]
    rw [hhit]
    exact hhit
  · have hmiss : s.user n = s.scanuser (plainUid n) := by rw [user, if_neg hcache]
    rcases scanuser_again h (plainUid n) with ⟨hscan, hlastu⟩
    have hlast := (scanuser_answered h (plainUid n)).lastuser
    rw [hmiss, user]
    cases hcreate : (s.scanuser (plainUid n)).2.create with
    | true =>
        rw [if_neg (by simp), hscan hcreate]
    | false =>
        rw [if_pos ⟨hlast.symm, rfl⟩, hlastu]

/-- Freeing the record of `thisuser`, after a lookup that went to the list or from an empty cache. -/
theorem collect_coherent (h : Coherent s) (hnode : ∀ k, s.thisuser = some k → s.lastuser ≠ -1 →
    s.lastuser ≠ 0 ∧ s.lastuser ≤ MAX_USER ∧ s.nodeIdx s.lastuser = some k) : Coherent s.collect := by
  cases hthis : s.thisuser with
  | none =>
      rw [collect, hthis]
      exact h
  | some k =>
      cases hrec : s.record k with
      | none =>
          simp only [collect, hthis, hrec]
          exact ⟨h.root, h.records, h.live, h.freed, h.cache⟩
      | some r =>
          have hk : k < s.usernode.length := by
            by_contra hge
            simp only [record, List.getElem?_eq_none_iff.2 (Nat.le_of_not_lt hge)] at hrec
            cases hrec
          simp only [collect, hthis, hrec]
          have hset : ∀ i, record { s with
              usernode := s.setRecord k none
              freed := r :: s.freed
              thisuser := none } i = if i = k then none else s.record i :=
            fun i => record_setRecord rfl hk
          -- No other node loses its record.
          have hkeep : ∀ i r', (if i = k then none else s.record i) = some r' →
              i ≠ k ∧ s.record i = some r' := by
            -- A live record was live before, and is not the one that is freed.
            intro i r' hi
            by_cases hik : i = k
            · rw [if_pos hik] at hi
              cases hi
            · rw [if_neg hik] at hi
              exact ⟨hik, hi⟩
          refine ⟨?_, ?_, ?_, ?_, ?_⟩
          · apply List.ne_nil_of_length_pos
            rw [List.length_modify]
            omega
          · -- Two nodes that share a record shared it before.
            intro i j r' hi hj
            exact h.records i j r' (hkeep i r' ((hset i).symm.trans hi)).2
              (hkeep j r' ((hset j).symm.trans hj)).2
          · intro i r' hi
            rcases hkeep i r' ((hset i).symm.trans hi) with ⟨hik, hi'⟩
            refine ⟨(h.live i r' hi').1, ?_⟩
            intro hmem
            rcases List.mem_cons.1 hmem with rfl | hmem
            · exact hik (h.records i k r' hi' hrec)
            · exact (h.live i r' hi').2 hmem
          · intro r' hr'
            rcases List.mem_cons.1 hr' with rfl | hr'
            · exact (h.live k r' hrec).1
            · exact h.freed r' hr'
          · -- the number in the cache is that of the node just cleared
            intro hmark hcleared
            rcases hnode k hthis hmark with ⟨hzero, hmax, hidx⟩
            refine absurd ⟨hzero, hmax, k, ?_, (hset k).trans (if_pos rfl)⟩ hcleared
            rw [← hidx]
            exact nodeIdx_setRecord rfl

theorem clearuser_coherent (h : Coherent s) (n : Int) : Coherent (s.clearuser n) := by
  apply collect_coherent (user_coherent h.forget n)
  intro k hk hmark
  rw [user] at hk hmark ⊢
  split at hk
  · rename_i hcache
    rw [if_pos hcache] at hmark
    exact absurd rfl hmark
  · rename_i hcache
    have hscan := scanuser_answered h.forget (plainUid n)
    rw [if_neg hcache]
    rw [hscan.lastuser]
    exact hscan.node k hk

/-- `clearuser` as it is written, with any number of calls of `user` in front of the one that frees. -/
theorem clearuser_calls (h : Coherent s) (n : Int) (calls : Nat) :
    ((fun t : UserMem => (t.user n).2)^[calls] (user { s with lastuser := -1 } n).2).collect = s.clearuser n := by
  have hfix : ((user { s with lastuser := -1 } n).2.user n).2 = (user { s with lastuser := -1 } n).2 :=
    congrArg Prod.snd (user_again h.forget n)
  rw [Function.iterate_fixed hfix, clearuser]

theorem step_coherent (h : Coherent s) (c : Call) : Coherent (s.step c) := by
  cases c with
  | request =>
      exact h.request
  | user n =>
      exact user_coherent h n
  | clearuser n =>
      exact clearuser_coherent h n
  | loaduser n known =>
      cases known with
      | true =>
          exact user_coherent h.request n
      | false =>
          exact clearuser_coherent (user_coherent h n) n

theorem start_coherent : Coherent start := by
  have hrec : ∀ i, start.record i = none := by
    intro i
    cases i with
    | zero =>
        rfl
    | succ i =>
        simp [record, start]
  refine ⟨by simp [start], ?_, ?_, by simp [start], fun hne => absurd rfl hne⟩
  · intro i j r hi
    rw [hrec] at hi
    cases hi
  · intro i r hi
    rw [hrec] at hi
    cases hi

/-- The lookups inside a call are made in coherent states as well. -/
theorem lookups_coherent (h : Coherent s) (c : Call) : ∀ p ∈ s.lookups c, Coherent p.1 := by
  intro p hp
  cases c with
  | request =>
      exact absurd hp (by simp [lookups])
  | user n =>
      rw [lookups, List.mem_singleton] at hp
      exact hp ▸ h
  | clearuser n =>
      rw [lookups, List.mem_singleton] at hp
      exact hp ▸ h.forget
  | loaduser n known =>
      cases known with
      | true =>
          rw [lookups, List.mem_singleton] at hp
          exact hp ▸ h.request
      | false =>
          rw [lookups, List.mem_cons, List.mem_singleton] at hp
          rcases hp with rfl | rfl
          · exact h
          · exact (user_coherent h n).forget

end Calls

/-! ## Requests -/

/-- The nodes, and the one that a pending request may still add. -/
def nodesDue (s : UserMem) : Nat := s.usernode.length + if s.create then 1 else 0

section Requests

variable {s : UserMem} {n : Int}

/-- A node is added for a request that is taken back. -/
theorem nodesDue_user (h : Coherent s) (n : Int) : (s.user n).2.nodesDue = s.nodesDue := by
  rw [user]
  split
  · rfl
  · rcases scanuser_cases h.root (plainUid n) with ⟨_, hscan⟩ | ⟨_, _, ⟨k, r, _, _, hscan⟩ |
      ⟨k, _, _, hscan⟩ | ⟨_, hcreate, hscan⟩ | ⟨_, _, hscan⟩⟩
    · rw [hscan]
      rfl
    · rw [hscan]
      rfl
    · have hlen : (s.refilled (plainUid n) k).usernode.length = s.usernode.length := by
        simp [refilled, setRecord]
      rw [hscan, nodesDue, nodesDue, ← hlen]
      rfl
    · rw [hscan]
      simp [nodesDue, found, extended, hcreate]
    · rw [hscan]
      rfl

theorem nodesDue_collect (s : UserMem) : s.collect.nodesDue = s.nodesDue := by
  rw [collect]
  split
  · rfl
  · split
    · rfl
    · simp [nodesDue]

theorem nodesDue_request (s : UserMem) : nodesDue { s with create := true } ≤ s.nodesDue + 1 := by
  simp only [nodesDue, if_true]
  omega

theorem nodesDue_clearuser (h : Coherent s) (n : Int) : (s.clearuser n).nodesDue = s.nodesDue := by
  rw [clearuser, nodesDue_collect, nodesDue_user h.forget]
  rfl

theorem nodesDue_step (h : Coherent s) (c : Call) : (s.step c).nodesDue ≤ s.nodesDue + [c].countP requests := by
  cases c with
  | request =>
      exact nodesDue_request s
  | user n =>
      exact Nat.le_of_eq (nodesDue_user h n)
  | clearuser n =>
      exact Nat.le_of_eq (nodesDue_clearuser h n)
  | loaduser n known =>
      cases known with
      | true =>
          exact Nat.le_trans (Nat.le_of_eq (nodesDue_user h.request n)) (nodesDue_request s)
      | false =>
          have huser := user_coherent h n
          exact Nat.le_of_eq ((nodesDue_clearuser huser n).trans (nodesDue_user h n))

/-- What holds after every run: coherence, and no more nodes than requests. -/
theorem run_spec (h : Coherent s) (calls : List Call) :
    Coherent (calls.foldl step s) ∧
      (calls.foldl step s).nodesDue ≤ s.nodesDue + calls.countP requests := by
  induction calls generalizing s with
  | nil =>
      exact ⟨h, Nat.le_refl _⟩
  | cons c calls ih =>
      rcases ih (step_coherent h c) with ⟨hcoh, hdue⟩
      refine ⟨hcoh, ?_⟩
      have hstep := nodesDue_step h c
      have hcount : (c :: calls).countP requests = [c].countP requests + calls.countP requests := by
        rw [← List.countP_append]
        rfl
      rw [List.foldl_cons, hcount]
      omega

end Requests

/-! ## The cache and the list -/

/-- In every state that calls of `user`, `clearuser`, `loaduser` and creation requests lead to, a
lookup has the answer of the scan, and never a freed record, unless it is for the number in the cache
whose record was cleared; and there are no more nodes than requests, plus the root. -/
theorem user_reads_list (calls : List Call) :
    let s := calls.foldl step start
    (∀ c, ∀ p ∈ s.lookups c, Fit p.1 p.2 → Right p.1 p.2) ∧
      s.nodesDue ≤ 1 + calls.countP requests ∧
      ∀ n, s.create = false → (s.user n).2.usernode.length ≤ s.usernode.length := by
  intro s
  rcases run_spec start_coherent calls with ⟨hcoh, hdue⟩
  refine ⟨fun c p hp hfit => user_right (lookups_coherent hcoh c p hp) hfit, hdue, ?_⟩
  intro n hcreate
  calc (s.user n).2.usernode.length
      ≤ (s.user n).2.nodesDue := Nat.le_add_right _ _
    _ = s.nodesDue := nodesDue_user hcoh n
    _ = s.usernode.length := by simp [nodesDue, hcreate]

/-- A cleared record is handed out again; and a request for a user that is there already adds a
node for another number, two lookups later. -/
theorem user_stale_and_sticky :
    (let s := [Call.loaduser 1 true, .clearuser 1].foldl step start
     (s.user 1).1 = .alloc 0 ∧ 0 ∈ s.freed ∧ (s.scanuser 1).1 = .alloc 1) ∧
    (let s := [Call.loaduser 1 true, .request, .user 1].foldl step start
     (s.user 2).2.usernode.length = s.usernode.length + 1) := by
  decide

end UserMem

end PsyBnc
