import PsyBnc.Lib.Rank
import PsyBnc.UChannel.Model

/-!
# Prefix modes of a member

`prefixmodes` and `prefixchars` rank the modes of a member.  Granting goes through both strings and
revoking cuts a symbol out: in either case the mode of the member is the set of his modes, written in
the order of the ranks.
-/

namespace PsyBnc

open CLib Function

/-- The two strings of a channel side by side. -/
def Uchannelt.prefixes (lkm : Uchannelt) : List (Byte × Byte) := lkm.prefixmodes.zip lkm.prefixchars

/-- Parallel strings of distinct characters that fit into `mode[20]`. -/
structure Uchannelt.Parallel (lkm : Uchannelt) : Prop where
  letters : lkm.prefixmodes.Nodup
  symbols : lkm.prefixchars.Nodup
  length : lkm.prefixmodes.length = lkm.prefixchars.length
  short : lkm.prefixmodes.length ≤ 19

/-- A call of `addchannelusermode`, or of `removechannelusermode`. -/
structure ModeCall where
  add : Bool
  mode : Byte
  deriving DecidableEq, Repr

def ModeCall.apply (nick : CStr) (lkm : Uchannelt) (c : ModeCall) : Uchannelt :=
  (if c.add then addchannelusermode else removechannelusermode) lkm nick c.mode

/-- The most recent call for a mode was an add. -/
def lastAdd (calls : List ModeCall) (mode : Byte) : Bool :=
  ((calls.filter fun c => c.mode = mode).getLast?.map ModeCall.add).getD false

/-- The mode of a member. -/
def Uchannelt.modeAt (lkm : Uchannelt) (k : Nat) : Option CStr := (lkm.users[k]?).map Uchannelusert.mode

variable {lkm : Uchannelt} {nick : CStr} {k : Nat} {S : Byte → Bool}

namespace Uchannelt.Parallel

theorem map_fst (h : lkm.Parallel) : lkm.prefixes.map Prod.fst = lkm.prefixmodes :=
  List.map_fst_zip (le_of_eq h.length)

theorem map_snd (h : lkm.Parallel) : lkm.prefixes.map Prod.snd = lkm.prefixchars :=
  List.map_snd_zip (le_of_eq h.length.symm)

theorem ranking (h : lkm.Parallel) : Ranking lkm.prefixes where
  letters := by
    rw [h.map_fst]
    exact h.letters
  symbols := by
    rw [h.map_snd]
    exact h.symbols

theorem exists_symbol (h : lkm.Parallel) {mode : Byte} (hmode : mode ∈ lkm.prefixmodes) :
    ∃ c, (mode, c) ∈ lkm.prefixes := by
  rw [← h.map_fst] at hmode
  rcases List.mem_map.1 hmode with ⟨⟨m, c⟩, hmem, rfl⟩
  exact ⟨c, hmem⟩

theorem length_ranked_le (h : lkm.Parallel) (S : Byte → Bool) : (ranked lkm.prefixes S).length ≤ 19 := by
  have hle := (ranked_sublist lkm.prefixes S).length_le
  rw [h.map_snd, ← h.length] at hle
  exact hle.trans h.short

end Uchannelt.Parallel

/-- Changing the mode of one member keeps every nick. -/
theorem getchannelnick_modify_mode (lkm : Uchannelt) (nick : CStr) (k : Nat) (f : CStr → CStr) :
    getchannelnick
      { lkm with users := lkm.users.modify k fun chanuser =>
          { chanuser with mode := f chanuser.mode } } nick = getchannelnick lkm nick := by
  have hnicks : ∀ users : List Uchannelusert, ∀ k,
      (users.modify k fun chanuser => { chanuser with mode := f chanuser.mode }).map
        Uchannelusert.nick = users.map Uchannelusert.nick := by
    intro users
    induction users with
    | nil =>
        intro k
        cases k <;> rfl
    | cons chanuser users ih =>
        intro k
        cases k with
        | zero =>
            rfl
        | succ k =>
            simp [ih k]
  have hfind : ∀ users : List Uchannelusert,
      users.findIdx? (fun ukm => sameName 64 ukm.nick nick) =
        (users.map Uchannelusert.nick).findIdx? fun n => sameName 64 n nick := by
    intro users
    rw [List.findIdx?_map]
    rfl
  rw [getchannelnick, getchannelnick, hfind, hfind, hnicks]

theorem modeAt_modify (lkm : Uchannelt) (k : Nat) (f : CStr → CStr) :
    Uchannelt.modeAt { lkm with users := lkm.users.modify k fun chanuser =>
      { chanuser with mode := f chanuser.mode } } k = (lkm.modeAt k).map f := by
  simp only [Uchannelt.modeAt, List.getElem?_modify, if_true]
  cases lkm.users[k]? with
  | none =>
      rfl
  | some chanuser =>
      rfl

/-- `addchannelusermode` adds the mode to the set. -/
theorem addchannelusermode_ranked (h : lkm.Parallel) (hk : getchannelnick lkm nick = some k)
    (hmode : lkm.modeAt k = some (ranked lkm.prefixes S)) (mode : Byte) :
    getchannelnick (addchannelusermode lkm nick mode) nick = some k ∧
      (addchannelusermode lkm nick mode).modeAt k =
        some (ranked lkm.prefixes (update S mode true)) := by
  have hadd : addchannelusermode lkm nick mode =
      { lkm with users := lkm.users.modify k fun chanuser =>
          { chanuser with mode := (rankInsert lkm.prefixes mode chanuser.mode).take 20 } } := by
    rw [addchannelusermode, hk]
    rfl
  constructor
  · rw [hadd, getchannelnick_modify_mode lkm nick k fun t => (rankInsert lkm.prefixes mode t).take 20]
    exact hk
  · have hlength := h.length_ranked_le (update S mode true)
    rw [hadd, modeAt_modify lkm k fun t => (rankInsert lkm.prefixes mode t).take 20, hmode,
      Option.map_some, h.ranking.insert_ranked, List.take_of_length_le (by omega)]

/-- The translation of a letter in `removechannelusermode`. -/
theorem find_symbol (h : lkm.Parallel) {mode c : Byte} (hp : (mode, c) ∈ lkm.prefixes) :
    lkm.prefixes.find? (fun p => p.1 == mode) = some (mode, c) := by
  cases hfind : lkm.prefixes.find? (fun p => p.1 == mode) with
  | none =>
      have hno := List.find?_eq_none.1 hfind _ hp
      exact absurd (beq_self_eq_true mode) hno
  | some p =>
      rcases p with ⟨m, c'⟩
      have hm : m = mode := by
        simpa using List.find?_some hfind
      subst hm
      rw [h.ranking.symbol_unique hp (List.mem_of_find?_eq_some hfind)]

/-- `removechannelusermode` removes the mode from the set. -/
theorem removechannelusermode_ranked (h : lkm.Parallel) (hk : getchannelnick lkm nick = some k)
    (hset : lkm.modeAt k = some (ranked lkm.prefixes S)) {mode : Byte}
    (hmode : mode ∈ lkm.prefixmodes) :
    getchannelnick (removechannelusermode lkm nick mode) nick = some k ∧
      (removechannelusermode lkm nick mode).modeAt k =
        some (ranked lkm.prefixes (update S mode false)) := by
  rcases h.exists_symbol hmode with ⟨c, hp⟩
  have hfind := find_symbol h hp
  have hremove : removechannelusermode lkm nick mode =
      { lkm with users := lkm.users.modify k fun chanuser =>
          { chanuser with mode := chanuser.mode.erase c } } := by
    rw [Uchannelt.prefixes] at hfind
    simp only [removechannelusermode, hfind, hk]
  constructor
  · rw [hremove, getchannelnick_modify_mode lkm nick k fun t => t.erase c]
    exact hk
  · rw [hremove, modeAt_modify lkm k fun t => t.erase c, hset, Option.map_some,
      h.ranking.erase_ranked S hp]

/-! ## Sequences of calls -/

/-- One call. -/
theorem ModeCall.apply_ranked (h : lkm.Parallel) (hk : getchannelnick lkm nick = some k)
    (hset : lkm.modeAt k = some (ranked lkm.prefixes S)) {c : ModeCall}
    (hmode : c.mode ∈ lkm.prefixmodes) :
    getchannelnick (c.apply nick lkm) nick = some k ∧
      (c.apply nick lkm).modeAt k = some (ranked lkm.prefixes (update S c.mode c.add)) := by
  rcases c with ⟨add, mode⟩
  cases add with
  | true =>
      exact addchannelusermode_ranked h hk hset mode
  | false =>
      exact removechannelusermode_ranked h hk hset hmode

theorem ModeCall.apply_prefixes (nick : CStr) (lkm : Uchannelt) (c : ModeCall) :
    (c.apply nick lkm).prefixmodes = lkm.prefixmodes ∧
      (c.apply nick lkm).prefixchars = lkm.prefixchars := by
  rcases c with ⟨add, mode⟩
  cases add with
  | true =>
      simp only [ModeCall.apply, if_true, addchannelusermode]
      cases getchannelnick lkm nick with
      | none =>
          exact ⟨rfl, rfl⟩
      | some k =>
          exact ⟨rfl, rfl⟩
  | false =>
      simp only [ModeCall.apply, Bool.false_eq_true, if_false, removechannelusermode]
      cases getchannelnick lkm nick with
      | none =>
          exact ⟨rfl, rfl⟩
      | some k =>
          exact ⟨rfl, rfl⟩

/-- The set after a sequence of calls. -/
def grantedBy (S : Byte → Bool) (calls : List ModeCall) : Byte → Bool :=
  calls.foldl (fun S c => update S c.mode c.add) S

/-- The most recent call for a mode. -/
def lastChange (calls : List ModeCall) (mode : Byte) : Option Bool :=
  (calls.filter fun c => c.mode = mode).getLast?.map ModeCall.add

theorem lastChange_append (calls : List ModeCall) (c : ModeCall) (mode : Byte) :
    lastChange (calls ++ [c]) mode = if c.mode = mode then some c.add else lastChange calls mode := by
  rw [lastChange, List.filter_append]
  by_cases hmode : c.mode = mode
  · simp [hmode]
  · simp [hmode, lastChange]

/-- A mode is as its most recent call left it. -/
theorem grantedBy_eq (S : Byte → Bool) (calls : List ModeCall) (mode : Byte) :
    grantedBy S calls mode = (lastChange calls mode).getD (S mode) := by
  induction calls using List.reverseRecOn with
  | nil =>
      rfl
  | append_singleton calls c ih =>
      rw [grantedBy, List.foldl_append, List.foldl_cons, List.foldl_nil, lastChange_append]
      by_cases hmode : c.mode = mode
      · rw [if_pos hmode, ← hmode, update_self, Option.getD_some]
      · rw [if_neg hmode, update_of_ne (Ne.symm hmode)]
        exact ih

theorem grantedBy_none (calls : List ModeCall) (mode : Byte) :
    grantedBy (fun _ => false) calls mode = lastAdd calls mode :=
  grantedBy_eq (fun _ => false) calls mode

theorem foldl_apply_ranked {calls : List ModeCall} (h : lkm.Parallel)
    (hk : getchannelnick lkm nick = some k)
    (hset : lkm.modeAt k = some (ranked lkm.prefixes S))
    (hcalls : ∀ c ∈ calls, c.mode ∈ lkm.prefixmodes) :
    getchannelnick (calls.foldl (fun lkm c => c.apply nick lkm) lkm) nick = some k ∧
      (calls.foldl (fun lkm c => c.apply nick lkm) lkm).modeAt k =
        some (ranked lkm.prefixes (grantedBy S calls)) := by
  induction calls generalizing lkm S with
  | nil =>
      exact ⟨hk, hset⟩
  | cons c calls ih =>
      rcases ModeCall.apply_ranked h hk hset (hcalls c (by simp)) with ⟨hk', hset'⟩
      rcases ModeCall.apply_prefixes nick lkm c with ⟨hletters, hsymbols⟩
      have hprefixes : (c.apply nick lkm).prefixes = lkm.prefixes := by
        rw [Uchannelt.prefixes, hletters, hsymbols, Uchannelt.prefixes]
      have hparallel : (c.apply nick lkm).Parallel := by
        refine ⟨?_, ?_, ?_, ?_⟩
        · rw [hletters]
          exact h.letters
        · rw [hsymbols]
          exact h.symbols
        · rw [hletters, hsymbols]
          exact h.length
        · rw [hletters]
          exact h.short
      rw [← hprefixes] at hset' ⊢
      apply ih hparallel hk' hset'
      intro c' hc'
      rw [hletters]
      exact hcalls c' (List.mem_cons_of_mem _ hc')

/-- The modes of a member that came without any are, in the order of the ranks, those whose most
recent call was an add. -/
theorem member_modes_ranked (lkm : Uchannelt) (htable : lkm.Parallel) (nick : CStr) (k : Nat)
    (hk : getchannelnick lkm nick = some k) (hnew : lkm.modeAt k = some [])
    (calls : List ModeCall) (hcalls : ∀ c ∈ calls, c.mode ∈ lkm.prefixmodes) :
    let lkm' := calls.foldl (fun lkm c => c.apply nick lkm) lkm
    getchannelnick lkm' nick = some k ∧ ∃ mode, lkm'.modeAt k = some mode ∧
      mode.Sublist lkm.prefixchars ∧ mode.Nodup ∧
      ∀ p ∈ lkm.prefixmodes.zip lkm.prefixchars, p.2 ∈ mode ↔ lastAdd calls p.1 = true := by
  have hempty : ranked lkm.prefixes (fun _ => false) = [] := by
    simp [ranked]
  rw [← hempty] at hnew
  rcases foldl_apply_ranked htable hk hnew hcalls with ⟨hk', hset⟩
  refine ⟨hk', _, hset, ?_, htable.ranking.nodup _, ?_⟩
  · rw [← htable.map_snd]
    exact ranked_sublist _ _
  · rintro ⟨mode, c⟩ hp
    rw [htable.ranking.mem_ranked hp, grantedBy_none]

/-- A founder who is an operator, and gives it up. -/
theorem member_modes_ranked_founder :
    let lkm : Uchannelt :=
      { newchannel 1 (ascii "qov") (ascii "~@+") (ascii "b,k,l,imnpst") (ascii "#a") with
        users := [{ nick := ascii "me" }] }
    let calls := [⟨true, 111⟩, ⟨true, 118⟩, ⟨true, 113⟩, ⟨false, 111⟩]
    ∃ mode, (calls.foldl (fun lkm c => c.apply (ascii "ME") lkm) lkm).modeAt 0 = some mode ∧
      mode.Sublist (ascii "~@+") ∧ lastAdd calls 113 = true ∧ (126 ∈ mode ↔ lastAdd calls 113 = true) := by
  have htable : Uchannelt.Parallel
      { newchannel 1 (ascii "qov") (ascii "~@+") (ascii "b,k,l,imnpst") (ascii "#a") with
        users := [{ nick := ascii "me" }] } := ⟨by decide, by decide, by decide, by decide⟩
  rcases member_modes_ranked _ htable (ascii "ME") 0 (by decide) (by decide)
    [⟨true, 111⟩, ⟨true, 118⟩, ⟨true, 113⟩, ⟨false, 111⟩] (by decide) with ⟨_, mode, hmode, hsub, _, hiff⟩
  exact ⟨mode, hmode, hsub, by decide, hiff (113, 126) (by decide)⟩

end PsyBnc
