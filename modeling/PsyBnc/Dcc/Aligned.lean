import PsyBnc.Dcc.Reading
import Mathlib.Data.List.Perm.Subperm

/-!
# Bots in memory and in the configuration

A call of `adddcc` puts the bot behind the others in both places, and `erasedcc` takes one out and moves
the entries behind it.  The two stay the same, and are loaded as they are, as long as every bot can be
read back and there are no more than 20.
-/

namespace PsyBnc

open CLib

theorem isPlain_userFile (usern : Nat) : ∀ b ∈ userFile usern, isPlain b = true := by
  intro b hb
  rw [userFile, List.mem_append] at hb
  rcases hb with hname | hdigit
  · have hall : ∀ b ∈ ascii "USER", isPlain b = true := by decide +kernel
    exact hall b hname
  · exact isPlain_of_isDigit (isDigit_of_mem_dec hdigit)

theorem isPlain_dccName (usern : Nat) : ∀ b ∈ userFile usern ++ ascii "DCC", isPlain b = true := by
  intro b hb
  rcases List.mem_append.1 hb with huser | hsect
  · exact isPlain_userFile usern b huser
  · have hall : ∀ b ∈ ascii "DCC", isPlain b = true := by decide +kernel
    exact hall b hsect

theorem length_dccName {usern : Nat} (husern : usern < 2 ^ 31) :
    (userFile usern).length + (ascii "DCC").length < 99 := by
  have hname : (ascii "DCC").length = 3 := by decide
  have huser := length_userFile husern
  rw [hname]
  omega

/-- The section of a user's bots. -/
def dccName {usern : Nat} (husern : usern < 2 ^ 31) : ListName where
  file := userFile usern
  sect := ascii "DCC"
  plain := ⟨plain_userFile usern, by decide⟩
  literal := isPlain_dccName usern
  fits := length_dccName husern

/-- The lines of the section are the entries `0`, `1`, … of the bots, every entry is read as its bot, and
a fresh user who loads them has the same bots. -/
structure Aligned (salt : Salt) (usern : Nat) (s : DccState) : Prop where
  numbers : ∀ e ∈ s.conf, sectionText (userFile usern) (ascii "DCC") <+: e → ∃ i d, i < s.dcc.length ∧
    e = numberedLine (sectionText (userFile usern) (ascii "DCC") ++ ascii "ENTRY") i d
  entries : ∀ i bot, s.dcc[i]? = some bot → ∃ value,
    getini (ascii "DCC") (dccEntry i) (userFile usern) s.conf = some value ∧
      readDcc salt value = some bot
  loads : ∃ t, loaddccs salt usern { conf := s.conf, dcc := [] } = some t ∧ t.dcc = s.dcc

inductive DccCall where
  | adddcc (x : DccArgs)
  | erasedcc (dccn : Int)

def DccCall.run (salt : Salt) (usern : Nat) (s : DccState) : DccCall → Option DccState
  | .adddcc x => PsyBnc.adddcc salt usern x.host x.port x.user x.pass x.name false s
  | .erasedcc dccn => PsyBnc.erasedcc usern dccn s

/-- A bot that is added can be read back, and loaded. -/
def DccCall.Kept (salt : Salt) (s : DccState) : DccCall → Prop
  | .adddcc x => s.dcc.length < 20 ∧ x.Kept salt
  | .erasedcc _ => True

/-! ## Moving entries -/

/-- `L`, one free number, and `R`. -/
def gap (L R : List CStr) (i : Nat) : Option CStr :=
  if i < L.length then L[i]? else if i = L.length then none else R[i - L.length - 1]?

section Moving

variable {usern : Nat} {husern : usern < 2 ^ 31} {conf : Conf} {L R ds : List CStr}

theorem dccEntry_eq {i : Nat} (hi : i < 256) : dccEntry i = listEntry i := by
  have hdigits : (dec i).length ≤ 3 := (length_dec_le (by decide)).2 (by omega)
  have hname : (ascii "ENTRY").length = 5 := by decide
  rw [dccEntry, listEntry, clip_eq_self, clip_eq_self]
  · rw [List.length_append, hname]
    omega
  · rw [List.length_append, hname]
    omega

theorem gap_nil (L : List CStr) : gap L [] = fun i => L[i]? := by
  funext i
  rw [gap]
  split
  · rfl
  · next hlen =>
    rw [List.getElem?_eq_none (Nat.le_of_not_lt hlen)]
    split
    · rfl
    · rfl

/-- The entry behind the free number takes it, and leaves its own. -/
theorem gap_move (L R : List CStr) (r v : CStr) :
    Function.update (Function.update (gap L (r :: R)) (L.length + 1) none) L.length (some v) =
      gap (L ++ [v]) R := by
  funext i
  rw [gap, List.length_append, List.length_singleton]
  rcases Nat.lt_trichotomy i L.length with hlt | heq | hgt
  · rw [Function.update_of_ne (Nat.ne_of_lt hlt), Function.update_of_ne (by omega), gap, if_pos hlt,
      if_pos (by omega), List.getElem?_append_left hlt]
  · subst heq
    rw [Function.update_self, if_pos (Nat.lt_succ_self _)]
    simp
  · rw [Function.update_of_ne (Nat.ne_of_gt hgt), if_neg (by omega)]
    by_cases hnext : i = L.length + 1
    · rw [hnext, Function.update_self, if_pos rfl]
    · rw [Function.update_of_ne hnext, if_neg hnext, gap, if_neg (by omega), if_neg (by omega)]
      have hsub : i - L.length - 1 = (i - (L.length + 1) - 1) + 1 := by omega
      rw [hsub, List.getElem?_cons_succ]

/-- An entry in the middle is deleted. -/
theorem gap_delete {j : Nat} (hj : j < ds.length) :
    Function.update (fun i => ds[i]?) j none = gap (ds.take j) (ds.drop (j + 1)) := by
  have hlen : (ds.take j).length = j := by
    rw [List.length_take]
    omega
  funext i
  rw [gap, hlen]
  rcases Nat.lt_trichotomy i j with hlt | heq | hgt
  · rw [Function.update_of_ne (Nat.ne_of_lt hlt), if_pos hlt, List.getElem?_take_of_lt hlt]
  · rw [heq, Function.update_self, if_neg (lt_irrefl j), if_pos rfl]
  · rw [Function.update_of_ne (Nat.ne_of_gt hgt), if_neg (by omega), if_neg (by omega),
      List.getElem?_drop]
    congr 1
    omega

/-- What is found behind the free number. -/
theorem getini_gap (h : Slots (dccName husern) conf (gap L R)) (hi : L.length + 1 < 256) :
    getini (ascii "DCC") (dccEntry (L.length + 1)) (userFile usern) conf = R[0]?.map (clip 200) := by
  have hgap : gap L R (L.length + 1) = R[0]? := by
    rw [gap, if_neg (by omega), if_neg (by omega)]
    congr 1
    omega
  rw [dccEntry_eq hi, ← hgap]
  exact h.getini hi

/-- The loop closes the gap; what is moved is what fits `value[200]`. -/
theorem moveEntries_spec (R : List CStr) {L : List CStr} {conf : Conf}
    (h : Slots (dccName husern) conf (gap L R)) (hroom : L.length + 1 + R.length ≤ 255)
    (hvis : ∀ d ∈ R, Visible (clip 200 d)) {fuel : Nat} (hfuel : R.length ≤ fuel) :
    ∃ conf', moveEntries usern fuel (L.length + 1) conf = some conf' ∧
      Slots (dccName husern) conf' fun i => (L ++ R.map (clip 200))[i]? := by
  induction R generalizing L conf fuel with
  | nil =>
      rw [moveEntries, getini_gap h (by omega)]
      refine ⟨conf, rfl, ?_⟩
      rw [List.map_nil, List.append_nil, ← gap_nil]
      exact h
  | cons r R ih =>
      rw [List.length_cons] at hroom hfuel
      cases fuel with
      | zero => omega
      | succ fuel =>
          have hi : L.length + 1 < 256 := by omega
          have hi' : L.length < 256 := by omega
          have hshort : (clip 200 r).length < 1800 := by
            rw [length_clip]
            omega
          rcases h.writeini hi none (fun d hno => by cases hno) with ⟨conf₁, hw₁, h₁⟩
          rcases h₁.writeini hi' (some (clip 200 r)) (fun d hd => by
            cases hd
            exact ⟨hshort, hvis r List.mem_cons_self⟩) with ⟨conf₂, hw₂, h₂⟩
          rw [gap_move] at h₂
          have hlen : (L ++ [clip 200 r]).length = L.length + 1 := by
            rw [List.length_append, List.length_singleton]
          have hroom₂ : (L ++ [clip 200 r]).length + 1 + R.length ≤ 255 := by
            rw [hlen]
            omega
          rcases ih h₂ hroom₂ (fun d hd => hvis d (List.mem_cons_of_mem _ hd))
            (Nat.le_of_succ_le_succ hfuel) with ⟨conf', hmove, hslots⟩
          refine ⟨conf', ?_, ?_⟩
          · rw [← dccEntry_eq hi] at hw₁
            rw [← dccEntry_eq hi'] at hw₂
            rw [hlen] at hmove
            rw [moveEntries, getini_gap h hi]
            simp only [List.getElem?_cons_zero, Option.map_some]
            change writeini (ascii "DCC") (dccEntry (L.length + 1)) (userFile usern) none conf = _ at hw₁
            change writeini (ascii "DCC") (dccEntry L.length) (userFile usern) _ conf₁ = _ at hw₂
            rw [hw₁, Option.bind_some, Nat.add_sub_cancel, hw₂, Option.bind_some]
            exact hmove
          · rw [List.map_cons]
            simpa using hslots

/-- There are at least as many lines as entries. -/
theorem Slots.length_le {f : ListName} (h : Slots f conf fun i => ds[i]?) : ds.length ≤ conf.length := by
  have hnodup : ((List.range ds.length).map fun i => f.line i (ds.getD i [])).Nodup := by
    apply List.nodup_range.map_on
    intro i _ j _ hsame
    exact (numberedLine_injective hsame).1
  have hsub : ((List.range ds.length).map fun i => f.line i (ds.getD i [])) ⊆ conf := by
    intro e he
    rcases List.mem_map.1 he with ⟨i, hi, rfl⟩
    apply h.mem_line.2
    have hlt := List.mem_range.1 hi
    simp [hlt]
  have hle := (hnodup.subperm hsub).length_le
  rw [List.length_map, List.length_range] at hle
  exact hle

end Moving

/-! ## Calls -/

/-- What the entries are read as. -/
def dccReads (salt : Salt) (ds : List CStr) : List (Option DccBot) :=
  ds.map fun d => readDcc salt (clip 200 d)

/-- The entries of the section, one for every bot. -/
def DccStored {usern : Nat} (husern : usern < 2 ^ 31) (s : DccState) (ds : List CStr) : Prop :=
  Slots (dccName husern) s.conf (fun i => ds[i]?) ∧ ds.length = s.dcc.length

section Calls

variable {salt : Salt} {usern : Nat} {husern : usern < 2 ^ 31} {s : DccState} {ds : List CStr}

theorem visible_of_read {d : CStr} {bot : DccBot} (h : readDcc salt d = some bot) : Visible d := by
  rcases Option.bind_eq_some_iff.1 h with ⟨p, hp, _⟩
  exact ⟨SEMICOLON, semicolon_of_dccParts hp, by decide⟩

/-- A new bot comes behind the others, in memory and in the configuration. -/
theorem DccStored.adddcc (h : DccStored husern s ds) (hroom : ds.length < 256) (x : DccArgs) :
    ∃ t, adddcc salt usern x.host x.port x.user x.pass x.name false s = some t ∧
      t.dcc = s.dcc ++ [x.bot] ∧ DccStored husern t (ds ++ [x.entry salt ++ [LF]]) := by
  rcases x.sizes with ⟨hname, huser, _, hpass⟩
  have hbot : (⟨clip 64 x.name, clip 64 x.user, clip 64 x.host, clip 64 x.pass, x.port⟩ : DccBot) =
      x.bot := by
    rw [DccArgs.bot, clip_eq_self hname, clip_eq_self huser, clip_eq_self (Nat.lt_trans hpass (by decide))]
  -- No buffer on the way to the file cuts the entry.
  have hhost : (clip 64 x.host).length ≤ 63 := by
    rw [length_clip]
    exact Nat.min_le_left _ _
  have hport := length_decInt_le x.int
  have htail : dccTail x.bot = clip 64 x.host ++ COLON :: (decInt x.port ++ [LF]) := by
    apply clip_eq_self
    simp only [DccArgs.bot, List.length_append, List.length_cons, List.length_nil]
    omega
  have htext : dccHead salt x.bot x.pass ++ SEMICOLON :: dccTail x.bot = x.entry salt ++ [LF] := by
    rw [dccHead_stored, htail]
    simp [DccArgs.entry, DccArgs.front, dccNames, DccArgs.bot]
  have hlength : (x.entry salt ++ [LF]).length < 1800 := by
    have hfront := length_front_le salt x
    simp only [DccArgs.entry, List.length_append, List.length_cons, List.length_nil]
    omega
  have hvisible : Visible (x.entry salt ++ [LF]) := by
    refine ⟨SEMICOLON, ?_, by decide⟩
    simp [DccArgs.entry, DccArgs.front]
  have hafile : clip 30 (userFile usern ++ ascii ".DCC") = (dccName husern).text := by
    have huserFile := length_userFile husern
    have hdot : ascii ".DCC" = DOT :: ascii "DCC" := by decide
    have hsect : (ascii ".DCC").length = 4 := by decide
    rw [clip_eq_self, hdot]
    · rfl
    · rw [List.length_append, hsect]
      omega
  -- The free slot is the one behind the last bot.
  rcases h.1.countconfentries hroom (by simp) (fun i hi => by simp [hi]) with ⟨cnt, hcount⟩
  rcases h.1.writeini hroom (some (x.entry salt ++ [LF])) (fun d hd => by
    cases hd
    exact ⟨hlength, hvisible⟩) with ⟨conf', hw, hslots⟩
  refine ⟨{ conf := conf', dcc := s.dcc ++ [x.bot] }, ?_, rfl, ?_, ?_⟩
  · have hpass' : clip 400 x.pass = x.pass := clip_eq_self (Nat.lt_trans hpass (by decide))
    have hbuf : clip 2048 (dccHead salt x.bot x.pass ++ SEMICOLON :: dccTail x.bot) =
        x.entry salt ++ [LF] := by
      rw [htext]
      exact clip_eq_self (Nat.lt_trans hlength (by decide))
    rw [PsyBnc.adddcc]
    simp only [hbot, hpass', hafile, Bool.false_eq_true, if_false]
    simp only [writelist, listName_text (dccName husern) (by decide : 100 ≤ 2048), hcount,
      Option.bind_some, hbuf, hw, Option.map_some]
  · have hupdate : Function.update (fun i => ds[i]?) ds.length (some (x.entry salt ++ [LF])) =
        fun i => (ds ++ [x.entry salt ++ [LF]])[i]? := by
      funext i
      rcases Nat.lt_trichotomy i ds.length with hlt | heq | hgt
      · rw [Function.update_of_ne (Nat.ne_of_lt hlt), List.getElem?_append_left hlt]
      · rw [heq, Function.update_self]
        simp
      · rw [Function.update_of_ne (Nat.ne_of_gt hgt), List.getElem?_eq_none (Nat.le_of_lt hgt),
          List.getElem?_eq_none (by
            rw [List.length_append, List.length_singleton]
            exact hgt)]
    rw [← hupdate]
    exact hslots
  · rw [List.length_append, List.length_append, h.2]
    rfl

/-- A bot is taken out of both places. -/
theorem DccStored.erasedcc (h : DccStored husern s ds) (hroom : ds.length ≤ 254)
    (hreads : dccReads salt ds = s.dcc.map some) (dccn : Int) :
    ∃ t ds', erasedcc usern dccn s = some t ∧ DccStored husern t ds' ∧ dccReads salt ds' = t.dcc.map some ∧
      t.dcc.length ≤ s.dcc.length := by
  by_cases hdccn : 1 ≤ dccn ∧ dccn ≤ s.dcc.length
  · rcases Int.eq_ofNat_of_zero_le (Int.le_trans (by decide) hdccn.1) with ⟨n, rfl⟩
    cases n with
    | zero => omega
    | succ j =>
        have hj : j < ds.length := by
          rw [h.2]
          omega
        have hvis : ∀ d ∈ ds, Visible (clip 200 d) := by
          intro d hd
          have hmem : readDcc salt (clip 200 d) ∈ dccReads salt ds := List.mem_map_of_mem hd
          rw [hreads] at hmem
          rcases List.mem_map.1 hmem with ⟨bot, _, hbot⟩
          exact visible_of_read hbot.symm
        -- The entry of the bot goes, and then the ones behind it move down by one slot.
        rcases h.1.writeini (i := j) (by omega) none (fun d hno => by cases hno) with ⟨conf₁, hw, h₁⟩
        rw [gap_delete hj] at h₁
        have hlen : (ds.take j).length = j := by
          rw [List.length_take]
          omega
        have hfuel : (ds.drop (j + 1)).length ≤ s.conf.length := by
          have hle := h.1.length_le
          rw [List.length_drop]
          omega
        rcases moveEntries_spec (ds.drop (j + 1)) h₁ (by rw [hlen, List.length_drop]; omega)
          (fun d hd => hvis d (List.mem_of_mem_drop hd)) hfuel with ⟨conf', hmove, hslots⟩
        refine ⟨{ conf := conf', dcc := s.dcc.eraseIdx j },
          ds.take j ++ (ds.drop (j + 1)).map (clip 200), ?_, ⟨hslots, ?_⟩, ?_, ?_⟩
        · rw [← dccEntry_eq (by omega)] at hw
          change writeini (ascii "DCC") (dccEntry j) (userFile usern) none s.conf = _ at hw
          rw [hlen] at hmove
          rw [PsyBnc.erasedcc, if_pos hdccn]
          simp only [Int.toNat_natCast, Nat.add_sub_cancel, hw, Option.bind_some,
            hmove, Option.map_some]
        · rw [List.length_append, List.length_map, hlen, List.length_drop, List.length_eraseIdx, ← h.2,
            if_pos hj]
          omega
        · -- An entry that is moved is cut to what was read of it, and reads the same.
          have hclip : ∀ d : CStr, clip 200 (clip 200 d) = clip 200 d := by
            intro d
            apply clip_eq_self
            rw [length_clip]
            omega
          have hmoved : dccReads salt ((ds.drop (j + 1)).map (clip 200)) = dccReads salt (ds.drop (j + 1)) := by
            rw [dccReads, List.map_map, dccReads]
            apply List.map_congr_left
            intro d _
            rw [Function.comp_apply, hclip]
          have happend : ∀ l l' : List CStr, dccReads salt (l ++ l') = dccReads salt l ++ dccReads salt l' :=
            fun l l' => List.map_append
          rw [happend, hmoved, List.eraseIdx_eq_take_drop_succ, List.map_append, List.map_take,
            List.map_drop, ← hreads, dccReads, dccReads, dccReads, List.map_take, List.map_drop]
        · rw [List.length_eraseIdx]
          split
          · exact Nat.sub_le _ _
          · exact le_refl _
  · refine ⟨s, ds, ?_, h, hreads, le_refl _⟩
    rw [PsyBnc.erasedcc, if_neg hdccn]

/-- The loop makes the bots of the first entries. -/
theorem loaddccs_take (hslots : Slots (dccName husern) s.conf fun i => ds[i]?)
    {bots : List DccBot} (hreads : dccReads salt ds = bots.map some) {n : Nat} (hn : n ≤ 20) :
    (List.range n).foldlM (loaddcc salt usern) { conf := s.conf, dcc := [] } =
      some { conf := s.conf, dcc := bots.take n } := by
  induction n with
  | zero =>
      rfl
  | succ n ih =>
      have hlt : n < 256 := by omega
      have hget := hslots.getini hlt
      rw [← dccEntry_eq hlt] at hget
      change getini (ascii "DCC") (dccEntry n) (userFile usern) s.conf = _ at hget
      have hread : (ds[n]?).map (fun d => readDcc salt (clip 200 d)) = (bots[n]?).map some := by
        have hat := congrArg (fun l => l[n]?) hreads
        simpa [dccReads] using hat
      rw [List.range_succ, List.foldlM_append, ih (Nat.le_of_succ_le hn)]
      simp only [Option.bind_eq_bind, Option.bind_some, List.foldlM_cons, List.foldlM_nil]
      rw [List.take_add_one]
      cases hd : ds[n]? with
      | none =>
          rw [hd, Option.map_none] at hread
          have hbots : bots[n]? = none := Option.map_eq_none_iff.1 hread.symm
          rw [loaddcc, hget, hd, hbots]
          simp
      | some d =>
          rw [hd, Option.map_some] at hread
          rcases Option.map_eq_some_iff.1 hread.symm with ⟨bot, hbot, hsame⟩
          rcases Option.bind_eq_some_iff.1 hsame.symm with ⟨parts, hparts, hpass⟩
          rcases Option.map_eq_some_iff.1 hpass with ⟨pass, hdecrypt, hmake⟩
          rw [loaddcc, hget, hd, Option.map_some]
          simp only [hparts, hdecrypt, Option.bind_some, adddcc, if_true, hmake, hbot, Option.toList_some]
          rfl

/-- What is to hold, of the entries. -/
theorem aligned_iff (h : DccStored husern s ds) (hroom : ds.length ≤ 256) :
    Aligned salt usern s ↔ dccReads salt ds = s.dcc.map some ∧ s.dcc.length ≤ 20 := by
  have hget : ∀ i, i < 256 → getini (ascii "DCC") (dccEntry i) (userFile usern) s.conf =
      ds[i]?.map (clip 200) := by
    intro i hi
    rw [dccEntry_eq hi]
    exact h.1.getini hi
  constructor
  · intro hal
    have hreads : dccReads salt ds = s.dcc.map some := by
      apply List.ext_getElem?
      intro i
      rw [dccReads, List.getElem?_map, List.getElem?_map]
      cases hbot : s.dcc[i]? with
      | none =>
          have hnone : ds[i]? = none := by
            rw [List.getElem?_eq_none_iff] at hbot ⊢
            rw [h.2]
            exact hbot
          rw [hnone]
          rfl
      | some bot =>
          have hlt : i < ds.length := by
            rw [h.2]
            exact (List.getElem?_eq_some_iff.1 hbot).1
          rcases hal.entries i bot hbot with ⟨value, hvalue, hread⟩
          rw [hget i (by omega), Option.map_eq_some_iff] at hvalue
          rcases hvalue with ⟨d, hd, rfl⟩
          rw [hd, Option.map_some, hread, Option.map_some]
    refine ⟨hreads, ?_⟩
    rcases hal.loads with ⟨t, ht, hdcc⟩
    rw [loaddccs, loaddccs_take h.1 hreads (le_refl 20), Option.some.injEq] at ht
    rw [← ht] at hdcc
    exact (List.take_eq_self_iff _).1 hdcc
  · rintro ⟨hreads, hlen⟩
    refine ⟨?_, ?_, ?_⟩
    · intro e he hpre
      rcases (h.1.lines e).1 ⟨he, hpre⟩ with ⟨i, d, hi, rfl⟩
      refine ⟨i, d, ?_, rfl⟩
      rw [← h.2]
      exact (List.getElem?_eq_some_iff.1 hi).1
    · intro i bot hbot
      have hat : (dccReads salt ds)[i]? = some (some bot) := by
        rw [hreads, List.getElem?_map, hbot, Option.map_some]
      rw [dccReads, List.getElem?_map] at hat
      rcases Option.map_eq_some_iff.1 hat with ⟨d, hd, hread⟩
      have hlt := (List.getElem?_eq_some_iff.1 hd).1
      refine ⟨clip 200 d, ?_, hread⟩
      rw [hget i (by omega), hd, Option.map_some]
    · refine ⟨_, loaddccs_take h.1 hreads (le_refl 20), ?_⟩
      exact List.take_of_length_le hlen

/-- A call does to both places what it is to do, and keeps them the same just if the bot is kept. -/
theorem DccCall.step (h : DccStored husern s ds) (hroom : ds.length ≤ 256) (hal : Aligned salt usern s)
    (call : DccCall) : ∃ t, call.run salt usern s = some t ∧
      (∃ ds', DccStored husern t ds' ∧ ds'.length ≤ 256) ∧ (call.Kept salt s ↔ Aligned salt usern t) := by
  rcases (aligned_iff h hroom).1 hal with ⟨hreads, hlen⟩
  have hds : ds.length ≤ 20 := by
    rw [h.2]
    exact hlen
  cases call with
  | adddcc x =>
      rcases @DccStored.adddcc salt _ _ _ _ h (by omega) x with ⟨t, ht, hdcc, hstored⟩
      have hroom' : (ds ++ [x.entry salt ++ [LF]]).length ≤ 256 := by
        rw [List.length_append, List.length_singleton]
        omega
      refine ⟨t, ht, ⟨_, hstored, hroom'⟩, ?_⟩
      have happend : dccReads salt (ds ++ [x.entry salt ++ [LF]]) =
          s.dcc.map some ++ [readDcc salt (clip 200 (x.entry salt ++ [LF]))] := by
        rw [← hreads, dccReads, List.map_append]
        rfl
      rw [aligned_iff hstored hroom', happend, hdcc, List.map_append, List.length_append,
        List.length_singleton, List.append_cancel_left_eq, List.map_singleton, List.singleton_inj,
        readDcc_iff, and_comm, DccCall.Kept]
      exact Iff.rfl
  | erasedcc dccn =>
      rcases h.erasedcc (by omega) hreads dccn with ⟨t, ds', ht, hstored, hreads', hle⟩
      have hroom' : ds'.length ≤ 256 := by
        rw [hstored.2]
        omega
      refine ⟨t, ht, ⟨ds', hstored, hroom'⟩, ?_⟩
      rw [aligned_iff hstored hroom', DccCall.Kept]
      exact ⟨fun _ => ⟨hreads', hle.trans hlen⟩, fun _ => trivial⟩

/-- From an empty section on, bots in memory and in the configuration are the same in every state of a run,
and are loaded as they are, exactly if every bot is added to less than 20 and can be read back. -/
theorem dccs_aligned_iff (husern : usern < 2 ^ 31) (conf : Conf) (hne : conf ≠ [])
    (hempty : ∀ e ∈ conf, ¬ sectionText (userFile usern) (ascii "DCC") <+: e) (calls : List DccCall) :
    Safe (DccCall.run salt usern) (Aligned salt usern) { conf := conf, dcc := [] } calls ↔
      StepsMeet (DccCall.run salt usern) (DccCall.Kept salt) { conf := conf, dcc := [] } calls := by
  have hstart : DccStored husern { conf := conf, dcc := [] } [] := by
    refine ⟨⟨?_, ?_, ?_, ?_⟩, rfl⟩
    · rcases List.exists_mem_of_ne_nil conf hne with ⟨e, he⟩
      exact ⟨e, he, hempty e he⟩
    · rw [List.filter_eq_nil_iff.2]
      · exact List.nodup_nil
      · intro e he
        rw [decide_eq_true_iff]
        exact hempty e he
    · intro e
      constructor
      · rintro ⟨he, hpre⟩
        exact absurd hpre (hempty e he)
      · rintro ⟨i, d, hno, _⟩
        cases hno
    · intro i d hno
      cases hno
  apply safe_iff_stepsMeet_of_total fun s => ∃ ds, DccStored husern s ds ∧ ds.length ≤ 256
  · rintro s call ⟨ds, hstored, hroom⟩ hal
    exact call.step hstored hroom hal
  · exact ⟨[], hstart, Nat.zero_le _⟩
  · exact (aligned_iff hstart (Nat.zero_le _)).2 ⟨rfl, Nat.zero_le _⟩

end Calls

/-- A user without bots. -/
def botless : Conf := [ascii "USER1.USER.NICK=bob"]

def shortArgs : DccArgs where
  name := ascii "bot"
  user := ascii "me"
  host := ascii "bots.example"
  pass := ascii "secret"
  port := 3333
  fields := by decide +kernel
  sizes := by decide +kernel
  int := by decide

/-- A password that passes for a ciphered one, and names whose cipher it is. -/
def plusArgs : DccArgs where
  name := ascii "+0W"
  user := ascii "ax"
  host := ascii "h"
  pass := ascii "+se"
  port := 5
  fields := by decide +kernel
  sizes := by decide +kernel
  int := by decide

/-- Fields of the greatest length. -/
def longArgs : DccArgs where
  name := List.replicate 63 97
  user := List.replicate 63 97
  host := List.replicate 63 97
  pass := ascii "pw"
  port := 6667
  fields := by decide +kernel
  sizes := by decide +kernel
  int := by decide

example : plusArgs.stored buildSalt = ascii "+0W ax " ∧ plusArgs.Kept buildSalt := by decide +kernel

/-- With another name the same password is lost. -/
example : ¬ ({ plusArgs with
    name := ascii "bot"
    fields := by decide +kernel
    sizes := by decide +kernel } : DccArgs).Kept buildSalt := by
  decide +kernel

theorem dccs_aligned_iff_short :
    Safe (DccCall.run buildSalt 1) (Aligned buildSalt 1) { conf := botless, dcc := [] }
        [.adddcc shortArgs, .erasedcc 1] ↔
      StepsMeet (DccCall.run buildSalt 1) (DccCall.Kept buildSalt) { conf := botless, dcc := [] }
        [.adddcc shortArgs, .erasedcc 1] :=
  dccs_aligned_iff (by decide : 1 < 2 ^ 31) botless (by decide) (by decide +kernel) _

/-- Of the port `6667` only the first digit fits `value[200]`. -/
theorem dcc_port_cut :
    (DccCall.run buildSalt 1 { conf := botless, dcc := [] } (.adddcc longArgs)).map DccState.dcc =
        some [longArgs.bot] ∧
      ((DccCall.run buildSalt 1 { conf := botless, dcc := [] } (.adddcc longArgs)).bind fun s =>
          (loaddccs buildSalt 1 { conf := s.conf, dcc := [] }).map DccState.dcc) =
        some [{ longArgs.bot with port := 6 }] := by
  decide +kernel

end PsyBnc
