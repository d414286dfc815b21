import PsyBnc.Network.Token
import PsyBnc.Lib.Words
import PsyBnc.UChannel.Model
import PsyBnc.Accounts.Owner

/-!
# The tokens of a line (`userinbound`)

`userinbound` lets `checknetwork` choose the network and then calls it until it finds no token.  Every call looks at
the first `~` of the line only, and cuts from the blank or the colon in front of it.
-/

namespace PsyBnc

open CLib

/-- `tildeSplit` with the byte in front of the buffer, which is read when the line starts with `~`. -/
def tildeSplitFrom (front : Byte) (s : CStr) : Option (CStr × CStr) :=
  match cutAt TILDE s with
  | none => none
  | some (u, v) =>
      if u.getLastD front = WILDS ∨ u.getLastD front = EXCL then
        (cutAt TILDE v).map fun q => (u ++ TILDE :: q.1, q.2)
      else some (u, v)

/-- The token without the `#` of a channel. -/
def untagged (token : CStr) : CStr := if token.head? = some HASH then token.tail else token

namespace Users

/-- The network of a token; `line` is the line without it. -/
def network (s : Users) (usern : Int) (pt1 line : CStr) : Networked :=
  if strmncasecmp pt1 (ascii "int") then ⟨usern + 10000, line, none⟩
  else
    match s.usernode.find? fun uid =>
        (s.account uid).parent = usern ∧ strmcmp (s.account uid).network pt1 = true with
    | some uid => ⟨uid, line, none⟩
    | none => ⟨usern, [], some pt1⟩

/-- A token that is not an unknown one. -/
def Known (s : Users) (usern : Int) (pt1 : CStr) : Prop :=
  strmncasecmp pt1 (ascii "int") = true ∨
    ∃ uid ∈ s.usernode, (s.account uid).parent = usern ∧ (s.account uid).network = pt1

/-- `checknetwork` on any line. -/
def checknetworkFrom (front : Byte) (s : Users) (usern : Int) (ircbuf : CStr) : Networked :=
  let tmpircbuf := clip 8192 ircbuf
  match tildeSplitFrom front tmpircbuf with
  | none => ⟨usern, ircbuf, none⟩
  | some (before, pt2) =>
      if COLON ∈ before.tail ∧ ¬ ascii "NICK " <+: tmpircbuf then ⟨usern, ircbuf, none⟩
      else
        let start := tokenStart before
        if start.1 = [] then ⟨usern, ircbuf, none⟩
        else s.network usern (untagged start.2) (clip 8192 (start.1 ++ SP :: pt2))

/-- The loop of `userinbound` from call `i` on: the line, and the tokens that the user is told to be unknown.  `front i`
is what call `i` finds in front of its buffer. -/
def tokenLoop (front : Nat → Byte) (s : Users) (ausern : Int) : Nat → Nat → CStr → Option (CStr × List CStr)
  | 0, _, _ => none
  | k + 1, i, ircbuf =>
      let r := s.checknetworkFrom (front i) ausern ircbuf
      if r.uid = ausern then some (r.ircbuf, r.unknown.toList)
      else (tokenLoop front s ausern k (i + 1) r.ircbuf).map fun q => (q.1, r.unknown.toList ++ q.2)

/-- The user who typed, or his parent. -/
def ausern (s : Users) (iusern : Int) : Int :=
  if (s.account iusern).parent ≠ 0 then (s.account iusern).parent else iusern

/-- The line that `userinbound` goes on with, and for whom. -/
structure Inbound where
  usern : Int
  ircbuf : CStr
  unknown : List CStr
  deriving DecidableEq, Repr

/-- The beginning of `userinbound`.  Every round that goes on shortens the line, so its length is fuel enough. -/
def userinbound (front : Nat → Byte) (s : Users) (iusern : Int) (ircbuf : CStr) : Option Inbound :=
  let first := s.checknetworkFrom (front 0) (s.ausern iusern) ircbuf
  (tokenLoop front s (s.ausern iusern) (first.ircbuf.length + 1) 1 first.ircbuf).map fun q =>
    ⟨first.uid, q.1, first.unknown.toList ++ q.2⟩

end Users

/-! ## One call -/

section Call

variable {front : Byte} {s : Users} {usern uid : Int} {line before pt2 x y z p t v : CStr}

theorem tildeSplitFrom_eq (h : line.head? ≠ some TILDE) (front : Byte) :
    tildeSplitFrom front line = tildeSplit line := by
  rw [tildeSplitFrom, tildeSplit]
  cases hcut : cutAt TILDE line with
  | none => rfl
  | some q =>
      rcases q with ⟨u, v⟩
      rcases cutAt_eq_some.1 hcut with ⟨rfl, _⟩
      cases u using List.reverseRecOn with
      | nil => exact absurd rfl h
      | append_singleton u b =>
          simp only [List.getLastD_concat, List.getLast?_concat, Option.some.injEq]

/-- Where nothing is read in front of the buffer the two are the same. -/
theorem checknetwork_eq (h : (clip 8192 line).head? ≠ some TILDE) (front : Byte) :
    s.checknetwork usern line = some (s.checknetworkFrom front usern line) := by
  rw [Users.checknetwork, Users.checknetworkFrom]
  simp only [h, if_false, tildeSplitFrom_eq h]
  cases tildeSplit (clip 8192 line) with
  | none => rfl
  | some q =>
      rcases q with ⟨before, pt2⟩
      simp only
      by_cases hcontent : COLON ∈ before.tail ∧ ¬ ascii "NICK " <+: clip 8192 line
      · rw [if_pos hcontent, if_pos hcontent]
      · rw [if_neg hcontent, if_neg hcontent]
        by_cases hstart : (tokenStart before).1 = []
        · rw [if_pos hstart, if_pos hstart]
        · rw [if_neg hstart, if_neg hstart]
          rw [Users.network, untagged]
          generalize (if (tokenStart before).2.head? = some HASH then (tokenStart before).2.tail
            else (tokenStart before).2) = pt1
          by_cases hint : strmncasecmp pt1 (ascii "int") = true
          · rw [if_pos hint, if_pos hint]
          · rw [if_neg hint, if_neg hint]
            cases s.usernode.find? fun uid =>
                (s.account uid).parent = usern ∧ strmcmp (s.account uid).network pt1 = true with
            | none => rfl
            | some uid => rfl

theorem tildeSplitFrom_text (h : tildeSplitFrom front line = some (before, pt2)) : line = before ++ TILDE :: pt2 := by
  rw [tildeSplitFrom] at h
  cases hcut : cutAt TILDE line with
  | none =>
      rw [hcut] at h
      cases h
  | some q =>
      rcases q with ⟨u, v⟩
      rw [hcut] at h
      simp only at h
      rcases cutAt_eq_some.1 hcut with ⟨rfl, _⟩
      by_cases hmask : u.getLastD front = WILDS ∨ u.getLastD front = EXCL
      · rw [if_pos hmask, Option.map_eq_some_iff] at h
        rcases h with ⟨⟨c, d⟩, hsecond, heq⟩
        rcases cutAt_eq_some.1 hsecond with ⟨rfl, _⟩
        cases heq
        rw [List.append_assoc, List.cons_append]
      · rw [if_neg hmask] at h
        cases h
        rfl

/-- The token reaches back to the last blank or colon. -/
theorem tokenStart_cases (before : CStr) : (tokenStart before).1 = [] ∨
    ∃ c, (c = SP ∨ c = COLON) ∧ before = (tokenStart before).1 ++ c :: (tokenStart before).2 := by
  rw [tokenStart]
  simp only
  have hsplit := @List.takeWhile_append_dropWhile _ (fun b => decide (b ≠ SP ∧ b ≠ COLON)) before.reverse
  generalize before.reverse.takeWhile (fun b => decide (b ≠ SP ∧ b ≠ COLON)) = token at hsplit ⊢
  cases hdrop : before.reverse.dropWhile fun b => decide (b ≠ SP ∧ b ≠ COLON) with
  | nil =>
      left
      rw [hdrop, List.append_nil] at hsplit
      rw [hsplit, List.reverse_reverse, List.take_eq_nil_iff]
      exact Or.inl (by omega)
  | cons c rest =>
      right
      have hc := List.head_dropWhile_not (fun b => decide (b ≠ SP ∧ b ≠ COLON)) (hdrop ▸ List.cons_ne_nil c rest)
      simp only [hdrop, List.head_cons, decide_eq_false_iff_not, not_and_or, not_not] at hc
      have hbefore : before = rest.reverse ++ c :: token.reverse := by
        rw [← List.reverse_reverse before, ← hsplit, hdrop, List.reverse_append, List.reverse_cons, List.append_assoc]
        rfl
      refine ⟨c, hc, ?_⟩
      have hlen : before.length - token.reverse.length - 1 = rest.reverse.length := by
        rw [hbefore, List.length_append, List.length_cons]
        omega
      rw [hlen, hbefore, List.take_left]

/-- The token of the internal network, of a network, or an unknown one. -/
theorem network_cases (s : Users) (usern : Int) (pt1 line : CStr) :
    (∃ uid, s.network usern pt1 line = ⟨uid, line, none⟩ ∧ (uid = usern + 10000 ∨ (s.account uid).parent = usern)) ∨
      s.network usern pt1 line = ⟨usern, [], some pt1⟩ := by
  rw [Users.network]
  by_cases hint : strmncasecmp pt1 (ascii "int") = true
  · rw [if_pos hint]
    exact Or.inl ⟨_, rfl, Or.inl rfl⟩
  rw [if_neg hint]
  cases hfind : s.usernode.find? fun uid =>
      (s.account uid).parent = usern ∧ strmcmp (s.account uid).network pt1 = true with
  | none => exact Or.inr rfl
  | some uid =>
      have hfound := List.find?_some hfind
      rw [decide_eq_true_eq] at hfound
      exact Or.inl ⟨uid, rfl, Or.inr hfound.1⟩

theorem network_known (hroot : (s.account usern).parent ≠ usern) (h : s.Known usern p) (line : CStr) :
    ∃ uid, s.network usern p line = ⟨uid, line, none⟩ ∧ uid ≠ usern := by
  have hother : ∀ {uid : Int}, uid = usern + 10000 ∨ (s.account uid).parent = usern → uid ≠ usern := by
    rintro uid hwho rfl
    rcases hwho with hint | hparent
    · omega
    · exact hroot hparent
  rcases network_cases s usern p line with ⟨uid, hnet, hwho⟩ | hnet
  · exact ⟨uid, hnet, hother hwho⟩
  · exfalso
    rw [Users.network] at hnet
    rcases h with hint | ⟨uid, hmem, hparent, hname⟩
    · rw [if_pos hint] at hnet
      exact absurd (congrArg Users.Networked.unknown hnet).symm (Option.some_ne_none p)
    · split at hnet
      · exact absurd (congrArg Users.Networked.unknown hnet).symm (Option.some_ne_none p)
      · cases hfind : s.usernode.find? fun x =>
            (s.account x).parent = usern ∧ strmcmp (s.account x).network p = true with
        | none =>
            have hno := List.find?_eq_none.1 hfind uid hmem
            rw [decide_eq_true_eq] at hno
            exact hno ⟨hparent, strmcmp_iff.2 hname⟩
        | some x =>
            rw [hfind] at hnet
            exact absurd (congrArg Users.Networked.unknown hnet).symm (Option.some_ne_none p)

theorem network_unknown (h : ¬ s.Known usern p) (line : CStr) : s.network usern p line = ⟨usern, [], some p⟩ := by
  rw [Users.Known, not_or] at h
  rw [Users.network, if_neg h.1]
  cases hfind : s.usernode.find? fun uid =>
      (s.account uid).parent = usern ∧ strmcmp (s.account uid).network p = true with
  | none => rfl
  | some uid =>
      have hfound := List.find?_some hfind
      rw [decide_eq_true_eq] at hfound
      exact absurd ⟨uid, List.mem_of_find?_eq_some hfind, hfound.1, strmcmp_iff.1 hfound.2⟩ h.2

/-- What a call can do: leave the line, cut a token out, or clear the line. -/
inductive TokenOutcome (front : Byte) (s : Users) (usern : Int) (line : CStr) : Users.Networked → Prop where
  | kept : TokenOutcome front s usern line ⟨usern, line, none⟩
  | cut (uid : Int) (before pt2 : CStr) : tildeSplitFrom front (clip 8192 line) = some (before, pt2) →
      (tokenStart before).1 ≠ [] → uid = usern + 10000 ∨ (s.account uid).parent = usern →
      TokenOutcome front s usern line ⟨uid, clip 8192 ((tokenStart before).1 ++ SP :: pt2), none⟩
  | unknown (pt1 : CStr) : TokenOutcome front s usern line ⟨usern, [], some pt1⟩

theorem checknetworkFrom_outcome (front : Byte) (s : Users) (usern : Int) (line : CStr) :
    TokenOutcome front s usern line (s.checknetworkFrom front usern line) := by
  rw [Users.checknetworkFrom]
  cases hsplit : tildeSplitFrom front (clip 8192 line) with
  | none => exact TokenOutcome.kept
  | some q =>
      rcases q with ⟨before, pt2⟩
      simp only
      by_cases hcontent : COLON ∈ before.tail ∧ ¬ ascii "NICK " <+: clip 8192 line
      · rw [if_pos hcontent]
        exact TokenOutcome.kept
      rw [if_neg hcontent]
      by_cases hstart : (tokenStart before).1 = []
      · rw [if_pos hstart]
        exact TokenOutcome.kept
      rw [if_neg hstart]
      rcases network_cases s usern (untagged (tokenStart before).2) (clip 8192 ((tokenStart before).1 ++ SP :: pt2))
        with ⟨uid, hnet, hwho⟩ | hnet
      · rw [hnet]
        exact TokenOutcome.cut uid before pt2 hsplit hstart hwho
      · rw [hnet]
        exact TokenOutcome.unknown _

/-- Where the token of a short line is found. -/
theorem checknetworkFrom_found (hlen : line.length < 8192) (hhead : line.head? ≠ some TILDE)
    (hsplit : tildeSplit line = some (before, pt2)) (hcontent : ascii "NICK " <+: line ∨ COLON ∉ before.tail)
    (hstart : (tokenStart before).1 ≠ []) :
    s.checknetworkFrom front usern line =
      s.network usern (untagged (tokenStart before).2) (clip 8192 ((tokenStart before).1 ++ SP :: pt2)) := by
  have hopen : ¬ (COLON ∈ before.tail ∧ ¬ ascii "NICK " <+: line) := by
    rintro ⟨hcolon, hnick⟩
    rcases hcontent with h | h
    · exact hnick h
    · exact h hcolon
  rw [Users.checknetworkFrom, clip_eq_self hlen, tildeSplitFrom_eq hhead, hsplit]
  simp only
  rw [if_neg hopen, if_neg hstart]

/-- A token that is cut out takes its `~` with it, and leaves a blank for the byte in front of it. -/
theorem length_cut_lt (h : tildeSplitFrom front (clip 8192 line) = some (before, pt2))
    (hstart : (tokenStart before).1 ≠ []) :
    (clip 8192 ((tokenStart before).1 ++ SP :: pt2)).length < line.length := by
  rcases (tokenStart_cases before).resolve_left hstart with ⟨c, _, hbefore⟩
  have htext := congrArg List.length (tildeSplitFrom_text h)
  have hlen := congrArg List.length hbefore
  have hline := (clip_prefix_self 8192 line).length_le
  have hcut := (clip_prefix_self 8192 ((tokenStart before).1 ++ SP :: pt2)).length_le
  simp only [List.length_append, List.length_cons] at htext hlen hcut
  omega

/-- The commas of the token are gone, and no other one is. -/
theorem count_cut_le (h : tildeSplitFrom front (clip 8192 line) = some (before, pt2))
    (hstart : (tokenStart before).1 ≠ []) :
    (clip 8192 ((tokenStart before).1 ++ SP :: pt2)).count COMMA + (tokenStart before).2.count COMMA ≤
      line.count COMMA := by
  rcases (tokenStart_cases before).resolve_left hstart with ⟨c, hc, hbefore⟩
  have hsp : ([SP] : CStr).count COMMA = 0 := by decide
  have htilde : ([TILDE] : CStr).count COMMA = 0 := by decide
  have hbyte : ([c] : CStr).count COMMA = 0 := by
    rcases hc with rfl | rfl
    · decide
    · decide
  have hcut : (clip 8192 ((tokenStart before).1 ++ SP :: pt2)).count COMMA ≤
      (tokenStart before).1.count COMMA + pt2.count COMMA := by
    calc (clip 8192 ((tokenStart before).1 ++ SP :: pt2)).count COMMA
        ≤ ((tokenStart before).1 ++ ([SP] ++ pt2)).count COMMA :=
          (clip_prefix_self 8192 _).sublist.count_le COMMA
      _ = (tokenStart before).1.count COMMA + pt2.count COMMA := by
          rw [List.count_append, List.count_append, hsp, Nat.zero_add]
  calc (clip 8192 ((tokenStart before).1 ++ SP :: pt2)).count COMMA + (tokenStart before).2.count COMMA
      ≤ (tokenStart before).1.count COMMA + pt2.count COMMA + (tokenStart before).2.count COMMA :=
        Nat.add_le_add_right hcut _
    _ = (((tokenStart before).1 ++ ([c] ++ (tokenStart before).2)) ++ ([TILDE] ++ pt2)).count COMMA := by
        simp only [List.count_append, hbyte, htilde]
        omega
    _ = (clip 8192 line).count COMMA := by
        rw [tildeSplitFrom_text h]
        conv_rhs => rw [hbefore]
        rfl
    _ ≤ line.count COMMA := (clip_prefix_self 8192 line).sublist.count_le COMMA

end Call

/-! ## The loop -/

/-- The loop ends with the line `e`. -/
def Strips (front : Nat → Byte) (s : Users) (ausern : Int) (i : Nat) (line e : CStr) : Prop :=
  ∃ k msgs, Users.tokenLoop front s ausern k i line = some (e, msgs)

section Loop

variable {front : Nat → Byte} {s : Users} {ausern uid : Int} {i k : Nat} {line e : CStr} {q : CStr × List CStr}

theorem tokenLoop_returns (hk : line.length < k) : ∃ q, Users.tokenLoop front s ausern k i line = some q := by
  induction k generalizing i line with
  | zero => exact absurd hk (Nat.not_lt_zero _)
  | succ k ih =>
      rw [Users.tokenLoop]
      have hout := checknetworkFrom_outcome (front i) s ausern line
      generalize s.checknetworkFrom (front i) ausern line = r at hout
      by_cases huid : r.uid = ausern
      · rw [if_pos huid]
        exact ⟨_, rfl⟩
      · rw [if_neg huid]
        cases hout with
        | kept => exact absurd rfl huid
        | unknown pt1 => exact absurd rfl huid
        | cut uid before pt2 hsplit hstart _ =>
            have hlt := length_cut_lt hsplit hstart
            rcases @ih (i + 1) (clip 8192 ((tokenStart before).1 ++ SP :: pt2)) (by omega) with ⟨q, hq⟩
            rw [hq]
            exact ⟨_, rfl⟩

theorem tokenLoop_succ (h : Users.tokenLoop front s ausern k i line = some q) :
    Users.tokenLoop front s ausern (k + 1) i line = some q := by
  induction k generalizing i line q with
  | zero => cases h
  | succ k ih =>
      rw [Users.tokenLoop] at h ⊢
      split at h
      · next huid => rwa [if_pos huid]
      · next huid =>
        rw [if_neg huid]
        rcases Option.map_eq_some_iff.1 h with ⟨q', hq', heq⟩
        rw [ih hq', Option.map_some, heq]

/-- More fuel changes nothing. -/
theorem tokenLoop_unique {k' : Nat} {q' : CStr × List CStr} (h : Users.tokenLoop front s ausern k i line = some q)
    (h' : Users.tokenLoop front s ausern k' i line = some q') : q = q' := by
  have hmore : ∀ {k q} d, Users.tokenLoop front s ausern k i line = some q →
      Users.tokenLoop front s ausern (k + d) i line = some q := by
    intro k q d hq
    induction d with
    | zero => exact hq
    | succ d ih => exact tokenLoop_succ ih
  have hleft := hmore k' h
  have hright := hmore k h'
  rw [Nat.add_comm k' k] at hright
  exact Option.some.inj (hleft.symm.trans hright)

theorem strips_kept (h : s.checknetworkFrom (front i) ausern line = ⟨ausern, line, none⟩) :
    Strips front s ausern i line e ↔ e = line := by
  have hone : Users.tokenLoop front s ausern 1 i line = some (line, []) := by
    rw [Users.tokenLoop, h]
    exact if_pos rfl
  constructor
  · rintro ⟨k, msgs, hk⟩
    exact (congrArg Prod.fst (tokenLoop_unique hone hk)).symm
  · rintro rfl
    exact ⟨1, [], hone⟩

theorem strips_unknown {pt1 : CStr} (h : s.checknetworkFrom (front i) ausern line = ⟨ausern, [], some pt1⟩) :
    Strips front s ausern i line e ↔ e = [] := by
  have hone : Users.tokenLoop front s ausern 1 i line = some ([], [pt1]) := by
    rw [Users.tokenLoop, h]
    exact if_pos rfl
  constructor
  · rintro ⟨k, msgs, hk⟩
    exact (congrArg Prod.fst (tokenLoop_unique hone hk)).symm
  · rintro rfl
    exact ⟨1, [pt1], hone⟩

/-- A round that goes on. -/
theorem strips_succ (huid : (s.checknetworkFrom (front i) ausern line).uid ≠ ausern) :
    Strips front s ausern i line e ↔
      Strips front s ausern (i + 1) (s.checknetworkFrom (front i) ausern line).ircbuf e := by
  have hnext : ∀ k, Users.tokenLoop front s ausern (k + 1) i line =
      (Users.tokenLoop front s ausern k (i + 1) (s.checknetworkFrom (front i) ausern line).ircbuf).map fun q =>
        (q.1, (s.checknetworkFrom (front i) ausern line).unknown.toList ++ q.2) := by
    intro k
    rw [Users.tokenLoop]
    exact if_neg huid
  constructor
  · rintro ⟨k, msgs, hk⟩
    cases k with
    | zero => cases hk
    | succ k =>
        rw [hnext] at hk
        rcases Option.map_eq_some_iff.1 hk with ⟨q, hq, heq⟩
        cases heq
        exact ⟨k, q.2, hq⟩
  · rintro ⟨k, msgs, hk⟩
    refine ⟨k + 1, (s.checknetworkFrom (front i) ausern line).unknown.toList ++ msgs, ?_⟩
    rw [hnext, hk]
    rfl

/-- A round that cuts a token out. -/
theorem strips_next {line' : CStr} (h : s.checknetworkFrom (front i) ausern line = ⟨uid, line', none⟩)
    (huid : uid ≠ ausern) : Strips front s ausern i line e ↔ Strips front s ausern (i + 1) line' e := by
  have hsucc := @strips_succ front s ausern i line e
  rw [h] at hsucc
  exact hsucc huid

/-- No round adds a comma. -/
theorem Strips.count_le (h : Strips front s ausern i line e) : e.count COMMA ≤ line.count COMMA := by
  rcases h with ⟨k, msgs, hk⟩
  induction k generalizing i line msgs with
  | zero => cases hk
  | succ k ih =>
      rw [Users.tokenLoop] at hk
      have hout := checknetworkFrom_outcome (front i) s ausern line
      generalize s.checknetworkFrom (front i) ausern line = r at hout hk
      have hle : r.ircbuf.count COMMA ≤ line.count COMMA := by
        cases hout with
        | kept => exact Nat.le_refl _
        | unknown pt1 => exact Nat.zero_le _
        | cut uid before pt2 hsplit hstart _ => exact Nat.le_of_add_right_le (count_cut_le hsplit hstart)
      split at hk
      · cases hk
        exact hle
      · rcases Option.map_eq_some_iff.1 hk with ⟨q, hq, heq⟩
        cases heq
        exact (ih _ hq).trans hle

/-- The loop ends with a cleared line or with one that a call leaves alone. -/
theorem Strips.last (hroot : (s.account ausern).parent ≠ ausern) (h : Strips front s ausern i line e) :
    e = [] ∨ ∃ b, s.checknetworkFrom b ausern e = ⟨ausern, e, none⟩ := by
  rcases h with ⟨k, msgs, hk⟩
  induction k generalizing i line msgs with
  | zero => cases hk
  | succ k ih =>
      rw [Users.tokenLoop] at hk
      have hout := checknetworkFrom_outcome (front i) s ausern line
      generalize hr : s.checknetworkFrom (front i) ausern line = r at hout hk
      by_cases huid : r.uid = ausern
      · rw [if_pos huid, Option.some.injEq] at hk
        cases hk
        cases hout with
        | kept => exact Or.inr ⟨front i, hr⟩
        | unknown pt1 => exact Or.inl rfl
        | cut uid before pt2 hsplit hstart hwho =>
            exfalso
            change uid = ausern at huid
            subst huid
            rcases hwho with hint | hparent
            · omega
            · exact hroot hparent
      · rw [if_neg huid] at hk
        rcases Option.map_eq_some_iff.1 hk with ⟨q, hq, heq⟩
        cases heq
        exact ih _ hq

/-- `userinbound` always comes out of its loop. -/
theorem userinbound_returns (front : Nat → Byte) (s : Users) (iusern : Int) (line : CStr) :
    ∃ r, s.userinbound front iusern line = some r := by
  rcases @tokenLoop_returns front s (s.ausern iusern) 1
    ((s.checknetworkFrom (front 0) (s.ausern iusern) line).ircbuf.length + 1)
    (s.checknetworkFrom (front 0) (s.ausern iusern) line).ircbuf (Nat.lt_succ_self _) with ⟨q, hq⟩
  rw [Users.userinbound, hq]
  exact ⟨_, rfl⟩

theorem userinbound_iff {iusern : Int} : (∃ msgs, s.userinbound front iusern line = some ⟨uid, e, msgs⟩) ↔
    (s.checknetworkFrom (front 0) (s.ausern iusern) line).uid = uid ∧
      Strips front s (s.ausern iusern) 1 (s.checknetworkFrom (front 0) (s.ausern iusern) line).ircbuf e := by
  rcases @tokenLoop_returns front s (s.ausern iusern) 1
    ((s.checknetworkFrom (front 0) (s.ausern iusern) line).ircbuf.length + 1)
    (s.checknetworkFrom (front 0) (s.ausern iusern) line).ircbuf (Nat.lt_succ_self _) with ⟨q, hq⟩
  rw [Users.userinbound, hq, Option.map_some]
  constructor
  · rintro ⟨msgs, hmsgs⟩
    cases hmsgs
    exact ⟨rfl, _, q.2, hq⟩
  · rintro ⟨rfl, k, msgs, hk⟩
    rw [tokenLoop_unique hq hk]
    exact ⟨_, rfl⟩

end Loop

end PsyBnc
