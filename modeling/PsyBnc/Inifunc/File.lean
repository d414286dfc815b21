import PsyBnc.Inifunc.Clear
import PsyBnc.Inifunc.Store
import PsyBnc.Lib.Run

/-!
# The cache and its file

`flushconfig` writes every entry on a line of its own; `readconfig` reads the file back through
windows of 400 bytes.  Between the two stands the bound of 398 bytes: a longer entry comes back in
pieces.  `writeini` builds entries of up to 2047 bytes, so not every cache it builds survives.
-/

namespace PsyBnc

open CLib

/-- What is written to the file and read by a fresh process is the cache again. -/
def RoundTrips (conf : Conf) : Prop := readconfig [] (some (flushconfig conf)) = some conf

instance (conf : Conf) : Decidable (RoundTrips conf) := by
  dsimp [RoundTrips]
  infer_instance

/-- The entries are lines that `flushconfig` does not skip. -/
def Lines (conf : Conf) : Prop := ∀ entry ∈ conf, LF ∉ entry ∧ 2 ≤ entry.length

instance (conf : Conf) : Decidable (Lines conf) := by
  dsimp [Lines]
  infer_instance

/-- The entries fit one window of `readconfig`, terminator included. -/
def Short (conf : Conf) : Prop := ∀ entry ∈ conf, entry.length ≤ 398

instance (conf : Conf) : Decidable (Short conf) := by
  dsimp [Short]
  infer_instance

/-! ## One line -/

/-- A short line is read in one go, with its terminator. -/
theorem fgets_line {entry : CStr} (hlf : LF ∉ entry) (hlen : entry.length ≤ 398) (rest : CStr) :
    fgets 400 (entry ++ LF :: rest) = (entry ++ [LF], rest) := by
  have hpos : 399 - entry.length = (398 - entry.length) + 1 := by omega
  have htake : (entry ++ LF :: rest).take 399 =
      entry ++ LF :: rest.take (398 - entry.length) := by
    simp [List.take_append, hpos, List.take_of_length_le (show entry.length ≤ 399 by omega)]
  simp [fgets, htake, cutAt_append hlf]

/-- The first window of a long line holds 399 bytes of it and no terminator. -/
theorem fgets_long {entry : CStr} (hlf : LF ∉ entry) (hlen : 399 ≤ entry.length) (rest : CStr) :
    fgets 400 (entry ++ LF :: rest) = (entry.take 399, entry.drop 399 ++ LF :: rest) := by
  have htake : (entry ++ LF :: rest).take 399 = entry.take 399 :=
    List.take_append_of_le_length hlen
  have hdrop : (entry ++ LF :: rest).drop 399 = entry.drop 399 ++ LF :: rest :=
    List.drop_append_of_le_length hlen
  have hcut : cutAt LF (entry.take 399) = none :=
    cutAt_eq_none.2 (fun hmem => hlf (List.mem_of_mem_take hmem))
  simp [fgets, htake, hdrop, hcut]

/-- One round of the reading loop: what `fgets` stores, up to its newline, is an entry. -/
theorem readLines_succ {file : CStr} (hne : file ≠ []) (k : Nat) :
    readLines (k + 1) file =
      (match cutAt LF (fgets 400 file).1 with
        | some (u, _) => u
        | none => (fgets 400 file).1) :: readLines k (fgets 400 file).2 := by
  cases file with
  | nil =>
      exact absurd rfl hne
  | cons b bs =>
      rfl

theorem readLines_line {entry : CStr} (hlf : LF ∉ entry) (hlen : entry.length ≤ 398) (rest : CStr)
    (k : Nat) : readLines (k + 1) (entry ++ LF :: rest) = entry :: readLines k rest := by
  rw [readLines_succ (by simp), fgets_line hlf hlen]
  simp [cutAt_append hlf]

theorem readLines_long {entry : CStr} (hlf : LF ∉ entry) (hlen : 399 ≤ entry.length)
    (rest : CStr) (k : Nat) :
    readLines (k + 1) (entry ++ LF :: rest) =
      entry.take 399 :: readLines k (entry.drop 399 ++ LF :: rest) := by
  have hcut : cutAt LF (entry.take 399) = none :=
    cutAt_eq_none.2 (fun hmem => hlf (List.mem_of_mem_take hmem))
  rw [readLines_succ (by simp), fgets_long hlf hlen]
  simp [hcut]

theorem flushconfig_cons {entry : CStr} (hlen : 2 ≤ entry.length) (conf : Conf) :
    flushconfig (entry :: conf) = entry ++ LF :: flushconfig conf := by
  have h1 : 1 < entry.length := hlen
  simp [flushconfig, h1]

/-- A long line never comes back: it is cut, or an empty entry follows it. -/
theorem readLines_long_ne {entry : CStr} {conf : Conf} (hlines : Lines (entry :: conf))
    (hlen : 399 ≤ entry.length) {k : Nat} (hk : (flushconfig (entry :: conf)).length ≤ k) :
    readLines k (flushconfig (entry :: conf)) ≠ entry :: conf := by
  have hentry := hlines entry (by simp)
  rw [flushconfig_cons hentry.2] at hk ⊢
  have hk2 : ∃ j, k = j + 2 := by
    refine ⟨k - 2, ?_⟩
    simp only [List.length_append, List.length_cons] at hk
    omega
  rcases hk2 with ⟨j, rfl⟩
  rw [readLines_long hentry.1 hlen]
  intro heq
  rcases List.cons.inj heq with ⟨hhead, htail⟩
  by_cases h399 : entry.length = 399
  · -- The window ends just before the newline, which is then read as a line of its own.
    have hdrop : entry.drop 399 = [] := List.drop_eq_nil_of_le (by omega)
    have hempty : readLines (j + 1) ([] ++ LF :: flushconfig conf) =
        [] :: readLines j (flushconfig conf) :=
      readLines_line (by simp) (by simp) (flushconfig conf) j
    rw [hdrop, hempty] at htail
    have hmem : ([] : CStr) ∈ conf := by
      rw [← htail]
      exact List.mem_cons_self
    exact absurd (hlines [] (List.mem_cons_of_mem _ hmem)).2 (by simp)
  · have hcut := congrArg List.length hhead
    simp only [List.length_take] at hcut
    omega

/-! ## The whole file -/

theorem readLines_flushconfig_iff {conf : Conf} (hlines : Lines conf) {k : Nat}
    (hk : (flushconfig conf).length ≤ k) :
    readLines k (flushconfig conf) = conf ↔ Short conf := by
  induction conf generalizing k with
  | nil =>
      cases k with
      | zero =>
          simp [readLines, Short]
      | succ k =>
          simp [flushconfig, readLines, Short]
  | cons entry conf ih =>
      have hentry := hlines entry (by simp)
      have hrest : Lines conf := fun e he => hlines e (List.mem_cons_of_mem _ he)
      by_cases hlen : entry.length ≤ 398
      · rw [flushconfig_cons hentry.2] at hk ⊢
        have hk1 : ∃ j, k = j + 1 := by
          refine ⟨k - 1, ?_⟩
          simp only [List.length_append, List.length_cons] at hk
          omega
        rcases hk1 with ⟨j, rfl⟩
        have hj : (flushconfig conf).length ≤ j := by
          simp only [List.length_append, List.length_cons] at hk
          omega
        rw [readLines_line hentry.1 hlen, List.cons.injEq, ih hrest hj]
        simp [Short, hlen]
      · have hlong := readLines_long_ne hlines (by omega) hk
        refine ⟨fun heq => absurd heq hlong, ?_⟩
        exact fun hshort => absurd (hshort entry (by simp)) hlen

/-- The file brings a cache of lines back if and only if all of them are short. -/
theorem roundTrips_iff_short {conf : Conf} (hlines : Lines conf) :
    RoundTrips conf ↔ Short conf := by
  have hiff := readLines_flushconfig_iff hlines (Nat.le_refl _)
  simpa [RoundTrips, readconfig] using hiff

/-! ## Calls -/

/-- A text without a newline. -/
abbrev LineText := {s : CStr // LF ∉ s}

/-- The calls that build a cache. -/
inductive CacheCall where
  | writeini (sect param inidat : LineText) (data : Option LineText)
  | clearsectionconfig (pattern : LineText)

def CacheCall.run (conf : Conf) : CacheCall → Option Conf
  | .writeini sect param inidat data =>
      PsyBnc.writeini sect.1 param.1 inidat.1 (data.map Subtype.val) conf
  | .clearsectionconfig pattern => PsyBnc.clearsectionconfig pattern.1 conf

/-- The condition on a call: data is only written to a non-empty cache and its line is short; a
section is not erased when it is the only entry. -/
def CacheCall.Fits (conf : Conf) : CacheCall → Prop
  | .writeini sect param inidat data =>
      ∀ d, dataPtr (data.map Subtype.val) = some d →
        conf ≠ [] ∧ (clip 200 (entryText inidat.1 sect.1 param.1)).length + d.length ≤ 398
  | .clearsectionconfig pattern => ∀ entry, conf = [entry] → ¬ pattern.1 <+: entry

section Call

variable {conf conf' : Conf}

/-- The line that a call stores is a line, and it is short if and only if key and data are. -/
theorem newLine_line {sect param inidat : LineText} {data : Option LineText} {line : CStr}
    (h : newLine sect.1 param.1 inidat.1 (data.map Subtype.val) = some line) :
    LF ∉ line ∧ 2 ≤ line.length := by
  rcases Option.map_eq_some_iff.1 h with ⟨d, hd, rfl⟩
  have hdata : LF ∉ d := by
    rcases Option.filter_eq_some_iff.1 hd with ⟨hmap, _⟩
    rcases Option.map_eq_some_iff.1 hmap with ⟨t, _, rfl⟩
    exact t.2
  constructor
  · intro hmem
    have hkey : LF ∉ entryText inidat.1 sect.1 param.1 := by
      have hdot : LF ≠ DOT := by decide
      have heq : LF ≠ EQUALS := by decide
      simp [entryText, inidat.2, sect.2, param.2, hdot, heq]
    rcases List.mem_append.1 (mem_of_mem_clip hmem) with hk | hk
    · exact hkey (mem_of_mem_clip hk)
    · exact hdata hk
  · simp only [iniLine, length_clip, List.length_append, entryText, List.length_cons,
      List.length_nil]
    omega

theorem newLine_short_iff {sect param inidat d : CStr} :
    (iniLine sect param inidat d).length ≤ 398 ↔
      (clip 200 (entryText inidat sect param)).length + d.length ≤ 398 := by
  simp only [iniLine, length_clip, List.length_append]
  omega

theorem writeini_lines {sect param inidat : LineText} {data : Option LineText}
    (hw : writeini sect.1 param.1 inidat.1 (data.map Subtype.val) conf = some conf')
    (hlines : Lines conf) : Lines conf' := by
  rcases (writeini_written hw).splice with ⟨old, hsplice, _, _⟩
  intro e he
  rcases hsplice.mem_or_of_mem he with hnew | hold
  · exact newLine_line (Option.mem_toList.1 hnew)
  · exact hlines e hold

theorem run_lines {call : CacheCall} (hrun : call.run conf = some conf') (hlines : Lines conf) :
    Lines conf' := by
  cases call with
  | writeini sect param inidat data =>
      exact writeini_lines hrun hlines
  | clearsectionconfig pattern =>
      exact fun e he => hlines e (mem_of_mem_clearsectionconfig hrun he)

/-- Writing keeps the cache short if and only if the new line is. -/
theorem writeini_short_iff {sect param inidat : CStr} {data : Option CStr}
    (hw : writeini sect param inidat data conf = some conf') (hshort : Short conf) :
    Short conf' ↔ ∀ line ∈ newLine sect param inidat data, line.length ≤ 398 := by
  rcases (writeini_written hw).splice with ⟨old, hsplice, _, _⟩
  constructor
  · intro h line hline
    exact h line (hsplice.mem_of_mem_new (by simpa using hline))
  · intro h e he
    rcases hsplice.mem_or_of_mem he with hnew | hold
    · exact h e (by simpa using hnew)
    · exact hshort e hold

/-- One call succeeds and leaves a short cache if and only if it meets the condition. -/
theorem fits_iff_run_short (call : CacheCall) (hshort : Short conf) :
    call.Fits conf ↔ ∃ conf', call.run conf = some conf' ∧ Short conf' := by
  cases call with
  | writeini sect param inidat data =>
      cases hw : writeini sect.1 param.1 inidat.1 (data.map Subtype.val) conf with
      | none =>
          rcases writeini_eq_none_iff.1 hw with ⟨hconf, hdata⟩
          rcases Option.ne_none_iff_exists'.1 hdata with ⟨d, hd⟩
          simp only [CacheCall.run, hw, CacheCall.Fits]
          constructor
          · exact fun h => absurd hconf (h d hd).1
          · rintro ⟨_, h, _⟩
            exact absurd h (by simp)
      | some conf₁ =>
          have hiff := writeini_short_iff hw hshort
          simp only [CacheCall.run, hw, CacheCall.Fits, Option.some.injEq, exists_eq_left', hiff]
          constructor
          · intro h line hline
            rcases Option.map_eq_some_iff.1 hline with ⟨d, hd, rfl⟩
            exact newLine_short_iff.2 (h d hd).2
          · intro h d hd
            refine ⟨?_, newLine_short_iff.1 (h _ (Option.map_eq_some_iff.2 ⟨d, hd, rfl⟩))⟩
            intro hnil
            have hsome : dataPtr (data.map Subtype.val) ≠ none := by
              rw [hd]
              exact Option.some_ne_none d
            exact absurd (hw.symm.trans (writeini_eq_none_iff.2 ⟨hnil, hsome⟩)) (by simp)
  | clearsectionconfig pattern =>
      cases hc : clearsectionconfig pattern.1 conf with
      | none =>
          rcases clearsectionconfig_eq_none_iff.1 hc with ⟨entry, hconf, hm⟩
          simp only [CacheCall.run, hc, CacheCall.Fits]
          constructor
          · exact fun h => absurd hm (h entry hconf)
          · rintro ⟨_, h, _⟩
            exact absurd h (by simp)
      | some conf₁ =>
          simp only [CacheCall.run, hc, CacheCall.Fits, Option.some.injEq, exists_eq_left']
          constructor
          · exact fun _ e he => hshort e (mem_of_mem_clearsectionconfig hc he)
          · intro _ entry hconf hm
            have hnone := clearsectionconfig_eq_none_iff.2 ⟨entry, hconf, hm⟩
            rw [hnone] at hc
            exact absurd hc (by simp)

end Call

/-! ## Runs -/

/-- Along every list of calls, from every cache of short lines (the empty one included): all calls
succeed and every cache on the way round trips if and only if every call meets its condition. -/
theorem roundTrips_along_run_iff (conf : Conf) (hlines : Lines conf) (hshort : Short conf)
    (calls : List CacheCall) :
    Safe CacheCall.run RoundTrips conf calls ↔
      StepsMeet CacheCall.run (fun c call => call.Fits c) conf calls := by
  refine safe_iff_stepsMeet Lines ?_ ?_ hlines ((roundTrips_iff_short hlines).2 hshort)
  · exact fun _ _ _ hl hrun => run_lines hrun hl
  · intro c call hl hr
    have hiff := fits_iff_run_short call ((roundTrips_iff_short hl).1 hr)
    rw [hiff]
    constructor
    · rintro ⟨c', hrun, hs⟩
      exact ⟨c', hrun, (roundTrips_iff_short (run_lines hrun hl)).2 hs⟩
    · rintro ⟨c', hrun, hr'⟩
      exact ⟨c', hrun, (roundTrips_iff_short (run_lines hrun hl)).1 hr'⟩

/-- Changing an entry and erasing a section of a small file. -/
theorem roundTrips_along_run_iff_port :
    let user : LineText := ⟨ascii "USER", by decide⟩
    let nick : LineText := ⟨ascii "NICK", by decide⟩
    let user1 : LineText := ⟨ascii "USER1", by decide⟩
    let bob : LineText := ⟨ascii "bob", by decide⟩
    Safe CacheCall.run RoundTrips [ascii "PSYBNC.SYSTEM.PORT1=31337"]
      [.writeini user nick user1 (some bob), .clearsectionconfig user1] := by
  intro user nick user1 bob
  refine (roundTrips_along_run_iff _ (by decide) (by decide) _).2 ⟨?_, ?_⟩
  · intro d hd
    refine ⟨by simp, ?_⟩
    cases hd
    decide
  · intro conf hconf
    refine ⟨?_, fun _ _ => trivial⟩
    cases hconf
    intro entry hentry
    simp at hentry

/-- The first entry written to an empty cache is stored through a NULL pointer, and an entry of
399 bytes is followed by an empty one when it is read back. -/
theorem roundTrips_defect :
    let bob : LineText := ⟨ascii "bob", by decide⟩
    CacheCall.run [] (.writeini bob bob bob (some bob)) = none ∧
    (let conf := [ascii "A.B.C=1", ascii "A.B.D=" ++ List.replicate 393 97]
     CacheCall.run [ascii "A.B.C=1"] (.writeini ⟨ascii "B", by decide⟩ ⟨ascii "D", by decide⟩
        ⟨ascii "A", by decide⟩ (some ⟨List.replicate 393 97, by decide⟩)) = some conf ∧
      readconfig [] (some (flushconfig conf)) = some (conf ++ [[]])) := by
  decide +kernel

end PsyBnc
