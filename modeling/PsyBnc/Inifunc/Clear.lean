import PsyBnc.Inifunc.Model

/-!
# Erasing a section of the cache

`clearsectionconfig` walks the list with a lagging pointer.  Away from the head it removes exactly
the entries that start with the pattern.  At the head it goes wrong: the node that becomes the new
head is stepped over without being looked at, and when there is no such node its `next` field is
read through a NULL pointer.  `HeadSafe` is the condition under which this does not show.
-/

namespace PsyBnc

open CLib

/-- The entries that `clearsectionconfig(pattern)` is meant to leave. -/
def erased (pattern : CStr) (conf : Conf) : Conf :=
  conf.filter fun entry => decide (¬ pattern <+: entry)

/-- The head does not match, or it is followed by an entry that does not match. -/
def HeadSafe (pattern : CStr) : Conf → Prop
  | [] => True
  | [entry] => ¬ pattern <+: entry
  | entry :: next :: _ => pattern <+: entry → ¬ pattern <+: next

theorem erased_cons_of_match {pattern entry : CStr} (h : pattern <+: entry) (rest : Conf) :
    erased pattern (entry :: rest) = erased pattern rest := by
  simp [erased, h]

theorem erased_cons_of_not_match {pattern entry : CStr} (h : ¬ pattern <+: entry) (rest : Conf) :
    erased pattern (entry :: rest) = entry :: erased pattern rest := by
  simp [erased, h]

theorem mem_erased {pattern entry : CStr} {conf : Conf} :
    entry ∈ erased pattern conf ↔ entry ∈ conf ∧ ¬ pattern <+: entry := by
  simp [erased]

/-! ## The loop -/

/-- Behind the head the loop erases exactly what matches. -/
theorem clearLoop_cons (pattern : CStr) (x : CStr) (seen rest : Conf) :
    clearLoop pattern (x :: seen) rest = some ((x :: seen).reverse ++ erased pattern rest) := by
  induction rest generalizing x seen with
  | nil =>
      simp [clearLoop, erased]
  | cons entry rest ih =>
      by_cases hm : pattern <+: entry
      · simp [clearLoop, hm, ih, erased_cons_of_match hm]
      · simp [clearLoop, hm, ih, erased_cons_of_not_match hm]

theorem clearsectionconfig_nil (pattern : CStr) : clearsectionconfig pattern [] = some [] := rfl

theorem clearsectionconfig_of_not_match {pattern entry : CStr} (h : ¬ pattern <+: entry)
    (rest : Conf) :
    clearsectionconfig pattern (entry :: rest) = some (erased pattern (entry :: rest)) := by
  cases rest with
  | nil =>
      simp [clearsectionconfig, clearLoop, h, erased]
  | cons next rest =>
      simp [clearsectionconfig, clearLoop, h, clearLoop_cons, erased_cons_of_not_match h]

theorem clearsectionconfig_single {pattern entry : CStr} (h : pattern <+: entry) :
    clearsectionconfig pattern [entry] = none := by
  simp [clearsectionconfig, clearLoop, h]

/-- A matching head goes, its successor stays whatever it is, and the rest is cleaned up. -/
theorem clearsectionconfig_of_match {pattern entry : CStr} (h : pattern <+: entry)
    (next : CStr) (rest : Conf) :
    clearsectionconfig pattern (entry :: next :: rest) =
      some (next :: erased pattern rest) := by
  simp [clearsectionconfig, clearLoop, h, clearLoop_cons]

/-- The only cache on which the loop runs into a missing node is a single matching entry. -/
theorem clearsectionconfig_eq_none_iff {pattern : CStr} {conf : Conf} :
    clearsectionconfig pattern conf = none ↔ ∃ entry, conf = [entry] ∧ pattern <+: entry := by
  constructor
  · intro hnone
    match conf with
    | [] =>
        simp [clearsectionconfig_nil] at hnone
    | entry :: rest =>
        by_cases hm : pattern <+: entry
        · cases rest with
          | nil =>
              exact ⟨entry, rfl, hm⟩
          | cons next rest =>
              simp [clearsectionconfig_of_match hm] at hnone
        · simp [clearsectionconfig_of_not_match hm] at hnone
  · rintro ⟨entry, rfl, hm⟩
    exact clearsectionconfig_single hm

/-- Nothing is invented: what is left was there before. -/
theorem mem_of_mem_clearsectionconfig {pattern : CStr} {conf conf' : Conf}
    (h : clearsectionconfig pattern conf = some conf') {entry : CStr} (hmem : entry ∈ conf') :
    entry ∈ conf := by
  match conf with
  | [] =>
      cases h
      exact hmem
  | [x] =>
      by_cases hm : pattern <+: x
      · simp [clearsectionconfig_single hm] at h
      · simp only [clearsectionconfig_of_not_match hm, Option.some.injEq] at h
        exact (mem_erased.1 (h ▸ hmem)).1
  | x :: next :: rest =>
      by_cases hm : pattern <+: x
      · simp only [clearsectionconfig_of_match hm, Option.some.injEq] at h
        subst h
        rcases List.mem_cons.1 hmem with rfl | hrest
        · simp
        · simp [(mem_erased.1 hrest).1]
      · simp only [clearsectionconfig_of_not_match hm, Option.some.injEq] at h
        exact (mem_erased.1 (h ▸ hmem)).1

/-! ## When it erases the section -/

theorem clearsectionconfig_eq_erased_iff (pattern : CStr) (conf : Conf) :
    clearsectionconfig pattern conf = some (erased pattern conf) ↔ HeadSafe pattern conf := by
  match conf with
  | [] =>
      simp [clearsectionconfig_nil, erased, HeadSafe]
  | [entry] =>
      by_cases hm : pattern <+: entry
      · simp [clearsectionconfig_single hm, HeadSafe, hm]
      · simp [clearsectionconfig_of_not_match hm, HeadSafe, hm]
  | entry :: next :: rest =>
      by_cases hm : pattern <+: entry
      · by_cases hn : pattern <+: next
        · -- The second entry survives, so the result is one entry too long.
          have hne : next :: erased pattern rest ≠ erased pattern rest := by
            intro heq
            have hlen := congrArg List.length heq
            simp at hlen
          simp [clearsectionconfig_of_match hm, erased_cons_of_match hm, erased_cons_of_match hn,
            HeadSafe, hm, hn, hne]
        · simp [clearsectionconfig_of_match hm, erased_cons_of_match hm,
            erased_cons_of_not_match hn, HeadSafe, hn]
      · simp [clearsectionconfig_of_not_match hm, HeadSafe, hm]

theorem HeadSafe.eq_erased {pattern : CStr} {conf : Conf} (h : HeadSafe pattern conf) :
    clearsectionconfig pattern conf = some (erased pattern conf) :=
  (clearsectionconfig_eq_erased_iff pattern conf).2 h

/-- No lookup succeeds whose key starts with a pattern that no entry starts with. -/
theorem getini_eq_none_of_erased {pattern sect param inidat : CStr} {conf : Conf}
    (hpat : pattern <+: clip 400 (entryText inidat sect param))
    (hconf : ∀ entry ∈ conf, ¬ pattern <+: entry) : getini sect param inidat conf = none := by
  refine List.findSome?_eq_none_iff.2 ?_
  intro entry hmem
  have hnot : ¬ clip 400 (entryText inidat sect param) <+: entry :=
    fun hpre => hconf entry hmem (hpat.trans hpre)
  simp [afterPrefix_eq_none.2 hnot]

/-! ## Deleting a user -/

/-- `lngtxt(382)`: the pattern that `deluser` erases. -/
def userPattern (uind : Nat) : CStr := clip 60 (userFile uind ++ [DOT])

theorem userPattern_prefix_key (uind : Nat) (sect param : CStr) :
    userPattern uind <+: clip 400 (entryText (userFile uind) sect param) := by
  have hfull : userFile uind ++ [DOT] <+: entryText (userFile uind) sect param := by
    refine ⟨sect ++ DOT :: (param ++ [EQUALS]), ?_⟩
    simp [entryText]
  have hpat : userPattern uind <+: entryText (userFile uind) sect param :=
    (clip_prefix_self 60 _).trans hfull
  refine List.prefix_of_prefix_length_le hpat (clip_prefix_self 400 _) ?_
  have hle : (userPattern uind).length ≤ (entryText (userFile uind) sect param).length :=
    hpat.length_le
  simp only [userPattern, length_clip] at hle ⊢
  omega

/-- Erasing a section is exact if and only if the head of the cache is safe, and a user whose
section was erased exactly has no key left. -/
theorem clearsectionconfig_exact_iff_headSafe (conf : Conf) :
    (∀ pattern,
      clearsectionconfig pattern conf = some (erased pattern conf) ↔ HeadSafe pattern conf) ∧
    ∀ uind, HeadSafe (userPattern uind) conf →
      ∃ conf', deluser uind conf = some conf' ∧
        ∀ sect param, getini sect param (userFile uind) conf' = none := by
  refine ⟨fun pattern => clearsectionconfig_eq_erased_iff pattern conf, ?_⟩
  intro uind hsafe
  refine ⟨erased (userPattern uind) conf, hsafe.eq_erased, ?_⟩
  intro sect param
  exact getini_eq_none_of_erased (userPattern_prefix_key uind sect param)
    (fun entry hmem => (mem_erased.1 hmem).2)

theorem clearsectionconfig_exact_iff_headSafe_two_users :
    ∃ conf', deluser 2 [ascii "USER1.USER.LOGIN=a", ascii "USER2.USER.LOGIN=b"] = some conf' ∧
      ∀ sect param, getini sect param (userFile 2) conf' = none :=
  (clearsectionconfig_exact_iff_headSafe
    [ascii "USER1.USER.LOGIN=a", ascii "USER2.USER.LOGIN=b"]).2 2 (fun h => absurd h (by decide))

/-- With one entry the loop reads a missing node, and of two leading entries one survives. -/
theorem clearsectionconfig_head_defect :
    clearsectionconfig (ascii "USER1.") [ascii "USER1.USER.LOGIN=a"] = none ∧
    (let conf := [ascii "USER1.USER.LOGIN=a", ascii "USER1.USER.PASS=b", ascii "PSYBNC.X.Y=1"]
     deluser 1 conf = some [ascii "USER1.USER.PASS=b", ascii "PSYBNC.X.Y=1"] ∧
      erased (ascii "USER1.") conf = [ascii "PSYBNC.X.Y=1"] ∧
      (deluser 1 conf).bind (getini (ascii "USER") (ascii "PASS") (userFile 1)) =
        some (ascii "b")) := by
  decide

end PsyBnc
