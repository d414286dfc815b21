import PsyBnc.Blowfish.Text
import PsyBnc.Idea.Model
import Mathlib.Logic.Function.Iterate

/-!
# The coding of ciphered texts

A byte is written as two digits over the first 67 characters of `base`.  `unhashstring` stops behind the first pair
with a character that is none of them; the byte of this pair is still written.
-/

namespace PsyBnc

open CLib

/-! ## Digits -/

/-- A round of the loop of `hashdot`, on `hh` and `hl`. -/
def hashdotRound (h : Nat × Nat) : Nat × Nat := if h.2 + 1 = baselen then (h.1 + 1, 0) else (h.1, h.2 + 1)

theorem hashdotRound_iterate (r : Nat) : hashdotRound^[r] (0, 0) = (r / baselen, r % baselen) := by
  induction r with
  | zero =>
      rfl
  | succ r ih =>
      rw [Function.iterate_succ_apply', ih, hashdotRound]
      by_cases hwrap : r % baselen + 1 = baselen
      · rw [if_pos hwrap]
        dsimp only [baselen] at hwrap ⊢
        apply Prod.ext
        · change r / 67 + 1 = (r + 1) / 67
          omega
        · change 0 = (r + 1) % 67
          omega
      · rw [if_neg hwrap]
        dsimp only [baselen] at hwrap ⊢
        apply Prod.ext
        · change r / 67 = (r + 1) / 67
          omega
        · change r % 67 + 1 = (r + 1) % 67
          omega

/-- The loop of `hashdot` comes to the two digits. -/
theorem hashdot_eq_loop (r : Nat) :
    hashdot r = (base.getD (hashdotRound^[r] (0, 0)).1 0, base.getD (hashdotRound^[r] (0, 0)).2 0) := by
  rw [hashdotRound_iterate, hashdot]

/-- The characters of the coding. -/
def alphabet : CStr := base.take baselen

example : alphabet.length = 67 ∧ alphabet.Nodup := by decide +kernel

/-! ## Pairs -/

section Pairs

variable {h₀ h₁ : Byte} {good rest hashed : CStr}

theorem unhashWrong_iff : unhashWrong h₀ h₁ = true ↔ h₀ ∉ alphabet ∨ h₁ ∉ alphabet := by
  rw [unhashWrong, decide_eq_true_iff, alphabet]

/-- Of two texts with whole pairs, the second is reached when the first is good. -/
theorem unhashLoop_append (heven : good.length % 2 = 0) (hgood : ∀ c ∈ good, c ∈ alphabet) :
    unhashLoop (good ++ rest) = ((unhashLoop good).1 ++ (unhashLoop rest).1, (unhashLoop rest).2) ∧
      (unhashLoop good).1.length = good.length / 2 := by
  induction good using unhashLoop.induct with
  | case1 h₀ h₁ good hwrong =>
      rcases unhashWrong_iff.1 hwrong with hbad | hbad
      · exact absurd (hgood h₀ List.mem_cons_self) hbad
      · exact absurd (hgood h₁ (List.mem_cons_of_mem _ List.mem_cons_self)) hbad
  | case2 h₀ h₁ good hright ih =>
      have heven' : good.length % 2 = 0 := by
        rw [List.length_cons, List.length_cons] at heven
        omega
      have hgood' : ∀ c ∈ good, c ∈ alphabet :=
        fun c hc => hgood c (List.mem_cons_of_mem _ (List.mem_cons_of_mem _ hc))
      rcases ih heven' hgood' with ⟨happ, hlen⟩
      constructor
      · simp only [List.cons_append, unhashLoop, if_neg hright, happ]
      · simp only [unhashLoop, if_neg hright, List.length_cons, hlen]
        omega
  | case3 good hshort =>
      -- fewer than two characters, and an even number of them
      cases good with
      | nil =>
          exact ⟨rfl, rfl⟩
      | cons c good =>
          cases good with
          | nil =>
              exact absurd heven Nat.one_ne_zero
          | cons d good =>
              exact absurd rfl (hshort c d good)

/-- A bad pair is the last one that is looked at. -/
theorem unhashLoop_bad (hbad : h₀ ∉ alphabet ∨ h₁ ∉ alphabet) :
    unhashLoop (h₀ :: h₁ :: rest) = ([UInt8.ofNat (unhashdot h₀ h₁)], true) := by
  simp only [unhashLoop, if_pos (unhashWrong_iff.2 hbad)]

theorem unhashLoop_wrong_iff (heven : hashed.length % 2 = 0) :
    (unhashLoop hashed).2 = true ↔ ∃ c ∈ hashed, c ∉ alphabet := by
  induction hashed using unhashLoop.induct with
  | case1 h₀ h₁ rest hwrong =>
      have hbad := unhashWrong_iff.1 hwrong
      rw [unhashLoop_bad hbad]
      refine ⟨fun _ => ?_, fun _ => rfl⟩
      rcases hbad with hbad | hbad
      · exact ⟨h₀, List.mem_cons_self, hbad⟩
      · exact ⟨h₁, List.mem_cons_of_mem _ List.mem_cons_self, hbad⟩
  | case2 h₀ h₁ rest hright ih =>
      have heven' : rest.length % 2 = 0 := by
        rw [List.length_cons, List.length_cons] at heven
        omega
      have hboth : h₀ ∈ alphabet ∧ h₁ ∈ alphabet := by
        have hno := mt unhashWrong_iff.2 hright
        rw [not_or, not_not, not_not] at hno
        exact hno
      simp only [unhashLoop, if_neg hright]
      rw [ih heven']
      constructor
      · rintro ⟨c, hc, hout⟩
        exact ⟨c, List.mem_cons_of_mem _ (List.mem_cons_of_mem _ hc), hout⟩
      · rintro ⟨c, hc, hout⟩
        rcases List.mem_cons.1 hc with rfl | hc
        · exact absurd hboth.1 hout
        · rcases List.mem_cons.1 hc with rfl | hc
          · exact absurd hboth.2 hout
          · exact ⟨c, hc, hout⟩
  | case3 rest hshort =>
      cases rest with
      | nil =>
          constructor
          · intro h
            cases h
          · rintro ⟨c, hc, _⟩
            cases hc
      | cons c rest =>
          cases rest with
          | nil =>
              exact absurd heven Nat.one_ne_zero
          | cons d rest =>
              exact absurd rfl (hshort c d rest)

end Pairs

/-- What `unhashstring` makes of a coded text and of any other; `wrong` is the global from before. -/
theorem unhashstring_coding (wrong : Bool) :
    (∀ unhashed : List Byte, (unhashstring wrong (hashstring unhashed)).1 = unhashed ∧
        (unhashed ≠ [] → (unhashstring wrong (hashstring unhashed)).2 = false)) ∧
      (∀ hashed : CStr, hashed ≠ [] → hashed.length % 2 = 0 →
        ((unhashstring wrong hashed).2 = true ↔ ∃ c ∈ hashed, c ∉ alphabet)) ∧
      ∀ (good rest : CStr) (h₀ h₁ : Byte), good.length % 2 = 0 → (∀ c ∈ good, c ∈ alphabet) →
        h₀ ∉ alphabet ∨ h₁ ∉ alphabet →
          (unhashstring wrong (good ++ h₀ :: h₁ :: rest)).1 =
              (unhashstring wrong good).1 ++ [UInt8.ofNat (unhashdot h₀ h₁)] ∧
            (unhashstring wrong good).1.length = good.length / 2 := by
  refine ⟨fun unhashed => ⟨?_, fun hne => ?_⟩, fun hashed hne heven => ?_, fun good rest h₀ h₁ heven hgood hbad => ?_⟩
  · rw [unhashstring, unhashLoop_hashstring]
  · have hlong : ¬ (hashstring unhashed).length < 2 := by
      have hpos := List.length_pos_of_ne_nil hne
      rw [length_hashstring]
      omega
    simp only [unhashstring, unhashLoop_hashstring, if_neg hlong]
  · have hlong : ¬ hashed.length < 2 := by
      have hpos := List.length_pos_of_ne_nil hne
      omega
    simp only [unhashstring, if_neg hlong]
    exact unhashLoop_wrong_iff heven
  · rcases @unhashLoop_append good (h₀ :: h₁ :: rest) heven hgood with ⟨happ, hlen⟩
    constructor
    · simp only [unhashstring, happ, unhashLoop_bad hbad]
    · exact hlen

/-- `hi` comes back; of `0a w0 0a` the byte of the second pair is the last one. -/
theorem unhashstring_coding_hi :
    (unhashstring true (hashstring (ascii "hi"))).2 = false ∧ (unhashstring false (ascii "0aw00a")).2 = true ∧
      (unhashstring false (ascii "0aw00a")).1.length = 2 := by
  rcases unhashstring_coding true with ⟨hback, _, _⟩
  rcases unhashstring_coding false with ⟨_, hwrong, hlast⟩
  refine ⟨(hback (ascii "hi")).2 (by decide), ?_, ?_⟩
  · apply (hwrong (ascii "0aw00a") (by decide) rfl).2
    exact ⟨119, by decide, by decide⟩
  · rcases hlast (ascii "0a") (ascii "0a") 119 48 rfl (by decide) (Or.inl (by decide)) with ⟨hbytes, hlen⟩
    have hsplit : ascii "0aw00a" = ascii "0a" ++ 119 :: 48 :: ascii "0a" := by decide
    rw [hsplit, hbytes, List.length_append, hlen]
    rfl

end PsyBnc
