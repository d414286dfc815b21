import PsyBnc.Intnet.Network
import PsyBnc.Parse.Server

/-!
# A line on a link

What `sendtolink` writes is wrapped in an INTNET line, ended, read at the other side, and unwrapped
by `processlink`.  A text without CR, LF and `%` comes out as it went in, up to blanks at its end.
-/

namespace PsyBnc

open CLib

/-- A text that a line can carry. -/
def Clean (s : CStr) : Prop := CR ∉ s ∧ LF ∉ s ∧ 37 ∉ s

instance (s : CStr) : Decidable (Clean s) := by
  dsimp [Clean]
  infer_instance

theorem clean_append {s t : CStr} : Clean (s ++ t) ↔ Clean s ∧ Clean t := by
  simp only [Clean, List.mem_append, not_or]
  exact ⟨fun h => ⟨⟨h.1.1, h.2.1.1, h.2.2.1⟩, h.1.2, h.2.1.2, h.2.2.2⟩,
    fun h => ⟨⟨h.1.1, h.2.1⟩, ⟨h.1.2.1, h.2.2.1⟩, h.1.2.2, h.2.2.2⟩⟩

theorem clean_cons {b : Byte} {s : CStr} (hb : Clean [b]) : Clean (b :: s) ↔ Clean s := by
  rw [← List.singleton_append, clean_append]
  exact and_iff_right hb

theorem clean_sp {s : CStr} : Clean (SP :: s) ↔ Clean s := clean_cons (by decide)

theorem clean_colon {s : CStr} : Clean (COLON :: s) ↔ Clean s := clean_cons (by decide)

/-! ## A whole line -/

theorem lineOf_clean {s : CStr} (h : Clean s) (hlen : s.length < 8000) : lineOf s = s := by
  have hclip : clip 8191 s = s := clip_eq_self (by omega)
  simp only [lineOf, hclip, cutAt_eq_none.2 h.1, cutAt_eq_none.2 h.2.1]

theorem Sent.ifcommand_iff {sender cmd secbuf : CStr} {irc : Parsed}
    (h : Sent sender cmd secbuf irc) (hne : cmd ≠ []) (word : CStr) :
    ifcommand irc word = true ↔ word = ucase cmd := by
  have hucase : ucase cmd ≠ [] := by simpa [ucase] using hne
  rw [ifcommand, h.command, if_neg hucase, strmcmp_iff]

/-! ## The way of a line -/

section Link

variable {me text : CStr}

/-- The name of a bouncer as it stands in its lines. -/
structure CleanName (me : CStr) : Prop where
  clean : Clean me
  sp : SP ∉ me
  short : me.length < 200

theorem overLink_clean {s : CStr} (h : Clean s) (hlen : s.length < 8190) :
    overLink s = s ++ [CR, LF] := by
  have hclip : clip 8200 s = s := clip_eq_self (by omega)
  have hend : lineEnd 0 s = s ++ [CR, LF] := by
    simp only [lineEnd, cutAt_eq_none.2 h.2.1]
  have hpercent : (37 : Byte) ∉ s ++ [CR, LF] := by
    simp only [List.mem_append, not_or]
    exact ⟨h.2.2, by decide⟩
  have hfix : ∀ t : CStr, (37 : Byte) ∉ t → replaceByte 37 127 (replaceByte 127 37 t) = t := by
    intro t ht
    rw [replaceByte, replaceByte, List.map_map]
    conv_rhs => rw [← List.map_id t]
    refine List.map_congr_left fun b hb => ?_
    have hne : b ≠ 37 := fun e => ht (e ▸ hb)
    by_cases h127 : b = 127
    · simp [h127]
    · simp [h127, hne]
  rw [overLink, hclip, hend, hfix _ hpercent]

/-- The receiver unwraps the text that was sent. -/
theorem processlink_sendtolink (hme : CleanName me) (htext : Clean text) (hlen : text.length < 2048)
    (net : Intnet) (nlink : Nat) :
    processlink net nlink (overLink (sendtolink me text)) =
      internalinbound net (rtrim text) nlink := by
  have hlit : ascii ":intnet!intnet@" = COLON :: ascii "intnet!intnet@" := by decide
  have hlit' : ascii " INTNET *@* :" = SP :: (ascii "INTNET" ++ SP :: (ascii "*@*" ++ [SP, COLON])) :=
    by decide
  -- No buffer of `sendtolink` cuts the text off.
  have hline : sendtolink me text = COLON :: ((ascii "intnet!intnet@" ++ me) ++
      SP :: (ascii "INTNET" ++ SP :: (ascii "*@*" ++ SP :: COLON :: text))) := by
    have hclip : clip 2048 text = text := clip_eq_self hlen
    have hshort : (intnetPrefix me ++ text).length < 8192 := by
      have hs := hme.short
      have h₁ : (ascii ":intnet!intnet@").length + (ascii " INTNET *@* :").length = 28 := by decide
      simp only [intnetPrefix, List.length_append]
      omega
    rw [sendtolink, intnetLine, hclip, clip_eq_self hshort, intnetPrefix, hlit, hlit']
    simp
  have hclean : Clean (sendtolink me text) := by
    have h₁ : Clean (ascii "intnet!intnet@") := by decide
    have h₂ : Clean (ascii "INTNET") := by decide
    have h₃ : Clean (ascii "*@*") := by decide
    simp only [hline, clean_colon, clean_sp, clean_append]
    exact ⟨⟨h₁, hme.clean⟩, h₂, h₃, htext⟩
  have hlong : (sendtolink me text).length < 3000 := by
    have hs := hme.short
    have h₁ : (ascii "intnet!intnet@").length + (ascii "INTNET").length + (ascii "*@*").length = 23 :=
      by decide
    rw [hline]
    simp only [List.length_append, List.length_cons]
    omega
  have hover := overLink_clean hclean (by omega)
  have hlineOf : lineOf (sendtolink me text ++ [CR, LF]) = sendtolink me text :=
    lineOf_terminated hclean.1 hclean.2.1 (by omega) .crlf
  rw [← hover, hline] at hlineOf
  have hsender : SP ∉ ascii "intnet!intnet@" ++ me := by
    simp only [List.mem_append, not_or]
    exact ⟨by decide, hme.sp⟩
  have hsent := parse_sent hlineOf hsender (by simp [ascii]) (by decide) (by decide) (by
    have h₁ : (ascii "*@*").length = 3 := by decide
    simp only [List.length_append, List.length_cons, h₁]
    omega)
  rw [← hline] at hsent
  -- The receiver reads the command and the text as they were written.
  have hcommand : ifcommand (parse (overLink (sendtolink me text))) (ascii "INTNET") = true :=
    (hsent.ifcommand_iff (by decide) _).2 (by decide)
  have hcontent : (parse (overLink (sendtolink me text))).irccontent = text := by
    have hcolon : serverContent (COLON :: text) = text :=
      serverContent_append (u := []) (by simp)
    rw [hsent.content, serverParams_plain _ (by decide) (by decide) (by decide) (by
      simp only [List.length_cons]
      omega), hcolon]
  have hrtrim : (rtrim text).length < 8192 := by
    have := (rtrim_pre (s := text) (by omega)).length_le
    omega
  simp only [processlink, hcommand, if_true, hcontent, clip_eq_self hrtrim]

end Link

end PsyBnc
