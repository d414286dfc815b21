import PsyBnc.Intnet.Model
import PsyBnc.Lib.Roster

/-!
# The ban list of an internal channel

`addban` and `removeban` are the two operations of a list with room for 20 masks.
-/

namespace PsyBnc

open CLib

/-! ## Masks -/

/-- The first `!` of the mask stands in front of its first `@`. -/
def BangFirst (banmask : CStr) : Prop :=
  ∃ nick rest, banmask = nick ++ BANG :: rest ∧ BANG ∉ nick ∧ AT ∉ nick ∧ AT ∈ rest

theorem isMask_iff {banmask : CStr} : isMask banmask = true ↔ BangFirst banmask := by
  constructor
  · intro h
    rw [isMask] at h
    rcases cut_cases BANG banmask with ⟨_, hbang⟩ | ⟨nick, rest, hmask, hnick, hbang⟩
    · rw [hbang] at h
      cases h
    · rcases cut_cases AT banmask with ⟨_, hat⟩ | ⟨left, host, hmask', hleft, hat⟩
      · rw [hbang, hat] at h
        cases h
      · rw [hbang, hat] at h
        have hle : nick.length ≤ left.length := of_decide_eq_true h
        have hboth : nick ++ BANG :: rest = left ++ AT :: host := hmask.symm.trans hmask'
        -- the `@` is behind the nick, and not on the `!`
        rcases List.append_eq_append_iff.1 hboth with ⟨mid, hmid, htail⟩ | ⟨mid, hmid, htail⟩
        · cases mid with
          | nil =>
              cases htail
          | cons b mid =>
              rw [List.cons_append] at htail
              injection htail with hb htail
              refine ⟨nick, rest, hmask, hnick, ?_, ?_⟩
              · intro hmem
                exact hleft (hmid ▸ List.mem_append_left _ hmem)
              · rw [htail]
                exact List.mem_append_right _ List.mem_cons_self
        · have hnil : mid = [] := by
            apply List.eq_nil_of_length_eq_zero
            have hlen := congrArg List.length hmid
            rw [List.length_append] at hlen
            omega
          rw [hnil] at htail
          cases htail
  · rintro ⟨nick, rest, rfl, hnick, hat, hrest⟩
    rcases cut_cases AT rest with ⟨hno, _⟩ | ⟨ident, host, rfl, hident, _⟩
    · exact absurd hrest hno
    · have hsplit : nick ++ BANG :: (ident ++ AT :: host) = (nick ++ BANG :: ident) ++ AT :: host := by
        rw [List.append_assoc, List.cons_append]
      -- The first `@` is the one behind the ident.
      have hfree : AT ∉ nick ++ BANG :: ident := by
        intro hmem
        rcases List.mem_append.1 hmem with hmem | hmem
        · exact hat hmem
        · rcases List.mem_cons.1 hmem with heq | hmem
          · exact absurd heq (by decide)
          · exact hident hmem
      have hcut : cutAt AT (nick ++ BANG :: (ident ++ AT :: host)) = some (nick ++ BANG :: ident, host) := by
        rw [hsplit]
        exact cutAt_append hfree
      rw [isMask, cutAt_append hnick, hcut]
      apply decide_eq_true
      rw [List.length_append]
      exact Nat.le_add_right _ _

/-! ## The list -/

section Bans

variable {chan : Uchannelt}

theorem addban_bans (chan : Uchannelt) (banmask : CStr) :
    (addban chan banmask).1 = { chan with bans := enrol isMask 20 chan.bans banmask } := by
  rw [addban, enrol]
  by_cases hmem : banmask ∈ chan.bans
  · rw [if_pos hmem, if_pos hmem]
  · rw [if_neg hmem, if_neg hmem]
    by_cases hcond : isMask banmask = true ∧ chan.bans.length < 20
    · rw [if_pos hcond, if_pos hcond]
    · rw [if_neg hcond, if_neg hcond]

theorem removeban_bans (chan : Uchannelt) (banmask : CStr) :
    (removeban chan banmask).1 = { chan with bans := strike isMask 20 chan.bans banmask } := by
  rw [removeban, strike]
  by_cases hcond : isMask banmask = true ∧ banmask ∈ chan.bans.take 20
  · rw [if_pos hcond, if_pos hcond]
  · rw [if_neg hcond, if_neg hcond]

/-- A call of `addban` or `removeban`. -/
inductive BanCall where
  | addban (banmask : CStr)
  | removeban (banmask : CStr)
  deriving DecidableEq, Repr

def BanCall.run (chan : Uchannelt) : BanCall → Uchannelt
  | .addban banmask => (PsyBnc.addban chan banmask).1
  | .removeban banmask => (PsyBnc.removeban chan banmask).1

def banRun (chan : Uchannelt) (calls : List BanCall) : Uchannelt := calls.foldl BanCall.run chan

/-- The law of the list. -/
abbrev BanLaw (bans : List CStr) : Prop := Roster isMask 20 bans

theorem BanLaw.call (h : BanLaw chan.bans) (call : BanCall) : BanLaw (call.run chan).bans := by
  cases call with
  | addban banmask =>
      rw [BanCall.run, addban_bans]
      exact h.enrol banmask
  | removeban banmask =>
      rw [BanCall.run, removeban_bans]
      exact h.strike banmask

theorem BanLaw.run (h : BanLaw chan.bans) (calls : List BanCall) : BanLaw (banRun chan calls).bans := by
  induction calls generalizing chan with
  | nil =>
      exact h
  | cons call calls ih =>
      exact ih (h.call call)

theorem BanLaw.removeban_addban (h : BanLaw chan.bans) {banmask : CStr} (hmask : isMask banmask = true)
    (hnew : banmask ∉ chan.bans) (hroom : chan.bans.length < 20) :
    (removeban (addban chan banmask).1 banmask).1 = chan := by
  have hback := h.strike_enrol hmask hnew hroom
  rw [addban_bans, removeban_bans]
  simp only [hback]

end Bans

/-- The law of the ban list, after any run on a channel that was made without bans. -/
theorem banRun_law (chan : Uchannelt) (hmade : chan.bans = []) (calls : List BanCall) :
    ((banRun chan calls).bans.length ≤ 20 ∧ (banRun chan calls).bans.Nodup ∧
        ∀ banmask ∈ (banRun chan calls).bans, BangFirst banmask) ∧
      (∀ banmask, BangFirst banmask → banmask ∉ (banRun chan calls).bans → (banRun chan calls).bans.length < 20 →
        (addban (banRun chan calls) banmask).1.bans = (banRun chan calls).bans ++ [banmask] ∧
          (removeban (addban (banRun chan calls) banmask).1 banmask).1 = banRun chan calls) ∧
      ∀ banmask, (removeban (banRun chan calls) banmask).1 =
        { banRun chan calls with bans := (banRun chan calls).bans.filter (· != banmask) } := by
  have hlaw : BanLaw (banRun chan calls).bans := by
    apply BanLaw.run
    rw [hmade]
    exact Roster.nil
  refine ⟨⟨hlaw.room, hlaw.nodup, ?_⟩, ?_, ?_⟩
  · intro banmask hmem
    exact isMask_iff.1 (hlaw.accepted banmask hmem)
  · intro banmask hmask hnew hroom
    constructor
    · rw [addban_bans, enrol_new (isMask_iff.2 hmask) hnew hroom]
    · exact hlaw.removeban_addban (isMask_iff.2 hmask) hnew hroom
  · intro banmask
    rw [removeban_bans, hlaw.strike_eq]

theorem banRun_law_lobby :
    banRun { name := ascii "#lobby" } [.addban (ascii "*!*@b"), .addban (ascii "b@!"), .addban (ascii "*!*@b")] =
        { name := ascii "#lobby", bans := [ascii "*!*@b"] } ∧
      (removeban (banRun { name := ascii "#lobby" } [.addban (ascii "*!*@b")]) (ascii "*!*@b")).1.bans = [] := by
  have hlaw := banRun_law { name := ascii "#lobby" } rfl [.addban (ascii "*!*@b")]
  refine ⟨by decide +kernel, ?_⟩
  rw [hlaw.2.2]
  decide +kernel

end PsyBnc
