import PsyBnc.Server.Model
import PsyBnc.UChannel.ModeString

/-!
# The mode strings of announced modes

A server announces `PREFIX` and `CHANMODES` in `005` lines, after the standard ones of `001`.  A
channel that is added then starts with the modes `nt`.
-/

namespace PsyBnc

open CLib

/-- What `001` announces. -/
def standardModes (u : Usert) : Usert :=
  { u with
    prefixmodes := ascii "ov"
    prefixchars := ascii "@+"
    chanmodes := ascii "beI,k,l,imnpst" }

/-- The `005` lines, one after the other. -/
def announceModes (u : Usert) (lines : List CStr) : Usert :=
  lines.foldl (fun u ircbuf => mapChanmodes ircbuf (mapPrefix ircbuf u)) (standardModes u)

/-- A channel that `addchanneltouser` adds. -/
def freshChannel (u : Usert) (channel : CStr) : Uchannelt :=
  newchannel u.uid u.prefixmodes u.prefixchars u.chanmodes channel

theorem chanmodes_mapPrefix (ircbuf : CStr) (u : Usert) :
    (mapPrefix ircbuf u).chanmodes = u.chanmodes := by
  unfold mapPrefix
  simp only
  repeat' split
  all_goals rfl

/-- No blank is announced as a mode. -/
theorem blank_notMem_mapChanmodes {ircbuf : CStr} {u : Usert} (h : SP ∉ u.chanmodes) :
    SP ∉ (mapChanmodes ircbuf u).chanmodes := by
  unfold mapChanmodes
  split
  · exact h
  · next chanmodes _ hcut =>
    rcases Option.bind_eq_some_iff.1 hcut with ⟨line, _, hline⟩
    intro hmem
    exact (cutAt_eq_some.1 hline).2 (mem_of_mem_clip hmem)

theorem blank_notMem_announceModes (u : Usert) (lines : List CStr) :
    SP ∉ (announceModes u lines).chanmodes := by
  have hlines : ∀ (lines : List CStr) (u : Usert), SP ∉ u.chanmodes →
      SP ∉ (lines.foldl (fun u ircbuf => mapChanmodes ircbuf (mapPrefix ircbuf u)) u).chanmodes := by
    intro lines
    induction lines with
    | nil =>
        exact fun _ h => h
    | cons ircbuf lines ih =>
        intro u h
        apply ih
        apply blank_notMem_mapChanmodes
        rwa [chanmodes_mapPrefix]
  have hstandard : SP ∉ ascii "beI,k,l,imnpst" := by
    decide
  exact hlines lines _ hstandard

theorem userModes_freshChannel (u : Usert) (lines : List CStr) (channel : CStr) :
    UserModes (freshChannel (announceModes u lines) channel).grammar
      (freshChannel (announceModes u lines) channel) where
  grammar := rfl
  usern := by
    have hnat : (0 : Int) ≤ ((announceModes u lines).uid : Int) := Int.natCast_nonneg _
    show ((announceModes u lines).uid : Int) ≠ -1
    omega
  nodup := by
    show (ascii "nt").Nodup
    decide
  blank := by
    show SP ∉ ascii "nt"
    decide

/-- The calls are the run of their steps, and along it the mode string of a new channel stays free of
duplicates and inside its field, and `ordermodes` orders it, exactly when no letter is set while 19
others are. -/
theorem fresh_modes_kept_iff (u : Usert) (lines : List CStr) (channel : CStr)
    (calls : List (CStr × CStr)) :
    let lkm := freshChannel (announceModes u lines) channel
    calls.foldl (fun lkm call => (addchannelmode lkm call.1 call.2).1) lkm =
        (callsSteps lkm.grammar calls).foldl ModeStep.apply lkm ∧
      (Safe ModeStep.step ModesKept lkm (callsSteps lkm.grammar calls) ↔
        StepsMeet ModeStep.step HasRoom lkm (callsSteps lkm.grammar calls)) := by
  intro lkm
  have hchan : SP ∉ (freshChannel (announceModes u lines) channel).grammar.chanmodes :=
    fun hmem => blank_notMem_announceModes u lines (mem_of_mem_clip hmem)
  have hfits : (freshChannel (announceModes u lines) channel).modes.length < 20 := by
    show (ascii "nt").length < 20
    decide
  refine ⟨foldl_addchannelmode calls lkm, ?_⟩
  exact (userModes_freshChannel u lines channel).safe_iff hchan hfits calls

/-- A server with many flags. -/
def flagsLine : CStr := ascii ":irc 005 me CHANMODES=b,k,l,CMNORSTcgimnprstuz :are supported"

def firstUser : Usert where
  uid := 1
  prefixmodes := []
  prefixchars := []
  chanmodes := []
  uid_pos := Nat.one_pos
  uid_lt := Nat.one_lt_two_pow (Nat.succ_ne_zero 30)

/-- Eighteen letters are set beside `n` and `t`. -/
theorem fresh_modes_overflow :
    let lkm := freshChannel (announceModes firstUser [flagsLine]) (ascii "#a")
    ¬ Safe ModeStep.step ModesKept lkm
      (callsSteps lkm.grammar [(ascii "+CMNORSTcgimprsuzlk", ascii "5 key")]) := by
  intro lkm hsafe
  have hmodes := userModes_freshChannel firstUser [flagsLine] (ascii "#a")
  have hroom := (hmodes.safe_iff (by decide +kernel) (by decide) _).1 hsafe
  revert hroom
  decide +kernel

end PsyBnc
