import PsyBnc.Intnet.ModeReplay
import PsyBnc.Server.Join
import PsyBnc.Server.World
import PsyBnc.UChannel.Ready

/-!
# Channels as rows

The channels of a user as a table: their names up to case, and the nicks on each.  Every change of the channels is a
change of rows, as long as no two names and no two nicks differ in case only.
-/

namespace PsyBnc

open CLib

/-- The nicks on a channel. -/
def Uchannelt.nicks (chan : Uchannelt) : List CStr := chan.users.map Uchannelusert.nick

def rowOf (chan : Uchannelt) : CStr × List CStr := (foldName chan.name, chan.nicks)

def rows (channels : List Uchannelt) : Rows CStr CStr := channels.map rowOf

/-- Whoever is listed and answers to the nick has it. -/
def NickApart (ns : List CStr) (n : CStr) : Prop := ∀ m ∈ ns, sameName 64 m n = true → m = n

section Lists

variable {α β : Type}

theorem map_modify_of_eq {l : List α} {k : Nat} {f : α → α} {g : α → β}
    (h : ∀ a, l[k]? = some a → g (f a) = g a) : (l.modify k f).map g = l.map g := by
  apply List.ext_getElem?
  intro i
  rw [List.getElem?_map, List.getElem?_map, List.getElem?_modify]
  cases hget : l[i]? with
  | none =>
      rfl
  | some a =>
      by_cases hk : k = i
      · subst hk
        simp [h a hget]
      · simp [hk]

/-- The entries of a list without repetition are changed by what they are. -/
theorem map_modify_of_nodup {l : List α} {k : Nat} {f : α → α} {g : α → β} {f' : β → β} (hnodup : (l.map g).Nodup)
    {a : α} (hget : l[k]? = some a) (hself : g (f a) = f' (g a)) (hother : ∀ b ∈ l, g b ≠ g a → f' (g b) = g b) :
    (l.modify k f).map g = (l.map g).map f' := by
  apply List.ext_getElem?
  intro i
  rw [List.getElem?_map, List.getElem?_map, List.getElem?_map, List.getElem?_modify]
  cases hi : l[i]? with
  | none =>
      rfl
  | some b =>
      by_cases hk : k = i
      · subst hk
        rw [hget, Option.some.injEq] at hi
        subst hi
        simp [hself]
      · have hne : g b ≠ g a := by
          intro heq
          have hik : (l.map g)[i]? = (l.map g)[k]? := by
            rw [List.getElem?_map, List.getElem?_map, hi, hget, Option.map_some, Option.map_some, heq]
          have hlt : i < (l.map g).length := by
            rw [List.length_map]
            exact (List.getElem?_eq_some_iff.1 hi).1
          exact hk ((List.getElem?_inj hlt hnodup).1 hik).symm
        simp [hk, hother b (List.mem_of_getElem? hi) hne]

end Lists

/-! ## One channel -/

theorem nicks_addnicktochannel {chan : Uchannelt} {n : CStr} (ident host : CStr) (hn : n.length < 64)
    (hapart : NickApart chan.nicks n) : (addnicktochannel chan n ident host).nicks = enlist chan.nicks n := by
  rw [addnicktochannel]
  cases hfound : getchannelnick chan n with
  | none =>
      have hnot : n ∉ chan.nicks := by
        intro hmem
        rcases List.mem_map.1 hmem with ⟨scu, hscu, heq⟩
        have hno := getchannelnick_none_iff.1 hfound scu hscu
        rw [answers, heq, sameName] at hno
        exact Bool.false_ne_true (hno.symm.trans (strmcmp_iff.2 rfl))
      rw [enlist, if_neg hnot]
      simp [Uchannelt.nicks, clip_eq_self hn]
  | some k =>
      rcases List.findIdx?_eq_some_iff_getElem.1 hfound with ⟨hk, hsame, _⟩
      have hnick : chan.users[k].nick = n :=
        hapart _ (List.mem_map_of_mem (List.getElem_mem hk)) hsame
      have hmem : n ∈ chan.nicks := hnick ▸ List.mem_map_of_mem (List.getElem_mem hk)
      rw [enlist, if_pos hmem]
      apply map_modify_of_eq
      intro scu hscu
      rw [List.getElem?_eq_getElem hk, Option.some.injEq] at hscu
      subst hscu
      exact (clip_eq_self hn).trans hnick.symm

@[simp] theorem name_addnicktochannel (chan : Uchannelt) (n ident host : CStr) :
    (addnicktochannel chan n ident host).name = chan.name :=
  congrArg Prod.fst (tag_addnicktochannel chan n ident host)

theorem nicks_removenickfromchannel (chan : Uchannelt) (n : CStr) :
    (removenickfromchannel chan n).nicks = chan.nicks.erase n := by
  have hsame : (fun chanuser : Uchannelusert => strmcmp chanuser.nick n) =
      (fun m : CStr => n == m) ∘ Uchannelusert.nick := by
    funext chanuser
    rw [Function.comp_apply, Bool.eq_iff_iff, strmcmp_iff, beq_iff_eq, eq_comm]
  rw [Uchannelt.nicks, Uchannelt.nicks, removenickfromchannel, hsame, List.erase_eq_eraseP, List.eraseP_map]

/-- What `nickchange` does to a channel. -/
theorem rowOf_nickchange {chan : Uchannelt} {n m : CStr} (hm : m.length < 64) (hnodup : chan.nicks.Nodup)
    (hapart : NickApart chan.nicks n) :
    (rowOf <| match getchannelnick chan n with
      | none => chan
      | some k => { chan with users := chan.users.modify k fun chanuser => { chanuser with nick := clip 64 m } }) =
      (foldName chan.name, chan.nicks.map (newName n m)) := by
  cases hfound : getchannelnick chan n with
  | none =>
      have hsame : chan.nicks.map (newName n m) = chan.nicks := by
        conv_rhs => rw [← List.map_id chan.nicks]
        apply List.map_congr_left
        intro k hk
        rw [newName, if_neg, id]
        rintro rfl
        rcases List.mem_map.1 hk with ⟨scu, hscu, heq⟩
        have hno := getchannelnick_none_iff.1 hfound scu hscu
        rw [answers, heq, sameName] at hno
        exact Bool.false_ne_true (hno.symm.trans (strmcmp_iff.2 rfl))
      rw [hsame]
      rfl
  | some k =>
      rcases List.findIdx?_eq_some_iff_getElem.1 hfound with ⟨hk, hsame, _⟩
      have hnick : chan.users[k].nick = n :=
        hapart _ (List.mem_map_of_mem (List.getElem_mem hk)) hsame
      have hself : clip 64 m = newName n m chan.users[k].nick := by
        rw [hnick, newName, if_pos rfl]
        exact clip_eq_self hm
      have hother : ∀ scu ∈ chan.users, scu.nick ≠ chan.users[k].nick → newName n m scu.nick = scu.nick := by
        intro scu _ hne
        rw [hnick] at hne
        rw [newName, if_neg hne]
      have hmap := @map_modify_of_nodup _ _ chan.users k (fun chanuser => { chanuser with nick := clip 64 m })
        Uchannelusert.nick (newName n m) hnodup _ (List.getElem?_eq_getElem hk) hself hother
      rw [Uchannelt.nicks, ← hmap]
      rfl

/-! ## Modes -/

section Modes

variable (lkm : Uchannelt) (md sign : Byte)

theorem nicks_modify (k : Nat) (mode : Uchannelusert → CStr) :
    ({ lkm with users := lkm.users.modify k fun chanuser => { chanuser with mode := mode chanuser } } :
      Uchannelt).nicks = lkm.nicks :=
  map_modify_of_eq fun _ _ => rfl

theorem nicks_addchannelusermode (nick : CStr) : (addchannelusermode lkm nick md).nicks = lkm.nicks := by
  rw [addchannelusermode]
  split
  · rfl
  · exact nicks_modify lkm _ _

theorem nicks_removechannelusermode (nick : CStr) : (removechannelusermode lkm nick md).nicks = lkm.nicks := by
  unfold removechannelusermode
  simp only
  split
  · rfl
  · exact nicks_modify lkm _ _

theorem nicks_applyChange (c : Change) : (applyChange lkm c).1.nicks = lkm.nicks := by
  by_cases hmember : c.md ∈ lkm.prefixmodes
  · rw [applyChange]
    cases c.par with
    | some par =>
        simp only [if_pos hmember]
        split
        · exact nicks_addchannelusermode lkm c.md par
        · exact nicks_removechannelusermode lkm c.md par
    | none =>
        have husers := congrArg (List.map Uchannelusert.nick) (users_setMode lkm c.md c.sign)
        simp only
        split
        · exact husers
        · exact husers
  · exact congrArg (List.map Uchannelusert.nick) (users_applyChange hmember)

theorem nicks_applyChanges (cs : List Change) : (applyChanges lkm cs).1.nicks = lkm.nicks := by
  induction cs generalizing lkm with
  | nil =>
      rfl
  | cons c cs ih =>
      rw [applyChanges, ih, nicks_applyChange]

theorem rowOf_addchannelmode (mode param : CStr) : rowOf (addchannelmode lkm mode param).1 = rowOf lkm := by
  have hname := congrArg Prod.fst (tag_addchannelmode lkm mode param)
  have hloop : (modeLoop (clip 200 mode) PLUS (some (clip 4096 param)) lkm).1.nicks = lkm.nicks := by
    rw [modeLoop_eq (clip 200 mode) PLUS (some (clip 4096 param)) lkm rfl]
    exact nicks_applyChanges lkm _
  exact Prod.ext (congrArg foldName hname) hloop

theorem users_setmodeLoop {mode : CStr} : ∀ (par : Option CStr) (lkm : Uchannelt),
    (setmodeLoop mode par lkm).1.users = lkm.users := by
  induction mode with
  | nil =>
      intro par lkm
      rfl
  | cons md rest ih =>
      intro par lkm
      unfold setmodeLoop
      split
      · cases par with
        | none =>
            exact ih none lkm
        | some par =>
            exact ih _ _
      · split
        · cases par with
          | none =>
              exact ih none lkm
          | some par =>
              exact ih _ _
        · exact ih par lkm

theorem rowOf_setchannelmode (mode param : CStr) : rowOf (setchannelmode lkm mode param).1 = rowOf lkm := by
  have hname := congrArg Prod.fst (tag_setchannelmode lkm mode param)
  have husers : (setchannelmode lkm mode param).1.users = lkm.users :=
    users_setmodeLoop (some param) { lkm with modes := clip 20 mode }
  exact Prod.ext (congrArg foldName hname) (congrArg (List.map Uchannelusert.nick) husers)

end Modes

/-! ## Names -/

/-- A word of a NAMES reply, taken apart. -/
theorem nicks_namesWord {signs pre n : CStr} {chan : Uchannelt} (hpre : ∀ b ∈ pre, b ∈ signs)
    (hhead : ∀ b ∈ n.head?, b ∉ signs) (hn : n.length < 64) (hapart : NickApart chan.nicks n) :
    (namesWord signs chan (pre ++ n)).nicks = if n = [] then chan.nicks else enlist chan.nicks n := by
  have hdrop : (pre ++ n).dropWhile (fun b => decide (b ∈ signs)) = n := by
    rw [List.dropWhile_append_of_pos fun b hb => decide_eq_true (hpre b hb)]
    cases n with
    | nil =>
        rfl
    | cons b n =>
        have hb : ¬ b ∈ signs := hhead b rfl
        rw [List.dropWhile_cons_of_neg (by simpa using hb)]
  rw [namesWord]
  simp only [hdrop]
  by_cases hnil : n = []
  · rw [if_pos hnil, if_pos hnil]
  · rw [if_neg hnil, if_neg hnil]
    have hadd := nicks_addnicktochannel [] [] hn hapart
    split
    · exact hadd
    · exact (nicks_modify _ _ _).trans hadd

theorem nicks_namesFold {signs : CStr} {known : Set CStr} {words : List (CStr × CStr)}
    (hknown : ∀ n ∈ known, n.length < 64 ∧ (∀ b ∈ n.head?, b ∉ signs) ∧ ∀ m ∈ known, sameName 64 m n = true → m = n)
    (hwords : ∀ p ∈ words, (∀ b ∈ p.1, b ∈ signs) ∧ (p.2 ∈ known ∨ p.2 = [])) :
    ∀ chan : Uchannelt, (∀ n ∈ chan.nicks, n ∈ known) →
      ((words.map fun p => p.1 ++ p.2).foldl (namesWord signs) chan).nicks =
        (namesNicks words).foldl enlist chan.nicks := by
  induction words with
  | nil =>
      intro chan _
      rfl
  | cons p words ih =>
      intro chan hchan
      rw [List.forall_mem_cons] at hwords
      have hrest := ih hwords.2
      rw [List.map_cons, List.foldl_cons]
      rcases hwords.1 with ⟨hpre, hp | hp⟩
      · rcases hknown p.2 hp with ⟨hlen, hhead, hapart⟩
        have hword := @nicks_namesWord signs p.1 p.2 chan hpre hhead hlen fun m hm => hapart m (hchan m hm)
        by_cases hnil : p.2 = []
        · rw [if_pos hnil] at hword
          rw [hrest _ (by rw [hword]; exact hchan), hword]
          simp [namesNicks, hnil]
        · rw [if_neg hnil] at hword
          have hnext : ∀ n ∈ (namesWord signs chan (p.1 ++ p.2)).nicks, n ∈ known := by
            intro n hn
            rw [hword, mem_enlist] at hn
            rcases hn with rfl | hn
            · exact hp
            · exact hchan n hn
          rw [hrest _ hnext, hword]
          simp [namesNicks, hnil]
      · have hword := @nicks_namesWord signs p.1 p.2 chan hpre (by rw [hp]; exact fun b hb => nomatch hb)
          (by rw [hp]; decide) (by
            intro m hm hsame
            rw [hp]
            rw [hp, sameName, strmcmp_iff] at hsame
            have hlen := congrArg List.length hsame
            simp [clip] at hlen
            exact hlen)
        rw [if_pos hp] at hword
        rw [hrest _ (by rw [hword]; exact hchan), hword]
        simp [namesNicks, hp]

/-! ## The channels -/

theorem rows_nickchange {channels : List Uchannelt} {n m : CStr} (hm : m.length < 64)
    (hnodup : ∀ chan ∈ channels, chan.nicks.Nodup) (hapart : ∀ chan ∈ channels, NickApart chan.nicks n) :
    rows (nickchange channels n m) = (rows channels).each fun _ ns => ns.map (newName n m) := by
  rw [rows, rows, nickchange, Rows.each, List.map_map, List.map_map]
  apply List.map_congr_left
  intro chan hchan
  exact rowOf_nickchange hm (hnodup chan hchan) (hapart chan hchan)

theorem getuserchannel_eq_none_iff_rows {channels : List Uchannelt} {name : CStr} :
    getuserchannel channels name = none ↔ foldName name ∉ (rows channels).map Prod.fst := by
  rw [getuserchannel_eq_none, rows, List.map_map]
  constructor
  · intro h hmem
    rcases List.mem_map.1 hmem with ⟨c, hc, heq⟩
    exact h c hc heq
  · exact fun h c hc heq => h (List.mem_map.2 ⟨c, hc, heq⟩)

/-- The channel that is found has a row of its own. -/
theorem rows_modify {channels : List Uchannelt} {name : CStr} {k : Nat} {change : Uchannelt → Uchannelt}
    {g : List CStr → List CStr} (hnodup : ((rows channels).map Prod.fst).Nodup)
    (hfound : getuserchannel channels name = some k)
    (hchange : ∀ chan ∈ channels, rowOf (change chan) = (foldName chan.name, g chan.nicks)) :
    rows (channels.modify k change) = (rows channels).onRow (foldName name) g := by
  rcases getuserchannel_eq_some hfound with ⟨chan, hget, hname⟩
  apply List.ext_getElem?
  intro i
  rw [rows, rows, Rows.onRow, Rows.each, List.map_map, List.getElem?_map, List.getElem?_map, List.getElem?_modify]
  cases hi : channels[i]? with
  | none =>
      rfl
  | some c =>
      by_cases hk : k = i
      · subst hk
        rw [hget, Option.some.injEq] at hi
        subst hi
        have hrow := hchange chan (List.mem_of_getElem? hget)
        simp only [rowOf, Prod.mk.injEq] at hrow
        simp [rowOf, hrow, hname]
      · have hne : foldName c.name ≠ foldName name := by
          intro heq
          have hlt : i < ((rows channels).map Prod.fst).length := by
            rw [List.length_map, rows, List.length_map]
            exact (List.getElem?_eq_some_iff.1 hi).1
          apply hk
          apply Eq.symm
          apply (List.getElem?_inj hlt hnodup).1
          simp [rows, hi, hget, rowOf, heq, hname]
        simp [hk, rowOf, hne]

theorem rows_changechannel {s : UserSession} {name : CStr} {change : Uchannelt → Uchannelt}
    {g : List CStr → List CStr} (hnodup : ((rows s.user.channels).map Prod.fst).Nodup)
    (hchange : ∀ chan ∈ s.user.channels, rowOf (change chan) = (foldName chan.name, g chan.nicks)) :
    rows (changechannel s name change).user.channels = (rows s.user.channels).onRow (foldName name) g := by
  cases hfound : getuserchannel s.user.channels name with
  | none =>
      have hnone := getuserchannel_eq_none_iff_rows.1 hfound
      have hsame : (rows s.user.channels).onRow (foldName name) g = rows s.user.channels := by
        conv_rhs => rw [← List.map_id (rows s.user.channels)]
        apply List.map_congr_left
        intro r hr
        have hne : r.1 ≠ foldName name := fun heq => hnone (heq ▸ List.mem_map_of_mem hr)
        simp only [if_neg hne, id]
      rw [hsame]
      simp only [changechannel, hfound]
  | some k =>
      simp only [changechannel, hfound]
      exact rows_modify hnodup hfound hchange

theorem rows_eraseIdx {channels : List Uchannelt} {name : CStr} {k : Nat}
    (hnodup : ((rows channels).map Prod.fst).Nodup) (hfound : getuserchannel channels name = some k) :
    rows (channels.eraseIdx k) = (rows channels).without (foldName name) := by
  rcases getuserchannel_eq_some hfound with ⟨chan, hget, hname⟩
  rcases List.getElem?_eq_some_iff.1 hget with ⟨hk, hat⟩
  have hsplit : channels = channels.take k ++ chan :: channels.drop (k + 1) := by
    rw [← hat, List.getElem_cons_drop, List.take_append_drop]
  have hkeys : ∀ c ∈ channels.take k ++ channels.drop (k + 1), foldName c.name ≠ foldName name := by
    intro c hc heq
    rw [hsplit] at hnodup
    simp only [rows, List.map_append, List.map_cons] at hnodup
    have hmid := List.nodup_middle.1 hnodup
    apply (List.nodup_cons.1 hmid).1
    rw [← List.map_append, ← List.map_append, List.map_map]
    apply List.mem_map.2
    exact ⟨c, hc, heq.trans hname.symm⟩
  have hkeep : ∀ l : List Uchannelt, (∀ c ∈ l, foldName c.name ≠ foldName name) →
      (rows l).filter (fun r => r.1 ≠ foldName name) = rows l := by
    intro l hl
    apply List.filter_eq_self.2
    intro r hr
    rcases List.mem_map.1 hr with ⟨c, hc, rfl⟩
    exact decide_eq_true (hl c hc)
  have hgone : ∀ l : Rows CStr CStr, (rowOf chan :: l).filter (fun r => r.1 ≠ foldName name) =
      l.filter fun r => r.1 ≠ foldName name := by
    intro l
    simp [rowOf, hname]
  have htake := hkeep (channels.take k) fun c hc => hkeys c (List.mem_append_left _ hc)
  have hdrop := hkeep (channels.drop (k + 1)) fun c hc => hkeys c (List.mem_append_right _ hc)
  rw [List.eraseIdx_eq_take_drop_succ, Rows.without]
  conv_rhs => rw [hsplit]
  rw [rows, rows, List.map_append, List.map_append, List.map_cons, List.filter_append, hgone]
  exact congrArg₂ (· ++ ·) htake.symm hdrop.symm

theorem rows_resetallchannels (u : Usert) :
    rows (resetallchannels u).channels = (rows u.channels).each fun _ _ => [] := by
  rw [rows, rows, resetallchannels, Rows.each, List.map_map, List.map_map]
  rfl

theorem rows_leaveAll (channels : List Uchannelt) (n : CStr) :
    rows (leaveAll channels n) = ((rows channels).each fun _ ns => ns.erase n).filled := by
  have hrow : ∀ chan : Uchannelt, rowOf (removenickfromchannel chan n) = (foldName chan.name, chan.nicks.erase n) := by
    intro chan
    rw [rowOf, nicks_removenickfromchannel]
    rfl
  have hsame : (fun r : CStr × List CStr => decide (r.2 ≠ [])) ∘ rowOf =
      fun chan : Uchannelt => decide (chan.users ≠ []) := by
    funext chan
    simp [rowOf, Uchannelt.nicks]
  rw [leaveAll, Rows.filled, rows, ← hsame, ← List.filter_map, List.map_map, rows, Rows.each, List.map_map]
  congr 1
  apply List.map_congr_left
  exact fun chan _ => hrow chan

/-! ## With the configuration -/

section Configured

variable {u : Usert} {conf : Conf} {name n : CStr}

theorem slotPattern_channelSect (hu : u.uid < 2 ^ 31) (entry : CStr) (i : Nat) :
    channelSect u.uid <+: slotPattern u.uid entry i := by
  have hlen := length_userFile hu
  have hname : (ascii "CHANNELS").length = 8 := by decide
  have htext : userFile u.uid ++ ascii ".CHANNELS." ++ entry ++ dec i = channelSect u.uid ++ (entry ++ dec i) := by
    simp [channelSect, ascii]
  rw [slotPattern, htext, clip]
  apply List.prefix_take_iff.2
  refine ⟨List.prefix_append _ _, ?_⟩
  simp only [channelSect, List.length_append, List.length_cons, List.length_nil, hname]
  omega

/-- The channel goes, and nothing else of the user. -/
theorem removechannelfromuser_rows (hready : ConfReady u.uid conf) (hnodup : ((rows u.channels).map Prod.fst).Nodup)
    (name : CStr) :
    ∃ channels conf', removechannelfromuser u name conf = some ({ u with channels := channels }, conf') ∧
      rows channels = (rows u.channels).without (foldName name) ∧ ConfReady u.uid conf' := by
  rw [removechannelfromuser]
  cases hfound : getuserchannel u.channels name with
  | none =>
      refine ⟨u.channels, conf, rfl, ?_, hready⟩
      have hnone := getuserchannel_eq_none_iff_rows.1 hfound
      apply Eq.symm
      apply List.filter_eq_self.2
      intro r hr
      apply decide_eq_true
      exact fun heq => hnone (heq ▸ List.mem_map_of_mem hr)
  | some k =>
      have hentry := slotPattern_channelSect u.uid_lt (ascii "ENTRY") (((u.channels[k]?).map Uchannelt.isentry).getD 0)
      have hkey := slotPattern_channelSect u.uid_lt (ascii "KEY") (((u.channels[k]?).map Uchannelt.isentry).getD 0)
      rcases hready.clear hentry with ⟨conf₁, hclear, hready₁⟩
      rcases hready₁.clear hkey with ⟨conf₂, hclear', hready₂⟩
      refine ⟨u.channels.eraseIdx k, conf₂, ?_, rows_eraseIdx hnodup hfound, hready₂⟩
      simp only [hclear, hclear', Option.bind_some, Option.map_some]

/-- What `addchanneltouser` leaves, and where the channel is then. -/
inductive AddedChannel (u : Usert) (name : CStr) : Usert → Nat → Prop where
  | found {k : Nat} (h : getuserchannel u.channels name = some k) : AddedChannel u name u k
  | new {lkm : Uchannelt} (h : getuserchannel u.channels name = none) (hname : lkm.name = clip 255 name)
      (husers : lkm.users = []) :
      AddedChannel u name { u with channels := u.channels ++ [lkm] } u.channels.length

theorem AddedChannel.user {u' : Usert} {k : Nat} (h : AddedChannel u name u' k) :
    u' = { u with channels := u'.channels } := by
  cases h with
  | found _ =>
      rfl
  | new _ _ _ =>
      rfl

theorem addchanneltouser_added (hready : ConfReady u.uid conf) (hname : name.length < 1800) :
    ∃ added, addchanneltouser u name false conf = some added ∧ AddedChannel u name added.1 added.2.2 ∧
      ConfReady u.uid added.2.1 := by
  rw [addchanneltouser]
  cases hfound : getuserchannel u.channels name with
  | some k =>
      exact ⟨(u, conf, k), rfl, AddedChannel.found hfound, hready⟩
  | none =>
      rcases hready.countconfentries u.uid_lt with ⟨found, hcount, hslot⟩
      rcases hready.writeEntry u.uid_lt hslot hname with ⟨conf', hwrite, hready'⟩
      simp only [Bool.false_eq_true, if_false, hcount, Option.bind_some, hwrite, Option.map_some]
      exact ⟨_, rfl, AddedChannel.new hfound rfl rfl, hready'⟩

/-- The channel that was added is changed. -/
theorem AddedChannel.rows_modify {u' : Usert} {k : Nat} (h : AddedChannel u name u' k)
    (hnodup : ((rows u.channels).map Prod.fst).Nodup) {change : Uchannelt → Uchannelt} {g : List CStr → List CStr}
    (hchange : ∀ chan ∈ u.channels, rowOf (change chan) = (foldName chan.name, g chan.nicks))
    (hnew : ∀ chan : Uchannelt, chan.users = [] → rowOf (change chan) = (foldName chan.name, g [])) :
    rows (u'.channels.modify k change) =
      if foldName name ∈ (rows u.channels).map Prod.fst then (rows u.channels).onRow (foldName name) g
      else rows u.channels ++ [(foldName name, g [])] := by
  cases h with
  | found hfound =>
      have hmem : foldName name ∈ (rows u.channels).map Prod.fst := by
        by_contra hnot
        rw [getuserchannel_eq_none_iff_rows.2 hnot] at hfound
        cases hfound
      rw [if_pos hmem]
      exact PsyBnc.rows_modify hnodup hfound hchange
  | new hfound hname husers =>
      rename_i lkm
      rw [if_neg (getuserchannel_eq_none_iff_rows.1 hfound)]
      have hfold : foldName lkm.name = foldName name := by
        rw [hname, foldName_clip]
      simp only [modify_last]
      rw [rows, List.map_append, List.map_singleton, hnew lkm husers, hfold]
      rfl

/-- `removeintchannel_append` for the channels of a user. -/
theorem removechannelfromuser_append {front : List Uchannelt} (back : List Uchannelt) {channel : Uchannelt}
    (hready : ConfReady u.uid conf) (hfront : ∀ c ∈ front, foldName c.name ≠ foldName channel.name) :
    ∃ conf', removechannelfromuser { u with channels := front ++ channel :: back } channel.name conf =
      some ({ u with channels := front ++ back }, conf') ∧ ConfReady u.uid conf' := by
  have hnone : front.findIdx? (fun lkm => sameName 255 lkm.name channel.name) = none :=
    getuserchannel_eq_none.2 hfront
  have hself : sameName 255 channel.name channel.name = true := sameName_iff.2 rfl
  have hfound : getuserchannel (front ++ channel :: back) channel.name = some front.length := by
    rw [getuserchannel, List.findIdx?_append, hnone]
    simp [List.findIdx?_cons, hself]
  have hget : (front ++ channel :: back)[front.length]? = some channel := by simp
  have hentry := slotPattern_channelSect u.uid_lt (ascii "ENTRY") channel.isentry
  have hkey := slotPattern_channelSect u.uid_lt (ascii "KEY") channel.isentry
  rcases hready.clear hentry with ⟨conf₁, hclear, hready₁⟩
  rcases hready₁.clear hkey with ⟨conf₂, hclear', hready₂⟩
  refine ⟨conf₂, ?_, hready₂⟩
  rw [removechannelfromuser]
  simp only [hfound, hget, Option.map_some, Option.getD_some, hclear, hclear', Option.bind_some]
  simp [List.eraseIdx_append_of_length_le]

theorem quitLoop_eq {rest : List Uchannelt} : ∀ {front : List Uchannelt} {conf : Conf}, ConfReady u.uid conf →
    ((front ++ rest).map fun c => foldName c.name).Nodup →
    ∃ conf', quitLoop n rest.length front.length { u with channels := front ++ rest } conf =
      some ({ u with channels := front ++ leaveAll rest n }, conf') ∧ ConfReady u.uid conf' := by
  induction rest with
  | nil =>
      intro front conf hready _
      exact ⟨conf, rfl, hready⟩
  | cons channel rest ih =>
      intro front conf hready hnodup
      have hget : (front ++ channel :: rest)[front.length]? = some channel := by simp
      have hset : (front ++ channel :: rest).set front.length (removenickfromchannel channel n) =
          front ++ removenickfromchannel channel n :: rest := by simp
      rw [List.length_cons, quitLoop]
      simp only [hget, hset]
      by_cases hempty : (removenickfromchannel channel n).users = []
      · have hfront : ∀ c ∈ front, foldName c.name ≠ foldName (removenickfromchannel channel n).name := by
          intro c hc heq
          rw [List.map_append, List.nodup_append] at hnodup
          exact hnodup.2.2 _ (List.mem_map_of_mem hc) _ List.mem_cons_self heq
        have hrest : ((front ++ rest).map fun c => foldName c.name).Nodup :=
          hnodup.sublist ((List.Sublist.append_left (List.sublist_cons_self _ _) _).map _)
        rcases removechannelfromuser_append rest hready hfront with ⟨conf₁, hremove, hready₁⟩
        rcases ih hready₁ hrest with ⟨conf₂, hloop, hready₂⟩
        refine ⟨conf₂, ?_, hready₂⟩
        rw [if_pos hempty, hremove, Option.bind_some, hloop]
        simp [leaveAll, hempty]
      · have hrest : (((front ++ [removenickfromchannel channel n]) ++ rest).map fun c => foldName c.name).Nodup := by
          simpa [removenickfromchannel] using hnodup
        have happend : front ++ removenickfromchannel channel n :: rest =
            (front ++ [removenickfromchannel channel n]) ++ rest := by simp
        have hlength : front.length + 1 = (front ++ [removenickfromchannel channel n]).length := by simp
        rcases ih hready hrest with ⟨conf₂, hloop, hready₂⟩
        refine ⟨conf₂, ?_, hready₂⟩
        rw [if_neg hempty, happend, hlength, hloop]
        simp [leaveAll, hempty]

theorem removenickfromuser_eq (hready : ConfReady u.uid conf) (hnodup : ((rows u.channels).map Prod.fst).Nodup)
    (n : CStr) :
    ∃ conf', removenickfromuser u n conf = some ({ u with channels := leaveAll u.channels n }, conf') ∧
      ConfReady u.uid conf' := by
  have hnames : ((([] : List Uchannelt) ++ u.channels).map fun c => foldName c.name).Nodup := by
    rw [rows, List.map_map] at hnodup
    exact hnodup
  exact quitLoop_eq hready hnames

end Configured

end PsyBnc
