import PsyBnc.Intnet.Interpret

/-!
# A channel that a burst builds up

`shared` is a channel of the internal network with its fixed tables.  Here is what the three kinds
of mode lines of a burst make of it: member modes, bans, and the flags.
-/

namespace PsyBnc

open CLib

def shared (name : CStr) (users : List Uchannelusert) (bans : List CStr) (modes : CStr) :
    Uchannelt where
  name := name
  modes := modes
  prefixmodes := ascii "ov"
  prefixchars := ascii "@+"
  chanmodes := ascii "b,k,l,imnpst"
  bans := bans
  users := users

theorem newchannel_shared {name : CStr} (hlen : name.length < 255) :
    newchannel (-1) (ascii "ov") (ascii "@+") (ascii "b,k,l,imnpst") name =
      shared name [] [] (ascii "nt") := by
  have h₁ : clip 30 (ascii "ov") = ascii "ov" := by decide
  have h₂ : clip 30 (ascii "@+") = ascii "@+" := by decide
  have h₃ : clip 100 (ascii "b,k,l,imnpst") = ascii "b,k,l,imnpst" := by decide
  simp only [newchannel, clip_eq_self hlen, h₁, h₂, h₃, shared]

theorem modify_eq_map {α : Type} {l : List α} {k : Nat} {f g : α → α}
    (hself : ∀ x, l[k]? = some x → f x = g x) (hother : ∀ j x, l[j]? = some x → j ≠ k → g x = x) :
    l.modify k f = l.map g := by
  refine List.ext_getElem? fun j => ?_
  rw [List.getElem?_modify, List.getElem?_map]
  cases hj : l[j]? with
  | none =>
      rfl
  | some x =>
      by_cases hk : k = j
      · subst hk
        simp [hself x hj]
      · simp [hk, hother j x hj (Ne.symm hk)]

/-! ## Modes of members -/

section Members

variable {net : Intnet} {name : CStr} {users : List Uchannelusert}

/-- The letter of a member's mode. -/
def letter (u : Uchannelusert) : Byte := if u.mode = [AT] then 111 else 118

/-- The member gets the mode of `p`. -/
def give (p v : Uchannelusert) : Uchannelusert :=
  if v.nick = p.nick then { v with mode := p.mode } else v

/-- A member whose mode a line can set. -/
def Ranked (u : Uchannelusert) : Prop := u.mode = [AT] ∨ u.mode = [PLUS]

theorem getchannelnick_eq_none {chan : Uchannelt} {nick : CStr} :
    getchannelnick chan nick = none ↔ ∀ v ∈ chan.users, foldNick v.nick ≠ foldNick nick := by
  rw [getchannelnick, List.findIdx?_eq_none_iff]
  refine forall₂_congr fun v _ => ?_
  rw [← Bool.not_eq_true, sameNick_iff]

theorem getchannelnick_eq_some {chan : Uchannelt} {nick : CStr} {k : Nat}
    (h : getchannelnick chan nick = some k) :
    ∃ v, chan.users[k]? = some v ∧ foldNick v.nick = foldNick nick := by
  rcases List.findIdx?_eq_some_iff_getElem.1 h with ⟨hk, hsame, _⟩
  exact ⟨chan.users[k], List.getElem?_eq_getElem hk, sameNick_iff.1 hsame⟩

/-- Nicks that are the same up to case are the same. -/
def Exact (users : List Uchannelusert) (p : Uchannelusert) : Prop :=
  ∀ v ∈ users, foldNick v.nick = foldNick p.nick → v.nick = p.nick

theorem eq_of_getElem? (hdistinct : (users.map fun v => foldNick v.nick).Nodup) {j k : Nat}
    {v w : Uchannelusert} (hj : users[j]? = some v) (hk : users[k]? = some w)
    (hnick : foldNick v.nick = foldNick w.nick) : j = k := by
  have hj' : (users.map fun v => foldNick v.nick)[j]? = some (foldNick v.nick) := by
    rw [List.getElem?_map, hj, Option.map_some]
  have hk' : (users.map fun v => foldNick v.nick)[k]? = some (foldNick v.nick) := by
    rw [List.getElem?_map, hk, Option.map_some, hnick]
  have hlt := (List.getElem?_eq_some_iff.1 hj').1
  exact (List.getElem?_inj hlt hdistinct).1 (hj'.trans hk'.symm)

/-- Changing the member that is found is changing every member of this nick. -/
theorem modify_member (chan : Uchannelt) {p : Uchannelusert} {k : Nat}
    {f g : Uchannelusert → Uchannelusert} (hfound : getchannelnick chan p.nick = some k)
    (hdistinct : (chan.users.map fun v => foldNick v.nick).Nodup) (hexact : Exact chan.users p)
    (hself : ∀ v ∈ chan.users, v.nick = p.nick → f v = g v)
    (hother : ∀ v ∈ chan.users, v.nick ≠ p.nick → g v = v) :
    chan.users.modify k f = chan.users.map g := by
  rcases getchannelnick_eq_some hfound with ⟨w, hk, hw⟩
  refine modify_eq_map ?_ ?_
  · intro v hv
    cases hk.symm.trans hv
    have hmem := List.mem_of_getElem? hk
    exact hself w hmem (hexact w hmem hw)
  · intro j v hj hne
    have hmem := List.mem_of_getElem? hj
    refine hother v hmem fun hnick => hne ?_
    exact eq_of_getElem? hdistinct hj hk (by rw [hnick, hw])

theorem give_of_ne {p v : Uchannelusert} (h : v.nick ≠ p.nick) : give p v = v := if_neg h

theorem give_of_eq {p v : Uchannelusert} (h : v.nick = p.nick) :
    give p v = { v with mode := p.mode } := if_pos h

@[simp] theorem nick_give (p v : Uchannelusert) : (give p v).nick = v.nick := by
  unfold give
  split
  · rfl
  · rfl

/-- The nick of a member is not one of a local user. -/
theorem remember_remote (hremote : ∀ c ∈ net.clients, c.intuser = 0) (nick : CStr)
    (change : Uchannelt → CStr → Uchannelt) (chan : Uchannelt) :
    remember net nick change chan = chan := by
  unfold remember
  cases hclient : getclientbynick net nick with
  | none =>
      rfl
  | some client =>
      have hzero := hremote client (List.mem_of_find?_eq_some hclient)
      simp [hzero]

theorem applyItem_member (hremote : ∀ c ∈ net.clients, c.intuser = 0) {p : Uchannelusert}
    (hrank : Ranked p) (hdistinct : (users.map fun v => foldNick v.nick).Nodup)
    (hexact : Exact users p) (hplain : ∀ v ∈ users, v.nick = p.nick → v.mode = []) (modes : CStr) :
    applyItem net (shared name users [] modes) (letter p, p.nick) =
      shared name (users.map (give p)) [] modes := by
  have hmap : ∀ mode, p.mode = mode → ∀ k,
      getchannelnick (shared name users [] modes) p.nick = some k →
      setmember (shared name users [] modes) k mode = shared name (users.map (give p)) [] modes := by
    rintro mode rfl k hk
    have hmodify : (shared name users [] modes).users.modify k
        (fun v => { v with mode := p.mode }) = users.map (give p) :=
      modify_member (shared name users [] modes) hk hdistinct hexact
        (fun v _ hv => (give_of_eq hv).symm) (fun v _ hv => give_of_ne hv)
    simp only [setmember, hmodify]
    rfl
  have hnone : getchannelnick (shared name users [] modes) p.nick = none →
      users.map (give p) = users := by
    intro hno
    have hne := getchannelnick_eq_none.1 hno
    conv_rhs => rw [← List.map_id users]
    exact List.map_congr_left fun v hv => give_of_ne fun e => hne v hv (by rw [e])
  rcases hrank with hop | hvoice
  · have hletter : letter p = 111 := if_pos hop
    have h98 : ¬ (111 : Byte) = 98 := by decide
    simp only [applyItem, hletter, h98, if_false, if_true, addop]
    cases hk : getchannelnick (shared name users [] modes) p.nick with
    | none =>
        simp only [hnone hk]
    | some k =>
        simp only [remember_remote hremote]
        exact hmap _ hop k hk
  · have hletter : letter p = 118 := by
      have hne : ¬ p.mode = [AT] := by
        rw [hvoice]
        decide
      exact if_neg hne
    have h98 : ¬ (118 : Byte) = 98 := by decide
    have h111 : ¬ (118 : Byte) = 111 := by decide
    simp only [applyItem, hletter, h98, h111, if_false, addvoice]
    cases hk : getchannelnick (shared name users [] modes) p.nick with
    | none =>
        simp only [hnone hk]
    | some k =>
        have hmode : AT ∉ membermode (shared name users [] modes) k := by
          rcases getchannelnick_eq_some hk with ⟨v, hv, hnick⟩
          have hmem : v ∈ users := List.mem_of_getElem? hv
          simp [membermode, hv, hplain v hmem (hexact v hmem hnick)]
        simp only [hmode, if_false]
        exact hmap _ hvoice k hk

/-- `addchannelmode` sets again what the loop has set. -/
theorem addchannelusermode_set {p : Uchannelusert} (hrank : Ranked p)
    (hdistinct : (users.map fun v => foldNick v.nick).Nodup) (hexact : Exact users p)
    (hset : ∀ v ∈ users, v.nick = p.nick → v.mode = p.mode) (modes : CStr) :
    addchannelusermode (shared name users [] modes) p.nick (letter p) =
      shared name users [] modes := by
  cases hk : getchannelnick (shared name users [] modes) p.nick with
  | none =>
      simp only [addchannelusermode, hk]
  | some k =>
      have horder : ((((ascii "ov").zip (ascii "@+")).filter fun q =>
          decide (q.2 ∈ p.mode ∨ letter p = q.1)).map Prod.snd).take 20 = p.mode := by
        rcases hrank with hop | hvoice
        · rw [letter, hop]
          decide
        · rw [letter, hvoice]
          decide
      have hsame := modify_member (shared name users [] modes) (g := id)
        (f := fun v => { v with mode := ((((ascii "ov").zip (ascii "@+")).filter fun q =>
          decide (q.2 ∈ v.mode ∨ letter p = q.1)).map Prod.snd).take 20 }) hk hdistinct hexact (by
          intro v hv hnick
          have hmode := hset v hv hnick
          simp only [hmode, horder, id_eq]
          rw [← hmode]) (fun v _ _ => rfl)
      simp only [addchannelusermode, hk]
      rw [List.map_id] at hsame
      exact congrArg (fun us => shared name us [] modes) hsame

/-- The members of a batch, with their letters. -/
def memberItems (ps : List Uchannelusert) : List ModeItem := ps.map fun p => (letter p, p.nick)

/-- The members of a batch have their modes set. -/
def giveAll (ps : List Uchannelusert) (users : List Uchannelusert) : List Uchannelusert :=
  ps.foldl (fun us p => us.map (give p)) users

/-- A batch that is about to be done: no member of it has a mode yet. -/
structure Batch (ps : List Uchannelusert) (users : List Uchannelusert) : Prop where
  distinct : (users.map fun v => foldNick v.nick).Nodup
  ranked : ∀ p ∈ ps, Ranked p
  exact : ∀ p ∈ ps, Exact users p
  plain : ∀ p ∈ ps, ∀ v ∈ users, v.nick = p.nick → v.mode = []
  nicks : (ps.map Uchannelusert.nick).Nodup

theorem map_nick_give {β : Type} (f : CStr → β) (p : Uchannelusert) (users : List Uchannelusert) :
    (users.map (give p)).map (fun v => f v.nick) = users.map fun v => f v.nick := by
  simp [Function.comp_def]

theorem Exact.give {p : Uchannelusert} (h : Exact users p) (q : Uchannelusert) :
    Exact (users.map (give q)) p := by
  intro v hv hnick
  rcases List.mem_map.1 hv with ⟨w, hw, rfl⟩
  rw [nick_give] at hnick ⊢
  exact h w hw hnick

theorem Batch.tail {p : Uchannelusert} {ps : List Uchannelusert} (h : Batch (p :: ps) users) :
    Batch ps (users.map (give p)) := by
  refine ⟨?_, fun q hq => h.ranked q (List.mem_cons_of_mem _ hq),
    fun q hq => (h.exact q (List.mem_cons_of_mem _ hq)).give p, ?_, (List.nodup_cons.1 h.nicks).2⟩
  · rw [map_nick_give foldNick]
    exact h.distinct
  · intro q hq v hv hnick
    rcases List.mem_map.1 hv with ⟨w, hw, rfl⟩
    rw [nick_give] at hnick
    have hne : w.nick ≠ p.nick := by
      intro heq
      refine (List.nodup_cons.1 h.nicks).1 ?_
      rw [← heq, hnick]
      exact List.mem_map_of_mem hq
    rw [give_of_ne hne]
    exact h.plain q (List.mem_cons_of_mem _ hq) w hw hnick

theorem foldl_memberItems (hremote : ∀ c ∈ net.clients, c.intuser = 0) {ps : List Uchannelusert}
    (h : Batch ps users) (modes : CStr) :
    (memberItems ps).foldl (applyItem net) (shared name users [] modes) =
      shared name (giveAll ps users) [] modes := by
  induction ps generalizing users with
  | nil =>
      rfl
  | cons p ps ih =>
      have hp : p ∈ p :: ps := by simp
      have hone : applyItem net (shared name users [] modes) (letter p, p.nick) =
          shared name (users.map (give p)) [] modes :=
        applyItem_member hremote (h.ranked p hp) h.distinct (h.exact p hp) (h.plain p hp) modes
      rw [memberItems, List.map_cons, List.foldl_cons, hone]
      exact ih h.tail

/-- A mode that is set stays while the rest of the batch is done. -/
theorem mode_giveAll {p : Uchannelusert} {ps : List Uchannelusert}
    (hp : p.nick ∉ ps.map Uchannelusert.nick)
    (hset : ∀ v ∈ users, v.nick = p.nick → v.mode = p.mode) :
    ∀ v ∈ giveAll ps users, v.nick = p.nick → v.mode = p.mode := by
  induction ps generalizing users with
  | nil =>
      exact hset
  | cons q ps ih =>
      simp only [List.map_cons, List.mem_cons, not_or] at hp
      refine ih hp.2 ?_
      intro v hv hnick
      rcases List.mem_map.1 hv with ⟨w, hw, rfl⟩
      rw [nick_give] at hnick
      rw [give_of_ne (fun heq => hp.1 (hnick.symm.trans heq))]
      exact hset w hw hnick

theorem giveAll_set {ps : List Uchannelusert} (h : Batch ps users) :
    ∀ p ∈ ps, ∀ v ∈ giveAll ps users, v.nick = p.nick → v.mode = p.mode := by
  induction ps generalizing users with
  | nil =>
      simp
  | cons q ps ih =>
      intro p hp
      rcases List.mem_cons.1 hp with rfl | hp
      · have hnotin := (List.nodup_cons.1 h.nicks).1
        have hset : ∀ v ∈ users.map (give p), v.nick = p.nick → v.mode = p.mode := by
          intro v hv hnick
          rcases List.mem_map.1 hv with ⟨w, hw, rfl⟩
          rw [nick_give] at hnick
          rw [give_of_eq hnick]
        have hrest := mode_giveAll hnotin hset
        exact hrest
      · exact ih h.tail p hp

theorem map_nick_giveAll {β : Type} (f : CStr → β) (ps users : List Uchannelusert) :
    (giveAll ps users).map (fun v => f v.nick) = users.map fun v => f v.nick := by
  induction ps generalizing users with
  | nil =>
      rfl
  | cons p ps ih =>
      exact (ih (users.map (give p))).trans (map_nick_give f p users)

theorem Exact.giveAll {p : Uchannelusert} (h : Exact users p) (ps : List Uchannelusert) :
    Exact (giveAll ps users) p := by
  induction ps generalizing users with
  | nil =>
      exact h
  | cons q ps ih =>
      exact ih (h.give q)

/-- The second pass over a batch finds nothing to do. -/
theorem modeLoop_members {chan : Uchannelt} (htable : chan.prefixmodes = ascii "ov")
    {items : List ModeItem} (hletters : ∀ item ∈ items, item.1 = 111 ∨ item.1 = 118)
    (hparam : ∀ w ∈ items.map Prod.snd, Param w)
    (hsame : ∀ item ∈ items, addchannelusermode chan item.2 item.1 = chan) :
    (modeLoop (items.map Prod.fst) PLUS (spacedPtr (items.map Prod.snd)) chan).1 = chan := by
  induction items with
  | nil =>
      rfl
  | cons item items ih =>
      have hitem : item ∈ item :: items := by simp
      have hsign : ¬ (item.1 = PLUS ∨ item.1 = MINUS) := by
        rcases hletters item hitem with hm | hm
        · rw [hm]
          decide
        · rw [hm]
          decide
      have hmem : item.1 ∈ chan.prefixmodes := by
        rw [htable]
        rcases hletters item hitem with hm | hm
        · rw [hm]
          decide
        · rw [hm]
          decide
      have hptr : spacedPtr ((item :: items).map Prod.snd) =
          some (spaced (item.2 :: items.map Prod.snd)) := by simp [spacedPtr]
      rw [hptr, List.map_cons, modeLoop, if_neg hsign, if_pos hmem]
      simp only [nextParam_spaced hparam, if_true, hsame item hitem]
      exact ih (fun i hi => hletters i (List.mem_cons_of_mem _ hi))
        (fun w hw => hparam w (List.mem_cons_of_mem _ hw))
        (fun i hi => hsame i (List.mem_cons_of_mem _ hi))

theorem ordermodes_shared (bans : List CStr) {modes : CStr}
    (h : modes = ascii "nt" ∨ modes = ascii "ntb") :
    ordermodes (shared name users bans modes) = shared name users bans (ascii "nt") := by
  have hmodes : (ordermodes (shared name users bans modes)).modes = ascii "nt" := by
    rcases h with rfl | rfl
    · rfl
    · rfl
  calc ordermodes (shared name users bans modes)
      = { shared name users bans modes with
          modes := (ordermodes (shared name users bans modes)).modes } := rfl
    _ = shared name users bans (ascii "nt") := by
        rw [hmodes]
        rfl

/-- A batch of member modes is done. -/
theorem modeEffect_members (hremote : ∀ c ∈ net.clients, c.intuser = 0) {ps : List Uchannelusert}
    (h : Batch ps users) (hne : ps ≠ []) (hthree : ps.length ≤ 3)
    (hnick : ∀ p ∈ ps, Param p.nick ∧ p.nick.length < 64)
    (hclient : ∀ p ∈ ps, ((getclientbynick net p.nick).map Clientt.nick).getD p.nick = p.nick)
    (hlong : 2 ≤ (spaced (ps.map Uchannelusert.nick)).length) :
    modeEffect net (shared name users [] (ascii "nt")) (PLUS :: ps.map letter)
        (spaced (ps.map Uchannelusert.nick)) =
      shared name (giveAll ps users) [] (ascii "nt") := by
  have hfst : (memberItems ps).map Prod.fst = ps.map letter := by simp [memberItems]
  have hsnd : (memberItems ps).map Prod.snd = ps.map Uchannelusert.nick := by simp [memberItems]
  have hletter : ∀ p, letter p = 111 ∨ letter p = 118 := by
    intro p
    by_cases hop : p.mode = [AT]
    · exact Or.inl (if_pos hop)
    · exact Or.inr (if_neg hop)
  -- Each letter finds its nick, and the helper takes it.
  have haccept : ∀ (chan : Uchannelt) (qs : List Uchannelusert), (∀ q ∈ qs, q ∈ ps) →
      AllAccept net chan (memberItems qs) := by
    intro chan qs
    induction qs generalizing chan with
    | nil =>
        exact fun _ => trivial
    | cons q qs ih =>
        intro hqs
        have hq := hqs q (by simp)
        exact ⟨⟨(hnick q hq).1, Or.inr ⟨hletter q, hclient q hq⟩⟩,
          ih _ fun r hr => hqs r (List.mem_cons_of_mem _ hr)⟩
  have hall := haccept (shared name users [] (ascii "nt")) ps fun q hq => hq
  have hws : ∀ w ∈ (memberItems ps).map Prod.snd, Param w := hall.param
  have hletters : ∀ m ∈ (memberItems ps).map Prod.fst, m ≠ PLUS ∧ m ≠ MINUS := by
    intro m hm
    rw [hfst] at hm
    rcases List.mem_map.1 hm with ⟨p, _, rfl⟩
    rcases hletter p with hp | hp
    · rw [hp]
      decide
    · rw [hp]
      decide
  have hlen : (((memberItems ps).map Prod.snd).flatMap fun w => w ++ [SP]).length < 399 := by
    have hspaced := length_spaced_le ((memberItems ps).map Prod.snd) (n := 63) (by
      intro w hw
      rw [hsnd] at hw
      rcases List.mem_map.1 hw with ⟨p, hp, rfl⟩
      have := (hnick p hp).2
      omega)
    rw [flatMap_spaced (by simpa [hsnd] using hne), List.length_append]
    simp only [memberItems, List.length_map, List.length_cons, List.length_nil] at hspaced ⊢
    omega
  have heffect := modeEffect_items hall (by simpa [memberItems] using hne)
    (by simpa [memberItems] using hthree) hletters (by rwa [hsnd]) hlen
  -- The second pass of `addchannelmode` writes what the helpers wrote already.
  have hset := giveAll_set h
  have hdistinct : ((giveAll ps users).map fun v => foldNick v.nick).Nodup := by
    rw [map_nick_giveAll foldNick]
    exact h.distinct
  have hsame : ∀ item ∈ memberItems ps,
      addchannelusermode (shared name (giveAll ps users) [] (ascii "nt")) item.2 item.1 =
        shared name (giveAll ps users) [] (ascii "nt") := by
    intro item hitem
    rcases List.mem_map.1 hitem with ⟨p, hp, rfl⟩
    exact addchannelusermode_set (h.ranked p hp) hdistinct ((h.exact p hp).giveAll ps) (hset p hp) _
  have hitems : ∀ item ∈ memberItems ps, item.1 = 111 ∨ item.1 = 118 := by
    intro item hitem
    rcases List.mem_map.1 hitem with ⟨p, _, rfl⟩
    exact hletter p
  have hloop := modeLoop_members rfl hitems hws hsame
  rw [spacedPtr, if_neg (by simpa [hsnd] using hne)] at hloop
  rw [← hfst, ← hsnd, heffect, foldl_memberItems hremote h, hloop, ordermodes_shared [] (Or.inl rfl)]

end Members

/-! ## Bans -/

section Bans

variable {net : Intnet} {name : CStr} {users : List Uchannelusert}

/-- Masks that can be added to the bans that are there. -/
structure NewBans (bs bans : List CStr) : Prop where
  masks : ∀ b ∈ bs, isMask b = true
  fresh : (bans ++ bs).Nodup
  room : bans.length + bs.length ≤ 20

def banItems (bs : List CStr) : List ModeItem := bs.map fun b => (98, b)

theorem addban_new {b : CStr} {bs bans : List CStr} (h : NewBans (b :: bs) bans) (modes : CStr) :
    addban (shared name users bans modes) b = (shared name users (bans ++ [b]) modes, true) := by
  have hmask := h.masks b (by simp)
  have hroom := h.room
  have hnotin : b ∉ bans := by
    intro hmem
    exact (List.nodup_append.1 h.fresh).2.2 b hmem b (by simp) rfl
  have hmem : ¬ b ∈ (shared name users bans modes).bans := hnotin
  have hcond : isMask b = true ∧ (shared name users bans modes).bans.length < 20 := by
    refine ⟨hmask, ?_⟩
    simp only [List.length_cons] at hroom
    exact (by omega : bans.length < 20)
  rw [addban, if_neg hmem, if_pos hcond]
  rfl

theorem NewBans.tail {b : CStr} {bs bans : List CStr} (h : NewBans (b :: bs) bans) :
    NewBans bs (bans ++ [b]) := by
  refine ⟨fun c hc => h.masks c (List.mem_cons_of_mem _ hc), by simpa using h.fresh, ?_⟩
  have hroom := h.room
  simp only [List.length_append, List.length_cons, List.length_nil] at hroom ⊢
  omega

theorem foldl_banItems (net : Intnet) (name : CStr) (users : List Uchannelusert)
    {bs bans : List CStr} (h : NewBans bs bans)
    (hparam : ∀ b ∈ bs, Param b ∧ b.length ≤ 100) (modes : CStr) :
    AllAccept net (shared name users bans modes) (banItems bs) ∧
      (banItems bs).foldl (applyItem net) (shared name users bans modes) =
        shared name users (bans ++ bs) modes := by
  induction bs generalizing bans with
  | nil =>
      exact ⟨trivial, by simp [banItems]⟩
  | cons b bs ih =>
      have hadd : addban (shared name users bans modes) b =
          (shared name users (bans ++ [b]) modes, true) := addban_new h modes
      have hb := hparam b (by simp)
      have hstep : applyItem net (shared name users bans modes) (98, b) =
          shared name users (bans ++ [b]) modes := by
        simp only [applyItem, if_true, hadd]
      rcases ih h.tail (fun c hc => hparam c (List.mem_cons_of_mem _ hc)) with ⟨haccept, hfold⟩
      refine ⟨⟨⟨hb.1, Or.inl ⟨rfl, hb.2, by rw [hadd]⟩⟩, ?_⟩, ?_⟩
      · rw [hstep]
        exact haccept
      · rw [banItems, List.map_cons, List.foldl_cons, hstep]
        simpa [banItems] using hfold

/-- The second pass enters `b` as a mode, for `ordermodes` to drop. -/
theorem modeLoop_bans (name : CStr) (users : List Uchannelusert) (bans : List CStr)
    {bs : List CStr} {modes : CStr}
    (hmodes : modes = ascii "nt" ∨ modes = ascii "ntb") (hparam : ∀ b ∈ bs, Param b) :
    ∃ modes', (modes' = ascii "nt" ∨ modes' = ascii "ntb") ∧
      (modeLoop ((banItems bs).map Prod.fst) PLUS (spacedPtr bs)
        (shared name users bans modes)).1 = shared name users bans modes' := by
  induction bs generalizing modes with
  | nil =>
      exact ⟨modes, hmodes, rfl⟩
  | cons b bs ih =>
      have hadd : setMode (shared name users bans modes) 98 PLUS =
          shared name users bans (ascii "ntb") := by
        rcases hmodes with rfl | rfl
        · have hcond : (ascii "nt").length < 20 ∧ (98 : Byte) ∉ ascii "nt" := by decide
          have happ : ascii "nt" ++ [98] = ascii "ntb" := by decide
          simp only [setMode, if_true, addmodetochannel, shared, hcond, and_self, not_false_eq_true,
            happ]
        · have hcond : ¬ ((ascii "ntb").length < 20 ∧ (98 : Byte) ∉ ascii "ntb") := by decide
          simp only [setMode, if_true, addmodetochannel, shared, hcond, if_false]
      have hntb : ascii "ntb" = ascii "nt" ∨ ascii "ntb" = ascii "ntb" := Or.inr rfl
      rcases ih hntb (fun c hc => hparam c (List.mem_cons_of_mem _ hc)) with ⟨modes', hmodes', hloop⟩
      refine ⟨modes', hmodes', ?_⟩
      have hptr : spacedPtr (b :: bs) = some (spaced (b :: bs)) := by simp [spacedPtr]
      have h₁ : ¬ ((98 : Byte) = PLUS ∨ (98 : Byte) = MINUS) := by decide
      have h₂ : ¬ (98 : Byte) ∈ (shared name users bans modes).prefixmodes := by
        simp only [shared]
        decide
      have h₃ : (98 : Byte) ∈ (shared name users bans modes).chanmodes := by
        simp only [shared]
        decide
      have h₄ : hasparam (shared name users bans modes).chanmodes 98 PLUS = true := by
        simp only [shared]
        decide
      have h₅ : paramMode (shared name users bans modes) 98 PLUS b =
          (shared name users bans modes, []) := rfl
      rw [hptr, banItems, List.map_cons, List.map_cons, modeLoop, if_neg h₁, if_neg h₂, if_pos h₃,
        if_pos h₄]
      simp only [nextParam_spaced hparam, h₅, hadd]
      exact hloop

/-- A batch of bans is done. -/
theorem modeEffect_bans {bs bans : List CStr} (h : NewBans bs bans) (hne : bs ≠ [])
    (hthree : bs.length ≤ 3) (hparam : ∀ b ∈ bs, Param b ∧ b.length ≤ 100) :
    modeEffect net (shared name users bans (ascii "nt")) (PLUS :: bs.map fun _ => 98) (spaced bs) =
      shared name users (bans ++ bs) (ascii "nt") := by
  have hfst : (banItems bs).map Prod.fst = bs.map fun _ => 98 := by simp [banItems]
  have hsnd : (banItems bs).map Prod.snd = bs := by simp [banItems]
  rcases foldl_banItems net name users h hparam (ascii "nt") with
    ⟨haccept, hfold⟩
  have hletters : ∀ m ∈ (banItems bs).map Prod.fst, m ≠ PLUS ∧ m ≠ MINUS := by
    intro m hm
    rw [hfst] at hm
    rcases List.mem_map.1 hm with ⟨b, _, rfl⟩
    decide
  -- A mask has two bytes at least.
  have hlong : 2 ≤ (spaced bs).length := by
    rcases List.exists_cons_of_ne_nil hne with ⟨b, rest, rfl⟩
    have hmask := h.masks b (by simp)
    have htwo : 2 ≤ b.length := by
      by_contra hshort
      have hcases : b = [] ∨ ∃ x, b = [x] := by
        cases b with
        | nil =>
            exact Or.inl rfl
        | cons x xs =>
            cases xs with
            | nil =>
                exact Or.inr ⟨x, rfl⟩
            | cons y ys =>
                simp only [List.length_cons] at hshort
                omega
      rcases hcases with rfl | ⟨x, rfl⟩
      · exact absurd hmask (by decide)
      · by_cases hx : x = BANG
        · subst hx
          exact absurd hmask (by decide)
        · simp [isMask, cutAt, hx] at hmask
    cases rest with
    | nil =>
        exact htwo
    | cons c rest =>
        simp only [spaced, List.length_append]
        omega
  have hlen : (((banItems bs).map Prod.snd).flatMap fun w => w ++ [SP]).length < 399 := by
    have hspaced := length_spaced_le bs (n := 100) fun b hb => (hparam b hb).2
    rw [hsnd, flatMap_spaced hne, List.length_append]
    simp only [List.length_cons, List.length_nil]
    omega
  -- The changes are read one by one, and the loop over them adds the masks.
  have heffect := modeEffect_items haccept (by simpa [banItems] using hne)
    (by simpa [banItems] using hthree) hletters (by rwa [hsnd]) hlen
  rcases modeLoop_bans name users (bans ++ bs) (Or.inl rfl)
    (fun b hb => (hparam b hb).1) with ⟨modes', hmodes', hloop⟩
  rw [hsnd, hfst] at heffect
  rw [spacedPtr, if_neg hne, hfst] at hloop
  rw [heffect, hfold, hloop, ordermodes_shared _ hmodes']

end Bans

/-! ## Flags -/

/-- The flags that a burst can tell about: `n` and `t`, which a new channel has, with any of `s`,
`m` and `i`, in the order of `ordermodes`. -/
def SendableModes (modes : CStr) : Prop :=
  110 ∈ modes ∧ 116 ∈ modes ∧ (ascii "smnti").filter (fun m => decide (m ∈ modes)) = modes

instance (modes : CStr) : Decidable (SendableModes modes) := by
  dsimp [SendableModes]
  infer_instance

theorem sendableModes_cases {modes : CStr} (h : SendableModes modes) :
    modes ∈ [ascii "nt", ascii "nti", ascii "mnt", ascii "mnti", ascii "snt", ascii "snti",
      ascii "smnt", ascii "smnti"] := by
  rcases h with ⟨hn, ht, hfilter⟩
  have hletters : ascii "smnti" = [115, 109, 110, 116, 105] := by decide
  rw [← hfilter, hletters]
  by_cases hs : (115 : Byte) ∈ modes <;> by_cases hm : (109 : Byte) ∈ modes <;>
    by_cases hi : (105 : Byte) ∈ modes <;>
    simp only [List.filter_cons, List.filter_nil, hn, ht, hs, hm, hi, decide_true, decide_false,
      if_true, if_false, Bool.false_eq_true] <;> decide

/-- The flags that the loop of `intmode` collects on a new channel. -/
def collected (modes : CStr) : CStr :=
  modes.foldl (fun newmode m => if m ∉ newmode ∧ m ∉ ascii "nt" then newmode ++ [m] else newmode) []

/-- The flags of the channel after `addchannelmode`. -/
def addFlag (modes : CStr) (m : Byte) : CStr :=
  if modes.length < 20 ∧ m ∉ modes then modes ++ [m] else modes

def orderedFlags (modes : CStr) : CStr :=
  clip 20 ((ascii "spmntilk").foldl ordermode ([], modes)).1

section Flags

variable {net : Intnet} {name : CStr} {users : List Uchannelusert} {bans : List CStr}

theorem ordermodes_flags (modes : CStr) :
    ordermodes (shared name users bans modes) = shared name users bans (orderedFlags modes) := rfl

theorem foldl_flags (net : Intnet) {modes : CStr} (hmodes : ∀ m ∈ modes, m ∈ ascii "smitn") {s : Intmode}
    (hsign : s.sign = PLUS) (hchan : s.chan.modes = ascii "nt") :
    (modes.foldl (intmodeStep net) s).chan = s.chan ∧
      (modes.foldl (intmodeStep net) s).newmode =
        modes.foldl (fun newmode m => if m ∉ newmode ∧ m ∉ ascii "nt" then newmode ++ [m]
          else newmode) s.newmode ∧
      (modes.foldl (intmodeStep net) s).newparam = s.newparam := by
  induction modes generalizing s with
  | nil =>
      exact ⟨rfl, rfl, rfl⟩
  | cons m modes ih =>
      have hm := hmodes m (by simp)
      have hrest : ∀ x ∈ modes, x ∈ ascii "smitn" := fun x hx => hmodes x (List.mem_cons_of_mem _ hx)
      have hno : ¬ (m = PLUS ∨ m = MINUS) := by
        rintro (rfl | rfl)
        · exact absurd hm (by decide)
        · exact absurd hm (by decide)
      simp only [List.foldl_cons, intmodeStep, hno, hm, hsign, hchan, true_iff, if_false, if_true]
      by_cases hadd : m ∉ s.newmode ∧ m ∉ ascii "nt"
      · rw [if_pos hadd, if_pos hadd]
        exact ih hrest rfl hchan
      · rw [if_neg hadd, if_neg hadd]
        exact ih hrest hsign hchan

theorem modeLoop_flags {flags : CStr} (hflags : ∀ m ∈ flags, m ∈ ascii "smi") (par : Option CStr)
    (modes : CStr) :
    (modeLoop flags PLUS par (shared name users bans modes)).1 =
      shared name users bans (flags.foldl addFlag modes) := by
  induction flags generalizing modes with
  | nil =>
      rfl
  | cons m flags ih =>
      have hm := hflags m (by simp)
      have htable : ∀ m ∈ ascii "smi", ¬ (m = PLUS ∨ m = MINUS) ∧ m ∉ ascii "ov" ∧
          m ∈ ascii "b,k,l,imnpst" ∧ hasparam (ascii "b,k,l,imnpst") m PLUS = false ∧ m ≠ 108 := by
        decide +kernel
      rcases htable m hm with ⟨h₁, h₂, h₃, h₄, h₅⟩
      have h₂' : ¬ m ∈ (shared name users bans modes).prefixmodes := h₂
      have h₃' : m ∈ (shared name users bans modes).chanmodes := h₃
      have h₄' : ¬ hasparam (shared name users bans modes).chanmodes m PLUS = true := by
        rw [Bool.not_eq_true]
        exact h₄
      have hset : setMode (shared name users bans modes) m PLUS =
          shared name users bans (addFlag modes m) := by
        rw [setMode, if_pos rfl, addmodetochannel, addFlag]
        by_cases hadd : modes.length < 20 ∧ m ∉ modes
        · have hadd' : (shared name users bans modes).modes.length < 20 ∧
              m ∉ (shared name users bans modes).modes := hadd
          rw [if_pos hadd, if_pos hadd']
          rfl
        · have hadd' : ¬ ((shared name users bans modes).modes.length < 20 ∧
              m ∉ (shared name users bans modes).modes) := hadd
          rw [if_neg hadd, if_neg hadd']
      simp only [modeLoop, h₁, h₂', h₃', h₄', h₅, hset, if_true, if_false, Bool.false_eq_true,
        List.foldl_cons]
      exact ih (fun x hx => hflags x (List.mem_cons_of_mem _ hx)) _

/-- The flags are set. -/
theorem modeEffect_flags {modes : CStr} (h : SendableModes modes) :
    modeEffect net (shared name users bans (ascii "nt")) modes [] = shared name users bans modes := by
  have htable : ∀ modes ∈ [ascii "nt", ascii "nti", ascii "mnt", ascii "mnti", ascii "snt",
      ascii "snti", ascii "smnt", ascii "smnti"],
      (∀ m ∈ modes, m ∈ ascii "smitn") ∧ (∀ m ∈ collected modes, m ∈ ascii "smi") ∧
        clip 200 (collected modes) = collected modes ∧
        orderedFlags ((collected modes).foldl addFlag (ascii "nt")) = modes := by
    decide +kernel
  rcases htable modes (sendableModes_cases h) with ⟨hmodes, hflags, hclip, horder⟩
  let s₀ : Intmode := { chan := shared name users bans (ascii "nt"), p := modeParams [] }
  rcases foldl_flags net (s := s₀) hmodes rfl rfl with ⟨hchan, hnew, hparam⟩
  have hnew' : (modes.foldl (intmodeStep net) s₀).newmode = collected modes := hnew
  have hs₀ : ({ chan := shared name users bans (ascii "nt"), p := modeParams [] } : Intmode) = s₀ :=
    rfl
  have hstart : s₀.chan = shared name users bans (ascii "nt") := rfl
  simp only [modeEffect, hs₀, hchan, hnew', hparam, hstart]
  by_cases hempty : collected modes = [] ∨ collected modes = [PLUS] ∨ collected modes = [MINUS]
  · -- Nothing but `n` and `t`, which are set already.
    have hnil : collected modes = [] := by
      rcases hempty with hnil | hsingle | hsingle
      · exact hnil
      · exact absurd (hflags PLUS (by simp [hsingle])) (by decide)
      · exact absurd (hflags MINUS (by simp [hsingle])) (by decide)
    rw [if_pos hempty]
    have hnt : modes = ascii "nt" := by
      rw [hnil] at horder
      rw [← horder]
      decide
    rw [hnt]
  · rw [if_neg hempty, addchannelmode, hclip]
    dsimp only
    rw [modeLoop_flags hflags, ordermodes_flags, horder]

end Flags

end PsyBnc
