import PsyBnc.Intnet.Join
import PsyBnc.Intnet.Leave
import PsyBnc.Intnet.Mine
import PsyBnc.Lib.Run

/-!
# Operators that are remembered, and those who were deopped

One channel, with the masks by which it remembers operators.  A mask is added by each `+o`, also when it is there
already, and one is taken away by a `-o` or a KICK; who joins and matches one of them becomes operator.
-/

namespace PsyBnc

open CLib

/-! ## Steps -/

/-- The local client of this nick. -/
def clienthere (net : Intnet) (nick : CStr) : Option Clientt :=
  (getclientbynick net nick).filter fun client => decide (0 < client.intuser)

def isOperator (chan : Uchannelt) (nick : CStr) : Bool :=
  (getchannelnick chan nick).any fun k => decide (AT ∈ membermode chan k)

/-- What a client matches who joins, `bop` in `cmdintjoin`. -/
def joinMask (client : Clientt) : CStr :=
  clip 200 (clientMask { client with nick := firstWord client.nick })

inductive OpEvent where
  | join (client : Clientt) (key : CStr)
  | linkjoin (client : Clientt)
  | part (nick : CStr)
  | kick (kicker : Clientt) (nick : CStr)
  | op (nick : CStr)
  | deop (nick : CStr)

/-- The channel as long as there is one, and the local clients who lost the operator status last by a `-o` or by a
KICK of somebody else. -/
structure OpState where
  chan : Option Uchannelt
  revoked : List Clientt

/-- Without members there is no channel, and nothing is left to be revoked on it. -/
def OpState.left (chan : Uchannelt) (revoked : List Clientt) : OpState :=
  if chan.users = [] then ⟨none, []⟩ else ⟨some chan, revoked⟩

def newintchannel (channel : CStr) : Uchannelt :=
  newchannel (-1) (ascii "ov") (ascii "@+") (ascii "b,k,l,imnpst") channel

/-- A JOIN of a client of this bouncer. -/
def OpState.join (s : OpState) (channel : CStr) (client : Clientt) (key : CStr) : OpState :=
  match s.chan with
  | none => ⟨some (openround (newintchannel channel) client key).1, []⟩
  | some chan =>
      let joined := joinround chan client key
      ⟨some joined.1,
        if 0 ≤ joined.2 ∧ isOperator joined.1 client.nick then s.revoked.filter (· ≠ client) else s.revoked⟩

def OpState.linkjoin (s : OpState) (channel : CStr) (client : Clientt) : OpState :=
  let joined := fun chan =>
    addnicktochannel (removeinvite chan client.nick) client.nick client.ident client.host
  match s.chan with
  | none => ⟨some (joined (newintchannel channel)), []⟩
  | some chan => ⟨some (joined chan), s.revoked⟩

def OpState.part (s : OpState) (nick : CStr) : OpState :=
  match s.chan with
  | none => s
  | some chan =>
      if getchannelnick chan nick = none then s else OpState.left (removenickfromchannel chan nick) s.revoked

def OpState.kick (s : OpState) (net : Intnet) (kicker : Clientt) (nick : CStr) : OpState :=
  match s.chan with
  | none => s
  | some chan =>
      if getchannelnick chan nick = none then s
      else
        OpState.left (kickedChannel net chan nick)
          (((clienthere net nick).filter (· ≠ kicker)).toList ++ s.revoked)

def OpState.op (s : OpState) (net : Intnet) (nick : CStr) : OpState :=
  match s.chan with
  | none => s
  | some chan =>
      ⟨some (addop net chan nick).1,
        if getchannelnick chan nick = none then s.revoked
        else s.revoked.filter fun client => decide (clienthere net nick ≠ some client)⟩

def OpState.deop (s : OpState) (net : Intnet) (nick : CStr) : OpState :=
  match s.chan with
  | none => s
  | some chan =>
      ⟨some (delop net chan nick).1,
        if isOperator chan nick then (clienthere net nick).toList ++ s.revoked else s.revoked⟩

def OpEvent.run (net : Intnet) (channel : CStr) (s : OpState) : OpEvent → Option OpState
  | .join client key => some (s.join channel client key)
  | .linkjoin client => some (s.linkjoin channel client)
  | .part nick => some (s.part nick)
  | .kick kicker nick => some (s.kick net kicker nick)
  | .op nick => some (s.op net nick)
  | .deop nick => some (s.deop net nick)

/-- Who was deopped, parts and joins again does not become operator by this. -/
def OpState.StaysDeopped (s : OpState) : Prop :=
  ∀ client ∈ s.revoked, ∀ chan, s.chan = some chan → ∀ key,
    (removenickfromchannel chan client.nick).users ≠ [] →
      0 ≤ (joinround (removenickfromchannel chan client.nick) client key).2 →
        isOperator (joinround (removenickfromchannel chan client.nick) client key).1 client.nick = false

/-- The client is remembered by one entry of his own mask at most. -/
def OwnMaskOnly (chan : Uchannelt) (client : Clientt) : Prop :=
  ∀ entry ∈ chan.intops.erase (firstWord (opMask client)), maskMatches entry (joinMask client) = false

instance (chan : Uchannelt) (client : Clientt) : Decidable (OwnMaskOnly chan client) := by
  unfold OwnMaskOnly
  infer_instance

/-- A client who loses the status is remembered by no entry but one of his own mask, and no mask that he matches is
remembered for somebody else meanwhile. -/
def OpEvent.Forgets (net : Intnet) (s : OpState) : OpEvent → Prop
  | .kick kicker nick =>
      ∀ chan ∈ s.chan, ∀ client ∈ clienthere net nick,
        client ≠ kicker → getchannelnick chan nick ≠ none → OwnMaskOnly chan client
  | .op nick =>
      ∀ chan ∈ s.chan, ∀ client ∈ clienthere net nick,
        getchannelnick chan nick ≠ none → chan.intops.length < 100 →
        ∀ other ∈ s.revoked, other ≠ client → maskMatches (firstWord (opMask client)) (joinMask other) = false
  | .deop nick =>
      ∀ chan ∈ s.chan, ∀ client ∈ clienthere net nick, isOperator chan nick = true → OwnMaskOnly chan client
  | _ => True

instance (net : Intnet) (s : OpState) (event : OpEvent) : Decidable (event.Forgets net s) := by
  cases event <;> unfold OpEvent.Forgets <;> infer_instance

/-! ## The entries -/

section Entries

variable {net : Intnet} {chan : Uchannelt} {nick mask : CStr} {client : Clientt} {key : CStr}

theorem remember_eq (net : Intnet) (nick : CStr) (change : Uchannelt → CStr → Uchannelt) (chan : Uchannelt) :
    remember net nick change chan =
      ((clienthere net nick).map fun client => change chan (opMask client)).getD chan := by
  rw [remember, clienthere]
  cases getclientbynick net nick with
  | none =>
      rfl
  | some opclient =>
      by_cases hlocal : 0 < opclient.intuser
      · simp only [if_pos hlocal, Option.filter_some, decide_eq_true hlocal, if_true, Option.map_some,
          Option.getD_some]
      · simp only [if_neg hlocal, Option.filter_some, decide_eq_false hlocal, if_false, Bool.false_eq_true,
          Option.map_none, Option.getD_none]

theorem mem_addintop {entry : CStr} (h : entry ∈ (addintop chan mask).intops) :
    entry ∈ chan.intops ∨ chan.intops.length < 100 ∧ entry = firstWord mask := by
  rw [addintop] at h
  split at h
  · next hroom =>
    rcases List.mem_append.1 h with h | h
    · exact Or.inl h
    · exact Or.inr ⟨hroom, List.mem_singleton.1 h⟩
  · exact Or.inl h

theorem length_addintop (h : chan.intops.length ≤ 100) : (addintop chan mask).intops.length ≤ 100 := by
  rw [addintop]
  split
  · next hroom =>
    rw [List.length_append, List.length_singleton]
    exact hroom
  · exact h

/-- All entries are looked at. -/
theorem removeintop_intops (h : chan.intops.length ≤ 100) :
    (removeintop chan mask).intops = chan.intops.erase (firstWord mask) := by
  rw [removeintop, List.take_of_length_le h]
  split
  · rfl
  · next hmem => exact (List.erase_of_not_mem hmem).symm

theorem addnicktochannel_intops {ident host : CStr} :
    (addnicktochannel chan nick ident host).intops = chan.intops := by
  rw [addnicktochannel]
  cases getchannelnick chan nick with
  | none => rfl
  | some k => rfl

theorem removeinvite_intops : (removeinvite chan nick).intops = chan.intops := by
  rw [removeinvite]
  split
  · rfl
  · rfl

theorem joinround_intops : (joinround chan client key).1.intops = chan.intops := by
  have hadded : (addnicktochannel (removeinvite chan (firstWord client.nick)) (firstWord client.nick) client.ident
      client.host).intops = chan.intops := addnicktochannel_intops.trans removeinvite_intops
  rw [joinround]
  by_cases hrc : (if getchannelnick chan client.nick ≠ none then -5 else mayjoin chan client key) < 0
  · simp only [if_pos hrc]
  · simp only [if_neg hrc]
    split
    · exact hadded
    · split
      · exact hadded
      · exact hadded

theorem find_answers_eq_none (h : getchannelnick chan nick = none) : chan.users.find? (answers nick) = none := by
  rw [List.find?_eq_none]
  intro chanuser hmem
  rw [getchannelnick_none_iff.1 h chanuser hmem]
  exact Bool.false_ne_true

theorem isOperator_eq (chan : Uchannelt) (nick : CStr) :
    isOperator chan nick = (chan.users.find? (answers nick)).any fun chanuser => decide (AT ∈ chanuser.mode) := by
  rw [isOperator]
  cases hget : getchannelnick chan nick with
  | none =>
      rw [find_answers_eq_none hget, Option.any_none, Option.any_none]
  | some k =>
      rcases List.findIdx?_eq_some_iff_getElem.1 hget with ⟨hk, hsame, hbefore⟩
      have hfind : chan.users.find? (answers nick) = some chan.users[k] :=
        List.find?_eq_some_iff_getElem.2 ⟨hsame, k, hk, rfl, fun j hj => by simpa [answers] using hbefore j hj⟩
      rw [hfind, Option.any_some, Option.any_some, membermode, List.getElem?_eq_getElem hk, Option.map_some,
        Option.getD_some]

/-- Who matches no entry does not become operator when he joins. -/
theorem joinround_isOperator (hblank : SP ∉ client.nick)
    (h : ∀ entry ∈ chan.intops, maskMatches entry (joinMask client) = false)
    (hrc : 0 ≤ (joinround chan client key).2) :
    isOperator (joinround chan client key).1 client.nick = false := by
  have hword := firstWord_eq_self hblank
  have hno : (chan.intops.any fun entry => maskMatches entry (clip 200 (clientMask client))) = false := by
    rw [List.any_eq_false]
    intro entry hentry
    have hmask := h entry hentry
    rw [joinMask, hword] at hmask
    rw [hmask]
    exact Bool.false_ne_true
  rw [joinround] at hrc ⊢
  by_cases hon : getchannelnick chan client.nick ≠ none
  · have hneg : (-5 : Int) < 0 := by decide
    simp only [if_pos hon, if_pos hneg] at hrc
    exact absurd hrc (by decide)
  · rw [if_neg hon] at hrc ⊢
    rw [not_not] at hon
    by_cases hmay : mayjoin chan client key < 0
    · simp only [if_pos hmay] at hrc
      exact absurd hmay (Int.not_lt.2 hrc)
    · simp only [if_neg hmay, hword, hno]
      -- the client is the last of the members, with no mode
      have husers := (removeinvite_users chan client.nick).1
      have hon' : getchannelnick (removeinvite chan client.nick) client.nick = none := by
        rw [getchannelnick, husers]
        exact hon
      have hlast : isOperator (addnicktochannel (removeinvite chan client.nick) client.nick client.ident client.host)
          client.nick = false := by
        rw [isOperator_eq, addnicktochannel, hon']
        simp only
        rw [List.find?_append, husers, find_answers_eq_none hon, Option.none_or, Option.any_eq_false]
        intro chanuser hfound
        have hmem := List.mem_of_find?_eq_some hfound
        rw [List.mem_singleton.1 hmem]
        exact decide_eq_false List.not_mem_nil
      split
      · exact hlast
      · simp only [Bool.false_eq_true, if_false]
        exact hlast

/-- The entries without one of the mask of a local client. -/
def withoutMask (net : Intnet) (nick : CStr) (intops : List CStr) : List CStr :=
  ((clienthere net nick).map fun client => intops.erase (firstWord (opMask client))).getD intops

theorem withoutMask_subset (net : Intnet) (nick : CStr) (intops : List CStr) :
    withoutMask net nick intops ⊆ intops := by
  rw [withoutMask]
  cases clienthere net nick with
  | none => exact List.Subset.refl intops
  | some client => exact List.erase_subset

theorem length_withoutMask_le (net : Intnet) (nick : CStr) (intops : List CStr) :
    (withoutMask net nick intops).length ≤ intops.length := by
  rw [withoutMask]
  cases clienthere net nick with
  | none => exact Nat.le_refl _
  | some client => exact List.length_erase_le

theorem remember_removeintop (h : chan.intops.length ≤ 100) :
    (remember net nick removeintop chan).intops = withoutMask net nick chan.intops := by
  rw [remember_eq, withoutMask]
  cases clienthere net nick with
  | none => rfl
  | some client => exact removeintop_intops h

theorem addop_intops (h : chan.intops.length ≤ 100) :
    (addop net chan nick).1.intops.length ≤ 100 ∧
      ∀ entry ∈ (addop net chan nick).1.intops, entry ∈ chan.intops ∨
        (getchannelnick chan nick ≠ none ∧ chan.intops.length < 100) ∧
          ∃ client, clienthere net nick = some client ∧ entry = firstWord (opMask client) := by
  rw [addop]
  cases hget : getchannelnick chan nick with
  | none =>
      exact ⟨h, fun entry hentry => Or.inl hentry⟩
  | some k =>
      have hsame : (setmember (remember net nick addintop chan) k (ascii "@")).intops =
          (remember net nick addintop chan).intops := rfl
      simp only
      rw [hsame, remember_eq]
      cases hlocal : clienthere net nick with
      | none =>
          exact ⟨h, fun entry hentry => Or.inl hentry⟩
      | some client =>
          refine ⟨length_addintop h, fun entry hentry => ?_⟩
          rcases mem_addintop hentry with hold | ⟨hroom, hnew⟩
          · exact Or.inl hold
          · exact Or.inr ⟨⟨Option.some_ne_none k, hroom⟩, client, rfl, hnew⟩

theorem delop_intops (h : chan.intops.length ≤ 100) :
    (delop net chan nick).1.intops =
      if isOperator chan nick then withoutMask net nick chan.intops else chan.intops := by
  rw [delop, isOperator]
  cases getchannelnick chan nick with
  | none =>
      rfl
  | some k =>
      rw [Option.any_some]
      by_cases hop : AT ∈ membermode chan k
      · simp only [if_pos hop, decide_eq_true hop, if_true]
        exact remember_removeintop h
      · simp only [if_neg hop, decide_eq_false hop, Bool.false_eq_true, if_false]

end Entries

/-! ## Runs -/

/-- The clients who lost the status are clients of the network, and no entry is left that they match. -/
structure Forgotten (net : Intnet) (s : OpState) : Prop where
  room : ∀ chan ∈ s.chan, chan.intops.length ≤ 100
  known : ∀ client ∈ s.revoked, client ∈ net.clients
  forgotten : ∀ client ∈ s.revoked, ∀ chan ∈ s.chan,
    ∀ entry ∈ chan.intops, maskMatches entry (joinMask client) = false

section Runs

variable {net : Intnet} {channel nick : CStr} {s : OpState} {chan chan' : Uchannelt} {revoked revoked' : List Clientt}
  {client : Clientt}

theorem clienthere_mem (h : clienthere net nick = some client) : client ∈ net.clients := by
  rw [clienthere, Option.filter_eq_some_iff] at h
  exact List.mem_of_find?_eq_some h.1

theorem Forgotten.fresh (h : chan.intops.length ≤ 100) : Forgotten net ⟨some chan, []⟩ where
  room := by
    rintro _ ⟨⟩
    exact h
  known := fun _ hclient => absurd hclient List.not_mem_nil
  forgotten := fun _ hclient => absurd hclient List.not_mem_nil

theorem Forgotten.gone : Forgotten net ⟨none, []⟩ where
  room := fun _ hchan => by cases hchan
  known := fun _ hclient => absurd hclient List.not_mem_nil
  forgotten := fun _ hclient => absurd hclient List.not_mem_nil

/-- There are no more entries, and nobody else lost the status. -/
theorem Forgotten.mono (h : Forgotten net ⟨some chan, revoked⟩) (hlen : chan'.intops.length ≤ 100)
    (hintops : chan'.intops ⊆ chan.intops) (hrevoked : revoked' ⊆ revoked) :
    Forgotten net ⟨some chan', revoked'⟩ where
  room := by
    rintro _ ⟨⟩
    exact hlen
  known := fun client hclient => h.known client (hrevoked hclient)
  forgotten := by
    rintro client hclient _ ⟨⟩ entry hentry
    exact h.forgotten client (hrevoked hclient) chan rfl entry (hintops hentry)

theorem Forgotten.left (h : Forgotten net ⟨some chan, revoked⟩) : Forgotten net (OpState.left chan revoked) := by
  rw [OpState.left]
  split
  · exact Forgotten.gone
  · exact h

/-- A client loses the status, and one entry of his mask is taken away. -/
theorem Forgotten.revoke (h : Forgotten net ⟨some chan, revoked⟩)
    (hintops : chan'.intops = withoutMask net nick chan.intops) {lost : Option Clientt}
    (hlost : ∀ client ∈ lost, clienthere net nick = some client ∧ OwnMaskOnly chan client) :
    Forgotten net ⟨some chan', lost.toList ++ revoked⟩ where
  room := by
    rintro _ ⟨⟩
    rw [hintops]
    exact (length_withoutMask_le net nick chan.intops).trans (h.room chan rfl)
  known := by
    intro client hclient
    rcases List.mem_append.1 hclient with hclient | hclient
    · exact clienthere_mem (hlost client (Option.mem_toList.1 hclient)).1
    · exact h.known client hclient
  forgotten := by
    rintro client hclient _ ⟨⟩ entry hentry
    rw [hintops] at hentry
    rcases List.mem_append.1 hclient with hclient | hclient
    · rcases hlost client (Option.mem_toList.1 hclient) with ⟨hlocal, hown⟩
      rw [withoutMask, hlocal] at hentry
      exact hown entry hentry
    · exact h.forgotten client hclient chan rfl entry (withoutMask_subset net nick chan.intops hentry)

theorem openround_intops (client : Clientt) (key : CStr) (h : chan.intops.length ≤ 100) :
    (openround chan client key).1.intops.length ≤ 100 := by
  have hadded : (addnicktochannel (removeinvite chan (firstWord client.nick)) (firstWord client.nick) client.ident
      client.host).intops = chan.intops := addnicktochannel_intops.trans removeinvite_intops
  rw [openround]
  by_cases hrc : (if getchannelnick chan client.nick ≠ none then -5 else mayjoin chan client key) < 0
  · simp only [if_pos hrc]
    exact h
  · simp only [if_neg hrc]
    split
    · rw [hadded]
      exact h
    · apply length_addintop
      exact (le_of_eq (congrArg List.length hadded)).trans h

/-- One event. -/
theorem Forgotten.step (h : Forgotten net s) (event : OpEvent) (hforgets : event.Forgets net s) :
    ∃ t, event.run net channel s = some t ∧ Forgotten net t := by
  cases s with
  | mk chan revoked =>
    cases chan with
    | none =>
        -- Without a channel only a join makes one, and its list of operators is new.
        cases event with
        | join client key =>
            exact ⟨_, rfl, Forgotten.fresh (openround_intops client key (Nat.zero_le 100))⟩
        | linkjoin client =>
            refine ⟨_, rfl, Forgotten.fresh ?_⟩
            rw [addnicktochannel_intops, removeinvite_intops]
            exact Nat.zero_le 100
        | part nick => exact ⟨_, rfl, h⟩
        | kick kicker nick => exact ⟨_, rfl, h⟩
        | op nick => exact ⟨_, rfl, h⟩
        | deop nick => exact ⟨_, rfl, h⟩
    | some chan =>
        have hroom := h.room chan rfl
        cases event with
        | join client key =>
            refine ⟨_, rfl, ?_⟩
            apply h.mono
            · rw [joinround_intops]
              exact hroom
            · rw [joinround_intops]
              exact List.Subset.refl _
            · split
              · exact List.filter_sublist.subset
              · exact List.Subset.refl _
        | linkjoin client =>
            refine ⟨_, rfl, ?_⟩
            apply h.mono
            · rw [addnicktochannel_intops, removeinvite_intops]
              exact hroom
            · rw [addnicktochannel_intops, removeinvite_intops]
              exact List.Subset.refl _
            · exact List.Subset.refl _
        | part nick =>
            refine ⟨_, rfl, ?_⟩
            simp only [OpState.part]
            split
            · exact h
            · have hkept : Forgotten net ⟨some (removenickfromchannel chan nick), revoked⟩ :=
                h.mono hroom (List.Subset.refl _) (List.Subset.refl _)
              exact hkept.left
        | kick kicker nick =>
            refine ⟨_, rfl, ?_⟩
            simp only [OpState.kick]
            split
            · exact h
            · next hon =>
              have hintops : (kickedChannel net chan nick).intops = withoutMask net nick chan.intops :=
                remember_removeintop hroom
              apply Forgotten.left
              refine h.revoke hintops fun client hclient => ?_
              -- The kick takes the mask of a local user out of the list, which is what is to be forgotten.
              rcases Option.filter_eq_some_iff.1 hclient with ⟨hlocal, hother⟩
              exact ⟨hlocal, hforgets chan rfl client hlocal (of_decide_eq_true hother) hon⟩
        | op nick =>
            refine ⟨_, rfl, ?_⟩
            rcases @addop_intops net chan nick hroom with ⟨hlen, hentries⟩
            have hsub : (if getchannelnick chan nick = none then revoked
                else revoked.filter fun client => decide (clienthere net nick ≠ some client)) ⊆ revoked := by
              split
              · exact List.Subset.refl _
              · exact List.filter_sublist.subset
            refine ⟨?_, fun client hclient => h.known client (hsub hclient), ?_⟩
            · rintro _ ⟨⟩
              exact hlen
            · -- An entry is an old one, or the mask of the user who is made operator; the condition says that it
              -- fits nobody else of the revoked.
              rintro other hother _ ⟨⟩ entry hentry
              rcases hentries entry hentry with hold | ⟨⟨hon, hspace⟩, client, hlocal, hmask⟩
              · exact h.forgotten other (hsub hother) chan rfl entry hold
              · simp only [OpState.op, if_neg hon, List.mem_filter, decide_eq_true_iff] at hother
                rw [hmask]
                refine hforgets chan rfl client hlocal hon hspace other hother.1 ?_
                rintro rfl
                exact hother.2 hlocal
        | deop nick =>
            refine ⟨_, rfl, ?_⟩
            have hintops := @delop_intops net chan nick hroom
            simp only [OpState.deop]
            by_cases hop : isOperator chan nick = true
            · rw [if_pos hop] at hintops ⊢
              exact h.revoke hintops fun client hclient => ⟨hclient, hforgets chan rfl client hclient hop⟩
            · rw [if_neg hop] at hintops ⊢
              apply h.mono
              · rw [hintops]
                exact hroom
              · rw [hintops]
                exact List.Subset.refl _
              · exact List.Subset.refl _

theorem Forgotten.staysDeopped (hnet : ∀ client ∈ net.clients, SP ∉ client.nick) (h : Forgotten net s) :
    s.StaysDeopped := by
  intro client hclient chan hchan key _ hrc
  have hblank := hnet client (h.known client hclient)
  exact joinround_isOperator hblank (h.forgotten client hclient chan hchan) hrc

/-- In a run where each client who loses the status is forgotten, nobody who was deopped becomes operator by
joining again. -/
theorem opRun_staysDeopped (hnet : ∀ client ∈ net.clients, SP ∉ client.nick) (channel : CStr)
    (events : List OpEvent)
    (hforgets : StepsMeet (OpEvent.run net channel) (OpEvent.Forgets net) ⟨none, []⟩ events) :
    Safe (OpEvent.run net channel) OpState.StaysDeopped ⟨none, []⟩ events := by
  have hsafe : Safe (OpEvent.run net channel) (Forgotten net) ⟨none, []⟩ events := by
    apply safe_of_stepsMeet
    · exact fun s event hs hevent => hs.step event hevent
    · exact Forgotten.gone
    · exact hforgets
  exact hsafe.mono fun s hs => hs.staysDeopped hnet

end Runs

/-! ## An operator who was made operator twice -/

/-- A client of this bouncer. -/
def opClient (intuser : Nat) (nick ident : CStr) : Clientt :=
  { intuser := intuser, nick := nick, ident := ident, host := ascii "hub", server := ascii "hub" }

def opAnna : Clientt := opClient 1 (ascii "anna") (ascii "a")

def opBob : Clientt := opClient 2 (ascii "bob") (ascii "b")

def opNet : Intnet := { me := ascii "hub", clients := [opAnna, opBob] }

theorem opRun_staysDeopped_bob :
    Safe (OpEvent.run opNet (ascii "#chat")) OpState.StaysDeopped ⟨none, []⟩
      [.join opAnna [], .join opBob [], .op (ascii "bob"), .deop (ascii "bob"), .part (ascii "bob"), .join opBob []] :=
  opRun_staysDeopped (by decide) (ascii "#chat") _ (by decide +kernel)

/-- The creator of a channel gets `+o` once more, and one `-o` leaves a mask of hers. -/
theorem opRun_op_twice :
    ¬ Safe (OpEvent.run opNet (ascii "#chat")) OpState.StaysDeopped ⟨none, []⟩
      [.join opAnna [], .join opBob [], .op (ascii "bob"), .op (ascii "anna"), .deop (ascii "anna")] := by
  have hlast : (runAll (OpEvent.run opNet (ascii "#chat")) ⟨none, []⟩
      [.join opAnna [], .join opBob [], .op (ascii "bob"), .op (ascii "anna"), .deop (ascii "anna")]).any (fun s =>
        decide (opAnna ∈ s.revoked) && s.chan.any fun chan =>
          let left := removenickfromchannel chan opAnna.nick
          decide (left.users ≠ [] ∧ 0 ≤ (joinround left opAnna []).2) &&
            isOperator (joinround left opAnna []).1 opAnna.nick) = true := by
    decide +kernel
  intro hsafe
  rcases (Option.any_eq_true _ _).1 hlast with ⟨s, hs, hagain⟩
  rw [Bool.and_eq_true, decide_eq_true_iff] at hagain
  rcases (Option.any_eq_true _ _).1 hagain.2 with ⟨chan, hchan, hjoin⟩
  rw [Bool.and_eq_true, decide_eq_true_iff] at hjoin
  have hstays := hsafe.last hs opAnna hagain.1 chan hchan [] hjoin.1.1 hjoin.1.2
  rw [hjoin.2] at hstays
  cases hstays

end PsyBnc
