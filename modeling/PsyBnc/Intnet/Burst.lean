import PsyBnc.Intnet.Shared

/-!
# The burst

When a link comes up, `joinintnettolink` tells the other bouncer about all clients and channels.
For a network that the lines can tell about, a bouncer that knows nothing ends up with the same
clients and channels, without the guests, whom it ignores.
-/

namespace PsyBnc

open CLib

/-- The bouncer behind link `nlink` of `net` has sent the lines. -/
def receive (nlink : Nat) (net : Intnet) (lines : List CStr) : Intnet :=
  lines.foldl (fun net ircbuf => (processlink net nlink (overLink ircbuf)).1) net

theorem receive_cons (nlink : Nat) (net : Intnet) (line : CStr) (lines : List CStr) :
    receive nlink net (line :: lines) =
      receive nlink (processlink net nlink (overLink line)).1 lines := rfl

theorem receive_append (nlink : Nat) (net : Intnet) (lines lines' : List CStr) :
    receive nlink net (lines ++ lines') = receive nlink (receive nlink net lines) lines' :=
  List.foldl_append

/-! ## What a burst can tell about -/

/-- A member that the lines of a channel can tell about. -/
structure SendableMember (clients : List Clientt) (u : Uchannelusert) : Prop where
  client : ∃ c ∈ clients, u.nick = c.nick ∧ u.ident = c.ident ∧ u.host = c.host
  bang : BANG ∉ u.nick
  mode : u.mode = [] ∨ Ranked u
  named : Ranked u → u.nick ≠ []

instance (u : Uchannelusert) : Decidable (Ranked u) := by
  dsimp [Ranked]
  infer_instance

/-- When the last batch of member modes has one nick, this has two bytes at least. -/
def LastNamed (ranked : List Uchannelusert) : Prop :=
  ranked.length % 3 = 1 → ∀ u, ranked.getLast? = some u → 2 ≤ u.nick.length

/-- A ban that a line can hold. -/
def BanText (b : CStr) : Prop := Param b ∧ b.length ≤ 100 ∧ COLON ∉ b ∧ Clean b

structure SendableChannel (clients : List Clientt) (chan : Uchannelt) : Prop where
  name : SendableName chan.name
  members : ∀ u ∈ chan.users, SendableMember clients u
  nicks : (chan.users.map Uchannelusert.nick).Nodup
  last : LastNamed (chan.users.filter fun u => decide (Ranked u))
  bans : NewBans chan.bans []
  masks : ∀ b ∈ chan.bans, BanText b
  modes : SendableModes chan.modes

structure SendableClients (clients : List Clientt) : Prop where
  each : ∀ c ∈ clients, SendableClient c
  nicks : (clients.map fun c => foldNick c.nick).Nodup

structure Sendable (net : Intnet) : Prop where
  me : CleanName net.me
  clients : SendableClients net.clients
  channels : ∀ chan ∈ net.intchan, SendableChannel net.clients chan
  names : (net.intchan.map fun chan => foldName chan.name).Nodup

/-! ## Clients -/

/-- The clients that are entered. -/
def known (clients : List Clientt) : List Clientt :=
  (clients.filter fun c => decide (¬ isGuest c.nick)).map remote

section Clients

variable {me : CStr}

theorem known_cons (c : Clientt) (cs : List Clientt) :
    known (c :: cs) = (if isGuest c.nick then [] else [remote c]) ++ known cs := by
  by_cases hguest : isGuest c.nick
  · simp [known, hguest]
  · simp [known, hguest]

theorem receive_clients (nlink : Nat) (hme : CleanName me) {cs : List Clientt}
    (hsend : ∀ c ∈ cs, SendableClient c) {net : Intnet}
    (hdistinct : ((net.clients ++ cs).map fun c => foldNick c.nick).Nodup) :
    receive nlink net (cs.map fun c => sendtolink me (userText c)) =
      { net with clients := net.clients ++ known cs } := by
  induction cs generalizing net with
  | nil =>
      simp [receive, known]
  | cons c cs ih =>
      have hc := hsend c (by simp)
      have hnew : ∀ d ∈ net.clients, foldNick d.nick ≠ foldNick c.nick := by
        intro d hd heq
        rw [List.map_append, List.nodup_append] at hdistinct
        exact hdistinct.2.2 _ (List.mem_map_of_mem hd) _ (by simp) heq
      have hstep : (processlink net nlink (overLink (sendtolink me (userText c)))).1 =
          if isGuest c.nick then net else { net with clients := net.clients ++ [remote c] } := by
        rw [processlink_sendtolink hme (clean_userText hc) (by have := length_userText hc; omega),
          rtrim_userText hc, inbound_user hc nlink hnew]
      have hrest : ∀ d ∈ cs, SendableClient d := fun d hd => hsend d (List.mem_cons_of_mem _ hd)
      rw [List.map_cons, receive_cons, hstep, known_cons]
      by_cases hguest : isGuest c.nick
      · have hsub : (net.clients ++ cs).Sublist (net.clients ++ c :: cs) :=
          List.Sublist.append (List.Sublist.refl _) (List.sublist_cons_self _ _)
        rw [if_pos hguest, if_pos hguest, List.nil_append]
        exact ih hrest (hdistinct.sublist (hsub.map _))
      · have hsame : (({ net with clients := net.clients ++ [remote c] } : Intnet).clients ++
            cs).map (fun c => foldNick c.nick) =
            (net.clients ++ c :: cs).map fun c => foldNick c.nick := by simp [remote]
        rw [if_neg hguest, if_neg hguest, ih hrest (hsame ▸ hdistinct)]
        simp

/-- The bouncer finds the client of a nick, unless it is a guest. -/
theorem getclientbynick_known (net : Intnet) {clients : List Clientt}
    (hclients : SendableClients clients) {c : Clientt} (hc : c ∈ clients) (hnet : net.clients = known clients) :
    getclientbynick net c.nick = if isGuest c.nick then none else some (remote c) := by
  have hsame : ∀ d ∈ known clients, foldNick d.nick = foldNick c.nick →
      d = remote c ∧ ¬ isGuest c.nick := by
    intro d hd heq
    rcases List.mem_map.1 hd with ⟨d', hd', rfl⟩
    rcases List.mem_filter.1 hd' with ⟨hmem, hguest⟩
    have hdc : d' = c := List.inj_on_of_nodup_map hclients.nicks hmem hc heq
    subst hdc
    exact ⟨rfl, by simpa using hguest⟩
  by_cases hguest : isGuest c.nick
  · rw [if_pos hguest]
    refine getclientbynick_eq_none.2 fun d hd heq => ?_
    exact (hsame d (hnet ▸ hd) heq).2 hguest
  · rw [if_neg hguest]
    cases hfind : getclientbynick net c.nick with
    | none =>
        have hmem : remote c ∈ net.clients := by
          rw [hnet]
          exact List.mem_map_of_mem (List.mem_filter.2 ⟨hc, by simpa using hguest⟩)
        exact absurd rfl (getclientbynick_eq_none.1 hfind (remote c) hmem)
    | some d =>
        have hd := List.mem_of_find?_eq_some hfind
        have hfound : sameName 64 c.nick d.nick = true := by
          rw [getclientbynick] at hfind
          simpa using List.find?_some hfind
        rw [(hsame d (hnet ▸ hd) (sameNick_iff.1 hfound).symm).1]

theorem intuser_known {clients : List Clientt} : ∀ c ∈ known clients, c.intuser = 0 := by
  intro c hc
  rcases List.mem_map.1 hc with ⟨d, _, rfl⟩
  rfl

end Clients

/-! ## The channel that is being told about -/

/-- A channel is there as soon as it has a member. -/
def shown (done : List Uchannelt) (chan : Uchannelt) : List Uchannelt :=
  if chan.users = [] then done else done ++ [chan]

section Shown

variable {done : List Uchannelt} {name : CStr}

theorem getuserchannel_append {chan : Uchannelt}
    (hdone : ∀ d ∈ done, foldName d.name ≠ foldName name) (hchan : chan.name = name) :
    getuserchannel (done ++ [chan]) name = some done.length := by
  rw [getuserchannel, List.findIdx?_append]
  have hnone : done.findIdx? (fun lkm => sameName 255 lkm.name name) = none :=
    getuserchannel_eq_none.2 hdone
  have hself : sameName 255 chan.name name = true := sameName_iff.2 (by rw [hchan])
  simp [hnone, hself]

/-- A member comes in. -/
theorem joined_shown (hname : name.length < 255)
    (hdone : ∀ d ∈ done, foldName d.name ≠ foldName name) {users : List Uchannelusert}
    {client : Clientt} (hclient : SendableClient client)
    (hnew : ∀ v ∈ users, foldNick v.nick ≠ foldNick client.nick) :
    joined (shown done (shared name users [] (ascii "nt"))) name client =
      shown done (shared name (users ++ [⟨client.nick, client.ident, client.host, []⟩]) []
        (ascii "nt")) := by
  have hadd : addnicktochannel (removeinvite (shared name users [] (ascii "nt")) client.nick)
      client.nick client.ident client.host =
      shared name (users ++ [⟨client.nick, client.ident, client.host, []⟩]) [] (ascii "nt") := by
    have hinvite : removeinvite (shared name users [] (ascii "nt")) client.nick =
        shared name users [] (ascii "nt") := by simp [removeinvite, shared]
    have hnone : getchannelnick (shared name users [] (ascii "nt")) client.nick = none :=
      getchannelnick_eq_none.2 hnew
    have hident : client.ident.length < 64 := by
      have := hclient.ident.2.2
      omega
    have hhost : client.host.length < 256 := by
      have := hclient.host.2.2.2
      omega
    rw [hinvite]
    simp only [addnicktochannel, hnone, clip_eq_self hclient.nick.2.2.2, clip_eq_self hident,
      clip_eq_self hhost]
    rfl
  have hadded : addintchannel (shown done (shared name users [] (ascii "nt"))) name =
      (done ++ [shared name users [] (ascii "nt")], done.length) := by
    by_cases hempty : users = []
    · have hshown : shown done (shared name users [] (ascii "nt")) = done := if_pos hempty
      rw [hshown, addintchannel, getuserchannel_eq_none.2 hdone]
      simp only [newchannel_shared hname, hempty]
    · have hshown : shown done (shared name users [] (ascii "nt")) =
          done ++ [shared name users [] (ascii "nt")] := if_neg hempty
      rw [hshown, addintchannel, getuserchannel_append hdone rfl]
  have hne : ¬ (shared name (users ++ [⟨client.nick, client.ident, client.host, []⟩]) []
      (ascii "nt")).users = [] := by simp [shared]
  rw [joined, hadded, modify_last, hadd, shown, if_neg hne]

/-- A mode line does its effect, once the channel is there. -/
theorem intmode_shown {net : Intnet} {chan chan' : Uchannelt} {ircfrom modes params : CStr}
    {nlink : Nat} (hchannels : net.intchan = shown done chan)
    (hdone : ∀ d ∈ done, foldName d.name ≠ foldName name) (hname : chan.name = name)
    (heffect : modeEffect net chan modes params = chan')
    (husers : chan'.users = [] ↔ chan.users = []) :
    (intmode net ircfrom name modes params nlink).1 =
      { net with intchan := shown done chan' } := by
  by_cases hempty : chan.users = []
  · have hshown : net.intchan = done := hchannels.trans (if_pos hempty)
    have hshown' : shown done chan' = net.intchan := (if_pos (husers.2 hempty)).trans hshown.symm
    rw [intmode_unknown (getuserchannel_eq_none.2 (hshown ▸ hdone)), hshown']
  · have hshown : net.intchan = done ++ [chan] := hchannels.trans (if_neg hempty)
    have hshown' : shown done chan' = done ++ [chan'] := if_neg fun h => hempty (husers.1 h)
    have hknown : getuserchannel net.intchan name = some done.length := by
      rw [hshown]
      exact getuserchannel_append hdone hname
    have hat : net.intchan[done.length]? = some chan := by simp [hshown]
    rw [intmode_known hknown hat, hshown', hshown, modify_last, heffect]

end Shown

/-! ## Lines about a channel -/

/-- The receiver while it is told about a channel. -/
def stage (r : Intnet) (clients : List Clientt) (done : List Uchannelt) (chan : Uchannelt) : Intnet :=
  { r with clients := known clients, intchan := shown done chan }

/-- The members that come in: guests are unknown. -/
def arrived (us : List Uchannelusert) : List Uchannelusert :=
  us.filter fun u => decide (¬ isGuest u.nick)

/-- Members as they are while some modes are still to come. -/
def hide (ns : List CStr) (v : Uchannelusert) : Uchannelusert :=
  if v.nick ∈ ns then { v with mode := [] } else v

@[simp] theorem nick_hide (ns : List CStr) (v : Uchannelusert) : (hide ns v).nick = v.nick := by
  unfold hide
  split
  · rfl
  · rfl

theorem map_hide_nil (us : List Uchannelusert) : us.map (hide []) = us := by
  conv_rhs => rw [← List.map_id us]
  exact List.map_congr_left fun v _ => by simp [hide]

/-- The modes of a batch were hidden, and are given. -/
theorem giveAll_hide {us ps : List Uchannelusert} {ns : List CStr}
    (hsame : ∀ p ∈ ps, ∀ v ∈ us, v.nick = p.nick → v = p)
    (hnodup : (ps.map Uchannelusert.nick ++ ns).Nodup) :
    giveAll ps (us.map (hide (ps.map Uchannelusert.nick ++ ns))) = us.map (hide ns) := by
  induction ps with
  | nil =>
      rfl
  | cons p ps ih =>
      rw [List.map_cons, List.cons_append] at hnodup
      rcases List.nodup_cons.1 hnodup with ⟨hp, hrest⟩
      have hone : (us.map (hide ((p :: ps).map Uchannelusert.nick ++ ns))).map (give p) =
          us.map (hide (ps.map Uchannelusert.nick ++ ns)) := by
        rw [List.map_map]
        refine List.map_congr_left fun v hv => ?_
        by_cases hnick : v.nick = p.nick
        · have hvp := hsame p (by simp) v hv hnick
          subst hvp
          simp [give, hide, hp]
        · have hmem : v.nick ∈ (p :: ps).map Uchannelusert.nick ++ ns ↔
              v.nick ∈ ps.map Uchannelusert.nick ++ ns := by simp [hnick]
          rw [Function.comp_apply, give_of_ne (by rwa [nick_hide]), hide, hide]
          simp only [hmem]
      calc giveAll (p :: ps) (us.map (hide ((p :: ps).map Uchannelusert.nick ++ ns)))
          = giveAll ps ((us.map (hide ((p :: ps).map Uchannelusert.nick ++ ns))).map (give p)) := rfl
        _ = giveAll ps (us.map (hide (ps.map Uchannelusert.nick ++ ns))) := by rw [hone]
        _ = us.map (hide ns) := ih (fun q hq => hsame q (List.mem_cons_of_mem _ hq)) hrest

section Channel

variable {r : Intnet} {clients : List Clientt} {done : List Uchannelt} {me name : CStr} {nlink : Nat}

theorem modeText_eq (hme : CleanName me) (hname : SendableName name) (letters paramline : CStr) :
    modeText (modeline me name ++ letters) paramline =
      modeLine me name ((PLUS :: letters) ++ SP :: paramline) := by
  have hplus : ascii " +" = [SP, PLUS] := by decide
  have hlen : (COLON :: me ++ ascii "-psybnc.net MODE " ++ name ++ ascii " +").length < 1024 := by
    have h₁ := hme.short
    have h₂ := hname.short
    have h₃ : (ascii "-psybnc.net MODE ").length + (ascii " +").length = 19 := by decide
    simp only [List.length_append, List.length_cons]
    omega
  rw [modeText, modeline, clip_eq_self hlen, hplus, modeLine]
  simp

/-- A mode line with parameters comes in. -/
theorem receive_params (hme : CleanName me) (hname : SendableName name)
    (hdone : ∀ d ∈ done, foldName d.name ≠ foldName name) {letters paramline : CStr}
    (ws : List CStr) {chan chan' : Uchannelt} (hchan : chan.name = name)
    (hletters : ∀ m ∈ letters, m ∈ ascii "bov") (hthree : letters.length ≤ 3) (hne : ws ≠ [])
    (hws : ∀ w ∈ ws, Param w ∧ Clean w ∧ COLON ∉ w) (hlen : (spaced ws).length < 399)
    (hparam : paramline = spaced ws ∨ paramline = spaced ws ++ [SP])
    (heffect : modeEffect (stage r clients done chan) chan (PLUS :: letters) (spaced ws) = chan')
    (husers : chan'.users = [] ↔ chan.users = []) :
    (processlink (stage r clients done chan) nlink
        (overLink (sendtolink me (modeText (modeline me name ++ letters) paramline)))).1 =
      stage r clients done chan' := by
  have hparams : ∀ w ∈ ws, Param w := fun w hw => (hws w hw).1
  -- The letters and the words are clean text without separators.
  have hnospace : ∀ m ∈ PLUS :: letters, m ≠ SP ∧ m ≠ COLON ∧ m ≠ CR ∧ m ≠ LF ∧ m ≠ 37 := by
    have htable : ∀ m ∈ PLUS :: ascii "bov", m ≠ SP ∧ m ≠ COLON ∧ m ≠ CR ∧ m ≠ LF ∧ m ≠ 37 := by
      decide +kernel
    intro m hm
    rcases List.mem_cons.1 hm with rfl | hm
    · exact htable _ (by simp)
    · exact htable m (List.mem_cons_of_mem _ (hletters m hm))
  have hclean : Clean (PLUS :: letters) :=
    ⟨fun h => (hnospace _ h).2.2.1 rfl, fun h => (hnospace _ h).2.2.2.1 rfl,
      fun h => (hnospace _ h).2.2.2.2 rfl⟩
  have hclean' : Clean (spaced ws) := by
    refine ⟨fun h => ?_, fun h => ?_, fun h => ?_⟩
    · rcases mem_spaced h with heq | ⟨w, hw, hb⟩
      · exact absurd heq (by decide)
      · exact (hws w hw).2.1.1 hb
    · rcases mem_spaced h with heq | ⟨w, hw, hb⟩
      · exact absurd heq (by decide)
      · exact (hws w hw).2.1.2.1 hb
    · rcases mem_spaced h with heq | ⟨w, hw, hb⟩
      · exact absurd heq (by decide)
      · exact (hws w hw).2.1.2.2 hb
  have hcolon : COLON ∉ spaced ws := by
    intro h
    rcases mem_spaced h with heq | ⟨w, hw, hb⟩
    · exact absurd heq (by decide)
    · exact (hws w hw).2.2 hb
  -- The line that is sent ends in a blank or not; the one that is read does not.
  let line := modeLine me name ((PLUS :: letters) ++ SP :: spaced ws)
  have hline : Clean line := by
    refine clean_modeLine hme hname ?_
    rw [clean_append, clean_sp]
    exact ⟨hclean, hclean'⟩
  have hlong : line.length < 1000 := by
    have hshort := length_modeLine hme hname ((PLUS :: letters) ++ SP :: spaced ws)
    simp only [List.length_append, List.length_cons] at hshort
    have : line.length < 430 + (letters.length + 1 + ((spaced ws).length + 1)) := hshort
    omega
  -- Its last word does not end in a blank, so `rtrim` leaves the line as it is.
  have hlast : line.getLast? ≠ some SP := by
    rcases List.exists_cons_of_ne_nil (spaced_ne_nil hparams hne) with ⟨b, bs, hcons⟩
    have hsplit : line = (modeLine me name ((PLUS :: letters) ++ [SP])) ++ b :: bs := by
      simp [line, modeLine, hcons]
    rw [hsplit, List.getLast?_append_cons, ← hcons]
    exact getLast?_spaced hparams
  have htext : modeText (modeline me name ++ letters) paramline = line ∨
      modeText (modeline me name ++ letters) paramline = line ++ [SP] := by
    rcases hparam with rfl | rfl
    · exact Or.inl (modeText_eq hme hname letters _)
    · refine Or.inr ?_
      rw [modeText_eq hme hname]
      simp [line, modeLine]
  have hread : processlink (stage r clients done chan) nlink
      (overLink (sendtolink me (modeText (modeline me name ++ letters) paramline))) =
      internalinbound (stage r clients done chan) line nlink := by
    rcases htext with htext | htext
    · rw [htext, processlink_sendtolink hme hline (by omega), rtrim_eq_self_of_last hlast (by omega)]
    · have hclean'' : Clean (line ++ [SP]) := clean_append.2 ⟨hline, by decide⟩
      rw [htext, processlink_sendtolink hme hclean'' (by
        simp only [List.length_append, List.length_cons, List.length_nil]
        omega), rtrim_append_sp (by omega), rtrim_eq_self_of_last hlast (by omega)]
  -- What is read is taken apart again and handed to `intmode`.
  rcases inbound_params hme hname ⟨hclean, hclean'⟩
    ⟨fun h => (hnospace _ h).2.1 rfl, hcolon⟩ (fun h => (hnospace _ h).1 rfl)
    ⟨by simp only [List.length_cons]; omega, by omega⟩ (stage r clients done chan) nlink with
    ⟨ircfrom, hinbound⟩
  rw [hread, hinbound, intmode_shown rfl hdone hchan heffect husers]
  rfl

/-! ## Members -/

/-- The parameters that `joinintnettolink` has collected for a batch of members. -/
def paramText (ps : List Uchannelusert) : CStr :=
  if ps.length = 3 then spaced (ps.map Uchannelusert.nick)
  else (ps.map Uchannelusert.nick).flatMap fun w => w ++ [SP]

theorem paramText_cases {ps : List Uchannelusert} (hne : ps ≠ []) :
    paramText ps = spaced (ps.map Uchannelusert.nick) ∨
      paramText ps = spaced (ps.map Uchannelusert.nick) ++ [SP] := by
  by_cases hthree : ps.length = 3
  · exact Or.inl (if_pos hthree)
  · exact Or.inr ((if_neg hthree).trans (flatMap_spaced (by simpa using hne)))

theorem spaced_concat (ws : List CStr) (w : CStr) :
    spaced (ws ++ [w]) = (ws.flatMap fun v => v ++ [SP]) ++ w := by
  induction ws with
  | nil =>
      rfl
  | cons v ws ih =>
      rw [List.cons_append, spaced_cons (by simp), ih]
      simp

/-- A nick is added behind the others. -/
theorem paramText_concat {ps : List Uchannelusert} (hlt : ps.length < 3) (u : Uchannelusert) :
    paramText (ps ++ [u]) = paramText ps ++ u.nick ++ if ps.length + 1 ≠ 3 then [SP] else [] := by
  have hno : ¬ ps.length = 3 := by omega
  rw [paramText, paramText, if_neg hno, List.length_append, List.length_singleton, List.map_append,
    List.map_singleton]
  by_cases htwo : ps.length + 1 = 3
  · rw [if_pos htwo, if_neg (not_not_intro htwo), spaced_concat]
    simp
  · rw [if_neg htwo, if_pos htwo]
    simp

theorem SendableMember.nick {u : Uchannelusert} (hu : SendableMember clients u)
    (hclients : SendableClients clients) :
    SP ∉ u.nick ∧ COLON ∉ u.nick ∧ u.nick.length < 64 ∧ Clean u.nick := by
  rcases hu.client with ⟨c, hc, hnick, _, _⟩
  have hsend := hclients.each c hc
  rw [hnick]
  exact ⟨hsend.nick.1, hsend.nick.2.1, hsend.nick.2.2.2, hsend.clean.1⟩

/-- Members whose nicks are the same up to case have the same nick. -/
theorem SendableMember.exact {u v : Uchannelusert} (hu : SendableMember clients u)
    (hv : SendableMember clients v) (hclients : SendableClients clients)
    (hfold : foldNick u.nick = foldNick v.nick) :
    u.nick = v.nick := by
  rcases hu.client with ⟨c, hc, hnick, _, _⟩
  rcases hv.client with ⟨d, hd, hnick', _, _⟩
  rw [hnick, hnick'] at hfold ⊢
  rw [List.inj_on_of_nodup_map hclients.nicks hc hd hfold]

/-- A member comes in, with no mode yet. -/
theorem receive_join (r : Intnet) (nlink : Nat)
    (hclients : SendableClients clients) (hme : CleanName me) (hname : SendableName name)
    (hdone : ∀ d ∈ done, foldName d.name ≠ foldName name) {u : Uchannelusert}
    (hu : SendableMember clients u) {users : List Uchannelusert}
    (hnew : ∀ v ∈ users, foldNick v.nick ≠ foldNick u.nick) :
    (processlink (stage r clients done (shared name users [] (ascii "nt"))) nlink
        (overLink (sendtolink me (joinText u.nick u.ident u.host name)))).1 =
      stage r clients done (shared name (users ++ (arrived [u]).map (hide [u.nick])) []
        (ascii "nt")) := by
  have hbang := hu.bang
  rcases hu.client with ⟨c, hc, hnick, hident, hhost⟩
  have hsend := hclients.each c hc
  rw [hnick] at hbang hnew
  have hfind := getclientbynick_known (stage r clients done (shared name users [] (ascii "nt")))
    hclients hc rfl
  have hlt : name.length < 255 := by
    have := hname.short
    omega
  rw [hnick, hident, hhost, processlink_sendtolink hme (clean_joinText hsend hname)
    (by have := length_joinText hsend hname; omega), rtrim_joinText hsend hname,
    inbound_join hsend hbang hname, hfind]
  by_cases hguest : isGuest c.nick
  · have hnone : arrived [u] = [] := by simp [arrived, hnick, hguest]
    rw [if_pos hguest, hnone]
    simp
  · have hone : (arrived [u]).map (hide [c.nick]) = [⟨c.nick, c.ident, c.host, []⟩] := by
      simp [arrived, hide, hnick, hguest, hident, hhost]
    have hremote : SendableClient (remote c) := ⟨hsend.nick, hsend.ident, hsend.host, hsend.server,
      hsend.clean⟩
    rw [if_neg hguest, hone]
    simp only [stage, joined_shown hlt hdone hremote hnew]
    rfl

/-- What holds of the members of one channel. -/
structure Roster (clients : List Clientt) (us : List Uchannelusert) : Prop where
  members : ∀ u ∈ us, SendableMember clients u
  nicks : (us.map Uchannelusert.nick).Nodup

theorem Roster.sublist {us vs : List Uchannelusert} (h : Roster clients us) (hsub : vs.Sublist us) :
    Roster clients vs :=
  ⟨fun u hu => h.members u (hsub.subset hu), h.nicks.sublist (hsub.map _)⟩

theorem Roster.eq_of_nick {us : List Uchannelusert} (h : Roster clients us) {u v : Uchannelusert}
    (hu : u ∈ us) (hv : v ∈ us) (hnick : u.nick = v.nick) : u = v :=
  List.inj_on_of_nodup_map h.nicks hu hv hnick

theorem Roster.folds {us : List Uchannelusert} (h : Roster clients us)
    (hclients : SendableClients clients) :
    (us.map fun u => foldNick u.nick).Nodup := by
  refine (List.Nodup.of_map _ h.nicks).map_on fun u hu v hv hfold => ?_
  exact h.eq_of_nick hu hv ((h.members u hu).exact (h.members v hv) hclients hfold)

/-- The mode line of a batch comes in. -/
theorem receive_batch (r : Intnet) (nlink : Nat)
    (hclients : SendableClients clients) (hme : CleanName me) (hname : SendableName name)
    (hdone : ∀ d ∈ done, foldName d.name ≠ foldName name) {us ps : List Uchannelusert}
    {ns : List CStr} (hroster : Roster clients us) (hsub : ∀ p ∈ ps, p ∈ us)
    (hdistinct : (ps.map Uchannelusert.nick ++ ns).Nodup) (hranked : ∀ p ∈ ps, Ranked p)
    (hne : ps ≠ []) (hthree : ps.length ≤ 3)
    (hlong : 2 ≤ (spaced (ps.map Uchannelusert.nick)).length) :
    (processlink (stage r clients done
        (shared name ((arrived us).map (hide (ps.map Uchannelusert.nick ++ ns))) [] (ascii "nt"))) nlink
        (overLink (sendtolink me (modeText (modeline me name ++ ps.map letter) (paramText ps))))).1 =
      stage r clients done (shared name ((arrived us).map (hide ns)) [] (ascii "nt")) := by
  have harrived : ∀ v ∈ arrived us, v ∈ us := fun v hv => (List.mem_filter.1 hv).1
  have hmember : ∀ p ∈ ps, SendableMember clients p := fun p hp => hroster.members p (hsub p hp)
  have hnick : ∀ p ∈ ps, Param p.nick ∧ p.nick.length < 64 := by
    intro p hp
    have hp' := (hmember p hp).nick hclients
    exact ⟨⟨(hmember p hp).named (hranked p hp), hp'.1⟩, hp'.2.2.1⟩
  -- The members of the batch are on the channel, each once and without a mode.
  have hbatch : Batch ps ((arrived us).map (hide (ps.map Uchannelusert.nick ++ ns))) := by
    refine ⟨?_, hranked, ?_, ?_, (List.nodup_append.1 hdistinct).1⟩
    · have hsublist : (arrived us).Sublist us := List.filter_sublist
      have hfolds := (hroster.sublist hsublist).folds hclients
      simpa [Function.comp_def] using hfolds
    · intro p hp v hv hfold
      rcases List.mem_map.1 hv with ⟨w, hw, rfl⟩
      rw [nick_hide] at hfold ⊢
      exact (hroster.members w (harrived w hw)).exact (hmember p hp) hclients hfold
    · intro p hp v hv hnickv
      rcases List.mem_map.1 hv with ⟨w, hw, rfl⟩
      rw [nick_hide] at hnickv
      have hmem : w.nick ∈ ps.map Uchannelusert.nick ++ ns := by
        rw [hnickv]
        exact List.mem_append_left _ (List.mem_map_of_mem hp)
      simp [hide, hmem]
  have hgive : giveAll ps ((arrived us).map (hide (ps.map Uchannelusert.nick ++ ns))) =
      (arrived us).map (hide ns) :=
    giveAll_hide (fun p hp v hv hnickv => hroster.eq_of_nick (harrived v hv) (hsub p hp) hnickv)
      hdistinct
  -- The nick that the mode line shows is the one it was sent with, guest or not.
  have hclient : ∀ p ∈ ps, ((getclientbynick (stage r clients done
      (shared name ((arrived us).map (hide (ps.map Uchannelusert.nick ++ ns))) [] (ascii "nt")))
        p.nick).map Clientt.nick).getD p.nick = p.nick := by
    intro p hp
    rcases (hmember p hp).client with ⟨c, hc, hcnick, _, _⟩
    rw [hcnick, getclientbynick_known _ hclients hc rfl]
    by_cases hguest : isGuest c.nick
    · simp [hguest]
    · simp [hguest, remote]
  have heffect : modeEffect (stage r clients done
      (shared name ((arrived us).map (hide (ps.map Uchannelusert.nick ++ ns))) [] (ascii "nt")))
      (shared name ((arrived us).map (hide (ps.map Uchannelusert.nick ++ ns))) [] (ascii "nt"))
      (PLUS :: ps.map letter) (spaced (ps.map Uchannelusert.nick)) =
      shared name ((arrived us).map (hide ns)) [] (ascii "nt") := by
    rw [modeEffect_members intuser_known hbatch hne hthree hnick hclient hlong, hgive]
  -- What is left is that the line is short and clean.
  refine receive_params hme hname hdone (ps.map Uchannelusert.nick) rfl ?_ ?_ ?_ ?_ ?_
    (paramText_cases hne) heffect ?_
  · intro m hm
    rcases List.mem_map.1 hm with ⟨p, _, rfl⟩
    unfold letter
    split
    · decide
    · decide
  · simpa using hthree
  · simpa using hne
  · intro w hw
    rcases List.mem_map.1 hw with ⟨p, hp, rfl⟩
    have hp' := (hmember p hp).nick hclients
    exact ⟨(hnick p hp).1, hp'.2.2.2, hp'.2.1⟩
  · have hle := length_spaced_le (ps.map Uchannelusert.nick) (n := 63) (by
      intro w hw
      rcases List.mem_map.1 hw with ⟨p, hp, rfl⟩
      have := (hnick p hp).2
      omega)
    rw [List.length_map] at hle
    omega
  · simp [shared]

/-! ## The loop over the members -/

theorem two_le_spaced {ws : List CStr} (hws : ∀ w ∈ ws, Param w) (hne : ws ≠ [])
    (hone : ∀ w, ws = [w] → 2 ≤ w.length) : 2 ≤ (spaced ws).length := by
  match ws with
  | [] =>
      exact absurd rfl hne
  | [w] =>
      exact hone w rfl
  | w :: v :: ws =>
      have hw := List.length_pos_of_ne_nil (hws w (by simp)).1
      simp only [spaced, List.length_append, List.length_cons]
      omega

/-- A full batch does not change which nick is the last. -/
theorem LastNamed.drop {ps qs : List Uchannelusert} (h : LastNamed (ps ++ qs)) (hthree : ps.length = 3)
    (hne : qs ≠ []) : LastNamed qs := by
  intro hmod u hu
  refine h ?_ u ?_
  · rw [List.length_append]
    omega
  · rw [List.getLast?_append_of_ne_nil ps hne]
    exact hu

theorem ranked_iff {u : Uchannelusert} (hmode : u.mode = [] ∨ Ranked u) :
    (u.mode.head? = some AT ∨ u.mode.head? = some PLUS) ↔ Ranked u := by
  rcases hmode with hnil | hop | hvoice
  · simp [Ranked, hnil]
  · simp [Ranked, hop]
  · simp [Ranked, hvoice]

theorem letter_eq {u : Uchannelusert} (hranked : Ranked u) :
    (if u.mode.head? = some AT then [111] else [118]) = [letter u] := by
  have hne : ¬ PLUS = AT := by decide
  rcases hranked with hop | hvoice
  · simp [letter, hop]
  · simp [letter, hvoice, hne]

/-- A member without a mode. -/
theorem joinMembers_plain {u : Uchannelusert} (hmode : u.mode = []) (rest : List Uchannelusert)
    (line paramline : CStr) (modes : Nat) :
    joinMembers me name (u :: rest) line paramline modes =
      sendtolink me (joinText u.nick u.ident u.host name) ::
        joinMembers me name rest line paramline modes := by
  simp [joinMembers, hmode, joinText]

/-- A member with a mode while the batch has room. -/
theorem joinMembers_ranked {u : Uchannelusert} (hranked : Ranked u) {ps : List Uchannelusert}
    (hlt : ps.length < 3) (hfits : (paramText ps).length + u.nick.length + 1 < 1024)
    (rest : List Uchannelusert) (line : CStr) :
    joinMembers me name (u :: rest) line (paramText ps) ps.length =
      sendtolink me (joinText u.nick u.ident u.host name) ::
        joinMembers me name rest (line ++ [letter u]) (paramText (ps ++ [u])) (ps ++ [u]).length := by
  have hhead := (ranked_iff (Or.inr hranked)).2 hranked
  have hno : ¬ ps.length = 3 := by omega
  rw [paramText_concat hlt, List.length_append, List.length_singleton]
  simp only [joinMembers, hhead, hno, letter_eq hranked, hfits, decide_true, decide_false,
    Bool.false_eq_true, if_true, if_false]
  rfl

/-- A member with a mode while the batch is full. -/
theorem joinMembers_full {u : Uchannelusert} (hranked : Ranked u) (hfits : u.nick.length < 64)
    (rest : List Uchannelusert) (line paramline : CStr) :
    joinMembers me name (u :: rest) line paramline 3 =
      sendtolink me (joinText u.nick u.ident u.host name) ::
        sendtolink me (modeText line paramline) ::
          joinMembers me name rest (modeline me name ++ [letter u]) (paramText [u]) 1 := by
  have hhead := (ranked_iff (Or.inr hranked)).2 hranked
  have hfits' : ([] : CStr).length + u.nick.length + 1 < 1024 := by
    simp only [List.length_nil]
    omega
  have hparam : paramText [u] = [] ++ u.nick ++ [SP] := by simp [paramText]
  rw [hparam]
  simp only [joinMembers, hhead, letter_eq hranked, hfits', decide_true, if_true]
  rfl

theorem length_paramText {ps : List Uchannelusert} (hps : ∀ p ∈ ps, p.nick.length < 64)
    (hthree : ps.length ≤ 3) : (paramText ps).length ≤ 193 := by
  by_cases hne : ps = []
  · simp [hne, paramText]
  · have hle := length_spaced_le (ps.map Uchannelusert.nick) (n := 63) (by
      intro w hw
      rcases List.mem_map.1 hw with ⟨p, hp, rfl⟩
      have := hps p hp
      omega)
    rw [List.length_map] at hle
    rcases paramText_cases hne with hp | hp
    · rw [hp]
      omega
    · rw [hp, List.length_append, List.length_singleton]
      omega

theorem hide_congr {ns ms : List CStr} {v : Uchannelusert} (h : v.nick ∈ ns ↔ v.nick ∈ ms) :
    hide ns v = hide ms v := by
  simp only [hide, h]

theorem arrived_append (us vs : List Uchannelusert) :
    arrived (us ++ vs) = arrived us ++ arrived vs :=
  List.filter_append _ _

/-- The next member has a nick of his own. -/
theorem Roster.fresh {us rest : List Uchannelusert} {u : Uchannelusert}
    (h : Roster clients (us ++ u :: rest)) : ∀ v ∈ us, v.nick ≠ u.nick := by
  intro v hv heq
  have hnicks := h.nicks
  rw [List.map_append, List.nodup_append] at hnicks
  exact hnicks.2.2 _ (List.mem_map_of_mem hv) _ (by simp) heq

/-- Nothing is hidden of a member without a mode. -/
theorem map_hide_plain {us : List Uchannelusert} {u : Uchannelusert}
    (hfresh : ∀ v ∈ us, v.nick ≠ u.nick) (hmode : u.mode = []) (ns : List CStr) :
    (arrived (us ++ [u])).map (hide (ns ++ [u.nick])) = (arrived (us ++ [u])).map (hide ns) := by
  refine List.map_congr_left fun v hv => ?_
  rcases List.mem_append.1 (List.mem_filter.1 hv).1 with hvus | hvu
  · exact hide_congr (by simp [hfresh v hvus])
  · rcases List.mem_singleton.1 hvu with rfl
    have hself : ({ v with mode := [] } : Uchannelusert) = v := by rw [← hmode]
    simp [hide, hself]

/-- The mode of the new member is hidden with those of the batch. -/
theorem map_hide_concat {us : List Uchannelusert} {u : Uchannelusert}
    (hfresh : ∀ v ∈ us, v.nick ≠ u.nick) (ns : List CStr) :
    (arrived us).map (hide ns) ++ (arrived [u]).map (hide [u.nick]) =
      (arrived (us ++ [u])).map (hide (ns ++ [u.nick])) := by
  rw [arrived_append, List.map_append]
  refine congrArg₂ _ (List.map_congr_left fun v hv => ?_) (List.map_congr_left fun v hv => ?_)
  · refine hide_congr ?_
    simp [hfresh v (List.mem_filter.1 hv).1]
  · rcases List.mem_singleton.1 (List.mem_filter.1 hv).1 with rfl
    exact hide_congr (by simp)

/-- The lines from the JOIN of the next member on. -/
theorem receive_newcomer (r : Intnet) (nlink : Nat) (hclients : SendableClients clients) (hme : CleanName me)
    (hname : SendableName name) (hdone : ∀ d ∈ done, foldName d.name ≠ foldName name)
    {us rest : List Uchannelusert} {u : Uchannelusert} (hroster : Roster clients (us ++ u :: rest))
    (ns lines : List CStr) :
    receive nlink (stage r clients done (shared name ((arrived us).map (hide ns)) [] (ascii "nt")))
        (sendtolink me (joinText u.nick u.ident u.host name) :: lines) =
      receive nlink (stage r clients done
        (shared name ((arrived (us ++ [u])).map (hide (ns ++ [u.nick]))) [] (ascii "nt"))) lines := by
  have hu := hroster.members u (by simp)
  have hnew : ∀ v ∈ (arrived us).map (hide ns), foldNick v.nick ≠ foldNick u.nick := by
    intro v hv hfold
    rcases List.mem_map.1 hv with ⟨w, hw, rfl⟩
    rw [nick_hide] at hfold
    have hwus := (List.mem_filter.1 hw).1
    exact hroster.fresh w hwus
      ((hroster.members w (List.mem_append_left _ hwus)).exact hu hclients hfold)
  rw [receive_cons, receive_join r nlink hclients hme hname hdone hu hnew,
    map_hide_concat hroster.fresh]

/-- The parameter of a batch is not taken for none. -/
theorem two_le_batch {ps : List Uchannelusert} (hclients : SendableClients clients)
    (hmember : ∀ p ∈ ps, SendableMember clients p) (hranked : ∀ p ∈ ps, Ranked p) (hne : ps ≠ [])
    (hone : ∀ p, ps = [p] → 2 ≤ p.nick.length) : 2 ≤ (spaced (ps.map Uchannelusert.nick)).length := by
  refine two_le_spaced ?_ (by simpa using hne) ?_
  · intro w hw
    rcases List.mem_map.1 hw with ⟨p, hp, rfl⟩
    exact ⟨(hmember p hp).named (hranked p hp), ((hmember p hp).nick hclients).1⟩
  · intro w hw
    rcases List.map_eq_singleton_iff.1 hw with ⟨p, hp, rfl⟩
    exact hone p hp

/-- What is left in the batch behind the last member. -/
theorem receive_lastBatch (r : Intnet) (nlink : Nat) (hclients : SendableClients clients) (hme : CleanName me)
    (hname : SendableName name) (hdone : ∀ d ∈ done, foldName d.name ≠ foldName name)
    {ps us : List Uchannelusert} (hroster : Roster clients us) (hsub : ps.Sublist us)
    (hranked : ∀ p ∈ ps, Ranked p) (hthree : ps.length ≤ 3) (hlast : LastNamed ps) :
    receive nlink
        (stage r clients done
          (shared name ((arrived us).map (hide (ps.map Uchannelusert.nick))) [] (ascii "nt")))
        (joinMembers me name [] (modeline me name ++ ps.map letter) (paramText ps) ps.length) =
      stage r clients done (shared name (arrived us) [] (ascii "nt")) := by
  by_cases hne : ps = []
  · subst hne
    rw [List.map_nil, map_hide_nil]
    rfl
  · have hlines : joinMembers me name [] (modeline me name ++ ps.map letter) (paramText ps)
        ps.length = [sendtolink me (modeText (modeline me name ++ ps.map letter) (paramText ps))] :=
      if_pos (by simpa using hne)
    have hlong := two_le_batch hclients (fun p hp => hroster.members p (hsub.subset hp)) hranked hne
      (fun p hp => hlast (by rw [hp]; rfl) p (by rw [hp]; rfl))
    have hdistinct : (ps.map Uchannelusert.nick ++ []).Nodup := by
      rw [List.append_nil]
      exact hroster.nicks.sublist (hsub.map _)
    have hbatch := receive_batch r nlink hclients hme hname hdone hroster
      (fun p hp => hsub.subset hp) hdistinct hranked hne hthree hlong
    rw [List.append_nil, map_hide_nil] at hbatch
    rw [hlines, receive_cons, hbatch]
    rfl

/-- A full batch, which goes out behind the JOIN of the member who starts a new one. -/
theorem receive_fullBatch (r : Intnet) (nlink : Nat) (hclients : SendableClients clients) (hme : CleanName me)
    (hname : SendableName name) (hdone : ∀ d ∈ done, foldName d.name ≠ foldName name)
    {ps us : List Uchannelusert} {u : Uchannelusert} (hroster : Roster clients (us ++ [u]))
    (hsub : ps.Sublist us) (hranked : ∀ p ∈ ps, Ranked p) (hfull : ps.length = 3) (lines : List CStr) :
    receive nlink
        (stage r clients done (shared name ((arrived (us ++ [u])).map
          (hide (ps.map Uchannelusert.nick ++ [u.nick]))) [] (ascii "nt")))
        (sendtolink me (modeText (modeline me name ++ ps.map letter) (paramText ps)) :: lines) =
      receive nlink
        (stage r clients done
          (shared name ((arrived (us ++ [u])).map (hide [u.nick])) [] (ascii "nt"))) lines := by
  have hne : ps ≠ [] := by
    rintro rfl
    exact absurd hfull (by decide)
  have hlong := two_le_batch hclients
    (fun p hp => hroster.members p (List.mem_append_left _ (hsub.subset hp))) hranked hne
    (fun p hp => by rw [hp] at hfull; exact absurd hfull (by simp))
  have hdistinct : (ps.map Uchannelusert.nick ++ [u.nick]).Nodup := by
    have hnicks := hroster.nicks.sublist ((hsub.append (List.Sublist.refl [u])).map _)
    rwa [List.map_append] at hnicks
  rw [receive_cons, receive_batch r nlink hclients hme hname hdone hroster
    (fun p hp => List.mem_append_left _ (hsub.subset hp)) hdistinct hranked hne (by omega) hlong]

/-- The lines about the members of a channel, while the modes of a batch are still to come. -/
theorem receive_members (r : Intnet) (nlink : Nat) (hclients : SendableClients clients) (hme : CleanName me)
    (hname : SendableName name) (hdone : ∀ d ∈ done, foldName d.name ≠ foldName name)
    {rest ps us : List Uchannelusert} (hroster : Roster clients (us ++ rest))
    (hsub : ps.Sublist us) (hranked : ∀ p ∈ ps, Ranked p) (hthree : ps.length ≤ 3)
    (hlast : LastNamed (ps ++ rest.filter fun u => decide (Ranked u))) :
    receive nlink
        (stage r clients done
          (shared name ((arrived us).map (hide (ps.map Uchannelusert.nick))) [] (ascii "nt")))
        (joinMembers me name rest (modeline me name ++ ps.map letter) (paramText ps) ps.length) =
      stage r clients done (shared name (arrived (us ++ rest)) [] (ascii "nt")) := by
  induction rest generalizing ps us with
  | nil =>
      rw [List.append_nil] at hroster ⊢
      rw [List.filter_nil, List.append_nil] at hlast
      exact receive_lastBatch r nlink hclients hme hname hdone hroster hsub hranked hthree hlast
  | cons u rest ih =>
      have hu := hroster.members u (by simp)
      have hnick := (hu.nick hclients).2.2.1
      have hshift : us ++ u :: rest = (us ++ [u]) ++ rest := by simp
      have hroster' : Roster clients ((us ++ [u]) ++ rest) := hshift ▸ hroster
      have hjoin := receive_newcomer r nlink hclients hme hname hdone hroster
        (ps.map Uchannelusert.nick)
      by_cases hrank : Ranked u
      · have hfilter : (u :: rest).filter (fun u => decide (Ranked u)) =
            u :: rest.filter fun u => decide (Ranked u) := by simp [hrank]
        rw [hfilter] at hlast
        by_cases hfull : ps.length = 3
        · -- The batch is full: its mode line is sent, and the member begins the next one.
          have hone : ∀ p ∈ [u], Ranked p := by
            intro p hp
            rcases List.mem_singleton.1 hp with rfl
            exact hrank
          have hrest := ih hroster' (List.sublist_append_right us [u]) hone (by simp)
            (hlast.drop hfull (by simp))
          rw [hfull, joinMembers_full hrank hnick, hjoin, receive_fullBatch r nlink hclients hme hname
            hdone (hroster'.sublist (List.sublist_append_left _ _)) hsub hranked hfull, hshift]
          exact hrest
        · -- There is room in the batch for the member.
          have hmember : ∀ p ∈ ps, p.nick.length < 64 := by
            intro p hp
            have hp' := hroster.members p (List.mem_append_left _ (hsub.subset hp))
            exact (hp'.nick hclients).2.2.1
          have hfits : (paramText ps).length + u.nick.length + 1 < 1024 := by
            have hle := length_paramText hmember hthree
            omega
          have hmore : ∀ p ∈ ps ++ [u], Ranked p := by
            intro p hp
            rcases List.mem_append.1 hp with hp | hp
            · exact hranked p hp
            · rcases List.mem_singleton.1 hp with rfl
              exact hrank
          have hthree' : (ps ++ [u]).length ≤ 3 := by
            rw [List.length_append, List.length_singleton]
            omega
          have hrest := ih hroster' (hsub.append (List.Sublist.refl _)) hmore hthree' (by simpa using hlast)
          rw [joinMembers_ranked hrank (by omega) hfits, hjoin, hshift]
          simpa using hrest
      · -- A member without a mode only joins.
        have hmode : u.mode = [] := hu.mode.resolve_right hrank
        have hfilter : (u :: rest).filter (fun u => decide (Ranked u)) =
            rest.filter fun u => decide (Ranked u) := by simp [hrank]
        rw [hfilter] at hlast
        have hrest := ih hroster' (hsub.trans (List.sublist_append_left us [u])) hranked hthree hlast
        rw [joinMembers_plain hmode, hjoin, map_hide_plain hroster.fresh hmode, hshift]
        exact hrest

/-! ## Bans and flags -/

/-- The parameters that `joinintnettolink` has collected for a batch of bans. -/
def banText (bs : List CStr) : CStr := bs.flatMap fun b => b ++ [SP]

theorem length_banText {bs : List CStr} (hbs : ∀ b ∈ bs, b.length ≤ 100) (hthree : bs.length ≤ 3) :
    (banText bs).length ≤ 304 := by
  by_cases hne : bs = []
  · simp [hne, banText]
  · have hle := length_spaced_le bs (n := 100) hbs
    rw [banText, flatMap_spaced hne, List.length_append, List.length_singleton]
    omega

/-- The mode line of a batch of bans comes in. -/
theorem receive_banBatch (hme : CleanName me) (hname : SendableName name)
    (hdone : ∀ d ∈ done, foldName d.name ≠ foldName name) {users : List Uchannelusert}
    {bans bs : List CStr} (hnew : NewBans bs bans) (hbs : ∀ b ∈ bs, BanText b) (hne : bs ≠ [])
    (hthree : bs.length ≤ 3) :
    (processlink (stage r clients done (shared name users bans (ascii "nt"))) nlink
        (overLink (sendtolink me (modeText (modeline me name ++ bs.map fun _ => 98) (banText bs))))).1 =
      stage r clients done (shared name users (bans ++ bs) (ascii "nt")) := by
  have heffect : modeEffect (stage r clients done (shared name users bans (ascii "nt")))
      (shared name users bans (ascii "nt")) (PLUS :: bs.map fun _ => 98) (spaced bs) =
      shared name users (bans ++ bs) (ascii "nt") :=
    modeEffect_bans hnew hne hthree fun b hb => ⟨(hbs b hb).1, (hbs b hb).2.1⟩
  refine receive_params hme hname hdone bs rfl ?_ (by simpa using hthree) hne ?_ ?_
    (Or.inr (flatMap_spaced hne)) heffect Iff.rfl
  · intro m hm
    rcases List.mem_map.1 hm with ⟨b, _, rfl⟩
    decide
  · exact fun b hb => ⟨(hbs b hb).1, (hbs b hb).2.2.2, (hbs b hb).2.2.1⟩
  · have hle := length_spaced_le bs (n := 100) fun b hb => (hbs b hb).2.1
    omega

theorem joinBans_more {b : CStr} {bs : List CStr} (hlt : bs.length < 3)
    (hfits : (banText bs).length + b.length + 1 < 1024)
    (hline : (modeline me name ++ bs.map fun _ => (98 : Byte)).length + 1 < 1024) (rest : List CStr) :
    joinBans me name (b :: rest) (modeline me name ++ bs.map fun _ => 98) (banText bs) bs.length =
      joinBans me name rest (modeline me name ++ (bs ++ [b]).map fun _ => 98) (banText (bs ++ [b]))
        (bs ++ [b]).length := by
  have hno : ¬ bs.length = 3 := by omega
  have htext : banText (bs ++ [b]) = banText bs ++ b ++ [SP] := by simp [banText]
  simp only [joinBans, hno, hline, hfits, decide_false, Bool.false_eq_true, if_true, if_false]
  rw [htext, List.map_append, List.length_append]
  simp

theorem joinBans_full {b : CStr} {line paramline : CStr} (hfits : b.length + 1 < 1024)
    (hline : (modeline me name).length + 1 < 1024) (rest : List CStr) :
    joinBans me name (b :: rest) line paramline 3 =
      sendtolink me (modeText line paramline) ::
        joinBans me name rest (modeline me name ++ [98]) (banText [b]) 1 := by
  have hfits' : ([] : CStr).length + b.length + 1 < 1024 := by
    simp only [List.length_nil]
    omega
  have htext : banText [b] = [] ++ b ++ [SP] := by simp [banText]
  simp only [joinBans, hline, hfits', htext, decide_true, if_true]
  rfl

theorem length_modeline (hme : CleanName me) (hname : SendableName name) :
    (modeline me name).length < 430 := by
  have h₁ := hme.short
  have h₂ := hname.short
  have h₃ : (ascii "-psybnc.net MODE ").length + (ascii " +").length = 19 := by decide
  simp only [modeline, length_clip, List.length_append, List.length_cons]
  omega

/-- The lines about the bans of a channel, while a batch is still to come. -/
theorem receive_bans (r : Intnet) (clients : List Clientt) (nlink : Nat) (hme : CleanName me)
    (hname : SendableName name) (hdone : ∀ d ∈ done, foldName d.name ≠ foldName name)
    (users : List Uchannelusert)
    {rest bs bans : List CStr} (hnew : NewBans (bs ++ rest) bans) (hbs : ∀ b ∈ bs ++ rest, BanText b)
    (hthree : bs.length ≤ 3) :
    receive nlink (stage r clients done (shared name users bans (ascii "nt")))
        (joinBans me name rest (modeline me name ++ bs.map fun _ => 98) (banText bs) bs.length) =
      stage r clients done (shared name users (bans ++ (bs ++ rest)) (ascii "nt")) := by
  have hmodeline := length_modeline hme hname
  induction rest generalizing bs bans with
  | nil =>
      rw [List.append_nil] at hnew hbs ⊢
      by_cases hne : bs = []
      · subst hne
        rw [List.append_nil]
        rfl
      · have hlines : joinBans me name [] (modeline me name ++ bs.map fun _ => 98) (banText bs)
            bs.length = [sendtolink me (modeText (modeline me name ++ bs.map fun _ => 98) (banText bs))] :=
          if_pos (by simpa using hne)
        rw [hlines, receive_cons, receive_banBatch hme hname hdone hnew hbs hne hthree]
        rfl
  | cons b rest ih =>
      have hb := (hbs b (by simp)).2.1
      by_cases hfull : bs.length = 3
      · have hne : bs ≠ [] := by
          rintro rfl
          exact absurd hfull (by decide)
        -- The batch is full: it is sent, and the ban begins the next one.
        have hfirst : NewBans bs bans :=
          ⟨fun c hc => hnew.masks c (List.mem_append_left _ hc),
            hnew.fresh.sublist ((List.Sublist.refl bans).append (List.sublist_append_left _ _)), by
              have hroom := hnew.room
              rw [List.length_append] at hroom
              omega⟩
        have hrest : NewBans ([b] ++ rest) (bans ++ bs) :=
          ⟨fun c hc => hnew.masks c (List.mem_append_right _ hc), by simpa using hnew.fresh, by
            have hroom := hnew.room
            simp only [List.length_append, List.length_cons, List.length_nil] at hroom ⊢
            omega⟩
        have hloop := ih hrest (fun c hc => hbs c (List.mem_append_right _ hc)) (by simp)
        rw [hfull, joinBans_full (by omega) (by omega), receive_cons,
          receive_banBatch hme hname hdone hfirst (fun c hc => hbs c (List.mem_append_left _ hc)) hne
            hthree]
        simpa using hloop
      · -- There is room in the batch for the ban.
        have hlt : bs.length < 3 := by omega
        have htext := length_banText (fun c hc => (hbs c (List.mem_append_left _ hc)).2.1) hthree
        have hnew' : NewBans ((bs ++ [b]) ++ rest) bans := by simpa using hnew
        have hloop := ih hnew' (by simpa using hbs) (by
          rw [List.length_append, List.length_singleton]
          omega)
        rw [joinBans_more hlt (by omega) (by
          rw [List.length_append, List.length_map]
          omega)]
        simpa using hloop

theorem mem_sendableModes {modes : CStr} (h : SendableModes modes) :
    ∀ m ∈ modes, m ∈ ascii "smnti" := by
  intro m hm
  rw [← h.2.2] at hm
  exact (List.mem_filter.1 hm).1

/-- The line with the flags of a channel comes in. -/
theorem receive_flags (hme : CleanName me) (hname : SendableName name)
    (hdone : ∀ d ∈ done, foldName d.name ≠ foldName name) {users : List Uchannelusert}
    {bans : List CStr} {modes : CStr} (hmodes : SendableModes modes) :
    (processlink (stage r clients done (shared name users bans (ascii "nt"))) nlink
        (overLink (sendtolink me (modeLine me name modes)))).1 =
      stage r clients done (shared name users bans modes) := by
  have htable : ∀ m ∈ ascii "smnti", m ≠ SP ∧ m ≠ COLON ∧ m ≠ CR ∧ m ≠ LF ∧ m ≠ 37 := by
    decide +kernel
  have hletter := fun m hm => htable m (mem_sendableModes hmodes m hm)
  have hclean : Clean modes :=
    ⟨fun h => (hletter _ h).2.2.1 rfl, fun h => (hletter _ h).2.2.2.1 rfl,
      fun h => (hletter _ h).2.2.2.2 rfl⟩
  have hlen : modes.length ≤ 5 := by
    have hfive : (ascii "smnti").length = 5 := by decide
    rw [← hmodes.2.2, ← hfive]
    exact List.length_filter_le _ _
  have hlong := length_modeLine hme hname modes
  have hlast : (modeLine me name modes).getLast? ≠ some SP := by
    rcases List.exists_cons_of_ne_nil (List.ne_nil_of_mem hmodes.1) with ⟨b, bs, rfl⟩
    have hsplit : modeLine me name (b :: bs) = modeLine me name [] ++ b :: bs := by simp [modeLine]
    rw [hsplit, List.getLast?_append_cons]
    exact fun h => (hletter SP (List.mem_of_getLast? h)).1 rfl
  rcases inbound_flags hme hname hclean (fun h => (hletter _ h).2.1 rfl)
    (fun h => (hletter _ h).1 rfl) (by omega)
    (stage r clients done (shared name users bans (ascii "nt"))) nlink with ⟨ircfrom, hinbound⟩
  rw [processlink_sendtolink hme (clean_modeLine hme hname hclean) (by omega),
    rtrim_eq_self_of_last hlast (by omega), hinbound,
    intmode_shown rfl hdone rfl (modeEffect_flags hmodes) Iff.rfl]
  rfl

end Channel

end PsyBnc
