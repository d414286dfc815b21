import PsyBnc.Intnet.Wire

/-!
# The lines of a burst

What the lines that `joinintnettolink` writes (USER for a client, JOIN for a member of a channel,
MODE for modes and bans) do to the bouncer that reads them.
-/

namespace PsyBnc

open CLib

/-- What `sameName 64` compares. -/
def foldNick (nick : CStr) : CStr := ucase (clip 64 nick)

theorem sameNick_iff {one two : CStr} : sameName 64 one two = true ↔ foldNick one = foldNick two :=
  strmcmp_iff

/-! ## USER -/

/-- A nick of the kind that `cmdintuser` ignores. -/
def isGuest (nick : CStr) : Prop := ascii "Guest" <+: nick ∧ atoi (nick.drop 5) ≠ 0

instance (nick : CStr) : Decidable (isGuest nick) := by
  dsimp [isGuest]
  infer_instance

/-- A client that the USER line can tell about. -/
structure SendableClient (c : Clientt) : Prop where
  nick : SP ∉ c.nick ∧ COLON ∉ c.nick ∧ c.nick.head? ≠ some QUOTE ∧ c.nick.length < 64
  ident : SP ∉ c.ident ∧ COLON ∉ c.ident ∧ c.ident.length < 16
  host : SP ∉ c.host ∧ COLON ∉ c.host ∧ c.host ≠ [] ∧ c.host.length < 200
  server : c.server.getLast? ≠ some SP ∧ c.server.length < 200
  clean : Clean c.nick ∧ Clean c.ident ∧ Clean c.host ∧ Clean c.server

/-- A client as the other bouncers know it. -/
def remote (c : Clientt) : Clientt := { c with intuser := 0 }

section User

variable {c : Clientt}

/-- The text of a USER line between the command and the `:`. -/
def userParams (c : Clientt) : CStr := c.nick ++ SP :: (c.ident ++ SP :: c.host)

theorem userText_eq (c : Clientt) :
    userText c = ascii "USER" ++ SP :: (userParams c ++ SP :: COLON :: c.server) := by
  simp [userText, userParams, ascii]

theorem length_userParams (hc : SendableClient c) : (userParams c).length < 300 := by
  have h₁ := hc.nick.2.2.2
  have h₂ := hc.ident.2.2
  have h₃ := hc.host.2.2.2
  simp only [userParams, List.length_append, List.length_cons]
  omega

theorem length_userText (hc : SendableClient c) : (userText c).length < 600 := by
  have hparams := length_userParams hc
  have hserver := hc.server.2
  have hcmd : (ascii "USER").length = 4 := by decide
  simp only [userText_eq, List.length_append, List.length_cons, hcmd]
  omega

theorem clean_userText (hc : SendableClient c) : Clean (userText c) := by
  have hcmd : Clean (ascii "USER") := by decide
  simp only [userText_eq, userParams, clean_append, clean_sp, clean_colon]
  exact ⟨hcmd, ⟨hc.clean.1, hc.clean.2.1, hc.clean.2.2.1⟩, hc.clean.2.2.2⟩

/-- No blank ends the line. -/
theorem rtrim_userText (hc : SendableClient c) : rtrim (userText c) = userText c := by
  refine rtrim_eq_self_of_last ?_ (by have := length_userText hc; omega)
  have hsplit : userText c = (ascii "USER" ++ SP :: (userParams c ++ [SP])) ++ COLON :: c.server := by
    simp [userText_eq]
  rw [hsplit, List.getLast?_append_cons]
  have hlast := hc.server.1
  cases hserver : c.server with
  | nil =>
      decide
  | cons b bs =>
      rwa [List.getLast?_cons_cons, ← hserver]

theorem parse_userText (hc : SendableClient c) :
    (parse (userText c)).irccommand = ascii "USER" ∧
      (parse (userText c)).ircto = userParams c ∧ (parse (userText c)).irccontent = c.server := by
  have hline : lineOf (userText c) = userText c :=
    lineOf_clean (clean_userText hc) (by have := length_userText hc; omega)
  have hnocolon : afterPrefix [COLON] (userText c) = none := by
    refine afterPrefix_eq_none.2 ?_
    rintro ⟨t, ht⟩
    have hhead := congrArg List.head? ht
    have hhead' : some COLON = some 85 := hhead
    exact absurd hhead' (by decide)
  have hparams := length_userParams hc
  have hserver := hc.server.2
  have hclip : clip 8191 (userParams c ++ SP :: COLON :: c.server) =
      (userParams c ++ [SP]) ++ COLON :: c.server := by
    rw [clip_eq_self (by simp only [List.length_append, List.length_cons]; omega)]
    simp
  -- The first colon is that in front of the server.
  have hcolon : COLON ∉ userParams c ++ [SP] := by
    have hne : COLON ≠ SP := by decide
    simp [userParams, hc.nick.2.1, hc.ident.2.1, hc.host.2.1, hne]
  have hquote : afterPrefix [QUOTE] ((userParams c ++ [SP]) ++ COLON :: c.server) = none := by
    refine afterPrefix_eq_none.2 ?_
    rintro ⟨t, ht⟩
    have hhead := congrArg List.head? ht
    cases hnick : c.nick with
    | nil =>
        have hne : ¬ QUOTE = SP := by decide
        simp [userParams, hnick, hne] at hhead
    | cons b bs =>
        have hb : ¬ QUOTE = b := fun e => hc.nick.2.2.1 (by rw [hnick, ← e]; rfl)
        simp [userParams, hnick, hb] at hhead
  -- The parameters end in front of the blank, which `rtrim` takes off.
  have hto : clip 800 (rtrim (userParams c ++ [SP])) = userParams c := by
    have hlast : (userParams c).getLast? ≠ some SP := by
      intro hlast
      have hin : SP ∈ c.host := by
        rcases List.exists_cons_of_ne_nil hc.host.2.2.1 with ⟨b, bs, hhost⟩
        have hsplit : userParams c = (c.nick ++ SP :: (c.ident ++ [SP])) ++ b :: bs := by
          simp [userParams, hhost]
        rw [hsplit, List.getLast?_append_cons, ← hhost] at hlast
        exact List.mem_of_getLast? hlast
      exact hc.host.1 hin
    rw [rtrim_append_sp (by omega), rtrim_eq_self_of_last hlast (by omega), clip_eq_self (by omega)]
  have hgen : generalparse (userText c) =
      { irccommand := ascii "USER", ircto := userParams c, irccontent := c.server } := by
    have hcmd : clip 64 (ascii "USER") = ascii "USER" := by decide
    have hcut : cutAt SP (userText c) =
        some (ascii "USER", userParams c ++ SP :: COLON :: c.server) := by
      rw [userText_eq]
      exact cutAt_append (by decide)
    simp only [generalparse, hline, hnocolon, clientLine, hcut, hclip, clientParams, hquote,
      cutAt_append hcolon, hto, hcmd, clip_eq_self (Nat.lt_trans hserver (by decide : 200 < 6000))]
  have hparse : parse (userText c) =
      { irccommand := ucase (ascii "USER"), ircto := userParams c, irccontent := c.server } := by
    simp [parse, hgen]
  have hucase : ucase (ascii "USER") = ascii "USER" := by decide
  rw [hparse]
  exact ⟨hucase, rfl, rfl⟩

theorem createclient_zero (net : Intnet) (nick ident host server : CStr) :
    createclient net 0 nick ident host server =
      { net with clients := net.clients ++
          [⟨0, clip 64 nick, clip 30 ident, clip 200 host, clip 200 server⟩] } := by
  have hno : ¬ (net.clients.any fun cl => decide (cl.intuser = 0 ∧ (0 : Nat) ≠ 0)) = true := by
    simp
  rw [createclient, if_neg hno]

theorem getclientbynick_eq_none {net : Intnet} {nick : CStr} :
    getclientbynick net nick = none ↔ ∀ d ∈ net.clients, foldNick d.nick ≠ foldNick nick := by
  rw [getclientbynick, List.find?_eq_none]
  refine forall₂_congr fun d _ => ?_
  rw [sameNick_iff]
  exact not_congr eq_comm

/-- A new client is entered, unless it is a guest. -/
theorem inbound_user (hc : SendableClient c) {net : Intnet} (nlink : Nat)
    (hnew : ∀ d ∈ net.clients, foldNick d.nick ≠ foldNick c.nick) :
    (internalinbound net (userText c) nlink).1 =
      if isGuest c.nick then net else { net with clients := net.clients ++ [remote c] } := by
  rcases parse_userText hc with ⟨hcommand, hto, hcontent⟩
  have hif : ∀ word, ifcommand (parse (userText c)) word = strmcmp word (ascii "USER") := by
    intro word
    rw [ifcommand, hcommand, if_neg (by decide)]
  have hdispatch : internalinbound net (userText c) nlink =
      cmdintuser net (parse (userText c)) nlink := by
    have h₁ : strmcmp (ascii "PRIVMSG") (ascii "USER") = false := by decide
    have h₂ : strmcmp (ascii "NOTICE") (ascii "USER") = false := by decide
    have h₃ : strmcmp (ascii "JOIN") (ascii "USER") = false := by decide
    have h₄ : strmcmp (ascii "MODE") (ascii "USER") = false := by decide
    have h₅ : strmcmp (ascii "USER") (ascii "USER") = true := by decide
    simp only [internalinbound, hif, h₁, h₂, h₃, h₄, h₅, Bool.or_self, Bool.false_eq_true, if_false,
      if_true]
  have hcutnick : cutAt SP (userParams c) = some (c.nick, c.ident ++ SP :: c.host) :=
    cutAt_append hc.nick.1
  have hcutident : cutAt SP (c.ident ++ SP :: c.host) = some (c.ident, c.host) :=
    cutAt_append hc.ident.1
  have hhost : firstWord c.host = c.host := by
    rw [firstWord, cutAt_eq_none.2 hc.host.1]
  rw [hdispatch]
  simp only [cmdintuser, hto, hcutnick, clip_eq_self hc.nick.2.2.2]
  by_cases hguest : isGuest c.nick
  · have hguest' : ascii "Guest" <+: c.nick ∧ atoi (c.nick.drop 5) ≠ 0 := hguest
    rw [if_pos hguest', if_pos hguest]
  · have hguest' : ¬ (ascii "Guest" <+: c.nick ∧ atoi (c.nick.drop 5) ≠ 0) := hguest
    have hident : c.ident.length < 30 := by
      have := hc.ident.2.2
      omega
    rw [if_neg hguest', if_neg hguest]
    simp only [hcutident, hhost, getclientbynick_eq_none.2 hnew, createclient_zero, hcontent,
      clip_eq_self hc.ident.2.2, clip_eq_self hc.nick.2.2.2, clip_eq_self hident,
      clip_eq_self hc.host.2.2.2, clip_eq_self hc.server.2]
    rfl

end User

/-! ## JOIN -/

/-- The name of a channel that its lines can tell about. -/
structure SendableName (name : CStr) : Prop where
  sp : SP ∉ name
  colon : name.head? ≠ some COLON
  nonempty : name ≠ []
  short : name.length < 200
  clean : Clean name

def joinText (nick ident host name : CStr) : CStr :=
  COLON :: nick ++ BANG :: ident ++ AT :: host ++ ascii " JOIN :" ++ name

/-- A line with one of the three commands that a burst uses goes to the handler of the command. -/
theorem inbound_sent {sender cmd secbuf text : CStr} {irc : Parsed}
    (h : Sent sender cmd secbuf irc) (hirc : parse text = irc) (net : Intnet) (nlink : Nat) :
    (ucase cmd = ascii "JOIN" →
        internalinbound net text nlink = cmdintjoin net irc text nlink) ∧
      (ucase cmd = ascii "MODE" → internalinbound net text nlink = cmdintmode net irc nlink) := by
  have hif : ucase cmd ≠ [] → ∀ word, ifcommand irc word = strmcmp word (ucase cmd) := by
    intro hne word
    rw [ifcommand, h.command, if_neg hne]
  constructor
  · intro hcmd
    have h₁ : strmcmp (ascii "PRIVMSG") (ascii "JOIN") = false := by decide
    have h₂ : strmcmp (ascii "NOTICE") (ascii "JOIN") = false := by decide
    have h₃ : strmcmp (ascii "JOIN") (ascii "JOIN") = true := by decide
    have hne : ucase cmd ≠ [] := by
      rw [hcmd]
      decide
    simp only [internalinbound, hirc, hif hne, hcmd, h₁, h₂, h₃, Bool.or_self, Bool.false_eq_true,
      if_false, if_true]
  · intro hcmd
    have h₁ : strmcmp (ascii "PRIVMSG") (ascii "MODE") = false := by decide
    have h₂ : strmcmp (ascii "NOTICE") (ascii "MODE") = false := by decide
    have h₃ : strmcmp (ascii "JOIN") (ascii "MODE") = false := by decide
    have h₄ : strmcmp (ascii "MODE") (ascii "MODE") = true := by decide
    have hne : ucase cmd ≠ [] := by
      rw [hcmd]
      decide
    simp only [internalinbound, hirc, hif hne, hcmd, h₁, h₂, h₃, h₄, Bool.or_self,
      Bool.false_eq_true, if_false, if_true]

section Join

variable {c : Clientt} {name : CStr}

theorem joinText_eq (nick ident host name : CStr) :
    joinText nick ident host name =
      COLON :: ((nick ++ BANG :: (ident ++ AT :: host)) ++ SP :: (ascii "JOIN" ++ SP :: COLON :: name)) := by
  simp [joinText, ascii]

theorem clean_joinText (hc : SendableClient c) (hname : SendableName name) :
    Clean (joinText c.nick c.ident c.host name) := by
  have hcmd : Clean (ascii "JOIN") := by decide
  have hbang : ∀ {s : CStr}, Clean (BANG :: s) ↔ Clean s := clean_cons (by decide)
  have hat : ∀ {s : CStr}, Clean (AT :: s) ↔ Clean s := clean_cons (by decide)
  simp only [joinText_eq, clean_append, clean_sp, clean_colon, hbang, hat]
  exact ⟨⟨hc.clean.1, hc.clean.2.1, hc.clean.2.2.1⟩, hcmd, hname.clean⟩

theorem length_joinText (hc : SendableClient c) (hname : SendableName name) :
    (joinText c.nick c.ident c.host name).length < 600 := by
  have h₁ := hc.nick.2.2.2
  have h₂ := hc.ident.2.2
  have h₃ := hc.host.2.2.2
  have h₄ := hname.short
  have hcmd : (ascii "JOIN").length = 4 := by decide
  simp only [joinText_eq, List.length_append, List.length_cons, hcmd]
  omega

theorem rtrim_joinText (hc : SendableClient c) (hname : SendableName name) :
    rtrim (joinText c.nick c.ident c.host name) = joinText c.nick c.ident c.host name := by
  refine rtrim_eq_self_of_last ?_ (by have := length_joinText hc hname; omega)
  rcases List.exists_cons_of_ne_nil hname.nonempty with ⟨b, bs, rfl⟩
  rw [joinText, List.getLast?_append_cons]
  exact fun hlast => hname.sp (List.mem_of_getLast? hlast)

/-- What `cmdintjoin` does to the channels when the sender is known. -/
def joined (intchan : List Uchannelt) (name : CStr) (client : Clientt) : List Uchannelt :=
  (addintchannel intchan name).1.modify (addintchannel intchan name).2 fun chan =>
    addnicktochannel (removeinvite chan client.nick) client.nick client.ident client.host

theorem inbound_join (hc : SendableClient c) (hbang : BANG ∉ c.nick) (hname : SendableName name)
    (net : Intnet) (nlink : Nat) :
    (internalinbound net (joinText c.nick c.ident c.host name) nlink).1 =
      match getclientbynick net c.nick with
      | none => net
      | some client => { net with intchan := joined net.intchan name client } := by
  have hline := lineOf_clean (clean_joinText hc hname)
    (by have := length_joinText hc hname; omega)
  have hsplit := joinText_eq c.nick c.ident c.host name
  have hsender : SP ∉ c.nick ++ BANG :: (c.ident ++ AT :: c.host) := by
    have h₁ : SP ≠ BANG := by decide
    have h₂ : SP ≠ AT := by decide
    simp [hc.nick.1, hc.ident.1, hc.host.1, h₁, h₂]
  have hsent := parse_sent (hline.trans hsplit) hsender (by simp) (by decide) (by decide)
    (by have := hname.short; simp only [List.length_cons]; omega)
  have hnick := hsent.nick c.nick _ rfl hbang hc.nick.2.2.2
  have hto : (parse (joinText c.nick c.ident c.host name)).ircto = name := by
    have hsp : SP ∉ COLON :: name := by
      have hne : SP ≠ COLON := by decide
      simp [hname.sp, hne]
    have hafter : afterPrefix [COLON] (COLON :: name) = some name := afterPrefix_append [COLON] name
    have hshort : name.length < 800 := by
      have := hname.short
      omega
    rw [hsent.target]
    simp only [serverParams, cutAt_eq_none.2 hsp, hafter, Option.getD_some, rtrim_eq_self hname.sp,
      clip_eq_self hshort]
  rw [(inbound_sent hsent rfl net nlink).1 (by decide), cmdintjoin, hnick, hto]
  cases getclientbynick net c.nick with
  | none =>
      rfl
  | some client =>
      rfl

end Join

/-! ## MODE -/

section Mode

variable {me name content : CStr}

/-- `lngtxt(504)`, and what the mode lines with parameters come to. -/
def modeLine (me name content : CStr) : CStr :=
  COLON :: me ++ ascii "-psybnc.net MODE " ++ name ++ SP :: content

theorem modeLine_eq (me name content : CStr) :
    modeLine me name content =
      COLON :: ((me ++ ascii "-psybnc.net") ++ SP :: (ascii "MODE" ++ SP :: (name ++ SP :: content))) := by
  simp [modeLine, ascii]

theorem clean_modeLine (hme : CleanName me) (hname : SendableName name) (hcontent : Clean content) :
    Clean (modeLine me name content) := by
  have h₁ : Clean (ascii "-psybnc.net") := by decide
  have h₂ : Clean (ascii "MODE") := by decide
  simp only [modeLine_eq, clean_append, clean_sp, clean_colon]
  exact ⟨⟨hme.clean, h₁⟩, h₂, hname.clean, hcontent⟩

theorem length_modeLine (hme : CleanName me) (hname : SendableName name) (content : CStr) :
    (modeLine me name content).length < 430 + content.length := by
  have h₁ := hme.short
  have h₂ := hname.short
  have h₃ : (ascii "-psybnc.net").length + (ascii "MODE").length = 15 := by decide
  simp only [modeLine_eq, List.length_append, List.length_cons]
  omega

theorem inbound_mode (hme : CleanName me) (hname : SendableName name) (hcontent : Clean content)
    (hcolon : COLON ∉ content) (hlen : content.length < 1000) (net : Intnet) (nlink : Nat) :
    ∃ irc : Parsed, irc.ircto = name ∧ irc.irccontent = content ∧
      internalinbound net (modeLine me name content) nlink = cmdintmode net irc nlink := by
  have hlong := length_modeLine hme hname content
  have hline := lineOf_clean (clean_modeLine hme hname hcontent) (by omega)
  have hsplit := modeLine_eq me name content
  have hsender : SP ∉ me ++ ascii "-psybnc.net" := by
    simp only [List.mem_append, not_or]
    exact ⟨hme.sp, by decide⟩
  have hshort := hname.short
  have hsent := parse_sent (hline.trans hsplit) hsender (by simp [ascii]) (by decide) (by decide)
    (by simp only [List.length_append, List.length_cons]; omega)
  have hparams : ∀ irc, serverParams (name ++ SP :: content) irc =
      { irc with ircto := name, irccontent := content } := by
    intro irc
    rw [serverParams_plain irc hname.sp hname.colon (by omega) (by omega),
      serverContent_of_notMem hcolon]
  exact ⟨_, hsent.target.trans (by rw [hparams]), hsent.content.trans (by rw [hparams]),
    (inbound_sent hsent rfl net nlink).2 (by decide)⟩

/-- A line with flags only. -/
theorem inbound_flags (hme : CleanName me) (hname : SendableName name) {modes : CStr}
    (hmodes : Clean modes) (hcolon : COLON ∉ modes) (hsp : SP ∉ modes) (hlen : modes.length < 200)
    (net : Intnet) (nlink : Nat) :
    ∃ ircfrom, internalinbound net (modeLine me name modes) nlink =
      intmode net ircfrom name modes [] nlink := by
  rcases inbound_mode hme hname hmodes hcolon (by omega) net nlink with ⟨irc, hto, hcontent, heq⟩
  refine ⟨irc.ircfrom, ?_⟩
  rw [heq]
  simp only [cmdintmode, hto, hcontent, clip_eq_self hname.short, hname.nonempty, if_false,
    cutAt_eq_none.2 hsp, clip_eq_self hlen]

/-- A line with parameters. -/
theorem inbound_params (hme : CleanName me) (hname : SendableName name) {modes params : CStr}
    (hclean : Clean modes ∧ Clean params) (hcolon : COLON ∉ modes ∧ COLON ∉ params)
    (hsp : SP ∉ modes) (hlen : modes.length < 200 ∧ params.length < 400) (net : Intnet)
    (nlink : Nat) :
    ∃ ircfrom, internalinbound net (modeLine me name (modes ++ SP :: params)) nlink =
      intmode net ircfrom name modes params nlink := by
  have hcontent : Clean (modes ++ SP :: params) := by
    simp only [clean_append, clean_sp]
    exact hclean
  have hno : COLON ∉ modes ++ SP :: params := by
    have hne : COLON ≠ SP := by decide
    simp [hcolon.1, hcolon.2, hne]
  rcases inbound_mode hme hname hcontent hno (by
    simp only [List.length_append, List.length_cons]
    omega) net nlink with ⟨irc, hto, hc, heq⟩
  refine ⟨irc.ircfrom, ?_⟩
  rw [heq]
  simp only [cmdintmode, hto, hc, clip_eq_self hname.short, hname.nonempty, if_false,
    cutAt_append hsp, clip_eq_self hlen.1, clip_eq_self hlen.2]

end Mode

end PsyBnc
