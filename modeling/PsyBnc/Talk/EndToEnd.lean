import PsyBnc.Idea.Text
import PsyBnc.Parse.Server
import PsyBnc.Talk.Model

/-!
# A ciphered text, from the sender to the receiver

A line of the sender with his key for the target, and the line that a server delivers of it.  The text of an action
stands between `act` and a closing byte, which is ciphered with it.
-/

namespace PsyBnc

open CLib

/-! ## The two ciphers -/

section Ciphers

variable {s key : CStr}

theorem length_decryptit_le {salt : Salt} {t : CStr} (h : decryptit salt t = some key) : key.length ≤ t.length := by
  rw [decryptit] at h
  cases hpre : afterPrefix [PLUS] t with
  | none =>
      rw [hpre] at h
      cases h
      exact Nat.le_refl _
  | some ptt =>
      rw [hpre] at h
      rcases Option.map_eq_some_iff.1 h with ⟨u, hu, htake⟩
      have hshort := length_decLoop salt (Nat.le_refl _) hu
      have hkey : key.length ≤ u.length := htake ▸ (List.takeWhile_sublist _).length_le
      rw [afterPrefix_eq_some.1 hpre, List.length_append]
      omega

theorem hashstring_inline (bs : List Byte) : Inline (hashstring bs) := by
  have hbase : Inline base := by decide +kernel
  exact ⟨fun h => hbase.1 (mem_hashstring h), fun h => hbase.2.1 (mem_hashstring h),
    fun h => hbase.2.2 (mem_hashstring h)⟩

/-- A text that is ciphered comes back. -/
structure Ciphered (cipher : TalkCipher) (s key c : CStr) : Prop where
  encrypted : cipher.stringencrypt s key = some c
  decrypted : ∀ wrong, cipher.stringdecrypt wrong c key = some s
  short : c.length ≤ 2 * (s.length + 8)
  inline : Inline c

theorem blowfish_ciphered (hs : Inline s) (hlen : s.length < 6000) (hkey : key.length < 200) :
    ∃ c, Ciphered .blowfish s key c := by
  rcases Option.isSome_iff_exists.1 ((InitializeBlowfish_isSome_iff key).2 (keyFits_of_short (by omega))) with
    ⟨t, ht⟩
  rcases encryptLoop_spec t s hs.1 with ⟨bs, _, henc, hbs, _⟩
  refine ⟨BLOWencrypt t s, ?_, fun _ => ?_, ?_, ?_⟩
  · rw [TalkCipher.stringencrypt, BLOW_stringencrypt, InitializeBlowfish_spacedKey, ht]
    rfl
  · rw [TalkCipher.stringdecrypt, BLOW_stringdecrypt, ht, Option.bind_some]
    exact (decrypt_encrypt_iff t hs.1).2 (by omega)
  · rw [BLOWencrypt, henc, length_hashstring, hbs, blocks]
    omega
  · rw [BLOWencrypt, henc]
    exact hashstring_inline bs

theorem idea_ciphered (hs : Inline s) (hne : s ≠ []) (hkey : 15 ≤ key.length) : ∃ c, Ciphered .idea s key c := by
  rcases cipherLoop_undo (encryptionKey (bytesFrom 0 key)) with ⟨dk, hdk, hundo⟩
  have hkeys : IDEA_keyset key = some (encryptionKey (bytesFrom 0 key), arrayOf dk) := by
    simp only [IDEA_keyset, if_neg (by omega : ¬ key.length + 1 < 16), hdk, Option.map_some]
  refine ⟨hashstring (cipherBlocks (encryptionKey (bytesFrom 0 key)) (s ++ [0])), ?_, fun wrong => ?_, ?_, ?_⟩
  · rw [TalkCipher.stringencrypt, IDEA_stringencrypt, hkeys, Option.map_some, cutEnd_eq_self hs.2.1 hs.2.2,
      if_neg hne]
  · exact stringdecrypt_hashstring wrong hundo hs.1 hkeys
  · rw [length_hashstring, length_cipherBlocks, List.length_append, List.length_singleton]
    omega
  · exact hashstring_inline _

/-- The key set-up of IDEA reads 16 bytes of the key. -/
def TalkCipher.KeyFits : TalkCipher → CStr → Prop
  | blowfish, key => key.length < 200
  | idea, key => 15 ≤ key.length ∧ key.length < 200

theorem TalkCipher.ciphered (cipher : TalkCipher) (hs : Inline s) (hlen : s.length < 6000) (hne : s ≠ [])
    (hkey : cipher.KeyFits key) : ∃ c, Ciphered cipher s key c := by
  cases cipher with
  | blowfish => exact blowfish_ciphered hs hlen hkey
  | idea => exact idea_ciphered hs hne hkey.1

end Ciphers

/-! ## Lines -/

/-- A text that is sent as it is, or as an action. -/
structure TalkText where
  action : Bool
  text : CStr
  inline : Inline text
  /-- Another control message is passed on, and a text with this tag is not ciphered. -/
  plain : action = false → text.head? ≠ some 1 ∧ ¬ ascii "[N]" <+: text

namespace TalkText

variable (m : TalkText)

def lead : CStr := if m.action then act else []

def close : CStr := if m.action then [1] else []

/-- What is parsed of the line. -/
def content : CStr := m.lead ++ m.text ++ m.close

/-- What is ciphered: the checksum of the key is put behind the text. -/
def checked (key : CStr) : CStr := m.text ++ (ascii " <" ++ dec (keyhash key) ++ ascii ">" ++ m.close)

end TalkText

/-- `PRIVMSG` or `NOTICE` and a target. -/
structure TalkHeader where
  command : CStr
  target : CStr
  talk : ucase command = ascii "PRIVMSG" ∨ ucase command = ascii "NOTICE"
  word : Word target
  colon : COLON ∉ target
  quote : target.head? ≠ some QUOTE

/-- The line up to the text. -/
def TalkHeader.text (head : TalkHeader) : CStr := head.command ++ SP :: (head.target ++ [SP, COLON])

/-- Whom a line comes from. -/
structure TalkSource where
  sender : CStr
  nick : CStr
  ident : CStr
  host : CStr
  userhost : Userhost sender nick ident host
  word : Word sender
  short : sender.length < 300

/-- The delivered line up to the text. -/
def TalkSource.header (source : TalkSource) (head : TalkHeader) : CStr := COLON :: (source.sender ++ SP :: head.text)

/-- `strstr` finds the text where it stands. -/
def FoundThere (header content rest : CStr) : Prop :=
  cutStr content (header ++ content ++ rest) = some (header, rest)

instance (header content rest : CStr) : Decidable (FoundThere header content rest) := by
  unfold FoundThere
  infer_instance

def Talker.keyFor (user : Talker) (name : CStr) : Option CStr :=
  (findkey (ucase (clip 800 name)) user.encrypt).bind (decryptit user.salt)

/-- The text fits its buffers, behind a header of this length. -/
structure TalkFits (header : CStr) (m : TalkText) (key : CStr) : Prop where
  header_lt : header.length + m.lead.length + 3 < 800
  text_lt : 2 * ((m.checked key).length + 8) + 12 < 6000

/-! ## What is parsed -/

section Parsed

variable {content : CStr}

theorem Inline.append {u v : CStr} (hu : Inline u) (hv : Inline v) : Inline (u ++ v) := by
  simp only [Inline, List.mem_append, not_or]
  exact ⟨⟨hu.1, hv.1⟩, ⟨hu.2.1, hv.2.1⟩, hu.2.2, hv.2.2⟩

theorem TalkHeader.command_word (head : TalkHeader) : Word head.command ∧ COLON ∉ head.command ∧
    head.command.length ≤ 7 := by
  have hlines : ∀ s ∈ [ascii "PRIVMSG", ascii "NOTICE"],
      s ≠ [] ∧ SP ∉ s ∧ Inline s ∧ COLON ∉ s ∧ s.length ≤ 7 := by decide +kernel
  have hcommand : ucase head.command ∈ [ascii "PRIVMSG", ascii "NOTICE"] := by
    rcases head.talk with h | h
    · rw [h]
      exact List.mem_cons_self
    · rw [h]
      exact List.mem_cons_of_mem _ List.mem_cons_self
  rcases hlines _ hcommand with ⟨hne, hsp, hinline, hcolon, hlen⟩
  rw [mem_ucase_iff (by decide)] at hsp hcolon
  rw [length_ucase] at hlen
  have hinline' : Inline head.command := by
    rw [Inline, mem_ucase_iff (by decide), mem_ucase_iff (by decide), mem_ucase_iff (by decide)] at hinline
    exact hinline
  refine ⟨⟨?_, hsp, hinline'⟩, hcolon, hlen⟩
  rintro hnil
  rw [hnil] at hne
  exact hne rfl

theorem TalkHeader.inline (head : TalkHeader) : Inline head.text := by
  have hcommand := head.command_word.1.2.2
  have htarget := head.word.2.2
  have hsp : Inline [SP] ∧ Inline [SP, COLON] := by decide
  have htext : head.text = head.command ++ ([SP] ++ (head.target ++ [SP, COLON])) := by
    simp [TalkHeader.text]
  rw [htext]
  exact hcommand.append (hsp.1.append (htarget.append hsp.2))

/-- What is parsed of a line that goes out. -/
theorem parse_outgoing (head : TalkHeader) (hinline : Inline content)
    (hhead : head.text.length < 800) (hlen : content.length < 6000) (t : Terminator) :
    (parse (head.text ++ content ++ t.bytes)).ircto = head.target ∧
      (parse (head.text ++ content ++ t.bytes)).irccontent = content := by
  rcases head.command_word with ⟨⟨hne, hsp, _⟩, hcolon, hshort⟩
  have hwhole := head.inline.append hinline
  have hline : lineOf (head.text ++ content ++ t.bytes) = head.text ++ content := by
    apply lineOf_terminated hwhole.2.1 hwhole.2.2
    rw [List.length_append]
    omega
  have htarget : head.target.length < 800 := by
    simp only [TalkHeader.text, List.length_append, List.length_cons] at hhead
    omega
  have htext : head.text ++ content = head.command ++ SP :: (head.target ++ [SP] ++ COLON :: content) := by
    simp [TalkHeader.text]
  -- A line of the client has no prefix.
  have hno : afterPrefix [COLON] (head.command ++ SP :: (head.target ++ [SP] ++ COLON :: content)) = none := by
    rw [afterPrefix_eq_none]
    rintro ⟨r, hr⟩
    cases hcmd : head.command with
    | nil =>
        exact hne hcmd
    | cons b bs =>
        rw [hcmd] at hr hcolon
        cases hr
        exact hcolon List.mem_cons_self
  have hquote : afterPrefix [QUOTE] (head.target ++ [SP] ++ COLON :: content) = none := by
    rw [afterPrefix_eq_none]
    rintro ⟨r, hr⟩
    cases hto : head.target with
    | nil =>
        exact head.word.1 hto
    | cons b bs =>
        have hb := head.quote
        rw [hto] at hr hb
        cases hr
        exact hb rfl
  -- The target ends in front of the colon, and the content begins behind it.
  have hcut : cutAt COLON (head.target ++ [SP] ++ COLON :: content) = some (head.target ++ [SP], content) := by
    apply cutAt_append
    rw [List.mem_append, not_or]
    exact ⟨head.colon, by decide⟩
  have hrest : (head.target ++ [SP] ++ COLON :: content).length < 8191 := by
    simp only [List.length_append, List.length_cons, List.length_nil]
    omega
  have hto : clip 800 (rtrim (head.target ++ [SP])) = head.target := by
    rw [rtrim_append_sp (by omega), rtrim_eq_self head.word.2.1, clip_eq_self htarget]
  have hgen : generalparse (head.text ++ content ++ t.bytes) =
      { irccommand := clip 64 head.command, ircto := head.target, irccontent := content } := by
    rw [generalparse, hline, htext, hno]
    simp only
    rw [clientLine, cutAt_append hsp]
    simp only
    rw [clip_eq_self hrest, clientParams, hquote]
    simp only
    rw [hcut]
    simp only
    rw [hto, clip_eq_self hlen]
  rw [parse, hgen]
  exact ⟨rfl, rfl⟩

theorem TalkSource.header_append (source : TalkSource) (head : TalkHeader) (content : CStr) :
    source.header head ++ content =
      COLON :: (source.sender ++ SP :: (head.command ++ SP :: (head.target ++ SP :: COLON :: content))) := by
  simp [TalkSource.header, TalkHeader.text]

/-- What is parsed of a line that comes in. -/
theorem parse_incoming (source : TalkSource) (head : TalkHeader) (hinline : Inline content)
    (hhead : (source.header head).length < 800) (hlen : content.length + 1 < 6000) (t : Terminator) :
    (parse (source.header head ++ content ++ t.bytes)).ircto = head.target ∧
      (parse (source.header head ++ content ++ t.bytes)).irccontent = content ∧
        (parse (source.header head ++ content ++ t.bytes)).ircnick = source.nick := by
  rcases head.command_word with ⟨⟨hne, hsp, _⟩, _, hshort⟩
  have hwhole : Inline (source.header head ++ content) := by
    have hstart : Inline [COLON] ∧ Inline [SP] := by decide
    have hparts : source.header head ++ content =
        [COLON] ++ (source.sender ++ ([SP] ++ (head.text ++ content))) := by
      simp [TalkSource.header]
    rw [hparts]
    exact hstart.1.append (source.word.2.2.append (hstart.2.append (head.inline.append hinline)))
  have htarget : head.target.length < 800 := by
    simp only [TalkSource.header, TalkHeader.text, List.length_append, List.length_cons] at hhead
    omega
  have hline : lineOf (source.header head ++ content ++ t.bytes) =
      COLON :: (source.sender ++ SP :: (head.command ++ SP :: (head.target ++ SP :: COLON :: content))) := by
    rw [← source.header_append]
    apply lineOf_terminated hwhole.2.1 hwhole.2.2
    rw [List.length_append]
    omega
  have hcolon : head.target.head? ≠ some COLON := fun h => head.colon (List.mem_of_mem_head? h)
  have hparams : (head.target ++ SP :: COLON :: content).length < 8000 := by
    simp only [List.length_append, List.length_cons]
    omega
  have hsent := parse_sent hline source.word.2.1 source.word.1 hsp (by omega) hparams
  have hstored := serverParams_plain
    { ircserver := true, ircfrom := clip 300 source.sender, irccommand := head.command }
    head.word.2.1 hcolon htarget (r := COLON :: content) (by rw [List.length_cons]; exact hlen)
  have hcontent : serverContent (COLON :: content) = content := by
    rw [serverContent, if_pos rfl]
  refine ⟨?_, ?_, hsent.nick source.nick _ source.userhost.eq source.userhost.nick.1 source.userhost.nick.2⟩
  · rw [hsent.target, hstored]
  · rw [hsent.content, hstored, hcontent]

end Parsed

/-! ## What goes out -/

section Outgoing

variable {user : Talker} {m : TalkText} {head : TalkHeader} {source : TalkSource} {key name header c : CStr}

theorem Talker.keyFor_spec (h : user.keyFor name = some key) :
    ∃ pt2, findkey (ucase (clip 800 name)) user.encrypt = some pt2 ∧ decryptit user.salt pt2 = some key :=
  Option.bind_eq_some_iff.1 h

theorem length_findkey_lt {buf pt2 : CStr} {lkm : List CStr} (h : findkey buf lkm = some pt2) : pt2.length < 200 := by
  induction lkm with
  | nil =>
      cases h
  | cons entry lkm ih =>
      rw [findkey] at h
      cases hcut : cutAt SEMICOLON (clip 200 entry) with
      | none =>
          rw [hcut] at h
          cases h
      | some p =>
          rw [hcut] at h
          simp only at h
          split at h
          · cases h
            have hentry := congrArg List.length (cutAt_eq_some.1 hcut).1
            rw [length_clip, List.length_append, List.length_cons] at hentry
            omega
          · exact ih h

theorem Talker.length_keyFor_lt (h : user.keyFor name = some key) : key.length < 200 := by
  rcases Talker.keyFor_spec h with ⟨pt2, hfind, hkey⟩
  exact Nat.lt_of_le_of_lt (length_decryptit_le hkey) (length_findkey_lt hfind)

theorem TalkText.checked_inline (m : TalkText) (key : CStr) : Inline (m.checked key) := by
  have hopen : Inline (ascii " <") ∧ Inline (ascii ">") := by decide
  have hdec : Inline (dec (keyhash key)) := ⟨notMem_dec (by decide), notMem_dec (by decide), notMem_dec (by decide)⟩
  have hclose : Inline m.close := by
    rw [TalkText.close]
    split
    · decide
    · decide
  exact m.inline.append (((hopen.1.append hdec).append hopen.2).append hclose)

theorem TalkText.checked_ne_nil (m : TalkText) (key : CStr) : m.checked key ≠ [] := by
  intro hnil
  have hlen := congrArg List.length hnil
  have hopen : (ascii " <").length = 2 := by decide
  simp only [TalkText.checked, List.length_append, List.length_nil, hopen] at hlen
  omega

theorem TalkText.content_inline (m : TalkText) : Inline m.content := by
  have hlead : Inline m.lead := by
    rw [TalkText.lead]
    split
    · decide
    · decide
  have hclose : Inline m.close := by
    rw [TalkText.close]
    split
    · decide
    · decide
  exact (hlead.append m.inline).append hclose

/-- The checksum fits into `chkbuf`. -/
theorem clip_checksum (key : CStr) (close : CStr) (hclose : close.length ≤ 1) :
    clip 30 (ascii " <" ++ dec (keyhash key) ++ ascii ">" ++ close) =
      ascii " <" ++ dec (keyhash key) ++ ascii ">" ++ close := by
  have hhash : keyhash key < 10 ^ 10 := by
    rw [keyhash]
    omega
  have hdec : (dec (keyhash key)).length ≤ 10 := (length_dec_le (by decide)).2 hhash
  have hopen : (ascii " <").length = 2 ∧ (ascii ">").length = 1 := by decide
  apply clip_eq_self
  simp only [List.length_append, hopen.1, hopen.2]
  omega

theorem TalkText.content_head (m : TalkText) : m.content.head? = some 1 ↔ m.action = true := by
  cases hm : m.action with
  | false =>
      have hcontent : m.content = m.text := by
        simp [TalkText.content, TalkText.lead, TalkText.close, hm]
      rw [hcontent]
      exact iff_of_false (m.plain hm).1 Bool.false_ne_true
  | true =>
      have hcontent : m.content = 1 :: (ascii "ACTION " ++ m.text ++ [1]) := by
        simp [TalkText.content, TalkText.lead, TalkText.close, hm, act]
      rw [hcontent]
      exact iff_of_true rfl rfl

theorem TalkText.content_plain (m : TalkText) : ¬ ascii "[N]" <+: m.content := by
  cases hm : m.action with
  | false =>
      have hcontent : m.content = m.text := by
        simp [TalkText.content, TalkText.lead, TalkText.close, hm]
      rw [hcontent]
      exact (m.plain hm).2
  | true =>
      rintro ⟨r, hr⟩
      have hhead := m.content_head.2 hm
      have hopen : ascii "[N]" = 91 :: ascii "N]" := by decide
      rw [← hr, hopen, List.cons_append, List.head?_cons, Option.some.injEq] at hhead
      exact absurd hhead (by decide)

/-- The parts of a line that goes out, as `encryptLine` makes them. -/
theorem encryptLine_content (key : CStr) (ircbuf : CStr) {irc : Parsed} (hcontent : irc.irccontent = m.content)
    {rest : CStr} (hcut : cutStr m.content ircbuf = some (header, rest)) (hfits : TalkFits header m key)
    (hc : Ciphered user.cipher (m.checked key) key c) :
    (encryptLine user key ircbuf irc).map Prod.fst =
      some (header ++ m.lead ++ user.cipher.tag ++ c ++ [CR, LF]) := by
  have hhead := m.content_head
  -- What the code takes off for an ACTION is the lead and the close of the text.
  have hlead : (if m.content.head? = some 1 then act else []) = m.lead := by
    rw [TalkText.lead]
    simp only [hhead]
  have hclose : (if m.content.head? = some 1 then ([1] : CStr) else []) = m.close := by
    rw [TalkText.close]
    simp only [hhead]
  have hact : m.content.head? = some 1 → act <+: m.content := by
    intro h
    have hcontent : m.content = act ++ (m.text ++ m.close) := by
      rw [TalkText.content, TalkText.lead, if_pos (hhead.1 h), List.append_assoc]
    rw [hcontent]
    exact List.prefix_append _ _
  have hcloselen : m.close.length ≤ 1 := by
    rw [TalkText.close]
    split
    · exact Nat.le_refl 1
    · exact Nat.zero_le 1
  have htext : (if m.content.head? = some 1 then m.content.dropLast else m.content) = m.lead ++ m.text := by
    split
    · next h =>
      rw [TalkText.content, TalkText.close, if_pos (hhead.1 h), List.dropLast_concat]
    · next h =>
      rw [hhead] at h
      rw [TalkText.content, TalkText.close, if_neg h, List.append_nil]
  have hleadlen : m.lead.length ≤ 8 := by
    have hlen : act.length = 8 := by decide
    rw [TalkText.lead]
    split
    · rw [hlen]
    · exact Nat.zero_le 8
  have hfirst := hfits.header_lt
  have hsecond := hfits.text_lt
  -- Nothing is cut on the way: the checksum fits behind the text, the header and the line in their buffers.
  have hroom : (m.lead ++ m.text).length +
      (ascii " <" ++ dec (keyhash key) ++ ascii ">" ++ m.close).length + 1 < 6000 := by
    rw [TalkText.checked, List.length_append] at hsecond
    rw [List.length_append]
    omega
  have hdrop : (if m.content.head? = some 1 then (m.lead ++ m.checked key).drop act.length
      else m.lead ++ m.checked key) = m.checked key := by
    split
    · next h =>
      rw [TalkText.lead, if_pos (hhead.1 h), List.drop_left]
    · next h =>
      rw [hhead] at h
      rw [TalkText.lead, if_neg h, List.nil_append]
  have hbuf : clip 800 (header ++ m.lead) = header ++ m.lead := by
    apply clip_eq_self
    rw [List.length_append]
    omega
  have htag : user.cipher.tag.length = 3 := by
    cases user.cipher with
    | blowfish => decide
    | idea => decide
  have hline : clip 8192 (header ++ m.lead ++ user.cipher.tag ++ c ++ [CR, LF]) =
      header ++ m.lead ++ user.cipher.tag ++ c ++ [CR, LF] := by
    have hshort := hc.short
    apply clip_eq_self
    simp only [List.length_append, htag, List.length_cons, List.length_nil]
    omega
  -- A CTCP that is no ACTION would be left alone, and this text is none.
  have hguard : ¬ (m.content.head? = some 1 ∧ ¬ act <+: m.content) := fun h => h.2 (hact h.1)
  simp only [encryptLine, hcontent, if_neg hguard, hcut, hlead, hclose, htext, clip_checksum key _ hcloselen,
    if_pos hroom]
  have hchecked : m.lead ++ m.text ++ (ascii " <" ++ dec (keyhash key) ++ ascii ">" ++ m.close) =
      m.lead ++ m.checked key := by
    rw [TalkText.checked, List.append_assoc]
  rw [hchecked, hdrop, hc.encrypted, hbuf, Option.map_some, hline]
  rfl

/-- The text of a line that goes out is replaced by the tag and the ciphered text. -/
theorem checkcrypt_outgoing (hkey : user.keyFor head.target = some key)
    (hc : Ciphered user.cipher (m.checked key) key c) (hfits : TalkFits head.text m key) (t : Terminator)
    (hthere : FoundThere head.text m.content t.bytes) :
    (checkcrypt user (head.text ++ m.content ++ t.bytes) (parse (head.text ++ m.content ++ t.bytes))).map Prod.fst =
      some (head.text ++ m.lead ++ user.cipher.tag ++ c ++ [CR, LF]) := by
  have hheader := hfits.header_lt
  have htext := hfits.text_lt
  have hlen : m.content.length < 6000 := by
    have hclose : m.close.length ≤ (ascii " <" ++ dec (keyhash key) ++ ascii ">" ++ m.close).length := by
      rw [List.length_append]
      omega
    rw [TalkText.checked, List.length_append] at htext
    rw [TalkText.content, List.length_append, List.length_append]
    omega
  rcases parse_outgoing head m.content_inline (by omega) hlen t with ⟨hto, hcontent⟩
  have hcolon : (head.text ++ m.content ++ t.bytes).head? ≠ some COLON := by
    rcases head.command_word with ⟨⟨hne, _⟩, hcolon, _⟩
    cases hcmd : head.command with
    | nil =>
        exact absurd hcmd hne
    | cons b bs =>
        rw [hcmd] at hcolon
        rw [TalkHeader.text, hcmd]
        rintro ⟨⟩
        exact hcolon List.mem_cons_self
  rcases Talker.keyFor_spec hkey with ⟨pt2, hfind, hdecrypt⟩
  have hmatch : tomatch user (head.text ++ m.content ++ t.bytes) (parse (head.text ++ m.content ++ t.bytes)) =
      head.target := by
    rw [tomatch, if_neg hcolon, hto]
  rw [checkcrypt, hcontent, if_neg m.content_plain, hmatch, hfind]
  simp only
  rw [hdecrypt, Option.bind_some, if_neg hcolon]
  exact encryptLine_content key _ hcontent hthere hfits hc

end Outgoing

/-! ## What comes in -/

section Incoming

variable {user : Talker} {m : TalkText} {head : TalkHeader} {source : TalkSource} {cipher : TalkCipher}
  {key header c : CStr}

/-- Whom the receiver has the key for: the channel, or the nick that the line is from. -/
def TalkSource.partner (source : TalkSource) (user : Talker) (head : TalkHeader) : CStr :=
  if head.target.head?.all fun b => decide (b ∈ user.chantypes) then head.target else source.nick

/-- What is sent for a text. -/
def TalkText.sent (m : TalkText) (cipher : TalkCipher) (c : CStr) : CStr := m.lead ++ cipher.tag ++ c

theorem TalkCipher.length_tag (cipher : TalkCipher) : cipher.tag.length = 3 := by
  cases cipher with
  | blowfish => decide
  | idea => decide

/-- No tag starts like an action. -/
theorem TalkCipher.tag_append (cipher : TalkCipher) (c : CStr) :
    (cipher.tag ++ c).head? ≠ some 1 ∧ ¬ act <+: cipher.tag ++ c ∧ ¬ ascii "[N]" <+: cipher.tag ++ c := by
  have hopen : ∃ b r, cipher.tag = 91 :: b :: r ∧ b ≠ 78 := by
    cases cipher with
    | blowfish => exact ⟨66, ascii "]", by decide, by decide⟩
    | idea => exact ⟨73, ascii "]", by decide, by decide⟩
  rcases hopen with ⟨b, r, htag, hb⟩
  have hact : act = 1 :: ascii "ACTION " := rfl
  have hnone : ascii "[N]" = 91 :: 78 :: ascii "]" := by decide
  rw [htag, hact, hnone]
  refine ⟨?_, ?_, ?_⟩
  · rintro ⟨⟩
  · rintro ⟨t, ⟨⟩⟩
  · rintro ⟨t, ht⟩
    have htail := (List.cons.inj ht).2
    exact hb (List.cons.inj htail).1.symm

/-- The tag chooses the cipher. -/
theorem TalkCipher.tag_decrypt (cipher : TalkCipher) (wrong : Bool) (c key : CStr) :
    (if TalkCipher.blowfish.tag <+: cipher.tag ++ c then
        some (TalkCipher.blowfish.stringdecrypt wrong ((cipher.tag ++ c).drop 3) key)
      else if TalkCipher.idea.tag <+: cipher.tag ++ c then
        some (TalkCipher.idea.stringdecrypt wrong ((cipher.tag ++ c).drop 3) key)
      else none) = some (cipher.stringdecrypt wrong c key) := by
  have hdrop : (cipher.tag ++ c).drop 3 = c := by
    rw [← cipher.length_tag, List.drop_left]
  rw [hdrop]
  cases cipher with
  | blowfish =>
      rw [if_pos (List.prefix_append _ _)]
  | idea =>
      have hother : ¬ TalkCipher.blowfish.tag <+: TalkCipher.idea.tag ++ c := by
        have htags : TalkCipher.blowfish.tag = [91, 66, 93] ∧ TalkCipher.idea.tag = [91, 73, 93] := by decide
        rw [htags.1, htags.2]
        rintro ⟨t, ⟨⟩⟩
      rw [if_neg hother, if_pos (List.prefix_append _ _)]

/-- An action is seen at the start of what was sent, with anything behind it. -/
theorem TalkText.sent_spec (m : TalkText) (cipher : TalkCipher) (c rest : CStr) :
    ((m.sent cipher c).head? = some 1 ↔ m.action = true) ∧
      (act <+: m.sent cipher c ++ rest ↔ m.action = true) ∧ ¬ ascii "[N]" <+: m.sent cipher c := by
  rcases cipher.tag_append c with ⟨hhead, _, hnone⟩
  have hact := (cipher.tag_append (c ++ rest)).2.1
  rw [TalkText.sent, TalkText.lead]
  cases m.action with
  | false =>
      simp only [Bool.false_eq_true, if_false, List.nil_append, iff_false]
      rw [List.append_assoc]
      exact ⟨hhead, hact, hnone⟩
  | true =>
      simp only [if_true, iff_true]
      refine ⟨rfl, ?_, ?_⟩
      · rw [List.append_assoc, List.append_assoc]
        exact List.prefix_append _ _
      · have hopen : ascii "[N]" = 91 :: ascii "N]" := by decide
        have hstart : act = 1 :: ascii "ACTION " := rfl
        rw [hopen, hstart]
        rintro ⟨t, ⟨⟩⟩

/-- The tag stays in front of the text. -/
theorem decryptLine_sent (ircbuf : CStr) {irc : Parsed} (hcontent : irc.irccontent = m.sent cipher c) {rest : CStr}
    (hcut : cutStr (m.sent cipher c) ircbuf = some (header, rest)) (hfits : TalkFits header m key)
    (hc : Ciphered cipher (m.checked key) key c) :
    (decryptLine user key ircbuf irc).map Prod.fst =
      some (header ++ m.lead ++ cipher.tag ++ m.checked key ++ [CR, LF]) := by
  rcases m.sent_spec cipher c [] with ⟨hhead, hstart, _⟩
  rw [List.append_nil] at hstart
  have hafter := (m.sent_spec cipher c rest).2.1
  have hfirst := hfits.header_lt
  have hsecond := hfits.text_lt
  have htag := cipher.length_tag
  have hpt : (if (m.sent cipher c).head? = some 1 then
      if act <+: m.sent cipher c then some ((m.sent cipher c).drop act.length) else none
      else some (m.sent cipher c)) = some (cipher.tag ++ c) := by
    rw [TalkText.sent, TalkText.lead] at hhead hstart ⊢
    by_cases hm : m.action = true
    · rw [if_pos hm] at hhead hstart ⊢
      rw [if_pos (hhead.2 hm), if_pos (hstart.2 hm), List.append_assoc, List.drop_left]
    · rw [if_neg hm] at hhead ⊢
      rw [if_neg (fun h => hm (hhead.1 h)), List.nil_append]
  have hsplit : ircbuf = header ++ m.sent cipher c ++ rest := (cutStr_first hcut).1
  have hskip : (if act <+: m.sent cipher c ++ rest then act.length else 0) = m.lead.length := by
    rw [TalkText.lead]
    by_cases hm : m.action = true
    · rw [if_pos (hafter.2 hm), if_pos hm]
    · rw [if_neg (fun h => hm (hafter.1 h)), if_neg hm]
      rfl
  have hdrop : ircbuf.drop header.length = m.sent cipher c ++ rest := by
    rw [hsplit, List.append_assoc, List.drop_left]
  have htake : ircbuf.take (header.length + m.lead.length + 3) = header ++ m.lead ++ cipher.tag := by
    have hparts : ircbuf = header ++ m.lead ++ cipher.tag ++ (c ++ rest) := by
      rw [hsplit, TalkText.sent]
      simp
    have hcount : header.length + m.lead.length + 3 = (header ++ m.lead ++ cipher.tag).length := by
      rw [List.length_append, List.length_append, htag]
    rw [hparts, hcount, List.take_left]
  have hbuf : clip 800 (header ++ m.lead ++ cipher.tag) = header ++ m.lead ++ cipher.tag := by
    apply clip_eq_self
    rw [List.length_append, List.length_append, htag]
    exact hfirst
  have hline : clip 8192 (header ++ m.lead ++ cipher.tag ++ m.checked key ++ [CR, LF]) =
      header ++ m.lead ++ cipher.tag ++ m.checked key ++ [CR, LF] := by
    apply clip_eq_self
    simp only [List.length_append, htag, List.length_cons, List.length_nil]
    omega
  simp only [decryptLine, hcontent]
  rw [hpt, Option.bind_some, cipher.tag_decrypt, hc.decrypted user.wrong]
  simp only [hcut]
  rw [hdrop, hskip, htake, hbuf, hline]
  rfl

theorem checkcrypt_incoming (hkey : user.keyFor (source.partner user head) = some key)
    (hc : Ciphered cipher (m.checked key) key c) (hfits : TalkFits (source.header head) m key) (t : Terminator)
    (hthere : FoundThere (source.header head) (m.sent cipher c) t.bytes) :
    (checkcrypt user (source.header head ++ m.sent cipher c ++ t.bytes)
        (parse (source.header head ++ m.sent cipher c ++ t.bytes))).map Prod.fst =
      some (source.header head ++ m.lead ++ cipher.tag ++ m.checked key ++ [CR, LF]) := by
  have hheader := hfits.header_lt
  have htext := hfits.text_lt
  have hleadlen : m.lead.length ≤ 8 := by
    have hlen : act.length = 8 := by decide
    rw [TalkText.lead]
    split
    · rw [hlen]
    · exact Nat.zero_le 8
  have hsent : Inline (m.sent cipher c) := by
    have hlead : Inline m.lead := by
      rw [TalkText.lead]
      split
      · decide
      · decide
    have htag : Inline cipher.tag := by
      cases cipher with
      | blowfish => decide
      | idea => decide
    exact (hlead.append htag).append hc.inline
  have hlen : (m.sent cipher c).length + 1 < 6000 := by
    have hshort := hc.short
    rw [TalkText.sent, List.length_append, List.length_append, cipher.length_tag]
    omega
  rcases parse_incoming source head hsent (by omega) hlen t with ⟨hto, hcontent, hnick⟩
  have hcolon : (source.header head ++ m.sent cipher c ++ t.bytes).head? = some COLON := rfl
  rcases Talker.keyFor_spec hkey with ⟨pt2, hfind, hdecrypt⟩
  have hmatch : tomatch user (source.header head ++ m.sent cipher c ++ t.bytes)
      (parse (source.header head ++ m.sent cipher c ++ t.bytes)) = source.partner user head := by
    rw [tomatch, if_pos hcolon, hto, hnick, TalkSource.partner]
  rw [checkcrypt, hcontent, if_neg (m.sent_spec cipher c []).2.2, hmatch, hfind]
  simp only
  rw [hdecrypt, Option.bind_some, if_pos hcolon]
  exact decryptLine_sent _ hcontent hthere hfits hc

/-- With a key that he has, a user can cipher a text that fits. -/
theorem Talker.ciphered {name : CStr} (hkey : user.keyFor name = some key)
    (hidea : user.cipher = .idea → 15 ≤ key.length) (hfits : TalkFits header m key) :
    ∃ c, Ciphered user.cipher (m.checked key) key c := by
  have htext := hfits.text_lt
  have hkeyfits : user.cipher.KeyFits key := by
    have hshort := Talker.length_keyFor_lt hkey
    cases hcipher : user.cipher with
    | blowfish => exact hshort
    | idea => exact ⟨hidea hcipher, hshort⟩
  exact user.cipher.ciphered (m.checked_inline key) (by omega) (m.checked_ne_nil key) hkeyfits

/-- From the sender to every receiver who has the key. -/
theorem checkcrypt_delivered (sender : Talker) (head : TalkHeader) (m : TalkText) (key : CStr) (t : Terminator)
    (hkey : sender.keyFor head.target = some key) (hidea : sender.cipher = .idea → 15 ≤ key.length)
    (hfits : TalkFits head.text m key) (hthere : FoundThere head.text m.content t.bytes) :
    ∃ c, sender.cipher.stringencrypt (m.checked key) key = some c ∧
      (checkcrypt sender (head.text ++ m.content ++ t.bytes)
          (parse (head.text ++ m.content ++ t.bytes))).map Prod.fst =
        some (head.text ++ m.sent sender.cipher c ++ [CR, LF]) ∧
      ∀ (receiver : Talker) (source : TalkSource) (t' : Terminator),
        receiver.keyFor (source.partner receiver head) = some key →
        TalkFits (source.header head) m key →
        FoundThere (source.header head) (m.sent sender.cipher c) t'.bytes →
          (checkcrypt receiver (source.header head ++ m.sent sender.cipher c ++ t'.bytes)
              (parse (source.header head ++ m.sent sender.cipher c ++ t'.bytes))).map Prod.fst =
            some (source.header head ++ m.lead ++ sender.cipher.tag ++ m.checked key ++ [CR, LF]) := by
  rcases Talker.ciphered hkey hidea hfits with ⟨c, hc⟩
  refine ⟨c, hc.encrypted, ?_, ?_⟩
  · have hline := checkcrypt_outgoing hkey hc hfits t hthere
    rw [hline, TalkText.sent, ← List.append_assoc, ← List.append_assoc]
  · intro receiver source t' hpartner hfits' hthere'
    exact checkcrypt_incoming hpartner hc hfits' t' hthere'

end Incoming

/-! ## One channel -/

/-- A text is found where it stands when its first byte is not in front of it. -/
theorem foundThere_of_head {header p rest : CStr} {b : Byte} (h : b ∉ header) : FoundThere header (b :: p) rest := by
  rw [FoundThere]
  induction header with
  | nil =>
      exact cutStr_append (b :: p) rest
  | cons x header ih =>
      rw [List.mem_cons, not_or] at h
      have hno : ¬ b :: p <+: x :: (header ++ b :: p ++ rest) := by
        rintro ⟨r, hr⟩
        exact h.1 (List.cons.inj hr).1
      rw [List.cons_append, List.cons_append, cutStr, if_neg hno, ih h.2]
      rfl

/-- With the key `secret` for `#a`. -/
def talkUser : Talker where
  cipher := .blowfish
  salt := buildSalt
  encrypt := [ascii "#a;secret"]
  chantypes := ascii "#"

theorem talkHeader_ok : (ucase (ascii "PRIVMSG") = ascii "PRIVMSG" ∨ ucase (ascii "PRIVMSG") = ascii "NOTICE") ∧
    Word (ascii "#a") ∧ COLON ∉ ascii "#a" ∧ (ascii "#a").head? ≠ some QUOTE := by decide

def talkHeader : TalkHeader where
  command := ascii "PRIVMSG"
  target := ascii "#a"
  talk := talkHeader_ok.1
  word := talkHeader_ok.2.1
  colon := talkHeader_ok.2.2.1
  quote := talkHeader_ok.2.2.2

theorem hello_ok :
    Inline (ascii "hello") ∧ (ascii "hello").head? ≠ some 1 ∧ ¬ ascii "[N]" <+: ascii "hello" := by
  decide

def hello : TalkText where
  action := false
  text := ascii "hello"
  inline := hello_ok.1
  plain := fun _ => hello_ok.2

theorem shortTalk_ok : Inline (ascii "a") ∧ (ascii "a").head? ≠ some 1 ∧ ¬ ascii "[N]" <+: ascii "a" := by decide

def shortTalk : TalkText where
  action := false
  text := ascii "a"
  inline := shortTalk_ok.1
  plain := fun _ => shortTalk_ok.2

theorem talkSource_userhost : Userhost (ascii "ann!a@h") (ascii "ann") (ascii "a") (ascii "h") where
  eq := by decide
  nick := by decide
  ident := by decide
  host := by decide

theorem talkSource_word : Word (ascii "ann!a@h") ∧ (ascii "ann!a@h").length < 300 := by decide

def talkSource : TalkSource where
  sender := ascii "ann!a@h"
  nick := ascii "ann"
  ident := ascii "a"
  host := ascii "h"
  userhost := talkSource_userhost
  word := talkSource_word.1
  short := talkSource_word.2

theorem hello_fits : TalkFits talkHeader.text hello (ascii "secret") where
  header_lt := by decide +kernel
  text_lt := by decide +kernel

theorem hello_fits_delivered : TalkFits (talkSource.header talkHeader) hello (ascii "secret") where
  header_lt := by decide +kernel
  text_lt := by decide +kernel

theorem talkUser_key : talkUser.keyFor talkHeader.target = some (ascii "secret") ∧
    talkUser.keyFor (talkSource.partner talkUser talkHeader) = some (ascii "secret") := by decide +kernel

/-- The text that is sent starts with a byte that is not in front of it. -/
theorem hello_found (c : CStr) :
    FoundThere (talkSource.header talkHeader) (hello.sent talkUser.cipher c) Terminator.crlf.bytes := by
  have hsent : hello.sent talkUser.cipher c = 91 :: (ascii "B]" ++ c) := rfl
  have hhead : 91 ∉ talkSource.header talkHeader := by decide +kernel
  rw [hsent]
  exact foundThere_of_head hhead

theorem checkcrypt_delivered_hello :
    ∃ c, (checkcrypt talkUser (talkHeader.text ++ hello.content ++ Terminator.crlf.bytes)
          (parse (talkHeader.text ++ hello.content ++ Terminator.crlf.bytes))).map Prod.fst =
        some (talkHeader.text ++ hello.sent talkUser.cipher c ++ [CR, LF]) ∧
      (checkcrypt talkUser (talkSource.header talkHeader ++ hello.sent talkUser.cipher c ++ Terminator.crlf.bytes)
          (parse (talkSource.header talkHeader ++ hello.sent talkUser.cipher c ++ Terminator.crlf.bytes))).map
            Prod.fst =
        some (ascii ":ann!a@h PRIVMSG #a :[B]hello <646>\r\n") := by
  have htext : talkSource.header talkHeader ++ hello.lead ++ talkUser.cipher.tag ++
      hello.checked (ascii "secret") ++ [CR, LF] = ascii ":ann!a@h PRIVMSG #a :[B]hello <646>\r\n" := by
    decide +kernel
  rcases checkcrypt_delivered talkUser talkHeader hello (ascii "secret") .crlf talkUser_key.1
    (fun h => by cases h) hello_fits (by decide +kernel) with ⟨c, _, hline, hreceived⟩
  have hback := hreceived talkUser talkSource .crlf talkUser_key.2 hello_fits_delivered (hello_found c)
  rw [htext] at hback
  exact ⟨c, hline, hback⟩

/-- A text with the tag for none is sent as it is; one that also stands in the target is looked for there; and what is
received has the tag in front. -/
theorem checkcrypt_hello_tagged :
    (checkcrypt talkUser (ascii "PRIVMSG #a :[N]hello") (parse (ascii "PRIVMSG #a :[N]hello"))).map Prod.fst =
        some (ascii "PRIVMSG #a :[N]hello") ∧
      (∃ c, (checkcrypt talkUser (ascii "PRIVMSG #a :a") (parse (ascii "PRIVMSG #a :a"))).map Prod.fst =
        some (ascii "PRIVMSG #[B]" ++ c ++ [CR, LF])) ∧
      ∃ c, (checkcrypt talkUser (talkHeader.text ++ hello.content ++ Terminator.crlf.bytes)
            (parse (talkHeader.text ++ hello.content ++ Terminator.crlf.bytes))).map Prod.fst =
          some (talkHeader.text ++ hello.sent talkUser.cipher c ++ [CR, LF]) ∧
        (checkcrypt talkUser (talkSource.header talkHeader ++ hello.sent talkUser.cipher c ++ Terminator.crlf.bytes)
            (parse (talkSource.header talkHeader ++ hello.sent talkUser.cipher c ++ Terminator.crlf.bytes))).map
              Prod.fst ≠
          some (talkSource.header talkHeader ++ hello.checked (ascii "secret") ++ [CR, LF]) := by
  refine ⟨by decide +kernel, ?_, ?_⟩
  · have hfits : TalkFits (ascii "PRIVMSG #") shortTalk (ascii "secret") := ⟨by decide +kernel, by decide +kernel⟩
    rcases Talker.ciphered talkUser_key.1 (fun h => by cases h) hfits with ⟨c, hc⟩
    have hcut : cutStr shortTalk.content (ascii "PRIVMSG #a :a") = some (ascii "PRIVMSG #", ascii " :a") := by
      decide +kernel
    have hparsed : (parse (ascii "PRIVMSG #a :a")).irccontent = shortTalk.content ∧
        ¬ ascii "[N]" <+: shortTalk.content ∧
        findkey (ucase (clip 800 (tomatch talkUser (ascii "PRIVMSG #a :a") (parse (ascii "PRIVMSG #a :a")))))
          talkUser.encrypt = some (ascii "secret") ∧
        decryptit talkUser.salt (ascii "secret") = some (ascii "secret") ∧
        (ascii "PRIVMSG #a :a").head? ≠ some COLON := by
      decide +kernel
    rcases hparsed with ⟨hcontent, hnone, hfind, hdecrypt, hcolon⟩
    have hline := encryptLine_content (ascii "secret") (ascii "PRIVMSG #a :a") hcontent hcut hfits hc
    have hstart : ascii "PRIVMSG #" ++ shortTalk.lead ++ talkUser.cipher.tag = ascii "PRIVMSG #[B]" := by decide +kernel
    refine ⟨c, ?_⟩
    rw [checkcrypt, hcontent, if_neg hnone, hfind]
    simp only
    rw [hdecrypt, Option.bind_some, if_neg hcolon, hline, hstart]
  · rcases Talker.ciphered talkUser_key.1 (fun h => by cases h) hello_fits with ⟨c, hc⟩
    refine ⟨c, ?_, ?_⟩
    · have hline := checkcrypt_outgoing talkUser_key.1 hc hello_fits .crlf (by decide +kernel)
      rw [hline, TalkText.sent, ← List.append_assoc, ← List.append_assoc]
    · rw [checkcrypt_incoming talkUser_key.2 hc hello_fits_delivered .crlf (hello_found c)]
      decide +kernel

end PsyBnc
