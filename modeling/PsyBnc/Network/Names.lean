import PsyBnc.Lib.Words
import PsyBnc.Network.ParentNick

/-!
# The names of a channel (`netnames`)

The names of a 353 reply get the network's token.  The rewritten line is sent and begun again when it is
longer than 500 bytes.
-/

namespace PsyBnc

open CLib

@[reducible] def TILDE : Byte := 126
@[reducible] def HASH : Byte := 35

/-- What `netnames` reads: two fields of `user(usern)` and its parameters. -/
structure NamesUser where
  nick : CStr
  prefixchars : CStr
  netname : CStr
  myparentnick : CStr
  deriving DecidableEq, Repr

/-- `prefixchars` of `netnames`. -/
def NamesUser.chars (u : NamesUser) : CStr := if strmcmp u.netname (ascii "int") then ascii "@+" else u.prefixchars

/-- The text in front of `pt1` after so many steps to the next blank, and the text from there on. -/
def blanksTo : Nat → CStr → Option (CStr × CStr)
  | 0, s => some ([], s)
  | _ + 1, [] => none
  | n + 1, b :: s =>
      match cutAt SP s with
      | none => none
      | some (u, v) => (blanksTo n (SP :: v)).map fun q => (b :: (u ++ q.1), q.2)

/-- The channel gets the token. -/
def namesChannel (netname ircbuf : CStr) : CStr :=
  match blanksTo 4 ircbuf with
  | none => ircbuf
  | some (front, pt1) => clip 8192 (front ++ SP :: HASH :: (netname ++ TILDE :: pt1.tail))

/-- What a round of the loop puts behind `tmpircbuf`; `ts` are the words that follow `t`. -/
def namesPiece (u : NamesUser) (t : CStr) (ts : List CStr) : CStr :=
  let l : CStr := if ts = [] then [] else [SP]
  let flagged : CStr × CStr :=
    match t with
    -- `strchr` finds the terminator, too: `pt` goes on behind it, to the next word or to zeros.
    | [] => ([], unwords SP ts)
    | b :: pt => if b ∈ u.chars then ([b], pt) else ([], b :: pt)
  let flg := flagged.1
  let pt := flagged.2
  if strmncasecmp pt u.nick then flg ++ (u.myparentnick ++ l)
  else if ts = [] then pt
  else flg ++ (u.netname ++ TILDE :: (pt ++ l))

/-- The lines that are sent, and `tmpircbuf` at the end. -/
def namesLoop (u : NamesUser) (nameline : CStr) : List CStr → CStr → List CStr × CStr
  | [], tmpircbuf => ([], tmpircbuf)
  | t :: ts, tmpircbuf =>
      let tmpircbuf := clip 8192 (tmpircbuf ++ namesPiece u t ts)
      if 500 < tmpircbuf.length then
        let rest := namesLoop u nameline ts nameline
        (tmpircbuf :: rest.1, rest.2)
      else namesLoop u nameline ts tmpircbuf

/-- `netnames`: the lines that are sent, and `ircbuf`. -/
def netnames (u : NamesUser) (ircbuf : CStr) : List CStr × CStr :=
  let ircbuf := namesChannel u.netname ircbuf
  match cutStr [SP, COLON] (ircbuf.drop 1) with
  | none => ([], ircbuf)
  | some (front, pt) =>
      let nameline := clip 8192 (ircbuf.take 1 ++ (front ++ [SP, COLON]))
      let rest := namesLoop u nameline (pt.splitOn SP) nameline
      (rest.1, clip 8192 rest.2)

/-! ## Replies -/

/-- A name with its prefix character, if it has one. -/
structure ListedName where
  flag : Option Byte
  nick : CStr
  deriving DecidableEq, Repr

def ListedName.text (n : ListedName) : CStr := n.flag.toList ++ n.nick

/-- The name in the parent's channel. -/
def ListedName.named (u : NamesUser) (n : ListedName) : CStr :=
  n.flag.toList ++
    if strmncasecmp n.nick u.nick then u.myparentnick else u.netname ++ TILDE :: n.nick

/-- A reply: the blank behind the last name may be missing. -/
structure NamesReply where
  source : CStr
  target : CStr
  symbol : CStr
  channel : CStr
  names : List ListedName
  trailing : Bool
  ending : CStr
  deriving DecidableEq, Repr

/-- The names with the blank behind each, and what ends the line. -/
def listed (f : ListedName → CStr) (trailing : Bool) (ending : CStr) : List ListedName → List CStr
  | [] => [ending]
  | n :: ns =>
      if ns = [] ∧ trailing = false then [f n ++ ending]
      else (f n ++ [SP]) :: listed f trailing ending ns

namespace NamesReply

def text (r : NamesReply) : CStr := (listed ListedName.text r.trailing r.ending r.names).flatten

def line (r : NamesReply) : CStr :=
  r.source ++ lead SP (SP :: COLON :: r.text) [ascii "353", r.target, r.symbol, r.channel]

/-- The line up to the names, with the token for the channel. -/
def header (u : NamesUser) (r : NamesReply) : CStr :=
  r.source ++ lead SP [SP, COLON]
    [ascii "353", r.target, r.symbol, HASH :: (u.netname ++ TILDE :: r.channel)]

/-- The lines hold the same names in the same order, each of them whole and in the parent's terms. -/
def Kept (u : NamesUser) (r : NamesReply) (out : List CStr × CStr) : Prop :=
  ∃ lines : List (List CStr), lines.flatten = listed (ListedName.named u) r.trailing r.ending r.names ∧
    out.1 ++ [out.2] = lines.map fun l => r.header u ++ l.flatten

end NamesReply

/-- The reply is one that a server sends. -/
structure NamesReply.WellFormed (u : NamesUser) (r : NamesReply) : Prop where
  source : r.source ≠ [] ∧ SP ∉ r.source
  target : SP ∉ r.target ∧ r.target.head? ≠ some COLON
  symbol : SP ∉ r.symbol ∧ r.symbol.head? ≠ some COLON
  channel : SP ∉ r.channel
  ending : ∀ b ∈ r.ending, b = CR ∨ b = LF
  flags : ∀ n ∈ r.names, ∀ b ∈ n.flag, b ∈ u.chars
  nicks : ∀ n ∈ r.names, NickText n.nick ∧ ∃ b nick, n.nick = b :: nick ∧ b ∉ u.chars

/-- The user has a nick, and the prefix characters are no blanks. -/
structure NamesUser.Sound (u : NamesUser) : Prop where
  nick : NickText u.nick ∧ u.nick ≠ []
  chars : NickText u.chars
  netname : SP ∉ u.netname ∧ u.netname.length < 20
  parentnick : u.myparentnick.length < 64

/-- A blank stands behind the last name, or the last name is the user's own and needs no change but the nick. -/
def NamesReply.Terminated (u : NamesUser) (r : NamesReply) : Prop :=
  r.trailing = true ∨ ∀ n ∈ r.names.getLast?,
    strmncasecmp n.nick u.nick = true ∧ (r.ending = [] ∨ (n.flag = none ∧ n.nick = u.myparentnick))

section Lines

variable {u : NamesUser} {header : CStr} {t : CStr} {ts : List CStr} {g : List CStr} {m : Nat}

/-- What the rounds put into the lines. -/
def piecesOf (u : NamesUser) : List CStr → List CStr
  | [] => []
  | t :: ts => namesPiece u t ts :: piecesOf u ts

/-- As long as all fits, the pieces are handed out to the lines in their order. -/
theorem namesLoop_lines (hheader : header.length ≤ m) (hm : 500 ≤ m)
    (hfits : ∀ p ∈ piecesOf u ts, m + p.length < 8192) (hg : (header ++ g.flatten).length ≤ m) :
    (namesLoop u header ts (header ++ g.flatten)).2.length ≤ m ∧
    ∃ g' lines, g' ++ lines.flatten = piecesOf u ts ∧
      (namesLoop u header ts (header ++ g.flatten)).1 ++ [(namesLoop u header ts (header ++ g.flatten)).2] =
        ((g ++ g') :: lines).map fun l => header ++ l.flatten := by
  induction ts generalizing g with
  | nil => exact ⟨hg, [], [], rfl, by simp [namesLoop]⟩
  | cons t ts ih =>
      rw [piecesOf, List.forall_mem_cons] at hfits
      have hclip : clip 8192 (header ++ g.flatten ++ namesPiece u t ts) =
          header ++ (g ++ [namesPiece u t ts]).flatten := by
        rw [clip_eq_self]
        · simp
        · rw [List.length_append]
          omega
      rw [namesLoop, hclip]
      by_cases hlong : 500 < (header ++ (g ++ [namesPiece u t ts]).flatten).length
      · simp only [hlong, if_true]
        rcases ih hfits.2 (g := []) (by simpa using hheader) with ⟨hlen, g', lines, hpieces, hlines⟩
        rw [List.flatten_nil, List.append_nil] at hlen hlines
        refine ⟨hlen, [namesPiece u t ts], g' :: lines, ?_, ?_⟩
        · rw [List.flatten_cons, hpieces]
          rfl
        · rw [List.cons_append, hlines]
          rfl
      · simp only [hlong, if_false]
        rcases ih hfits.2 (g := g ++ [namesPiece u t ts]) (by omega) with
          ⟨hlen, g', lines, hpieces, hlines⟩
        refine ⟨hlen, namesPiece u t ts :: g', lines, ?_, ?_⟩
        · rw [List.cons_append, hpieces]
          rfl
        · rw [hlines, List.append_assoc]
          rfl

/-- The lines tell what was put into them. -/
theorem lines_flatten {out : List CStr} {lines : List (List CStr)}
    (h : out = lines.map fun l => header ++ l.flatten) :
    (out.map fun l => l.drop header.length).flatten = lines.flatten.flatten := by
  rw [h, List.map_map]
  have hdrop : lines.map ((fun l => l.drop header.length) ∘ fun l => header ++ l.flatten) =
      lines.map List.flatten := by
    apply List.map_congr_left
    intro l _
    simp
  rw [hdrop, List.flatten_flatten]

end Lines

section Words

variable {u : NamesUser} {n : ListedName} {ns : List ListedName} {trailing : Bool} {e t : CStr} {ts : List CStr}

/-- The words of the names, as the blanks cut them. -/
def nameWords (trailing : Bool) (e : CStr) : List ListedName → List CStr
  | [] => [e]
  | n :: ns => if ns = [] ∧ trailing = false then [n.text ++ e] else n.text :: nameWords trailing e ns

theorem nameWords_ne_nil : nameWords trailing e ns ≠ [] := by
  cases ns with
  | nil => simp [nameWords]
  | cons n ns =>
      rw [nameWords]
      split <;> simp

theorem unwords_nameWords :
    unwords SP (nameWords trailing e ns) = (listed ListedName.text trailing e ns).flatten := by
  induction ns with
  | nil => simp [nameWords, listed, unwords]
  | cons n ns ih =>
      rw [nameWords, listed]
      split
      · simp [unwords]
      · rcases List.exists_cons_of_ne_nil (@nameWords_ne_nil ns trailing e) with ⟨w, ws, hws⟩
        rw [hws] at ih ⊢
        rw [List.flatten_cons, ← ih]
        simp [unwords]

/-- A name that can be told from its prefix character. -/
structure Listable (u : NamesUser) (n : ListedName) : Prop where
  flag : ∀ b ∈ n.flag, b ∈ u.chars
  nick : NickText n.nick
  head : ∃ b nick, n.nick = b :: nick ∧ b ∉ u.chars

theorem Listable.text_blankfree (h : Listable u n) (hchars : SP ∉ u.chars) : SP ∉ n.text := by
  rw [ListedName.text, List.mem_append, not_or]
  refine ⟨fun hmem => ?_, h.nick.1⟩
  exact hchars (h.flag SP (Option.mem_toList.1 hmem))

theorem nameWords_blankfree (hns : ∀ n ∈ ns, Listable u n) (hchars : SP ∉ u.chars) (he : SP ∉ e) :
    ∀ w ∈ nameWords trailing e ns, SP ∉ w := by
  induction ns with
  | nil =>
      intro w hw
      rw [List.mem_singleton.1 hw]
      exact he
  | cons n ns ih =>
      rw [List.forall_mem_cons] at hns
      have htext := hns.1.text_blankfree hchars
      rw [nameWords]
      split
      · intro w hw
        rw [List.mem_singleton.1 hw, List.mem_append, not_or]
        exact ⟨htext, he⟩
      · exact List.forall_mem_cons.2 ⟨htext, ih hns.2⟩

/-- The prefix character is cut off, if there is one. -/
theorem namesPiece_text (h : Listable u n) :
    namesPiece u (n.text ++ t) ts =
      if strmncasecmp (n.nick ++ t) u.nick then n.flag.toList ++ (u.myparentnick ++ if ts = [] then [] else [SP])
      else if ts = [] then n.nick ++ t
      else n.flag.toList ++ (u.netname ++ TILDE :: (n.nick ++ t ++ if ts = [] then [] else [SP])) := by
  rcases n with ⟨flag, nick⟩
  cases flag with
  | some b =>
      have hb : b ∈ u.chars := h.flag b rfl
      simp only [ListedName.text, Option.toList_some, List.cons_append, List.nil_append, namesPiece, hb, if_true]
  | none =>
      rcases h.head with ⟨b, nick', rfl, hb⟩
      simp only [ListedName.text, Option.toList_none, List.cons_append, List.nil_append, namesPiece, hb, if_false]

theorem namesPiece_name (h : Listable u n) (hts : ts ≠ []) : namesPiece u n.text ts = n.named u ++ [SP] := by
  have hpiece := @namesPiece_text u n [] ts h
  rw [List.append_nil, List.append_nil, if_neg hts, if_neg hts] at hpiece
  rw [hpiece, ListedName.named]
  split <;> simp

/-- A nick is not followed by the end of a line. -/
theorem strmncasecmp_end (hu : NickText u.nick) (he : ∀ b ∈ e, b = CR ∨ b = LF) (hne : e ≠ []) :
    strmncasecmp (t ++ e) u.nick = false := by
  rw [← Bool.not_eq_true, strmncasecmp_iff]
  intro heq
  rcases List.exists_cons_of_ne_nil hne with ⟨b, e', rfl⟩
  have hmem : toupper b ∈ ucase u.nick := by
    rw [← heq]
    exact List.mem_map_of_mem (by simp)
  rcases List.mem_map.1 hmem with ⟨c, hc, hcb⟩
  rcases he b List.mem_cons_self with rfl | rfl
  · have hcr : c = CR := (toupper_eq_iff (by decide)).1 hcb
    exact hu.2.1 (hcr ▸ hc)
  · have hlf : c = LF := (toupper_eq_iff (by decide)).1 hcb
    exact hu.2.2 (hlf ▸ hc)

theorem namesPiece_ending (hu : u.Sound) (he : ∀ b ∈ e, b = CR ∨ b = LF) : namesPiece u e [] = e := by
  cases e with
  | nil =>
      have hno : strmncasecmp [] u.nick = false := by
        rw [← Bool.not_eq_true, strmncasecmp_iff]
        intro heq
        exact hu.nick.2 (List.map_eq_nil_iff.1 heq.symm)
      simp [namesPiece, unwords, hno]
  | cons b e =>
      have hb : b ∉ u.chars := by
        rcases he b List.mem_cons_self with rfl | rfl
        · exact hu.chars.2.1
        · exact hu.chars.2.2
      have hno := @strmncasecmp_end u (b :: e) [] hu.nick.1 he (by simp)
      rw [List.nil_append] at hno
      simp [namesPiece, hb, hno]

/-- The last name without a blank behind it. -/
def lastPiece (u : NamesUser) (e : CStr) (n : ListedName) : CStr :=
  if strmncasecmp n.nick u.nick = true ∧ e = [] then n.named u else n.nick ++ e

theorem namesPiece_last (hu : u.Sound) (he : ∀ b ∈ e, b = CR ∨ b = LF) (h : Listable u n) :
    namesPiece u (n.text ++ e) [] = lastPiece u e n := by
  have hpiece := @namesPiece_text u n e [] h
  simp only [if_true, List.append_nil] at hpiece
  rw [hpiece, lastPiece]
  by_cases hempty : e = []
  · rw [hempty, List.append_nil]
    by_cases hown : strmncasecmp n.nick u.nick = true
    · rw [if_pos hown, if_pos ⟨hown, rfl⟩, ListedName.named, if_pos hown]
    · rw [if_neg hown, if_neg (fun h => hown h.1)]
  · have hno := @strmncasecmp_end u e n.nick hu.nick.1 he hempty
    rw [hno, if_neg (by simp), if_neg (fun h => hempty h.2)]

/-- What the loop makes of the names. -/
def codedNames (u : NamesUser) (trailing : Bool) (e : CStr) : List ListedName → List CStr
  | [] => [e]
  | n :: ns =>
      if ns = [] ∧ trailing = false then [lastPiece u e n] else (n.named u ++ [SP]) :: codedNames u trailing e ns

theorem piecesOf_nameWords (hu : u.Sound) (he : ∀ b ∈ e, b = CR ∨ b = LF) (hns : ∀ n ∈ ns, Listable u n) :
    piecesOf u (nameWords trailing e ns) = codedNames u trailing e ns := by
  induction ns with
  | nil =>
      rw [nameWords, piecesOf, namesPiece_ending hu he]
      rfl
  | cons n ns ih =>
      rw [List.forall_mem_cons] at hns
      rw [nameWords, codedNames]
      split
      · rw [piecesOf, namesPiece_last hu he hns.1]
        rfl
      · rw [piecesOf, namesPiece_name hns.1 nameWords_ne_nil, ih hns.2]

/-- A name keeps its text at the end of the line only if it is the user's own. -/
theorem lastPiece_eq_iff (h : Listable u n) :
    lastPiece u e n = n.named u ++ e ↔
      strmncasecmp n.nick u.nick = true ∧ (e = [] ∨ (n.flag = none ∧ n.nick = u.myparentnick)) := by
  rw [lastPiece]
  by_cases hown : strmncasecmp n.nick u.nick = true
  · by_cases hempty : e = []
    · simp [hown, hempty]
    · rw [if_neg (fun h => hempty h.2), List.append_left_inj, ListedName.named, if_pos hown]
      rcases n with ⟨flag, nick⟩
      cases flag with
      | some b =>
          refine iff_of_false (fun heq => ?_) (fun hno => ?_)
          · rcases h.head with ⟨c, nick', hnick, hc⟩
            simp only [Option.toList_some, List.cons_append, List.nil_append] at heq hnick
            rw [hnick, List.cons.injEq] at heq
            exact hc (heq.1 ▸ h.flag b rfl)
          · rcases hno.2 with h | h
            · exact hempty h
            · cases h.1
      | none =>
          simp [hown, hempty]
  · refine iff_of_false (fun heq => ?_) (fun hno => hown hno.1)
    rw [if_neg (fun h => hown h.1), List.append_left_inj, ListedName.named, if_neg hown] at heq
    have hlen := congrArg List.length heq
    simp only [List.length_append, List.length_cons] at hlen
    omega

/-- The names are right if the last one is. -/
theorem codedNames_iff (hns : ∀ n ∈ ns, Listable u n) :
    ((codedNames u trailing e ns).flatten = (listed (ListedName.named u) trailing e ns).flatten ↔
        codedNames u trailing e ns = listed (ListedName.named u) trailing e ns) ∧
      (codedNames u trailing e ns = listed (ListedName.named u) trailing e ns ↔
        (trailing = true ∨ ∀ n ∈ ns.getLast?,
          strmncasecmp n.nick u.nick = true ∧ (e = [] ∨ (n.flag = none ∧ n.nick = u.myparentnick)))) := by
  induction ns with
  | nil => simp [codedNames, listed]
  | cons n ns ih =>
      rw [List.forall_mem_cons] at hns
      have hrest := ih hns.2
      rw [codedNames, listed]
      by_cases hlast : ns = [] ∧ trailing = false
      · rw [if_pos hlast, if_pos hlast]
        rcases hlast with ⟨rfl, rfl⟩
        have hiff := @lastPiece_eq_iff u n e hns.1
        constructor
        · simp
        · rw [List.cons.injEq]
          simp only [and_true, hiff, Bool.false_eq_true, false_or, List.getLast?_singleton, Option.mem_def,
            Option.some.injEq, forall_eq']
      · rw [if_neg hlast, if_neg hlast]
        constructor
        · rw [List.flatten_cons, List.flatten_cons, List.append_right_inj, hrest.1]
          simp
        · rw [List.cons.injEq, and_iff_right rfl, hrest.2]
          cases ns with
          | nil =>
              have htrailing : trailing = true := by
                rw [← Bool.not_eq_false]
                exact fun hno => hlast ⟨rfl, hno⟩
              simp [htrailing]
          | cons n' ns => rw [List.getLast?_cons_cons]

end Words

section Reply

variable {u : NamesUser} {r : NamesReply} {n : ListedName} {ns : List ListedName} {trailing : Bool}
  {b : Byte} {e v x t p : CStr} {us vs ws : List CStr} {k : Nat}

theorem blanksTo_words (hx : SP ∉ x) (hus : ∀ w ∈ us, SP ∉ w) :
    blanksTo (us.length + 1) (b :: (x ++ lead SP e (us ++ v :: vs))) =
      some (b :: (x ++ lead SP [] us), lead SP e (v :: vs)) := by
  induction us generalizing b x with
  | nil =>
      rw [List.nil_append, lead_cons, List.length_nil, blanksTo, cutAt_append hx]
      rfl
  | cons w us ih =>
      rw [List.forall_mem_cons] at hus
      rw [List.cons_append, lead_cons, List.length_cons, blanksTo, cutAt_append hx]
      simp only [ih hus.1 hus.2, Option.map_some, lead_cons]

/-- The first ` :` stands behind the header. -/
theorem cutStr_header (hws : ∀ w ∈ ws, SP ∉ w ∧ w.head? ≠ some COLON) :
    cutStr [SP, COLON] (lead SP (SP :: COLON :: t) ws) = some (lead SP [] ws, t) := by
  induction ws with
  | nil =>
      rw [lead_nil, cutStr, if_pos ⟨t, rfl⟩]
      rfl
  | cons w ws ih =>
      rw [List.forall_mem_cons] at hws
      have hno : ¬ [SP, COLON] <+: SP :: (w ++ lead SP (SP :: COLON :: t) ws) := by
        intro hpre
        rw [List.cons_prefix_cons] at hpre
        rcases hpre.2 with ⟨s, hs⟩
        cases w with
        | nil => cases ws <;> cases hs
        | cons c w =>
            rw [List.cons_append, List.cons_append, List.cons.injEq] at hs
            exact hws.1.2 (congrArg some hs.1.symm)
      rw [lead_cons, cutStr, if_neg hno, cutStr_skip hws.1.1, ih hws.2]
      rfl

theorem length_named (hu : u.Sound) : (n.named u).length ≤ n.text.length + 83 := by
  have hnet := hu.netname.2
  have hparent := hu.parentnick
  rw [ListedName.named, ListedName.text]
  split <;> simp only [List.length_append, List.length_cons] <;> omega

theorem length_lastPiece (hu : u.Sound) : (lastPiece u e n).length ≤ (n.text ++ e).length + 83 := by
  rw [lastPiece]
  split
  · have hle := length_named (n := n) hu
    rw [List.length_append]
    omega
  · rw [ListedName.text]
    simp only [List.length_append]
    omega

theorem length_codedNames (hu : u.Sound) (hp : p ∈ codedNames u trailing e ns) :
    p.length ≤ (listed ListedName.text trailing e ns).flatten.length + 83 := by
  induction ns with
  | nil =>
      rw [List.mem_singleton.1 hp, listed]
      simp
  | cons n ns ih =>
      rw [codedNames] at hp
      rw [listed]
      split at hp
      · next hlast =>
        rw [if_pos hlast, List.mem_singleton.1 hp, List.flatten_singleton]
        exact length_lastPiece hu
      · next hlast =>
        rw [if_neg hlast, List.flatten_cons, List.length_append]
        rcases List.mem_cons.1 hp with rfl | hp
        · have hle := length_named (n := n) hu
          simp only [List.length_append, List.length_singleton]
          omega
        · have hle := ih hp
          omega

/-- The line as `netnames` cuts it. -/
theorem netnames_line (hu : u.Sound) (h : r.WellFormed u) (hlen : r.line.length ≤ 7500) :
    netnames u r.line =
      ((namesLoop u (r.header u) (nameWords r.trailing r.ending r.names) (r.header u)).1,
        clip 8192 (namesLoop u (r.header u) (nameWords r.trailing r.ending r.names) (r.header u)).2) := by
  rcases List.exists_cons_of_ne_nil h.source.1 with ⟨b, x, hsource⟩
  have hx : SP ∉ x := fun hmem => h.source.2 (hsource ▸ List.mem_cons_of_mem b hmem)
  have hend : SP ∉ r.ending := by
    intro hmem
    rcases h.ending SP hmem with hsp | hsp
    · cases hsp
    · cases hsp
  have hnet := hu.netname.2
  have hline : r.line = b :: (x ++ lead SP (SP :: COLON :: r.text)
      ([ascii "353", r.target, r.symbol] ++ r.channel :: [])) := by
    rw [NamesReply.line, hsource]
    rfl
  have hwords : ∀ w ∈ [ascii "353", r.target, r.symbol], SP ∉ w := by
    intro w hw
    simp only [List.mem_cons, List.not_mem_nil, or_false] at hw
    rcases hw with rfl | rfl | rfl
    · decide
    · exact h.target.1
    · exact h.symbol.1
  -- The channel gets its token: it is the fifth word.
  have hchannel : namesChannel u.netname r.line = b :: (x ++ lead SP (SP :: COLON :: r.text)
      [ascii "353", r.target, r.symbol, HASH :: (u.netname ++ TILDE :: r.channel)]) := by
    have hblanks := @blanksTo_words b (SP :: COLON :: r.text) r.channel x
      [ascii "353", r.target, r.symbol] [] hx hwords
    have hshort : (b :: (x ++ lead SP (SP :: COLON :: r.text)
        [ascii "353", r.target, r.symbol, HASH :: (u.netname ++ TILDE :: r.channel)])).length < 8192 := by
      rw [hline] at hlen
      simp only [List.length_cons, List.length_append, lead_cons, lead_nil, List.cons_append,
        List.nil_append] at hlen ⊢
      omega
    rw [namesChannel, hline]
    have hfour : blanksTo 4 (b :: (x ++ lead SP (SP :: COLON :: r.text)
        ([ascii "353", r.target, r.symbol] ++ r.channel :: []))) = _ := hblanks
    rw [hfour, ← clip_eq_self hshort]
    simp
  have hheader : ∀ w ∈ [ascii "353", r.target, r.symbol, HASH :: (u.netname ++ TILDE :: r.channel)],
      SP ∉ w ∧ w.head? ≠ some COLON := by
    intro w hw
    simp only [List.mem_cons, List.not_mem_nil, or_false] at hw
    rcases hw with rfl | rfl | rfl | rfl
    · decide
    · exact h.target
    · exact h.symbol
    · refine ⟨?_, fun hcolon => absurd (Option.some.inj hcolon) (by decide)⟩
      simp only [List.mem_cons, List.mem_append, not_or]
      exact ⟨by decide, hu.netname.1, by decide, h.channel⟩
  -- The names are what is behind the first ` :`, which no word of the header has.
  have hcut : cutStr [SP, COLON] ((namesChannel u.netname r.line).drop 1) =
      some (x ++ lead SP []
        [ascii "353", r.target, r.symbol, HASH :: (u.netname ++ TILDE :: r.channel)], r.text) := by
    rw [hchannel, List.drop_succ_cons, List.drop_zero, cutStr_skip hx, cutStr_header hheader]
    rfl
  have hnameline : clip 8192 ((namesChannel u.netname r.line).take 1 ++ (x ++ lead SP []
      [ascii "353", r.target, r.symbol, HASH :: (u.netname ++ TILDE :: r.channel)] ++ [SP, COLON])) =
      r.header u := by
    have hend : b :: (x ++ lead SP [SP, COLON]
        [ascii "353", r.target, r.symbol, HASH :: (u.netname ++ TILDE :: r.channel)]) = r.header u := by
      rw [NamesReply.header, hsource]
      rfl
    rw [hchannel, clip_eq_self]
    · rw [← hend, List.take_succ_cons, List.take_zero, List.append_assoc, ← lead_append_end]
      rfl
    · rw [hline] at hlen
      simp only [List.length_cons, List.length_append, lead_cons, lead_nil, List.cons_append, List.nil_append,
        List.take_succ_cons, List.take_zero, List.length_nil] at hlen ⊢
      omega
  have hlistable : ∀ n ∈ r.names, Listable u n :=
    fun n hn => ⟨h.flags n hn, (h.nicks n hn).1, (h.nicks n hn).2⟩
  have htext : r.text.splitOn SP = nameWords r.trailing r.ending r.names := by
    rw [NamesReply.text, ← unwords_nameWords]
    exact splitOn_unwords nameWords_ne_nil (nameWords_blankfree hlistable hu.chars.1 hend)
  rw [netnames]
  simp only [hcut, hnameline, htext]

end Reply

theorem netnames_kept_iff (u : NamesUser) (r : NamesReply) (hu : u.Sound) (h : r.WellFormed u)
    (hlen : r.line.length ≤ 7500) : r.Kept u (netnames u r.line) ↔ r.Terminated u := by
  have hnet := hu.netname.2
  have hlistable : ∀ n ∈ r.names, Listable u n :=
    fun n hn => ⟨h.flags n hn, (h.nicks n hn).1, (h.nicks n hn).2⟩
  have hpieces := @piecesOf_nameWords u r.names r.trailing r.ending hu h.ending hlistable
  have hheader : (r.header u).length + r.text.length ≤ r.line.length + 21 := by
    rw [NamesReply.header, NamesReply.line]
    simp only [List.length_append, lead_cons, lead_nil, List.length_cons, List.length_nil]
    omega
  have hfits : ∀ p ∈ piecesOf u (nameWords r.trailing r.ending r.names),
      max 500 (r.header u).length + p.length < 8192 := by
    intro p hp
    rw [hpieces] at hp
    have hle := length_codedNames hu hp
    rw [← NamesReply.text] at hle
    omega
  rcases @namesLoop_lines u (r.header u) (nameWords r.trailing r.ending r.names) [] (max 500 (r.header u).length)
    (by omega) (by omega) hfits
    (by rw [List.flatten_nil, List.append_nil]; exact Nat.le_max_right _ _) with ⟨hshort, g, lines, hflat, hlines⟩
  rw [List.flatten_nil, List.append_nil] at hshort hlines
  rw [hpieces] at hflat
  rw [netnames_line hu h hlen, clip_eq_self (by omega), NamesReply.Terminated]
  have hiff := @codedNames_iff u r.names r.trailing r.ending hlistable
  constructor
  · rintro ⟨lines', hflat', hlines'⟩
    apply hiff.2.1
    apply hiff.1.1
    rw [← hflat, ← hflat']
    calc (g ++ lines.flatten).flatten
        = (([] ++ g) :: lines).flatten.flatten := rfl
      _ = _ := (lines_flatten hlines).symm
      _ = lines'.flatten.flatten := lines_flatten hlines'
  · intro hterminated
    refine ⟨g :: lines, ?_, hlines⟩
    rw [← hiff.2.2 hterminated, ← hflat]
    rfl

/-- A reply in which only some servers put a blank behind the last name. -/
def alicesNames (trailing : Bool) : NamesReply where
  source := ascii ":irc"
  target := ascii "alice"
  symbol := ascii "="
  channel := ascii "#c"
  names := [⟨some 64, ascii "bob"⟩, ⟨none, ascii "alice"⟩, ⟨some 43, ascii "carol"⟩]
  trailing := trailing
  ending := [CR, LF]

def aliceOnNet : NamesUser := ⟨ascii "alice", ascii "@+", ascii "net", ascii "ally"⟩

theorem aliceOnNet_sound : aliceOnNet.Sound where
  nick := ⟨⟨by decide, by decide, by decide⟩, by decide⟩
  chars := ⟨by decide, by decide, by decide⟩
  netname := ⟨by decide, by decide⟩
  parentnick := by decide

theorem alicesNames_wellFormed (trailing : Bool) : (alicesNames trailing).WellFormed aliceOnNet where
  source := show ascii ":irc" ≠ [] ∧ SP ∉ ascii ":irc" from ⟨by decide, by decide⟩
  target := show SP ∉ ascii "alice" ∧ (ascii "alice").head? ≠ some COLON from ⟨by decide, by decide⟩
  symbol := show SP ∉ ascii "=" ∧ (ascii "=").head? ≠ some COLON from ⟨by decide, by decide⟩
  channel := show SP ∉ ascii "#c" by decide
  ending := by
    intro b hb
    simp only [alicesNames, List.mem_cons, List.not_mem_nil, or_false] at hb
    exact hb
  flags := by
    intro n hn b hb
    simp only [alicesNames, List.mem_cons, List.not_mem_nil, or_false] at hn
    rcases hn with rfl | rfl | rfl
    · rw [← Option.some.inj hb]
      decide
    · cases hb
    · rw [← Option.some.inj hb]
      decide
  nicks := by
    intro n hn
    simp only [alicesNames, List.mem_cons, List.not_mem_nil, or_false] at hn
    rcases hn with rfl | rfl | rfl
    · exact ⟨⟨by decide, by decide, by decide⟩, 98, ascii "ob", rfl, by decide⟩
    · exact ⟨⟨by decide, by decide, by decide⟩, 97, ascii "lice", rfl, by decide⟩
    · exact ⟨⟨by decide, by decide, by decide⟩, 99, ascii "arol", rfl, by decide⟩

theorem netnames_kept_alice : (alicesNames true).Kept aliceOnNet (netnames aliceOnNet (alicesNames true).line) :=
  (netnames_kept_iff aliceOnNet (alicesNames true) aliceOnNet_sound (alicesNames_wellFormed true) (by decide)).2
    (Or.inl rfl)

/-- `carol` loses the prefix character and gets no token. -/
theorem netnames_loses_last : ¬ ∀ (u : NamesUser) (r : NamesReply), u.Sound → r.WellFormed u →
    r.Kept u (netnames u r.line) := by
  intro hall
  rcases hall aliceOnNet (alicesNames false) aliceOnNet_sound (alicesNames_wellFormed false) with
    ⟨lines, hflat, hlines⟩
  have hout : netnames aliceOnNet (alicesNames false).line =
      ([], (alicesNames false).header aliceOnNet ++ ascii "@net~bob ally carol\r\n") := by
    decide
  have htext := lines_flatten hlines
  rw [hout, hflat] at htext
  exact absurd htext (by decide)

end PsyBnc
