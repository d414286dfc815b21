import PsyBnc.Crypt
import PsyBnc.Parse.Model
import PsyBnc.StringList.Slots

/-!
# The DCC bots of a user (`p_dcc.c`)

The bots of a user are a list of links in memory, and the entries `ENTRY0`, `ENTRY1`, … of the section
`DCC` of the user's file.  `adddcc` and `erasedcc` change both, `loaddccs` makes the first of the second.
-/

namespace PsyBnc

open CLib

/-- What is kept of a bot, of `struct datalinkt`. -/
structure DccBot where
  name : CStr
  user : CStr
  host : CStr
  pass : CStr
  port : Int
  deriving DecidableEq

/-- The configuration, and the bots of the user in memory. -/
structure DccState where
  conf : Conf
  dcc : List DccBot

/-- `lngtxt(291)`, `lngtxt(298)` and the like: `"ENTRY%d"`. -/
def dccEntry (i : Nat) : CStr := clip 30 (ascii "ENTRY" ++ dec i)

/-- The loop of `%s` over a text in the buffer that is printed to: it prints what stands at `i`, and so on,
for `n` bytes. -/
def printFrom : Nat → Nat → CStr → CStr
  | 0, _, out => out
  | n + 1, i, out => printFrom n (i + 1) (out ++ [out.getD i 0])

/-- `lngtxt(287)` up to the last `%s`. -/
def dccNames (bot : DccBot) : CStr := bot.name ++ SP :: (bot.user ++ [SP])

/-- `lngtxt(287)`: `"%s %s %s"`, printed to `buf`, which holds the password. -/
def dccHead (salt : Salt) (bot : DccBot) (buf : CStr) : CStr :=
  let out := dccNames bot
  if buf.head? = some PLUS then
    -- `cryptit` gives back `buf`, which holds the names by now, and behind them the rest of the password
    clip 400 (printFrom (out ++ buf.drop out.length).length 0 out)
  else clip 400 (out ++ cryptit salt buf)

/-- `lngtxt(288)`: `"%s:%d\n"`. -/
def dccTail (bot : DccBot) : CStr := clip 400 (bot.host ++ COLON :: (decInt bot.port ++ [LF]))

/-- `adddcc`; the bot goes to the end of the list. -/
def adddcc (salt : Salt) (usern : Nat) (host : CStr) (port : Int) (luser pass name : CStr) (noini : Bool)
    (s : DccState) : Option DccState :=
  let afile := clip 30 (userFile usern ++ ascii ".DCC")
  let bot : DccBot := ⟨clip 64 name, clip 64 luser, clip 64 host, clip 64 pass, port⟩
  let dcc := s.dcc ++ [bot]
  if noini then some { s with dcc := dcc }
  else
    (writelist (dccHead salt bot (clip 400 pass)) (dccTail bot) afile ⟨s.conf, []⟩).map fun written =>
      { conf := written.conf, dcc := dcc }

/-- The parts of an entry that `loaddccs` reads. -/
structure DccParts where
  npt : CStr
  upt : CStr
  ppt : CStr
  hpt : CStr
  spt : CStr

def dccParts (value : CStr) : Option DccParts :=
  match cutAt SP value with
  | none => none
  | some (npt, upt) =>
      match cutAt SP upt with
      | none => none
      | some (upt, ppt) =>
          match cutAt SEMICOLON ppt with
          | none => none
          | some (ppt, hpt) =>
              match cutLast COLON hpt with
              | none => none
              | some (hpt, spt) => some ⟨npt, upt, ppt, hpt, spt⟩

/-- The body of the loop in `loaddccs`. -/
def loaddcc (salt : Salt) (usern : Nat) (s : DccState) (cnt : Nat) : Option DccState :=
  match getini (ascii "DCC") (dccEntry cnt) (userFile usern) s.conf with
  | none => some s
  | some value =>
      match dccParts value with
      | none => some s
      | some p =>
          (decryptit salt p.ppt).bind fun pass =>
            adddcc salt usern p.hpt (atoi p.spt) p.upt pass p.npt true s

def loaddccs (salt : Salt) (usern : Nat) (s : DccState) : Option DccState :=
  (List.range 20).foldlM (loaddcc salt usern) s

/-- The loop of `erasedcc`: the entries from number `cnt` on move to the number before.  With too little
fuel there is no result. -/
def moveEntries (usern : Nat) : Nat → Nat → Conf → Option Conf
  | fuel, cnt, conf =>
      match getini (ascii "DCC") (dccEntry cnt) (userFile usern) conf with
      | none => some conf
      | some value =>
          match fuel with
          | 0 => none
          | fuel + 1 =>
              (writeini (ascii "DCC") (dccEntry cnt) (userFile usern) none conf).bind fun conf =>
                (writeini (ascii "DCC") (dccEntry (cnt - 1)) (userFile usern) (some value) conf).bind
                  (moveEntries usern fuel (cnt + 1))

/-- `erasedcc`; the session of a connected bot is closed first. -/
def erasedcc (usern : Nat) (dccn : Int) (s : DccState) : Option DccState :=
  if 1 ≤ dccn ∧ dccn ≤ s.dcc.length then
    let cnt := dccn.toNat
    (writeini (ascii "DCC") (dccEntry (cnt - 1)) (userFile usern) none s.conf).bind fun conf =>
      (moveEntries usern s.conf.length cnt conf).map fun conf =>
        { conf := conf, dcc := s.dcc.eraseIdx (cnt - 1) }
  else some s

end PsyBnc
