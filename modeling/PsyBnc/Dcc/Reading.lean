import PsyBnc.Dcc.Bots
import PsyBnc.Inifunc.Fields

/-!
# What is read of a bot's entry

The entry of a bot is its name, its user, the ciphered password, its host and its port.  `loaddccs` reads
the bot from it unless `value[200]` has cut the port, or the password passed for a ciphered one: then the
name and the user are printed again and again in its place.
-/

namespace PsyBnc

open CLib

/-- The bot that `loaddccs` makes of an entry. -/
def readDcc (salt : Salt) (value : CStr) : Option DccBot :=
  (dccParts value).bind fun p =>
    (decryptit salt p.ppt).map fun pass =>
      ⟨clip 64 p.npt, clip 64 p.upt, clip 64 p.hpt, clip 64 pass, atoi p.spt⟩

/-- A field that can be told apart in an entry. -/
def DccField (s : CStr) : Prop := s ≠ [] ∧ (0 : Byte) ∉ s ∧ SP ∉ s ∧ SEMICOLON ∉ s ∧ LF ∉ s ∧ CR ∉ s

instance DccField.decidable (s : CStr) : Decidable (DccField s) :=
  inferInstanceAs (Decidable (s ≠ [] ∧ (0 : Byte) ∉ s ∧ SP ∉ s ∧ SEMICOLON ∉ s ∧ LF ∉ s ∧ CR ∉ s))

/-- What a bot is added with: fields within their declared sizes, and a port. -/
structure DccArgs where
  name : CStr
  user : CStr
  host : CStr
  pass : CStr
  port : Int
  fields : DccField name ∧ DccField user ∧ DccField host ∧ DccField pass
  sizes : name.length < 64 ∧ user.length < 64 ∧ host.length < 400 ∧ pass.length < 20
  int : -2 ^ 31 ≤ port ∧ port < 2 ^ 31

/-- The bot that is kept of them. -/
def DccArgs.bot (x : DccArgs) : DccBot := ⟨x.name, x.user, clip 64 x.host, x.pass, x.port⟩

/-- The first `n` bytes of a text that is repeated without end. -/
def repeated (s : CStr) (n : Nat) : CStr := (List.range n).map fun k => s.getD (k % s.length) 0

/-- What stands in the entry for the password: the ciphered one, or the names over and over. -/
def DccArgs.stored (salt : Salt) (x : DccArgs) : CStr :=
  if x.pass.head? = some PLUS then
    repeated (dccNames x.bot) (max (dccNames x.bot).length x.pass.length)
  else cryptit salt x.pass

/-- The entry up to the `;`. -/
def DccArgs.front (salt : Salt) (x : DccArgs) : CStr :=
  x.name ++ SP :: (x.user ++ SP :: (x.stored salt ++ [SEMICOLON]))

/-- The entry without its line end. -/
def DccArgs.entry (salt : Salt) (x : DccArgs) : CStr :=
  x.front salt ++ (clip 64 x.host ++ COLON :: decInt x.port)

/-- The password does not pass for a ciphered one, unless the names happen to be its cipher, and the port
is not cut; of `0` the digit may be. -/
def DccArgs.Kept (salt : Salt) (x : DccArgs) : Prop :=
  (x.pass.head? = some PLUS → decryptit salt (x.stored salt) = some x.pass) ∧
    ((x.entry salt).length < 200 ∨ (x.port = 0 ∧ (x.entry salt).length = 200))

instance DccArgs.Kept.decidable (salt : Salt) (x : DccArgs) : Decidable (x.Kept salt) :=
  inferInstanceAs (Decidable ((x.pass.head? = some PLUS → decryptit salt (x.stored salt) = some x.pass) ∧
    ((x.entry salt).length < 200 ∨ (x.port = 0 ∧ (x.entry salt).length = 200))))

theorem notMem_decInt {b : Byte} (hdigit : isDigit b = false) (hminus : b ≠ 45) (x : Int) :
    b ∉ decInt x := by
  rw [decInt]
  split
  · rw [List.mem_cons]
    rintro (rfl | hmem)
    · exact hminus rfl
    · exact notMem_dec hdigit hmem
  · exact notMem_dec hdigit

theorem length_decInt_le {x : Int} (h : -2 ^ 31 ≤ x ∧ x < 2 ^ 31) : (decInt x).length ≤ 11 := by
  have hdigits : (dec x.natAbs).length ≤ 10 := (length_dec_le (by decide)).2 (by omega)
  rw [decInt]
  split
  · rw [List.length_cons]
    exact Nat.succ_le_succ hdigits
  · exact Nat.le_succ_of_le hdigits

/-- A number with its line end. -/
theorem atoi_decInt_line (x : Int) : atoi (decInt x ++ [LF]) = x := by
  have hspace : isSpace 45 = false := by decide
  have hline := takeWhile_isDigit_dec x.natAbs (r := []) (by decide : isDigit LF = false)
  rw [decInt]
  split
  · next hneg =>
    rw [List.cons_append, atoi, scanInt, skipSpace_of_head hspace]
    simp only [List.head?_cons, true_or, if_true, List.tail_cons, hline, dec_ne_nil, if_false,
      digitsVal_dec]
    omega
  · rw [atoi, scanInt_dec x.natAbs (by decide)]
    simp only
    omega

theorem encLoop_base (salt : Salt) (s : CStr) (slen i tslt1 tslt2 : Nat) :
    ∀ b ∈ encLoop salt slen i tslt1 tslt2 s, b ∈ base ∨ b = 0 := by
  have hdigit : ∀ n, base.getD n 0 ∈ base ∨ base.getD n 0 = 0 := by
    intro n
    by_cases hn : n < base.length
    · left
      have hget : base.getD n 0 = base[n] := by simp [hn]
      rw [hget]
      exact List.getElem_mem hn
    · right
      simp [List.getElem?_eq_none (Nat.le_of_not_lt hn)]
  induction s generalizing slen i tslt1 tslt2 with
  | nil =>
      intro b hb
      cases hb
  | cons c s ih =>
      intro b hb
      rw [encLoop] at hb
      split at hb
      · cases hb
      · rcases List.mem_cons.1 hb with rfl | hb
        · exact hdigit _
        · rcases List.mem_cons.1 hb with rfl | hb
          · exact hdigit _
          · exact ih _ _ _ _ b hb

/-- A ciphered password can be told apart as well. -/
theorem notMem_cryptit (salt : Salt) {pass : CStr} {b : Byte} (hpass : b ∉ pass) (hbase : b ∉ base)
    (hzero : b ≠ 0) (hplus : b ≠ PLUS) : b ∉ cryptit salt pass := by
  rw [cryptit]
  split
  · exact hpass
  · rw [List.mem_cons]
    rintro (rfl | hmem)
    · exact hplus rfl
    · rcases encLoop_base salt _ _ _ _ _ b hmem with hin | hnul
      · exact hbase hin
      · exact hzero hnul

section Repeated

variable {s : CStr}

@[simp] theorem length_repeated (n : Nat) : (repeated s n).length = n := by
  rw [repeated, List.length_map, List.length_range]

theorem repeated_length (s : CStr) : repeated s s.length = s := by
  apply List.ext_getElem
  · exact length_repeated s.length
  · intro i hi hs
    simp [repeated, Nat.mod_eq_of_lt hs, hs]

theorem repeated_succ (n : Nat) : repeated s (n + 1) = repeated s n ++ [s.getD (n % s.length) 0] := by
  rw [repeated, List.range_succ, List.map_append]
  rfl

/-- The text itself, and then the text again. -/
theorem repeated_add (n : Nat) : repeated s (s.length + n) = s ++ repeated s n := by
  induction n with
  | zero =>
      rw [Nat.add_zero, repeated_length]
      exact (List.append_nil s).symm
  | succ n ih =>
      rw [← Nat.add_assoc, repeated_succ, repeated_succ, ih, Nat.add_mod_left, List.append_assoc]

theorem notMem_repeated {b : Byte} (hs : b ∉ s) (hne : s ≠ []) (n : Nat) : b ∉ repeated s n := by
  intro hmem
  rcases List.mem_map.1 hmem with ⟨k, _, hk⟩
  have hlt : k % s.length < s.length := Nat.mod_lt _ (List.length_pos_of_ne_nil hne)
  have hget : s.getD (k % s.length) 0 = s[k % s.length] := by simp [hlt]
  rw [← hk, hget] at hs
  exact hs (List.getElem_mem hlt)

/-- The loop reads what it has printed one round before. -/
theorem printFrom_repeated (hne : s ≠ []) (n i : Nat) :
    printFrom n i (repeated s (s.length + i)) = repeated s (s.length + i + n) := by
  induction n generalizing i with
  | zero =>
      rfl
  | succ n ih =>
      have hpos := List.length_pos_of_ne_nil hne
      have hread : (repeated s (s.length + i)).getD i 0 = s.getD ((s.length + i) % s.length) 0 := by
        have hlt : i < s.length + i := Nat.lt_add_of_pos_left hpos
        rw [Nat.add_mod_left]
        simp [repeated, hlt]
      have hprinted : repeated s (s.length + i) ++ [s.getD ((s.length + i) % s.length) 0] =
          repeated s (s.length + (i + 1)) := (repeated_succ _).symm
      rw [printFrom, hread, hprinted, ih]
      congr 1
      omega

theorem printFrom_self (hne : s ≠ []) (n : Nat) : printFrom n 0 s = s ++ repeated s n := by
  have hrun := printFrom_repeated hne n 0
  rw [Nat.add_zero, repeated_length, repeated_add] at hrun
  exact hrun

end Repeated

section Reading

variable (salt : Salt) (x : DccArgs)

theorem length_dccNames : (dccNames x.bot).length = x.name.length + x.user.length + 2 := by
  simp only [dccNames, DccArgs.bot, List.length_append, List.length_cons, List.length_nil]
  omega

theorem length_stored_le : (x.stored salt).length ≤ 128 := by
  have hnames := length_dccNames x
  have hcrypt := length_cryptit_le salt x.pass
  rcases x.sizes with ⟨hname, huser, _, hpass⟩
  rw [DccArgs.stored]
  split
  · rw [length_repeated]
    omega
  · omega

theorem length_front_le : (x.front salt).length ≤ 257 := by
  have hstored := length_stored_le salt x
  rcases x.sizes with ⟨hname, huser, _, _⟩
  simp only [DccArgs.front, List.length_append, List.length_cons, List.length_nil]
  omega

theorem notMem_stored : SEMICOLON ∉ x.stored salt := by
  rcases x.fields with ⟨hname, huser, _, hpass⟩
  have hnames : SEMICOLON ∉ dccNames x.bot := by
    have hspace : SEMICOLON ≠ SP := by decide
    simp only [dccNames, DccArgs.bot, List.mem_append, List.mem_cons, List.not_mem_nil, or_false, not_or]
    exact ⟨hname.2.2.2.1, hspace, huser.2.2.2.1, hspace⟩
  rw [DccArgs.stored]
  split
  · exact notMem_repeated hnames (List.append_ne_nil_of_left_ne_nil hname.1 _) _
  · exact notMem_cryptit salt hpass.2.2.2.1 (by decide +kernel) (by decide) (by decide)

/-- What `adddcc` prints to `buf`. -/
theorem dccHead_stored : dccHead salt x.bot x.pass = dccNames x.bot ++ x.stored salt := by
  have hlength := length_dccNames x
  have hstored := length_stored_le salt x
  rcases x.sizes with ⟨hname, huser, _, _⟩
  have hne : dccNames x.bot ≠ [] := List.append_ne_nil_of_left_ne_nil x.fields.1.1 _
  have hfits : clip 400 (dccNames x.bot ++ x.stored salt) = dccNames x.bot ++ x.stored salt := by
    apply clip_eq_self
    rw [List.length_append]
    omega
  have hover : (dccNames x.bot ++ x.pass.drop (dccNames x.bot).length).length =
      max (dccNames x.bot).length x.pass.length := by
    rw [List.length_append, List.length_drop]
    omega
  rw [← hfits, dccHead, DccArgs.stored]
  split
  · rw [hover, printFrom_self hne]
  · rfl

/-- The entry is taken apart where it was put together. -/
theorem dccParts_front (hp : CStr) :
    dccParts (x.front salt ++ hp) = (cutLast COLON hp).map fun q =>
      ⟨x.name, x.user, x.stored salt, q.1, q.2⟩ := by
  rcases x.fields with ⟨hname, huser, _, _⟩
  have hfront : x.front salt ++ hp =
      x.name ++ SP :: (x.user ++ SP :: (x.stored salt ++ SEMICOLON :: hp)) := by
    simp [DccArgs.front]
  rw [hfront, dccParts, cutAt_append hname.2.2.1]
  simp only [cutAt_append huser.2.2.1, cutAt_append (notMem_stored salt x)]
  cases cutLast COLON hp with
  | none => rfl
  | some q => rfl

/-- What is behind the `;`, when `m` bytes of it are read. -/
theorem cutLast_tail_iff {host : CStr} {port : Int} {m : Nat} (hhost : host.length < 64) :
    (∃ q, cutLast COLON ((host ++ COLON :: (decInt port ++ [LF])).take m) = some q ∧
        clip 64 q.1 = host ∧ atoi q.2 = port) ↔
      host.length + (decInt port).length < m ∨
        (port = 0 ∧ host.length + (decInt port).length = m) := by
  have hdigits : COLON ∉ decInt port := notMem_decInt (by decide) (by decide) port
  have hclip : clip 64 host = host := clip_eq_self hhost
  have hpos : 0 < (decInt port).length := List.length_pos_of_ne_nil (decInt_ne_nil port)
  by_cases hshort : m ≤ host.length
  · -- the host is cut
    have htake : (host ++ COLON :: (decInt port ++ [LF])).take m = host.take m :=
      List.take_append_of_le_length hshort
    constructor
    · rintro ⟨q, hq, hsame, _⟩
      rw [htake] at hq
      have hlength := congrArg List.length (cutLast_eq_some hq).1
      rw [List.length_take, List.length_append, List.length_cons] at hlength
      have hself : clip 64 q.1 = q.1 := clip_eq_self (by omega)
      rw [hself] at hsame
      rw [hsame] at hlength
      omega
    · rintro (hlt | ⟨_, heq⟩)
      · omega
      · omega
  -- `k` bytes behind the colon
  rcases Nat.exists_eq_add_of_lt (Nat.lt_of_not_le hshort) with ⟨k, hk⟩
  have htake : (host ++ COLON :: (decInt port ++ [LF])).take m =
      host ++ COLON :: (decInt port ++ [LF]).take k := by
    rw [hk, Nat.add_assoc, List.take_length_add_append, List.take_succ_cons]
  have hcolon : COLON ∉ (decInt port ++ [LF]).take k := by
    intro hmem
    rcases List.mem_append.1 (List.mem_of_mem_take hmem) with hin | hin
    · exact hdigits hin
    · exact absurd (List.mem_singleton.1 hin) (by decide)
  have hread : (∃ q, cutLast COLON ((host ++ COLON :: (decInt port ++ [LF])).take m) = some q ∧
      clip 64 q.1 = host ∧ atoi q.2 = port) ↔ atoi ((decInt port ++ [LF]).take k) = port := by
    rw [htake, cutLast_append hcolon]
    constructor
    · rintro ⟨q, hq, _, hport⟩
      cases hq
      exact hport
    · intro hport
      exact ⟨_, rfl, hclip, hport⟩
  rw [hread]
  by_cases hall : (decInt port).length ≤ k
  · -- all digits are there
    have hport : atoi ((decInt port ++ [LF]).take k) = port := by
      by_cases hend : k = (decInt port).length
      · rw [hend, List.take_left, atoi_decInt]
      · rw [List.take_of_length_le, atoi_decInt_line]
        rw [List.length_append, List.length_singleton]
        omega
    simp only [hport, true_iff]
    left
    omega
  · -- Only `k` digits are read: they give the port just if it is zero and none are needed.
    have hcut : (decInt port ++ [LF]).take k = (decInt port).take k :=
      List.take_append_of_le_length (Nat.le_of_not_le hall)
    rw [hcut]
    by_cases hzero : k = 0
    · rw [hzero, List.take_zero]
      have hnil : atoi [] = 0 := rfl
      rw [hnil]
      constructor
      · intro hport
        right
        refine ⟨hport.symm, ?_⟩
        have hone : (decInt port).length = 1 := by
          rw [← hport]
          rfl
        omega
      · rintro (hlt | ⟨hport, _⟩)
        · omega
        · exact hport.symm
    · have hclipped : (decInt port).take k = clip (k + 1) (decInt port) := rfl
      rw [hclipped, atoi_clip_decInt_iff (by omega)]
      constructor
      · intro hlt
        omega
      · rintro (hlt | ⟨hport, heq⟩)
        · omega
        · rw [hport] at heq hall ⊢
          have hone : (decInt 0).length = 1 := rfl
          omega

/-- A deciphered password that fits is the whole of it. -/
theorem decryptit_stored_iff :
    (∃ pass, decryptit salt (x.stored salt) = some pass ∧ clip 64 pass = x.pass) ↔
      (x.pass.head? = some PLUS → decryptit salt (x.stored salt) = some x.pass) := by
  have hlen := x.sizes.2.2.2
  constructor
  · rintro ⟨pass, hpass, hclip⟩ _
    have hlength := congrArg List.length hclip
    rw [length_clip] at hlength
    have hself : clip 64 pass = pass := clip_eq_self (by omega)
    rw [hpass, ← hclip, hself]
  · intro hplus
    refine ⟨x.pass, ?_, clip_eq_self (Nat.lt_trans hlen (by decide))⟩
    by_cases hhead : x.pass.head? = some PLUS
    · exact hplus hhead
    · rw [DccArgs.stored, if_neg hhead]
      exact decryptit_cryptit salt hhead x.fields.2.2.2.2.1 (Nat.le_of_lt (Nat.lt_trans hlen (by decide)))

/-- An entry that is read has its `;`. -/
theorem semicolon_of_dccParts {value : CStr} {p : DccParts} (h : dccParts value = some p) :
    SEMICOLON ∈ value := by
  rw [dccParts] at h
  split at h
  · cases h
  · next npt upt hname =>
    split at h
    · cases h
    · next upt' ppt huser =>
      split at h
      · cases h
      · next ppt' hpt hpass =>
        rw [(cutAt_eq_some.1 hname).1, (cutAt_eq_some.1 huser).1, (cutAt_eq_some.1 hpass).1]
        simp

/-- Of an entry that is cut before its `;` nothing is read. -/
theorem readDcc_cut (hp : CStr) {n : Nat} (hn : n < (x.front salt).length) :
    readDcc salt ((x.front salt ++ hp).take n) = none := by
  rcases x.fields with ⟨hname, huser, _, _⟩
  have hspace : SEMICOLON ≠ SP := by decide
  have hfront : x.front salt ++ hp =
      (x.name ++ SP :: (x.user ++ SP :: x.stored salt)) ++ SEMICOLON :: hp := by
    simp [DccArgs.front]
  have hcut : n ≤ (x.name ++ SP :: (x.user ++ SP :: x.stored salt)).length := by
    simp only [DccArgs.front, List.length_append, List.length_cons, List.length_nil] at hn ⊢
    omega
  have hno : SEMICOLON ∉ (x.front salt ++ hp).take n := by
    rw [hfront, List.take_append_of_le_length hcut]
    intro hmem
    have hin := List.mem_of_mem_take hmem
    simp only [List.mem_append, List.mem_cons] at hin
    rcases hin with hin | hin | hin | hin | hin
    · exact hname.2.2.2.1 hin
    · exact hspace hin
    · exact huser.2.2.2.1 hin
    · exact hspace hin
    · exact notMem_stored salt x hin
  rw [readDcc]
  cases hparts : dccParts ((x.front salt ++ hp).take n) with
  | none => rfl
  | some p => exact absurd (semicolon_of_dccParts hparts) hno

/-- An entry whose `;` is read is read back if its password and its port are. -/
theorem readDcc_front_iff {n : Nat} (hn : (x.front salt).length ≤ n) :
    readDcc salt ((x.entry salt ++ [LF]).take n) = some x.bot ↔
      (∃ pass, decryptit salt (x.stored salt) = some pass ∧ clip 64 pass = x.pass) ∧
      ∃ q, cutLast COLON ((clip 64 x.host ++ COLON :: (decInt x.port ++ [LF])).take
          (n - (x.front salt).length)) = some q ∧
        clip 64 q.1 = clip 64 x.host ∧ atoi q.2 = x.port := by
  rcases x.sizes with ⟨hname, huser, _, _⟩
  have hvalue : (x.entry salt ++ [LF]).take n = x.front salt ++
      (clip 64 x.host ++ COLON :: (decInt x.port ++ [LF])).take (n - (x.front salt).length) := by
    rw [DccArgs.entry, List.append_assoc, List.take_append, List.take_of_length_le hn]
    simp
  rw [hvalue, readDcc, dccParts_front]
  constructor
  · intro h
    rcases Option.bind_eq_some_iff.1 h with ⟨p, hp, hread⟩
    rcases Option.map_eq_some_iff.1 hp with ⟨q, hq, rfl⟩
    rcases Option.map_eq_some_iff.1 hread with ⟨pass, hdecrypt, hbot⟩
    rw [DccArgs.bot, DccBot.mk.injEq] at hbot
    exact ⟨⟨pass, hdecrypt, hbot.2.2.2.1⟩, q, hq, hbot.2.2.1, hbot.2.2.2.2⟩
  · rintro ⟨⟨pass, hdecrypt, hclip⟩, q, hq, hsame, hport⟩
    rw [hq, Option.map_some, Option.bind_some]
    simp only [hdecrypt, Option.map_some, Option.some.injEq]
    rw [DccArgs.bot, DccBot.mk.injEq]
    exact ⟨clip_eq_self hname, clip_eq_self huser, hsame, hclip, hport⟩

/-- The bot is read back exactly if it is kept. -/
theorem readDcc_iff :
    readDcc salt (clip 200 (x.entry salt ++ [LF])) = some x.bot ↔ x.Kept salt := by
  have hhost : (clip 64 x.host).length < 64 := by
    rw [length_clip]
    omega
  have hlength : (x.entry salt).length =
      (x.front salt).length + (clip 64 x.host).length + 1 + (decInt x.port).length := by
    simp only [DccArgs.entry, List.length_append, List.length_cons]
    omega
  rw [clip, DccArgs.Kept, hlength]
  by_cases hfront : (x.front salt).length ≤ 199
  · rw [readDcc_front_iff salt x hfront, decryptit_stored_iff, cutLast_tail_iff hhost]
    apply and_congr_right
    intro _
    constructor
    · rintro (hlt | ⟨hport, heq⟩)
      · left
        omega
      · exact Or.inr ⟨hport, by omega⟩
    · rintro (hlt | ⟨hport, heq⟩)
      · left
        omega
      · exact Or.inr ⟨hport, by omega⟩
  · -- the `;` itself is cut
    have hnone : readDcc salt ((x.entry salt ++ [LF]).take 199) = none := by
      rw [DccArgs.entry, List.append_assoc]
      exact readDcc_cut salt x _ (Nat.lt_of_not_le hfront)
    rw [hnone]
    constructor
    · intro h
      cases h
    · rintro ⟨_, hlt | ⟨_, heq⟩⟩
      · omega
      · omega

end Reading

end PsyBnc
