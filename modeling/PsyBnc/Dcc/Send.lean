import PsyBnc.Dcc.Model
import PsyBnc.Lib.Run

/-!
# Sending a file

The sender writes a block when everything that it sent has been acknowledged, and the transfer is
complete when the end of the file was met by then.  The acknowledgements are four bytes each, and
travel in a stream: a read can bring some bytes of one, or several of them at once.
-/

namespace PsyBnc

open CLib

/-! ## The sender -/

/-- A file that is open for reading. -/
structure Fhandle where
  length : Nat
  pos : Nat := 0
  feof : Bool := false
  deriving DecidableEq

/-- `fread(stdcc,1,2048,fhandle)`: the end of the file is noted when a block is not full. -/
def fread (fhandle : Fhandle) : Nat × Fhandle :=
  let rc := min 2048 (fhandle.length - fhandle.pos)
  (rc, { fhandle with pos := fhandle.pos + rc, feof := fhandle.feof || decide (rc < 2048) })

/-- An entry whose file is open. -/
structure Sending extends Dcct where
  fhandle : Fhandle
  deriving DecidableEq

/-- A user who sends a file: his entry, the bytes that were written to the socket, what was logged, and
whether the handler closed the transfer as complete. -/
structure Sender where
  netc : CStr
  instate : Bool
  pdcc : Option Sending
  written : Nat := 0
  log : List CStr := []
  completed : Bool := false
  deriving DecidableEq

/-- The number in the first four bytes of a buffer. -/
def ntohl (buf : List Byte) : Nat := (buf.take 4).foldl (fun n b => n * 256 + b.toNat) 0

/-- `writesock_STREAM` of the block that was read; a `long` has `w` bits. -/
def sendBlock (w : Nat) (s : Sender) (pdcc : Sending) (transferred : Nat) : Sender :=
  let block := fread pdcc.fhandle
  { s with
    pdcc := some { pdcc with
      fhandle := block.2
      lasttransferred := block.1
      transferred := (transferred + block.1) % 2 ^ w }
    written := s.written + block.1 }

/-- `acceptpdccfile`, once the file is open. -/
def acceptpdccfile (w : Nat) (netc acceptip : CStr) (instate : Bool) (pdcc : Dcct) (length : Nat) :
    Sender :=
  let pdcc : Sending :=
    { pdcc with
      type := .sendTo
      delay := 0
      host := clip 200 acceptip
      fhandle := { length := length } }
  sendBlock w { netc := netc, instate := instate, pdcc := some pdcc } pdcc 0

/-- `lngtxt(321)`. -/
def sentMessage (file netc nick : CStr) : CStr :=
  ascii "File " ++ file ++ ascii " sent to " ++ netc ++ nick ++ ascii " completed."

/-- `pdccfilesendack`; the entry goes with `removepdcc`. -/
def pdccfilesendack (w : Nat) (s : Sender) (ircbuf : List Byte) : Sender :=
  match s.pdcc with
  | none => s
  | some pdcc =>
      if pdcc.transferred ≠ ntohl ircbuf then s
      else if pdcc.fhandle.feof then
        { s with
          pdcc := none
          completed := true
          log := if s.instate then s.log ++ [sentMessage pdcc.file s.netc pdcc.nick] else s.log }
      else sendBlock w s pdcc pdcc.transferred

/-! ## The connection -/

/-- An acknowledgement: the number of bytes that were received. -/
def be32 (n : Nat) : List Byte :=
  [UInt8.ofNat (n / 2 ^ 24), UInt8.ofNat (n / 2 ^ 16), UInt8.ofNat (n / 2 ^ 8), UInt8.ofNat n]

/-- The sender, the bytes of acknowledgements that are on their way, and what the receiver has
acknowledged. -/
structure Transfer where
  sender : Sender
  wire : List Byte := []
  acked : Option Nat := none
  deriving DecidableEq

/-- The receiver acknowledges `n` bytes; or `n` bytes of acknowledgements are read into `ircbuf`, where
`stale` is what other sockets left there. -/
inductive Event where
  | ack (n : Nat)
  | read (n : Nat) (stale : List Byte)

/-- Acknowledgements do not decrease, and nothing is acknowledged that was not sent. -/
def Transfer.step (w : Nat) (t : Transfer) : Event → Option Transfer
  | .ack n =>
      if t.acked.getD 0 ≤ n ∧ n ≤ t.sender.written then
        some { t with wire := t.wire ++ be32 n, acked := some n }
      else none
  | .read n stale =>
      if 0 < n ∧ n ≤ 8191 ∧ n ≤ t.wire.length then
        some { t with
          sender := pdccfilesendack w t.sender (t.wire.take n ++ stale)
          wire := t.wire.drop n }
      else none

/-- The transfer of a file after it was accepted. -/
def accepted (w : Nat) (netc acceptip : CStr) (instate : Bool) (pdcc : Dcct) (length : Nat) : Transfer :=
  { sender := acceptpdccfile w netc acceptip instate pdcc length }

/-- A read brings whole acknowledgements, and when one of them acknowledges everything that was sent,
it is the first. -/
def Whole (t : Transfer) : Event → Prop
  | .ack _ => True
  | .read n _ =>
      4 ∣ n ∧ ∀ i < n / 4, (t.wire.drop (4 * i)).take 4 = be32 t.sender.written →
        t.wire.take 4 = be32 t.sender.written

instance Whole.decidable (t : Transfer) : ∀ e : Event, Decidable (Whole t e)
  | .ack _ => isTrue trivial
  | .read _ _ => inferInstanceAs (Decidable (_ ∧ _))

/-! ## Acknowledgements in the stream -/

theorem ntohl_be32 (n : Nat) (rest : List Byte) : ntohl (be32 n ++ rest) = n % 2 ^ 32 := by
  have htake : (be32 n ++ rest).take 4 = be32 n := by
    rw [be32]
    rfl
  rw [ntohl, htake, be32]
  simp only [List.foldl_cons, List.foldl_nil, UInt8.toNat_ofNat']
  omega

theorem be32_congr {a b : Nat} (h : be32 a = be32 b) : a % 2 ^ 32 = b % 2 ^ 32 := by
  rw [← ntohl_be32 a [], ← ntohl_be32 b [], h]

theorem take_flatMap_be32 (ps : List Nat) (i : Nat) :
    (ps.flatMap be32).take (4 * i) = (ps.take i).flatMap be32 := by
  induction ps generalizing i with
  | nil =>
      simp
  | cons p ps ih =>
      cases i with
      | zero =>
          simp
      | succ i =>
          have hlength : (be32 p).length = 4 := rfl
          rw [List.flatMap_cons, List.take_append, hlength, List.take_succ_cons, List.flatMap_cons,
            ← ih i]
          have hall : (be32 p).take (4 * (i + 1)) = be32 p := by
            apply List.take_of_length_le
            rw [hlength]
            omega
          have hrest : 4 * (i + 1) - 4 = 4 * i := by omega
          rw [hall, hrest]

theorem drop_flatMap_be32 (ps : List Nat) (i : Nat) :
    (ps.flatMap be32).drop (4 * i) = (ps.drop i).flatMap be32 := by
  have hsplit : (ps.take i).flatMap be32 ++ (ps.flatMap be32).drop (4 * i) =
      (ps.take i).flatMap be32 ++ (ps.drop i).flatMap be32 := by
    rw [← take_flatMap_be32, List.take_append_drop, take_flatMap_be32, ← List.flatMap_append,
      List.take_append_drop]
  exact List.append_cancel_left hsplit

theorem length_flatMap_be32 (ps : List Nat) : (ps.flatMap be32).length = 4 * ps.length := by
  induction ps with
  | nil =>
      rfl
  | cons p ps ih =>
      have hlength : (be32 p).length = 4 := rfl
      rw [List.flatMap_cons, List.length_append, ih, hlength, List.length_cons]
      omega

/-! ## Runs -/

section Runs

variable {w n : Nat} {t t' : Transfer} {prev : Nat} {pending : List Nat} {pdcc : Sending}

/-- The sender waits for the acknowledgement of its last block, which starts at `prev`; the
acknowledgements `pending` are on their way. -/
structure Waiting (w n : Nat) (t : Transfer) (prev : Nat) (pending : List Nat) (pdcc : Sending) :
    Prop where
  entry : t.sender.pdcc = some pdcc
  completed : t.sender.completed = false
  length : pdcc.fhandle.length = n
  pos : pdcc.fhandle.pos = t.sender.written
  full : 2048 ∣ prev
  start : prev ≤ n
  block : t.sender.written = prev + min 2048 (n - prev)
  feof : pdcc.fhandle.feof = decide (min 2048 (n - prev) < 2048)
  transferred : pdcc.transferred = t.sender.written % 2 ^ w
  wire : t.wire = pending.flatMap be32
  sorted : pending.Pairwise (· ≤ ·)
  range : ∀ p ∈ pending, prev ≤ p ∧ ∃ a ∈ t.acked, p ≤ a
  acked : prev ≤ t.acked.getD 0 ∧ t.acked.getD 0 ≤ t.sender.written
  answer : t.acked = some t.sender.written → t.sender.written ∈ pending

/-- The file was acknowledged to its end, and the transfer is closed. -/
structure Finished (n : Nat) (t : Transfer) : Prop where
  entry : t.sender.pdcc = none
  completed : t.sender.completed = true
  acked : t.acked = some n
  written : t.sender.written = n

/-- What is on its way lies between the last block and its end. -/
theorem Waiting.bounds (h : Waiting w n t prev pending pdcc) {p : Nat} (hp : p ∈ pending) :
    prev ≤ p ∧ p ≤ t.sender.written := by
  rcases h.range p hp with ⟨hlow, a, ha, hle⟩
  have hacked := h.acked.2
  rw [Option.mem_def] at ha
  rw [ha, Option.getD_some] at hacked
  exact ⟨hlow, hle.trans hacked⟩

/-- The four bytes of such an acknowledgement tell whether everything is acknowledged. -/
theorem Waiting.tell (h : Waiting w n t prev pending pdcc) (hw : w = 32 ∨ (32 < w ∧ n < 2 ^ 32))
    {p : Nat} (hp : p ∈ pending) : pdcc.transferred = p % 2 ^ 32 ↔ p = t.sender.written := by
  rcases h.bounds hp with ⟨hlow, hhigh⟩
  have hblock := h.block
  have hstart := h.start
  have hmin := Nat.min_le_left 2048 (n - prev)
  have hmin' := Nat.min_le_right 2048 (n - prev)
  rw [h.transferred]
  rcases hw with rfl | ⟨hw, hn⟩
  · constructor
    · intro heq
      omega
    · intro heq
      rw [heq]
  · have hpow : 2 ^ 32 ≤ 2 ^ w := Nat.pow_le_pow_right (by decide) (by omega)
    have hwritten : t.sender.written < 2 ^ w := by omega
    rw [Nat.mod_eq_of_lt hwritten, Nat.mod_eq_of_lt (show p < 2 ^ 32 by omega)]
    exact eq_comm

theorem Waiting.tell_be32 (h : Waiting w n t prev pending pdcc) {p : Nat} (hp : p ∈ pending) :
    be32 p = be32 t.sender.written ↔ p = t.sender.written := by
  rcases h.bounds hp with ⟨hlow, hhigh⟩
  have hblock := h.block
  have hmin := Nat.min_le_left 2048 (n - prev)
  constructor
  · intro heq
    have hmod := be32_congr heq
    omega
  · rintro rfl
    rfl

/-- The receiver acknowledges. -/
theorem Waiting.ack (h : Waiting w n t prev pending pdcc) {a : Nat} (hlow : t.acked.getD 0 ≤ a)
    (hhigh : a ≤ t.sender.written) :
    Waiting w n { t with wire := t.wire ++ be32 a, acked := some a } prev (pending ++ [a]) pdcc where
  entry := h.entry
  completed := h.completed
  length := h.length
  pos := h.pos
  full := h.full
  start := h.start
  block := h.block
  feof := h.feof
  transferred := h.transferred
  wire := by
    simp only
    rw [h.wire, List.flatMap_append]
    simp
  sorted := by
    rw [List.pairwise_append]
    refine ⟨h.sorted, List.pairwise_singleton _ _, fun p hp b hb => ?_⟩
    rcases h.range p hp with ⟨_, a', ha', hle⟩
    rw [Option.mem_def] at ha'
    rw [ha', Option.getD_some] at hlow
    rw [List.mem_singleton.1 hb]
    exact hle.trans hlow
  range := by
    intro p hp
    refine ⟨?_, a, rfl, ?_⟩
    · rcases List.mem_append.1 hp with hp | hp
      · exact (h.range p hp).1
      · rw [List.mem_singleton.1 hp]
        exact h.acked.1.trans hlow
    · rcases List.mem_append.1 hp with hp | hp
      · rcases h.range p hp with ⟨_, a', ha', hle⟩
        rw [Option.mem_def] at ha'
        rw [ha', Option.getD_some] at hlow
        exact hle.trans hlow
      · exact le_of_eq (List.mem_singleton.1 hp)
  acked := ⟨h.acked.1.trans hlow, hhigh⟩
  answer := by
    intro hall
    rw [← Option.some.inj hall]
    exact List.mem_append_right _ (List.mem_singleton_self a)

/-- Acknowledgements are read that say less. -/
theorem Waiting.read_other (h : Waiting w n t prev pending pdcc) {i : Nat}
    (hno : t.sender.written ∉ pending.take i) :
    Waiting w n { t with wire := t.wire.drop (4 * i) } prev (pending.drop i) pdcc where
  entry := h.entry
  completed := h.completed
  length := h.length
  pos := h.pos
  full := h.full
  start := h.start
  block := h.block
  feof := h.feof
  transferred := h.transferred
  wire := by
    simp only
    rw [h.wire, drop_flatMap_be32]
  sorted := h.sorted.sublist (List.drop_sublist i pending)
  range := fun p hp => h.range p (List.mem_of_mem_drop hp)
  acked := h.acked
  answer := by
    intro hall
    have hmem := h.answer hall
    rw [← List.take_append_drop i pending, List.mem_append] at hmem
    exact hmem.resolve_left hno

/-- Everything is acknowledged, and the end of the file was met. -/
theorem Waiting.finish (h : Waiting w n t prev pending pdcc) (hfeof : pdcc.fhandle.feof = true)
    (hhead : t.sender.written ∈ pending) {ircbuf : List Byte}
    (hack : pdcc.transferred = ntohl ircbuf) (wire : List Byte) :
    Finished n { t with sender := pdccfilesendack w t.sender ircbuf, wire := wire } := by
  have hdone : pdccfilesendack w t.sender ircbuf =
      { t.sender with
        pdcc := none
        completed := true
        log :=
          if t.sender.instate then
            t.sender.log ++ [sentMessage pdcc.file t.sender.netc pdcc.nick]
          else t.sender.log } := by
    rw [pdccfilesendack, h.entry]
    simp only [hack, hfeof, ne_eq, not_true_eq_false, if_false, if_true]
  have hshort : min 2048 (n - prev) < 2048 := by
    rw [h.feof] at hfeof
    exact of_decide_eq_true hfeof
  have hwritten : t.sender.written = n := by
    have hblock := h.block
    have hstart := h.start
    omega
  have hacked : t.acked = some n := by
    rcases h.range _ hhead with ⟨_, a, ha, hle⟩
    have hhigh := h.acked.2
    rw [Option.mem_def] at ha
    rw [ha, Option.getD_some] at hhigh
    rw [ha, ← hwritten]
    exact congrArg some (le_antisymm hhigh hle)
  refine ⟨?_, ?_, hacked, ?_⟩
  · rw [hdone]
  · rw [hdone]
  · rw [hdone]
    exact hwritten

/-- Everything is acknowledged, and the next block is sent: it is not empty. -/
theorem Waiting.next (h : Waiting w n t prev pending pdcc) (hn : n = 0 ∨ n % 2048 ≠ 0)
    (hfeof : pdcc.fhandle.feof = false) {rest : List Nat} (hhead : pending = t.sender.written :: rest)
    {ircbuf : List Byte} (hack : pdcc.transferred = ntohl ircbuf) (i : Nat) :
    ∃ pdcc', Waiting w n
      { t with
        sender := pdccfilesendack w t.sender ircbuf
        wire := t.wire.drop (4 * i) } t.sender.written (pending.drop i) pdcc' := by
  -- The last block was a full one, and no file of the condition ends with one.
  have hfull : 2048 ≤ n - prev := by
    rw [h.feof] at hfeof
    have hno := of_decide_eq_false hfeof
    omega
  have hwritten : t.sender.written = prev + 2048 := by
    rw [h.block, Nat.min_eq_left hfull]
  have hmore : t.sender.written < n := by
    have hdvd := h.full
    omega
  have hnext : pdccfilesendack w t.sender ircbuf = sendBlock w t.sender pdcc pdcc.transferred := by
    rw [pdccfilesendack, h.entry]
    simp only [hack, hfeof, ne_eq, not_true_eq_false, if_false, Bool.false_eq_true]
  have hread : fread pdcc.fhandle = (min 2048 (n - t.sender.written),
      { length := n
        pos := t.sender.written + min 2048 (n - t.sender.written)
        feof := decide (min 2048 (n - t.sender.written) < 2048) }) := by
    rw [fread, h.length, h.pos, hfeof, Bool.false_or]
  have hacked : t.acked.getD 0 = t.sender.written := by
    rcases h.range t.sender.written (by rw [hhead]; exact List.mem_cons_self) with ⟨_, a, ha, hle⟩
    rw [Option.mem_def] at ha
    have hhigh := h.acked.2
    rw [ha, Option.getD_some] at hhigh ⊢
    exact le_antisymm hhigh hle
  rw [hnext, sendBlock, hread]
  refine ⟨_, rfl, h.completed, rfl, rfl, ?_, le_of_lt hmore, rfl, rfl, ?_, ?_, ?_, ?_, ?_, ?_⟩
  · rw [hwritten]
    exact Nat.dvd_add h.full (Nat.dvd_refl 2048)
  · simp only
    rw [h.transferred, Nat.mod_add_mod]
  · simp only
    rw [h.wire, drop_flatMap_be32]
  · exact h.sorted.sublist (List.drop_sublist i pending)
  · intro p hp
    -- what was behind the acknowledgement in the stream is no less
    have hmem := List.mem_of_mem_drop hp
    refine ⟨?_, (h.range p hmem).2⟩
    rw [hhead] at hmem
    rcases List.mem_cons.1 hmem with heq | hrest
    · exact le_of_eq heq.symm
    · have hsorted := h.sorted
      rw [hhead] at hsorted
      exact List.rel_of_pairwise_cons hsorted hrest
  · exact ⟨le_of_eq hacked.symm, by rw [hacked]; exact Nat.le_add_right _ _⟩
  · intro hall
    have hboth := congrArg (Option.getD · 0) hall
    simp only [Option.getD_some, hacked] at hboth
    have hpos : 0 < min 2048 (n - t.sender.written) := by omega
    omega

/-- Between the events of a run. -/
def InProgress (w n : Nat) (t : Transfer) : Prop :=
  (∃ prev pending pdcc, Waiting w n t prev pending pdcc) ∨ Finished n t

/-- A read that meets the condition. -/
theorem Waiting.read (h : Waiting w n t prev pending pdcc)
    (hw : w = 32 ∨ (32 < w ∧ n < 2 ^ 32)) (hn : n = 0 ∨ n % 2048 ≠ 0) {i : Nat} (hi : 0 < i)
    (hlength : i ≤ pending.length) (stale : List Byte)
    (hwhole : ∀ k < i, (t.wire.drop (4 * k)).take 4 = be32 t.sender.written →
      t.wire.take 4 = be32 t.sender.written) :
    InProgress w n
      { t with
        sender := pdccfilesendack w t.sender (t.wire.take (4 * i) ++ stale)
        wire := t.wire.drop (4 * i) } := by
  cases hpending : pending with
  | nil =>
      rw [hpending] at hlength
      exact absurd hi (Nat.not_lt.2 hlength)
  | cons p rest =>
    have hp : p ∈ pending := by
      rw [hpending]
      exact List.mem_cons_self
    have hhead : t.wire.take 4 = be32 p := by
      rw [h.wire, hpending]
      rfl
    -- the number that the handler sees is the first one
    have hseen : ntohl (t.wire.take (4 * i) ++ stale) = p % 2 ^ 32 := by
      cases i with
      | zero =>
          exact absurd hi (Nat.lt_irrefl 0)
      | succ i =>
          rw [h.wire, take_flatMap_be32, hpending, List.take_succ_cons, List.flatMap_cons,
            List.append_assoc, ntohl_be32]
    by_cases hall : p = t.sender.written
    · -- All that was sent has arrived: the transfer is finished, or the next block is sent.
      have hack : pdcc.transferred = ntohl (t.wire.take (4 * i) ++ stale) := by
        rw [hseen]
        exact (h.tell hw hp).2 hall
      cases hfeof : pdcc.fhandle.feof with
      | true =>
          exact Or.inr (h.finish hfeof (hall ▸ hp) hack _)
      | false =>
          rcases h.next hn hfeof (hall ▸ hpending) hack i with ⟨pdcc', hnext⟩
          exact Or.inl ⟨_, _, pdcc', hnext⟩
    · -- Another number changes nothing, and the one that is waited for was not read with it.
      have hother : pdccfilesendack w t.sender (t.wire.take (4 * i) ++ stale) = t.sender := by
        rw [pdccfilesendack, h.entry]
        simp only
        rw [if_pos]
        rw [hseen]
        exact fun heq => hall ((h.tell hw hp).1 heq)
      have hno : t.sender.written ∉ pending.take i := by
        intro hmem
        rcases List.mem_iff_getElem.1 hmem with ⟨k, hk, hget⟩
        rw [List.length_take] at hk
        have hk' : k < pending.length := by omega
        have hgroup : (t.wire.drop (4 * k)).take 4 = be32 t.sender.written := by
          rw [h.wire, drop_flatMap_be32, List.drop_eq_getElem_cons hk']
          rw [List.getElem_take] at hget
          rw [hget]
          rfl
        have hfirst := hwhole k (by omega) hgroup
        rw [hhead] at hfirst
        exact hall ((h.tell_be32 hp).1 hfirst)
      rw [hother]
      exact Or.inl ⟨prev, pending.drop i, pdcc, h.read_other hno⟩

theorem InProgress.step (hw : w = 32 ∨ (32 < w ∧ n < 2 ^ 32)) (hn : n = 0 ∨ n % 2048 ≠ 0)
    {e : Event} (h : InProgress w n t) (hwhole : Whole t e) (hstep : t.step w e = some t') :
    InProgress w n t' := by
  cases e with
  | ack a =>
      rw [Transfer.step] at hstep
      split at hstep
      · next hbounds =>
        cases hstep
        rcases h with ⟨prev, pending, pdcc, hwait⟩ | hdone
        · exact Or.inl ⟨prev, pending ++ [a], pdcc, hwait.ack hbounds.1 hbounds.2⟩
        · -- the whole file is acknowledged once more
          have ha : a = n := by
            have hlow := hbounds.1
            have hhigh := hbounds.2
            rw [hdone.acked, Option.getD_some] at hlow
            rw [hdone.written] at hhigh
            exact le_antisymm hhigh hlow
          exact Or.inr ⟨hdone.entry, hdone.completed, congrArg some ha, hdone.written⟩
      · cases hstep
  | read m stale =>
      rw [Transfer.step] at hstep
      split at hstep
      · next hbounds =>
        cases hstep
        rcases hwhole with ⟨⟨i, rfl⟩, hgroups⟩
        rw [Nat.mul_div_cancel_left i (by decide)] at hgroups
        rcases h with ⟨prev, pending, pdcc, hwait⟩ | hdone
        · have hlength : i ≤ pending.length := by
            have hle := hbounds.2.2
            rw [hwait.wire, length_flatMap_be32] at hle
            omega
          exact hwait.read hw hn (by omega) hlength stale hgroups
        · have hstill : ∀ ircbuf, pdccfilesendack w t.sender ircbuf = t.sender := by
            intro ircbuf
            rw [pdccfilesendack, hdone.entry]
          rw [hstill]
          exact Or.inr ⟨hdone.entry, hdone.completed, hdone.acked, hdone.written⟩
      · cases hstep

/-- The first block. -/
theorem accepted_waiting (w : Nat) (netc acceptip : CStr) (instate : Bool) (pdcc : Dcct) (n : Nat) :
    InProgress w n (accepted w netc acceptip instate pdcc n) := by
  refine Or.inl ⟨0, [], _, rfl, rfl, rfl, rfl, Nat.dvd_zero 2048, Nat.zero_le n, rfl, rfl, ?_, rfl,
    List.Pairwise.nil, by simp, ?_, ?_⟩
  · rfl
  · exact ⟨Nat.zero_le _, Nat.zero_le _⟩
  · intro hall
    cases hall

/-! ### The report -/

/-- A transfer that is not complete has logged nothing, and a complete one its report, if the user is there. -/
structure Reporting (netc : CStr) (instate : Bool) (file nick : CStr) (s : Sender) : Prop where
  token : s.netc = netc
  present : s.instate = instate
  entry : ∀ pdcc ∈ s.pdcc, s.completed = false ∧ pdcc.file = file ∧ pdcc.nick = nick
  log : s.log = if s.completed = true ∧ instate = true then [sentMessage file netc nick] else []

theorem Reporting.ack {netc file nick : CStr} {instate : Bool} {s : Sender}
    (h : Reporting netc instate file nick s) (ircbuf : List Byte) :
    Reporting netc instate file nick (pdccfilesendack w s ircbuf) := by
  rw [pdccfilesendack]
  cases hpdcc : s.pdcc with
  | none =>
      exact h
  | some pdcc =>
      rcases h.entry pdcc hpdcc with ⟨hopen, hfile, hnick⟩
      have hlog : s.log = [] := by
        rw [h.log, hopen, if_neg]
        exact fun hboth => Bool.false_ne_true hboth.1
      dsimp only
      split
      · exact h
      split
      · refine ⟨h.token, h.present, ?_, ?_⟩
        · intro pdcc' hno
          cases hno
        · simp only [h.present, hlog, h.token, hfile, hnick, List.nil_append, true_and]
      · refine ⟨h.token, h.present, ?_, h.log⟩
        intro pdcc' hnext
        cases hnext
        exact ⟨hopen, hfile, hnick⟩

theorem Reporting.step {netc file nick : CStr} {instate : Bool} {e : Event}
    (h : Reporting netc instate file nick t.sender) (hstep : t.step w e = some t') :
    Reporting netc instate file nick t'.sender := by
  cases e with
  | ack a =>
      rw [Transfer.step] at hstep
      split at hstep
      · cases hstep
        exact h
      · cases hstep
  | read m stale =>
      rw [Transfer.step] at hstep
      split at hstep
      · cases hstep
        exact h.ack _
      · cases hstep

end Runs

/-- The handler closes the transfer when all bytes of the file were acknowledged, and not before: in
every run in which the reads bring whole acknowledgements, the one that matters first, for a file that
does not end with a full block.  It is reported then to a user who is there, and only once. -/
theorem dcc_send_complete (w : Nat) (netc acceptip : CStr) (instate : Bool) (pdcc : Dcct) (n : Nat)
    (hw : w = 32 ∨ (32 < w ∧ n < 2 ^ 32)) (hn : n = 0 ∨ n % 2048 ≠ 0) (events : List Event)
    (hwhole : StepsMeet (Transfer.step w) Whole (accepted w netc acceptip instate pdcc n) events)
    (t : Transfer) (hrun : runAll (Transfer.step w) (accepted w netc acceptip instate pdcc n) events = some t) :
    (t.sender.completed = true → t.acked = some n) ∧
      (t.acked = some n → t.wire = [] → t.sender.completed = true ∧ t.sender.pdcc = none) ∧
      t.sender.log =
        if t.sender.completed = true ∧ instate = true then [sentMessage pdcc.file netc pdcc.nick] else [] := by
  have hreport : Reporting netc instate pdcc.file pdcc.nick t.sender := by
    apply invariant_of_stepsMeet (fun t => Reporting netc instate pdcc.file pdcc.nick t.sender) _ _ hwhole hrun
    · exact fun s e s' hs _ hstep => hs.step hstep
    · refine ⟨rfl, rfl, ?_, rfl⟩
      intro entry hentry
      cases hentry
      exact ⟨rfl, rfl, rfl⟩
  rw [← and_assoc]
  refine ⟨?_, hreport.log⟩
  have hend : InProgress w n t := by
    apply invariant_of_stepsMeet (InProgress w n) _ (accepted_waiting w netc acceptip instate pdcc n)
      hwhole hrun
    intro s e s' hs hmeets hstep
    exact hs.step hw hn hmeets hstep
  rcases hend with ⟨prev, pending, pdcc, hwait⟩ | hdone
  · constructor
    · intro hcompleted
      rw [hwait.completed] at hcompleted
      cases hcompleted
    · -- the last acknowledgement is still on its way
      intro hacked hwire
      have hwritten : t.sender.written = n := by
        have hhigh := hwait.acked.2
        have hblock := hwait.block
        have hstart := hwait.start
        rw [hacked, Option.getD_some] at hhigh
        omega
      have hmem := hwait.answer (by rw [hwritten]; exact hacked)
      have hlength := length_flatMap_be32 pending
      rw [← hwait.wire, hwire, List.length_nil] at hlength
      have hpos := List.length_pos_of_mem hmem
      omega
  · exact ⟨fun _ => hdone.acked, fun _ _ => ⟨hdone.completed, hdone.entry⟩⟩

/-- A file that is offered to a user. -/
def offered : Dcct :=
  { type := .sendToRq, host := ascii "10.0.0.2", file := ascii "f", nick := ascii "bob", port := 2000,
    uid := 1, delay := 50 }

/-- A file of one full block, and one whose acknowledgements come in one read: all bytes are
acknowledged, and the transfer stays open. -/
theorem dcc_send_hangs :
    (∃ t, runAll (Transfer.step 32) (accepted 32 [] (ascii "10.0.0.1") true offered 2048)
        [.ack 2048, .read 4 []] = some t ∧
      t.acked = some 2048 ∧ t.wire = [] ∧ t.sender.completed = false ∧ t.sender.written = 2048) ∧
    ∃ t, runAll (Transfer.step 32) (accepted 32 [] (ascii "10.0.0.1") true offered 2000)
        [.ack 1460, .ack 2000, .read 8 []] = some t ∧
      t.acked = some 2000 ∧ t.wire = [] ∧ t.sender.completed = false ∧ t.sender.written = 2000 :=
  ⟨⟨_, rfl, by decide, by decide, by decide, by decide⟩,
    ⟨_, rfl, by decide, by decide, by decide, by decide⟩⟩

/-- A file of two blocks, acknowledged in three steps. -/
theorem dcc_send_complete_twoBlocks :
    ∃ t, runAll (Transfer.step 32) (accepted 32 [] (ascii "10.0.0.1") true offered 3000)
        [.ack 1460, .read 4 [], .ack 2048, .read 4 [], .ack 3000, .read 4 []] = some t ∧
      (t.sender.completed = true → t.acked = some 3000) ∧
      (t.acked = some 3000 → t.wire = [] → t.sender.completed = true ∧ t.sender.pdcc = none) ∧
      t.sender.log =
        if t.sender.completed = true ∧ true = true then [ascii "File f sent to bob completed."] else [] := by
  refine ⟨_, rfl, ?_⟩
  exact dcc_send_complete 32 [] (ascii "10.0.0.1") true offered 3000 (Or.inl rfl) (Or.inr (by decide))
    [.ack 1460, .read 4 [], .ack 2048, .read 4 [], .ack 3000, .read 4 []] (by decide) _ rfl

end PsyBnc
