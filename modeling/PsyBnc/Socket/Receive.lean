import PsyBnc.Lib.Lines
import PsyBnc.Socket.Model

/-!
# Reassembling lines

`receivesock` carries the unfinished line of one `recv` over to the next.  Between two calls the
buffer is in normal form: the unfinished line, and zeros.  From this the sequence of lines that the
handler sees depends on the stream only, not on where it was cut.
-/

namespace PsyBnc

open CLib

/-- The unfinished line `s` stands in the buffer, with zeros behind it. -/
structure Pending (r : Receiver) (s : CStr) : Prop where
  commbuf : r.sock.commbuf = padded 8192 s
  bytesread : r.sock.bytesread = s.length
  nul_free : 0 ∉ s
  fits : s.length ≤ 8191

/-- What the handler is to see of some lines. -/
def delivered (serversocket : Bool) (lines : List CStr) : List CStr :=
  (lines.map (replaceByte 37 127)).filter fun line =>
    decide (1 < line.length) && !(serversocket && isPong line)

@[simp] theorem delivered_append (serversocket : Bool) (ls ls' : List CStr) :
    delivered serversocket (ls ++ ls') = delivered serversocket ls ++ delivered serversocket ls' := by
  simp [delivered]

/-- What the loop does not touch. -/
structure SameSocket (r r' : Receiver) : Prop where
  serversocket : r'.sock.serversocket = r.sock.serversocket
  handler : r'.sock.handler = r.sock.handler
  dataflow : r'.sock.dataflow = r.sock.dataflow
  killed : r'.killed = r.killed

theorem SameSocket.refl (r : Receiver) : SameSocket r r := ⟨rfl, rfl, rfl, rfl⟩

theorem SameSocket.trans {r r' r'' : Receiver} (h : SameSocket r r') (h' : SameSocket r' r'') :
    SameSocket r r'' :=
  ⟨h'.serversocket.trans h.serversocket, h'.handler.trans h.handler,
    h'.dataflow.trans h.dataflow, h'.killed.trans h.killed⟩

/-! ## One line -/

theorem keep_same (r : Receiver) (commbuf : List Byte) (n : Nat) :
    SameSocket r (r.keep commbuf n) :=
  ⟨rfl, rfl, rfl, rfl⟩

theorem gotPong_sock (r : Receiver) :
    (gotPong r).sock.commbuf = r.sock.commbuf ∧ (gotPong r).sock.bytesread = r.sock.bytesread ∧
      (gotPong r).handled = r.handled ∧ SameSocket r (gotPong r) := by
  rw [gotPong]
  split
  · exact ⟨rfl, rfl, rfl, ⟨rfl, rfl, rfl, rfl⟩⟩
  · exact ⟨rfl, rfl, rfl, ⟨rfl, rfl, rfl, rfl⟩⟩

/-- What `receiveLine` does once the line is cut off and the buffer is in order again. -/
theorem receiveLine_eq {r : Receiver} {line v : CStr} (h : Pending r (line ++ v))
    (hline : line ≠ []) :
    receiveLine line.length r =
      (let r' := r.keep (padded 8192 v) v.length
       let ircbuf := replaceByte 37 127 line
       if r.sock.serversocket = true ∧ isPong ircbuf = true then gotPong r'
       else if r.sock.handler = true ∧ 1 < ircbuf.length then
         { r' with handled := r.handled ++ [ircbuf] }
       else r') := by
  have hnul : 0 ∉ line ∧ 0 ∉ v := by simpa using h.nul_free
  have htake : (padded 8192 (line ++ v)).take line.length = line := by
    simp [padded, List.append_assoc]
  have hircbuf : cstr (memcpy (zeros 8192) 0 line) = line := by
    rw [memcpy_zeros, cstr_padded hnul.1]
  have hrest : r.sock.bytesread - line.length = v.length := by
    rw [h.bytesread, List.length_append, Nat.add_sub_cancel_left]
  have hshift := memset_shift hline h.fits
  simp only [receiveLine, h.commbuf, htake, hircbuf, hrest, hshift]
  rfl

/-- A complete line leaves the buffer and goes to the handler. -/
theorem receiveLine_pending {r : Receiver} {line v : CStr} (h : Pending r (line ++ v))
    (hline : line ≠ []) (hhandler : r.sock.handler = true) :
    Pending (receiveLine line.length r) v ∧ SameSocket r (receiveLine line.length r) ∧
      (receiveLine line.length r).handled =
        r.handled ++ delivered r.sock.serversocket [line] := by
  have hnul : 0 ∉ line ∧ 0 ∉ v := by simpa using h.nul_free
  have hsum : line.length + v.length ≤ 8191 := by simpa using h.fits
  have hkept : Pending (r.keep (padded 8192 v) v.length) v := ⟨rfl, rfl, hnul.2, by omega⟩
  have hsame := keep_same r (padded 8192 v) v.length
  rw [receiveLine_eq h hline]
  by_cases hpong : r.sock.serversocket = true ∧ isPong (replaceByte 37 127 line) = true
  · have hgot := gotPong_sock (r.keep (padded 8192 v) v.length)
    simp only [hpong, and_self, if_true]
    refine ⟨⟨hgot.1.trans hkept.commbuf, hgot.2.1.trans hkept.bytesread, hnul.2, hkept.fits⟩,
      hsame.trans hgot.2.2.2, ?_⟩
    have hnone : delivered true [line] = [] := by simp [delivered, hpong.2]
    rw [hgot.2.2.1, hnone, List.append_nil]
    rfl
  · have hkeep : (!(r.sock.serversocket && isPong (replaceByte 37 127 line))) = true := by
      rw [← Bool.and_eq_true] at hpong
      simp only [hpong, Bool.not_false]
    by_cases hlong : 1 < line.length
    · have hline' : delivered r.sock.serversocket [line] = [replaceByte 37 127 line] := by
        simp only [delivered, List.map_cons, List.map_nil, List.filter_cons, List.filter_nil,
          length_replaceByte, hlong, hkeep, decide_true, Bool.and_self, if_true]
      simp only [hpong, hhandler, length_replaceByte, hlong, if_false, if_true, and_self, hline']
      exact ⟨⟨rfl, rfl, hnul.2, hkept.fits⟩, ⟨rfl, rfl, rfl, rfl⟩, trivial⟩
    · have hnone : delivered r.sock.serversocket [line] = [] := by simp [delivered, hlong]
      simp only [hpong, length_replaceByte, hlong, if_false, and_false, hnone, List.append_nil]
      exact ⟨hkept, hsame, rfl⟩

/-! ## One call -/

/-- The loop hands over the complete lines of the buffer and keeps the rest. -/
theorem receiveLoop_pending (fuel : Nat) {r : Receiver} {s : CStr} (h : Pending r s)
    (hfuel : s.length ≤ fuel) (hhandler : r.sock.handler = true) :
    Pending (receiveLoop fuel r) (splitLines s).2 ∧ SameSocket r (receiveLoop fuel r) ∧
      (receiveLoop fuel r).handled =
        r.handled ++ delivered r.sock.serversocket (splitLines s).1 := by
  induction fuel generalizing r s with
  | zero =>
      have hs : s = [] := List.length_eq_zero_iff.1 (Nat.le_zero.1 hfuel)
      subst hs
      exact ⟨h, SameSocket.refl r, by simp [receiveLoop, splitLines, delivered]⟩
  | succ fuel ih =>
      have hstr : cstr r.sock.commbuf = s := by rw [h.commbuf, cstr_padded h.nul_free]
      rcases cut_cases LF s with ⟨hs, hcut⟩ | ⟨u, v, rfl, hu, hcut⟩
      · simp only [receiveLoop, hstr, hcut, splitLines_of_notMem hs]
        exact ⟨h, SameSocket.refl r, by simp [delivered]⟩
      · have hsplit : (u ++ [LF]) ++ v = u ++ LF :: v := by simp
        have hlen : (u ++ [LF]).length = u.length + 1 := by simp
        have hline := receiveLine_pending (hsplit.symm ▸ h) (by simp) hhandler
        rw [hlen] at hline
        rcases hline with ⟨hpend, hsame, hhandled⟩
        have hfuel' : v.length ≤ fuel := by
          simp only [List.length_append, List.length_cons] at hfuel
          omega
        rcases ih hpend hfuel' (hsame.handler.trans hhandler) with ⟨hpend', hsame', hhandled'⟩
        simp only [receiveLoop, hstr, hcut, splitLines_line hu]
        refine ⟨hpend', hsame.trans hsame', ?_⟩
        have hcons : delivered r.sock.serversocket ((u ++ [LF]) :: (splitLines v).1) =
            delivered r.sock.serversocket [u ++ [LF]] ++
              delivered r.sock.serversocket (splitLines v).1 :=
          delivered_append _ [u ++ [LF]] _
        rw [hhandled', hhandled, hsame.serversocket, hcons, List.append_assoc]

/-- A line-mode socket with a handler, between two calls. -/
structure Listening (r : Receiver) (s : CStr) : Prop where
  pending : Pending r s
  unfinished : LF ∉ s
  ascii : r.sock.dataflow = .ascii
  handler : r.sock.handler = true
  alive : r.killed = false

/-- A fresh socket. -/
theorem listening_nil {r : Receiver} (hbuf : r.sock.commbuf = zeros 8192)
    (hread : r.sock.bytesread = 0) (hascii : r.sock.dataflow = .ascii)
    (hhandler : r.sock.handler = true) (halive : r.killed = false) : Listening r [] :=
  ⟨⟨hbuf, hread, by simp, by simp⟩, by simp, hascii, hhandler, halive⟩

theorem receivesock_data {r : Receiver} {s chunk : CStr} (h : Listening r s) (hne : chunk ≠ [])
    (hsz : chunk.length ≤ 8191 - r.sock.bytesread) (hnul : 0 ∉ chunk) :
    Listening (receivesock (.data chunk) r) (splitLines (s ++ chunk)).2 ∧
      (receivesock (.data chunk) r).sock.serversocket = r.sock.serversocket ∧
      (receivesock (.data chunk) r).handled =
        r.handled ++ delivered r.sock.serversocket (splitLines (s ++ chunk)).1 := by
  have hpos : 0 < chunk.length := List.length_pos_of_ne_nil hne
  have hbytes := h.pending.bytesread
  have hfits := h.pending.fits
  have hsum : s.length + chunk.length ≤ 8191 := by omega
  have hroom : ¬ 8191 - r.sock.bytesread = 0 := by omega
  have hascii : ¬ (r.sock.recv chunk).dataflow = .stream := by simp [Psockett.recv, h.ascii]
  have hcall : receivesock (.data chunk) r =
      receiveLoop 8192 { r with sock := r.sock.recv chunk } := by
    simp only [receivesock, hroom, hascii, if_false]
  have hpend : Pending { r with sock := r.sock.recv chunk } (s ++ chunk) := by
    refine ⟨?_, ?_, ?_, ?_⟩
    · simp only [Psockett.recv, h.pending.commbuf, hbytes]
      exact memcpy_padded (by omega)
    · simp [Psockett.recv, hbytes]
    · simp [h.pending.nul_free, hnul]
    · simpa using hsum
  rcases receiveLoop_pending 8192 hpend (Nat.le_succ_of_le hpend.fits) h.handler with
    ⟨hloop, hsame, hhandled⟩
  rw [hcall]
  exact ⟨⟨hloop, notMem_splitLines_rest _, hsame.dataflow.trans h.ascii,
    hsame.handler.trans h.handler, hsame.killed.trans h.alive⟩, hsame.serversocket, hhandled⟩

/-! ## All calls -/

def receiveAll (r : Receiver) (chunks : List CStr) : Receiver :=
  chunks.foldl (fun r chunk => receivesock (.data chunk) r) r

/-- Every `recv` brings something, and no more than it was offered room for. -/
def Offered : Receiver → List CStr → Prop
  | _, [] => True
  | r, chunk :: chunks =>
      chunk ≠ [] ∧ chunk.length ≤ 8191 - r.sock.bytesread ∧
        Offered (receivesock (.data chunk) r) chunks

theorem receiveAll_listening (chunks : List CStr) {r : Receiver} {s : CStr} (h : Listening r s)
    (hoff : Offered r chunks) (hnul : 0 ∉ chunks.flatten) :
    Listening (receiveAll r chunks) (splitLines (s ++ chunks.flatten)).2 ∧
      (receiveAll r chunks).handled =
        r.handled ++ delivered r.sock.serversocket (splitLines (s ++ chunks.flatten)).1 := by
  induction chunks generalizing r s with
  | nil =>
      have hs : splitLines (s ++ [].flatten) = ([], s) := by
        simpa using splitLines_of_notMem h.unfinished
      rw [hs]
      exact ⟨h, by simp [receiveAll, delivered]⟩
  | cons chunk chunks ih =>
      rcases hoff with ⟨hne, hsz, hoff⟩
      have hnul' : 0 ∉ chunk ∧ 0 ∉ chunks.flatten := by simpa [not_or] using hnul
      rcases receivesock_data h hne hsz hnul'.1 with ⟨hlisten, hserver, hhandled⟩
      rcases ih hlisten hoff hnul'.2 with ⟨hlisten', hhandled'⟩
      -- Cutting the stream behind this chunk gives the same lines.
      have hsplit := splitLines_append (s ++ chunk) chunks.flatten
      rw [List.append_assoc] at hsplit
      rw [List.flatten_cons, hsplit]
      refine ⟨hlisten', ?_⟩
      calc (receiveAll r (chunk :: chunks)).handled
          = (receivesock (.data chunk) r).handled ++
              delivered (receivesock (.data chunk) r).sock.serversocket
                (splitLines ((splitLines (s ++ chunk)).2 ++ chunks.flatten)).1 := hhandled'
        _ = _ := by
            rw [hhandled, hserver, delivered_append, List.append_assoc]

/-- Chunks of a stream that fits the buffer as a whole always respect the offered size. -/
theorem offered_of_short (chunks : List CStr) {r : Receiver} {s : CStr} (h : Listening r s)
    (hne : ∀ chunk ∈ chunks, chunk ≠ []) (hnul : 0 ∉ chunks.flatten)
    (hlen : s.length + chunks.flatten.length ≤ 8191) : Offered r chunks := by
  induction chunks generalizing r s with
  | nil =>
      trivial
  | cons chunk chunks ih =>
      have hnul' : 0 ∉ chunk ∧ 0 ∉ chunks.flatten := by simpa [not_or] using hnul
      have hbytes := h.pending.bytesread
      simp only [List.flatten_cons, List.length_append] at hlen
      have hsz : chunk.length ≤ 8191 - r.sock.bytesread := by omega
      refine ⟨hne chunk (by simp), hsz, ?_⟩
      have hnext := (receivesock_data h (hne chunk (by simp)) hsz hnul'.1).1
      have hrest : (splitLines (s ++ chunk)).2.length ≤ s.length + chunk.length := by
        have hwhole := congrArg List.length (flatten_splitLines (s ++ chunk))
        simp only [List.length_append] at hwhole
        omega
      exact ih hnext (fun c hc => hne c (List.mem_cons_of_mem _ hc)) hnul'.2 (by omega)

/-- However the stream is cut, the handler sees its complete lines and the unfinished one stays in
the buffer; as long as that one leaves room for a byte and a newline, the next call reads. -/
theorem receiveAll_stream (r : Receiver) (chunks : List CStr)
    (hbuf : r.sock.commbuf = zeros 8192) (hread : r.sock.bytesread = 0)
    (hascii : r.sock.dataflow = .ascii) (hhandler : r.sock.handler = true)
    (halive : r.killed = false) (hoff : Offered r chunks) (hnul : 0 ∉ chunks.flatten) :
    (receiveAll r chunks).handled =
        r.handled ++ delivered r.sock.serversocket (splitLines chunks.flatten).1 ∧
      cstr (receiveAll r chunks).sock.commbuf = (splitLines chunks.flatten).2 ∧
      (receiveAll r chunks).sock.bytesread = (splitLines chunks.flatten).2.length ∧
      (receiveAll r chunks).killed = false ∧
      ((splitLines chunks.flatten).2.length < 8190 →
        (receiveAll r chunks).sock.bytesread < 8191) := by
  have hstart := listening_nil hbuf hread hascii hhandler halive
  rcases receiveAll_listening chunks hstart hoff hnul with ⟨hlisten, hhandled⟩
  rw [List.nil_append] at hlisten hhandled
  have hbytes := hlisten.pending.bytesread
  refine ⟨hhandled, ?_, hbytes, hlisten.alive, fun hlt => by omega⟩
  rw [hlisten.pending.commbuf, cstr_padded hlisten.pending.nul_free]

/-- Two lines and a half in three pieces; the server's PONG is not handed on. -/
theorem receiveAll_stream_pieces :
    let r : Receiver := { sock := { syssock := 5, handler := true, serversocket := true } }
    let chunks := [ascii "PING :a", [CR, LF] ++ ascii ":irc PON", ascii "G b" ++ [LF] ++ ascii "NI"]
    (receiveAll r chunks).handled = [ascii "PING :a" ++ [CR, LF]] ∧
      cstr (receiveAll r chunks).sock.commbuf = ascii "NI" := by
  intro r chunks
  have hstart : Listening r [] := listening_nil rfl rfl rfl rfl rfl
  have hoff : Offered r chunks := offered_of_short chunks hstart (by decide) (by decide) (by decide)
  have hrun := receiveAll_stream r chunks rfl rfl rfl rfl rfl hoff (by decide)
  refine ⟨hrun.1.trans ?_, hrun.2.1.trans ?_⟩
  · decide
  · decide

end PsyBnc
