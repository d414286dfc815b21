import PsyBnc.Accounts.Commands
import PsyBnc.Network.Names
import PsyBnc.Wildcard.Match

/-!
# The token of a network (`checknetwork`)

A client's line names a network by its token, `net~`, in front of a nick or a channel.  `checknetwork` finds the
network and cuts the token out.
-/

namespace PsyBnc

open CLib

/-- The `~` that ends the token, with the texts before and behind it: one that belongs to the user of a mask is
passed over. -/
def tildeSplit (s : CStr) : Option (CStr × CStr) :=
  match cutAt TILDE s with
  | none => none
  | some (u, v) =>
      if u.getLast? = some WILDS ∨ u.getLast? = some EXCL then
        (cutAt TILDE v).map fun q => (u ++ TILDE :: q.1, q.2)
      else some (u, v)

/-- The text up to the last blank or colon, and the token behind it. -/
def tokenStart (s : CStr) : CStr × CStr :=
  let token := (s.reverse.takeWhile fun b => decide (b ≠ SP ∧ b ≠ COLON)).reverse
  (s.take (s.length - token.length - 1), token)

namespace Users

/-- What `checknetwork` does with a line. -/
structure Networked where
  uid : Int
  ircbuf : CStr
  /-- The token that the user is told to be unknown. -/
  unknown : Option CStr
  deriving DecidableEq, Repr

/-- `checknetwork`; `none` is an access out of bounds: the byte in front of a `~` is read. -/
def checknetwork (s : Users) (usern : Int) (ircbuf : CStr) : Option Networked :=
  let tmpircbuf := clip 8192 ircbuf
  if tmpircbuf.head? = some TILDE then none
  else
    match tildeSplit tmpircbuf with
    | none => some ⟨usern, ircbuf, none⟩
    | some (before, pt2) =>
        if COLON ∈ before.tail ∧ ¬ ascii "NICK " <+: tmpircbuf then some ⟨usern, ircbuf, none⟩
        else
          let start := tokenStart before
          if start.1 = [] then some ⟨usern, ircbuf, none⟩
          else
            let pt1 := if start.2.head? = some HASH then start.2.tail else start.2
            if strmncasecmp pt1 (ascii "int") then some ⟨usern + 10000, clip 8192 (start.1 ++ SP :: pt2), none⟩
            else
              match s.usernode.find? fun uid =>
                  (s.account uid).parent = usern ∧ strmcmp (s.account uid).network pt1 = true with
              | some uid => some ⟨uid, clip 8192 (start.1 ++ SP :: pt2), none⟩
              | none => some ⟨usern, [], some pt1⟩

end Users

/-! ## Names that are found -/

/-- A name that `checknetwork` sees as a token when `~` stands behind it, and that is not the one of the internal
network. -/
structure TokenName (n : CStr) : Prop where
  blank : SP ∉ n
  colon : COLON ∉ n
  hash : n.head? ≠ some HASH
  tilde : tildeSplit (n ++ [TILDE]) = some (n, [])
  free : strmncasecmp n (ascii "int") = false

section Token

variable {n z t rest front mark : CStr}

/-- Text without a `~` in front of the token. -/
theorem tildeSplit_append (hz : TILDE ∉ z) (hstar : z.getLast? ≠ some WILDS) (hmark : z.getLast? ≠ some EXCL) :
    tildeSplit (z ++ t) = (tildeSplit t).map fun q => (z ++ q.1, q.2) := by
  rw [tildeSplit, tildeSplit]
  cases hcut : cutAt TILDE t with
  | none =>
      have hno : TILDE ∉ z ++ t := by
        rw [List.mem_append, not_or]
        exact ⟨hz, cutAt_eq_none.1 hcut⟩
      rw [cutAt_eq_none.2 hno]
      rfl
  | some q =>
      rcases q with ⟨u, v⟩
      rcases cutAt_eq_some.1 hcut with ⟨rfl, hu⟩
      have hzu : TILDE ∉ z ++ u := by
        rw [List.mem_append, not_or]
        exact ⟨hz, hu⟩
      have hlast : (z ++ u).getLast? = some WILDS ∨ (z ++ u).getLast? = some EXCL ↔
          u.getLast? = some WILDS ∨ u.getLast? = some EXCL := by
        rw [List.getLast?_append]
        cases u.getLast? with
        | none => simp [hstar, hmark]
        | some b => simp
      rw [← List.append_assoc, cutAt_append hzu]
      simp only [hlast]
      split
      · rw [Option.map_map]
        congr 1
        funext q
        simp
      · rfl

/-- What stands behind the token does not matter. -/
theorem TokenName.tildeSplit_rest (h : TokenName n) : tildeSplit (n ++ TILDE :: rest) = some (n, rest) := by
  have htilde := h.tilde
  rw [tildeSplit] at htilde ⊢
  by_cases hn : TILDE ∈ n
  · cases hcut : cutAt TILDE n with
    | none => exact absurd hn (cutAt_eq_none.1 hcut)
    | some q =>
        rcases q with ⟨a, b⟩
        rcases cutAt_eq_some.1 hcut with ⟨rfl, ha⟩
        have hcons : ∀ v, a ++ TILDE :: b ++ v = a ++ TILDE :: (b ++ v) := by simp
        rw [hcons, cutAt_append ha] at htilde ⊢
        simp only at htilde ⊢
        split at htilde
        · next hmask =>
          rw [if_pos hmask]
          -- the second `~` is the one behind the name
          rcases Option.map_eq_some_iff.1 htilde with ⟨⟨c, d⟩, hsecond, heq⟩
          rw [Prod.mk.injEq, List.append_right_inj, List.cons.injEq] at heq
          rcases heq with ⟨⟨_, rfl⟩, _⟩
          have hb : TILDE ∉ c := (cutAt_eq_some.1 hsecond).2
          rw [cutAt_append hb]
          rfl
        · exfalso
          rw [Option.some.injEq, Prod.mk.injEq] at htilde
          have hlen := congrArg List.length htilde.1
          rw [List.length_append, List.length_cons] at hlen
          omega
  · rw [cutAt_append hn] at htilde ⊢
    simp only at htilde ⊢
    split at htilde
    · cases htilde
    · next hmask => rw [if_neg hmask]

/-- The token of a line is the text behind the last blank. -/
theorem tokenStart_append (ht : SP ∉ t ∧ COLON ∉ t) : tokenStart (z ++ SP :: t) = (z, t) := by
  have hword : (t.reverse.takeWhile fun b => decide (b ≠ SP ∧ b ≠ COLON)) = t.reverse := by
    apply List.takeWhile_eq_self_iff.2
    intro b hb
    rw [List.mem_reverse] at hb
    rw [decide_eq_true_eq]
    exact ⟨fun h => ht.1 (h ▸ hb), fun h => ht.2 (h ▸ hb)⟩
  have hall : ((z ++ SP :: t).reverse.takeWhile fun b => decide (b ≠ SP ∧ b ≠ COLON)).reverse = t := by
    rw [List.reverse_append, List.reverse_cons, List.append_assoc, List.takeWhile_append, hword, if_pos rfl]
    simp
  rw [tokenStart, hall]
  simp only [Prod.mk.injEq, and_true]
  have hlen : (z ++ SP :: t).length - t.length - 1 = z.length := by
    rw [List.length_append, List.length_cons]
    omega
  rw [hlen, List.take_left]

/-- The line with the token cut out, when the token names the network `uid` of the user. -/
theorem checknetwork_token {s : Users} {usern uid : Int} (hn : TokenName n)
    (hfront : front ≠ [] ∧ TILDE ∉ front ∧ COLON ∉ front) (hmark : mark = [] ∨ mark = [HASH])
    (hlen : (front ++ SP :: (mark ++ (n ++ TILDE :: rest))).length < 8192)
    (hfind : (s.usernode.find? fun uid =>
      (s.account uid).parent = usern ∧ strmcmp (s.account uid).network n = true) = some uid) :
    s.checknetwork usern (front ++ SP :: (mark ++ (n ++ TILDE :: rest))) =
      some ⟨uid, front ++ SP :: rest, none⟩ := by
  have hmarkfree : TILDE ∉ mark ∧ SP ∉ mark ∧ COLON ∉ mark := by
    rcases hmark with rfl | rfl
    · decide
    · decide
  have htoken : SP ∉ mark ++ n ∧ COLON ∉ mark ++ n := by
    rw [List.mem_append, List.mem_append, not_or, not_or]
    exact ⟨⟨hmarkfree.2.1, hn.blank⟩, hmarkfree.2.2, hn.colon⟩
  have hz : TILDE ∉ front ++ SP :: mark := by
    simp only [List.mem_append, List.mem_cons, not_or]
    exact ⟨hfront.2.1, by decide, hmarkfree.1⟩
  have hlast : (front ++ SP :: mark).getLast? ≠ some WILDS ∧ (front ++ SP :: mark).getLast? ≠ some EXCL := by
    rw [List.getLast?_append]
    rcases hmark with rfl | rfl
    · exact ⟨fun h => absurd (Option.some.inj h) (by decide), fun h => absurd (Option.some.inj h) (by decide)⟩
    · exact ⟨fun h => absurd (Option.some.inj h) (by decide), fun h => absurd (Option.some.inj h) (by decide)⟩
  -- The first tilde is the one of the token.
  have hsplit : tildeSplit (front ++ SP :: (mark ++ (n ++ TILDE :: rest))) =
      some (front ++ SP :: (mark ++ n), rest) := by
    have happend := @tildeSplit_append (front ++ SP :: mark) (n ++ TILDE :: rest) hz hlast.1 hlast.2
    rw [hn.tildeSplit_rest, Option.map_some] at happend
    simpa using happend
  rcases List.exists_cons_of_ne_nil hfront.1 with ⟨b, front', hcons⟩
  have hhead : (front ++ SP :: (mark ++ (n ++ TILDE :: rest))).head? ≠ some TILDE := by
    rw [hcons, List.cons_append, List.head?_cons]
    intro heq
    rw [hcons, Option.some.inj heq] at hfront
    exact hfront.2.1 List.mem_cons_self
  -- No colon stands in front of it, so the token is looked at.
  have hcolon : ¬ (COLON ∈ (front ++ SP :: (mark ++ n)).tail ∧
      ¬ ascii "NICK " <+: front ++ SP :: (mark ++ (n ++ TILDE :: rest))) := by
    intro h
    have hmem := List.mem_of_mem_tail h.1
    simp only [List.mem_append, List.mem_cons] at hmem
    rcases hmem with hmem | hmem | hmem | hmem
    · exact hfront.2.2 hmem
    · cases hmem
    · exact hmarkfree.2.2 hmem
    · exact hn.colon hmem
  -- The hash in front of the name is passed over.
  have hpt1 : (if (mark ++ n).head? = some HASH then (mark ++ n).tail else mark ++ n) = n := by
    rcases hmark with rfl | rfl
    · rw [List.nil_append, if_neg hn.hash]
    · rfl
  have hout : (front ++ SP :: rest).length < 8192 := by
    simp only [List.length_append, List.length_cons] at hlen ⊢
    omega
  rw [Users.checknetwork, clip_eq_self hlen]
  simp only [hhead, if_false, hsplit, hcolon, tokenStart_append htoken, hfront.1, hpt1, hn.free, Bool.false_eq_true,
    hfind, clip_eq_self hout]

end Token

end PsyBnc
