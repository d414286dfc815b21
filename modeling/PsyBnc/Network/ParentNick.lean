import PsyBnc.Lib.Words
import PsyBnc.PString
import PsyBnc.Parse.Model
import Mathlib.Data.List.DropRight

/-!
# The nick of a network user (`parentnick`)

A line that a network's server sends names the user by the nick that it has there; the client knows the nick
of the parent user only.  The loop works in `ircbuf` itself: `pt` is where the last nick was found, `pt2`
where the text began before the first nick was replaced.
-/

namespace PsyBnc

open CLib

@[reducible] def EXCL : Byte := 33

/-- What `parentnick` reads of `user(usern)` and of `user(uparent)`, in its arrays of 64 bytes. -/
structure NetworkUser where
  /-- `user(usern)->parent`, 0 for a user of its own. -/
  uparent : Nat
  nick : CStr
  parentnick : CStr
  wantnick : CStr
  nick_lt : nick.length < 64
  parentnick_lt : parentnick.length < 64
  wantnick_lt : wantnick.length < 64

/-- The loop; `none` when it still runs. -/
def parentnickLoop (nicktmp parent : CStr) (pt2 : Option Nat) : Nat → Nat → CStr → Option CStr
  | 0, _, _ => none
  | k + 1, pt, ircbuf =>
      match cutStr nicktmp (ircbuf.drop (pt + 1)) with
      | none => some ircbuf
      | some (u, pt1) =>
          let pt := pt + 1 + u.length
          if pt2.any fun c => decide (c < pt) then some ircbuf
          else parentnickLoop nicktmp parent pt2 k pt (clip 8192 (ircbuf.take pt ++ SP :: (parent ++ SP :: pt1)))

/-- The wanted nick becomes the parent's, if it had none. -/
def NetworkUser.named (u : NetworkUser) (ircbuf : CStr) : NetworkUser :=
  if ircbuf.head? = some COLON ∧ u.parentnick = [] ∧ u.wantnick ≠ [] then
    { u with parentnick := u.wantnick, parentnick_lt := u.wantnick_lt }
  else u

/-- The source of the line. -/
def parentSource (nick parent ircbuf : CStr) : CStr :=
  match afterPrefix (clip 70 (COLON :: (nick ++ [EXCL]))) ircbuf with
  | some pt => clip 8192 (COLON :: (parent ++ EXCL :: pt))
  | none => ircbuf

/-- `pt2`: the first colon behind the first byte. -/
def firstColon (line : CStr) : Option Nat := (cutAt COLON (line.drop 1)).map fun q => q.1.length + 1

/-- `parentnick` for `user(usern)`; a user of the internal network has a number over 10000. -/
def parentnick (usern : Nat) (u : NetworkUser) (ircbuf : CStr) : Option (CStr × NetworkUser) :=
  if usern > 10000 then some (ircbuf, u)
  else if u.uparent = 0 then some (ircbuf, u)
  else if strmncasecmp u.nick u.parentnick then some (ircbuf, u)
  else
    let u' := u.named ircbuf
    let line := parentSource u.nick u'.parentnick ircbuf
    if line.length < 1 then some (line, u')
    else
      (parentnickLoop (clip 70 (SP :: (u.nick ++ [SP]))) u'.parentnick (firstColon line) 8192 0 line).map (·, u')

/-! ## What is to become of a line -/

/-- The words in front of the text get the parent's nick. -/
def renameWords (nick parent : CStr) : List CStr → List CStr
  | [] => []
  | w :: ws =>
      if w.head? = some COLON then w :: ws
      else (if w = nick then parent else w) :: renameWords nick parent ws

/-- The first word: the source of the line, or a command. -/
def renameSource (nick parent w : CStr) : CStr :=
  match afterPrefix (COLON :: (nick ++ [EXCL])) w with
  | some host => COLON :: (parent ++ EXCL :: host)
  | none => if w = nick then parent else w

/-- The end of a line, of which the words are no part. -/
def lineBreak (line : CStr) : CStr := line.rtakeWhile fun b => b == CR || b == LF

def lineWords (line : CStr) : List CStr := (line.rdropWhile fun b => b == CR || b == LF).splitOn SP

/-- The line with the parent's nick in its header. -/
def renamed (nick parent line : CStr) : CStr :=
  match lineWords line with
  | [] => line
  | w :: ws => renameSource nick parent w ++ lead SP (lineBreak line) (renameWords nick parent ws)

/-- The nicks that are the same up to case are one nick, and there is nothing to be done. -/
def NetworkUser.rename (u : NetworkUser) (line : CStr) : CStr :=
  if strmncasecmp u.nick u.parentnick then line else renamed u.nick (u.named line).parentnick line

/-- None of the words begins the text. -/
def InHeader (us : List CStr) : Prop := ∀ w ∈ us, w.head? ≠ some COLON

/-- The loop gets to a nick behind `front`: a blank follows it, and it does not stand behind `pt2`. -/
def Reached (pt2 : Option Nat) (front : CStr) (vs : List CStr) : Prop :=
  vs ≠ [] ∧ front ≠ [] ∧ ∀ c ∈ pt2, front.length ≤ c

/-- Of the words of a line that are the nick the loop gets to those in the header. -/
structure InPlace (nick parent line : CStr) : Prop where
  first : (lineWords line).head? ≠ some nick
  words : ∀ w us vs, lineWords line = w :: (us ++ nick :: vs) →
    (InHeader (us ++ [nick]) ↔
      Reached (firstColon (renameSource nick parent w ++ lead SP (lineBreak line) (us ++ nick :: vs)))
        (renameSource nick parent w ++ lead SP [] (renameWords nick parent us)) vs)

/-- The nicks are one nick, or the line has room and its nicks are where the loop gets to them. -/
def NetworkUser.Placed (u : NetworkUser) (line : CStr) : Prop :=
  let parent := (u.named line).parentnick
  strmncasecmp u.nick u.parentnick = true ∨ parent = u.nick ∨
    (InPlace u.nick parent line ∧ (renamed u.nick parent line).length < 8192)

/-- A nick has no blank and no end of line in it. -/
def NickText (nick : CStr) : Prop := SP ∉ nick ∧ CR ∉ nick ∧ LF ∉ nick

structure NetworkUser.Blankfree (u : NetworkUser) : Prop where
  nick : NickText u.nick
  parentnick : NickText u.parentnick
  wantnick : NickText u.wantnick

section Loop

variable {nick parent nicktmp x z B out front w : CStr} {pt2 : Option Nat} {k pt m : Nat} {ws us vs : List CStr}
  {e : CStr}

theorem loop_none (h : cutStr nicktmp (B.drop (pt + 1)) = none) :
    parentnickLoop nicktmp parent pt2 (k + 1) pt B = some B := by
  rw [parentnickLoop, h]

theorem loop_stop {u pt1 : CStr} (h : cutStr nicktmp (B.drop (pt + 1)) = some (u, pt1))
    (hc : ∃ c ∈ pt2, c < pt + 1 + u.length) :
    parentnickLoop nicktmp parent pt2 (k + 1) pt B = some B := by
  rcases hc with ⟨c, hc, hlt⟩
  rw [Option.mem_def.1 hc, parentnickLoop, h]
  simp [hlt]

theorem loop_next {u pt1 : CStr} (h : cutStr nicktmp (B.drop (pt + 1)) = some (u, pt1))
    (hc : ¬ ∃ c ∈ pt2, c < pt + 1 + u.length) :
    parentnickLoop nicktmp parent pt2 (k + 1) pt B =
      parentnickLoop nicktmp parent pt2 k (pt + 1 + u.length)
        (clip 8192 (B.take (pt + 1 + u.length) ++ SP :: (parent ++ SP :: pt1))) := by
  rw [parentnickLoop, h]
  simp only
  rw [if_neg]
  rw [Option.any_eq_true]
  rintro ⟨c, hc', hlt⟩
  exact hc ⟨c, hc', of_decide_eq_true hlt⟩

/-- What has been found lies in the buffer. -/
theorem found_spec {u pt1 : CStr} (h : cutStr nicktmp (B.drop (pt + 1)) = some (u, pt1)) (hne : nicktmp ≠ []) :
    B = B.take (pt + 1 + u.length) ++ (nicktmp ++ pt1) ∧ pt + 1 + u.length < B.length := by
  have heq := (cutStr_first h).1
  have hlen := congrArg List.length heq
  have hpos := List.length_pos_iff.2 hne
  simp only [List.length_drop, List.length_append] at hlen
  refine ⟨?_, by omega⟩
  have hdrop : B.drop (pt + 1 + u.length) = nicktmp ++ pt1 := by
    rw [← List.drop_drop, heq, List.append_assoc, List.drop_left]
  rw [← hdrop, List.take_append_drop]

/-- `pt` goes on with every round and stays in the buffer, whatever the nicks are. -/
theorem loop_returns (hne : nicktmp ≠ []) (hB : B.length < 8192) (hpt : pt < 8192) (hk : 8192 ≤ k + pt) :
    ∃ out, parentnickLoop nicktmp parent pt2 k pt B = some out ∧ out.length < 8192 := by
  induction k generalizing pt B with
  | zero => omega
  | succ k ih =>
      cases h : cutStr nicktmp (B.drop (pt + 1)) with
      | none => exact ⟨B, loop_none h, hB⟩
      | some q =>
          rcases q with ⟨u, pt1⟩
          by_cases hc : ∃ c ∈ pt2, c < pt + 1 + u.length
          · exact ⟨B, loop_stop h hc, hB⟩
          · rw [loop_next h hc]
            have hlt := (found_spec h hne).2
            apply ih
            · rw [length_clip]
              omega
            · omega
            · omega

theorem length_loop (hB : B.length < 8192) (h : parentnickLoop nicktmp parent pt2 k pt B = some out) :
    out.length < 8192 := by
  induction k generalizing pt B with
  | zero => cases h
  | succ k ih =>
      cases hcut : cutStr nicktmp (B.drop (pt + 1)) with
      | none =>
          rw [loop_none hcut] at h
          cases h
          exact hB
      | some q =>
          rcases q with ⟨u, pt1⟩
          by_cases hc : ∃ c ∈ pt2, c < pt + 1 + u.length
          · rw [loop_stop hcut hc] at h
            cases h
            exact hB
          · rw [loop_next hcut hc] at h
            apply ih _ h
            rw [length_clip]
            omega

/-- A nick that replaces itself. -/
theorem loop_same (hB : B.length < 8192)
    (h : parentnickLoop (SP :: (nick ++ [SP])) nick pt2 k pt B = some out) : out = B := by
  induction k generalizing pt with
  | zero => cases h
  | succ k ih =>
      cases hcut : cutStr (SP :: (nick ++ [SP])) (B.drop (pt + 1)) with
      | none =>
          rw [loop_none hcut] at h
          cases h
          rfl
      | some q =>
          rcases q with ⟨u, pt1⟩
          by_cases hc : ∃ c ∈ pt2, c < pt + 1 + u.length
          · rw [loop_stop hcut hc] at h
            cases h
            rfl
          · have heq := (found_spec hcut (by simp)).1
            rw [List.cons_append, List.append_assoc, List.singleton_append] at heq
            rw [loop_next hcut hc, ← heq, clip_eq_self hB] at h
            exact ih h

/-- What stands in front of the next blank stays. -/
theorem take_prefix_loop (hB : B.length < 8192) (hm : SP ∉ (B.drop (pt + 1)).take m)
    (h : parentnickLoop (SP :: (nick ++ [SP])) parent pt2 k pt B = some out) :
    B.take (pt + 1 + m + 1) <+: out := by
  induction k generalizing pt B m with
  | zero => cases h
  | succ k ih =>
      cases hcut : cutStr (SP :: (nick ++ [SP])) (B.drop (pt + 1)) with
      | none =>
          rw [loop_none hcut] at h
          cases h
          exact List.take_prefix _ _
      | some q =>
          rcases q with ⟨u, pt1⟩
          by_cases hc : ∃ c ∈ pt2, c < pt + 1 + u.length
          · rw [loop_stop hcut hc] at h
            cases h
            exact List.take_prefix _ _
          · rw [loop_next hcut hc] at h
            rcases found_spec hcut (by simp) with ⟨heq, hlt⟩
            have hmu : m ≤ u.length := by
              by_contra hlt'
              apply hm
              rw [(cutStr_first hcut).1, List.append_assoc, List.take_append, List.cons_append]
              apply List.mem_append_right
              rw [show m - u.length = (m - u.length - 1) + 1 by omega, List.take_succ_cons]
              exact List.mem_cons_self
            -- The blank in front of the nick is there before and after.
            have hlen : (B.take (pt + 1 + u.length)).length = pt + 1 + u.length :=
              List.length_take_of_le (Nat.le_of_lt hlt)
            have hblank : B.take (pt + 1 + u.length + 1) = B.take (pt + 1 + u.length) ++ [SP] := by
              have htake := @List.take_length_add_append _ (B.take (pt + 1 + u.length))
                (SP :: (nick ++ [SP] ++ pt1)) 1
              rw [hlen, ← List.cons_append, ← heq] at htake
              exact htake
            have hkeep : B.take (pt + 1 + u.length + 1) <+:
                (clip 8192 (B.take (pt + 1 + u.length) ++ SP :: (parent ++ SP :: pt1))).take
                  (pt + 1 + u.length + 1 + 0 + 1) := by
              rw [hblank, clip, List.prefix_take_iff, List.prefix_take_iff, List.length_append, hlen]
              refine ⟨⟨⟨parent ++ SP :: pt1, by simp⟩, ?_⟩, ?_⟩
              · simp only [List.length_singleton]
                omega
              · simp only [List.length_singleton]
                omega
            have hclip := @length_clip 8192 (B.take (pt + 1 + u.length) ++ SP :: (parent ++ SP :: pt1))
            have hout := ih (m := 0) (by rw [hclip]; omega) (by simp) h
            have hle : B.take (pt + 1 + m + 1) <+: B.take (pt + 1 + u.length + 1) :=
              List.take_prefix_take_left (by omega)
            exact (hle.trans hkeep).trans hout

/-- The loop has passed `front`: its next nick is one of the words `ws`. -/
structure Passed (nick : CStr) (pt : Nat) (front e : CStr) (ws : List CStr) : Prop where
  pt_lt : pt < front.length
  end_blankfree : SP ∉ e
  search : cutStr (SP :: (nick ++ [SP])) ((front ++ lead SP e ws).drop (pt + 1)) =
    (cutStr (SP :: (nick ++ [SP])) (lead SP e ws)).map fun q => (front.drop (pt + 1) ++ q.1, q.2)

/-- In the first word, and in the nick that was put in. -/
theorem passed_word (hpt : pt < front.length) (hz : SP ∉ front.drop (pt + 1)) (he : SP ∉ e) :
    Passed nick pt front e ws where
  pt_lt := hpt
  end_blankfree := he
  search := by rw [List.drop_append_of_le_length hpt, cutStr_skip hz]

theorem Passed.skip (h : Passed nick pt front e (w :: ws)) (hnick : SP ∉ nick) (hw : SP ∉ w) (hne : w ≠ nick) :
    Passed nick pt (front ++ SP :: w) e ws where
  pt_lt := Nat.lt_of_lt_of_le h.pt_lt (by simp)
  end_blankfree := h.end_blankfree
  search := by
    have hsearch := h.search
    have heq : front ++ lead SP e (w :: ws) = front ++ SP :: w ++ lead SP e ws := by simp
    rw [cutStr_lead_cons hnick hw h.end_blankfree, if_neg (fun hfound => hne hfound.1), Option.map_map,
      heq] at hsearch
    rw [hsearch, List.drop_append_of_le_length h.pt_lt]
    congr 1
    funext q
    simp

theorem Passed.none (h : Passed nick pt front e ws)
    (hnone : cutStr (SP :: (nick ++ [SP])) (lead SP e ws) = none) :
    parentnickLoop (SP :: (nick ++ [SP])) parent pt2 (k + 1) pt (front ++ lead SP e ws) =
      some (front ++ lead SP e ws) := by
  apply loop_none
  rw [h.search, hnone]
  rfl

theorem Passed.done (h : Passed nick pt front e []) :
    parentnickLoop (SP :: (nick ++ [SP])) parent pt2 (k + 1) pt (front ++ e) = some (front ++ e) :=
  h.none (cutStr_of_notMem h.end_blankfree)

/-- A nick at the end of the line is not found. -/
theorem Passed.last (h : Passed nick pt front e [nick]) (hnick : SP ∉ nick) :
    parentnickLoop (SP :: (nick ++ [SP])) parent pt2 (k + 1) pt (front ++ lead SP e [nick]) =
      some (front ++ lead SP e [nick]) := by
  apply h.none
  have hnil : cutStr (SP :: (nick ++ [SP])) (lead SP e []) = Option.none := cutStr_of_notMem h.end_blankfree
  rw [cutStr_lead_cons hnick hnick h.end_blankfree, if_neg (fun h => h.2 rfl), hnil]
  rfl

theorem Passed.found (h : Passed nick pt front e (nick :: w :: ws)) (hnick : SP ∉ nick) :
    cutStr (SP :: (nick ++ [SP])) ((front ++ lead SP e (nick :: w :: ws)).drop (pt + 1)) =
      some (front.drop (pt + 1), w ++ lead SP e ws) := by
  rw [h.search, cutStr_lead_cons hnick hnick h.end_blankfree, if_pos ⟨rfl, by simp⟩]
  simp

theorem Passed.position (h : Passed nick pt front e ws) : pt + 1 + (front.drop (pt + 1)).length = front.length := by
  have hlt := h.pt_lt
  rw [List.length_drop]
  omega

/-- At the nick: the loop stops behind `pt2`. -/
theorem Passed.stop (h : Passed nick pt front e (nick :: w :: ws)) (hnick : SP ∉ nick)
    (hc : ∃ c ∈ pt2, c < front.length) :
    parentnickLoop (SP :: (nick ++ [SP])) parent pt2 (k + 1) pt (front ++ lead SP e (nick :: w :: ws)) =
      some (front ++ lead SP e (nick :: w :: ws)) := by
  apply loop_stop (h.found hnick)
  rw [h.position]
  exact hc

/-- At the nick: the parent's nick is put in. -/
theorem Passed.next (h : Passed nick pt front e (nick :: w :: ws)) (hnick : SP ∉ nick)
    (hc : ¬ ∃ c ∈ pt2, c < front.length) :
    parentnickLoop (SP :: (nick ++ [SP])) parent pt2 (k + 1) pt (front ++ lead SP e (nick :: w :: ws)) =
      parentnickLoop (SP :: (nick ++ [SP])) parent pt2 k front.length
        (clip 8192 (front ++ SP :: parent ++ lead SP e (w :: ws))) := by
  rw [← h.position] at hc
  rw [loop_next (h.found hnick) hc, h.position, List.take_left, lead_cons]
  congr 2
  simp

theorem passed_replaced (hparent : SP ∉ parent) (he : SP ∉ e) :
    Passed nick front.length (front ++ SP :: parent) e ws := by
  apply passed_word
  · simp
  · have hdrop : (front ++ SP :: parent).drop (front.length + 1) = parent := List.drop_length_add_append 1
    rw [hdrop]
    exact hparent
  · exact he

theorem prefix_or_of_take {X : CStr} {n : Nat} (h : X.take n <+: B) (hB : B.length ≤ n) :
    X <+: B ∨ B <+: X := by
  rcases Nat.le_total X.length n with hX | hX
  · rw [List.take_of_length_le hX] at h
    exact Or.inl h
  · have heq : X.take n = B := by
      apply h.eq_of_length_le
      rw [List.length_take_of_le hX]
      exact hB
    rw [← heq]
    exact Or.inr (List.take_prefix _ _)

/-- A nick that was put in stays: the line cannot be the one with the network's nick there. -/
theorem loop_ne (hnick : SP ∉ nick) (hparent : SP ∉ parent) (hne : parent ≠ nick)
    (hB : (front ++ lead SP e (nick :: w :: ws)).length < 8192) :
    parentnickLoop (SP :: (nick ++ [SP])) parent pt2 k front.length
        (clip 8192 (front ++ SP :: parent ++ lead SP e (w :: ws))) ≠ some (front ++ lead SP e (nick :: w :: ws)) := by
  intro h
  have hdrop : (front ++ SP :: parent ++ lead SP e (w :: ws)).drop (front.length + 1) =
      parent ++ lead SP e (w :: ws) := by
    rw [List.append_assoc]
    exact List.drop_length_add_append 1
  have hm : SP ∉ ((clip 8192 (front ++ SP :: parent ++ lead SP e (w :: ws))).drop (front.length + 1)).take
      parent.length := by
    intro hmem
    have hpre := ((clip_prefix_self 8192 (front ++ SP :: parent ++ lead SP e (w :: ws))).drop
      (front.length + 1)).take parent.length
    have hmem' := hpre.subset hmem
    rw [hdrop, List.take_left] at hmem'
    exact hparent hmem'
  have hkeep := take_prefix_loop (by rw [length_clip]; omega) hm h
  have hX : (front ++ SP :: parent ++ lead SP e (w :: ws)).take (front.length + 1 + parent.length + 1) =
      front ++ SP :: (parent ++ [SP]) := by
    have hlen : (front ++ SP :: (parent ++ [SP])).length = front.length + 1 + parent.length + 1 := by
      simp only [List.length_append, List.length_cons, List.length_nil]
      omega
    rw [← hlen]
    have heq : front ++ SP :: parent ++ lead SP e (w :: ws) =
        front ++ SP :: (parent ++ [SP]) ++ (w ++ lead SP e ws) := by
      simp
    rw [heq, List.take_left]
  rw [clip, List.take_take, Nat.min_comm, ← List.take_take, hX] at hkeep
  rw [lead_cons, lead_cons] at hkeep hB
  rcases prefix_or_of_take hkeep (by omega) with hpre | hpre
  · rw [List.prefix_append_right_inj, List.cons_prefix_cons] at hpre
    exact hne (word_eq_of_start hparent hnick hpre.2)
  · rw [List.prefix_append_right_inj, List.cons_prefix_cons] at hpre
    exact hne (word_eq_of_start hnick hparent hpre.2).symm

/-! ## Which words the loop replaces -/

theorem forall_split_cons {P : List CStr → List CStr → Prop} :
    (∀ us vs, w :: ws = us ++ nick :: vs → P us vs) ↔
      (w = nick → P [] ws) ∧ ∀ us vs, ws = us ++ nick :: vs → P (w :: us) vs := by
  constructor
  · intro h
    refine ⟨fun heq => h [] ws (by rw [heq]; rfl), fun us vs heq => h (w :: us) vs (by rw [heq]; rfl)⟩
  · rintro ⟨hhead, htail⟩ us vs heq
    cases us with
    | nil =>
        cases heq
        exact hhead rfl
    | cons u us =>
        rw [List.cons_append, List.cons.injEq] at heq
        rw [← heq.1]
        exact htail us vs heq.2

theorem not_reached_iff (hne : front ≠ []) (hvs : vs ≠ []) :
    ¬ Reached pt2 front vs ↔ ∃ c ∈ pt2, c < front.length := by
  constructor
  · intro h
    by_contra hno
    apply h
    refine ⟨hvs, hne, fun c hc => ?_⟩
    by_contra hlt
    exact hno ⟨c, hc, Nat.lt_of_not_le hlt⟩
  · rintro ⟨c, hc, hlt⟩ hreached
    exact absurd (hreached.2.2 c hc) (Nat.not_le.2 hlt)

/-- In the text: it stays as it is if the loop does not get to a nick there. -/
theorem loop_text_iff (hnick : SP ∉ nick) (hparent : SP ∉ parent) (hne : parent ≠ nick)
    (hws : ∀ w ∈ ws, SP ∉ w) (h : Passed nick pt front e ws) (hB : (front ++ lead SP e ws).length < 8192)
    (hk : ws.length < k) :
    parentnickLoop (SP :: (nick ++ [SP])) parent pt2 k pt (front ++ lead SP e ws) =
        some (front ++ lead SP e ws) ↔
      ∀ us vs, ws = us ++ nick :: vs → ¬ Reached pt2 (front ++ lead SP [] us) vs := by
  cases k with
  | zero => exact absurd hk (Nat.not_lt_zero _)
  | succ k =>
  induction ws generalizing front with
  | nil =>
      rw [lead_nil, h.done]
      simp
  | cons w ws ih =>
      rw [List.forall_mem_cons] at hws
      rw [forall_split_cons]
      by_cases hw : w = nick
      · subst hw
        have hfront : front ≠ [] := List.ne_nil_of_length_pos (Nat.lt_of_le_of_lt (Nat.zero_le _) h.pt_lt)
        cases ws with
        | nil =>
            rw [h.last hnick]
            simp [Reached]
        | cons v ws =>
            by_cases hc : ∃ c ∈ pt2, c < front.length
            · rw [h.stop hnick hc]
              refine ⟨fun _ => ⟨fun _ => ?_, fun us vs _ hreached => ?_⟩, fun _ => rfl⟩
              · rw [lead_nil, List.append_nil]
                exact (not_reached_iff hfront (by simp)).2 hc
              · rcases hc with ⟨c, hc, hlt⟩
                have hle := hreached.2.2 c hc
                rw [List.length_append] at hle
                omega
            · rw [h.next hnick hc]
              constructor
              · exact fun hsame => absurd hsame (loop_ne hnick hparent hne hB)
              · intro hno
                have hnot := hno.1 rfl
                rw [lead_nil, List.append_nil] at hnot
                exact absurd ((not_reached_iff hfront (by simp)).1 hnot) hc
      · have heq : front ++ lead SP e (w :: ws) = front ++ SP :: w ++ lead SP e ws := by simp
        rw [heq] at hB ⊢
        rw [ih hws.2 (h.skip hnick hws.1 hw) hB (Nat.lt_of_succ_lt hk)]
        have hsplit : ∀ e us, front ++ SP :: w ++ lead SP e us = front ++ lead SP e (w :: us) := by simp
        simp only [hsplit]
        exact ⟨fun hrest => ⟨fun hno => absurd hno hw, hrest⟩, And.right⟩

theorem inHeader_cons : InHeader (w :: us) ↔ w.head? ≠ some COLON ∧ InHeader us := List.forall_mem_cons

theorem length_lead_renameWords (hle : nick.length ≤ parent.length) :
    (lead SP e ws).length ≤ (lead SP e (renameWords nick parent ws)).length := by
  induction ws with
  | nil => exact Nat.le_refl _
  | cons w ws ih =>
      rw [renameWords]
      split
      · exact Nat.le_refl _
      · rw [lead_cons, lead_cons, List.length_cons, List.length_cons, List.length_append, List.length_append]
        split
        · next hw =>
          rw [hw]
          omega
        · omega

theorem renameWords_eq_nil : renameWords nick parent ws = [] ↔ ws = [] := by
  cases ws with
  | nil => exact Iff.rfl
  | cons w ws =>
      rw [renameWords]
      split <;> simp

/-- The nick in front of a blank is not the parent's. -/
theorem replaced_ne (hnick : SP ∉ nick) (hparent : SP ∉ parent) (hne : parent ≠ nick) (hws : ws ≠ [])
    (hvs : vs ≠ []) :
    front ++ lead SP e (nick :: ws) ≠ front ++ lead SP e (parent :: vs) := by
  rcases List.exists_cons_of_ne_nil hws with ⟨w, ws, rfl⟩
  rcases List.exists_cons_of_ne_nil hvs with ⟨v, vs, rfl⟩
  intro h
  rw [List.append_right_inj, lead_cons, lead_cons, lead_cons, lead_cons, List.cons.injEq] at h
  exact hne (append_cons_inj_of_notMem hnick hparent h.2).1.symm

/-- The loop gets to every nick in the header and to none in the text, and the line stays short enough. -/
def AllReplaced (nick parent : CStr) (pt2 : Option Nat) (front e : CStr) (ws : List CStr) : Prop :=
  (∀ us vs, ws = us ++ nick :: vs →
    (InHeader (us ++ [nick]) ↔ Reached pt2 (front ++ lead SP [] (renameWords nick parent us)) vs)) ∧
  (front ++ lead SP e (renameWords nick parent ws)).length < 8192

theorem renameWords_text (hcolon : w.head? = some COLON) (us : List CStr) :
    renameWords nick parent (w :: us) = w :: us := by
  rw [renameWords, if_pos hcolon]

theorem renameWords_header (hcolon : w.head? ≠ some COLON) (us : List CStr) :
    renameWords nick parent (w :: us) = (if w = nick then parent else w) :: renameWords nick parent us := by
  rw [renameWords, if_neg hcolon]

/-- The text begins. -/
theorem allReplaced_text_iff (hcolon : w.head? = some COLON) (hB : (front ++ lead SP e (w :: ws)).length < 8192) :
    AllReplaced nick parent pt2 front e (w :: ws) ↔
      ∀ us vs, w :: ws = us ++ nick :: vs → ¬ Reached pt2 (front ++ lead SP [] us) vs := by
  rw [AllReplaced, renameWords_text hcolon, forall_split_cons, forall_split_cons]
  simp only [renameWords_text hcolon]
  constructor
  · rintro ⟨⟨hhead, hrest⟩, _⟩
    refine ⟨fun heq hreached => ?_, fun us vs hsplit hreached => ?_⟩
    · exact (hhead heq).2 hreached nick (by simp) (heq ▸ hcolon)
    · exact (hrest us vs hsplit).2 hreached w (by simp) hcolon
  · rintro ⟨hhead, hrest⟩
    refine ⟨⟨fun heq => ?_, fun us vs hsplit => ?_⟩, hB⟩
    · exact iff_of_false (fun hin => hin nick (by simp) (heq ▸ hcolon)) (hhead heq)
    · exact iff_of_false (fun hin => hin w (by simp) hcolon) (hrest us vs hsplit)

/-- A word of the header that is not the nick. -/
theorem allReplaced_other_iff (hcolon : w.head? ≠ some COLON) (hw : w ≠ nick) :
    AllReplaced nick parent pt2 front e (w :: ws) ↔ AllReplaced nick parent pt2 (front ++ SP :: w) e ws := by
  have hsplit : ∀ e us, front ++ lead SP e (w :: us) = front ++ SP :: w ++ lead SP e us := by simp
  rw [AllReplaced, AllReplaced, forall_split_cons]
  simp only [renameWords_header hcolon, if_neg hw, hsplit, List.cons_append, inHeader_cons, and_iff_right hcolon]
  constructor
  · rintro ⟨⟨_, hrest⟩, hlen⟩
    exact ⟨hrest, hlen⟩
  · rintro ⟨hrest, hlen⟩
    exact ⟨⟨fun hno => absurd hno hw, hrest⟩, hlen⟩

/-- The nick in the header. -/
theorem allReplaced_nick_iff (hcolon : nick.head? ≠ some COLON) :
    AllReplaced nick parent pt2 front e (nick :: ws) ↔
      Reached pt2 front ws ∧ AllReplaced nick parent pt2 (front ++ SP :: parent) e ws := by
  have hself : InHeader [] := by simp [InHeader]
  have hsplit : ∀ e us, front ++ lead SP e (parent :: us) = front ++ SP :: parent ++ lead SP e us := by simp
  rw [AllReplaced, AllReplaced, forall_split_cons]
  simp only [renameWords_header hcolon, if_true, hsplit, List.cons_append, inHeader_cons, and_iff_right hcolon,
    List.nil_append]
  have hfirst : (InHeader [] ↔ Reached pt2 (front ++ lead SP [] (renameWords nick parent [])) ws) ↔
      Reached pt2 front ws := by
    rw [renameWords, lead_nil, List.append_nil, iff_true_left hself]
  rw [true_imp_iff, hfirst, and_assoc]

/-- At the nick: the loop stops there, or goes on behind the parent's nick. -/
theorem loop_nick_iff (hnick : SP ∉ nick) (hparent : SP ∉ parent) (hne : parent ≠ nick)
    (hcolon : nick.head? ≠ some COLON) (h : Passed nick pt front e (nick :: ws))
    (hB : (front ++ lead SP e (nick :: ws)).length < 8192)
    (hnext : (front ++ SP :: parent ++ lead SP e ws).length < 8192 →
      (parentnickLoop (SP :: (nick ++ [SP])) parent pt2 k front.length (front ++ SP :: parent ++ lead SP e ws) =
        some (front ++ SP :: parent ++ lead SP e (renameWords nick parent ws)) ↔
          AllReplaced nick parent pt2 (front ++ SP :: parent) e ws)) :
    parentnickLoop (SP :: (nick ++ [SP])) parent pt2 (k + 1) pt (front ++ lead SP e (nick :: ws)) =
        some (front ++ lead SP e (renameWords nick parent (nick :: ws))) ↔
      AllReplaced nick parent pt2 front e (nick :: ws) := by
  have hfront : front ≠ [] := List.ne_nil_of_length_pos (Nat.lt_of_le_of_lt (Nat.zero_le _) h.pt_lt)
  rw [allReplaced_nick_iff hcolon, renameWords_header hcolon, if_pos rfl]
  cases ws with
  | nil =>
      -- No blank stands behind the last word, and the nick is not found there.
      rw [h.last hnick]
      refine iff_of_false (fun hsame => ?_) (fun hno => hno.1.1 rfl)
      rw [Option.some.injEq, List.append_right_inj, lead_cons, lead_cons, lead_nil] at hsame
      simp [renameWords] at hsame
      exact hne hsame.symm
  | cons v ws =>
      by_cases hc : ∃ c ∈ pt2, c < front.length
      · -- The mark `pt2` lies in front of the nick, and the loop ends there.
        rw [h.stop hnick hc]
        refine iff_of_false (fun hsame => ?_) (fun hno => ?_)
        · have hvs : renameWords nick parent (v :: ws) ≠ [] := by
            rw [ne_eq, renameWords_eq_nil]
            simp
          exact replaced_ne hnick hparent hne (by simp) hvs (Option.some.inj hsame)
        · exact (not_reached_iff hfront (by simp)).2 hc hno.1
      · rw [h.next hnick hc]
        have hreached : Reached pt2 front (v :: ws) := by
          rw [← not_not (a := Reached pt2 front (v :: ws)), not_reached_iff hfront (by simp)]
          exact hc
        have hsplit : ∀ e us, front ++ lead SP e (parent :: us) = front ++ SP :: parent ++ lead SP e us := by simp
        rw [and_iff_right hreached, hsplit]
        by_cases hfit : (front ++ SP :: parent ++ lead SP e (v :: ws)).length < 8192
        · rw [clip_eq_self hfit, hnext hfit]
        · -- The parent's nick is longer, and the whole line would not fit either.
          have hlong : 8192 ≤ (front ++ SP :: parent ++ lead SP e (renameWords nick parent (v :: ws))).length := by
            have hle : nick.length ≤ parent.length := by
              rw [List.length_append, lead_cons, List.length_cons, List.length_append] at hB
              rw [List.length_append, List.length_append, List.length_cons] at hfit
              omega
            have hgrow := @length_lead_renameWords nick parent (v :: ws) e hle
            rw [List.length_append] at hfit ⊢
            omega
          refine iff_of_false (fun hsame => ?_) (fun hno => ?_)
          · have hlen := length_loop (by rw [length_clip]; omega) hsame
            omega
          · have hlen := hno.2
            omega

/-- In the header: all nicks are to be replaced. -/
theorem loop_header_iff (hnick : SP ∉ nick) (hparent : SP ∉ parent) (hne : parent ≠ nick)
    (hws : ∀ w ∈ ws, SP ∉ w) (h : Passed nick pt front e ws) (hB : (front ++ lead SP e ws).length < 8192)
    (hk : ws.length < k) :
    parentnickLoop (SP :: (nick ++ [SP])) parent pt2 k pt (front ++ lead SP e ws) =
        some (front ++ lead SP e (renameWords nick parent ws)) ↔
      AllReplaced nick parent pt2 front e ws := by
  induction ws generalizing front pt k with
  | nil =>
      cases k with
      | zero => exact absurd hk (Nat.not_lt_zero _)
      | succ k =>
          rw [lead_nil, h.done]
          refine ⟨fun _ => ⟨by simp, hB⟩, fun _ => rfl⟩
  | cons w ws ih =>
      by_cases hcolon : w.head? = some COLON
      · rw [allReplaced_text_iff hcolon hB, renameWords_text hcolon]
        exact loop_text_iff hnick hparent hne hws h hB hk
      · rw [List.forall_mem_cons] at hws
        cases k with
        | zero => exact absurd hk (Nat.not_lt_zero _)
        | succ k =>
            by_cases hw : w = nick
            · subst hw
              apply loop_nick_iff hnick hparent hne hcolon h hB
              exact fun hfit => ih hws.2 (passed_replaced hparent h.end_blankfree) hfit (Nat.lt_of_succ_lt_succ hk)
            · have hsplit : ∀ e us, front ++ lead SP e (w :: us) = front ++ SP :: w ++ lead SP e us := by simp
              rw [allReplaced_other_iff hcolon hw, renameWords_header hcolon, if_neg hw]
              rw [hsplit] at hB
              rw [hsplit, hsplit]
              exact ih hws.2 (h.skip hnick hws.1 hw) hB (Nat.lt_of_succ_lt hk)

/-- A nick behind a blank at the start of the line stays. -/
theorem loop_blank_ne (hnick : SP ∉ nick) (hparent : SP ∉ parent) (hne : parent ≠ nick) (he : SP ∉ e)
    (hB : (SP :: nick ++ lead SP e ws).length < 8192) :
    parentnickLoop (SP :: (nick ++ [SP])) parent pt2 k 0 (SP :: nick ++ lead SP e ws) ≠
      some (SP :: parent ++ lead SP e (renameWords nick parent ws)) := by
  intro hsame
  cases ws with
  | nil =>
      cases k with
      | zero => cases hsame
      | succ k =>
          have hpassed : Passed nick 0 (SP :: nick) e [] := passed_word (Nat.succ_pos _) hnick he
          rw [lead_nil, hpassed.done] at hsame
          simp [renameWords] at hsame
          exact hne hsame.symm
  | cons u ws =>
      have hm : SP ∉ ((SP :: nick ++ lead SP e (u :: ws)).drop (0 + 1)).take nick.length := by
        rw [List.cons_append, List.drop_succ_cons, List.drop_zero, List.take_left]
        exact hnick
      have hkeep := take_prefix_loop hB hm hsame
      have hfront : SP :: (nick ++ [SP]) <+: SP :: parent ++ lead SP e (renameWords nick parent (u :: ws)) := by
        apply List.IsPrefix.trans _ hkeep
        rw [List.prefix_take_iff]
        refine ⟨⟨u ++ lead SP e ws, by simp⟩, ?_⟩
        simp only [List.length_cons, List.length_append, List.length_nil]
        omega
      rw [List.cons_append, List.cons_prefix_cons, word_prefix_iff hnick hparent he] at hfront
      exact hne hfront.2.1

/-- From the start of a line; a blank there is not looked at. -/
theorem loop_start_iff (hnick : SP ∉ nick) (hparent : SP ∉ parent) (hne : parent ≠ nick)
    (hw : SP ∉ w) (hws : ∀ w ∈ ws, SP ∉ w) (he : SP ∉ e) (hB : (w ++ lead SP e ws).length < 8192)
    (hk : ws.length < k) :
    parentnickLoop (SP :: (nick ++ [SP])) parent pt2 k 0 (w ++ lead SP e ws) =
        some (w ++ lead SP e (renameWords nick parent ws)) ↔
      AllReplaced nick parent pt2 w e ws := by
  cases w with
  | cons b w =>
      apply loop_header_iff hnick hparent hne hws _ hB hk
      apply passed_word (Nat.succ_pos _)
      · exact fun hmem => hw (List.mem_of_mem_drop hmem)
      · exact he
  | nil =>
      cases ws with
      | nil =>
          cases k with
          | zero => exact absurd hk (Nat.not_lt_zero _)
          | succ k =>
              have hnone : cutStr (SP :: (nick ++ [SP])) (([] ++ lead SP e []).drop (0 + 1)) = none :=
                cutStr_of_notMem fun hmem => he (List.mem_of_mem_drop hmem)
              rw [loop_none hnone]
              exact iff_of_true rfl ⟨by simp, hB⟩
      | cons v ws =>
          rw [List.forall_mem_cons] at hws
          have hpassed : Passed nick 0 (SP :: v) e ws := passed_word (Nat.succ_pos _) hws.1 he
          have hsplit : ∀ e v us, [] ++ lead SP e (v :: us) = SP :: v ++ lead SP e us := by simp
          by_cases hcolon : v.head? = some COLON
          · rw [allReplaced_text_iff hcolon hB, renameWords_text hcolon, forall_split_cons]
            rw [hsplit] at hB ⊢
            rw [loop_text_iff hnick hparent hne hws.2 hpassed hB (Nat.lt_of_succ_lt hk)]
            simp only [hsplit]
            exact ⟨fun hrest => ⟨fun _ h => h.2.1 rfl, hrest⟩, And.right⟩
          · by_cases hv : v = nick
            · subst hv
              rw [allReplaced_nick_iff hcolon, renameWords_header hcolon, if_pos rfl, hsplit, hsplit]
              rw [hsplit] at hB
              exact iff_of_false (loop_blank_ne hws.1 hparent hne he hB) (fun hno => hno.1.2.1 rfl)
            · rw [allReplaced_other_iff hcolon hv, renameWords_header hcolon, if_neg hv, hsplit, hsplit]
              rw [hsplit] at hB
              exact loop_header_iff hnick hparent hne hws.2 hpassed hB (Nat.lt_of_succ_lt hk)

/-- A first word that is the nick stays. -/
theorem loop_first_ne (hnick : SP ∉ nick) (hparent : SP ∉ parent) (hne : parent ≠ nick) (he : SP ∉ e)
    (hB : (nick ++ lead SP e ws).length < 8192) :
    parentnickLoop (SP :: (nick ++ [SP])) parent pt2 k 0 (nick ++ lead SP e ws) ≠
      some (parent ++ lead SP e (renameWords nick parent ws)) := by
  intro hsame
  cases ws with
  | nil =>
      cases k with
      | zero => cases hsame
      | succ k =>
          have hnone : cutStr (SP :: (nick ++ [SP])) ((nick ++ lead SP e []).drop (0 + 1)) = none := by
            apply cutStr_of_notMem
            intro hmem
            rcases List.mem_append.1 (List.mem_of_mem_drop hmem) with hmem | hmem
            · exact hnick hmem
            · exact he hmem
          rw [loop_none hnone] at hsame
          simp [renameWords] at hsame
          exact hne hsame.symm
  | cons v ws =>
      have hm : SP ∉ ((nick ++ lead SP e (v :: ws)).drop (0 + 1)).take (nick.length - 1) := by
        intro hmem
        cases hn : nick with
        | nil => simp [hn] at hmem
        | cons b n =>
            rw [hn, List.cons_append, List.drop_succ_cons, List.drop_zero, List.length_cons, Nat.add_sub_cancel,
              List.take_left] at hmem
            exact hnick (hn ▸ List.mem_cons_of_mem b hmem)
      have hkeep := take_prefix_loop hB hm hsame
      have hfront : nick ++ [SP] <+: parent ++ lead SP e (renameWords nick parent (v :: ws)) := by
        apply List.IsPrefix.trans _ hkeep
        rw [List.prefix_take_iff]
        refine ⟨⟨v ++ lead SP e ws, by simp⟩, ?_⟩
        simp only [List.length_append, List.length_singleton]
        omega
      rw [word_prefix_iff hnick hparent he] at hfront
      exact hne hfront.1

end Loop

/-! ## The whole function -/

section Whole

variable {nick parent w p e line t : CStr} {ws us : List CStr} {u : NetworkUser} {usern : Nat}

/-- The words and the end of a line. -/
structure Worded (line w : CStr) (ws : List CStr) (e : CStr) : Prop where
  eq : line = w ++ lead SP e ws
  first : SP ∉ w
  words : ∀ v ∈ ws, SP ∉ v
  ending : ∀ b ∈ e, b = CR ∨ b = LF
  lineWords_eq : lineWords line = w :: ws
  lineBreak_eq : lineBreak line = e

theorem exists_worded (line : CStr) : ∃ w ws e, Worded line w ws e := by
  rcases exists_lead SP (line.rdropWhile fun b => b == CR || b == LF) with ⟨w, ws, heq, hw, hws⟩
  refine ⟨w, ws, lineBreak line, ?_, hw, hws, ?_, ?_, rfl⟩
  · calc line
        = line.rdropWhile (fun b => b == CR || b == LF) ++ lineBreak line :=
          List.rdropWhile_append_rtakeWhile.symm
      _ = w ++ lead SP [] ws ++ lineBreak line := by rw [heq]
      _ = w ++ lead SP (lineBreak line) ws := by rw [List.append_assoc, ← lead_append_end, List.nil_append]
  · intro b hb
    simpa using List.mem_rtakeWhile_imp hb
  · rw [lineWords, heq, splitOn_lead hw hws]

theorem Worded.end_blankfree (h : Worded line w ws e) : SP ∉ e := by
  intro hmem
  rcases h.ending SP hmem with hsp | hsp
  · cases hsp
  · cases hsp

theorem afterPrefix_word (hp : SP ∉ p) (he : ∀ b ∈ e, b ∉ p) :
    afterPrefix p (w ++ lead SP e ws) = (afterPrefix p w).map (· ++ lead SP e ws) := by
  cases h : afterPrefix p w with
  | some t =>
      rw [afterPrefix_eq_some.1 h, List.append_assoc, afterPrefix_append]
      rfl
  | none =>
      rw [Option.map_none, afterPrefix_eq_none]
      intro hpre
      have hno := afterPrefix_eq_none.1 h
      rcases Nat.le_total p.length w.length with hle | hle
      · exact hno (List.prefix_of_prefix_length_le hpre (List.prefix_append _ _) hle)
      · rcases List.prefix_of_prefix_length_le (List.prefix_append w (lead SP e ws)) hpre hle with ⟨r, rfl⟩
        rw [List.prefix_append_right_inj] at hpre
        cases r with
        | nil => exact hno (by simp)
        | cons b r =>
            -- What follows the word is a blank or the end of the line, and neither is in `p`.
            cases ws with
            | nil => exact he b (hpre.subset List.mem_cons_self) (by simp)
            | cons v ws =>
                rw [lead_cons, List.cons_prefix_cons] at hpre
                rw [← hpre.1] at hp
                exact hp (by simp)

/-- The source of a line is looked for in its first word. -/
theorem afterPrefix_source (hnick : NickText nick) (h : Worded line w ws e) :
    afterPrefix (COLON :: (nick ++ [EXCL])) line =
      (afterPrefix (COLON :: (nick ++ [EXCL])) w).map (· ++ lead SP e ws) := by
  rw [h.eq]
  apply afterPrefix_word
  · simp only [List.mem_cons, List.mem_append, List.not_mem_nil, or_false, not_or]
    exact ⟨by decide, hnick.1, by decide⟩
  · intro b hb
    simp only [List.mem_cons, List.mem_append, List.not_mem_nil, or_false, not_or]
    rcases h.ending b hb with rfl | rfl
    · exact ⟨by decide, hnick.2.1, by decide⟩
    · exact ⟨by decide, hnick.2.2, by decide⟩

theorem clip_sourceText (hlen : nick.length < 64) :
    clip 70 (COLON :: (nick ++ [EXCL])) = COLON :: (nick ++ [EXCL]) := by
  apply clip_eq_self
  simp only [List.length_cons, List.length_append, List.length_nil]
  omega

theorem clip_wordText (hlen : nick.length < 64) : clip 70 (SP :: (nick ++ [SP])) = SP :: (nick ++ [SP]) := by
  apply clip_eq_self
  simp only [List.length_cons, List.length_append, List.length_nil]
  omega

theorem renameSource_nick : renameSource nick parent nick = parent := by
  have hno : afterPrefix (COLON :: (nick ++ [EXCL])) nick = none := by
    rw [afterPrefix_eq_none]
    intro hpre
    have hle := hpre.length_le
    simp only [List.length_cons, List.length_append, List.length_nil] at hle
    omega
  rw [renameSource, hno]
  exact if_pos rfl

theorem renameSource_blankfree (hparent : SP ∉ parent) (hw : SP ∉ w) (hwn : w ≠ nick) :
    SP ∉ renameSource nick parent w := by
  rw [renameSource]
  cases h : afterPrefix (COLON :: (nick ++ [EXCL])) w with
  | none => rwa [if_neg hwn]
  | some host =>
      rw [afterPrefix_eq_some.1 h] at hw
      simp only [List.mem_cons, List.mem_append, not_or] at hw ⊢
      exact ⟨by decide, hparent, by decide, hw.2⟩

/-- A source that grows has the longer nick. -/
theorem length_renameSource (hwn : w ≠ nick) (h : w.length < (renameSource nick parent w).length) :
    nick.length ≤ parent.length := by
  rw [renameSource] at h
  cases hsource : afterPrefix (COLON :: (nick ++ [EXCL])) w with
  | none =>
      rw [hsource] at h
      simp only [if_neg hwn] at h
      omega
  | some host =>
      rw [hsource] at h
      have hw := congrArg List.length (afterPrefix_eq_some.1 hsource)
      simp only [List.length_cons, List.length_append, List.length_nil] at hw h
      omega

theorem parentSource_line (hnick : NickText nick) (hlen : nick.length < 64) (hwn : w ≠ nick)
    (h : Worded line w ws e) (hline : line.length < 8192) :
    parentSource nick parent line = clip 8192 (renameSource nick parent w ++ lead SP e ws) := by
  rw [parentSource, clip_sourceText hlen, afterPrefix_source hnick h, renameSource]
  cases hsource : afterPrefix (COLON :: (nick ++ [EXCL])) w with
  | none =>
      simp only [Option.map_none, if_neg hwn]
      rw [← h.eq]
      exact (clip_eq_self hline).symm
  | some host =>
      simp

theorem parentSource_nick (hnick : NickText nick) (hlen : nick.length < 64) (h : Worded line nick ws e) :
    parentSource nick parent line = line := by
  have hno : afterPrefix (COLON :: (nick ++ [EXCL])) nick = none := by
    rw [afterPrefix_eq_none]
    intro hpre
    have hle := hpre.length_le
    simp only [List.length_cons, List.length_append, List.length_nil] at hle
    omega
  rw [parentSource, clip_sourceText hlen, afterPrefix_source hnick h, hno]
  rfl

theorem Worded.renamed_eq (h : Worded line w ws e) :
    renamed nick parent line = renameSource nick parent w ++ lead SP e (renameWords nick parent ws) := by
  rw [renamed, h.lineWords_eq, h.lineBreak_eq]

theorem renameWords_self : renameWords nick nick ws = ws := by
  induction ws with
  | nil => rfl
  | cons w ws ih =>
      rw [renameWords, ih]
      split
      · rfl
      · split
        · next hw => rw [hw]
        · rfl

theorem renamed_self (line : CStr) : renamed nick nick line = line := by
  rcases exists_worded line with ⟨w, ws, e, h⟩
  have hsource : renameSource nick nick w = w := by
    rw [renameSource]
    cases hhost : afterPrefix (COLON :: (nick ++ [EXCL])) w with
    | none =>
        simp only
        split
        · next hw => exact hw.symm
        · rfl
    | some host =>
        rw [afterPrefix_eq_some.1 hhost]
        simp
  rw [h.renamed_eq, hsource, renameWords_self, ← h.eq]

/-- What `parentnick` makes of the line of a user whose nick differs. -/
def parentLine (nick parent line : CStr) : Option CStr :=
  let line := parentSource nick parent line
  if line.length < 1 then some line
  else parentnickLoop (SP :: (nick ++ [SP])) parent (firstColon line) 8192 0 line

theorem parentnick_eq (huser : usern ≤ 10000) (hparent : u.uparent ≠ 0) :
    (parentnick usern u line).map Prod.fst =
      if strmncasecmp u.nick u.parentnick then some line
      else parentLine u.nick (u.named line).parentnick line := by
  rw [parentnick, if_neg (Nat.not_lt.2 huser), if_neg hparent]
  split
  · rfl
  · rw [parentLine]
    simp only [clip_wordText u.nick_lt]
    split
    · rfl
    · rw [Option.map_map]
      exact congrFun Option.map_id _

theorem length_parentSource (hline : line.length < 8192) : (parentSource nick parent line).length < 8192 := by
  rw [parentSource]
  split
  · rw [length_clip]
    omega
  · exact hline

theorem parentLine_returns (hline : line.length < 8192) :
    ∃ out, parentLine nick parent line = some out ∧ out.length < 8192 := by
  have hlen := @length_parentSource nick parent line hline
  rw [parentLine]
  split
  · exact ⟨_, rfl, hlen⟩
  · exact loop_returns (by simp) hlen (by decide) (by decide)

/-- `parentnick` returns, whatever the nicks are. -/
theorem parentnick_returns (usern : Nat) (u : NetworkUser) (hline : line.length < 8192) :
    ∃ out, parentnick usern u line = some out := by
  rw [parentnick]
  split
  · exact ⟨_, rfl⟩
  split
  · exact ⟨_, rfl⟩
  split
  · exact ⟨_, rfl⟩
  simp only [clip_wordText u.nick_lt]
  rcases @parentLine_returns u.nick (u.named line).parentnick line hline with ⟨out, hout, _⟩
  rw [parentLine] at hout
  split
  · exact ⟨_, rfl⟩
  · next hlen =>
    rw [if_neg hlen] at hout
    rw [hout]
    exact ⟨_, rfl⟩

theorem parentLine_self (hline : line.length < 8192) (hnick : nick.length < 64) :
    parentLine nick nick line = some line := by
  have hsource : parentSource nick nick line = line := by
    rw [parentSource, clip_sourceText hnick]
    cases h : afterPrefix (COLON :: (nick ++ [EXCL])) line with
    | none => rfl
    | some pt =>
        have heq := afterPrefix_eq_some.1 h
        rw [List.cons_append, List.append_assoc, List.singleton_append] at heq
        calc clip 8192 (COLON :: (nick ++ EXCL :: pt))
            = clip 8192 line := by rw [← heq]
          _ = line := clip_eq_self hline
  rcases @parentLine_returns nick nick line hline with ⟨out, hout, _⟩
  rw [hout]
  rw [parentLine, hsource] at hout
  split at hout
  · exact hout.symm
  · rw [loop_same hline hout]

/-- The words of a line behind the first one. -/
theorem Worded.inPlace_iff (h : Worded line w ws e) :
    InPlace nick parent line ↔
      w ≠ nick ∧ ∀ us vs, ws = us ++ nick :: vs →
        (InHeader (us ++ [nick]) ↔
          Reached (firstColon (renameSource nick parent w ++ lead SP e ws))
            (renameSource nick parent w ++ lead SP [] (renameWords nick parent us)) vs) := by
  have hsplit := h.lineWords_eq
  constructor
  · intro hplace
    have hfirst := hplace.first
    rw [hsplit] at hfirst
    refine ⟨fun heq => hfirst (by rw [heq]; rfl), fun us vs heq => ?_⟩
    have hwords := hplace.words w us vs (by rw [hsplit, heq])
    rw [heq]
    rwa [h.lineBreak_eq] at hwords
  · rintro ⟨hfirst, hwords⟩
    constructor
    · rw [hsplit]
      exact fun heq => hfirst (Option.some.inj heq)
    · intro w' us vs heq
      rw [hsplit, List.cons.injEq] at heq
      rw [h.lineBreak_eq, ← heq.1, ← heq.2]
      exact hwords us vs heq.2

theorem parentLine_iff (hnick : NickText nick) (hparent : SP ∉ parent) (hlen : nick.length < 64)
    (hne : parent ≠ nick) (hline : line.length < 8192) :
    parentLine nick parent line = some (renamed nick parent line) ↔
      InPlace nick parent line ∧ (renamed nick parent line).length < 8192 := by
  rcases exists_worded line with ⟨w, ws, e, h⟩
  rw [h.renamed_eq, h.inPlace_iff]
  by_cases hwn : w = nick
  · -- The first word is the nick and stays.
    subst hwn
    refine iff_of_false (fun hsame => ?_) (fun h => h.1.1 rfl)
    rw [renameSource_nick, parentLine, parentSource_nick hnick hlen h, h.eq] at hsame
    split at hsame
    · next hempty =>
      have hnil := List.length_eq_zero_iff.1 (Nat.lt_one_iff.1 hempty)
      rw [hnil, Option.some.injEq] at hsame
      rw [List.append_eq_nil_iff] at hnil
      rw [eq_comm, List.append_eq_nil_iff] at hsame
      exact hne (by rw [hsame.1, hnil.1])
    · rw [h.eq] at hline
      exact loop_first_ne hnick.1 hparent hne h.end_blankfree hline hsame
  · by_cases hfit : (renameSource nick parent w ++ lead SP e ws).length < 8192
    · rw [parentLine, parentSource_line hnick hlen hwn h hline, clip_eq_self hfit]
      have hk : ws.length < 8192 := by
        have hle := @length_le_lead SP e ws
        rw [List.length_append] at hfit
        omega
      have hstart := @loop_start_iff nick parent (renameSource nick parent w)
        (firstColon (renameSource nick parent w ++ lead SP e ws)) 8192 ws e hnick.1 hparent hne
        (renameSource_blankfree hparent h.first hwn) h.words h.end_blankfree hfit hk
      -- An empty line does not come to the loop, which would leave it anyway.
      have hsome : ∀ line : CStr,
          (if line.length < 1 then some line
            else parentnickLoop (SP :: (nick ++ [SP])) parent (firstColon line) 8192 0 line) =
          parentnickLoop (SP :: (nick ++ [SP])) parent (firstColon line) 8192 0 line := by
        intro line
        split
        · next hempty =>
          rw [List.length_eq_zero_iff.1 (Nat.lt_one_iff.1 hempty)]
          exact (loop_none rfl).symm
        · rfl
      rw [hsome, hstart]
      constructor
      · rintro ⟨hwords, hlen⟩
        exact ⟨⟨hwn, hwords⟩, hlen⟩
      · rintro ⟨⟨_, hwords⟩, hlen⟩
        exact ⟨hwords, hlen⟩
    · -- The source does not fit, and the whole line would not fit either.
      have hlong : 8192 ≤ (renameSource nick parent w ++ lead SP e (renameWords nick parent ws)).length := by
        have hle : nick.length ≤ parent.length := by
          apply length_renameSource hwn
          rw [h.eq, List.length_append] at hline
          rw [List.length_append] at hfit
          omega
        have hgrow := @length_lead_renameWords nick parent ws e hle
        rw [List.length_append] at hfit ⊢
        omega
      refine iff_of_false (fun hsame => ?_) (fun hno => ?_)
      · rcases @parentLine_returns nick parent line hline with ⟨out, hout, hshort⟩
        rw [hout, Option.some.injEq] at hsame
        rw [hsame] at hshort
        omega
      · omega

end Whole

theorem parentnick_iff (usern : Nat) (u : NetworkUser) (line : CStr) (huser : usern ≤ 10000)
    (hparent : u.uparent ≠ 0) (hblank : u.Blankfree) (hline : line.length < 8192) :
    (∃ out, parentnick usern u line = some out) ∧
      ((parentnick usern u line).map Prod.fst = some (u.rename line) ↔ u.Placed line) := by
  refine ⟨parentnick_returns usern u hline, ?_⟩
  rw [parentnick_eq huser hparent, NetworkUser.rename, NetworkUser.Placed]
  by_cases hsame : strmncasecmp u.nick u.parentnick = true
  · rw [if_pos hsame, if_pos hsame]
    exact iff_of_true rfl (Or.inl hsame)
  · rw [if_neg hsame, if_neg hsame]
    simp only [hsame, Bool.false_eq_true, false_or]
    have hnamed : SP ∉ (u.named line).parentnick := by
      rw [NetworkUser.named]
      split
      · exact hblank.wantnick.1
      · exact hblank.parentnick.1
    by_cases hne : (u.named line).parentnick = u.nick
    · rw [hne, parentLine_self hline u.nick_lt, renamed_self]
      exact iff_of_true rfl (Or.inl rfl)
    · rw [parentLine_iff hblank.nick hnamed u.nick_lt hne hline]
      exact (or_iff_right hne).symm

/-- A network user whose nick is longer than the parent's. -/
def longNick : NetworkUser where
  uparent := 1
  nick := ascii "abcdefgh"
  parentnick := ascii "x"
  wantnick := ascii "x"
  nick_lt := Nat.lt_of_sub_eq_succ rfl
  parentnick_lt := Nat.lt_of_sub_eq_succ rfl
  wantnick_lt := Nat.lt_of_sub_eq_succ rfl

theorem longNick_blankfree : longNick.Blankfree where
  nick := ⟨by decide, by decide, by decide⟩
  parentnick := ⟨by decide, by decide, by decide⟩
  wantnick := ⟨by decide, by decide, by decide⟩

theorem parentnick_iff_welcome :
    (∃ out, parentnick 2 longNick (ascii ":irc 001 abcdefgh :Welcome\r\n") = some out) ∧
      ((parentnick 2 longNick (ascii ":irc 001 abcdefgh :Welcome\r\n")).map Prod.fst =
          some (longNick.rename (ascii ":irc 001 abcdefgh :Welcome\r\n")) ↔
        longNick.Placed (ascii ":irc 001 abcdefgh :Welcome\r\n")) :=
  parentnick_iff 2 longNick _ (by decide) (by decide) longNick_blankfree (by decide)

/-- The header is seven bytes shorter with the parent's nick, and the first nick in the text is taken for one
of the header. -/
theorem parentnick_text :
    ¬ ∀ (usern : Nat) (u : NetworkUser) (line : CStr), usern ≤ 10000 → u.uparent ≠ 0 → u.Blankfree →
      line.length < 8192 → (parentnick usern u line).map Prod.fst = some (u.rename line) := by
  intro h
  have hrenamed := h 2 longNick (ascii ":irc 001 abcdefgh :hi abcdefgh you\r\n") (by decide) (by decide)
    longNick_blankfree (by decide)
  revert hrenamed
  decide

end PsyBnc
