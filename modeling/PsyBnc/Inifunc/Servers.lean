import PsyBnc.Inifunc.Model
import PsyBnc.Lib.Cyclic

/-!
# The servers of a user (`p_inifunc.c`)

The servers are entries `SERVER%d` of the section `SERVERS`, with the port and the password under the same
number.  `getnextserver` counts `currentserver` up until it stands on the number of an entry; behind 20 it
is put back to 0.
-/

namespace PsyBnc

open CLib

/-- What `usert` holds of the server. -/
structure UserServer where
  currentserver : Nat
  server : CStr
  port : Int
  spass : CStr
  deriving DecidableEq, Repr

/-- `lngtxt(374)`, `lngtxt(376)` and `lngtxt(378)` in `buf[100]`. -/
def serverParam (name : CStr) (srvnr : Nat) : CStr := clip 100 (name ++ dec srvnr)

/-- An entry of the section `SERVERS`, as `getserver` looks it up. -/
def serverValue (conf : Conf) (usernum : Nat) (name : CStr) (srvnr : Nat) : Option CStr :=
  getini (ascii "SERVERS") (serverParam name srvnr) (clip 20 (userFile usernum)) conf

/-- `getserver`; `none` for `-2`, which leaves the user as it is. -/
def getserver (conf : Conf) (usernum srvnr : Nat) (u : UserServer) : Option UserServer :=
  match serverValue conf usernum (ascii "SERVER") srvnr with
  | none => none
  | some server =>
      some { u with
        server := clip 255 server
        port :=
          match serverValue conf usernum (ascii "PORT") srvnr with
          | none => 6667
          | some port => atoi port
        spass :=
          match serverValue conf usernum (ascii "SPASS") srvnr with
          | none => []
          | some spass => clip 64 spass }

/-- The loop of `getnextserver`: the return value and the user; `none` when it still runs. -/
def nextserverLoop (conf : Conf) (nuser first : Nat) : Nat → UserServer → Option (Int × UserServer)
  | 0, _ => none
  | k + 1, u =>
      let cur := u.currentserver + 1
      match getserver conf nuser cur { u with currentserver := cur } with
      | some found => some (0, found)
      | none =>
          let back := if 20 < cur then 0 else cur
          if back = first then some (-1, { u with currentserver := back })
          else nextserverLoop conf nuser first k { u with currentserver := back }

/-- `getnextserver` returns `r` and leaves `v`. -/
def Getnextserver (conf : Conf) (nuser : Nat) (u : UserServer) (r : Int) (v : UserServer) : Prop :=
  ∃ k, nextserverLoop conf nuser u.currentserver k u = some (r, v)

/-- The server part of `cmddelserver`; `irccontent` is the number as it was typed. -/
def cmddelserver (usern : Nat) (irccontent : CStr) (conf : Conf) : Option Conf :=
  let erase := fun name conf =>
    writeini (ascii "SERVERS") (clip 400 (name ++ irccontent)) (clip 20 (userFile usern)) none conf
  if irccontent = [] then some conf
  else
    (erase (ascii "SPASS") conf).bind fun conf =>
      (erase (ascii "PORT") conf).bind fun conf => erase (ascii "SERVER") conf

/-! ## The loop is a search round the counter -/

/-- There is an entry under the number. -/
def configured (conf : Conf) (nuser n : Nat) : Bool := (serverValue conf nuser (ascii "SERVER") n).isSome

/-- A configured server slot. -/
def ServerSlot (conf : Conf) (nuser n : Nat) : Prop := 0 < n ∧ configured conf nuser n = true

section Loop

variable {conf : Conf} {nuser first n : Nat} {u v : UserServer} {r : Int}

theorem getserver_eq_none : getserver conf nuser n u = none ↔ configured conf nuser n = false := by
  unfold getserver configured
  cases serverValue conf nuser (ascii "SERVER") n with
  | none =>
      simp
  | some server =>
      simp

theorem getserver_currentserver (h : getserver conf nuser n u = some v) :
    v.currentserver = u.currentserver := by
  unfold getserver at h
  cases hs : serverValue conf nuser (ascii "SERVER") n with
  | none =>
      rw [hs] at h
      cases h
  | some server =>
      rw [hs] at h
      cases h
      rfl

/-- The return value and the counter, from where the search stopped. -/
def searchReturn : Option Nat → Nat → Int × Nat
  | some n, _ => (0, n)
  | none, first => (-1, first)

theorem nextserverLoop_search (k : Nat) :
    ∀ u : UserServer, (nextserverLoop conf nuser first k u).map (fun o => (o.1, o.2.currentserver)) =
      (cyclicSearch (configured conf nuser) 20 first k u.currentserver).map (searchReturn · first) := by
  induction k with
  | zero =>
      intro u
      rfl
  | succ k ih =>
      intro u
      rw [nextserverLoop, cyclicSearch]
      cases hget : getserver conf nuser (u.currentserver + 1)
          { u with currentserver := u.currentserver + 1 } with
      | none =>
          have hp := getserver_eq_none.1 hget
          simp only [hp, wrapped, Bool.false_eq_true, if_false]
          by_cases hback : (if 20 < u.currentserver + 1 then 0 else u.currentserver + 1) = first
          · simp only [hback, if_true, searchReturn, Option.map_some]
          · simp only [hback, if_false]
            exact ih _
      | some found =>
          have hp : configured conf nuser (u.currentserver + 1) = true := by
            rw [← Bool.not_eq_false, ← getserver_eq_none, hget]
            simp
          have hcur := getserver_currentserver hget
          simp [hp, hcur, searchReturn]

/-- `getnextserver` stops where the search stops. -/
theorem searches_iff {o : Option Nat} :
    Searches (configured conf nuser) 20 u.currentserver u.currentserver o ↔
      ∃ v, Getnextserver conf nuser u (searchReturn o u.currentserver).1 v ∧
        v.currentserver = (searchReturn o u.currentserver).2 := by
  constructor
  · rintro ⟨k, hk⟩
    have h := @nextserverLoop_search conf nuser u.currentserver k u
    rw [hk, Option.map_some] at h
    rcases Option.map_eq_some_iff.1 h with ⟨⟨r, v⟩, hrun, heq⟩
    refine ⟨v, ⟨k, ?_⟩, (congrArg Prod.snd heq)⟩
    rw [hrun, ← congrArg Prod.fst heq]
  · rintro ⟨v, ⟨k, hk⟩, hcur⟩
    have h := @nextserverLoop_search conf nuser u.currentserver k u
    rw [hk, Option.map_some] at h
    rcases Option.map_eq_some_iff.1 h.symm with ⟨o', hrun, heq⟩
    -- The return value and the counter tell what the search ended with.
    have hsame : searchReturn o' u.currentserver = searchReturn o u.currentserver :=
      heq.trans (Prod.ext rfl hcur)
    have hoo : o' = o := by
      cases o' with
      | none =>
          cases o with
          | none => rfl
          | some n => exact absurd (congrArg Prod.fst hsame) (by simp [searchReturn])
      | some m =>
          cases o with
          | none => exact absurd (congrArg Prod.fst hsame) (by simp [searchReturn])
          | some n => exact congrArg some (congrArg Prod.snd hsame)
    exact ⟨k, by rw [hrun, hoo]⟩

end Loop

/-! ## What a call does -/

/-- `getnextserver` returns, with the cyclically next server slot if there is any slot. -/
def RotatesServers (conf : Conf) (nuser : Nat) (u : UserServer) : Prop :=
  (∃ v, Getnextserver conf nuser u 0 v ∧
      CyclicNext (ServerSlot conf nuser) u.currentserver v.currentserver) ∨
    ((∃ v, Getnextserver conf nuser u (-1) v) ∧ ∀ n, ¬ ServerSlot conf nuser n)

/-- A slot behind the current one, if there is any, has a number of 21 at most or is the very next one; if
there is none, the current number is 20 at most or one of the slots 1 to 21 is configured. -/
theorem getnextserver_rotates_iff (conf : Conf) (nuser : Nat) (u : UserServer) :
    RotatesServers conf nuser u ↔ InReach (ServerSlot conf nuser) 20 u.currentserver := by
  have hslot : ∀ i, ServerSlot conf nuser i ↔ 0 < i ∧ configured conf nuser i = true := fun i => Iff.rfl
  rw [← searchesNext_iff hslot, RotatesServers, SearchesNext]
  apply or_congr
  · constructor
    · rintro ⟨v, hrun, hnext⟩
      exact ⟨v.currentserver, searches_iff.2 ⟨v, hrun, rfl⟩, hnext⟩
    · rintro ⟨n, hs, hnext⟩
      rcases searches_iff.1 hs with ⟨v, hrun, rfl⟩
      exact ⟨v, hrun, hnext⟩
  · apply and_congr_left
    intro _
    constructor
    · rintro ⟨v, k, hk⟩
      -- The counter is where it started when the search is given up.
      have h := @nextserverLoop_search conf nuser u.currentserver k u
      rw [hk, Option.map_some] at h
      rcases Option.map_eq_some_iff.1 h.symm with ⟨o, hrun, heq⟩
      cases o with
      | none =>
          exact ⟨k, hrun⟩
      | some n =>
          exact absurd (congrArg Prod.fst heq) (by simp [searchReturn])
    · intro hs
      rcases searches_iff.1 hs with ⟨v, hrun, _⟩
      exact ⟨v, hrun⟩

/-- A user whose one server has the number 21. -/
def serverBehindTwenty : Conf := [ascii "USER1.USER.NICK=bob", ascii "USER1.SERVERS.SERVER21=irc.example"]

theorem not_configured_of_nick (n : Nat) : configured [ascii "USER1.USER.NICK=bob"] 1 n = false := by
  have hkey : ascii "USER1.S" <+: clip 400 (entryText (clip 20 (userFile 1)) (ascii "SERVERS")
      (serverParam (ascii "SERVER") n)) :=
    ⟨_, rfl⟩
  have hnone : afterPrefix (clip 400 (entryText (clip 20 (userFile 1)) (ascii "SERVERS")
      (serverParam (ascii "SERVER") n))) (ascii "USER1.USER.NICK=bob") = none := by
    rw [afterPrefix_eq_none]
    intro hpre
    have : ascii "USER1.S" <+: ascii "USER1.USER.NICK=bob" := hkey.trans hpre
    exact absurd this (by decide)
  simp [configured, serverValue, getini, hnone]

/-- The server 21 is found and then deleted; the next call never returns. -/
theorem getnextserver_hangs :
    ∃ conf u, Getnextserver serverBehindTwenty 1 ⟨0, [], 0, []⟩ 0 u ∧ u.currentserver = 21 ∧
      cmddelserver 1 (ascii "21") serverBehindTwenty = some conf ∧
      ∀ r v, ¬ Getnextserver conf 1 u r v := by
  refine ⟨[ascii "USER1.USER.NICK=bob"], ⟨21, ascii "irc.example", 6667, []⟩,
    ⟨21, by decide +kernel⟩, rfl, by decide +kernel, ?_⟩
  rintro r v ⟨k, hk⟩
  have h := @nextserverLoop_search [ascii "USER1.USER.NICK=bob"] 1 21 k
    ⟨21, ascii "irc.example", 6667, []⟩
  rw [hk, Option.map_some] at h
  rcases Option.map_eq_some_iff.1 h.symm with ⟨o, hrun, _⟩
  have hsearch : Searches (configured [ascii "USER1.USER.NICK=bob"] 1) 20 21 21 o := ⟨k, hrun⟩
  exact not_searches_of_beyond (by decide) (fun i _ _ => not_configured_of_nick i) 0 (Nat.zero_le _)
    (hsearch.inv_round (not_configured_of_nick _) (by decide))

end PsyBnc
