import PsyBnc.Lib.CString
import PsyBnc.Lib.Scanf

/-!
# DCC transfers

The entries of a user for transfers, and where an offered file is to be stored.
-/

namespace PsyBnc

open CLib

def SLASH : Byte := 47

def BACKSLASH : Byte := 92

/-- What a transfer is. -/
inductive DccType where
  | chatToRq
  | chatTo
  | chatFromRq
  | chatFrom
  | sendToRq
  | sendTo
  | recvFromRq
  | recvFrom
  deriving DecidableEq, Repr

/-- `struct dcct`, without the socket, the open file and the script. -/
structure Dcct where
  type : DccType
  host : CStr
  file : CStr
  nick : CStr
  filesize : Int := 0
  transferred : Nat := 0
  lasttransferred : Nat := 0
  port : Int := 0
  uid : Nat := 0
  delay : Int := 0
  deriving DecidableEq

/-! ## Paths -/

def dccrootpath (dccdownloadpath : CStr) : CStr :=
  if dccdownloadpath = [] then ascii "downloads" else dccdownloadpath

def dccuserpath (len : Nat) (dccdownloadpath : CStr) (usern : Nat) : CStr :=
  clip len (dccrootpath dccdownloadpath ++ ascii "/USER" ++ dec usern)

def dccfilepath (len : Nat) (dccdownloadpath : CStr) (usern : Nat) (file : CStr) : CStr :=
  clip len (dccrootpath dccdownloadpath ++ ascii "/USER" ++ dec usern ++ SLASH :: file)

/-- Where the loop `while(strchr(pt,c)!=NULL) pt=strchr(pt,c)+1` ends. -/
def afterLast (c : Byte) : CStr → CStr
  | [] => []
  | b :: s => if c ∈ s then afterLast c s else if b = c then s else b :: s

/-- The loop goes on behind the first `c`. -/
theorem afterLast_eq (c : Byte) (s : CStr) :
    afterLast c s = match cutAt c s with
      | none => s
      | some (_, v) => afterLast c v := by
  rcases cut_cases c s with ⟨hno, hcut⟩ | ⟨u, v, rfl, hu, hcut⟩
  · rw [hcut]
    cases s with
    | nil =>
        rfl
    | cons b s =>
        have hb : b ≠ c := fun heq => hno (heq ▸ List.mem_cons_self)
        have hs : c ∉ s := fun hmem => hno (List.mem_cons_of_mem b hmem)
        rw [afterLast, if_neg hs, if_neg hb]
  · rw [hcut]
    induction u with
    | nil =>
        rw [List.nil_append, afterLast]
        split
        · rfl
        · next hv =>
          rw [if_pos rfl]
          cases v with
          | nil =>
              rfl
          | cons b v =>
              have hb : b ≠ c := fun heq => hv (heq ▸ List.mem_cons_self)
              have hv' : c ∉ v := fun hmem => hv (List.mem_cons_of_mem b hmem)
              simp only [afterLast, if_neg hv', if_neg hb]
    | cons b u ih =>
        have hu' : c ∉ u := fun hmem => hu (List.mem_cons_of_mem b hmem)
        have hmem : c ∈ u ++ c :: v := List.mem_append_right u List.mem_cons_self
        rw [List.cons_append, afterLast, if_pos hmem]
        exact ih hu' (cutAt_append hu')

theorem afterLast_suffix (c : Byte) (s : CStr) : afterLast c s <:+ s := by
  induction s with
  | nil =>
      exact List.suffix_refl []
  | cons b s ih =>
      rw [afterLast]
      split
      · exact ih.trans (List.suffix_cons b s)
      · split
        · exact List.suffix_cons b s
        · exact List.suffix_refl _

/-- The texts 312 and 313. -/
def deviceNames : List CStr := [ascii "/dev/", ascii "/etc/"]

/-- `stripdccfile`: the file name behind the directories; of an offered file, with `rec` set, no
directory is accepted. -/
def stripdccfile (realname : CStr) (rec : Bool) : Option CStr :=
  if rec = false ∧ (deviceNames.any fun name => name <+: realname) then none
  else if 63 ∈ realname then none
  else if 42 ∈ realname then none
  else if rec = true ∧ SLASH ∈ realname then none
  else
    let pt := afterLast BACKSLASH (afterLast SLASH realname)
    if rec = true ∧ ascii ".." <:+: pt then none else some pt

/-! ## Offers -/

/-- `addpendingdcc` for `PDC_RECVFROMRQ`: the entries of the user with the new one, unless the offer is
ignored.  `inetHost` makes an address of the number in the offer; the messages to the user and the
transfer that `autogetdcc` starts are not modelled. -/
def addpendingdcc (dccdownloadpath : CStr) (inetHost : CStr → CStr) (pdcc : List Dcct) (usern : Nat)
    (host : CStr) (port : Int) (nick file : CStr) (filesize : Int) : Option (List Dcct) :=
  if port < 1024 ∨ 65535 < port then none
  else
    match stripdccfile file true with
    | none => none
    | some fil =>
        let myfile := dccfilepath 800 dccdownloadpath usern fil
        some (pdcc ++
          [{ type := .recvFromRq
             host := clip 200 (if 58 ∈ host then host else inetHost host)
             file := clip 200 myfile
             nick := clip 64 nick
             filesize := filesize
             port := port
             uid := usern
             delay := 50 }])

/-! ## Containment -/

/-- A name that was stripped has no directory in it, and does not lead upwards. -/
theorem stripdccfile_safe {realname fil : CStr} (h : stripdccfile realname true = some fil) :
    SLASH ∉ fil ∧ ¬ ascii ".." <:+: fil := by
  rw [stripdccfile, if_neg (by simp)] at h
  split at h
  · cases h
  split at h
  · cases h
  split at h
  · cases h
  next hslash =>
  have hfree : SLASH ∉ realname := fun hmem => hslash ⟨rfl, hmem⟩
  simp only [true_and] at h
  split at h
  · cases h
  next hup =>
  have hsuffix : afterLast BACKSLASH (afterLast SLASH realname) <:+ realname :=
    (afterLast_suffix BACKSLASH _).trans (afterLast_suffix SLASH realname)
  rw [← Option.some.inj h]
  exact ⟨fun hmem => hfree (hsuffix.subset hmem), hup⟩

/-- Both buffers cut the name, not the directory. -/
theorem dccfilepath_stored {dccdownloadpath : CStr} {usern : Nat}
    (hroot : (dccrootpath dccdownloadpath ++ ascii "/USER" ++ dec usern).length + 1 < 200)
    (fil : CStr) :
    ∃ k, clip 200 (dccfilepath 800 dccdownloadpath usern fil) =
      dccuserpath 200 dccdownloadpath usern ++ SLASH :: fil.take k := by
  have hmin : min (200 - 1) (800 - 1) = 199 := rfl
  rw [dccuserpath, clip_eq_self (Nat.lt_of_succ_lt hroot), dccfilepath, clip, clip, List.take_take,
    hmin]
  refine ⟨199 - (dccrootpath dccdownloadpath ++ ascii "/USER" ++ dec usern).length - 1, ?_⟩
  rw [List.take_append, List.take_of_length_le (by omega)]
  apply congrArg
  rcases Nat.exists_eq_add_of_lt (show 0 < 199 -
    (dccrootpath dccdownloadpath ++ ascii "/USER" ++ dec usern).length by omega) with ⟨k, hk⟩
  rw [hk, Nat.zero_add, List.take_succ_cons, Nat.add_sub_cancel]

/-- An offered file is stored in the directory of the user, under a name without directories that does
not lead upwards. -/
theorem dcc_file_contained (dccdownloadpath : CStr) (inetHost : CStr → CStr) (pdcc pdcc' : List Dcct)
    (usern : Nat) (host : CStr) (port : Int) (nick file fil : CStr) (filesize : Int)
    (hfile : stripdccfile file true = some fil)
    (hroot : (dccrootpath dccdownloadpath ++ ascii "/USER" ++ dec usern).length + 1 < 200)
    (hadd : addpendingdcc dccdownloadpath inetHost pdcc usern host port nick file filesize =
      some pdcc') :
    ∃ d rest, pdcc' = pdcc ++ [d] ∧
      d.file = dccuserpath 200 dccdownloadpath usern ++ SLASH :: rest ∧
      rest <+: fil ∧ SLASH ∉ rest ∧ ¬ ascii ".." <:+: rest := by
  rcases stripdccfile_safe hfile with ⟨hslash, hup⟩
  rw [addpendingdcc] at hadd
  split at hadd
  · cases hadd
  rw [hfile] at hadd
  rcases dccfilepath_stored hroot fil with ⟨k, hk⟩
  refine ⟨_, fil.take k, (Option.some.inj hadd).symm, ?_, List.take_prefix k fil, ?_, ?_⟩
  · exact hk
  · exact fun hmem => hslash (List.mem_of_mem_take hmem)
  · exact fun hmid => hup (hmid.trans (List.take_prefix k fil).isInfix)

/-- A name with directories in the style of DOS. -/
theorem dcc_file_contained_dos :
    ∃ pdcc', addpendingdcc (ascii "/dl") id [] 7 (ascii "1") 2000 (ascii "eve")
        (ascii "c:\\tmp\\a.b") 5 = some pdcc' ∧
      ∃ d rest, pdcc' = [] ++ [d] ∧
        d.file = dccuserpath 200 (ascii "/dl") 7 ++ SLASH :: rest ∧
        rest <+: ascii "a.b" ∧ SLASH ∉ rest ∧ ¬ ascii ".." <:+: rest :=
  ⟨_, rfl, dcc_file_contained (ascii "/dl") id [] _ 7 (ascii "1") 2000 (ascii "eve")
    (ascii "c:\\tmp\\a.b") (ascii "a.b") 5 (by decide) (by decide) rfl⟩

end PsyBnc
