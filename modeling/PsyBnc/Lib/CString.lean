import Mathlib.Data.List.Basic
import Mathlib.Data.List.Infix
import Mathlib.Tactic.Common

/-!
# C strings as byte lists

A NUL-terminated `char *` is modelled by the list of the bytes before its terminator, so that
`strlen` is `List.length`.  This file fixes the byte constants, the functions of `<string.h>` and
`<ctype.h>` that C code calls on such strings, and the facts about them that proofs rewrite with.

* `cutAt c s` is `strchr(s, c)` with both sides kept: the text before the first `c` and the text
  after it;
* `p <+: s` is `strstr(s, p) == s`;
* `List.take (n - 1)` is what a copy into `char buf[n]` keeps.
-/

namespace CLib

abbrev Byte := UInt8

abbrev CStr := List Byte

instance decidableMem (s : CStr) (l : List CStr) : Decidable (s ∈ l) := inferInstance

instance decidableForallByte (s : CStr) (P : Byte → Prop) [DecidablePred P] : Decidable (∀ b ∈ s, P b) :=
  List.decidableBAll P s

instance decidableForallSome (o : Option Byte) (P : Byte → Prop) [DecidablePred P] :
    Decidable (∀ b ∈ o, P b) :=
  match o with
  | none => isTrue fun _ h => nomatch h
  | some b => decidable_of_iff (P b) ⟨fun h _ hb => Option.some.inj hb ▸ h, fun h => h b rfl⟩

/-- The bytes of an ASCII literal. -/
def ascii (s : String) : CStr := s.toList.map (fun c => UInt8.ofNat c.toNat)

/-! ## Byte constants -/

@[reducible] def LF : Byte := 10
@[reducible] def CR : Byte := 13
@[reducible] def SP : Byte := 32
@[reducible] def DOT : Byte := 46
@[reducible] def EQUALS : Byte := 61

/-! ## Copies into fixed buffers -/

/-- What a bounded copy (`strmncpy`, `snprintf`) into a buffer of `n` bytes leaves there. -/
def clip (n : Nat) (s : CStr) : CStr := s.take (n - 1)

@[simp] theorem clip_eq_self {n : Nat} {s : CStr} (h : s.length < n) : clip n s = s := by
  have hle : s.length ≤ n - 1 := by omega
  simp [clip, hle]

theorem clip_clip (n : Nat) (s : CStr) : clip n (clip n s) = clip n s := by
  rw [clip, clip, List.take_take, Nat.min_self]

theorem length_clip (n : Nat) (s : CStr) : (clip n s).length = min (n - 1) s.length := by
  simp [clip]

theorem mem_of_mem_clip {n : Nat} {s : CStr} {b : Byte} (h : b ∈ clip n s) : b ∈ s :=
  List.mem_of_mem_take h

theorem clip_prefix_self (n : Nat) (s : CStr) : clip n s <+: s :=
  List.take_prefix _ _

/-! ## `strchr` -/

section Cut

variable {α : Type} [DecidableEq α]

/-- The text before and after the first `c`, or `none` when `c` does not occur. -/
def cutAt (c : α) : List α → Option (List α × List α)
  | [] => none
  | b :: bs =>
      if b = c then some ([], bs)
      else (cutAt c bs).map (fun p => (b :: p.1, p.2))

@[simp] theorem cutAt_nil (c : α) : cutAt c [] = none := rfl

theorem cutAt_append {c : α} {u v : List α} (h : c ∉ u) :
    cutAt c (u ++ c :: v) = some (u, v) := by
  induction u with
  | nil =>
      simp [cutAt]
  | cons b bs ih =>
      have hb : b ≠ c := fun e => h (by simp [e])
      have hbs : c ∉ bs := fun hm => h (List.mem_cons_of_mem _ hm)
      simp [cutAt, hb, ih hbs]

theorem cutAt_eq_none {c : α} {s : List α} : cutAt c s = none ↔ c ∉ s := by
  induction s with
  | nil =>
      simp
  | cons b bs ih =>
      by_cases hb : b = c
      · simp [cutAt, hb]
      · have hb' : ¬ c = b := fun e => hb e.symm
        simp [cutAt, hb, hb', ih]

theorem cutAt_eq_some {c : α} {s u v : List α} :
    cutAt c s = some (u, v) ↔ s = u ++ c :: v ∧ c ∉ u := by
  constructor
  · intro h
    induction s generalizing u with
    | nil =>
        simp at h
    | cons b bs ih =>
        by_cases hb : b = c
        · simp only [cutAt, hb, if_true, Option.some.injEq, Prod.mk.injEq] at h
          rcases h with ⟨rfl, rfl⟩
          simp [hb]
        · simp only [cutAt, hb, if_false, Option.map_eq_some_iff, Prod.mk.injEq] at h
          rcases h with ⟨⟨u', v'⟩, hcut, rfl, rfl⟩
          rcases ih hcut with ⟨hs, hu⟩
          have hb' : ¬ c = b := fun e => hb e.symm
          exact ⟨by simp [hs], by simp [hb', hu]⟩
  · rintro ⟨rfl, hu⟩
    exact cutAt_append hu

/-- Every list is either free of `c` or splits at its first `c`. -/
theorem cut_cases (c : α) (s : List α) :
    (c ∉ s ∧ cutAt c s = none) ∨
      ∃ u v, s = u ++ c :: v ∧ c ∉ u ∧ cutAt c s = some (u, v) := by
  cases h : cutAt c s with
  | none =>
      exact Or.inl ⟨cutAt_eq_none.1 h, rfl⟩
  | some p =>
      rcases p with ⟨u, v⟩
      rcases cutAt_eq_some.1 h with ⟨hs, hu⟩
      exact Or.inr ⟨u, v, hs, hu, rfl⟩

/-- Two splits of one list at a separator that neither left side contains are equal. -/
theorem append_cons_inj_of_notMem {c : α} {u v u' v' : List α} (hu : c ∉ u) (hu' : c ∉ u')
    (h : u ++ c :: v = u' ++ c :: v') : u = u' ∧ v = v' := by
  have h₁ : cutAt c (u ++ c :: v) = some (u, v) := cutAt_append hu
  have h₂ : cutAt c (u' ++ c :: v') = some (u', v') := cutAt_append hu'
  rw [h, h₂] at h₁
  simpa [eq_comm] using h₁

end Cut

/-! ## `strstr` at the start of a string -/

/-- The text after the prefix `p`, when `s` starts with `p`. -/
def afterPrefix (p s : CStr) : Option CStr :=
  if p <+: s then some (s.drop p.length) else none

@[simp] theorem afterPrefix_append (p s : CStr) : afterPrefix p (p ++ s) = some s := by
  simp [afterPrefix]

theorem afterPrefix_eq_some {p s t : CStr} : afterPrefix p s = some t ↔ s = p ++ t := by
  constructor
  · intro h
    by_cases hp : p <+: s
    · rcases hp with ⟨r, rfl⟩
      simp only [afterPrefix_append, Option.some.injEq] at h
      rw [h]
    · simp [afterPrefix, hp] at h
  · rintro rfl
    exact afterPrefix_append p t

theorem afterPrefix_eq_none {p s : CStr} : afterPrefix p s = none ↔ ¬ p <+: s := by
  simp [afterPrefix]

/-! ## `strstr` -/

/-- The text before and after the first `p`. -/
def cutStr (p : CStr) : CStr → Option (CStr × CStr)
  | [] => if p = [] then some ([], []) else none
  | b :: bs =>
      if p <+: b :: bs then some ([], (b :: bs).drop p.length)
      else (cutStr p bs).map fun q => (b :: q.1, q.2)

theorem cutStr_first {p s x t : CStr} (h : cutStr p s = some (x, t)) :
    s = x ++ p ++ t ∧ ∀ x' t', s = x' ++ p ++ t' → t' <:+ t := by
  induction s generalizing x with
  | nil =>
      rw [cutStr] at h
      split at h
      · next hp =>
        cases h
        subst hp
        refine ⟨rfl, fun x' t' heq => ?_⟩
        rw [List.nil_eq_append_iff] at heq
        rw [heq.2]
      · cases h
  | cons b bs ih =>
      rw [cutStr] at h
      split at h
      · next hp =>
        cases h
        have heq : b :: bs = p ++ (b :: bs).drop p.length := (List.prefix_iff_eq_append.1 hp).symm
        refine ⟨heq, fun x' t' heq' => ?_⟩
        have hsuffix : t' <:+ b :: bs := ⟨x' ++ p, heq'.symm⟩
        apply List.suffix_of_suffix_length_le hsuffix
        · exact List.drop_suffix _ _
        · have hlen := congrArg List.length heq'
          simp only [List.length_append] at hlen
          rw [List.length_drop]
          omega
      · next hp =>
        rw [Option.map_eq_some_iff] at h
        rcases h with ⟨⟨y, t'⟩, hcut, hxt⟩
        cases hxt
        rcases ih hcut with ⟨hs, hfirst⟩
        refine ⟨by rw [hs]; rfl, fun x' t' heq => ?_⟩
        cases x' with
        | nil => exact absurd ⟨t', heq.symm⟩ hp
        | cons c x' =>
            rw [List.cons_append, List.cons_append, List.cons.injEq] at heq
            exact hfirst x' t' heq.2

theorem cutStr_eq_none {p s : CStr} (h : cutStr p s = none) : ∀ x t, s ≠ x ++ p ++ t := by
  induction s with
  | nil =>
      intro x t heq
      rw [cutStr] at h
      split at h
      · cases h
      · next hp =>
        rw [eq_comm, List.append_eq_nil_iff, List.append_eq_nil_iff] at heq
        exact hp heq.1.2
  | cons b bs ih =>
      intro x t heq
      rw [cutStr] at h
      split at h
      · cases h
      · next hp =>
        rw [Option.map_eq_none_iff] at h
        cases x with
        | nil => exact hp ⟨t, heq.symm⟩
        | cons c x =>
            rw [List.cons_append, List.cons_append, List.cons.injEq] at heq
            exact ih h x t heq.2

theorem cutStr_append (p s : CStr) : cutStr p (p ++ s) = some ([], s) := by
  cases h : p ++ s with
  | nil =>
      rw [List.append_eq_nil_iff] at h
      rw [cutStr, if_pos h.1, h.2]
  | cons b bs =>
      rw [cutStr, if_pos ⟨s, h⟩, ← h, List.drop_left]

/-! ## The last occurrence of a byte -/

/-- The text around the last `c`: the loop of `strchr` that goes on behind every `c` it finds. -/
def cutLast (c : Byte) : CStr → Option (CStr × CStr)
  | [] => none
  | b :: s =>
      match cutLast c s with
      | some (u, v) => some (b :: u, v)
      | none => if b = c then some ([], s) else none

section Last

variable {c : Byte} {s u v : CStr}

theorem cutLast_eq_none : cutLast c s = none ↔ c ∉ s := by
  induction s with
  | nil =>
      simp [cutLast]
  | cons b s ih =>
      rw [cutLast]
      cases hrest : cutLast c s with
      | some p =>
          have hmem : c ∈ s := by
            by_contra hno
            rw [ih.2 hno] at hrest
            cases hrest
          simp [hmem]
      | none =>
          have hno := ih.1 hrest
          by_cases hb : b = c
          · simp [hb]
          · simp [hb, Ne.symm hb, hno]

theorem cutLast_append (hv : c ∉ v) : cutLast c (u ++ c :: v) = some (u, v) := by
  induction u with
  | nil =>
      rw [List.nil_append, cutLast, cutLast_eq_none.2 hv]
      simp
  | cons b u ih =>
      rw [List.cons_append, cutLast, ih]

theorem cutLast_eq_some (h : cutLast c s = some (u, v)) : s = u ++ c :: v ∧ c ∉ v := by
  induction s generalizing u with
  | nil =>
      cases h
  | cons b s ih =>
      rw [cutLast] at h
      split at h
      · next u' v' hrest =>
        cases h
        rcases ih hrest with ⟨rfl, hv⟩
        exact ⟨rfl, hv⟩
      · next hrest =>
        split at h
        · next hb =>
          cases h
          rw [hb]
          exact ⟨rfl, cutLast_eq_none.1 hrest⟩
        · cases h

end Last

/-! ## `toupper` -/

def toupper (b : Byte) : Byte := if 97 ≤ b ∧ b ≤ 122 then b - 32 else b

theorem toNat_toupper (b : Byte) :
    (toupper b).toNat = if 97 ≤ b.toNat ∧ b.toNat ≤ 122 then b.toNat - 32 else b.toNat := by
  by_cases h : 97 ≤ b ∧ b ≤ 122
  · have hlo : 97 ≤ b.toNat := by simpa using UInt8.le_iff_toNat_le.1 h.1
    have hhi : b.toNat ≤ 122 := by simpa using UInt8.le_iff_toNat_le.1 h.2
    have h32 : (32 : Byte) ≤ b := UInt8.le_iff_toNat_le.2 (by simp; omega)
    simp [toupper, h, hlo, hhi, UInt8.toNat_sub_of_le _ _ h32]
  · have h' : ¬ (97 ≤ b.toNat ∧ b.toNat ≤ 122) := by
      simpa [UInt8.le_iff_toNat_le] using h
    rw [toupper, if_neg h, if_neg h']

theorem toupper_toupper (b : Byte) : toupper (toupper b) = toupper b := by
  apply UInt8.toNat_inj.1
  rw [toNat_toupper, toNat_toupper]
  split
  · simp
    omega
  · simp

/-- What is no letter is the capital of itself only. -/
theorem toupper_eq_iff {b c : Byte} (hb : b < 65 ∨ 122 < b) : toupper c = b ↔ c = b := by
  rw [UInt8.lt_iff_toNat_lt, UInt8.lt_iff_toNat_lt] at hb
  rw [← UInt8.toNat_inj, ← UInt8.toNat_inj, toNat_toupper]
  simp only [UInt8.reduceToNat] at hb
  split <;> omega

theorem toupper_ne_zero {c : Byte} (hc : c ≠ 0) : toupper c ≠ 0 := fun h => hc ((toupper_eq_iff (by decide)).1 h)

end CLib
