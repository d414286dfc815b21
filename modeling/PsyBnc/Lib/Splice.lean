import Mathlib.Data.List.Nodup
import Mathlib.Tactic.Common

/-!
# Splicing lists

`Splice old new l l'` says that `l'` is `l` with the segment `old` replaced, in place, by `new`.
Inserting (`old = []`), deleting (`new = []`) and overwriting an element of a list are all
splices, so whatever ignores the two segments cannot tell `l'` from `l`.
-/

namespace CLib

variable {α β : Type}

def Splice (old new l l' : List α) : Prop :=
  ∃ l₁ l₂, l = l₁ ++ old ++ l₂ ∧ l' = l₁ ++ new ++ l₂

namespace Splice

variable {old new l l' : List α}

theorem mem_of_mem_new (h : Splice old new l l') {x : α} (hx : x ∈ new) : x ∈ l' := by
  rcases h with ⟨l₁, l₂, rfl, rfl⟩
  simp [hx]

theorem mem_or_of_mem (h : Splice old new l l') {x : α} (hx : x ∈ l') : x ∈ new ∨ x ∈ l := by
  rcases h with ⟨l₁, l₂, rfl, rfl⟩
  simp only [List.mem_append] at hx ⊢
  rcases hx with (hx | hx) | hx
  · exact Or.inr (Or.inl (Or.inl hx))
  · exact Or.inl hx
  · exact Or.inr (Or.inr hx)

theorem filter_eq (h : Splice old new l l') {p : α → Bool} (ho : old.filter p = [])
    (hn : new.filter p = []) : l'.filter p = l.filter p := by
  rcases h with ⟨l₁, l₂, rfl, rfl⟩
  simp only [List.filter_append, ho, hn]

theorem findSome?_eq (h : Splice old new l l') {g : α → Option β}
    (ho : ∀ x ∈ old, g x = none) (hn : ∀ x ∈ new, g x = none) :
    l'.findSome? g = l.findSome? g := by
  rcases h with ⟨l₁, l₂, rfl, rfl⟩
  have ho' : old.findSome? g = none := List.findSome?_eq_none_iff.2 ho
  have hn' : new.findSome? g = none := List.findSome?_eq_none_iff.2 hn
  simp [List.findSome?_append, ho', hn']

/-- Distinct labels stay distinct when the new segment's labels are distinct and fresh. -/
theorem nodup_filterMap (h : Splice old new l l') {g : α → Option β}
    (hl : (l.filterMap g).Nodup) (hnew : (new.filterMap g).Nodup)
    (hfresh : ∀ k ∈ new.filterMap g, k ∈ old.filterMap g ∨ k ∉ l.filterMap g) :
    (l'.filterMap g).Nodup := by
  rcases h with ⟨l₁, l₂, rfl, rfl⟩
  simp only [List.filterMap_append, List.nodup_append, List.mem_append] at hl hfresh ⊢
  rcases hl with ⟨⟨h₁, hold, h₁o⟩, h₂, h₁₂⟩
  have hout : ∀ k ∈ new.filterMap g, k ∉ l₁.filterMap g ∧ k ∉ l₂.filterMap g := by
    intro k hk
    rcases hfresh k hk with ho | hno
    · exact ⟨fun hk₁ => h₁o k hk₁ k ho rfl, fun hk₂ => h₁₂ k (Or.inr ho) k hk₂ rfl⟩
    · exact ⟨fun hk₁ => hno (Or.inl (Or.inl hk₁)), fun hk₂ => hno (Or.inr hk₂)⟩
  refine ⟨⟨h₁, hnew, ?_⟩, h₂, ?_⟩
  · rintro a ha b hb rfl
    exact (hout a hb).1 ha
  · rintro a (ha | ha) b hb rfl
    · exact h₁₂ a (Or.inl ha) a hb rfl
    · exact (hout a ha).2 hb

end Splice

end CLib
