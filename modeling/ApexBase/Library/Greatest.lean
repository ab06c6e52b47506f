import Mathlib.Data.List.Basic
import Mathlib.Data.UInt

/-! The greatest of a list above a start value, as a loop over `max` finds it. -/
namespace ApexBase.Library

section Order
variable {α : Type} [LE α] [DecidableLE α] [Std.IsLinearOrder α]

theorem lawful_maxOfLe : letI : Max α := maxOfLe; Std.LawfulOrderMax α := by
  let _ : Max α := maxOfLe
  refine Std.LawfulOrderMax.of_max_le_iff (fun a b c => ?_) fun a b => ?_
  · change (if a ≤ b then b else a) ≤ c ↔ a ≤ c ∧ b ≤ c
    split
    · rename_i less
      exact ⟨fun last => ⟨Std.le_trans less last,last⟩,And.right⟩
    · rename_i greater
      exact ⟨fun first => ⟨first,Std.le_trans (Std.le_of_not_ge greater) first⟩,And.left⟩
  · change (if a ≤ b then b else a) = a ∨ (if a ≤ b then b else a) = b
    split
    · exact Or.inr rfl
    · exact Or.inl rfl

end Order

instance lawfulMaxUInt32 : Std.LawfulOrderMax UInt32 := lawful_maxOfLe

instance lawfulMaxUInt64 : Std.LawfulOrderMax UInt64 := lawful_maxOfLe

instance lawfulMaxInt64 : Std.LawfulOrderMax Int64 := lawful_maxOfLe

section Fold
variable {α : Type} [LE α] [Max α] [Std.LawfulOrderMax α]

theorem foldl_max_cases (items : List α) (start : α) :
    items.foldl max start = start ∨ items.foldl max start ∈ items := by
  induction items generalizing start with
  | nil => exact Or.inl rfl
  | cons item rest ih =>
    rcases ih (max start item) with same | later
    · rcases Std.max_eq_or (a := start) (b := item) with first | second
      · exact Or.inl (same.trans first)
      · exact Or.inr (List.mem_cons.mpr (Or.inl (same.trans second)))
    · exact Or.inr (List.mem_cons_of_mem _ later)

theorem foldl_max_le {items : List α} {start bound : α} :
    items.foldl max start ≤ bound ↔ start ≤ bound ∧ ∀ item ∈ items, item ≤ bound := by
  induction items generalizing start with
  | nil => simp
  | cons item rest ih => rw [List.foldl_cons,ih,Std.max_le_iff,and_assoc,List.forall_mem_cons]

variable [Std.IsLinearOrder α]

theorem le_foldl_max (items : List α) (start : α) :
    start ≤ items.foldl max start ∧ ∀ item ∈ items, item ≤ items.foldl max start :=
  foldl_max_le.mp (Std.le_refl _)

theorem foldl_max_append (first second : List α) (start : α) :
    (first ++ second).foldl max start = max (first.foldl max start) (second.foldl max start) := by
  have bounds : ∀ bound, (first ++ second).foldl max start ≤ bound ↔
    max (first.foldl max start) (second.foldl max start) ≤ bound := by
    intro bound
    rw [foldl_max_le,Std.max_le_iff,foldl_max_le,foldl_max_le,List.forall_mem_append]
    exact ⟨fun ⟨least,one,two⟩ => ⟨⟨least,one⟩,⟨least,two⟩⟩,fun ⟨⟨least,one⟩,⟨_,two⟩⟩ => ⟨least,one,two⟩⟩
  exact Std.le_antisymm ((bounds _).mpr (Std.le_refl _)) ((bounds _).mp (Std.le_refl _))

theorem eq_max_left {a b : α} : a = max a b ↔ b ≤ a := by
  constructor
  · intro same
    rw [same]
    exact Std.right_le_max
  · intro less
    exact Std.le_antisymm Std.left_le_max (Std.max_le_iff.mpr ⟨Std.le_refl a,less⟩)

theorem eq_max_right {a b : α} : b = max a b ↔ a ≤ b := by
  constructor
  · intro same
    rw [same]
    exact Std.left_le_max
  · intro less
    exact Std.le_antisymm Std.right_le_max (Std.max_le_iff.mpr ⟨less,Std.le_refl b⟩)

end Fold

end ApexBase.Library
