import Mathlib.Data.List.Basic
import Mathlib.Data.List.TakeDrop
import Mathlib.Tactic.Ring
import Mathlib.Data.UInt

/-! Records of one width, one after another. -/
namespace ApexBase.Library
variable {α : Type} {data : List α} {width : Nat} {records : List (List α)}

structure Stacked (data : List α) (width : Nat) (records : List (List α)) : Prop where
  flat : data = records.flatten
  each : ∀ record ∈ records, record.length = width
  wide : width = 0 → records = []

namespace Stacked

theorem nil (width : Nat) : Stacked ([] : List α) width [] := ⟨rfl,nofun,fun _ => rfl⟩

theorem length (stacked : Stacked data width records) : data.length = records.length * width := by
  obtain ⟨rfl,each,_⟩ := stacked
  clear * - each
  induction records with
  | nil => simp
  | cons record rest ih =>
    have tail := ih fun other member => each other (List.mem_cons_of_mem _ member)
    rw [List.flatten_cons,List.length_append,List.length_cons,tail,each record List.mem_cons_self]
    ring

theorem count (stacked : Stacked data width records) : data.length / width = records.length := by
  rw [stacked.length]
  rcases Nat.eq_zero_or_pos width with zero | positive
  · rw [stacked.wide zero,List.length_nil,Nat.zero_mul,Nat.zero_div]
  · exact Nat.mul_div_cancel _ positive

theorem append {others : List α} {more : List (List α)} (first : Stacked data width records)
    (second : Stacked others width more) :
    Stacked (data ++ others) width (records ++ more) where
  flat := by rw [first.flat,second.flat,List.flatten_append]
  each := fun record member => (List.mem_append.mp member).elim (first.each record) (second.each record)
  wide := fun zero => by rw [first.wide zero,second.wide zero]; rfl

section
variable (stacked : Stacked data width records)
include stacked

theorem snoc {record : List α} (long : record.length = width) (some_ : record ≠ []) :
    Stacked (data ++ record) width (records ++ [record]) := by
  refine stacked.append ⟨List.flatten_singleton.symm,fun other member =>
    by rw [List.mem_singleton.mp member,long],fun zero => ?_⟩
  exact absurd (List.eq_nil_of_length_eq_zero (long.trans zero)) some_

theorem drop (count : Nat) : Stacked (data.drop (count * width)) width (records.drop count) := by
  refine ⟨?_,fun record member => stacked.each record (List.mem_of_mem_drop member),fun zero =>
    by rw [stacked.wide zero,List.drop_nil]⟩
  rcases Nat.lt_or_ge count records.length with inside | beyond
  · have front : (records.take count).flatten.length = count * width := by
      have taken : Stacked (records.take count).flatten width (records.take count) :=
        ⟨rfl,fun record member => stacked.each record (List.mem_of_mem_take member),fun zero =>
          by rw [stacked.wide zero,List.take_nil]⟩
      rw [taken.length,List.length_take,Nat.min_eq_left (Nat.le_of_lt inside)]
    have split : records.flatten = (records.take count).flatten ++ (records.drop count).flatten := by
      rw [← List.flatten_append,List.take_append_drop]
    rw [stacked.flat,← front,split]
    exact List.drop_left
  · rw [List.drop_eq_nil_of_le beyond,List.drop_eq_nil_of_le
      (by rw [stacked.length]; exact Nat.mul_le_mul_right _ beyond),List.flatten_nil]

theorem take (count : Nat) : Stacked (data.take (count * width)) width (records.take count) := by
  refine ⟨?_,fun record member => stacked.each record (List.mem_of_mem_take member),fun zero =>
    by rw [stacked.wide zero,List.take_nil]⟩
  have split : data = (data.take (count * width)) ++ (records.drop count).flatten := by
    rw [← (stacked.drop count).flat,List.take_append_drop]
  have same : data = (records.take count).flatten ++ (records.drop count).flatten := by
    rw [← List.flatten_append,List.take_append_drop]
    exact stacked.flat
  exact List.append_cancel_right (split.symm.trans same)

theorem record {index : Nat} {found : List α} (there : records[index]? = some found) :
    (data.drop (index * width)).take width = found ∧ index * width + width ≤ data.length ∧ 0 < width := by
  obtain ⟨inside,rfl⟩ := List.getElem?_eq_some_iff.mp there
  have one := (stacked.drop index).take 1
  rw [Nat.one_mul] at one
  refine ⟨?_,?_,?_⟩
  · rw [one.flat,List.drop_eq_getElem_cons inside,List.take_succ_cons,List.take_zero,List.flatten_singleton]
  · rw [stacked.length]
    calc index * width + width = (index + 1) * width := by ring
      _ ≤ records.length * width := Nat.mul_le_mul_right _ inside
  · refine Nat.pos_of_ne_zero fun zero => ?_
    rw [stacked.wide zero] at inside
    exact Nat.not_lt_zero _ inside

theorem windows :
    (List.range (data.length / width)).map (fun index => (data.drop (index * width)).take width) = records := by
  rw [stacked.count]
  refine List.ext_getElem (by rw [List.length_map,List.length_range]) fun index _ inside => ?_
  rw [List.getElem_map,List.getElem_range]
  exact (stacked.record (List.getElem?_eq_getElem inside)).1

end

end Stacked

end ApexBase.Library
