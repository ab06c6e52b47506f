import Mathlib.Algebra.BigOperators.Ring.List
import Mathlib.Algebra.Order.BigOperators.Group.Finset
import Mathlib.Data.UInt

/-! Sums over lists, and over lanes: item `g * lanes + k` belongs to lane `k`, and every lane is summed by itself. -/
namespace ApexBase.Library
open Finset

variable {M : Type} [AddCommMonoid M]

theorem sum_lanes (item : Nat → M) (lanes groups : Nat) :
    ∑ k ∈ range lanes, ∑ g ∈ range groups, item (g * lanes + k) = ∑ i ∈ range (groups * lanes), item i := by
  induction groups with
  | zero => simp only [range_zero,sum_empty,sum_const_zero,Nat.zero_mul]
  | succ groups ih =>
    rw [Nat.succ_mul,sum_range_add,← ih,← sum_add_distrib]
    exact sum_congr rfl fun k _ => sum_range_succ _ groups

theorem foldl_add_eq_sum {α : Type} (item : α → M) (items : List α) (start : M) :
    items.foldl (fun total next => total + item next) start = start + (items.map item).sum := by
  induction items generalizing start with
  | nil => rw [List.map_nil,List.sum_nil,add_zero,List.foldl_nil]
  | cons next rest ih => rw [List.foldl_cons,ih,List.map_cons,List.sum_cons,add_assoc]

theorem sum_map_range (item : Nat → M) (count : Nat) : ((List.range count).map item).sum = ∑ i ∈ range count, item i :=
  (Multiset.sum_coe ((List.range count).map item)).symm

theorem sum_map_filter {α : Type} (size : α → Nat) (keep : α → Bool) (items : List α)
    (zero : ∀ item ∈ items, keep item = false → size item = 0) :
    (items.map size).sum = ((items.filter keep).map size).sum := by
  induction items with
  | nil => rfl
  | cons item rest ih =>
    have others := ih fun item member => zero item (List.mem_cons_of_mem _ member)
    rw [List.map_cons,List.sum_cons,others]
    cases kept : keep item with
    | true => rw [List.filter_cons_of_pos kept,List.map_cons,List.sum_cons]
    | false =>
      rw [zero item List.mem_cons_self kept,Nat.zero_add,List.filter_cons_of_neg
        (by rw [kept]; exact Bool.false_ne_true)]

theorem sum_range_getD (sizes : List Nat) : ∑ index ∈ range sizes.length, sizes[index]?.getD 0 = sizes.sum := by
  induction sizes with
  | nil => rfl
  | cons size rest ih =>
    rw [List.length_cons,sum_range_succ',List.sum_cons,Nat.add_comm size,← ih]
    rfl

theorem sum_distinct (sizes : List Nat) {indices : List Nat} (distinct : indices.Nodup) :
    (indices.map fun index => sizes[index]?.getD 0).sum ≤ sizes.sum := by
  rw [← List.sum_toFinset _ distinct,← sum_range_getD sizes]
  refine sum_le_sum_of_ne_zero fun index _ some_ => mem_range.mpr ?_
  by_contra beyond
  exact some_ (by rw [List.getElem?_eq_none (Nat.le_of_not_lt beyond)]; rfl)

end ApexBase.Library
