import Mathlib.Data.List.Induction
import ApexBase.Library.Assoc

/-! The map from the items of a list to the last place of each, and how many of these places have a property. -/
namespace ApexBase.Library.LastIndex
open Assoc
variable {K : Type} [DecidableEq K]

def build (keys : List K) : Map K Nat := keys.zipIdx.foldl (fun map entry => map.insert entry.1 entry.2) ∅

theorem build_concat (keys : List K) (key : K) : build (keys ++ [key]) = (build keys).insert key keys.length := by
  rw [build,List.zipIdx_append,List.foldl_append,Nat.zero_add]
  rfl

theorem lookup_build (keys : List K) (key : K) (row : Nat) :
    (build keys).lookup key = some row ↔ keys[row]? = some key ∧ ∀ later, row < later → keys[later]? ≠ some key := by
  induction keys using List.reverseRecOn with
  | nil =>
    rw [List.getElem?_nil]
    exact iff_of_false (fun found => by cases found) (fun found => by cases found.1)
  | append_singleton keys last ih =>
    have outside : ∀ place, keys.length < place → (keys ++ [last])[place]? = none := fun place far => by
      refine List.getElem?_eq_none ?_
      rw [List.length_append,List.length_singleton]
      omega
    have inside : ∀ place, place < keys.length → (keys ++ [last])[place]? = keys[place]? :=
      fun place near => List.getElem?_append_left near
    rw [build_concat]
    by_cases same : key = last
    · subst same
      rw [AList.lookup_insert,Option.some.injEq]
      constructor
      · rintro rfl
        refine ⟨List.getElem?_concat_length,fun later far => ?_⟩
        rw [outside later far]
        exact nofun
      · rintro ⟨found,newest⟩
        rcases Nat.lt_trichotomy row keys.length with low | equal | high
        · exact absurd List.getElem?_concat_length (newest keys.length low)
        · exact equal.symm
        · rw [outside row high] at found
          cases found
    · rw [AList.lookup_insert_ne same,ih]
      constructor
      · rintro ⟨found,newest⟩
        have low := (List.getElem?_eq_some_iff.mp found).1
        refine ⟨by rw [inside row low]; exact found,fun later far => ?_⟩
        rcases Nat.lt_trichotomy later keys.length with near | rfl | beyond
        · rw [inside later near]
          exact newest later far
        · rw [List.getElem?_concat_length]
          exact fun equal => same (Option.some.inj equal).symm
        · rw [outside later beyond]
          exact nofun
      · rintro ⟨found,newest⟩
        rcases Nat.lt_trichotomy row keys.length with low | rfl | high
        · refine ⟨by rwa [inside row low] at found,fun later far => ?_⟩
          rcases Nat.lt_or_ge later keys.length with near | beyond
          · rw [← inside later near]
            exact newest later far
          · rw [List.getElem?_eq_none beyond]
            exact nofun
        · rw [List.getElem?_concat_length] at found
          exact absurd (Option.some.inj found).symm same
        · rw [outside row high] at found
          cases found

theorem mem_entries (keys : List K) (key : K) (row : Nat) :
    (⟨key,row⟩ : Sigma fun _ : K => Nat) ∈ (build keys).entries ↔
    keys[row]? = some key ∧ ∀ later, row < later → keys[later]? ≠ some key := by
  rw [← lookup_build]
  exact AList.mem_lookup_iff.symm

def count (keys : List K) (test : Nat → Bool) : Nat := (build keys).entries.countP fun entry => test entry.2

theorem nodup_places (keys : List K) : ((build keys).entries.map fun entry => entry.2).Nodup := by
  refine List.Nodup.map_on ?_ (build keys).nodupKeys.nodup
  rintro ⟨key,row⟩ member ⟨other,place⟩ also (rfl : row = place)
  have found := ((mem_entries keys key row).mp member).1
  rw [((mem_entries keys other row).mp also).1] at found
  rw [Option.some.inj found]

theorem count_eq_places (keys : List K) (test : Nat → Bool) :
    count keys test = (((build keys).entries.map fun entry => entry.2).filter test).length := by
  rw [count,← List.countP_eq_length_filter,List.countP_map]
  rfl

theorem count_le (keys : List K) (test : Nat → Bool) : count keys test ≤ keys.length := by
  have inside : ((build keys).entries.map fun entry => entry.2) ⊆ List.range keys.length := by
    intro row member
    obtain ⟨⟨key,place⟩,entry,rfl⟩ := List.mem_map.mp member
    exact List.mem_range.mpr (List.getElem?_eq_some_iff.mp ((mem_entries keys key place).mp entry).1).1
  calc count keys test ≤ (build keys).entries.length := List.countP_le_length
    _ = ((build keys).entries.map fun entry => entry.2).length := (List.length_map _).symm
    _ ≤ (List.range keys.length).length := (List.subperm_of_subset (nodup_places keys) inside).length_le
    _ = keys.length := List.length_range

theorem count_congr {keys : List K} {test other : Nat → Bool} (same : ∀ row < keys.length, test row = other row) :
    count keys test = count keys other := by
  refine List.countP_congr fun entry member => ?_
  have inside := (List.getElem?_eq_some_iff.mp ((mem_entries keys entry.1 entry.2).mp member).1).1
  rw [same entry.2 inside]

theorem count_remove {keys : List K} {key : K} {row : Nat} (found : (build keys).lookup key = some row)
    {test : Nat → Bool} (here : test row = true) :
    count keys (fun place => test place && decide (place ≠ row)) + 1 = count keys test := by
  have member : row ∈ ((build keys).entries.map fun entry => entry.2).filter test :=
    List.mem_filter.mpr ⟨List.mem_map.mpr ⟨⟨key,row⟩,AList.mem_lookup_iff.mp found,rfl⟩,here⟩
  have nodup := (nodup_places keys).filter test
  have without : ((build keys).entries.map fun entry => entry.2).filter (fun place => test place &&
    decide (place ≠ row)) =
      (((build keys).entries.map fun entry => entry.2).filter test).erase row := by
    rw [nodup.erase_eq_filter,List.filter_filter]
    refine List.filter_congr fun place _ => ?_
    rw [Bool.and_comm]
    exact Bool.eq_iff_iff.mpr (by simp)
  rw [count_eq_places,count_eq_places,without,List.length_erase_of_mem member]
  have positive := List.length_pos_of_mem member
  omega

theorem count_eq_filter {keys : List K} {test : Nat → Bool}
    (newest : ∀ row key, keys[row]? = some key → test row = true → (build keys).lookup key = some row) :
    count keys test = ((List.range keys.length).filter test).length := by
  rw [count_eq_places]
  refine ((List.perm_ext_iff_of_nodup ((nodup_places keys).filter _) (List.nodup_range.filter _)).mpr fun row =>
    ?_).length_eq
  rw [List.mem_filter,List.mem_filter,List.mem_range]
  refine and_congr_left fun here => ?_
  constructor
  · intro member
    obtain ⟨⟨key,place⟩,entry,rfl⟩ := List.mem_map.mp member
    exact (List.getElem?_eq_some_iff.mp ((mem_entries keys key place).mp entry).1).1
  · intro inside
    have found := newest row keys[row] (List.getElem?_eq_getElem inside) here
    exact List.mem_map.mpr ⟨⟨keys[row],row⟩,AList.mem_lookup_iff.mp found,rfl⟩

end ApexBase.Library.LastIndex
