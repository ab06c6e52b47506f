import Mathlib.Data.List.ReduceOption
import Mathlib.Data.List.Perm.Basic
import Mathlib.Data.List.TakeDrop
import Mathlib.Data.UInt

/-! A fixed number of places, each free or taken by one entry. -/
namespace ApexBase.Library.Pool

variable {α : Type}

def Below (mark : Nat) (pool : List (Option α)) : Prop := ∀ index entry, pool[index]? = some (some entry) → index ≤ mark

theorem set_perm {pool : List (Option α)} {index : Nat} (free : pool[index]? = some none) (entry : α) :
    (pool.set index (some entry)).reduceOption.Perm (entry :: pool.reduceOption) := by
  induction pool generalizing index with
  | nil => cases free
  | cons first rest ih =>
    cases index with
    | zero =>
      cases free
      exact List.Perm.refl _
    | succ index =>
      have there : rest[index]? = some none := free
      have tail := ih there
      cases first with
      | none => simpa using tail
      | some other => simpa using (tail.cons other).trans (List.Perm.swap entry other _)

theorem clear_perm {pool : List (Option α)} {index : Nat} {entry : α} (taken : pool[index]? = some (some entry)) :
    pool.reduceOption.Perm (entry :: (pool.set index none).reduceOption) := by
  obtain ⟨inside,there⟩ := List.getElem?_eq_some_iff.mp taken
  have free : (pool.set index none)[index]? = some none := List.getElem?_set_self inside
  have again := set_perm free entry
  rw [List.set_set,← there,List.set_getElem_self] at again
  exact again

theorem mem_reduceOption {pool : List (Option α)} {entry : α} :
    entry ∈ pool.reduceOption ↔ ∃ index : Nat, pool[index]? = some (some entry) := by
  rw [List.reduceOption_mem_iff,List.mem_iff_getElem?]

theorem reduceOption_take {mark : Nat} {pool : List (Option α)} (below : Below mark pool) :
    (pool.take (mark + 1)).reduceOption = pool.reduceOption := by
  have rest : (pool.drop (mark + 1)).reduceOption = [] := by
    refine List.eq_nil_iff_forall_not_mem.mpr fun entry member => ?_
    obtain ⟨index,there⟩ := mem_reduceOption.mp member
    rw [List.getElem?_drop] at there
    have := below _ entry there
    omega
  calc (pool.take (mark + 1)).reduceOption
      = (pool.take (mark + 1)).reduceOption ++ (pool.drop (mark + 1)).reduceOption := by rw [rest,List.append_nil]
    _ = pool.reduceOption := by rw [← List.reduceOption_append,List.take_append_drop]

theorem length_reduceOption (pool : List (Option α)) : pool.reduceOption.length = pool.countP Option.isSome := by
  rw [List.reduceOption_length_eq,List.countP_eq_length_filter]

end ApexBase.Library.Pool
