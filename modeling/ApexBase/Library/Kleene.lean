import Mathlib.Data.List.Basic
import Mathlib.Data.UInt

/-! Three-valued logic. `none` is the unknown value. -/
namespace ApexBase.Library.Kleene

def conj : Option Bool → Option Bool → Option Bool
  | some false,_ => some false
  | some true,b => b
  | none,some false => some false
  | none,_ => none

def disj : Option Bool → Option Bool → Option Bool
  | some true,_ => some true
  | some false,b => b
  | none,some true => some true
  | none,_ => none

def neg (value : Option Bool) : Option Bool := value.map Bool.not

def any (values : List (Option Bool)) : Option Bool := values.foldr disj (some false)

theorem any_true {values : List (Option Bool)} (there : some true ∈ values) : any values = some true := by
  induction values with
  | nil => exact absurd there List.not_mem_nil
  | cons value rest ih =>
    rcases List.mem_cons.mp there with first | later
    · rw [any,List.foldr_cons,← first]
      rfl
    · have found := ih later
      unfold any at found ⊢
      rw [List.foldr_cons,found]
      rcases value with _ | _ | _ <;> rfl

theorem any_unknown {values : List (Option Bool)} (never : some true ∉ values) :
    any values = if none ∈ values then none else some false := by
  induction values with
  | nil => rfl
  | cons value rest ih =>
    have later := ih fun there => never (List.mem_cons_of_mem _ there)
    unfold any at later ⊢
    rw [List.foldr_cons,later]
    rcases value with _ | _ | _
    · rw [if_pos List.mem_cons_self]
      split
      · rfl
      · rfl
    · have same : none ∈ some false :: rest ↔ none ∈ rest := by simp
      rw [if_congr same rfl rfl]
      rfl
    · exact absurd List.mem_cons_self never

end ApexBase.Library.Kleene
