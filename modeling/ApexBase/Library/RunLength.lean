import Mathlib.Data.List.Basic
import Mathlib.Data.UInt

/-! Run lengths: a list as its maximal runs of equal elements. -/
namespace ApexBase.Library.RunLength

variable {α : Type} [DecidableEq α]

def runsFrom (value : α) (count : Nat) : List α → List (α × Nat)
  | [] => [(value,count)]
  | next :: rest => if next = value then runsFrom value (count + 1) rest else (value,count) :: runsFrom next 1 rest

def runs : List α → List (α × Nat)
  | [] => []
  | value :: rest => runsFrom value 1 rest

def expand (runs : List (α × Nat)) : List α := runs.flatMap (fun run => List.replicate run.2 run.1)

theorem expand_runsFrom (value : α) (count : Nat) (list : List α) :
    expand (runsFrom value count list) = List.replicate count value ++ list := by
  induction list generalizing value count with
  | nil => simp [runsFrom,expand]
  | cons next rest ih =>
    rw [runsFrom]
    split
    · rename_i same
      rw [ih,same,List.replicate_succ']
      simp
    · have tail := ih next 1
      unfold expand at tail ⊢
      rw [List.flatMap_cons,tail]
      simp

theorem expand_runs (list : List α) : expand (runs list) = list := by
  cases list with
  | nil => rfl
  | cons value rest => simp [runs,expand_runsFrom]

theorem length_runsFrom (value : α) (count : Nat) (list : List α) :
    (runsFrom value count list).length ≤ list.length + 1 := by
  induction list generalizing value count with
  | nil => simp [runsFrom]
  | cons next rest ih =>
    rw [runsFrom]
    split
    · have tail := ih value (count + 1)
      simp only [List.length_cons]
      omega
    · have tail := ih next 1
      simp only [List.length_cons]
      omega

theorem length_runs (list : List α) : (runs list).length ≤ list.length := by
  cases list with
  | nil => simp [runs]
  | cons value rest => exact length_runsFrom value 1 rest

end ApexBase.Library.RunLength
