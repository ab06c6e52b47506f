import Mathlib.Order.Bounds.Basic
import Mathlib.Order.MinMax
import Mathlib.Data.UInt

/-! The least number of insertions, deletions and replacements that lead from one list to another, by its
recursion over the first items. -/
namespace ApexBase.Library.EditDistance
variable {α : Type}

inductive Edit : List α → List α → Prop
  | insert (c : α) (a : List α) : Edit a (c :: a)
  | delete (c : α) (a : List α) : Edit (c :: a) a
  | replace (c d : α) (a : List α) : Edit (c :: a) (d :: a)
  | later (c : α) {a b : List α} (edit : Edit a b) : Edit (c :: a) (c :: b)

inductive Edits : Nat → List α → List α → Prop
  | none (a : List α) : Edits 0 a a
  | more {n : Nat} {a b c : List α} (first : Edit a b) (others : Edits n b c) : Edits (n + 1) a c

/-- The items of both lists in their order, each kept, replaced, deleted or inserted. -/
inductive Script : List α → List α → Nat → Prop
  | nil : Script [] [] 0
  | keep (c : α) {a b : List α} {n : Nat} (script : Script a b n) : Script (c :: a) (c :: b) n
  | replace (c d : α) {a b : List α} {n : Nat} (script : Script a b n) : Script (c :: a) (d :: b) (n + 1)
  | delete (c : α) {a b : List α} {n : Nat} (script : Script a b n) : Script (c :: a) b (n + 1)
  | insert (d : α) {a b : List α} {n : Nat} (script : Script a b n) : Script a (d :: b) (n + 1)

section Edits
variable {a b c : List α} {m n : Nat}

theorem Edits.later (x : α) (edits : Edits n a b) : Edits n (x :: a) (x :: b) := by
  induction edits with
  | none a => exact .none _
  | more first others ih => exact .more (.later x first) ih

theorem Script.edits (script : Script a b n) : Edits n a b := by
  induction script with
  | nil => exact .none []
  | keep c script ih => exact ih.later c
  | replace c d script ih => exact .more (.replace c d _) (ih.later d)
  | delete c script ih => exact .more (.delete c _) ih
  | insert d script ih => exact .more (.insert d _) (ih.later d)

theorem Script.refl (a : List α) : Script a a 0 := by
  induction a with
  | nil => exact .nil
  | cons c a ih => exact .keep c ih

theorem Script.after (edit : Edit a b) (script : Script b c n) : ∃ m ≤ n + 1, Script a c m := by
  induction script generalizing a with
  | nil =>
    cases edit with
    | delete x => exact ⟨1,Nat.le_refl 1,.delete x .nil⟩
  | keep y script ih =>
    cases edit with
    | insert => exact ⟨_,Nat.le_refl _,.insert y script⟩
    | delete x => exact ⟨_,Nat.le_refl _,.delete x (.keep y script)⟩
    | replace x => exact ⟨_,Nat.le_refl _,.replace x y script⟩
    | later _ inner =>
      obtain ⟨m,few,short⟩ := ih inner
      exact ⟨m,few,.keep y short⟩
  | replace y z script ih =>
    cases edit with
    | insert => exact ⟨_,Nat.le_succ _,.insert z script⟩
    | delete x => exact ⟨_,Nat.le_refl _,.delete x (.replace y z script)⟩
    | replace x => exact ⟨_,Nat.le_succ _,.replace x z script⟩
    | later _ inner =>
      obtain ⟨m,few,short⟩ := ih inner
      exact ⟨m + 1,Nat.succ_le_succ few,.replace y z short⟩
  | @delete y a b n script ih =>
    cases edit with
    | insert => exact ⟨n,by omega,script⟩
    | delete x => exact ⟨_,Nat.le_refl _,.delete x (.delete y script)⟩
    | replace x => exact ⟨_,Nat.le_succ _,.delete x script⟩
    | later _ inner =>
      obtain ⟨m,few,short⟩ := ih inner
      exact ⟨m + 1,Nat.succ_le_succ few,.delete y short⟩
  | insert z script ih =>
    obtain ⟨m,few,short⟩ := ih edit
    exact ⟨m + 1,Nat.succ_le_succ few,.insert z short⟩

theorem Edits.script (edits : Edits n a b) : ∃ m ≤ n, Script a b m := by
  induction edits with
  | none a => exact ⟨0,Nat.le_refl 0,.refl a⟩
  | more first others ih =>
    obtain ⟨m,few,script⟩ := ih
    obtain ⟨k,fewer,whole⟩ := script.after first
    exact ⟨k,fewer.trans (Nat.succ_le_succ few),whole⟩

end Edits

section Distance
variable [DecidableEq α] {a b : List α} {n : Nat}

def distance : List α → List α → Nat
  | [],b => b.length
  | c :: a,[] => (c :: a).length
  | c :: a,d :: b => min (min (distance a (d :: b) + 1) (distance (c :: a) b + 1)) (distance a b + if c =
    d then 0 else 1)
termination_by a b => a.length + b.length

theorem distance_nil_left (b : List α) : distance [] b = b.length := by rw [distance]

theorem distance_nil_right (a : List α) : distance a [] = a.length := by
  cases a with
  | nil => rw [distance]
  | cons c a => rw [distance]

theorem distance_cons (c d : α) (a b : List α) : distance (c :: a) (d :: b) =
    min (min (distance a (d :: b) + 1) (distance (c :: a) b + 1)) (distance a b + if c = d then 0
      else 1) := by rw [distance]

omit [DecidableEq α] in
private theorem script_insert (b : List α) : Script [] b b.length := by
  induction b with
  | nil => exact .nil
  | cons d b ih => exact .insert d ih

omit [DecidableEq α] in
private theorem script_delete (a : List α) : Script a [] a.length := by
  induction a with
  | nil => exact .nil
  | cons c a ih => exact .delete c ih

theorem script_distance (a b : List α) : Script a b (distance a b) := by
  fun_induction distance a b with
  | case1 b => exact script_insert b
  | case2 c a => exact script_delete (c :: a)
  | case3 c a d b deleted inserted both =>
    rcases min_choice (min (distance a (d :: b) + 1) (distance (c :: a) b + 1)) (distance a b + if c = d then 0
      else 1) with first | second
    · rw [first]
      rcases min_choice (distance a (d :: b) + 1) (distance (c :: a) b + 1) with left | right
      · rw [left]
        exact .delete c deleted
      · rw [right]
        exact .insert d inserted
    · rw [second]
      split
      · rename_i same
        subst same
        exact .keep c both
      · exact .replace c d both

theorem distance_le (script : Script a b n) : distance a b ≤ n := by
  induction script with
  | nil => rw [distance]; exact Nat.le_refl 0
  | keep c script ih =>
    rw [distance_cons,if_pos rfl]
    exact (min_le_right _ _).trans ih
  | replace c d script ih =>
    rw [distance_cons]
    refine (min_le_right _ _).trans ?_
    split <;> omega
  | @delete c a b n script ih =>
    cases b with
    | nil =>
      rw [distance_nil_right] at ih ⊢
      exact Nat.succ_le_succ ih
    | cons d b =>
      rw [distance_cons]
      exact ((min_le_left _ _).trans (min_le_left _ _)).trans (Nat.succ_le_succ ih)
  | @insert d a b n script ih =>
    cases a with
    | nil =>
      rw [distance_nil_left] at ih ⊢
      exact Nat.succ_le_succ ih
    | cons c a =>
      rw [distance_cons]
      exact ((min_le_left _ _).trans (min_le_right _ _)).trans (Nat.succ_le_succ ih)

theorem isLeast_distance (a b : List α) : IsLeast {n | Edits n a b} (distance a b) := by
  refine ⟨(script_distance a b).edits,fun n edits => ?_⟩
  obtain ⟨m,few,script⟩ := Edits.script edits
  exact (distance_le script).trans few

theorem length_le_distance (a b : List α) : a.length ≤ distance a b + b.length ∧
    b.length ≤ distance a b + a.length := by
  fun_induction distance a b with
  | case1 b => exact ⟨Nat.zero_le _,Nat.le_add_right _ _⟩
  | case2 c a => exact ⟨Nat.le_add_right _ _,Nat.zero_le _⟩
  | case3 c a d b deleted inserted both =>
    simp only [List.length_cons] at *
    omega

/-- With one item more in front of the first list, the second list has an end that is no further from the first one. -/
theorem exists_suffix (c : α) (a b : List α) : ∃ rest, rest <:+ b ∧ distance a rest ≤ distance (c :: a) b := by
  induction b with
  | nil =>
    refine ⟨[],List.suffix_refl [],?_⟩
    rw [distance_nil_right,distance_nil_right,List.length_cons]
    exact Nat.le_succ _
  | cons d b ih =>
    rw [distance_cons]
    rcases min_choice (min (distance a (d :: b) + 1) (distance (c :: a) b + 1)) (distance a b + if c = d then 0
      else 1) with first | second
    · rw [first]
      rcases min_choice (distance a (d :: b) + 1) (distance (c :: a) b + 1) with left | right
      · rw [left]
        exact ⟨d :: b,List.suffix_refl _,Nat.le_succ _⟩
      · rw [right]
        obtain ⟨rest,part,near⟩ := ih
        exact ⟨rest,part.trans (List.suffix_cons d b),near.trans (Nat.le_succ _)⟩
    · rw [second]
      exact ⟨b,List.suffix_cons d b,Nat.le_add_right _ _⟩

end Distance

section Reverse
variable {a b : List α} {n : Nat}

private theorem Edit.front (x : List α) (edit : Edit a b) : Edit (x ++ a) (x ++ b) := by
  induction x with
  | nil => exact edit
  | cons c x ih => exact .later c ih

private theorem Edit.back (x : List α) (edit : Edit a b) : Edit (a ++ x) (b ++ x) := by
  induction edit with
  | insert c a => exact .insert c _
  | delete c a => exact .delete c _
  | replace c d a => exact .replace c d _
  | later c edit ih => exact .later c ih

private theorem Edit.reverse (edit : Edit a b) : Edit a.reverse b.reverse := by
  induction edit with
  | insert c a =>
    have inserted := (Edit.insert c []).front a.reverse
    rw [List.append_nil] at inserted
    rw [List.reverse_cons]
    exact inserted
  | delete c a =>
    have deleted := (Edit.delete c []).front a.reverse
    rw [List.append_nil] at deleted
    rw [List.reverse_cons]
    exact deleted
  | replace c d a =>
    rw [List.reverse_cons,List.reverse_cons]
    exact (Edit.replace c d []).front a.reverse
  | later c edit ih =>
    rw [List.reverse_cons,List.reverse_cons]
    exact ih.back [c]

private theorem Edits.reverse (edits : Edits n a b) : Edits n a.reverse b.reverse := by
  induction edits with
  | none a => exact .none _
  | more first others ih => exact .more first.reverse ih

theorem distance_reverse [DecidableEq α] (a b : List α) : distance a.reverse b.reverse = distance a b := by
  refine Nat.le_antisymm ((isLeast_distance _ _).2 (isLeast_distance a b).1.reverse) ((isLeast_distance _ _).2 ?_)
  have back := (isLeast_distance a.reverse b.reverse).1.reverse
  rw [List.reverse_reverse,List.reverse_reverse] at back
  exact back

end Reverse

end ApexBase.Library.EditDistance
