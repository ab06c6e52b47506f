import ApexBase.Query.FilterPlans

/-! Where a conjunction taken in one pass answers like its conditions one after another. -/
namespace ApexBase.Query.ColumnFilter
open Data Library Fts Table Like

variable (crate : TextCrates) (json : Index.JsonCodec) (table : ColumnTable)

/-- The value of the row is a bound that the range leaves out, and within the bounds taken with their ends. -/
def atOpenBound (i : Nat) : Filter → Bool
  | .range field (.int64 low) (.int64 high) lowInclusive highInclusive =>
    match table.column field with
    | some (.int64 data nulls) => (valueAt data nulls i).any fun val =>
      boundsInt64 val low high true true && !boundsInt64 val low high lowInclusive highInclusive
    | _ => false
  | _ => false

/-- The row has no text under a NOT LIKE. -/
def nullUnderNotLike (i : Nat) : Filter → Bool
  | .not (.like field _) =>
    match table.column field with
    | some (.string col) => (col.get i).isNone
    | _ => false
  | _ => false

/-- A row that meets all conditions once the bounds are taken in, or that meets all of them and has
no text under a NOT LIKE. -/
def ToldApart (filters : List Filter) (i : Nat) : Prop :=
  ((∃ filter ∈ filters, atOpenBound table i filter = true) ∧ ∀ filter ∈ filters,
    (keeps crate json table i filter = true ∨ atOpenBound table i filter = true) ∧
    nullUnderNotLike table i filter = false) ∨
  ((∃ filter ∈ filters, nullUnderNotLike table i filter = true) ∧ ∀ filter ∈ filters,
    keeps crate json table i filter = true)

inductive Part : Filter → Filter → Prop
  | whole (filter) : Part filter filter
  | and {part filter filters} (member : filter ∈ filters) (inner : Part part filter) : Part part (.and filters)
  | or {part filter filters} (member : filter ∈ filters) (inner : Part part filter) : Part part (.or filters)
  | not {part filter} (inner : Part part filter) : Part part (.not filter)

theorem Part.trans {a b c : Filter} (lower : Part a b) (upper : Part b c) : Part a c := by
  induction upper with
  | whole => exact lower
  | and member _ ih => exact .and member ih
  | or member _ ih => exact .or member ih
  | not _ ih => exact .not ih

section Fused
variable {crate json table} {i : Nat} {filter : Filter} {filters : List Filter}

theorem boundsInt64_closed {val low high : Int64} {lowInc highInc : Bool}
    (inside : boundsInt64 val low high lowInc highInc = true) :
    boundsInt64 val low high true true = true := by
  unfold boundsInt64 at inside ⊢
  rw [Bool.and_eq_true] at inside ⊢
  refine ⟨?_,?_⟩
  · cases lowInc
    · exact decide_eq_true (Int64.le_of_lt (of_decide_eq_true inside.1))
    · exact inside.1
  · cases highInc
    · exact decide_eq_true (Int64.le_of_lt (of_decide_eq_true inside.2))
    · exact inside.2

/-- What can be fused: LIKE and NOT LIKE on texts, a comparison of numbers of one type, and a range of integers. -/
private theorem fusible_cases (fuses : fusible crate table filter = true) :
    (∃ field pattern col, filter = .like field pattern ∧ table.column field = some (.string col)) ∨
    (∃ field pattern col, filter = .not (.like field pattern) ∧ table.column field = some (.string col)) ∨
    (∃ field op target data nulls, filter = .compare field op (.int64 target) ∧
      table.column field = some (.int64 data nulls)) ∨
    (∃ field op target data nulls, filter = .compare field op (.float64 target) ∧
      table.column field = some (.float64 data nulls)) ∨
    ∃ field low high lowInc highInc data nulls, filter = .range field (.int64 low) (.int64 high) lowInc highInc ∧
      table.column field = some (.int64 data nulls) := by
  unfold fusible fusedMatcher at fuses
  split at fuses
  · rename_i field pattern
    split at fuses
    · rename_i col found
      exact Or.inl ⟨field,pattern,col,rfl,found⟩
    · cases fuses
  · rename_i field op value
    split at fuses
    · rename_i data nulls target found
      exact Or.inr (Or.inr (Or.inl ⟨field,op,target,data,nulls,rfl,found⟩))
    · rename_i data nulls target found
      exact Or.inr (Or.inr (Or.inr (Or.inl ⟨field,op,target,data,nulls,rfl,found⟩)))
    · cases fuses
  · rename_i field low high lowInc highInc
    split at fuses
    · rename_i data nulls l h found
      exact Or.inr (Or.inr (Or.inr (Or.inr ⟨field,l,h,lowInc,highInc,data,nulls,rfl,found⟩)))
    · cases fuses
  · rename_i field pattern
    split at fuses
    · rename_i col found
      exact Or.inr (Or.inl ⟨field,pattern,col,rfl,found⟩)
    · cases fuses
  · cases fuses

theorem fusedKeeps_iff (fuses : fusible crate table filter = true) : fusedKeeps crate table i filter = true ↔
    (keeps crate json table i filter = true ∨ atOpenBound table i filter = true) ∧
    nullUnderNotLike table i filter = false := by
  rcases fusible_cases fuses with ⟨field,pattern,col,rfl,found⟩ | ⟨field,pattern,col,rfl,found⟩ | ⟨field,op,target,data,
    nulls,rfl,found⟩ |
    ⟨field,op,target,data,nulls,rfl,found⟩ | ⟨field,low,high,lowInc,highInc,data,nulls,rfl,found⟩
  · simp [fusedKeeps,fusedMatcher,found,keeps,textMeets,atOpenBound,nullUnderNotLike,FusedMatcher.matches]
  · simp only [fusedKeeps,fusedMatcher,found,keeps,textMeets,atOpenBound,nullUnderNotLike,FusedMatcher.matches,
      Option.any_some]
    cases col.get i with
    | none => simp
    | some s => simp
  · simp [fusedKeeps,fusedMatcher,found,keeps,rowMeets_int64,compareFast,compareFastBy,atOpenBound,nullUnderNotLike,
      FusedMatcher.matches]
  · simp [fusedKeeps,fusedMatcher,found,keeps,rowMeets_float64,compareFast,compareFastBy,atOpenBound,nullUnderNotLike,
      FusedMatcher.matches]
  · simp only [fusedKeeps,fusedMatcher,found,keeps,rowMeets_int64,valueInRange,atOpenBound,nullUnderNotLike,
      FusedMatcher.matches,Option.any_some,and_true]
    cases valueAt data nulls i with
    | none => simp
    | some val =>
      change boundsInt64 val low high true true = true ↔ boundsInt64 val low high lowInc highInc = true ∨
        (boundsInt64 val low high true true && !boundsInt64 val low high lowInc highInc) = true
      cases inner : boundsInt64 val low high lowInc highInc
      · simp
      · simp [boundsInt64_closed inner]

theorem open_not_kept (bound : atOpenBound table i filter = true) : keeps crate json table i filter = false := by
  unfold atOpenBound at bound
  split at bound
  · rename_i field low high lowInc highInc
    split at bound
    · rename_i data nulls found
      simp only [keeps,found,Option.any_some,rowMeets_int64,valueInRange]
      cases there : valueAt data nulls i with
      | none => rfl
      | some val =>
        rw [there,Option.any_some,Bool.and_eq_true,Bool.not_eq_true'] at bound
        exact bound.2
    · cases bound
  · cases bound

theorem fused_row_iff (fuses : ∀ filter ∈ filters, fusible crate table filter = true) :
    filters.all (fusedKeeps crate table i) = filters.all (keeps crate json table i) ↔
    ¬ ToldApart crate json table filters i := by
  have passes : filters.all (fusedKeeps crate table i) = true ↔ ∀ filter ∈ filters,
      (keeps crate json table i filter = true ∨ atOpenBound table i filter = true) ∧
      nullUnderNotLike table i filter = false := by
    rw [List.all_eq_true]
    exact forall₂_congr fun filter member => fusedKeeps_iff (fuses filter member)
  rw [Bool.eq_iff_iff,passes,List.all_eq_true]
  constructor
  · rintro same (⟨⟨filter,member,bound⟩,all⟩ | ⟨⟨filter,member,null⟩,all⟩)
    · have kept := same.mp all filter member
      rw [open_not_kept bound] at kept
      cases kept
    · have text := (same.mpr all filter member).2
      rw [null] at text
      cases text
  · intro alike
    constructor
    · intro all filter member
      refine (all filter member).1.resolve_right fun bound => alike (Or.inl ⟨⟨filter,member,bound⟩,all⟩)
    · intro all filter member
      refine ⟨Or.inl (all filter member),?_⟩
      rw [← Bool.not_eq_true]
      exact fun null => alike (Or.inr ⟨⟨filter,member,null⟩,all⟩)

end Fused

section Answers
variable {rayon : Rayon} {crate json table} {rowCount : Nat} {deleted : RowBits}

private theorem rows_eq_iff {p q : Nat → Bool} :
    ((List.range rowCount).filter fun i => !deleted.get i && p i) =
    ((List.range rowCount).filter fun i => !deleted.get i && q i) ↔
      ∀ i < rowCount, deleted.get i = false → p i = q i := by
  constructor
  · intro same i low live
    have member := congrArg (i ∈ ·) same
    simpa only [List.mem_filter,List.mem_range,low,live,Bool.not_false,Bool.true_and,true_and,eq_iff_iff,
      ← Bool.eq_iff_iff] using member
  · intro same
    refine List.filter_congr fun i member => ?_
    cases live : deleted.get i
    · rw [same i (List.mem_range.mp member) live]
    · rfl

theorem filterColumns_eq_iff (filter : Filter) :
    filterColumns rayon crate json table rowCount deleted filter = sequential crate json table rowCount deleted filter ↔
      ∀ i < rowCount, deleted.get i = false → planned crate json table rowCount i filter =
      keeps crate json table i filter := by
  rw [filterColumns_eq,sequential,rows_eq_iff]

def Alike (crate : TextCrates) (json : Index.JsonCodec) (table : ColumnTable) (rowCount : Nat) (deleted : RowBits)
    (filters : List Filter) : Prop :=
  ∀ i < rowCount, deleted.get i = false → ¬ ToldApart crate json table filters i

theorem fused_eq_iff {filters : List Filter} (fuses : ∀ filter ∈ filters, fusible crate table filter = true) :
    ((List.range rowCount).filter fun i => !deleted.get i && filters.all (fusedKeeps crate table i)) =
      sequential crate json table rowCount deleted (.and filters) ↔
      Alike crate json table rowCount deleted filters := by
  rw [sequential,rows_eq_iff]
  refine forall₃_congr fun i _ _ => ?_
  rw [keeps,keepsAll_eq,fused_row_iff fuses]

theorem planned_eq_keeps {filter : Filter}
    (alike : ∀ filters, Part (.and filters) filter → Fused crate table rowCount filters →
      Alike crate json table rowCount deleted filters)
    {i : Nat} (low : i < rowCount) (live : deleted.get i = false) :
    planned crate json table rowCount i filter = keeps crate json table i filter := by
  induction filter using Filter.induction with
  | always => rfl
  | never => rfl
  | compare => rfl
  | range => rfl
  | like => rfl
  | regexp => rfl
  | isIn => rfl
  | and filters ih =>
    rw [planned,keeps,keepsAll_eq]
    split
    · rename_i fused
      exact (fused_row_iff fused.2.2).mpr (alike filters (.whole _) fused i low live)
    · rw [plannedAll_eq,Bool.eq_iff_iff,List.all_eq_true,List.all_eq_true]
      refine forall₂_congr fun filter member => ?_
      rw [ih filter member fun filters inner => alike filters (.and member inner)]
  | or filters ih =>
    rw [planned,keeps,keepsAny_eq,plannedAny_eq,Bool.eq_iff_iff,List.any_eq_true,List.any_eq_true]
    refine exists_congr fun filter => and_congr_right fun member => ?_
    rw [ih filter member fun filters inner => alike filters (.or member inner)]
  | not filter ih =>
    rw [planned,keeps,ih fun filters inner => alike filters (.not inner)]

end Answers

/-- The pass answers like its conditions where no live row tells them apart. A filter answers like
its meaning where the passes inside of it mean the same; all filters inside of it do where none of
these passes is told apart. -/
theorem filter_plans_iff (rayon : Rayon) (crate : TextCrates) (json : Index.JsonCodec) (table : ColumnTable)
    (rowCount : Nat) (deleted : RowBits) :
    (∀ filters result, filterAndParallelFused rayon crate table rowCount deleted filters = some result →
      (result = sequential crate json table rowCount deleted (.and filters) ↔
        Alike crate json table rowCount deleted filters)) ∧
    ∀ filter, (filterColumns rayon crate json table rowCount deleted filter =
      sequential crate json table rowCount deleted filter ↔
        ∀ i < rowCount, deleted.get i = false → planned crate json table rowCount i filter =
        keeps crate json table i filter) ∧
      ((∀ part, Part part filter → filterColumns rayon crate json table rowCount deleted part =
        sequential crate json table rowCount deleted part) ↔
        ∀ filters, Part (.and filters) filter → Fused crate table rowCount filters →
        Alike crate json table rowCount deleted filters) := by
  refine ⟨fun filters result found => ?_,fun filter => ⟨filterColumns_eq_iff filter,?_⟩⟩
  · rw [filterAndParallelFused_eq] at found
    split at found
    · rename_i fuses
      rw [← Option.some.inj found]
      exact fused_eq_iff fuses
    · cases found
  · constructor
    · intro right filters inner fused
      refine (fused_eq_iff fused.2.2).mp ?_
      rw [← right _ inner,filterColumns_eq]
      refine List.filter_congr fun i _ => ?_
      rw [planned,if_pos fused]
    · intro alike part inner
      refine (filterColumns_eq_iff part).mpr fun i low live => planned_eq_keeps (fun filters deeper => ?_) low live
      exact alike filters (deeper.trans inner)

def fives : ColumnTable where
  nameToIndex := ⟨[⟨"n",0⟩,⟨"s",1⟩],by simp [List.NodupKeys,List.keys]⟩
  columns := [.int64 (List.replicate 10000 5) RowBits.new,
    .string ⟨List.replicate 10000 [],[],[],false,(RowBits.new.extendFalse 10000).set 0 true,10000,fun _ =>
      List.length_replicate⟩]
  numbered := by
    intro name colIdx found
    have member := AList.mem_lookup_iff.mp found
    rcases List.mem_cons.mp member with first | later
    · cases first
      decide
    · cases List.mem_singleton.mp later
      decide

def jsonCodec : Index.JsonCodec := ⟨fun _ => "",fun _ _ => false⟩

def wholeRange : Rayon := ⟨fun count => [List.range count],fun _ => List.append_nil _⟩

def aboveFive : List Filter := [.range "n" (.int64 5) (.int64 9) false true,.range "n" (.int64 0) (.int64 9) true true]

def noText : List Filter := [.range "n" (.int64 0) (.int64 9) true true,.not (.like "s" ['a','%'])]

private theorem column_n : fives.column "n" = some (.int64 (List.replicate 10000 5) RowBits.new) := rfl

private theorem value_five : valueAt (List.replicate 10000 (5 : Int64)) RowBits.new 0 = some 5 := rfl

private theorem above_five :
    keeps fragmentCrate jsonCodec fives 0 (.and aboveFive) = false ∧
    planned fragmentCrate jsonCodec fives 10000 0 (.and aboveFive) = true := by
  have fused : Fused fragmentCrate fives 10000 aboveFive := by decide
  refine ⟨?_,?_⟩
  · simp only [keeps,keepsAll,aboveFive,column_n,Option.any_some,rowMeets_int64,value_five]
    decide
  · rw [planned,if_pos fused]
    simp only [aboveFive,List.all_cons,List.all_nil,fusedKeeps,fusedMatcher,column_n,Option.any_some,
      FusedMatcher.matches,value_five]
    decide

private theorem no_text :
    keeps fragmentCrate jsonCodec fives 0 (.and noText) = true ∧
    planned fragmentCrate jsonCodec fives 10000 0 (.and noText) = false := by
  have fused : Fused fragmentCrate fives 10000 noText := by decide
  obtain ⟨col,column_s,null⟩ : ∃ col, fives.column "s" = some (.string col) ∧ col.get 0 = none := ⟨_,rfl,by decide⟩
  refine ⟨?_,?_⟩
  · simp only [keeps,keepsAll,noText,column_n,column_s,Option.any_some,rowMeets_int64,value_five,textMeets,null]
    decide
  · rw [planned,if_pos fused]
    simp only [noText,List.all_cons,List.all_nil,fusedKeeps,fusedMatcher,column_n,column_s,Option.any_some,
      FusedMatcher.matches,value_five,null]
    decide

/-- The pass keeps the bound that is left out, and loses the row without a text. -/
theorem pass_differs :
    0 ∈ filterColumns wholeRange fragmentCrate jsonCodec fives 10000 .new (.and aboveFive) ∧
    0 ∉ sequential fragmentCrate jsonCodec fives 10000 .new (.and aboveFive) ∧
    0 ∉ filterColumns wholeRange fragmentCrate jsonCodec fives 10000 .new (.and noText) ∧
    0 ∈ sequential fragmentCrate jsonCodec fives 10000 .new (.and noText) ∧
    ¬ ∀ rayon crate json table rowCount deleted filter,
      filterColumns rayon crate json table rowCount deleted filter =
      sequential crate json table rowCount deleted filter := by
  have first : 0 < 10000 := by decide
  have live : RowBits.new.get 0 = false := rfl
  have kept : 0 ∈ filterColumns wholeRange fragmentCrate jsonCodec fives 10000 .new (.and aboveFive) := by
    rw [filterColumns_eq,List.mem_filter,List.mem_range,live,above_five.2]
    exact ⟨first,rfl⟩
  have out : 0 ∉ sequential fragmentCrate jsonCodec fives 10000 .new (.and aboveFive) := by
    rw [sequential,List.mem_filter,List.mem_range,live,above_five.1]
    exact fun there => absurd there.2 (by decide)
  refine ⟨kept,out,?_,?_,fun same => out (same wholeRange fragmentCrate jsonCodec fives 10000 .new _ ▸ kept)⟩
  · rw [filterColumns_eq,List.mem_filter,List.mem_range,live,no_text.2]
    exact fun there => absurd there.2 (by decide)
  · rw [sequential,List.mem_filter,List.mem_range,live,no_text.1]
    exact ⟨first,rfl⟩

end ApexBase.Query.ColumnFilter
