import ApexBase.Library.Traverse
import ApexBase.Query.ColumnFilter

/-! What a filter means row by row, and which plans keep to it. -/
namespace ApexBase.Query.ColumnFilter
open Data Library Fts Table Like

@[elab_as_elim] theorem Filter.induction {motive : Filter → Prop} (always : motive .always) (never : motive .never)
    (compare : ∀ field op value, motive (.compare field op value))
    (range : ∀ field low high lowInc highInc, motive (.range field low high lowInc highInc))
    (like : ∀ field pattern, motive (.like field pattern)) (regexp : ∀ field pattern, motive (.regexp field pattern))
    (isIn : ∀ field values, motive (.isIn field values))
    (and : ∀ filters, (∀ filter ∈ filters, motive filter) → motive (.and filters))
    (or : ∀ filters, (∀ filter ∈ filters, motive filter) → motive (.or filters))
    (not : ∀ filter, motive filter → motive (.not filter)) (filter : Filter) : motive filter := by
  refine Filter.rec (motive_2 := fun filters => ∀ filter ∈ filters, motive filter) always never compare range like
    regexp isIn and or not ?_ ?_ filter
  · exact fun filter member => absurd member List.not_mem_nil
  · intro first rest here there filter member
    rcases List.mem_cons.mp member with rfl | later
    · exact here
    · exact there filter later

variable (rayon : Rayon) (crate : TextCrates) (json : Index.JsonCodec) (table : ColumnTable) (rowCount : Nat)
    (deleted : RowBits)

def textMeets (test : Text → Bool) (i : Nat) : Option TypedColumn → Bool
  | some (.string col) => (col.get i).any test
  | _ => false

def inMeets (values : List Value) (i : Nat) : TypedColumn → Bool
  | .float64 data nulls => (valueAt data nulls i).any (closeTo values)
  | column => rowMeets column (fun rowValue => values.any fun v => Index.valueEq json rowValue v) i

mutual
def keeps (i : Nat) : Filter → Bool
  | .always => true
  | .never => false
  | .compare field op value => (table.column field).any fun column =>
    rowMeets column (fun rowValue => compareFast crate json rowValue op value) i
  | .range field low high lowInclusive highInclusive =>
    (table.column field).any fun column => rowMeets column (fun rowValue =>
      valueInRange rowValue low high lowInclusive highInclusive) i
  | .like field pattern => textMeets (fun s => (LikeMatcher.new crate pattern).matches crate s) i (table.column field)
  | .regexp field pattern => textMeets (fun s => (RegexpMatcher.new crate pattern).matches s) i (table.column field)
  | .isIn field values => (table.column field).any (inMeets json values i)
  | .and filters => keepsAll i filters
  | .or filters => keepsAny i filters
  | .not filter => !keeps i filter

def keepsAll (i : Nat) : List Filter → Bool
  | [] => true
  | filter :: rest => keeps i filter && keepsAll i rest

def keepsAny (i : Nat) : List Filter → Bool
  | [] => false
  | filter :: rest => keeps i filter || keepsAny i rest
end

/-- The live rows that a filter means, in their order. -/
def sequential (filter : Filter) : List Nat := (List.range rowCount).filter fun i => !deleted.get i &&
    keeps crate json table i filter

def fusible (filter : Filter) : Bool := (fusedMatcher crate table filter).isSome

def fusedKeeps (i : Nat) (filter : Filter) :
    Bool := (fusedMatcher crate table filter).any (FusedMatcher.matches crate i)

def Fused (filters : List Filter) : Prop := rowCount ≥ threshold ∧ filters.length ≥ 2 ∧
    ∀ filter ∈ filters, fusible crate table filter = true

instance (filters : List Filter) : Decidable (Fused crate table rowCount filters) := inferInstanceAs (Decidable (_ ∧ _))

mutual
def planned (i : Nat) : Filter → Bool
  | .and filters => if Fused crate table rowCount filters then filters.all (fusedKeeps crate table i)
    else plannedAll i filters
  | .or filters => plannedAny i filters
  | .not filter => !planned i filter
  | .always => true
  | .never => false
  | .compare field op value => keeps crate json table i (.compare field op value)
  | .range field low high lowInclusive highInclusive => keeps crate json table i
    (.range field low high lowInclusive highInclusive)
  | .like field pattern => keeps crate json table i (.like field pattern)
  | .regexp field pattern => keeps crate json table i (.regexp field pattern)
  | .isIn field values => keeps crate json table i (.isIn field values)

def plannedAll (i : Nat) : List Filter → Bool
  | [] => true
  | filter :: rest => planned i filter && plannedAll i rest

def plannedAny (i : Nat) : List Filter → Bool
  | [] => false
  | filter :: rest => planned i filter || plannedAny i rest
end

section Leaves
variable {rayon crate json table rowCount deleted}

theorem filter_shorter {count : Nat} {p q : Nat → Bool} (same : ∀ i < count, p i = q i)
    (beyond : ∀ i, count ≤ i → q i = false) :
    (List.range (min count rowCount)).filter p = (List.range rowCount).filter q := by
  rcases Nat.le_total rowCount count with short | long
  · rw [Nat.min_eq_right short]
    exact List.filter_congr fun i member => same i (Nat.lt_of_lt_of_le (List.mem_range.mp member) short)
  · obtain ⟨more,rfl⟩ := Nat.exists_eq_add_of_le long
    have rest : ((List.range more).map (count + ·)).filter q = [] := by
      refine List.filter_eq_nil_iff.mpr fun i member => ?_
      obtain ⟨j,_,rfl⟩ := List.mem_map.mp member
      rw [beyond _ (Nat.le_add_right _ _)]
      decide
    rw [Nat.min_eq_left long,List.range_add,List.filter_append,rest,List.append_nil]
    exact List.filter_congr fun i member => same i (List.mem_range.mp member)

theorem select_eq (shared : Bool) (count : Nat) (keep : Nat → Bool) :
    select rayon shared count keep = (List.range count).filter keep := by
  cases shared
  · rfl
  · exact rayon.filter_eq count keep

theorem selectData_eq {V : Type} (data : List V) (nulls : RowBits) (test : V → Bool) :
    selectData rayon rowCount deleted data nulls test = (List.range rowCount).filter fun i => !deleted.get i &&
    (valueAt data nulls i).any test := by
  rw [selectData,select_eq]
  refine filter_shorter (fun i _ => ?_) (fun i outside => ?_)
  · rw [skip,deleted.skip_eq,nulls.skip_eq,valueAt]
    cases deleted.get i
    · cases nulls.get i
      · rfl
      · rfl
    · rfl
  · rw [valueAt,List.getElem?_eq_none outside,ite_self]
    exact Bool.and_false _

theorem selectTexts_eq (col : ArrowStringColumn) (shared : Bool) (test : Text → Bool) :
    selectTexts rayon rowCount deleted col shared test = (List.range rowCount).filter fun i => !deleted.get i &&
    (col.get i).any test := by
  rw [selectTexts,select_eq]
  refine filter_shorter (fun i _ => ?_) (fun i outside => ?_)
  · rw [skipText,deleted.skip_eq]
    cases deleted.get i
    · cases null : col.isNull i
      · rfl
      · rw [ArrowStringColumn.get_of_isNull null]
        rfl
    · rfl
  · rw [ArrowStringColumn.get_of_len_le outside]
    exact Bool.and_false _

theorem rowMeets_int64 (data : List Int64) (nulls : RowBits) (test : Value → Bool) (i : Nat) :
    rowMeets (.int64 data nulls) test i = (valueAt data nulls i).any fun v => test (.int64 v) := by
  rw [rowMeets,TypedColumn.get]
  cases valueAt data nulls i with
  | none => rfl
  | some v => rfl

theorem rowMeets_float64 (data : List UInt64) (nulls : RowBits) (test : Value → Bool) (i : Nat) :
    rowMeets (.float64 data nulls) test i = (valueAt data nulls i).any fun v => test (.float64 v) := by
  rw [rowMeets,TypedColumn.get]
  cases valueAt data nulls i with
  | none => rfl
  | some v => rfl

theorem rowMeets_string (col : ArrowStringColumn) (test : Value → Bool) (i : Nat) :
    rowMeets (.string col) test i = (col.get i).any fun s => test (.string (String.ofList s)) := by
  rw [rowMeets,TypedColumn.get,ArrowStringColumn.getValue]
  cases col.get i with
  | none => rfl
  | some s => rfl

theorem none_kept : ((List.range rowCount).filter fun i => !deleted.get i && false) = [] :=
  List.filter_eq_nil_iff.mpr fun i _ => by rw [Bool.and_false]; decide

theorem filterCompareColumn_eq (field : String) (op : CompareOp) (value : Value) :
    filterCompareColumn rayon crate json table rowCount deleted field op value =
    sequential crate json table rowCount deleted (.compare field op value) := by
  unfold filterCompareColumn sequential keeps
  cases table.column field with
  | none => exact none_kept.symm
  | some column =>
    dsimp only [Option.any_some]
    split
    · rw [selectData_eq]
      simp only [rowMeets_int64,compareFast,compareFastBy]
    · rw [selectData_eq]
      simp only [rowMeets_float64,compareFast,compareFastBy]
    · rw [selectTexts_eq]
      simp only [rowMeets_string,compareFast,compareFastBy]
    · rfl

theorem filterRangeColumn_eq (field : String) (low high : Value) (lowInc highInc : Bool) :
    filterRangeColumn rayon table rowCount deleted field low high lowInc highInc =
      sequential crate json table rowCount deleted (.range field low high lowInc highInc) := by
  unfold filterRangeColumn sequential keeps
  cases table.column field with
  | none => exact none_kept.symm
  | some column =>
    dsimp only [Option.any_some]
    split
    · rw [selectData_eq]
      simp only [rowMeets_int64,valueInRange]
    · rw [selectData_eq]
      simp only [rowMeets_float64,valueInRange]
    · rfl

private theorem texts_only {answer : ArrowStringColumn → List Nat} {test : Text → Bool}
    (texts : ∀ col, answer col = (List.range rowCount).filter fun i => !deleted.get i && (col.get i).any test)
    (column : Option TypedColumn) :
    (match column with
      | some (.string col) => answer col
      | _ => []) = (List.range rowCount).filter fun i => !deleted.get i && textMeets test i column := by
  rcases column with _ | ⟨data,nulls⟩ | ⟨data,nulls⟩ | ⟨col⟩ | ⟨data,nulls⟩ | ⟨data,nulls⟩
  · exact none_kept.symm
  · exact none_kept.symm
  · exact none_kept.symm
  · exact texts col
  · exact none_kept.symm
  · exact none_kept.symm

theorem filterLikeColumn_eq (field : String) (pattern : Text) :
    filterLikeColumn rayon crate table rowCount deleted field pattern =
    sequential crate json table rowCount deleted (.like field pattern) := by
  unfold filterLikeColumn sequential keeps
  exact texts_only (fun col => selectTexts_eq col _ _) _

theorem filterRegexpColumn_eq (field : String) (pattern : Text) :
    filterRegexpColumn crate table rowCount deleted field pattern =
    sequential crate json table rowCount deleted (.regexp field pattern) := by
  unfold filterRegexpColumn sequential keeps
  refine texts_only (fun col => List.filter_congr fun i _ => ?_) _
  rw [deleted.skip_eq]
  cases deleted.get i
  · rfl
  · rfl

theorem any_texts (values : List Value) (s : String) :
    (values.any fun v => Index.valueEq json (.string s) v) = (textsOf values).contains s := by
  induction values with
  | nil => rfl
  | cons value rest ih =>
    rw [List.any_cons,ih]
    cases value <;> rfl

theorem any_ints (values : List Value) (x : Int64) :
    (values.any fun v => Index.valueEq json (.int64 x) v) = (intsOf values).contains x := by
  induction values with
  | nil => rfl
  | cons value rest ih =>
    rw [List.any_cons,ih]
    cases value <;> rfl

private theorem nothing_meets {V : Type} {answers : Nat → Option V} {test : V → Bool} (never : ∀ v, test v = false) :
    [] = (List.range rowCount).filter fun i => !deleted.get i && (answers i).any test := by
  refine (List.filter_eq_nil_iff.mpr fun i _ => ?_).symm
  cases answers i with
  | none => rw [Option.any_none,Bool.and_false]; decide
  | some v => rw [Option.any_some,never,Bool.and_false]; decide

theorem filterInColumn_eq (field : String) (values : List Value) :
    filterInColumn rayon json table rowCount deleted field values =
    sequential crate json table rowCount deleted (.isIn field values) := by
  unfold filterInColumn sequential keeps
  cases table.column field with
  | none => exact none_kept.symm
  | some column =>
    dsimp only [Option.any_some]
    rcases column with ⟨data,nulls⟩ | ⟨data,nulls⟩ | ⟨col⟩ | ⟨data,nulls⟩ | ⟨data,nulls⟩
    · simp only [inMeets,rowMeets_int64,any_ints]
      split
      · rename_i empty
        exact nothing_meets fun v => by rw [List.isEmpty_iff.mp empty]; rfl
      · exact selectData_eq _ _ _
    · simp only [inMeets]
      split
      · rename_i empty
        exact nothing_meets fun v => by rw [closeTo,List.isEmpty_iff.mp empty,List.mergeSort_nil]; rfl
      · exact selectData_eq _ _ _
    · simp only [inMeets,rowMeets_string,any_texts]
      split
      · rename_i empty
        exact nothing_meets fun s => by rw [List.isEmpty_iff.mp empty]; rfl
      · exact selectTexts_eq _ _ _
    · rfl
    · rfl

end Leaves

section Trees
variable {rayon crate json table rowCount deleted}

section
variable (i : Nat) (filters : List Filter)

theorem plannedAll_eq :
    plannedAll crate json table rowCount i filters = filters.all (planned crate json table rowCount i) := by
  induction filters with
  | nil => rfl
  | cons filter rest ih => rw [plannedAll,ih,List.all_cons]

theorem plannedAny_eq :
    plannedAny crate json table rowCount i filters = filters.any (planned crate json table rowCount i) := by
  induction filters with
  | nil => rfl
  | cons filter rest ih => rw [plannedAny,ih,List.any_cons]

theorem keepsAll_eq : keepsAll crate json table i filters = filters.all (keeps crate json table i) := by
  induction filters with
  | nil => rfl
  | cons filter rest ih => rw [keepsAll,ih,List.all_cons]

theorem keepsAny_eq : keepsAny crate json table i filters = filters.any (keeps crate json table i) := by
  induction filters with
  | nil => rfl
  | cons filter rest ih => rw [keepsAny,ih,List.any_cons]

end

theorem set_all {bits : RowBits} {indices : List Nat} (inside : ∀ idx ∈ indices, idx < bits.len) :
    (indices.foldl (fun bits idx => bits.set idx true) bits).len = bits.len ∧
    ∀ i, (indices.foldl (fun bits idx => bits.set idx true) bits).get i = (decide (i ∈ indices) || bits.get i) := by
  induction indices generalizing bits with
  | nil => exact ⟨rfl,fun i => by rw [decide_eq_false List.not_mem_nil,Bool.false_or]; rfl⟩
  | cons first rest ih =>
    have here := inside first List.mem_cons_self
    obtain ⟨length,bit⟩ := ih fun idx member => by
      rw [RowBits.len_set here]
      exact inside idx (List.mem_cons_of_mem _ member)
    refine ⟨length.trans (RowBits.len_set here),fun i => ?_⟩
    rw [List.foldl_cons,bit,RowBits.get_set here,← Bool.or_assoc]
    congr 1
    rw [Bool.eq_iff_iff,Bool.or_eq_true,decide_eq_true_eq,decide_eq_true_eq,decide_eq_true_eq,List.mem_cons]
    exact or_comm

theorem get_indicesToBitvec {keep : Nat → Bool} (i : Nat) :
    (indicesToBitvec ((List.range rowCount).filter keep) rowCount).get i = (decide (i < rowCount) && keep i) := by
  have inside : ∀ idx ∈ (List.range rowCount).filter keep, idx < (RowBits.new.extendFalse rowCount).len :=
    fun idx member => by
    rw [RowBits.len_extendFalse]
    exact List.mem_range.mp (List.mem_filter.mp member).1
  rw [indicesToBitvec,(set_all inside).2,RowBits.get_extendFalse,Bool.or_false,Bool.eq_iff_iff,decide_eq_true_eq,
    List.mem_filter,List.mem_range,
    Bool.and_eq_true,decide_eq_true_eq]

theorem bitvecToIndices_eq (bits : RowBits) : bitvecToIndices bits = (List.range bits.len).filter bits.get := by
  rw [bitvecToIndices,WordSet.scan_eq]
  refine List.filter_congr fun i member => ?_
  rw [RowBits.get,if_neg (Nat.not_le.mpr (List.mem_range.mp member))]

theorem filterAndParallelFused_eq (filters : List Filter) :
    filterAndParallelFused rayon crate table rowCount deleted filters =
    if ∀ filter ∈ filters, fusible crate table filter = true then
      some ((List.range rowCount).filter fun i => !deleted.get i && filters.all (fusedKeeps crate table i))
        else none := by
  unfold filterAndParallelFused
  cases extracted : filters.mapM (fusedMatcher crate table) with
  | none =>
    rw [if_neg]
    · rfl
    · intro all
      obtain ⟨matchers,found⟩ := mapM_isSome.mpr fun filter member => Option.isSome_iff_exists.mp (all filter member)
      rw [extracted] at found
      cases found
  | some matchers =>
    have found := mapM_some extracted
    have all : ∀ filter ∈ filters, fusible crate table filter = true := fun filter member =>
      Option.isSome_iff_exists.mpr (mapM_isSome.mp ⟨matchers,extracted⟩ filter member)
    rw [if_pos all]
    change some _ = some _
    rw [Rayon.filter_eq]
    refine congrArg some (List.filter_congr fun i _ => ?_)
    have same : matchers.all (FusedMatcher.matches crate i) = filters.all (fusedKeeps crate table i) := by
      have all : (matchers.map some).all (Option.any (FusedMatcher.matches crate i)) =
        matchers.all (FusedMatcher.matches crate i) := by
        rw [List.all_map]
        rfl
      rw [← all,← found,List.all_map]
      rfl
    rw [deleted.skip_eq,same]
    cases deleted.get i
    · rfl
    · rfl

private def Answers (rayon : Rayon) (crate : TextCrates) (json : Index.JsonCodec) (table : ColumnTable) (rowCount : Nat)
    (deleted : RowBits)
    (filter : Filter) : Prop :=
  filterColumns rayon crate json table rowCount deleted filter =
    (List.range rowCount).filter fun i => !deleted.get i && planned crate json table rowCount i filter

section
variable {filters : List Filter} (answers : ∀ filter ∈ filters, Answers rayon crate json table rowCount deleted filter)
include answers

private theorem intersect_eq (keep : Nat → Bool) :
    intersect rayon crate json table rowCount deleted filters ((List.range rowCount).filter fun i =>
      !deleted.get i && keep i) =
      (List.range rowCount).filter fun i => !deleted.get i &&
      (keep i && filters.all (planned crate json table rowCount i)) := by
  induction filters generalizing keep with
  | nil =>
    rw [intersect]
    exact List.filter_congr fun i _ => by rw [List.all_nil,Bool.and_true]
  | cons filter rest ih =>
    rw [intersect]
    split
    · -- what is empty stays empty
      rename_i empty
      rw [List.isEmpty_iff.mp empty]
      refine (List.filter_eq_nil_iff.mpr fun i member => ?_).symm
      have gone := List.filter_eq_nil_iff.mp (List.isEmpty_iff.mp empty) i member
      rw [← Bool.and_assoc,Bool.not_eq_true] at *
      rw [gone]
      rfl
    · have here := answers filter List.mem_cons_self
      have both : ((List.range rowCount).filter fun i => !deleted.get i && keep i).filter
          (indicesToBitvec (filterColumns rayon crate json table rowCount deleted filter) rowCount).get =
          (List.range rowCount).filter fun i => !deleted.get i &&
          (keep i && planned crate json table rowCount i filter) := by
        rw [here,List.filter_filter]
        refine List.filter_congr fun i member => ?_
        rw [get_indicesToBitvec,decide_eq_true (List.mem_range.mp member)]
        cases deleted.get i
        · exact Bool.and_comm _ _
        · rfl
      dsimp only
      rw [both,ih fun other member => answers other (List.mem_cons_of_mem _ member)]
      exact List.filter_congr fun i _ => by rw [List.all_cons,Bool.and_assoc]

private theorem unite_eq {bits : RowBits} (length : bits.len = rowCount) :
    (unite rayon crate json table rowCount deleted filters bits).len = rowCount ∧
    ∀ i < rowCount, (unite rayon crate json table rowCount deleted filters bits).get i =
      (bits.get i || (!deleted.get i && filters.any (planned crate json table rowCount i))) := by
  induction filters generalizing bits with
  | nil => exact ⟨length,fun i _ => by rw [unite,List.any_nil,Bool.and_false,Bool.or_false]⟩
  | cons filter rest ih =>
    have here := answers filter List.mem_cons_self
    have inside : ∀ idx ∈ filterColumns rayon crate json table rowCount deleted filter, idx < bits.len :=
      fun idx member => by
      rw [length]
      rw [here] at member
      exact List.mem_range.mp (List.mem_filter.mp member).1
    obtain ⟨kept,bit⟩ := set_all inside
    obtain ⟨length',bit'⟩ := ih (fun other member => answers other (List.mem_cons_of_mem _ member)) (kept.trans length)
    refine ⟨length',fun i low => ?_⟩
    have found : decide (i ∈ filterColumns rayon crate json table rowCount deleted filter) =
        (!deleted.get i && planned crate json table rowCount i filter) := by
      rw [Bool.eq_iff_iff,decide_eq_true_eq,here,List.mem_filter,List.mem_range]
      exact and_iff_right low
    rw [unite,bit' i low,bit,found,List.any_cons]
    cases deleted.get i
    · cases bits.get i
      · simp
      · simp
    · simp

end

theorem filterColumns_eq (filter : Filter) : filterColumns rayon crate json table rowCount deleted filter =
    (List.range rowCount).filter fun i => !deleted.get i && planned crate json table rowCount i filter := by
  induction filter using Filter.induction with
  | always =>
    rw [filterColumns]
    exact List.filter_congr fun i _ => (Bool.and_true _).symm
  | never => exact none_kept.symm
  | compare field op value => exact filterCompareColumn_eq field op value
  | range field low high lowInc highInc => exact filterRangeColumn_eq field low high lowInc highInc
  | like field pattern => exact filterLikeColumn_eq field pattern
  | regexp field pattern => exact filterRegexpColumn_eq field pattern
  | isIn field values => exact filterInColumn_eq field values
  | and filters ih =>
    cases filters with
    | nil =>
      rw [filterColumns]
      refine List.filter_congr fun i _ => ?_
      rw [planned,plannedAll_eq,List.all_nil,List.all_nil,ite_self,Bool.and_true]
    | cons first rest =>
      rw [filterColumns,filterAndParallelFused_eq]
      by_cases fused : Fused crate table rowCount (first :: rest)
      · obtain ⟨big,several,all⟩ := fused
        rw [if_pos ⟨big,several⟩,if_pos all]
        refine List.filter_congr fun i _ => ?_
        rw [planned,if_pos ⟨big,several,all⟩]
      · have apart : (if rowCount ≥ threshold ∧ (first :: rest).length ≥ 2 then
            if ∀ filter ∈ first :: rest, fusible crate table filter = true then
              some ((List.range rowCount).filter fun i => !deleted.get i &&
                (first :: rest).all (fusedKeeps crate table i)) else none
            else none) = none := by
          split
          · rename_i large
            exact if_neg fun all => fused ⟨large.1,large.2,all⟩
          · rfl
        rw [apart,show filterColumns rayon crate json table rowCount deleted first = _ from ih first List.mem_cons_self]
        dsimp only
        rw [intersect_eq fun filter member => ih filter (List.mem_cons_of_mem _ member)]
        refine List.filter_congr fun i _ => ?_
        rw [planned,if_neg fused,plannedAll_eq,List.all_cons]
  | or filters ih =>
    cases filters with
    | nil => exact none_kept.symm
    | cons first rest =>
      obtain ⟨length,bit⟩ := unite_eq ih (RowBits.len_extendFalse rowCount)
      rw [filterColumns,bitvecToIndices_eq,length]
      refine List.filter_congr fun i member => ?_
      rw [bit i (List.mem_range.mp member),RowBits.get_extendFalse,Bool.false_or,planned,plannedAny_eq]
  | not filter ih =>
    rw [filterColumns]
    refine List.filter_congr fun i member => ?_
    rw [ih,get_indicesToBitvec,decide_eq_true (List.mem_range.mp member),planned]
    cases deleted.get i
    · rfl
    · rfl

end Trees

end ApexBase.Query.ColumnFilter
