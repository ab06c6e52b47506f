import ApexBase.Index.Manager
import ApexBase.Query.Like
import ApexBase.Table.Columns

/-! Filters over columns (`query/filter.rs`): the rows of one condition, and those of the trees of conditions. -/
namespace ApexBase.Query.ColumnFilter
open Data Library Fts Table Like

/-- The `rayon` crate: a range is cut into pieces, which are filtered apart and joined in their order. -/
structure Rayon where
  pieces : Nat → List (List Nat)
  joined : ∀ count, (pieces count).flatten = List.range count

def Rayon.filter (rayon : Rayon) (count : Nat) (keep : Nat → Bool) :
    List Nat := ((rayon.pieces count).map fun piece => piece.filter keep).flatten

theorem Rayon.filter_eq (rayon : Rayon) (count : Nat) (keep : Nat → Bool) :
    rayon.filter count keep = (List.range count).filter keep := by
  rw [Rayon.filter,← rayon.joined count,List.filter_flatten]

inductive CompareOp
  | equal
  | notEqual
  | lessThan
  | lessEqual
  | greaterThan
  | greaterEqual
  | like
  | isIn
  deriving DecidableEq

inductive Filter
  | always
  | never
  | compare (field : String) (op : CompareOp) (value : Value)
  | range (field : String) (low high : Value) (lowInclusive highInclusive : Bool)
  | like (field : String) (pattern : Text)
  | regexp (field : String) (pattern : Text)
  | isIn (field : String) (values : List Value)
  | and (filters : List Filter)
  | or (filters : List Filter)
  | not (filter : Filter)

def isNull : Value → Bool
  | .null => true
  | _ => false

/-- The order of values, where numbers of different types are compared as floats. -/
def partialCmpBy (asF64 : Value → Option UInt64) : Value → Value → Option Ordering
  | .null,.null => some .eq
  | .null,_ => some .lt
  | _,.null => some .gt
  | .bool a,.bool b => some (compare a b)
  | .int64 a,.int64 b => some (compare a.toInt b.toInt)
  | .timestamp a,.timestamp b => some (compare a.toInt b.toInt)
  | .date a,.date b => some (compare a.toInt b.toInt)
  | .time a,.time b => some (compare a.toInt b.toInt)
  | .interval a,.interval b => some (compare a.toInt b.toInt)
  | .float64 a,.float64 b => Binary64.partialCmp a b
  | .string a,.string b => some (compare a b)
  | a,b =>
    match asF64 a,asF64 b with
    | some x,some y => Binary64.partialCmp x y
    | _,_ => none

def partialCmp : Value → Value → Option Ordering := partialCmpBy Value.asF64

def CompareOp.holds : CompareOp → Ordering → Bool
  | .equal,order => order == .eq
  | .notEqual,order => order != .eq
  | .lessThan,order => order == .lt
  | .lessEqual,order => order != .gt
  | .greaterThan,order => order == .gt
  | .greaterEqual,order => order != .lt
  | _,_ => false

def epsilon : Float := Float.ofBits 0x3CB0000000000000

def distance (a b : UInt64) : Float := (Float.ofBits a - Float.ofBits b).abs

def compareInt64 (op : CompareOp) (val target : Int64) : Bool := op.holds (compare val.toInt target.toInt)

def compareFloat64 (op : CompareOp) (val target : UInt64) : Bool :=
  match op with
  | .equal => decide (distance val target < epsilon)
  | .notEqual => decide (distance val target ≥ epsilon)
  | _ => (Binary64.partialCmp val target).any op.holds

def boundsInt64 (val low high : Int64) (lowInc highInc : Bool) : Bool :=
  (if lowInc then decide (val ≥ low) else decide (val > low)) && (if highInc then decide (val ≤ high)
    else decide (val < high))

def boundsOf (low high : Option Ordering) (lowInc highInc : Bool) : Bool :=
  (match low with
    | some .gt => true
    | some .eq => lowInc
    | _ => false) &&
  (match high with
    | some .lt => true
    | some .eq => highInc
    | _ => false)

def valueInRange (val low high : Value) (lowInc highInc : Bool) : Bool :=
  match val,low,high with
  | .int64 v,.int64 l,.int64 h => boundsInt64 v l h lowInc highInc
  | .float64 v,.float64 l,.float64 h => boundsOf (Binary64.partialCmp v l) (Binary64.partialCmp v h) lowInc highInc
  | _,_,_ => boundsOf (partialCmp val low) (partialCmp val high) lowInc highInc

section Comparison
variable (asF64 : Value → Option UInt64) (crate : TextCrates) (json : Index.JsonCodec)

def compareString (op : CompareOp) (val target : String) : Bool :=
  if op = .like then likeMatch crate val.toList target.toList else op.holds (compare val target)

def compareGenericBy (left : Value) (op : CompareOp) (right : Value) : Bool :=
  match op with
  | .equal => Index.valueEq json left right
  | .notEqual => !Index.valueEq json left right
  | .like =>
    match left,right with
    | .string l,.string r => likeMatch crate l.toList r.toList
    | _,_ => false
  | .isIn => false
  | _ => (partialCmpBy asF64 left right).any op.holds

def compareFastBy (left : Value) (op : CompareOp) (right : Value) : Bool :=
  match left,right with
  | .int64 l,.int64 r => compareInt64 op l r
  | .float64 l,.float64 r => compareFloat64 op l r
  | .string l,.string r => compareString crate op l r
  | _,_ => compareGenericBy asF64 crate json left op right

end Comparison

section Conditions
variable (rayon : Rayon) (crate : TextCrates) (json : Index.JsonCodec)

def compareFast : Value → CompareOp → Value → Bool := compareFastBy Value.asF64 crate json

inductive RegexpMatcher
  | prefixed (p : Text)
  | regex (isMatch : Text → Bool)
  | any
  | never

/-- The characters that keep a pattern from being a text in front of a star. -/
def regexMeta (c : Char) : Bool := c ∈ ['.','+','?','^','$','(',')','[',']','{','}','|','\\']

def RegexpMatcher.new (pattern : Text) : RegexpMatcher :=
  if pattern = [] then .never
  else if pattern = ['*'] then .any
  else if pattern.getLast? = some '*' && !pattern.dropLast.contains '*' && !pattern.dropLast.any regexMeta then
    .prefixed pattern.dropLast
  else
    match crate.new pattern with
    | some isMatch => .regex isMatch
    | none => .never

def RegexpMatcher.matches (s : Text) : RegexpMatcher → Bool
  | .prefixed p => p.isPrefixOf s
  | .regex isMatch => isMatch s
  | .any => true
  | .never => false

variable (table : ColumnTable) (rowCount : Nat) (deleted : RowBits)

/-- From this many rows on the work is shared. -/
def threshold : Nat := 10000

def select (shared : Bool) (count : Nat) (keep : Nat → Bool) :
    List Nat := if shared then rayon.filter count keep else (List.range count).filter keep

def skip (nulls : RowBits) (i : Nat) : Bool := (!deleted.allFalse && deleted.get i) || (!nulls.allFalse && nulls.get i)

def skipText (col : ArrowStringColumn) (i : Nat) : Bool := (!deleted.allFalse && deleted.get i) || col.isNull i

def selectData {V : Type} (data : List V) (nulls : RowBits) (test : V → Bool) : List Nat :=
  select rayon (decide (rowCount ≥ threshold)) (min data.length rowCount) fun i => if skip deleted nulls i then false
    else data[i]?.any test

def selectTexts (col : ArrowStringColumn) (shared : Bool) (test : Text → Bool) : List Nat :=
  select rayon shared (min col.len rowCount) fun i => if skipText deleted col i then false else (col.get i).any test

def rowMeets (column : TypedColumn) (test : Value → Bool) (i : Nat) : Bool :=
  match column.get i with
  | some value => !isNull value && test value
  | none => false

def selectValues (column : TypedColumn) (test : Value → Bool) : List Nat :=
  (List.range rowCount).filter fun i => !deleted.get i && rowMeets column test i

def filterCompareColumn (field : String) (op : CompareOp) (value : Value) : List Nat :=
  match table.column field with
  | none => []
  | some column =>
    match column,value with
    | .int64 data nulls,.int64 target => selectData rayon rowCount deleted data nulls fun val =>
      compareInt64 op val target
    | .float64 data nulls,.float64 target => selectData rayon rowCount deleted data nulls fun val =>
      compareFloat64 op val target
    | .string col,.string target =>
      selectTexts rayon rowCount deleted col (decide (rowCount ≥ threshold)) fun val =>
        compareString crate op (String.ofList val) target
    | column,value => selectValues rowCount deleted column fun rowValue => compareFast crate json rowValue op value

def filterRangeColumn (field : String) (low high : Value) (lowInc highInc : Bool) : List Nat :=
  match table.column field with
  | none => []
  | some column =>
    match column,low,high with
    | .int64 data nulls,.int64 lowVal,.int64 highVal =>
      selectData rayon rowCount deleted data nulls fun val => boundsInt64 val lowVal highVal lowInc highInc
    | .float64 data nulls,.float64 lowVal,.float64 highVal =>
      selectData rayon rowCount deleted data nulls fun val =>
        boundsOf (Binary64.partialCmp val lowVal) (Binary64.partialCmp val highVal) lowInc highInc
    | column,low,high => selectValues rowCount deleted column fun rowValue =>
      valueInRange rowValue low high lowInc highInc

def filterLikeColumn (field : String) (pattern : Text) : List Nat :=
  match table.column field with
  | some (.string col) =>
    selectTexts rayon rowCount deleted col (decide (min col.len rowCount ≥ threshold)) fun s =>
      (LikeMatcher.new crate pattern).matches crate s
  | _ => []

def filterRegexpColumn (field : String) (pattern : Text) : List Nat :=
  match table.column field with
  | some (.string col) =>
    (List.range rowCount).filter fun i => if !deleted.allFalse && deleted.get i then false
      else (col.get i).any (RegexpMatcher.new crate pattern).matches
  | _ => []

def textsOf (values : List Value) : List String :=
  values.filterMap fun
    | .string s => some s
    | _ => none

def intsOf (values : List Value) : List Int64 :=
  values.filterMap fun
    | .int64 i => some i
    | _ => none

def floatsOf (values : List Value) : List UInt64 :=
  values.filterMap fun
    | .float64 f => some f
    | _ => none

def dedupFrom (kept : UInt64) : List UInt64 → List UInt64
  | [] => []
  | value :: rest => if Binary64.eq value kept then dedupFrom kept rest else value :: dedupFrom value rest

def dedup : List UInt64 → List UInt64
  | [] => []
  | value :: rest => value :: dedupFrom value rest

def closeTo (values : List Value) (val : UInt64) : Bool :=
  (dedup ((floatsOf values).mergeSort fun a b => (Binary64.partialCmp a b).getD .eq != .gt)).any fun v =>
    decide (distance val v < epsilon)

def filterInColumn (field : String) (values : List Value) : List Nat :=
  match table.column field with
  | none => []
  | some column =>
    match column with
    | .string col =>
      if (textsOf values).isEmpty then []
      else selectTexts rayon rowCount deleted col (decide (rowCount ≥ threshold)) fun s =>
        (textsOf values).contains (String.ofList s)
    | .int64 data nulls => if (intsOf values).isEmpty then []
      else selectData rayon rowCount deleted data nulls fun val => (intsOf values).contains val
    | .float64 data nulls => if (floatsOf values).isEmpty then []
      else selectData rayon rowCount deleted data nulls (closeTo values)
    | column => selectValues rowCount deleted column fun rowValue => values.any fun v => Index.valueEq json rowValue v

inductive FusedMatcher
  | like (col : ArrowStringColumn) (matcher : LikeMatcher)
  | notLike (col : ArrowStringColumn) (matcher : LikeMatcher)
  | compareInt64 (data : List Int64) (nulls : RowBits) (op : CompareOp) (target : Int64)
  | compareFloat64 (data : List UInt64) (nulls : RowBits) (op : CompareOp) (target : UInt64)
  | rangeInt64 (data : List Int64) (nulls : RowBits) (low high : Int64)

/-- The matcher of a condition that can be fused. A range leaves its flags behind. -/
def fusedMatcher : Filter → Option FusedMatcher
  | .like field pattern =>
    match table.column field with
    | some (.string col) => some (.like col (LikeMatcher.new crate pattern))
    | _ => none
  | .compare field op value =>
    match table.column field,value with
    | some (.int64 data nulls),.int64 target => some (.compareInt64 data nulls op target)
    | some (.float64 data nulls),.float64 target => some (.compareFloat64 data nulls op target)
    | _,_ => none
  | .range field low high _ _ =>
    match table.column field,low,high with
    | some (.int64 data nulls),.int64 l,.int64 h => some (.rangeInt64 data nulls l h)
    | _,_,_ => none
  | .not (.like field pattern) =>
    match table.column field with
    | some (.string col) => some (.notLike col (LikeMatcher.new crate pattern))
    | _ => none
  | _ => none

def FusedMatcher.matches (i : Nat) : FusedMatcher → Bool
  | .like col matcher => (col.get i).any fun s => matcher.matches crate s
  | .notLike col matcher => (col.get i).any fun s => !matcher.matches crate s
  | .compareInt64 data nulls op target => (valueAt data nulls i).any fun val => ColumnFilter.compareInt64 op val target
  | .compareFloat64 data nulls op target => (valueAt data nulls i).any fun val =>
    ColumnFilter.compareFloat64 op val target
  | .rangeInt64 data nulls low high => (valueAt data nulls i).any fun val => decide (val ≥ low) && decide (val ≤ high)

def filterAndParallelFused (filters : List Filter) : Option (List Nat) := do
  let matchers ← filters.mapM (fusedMatcher crate table)
  return rayon.filter rowCount fun i => if !deleted.allFalse && deleted.get i then false
    else matchers.all (FusedMatcher.matches crate i)

def indicesToBitvec (indices : List Nat) (len : Nat) :
    RowBits := indices.foldl (fun bits idx => bits.set idx true) (RowBits.new.extendFalse len)

def bitvecToIndices (bits : RowBits) : List Nat := WordSet.scan bits.len 0 bits.data

mutual
def filterColumns : Filter → List Nat
  | .always => (List.range rowCount).filter fun i => !deleted.get i
  | .never => []
  | .compare field op value => filterCompareColumn rayon crate json table rowCount deleted field op value
  | .range field low high lowInclusive highInclusive => filterRangeColumn rayon table rowCount deleted field low high
    lowInclusive highInclusive
  | .like field pattern => filterLikeColumn rayon crate table rowCount deleted field pattern
  | .regexp field pattern => filterRegexpColumn crate table rowCount deleted field pattern
  | .isIn field values => filterInColumn rayon json table rowCount deleted field values
  | .and [] => (List.range rowCount).filter fun i => !deleted.get i
  | .and (first :: rest) =>
    match if rowCount ≥ threshold ∧ (first :: rest).length ≥ 2 then
        filterAndParallelFused rayon crate table rowCount deleted (first :: rest) else none with
    | some result => result
    | none => intersect rest (filterColumns first)
  | .or [] => []
  | .or (first :: rest) => bitvecToIndices (unite (first :: rest) (RowBits.new.extendFalse rowCount))
  | .not filter =>
    let matchingBits := indicesToBitvec (filterColumns filter) rowCount
    (List.range rowCount).filter fun i => !deleted.get i && !matchingBits.get i

def intersect : List Filter → List Nat → List Nat
  | [],result => result
  | filter :: rest,result =>
    if result.isEmpty then result
    else
      let matchingBits := indicesToBitvec (filterColumns filter) rowCount
      intersect rest (result.filter matchingBits.get)

def unite : List Filter → RowBits → RowBits
  | [],bits => bits
  | filter :: rest,bits => unite rest ((filterColumns filter).foldl (fun bits idx => bits.set idx true) bits)
end

end Conditions

end ApexBase.Query.ColumnFilter
