import ApexBase.Library.Rounding
import ApexBase.Query.Defaults
import ApexBase.Query.Signature

/-! Ranges of numbers taken from conditions (`query/executor/predicate_extract.rs`), and the rows of which
they say the same as the conditions. -/
namespace ApexBase.Query.PredicateExtract
open Data Library Library.Binary64 Fts Signature
open Defaults (BinaryOperator)

/-! A literal is no NaN: the number tokens of the parser make none, nor does `coerce_predicate_literal`. -/

def isNumber : Value → Bool
  | .float64 bits => !isNan bits
  | .float32 bits => !isNan (Float32.ofBits bits).toFloat.toBits
  | _ => true

inductive SqlExpr
  | column (name : Text)
  | literal (value : Value) (number : isNumber value = true)
  | binaryOp (left : SqlExpr) (op : BinaryOperator) (right : SqlExpr)
  | between (column : Text) (low high : SqlExpr) (negated : Bool)
  | paren (inner : SqlExpr)
  | other

/-- A column, and the least and the greatest number in the range. -/
abbrev Range := Text × UInt64 × UInt64

def trimQuotes (name : Text) : Text := trimMatches (· == '"') name

def numericValue : Value → Option UInt64
  | .int64 n => some (ofInt n.toInt)
  | .int32 n => some (ofInt n.toInt)
  | .float64 bits => some bits
  | .float32 bits => some (Float32.ofBits bits).toFloat.toBits
  | _ => none

def extractNumericValue : SqlExpr → Option UInt64
  | .literal value _ => numericValue value
  | _ => none

def extractBetweenRange : SqlExpr → Option Range
  | .between column low high negated =>
    if negated then none
    else do
      let low ← extractNumericValue low
      let high ← extractNumericValue high
      some (trimQuotes column,low,high)
  | _ => none

def flipped : BinaryOperator → Option BinaryOperator
  | .gt => some .lt
  | .ge => some .le
  | .lt => some .gt
  | .le => some .ge
  | _ => none

def columnAndValue : SqlExpr → BinaryOperator → SqlExpr → Option (Text × BinaryOperator × UInt64)
  | .column c,op,right => (extractNumericValue right).map fun val => (trimQuotes c,op,val)
  | left,op,.column c => do
    let val ← extractNumericValue left
    let op ← flipped op
    some (trimQuotes c,op,val)
  | _,_,_ => none

def bounds (op : BinaryOperator) (val : UInt64) : Option (UInt64 × UInt64) :=
  match op with
  | .gt => some (nextUpF64 val,infinity)
  | .ge => some (val,infinity)
  | .lt => some (negInfinity,nextDownF64 val)
  | .le => some (negInfinity,val)
  | .eq => some (val,val)
  | _ => none

def extractSingleComparisonAsRange : SqlExpr → Option Range
  | .binaryOp left op right => do
    let (col,op,val) ← columnAndValue left op right
    let (low,high) ← bounds op val
    some (col,low,high)
  | _ => none

def maxF64 (a b : UInt64) : UInt64 := if isNan a then b else if partialCmp a b = some .lt then b else a

def minF64 (a b : UInt64) : UInt64 := if isNan a then b else if partialCmp a b = some .gt then b else a

def extractTwoSidedSameColRange : SqlExpr → Option Range
  | .binaryOp left .and right => do
    let (col1,lo1,hi1) ← extractSingleComparisonAsRange left
    let (col2,lo2,hi2) ← extractSingleComparisonAsRange right
    let low := maxF64 lo1 lo2
    let high := minF64 hi1 hi2
    if col1 ≠ col2 ∨ partialCmp low high = some .gt then none else some (col1,low,high)
  | _ => none

def extractAnyNumericRange (expr : SqlExpr) : Option Range :=
  match extractBetweenRange expr with
  | some range => some range
  | none => extractSingleComparisonAsRange expr

def extractNumericConjunction : SqlExpr → Option (List Range)
  | .binaryOp left .and right => do
    let first ← extractNumericConjunction left
    let second ← extractNumericConjunction right
    if (first ++ second).length ≤ 8 then some (first ++ second) else none
  | .paren inner => extractNumericConjunction inner
  | expr => (extractAnyNumericRange expr).map fun range => [range]

inductive Extracted (expr : SqlExpr) : List Range → Prop
  | conjunction {ranges : List Range} (found : extractNumericConjunction expr = some ranges) : Extracted expr ranges
  | any {range : Range} (found : extractAnyNumericRange expr = some range) : Extracted expr [range]
  | twoSided {range : Range} (found : extractTwoSidedSameColRange expr = some range) : Extracted expr [range]

/-! Rows, and the exact numbers in them as multiples of `2^-1074`. -/

inductive Cell
  | null
  | int64 (value : Int64)
  | float64 (bits : UInt64) (finite : magnitude bits < infinite)

def Cell.number : Cell → Option Int
  | .null => none
  | .int64 value => some (scaledInt value.toInt)
  | .float64 bits _ => some (scaled bits)

abbrev Row := Text → Cell

def Within (row : Row) (range : Range) : Prop :=
  ∃ x, (row range.1).number = some x ∧ isNan range.2.1 = false ∧ isNan range.2.2 = false ∧ scaled range.2.1 ≤ x ∧
    x ≤ scaled range.2.2

def exactNumber : Value → Option Int
  | .int64 n => some (scaledInt n.toInt)
  | .int32 n => some (scaledInt n.toInt)
  | .float64 bits => some (scaled bits)
  | .float32 bits => some (scaled (Float32.ofBits bits).toFloat.toBits)
  | _ => none

def operand (row : Row) : SqlExpr → Option Int
  | .column name => (row (trimQuotes name)).number
  | .literal value _ => exactNumber value
  | _ => none

def compares : BinaryOperator → Int → Int → Prop
  | .eq,x,y => x = y
  | .notEq,x,y => x ≠ y
  | .lt,x,y => x < y
  | .le,x,y => x ≤ y
  | .gt,x,y => y < x
  | .ge,x,y => y ≤ x
  | _,_,_ => False

/-- A condition is true of a row. With a null in it no comparison is. -/
def IsTrue (row : Row) : SqlExpr → Prop
  | .binaryOp left .and right => IsTrue row left ∧ IsTrue row right
  | .binaryOp left .or right => IsTrue row left ∨ IsTrue row right
  | .binaryOp left op right => ∃ x y, operand row left = some x ∧ operand row right = some y ∧ compares op x y
  | .between column low high negated =>
    let above := ∃ x y, (row (trimQuotes column)).number = some x ∧ operand row low = some y ∧ y ≤ x
    let below := ∃ x y, (row (trimQuotes column)).number = some x ∧ operand row high = some y ∧ x ≤ y
    if negated then (∃ x y, (row (trimQuotes column)).number = some x ∧ operand row low = some y ∧ x < y) ∨
      ∃ x y, (row (trimQuotes column)).number = some x ∧ operand row high = some y ∧ y < x
    else above ∧ below
  | .paren inner => IsTrue row inner
  | .column _ | .literal _ _ | .other => False

section Neighbours
variable {v : UInt64}

private theorem rank_toNat (v : UInt64) : rank v = if 2^63 ≤ v.toNat then -((v.toNat % 2^63 : Nat) : Int)
    else (v.toNat % 2^63 : Nat) := by
  unfold rank negative magnitude
  simp only [decide_eq_true_iff]

private theorem isNan_toNat (v : UInt64) : isNan v = false ↔ v.toNat % 2^63 ≤ 2047 * 2^52 := by
  rw [isNan,decide_eq_false_iff_not,Nat.not_lt]
  rfl

private theorem toNat_step (v : UInt64) (small : v.toNat % 2^63 ≠ 0) (number : v.toNat % 2^63 ≤ 2047 * 2^52) :
    (v + 1).toNat = v.toNat + 1 ∧ (v - 1).toNat = v.toNat - 1 := by
  have limit := v.toNat_lt
  have up : (v + 1).toNat = (v.toNat + 1) % 2^64 := UInt64.toNat_add v 1
  have down : (v - 1).toNat = (2^64 - 1 + v.toNat) % 2^64 := UInt64.toNat_sub v 1
  omega

theorem rank_nextUp (number : isNan v = false) (below : v ≠ infinity) :
    isNan (nextUpF64 v) = false ∧ rank (nextUpF64 v) = rank v + 1 := by
  have limit := v.toNat_lt
  have apart : v.toNat ≠ 2047 * 2^52 := fun same => below (UInt64.toNat_inj.mp same)
  have next : (nextUpF64 v).toNat =
      if v.toNat % 2^63 = 0 then 1 else if v.toNat < 2^63 then v.toNat + 1 else v.toNat - 1 := by
    have step := toNat_step v
    unfold nextUpF64
    rw [if_neg (by rw [number]; exact fun either => either.elim Bool.false_ne_true below)]
    have none : isZero v = true ↔ v.toNat % 2^63 = 0 := decide_eq_true_iff
    have plus : ¬ negative v = true ↔ v.toNat < 2^63 := (not_congr decide_eq_true_iff).trans Nat.not_le
    simp only [none,plus]
    rw [isNan_toNat] at number
    split_ifs with zero plus
    · rfl
    · exact (step zero number).1
    · exact (step zero number).2
  rw [isNan_toNat] at number
  rw [isNan_toNat,rank_toNat,rank_toNat,next]
  generalize v.toNat = n at *
  constructor <;> split_ifs <;> omega

theorem rank_nextDown (number : isNan v = false) (above : v ≠ negInfinity) :
    isNan (nextDownF64 v) = false ∧ rank (nextDownF64 v) = rank v - 1 := by
  have limit := v.toNat_lt
  have apart : v.toNat ≠ 2^63 + 2047 * 2^52 := fun same => above (UInt64.toNat_inj.mp same)
  have next : (nextDownF64 v).toNat =
      if v.toNat % 2^63 = 0 then 2^63 + 1 else if v.toNat < 2^63 then v.toNat - 1 else v.toNat + 1 := by
    have step := toNat_step v
    unfold nextDownF64
    rw [if_neg (by rw [number]; exact fun either => either.elim Bool.false_ne_true above)]
    have none : isZero v = true ↔ v.toNat % 2^63 = 0 := decide_eq_true_iff
    have plus : ¬ negative v = true ↔ v.toNat < 2^63 := (not_congr decide_eq_true_iff).trans Nat.not_le
    simp only [none,plus]
    rw [isNan_toNat] at number
    split_ifs with zero plus
    · rfl
    · exact (step zero number).2
    · exact (step zero number).1
  rw [isNan_toNat] at number
  rw [isNan_toNat,rank_toNat,rank_toNat,next]
  generalize v.toNat = n at *
  constructor <;> split_ifs <;> omega

end Neighbours

/-! Comparisons with a literal. -/

structure Comparison where
  column : Text
  op : BinaryOperator
  literal : Value
  number : isNumber literal = true

namespace Comparison
variable (c : Comparison) (row : Row)

def range : Option Range := do
  let val ← numericValue c.literal
  let (low,high) ← bounds c.op val
  some (c.column,low,high)

def InRange : Prop := ∃ range, c.range = some range ∧ Within row range

def IsTrue : Prop := ∃ x y, (row c.column).number = some x ∧ exactNumber c.literal = some y ∧ compares c.op x y

/-- Between the literal and the end of the range that is made of it. -/
def Gap (op : BinaryOperator) (exact : Int) (rounded : UInt64) (x : Int) : Prop :=
  match op with
  | .ge => min exact (scaled rounded) ≤ x ∧ x < max exact (scaled rounded)
  | .le => min exact (scaled rounded) < x ∧ x ≤ max exact (scaled rounded)
  | .gt => exact < x ∧ x < scaled (nextUpF64 rounded)
  | .lt => scaled (nextDownF64 rounded) < x ∧ x < exact
  | .eq => exact ≠ scaled rounded ∧ (x = exact ∨ x = scaled rounded)
  | _ => False

def InGap : Prop := ∃ x y val, (row c.column).number = some x ∧ exactNumber c.literal = some y ∧
    numericValue c.literal = some val ∧ Gap c.op y val x

end Comparison

/-! One comparison. -/

/-- What rounding leaves between a number and the neighbours of its float. -/
structure Rounds (exact : Int) (val : UInt64) : Prop where
  number : isNan val = false
  up : val ≠ infinity → exact < scaled (nextUpF64 val)
  down : val ≠ negInfinity → scaled (nextDownF64 val) < exact
  infinite : val = infinity ∨ val = negInfinity → exact = scaled val

private theorem magnitude_le {v : UInt64} (number : isNan v = false) :
    magnitude v ≤ infinite := Nat.not_lt.mp (of_decide_eq_false number)

theorem rounds_float {bits : UInt64} (number : isNan bits = false) : Rounds (scaled bits) bits where
  number := number
  up below := (scaled_lt _ _).mpr (by have next := (rank_nextUp number below).2; omega)
  down above := (scaled_lt _ _).mpr (by have next := (rank_nextDown number above).2; omega)
  infinite _ := rfl

theorem rounds_int {n : Int} (small : n.natAbs ≤ 2^64) : Rounds (scaledInt n) (ofInt n) := by
  have finite : magnitude (ofInt n) < infinite := by
    rw [magnitude_ofInt]
    exact ofNat_finite small (by decide)
  have number := isNan_ofInt n
  refine ⟨number,?_,?_,?_⟩
  · intro below
    obtain ⟨nextNumber,next⟩ := rank_nextUp number below
    by_contra beyond
    have back := rank_le_ofInt (magnitude_le nextNumber) (Int.not_lt.mp beyond)
    omega
  · intro above
    obtain ⟨nextNumber,next⟩ := rank_nextDown number above
    by_contra beyond
    have back := ofInt_le_rank (magnitude_le nextNumber) (Int.not_lt.mp beyond)
    omega
  · rintro (top | bottom)
    · rw [top] at finite
      exact absurd finite (by decide)
    · rw [bottom] at finite
      exact absurd finite (by decide)

theorem rounds {literal : Value} {exact : Int} {val : UInt64} (number : isNumber literal = true)
    (writes : exactNumber literal = some exact)
    (found : numericValue literal = some val) : Rounds exact val := by
  cases literal with
  | int32 n =>
    have low := n.le_toInt
    have high := n.toInt_lt
    have small : n.toInt.natAbs ≤ 2^64 := by omega
    rw [← Option.some.inj writes,← Option.some.inj found]
    exact rounds_int small
  | int64 n =>
    have low := n.le_toInt
    have high := n.toInt_lt
    have small : n.toInt.natAbs ≤ 2^64 := by omega
    rw [← Option.some.inj writes,← Option.some.inj found]
    exact rounds_int small
  | float32 bits =>
    rw [← Option.some.inj writes,← Option.some.inj found]
    exact rounds_float (by simpa only [isNumber,Bool.not_eq_true'] using number)
  | float64 bits =>
    rw [← Option.some.inj writes,← Option.some.inj found]
    exact rounds_float (by simpa only [isNumber,Bool.not_eq_true'] using number)
  | _ => exact absurd found nofun

theorem cell_finite {cell : Cell} {x : Int} (found : cell.number = some x) :
    scaled negInfinity < x ∧ x < scaled infinity := by
  have top : rank infinity = infinite := by decide
  have bottom : rank negInfinity = -(infinite : Int) := by decide
  -- a number of smaller magnitude lies between the infinities
  have between {bits : UInt64} (finite : magnitude bits < infinite) : scaled negInfinity < scaled bits ∧
    scaled bits < scaled infinity := by
    rw [scaled_lt,scaled_lt,top,bottom,rank]
    split <;> omega
  cases cell with
  | null => cases found
  | int64 value =>
    rw [← Option.some.inj found]
    have low := value.le_toInt
    have high := value.toInt_lt
    have finite : ofNat value.toInt.natAbs < infinite := @ofNat_finite _ 64 (by omega) (by decide)
    have place := rank_ofInt value.toInt
    constructor
    · by_contra beyond
      have back := @ofInt_le_rank _ negInfinity (by decide) (Int.not_lt.mp beyond)
      rw [bottom,place] at back
      split at back <;> omega
    · by_contra beyond
      have back := @rank_le_ofInt _ infinity (by decide) (Int.not_lt.mp beyond)
      rw [top,place] at back
      split at back <;> omega
  | float64 bits finite =>
    rw [← Option.some.inj found]
    exact between finite

theorem bounds_gap {op : BinaryOperator} {exact x : Int} {val low high : UInt64} (here : Rounds exact val)
    (found : bounds op val = some (low,high))
    (finite : scaled negInfinity < x ∧ x < scaled infinity) :
    (isNan low = false ∧ isNan high = false ∧ scaled low ≤ x ∧ x ≤ scaled high) ↔
      (compares op x exact ∧ ¬ Comparison.Gap op exact val x) ∨ (¬ compares op x exact ∧
        Comparison.Gap op exact val x) := by
  have number := here.number
  have top : isNan infinity = false := by decide
  have bottom : isNan negInfinity = false := by decide
  cases op with
  | gt =>
    cases found
    by_cases edge : val = infinity
    · have same : nextUpF64 val = val := if_pos (.inr edge)
      have equal := here.infinite (.inl edge)
      rw [same]
      simp only [number,top,compares,Comparison.Gap,same,true_and]
      rw [edge] at equal ⊢
      omega
    · have next := (rank_nextUp number edge).1
      have above := here.up edge
      simp only [next,top,compares,Comparison.Gap,true_and]
      omega
  | lt =>
    cases found
    by_cases edge : val = negInfinity
    · have same : nextDownF64 val = val := if_pos (.inr edge)
      have equal := here.infinite (.inr edge)
      rw [same]
      simp only [number,bottom,compares,Comparison.Gap,same,true_and]
      rw [edge] at equal ⊢
      omega
    · have next := (rank_nextDown number edge).1
      have below := here.down edge
      simp only [next,bottom,compares,Comparison.Gap,true_and]
      omega
  | ge =>
    cases found
    simp only [number,top,compares,Comparison.Gap,true_and]
    omega
  | le =>
    cases found
    simp only [number,bottom,compares,Comparison.Gap,true_and]
    omega
  | eq =>
    cases found
    simp only [number,compares,Comparison.Gap,true_and]
    omega
  | _ => exact absurd found nofun

theorem Comparison.within_gap {c : Comparison} {range : Range} (found : c.range = some range) (row : Row) :
    Within row range ↔ (c.IsTrue row ∧ ¬ c.InGap row) ∨ (¬ c.IsTrue row ∧ c.InGap row) := by
  obtain ⟨val,value,found⟩ := Option.bind_eq_some_iff.mp found
  obtain ⟨⟨low,high⟩,ends,found⟩ := Option.bind_eq_some_iff.mp found
  cases found
  obtain ⟨exact,writes⟩ : ∃ exact, exactNumber c.literal = some exact := by
    cases same : c.literal <;> rw [same] at value <;> first | exact ⟨_,rfl⟩ | cases value
  cases number : (row c.column).number with
  | none =>
    constructor
    · rintro ⟨x,here,_⟩
      exact absurd (number.symm.trans here) nofun
    · rintro (⟨⟨x,_,here,_⟩,_⟩ | ⟨_,x,_,_,here,_⟩)
      · exact absurd (number.symm.trans here) nofun
      · exact absurd (number.symm.trans here) nofun
  | some x =>
    have isTrue : c.IsTrue row ↔ compares c.op x exact := by
      constructor
      · rintro ⟨_,_,here,written,holds⟩
        cases number.symm.trans here
        cases writes.symm.trans written
        exact holds
      · exact fun holds => ⟨x,exact,number,writes,holds⟩
    have inGap : c.InGap row ↔ Gap c.op exact val x := by
      constructor
      · rintro ⟨_,_,_,here,written,read,gap⟩
        cases number.symm.trans here
        cases writes.symm.trans written
        cases value.symm.trans read
        exact gap
      · exact fun gap => ⟨x,exact,val,number,writes,value,gap⟩
    rw [isTrue,inGap,← bounds_gap (rounds c.number writes value) ends (cell_finite number)]
    constructor
    · rintro ⟨_,here,inside⟩
      cases number.symm.trans here
      exact inside
    · exact fun inside => ⟨x,number,inside⟩

def comparisons : SqlExpr → List Comparison
  | .binaryOp left .and right => comparisons left ++ comparisons right
  | .binaryOp (.column c) op (.literal value number) => [⟨trimQuotes c,op,value,number⟩]
  | .binaryOp (.literal value number) op (.column c) => ((flipped op).map fun op =>
    ⟨trimQuotes c,op,value,number⟩).toList
  | .between column (.literal low lowNumber) (.literal high highNumber) false =>
    [⟨trimQuotes column,.ge,low,lowNumber⟩,⟨trimQuotes column,.le,high,highNumber⟩]
  | .paren inner => comparisons inner
  | _ => []

private theorem single {expr : SqlExpr} {range : Range} (found : extractSingleComparisonAsRange expr = some range) :
    ∃ c, comparisons expr = [c] ∧ c.range = some range ∧ ∀ row, IsTrue row expr ↔ c.IsTrue row := by
  cases expr with
  | binaryOp left op right =>
    obtain ⟨⟨col,op',val⟩,parts,found⟩ := Option.bind_eq_some_iff.mp found
    obtain ⟨⟨low,high⟩,ends,found⟩ := Option.bind_eq_some_iff.mp found
    cases found
    cases left with
    | column name =>
      obtain ⟨_,value,same⟩ := Option.map_eq_some_iff.mp parts
      cases same
      cases right with
      | literal literal number =>
        refine ⟨⟨trimQuotes name,op,literal,number⟩,?_,?_,?_⟩
        · cases op <;> first | rfl | exact absurd ends nofun
        · rw [Comparison.range]
          have read : numericValue literal = some val := value
          simp only [read,ends,bind,Option.bind]
        · intro row
          cases op <;> first | exact Iff.rfl | exact absurd ends nofun
      | _ => exact absurd value nofun
    | literal literal number =>
      cases right with
      | column name =>
        obtain ⟨_,value,parts⟩ := Option.bind_eq_some_iff.mp parts
        obtain ⟨_,turned,same⟩ := Option.bind_eq_some_iff.mp parts
        cases same
        refine ⟨⟨trimQuotes name,op',literal,number⟩,?_,?_,?_⟩
        · cases op <;> cases turned <;> rfl
        · rw [Comparison.range]
          have read : numericValue literal = some val := value
          simp only [read,ends,bind,Option.bind]
        · intro row
          have swapped : IsTrue row (.binaryOp (.literal literal number) op (.column name)) ↔
              ∃ x y, exactNumber literal = some x ∧ (row (trimQuotes name)).number = some y ∧ compares op x y := by
            cases op <;> cases turned <;> exact Iff.rfl
          have order (x y : Int) : compares op x y ↔ compares op' y x := by
            cases op <;> cases turned <;> exact Iff.rfl
          rw [swapped]
          constructor
          · rintro ⟨x,y,written,here,holds⟩
            exact ⟨y,x,here,written,(order x y).mp holds⟩
          · rintro ⟨y,x,here,written,holds⟩
            exact ⟨x,y,written,here,(order x y).mpr holds⟩
      | _ => exact absurd parts nofun
    | _ =>
      cases right with
      | column name => exact absurd parts nofun
      | _ => exact absurd parts nofun
  | _ => exact absurd found nofun

/-! Joined comparisons. -/

structure Joins (expr : SqlExpr) (ranges : List Range) : Prop where
  isTrue : ∀ row, IsTrue row expr ↔ ∀ c ∈ comparisons expr, c.IsTrue row
  within : ∀ row, (∀ range ∈ ranges, Within row range) ↔ ∀ c ∈ comparisons expr, c.InRange row
  ranged : ∀ c ∈ comparisons expr, ∃ range, c.range = some range

theorem Comparison.inRange_iff {c : Comparison} {range : Range} (found : c.range = some range) (row : Row) :
    c.InRange row ↔ Within row range := by
  constructor
  · rintro ⟨_,here,within⟩
    cases found.symm.trans here
    exact within
  · exact fun within => ⟨range,found,within⟩

private theorem joins_single {expr : SqlExpr} {range : Range}
    (found : extractSingleComparisonAsRange expr = some range) : Joins expr [range] := by
  obtain ⟨c,list,ranged,isTrue⟩ := single found
  constructor
  · intro row
    rw [list,isTrue row,List.forall_mem_singleton]
  · intro row
    rw [list,List.forall_mem_singleton,List.forall_mem_singleton,Comparison.inRange_iff ranged]
  · rw [list,List.forall_mem_singleton]
    exact ⟨range,ranged⟩

private theorem within_ends (row : Row) (column : Text) (low high : UInt64) :
    Within row (column,low,high) ↔ Within row (column,low,infinity) ∧ Within row (column,negInfinity,high) := by
  have top : isNan infinity = false := by decide
  have bottom : isNan negInfinity = false := by decide
  constructor
  · rintro ⟨x,number,lowNumber,highNumber,above,below⟩
    have finite := cell_finite number
    exact ⟨⟨x,number,lowNumber,top,above,finite.2.le⟩,⟨x,number,bottom,highNumber,finite.1.le,below⟩⟩
  · rintro ⟨⟨x,number,lowNumber,_,above,_⟩,⟨y,number',_,highNumber,_,below⟩⟩
    cases number.symm.trans number'
    exact ⟨x,number,lowNumber,highNumber,above,below⟩

private theorem joins_between {expr : SqlExpr} {range : Range} (found : extractBetweenRange expr = some range) :
    Joins expr [range] := by
  cases expr with
  | between column low high negated =>
    rw [extractBetweenRange] at found
    split at found
    · exact absurd found nofun
    · rename_i plain
      rw [Bool.not_eq_true] at plain
      subst plain
      obtain ⟨least,readLow,found⟩ := Option.bind_eq_some_iff.mp found
      obtain ⟨most,readHigh,found⟩ := Option.bind_eq_some_iff.mp found
      cases found
      cases low with
      | literal lowValue lowNumber =>
        cases high with
        | literal highValue highNumber =>
          have first : Comparison.range ⟨trimQuotes column,.ge,lowValue,lowNumber⟩ =
            some (trimQuotes column,least,infinity) := by
            have read : numericValue lowValue = some least := readLow
            rw [Comparison.range]
            simp only [read,bounds,bind,Option.bind]
          have second : Comparison.range ⟨trimQuotes column,.le,highValue,highNumber⟩ =
            some (trimQuotes column,negInfinity,most) := by
            have read : numericValue highValue = some most := readHigh
            rw [Comparison.range]
            simp only [read,bounds,bind,Option.bind]
          have list : comparisons (.between column (.literal lowValue lowNumber)
            (.literal highValue highNumber) false) =
              [⟨trimQuotes column,.ge,lowValue,lowNumber⟩,⟨trimQuotes column,.le,highValue,
                highNumber⟩] := by rw [comparisons]
          constructor
          · intro row
            rw [list,List.forall_mem_cons,List.forall_mem_singleton]
            exact Iff.rfl
          · intro row
            rw [list,List.forall_mem_singleton,List.forall_mem_cons,List.forall_mem_singleton,
              Comparison.inRange_iff first,
              Comparison.inRange_iff second]
            exact within_ends row _ _ _
          · rw [list,List.forall_mem_cons,List.forall_mem_singleton]
            exact ⟨⟨_,first⟩,⟨_,second⟩⟩
        | _ => exact absurd readHigh nofun
      | _ => exact absurd readLow nofun
  | _ => exact absurd found nofun

private theorem joins_any {expr : SqlExpr} {range : Range} (found : extractAnyNumericRange expr = some range) :
    Joins expr [range] := by
  unfold extractAnyNumericRange at found
  split at found
  · rename_i between
    cases found
    exact joins_between between
  · exact joins_single found

private theorem joins_and {left right : SqlExpr} {first second : List Range} (here : Joins left first)
    (there : Joins right second) :
    Joins (.binaryOp left .and right) (first ++ second) := by
  have list : comparisons (.binaryOp left .and right) = comparisons left ++ comparisons right := by rw [comparisons]
  constructor
  · intro row
    have both : IsTrue row (.binaryOp left .and right) ↔ IsTrue row left ∧ IsTrue row right := Iff.rfl
    rw [both,list,List.forall_mem_append,here.isTrue row,there.isTrue row]
  · intro row
    rw [list,List.forall_mem_append,List.forall_mem_append,here.within row,there.within row]
  · rw [list,List.forall_mem_append]
    exact ⟨here.ranged,there.ranged⟩

private theorem joins_conjunction {expr : SqlExpr} {ranges : List Range}
    (found : extractNumericConjunction expr = some ranges) : Joins expr ranges := by
  induction expr using extractNumericConjunction.induct generalizing ranges with
  | case1 left right ihLeft ihRight =>
    rw [extractNumericConjunction] at found
    obtain ⟨first,inLeft,found⟩ := Option.bind_eq_some_iff.mp found
    obtain ⟨second,inRight,found⟩ := Option.bind_eq_some_iff.mp found
    split at found
    · cases found
      exact joins_and (ihLeft inLeft) (ihRight inRight)
    · exact absurd found nofun
  | case2 inner ih =>
    rw [extractNumericConjunction] at found
    have here := ih found
    have list : comparisons (.paren inner) = comparisons inner := by rw [comparisons]
    exact ⟨fun row => list ▸ here.isTrue row,fun row => list ▸ here.within row,list ▸ here.ranged⟩
  | case3 expr noAnd noParen =>
    rw [extractNumericConjunction] at found
    · obtain ⟨range,one,same⟩ := Option.map_eq_some_iff.mp found
      cases same
      exact joins_any one
    · exact noAnd
    · exact noParen

theorem Comparison.range_number {c : Comparison} {column : Text} {low high : UInt64}
    (found : c.range = some (column,low,high)) :
    isNan low = false ∧ isNan high = false := by
  obtain ⟨val,value,found⟩ := Option.bind_eq_some_iff.mp found
  obtain ⟨⟨_,_⟩,ends,found⟩ := Option.bind_eq_some_iff.mp found
  cases found
  obtain ⟨exact,writes⟩ : ∃ exact, exactNumber c.literal = some exact := by
    cases same : c.literal <;> rw [same] at value <;> first | exact ⟨_,rfl⟩ | cases value
  have number := (rounds c.number writes value).number
  have top : isNan infinity = false := by decide
  have bottom : isNan negInfinity = false := by decide
  unfold bounds at ends
  split at ends
  · cases ends
    refine ⟨?_,top⟩
    by_cases edge : val = infinity
    · rw [nextUpF64,if_pos (.inr edge)]
      exact number
    · exact (rank_nextUp number edge).1
  · cases ends
    exact ⟨number,top⟩
  · cases ends
    refine ⟨bottom,?_⟩
    by_cases edge : val = negInfinity
    · rw [nextDownF64,if_pos (.inr edge)]
      exact number
    · exact (rank_nextDown number edge).1
  · cases ends
    exact ⟨bottom,number⟩
  · cases ends
    exact ⟨number,number⟩
  · exact absurd ends nofun

private theorem scaled_maxF64 {a b : UInt64} (first : isNan a = false) (second : isNan b = false) :
    isNan (maxF64 a b) = false ∧ ∀ x, scaled (maxF64 a b) ≤ x ↔ scaled a ≤ x ∧ scaled b ≤ x := by
  have order : partialCmp a b = some .lt ↔ scaled a < scaled b := by
    rw [partialCmp,first,second,scaled_lt,← compare_lt_iff_lt]
    exact Option.some_inj
  unfold maxF64
  rw [if_neg (by rw [first]; exact Bool.false_ne_true)]
  split
  · rename_i less
    rw [order] at less
    exact ⟨second,fun x => by omega⟩
  · rename_i other
    rw [order] at other
    exact ⟨first,fun x => by omega⟩

private theorem scaled_minF64 {a b : UInt64} (first : isNan a = false) (second : isNan b = false) :
    isNan (minF64 a b) = false ∧ ∀ x, x ≤ scaled (minF64 a b) ↔ x ≤ scaled a ∧ x ≤ scaled b := by
  have order : partialCmp a b = some .gt ↔ scaled b < scaled a := by
    rw [partialCmp,first,second,scaled_lt,← compare_gt_iff_gt]
    exact Option.some_inj
  unfold minF64
  rw [if_neg (by rw [first]; exact Bool.false_ne_true)]
  split
  · rename_i greater
    rw [order] at greater
    exact ⟨second,fun x => by omega⟩
  · rename_i other
    rw [order] at other
    exact ⟨first,fun x => by omega⟩

private theorem joins_twoSided {expr : SqlExpr} {range : Range}
    (found : extractTwoSidedSameColRange expr = some range) : Joins expr [range] := by
  unfold extractTwoSidedSameColRange at found
  split at found
  · rename_i left right
    obtain ⟨⟨col1,lo1,hi1⟩,first,found⟩ := Option.bind_eq_some_iff.mp found
    obtain ⟨⟨col2,lo2,hi2⟩,second,found⟩ := Option.bind_eq_some_iff.mp found
    dsimp only at found
    split at found
    · exact absurd found nofun
    · rename_i fits
      cases found
      have column : col1 = col2 := by
        by_contra differ
        exact fits (.inl differ)
      have both := joins_and (joins_single first) (joins_single second)
      refine ⟨both.isTrue,fun row => ?_,both.ranged⟩
      rw [← both.within row,List.forall_mem_singleton,List.forall_mem_append,List.forall_mem_singleton,
        List.forall_mem_singleton]
      obtain ⟨c,_,rangeC,_⟩ := single first
      obtain ⟨d,_,rangeD,_⟩ := single second
      obtain ⟨lowC,highC⟩ := Comparison.range_number rangeC
      obtain ⟨lowD,highD⟩ := Comparison.range_number rangeD
      obtain ⟨lowNumber,low⟩ := scaled_maxF64 lowC lowD
      obtain ⟨highNumber,high⟩ := scaled_minF64 highC highD
      subst column
      constructor
      · rintro ⟨x,number,_,_,above,below⟩
        obtain ⟨aboveC,aboveD⟩ := (low x).mp above
        obtain ⟨belowC,belowD⟩ := (high x).mp below
        exact ⟨⟨x,number,lowC,highC,aboveC,belowC⟩,⟨x,number,lowD,highD,aboveD,belowD⟩⟩
      · rintro ⟨⟨x,number,_,_,aboveC,belowC⟩,⟨y,number',_,_,aboveD,belowD⟩⟩
        cases number.symm.trans number'
        exact ⟨x,number,lowNumber,highNumber,(low x).mpr ⟨aboveC,aboveD⟩,(high x).mpr ⟨belowC,belowD⟩⟩
  · exact absurd found nofun

theorem joins {expr : SqlExpr} {ranges : List Range} (extracted : Extracted expr ranges) : Joins expr ranges := by
  cases extracted with
  | conjunction found => exact joins_conjunction found
  | any found => exact joins_any found
  | twoSided found => exact joins_twoSided found

/-- No comparison has its value in its gap; or one of them is not true and one is as true as in its gap, so that
the condition is not true and some range fails. -/
def Faithful (row : Row) (list : List Comparison) : Prop :=
  (∀ c ∈ list, ¬ c.InGap row) ∨ ((∃ c ∈ list, ¬ c.IsTrue row) ∧ ∃ c ∈ list, (c.IsTrue row ↔ c.InGap row))

private theorem together_iff {α : Type} {list : List α} {holds claimed gap : α → Prop}
    (differ : ∀ c ∈ list, holds c ↔ (claimed c ∧ ¬ gap c) ∨ (¬ claimed c ∧ gap c)) :
    ((∀ c ∈ list, holds c) ↔ ∀ c ∈ list, claimed c) ↔
      (∀ c ∈ list, ¬ gap c) ∨ ((∃ c ∈ list, ¬ claimed c) ∧ ∃ c ∈ list, (claimed c ↔ gap c)) := by
  constructor
  · intro same
    by_cases all : ∀ c ∈ list, claimed c
    · refine .inl fun c member inGap => ?_
      rcases (differ c member).mp (same.mpr all c member) with ⟨_,outside⟩ | ⟨refused,_⟩
      · exact outside inGap
      · exact refused (all c member)
    · refine .inr ⟨by push Not at all; exact all,?_⟩
      have some : ¬ ∀ c ∈ list, holds c := fun here => all (same.mp here)
      push Not at some
      obtain ⟨c,member,fails⟩ := some
      refine ⟨c,member,?_⟩
      rw [differ c member] at fails
      tauto
  · rintro (outside | ⟨⟨c,member,refused⟩,d,member',turned⟩)
    · refine forall₂_congr fun c member => ?_
      rw [differ c member]
      have here := outside c member
      tauto
    · refine ⟨fun all => ?_,fun all => absurd (all c member) refused⟩
      have here := (differ d member').mp (all d member')
      tauto

theorem ranges_exact_iff {expr : SqlExpr} {ranges : List Range} (extracted : Extracted expr ranges) (row : Row) :
    ((∀ range ∈ ranges, Within row range) ↔ IsTrue row expr) ↔ Faithful row (comparisons expr) := by
  have here := joins extracted
  rw [here.within row,here.isTrue row]
  refine together_iff fun c member => ?_
  obtain ⟨range,found⟩ := here.ranged c member
  rw [Comparison.inRange_iff found]
  exact Comparison.within_gap found row

theorem ranges_exact_five : ((∀ range ∈ [("a".toList,(0x4014000000000000 : UInt64),infinity)],
    Within (fun _ => .int64 7) range) ↔
    IsTrue (fun _ => .int64 7) (.binaryOp (.column "a".toList) .ge (.literal (.int64 5) rfl))) ↔
      Faithful (fun _ => .int64 7) (comparisons (.binaryOp (.column "a".toList) .ge (.literal (.int64 5) rfl))) :=
  ranges_exact_iff (.any (by decide +kernel)) _

/-- The number behind 2^53 is greater, but not in the range. -/
theorem next_integer_dropped : ¬ ∀ expr ranges, Extracted expr ranges → ∀ row, (∀ range ∈ ranges, Within row range) ↔
    IsTrue row expr := by
  intro claimed
  have found : extractAnyNumericRange (.binaryOp (.column "a".toList) .gt (.literal (.int64 9007199254740992) rfl)) =
      some ("a".toList,0x4340000000000001,infinity) := by decide +kernel
  have same := claimed _ _ (.any found) fun _ => .int64 9007199254740993
  rw [List.forall_mem_singleton] at same
  obtain ⟨x,number,_,_,above,_⟩ :=
    same.mpr ⟨_,_,rfl,rfl,(by decide +kernel : scaledInt 9007199254740992 < scaledInt 9007199254740993)⟩
  rw [← Option.some.inj number] at above
  exact absurd above (by decide +kernel)

end ApexBase.Query.PredicateExtract
