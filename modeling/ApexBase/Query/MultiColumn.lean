import ApexBase.Library.Binary64
import ApexBase.Library.Grouping
import ApexBase.Library.Wire

/-! GROUP BY over several columns (`query/multi_column.rs`, `query/vectorized.rs`). A double is its bits; how sums of
doubles round is a parameter. -/
namespace ApexBase.Query.MultiColumn
open Library Library.Grouping

inductive TypedColumnRef
  | int64 (values : List (Option Int64))
  | float64 (values : List (Option UInt64))
  | string (values : List (Option String))
  | bool (values : List (Option Bool))
  /-- The keys, and the values with their validity. -/
  | dictString (keys : List (Option UInt32)) (values : List (Bool × String))

inductive Write
  | i64 (value : Int64)
  | u64 (value : UInt64)
  | u8 (value : UInt8)
  | bytes (value : List UInt8)

inductive KeyValue
  | int (value : Int64)
  | float (bits : UInt64)
  | text (value : String)
  | bool (value : Bool)
  deriving DecidableEq

namespace TypedColumnRef

def length : TypedColumnRef → Nat
  | .int64 values => values.length
  | .float64 values => values.length
  | .string values => values.length
  | .bool values => values.length
  | .dictString keys _ => keys.length

def hashRow (row : Nat) : TypedColumnRef → List Write
  | .int64 values =>
    match values[row]?.join with
    | some value => [.i64 value]
    | none => [.u8 0xFF]
  | .float64 values =>
    match values[row]?.join with
    | some bits => [.u64 bits]
    | none => [.u8 0xFF]
  | .string values =>
    match values[row]?.join with
    | some value => [.bytes (Wire.utf8 value)]
    | none => [.u8 0xFF]
  | .bool values =>
    match values[row]?.join with
    | some value => [.u8 (if value then 1 else 0)]
    | none => [.u8 0xFF]
  | .dictString keys values =>
    match keys[row]?.join with
    | some key =>
      match values[key.toNat]? with
      | some slot => [.bytes (Wire.utf8 slot.2)]
      | none => []
    | none => [.u8 0xFF]

def keyAt (row : Nat) : TypedColumnRef → Option KeyValue
  | .int64 values => values[row]?.join.map .int
  | .float64 values => values[row]?.join.map .float
  | .string values => values[row]?.join.map .text
  | .bool values => values[row]?.join.map .bool
  | .dictString keys values => do
    let key ← keys[row]?.join
    let slot ← values[key.toNat]?
    if slot.1 then some (.text slot.2) else none

end TypedColumnRef

/-- A column of a batch; a dictionary may have values that are no strings. -/
inductive ArrayRef
  | typed (column : TypedColumnRef)
  | dictionary (length : Nat)
  | other (length : Nat)

def ArrayRef.length : ArrayRef → Nat
  | .typed column => column.length
  | .dictionary length => length
  | .other length => length

structure RecordBatch where
  numRows : Nat
  columns : List (String × ArrayRef)
  sized : ∀ entry ∈ columns, entry.2.length = numRows

def RecordBatch.columnByName (batch : RecordBatch) (name : String) : Option ArrayRef := batch.columns.lookup name

structure AggregateState where
  count : Int64
  sumInt : Int64
  sumFloat : UInt64
  minInt : Option Int64
  maxInt : Option Int64
  minFloat : Option UInt64
  maxFloat : Option UInt64
  firstRowIdx : Nat

/-- `f64::min` and `f64::max`: the other number where one is none. -/
def minNum (a b : UInt64) : UInt64 :=
  if Binary64.isNan a then b else if Binary64.isNan b then a else if Binary64.rank b < Binary64.rank a then b else a

def maxNum (a b : UInt64) : UInt64 :=
  if Binary64.isNan a then b else if Binary64.isNan b then a else if Binary64.rank a < Binary64.rank b then b else a

namespace AggregateState
variable (add : UInt64 → UInt64 → UInt64)

def new (row : Nat) : AggregateState := ⟨0,0,0,none,none,none,none,row⟩

def updateInt (value : Int64) (state : AggregateState) : AggregateState :=
  {state with
    count := state.count + 1
    sumInt := state.sumInt + value
    minInt := some (state.minInt.elim value (min · value))
    maxInt := some (state.maxInt.elim value (max · value))}

def updateFloat (value : UInt64) (state : AggregateState) : AggregateState :=
  {state with
    count := state.count + 1
    sumFloat := add state.sumFloat value
    minFloat := some (state.minFloat.elim value (minNum · value))
    maxFloat := some (state.maxFloat.elim value (maxNum · value))}

def updateCount (state : AggregateState) : AggregateState := {state with count := state.count + 1}

def mergeValue {α : Type} (op : α → α → α) (value other : Option α) : Option α :=
  match other with
  | some other => some (value.elim other (op · other))
  | none => value

def merge (state other : AggregateState) : AggregateState :=
  {state with
    count := state.count + other.count
    sumInt := state.sumInt + other.sumInt
    sumFloat := add state.sumFloat other.sumFloat
    minInt := mergeValue min state.minInt other.minInt
    maxInt := mergeValue max state.maxInt other.maxInt
    minFloat := mergeValue minNum state.minFloat other.minFloat
    maxFloat := mergeValue maxNum state.maxFloat other.maxFloat}

end AggregateState

/-- The entries of the hash table in the order of their insertion. -/
structure MultiColumnHashAgg where
  hashTable : List (UInt64 × UInt32)
  states : List AggregateState
  firstRowIndices : List Nat

structure MapOrder where
  iterate : List (UInt64 × UInt32) → List (UInt64 × UInt32)
  perm : ∀ entries, (iterate entries).Perm entries

namespace MultiColumnHashAgg
variable (add : UInt64 → UInt64 → UInt64)

def new : MultiColumnHashAgg := ⟨[],[],[]⟩

def getOrCreateGroup (agg : MultiColumnHashAgg) (key : UInt64) (row : Nat) : MultiColumnHashAgg × UInt32 :=
  match agg.hashTable.lookup key with
  | some groupId => (agg,groupId)
  | none =>
    let groupId := UInt32.ofNat agg.states.length
    (⟨agg.hashTable ++ [(key,groupId)],agg.states ++ [.new row],agg.firstRowIndices ++ [row]⟩,groupId)

/-- `get_unchecked_mut` on the state of a group. -/
def update (agg : MultiColumnHashAgg) (groupId : UInt32) (f : AggregateState → AggregateState) : MultiColumnHashAgg :=
  {agg with states := agg.states.modify groupId.toNat f}

def mergeEntry (localAgg final : MultiColumnHashAgg) (entry : UInt64 × UInt32) : MultiColumnHashAgg :=
  let localState := (localAgg.states[entry.2.toNat]?).getD (.new 0)
  match final.hashTable.lookup entry.1 with
  | some globalGroupId => final.update globalGroupId fun state => state.merge add localState
  | none =>
    ⟨final.hashTable ++ [(entry.1,UInt32.ofNat final.states.length)],final.states ++ [localState],
      final.firstRowIndices ++ [(localAgg.firstRowIndices[entry.2.toNat]?).getD 0]⟩

def mergePartition (order : MapOrder) (final localAgg : MultiColumnHashAgg) : MultiColumnHashAgg :=
  (order.iterate localAgg.hashTable).foldl (localAgg.mergeEntry add) final

end MultiColumnHashAgg

section Execute
variable (add : UInt64 → UInt64 → UInt64) (finish : List Write → UInt64) (order : MapOrder) (threads : Nat)

def vectorSize : Nat := 2048

/-- The key of a row is the hash of its values alone. -/
def fromColumns (cols : List TypedColumnRef) (row : Nat) : UInt64 := finish (cols.flatMap (·.hashRow row))

def processMultiColumnGroupBy (cols : List TypedColumnRef) (aggInt : Option (List (Option Int64)))
    (aggFloat : Option (List (Option UInt64))) (countOnly : Bool) (agg : MultiColumnHashAgg)
    (start end_ : Nat) : MultiColumnHashAgg :=
  let rows := List.range' start (end_ - start)
  if countOnly then
    rows.foldl (fun agg row =>
      let (agg,groupId) := agg.getOrCreateGroup (fromColumns finish cols row) row
      agg.update groupId .updateCount) agg
  else
    match aggInt with
    | some values =>
      rows.foldl (fun agg row =>
        let (agg,groupId) := agg.getOrCreateGroup (fromColumns finish cols row) row
        match values[row]?.join with
        | some value => agg.update groupId (.updateInt value)
        | none => agg) agg
    | none =>
      match aggFloat with
      | some values =>
        rows.foldl (fun agg row =>
          let (agg,groupId) := agg.getOrCreateGroup (fromColumns finish cols row) row
          match values[row]?.join with
          | some value => agg.update groupId (.updateFloat add value)
          | none => agg) agg
      | none => agg

def processChunks (cols : List TypedColumnRef) (aggInt : Option (List (Option Int64)))
    (aggFloat : Option (List (Option UInt64))) (countOnly : Bool) (start end_ : Nat) : MultiColumnHashAgg :=
  (List.range ((end_ - start + vectorSize - 1) / vectorSize)).foldl (fun agg chunk =>
    let batchStart := start + vectorSize * chunk
    processMultiColumnGroupBy add finish cols aggInt aggFloat countOnly agg batchStart
      (min (batchStart + vectorSize) end_)) .new

def typedColumn (batch : RecordBatch) (name : String) : Except String TypedColumnRef :=
  match batch.columnByName name with
  | none => .error ("Group column '" ++ name ++ "' not found")
  | some (.typed column) => .ok column
  | some (.dictionary _) => .error "Unsupported dictionary value type"
  | some (.other _) => .error ("Unsupported group column type for column '" ++ name ++ "'")

def aggColInt (batch : RecordBatch) (name : String) : Option (List (Option Int64)) :=
  match batch.columnByName name with
  | some (.typed (.int64 values)) => some values
  | _ => none

def aggColFloat (batch : RecordBatch) (name : String) : Option (List (Option UInt64)) :=
  match batch.columnByName name with
  | some (.typed (.float64 values)) => some values
  | _ => none

def executeMultiColumnGroupBy (batch : RecordBatch) (groupColNames : List String) (aggColName : Option String) :
    Except String MultiColumnHashAgg := do
  let cols ← groupColNames.mapM (typedColumn batch)
  let aggInt := aggColName.bind (aggColInt batch)
  let aggFloat := aggColName.bind (aggColFloat batch)
  let countOnly := aggInt.isNone && aggFloat.isNone
  if 50000 < batch.numRows then
    let numPartitions := max threads 4
    let partitionSize := (batch.numRows + numPartitions - 1) / numPartitions
    let partitions := (List.range numPartitions).map fun p =>
      processChunks add finish cols aggInt aggFloat countOnly (p * partitionSize)
        (min ((p + 1) * partitionSize) batch.numRows)
    .ok (partitions.foldl (MultiColumnHashAgg.mergePartition add order) .new)
  else .ok (processChunks add finish cols aggInt aggFloat countOnly 0 batch.numRows)

end Execute

end ApexBase.Query.MultiColumn
