import ApexBase.Storage.MemTable

/-! The batches of the append-only `.delta` file (`storage/on_demand/storage_core.rs`) and
the columns that a read joins from them. -/
namespace ApexBase.Storage
open Data Library.Assoc

namespace ColumnData

def length : ColumnData → Nat
  | .bool values => values.length
  | .int64 values => values.length
  | .float64 values => values.length
  | .string values => values.length
  | .binary values => values.length
  | .stringDict indices _ => indices.length
  | .vectors _ _ rows => rows.length

/-- Appending a column of another variant does nothing. -/
def append : ColumnData → ColumnData → ColumnData
  | .bool values,.bool more => .bool (values ++ more)
  | .int64 values,.int64 more => .int64 (values ++ more)
  | .float64 values,.float64 more => .float64 (values ++ more)
  | .string values,.string more => .string (values ++ more)
  | column,_ => column

end ColumnData

/-- The columns of a batch of appended rows. The format has no NULL markers. -/
structure DeltaBatch where
  ids : List UInt64
  ints : List (String × List Int64)
  floats : List (String × List UInt64)
  strings : List (String × List String)
  bools : List (String × List Bool)

namespace DeltaBatch

def columns (batch : DeltaBatch) : List (String × ColumnData) :=
  batch.ints.map (fun column => (column.1,.int64 column.2)) ++
  batch.floats.map (fun column => (column.1,.float64 column.2)) ++
  batch.strings.map (fun column => (column.1,.string column.2)) ++
  batch.bools.map (fun column => (column.1,.bool column.2))

def emptied : ColumnData → ColumnData
  | .float64 _ => .float64 []
  | .string _ => .string []
  | .bool _ => .bool []
  | _ => .int64 []

def absorb (columns : Map String ColumnData) (column : String × ColumnData) : Map String ColumnData :=
  columns.insert column.1 (((columns.lookup column.1).getD (emptied column.2)).append column.2)

/-- The batches end to end: each column holds the values of the batches that have it, one after
another. -/
def readDeltaData (batches : List DeltaBatch) : List UInt64 × Map String ColumnData :=
  (batches.flatMap (fun batch => batch.ids),batches.foldl (fun columns batch => batch.columns.foldl absorb columns) ∅)

end DeltaBatch

end ApexBase.Storage
