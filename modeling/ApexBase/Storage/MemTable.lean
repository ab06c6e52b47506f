import ApexBase.Storage.DeltaMerger
import ApexBase.Column.Data

/-! A table that is loaded in memory (`storage/on_demand/storage_core.rs`), the record batch that a
read builds from it (`storage/on_demand/arrow_io.rs`) and the two functions that write pending
changes into it in place. -/
namespace ApexBase.Storage
open Data Library.Assoc Library.Wire
open Column (ColumnType VectorCodec)

/-- A column by its values. The vector variants differ in the codec of their rows; index 0 of a
dictionary column is NULL. -/
inductive ColumnData
  | bool (values : List Bool)
  | int64 (values : List Int64)
  | float64 (values : List UInt64)
  | string (values : List String)
  | binary (values : List Bytes)
  | stringDict (indices : List UInt32) (dict : List String)
  | vectors (codec : VectorCodec) (dim : UInt32) (rows : List Bytes)

inductive Kind
  | bool | int64 | float64 | string | binary | stringDict | vectors
  deriving DecidableEq

namespace ColumnData

def kind : ColumnData → Kind
  | .bool _ => .bool
  | .int64 _ => .int64
  | .float64 _ => .float64
  | .string _ => .string
  | .binary _ => .binary
  | .stringDict _ _ => .stringDict
  | .vectors _ _ _ => .vectors

/-- The stored value of a row, NULL markers aside. A vector column that ends before the row reads as
the zero vector there, here the empty one. -/
def value : ColumnData → Nat → Scalar
  | .bool values,row => values[row]?.elim .null .bool
  | .int64 values,row => .int64 (values.getD row 0)
  | .float64 values,row => .float64 (values.getD row 0)
  | .string values,row => values[row]?.elim .null .utf8
  | .binary values,row => values[row]?.elim .null .bytes
  | .stringDict indices dict,row =>
    let raw := (indices.getD row 0).toNat
    if raw = 0 then .null else dict[raw - 1]?.elim .null .utf8
  | .vectors _ _ rows,row => .bytes (rows.getD row [])

def Filled (count : Nat) : ColumnData → Prop
  | .bool values => values.length = count
  | .int64 values => values.length = count
  | .float64 values => values.length = count
  | .string values => values.length = count
  | _ => True

def new : ColumnType → ColumnData
  | .bool => .bool []
  | .float32 | .float64 => .float64 []
  | .string | .json => .string []
  | .binary | .blob | .uuid | .decimal128 | .list | .extension => .binary []
  | .stringDict => .stringDict [] []
  | .fixedList => .vectors .float32 0 []
  | .float16List => .vectors .float16 0 []
  | .bfloat16List => .vectors .bfloat16 0 []
  | .int8Vector => .vectors .int8 0 []
  | .uint8Vector => .vectors .uint8 0 []
  | .bit1Vector => .vectors .bit1 0 []
  | .turboQuant2Vector => .vectors .turboQuant2 0 []
  | .turboQuant3Vector => .vectors .turboQuant3 0 []
  | .turboQuant4Vector => .vectors .turboQuant4 0 []
  | _ => .int64 []

/-- A column in memory is never dictionary encoded. -/
def newMem (type : ColumnType) : ColumnData := if type = .stringDict then .new .string else .new type

end ColumnData

/-- A Bool column packs its rows into bytes. Adding one to a table that has rows leaves it without
bytes: a row beyond them reads false and cannot be written. -/
structure MemTable where
  schema : List (String × ColumnType)
  ids : List UInt64
  columns : List ColumnData
  boolBytes : List Nat
  nulls : List Bytes
  deleted : Bytes

namespace MemTable

def getIndex (table : MemTable) (name : String) : Option Nat := table.schema.findIdx? (fun column => column.1 == name)

def idAt (table : MemTable) (row : Nat) : UInt64 := table.ids.getD row 0

def isNull (table : MemTable) (column row : Nat) : Bool := getBit (table.nulls.getD column []) row

def isTimeFamily : ColumnType → Bool
  | .timestamp | .timestampTz | .date | .time | .interval => true
  | _ => false

/-- The Arrow type of a column. Text of more than 2 GiB takes 64-bit offsets. -/
def arrowType (type : ColumnType) (column : ColumnData) (nullAt : Nat → Bool) (live : List Nat) : ArrowType :=
  let textType (texts : List String) := if (texts.map String.utf8ByteSize).sum > 2^31 - 1 then ArrowType.other
    else .utf8
  match column with
  | .bool _ => .boolean
  | .int64 _ => if isTimeFamily type then .other else .int64
  | .float64 _ => .float64
  | .string values => textType values
  | .binary _ => .other
  | .stringDict _ _ => textType (live.filterMap (fun row =>
    match nullAt row,column.value row with
    | false,.utf8 text => some text
    | _,_ => none))
  | .vectors _ _ _ => .other

/-- A cell of the batch. Arrays of plain binary columns are built without their NULL markers, and
dates have 32 bits. -/
def present (type : ColumnType) (kind : Kind) (null : Bool) (value : Scalar) : Scalar :=
  match kind with
  | .binary => if type = .blob ∧ null then .null else value
  | .int64 =>
    if null then .null
    else
      match type,value with
      | .date,.int64 days => .int64 days.toInt32.toInt64
      | _,value => value
  | _ => if null then .null else value

def live (table : MemTable) : List Nat := (List.range table.ids.length).filter (fun row => !getBit table.deleted row)

def cell (table : MemTable) (column row : Nat) : Scalar :=
  match table.schema[column]?,table.columns[column]? with
  | some (_,type),some data => present type data.kind (table.isNull column row) (data.value row)
  | _,_ => .int64 0

def columnType (table : MemTable) (column : Nat) : ArrowType :=
  match table.schema[column]?,table.columns[column]? with
  | some (_,type),some data => arrowType type data (table.isNull column) table.live
  | _,_ => .int64

def nameAt (table : MemTable) (column : Nat) : String := (table.schema[column]?.map (fun entry => entry.1)).getD ""

def toArrowBatch (table : MemTable) : RecordBatch :=
  ⟨table.live.length,(List.range table.schema.length).map (fun column =>
    ⟨table.nameAt column,table.columnType column,table.live.map (table.cell column)⟩)⟩

def liveIds (table : MemTable) : List UInt64 := table.live.map table.idAt

/-- The two writers differ in whether they extend a deletion bitmap that is too short and in whether
they maintain the NULL markers. -/
structure Mode where
  growsDeleted : Bool
  writesNulls : Bool

def markDeleted (mode : Mode) (table : MemTable) (delta : DeltaStore) : Bytes :=
  (List.range table.ids.length).foldl (fun deleted idx =>
    if delta.isDeleted (table.idAt idx) then
      if mode.growsDeleted then setBit (growTo deleted idx) idx
      else if idx / 8 < deleted.length then setBit deleted idx
      else deleted
    else deleted) table.deleted

/-- The map from ids to rows keeps the last row of an id. -/
def idToIdx (table : MemTable) (rowId : UInt64) : Option Nat :=
  ((List.range table.ids.length).filter (fun idx => table.idAt idx == rowId)).getLast?

def writeValue (bytes : Nat) (column : ColumnData) (row : Nat) (value : Value) : ColumnData :=
  match value, column with
  | .int64 value, .int64 data => .int64 (data.set row value)
  | .float64 bits, .float64 data => .float64 (data.set row bits)
  | .string value, .string data => .string (data.set row value)
  | .bool value, .bool data => .bool (if row / 8 < bytes then data.set row value else data)
  | _, column => column

def stores : Kind → Value → Option Scalar
  | .int64,.int64 value => some (.int64 value)
  | .float64,.float64 bits => some (.float64 bits)
  | .string,.string value => some (.utf8 value)
  | .bool,.bool value => some (.bool value)
  | _,_ => none

/-- What a write leaves in a row of a column that has `bytes` packed bytes. -/
def takes (bytes row : Nat) (kind : Kind) (value : Value) : Option Scalar :=
  if kind = .bool ∧ bytes ≤ row / 8 then none else stores kind value

def writesCell : Value → Bool
  | .int64 _ | .float64 _ | .string _ | .bool _ => true
  | _ => false

def isNullValue : Value → Bool
  | .null => true
  | _ => false

def applyUpdate (mode : Mode) (table : MemTable) (row : Nat) (name : String) (value : Value) : MemTable :=
  match table.getIndex name with
  | none => table
  | some column =>
    if column < table.columns.length then
      {table with
        columns := table.columns.modify column (fun data => writeValue (table.boolBytes.getD column 0) data row value)
        nulls :=
          if mode.writesNulls ∧ (writesCell value ∨ isNullValue value) then
            table.nulls.modify column (fun bitmap => assignBit bitmap row (isNullValue value))
          else table.nulls}
    else table

def applyRow (mode : Mode) (table : MemTable) (rowId : UInt64) (updates : Map String Value) : MemTable :=
  match table.idToIdx rowId with
  | none => table
  | some row => updates.entries.foldl (fun table update => applyUpdate mode table row update.1 update.2) table

def applyDeltas (mode : Mode) (table : MemTable) (delta : DeltaStore) : MemTable :=
  delta.updates.entries.foldl (fun table row => applyRow mode table row.1 row.2)
    {table with deleted := markDeleted mode table delta}

def applyPendingDeltasInPlace : MemTable → DeltaStore → MemTable := applyDeltas ⟨true,true⟩

/-- The step of `compact_deltas` before it saves the table. -/
def compactDeltas : MemTable → DeltaStore → MemTable := applyDeltas ⟨false,false⟩

end MemTable

/-- A table as loading leaves it: one column and one NULL bitmap per schema entry, a value for each
row; the bitmaps may be of any length. -/
structure MemTable.Loaded (table : MemTable) : Prop where
  names : (table.schema.map (fun entry => entry.1)).Nodup
  columns : table.columns.length = table.schema.length
  nulls : table.nulls.length = table.schema.length
  filled : ∀ data ∈ table.columns, data.Filled table.ids.length
  unbacked : ∀ column values row, table.columns[column]? = some (.bool values) →
    table.boolBytes.getD column 0 ≤ row / 8 →
    values.getD row false = false

/-- The Arrow type that a read gives a column. -/
def arrowOf (type : ColumnType) : Kind → ArrowType
  | .int64 => if MemTable.isTimeFamily type then .other else .int64
  | .float64 => .float64
  | .string | .stringDict => .utf8
  | .bool => .boolean
  | .binary | .vectors => .other

structure LoadedTable where
  table : MemTable
  loaded : table.Loaded

end ApexBase.Storage
