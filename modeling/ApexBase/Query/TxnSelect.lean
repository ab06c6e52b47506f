import ApexBase.Storage.MemTable
import ApexBase.Mvcc.VersionStore
import ApexBase.Txn.Context

/-! Statements inside a transaction (`query/executor/dml/coordination.rs`): writes are buffered in
the transaction's context, `SELECT *` overlays them on the result over the committed table, and
COMMIT applies them to the storage. The table has no constraint, secondary index or full-text index;
other tables and rows with missing columns are written by the general INSERT and UPDATE instead. -/
namespace ApexBase.Query
open Data Library.Assoc Storage DeltaMerger Txn Mvcc
open Column (ColumnType)

/-- A committed table by its rows: those of the base row groups, the appended ones, and the pending
changes of the `DeltaStore` over both. -/
structure StoredTable where
  name : String
  columns : List (String × ColumnType)
  base : List (UInt64 × List Scalar)
  appended : List (UInt64 × List Scalar)
  delta : DeltaStore
  nextId : Nat
  /-- Whether the cell lies uncompressed and plainly encoded where an in-place write finds it. -/
  inPlace : UInt64 → String → Bool
  /-- Whether the row group of the row is compressed. -/
  compressed : UInt64 → Bool

namespace StoredTable

def kindOf (type : ColumnType) : Kind := (ColumnData.newMem type).kind

def arrowType (column : String × ColumnType) : ArrowType := arrowOf column.2 (kindOf column.2)

def names (table : StoredTable) : List String := table.columns.map (fun column => column.1)

def stored (table : StoredTable) : List (UInt64 × List Scalar) := table.base ++ table.appended

def shownRow (columns : List (String × ColumnType)) (delta : DeltaStore) (row : UInt64 × List Scalar) :
    UInt64 × List Scalar :=
  (row.1,List.zipWith (fun column cell => mergedCell delta (arrowType column) column.1 row.1 cell) columns row.2)

def read (table : StoredTable) : List (UInt64 × List Scalar) :=
  (table.stored.filter (fun row => !table.delta.isDeleted row.1)).map (shownRow table.columns table.delta)

def toResult (row : UInt64 × List Scalar) : List Scalar := .int64 row.1.toInt64 :: row.2

def select (table : StoredTable) (p : List Scalar → Bool) : List (List Scalar) := (table.read.map toResult).filter p

end StoredTable

def arrowValueAtCol : Scalar → Value
  | .null => .null
  | .bool value => .bool value
  | .int64 value => .int64 value
  | .uint64 value => .uint64 value
  | .float64 bits => .float64 bits
  | .utf8 value => .string value
  | .bytes value => .binary value

def buildCell : ArrowType → Value → Scalar
  | .int64,.int64 value => .int64 value
  | .int64,.int32 value => .int64 value.toInt64
  | .int64,.uint64 value => .int64 value.toInt64
  | .uint64,.uint64 value => .uint64 value
  | .uint64,.int64 value => .uint64 value.toUInt64
  | .float64,.float64 bits => .float64 bits
  | .float64,.float32 bits => .float64 (Float32.ofBits bits).toFloat.toBits
  | .utf8,.string value => .utf8 value
  | .boolean,.bool value => .bool value
  | _,_ => .null

/-- The types that the overlay can build; the batch fails on any other. -/
def supported : ArrowType → Bool
  | .int64 | .uint64 | .float64 | .utf8 | .boolean => true
  | .dictionary | .other => false

def setCells (names : List String) (newData : Row) (row : List Value) : List Value :=
  List.zipWith (fun name value => (newData.lookup name).getD value) names row

section Overlay
variable (table : StoredTable) (store : VersionStore) (snapshotTs : Nat) (writes : List TxnWrite)

def insertedRows : List (Nat × Row) :=
  writes.filterMap (fun
    | .insert name rowId data => if name = table.name then some (rowId,data) else none
    | _ => none)

def deletedIds : List Nat :=
  writes.filterMap (fun
    | .delete name rowId _ => if name = table.name then some rowId else none
    | _ => none)

def updatedRows : List (Nat × Row) :=
  writes.filterMap (fun
    | .update name rowId _ newData => if name = table.name then some (rowId,newData) else none
    | _ => none)

def colNames : List String := "_id" :: table.names

def colTypes : List ArrowType := .int64 :: table.columns.map StoredTable.arrowType

def hasVersions : Bool := !store.chains.entries.isEmpty

def existsInVs (rowId : Nat) : Bool :=
  store.exists rowId (2^64 - 3) || (store.readLatest rowId).isSome || (store.read rowId (2^64 - 3)).isSome

/-- The row before the transaction's own updates: from the version store where the row has a
history, which may hide it, else from the storage. -/
def versionedRow (row : UInt64 × List Scalar) : Option (List Value) :=
  if hasVersions store ∧ existsInVs store row.1.toNat then
    (store.read row.1.toNat snapshotTs).map (fun data =>
      .uint64 row.1 :: List.zipWith (fun name cell => (data.lookup name).getD (arrowValueAtCol cell)) table.names row.2)
  else some ((StoredTable.toResult row).map arrowValueAtCol)

def overlayRow (row : UInt64 × List Scalar) : Option (List Value) :=
  if (deletedIds table writes).contains row.1.toNat then none
  else (versionedRow table store snapshotTs row).map (fun values =>
    (updatedRows table writes).foldl (fun values update =>
      if update.1 = row.1.toNat then setCells (colNames table) update.2 values else values) values)

def insertedRow (inserted : Nat × Row) : List Value :=
  setCells (colNames table) inserted.2 (.int64 (UInt64.ofNat inserted.1).toInt64 :: table.names.map (fun _ => .null))

/-- `SELECT * FROM t WHERE p` inside the transaction; `none` when the result cannot be built. -/
def selectInTxn (p : List Scalar → Bool) : Option (List (List Scalar)) :=
  let result := table.read.filter (fun row => p (StoredTable.toResult row))
  let hasOwnWrites := !(insertedRows table writes).isEmpty || !(deletedIds table writes).isEmpty ||
    !(updatedRows table writes).isEmpty
  if !hasVersions store && !hasOwnWrites then some (result.map StoredTable.toResult)
  else if (colTypes table).all supported then
    let rows := result.filterMap (overlayRow table store snapshotTs writes) ++
      (insertedRows table writes).map (insertedRow table)
    some (rows.map (List.zipWith buildCell (colTypes table)))
  else none

end Overlay

/-- A value as the `.delta` file keeps it: defaults stand for NULL and for values of another type,
and binary columns are not kept. -/
def storeInDelta (kind : Kind) (value : Value) : Scalar :=
  match kind with
  | .int64 =>
    match value with
    | .int64 value | .timestamp value => .int64 value
    | .date value => .int64 value.toInt64
    | _ => .int64 0
  | .float64 =>
    match value with
    | .float64 bits => .float64 bits
    | .int64 value => .float64 value.toFloat.toBits
    | .timestamp value => .float64 value.toFloat.toBits
    | .date value => .float64 value.toInt64.toFloat.toBits
    | _ => .float64 0
  | .string | .stringDict =>
    match value with
    | .string value => .utf8 value
    | _ => .utf8 ""
  | .bool =>
    match value with
    | .bool value => .bool value
    | _ => .bool false
  | .binary | .vectors => .null

namespace StoredTable

/-- The rows that `insert_rows_to_delta` takes have exactly the table's columns. -/
def complete (table : StoredTable) (data : Row) : Bool :=
  data.entries.length = table.columns.length ∧ ∀ name ∈ data.keys, name ∈ table.names ∧ name ≠ "_id"

def applyInsert (table : StoredTable) (data : Row) : Option StoredTable :=
  if table.complete data then
    some {table with
      appended := table.appended ++ [(UInt64.ofNat table.nextId,table.columns.map (fun column =>
        storeInDelta (kindOf column.2) ((data.lookup column.1).getD .null)))]
      nextId := table.nextId + 1}
  else none

def deleteRow (delta : DeltaStore) (rowId : UInt64) : DeltaStore := ⟨rowId :: delta.deleted,delta.updates.erase rowId⟩

def applyDelete (table : StoredTable) (rowId : UInt64) : StoredTable :=
  {table with
    base := table.base.filter (fun row => row.1 ≠ rowId)
    delta := if table.appended.isEmpty then table.delta else deleteRow table.delta rowId}

def numericBits : Value → Option UInt64
  | .float64 bits => some bits
  | .int64 value => some value.toUInt64
  | .int32 value => some value.toInt64.toUInt64
  | _ => none

/-- The columns that an in-place write reaches, and what its eight bytes read as. -/
def ofBits (type : ColumnType) (bits : UInt64) : Option Scalar :=
  match type with
  | .int8 | .int16 | .int32 | .int64 | .uint8 | .uint16 | .uint32 | .uint64 | .timestamp
  | .date => some (.int64 bits.toInt64)
  | .float32 | .float64 => some (.float64 bits)
  | _ => none

def inPlaceWrite (table : StoredTable) (rowId : UInt64) (newData : Row) : Option (String × Scalar) :=
  match newData.entries with
  | [⟨name,value⟩] =>
    (table.columns.find? (fun column => column.1 == name)).bind (fun column =>
      (numericBits value).bind (fun bits =>
        if table.inPlace rowId name then (ofBits column.2 bits).map (fun cell => (name,cell)) else none))
  | _ => none

def writeCell (columns : List (String × ColumnType)) (rowId : UInt64) (name : String) (cell : Scalar)
    (row : UInt64 × List Scalar) : UInt64 × List Scalar :=
  if row.1 = rowId then
    (row.1,List.zipWith (fun column old => if column.1 = name then cell else old) columns row.2)
  else row

def setCell (table : StoredTable) (rowId : UInt64) (name : String) (cell : Scalar) : StoredTable :=
  {table with base := table.base.map (writeCell table.columns rowId name cell)}

def updateCells (delta : DeltaStore) (rowId : UInt64) (newData : Row) : DeltaStore :=
  {delta with updates := delta.updates.insert rowId (newData ∪ (delta.updates.lookup rowId).getD ∅)}

def applyUpdate (table : StoredTable) (rowId : UInt64) (newData : Row) : Option StoredTable :=
  if newData.entries.isEmpty ∨ "_id" ∈ newData.keys then none
  else if (table.base.map (fun row => row.1)).contains rowId then
    if table.compressed rowId then none
    else
      match table.inPlaceWrite rowId newData with
      | some (name,cell) => some (table.setCell rowId name cell)
      | none => some {table with delta := updateCells table.delta rowId newData}
  -- No row group holds the row: the update counts as applied to no row.
  else some table

/-- One buffered write; `none` when the general INSERT or UPDATE takes over. -/
def applyTxnWrite (table : StoredTable) : TxnWrite → Option StoredTable
  | .insert _ _ data => table.applyInsert data
  | .delete _ rowId _ => some (table.applyDelete (UInt64.ofNat rowId))
  | .update _ rowId _ newData => table.applyUpdate (UInt64.ofNat rowId) newData

def applyTxnWrites (table : StoredTable) : List TxnWrite → Option StoredTable
  | [] => some table
  | write :: rest => (table.applyTxnWrite write).bind (fun next => next.applyTxnWrites rest)

end StoredTable

inductive Statement
  | insert (rows : List (List Value))
  | update (condition : List Scalar → Bool) (assignments : Row)
  | delete (condition : List Scalar → Bool)
  | savepoint (name : String)
  | rollbackTo (name : String)

/-- The values of a row under the columns' names; surplus values are dropped. -/
def rowData (names : List String) (values : List Value) : Row :=
  (names.zip values).foldl (fun data cell => data.insert cell.1 cell.2) ∅

def rowValueMap (names : List String) (cells : List Scalar) : Row := rowData names (cells.map arrowValueAtCol)

/-- The context calls of a data statement. Rows are matched against the committed table; the
transaction's own writes are not consulted. -/
def statementOps (table : StoredTable) (ctx : TxnContext) : Statement → List ContextOp
  | .insert rows =>
    let baseRoot := (ctx.insertBaseId table.name).getD (max table.nextId 1)
    let baseId := baseRoot + ctx.pendingInsertCount table.name
    (if (ctx.insertBaseId table.name).isNone then [ContextOp.rememberInsertBaseId table.name baseRoot] else []) ++
      rows.mapIdx (fun index values => .bufferInsert table.name (baseId + index) (rowData table.names values))
  | .update condition assignments =>
    (table.read.filter (fun row => condition (StoredTable.toResult row))).map (fun row =>
      .bufferUpdate table.name row.1.toNat (rowValueMap table.names row.2) assignments)
  | .delete condition =>
    (table.read.filter (fun row => condition (StoredTable.toResult row))).map (fun row =>
      .bufferDelete table.name row.1.toNat (rowValueMap table.names row.2))
  | .savepoint name => [.savepoint name]
  | .rollbackTo name => [.rollbackToSavepoint name]

def isDml : Statement → Bool
  | .insert _ | .update _ _ | .delete _ => true
  | _ => false

def implicitSavepoint : String := "__stmt_savepoint__"

/-- A data statement that fails is rolled back to where it began. -/
def executeInTxn (table : StoredTable) (ctx : TxnContext) (statement : Statement) : TxnContext :=
  if isDml statement then
    match applyAll (ctx.savepoint implicitSavepoint) (statementOps table ctx statement) with
    | (.error _,failed) => ((failed.rollbackToSavepoint implicitSavepoint).toOption).getD failed
    | (.ok _,done) => ((done.releaseSavepoint implicitSavepoint).toOption).getD done
  else (applyAll ctx (statementOps table ctx statement)).2

def executeAll (table : StoredTable) (ctx : TxnContext) (statements : List Statement) : TxnContext :=
  statements.foldl (executeInTxn table) ctx

end ApexBase.Query
