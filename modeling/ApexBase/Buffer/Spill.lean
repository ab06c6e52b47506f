import ApexBase.Buffer.Columns
import ApexBase.Storage.DeltaMark
import Mathlib.Data.Vector.Basic

/-! Moving the buffered rows of a table into its `.delta` file
(`storage/on_demand/storage_core.rs`). `none` is a panic. -/
namespace ApexBase.Buffer
open Data Library.Wire Library.Assoc Column
open Storage.Footer (V4Footer)
open Storage.DeltaFile (TypedBatch DeltaTable)

/-- What a spill looks up and leaves as it is; an append may fail after some bytes. -/
structure Backend where
  inMemory : Bool
  cachedFooterOffset : UInt64
  v4Footer : Option V4Footer
  onDiskHeaderRowCount : Except IoError (Option UInt64)
  v4BaseLoaded : Bool
  persistedRowCount : UInt64
  appendFails : Option (IoError × Nat)

structure WriteBuffer where
  schema : List (String × ColumnType)
  columns : List ColumnData
  nulls : List Bytes
  ids : List UInt64

/-- The buffer with the table's files of appended rows. -/
structure PendingBuffer extends WriteBuffer where
  deleted : Bytes
  pendingRows : Nat
  delta : DeltaTable

def truncateBitmap (bitmap : Bytes) (rowCount : Nat) : Bytes :=
  let kept := bitmap.take ((rowCount + 7) / 8)
  if rowCount = 0 then []
  else if rowCount % 8 ≠ 0 then kept.modify (kept.length - 1) (· &&& (1 <<< UInt8.ofNat (rowCount % 8)) - 1)
  else kept

def discardPendingV4RowsFrom (pendingStart : Nat) (buffer : PendingBuffer) : Option PendingBuffer :=
  if pendingStart = 0 then some {buffer with ids := [],columns := [],nulls := [],deleted := [],pendingRows := 0}
  else (buffer.columns.mapM (ColumnData.sliceRange 0 pendingStart)).map fun columns =>
    {buffer with
      ids := buffer.ids.take pendingStart
      columns := columns
      nulls := buffer.nulls.map (truncateBitmap · pendingStart)
      deleted := truncateBitmap buffer.deleted pendingStart
      pendingRows := 0}

inductive Section
  | ints | floats | texts | bools
  deriving DecidableEq

def sectionOf : ColumnType → Option Section
  | .int64 | .int8 | .int16 | .int32 | .uint8 | .uint16 | .uint32 | .uint64 | .timestamp | .date | .timestampTz | .time
  | .interval => some .ints
  | .float64 | .float32 => some .floats
  | .string | .stringDict | .json | .null => some .texts
  | .bool => some .bools
  | _ => none

/-- The values of one column, one for each row. -/
inductive Extracted (rows : Nat)
  | ints (values : List.Vector Int64 rows)
  | floats (values : List.Vector UInt64 rows)
  | texts (values : List.Vector String rows)
  | bools (values : List.Vector Bool rows)

structure SpillColumns (rows : Nat) where
  intColumns : Map String (List.Vector Int64 rows)
  floatColumns : Map String (List.Vector UInt64 rows)
  stringColumns : Map String (List.Vector String rows)
  boolColumns : Map String (List.Vector Bool rows)

namespace SpillColumns

variable {rows : Nat}

def empty : SpillColumns rows := ⟨∅,∅,∅,∅⟩

def put (columns : SpillColumns rows) (name : String) : Extracted rows → SpillColumns rows
  | .ints values => {columns with intColumns := columns.intColumns.insert name values}
  | .floats values => {columns with floatColumns := columns.floatColumns.insert name values}
  | .texts values => {columns with stringColumns := columns.stringColumns.insert name values}
  | .bools values => {columns with boolColumns := columns.boolColumns.insert name values}

private theorem converted_sized {V : Type} (columns : Map String (List.Vector V rows)) :
    ∀ e ∈ (convert List.Vector.toList columns).entries, e.2.length = rows := by
  intro e member
  obtain ⟨column,_,rfl⟩ := List.mem_map.mp member
  exact column.2.toList_length

def batch (columns : SpillColumns rows) (ids : List UInt64) (sized : ids.length = rows) : TypedBatch where
  ids := ids
  intColumns := convert List.Vector.toList columns.intColumns
  floatColumns := convert List.Vector.toList columns.floatColumns
  stringColumns := convert List.Vector.toList columns.stringColumns
  boolColumns := convert List.Vector.toList columns.boolColumns
  intsSized := sized ▸ converted_sized columns.intColumns
  floatsSized := sized ▸ converted_sized columns.floatColumns
  stringsSized := sized ▸ converted_sized columns.stringColumns
  boolsSized := sized ▸ converted_sized columns.boolColumns

end SpillColumns

def gather {V : Type} (get : Nat → Option V) : (rows : List Nat) → Option (List.Vector V rows.length)
  | [] => some .nil
  | row :: rest => do return (← get row) ::ᵥ (← gather get rest)

/-- `from_utf8(..).unwrap_or("")` between two offsets that are there. -/
def textAt (offsets : List UInt64) (data : Bytes) (row : Nat) : Option String := do
  let start ← offsets[row]?
  let stop ← offsets[row + 1]?
  if start.toNat > stop.toNat ∨ stop.toNat > data.length then none
  else some ((fromUtf8 ((data.drop start.toNat).take (stop.toNat - start.toNat))).getD "")

def valuesAt (kind : Section) (column : ColumnData) (start : Nat) (rows : List Nat) : Option (Extracted rows.length) :=
  match kind,column with
  | .ints,.int64 values => (gather (fun row => values[start + row]?) rows).map .ints
  | .floats,.float64 values => (gather (fun row => values[start + row]?) rows).map .floats
  | .texts,.string offsets data => (gather (fun row => textAt offsets data (start + row)) rows).map .texts
  | .bools,.bool data len =>
    (gather (fun row => if start + row < len then some (getBit data (start + row)) else none) rows).map .bools
  | _,_ => none

structure Slot where
  name : String
  type : ColumnType
  column : ColumnData
  nulls : Bytes

def slots : List (String × ColumnType) → List ColumnData → List Bytes → List Slot
  | (name,type) :: schema,column :: columns,nulls => ⟨name,type,column,nulls.headD []⟩ ::
    slots schema columns nulls.tail
  | _,_,_ => []

inductive Stop
  | refuse
  | panic
  deriving DecidableEq

section Extraction
variable (pendingStart : Nat)

/-- A dictionary has no value at index 0. -/
def dictionaryAt (indices : List UInt32) (dictOffsets : List UInt64) (dictData : Bytes) (row : Nat) :
    Option String := do
  let dictIdx ← indices[row]?
  if dictIdx = 0 then none else textAt dictOffsets dictData (dictIdx.toNat - 1)

/-- A row on its own is read where it is, and only from a column of the type's own shape. -/
def singleColumn (type : ColumnType) (column : ColumnData) (live : List Nat) : Option (Extracted live.length) :=
  match type,column with
  | .stringDict,.stringDict indices dictOffsets dictData =>
    (gather (fun row => dictionaryAt indices dictOffsets dictData (pendingStart + row)) live).map .texts
  | .stringDict,_ => none
  | type,column => (sectionOf type).bind fun kind => valuesAt kind column pendingStart live

/-- Several rows are read from what is cut out of the column; a dictionary is decoded. -/
def liveColumn (type : ColumnType) (sliced : ColumnData) (live : List Nat) : Option (Extracted live.length) :=
  (sectionOf type).bind fun kind => valuesAt kind (if kind = .texts then sliced.decodeStringDict else sliced) 0 live

def orRefuse {V : Type} : Option V → Except Stop V
  | some value => .ok value
  | none => .error .refuse

def hasNull (live : List Nat) (slot : Slot) : Bool := live.any fun row => getBit slot.nulls (pendingStart + row)

def singleValues (live : List Nat) (slot : Slot) : Except Stop (Extracted live.length) :=
  if hasNull pendingStart live slot then .error .refuse
  else orRefuse (singleColumn pendingStart slot.type slot.column live)

def liveValues (idsLen : Nat) (live : List Nat) (slot : Slot) : Except Stop (Extracted live.length) :=
  if hasNull pendingStart live slot then .error .refuse
  else match slot.column.sliceRange pendingStart idsLen with
    | none => .error .panic
    | some sliced => orRefuse (liveColumn slot.type sliced live)

end Extraction

def extractAll {rows : Nat} (values : Slot → Except Stop (Extracted rows)) :
    List Slot → SpillColumns rows → Except Stop (SpillColumns rows)
  | [],columns => .ok columns
  | slot :: rest,columns => do extractAll values rest (columns.put slot.name (← values slot))

def eligible (backend : Backend) (pendingStart : Nat) (buffer : PendingBuffer) : Except IoError Bool :=
  if backend.inMemory then .ok false
  else if backend.cachedFooterOffset = 0 then .ok false
  else match backend.v4Footer with
    | none => .ok false
    | some footer => do
      let onDiskRows := (footer.rowGroups.map fun group => group.rowCount.toNat).sum
      let fileRows := ((← backend.onDiskHeaderRowCount).map UInt64.toNat).getD onDiskRows
      if fileRows = 0 then return false
      else if pendingStart ≥ buffer.ids.length then return false
      else if backend.v4BaseLoaded && pendingStart < backend.persistedRowCount.toNat then return false
      else if backend.v4BaseLoaded && (buffer.deleted.take ((min pendingStart onDiskRows + 7) / 8)).any (· != 0) then
        return false
      else if buffer.schema ≠ footer.schema.columns then return false
      else if buffer.columns.length < buffer.schema.length then return false
      else return true

def liveRows (pendingStart : Nat) (buffer : PendingBuffer) : List Nat :=
  (List.range (buffer.ids.length - pendingStart)).filter fun row => !getBit buffer.deleted (pendingStart + row)

/-- One pending row that is not deleted takes a path of its own. -/
def single (pendingStart : Nat) (buffer : PendingBuffer) : Bool :=
  decide (buffer.ids.length - pendingStart = 1) && !getBit buffer.deleted pendingStart

def liveIds (pendingStart : Nat) (buffer : PendingBuffer) : List UInt64 :=
  (liveRows pendingStart buffer).map fun row => buffer.ids.getD (pendingStart + row) 0

/-- An append that ends with an error has not written the mark. -/
def appendOrFail (fails : Option (IoError × Nat)) (delta : DeltaTable) (batch : TypedBatch) :
    Option IoError × DeltaTable :=
  if batch.ids.isEmpty then (none,delta)
  else match fails with
    | none => (none,delta.appendTypedToDeltaWithIds batch)
    | some (error,0) => (some error,delta)
    | some (error,reached) => (some error,delta.crashed batch reached)

def spillPendingV4RowsToDeltaFrom (backend : Backend) (pendingStart : Nat) (buffer : PendingBuffer) :
    Option (Except IoError Bool × PendingBuffer) :=
  match eligible backend pendingStart buffer with
  | .error error => some (.error error,buffer)
  | .ok false => some (.ok false,buffer)
  | .ok true =>
    let live := liveRows pendingStart buffer
    let values := if single pendingStart buffer then singleValues pendingStart live
      else liveValues pendingStart buffer.ids.length live
    match extractAll values (slots buffer.schema buffer.columns buffer.nulls) .empty with
    | .error .panic => none
    | .error .refuse => some (.ok false,buffer)
    | .ok columns =>
      match appendOrFail backend.appendFails buffer.delta (columns.batch (liveIds pendingStart buffer)
          (List.length_map _)) with
      | (some error,delta) => some (.error error,{buffer with delta := delta})
      | (none,delta) => (discardPendingV4RowsFrom pendingStart {buffer with delta := delta}).map (.ok true,·)

end ApexBase.Buffer
