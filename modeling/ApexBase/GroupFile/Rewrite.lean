import ApexBase.Buffer.Columns
import ApexBase.GroupFile.Format

/-! The rewrites of a table file (`storage/on_demand/storage_core.rs`): the rows that stay are
pushed one by one into output columns, which are written as row groups of a new file, and a schema
is made for its footer. -/
namespace ApexBase.Column
open Data Library.Wire

def f16ToF32 (bits : UInt16) : UInt32 :=
  let sign := (bits &&& 0x8000).toUInt32 <<< 16
  let exp := ((bits >>> 10) &&& 0x1F).toUInt32
  let mant := (bits &&& 0x3FF).toUInt32
  if exp = 0 then
    if mant = 0 then sign
    else
      -- As many shifts as bring the leading bit to its place.
      let shift := UInt32.ofNat (10 - mant.toNat.log2)
      sign ||| (((127 : UInt32) - 14 - shift) <<< 23) ||| (((mant <<< shift) &&& 0x3FF) <<< 13)
  else if exp = 31 then sign ||| ((0xFF : UInt32) <<< 23) ||| (mant <<< 13)
  else sign ||| ((exp + 127 - 15) <<< 23) ||| (mant <<< 13)

def halves : Bytes → List UInt16
  | a :: b :: rest => UInt16.ofNat (ofLe [a,b]) :: halves rest
  | _ => []

abbrev VectorDecoder := VectorCodec → Bytes → Nat → Except IoError (List UInt32)

namespace ColumnData

def columnType : ColumnData → ColumnType
  | .bool _ _ => .bool
  | .int64 _ => .int64
  | .float64 _ => .float64
  | .string _ _ => .string
  | .binary _ _ => .binary
  | .stringDict _ _ _ => .stringDict
  | .fixedList _ _ => .fixedList
  | .float16List _ _ => .float16List
  | .quantizedList _ _ codec =>
    match codec with
    | .bfloat16 => .bfloat16List
    | .int8 => .int8Vector
    | .uint8 => .uint8Vector
    | .bit1 => .bit1Vector
    | .turboQuant2 => .turboQuant2Vector
    | .turboQuant3 => .turboQuant3Vector
    | .turboQuant4 => .turboQuant4Vector
    | .float32 => .fixedList
    | .float16 => .float16List

/-- Indexing past the bitmap panics. -/
def bitAt (bitmap : Bytes) (row : Nat) : Option Bool := (bitmap[row / 8]?).map fun byte => byte.toNat.testBit (row % 8)

def srcBoolAt : ColumnData → Nat → Option Bool
  | .bool data _,row => bitAt data row
  | _,_ => some false

/-- A text that is out of range is copied as an empty one. -/
def copyText (offsets : List UInt64) (data : Bytes) (sourceOffsets : List UInt64) (source : Bytes) (row : Nat) :
    List UInt64 × Bytes :=
  if row + 1 ≥ sourceOffsets.length then (offsets ++ [offsets.getLast?.getD 0],data)
  else
    let start := (sourceOffsets[row]?.getD 0).toNat
    let stop := (sourceOffsets[row + 1]?.getD 0).toNat
    let copied := if start ≤ stop ∧ stop ≤ source.length then data ++ (source.drop start).take (stop - start) else data
    (offsets ++ [UInt64.ofNat copied.length],copied)

section Pushes

variable (encoder : VectorEncoder)

/-- One vector of `width` bytes, or a default where the source has none. -/
def copyVector (build : Bytes → ColumnData) (width : Nat) (data source : Bytes) (row : Nat) : Option ColumnData :=
  if row * width + width ≤ source.length then some (build (data ++ (source.drop (row * width)).take width))
  else (build data).pushDefaultValue encoder

def pushSourceValue (dst src : ColumnData) (row : Nat) (isNull : Bool) : Option ColumnData :=
  if isNull then dst.pushDefaultValue encoder
  else
    match dst,src with
    | .int64 values,.int64 source => (source[row]?).map fun value => .int64 (values ++ [value])
    | .float64 values,.float64 source => (source[row]?).map fun value => .float64 (values ++ [value])
    | .string offsets data,.string sourceOffsets source =>
      let copied := copyText offsets data sourceOffsets source row
      some (.string copied.1 copied.2)
    | .binary offsets data,.binary sourceOffsets source =>
      let copied := copyText offsets data sourceOffsets source row
      some (.binary copied.1 copied.2)
    | .bool data len,source => (source.srcBoolAt row).bind fun value => (ColumnData.bool data len).pushBool value
    | .fixedList data dim,.fixedList source sourceDim =>
      let dim := if dim = 0 then sourceDim else dim
      if dim = 0 then some (.fixedList data dim) else copyVector encoder (.fixedList · dim) (dim.toNat * 4) data
        source row
    | .float16List data dim,.float16List source sourceDim =>
      let dim := if dim = 0 then sourceDim else dim
      if dim = 0 then some (.float16List data dim) else copyVector encoder (.float16List · dim) (dim.toNat * 2) data
        source row
    | .quantizedList data dim codec,.quantizedList source sourceDim sourceCodec =>
      if codec = sourceCodec then
        let dim := if dim = 0 then sourceDim else dim
        if dim = 0 then some (.quantizedList data dim codec)
        else match codec.rowWidth dim.toNat with
          | .ok stride => copyVector encoder (.quantizedList · dim codec) stride data source row
          | .error _ => none
      else (ColumnData.quantizedList data dim codec).pushDefaultValue encoder
    | dst,_ => dst.pushDefaultValue encoder

/-- An update whose value is not of the type of the column is ignored. -/
def tryPushUpdatedValue : ColumnData → Value → Option (Option ColumnData)
  | .int64 values,.int64 value => some (some (.int64 (values ++ [value])))
  | .float64 values,.float64 bits => some (some (.float64 (values ++ [bits])))
  | .string offsets data,.string value => some (some ((ColumnData.string offsets data).pushString (utf8 value)))
  | .bool data len,.bool value => ((ColumnData.bool data len).pushBool value).map some
  | _,_ => some none

end Pushes

end ColumnData

end ApexBase.Column

namespace ApexBase.GroupFile
open Data Column Library.Wire ColumnData
open Library.Assoc (Map)
open Storage.Schema (Failure OnDemandSchema VectorDerivation)
open Storage.Footer (V4Footer RowGroupMeta ChunkedColumn)

inductive RewriteFault
  | read (failure : Failure)
  | write (fault : WriteFault)
  | io (error : IoError)
  | panicked

def orPanicked {α : Type} : Option α → Except RewriteFault α
  | some value => .ok value
  | none => .error .panicked

def sourceDim : ColumnData → Nat
  | .fixedList _ dim | .float16List _ dim | .quantizedList _ dim _ => dim.toNat
  | _ => 0

def rowBytes (data : Bytes) (row width : Nat) (truncated : String) : Except RewriteFault Bytes :=
  match between data (row * width) (row * width + width) with
  | some bytes => .ok bytes
  | none => .error (.io (errData truncated))

def sourceValues (decoder : VectorDecoder) (dim row : Nat) : ColumnData → Except RewriteFault (List UInt32)
  | .fixedList data _ => do return chunksExact (← rowBytes data row (dim * 4) "derived Float32 source row is truncated")
  | .float16List data _ =>
    do return (halves (← rowBytes data row (dim * 2) "derived Float16 source row is truncated")).map f16ToF32
  | .quantizedList data _ codec => do
    let stride ← (codec.rowWidth dim).mapError .io
    let bytes ← rowBytes data row stride "derived BFloat16 source row is truncated"
    (decoder codec bytes dim).mapError .io
  | _ => .error .panicked

def sizedTarget (dim : Nat) : ColumnData → Except RewriteFault ColumnData
  | .float16List data target => .ok (.float16List data (if target = 0 then UInt32.ofNat dim else target))
  | .quantizedList data target codec => .ok (.quantizedList data (if target = 0 then UInt32.ofNat dim
    else target) codec)
  | _ => .error (.io (errData "derived vector target has an invalid storage type"))

def pushVectorValues (encoder : VectorEncoder) (values : List UInt32) : ColumnData → Except RewriteFault ColumnData
  | .float16List data dim => .ok (.float16List (data ++ values.flatMap fun bits => leBytes 2 (f32ToF16 bits).toNat) dim)
  | .quantizedList data dim codec =>
    match encoder.encodeVector codec values with
    | .ok row => .ok (.quantizedList (data ++ row) dim codec)
    | .error error => .error (.io error)
  | _ => .error .panicked

def pushDerivedVectorValue (encoder : VectorEncoder) (decoder : VectorDecoder) (dst src : ColumnData) (row : Nat)
    (isNull : Bool) :
    Except RewriteFault ColumnData :=
  if sourceDim src = 0 then .error (.io (errData "derived vector source has zero dimension"))
  else do
    let sized ← sizedTarget (sourceDim src) dst
    if isNull then orPanicked (sized.pushDefaultValue encoder)
    else do
      let values ← sourceValues decoder (sourceDim src) row src
      pushVectorValues encoder values sized

structure RewriteState where
  outIds : List UInt64
  /-- Each output column with its null bitmap. -/
  outColumns : List (ColumnData × Bytes)
  groups : List WrittenGroup
  actualColTypes : List ColumnType
  firstRg : Bool
  position : Nat

def headerSize : Nat := 256

/-- Strings are kept plain, a dictionary is decided on when they are written. -/
def startRewrite (schemaCols : List (String × ColumnType)) : RewriteState :=
  ⟨[],schemaCols.map fun column => (.new (memType column.2),[]),[],[],true,headerSize⟩

structure RewriteContext where
  codecs : Codecs
  encoder : VectorEncoder
  decoder : VectorDecoder
  options : GroupOptions
  rowGroupSize : Nat

namespace RewriteContext

variable (context : RewriteContext) (schemaCols : List (String × ColumnType))

def rgSizeTarget : Nat := max context.rowGroupSize 1024

def writeGroup (state : RewriteState) : Except RewriteFault WrittenGroup :=
  (writeStreamedV4RowGroup context.codecs context.options (UInt64.ofNat state.position) schemaCols state.outIds
    (state.outColumns.map Prod.fst) (state.outColumns.map Prod.snd) 0 state.outIds.length state.firstRg
      state.actualColTypes).mapError .write

def flushStreamedOutRg (state : RewriteState) : Except RewriteFault RewriteState :=
  if state.outIds.isEmpty then .ok state
  else do
    let written ← context.writeGroup schemaCols state
    return {
      outIds := []
      outColumns := state.outColumns.map fun column => (.new column.1.columnType,[])
      groups := state.groups ++ [written]
      actualColTypes := written.actualColTypes
      firstRg := false
      position := state.position + written.bytes.length }

def pushCells (cell : Nat → ColumnData × Bytes → Except RewriteFault (ColumnData × Bytes)) :
    Nat → List (ColumnData × Bytes) → Except RewriteFault (List (ColumnData × Bytes))
  | _,[] => .ok []
  | colIdx,column :: columns => do
    let first ← cell colIdx column
    let rest ← pushCells cell (colIdx + 1) columns
    return first :: rest

def pushRow (state : RewriteState) (id : UInt64)
    (cell : Nat → ColumnData × Bytes → Except RewriteFault (ColumnData × Bytes)) :
    Except RewriteFault RewriteState := do
  let columns ← pushCells cell 0 state.outColumns
  let grown := {state with outIds := state.outIds ++ [id],outColumns := columns}
  if context.rgSizeTarget ≤ grown.outIds.length then context.flushStreamedOutRg schemaCols grown else return grown

def copied (isNull : Bool) (outRow : Nat) (nulls : Bytes) (column : ColumnData) : ColumnData × Bytes :=
  (column,if isNull then assignBit nulls outRow true else nulls)

/-- The pending update of a cell where there is one that its column takes, else a copy. -/
def updatedOr (update : Option Value) (outRow : Nat) (column : ColumnData × Bytes)
    (copy : Except RewriteFault (ColumnData × Bytes)) : Except RewriteFault (ColumnData × Bytes) :=
  match update with
  | none => copy
  | some value => do
    match ← orPanicked (column.1.tryPushUpdatedValue value) with
    | some pushed => return (pushed,assignBit column.2 outRow false)
    | none => copy

end RewriteContext

/-- One column after another, with its type in the first row group. -/
def rebuildSchema : List (String × ColumnType) → List ColumnType → OnDemandSchema → Except RewriteFault OnDemandSchema
  | [],_,schema => .ok schema
  | column :: columns,actual :: actualColTypes,schema => rebuildSchema columns actualColTypes
    (schema.addColumn column.1 actual).1
  | _ :: _,[],_ => .error .panicked

def modifiedSchema (schema : OnDemandSchema) (actualColTypes : List ColumnType) : Except RewriteFault OnDemandSchema :=
  if actualColTypes.isEmpty then .ok schema
  else do
    let rebuilt ← rebuildSchema schema.columns actualColTypes .new
    return {rebuilt with constraints := schema.constraints,vectorDerivations := schema.vectorDerivations}

structure RewrittenFile where
  groups : List WrittenGroup
  schema : OnDemandSchema

namespace RewriteContext

/-- Without rows, one empty row group is written. -/
def finish (context : RewriteContext) (schema : OnDemandSchema) (state : RewriteState) :
    Except RewriteFault RewrittenFile := do
  let groups ← if state.groups.isEmpty then (context.writeGroup schema.columns state).map fun written => [written]
    else .ok state.groups
  let written ← modifiedSchema schema state.actualColTypes
  return ⟨groups,written⟩

end RewriteContext

/-- What the rewrites read of a table: its file, its schema in memory, and the changes
that wait for the next rewrite. -/
structure OnDemandStorage where
  footer : V4Footer
  readAt : RowGroupMeta → Bytes
  memSchema : OnDemandSchema
  /-- The rows of the `.delta` file, where there is one. -/
  deltaData : Option (Option (List UInt64 × Map String ColumnData))
  updates : UInt64 → String → Option Value
  deleteBitmap : UInt64 → Bool
  idToIdx : Option (UInt64 → Option Nat)
  deleted : Bytes

namespace OnDemandStorage

variable (storage : OnDemandStorage)

/-- The entry of the first row group at this offset, if it has a chunked column. -/
def chunkEntry (rgMeta : RowGroupMeta) : Option (List (Option ChunkedColumn)) := do
  let index ← storage.footer.rowGroups.findIdx? fun other => other.offset == rgMeta.offset
  GroupFile.chunkEntry storage.footer.chunkTables[index]?

def parse (codecs : Codecs) (rgMeta : RowGroupMeta) : Except Failure ParsedV4RowGroup :=
  parseV4RowGroup codecs (storage.readAt rgMeta) rgMeta storage.footer.schema.columns (storage.chunkEntry rgMeta)

def tableUsesChunkLayout : Option Bool :=
  if storage.footer.chunkTables.any fun columns => columns.any Option.isSome then some true
  else if !storage.footer.chunkTables.isEmpty then some false
  else none

def layoutKept (context : RewriteContext) : RewriteContext :=
  {context with options := {context.options with layout := storage.tableUsesChunkLayout}}

def addMissing (schema : OnDemandSchema) (column : String × ColumnType) : OnDemandSchema :=
  if (schema.getIndex column.1).isNone then (schema.addColumn column.1 column.2).1 else schema

/-- The footer's schema, with the columns that are known in memory only and those that only
appended rows have. -/
def mergedSchema : OnDemandSchema :=
  let known := storage.memSchema.columns.foldl addMissing storage.footer.schema
  match storage.deltaData.join with
  | some (_,columns) => (columns.entries.map fun column => (column.1,column.2.columnType)).foldl addMissing known
  | none => known

def memDeleted (id : UInt64) : Option Bool :=
  match storage.idToIdx.bind fun map => map id with
  | some idx => bitAt storage.deleted idx
  | none => some false

/-- Whether a row of a row group is left out; `none` is a panic. -/
def baseDropped (filterMemDeletes : Bool) (parsed : ParsedV4RowGroup) (row : Nat) : Option Bool := do
  let id ← parsed.ids[row]?
  let marked ← bitAt parsed.deleted row
  if marked || storage.deleteBitmap id then return true
  else if filterMemDeletes then storage.memDeleted id
  else return false

def sourceAt (parsed : ParsedV4RowGroup) (colIdx row : Nat) : Option (Bool × ColumnData) := do
  let nulls ← parsed.nulls[colIdx]?
  let isNull ← bitAt nulls row
  let column ← parsed.columns[colIdx]?
  return (isNull,column)

section Stream

variable (context : RewriteContext)

def baseCell (schemaCols : List (String × ColumnType)) (parsed : ParsedV4RowGroup) (id : UInt64)
    (row outRow colIdx : Nat)
    (column : ColumnData × Bytes) : Except RewriteFault (ColumnData × Bytes) :=
  if colIdx < storage.footer.schema.columns.length then do
    let (isNull,source) ← orPanicked (sourceAt parsed colIdx row)
    let (name,_) ← orPanicked schemaCols[colIdx]?
    RewriteContext.updatedOr (storage.updates id name) outRow column (do
      let pushed ← orPanicked (column.1.pushSourceValue context.encoder source row isNull)
      return RewriteContext.copied isNull outRow column.2 pushed)
  else do
    -- The column was added after this row was written.
    let pushed ← orPanicked (column.1.pushDefaultValue context.encoder)
    return (pushed,column.2)

def baseRow (filterMemDeletes : Bool) (schemaCols : List (String × ColumnType)) (parsed : ParsedV4RowGroup)
    (state : RewriteState)
    (row : Nat) : Except RewriteFault RewriteState := do
  let dropped ← orPanicked (storage.baseDropped filterMemDeletes parsed row)
  if dropped then return state
  else do
    let id ← orPanicked parsed.ids[row]?
    context.pushRow schemaCols state id (storage.baseCell context schemaCols parsed id row state.outIds.length)

def baseGroup (filterMemDeletes : Bool) (schemaCols : List (String × ColumnType)) (state : RewriteState)
    (rgMeta : RowGroupMeta) :
    Except RewriteFault RewriteState :=
  if rgMeta.rowCount = 0 then .ok state
  else do
    let parsed ← (storage.parse context.codecs rgMeta).mapError .read
    (List.range parsed.ids.length).foldlM (storage.baseRow context filterMemDeletes schemaCols parsed) state

def deltaCell (schemaCols : List (String × ColumnType)) (columns : Map String ColumnData) (id : UInt64)
    (row outRow colIdx : Nat)
    (column : ColumnData × Bytes) : Except RewriteFault (ColumnData × Bytes) := do
  let (name,_) ← orPanicked schemaCols[colIdx]?
  RewriteContext.updatedOr (storage.updates id name) outRow column (do
    let pushed ← orPanicked (match columns.lookup name with
      | some source =>
        if row < source.len then column.1.pushSourceValue context.encoder source row false
        else column.1.pushDefaultValue context.encoder
      | none => column.1.pushDefaultValue context.encoder)
    return (pushed,column.2))

def deltaRow (schemaCols : List (String × ColumnType)) (columns : Map String ColumnData) (state : RewriteState)
    (entry : UInt64 × Nat) :
    Except RewriteFault RewriteState :=
  if storage.deleteBitmap entry.1 then .ok state
  else context.pushRow schemaCols state entry.1 (storage.deltaCell context schemaCols columns entry.1 entry.2
    state.outIds.length)

def deltaRows (schemaCols : List (String × ColumnType)) (state : RewriteState) : Except RewriteFault RewriteState :=
  match storage.deltaData.join with
  | some (ids,columns) => ids.zipIdx.foldlM (storage.deltaRow context schemaCols columns) state
  | none => .ok state

/-- `none` when there is nothing to merge. -/
def streamRewriteV4 (settings : RewriteContext) (requireDelta filterMemDeletes : Bool) :
    Except RewriteFault (Option RewrittenFile) :=
  if requireDelta && storage.deltaData.isNone then .ok none
  else do
    let context := storage.layoutKept settings
    let schema := storage.mergedSchema
    let base ← storage.footer.rowGroups.foldlM (storage.baseGroup context filterMemDeletes schema.columns)
      (startRewrite schema.columns)
    let flushed ← context.flushStreamedOutRg schema.columns base
    let appended ← storage.deltaRows context schema.columns flushed
    let final ← context.flushStreamedOutRg schema.columns appended
    let file ← context.finish schema final
    return some file

end Stream

section DropColumns

variable (context : RewriteContext)

inductive OutputSource
  | copiedFrom (index : Nat)
  | derivedFrom (index : Nat)

def outputSource (old new : OnDemandSchema) (name : String) : Except RewriteFault OutputSource :=
  match old.getIndex name with
  | some index => .ok (.copiedFrom index)
  | none =>
    match new.vectorDerivations.find? fun derivation => derivation.target == name with
    | none => .error (.io (errData s!"new physical column '{name}' is not a stored vector derivation"))
    | some derivation =>
      match old.getIndex derivation.source with
      | some index => .ok (.derivedFrom index)
      | none => .error (.io
        (errData s!"stored vector source '{derivation.source}' is missing from the original schema"))

def outputCell (sources : List OutputSource) (parsed : ParsedV4RowGroup) (row outRow colIdx : Nat)
    (column : ColumnData × Bytes) :
    Except RewriteFault (ColumnData × Bytes) := do
  match ← orPanicked sources[colIdx]? with
  | .copiedFrom index =>
    let (isNull,source) ← orPanicked (sourceAt parsed index row)
    let pushed ← orPanicked (column.1.pushSourceValue context.encoder source row isNull)
    return RewriteContext.copied isNull outRow column.2 pushed
  | .derivedFrom index =>
    let (isNull,source) ← orPanicked (sourceAt parsed index row)
    let pushed ← pushDerivedVectorValue context.encoder context.decoder column.1 source row isNull
    return RewriteContext.copied isNull outRow column.2 pushed

def outputRow (schemaCols : List (String × ColumnType)) (sources : List OutputSource) (parsed : ParsedV4RowGroup)
    (state : RewriteState)
    (row : Nat) : Except RewriteFault RewriteState := do
  if ← orPanicked (bitAt parsed.deleted row) then return state
  else do
    let id ← orPanicked parsed.ids[row]?
    context.pushRow schemaCols state id (outputCell context sources parsed row state.outIds.length)

def outputGroup (schemaCols : List (String × ColumnType)) (sources : List OutputSource) (state : RewriteState)
    (rgMeta : RowGroupMeta) :
    Except RewriteFault RewriteState :=
  if rgMeta.rowCount = 0 then .ok state
  else do
    let parsed ← (storage.parse context.codecs rgMeta).mapError .read
    (List.range parsed.ids.length).foldlM (outputRow context schemaCols sources parsed) state

/-- `none` when the footer has the columns and derivations already. -/
def rewriteV4DropColumns (settings : RewriteContext) : Except RewriteFault (Option RewrittenFile) :=
  let old := storage.footer.schema
  let new := storage.memSchema
  if new.columns = old.columns ∧ new.vectorDerivations = old.vectorDerivations then .ok none
  else do
    let context := storage.layoutKept settings
    let sources ← new.columns.mapM fun column => outputSource old new column.1
    let base ← storage.footer.rowGroups.foldlM (storage.outputGroup context new.columns sources)
      (startRewrite new.columns)
    let final ← context.flushStreamedOutRg new.columns base
    let file ← context.finish new final
    return some file

end DropColumns

end OnDemandStorage

end ApexBase.GroupFile
