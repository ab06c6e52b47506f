import ApexBase.GroupFile.Layout
import ApexBase.Column.Slice

/-! Writing one row group and parsing it (`storage/on_demand/storage_core.rs`). -/
namespace ApexBase.GroupFile
open Data Column Library.Wire ColumnData
open Storage.Schema (Failure failed)
open Storage.Footer (ChunkRef ChunkedColumn RowGroupMeta)

def magicRowGroup : Bytes := [0x41,0x50,0x58,0x47]

def rgIdsPlain : UInt8 := 0

def rgIdsImplicitContiguous : UInt8 := 1

def rgEncodingVersion : UInt8 := 1

def rgChunkedEncodingVersion : UInt8 := 2

def rgColumnsAreEncoded (encodingVersion : UInt8) : Bool :=
  encodingVersion == rgEncodingVersion || encodingVersion == rgChunkedEncodingVersion

def rgIdSectionLen (rowCount : Nat) (idEncoding : UInt8) : Nat :=
  if idEncoding = rgIdsImplicitContiguous then 0 else rowCount * 8

def saturatingAdd (a b : UInt64) : UInt64 := UInt64.ofNat (min (a.toNat + b.toNat) (2^64 - 1))

def idsAreContiguous (ids : List UInt64) : Bool :=
  match ids.head? with
  | none => true
  | some first => ids.zipIdx.all fun (id,offset) => id == saturatingAdd first (UInt64.ofNat offset)

def rgIdEncodingFor (ids : List UInt64) (allowImplicit : Bool) : UInt8 :=
  if allowImplicit && idsAreContiguous ids then rgIdsImplicitContiguous else rgIdsPlain

inductive WriteFault
  | column (fault : Fault)
  | panicked

structure GroupOptions where
  compression : CompressionType
  layout : Option Bool
  implicitIdsOk : Bool
  encodingOptions : ColumnEncodingOptions
  chunkIndex : Bool

/-- What is recorded as the type of a column in the first row group. -/
def actualType (schemaType : ColumnType) : ColumnData → ColumnType
  | .stringDict _ _ _ => .stringDict
  | .string _ _ => .string
  | _ => schemaType

def orPanic {α : Type} : Option α → Except WriteFault α
  | some value => .ok value
  | none => .error .panicked

/-- The first row group decides on a dictionary, the others follow it. -/
def dictEncoded (isFirstRg : Bool) (recorded : Option ColumnType) (chunkCol : ColumnData) :
    Except WriteFault (Option ColumnData) :=
  if isFirstRg then orPanic chunkCol.dictEncodeIfSmaller
  else if recorded = some .stringDict then orPanic chunkCol.toDictEncoded
  else .ok none

def writeColumn (options : ColumnEncodingOptions) (start stop : Nat) (isFirstRg : Bool) (schemaType : ColumnType)
    (recorded : Option ColumnType) (column : ColumnData) (nulls : Bytes) : Except WriteFault (ColumnType × Bytes) := do
  let chunkCol ← orPanic (column.sliceRange start stop)
  let encodedAs ← dictEncoded isFirstRg recorded chunkCol
  let processed := encodedAs.getD chunkCol
  match writeColumnEncoded processed schemaType options with
  | .ok encoded => return (actualType schemaType processed,sliceNullBitmap nulls start stop ++ encoded)
  | .error fault => .error (.column fault)

/-- Indexing past the columns or the null bitmaps panics. -/
def writeColumns (options : ColumnEncodingOptions) (start stop : Nat) (isFirstRg : Bool) :
    List (String × ColumnType) → List ColumnType → List ColumnData → List Bytes →
    Except WriteFault (List (ColumnType × Bytes))
  | [],_,_,_ => .ok []
  | (_,schemaType) :: schemaCols,recorded,column :: columns,bitmap :: nulls => do
    let first ← writeColumn options start stop isFirstRg schemaType recorded.head? column bitmap
    let rest ← writeColumns options start stop isFirstRg schemaCols recorded.tail columns nulls
    return first :: rest
  | _ :: _,_,_,_ => .error .panicked

/-- Where each column lies in the body; its start is kept as a `u32`. -/
def colRanges : Nat → List Bytes → List (Nat × Nat)
  | _,[] => []
  | start,column :: rest => (start % 2^32,start + column.length) :: colRanges (start + column.length) rest

/-- What one call appends to the file and to the lists of the footer. -/
structure WrittenGroup where
  bytes : Bytes
  rgMeta : RowGroupMeta
  actualColTypes : List ColumnType
  colOffsets : Option (List UInt32)
  chunkTable : Option (List (Option ChunkedColumn))

def groupHeader (rows colCount : Nat) (minId maxId : UInt64) (flags : Bytes) : Bytes :=
  magicRowGroup ++ (leBytes 4 rows ++ (leBytes 4 colCount ++ (leBytes 8 minId.toNat ++
    (leBytes 8 maxId.toNat ++ flags))))

def bodyHead (ids : List UInt64) (implicitIdsOk : Bool) : Bytes :=
  (if rgIdEncodingFor ids implicitIdsOk = rgIdsPlain then leWords 8 (ids.map (·.toNat)) else []) ++
    List.replicate ((ids.length + 7) / 8) 0

/-- The row group of the rows from `start` to `stop`. `rgOffset` is the position of the
writer. -/
def writeStreamedV4RowGroup (codecs : Codecs) (options : GroupOptions) (rgOffset : UInt64)
    (schemaCols : List (String × ColumnType)) (ids : List UInt64) (columns : List ColumnData) (nulls : List Bytes)
    (start stop : Nat) (isFirstRg : Bool) (actualColTypes : List ColumnType) : Except WriteFault WrittenGroup :=
  if stop < start then .error .panicked
  else if stop = start then
    let bytes := groupHeader 0 schemaCols.length 0 0 [rgCompressNone,1,rgIdsPlain,0]
    .ok ⟨bytes,⟨rgOffset,UInt64.ofNat bytes.length,0,0,0,0⟩,actualColTypes,none,none⟩
  else do
    let chunkIds ← orPanic (between ids start stop)
    let minId := chunkIds.min?.getD 0
    let maxId := chunkIds.max?.getD 0
    let idEncoding := rgIdEncodingFor chunkIds options.implicitIdsOk
    let sections ← writeColumns options.encodingOptions start stop isFirstRg schemaCols actualColTypes columns nulls
    let head := bodyHead chunkIds options.implicitIdsOk
    let flat := head ++ (sections.map Prod.snd).flatten
    let encoded := encodeRgBodyWithLayout codecs options.compression options.chunkIndex flat
      (colRanges head.length (sections.map Prod.snd)) options.layout
    let encodingVersion := if encoded.chunks.isSome then rgChunkedEncodingVersion else rgEncodingVersion
    let bytes := groupHeader (stop - start) schemaCols.length minId maxId [encoded.compressFlag,encodingVersion,
      idEncoding,0] ++ encoded.body
    return {
      bytes := bytes
      rgMeta := ⟨rgOffset,UInt64.ofNat bytes.length,UInt32.ofNat (stop - start),minId,maxId,0⟩
      actualColTypes := if isFirstRg then actualColTypes ++ sections.map Prod.fst else actualColTypes
      colOffsets := some encoded.colOffsets
      chunkTable := some ((encoded.chunks.getD []).map some) }

structure ParsedV4RowGroup where
  ids : List UInt64
  deleted : Bytes
  columns : List ColumnData
  nulls : List Bytes

/-- A footer's entry counts when it has a chunked column. -/
def chunkEntry (table : Option (List (Option ChunkedColumn))) : Option (List (Option ChunkedColumn)) :=
  table.filter fun columns => columns.any Option.isSome

def declaredLen (columns : List (Option ChunkedColumn)) : Nat :=
  ((columns.filterMap id).map fun column => column.flatLen.toNat).max?.getD 0

/-- The body as it was before it was compressed or split. -/
def readBody (codecs : Codecs) (compressFlag : UInt8) (raw : Bytes) :
    Option (List (Option ChunkedColumn)) → Except Failure Bytes
  | some columns => assembleChunkedBody codecs raw (declaredLen columns) columns
  | none => do
    let decompressed ← decompressRgBody codecs compressFlag raw
    return decompressed.getD raw

def memType (colType : ColumnType) : ColumnType := if colType = .stringDict then .string else colType

def padded (rows : Nat) (colType : ColumnType) : ColumnData × Bytes :=
  (.new (memType colType),packBits (fun _ => true) rows (List.replicate ((rows + 7) / 8) 0))

def parseColumns (encodingVersion : UInt8) (rows : Nat) :
    List ColumnType → Bytes → Except Failure (List (ColumnData × Bytes))
  | [],_ => .ok []
  | colType :: rest,body =>
    let nullBitmapLen := (rows + 7) / 8
    if body.length < nullBitmapLen then .ok ((colType :: rest).map (padded rows))
    else
      let after := body.drop nullBitmapLen
      let read := if rgColumnsAreEncoded encodingVersion then readColumnEncoded after colType
        else (fromBytesTyped colType).counted after
      match read with
      | .error error => .error (.io error)
      | .ok (column,consumed) => do
        let columns ← parseColumns encodingVersion rows rest (after.drop consumed)
        return (column.decodeStringDict,body.take nullBitmapLen) :: columns

/-- `schemaCols.length` is the number of columns that the callers ask for. An implied id
is computed as in a release build. -/
def parseV4RowGroup (codecs : Codecs) (rgBuf : Bytes) (rgMeta : RowGroupMeta) (schemaCols : List (String × ColumnType))
    (entry : Option (List (Option ChunkedColumn))) : Except Failure ParsedV4RowGroup :=
  let rows := rgMeta.rowCount.toNat
  if rows = 0 then .ok ⟨[],[],schemaCols.map fun _ => .new .int64,schemaCols.map fun _ => []⟩
  else
    let compressFlag := if 32 ≤ rgBuf.length then rgBuf[28]?.getD 0 else rgCompressNone
    let encodingVersion := if 32 ≤ rgBuf.length then rgBuf[29]?.getD 0 else 0
    if encodingVersion > rgChunkedEncodingVersion then
      .error (failed (s!"row group encoding version {encodingVersion} is newer than this build " ++
        s!"supports ({rgEncodingVersion})"))
    else if rgBuf.length < 32 then .error .panicked
    else do
      let idEncoding := rgBuf[30]?.getD rgIdsPlain
      let body ← readBody codecs compressFlag (rgBuf.drop 32) entry
      let idLen := rgIdSectionLen rows idEncoding
      let deletedLen := (rows + 7) / 8
      if idEncoding ≠ rgIdsImplicitContiguous ∧ idLen > body.length then .error (failed "RG ID section truncated")
      else
        let ids := if idEncoding = rgIdsImplicitContiguous then
          (List.range rows).map fun offset => rgMeta.minId + UInt64.ofNat offset
          else (ofLeWords 8 rows body).map UInt64.ofNat
        if idLen + deletedLen > body.length then .error (failed "RG deletion vector truncated")
        else
          let after := body.drop idLen
          let columns ← parseColumns encodingVersion rows (schemaCols.map Prod.snd) (after.drop deletedLen)
          return ⟨ids,after.take deletedLen,columns.map Prod.fst,columns.map Prod.snd⟩

end ApexBase.GroupFile
