import ApexBase.Storage.Schema
import ApexBase.Library.Torn

/-! The footer of a table file (`storage/on_demand/header.rs`): the schema, the row
groups and up to three tables, each behind a four-byte tag. -/
namespace ApexBase.Storage.Footer
open Data Column Library Library.Wire Library.Wire.Reader Schema

structure RowGroupMeta where
  offset : UInt64
  dataSize : UInt64
  rowCount : UInt32
  minId : UInt64
  maxId : UInt64
  deletionCount : UInt32
  deriving DecidableEq

structure RgColumnZoneMap where
  colIdx : UInt16
  minBits : Int64
  maxBits : Int64
  hasNulls : Bool
  isFloat : Bool
  isStringPrefix : Bool
  isStringTail : Bool
  deriving DecidableEq

structure ChunkRef where
  len : UInt32
  deriving DecidableEq

structure ChunkedColumn where
  chunks : List ChunkRef
  flatLen : UInt32
  flatOff : UInt32
  deriving DecidableEq

structure V4Footer where
  schema : OnDemandSchema
  rowGroups : List RowGroupMeta
  zoneMaps : List (List RgColumnZoneMap)
  colOffsets : List (List UInt32)
  chunkTables : List (List (Option ChunkedColumn))

def zoneMapMagic : Bytes := [0x5A,0x4D,0x41,0x50]

def rcixMagic : Bytes := [0x52,0x43,0x49,0x58]

def chunkMagic : Bytes := [0x43,0x48,0x4E,0x4B]

def magicV4Footer : Bytes := [0x41,0x50,0x58,0x46,0x4F,0x4F,0x54,0]

def rowGroupMetaSize : Nat := 40

def RowGroupMeta.toBytes (group : RowGroupMeta) : Bytes :=
  leBytes 8 group.offset.toNat ++ (leBytes 8 group.dataSize.toNat ++ (leBytes 4 group.rowCount.toNat ++
    (leBytes 8 group.minId.toNat ++ (leBytes 8 group.maxId.toNat ++ leBytes 4 group.deletionCount.toNat))))

def RgColumnZoneMap.flags (zone : RgColumnZoneMap) : UInt8 :=
  flag zone.hasNulls 1 ||| flag zone.isFloat 2 ||| flag zone.isStringPrefix 4 ||| flag zone.isStringTail 8

def RgColumnZoneMap.toBytes (zone : RgColumnZoneMap) : Bytes :=
  leBytes 2 zone.colIdx.toNat ++ (leBytes 8 zone.minBits.toUInt64.toNat ++
    (leBytes 8 zone.maxBits.toUInt64.toNat ++ [zone.flags]))

def offsetBytes (offset : UInt32) : Bytes := leBytes 4 offset.toNat

/-- A column that is not chunked is written as zeros. -/
def chunkedBytes : Option ChunkedColumn → Bytes
  | some column => leBytes 4 column.flatLen.toNat ++ (leBytes 4 column.flatOff.toNat ++
      (leBytes 4 column.chunks.length ++ column.chunks.flatMap fun chunk => leBytes 4 chunk.len.toNat))
  | none => leBytes 4 0 ++ (leBytes 4 0 ++ leBytes 4 0)

/-- A table by row group and column, written when there is a row group. -/
def tableBytes {α : Type} (magic : Bytes) (encode : α → Bytes) (groups : List (List α)) : Bytes :=
  if groups.isEmpty then []
  else magic ++ (leBytes 4 groups.length ++ groups.flatMap fun columns => leBytes 2 columns.length ++
    columns.flatMap encode)

namespace V4Footer

variable (footer : V4Footer)

def tables : Bytes :=
  tableBytes zoneMapMagic RgColumnZoneMap.toBytes footer.zoneMaps ++
    (tableBytes rcixMagic offsetBytes footer.colOffsets ++ tableBytes chunkMagic chunkedBytes footer.chunkTables)

def body : Bytes :=
  leBytes 8 footer.schema.toBytes.length ++ (footer.schema.toBytes ++
    (leBytes 4 footer.rowGroups.length ++ (footer.rowGroups.flatMap RowGroupMeta.toBytes ++ footer.tables)))

def footerSize : Nat := footer.body.length + 8 + 8

def toBytes : Bytes := footer.body ++ (leBytes 8 footer.footerSize ++ magicV4Footer)

end V4Footer

def RowGroupMeta.read : Parser RowGroupMeta :=
  ifRoom rowGroupMetaSize (do
    let offset ← word .panicked 8
    let dataSize ← word .panicked 8
    let rowCount ← word .panicked 4
    let minId ← word .panicked 8
    let maxId ← word .panicked 8
    let deletionCount ← word .panicked 4
    return ⟨UInt64.ofNat offset,UInt64.ofNat dataSize,UInt32.ofNat rowCount,UInt64.ofNat minId,UInt64.ofNat maxId,
      UInt32.ofNat deletionCount⟩)
    (fail (failed "V4 footer: RG meta overflow"))

def readDirectory : Parser (OnDemandSchema × List RowGroupMeta) := do
  let schemaLen ← word .panicked 8
  let raw ← ifRoom schemaLen (take .panicked schemaLen) (fail (failed "V4 footer: schema overflow"))
  let schema ← lift (OnDemandSchema.fromBytes raw)
  let count ← ifRoom 4 (word .panicked 4) (fail (failed "V4 footer: truncated row group directory"))
  let rowGroups ← many RowGroupMeta.read count
  return (schema,rowGroups)

def readZoneMap : Parser (Option RgColumnZoneMap) :=
  ifRoom 19 (do
    let colIdx ← word .panicked 2
    let minBits ← word .panicked 8
    let maxBits ← word .panicked 8
    let flags ← byte
    return some ⟨UInt16.ofNat colIdx,(UInt64.ofNat minBits).toInt64,(UInt64.ofNat maxBits).toInt64,
      flags &&& 1 != 0,flags &&& 2 != 0,flags &&& 4 != 0,flags &&& 8 != 0⟩) stop

def readOffset : Parser (Option UInt32) := fixed 4 UInt32.ofNat

def readChunked : Parser (Option (Option ChunkedColumn)) :=
  ifRoom 12 (do
    let flatLen ← word .panicked 4
    let flatOff ← word .panicked 4
    let count ← word .panicked 4
    if count = 0 then return some none
    else
      ifRoom (count * 4) (do
        let chunks ← words .panicked 4 count
        return some (some ⟨chunks.map fun len => ⟨UInt32.ofNat len⟩,UInt32.ofNat flatLen,UInt32.ofNat flatOff⟩))
          stop) stop

/-- The columns of one row group, as many as are there. -/
def readGroup {α : Type} (column : Parser (Option α)) : Parser (Option (List α)) :=
  ifRoom 2 (do
    let count ← word .panicked 2
    let columns ← upTo column count
    return some columns) stop

def readTable {α : Type} (magic : Bytes) (count : Parser Nat) (column : Parser (Option α)) : Parser (List (List α)) :=
  tagged magic (count >>= upTo (readGroup column)) []

/-- The number of row groups, none where it is cut off. -/
def guardedCount : Parser Nat := ifRoom 4 (word .panicked 4) (pure 0)

/-- The number of row groups of the zone maps is read without a look at what is left. -/
def readTables (schema : OnDemandSchema) (rowGroups : List RowGroupMeta) : Parser V4Footer := do
  let zoneMaps ← readTable zoneMapMagic (word .panicked 4) readZoneMap
  let colOffsets ← readTable rcixMagic guardedCount readOffset
  let chunkTables ← readTable chunkMagic guardedCount readChunked
  return ⟨schema,rowGroups,zoneMaps,colOffsets,chunkTables⟩

def readFooter : Parser V4Footer :=
  ifRoom 20 (do
    let directory ← readDirectory
    readTables directory.1 directory.2) (fail (failed "V4 footer too small"))

def V4Footer.fromBytes (bytes : Bytes) : Except Failure V4Footer := (readFooter bytes).map (·.1)

end ApexBase.Storage.Footer
