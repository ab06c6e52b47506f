import ApexBase.Data.Value
import ApexBase.Library.Bits

/-! The in-memory columns and their plain serialization (`storage/on_demand/types.rs`). Floats are
their bit patterns. Sizes are counted without a width: no `usize` computation on what a writer
produced can overflow. -/
namespace ApexBase.Column
open Data Library.Wire

inductive ColumnType
  | null | bool | int8 | int16 | int32 | int64 | uint8 | uint16 | uint32 | uint64 | float32 | float64
  | string | binary | stringDict | timestamp | date | fixedList | float16List | bfloat16List | int8Vector
  | uint8Vector | bit1Vector | turboQuant2Vector | turboQuant3Vector | turboQuant4Vector | blob | json | uuid
  | decimal128 | time | timestampTz | interval | list | extension
  deriving DecidableEq

inductive VectorCodec
  | float32 | float16 | bfloat16 | int8 | uint8 | bit1 | turboQuant2 | turboQuant3 | turboQuant4
  deriving DecidableEq

inductive ColumnData
  | bool (data : Bytes) (len : Nat)
  | int64 (values : List Int64)
  | float64 (values : List UInt64)
  | string (offsets : List UInt64) (data : Bytes)
  | binary (offsets : List UInt64) (data : Bytes)
  | stringDict (indices : List UInt32) (dictOffsets : List UInt64) (dictData : Bytes)
  | fixedList (data : Bytes) (dim : UInt32)
  | float16List (data : Bytes) (dim : UInt32)
  | quantizedList (data : Bytes) (dim : UInt32) (codec : VectorCodec)
  deriving DecidableEq

def errData (message : String) : IoError := ⟨.invalidData,message⟩

def VectorCodec.bits : VectorCodec → Nat
  | .turboQuant2 => 2
  | .turboQuant3 => 3
  | .turboQuant4 => 4
  | _ => 0

def turboPaddedDim (dim : Nat) : Except IoError Nat :=
  if dim = 0 then .error ⟨.invalidInput,"TurboQuant dimension must be greater than zero"⟩
  else .ok dim.nextPowerOfTwo

def packedLen (count bits : Nat) : Nat := (count * bits + 7) / 8

def VectorCodec.rowWidth (codec : VectorCodec) (dim : Nat) : Except IoError Nat :=
  match codec with
  | .float32 => .ok (dim * 4)
  | .float16 | .bfloat16 => .ok (dim * 2)
  | .int8 => .ok (dim + 4)
  | .uint8 => .ok (dim + 8)
  | .bit1 => .ok ((dim + 7) / 8 + 4)
  | .turboQuant2 | .turboQuant3 | .turboQuant4 => do
    let padded ← turboPaddedDim dim
    pure (packedLen padded codec.bits + 4)

namespace ColumnData

def new : ColumnType → ColumnData
  | .bool => .bool [] 0
  | .int8 | .int16 | .int32 | .int64 | .uint8 | .uint16 | .uint32 | .uint64 | .timestamp | .timestampTz | .date
  | .time | .interval => .int64 []
  | .float32 | .float64 => .float64 []
  | .string | .json => .string [0] []
  | .binary | .blob | .uuid | .decimal128 | .list | .extension => .binary [0] []
  | .stringDict => .stringDict [] [0] []
  | .fixedList => .fixedList [] 0
  | .float16List => .float16List [] 0
  | .bfloat16List => .quantizedList [] 0 .bfloat16
  | .int8Vector => .quantizedList [] 0 .int8
  | .uint8Vector => .quantizedList [] 0 .uint8
  | .bit1Vector => .quantizedList [] 0 .bit1
  | .turboQuant2Vector => .quantizedList [] 0 .turboQuant2
  | .turboQuant3Vector => .quantizedList [] 0 .turboQuant3
  | .turboQuant4Vector => .quantizedList [] 0 .turboQuant4
  | .null => .int64 []

def SameVariant : ColumnData → ColumnData → Prop
  | .bool _ _,.bool _ _ => True
  | .int64 _,.int64 _ => True
  | .float64 _,.float64 _ => True
  | .string _ _,.string _ _ => True
  | .binary _ _,.binary _ _ => True
  | .stringDict _ _ _,.stringDict _ _ _ => True
  | .fixedList _ _,.fixedList _ _ => True
  | .float16List _ _,.float16List _ _ => True
  | .quantizedList _ _ codec,.quantizedList _ _ codec' => codec = codec'
  | _,_ => False

/-- What the `push` operations keep: a vector has at most `isize::MAX` bytes, there is one more
offset than there are values, every row has its stride of bytes. The bits of a Bool column may end
before its rows. -/
def Sound : ColumnData → Prop
  | .bool _ len => len + 7 < 2^64
  | .int64 values => values.length * 8 < 2^63
  | .float64 values => values.length * 8 < 2^63
  | .string offsets data => offsets ≠ [] ∧ offsets.length * 8 < 2^63 ∧ data.length < 2^63
  | .binary offsets data => offsets ≠ [] ∧ offsets.length * 8 < 2^63 ∧ data.length < 2^63
  | .stringDict indices dictOffsets dictData =>
    indices.length * 4 < 2^63 ∧ dictOffsets.length * 8 < 2^63 ∧ dictData.length < 2^63
  | .fixedList data dim => data.length < 2^63 ∧ ∃ rows, data.length = rows * (dim.toNat * 4)
  | .float16List data dim => data.length < 2^63 ∧ ∃ rows, data.length = rows * (dim.toNat * 2)
  | .quantizedList data dim codec => data.length < 2^63 ∧ (dim = 0 → data = []) ∧
    ∀ width, codec.rowWidth dim.toNat = .ok width → ∃ rows, data.length = rows * width

/-- The value of one row: a string is its bytes, a vector its encoded bytes. -/
inductive Cell
  | null
  | bool (value : Bool)
  | int64 (value : Int64)
  | float64 (bits : UInt64)
  | bytes (value : Bytes)
  deriving DecidableEq

def slice (offsets : List UInt64) (data : Bytes) (row : Nat) : Bytes :=
  let start := (offsets[row]?.getD 0).toNat
  let stop := (offsets[row + 1]?.getD 0).toNat
  (data.drop start).take (stop - start)

def strideRows (data : Bytes) (width : Nat) : List Cell :=
  (List.range (data.length / width)).map (fun row => .bytes ((data.drop (row * width)).take width))

/-- The row values of a column. Dictionary index 0 is NULL. -/
def rows : ColumnData → List Cell
  | .bool data len => (List.range len).map (fun row => .bool (getBit data row))
  | .int64 values => values.map .int64
  | .float64 values => values.map .float64
  | .string offsets data => (List.range (offsets.length - 1)).map (fun row => .bytes (slice offsets data row))
  | .binary offsets data => (List.range (offsets.length - 1)).map (fun row => .bytes (slice offsets data row))
  | .stringDict indices dictOffsets dictData => indices.map (fun index =>
    if index = 0 ∨ dictOffsets.length ≤ index.toNat then .null
    else .bytes (slice dictOffsets dictData (index.toNat - 1)))
  | .fixedList data dim => strideRows data (dim.toNat * 4)
  | .float16List data dim => strideRows data (dim.toNat * 2)
  | .quantizedList data dim codec =>
    match codec.rowWidth dim.toNat with
    | .ok width => strideRows data width
    | .error _ => []

def offsetsToU32 (offsets : List UInt64) : List UInt32 := offsets.map (·.toUInt32)

def u32Bytes (values : List UInt32) : Bytes := leWords 4 (values.map (·.toNat))

def countOf (data : Bytes) (dim width : Nat) : Nat := if dim = 0 then 0 else data.length / width

def writeTo : ColumnData → Except IoError Bytes
  | .bool data len =>
    let byteLen := (len + 7) / 8
    -- Data that is shorter than expected is padded.
    .ok (leBytes 8 len ++ data.take (min byteLen data.length) ++ List.replicate (byteLen - data.length) 0)
  | .int64 values => .ok (leBytes 8 values.length ++ leWords 8 (values.map (·.toUInt64.toNat)))
  | .float64 values => .ok (leBytes 8 values.length ++ leWords 8 (values.map (·.toNat)))
  | .string offsets data | .binary offsets data =>
    .ok (leBytes 8 (offsets.length - 1) ++ u32Bytes (offsetsToU32 offsets) ++ leBytes 8 data.length ++ data)
  | .stringDict indices dictOffsets dictData =>
    .ok (leBytes 8 indices.length ++ leBytes 8 dictOffsets.length ++ u32Bytes indices
      ++ u32Bytes (offsetsToU32 dictOffsets) ++ leBytes 8 dictData.length ++ dictData)
  | .fixedList data dim => .ok (leBytes 8 (countOf data dim.toNat (dim.toNat * 4)) ++ leBytes 4 dim.toNat ++ data)
  | .float16List data dim => .ok (leBytes 8 (countOf data dim.toNat (dim.toNat * 2)) ++ leBytes 4 dim.toNat ++ data)
  | .quantizedList data dim codec => do
    let count ← if dim = 0 then pure 0 else (data.length / ·) <$> codec.rowWidth dim.toNat
    pure (leBytes 8 count ++ leBytes 4 dim.toNat ++ data)

def readU64 : Reader IoError Nat := Reader.word (errData "ColumnData::from_bytes_typed: unexpected EOF reading u64") 8

def readBool : Reader IoError ColumnData := do
  let len ← readU64
  let data ← Reader.take (errData "Bool column data truncated") ((len + 7) / 8)
  pure (.bool data len)

def readInt64 : Reader IoError ColumnData := do
  let count ← readU64
  let values ← Reader.words (errData "Int64 column data truncated") 8 count
  pure (.int64 (values.map (fun value => (UInt64.ofNat value).toInt64)))

def readFloat64 : Reader IoError ColumnData := do
  let count ← readU64
  let values ← Reader.words (errData "Float64 column data truncated") 8 count
  pure (.float64 (values.map UInt64.ofNat))

def readOffsets (kind : String) (build : List UInt64 → Bytes → ColumnData) : Reader IoError ColumnData := do
  let count ← readU64
  let diskOffsets ← Reader.words (errData (kind ++ " offsets truncated")) 4 (count + 1)
  let dataLen ← readU64
  let data ← Reader.take (errData (kind ++ " data truncated")) dataLen
  pure (build (diskOffsets.map UInt64.ofNat) data)

def readStringDict : Reader IoError ColumnData := do
  let rowCount ← readU64
  let dictSize ← readU64
  let indices ← Reader.words (errData "StringDict indices truncated") 4 rowCount
  let dictOffsets ← Reader.words (errData "StringDict dict_offsets truncated") 4 dictSize
  let dictDataLen ← readU64
  let dictData ← Reader.take (errData "StringDict dict_data truncated") dictDataLen
  pure (.stringDict (indices.map UInt32.ofNat) (dictOffsets.map UInt64.ofNat) dictData)

def readVectors (kind : String) (width : Nat → Except IoError Nat) (build : Bytes → UInt32 → ColumnData) :
    Reader IoError ColumnData := do
  let count ← readU64
  let dim ← Reader.word (errData (kind ++ ": dim truncated")) 4
  let stride ← Reader.lift (width dim)
  let data ← Reader.take (errData (kind ++ ": data truncated")) (count * stride)
  pure (build data (UInt32.ofNat dim))

/-- A `Null` column has a count and as much of its padding as there is. -/
def readNull : Reader IoError ColumnData := do
  let count ← readU64
  fun bytes => .ok (.int64 (List.replicate count 0),bytes.drop (count * 8))

def readQuantized (codec : VectorCodec) : Reader IoError ColumnData :=
  readVectors "QuantizedList" codec.rowWidth (fun data dim => .quantizedList data dim codec)

def fromBytesTyped : ColumnType → Reader IoError ColumnData
  | .bool => readBool
  | .int64 | .int8 | .int16 | .int32 | .uint8 | .uint16 | .uint32 | .uint64 | .timestamp | .timestampTz | .date
  | .time | .interval => readInt64
  | .float64 | .float32 => readFloat64
  | .string | .json => readOffsets "String" .string
  | .binary | .blob | .uuid | .decimal128 | .list | .extension => readOffsets "Binary" .binary
  | .stringDict => readStringDict
  | .fixedList => readVectors "FixedList" (fun dim => .ok (dim * 4)) .fixedList
  | .float16List => readVectors "Float16List" (fun dim => .ok (dim * 2)) .float16List
  | .bfloat16List => readQuantized .bfloat16
  | .int8Vector => readQuantized .int8
  | .uint8Vector => readQuantized .uint8
  | .bit1Vector => readQuantized .bit1
  | .turboQuant2Vector => readQuantized .turboQuant2
  | .turboQuant3Vector => readQuantized .turboQuant3
  | .turboQuant4Vector => readQuantized .turboQuant4
  | .null => readNull

def skipU64 (bytes : Bytes) (pos : Nat) : Except IoError Nat :=
  if pos + 8 > bytes.length then .error (errData "skip_bytes_typed: unexpected EOF reading u64")
  else .ok (ofLe ((bytes.drop pos).take 8))

def skipVectors (kind : String) (width : Nat → Except IoError Nat) (bytes : Bytes) : Except IoError Nat := do
  let count ← skipU64 bytes 0
  if 8 + 4 > bytes.length then .error (errData ("skip " ++ kind ++ ": dim truncated"))
  else do
    let stride ← width (ofLe ((bytes.drop 8).take 4))
    pure (8 + 4 + count * stride)

def skipQuantized (codec : VectorCodec) (bytes : Bytes) : Except IoError Nat :=
  skipVectors "QuantizedList" codec.rowWidth bytes

def skipPos (bytes : Bytes) : ColumnType → Except IoError Nat
  | .bool => do
    let len ← skipU64 bytes 0
    pure (8 + (len + 7) / 8)
  | .int64 | .int8 | .int16 | .int32 | .uint8 | .uint16 | .uint32 | .uint64 | .timestamp | .timestampTz | .date
  | .time | .interval => do
    let count ← skipU64 bytes 0
    pure (8 + count * 8)
  | .float64 | .float32 => do
    let count ← skipU64 bytes 0
    pure (8 + count * 8)
  | .string | .json | .binary | .blob | .uuid | .decimal128 | .list | .extension => do
    let count ← skipU64 bytes 0
    let dataLen ← skipU64 bytes (8 + (count + 1) * 4)
    pure (8 + (count + 1) * 4 + 8 + dataLen)
  | .stringDict => do
    let rowCount ← skipU64 bytes 0
    let dictSize ← skipU64 bytes 8
    let dictDataLen ← skipU64 bytes (16 + rowCount * 4 + dictSize * 4)
    pure (16 + rowCount * 4 + dictSize * 4 + 8 + dictDataLen)
  | .fixedList => skipVectors "FixedList" (fun dim => .ok (dim * 4)) bytes
  | .float16List => skipVectors "Float16List" (fun dim => .ok (dim * 2)) bytes
  | .bfloat16List => skipQuantized .bfloat16 bytes
  | .int8Vector => skipQuantized .int8 bytes
  | .uint8Vector => skipQuantized .uint8 bytes
  | .bit1Vector => skipQuantized .bit1 bytes
  | .turboQuant2Vector => skipQuantized .turboQuant2 bytes
  | .turboQuant3Vector => skipQuantized .turboQuant3 bytes
  | .turboQuant4Vector => skipQuantized .turboQuant4 bytes
  | .null => do
    let count ← skipU64 bytes 0
    pure (8 + count * 8)

def skipBytesTyped (bytes : Bytes) (colType : ColumnType) : Except IoError Nat := do
  let pos ← skipPos bytes colType
  if pos > bytes.length then .error (errData s!"skip_bytes_typed: would skip past EOF ({pos} > {bytes.length})")
  else pure pos

end ColumnData

/-- A column of type `colType` as `ColumnData::new` and the `push` operations build it. -/
structure TypedColumn (colType : ColumnType) where
  data : ColumnData
  variant : (ColumnData.new colType).SameVariant data
  sound : data.Sound

end ApexBase.Column
