import ApexBase.Column.Slice
import ApexBase.Library.Assoc

/-! Appending to the in-memory columns (`storage/on_demand/types.rs`, `storage_core.rs`).
`none` is a panic. Strings are their bytes, vectors the bytes of their 32-bit floats. -/
namespace ApexBase.Column
open Data Library.Wire

def f32ToF16 (bits : UInt32) : UInt16 :=
  let sign := ((bits >>> 16) &&& 0x8000).toUInt16
  let expF32 : Int := ((bits >>> 23) &&& 0xFF).toNat
  let mantF32 := bits &&& 0x7FFFFF
  if expF32 = 0xFF then sign ||| 0x7C00 ||| (if mantF32 ≠ 0 then 0x0200 else 0)
  else
    let exp := expF32 - 127 + 15
    if exp ≥ 31 then sign ||| 0x7C00
    else if exp ≤ 0 then
      if exp < -10 then sign else sign ||| (((mantF32 ||| 0x800000) >>> UInt32.ofNat (1 - exp).toNat) >>> 13).toUInt16
    else sign ||| (UInt16.ofNat exp.toNat <<< 10) ||| (mantF32 >>> 13).toUInt16

def chunksExact : Bytes → List UInt32
  | a :: b :: c :: d :: rest => UInt32.ofNat (ofLe [a,b,c,d]) :: chunksExact rest
  | _ => []

/-- The float arithmetic of `encode_vector`: a row has the width of its codec, and zeros
can be encoded. -/
structure VectorEncoder where
  encodeVector : VectorCodec → List UInt32 → Except IoError Bytes
  width : ∀ codec values bytes, encodeVector codec values = .ok bytes → codec.rowWidth values.length = .ok bytes.length
  zeros : ∀ codec count, 0 < count → ∃ bytes, encodeVector codec (List.replicate count 0) = .ok bytes

namespace ColumnData

def pushI64 (value : Int64) : ColumnData → ColumnData
  | .int64 values => .int64 (values ++ [value])
  | column => column

def pushF64 (value : UInt64) : ColumnData → ColumnData
  | .float64 values => .float64 (values ++ [value])
  | column => column

def pushBool (value : Bool) : ColumnData → Option ColumnData
  | .bool data len =>
    let byteIdx := len / 8
    let data := if byteIdx ≥ data.length then data ++ [0] else data
    if value then if byteIdx < data.length then some (.bool (setBit data len) (len + 1)) else none
    else some (.bool data (len + 1))
  | column => some column

def pushString (value : Bytes) : ColumnData → ColumnData
  | .string offsets data => .string (offsets ++ [UInt64.ofNat (data ++ value).length]) (data ++ value)
  | column => column

def pushBytes (value : Bytes) : ColumnData → ColumnData
  | .binary offsets data => .binary (offsets ++ [UInt64.ofNat (data ++ value).length]) (data ++ value)
  | column => column

/-- Integers are widened where the column is one of floats. -/
def extendI64 (values : List Int64) : ColumnData → ColumnData
  | .int64 before => .int64 (before ++ values)
  | .float64 before => .float64 (before ++ values.map (·.toFloat.toBits))
  | column => column

def extendF64 (values : List UInt64) : ColumnData → ColumnData
  | .float64 before => .float64 (before ++ values)
  | column => column

def extendStrings (values : List Bytes) (column : ColumnData) : ColumnData :=
  values.foldl (fun column value => column.pushString value) column

def extendBytes (values : List Bytes) (column : ColumnData) : ColumnData :=
  values.foldl (fun column value => column.pushBytes value) column

def extendBools (values : List Bool) : ColumnData → ColumnData
  | .bool data len =>
    if values.isEmpty then .bool data len
    else
      let neededBytes := (len + values.length + 7) / 8
      let room := data.take neededBytes ++ List.replicate (neededBytes - data.length) 0
      let filled := values.foldl (fun state value => (if value then setBit state.1 state.2 else state.1,state.2 + 1))
        (room,len)
      .bool filled.1 filled.2
  | column => column

def pushFixedList (bytes : Bytes) : ColumnData → ColumnData
  | .fixedList data dim => .fixedList (data ++ bytes) (if dim = 0 ∧ bytes.length % 4 = 0 then
    UInt32.ofNat (bytes.length / 4) else dim)
  | column => column

def pushFloat16ListFromF32 (f32Bytes : Bytes) : ColumnData → ColumnData
  | .float16List data dim =>
    let n := f32Bytes.length / 4
    .float16List (data ++ (chunksExact f32Bytes).flatMap fun bits => leBytes 2 (f32ToF16 bits).toNat)
      (if dim = 0 ∧ 0 < n then UInt32.ofNat n else dim)
  | column => column

def errInput (message : String) : IoError := ⟨.invalidInput,message⟩

/-- An encoder that fails has appended nothing, but a dimension is kept. -/
def pushQuantizedListFromF32 (encoder : VectorEncoder) (f32Bytes : Bytes) : ColumnData → ColumnData × Option IoError
  | .quantizedList data dim codec =>
    if f32Bytes.isEmpty ∨ f32Bytes.length % 4 ≠ 0 then
      (.quantizedList data dim codec,some (errInput "quantized vector requires non-empty float32 bytes"))
    else
      let values := chunksExact f32Bytes
      if dim ≠ 0 ∧ dim.toNat ≠ values.length then
        (.quantizedList data dim codec,
          some (errInput s!"quantized vector dimension mismatch: expected {dim}, got {values.length}"))
      else
        let known := if dim = 0 then UInt32.ofNat values.length else dim
        match encoder.encodeVector codec values with
        | .ok row => (.quantizedList (data ++ row) known codec,none)
        | .error error => (.quantizedList data known codec,some error)
  | column => (column,none)

/-- A row without a value; the vector columns pad implicitly. -/
def padRow : ColumnData → ColumnData
  | .int64 values => .int64 (values ++ [0])
  | .float64 values => .float64 (values ++ [0])
  | .string offsets data => .string (offsets ++ [offsets.getLast?.getD 0]) data
  | .binary offsets data => .binary (offsets ++ [offsets.getLast?.getD 0]) data
  | .bool data len => .bool (if len / 8 ≥ data.length then data ++ [0] else data) (len + 1)
  | .stringDict indices dictOffsets dictData => .stringDict (indices ++ [0]) dictOffsets dictData
  | column => column

/-- A row without a value; a vector column pads only once its dimension is known. -/
def pushDefaultValue (encoder : VectorEncoder) : ColumnData → Option ColumnData
  | .fixedList data dim => some (.fixedList (if dim = 0 then data else data ++ List.replicate (dim.toNat * 4) 0) dim)
  | .float16List data dim => some (.float16List (if dim = 0 then data
    else data ++ List.replicate (dim.toNat * 2) 0) dim)
  | .quantizedList data dim codec =>
    if dim = 0 then some (.quantizedList data dim codec)
    else match encoder.encodeVector codec (List.replicate dim.toNat 0) with
      | .ok row => some (.quantizedList (data ++ row) dim codec)
      | .error _ => none
  | column => some column.padRow

def pushBools : List Bool → ColumnData → Option ColumnData
  | [],column => some column
  | value :: rest,column => (column.pushBool value).bind (pushBools rest)

end ColumnData

end ApexBase.Column
