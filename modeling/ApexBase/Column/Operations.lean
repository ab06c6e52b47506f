import ApexBase.Buffer.Columns
import ApexBase.Column.Limited
import Mathlib.Data.List.Dedup

/-! The operations on the in-memory columns as one step function
(`storage/on_demand/types.rs`). `none` is a panic; sums of machine words wrap. -/
namespace ApexBase.Column
open Data Library.Wire
namespace ColumnData

def pushFloat16List (bytes : Bytes) : ColumnData → ColumnData
  | .float16List data dim => .float16List (data ++ bytes) (if dim = 0 ∧ bytes.length % 2 = 0 then
    UInt32.ofNat (bytes.length / 2) else dim)
  | column => column

/-- Whole bytes where the column ends at one, otherwise bit by bit as `push_bool` does. -/
def appendBits (data : Bytes) (len : Nat) (otherData : Bytes) (otherLen : Nat) : Option ColumnData :=
  if otherLen = 0 then some (.bool data len)
  else if len % 8 = 0 then
    let otherByteLen := (otherLen + 7) / 8
    let copyLen := min otherByteLen otherData.length
    some (.bool (data ++ otherData.take copyLen ++ List.replicate (otherByteLen - copyLen) 0) (len + otherLen))
  else pushBools ((List.range otherLen).map (getBit otherData)) (.bool data len)

/-- `reserve` is called with one less than the number of the other offsets. -/
def appendTexts (offsets : List UInt64) (data : Bytes) (otherOffsets : List UInt64) (otherData : Bytes) :
    Option Texts :=
  if otherOffsets = [] then none
  else
    let base := offsets.getLast?.getD 0
    some ⟨offsets ++ (otherOffsets.drop 1).map (base + ·),data ++ otherData⟩

/-- The first dimension is taken over, another one is refused. -/
def appendVectors (data : Bytes) (dim : UInt32) (otherData : Bytes) (otherDim : UInt32) : Bytes × UInt32 :=
  let dim := if dim = 0 ∧ 0 < otherDim then otherDim else dim
  (if dim = otherDim then data ++ otherData else data,dim)

/-- A column of another variant is ignored. -/
def append : ColumnData → ColumnData → Option ColumnData
  | .bool data len,.bool otherData otherLen => appendBits data len otherData otherLen
  | .int64 values,.int64 others => some (.int64 (values ++ others))
  | .float64 values,.float64 others => some (.float64 (values ++ others))
  | .string offsets data,.string otherOffsets otherData =>
    (appendTexts offsets data otherOffsets otherData).map fun texts => .string texts.offsets texts.data
  | .binary offsets data,.binary otherOffsets otherData =>
    (appendTexts offsets data otherOffsets otherData).map fun texts => .binary texts.offsets texts.data
  | .stringDict indices dictOffsets dictData,.stringDict otherIndices otherOffsets otherData =>
    (appendTexts dictOffsets dictData otherOffsets otherData).map fun texts =>
      let offset := if 0 < dictOffsets.length then UInt32.ofNat dictOffsets.length - 1 else 0
      .stringDict (indices ++ otherIndices.map (· + offset)) texts.offsets texts.data
  | .fixedList data dim,.fixedList otherData otherDim =>
    let both := appendVectors data dim otherData otherDim
    some (.fixedList both.1 both.2)
  | .float16List data dim,.float16List otherData otherDim =>
    let both := appendVectors data dim otherData otherDim
    some (.float16List both.1 both.2)
  | .quantizedList data dim codec,.quantizedList otherData otherDim otherCodec =>
    if codec = otherCodec then
      let both := appendVectors data dim otherData otherDim
      some (.quantizedList both.1 both.2 codec)
    else some (.quantizedList data dim codec)
  | column,_ => some column

/-- A row beyond the data is one of zeros. -/
def filterStrided (data : Bytes) (stride : Nat) (indices : List Nat) : Bytes :=
  indices.flatMap fun i =>
    if 0 < stride ∧ i * stride + stride ≤ data.length then (data.drop (i * stride)).take stride
    else List.replicate stride 0

/-- A row beyond the offsets is left out. -/
def filterTexts (offsets : List UInt64) (data : Bytes) (indices : List Nat) : Option Texts :=
  indices.foldlM (fun (texts : Texts) idx =>
    if idx + 1 < offsets.length then
      (between data (offsets[idx]?.getD 0).toNat (offsets[idx + 1]?.getD 0).toNat).map texts.push
    else some texts) Texts.empty

def filterByIndices (indices : List Nat) : ColumnData → Option ColumnData
  | .bool data _ =>
    let newLen := indices.length
    some (.bool (packBits (fun newIdx => (indices[newIdx]?.map (getBit data)).getD false) newLen
      (List.replicate ((newLen + 7) / 8) 0)) newLen)
  | .fixedList data dim => some (.fixedList (filterStrided data (dim.toNat * 4) indices) dim)
  | .float16List data dim => some (.float16List (filterStrided data (dim.toNat * 2) indices) dim)
  | .quantizedList data dim codec =>
    match codec.rowWidth dim.toNat with
    | .ok stride => some (.quantizedList (filterStrided data stride indices) dim codec)
    | .error _ => none
  | .int64 values => some (.int64 (indices.map fun i => values[i]?.getD 0))
  | .float64 values => some (.float64 (indices.map fun i => values[i]?.getD 0))
  | .string offsets data => (filterTexts offsets data indices).map fun texts => .string texts.offsets texts.data
  | .binary offsets data => (filterTexts offsets data indices).map fun texts => .binary texts.offsets texts.data
  | .stringDict rowIndices dictOffsets dictData =>
    some (.stringDict (indices.filterMap (rowIndices[·]?)) dictOffsets dictData)

end ColumnData

inductive Operation
  | pushI64 (value : Int64)
  | pushF64 (value : UInt64)
  | pushBool (value : Bool)
  | pushString (value : Bytes)
  | pushBytes (value : Bytes)
  | pushFixedList (bytes : Bytes)
  | pushFloat16List (bytes : Bytes)
  | pushFloat16ListFromF32 (f32Bytes : Bytes)
  | pushQuantizedListFromF32 (f32Bytes : Bytes)
  | extendI64 (values : List Int64)
  | extendF64 (values : List UInt64)
  | extendStrings (values : List Bytes)
  | extendBytes (values : List Bytes)
  | extendBools (values : List Bool)
  | append (other : ColumnData)
  | filterByIndices (indices : List Nat)
  | sliceRange (start stop : Nat)
  | toDictEncoded
  | decodeStringDict

namespace Operation
variable (encoder : VectorEncoder)

/-- A column without a dictionary form stays as it is. -/
def run : Operation → ColumnData → Option ColumnData
  | .pushI64 value,column => some (column.pushI64 value)
  | .pushF64 value,column => some (column.pushF64 value)
  | .pushBool value,column => column.pushBool value
  | .pushString value,column => some (column.pushString value)
  | .pushBytes value,column => some (column.pushBytes value)
  | .pushFixedList bytes,column => some (column.pushFixedList bytes)
  | .pushFloat16List bytes,column => some (column.pushFloat16List bytes)
  | .pushFloat16ListFromF32 f32Bytes,column => some (column.pushFloat16ListFromF32 f32Bytes)
  | .pushQuantizedListFromF32 f32Bytes,column => some (column.pushQuantizedListFromF32 encoder f32Bytes).1
  | .extendI64 values,column => some (column.extendI64 values)
  | .extendF64 values,column => some (column.extendF64 values)
  | .extendStrings values,column => some (column.extendStrings values)
  | .extendBytes values,column => some (column.extendBytes values)
  | .extendBools values,column => some (column.extendBools values)
  | .append other,column => column.append other
  | .filterByIndices indices,column => column.filterByIndices indices
  | .sliceRange start stop,column => column.sliceRange start stop
  | .toDictEncoded,column => column.toDictEncoded.map (·.getD column)
  | .decodeStringDict,column => some column.decodeStringDict

end Operation

namespace ColumnData

def Fits : ColumnData → Prop
  | .bool data len => data.length < 2^63 ∧ len + 7 < 2^64
  | .int64 values => values.length * 8 < 2^63
  | .float64 values => values.length * 8 < 2^63
  | .string offsets data | .binary offsets data => offsets.length * 8 < 2^63 ∧ data.length < 2^63
  | .stringDict indices dictOffsets dictData => indices.length * 4 < 2^63 ∧ dictOffsets.length * 8 < 2^63 ∧
    dictData.length < 2^63
  | .fixedList data _ | .float16List data _ | .quantizedList data _ _ => data.length < 2^63

/-- The offsets of texts begin at zero, are in order and end with the data, a Bool column has the
bytes of its rows and zeros behind them, an index is one of the dictionary. -/
def WellFormed : ColumnData → Prop
  | .stringDict indices dictOffsets dictData => Laid dictOffsets dictData ∧ ∀ index ∈ indices,
    index.toNat < dictOffsets.length
  | column => Proper column

def sameDim (dim otherDim : UInt32) : Bool := dim = 0 ∨ otherDim = 0 ∨ dim = otherDim

def joins : ColumnData → ColumnData → Bool
  | .bool _ _,.bool _ _ | .int64 _,.int64 _ | .float64 _,.float64 _ | .string _ _,.string _ _ | .binary _ _,.binary _ _
  | .stringDict _ _ _,.stringDict _ _ _ => true
  | .fixedList _ dim,.fixedList _ otherDim | .float16List _ dim,.float16List _ otherDim => sameDim dim otherDim
  | .quantizedList _ dim codec,.quantizedList _ otherDim otherCodec => codec = otherCodec ∧ sameDim dim otherDim
  | _,_ => false

end ColumnData

def f16Bytes (f32Bytes : Bytes) : Bytes := (chunksExact f32Bytes).flatMap fun bits => leBytes 2 (f32ToF16 bits).toNat

namespace Operation
variable (encoder : VectorEncoder)

/-- The rows that a push or an extension adds. What is meant for another variant, and a quantized
vector that is refused, adds none. -/
def added : Operation → ColumnData → List ColumnData.Cell
  | .pushI64 value,.int64 _ => [.int64 value]
  | .pushF64 value,.float64 _ => [.float64 value]
  | .pushBool value,.bool _ _ => [.bool value]
  | .pushString value,.string _ _ => [.bytes value]
  | .pushBytes value,.binary _ _ => [.bytes value]
  | .pushFixedList bytes,.fixedList _ _ => [.bytes bytes]
  | .pushFloat16List bytes,.float16List _ _ => [.bytes bytes]
  | .pushFloat16ListFromF32 f32Bytes,.float16List _ _ => [.bytes (f16Bytes f32Bytes)]
  | .pushQuantizedListFromF32 f32Bytes,.quantizedList _ dim codec =>
    if f32Bytes = [] ∨ f32Bytes.length % 4 ≠ 0 ∨ (dim ≠ 0 ∧ dim.toNat ≠ f32Bytes.length / 4) then []
    else match encoder.encodeVector codec (chunksExact f32Bytes) with
      | .ok row => [.bytes row]
      | .error _ => []
  | .extendI64 values,.int64 _ => values.map .int64
  | .extendI64 values,.float64 _ => values.map fun value => .float64 value.toFloat.toBits
  | .extendF64 values,.float64 _ => values.map .float64
  | .extendStrings values,.string _ _ => values.map .bytes
  | .extendBytes values,.binary _ _ => values.map .bytes
  | .extendBools values,.bool _ _ => values.map .bool
  | _,_ => []

def onRows (operation : Operation) (column : ColumnData) : List ColumnData.Cell :=
  match operation with
  | .append other => if column.joins other then column.rows ++ other.rows else column.rows
  | .filterByIndices indices => indices.filterMap (column.rows[·]?)
  | .sliceRange start stop => (column.rows.drop start).take (stop - start)
  | .toDictEncoded | .decodeStringDict => column.rows
  | push => column.rows ++ push.added encoder column

def Given : Operation → ColumnData → Prop
  | .filterByIndices indices,column => ∀ index ∈ indices, index < column.len
  | .sliceRange start stop,_ => start ≤ stop
  | _,_ => True

def FitsDim (dim : UInt32) (count : Nat) : Prop := if dim = 0 then 0 < count ∧ count < 2^32 else count = dim.toNat

/-- When an operation does to a column what it means: a vector has the column's dimension, indices
into a dictionary do not wrap, and the vectors of a TurboQuant column that are cut or chosen have a
dimension. -/
def Exact : Operation → ColumnData → Prop
  | .pushFixedList bytes,.fixedList _ dim => bytes.length % 4 = 0 ∧ FitsDim dim (bytes.length / 4)
  | .pushFloat16List bytes,.float16List _ dim => bytes.length % 2 = 0 ∧ FitsDim dim (bytes.length / 2)
  | .pushFloat16ListFromF32 f32Bytes,.float16List _ dim => FitsDim dim (f32Bytes.length / 4)
  | .pushQuantizedListFromF32 f32Bytes,.quantizedList _ dim _ => dim = 0 → f32Bytes.length % 4 = 0 →
    f32Bytes.length / 4 < 2^32
  | .append (.stringDict otherIndices _ _),.stringDict _ dictOffsets _ =>
    ∀ index ∈ otherIndices, index.toNat + (dictOffsets.length - 1) < 2^32
  | .filterByIndices _,.quantizedList _ dim codec | .sliceRange _ _,.quantizedList _ dim codec => codec.bits =
    0 ∨ dim ≠ 0
  | .toDictEncoded,.string offsets data => (ColumnData.string offsets data).rows.dedup.length < 2^32
  | _,_ => True

end Operation

inductive Reachable (encoder : VectorEncoder) (allowed : Operation → ColumnData → Prop) : ColumnData → Prop
  | new (colType : ColumnType) : Reachable encoder allowed (.new colType)
  | step {column next : ColumnData} (operation : Operation) (reached : Reachable encoder allowed column)
      (operand : ∀ other, operation = .append other → Reachable encoder allowed other)
      (permitted : allowed operation column) (ran : operation.run encoder column = some next) (fits : next.Fits) :
      Reachable encoder allowed next

def ListOperations (encoder : VectorEncoder) (allowed : Operation → ColumnData → Prop) : Prop :=
  ∀ column, Reachable encoder allowed column → column.WellFormed ∧
    ∀ operation : Operation, (∀ other, operation = .append other → Reachable encoder allowed other) →
    allowed operation column →
      ∃ next, operation.run encoder column = some next ∧ (next.Fits → next.rows = operation.onRows encoder column)

end ApexBase.Column
