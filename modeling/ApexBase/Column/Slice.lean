import ApexBase.Column.Data

/-! Cutting a range of rows out of a column and its null bitmap, and the string
dictionaries (`storage/on_demand/types.rs`, `read_write.rs`). `none` is a panic. -/
namespace ApexBase.Column
open Data Library.Wire

def between {α : Type} (items : List α) (start stop : Nat) : Option (List α) :=
  if start ≤ stop ∧ stop ≤ items.length then some ((items.drop start).take (stop - start)) else none

namespace ColumnData

/-- The width of a codec is known where there is a dimension. -/
def len : ColumnData → Nat
  | .bool _ len => len
  | .int64 values => values.length
  | .float64 values => values.length
  | .string offsets _ | .binary offsets _ => offsets.length - 1
  | .stringDict indices _ _ => indices.length
  | .fixedList data dim => if dim = 0 then 0 else data.length / (dim.toNat * 4)
  | .float16List data dim => if dim = 0 then 0 else data.length / (dim.toNat * 2)
  | .quantizedList data dim codec =>
    if dim = 0 then 0
    else match codec.rowWidth dim.toNat with
      | .ok width => data.length / width
      | .error _ => 0

def sliceStrided (data : Bytes) (stride start stop : Nat) : Option Bytes :=
  let rowCount := if stride = 0 then 0 else data.length / stride
  between data (min start rowCount * stride) (min stop rowCount * stride)

def sliceOffsets (offsets : List UInt64) (data : Bytes) (start stop : Nat) : Option (List UInt64 × Bytes) :=
  let rowCount := offsets.length - 1
  let s := min start rowCount
  let e := min stop rowCount
  if e ≤ s then some ([0],[])
  else do
    let base ← offsets[s]?
    let last ← offsets[e]?
    let newData ← between data base.toNat (min last.toNat data.length)
    return (((offsets.drop s).take (e + 1 - s)).map (· - base),newData)

def sliceRange (start stop : Nat) : ColumnData → Option ColumnData
  | .fixedList data dim => (sliceStrided data (dim.toNat * 4) start stop).map (.fixedList · dim)
  | .float16List data dim => (sliceStrided data (dim.toNat * 2) start stop).map (.float16List · dim)
  | .quantizedList data dim codec =>
    match codec.rowWidth dim.toNat with
    | .ok stride => (sliceStrided data stride start stop).map (.quantizedList · dim codec)
    | .error _ => none
  | .bool data len =>
    let s := min start len
    let count := min stop len - s
    some (.bool (packBits (fun i => getBit data (s + i)) count (List.replicate ((count + 7) / 8) 0)) count)
  | .int64 values => (between values (min start values.length) (min stop values.length)).map .int64
  | .float64 values => (between values (min start values.length) (min stop values.length)).map .float64
  | .string offsets data => (sliceOffsets offsets data start stop).map fun cut => .string cut.1 cut.2
  | .binary offsets data => (sliceOffsets offsets data start stop).map fun cut => .binary cut.1 cut.2
  | .stringDict indices dictOffsets dictData =>
    (between indices (min start indices.length) (min stop indices.length)).map (.stringDict · dictOffsets dictData)

end ColumnData

/-- A range that starts at a whole byte is copied, and what is behind its last row is cleared. -/
def sliceNullBitmap (nulls : Bytes) (start stop : Nat) : Bytes :=
  let count := stop - start
  let resultLen := (count + 7) / 8
  if count = 0 ∨ nulls = [] then List.replicate resultLen 0
  else if start % 8 = 0 then
    let copied := (nulls.drop (start / 8)).take resultLen
    let result := copied ++ List.replicate (resultLen - copied.length) 0
    if 0 < count % 8 then result.modify (resultLen - 1) (· &&& (1 <<< UInt8.ofNat (count % 8)) - 1) else result
  else packBits (fun i => getBit nulls (start + i)) count (List.replicate resultLen 0)

structure Texts where
  offsets : List UInt64
  data : Bytes

namespace Texts

def empty : Texts := ⟨[0],[]⟩

def push (texts : Texts) (text : Bytes) : Texts :=
  ⟨texts.offsets ++ [UInt64.ofNat (texts.data ++ text).length],texts.data ++ text⟩

end Texts

/-- The hash map of the source holds the position of every entry of `entries`. -/
structure DictBuilder where
  entries : List Bytes
  dict : Texts
  rowIndices : List UInt32

namespace DictBuilder

def empty : DictBuilder := ⟨[],.empty,[]⟩

/-- Index 0 is reserved for NULL. -/
def push (builder : DictBuilder) (text : Bytes) : DictBuilder :=
  match builder.entries.idxOf? text with
  | some index => {builder with rowIndices := builder.rowIndices ++ [UInt32.ofNat (index + 1)]}
  | none => ⟨builder.entries ++ [text],builder.dict.push text,builder.rowIndices ++
    [UInt32.ofNat (builder.entries.length + 1)]⟩

end DictBuilder

namespace ColumnData

def texts (offsets : List UInt64) (data : Bytes) : Option (List Bytes) :=
  (List.range (offsets.length - 1)).mapM fun row =>
    between data (offsets[row]?.getD 0).toNat (offsets[row + 1]?.getD 0).toNat

/-- Only a string column has a dictionary. -/
def toDictEncoded : ColumnData → Option (Option ColumnData)
  | .string offsets data => do
    let builder := (← texts offsets data).foldl DictBuilder.push .empty
    return some (.stringDict builder.rowIndices builder.dict.offsets builder.dict.data)
  | _ => some none

def dictText (dictOffsets : List UInt64) (dictData : Bytes) (index : UInt32) : Bytes :=
  if index = 0 ∨ dictOffsets.length ≤ index.toNat then []
  else
    let start := (dictOffsets[index.toNat - 1]?.getD 0).toNat
    let stop := (dictOffsets[index.toNat]?.getD 0).toNat
    if stop ≤ dictData.length ∧ start ≤ stop then (dictData.drop start).take (stop - start) else []

def decodeStringDict : ColumnData → ColumnData
  | .stringDict indices dictOffsets dictData =>
    let decoded := indices.foldl (fun texts index => texts.push (dictText dictOffsets dictData index)) Texts.empty
    .string decoded.offsets decoded.data
  | column => column

def estimateMemoryBytes : ColumnData → Nat
  | .bool data _ => data.length
  | .int64 values => values.length * 8
  | .float64 values => values.length * 8
  | .string offsets data | .binary offsets data => offsets.length * 4 + data.length
  | .stringDict indices dictOffsets dictData => indices.length * 4 + dictOffsets.length * 4 + dictData.length
  | .fixedList data _ | .float16List data _ | .quantizedList data _ _ => data.length

/-- A dictionary when it saves a tenth of the bytes of a thousand strings or more. -/
def dictEncodeIfSmaller (column : ColumnData) : Option (Option ColumnData) :=
  match column with
  | .string offsets _ =>
    if offsets.length - 1 < 1000 then some none
    else do
      let encoded ← toDictEncoded column
      return encoded.filter fun dict =>
        min (dict.estimateMemoryBytes + 8) (2^64 - 1) < min (column.estimateMemoryBytes * 9) (2^64 - 1) / 10
  | _ => some none

end ColumnData

end ApexBase.Column
