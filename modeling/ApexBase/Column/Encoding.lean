import ApexBase.Column.Data
import ApexBase.Library.RunLength

/-! The column encodings of a row group (`storage/on_demand/mod.rs`): one byte names the encoding
and the payload follows. The writer selects the encoding from the values, the reader from that byte
and the declared column type. -/
namespace ApexBase.Column
open Data Library.Wire Library.RunLength ColumnData

def colEncodingPlain : UInt8 := 0
def colEncodingRle : UInt8 := 1
def colEncodingBitpack : UInt8 := 2
def colEncodingRleBool : UInt8 := 3
def colEncodingCompactDictionary : UInt8 := 4
def colEncodingFloatDictionary : UInt8 := 5
def colEncodingPlainF32 : UInt8 := 6

/-- Why a writer produces no bytes. The run counters have 32 bits: on a longer run the counter wraps
to a position inside the run and the loop does not end. -/
inductive Fault
  | io (error : IoError)
  | endlessRun
  | panicked
  deriving DecidableEq

section Runs

variable {α : Type} [DecidableEq α]

def countedRuns (values : List α) : Except Fault (List (α × Nat)) :=
  if (runs values).any (fun run => 2^32 ≤ run.2) then .error .endlessRun else .ok (runs values)

/-- `[count:u64][num_runs:u64][(value, run_len:u32)...]`, unless that saves less than 30% of
`plainSize`. -/
def rleEncode (valueWidth : Nat) (toNat : α → Nat) (plainSize : Nat) (values : List α) : Except Fault (Option Bytes) :=
  if values.length < 16 then pure none
  else do
    let runs ← countedRuns values
    if 16 + runs.length * (valueWidth + 4) ≥ plainSize * 7 / 10 then pure none
    else pure (some (leBytes 8 values.length ++ leBytes 8 runs.length ++
      runs.flatMap (fun run => leBytes valueWidth (toNat run.1) ++ leBytes 4 run.2)))

end Runs

def rleDecode (kind : String) (valueWidth : Nat) : Reader IoError (Nat × List (Nat × Nat)) := do
  let count ← Reader.word (errData (kind ++ ": truncated header")) 8
  let numRuns ← Reader.word (errData (kind ++ ": truncated header")) 8
  let body ← Reader.take (errData (kind ++ ": truncated runs")) (numRuns * (valueWidth + 4))
  pure (count,(List.range numRuns).map (fun i =>
    let run := body.drop (i * (valueWidth + 4))
    (ofLe (run.take valueWidth),ofLe ((run.drop valueWidth).take 4))))

def rleEncodeI64 (data : List Int64) : Except Fault (Option Bytes) :=
  rleEncode 8 (·.toUInt64.toNat) (8 + data.length * 8) data

def rleDecodeI64 : Reader IoError (List Int64) := do
  let (_,runs) ← rleDecode "RLE Int64" 8
  pure (expand (runs.map (fun run => ((UInt64.ofNat run.1).toInt64,run.2))))

/-- The bits are indexed without a check. -/
def rleEncodeBool (data : Bytes) (len : Nat) : Except Fault (Option Bytes) :=
  if 16 ≤ len ∧ 8 * data.length < len then .error .panicked
  else rleEncode 1 Bool.toNat (8 + (len + 7) / 8) ((List.range len).map (getBit data))

def fillRuns : List (Nat × Nat) → Nat → Bytes → Bytes
  | [],_,data => data
  | (value,runLen) :: rest,bitIdx,data =>
    let data := if value = 1 then (List.range runLen).foldl (fun data j => setBit data (bitIdx + j)) data else data
    fillRuns rest (bitIdx + runLen) data

def rleDecodeBool : Reader IoError ColumnData := do
  let (count,runs) ← rleDecode "RLE Bool" 1
  pure (.bool (fillRuns runs 0 (List.replicate ((count + 7) / 8) 0)) count)

/-- `64 - leading_zeros`. -/
def bitLength (value : Nat) : Nat := if value = 0 then 0 else value.log2 + 1

/-- `[count:u64][bit_width:u8][min_value:i64][packed...]`. -/
def bitpackEncodeI64 (data : List Int64) : Option Bytes :=
  if data.length < 16 then none
  else do
    let minVal ← data.min?
    let maxVal ← data.max?
    if minVal = maxVal then none
    else
      let range := ((maxVal.toInt - minVal.toInt) % 2^128).toNat
      if range > 2^64 - 1 then none
      else
        let bitWidth := bitLength range
        if bitWidth = 0 ∨ bitWidth ≥ 48 then none
        else
          let packedBytes := (data.length * bitWidth + 7) / 8
          if 17 + packedBytes ≥ (8 + data.length * 8) * 7 / 10 then none
          else some (leBytes 8 data.length ++ leBytes 1 bitWidth ++ leBytes 8 minVal.toUInt64.toNat ++
            packFields bitWidth 0 (data.map (fun val => (val - minVal).toUInt64.toNat)) (List.replicate packedBytes 0))

/-! A width of 64 bits or more makes `1u64 << bit_width` overflow: a build that checks panics
there, a release build shifts by the low six bits of the width, and so do these. -/

def unpackWords (packed : Bytes) (bitWidth i : Nat) : Nat :=
  let mask := 2^(bitWidth % 64) - 1
  let wi := i * bitWidth / 64
  let off := i * bitWidth % 64
  let lo := wordAt 8 packed wi
  if off = 0 then lo &&& mask
  else
    let hi := wordAt 8 packed (wi + 1)
    (lo >>> off ||| (hi <<< (64 - off)) % 2^64) &&& mask

def unpackBits (packed : Bytes) (bitWidth i : Nat) : Nat :=
  (List.range bitWidth).foldl (fun delta b => if getBit packed (i * bitWidth + b) then delta ||| 1 <<< (b % 64)
    else delta) 0

def fastCount (packed : Bytes) (bitWidth : Nat) : Nat :=
  if packed.length ≥ 16 then (packed.length - 16) / 8 * 64 / bitWidth else 0

def bitpackFill (packed : Bytes) (count bitWidth : Nat) (minVal : Int64) : List Int64 :=
  if bitWidth = 0 ∨ count = 0 then List.replicate count minVal
  else (List.range count).map (fun i =>
    let delta := if i < min (fastCount packed bitWidth) count then unpackWords packed bitWidth i
      else unpackBits packed bitWidth i
    minVal + (UInt64.ofNat delta).toInt64)

def bitpackDecodeI64 : Reader IoError (List Int64) := do
  let count ← Reader.word (errData "BitPack Int64: truncated header") 8
  let bitWidth ← Reader.word (errData "BitPack Int64: truncated header") 1
  let minVal ← Reader.word (errData "BitPack Int64: truncated header") 8
  let packed ← Reader.take (errData "BitPack Int64: truncated packed data") ((count * bitWidth + 7) / 8)
  pure (bitpackFill packed count bitWidth (UInt64.ofNat minVal).toInt64)

/-- The sample repeats its values: at most `limit` of them are distinct. -/
def sampleRepeats (limit : Nat) : List UInt64 → List UInt64 → Bool
  | _,[] => true
  | seen,bits :: rest =>
    let seen := seen.insert bits
    if seen.length > limit then false else sampleRepeats limit seen rest

/-- The dictionary in order of first occurrence and each value's index in it. The hash map of the
source holds the position of every entry of `values`. -/
def buildDictionary : List UInt64 → List Nat → List UInt64 → Option (List UInt64 × List Nat)
  | values,indices,[] => some (values,indices)
  | values,indices,bits :: rest =>
    match values.idxOf? bits with
    | some index => buildDictionary values (indices ++ [index]) rest
    | none =>
      if values.length ≥ 65535 + 1 then none
      else buildDictionary (values ++ [bits]) (indices ++ [values.length]) rest

def dictionaryEncodeF64 (data : List UInt64) : Option Bytes :=
  if data.length < 32768 then none
  else
    let sampleLen := min data.length 4096
    if sampleRepeats (sampleLen / 2) [] (data.take sampleLen) then do
      let (values,indices) ← buildDictionary [] [] data
      let indexWidth := if values.length ≤ 255 + 1 then 1 else 2
      if 13 + indices.length * indexWidth + values.length * 8 ≥ (8 + data.length * 8) * 7 / 10 then none
      else some (leBytes 8 data.length ++ leBytes 4 values.length ++ leBytes 1 indexWidth ++
        leWords indexWidth indices ++ leWords 8 (values.map (·.toNat)))
    else none

structure FloatDictView where
  rowCount : Nat
  dictSize : Nat
  indexWidth : Nat
  indices : Bytes
  values : Bytes

namespace FloatDictView

def parse : Reader IoError FloatDictView := do
  let rowCount ← Reader.word (errData "FloatDict: truncated header") 8
  let dictSize ← Reader.word (errData "FloatDict: truncated header") 4
  let indexWidth ← Reader.word (errData "FloatDict: truncated header") 1
  if dictSize = 0 ∨ ¬ (indexWidth = 1 ∨ indexWidth = 2) then Reader.fail (errData "FloatDict: invalid dictionary")
  else do
    let indices ← Reader.take (errData "FloatDict: truncated payload") (rowCount * indexWidth)
    let values ← Reader.take (errData "FloatDict: truncated payload") (dictSize * 8)
    pure ⟨rowCount,dictSize,indexWidth,indices,values⟩

def index (view : FloatDictView) (row : Nat) : Option Nat :=
  if row ≥ view.rowCount then none else some (wordAt view.indexWidth view.indices row)

def dictionaryValue (view : FloatDictView) (index : Nat) : Option UInt64 :=
  if index ≥ view.dictSize then none else some (UInt64.ofNat (wordAt 8 view.values index))

def value (view : FloatDictView) (row : Nat) : Option UInt64 := do view.dictionaryValue (← view.index row)

def decode (view : FloatDictView) : ColumnData :=
  .float64 ((List.range view.rowCount).map (fun row => (view.value row).getD 0))

end FloatDictView

structure StringDictView where
  rowCount : Nat
  dictSize : Nat
  indexWidth : Nat
  indices : Bytes
  dictOffsets : Bytes
  dictData : Bytes

namespace StringDictView

def parse (compact : Bool) : Reader IoError StringDictView := do
  let rowCount ← Reader.word (errData "StringDict: truncated header") 8
  let dictSize ← Reader.word (errData "StringDict: truncated header") 8
  let indexWidth ← if compact then Reader.word (errData "StringDict: truncated header") 1 else pure 4
  if indexWidth = 1 ∨ indexWidth = 2 ∨ indexWidth = 4 then do
    let indices ← Reader.take (errData "StringDict: indices or offsets truncated") (rowCount * indexWidth)
    let dictOffsets ← Reader.take (errData "StringDict: indices or offsets truncated") (dictSize * 4)
    let dictDataLen ← Reader.word (errData "StringDict: indices or offsets truncated") 8
    let dictData ← Reader.take (errData "StringDict: data truncated") dictDataLen
    pure ⟨rowCount,dictSize,indexWidth,indices,dictOffsets,dictData⟩
  else Reader.fail (errData "StringDict: invalid compact index width")

def decode (view : StringDictView) : ColumnData :=
  .stringDict ((ofLeWords view.indexWidth view.rowCount view.indices).map UInt32.ofNat)
    ((ofLeWords 4 view.dictSize view.dictOffsets).map UInt64.ofNat) view.dictData

end StringDictView

def f32PayloadLen (bytes : Bytes) : Except IoError Nat :=
  if bytes.length < 8 then .error (errData "Float32 column header truncated")
  else
    let byteLen := 8 + ofLe (bytes.take 8) * 4
    if byteLen > bytes.length then .error (errData "Float32 column data truncated") else .ok byteLen

def widen (value : Nat) : UInt64 := (Float32.ofBits (UInt32.ofNat value)).toFloat.toBits

def decodePlainF32 (bytes : Bytes) : Except IoError ColumnData := do
  let byteLen ← f32PayloadLen bytes
  pure (.float64 ((ofLeWords 4 ((byteLen - 8) / 4) (bytes.drop 8)).map widen))

/-- The value at half its width, unless a finite value would become infinite. -/
def narrowed (bits : UInt64) : Option Nat :=
  let value := Float.ofBits bits
  if ¬ value.toFloat32.isFinite ∧ value.isFinite then none else some value.toFloat32.toBits.toNat

structure ColumnEncodingOptions where
  narrowFloat32 : Bool

def narrowPayload (options : ColumnEncodingOptions) (colType : ColumnType) (data : List UInt64) : Option Bytes :=
  if options.narrowFloat32 ∧ colType = .float32 then
    (data.mapM narrowed).map (fun values => leBytes 8 data.length ++ leWords 4 values)
  else none

/-- The smaller of the two integer encodings that save enough, if any does. -/
def chooseInt64 (data : List Int64) : Except Fault (Option (UInt8 × Bytes)) := do
  match ← rleEncodeI64 data with
  | some rleBytes =>
    match bitpackEncodeI64 data with
    | some bpBytes =>
      if bpBytes.length < rleBytes.length then pure (some (colEncodingBitpack,bpBytes))
      else pure (some (colEncodingRle,rleBytes))
    | none => pure (some (colEncodingRle,rleBytes))
  | none =>
    match bitpackEncodeI64 data with
    | some bpBytes => pure (some (colEncodingBitpack,bpBytes))
    | none => pure none

def offsetsExceedU32 : ColumnData → Bool
  | .string offsets _ | .binary offsets _ => offsets.any (fun offset => offset.toNat > 2^32 - 1)
  | .stringDict _ dictOffsets _ => dictOffsets.any (fun offset => offset.toNat > 2^32 - 1)
  | _ => false

def writePlain (col : ColumnData) : Except Fault Bytes :=
  match col.writeTo with
  | .ok bytes => .ok (colEncodingPlain :: bytes)
  | .error error => .error (.io error)

def writeCompact (indexWidth : Nat) (indices : List UInt32) (dictOffsets : List UInt64) (dictData : Bytes) : Bytes :=
  leBytes 8 indices.length ++ leBytes 8 dictOffsets.length ++ leBytes 1 indexWidth ++
    leWords indexWidth (indices.map (·.toNat)) ++ u32Bytes (offsetsToU32 dictOffsets) ++
    leBytes 8 dictData.length ++ dictData

def writeColumnEncoded (col : ColumnData) (colType : ColumnType) (options : ColumnEncodingOptions) :
    Except Fault Bytes :=
  if offsetsExceedU32 col then .error (.io ⟨.invalidData,"column payload exceeds the 4 GiB u32 offset limit"⟩)
  else
    match col with
    | .float64 data =>
      match dictionaryEncodeF64 data with
      | some encoded => .ok (colEncodingFloatDictionary :: encoded)
      | none =>
        match narrowPayload options colType data with
        | some payload => .ok (colEncodingPlainF32 :: payload)
        | none => writePlain col
    | .int64 data => do
      match ← chooseInt64 data with
      | some (encoding,payload) => pure (encoding :: payload)
      | none => writePlain col
    | .bool data len => do
      match ← rleEncodeBool data len with
      | some rleBytes => pure (colEncodingRleBool :: rleBytes)
      | none => writePlain col
    | .stringDict indices dictOffsets dictData =>
      let maxIndex := (indices.max?.getD 0).toNat
      if maxIndex ≤ 255 then .ok (colEncodingCompactDictionary :: writeCompact 1 indices dictOffsets dictData)
      else if maxIndex ≤ 65535 then .ok (colEncodingCompactDictionary :: writeCompact 2 indices dictOffsets dictData)
      else writePlain col
    | _ => writePlain col

/-- The types whose run-length and bit-packed payloads the reader decodes. -/
def decodesInt64 : ColumnType → Bool
  | .int64 | .int8 | .int16 | .int32 | .uint8 | .uint16 | .uint32 | .uint64 | .timestamp | .date => true
  | _ => false

/-- Reads the payload of an encoding. What has no decoder of its own is read as plain. -/
def readPayload (encoding : UInt8) (colType : ColumnType) (bytes : Bytes) : Except IoError (ColumnData × Nat) :=
  if encoding = colEncodingPlain then (fromBytesTyped colType).counted bytes
  else if encoding = colEncodingPlainF32 then do
    let col ← decodePlainF32 bytes
    pure (col,← f32PayloadLen bytes)
  else if encoding = colEncodingRle then
    if decodesInt64 colType then (ColumnData.int64 <$> rleDecodeI64).counted bytes
    else (fromBytesTyped colType).counted bytes
  else if encoding = colEncodingBitpack then
    if decodesInt64 colType then (ColumnData.int64 <$> bitpackDecodeI64).counted bytes
    else (fromBytesTyped colType).counted bytes
  else if encoding = colEncodingRleBool then rleDecodeBool.counted bytes
  else if encoding = colEncodingCompactDictionary ∧ colType = .stringDict then
    (StringDictView.decode <$> StringDictView.parse true).counted bytes
  else if encoding = colEncodingFloatDictionary ∧ (colType = .float64 ∨ colType = .float32) then
    (FloatDictView.decode <$> FloatDictView.parse).counted bytes
  else (fromBytesTyped colType).counted bytes

def readColumnEncoded : Bytes → ColumnType → Except IoError (ColumnData × Nat)
  | [],_ => .error (errData "read_column_encoded: empty input")
  | encoding :: dataBytes,colType => do
    let (col,consumed) ← readPayload encoding colType dataBytes
    pure (col,1 + consumed)

def skipPayload (encoding : UInt8) (colType : ColumnType) (bytes : Bytes) : Except IoError Nat :=
  if encoding = colEncodingPlain then skipBytesTyped bytes colType
  else if encoding = colEncodingRle then
    if bytes.length < 16 then .error (errData "skip RLE: truncated header")
    else .ok (16 + ofLe ((bytes.drop 8).take 8) * 12)
  else if encoding = colEncodingBitpack then
    if bytes.length < 17 then .error (errData "skip BitPack: truncated header")
    else .ok (17 + (ofLe (bytes.take 8) * ofLe ((bytes.drop 8).take 1) + 7) / 8)
  else if encoding = colEncodingRleBool then
    if bytes.length < 16 then .error (errData "skip RLE Bool: truncated header")
    else .ok (16 + ofLe ((bytes.drop 8).take 8) * 5)
  else if encoding = colEncodingPlainF32 then f32PayloadLen bytes
  else if encoding = colEncodingCompactDictionary ∧ colType = .stringDict then
    ((StringDictView.parse true).counted bytes).map Prod.snd
  else if encoding = colEncodingFloatDictionary ∧ (colType = .float64 ∨ colType = .float32) then
    (FloatDictView.parse.counted bytes).map Prod.snd
  else skipBytesTyped bytes colType

def skipColumnEncoded : Bytes → ColumnType → Except IoError Nat
  | [],_ => .error (errData "skip_column_encoded: empty input")
  | encoding :: dataBytes,colType => do
    let consumed ← skipPayload encoding colType dataBytes
    pure (1 + consumed)

end ApexBase.Column
