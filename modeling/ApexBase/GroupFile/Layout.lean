import ApexBase.Column.Encoding
import ApexBase.Storage.Footer

/-! The body of a row group on disk (`storage/on_demand/mod.rs`, `storage_core.rs`): one frame,
compressed or not, or one frame for what precedes the columns and one for each column, with a
directory that says where they go. -/
namespace ApexBase.GroupFile
open Data Column Library.Wire
open Storage.Schema (Failure failed)
open Storage.Footer (ChunkRef ChunkedColumn)

inductive CompressionType
  | none | lz4 | zstd
  deriving DecidableEq

/-- The compressors, which are packages of their own. The text of an error is what it
displays; a decompression into a buffer gives what it wrote there. -/
structure Codecs where
  zstdCompress : Bytes → Option Bytes
  zstdContentSize : Bytes → Option Nat
  zstdDecompress : Bytes → Nat → Except String Bytes
  zstdStream : Bytes → Except IoError Bytes
  zstdInto : Bytes → Nat → Except String Bytes
  lz4Compress : Bytes → Bytes
  lz4Decompress : Bytes → Except String Bytes
  lz4Into : Bytes → Nat → Except String Bytes

def rgCompressNone : UInt8 := 0

def rgCompressLz4 : UInt8 := 1

def rgCompressZstd : UInt8 := 2

def compressMinBodySize : Nat := 512

def chunkFrameHeaderLen : Nat := 5

section Layout

variable (codecs : Codecs) (compression : CompressionType)

def compressFrame (chunk : Bytes) : UInt8 × Bytes :=
  match compression with
  | .none => (rgCompressNone,chunk)
  | .zstd =>
    match codecs.zstdCompress chunk with
    | some compressed => if compressed.length < chunk.length then (rgCompressZstd,compressed)
      else (rgCompressNone,chunk)
    | none => (rgCompressNone,chunk)
  | .lz4 =>
    let compressed := codecs.lz4Compress chunk
    if compressed.length < chunk.length then (rgCompressLz4,compressed) else (rgCompressNone,chunk)

def compressRgBody (body : Bytes) : UInt8 × Bytes :=
  if body.length < compressMinBodySize ∨ compression = .none then (rgCompressNone,body)
  else compressFrame codecs compression body

def rgCompressFlag : CompressionType → UInt8
  | .none => rgCompressNone
  | .lz4 => rgCompressLz4
  | .zstd => rgCompressZstd

def frameBytes (frame : UInt8 × Bytes) : Bytes := leBytes 4 frame.2.length ++ frame.1 :: frame.2

def chunkColumns : List Bytes → Bytes → UInt32 → Option (Bytes × List ChunkedColumn)
  | [],payload,_ => some (payload,[])
  | column :: rest,payload,flatOff =>
    if column = [] then none
    else
      let frame := compressFrame codecs compression column
      if frame.2.length > 2^32 - 1 ∨ payload.length > 2^32 - 1 then none
      else do
        let (payload,chunks) ← chunkColumns rest (payload ++ frameBytes frame) (flatOff + UInt32.ofNat column.length)
        return (payload,⟨[⟨UInt32.ofNat frame.2.length⟩],0,flatOff⟩ :: chunks)

def chunkRgBodyWithPrefix (columns : List Bytes) (head : Bytes) : Option (Bytes × List ChunkedColumn) :=
  if compression = .none ∨ columns = [] then none
  else do
    let flatLen := head.length + (columns.map List.length).sum
    let payload := if head = [] then [] else frameBytes (compressFrame codecs compression head)
    let (payload,chunks) ← chunkColumns codecs compression columns payload (UInt32.ofNat head.length)
    return (payload,chunks.map fun column => {column with flatLen := UInt32.ofNat flatLen})

/-- `CHUNK_LAYOUT_MAX_GROWTH` is eight percent. -/
def withinGrowth (payload flatFrame : Nat) : Bool := payload.toFloat / flatFrame.toFloat ≤ 1.0 + 0.08

structure EncodedBody where
  compressFlag : UInt8
  body : Bytes
  chunks : Option (List ChunkedColumn)
  colOffsets : List UInt32

/-- `chunkIndex` is the setting `APEX_CHUNK_INDEX`. -/
def encodeRgBodyWithLayout (chunkIndex : Bool) (flat : Bytes) (ranges : List (Nat × Nat)) (force : Option Bool) :
    EncodedBody :=
  let flatOffsets := ranges.map fun range => UInt32.ofNat range.1
  let chunkable := (force = some true ∨ chunkIndex = true) ∧ compression ≠ .none ∧ compressMinBodySize ≤ flat.length ∧
    ranges ≠ []
  let frame := compressRgBody codecs compression flat
  let whole : EncodedBody := ⟨frame.1,frame.2,none,flatOffsets⟩
  if chunkable ∧ force ≠ some false then
    let columns := ranges.map fun range => (flat.drop range.1).take (range.2 - range.1)
    let head := flat.take ((ranges.head?.map Prod.fst).getD 0)
    match chunkRgBodyWithPrefix codecs compression columns head with
    | none => whole
    | some (payload,chunks) =>
      if force = some true then ⟨rgCompressFlag compression,payload,some chunks,flatOffsets⟩
      else if frame.1 ≠ rgCompressNone ∧ withinGrowth payload.length frame.2.length then
        ⟨frame.1,payload,some chunks,flatOffsets⟩
      else whole
  else whole

def decompressRgBody (compressFlag : UInt8) (compressed : Bytes) : Except Failure (Option Bytes) :=
  if compressFlag = rgCompressNone then .ok none
  else if compressFlag = rgCompressLz4 then
    match codecs.lz4Decompress compressed with
    | .ok body => .ok (some body)
    | .error error => .error (failed ("LZ4 decompress failed: " ++ error))
  else if compressFlag = rgCompressZstd then
    match codecs.zstdContentSize compressed with
    | some size =>
      match codecs.zstdDecompress compressed size with
      | .ok body => .ok (some body)
      | .error error => .error (failed ("Zstd decompress failed: " ++ error))
    | none =>
      match codecs.zstdStream compressed with
      | .ok body => .ok (some body)
      | .error error => .error (.io error)
  else .error (failed s!"Unknown compression flag: {compressFlag}")

def openFrame (frame : Bytes) : Except Failure (UInt8 × Bytes) :=
  if frame.length < chunkFrameHeaderLen then .error (failed "chunked column frame truncated")
  else
    let len := ofLe (frame.take 4)
    if chunkFrameHeaderLen + len > frame.length then .error (failed "chunked column frame truncated")
    else .ok (frame[4]?.getD 0,(frame.drop chunkFrameHeaderLen).take len)

def decompressColumnFrame (frame : Bytes) : Except Failure Bytes := do
  let (flag,body) ← openFrame frame
  match ← decompressRgBody codecs flag body with
  | some bytes => return bytes
  | none => return body

def decompressFrameInto (frame : Bytes) (size : Nat) : Except Failure Bytes := do
  let (flag,body) ← openFrame frame
  let written ←
    if flag = rgCompressNone then pure body
    else if flag = rgCompressZstd then
      match codecs.zstdInto body size with
      | .ok written => pure written
      | .error error => .error (failed ("ZSTD decompress failed: " ++ error))
    else if flag = rgCompressLz4 then
      if body.length < 4 then .error (failed "chunked column frame size mismatch")
      else
        match codecs.lz4Into (body.drop 4) size with
        | .ok written => pure written
        | .error error => .error (failed ("LZ4 decompress failed: " ++ error))
    else .error (failed s!"unsupported chunk frame compression {flag}")
  if written.length ≠ size then .error (failed "chunked column frame size mismatch") else return written

def chunkFrameBytes (raw : Bytes) : Except Failure (Bytes × Bytes) :=
  if raw.length < chunkFrameHeaderLen then .error (failed "chunked frame truncated")
  else
    let frameEnd := chunkFrameHeaderLen + ofLe (raw.take 4)
    if frameEnd > raw.length then .error (failed "chunked frame runs past the row group")
    else .ok (raw.take frameEnd,raw.drop frameEnd)

def splice (out : Bytes) (start : Nat) (bytes : Bytes) :
    Bytes := out.take start ++ (bytes ++ out.drop (start + bytes.length))

def assembleColumn (single : Bool) (stop : Nat) : List ChunkRef → Nat → Bytes → Bytes → Except Failure (Bytes × Bytes)
  | [],_,raw,out => .ok (raw,out)
  | chunk :: rest,cursor,raw,out =>
    let frameEnd := chunkFrameHeaderLen + chunk.len.toNat
    if frameEnd > raw.length then .error (failed "chunked column frame runs past the row group")
    else if single ∧ cursor ≤ stop then do
      let bytes ← decompressFrameInto codecs (raw.take frameEnd) (stop - cursor)
      assembleColumn single stop rest stop (raw.drop frameEnd) (splice out cursor bytes)
    else do
      let bytes ← decompressColumnFrame codecs (raw.take frameEnd)
      if cursor + bytes.length > out.length then .error (failed "chunked column frame exceeds the flat body")
      else assembleColumn single stop rest (cursor + bytes.length) (raw.drop frameEnd) (splice out cursor bytes)

def nextStart (beyond : Nat) (columns : List (Option ChunkedColumn)) : Nat :=
  (columns.findSome? (·.map fun column => column.flatOff.toNat)).getD beyond

def assembleColumns (declared : Nat) : List (Option ChunkedColumn) → Bytes → Bytes → Except Failure Bytes
  | [],_,out => .ok out
  | none :: rest,raw,out => assembleColumns declared rest raw out
  | some column :: rest,raw,out =>
    let start := column.flatOff.toNat
    let stop := nextStart declared rest
    if stop < start ∨ stop > out.length then .error (failed "chunked column frame exceeds the flat body")
    else do
      let (raw,out) ← assembleColumn codecs (column.chunks.length == 1) stop column.chunks start raw out
      assembleColumns declared rest raw out

def assembleChunkedBody (raw : Bytes) (declared : Nat) (columns : List (Option ChunkedColumn)) : Except Failure Bytes :=
  let out := List.replicate declared 0
  let head := min (nextStart 0 columns) declared
  if 0 < head then do
    let (frame,raw) ← chunkFrameBytes raw
    let bytes ← decompressFrameInto codecs frame head
    assembleColumns codecs declared columns raw (splice out 0 bytes)
  else assembleColumns codecs declared columns raw out

end Layout

end ApexBase.GroupFile
