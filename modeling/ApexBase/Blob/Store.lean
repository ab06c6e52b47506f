import ApexBase.Blob.Complete
import ApexBase.Library.Run

/-! The blobs of a table, `storage/on_demand/blob.rs`: where a payload is written, and how it is read
back. The packed file, the objects and the map of what is in the packed file are explicit. -/
namespace ApexBase.Blob
open Data Library Library.Wire Library.Assoc
open Storage.Schema (Failure failed)
open Storage.Footer (V4Footer)

def blobInlineThreshold : Nat := 64 * 1024

def blobPackedThreshold : Nat := 4 * 1024 * 1024

def fileLimit : Nat := 2^63 - 1

/-- A live row of the table file with a blob that is not null, and the payload that was written for it. -/
structure Row where
  column : Nat
  row : Nat
  payload : Bytes
  deriving DecidableEq

/-- The key of a packed payload: the path of the table, the length and the checksum. -/
abbrev PackedKey := String × Nat × UInt32

structure BlobStore where
  path : String
  inMemory : Bool
  footer : V4Footer
  files : VacuumFiles
  objects : Map String Bytes
  /-- `BLOB_PACKED_DEDUP`. It has the payloads of all tables of the process. -/
  packedDedup : Map PackedKey UInt64
  objectCounter : UInt64
  /-- The descriptors in rows that are not in the table file, with the payloads that were written. -/
  pending : List (Bytes × Bytes)
  rows : List Row

def hexDigit (value : Nat) : Char := "0123456789abcdef".toList[value]?.getD '0'

def hex (bytes : Bytes) : String := String.ofList (bytes.flatMap fun byte =>
    [hexDigit (byte.toNat / 16),hexDigit (byte.toNat % 16)])

def hexNat (width value : Nat) : String := hex (leBytes width value).reverse

/-- The digests of the crates `md5` and `crc32fast`. -/
class Digests where
  md5 : Bytes → Vector UInt8 16
  crc32 : Bytes → UInt32

open Digests (md5 crc32)
variable [Digests]

/-- The name of an object that is found by its content. -/
def contentId (value : Bytes) : String :=
  hex (md5 value).toList ++ "-" ++ hexNat 4 (crc32 value).toNat ++ "-" ++ toString value.length ++ ".blob"

def batchId (batch : Nat) (seq : UInt64) (checksum : UInt32) (len : Nat) : String :=
  hexNat 16 batch ++ "-" ++ hexNat 8 seq.toNat ++ "-" ++ hexNat 4 checksum.toNat ++ "-" ++ toString len ++ ".blob"

def encodeInline (value : Bytes) : Bytes := encodeBlobDescriptor modeInline value.length (crc32 value) value

def encodePacked (value : Bytes) (offset : UInt64) : Bytes :=
  encodeBlobDescriptor modePacked value.length (crc32 value) (leBytes 8 offset.toNat)

def encodeDedicated (value : Bytes) (objectId : String) : Bytes :=
  encodeBlobDescriptor modeDedicated value.length (crc32 value) (utf8 objectId)

namespace BlobStore

variable (store : BlobStore)

def packedKey (value : Bytes) : PackedKey := (store.path,value.length,crc32 value)

def packedLen : Nat := (store.files.packed.getD []).length

/-- A write to the end of the packed file. A file that is full takes the first bytes only. -/
def appendPacked (value : Bytes) : BlobStore :=
  {store with files := {store.files with
    packed := some (store.files.packed.getD [] ++ value.take (fileLimit - store.packedLen))}}

def packedRoom (value : Bytes) : Bool := store.packedLen + value.length ≤ fileLimit

def createObject (objectId : String) (value : Bytes) :
    BlobStore := {store with objects := store.objects.insert objectId (value.take fileLimit)}

/-- The descriptor, none if the write failed. -/
def writeBlobValue (value : Bytes) : Option Bytes × BlobStore :=
  if store.inMemory || value.length ≤ blobInlineThreshold then (some (encodeInline value),store)
  else if value.length ≤ blobPackedThreshold then
    (if store.packedRoom value then some (encodePacked value (UInt64.ofNat store.packedLen))
      else none,store.appendPacked value)
  else
    let objectId := contentId value
    if (store.objects.lookup objectId).isSome then (some (encodeDedicated value objectId),store)
    else (if value.length ≤ fileLimit then some (encodeDedicated value objectId)
      else none,store.createObject objectId value)

/-- The map is emptied when it is full. -/
def rememberPacked (value : Bytes) (offset : UInt64) : BlobStore :=
  {store with packedDedup :=
    (if 4096 ≤ store.packedDedup.entries.length then ∅ else store.packedDedup).insert (store.packedKey value) offset}

/-- The first name that no object has, and the counter behind it. The loop of the source ends if
fewer than `2^64` names are taken. -/
def freshObjectId (batch : Nat) (checksum : UInt32) (len : Nat) : Nat → UInt64 → Option (String × UInt64)
  | 0,_ => none
  | fuel + 1,seq =>
    let objectId := batchId batch seq checksum len
    if (store.objects.lookup objectId).isSome then freshObjectId batch checksum len fuel (seq + 1)
    else some (objectId,seq + 1)

end BlobStore

/-- The variables of the loop of `write_blob_values`. `cursor` is the end of the packed file once it was opened. -/
structure BatchState where
  store : BlobStore
  packedDedup : Map (Nat × UInt32) UInt64
  cursor : Option Nat

def BatchState.writePacked (state : BatchState) (value : Bytes) : Option Bytes × BatchState :=
  let shared := state.store.packedDedup.lookup (state.store.packedKey value)
  match (state.packedDedup.lookup (value.length,crc32 value)).or shared with
  | some offset => (some (encodePacked value offset),state)
  | none =>
    let start := state.cursor.getD state.store.packedLen
    let offset := UInt64.ofNat start
    let appended := state.store.appendPacked value
    if state.store.packedRoom value then
      (some (encodePacked value offset),
        ⟨appended.rememberPacked value offset,state.packedDedup.insert (value.length,crc32 value) offset,
          some (start + value.length)⟩)
    else (none,{state with store := appended})

def BatchState.writeDedicated (batch : Nat) (state : BatchState) (value : Bytes) : Option Bytes × BatchState :=
  match state.store.freshObjectId batch (crc32 value) value.length (state.store.objects.entries.length + 1)
      state.store.objectCounter with
  | none => (none,state)
  | some (objectId,counter) =>
    (if value.length ≤ fileLimit then some (encodeDedicated value objectId) else none,
      {state with store := {state.store.createObject objectId value with objectCounter := counter}})

def BatchState.write (batch : Nat) (state : BatchState) (value : Bytes) : Option Bytes × BatchState :=
  if value.length ≤ blobInlineThreshold then (some (encodeInline value),state)
  else if value.length ≤ blobPackedThreshold then state.writePacked value
  else state.writeDedicated batch value

/-- The loop. It ends at the first write that fails. -/
def BatchState.writeAll (batch : Nat) : BatchState → List Bytes → Option (List Bytes) × BatchState
  | state,[] => (some [],state)
  | state,value :: rest =>
    match state.write batch value with
    | (none,next) => (none,next)
    | (some descriptor,next) =>
      let (descriptors,final) := writeAll batch next rest
      (descriptors.map (descriptor :: ·),final)

def verified (descriptor : BlobDescriptor) (data : Bytes) : Except Failure Bytes :=
  if data.length ≠ descriptor.len then .error (failed "Blob length mismatch")
  else if crc32 data ≠ descriptor.checksum then .error (failed "Blob checksum mismatch")
  else .ok data

def sliceOf (bytes : Bytes) (offset : Nat) (length : Option Nat) : Bytes :=
  let start := min offset bytes.length
  let stop := (length.map fun len => min (start + len) bytes.length).getD bytes.length
  (bytes.take stop).drop start

/-- `blob_descriptor_bounds`. -/
def Scanned.cell (scanned : Scanned) (row : Nat) : Option Bytes :=
  match scanned.offsets[row]?,scanned.offsets[row + 1]? with
  | some start,some stop => if start > stop ∨ stop > scanned.data.length then none
    else some ((scanned.data.drop start).take (stop - start))
  | _,_ => none

/-- What a column of a table file has in a row. -/
def cellAt (footer : V4Footer) (table : Bytes) (column row : Nat) : Option Bytes :=
  match scanColumn table footer column with
  | .error _ => none
  | .ok scanned => Scanned.cell scanned row

/-- The objects that rows of a column name. The deletion vectors of the row groups are taken one behind the other. -/
def liveObjects (scanned : Scanned) : List String :=
  (List.range (scanned.offsets.length - 1)).filterMap fun row =>
    if bitIsSet scanned.deleted row then none
    else do
      let bytes ← Scanned.cell scanned row
      let descriptor ← decodeBlobDescriptor bytes
      if descriptor.mode = modeDedicated then fromUtf8 descriptor.locator else none

namespace BlobStore

variable (store : BlobStore)

def writeBlobValues (batch : Nat) (values : List Bytes) : Option (List Bytes) × BlobStore :=
  if store.inMemory then (some (values.map encodeInline),store)
  else
    let (descriptors,final) := BatchState.writeAll batch ⟨store,∅,none⟩ values
    (descriptors,final.store)

def forgetBlobPackedDedup : BlobStore :=
  {store with packedDedup := retain (fun key _ => key.1 ≠ store.path) store.packedDedup}

def readPackedBlobAt (offset len : Nat) : Except Failure Bytes :=
  match store.files.packed with
  | none => .error (.io ⟨.notFound,"No such file or directory"⟩)
  | some packed => readExact packed offset len

def readObject (locator : Bytes) : Except Failure Bytes :=
  match fromUtf8 locator with
  | none => .error (failed "Invalid dedicated blob object id")
  | some objectId =>
    match store.objects.lookup objectId with
    | none => .error (.io ⟨.notFound,"No such file or directory"⟩)
    | some data => .ok data

def readBlobValue (bytes : Bytes) : Except Failure Bytes :=
  match decodeBlobDescriptor bytes with
  | none => .ok bytes
  | some descriptor => do
    let data ←
      if descriptor.mode = modeInline then .ok descriptor.locator
      else if descriptor.mode = modePacked then
        if descriptor.locator.length ≠ 8 then .error (failed "Invalid packed blob descriptor")
        else store.readPackedBlobAt (packedOffset descriptor) descriptor.len
      else if descriptor.mode = modeDedicated then store.readObject descriptor.locator
      else if descriptor.mode = modeExternal then
        .error (failed "External blob URI descriptors are not materialized locally")
      else .error (failed "Unknown blob descriptor mode")
    verified descriptor data

/-- The part of the payload that both readers of ranges read. A locator that is too short makes them panic. -/
def readRange (descriptor : BlobDescriptor) (offset readLen : Nat) : Except Failure Bytes :=
  if descriptor.mode = modeInline then
    if offset + readLen ≤ descriptor.locator.length then .ok ((descriptor.locator.drop offset).take readLen)
    else .error .panicked
  else if descriptor.mode = modePacked then
    if descriptor.locator.length ≠ 8 then .error (failed "Invalid packed blob descriptor")
    else store.readPackedBlobAt (packedOffset descriptor + offset) readLen
  else if descriptor.mode = modeDedicated then do
    let data ← store.readObject descriptor.locator
    readExact data offset readLen
  else if descriptor.mode = modeExternal then
    .error (failed "External blob URI descriptors are not materialized locally")
  else .error (failed "Unknown blob descriptor mode")

def readBlobValueRange (bytes : Bytes) (offset : UInt64) (length : Option Nat) : Except Failure Bytes :=
  match decodeBlobDescriptor bytes with
  | none => .ok (sliceOf bytes offset.toNat length)
  | some descriptor =>
    if descriptor.len ≤ offset.toNat then .ok []
    else
      let maxLen := descriptor.len - offset.toNat
      store.readRange descriptor offset.toNat (min (length.getD maxLen) maxLen)

/-- The packed file is opened once for a batch of reads. -/
def readBlobDescWithCache (descriptor : BlobDescriptor) (range : Option (UInt64 × Option Nat)) (verifyFull : Bool) :
    Except Failure Bytes :=
  let offset := (range.map fun range => range.1.toNat).getD 0
  let length := range.bind fun range => range.2
  if descriptor.len ≤ offset then .ok []
  else
    let maxLen := descriptor.len - offset
    let readLen := min (length.getD maxLen) maxLen
    do
      let data ← store.readRange descriptor offset readLen
      if verifyFull && offset == 0 && readLen == descriptor.len then verified descriptor data else .ok data

def readBlobBytesWithCache (bytes : Bytes) (range : Option (UInt64 × Option Nat)) : Except Failure Bytes :=
  match decodeBlobDescriptor bytes with
  | none => .ok (sliceOf bytes ((range.map fun range => range.1.toNat).getD 0) (range.bind fun range => range.2))
  | some descriptor => store.readBlobDescWithCache descriptor range range.isNone

def cell (entry : Row) : Option Bytes := cellAt store.footer store.files.table entry.column entry.row

def allLiveObjects : Except Failure (List String) := do
  let found ← (blobColumns store.footer).mapM fun column => do
    let scanned ← scanColumn store.files.table store.footer column
    return liveObjects scanned
  return found.flatten

/-- There is nothing that is not in the table file. -/
def settled : Bool := store.pending.isEmpty

def vacuumBlobObjects : BlobStore :=
  if !store.settled || (blobColumns store.footer).isEmpty then store
  else
    match store.allLiveObjects with
    | .error _ => store
    | .ok live => {store with objects := retain (fun objectId _ => live.contains objectId) store.objects}

def vacuumPacked : BlobStore :=
  {store with files := store.files.applyAll (vacuumPackedBlobs store.settled store.footer store.files).2}

def held : List (Bytes × Bytes) := store.pending ++ store.rows.filterMap fun entry =>
    (store.cell entry).map fun bytes => (bytes,entry.payload)

end BlobStore

abbrev Payload := {bytes : Bytes // bytes.length < 2^63}

inductive BlobCall
  | writeBlobValue (value : Payload)
  | writeBlobValues (batch : Nat) (values : List Payload)
  | forgetBlobPackedDedup
  | vacuumBlobObjects
  | vacuumPackedBlobs
  /-- The table stores rows, deletes rows or writes its file anew. Its rows have descriptors that it had. -/
  | save (footer : V4Footer) (table : Bytes) (pending : List (Bytes × Bytes)) (rows : List Row)

namespace BlobStore

def saves (store : BlobStore) (footer : V4Footer) (table : Bytes) (pending : List (Bytes × Bytes)) (rows : List Row) :
    Bool :=
  pending.all (fun entry => entry ∈ store.held) &&
  rows.all fun entry => entry.column ∈ blobColumns footer &&
    match cellAt footer table entry.column entry.row with
    | none => false
    | some bytes => (bytes,entry.payload) ∈ store.held

def exec (store : BlobStore) : BlobCall → Option (List Bytes × BlobStore)
  | .writeBlobValue value =>
    let (descriptor,next) := store.writeBlobValue value.val
    some (descriptor.toList,{next with pending := next.pending ++ descriptor.toList.map fun bytes => (bytes,value.val)})
  | .writeBlobValues batch values =>
    let (descriptors,next) := store.writeBlobValues batch (values.map Subtype.val)
    some (descriptors.getD [],{next with pending := next.pending ++ (descriptors.getD []).zip (values.map Subtype.val)})
  | .forgetBlobPackedDedup => some ([],store.forgetBlobPackedDedup)
  | .vacuumBlobObjects => some ([],store.vacuumBlobObjects)
  | .vacuumPackedBlobs => some ([],store.vacuumPacked)
  | .save footer table pending rows =>
    if store.saves footer table pending rows then
      some ([],{store with footer := footer,files := {store.files with table := table},pending := pending,rows := rows})
    else none

end BlobStore

end ApexBase.Blob
