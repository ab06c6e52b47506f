import ApexBase.Blob.Descriptor
import ApexBase.GroupFile.Format
import ApexBase.Library.Assoc
import ApexBase.Library.Run

/-! The vacuum of packed blobs, `vacuum_packed_blobs` and `recover_packed_vacuum`. The calls return
the file operations that they make, so that a crash can come between any two of them. -/
namespace ApexBase.Blob
open Data Library Library.Wire Library.Assoc Column GroupFile
open Storage.Schema (Failure failed)
open Storage.Footer (RowGroupMeta V4Footer)

/-- A column of all row groups, one behind the other, with their deletion vectors. -/
structure Scanned where
  offsets : List Nat
  data : Bytes
  deleted : Bytes

def Scanned.empty : Scanned := ⟨[0],[],[]⟩

def Scanned.append (scanned : Scanned) (deleted : Bytes) : ColumnData → Scanned
  | .binary offsets data =>
    ⟨scanned.offsets ++ offsets.tail.map fun offset => scanned.offsets.getLastD 0 + offset.toNat,scanned.data ++ data,
      scanned.deleted ++ deleted⟩
  | _ => {scanned with deleted := scanned.deleted ++ deleted}

def defaultBlobs (rows : Nat) : ColumnData := .binary (List.replicate (rows + 1) 0) []

def columnType (footer : V4Footer) (column : Nat) : ColumnType :=
  (footer.schema.columns[column]?.map Prod.snd).getD .null

/-- The deletion vector and one column of a row group, with the directory of its columns or without it. -/
def scanGroup (table : Bytes) (footer : V4Footer) (column : Nat) (index : Nat) (rgMeta : RowGroupMeta) :
    Except Failure (Bytes × ColumnData) :=
  let rows := rgMeta.rowCount.toNat
  let stop := rgMeta.offset.toNat + rgMeta.dataSize.toNat
  if stop > table.length then .error (failed "RG extends past EOF")
  else
    let rgBytes := (table.take stop).drop rgMeta.offset.toNat
    let encodingVersion := if 32 ≤ rgBytes.length then rgBytes[29]?.getD 0 else 0
    let body := rgBytes.drop 32
    let bitmapLen := (rows + 7) / 8
    let delStart := rgIdSectionLen rows (rgBytes[30]?.getD rgIdsPlain)
    match (footer.colOffsets[index]?).filter (fun offsets => offsets ≠ []),rgColumnsAreEncoded encodingVersion with
    | some colOffsets,true =>
      let deleted := if delStart + bitmapLen ≤ body.length then (body.drop delStart).take bitmapLen else []
      match colOffsets[column]? with
      | none => .ok (deleted,defaultBlobs rows)
      | some colStart =>
        if colStart.toNat + bitmapLen > body.length then .ok (deleted,defaultBlobs rows)
        else
          match readColumnEncoded (body.drop (colStart.toNat + bitmapLen)) (columnType footer column) with
          | .error error => .error (.io error)
          | .ok (data,_) => .ok (deleted,data)
    | _,_ =>
      if delStart + bitmapLen > body.length then .error (failed "RG deletion vector truncated")
      else do
        -- the source skips the columns that are not asked for
        let columns ← parseColumns encodingVersion rows (footer.schema.columns.map Prod.snd)
          (body.drop (delStart + bitmapLen))
        return ((body.drop delStart).take bitmapLen,(columns[column]?.map Prod.fst).getD (defaultBlobs rows))

/-- The row groups with rows, with their numbers and first rows. -/
def numbered : Nat → Nat → List RowGroupMeta → List (Nat × Nat × RowGroupMeta)
  | _,_,[] => []
  | index,first,rgMeta :: rest =>
    if rgMeta.rowCount = 0 then numbered (index + 1) first rest
    else (index,first,rgMeta) :: numbered (index + 1) (first + rgMeta.rowCount.toNat) rest

def scanColumn (table : Bytes) (footer : V4Footer) (column : Nat) : Except Failure Scanned :=
  (numbered 0 0 footer.rowGroups).foldlM (fun scanned (index,_,rgMeta) => do
    let (deleted,data) ← scanGroup table footer column index rgMeta
    return scanned.append deleted data) .empty

/-- Decodes the columns that come before in an older file. -/
def walkColumns (table : Bytes) (encodingVersion : UInt8) (bitmapLen : Nat) : List ColumnType → Nat → Except Failure Nat
  | [],pos => .ok pos
  | colType :: rest,pos =>
    if pos + bitmapLen > table.length then .error .panicked
    else
      let bytes := table.drop (pos + bitmapLen)
      match (if rgColumnsAreEncoded encodingVersion then readColumnEncoded bytes colType
          else (ColumnData.fromBytesTyped colType).counted bytes) with
      | .error error => .error (.io error)
      | .ok (_,consumed) => walkColumns table encodingVersion bitmapLen rest (pos + bitmapLen + consumed)

/-- The position of the first cell of a column in the file. `rowCount` is the number of offsets to skip. -/
def flatColumnDataStart (table : Bytes) (footer : V4Footer) (index : Nat) (rgMeta : RowGroupMeta)
    (column rowCount : Nat) : Except Failure Nat := do
  let rows := rgMeta.rowCount.toNat
  let base := rgMeta.offset.toNat + 32
  let encodingVersion := table[rgMeta.offset.toNat + 29]?.getD 0
  let bitmapLen := (rows + 7) / 8
  let columnStart ← match (footer.colOffsets[index]?).bind fun columns => columns[column]? with
    | some offset => .ok (base + offset.toNat)
    | none =>
      walkColumns table encodingVersion bitmapLen ((footer.schema.columns.map Prod.snd).take column)
        (base + rgIdSectionLen rows (table[rgMeta.offset.toNat + 30]?.getD 0) + bitmapLen)
  let dataStart := columnStart + bitmapLen
  if rgColumnsAreEncoded encodingVersion then
    if table[dataStart]? = some colEncodingPlain then return dataStart + 1 + (8 + (rowCount + 1) * 4 + 8)
    else .error (failed "vacuum_packed_blobs requires plain binary column encoding")
  else return dataStart + (8 + (rowCount + 1) * 4 + 8)

/-- A packed descriptor in the table: the position of its locator, the offset and the length of the payload. -/
structure Located where
  position : Nat
  offset : Nat
  len : Nat
  deriving DecidableEq

def bitIsSet (bitmap : Bytes) (row : Nat) :
    Bool := (bitmap[row / 8]?.map fun byte => byte.toNat.testBit (row % 8)).getD false

def locateRow (table : Bytes) (scanned : Scanned) (dataStart row : Nat) : Except Failure (Option Located) :=
  if bitIsSet scanned.deleted row then .ok none
  else
    match scanned.offsets[row]?,scanned.offsets[row + 1]? with
    | some start,some stop =>
      if start > stop ∨ stop > scanned.data.length then .ok none
      else
        match packedCell ((scanned.data.drop start).take (stop - start)) with
        | none => .ok none
        | some descriptor =>
          let position := dataStart + start + 22
          if position + 8 > table.length ∨ (table.drop position).take 8 ≠ descriptor.locator then
            .error (failed "packed blob descriptor does not match the table file layout")
          else .ok (some ⟨position,packedOffset descriptor,descriptor.len⟩)
    | _,_ => .error .panicked

def locateGroup (table : Bytes) (footer : V4Footer) (scanned : Scanned) (column : Nat)
    (group : Nat × Nat × RowGroupMeta) :
    Except Failure (List Located) := do
  let dataStart ← flatColumnDataStart table footer group.1 group.2.2 column (scanned.offsets.length - 1)
  let found ← (List.range group.2.2.rowCount.toNat).mapM fun row => locateRow table scanned dataStart (group.2.1 + row)
  return found.filterMap id

def locateColumn (table : Bytes) (footer : V4Footer) (column : Nat) : Except Failure (List Located) := do
  let scanned ← scanColumn table footer column
  let found ← (numbered 0 0 footer.rowGroups).mapM (locateGroup table footer scanned column)
  return found.flatten

def blobColumns (footer : V4Footer) : List Nat :=
  (footer.schema.columns.zipIdx.filter fun entry => entry.1.2 = .blob).map Prod.snd

def locateAll (table : Bytes) (footer : V4Footer) : Except Failure (List Located) := do
  let found ← (blobColumns footer).mapM (locateColumn table footer)
  return found.flatten

def pairLe (a b : Nat × Nat) : Bool := a.1 < b.1 || a.1 == b.1 && a.2 ≤ b.2

def dedup {α : Type} [DecidableEq α] : List α → List α
  | a :: b :: rest => if a = b then dedup (b :: rest) else a :: dedup (b :: rest)
  | short => short

def distinctExtents (located : List Located) : List (Nat × Nat) :=
  dedup ((located.map fun entry => (entry.offset,entry.len)).mergeSort pairLe)

def readExact (file : Bytes) (offset len : Nat) : Except Failure Bytes :=
  if offset + len ≤ file.length ∨ len = 0 then .ok ((file.drop offset).take len)
  else .error (.io ⟨.unexpectedEof,"failed to fill whole buffer"⟩)

/-- The payloads in the order in which they are appended, and the new offsets. It ends at the first
that cannot be read. -/
def copyPayloads (packed : Bytes) : List (Nat × Nat) → Nat → Map Nat Nat → Option Failure × List Bytes × Map Nat Nat
  | [],_,newOffsets => (none,[],newOffsets)
  | (offset,len) :: rest,cursor,newOffsets =>
    match readExact packed offset len with
    | .error error => (some error,[],newOffsets)
    | .ok payload =>
      let (error,payloads,newOffsets) := copyPayloads packed rest (cursor + len) (newOffsets.insert offset cursor)
      (error,payload :: payloads,newOffsets)

structure VacuumFiles where
  table : Bytes
  packed : Option Bytes
  newPacked : Option Bytes
  oldPacked : Option Bytes
  tableCopy : Option Bytes
  journal : Bool

inductive FileOp
  | createNew
  | appendNew (payload : Bytes)
  | copyTable
  | patchCopy (patch : Nat × Bytes)
  | writeJournal
  | removeNew
  | removeOld
  | removeCopy
  | removeJournal
  | packedToOld
  | newToPacked
  | copyToTable

def VacuumFiles.apply (files : VacuumFiles) : FileOp → VacuumFiles
  | .createNew => {files with newPacked := some []}
  | .appendNew payload => {files with newPacked := files.newPacked.map (· ++ payload)}
  | .copyTable => {files with tableCopy := some files.table}
  | .patchCopy patch => {files with tableCopy := files.tableCopy.map (Patch.overwrite · patch)}
  | .writeJournal => {files with journal := true}
  | .removeNew => {files with newPacked := none}
  | .removeOld => {files with oldPacked := none}
  | .removeCopy => {files with tableCopy := none}
  | .removeJournal => {files with journal := false}
  | .packedToOld => {files with packed := none,oldPacked := files.packed}
  | .newToPacked => {files with packed := files.newPacked,newPacked := none}
  | .copyToTable => {files with table := files.tableCopy.getD files.table,tableCopy := none}

def VacuumFiles.applyAll (files : VacuumFiles) (ops : List FileOp) : VacuumFiles := ops.foldl VacuumFiles.apply files

def recoverPackedVacuum (files : VacuumFiles) : List FileOp :=
  if files.journal then
    (if files.newPacked.isSome then (if files.packed.isSome then [.removeOld,.packedToOld] else []) ++ [.newToPacked]
      else []) ++
      ((if files.tableCopy.isSome then [.copyToTable] else []) ++ [.removeOld,.removeJournal])
  else [.removeNew,.removeCopy]

/-- Row groups that are compressed or not flat are refused. -/
def checkGroup (table : Bytes) (rgMeta : RowGroupMeta) : Except Failure Unit :=
  let base := rgMeta.offset.toNat
  if base + 32 > table.length then .error (failed "row group header is outside the table file")
  else if table[base + 28]?.getD 0 ≠ 0 then .error (failed "vacuum_packed_blobs requires uncompressed row groups")
  else if table[base + 29]?.getD 0 > 1 then .error (failed "vacuum_packed_blobs requires flat (non-chunked) row groups")
  else .ok ()

def usesChunkLayout (footer : V4Footer) : Bool := footer.chunkTables.any fun columns => columns.any Option.isSome

/-- What the vacuum finds out before it writes anything: nothing to do, or the descriptors and the packed file. -/
def prepareVacuum (settled : Bool) (footer : V4Footer) (files : VacuumFiles) :
    Except Failure (Option (List Located × Bytes)) :=
  if !settled then .error (failed "vacuum_packed_blobs requires a flushed table with no pending writes")
  else if blobColumns footer = [] then .ok none
  else
    match files.packed with
    | none => .ok none
    | some packed =>
      if usesChunkLayout footer then
        .error (failed "vacuum_packed_blobs requires flat row groups (chunked tables are not supported yet)")
      else do
        footer.rowGroups.forM (checkGroup files.table)
        let located ← locateAll files.table footer
        return if located = [] then none else some (located,packed)

def patches (located : List Located) (newOffsets : Map Nat Nat) : Option (List (Nat × Bytes)) :=
  located.mapM fun entry => (newOffsets.lookup entry.offset).map fun offset => (entry.position,leBytes 8 offset)

/-- The result and the operations. The number that is returned is what was saved. -/
def vacuumPackedBlobs (settled : Bool) (footer : V4Footer) (files : VacuumFiles) : Except Failure Nat × List FileOp :=
  match prepareVacuum settled footer files with
  | .error error => (.error error,[])
  | .ok none => (.ok 0,[])
  | .ok (some (located,packed)) =>
    let (error,payloads,newOffsets) := copyPayloads packed (distinctExtents located) 0 ∅
    let writes := .createNew :: payloads.map .appendNew
    match error with
    | some error => (.error error,writes)
    | none =>
      match patches located newOffsets with
      | none => (.error (failed "packed blob payload is missing from the vacuum copy"),writes ++ [.copyTable])
      | some patches =>
        let prepared := writes ++ (.copyTable :: (patches.map .patchCopy ++ [.writeJournal]))
        (.ok (packed.length - (payloads.map List.length).sum),prepared ++ recoverPackedVacuum (files.applyAll prepared))

end ApexBase.Blob
