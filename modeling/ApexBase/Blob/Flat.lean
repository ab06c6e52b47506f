import ApexBase.Blob.Vacuum
import ApexBase.Column.Payload

/-! Tables of uncompressed flat row groups, and what the vacuum finds in them. -/
namespace ApexBase.Blob
open Data Library Library.Wire Column Column.ColumnData GroupFile
open Storage.Schema (Failure failed)
open Storage.Footer (RowGroupMeta V4Footer)

/-- A column of a row group. Of the columns that hold no blobs only the bytes matter. -/
inductive Section
  | blobs (nulls : Bytes) (cells : List Bytes)
  | other (bytes : Bytes)

def ends : Nat → List Bytes → List Nat
  | start,[] => [start]
  | start,cell :: rest => start :: ends (start + cell.length) rest

def blobData (cells : List Bytes) : ColumnData := .binary ((ends 0 cells).map UInt64.ofNat) cells.flatten

def cellsHead (cells : List Bytes) : Bytes :=
  leBytes 8 cells.length ++ (u32Bytes (offsetsToU32 ((ends 0 cells).map UInt64.ofNat)) ++
    leBytes 8 cells.flatten.length)

def Section.bytes : Section → Bytes
  | .blobs nulls cells => nulls ++ (colEncodingPlain :: (cellsHead cells ++ cells.flatten))
  | .other bytes => bytes

structure FlatGroup where
  rows : Nat
  /-- The header up to its flags. -/
  head : Bytes
  idEncoding : UInt8
  ids : Bytes
  deleted : Bytes
  columns : List Section

namespace FlatGroup

variable (group : FlatGroup)

def flags : Bytes := [rgCompressNone,rgEncodingVersion,group.idEncoding,0]

def bodyFront : Bytes := group.ids ++ group.deleted

def body : Bytes := group.bodyFront ++ (group.columns.map Section.bytes).flatten

def bytes : Bytes := group.head ++ (group.flags ++ group.body)

def start (column : Nat) : Nat :=
  group.bodyFront.length + ((group.columns.take column).map Section.bytes).flatten.length

def directory : List UInt32 := (List.range group.columns.length).map fun column => UInt32.ofNat (group.start column)

end FlatGroup

structure Section.Fits (rows : Nat) (nulls : Bytes) (cells : List Bytes) : Prop where
  bitmap : nulls.length = (rows + 7) / 8
  count : cells.length = rows
  size : cells.flatten.length < 2^32

structure FlatGroup.Fits (group : FlatGroup) : Prop where
  head : group.head.length = 28
  ids : group.ids.length = rgIdSectionLen group.rows group.idEncoding
  deleted : group.deleted.length = (group.rows + 7) / 8
  rows : group.rows < 2^32
  body : group.body.length < 2^32
  columns : ∀ nulls cells, .blobs nulls cells ∈ group.columns → Section.Fits group.rows nulls cells

/-- A table file: row groups with whatever lies between them. -/
structure FlatTable where
  lead : Bytes
  groups : List (Bytes × FlatGroup)
  tail : Bytes

def groupsBytes : List (Bytes × FlatGroup) → Bytes
  | [] => []
  | (gap,group) :: rest => gap ++ (group.bytes ++ groupsBytes rest)

def FlatTable.bytes (table : FlatTable) : Bytes := table.lead ++ (groupsBytes table.groups ++ table.tail)

structure Meta (position : Nat) (group : FlatGroup) (colOffsets : Option (List UInt32)) (rgMeta : RowGroupMeta) :
    Prop where
  offset : rgMeta.offset.toNat = position
  size : rgMeta.dataSize.toNat = group.bytes.length
  rows : rgMeta.rowCount.toNat = group.rows
  directory : group.rows ≠ 0 → colOffsets = some group.directory

/-- The entries of the footer, from a row group and a position on. -/
def Describes (footer : V4Footer) : Nat → Nat → List RowGroupMeta → List (Bytes × FlatGroup) → Prop
  | _,_,[],[] => True
  | index,position,rgMeta :: metas,(gap,group) :: groups =>
    Meta (position + gap.length) group footer.colOffsets[index]? rgMeta ∧
      Describes footer (index + 1) (position + gap.length + group.bytes.length) metas groups
  | _,_,_,_ => False

/-- The file is one that was flushed with flat row groups, and the footer describes it. -/
structure Flat (footer : V4Footer) (table : FlatTable) : Prop where
  chunks : usesChunkLayout footer = false
  fits : ∀ entry ∈ table.groups, entry.2.Fits
  metas : Describes footer 0 table.lead.length footer.rowGroups table.groups
  blobs : ∀ entry ∈ table.groups, ∀ column ∈ blobColumns footer, ∀ bytes, entry.2.columns[column]? ≠ some (.other bytes)

/-- The cells of a column, none if the row group was written before there was the column. -/
def FlatGroup.cells (group : FlatGroup) (column : Nat) : List Bytes :=
  match group.columns[column]? with
  | some (.blobs _ cells) => cells
  | _ => []

section Cells

section
variable (start : Nat) (cells : List Bytes)

theorem length_ends : (ends start cells).length = cells.length + 1 := by
  induction cells generalizing start with
  | nil => rfl
  | cons cell rest ih => rw [ends,List.length_cons,ih,List.length_cons]

theorem getElem?_ends {row : Nat} (inside : row ≤ cells.length) :
    (ends start cells)[row]? = some (start + (cells.take row).flatten.length) := by
  induction cells generalizing start row with
  | nil =>
    have zero : row = 0 := Nat.le_zero.mp inside
    subst zero
    rfl
  | cons cell rest ih =>
    cases row with
    | zero => rfl
    | succ row =>
      rw [ends,List.getElem?_cons_succ,ih (start + cell.length) (Nat.le_of_succ_le_succ inside),List.take_succ_cons,
        List.flatten_cons,List.length_append]
      congr 1
      omega

theorem ends_le : ∀ offset ∈ ends start cells, offset ≤ start + cells.flatten.length := by
  induction cells generalizing start with
  | nil =>
    intro offset member
    cases List.mem_singleton.mp member
    exact Nat.le_add_right _ _
  | cons cell rest ih =>
    intro offset member
    rw [List.flatten_cons,List.length_append]
    rcases List.mem_cons.mp member with rfl | later
    · exact Nat.le_add_right _ _
    · have bound := ih (start + cell.length) offset later
      omega

end

theorem ends_append (start : Nat) (first second : List Bytes) :
    ends start (first ++ second) = ends start first ++ (ends (start + first.flatten.length) second).tail := by
  induction first generalizing start with
  | nil =>
    cases second <;> rfl
  | cons cell rest ih =>
    rw [List.cons_append,ends,ih,ends,List.flatten_cons,List.length_append,Nat.add_assoc,List.cons_append]

theorem ends_shift (by_ start : Nat) (cells : List Bytes) :
    ends (by_ + start) cells = (ends start cells).map (by_ + ·) := by
  induction cells generalizing start with
  | nil => rfl
  | cons cell rest ih => rw [ends,ends,List.map_cons,Nat.add_assoc,ih]

theorem read_cells {footerType : ColumnType} (blob : footerType = .blob) {rows : Nat} {nulls : Bytes}
    {cells : List Bytes} (fits : Section.Fits rows nulls cells) (small : rows < 2^32) (rest : Bytes) :
    ∃ consumed, readColumnEncoded (colEncodingPlain :: (cellsHead cells ++ cells.flatten) ++ rest) footerType =
    .ok (blobData cells,consumed) := by
  have bound : ∀ offset ∈ (ends 0 cells).map UInt64.ofNat, offset.toNat ≤ 2^32 - 1 := by
    intro offset member
    obtain ⟨value,inside,rfl⟩ := List.mem_map.mp member
    have below := ends_le 0 cells value inside
    have size := fits.size
    rw [UInt64.toNat_ofNat',Nat.mod_eq_of_lt (by omega)]
    omega
  have count := fits.count
  have lens : ((ends 0 cells).map UInt64.ofNat).length = cells.length + 1 := by rw [List.length_map,length_ends]
  have reads := yields_readOffsets "Binary" .binary ((ends 0 cells).map UInt64.ofNat) cells.flatten
    (fun empty => by rw [empty] at lens; cases lens) (by rw [lens]; omega) (by have size := fits.size; omega) bound
  rw [lens,Nat.add_sub_cancel] at reads
  have found := reads.counted rest
  subst blob
  refine ⟨1 + (leBytes 8 cells.length ++ (u32Bytes (offsetsToU32 ((ends 0 cells).map UInt64.ofNat)) ++
    (leBytes 8 cells.flatten.length ++ cells.flatten))).length,?_⟩
  rw [List.cons_append,readColumnEncoded,readPayload,if_pos rfl]
  have same : cellsHead cells ++ cells.flatten ++ rest = (leBytes 8 cells.length ++
    (u32Bytes (offsetsToU32 ((ends 0 cells).map UInt64.ofNat)) ++
      (leBytes 8 cells.flatten.length ++ cells.flatten))) ++ rest := by
    simp only [cellsHead,List.append_assoc]
  rw [same]
  change ((readOffsets "Binary" .binary).counted _ >>= fun found => pure (found.1,1 + found.2)) = _
  rw [found]
  rfl

end Cells

section Group

variable {group : FlatGroup} {column : Nat} {nulls : Bytes} {cells : List Bytes}

theorem take_drop_middle (before middle after : Bytes) :
    ((before ++ (middle ++ after)).take (before.length + middle.length)).drop before.length = middle := by
  rw [← List.append_assoc,List.take_left' (List.length_append),List.drop_left' rfl]

theorem length_bytes (fits : group.Fits) : group.bytes.length = 32 + group.body.length := by
  rw [FlatGroup.bytes,List.length_append,List.length_append,fits.head,FlatGroup.flags]
  simp only [List.length_cons,List.length_nil]
  omega

theorem flag_at (fits : group.Fits) {position : Nat} (inside : position < 4) :
    group.bytes[28 + position]? = group.flags[position]? := by
  rw [FlatGroup.bytes,List.getElem?_append_right (by rw [fits.head]; omega),fits.head,Nat.add_sub_cancel_left,
    List.getElem?_append_left (by simp only [FlatGroup.flags,List.length_cons,List.length_nil]; omega)]

theorem body_of_bytes (fits : group.Fits) : group.bytes.drop 32 = group.body := by
  have split_ : group.bytes = (group.head ++ group.flags) ++ group.body := by rw [FlatGroup.bytes,List.append_assoc]
  rw [split_,List.drop_left' (by rw [List.length_append,fits.head]; rfl)]

theorem body_drop {content : Section} (there : group.columns[column]? = some content) :
    group.body.drop (group.start column) = content.bytes ++
    ((group.columns.drop (column + 1)).map Section.bytes).flatten := by
  obtain ⟨inside,same⟩ := List.getElem?_eq_some_iff.mp there
  have split_ : group.columns = group.columns.take column ++ (content :: group.columns.drop (column + 1)) := by
    rw [← same,List.getElem_cons_drop,List.take_append_drop]
  have whole : group.body = (group.bodyFront ++ ((group.columns.take column).map Section.bytes).flatten) ++
      (content.bytes ++ ((group.columns.drop (column + 1)).map Section.bytes).flatten) := by
    rw [FlatGroup.body]
    conv_lhs => rw [split_]
    rw [List.map_append,List.flatten_append,List.map_cons,List.flatten_cons,List.append_assoc]
  rw [whole,List.drop_left' (by rw [List.length_append,FlatGroup.start])]

theorem start_le {content : Section} (there : group.columns[column]? = some content) :
    group.start column + content.bytes.length ≤ group.body.length := by
  have dropped := congrArg List.length (body_drop there)
  have content_ : content.bytes.length ≤ group.body.length - group.start column := by
    rw [List.length_drop] at dropped
    rw [dropped,List.length_append]
    exact Nat.le_add_right _ _
  by_cases behind : group.start column ≤ group.body.length
  · omega
  · -- the columns before it are part of the body
    have below : group.start column ≤ group.body.length := by
      have split_ : group.columns.map Section.bytes = (group.columns.take column).map Section.bytes ++
        (group.columns.drop column).map Section.bytes := by
        rw [← List.map_append,List.take_append_drop]
      rw [FlatGroup.start,FlatGroup.body,List.length_append,split_,List.flatten_append,List.length_append]
      omega
    exact absurd below behind

theorem directory_at {content : Section} (fits : group.Fits) (there : group.columns[column]? = some content) :
    ∃ offset, group.directory[column]? = some offset ∧ offset.toNat = group.start column := by
  obtain ⟨inside,-⟩ := List.getElem?_eq_some_iff.mp there
  refine ⟨UInt32.ofNat (group.start column),?_,?_⟩
  · rw [FlatGroup.directory,List.getElem?_map,List.getElem?_range inside,Option.map_some]
  · have bound := start_le there
    have small := fits.body
    rw [UInt32.toNat_ofNat',Nat.mod_eq_of_lt (by omega)]

theorem mem_columns {content : Section} (there : group.columns[column]? = some content) :
    content ∈ group.columns := List.mem_of_getElem? there

theorem bitmap_le (fits : group.Fits) (there : group.columns[column]? = some (.blobs nulls cells)) :
    group.start column + (group.rows + 7) / 8 < group.body.length := by
  have bound := start_le there
  have bitmap := (fits.columns nulls cells (mem_columns there)).bitmap
  rw [Section.bytes,List.length_append,List.length_cons,bitmap] at bound
  omega

theorem column_drop (fits : group.Fits) (there : group.columns[column]? = some (.blobs nulls cells)) :
    group.body.drop (group.start column + (group.rows + 7) / 8) =
      colEncodingPlain :: (cellsHead cells ++ cells.flatten) ++
      ((group.columns.drop (column + 1)).map Section.bytes).flatten := by
  rw [← List.drop_drop,body_drop there,Section.bytes,List.append_assoc,
    List.drop_left' (fits.columns nulls cells (mem_columns there)).bitmap]

theorem deleted_at (fits : group.Fits) :
    (group.body.drop (rgIdSectionLen group.rows group.idEncoding)).take ((group.rows + 7) / 8) = group.deleted ∧
    rgIdSectionLen group.rows group.idEncoding + (group.rows + 7) / 8 ≤ group.body.length := by
  have ids := fits.ids
  have deleted := fits.deleted
  refine ⟨?_,?_⟩
  · rw [FlatGroup.body,FlatGroup.bodyFront,List.append_assoc,List.drop_left' ids,List.take_left' deleted]
  · rw [FlatGroup.body,FlatGroup.bodyFront,List.length_append,List.length_append]
    omega

variable {before after : Bytes} {footer : V4Footer} {index : Nat} {rgMeta : RowGroupMeta}

section
variable (fits : group.Fits) (some_ : group.rows ≠ 0)
    (described : Meta before.length group footer.colOffsets[index]? rgMeta)
variable (there : group.columns[column]? = some (.blobs nulls cells))
include fits some_ described there

theorem scanGroup_blobs (blob : columnType footer column = .blob) :
    scanGroup (before ++ (group.bytes ++ after)) footer column index rgMeta = .ok (group.deleted,blobData cells) := by
  obtain ⟨offset,found,starts⟩ := directory_at fits there
  have room : ¬ before.length + group.bytes.length > (before ++ (group.bytes ++ after)).length := by
    rw [List.length_append,List.length_append]
    omega
  have long : 32 ≤ group.bytes.length := by rw [length_bytes fits]; exact Nat.le_add_right _ _
  have version : group.bytes[29]?.getD 0 = rgEncodingVersion := by rw [flag_at fits (show 1 < 4 by omega)]; rfl
  have ids : group.bytes[30]?.getD rgIdsPlain = group.idEncoding := by rw [flag_at fits (show 2 < 4 by omega)]; rfl
  have listed : (some group.directory).filter (fun offsets => decide (offsets ≠ [])) = some group.directory := by
    refine Option.filter_eq_some_iff.mpr ⟨rfl,decide_eq_true fun empty => ?_⟩
    rw [empty] at found
    cases found
  obtain ⟨deletedIs,deletedFits⟩ := deleted_at fits
  obtain ⟨consumed,read⟩ := read_cells blob (fits.columns nulls cells (mem_columns there)) fits.rows
    ((group.columns.drop (column + 1)).map Section.bytes).flatten
  unfold scanGroup
  rw [described.offset,described.size,described.rows,if_neg room,take_drop_middle,described.directory some_,listed]
  dsimp only
  rw [if_pos long,version,ids,body_of_bytes fits,if_pos deletedFits,deletedIs,
    show rgColumnsAreEncoded rgEncodingVersion = true from rfl]
  dsimp only
  rw [found]
  dsimp only
  rw [starts,if_neg (by have inside := bitmap_le fits there; omega),column_drop fits there,read]

theorem dataStart_blobs (rowCount : Nat) :
    flatColumnDataStart (before ++ (group.bytes ++ after)) footer index rgMeta column rowCount =
      .ok (before.length + 32 + group.start column + (group.rows + 7) / 8 + 1 + (8 + (rowCount + 1) * 4 + 8)) := by
  obtain ⟨offset,found,starts⟩ := directory_at fits there
  have long := length_bytes fits
  have version : (before ++ (group.bytes ++ after))[before.length + 29]?.getD 0 = rgEncodingVersion := by
    rw [List.getElem?_append_right (Nat.le_add_right _ _),Nat.add_sub_cancel_left,List.getElem?_append_left (by omega),
      flag_at fits (show 1 < 4 by omega)]
    rfl
  have plain : (before ++ (group.bytes ++ after))[before.length + 32 + group.start column + (group.rows + 7) / 8]? =
    some colEncodingPlain := by
    have inside := bitmap_le fits there
    have content := column_drop fits there
    rw [Nat.add_assoc,Nat.add_assoc,List.getElem?_append_right (Nat.le_add_right _ _),Nat.add_sub_cancel_left,
      List.getElem?_append_left (by omega),
      ← List.getElem?_drop,body_of_bytes fits]
    have first : (group.body.drop (group.start column + (group.rows + 7) / 8))[0]? =
      some colEncodingPlain := by rw [content]; rfl
    rw [List.getElem?_drop,Nat.add_zero] at first
    exact first
  unfold flatColumnDataStart
  rw [described.offset,described.rows,described.directory some_,version]
  dsimp only [Option.bind_some]
  rw [found]
  simp only [bind,Except.bind,pure,Except.pure]
  rw [starts,plain]
  rfl

end

end Group

section Scan

theorem getLastD_ends (start fallback : Nat) (cells : List Bytes) :
    (ends start cells).getLastD fallback = start + cells.flatten.length := by
  induction cells generalizing start fallback with
  | nil => rfl
  | cons cell rest ih =>
    rw [ends,List.getLastD_cons,ih,List.flatten_cons,List.length_append,Nat.add_assoc]

def scannedCells (cells : List Bytes) (deleted : Bytes) : Scanned := ⟨ends 0 cells,cells.flatten,deleted⟩

theorem scannedCells_append {cells more : List Bytes} (deleted vector : Bytes) (small : more.flatten.length < 2^32) :
    (scannedCells cells deleted).append vector (blobData more) = scannedCells (cells ++ more) (deleted ++ vector) := by
  have exact_ : ∀ offset ∈ ends 0 more, (UInt64.ofNat offset).toNat = offset := by
    intro offset member
    have bound := ends_le 0 more offset member
    rw [UInt64.toNat_ofNat',Nat.mod_eq_of_lt (by omega)]
  have offsets : (((ends 0 more).map UInt64.ofNat).tail.map fun offset => cells.flatten.length + offset.toNat) =
      (ends cells.flatten.length more).tail := by
    have shifted := ends_shift cells.flatten.length 0 more
    rw [Nat.add_zero] at shifted
    rw [shifted,← List.map_tail,← List.map_tail,List.map_map]
    refine List.map_congr_left fun offset member => ?_
    rw [Function.comp_apply,exact_ offset (List.mem_of_mem_tail member)]
  unfold scannedCells blobData Scanned.append
  dsimp only
  rw [getLastD_ends,Nat.zero_add,offsets,ends_append,Nat.zero_add,List.flatten_append]

variable {footer : V4Footer} {column : Nat}

def FlatGroup.Has (group : FlatGroup) (column : Nat) :
    Prop := ∃ nulls cells, group.columns[column]? = some (.blobs nulls cells)

theorem FlatGroup.Has.at {group : FlatGroup} (has : group.Has column) :
    ∃ nulls, group.columns[column]? = some (.blobs nulls (group.cells column)) := by
  obtain ⟨nulls,cells,there⟩ := has
  refine ⟨nulls,?_⟩
  rw [FlatGroup.cells,there]

def allCells (column : Nat) (groups : List (Bytes × FlatGroup)) : List Bytes :=
  (groups.filter fun entry => entry.2.rows ≠ 0).flatMap fun entry => entry.2.cells column

def allDeleted (groups : List (Bytes × FlatGroup)) :
    Bytes := (groups.filter fun entry => entry.2.rows ≠ 0).flatMap fun entry => entry.2.deleted

theorem all_skip (column : Nat) {gap : Bytes} {group : FlatGroup} (empty : group.rows = 0)
    (groups : List (Bytes × FlatGroup)) :
    allCells column ((gap,group) :: groups) = allCells column groups ∧ allDeleted ((gap,group) :: groups) =
    allDeleted groups := by
  simp [allCells,allDeleted,empty]

theorem all_keep (column : Nat) {gap : Bytes} {group : FlatGroup} (some_ : group.rows ≠ 0)
    (groups : List (Bytes × FlatGroup)) :
    allCells column ((gap,group) :: groups) = group.cells column ++ allCells column groups ∧
    allDeleted ((gap,group) :: groups) = group.deleted ++ allDeleted groups := by
  simp [allCells,allDeleted,some_]

theorem numbered_cons (index first : Nat) (rgMeta : RowGroupMeta) (metas : List RowGroupMeta) :
    numbered index first (rgMeta :: metas) =
      if rgMeta.rowCount.toNat = 0 then numbered (index + 1) first metas
      else (index,first,rgMeta) :: numbered (index + 1) (first + rgMeta.rowCount.toNat) metas := by
  rw [numbered]
  by_cases zero : rgMeta.rowCount = 0
  · rw [if_pos zero,if_pos (by rw [zero]; rfl)]
  · have some_ : ¬ rgMeta.rowCount.toNat = 0 := fun same => zero (UInt32.toNat_inj.mp same)
    rw [if_neg zero,if_neg some_]

theorem scan_groups {table front tail : Bytes} {groups : List (Bytes × FlatGroup)} {metas : List RowGroupMeta}
    {index position : Nat} (blob : columnType footer column = .blob) (fits : ∀ entry ∈ groups, entry.2.Fits)
    (has : ∀ entry ∈ groups, entry.2.rows ≠ 0 → entry.2.Has column)
    (described : Describes footer index position metas groups) (length : front.length = position)
    (whole : table = front ++ (groupsBytes groups ++ tail)) (first : Nat) (cells : List Bytes) (deleted : Bytes) :
    (numbered index first metas).foldlM (fun scanned (index,_,rgMeta) => do
      let (deleted,data) ← scanGroup table footer column index rgMeta
      return scanned.append deleted data) (scannedCells cells deleted) =
      .ok (scannedCells (cells ++ allCells column groups) (deleted ++ allDeleted groups)) := by
  induction groups generalizing metas index position front first cells deleted with
  | nil =>
    cases metas with
    | nil =>
      simp only [allCells,allDeleted,List.filter_nil,List.flatMap_nil,List.append_nil]
      rfl
    | cons rgMeta metas => exact described.elim
  | cons entry groups ih =>
    obtain ⟨gap,group⟩ := entry
    cases metas with
    | nil => exact described.elim
    | cons rgMeta metas =>
      obtain ⟨here,rest⟩ := described
      have fitting := fits (gap,group) List.mem_cons_self
      have next := @ih (front ++ gap ++ group.bytes) metas (index + 1) (position + gap.length + group.bytes.length)
        (fun entry member => fits entry (List.mem_cons_of_mem _ member)) (fun entry member =>
          has entry (List.mem_cons_of_mem _ member)) rest
        (by rw [List.length_append,List.length_append,length])
          (by rw [whole,groupsBytes]; simp only [List.append_assoc])
      rw [numbered_cons,here.rows]
      by_cases empty : group.rows = 0
      · rw [if_pos empty,next,(all_skip column empty groups).1,(all_skip column empty groups).2]
      · obtain ⟨nulls,there⟩ := (has (gap,group) List.mem_cons_self empty).at
        have placedAt : Meta (front ++ gap).length group footer.colOffsets[index]?
          rgMeta := by rw [List.length_append,length]; exact here
        have scanned := @scanGroup_blobs group column nulls (group.cells column) (front ++ gap) (groupsBytes groups ++
          tail) footer index rgMeta
          fitting empty placedAt there blob
        have table_ : table = (front ++ gap) ++ (group.bytes ++ (groupsBytes groups ++
          tail)) := by rw [whole,groupsBytes]; simp only [List.append_assoc]
        rw [← table_] at scanned
        have small := (fitting.columns nulls (group.cells column) (mem_columns there)).size
        rw [if_neg empty,List.foldlM_cons]
        dsimp only
        rw [scanned]
        change (numbered (index + 1) (first + group.rows) metas).foldlM _
          ((scannedCells cells deleted).append group.deleted (blobData (group.cells column))) = _
        rw [scannedCells_append deleted group.deleted small,next,(all_keep column empty groups).1,
          (all_keep column empty groups).2,
          List.append_assoc,List.append_assoc]

end Scan

end ApexBase.Blob
