import ApexBase.Data.Value

/-! Pending row changes and the view that a read shows of them (`storage/delta/update_log.rs`,
`storage/delta/merge.rs`): a batch of the base table without its deleted rows, each updated cell
replaced by its latest value. -/
namespace ApexBase.Storage
open Data Library.Assoc

/-- The deleted row ids and, per row, the latest value of each updated column. -/
structure DeltaStore where
  deleted : List UInt64
  updates : Map UInt64 (Map String Value)

namespace DeltaStore

def isDeleted (delta : DeltaStore) (rowId : UInt64) : Bool := delta.deleted.contains rowId

def getUpdatedValue (delta : DeltaStore) (rowId : UInt64) (columnName : String) : Option Value :=
  (delta.updates.lookup rowId).bind (fun columns => columns.lookup columnName)

def isEmpty (delta : DeltaStore) : Bool := delta.deleted.isEmpty && delta.updates.entries.isEmpty

def eqIgnoreAsciiCase (left right : String) : Bool := left.toLower == right.toLower

def updatesColumn (delta : DeltaStore) (columnName : String) : Bool :=
  delta.updates.entries.any (fun row => row.2.entries.any (fun column => eqIgnoreAsciiCase column.1 columnName))

theorem updated_found {delta : DeltaStore} {rowId : UInt64} {columnName : String} {value : Value}
    (found : delta.getUpdatedValue rowId columnName = some value) :
    rowId ∈ delta.updates.keys ∧ delta.updatesColumn columnName = true := by
  obtain ⟨columns,row,column⟩ := Option.bind_eq_some_iff.mp found
  have rowMember : (⟨rowId,columns⟩ : Sigma fun _ : UInt64 => Map String Value) ∈ delta.updates.entries :=
    AList.mem_lookup_iff.mp row
  have columnMember : (⟨columnName,value⟩ : Sigma fun _ : String => Value) ∈ columns.entries :=
    AList.mem_lookup_iff.mp column
  refine ⟨List.mem_map.mpr ⟨_,rowMember,rfl⟩,?_⟩
  apply List.any_eq_true.mpr
  refine ⟨_,rowMember,List.any_eq_true.mpr ⟨_,columnMember,?_⟩⟩
  simp [eqIgnoreAsciiCase]

end DeltaStore

/-- The Arrow types with a typed overlay; every other type is `other`. -/
inductive ArrowType
  | int64 | uint64 | float64 | utf8 | boolean | dictionary | other
  deriving DecidableEq

inductive Scalar
  | null
  | bool (value : Bool)
  | int64 (value : Int64)
  | uint64 (value : UInt64)
  | float64 (bits : UInt64)
  | utf8 (value : String)
  | bytes (value : List UInt8)
  deriving DecidableEq

structure ArrowColumn where
  name : String
  type : ArrowType
  values : List Scalar

structure RecordBatch where
  numRows : Nat
  columns : List ArrowColumn

namespace DeltaMerger

/-- Whether any row of the batch has a pending delete or update. -/
def batchTouchesDelta (baseRowIds : List UInt64) (delta : DeltaStore) : Bool :=
  (delta.deleted ++ delta.updates.keys).any baseRowIds.contains

/-- One updated cell. A value that does not convert to the column's type shows as NULL; a type
without an overlay of its own honours NULL only. -/
def overlay (type : ArrowType) (base : Scalar) (updated : Value) : Scalar :=
  match type with
  | .int64 => updated.asI64.elim .null .int64
  | .uint64 =>
    match updated with
    | .uint64 value => .uint64 value
    | .int64 value => .uint64 value.toUInt64
    | _ => .null
  | .float64 => updated.asF64.elim .null .float64
  | .utf8 | .dictionary => updated.asStr.elim .null .utf8
  | .boolean => updated.asBool.elim .null .bool
  | .other =>
    match updated with
    | .null => .null
    | _ => base

def mergedCell (delta : DeltaStore) (type : ArrowType) (columnName : String) (rowId : UInt64) (base : Scalar) :
    Scalar :=
  match delta.getUpdatedValue rowId columnName with
  | some updated => overlay type base updated
  | none => base

def mergeColumn (column : ArrowColumn) (keptPositions : List Nat) (baseRowIds : List UInt64) (delta : DeltaStore) :
    ArrowColumn :=
  let taken := keptPositions.map (fun pos => column.values.getD pos .null)
  let typed := keptPositions.map (fun pos =>
    mergedCell delta column.type column.name (baseRowIds.getD pos 0) (column.values.getD pos .null))
  match column.type with
  | .dictionary => if delta.updatesColumn column.name then ⟨column.name,.utf8,typed⟩
    else ⟨column.name,.dictionary,taken⟩
  | .other => if delta.updatesColumn column.name then ⟨column.name,.other,typed⟩ else ⟨column.name,.other,taken⟩
  | type => ⟨column.name,type,typed⟩

def merge (base : RecordBatch) (delta : DeltaStore) (baseRowIds : List UInt64) : RecordBatch :=
  if delta.isEmpty then base
  else if base.numRows = 0 ∨ baseRowIds.length ≠ base.numRows then base
  -- Small batches that no pending change touches are returned as they are.
  else if base.numRows ≤ 8192 ∧ ¬ batchTouchesDelta baseRowIds delta then base
  else
    let kept := (List.range base.numRows).filter (fun pos => !delta.isDeleted (baseRowIds.getD pos 0))
    if kept.length = 0 then ⟨0,base.columns.map (fun column => {column with values := []})⟩
    else ⟨kept.length,base.columns.map (fun column =>
      if kept.length = base.numRows ∧ ¬ delta.updatesColumn column.name then column
      else mergeColumn column kept baseRowIds delta)⟩

def shown (delta : DeltaStore) (baseRowIds : List UInt64) (column : ArrowColumn) : List Scalar :=
  ((baseRowIds.zip column.values).filter (fun row => !delta.isDeleted row.1)).map
    (fun row => mergedCell delta column.type column.name row.1 row.2)

variable {delta : DeltaStore} {base : RecordBatch} {baseRowIds : List UInt64}

private theorem zip_eq_range {α β : Type} (left : List α) (right : List β) (a : α) (b : β)
    (same : left.length = right.length) :
    left.zip right = (List.range left.length).map (fun pos => (left.getD pos a,right.getD pos b)) := by
  apply List.ext_getElem
  · simp [same]
  · intro i inLeft _
    have leftBound : i < left.length := by simp at inLeft; omega
    have rightBound : i < right.length := by omega
    simp [leftBound,rightBound]

private theorem shown_positions (column : ArrowColumn) (same : baseRowIds.length = column.values.length) :
    shown delta baseRowIds column =
      ((List.range baseRowIds.length).filter (fun pos => !delta.isDeleted (baseRowIds.getD pos 0))).map
        (fun pos => mergedCell delta column.type column.name (baseRowIds.getD pos 0)
          (column.values.getD pos .null)) := by
  rw [shown,zip_eq_range _ _ 0 Scalar.null same,List.filter_map,List.map_map]
  rfl

private theorem shown_untouched (column : ArrowColumn) (same : baseRowIds.length = column.values.length)
    (notDeleted : ∀ rowId ∈ baseRowIds, delta.isDeleted rowId = false)
    (notUpdated : ∀ rowId ∈ baseRowIds, delta.getUpdatedValue rowId column.name = none) :
    shown delta baseRowIds column = column.values := by
  have kept : (baseRowIds.zip column.values).filter (fun row => !delta.isDeleted row.1) =
    baseRowIds.zip column.values := by
    apply List.filter_eq_self.mpr
    intro row member
    simp [notDeleted row.1 (List.of_mem_zip member).1]
  have cells : ∀ row ∈ baseRowIds.zip column.values, mergedCell delta column.type column.name row.1 row.2 = row.2 := by
    intro row member
    simp [mergedCell,notUpdated row.1 (List.of_mem_zip member).1]
  rw [shown,kept,List.map_congr_left cells,List.map_snd_zip (by omega)]

theorem not_updated_of_untouched {columnName : String} {rowId : UInt64} (absent : rowId ∉ delta.updates.keys) :
    delta.getUpdatedValue rowId columnName = none := by
  cases found : delta.getUpdatedValue rowId columnName with
  | none => rfl
  | some value => exact absurd (DeltaStore.updated_found found).1 absent

theorem not_updated_of_column {columnName : String} (absent : delta.updatesColumn columnName = false) (rowId : UInt64) :
    delta.getUpdatedValue rowId columnName = none := by
  cases found : delta.getUpdatedValue rowId columnName with
  | none => rfl
  | some value =>
    have present := (DeltaStore.updated_found found).2
    rw [absent] at present
    cases present

private theorem mergeColumn_values (column : ArrowColumn) (same : baseRowIds.length = column.values.length) :
    (mergeColumn column ((List.range baseRowIds.length).filter (fun pos => !delta.isDeleted (baseRowIds.getD pos 0)))
      baseRowIds delta).values = shown delta baseRowIds column := by
  rw [shown_positions column same]
  have untouched (absent : ¬ delta.updatesColumn column.name) (positions : List Nat) :
      positions.map (fun pos => column.values.getD pos .null) = positions.map (fun pos =>
        mergedCell delta column.type column.name (baseRowIds.getD pos 0) (column.values.getD pos .null)) := by
    apply List.map_congr_left
    intro pos _
    simp [mergedCell,not_updated_of_column (by simpa using absent)]
  unfold mergeColumn
  split
  · split
    · rfl
    · rename_i absent
      exact untouched absent _
  · split
    · rfl
    · rename_i absent
      exact untouched absent _
  · rfl

private theorem mergeColumn_name (column : ArrowColumn) (kept : List Nat) :
    (mergeColumn column kept baseRowIds delta).name = column.name := by
  unfold mergeColumn
  split
  · split <;> rfl
  · split <;> rfl
  · rfl

/-- The merge shows every base row that is not deleted, with every updated cell
overlaid, whichever of its shortcuts it takes. -/
theorem merge_shows (sized : baseRowIds.length = base.numRows)
    (full : ∀ column ∈ base.columns, column.values.length = base.numRows) :
    (merge base delta baseRowIds).columns.map (fun column => (column.name,column.values)) =
      base.columns.map (fun column => (column.name,shown delta baseRowIds column)) := by
  have untouched (notDeleted : ∀ rowId ∈ baseRowIds, delta.isDeleted rowId = false)
      (notUpdated : ∀ rowId ∈ baseRowIds, rowId ∉ delta.updates.keys) :
      base.columns.map (fun column => (column.name,column.values)) =
        base.columns.map (fun column => (column.name,shown delta baseRowIds column)) := by
    apply List.map_congr_left
    intro column member
    rw [shown_untouched column (by rw [sized,full column member]) notDeleted
      (fun rowId present => not_updated_of_untouched (notUpdated rowId present))]
  unfold merge
  split
  · rename_i empty
    simp only [DeltaStore.isEmpty,Bool.and_eq_true,List.isEmpty_iff] at empty
    exact untouched (by simp [DeltaStore.isDeleted,empty.1]) (by simp [AList.keys,empty.2,List.keys])
  split
  · rename_i trivialBatch
    have noRows : baseRowIds = [] := List.length_eq_zero_iff.mp (by omega)
    exact untouched (by simp [noRows]) (by simp [noRows])
  split
  · rename_i probe
    have missed : ∀ rowId ∈ baseRowIds, rowId ∉ delta.deleted ++ delta.updates.keys := by
      intro rowId present touched
      apply probe.2
      exact List.any_eq_true.mpr ⟨rowId,touched,by simpa using present⟩
    refine untouched (fun rowId present => ?_) (fun rowId present => ?_)
    · have missing := missed rowId present
      simp only [List.mem_append,not_or] at missing
      simp [DeltaStore.isDeleted,missing.1]
    · have missing := missed rowId present
      simp only [List.mem_append,not_or] at missing
      exact missing.2
  · rw [← sized]
    dsimp only
    split
    · rename_i none
      rw [List.map_map]
      apply List.map_congr_left
      intro column member
      have empty := List.length_eq_zero_iff.mp none
      rw [shown_positions column (by rw [sized,full column member]),empty]
      rfl
    · rw [List.map_map]
      apply List.map_congr_left
      intro column member
      have same : baseRowIds.length = column.values.length := by rw [sized,full column member]
      simp only [Function.comp_apply]
      split
      · rename_i reused
        have all : ∀ rowId ∈ baseRowIds, delta.isDeleted rowId = false := by
          intro rowId present
          obtain ⟨pos,inside,rfl⟩ := List.mem_iff_getElem.mp present
          have everywhere := List.length_filter_eq_length_iff.mp (reused.1.trans (List.length_range).symm)
          have here := everywhere pos (List.mem_range.mpr inside)
          simpa [inside] using here
        rw [shown_untouched column same all (fun rowId _ => not_updated_of_column (by simpa using reused.2) rowId)]
      · rw [mergeColumn_name,mergeColumn_values column same]

private theorem filter_none_deleted (rowIds : List UInt64) (kept : ∀ rowId ∈ rowIds, delta.isDeleted rowId = false) :
    rowIds.filter (fun rowId => !delta.isDeleted rowId) = rowIds := by
  apply List.filter_eq_self.mpr
  intro rowId member
  simp [kept rowId member]

private theorem kept_positions_length (rowIds : List UInt64) :
    ((List.range rowIds.length).filter (fun pos => !delta.isDeleted (rowIds.getD pos 0))).length =
      (rowIds.filter (fun rowId => !delta.isDeleted rowId)).length := by
  have positions : (List.range rowIds.length).map (fun pos => rowIds.getD pos 0) = rowIds := by
    apply List.ext_getElem
    · simp
    · intro pos _ inside
      simp [inside]
  conv_rhs => rw [← positions,List.filter_map,List.length_map]
  rfl

theorem merge_numRows (sized : baseRowIds.length = base.numRows) :
    (merge base delta baseRowIds).numRows = (baseRowIds.filter (fun rowId => !delta.isDeleted rowId)).length := by
  unfold merge
  split
  · rename_i empty
    simp only [DeltaStore.isEmpty,Bool.and_eq_true,List.isEmpty_iff] at empty
    rw [filter_none_deleted baseRowIds (by simp [DeltaStore.isDeleted,empty.1]),sized]
  split
  · rename_i trivialBatch
    have noRows : baseRowIds = [] := List.length_eq_zero_iff.mp (by omega)
    simp [noRows,← sized]
  split
  · rename_i probe
    rw [filter_none_deleted,sized]
    intro rowId present
    by_contra gone
    apply probe.2
    have touched : rowId ∈ delta.deleted := by simpa [DeltaStore.isDeleted] using gone
    exact List.any_eq_true.mpr ⟨rowId,by simp [touched],by simpa using present⟩
  · rw [← sized]
    dsimp only
    rw [kept_positions_length]
    split
    · rename_i none
      exact none.symm
    · rfl

/-- A value as a cell of the type; NULL where it has no such reading. -/
def coerced : ArrowType → Value → Scalar
  | .int64,value => value.asI64.elim .null .int64
  | .uint64,.uint64 value => .uint64 value
  | .uint64,.int64 value => .uint64 value.toUInt64
  | .float64,value => value.asF64.elim .null .float64
  | .utf8,value | .dictionary,value => value.asStr.elim .null .utf8
  | .boolean,value => value.asBool.elim .null .bool
  | _,_ => .null

/-- A cell with its pending update: NULL for NULL, else the coerced value. A type
without an overlay of its own keeps the base value instead. -/
def updatedCell (delta : DeltaStore) (type : ArrowType) (columnName : String) (rowId : UInt64) (base : Scalar) :
    Scalar :=
  match delta.getUpdatedValue rowId columnName with
  | none => base
  | some .null => .null
  | some value => if type = .other then base else coerced type value

structure IdBatch where
  batch : RecordBatch
  rowIds : List UInt64
  sized : rowIds.length = batch.numRows
  full : ∀ column ∈ batch.columns, column.values.length = batch.numRows

theorem mergedCell_eq_updatedCell (delta : DeltaStore) (type : ArrowType) (columnName : String) (rowId : UInt64)
    (base : Scalar) :
    mergedCell delta type columnName rowId base = updatedCell delta type columnName rowId base := by
  unfold mergedCell updatedCell
  cases delta.getUpdatedValue rowId columnName with
  | none => rfl
  | some value => cases type <;> cases value <;> rfl

/-- Whichever branch a merge takes, it returns the rows that are not deleted, in order,
with every updated cell replaced and every other cell unchanged. -/
theorem merge_rows_overlaid (source : IdBatch) (delta : DeltaStore) :
    (merge source.batch delta source.rowIds).numRows =
    (source.rowIds.filter (fun rowId => !delta.isDeleted rowId)).length ∧
    (merge source.batch delta source.rowIds).columns.map (fun column => (column.name,column.values)) =
      source.batch.columns.map (fun column => (column.name,
        ((source.rowIds.zip column.values).filter (fun row => !delta.isDeleted row.1)).map
          (fun row => updatedCell delta column.type column.name row.1 row.2))) := by
  refine ⟨merge_numRows source.sized,?_⟩
  rw [merge_shows source.sized source.full]
  apply List.map_congr_left
  intro column _
  simp only [shown,mergedCell_eq_updatedCell]

section Asked
variable (convert : String → Value → Scalar)

/-- A cell as it should show: `convert` reads a value in a column whose type has no overlay of its own. -/
def askedCell (delta : DeltaStore) (column : ArrowColumn) (row : UInt64 × Scalar) : Scalar :=
  match delta.getUpdatedValue row.1 column.name with
  | none => row.2
  | some .null => .null
  | some value => if column.type = .other then convert column.name value else coerced column.type value

def Overlays (source : IdBatch) (delta : DeltaStore) : Prop :=
  (merge source.batch delta source.rowIds).numRows =
    (source.rowIds.filter (fun rowId => !delta.isDeleted rowId)).length ∧
  (merge source.batch delta source.rowIds).columns.map (fun column => (column.name, column.values)) =
    source.batch.columns.map (fun column => (column.name,
      ((source.rowIds.zip column.values).filter (fun row => !delta.isDeleted row.1)).map
        (askedCell convert delta column)))

end Asked

/-! `UPDATE t SET price = 2.5` where the decimal price of the row is 1.50. -/

def prices : IdBatch where
  batch := ⟨1, [⟨"price", .other, [.bytes (150 :: List.replicate 15 0)]⟩]⟩
  rowIds := [1]
  sized := rfl
  full := by simp

def raised : DeltaStore := ⟨[], AList.singleton 1 (AList.singleton "price" (.float64 0x4004000000000000))⟩

end DeltaMerger

end ApexBase.Storage
