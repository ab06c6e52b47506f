import ApexBase.Storage.InPlace

/-! Reading a table after its pending changes were written in place, against the view that overlays
them. The two agree exactly when every delete lands and every update of a surviving row is carried. -/
namespace ApexBase.Storage.MemTable
open Data Library.Assoc Library.Wire DeltaMerger
open Column (ColumnType)

def contents (batch : RecordBatch) : List (String × List Scalar) :=
  batch.columns.map (fun column => (column.name,column.values))

/-- The applied table has the rows of the view and reads the same in every cell. -/
def Agrees (applied table : MemTable) (delta : DeltaStore) : Prop :=
  applied.liveIds = table.liveIds.filter (fun rowId => !delta.isDeleted rowId) ∧
  contents applied.toArrowBatch = contents (merge table.toArrowBatch delta table.liveIds)

def CellCarried (mode : Mode) (table : MemTable) (column row : Nat) (update : Value) : Prop :=
  if table.isLast row then
    ∀ entry data, table.schema[column]? = some entry → table.columns[column]? = some data →
      Carried mode entry.2 (table.columnType column) data.kind (table.isNull column row) (data.value row)
        (takes (table.boolBytes.getD column 0) row data.kind update) update
  else overlay (table.columnType column) (table.cell column row) update = table.cell column row

def DeletesLand (mode : Mode) (table : MemTable) (delta : DeltaStore) : Prop :=
  ∀ row ∈ table.live, delta.isDeleted (table.idAt row) = true → mode.growsDeleted = true ∨
    row / 8 < table.deleted.length

structure AllCarried (mode : Mode) (table : MemTable) (delta : DeltaStore) : Prop where
  deletes : DeletesLand mode table delta
  updates : ∀ row ∈ table.live, delta.isDeleted (table.idAt row) = false → ∀ column < table.schema.length, ∀ update,
    delta.getUpdatedValue (table.idAt row) (table.nameAt column) = some update →
    CellCarried mode table column row update

variable {mode : Mode} {table : MemTable} {delta : DeltaStore}

private theorem applied_frame (mode : Mode) (table : MemTable) (delta : DeltaStore) :
    (applyDeltas mode table delta).ids = table.ids ∧ (applyDeltas mode table delta).schema = table.schema ∧
    (applyDeltas mode table delta).deleted = markDeleted mode table delta := by
  rw [applyDeltas_eq]
  exact run_frame mode (pending delta) {table with deleted := markDeleted mode table delta}

private theorem applied_idAt (row : Nat) : (applyDeltas mode table delta).idAt row = table.idAt row := by
  unfold idAt
  rw [(applied_frame mode table delta).1]

private theorem applied_nameAt (column : Nat) : (applyDeltas mode table delta).nameAt column = table.nameAt column := by
  unfold nameAt
  rw [(applied_frame mode table delta).2.1]

def lands (mode : Mode) (table : MemTable) (row : Nat) : Bool :=
  mode.growsDeleted || decide (row / 8 < table.deleted.length)

theorem live_applyDeltas (mode : Mode) (table : MemTable) (delta : DeltaStore) :
    (applyDeltas mode table delta).live =
      table.live.filter (fun row => !(delta.isDeleted (table.idAt row) && lands mode table row)) := by
  obtain ⟨ids,_,deleted⟩ := applied_frame mode table delta
  unfold live
  rw [ids,deleted,List.filter_filter]
  apply List.filter_congr
  intro row member
  have inside : row < table.ids.length := List.mem_range.mp member
  rw [getBit_markDeleted,decide_eq_true inside,Bool.true_and,Bool.not_or,Bool.and_comm]
  rfl

def kept (table : MemTable) (delta : DeltaStore) : List Nat :=
  table.live.filter (fun row => !delta.isDeleted (table.idAt row))

private theorem liveIds_filter (table : MemTable) (delta : DeltaStore) :
    table.liveIds.filter (fun rowId => !delta.isDeleted rowId) = (kept table delta).map table.idAt := by
  rw [liveIds,kept,List.filter_map]
  rfl

theorem live_kept (deletes : DeletesLand mode table delta) :
    (applyDeltas mode table delta).live = kept table delta := by
  rw [live_applyDeltas]
  apply List.filter_congr
  intro row member
  cases gone : delta.isDeleted (table.idAt row) with
  | false => rfl
  | true =>
    have landed : lands mode table row = true := by
      unfold lands
      rw [Bool.or_eq_true,decide_eq_true_eq]
      exact deletes row member gone
    rw [landed]
    rfl

theorem live_agrees_iff (mode : Mode) (table : MemTable) (delta : DeltaStore) :
    (applyDeltas mode table delta).liveIds = table.liveIds.filter (fun rowId => !delta.isDeleted rowId) ↔
      DeletesLand mode table delta := by
  have sameIds : (applyDeltas mode table delta).idAt = table.idAt := funext applied_idAt
  rw [liveIds_filter,liveIds,sameIds]
  constructor
  · intro same row member gone
    -- The view's rows are among the applied table's, so equally many means the same rows.
    have fewer : (kept table delta).Sublist (applyDeltas mode table delta).live := by
      rw [live_applyDeltas]
      apply List.monotone_filter_right
      intro row survives
      rw [Bool.not_eq_true'] at survives
      simp [survives]
    have rows := fewer.eq_of_length (by simpa using congrArg List.length same.symm)
    by_contra stays
    have missed : lands mode table row = false := by simpa [lands] using stays
    have present : row ∈ kept table delta := by
      rw [rows,live_applyDeltas]
      exact List.mem_filter.mpr ⟨member,by simp [missed]⟩
    have survives := (List.mem_filter.mp present).2
    simp [gone] at survives
  · intro deletes
    rw [live_kept deletes]

private theorem cell_slot (table : MemTable) (column row : Nat) : table.cell column row =
    match table.schema[column]?,(slot table column row).1 with
    | some (_,type),some (kind,value) => present type kind (slot table column row).2 value
    | _,_ => .int64 0 := by
  unfold cell slot
  cases table.schema[column]? <;> cases table.columns[column]? <;> rfl

/-- A cell of the applied table agrees with the view exactly when its update is carried. -/
theorem cell_agrees_iff (mode : Mode) (loaded : table.Loaded) (delta : DeltaStore) {column : Nat} (row : Nat)
    (inside : column < table.schema.length) :
    (applyDeltas mode table delta).cell column row =
        mergedCell delta (table.columnType column) (table.nameAt column) (table.idAt row) (table.cell column row) ↔
      ∀ update, delta.getUpdatedValue (table.idAt row) (table.nameAt column) = some update →
        CellCarried mode table column row update := by
  have present : column < table.columns.length := by rw [loaded.columns]; exact inside
  have entry := List.getElem?_eq_getElem inside
  have data := List.getElem?_eq_getElem present
  have applied := cell_slot (applyDeltas mode table delta) column row
  rw [(applied_frame mode table delta).2.1,slot_applyDeltas mode loaded delta row inside] at applied
  cases updated : delta.getUpdatedValue (table.idAt row) (table.nameAt column) with
  | none =>
    have unchanged : (applyDeltas mode table delta).cell column row = table.cell column row := by
      rw [applied,cell_slot table column row]
      simp [updated]
    simp [mergedCell,updated,unchanged]
  | some update =>
    simp only [mergedCell,updated,Option.some.injEq,forall_eq']
    unfold CellCarried
    by_cases last : table.isLast row
    · rw [if_pos last]
      have before : table.cell column row = MemTable.present table.schema[column].2 table.columns[column].kind
          (table.isNull column row) (table.columns[column].value row) := by
        simp [cell,entry,data]
      have shape : table.columnType column = arrowType table.schema[column].2 table.columns[column]
          (table.isNull column) table.live := by
        simp [columnType,entry,data]
      have after : (applyDeltas mode table delta).cell column row = MemTable.present table.schema[column].2
          table.columns[column].kind (stepSlot mode (table.boolBytes.getD column 0) row update (none,
            table.isNull column row)).2
          ((takes (table.boolBytes.getD column 0) row table.columns[column].kind update).getD
            (table.columns[column].value row)) := by
        rw [applied]
        simp [last,updated,entry,data,slot,stepSlot]
      rw [after,before,shape,← carried_iff]
      constructor
      · intro carried entry' data' sameEntry sameData
        obtain rfl := Option.some.inj (entry.symm.trans sameEntry)
        obtain rfl := Option.some.inj (data.symm.trans sameData)
        exact carried
      · intro carried
        exact carried _ _ entry data
    · rw [if_neg last]
      have unchanged : (applyDeltas mode table delta).cell column row = table.cell column row := by
        rw [applied,cell_slot table column row]
        simp [last]
      rw [unchanged]
      exact eq_comm

private theorem contents_applied (mode : Mode) (table : MemTable) (delta : DeltaStore) :
    contents (applyDeltas mode table delta).toArrowBatch = (List.range table.schema.length).map (fun column =>
      (table.nameAt column,(applyDeltas mode table delta).live.map ((applyDeltas mode table delta).cell column))) := by
  unfold contents toArrowBatch
  rw [List.map_map,(applied_frame mode table delta).2.1]
  apply List.map_congr_left
  intro column _
  simp only [Function.comp_apply,applied_nameAt]

private theorem contents_merged (table : MemTable) (delta : DeltaStore) :
    contents (merge table.toArrowBatch delta table.liveIds) = (List.range table.schema.length).map (fun column =>
      (table.nameAt column,(kept table delta).map (fun row =>
        mergedCell delta (table.columnType column) (table.nameAt column) (table.idAt row)
          (table.cell column row)))) := by
  have full : ∀ column ∈ table.toArrowBatch.columns, column.values.length = table.toArrowBatch.numRows := by
    intro column member
    obtain ⟨index,_,rfl⟩ := List.mem_map.mp member
    simp [toArrowBatch]
  unfold contents
  rw [merge_shows (by simp [liveIds,toArrowBatch]) full,toArrowBatch,List.map_map]
  apply List.map_congr_left
  intro column _
  simp only [Function.comp_apply,shown,liveIds,kept]
  rw [List.zip_map',List.filter_map,List.map_map]
  rfl

theorem agrees_iff_allCarried (mode : Mode) (loaded : table.Loaded) (delta : DeltaStore) :
    Agrees (applyDeltas mode table delta) table delta ↔ AllCarried mode table delta := by
  have rows := live_agrees_iff mode table delta
  have cells (deletes : DeletesLand mode table delta) :
      contents (applyDeltas mode table delta).toArrowBatch = contents (merge table.toArrowBatch delta table.liveIds) ↔
        ∀ row ∈ table.live, delta.isDeleted (table.idAt row) = false → ∀ column < table.schema.length, ∀ update,
          delta.getUpdatedValue (table.idAt row) (table.nameAt column) = some update →
          CellCarried mode table column row update := by
    rw [contents_applied,contents_merged,live_kept deletes,List.map_inj_left]
    constructor
    · intro agree row member survives column inside
      have columns := (Prod.mk.inj (agree column (List.mem_range.mpr inside))).2
      have present : row ∈ kept table delta := List.mem_filter.mpr ⟨member,by simp [survives]⟩
      exact (cell_agrees_iff mode loaded delta row inside).mp (List.map_inj_left.mp columns row present)
    · intro carried column member
      have inside := List.mem_range.mp member
      congr 1
      apply List.map_inj_left.mpr
      intro row present
      obtain ⟨alive,survives⟩ := List.mem_filter.mp present
      rw [Bool.not_eq_true'] at survives
      exact (cell_agrees_iff mode loaded delta row inside).mpr (carried row alive survives column inside)
  constructor
  · rintro ⟨ids,batch⟩
    have deletes := rows.mp ids
    exact ⟨deletes,(cells deletes).mp batch⟩
  · rintro ⟨deletes,updates⟩
    exact ⟨rows.mpr deletes,(cells deletes).mpr updates⟩

def countTable : LoadedTable where
  table := ⟨[("count", .int64)], [1], [.int64 [30]], [0], [[0]], [0]⟩
  loaded :=
    { names := List.nodup_singleton _
      columns := rfl
      nulls := rfl
      filled := by
        intro data member
        obtain rfl := List.mem_singleton.mp member
        rfl
      unbacked := by
        intro column values row present
        cases column with
        | zero => cases present
        | succ column => cases present }

def countUpdate : DeltaStore := ⟨[],AList.singleton 1 (AList.singleton "count" (.uint64 7))⟩

end ApexBase.Storage.MemTable
