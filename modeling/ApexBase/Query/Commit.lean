import ApexBase.Query.Overlay

/-! COMMIT of a transaction's writes to the storage: each write that the storage carries does to the
shown rows what the transaction means by it. -/
namespace ApexBase.Query
open Data Library.Assoc Storage DeltaMerger Txn Mvcc
open Column (ColumnType)
namespace StoredTable

/-- The storage will show the assigned values of the row: written in place, they are not hidden by a
pending update and read back as themselves; pending, they convert to the column's type as the
overlay converts them. -/
def CellsCarried (m : Meaning) (table : StoredTable) (row : UInt64 × List Scalar) (newData : Row) : Prop :=
  match table.inPlaceWrite row.1 newData with
  | some (name,cell) => table.delta.getUpdatedValue row.1 name = none ∧ ∀ column ∈ table.columns, column.1 = name →
      ∀ value, newData.lookup name = some value → cell = m.assign column value
  | none => List.Forall₂ (fun column cell => ∀ value, newData.lookup column.1 = some value →
      overlay (arrowType column) cell value = m.assign column value) table.columns row.2

/-- COMMIT carries the write into the storage without the general INSERT or UPDATE: an insert has
all columns and values that the `.delta` file keeps, and an update is of a row in an uncompressed
row group of the base. -/
def Carries (m : Meaning) (table : StoredTable) : TxnWrite → Prop
  | .insert _ _ data => table.complete data = true ∧ table.nextId < 2^64 ∧ ∀ column ∈ table.columns,
      storeInDelta (kindOf column.2) ((data.lookup column.1).getD .null) =
        m.create column ((data.lookup column.1).getD .null)
  | .delete .. => True
  | .update _ rowId _ newData => (newData.entries.isEmpty = false ∧ newData.lookup "_id" = none) ∧
      (∀ row ∈ table.appended, row.1.toNat = rowId → table.delta.isDeleted row.1 = true) ∧
      ∀ row ∈ table.base, row.1.toNat = rowId → table.compressed row.1 = false ∧ CellsCarried m table row newData

/-- Every write of the commit, each in the state that the writes before it left. -/
def Carried (m : Meaning) : StoredTable → List TxnWrite → Prop
  | _,[] => True
  | table,write :: rest => Carries m table write ∧ ∀ next, table.applyTxnWrite write = some next → next.Carried m rest

structure Commits (m : Meaning) (table next : StoredTable) (write : TxnWrite) : Prop where
  applied : table.applyTxnWrite write = some next
  valid : next.Valid
  name : next.name = table.name
  columns : next.columns = table.columns
  nextId : next.nextId = table.nextId + (if write.isInsert then 1 else 0)
  read : next.read = writeView m table.columns table.read write

variable {m : Meaning} {table : StoredTable} {columns : List (String × ColumnType)}

/-! Cells keep their types. -/

private theorem arrowType_kind (column : String × ColumnType) (value : Value) :
    typed (arrowType column) (storeInDelta (kindOf column.2) value) = true := by
  unfold arrowType
  cases kindOf column.2 with
  | int64 =>
    simp only [arrowOf,storeInDelta]
    split <;> split <;> rfl
  | float64 | string | stringDict | bool =>
    simp only [arrowOf,storeInDelta]
    split <;> rfl
  | binary | vectors => rfl

private theorem ofBits_typed {column : String × ColumnType} {bits : UInt64} {cell : Scalar}
    (wrote : ofBits column.2 bits = some cell) : typed (arrowType column) cell = true := by
  obtain ⟨name,type⟩ := column
  cases type <;> cases wrote <;> rfl

theorem overlay_typed {type : ArrowType} {base : Scalar} (value : Value) (fits : typed type base = true) :
    typed type (overlay type base value) = true := by
  cases type with
  | int64 => cases found : value.asI64 <;> simp [overlay,found,typed]
  | float64 => cases found : value.asF64 <;> simp [overlay,found,typed]
  | utf8 | dictionary => cases found : value.asStr <;> simp [overlay,found,typed]
  | boolean => cases found : value.asBool <;> simp [overlay,found,typed]
  | uint64 => cases value <;> rfl
  | other => cases value <;> first | rfl | exact fits

private theorem mergedCell_typed {type : ArrowType} {base : Scalar} (delta : DeltaStore) (name : String)
    (rowId : UInt64)
    (fits : typed type base = true) : typed type (mergedCell delta type name rowId base) = true := by
  unfold mergedCell
  split
  · exact overlay_typed _ fits
  · exact fits

theorem shownRow_typed {delta : DeltaStore} {row : UInt64 × List Scalar} (fits : Typed columns row.2) :
    Typed columns (shownRow columns delta row).2 := by
  obtain ⟨rowId,cells⟩ := row
  simp only [shownRow] at fits ⊢
  induction fits with
  | nil => exact .nil
  | cons head _ ih => exact .cons (mergedCell_typed delta _ rowId head) ih

/-! Rows under a change of the pending updates. -/

theorem shownRow_unpending {delta : DeltaStore} {row : UInt64 × List Scalar} (fits : Typed columns row.2)
    (absent : row.1 ∉ delta.updates.keys) : shownRow columns delta row = row := by
  obtain ⟨rowId,cells⟩ := row
  simp only [shownRow,Prod.mk.injEq,true_and] at fits ⊢
  induction fits with
  | nil => rfl
  | cons head _ ih =>
    rw [List.zipWith_cons_cons,ih absent,mergedCell,not_updated_of_untouched absent]

theorem shownRow_congr {delta other : DeltaStore} {row : UInt64 × List Scalar}
    (same : ∀ name, delta.getUpdatedValue row.1 name = other.getUpdatedValue row.1 name) :
    shownRow columns delta row = shownRow columns other row := by
  simp only [shownRow,mergedCell,same]

private theorem read_map {next : StoredTable} (change : UInt64 × List Scalar → UInt64 × List Scalar)
    {shown : UInt64 × List Scalar → UInt64 × List Scalar} (columns : next.columns = table.columns)
    (stored : next.stored = table.stored.map change) (ids : ∀ row, (change row).1 = row.1)
    (deleted : ∀ rowId, next.delta.isDeleted rowId = table.delta.isDeleted rowId)
    (shows : ∀ row ∈ table.stored, table.delta.isDeleted row.1 = false →
      shownRow table.columns next.delta (change row) = shown (shownRow table.columns table.delta row)) :
    next.read = table.read.map shown := by
  simp only [StoredTable.read,stored,columns,List.filter_map,List.map_map,Function.comp_def,ids,deleted]
  apply List.map_congr_left
  intro row member
  obtain ⟨present,live⟩ := List.mem_filter.mp member
  exact shows row present (by simpa using live)

/-! The three kinds of write. -/

private theorem commits_insert (valid : table.Valid) {name : String} {data : Row}
    (carries : Carries m table (.insert name table.nextId data)) :
    ∃ next, Commits m table next (.insert name table.nextId data) := by
  obtain ⟨whole,room,values⟩ := carries
  have id : (UInt64.ofNat table.nextId).toNat = table.nextId := UInt64.toNat_ofNat_of_lt' room
  have kept : table.columns.map (fun column => storeInDelta (kindOf column.2) ((data.lookup column.1).getD .null)) =
      created m table.columns data := List.map_congr_left values
  have fits : Typed table.columns (created m table.columns data) := by
    rw [← kept]
    exact List.forall₂_map_right_iff.mpr (List.forall₂_same.mpr (fun column _ => arrowType_kind column _))
  have live : table.delta.isDeleted (UInt64.ofNat table.nextId) = false := by
    rw [DeltaStore.isDeleted,List.contains_eq_mem,decide_eq_false_iff_not]
    intro gone
    have := valid.deleted _ gone
    omega
  have fresh : UInt64.ofNat table.nextId ∉ table.delta.updates.keys := by
    intro pending
    have := valid.updated _ pending
    omega
  let next : StoredTable := {table with
    appended := table.appended ++ [(UInt64.ofNat table.nextId,created m table.columns data)]
    nextId := table.nextId + 1}
  have stored : next.stored = table.stored ++ [(UInt64.ofNat table.nextId,created m table.columns data)] :=
    (List.append_assoc _ _ _).symm
  refine ⟨next, ⟨?_, ⟨⟨valid.names, valid.reserved, by simp [next], by simp only [next]; omega, ?_, ?_, ?_⟩, ?_, ?_⟩,
    rfl, rfl, rfl, ?_⟩⟩
  · simp only [applyTxnWrite,applyInsert,whole,if_true,kept,next]
  · rw [stored,List.map_append]
    refine List.Nodup.append valid.ids (List.nodup_singleton _) ?_
    intro rowId old new
    obtain ⟨row,member,rfl⟩ := List.mem_map.mp old
    have same : row.1 = UInt64.ofNat table.nextId := by simpa using new
    have := valid.below row member
    rw [same] at this
    omega
  · intro row member
    rw [stored] at member
    rcases List.mem_append.mp member with old | new
    · exact Nat.lt_succ_of_lt (valid.below row old)
    · rw [List.mem_singleton.mp new]
      simp only [next,id]
      omega
  · intro row member
    rw [stored] at member
    rcases List.mem_append.mp member with old | new
    · exact valid.typed row old
    · rw [List.mem_singleton.mp new]
      exact fits
  · intro rowId gone
    exact Nat.lt_succ_of_lt (valid.deleted rowId gone)
  · intro rowId pending
    exact Nat.lt_succ_of_lt (valid.updated rowId pending)
  · simp only [StoredTable.read,stored,List.filter_append,List.map_append,writeView]
    congr 1
    have shown : [(UInt64.ofNat table.nextId,created m table.columns data)].filter (fun row =>
      !table.delta.isDeleted row.1) =
        [(UInt64.ofNat table.nextId,created m table.columns data)] := by
      simp [live]
    have same : shownRow table.columns table.delta (UInt64.ofNat table.nextId,created m table.columns data) = _ :=
      shownRow_unpending fits fresh
    simp only [next,shown,List.map_cons,List.map_nil,same]

private theorem deleteRow_isDeleted (delta : DeltaStore) (target rowId : UInt64) :
    (deleteRow delta target).isDeleted rowId = (decide (rowId = target) || delta.isDeleted rowId) := by
  simp [deleteRow,DeltaStore.isDeleted]

private theorem deleteRow_getUpdatedValue {delta : DeltaStore} {target rowId : UInt64} (other : rowId ≠ target)
    (name : String) :
    (deleteRow delta target).getUpdatedValue rowId name = delta.getUpdatedValue rowId name := by
  simp [deleteRow,DeltaStore.getUpdatedValue,AList.lookup_erase_ne other]

private theorem applyDelete_read (target : UInt64) :
    (table.applyDelete target).read = table.read.filter (fun row => row.1 ≠ target) := by
  have left : table.read.filter (fun row => row.1 ≠ target) =
      (table.stored.filter (fun row => !table.delta.isDeleted row.1 && decide (row.1 ≠ target))).map
        (shownRow table.columns table.delta) := by
    rw [StoredTable.read,List.filter_map,List.filter_filter]
    congr 1
    apply List.filter_congr
    intro row _
    exact Bool.and_comm _ _
  rw [left]
  simp only [applyDelete,StoredTable.read,stored,List.filter_append,List.filter_filter]
  by_cases empty : table.appended = []
  · simp [empty]
  · have some : table.appended.isEmpty = false := by simpa using empty
    simp only [some,Bool.false_eq_true,if_false,deleteRow_isDeleted]
    have kept : ∀ row : UInt64 × List Scalar, (!(decide (row.1 = target) || table.delta.isDeleted row.1)) =
        (!table.delta.isDeleted row.1 && decide (row.1 ≠ target)) := by
      intro row
      rw [Bool.not_or,Bool.and_comm,decide_not]
    simp only [kept,Bool.and_assoc,Bool.and_self]
    apply List.map_congr_left
    intro row member
    have other : row.1 ≠ target := by
      rcases List.mem_append.mp member with old | new
      · simpa using (Bool.and_eq_true_iff.mp (List.mem_filter.mp old).2).2
      · simpa using (Bool.and_eq_true_iff.mp (List.mem_filter.mp new).2).2
    exact shownRow_congr (deleteRow_getUpdatedValue other)

private theorem commits_delete (valid : table.Valid) {name : String} {oldData : Row} {target : UInt64}
    (below : target.toNat < table.nextId) :
    ∃ next, Commits m table next (.delete name target.toNat oldData) := by
  have sub : (table.applyDelete target).stored.Sublist table.stored :=
    List.Sublist.append List.filter_sublist (List.Sublist.refl _)
  refine ⟨table.applyDelete target, ⟨?_, ⟨⟨valid.names, valid.reserved, valid.first, valid.room, ?_, ?_, ?_⟩, ?_, ?_⟩,
    rfl, rfl, rfl, ?_⟩⟩
  · simp only [applyTxnWrite,UInt64.ofNat_toNat]
  · exact (sub.map _).nodup valid.ids
  · intro row member
    exact valid.below row (sub.subset member)
  · intro row member
    exact valid.typed row (sub.subset member)
  · intro rowId gone
    simp only [applyDelete] at gone ⊢
    split at gone
    · exact valid.deleted rowId gone
    · rcases List.mem_cons.mp gone with rfl | old
      · exact below
      · exact valid.deleted rowId old
  · intro rowId pending
    simp only [applyDelete] at pending ⊢
    split at pending
    · exact valid.updated rowId pending
    · rw [deleteRow,AList.keys_erase] at pending
      exact valid.updated rowId (List.mem_of_mem_erase pending)
  · rw [applyDelete_read,writeView,UInt64.ofNat_toNat]

/-! An update of a row in the base. -/

private theorem updateCells_getUpdatedValue (delta : DeltaStore) (target rowId : UInt64) (newData : Row)
    (name : String) :
    (updateCells delta target newData).getUpdatedValue rowId name =
      if rowId = target then (newData.lookup name).or (delta.getUpdatedValue rowId name)
      else delta.getUpdatedValue rowId name := by
  simp only [updateCells,DeltaStore.getUpdatedValue,lookup_insert_eq]
  split
  · rename_i same
    subst same
    cases found : newData.lookup name with
    | some value =>
      have assigned : name ∈ newData := AList.lookup_isSome.mp (by simp [found])
      simp [AList.lookup_union_left assigned,found]
    | none =>
      have missing : name ∉ newData := AList.lookup_eq_none.mp found
      cases pending : delta.updates.lookup rowId <;> simp [AList.lookup_union_right missing,found]
  · rfl

private theorem shownRow_pending {delta : DeltaStore} {target : UInt64} {newData : Row} {cells : List Scalar}
    (carried : List.Forall₂ (fun column cell => ∀ value, newData.lookup column.1 = some value →
      overlay (arrowType column) cell value = m.assign column value) columns cells) :
    shownRow columns (updateCells delta target newData) (target,cells) =
    (target,assign m columns newData (shownRow columns delta (target,cells)).2) := by
  simp only [shownRow,assign,Prod.mk.injEq,true_and]
  induction carried with
  | nil => rfl
  | @cons column cell rest cells head _ ih =>
    simp only [List.zipWith_cons_cons,ih]
    congr 1
    cases found : newData.lookup column.1 with
    | none => simp [mergedCell,updateCells_getUpdatedValue,found]
    | some value => simp [mergedCell,updateCells_getUpdatedValue,found,head value found]

private theorem shownRow_written {delta : DeltaStore} {target : UInt64} {name : String} {value : Value} {cell : Scalar}
    {newData : Row} (single : ∀ other, newData.lookup other = if other = name then some value else none)
    (clear : delta.getUpdatedValue target name = none) {cells : List Scalar} (fits : Typed columns cells)
    (reads : ∀ column ∈ columns, column.1 = name → cell = m.assign column value) :
    shownRow columns delta (target,List.zipWith (fun column old => if column.1 = name then cell
      else old) columns cells) =
      (target,assign m columns newData (shownRow columns delta (target,cells)).2) := by
  simp only [shownRow,assign,Prod.mk.injEq,true_and]
  induction fits with
  | nil => rfl
  | @cons column old rest cells _ _ ih =>
    simp only [List.zipWith_cons_cons]
    rw [ih (fun column member => reads column (by simp [member]))]
    congr 1
    by_cases same : column.1 = name
    · have wrote := reads column (by simp) same
      simp [mergedCell,same,clear,single,wrote]
    · simp [same,single]

private theorem written_typed {name : String} {cell : Scalar} {cells : List Scalar} (fits : Typed columns cells)
    (reads : ∀ column ∈ columns, column.1 = name → typed (arrowType column) cell = true) :
    Typed columns (List.zipWith (fun column old => if column.1 = name then cell else old) columns cells) := by
  induction fits with
  | nil => exact .nil
  | @cons column old rest cells head _ ih =>
    refine .cons ?_ (ih (fun column member => reads column (by simp [member])))
    by_cases same : column.1 = name
    · simpa [same] using reads column (by simp) same
    · simpa [same] using head

private theorem inPlaceWrite_cases {rowId : UInt64} {newData : Row} {name : String} {cell : Scalar}
    (names : table.names.Nodup) (wrote : table.inPlaceWrite rowId newData = some (name,cell)) :
    (∃ value, ∀ other, newData.lookup other = if other = name then some value else none) ∧
      ∀ column ∈ table.columns, column.1 = name → typed (arrowType column) cell = true := by
  unfold inPlaceWrite at wrote
  split at wrote
  · rename_i assigned value entries
    obtain ⟨column,found,wrote⟩ := Option.bind_eq_some_iff.mp wrote
    obtain ⟨bits,_,wrote⟩ := Option.bind_eq_some_iff.mp wrote
    split at wrote
    · obtain ⟨kept,reads,same⟩ := Option.map_eq_some_iff.mp wrote
      cases same
      refine ⟨⟨value,?_⟩,?_⟩
      · intro other
        rw [AList.lookup,entries]
        by_cases same : other = name
        · subst same
          simp
        · simp [same]
      · intro listed member same
        have chosen : column.1 = name := by simpa using List.find?_some found
        have unique : listed = column :=
          List.inj_on_of_nodup_map names member (List.mem_of_find?_eq_some found) (same.trans chosen.symm)
        rw [unique]
        exact ofBits_typed reads
    · cases wrote
  · cases wrote

private theorem update_skipped {target : UInt64} {newData : Row}
    (absent : ∀ row ∈ table.stored, row.1 = target → table.delta.isDeleted row.1 = true) :
    table.read.map (assignRow m table.columns target newData) = table.read := by
  refine (List.map_congr_left ?_).trans (List.map_id _)
  intro row member
  obtain ⟨stored,present,rfl⟩ := List.mem_map.mp member
  obtain ⟨kept,live⟩ := List.mem_filter.mp present
  have other : stored.1 ≠ target := by
    intro same
    simp [absent stored kept same] at live
  rw [assignRow,if_neg (by exact other)]
  rfl

section
variable {target : UInt64} {newData : Row} (valid : table.Valid) (present : target ∈ table.base.map Prod.fst)
  (hidden : ∀ row ∈ table.appended, row.1 = target → table.delta.isDeleted row.1 = true)
include valid

private theorem pending_valid (below : target.toNat < table.nextId) :
    StoredTable.Valid {table with delta := updateCells table.delta target newData} where
  toKept := ⟨valid.names, valid.reserved, valid.first, valid.room, valid.ids, valid.below, valid.typed⟩
  deleted := valid.deleted
  updated := by
    intro rowId pending
    rw [updateCells,AList.keys_insert] at pending
    rcases List.mem_cons.mp pending with rfl | old
    · exact below
    · exact valid.updated rowId (List.mem_of_mem_erase old)

include hidden in
omit valid in
private theorem live_in_base {row : UInt64 × List Scalar} (member : row ∈ table.stored) (same : row.1 = target)
    (live : table.delta.isDeleted row.1 = false) : row ∈ table.base := by
  rcases List.mem_append.mp member with base | appended
  · exact base
  · simp [hidden row appended same] at live

include hidden in
omit valid in
private theorem pending_read
    (carried : ∀ row ∈ table.base, row.1 = target →
      List.Forall₂ (fun column cell => ∀ value, newData.lookup column.1 = some value →
        overlay (arrowType column) cell value = m.assign column value) table.columns row.2) :
    StoredTable.read {table with delta := updateCells table.delta target newData} =
      table.read.map (assignRow m table.columns target newData) := by
  refine read_map id rfl (List.map_id _).symm (fun _ => rfl) (fun _ => rfl) ?_
  intro row member live
  by_cases same : row.1 = target
  · have base := live_in_base hidden member same live
    obtain ⟨rowId,cells⟩ := row
    simp only at same
    subst same
    exact (shownRow_pending (carried _ base rfl)).trans (if_pos rfl).symm
  · rw [assignRow,if_neg (by exact same)]
    apply shownRow_congr
    intro name
    simp only [id,updateCells_getUpdatedValue,same,if_false]

/-! In place. -/

include present in
private theorem setCell_stored (name : String) (cell : Scalar) :
    (table.setCell target name cell).stored = table.stored.map (writeCell table.columns target name cell) := by
  simp only [stored,setCell,List.map_append]
  congr 1
  refine ((List.map_congr_left ?_).trans (List.map_id _)).symm
  intro row member
  have apart := List.disjoint_of_nodup_append (List.map_append ▸ valid.ids)
  have other : row.1 ≠ target := fun same => apart present (same ▸ List.mem_map.mpr ⟨row,member,rfl⟩)
  rw [writeCell,if_neg other]
  rfl

omit valid in
private theorem writeCell_id (name : String) (cell : Scalar) (row : UInt64 × List Scalar) :
    (writeCell columns target name cell row).1 = row.1 := by
  unfold writeCell
  split <;> rfl

include present in
private theorem setCell_valid {name : String} {cell : Scalar}
    (reads : ∀ column ∈ table.columns, column.1 = name → typed (arrowType column) cell = true) :
    (table.setCell target name cell).Valid := by
  have stored := setCell_stored valid present name cell
  refine ⟨⟨valid.names, valid.reserved, valid.first, valid.room, ?_, ?_, ?_⟩, ⟨valid.deleted, valid.updated⟩⟩
  · rw [stored,List.map_map]
    simpa only [Function.comp_def,writeCell_id] using valid.ids
  · intro row member
    rw [stored] at member
    obtain ⟨old,present,rfl⟩ := List.mem_map.mp member
    rw [writeCell_id]
    exact valid.below old present
  · intro row member
    rw [stored] at member
    obtain ⟨old,present,rfl⟩ := List.mem_map.mp member
    unfold writeCell
    split
    · exact written_typed (valid.typed old present) reads
    · exact valid.typed old present

include present hidden in
private theorem setCell_read {name : String} {cell : Scalar} {value : Value}
    (single : ∀ other, newData.lookup other = if other = name then some value else none)
    (clear : table.delta.getUpdatedValue target name = none)
    (reads : ∀ column ∈ table.columns, column.1 = name → cell = m.assign column value) :
    (table.setCell target name cell).read = table.read.map (assignRow m table.columns target newData) := by
  refine read_map (writeCell table.columns target name cell) rfl (setCell_stored valid present name cell)
    (writeCell_id name cell) (fun _ => rfl) ?_
  intro row member live
  by_cases same : row.1 = target
  · have fits := valid.typed row member
    obtain ⟨rowId,cells⟩ := row
    simp only at same
    subst same
    rw [writeCell,if_pos rfl]
    exact (shownRow_written single clear fits reads).trans (if_pos rfl).symm
  · rw [assignRow,if_neg (by exact same),writeCell,if_neg same]
    rfl

end

private theorem commits_update (valid : table.Valid) {name : String} {oldData newData : Row} {target : UInt64}
    (below : target.toNat < table.nextId) (carries : Carries m table (.update name target.toNat oldData newData)) :
    ∃ next, Commits m table next (.update name target.toNat oldData newData) := by
  obtain ⟨⟨nonempty,keeps⟩,appended,base⟩ := carries
  have hidden : ∀ row ∈ table.appended, row.1 = target → table.delta.isDeleted row.1 = true :=
    fun row member same => appended row member (same ▸ rfl)
  have guard : ¬ (newData.entries.isEmpty = true ∨ "_id" ∈ newData.keys) := by
    rintro (empty | assigned)
    · simp [nonempty] at empty
    · exact AList.lookup_eq_none.mp keeps (AList.mem_keys.mpr assigned)
  by_cases present : target ∈ table.base.map Prod.fst
  · obtain ⟨row,member,same⟩ := List.mem_map.mp present
    subst same
    obtain ⟨uncompressed,_⟩ := base row member rfl
    have carried : ∀ other ∈ table.base, other.1 = row.1 → CellsCarried m table other newData :=
      fun other listed same => (base other listed (same ▸ rfl)).2
    have applied : table.applyUpdate row.1 newData = match table.inPlaceWrite row.1 newData with
        | some (name,cell) => some (table.setCell row.1 name cell)
        | none => some {table with delta := updateCells table.delta row.1 newData} := by
      rw [applyUpdate,if_neg guard,if_pos (by simpa using present),uncompressed]
      rfl
    cases wrote : table.inPlaceWrite row.1 newData with
    | none =>
      rw [wrote] at applied
      refine ⟨_,by rw [applyTxnWrite,UInt64.ofNat_toNat,applied],pending_valid valid below,rfl,rfl,rfl,?_⟩
      rw [writeView,UInt64.ofNat_toNat]
      apply pending_read hidden
      intro other listed same
      have cells := carried other listed same
      rwa [CellsCarried,same,wrote] at cells
    | some write =>
      obtain ⟨column,cell⟩ := write
      rw [wrote] at applied
      obtain ⟨⟨value,single⟩,fits⟩ := inPlaceWrite_cases valid.names wrote
      have cells := carried row member rfl
      rw [CellsCarried,wrote] at cells
      refine ⟨_,by rw [applyTxnWrite,UInt64.ofNat_toNat,applied],setCell_valid valid present fits,rfl,rfl,rfl,?_⟩
      rw [writeView,UInt64.ofNat_toNat]
      apply setCell_read valid present hidden single cells.1
      intro listed among same
      exact cells.2 listed among same value (by simp [single])
  · have skipped : table.applyUpdate target newData = some table := by
      rw [applyUpdate,if_neg guard,if_neg (by simpa using present)]
    refine ⟨table,by rw [applyTxnWrite,UInt64.ofNat_toNat,skipped],valid,rfl,rfl,rfl,?_⟩
    rw [writeView,UInt64.ofNat_toNat]
    refine (update_skipped ?_).symm
    intro row member same
    rcases List.mem_append.mp member with inBase | later
    · exact absurd (same ▸ List.mem_map.mpr ⟨row,inBase,rfl⟩) present
    · exact hidden row later same

/-! The whole commit. -/

theorem commits_write (valid : table.Valid) {write : TxnWrite} (carries : Carries m table write)
    (fresh : write.isInsert = true → write.rowId = table.nextId)
    (known : write.isInsert = false → ∃ target : UInt64, target.toNat = write.rowId ∧ write.rowId < table.nextId) :
    ∃ next, Commits m table next write := by
  cases write with
  | insert name rowId data =>
    have same : rowId = table.nextId := fresh rfl
    subst same
    exact commits_insert valid carries
  | update name rowId oldData newData =>
    obtain ⟨target,same,below⟩ := known rfl
    obtain rfl : target.toNat = rowId := same
    exact commits_update valid below carries
  | delete name rowId oldData =>
    obtain ⟨target,same,below⟩ := known rfl
    obtain rfl : target.toNat = rowId := same
    exact commits_delete valid below

private theorem numbered_cons {write : TxnWrite} {rest : List TxnWrite} {first : Nat} (here : write.table = table.name)
    (numbered : Numbered table first (write :: rest)) :
    (write.isInsert = true → write.rowId = first) ∧ Numbered table (first + (if write.isInsert then 1 else 0)) rest ∧
      (insertedRows table (write :: rest)).length = (if write.isInsert then 1
        else 0) + (insertedRows table rest).length := by
  cases write with
  | insert name rowId data =>
    have listed : insertedRows table (.insert name rowId data :: rest) = (rowId,data) :: insertedRows table rest := by
      obtain rfl : name = table.name := here
      simp [insertedRows]
    rw [Numbered,listed,List.length_cons,List.range'_succ,List.map_cons,List.cons.injEq] at numbered
    refine ⟨fun _ => numbered.1,numbered.2,?_⟩
    rw [listed,List.length_cons,Nat.add_comm]
    rfl
  | update name rowId oldData newData =>
    exact ⟨fun insert => (by cases insert),numbered,(Nat.zero_add _).symm⟩
  | delete name rowId oldData =>
    exact ⟨fun insert => (by cases insert),numbered,(Nat.zero_add _).symm⟩

private theorem carries_keepsId {write : TxnWrite} (carries : Carries m table write) : KeepsIds [write] := by
  intro w member
  rw [List.mem_singleton.mp member]
  cases write with
  | insert name rowId data =>
    have whole := carries.1
    simp only [complete,decide_eq_true_eq] at whole
    exact AList.lookup_eq_none.mpr (fun assigned => (whole.2 "_id" (AList.mem_keys.mp assigned)).2 rfl)
  | update name rowId oldData newData => exact carries.1.2
  | delete name rowId oldData => trivial

theorem commit_shows {writes : List TxnWrite} {bound : Nat} (valid : table.Valid) (carried : Carried m table writes)
    (here : ∀ write ∈ writes, write.table = table.name) (numbered : Numbered table table.nextId writes)
    (known : ∀ write ∈ writes, write.isInsert = false → ∃ target : UInt64, target.toNat = write.rowId ∧
      write.rowId < bound)
    (below : bound ≤ table.nextId) :
    ∃ final, table.applyTxnWrites writes = some final ∧ final.read =
    writes.foldl (writeView m table.columns) table.read ∧
      table.nextId + (insertedRows table writes).length ≤ 2^64 ∧ KeepsIds writes := by
  induction writes generalizing table with
  | nil => exact ⟨table,rfl,rfl,valid.room,by simp [KeepsIds]⟩
  | cons write rest ih =>
    obtain ⟨carries,later⟩ := carried
    obtain ⟨fresh,continued,count⟩ := numbered_cons (here write (by simp)) numbered
    obtain ⟨next,commits⟩ := commits_write valid carries fresh (fun other => by
      obtain ⟨target,same,small⟩ := known write (by simp) other
      exact ⟨target,same,by omega⟩)
    have inserts : insertedRows next rest = insertedRows table rest := by simp only [insertedRows,commits.name]
    have renumbered : Numbered next next.nextId rest := by
      rw [Numbered,inserts,commits.nextId]
      exact continued
    obtain ⟨final,applied,reads,room,keeps⟩ := ih commits.valid (later next commits.applied)
      (fun w member => commits.name ▸ here w (by simp [member])) renumbered
      (fun w member => known w (by simp [member])) (by rw [commits.nextId]; omega)
    refine ⟨final,?_,?_,?_,?_⟩
    · rw [applyTxnWrites,commits.applied,Option.bind_some,applied]
    · rw [reads,commits.read,commits.columns,List.foldl_cons]
    · rw [count]
      rw [inserts,commits.nextId] at room
      omega
    · intro w member
      rcases List.mem_cons.mp member with rfl | tail
      · exact carries_keepsId carries w (by simp)
      · exact keeps w tail

end StoredTable

end ApexBase.Query
