import ApexBase.Query.View

/-! The overlay of a SELECT inside a transaction: over a table whose version history
shows the stored values, it builds the rows that the writes mean. -/
namespace ApexBase.Query
open Data Library.Assoc Storage DeltaMerger Txn Mvcc
open Column (ColumnType)
namespace StoredTable

def typed : ArrowType → Scalar → Bool
  | _,.null => true
  | .int64,.int64 _ | .uint64,.uint64 _ | .float64,.float64 _ | .boolean,.bool _ => true
  | .utf8,.utf8 _ | .dictionary,.utf8 _ => true
  | .other,_ => true
  | _,_ => false

def Typed (columns : List (String × ColumnType)) (cells : List Scalar) : Prop :=
  List.Forall₂ (fun column cell => typed (arrowType column) cell = true) columns cells

/-- What every writer keeps. -/
structure Kept (table : StoredTable) : Prop where
  names : table.names.Nodup
  reserved : "_id" ∉ table.names
  first : 1 ≤ table.nextId
  room : table.nextId ≤ 2^64
  ids : (table.stored.map Prod.fst).Nodup
  below : ∀ row ∈ table.stored, row.1.toNat < table.nextId
  typed : ∀ row ∈ table.stored, Typed table.columns row.2

/-- No change is pending for an id that was not handed out yet. A DELETE by `_id` of a
table with a delta file records any id it is given, so writers do not keep this one. -/
structure HandedOut (table : StoredTable) : Prop where
  deleted : ∀ rowId ∈ table.delta.deleted, rowId.toNat < table.nextId
  updated : ∀ rowId ∈ table.delta.updates.keys, rowId.toNat < table.nextId

structure Valid (table : StoredTable) : Prop extends Kept table, HandedOut table

end StoredTable

structure CommittedTable where
  table : StoredTable
  kept : table.Kept

open StoredTable

def Meaning.built : Meaning :=
  ⟨fun column value => buildCell (arrowType column) value,fun column value => buildCell (arrowType column) value⟩

/-- The version history shows what the storage shows: no row that the storage still
shows is hidden at the snapshot or has another value there. -/
def HistoryAgrees (table : StoredTable) (store : VersionStore) (snapshotTs : Nat) : Prop :=
  ∀ row ∈ table.read, hasVersions store = true → existsInVs store row.1.toNat = true →
    ∃ data, store.read row.1.toNat snapshotTs = some data ∧ List.Forall₂ (fun column cell =>
      ∀ value, data.lookup column.1 = some value → buildCell (arrowType column) value = cell) table.columns row.2

def KeepsIds (writes : List TxnWrite) : Prop :=
  ∀ write ∈ writes, match write with
    | .insert _ _ data | .update _ _ _ data => data.lookup "_id" = none
    | .delete .. => True

variable {table : StoredTable} {columns : List (String × ColumnType)}

theorem buildCell_arrowValueAtCol {type : ArrowType} {cell : Scalar} (built : supported type = true)
    (fits : typed type cell = true) :
    buildCell type (arrowValueAtCol cell) = cell := by
  cases type <;> cases cell <;> first | rfl | simp [supported,typed] at built fits

private theorem build_stored (cells : List Scalar) (built : (columns.map arrowType).all supported = true)
    (fits : Typed columns cells) :
    List.zipWith buildCell (columns.map arrowType) (cells.map arrowValueAtCol) = cells := by
  induction fits with
  | nil => rfl
  | cons head _ ih =>
    simp only [List.map_cons,List.all_cons,Bool.and_eq_true] at built
    simp only [List.map_cons,List.zipWith_cons_cons,buildCell_arrowValueAtCol built.1 head,ih built.2]

private theorem build_versioned (cells : List Scalar) (data : Row)
    (built : (columns.map arrowType).all supported = true) (fits : Typed columns cells)
    (same : List.Forall₂ (fun column cell =>
      ∀ value, data.lookup column.1 = some value → buildCell (arrowType column) value = cell) columns cells) :
    List.zipWith buildCell (columns.map arrowType) (List.zipWith (fun name cell =>
      (data.lookup name).getD (arrowValueAtCol cell)) (columns.map (fun column => column.1)) cells) = cells := by
  induction fits with
  | nil => rfl
  | @cons column cell rest cells head _ ih =>
    simp only [List.map_cons,List.all_cons,Bool.and_eq_true] at built
    obtain ⟨first,later⟩ := List.forall₂_cons.mp same
    simp only [List.map_cons,List.zipWith_cons_cons,ih built.2 later]
    congr 1
    cases found : data.lookup column.1 with
    | none => exact buildCell_arrowValueAtCol built.1 head
    | some value => exact first value found

private theorem build_setCells (columns : List (String × ColumnType)) (newData : Row) (values : List Value) :
    List.zipWith buildCell (columns.map arrowType) (setCells (columns.map (fun column => column.1)) newData values) =
      assign .built columns newData (List.zipWith buildCell (columns.map arrowType) values) := by
  induction columns generalizing values with
  | nil => rfl
  | cons column rest ih =>
    cases values with
    | nil => rfl
    | cons value values =>
      have later := ih values
      simp only [setCells,assign,Meaning.built] at later ⊢
      simp only [List.map_cons,List.zipWith_cons_cons,later]
      congr 1
      cases newData.lookup column.1 <;> rfl

private theorem build_created (columns : List (String × ColumnType)) (data : Row) :
    List.zipWith buildCell (columns.map arrowType) (setCells (columns.map (fun column => column.1)) data
      ((columns.map (fun column => column.1)).map (fun _ => .null))) = created .built columns data := by
  induction columns with
  | nil => rfl
  | cons column rest ih =>
    simp only [setCells,created,Meaning.built] at ih ⊢
    simp only [List.map_cons,List.zipWith_cons_cons,ih]

def Builds (table : StoredTable) (row : UInt64 × List Scalar) (values : List Value) : Prop :=
  ∃ id rest, values = id :: rest ∧ buildCell .int64 id = .int64 row.1.toInt64 ∧
    List.zipWith buildCell (table.columns.map arrowType) rest = row.2

theorem Builds.result {row : UInt64 × List Scalar} {values : List Value} (builds : Builds table row values) :
    List.zipWith buildCell (colTypes table) values = toResult row := by
  obtain ⟨id,rest,rfl,first,others⟩ := builds
  simp only [colTypes,List.zipWith_cons_cons,first,others,toResult]

private theorem Builds.set {row : UInt64 × List Scalar} {values : List Value} {newData : Row}
    (builds : Builds table row values)
    (keeps : newData.lookup "_id" = none) :
    Builds table (row.1,assign .built table.columns newData row.2) (setCells (colNames table) newData values) := by
  obtain ⟨id,rest,rfl,first,others⟩ := builds
  refine ⟨id,setCells table.names newData rest,?_,first,?_⟩
  · simp [setCells,colNames,keeps]
  · rw [names,build_setCells,others]

private theorem versionedRow_builds {store : VersionStore} {snapshotTs : Nat} {row : UInt64 × List Scalar}
    (built : (table.columns.map arrowType).all supported = true) (fits : Typed table.columns row.2)
    (history : HistoryAgrees table store snapshotTs) (member : row ∈ table.read) :
    ∃ values, versionedRow table store snapshotTs row = some values ∧ Builds table row values := by
  unfold versionedRow
  split
  · rename_i versioned
    obtain ⟨data,found,same⟩ := history row member versioned.1 versioned.2
    rw [found]
    exact ⟨_,rfl,_,_,rfl,rfl,build_versioned row.2 data built fits same⟩
  · exact ⟨_,rfl,_,_,rfl,rfl,build_stored row.2 built fits⟩

private theorem updates_build {values : List Value} (updates : List (Nat × Row)) (rowId : UInt64) (cells : List Scalar)
    (builds : Builds table (rowId,cells) values) (keeps : ∀ update ∈ updates, update.2.lookup "_id" = none) :
    Builds table (rowId,updates.foldl (fun cells update =>
        if update.1 = rowId.toNat then assign .built table.columns update.2 cells else cells) cells)
      (updates.foldl (fun values update =>
        if update.1 = rowId.toNat then setCells (colNames table) update.2 values else values) values) := by
  induction updates generalizing cells values with
  | nil => exact builds
  | cons update rest ih =>
    simp only [List.foldl_cons]
    apply ih
    · split
      · exact builds.set (keeps update (by simp))
      · exact builds
    · intro later member
      exact keeps later (by simp [member])

section
variable {writes : List TxnWrite} (keeps : KeepsIds writes)
include keeps

private theorem updated_keep : ∀ update ∈ updatedRows table writes, update.2.lookup "_id" = none := by
  intro update member
  obtain ⟨write,buffered,chosen⟩ := List.mem_filterMap.mp member
  have kept := keeps write buffered
  cases write with
  | insert | delete => cases chosen
  | update name rowId oldData newData =>
    simp only [Option.ite_none_right_eq_some,Option.some.injEq] at chosen
    exact chosen.2 ▸ kept

private theorem inserted_keep : ∀ row ∈ insertedRows table writes, row.2.lookup "_id" = none := by
  intro row member
  obtain ⟨write,buffered,chosen⟩ := List.mem_filterMap.mp member
  have kept := keeps write buffered
  cases write with
  | update | delete => cases chosen
  | insert name rowId data =>
    simp only [Option.ite_none_right_eq_some,Option.some.injEq] at chosen
    exact chosen.2 ▸ kept

private theorem overlayRow_eq {store : VersionStore} {snapshotTs : Nat} {row : UInt64 × List Scalar}
    (built : (table.columns.map arrowType).all supported = true) (fits : Typed table.columns row.2)
    (history : HistoryAgrees table store snapshotTs) (member : row ∈ table.read) :
    (overlayRow table store snapshotTs writes row).map (List.zipWith buildCell (colTypes table)) =
      if survives table writes row then some (toResult (rewritten .built table writes row)) else none := by
  unfold overlayRow survives
  split
  · rename_i gone
    rw [gone]
    rfl
  · rename_i left
    obtain ⟨values,found,builds⟩ := versionedRow_builds built fits history member
    have result := (updates_build (updatedRows table writes) row.1 row.2 builds (updated_keep keeps)).result
    simp only [left,found,Option.map_some,result]
    rfl

private theorem insertedRow_eq (row : Nat × Row) (member : row ∈ insertedRows table writes) :
    List.zipWith buildCell (colTypes table) (insertedRow table row) =
    toResult (UInt64.ofNat row.1,created .built table.columns row.2) := by
  apply Builds.result
  refine ⟨.int64 (UInt64.ofNat row.1).toInt64,setCells table.names row.2 (table.names.map (fun _ => .null)),?_,rfl,
    build_created table.columns row.2⟩
  simp [insertedRow,setCells,colNames,inserted_keep keeps row member]

theorem overlay_shows {store : VersionStore} {snapshotTs : Nat} (p : List Scalar → Bool)
    (built : (table.columns.map arrowType).all supported = true) (fits : ∀ row ∈ table.read, Typed table.columns row.2)
    (history : HistoryAgrees table store snapshotTs) :
    ((table.read.filter (fun row => p (toResult row))).filterMap (overlayRow table store snapshotTs writes) ++
      (insertedRows table writes).map (insertedRow table)).map (List.zipWith buildCell (colTypes table)) =
      (((table.read.filter (fun row => p (toResult row))).filter (survives table writes)).map
        (rewritten .built table writes) ++
        inserted .built table writes).map toResult := by
  rw [List.map_append,List.map_append,List.map_filterMap]
  congr 1
  · have shows : ∀ row ∈ table.read.filter (fun row => p (toResult row)),
        (overlayRow table store snapshotTs writes row).map (List.zipWith buildCell (colTypes table)) =
          if survives table writes row then some (toResult (rewritten .built table writes row)) else none := by
      intro row member
      have present := List.mem_of_mem_filter member
      exact overlayRow_eq keeps built (fits row present) history present
    rw [List.filterMap_congr shows,List.map_map,← List.filterMap_eq_map]
    exact List.filterMap_filter.symm
  · rw [inserted,List.map_map,List.map_map]
    apply List.map_congr_left
    intro row member
    exact insertedRow_eq keeps row member

end

end ApexBase.Query
