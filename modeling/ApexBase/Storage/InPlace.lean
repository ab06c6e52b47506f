import ApexBase.Storage.MemTable

/-! Writing the pending changes into a loaded table against overlaying them at read time. One update
reaches one cell, so both sides are compared cell by cell; `Carried` says when a single cell agrees. -/
namespace ApexBase.Storage.MemTable
open Data Library.Assoc Library.Wire DeltaMerger
open Column (ColumnType VectorCodec)

/-! Deletions. -/

theorem getBit_markDeleted (mode : Mode) (table : MemTable) (delta : DeltaStore) (row : Nat) :
    getBit (markDeleted mode table delta) row = (getBit table.deleted row || (decide (row < table.ids.length) &&
      delta.isDeleted (table.idAt row) && (mode.growsDeleted || decide (row / 8 < table.deleted.length)))) := by
  -- The bits of the first `count` rows, for a bitmap that keeps its length unless it grows.
  have marked (count : Nat) : ∀ deleted, deleted = (List.range count).foldl (fun deleted idx =>
      if delta.isDeleted (table.idAt idx) then
        if mode.growsDeleted then setBit (growTo deleted idx) idx
        else if idx / 8 < deleted.length then setBit deleted idx
        else deleted
      else deleted) table.deleted →
      (mode.growsDeleted = false → deleted.length = table.deleted.length) ∧
      getBit deleted row = (getBit table.deleted row || (decide (row < count) &&
        delta.isDeleted (table.idAt row) && (mode.growsDeleted || decide (row / 8 < table.deleted.length)))) := by
    induction count with
    | zero =>
      rintro deleted rfl
      simp
    | succ count ih =>
      rintro deleted rfl
      obtain ⟨length,bits⟩ := ih _ rfl
      rw [List.range_succ,List.foldl_append,List.foldl_cons,List.foldl_nil]
      generalize (List.range count).foldl _ table.deleted = before at length bits ⊢
      have other (different : row ≠ count) : decide (row < count + 1) = decide (row < count) := by
        apply decide_eq_decide.mpr
        omega
      split
      · rename_i gone
        split
        · rename_i grows
          refine ⟨fun fixed => absurd grows (by simp [fixed]),?_⟩
          rw [getBit_setBit _ _ _ (growTo_inside before count),getBit_growTo,bits]
          by_cases here : row = count
          · simp [here,gone,grows]
          · rw [other here]
            simp [here]
        · rename_i fixed
          have fixed : mode.growsDeleted = false := by simpa using fixed
          split
          · rename_i inside
            refine ⟨fun _ => by rw [length_setBit,length fixed],?_⟩
            rw [getBit_setBit _ _ _ inside,bits]
            rw [length fixed] at inside
            by_cases here : row = count
            · simp [here,gone,inside]
            · rw [other here]
              simp [here]
          · rename_i outside
            refine ⟨length,?_⟩
            rw [bits]
            rw [length fixed] at outside
            by_cases here : row = count
            · simp [here,fixed,outside]
            · rw [other here]
      · rename_i kept
        refine ⟨length,?_⟩
        rw [bits]
        by_cases here : row = count
        · simp [here,kept]
        · rw [other here]
  exact (marked table.ids.length _ rfl).2

/-! One update and one cell. -/

theorem kind_writeValue (bytes : Nat) (data : ColumnData) (row : Nat) (value : Value) :
    (writeValue bytes data row value).kind = data.kind := by
  unfold writeValue
  split <;> rfl

theorem filled_writeValue {data : ColumnData} {count : Nat} (bytes row : Nat) (value : Value)
    (filled : data.Filled count) :
    (writeValue bytes data row value).Filled count := by
  unfold writeValue
  split
  case h_4 =>
    split <;> simp_all [ColumnData.Filled]
  all_goals simp_all [ColumnData.Filled]

theorem value_writeValue {data : ColumnData} {count row : Nat} (bytes : Nat) (value : Value)
    (filled : data.Filled count) (inside : row < count) (other : Nat) :
    (writeValue bytes data row value).value other =
      if other = row then (takes bytes row data.kind value).getD (data.value other) else data.value other := by
  by_cases here : other = row
  · subst here
    rw [if_pos rfl]
    unfold writeValue takes
    split
    case h_4 =>
      by_cases reached : other / 8 < bytes
      · rw [if_pos reached, if_neg (fun both => absurd reached (Nat.not_lt.mpr both.2))]
        simp_all [ColumnData.Filled, ColumnData.value, ColumnData.kind, stores]
      · have skipped : bytes ≤ other / 8 := Nat.not_lt.mp reached
        simp [ColumnData.value, ColumnData.kind, reached, skipped]
    case h_5 =>
      split
      · rfl
      · cases data <;> cases value <;> simp_all [ColumnData.kind, stores]
    all_goals simp_all [ColumnData.Filled, ColumnData.value, ColumnData.kind, stores]
  · rw [if_neg here]
    have different : row ≠ other := fun same => here same.symm
    unfold writeValue
    split
    case h_4 =>
      split <;> simp [ColumnData.value, List.getElem?_set_ne different]
    all_goals simp [ColumnData.value, List.getD_eq_getElem?_getD, List.getElem?_set_ne different]

/-- A row beyond the packed bytes still reads false after a write. -/
theorem unbacked_writeValue {bytes : Nat} {data : ColumnData} {row : Nat} {value : Value} {values : List Bool}
    (before : ∀ other values, data = .bool values → bytes ≤ other / 8 → values.getD other false = false)
    (written : writeValue bytes data row value = .bool values) {other : Nat} (beyond : bytes ≤ other / 8) :
    values.getD other false = false := by
  unfold writeValue at written
  split at written <;> try cases written
  · rename_i value data
    split
    · rename_i reached
      have different : row ≠ other := fun same => absurd reached (by rw [same]; exact Nat.not_lt.mpr beyond)
      rw [List.getD_eq_getElem?_getD, List.getElem?_set_ne different, ← List.getD_eq_getElem?_getD]
      exact before other data rfl beyond
    · exact before other data rfl beyond
  · exact before other values rfl beyond

def slot (table : MemTable) (column row : Nat) : Option (Kind × Scalar) × Bool :=
  (table.columns[column]?.map (fun data => (data.kind,data.value row)),table.isNull column row)

def stepSlot (mode : Mode) (bytes row : Nat) (value : Value) :
    Option (Kind × Scalar) × Bool → Option (Kind × Scalar) × Bool
  | (content, null) => (content.map (fun entry => (entry.1, (takes bytes row entry.1 value).getD entry.2)),
    if mode.writesNulls ∧ (writesCell value ∨ isNullValue value) then isNullValue value else null)

theorem getIndex_lt {table : MemTable} {name : String} {column : Nat} (found : table.getIndex name = some column) :
    ∃ entry, table.schema[column]? = some entry ∧ entry.1 = name := by
  obtain ⟨inside,matches_,_⟩ := List.findIdx?_eq_some_iff_getElem.mp found
  exact ⟨_,List.getElem?_eq_getElem inside,by simpa using matches_⟩

theorem applyUpdate_frame (mode : Mode) (table : MemTable) (row : Nat) (name : String) (value : Value) :
    (applyUpdate mode table row name value).ids = table.ids ∧
    (applyUpdate mode table row name value).schema = table.schema ∧
    (applyUpdate mode table row name value).deleted = table.deleted ∧
    (applyUpdate mode table row name value).boolBytes = table.boolBytes := by
  unfold applyUpdate
  split
  · exact ⟨rfl, rfl, rfl, rfl⟩
  · split <;> exact ⟨rfl, rfl, rfl, rfl⟩

theorem applyUpdate_loaded (mode : Mode) {table : MemTable} (loaded : table.Loaded) (row : Nat) (name : String)
    (value : Value) : (applyUpdate mode table row name value).Loaded := by
  unfold applyUpdate
  split
  · exact loaded
  split
  · refine ⟨loaded.names,
      by simpa using loaded.columns, ?_, fun data member => ?_, fun column values other present beyond => ?_⟩
    · dsimp only
      split
      · simpa using loaded.nulls
      · exact loaded.nulls
    · obtain ⟨index,found⟩ := List.mem_iff_getElem?.mp member
      rw [List.getElem?_modify] at found
      obtain ⟨before,present,rfl⟩ := Option.map_eq_some_iff.mp found
      have filled := loaded.filled before (List.mem_of_getElem? present)
      change ColumnData.Filled table.ids.length (if _ then _ else _)
      split
      · exact filled_writeValue _ row value filled
      · exact filled
    · dsimp only at present
      rw [List.getElem?_modify] at present
      obtain ⟨before, old, written⟩ := Option.map_eq_some_iff.mp present
      have backed := fun other values (same : before = .bool values) =>
        loaded.unbacked column values other (by rw [old, same])
      split at written
      · rename_i same
        rw [same] at written
        exact unbacked_writeValue backed written beyond
      · exact backed other values written beyond
  · exact loaded

theorem slot_applyUpdate (mode : Mode) {table : MemTable} (loaded : table.Loaded) {target : Nat} (name : String)
    (value : Value) (inside : target < table.ids.length) (column row : Nat) :
    slot (applyUpdate mode table target name value) column row =
      if table.getIndex name = some column ∧ row = target then
        stepSlot mode (table.boolBytes.getD column 0) row value (slot table column row)
      else slot table column row := by
  unfold applyUpdate
  split
  · rename_i missing
    simp [missing]
  rename_i index found
  have bound : index < table.schema.length := by
    obtain ⟨entry,present,_⟩ := getIndex_lt found
    exact (List.getElem?_eq_some_iff.mp present).1
  rw [if_pos (by rw [loaded.columns]; exact bound)]
  by_cases same : index = column
  swap
  · -- Another column: neither its data nor its bitmap changes.
    have missed : ¬ (table.getIndex name = some column ∧ row = target) := by
      rw [found]
      exact fun hit => same (Option.some.inj hit.1)
    rw [if_neg missed]
    unfold slot isNull
    dsimp only
    congr 1
    · simp [same]
    · split
      · simp [List.getD_eq_getElem?_getD,same]
      · rfl
  subst same
  have present : index < table.columns.length := by rw [loaded.columns]; exact bound
  have bitmap : index < table.nulls.length := by rw [loaded.nulls]; exact bound
  have filled := loaded.filled _ (List.getElem_mem present)
  have data : (table.columns.modify index (fun data => writeValue (table.boolBytes.getD index 0) data target
    value))[index]? =
      some (writeValue (table.boolBytes.getD index 0) table.columns[index] target value) := by
    simp [present]
  have nullBit : getBit ((table.nulls.modify index (fun bitmap => assignBit bitmap target (isNullValue value))).getD
    index []) row =
      if row = target then isNullValue value else getBit (table.nulls.getD index []) row := by
    simp [bitmap,List.getD_eq_getElem?_getD,getBit_assignBit]
  unfold slot isNull
  dsimp only
  rw [data,List.getElem?_eq_getElem present]
  simp only [Option.map_some, kind_writeValue, value_writeValue _ value filled inside, found, true_and]
  by_cases here : row = target
  · rw [if_pos here, if_pos here]
    simp only [stepSlot, Option.map_some]
    congr 1
    · rw [here]
    · split
      · rw [nullBit, if_pos here]
      · rfl
  · rw [if_neg here,if_neg here]
    congr 1
    split
    · rw [nullBit,if_neg here]
    · rfl

/-! The whole run over the pending updates. -/

def pending (delta : DeltaStore) : List (UInt64 × String × Value) :=
  delta.updates.entries.flatMap (fun row => row.2.entries.map (fun update => (row.1,update.1,update.2)))

def applyOne (mode : Mode) (table : MemTable) (update : UInt64 × String × Value) : MemTable :=
  match table.idToIdx update.1 with
  | none => table
  | some row => applyUpdate mode table row update.2.1 update.2.2

theorem idToIdx_congr {table other : MemTable} (ids : table.ids = other.ids) (rowId : UInt64) :
    table.idToIdx rowId = other.idToIdx rowId := by
  unfold idToIdx idAt
  rw [ids]

theorem idToIdx_some {table : MemTable} {rowId : UInt64} {row : Nat} (found : table.idToIdx rowId = some row) :
    row < table.ids.length ∧ table.idAt row = rowId := by
  have member := List.mem_of_getLast? found
  simpa using member

theorem applyOne_frame (mode : Mode) (table : MemTable) (update : UInt64 × String × Value) :
    (applyOne mode table update).ids = table.ids ∧ (applyOne mode table update).schema = table.schema ∧
    (applyOne mode table update).deleted = table.deleted ∧ (applyOne mode table update).boolBytes =
    table.boolBytes := by
  unfold applyOne
  split
  · exact ⟨rfl, rfl, rfl, rfl⟩
  · exact applyUpdate_frame mode table _ _ _

theorem applyOne_loaded (mode : Mode) {table : MemTable} (loaded : table.Loaded) (update : UInt64 × String × Value) :
    (applyOne mode table update).Loaded := by
  unfold applyOne
  split
  · exact loaded
  · exact applyUpdate_loaded mode loaded _ _ _

theorem applyRow_eq (mode : Mode) (table : MemTable) (rowId : UInt64) (updates : List (Sigma fun _ : String => Value)) :
    (match table.idToIdx rowId with
      | none => table
      | some row => updates.foldl (fun table update => applyUpdate mode table row update.1 update.2) table) =
      (updates.map (fun update => (rowId,update.1,update.2))).foldl (applyOne mode) table := by
  induction updates generalizing table with
  | nil => cases table.idToIdx rowId <;> rfl
  | cons update rest ih =>
    rw [List.map_cons,List.foldl_cons,← ih]
    have same := idToIdx_congr (applyOne_frame mode table (rowId,update.1,update.2)).1 rowId
    rw [same]
    unfold applyOne
    cases table.idToIdx rowId <;> rfl

theorem applyDeltas_eq (mode : Mode) (table : MemTable) (delta : DeltaStore) :
    applyDeltas mode table delta =
      (pending delta).foldl (applyOne mode) {table with deleted := markDeleted mode table delta} := by
  unfold applyDeltas pending
  rw [List.foldl_flatMap]
  congr 1
  funext table row
  exact applyRow_eq mode table row.1 row.2.entries

theorem run_frame (mode : Mode) (updates : List (UInt64 × String × Value)) (table : MemTable) :
    (updates.foldl (applyOne mode) table).ids = table.ids ∧ (updates.foldl (applyOne mode) table).schema =
    table.schema ∧
    (updates.foldl (applyOne mode) table).deleted = table.deleted := by
  induction updates generalizing table with
  | nil => exact ⟨rfl, rfl, rfl⟩
  | cons update rest ih =>
    obtain ⟨ids, schema, deleted⟩ := ih (applyOne mode table update)
    obtain ⟨idsStep, schemaStep, deletedStep, _⟩ := applyOne_frame mode table update
    exact ⟨ids.trans idsStep, schema.trans schemaStep, deleted.trans deletedStep⟩

def hits (table : MemTable) (column row : Nat) (update : UInt64 × String × Value) : Bool :=
  table.idToIdx update.1 = some row ∧ table.getIndex update.2.1 = some column

theorem hits_congr {table other : MemTable} (ids : table.ids = other.ids) (schema : table.schema = other.schema)
    (column row : Nat) : hits table column row = hits other column row := by
  funext update
  unfold hits getIndex
  rw [idToIdx_congr ids,schema]

theorem slot_applyOne (mode : Mode) {table : MemTable} (loaded : table.Loaded) (update : UInt64 × String × Value)
    (column row : Nat) : slot (applyOne mode table update) column row =
      if hits table column row update then
        stepSlot mode (table.boolBytes.getD column 0) row update.2.2 (slot table column row)
      else slot table column row := by
  unfold applyOne hits
  cases found : table.idToIdx update.1 with
  | none => simp
  | some target =>
    have inside := (idToIdx_some found).1
    dsimp only
    rw [slot_applyUpdate mode loaded update.2.1 update.2.2 inside]
    by_cases same : row = target
    · simp [same]
    · have different : ¬ target = row := fun equal => same equal.symm
      simp [same,different]

theorem slot_run (mode : Mode) (column row : Nat) (updates : List (UInt64 × String × Value))
    (distinct : (updates.map (fun update => (update.1,update.2.1))).Nodup) {table : MemTable} (loaded : table.Loaded) :
    slot (updates.foldl (applyOne mode) table) column row =
      match updates.find? (hits table column row) with
      | none => slot table column row
      | some update => stepSlot mode (table.boolBytes.getD column 0) row update.2.2 (slot table column row) := by
  induction updates generalizing table with
  | nil => rfl
  | cons update rest ih =>
    rw [List.map_cons,List.nodup_cons] at distinct
    obtain ⟨ids, schema, _, bytes⟩ := applyOne_frame mode table update
    rw [List.foldl_cons, ih distinct.2 (applyOne_loaded mode loaded update), hits_congr ids schema, bytes,
      slot_applyOne mode loaded update, List.find?_cons]
    by_cases hit : hits table column row update
    · -- No later update reaches the cell: it would have the same row id and column.
      have none : rest.find? (hits table column row) = none := by
        apply List.find?_eq_none.mpr
        intro other member otherHit
        simp only [hits,decide_eq_true_eq] at hit otherHit
        obtain ⟨entry,present,name⟩ := getIndex_lt hit.2
        obtain ⟨otherEntry,otherPresent,otherName⟩ := getIndex_lt otherHit.2
        have sameEntry : entry = otherEntry := Option.some.inj (present.symm.trans otherPresent)
        have sameId : other.1 = update.1 := (idToIdx_some otherHit.1).2.symm.trans (idToIdx_some hit.1).2
        have sameName : other.2.1 = update.2.1 := by rw [← name,← otherName,sameEntry]
        exact distinct.1 (List.mem_map.mpr ⟨other,member,by rw [sameId,sameName]⟩)
      simp [none,hit]
    · simp [hit]

theorem mem_pending {delta : DeltaStore} {rowId : UInt64} {name : String} {value : Value} :
    (rowId,name,value) ∈ pending delta ↔ delta.getUpdatedValue rowId name = some value := by
  simp only [pending,List.mem_flatMap,List.mem_map,DeltaStore.getUpdatedValue,Option.bind_eq_some_iff,Prod.mk.injEq]
  constructor
  · rintro ⟨row,member,update,inner,rfl,rfl,rfl⟩
    exact ⟨row.2,AList.mem_lookup_iff.mpr member,AList.mem_lookup_iff.mpr inner⟩
  · rintro ⟨columns,row,column⟩
    exact ⟨⟨rowId,columns⟩,AList.mem_lookup_iff.mp row,⟨name,value⟩,AList.mem_lookup_iff.mp column,rfl,rfl,rfl⟩

theorem pending_distinct (delta : DeltaStore) : ((pending delta).map (fun update => (update.1,update.2.1))).Nodup := by
  have shape : (pending delta).map (fun update => (update.1,update.2.1)) =
      delta.updates.entries.flatMap (fun row => row.2.keys.map (fun name => (row.1,name))) := by
    simp [pending,List.map_flatMap,AList.keys,List.keys,Function.comp_def]
  rw [shape,List.nodup_flatMap]
  constructor
  · intro row _
    exact row.2.keys_nodup.map (fun _ _ same => (Prod.mk.inj same).2)
  · have rows := List.pairwise_map.mp delta.updates.keys_nodup
    apply rows.imp
    intro row other different
    refine List.disjoint_left.mpr ?_
    rintro key left right
    obtain ⟨_,_,rfl⟩ := List.mem_map.mp left
    obtain ⟨_,_,same⟩ := List.mem_map.mp right
    exact different (Prod.mk.inj same).1.symm

/-- Only the last row of an id is written. -/
def isLast (table : MemTable) (row : Nat) : Bool := table.idToIdx (table.idAt row) = some row

section
variable {table : MemTable} (loaded : table.Loaded)
include loaded

theorem getIndex_nameAt {column : Nat} (inside : column < table.schema.length) :
    table.getIndex (table.nameAt column) = some column := by
  apply List.findIdx?_eq_some_iff_getElem.mpr
  refine ⟨inside,by simp [nameAt,inside],fun earlier before => ?_⟩
  have distinct := List.nodup_iff_injective_get.mp loaded.names
  have bound : earlier < table.schema.length := Nat.lt_trans before inside
  simp only [nameAt,List.getElem?_eq_getElem inside,Option.map_some,Option.getD_some,beq_iff_eq]
  intro same
  have equal := @distinct ⟨earlier,by simpa using bound⟩ ⟨column,by simpa using inside⟩ (by simpa using same)
  simp only [Fin.mk.injEq] at equal
  omega

theorem find_pending (delta : DeltaStore) {column : Nat} (row : Nat)
    (inside : column < table.schema.length) :
    (pending delta).find? (hits table column row) =
      if table.isLast row then
        (delta.getUpdatedValue (table.idAt row) (table.nameAt column)).map (fun value =>
          (table.idAt row,table.nameAt column,value))
      else none := by
  have hit (update : UInt64 × String × Value) : hits table column row update = true ↔
      table.isLast row = true ∧ update.1 = table.idAt row ∧ update.2.1 = table.nameAt column := by
    simp only [hits,isLast,decide_eq_true_eq]
    constructor
    · rintro ⟨found,index⟩
      have id := (idToIdx_some found).2
      obtain ⟨entry,present,name⟩ := getIndex_lt index
      refine ⟨by rw [id]; exact found,id.symm,?_⟩
      rw [nameAt,present]
      exact name.symm
    · rintro ⟨last,id,name⟩
      exact ⟨by rw [id]; exact last,by rw [name]; exact getIndex_nameAt loaded inside⟩
  cases found : (pending delta).find? (hits table column row) with
  | some update =>
    obtain ⟨last,id,name⟩ := (hit update).mp (List.find?_some found)
    have member := List.mem_of_find?_eq_some found
    obtain ⟨rowId,columnName,value⟩ := update
    obtain ⟨rfl,rfl⟩ := And.intro id name
    simp [last,mem_pending.mp member]
  | none =>
    split
    · rename_i last
      cases updated : delta.getUpdatedValue (table.idAt row) (table.nameAt column) with
      | none => rfl
      | some value =>
        have missed := List.find?_eq_none.mp found _ (mem_pending.mpr updated)
        exact absurd ((hit _).mpr ⟨last,rfl,rfl⟩) missed
    · rfl

theorem marked_loaded (deleted : Bytes) :
    ({table with deleted := deleted} : MemTable).Loaded :=
  ⟨loaded.names, loaded.columns, loaded.nulls, loaded.filled, loaded.unbacked⟩

end

theorem slot_applyDeltas (mode : Mode) {table : MemTable} (loaded : table.Loaded) (delta : DeltaStore) {column : Nat}
    (row : Nat) (inside : column < table.schema.length) :
    slot (applyDeltas mode table delta) column row =
      match (if table.isLast row then delta.getUpdatedValue (table.idAt row) (table.nameAt column) else none) with
      | none => slot table column row
      | some value => stepSlot mode (table.boolBytes.getD column 0) row value (slot table column row) := by
  have same := slot_run mode column row (pending delta) (pending_distinct delta)
    (marked_loaded loaded (markDeleted mode table delta))
  rw [applyDeltas_eq,same]
  change (match (pending delta).find? (hits table column row) with
    | none => slot table column row
    | some update => stepSlot mode (table.boolBytes.getD column 0) row update.2.2 (slot table column row)) = _
  rw [find_pending loaded delta row inside]
  split <;> rename_i found
  · split at found
    · rename_i last
      rw [if_pos last,Option.map_eq_none_iff.mp found]
    · rename_i notLast
      rw [if_neg notLast]
  · split at found
    · rename_i last
      obtain ⟨value,updated,rfl⟩ := Option.map_eq_some_iff.mp found
      rw [if_pos last,updated]
    · cases found

/-! When one cell agrees. -/

/-- The ways in which an in-place write, of which the row takes `taken`, leaves a cell
as the overlay shows it. -/
inductive Carried (mode : Mode) (type : ColumnType) (arrow : ArrowType) (kind : Kind) (null : Bool) (value : Scalar)
    (taken : Option Scalar) (update : Value) : Prop
  /-- The row takes the value, its Arrow type has an overlay and no NULL marker stays behind. -/
  | stored (scalar : Scalar) (takes : taken = some scalar) (typed : arrow ≠ .other)
      (marked : mode.writesNulls = true ∨ null = false)
  /-- NULL, where markers are written and read. -/
  | nulled (isNull : isNullValue update = true) (tracked : mode.writesNulls = true)
      (honoured : kind ≠ .binary ∨ type = .blob)
  /-- The row takes a value that the overlay ignores, and it was there already. -/
  | repeated (scalar : Scalar) (takes : taken = some scalar) (untyped : arrow = .other)
      (same : present type kind null value = present type kind (null && !mode.writesNulls) scalar)
  /-- The row does not take the value, and the overlay shows what it holds. -/
  | ignored (refuses : taken = none)
      (same : overlay arrow (present type kind null value) update =
        present type kind (null && !(mode.writesNulls && writesCell update)) value)

private theorem overlay_null {update : Value} (isNull : isNullValue update = true) (arrow : ArrowType) (base : Scalar) :
    overlay arrow base update = .null := by
  cases update <;> simp only [isNullValue,Bool.false_eq_true] at isNull
  cases arrow <;> rfl

private theorem overlay_other {update : Value} (notNull : isNullValue update = false) (base : Scalar) :
    overlay .other base update = base := by
  cases update <;> first | rfl | cases notNull

private theorem stores_of_takes {bytes row : Nat} {kind : Kind} {update : Value} {scalar : Scalar}
    (taken : takes bytes row kind update = some scalar) : stores kind update = some scalar := by
  unfold takes at taken
  split at taken
  · cases taken
  · exact taken

private theorem stores_writes {kind : Kind} {update : Value} {scalar : Scalar}
    (takes : stores kind update = some scalar) :
    writesCell update = true ∧ isNullValue update = false ∧ scalar ≠ .null := by
  unfold stores at takes
  split at takes <;> cases takes <;> exact ⟨rfl,rfl,by simp⟩

private theorem overlay_stored {type : ColumnType} {data : ColumnData} {nullAt : Nat → Bool} {live : List Nat}
    {update : Value} {scalar : Scalar} (takes : stores data.kind update = some scalar)
    (typed : arrowType type data nullAt live ≠ .other)
    (base : Scalar) : overlay (arrowType type data nullAt live) base update = scalar ∧
    present type data.kind false scalar = scalar := by
  cases data with
  | bool values => cases update <;> cases takes; exact ⟨rfl,rfl⟩
  | float64 values => cases update <;> cases takes; exact ⟨rfl,rfl⟩
  | string values =>
    have utf8 : arrowType type (.string values) nullAt live = .utf8 := by
      simp only [arrowType] at typed ⊢
      split at typed
      · exact absurd rfl typed
      · rename_i short
        rw [if_neg short]
    rw [utf8]
    cases update <;> cases takes
    exact ⟨rfl,rfl⟩
  | int64 values =>
    have untimed : isTimeFamily type = false := by
      simp only [arrowType] at typed
      split at typed
      · exact absurd rfl typed
      · rename_i untimed
        simpa using untimed
    have plain : arrowType type (.int64 values) nullAt live = .int64 := by simp [arrowType,untimed]
    rw [plain]
    cases update <;> cases takes
    refine ⟨rfl,?_⟩
    cases type <;> first | rfl | cases untimed
  | binary values => cases update <;> cases takes
  | stringDict indices dict => cases update <;> cases takes
  | vectors codec dim rows => cases update <;> cases takes

private theorem present_null (type : ColumnType) {kind : Kind} (value : Scalar)
    (honoured : kind ≠ .binary ∨ type = .blob) :
    present type kind true value = .null := by
  unfold present
  split
  · simp_all
  · rfl
  · rfl

private theorem present_plainBinary {type : ColumnType} {kind : Kind} (plain : ¬ (kind ≠ .binary ∨ type = .blob))
    (null : Bool)
    (value : Scalar) : present type kind null value = value := by
  rw [not_or,not_not] at plain
  rw [plain.1]
  simp [present,plain.2]

theorem carried_iff (mode : Mode) (type : ColumnType) (data : ColumnData) (nullAt : Nat → Bool) (live : List Nat)
    (null : Bool) (value : Scalar) (bytes row : Nat) (update : Value) :
    Carried mode type (arrowType type data nullAt live) data.kind null value (takes bytes row data.kind update) update ↔
      present type data.kind (stepSlot mode bytes row update (none, null)).2
        ((takes bytes row data.kind update).getD value) =
        overlay (arrowType type data nullAt live) (present type data.kind null value) update := by
  constructor
  · intro carried
    cases carried with
    | stored scalar takes typed marked =>
      obtain ⟨writes, notNull, _⟩ := stores_writes (stores_of_takes takes)
      obtain ⟨shown,same⟩ := overlay_stored (stores_of_takes takes) typed (present type data.kind null value)
      have cleared : (stepSlot mode bytes row update (none, null)).2 = false := by
        rcases marked with tracked | unset
        · simp [stepSlot,tracked,writes,notNull]
        · simp [stepSlot,notNull,unset]
      rw [cleared,takes,Option.getD_some,shown,same]
    | nulled isNull tracked honoured =>
      have marked : (stepSlot mode bytes row update (none, null)).2 = true := by simp [stepSlot,tracked,isNull]
      rw [marked,present_null type _ honoured,overlay_null isNull]
    | repeated scalar takes untyped same =>
      obtain ⟨writes, notNull, _⟩ := stores_writes (stores_of_takes takes)
      have marker : (stepSlot mode bytes row update (none, null)).2 = (null && !mode.writesNulls) := by
        cases tracked : mode.writesNulls <;> simp [stepSlot,tracked,writes,notNull]
      rw [marker,takes,Option.getD_some,untyped,overlay_other notNull,same]
    | ignored refuses same =>
      rw [refuses,Option.getD_none,same]
      cases isNull : isNullValue update with
      | false =>
        cases tracked : mode.writesNulls <;> cases writes : writesCell update <;> simp [stepSlot,tracked,writes,isNull]
      | true =>
        have notWrites : writesCell update = false := by cases update <;> first | rfl | cases isNull
        cases tracked : mode.writesNulls with
        | false => simp [stepSlot,tracked]
        | true =>
          have marked : (stepSlot mode bytes row update (none, null)).2 = true := by simp [stepSlot,tracked,isNull]
          rw [overlay_null isNull] at same
          rw [tracked] at same
          by_cases honoured : data.kind ≠ .binary ∨ type = .blob
          · rw [marked,present_null type _ honoured,same]
          · rw [present_plainBinary honoured,present_plainBinary honoured]
  · intro agrees
    cases taken : takes bytes row data.kind update with
    | some scalar =>
      obtain ⟨writes, notNull, solid⟩ := stores_writes (stores_of_takes taken)
      have marker : (stepSlot mode bytes row update (none, null)).2 = (null && !mode.writesNulls) := by
        cases tracked : mode.writesNulls <;> simp [stepSlot,tracked,writes,notNull]
      rw [marker,taken,Option.getD_some] at agrees
      by_cases typed : arrowType type data nullAt live = .other
      · rw [typed,overlay_other notNull] at agrees
        exact .repeated scalar rfl typed agrees.symm
      · refine .stored scalar rfl typed ?_
        obtain ⟨shown,_⟩ := overlay_stored (stores_of_takes taken) typed (present type data.kind null value)
        rw [shown] at agrees
        cases tracked : mode.writesNulls with
        | true => exact Or.inl rfl
        | false =>
          cases null with
          | false => exact Or.inr rfl
          | true =>
            have honoured : data.kind ≠ .binary ∨ type = .blob := by
              left
              intro binary
              have stored := stores_of_takes taken
              rw [binary] at stored
              cases update <;> cases stored
            rw [tracked,Bool.not_false,Bool.and_true,present_null type _ honoured] at agrees
            exact absurd agrees.symm solid
    | none =>
      rw [taken,Option.getD_none] at agrees
      cases isNull : isNullValue update with
      | false =>
        refine .ignored rfl ?_
        rw [← agrees]
        cases tracked : mode.writesNulls <;> cases writes : writesCell update <;> simp [stepSlot,tracked,writes,isNull]
      | true =>
        have notWrites : writesCell update = false := by cases update <;> first | rfl | cases isNull
        cases tracked : mode.writesNulls with
        | false =>
          refine .ignored rfl ?_
          rw [← agrees]
          simp [stepSlot,tracked]
        | true =>
          by_cases honoured : data.kind ≠ .binary ∨ type = .blob
          · exact .nulled isNull tracked honoured
          · refine .ignored rfl ?_
            rw [← agrees,present_plainBinary honoured,present_plainBinary honoured]

end ApexBase.Storage.MemTable
