import Mathlib.Data.Bool.Count
import ApexBase.GroupFile.DeletionBitmap
import ApexBase.Library.LastIndex
import ApexBase.Storage.UpdateLog

/-! Soft deletes (`storage/on_demand/read_write.rs`): the tombstones of the rows, the ids that the
delta store deletes, and the count of the rows that are left. -/
namespace ApexBase.Storage.Deletions
open Library.Assoc
open Library.Wire
open Library.LastIndex (build)
open GroupFile (packed joined)

/-- The row groups of a file: the ids of the rows, and which of them are deleted. A row that
comes again is deleted where it stood before. -/
structure BaseFile where
  headerRows : Nat
  groups : List (List (UInt64 × Bool))
  replaced : groups.flatten.Pairwise fun earlier later => earlier.1 = later.1 → earlier.2 = true
  room : groups.flatten.length < 2^64

namespace BaseFile

def ids (file : BaseFile) : List UInt64 := file.groups.flatten.map fun row => row.1

def flags (file : BaseFile) : List (List Bool) := file.groups.map fun rows => rows.map fun row => row.2

def liveRows (file : BaseFile) : Nat := (file.flags.map fun flags => flags.length - flags.count true).sum

/-- The deletion vectors are set end to end. -/
def readBaseIdsAndDeletions (file : BaseFile) : List UInt64 × Bytes := (file.ids,joined file.flags)

end BaseFile

structure Table where
  file : BaseFile
  ids : List UInt64
  deleted : Bytes
  idToIdx : Option (Map UInt64 Nat)
  activeCount : UInt64
  isV4Format : Bool
  hasColumns : Bool
  v4BaseLoaded : Bool
  deltaStore : UpdateLog.DeltaStore
  deltaIds : Option (List UInt64)

namespace Table

def ensureIdsLoaded (table : Table) : Table :=
  if table.ids ≠ [] then table
  else if table.file.headerRows = 0 then table
  else
    let (baseIds,deletedAcc) := table.file.readBaseIdsAndDeletions
    if baseIds.isEmpty && deletedAcc.isEmpty then table
    else {table with
      ids := baseIds
      deleted := if deletedAcc.isEmpty then table.deleted else deletedAcc}

def ensureIdIndex (table : Table) : Table :=
  let table := table.ensureIdsLoaded
  match table.idToIdx with
  | none => {table with idToIdx := some (build table.ids)}
  | some _ => table

def map (table : Table) : Map UInt64 Nat := table.idToIdx.getD ∅

def isDeleted (table : Table) (rowIdx : Nat) : Bool := getBit table.deleted rowIdx

def tombstone (deleted : Bytes) (rowIdx : Nat) : Bool × Bytes :=
  let deleted := growTo deleted rowIdx
  (getBit deleted rowIdx,setBit deleted rowIdx)

def delete (table : Table) (id : UInt64) : Bool × Table :=
  if table.deltaStore.isDeleted id then (false,table)
  else
    let table := table.ensureIdIndex
    match table.map.lookup id with
    | some rowIdx =>
      let (wasDeleted,deleted) := tombstone table.deleted rowIdx
      (!wasDeleted,{table with
        deleted := deleted
        activeCount := if wasDeleted then table.activeCount else table.activeCount - 1})
    | none => (false,table)

def hasV4InMemoryData (table : Table) : Bool := table.isV4Format && table.hasColumns

def pendingV4InMemoryRows (table : Table) : Nat :=
  let onDiskRows := table.file.ids.length
  if !table.isV4Format then 0
  else if table.ids.length = 0 || !table.hasV4InMemoryData then 0
  else if onDiskRows = 0 then table.ids.length
  else if !table.v4BaseLoaded then table.ids.length
  else if table.ids.length < onDiskRows then table.ids.length
  else table.ids.length - onDiskRows

/-- The last id, and if it is another one, the first place from `start` on. -/
def pendingRowIdx (table : Table) (start : Nat) (id : UInt64) : Option Nat :=
  if table.ids[table.ids.length - 1]? = some id then some (table.ids.length - 1)
  else ((table.ids.drop start).findIdx? fun rowId => rowId == id).map fun idx => start + idx

def deletePendingV4InMemoryRow (table : Table) (id : UInt64) : Bool × Table :=
  let pending := table.pendingV4InMemoryRows
  if pending = 0 then (false,table)
  else if table.ids.length = 0 then (false,table)
  else
    match table.pendingRowIdx (table.ids.length - pending) id with
    | none => (false,table)
    | some rowIdx =>
      let (wasDeleted,deleted) := tombstone table.deleted rowIdx
      if wasDeleted then (false,{table with deleted := growTo table.deleted rowIdx})
      else (true,{table with
        deleted := deleted
        activeCount := table.activeCount - 1})

def deleteEach (map : Map UInt64 Nat) (state : Bytes × UInt64 × Bool) (id : UInt64) : Bytes × UInt64 × Bool :=
  match map.lookup id with
  | some rowIdx =>
    let (wasDeleted,deleted) := tombstone state.1 rowIdx
    (deleted,if wasDeleted then state.2.1 else state.2.1 + 1,state.2.2)
  | none => (state.1,state.2.1,false)

def deleteBatch (table : Table) (ids : List UInt64) : Bool × Table :=
  let table := table.ensureIdIndex
  let (deleted,deletedCount,allFound) := ids.foldl (deleteEach table.map) (table.deleted,0,true)
  (allFound,{table with
    deleted := deleted
    activeCount := if deletedCount > 0 then table.activeCount - deletedCount else table.activeCount})

/-- The ids of the `.delta` file stand for rows that are not in the base. -/
def exists_ (table : Table) (id : UInt64) : Bool × Table :=
  if table.deltaStore.isDeleted id then (false,table)
  else
    let table := table.ensureIdIndex
    let inBase := match table.map.lookup id with
      | some rowIdx => !table.isDeleted rowIdx
      | none => false
    (inBase || (table.deltaIds.getD []).contains id,table)

def getRowIdx (table : Table) (id : UInt64) : Option Nat × Table :=
  if table.deltaStore.isDeleted id then (none,table)
  else
    let table := table.ensureIdIndex
    match table.map.lookup id with
    | some rowIdx => (if table.isDeleted rowIdx then none else some rowIdx,table)
    | none => (none,table)

end Table

inductive Op
  | delete (id : UInt64)
  | deleteBatch (ids : List UInt64)
  | deletePendingV4InMemoryRow (id : UInt64)
  | exists_ (id : UInt64)
  | getRowIdx (id : UInt64)
  | deleteRow (id : UInt64)
  | deleteRows (ids : List UInt64)

def step (table : Table) : Op → Table
  | .delete id => (table.delete id).2
  | .deleteBatch ids => (table.deleteBatch ids).2
  | .deletePendingV4InMemoryRow id => (table.deletePendingV4InMemoryRow id).2
  | .exists_ id => (table.exists_ id).2
  | .getRowIdx id => (table.getRowIdx id).2
  | .deleteRow id => {table with deltaStore := table.deltaStore.deleteRow id}
  | .deleteRows ids => {table with deltaStore := table.deltaStore.deleteRows ids}

def run (table : Table) (ops : List Op) : Table := ops.foldl step table

namespace Table

def indexedRows (table : Table) (deltaDeleted : Bool) : List (Sigma fun _ : UInt64 => Nat) :=
  table.ensureIdIndex.map.entries.filter fun entry =>
    !table.ensureIdIndex.isDeleted entry.2 && (table.deltaStore.isDeleted entry.1 == deltaDeleted)

structure Exact (table : Table) : Prop where
  counted : (table.activeCount.toNat : Int) - (table.indexedRows true).length = (table.indexedRows false).length
  delete : ∀ id, (table.delete id).1 = true ↔ ∃ rowIdx, ⟨id,rowIdx⟩ ∈ table.indexedRows false
  getRowIdx : ∀ id rowIdx, (table.getRowIdx id).1 = some rowIdx ↔ ⟨id,rowIdx⟩ ∈ table.indexedRows false
  exists_ : ∀ id, (table.exists_ id).1 = true ↔ (∃ rowIdx, ⟨id,rowIdx⟩ ∈ table.indexedRows false) ∨
    table.deltaStore.isDeleted id = false ∧ id ∈ table.deltaIds.getD []

def Settled (table : Table) : Prop := table.ids ≠ [] ∨ table.file.headerRows = 0 ∨ table.file.ids = []

end Table

/-- Merging bit by bit, unless a group starts on a whole byte. -/
def mergeDeletions : List (List Bool) → Nat → Bytes → Bytes
  | [],_,allDeleted => allDeleted
  | flags :: rest,idsBefore,allDeleted =>
    let rgRows := flags.length
    if rgRows = 0 then mergeDeletions rest idsBefore allDeleted
    else
      let delBytes := packed flags
      let neededLen := (idsBefore + rgRows + 7) / 8
      let allDeleted := allDeleted ++ List.replicate (neededLen - allDeleted.length) 0
      let merged :=
        if idsBefore % 8 = 0 then
          let copyLen := min delBytes.length (allDeleted.length - idsBefore / 8)
          allDeleted.take (idsBefore / 8) ++ (delBytes.take copyLen ++ allDeleted.drop (idsBefore / 8 + copyLen))
        else
          (List.range rgRows).foldl (fun allDeleted i => if getBit delBytes i then setBit allDeleted (idsBefore + i)
            else allDeleted) allDeleted
      mergeDeletions rest (idsBefore + rgRows) merged

def openV4Data (file : BaseFile) (hasColumns : Bool) (deltaStore : UpdateLog.DeltaStore)
    (deltaIds : Option (List UInt64)) : Table where
  file := file
  ids := file.ids
  deleted := let allDeleted := mergeDeletions file.flags 0 []
    allDeleted ++ List.replicate ((file.ids.length + 7) / 8 - allDeleted.length) 0
  idToIdx := none
  activeCount := UInt64.ofNat file.ids.length - UInt64.ofNat (file.flags.map fun flags => flags.count true).sum
  isV4Format := true
  hasColumns := hasColumns
  v4BaseLoaded := true
  deltaStore := deltaStore
  deltaIds := deltaIds

def openLazily (file : BaseFile) (deltaStore : UpdateLog.DeltaStore) (deltaIds : Option (List UInt64)) : Table where
  file := file
  ids := []
  deleted := List.replicate ((file.headerRows + 7) / 8) 0
  idToIdx := none
  activeCount := UInt64.ofNat file.liveRows
  isV4Format := true
  hasColumns := false
  v4BaseLoaded := false
  deltaStore := deltaStore
  deltaIds := deltaIds

def clear (ids : List UInt64) (deleted : Bytes) : Nat := Library.LastIndex.count ids fun row => !getBit deleted row

/-- A table whose rows are in memory: of the rows of one id only the last may be without a
tombstone, and the rows without one are counted. -/
structure LoadedTable extends Table where
  settled : toTable.Settled
  indexed : idToIdx = none ∨ idToIdx = some (build ids)
  newest : ∀ row id, ids[row]? = some id → getBit deleted row = false → (build ids).lookup id = some row
  counted : activeCount.toNat = clear ids deleted

namespace Table
variable {table : Table}

theorem ensureIdsLoaded_of_settled (settled : table.Settled) : table.ensureIdsLoaded = table := by
  unfold ensureIdsLoaded
  split
  · rfl
  · rename_i empty
    split
    · rfl
    · rename_i counted
      rcases settled with here | here | here
      · exact absurd here empty
      · exact absurd here counted
      · have none_ : table.file.groups.flatten = [] := List.map_eq_nil_iff.mp here
        have bare : joined table.file.flags = [] := by
          rw [joined,List.flatMap_eq_nil_iff]
          intro flags member
          obtain ⟨rows,inside,rfl⟩ := List.mem_map.mp member
          rw [List.flatten_eq_nil_iff.mp none_ rows inside]
          rfl
        rw [BaseFile.readBaseIdsAndDeletions,here,bare]
        rfl

theorem settled_ensureIdsLoaded (table : Table) : table.ensureIdsLoaded.Settled := by
  unfold ensureIdsLoaded
  split
  · rename_i loaded
    exact Or.inl loaded
  · split
    · rename_i empty
      exact Or.inr (Or.inl empty)
    · by_cases bare : table.file.ids = []
      · refine Or.inr (Or.inr ?_)
        dsimp only [BaseFile.readBaseIdsAndDeletions]
        split
        · exact bare
        · exact bare
      · refine Or.inl ?_
        have rows : table.file.ids.isEmpty = false := List.isEmpty_eq_false_iff.mpr bare
        dsimp only [BaseFile.readBaseIdsAndDeletions]
        rw [rows,Bool.false_and,if_neg (by decide)]
        exact bare

structure SameRest (table other : Table) : Prop where
  file : other.file = table.file
  activeCount : other.activeCount = table.activeCount
  isV4Format : other.isV4Format = table.isV4Format
  hasColumns : other.hasColumns = table.hasColumns
  deltaStore : other.deltaStore = table.deltaStore
  deltaIds : other.deltaIds = table.deltaIds

theorem ensureIdsLoaded_rest (table : Table) : SameRest table table.ensureIdsLoaded ∧
    table.ensureIdsLoaded.idToIdx = table.idToIdx := by
  unfold ensureIdsLoaded
  split
  · exact ⟨⟨rfl,rfl,rfl,rfl,rfl,rfl⟩,rfl⟩
  · split
    · exact ⟨⟨rfl,rfl,rfl,rfl,rfl,rfl⟩,rfl⟩
    · dsimp only
      split
      · exact ⟨⟨rfl,rfl,rfl,rfl,rfl,rfl⟩,rfl⟩
      · exact ⟨⟨rfl,rfl,rfl,rfl,rfl,rfl⟩,rfl⟩

def Indexed (table : Table) : Prop := table.idToIdx = none ∨ table.idToIdx = some (build table.ids) ∧ table.Settled

theorem ensureIdIndex_eq (indexed : table.Indexed) :
    table.ensureIdIndex = {table.ensureIdsLoaded with idToIdx := some (build table.ensureIdsLoaded.ids)} := by
  have kept := table.ensureIdsLoaded_rest.2
  unfold ensureIdIndex
  dsimp only
  rcases indexed with none_ | ⟨built,settled⟩
  · rw [kept,none_]
  · have same : {table with idToIdx := some (build table.ids)} = table := by rw [← built]
    rw [ensureIdsLoaded_of_settled settled,same,built]

def clearRows (table : Table) : Nat := clear table.ensureIdsLoaded.ids table.ensureIdsLoaded.deleted

theorem length_indexedRows (indexed : table.Indexed) :
    (table.indexedRows true).length + (table.indexedRows false).length = table.clearRows := by
  have split_ (deltaDeleted : Bool) : (table.indexedRows deltaDeleted).length =
      ((build table.ensureIdsLoaded.ids).entries.filter fun entry =>
        !getBit table.ensureIdsLoaded.deleted entry.2).countP
        fun entry => table.deltaStore.isDeleted entry.1 == deltaDeleted := by
    rw [indexedRows,ensureIdIndex_eq indexed,List.countP_filter,← List.countP_eq_length_filter]
    refine List.countP_congr fun entry _ => ?_
    rw [Bool.and_comm]
    rfl
  have parts := List.length_eq_countP_add_countP (fun entry : Sigma fun _ : UInt64 => Nat =>
    table.deltaStore.isDeleted entry.1 == true)
    (l := (build table.ensureIdsLoaded.ids).entries.filter fun entry => !getBit table.ensureIdsLoaded.deleted entry.2)
  have whole : table.clearRows = ((build table.ensureIdsLoaded.ids).entries.filter fun entry =>
    !getBit table.ensureIdsLoaded.deleted entry.2).length :=
    List.countP_eq_length_filter
  rw [split_,split_,whole,parts]
  refine congrArg _ (List.countP_congr fun entry _ => ?_)
  cases table.deltaStore.isDeleted entry.1 <;> simp

theorem mem_indexedRows (indexed : table.Indexed) (deltaDeleted : Bool) (id : UInt64) (rowIdx : Nat) :
    ⟨id,rowIdx⟩ ∈ table.indexedRows deltaDeleted ↔ (build table.ensureIdsLoaded.ids).lookup id = some rowIdx ∧
      getBit table.ensureIdsLoaded.deleted rowIdx = false ∧ table.deltaStore.isDeleted id = deltaDeleted := by
  rw [indexedRows,ensureIdIndex_eq indexed,List.mem_filter,Bool.and_eq_true,Bool.not_eq_true',beq_iff_eq]
  exact and_congr_left' AList.mem_lookup_iff.symm

end Table

/-! One row gets its tombstone. -/

section
open Library.LastIndex
variable {ids : List UInt64} {deleted : Bytes}

theorem getBit_tombstone (deleted : Bytes) (rowIdx row : Nat) :
    getBit (Table.tombstone deleted rowIdx).2 row = (getBit deleted row || decide (row = rowIdx)) := by
  rw [Table.tombstone,getBit_setBit _ _ _ (growTo_inside deleted rowIdx),getBit_growTo]

theorem tombstone_was (deleted : Bytes) (rowIdx : Nat) : (Table.tombstone deleted rowIdx).1 = getBit deleted rowIdx :=
  getBit_growTo deleted rowIdx rowIdx

theorem clear_tombstone {id : UInt64} {rowIdx : Nat} (found : (build ids).lookup id = some rowIdx) :
    clear ids (Table.tombstone deleted rowIdx).2 + (if getBit deleted rowIdx then 0 else 1) = clear ids deleted := by
  have bits : (fun row => !getBit (Table.tombstone deleted rowIdx).2 row) = fun row => !getBit deleted row &&
    decide (row ≠ rowIdx) := by
    funext row
    rw [getBit_tombstone,Bool.not_or,decide_not]
  rw [clear,bits]
  cases was : getBit deleted rowIdx with
  | true =>
    rw [if_pos rfl,Nat.add_zero]
    refine count_congr fun row _ => ?_
    by_cases here : row = rowIdx
    · rw [here,was]
      rfl
    · rw [decide_eq_true here,Bool.and_true]
  | false =>
    rw [if_neg (by decide)]
    exact count_remove found (by rw [was]; rfl)

def Grows (before after : Bytes) : Prop := ∀ row, getBit before row = true → getBit after row = true

theorem Grows.trans {first second third : Bytes} (early : Grows first second) (late : Grows second third) :
    Grows first third :=
  fun row set_ => late row (early row set_)

theorem grows_tombstone (deleted : Bytes) (rowIdx : Nat) : Grows deleted (Table.tombstone deleted rowIdx).2 := by
  intro row set_
  rw [getBit_tombstone,set_,Bool.true_or]

theorem deleteEach_spec (batch : List UInt64) (state : Bytes × UInt64 × Bool) :
    Grows state.1 (batch.foldl (Table.deleteEach (build ids)) state).1 ∧
    UInt64.ofNat (clear ids (batch.foldl (Table.deleteEach (build ids)) state).1) +
    (batch.foldl (Table.deleteEach (build ids)) state).2.1 =
      UInt64.ofNat (clear ids state.1) + state.2.1 ∧
    clear ids (batch.foldl (Table.deleteEach (build ids)) state).1 ≤ clear ids state.1 := by
  induction batch generalizing state with
  | nil => exact ⟨fun _ set_ => set_,rfl,Nat.le_refl _⟩
  | cons id rest ih =>
    rw [List.foldl_cons]
    obtain ⟨grows,counted,fewer⟩ := ih (Table.deleteEach (build ids) state id)
    cases found : (build ids).lookup id with
    | none =>
      have same : Table.deleteEach (build ids) state id = (state.1,state.2.1,false) := by
        rw [Table.deleteEach,found]
      rw [same] at grows counted fewer ⊢
      exact ⟨grows,counted,fewer⟩
    | some rowIdx =>
      have marked : Table.deleteEach (build ids) state id = ((Table.tombstone state.1 rowIdx).2,
          (if getBit state.1 rowIdx then state.2.1 else state.2.1 + 1),state.2.2) := by
        rw [Table.deleteEach,found,← tombstone_was]
      have taken := @clear_tombstone _ state.1 _ _ found
      have less : clear ids (Table.tombstone state.1 rowIdx).2 ≤ clear ids state.1 := by omega
      rw [marked] at grows counted fewer ⊢
      refine ⟨(grows_tombstone state.1 rowIdx).trans grows,?_,fewer.trans less⟩
      rw [counted,← taken]
      split
      · rfl
      · rw [UInt64.ofNat_add,UInt64.add_assoc,UInt64.add_comm state.2.1]
        rfl

end

/-! What every operation keeps. -/

structure Inv (drift : UInt64) (table : Table) : Prop where
  indexed : table.Indexed
  newest : table.hasV4InMemoryData = true → table.Settled ∧
    ∀ row id, table.ids[row]? = some id → getBit table.deleted row = false → (build table.ids).lookup id = some row
  counted : UInt64.ofNat table.clearRows = table.activeCount + drift
  room : table.clearRows < 2^64

namespace Inv
variable {drift : UInt64} {table : Table}

section
variable (inv : Inv drift table)
include inv

theorem marked (settled : table.Settled) {deleted : Bytes} {taken : UInt64} (grows : Grows table.deleted deleted)
    (counts : UInt64.ofNat (clear table.ids deleted) + taken = UInt64.ofNat (clear table.ids table.deleted))
    (fewer : clear table.ids deleted ≤ clear table.ids table.deleted) :
    Inv drift {table with deleted := deleted,activeCount := table.activeCount - taken} := by
  have before : table.clearRows = clear table.ids table.deleted := by
    rw [Table.clearRows,Table.ensureIdsLoaded_of_settled settled]
  have after : Table.clearRows {table with deleted := deleted,activeCount := table.activeCount - taken} =
    clear table.ids deleted := by
    rw [Table.clearRows,@Table.ensureIdsLoaded_of_settled {table with
      deleted := deleted,activeCount := table.activeCount - taken} settled]
  have counted := inv.counted
  have room := inv.room
  rw [before] at counted room
  refine ⟨inv.indexed,fun memory => ⟨settled,fun row id here bit => (inv.newest memory).2 row id here ?_⟩,?_,?_⟩
  · -- A row without a tombstone had none before.
    cases was : getBit table.deleted row with
    | false => rfl
    | true =>
      have now : getBit deleted row = false := bit
      rw [grows row was] at now
      cases now
  · rw [after]
    have sum : UInt64.ofNat (clear table.ids deleted) = table.activeCount + drift - taken := by
      rw [← counted,← counts,UInt64.add_sub_cancel]
    rw [sum]
    grind
  · rw [after]
    omega

theorem ensured : Inv drift table.ensureIdIndex ∧ table.ensureIdIndex.Settled ∧
    table.ensureIdIndex.map = build table.ensureIdIndex.ids := by
  have shape := Table.ensureIdIndex_eq inv.indexed
  have settled : table.ensureIdIndex.Settled := by
    rw [shape]
    exact table.settled_ensureIdsLoaded
  obtain ⟨rest,_⟩ := table.ensureIdsLoaded_rest
  have rows : table.ensureIdIndex.clearRows = table.clearRows := by
    rw [Table.clearRows,Table.ensureIdsLoaded_of_settled settled,shape]
    rfl
  refine ⟨⟨?_,?_,?_,?_⟩,settled,?_⟩
  · refine Or.inr ⟨?_,settled⟩
    rw [shape]
  · intro memory
    refine ⟨settled,?_⟩
    have before : table.hasV4InMemoryData = true := by
      rw [shape] at memory
      unfold Table.hasV4InMemoryData at memory ⊢
      dsimp only at memory
      rwa [rest.isV4Format,rest.hasColumns] at memory
    obtain ⟨loaded,newest⟩ := inv.newest before
    rw [shape,Table.ensureIdsLoaded_of_settled loaded]
    exact newest
  · rw [rows,inv.counted,shape]
    exact congrArg (· + drift) rest.activeCount.symm
  · rw [rows]
    exact inv.room
  · rw [shape]
    rfl

theorem delete (id : UInt64) : Inv drift (table.delete id).2 := by
  unfold Table.delete
  split
  · exact inv
  · obtain ⟨here,settled,mapped⟩ := inv.ensured
    dsimp only
    rw [mapped]
    cases found : (build table.ensureIdIndex.ids).lookup id with
    | none => exact here
    | some rowIdx =>
      have taken := @clear_tombstone _ table.ensureIdIndex.deleted _ _ found
      dsimp only
      rw [tombstone_was]
      have counts := @Inv.marked _ _ here settled _ (if getBit table.ensureIdIndex.deleted rowIdx then 0 else 1)
        (grows_tombstone table.ensureIdIndex.deleted rowIdx) ?_ (by omega)
      · split at counts
        · rename_i was
          rw [if_pos was]
          rwa [UInt64.sub_zero] at counts
        · rename_i was
          rw [if_neg was]
          exact counts
      · rw [← taken,UInt64.ofNat_add]
        split
        · rfl
        · rfl

theorem deleteBatch (ids : List UInt64) : Inv drift (table.deleteBatch ids).2 := by
  obtain ⟨here,settled,mapped⟩ := inv.ensured
  unfold Table.deleteBatch
  dsimp only
  rw [mapped]
  obtain ⟨grows,counts,fewer⟩ := deleteEach_spec ids (table.ensureIdIndex.deleted,0,true)
  rw [UInt64.add_zero] at counts
  have after := here.marked settled grows counts fewer
  split
  · exact after
  · rename_i none_
    have zero : (ids.foldl (Table.deleteEach (build table.ensureIdIndex.ids)) (table.ensureIdIndex.deleted,0,
      true)).2.1 = 0 :=
      UInt64.le_antisymm (UInt64.not_lt.mp none_) UInt64.zero_le
    rwa [zero,UInt64.sub_zero] at after

theorem deletePending (id : UInt64) : Inv drift (table.deletePendingV4InMemoryRow id).2 := by
  unfold Table.deletePendingV4InMemoryRow
  dsimp only
  split
  · exact inv
  · rename_i pending
    split
    · exact inv
    · rename_i rows
      have memory : table.hasV4InMemoryData = true := by
        by_contra absent
        refine pending ?_
        unfold Table.pendingV4InMemoryRows
        rw [Bool.not_eq_true] at absent
        rw [absent,Bool.not_false,Bool.or_true]
        split <;> rfl
      obtain ⟨settled,newest⟩ := inv.newest memory
      cases place : table.pendingRowIdx (table.ids.length - table.pendingV4InMemoryRows) id with
      | none => exact inv
      | some rowIdx =>
        have here : table.ids[rowIdx]? = some id := by
          unfold Table.pendingRowIdx at place
          split at place
          · rename_i last
            rw [← Option.some.inj place]
            exact last
          · obtain ⟨idx,found,rfl⟩ := Option.map_eq_some_iff.mp place
            obtain ⟨inside,same,_⟩ := List.findIdx?_eq_some_iff_getElem.mp found
            rw [← List.getElem?_drop,List.getElem?_eq_getElem inside,beq_iff_eq.mp same]
        dsimp only
        rw [tombstone_was]
        split
        · have same : clear table.ids (growTo table.deleted rowIdx) = clear table.ids table.deleted :=
            Library.LastIndex.count_congr fun row _ => by rw [getBit_growTo]
          have after := inv.marked settled
            (fun row set_ => by rw [getBit_growTo]; exact set_) (by rw [same,UInt64.add_zero]) (Nat.le_of_eq same)
          rwa [UInt64.sub_zero] at after
        · rename_i was
          have taken := @clear_tombstone _ table.deleted _ _ (newest rowIdx id here (Bool.eq_false_iff.mpr was))
          rw [if_neg was] at taken
          exact inv.marked settled (grows_tombstone table.deleted rowIdx) (by rw [← taken,UInt64.ofNat_add]; rfl)
            (by omega)

theorem exists_ (id : UInt64) : Inv drift (table.exists_ id).2 := by
  unfold Table.exists_
  split
  · exact inv
  · exact inv.ensured.1

theorem getRowIdx (id : UInt64) : Inv drift (table.getRowIdx id).2 := by
  unfold Table.getRowIdx
  split
  · exact inv
  · dsimp only
    split
    · exact inv.ensured.1
    · exact inv.ensured.1

end

theorem deltaStore (inv : Inv drift table) (store : UpdateLog.DeltaStore) :
    Inv drift {table with deltaStore := store} := by
  have rows : Table.ensureIdsLoaded {table with deltaStore := store} = {table.ensureIdsLoaded with
    deltaStore := store} := by
    unfold Table.ensureIdsLoaded
    dsimp only
    split
    · rfl
    · split
      · rfl
      · split <;> rfl
  have same : Table.clearRows {table with deltaStore := store} = table.clearRows := by
    rw [Table.clearRows,rows]
    rfl
  exact ⟨inv.indexed,inv.newest,same ▸ inv.counted,same ▸ inv.room⟩

theorem step (inv : Inv drift table) (op : Op) : Inv drift (step table op) := by
  cases op with
  | delete id => exact inv.delete id
  | deleteBatch ids => exact inv.deleteBatch ids
  | deletePendingV4InMemoryRow id => exact inv.deletePending id
  | exists_ id => exact inv.exists_ id
  | getRowIdx id => exact inv.getRowIdx id
  | deleteRow id => exact inv.deltaStore _
  | deleteRows ids => exact inv.deltaStore _

theorem run (inv : Inv drift table) (ops : List Op) : Inv drift (run table ops) := by
  induction ops generalizing table with
  | nil => exact inv
  | cons op rest ih => exact ih (inv.step op)

end Inv

namespace Table
variable {table : Table}

theorem delete_iff (indexed : table.Indexed) (id : UInt64) :
    (table.delete id).1 = true ↔ ∃ rowIdx, ⟨id,rowIdx⟩ ∈ table.indexedRows false := by
  simp only [mem_indexedRows indexed]
  unfold delete
  cases hidden : table.deltaStore.isDeleted id with
  | true => simp
  | false =>
    dsimp only
    rw [if_neg (by decide),ensureIdIndex_eq indexed]
    dsimp only [map,Option.getD_some]
    cases (build table.ensureIdsLoaded.ids).lookup id with
    | none => simp
    | some rowIdx => simp [tombstone_was]

theorem getRowIdx_iff (indexed : table.Indexed) (id : UInt64) (rowIdx : Nat) :
    (table.getRowIdx id).1 = some rowIdx ↔ ⟨id,rowIdx⟩ ∈ table.indexedRows false := by
  rw [mem_indexedRows indexed]
  unfold getRowIdx
  cases hidden : table.deltaStore.isDeleted id with
  | true => simp
  | false =>
    dsimp only
    rw [if_neg (by decide),ensureIdIndex_eq indexed]
    dsimp only [map,isDeleted,Option.getD_some]
    cases (build table.ensureIdsLoaded.ids).lookup id with
    | none => simp
    | some place =>
      by_cases same : place = rowIdx
      · subst same
        cases bit : getBit table.ensureIdsLoaded.deleted place <;> simp [bit]
      · cases bit : getBit table.ensureIdsLoaded.deleted place <;> simp [bit,same]

theorem exists_iff (indexed : table.Indexed) (id : UInt64) :
    (table.exists_ id).1 = true ↔ (∃ rowIdx, ⟨id,rowIdx⟩ ∈ table.indexedRows false) ∨
    table.deltaStore.isDeleted id = false ∧ id ∈ table.deltaIds.getD [] := by
  have deltaIds := table.ensureIdsLoaded_rest.1.deltaIds
  simp only [mem_indexedRows indexed]
  unfold exists_
  cases hidden : table.deltaStore.isDeleted id with
  | true => simp
  | false =>
    dsimp only
    rw [if_neg (by decide),ensureIdIndex_eq indexed]
    dsimp only [map,isDeleted,Option.getD_some]
    rw [deltaIds]
    cases (build table.ensureIdsLoaded.ids).lookup id with
    | none => simp
    | some place => simp

end Table

theorem Inv.exact_iff {drift : UInt64} {table : Table} (inv : Inv drift table) : table.Exact ↔ drift = 0 := by
  have parts := Table.length_indexedRows inv.indexed
  have counted := inv.counted
  have room := inv.room
  constructor
  · intro exact
    have total := exact.counted
    have same : table.activeCount = UInt64.ofNat table.clearRows := by
      rw [← UInt64.ofNat_toNat (x := table.activeCount)]
      exact congrArg UInt64.ofNat (by omega)
    rw [← same] at counted
    grind
  · rintro rfl
    rw [UInt64.add_zero] at counted
    have total : table.activeCount.toNat = table.clearRows := by
      rw [← counted]
      exact UInt64.toNat_ofNat_of_lt' room
    exact ⟨by omega,Table.delete_iff inv.indexed,Table.getRowIdx_iff inv.indexed,Table.exists_iff inv.indexed⟩

/-! Tables as they are opened. -/

theorem LoadedTable.inv (table : LoadedTable) : Inv 0 table.toTable := by
  have rows : table.clearRows = clear table.ids table.deleted := by
    rw [Table.clearRows,Table.ensureIdsLoaded_of_settled table.settled]
  have counted := table.counted
  rw [← rows] at counted
  refine ⟨?_,fun _ => ⟨table.settled,table.newest⟩,?_,?_⟩
  · rcases table.indexed with none_ | built
    · exact Or.inl none_
    · exact Or.inr ⟨built,table.settled⟩
  · rw [← counted,UInt64.ofNat_toNat,UInt64.add_zero]
  · rw [← counted]
    exact table.activeCount.toNat_lt

private theorem merged_bits {earlier flags : List Bool} {allDeleted : Bytes} (carries : Carries allDeleted earlier)
    (room : earlier.length + flags.length ≤ 8 * allDeleted.length) {count : Nat} (inside : count ≤ flags.length) :
    ((List.range count).foldl (fun allDeleted i => if getBit (packed flags) i then
      setBit allDeleted (earlier.length + i) else allDeleted)
      allDeleted).length = allDeleted.length ∧
    Carries ((List.range count).foldl (fun allDeleted i => if getBit (packed flags) i then
      setBit allDeleted (earlier.length + i) else allDeleted)
      allDeleted) (earlier ++ flags.take count) := by
  induction count with
  | zero =>
    rw [List.take_zero,List.append_nil]
    exact ⟨rfl,carries⟩
  | succ count ih =>
    obtain ⟨length,before⟩ := ih (by omega)
    have here : flags[count]? = some flags[count] := List.getElem?_eq_getElem inside
    have reached : (earlier ++ flags.take count).length = earlier.length + count := by
      rw [List.length_append,List.length_take_of_le (by omega)]
    rw [List.range_succ,List.foldl_append,List.foldl_cons,List.foldl_nil,GroupFile.getBit_packed,here,Option.getD_some]
    have next := before.snoc (by rw [reached,length]; omega) flags[count]
    rw [reached,List.append_assoc,← List.take_succ_eq_append_getElem inside] at next
    refine ⟨?_,next⟩
    split
    · rw [length_setBit,length]
    · exact length

theorem mergeDeletions_spec (groups : List (List Bool)) {earlier : List Bool} {allDeleted : Bytes}
    (carries : Carries allDeleted earlier)
    (sized : allDeleted.length = (earlier.length + 7) / 8) :
    Carries (mergeDeletions groups earlier.length allDeleted) (earlier ++ groups.flatten) := by
  induction groups generalizing earlier allDeleted with
  | nil =>
    rw [List.flatten_nil,List.append_nil]
    exact carries
  | cons flags rest ih =>
    rw [List.flatten_cons,← List.append_assoc]
    unfold mergeDeletions
    dsimp only
    split
    · rename_i empty
      rw [List.length_eq_zero_iff.mp empty,List.append_nil]
      exact ih carries sized
    · have needed : (allDeleted ++ List.replicate ((earlier.length + flags.length + 7) / 8 - allDeleted.length)
        0).length =
          (earlier.length + flags.length + 7) / 8 := by
        rw [List.length_append,List.length_replicate,sized]
        omega
      split
      · -- A group that starts on a whole byte.
        rename_i whole
        have front : earlier.length / 8 = allDeleted.length := by omega
        have size := GroupFile.length_packed flags
        have copied : min (packed flags).length
          ((allDeleted ++ List.replicate ((earlier.length + flags.length + 7) / 8 - allDeleted.length) 0).length
            - earlier.length / 8) = (packed flags).length := by
          rw [needed,size]
          omega
        have nothing : (allDeleted ++ List.replicate ((earlier.length + flags.length + 7) / 8 -
          allDeleted.length) 0).drop
            (earlier.length / 8 + (packed flags).length) = [] := by
          refine List.drop_eq_nil_of_le ?_
          rw [needed,size]
          omega
        rw [copied,nothing,List.append_nil,List.take_length,front,List.take_left,← List.length_append]
        refine ih (carries.append (GroupFile.getBit_packed flags) (by omega)) ?_
        rw [List.length_append,List.length_append,size]
        omega
      · obtain ⟨length,merged⟩ :=
          @merged_bits _ flags _ (carries.grown ((earlier.length + flags.length + 7) / 8 - allDeleted.length))
          (by rw [needed]; omega) _ (Nat.le_refl _)
        rw [List.take_length] at merged
        have next := ih merged (by rw [length,needed,List.length_append])
        rwa [List.length_append] at next

namespace BaseFile

theorem flatten_flags (file : BaseFile) : file.flags.flatten = file.groups.flatten.map fun row => row.2 :=
  (List.map_flatten).symm

theorem length_flags (file : BaseFile) : file.flags.flatten.length = file.ids.length := by
  rw [flatten_flags,List.length_map,ids,List.length_map]

theorem newest (file : BaseFile) {row : Nat} {id : UInt64} (here : file.ids[row]? = some id)
    (live : file.flags.flatten[row]?.getD false = false) :
    (build file.ids).lookup id = some row := by
  refine (Library.LastIndex.lookup_build file.ids id row).mpr ⟨here,fun later after also => ?_⟩
  rw [ids,List.getElem?_map] at here also
  obtain ⟨⟨own,flag⟩,place,rfl⟩ := Option.map_eq_some_iff.mp here
  obtain ⟨⟨other,_⟩,behind,same⟩ := Option.map_eq_some_iff.mp also
  obtain ⟨early,first⟩ := List.getElem?_eq_some_iff.mp place
  obtain ⟨late,second⟩ := List.getElem?_eq_some_iff.mp behind
  have dead := List.pairwise_iff_getElem.mp file.replaced row later early late after
  rw [first,second] at dead
  rw [flatten_flags,List.getElem?_map,place,Option.map_some,Option.getD_some,dead same.symm] at live
  cases live

theorem clear_eq (file : BaseFile) {deleted : Bytes}
    (own : ∀ row < file.ids.length, getBit deleted row = file.flags.flatten[row]?.getD false) :
    clear file.ids deleted = file.liveRows := by
  have flagged : clear file.ids deleted = Library.LastIndex.count file.ids fun row =>
    !file.flags.flatten[row]?.getD false :=
    Library.LastIndex.count_congr fun row inside => by rw [own row inside]
  have listed : ((List.range file.ids.length).filter fun row => !file.flags.flatten[row]?.getD false).length =
    file.flags.flatten.count false := by
    rw [← length_flags,← List.countP_eq_length_filter]
    generalize file.flags.flatten = flags
    induction flags using List.reverseRecOn with
    | nil => rfl
    | append_singleton flags last ih =>
      rw [List.length_append,List.length_singleton,List.range_succ,List.countP_append,List.count_append,
        List.countP_singleton,
        List.getElem?_concat_length,Option.getD_some,List.count_singleton]
      have same : (List.range flags.length).countP (fun row => !(flags ++ [last])[row]?.getD false) =
          (List.range flags.length).countP fun row => !flags[row]?.getD false := by
        refine List.countP_congr fun row member => ?_
        rw [List.getElem?_append_left (List.mem_range.mp member)]
      rw [same,ih]
      cases last <;> rfl
  have live : file.liveRows = file.flags.flatten.count false := by
    rw [liveRows,List.count_flatten]
    refine congrArg List.sum (List.map_congr_left fun flags _ => ?_)
    have parts := List.count_true_add_count_false flags
    omega
  rw [flagged,Library.LastIndex.count_eq_filter (fun row id here test => file.newest here (by simpa using test)),
    listed,live]

end BaseFile

theorem openV4Data_inv (file : BaseFile) (hasColumns : Bool) (deltaStore : UpdateLog.DeltaStore)
    (deltaIds : Option (List UInt64)) :
    ∃ table : LoadedTable, table.toTable = openV4Data file hasColumns deltaStore deltaIds := by
  have bits : Carries (openV4Data file hasColumns deltaStore deltaIds).deleted file.flags.flatten :=
    Carries.grown (@mergeDeletions_spec file.flags [] _ (fun _ => by simp [getBit]) rfl) _
  have counted : (openV4Data file hasColumns deltaStore deltaIds).activeCount.toNat = file.liveRows := by
    have dead : file.liveRows + (file.flags.map fun flags => flags.count true).sum = file.ids.length := by
      rw [BaseFile.liveRows,← file.length_flags,List.length_flatten]
      induction file.flags with
      | nil => rfl
      | cons flags rest ih =>
        have few : flags.count true ≤ flags.length := List.count_le_length
        simp only [List.map_cons,List.sum_cons]
        omega
    have room : file.ids.length < 2^64 := by
      rw [BaseFile.ids,List.length_map]
      exact file.room
    have total : UInt64.ofNat file.ids.length = UInt64.ofNat file.liveRows + UInt64.ofNat (file.flags.map fun flags =>
      flags.count true).sum := by
      rw [← UInt64.ofNat_add,dead]
    change (UInt64.ofNat file.ids.length - _).toNat = _
    rw [total,UInt64.add_sub_cancel]
    exact UInt64.toNat_ofNat_of_lt' (by simp only [UInt64.size]; omega)
  refine ⟨⟨openV4Data file hasColumns deltaStore deltaIds,?_,Or.inl rfl,?_,?_⟩,rfl⟩
  · by_cases rows : file.ids = []
    · exact Or.inr (Or.inr rows)
    · exact Or.inl rows
  · intro row id here bit
    exact file.newest here (by rw [← bits row]; exact bit)
  · rw [counted]
    exact (file.clear_eq fun row _ => bits row).symm

def BaseFile.lazilyClear (file : BaseFile) : Nat := if file.headerRows = 0 then 0
    else clear file.ids (joined file.flags)

section
variable (file : BaseFile)

theorem BaseFile.liveRows_le : file.liveRows ≤ file.ids.length := by
  rw [BaseFile.liveRows,← file.length_flags,List.length_flatten]
  induction file.flags with
  | nil => exact Nat.le_refl _
  | cons flags rest ih =>
    simp only [List.map_cons,List.sum_cons]
    omega

theorem BaseFile.lazilyClear_lt : file.lazilyClear < 2^64 := by
  have room := file.room
  rw [BaseFile.lazilyClear]
  split
  · decide
  · have few := Library.LastIndex.count_le file.ids fun row => !getBit (joined file.flags) row
    rw [BaseFile.ids,List.length_map] at few
    exact Nat.lt_of_le_of_lt few room

theorem BaseFile.liveRows_lt : file.liveRows < 2^64 := by
  have few := file.liveRows_le
  rw [BaseFile.ids,List.length_map] at few
  exact Nat.lt_of_le_of_lt few file.room

section
variable (deltaStore : UpdateLog.DeltaStore) (deltaIds : Option (List UInt64))

theorem openLazily_clearRows :
    (openLazily file deltaStore deltaIds).clearRows = file.lazilyClear := by
  unfold Table.clearRows Table.ensureIdsLoaded BaseFile.lazilyClear
  dsimp only [openLazily,BaseFile.readBaseIdsAndDeletions]
  simp only [ne_eq,not_true_eq_false,if_false]
  by_cases zero : file.headerRows = 0
  · simp only [zero,if_true]
    rfl
  · simp only [zero,if_false]
    by_cases empty : file.ids = []
    · split
      · rw [empty]
        rfl
      · rw [empty]
        rfl
    · have some_ : file.ids.isEmpty = false := List.isEmpty_eq_false_iff.mpr empty
      have bytes : (joined file.flags).isEmpty = false := by
        refine List.isEmpty_eq_false_iff.mpr fun bare => empty ?_
        have covered := GroupFile.length_joined file.flags
        rw [bare,file.length_flags] at covered
        exact List.length_eq_zero_iff.mp (Nat.le_zero.mp covered)
      rw [some_,bytes]
      rfl

theorem openLazily_inv :
    Inv (UInt64.ofNat file.lazilyClear - UInt64.ofNat file.liveRows) (openLazily file deltaStore deltaIds) where
  indexed := Or.inl rfl
  newest := nofun
  counted := by
    rw [openLazily_clearRows]
    change _ = UInt64.ofNat file.liveRows + _
    rw [UInt64.add_comm,UInt64.sub_add_cancel]
  room := by
    rw [openLazily_clearRows]
    exact file.lazilyClear_lt

end

theorem BaseFile.lazilyClear_eq (aligned : GroupFile.noneBehindPartial file.flags = true)
    (counted : file.headerRows = 0 → file.liveRows = 0) : file.lazilyClear = file.liveRows := by
  unfold BaseFile.lazilyClear
  split
  · rename_i zero
    exact (counted zero).symm
  · refine file.clear_eq fun row inside => (GroupFile.aligned_iff file.flags).mpr aligned row ?_
    rwa [file.length_flags]

end

inductive Start
  | loaded (table : LoadedTable)
  | lazily (file : BaseFile) (deltaStore : UpdateLog.DeltaStore) (deltaIds : Option (List UInt64))

def Start.table : Start → Table
  | .loaded table => table.toTable
  | .lazily file deltaStore deltaIds => openLazily file deltaStore deltaIds

/-- As many rows of the index read as live as the footer counts. -/
def Start.InPlace : Start → Prop
  | .loaded _ => True
  | .lazily file _ _ => file.lazilyClear = file.liveRows

/-- After any deletions the count and the answers are those of the rows that are left, if
and only if the bits that were loaded leave as many rows as the footer counts. -/
theorem deletions_exact_iff (start : Start) : (∀ ops, (run start.table ops).Exact) ↔ start.InPlace := by
  cases start with
  | loaded table => exact iff_of_true (fun ops => (table.inv.run ops).exact_iff.mpr rfl) trivial
  | lazily file deltaStore deltaIds =>
    have every (ops : List Op) := ((openLazily_inv file deltaStore deltaIds).run ops).exact_iff
    have same : UInt64.ofNat file.lazilyClear - UInt64.ofNat file.liveRows = 0 ↔ file.lazilyClear = file.liveRows := by
      constructor
      · intro zero
        have equal : UInt64.ofNat file.lazilyClear = UInt64.ofNat file.liveRows := by grind
        have numbers := congrArg UInt64.toNat equal
        rwa [UInt64.toNat_ofNat_of_lt' file.lazilyClear_lt,UInt64.toNat_ofNat_of_lt' file.liveRows_lt] at numbers
      · intro equal
        rw [equal,UInt64.sub_self]
    exact ⟨fun exact => same.mp ((every []).mp (exact [])),fun place ops => (every ops).mpr (same.mpr place)⟩

def partialByte : BaseFile := ⟨1,[[(1,false)],[(2,true)]],by decide,by decide⟩

/-- The deleted row is deleted again, and the count of the other row is gone. -/
theorem deleted_twice : ((openLazily partialByte .new none).delete 2).1 = true ∧
    (run (openLazily partialByte .new none) [.delete 2]).activeCount = 0 ∧
    ¬ (run (openLazily partialByte .new none) [.delete 2]).Exact := by
  refine ⟨by decide,by decide,fun exact => ?_⟩
  have left : (run (openLazily partialByte .new none) [.delete 2]).indexedRows false = [⟨1,0⟩] := by decide
  have counted := exact.counted
  have zero : (run (openLazily partialByte .new none) [.delete 2]).activeCount.toNat = 0 := by decide
  rw [left,zero,List.length_singleton] at counted
  omega

end ApexBase.Storage.Deletions
