import Mathlib.Data.List.Sort
import ApexBase.Storage.DeltaMerger

/-! The delta store with its persistence (`storage/delta/update_log.rs`): pending
deletes and updates in memory, and the file that `save` writes and `load` reads. -/
namespace ApexBase.Storage.UpdateLog
open Data Library.Assoc

/-- The deleted ids, sorted, and the set that answers lookups once it is built. -/
structure DeleteBitmap where
  deleted : List UInt64
  lookup : Option (List UInt64)

namespace DeleteBitmap

def new : DeleteBitmap := ⟨[],some []⟩

/-- Insertion at the position that the binary search finds. -/
def insertSorted (deleted : List UInt64) (rowId : UInt64) : List UInt64 :=
  if rowId ∈ deleted then deleted else deleted.orderedInsert (· ≤ ·) rowId

def delete (bitmap : DeleteBitmap) (rowId : UInt64) : DeleteBitmap :=
  match bitmap.lookup with
  | some set => if rowId ∈ set then bitmap else ⟨insertSorted bitmap.deleted rowId,some (set.insert rowId)⟩
  | none => ⟨insertSorted bitmap.deleted rowId,some (insertSorted bitmap.deleted rowId)⟩

def isDeleted (bitmap : DeleteBitmap) (rowId : UInt64) : Bool := (bitmap.lookup.getD bitmap.deleted).contains rowId

def count (bitmap : DeleteBitmap) : Nat := bitmap.deleted.length

def isEmpty (bitmap : DeleteBitmap) : Bool := bitmap.deleted.isEmpty

def ensureLookup (bitmap : DeleteBitmap) : DeleteBitmap := ⟨bitmap.deleted,bitmap.lookup <|> some bitmap.deleted⟩

end DeleteBitmap

structure DeltaRecord where
  rowId : UInt64
  columnName : String
  newValue : Value
  txnId : Nat
  timestamp : Int64

structure DeltaStore where
  deleteBitmap : DeleteBitmap
  updates : Map UInt64 (Map String DeltaRecord)
  log : List DeltaRecord
  dirty : Bool
  nextTxnId : Nat

/-- What `save` writes. The lookup set is not written. -/
structure Persisted where
  deleted : List UInt64
  log : List DeltaRecord
  nextTxnId : Nat

namespace DeltaStore

def new : DeltaStore := ⟨.new,∅,[],false,1⟩

/-- A row becomes deleted and loses its pending updates. -/
def dropRow (store : DeltaStore) (rowId : UInt64) : DeltaStore :=
  {store with
    deleteBitmap := store.deleteBitmap.delete rowId
    updates := store.updates.erase rowId}

def deleteRow (store : DeltaStore) (rowId : UInt64) : DeltaStore := {store.dropRow rowId with dirty := true}

/-- The store is dirty if any of the rows was not deleted before. -/
def deleteRows (store : DeltaStore) (rowIds : List UInt64) : DeltaStore :=
  let after := rowIds.foldl dropRow store
  {after with dirty := store.dirty || decide (store.deleteBitmap.count < after.deleteBitmap.count)}

/-- `updates.entry(row).or_insert_with(..).insert(column, record)` -/
def putRecord (updates : Map UInt64 (Map String DeltaRecord)) (record : DeltaRecord) :
    Map UInt64 (Map String DeltaRecord) :=
  updates.insert record.rowId (((updates.lookup record.rowId).getD ∅).insert record.columnName record)

def putCell (store : DeltaStore) (rowId : UInt64) (columnName : String) (newValue : Value) : DeltaStore :=
  {store with
    updates := putRecord store.updates ⟨rowId,columnName,newValue,store.nextTxnId,0⟩
    nextTxnId := store.nextTxnId + 1}

def updateCell (store : DeltaStore) (rowId : UInt64) (columnName : String) (newValue : Value) : DeltaStore :=
  {store.putCell rowId columnName newValue with dirty := true}

def updateRow (store : DeltaStore) (rowId : UInt64) (values : Row) : DeltaStore :=
  values.entries.foldl (fun store cell => store.updateCell rowId cell.1 cell.2) store

def batchUpdateRows (store : DeltaStore) (batch : List (UInt64 × String × Value)) : DeltaStore :=
  let after := batch.foldl (fun store cell => store.putCell cell.1 cell.2.1 cell.2.2) store
  {after with dirty := store.dirty || !batch.isEmpty}

def clear (_ : DeltaStore) : DeltaStore := ⟨.new,∅,[],true,1⟩

def isDeleted (store : DeltaStore) (rowId : UInt64) : Bool := store.deleteBitmap.isDeleted rowId

def getUpdatedValue (store : DeltaStore) (rowId : UInt64) (columnName : String) : Option Value :=
  ((store.updates.lookup rowId).bind (fun columns => columns.lookup columnName)).map (fun record => record.newValue)

def deleteCount (store : DeltaStore) : Nat := store.deleteBitmap.count

def updateCount (store : DeltaStore) : Nat := ((values store.updates).map (fun columns => columns.entries.length)).sum

def isEmpty (store : DeltaStore) : Bool := store.deleteBitmap.isEmpty && store.updates.entries.isEmpty

def collapsedLog (store : DeltaStore) : List DeltaRecord := (values store.updates).flatMap values

def persisted (store : DeltaStore) : Persisted := ⟨store.deleteBitmap.deleted,store.collapsedLog,store.nextTxnId⟩

def ofPersisted (file : Persisted) : DeltaStore :=
  ⟨(DeleteBitmap.mk file.deleted none).ensureLookup,file.log.foldl putRecord ∅,file.log,false,file.nextTxnId⟩

end DeltaStore

/-- What the store uses of `bincode`; `File` is the contents of a file. -/
structure Bincode where
  File : Type
  serialize : Persisted → File
  deserialize : File → Option Persisted

mutual

/-- Values that `bincode` can read back: `serde_json` values need a format that
describes itself. -/
def plain : Value → Bool
  | .json _ => false
  | .array values => allPlain values
  | _ => true

def allPlain : List Value → Bool
  | [] => true
  | value :: rest => plain value && allPlain rest

end

def Bincode.Lossless (ext : Bincode) : Prop :=
  ∀ file : Persisted, (∀ record ∈ file.log, plain record.newValue = true) →
    ext.deserialize (ext.serialize file) = some file

section Persistence
variable (ext : Bincode)

structure Session where
  store : DeltaStore
  disk : Option ext.File

inductive Op
  | updateCell (rowId : UInt64) (columnName : String) (newValue : Value)
  | updateRow (rowId : UInt64) (values : Row)
  | batchUpdateRows (batch : List (UInt64 × String × Value))
  | deleteRow (rowId : UInt64)
  | deleteRows (rowIds : List UInt64)
  | save
  | clear

def save (session : Session ext) : Session ext :=
  if session.store.dirty then ⟨{session.store with dirty := false},some (ext.serialize session.store.persisted)⟩
  else session

def load (disk : Option ext.File) : Option DeltaStore :=
  match disk with
  | none => some .new
  | some file => (ext.deserialize file).map .ofPersisted

def apply (session : Session ext) : Op → Session ext
  | .updateCell rowId columnName newValue => {session with store := session.store.updateCell rowId columnName newValue}
  | .updateRow rowId values => {session with store := session.store.updateRow rowId values}
  | .batchUpdateRows batch => {session with store := session.store.batchUpdateRows batch}
  | .deleteRow rowId => {session with store := session.store.deleteRow rowId}
  | .deleteRows rowIds => {session with store := session.store.deleteRows rowIds}
  | .save => save ext session
  | .clear => {session with store := session.store.clear}

end Persistence

def Op.cells : Op → List (UInt64 × String × Value)
  | .updateCell rowId columnName newValue => [(rowId,columnName,newValue)]
  | .updateRow rowId values => values.entries.map (fun cell => (rowId,cell.1,cell.2))
  | .batchUpdateRows batch => batch
  | _ => []

def Op.Proper (store : DeltaStore) (op : Op) : Prop :=
  ∀ cell ∈ op.cells, store.isDeleted cell.1 = false ∧ plain cell.2.2 = true

/-- The stores have the same deleted rows and the same updated cells. -/
def SameContents (left right : DeltaStore) : Prop :=
  (∀ rowId, left.isDeleted rowId = right.isDeleted rowId) ∧
    ∀ rowId columnName, left.getUpdatedValue rowId columnName = right.getUpdatedValue rowId columnName

structure Counted (store : DeltaStore) : Prop where
  deletes : ∃ ids : List UInt64, ids.Nodup ∧ (∀ rowId, rowId ∈ ids ↔ store.isDeleted rowId = true) ∧
    ids.length = store.deleteCount
  updates : ∃ cells : List (UInt64 × String), cells.Nodup ∧
    (∀ cell, cell ∈ cells ↔ (store.getUpdatedValue cell.1 cell.2).isSome = true) ∧ cells.length = store.updateCount
  empty : store.isEmpty = true ↔ store.deleteCount = 0 ∧ store.updateCount = 0

theorem SameContents.trans {a b c : DeltaStore} (first : SameContents a b) (second : SameContents b c) :
    SameContents a c :=
  ⟨fun rowId => (first.1 rowId).trans (second.1 rowId),
    fun rowId columnName => (first.2 rowId columnName).trans (second.2 rowId columnName)⟩

/-! The bitmap. -/

structure DeleteBitmap.Sound (bitmap : DeleteBitmap) : Prop where
  sorted : bitmap.deleted.Pairwise (· ≤ ·)
  nodup : bitmap.deleted.Nodup
  built : ∃ set, bitmap.lookup = some set ∧ ∀ rowId, rowId ∈ set ↔ rowId ∈ bitmap.deleted

namespace DeleteBitmap
variable {bitmap : DeleteBitmap}

section
variable (sound : bitmap.Sound)
include sound

theorem Sound.isDeleted_iff (rowId : UInt64) : bitmap.isDeleted rowId = true ↔ rowId ∈ bitmap.deleted := by
  obtain ⟨set,built,same⟩ := sound.built
  simp [isDeleted,built,same]

theorem delete_present {rowId : UInt64} (present : rowId ∈ bitmap.deleted) : bitmap.delete rowId = bitmap := by
  obtain ⟨set,built,same⟩ := sound.built
  simp [delete,built,same,present]

theorem delete_absent {rowId : UInt64} (absent : rowId ∉ bitmap.deleted) :
    (bitmap.delete rowId).deleted = bitmap.deleted.orderedInsert (· ≤ ·) rowId := by
  obtain ⟨set,built,same⟩ := sound.built
  simp [delete,built,same,absent,insertSorted]

theorem mem_delete (target rowId : UInt64) :
    rowId ∈ (bitmap.delete target).deleted ↔ rowId = target ∨ rowId ∈ bitmap.deleted := by
  by_cases present : target ∈ bitmap.deleted
  · rw [delete_present sound present]
    exact ⟨Or.inr,fun either => either.elim (fun same => same ▸ present) id⟩
  · rw [delete_absent sound present]
    exact List.mem_orderedInsert (· ≤ ·)

theorem delete_sound (target : UInt64) : (bitmap.delete target).Sound := by
  by_cases present : target ∈ bitmap.deleted
  · rwa [delete_present sound present]
  · have inserted := delete_absent sound present
    obtain ⟨set,built,same⟩ := sound.built
    refine ⟨?_,?_,?_⟩
    · rw [inserted]
      exact sound.sorted.orderedInsert target _
    · rw [inserted]
      exact (List.perm_orderedInsert (· ≤ ·) target _).nodup_iff.mpr (List.nodup_cons.mpr ⟨present,sound.nodup⟩)
    · refine ⟨set.insert target,?_,?_⟩
      · simp [delete,built,same,present]
      · intro rowId
        rw [mem_delete sound,List.mem_insert_iff,same]

end

end DeleteBitmap

/-! The updates. -/

def cellOf (updates : Map UInt64 (Map String DeltaRecord)) (rowId : UInt64) (columnName : String) :
    Option DeltaRecord :=
  (updates.lookup rowId).bind (fun columns => columns.lookup columnName)

def DeltaRecord.key (record : DeltaRecord) : UInt64 × String := (record.rowId,record.columnName)

structure Filed (updates : Map UInt64 (Map String DeltaRecord)) : Prop where
  keyed : ∀ rowId columnName record, cellOf updates rowId columnName = some record →
    record.key = (rowId,columnName) ∧ plain record.newValue = true
  inhabited : ∀ rowId columns, updates.lookup rowId = some columns → columns.entries ≠ []

theorem cellOf_putRecord (updates : Map UInt64 (Map String DeltaRecord)) (record : DeltaRecord) (rowId : UInt64)
    (columnName : String) :
    cellOf (DeltaStore.putRecord updates record) rowId columnName =
      if record.key = (rowId,columnName) then some record else cellOf updates rowId columnName := by
  simp only [cellOf,DeltaStore.putRecord,lookup_insert_eq,DeltaRecord.key,Prod.mk.injEq]
  by_cases row : rowId = record.rowId
  · subst row
    simp only [if_true,Option.bind_some,lookup_insert_eq,true_and]
    by_cases column : columnName = record.columnName
    · rw [if_pos column,if_pos column.symm]
    · rw [if_neg column,if_neg (fun same => column same.symm)]
      cases updates.lookup record.rowId <;> rfl
  · have other : record.rowId ≠ rowId := fun same => row same.symm
    simp [row,other]

theorem filed_putRecord {updates : Map UInt64 (Map String DeltaRecord)} (filed : Filed updates) {record : DeltaRecord}
    (readable : plain record.newValue = true) : Filed (DeltaStore.putRecord updates record) where
  keyed := by
    intro rowId columnName found listed
    rw [cellOf_putRecord] at listed
    split at listed
    · rename_i here
      cases listed
      exact ⟨here,readable⟩
    · exact filed.keyed rowId columnName found listed
  inhabited := by
    intro rowId columns listed
    rcases lookup_of_insert listed with ⟨_,rfl⟩ | ⟨_,old⟩
    · simp [AList.entries_insert]
    · exact filed.inhabited rowId columns old

theorem cellOf_erase (updates : Map UInt64 (Map String DeltaRecord)) (target rowId : UInt64) (columnName : String) :
    cellOf (updates.erase target) rowId columnName = if rowId = target then none
      else cellOf updates rowId columnName := by
  simp only [cellOf,lookup_erase_eq]
  split <;> rfl

theorem filed_erase {updates : Map UInt64 (Map String DeltaRecord)} (filed : Filed updates) (target : UInt64) :
    Filed (updates.erase target) where
  keyed := by
    intro rowId columnName record listed
    rw [cellOf_erase] at listed
    split at listed
    · cases listed
    · exact filed.keyed rowId columnName record listed
  inhabited := by
    intro rowId columns listed
    exact filed.inhabited rowId columns (lookup_of_erase listed).2

/-! The whole store. -/

structure DeltaStore.Sound (store : DeltaStore) : Prop where
  bitmap : store.deleteBitmap.Sound
  filed : Filed store.updates
  /-- Deleted rows carry no updates. -/
  bare : ∀ rowId, store.isDeleted rowId = true → store.updates.lookup rowId = none

namespace DeltaStore
variable {store : DeltaStore}

theorem sound_new : new.Sound where
  bitmap := ⟨.nil,.nil,[],rfl,by simp [new,DeleteBitmap.new]⟩
  filed := ⟨by simp [new,cellOf],by simp [new]⟩
  bare := by simp [new]

section
variable (sound : store.Sound)
include sound

theorem dropRow_deleted (target rowId : UInt64) :
    (store.dropRow target).isDeleted rowId = true ↔ rowId = target ∨ store.isDeleted rowId = true := by
  simp only [isDeleted,(DeleteBitmap.delete_sound sound.bitmap target).isDeleted_iff,dropRow,
    DeleteBitmap.mem_delete sound.bitmap,
    sound.bitmap.isDeleted_iff]

theorem dropRow_sound (target : UInt64) : (store.dropRow target).Sound where
  bitmap := DeleteBitmap.delete_sound sound.bitmap target
  filed := filed_erase sound.filed target
  bare := by
    intro rowId gone
    simp only [dropRow,lookup_erase_eq]
    split
    · rfl
    · rename_i other
      exact sound.bare rowId (((dropRow_deleted sound target rowId).mp gone).resolve_left other)

theorem foldl_dropRow_sound (rowIds : List UInt64) : (rowIds.foldl dropRow store).Sound := by
  induction rowIds generalizing store with
  | nil => exact sound
  | cons rowId rest ih => exact ih (dropRow_sound sound rowId)

theorem dropRow_again {target : UInt64} (gone : store.isDeleted target = true) :
    SameContents (store.dropRow target) store := by
  constructor
  · intro rowId
    apply Bool.eq_iff_iff.mpr
    rw [dropRow_deleted sound]
    exact ⟨fun either => either.elim (fun same => same ▸ gone) id,Or.inr⟩
  · intro rowId columnName
    simp only [getUpdatedValue,dropRow,lookup_erase_eq]
    split
    · rename_i same
      rw [same,sound.bare target gone]
    · rfl

theorem dropRow_count (target : UInt64) :
    (store.dropRow target).deleteBitmap.count =
      store.deleteBitmap.count + if store.isDeleted target = true then 0 else 1 := by
  by_cases gone : store.isDeleted target = true
  · simp only [dropRow,DeleteBitmap.delete_present sound.bitmap ((sound.bitmap.isDeleted_iff target).mp gone),gone,
      if_true,Nat.add_zero]
  · have absent := fun present => gone ((sound.bitmap.isDeleted_iff target).mpr present)
    simp only [dropRow,DeleteBitmap.count,DeleteBitmap.delete_absent sound.bitmap absent,List.orderedInsert_length,gone,
      Bool.false_eq_true,if_false]

theorem foldl_dropRow_again (rowIds : List UInt64) :
    store.deleteBitmap.count ≤ (rowIds.foldl dropRow store).deleteBitmap.count ∧
      ((rowIds.foldl dropRow store).deleteBitmap.count ≤ store.deleteBitmap.count →
        SameContents (rowIds.foldl dropRow store) store) := by
  induction rowIds generalizing store with
  | nil => exact ⟨Nat.le_refl _,fun _ => ⟨fun _ => rfl,fun _ _ => rfl⟩⟩
  | cons rowId rest ih =>
    obtain ⟨grows,same⟩ := ih (dropRow_sound sound rowId)
    have count := dropRow_count sound rowId
    rw [List.foldl_cons]
    refine ⟨by omega,fun still => ?_⟩
    have gone : store.isDeleted rowId = true := by
      by_contra absent
      rw [if_neg absent] at count
      omega
    exact (same (by omega)).trans (dropRow_again sound gone)

theorem putCell_sound {rowId : UInt64} {columnName : String} {newValue : Value}
    (present : store.isDeleted rowId = false) (readable : plain newValue = true) :
    (store.putCell rowId columnName newValue).Sound where
  bitmap := sound.bitmap
  filed := filed_putRecord sound.filed readable
  bare := by
    intro other gone
    change store.isDeleted other = true at gone
    have apart : other ≠ rowId := by
      intro same
      rw [same,present] at gone
      cases gone
    simp only [putCell,putRecord]
    rw [AList.lookup_insert_ne apart]
    exact sound.bare other gone

theorem sound_dirty (dirty : Bool) : Sound {store with dirty := dirty} :=
  ⟨sound.bitmap,sound.filed,sound.bare⟩

end

private theorem foldl_put_sound {α : Type} (put : DeltaStore → α → DeltaStore) (cell : α → UInt64 × String × Value)
    (puts : ∀ store item, ∃ dirty, put store item = {store.putCell (cell item).1 (cell item).2.1 (cell item).2.2 with
      dirty := dirty})
    (items : List α) (sound : store.Sound)
    (proper : ∀ item ∈ items, store.isDeleted (cell item).1 = false ∧ plain (cell item).2.2 = true) :
    (items.foldl put store).Sound := by
  induction items generalizing store with
  | nil => exact sound
  | cons item rest ih =>
    obtain ⟨dirty,same⟩ := puts store item
    obtain ⟨present,readable⟩ := proper item (by simp)
    rw [List.foldl_cons,same]
    apply ih (sound_dirty (putCell_sound sound present readable) dirty)
    intro later member
    exact proper later (by simp [member])

end DeltaStore

open UpdateLog.DeltaStore

theorem apply_sound {ext : Bincode} {session : Session ext} {op : Op} (sound : session.store.Sound)
    (proper : op.Proper session.store) :
    (apply ext session op).store.Sound := by
  cases op with
  | updateCell rowId columnName newValue =>
    obtain ⟨present,readable⟩ := proper (rowId,columnName,newValue) (by simp [Op.cells])
    exact sound_dirty (putCell_sound sound present readable) true
  | updateRow rowId values =>
    refine foldl_put_sound _ (fun cell : Sigma fun _ : String => Value => (rowId,cell.1,cell.2)) (fun _ _ =>
      ⟨true,rfl⟩) _ sound ?_
    intro cell member
    exact proper (rowId,cell.1,cell.2) (List.mem_map.mpr ⟨cell,member,rfl⟩)
  | batchUpdateRows batch =>
    apply sound_dirty
    exact foldl_put_sound _ id (fun store _ => ⟨store.dirty,rfl⟩) _ sound proper
  | deleteRow rowId => exact sound_dirty (dropRow_sound sound rowId) true
  | deleteRows rowIds => exact sound_dirty (foldl_dropRow_sound sound rowIds) _
  | save =>
    simp only [apply,save]
    split
    · exact sound_dirty sound false
    · exact sound
  | clear => exact sound_dirty sound_new true

/-! Loading what was saved. -/

private theorem cellOf_foldl (log : List DeltaRecord) (updates : Map UInt64 (Map String DeltaRecord)) (rowId : UInt64)
    (columnName : String) : cellOf (log.foldl putRecord updates) rowId columnName =
      (log.reverse.find? (fun record => record.key == (rowId,columnName))).or (cellOf updates rowId columnName) := by
  induction log generalizing updates with
  | nil => rfl
  | cons record rest ih =>
    rw [List.foldl_cons,ih,cellOf_putRecord,List.reverse_cons,List.find?_append,Option.or_assoc]
    congr 1
    by_cases here : record.key = (rowId,columnName) <;> simp [here]

private theorem mem_collapsedLog (store : UpdateLog.DeltaStore) (record : DeltaRecord) :
    record ∈ store.collapsedLog ↔ ∃ rowId columnName, cellOf store.updates rowId columnName = some record := by
  simp only [collapsedLog,List.mem_flatMap,mem_values,cellOf,Option.bind_eq_some_iff]
  constructor
  · rintro ⟨columns,⟨rowId,row⟩,columnName,column⟩
    exact ⟨rowId,columnName,columns,row,column⟩
  · rintro ⟨rowId,columnName,columns,row,column⟩
    exact ⟨columns,⟨rowId,row⟩,columnName,column⟩

private theorem cellOf_collapsed {store : UpdateLog.DeltaStore} (filed : Filed store.updates) (rowId : UInt64)
    (columnName : String) :
    cellOf (store.collapsedLog.foldl putRecord ∅) rowId columnName = cellOf store.updates rowId columnName := by
  have own {record : DeltaRecord} (member : record ∈ store.collapsedLog) : cellOf store.updates record.rowId
    record.columnName = some record := by
    obtain ⟨row,column,found⟩ := (mem_collapsedLog store record).mp member
    have key := (filed.keyed row column record found).1
    rw [DeltaRecord.key,Prod.mk.injEq] at key
    rw [key.1,key.2,found]
  have initial : cellOf (∅ : Map UInt64 (Map String DeltaRecord)) rowId columnName = none := rfl
  rw [cellOf_foldl,initial,Option.or_none]
  cases found : store.collapsedLog.reverse.find? (fun record => record.key == (rowId,columnName)) with
  | none =>
    symm
    apply Option.eq_none_iff_forall_ne_some.mpr
    intro record listed
    have member := (mem_collapsedLog store record).mpr ⟨rowId,columnName,listed⟩
    have key := (filed.keyed rowId columnName record listed).1
    have missing := List.find?_eq_none.mp found record (List.mem_reverse.mpr member)
    simp [key] at missing
  | some record =>
    have key : record.key = (rowId,columnName) := by simpa using List.find?_some found
    have listed := own (List.mem_reverse.mp (List.mem_of_find?_eq_some found))
    rw [DeltaRecord.key,Prod.mk.injEq] at key
    rw [← key.1,← key.2,listed]

theorem persisted_same {store : UpdateLog.DeltaStore} (sound : store.Sound) :
    SameContents (ofPersisted store.persisted) store := by
  constructor
  · intro rowId
    apply Bool.eq_iff_iff.mpr
    have own : store.isDeleted rowId = true ↔ rowId ∈ store.deleteBitmap.deleted := sound.bitmap.isDeleted_iff rowId
    rw [own]
    simp [ofPersisted,persisted,UpdateLog.DeltaStore.isDeleted,DeleteBitmap.isDeleted,DeleteBitmap.ensureLookup]
  · intro rowId columnName
    change (cellOf (store.collapsedLog.foldl putRecord ∅) rowId columnName).map _ =
      (cellOf store.updates rowId columnName).map _
    rw [cellOf_collapsed sound.filed]

def Synced {ext : Bincode} (session : Session ext) : Prop :=
  session.store.dirty = false → ∃ loaded, load ext session.disk = some loaded ∧ SameContents loaded session.store

theorem save_synced {ext : Bincode} (lossless : ext.Lossless) {session : Session ext} (sound : session.store.Sound)
    (synced : Synced session) : Synced (save ext session) := by
  unfold save
  split
  · intro _
    have readable : ∀ record ∈ session.store.persisted.log, plain record.newValue = true := by
      intro record member
      obtain ⟨row,column,found⟩ := (mem_collapsedLog session.store record).mp member
      exact (sound.filed.keyed row column record found).2
    refine ⟨ofPersisted session.store.persisted,?_,persisted_same sound⟩
    simp [load,lossless session.store.persisted readable]
  · exact synced

theorem apply_synced {ext : Bincode} (lossless : ext.Lossless) {session : Session ext} {op : Op}
    (sound : session.store.Sound)
    (synced : Synced session) : Synced (apply ext session op) := by
  cases op with
  | updateCell rowId columnName newValue => exact fun clean => by cases clean
  | updateRow rowId values =>
    intro clean
    have marks (cells : List (Sigma fun _ : String => Value)) (store : UpdateLog.DeltaStore)
        (clean : (cells.foldl (fun store cell => store.updateCell rowId cell.1 cell.2) store).dirty = false) : cells =
        [] ∧ store.dirty = false := by
      induction cells generalizing store with
      | nil => exact ⟨rfl,clean⟩
      | cons cell rest ih =>
        have later := (ih _ clean).2
        cases later
    obtain ⟨none,before⟩ := marks values.entries session.store clean
    have unchanged : session.store.updateRow rowId values = session.store := by rw [updateRow,none]; rfl
    simp only [apply,unchanged]
    exact synced before
  | batchUpdateRows batch =>
    intro clean
    simp only [apply,batchUpdateRows,Bool.or_eq_false_iff,Bool.not_eq_false'] at clean
    obtain rfl : batch = [] := by simpa using clean.2
    exact synced clean.1
  | deleteRow rowId => exact fun clean => by cases clean
  | deleteRows rowIds =>
    intro clean
    simp only [apply,deleteRows,Bool.or_eq_false_iff,decide_eq_false_iff_not,Nat.not_lt] at clean
    obtain ⟨loaded,found,same⟩ := synced clean.1
    have still := (foldl_dropRow_again sound rowIds).2 clean.2
    exact ⟨loaded,found,same.trans ⟨fun rowId => (still.1 rowId).symm,fun rowId columnName =>
      (still.2 rowId columnName).symm⟩⟩
  | save => exact save_synced lossless sound synced
  | clear => exact fun clean => by cases clean

/-! Counting. -/

private def updatedCells (store : UpdateLog.DeltaStore) : List (UInt64 × String) :=
  store.updates.entries.flatMap (fun row => row.2.entries.map (fun column => (row.1,column.1)))

private theorem updatedCells_nodup (store : UpdateLog.DeltaStore) : (updatedCells store).Nodup := by
  apply List.nodup_flatMap.mpr
  constructor
  · intro row _
    have keys : (row.2.entries.map (fun column => column.1)).Nodup := row.2.nodupKeys
    have paired : row.2.entries.map (fun column => (row.1,column.1)) =
      (row.2.entries.map (fun column => column.1)).map (Prod.mk row.1) := by
      simp
    rw [paired]
    exact keys.map (fun _ _ same => (Prod.mk.inj same).2)
  · have rows : (store.updates.entries.map (fun row => row.1)).Nodup := store.updates.nodupKeys
    refine (List.pairwise_map.mp rows).imp ?_
    intro left right apart cell first second
    obtain ⟨_,_,rfl⟩ := List.mem_map.mp first
    obtain ⟨_,_,same⟩ := List.mem_map.mp second
    exact apart (Prod.mk.inj same).1.symm

private theorem mem_updatedCells (store : UpdateLog.DeltaStore) (cell : UInt64 × String) :
    cell ∈ updatedCells store ↔ (store.getUpdatedValue cell.1 cell.2).isSome = true := by
  simp only [updatedCells,List.mem_flatMap,List.mem_map,getUpdatedValue,Option.isSome_map,Option.isSome_iff_exists,
    Option.bind_eq_some_iff]
  constructor
  · rintro ⟨row,inRows,column,inColumns,rfl⟩
    exact ⟨column.2,row.2,AList.mem_lookup_iff.mpr inRows,AList.mem_lookup_iff.mpr inColumns⟩
  · rintro ⟨record,columns,row,column⟩
    exact ⟨⟨cell.1,columns⟩,AList.mem_lookup_iff.mp row,⟨cell.2,record⟩,AList.mem_lookup_iff.mp column,rfl⟩

private theorem updatedCells_length (store : UpdateLog.DeltaStore) :
    (updatedCells store).length = store.updateCount := by
  simp [updatedCells,updateCount,values,List.length_flatMap,Function.comp_def]

theorem sound_counted {store : UpdateLog.DeltaStore} (sound : store.Sound) : Counted store where
  deletes := ⟨store.deleteBitmap.deleted,sound.bitmap.nodup,fun rowId => (sound.bitmap.isDeleted_iff rowId).symm,rfl⟩
  updates := ⟨updatedCells store,updatedCells_nodup store,mem_updatedCells store,updatedCells_length store⟩
  empty := by
    have rows : store.updates.entries = [] ↔ store.updateCount = 0 := by
      constructor
      · intro none
        simp [updateCount,values,none]
      · intro zero
        apply List.eq_nil_iff_forall_not_mem.mpr
        intro row member
        have filled := sound.filed.inhabited row.1 row.2 (AList.mem_lookup_iff.mpr member)
        have counted := List.sum_eq_zero_iff_forall_eq_nat.mp zero row.2.entries.length
          (List.mem_map.mpr ⟨row.2,List.mem_map.mpr ⟨row,member,rfl⟩,rfl⟩)
        exact filled (List.length_eq_zero_iff.mp counted)
    simp only [isEmpty,Bool.and_eq_true,List.isEmpty_iff,rows,DeleteBitmap.isEmpty,deleteCount,DeleteBitmap.count,
      List.length_eq_zero_iff]

/-! Runs. -/

/-- Every run from an empty store without a file, in which each operation assigns
readable values to rows that are not deleted. -/
inductive Runs (ext : Bincode) : Session ext → Prop
  | nil : Runs ext ⟨.new,none⟩
  | snoc {session : Session ext} {op : Op} (before : Runs ext session) (proper : op.Proper session.store) :
      Runs ext (apply ext session op)

structure Persistent {ext : Bincode} (session : Session ext) : Prop where
  saved : ∃ loaded, load ext (save ext session).disk = some loaded ∧ SameContents loaded (save ext session).store
  bare : ∀ rowId columnName, session.store.isDeleted rowId = true →
    session.store.getUpdatedValue rowId columnName = none
  counted : Counted session.store

theorem runs_kept {ext : Bincode} (lossless : ext.Lossless) {session : Session ext} (run : Runs ext session) :
    session.store.Sound ∧ Synced session := by
  induction run with
  | nil => exact ⟨sound_new,fun _ => ⟨.new,rfl,fun _ => rfl,fun _ _ => rfl⟩⟩
  | snoc _ proper ih => exact ⟨apply_sound ih.1 proper,apply_synced lossless ih.1 ih.2⟩

/-- In every state that such a run reaches, a save writes what the store holds, deleted rows carry
no updates and the counts are right. -/
theorem runs_persistent {ext : Bincode} (lossless : ext.Lossless) {session : Session ext} (run : Runs ext session) :
    Persistent session := by
  obtain ⟨sound,synced⟩ := runs_kept lossless run
  refine ⟨?_,?_,sound_counted sound⟩
  · apply save_synced lossless sound synced
    unfold save
    split
    · rfl
    · rename_i clean
      simpa using clean
  · intro rowId columnName gone
    simp [getUpdatedValue,sound.bare rowId gone]

def keeping : Bincode := ⟨Persisted,id,fun file => if file.log.all (fun record => plain record.newValue) then some file
    else none⟩

theorem keeping_lossless : keeping.Lossless := by
  intro file readable
  exact if_pos (List.all_eq_true.mpr readable)

theorem update_and_delete_persistent : ∃ session : Session keeping, Runs keeping session ∧
    session.store.updateCount = 1 ∧
    session.store.deleteCount = 1 ∧ Persistent session := by
  have first : (Op.updateCell 1 "a" (.int64 5)).Proper DeltaStore.new := by
    intro cell member
    rw [List.mem_singleton.mp member]
    exact ⟨rfl,rfl⟩
  have run : Runs keeping (apply keeping (apply keeping ⟨.new,none⟩ (.updateCell 1 "a" (.int64 5))) (.deleteRow 2)) :=
    (Runs.nil.snoc first).snoc (by simp [Op.Proper,Op.cells])
  exact ⟨_,run,rfl,rfl,runs_persistent keeping_lossless run⟩

def deletedAgain : List Op :=
  [.deleteRow 1,.updateCell 1 "a" (.int64 5),.save,.deleteRows [1]]

theorem deleted_again_stays_on_disk : ¬ Persistent (deletedAgain.foldl (apply keeping) ⟨.new,none⟩) := by
  rintro ⟨⟨loaded,found,same⟩,_,_⟩
  cases found
  have kept := congrArg Option.isSome (same.2 1 "a")
  cases kept

end ApexBase.Storage.UpdateLog
