import ApexBase.Storage.DeltaReaders
import ApexBase.Storage.IdDirectory
import ApexBase.Library.Greatest
import Mathlib.Data.List.DropRight

/-! The high-water mark beside the `.delta` file: the greatest id of its rows, kept in a
file of its own so that the next id is known without reading the rows
(`storage/on_demand/storage_core.rs`). -/
namespace ApexBase.Storage.DeltaFile
open Data Library Library.Wire Library.Wire.Reader
open Footer (RowGroupMeta)

def maxId (ids : List UInt64) : UInt64 := ids.foldl max 0

def noFile : IoError := ⟨.notFound,"No such file or directory (os error 2)"⟩

/-- The two files of a table, and the batches that are on the first as a whole. What is kept
of a scan between calls is left out. -/
structure DeltaTable where
  stored : List TypedBatch
  file : Option Bytes
  sidecar : Option Bytes

namespace DeltaTable

variable (table : DeltaTable)

def empty : DeltaTable := ⟨[],none,none⟩

def ids : List UInt64 := table.stored.flatMap TypedBatch.ids

def getMaxIdFromDelta : Except IoError UInt64 :=
  match table.file with
  | some bytes => (DeltaState.closed bytes 0).getMaxIdFromDelta
  | none => .error noFile

def writeDeltaMaxId (id : UInt64) : DeltaTable := {table with sidecar := some (leBytes 8 id.toNat)}

/-- The mark, or a scan when there is none, whose result is kept. -/
def getMaxIdFromDeltaFast : Except IoError (UInt64 × DeltaTable) :=
  match table.sidecar.filter fun bytes => bytes.length == 8 with
  | some bytes => .ok (UInt64.ofNat (ofLe bytes),table)
  | none => do
    let id ← table.getMaxIdFromDelta
    return (id,table.writeDeltaMaxId id)

def markOrZero : UInt64 × DeltaTable :=
  match table.getMaxIdFromDeltaFast with
  | .ok read => read
  | .error _ => (0,table)

def appendTypedToDeltaWithIds (batch : TypedBatch) : DeltaTable :=
  if batch.ids.isEmpty then table
  else
    { stored := table.stored ++ [batch]
      file := some (DeltaFile.appendTypedToDeltaWithIds (table.file.getD []) batch)
      sidecar := some (leBytes 8 (maxId batch.ids).toNat) }

def appendWalRowsToDelta (batch : TypedBatch) (existingDeltaMax : UInt64) : DeltaTable :=
  if batch.ids.isEmpty then table
  else
    let newMetaMax := max existingDeltaMax (maxId batch.ids)
    let (metaMax,read) := (table.appendTypedToDeltaWithIds batch).markOrZero
    if metaMax < newMetaMax then read.writeDeltaMaxId newMetaMax else read

/-- The committed inserts that a recovery finds missing. -/
def recoverInserts (batch : TypedBatch) : DeltaTable :=
  let (deltaMax,read) := if table.file.isSome then table.markOrZero else (0,table)
  read.appendWalRowsToDelta batch deltaMax

def repairTornDeltaTail : Except IoError DeltaTable :=
  match table.file with
  | none => .ok table
  | some bytes =>
    let lastEnd := (scanDeltaBatches bytes).2
    if lastEnd < bytes.length then do
      let repaired := {table with file := some (bytes.take lastEnd)}
      let id ← repaired.getMaxIdFromDelta
      return repaired.writeDeltaMaxId id
    else .ok table

/-- Where the batches begin that have no committed row, from the last one back. -/
def uncommittedCut (uncommittedInsertIds : List UInt64) (bytes : Bytes) :
    List (Nat × Nat) → Option Nat → Except IoError (Option Nat)
  | [],cut => .ok cut
  | place :: before,cut => do
    let ids ← (DeltaState.closed bytes 0).batchIds place
    if ids.all fun id => uncommittedInsertIds.contains id then
      uncommittedCut uncommittedInsertIds bytes before (some place.1)
    else return cut

def uncommitted (uncommittedInsertIds : List UInt64) (batch : TypedBatch) : Bool :=
  batch.ids.all fun id => uncommittedInsertIds.contains id

/-- The first step of `recover_committed_records`. -/
def rollBackBatches (uncommittedInsertIds : List UInt64) : Except IoError DeltaTable :=
  match table.file with
  | none => .ok table
  | some bytes =>
    if uncommittedInsertIds.isEmpty then .ok table
    else do
      match ← uncommittedCut uncommittedInsertIds bytes (scanDeltaBatches bytes).1.reverse none with
      | none => return table
      | some cut =>
        if cut < bytes.length then do
          let kept : DeltaTable := ⟨table.stored.rdropWhile (uncommitted uncommittedInsertIds),some (bytes.take cut),
            table.sidecar⟩
          let id ← kept.getMaxIdFromDelta
          return kept.writeDeltaMaxId id
        else return table

/-- The process ends after `reached` bytes of a batch, before it writes the mark. -/
def crashed (batch : TypedBatch) (reached : Nat) : DeltaTable where
  stored := if reached < batch.toBytes.length then table.stored else table.stored ++ [batch]
  file := some (table.file.getD [] ++ batch.toBytes.take reached)
  sidecar := table.sidecar

/-! Opening the table. -/

def firstRowId : UInt64 := 1

def saturatingSucc (id : UInt64) : UInt64 := UInt64.ofNat (min (id.toNat + 1) (2^64 - 1))

def baseNextId (rowGroups : List RowGroupMeta) : UInt64 :=
  match ((rowGroups.filter fun group => 0 < group.rowCount).map RowGroupMeta.maxId).max? with
  | some id => id + 1
  | none => firstRowId

def deltaNextId (nextId : UInt64) : UInt64 :=
  if table.file.isSome then
    match table.getMaxIdFromDeltaFast with
    | .ok (id,_) => saturatingSucc id
    | .error _ => nextId
  else nextId

/-- The next id of a table that is opened; `recovered` is that of a scan of the log. -/
def finalNextId (rowGroups : List RowGroupMeta) (recovered : Option UInt64) : UInt64 :=
  let nextId := baseNextId rowGroups
  max (max (recovered.getD nextId) nextId) (table.deltaNextId nextId)

/-! The calls, by whichever backend makes them. -/

inductive Call
  | append (batch : TypedBatch)
  | recover (batch : TypedBatch)
  | crash (batch : TypedBatch) (reached : Nat)
  | repair
  | rollBack (uncommittedInsertIds : List UInt64)
  | readMark

def exec (call : Call) : Option (Call × DeltaTable) :=
  (match call with
    | .append batch => some (table.appendTypedToDeltaWithIds batch)
    | .recover batch => some (table.recoverInserts batch)
    | .crash batch reached => some (table.crashed batch reached)
    | .repair => table.repairTornDeltaTail.toOption
    | .rollBack uncommittedInsertIds => (table.rollBackBatches uncommittedInsertIds).toOption
    | .readMark => some table.markOrZero.2).map fun next => (call,next)

def fitsBehind (batch : TypedBatch) : Bool :=
  decide batch.Fits && decide ((table.file.getD [] ++ batch.toBytes).length < 2^64)

def fitting : Call → Bool
  | .append batch | .recover batch => table.fitsBehind batch
  | .crash batch _ => table.fitsBehind batch && !batch.ids.isEmpty
  | _ => true

def whole : Bool :=
  match table.file with
  | some bytes => (scanDeltaBatches bytes).2 == bytes.length
  | none => true

def behindWhole : Call → Bool
  | .append batch | .recover batch => batch.ids.isEmpty || table.whole
  | .crash _ _ => table.whole
  | _ => true

/-- A batch has an id that is not less than all that are there; a process does not end between
a batch and its mark, or had none to change. -/
def keepsMark : Call → Bool
  | .append batch => batch.ids.isEmpty || decide (maxId table.ids ≤ maxId batch.ids)
  | .crash batch reached =>
    decide (reached < batch.toBytes.length) || table.sidecar.isNone || decide (maxId batch.ids ≤ maxId table.ids)
  | _ => true

/-- The mark is the greatest id of the rows that readers find. -/
def Exact : Prop := table.file.isSome = true → table.getMaxIdFromDeltaFast.map Prod.fst = .ok (maxId table.ids)

end DeltaTable

theorem maxId_append (first second : List UInt64) : maxId (first ++ second) = max (maxId first) (maxId second) :=
  foldl_max_append first second 0

theorem le_maxId {ids : List UInt64} {id : UInt64} (member : id ∈ ids) :
    id ≤ maxId ids := (le_foldl_max ids 0).2 id member

theorem maxId_lt {ids : List UInt64} {bound : UInt64} (positive : 0 < bound) (below : ∀ id ∈ ids, id < bound) :
    maxId ids < bound := by
  rcases foldl_max_cases ids 0 with none | greatest
  · rw [maxId,none]
    exact positive
  · exact below _ greatest

section Batches
variable {batches : List TypedBatch} {batch : TypedBatch}

abbrev Sound (batches : List TypedBatch) : Prop := Derived batches (.closed (contents batches) 0)

private theorem sound_of (fits : ∀ batch ∈ batches, batch.Fits) (rows : ∀ batch ∈ batches, batch.ids ≠ [])
    (small : (contents batches).length < 2^64) : Sound batches :=
  ⟨rfl,fits,rows,small,nofun,nofun,nofun,fun _ => nofun⟩

private theorem Derived.snoc (sound : Sound batches) (fits : batch.Fits) (some : batch.ids ≠ [])
    (small : (contents batches ++ batch.toBytes).length < 2^64) : Sound (batches ++ [batch]) := by
  have last : contents [batch] = batch.toBytes := List.append_nil _
  refine sound_of ?_ ?_ (by rw [contents_append,last]; exact small)
  · exact List.forall_mem_append.mpr ⟨sound.fits,List.forall_mem_singleton.mpr fits⟩
  · exact List.forall_mem_append.mpr ⟨sound.rows,List.forall_mem_singleton.mpr some⟩

private theorem Derived.init (before : List TypedBatch) (sound : Sound batches) (first : before <+: batches) :
    Sound before := by
  obtain ⟨after,rfl⟩ := first
  have length := sound.small
  rw [contents_append,List.length_append] at length
  exact sound_of (fun batch member => sound.fits batch (List.mem_append_left _ member))
    (fun batch member => sound.rows batch (List.mem_append_left _ member)) (by omega)

private theorem scanned (sound : Sound batches) {part : Bytes} (torn : Torn part) :
    (DeltaState.closed (contents batches ++ part) 0).allIds = .ok (batches.flatMap TypedBatch.ids) :=
      allIds_eq sound torn 0

private theorem offsets_concat (start : Nat) (before : List TypedBatch) (last : TypedBatch) :
    offsets start (before ++ [last]) = offsets start before ++
    [(start + (contents before).length,last.ids.length)] := by
  induction before generalizing start with
  | nil => rfl
  | cons first rest ih =>
    have length : (contents (first :: rest)).length = first.toBytes.length + (contents rest).length := by
      rw [contents,List.flatMap_cons,List.length_append]
      rfl
    rw [List.cons_append,offsets,ih,offsets,length,Nat.add_assoc,List.cons_append]

private theorem contents_concat (before : List TypedBatch) (last : TypedBatch) (behind : Bytes) :
    contents (before ++ [last]) ++ behind = contents before ++ (last.toBytes ++ behind) := by
  rw [contents_append,List.append_assoc]
  exact congrArg (fun bytes => contents before ++ (bytes ++ behind)) (List.append_nil _)

private theorem uncommittedCut_eq (uncommittedInsertIds : List UInt64) (batches : List TypedBatch) (behind : Bytes)
    (cut : Option Nat) :
    let kept := batches.rdropWhile (DeltaTable.uncommitted uncommittedInsertIds)
    let found := DeltaTable.uncommittedCut uncommittedInsertIds (contents batches ++ behind)
      (offsets 0 batches).reverse cut
    kept = batches ∧ found = .ok cut ∨ (contents kept).length < (contents batches).length ∧
    found = .ok (some (contents kept).length) := by
  induction batches using List.reverseRecOn generalizing behind cut with
  | nil => exact Or.inl ⟨rfl,rfl⟩
  | append_singleton before last ih =>
    have read : (DeltaState.closed (contents before ++ (last.toBytes ++ behind)) 0).batchIds ((contents before).length,
      last.ids.length) =
        .ok last.ids := batchIds_at List.drop_left
    have length : (contents before).length < (contents (before ++ [last])).length := by
      have some := toBytes_pos last
      have shape := congrArg List.length (contents_concat before last [])
      simp only [List.append_nil,List.length_append] at shape
      omega
    have step : DeltaTable.uncommittedCut uncommittedInsertIds (contents (before ++ [last]) ++ behind)
      (offsets 0 (before ++ [last])).reverse cut =
        if DeltaTable.uncommitted uncommittedInsertIds last then
          DeltaTable.uncommittedCut uncommittedInsertIds (contents before ++ (last.toBytes ++ behind))
            (offsets 0 before).reverse
            (some (contents before).length)
        else .ok cut := by
      rw [offsets_concat,List.reverse_append,List.reverse_singleton,List.singleton_append,Nat.zero_add,contents_concat,
        DeltaTable.uncommittedCut,read]
      rfl
    simp only [step]
    by_cases dropped : DeltaTable.uncommitted uncommittedInsertIds last = true
    · rw [if_pos dropped,List.rdropWhile_concat_pos _ _ _ dropped]
      refine Or.inr ?_
      rcases ih (last.toBytes ++ behind) (some (contents before).length) with ⟨all,found⟩ | ⟨shorter,found⟩
      · exact ⟨all.symm ▸ length,all.symm ▸ found⟩
      · exact ⟨shorter.trans length,found⟩
    · rw [if_neg dropped,List.rdropWhile_concat_neg _ _ _ dropped]
      exact Or.inl ⟨rfl,rfl⟩

end Batches

namespace DeltaTable

/-! What the two files hold between the calls. -/

structure Held (table : DeltaTable) : Prop where
  sound : Sound table.stored
  bytes : ∃ part, Torn part ∧ table.file.getD [] = contents table.stored ++ part
  absent : table.file = none → table.sidecar = none
  marked : ∀ mark, table.sidecar = some mark → mark.length = 8

def mark (table : DeltaTable) : UInt64 :=
  match table.sidecar with
  | some bytes => UInt64.ofNat (ofLe bytes)
  | none => maxId table.ids

variable {table : DeltaTable} {batch : TypedBatch}

private theorem Held.empty : Held .empty :=
  ⟨sound_of nofun nofun (by decide : 0 < 2^64),⟨[],torn_nil,rfl⟩,fun _ => rfl,nofun⟩

private theorem Held.stored_absent (held : Held table) (absent : table.file = none) : table.stored = [] := by
  obtain ⟨part,_,bytes⟩ := held.bytes
  rw [absent] at bytes
  have none := congrArg List.length bytes
  rw [List.length_append] at none
  exact contents_length_zero (Nat.eq_zero_of_add_eq_zero_right none.symm)

private theorem Held.bytes_present (held : Held table) {bytes : Bytes} (present : table.file = some bytes) :
    ∃ part, Torn part ∧ bytes = contents table.stored ++ part := by
  obtain ⟨part,torn,shape⟩ := held.bytes
  rw [present] at shape
  exact ⟨part,torn,shape⟩

private theorem getMaxIdFromDelta_eq (sound : Sound table.stored) {part : Bytes} (torn : Torn part)
    (present : table.file = some (contents table.stored ++ part)) :
    table.getMaxIdFromDelta = .ok (maxId table.ids) := by
  unfold getMaxIdFromDelta
  rw [present]
  change ((DeltaState.closed (contents table.stored ++ part) 0).allIds.map fun ids => ids.foldl max 0) = _
  rw [scanned sound torn]
  rfl

private theorem mark_write (table : DeltaTable) (id : UInt64) : (table.writeDeltaMaxId id).mark = id := by
  change UInt64.ofNat (ofLe (leBytes 8 id.toNat)) = id
  rw [ofLe_leBytes_of_lt id.toNat_lt,UInt64.ofNat_toNat]

section
variable (held : Held table)
include held

private theorem Held.write (present : table.file.isSome = true) (id : UInt64) : Held (table.writeDeltaMaxId id) where
  sound := held.sound
  bytes := held.bytes
  absent absent := by
    have none : table.file = none := absent
    rw [none] at present
    cases present
  marked mark same := by
    cases same
    exact length_leBytes 8 _

private theorem getMaxIdFromDeltaFast_eq (present : table.file.isSome = true) :
    ∃ read, table.getMaxIdFromDeltaFast = .ok (table.mark,read) ∧ Held read ∧ read.mark = table.mark ∧
    read.stored = table.stored ∧
      read.file = table.file := by
  unfold getMaxIdFromDeltaFast mark
  cases there : table.sidecar with
  | some bytes =>
    have whole : (bytes.length == 8) = true := beq_iff_eq.mpr (held.marked bytes there)
    rw [Option.filter_some,if_pos whole]
    exact ⟨table,rfl,held,by simp only [there],rfl,rfl⟩
  | none =>
    obtain ⟨bytes,file⟩ := Option.isSome_iff_exists.mp present
    obtain ⟨part,torn,shape⟩ := held.bytes_present file
    rw [Option.filter_none,getMaxIdFromDelta_eq held.sound torn (shape ▸ file)]
    exact ⟨table.writeDeltaMaxId (maxId table.ids),rfl,held.write present _,mark_write table _,rfl,rfl⟩

private theorem Held.mark_absent (absent : table.file = none) : table.mark = maxId table.ids := by
  rw [mark,held.absent absent]

private theorem exact_iff : table.Exact ↔ table.mark = maxId table.ids := by
  unfold Exact
  cases file : table.file with
  | none => exact ⟨fun _ => held.mark_absent file,fun _ => nofun⟩
  | some bytes =>
    obtain ⟨read,fast,_⟩ := getMaxIdFromDeltaFast_eq held (by rw [file]; rfl)
    rw [fast]
    exact ⟨fun same => Except.ok.inj (same rfl),fun same _ => congrArg Except.ok same⟩

private theorem markOrZero_eq :
    Held table.markOrZero.2 ∧ table.markOrZero.2.mark = table.mark ∧ table.markOrZero.2.stored = table.stored ∧
    table.markOrZero.2.file = table.file ∧ (table.file.isSome = true → table.markOrZero.1 = table.mark) := by
  unfold markOrZero
  cases file : table.file with
  | none =>
    have failed : table.getMaxIdFromDeltaFast = .error noFile := by
      unfold getMaxIdFromDeltaFast getMaxIdFromDelta
      rw [held.absent file,file]
      rfl
    rw [failed]
    exact ⟨held,rfl,rfl,file,nofun⟩
  | some bytes =>
    obtain ⟨read,fast,heldRead,same,stored,there⟩ := getMaxIdFromDeltaFast_eq held (by rw [file]; rfl)
    rw [fast]
    exact ⟨heldRead,same,stored,there.trans file,fun _ => rfl⟩

end

/-! What each call does to the rows and to the mark. -/

private theorem Held.whole (held : Held table) (whole : table.whole = true) :
    table.file.getD [] = contents table.stored := by
  obtain ⟨part,torn,shape⟩ := held.bytes
  unfold DeltaTable.whole at whole
  cases file : table.file with
  | none =>
    rw [held.stored_absent file]
    rfl
  | some bytes =>
    rw [file] at shape whole
    change bytes = contents table.stored ++ part at shape
    have length := beq_iff_eq.mp whole
    rw [shape,scanDeltaBatches_contents held.sound.fits torn,List.length_append] at length
    have none : part = [] := List.eq_nil_of_length_eq_zero (Nat.left_eq_add.mp length)
    rw [none,List.append_nil] at shape
    exact shape

private theorem fitsBehind_iff : table.fitsBehind batch = true ↔ batch.Fits ∧
    (table.file.getD [] ++ batch.toBytes).length < 2^64 := by
  unfold fitsBehind
  rw [Bool.and_eq_true,decide_eq_true_iff,decide_eq_true_iff]

private theorem ids_concat (stored : List TypedBatch) (batch : TypedBatch) :
    (stored ++ [batch]).flatMap TypedBatch.ids = stored.flatMap TypedBatch.ids ++ batch.ids := by
  rw [List.flatMap_append,List.flatMap_singleton]

private theorem append_nothing (none : batch.ids = []) : table.appendTypedToDeltaWithIds batch = table := by
  rw [DeltaTable.appendTypedToDeltaWithIds,none]
  rfl

section
variable (held : Held table) (whole : table.whole = true) (fits : table.fitsBehind batch = true) (some : batch.ids ≠ [])
include held whole fits some

private theorem append_held :
    Held (table.appendTypedToDeltaWithIds batch) ∧ (table.appendTypedToDeltaWithIds batch).mark = maxId batch.ids ∧
    (table.appendTypedToDeltaWithIds batch).ids = table.ids ++ batch.ids ∧
    (table.appendTypedToDeltaWithIds batch).file.isSome = true := by
  have here := held.whole whole
  obtain ⟨fits,small⟩ := fitsBehind_iff.mp fits
  have filled : batch.ids.isEmpty = false := List.isEmpty_eq_false_iff.mpr some
  unfold DeltaTable.appendTypedToDeltaWithIds
  rw [filled,if_neg Bool.false_ne_true]
  rw [here] at small
  refine ⟨⟨held.sound.snoc fits some small,⟨[],torn_nil,?_⟩,nofun,?_⟩,mark_write table _,ids_concat _ _,rfl⟩
  · change DeltaFile.appendTypedToDeltaWithIds (table.file.getD []) batch = contents (table.stored ++ [batch]) ++ []
    rw [DeltaFile.appendTypedToDeltaWithIds,filled,if_neg Bool.false_ne_true,here,contents_concat,List.append_nil]
  · rintro mark same
    cases same
    exact length_leBytes 8 _

private theorem appendWalRows_held (existingDeltaMax : UInt64) :
    Held (table.appendWalRowsToDelta batch existingDeltaMax) ∧
    (table.appendWalRowsToDelta batch existingDeltaMax).mark = max existingDeltaMax (maxId batch.ids) ∧
    (table.appendWalRowsToDelta batch existingDeltaMax).ids = table.ids ++ batch.ids := by
  obtain ⟨held,mark,ids,present⟩ := append_held held whole fits some
  obtain ⟨heldRead,markRead,stored,file,first⟩ := markOrZero_eq held
  have idsRead : (table.appendTypedToDeltaWithIds batch).markOrZero.2.ids = table.ids ++ batch.ids := by
    rw [← ids,DeltaTable.ids,stored]
    rfl
  have filled : batch.ids.isEmpty = false := List.isEmpty_eq_false_iff.mpr some
  unfold appendWalRowsToDelta
  rw [filled,if_neg Bool.false_ne_true]
  simp only [first present,mark]
  split
  · exact ⟨heldRead.write (file ▸ present) _,mark_write _ _,idsRead⟩
  · rename_i enough
    refine ⟨heldRead,?_,idsRead⟩
    rw [markRead,mark]
    exact Std.le_antisymm Std.right_le_max (Std.not_lt.mp enough)

end

private theorem recover_held (held : Held table) (exact_ : table.mark = maxId table.ids)
    (fits : table.fitsBehind batch = true)
    (whole : batch.ids = [] ∨ table.whole = true) :
    Held (table.recoverInserts batch) ∧ (table.recoverInserts batch).mark = maxId (table.recoverInserts batch).ids := by
  obtain ⟨heldRead,markRead,stored,file,first⟩ := markOrZero_eq held
  have start : ∃ read, (if table.file.isSome then table.markOrZero else (0,table)) = (maxId table.ids,read) ∧
    Held read ∧
      read.mark = table.mark ∧ read.stored = table.stored ∧ read.file = table.file := by
    by_cases present : table.file.isSome = true
    · rw [if_pos present]
      exact ⟨_,Prod.ext ((first present).trans exact_) rfl,heldRead,markRead,stored,file⟩
    · have none : table.ids = [] := by
        rw [ids,held.stored_absent (Option.not_isSome_iff_eq_none.mp present)]
        rfl
      rw [if_neg present,none]
      exact ⟨table,rfl,held,rfl,rfl,rfl⟩
  obtain ⟨read,start,heldRead,markRead,stored,file⟩ := start
  have ids : read.ids = table.ids := congrArg (List.flatMap TypedBatch.ids) stored
  unfold recoverInserts
  simp only [start]
  by_cases none : batch.ids = []
  · have same : read.appendWalRowsToDelta batch (maxId table.ids) = read := by
      rw [appendWalRowsToDelta,none]
      rfl
    rw [same]
    exact ⟨heldRead,by rw [markRead,exact_,ids]⟩
  · have whole := whole.resolve_left none
    have wholeRead : read.whole = true := by rw [DeltaTable.whole,file]; exact whole
    have fitsRead : read.fitsBehind batch = true := by rw [fitsBehind,file]; exact fits
    obtain ⟨held,mark,after⟩ := appendWalRows_held heldRead wholeRead fitsRead none (maxId table.ids)
    exact ⟨held,by rw [mark,after,maxId_append,ids]⟩

private theorem crashed_held (held : Held table) (exact_ : table.mark = maxId table.ids) (whole : table.whole = true)
    (fits : table.fitsBehind batch = true) (some : batch.ids ≠ []) (reached : Nat) :
    Held (table.crashed batch reached) ∧ ((table.crashed batch reached).mark = maxId (table.crashed batch reached).ids ↔
      reached < batch.toBytes.length ∨ table.sidecar = none ∨ maxId batch.ids ≤ maxId table.ids) := by
  have here := held.whole whole
  obtain ⟨fits,small⟩ := fitsBehind_iff.mp fits
  unfold crashed
  by_cases short : reached < batch.toBytes.length
  · rw [if_pos short]
    refine ⟨⟨held.sound,⟨batch.toBytes.take reached,⟨batch,fits,List.take_prefix _ _,?_⟩,congrArg (· ++ _) here⟩,nofun,
      held.marked⟩,
      fun _ => Or.inl short,fun _ => exact_⟩
    intro same
    have length := congrArg List.length same
    rw [List.length_take] at length
    omega
  · have all : batch.toBytes.take reached = batch.toBytes := List.take_of_length_le (Nat.le_of_not_lt short)
    rw [here] at small
    rw [if_neg short,all,here]
    refine ⟨⟨held.sound.snoc fits some small,⟨[],torn_nil,?_⟩,nofun,held.marked⟩,?_⟩
    · rw [contents_concat,List.append_nil]
      rfl
    · rw [or_iff_right short]
      cases there : table.sidecar with
      | none => exact iff_of_true rfl (Or.inl rfl)
      | some bytes =>
        have before : UInt64.ofNat (ofLe bytes) = maxId table.ids := by
          rw [← exact_,DeltaTable.mark,there]
        change UInt64.ofNat (ofLe bytes) = maxId ((table.stored ++ [batch]).flatMap TypedBatch.ids) ↔ _
        rw [before,ids_concat,maxId_append,or_iff_right nofun]
        exact eq_max_left

private theorem cut_held (table : DeltaTable) {kept : List TypedBatch} (sound : Sound kept) :
    (DeltaTable.mk kept (some (contents kept)) table.sidecar).getMaxIdFromDelta =
    .ok (maxId (kept.flatMap TypedBatch.ids)) ∧
    Held ((DeltaTable.mk kept (some (contents kept)) table.sidecar).writeDeltaMaxId
      (maxId (kept.flatMap TypedBatch.ids))) := by
  have shape : contents kept = contents kept ++ [] := (List.append_nil _).symm
  refine ⟨getMaxIdFromDelta_eq sound torn_nil (congrArg some shape),⟨sound,⟨[],torn_nil,shape⟩,nofun,?_⟩⟩
  rintro mark same
  cases same
  exact length_leBytes 8 _

private theorem repair_held {next : DeltaTable} (held : Held table) (exact_ : table.mark = maxId table.ids)
    (repaired : table.repairTornDeltaTail = .ok next) : Held next ∧ next.mark = maxId next.ids := by
  unfold repairTornDeltaTail at repaired
  cases file : table.file with
  | none =>
    rw [file] at repaired
    cases repaired
    exact ⟨held,exact_⟩
  | some bytes =>
    obtain ⟨part,torn,shape⟩ := held.bytes_present file
    obtain ⟨found,heldNext⟩ := cut_held table held.sound
    rw [file,shape] at repaired
    simp only [scanDeltaBatches_contents held.sound.fits torn,List.take_left] at repaired
    split at repaired
    · have found : DeltaTable.getMaxIdFromDelta {table with file := some (contents table.stored)} =
        .ok (maxId table.ids) := found
      rw [found] at repaired
      cases repaired
      exact ⟨heldNext,mark_write _ _⟩
    · cases repaired
      exact ⟨held,exact_⟩

private theorem rollBack_held {next : DeltaTable} {uncommittedInsertIds : List UInt64} (held : Held table)
    (exact_ : table.mark = maxId table.ids)
    (rolledBack : table.rollBackBatches uncommittedInsertIds = .ok next) : Held next ∧ next.mark = maxId next.ids := by
  unfold rollBackBatches at rolledBack
  cases file : table.file with
  | none =>
    rw [file] at rolledBack
    cases rolledBack
    exact ⟨held,exact_⟩
  | some bytes =>
    obtain ⟨part,torn,shape⟩ := held.bytes_present file
    rw [file,shape] at rolledBack
    simp only [scanDeltaBatches_contents held.sound.fits torn] at rolledBack
    split at rolledBack
    · cases rolledBack
      exact ⟨held,exact_⟩
    · rcases uncommittedCut_eq uncommittedInsertIds table.stored part none with ⟨_,found⟩ | ⟨shorter,found⟩
      · rw [found] at rolledBack
        cases rolledBack
        exact ⟨held,exact_⟩
      · have first := List.rdropWhile_prefix (uncommitted uncommittedInsertIds) (l := table.stored)
        rw [found] at rolledBack
        generalize table.stored.rdropWhile (uncommitted uncommittedInsertIds) = kept at first shorter rolledBack
        obtain ⟨foundId,heldNext⟩ := cut_held table (Derived.init kept held.sound first)
        have cut : (contents table.stored ++ part).take (contents kept).length = contents kept := by
          obtain ⟨after,split⟩ := first
          rw [← split,contents_append,List.append_assoc,List.take_left]
        have inside : (contents kept).length < (contents table.stored ++ part).length := by
          rw [List.length_append]
          omega
        simp only [bind,Except.bind,if_pos inside,cut,foundId] at rolledBack
        cases rolledBack
        exact ⟨heldNext,mark_write _ _⟩

private theorem readMark_held (held : Held table) (exact_ : table.mark = maxId table.ids) :
    Held table.markOrZero.2 ∧ table.markOrZero.2.mark = maxId table.markOrZero.2.ids := by
  obtain ⟨heldRead,mark,stored,_⟩ := markOrZero_eq held
  refine ⟨heldRead,?_⟩
  rw [mark,exact_,ids,ids,stored]

private theorem exec_held {next : DeltaTable} {call event : Call} (held : Held table)
    (exact_ : table.mark = maxId table.ids) (fits : table.fitting call = true) (whole : table.behindWhole call = true)
    (stepped : table.exec call = some (event,next)) :
    Held next ∧ (next.mark = maxId next.ids ↔ table.keepsMark call = true) := by
  obtain ⟨after,done,same⟩ := Option.map_eq_some_iff.mp stepped
  cases same
  cases call with
  | append batch =>
    cases done
    by_cases none : batch.ids = []
    · rw [append_nothing none,keepsMark,none]
      exact ⟨held,iff_of_true exact_ rfl⟩
    · have whole : table.whole = true := (Bool.or_eq_true_iff.mp whole).resolve_left fun empty =>
        none (List.isEmpty_iff.mp empty)
      obtain ⟨heldNext,mark,ids,_⟩ := append_held held whole fits none
      have filled : batch.ids.isEmpty = false := List.isEmpty_eq_false_iff.mpr none
      refine ⟨heldNext,?_⟩
      rw [mark,ids,maxId_append,keepsMark,filled,Bool.false_or,decide_eq_true_iff]
      exact eq_max_right
  | recover batch =>
    cases done
    obtain ⟨heldNext,same⟩ := recover_held held exact_ fits ((Bool.or_eq_true_iff.mp whole).imp List.isEmpty_iff.mp id)
    exact ⟨heldNext,iff_of_true same rfl⟩
  | crash batch reached =>
    cases done
    obtain ⟨fits,filled⟩ := Bool.and_eq_true_iff.mp fits
    have some : batch.ids ≠ [] := by
      rintro none
      rw [none] at filled
      cases filled
    obtain ⟨heldNext,same⟩ := crashed_held held exact_ whole fits some reached
    refine ⟨heldNext,same.trans ?_⟩
    rw [keepsMark,Bool.or_eq_true,Bool.or_eq_true,decide_eq_true_iff,decide_eq_true_iff,
      Option.isNone_iff_eq_none,or_assoc]
  | repair =>
    obtain ⟨heldNext,same⟩ := repair_held held exact_ (toOption_eq_some.mp done)
    exact ⟨heldNext,iff_of_true same rfl⟩
  | rollBack uncommittedInsertIds =>
    obtain ⟨heldNext,same⟩ := rollBack_held held exact_ (toOption_eq_some.mp done)
    exact ⟨heldNext,iff_of_true same rfl⟩
  | readMark =>
    cases done
    obtain ⟨heldNext,same⟩ := readMark_held held exact_
    exact ⟨heldNext,iff_of_true same rfl⟩

def keeping (table : DeltaTable) (call : Call) :
    Bool := table.fitting call && table.behindWhole call && table.keepsMark call

private theorem run_held {trace : List Call} (run : Run DeltaTable.exec DeltaTable.keeping .empty trace table) :
    Held table ∧ table.mark = maxId table.ids := by
  refine Run.invariant (P := fun _ table => Held table ∧ table.mark = maxId table.ids) ⟨Held.empty,rfl⟩ ?_ run
  rintro _ before call event next _ ⟨held,exact_⟩ permitted stepped
  obtain ⟨permitted,keeps⟩ := Bool.and_eq_true_iff.mp permitted
  obtain ⟨fits,whole⟩ := Bool.and_eq_true_iff.mp permitted
  obtain ⟨heldNext,same⟩ := exec_held held exact_ fits whole stepped
  exact ⟨heldNext,same.mpr keeps⟩

/-! The next id of a table that is opened. -/

section
variable {greatest id : UInt64} (less : id ≤ greatest) (room : greatest.toNat < 2^64 - 1)
include less room

private theorem lt_succ : id < greatest + 1 := by
  rw [UInt64.le_iff_toNat_le] at less
  rw [UInt64.lt_iff_toNat_lt,UInt64.toNat_add]
  change id.toNat < (greatest.toNat + 1) % 2^64
  omega

private theorem lt_saturatingSucc :
    id < saturatingSucc greatest := by
  rw [UInt64.le_iff_toNat_le] at less
  rw [UInt64.lt_iff_toNat_lt,saturatingSucc,UInt64.toNat_ofNat']
  omega

end

private theorem lt_baseNextId {groups : List Group} (counted : ∀ group ∈ groups, group.ids.length < 2^32)
    (room : ∀ id ∈ IdDirectory.allIds groups, id.toNat < 2^64 - 1) {id : UInt64}
    (member : id ∈ IdDirectory.allIds groups) :
    id < baseNextId (IdDirectory.directory groups) := by
  obtain ⟨group,here,inside⟩ := List.mem_flatMap.mp member
  have listed : ∀ group ∈ groups, group.ids ≠ [] → (IdDirectory.rowGroupMeta group).maxId ∈
      ((IdDirectory.directory groups).filter fun group => 0 < group.rowCount).map RowGroupMeta.maxId := by
    intro group here some
    refine List.mem_map_of_mem (List.mem_filter.mpr ⟨List.mem_map_of_mem here,?_⟩)
    exact decide_eq_true ((IdDirectory.rowCount_pos (counted group here)).mpr some)
  have some : group.ids ≠ [] := List.ne_nil_of_mem inside
  unfold baseNextId
  cases found : (((IdDirectory.directory groups).filter fun group => 0 < group.rowCount).map
    RowGroupMeta.maxId).max? with
  | none =>
    have absent := listed group here some
    rw [List.max?_eq_none_iff.mp found] at absent
    cases absent
  | some greatest =>
    obtain ⟨drawn,above⟩ := List.max?_eq_some_iff.mp found
    obtain ⟨entry,kept,same⟩ := List.mem_map.mp drawn
    obtain ⟨kept,rows⟩ := List.mem_filter.mp kept
    obtain ⟨other,there,rfl⟩ := List.mem_map.mp kept
    have others := (IdDirectory.rowCount_pos (counted other there)).mp (of_decide_eq_true rows)
    have bound := room _ (List.mem_flatMap.mpr ⟨other,there,(IdDirectory.maxId_spec others).1⟩)
    rw [same] at bound
    exact lt_succ (Std.le_trans ((IdDirectory.maxId_spec some).2 id inside) (above _ (listed group here some))) bound

private theorem lt_deltaNextId (held : Held table) (exact_ : table.mark = maxId table.ids)
    (room : ∀ id ∈ table.ids, id.toNat < 2^64 - 1) (nextId : UInt64) {id : UInt64} (member : id ∈ table.ids) :
    id < table.deltaNextId nextId := by
  have present : table.file.isSome = true := by
    rw [Option.isSome_iff_ne_none]
    intro absent
    rw [ids,held.stored_absent absent] at member
    cases member
  obtain ⟨read,fast,_⟩ := getMaxIdFromDeltaFast_eq held present
  have bound : maxId table.ids < UInt64.ofNat (2^64 - 1) := by
    refine maxId_lt (by decide) fun id member => ?_
    exact UInt64.lt_iff_toNat_lt.mpr (room id member)
  rw [deltaNextId,if_pos present,fast,exact_]
  exact lt_saturatingSucc (le_maxId member) (UInt64.lt_iff_toNat_lt.mp bound)

private theorem lt_finalNextId (held : Held table) (exact_ : table.mark = maxId table.ids) {groups : List Group}
    (counted : ∀ group ∈ groups, group.ids.length < 2^32) (recovered : Option UInt64)
    (room : ∀ id ∈ IdDirectory.allIds groups ++ table.ids, id.toNat < 2^64 - 1) {id : UInt64}
    (member : id ∈ IdDirectory.allIds groups ++ table.ids) :
    id < table.finalNextId (IdDirectory.directory groups) recovered := by
  obtain ⟨base,delta⟩ := List.forall_mem_append.mp room
  unfold finalNextId
  rcases List.mem_append.mp member with inBase | inDelta
  · exact Std.lt_of_lt_of_le (lt_baseNextId counted base inBase) (Std.le_trans Std.right_le_max Std.left_le_max)
  · exact Std.lt_of_lt_of_le (lt_deltaNextId held exact_ delta _ inDelta) Std.right_le_max

end DeltaTable

/-- After any history of calls that each keep the mark, it is the greatest id in the complete batches, and the
next id is above every id of the table; a further call leaves the mark right exactly when it keeps it. -/
theorem delta_mark_exact {trace : List DeltaTable.Call} {table : DeltaTable}
    (run : Run DeltaTable.exec DeltaTable.keeping .empty trace table) :
    table.Exact ∧ (∀ bytes, table.file = some bytes → (DeltaState.closed bytes 0).allIds = .ok table.ids) ∧
    (∀ (groups : List Group) (recovered : Option UInt64), (∀ group ∈ groups, group.ids.length < 2^32) →
      (∀ id ∈ IdDirectory.allIds groups ++ table.ids, id.toNat < 2^64 - 1) →
      ∀ id ∈ IdDirectory.allIds groups ++ table.ids, id < table.finalNextId (IdDirectory.directory groups) recovered) ∧
    ∀ call event next, table.fitting call = true → table.behindWhole call = true → table.exec call = some (event,next) →
      (next.Exact ↔ table.keepsMark call = true) := by
  obtain ⟨held,exact_⟩ := DeltaTable.run_held run
  refine ⟨(DeltaTable.exact_iff held).mpr exact_,?_,?_,?_⟩
  · intro bytes present
    obtain ⟨part,torn,shape⟩ := held.bytes_present present
    rw [shape]
    exact scanned held.sound torn
  · intro groups recovered counted room id member
    exact DeltaTable.lt_finalNextId held exact_ counted recovered room member
  · intro call event next fits whole stepped
    obtain ⟨heldNext,same⟩ := DeltaTable.exec_held held exact_ fits whole stepped
    exact (DeltaTable.exact_iff heldNext).trans same

def tenRow : DeltaTable := DeltaTable.empty.appendTypedToDeltaWithIds (oneText 10 "a" "x")

def tenTwice : DeltaTable := tenRow.appendTypedToDeltaWithIds (oneText 10 "a" "y")

/-- A row with a smaller id that a recovery brings leaves the mark where it is. -/
theorem mark_kept_by_recovery : (tenTwice.recoverInserts (oneText 5 "a" "z")).Exact ∧
    ∀ id ∈ [10,10,5], id < (tenTwice.recoverInserts (oneText 5 "a" "z")).finalNextId (IdDirectory.directory [])
      none := by
  have appended : DeltaTable.empty.keeping (.append (oneText 10 "a" "x")) = true := by decide +kernel
  have again : tenRow.keeping (.append (oneText 10 "a" "y")) = true := by decide +kernel
  have recovered : tenTwice.keeping (.recover (oneText 5 "a" "z")) = true := by decide +kernel
  have first : Run DeltaTable.exec DeltaTable.keeping .empty _ tenRow := Run.nil.snoc appended rfl
  have run : Run DeltaTable.exec DeltaTable.keeping .empty _ (tenTwice.recoverInserts (oneText 5 "a" "z")) :=
    (first.snoc again rfl).snoc recovered rfl
  obtain ⟨exact_,_,above,_⟩ := delta_mark_exact run
  have ids : (tenTwice.recoverInserts (oneText 5 "a" "z")).ids = [10,10,5] := by decide +kernel
  refine ⟨exact_,fun id member => above [] none nofun ?_ id (ids.symm ▸ member)⟩
  rw [ids]
  change ∀ id ∈ ([10,10,5] : List UInt64), id.toNat < 2^64 - 1
  simp

def lateSpill : DeltaTable := tenRow.appendTypedToDeltaWithIds (oneText 5 "a" "y")

/-- Rows that are spilled late take the mark back to their own ids, and ids are handed out twice. -/
theorem late_spill_lowers_mark :
    Run DeltaTable.exec (fun table call => table.fitting call && table.behindWhole call) .empty
      [.append (oneText 10 "a" "x"),.append (oneText 5 "a" "y")] lateSpill ∧
    lateSpill.file.isSome = true ∧ lateSpill.ids = [10,5] ∧ ¬ lateSpill.Exact ∧
    lateSpill.finalNextId (IdDirectory.directory []) none = 6 := by
  have appended : (DeltaTable.empty.fitting (.append (oneText 10 "a" "x")) &&
    DeltaTable.empty.behindWhole (.append (oneText 10 "a" "x"))) = true := by
    decide +kernel
  have late : (tenRow.fitting (.append (oneText 5 "a" "y")) && tenRow.behindWhole (.append (oneText 5 "a" "y"))) =
    true := by decide +kernel
  have first : Run DeltaTable.exec (fun table call => table.fitting call && table.behindWhole call) .empty
      [.append (oneText 10 "a" "x")] tenRow := Run.nil.snoc appended rfl
  refine ⟨first.snoc late rfl,rfl,by decide +kernel,?_,by decide +kernel⟩
  intro exact_
  have read : (lateSpill.getMaxIdFromDeltaFast.map Prod.fst).toOption = some 5 := by decide +kernel
  have greatest : maxId lateSpill.ids = 10 := by decide +kernel
  rw [exact_ rfl,greatest] at read
  cases read

end ApexBase.Storage.DeltaFile
