import ApexBase.Data.Value

/-! Per-transaction state of `txn/context.rs`: read set, buffered writes, the write keys derived
from them, and savepoints into the write set. -/
namespace ApexBase.Txn
open Data Library.Assoc

inductive TxnWrite
  | insert (table : String) (rowId : Nat) (data : Row)
  | update (table : String) (rowId : Nat) (oldData newData : Row)
  | delete (table : String) (rowId : Nat) (oldData : Row)

namespace TxnWrite

def table : TxnWrite → String
  | insert table _ _ | update table _ _ _ | delete table _ _ => table

def rowId : TxnWrite → Nat
  | insert _ rowId _ | update _ rowId _ _ | delete _ rowId _ => rowId

def key (write : TxnWrite) : String × Nat := (write.table,write.rowId)

def isInsert : TxnWrite → Bool
  | insert .. => true
  | _ => false

end TxnWrite

structure ReadRecord where
  table : String
  rowId : Nat
  versionTs : Nat

def ReadRecord.key (read : ReadRecord) : String × Nat := (read.table,read.rowId)

structure TxnContext where
  txnId : Nat
  snapshotTs : Nat
  readSet : List ReadRecord
  writeSet : List TxnWrite
  writeKeys : List (String × Nat)
  pendingInsertCounts : Map String Nat
  insertBaseIds : Map String Nat
  tablesTouched : List String
  readOnly : Bool
  finished : Bool
  savepoints : List (String × Nat)

namespace TxnContext

def new (txnId snapshotTs : Nat) (readOnly : Bool) : TxnContext :=
  ⟨txnId,snapshotTs,[],[],[],∅,∅,[],readOnly,false,[]⟩

def setFinished (ctx : TxnContext) : TxnContext := {ctx with finished := true}

def recordRead (ctx : TxnContext) (table : String) (rowId versionTs : Nat) : TxnContext :=
  {ctx with
    readSet := ctx.readSet ++ [⟨table,rowId,versionTs⟩]
    tablesTouched := ctx.tablesTouched.insert table}

def readOnlyError : IoError := ⟨.permissionDenied,"Cannot write in a read-only transaction"⟩

def alreadyWritten (table : String) (rowId : Nat) : IoError :=
  ⟨.alreadyExists,"Row " ++ toString rowId ++ " in table '" ++ table ++ "' already written in this transaction"⟩

def pendingInsertCount (ctx : TxnContext) (table : String) : Nat :=
  (ctx.pendingInsertCounts.lookup table).getD 0

def countInsert (counts : Map String Nat) (table : String) : Map String Nat :=
  counts.insert table ((counts.lookup table).getD 0 + 1)

/-- The part of the three `buffer_*` functions that they share: record the key, the touched table
and the write. -/
def pushWrite (ctx : TxnContext) (write : TxnWrite) : TxnContext :=
  {ctx with
    writeKeys := ctx.writeKeys.insert write.key
    tablesTouched := ctx.tablesTouched.insert write.table
    writeSet := ctx.writeSet ++ [write]}

def bufferInsert (ctx : TxnContext) (table : String) (rowId : Nat) (data : Row) : Except IoError TxnContext :=
  if ctx.readOnly then .error readOnlyError
  else if (table,rowId) ∈ ctx.writeKeys then .error (alreadyWritten table rowId)
  else .ok {ctx.pushWrite (.insert table rowId data) with
    pendingInsertCounts := countInsert ctx.pendingInsertCounts table}

def bufferUpdate (ctx : TxnContext) (table : String) (rowId : Nat) (oldData newData : Row) :
    Except IoError TxnContext :=
  if ctx.readOnly then .error readOnlyError else .ok (ctx.pushWrite (.update table rowId oldData newData))

def bufferDelete (ctx : TxnContext) (table : String) (rowId : Nat) (oldData : Row) : Except IoError TxnContext :=
  if ctx.readOnly then .error readOnlyError else .ok (ctx.pushWrite (.delete table rowId oldData))

def insertBaseId (ctx : TxnContext) (table : String) : Option Nat := ctx.insertBaseIds.lookup table

def rememberInsertBaseId (ctx : TxnContext) (table : String) (baseId : Nat) : TxnContext :=
  {ctx with insertBaseIds := ctx.insertBaseIds.insert table ((ctx.insertBaseIds.lookup table).getD baseId)}

def hasWrites (ctx : TxnContext) : Bool := !ctx.writeSet.isEmpty

def takeWriteSet (ctx : TxnContext) : List TxnWrite × TxnContext := (ctx.writeSet,{ctx with writeSet := []})

def savepoint (ctx : TxnContext) (name : String) : TxnContext :=
  {ctx with savepoints := ctx.savepoints ++ [(name,ctx.writeSet.length)]}

def savepointNotFound (name : String) : IoError := ⟨.notFound,"Savepoint '" ++ name ++ "' not found"⟩

/-- `rposition`: the index of the last savepoint of that name. -/
def savepointPosition (savepoints : List (String × Nat)) (name : String) : Option Nat :=
  (savepoints.reverse.findIdx? (fun sp => sp.1 == name)).map (fun i => savepoints.length - 1 - i)

def rebuildWriteIndexes (ctx : TxnContext) : TxnContext :=
  {ctx with
    writeKeys := ctx.writeSet.foldl (fun keys write => keys.insert write.key) []
    pendingInsertCounts := ctx.writeSet.foldl
      (fun counts write => if write.isInsert then countInsert counts write.table else counts) ∅}

def rollbackToSavepoint (ctx : TxnContext) (name : String) : Except IoError TxnContext :=
  match savepointPosition ctx.savepoints name with
  | none => .error (savepointNotFound name)
  | some pos =>
    let wsLen := (ctx.savepoints[pos]?.map (·.2)).getD 0
    let truncated := {ctx with writeSet := ctx.writeSet.take wsLen}.rebuildWriteIndexes
    .ok {truncated with savepoints := ctx.savepoints.take pos}

def releaseSavepoint (ctx : TxnContext) (name : String) : Except IoError TxnContext :=
  match savepointPosition ctx.savepoints name with
  | none => .error (savepointNotFound name)
  | some pos => .ok {ctx with savepoints := ctx.savepoints.eraseIdx pos}

end TxnContext

/-- The calls a `with_context` closure makes on the context. -/
inductive ContextOp
  | recordRead (table : String) (rowId versionTs : Nat)
  | bufferInsert (table : String) (rowId : Nat) (data : Row)
  | bufferUpdate (table : String) (rowId : Nat) (oldData newData : Row)
  | bufferDelete (table : String) (rowId : Nat) (oldData : Row)
  | rememberInsertBaseId (table : String) (baseId : Nat)
  | savepoint (name : String)
  | rollbackToSavepoint (name : String)
  | releaseSavepoint (name : String)

def ContextOp.apply (ctx : TxnContext) : ContextOp → Except IoError TxnContext
  | recordRead table rowId versionTs => .ok (ctx.recordRead table rowId versionTs)
  | bufferInsert table rowId data => ctx.bufferInsert table rowId data
  | bufferUpdate table rowId oldData newData => ctx.bufferUpdate table rowId oldData newData
  | bufferDelete table rowId oldData => ctx.bufferDelete table rowId oldData
  | rememberInsertBaseId table baseId => .ok (ctx.rememberInsertBaseId table baseId)
  | savepoint name => .ok (ctx.savepoint name)
  | rollbackToSavepoint name => ctx.rollbackToSavepoint name
  | releaseSavepoint name => ctx.releaseSavepoint name

/-- A closure runs its calls up to the first error, which it returns; the calls before the error
keep their effect. -/
def applyAll (ctx : TxnContext) : List ContextOp → Except IoError Unit × TxnContext
  | [] => (.ok (),ctx)
  | op :: rest =>
    match op.apply ctx with
    | .ok next => applyAll next rest
    | .error e => (.error e,ctx)

/-- The write keys are exactly the keys of the buffered writes. -/
def TxnContext.KeysExact (ctx : TxnContext) : Prop :=
  ∀ key, key ∈ ctx.writeKeys ↔ ∃ write ∈ ctx.writeSet, write.key = key

structure TxnContext.SameTxn (a b : TxnContext) : Prop where
  txnId : b.txnId = a.txnId
  snapshotTs : b.snapshotTs = a.snapshotTs
  readOnly : b.readOnly = a.readOnly

theorem TxnContext.keysExact_new (txnId snapshotTs : Nat) (readOnly : Bool) :
    (new txnId snapshotTs readOnly).KeysExact := by
  intro key
  simp [new]

theorem TxnContext.keysExact_pushWrite (ctx : TxnContext) (write : TxnWrite) (exact : ctx.KeysExact) :
    (ctx.pushWrite write).KeysExact := by
  intro key
  simp only [pushWrite,List.mem_insert_iff,exact key,List.mem_append,List.mem_singleton]
  constructor
  · rintro (rfl | ⟨w,member,rfl⟩)
    · exact ⟨write,Or.inr rfl,rfl⟩
    · exact ⟨w,Or.inl member,rfl⟩
  · rintro ⟨w,member | rfl,rfl⟩
    · exact Or.inr ⟨w,member,rfl⟩
    · exact Or.inl rfl

private theorem mem_foldl_keys (writes : List TxnWrite) (keys : List (String × Nat)) (key : String × Nat) :
    key ∈ writes.foldl (fun keys write => keys.insert write.key) keys ↔
      key ∈ keys ∨ ∃ write ∈ writes, write.key = key := by
  induction writes generalizing keys with
  | nil => simp
  | cons write rest ih =>
    rw [List.foldl_cons,ih,List.mem_insert_iff]
    simp only [List.mem_cons,exists_eq_or_imp]
    constructor
    · rintro ((rfl | old) | later)
      · exact Or.inr (Or.inl rfl)
      · exact Or.inl old
      · exact Or.inr (Or.inr later)
    · rintro (old | rfl | later)
      · exact Or.inl (Or.inr old)
      · exact Or.inl (Or.inl rfl)
      · exact Or.inr later

theorem TxnContext.keysExact_rebuild (ctx : TxnContext) : ctx.rebuildWriteIndexes.KeysExact := by
  intro key
  simp [rebuildWriteIndexes,mem_foldl_keys]

theorem ContextOp.apply_keeps (ctx next : TxnContext) (op : ContextOp) (exact : ctx.KeysExact)
    (ok : op.apply ctx = .ok next) : ctx.SameTxn next ∧ next.KeysExact := by
  cases op with
  | recordRead | rememberInsertBaseId | savepoint =>
    simp only [apply,Except.ok.injEq] at ok
    subst ok
    exact ⟨⟨rfl,rfl,rfl⟩,exact⟩
  | bufferInsert table rowId data =>
    simp only [apply,TxnContext.bufferInsert] at ok
    split at ok
    · cases ok
    · split at ok
      · cases ok
      · cases ok
        exact ⟨⟨rfl,rfl,rfl⟩,ctx.keysExact_pushWrite _ exact⟩
  | bufferUpdate | bufferDelete =>
    simp only [apply,TxnContext.bufferUpdate,TxnContext.bufferDelete] at ok
    split at ok
    · cases ok
    · cases ok
      exact ⟨⟨rfl,rfl,rfl⟩,ctx.keysExact_pushWrite _ exact⟩
  | rollbackToSavepoint name =>
    simp only [apply,TxnContext.rollbackToSavepoint] at ok
    split at ok
    · cases ok
    · cases ok
      exact ⟨⟨rfl,rfl,rfl⟩,TxnContext.keysExact_rebuild _⟩
  | releaseSavepoint name =>
    simp only [apply,TxnContext.releaseSavepoint] at ok
    split at ok
    · cases ok
    · cases ok
      exact ⟨⟨rfl,rfl,rfl⟩,exact⟩

theorem applyAll_keeps (ops : List ContextOp) (ctx : TxnContext) (exact : ctx.KeysExact) :
    ctx.SameTxn (applyAll ctx ops).2 ∧ (applyAll ctx ops).2.KeysExact := by
  induction ops generalizing ctx with
  | nil => exact ⟨⟨rfl,rfl,rfl⟩,exact⟩
  | cons op rest ih =>
    simp only [applyAll]
    split
    · rename_i next ok
      obtain ⟨same,kept⟩ := op.apply_keeps ctx next exact ok
      obtain ⟨later,final⟩ := ih next kept
      exact ⟨⟨later.txnId.trans same.txnId,later.snapshotTs.trans same.snapshotTs,
        later.readOnly.trans same.readOnly⟩,final⟩
    · exact ⟨⟨rfl,rfl,rfl⟩,exact⟩

theorem ContextOp.apply_reader (ctx next : TxnContext) (op : ContextOp) (mode : ctx.readOnly = true)
    (empty : ctx.writeSet = []) (ok : op.apply ctx = .ok next) : next.writeSet = [] := by
  cases op with
  | recordRead | rememberInsertBaseId | savepoint =>
    simp only [apply,Except.ok.injEq] at ok
    subst ok
    exact empty
  | bufferInsert | bufferUpdate | bufferDelete =>
    simp [apply,TxnContext.bufferInsert,TxnContext.bufferUpdate,TxnContext.bufferDelete,mode] at ok
  | rollbackToSavepoint name =>
    simp only [apply,TxnContext.rollbackToSavepoint] at ok
    split at ok
    · cases ok
    · cases ok
      simp [TxnContext.rebuildWriteIndexes,empty]
  | releaseSavepoint name =>
    simp only [apply,TxnContext.releaseSavepoint] at ok
    split at ok
    · cases ok
    · cases ok
      exact empty

theorem applyAll_reader (ops : List ContextOp) (ctx : TxnContext) (exact : ctx.KeysExact)
    (mode : ctx.readOnly = true) (empty : ctx.writeSet = []) : (applyAll ctx ops).2.writeSet = [] := by
  induction ops generalizing ctx with
  | nil => exact empty
  | cons op rest ih =>
    simp only [applyAll]
    split
    · rename_i next ok
      obtain ⟨same,kept⟩ := op.apply_keeps ctx next exact ok
      exact ih next kept (same.readOnly.trans mode) (op.apply_reader ctx next mode empty ok)
    · exact empty

end ApexBase.Txn
