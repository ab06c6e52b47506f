import ApexBase.Library.Run
import ApexBase.Mvcc.Snapshot
import ApexBase.Txn.Conflict

/-! The transaction manager of `txn/manager.rs`. The record also carries the
process-wide counters the manager draws from. Clock readings are inputs of the
operations; each operation is one atomic step. -/
namespace ApexBase.Txn
open Data Library.Assoc Mvcc

inductive TxnStatus
  | active
  | validating
  | committed
  | aborted
  deriving DecidableEq

def TxnStatus.debug : TxnStatus → String
  | active => "Active"
  | validating => "Validating"
  | committed => "Committed"
  | aborted => "Aborted"

structure ActiveTxn where
  context : TxnContext
  snapshot : Snapshot
  status : TxnStatus
  lastActivity : Nat

structure PreparedCommit where
  txnId : Nat
  writes : List TxnWrite

def txnTimeout : Nat := 30 * 10^9

structure TxnManager where
  activeTxns : Map Nat ActiveTxn
  snapshotManager : SnapshotManager
  conflictDetector : ConflictDetector
  versionStores : Map String VersionStore
  gc : GarbageCollector
  totalCommitted : Nat
  totalAborted : Nat
  globalTs : Nat
  nextTxnId : Nat
  nextSnapshotId : Nat

namespace TxnManager

def newStandalone : TxnManager := ⟨∅,.new,.new,∅,.new,0,0,1,1,1⟩

def getVersionStore (m : TxnManager) (table : String) : VersionStore × TxnManager :=
  match m.versionStores.lookup table with
  | some store => (store,m)
  | none => (.new,{m with versionStores := m.versionStores.insert table .new})

def pruneEmptyVersionStores (stores : Map String VersionStore) : Map String VersionStore :=
  retain (fun _ store => decide (store.rowCount > 0) || decide (store.totalVersions > 0)) stores

/-- What every abort does: release the intents, forget the transaction, release its snapshot and
count it. -/
def abortTxn (m : TxnManager) (txnId : Nat) (txn : ActiveTxn) : TxnManager :=
  {m with
    conflictDetector := m.conflictDetector.recordAbort txn.context
    activeTxns := m.activeTxns.erase txnId
    snapshotManager := m.snapshotManager.release txn.snapshot.id
    totalAborted := m.totalAborted + 1}

def isTimedOut (txn : ActiveTxn) (now : Nat) : Bool := decide (now - txn.lastActivity > txnTimeout)

def abortListed (m : TxnManager) : List Nat → TxnManager
  | [] => m
  | txnId :: rest =>
    match m.activeTxns.lookup txnId with
    | some txn => abortListed (m.abortTxn txnId txn) rest
    | none => abortListed m rest

def abortTimedOutTxns (m : TxnManager) (now : Nat) : TxnManager :=
  m.abortListed ((m.activeTxns.entries.filter
    (fun e => e.2.status == .active && isTimedOut e.2 now)).map (fun e => e.1))

/-- `begin` and `begin_read_only` up to the snapshot they take. -/
def enroll (m : TxnManager) (readTs now : Nat) (readOnly : Bool) : TxnManager :=
  let snapshot : Snapshot := ⟨m.nextSnapshotId,readTs,readOnly⟩
  {m with
    nextTxnId := m.nextTxnId + 1
    nextSnapshotId := m.nextSnapshotId + 1
    snapshotManager := m.snapshotManager.register snapshot
    activeTxns := m.activeTxns.insert m.nextTxnId
      ⟨.new m.nextTxnId readTs readOnly,snapshot,.active,now⟩}

def begin (m : TxnManager) (now : Nat) : Nat × TxnManager :=
  (m.nextTxnId,({m with globalTs := m.globalTs + 1}.enroll m.globalTs now false).abortTimedOutTxns now)

def beginReadOnly (m : TxnManager) (now : Nat) : Nat × TxnManager :=
  (m.nextTxnId,m.enroll m.globalTs now true)

def notFound (txnId : Nat) : IoError := ⟨.notFound,"Transaction " ++ toString txnId ++ " not found"⟩

def notInStatus (txnId : Nat) (expected : String) (status : TxnStatus) : IoError :=
  ⟨.invalidInput,"Transaction " ++ toString txnId ++ " is not " ++ expected ++ " (status: " ++ status.debug ++ ")"⟩

def timedOut (txnId : Nat) : IoError :=
  ⟨.timedOut,"Transaction " ++ toString txnId ++ " timed out (idle > 30s)"⟩

/-- The transaction stays in the map, in `Validating`, with its write set moved into the token. -/
def enterPrepared (m : TxnManager) (txnId : Nat) (txn : ActiveTxn) : PreparedCommit × TxnManager :=
  let (writes,context) := txn.context.takeWriteSet
  (⟨txnId,writes⟩,{m with activeTxns := m.activeTxns.insert txnId {txn with context, status := .validating}})

def prepareCommit (m : TxnManager) (txnId : Nat) : Except IoError PreparedCommit × TxnManager :=
  match m.activeTxns.lookup txnId with
  | none => (.error (notFound txnId),m)
  | some txn =>
    if txn.status ≠ .active then (.error (notInStatus txnId "active" txn.status),m)
    else if txn.context.hasWrites then
      let validation := m.conflictDetector.validate txn.context
      match validation.toIoError with
      | some e => (.error e,m.abortTxn txnId txn)
      | none =>
        let (intent,detector) := m.conflictDetector.acquireWriteIntent txn.context
        match intent.toIoError with
        | some e => (.error e,m.abortTxn txnId txn)
        | none =>
          let (token,next) := {m with conflictDetector := detector}.enterPrepared txnId txn
          (.ok token,next)
    else
      let (token,next) := m.enterPrepared txnId txn
      (.ok token,next)

def withStore (stores : Map String VersionStore) (table : String) (f : VersionStore → VersionStore) :
    Map String VersionStore :=
  stores.insert table (f ((stores.lookup table).getD .new))

/-- A row the store does not know as live gets a first version from the data the
transaction read, at timestamp 1. -/
def seedVersion (store : VersionStore) (rowId : Nat) (oldData : Row) : VersionStore :=
  if (store.readLatest rowId).isNone && !oldData.entries.isEmpty then store.insert rowId 1 oldData else store

/-- `let _ = result`: a failed call leaves the store as it was. -/
def ignoreError (store : VersionStore) : Except IoError VersionStore → VersionStore
  | .ok next => next
  | .error _ => store

def publishWrite (commitTs : Nat) (stores : Map String VersionStore) : TxnWrite → Map String VersionStore
  | .insert table rowId data => withStore stores table (·.insert rowId commitTs data)
  | .delete table rowId oldData => withStore stores table fun store =>
      let seeded := seedVersion store rowId oldData
      ignoreError seeded (seeded.delete rowId commitTs)
  | .update table rowId oldData newData => withStore stores table fun store =>
      let seeded := seedVersion store rowId oldData
      ignoreError seeded (seeded.update rowId commitTs newData)

/-- `gc.maybe_run` over every store in turn. -/
def collectStores (gc : GarbageCollector) (oldestActiveTs nowMillis : Nat) :
    List String → Map String VersionStore → GarbageCollector × Map String VersionStore
  | [],stores => (gc,stores)
  | table :: rest,stores =>
    match stores.lookup table with
    | some store =>
      let (gc,collected) := gc.maybeRun store oldestActiveTs nowMillis
      collectStores gc oldestActiveTs nowMillis rest (stores.insert table collected)
    | none => collectStores gc oldestActiveTs nowMillis rest stores

/-- Trim the commit log to what an active snapshot can still conflict with. -/
def trimLog (detector : ConflictDetector) (oldest : Nat) : ConflictDetector :=
  if oldest ≠ tsActive then detector.advanceWatermark oldest
  else (detector.advanceWatermark tsActive).clearCommittedWrites

def finalizeCommit (m : TxnManager) (prepared : PreparedCommit) (nowMillis : Nat) :
    Except IoError (List TxnWrite) × TxnManager :=
  match m.activeTxns.lookup prepared.txnId with
  | none => (.error (notFound prepared.txnId),m)
  | some txn =>
    if txn.status ≠ .validating then (.error (notInStatus prepared.txnId "prepared" txn.status),m)
    else
      let commitTs := m.globalTs
      let detector := m.conflictDetector.recordPreparedCommit prepared.txnId prepared.writes
        txn.context.writeKeys commitTs
      let stores := prepared.writes.foldl (publishWrite commitTs) m.versionStores
      let snapshots := m.snapshotManager.release txn.snapshot.id
      let (gc,collected) := collectStores m.gc snapshots.oldestActiveTs nowMillis stores.keys stores
      (.ok prepared.writes,{m with
        globalTs := m.globalTs + 1
        activeTxns := m.activeTxns.erase prepared.txnId
        snapshotManager := snapshots
        conflictDetector := trimLog detector snapshots.oldestActiveTs
        versionStores := pruneEmptyVersionStores collected
        gc
        totalCommitted := m.totalCommitted + 1})

def rollback (m : TxnManager) (txnId : Nat) : Except IoError Unit × TxnManager :=
  match m.activeTxns.lookup txnId with
  | none => (.error (notFound txnId),m)
  | some txn => (.ok (),m.abortTxn txnId txn)

def withContext (m : TxnManager) (txnId now : Nat) (calls : List ContextOp) : Except IoError Unit × TxnManager :=
  match m.activeTxns.lookup txnId with
  | none => (.error (notFound txnId),m)
  | some txn =>
    if txn.status ≠ .active then (.error ⟨.invalidInput,"Transaction is not active"⟩,m)
    else if isTimedOut txn now then (.error (timedOut txnId),m.abortTxn txnId txn)
    else
      let (result,context) := applyAll txn.context calls
      (result,{m with activeTxns := m.activeTxns.insert txnId {txn with context, lastActivity := now}})

def readSetOf (m : TxnManager) (txnId : Nat) : List ReadRecord :=
  ((m.activeTxns.lookup txnId).map (·.context.readSet)).getD []

def getSnapshotTs (m : TxnManager) (txnId : Nat) : Except IoError Nat :=
  match m.activeTxns.lookup txnId with
  | none => .error (notFound txnId)
  | some txn => .ok txn.snapshot.readTs

def isVisible (m : TxnManager) (txnId : Nat) (table : String) (rowId : Nat) : Except IoError Bool × TxnManager :=
  match m.getSnapshotTs txnId with
  | .error e => (.error e,m)
  | .ok snapshotTs =>
    let (store,next) := m.getVersionStore table
    (.ok (store.exists rowId snapshotTs),next)

def readVersioned (m : TxnManager) (txnId : Nat) (table : String) (rowId : Nat) :
    Except IoError (Option Row) × TxnManager :=
  match m.getSnapshotTs txnId with
  | .error e => (.error e,m)
  | .ok snapshotTs =>
    let (store,next) := m.getVersionStore table
    (.ok (store.read rowId snapshotTs),next)

def collectGarbage (m : TxnManager) (table : String) (nowMillis : Nat) : TxnManager :=
  match m.versionStores.lookup table with
  | none => m
  | some store =>
    let (gc,collected) := m.gc.run store m.snapshotManager.oldestActiveTs nowMillis
    {m with gc, versionStores := m.versionStores.insert table collected}

end TxnManager

/-- The manager together with the prepared-commit tokens its callers hold. A token is made by
`prepare_commit` only and consumed by `finalize_commit`. -/
structure System where
  manager : TxnManager
  held : List PreparedCommit

def System.new : System := ⟨.newStandalone,[]⟩

inductive Op
  | begin (now : Nat)
  | beginReadOnly (now : Nat)
  | withContext (txnId now : Nat) (calls : List ContextOp)
  | prepareCommit (txnId : Nat)
  | finalizeCommit (txnId nowMillis : Nat)
  | rollback (txnId : Nat)
  | isVisible (txnId : Nat) (table : String) (rowId : Nat)
  | readVersioned (txnId : Nat) (table : String) (rowId : Nat)
  | collectGarbage (table : String) (nowMillis : Nat)

/-- What an operation did. The timestamp drawn by a begin or a successful finalize, and the read set
at that moment, are part of the record although the code returns them to nobody. -/
inductive Event
  | began (txnId readTs : Nat) (readOnly : Bool)
  | context (txnId : Nat) (result : Except IoError Unit)
  | prepared (txnId : Nat) (result : Except IoError Unit)
  | finalized (txnId : Nat) (reads : List ReadRecord) (writes : List TxnWrite) (commitTs : Nat)
  | finalizeFailed (txnId : Nat) (error : IoError)
  | rolledBack (txnId : Nat) (result : Except IoError Unit)
  | visible (txnId : Nat) (result : Except IoError Bool)
  | versioned (txnId : Nat) (result : Except IoError (Option Row))
  | collected (table : String)

namespace System

def perform (s : System) : Op → Option (Event × System)
  | .begin now =>
    let (txnId,next) := s.manager.begin now
    some (.began txnId s.manager.globalTs false,{s with manager := next})
  | .beginReadOnly now =>
    let (txnId,next) := s.manager.beginReadOnly now
    some (.began txnId s.manager.globalTs true,{s with manager := next})
  | .withContext txnId now calls =>
    let (result,next) := s.manager.withContext txnId now calls
    some (.context txnId result,{s with manager := next})
  | .prepareCommit txnId =>
    match s.manager.prepareCommit txnId with
    | (.ok token,next) => some (.prepared txnId (.ok ()),⟨next,token :: s.held⟩)
    | (.error e,next) => some (.prepared txnId (.error e),{s with manager := next})
  | .finalizeCommit txnId nowMillis =>
    -- Without a token there is nothing to call `finalize_commit` with.
    match s.held.find? (fun token => token.txnId == txnId) with
    | none => none
    | some token =>
      let held := s.held.eraseP (fun token => token.txnId == txnId)
      match s.manager.finalizeCommit token nowMillis with
      | (.ok writes,next) => some (.finalized txnId (s.manager.readSetOf txnId) writes s.manager.globalTs,⟨next,held⟩)
      | (.error e,next) => some (.finalizeFailed txnId e,⟨next,held⟩)
  | .rollback txnId =>
    let (result,next) := s.manager.rollback txnId
    some (.rolledBack txnId result,{s with manager := next})
  | .isVisible txnId table rowId =>
    let (result,next) := s.manager.isVisible txnId table rowId
    some (.visible txnId result,{s with manager := next})
  | .readVersioned txnId table rowId =>
    let (result,next) := s.manager.readVersioned txnId table rowId
    some (.versioned txnId result,{s with manager := next})
  | .collectGarbage table nowMillis =>
    some (.collected table,{s with manager := s.manager.collectGarbage table nowMillis})

/-- One step, as long as the 64-bit clock stays below the reserved timestamps. -/
def exec (s : System) (op : Op) : Option (Event × System) :=
  (s.perform op).filter (fun result => decide (result.2.manager.globalTs < tsInf))

abbrev Run := Library.Run exec (fun _ _ => true) new

end System

end ApexBase.Txn
