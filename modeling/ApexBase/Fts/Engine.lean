import ApexBase.Fts.State

/-! An index over its files (`fts/engine.rs`, `fts/storage.rs`). An engine that keeps
nothing on disk is one whose files are never written. -/
namespace ApexBase.Fts

def walSnapshotThreshold : Nat := 100000

structure Engine where
  state : IndexState
  /-- The index file. -/
  index : Option IndexState.Snapshot
  /-- The records of the log file. -/
  wal : List WalOp

namespace Engine

def fresh : Engine := ⟨{IndexState.default with needsRebuild := true},none,[]⟩

def upsertAll (recordWal : Bool) (analyzed : List (UInt64 × AnalyzedDocument)) (state : IndexState) : IndexState :=
  analyzed.foldl (fun state entry => state.applyUpsert entry.1 entry.2 recordWal) state

/-- The first batch of an index without a file builds its base. -/
def builds (engine : Engine) : Bool := engine.index.isNone && engine.state.canBuildBase

def applyAnalyzed (engine : Engine) (analyzed : List (UInt64 × AnalyzedDocument)) : Engine :=
  if analyzed.isEmpty then engine
  else if engine.builds then {engine with state := engine.state.buildBase analyzed}
  else {engine with state := upsertAll engine.index.isSome analyzed {engine.state with needsRebuild := false}}

def addDocument (engine : Engine) (docId : UInt64) (document : AnalyzedDocument) : Engine :=
  {engine with state := engine.state.applyUpsert docId document engine.index.isSome}

def removeDocuments (engine : Engine) (docIds : List UInt64) : Engine :=
  {engine with state := docIds.foldl (fun state docId => state.applyDelete docId engine.index.isSome) engine.state}

def persistSnapshot (lazyLoad : Bool) (engine : Engine) : Engine :=
  let merged := {engine.state.mergeDelta with needsRebuild := false}
  let written := merged.snapshot
  {state := if lazyLoad then merged.publish written else merged,index := some written,wal := []}

def appendPendingWal (engine : Engine) : Engine :=
  {engine with state := {engine.state with pendingWal := []},wal := engine.wal ++ engine.state.pendingWal}

/-- A flush writes a snapshot where there is none yet, or where the log would grow too long. -/
def snapshots (engine : Engine) : Bool := engine.index.isNone ||
    decide (walSnapshotThreshold ≤ engine.state.pendingWal.length)

def flush (lazyLoad : Bool) (engine : Engine) : Engine :=
  if engine.snapshots then engine.persistSnapshot lazyLoad else engine.appendPendingWal

def loaded (lazyLoad : Bool) (engine : Engine) : IndexState :=
  match engine.index with
  | some snapshot => .loadSnapshot snapshot lazyLoad
  | none => {IndexState.default with needsRebuild := true}

/-- The index as it is opened again: the snapshot, and over it the records of the log. -/
def reopen (lazyLoad : Bool) (engine : Engine) : Engine :=
  {engine with state := engine.wal.foldl .replay (engine.loaded lazyLoad)}

end Engine

end ApexBase.Fts
