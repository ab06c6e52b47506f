import ApexBase.Fts.Identified

/-! Threads over one engine: additions and removals between the steps of flushes and
compactions, and crashes between the operations on the files. `recordBytes` is how many
bytes bincode writes for a record of the log. -/
namespace ApexBase.Fts
open Library Library.Assoc

def maxWalRecordBytes : Nat := 64 * 1024 * 1024

namespace WalOp

def terms : WalOp → List String
  | .upsert _ document => document.terms
  | .delete _ => []

/-- The record can be read again, and so can its terms in a snapshot. -/
def sized (recordBytes : WalOp → Nat) (op : WalOp) : Bool :=
  decide (recordBytes op ≤ maxWalRecordBytes) && op.terms.all fun term => decide (term.utf8ByteSize ≤ maxTermBytes)

end WalOp

/-- The records in front of the first that is too long. -/
def readable (recordBytes : WalOp → Nat) (wal : List WalOp) : List WalOp :=
  wal.takeWhile fun op => decide (recordBytes op ≤ maxWalRecordBytes)

/-- A snapshot with a term that is too long is refused. -/
def IndexState.Snapshot.opens (snapshot : IndexState.Snapshot) : Bool :=
  snapshot.postings.keys.all fun term => decide (term.utf8ByteSize ≤ maxTermBytes)

/-- How far a snapshot is: the delta is merged, the temporary file written, the index file
replaced, the log file removed. -/
inductive Stage
  | merged
  | written
  | replaced
  | logRemoved
  deriving DecidableEq

/-- A snapshot on its way, the operations that were acknowledged when the delta was merged, and
the records that wait for the log since before then. -/
structure Persist where
  stage : Stage
  acknowledged : Nat
  pending : Nat

inductive Task
  | adding (docId : UInt64) (document : AnalyzedDocument) (recordWal : Bool)
  | removing (docId : UInt64) (recordWal : Bool)
  | appending
  | persisting
  deriving DecidableEq

structure System where
  engine : Engine
  /-- The temporary file of a snapshot. -/
  temp : Option IndexState.Snapshot
  tasks : List Task
  persists : List Persist
  /-- The latest versions when the engine was opened, and the operations since, in order. -/
  base : Contents
  ops : List WalOp
  /-- How many of the operations are flushed. -/
  flushed : Nat
  /-- How many of the first pending records are older than the index file. -/
  stale : Nat
  /-- The latest versions in the index file. -/
  saved : Contents

namespace System

def fresh : System := ⟨.fresh,none,[],[],fun _ => none,[],0,0,fun _ => none⟩

def contentsAt (system : System) (n : Nat) : Contents := (system.ops.take n).foldl applied system.base

def now (system : System) : Contents := system.ops.foldl applied system.base

inductive Action
  /-- `add_document` up to its look at the index file. -/
  | startAdd (docId : UInt64) (document : AnalyzedDocument)
  | startRemove (docId : UInt64)
  | addBatch (analyzed : List (UInt64 × AnalyzedDocument))
  | removeDocuments (docIds : List UInt64)
  /-- `flush` or `flush_async` up to its choice between a snapshot and the log. -/
  | startFlush
  | startCompact
  /-- A thread takes the lock. -/
  | perform (task : Nat)
  /-- A snapshot takes its next step. -/
  | advance (persist : Nat)
  /-- A crash and the next opening; inside an append, after this many of its records. -/
  | crash (torn : Option Nat)

variable (recordBytes : WalOp → Nat) (lazyLoad : Bool)

def merge (system : System) : System :=
  {system with
    engine := {system.engine with state := {system.engine.state.mergeDelta with needsRebuild := false}}
    persists := system.persists ++ [⟨.merged,system.ops.length,system.engine.state.pendingWal.length⟩]}

def perform (system : System) : Task → System
  | .adding docId document recordWal =>
    {system with
      engine := {system.engine with state := system.engine.state.applyUpsert docId document recordWal}
      ops := system.ops ++ [.upsert docId document]}
  | .removing docId recordWal =>
    {system with
      engine := {system.engine with state := system.engine.state.applyDelete docId recordWal}
      ops := system.ops ++ [.delete docId]}
  | .appending =>
    {system with
      engine := system.engine.appendPendingWal
      persists := system.persists.map fun persist => {persist with pending := 0}
      flushed := system.ops.length
      stale := 0}
  | .persisting => system.merge

def finish (system : System) (persist : Persist) : System :=
  {system with
    engine := {system.engine with state :=
      match lazyLoad,system.engine.index with
      | true,some snapshot => system.engine.state.publish snapshot
      | _,_ => system.engine.state}
    flushed := max system.flushed persist.acknowledged
    stale := persist.pending}

def advance (system : System) (at_ : Nat) (persist : Persist) : System :=
  match persist.stage with
  | .merged =>
    {system with temp := some system.engine.state.snapshot,persists := system.persists.set at_ {persist with
      stage := .written}}
  | .written =>
    match system.temp with
    | some snapshot =>
      {system with
        engine := {system.engine with index := some snapshot},temp := none,saved :=
          system.contentsAt persist.acknowledged
        persists := system.persists.set at_ {persist with stage := .replaced}}
    | none => {system with persists := system.persists.eraseIdx at_}
  | .replaced =>
    {system with engine := {system.engine with wal := []},persists := system.persists.set at_ {persist with
      stage := .logRemoved}}
  | .logRemoved => {system.finish lazyLoad persist with persists := system.persists.eraseIdx at_}

/-- The log file as a crash leaves it. -/
def crashedWal (system : System) : Option Nat → List WalOp
  | none => system.engine.wal
  | some count => system.engine.wal ++ system.engine.state.pendingWal.take count

/-- The log is cut off where it cannot be read. -/
def reopened (system : System) (torn : Option Nat) : Option Engine :=
  if system.engine.index.all IndexState.Snapshot.opens then
    some ({system.engine with wal := readable recordBytes (system.crashedWal torn)}.reopen lazyLoad)
  else none

def recover (system : System) (engine : Engine) : System :=
  ⟨engine,none,[],[],engine.wal.foldl applied system.saved,[],0,0,system.saved⟩

def exec (system : System) : Action → Option (Unit × System)
  | .startAdd docId document =>
    some ((),{system with tasks := system.tasks ++ [.adding docId document system.engine.index.isSome]})
  | .startRemove docId => some ((),{system with tasks := system.tasks ++ [.removing docId system.engine.index.isSome]})
  | .addBatch analyzed =>
    some ((),{system with
      engine := system.engine.applyAnalyzed analyzed
      ops := system.ops ++ analyzed.map fun entry => .upsert entry.1 entry.2})
  | .removeDocuments docIds =>
    some ((),{system with engine := system.engine.removeDocuments docIds,ops := system.ops ++ docIds.map .delete})
  | .startFlush => some ((),{system with
    tasks := system.tasks ++ [if system.engine.snapshots then .persisting else .appending]})
  | .startCompact => some ((),{system with tasks := system.tasks ++ [.persisting]})
  | .perform task => (system.tasks[task]?).map fun next =>
    ((),{system.perform next with tasks := system.tasks.eraseIdx task})
  | .advance persist => (system.persists[persist]?).map fun next => ((),system.advance lazyLoad persist next)
  | .crash torn =>
    if torn.isSome && !decide (.appending ∈ system.tasks) then none
    else (system.reopened recordBytes lazyLoad torn).map fun engine => ((),system.recover engine)

def fits (system : System) : Action → Bool
  | .addBatch analyzed =>
    fitsBatch system.engine analyzed && analyzed.all fun entry => (WalOp.upsert entry.1 entry.2).sized recordBytes
  | .removeDocuments docIds => docIds.all fun docId => (WalOp.delete docId).sized recordBytes
  | .perform task =>
    match system.tasks[task]? with
    | some (.adding docId document _) => fitsUpsert system.engine.state docId document &&
      (WalOp.upsert docId document).sized recordBytes
    | some (.removing docId _) => (WalOp.delete docId).sized recordBytes
    | _ => true
  | .crash torn => fitsReplay (readable recordBytes (system.crashedWal torn)) (system.engine.loaded lazyLoad)
  | _ => true

/-- A change is recorded, unless there is no index file and no snapshot on its way; the log
is not written while a snapshot that is older will still remove it; no snapshot starts while
another is on its way; and no crash inside an append leaves out a record that is older than
the index file. -/
def calm (system : System) : Action → Bool
  | .addBatch _ | .removeDocuments _ => system.engine.index.isSome || system.persists.isEmpty
  | .perform task =>
    match system.tasks[task]? with
    | some (.adding _ _ recordWal) | some (.removing _ recordWal) => recordWal ||
      (system.engine.index.isNone && system.persists.isEmpty)
    | some .appending => system.persists.all fun persist => decide (persist.stage = .logRemoved ∨
      persist.acknowledged = system.ops.length)
    | some .persisting => system.persists.isEmpty
    | none => true
  | .crash (some count) => decide (system.stale ≤ count)
  | _ => true

def allowed (system : System) (action : Action) : Bool := system.fits recordBytes lazyLoad action && system.calm action

end System

/-- What the next opening finds: every document as it was after one of the operations, none
of them older than the last flushed one. -/
def Survives (recordBytes : WalOp → Nat) (lazyLoad : Bool) (system : System) (torn : Option Nat) : Prop :=
  ∃ engine contents, system.reopened recordBytes lazyLoad torn = some engine ∧ Exact engine.state contents ∧
    Identified engine.state contents ∧
    ∀ docId, ∃ n, system.flushed ≤ n ∧ n ≤ system.ops.length ∧ contents docId = system.contentsAt n docId

end ApexBase.Fts
