import ApexBase.Wal.Reader
import ApexBase.Txn.Context
import ApexBase.Library.Run

/-! The applied watermark of the log that the commits of one table share (`execute_commit_txn` in
`coordination.rs`, `write_wal_marker` in `storage_core.rs`), down to the bytes of the file. A commit
looks for the end of the log as it opens it and goes on from there, applies its rows and then
records the length of the whole file, whoever wrote it, as applied. -/
namespace ApexBase.Wal.Watermark
open Data Txn Library Library.Assoc Library.Wire

def walValue : Value → ColumnValue
  | .null => .null
  | .bool value => .bool value
  | .int64 value => .int64 value
  | .int32 value => .int64 value.toInt64
  | .float64 bits => .float64 bits
  | .string value => .string value
  | .uint64 value => .int64 value.toInt64
  | _ => .null

def dmlRecord (txnId : UInt64) : TxnWrite → WalRecord
  | .insert _ rowId data => .insert (UInt64.ofNat rowId) (convert walValue data) txnId
  | .delete _ rowId _ => .delete (UInt64.ofNat rowId) txnId
  | .update _ rowId _ newData => .update (UInt64.ofNat rowId) newData txnId

def commitRecords (txnId : UInt64) (writes : List TxnWrite) : List WalRecord :=
  .txnBegin txnId :: writes.map (dmlRecord txnId) ++ [.txnCommit txnId]

/-- A `BufWriter` over the open log: its position in the file, and what it holds back. -/
structure Writer where
  position : Nat
  buffer : Bytes

def bufferBytes : Nat := 64 * 1024

/-- `write_all`: what reaches the file now, and the writer behind it. -/
def Writer.writeAll (writer : Writer) (bytes : Bytes) : Bytes × Writer :=
  let held := writer.buffer ++ bytes
  if held.length ≤ bufferBytes ∧ bytes.length < bufferBytes then ([],⟨writer.position,held⟩)
  else if bufferBytes ≤ bytes.length then (held,⟨writer.position + held.length,[]⟩)
  else (writer.buffer,⟨writer.position + writer.buffer.length,bytes⟩)

/-- Bytes at a position replace what is there; a gap in front of them is filled with zeros. -/
def overwrite (file : Bytes) (position : Nat) (bytes : Bytes) : Bytes :=
  if bytes.isEmpty then file
  else file.take position ++ List.replicate (position - file.length) 0 ++ bytes ++ file.drop (position + bytes.length)

/-- A commit opens the table, which may find a log to recover, and then runs its phases in this
order. -/
inductive Phase
  | opening
  | recovering
  | recovered
  | logging (rest : List WalRecord)
  | flushing
  | applying
  | finalizing
  | marking
  | returned
  /-- Failed, or its process is gone. -/
  | stopped

structure Commit where
  txnId : UInt64
  records : List WalRecord
  phase : Phase
  writer : Writer
  /-- Where the `TxnCommit` record goes in the file, and its bytes. -/
  markerAt : Option (Nat × Bytes)
  /-- Its rows have reached base, `.delta` and `DeltaStore`. -/
  applied : Bool

/-- `is_live_txn`: from the begin of the transaction until it is finalized or rolled back. -/
def Commit.isLive (commit : Commit) : Bool :=
  match commit.phase with
  | .marking | .returned | .stopped => false
  | _ => true

structure TableLog where
  file : Bytes
  /-- The number in the sidecar, if there is one. -/
  marker : Option Nat
  commits : List Commit

/-- The `TxnCommit` record of the commit is in the file. -/
def Commit.lies (file : Bytes) (commit : Commit) : Bool :=
  commit.markerAt.any fun record => (file.drop record.1).take record.2.length == record.2

namespace TableLog

def created (startId : UInt64) : TableLog := ⟨WalWriter.header startId,none,[]⟩

def walLen (state : TableLog) : Nat := state.file.length

/-- Invalid sidecars count as nothing applied. -/
def walAppliedOffset (state : TableLog) : Nat :=
  (state.marker.filter (fun offset => decide (walHeaderSize ≤ offset) && decide (offset ≤ state.walLen))).getD
    walHeaderSize

def walNeedsRecovery (state : TableLog) : Bool :=
  if state.walLen ≤ walHeaderSize then false else state.walAppliedOffset != state.walLen

def writeWalMarker (state : TableLog) : TableLog :=
  if walHeaderSize < state.walLen then {state with marker := some state.walLen} else state

def allApplied (state : TableLog) : Bool := state.commits.all fun commit => !commit.lies state.file || commit.applied

/-- Recovery leaves live transactions to their own commits. Which of the others it brings back is
`restored`. -/
def recoverCommitted (state : TableLog) (restored : List Nat) : TableLog :=
  {state with commits := state.commits.mapIdx fun index commit =>
    if commit.lies state.file && !commit.isLive && restored.contains index then {commit with applied := true}
    else commit}

def setCommit (state : TableLog) (index : Nat) (commit : Commit) : TableLog :=
  {state with commits := state.commits.set index commit}

def write (state : TableLog) (position : Nat) (bytes : Bytes) : TableLog :=
  {state with file := overwrite state.file position bytes}

end TableLog

open TableLog

inductive Action
  | start (txnId : UInt64) (writes : List TxnWrite)
  | openTable (commit : Nat)
  | recover (commit : Nat) (restored : List Nat)
  | append (commit : Nat) (timestamp : Int64)
  | flush (commit : Nat)
  | apply (commit : Nat)
  | finalize (commit : Nat)
  | mark (commit : Nat)
  /-- An error in any phase: the transaction is rolled back, and of what its writer
  holds back so many bytes still reach the file. -/
  | fail (commit reached : Nat)
  /-- A writer without a transaction, or a part of a write that fails. -/
  | write (position : Nat) (bytes : Bytes)
  /-- A full save empties the log; the sidecar stays. -/
  | checkpoint (startId : UInt64)
  | stopProcess

namespace TableLog

def advance (state : TableLog) (index : Nat) (next : Commit → Option TableLog) : Option TableLog :=
  state.commits[index]?.bind next

def openTable (state : TableLog) (index : Nat) : Option TableLog :=
  state.advance index fun commit =>
    match commit.phase with
    | .opening =>
      let phase := if state.walNeedsRecovery then .recovering else .logging commit.records
      some (state.setCommit index {commit with phase := phase,writer := ⟨state.walLen,[]⟩})
    | _ => none

def recover (state : TableLog) (index : Nat) (restored : List Nat) : Option TableLog :=
  state.advance index fun commit =>
    match commit.phase with
    | .recovering => some ((state.setCommit index {commit with phase := .recovered}).recoverCommitted restored)
    | _ => none

def append (ext : External) (state : TableLog) (index : Nat) (timestamp : Int64) : Option TableLog :=
  state.advance index fun commit =>
    match commit.phase with
    | .logging (record :: rest) =>
      let bytes := record.toBytes ext timestamp
      let written := commit.writer.writeAll bytes
      let markerAt := match record with
        | .txnCommit _ => some (commit.writer.position + commit.writer.buffer.length,bytes)
        | _ => commit.markerAt
      let phase := if rest.isEmpty then .flushing else .logging rest
      some ((state.write commit.writer.position written.1).setCommit index
        {commit with phase := phase,writer := written.2,markerAt := markerAt})
    | _ => none

def flush (state : TableLog) (index : Nat) : Option TableLog :=
  state.advance index fun commit =>
    match commit.phase with
    | .flushing => some ((state.write commit.writer.position commit.writer.buffer).setCommit index
        {commit with phase := .applying,writer := ⟨commit.writer.position + commit.writer.buffer.length,[]⟩})
    | _ => none

def apply (state : TableLog) (index : Nat) : Option TableLog :=
  state.advance index fun commit =>
    match commit.phase with
    | .applying => some (state.setCommit index {commit with phase := .finalizing,applied := true})
    | _ => none

def finalize (state : TableLog) (index : Nat) : Option TableLog :=
  state.advance index fun commit =>
    match commit.phase with
    | .finalizing => some (state.setCommit index {commit with phase := .marking})
    | _ => none

/-- The sidecar is written at the end of a recovery and at the end of a commit. -/
def mark (state : TableLog) (index : Nat) : Option TableLog :=
  state.advance index fun commit =>
    match commit.phase with
    | .recovered => some ((state.setCommit index {commit with phase := .logging commit.records}).writeWalMarker)
    | .marking => some ((state.setCommit index {commit with phase := .returned}).writeWalMarker)
    | _ => none

def fail (state : TableLog) (index reached : Nat) : Option TableLog :=
  state.advance index fun commit =>
    some ((state.write commit.writer.position (commit.writer.buffer.take reached)).setCommit index
      {commit with phase := .stopped,writer := ⟨commit.writer.position,[]⟩})

def start (state : TableLog) (txnId : UInt64) (writes : List TxnWrite) : TableLog :=
  {state with commits := state.commits ++ [⟨txnId,commitRecords txnId writes,.opening,⟨walHeaderSize,[]⟩,none,false⟩]}

/-- What a writer holds back is lost. -/
def stopProcess (state : TableLog) : TableLog :=
  {state with commits := state.commits.map fun commit => {commit with
    phase := .stopped,writer := ⟨commit.writer.position,[]⟩}}

def exec (ext : External) (state : TableLog) (action : Action) : Option (Action × TableLog) :=
  (match action with
    | .start txnId writes => some (state.start txnId writes)
    | .openTable index => state.openTable index
    | .recover index restored => state.recover index restored
    | .append index timestamp => state.append ext index timestamp
    | .flush index => state.flush index
    | .apply index => state.apply index
    | .finalize index => state.finalize index
    | .mark index => state.mark index
    | .fail index reached => state.fail index reached
    | .write position bytes => some (state.write position bytes)
    | .checkpoint startId => some {state with file := WalWriter.header startId}
    | .stopProcess => some state.stopProcess).map (fun next => (action,next))

end TableLog

/-- The sidecar hides no transaction that is committed but not applied. -/
def Truthful (state : TableLog) : Prop := state.walNeedsRecovery = false → state.allApplied = true

/-- Bytes are put at the end of the file and do not make it as long as an old sidecar says. -/
def TableLog.lands (state : TableLog) (position : Nat) (bytes : Bytes) : Bool :=
  bytes.isEmpty || (decide (position = state.walLen) && decide (state.marker ≠ some (state.walLen + bytes.length)))

/-- Whenever the sidecar is written, no transaction stands between its `TxnCommit` and the end of
its apply, and none has failed there; and every writer is still at the end of the file. -/
def safe (ext : External) (state : TableLog) : Action → Bool
  | .mark _ => state.allApplied
  | .append index timestamp =>
    state.commits[index]?.all fun commit =>
      match commit.phase with
      | .logging (record :: _) =>
        decide (commit.writer.position = state.walLen) &&
          state.lands commit.writer.position (commit.writer.writeAll (record.toBytes ext timestamp)).1
      | _ => true
  | .flush index => state.commits[index]?.all fun commit => state.lands commit.writer.position commit.writer.buffer
  | .fail index reached =>
    state.commits[index]?.all fun commit => state.lands commit.writer.position (commit.writer.buffer.take reached)
  | .write position bytes => state.lands position bytes
  | _ => true

/-- Every commit that is in the file of the second state and not applied was so before. -/
def Settles (state next : TableLog) : Prop :=
  ∀ commit ∈ next.commits, commit.lies next.file = true → commit.applied = false →
    ∃ before ∈ state.commits, before.lies state.file = true ∧ before.applied = false

/-- No writer stands in the header, and no `TxnCommit` does. -/
def Commit.Placed (commit : Commit) : Prop :=
  walHeaderSize ≤ commit.writer.position ∧
    ∀ offset bytes, commit.markerAt = some (offset,bytes) → walHeaderSize ≤ offset ∧ bytes ≠ []

structure Kept (state : TableLog) : Prop where
  header : walHeaderSize ≤ state.walLen
  placed : ∀ commit ∈ state.commits, commit.Placed
  complete : state.marker = some state.walLen → state.allApplied = true

variable {ext : External} {state next : TableLog} {commit : Commit} {file : Bytes}

private theorem overwrite_end (file bytes : Bytes) : overwrite file file.length bytes = file ++ bytes := by
  unfold overwrite
  split
  · rename_i none_
    rw [List.isEmpty_iff.mp none_,List.append_nil]
  · rw [List.take_length,Nat.sub_self,List.drop_eq_nil_of_le (by omega),List.replicate_zero,List.append_nil,
      List.append_nil]

private theorem toBytes_ne (ext : External) (record : WalRecord) (timestamp : Int64) :
    record.toBytes ext timestamp ≠ [] := by
  intro none_
  have length := congrArg List.length none_
  simp only [WalRecord.toBytes,frame,List.length_append,length_leBytes,List.length_nil] at length
  omega

private theorem allApplied_iff : state.allApplied = true ↔ ∀ commit ∈ state.commits, commit.lies state.file = true →
    commit.applied = true := by
  simp only [allApplied,List.all_eq_true,Bool.or_eq_true,Bool.not_eq_true',← Bool.not_eq_true,imp_iff_not_or]

private theorem Settles.allApplied (settles : Settles state next) (all : state.allApplied = true) :
    next.allApplied = true := by
  rw [allApplied_iff] at all ⊢
  intro commit member lies
  by_contra unapplied
  obtain ⟨before,there,lay,open_⟩ := settles commit member lies (Bool.not_eq_true _ ▸ unapplied)
  rw [all before there lay] at open_
  cases open_

/-- Nothing lies behind the end of the file. -/
private theorem lies_inside (placed : commit.Placed) (lies : commit.lies file = true) :
    ∃ offset bytes, commit.markerAt = some (offset,bytes) ∧ walHeaderSize ≤ offset ∧ offset < file.length := by
  obtain ⟨⟨offset,bytes⟩,found,same⟩ := (Option.any_eq_true _ _).mp lies
  obtain ⟨from_,some_⟩ := placed.2 offset bytes found
  refine ⟨offset,bytes,found,from_,?_⟩
  by_contra behind
  rw [List.drop_eq_nil_of_le (by omega),List.take_nil] at same
  exact some_ (beq_iff_eq.mp same).symm

private theorem allApplied_header (placed : ∀ commit ∈ state.commits, commit.Placed)
    (short : state.walLen ≤ walHeaderSize) :
    state.allApplied = true := by
  rw [allApplied_iff]
  intro commit member lies
  obtain ⟨offset,_,_,from_,inside⟩ := lies_inside (placed commit member) lies
  exact absurd (Nat.lt_of_le_of_lt from_ inside) (Nat.not_lt.mpr short)

/-! One commit is replaced. -/

private theorem settles_set {index : Nat} {old : Commit} (found : state.commits[index]? = some old)
    (moved : commit.lies state.file = true → commit.applied = false → old.lies state.file = true ∧
      old.applied = false) :
    Settles state (state.setCommit index commit) := by
  intro other member lies unapplied
  rcases List.mem_or_eq_of_mem_set member with there | rfl
  · exact ⟨other,there,lies,unapplied⟩
  · obtain ⟨lay,open_⟩ := moved lies unapplied
    exact ⟨old,List.mem_of_getElem? found,lay,open_⟩

private theorem placed_set {index : Nat} (placed : ∀ commit ∈ state.commits, commit.Placed) (also : commit.Placed) :
    ∀ other ∈ (state.setCommit index commit).commits, other.Placed := by
  intro other member
  rcases List.mem_or_eq_of_mem_set member with there | rfl
  · exact placed other there
  · exact also

private theorem placed_of {index : Nat} {old : Commit} (placed : ∀ commit ∈ state.commits, commit.Placed)
    (found : state.commits[index]? = some old) : old.Placed := placed old (List.mem_of_getElem? found)

/-- A commit goes on: its `TxnCommit` stays where it is, and what was applied stays applied. -/
structure Commit.Moves (old commit : Commit) : Prop where
  marker : commit.markerAt = old.markerAt
  applied : commit.applied = false → old.applied = false
  position : walHeaderSize ≤ commit.writer.position

private theorem Commit.Moves.settles {index : Nat} {old : Commit} (moves : old.Moves commit)
    (found : state.commits[index]? = some old) : Settles state (state.setCommit index commit) := by
  refine settles_set found fun lies open_ => ⟨?_,moves.applied open_⟩
  rwa [Commit.lies,← moves.marker]

private theorem Commit.Moves.placed {old : Commit} (moves : old.Moves commit) (placed : old.Placed) :
    commit.Placed := by
  refine ⟨moves.position,fun offset bytes found => placed.2 offset bytes ?_⟩
  rw [← moves.marker,found]

private theorem Kept.of_settles (kept : Kept state) (file : next.file = state.file)
    (marker : next.marker = state.marker) (settles : Settles state next)
    (placed : ∀ commit ∈ next.commits, commit.Placed) : Kept next := by
  have len : next.walLen = state.walLen := congrArg List.length file
  refine ⟨len ▸ kept.header,placed,fun full => settles.allApplied (kept.complete ?_)⟩
  rw [← marker,full,len]

/-- After bytes at the end the sidecar no longer gives the length. -/
private theorem Kept.of_lands (kept : Kept state) {position : Nat} {bytes : Bytes}
    (lands : state.lands position bytes = true) (file : next.file = overwrite state.file position bytes)
    (marker : next.marker = state.marker) (settles : next.file = state.file → Settles state next)
    (placed : ∀ commit ∈ next.commits, commit.Placed) :
    Kept next := by
  rcases Bool.or_eq_true_iff.mp lands with none_ | there
  · have same : next.file = state.file := by rw [file,overwrite,if_pos none_]
    exact kept.of_settles same marker (settles same) placed
  · obtain ⟨atEnd,fresh⟩ := Bool.and_eq_true_iff.mp there
    rw [of_decide_eq_true atEnd,walLen,overwrite_end] at file
    have len : next.walLen = state.walLen + bytes.length := by rw [walLen,file,List.length_append,walLen]
    refine ⟨len ▸ Nat.le_add_right_of_le kept.header,placed,fun full => ?_⟩
    rw [marker,len] at full
    exact absurd full (of_decide_eq_true fresh)

private theorem Kept.move {index : Nat} {old : Commit} (kept : Kept state) (found : state.commits[index]? = some old)
    (moves : old.Moves commit) : Kept (state.setCommit index commit) :=
  kept.of_settles rfl rfl (moves.settles found) (placed_set kept.placed (moves.placed (placed_of kept.placed found)))

/-- A commit goes on, and its writer puts bytes into the file. -/
private theorem Kept.moveWriting {index position : Nat} {bytes : Bytes} {old : Commit} (kept : Kept state)
    (found : state.commits[index]? = some old) (moves : old.Moves commit)
    (lands : state.lands position bytes = true) : Kept ((state.write position bytes).setCommit index commit) := by
  refine kept.of_lands lands rfl rfl (fun same => ?_)
    (placed_set kept.placed (moves.placed (placed_of kept.placed found)))
  intro other member lies unapplied
  rw [same] at lies
  exact moves.settles found other member lies unapplied

private theorem Kept.writeWalMarker (kept : Kept state) (all : state.allApplied = true) :
    Kept state.writeWalMarker := by
  unfold TableLog.writeWalMarker
  split
  · exact ⟨kept.header,kept.placed,fun _ => all⟩
  · exact kept

private theorem Kept.recoverCommitted (kept : Kept state) (restored : List Nat) :
    Kept (state.recoverCommitted restored) := by
  refine kept.of_settles rfl rfl (fun other member lies unapplied => ?_) fun other member => ?_
  · obtain ⟨at_,inside,rfl⟩ := List.mem_mapIdx.mp member
    -- a commit that was brought back is applied
    split_ifs at lies unapplied
    exact ⟨_,List.getElem_mem inside,lies,unapplied⟩
  · obtain ⟨at_,inside,rfl⟩ := List.mem_mapIdx.mp member
    have before := kept.placed _ (List.getElem_mem inside)
    split
    · exact before
    · exact before

theorem kept_created (startId : UInt64) : Kept (created startId) := by
  have len : (created startId).walLen = walHeaderSize := by
    simp only [created,walLen,WalWriter.header,List.length_append,length_leBytes]
    rfl
  exact ⟨len.ge,List.forall_mem_nil _,fun full => absurd full (Option.some_ne_none _).symm⟩

/-- What a step of one commit does. -/
private theorem advanced {index : Nat} {step : Commit → Option TableLog} {action event : Action}
    (stepped : (state.advance index step).map (fun next => (action,next)) = some (event,next)) :
    ∃ commit, state.commits[index]? = some commit ∧ step commit = some next := by
  obtain ⟨after,stepped,same⟩ := Option.map_eq_some_iff.mp stepped
  cases same
  exact Option.bind_eq_some_iff.mp stepped

private theorem mark_cases {index : Nat} {event : Action} (stepped : exec ext state (.mark index) = some (event,next)) :
    ∃ old phase, state.commits[index]? = some old ∧ next =
    (state.setCommit index {old with phase := phase}).writeWalMarker := by
  obtain ⟨commit,found,stepped⟩ := advanced stepped
  split at stepped
  · cases stepped
    exact ⟨commit,_,found,rfl⟩
  · cases stepped
    exact ⟨commit,_,found,rfl⟩
  · cases stepped

private theorem mark_kept {index : Nat} {event : Action} (kept : Kept state) (all : state.allApplied = true)
    (stepped : exec ext state (.mark index) = some (event,next)) : Kept next := by
  obtain ⟨old,phase,found,rfl⟩ := mark_cases stepped
  have moves : old.Moves {old with phase := phase} := ⟨rfl,id,(placed_of kept.placed found).1⟩
  exact (kept.move found moves).writeWalMarker ((moves.settles found).allApplied all)

private theorem append_kept {index : Nat} {timestamp : Int64} {event : Action} (kept : Kept state)
    (permitted : safe ext state (.append index timestamp) = true)
    (stepped : exec ext state (.append index timestamp) = some (event,next)) : Kept next := by
  obtain ⟨commit,found,stepped⟩ := advanced stepped
  obtain ⟨from_,marks⟩ := placed_of kept.placed found
  simp only [safe,found,Option.all_some] at permitted
  split at stepped
  · rename_i record rest phase
    simp only [phase] at permitted
    obtain ⟨atEnd,lands⟩ := Bool.and_eq_true_iff.mp permitted
    have atEnd := of_decide_eq_true atEnd
    cases stepped
    refine kept.of_lands lands rfl rfl (fun same => ?_) (placed_set kept.placed ⟨?_,fun offset bytes there => ?_⟩)
    · have file : (state.write commit.writer.position (commit.writer.writeAll (record.toBytes ext timestamp)).1).file =
        state.file := same
      intro other member lies unapplied
      rw [show TableLog.file _ = state.file from same] at lies
      rcases List.mem_or_eq_of_mem_set member with there | rfl
      · exact ⟨other,there,lies,unapplied⟩
      · refine ⟨commit,List.mem_of_getElem? found,?_,unapplied⟩
        cases record with
        | txnCommit txnId =>
          -- the new record starts at the end of the file
          obtain ⟨⟨offset,bytes⟩,there,same⟩ := (Option.any_eq_true _ _).mp lies
          cases there
          rw [List.drop_eq_nil_of_le (by rw [atEnd]; exact Nat.le_add_right _ _),List.take_nil] at same
          exact absurd (beq_iff_eq.mp same).symm (toBytes_ne ext _ timestamp)
        | _ => exact lies
    · unfold Writer.writeAll
      dsimp only
      split
      · exact from_
      · split
        · exact Nat.le_add_right_of_le from_
        · exact Nat.le_add_right_of_le from_
    · cases record with
      | txnCommit txnId =>
        cases there
        exact ⟨Nat.le_add_right_of_le from_,toBytes_ne ext _ timestamp⟩
      | _ => exact marks offset bytes there
  · cases stepped

private theorem start_kept (kept : Kept state) (txnId : UInt64) (writes : List TxnWrite) :
    Kept (state.start txnId writes) := by
  refine kept.of_settles rfl rfl (fun commit member lies unapplied => ?_) fun commit member => ?_
  · rcases List.mem_append.mp member with old | new
    · exact ⟨commit,old,lies,unapplied⟩
    · rw [List.mem_singleton.mp new] at lies
      cases lies
  · rcases List.mem_append.mp member with old | new
    · exact kept.placed commit old
    · rw [List.mem_singleton.mp new]
      exact ⟨Nat.le_refl _,nofun⟩

private theorem checkpoint_kept (kept : Kept state) (startId : UInt64) :
    Kept {state with file := WalWriter.header startId} := by
  have short : (WalWriter.header startId).length ≤ walHeaderSize := by
    simp only [WalWriter.header,List.length_append,length_leBytes]
    decide
  exact ⟨(kept_created startId).header,kept.placed,fun _ => allApplied_header kept.placed short⟩

private theorem stopProcess_kept (kept : Kept state) : Kept state.stopProcess := by
  refine kept.of_settles rfl rfl (fun other member lies unapplied => ?_) fun other member => ?_
  · obtain ⟨before,there,rfl⟩ := List.mem_map.mp member
    exact ⟨before,there,lies,unapplied⟩
  · obtain ⟨before,there,rfl⟩ := List.mem_map.mp member
    exact kept.placed before there

theorem exec_kept {action event : Action} (kept : Kept state) (permitted : safe ext state action = true)
    (stepped : exec ext state action = some (event,next)) : Kept next := by
  cases action with
  | mark index => exact mark_kept kept permitted stepped
  | append index timestamp => exact append_kept kept permitted stepped
  | start txnId writes =>
    cases stepped
    exact start_kept kept txnId writes
  | openTable index =>
    obtain ⟨commit,found,stepped⟩ := advanced stepped
    split at stepped
    · cases stepped
      exact kept.move found ⟨rfl,id,kept.header⟩
    · cases stepped
  | recover index restored =>
    obtain ⟨commit,found,stepped⟩ := advanced stepped
    split at stepped
    · cases stepped
      have moves : commit.Moves {commit with phase := .recovered} := ⟨rfl,id,(placed_of kept.placed found).1⟩
      exact (kept.move found moves).recoverCommitted restored
    · cases stepped
  | flush index =>
    obtain ⟨commit,found,stepped⟩ := advanced stepped
    simp only [safe,found,Option.all_some] at permitted
    split at stepped
    · cases stepped
      exact kept.moveWriting found ⟨rfl,id,Nat.le_add_right_of_le (placed_of kept.placed found).1⟩ permitted
    · cases stepped
  | apply index =>
    obtain ⟨commit,found,stepped⟩ := advanced stepped
    split at stepped
    · cases stepped
      exact kept.move found ⟨rfl,fun open_ => (by cases open_),(placed_of kept.placed found).1⟩
    · cases stepped
  | finalize index =>
    obtain ⟨commit,found,stepped⟩ := advanced stepped
    split at stepped
    · cases stepped
      exact kept.move found ⟨rfl,id,(placed_of kept.placed found).1⟩
    · cases stepped
  | fail index reached =>
    obtain ⟨commit,found,stepped⟩ := advanced stepped
    simp only [safe,found,Option.all_some] at permitted
    cases stepped
    exact kept.moveWriting found ⟨rfl,id,(placed_of kept.placed found).1⟩ permitted
  | write position bytes =>
    cases stepped
    refine kept.of_lands permitted rfl rfl (fun same => ?_) kept.placed
    intro other member lies unapplied
    rw [show TableLog.file _ = state.file from same] at lies
    exact ⟨other,member,lies,unapplied⟩
  | checkpoint startId =>
    cases stepped
    exact checkpoint_kept kept startId
  | stopProcess =>
    cases stepped
    exact stopProcess_kept kept

private theorem Kept.truthful (kept : Kept state) : Truthful state := by
  intro skipped
  unfold walNeedsRecovery at skipped
  split at skipped
  · rename_i short
    exact allApplied_header kept.placed short
  · rename_i long
    have full : state.walAppliedOffset = state.walLen := by simpa using skipped
    unfold walAppliedOffset at full
    cases found : state.marker.filter (fun offset => decide (walHeaderSize ≤ offset) &&
      decide (offset ≤ state.walLen)) with
    | none =>
      rw [found,Option.getD_none] at full
      omega
    | some offset =>
      rw [found,Option.getD_some] at full
      subst full
      exact kept.complete (Option.filter_eq_some_iff.mp found).1

/-- Writing the sidecar tells the truth only where every commit of the log is applied. -/
private theorem mark_truthful {index : Nat} {event : Action} (kept : Kept state)
    (stepped : exec ext state (.mark index) = some (event,next)) (truthful : Truthful next) :
    state.allApplied = true := by
  obtain ⟨old,phase,found,rfl⟩ := mark_cases stepped
  by_cases long : walHeaderSize < state.walLen
  · have written : (state.setCommit index {old with phase := phase}).writeWalMarker =
        {state.setCommit index {old with phase := phase} with marker := some state.walLen} := if_pos long
    rw [written] at truthful
    have skipped : walNeedsRecovery {state.setCommit index {old with phase := phase} with marker := some state.walLen} =
      false := by
      have offset : walAppliedOffset {state.setCommit index {old with phase := phase} with
        marker := some state.walLen} = state.walLen := by
        change ((some state.walLen).filter fun offset => decide (walHeaderSize ≤ offset) &&
          decide (offset ≤ state.walLen)).getD _ = _
        rw [Option.filter_some_pos (by simp [long.le]),Option.getD_some]
      unfold walNeedsRecovery
      rw [offset]
      split
      · rfl
      · exact bne_self_eq_false _
    have all := allApplied_iff.mp (truthful skipped)
    rw [allApplied_iff]
    intro commit member lies
    by_cases same : commit = old
    · subst same
      exact all {commit with phase := phase} (List.mem_set (List.getElem?_eq_some_iff.mp found).1 _) lies
    · obtain ⟨at_,inside,rfl⟩ := List.getElem_of_mem member
      have other : index ≠ at_ := by
        rintro rfl
        exact same (Option.some.inj ((List.getElem?_eq_getElem inside).symm.trans found))
      refine all _ (List.mem_of_getElem? (i := at_) ?_) lies
      exact (List.getElem?_set_ne other).trans (List.getElem?_eq_getElem inside)
  · exact allApplied_header kept.placed (Nat.not_lt.mp long)

/-- In every run in which the sidecar is written only while every transaction with a `TxnCommit` in
the log is applied, and the log only at its end and never to the length in an old sidecar, it never
hides an unapplied one; and written at any other moment it does at once. -/
theorem marker_truthful {startId : UInt64} {trace : List Action}
    (run : Run (exec ext) (safe ext) (created startId) trace state) :
    Truthful state ∧ ∀ index event next, exec ext state (.mark index) = some (event,next) →
      (Truthful next ↔ state.allApplied = true) := by
  have kept : Kept state := by
    refine Run.invariant (P := fun _ state => Kept state) (kept_created startId) ?_ run
    intro _ _ _ _ _ _ kept permitted stepped
    exact exec_kept kept permitted stepped
  refine ⟨kept.truthful,fun index event next stepped => ⟨mark_truthful kept stepped,fun all => ?_⟩⟩
  exact (mark_kept kept all stepped).truthful

def plain : External := ⟨fun _ => "",fun _ => none,fun _ => 0⟩

def logs (index : Nat) : List Action := [.append index 0,.append index 0,.append index 0,.flush index]

def completes (index : Nat) : List Action := [.apply index,.finalize index,.mark index]

theorem marker_truthful_in_turn :
    ∃ trace state, Run (exec plain) (safe plain) (created 1) trace state ∧ state.walNeedsRecovery = false ∧
      state.walLen = walHeaderSize + 2 * 83 ∧ state.allApplied = true := by
  have played : (play (exec plain) (safe plain) (created 1) ([.start 1 [.delete "t" 0 ∅],.openTable 0] ++ logs 0 ++
    completes 0 ++
      [.start 2 [.delete "t" 1 ∅],.openTable 1] ++ logs 1 ++ completes 1)).any
      (fun r => !r.2.walNeedsRecovery && r.2.walLen == walHeaderSize + 2 * 83) = true := by decide +kernel
  obtain ⟨⟨trace,state⟩,played,shape⟩ := (Option.any_eq_true _ _).mp played
  obtain ⟨skipped,length⟩ := Bool.and_eq_true_iff.mp shape
  have run := Run.of_play played
  have skipped : state.walNeedsRecovery = false := by simpa using skipped
  exact ⟨trace,state,run,skipped,beq_iff_eq.mp length,(marker_truthful run).1 skipped⟩

/-- While the first commit stands between its `TxnCommit` and its apply, the next one opens the table, whose
recovery leaves the first to itself and marks the whole log; and then the process stops. -/
theorem marker_hides_unapplied_commit :
    ∃ trace state, Run (exec plain) (fun _ _ => true) (created 1) trace state ∧ ¬ Truthful state := by
  have played : (play (exec plain) (fun _ _ => true) (created 1)
      ([.start 1 [.delete "t" 0 ∅],.openTable 0] ++ logs 0 ++ [.start 2 [],.openTable 1,.recover 1 [],.mark 1,
        .stopProcess])).any
        (fun r => !r.2.walNeedsRecovery && !r.2.allApplied) = true := by decide +kernel
  obtain ⟨⟨trace,state⟩,played,hidden⟩ := (Option.any_eq_true _ _).mp played
  refine ⟨trace,state,Run.of_play played,fun truthful => ?_⟩
  obtain ⟨skipped,unapplied⟩ := Bool.and_eq_true_iff.mp hidden
  rw [truthful (by simpa using skipped)] at unapplied
  cases unapplied

end ApexBase.Wal.Watermark
