import ApexBase.Txn.Context

/-! Optimistic validation of `txn/conflict.rs`: the log of committed writes, the write intents of
prepared transactions, and the trimming of the log. -/
namespace ApexBase.Txn
open Data Library.Assoc

inductive ConflictResult
  | noConflict
  | readWriteConflict (table : String) (rowId conflictingTxn : Nat)
  | writeWriteConflict (table : String) (rowId conflictingTxn : Nat)

namespace ConflictResult

def isOk : ConflictResult → Bool
  | noConflict => true
  | _ => false

/-- `to_io_result`; there is no error to report when there is no conflict. -/
def toIoError : ConflictResult → Option IoError
  | noConflict => none
  | readWriteConflict table rowId txn => some ⟨.wouldBlock,"Read-write conflict: row " ++ toString rowId ++
      " in table '" ++ table ++ "' was modified by txn " ++ toString txn⟩
  | writeWriteConflict table rowId txn => some ⟨.wouldBlock,"Write-write conflict: row " ++ toString rowId ++
      " in table '" ++ table ++ "' was also written by txn " ++ toString txn⟩

end ConflictResult

structure CommittedWrite where
  txnId : Nat
  commitTs : Nat
  table : String
  rowId : Nat

def CommittedWrite.key (write : CommittedWrite) : String × Nat := (write.table,write.rowId)

structure ConflictDetector where
  committedWrites : List CommittedWrite
  activeWrites : Map (String × Nat) Nat
  watermark : Nat

namespace ConflictDetector

def new : ConflictDetector := ⟨[],∅,0⟩

def conflicting (committed : List CommittedWrite) (ctx : TxnContext) (key : String × Nat) : Option CommittedWrite :=
  committed.find? (fun cw => cw.table == key.1 && cw.rowId == key.2 && decide (cw.commitTs > ctx.snapshotTs) &&
    cw.txnId != ctx.txnId)

def firstConflict (committed : List CommittedWrite) (ctx : TxnContext)
    (report : String → Nat → Nat → ConflictResult) : List (String × Nat) → ConflictResult
  | [] => .noConflict
  | key :: rest =>
    match conflicting committed ctx key with
    | some cw => report key.1 key.2 cw.txnId
    | none => firstConflict committed ctx report rest

def validate (detector : ConflictDetector) (ctx : TxnContext) : ConflictResult :=
  match firstConflict detector.committedWrites ctx .readWriteConflict (ctx.readSet.map (·.key)) with
  | .noConflict => firstConflict detector.committedWrites ctx .writeWriteConflict ctx.writeKeys
  | conflict => conflict

def releaseIntents (active : Map (String × Nat) Nat) (txnId : Nat) (keys : List (String × Nat)) :
    Map (String × Nat) Nat :=
  keys.foldl (fun active key => if active.lookup key = some txnId then active.erase key else active) active

def recordPreparedCommit (detector : ConflictDetector) (txnId : Nat) (writes : List TxnWrite)
    (writeKeys : List (String × Nat)) (commitTs : Nat) : ConflictDetector :=
  {detector with
    committedWrites := detector.committedWrites ++ writes.map (fun w => ⟨txnId,commitTs,w.table,w.rowId⟩)
    activeWrites := releaseIntents detector.activeWrites txnId writeKeys}

def recordAbort (detector : ConflictDetector) (ctx : TxnContext) : ConflictDetector :=
  {detector with activeWrites := releaseIntents detector.activeWrites ctx.txnId ctx.writeKeys}

def foreignIntent (active : Map (String × Nat) Nat) (txnId : Nat) :
    List (String × Nat) → Option ((String × Nat) × Nat)
  | [] => none
  | key :: rest =>
    match active.lookup key with
    | some other => if other ≠ txnId then some (key,other) else foreignIntent active txnId rest
    | none => foreignIntent active txnId rest

def acquireWriteIntent (detector : ConflictDetector) (ctx : TxnContext) : ConflictResult × ConflictDetector :=
  match foreignIntent detector.activeWrites ctx.txnId ctx.writeKeys with
  | some (key,other) => (.writeWriteConflict key.1 key.2 other,detector)
  | none => (.noConflict,
      {detector with
        activeWrites := ctx.writeKeys.foldl (fun active key => active.insert key ctx.txnId) detector.activeWrites})

def advanceWatermark (detector : ConflictDetector) (newWatermark : Nat) : ConflictDetector :=
  {detector with
    watermark := newWatermark
    committedWrites := detector.committedWrites.filter (fun cw => decide (cw.commitTs ≥ newWatermark))}

def clearCommittedWrites (detector : ConflictDetector) : ConflictDetector :=
  {detector with committedWrites := []}

private theorem firstConflict_none (committed : List CommittedWrite) (ctx : TxnContext)
    (report : String → Nat → Nat → ConflictResult) (real : ∀ t r x, report t r x ≠ .noConflict)
    (keys : List (String × Nat)) (clean : firstConflict committed ctx report keys = .noConflict)
    (key : String × Nat) (member : key ∈ keys) (cw : CommittedWrite) (logged : cw ∈ committed)
    (same : cw.key = key) (later : cw.commitTs > ctx.snapshotTs) : cw.txnId = ctx.txnId := by
  induction keys with
  | nil => simp at member
  | cons head rest ih =>
    simp only [firstConflict] at clean
    split at clean
    · exact absurd clean (real _ _ _)
    · rename_i absent
      rcases List.mem_cons.mp member with rfl | inside
      · have negative := List.find?_eq_none.mp absent cw logged
        have table : cw.table = key.1 := congrArg Prod.fst same
        have row : cw.rowId = key.2 := congrArg Prod.snd same
        simpa [table,row,later] using negative
      · exact ih clean inside

/-- A validated transaction conflicts with no record of the log: every write after its snapshot to a
row it read or wrote is its own. -/
theorem validate_ok (detector : ConflictDetector) (ctx : TxnContext) (ok : (detector.validate ctx).isOk = true)
    (cw : CommittedWrite) (logged : cw ∈ detector.committedWrites) (later : cw.commitTs > ctx.snapshotTs)
    (touched : cw.key ∈ ctx.readSet.map (·.key) ∨ cw.key ∈ ctx.writeKeys) : cw.txnId = ctx.txnId := by
  unfold validate at ok
  split at ok
  · rename_i reads
    have writes : firstConflict detector.committedWrites ctx .writeWriteConflict ctx.writeKeys = .noConflict := by
      cases result : firstConflict detector.committedWrites ctx .writeWriteConflict ctx.writeKeys with
      | noConflict => rfl
      | readWriteConflict | writeWriteConflict => simp [result,ConflictResult.isOk] at ok
    rcases touched with read | written
    · exact firstConflict_none _ _ _ (by simp) _ reads _ read _ logged rfl later
    · exact firstConflict_none _ _ _ (by simp) _ writes _ written _ logged rfl later
  · rename_i result conflict
    exact absurd (by cases result <;> simp_all [ConflictResult.isOk]) conflict

section
variable (active : Map (String × Nat) Nat) (txnId : Nat) (keys : List (String × Nat))

theorem releaseIntents_spec (key : String × Nat) (owner : Nat) (other : owner ≠ txnId)
    (held : active.lookup key = some owner) :
    (releaseIntents active txnId keys).lookup key = some owner := by
  induction keys generalizing active with
  | nil => exact held
  | cons head rest ih =>
    simp only [releaseIntents,List.foldl_cons] at ih ⊢
    apply ih
    split
    · rename_i owned
      rw [lookup_erase_eq]
      split
      · rename_i same
        rw [same,owned] at held
        exact absurd (Option.some.inj held).symm other
      · exact held
    · exact held

private theorem lookup_insertAll (key : String × Nat) :
    (keys.foldl (fun active key => active.insert key txnId) active).lookup key =
      if key ∈ keys then some txnId else active.lookup key := by
  induction keys generalizing active with
  | nil => simp
  | cons head rest ih =>
    rw [List.foldl_cons,ih,lookup_insert_eq]
    by_cases same : key = head <;> by_cases inside : key ∈ rest <;> simp [same,inside]

private theorem foreignIntent_none (clean : foreignIntent active txnId keys = none) (key : String × Nat)
    (member : key ∈ keys) (owner : Nat) (held : active.lookup key = some owner) : owner = txnId := by
  induction keys with
  | nil => simp at member
  | cons head rest ih =>
    simp only [foreignIntent] at clean
    rcases List.mem_cons.mp member with rfl | inside
    · rw [held] at clean
      by_contra different
      simp [different] at clean
    · split at clean
      · split at clean
        · cases clean
        · exact ih clean inside
      · exact ih clean inside

end

theorem acquireWriteIntent_ok (detector next : ConflictDetector) (ctx : TxnContext)
    (ok : detector.acquireWriteIntent ctx = (.noConflict,next)) :
    next.committedWrites = detector.committedWrites ∧
    (∀ key, next.activeWrites.lookup key =
      if key ∈ ctx.writeKeys then some ctx.txnId else detector.activeWrites.lookup key) ∧
    ∀ key ∈ ctx.writeKeys, ∀ owner, detector.activeWrites.lookup key = some owner → owner = ctx.txnId := by
  unfold acquireWriteIntent at ok
  split at ok
  · simp at ok
  · rename_i clean
    simp only [Prod.mk.injEq,true_and] at ok
    subst ok
    exact ⟨rfl,lookup_insertAll _ _ _,foreignIntent_none _ _ _ clean⟩

end ConflictDetector

end ApexBase.Txn
