import ApexBase.Wal.Record
import Mathlib.Data.List.Sort

/-! The recovery scan of `storage_core.rs`: which records of a log are replayed, and which inserts
belong to a dead transaction. Transaction ids restart with each process, so one log can hold several
transactions of one id. -/
namespace ApexBase.Wal
open Data Library.Assoc Library.Wire

def walHeaderSize : Nat := 24

structure WalRecoveryScan where
  records : List WalRecord
  uncommittedInsertIds : List UInt64
  committedDeleteIds : List UInt64
  committedUpdates : List (UInt64 × Row)
  recoveredNextId : UInt64

def batchIds (startId : UInt64) (rows : List (Map String ColumnValue)) : List UInt64 :=
  (List.range rows.length).map (fun offset => startId + UInt64.ofNat offset)

def committedTxns (wal : List WalRecord) : List UInt64 :=
  wal.filterMap fun
    | .txnCommit txnId => some txnId
    | _ => none

def uncommittedInserts (isLive committed : UInt64 → Bool) : WalRecord → List UInt64
  | .insert id _ txnId => if txnId != 0 && !committed txnId && !isLive txnId then [id] else []
  | .batchInsert startId rows txnId => if txnId != 0 && !committed txnId && !isLive txnId then
    batchIds startId rows else []
  | _ => []

def committedDelete (isLive committed : UInt64 → Bool) : WalRecord → Option UInt64
  | .delete id txnId => if txnId != 0 && committed txnId && !isLive txnId then some id else none
  | _ => none

/-- Inserts whose rows are in the base file are dropped, and so are deletes of rows that are not. -/
def keepsRecord (committed : UInt64 → Bool) (baseNextId : UInt64) : WalRecord → Bool
  | .insert id _ txnId => (txnId == 0 || committed txnId) && decide (baseNextId ≤ id)
  | .batchInsert startId rows txnId =>
    (txnId == 0 || committed txnId) && decide (baseNextId < startId + UInt64.ofNat rows.length)
  | .delete id txnId => (txnId == 0 || committed txnId) && decide (id < baseNextId)
  | _ => true

structure UpdatePairing where
  pending : Map UInt64 (List (Nat × UInt64 × Row))
  committed : List (Nat × UInt64 × Row)

def UpdatePairing.step (isLive : UInt64 → Bool) (appliedOffset : Nat) (state : UpdatePairing) :
    Nat × WalRecord → UpdatePairing
  | (_,.txnBegin txnId) => {state with pending := state.pending.insert txnId []}
  | (offset,.update id data txnId) =>
    if appliedOffset ≤ offset then
      match state.pending.lookup txnId with
      | some updates => {state with pending := state.pending.insert txnId (updates ++ [(offset,id,data)])}
      | none => state
    else state
  | (_,.txnCommit txnId) =>
    match state.pending.lookup txnId with
    | some updates =>
      ⟨state.pending.erase txnId,if isLive txnId then state.committed else state.committed ++ updates⟩
    | none => state
  | (_,.txnRollback txnId) => {state with pending := state.pending.erase txnId}
  | _ => state

def committedUpdates (isLive : UInt64 → Bool) (appliedOffset : Nat) (allRecords : List (Nat × WalRecord)) :
    List (UInt64 × Row) :=
  let paired := (allRecords.foldl (UpdatePairing.step isLive appliedOffset) ⟨∅,[]⟩).committed
  (paired.mergeSort (fun a b => decide (a.1 ≤ b.1))).map (fun update => update.2)

def maxWalId (records : List WalRecord) : Option UInt64 :=
  (records.filterMap fun
    | .insert id _ _ => some id
    | .batchInsert startId rows _ => some (startId + UInt64.ofNat rows.length - 1)
    | _ => none).max?

/-- An applied offset that is no record boundary counts as nothing applied. -/
def checkedOffset (walLen appliedOffset : Nat) (allRecords : List (Nat × WalRecord)) : Nat :=
  if appliedOffset == walLen || allRecords.any (fun r => r.1 == appliedOffset) then appliedOffset else walHeaderSize

def scanWalForRecovery (isLive : UInt64 → Bool) (walLen appliedOffset : Nat) (allRecords : List (Nat × WalRecord))
    (baseNextId : UInt64) : WalRecoveryScan :=
  let wal := allRecords.map (fun r => r.2)
  let committed := (committedTxns wal).contains
  let records := wal.filter (keepsRecord committed baseNextId)
  ⟨records,wal.flatMap (uncommittedInserts isLive committed),wal.filterMap (committedDelete isLive committed),
    committedUpdates isLive (checkedOffset walLen appliedOffset allRecords) allRecords,
    ((maxWalId records).map (· + 1)).getD baseNextId⟩

def endsInCommit (txnId : UInt64) : List WalRecord → Bool
  | [] => false
  | .txnCommit other :: rest => if other = txnId then true else endsInCommit txnId rest
  | .txnRollback other :: rest => if other = txnId then false else endsInCommit txnId rest
  | .txnBegin other :: rest => if other = txnId then false else endsInCommit txnId rest
  | _ :: rest => endsInCommit txnId rest

def occurrences : List WalRecord → List (WalRecord × List WalRecord)
  | [] => []
  | record :: rest => (record,rest) :: occurrences rest

def noneLive : UInt64 → Bool := fun _ => false

def ByInstance (baseNextId : UInt64) (wal : List WalRecord) (scan : WalRecoveryScan) : Prop :=
  scan.records = ((occurrences wal).filter (fun o => keepsRecord (endsInCommit · o.2) baseNextId o.1)).map (·.1) ∧
  scan.committedDeleteIds = (occurrences wal).filterMap (fun o => committedDelete noneLive (endsInCommit · o.2) o.1) ∧
  ∀ id, id ∈ scan.uncommittedInsertIds ↔
    id ∈ (occurrences wal).flatMap (fun o => uncommittedInserts noneLive (endsInCommit · o.2) o.1)

def dmlTxn : WalRecord → Option UInt64
  | .insert _ _ txnId | .batchInsert _ _ txnId | .delete _ txnId => if txnId = 0 then none else some txnId
  | _ => none

def insertedIds : WalRecord → List UInt64
  | .insert id _ _ => [id]
  | .batchInsert startId rows _ => batchIds startId rows
  | _ => []

def inBase (baseNextId : UInt64) : WalRecord → Bool
  | .insert id _ _ => decide (id < baseNextId)
  | .batchInsert startId rows _ => decide (startId + UInt64.ofNat rows.length ≤ baseNextId)
  | _ => false

def NeverCommitted (wal : List WalRecord) (id : UInt64) : Prop :=
  ∃ record ∈ wal, id ∈ insertedIds record ∧ ∃ txnId, dmlTxn record = some txnId ∧ txnId ∉ committedTxns wal

/-- No insert or delete of an interval that did not end in a commit has an id that is committed
elsewhere in the log. Only an insert of rows that are in the base file, and that an uncommitted id
inserted as well, makes no difference. -/
def IdsUnmixed (baseNextId : UInt64) (wal : List WalRecord) : Prop :=
  ∀ o ∈ occurrences wal, ∀ txnId, dmlTxn o.1 = some txnId → endsInCommit txnId o.2 = false → txnId ∈ committedTxns wal →
    inBase baseNextId o.1 = true ∧ ∀ id ∈ insertedIds o.1, NeverCommitted wal id

private theorem map_occurrences (wal : List WalRecord) : (occurrences wal).map (·.1) = wal := by
  induction wal with
  | nil => rfl
  | cons record rest ih => rw [occurrences,List.map_cons,ih]

private theorem committed_of_endsInCommit (txnId : UInt64) (wal : List WalRecord)
    (committed : endsInCommit txnId wal = true) :
    txnId ∈ committedTxns wal := by
  have later {record : WalRecord} {rest : List WalRecord} (inside : txnId ∈ committedTxns rest) :
      txnId ∈ committedTxns (record :: rest) := by
    obtain ⟨found,member,named⟩ := List.mem_filterMap.mp inside
    exact List.mem_filterMap.mpr ⟨found,List.mem_cons_of_mem _ member,named⟩
  induction wal with
  | nil => cases committed
  | cons record rest ih =>
    cases record with
    | txnCommit other =>
      simp only [endsInCommit] at committed
      split at committed
      · rename_i same
        subst same
        exact List.mem_cons_self
      · exact later (ih committed)
    | txnRollback other | txnBegin other =>
      simp only [endsInCommit] at committed
      split at committed
      · cases committed
      · exact later (ih committed)
    | insert | batchInsert | delete | update | checkpoint => exact later (ih committed)

/-- What follows a record is part of the log, so an interval that ends in a commit has its id in the
global set. -/
private theorem committed_of_occurrence (wal : List WalRecord) (o : WalRecord × List WalRecord)
    (member : o ∈ occurrences wal) (txnId : UInt64)
    (committed : endsInCommit txnId o.2 = true) : txnId ∈ committedTxns wal := by
  have inside := committed_of_endsInCommit txnId o.2 committed
  clear committed
  induction wal with
  | nil => cases member
  | cons record rest ih =>
    have suffix : txnId ∈ committedTxns rest := by
      rcases List.mem_cons.mp member with rfl | deeper
      · exact inside
      · exact ih deeper
    obtain ⟨found,place,named⟩ := List.mem_filterMap.mp suffix
    exact List.mem_filterMap.mpr ⟨found,List.mem_cons_of_mem _ place,named⟩

section Compare

variable (global local_ : UInt64 → Bool) (baseNextId : UInt64) (record : WalRecord)

section
variable (agree : ∀ txnId, dmlTxn record = some txnId → global txnId = local_ txnId)
include agree

private theorem keepsRecord_congr :
    keepsRecord global baseNextId record = keepsRecord local_ baseNextId record := by
  cases record with
  | insert id row txnId | batchInsert id row txnId | delete id txnId =>
    by_cases auto : txnId = 0
    · simp [keepsRecord,auto]
    · simp [keepsRecord,agree txnId (by simp [dmlTxn,auto])]
  | update | checkpoint | txnBegin | txnCommit | txnRollback => rfl

private theorem committedDelete_congr :
    committedDelete noneLive global record = committedDelete noneLive local_ record := by
  cases record with
  | delete id txnId =>
    by_cases auto : txnId = 0
    · simp [committedDelete,auto]
    · simp [committedDelete,agree txnId (by simp [dmlTxn,auto])]
  | insert | batchInsert | update | checkpoint | txnBegin | txnCommit | txnRollback => rfl

end

private theorem mem_uncommittedInserts (id : UInt64) : id ∈ uncommittedInserts noneLive global record ↔
    id ∈ insertedIds record ∧ ∃ txnId, dmlTxn record = some txnId ∧ global txnId = false := by
  cases record with
  | insert rowId row txnId | batchInsert rowId row txnId =>
    by_cases auto : txnId = 0 <;> cases mode : global txnId <;>
      simp [uncommittedInserts,insertedIds,dmlTxn,auto,mode,noneLive]
  | delete | update | checkpoint | txnBegin | txnCommit | txnRollback => simp [uncommittedInserts,insertedIds]

private theorem keepsRecord_inBase (persisted : inBase baseNextId record = true) :
    keepsRecord global baseNextId record = false := by
  cases record with
  | insert | batchInsert =>
    simp only [inBase,decide_eq_true_eq] at persisted
    simp [keepsRecord,persisted]
  | delete | update | checkpoint | txnBegin | txnCommit | txnRollback => cases persisted

private theorem keepsRecord_committed (txnId : UInt64) (named : dmlTxn record = some txnId)
    (kept : keepsRecord global baseNextId record = true) : global txnId = true := by
  cases record with
  | insert id row other | batchInsert id row other | delete id other =>
    simp only [dmlTxn] at named
    split at named
    · cases named
    · rename_i open_
      cases named
      simp only [keepsRecord,Bool.and_eq_true,Bool.or_eq_true,beq_iff_eq,open_,false_or] at kept
      exact kept.1
  | update | checkpoint | txnBegin | txnCommit | txnRollback => cases named

private theorem committedDelete_isSome : (committedDelete noneLive global record).isSome = true ↔
    (∃ id other, record = .delete id other) ∧ ∃ txnId, dmlTxn record = some txnId ∧ global txnId = true := by
  cases record with
  | delete id txnId =>
    by_cases auto : txnId = 0 <;> cases mode : global txnId <;> simp [committedDelete,dmlTxn,auto,mode,noneLive]
  | insert | batchInsert | update | checkpoint | txnBegin | txnCommit | txnRollback => simp [committedDelete]

private theorem keepsRecord_mono (weaker : ∀ txnId, local_ txnId = true → global txnId = true)
    (kept : keepsRecord local_ baseNextId record = true) : keepsRecord global baseNextId record = true := by
  cases record with
  | insert id row txnId | batchInsert id row txnId | delete id txnId =>
    simp only [keepsRecord,Bool.and_eq_true,Bool.or_eq_true] at kept ⊢
    exact ⟨kept.1.imp_right (weaker txnId),kept.2⟩
  | update | checkpoint | txnBegin | txnCommit | txnRollback => rfl

end Compare

private theorem contains_of_occurrence (wal : List WalRecord) (o : WalRecord × List WalRecord)
    (member : o ∈ occurrences wal) (txnId : UInt64)
    (absent : (committedTxns wal).contains txnId = false) : endsInCommit txnId o.2 = false := by
  cases ends : endsInCommit txnId o.2 with
  | false => rfl
  | true => simp [committed_of_occurrence wal o member txnId ends] at absent

private theorem filter_agree {α : Type} (items : List α) (wide narrow : α → Bool)
    (inside : ∀ a ∈ items, narrow a = true → wide a = true)
    (same : (items.filter wide).length = (items.filter narrow).length) :
    ∀ a ∈ items, wide a = true → narrow a = true := by
  induction items with
  | nil => simp
  | cons first rest ih =>
    have fewer : (rest.filter narrow).length ≤ (rest.filter wide).length := by
      rw [← List.countP_eq_length_filter,← List.countP_eq_length_filter]
      exact List.countP_mono_left (fun a member => inside a (List.mem_cons_of_mem _ member))
    have here := inside first List.mem_cons_self
    have rest_ := ih (fun a member => inside a (List.mem_cons_of_mem _ member))
    rw [List.forall_mem_cons]
    cases w : wide first <;> cases n : narrow first <;>
      simp only [w,n,List.filter_cons,if_true,Bool.false_eq_true,if_false,List.length_cons,true_implies] at same here
    · exact ⟨by simp,rest_ same⟩
    · omega
    · exact ⟨by simp,rest_ (by omega)⟩

private theorem scanned_eq (walLen appliedOffset : Nat) (allRecords : List (Nat × WalRecord)) (baseNextId : UInt64)
    (wal : List WalRecord) (log : wal = allRecords.map (fun r => r.2)) :
    (scanWalForRecovery noneLive walLen appliedOffset allRecords baseNextId).records =
      ((occurrences wal).filter (fun o => keepsRecord (committedTxns wal).contains baseNextId o.1)).map (·.1) ∧
    (scanWalForRecovery noneLive walLen appliedOffset allRecords baseNextId).committedDeleteIds =
      (occurrences wal).filterMap (fun o => committedDelete noneLive (committedTxns wal).contains o.1) ∧
    (scanWalForRecovery noneLive walLen appliedOffset allRecords baseNextId).uncommittedInsertIds =
      (occurrences wal).flatMap (fun o => uncommittedInserts noneLive (committedTxns wal).contains o.1) := by
  have shape := map_occurrences wal
  simp only [scanWalForRecovery,← log]
  refine ⟨?_,?_,?_⟩
  · conv_lhs => rw [← shape,List.filter_map]
    rw [shape]
    rfl
  · conv_lhs => rw [← shape,List.filterMap_map]
    rw [shape]
    rfl
  · conv_lhs => rw [← shape,List.flatMap_map]
    rw [shape]

/-- The scan classifies by transaction instance exactly when no id is committed in one instance and
unfinished in another. -/
theorem scan_by_instance_iff_idsUnmixed (walLen appliedOffset : Nat) (allRecords : List (Nat × WalRecord))
    (baseNextId : UInt64) :
    ByInstance baseNextId (allRecords.map (fun r => r.2))
      (scanWalForRecovery noneLive walLen appliedOffset allRecords baseNextId) ↔
    IdsUnmixed baseNextId (allRecords.map (fun r => r.2)) := by
  generalize log : allRecords.map (fun r => r.2) = wal
  obtain ⟨records,deletes,inserts⟩ := scanned_eq walLen appliedOffset allRecords baseNextId wal log.symm
  unfold ByInstance
  rw [records,deletes,inserts]
  have weaker (o) (member : o ∈ occurrences wal) (txnId : UInt64) := contains_of_occurrence wal o member txnId
  constructor
  · rintro ⟨kept,deleted,discarded⟩ o member txnId named unfinished elsewhere
    have global (o) (member : o ∈ occurrences wal) (txnId : UInt64) (ends : endsInCommit txnId o.2 = true) :
        (committedTxns wal).contains txnId = true := by
      simpa using committed_of_occurrence wal o member txnId ends
    have listed : (committedTxns wal).contains txnId = true := by simpa using elsewhere
    have sameKept := congrArg List.length kept
    rw [List.length_map,List.length_map] at sameKept
    have keepsAgree := filter_agree _ _ _ (fun a inside => keepsRecord_mono _ _ _ _ (global a inside)) sameKept o member
    have sameDeleted := congrArg List.length deleted
    rw [List.length_filterMap_eq_countP,List.length_filterMap_eq_countP,List.countP_eq_length_filter,
      List.countP_eq_length_filter] at sameDeleted
    have deletesAgree := filter_agree _ _ _ (fun a inside narrow => by
      obtain ⟨shape,other,owner,ends⟩ := (committedDelete_isSome _ _).mp narrow
      exact (committedDelete_isSome _ _).mpr ⟨shape,other,owner,global a inside other ends⟩) sameDeleted o member
    refine ⟨?_,?_⟩
    · -- A delete of the mixed id would be re-applied, and an insert replayed.
      cases shape : o.1 with
      | delete id other =>
        obtain ⟨_,owner,same,ends⟩ := (committedDelete_isSome _ _).mp
          (deletesAgree ((committedDelete_isSome _ _).mpr ⟨⟨id,other,shape⟩,txnId,named,listed⟩))
        cases Option.some.inj (named.symm.trans same)
        rw [ends] at unfinished
        cases unfinished
      | insert id row other | batchInsert id row other =>
        by_contra absent
        have passes : keepsRecord (committedTxns wal).contains baseNextId o.1 = true := by
          rw [shape] at named ⊢
          simp only [dmlTxn] at named
          split at named
          · cases named
          · cases named
            simp only [inBase,decide_eq_true_eq] at absent
            simpa [keepsRecord,elsewhere] using absent
        have ends := keepsRecord_committed _ _ _ _ named (keepsAgree passes)
        rw [ends] at unfinished
        cases unfinished
      | update | checkpoint | txnBegin | txnCommit | txnRollback =>
        rw [shape] at named
        cases named
    · intro id inserted
      have unfinishedHere : id ∈ (occurrences wal).flatMap
          (fun o => uncommittedInserts noneLive (endsInCommit · o.2) o.1) :=
        List.mem_flatMap.mpr ⟨o,member,(mem_uncommittedInserts _ _ _).mpr ⟨inserted,txnId,named,unfinished⟩⟩
      obtain ⟨o',member',inside⟩ := List.mem_flatMap.mp ((discarded id).mpr unfinishedHere)
      obtain ⟨again,other,owner,absent⟩ := (mem_uncommittedInserts _ _ _).mp inside
      refine ⟨o'.1,?_,again,other,owner,by simpa using absent⟩
      rw [← map_occurrences wal]
      exact List.mem_map_of_mem member'
  · intro unmixed
    -- Outside the mixed case the two predicates agree on the record's id.
    have agree (o) (member : o ∈ occurrences wal) (clear : inBase baseNextId o.1 = false) (txnId : UInt64)
        (named : dmlTxn o.1 = some txnId) : (committedTxns wal).contains txnId = endsInCommit txnId o.2 := by
      cases ends : endsInCommit txnId o.2 with
      | true => simpa using committed_of_occurrence wal o member txnId ends
      | false =>
        by_contra present
        have inside : txnId ∈ committedTxns wal := by simpa using present
        rw [(unmixed o member txnId named ends inside).1] at clear
        cases clear
    refine ⟨?_,?_,?_⟩
    · congr 1
      apply List.filter_congr
      intro o member
      cases persisted : inBase baseNextId o.1 with
      | true => rw [keepsRecord_inBase _ _ _ persisted,keepsRecord_inBase _ _ _ persisted]
      | false => exact keepsRecord_congr _ _ _ _ (agree o member persisted)
    · apply List.filterMap_congr
      intro o member
      cases shape : o.1 with
      | delete id txnId =>
        rw [← shape]
        exact committedDelete_congr _ _ _ (agree o member (by rw [shape]; rfl))
      | insert | batchInsert | update | checkpoint | txnBegin | txnCommit | txnRollback => rfl
    · intro id
      simp only [List.mem_flatMap,mem_uncommittedInserts]
      constructor
      · rintro ⟨o,member,inserted,txnId,named,absent⟩
        exact ⟨o,member,inserted,txnId,named,weaker o member txnId absent⟩
      · rintro ⟨o,member,inserted,txnId,named,ends⟩
        cases present : (committedTxns wal).contains txnId with
        | false => exact ⟨o,member,inserted,txnId,named,present⟩
        | true =>
          obtain ⟨record,place,again,other,owner,never⟩ :=
            (unmixed o member txnId named ends (by simpa using present)).2 id inserted
          rw [← map_occurrences wal] at place
          obtain ⟨o',member',rfl⟩ := List.mem_map.mp place
          exact ⟨o',member',again,other,owner,by simpa using never⟩

def lifetime (begun open_ : List UInt64) : List WalRecord → Bool
  | [] => true
  | .txnBegin txnId :: rest => !begun.contains txnId && lifetime (txnId :: begun) (txnId :: open_) rest
  | .txnCommit txnId :: rest => open_.contains txnId && lifetime begun (open_.erase txnId) rest
  | .txnRollback txnId :: rest => open_.contains txnId && lifetime begun (open_.erase txnId) rest
  | .insert _ _ txnId :: rest => (txnId == 0 || open_.contains txnId) && lifetime begun open_ rest
  | .batchInsert _ _ txnId :: rest => (txnId == 0 || open_.contains txnId) && lifetime begun open_ rest
  | .delete _ txnId :: rest => (txnId == 0 || open_.contains txnId) && lifetime begun open_ rest
  | .update _ _ txnId :: rest => (txnId == 0 || open_.contains txnId) && lifetime begun open_ rest
  | .checkpoint _ :: rest => lifetime begun open_ rest

/-- Transaction 1 of a first process commits; transaction 1 of a second process deletes a row and
never ends. The scan re-applies the delete. -/
theorem reused_id_counts_as_committed :
    ¬ ∀ (lifetimes : List (List (Nat × WalRecord))) (walLen appliedOffset : Nat) (baseNextId : UInt64),
      (∀ log ∈ lifetimes, lifetime [] [] (log.map (fun r => r.2)) = true) →
      ByInstance baseNextId (lifetimes.flatten.map (fun r => r.2))
        (scanWalForRecovery noneLive walLen appliedOffset lifetimes.flatten baseNextId) := by
  intro classified
  have claimed := classified [[(24,.txnBegin 1),(45,.txnCommit 1)],[(66,.txnBegin 1),(87,.delete 5 1)]] 116 24 9
    (by decide)
  have deleted : ([5] : List UInt64) = [] := claimed.2.1
  cases deleted

end ApexBase.Wal
