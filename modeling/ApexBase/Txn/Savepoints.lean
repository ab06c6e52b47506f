import ApexBase.Txn.Context
import ApexBase.Library.UndoLog

/-! Savepoints of a transaction. The write set with the savepoints is a log with marks,
and what else is kept of the writes is a function of the write set, kept up to date by
the calls that buffer and computed anew by a rollback. -/
namespace ApexBase.Txn
open Data Library Library.Assoc

/-- A call that fails leaves the context as it was. -/
def callOp (ctx : TxnContext) (op : ContextOp) : TxnContext := (op.apply ctx).toOption.getD ctx

def callAll (ctx : TxnContext) (ops : List ContextOp) : TxnContext := ops.foldl callOp ctx

namespace TxnContext

def log (ctx : TxnContext) : UndoLog String TxnWrite := ⟨ctx.writeSet,ctx.savepoints⟩

def insertsInto (ctx : TxnContext) (table : String) : Nat :=
  ctx.writeSet.countP (fun write => write.isInsert && write.table == table)

structure Consistent (ctx : TxnContext) : Prop where
  keys : ctx.KeysExact
  counts : ∀ table, ctx.pendingInsertCount table = ctx.insertsInto table
  ordered : ctx.savepoints.Pairwise (fun below above => below.2 ≤ above.2)
  bounded : ∀ savepoint ∈ ctx.savepoints, savepoint.2 ≤ ctx.writeSet.length

end TxnContext

def ContextOp.spares (depth : Nat) (ctx : TxnContext) : ContextOp → Bool
  | rollbackToSavepoint name | releaseSavepoint name =>
    (TxnContext.savepointPosition ctx.savepoints name).all fun pos => decide (depth < pos)
  | _ => true

def sparesAll (depth : Nat) : TxnContext → List ContextOp → Bool
  | _,[] => true
  | ctx,op :: rest => op.spares depth ctx && sparesAll depth (callOp ctx op) rest

namespace TxnContext

def keysOf (writes : List TxnWrite) : List (String × Nat) := writes.foldl (fun keys write => keys.insert write.key) []

def countsOf (writes : List TxnWrite) : Map String Nat :=
  writes.foldl (fun counts write => if write.isInsert then countInsert counts write.table else counts) ∅

structure Indexed (ctx : TxnContext) : Prop where
  keys : ctx.writeKeys = keysOf ctx.writeSet
  counts : ctx.pendingInsertCounts = countsOf ctx.writeSet

theorem Indexed.pushWrite {ctx : TxnContext} {write : TxnWrite} (indexed : ctx.Indexed)
    (plain : write.isInsert = false) :
    (ctx.pushWrite write).Indexed := by
  refine ⟨?_,?_⟩
  · simp only [TxnContext.pushWrite,keysOf,List.foldl_append,List.foldl_cons,List.foldl_nil,indexed.keys]
  · simp only [TxnContext.pushWrite,countsOf,List.foldl_append,List.foldl_cons,List.foldl_nil,indexed.counts,plain,
      Bool.false_eq_true,if_false]

theorem Indexed.pushInsert {ctx : TxnContext} (table : String) (rowId : Nat) (data : Row) (indexed : ctx.Indexed) :
    Indexed {ctx.pushWrite (.insert table rowId data) with
      pendingInsertCounts := countInsert ctx.pendingInsertCounts table} := by
  refine ⟨?_,?_⟩
  · simp only [TxnContext.pushWrite,keysOf,List.foldl_append,List.foldl_cons,List.foldl_nil,indexed.keys]
  · simp only [TxnContext.pushWrite,countsOf,List.foldl_append,List.foldl_cons,List.foldl_nil,indexed.counts]
    rfl

theorem Indexed.keysExact {ctx : TxnContext} (indexed : ctx.Indexed) : ctx.KeysExact := by
  intro key
  rw [indexed.keys]
  exact ctx.keysExact_rebuild key

private theorem lookup_countInsert (counts : Map String Nat) (inserted table : String) :
    ((countInsert counts inserted).lookup table).getD 0 = (counts.lookup table).getD 0 + if inserted = table then 1
      else 0 := by
  rw [countInsert,lookup_insert_eq]
  by_cases same : table = inserted
  · subst same
    rw [if_pos rfl,if_pos rfl,Option.getD_some]
  · rw [if_neg same,if_neg fun back => same back.symm,Nat.add_zero]

private theorem foldl_counts (writes : List TxnWrite) (counts : Map String Nat) (table : String) :
    ((writes.foldl (fun counts write => if write.isInsert then countInsert counts write.table
      else counts) counts).lookup table).getD 0 =
      (counts.lookup table).getD 0 + writes.countP (fun write => write.isInsert && write.table == table) := by
  induction writes generalizing counts with
  | nil => rfl
  | cons write rest ih =>
    rw [List.foldl_cons,ih,List.countP_cons]
    cases inserts : write.isInsert with
    | false => simp
    | true =>
      rw [if_pos rfl,lookup_countInsert]
      simp only [Bool.true_and,beq_iff_eq]
      omega

theorem Indexed.counted {ctx : TxnContext} (indexed : ctx.Indexed) (table : String) :
    ctx.pendingInsertCount table = ctx.insertsInto table := by
  rw [pendingInsertCount,indexed.counts,insertsInto]
  exact (foldl_counts ctx.writeSet ∅ table).trans (Nat.zero_add _)

end TxnContext

/-- A call leaves the log as it is, or appends, marks, releases or rolls back; either
way the indexes follow. -/
theorem ContextOp.apply_log {ctx next : TxnContext} (op : ContextOp) (indexed : ctx.Indexed)
    (ok : op.apply ctx = .ok next) :
    next.Indexed ∧ (next.log = ctx.log ∨
      ∃ logged, ctx.log.apply logged = some next.log ∧ ∀ depth, ctx.log.spares depth logged = op.spares depth ctx) := by
  cases op with
  | recordRead | rememberInsertBaseId =>
    cases ok
    exact ⟨⟨indexed.keys,indexed.counts⟩,Or.inl rfl⟩
  | savepoint name =>
    cases ok
    exact ⟨⟨indexed.keys,indexed.counts⟩,Or.inr ⟨.mark name,rfl,fun _ => rfl⟩⟩
  | bufferInsert table rowId data =>
    simp only [apply,TxnContext.bufferInsert] at ok
    split at ok
    · cases ok
    · split at ok
      · cases ok
      · cases ok
        exact ⟨indexed.pushInsert table rowId data,Or.inr ⟨.append (.insert table rowId data),rfl,fun _ => rfl⟩⟩
  | bufferUpdate table rowId oldData newData =>
    simp only [apply,TxnContext.bufferUpdate] at ok
    split at ok
    · cases ok
    · cases ok
      exact ⟨indexed.pushWrite rfl,Or.inr ⟨.append (.update table rowId oldData newData),rfl,fun _ => rfl⟩⟩
  | bufferDelete table rowId oldData =>
    simp only [apply,TxnContext.bufferDelete] at ok
    split at ok
    · cases ok
    · cases ok
      exact ⟨indexed.pushWrite rfl,Or.inr ⟨.append (.delete table rowId oldData),rfl,fun _ => rfl⟩⟩
  | rollbackToSavepoint name =>
    simp only [apply,TxnContext.rollbackToSavepoint] at ok
    split at ok
    · cases ok
    · rename_i pos found
      cases ok
      refine ⟨⟨rfl,rfl⟩,Or.inr ⟨.rollback name,?_,fun _ => rfl⟩⟩
      exact Option.map_eq_some_iff.mpr ⟨pos,found,rfl⟩
  | releaseSavepoint name =>
    simp only [apply,TxnContext.releaseSavepoint] at ok
    split at ok
    · cases ok
    · rename_i pos found
      cases ok
      refine ⟨⟨indexed.keys,indexed.counts⟩,Or.inr ⟨.release name,?_,fun _ => rfl⟩⟩
      exact Option.map_eq_some_iff.mpr ⟨pos,found,rfl⟩

structure Kept (ctx : TxnContext) : Prop where
  indexed : ctx.Indexed
  marked : ctx.log.WellMarked

theorem Kept.consistent {ctx : TxnContext} (kept : Kept ctx) : ctx.Consistent :=
  ⟨kept.indexed.keysExact,kept.indexed.counted,kept.marked.ordered,kept.marked.bounded⟩

theorem kept_new (txnId snapshotTs : Nat) (readOnly : Bool) : Kept (.new txnId snapshotTs readOnly) :=
  ⟨⟨rfl,rfl⟩,UndoLog.wellMarked_empty⟩

private theorem callOp_cases (ctx : TxnContext) (op : ContextOp) :
    callOp ctx op = ctx ∨ op.apply ctx = .ok (callOp ctx op) := by
  unfold callOp
  cases op.apply ctx with
  | error => exact Or.inl rfl
  | ok next => exact Or.inr rfl

theorem Kept.callOp {ctx : TxnContext} (kept : Kept ctx) (op : ContextOp) : Kept (callOp ctx op) := by
  rcases callOp_cases ctx op with same | ok
  · rwa [same]
  · obtain ⟨indexed,same | ⟨logged,done,_⟩⟩ := op.apply_log kept.indexed ok
    · exact ⟨indexed,by rw [same]; exact kept.marked⟩
    · exact ⟨indexed,kept.marked.apply done⟩

theorem Kept.callAll {ctx : TxnContext} (kept : Kept ctx) (ops : List ContextOp) : Kept (callAll ctx ops) := by
  induction ops generalizing ctx with
  | nil => exact kept
  | cons op rest ih => exact ih (kept.callOp op)

theorem extends_callAll {base ctx : TxnContext} {name : String} (ops : List ContextOp) (kept : Kept ctx)
    (extends_ : UndoLog.Extends base.log name ctx.log) (spared : sparesAll base.savepoints.length ctx ops = true) :
    UndoLog.Extends base.log name (callAll ctx ops).log := by
  induction ops generalizing ctx with
  | nil => exact extends_
  | cons op rest ih =>
    obtain ⟨here,later⟩ := Bool.and_eq_true_iff.mp spared
    refine ih (kept.callOp op) ?_ later
    rcases callOp_cases ctx op with same | ok
    · rwa [same]
    · obtain ⟨_,same | ⟨logged,done,sparing⟩⟩ := op.apply_log kept.indexed ok
      · rwa [same]
      · exact extends_.apply kept.marked ((sparing _).trans here) done

private theorem indexes_of_log {a b : TxnContext} (left : a.Indexed) (right : b.Indexed)
    (same : a.writeSet = b.writeSet) :
    a.writeKeys = b.writeKeys ∧ a.pendingInsertCounts = b.pendingInsertCounts := by
  rw [left.keys,right.keys,left.counts,right.counts,same]
  exact ⟨rfl,rfl⟩

theorem rollback_of_extends {base ctx : TxnContext} {name : String} (known : base.Indexed)
    (extends_ : UndoLog.Extends base.log name ctx.log)
    (last : TxnContext.savepointPosition ctx.savepoints name = some base.savepoints.length) :
    ∃ restored, ctx.rollbackToSavepoint name = .ok restored ∧ restored.writeSet = base.writeSet ∧
    restored.writeKeys = base.writeKeys ∧
      restored.pendingInsertCounts = base.pendingInsertCounts ∧ restored.savepoints = base.savepoints := by
  have undone := extends_.rollback last
  obtain ⟨pos,found,cut⟩ := Option.map_eq_some_iff.mp undone
  have rolled : ∃ restored, ctx.rollbackToSavepoint name = .ok restored ∧ restored.Indexed ∧
    restored.log = base.log := by
    unfold TxnContext.rollbackToSavepoint
    change TxnContext.savepointPosition ctx.savepoints name = some pos at found
    rw [found]
    exact ⟨_,rfl,⟨rfl,rfl⟩,cut⟩
  obtain ⟨restored,ok,indexed,log⟩ := rolled
  have writes : restored.writeSet = base.writeSet := congrArg UndoLog.entries log
  obtain ⟨keys,counts⟩ := indexes_of_log indexed known writes
  exact ⟨restored,ok,writes,keys,counts,congrArg UndoLog.marks log⟩

/-- Every reachable context is consistent, and a rollback to the last savepoint of a name
restores what was there when it was set, whatever calls came after it that did not
release or roll back this savepoint or an earlier one. -/
theorem savepoints_exact (txnId snapshotTs : Nat) (readOnly : Bool) (before : List ContextOp) :
    let ctx := callAll (.new txnId snapshotTs readOnly) before
    ctx.Consistent ∧
    ∀ name ops, sparesAll ctx.savepoints.length (ctx.savepoint name) ops = true →
      TxnContext.savepointPosition (callAll (ctx.savepoint name) ops).savepoints name = some ctx.savepoints.length →
      ∃ restored, (callAll (ctx.savepoint name) ops).rollbackToSavepoint name = .ok restored ∧
        restored.writeSet = ctx.writeSet ∧ restored.writeKeys = ctx.writeKeys ∧
        (∀ table, restored.pendingInsertCount table = ctx.pendingInsertCount table) ∧
        restored.savepoints = ctx.savepoints := by
  intro ctx
  have kept : Kept ctx := (kept_new txnId snapshotTs readOnly).callAll before
  refine ⟨kept.consistent,?_⟩
  intro name ops spared last
  have marked : Kept (ctx.savepoint name) := kept.callOp (.savepoint name)
  have extends_ := extends_callAll ops marked (UndoLog.extends_mark ctx.log name) spared
  obtain ⟨restored,ok,writes,keys,counts,savepoints⟩ := rollback_of_extends kept.indexed extends_ last
  refine ⟨restored,ok,writes,keys,?_,savepoints⟩
  intro table
  rw [TxnContext.pendingInsertCount,counts]
  rfl

theorem insert_inside_statement_undone :
    let ctx := callAll (.new 1 100 false) [.bufferInsert "users" 0 ∅]
    let ops : List ContextOp := [.savepoint "__stmt_savepoint__",.bufferInsert "users" 1 ∅,
      .releaseSavepoint "__stmt_savepoint__"]
    ∃ restored, (callAll (ctx.savepoint "sp1") ops).rollbackToSavepoint "sp1" = .ok restored ∧
      restored.writeSet = ctx.writeSet ∧ restored.writeKeys = ctx.writeKeys ∧
      (∀ table, restored.pendingInsertCount table = ctx.pendingInsertCount table) ∧
      restored.savepoints = ctx.savepoints :=
  (savepoints_exact 1 100 false [.bufferInsert "users" 0 ∅]).2 "sp1"
    [.savepoint "__stmt_savepoint__",.bufferInsert "users" 1 ∅,.releaseSavepoint "__stmt_savepoint__"] (by decide)
      (by decide)

/-- A later savepoint of the same name is the one that is rolled back to. -/
theorem same_name_hides_savepoint :
    let ctx : TxnContext := callAll (.new 1 100 false) []
    let ops : List ContextOp := [.bufferInsert "users" 0 ∅,.savepoint "sp1"]
    sparesAll ctx.savepoints.length (ctx.savepoint "sp1") ops = true ∧
      ¬ ∃ restored, (callAll (ctx.savepoint "sp1") ops).rollbackToSavepoint "sp1" = .ok restored ∧
      restored.writeSet = ctx.writeSet := by
  refine ⟨by decide,?_⟩
  rintro ⟨restored,ok,same⟩
  cases ok
  exact absurd (congrArg List.length same) (by decide)

end ApexBase.Txn
