import ApexBase.Query.TxnSelect

/-! What the statements of a transaction leave in its write set: writes on the one table, updates
and deletes of rows that a read of the table shows, and inserts numbered from the table's next id
on. -/
namespace ApexBase.Query
open Data Library.Assoc Storage Txn
namespace StoredTable

def Targets (table : StoredTable) (write : TxnWrite) : Prop :=
  write.table = table.name ∧ (write.isInsert = false → ∃ row ∈ table.read, row.1.toNat = write.rowId)

end StoredTable

variable {table : StoredTable}

def Numbered (table : StoredTable) (first : Nat) (writes : List TxnWrite) : Prop :=
  (insertedRows table writes).map Prod.fst = List.range' first (insertedRows table writes).length

theorem insertedRows_append (table : StoredTable) (left right : List TxnWrite) :
    insertedRows table (left ++ right) = insertedRows table left ++ insertedRows table right := List.filterMap_append

theorem updatedRows_append (table : StoredTable) (left right : List TxnWrite) :
    updatedRows table (left ++ right) = updatedRows table left ++ updatedRows table right := List.filterMap_append

private theorem inserted_of_other {write : TxnWrite} (other : write.isInsert = false) :
    insertedRows table [write] = [] := by
  cases write with
  | insert => cases other
  | update | delete => rfl

theorem numbered_left {first : Nat} {left right : List TxnWrite} (numbered : Numbered table first (left ++ right)) :
    Numbered table first left := by
  unfold Numbered at numbered ⊢
  rw [insertedRows_append,List.map_append,List.length_append,List.range'_append_1.symm] at numbered
  exact (List.append_inj numbered (by simp)).1

private theorem numbered_snoc {first : Nat} {writes : List TxnWrite} {write : TxnWrite}
    (numbered : Numbered table first writes)
    (fresh : write.isInsert = true → write.rowId = first + (insertedRows table writes).length) :
    Numbered table first (writes ++ [write]) := by
  unfold Numbered at numbered ⊢
  rw [insertedRows_append]
  cases write with
  | insert name rowId data =>
    have same : rowId = first + (insertedRows table writes).length := fresh rfl
    by_cases here : name = table.name
    · have added : insertedRows table [.insert name rowId data] = [(rowId,data)] := by simp [insertedRows,here]
      rw [added,List.map_append,numbered,List.length_append,List.range'_append_1.symm,same]
      rfl
    · have added : insertedRows table [.insert name rowId data] = [] := by simp [insertedRows,here]
      simpa [added] using numbered
  | update | delete =>
    rw [inserted_of_other rfl]
    simpa using numbered

structure Buffered (table : StoredTable) (ctx : TxnContext) : Prop where
  targets : ∀ write ∈ ctx.writeSet, table.Targets write
  numbered : Numbered table table.nextId ctx.writeSet
  counted : ctx.pendingInsertCount table.name = (insertedRows table ctx.writeSet).length
  based : ∀ baseId, ctx.insertBaseId table.name = some baseId → baseId = table.nextId

theorem buffered_new (table : StoredTable) (txnId snapshotTs : Nat) (readOnly : Bool) :
    Buffered table (TxnContext.new txnId snapshotTs readOnly) where
  targets := by simp [TxnContext.new]
  numbered := rfl
  counted := rfl
  based := by simp [TxnContext.new,TxnContext.insertBaseId]

private theorem recount (table : StoredTable) (writes : List TxnWrite) (counts : Map String Nat) :
    ((writes.foldl (fun counts write => if write.isInsert then TxnContext.countInsert counts write.table else counts)
        counts).lookup table.name).getD 0 = (counts.lookup table.name).getD 0 + (insertedRows table writes).length := by
  induction writes generalizing counts with
  | nil => rfl
  | cons write rest ih =>
    rw [List.foldl_cons,ih,← List.singleton_append,insertedRows_append,List.length_append]
    cases write with
    | insert name rowId data =>
      by_cases here : name = table.name
      · subst here
        simp [TxnWrite.isInsert,TxnWrite.table,TxnContext.countInsert,insertedRows]
        omega
      · have other : table.name ≠ name := fun same => here same.symm
        simp [TxnWrite.isInsert,TxnWrite.table,TxnContext.countInsert,insertedRows,here,other]
    | update | delete => simp [TxnWrite.isInsert,insertedRows]

private theorem buffered_rollback {ctx next : TxnContext} {name : String} (buffered : Buffered table ctx)
    (ok : ctx.rollbackToSavepoint name = .ok next) : Buffered table next := by
  simp only [TxnContext.rollbackToSavepoint] at ok
  split at ok
  · cases ok
  · cases ok
    have whole := buffered.numbered
    rw [← List.take_append_drop ((ctx.savepoints[‹Nat›]?.map (·.2)).getD 0) ctx.writeSet] at whole
    refine ⟨?_,numbered_left whole,?_,buffered.based⟩
    · intro write member
      exact buffered.targets write (List.mem_of_mem_take member)
    · have counted := recount table (ctx.writeSet.take ((ctx.savepoints[‹Nat›]?.map (·.2)).getD 0)) ∅
      simpa [TxnContext.pendingInsertCount,TxnContext.rebuildWriteIndexes] using counted

private theorem buffered_push {ctx : TxnContext} {write : TxnWrite} (buffered : Buffered table ctx)
    (target : table.Targets write) (other : write.isInsert = false) : Buffered table (ctx.pushWrite write) where
  targets := by
    intro w member
    rcases List.mem_append.mp member with old | new
    · exact buffered.targets w old
    · rw [List.mem_singleton.mp new]
      exact target
  numbered := numbered_snoc buffered.numbered (fun insert => by simp [other] at insert)
  counted := by
    have same : insertedRows table (ctx.pushWrite write).writeSet = insertedRows table ctx.writeSet := by
      rw [TxnContext.pushWrite,insertedRows_append,inserted_of_other other,List.append_nil]
    rw [same]
    exact buffered.counted
  based := buffered.based

def Allowed (table : StoredTable) (ctx : TxnContext) : ContextOp → Prop
  | .bufferInsert name rowId _ => name = table.name ∧ rowId = table.nextId + ctx.pendingInsertCount table.name
  | .bufferUpdate name rowId _ _ | .bufferDelete name rowId _ => name = table.name ∧
    ∃ row ∈ table.read, row.1.toNat = rowId
  | .rememberInsertBaseId name baseId => name = table.name ∧ baseId = table.nextId
  | _ => True

theorem allowed_keeps {ctx next : TxnContext} (op : ContextOp) (buffered : Buffered table ctx)
    (allowed : Allowed table ctx op) (ok : op.apply ctx = .ok next) : Buffered table next := by
  cases op with
  | recordRead | savepoint =>
    cases ok
    exact ⟨buffered.targets,buffered.numbered,buffered.counted,buffered.based⟩
  | releaseSavepoint =>
    simp only [ContextOp.apply,TxnContext.releaseSavepoint] at ok
    split at ok
    · cases ok
    · cases ok
      exact ⟨buffered.targets,buffered.numbered,buffered.counted,buffered.based⟩
  | rollbackToSavepoint => exact buffered_rollback buffered ok
  | rememberInsertBaseId name baseId =>
    obtain ⟨rfl,rfl⟩ := allowed
    cases ok
    refine ⟨buffered.targets,buffered.numbered,buffered.counted,?_⟩
    intro kept found
    simp only [TxnContext.insertBaseId,TxnContext.rememberInsertBaseId,AList.lookup_insert,Option.some.injEq] at found
    cases old : ctx.insertBaseIds.lookup table.name with
    | none => simpa [old] using found.symm
    | some first =>
      rw [old,Option.getD_some] at found
      exact found ▸ buffered.based first old
  | bufferUpdate name rowId oldData newData =>
    simp only [ContextOp.apply,TxnContext.bufferUpdate] at ok
    split at ok
    · cases ok
    · cases ok
      exact buffered_push buffered ⟨allowed.1,fun _ => allowed.2⟩ rfl
  | bufferDelete name rowId oldData =>
    simp only [ContextOp.apply,TxnContext.bufferDelete] at ok
    split at ok
    · cases ok
    · cases ok
      exact buffered_push buffered ⟨allowed.1,fun _ => allowed.2⟩ rfl
  | bufferInsert name rowId data =>
    obtain ⟨rfl,rfl⟩ := allowed
    simp only [ContextOp.apply,TxnContext.bufferInsert] at ok
    split at ok
    · cases ok
    · split at ok
      · cases ok
      · cases ok
        refine ⟨?_,numbered_snoc buffered.numbered (fun _ => ?_),?_,buffered.based⟩
        · intro w member
          rcases List.mem_append.mp member with old | new
          · exact buffered.targets w old
          · rw [List.mem_singleton.mp new]
            exact ⟨rfl,fun insert => by cases insert⟩
        · rw [← buffered.counted]
          rfl
        · have counted := buffered.counted
          simp only [TxnContext.pendingInsertCount] at counted
          simp [TxnContext.pendingInsertCount,TxnContext.countInsert,TxnContext.pushWrite,counted,insertedRows]

private theorem applyAll_buffered {ctx : TxnContext} (ops : List ContextOp) (buffered : Buffered table ctx)
    (allowed : ∀ op ∈ ops, ∀ ctx, Buffered table ctx → Allowed table ctx op) : Buffered table (applyAll ctx ops).2 := by
  induction ops generalizing ctx with
  | nil => exact buffered
  | cons op rest ih =>
    simp only [applyAll]
    split
    · rename_i next ok
      exact ih (allowed_keeps op buffered (allowed op (by simp) ctx buffered) ok) (fun op member =>
        allowed op (by simp [member]))
    · exact buffered

private theorem applyAll_inserts {ctx : TxnContext} (rows : List Row) (baseId : Nat) (buffered : Buffered table ctx)
    (next : baseId = table.nextId + ctx.pendingInsertCount table.name) :
    Buffered table (applyAll ctx (rows.mapIdx (fun index data =>
      .bufferInsert table.name (baseId + index) data))).2 := by
  induction rows generalizing ctx baseId with
  | nil => exact buffered
  | cons data rest ih =>
    rw [List.mapIdx_cons]
    simp only [applyAll]
    split
    · rename_i after ok
      have kept := allowed_keeps (.bufferInsert table.name (baseId + 0) data) buffered ⟨rfl,next⟩ ok
      have counted : after.pendingInsertCount table.name = ctx.pendingInsertCount table.name + 1 := by
        simp only [ContextOp.apply,TxnContext.bufferInsert] at ok
        split at ok
        · cases ok
        · split at ok
          · cases ok
          · cases ok
            simp [TxnContext.pendingInsertCount,TxnContext.countInsert]
      have shifted : (fun index data => ContextOp.bufferInsert table.name (baseId + (index + 1)) data) =
          fun index data => .bufferInsert table.name ((baseId + 1) + index) data := by
        funext index data
        congr 1
        omega
      rw [shifted]
      exact ih (baseId + 1) kept (by omega)
    · exact buffered

private theorem applyAll_append (ctx : TxnContext) (first second : List ContextOp) :
    applyAll ctx (first ++ second) = match applyAll ctx first with
      | (.ok _,next) => applyAll next second
      | (.error e,failed) => (.error e,failed) := by
  induction first generalizing ctx with
  | nil => rfl
  | cons op rest ih =>
    simp only [List.cons_append,applyAll]
    split
    · exact ih _
    · rfl

theorem statementOps_buffered {ctx : TxnContext} (first : 1 ≤ table.nextId) (statement : Statement) (start : TxnContext)
    (buffered : Buffered table ctx) (entered : Buffered table start)
    (count : start.pendingInsertCounts = ctx.pendingInsertCounts) :
    Buffered table (applyAll start (statementOps table ctx statement)).2 := by
  cases statement with
  | insert rows =>
    have root : (ctx.insertBaseId table.name).getD (max table.nextId 1) = table.nextId := by
      cases found : ctx.insertBaseId table.name with
      | none => simpa using first
      | some baseId => exact buffered.based baseId found
    have counts : start.pendingInsertCount table.name = ctx.pendingInsertCount table.name := by
      simp [TxnContext.pendingInsertCount,count]
    simp only [statementOps,root]
    have mapped : rows.mapIdx (fun index values => ContextOp.bufferInsert table.name
        (table.nextId + ctx.pendingInsertCount table.name + index) (rowData table.names values)) =
        (rows.map (rowData table.names)).mapIdx (fun index data => .bufferInsert table.name
          (table.nextId + ctx.pendingInsertCount table.name + index) data) := by
      simp [List.mapIdx_eq_zipIdx_map,List.zipIdx_map]
    rw [mapped]
    split
    · rw [applyAll_append]
      simp only [applyAll,ContextOp.apply]
      apply applyAll_inserts
      · exact allowed_keeps (.rememberInsertBaseId table.name table.nextId) entered ⟨rfl,rfl⟩ rfl
      · rw [← counts]
        rfl
    · exact applyAll_inserts _ _ entered (by rw [counts])
  | update condition assignments =>
    apply applyAll_buffered _ entered
    intro op member reached _
    obtain ⟨row,chosen,rfl⟩ := List.mem_map.mp member
    exact ⟨rfl,row,List.mem_of_mem_filter chosen,rfl⟩
  | delete condition =>
    apply applyAll_buffered _ entered
    intro op member reached _
    obtain ⟨row,chosen,rfl⟩ := List.mem_map.mp member
    exact ⟨rfl,row,List.mem_of_mem_filter chosen,rfl⟩
  | savepoint name | rollbackTo name =>
    apply applyAll_buffered _ entered
    intro op member reached _
    rw [List.mem_singleton.mp member]
    trivial

private theorem buffered_getD {ctx : TxnContext} (op : ContextOp) (buffered : Buffered table ctx)
    (free : ∀ ctx, Allowed table ctx op) :
    Buffered table ((op.apply ctx).toOption.getD ctx) := by
  cases applied : op.apply ctx with
  | error e => exact buffered
  | ok next => exact allowed_keeps op buffered (free ctx) applied

theorem executeInTxn_buffered {ctx : TxnContext} (first : 1 ≤ table.nextId) (buffered : Buffered table ctx)
    (statement : Statement) :
    Buffered table (executeInTxn table ctx statement) := by
  have entered : Buffered table (ctx.savepoint implicitSavepoint) :=
    ⟨buffered.targets,buffered.numbered,buffered.counted,buffered.based⟩
  unfold executeInTxn
  split
  · have done := statementOps_buffered first statement (ctx.savepoint implicitSavepoint) buffered entered rfl
    split
    · rename_i failed outcome
      rw [outcome] at done
      exact buffered_getD (.rollbackToSavepoint implicitSavepoint) done (fun _ => trivial)
    · rename_i finished outcome
      rw [outcome] at done
      exact buffered_getD (.releaseSavepoint implicitSavepoint) done (fun _ => trivial)
  · exact statementOps_buffered first statement ctx buffered buffered rfl

theorem executeAll_buffered {ctx : TxnContext} (first : 1 ≤ table.nextId) (buffered : Buffered table ctx)
    (statements : List Statement) : Buffered table (executeAll table ctx statements) := by
  induction statements generalizing ctx with
  | nil => exact buffered
  | cons statement rest ih => exact ih (executeInTxn_buffered first buffered statement)

end ApexBase.Query
