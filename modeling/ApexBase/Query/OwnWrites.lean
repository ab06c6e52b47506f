import ApexBase.Query.Commit

/-! Reading one's own writes: the rows of a SELECT inside a transaction and the rows of the same
SELECT after COMMIT. -/
namespace ApexBase.Query
open Data Library.Assoc Storage DeltaMerger Txn Mvcc StoredTable

def writesOf (table : StoredTable) (txnId snapshotTs : Nat) (statements : List Statement) : List TxnWrite :=
  (executeAll table (TxnContext.new txnId snapshotTs false) statements).writeSet

/-- The SELECT returns the same rows before and after COMMIT. -/
def ReadsOwnWrites (table : StoredTable) (store : VersionStore) (snapshotTs : Nat) (writes : List TxnWrite)
    (p : List Scalar → Bool) : Prop :=
  ∃ rows final, selectInTxn table store snapshotTs writes p = some rows ∧ table.applyTxnWrites writes = some final ∧
    ∀ row, row ∈ rows ↔ row ∈ final.select p

/-- No update moves a row into or out of the predicate, and every inserted row satisfies it. -/
def KeepsMatch (table : StoredTable) (writes : List TxnWrite) (p : List Scalar → Bool) : Prop :=
  (∀ row ∈ table.read, survives table writes row = true → p (toResult row) =
    p (toResult (rewritten .built table writes row))) ∧
    ∀ row ∈ inserted .built table writes, p (toResult row) = true

private theorem toResult_id {left right : UInt64 × List Scalar} (same : toResult left = toResult right) :
    left.1 = right.1 := by
  simp only [toResult,List.cons.injEq,Scalar.int64.injEq] at same
  have bits := congrArg Int64.toUInt64 same.1
  simpa using bits

private theorem match_iff {table : StoredTable} {writes : List TxnWrite} (p : List Scalar → Bool)
    (ids : (table.read.map Prod.fst).Nodup)
    (apart : ∀ row ∈ inserted .built table writes, ∀ old ∈ table.read, row.1 ≠ old.1) :
    (∀ result, result ∈ (((table.read.filter (fun row => p (toResult row))).filter (survives table writes)).map
        (rewritten .built table writes) ++ inserted .built table writes).map toResult ↔
      result ∈ ((ownView .built table writes table.read).map toResult).filter p) ↔ KeepsMatch table writes p := by
  constructor
  · intro same
    constructor
    · intro row member left
      apply Bool.eq_iff_iff.mpr
      constructor
      · intro holds
        have shown := (same (toResult (rewritten .built table writes row))).mp
          (List.mem_map.mpr ⟨_,List.mem_append_left _
          (List.mem_map.mpr ⟨row,List.mem_filter.mpr ⟨List.mem_filter.mpr ⟨member,holds⟩,left⟩,rfl⟩),rfl⟩)
        exact (List.mem_filter.mp shown).2
      · intro holds
        have committed : toResult (rewritten .built table writes row) ∈
          ((ownView .built table writes table.read).map toResult).filter p :=
          List.mem_filter.mpr ⟨List.mem_map.mpr ⟨_,List.mem_append_left _
            (List.mem_map.mpr ⟨row,List.mem_filter.mpr ⟨member,left⟩,rfl⟩),rfl⟩,holds⟩
        obtain ⟨built,present,result⟩ := List.mem_map.mp ((same _).mpr committed)
        have id := toResult_id result
        rcases List.mem_append.mp present with own | new
        · obtain ⟨old,chosen,rfl⟩ := List.mem_map.mp own
          obtain ⟨matched,_⟩ := List.mem_filter.mp chosen
          obtain ⟨listed,satisfied⟩ := List.mem_filter.mp matched
          have unique : old = row := List.inj_on_of_nodup_map ids listed member id
          exact unique ▸ satisfied
        · exact absurd id (apart built new row member)
    · intro row member
      have shown := (same (toResult row)).mp (List.mem_map.mpr ⟨row,List.mem_append_right _ member,rfl⟩)
      exact (List.mem_filter.mp shown).2
  · rintro ⟨kept,matched⟩ result
    simp only [ownView,List.map_append,List.mem_append,List.filter_append,List.mem_filter,List.mem_map]
    constructor
    · rintro (⟨_,⟨row,⟨⟨member,holds⟩,left⟩,rfl⟩,rfl⟩ | ⟨row,member,rfl⟩)
      · exact Or.inl ⟨⟨_,⟨row,⟨member,left⟩,rfl⟩,rfl⟩,kept row member left ▸ holds⟩
      · exact Or.inr ⟨⟨row,member,rfl⟩,matched row member⟩
    · rintro (⟨⟨_,⟨row,⟨member,left⟩,rfl⟩,rfl⟩,holds⟩ | ⟨⟨row,member,rfl⟩,_⟩)
      · exact Or.inl ⟨_,⟨row,⟨⟨member,(kept row member left).trans holds⟩,left⟩,rfl⟩,rfl⟩
      · exact Or.inr ⟨row,member,rfl⟩

private theorem no_writes {table : StoredTable} {writes : List TxnWrite}
    (targets : ∀ write ∈ writes, table.Targets write) :
    (!(insertedRows table writes).isEmpty || !(deletedIds table writes).isEmpty ||
      !(updatedRows table writes).isEmpty) =
      !writes.isEmpty := by
  cases writes with
  | nil => rfl
  | cons write rest =>
    have here := (targets write (by simp)).1
    cases write with
    | insert name rowId data => simp_all [insertedRows,TxnWrite.table]
    | update name rowId oldData newData => simp_all [updatedRows,TxnWrite.table]
    | delete name rowId oldData => simp_all [deletedIds,TxnWrite.table]

private theorem keepsMatch_nil (table : StoredTable) (p : List Scalar → Bool) : KeepsMatch table [] p :=
  ⟨fun _ _ _ => rfl,by simp [inserted,insertedRows]⟩

section
variable {table : StoredTable}

private theorem read_ids (valid : table.Valid) : (table.read.map Prod.fst).Nodup := by
  have shown : table.read.map Prod.fst = (table.stored.filter (fun row => !table.delta.isDeleted row.1)).map
    Prod.fst := by
    simp [StoredTable.read,shownRow,Function.comp_def]
  rw [shown]
  exact (List.filter_sublist.map _).nodup valid.ids

private theorem read_stored {row : UInt64 × List Scalar} (member : row ∈ table.read) :
    ∃ kept ∈ table.stored, row = shownRow table.columns table.delta kept := by
  obtain ⟨kept,chosen,rfl⟩ := List.mem_map.mp member
  exact ⟨kept,List.mem_of_mem_filter chosen,rfl⟩

private theorem selectInTxn_plain {store : VersionStore} (snapshotTs : Nat) (p : List Scalar → Bool)
    (fresh : hasVersions store = false) :
    selectInTxn table store snapshotTs [] p =
    some ((table.read.filter (fun row => p (toResult row))).map toResult) := by
  simp [selectInTxn,fresh,insertedRows,deletedIds,updatedRows]

private theorem selectInTxn_overlaid {store : VersionStore} {writes : List TxnWrite} (snapshotTs : Nat)
    (p : List Scalar → Bool) (targets : ∀ write ∈ writes, table.Targets write)
    (touched : ¬ (hasVersions store = false ∧ writes = [])) :
    selectInTxn table store snapshotTs writes p = if (table.columns.map arrowType).all supported then
      some (((table.read.filter (fun row => p (toResult row))).filterMap (overlayRow table store snapshotTs writes) ++
        (insertedRows table writes).map (insertedRow table)).map (List.zipWith buildCell (colTypes table)))
          else none := by
  have overlaid : (!hasVersions store && !(!writes.isEmpty)) = false := by
    cases versions : hasVersions store with
    | true => rfl
    | false =>
      cases writes with
      | nil => exact absurd ⟨versions,rfl⟩ touched
      | cons => rfl
  simp only [selectInTxn,no_writes targets,overlaid,Bool.false_eq_true,if_false]
  rfl

end

section
variable {table : StoredTable} {store : VersionStore} {snapshotTs : Nat} {writes : List TxnWrite}
  (valid : table.Valid) (history : HistoryAgrees table store snapshotTs) (carried : Carried .built table writes)
  (targets : ∀ write ∈ writes, table.Targets write) (numbered : Numbered table table.nextId writes)
include valid carried targets numbered

private theorem committed_view : ∃ final, table.applyTxnWrites writes = some final ∧
    final.read = ownView .built table writes table.read ∧
    table.nextId + (insertedRows table writes).length ≤ 2^64 ∧ KeepsIds writes := by
  have below : ∀ row ∈ table.read, row.1.toNat < table.nextId := by
    intro row member
    obtain ⟨kept,stored,rfl⟩ := read_stored member
    exact valid.below kept stored
  have here : ∀ write ∈ writes, write.table = table.name := fun write member => (targets write member).1
  have known : ∀ write ∈ writes, write.isInsert = false → ∃ target : UInt64, target.toNat = write.rowId ∧
    write.rowId < table.nextId := by
    intro write member other
    obtain ⟨row,present,same⟩ := (targets write member).2 other
    exact ⟨row.1,same,same ▸ below row present⟩
  obtain ⟨final,applied,reads,room,keeps⟩ := commit_shows valid carried here numbered known (Nat.le_refl _)
  exact ⟨final,applied,reads.trans (foldl_writeView table.read numbered room here known),room,keeps⟩

include history in
theorem reads_own_writes_iff (p : List Scalar → Bool) : ReadsOwnWrites table store snapshotTs writes p ↔
    ((table.columns.map arrowType).all supported = true ∨ (hasVersions store = false ∧ writes = [])) ∧
    KeepsMatch table writes p := by
  obtain ⟨final,applied,reads,room,keeps⟩ := committed_view valid carried targets numbered
  by_cases plain : hasVersions store = false ∧ writes = []
  · -- Nothing to overlay: the result over the storage is returned as it is.
    obtain ⟨fresh,rfl⟩ := plain
    refine iff_of_true ⟨_,table,selectInTxn_plain snapshotTs p fresh,rfl,fun row => ?_⟩ ⟨Or.inr ⟨fresh,rfl⟩,
      keepsMatch_nil table p⟩
    rw [select,List.filter_map]
    rfl
  · have selected := selectInTxn_overlaid snapshotTs p targets plain
    cases built : (table.columns.map arrowType).all supported with
    | false =>
      rw [built] at selected
      refine iff_of_false ?_ (by simp only [Bool.false_eq_true,false_or]; exact fun both => plain both.1)
      rintro ⟨rows,_,returned,_⟩
      rw [selected] at returned
      cases returned
    | true =>
      have fits : ∀ row ∈ table.read, Typed table.columns row.2 := by
        intro row member
        obtain ⟨kept,stored,rfl⟩ := read_stored member
        exact shownRow_typed (valid.typed kept stored)
      have apart : ∀ row ∈ inserted .built table writes, ∀ old ∈ table.read, row.1 ≠ old.1 := by
        intro row new old present same
        obtain ⟨kept,stored,rfl⟩ := read_stored present
        have := inserted_fresh numbered room row new
        have := valid.below kept stored
        rw [same] at *
        simp only [shownRow] at *
        omega
      rw [built,if_pos rfl,overlay_shows keeps p built fits history] at selected
      simp only [true_or,true_and]
      rw [← match_iff p (read_ids valid) apart]
      constructor
      · rintro ⟨rows,after,returned,done,same⟩
        rw [selected] at returned
        rw [applied] at done
        cases returned
        cases done
        simpa only [select,reads] using same
      · intro same
        exact ⟨_,final,selected,applied,by simpa only [select,reads] using same⟩

end

def numbers : CommittedTable where
  table := ⟨"numbers",[("a",.int64)],[(1,[.int64 1]),(2,[.int64 2])],[],⟨[],∅⟩,3,fun _ _ => true,fun _ => false⟩
  kept := {
    names := by decide
    reserved := by decide
    first := by decide
    room := by decide
    ids := by decide
    below := by decide
    typed := by simp [stored,Typed,arrowType,kindOf,ColumnData.newMem,ColumnData.new,ColumnData.kind,arrowOf,
      MemTable.isTimeFamily,StoredTable.typed] }

def changes : List Statement :=
  [.savepoint "s",.insert [[.int64 9]],.rollbackTo "s",.insert [[.int64 7]],
    .update (fun row => row[1]? == some (.int64 1)) (AList.singleton "a" (.int64 3)),
    .delete (fun row => row[1]? == some (.int64 2))]

private def changed : List TxnWrite :=
  [.insert "numbers" 3 (AList.singleton "a" (.int64 7)),
    .update "numbers" 1 (AList.singleton "a" (.int64 1)) (AList.singleton "a" (.int64 3)),
    .delete "numbers" 2 (AList.singleton "a" (.int64 2))]

private theorem changes_carried : Carried .built numbers.table changed := by
  refine ⟨⟨by decide +kernel,by decide,by decide +kernel⟩,?_⟩
  rintro _ ⟨⟩
  refine ⟨⟨by decide,by decide +kernel,?_⟩,?_⟩
  · intro row member same
    have first : row = (1,[.int64 1]) := by
      rcases List.mem_cons.mp member with rfl | later
      · rfl
      · rw [List.mem_singleton.mp later] at same
        cases same
    subst first
    refine ⟨rfl,rfl,?_⟩
    intro column listed _ value found
    obtain rfl : column = ("a",.int64) := by simpa [numbers] using listed
    cases found
    rfl
  · rintro _ ⟨⟩
    exact ⟨trivial,fun _ _ => trivial⟩

end ApexBase.Query
