import Mathlib.Data.List.Induction
import ApexBase.Query.Buffered

/-! The rows of a table as a transaction means them: each write acts on the list of
shown rows. The overlay of a SELECT and the commit are compared with it. -/
namespace ApexBase.Query
open Data Library.Assoc Storage DeltaMerger Txn Mvcc
open Column (ColumnType)

/-- The cell that a value becomes, in a new row and in an old one. -/
structure Meaning where
  create : String × ColumnType → Value → Scalar
  assign : String × ColumnType → Value → Scalar

namespace StoredTable

def assign (m : Meaning) (columns : List (String × ColumnType)) (newData : Row) (cells : List Scalar) : List Scalar :=
  List.zipWith (fun column cell => ((newData.lookup column.1).map (m.assign column)).getD cell) columns cells

def created (m : Meaning) (columns : List (String × ColumnType)) (data : Row) : List Scalar :=
  columns.map (fun column => m.create column ((data.lookup column.1).getD .null))

def assignRow (m : Meaning) (columns : List (String × ColumnType)) (rowId : UInt64) (newData : Row)
    (row : UInt64 × List Scalar) :
    UInt64 × List Scalar :=
  if row.1 = rowId then (row.1,assign m columns newData row.2) else row

def writeView (m : Meaning) (columns : List (String × ColumnType)) (view : List (UInt64 × List Scalar)) :
    TxnWrite → List (UInt64 × List Scalar)
  | .insert _ rowId data => view ++ [(UInt64.ofNat rowId,created m columns data)]
  | .update _ rowId _ newData => view.map (assignRow m columns (UInt64.ofNat rowId) newData)
  | .delete _ rowId _ => view.filter (fun row => row.1 ≠ UInt64.ofNat rowId)

def survives (table : StoredTable) (writes : List TxnWrite) (row : UInt64 × List Scalar) : Bool :=
  !(deletedIds table writes).contains row.1.toNat

def rewritten (m : Meaning) (table : StoredTable) (writes : List TxnWrite) (row : UInt64 × List Scalar) :
    UInt64 × List Scalar :=
  (row.1,(updatedRows table writes).foldl (fun cells update =>
    if update.1 = row.1.toNat then assign m table.columns update.2 cells else cells) row.2)

def inserted (m : Meaning) (table : StoredTable) (writes : List TxnWrite) : List (UInt64 × List Scalar) :=
  (insertedRows table writes).map (fun row => (UInt64.ofNat row.1,created m table.columns row.2))

def ownView (m : Meaning) (table : StoredTable) (writes : List TxnWrite) (view : List (UInt64 × List Scalar)) :
    List (UInt64 × List Scalar) :=
  (view.filter (survives table writes)).map (rewritten m table writes) ++ inserted m table writes

variable {m : Meaning} {table : StoredTable} {writes : List TxnWrite}

section
variable {view : List (UInt64 × List Scalar)} {name : String} {target : UInt64} {data oldData newData : Row}

private theorem ownView_insert {rowId : Nat} (here : name = table.name) :
    ownView m table (writes ++ [.insert name rowId data]) view =
      writeView m table.columns (ownView m table writes view) (.insert name rowId data) := by
  have left : survives table (writes ++ [.insert name rowId data]) = survives table writes := by
    funext row
    simp [survives,deletedIds]
  have changed : rewritten m table (writes ++ [.insert name rowId data]) = rewritten m table writes := by
    funext row
    simp [rewritten,updatedRows]
  have inserts : inserted m table (writes ++ [.insert name rowId data]) =
      inserted m table writes ++ [(UInt64.ofNat rowId,created m table.columns data)] := by
    simp [inserted,insertedRows,here]
  simp only [ownView,left,changed,inserts,writeView,List.append_assoc]

section
variable (here : name = table.name) (fresh : ∀ row ∈ inserted m table writes, row.1 ≠ target)
include here fresh

private theorem ownView_delete :
    ownView m table (writes ++ [.delete name target.toNat oldData]) view =
      writeView m table.columns (ownView m table writes view) (.delete name target.toNat oldData) := by
  have changed : rewritten m table (writes ++ [.delete name target.toNat oldData]) = rewritten m table writes := by
    funext row
    simp [rewritten,updatedRows]
  have inserts : inserted m table (writes ++ [.delete name target.toNat oldData]) = inserted m table writes := by
    simp [inserted,insertedRows]
  have left (row : UInt64 × List Scalar) : survives table (writes ++ [.delete name target.toNat oldData]) row =
      (survives table writes row && decide (row.1 ≠ target)) := by
    have ids : row.1.toNat = target.toNat ↔ row.1 = target := UInt64.toNat_inj
    simp [survives,deletedIds,here,ids]
  simp only [ownView,changed,inserts,writeView,List.filter_append,UInt64.ofNat_toNat]
  congr 1
  · rw [List.filter_map,List.filter_filter]
    congr 1
    apply List.filter_congr
    intro row _
    rw [left,Bool.and_comm]
    rfl
  · symm
    apply List.filter_eq_self.mpr
    intro row member
    simpa using fresh row member

private theorem ownView_update :
    ownView m table (writes ++ [.update name target.toNat oldData newData]) view =
      writeView m table.columns (ownView m table writes view) (.update name target.toNat oldData newData) := by
  have left : survives table (writes ++ [.update name target.toNat oldData newData]) = survives table writes := by
    funext row
    simp [survives,deletedIds]
  have inserts : inserted m table (writes ++ [.update name target.toNat oldData newData]) =
    inserted m table writes := by
    simp [inserted,insertedRows]
  have changed (row : UInt64 × List Scalar) : rewritten m table (writes ++
    [.update name target.toNat oldData newData]) row =
      assignRow m table.columns target newData (rewritten m table writes row) := by
    have updates : updatedRows table [.update name target.toNat oldData newData] = [(target.toNat,newData)] := by
      simp [updatedRows,here]
    have ids : target.toNat = row.1.toNat ↔ row.1 = target := eq_comm.trans UInt64.toNat_inj
    simp only [rewritten,updatedRows_append,updates,List.foldl_append,List.foldl_cons,List.foldl_nil,ids,assignRow]
    by_cases same : row.1 = target <;> simp [same]
  simp only [ownView,left,inserts,writeView,List.map_append,List.map_map,UInt64.ofNat_toNat]
  congr 1
  · apply List.map_congr_left
    intro row _
    exact changed row
  · have unchanged : ∀ row ∈ inserted m table writes, assignRow m table.columns target newData row = row := by
      intro row member
      rw [assignRow,if_neg (fresh row member)]
    exact (List.map_congr_left unchanged).trans (List.map_id _) |>.symm

end

end

theorem inserted_fresh {next : Nat} (numbered : Numbered table next writes)
    (room : next + (insertedRows table writes).length ≤ 2^64) :
    ∀ row ∈ inserted m table writes, next ≤ row.1.toNat := by
  intro row member
  obtain ⟨entry,listed,rfl⟩ := List.mem_map.mp member
  have ranged : entry.1 ∈ List.range' next (insertedRows table writes).length :=
    numbered ▸ List.mem_map.mpr ⟨entry,listed,rfl⟩
  obtain ⟨_,_⟩ := List.mem_range'_1.mp ranged
  have small : entry.1 < UInt64.size := by
    simp only [UInt64.size]
    omega
  rw [UInt64.toNat_ofNat_of_lt' small]
  omega

theorem foldl_writeView (view : List (UInt64 × List Scalar)) {next : Nat} (numbered : Numbered table next writes)
    (room : next + (insertedRows table writes).length ≤ 2^64) (here : ∀ write ∈ writes, write.table = table.name)
    (known : ∀ write ∈ writes, write.isInsert = false → ∃ target : UInt64, target.toNat = write.rowId ∧
      write.rowId < next) :
    writes.foldl (writeView m table.columns) view = ownView m table writes view := by
  induction writes using List.reverseRecOn with
  | nil =>
    have kept : view.filter (survives table []) = view := List.filter_eq_self.mpr (fun _ _ => rfl)
    simp only [List.foldl_nil,ownView,kept]
    exact ((List.append_nil _).trans (List.map_id _)).symm
  | append_singleton writes write ih =>
    have before := numbered_left numbered
    rw [insertedRows_append,List.length_append] at room
    have left : next + (insertedRows table writes).length ≤ 2^64 := by omega
    rw [List.foldl_append,List.foldl_cons,List.foldl_nil,
      ih before left (fun w member => here w (by simp [member])) (fun w member => known w (by simp [member]))]
    have named := here write (by simp)
    have found := known write (by simp)
    have apart {target : UInt64} (below : target.toNat < next) : ∀ row ∈ inserted m table writes, row.1 ≠ target := by
      intro row new same
      have := inserted_fresh before left row new
      rw [same] at this
      omega
    cases write with
    | insert name rowId data => exact (ownView_insert named).symm
    | delete name rowId oldData =>
      obtain ⟨target,same,below⟩ := found rfl
      obtain rfl : target.toNat = rowId := same
      exact (ownView_delete named (apart below)).symm
    | update name rowId oldData newData =>
      obtain ⟨target,same,below⟩ := found rfl
      obtain rfl : target.toNat = rowId := same
      exact (ownView_update named (apart below)).symm

end StoredTable

end ApexBase.Query
