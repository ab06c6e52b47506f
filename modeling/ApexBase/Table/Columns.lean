import ApexBase.Data.Value
import ApexBase.Fts.Query
import ApexBase.Library.WordSet

/-! Columns in memory (`table/column_table.rs`, `table/arrow_column.rs`): bits for the null and the
deleted rows, and one store for each type. -/
namespace ApexBase.Table
open Data Library Library.Assoc Fts

structure RowBits where
  data : WordSet.Words
  len : Nat
  backed : len ≤ 64 * data.length

namespace RowBits

def new : RowBits := ⟨[],0,Nat.le_refl _⟩

def get (bits : RowBits) (index : Nat) : Bool := if index ≥ bits.len then false else WordSet.get bits.data index

def set (bits : RowBits) (index : Nat) (value : Bool) : RowBits where
  data := WordSet.put (bits.data ++ List.replicate (index / 64 + 1 - bits.data.length) 0#64) index value
  len := if index ≥ bits.len then index + 1 else bits.len
  backed := by
    have room := bits.backed
    rw [WordSet.length_put,List.length_append,List.length_replicate]
    split
    · omega
    · omega

def allFalse (bits : RowBits) : Bool := bits.data.all (· == 0#64)

def extendFalse (bits : RowBits) (count : Nat) : RowBits where
  data := bits.data.take ((bits.len + count + 63) / 64) ++
    List.replicate ((bits.len + count + 63) / 64 - bits.data.length) 0#64
  len := bits.len + count
  backed := by
    have room := bits.backed
    rw [List.length_append,List.length_take,List.length_replicate]
    omega

theorem get_of_allFalse {bits : RowBits} (none_ : bits.allFalse = true) (index : Nat) : bits.get index = false := by
  unfold get
  split
  · rfl
  · exact WordSet.get_of_zeros (fun word member => by simpa using List.all_eq_true.mp none_ word member) index

theorem skip_eq (bits : RowBits) (index : Nat) : (!bits.allFalse && bits.get index) = bits.get index := by
  cases none_ : bits.allFalse
  · rfl
  · rw [get_of_allFalse none_]
    rfl

@[simp] theorem len_set {bits : RowBits} {position : Nat} (inside : position < bits.len) :
    (bits.set position true).len = bits.len :=
  if_neg (Nat.not_le.mpr inside)

theorem get_set {bits : RowBits} {position : Nat} (inside : position < bits.len) (index : Nat) :
    (bits.set position true).get index = (decide (index = position) || bits.get index) := by
  have room : position < 64 * (bits.data ++ List.replicate (position / 64 + 1 - bits.data.length) 0#64).length := by
    rw [List.length_append,List.length_replicate]
    omega
  unfold get
  rw [len_set inside]
  unfold set
  rw [WordSet.get_put true index room,WordSet.get_append_zeros]
  by_cases here : index = position
  · rw [here,decide_eq_true rfl,Bool.true_or,if_neg (Nat.not_le.mpr inside),if_pos rfl]
  · rw [decide_eq_false here,Bool.false_or,if_neg here]

@[simp] theorem len_extendFalse (count : Nat) : (new.extendFalse count).len = count := Nat.zero_add count

@[simp] theorem get_extendFalse (count index : Nat) : (new.extendFalse count).get index = false := by
  unfold get extendFalse
  split
  · rfl
  · refine WordSet.get_of_zeros (fun word member => ?_) index
    rcases List.mem_append.mp member with old | fresh
    · exact absurd (List.mem_of_mem_take old) List.not_mem_nil
    · exact (List.mem_replicate.mp fresh).2

end RowBits

/-- The texts of a column, each row with its own or, with a dictionary, with the place of its own there. -/
structure ArrowStringColumn where
  rows : List Text
  dictKeys : List UInt32
  dict : List Text
  dictEnabled : Bool
  nulls : RowBits
  len : Nat
  full : dictEnabled = false → rows.length = len

namespace ArrowStringColumn

def isNull (col : ArrowStringColumn) (index : Nat) : Bool := col.nulls.get index

def get (col : ArrowStringColumn) (index : Nat) : Option Text :=
  if index ≥ col.len || col.nulls.get index then none
  else if col.dictEnabled then col.dict[((col.dictKeys[index]?).getD 0).toNat]?
  else col.rows[index]?

def getValue (col : ArrowStringColumn) (index : Nat) : Value :=
  match col.get index with
  | some s => .string (String.ofList s)
  | none => .null

theorem get_of_isNull {col : ArrowStringColumn} {index : Nat} (null : col.isNull index = true) :
    col.get index = none := by
  have skipped : (decide (index ≥ col.len) || col.nulls.get index) = true := by
    rw [show col.nulls.get index = true from null,Bool.or_true]
  rw [get,if_pos skipped]

theorem get_of_len_le {col : ArrowStringColumn} {index : Nat} (outside : col.len ≤ index) : col.get index = none := by
  rw [get,decide_eq_true outside,Bool.true_or,if_pos rfl]

end ArrowStringColumn

inductive TypedColumn
  | int64 (data : List Int64) (nulls : RowBits)
  | float64 (data : List UInt64) (nulls : RowBits)
  | string (col : ArrowStringColumn)
  | bool (data nulls : RowBits)
  | mixed (data : List Value) (nulls : RowBits)

def valueAt {V : Type} (data : List V) (nulls : RowBits) (index : Nat) :
    Option V := if nulls.get index then none else data[index]?

def TypedColumn.get (column : TypedColumn) (index : Nat) : Option Value :=
  match column with
  | .int64 data nulls => (valueAt data nulls index).map .int64
  | .float64 data nulls => (valueAt data nulls index).map .float64
  | .string col => some (col.getValue index)
  | .bool data nulls => if index ≥ data.len || nulls.get index then none else some (.bool (data.get index))
  | .mixed data nulls => valueAt data nulls index

structure ColumnTable where
  nameToIndex : Map String Nat
  columns : List TypedColumn
  numbered : ∀ {name colIdx}, nameToIndex.lookup name = some colIdx → colIdx < columns.length

def ColumnTable.column (table : ColumnTable) (field : String) : Option TypedColumn :=
  match found : table.nameToIndex.lookup field with
  | some colIdx =>
    have inside := table.numbered found
    some table.columns[colIdx]
  | none => none

end ApexBase.Table
