import ApexBase.Data.Value
import ApexBase.Library.Binary64
import ApexBase.Library.Postings

/-! Index keys, `storage/index/btree.rs`. A row value becomes a scalar key; the values of the
columns of a composite index become a tuple of scalar keys. -/
namespace ApexBase.Index
open Data Library Library.Assoc

inductive Scalar
  | null
  | bool (value : Bool)
  | int (value : Int64)
  | uint (value : UInt64)
  /-- By its bits. -/
  | float (bits : UInt64)
  | str (value : String)
  | bytes (value : List UInt8)
  deriving DecidableEq

inductive IndexKey
  | scalar (value : Scalar)
  | tuple (version : UInt8) (values : List Scalar)
  deriving DecidableEq

/-- What `serde_json` does: the text of a document, and whether two documents are equal. -/
structure JsonCodec where
  text : Json → String
  eq : Json → Json → Bool

def Scalar.fromValue (json : JsonCodec) : Value → Scalar
  | .null => .null
  | .bool value => .bool value
  | .int8 value => .int value.toInt64
  | .int16 value => .int value.toInt64
  | .int32 value => .int value.toInt64
  | .int64 value => .int value
  | .uint8 value => .uint value.toUInt64
  | .uint16 value => .uint value.toUInt64
  | .uint32 value => .uint value.toUInt64
  | .uint64 value => .uint value
  | .float32 bits => .float (Float32.ofBits bits).toFloat.toBits
  | .float64 bits => .float bits
  | .string value => .str value
  | .binary value => .bytes value
  | .blob value => .bytes value
  | .timestamp value => .int value
  | .date value => .int value.toInt64
  | .time value => .int value
  | .interval value => .int value
  | .json value => .str (json.text value)
  | .array _ => .null
  | .fixedList _ => .null

def IndexKey.fromValue (json : JsonCodec) (value : Value) : IndexKey := .scalar (.fromValue json value)

namespace Scalar

def discIndex : Scalar → Nat
  | .null => 0
  | .bool _ => 1
  | .int _ => 2
  | .uint _ => 3
  | .float _ => 4
  | .str _ => 5
  | .bytes _ => 6

/-- Integers compare by value, floats that are not ordered count as equal. -/
def cmp : Scalar → Scalar → Ordering
  | .bool a,.bool b => compare a b
  | .int a,.int b => compare a.toInt b.toInt
  | .uint a,.uint b => compare a.toNat b.toNat
  | .int a,.uint b => compare a.toInt b.toNat
  | .uint a,.int b => compare (a.toNat : Int) b.toInt
  | .float a,.float b => (Binary64.partialCmp a b).getD .eq
  | .str a,.str b => compare a b
  | .bytes a,.bytes b => compare a b
  | a,b => compare a.discIndex b.discIndex

def cmpList : List Scalar → List Scalar → Ordering
  | [],[] => .eq
  | [],_ :: _ => .lt
  | _ :: _,[] => .gt
  | a :: as,b :: bs => (cmp a b).then (cmpList as bs)

end Scalar

def IndexKey.cmp : IndexKey → IndexKey → Ordering
  | .scalar a,.scalar b => a.cmp b
  | .scalar _,.tuple _ _ => .lt
  | .tuple _ _,.scalar _ => .gt
  | .tuple v a,.tuple w b => (compare v w).then (Scalar.cmpList a b)

inductive IndexType
  | btree | hash
  deriving DecidableEq

/-- A B-tree tells keys apart by their order, a hash index by equality. -/
def IndexType.same : IndexType → IndexKey → IndexKey → Bool
  | .btree,a,b => a.cmp b == .eq
  | .hash,a,b => a = b

def IndexType.before : IndexType → IndexKey → IndexKey → Bool
  | .btree,a,b => a.cmp b == .lt
  | .hash,_,_ => false

def Scalar.proper : Scalar → Bool
  | .float bits => !Binary64.isNan bits
  | _ => true

def IndexKey.numeric : IndexKey → Bool
  | .scalar value => value.proper
  | .tuple _ values => values.all Scalar.proper

/-- A B-tree needs keys that are ordered, a hash index takes all. -/
def IndexType.accepts : IndexType → IndexKey → Bool
  | .btree,key => key.numeric
  | .hash,_ => true

inductive Measure
  | null
  | bool (value : Bool)
  | number (value : Int)
  | float (rank : Int)
  | str (value : String)
  | bytes (value : List UInt8)
  deriving DecidableEq

def Scalar.measure : Scalar → Measure
  | .null => .null
  | .bool value => .bool value
  | .int value => .number value.toInt
  | .uint value => .number value.toNat
  | .float bits => .float (Binary64.rank bits)
  | .str value => .str value
  | .bytes value => .bytes value

section Lawful

variable {a b : Scalar}

theorem cmp_eq (first : a.proper = true) (second : b.proper = true) : a.cmp b = .eq ↔ a.measure = b.measure := by
  cases a <;> cases b <;> simp_all [Scalar.cmp,Scalar.measure,Scalar.discIndex,Scalar.proper,Binary64.partialCmp]

theorem cmpList_eq : ∀ {as bs : List Scalar}, as.all Scalar.proper = true → bs.all Scalar.proper = true →
    (Scalar.cmpList as bs = .eq ↔ as.map Scalar.measure = bs.map Scalar.measure)
  | [],[],_,_ => by simp [Scalar.cmpList]
  | [],_ :: _,_,_ => by simp [Scalar.cmpList]
  | _ :: _,[],_,_ => by simp [Scalar.cmpList]
  | a :: as,b :: bs,first,second => by
    rw [List.all_cons,Bool.and_eq_true] at first second
    rw [Scalar.cmpList,Ordering.then_eq_eq,cmp_eq first.1 second.1,cmpList_eq first.2 second.2,List.map_cons,
      List.map_cons,List.cons.injEq]

def IndexKey.measures : IndexKey → Measure ⊕ UInt8 × List Measure
  | .scalar value => .inl value.measure
  | .tuple version values => .inr (version,values.map Scalar.measure)

theorem btree_same {a b : IndexKey} (first : a.numeric = true) (second : b.numeric = true) :
    IndexType.btree.same a b = true ↔ a.measures = b.measures := by
  rw [IndexType.same,beq_iff_eq]
  cases a with
  | scalar a =>
    cases b with
    | scalar b => rw [IndexKey.cmp,cmp_eq first second,IndexKey.measures,IndexKey.measures,Sum.inl.injEq]
    | tuple w b => exact ⟨nofun,nofun⟩
  | tuple v a =>
    cases b with
    | scalar b => exact ⟨nofun,nofun⟩
    | tuple w b =>
      rw [IndexKey.cmp,Ordering.then_eq_eq,cmpList_eq first second,Std.LawfulEqOrd.compare_eq_iff_eq,IndexKey.measures,
        IndexKey.measures,Sum.inr.injEq,
        Prod.mk.injEq]

theorem lawful (type : IndexType) : Postings.Lawful type.same fun key => type.accepts key = true := by
  cases type with
  | hash =>
    refine ⟨fun a _ => decide_eq_true rfl,fun a b _ _ equal => ?_,fun a b c _ _ _ first second => ?_⟩
    · exact decide_eq_true (of_decide_eq_true equal).symm
    · exact decide_eq_true ((of_decide_eq_true first).trans (of_decide_eq_true second))
  | btree =>
    refine ⟨fun a first => (btree_same first first).mpr rfl,fun a b first second equal => ?_,
      fun a b c first second third one two => ?_⟩
    · exact (btree_same second first).mpr ((btree_same first second).mp equal).symm
    · exact (btree_same first third).mpr (((btree_same first second).mp one).trans ((btree_same second third).mp two))

end Lawful

end ApexBase.Index
