import ApexBase.Index.Key
import ApexBase.Library.Lexicographic

/-! The order, the equality and the hash of index keys with composite keys nested to any depth,
`storage/index/btree.rs`. -/
namespace ApexBase.Index
open Library

/-- A key as its type allows it: the values of a composite key are keys again. -/
inductive NestedKey
  | scalar (value : Scalar)
  | tuple (version : UInt8) (values : List NestedKey)

namespace NestedKey

mutual
def eq : NestedKey → NestedKey → Bool
  | .scalar a,.scalar b => a = b
  | .tuple v as,.tuple w bs => v == w && eqAll as bs
  | _,_ => false

def eqAll : List NestedKey → List NestedKey → Bool
  | [],[] => true
  | a :: as,b :: bs => eq a b && eqAll as bs
  | _,_ => false
end

mutual
def cmp : NestedKey → NestedKey → Ordering
  | .scalar a,.scalar b => a.cmp b
  | .scalar _,.tuple _ _ => .lt
  | .tuple _ _,.scalar _ => .gt
  | .tuple v as,.tuple w bs => (compare v w).then (cmpAll as bs)

def cmpAll : List NestedKey → List NestedKey → Ordering
  | [],[] => .eq
  | [],_ :: _ => .lt
  | _ :: _,[] => .gt
  | a :: as,b :: bs => (cmp a b).then (cmpAll as bs)
end

inductive HashWrite
  | discriminant (index : Nat)
  | u8 (value : UInt8)
  | i64 (value : Int64)
  | u64 (value : UInt64)
  | str (value : String)
  | length (count : Nat)
  | bytes (value : List UInt8)

def scalarHash : Scalar → List HashWrite
  | .null => [.discriminant 0]
  | .bool value => [.discriminant 1,.u8 (if value then 1 else 0)]
  | .int value => [.discriminant 2,.i64 value]
  | .uint value => [.discriminant 3,.u64 value]
  | .float bits => [.discriminant 4,.u64 bits]
  | .str value => [.discriminant 5,.str value,.u8 0xff]
  | .bytes value => [.discriminant 6,.length value.length,.bytes value]

mutual
def hash : NestedKey → List HashWrite
  | .scalar value => scalarHash value
  | .tuple version values => .discriminant 7 :: .u8 version :: .length values.length :: hashAll values

def hashAll : List NestedKey → List HashWrite
  | [] => []
  | value :: values => hash value ++ hashAll values
end

inductive Leaf : NestedKey → Scalar → Prop
  | here (value : Scalar) : Leaf (.scalar value) value
  | inside {version : UInt8} {values : List NestedKey} {value : NestedKey} {leaf : Scalar}
    (member : value ∈ values) (leaf_ : Leaf value leaf) :
      Leaf (.tuple version values) leaf

def Over (scalars : Set Scalar) (key : NestedKey) : Prop := ∀ leaf, Leaf key leaf → leaf ∈ scalars

end NestedKey

namespace Scalar

/-- Two different scalars that compare as equal: a number as a signed and an unsigned integer, the
two zeros, and NaN with any float. -/
def Confused : Scalar → Scalar → Prop
  | .int a,.uint b => a.toInt = b.toNat
  | .uint a,.int b => b.toInt = a.toNat
  | .float a,.float b =>
    a ≠ b ∧ (Binary64.isNan a = true ∨ Binary64.isNan b = true ∨ Binary64.magnitude a = 0 ∧ Binary64.magnitude b = 0)
  | _,_ => False

theorem rank_eq (a b : UInt64) : Binary64.rank a = Binary64.rank b ↔ a = b ∨ Binary64.magnitude a = 0 ∧
    Binary64.magnitude b = 0 := by
  have limitA := a.toNat_lt
  have limitB := b.toNat_lt
  rw [← UInt64.toNat_inj]
  unfold Binary64.rank Binary64.negative Binary64.magnitude
  simp only [decide_eq_true_eq]
  split <;> split <;> omega

theorem float_cmp_eq (a b : UInt64) : (Binary64.partialCmp a b).getD .eq = .eq ↔
    a = b ∨ a ≠ b ∧ (Binary64.isNan a = true ∨ Binary64.isNan b = true ∨ Binary64.magnitude a = 0 ∧
      Binary64.magnitude b = 0) := by
  unfold Binary64.partialCmp
  by_cases nan : Binary64.isNan a = true ∨ Binary64.isNan b = true
  · rw [if_pos (Bool.or_eq_true_iff.mpr nan)]
    have either : Binary64.isNan a = true ∨ Binary64.isNan b = true ∨ Binary64.magnitude a = 0 ∧
      Binary64.magnitude b = 0 :=
      nan.imp_right Or.inl
    refine ⟨fun _ => ?_,fun _ => rfl⟩
    by_cases same : a = b
    · exact Or.inl same
    · exact Or.inr ⟨same,either⟩
  · rw [if_neg (Bool.or_eq_true_iff.not.mpr nan),Option.getD_some,compare_eq_iff_eq,rank_eq]
    rw [not_or] at nan
    constructor
    · rintro (same | zeros)
      · exact Or.inl same
      · by_cases same : a = b
        · exact Or.inl same
        · exact Or.inr ⟨same,Or.inr (Or.inr zeros)⟩
    · rintro (same | ⟨_,first | second | zeros⟩)
      · exact Or.inl same
      · exact absurd first nan.1
      · exact absurd second nan.2
      · exact Or.inr zeros

theorem cmp_eq_iff (a b : Scalar) : a.cmp b = .eq ↔ a = b ∨ Confused a b := by
  cases a <;> cases b
  case bool.bool a b => simp [cmp,Confused]
  case int.int a b => simp [cmp,Confused,Int64.toInt_inj]
  case int.uint a b => simp [cmp,Confused]
  case uint.int a b =>
    rw [cmp,compare_eq_iff_eq,Confused,eq_comm]
    exact (or_iff_right (by rintro ⟨⟩)).symm
  case uint.uint a b => simp [cmp,Confused,UInt64.toNat_inj]
  case float.float a b => rw [cmp,float_cmp_eq,Confused,float.injEq]
  case str.str a b => simp [cmp,Confused]
  case bytes.bytes a b => simp [cmp,Confused]
  all_goals simp [cmp,Confused,discIndex]

def cls : Scalar → Nat
  | .null => 0
  | .bool _ => 1
  | .int _ | .uint _ => 2
  | .float _ => 4
  | .str _ => 5
  | .bytes _ => 6

theorem cmp_of_cls_ne {a b : Scalar} (differ : a.cls ≠ b.cls) : a.cmp b = compare a.cls b.cls := by
  cases a <;> cases b <;> first | rfl | exact absurd rfl differ

private theorem compare_swap {α : Type} [Ord α] [Std.OrientedOrd α] (a b : α) :
    compare b a = (compare a b).swap := Std.OrientedCmp.eq_swap

theorem cmp_swap (a b : Scalar) : b.cmp a = (a.cmp b).swap := by
  cases a <;> cases b
  case float.float a b =>
    simp only [cmp,Binary64.partialCmp,Bool.or_comm]
    split
    · rfl
    · exact compare_swap _ _
  all_goals first | rfl | exact compare_swap _ _

private theorem compare_lt_trans {α : Type} [Ord α] [Std.TransOrd α] {a b c : α} (first : compare a b = .lt)
    (second : compare b c = .lt) :
    compare a c = .lt := Std.TransCmp.lt_trans first second

theorem cmp_lt_trans (a b c : Scalar) : LtTrans Scalar.cmp a b c := by
  intro first second
  by_cases left : a.cls = b.cls
  · by_cases right : b.cls = c.cls
    · cases a <;> cases b <;> first | exact absurd left (Nat.ne_of_beq_eq_false rfl) | skip
      all_goals cases c <;> first | exact absurd right (Nat.ne_of_beq_eq_false rfl) | skip
      case float.float.float a b c =>
        have apart : ∀ x y, (Binary64.partialCmp x y).getD .eq = .lt →
            (Binary64.isNan x || Binary64.isNan y) = false ∧ Binary64.rank x < Binary64.rank y := by
          intro x y less
          unfold Binary64.partialCmp at less
          split at less
          · cases less
          · rename_i ordered
            exact ⟨Bool.not_eq_true _ ▸ ordered,compare_lt_iff_lt.mp less⟩
        obtain ⟨numbers,lower⟩ := apart a b first
        obtain ⟨others,upper⟩ := apart b c second
        rw [Bool.or_eq_false_iff] at numbers others
        simp only [cmp,Binary64.partialCmp,numbers,others,Bool.or_false,Bool.false_eq_true,if_false,Option.getD_some]
        exact compare_lt_iff_lt.mpr (lower.trans upper)
      case null.null.null => cases first
      case bool.bool.bool => exact compare_lt_trans first second
      case str.str.str => exact compare_lt_trans first second
      case bytes.bytes.bytes => exact compare_lt_trans first second
      -- signed and unsigned integers in any mixture
      all_goals
        simp only [cmp,compare_lt_iff_lt] at first second ⊢
        omega
    · rw [cmp_of_cls_ne right] at second
      rw [cmp_of_cls_ne (left ▸ right),left]
      exact second
  · rw [cmp_of_cls_ne left] at first
    by_cases right : b.cls = c.cls
    · rw [cmp_of_cls_ne (right ▸ left),← right]
      exact first
    · rw [cmp_of_cls_ne right] at second
      have order := (compare_lt_iff_lt.mp first).trans (compare_lt_iff_lt.mp second)
      rw [cmp_of_cls_ne order.ne]
      exact compare_lt_iff_lt.mpr order

end Scalar

namespace NestedKey

theorem nested_induction {P : NestedKey → Prop} (scalar : ∀ value, P (.scalar value))
    (tuple : ∀ version values, (∀ value ∈ values, P value) → P (.tuple version values)) (key : NestedKey) : P key :=
  @NestedKey.rec P (fun values => ∀ value ∈ values, P value) scalar tuple (fun _ member =>
    absurd member List.not_mem_nil)
    (fun _ _ first rest => List.forall_mem_cons.mpr ⟨first,rest⟩) key

theorem cmpAll_eq_lex : ∀ as bs : List NestedKey, cmpAll as bs = List.compareLex cmp as bs
  | [],[] => rfl
  | [],_ :: _ => rfl
  | _ :: _,[] => rfl
  | a :: as,b :: bs => by rw [cmpAll,List.compareLex_cons_cons,cmpAll_eq_lex as bs]

theorem eqAll_iff : ∀ {as bs : List NestedKey}, (∀ a ∈ as, ∀ b, eq a b = true ↔ a = b) → (eqAll as bs = true ↔ as = bs)
  | [],[],_ => ⟨fun _ => rfl,fun _ => rfl⟩
  | [],_ :: _,_ => ⟨nofun,nofun⟩
  | _ :: _,[],_ => ⟨nofun,nofun⟩
  | a :: as,b :: bs,each => by
    have first := each a List.mem_cons_self b
    have rest : eqAll as bs = true ↔ as = bs := eqAll_iff fun a member => each a (List.mem_cons_of_mem _ member)
    rw [eqAll,Bool.and_eq_true,first,rest,List.cons.injEq]

theorem eq_iff (a b : NestedKey) : eq a b = true ↔ a = b := by
  induction a using nested_induction generalizing b with
  | scalar a =>
    cases b with
    | scalar b => rw [eq,decide_eq_true_iff,scalar.injEq]
    | tuple => exact ⟨nofun,nofun⟩
  | tuple v as ih =>
    cases b with
    | scalar => exact ⟨nofun,nofun⟩
    | tuple w bs => rw [eq,Bool.and_eq_true,beq_iff_eq,eqAll_iff ih,tuple.injEq]

theorem cmp_swap (a b : NestedKey) : cmp b a = (cmp a b).swap := by
  induction a using nested_induction generalizing b with
  | scalar a =>
    cases b with
    | scalar b => exact Scalar.cmp_swap a b
    | tuple => rfl
  | tuple v as ih =>
    cases b with
    | scalar => rfl
    | tuple w bs =>
      have versions : compare w v = (compare v w).swap := Std.OrientedCmp.eq_swap
      have values := lex_swap fun a member b (_ : b ∈ bs) => ih a member b
      rw [cmp,cmp,cmpAll_eq_lex,cmpAll_eq_lex,Ordering.swap_then,versions,values]

def Apart (scalars : Set Scalar) : Prop := ∀ a ∈ scalars, ∀ b ∈ scalars, ¬Scalar.Confused a b

section Lawful
variable {scalars : Set Scalar}

theorem over_scalar {value : Scalar} (atop : Over scalars (.scalar value)) : value ∈ scalars := atop value (.here value)

theorem over_value {version : UInt8} {values : List NestedKey} (atop : Over scalars (.tuple version values))
    {value : NestedKey}
    (member : value ∈ values) : Over scalars value := fun leaf leaf_ => atop leaf (.inside member leaf_)

theorem cmp_eq_iff (apart : Apart scalars) (a b : NestedKey) (overA : Over scalars a) (overB : Over scalars b) :
    cmp a b = .eq ↔ a = b := by
  induction a using nested_induction generalizing b with
  | scalar a =>
    cases b with
    | scalar b =>
      rw [cmp,Scalar.cmp_eq_iff,or_iff_left (apart a (over_scalar overA) b (over_scalar overB)),scalar.injEq]
    | tuple => exact ⟨nofun,nofun⟩
  | tuple v as ih =>
    cases b with
    | scalar => exact ⟨nofun,nofun⟩
    | tuple w bs =>
      have values := lex_eq fun a one b two => ih a one b (over_value overA one) (over_value overB two)
      rw [cmp,cmpAll_eq_lex,Ordering.then_eq_eq,values,Std.LawfulEqOrd.compare_eq_iff_eq,tuple.injEq]

theorem cmp_lt_trans (apart : Apart scalars) (a b c : NestedKey) (overA : Over scalars a) (overB : Over scalars b)
    (overC : Over scalars c) :
    LtTrans cmp a b c := by
  induction a using nested_induction generalizing b c with
  | scalar a =>
    cases c with
    | tuple => exact fun _ _ => rfl
    | scalar c =>
      cases b with
      | tuple => exact fun _ second => nomatch second
      | scalar b => exact Scalar.cmp_lt_trans a b c
  | tuple v as ih =>
    cases b with
    | scalar => exact fun first => nomatch first
    | tuple w bs =>
      cases c with
      | scalar => exact fun _ second => nomatch second
      | tuple u cs =>
        have equal : ∀ {x y : NestedKey}, Over scalars x → Over scalars y → (cmp x y = .eq ↔ x = y) :=
          fun overX overY => cmp_eq_iff apart _ _ overX overY
        have values := lex_lt_trans (fun a one b two => equal (over_value overA one) (over_value overB two))
          (fun b one c two => equal (over_value overB one) (over_value overC two))
          fun a one b two c three => ih a one b c (over_value overA one) (over_value overB two) (over_value overC three)
        intro first second
        rw [cmp,cmpAll_eq_lex,then_eq_lt,Std.LawfulEqOrd.compare_eq_iff_eq] at first second ⊢
        rcases first with below | ⟨same,later⟩
        · rcases second with above | ⟨equal,_⟩
          · exact Or.inl (Std.TransCmp.lt_trans below above)
          · exact Or.inl (equal ▸ below)
        · rcases second with above | ⟨equal,more⟩
          · exact Or.inl (same ▸ above)
          · exact Or.inr ⟨same.trans equal,values later more⟩

end Lawful

def btreePostings (pairs : List (NestedKey × UInt64)) : List (NestedKey × List UInt64) :=
  Postings.pushAll (fun a b => cmp a b == .eq) (fun a b => cmp a b == .lt) pairs

def hashPostings (pairs : List (NestedKey × UInt64)) : List (NestedKey × List UInt64) :=
  Postings.pushAll eq (fun _ _ => false) pairs

/-- The laws of `Ord`, `Eq` and `Hash` on keys of scalars from a set, and that the two maps agree. -/
structure LawfulOver (scalars : Set Scalar) : Prop where
  reflexive : ∀ a, Over scalars a → cmp a a = .eq
  antisymmetric : ∀ a b, Over scalars a → Over scalars b → cmp b a = (cmp a b).swap
  transitive : ∀ a b c, Over scalars a → Over scalars b → Over scalars c → cmp a b ≠ .gt → cmp b c ≠ .gt → cmp a c ≠ .gt
  total : ∀ a b, Over scalars a → Over scalars b → cmp a b ≠ .gt ∨ cmp b a ≠ .gt
  equal : ∀ a b, Over scalars a → Over scalars b → (cmp a b = .eq ↔ eq a b = true)
  hashed : ∀ a b, Over scalars a → Over scalars b → eq a b = true → hash a = hash b
  postings : ∀ pairs : List (NestedKey × UInt64), (∀ pair ∈ pairs, Over scalars pair.1) → ∀ key, Over scalars key →
    Postings.find? (fun a b => cmp a b == .eq) (btreePostings pairs) key = Postings.find? eq (hashPostings pairs) key

section Main
variable {scalars : Set Scalar}

private theorem not_gt_iff {a b : NestedKey} : cmp a b ≠ .gt ↔ cmp a b = .lt ∨ cmp a b = .eq := by
  cases cmp a b <;> simp

theorem eq_lawful (proper : NestedKey → Prop) : Postings.Lawful eq proper :=
  ⟨fun a _ => (eq_iff a a).mpr rfl,fun a b _ _ same => (eq_iff b a).mpr ((eq_iff a b).mp same).symm,
    fun a b c _ _ _ first second => (eq_iff a c).mpr (((eq_iff a b).mp first).trans ((eq_iff b c).mp second))⟩

theorem lawfulOver (apart : Apart scalars) : LawfulOver scalars := by
  have equal : ∀ a b, Over scalars a → Over scalars b → (cmp a b = .eq ↔ a = b) := cmp_eq_iff apart
  have same : ∀ a b, Over scalars a → Over scalars b → (cmp a b == .eq) = eq a b := by
    intro a b overA overB
    rw [Bool.eq_iff_iff,beq_iff_eq,equal a b overA overB,eq_iff]
  refine ⟨fun a atop => (equal a a atop atop).mpr rfl,fun a b _ _ => cmp_swap a b,?_,?_,?_,?_,?_⟩
  · intro a b c overA overB overC first second
    rw [not_gt_iff] at first second ⊢
    rcases first with below | match_
    · rcases second with above | match_
      · exact Or.inl (cmp_lt_trans apart a b c overA overB overC below above)
      · rw [← (equal b c overB overC).mp match_]
        exact Or.inl below
    · rw [(equal a b overA overB).mp match_]
      exact second
  · intro a b _ _
    rw [cmp_swap a b]
    cases cmp a b with
    | lt => exact Or.inl nofun
    | eq => exact Or.inl nofun
    | gt => exact Or.inr nofun
  · intro a b overA overB
    rw [equal a b overA overB,eq_iff]
  · intro a b _ _ match_
    rw [(eq_iff a b).mp match_]
  · intro pairs each key atop
    have lawful : Postings.Lawful (fun a b => cmp a b == .eq) (Over scalars) := by
      have own := eq_lawful (Over scalars)
      refine ⟨fun a first => ?_,fun a b first second => ?_,fun a b c first second third => ?_⟩
      · rw [same a a first first]
        exact own.refl a first
      · rw [same a b first second,same b a second first]
        exact own.symm a b first second
      · rw [same a b first second,same b c second third,same a c first third]
        exact own.trans a b c first second third
    have filtered : (pairs.filter fun pair => cmp pair.1 key == .eq) = pairs.filter fun pair => eq pair.1 key :=
      List.filter_congr fun pair member => same pair.1 key (each pair member) atop
    rw [btreePostings,hashPostings,Postings.find?_pushAll lawful each atop,
      Postings.find?_pushAll (eq_lawful (Over scalars)) each atop,filtered]

/-- The order of keys is lawful, and B-tree and hash postings agree, exactly over sets of scalars of which no two
different ones compare as equal. -/
theorem key_order_lawful_iff (scalars : Set Scalar) : LawfulOver scalars ↔ Apart scalars := by
  refine ⟨fun laws a memberA b memberB confused => ?_,lawfulOver⟩
  have only : ∀ {value : Scalar}, value ∈ scalars → Over scalars (.scalar value) := by
    rintro value member leaf ⟨⟩
    exact member
  have equal : cmp (.scalar a) (.scalar b) = .eq := (Scalar.cmp_eq_iff a b).mpr (Or.inr confused)
  have same := (eq_iff _ _).mp ((laws.equal _ _ (only memberA) (only memberB)).mp equal)
  cases same
  have never : ¬Scalar.Confused a a := by
    cases a with
    | float bits => exact fun both => both.1 rfl
    | _ => exact id
  exact never confused

end Main

/-- NaN with 1 and 2: equal to both, which are not equal. And the two zeros are equal without being the same. -/
theorem nan_and_zeros_unlawful :
    ¬LawfulOver Set.univ ∧
    (cmp (.scalar (.float 0x4000000000000000)) (.scalar (.float 0x7ff8000000000000)) = .eq ∧
      cmp (.scalar (.float 0x7ff8000000000000)) (.scalar (.float 0x3ff0000000000000)) = .eq ∧
      cmp (.scalar (.float 0x4000000000000000)) (.scalar (.float 0x3ff0000000000000)) = .gt) ∧
    (cmp (.scalar (.float 0)) (.scalar (.float 0x8000000000000000)) = .eq ∧
      eq (.scalar (.float 0)) (.scalar (.float 0x8000000000000000)) = false) ∧
    cmp (.scalar (.int 5)) (.scalar (.uint 5)) = .eq ∧ eq (.scalar (.int 5)) (.scalar (.uint 5)) = false := by
  refine ⟨fun laws => ?_,by decide +kernel⟩
  have same := (laws.equal (.scalar (.int 5)) (.scalar (.uint 5)) (fun _ _ => trivial) fun _ _ => trivial).mp rfl
  exact nomatch same

end NestedKey

end ApexBase.Index
