import ApexBase.Library.Rounding
import ApexBase.Query.ColumnFilter

/-! The order of values (`data/value.rs`, `query/filter.rs`): where the comparison of integers as
floats keeps it lawful. -/
namespace ApexBase.Query.ColumnFilter
open Data Library Fts Table Like
open Value (integer?)

def asF64By (round : Int → UInt64) : Value → Option UInt64
  | .int8 value => some (round value.toInt)
  | .int16 value => some (round value.toInt)
  | .int32 value => some (round value.toInt)
  | .int64 value => some (round value.toInt)
  | .uint8 value => some (round value.toNat)
  | .uint16 value => some (round value.toNat)
  | .uint32 value => some (round value.toNat)
  | .uint64 value => some (round value.toNat)
  | value => value.asF64

inductive Plain : Value → Prop
  | null : Plain .null
  | bool (value : Bool) : Plain (.bool value)
  | int8 (value : Int8) : Plain (.int8 value)
  | int16 (value : Int16) : Plain (.int16 value)
  | int32 (value : Int32) : Plain (.int32 value)
  | int64 (value : Int64) : Plain (.int64 value)
  | uint8 (value : UInt8) : Plain (.uint8 value)
  | uint16 (value : UInt16) : Plain (.uint16 value)
  | uint32 (value : UInt32) : Plain (.uint32 value)
  | uint64 (value : UInt64) : Plain (.uint64 value)
  | timestamp (value : Int64) : Plain (.timestamp value)
  | date (value : Int32) : Plain (.date value)
  | time (value : Int64) : Plain (.time value)
  | interval (value : Int64) : Plain (.interval value)
  | string (value : String) : Plain (.string value)

inductive Reading
  | null
  | integer (wide : Bool) (value : Int)
  | scalar (kind : Nat) (value : Int)
  | text (value : String)
  | other

def reading : Value → Reading
  | .null => .null
  | .bool value => .scalar 0 (if value then 1 else 0)
  | .int8 value => .integer false value.toInt
  | .int16 value => .integer false value.toInt
  | .int32 value => .integer false value.toInt
  | .int64 value => .integer true value.toInt
  | .uint8 value => .integer false value.toNat
  | .uint16 value => .integer false value.toNat
  | .uint32 value => .integer false value.toNat
  | .uint64 value => .integer false value.toNat
  | .timestamp value => .scalar 1 value.toInt
  | .date value => .scalar 2 value.toInt
  | .time value => .scalar 3 value.toInt
  | .interval value => .scalar 4 value.toInt
  | .string value => .text value
  | _ => .other

namespace Reading

def cmp (rounded : Int → Int → Option Ordering) : Reading → Reading → Option Ordering
  | null,null => some .eq
  | null,_ => some .lt
  | _,null => some .gt
  | integer wide a,integer wide' b => if wide && wide' then some (compare a b) else rounded a b
  | scalar kind a,scalar kind' b => if kind = kind' then some (compare a b) else none
  | text a,text b => some (compare a b)
  | _,_ => none

theorem cmp_congr {rounded rounded' : Int → Int → Option Ordering} {r s : Reading}
    (integers : ∀ wide m wide' n, r = integer wide m → s = integer wide' n → (wide && wide') = false →
      rounded m n = rounded' m n) :
    r.cmp rounded s = r.cmp rounded' s := by
  cases r with
  | integer wide m =>
    cases s with
    | integer wide' n =>
      rw [cmp,cmp]
      split
      · rfl
      · rename_i narrow
        exact integers wide m wide' n rfl rfl (Bool.eq_false_iff.mpr narrow)
    | _ => rfl
  | _ => cases s <;> rfl

end Reading

variable {a b c : Value}

theorem partialCmp_reading (round : Int → UInt64) (first : Plain a) (second : Plain b) :
    partialCmpBy (asF64By round) a b = (reading a).cmp (fun m n => Binary64.partialCmp (round m) (round n))
      (reading b) := by
  cases first with
  | bool x =>
    cases second with
    | bool y => cases x <;> cases y <;> rfl
    | _ => rfl
  | _ => cases second <;> rfl

section Operators
variable (asF64 : Value → Option UInt64) (crate : TextCrates) (json : Index.JsonCodec)

theorem compareFast_order {op : CompareOp} (ordered : op ∈ [.lessThan,.lessEqual,.greaterThan,.greaterEqual])
    (a b : Value) :
    compareFastBy asF64 crate json a op b = (partialCmpBy asF64 a b).any op.holds := by
  have cases : op = .lessThan ∨ op = .lessEqual ∨ op = .greaterThan ∨ op = .greaterEqual := by simpa using ordered
  unfold compareFastBy
  split
  · rfl
  · rcases cases with rfl | rfl | rfl | rfl <;> rfl
  · rcases cases with rfl | rfl | rfl | rfl <;> rfl
  · rcases cases with rfl | rfl | rfl | rfl <;> rfl

theorem compareFast_equal (first : Plain a) (second : Plain b) :
    compareFastBy asF64 crate json a .equal b = true ↔ a = b := by
  have value : Index.valueEq json a b = true ↔ a = b := by
    cases first <;> cases second <;> simp [Index.valueEq]
  unfold compareFastBy
  split
  · rename_i l r
    have order : compareInt64 .equal l r = true ↔ l = r := by
      rw [compareInt64,CompareOp.holds,beq_iff_eq,Std.LawfulEqOrd.compare_eq_iff_eq,Int64.toInt_inj]
    rw [order,Value.int64.injEq]
  · cases first
  · rename_i l r
    have order : compareString crate .equal l r = true ↔ l = r := by
      rw [compareString,if_neg (by decide),CompareOp.holds,beq_iff_eq,Std.LawfulEqOrd.compare_eq_iff_eq]
    rw [order,Value.string.injEq]
  · exact value

theorem compareFast_notEqual (first : Plain a) :
    compareFastBy asF64 crate json a .notEqual b = !compareFastBy asF64 crate json a .equal b := by
  unfold compareFastBy
  split
  · rfl
  · cases first
  · rfl
  · rfl

end Operators

abbrev roundedF64 : Value → Option UInt64 := asF64By Binary64.ofInt

structure Lawful (crate : TextCrates) (json : Index.JsonCodec) (values : Set Value) : Prop where
  reverse : ∀ a ∈ values, ∀ b ∈ values, partialCmpBy roundedF64 a b = (partialCmpBy roundedF64 b a).map Ordering.swap
  transitive : ∀ a ∈ values, ∀ b ∈ values, ∀ c ∈ values, ∀ x y,
    partialCmpBy roundedF64 a b = some x → partialCmpBy roundedF64 b c = some y → x = y ∨ x = .eq ∨ y = .eq →
      partialCmpBy roundedF64 a c = some (x.then y)
  integers : ∀ a ∈ values, ∀ b ∈ values, ∀ m n, integer? a = some m → integer? b = some n →
    partialCmpBy roundedF64 a b = some (compare m n)
  trichotomy : ∀ a ∈ values, ∀ b ∈ values, a ≠ .null → b ≠ .null → partialCmpBy roundedF64 a b ≠ none →
    ∃! op, op ∈ [CompareOp.lessThan,.equal,.greaterThan] ∧ compareFastBy roundedF64 crate json a op b = true
  notEqual : ∀ a ∈ values, ∀ b ∈ values, a ≠ .null → b ≠ .null → partialCmpBy roundedF64 a b ≠ none →
    compareFastBy roundedF64 crate json a .notEqual b = !compareFastBy roundedF64 crate json a .equal b
  lessEqual : ∀ a ∈ values, ∀ b ∈ values, a ≠ .null → b ≠ .null → partialCmpBy roundedF64 a b ≠ none →
    compareFastBy roundedF64 crate json a .lessEqual b =
      (compareFastBy roundedF64 crate json a .lessThan b || compareFastBy roundedF64 crate json a .equal b)
  greaterEqual : ∀ a ∈ values, ∀ b ∈ values, a ≠ .null → b ≠ .null → partialCmpBy roundedF64 a b ≠ none →
    compareFastBy roundedF64 crate json a .greaterEqual b =
      (compareFastBy roundedF64 crate json a .greaterThan b || compareFastBy roundedF64 crate json a .equal b)

def isInt64 : Value → Bool
  | .int64 _ => true
  | _ => false

/-- Two different values are not integers with one float, unless both are compared as integers. -/
def Apart (a b : Value) : Prop := a ≠ b → ∀ m n, integer? a = some m → integer? b = some n →
    Binary64.ofInt m = Binary64.ofInt n →
  isInt64 a = true ∧ isInt64 b = true

variable {crate : TextCrates} {json : Index.JsonCodec}

private theorem reading_integer {m : Int} (found : integer? a = some m) : reading a = .integer (isInt64 a) m := by
  cases a <;> cases found <;> rfl

private theorem integer_reading {wide : Bool} {m : Int} (found : reading a = .integer wide m) :
    integer? a = some m ∧ isInt64 a = wide := by
  cases a <;> cases found <;> exact ⟨rfl,rfl⟩

def Reading.exactCmp : Reading → Reading → Option Ordering := Reading.cmp fun m n => some (compare m n)

theorem cmp_exact (first : Plain a) (second : Plain b) (apart : Apart a b) :
    partialCmpBy roundedF64 a b = (reading a).exactCmp (reading b) := by
  rw [partialCmp_reading Binary64.ofInt first second]
  refine Reading.cmp_congr fun wide m wide' n readA readB narrow => ?_
  obtain ⟨integerA,wideA⟩ := integer_reading readA
  obtain ⟨integerB,wideB⟩ := integer_reading readB
  refine Binary64.partialCmp_ofInt_exact fun same => ?_
  by_cases equal : a = b
  · exact Option.some.inj (integerA.symm.trans ((congrArg integer? equal).trans integerB))
  · obtain ⟨bothA,bothB⟩ := apart equal m n integerA integerB same
    rw [← wideA,← wideB,bothA,bothB] at narrow
    exact absurd narrow (by decide)

private theorem compare_then {α : Type} [Ord α] [Std.TransOrd α] {x y z : α}
    (way : compare x y = compare y z ∨ compare x y = .eq ∨ compare y z = .eq) :
    compare x z = (compare x y).then (compare y z) := by
  rcases first : compare x y with _ | _ | _
  · have second : compare y z = .lt ∨ compare y z = .eq := by
      rw [first] at way
      exact way.elim (fun same => .inl same.symm) fun way => way.elim nofun .inr
    rcases second with less | equal
    · exact Std.TransCmp.lt_trans first less
    · exact Std.TransCmp.lt_of_lt_of_eq first equal
  · exact Std.TransCmp.congr_left first
  · have second : compare y z = .gt ∨ compare y z = .eq := by
      rw [first] at way
      exact way.elim (fun same => .inl same.symm) fun way => way.elim nofun .inr
    rcases second with greater | equal
    · exact Std.TransCmp.gt_trans first greater
    · exact Std.TransCmp.gt_of_gt_of_eq first equal

theorem exactCmp_reverse (r s : Reading) : r.exactCmp s = (s.exactCmp r).map Ordering.swap := by
  have swap {α : Type} [Ord α] [Std.OrientedOrd α] (x y : α) : compare x y = (compare y x).swap :=
    Std.OrientedOrd.eq_swap
  cases r with
  | integer wide m =>
    cases s with
    | integer wide' n =>
      unfold Reading.exactCmp
      rw [Reading.cmp,Reading.cmp,ite_self,ite_self,swap m n]
      rfl
    | _ => rfl
  | scalar kind m =>
    cases s with
    | scalar kind' n =>
      unfold Reading.exactCmp
      rw [Reading.cmp,Reading.cmp]
      by_cases same : kind = kind'
      · rw [if_pos same,if_pos same.symm,swap m n]
        rfl
      · rw [if_neg same,if_neg (Ne.symm same)]
        rfl
    | _ => rfl
  | text m =>
    cases s with
    | text n => exact congrArg some (swap m n)
    | _ => rfl
  | _ => cases s <;> rfl

private theorem exactCmp_null {r : Reading} (present : r ≠ .null) :
    r.exactCmp .null = some .gt ∧ Reading.exactCmp .null r = some .lt := by
  cases r with
  | null => exact absurd rfl present
  | _ => exact ⟨rfl,rfl⟩

theorem exactCmp_transitive {r s t : Reading} {x y : Ordering} (first : r.exactCmp s = some x)
    (second : s.exactCmp t = some y)
    (way : x = y ∨ x = .eq ∨ y = .eq) : r.exactCmp t = some (x.then y) := by
  by_cases null : r = .null ∨ s = .null ∨ t = .null
  · by_cases middle : s = .null
    · subst middle
      cases r <;> cases first <;> cases t <;> cases second <;> first | rfl | exact absurd way (by decide)
    · by_cases start : r = .null
      · subst start
        cases first.symm.trans (exactCmp_null middle).2
        by_cases last : t = .null
        · subst last
          cases second.symm.trans (exactCmp_null middle).1
          exact absurd way (by decide)
        · exact (exactCmp_null last).2
      · have last : t = .null := (null.resolve_left start).resolve_left middle
        subst last
        cases second.symm.trans (exactCmp_null middle).1
        rw [(exactCmp_null start).1]
        cases x with
        | lt => exact absurd way (by decide)
        | _ => rfl
  · obtain ⟨start,middle,last⟩ : r ≠ .null ∧ s ≠ .null ∧ t ≠ .null := by simpa only [not_or] using null
    unfold Reading.exactCmp at *
    cases s with
    | null => exact absurd rfl middle
    | integer wide n =>
      cases r with
      | integer wide' m =>
        cases t with
        | integer wide'' k =>
          rw [Reading.cmp,ite_self] at *
          cases first
          cases second
          exact congrArg some (compare_then way)
        | null => exact absurd rfl last
        | _ => exact absurd second nofun
      | null => exact absurd rfl start
      | _ => exact absurd first nofun
    | scalar kind n =>
      cases r with
      | scalar kind' m =>
        cases t with
        | scalar kind'' k =>
          rw [Reading.cmp] at *
          split at first
          · split at second
            · cases first
              cases second
              rw [if_pos (by omega),compare_then way]
            · exact absurd second nofun
          · exact absurd first nofun
        | null => exact absurd rfl last
        | _ => exact absurd second nofun
      | null => exact absurd rfl start
      | _ => exact absurd first nofun
    | text n =>
      cases r with
      | text m =>
        cases t with
        | text k =>
          cases first
          cases second
          exact congrArg some (compare_then way)
        | null => exact absurd rfl last
        | _ => exact absurd second nofun
      | null => exact absurd rfl start
      | _ => exact absurd first nofun
    | other =>
      cases r with
      | null => exact absurd rfl start
      | _ => exact absurd first nofun

private theorem eq_of_cmp (first : Plain a) (second : Plain b) (others : integer? a = none ∨ integer? b = none)
    (equal : partialCmpBy roundedF64 a b = some .eq) : a = b := by
  cases first <;> cases second <;>
    simp [partialCmpBy,asF64By,Value.asF64,integer?,Int64.toInt_inj,Int32.toInt_inj] at equal others ⊢ <;>
    exact equal

theorem cmp_eq_iff (first : Plain a) (second : Plain b) (apart : Apart a b) :
    partialCmpBy roundedF64 a b = some .eq ↔ a = b := by
  constructor
  · intro equal
    cases readA : integer? a with
    | none => exact eq_of_cmp first second (.inl readA) equal
    | some m =>
      cases readB : integer? b with
      | none => exact eq_of_cmp first second (.inr readB) equal
      | some n =>
        rw [cmp_exact first second apart,reading_integer readA,reading_integer readB,Reading.exactCmp,Reading.cmp,
          ite_self] at equal
        have same : m = n := Std.LawfulEqOrd.compare_eq_iff_eq.mp (Option.some.inj equal)
        by_contra differ
        obtain ⟨wideA,wideB⟩ := apart differ m n readA readB (congrArg Binary64.ofInt same)
        cases a <;> cases wideA
        cases b <;> cases wideB
        cases readA
        cases readB
        exact differ (congrArg Value.int64 (Int64.toInt_inj.mp same))
  · rintro rfl
    rw [cmp_exact first first apart,Reading.exactCmp]
    cases first <;> simp [reading,Reading.cmp]

private def operator : Ordering → CompareOp
  | .lt => .lessThan
  | .eq => .equal
  | .gt => .greaterThan

private theorem laws (crate : TextCrates) (json : Index.JsonCodec) {values : Set Value}
    (plain : ∀ value ∈ values, Plain value)
    (apart : ∀ a ∈ values, ∀ b ∈ values, Apart a b) : Lawful crate json values := by
  have order (a : Value) (inA : a ∈ values) (b : Value) (inB : b ∈ values) : partialCmpBy roundedF64 a b =
    (reading a).exactCmp (reading b) :=
    cmp_exact (plain a inA) (plain b inB) (apart a inA b inB)
  have equal (a : Value) (inA : a ∈ values) (b : Value) (inB : b ∈ values) :
      compareFastBy roundedF64 crate json a .equal b = (partialCmpBy roundedF64 a b).any (· == .eq) := by
    apply Bool.eq_iff_iff.mpr
    rw [compareFast_equal roundedF64 crate json (plain a inA) (plain b inB),
      ← cmp_eq_iff (plain a inA) (plain b inB) (apart a inA b inB)]
    cases partialCmpBy roundedF64 a b with
    | none => exact ⟨nofun,nofun⟩
    | some o => cases o <;> simp
  constructor
  · intro a inA b inB
    rw [order a inA b inB,order b inB a inA]
    exact exactCmp_reverse _ _
  · intro a inA b inB c inC x y first second way
    rw [order _ ‹_› _ ‹_›] at first second ⊢
    exact exactCmp_transitive first second way
  · intro a inA b inB m n readA readB
    rw [order a inA b inB,reading_integer readA,reading_integer readB,Reading.exactCmp,Reading.cmp,ite_self]
  · intro a inA b inB _ _ defined
    have less : compareFastBy roundedF64 crate json a .lessThan b =
      (partialCmpBy roundedF64 a b).any CompareOp.lessThan.holds :=
      compareFast_order roundedF64 crate json (by simp) a b
    have greater : compareFastBy roundedF64 crate json a .greaterThan b =
      (partialCmpBy roundedF64 a b).any CompareOp.greaterThan.holds :=
      compareFast_order roundedF64 crate json (by simp) a b
    have same := equal a inA b inB
    cases here : partialCmpBy roundedF64 a b with
    | none => exact absurd here defined
    | some o =>
      rw [here] at less greater same
      refine ⟨operator o,⟨?_,?_⟩,?_⟩
      · cases o <;> decide
      · cases o
        · exact less
        · exact same
        · exact greater
      · rintro op ⟨one,holds⟩
        have cases : op = .lessThan ∨ op = .equal ∨ op = .greaterThan := by simpa using one
        rcases cases with rfl | rfl | rfl
        · rw [less] at holds
          cases o <;> first | rfl | exact absurd holds (by decide)
        · rw [same] at holds
          cases o <;> first | rfl | exact absurd holds (by decide)
        · rw [greater] at holds
          cases o <;> first | rfl | exact absurd holds (by decide)
  · intro a inA b inB _ _ _
    exact compareFast_notEqual roundedF64 crate json (plain a inA)
  · intro a inA b inB _ _ _
    rw [equal a inA b inB,compareFast_order roundedF64 crate json (by simp),
      compareFast_order roundedF64 crate json (by simp)]
    cases partialCmpBy roundedF64 a b with
    | none => rfl
    | some o => cases o <;> rfl
  · intro a inA b inB _ _ _
    rw [equal a inA b inB,compareFast_order roundedF64 crate json (by simp),
      compareFast_order roundedF64 crate json (by simp)]
    cases partialCmpBy roundedF64 a b with
    | none => rfl
    | some o => cases o <;> rfl

private theorem apart_of_lawful {crate : TextCrates} {json : Index.JsonCodec} {values : Set Value}
    (lawful : Lawful crate json values) (inA : a ∈ values) (inB : b ∈ values) (plainA : Plain a)
    (plainB : Plain b) : Apart a b := by
  intro differ m n readA readB float
  by_contra narrow
  have present {v : Value} {m : Int} (read : integer? v = some m) : v ≠ .null := by
    rintro rfl
    exact absurd read nofun
  have order : partialCmpBy roundedF64 a b = some .eq := by
    rw [partialCmp_reading Binary64.ofInt plainA plainB,reading_integer readA,reading_integer readB,Reading.cmp,if_neg]
    · rw [Binary64.partialCmp_ofInt,float,compare_eq_iff_eq.mpr rfl]
    · rwa [Bool.and_eq_true]
  obtain ⟨op,⟨one,holds⟩,_⟩ := lawful.trichotomy a inA b inB (present readA) (present readB)
    (by rw [order]; exact nofun)
  have cases : op = .lessThan ∨ op = .equal ∨ op = .greaterThan := by simpa using one
  rcases cases with rfl | rfl | rfl
  · rw [compareFast_order roundedF64 crate json (by simp),order] at holds
    exact absurd holds (by decide)
  · exact differ ((compareFast_equal roundedF64 crate json plainA plainB).mp holds)
  · rw [compareFast_order roundedF64 crate json (by simp),order] at holds
    exact absurd holds (by decide)

/-- The comparison is lawful on the values between which the floats of integers decide nothing. -/
theorem lawful_iff (crate : TextCrates) (json : Index.JsonCodec) (values : Set Value) :
    Lawful crate json {value ∈ values | Plain value} ↔ ∀ a ∈ values, ∀ b ∈ values, Plain a → Plain b → Apart a b := by
  constructor
  · intro lawful a inA b inB plainA plainB
    exact apart_of_lawful lawful ⟨inA,plainA⟩ ⟨inB,plainB⟩ plainA plainB
  · intro apart
    exact laws crate json (fun _ member => member.2) fun a inA b inB => apart a inA.1 b inB.1 inA.2 inB.2

/-- A narrow and a wide integer of one number are neither less nor equal nor greater. -/
theorem five_unordered : ¬ ∃ crate json, Lawful crate json {value | Plain value} := by
  rintro ⟨crate,json,lawful⟩
  have apart := apart_of_lawful lawful (Plain.int8 5) (Plain.int64 5) (.int8 5) (.int64 5)
  exact absurd (apart nofun 5 5 rfl rfl rfl).1 (by decide)

end ApexBase.Query.ColumnFilter
