import ApexBase.Index.Sync

/-! Looking rows up in an index, `IndexManager::lookup`, and what the predicate of a hint means.
Numbers of SQL compare by value whatever their types are; keys of different kinds compare by kind. -/
namespace ApexBase.Index
open Data Library Library.Assoc

inductive PredicateHint
  | eq (value : Value)
  | range (low high : Value)
  | gt (value : Value)
  | gte (value : Value)
  | lt (value : Value)
  | lte (value : Value)
  | isIn (values : List Value)

def PredicateHint.literals : PredicateHint → List Value
  | .eq value | .gt value | .gte value | .lt value | .lte value => [value]
  | .range low high => [low,high]
  | .isIn values => values

def PredicateHint.isRange : PredicateHint → Bool
  | .eq _ | .isIn _ => false
  | .range _ _ | .gt _ | .gte _ | .lt _ | .lte _ => true

inductive Outcome
  /-- `BTreeMap::range` with a start behind its end. -/
  | panicked
  | unanswered
  | found (rowIds : List UInt64)
  deriving DecidableEq

def IndexMeta.isComposite (def_ : IndexMeta) : Bool := 1 < def_.columns.length

namespace IndexInstance

def scan (index : IndexInstance) (test : IndexKey → Bool) : List UInt64 :=
  (index.entries.filter fun entry => test entry.1).flatMap Prod.snd

/-- `rooted` says whether the map has a root node, as it has from its first entry on, also when that is gone again;
without one `BTreeMap::range` does not look at the bounds. -/
def rangeInclusive (rooted : Bool) (index : IndexInstance) (start end_ : IndexKey) : Outcome :=
  if rooted && start.cmp end_ == .gt then .panicked else .found (index.scan fun key => key.cmp start != .lt &&
    key.cmp end_ != .gt)

def greaterThan (index : IndexInstance) (bound : IndexKey) : Outcome :=
  .found (index.scan fun key => key.cmp bound != .lt && key.cmp bound == .gt)

def greaterThanOrEqual (index : IndexInstance) (bound : IndexKey) :
    Outcome := .found (index.scan fun key => key.cmp bound != .lt)

def lessThan (index : IndexInstance) (bound : IndexKey) : Outcome := .found (index.scan fun key => key.cmp bound == .lt)

def lessThanOrEqual (index : IndexInstance) (bound : IndexKey) :
    Outcome := .found (index.scan fun key => key.cmp bound != .gt)

def ofBTree (index : IndexInstance) (result : Outcome) : Outcome :=
  match index.indexType with
  | .btree => result
  | .hash => .unanswered

def answer (json : JsonCodec) (rooted : Bool) (index : IndexInstance) : PredicateHint → Outcome
  | .eq value => .found (index.get (.fromValue json value))
  | .range low high => index.ofBTree (index.rangeInclusive rooted (.fromValue json low) (.fromValue json high))
  | .gt value => index.ofBTree (index.greaterThan (.fromValue json value))
  | .gte value => index.ofBTree (index.greaterThanOrEqual (.fromValue json value))
  | .lt value => index.ofBTree (index.lessThan (.fromValue json value))
  | .lte value => index.ofBTree (index.lessThanOrEqual (.fromValue json value))
  | .isIn values => .found (values.flatMap fun value => index.get (.fromValue json value))

end IndexInstance

namespace IndexManager

/-- The names `column_index_map` has for a column, in the order of the catalog, with composite indexes left out. -/
def usable (manager : IndexManager) (column : String) : List (String × IndexMeta) :=
  manager.allIndexes.filter fun entry => entry.2.effectiveColumns.contains column && !entry.2.isComposite

/-- Equality prefers a hash index, a range needs a B-tree. -/
def selectBestIndex (manager : IndexManager) (column : String) (hint : PredicateHint) : Option (String × IndexMeta) :=
  if hint.isRange then (manager.usable column).find? fun entry => entry.2.indexType == .btree
  else ((manager.usable column).find? fun entry => entry.2.indexType == .hash).or (manager.usable column).head?

/-- `rooted` says of each index whether its map has a root node. -/
def lookup (json : JsonCodec) (rooted : String → Bool) (files : IndexFiles) (column : String) (hint : PredicateHint)
    (manager : IndexManager) : Outcome × IndexManager :=
  match manager.selectBestIndex column hint with
  | none => (.unanswered,manager)
  | some (name,def_) =>
    let index := manager.ensureLoaded files name def_
    (index.answer json (rooted name) hint, manager.setInstance name index)

def hasSingleColumnIndexOn (manager : IndexManager) (column : String) : Bool := manager.usable column != []

end IndexManager

/-- Whether an equality index proves that no row has the value. -/
def indexEqualityMatchesNoRows (json : JsonCodec) (rooted : String → Bool) (stale : Bool) (state : Indexed)
    (column : String)
    (value : Value) : Bool :=
  if stale then false
  else if !state.manager.hasSingleColumnIndexOn column then false
  else
    match (state.manager.lookup json rooted state.files column (.eq value)).1 with
    | .found rowIds => rowIds == []
    | _ => false

/-! The meaning of a predicate. -/

inductive Datum
  /-- NULL, NaN and lists compare with nothing. -/
  | unordered
  | bool (value : Bool)
  /-- A multiple of `2^-1074`. -/
  | number (scaled : Int)
  | text (value : String)
  | bytes (value : List UInt8)
  deriving DecidableEq

def Datum.ofFloat (bits : UInt64) : Datum := if Binary64.isNan bits then .unordered else .number (Binary64.scaled bits)

def Datum.ofInt (value : Int) : Datum := .number (Binary64.scaledInt value)

def Datum.ofValue (json : JsonCodec) : Value → Datum
  | .null | .array _ | .fixedList _ => .unordered
  | .bool value => .bool value
  | .int8 value => .ofInt value.toInt
  | .int16 value => .ofInt value.toInt
  | .int32 value => .ofInt value.toInt
  | .int64 value | .timestamp value | .time value | .interval value => .ofInt value.toInt
  | .date value => .ofInt value.toInt
  | .uint8 value => .ofInt value.toNat
  | .uint16 value => .ofInt value.toNat
  | .uint32 value => .ofInt value.toNat
  | .uint64 value => .ofInt value.toNat
  | .float32 bits => .ofFloat (Float32.ofBits bits).toFloat.toBits
  | .float64 bits => .ofFloat bits
  | .string value => .text value
  | .json value => .text (json.text value)
  | .binary value | .blob value => .bytes value

def Datum.compare? : Datum → Datum → Option Ordering
  | .bool a,.bool b => some (compare a b)
  | .number a,.number b => some (compare a b)
  | .text a,.text b => some (compare a b)
  | .bytes a,.bytes b => some (compare a b)
  | _,_ => none

def PredicateHint.holds (json : JsonCodec) (value : Value) : PredicateHint → Bool
  | .eq literal => (Datum.ofValue json value).compare? (.ofValue json literal) == some .eq
  | .gt literal => (Datum.ofValue json value).compare? (.ofValue json literal) == some .gt
  | .gte literal => ((Datum.ofValue json value).compare? (.ofValue json literal)).any (· != .lt)
  | .lt literal => (Datum.ofValue json value).compare? (.ofValue json literal) == some .lt
  | .lte literal => ((Datum.ofValue json value).compare? (.ofValue json literal)).any (· != .gt)
  | .range low high => ((Datum.ofValue json value).compare? (.ofValue json low)).any (· != .lt) &&
      ((Datum.ofValue json value).compare? (.ofValue json high)).any (· != .gt)
  | .isIn literals => literals.any fun literal => (Datum.ofValue json value).compare?
    (.ofValue json literal) == some .eq

/-! Which values an index misses. -/

/-- The kinds of keys whose values SQL compares with each other are the integers and the floats. -/
def Scalar.isInteger : Scalar → Bool
  | .int _ | .uint _ => true
  | _ => false

def Scalar.isFloat : Scalar → Bool
  | .float _ => true
  | _ => false

def Scalar.signed : Scalar → Bool
  | .float bits => Binary64.negative bits
  | _ => false

/-- An index finds a value of SQL that is equal to the literal: a B-tree unless one is an integer and the other
a float, a hash index if they have the same kind and sign. -/
def IndexType.equates : IndexType → Scalar → Scalar → Bool
  | .btree,row,literal => !(row.isInteger && literal.isFloat) && !(row.isFloat && literal.isInteger)
  | .hash,row,literal => row.discIndex == literal.discIndex && row.signed == literal.signed

def PredicateHint.finds (json : JsonCodec) (type : IndexType) (value : Value) : PredicateHint → Bool
  | .eq literal => type.equates (.fromValue json value) (.fromValue json literal)
  | .gt literal | .gte literal => !((Scalar.fromValue json value).isInteger && (Scalar.fromValue json literal).isFloat)
  | .lt literal | .lte literal => !((Scalar.fromValue json value).isFloat && (Scalar.fromValue json literal).isInteger)
  | .range low high => !((Scalar.fromValue json value).isInteger && (Scalar.fromValue json low).isFloat) &&
      !((Scalar.fromValue json value).isFloat && (Scalar.fromValue json high).isInteger)
  | .isIn literals => literals.any fun literal =>
      (PredicateHint.eq literal).holds json value && type.equates (.fromValue json value) (.fromValue json literal)

def PredicateHint.ordered (json : JsonCodec) : PredicateHint → Bool
  | .range low high => (Scalar.fromValue json low).cmp (.fromValue json high) != .gt
  | _ => true

section Compare

def Scalar.datum : Scalar → Datum
  | .null => .unordered
  | .bool value => .bool value
  | .int value => .ofInt value.toInt
  | .uint value => .ofInt value.toNat
  | .float bits => .ofFloat bits
  | .str value => .text value
  | .bytes value => .bytes value

theorem datum_fromValue (json : JsonCodec) (value : Value) :
    (Scalar.fromValue json value).datum = .ofValue json value := by
  cases value with
  | int8 value => exact congrArg Datum.ofInt (by simp)
  | int16 value => exact congrArg Datum.ofInt (by simp)
  | int32 value => exact congrArg Datum.ofInt (by simp)
  | date value => exact congrArg Datum.ofInt (by simp)
  | uint8 value => exact congrArg Datum.ofInt (by simp)
  | uint16 value => exact congrArg Datum.ofInt (by simp)
  | uint32 value => exact congrArg Datum.ofInt (by simp)
  | _ => rfl

theorem compare_natCast (a b : Nat) : compare (a : Int) b = compare a b := by
  rcases lt_trichotomy a b with less | equal | greater
  · rw [compare_lt_iff_lt.mpr less,compare_lt_iff_lt.mpr (Int.ofNat_lt.mpr less)]
  · rw [equal,compare_eq_iff_eq.mpr rfl,compare_eq_iff_eq.mpr rfl]
  · rw [compare_gt_iff_gt.mpr greater,compare_gt_iff_gt.mpr (Int.ofNat_lt.mpr greater)]

variable {row literal : Scalar} {order : Ordering}

theorem cmp_of_compare? (proper : row.proper = true) (proper' : literal.proper = true)
    (compared : row.datum.compare? literal.datum = some order) :
    row.cmp literal = if row.isInteger && literal.isFloat then .lt else if row.isFloat && literal.isInteger then .gt
      else order := by
  cases row <;> cases literal <;>
    simp_all [Scalar.datum,Datum.compare?,Datum.ofInt,Datum.ofFloat,Scalar.cmp,Scalar.isInteger,Scalar.isFloat,
      Scalar.discIndex,Scalar.proper,
      Binary64.compare_scaled,Binary64.compare_scaledInt,Binary64.partialCmp,compare_natCast]
  -- what is left compares an integer with a float by kind
  all_goals rfl

theorem float_equates {a b : UInt64} (signs : Binary64.negative a = Binary64.negative b)
    (compared : (Datum.ofFloat a).compare? (.ofFloat b) = some .eq) : a = b := by
  unfold Datum.ofFloat at compared
  split at compared
  · cases compared
  · split at compared
    · cases compared
    · have ranks := Option.some.inj compared
      rw [Binary64.compare_scaled,compare_eq_iff_eq] at ranks
      exact Binary64.eq_of_rank ranks signs

theorem equates_iff (type : IndexType) (proper : type.accepts (.scalar row) = true)
    (proper' : type.accepts (.scalar literal) = true)
    (compared : row.datum.compare? literal.datum = some .eq) :
    type.same (.scalar row) (.scalar literal) = true ↔ type.equates row literal = true := by
  cases type with
  | btree =>
    rw [IndexType.same,IndexKey.cmp,cmp_of_compare? proper proper' compared,IndexType.equates]
    cases row.isInteger && literal.isFloat <;> cases row.isFloat && literal.isInteger <;> simp
  | hash =>
    rw [IndexType.same,decide_eq_true_iff,IndexKey.scalar.injEq,IndexType.equates,Bool.and_eq_true,beq_iff_eq,
      beq_iff_eq]
    constructor
    · rintro rfl
      exact ⟨rfl,rfl⟩
    · rintro ⟨kind,sign⟩
      cases row <;> cases literal <;> try cases kind
      case hash.mpr.null.null.refl => rfl
      case hash.mpr.float.float.refl a b => rw [float_equates sign compared]
      all_goals simp only [Scalar.datum,Datum.compare?,Datum.ofInt,Binary64.compare_scaledInt,
        Option.some.injEq] at compared
      case hash.mpr.uint.uint.refl a b => rw [UInt64.toNat_inj.mp (Int.ofNat_inj.mp (compare_eq_iff_eq.mp compared))]
      case hash.mpr.int.int.refl a b => rw [Int64.toInt_inj.mp (compare_eq_iff_eq.mp compared)]
      all_goals rw [Std.LawfulEqOrd.eq_of_compare compared]

theorem compare?_self (ordered : row.datum ≠ .unordered) : row.datum.compare? row.datum = some .eq := by
  generalize row.datum = datum at ordered
  cases datum with
  | unordered => exact absurd rfl ordered
  | _ => exact congrArg some (Std.ReflCmp.compare_self)

theorem compare?_of_same (type : IndexType) (proper : type.accepts (.scalar row) = true)
    (proper' : type.accepts (.scalar literal) = true) (ordered : row.datum ≠ .unordered)
    (same : type.same (.scalar row) (.scalar literal) = true) :
    row.datum.compare? literal.datum = some .eq := by
  cases type with
  | btree =>
    simp only [IndexType.accepts,IndexKey.numeric] at proper proper'
    rw [IndexType.same,IndexKey.cmp,beq_iff_eq,cmp_eq proper proper'] at same
    cases row <;> cases literal <;>
      simp_all [Scalar.measure,Scalar.datum,Datum.compare?,Datum.ofInt,Datum.ofFloat,Scalar.proper,
        Binary64.compare_scaled]
  | hash =>
    rw [IndexType.same,decide_eq_true_iff,IndexKey.scalar.injEq] at same
    rw [← same]
    exact compare?_self ordered

theorem cmp_congr {a b : Scalar} (first : a.proper = true) (second : b.proper = true) (same : a.cmp b = .eq)
    (c : Scalar) :
    a.cmp c = b.cmp c := by
  rw [cmp_eq first second] at same
  cases a <;> cases b <;> simp only [Scalar.measure,reduceCtorEq,Measure.bool.injEq,Measure.number.injEq,
    Measure.float.injEq,Measure.str.injEq,
    Measure.bytes.injEq] at same
  case null => rfl
  case float a b =>
    simp only [Scalar.proper,Bool.not_eq_true'] at first second
    cases c <;> simp [Scalar.cmp,Binary64.partialCmp,first,second,same,Scalar.discIndex]
  all_goals cases c <;> simp [Scalar.cmp,same,Scalar.discIndex,← compare_natCast]
  all_goals rfl

end Compare

def PredicateHint.hits (json : JsonCodec) (type : IndexType) (key : IndexKey) : PredicateHint → Bool
  | .eq literal => type.same key (.fromValue json literal)
  | .isIn literals => literals.any fun literal => type.same key (.fromValue json literal)
  | .range low high => key.cmp (.fromValue json low) != .lt && key.cmp (.fromValue json high) != .gt
  | .gt literal => key.cmp (.fromValue json literal) != .lt && key.cmp (.fromValue json literal) == .gt
  | .gte literal => key.cmp (.fromValue json literal) != .lt
  | .lt literal => key.cmp (.fromValue json literal) == .lt
  | .lte literal => key.cmp (.fromValue json literal) != .gt

section Search

variable {json : JsonCodec} {rooted : Bool} {def_ : IndexMeta} {index : IndexInstance} {live : UInt64 → Option Row}
    {rowId : UInt64}

theorem mem_get (good : Good json def_ live index) {key : IndexKey} (accepted : def_.indexType.accepts key = true) :
    rowId ∈ index.get key ↔ ∃ own, keyOf json def_ live rowId = some own ∧ def_.indexType.same own key = true := by
  rw [← List.count_pos_iff,good.sync key accepted rowId,posted]
  cases keyOf json def_ live rowId with
  | none => simp
  | some own =>
    rw [Option.any_some]
    cases same : def_.indexType.same own key <;> simp [same]

theorem mem_scan (good : Good json def_ live index) (fits : Fitting json live def_) (test : IndexKey → Bool)
    (respects : ∀ a b, def_.indexType.accepts a = true → def_.indexType.accepts b = true →
      def_.indexType.same a b = true → test a = test b) :
    rowId ∈ index.scan test ↔ ∃ own, keyOf json def_ live rowId = some own ∧ test own = true := by
  unfold IndexInstance.scan
  rw [List.mem_flatMap]
  constructor
  · rintro ⟨entry,member,there⟩
    obtain ⟨inside,passed⟩ := List.mem_filter.mp member
    have accepted := good.distinct.proper entry inside
    rw [← Postings.ids_of_mem (lawful _) good.distinct inside,← good.get,mem_get good accepted] at there
    obtain ⟨own,keyed,same⟩ := there
    exact ⟨own,keyed,(respects own entry.1 (fits.accepts rowId own keyed) accepted same).trans passed⟩
  · rintro ⟨own,keyed,passed⟩
    have accepted := fits.accepts rowId own keyed
    have there := (mem_get good accepted).mpr ⟨own,keyed,(lawful _).refl own accepted⟩
    rw [good.get] at there
    obtain ⟨entry,inside,same,found⟩ := Postings.mem_ids there
    refine ⟨entry,List.mem_filter.mpr ⟨inside,?_⟩,found⟩
    rw [respects entry.1 own (good.distinct.proper entry inside) accepted same]
    exact passed

theorem key_cmp_congr {a b : IndexKey} (first : a.numeric = true) (second : b.numeric = true)
    (same : IndexType.btree.same a b = true) (bound : Scalar) :
    a.cmp (.scalar bound) = b.cmp (.scalar bound) := by
  rw [IndexType.same,beq_iff_eq] at same
  cases a with
  | scalar a =>
    cases b with
    | scalar b => exact cmp_congr first second same bound
    | tuple w b => cases same
  | tuple v a =>
    cases b with
    | scalar b => cases same
    | tuple w b => rfl

theorem mem_scan_bounds (good : Good json def_ live index) (fits : Fitting json live def_)
    (btree : def_.indexType = .btree)
    (test : (Scalar → Ordering) → Bool) :
    rowId ∈ index.scan (fun key => test fun bound => key.cmp (.scalar bound)) ↔
      ∃ own, keyOf json def_ live rowId = some own ∧ test (fun bound => own.cmp (.scalar bound)) = true := by
  refine mem_scan good fits (fun key => test fun bound => key.cmp (.scalar bound)) fun a b first second same => ?_
  rw [btree] at first second same
  congr 1
  funext bound
  exact key_cmp_congr first second same bound

theorem answer_found (good : Good json def_ live index) (fits : Fitting json live def_) (hint : PredicateHint)
    (literals : ∀ value ∈ hint.literals, def_.indexType.accepts (.fromValue json value) = true)
    (suits : hint.isRange = true → def_.indexType = .btree)
    (ordered : rooted = true → hint.ordered json = true) :
    ∃ rowIds, index.answer json rooted hint = .found rowIds ∧
      ∀ rowId, rowId ∈ rowIds ↔ ∃ own, keyOf json def_ live rowId = some own ∧
      hint.hits json def_.indexType own = true := by
  have scans : hint.isRange = true → ∀ result, index.ofBTree result = result := fun range result => by
    rw [IndexInstance.ofBTree,good.type,suits range]
  cases hint with
  | eq literal => exact ⟨_,rfl,fun rowId => mem_get good (literals literal List.mem_cons_self)⟩
  | isIn values =>
    refine ⟨_,rfl,fun rowId => ?_⟩
    rw [List.mem_flatMap]
    constructor
    · rintro ⟨value,member,there⟩
      obtain ⟨own,keyed,same⟩ := (mem_get good (literals value member)).mp there
      exact ⟨own,keyed,List.any_eq_true.mpr ⟨value,member,same⟩⟩
    · rintro ⟨own,keyed,passed⟩
      obtain ⟨value,member,same⟩ := List.any_eq_true.mp passed
      exact ⟨value,member,(mem_get good (literals value member)).mpr ⟨own,keyed,same⟩⟩
  | range low high =>
    have within : ¬ (rooted && (IndexKey.fromValue json low).cmp (.fromValue json high) == .gt) = true := by
      simpa [PredicateHint.ordered, IndexKey.fromValue, IndexKey.cmp] using ordered
    refine ⟨_,by rw [IndexInstance.answer,scans rfl,IndexInstance.rangeInclusive,if_neg within],fun rowId => ?_⟩
    exact mem_scan_bounds good fits (suits rfl) fun cmp => cmp (.fromValue json low) != .lt &&
      cmp (.fromValue json high) != .gt
  | gt value =>
    refine ⟨_,by rw [IndexInstance.answer,scans rfl,IndexInstance.greaterThan],fun rowId => ?_⟩
    exact mem_scan_bounds good fits (suits rfl) fun cmp => cmp (.fromValue json value) != .lt &&
      cmp (.fromValue json value) == .gt
  | gte value =>
    refine ⟨_,by rw [IndexInstance.answer,scans rfl,IndexInstance.greaterThanOrEqual],fun rowId => ?_⟩
    exact mem_scan_bounds good fits (suits rfl) fun cmp => cmp (.fromValue json value) != .lt
  | lt value =>
    refine ⟨_,by rw [IndexInstance.answer,scans rfl,IndexInstance.lessThan],fun rowId => ?_⟩
    exact mem_scan_bounds good fits (suits rfl) fun cmp => cmp (.fromValue json value) == .lt
  | lte value =>
    refine ⟨_,by rw [IndexInstance.answer,scans rfl,IndexInstance.lessThanOrEqual],fun rowId => ?_⟩
    exact mem_scan_bounds good fits (suits rfl) fun cmp => cmp (.fromValue json value) != .gt

theorem answer_panics (good : Good json def_ live index) (hint : PredicateHint)
    (suits : hint.isRange = true → def_.indexType = .btree)
    (unordered : hint.ordered json = false) : index.answer json true hint = .panicked := by
  cases hint with
  | range low high =>
    have beyond : ((IndexKey.fromValue json low).cmp (.fromValue json high) == .gt) = true := by
      simpa [PredicateHint.ordered,IndexKey.fromValue,IndexKey.cmp] using unordered
    rw [IndexInstance.answer,IndexInstance.ofBTree,good.type,suits rfl]
    exact if_pos beyond
  | _ => cases unordered

theorem Scalar.exclusive (key : Scalar) : key.isInteger = false ∨ key.isFloat = false := by
  cases key with
  | float bits => exact .inl rfl
  | _ => exact .inr rfl

theorem above_iff {order : Ordering} {low high : Bool} (above : (order != .lt) = true) :
    ((if low then .lt else if high then .gt else order) != .lt) = !low := by
  cases low <;> cases high <;> simp_all

theorem below_iff {order : Ordering} {row literal : Scalar} (exclusive : row.isInteger = false ∨ row.isFloat = false)
    (below : (order != .gt) = true) :
    ((if row.isInteger && literal.isFloat then .lt else if row.isFloat && literal.isInteger then .gt
      else order) != .gt) =
      !(row.isFloat && literal.isInteger) := by
  rcases exclusive with integer | float
  · rw [integer]
    cases row.isFloat && literal.isInteger <;> simp_all
  · rw [float]
    cases row.isInteger && literal.isFloat <;> simp_all

theorem hits_iff_finds (type : IndexType) (hint : PredicateHint) {value : Value}
    (accepted : type.accepts (.fromValue json value) = true)
    (literals : ∀ literal ∈ hint.literals, type.accepts (.fromValue json literal) = true)
    (suits : hint.isRange = true → type = .btree)
    (selected : hint.holds json value = true) :
    hint.hits json type (.fromValue json value) = true ↔ hint.finds json type value = true := by
  have compared : ∀ literal ∈ hint.literals, type = .btree → ∀ order,
    (Datum.ofValue json value).compare? (.ofValue json literal) = some order →
      (Scalar.fromValue json value).cmp (.fromValue json literal) =
        if (Scalar.fromValue json value).isInteger && (Scalar.fromValue json literal).isFloat then .lt
        else if (Scalar.fromValue json value).isFloat && (Scalar.fromValue json literal).isInteger then .gt
          else order := by
    rintro literal member rfl order found
    rw [← datum_fromValue,← datum_fromValue] at found
    exact cmp_of_compare? accepted (literals literal member) found
  have equal : ∀ literal ∈ hint.literals, (PredicateHint.eq literal).holds json value = true →
      (type.same (.fromValue json value) (.fromValue json literal) = true ↔
        type.equates (.fromValue json value) (.fromValue json literal) = true) := by
    intro literal member found
    rw [PredicateHint.holds,beq_iff_eq,← datum_fromValue,← datum_fromValue] at found
    exact equates_iff type accepted (literals literal member) found
  cases hint with
  | eq literal => exact equal literal List.mem_cons_self selected
  | isIn values =>
    rw [PredicateHint.hits,PredicateHint.finds,List.any_eq_true,List.any_eq_true]
    constructor
    · rintro ⟨literal,member,same⟩
      have selects : (PredicateHint.eq literal).holds json value = true := by
        rw [PredicateHint.holds,beq_iff_eq,← datum_fromValue,← datum_fromValue]
        refine compare?_of_same type accepted (literals literal member) (fun none_ => ?_) same
        rw [datum_fromValue] at none_
        simp only [PredicateHint.holds,none_] at selected
        obtain ⟨_,-,never⟩ := List.any_eq_true.mp selected
        cases never
      refine ⟨literal,member,?_⟩
      rw [selects,(equal literal member selects).mp same]
      rfl
    · rintro ⟨literal,member,both⟩
      rw [Bool.and_eq_true] at both
      exact ⟨literal,member,(equal literal member both.1).mpr both.2⟩
  | range low high =>
    simp only [PredicateHint.holds,Bool.and_eq_true,Option.any_eq_true] at selected
    obtain ⟨⟨one,found,above⟩,⟨two,found',below⟩⟩ := selected
    have first := compared low List.mem_cons_self (suits rfl) one found
    have second := compared high (List.mem_cons_of_mem _ List.mem_cons_self) (suits rfl) two found'
    rw [PredicateHint.hits,PredicateHint.finds,IndexKey.fromValue,IndexKey.fromValue,IndexKey.fromValue,IndexKey.cmp,
      IndexKey.cmp,first,second]
    rw [above_iff above,below_iff (Scalar.exclusive _) below]
  | gt literal =>
    rw [PredicateHint.holds,beq_iff_eq] at selected
    rw [PredicateHint.hits,PredicateHint.finds,IndexKey.fromValue,IndexKey.fromValue,IndexKey.cmp,
      compared literal List.mem_cons_self (suits rfl) _ selected]
    cases (Scalar.fromValue json value).isInteger && (Scalar.fromValue json literal).isFloat <;> simp
  | gte literal =>
    rw [PredicateHint.holds,Option.any_eq_true] at selected
    obtain ⟨order,found,above⟩ := selected
    rw [PredicateHint.hits,PredicateHint.finds,IndexKey.fromValue,IndexKey.fromValue,IndexKey.cmp,
      compared literal List.mem_cons_self (suits rfl) _ found,
      above_iff above]
  | lt literal =>
    rw [PredicateHint.holds,beq_iff_eq] at selected
    rw [PredicateHint.hits,PredicateHint.finds,IndexKey.fromValue,IndexKey.fromValue,IndexKey.cmp,
      compared literal List.mem_cons_self (suits rfl) _ selected]
    rcases Scalar.exclusive (Scalar.fromValue json value) with integer | float
    · rw [integer]
      cases (Scalar.fromValue json value).isFloat && (Scalar.fromValue json literal).isInteger <;> simp
    · rw [float]
      cases (Scalar.fromValue json value).isInteger && (Scalar.fromValue json literal).isFloat <;> simp
  | lte literal =>
    rw [PredicateHint.holds,Option.any_eq_true] at selected
    obtain ⟨order,found,below⟩ := selected
    rw [PredicateHint.hits,PredicateHint.finds,IndexKey.fromValue,IndexKey.fromValue,IndexKey.cmp,
      compared literal List.mem_cons_self (suits rfl) _ found,
      below_iff (Scalar.exclusive _) below]

end Search

section Manager

variable {json : JsonCodec} {rooted : String → Bool} {state : Indexed} {column : String} {hint : PredicateHint}
    {name : String} {def_ : IndexMeta}

def columnValue (live : UInt64 → Option Row) (column : String) (rowId : UInt64) :
    Option Value := (live rowId).bind fun row => row.lookup column

theorem mem_usable {manager : IndexManager} (member : (name,def_) ∈ manager.usable column) :
    manager.catalog.lookup name = some def_ ∧ def_.effectiveColumns = [column] := by
  obtain ⟨held,passed⟩ := List.mem_filter.mp member
  refine ⟨mem_allIndexes.mp held,?_⟩
  rw [Bool.and_eq_true,List.contains_iff_mem,Bool.not_eq_true',IndexMeta.isComposite,decide_eq_false_iff_not,
    Nat.not_lt] at passed
  obtain ⟨inside,single⟩ := passed
  unfold IndexMeta.effectiveColumns at inside ⊢
  split at inside
  · rename_i empty
    rw [if_pos empty,List.mem_singleton.mp inside]
  · rename_i some_
    rw [if_neg some_]
    obtain ⟨only,columns⟩ := List.length_eq_one_iff.mp (Nat.le_antisymm single (List.length_pos_iff.mpr some_))
    rw [columns] at inside ⊢
    rw [List.mem_singleton.mp inside]

theorem selectBestIndex_spec {manager : IndexManager}
    (selected : manager.selectBestIndex column hint = some (name,def_)) :
    (name,def_) ∈ manager.usable column ∧ (hint.isRange = true → def_.indexType = .btree) := by
  unfold IndexManager.selectBestIndex at selected
  split at selected
  · exact ⟨List.mem_of_find?_eq_some selected,fun _ => by simpa using List.find?_some selected⟩
  · rename_i exact_
    refine ⟨?_,fun range => absurd range exact_⟩
    rcases Option.or_eq_some_iff.mp selected with hash | ⟨-,first⟩
    · exact List.mem_of_find?_eq_some hash
    · exact List.mem_of_head? first

theorem keyOf_single {live : UInt64 → Option Row} (columns : def_.effectiveColumns = [column]) (rowId : UInt64) :
    keyOf json def_ live rowId = (columnValue live column rowId).map (IndexKey.fromValue json) := by
  unfold keyOf columnValue
  rw [columns]
  cases live rowId <;> rfl

/-- No panic, no row missed, and an equality that is said to match nothing matches nothing. -/
def NeverMisses (json : JsonCodec) (rooted : String → Bool) (state : Indexed) (column : String) (hint : PredicateHint) :
    Prop :=
  (state.manager.lookup json rooted state.files column hint).1 ≠ .panicked ∧
  (∀ rowIds, (state.manager.lookup json rooted state.files column hint).1 = .found rowIds →
    ∀ rowId value, columnValue (fun rowId => state.rows.lookup rowId) column rowId = some value →
    hint.holds json value = true → rowId ∈ rowIds) ∧
  (∀ stale literal, hint = .eq literal → indexEqualityMatchesNoRows json rooted stale state column literal = true →
    ∀ rowId value, columnValue (fun rowId => state.rows.lookup rowId) column rowId = some value →
    hint.holds json value = false)

/-- The index for the hint can find what the hint selects: the bounds of a range are in order or the
map never had an entry, and every row that the hint selects has a value of a kind that the index
compares with the literals. -/
def Findable (json : JsonCodec) (rooted : String → Bool) (state : Indexed) (column : String) (hint : PredicateHint) :
    Prop :=
  ∀ name def_, state.manager.selectBestIndex column hint = some (name,def_) →
    (rooted name = true → hint.ordered json = true) ∧
    ∀ rowId value, columnValue (fun rowId => state.rows.lookup rowId) column rowId = some value →
    hint.holds json value = true →
      hint.finds json def_.indexType value = true

theorem lookup_none (selected : state.manager.selectBestIndex column hint = none) :
    (state.manager.lookup json rooted state.files column hint).1 = .unanswered := by
  rw [IndexManager.lookup,selected]

theorem lookup_some (selected : state.manager.selectBestIndex column hint = some (name,def_)) :
    (state.manager.lookup json rooted state.files column hint).1 =
    (state.manager.ensureLoaded state.files name def_).answer json (rooted name) hint := by
  rw [IndexManager.lookup,selected]

theorem matchesNoRows_found {stale : Bool} {literal : Value}
    (none_ : indexEqualityMatchesNoRows json rooted stale state column literal = true) :
    (state.manager.lookup json rooted state.files column (.eq literal)).1 = .found [] := by
  unfold indexEqualityMatchesNoRows at none_
  split at none_
  · cases none_
  · split at none_
    · cases none_
    · split at none_
      · rename_i rowIds found
        rw [found,beq_iff_eq.mp none_]
      · cases none_

theorem lookup_spec (kept : Maintained json state)
    (selected : state.manager.selectBestIndex column hint = some (name,def_))
    (numbers : ∀ literal ∈ hint.literals, (Scalar.fromValue json literal).proper = true)
    (ordered : rooted name = true → hint.ordered json = true) :
    ∃ rowIds, (state.manager.lookup json rooted state.files column hint).1 = .found rowIds ∧
      ∀ rowId value, columnValue (fun rowId => state.rows.lookup rowId) column rowId = some value →
      hint.holds json value = true →
        (rowId ∈ rowIds ↔ hint.finds json def_.indexType value = true) := by
  obtain ⟨member,suits⟩ := selectBestIndex_spec selected
  obtain ⟨held,columns⟩ := mem_usable member
  have fits := kept.fits name def_ held
  have literals : ∀ literal ∈ hint.literals, def_.indexType.accepts (.fromValue json literal) = true := by
    intro literal inside
    cases def_.indexType with
    | btree => exact numbers literal inside
    | hash => rfl
  obtain ⟨rowIds,found,mem⟩ := answer_found (kept.kept name def_ held).good fits hint literals suits ordered
  refine ⟨rowIds,(lookup_some selected).trans found,fun rowId value there holds => ?_⟩
  have keyed : keyOf json def_ (fun rowId => state.rows.lookup rowId) rowId = some (.fromValue json value) := by
    rw [keyOf_single columns,there,Option.map_some]
  rw [mem rowId,← hits_iff_finds def_.indexType hint (fits.accepts rowId _ keyed) literals suits holds,keyed]
  constructor
  · rintro ⟨own,same,hit⟩
    cases same
    exact hit
  · exact fun hit => ⟨_,rfl,hit⟩

/-- For indexes in step with the rows, a lookup misses nothing exactly if the index can find what the hint selects. -/
theorem lookup_never_misses_iff (json : JsonCodec) (rooted : String → Bool) {state : Indexed}
    (kept : Maintained json state) (column : String) (hint : PredicateHint)
    (numbers : ∀ literal ∈ hint.literals, (Scalar.fromValue json literal).proper = true) :
    NeverMisses json rooted state column hint ↔ Findable json rooted state column hint := by
  cases selected : state.manager.selectBestIndex column hint with
  | none =>
    have unanswered : (state.manager.lookup json rooted state.files column hint).1 = .unanswered := lookup_none selected
    refine ⟨fun _ name def_ other => ?_,fun _ => ⟨?_,fun rowIds found => ?_,?_⟩⟩
    · rw [selected] at other
      cases other
    · rw [unanswered]
      nofun
    · rw [unanswered] at found
      cases found
    · rintro stale literal rfl none_
      rw [matchesNoRows_found none_] at unanswered
      cases unanswered
  | some best =>
    obtain ⟨name,def_⟩ := best
    obtain ⟨member,suits⟩ := selectBestIndex_spec selected
    by_cases ordered : rooted name = true → hint.ordered json = true
    swap
    · obtain ⟨root, unordered⟩ := Classical.not_imp.mp ordered
      have good := (kept.kept name def_ (mem_usable member).1).good
      have panics : (state.manager.lookup json rooted state.files column hint).1 = .panicked := by
        rw [lookup_some selected, root]
        exact answer_panics good hint suits (Bool.not_eq_true _ ▸ unordered)
      exact ⟨fun never => absurd panics never.1, fun findable => absurd (findable name def_ selected).1 ordered⟩
    · obtain ⟨rowIds,found,mem⟩ := lookup_spec kept selected numbers ordered
      constructor
      · rintro ⟨-,superset,-⟩ name' def_' other
        rw [selected] at other
        cases other
        exact ⟨ordered,fun rowId value there holds => (mem rowId value there holds).mp
          (superset rowIds found rowId value there holds)⟩
      · intro findable
        have all_ := (findable name def_ selected).2
        refine ⟨by rw [found]; nofun,fun others same rowId value there holds => ?_,?_⟩
        · rw [found] at same
          cases same
          exact (mem rowId value there holds).mpr (all_ rowId value there holds)
        · rintro stale literal rfl none_ rowId value there
          rw [matchesNoRows_found none_] at found
          cases found
          rw [← Bool.not_eq_true]
          intro holds
          exact absurd ((mem rowId value there holds).mpr (all_ rowId value there holds)) List.not_mem_nil

end Manager

section Runs

def btreeOnColumn : IndexMeta := ⟨"c",["c"],.btree,false⟩

def floatFive : Value := .float64 0x4014000000000000

def numberTable (value : Value) : Option Indexed :=
  (play (exec noDocuments) (maintained noDocuments) (.created false (AList.insert "idx" btreeOnColumn ∅))
    [.insert 1 (AList.insert "c" value ∅)]).map
    Prod.snd

theorem numberTable_maintained {value : Value} {state : Indexed} (made : numberTable value = some state) :
    Maintained noDocuments state := by
  obtain ⟨⟨trace,final⟩,played,same⟩ := Option.map_eq_some_iff.mp made
  cases same
  exact run_maintained (Run.of_play played)

/-- An integer above an integer literal is found. -/
theorem integer_above_literal_is_found : ∃ state, numberTable (.int64 5) = some state ∧
    NeverMisses noDocuments (fun _ => true) state "c" (.gt (.int64 3)) := by
  have made : (numberTable (.int64 5)).isSome = true := by decide +kernel
  obtain ⟨state,same⟩ := Option.isSome_iff_exists.mp made
  refine ⟨state,same,(lookup_never_misses_iff noDocuments (fun _ => true) (numberTable_maintained same) "c"
    (.gt (.int64 3)) ?_).mpr ?_⟩
  · intro literal inside
    cases List.mem_singleton.mp inside
    rfl
  · exact fun name def_ _ => ⟨fun _ => rfl, fun rowId value _ _ => Bool.not_eq_true' _ ▸ Bool.and_false _⟩

/-- A float is missed by the integer it is equal to, and a range with its bounds the wrong way round ends in a panic. -/
theorem integer_literal_misses_float :
    (∃ state, Maintained noDocuments state ∧
      (state.manager.lookup noDocuments (fun _ => true) state.files "c" (.eq (.int64 5))).1 = .found [] ∧
      indexEqualityMatchesNoRows noDocuments (fun _ => true) false state "c" (.int64 5) = true ∧
      ¬ NeverMisses noDocuments (fun _ => true) state "c" (.eq (.int64 5))) ∧
    (∃ state, Maintained noDocuments state ∧
      (state.manager.lookup noDocuments (fun _ => true) state.files "c" (.range (.int64 10) (.int64 1))).1 = .panicked ∧
      ¬ NeverMisses noDocuments (fun _ => true) state "c" (.range (.int64 10) (.int64 1))) := by
  have facts : ((numberTable floatFive).map fun state =>
      ((state.manager.lookup noDocuments (fun _ => true) state.files "c" (.eq (.int64 5))).1,
        indexEqualityMatchesNoRows noDocuments (fun _ => true) false state "c" (.int64 5),
        (columnValue (fun rowId => state.rows.lookup rowId) "c" 1).map fun value =>
          (PredicateHint.eq (.int64 5)).holds noDocuments value,
        (state.manager.lookup noDocuments (fun _ => true) state.files "c" (.range (.int64 10) (.int64 1))).1)) =
      some (.found [],true,some true,.panicked) := by decide +kernel
  obtain ⟨state,made,facts⟩ := Option.map_eq_some_iff.mp facts
  obtain ⟨found,facts⟩ := Prod.mk.inj facts
  obtain ⟨nothing,facts⟩ := Prod.mk.inj facts
  obtain ⟨selected,panics⟩ := Prod.mk.inj facts
  obtain ⟨value,there,holds⟩ := Option.map_eq_some_iff.mp selected
  have kept := numberTable_maintained made
  refine ⟨⟨state,kept,found,nothing,fun never => ?_⟩,⟨state,kept,panics,fun never => never.1 panics⟩⟩
  exact absurd (never.2.1 [] found 1 value there holds) List.not_mem_nil

end Runs

end ApexBase.Index
