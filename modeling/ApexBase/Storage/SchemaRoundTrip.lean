import ApexBase.Storage.SchemaEdits
import ApexBase.Storage.LossyText

/-! Which schemas come back from their bytes, and that no byte string is read past its end. -/
namespace ApexBase.Storage.Schema
open Data Column Library Library.Wire Library.Wire.Reader

section Bounds

variable {α : Type}

private theorem byte_bind (next : UInt8 → Parser α) :
    byte >>= next = word .panicked 1 >>= fun value => next (UInt8.ofNat value) := by
  unfold byte
  exact bind_map_left UInt8.ofNat (word .panicked 1) next

theorem within_byte {count : Nat} {next : UInt8 → Parser α} (enough : 1 ≤ count)
    (tail : ∀ value, Within .panicked (count - 1) (next value)) : Within .panicked count (byte >>= next) := by
  rw [byte_bind]
  exact within_word enough fun value => tail (UInt8.ofNat value)

theorem never_failed {message : String} : Never .panicked (fail (failed message) : Parser α) := never_fail nofun

theorem never_stop : Never .panicked (stop : Parser (Option α)) := never_pure none

private theorem readText_safe (raw : Bytes) : readText raw ≠ .error .panicked := by
  unfold readText
  split <;> nofun

private theorem never_readColumn : Never .panicked readColumn := by
  refine never_ifRoom (within_word le_rfl fun nameLen => within_ifRoom ?_ never_failed) never_failed
  refine within_take (Nat.le_succ _) fun raw => ?_
  rw [Nat.add_sub_cancel_left]
  refine within_lift (readText_safe raw) fun name => within_byte le_rfl fun tag => Never.within ?_ _
  split
  · exact never_pure _
  · exact never_failed

theorem never_fixed (width : Nat) (value : Nat → α) : Never .panicked (fixed width value) :=
  never_ifRoom (within_word le_rfl fun _ => (never_pure _).within _) never_stop

private theorem never_readDefault : Never .panicked readDefault := by
  refine never_ifRoom (within_word le_rfl fun tag => Never.within ?_ _) never_stop
  split
  case h_3 =>
    refine never_ifRoom (within_word le_rfl fun len => within_ifRoom ?_ never_stop) never_stop
    exact within_take le_rfl fun raw => (never_pure _).within _
  all_goals first | exact never_fixed _ _ | exact never_pure _

private theorem never_readCheck : Never .panicked readCheck := by
  refine never_ifRoom (within_word le_rfl fun len => ?_) never_stop
  split
  · exact within_ifRoom (within_take le_rfl fun raw => (never_pure _).within _) never_stop
  · exact (never_pure _).within _

private theorem never_readForeignKey : Never .panicked readForeignKey := by
  refine never_ifRoom (within_word le_rfl fun tableLen => ?_) never_stop
  split
  · refine within_ifRoom (within_take le_rfl fun table => ?_) never_stop
    refine within_ifRoom (within_word le_rfl fun columnLen => ?_) never_stop
    exact within_ifRoom (within_take le_rfl fun column => (never_pure _).within _) never_stop
  · exact (never_pure _).within _

private theorem never_readConstraints (count : Nat) (schema : OnDemandSchema) :
    Never .panicked (readConstraints count schema) := by
  unfold readConstraints
  split
  · refine never_ifRoom (within_take le_rfl fun flags => Never.within ?_ _) (never_pure schema)
    refine (never_marked (never_upTo never_readDefault count)).bind fun defaults => ?_
    refine (never_marked (never_upTo never_readCheck count)).bind fun checks => ?_
    refine (never_marked (never_upTo never_readForeignKey count)).bind fun keys => ?_
    exact never_pure _
  · exact never_pure schema

private theorem never_readName : Never .panicked readName := by
  refine never_ifRoom (within_word le_rfl fun len => within_ifRoom ?_ never_failed) never_failed
  exact within_take le_rfl fun raw => (never_lift (readText_safe raw)).within _

private theorem never_readDerivation {schema : OnDemandSchema} (placed : Placed schema) :
    Never .panicked (readDerivation schema) := by
  refine never_readName.bind fun source => never_readName.bind fun target => ?_
  have version : Never .panicked (ifRoom 2 (word .panicked 2) (fail (failed "Truncated vector codec version"))) :=
    never_ifRoom (within_word_last 2) never_failed
  exact version.bind fun codecVersion => never_lift (addVectorDerivation_safe placed)

private theorem returns_readDerivation {schema : OnDemandSchema} :
    Returns (fun next => ∃ more, next = {schema with vectorDerivations := schema.vectorDerivations ++ [more]})
      (readDerivation schema) := by
  refine Returns.then fun source => Returns.then fun target => Returns.then fun codecVersion => ?_
  intro bytes next rest ok
  obtain ⟨_,_,rfl⟩ := addVectorDerivation_cases (of_lift ok)
  exact ⟨_,rfl⟩

private theorem never_readDerivations {schema : OnDemandSchema} (placed : Placed schema) (count : Nat) :
    Never .panicked (readDerivations count schema) := by
  induction count generalizing schema with
  | zero => exact never_pure schema
  | succ count ih =>
    refine (never_readDerivation placed).bindOf returns_readDerivation fun next same => ?_
    obtain ⟨more,rfl⟩ := same
    exact ih placed

private theorem never_readLogicalType : Never .panicked readLogicalType := by
  refine never_ifRoom (within_word le_rfl fun tag => Never.within ?_ _) never_failed
  split
  case h_1 => exact never_pure _
  case h_2 =>
    refine never_ifRoom (within_byte (by omega) fun precision => ?_) never_failed
    exact within_byte le_rfl fun scale => (never_pure _).within _
  case h_3 => exact never_ifRoom (within_word le_rfl fun offset => (never_pure _).within _) never_failed
  case h_4 =>
    refine never_ifRoom (within_byte le_rfl fun raw => Never.within ?_ _) never_failed
    split
    · exact never_pure _
    · exact never_failed
  case h_5 =>
    refine never_ifRoom (within_word le_rfl fun len => within_ifRoom ?_ never_failed) never_failed
    refine within_take (Nat.le_succ _) fun codec => ?_
    rw [Nat.add_sub_cancel_left]
    exact within_byte le_rfl fun version => (never_pure _).within _
  case h_6 => exact never_failed

private theorem never_readLogicalTypes (count index : Nat) (schema : OnDemandSchema) :
    Never .panicked (readLogicalTypes count index schema) := by
  induction count generalizing index schema with
  | zero => exact never_pure schema
  | succ count ih =>
    have present : Never .panicked (ifRoom 1 byte (fail (failed "Truncated logical-type entry"))) := by
      refine never_ifRoom ?_ never_failed
      have read := within_byte (le_refl 1) fun value => (never_pure value).within _
      rwa [bind_pure] at read
    refine present.bind fun present => ?_
    split
    · exact never_readLogicalType.bind fun logical => ih (index + 1) _
    · exact ih (index + 1) schema

private theorem never_parseLogicalTypes (schema : OnDemandSchema) : Never .panicked (parseLogicalTypes schema) := by
  refine never_ifRoom (within_byte (by omega) fun version => ?_) never_failed
  split
  · exact never_failed.within _
  · refine within_word (by omega) fun count => Never.within ?_ _
    split
    · exact never_failed
    · exact never_readLogicalTypes count 0 schema

private theorem never_readColumns (count : Nat) (schema : OnDemandSchema) :
    Never .panicked (readColumns count schema) := by
  induction count generalizing schema with
  | zero => exact never_pure schema
  | succ count ih => exact never_readColumn.bind fun column => ih _

end Bounds

/-! What the format has room for. -/

def TextFits (text : String) : Prop := (utf8 text).length < 2^16

instance (text : String) : Decidable (TextFits text) := inferInstanceAs (Decidable (_ < _))

structure ColumnConstraints.Fits (cons : ColumnConstraints) : Prop where
  default : ∀ text, cons.defaultValue = some (.string text) → TextFits text
  check : ∀ sql, cons.checkExprSql = some sql → TextFits sql
  foreignKey : ∀ table column, cons.foreignKey = some (table,column) → TextFits table ∧ TextFits column

def LogicalType.Fits (logical : LogicalType) : Prop := ∀ codec version, logical = .extension codec version →
    TextFits codec

section Parts

variable {α : Type}

theorem fromU8_toU8 (dtype : ColumnType) : fromU8 (toU8 dtype) = some dtype := by cases dtype <;> rfl

theorem yields_byte (value : UInt8) : Yields byte [value] (.ok value) := by
  have read := yields_map UInt8.ofNat (yields_word Failure.panicked 1 value.toNat value.toNat_lt)
  have bytes : leBytes 1 value.toNat = [value] := by simp [leBytes]
  rw [bytes] at read
  simpa [byte,Except.map] using read

private theorem yields_tag (tag : Nat) (small : tag < 256) {next : Nat → Parser α} {bytes : Bytes}
    {result : Except Failure α}
    (tail : Yields (next tag) bytes result) : Yields (word .panicked 1 >>= next) (UInt8.ofNat tag :: bytes) result :=
  yields_then (yields_word .panicked 1 tag (by simpa using small)) tail

theorem utf8_eq_nil {text : String} : (utf8 text).length = 0 ↔ text = "" := by
  constructor
  · intro none
    have same : utf8 text = utf8 "" := List.eq_nil_of_length_eq_zero none
    have decoded := fromUtf8_utf8 text
    rw [same,fromUtf8_utf8] at decoded
    exact (Option.some.inj decoded).symm
  · rintro rfl
    rfl

private theorem textOrEmpty_utf8 (text : String) : textOrEmpty (utf8 text) = text := by
  rw [textOrEmpty,fromUtf8_utf8]
  rfl

private theorem readText_utf8 (text : String) : readText (utf8 text) = .ok text := by
  rw [readText,fromUtf8_utf8]

private theorem yields_short (f : Bytes → α) {text : String} (no : Parser α) (fits : TextFits text) :
    Yields (do
      let len ← word .panicked 2
      ifRoom len (do return f (← take .panicked len)) no) (shortText text) (.ok (f (utf8 text))) := by
  refine yields_then (yields_word .panicked 2 _ fits) ?_
  exact yields_ifRoom le_rfl (yields_last (yields_take _ (utf8 text)) rfl)

private theorem yields_readColumn {column : String × ColumnType} (fits : TextFits column.1) :
    Yields readColumn (columnBytes column) (.ok column) := by
  unfold readColumn columnBytes shortText
  rw [List.append_assoc]
  refine yields_ifRoom (by simp) (yields_then (yields_word .panicked 2 _ fits) (yields_ifRoom (by simp) ?_))
  refine yields_then (yields_take _ (utf8 column.1)) ?_
  have named : Yields (lift (readText (utf8 column.1))) [] (.ok column.1) := by
    rw [readText_utf8]
    exact yields_lift (.ok column.1)
  refine yields_then named (yields_then (yields_byte (toU8 column.2)) ?_)
  rw [fromU8_toU8]
  exact yields_pure column

theorem yields_fixed (width : Nat) {value : Nat} (f : Nat → α) (small : value < 256^width) :
    Yields (fixed width f) (leBytes width value) (.ok (some (f value))) :=
  yields_ifRoom (by simp) (yields_last (yields_word Failure.panicked width value small) rfl)

private theorem yields_readDefault {value : Option DefaultValue}
    (fits : ∀ text, value = some (.string text) → TextFits text) :
    Yields readDefault (defaultBytes value) (.ok (some value)) := by
  cases value with
  | none => exact yields_ifRoom (by simp [defaultBytes]) (yields_tag 0 (by decide) (yields_pure _))
  | some value =>
    cases value with
    | int64 value =>
      refine yields_ifRoom (by simp [defaultBytes]) (yields_tag 1 (by decide) ?_)
      have read := yields_fixed 8 (fun value => some (DefaultValue.int64 (UInt64.ofNat value).toInt64))
        (value.toUInt64.toNat_lt)
      simpa using read
    | float64 bits =>
      refine yields_ifRoom (by simp [defaultBytes]) (yields_tag 2 (by decide) ?_)
      have read := yields_fixed 8 (fun value => some (DefaultValue.float64 (UInt64.ofNat value))) (bits.toNat_lt)
      simpa using read
    | string value =>
      refine yields_ifRoom (by simp [defaultBytes]) (yields_tag 3 (by decide) (yields_ifRoom (by simp [shortText]) ?_))
      have read := yields_short (fun raw => some (some (DefaultValue.string (textOrEmpty raw)))) stop (fits value rfl)
      rwa [textOrEmpty_utf8] at read
    | bool value =>
      refine yields_ifRoom (by simp [defaultBytes]) (yields_tag 4 (by decide) ?_)
      have small : (if value then 1 else 0) < 256^1 := by split <;> decide
      have read := yields_fixed 1 (fun value => some (DefaultValue.bool (decide (value ≠ 0)))) small
      cases value <;> exact read
    | null => exact yields_ifRoom (by simp [defaultBytes]) (yields_tag 5 (by decide) (yields_pure _))
    | currentDate => exact yields_ifRoom (by simp [defaultBytes]) (yields_tag 6 (by decide) (yields_pure _))
    | currentTimestamp => exact yields_ifRoom (by simp [defaultBytes]) (yields_tag 7 (by decide) (yields_pure _))
    | unixTimestamp => exact yields_ifRoom (by simp [defaultBytes]) (yields_tag 8 (by decide) (yields_pure _))
    | date value =>
      refine yields_ifRoom (by simp [defaultBytes]) (yields_tag 9 (by decide) ?_)
      have read := yields_fixed 4 (fun value => some (DefaultValue.date (UInt32.ofNat value).toInt32))
        (value.toUInt32.toNat_lt)
      simpa using read
    | timestamp value =>
      refine yields_ifRoom (by simp [defaultBytes]) (yields_tag 10 (by decide) ?_)
      have read := yields_fixed 8 (fun value => some (DefaultValue.timestamp (UInt64.ofNat value).toInt64))
        (value.toUInt64.toNat_lt)
      simpa using read

/-- An empty expression is read as none. -/
def keptCheck (check : Option String) : Option String := check.filter fun sql => decide (sql ≠ "")

private theorem yields_readCheck {check : Option String} (fits : ∀ sql, check = some sql → TextFits sql) :
    Yields readCheck (checkBytes check) (.ok (some (keptCheck check))) := by
  cases check with
  | none =>
    exact yields_ifRoom (by simp [checkBytes]) (yields_then (yields_word Failure.panicked 2 0 (by decide))
      (yields_pure _))
  | some sql =>
    refine yields_ifRoom (by simp [checkBytes,shortText]) (yields_then (yields_word .panicked 2 _ (fits sql rfl)) ?_)
    by_cases empty : sql = ""
    · subst empty
      exact yields_pure _
    · have long : 0 < (utf8 sql).length := Nat.pos_of_ne_zero fun none => empty (utf8_eq_nil.mp none)
      rw [if_pos long]
      refine yields_ifRoom le_rfl (yields_last (yields_take _ (utf8 sql)) ?_)
      rw [textOrEmpty_utf8,keptCheck,Option.filter_some_pos (by simpa using empty)]

private theorem yields_readForeignKey {key : Option (String × String)}
    (fits : ∀ table column, key = some (table,column) → TextFits table ∧ TextFits column ∧ table ≠ "") :
    Yields readForeignKey (foreignKeyBytes key) (.ok (some key)) := by
  cases key with
  | none =>
    exact yields_ifRoom (by simp [foreignKeyBytes]) (yields_then (yields_word Failure.panicked 2 0 (by decide))
      (yields_pure _))
  | some key =>
    obtain ⟨table,column⟩ := key
    obtain ⟨tableFits,columnFits,named⟩ := fits table column rfl
    have long : 0 < (utf8 table).length := Nat.pos_of_ne_zero fun none => named (utf8_eq_nil.mp none)
    have shape : foreignKeyBytes (some (table,column)) =
        leBytes 2 (utf8 table).length ++ (utf8 table ++ (leBytes 2 (utf8 column).length ++ utf8 column)) :=
          List.append_assoc _ _ _
    rw [shape]
    refine yields_ifRoom (by simp) (yields_then (yields_word .panicked 2 _ tableFits) ?_)
    rw [if_pos long]
    refine yields_ifRoom (by simp) (yields_then (yields_take _ (utf8 table)) (yields_ifRoom (by simp) ?_))
    refine yields_then (yields_word .panicked 2 _ columnFits) (yields_ifRoom le_rfl ?_)
    refine yields_last (yields_take _ (utf8 column)) ?_
    rw [textOrEmpty_utf8,textOrEmpty_utf8]

private theorem readForeignKey_unnamed (column : String) (rest : Bytes) :
    readForeignKey (foreignKeyBytes (some ("",column)) ++ rest) = .ok (some none,shortText column ++ rest) := by
  have read : Yields readForeignKey (leBytes 2 0) (.ok (some none)) :=
    yields_ifRoom (by simp) (yields_then (yields_word Failure.panicked 2 0 (by decide)) (yields_pure _))
  have shape : foreignKeyBytes (some ("",column)) ++ rest = leBytes 2 0 ++ (shortText column ++ rest) := by
    rw [foreignKeyBytes,List.append_assoc]
    rfl
  rw [shape,read]
  rfl

private theorem yields_readName {text : String} (fits : TextFits text) :
    Yields readName (shortText text) (.ok text) := by
  refine yields_ifRoom (by simp [shortText]) (yields_then (yields_word .panicked 2 _ fits) (yields_ifRoom le_rfl ?_))
  have decoded : Yields (lift (readText (utf8 text))) [] (.ok text) := by
    rw [readText_utf8]
    exact yields_lift (.ok text)
  have read : Yields (do lift (readText (← take .panicked (utf8 text).length))) (utf8 text ++ []) (.ok text) :=
    yields_then (yields_take _ (utf8 text)) decoded
  rwa [List.append_nil] at read

private theorem yields_readLogicalType {logical : LogicalType} (fits : logical.Fits) :
    Yields readLogicalType logical.toBytes (.ok logical) := by
  cases logical with
  | uuid => exact yields_ifRoom (by simp [LogicalType.toBytes]) (yields_tag 1 (by decide) (yields_pure _))
  | decimal precision scale =>
    refine yields_ifRoom (by simp [LogicalType.toBytes]) (yields_tag 2 (by decide) (yields_ifRoom (by simp) ?_))
    refine yields_then (yields_byte precision) (yields_last (yields_byte scale.toUInt8) ?_)
    rw [Int8.toInt8_toUInt8]
  | timestampTz offsetMinutes =>
    refine yields_ifRoom (by simp [LogicalType.toBytes]) (yields_tag 3 (by decide) (yields_ifRoom (by simp) ?_))
    refine yields_last (yields_word .panicked 2 _ offsetMinutes.toUInt16.toNat_lt) ?_
    simp
  | list element =>
    refine yields_ifRoom (by simp [LogicalType.toBytes]) (yields_tag 4 (by decide) (yields_ifRoom (by simp) ?_))
    refine yields_then (yields_byte (toU8 element)) ?_
    rw [fromU8_toU8]
    exact yields_pure _
  | extension codec version =>
    refine yields_ifRoom (by simp [LogicalType.toBytes]) (yields_tag 5 (by decide)
      (yields_ifRoom (by simp [shortText]) ?_))
    unfold shortText
    rw [List.append_assoc]
    refine yields_then (yields_word .panicked 2 _ (fits codec version rfl)) (yields_ifRoom (by simp) ?_)
    refine yields_then (yields_take _ (utf8 codec)) (yields_last (yields_byte version) ?_)
    rw [DeltaFile.lossy_utf8]

end Parts

section Constraints

variable {α β γ : Type} {set : α → β → β}

private theorem setEach_map (f : γ → α) (g : γ → β) (items : List γ) :
    setEach set (items.map f) (items.map g) = items.map fun item => set (f item) (g item) := by
  induction items with
  | nil => rfl
  | cons item rest ih => simp only [List.map_cons,setEach,ih]

private theorem setEach_nil (items : List β) : setEach set [] items = items := by cases items <;> rfl

private theorem setEach_optional {present : Bool} {f : γ → α} {g : γ → β} {items : List γ}
    (idle : present = false → ∀ item ∈ items, set (f item) (g item) = g item) :
    setEach set (if present then items.map f else []) (items.map g) = items.map fun item => set (f item) (g item) := by
  cases present with
  | true => exact setEach_map f g items
  | false =>
    rw [if_neg (by decide),setEach_nil]
    exact List.map_congr_left fun item member => (idle rfl item member).symm

private theorem flags_kept : ∀ a b c d e : Bool,
    let flags := flag a 0x01 ||| flag b 0x02 ||| flag c 0x04 ||| flag d 0x08 ||| flag e 0x10
    (flags &&& 1 != 0) = a ∧ (flags &&& 2 != 0) = b ∧ (flags &&& 4 != 0) = c ∧ (flags &&& 0x10 != 0) = e := by decide

private theorem ofFlags_flags (cons : ColumnConstraints) :
    ofFlags cons.flags = {cons with defaultValue := none,checkExprSql := none,foreignKey := none} := by
  obtain ⟨notNull,primaryKey,unique,autoincrement⟩ :=
    flags_kept cons.notNull cons.primaryKey cons.unique cons.defaultValue.isSome cons.autoincrement
  simp only [ofFlags,ColumnConstraints.flags,notNull,primaryKey,unique,autoincrement]

def withoutKey (cons : ColumnConstraints) : ColumnConstraints :=
  {cons with checkExprSql := keptCheck cons.checkExprSql,foreignKey := none}

private theorem any_isSome_false {f : γ → Option α} {items : List γ}
    (none_ : (items.any fun item => (f item).isSome) = false) :
    ∀ item ∈ items, f item = none := by
  intro item member
  have absent := List.any_eq_false.mp none_ item member
  simpa using absent

private theorem readConstraints_eq {cs : List ColumnConstraints} {named : OnDemandSchema} {tail : Bytes}
    (some_ : 0 < cs.length) (size : named.constraints.length = cs.length) (fits : ∀ cons ∈ cs, cons.Fits)
    (begins : Begins [0xFC,0xA7,0x4C] tail) :
    readConstraints cs.length named (cs.map ColumnConstraints.flags ++
      (optional (cs.any fun cons => cons.defaultValue.isSome) 0xDF (cs.flatMap fun cons =>
        defaultBytes cons.defaultValue) ++
      (optional (cs.any fun cons => cons.checkExprSql.isSome) 0xCE (cs.flatMap fun cons =>
        checkBytes cons.checkExprSql) ++ tail))) =
    (marked 0xFC (upTo readForeignKey cs.length) [] tail).map fun read =>
      ({named with constraints := setEach setForeignKey read.1 (cs.map withoutKey)},read.2) := by
  have defaults : Yields (upTo readDefault cs.length) (cs.flatMap fun cons => defaultBytes cons.defaultValue)
    (.ok (cs.map (·.defaultValue))) :=
    yields_upTo cs fun cons member => yields_readDefault (fits cons member).default
  have checks : Yields (upTo readCheck cs.length) (cs.flatMap fun cons => checkBytes cons.checkExprSql)
      (.ok (cs.map fun cons => keptCheck cons.checkExprSql)) :=
    yields_upTo cs fun cons member => yields_readCheck (fits cons member).check
  have flagged : setEach (fun byte _ => ofFlags byte) (cs.map ColumnConstraints.flags) named.constraints =
      cs.map fun cons => {cons with defaultValue := none,checkExprSql := none,foreignKey := none} := by
    clear fits begins some_ defaults checks
    generalize named.constraints = old at size
    induction cs generalizing old with
    | nil =>
      rw [List.eq_nil_of_length_eq_zero size]
      rfl
    | cons cons rest ih =>
      obtain ⟨first,others,rfl⟩ := List.exists_cons_of_length_eq_add_one size
      simp only [List.map_cons,setEach,ofFlags_flags]
      rw [ih others (by simpa using size)]
  have defaulted := @setEach_optional _ _ _ setDefault (cs.any fun cons => cons.defaultValue.isSome) (·.defaultValue)
    (fun cons => {cons with defaultValue := none,checkExprSql := none,foreignKey := none}) cs (by
      intro absent cons member
      simp only [setDefault,any_isSome_false absent cons member])
  have checked := @setEach_optional _ _ _ setCheck (cs.any fun cons => cons.checkExprSql.isSome) (fun cons =>
    keptCheck cons.checkExprSql)
    (fun cons => {cons with checkExprSql := none,foreignKey := none}) cs (by
      intro absent cons member
      rw [any_isSome_false absent cons member]
      rfl)
  have constrained : (cs.map fun cons => setCheck (keptCheck cons.checkExprSql) {cons with
    checkExprSql := none,foreignKey := none}) = cs.map withoutKey := by
    refine List.map_congr_left fun cons _ => ?_
    unfold setCheck withoutKey
    cases keptCheck cons.checkExprSql <;> rfl
  unfold readConstraints
  rw [if_pos some_,ifRoom,if_pos (by simp)]
  simp only [bind,StateT.bind,take,List.length_append,List.length_map,Nat.le_add_right,if_true]
  rw [List.take_left' (List.length_map _),List.drop_left' (List.length_map _)]
  simp only [Except.bind]
  rw [marked_optional (fun _ => defaults) (begins_optional begins) (by decide)]
  simp only
  rw [marked_optional (fun _ => checks) begins (by decide)]
  simp only [flagged]
  rw [defaulted]
  simp only [setDefault]
  rw [checked,constrained]
  cases marked 0xFC (upTo readForeignKey cs.length) [] tail <;> rfl

end Constraints

section Lists

variable {schema : OnDemandSchema}

private theorem yields_readColumns {columns : List (String × ColumnType)}
    (fits : ∀ column ∈ columns, TextFits column.1) :
    Yields (readColumns columns.length schema) (columns.flatMap columnBytes)
      (.ok (columns.foldl (fun schema column => (schema.addColumn column.1 column.2).1) schema)) := by
  induction columns generalizing schema with
  | nil => exact yields_pure schema
  | cons column rest ih =>
    obtain ⟨here,others⟩ := List.forall_mem_cons.mp fits
    rw [List.flatMap_cons,List.length_cons,readColumns]
    exact yields_then (yields_readColumn here) (ih others)

private theorem yields_readDerivation {derivation : VectorDerivation}
    (supported : Supported schema derivation.source derivation.target)
    (free : ∀ other ∈ schema.vectorDerivations, other.target ≠ derivation.target) (source : TextFits derivation.source)
    (target : TextFits derivation.target) : Yields (readDerivation schema) (derivationBytes derivation)
      (.ok {schema with vectorDerivations := schema.vectorDerivations ++ [derivation]}) := by
  refine yields_then (yields_readName source) (yields_then (yields_readName target) ?_)
  have version : Yields (ifRoom 2 (word Failure.panicked 2) (fail (failed "Truncated vector codec version")))
      (leBytes 2 derivation.codecVersion.toNat) (.ok derivation.codecVersion.toNat) :=
    yields_ifRoom (by simp) (yields_word _ 2 _ derivation.codecVersion.toNat_lt)
  have added : Yields (lift (schema.addVectorDerivation derivation.source derivation.target
    (UInt16.ofNat derivation.codecVersion.toNat))) []
      (.ok {schema with vectorDerivations := schema.vectorDerivations ++ [derivation]}) := by
    rw [UInt16.ofNat_toNat,addVectorDerivation_ok supported free]
    exact yields_lift (.ok _)
  rw [← List.append_nil (leBytes 2 derivation.codecVersion.toNat)]
  exact yields_then version added

private theorem yields_readDerivations {derivations : List VectorDerivation}
    (supported : ∀ derivation ∈ derivations, Supported schema derivation.source derivation.target)
    (fits : ∀ derivation ∈ derivations, TextFits derivation.source ∧ TextFits derivation.target)
    (distinct : ((schema.vectorDerivations ++ derivations).map VectorDerivation.target).Nodup) :
    Yields (readDerivations derivations.length schema) (derivations.flatMap derivationBytes)
      (.ok {schema with vectorDerivations := schema.vectorDerivations ++ derivations}) := by
  induction derivations generalizing schema with
  | nil =>
    rw [List.append_nil]
    exact yields_pure schema
  | cons derivation rest ih =>
    obtain ⟨here,others⟩ := List.forall_mem_cons.mp supported
    obtain ⟨⟨source,target⟩,otherFits⟩ := List.forall_mem_cons.mp fits
    have free (other : VectorDerivation) (member : other ∈ schema.vectorDerivations) : other.target ≠
      derivation.target := by
      rw [List.map_append] at distinct
      exact (List.nodup_append.mp distinct).2.2 _ (List.mem_map_of_mem member) _
        (List.mem_map_of_mem List.mem_cons_self)
    rw [List.flatMap_cons,List.length_cons,readDerivations]
    refine yields_then (yields_readDerivation here free source target) ?_
    have tail := @ih {schema with vectorDerivations := schema.vectorDerivations ++ [derivation]}
      (fun other member => ⟨(others other member).differ,(others other member).source,
        (others other member).target⟩) otherFits
      (by simpa only [List.append_assoc,List.singleton_append] using distinct)
    simpa only [List.append_assoc,List.singleton_append] using tail

private theorem readLogicalTypes_front {front entries : List (Option LogicalType)} {count : Nat}
    (fits : ∀ logical, some logical ∈ entries → logical.Fits)
    (size : schema.columns.length = front.length + (entries.length + count))
    (blank : schema.logicalTypes = front ++ List.replicate (entries.length + count) none) (bytes : Bytes) :
    readLogicalTypes (entries.length + count) front.length schema (entries.flatMap logicalBytes ++ bytes) =
      readLogicalTypes count (front.length + entries.length)
        {schema with logicalTypes := front ++ entries ++ List.replicate count none} bytes := by
  induction entries generalizing schema front with
  | nil =>
    rw [List.length_nil,Nat.zero_add] at blank
    rw [List.append_nil,← blank]
    simp only [List.length_nil,Nat.zero_add,Nat.add_zero,List.flatMap_nil,List.nil_append]
  | cons entry rest ih =>
    rw [List.length_cons,Nat.succ_add] at size blank
    have inside : ¬ schema.columns.length ≤ front.length := by omega
    have tail := @ih {schema with logicalTypes := (front ++ [entry]) ++ List.replicate (rest.length + count) none}
      (front ++ [entry])
      (fun logical member => fits logical (List.mem_cons_of_mem _ member)) (by simp [size]; omega) rfl
    simp only [List.length_append,List.length_singleton,List.append_assoc,List.cons_append,List.nil_append] at tail
    have present (value : UInt8) : Yields (ifRoom 1 byte (fail (failed "Truncated logical-type entry"))) [value]
      (.ok value) :=
      yields_ifRoom (by simp) (yields_byte value)
    rw [List.length_cons,Nat.succ_add,readLogicalTypes,List.flatMap_cons,List.append_assoc,List.append_assoc,
      List.cons_append,
      Nat.add_comm rest.length 1,← Nat.add_assoc,← tail]
    cases entry with
    | none =>
      rw [List.replicate_succ] at blank
      simp only [bind,StateT.bind]
      rw [show logicalBytes none ++ (rest.flatMap logicalBytes ++ bytes) = [0] ++
        (rest.flatMap logicalBytes ++ bytes) from rfl,present 0]
      simp only [Except.map,Except.bind]
      rw [if_neg (by decide),← blank]
    | some logical =>
      have read := yields_readLogicalType (fits logical List.mem_cons_self) (rest.flatMap logicalBytes ++ bytes)
      have placed : schema.setLogicalType front.length (some logical) =
          {schema with logicalTypes := front ++ some logical :: List.replicate (rest.length + count) none} := by
        rw [OnDemandSchema.setLogicalType,if_neg inside,blank]
        simp [size,List.replicate_succ]
      simp only [bind,StateT.bind]
      rw [show logicalBytes (some logical) ++ (rest.flatMap logicalBytes ++ bytes) =
        [1] ++ (logical.toBytes ++ (rest.flatMap logicalBytes ++ bytes)) from rfl,present 1]
      simp only [Except.map,Except.bind,if_true,StateT.bind,bind]
      rw [read]
      simp only [Except.map,placed]

end Lists

section Results

private theorem textFits_of_length {raw : Bytes} {text : String} (decoded : fromUtf8 raw = some text)
    (short : raw.length < 256^2) : TextFits text := by
  rw [TextFits,utf8_of_fromUtf8 decoded]
  exact short

private theorem textFits_orEmpty {raw : Bytes} (short : raw.length < 256^2) : TextFits (textOrEmpty raw) := by
  unfold textOrEmpty
  cases decoded : fromUtf8 raw with
  | some text => exact textFits_of_length decoded short
  | none => exact (by decide : (utf8 "").length < 2^16)

private theorem returns_short {α : Type} {P : α → Prop} {extra : Nat} {next : Bytes → Parser α} {no : Parser α}
    (tail : ∀ raw : Bytes, raw.length < 256^2 → Returns P (next raw)) (short : Returns P no) :
    Returns P (do
      let len ← word .panicked 2
      ifRoom (len + extra) (take .panicked len >>= next) no) := by
  refine (returns_word _ 2).bind fun len small => returns_ifRoom ?_ short
  refine (returns_take _ len).bind fun raw size => tail raw ?_
  rw [size]
  exact small

private theorem returns_readColumn : Returns (fun column => TextFits column.1) readColumn := by
  refine returns_ifRoom (returns_short (fun raw small => ?_) (returns_fail _)) (returns_fail _)
  intro bytes column rest ok
  obtain ⟨name,middle,read,ok⟩ := of_bind ok
  obtain ⟨tag,_,_,ok⟩ := of_bind ok
  have fits : TextFits name := by
    have decoded := of_lift read
    unfold readText at decoded
    split at decoded
    · rename_i found
      cases decoded
      exact textFits_of_length found small
    · cases decoded
  cases typed : fromU8 tag with
  | some dtype =>
    rw [typed] at ok
    rw [of_pure ok]
    exact fits
  | none =>
    rw [typed] at ok
    cases ok

structure Named (count : Nat) (schema : OnDemandSchema) : Prop where
  placed : Placed schema
  indexed : Indexed schema
  few : schema.columns.length ≤ count
  names : ∀ column ∈ schema.columns, TextFits column.1
  constraints : ∀ cons ∈ schema.constraints, cons = {}
  derivations : schema.vectorDerivations = []

private theorem named_new : Named 0 .new := ⟨placed_new,indexed_new,le_rfl,nofun,nofun,rfl⟩

private theorem named_addColumn {count : Nat} {schema : OnDemandSchema} (named : Named count schema) {name : String}
    (fits : TextFits name)
    (dtype : ColumnType) : Named (count + 1) (schema.addColumn name dtype).1 := by
  have placed : Placed (schema.addColumn name dtype).1 := placed_addColumn named.placed name dtype
  have indexed := indexed_addColumn named.indexed name dtype
  unfold OnDemandSchema.addColumn at placed indexed ⊢
  split
  · exact ⟨named.placed,named.indexed,named.few.trans (Nat.le_succ _),named.names,named.constraints,named.derivations⟩
  · rename_i fresh
    rw [fresh] at placed indexed
    refine ⟨placed,indexed,?_,?_,?_,named.derivations⟩
    · simp only [OnDemandSchema.push,List.length_append,List.length_singleton]
      exact Nat.succ_le_succ named.few
    · intro column member
      rcases List.mem_append.mp member with old | new
      · exact named.names column old
      · rw [List.mem_singleton.mp new]
        exact fits
    · intro cons member
      rcases List.mem_append.mp member with old | new
      · exact named.constraints cons old
      · exact List.mem_singleton.mp new

private theorem returns_named {count before : Nat} {schema : OnDemandSchema} (named : Named before schema) :
    Returns (Named (before + count)) (readColumns count schema) := by
  induction count generalizing schema before with
  | zero => exact returns_pure named
  | succ count ih =>
    refine returns_readColumn.bind fun column fits => ?_
    rw [← Nat.add_assoc,Nat.add_right_comm]
    exact ih (named_addColumn named fits column.2)

private theorem returns_readDefault :
    Returns (fun found => ∀ value ∈ found, ∀ text, value = some (.string text) → TextFits text) readDefault := by
  have plain {width : Nat} {f : Nat → Option DefaultValue} (other : ∀ value text, f value = some (.string text) →
    TextFits text) :
      Returns (fun found => ∀ value ∈ found, ∀ text, value = some (.string text) → TextFits text) (fixed width f) :=
    returns_ifRoom (Returns.then fun read => returns_found (other read)) returns_missing
  refine returns_ifRoom (Returns.then fun tag => ?_) returns_missing
  split
  case h_3 =>
    refine returns_ifRoom (@returns_short _ _ 0 _ _ (fun raw small => returns_found ?_) returns_missing) returns_missing
    intro text same
    cases same
    exact textFits_orEmpty small
  all_goals first | exact plain nofun | exact returns_found nofun

private theorem returns_readCheck :
    Returns (fun found => ∀ value ∈ found, ∀ sql, value = some sql → TextFits sql) readCheck := by
  refine returns_ifRoom ((returns_word _ 2).bind fun len small => ?_) returns_missing
  split
  · refine returns_ifRoom ((returns_take _ len).bind fun raw size => returns_found ?_) returns_missing
    intro sql same
    cases same
    exact textFits_orEmpty (by rw [size]; exact small)
  · exact returns_found nofun

private theorem returns_readForeignKey :
    Returns (fun found => ∀ value ∈ found, ∀ table column, value = some (table,column) → TextFits table ∧
      TextFits column) readForeignKey := by
  refine returns_ifRoom ((returns_word _ 2).bind fun tableLen tableSmall => ?_) returns_missing
  split
  · refine returns_ifRoom ((returns_take _ tableLen).bind fun table tableSize => ?_) returns_missing
    refine returns_ifRoom (@returns_short _ _ 0 _ _ (fun column columnSmall => returns_found ?_) returns_missing)
      returns_missing
    intro _ _ same
    cases same
    exact ⟨textFits_orEmpty (by rw [tableSize]; exact tableSmall),textFits_orEmpty columnSmall⟩
  · exact returns_found nofun

private theorem setEach_all {α β : Type} {set : α → β → β} {P : β → Prop} {Q : α → Prop}
    (keeps : ∀ value item, Q value → P item → P (set value item)) {values : List α} {items : List β}
    (good : ∀ value ∈ values, Q value) (each : ∀ item ∈ items, P item) :
    ∀ item ∈ setEach set values items, P item := by
  induction values generalizing items with
  | nil =>
    rw [setEach_nil]
    exact each
  | cons value values ih =>
    cases items with
    | nil => exact each
    | cons item items =>
      obtain ⟨here,others⟩ := List.forall_mem_cons.mp good
      obtain ⟨first,rest⟩ := List.forall_mem_cons.mp each
      rw [setEach]
      exact List.forall_mem_cons.mpr ⟨keeps value item here first,ih others rest⟩

private theorem returns_readConstraints {count : Nat} {schema : OnDemandSchema}
    (plain : ∀ cons ∈ schema.constraints, cons = {}) :
    Returns (fun next => ∃ constraints, next = {schema with constraints := constraints} ∧
      ∀ cons ∈ constraints, cons.Fits)
      (readConstraints count schema) := by
  have none_ (cons : ColumnConstraints) (member : cons ∈ schema.constraints) : cons.Fits := by
    rw [plain cons member]
    exact ⟨nofun,nofun,nofun⟩
  unfold readConstraints
  split
  · refine returns_ifRoom (Returns.then fun flags => ?_) (returns_pure ⟨_,rfl,none_⟩)
    refine (returns_marked (returns_upTo returns_readDefault count) ⟨Nat.zero_le _,fun _ member =>
      absurd member List.not_mem_nil⟩).bind fun defaults defaultsFit => ?_
    refine (returns_marked (returns_upTo returns_readCheck count) ⟨Nat.zero_le _,fun _ member =>
      absurd member List.not_mem_nil⟩).bind fun checks checksFit => ?_
    refine (returns_marked (returns_upTo returns_readForeignKey count) ⟨Nat.zero_le _,fun _ member =>
      absurd member List.not_mem_nil⟩).bind fun keys keysFit => ?_
    refine returns_pure ⟨_,rfl,?_⟩
    refine setEach_all ?_ keysFit.2 (setEach_all ?_ checksFit.2 (setEach_all ?_ defaultsFit.2
      (setEach_all ?_ (fun _ _ => trivial) none_)))
    · intro key cons fits old
      unfold setForeignKey
      split
      · exact ⟨old.default,old.check,fits⟩
      · exact old
    · intro check cons fits old
      unfold setCheck
      split
      · exact ⟨old.default,fits,old.foreignKey⟩
      · exact old
    · intro value cons fits old
      exact ⟨fits,old.check,old.foreignKey⟩
    · intro byte cons _ _
      exact ⟨nofun,nofun,nofun⟩
  · exact returns_pure ⟨_,rfl,none_⟩

private theorem returns_readDerivations {count : Nat} {schema : OnDemandSchema} :
    Returns (fun next => ∃ derivations, next = {schema with vectorDerivations := derivations} ∧
      derivations.length = schema.vectorDerivations.length + count) (readDerivations count schema) := by
  induction count generalizing schema with
  | zero => exact returns_pure ⟨schema.vectorDerivations,rfl,rfl⟩
  | succ count ih =>
    refine returns_readDerivation.bind fun next same => ?_
    obtain ⟨more,rfl⟩ := same
    intro bytes final rest ok
    obtain ⟨derivations,same,size⟩ := ih bytes final rest ok
    refine ⟨derivations,same,?_⟩
    rw [size,List.length_append,List.length_singleton]
    omega

private theorem returns_parseVectorDerivations {schema : OnDemandSchema} (none_ : schema.vectorDerivations = []) :
    Returns (fun next => ∃ derivations, next = {schema with vectorDerivations := derivations} ∧
      derivations.length < 2^16)
      (marked 0xA7 (parseVectorDerivations schema) schema) := by
  refine returns_marked (returns_ifRoom ((returns_word _ 2).bind fun count small => ?_) (returns_fail _)) ?_
  · intro bytes next rest ok
    obtain ⟨derivations,same,size⟩ := returns_readDerivations bytes next rest ok
    rw [none_,List.length_nil,Nat.zero_add] at size
    exact ⟨derivations,same,by rw [size]; exact small⟩
  · exact ⟨[],by rw [← none_],by decide⟩

private theorem returns_readLogicalTypes {count index : Nat} {schema : OnDemandSchema} :
    Returns (fun next => ∃ logicalTypes, next = {schema with logicalTypes := logicalTypes})
      (readLogicalTypes count index schema) := by
  induction count generalizing index schema with
  | zero => exact returns_pure ⟨schema.logicalTypes,rfl⟩
  | succ count ih =>
    refine Returns.then fun present => ?_
    split
    · refine Returns.then fun logical => ?_
      unfold OnDemandSchema.setLogicalType
      split
      · exact ih
      · exact ih
    · exact ih

private theorem returns_parseLogicalTypes {schema : OnDemandSchema} :
    Returns (fun next => ∃ logicalTypes, next = {schema with logicalTypes := logicalTypes})
      (marked 0x4C (parseLogicalTypes schema) schema) := by
  refine returns_marked (returns_ifRoom (Returns.then fun version => ?_) (returns_fail _)) ⟨schema.logicalTypes,rfl⟩
  split
  · exact returns_fail _
  · refine Returns.then fun count => ?_
    split
    · exact returns_fail _
    · exact returns_readLogicalTypes

private theorem never_readSchema : Never .panicked readSchema := by
  refine never_ifRoom (within_word le_rfl fun count => Never.within ?_ _) (never_fail nofun)
  refine (never_readColumns count .new).bindOf (returns_named named_new) fun named known => ?_
  refine (never_readConstraints count named).bindOf (returns_readConstraints known.constraints) fun constrained same =>
    ?_
  obtain ⟨constraints,rfl,_⟩ := same
  have kept : Placed {named with constraints := constraints} := known.placed
  have derivations : Never .panicked (parseVectorDerivations {named with constraints := constraints}) :=
    never_ifRoom (within_word le_rfl fun count => (never_readDerivations kept count).within _) (never_fail nofun)
  exact (never_marked derivations).bind fun derived => never_marked (never_parseLogicalTypes derived)

structure Bounded (schema : OnDemandSchema) : Prop where
  indexed : Indexed schema
  few : schema.columns.length < 2^32
  names : ∀ column ∈ schema.columns, TextFits column.1
  constraints : ∀ cons ∈ schema.constraints, cons.Fits
  derivations : schema.vectorDerivations.length < 2^16

private theorem returns_readSchema : Returns Bounded readSchema := by
  refine returns_ifRoom ((returns_word _ 4).bind fun count small => ?_) (returns_fail _)
  refine (returns_named named_new).bind fun named known => ?_
  refine (returns_readConstraints known.constraints).bind fun constrained same => ?_
  obtain ⟨constraints,rfl,fits⟩ := same
  have none_ : ({named with constraints := constraints} : OnDemandSchema).vectorDerivations = [] := known.derivations
  refine (returns_parseVectorDerivations none_).bind fun derived same => ?_
  obtain ⟨derivations,rfl,few⟩ := same
  intro bytes final rest ok
  obtain ⟨logicalTypes,rfl⟩ := returns_parseLogicalTypes bytes final rest ok
  have columns := known.few
  rw [Nat.zero_add] at columns
  exact ⟨known.indexed,Nat.lt_of_le_of_lt columns small,known.names,fits,few⟩

/-! A schema that was read is one that the methods build. -/

private theorem length_setEach {α β : Type} {set : α → β → β} {values : List α} {items : List β} :
    (setEach set values items).length = items.length := by
  induction values generalizing items with
  | nil => rw [setEach_nil]
  | cons value values ih =>
    cases items with
    | nil => rfl
    | cons item items => rw [setEach,List.length_cons,List.length_cons,ih]

section
variable {count : Nat} {schema : OnDemandSchema} (wf : Wf schema)
include wf

private theorem wf_readColumns : Returns Wf (readColumns count schema) := by
  induction count generalizing schema with
  | zero => exact returns_pure wf
  | succ count ih => exact Returns.then fun column => ih (wf_addColumn wf column.1 column.2)

private theorem wf_readConstraints : Returns Wf (readConstraints count schema) := by
  unfold readConstraints
  split
  · refine returns_ifRoom (Returns.then fun flags => Returns.then fun defaults => Returns.then fun checks =>
      ?_) (returns_pure wf)
    refine Returns.then fun keys => returns_pure ⟨?_,wf.logicalTypes,wf.placed,fun indexed => ?_⟩
    · simp only [length_setEach]
      exact wf.constraints
    · obtain ⟨supported,targets⟩ := wf.valid indexed
      refine ⟨fun derivation member => ?_,targets⟩
      obtain ⟨differ,source,target⟩ := supported derivation member
      exact ⟨differ,source,target⟩
  · exact returns_pure wf

private theorem wf_readDerivations : Returns Wf (readDerivations count schema) := by
  induction count generalizing schema with
  | zero => exact returns_pure wf
  | succ count ih =>
    have next : Returns Wf (readDerivation schema) := by
      refine Returns.then fun source => Returns.then fun target => Returns.then fun codecVersion => ?_
      intro bytes derived rest ok
      exact wf_addVectorDerivation wf (of_lift ok)
    exact next.bind fun derived known => ih known

end

private theorem wf_readLogicalTypes {count index : Nat} {schema : OnDemandSchema} (wf : Wf schema) :
    Returns Wf (readLogicalTypes count index schema) := by
  induction count generalizing index schema with
  | zero => exact returns_pure wf
  | succ count ih =>
    refine Returns.then fun present => ?_
    split
    · exact Returns.then fun logical => ih (wf_setLogicalType wf index (some logical))
    · exact ih wf

private theorem wf_readSchema : Returns Wf readSchema := by
  refine returns_ifRoom (Returns.then fun count => (wf_readColumns wf_new).bind fun named known => ?_) (returns_fail _)
  refine (wf_readConstraints known).bind fun constrained known => ?_
  refine (returns_marked (returns_ifRoom (Returns.then fun count => wf_readDerivations known) (returns_fail _))
    known).bind fun derived known => ?_
  refine returns_marked (returns_ifRoom (Returns.then fun version => ?_) (returns_fail _)) known
  split
  · exact returns_fail _
  · refine Returns.then fun count => ?_
    split
    · exact returns_fail _
    · exact wf_readLogicalTypes known

end Results

section Assembly

variable {schema named : OnDemandSchema}

private theorem map_range {α β : Type} (f : Option α → β) (items : List α) :
    (List.range items.length).map (fun i => f items[i]?) = items.map fun item => f (some item) := by
  apply List.ext_getElem
  · simp
  · intro i _ inside
    rw [List.length_map] at inside
    simp [inside]

private theorem aligned_eq (size : schema.constraints.length = schema.columns.length) :
    schema.aligned = schema.constraints := by
  have each := map_range (fun cons : Option ColumnConstraints => cons.getD {}) schema.constraints
  simp only [Option.getD_some,List.map_id'] at each
  rw [OnDemandSchema.aligned,← size]
  exact each

private theorem logicalTypeBytes_eq (size : schema.logicalTypes.length = schema.columns.length) :
    schema.logicalTypeBytes = 1 :: (leBytes 4 schema.columns.length ++ schema.logicalTypes.flatMap logicalBytes) := by
  have entries := map_range Option.join schema.logicalTypes
  simp only [Option.join_some,List.map_id'] at entries
  have same : ((List.range schema.columns.length).flatMap fun index => logicalBytes (schema.logicalType index)) =
      ((List.range schema.logicalTypes.length).map fun i => schema.logicalTypes[i]?.join).flatMap logicalBytes := by
    rw [List.flatMap_map,size]
    rfl
  rw [OnDemandSchema.logicalTypeBytes,same,entries]

def keyBytes (schema : OnDemandSchema) : Bytes :=
  optional (schema.constraints.any fun cons => cons.foreignKey.isSome) 0xFC (schema.constraints.flatMap fun cons =>
    foreignKeyBytes cons.foreignKey)

private theorem constraints_stage (wf : Wf schema) (fits : ∀ cons ∈ schema.constraints, cons.Fits)
    (size : named.constraints.length = schema.columns.length) {rest : Bytes} (begins : Begins [0xA7,0x4C] rest) :
    readConstraints schema.columns.length named ((if schema.hasAny || !schema.constraints.isEmpty then
      schema.constraintBytes else []) ++ rest) =
      (marked 0xFC (upTo readForeignKey schema.columns.length) [] (keyBytes schema ++ rest)).map fun read =>
        ({named with constraints := setEach setForeignKey read.1 (schema.constraints.map withoutKey)},read.2) := by
  by_cases none_ : schema.constraints = []
  · have empty : schema.columns.length = 0 := by rw [← wf.constraints,none_]; rfl
    have unread : named.constraints = [] := List.eq_nil_of_length_eq_zero (size.trans empty)
    have idle : schema.hasAny = false := by rw [OnDemandSchema.hasAny,none_]; rfl
    rw [keyBytes,none_,idle,empty]
    simp only [List.isEmpty_nil,Bool.not_true,Bool.or_false,List.any_nil,List.map_nil]
    rw [show (if false = true then schema.constraintBytes else []) ++ rest = rest from rfl,
      show optional false 0xFC ([].flatMap fun cons : ColumnConstraints => foreignKeyBytes cons.foreignKey) ++ rest =
        rest from rfl,
      marked_absent begins (by decide)]
    simp only [readConstraints,if_neg (Nat.lt_irrefl 0),Except.map,setEach]
    rw [← unread]
    rfl
  · have some_ : 0 < schema.constraints.length := List.length_pos_iff.mpr none_
    have written : (schema.hasAny || !schema.constraints.isEmpty) = true := by simp [none_]
    have stage := readConstraints_eq some_ (size.trans wf.constraints.symm) fits
      (begins_optional begins : Begins [0xFC,0xA7,0x4C] (keyBytes schema ++ rest))
    rw [written,if_pos rfl,OnDemandSchema.constraintBytes,aligned_eq wf.constraints,← wf.constraints]
    simp only [List.append_assoc]
    exact stage

private theorem keys_stage (wf : Wf schema) (fits : ∀ cons ∈ schema.constraints, cons.Fits)
    (tables : ∀ cons ∈ schema.constraints, ∀ column, cons.foreignKey ≠ some ("",column)) {rest : Bytes}
    (begins : Begins [0xA7,0x4C] rest) :
    marked 0xFC (upTo readForeignKey schema.columns.length) [] (keyBytes schema ++ rest) =
      .ok (if schema.constraints.any fun cons => cons.foreignKey.isSome then schema.constraints.map (·.foreignKey)
        else [],rest) := by
  refine marked_optional (fun _ => ?_) begins (by decide)
  rw [← wf.constraints]
  refine yields_upTo schema.constraints fun cons member => yields_readForeignKey fun table column same => ?_
  obtain ⟨tableFits,columnFits⟩ := (fits cons member).foreignKey table column same
  refine ⟨tableFits,columnFits,?_⟩
  rintro rfl
  exact tables cons member column same

private theorem constraints_restored (checks : ∀ cons ∈ schema.constraints, cons.checkExprSql ≠ some "") :
    setEach setForeignKey (if schema.constraints.any fun cons => cons.foreignKey.isSome then
      schema.constraints.map (·.foreignKey) else [])
      (schema.constraints.map withoutKey) = schema.constraints := by
  have set := @setEach_optional _ _ _ setForeignKey (schema.constraints.any fun cons =>
    cons.foreignKey.isSome) (·.foreignKey) withoutKey
    schema.constraints (by
      intro absent cons member
      rw [any_isSome_false absent cons member]
      rfl)
  rw [set]
  have each (cons : ColumnConstraints) (member : cons ∈ schema.constraints) : setForeignKey cons.foreignKey
    (withoutKey cons) = cons := by
    have kept : keptCheck cons.checkExprSql = cons.checkExprSql := by
      cases check : cons.checkExprSql with
      | none => rfl
      | some sql =>
        refine Option.filter_some_pos ?_
        have other : sql ≠ "" := by
          rintro rfl
          exact checks cons member check
        simpa using other
    unfold setForeignKey withoutKey
    rw [kept]
    obtain ⟨_,_,_,_,_,key,_⟩ := cons
    cases key <;> rfl
  conv_rhs => rw [← List.map_id schema.constraints]
  exact List.map_congr_left each

private theorem derivations_stage (wf : Wf schema) (bounded : Bounded schema) (columns : named.columns = schema.columns)
    (index : named.nameToIdx = schema.nameToIdx) (none_ : named.vectorDerivations = []) {rest : Bytes}
    (begins : Begins [0x4C] rest) :
    marked 0xA7 (parseVectorDerivations named) named
      (optional (!schema.vectorDerivations.isEmpty) 0xA7 schema.vectorDerivationBytes ++ rest) =
        .ok ({named with vectorDerivations := schema.vectorDerivations},rest) := by
  obtain ⟨supported,targets⟩ := wf.valid bounded.indexed
  have fits {name : String} {i : Nat} (found : schema.nameToIdx name = some i) : TextFits name := by
    obtain ⟨column,there,rfl⟩ := Option.map_eq_some_iff.mp (wf.placed name i found)
    exact bounded.names column (List.mem_of_getElem? there)
  have read : Yields (parseVectorDerivations named) schema.vectorDerivationBytes
      (.ok {named with vectorDerivations := schema.vectorDerivations}) := by
    refine yields_ifRoom (by simp [OnDemandSchema.vectorDerivationBytes])
      (yields_then (yields_word _ 2 _ bounded.derivations) ?_)
    have all := @yields_readDerivations named schema.vectorDerivations
      (fun derivation member => by
        obtain ⟨differ,source,target⟩ := supported derivation member
        refine ⟨differ,?_,?_⟩
        · rw [columns,index]
          exact source
        · rw [columns,index]
          exact target)
      (fun derivation member => by
        obtain ⟨_,⟨i,_,source,_⟩,⟨j,_,target,_⟩⟩ := supported derivation member
        exact ⟨fits source,fits target⟩)
      (by rwa [none_,List.nil_append])
    rwa [none_,List.nil_append] at all
  have stage : marked 0xA7 (parseVectorDerivations named) named
      (optional (!schema.vectorDerivations.isEmpty) 0xA7 schema.vectorDerivationBytes ++ rest) =
        .ok (if !schema.vectorDerivations.isEmpty then {named with vectorDerivations := schema.vectorDerivations}
          else named,rest) :=
    marked_optional (fun _ => read) begins (by decide)
  rw [stage]
  cases derivations : schema.vectorDerivations with
  | nil =>
    have same : {named with vectorDerivations := []} = named := by rw [← none_]
    rw [same]
    rfl
  | cons first more => rfl

private theorem parseLogicalTypes_start (wf : Wf schema) (few : schema.columns.length < 2^32)
    (columns : named.columns = schema.columns) (rest : Bytes) :
    parseLogicalTypes named (schema.logicalTypeBytes ++ rest) =
      readLogicalTypes schema.columns.length 0 named (schema.logicalTypes.flatMap logicalBytes ++ rest) := by
  have version := yields_byte 1 (leBytes 4 schema.columns.length ++ (schema.logicalTypes.flatMap logicalBytes ++ rest))
  have count := yields_word Failure.panicked 4 _ few (schema.logicalTypes.flatMap logicalBytes ++ rest)
  rw [logicalTypeBytes_eq wf.logicalTypes,List.cons_append,List.append_assoc,parseLogicalTypes,ifRoom,if_pos (by simp)]
  simp only [bind,StateT.bind]
  rw [List.singleton_append] at version
  rw [version]
  simp only [Except.map,Except.bind]
  rw [if_neg (by decide)]
  simp only [bind,StateT.bind]
  rw [count]
  simp only [Except.map,Except.bind,columns]
  rw [if_neg (by simp)]

private theorem logical_stage (wf : Wf schema) (fits : ∀ logical, some logical ∈ schema.logicalTypes → logical.Fits)
    (few : schema.columns.length < 2^32) (columns : named.columns = schema.columns)
    (blank : named.logicalTypes = List.replicate schema.columns.length none) :
    marked 0x4C (parseLogicalTypes named) named (optional (schema.logicalTypes.any Option.isSome) 0x4C
      schema.logicalTypeBytes) =
      .ok ({named with logicalTypes := schema.logicalTypes},[]) := by
  have read : Yields (parseLogicalTypes named) schema.logicalTypeBytes (.ok {named with
    logicalTypes := schema.logicalTypes}) := by
    intro rest
    rw [parseLogicalTypes_start wf few columns,← wf.logicalTypes]
    have all := @readLogicalTypes_front named [] schema.logicalTypes 0 fits (by simp [columns,wf.logicalTypes])
      (by simp [blank,wf.logicalTypes]) rest
    simp only [Nat.add_zero,List.length_nil,List.nil_append,List.replicate_zero,List.append_nil] at all
    rw [all]
    rfl
  have stage : marked 0x4C (parseLogicalTypes named) named
      (optional (schema.logicalTypes.any Option.isSome) 0x4C schema.logicalTypeBytes ++ []) =
        .ok (if schema.logicalTypes.any Option.isSome then {named with logicalTypes := schema.logicalTypes}
          else named,[]) :=
    marked_optional (fun _ => read) (begins_nil []) List.not_mem_nil
  rw [List.append_nil] at stage
  rw [stage]
  cases any_ : schema.logicalTypes.any Option.isSome with
  | true => rfl
  | false =>
    have none_ : schema.logicalTypes = List.replicate schema.columns.length none := by
      rw [← wf.logicalTypes]
      refine List.eq_replicate_iff.mpr ⟨rfl,fun logical member => ?_⟩
      have absent := List.any_eq_false.mp any_ logical member
      simpa using absent
    rw [none_,← blank]
    rfl

private theorem columns_stage (wf : Wf schema) (indexed : Indexed schema) (few : schema.columns.length < 2^32)
    (names : ∀ column ∈ schema.columns, TextFits column.1) : ∃ named : OnDemandSchema,
    named.columns = schema.columns ∧ named.nameToIdx = schema.nameToIdx ∧
    named.logicalTypes = List.replicate schema.columns.length none ∧ named.constraints.length = schema.columns.length ∧
    named.vectorDerivations = [] ∧
    readSchema schema.toBytes = readOptional schema.columns.length named schema.optionalBytes := by
  have distinct := indexed.nodup
  obtain ⟨columns,logicalTypes,constraints,derivations⟩ := @addColumn_distinct .new schema.columns placed_new distinct
  obtain ⟨namedPlaced,namedIndexed⟩ := addColumn_keeps schema.columns placed_new indexed_new
  refine ⟨_,columns,namedIndexed.unique indexed namedPlaced wf.placed columns,logicalTypes,?_,derivations,?_⟩
  · rw [constraints,List.length_append,List.length_replicate]
    exact Nat.zero_add _
  · have counted := yields_word Failure.panicked 4 schema.columns.length few
      (schema.columns.flatMap columnBytes ++ schema.optionalBytes)
    have read := @yields_readColumns .new schema.columns names schema.optionalBytes
    rw [OnDemandSchema.toBytes,readSchema,ifRoom,if_pos (by simp)]
    simp only [bind,StateT.bind]
    rw [counted]
    simp only [Except.map,Except.bind]
    rw [read]
    rfl

/-! What comes back shows what was written. -/

private theorem setEach_frame {α β γ : Type} {set : α → β → β} (view : β → γ)
    (keeps : ∀ value item, view (set value item) = view item) (values : List α)
    (items : List β) : (setEach set values items).map view = items.map view := by
  induction values generalizing items with
  | nil => rw [setEach_nil]
  | cons value values ih =>
    cases items with
    | nil => rfl
    | cons item items => rw [setEach,List.map_cons,List.map_cons,keeps,ih]

private theorem setEach_split {α β γ : Type} {set : α → β → β} (f : γ → α) (g : γ → β) (front : List γ) (value : α)
    (more : List α) (item : β) (items : List β) :
    setEach set (front.map f ++ value :: more) (front.map g ++ item :: items) =
      (front.map fun thing => set (f thing) (g thing)) ++ set value item :: setEach set more items := by
  induction front with
  | nil => rfl
  | cons thing rest ih => simp only [List.map_cons,List.cons_append,setEach,ih]

section
variable {cs : List ColumnConstraints} {keys : List (Option (String × String))}

private theorem checks_of (same : cs = setEach setForeignKey keys (cs.map withoutKey)) :
    ∀ cons ∈ cs, cons.checkExprSql ≠ some "" := by
  have frame (key : Option (String × String)) (cons : ColumnConstraints) : (setForeignKey key cons).checkExprSql =
    cons.checkExprSql := by
    unfold setForeignKey
    split <;> rfl
  have kept := setEach_frame (fun cons => cons.checkExprSql) frame keys (cs.map withoutKey)
  rw [← same,List.map_map] at kept
  intro cons member empty
  have check := List.map_inj_left.mp kept cons member
  simp only [Function.comp_apply,withoutKey,empty] at check
  cases check

private theorem tables_of {rest left : Bytes} (fits : ∀ cons ∈ cs, cons.Fits)
    (same : cs = setEach setForeignKey keys (cs.map withoutKey))
    (read : marked 0xFC (upTo readForeignKey cs.length) [] (optional (cs.any fun cons => cons.foreignKey.isSome) 0xFC
      (cs.flatMap fun cons => foreignKeyBytes cons.foreignKey) ++ rest) = .ok (keys,left)) :
    ∀ cons ∈ cs, ∀ column, cons.foreignKey ≠ some ("",column) := by
  intro cons member column unnamed
  have there : (cs.find? fun cons => cons.foreignKey.any fun key => decide (key.1 = "")).isSome = true :=
    List.find?_isSome.mpr ⟨cons,member,by rw [unnamed]; rfl⟩
  obtain ⟨bad,found⟩ := Option.isSome_iff_exists.mp there
  obtain ⟨isBad,front,back,rfl,good⟩ := List.find?_eq_some_iff_append.mp found
  obtain ⟨⟨table,other⟩,key,empty⟩ := (Option.any_eq_true _ _).mp isBad
  obtain rfl : table = "" := by simpa using empty
  have present : ((front ++ bad :: back).any fun cons => cons.foreignKey.isSome) = true :=
    List.any_eq_true.mpr ⟨cons,member,by rw [unnamed]; rfl⟩
  have each (good_ : ColumnConstraints) (before : good_ ∈ front) :
      Yields readForeignKey (foreignKeyBytes good_.foreignKey) (.ok (some good_.foreignKey)) := by
    refine yields_readForeignKey fun table column same => ?_
    obtain ⟨tableFits,columnFits⟩ := (fits good_ (List.mem_append_left _ before)).foreignKey table column same
    refine ⟨tableFits,columnFits,?_⟩
    rintro rfl
    have named := good good_ before
    rw [same] at named
    cases named
  rw [present] at read
  simp only [Reader.optional,if_true,List.cons_append,marked] at read
  rw [List.flatMap_append,List.flatMap_cons,List.append_assoc,List.append_assoc,List.length_append,List.length_cons,
    key] at read
  obtain ⟨more,keysAre⟩ := upTo_starts front each (readForeignKey_unnamed other _) read
  rw [keysAre,List.map_append,List.map_cons,setEach_split] at same
  have heads := (List.append_inj same (by simp)).2
  have lost := (List.cons.inj heads).1
  rw [show setForeignKey none (withoutKey bad) = withoutKey bad from rfl] at lost
  have gone : bad.foreignKey = none := by rw [lost]; rfl
  rw [gone] at key
  cases key

end

private theorem returns_earlier {count index place : Nat} {schema : OnDemandSchema} (before : place < index) :
    Returns (fun next => schema.columns.length = schema.logicalTypes.length →
      next.logicalTypes[place]? = schema.logicalTypes[place]?)
      (readLogicalTypes count index schema) := by
  induction count generalizing index schema with
  | zero => exact returns_pure fun _ => rfl
  | succ count ih =>
    refine Returns.then fun present => ?_
    split
    · refine Returns.then fun logical => ?_
      intro bytes next rest ok size
      have later := ih (before.trans (Nat.lt_succ_self index)) bytes next rest ok
      unfold OnDemandSchema.setLogicalType at later
      split at later
      · exact later size
      · rw [later (by simp [size])]
        simp only [size,Nat.sub_self,List.replicate_zero,List.append_nil]
        rw [List.getElem?_set_ne (by omega)]
    · exact ih (before.trans (Nat.lt_succ_self index))

private theorem readLogicalType_long {codec : String} (long : ¬ TextFits codec) (version : UInt8) (rest : Bytes) :
    ∃ part found left, part ≠ codec ∧ readLogicalType ((LogicalType.extension codec version).toBytes ++ rest) =
    .ok (.extension part found,left) := by
  have size : 2^16 ≤ (utf8 codec).length := Nat.le_of_not_lt long
  let count := (utf8 codec).length % 256^2
  have short : count < 2^16 := Nat.mod_lt _ (by decide)
  have less : count + 16 ≤ (utf8 codec).length := by omega
  obtain ⟨next,more,behind⟩ : ∃ next more, (utf8 codec).drop count ++ ([version] ++ rest) = next :: more := by
    cases remaining : (utf8 codec).drop count with
    | nil => exact ⟨version,rest,rfl⟩
    | cons next more => exact ⟨next,more ++ ([version] ++ rest),rfl⟩
  refine ⟨DeltaFile.fromUtf8Lossy ((utf8 codec).take count),next,more,DeltaFile.lossy_cut less,?_⟩
  have taken : ((utf8 codec).take count).length = count := List.length_take_of_le (by omega)
  have bytes : (LogicalType.extension codec version).toBytes ++ rest =
      (5 :: (leBytes 2 (utf8 codec).length ++ ((utf8 codec).take count ++ [next]))) ++ more := by
    have whole : utf8 codec ++ ([version] ++ rest) = (utf8 codec).take count ++ ([next] ++ more) := by
      conv_lhs => rw [← List.take_append_drop count (utf8 codec)]
      rw [List.append_assoc,behind]
      rfl
    simp only [LogicalType.toBytes,shortText,List.cons_append,List.append_assoc] at whole ⊢
    rw [whole]
  have read : Yields readLogicalType (5 :: (leBytes 2 (utf8 codec).length ++ ((utf8 codec).take count ++ [next])))
      (.ok (.extension (DeltaFile.fromUtf8Lossy ((utf8 codec).take count)) next)) := by
    refine yields_ifRoom (by simp) (yields_tag 5 (by decide) (yields_ifRoom (by simp) ?_))
    refine yields_then (yields_wrapped .panicked 2 _) (yields_ifRoom ?_ ?_)
    · rw [List.length_append,taken]
      exact le_rfl
    · exact yields_then (yields_exactly _ taken) (yields_last (yields_byte next) rfl)
  rw [bytes,read]
  rfl

private def isLong : Option LogicalType → Bool
  | some (.extension codec _) => !decide (TextFits codec)
  | _ => false

private theorem logical_of (wf : Wf schema) (few : schema.columns.length < 2^32)
    (columns : named.columns = schema.columns) (blank : named.logicalTypes = List.replicate schema.columns.length none)
    {next : OnDemandSchema} {left : Bytes}
    (read : marked 0x4C (parseLogicalTypes named) named (optional (schema.logicalTypes.any Option.isSome) 0x4C
      schema.logicalTypeBytes) =
      .ok (next,left)) (same : next.logicalTypes = schema.logicalTypes) : ∀ logical,
        some logical ∈ schema.logicalTypes → logical.Fits := by
  rintro _ member codec version rfl
  by_contra long
  have there : (schema.logicalTypes.find? isLong).isSome = true :=
    List.find?_isSome.mpr ⟨_,member,by simp [isLong,long]⟩
  obtain ⟨bad,found⟩ := Option.isSome_iff_exists.mp there
  obtain ⟨isBad,front,back,split,good⟩ := List.find?_eq_some_iff_append.mp found
  obtain ⟨name,tag,rfl,tooLong⟩ : ∃ name tag, bad = some (.extension name tag) ∧ ¬ TextFits name := by
    rcases bad with _ | _ | _ | _ | _ | ⟨name,tag⟩
    case some.extension => exact ⟨name,tag,rfl,by simpa [isLong] using isBad⟩
    all_goals cases isBad
  have fits (logical : LogicalType) (before : some logical ∈ front) : logical.Fits := by
    rintro name tag rfl
    have short := good _ before
    simpa [isLong] using short
  have present : schema.logicalTypes.any Option.isSome = true := List.any_eq_true.mpr ⟨_,member,rfl⟩
  have size : schema.columns.length = front.length + (back.length + 1) := by
    rw [← wf.logicalTypes,split,List.length_append,List.length_cons]
  have start := parseLogicalTypes_start wf few columns []
  rw [List.append_nil,List.append_nil] at start
  rw [present] at read
  simp only [Reader.optional,if_true,marked] at read
  have placed := @readLogicalTypes_front named [] front (back.length + 1) fits (by rw [columns,size]; simp)
    (by rw [blank,size]; simp)
    (logicalBytes (some (.extension name tag)) ++ back.flatMap logicalBytes)
  rw [start,split,List.flatMap_append,List.flatMap_cons,size] at read
  simp only [List.length_nil,Nat.zero_add,List.nil_append] at placed
  rw [placed,readLogicalTypes] at read
  obtain ⟨part,tagRead,rest,other,partRead⟩ := readLogicalType_long tooLong tag (back.flatMap logicalBytes)
  obtain ⟨first,middle,firstRead,read⟩ := of_bind read
  have marker : Yields (ifRoom 1 byte (fail (failed "Truncated logical-type entry"))) [1] (.ok 1) :=
    yields_ifRoom (by simp) (yields_byte 1)
  rw [show logicalBytes (some (.extension name tag)) ++ back.flatMap logicalBytes =
    [1] ++ ((LogicalType.extension name tag).toBytes ++ back.flatMap logicalBytes) from rfl,marker] at firstRead
  cases firstRead
  rw [if_pos rfl] at read
  obtain ⟨logical,after,logicalRead,read⟩ := of_bind read
  rw [partRead] at logicalRead
  cases logicalRead
  have inside : ¬ named.columns.length ≤ front.length := by rw [columns,size]; omega
  simp only [OnDemandSchema.setLogicalType,if_neg inside] at read
  have kept := returns_earlier (Nat.lt_succ_self front.length) _ _ _ read (by simp [columns,size])
  rw [same,split] at kept
  simp [columns,size,List.replicate_succ] at kept
  exact other kept.1.symm

end Assembly

/-! The theorem. -/

structure Storable (schema : OnDemandSchema) : Prop extends Bounded schema where
  checks : ∀ cons ∈ schema.constraints, cons.checkExprSql ≠ some ""
  tables : ∀ cons ∈ schema.constraints, ∀ column, cons.foreignKey ≠ some ("",column)
  codecs : ∀ logical, some logical ∈ schema.logicalTypes → logical.Fits

section RoundTrip

variable {schema : OnDemandSchema}

private theorem begins_logical (schema : OnDemandSchema) :
    Begins [0x4C] (optional (schema.logicalTypes.any Option.isSome) 0x4C schema.logicalTypeBytes) := by
  have begins : Begins [0x4C] (optional (schema.logicalTypes.any Option.isSome) 0x4C schema.logicalTypeBytes ++ []) :=
    begins_optional (begins_nil [])
  rwa [List.append_nil] at begins

private theorem readSchema_toBytes (wf : Wf schema) (storable : Storable schema) :
    readSchema schema.toBytes = .ok (schema,[]) := by
  obtain ⟨named,columns,index,blank,size,none_,start⟩ := columns_stage wf storable.indexed storable.few storable.names
  have constraints := constraints_stage wf storable.constraints size
    (begins_optional (begins_logical schema) : Begins [0xA7,0x4C] (optional (!schema.vectorDerivations.isEmpty) 0xA7
      schema.vectorDerivationBytes ++ _))
  rw [keys_stage wf storable.constraints storable.tables (begins_optional (begins_logical schema))] at constraints
  simp only [Except.map,constraints_restored storable.checks] at constraints
  have derivations := @derivations_stage schema {named with constraints := schema.constraints} wf storable.toBounded
    columns index none_ _ (begins_logical schema)
  have logical := @logical_stage schema {named with
    constraints := schema.constraints,vectorDerivations := schema.vectorDerivations} wf
    storable.codecs storable.few columns blank
  rw [start,OnDemandSchema.optionalBytes]
  simp only [readOptional,bind,StateT.bind]
  rw [constraints]
  simp only [Except.bind]
  rw [derivations]
  simp only
  rw [logical,columns,index]

private theorem storable_of (wf : Wf schema) {left : Bytes} (ok : readSchema schema.toBytes = .ok (schema,left)) :
    Storable schema := by
  have bounded := returns_readSchema _ _ _ ok
  obtain ⟨named,columns,index,blank,size,none_,start⟩ := columns_stage wf bounded.indexed bounded.few bounded.names
  have begins : Begins [0xA7,0x4C] (optional (!schema.vectorDerivations.isEmpty) 0xA7 schema.vectorDerivationBytes ++
      optional (schema.logicalTypes.any Option.isSome) 0x4C schema.logicalTypeBytes) :=
        begins_optional (begins_logical schema)
  have constraints := constraints_stage wf bounded.constraints size begins
  rw [start,readOptional,OnDemandSchema.optionalBytes] at ok
  obtain ⟨constrained,afterConstraints,readC,ok⟩ := of_bind ok
  rw [constraints] at readC
  obtain ⟨⟨keys,afterKeys⟩,readK,same⟩ := map_eq_ok.mp readC
  obtain ⟨rfl,rfl⟩ := Prod.mk.inj same
  obtain ⟨derived,afterDerivations,readD,readL⟩ := of_bind ok
  obtain ⟨derivations,rfl,_⟩ := returns_parseVectorDerivations (by exact none_) _ _ _ readD
  obtain ⟨logicalTypes,restored⟩ := returns_parseLogicalTypes _ _ _ readL
  have kept : schema.constraints = setEach setForeignKey keys (schema.constraints.map withoutKey) := by
    conv_lhs => rw [restored]
  have checks := checks_of kept
  have tables : ∀ cons ∈ schema.constraints, ∀ column, cons.foreignKey ≠ some ("",column) := by
    rw [keyBytes,← wf.constraints] at readK
    exact tables_of bounded.constraints kept readK
  refine ⟨bounded,checks,tables,?_⟩
  rw [keys_stage wf bounded.constraints tables begins] at readK
  obtain ⟨rfl,rfl⟩ := Prod.mk.inj (Except.ok.inj readK)
  rw [constraints_restored checks] at readD readL
  have stage := @derivations_stage schema {named with constraints := schema.constraints} wf bounded columns index none_
    _ (begins_logical schema)
  rw [stage] at readD
  obtain ⟨same,rfl⟩ := Prod.mk.inj (Except.ok.inj readD)
  obtain rfl : schema.vectorDerivations = derivations := congrArg OnDemandSchema.vectorDerivations same
  exact @logical_of schema {named with constraints := schema.constraints,vectorDerivations := schema.vectorDerivations}
    wf bounded.few columns blank
    schema left readL rfl

theorem fromBytes_safe (bytes : Bytes) : OnDemandSchema.fromBytes bytes ≠ .error .panicked := by
  have never := never_readSchema bytes
  intro failed
  rw [OnDemandSchema.fromBytes] at failed
  cases read : readSchema bytes with
  | error failure =>
    rw [read] at failed never
    exact never (congrArg _ (Except.error.inj failed))
  | ok pair =>
    rw [read] at failed
    cases failed

theorem comes_back_iff : OnDemandSchema.fromBytes schema.toBytes = .ok schema ↔ Wf schema ∧ Storable schema := by
  constructor
  · intro ok
    obtain ⟨⟨read,left⟩,ok,rfl⟩ := map_eq_ok.mp ok
    have wf := wf_readSchema _ _ _ ok
    exact ⟨wf,storable_of wf ok⟩
  · rintro ⟨wf,storable⟩
    rw [OnDemandSchema.fromBytes,readSchema_toBytes wf storable]
    rfl

/-- A schema that the methods built comes back from its bytes exactly when every column is found
under its name, every length fits its field, and no expression and no table name of a key is empty.
No bytes at all are read past their end. -/
theorem schema_round_trip_iff {edits : List Edit} (built : Built edits schema) :
    (OnDemandSchema.fromBytes schema.toBytes = .ok schema ↔ Storable schema) ∧ ∀ bytes, OnDemandSchema.fromBytes bytes ≠
    .error .panicked :=
  ⟨comes_back_iff.trans (and_iff_right (built_wf built)),fromBytes_safe⟩

end RoundTrip

def oneColumn (cons : ColumnConstraints) : OnDemandSchema :=
  (OnDemandSchema.new.addColumnWithConstraints "id" .int64 cons).1

private theorem oneColumn_built (cons : ColumnConstraints) :
    Built [.addColumnWithConstraints "id" .int64 cons] (oneColumn cons) := by
  have played : play edit (fun _ _ => true) .new [.addColumnWithConstraints "id" .int64 cons] =
      some ([.addColumnWithConstraints "id" .int64 cons],oneColumn cons) := rfl
  exact Run.of_play played

theorem checked_column_comes_back :
    OnDemandSchema.fromBytes (oneColumn {checkExprSql := some "id > 0"}).toBytes =
    .ok (oneColumn {checkExprSql := some "id > 0"}) := by
  refine (schema_round_trip_iff (oneColumn_built _)).1.mpr ?_
  constructor
  case toBounded =>
    refine ⟨?_,by decide,?_,?_,by decide⟩
    · intro i column there
      match i,there with
      | 0,there =>
        cases there
        rfl
    · exact List.forall_mem_singleton.mpr (by decide)
    · refine List.forall_mem_singleton.mpr ⟨nofun,?_,nofun⟩
      intro sql same
      cases same
      decide
  case checks => exact List.forall_mem_singleton.mpr (by decide)
  case tables => exact List.forall_mem_singleton.mpr nofun
  case codecs => exact fun logical member => nomatch List.mem_singleton.mp member

theorem empty_check_is_lost : Built [.addColumnWithConstraints "id" .int64 {checkExprSql := some ""}]
    (oneColumn {checkExprSql := some ""}) ∧
    OnDemandSchema.fromBytes (oneColumn {checkExprSql := some ""}).toBytes ≠
    .ok (oneColumn {checkExprSql := some ""}) := by
  refine ⟨oneColumn_built _,fun same => ?_⟩
  have read : (OnDemandSchema.fromBytes (oneColumn {checkExprSql := some ""}).toBytes).map (·.constraints) = .ok [{}] :=
    rfl
  rw [same] at read
  exact absurd (Except.ok.inj read) (by decide)

end ApexBase.Storage.Schema
