import ApexBase.Wal.Record

/-! Decoding the bytes of a record. The decoder returns what `readBack` says of each value; from
that, exactly which records survive the round trip. -/
namespace ApexBase.Wal
open Data Library.Assoc Library.Wire Library.Wire.Reader

/-! Values. -/

private theorem yields_return {α β : Type} {reader : Reader Failure α} {bytes : Bytes} {result : Except Failure α}
    (f : α → β) (head : Yields reader bytes result) :
    Yields (do return f (← reader)) bytes (result.map f) :=
  yields_map f head

private theorem yields_u32Prefixed (short : Failure) (bytes : Bytes) (small : bytes.length < 256^4) :
    Yields (readPrefixed short) (u32Prefixed bytes) (.ok bytes) :=
  yields_then (yields_word short 4 bytes.length small) (yields_take short bytes)

private theorem readText_utf8 (text : String) : readText (utf8 text) = .ok text := by
  simp [readText,fromUtf8_utf8]

private theorem yields_prefixedText (short : Failure) (text : String) (small : (utf8 text).length < 256^4) :
    Yields (readPrefixedText short) (u32Prefixed (utf8 text)) (.ok text) := by
  have decoded := yields_lift (readText (utf8 text))
  have both := @yields_then _ _ _ _ (fun raw => Reader.lift (readText raw)) _ _ _ _
    (yields_u32Prefixed short (utf8 text) small) decoded
  rwa [List.append_nil,readText_utf8] at both

private theorem yields_fixed {β : Type} (short : Failure) (width value : Nat) (small : value < 256^width) (f : Nat → β)
    {v : β} (same : f value = v) : Yields (do return f (← word short width)) (leBytes width value) (.ok v) := by
  have read := yields_return f (yields_word short width value small)
  rwa [Except.map,same] at read

def backColumnValue (blob : Bool) : ColumnValue → Except Failure ColumnValue
  | .fixedList value => .ok (.binary value)
  | .blob value => if blob then .ok (.blob value) else .error (invalidData "Invalid value type")
  | value => .ok value

theorem yields_columnValue (blob : Bool) (value : ColumnValue) (small : (writeColumnValue value).length < 256^4) :
    Yields (readColumnValue blob) (writeColumnValue value) (backColumnValue blob value) := by
  cases value with
  | null => exact yields_then (yields_word _ 1 0 (by decide)) (yields_pure _)
  | bool value =>
    refine yields_then (yields_word _ 1 1 (by decide)) ?_
    cases value with
    | false => exact yields_return _ (yields_word _ 1 0 (by decide))
    | true => exact yields_return _ (yields_word _ 1 1 (by decide))
  | int64 value =>
    exact yields_then (yields_word _ 1 2 (by decide)) (yields_fixed _ 8 _ value.toUInt64.toNat_lt _ (by simp))
  | float64 bits => exact yields_then (yields_word _ 1 3 (by decide)) (yields_fixed _ 8 _ bits.toNat_lt _ (by simp))
  | string value =>
    have inside : (utf8 value).length < 256^4 := by simp [writeColumnValue,u32Prefixed] at small; omega
    exact yields_then (yields_word _ 1 4 (by decide)) (yields_return _ (yields_prefixedText .panicked value inside))
  | binary value =>
    have inside : value.length < 256^4 := by simp [writeColumnValue,u32Prefixed] at small; omega
    exact yields_then (yields_word _ 1 5 (by decide)) (yields_return _ (yields_u32Prefixed .panicked value inside))
  | fixedList value =>
    have inside : value.length < 256^4 := by simp [writeColumnValue,u32Prefixed] at small; omega
    exact yields_then (yields_word _ 1 5 (by decide)) (yields_return _ (yields_u32Prefixed .panicked value inside))
  | blob value =>
    have inside : value.length < 256^4 := by simp [writeColumnValue,u32Prefixed] at small; omega
    refine yields_then (yields_word _ 1 6 (by decide)) ?_
    cases blob with
    | true => exact yields_return _ (yields_u32Prefixed .panicked value inside)
    | false => exact yields_fail _ _

mutual

/-- What `read_value` returns for a written value: only JSON passes through another codec. -/
def backValue (ext : External) : Value → Except Failure Value
  | .json value => (readJson ext (utf8 (ext.jsonText value))).map .json
  | .array values => (backValues ext values).map .array
  | value => .ok value

def backValues (ext : External) : List Value → Except Failure (List Value)
  | [] => .ok []
  | value :: rest => do
    let first ← backValue ext value
    let others ← backValues ext rest
    return first :: others

end

private theorem yields_prefixedJson (ext : External) (text : String) (small : (utf8 text).length < 256^4) :
    Yields (readPrefixedJson ext) (u32Prefixed (utf8 text)) (readJson ext (utf8 text)) := by
  have decoded := yields_lift (readJson ext (utf8 text))
  have both := @yields_then _ _ _ _ (fun raw => Reader.lift (readJson ext raw)) _ _ _ _
    (yields_u32Prefixed truncatedValue (utf8 text) small) decoded
  rwa [List.append_nil] at both

private theorem length_writeValue_pos (ext : External) (value : Value) : 1 ≤ (writeValue ext value).length := by
  cases value <;> simp [writeValue]

private theorem length_le_writeValues (ext : External) (values : List Value) :
    values.length ≤ (writeValues ext values).length := by
  induction values with
  | nil => simp
  | cons value rest ih =>
    have := length_writeValue_pos ext value
    simp only [writeValues,List.length_cons,List.length_append]
    omega

mutual

theorem yields_value (ext : External) (value : Value) (depth : Nat) (deep : (writeValue ext value).length ≤ depth)
    (small : (writeValue ext value).length < 256^4) :
    Yields (readValueWithin ext depth) (writeValue ext value) (backValue ext value) := by
  obtain ⟨depth,rfl⟩ := Nat.exists_eq_add_of_le' (Nat.le_trans (length_writeValue_pos ext value) deep)
  match value with
  | .null => exact yields_then (yields_word _ 1 0 (by decide)) (yields_pure _)
  | .bool false => exact yields_then (yields_word _ 1 1 (by decide)) (yields_fixed _ 1 0 (by decide) _ rfl)
  | .bool true => exact yields_then (yields_word _ 1 1 (by decide)) (yields_fixed _ 1 1 (by decide) _ rfl)
  | .int8 value =>
    exact yields_then (yields_word _ 1 2 (by decide)) (yields_fixed _ 1 _ value.toUInt8.toNat_lt _ (by simp))
  | .int16 value =>
    exact yields_then (yields_word _ 1 3 (by decide)) (yields_fixed _ 2 _ value.toUInt16.toNat_lt _ (by simp))
  | .int32 value =>
    exact yields_then (yields_word _ 1 4 (by decide)) (yields_fixed _ 4 _ value.toUInt32.toNat_lt _ (by simp))
  | .int64 value =>
    exact yields_then (yields_word _ 1 5 (by decide)) (yields_fixed _ 8 _ value.toUInt64.toNat_lt _ (by simp))
  | .uint8 value =>
    exact yields_then (yields_word _ 1 6 (by decide)) (yields_fixed _ 1 _ value.toNat_lt _ (by simp))
  | .uint16 value =>
    exact yields_then (yields_word _ 1 7 (by decide)) (yields_fixed _ 2 _ value.toNat_lt _ (by simp))
  | .uint32 value =>
    exact yields_then (yields_word _ 1 8 (by decide)) (yields_fixed _ 4 _ value.toNat_lt _ (by simp))
  | .uint64 value =>
    exact yields_then (yields_word _ 1 9 (by decide)) (yields_fixed _ 8 _ value.toNat_lt _ (by simp))
  | .float32 bits =>
    exact yields_then (yields_word _ 1 10 (by decide)) (yields_fixed _ 4 _ bits.toNat_lt _ (by simp))
  | .float64 bits =>
    exact yields_then (yields_word _ 1 11 (by decide)) (yields_fixed _ 8 _ bits.toNat_lt _ (by simp))
  | .string value =>
    have inside : (utf8 value).length < 256^4 := by simp [writeValue,u32Prefixed] at small; omega
    exact yields_then (yields_word _ 1 12 (by decide)) (yields_return _
      (yields_prefixedText truncatedValue value inside))
  | .binary value =>
    have inside : value.length < 256^4 := by simp [writeValue,u32Prefixed] at small; omega
    exact yields_then (yields_word _ 1 13 (by decide)) (yields_return _
      (yields_u32Prefixed truncatedValue value inside))
  | .blob value =>
    have inside : value.length < 256^4 := by simp [writeValue,u32Prefixed] at small; omega
    exact yields_then (yields_word _ 1 14 (by decide)) (yields_return _
      (yields_u32Prefixed truncatedValue value inside))
  | .fixedList value =>
    have inside : value.length < 256^4 := by simp [writeValue,u32Prefixed] at small; omega
    exact yields_then (yields_word _ 1 15 (by decide)) (yields_return _
      (yields_u32Prefixed truncatedValue value inside))
  | .json value =>
    have inside : (utf8 (ext.jsonText value)).length < 256^4 := by simp [writeValue,u32Prefixed] at small; omega
    exact yields_then (yields_word _ 1 16 (by decide)) (yields_return _ (yields_prefixedJson ext _ inside))
  | .timestamp value =>
    exact yields_then (yields_word _ 1 17 (by decide)) (yields_fixed _ 8 _ value.toUInt64.toNat_lt _ (by simp))
  | .date value =>
    exact yields_then (yields_word _ 1 18 (by decide)) (yields_fixed _ 4 _ value.toUInt32.toNat_lt _ (by simp))
  | .time value =>
    exact yields_then (yields_word _ 1 20 (by decide)) (yields_fixed _ 8 _ value.toUInt64.toNat_lt _ (by simp))
  | .interval value =>
    exact yields_then (yields_word _ 1 21 (by decide)) (yields_fixed _ 8 _ value.toUInt64.toNat_lt _ (by simp))
  | .array values =>
    -- One level is spent on the tag, so the elements fit in the depth that is left.
    have shape : (writeValue ext (.array values)).length = 1 + (4 + (writeValues ext values).length) := by
      simp [writeValue,Nat.add_comm]
    have count := length_le_writeValues ext values
    have elements := yields_values ext values depth (by omega) (by omega)
    exact yields_then (yields_word _ 1 19 (by decide))
      (yields_then (yields_word _ 4 values.length (by omega)) (yields_return _ elements))

theorem yields_values (ext : External) (values : List Value) (depth : Nat)
    (deep : (writeValues ext values).length ≤ depth)
    (small : (writeValues ext values).length < 256^4) :
    Yields (readMany (readValueWithin ext depth) values.length) (writeValues ext values) (backValues ext values) := by
  match values with
  | [] => exact yields_pure _
  | value :: rest =>
    simp only [writeValues,List.length_append] at deep small
    refine yields_bind (yields_value ext value depth (by omega) (by omega)) ?_
    intro first _
    exact yields_return _ (yields_values ext rest depth (by omega) (by omega))

end

private def whole_ (read : Value × Bytes) : Except Failure Value :=
  if read.2.isEmpty then return read.1 else throw (invalidData "UPDATE value has trailing bytes")

theorem yields_updateValue (ext : External) (value : Value) (small : (writeValue ext value).length < 256^4) :
    Yields (readUpdateValue ext) (u32Prefixed (writeValue ext value)) (backValue ext value) := by
  have whole : readValue ext (writeValue ext value) = (backValue ext value).map (fun v => (v,[])) := by
    have read := yields_value ext value _ (Nat.le_refl _) small []
    rwa [List.append_nil] at read
  have checked : (readValue ext (writeValue ext value) >>= whole_) = backValue ext value := by
    rw [whole]
    cases backValue ext value <;> rfl
  have decoded := yields_lift (backValue ext value)
  rw [← checked] at decoded ⊢
  have both := @yields_then _ _ _ _ (fun raw => Reader.lift (readValue ext raw >>= whole_)) _ _ _ _
    (yields_u32Prefixed truncatedUpdate _ small) decoded
  rwa [List.append_nil] at both

mutual

def JsonIntact (ext : External) : Value → Prop
  | .json value => ext.jsonFromSlice (utf8 (ext.jsonText value)) = some value
  | .array values => AllJsonIntact ext values
  | _ => True

def AllJsonIntact (ext : External) : List Value → Prop
  | [] => True
  | value :: rest => JsonIntact ext value ∧ AllJsonIntact ext rest

end

mutual

theorem backValue_eq (ext : External) (value : Value) : backValue ext value = .ok value ↔ JsonIntact ext value := by
  match value with
  | .json value =>
    simp only [backValue,readJson,JsonIntact]
    cases parsed : ext.jsonFromSlice (utf8 (ext.jsonText value)) with
    | none => simp [Except.map]
    | some other => simp [Except.map]
  | .array values =>
    simp only [backValue,JsonIntact]
    rw [← backValues_eq ext values]
    cases backValues ext values with
    | error e => simp [Except.map]
    | ok others => simp [Except.map]
  | .null | .bool _ | .int8 _ | .int16 _ | .int32 _ | .int64 _ | .uint8 _ | .uint16 _ | .uint32 _ | .uint64 _
  | .float32 _ | .float64 _ | .string _ | .binary _ | .blob _ | .fixedList _ | .timestamp _ | .date _ | .time _
  | .interval _ => simp [backValue,JsonIntact]

theorem backValues_eq (ext : External) (values : List Value) :
    backValues ext values = .ok values ↔ AllJsonIntact ext values := by
  match values with
  | [] => simp [backValues,AllJsonIntact]
  | value :: rest =>
    simp only [backValues,AllJsonIntact]
    rw [← backValue_eq ext value,← backValues_eq ext rest]
    cases backValue ext value with
    | error e => simp [bind,Except.bind]
    | ok first => cases backValues ext rest <;> simp [bind,Except.bind,pure,Except.pure]

end

/-! Rows. -/

private theorem yields_name (short : Failure) (name : String) (small : (utf8 name).length < 256^2) :
    Yields (readName short) (writeName name) (.ok name) := by
  have decoded := yields_lift (readText (utf8 name))
  have read := @yields_then _ _ _ _ (fun raw => Reader.lift (readText raw)) _ _ _ _
    (yields_take short (utf8 name)) decoded
  rw [List.append_nil,readText_utf8] at read
  exact yields_then (yields_word short 2 (utf8 name).length small) read

section Fields

variable {V : Type} (short : Failure) (read : Reader Failure V) (write : V → Bytes) (back : V → Except Failure V)

def backFields : List (Sigma fun _ : String => V) → Map String V → Except Failure (Map String V)
  | [],row => .ok row
  | e :: rest,row => do
    let value ← back e.2
    backFields rest (row.insert e.1 value)

theorem yields_fields (entries : List (Sigma fun _ : String => V)) (row : Map String V)
    (fits : ∀ e ∈ entries, (utf8 e.1).length < 256^2 ∧ Yields read (write e.2) (back e.2)) :
    Yields (readFields short read entries.length row) (entries.flatMap (fun e => writeName e.1 ++ write e.2))
      (backFields back entries row) := by
  induction entries generalizing row with
  | nil => exact yields_pure _
  | cons e rest ih =>
    obtain ⟨small,inside⟩ := fits e List.mem_cons_self
    rw [List.flatMap_cons,List.append_assoc]
    refine yields_then (yields_name short e.1 small) (yields_bind inside ?_)
    intro value _
    exact ih _ (fun other member => fits other (List.mem_cons_of_mem _ member))

variable {back}

private theorem backFields_total (entries : List (Sigma fun _ : String => V)) (row : Map String V)
    (good : ∀ e ∈ entries, back e.2 = .ok e.2) : ∃ result, backFields back entries row = .ok result := by
  induction entries generalizing row with
  | nil => exact ⟨row,rfl⟩
  | cons e rest ih =>
    obtain ⟨result,ok⟩ := ih (row.insert e.1 e.2) (fun other member => good other (List.mem_cons_of_mem _ member))
    refine ⟨result,?_⟩
    simp only [backFields,good e List.mem_cons_self]
    exact ok

private theorem backFields_lookup (entries : List (Sigma fun _ : String => V)) (unique : entries.NodupKeys)
    (row result : Map String V) (ok : backFields back entries row = .ok result) :
    (∀ e ∈ entries, ∃ value, back e.2 = .ok value ∧ result.lookup e.1 = some value) ∧
    ∀ name, name ∉ entries.keys → result.lookup name = row.lookup name := by
  induction entries generalizing row with
  | nil =>
    cases ok
    exact ⟨by simp,fun _ _ => rfl⟩
  | cons e rest ih =>
    obtain ⟨absent,unique⟩ := List.nodupKeys_cons.mp unique
    simp only [backFields] at ok
    cases value : back e.2 with
    | error failure => simp [value,bind,Except.bind] at ok
    | ok v =>
      simp only [value,bind,Except.bind] at ok
      obtain ⟨inside,outside⟩ := ih unique _ ok
      refine ⟨?_,?_⟩
      · intro other member
        rcases List.mem_cons.mp member with rfl | later
        · exact ⟨v,value,(outside _ absent).trans (AList.lookup_insert _)⟩
        · exact inside other later
      · intro name missing
        simp only [List.keys_cons,List.mem_cons,not_or] at missing
        exact (outside name missing.2).trans (AList.lookup_insert_ne missing.1)

theorem backFields_same (row : Map String V) :
    (∃ result, backFields back row.entries ∅ = .ok result ∧ ∀ name, result.lookup name = row.lookup name) ↔
      ∀ e ∈ row.entries, back e.2 = .ok e.2 := by
  constructor
  · rintro ⟨result,ok,same⟩ e member
    obtain ⟨value,read,found⟩ := (backFields_lookup row.entries row.nodupKeys ∅ result ok).1 e member
    rw [same,AList.mem_lookup_iff.mpr member] at found
    rw [read,Option.some.inj found]
  · intro good
    obtain ⟨result,ok⟩ := backFields_total row.entries ∅ good
    obtain ⟨inside,outside⟩ := backFields_lookup row.entries row.nodupKeys ∅ result ok
    refine ⟨result,ok,?_⟩
    intro name
    by_cases present : name ∈ row.entries.keys
    · obtain ⟨e,member,rfl⟩ := List.mem_map.mp present
      obtain ⟨value,read,found⟩ := inside e member
      rw [good e member] at read
      cases read
      exact found.trans (AList.mem_lookup_iff.mpr member).symm
    · rw [outside name present]
      exact (AList.lookup_eq_none.mpr present).symm

private theorem readFields_all {short : Failure} {read : Reader Failure V} {P : V → Prop}
    (each : ∀ bytes value rest, read bytes = .ok (value,rest) → P value) (count : Nat) (row result : Map String V)
    (bytes rest : Bytes) (before : ∀ name value, row.lookup name = some value → (utf8 name).length < 256^2 ∧ P value)
    (ok : readFields short read count row bytes = .ok (result,rest)) :
    ∀ name value, result.lookup name = some value → (utf8 name).length < 256^2 ∧ P value := by
  induction count generalizing row bytes with
  | zero => exact of_pure ok ▸ before
  | succ count ih =>
    obtain ⟨name,afterName,named,ok⟩ := of_bind ok
    obtain ⟨value,afterValue,valued,ok⟩ := of_bind ok
    refine ih _ _ ?_ ok
    intro other found same
    rcases lookup_of_insert same with ⟨rfl,rfl⟩ | ⟨_,old⟩
    · obtain ⟨len,_,length,named⟩ := of_bind named
      obtain ⟨raw,_,taken,named⟩ := of_bind named
      have decoded := of_lift named
      unfold readText at decoded
      split at decoded
      · rename_i text valid
        cases decoded
        rw [utf8_of_fromUtf8 valid,of_take taken]
        exact ⟨of_word length,each _ _ _ valued⟩
      · cases decoded
    · exact before other found old

end Fields

/-- The insert decoders have no tag for a `FixedList`, and the transactional one none for a `Blob`. -/
def survives (blob : Bool) : ColumnValue → Bool
  | .fixedList _ => false
  | .blob _ => blob
  | _ => true

private theorem backColumnValue_eq (blob : Bool) (value : ColumnValue) :
    backColumnValue blob value = .ok value ↔ survives blob value = true := by
  cases value <;> cases blob <;> simp [backColumnValue,survives]

private theorem readColumnValue_survives (blob : Bool) (bytes : Bytes) (value : ColumnValue) (rest : Bytes)
    (ok : readColumnValue blob bytes = .ok (value,rest)) : survives blob value = true := by
  obtain ⟨tag,_,_,ok⟩ := of_bind ok
  split at ok
  · rw [of_pure ok]; rfl
  · obtain ⟨_,_,_,ok⟩ := of_bind ok
    rw [of_pure ok]; rfl
  · obtain ⟨_,_,_,ok⟩ := of_bind ok
    rw [of_pure ok]; rfl
  · obtain ⟨_,_,_,ok⟩ := of_bind ok
    rw [of_pure ok]; rfl
  · obtain ⟨_,_,_,ok⟩ := of_bind ok
    rw [of_pure ok]; rfl
  · obtain ⟨_,_,_,ok⟩ := of_bind ok
    rw [of_pure ok]; rfl
  · cases blob with
    | true =>
      obtain ⟨_,_,_,ok⟩ := of_bind ok
      rw [of_pure ok]; rfl
    | false => cases ok
  · cases ok

/-! Records. -/

def SameRow {V : Type} (a b : Map String V) : Prop := ∀ name, a.lookup name = b.lookup name

def WalRecord.Same : WalRecord → WalRecord → Prop
  | insert id row txnId,insert id' row' txnId' => id = id' ∧ SameRow row row' ∧ txnId = txnId'
  | batchInsert startId rows txnId,batchInsert startId' rows' txnId' =>
    startId = startId' ∧ List.Forall₂ SameRow rows rows' ∧ txnId = txnId'
  | delete id txnId,delete id' txnId' => id = id' ∧ txnId = txnId'
  | update id row txnId,update id' row' txnId' => id = id' ∧ SameRow row row' ∧ txnId = txnId'
  | checkpoint rowCount,checkpoint rowCount' => rowCount = rowCount'
  | txnBegin txnId,txnBegin txnId' => txnId = txnId'
  | txnCommit txnId,txnCommit txnId' => txnId = txnId'
  | txnRollback txnId,txnRollback txnId' => txnId = txnId'
  | _,_ => False

/-- Whatever follows the bytes of the record, decoding returns it and consumes exactly its bytes. -/
def RoundTrips (ext : External) (record : WalRecord) : Prop :=
  ∀ timestamp suffix, ∃ decoded,
    fromBytesVersioned ext (record.toBytes ext timestamp ++ suffix) walVersion =
      .ok (decoded,(record.toBytes ext timestamp).length) ∧ decoded.Same record

/-! The size of a record in bytes, from its values alone. -/

def columnValueSize : ColumnValue → Nat
  | .null => 1
  | .bool _ => 2
  | .int64 _ | .float64 _ => 9
  | .string value => 5 + (utf8 value).length
  | .binary value | .blob value | .fixedList value => 5 + value.length

mutual

def valueSize (ext : External) : Value → Nat
  | .null => 1
  | .bool _ | .int8 _ | .uint8 _ => 2
  | .int16 _ | .uint16 _ => 3
  | .int32 _ | .uint32 _ | .float32 _ | .date _ => 5
  | .int64 _ | .uint64 _ | .float64 _ | .timestamp _ | .time _ | .interval _ => 9
  | .string value => 5 + (utf8 value).length
  | .binary value | .blob value | .fixedList value => 5 + value.length
  | .json value => 5 + (utf8 (ext.jsonText value)).length
  | .array values => 5 + valuesSize ext values

def valuesSize (ext : External) : List Value → Nat
  | [] => 0
  | value :: rest => valueSize ext value + valuesSize ext rest

end

def fieldsSize {V : Type} (size : V → Nat) (row : Map String V) : Nat :=
  4 + (row.entries.map (fun e => 2 + (utf8 e.1).length + size e.2)).sum

def WalRecord.dataSize (ext : External) : WalRecord → Nat
  | insert _ row txnId => (if txnId ≠ 0 then 16 else 8) + fieldsSize columnValueSize row
  | batchInsert _ rows _ => 12 + (rows.map (fieldsSize columnValueSize)).sum
  | delete _ txnId => if txnId ≠ 0 then 16 else 8
  | update _ row _ => 16 + fieldsSize (fun value => 4 + valueSize ext value) row
  | checkpoint _ | txnBegin _ | txnCommit _ | txnRollback _ => 8

private theorem length_writeColumnValue (value : ColumnValue) :
    (writeColumnValue value).length = columnValueSize value := by
  cases value <;> simp [writeColumnValue,columnValueSize,u32Prefixed] <;> omega

mutual

private theorem length_writeValue (ext : External) (value : Value) :
    (writeValue ext value).length = valueSize ext value := by
  match value with
  | .array values =>
    simp only [writeValue,valueSize,List.length_cons,List.length_append,length_leBytes,length_writeValues ext values]
    omega
  | .string _ | .binary _ | .blob _ | .fixedList _ | .json _ =>
    simp only [writeValue,valueSize,u32Prefixed,List.length_cons,List.length_append,length_leBytes]
    omega
  | .null | .bool _ | .int8 _ | .int16 _ | .int32 _ | .int64 _ | .uint8 _ | .uint16 _ | .uint32 _ | .uint64 _
  | .float32 _ | .float64 _ | .timestamp _ | .date _ | .time _ | .interval _ => simp [writeValue,valueSize]

private theorem length_writeValues (ext : External) (values : List Value) :
    (writeValues ext values).length = valuesSize ext values := by
  match values with
  | [] => rfl
  | value :: rest =>
    simp only [writeValues,valuesSize,List.length_append,length_writeValue ext value,length_writeValues ext rest]

end

private theorem length_writeFields {V : Type} (write : V → Bytes) (size : V → Nat)
    (each : ∀ value, (write value).length = size value) (row : Map String V) :
    (writeFields write row).length = fieldsSize size row := by
  simp only [writeFields,fieldsSize,writeName,List.length_append,length_leBytes,List.length_flatMap,each,Nat.add_assoc]

private theorem length_data (ext : External) (record : WalRecord) : (record.data ext).length = record.dataSize ext := by
  have rowLength (row : Map String ColumnValue) : (writeRow row).length = fieldsSize columnValueSize row :=
    length_writeFields writeColumnValue columnValueSize length_writeColumnValue row
  cases record with
  | insert id row txnId =>
    simp only [WalRecord.data,WalRecord.dataSize]
    split <;> simp only [List.length_append,length_leBytes,rowLength]
  | batchInsert startId rows txnId =>
    simp only [WalRecord.data,WalRecord.dataSize,List.length_append,length_leBytes,List.length_flatMap,rowLength]
  | delete id txnId =>
    simp only [WalRecord.data,WalRecord.dataSize]
    split <;> simp only [List.length_append,length_leBytes]
  | update id row txnId =>
    have fields := length_writeFields (fun value => u32Prefixed (writeValue ext value)) (fun value =>
      4 + valueSize ext value)
      (fun value => by simp only [u32Prefixed,List.length_append,length_leBytes,length_writeValue]) row
    simp only [WalRecord.data,WalRecord.dataSize,writeValueRow,List.length_append,length_leBytes,fields]
  | checkpoint | txnBegin | txnCommit | txnRollback => simp only [WalRecord.data,WalRecord.dataSize,length_leBytes]

def NamesFit {V : Type} (row : Map String V) : Prop := ∀ e ∈ row.entries, (utf8 e.1).length < 2^16

/-- The data fits its 32-bit length and each name its 16-bit length, a batch belongs to no
transaction, and every value has a tag of its own in the decoder or, for JSON, reads back from its
own text. -/
def Survives (ext : External) (record : WalRecord) : Prop :=
  record.dataSize ext < 2^32 ∧
  match record with
  | .insert _ row txnId => NamesFit row ∧ ∀ e ∈ row.entries, survives (txnId == 0) e.2 = true
  | .batchInsert _ rows txnId => txnId = 0 ∧ ∀ row ∈ rows, NamesFit row ∧ ∀ e ∈ row.entries, survives true e.2 = true
  | .update _ row _ => NamesFit row ∧ ∀ e ∈ row.entries, JsonIntact ext e.2
  | _ => True

private theorem yields_u64 (short : Failure) (value : UInt64) :
    Yields (readU64 short) (leBytes 8 value.toNat) (.ok value) := by
  have read := yields_map UInt64.ofNat (yields_word short 8 value.toNat value.toNat_lt)
  rwa [Except.map,UInt64.ofNat_toNat] at read

private theorem length_le_flatMap {α : Type} (items : List α) (encode : α → Bytes) (item : α) (member : item ∈ items) :
    (encode item).length ≤ (items.flatMap encode).length := by
  obtain ⟨before,after,rfl⟩ := List.append_of_mem member
  simp only [List.flatMap_append,List.flatMap_cons,List.length_append]
  omega

private theorem count_le_flatMap {α : Type} (items : List α) (encode : α → Bytes)
    (nonempty : ∀ item ∈ items, 1 ≤ (encode item).length) : items.length ≤ (items.flatMap encode).length := by
  induction items with
  | nil => simp
  | cons item rest ih =>
    have first := nonempty item List.mem_cons_self
    have others := ih (fun other member => nonempty other (List.mem_cons_of_mem _ member))
    simp only [List.length_cons,List.flatMap_cons,List.length_append]
    omega

private theorem yields_writeFields {V : Type} (short : Failure) (read : Reader Failure V) (write : V → Bytes)
    (back : V → Except Failure V) (row : Map String V) (named : NamesFit row)
    (small : (writeFields write row).length < 256^4)
    (each : ∀ e ∈ row.entries, (write e.2).length < 256^4 → Yields read (write e.2) (back e.2)) :
    Yields (do
      let count ← word short 4
      readFields short read count ∅) (writeFields write row) (backFields back row.entries ∅) := by
  have columns : (row.entries.flatMap (fun e => writeName e.1 ++ write e.2)).length < 256^4 := by
    simp only [writeFields,List.length_append,length_leBytes] at small
    omega
  have count : row.entries.length < 256^4 := by
    refine Nat.lt_of_le_of_lt (count_le_flatMap row.entries (fun e => writeName e.1 ++ write e.2) ?_) columns
    intro e _
    simp only [writeName,List.length_append,length_leBytes]
    omega
  refine yields_then (yields_word short 4 _ count) (yields_fields short read write back row.entries ∅ ?_)
  intro e member
  refine ⟨named e member,each e member ?_⟩
  have inside := length_le_flatMap row.entries (fun e => writeName e.1 ++ write e.2) e member
  simp only [List.length_append] at inside
  omega

private theorem yields_row (blob : Bool) (row : Map String ColumnValue) (named : NamesFit row)
    (small : (writeRow row).length < 256^4) :
    Yields (readRow blob) (writeRow row) (backFields (backColumnValue blob) row.entries ∅) :=
  yields_writeFields .panicked _ writeColumnValue _ row named small
    (fun e _ inside => yields_columnValue blob e.2 inside)

def backRows : List (Map String ColumnValue) → Except Failure (List (Map String ColumnValue))
  | [] => .ok []
  | row :: rest => do
    let first ← backFields (backColumnValue true) row.entries ∅
    let others ← backRows rest
    return first :: others

private theorem yields_rows (rows : List (Map String ColumnValue)) (named : ∀ row ∈ rows, NamesFit row)
    (small : (rows.flatMap writeRow).length < 256^4) :
    Yields (readMany (readRow true) rows.length) (rows.flatMap writeRow) (backRows rows) := by
  induction rows with
  | nil => exact yields_pure _
  | cons row rest ih =>
    simp only [List.flatMap_cons,List.length_append] at small ⊢
    refine yields_bind (yields_row true row (named row List.mem_cons_self) (by omega)) ?_
    intro first _
    exact yields_return _ (ih (fun other member => named other (List.mem_cons_of_mem _ member)) (by omega))

private theorem backRows_same (rows : List (Map String ColumnValue)) :
    (∃ result, backRows rows = .ok result ∧ List.Forall₂ SameRow result rows) ↔
      ∀ row ∈ rows, ∀ e ∈ row.entries, survives true e.2 = true := by
  have rowSame (row : Map String ColumnValue) : (∃ result, backFields (backColumnValue true) row.entries ∅ =
    .ok result ∧
      SameRow result row) ↔ ∀ e ∈ row.entries, survives true e.2 = true := by
    simp only [← backColumnValue_eq]
    exact backFields_same row
  induction rows with
  | nil => simp [backRows]
  | cons row rest ih =>
    simp only [backRows]
    constructor
    · rintro ⟨result,ok,same⟩
      cases first : backFields (backColumnValue true) row.entries ∅ with
      | error e => simp [first,bind,Except.bind] at ok
      | ok head =>
        cases others : backRows rest with
        | error e => simp [first,others,bind,Except.bind] at ok
        | ok tail =>
          simp only [first,others,bind,Except.bind,pure,Except.pure,Except.ok.injEq] at ok
          subst ok
          obtain ⟨here,later⟩ := List.forall₂_cons.mp same
          exact List.forall_mem_cons.mpr ⟨(rowSame row).mp ⟨head,first,here⟩,ih.mp ⟨tail,others,later⟩⟩
    · intro good
      obtain ⟨row_,rest_⟩ := List.forall_mem_cons.mp good
      obtain ⟨head,first,here⟩ := (rowSame row).mpr row_
      obtain ⟨tail,others,later⟩ := ih.mpr rest_
      exact ⟨head :: tail,by rw [first,others]; rfl,List.forall₂_cons.mpr ⟨here,later⟩⟩

def WalRecord.back (ext : External) : WalRecord → Except Failure WalRecord
  | insert id row txnId => (backFields (backColumnValue (txnId == 0)) row.entries ∅).map (insert id · txnId)
  | batchInsert startId rows _ => (backRows rows).map (batchInsert startId · 0)
  | update id row txnId => (backFields (backValue ext) row.entries ∅).map (update id · txnId)
  | record => .ok record

def WalRecord.NamesFit : WalRecord → Prop
  | insert _ row _ => Wal.NamesFit row
  | batchInsert _ rows _ => ∀ row ∈ rows, Wal.NamesFit row
  | update _ row _ => Wal.NamesFit row
  | _ => True

theorem yields_record (ext : External) (record : WalRecord) (named : record.NamesFit)
    (small : (record.data ext).length < 256^4) :
    Yields (readRecord ext record.recordType) (record.data ext) (record.back ext) := by
  cases record with
  | insert id row txnId =>
    by_cases open_ : txnId = 0
    · subst open_
      simp only [WalRecord.data,ne_eq,not_true_eq_false,if_false,List.length_append] at small ⊢
      exact yields_then (yields_u64 _ id) (yields_return _ (yields_row true row named (by omega)))
    · simp only [WalRecord.data,WalRecord.recordType,ne_eq,open_,not_false_eq_true,if_true,List.length_append,
        List.append_assoc] at small ⊢
      have mode : (txnId == 0) = false := by simp [open_]
      simp only [WalRecord.back,mode]
      exact yields_then (yields_u64 _ id) (yields_then (yields_u64 _ txnId)
        (yields_return _ (yields_row false row named (by omega))))
  | batchInsert startId rows txnId =>
    simp only [WalRecord.data,List.length_append,List.append_assoc,length_leBytes] at small ⊢
    have count := count_le_flatMap rows writeRow (by
      intro row _
      simp only [writeRow,writeFields,List.length_append,length_leBytes]
      omega)
    exact yields_then (yields_u64 _ startId) (yields_then (yields_word _ 4 rows.length (by omega))
      (yields_return _ (yields_rows rows named (by omega))))
  | delete id txnId =>
    by_cases open_ : txnId = 0
    · subst open_
      exact yields_return _ (yields_u64 _ id)
    · simp only [WalRecord.data,WalRecord.recordType,ne_eq,open_,not_false_eq_true,if_true]
      exact yields_then (yields_u64 _ id) (yields_return _ (yields_u64 _ txnId))
  | update id row txnId =>
    simp only [WalRecord.data,List.length_append,List.append_assoc] at small ⊢
    have fields := yields_writeFields truncatedUpdate (readUpdateValue ext) (fun value =>
      u32Prefixed (writeValue ext value))
      (backValue ext) row named (by simp only [writeValueRow] at small; omega) (fun e _ inside =>
        yields_updateValue ext e.2 (by simp only [u32Prefixed,List.length_append] at inside; omega))
    exact yields_then (yields_u64 _ id) (yields_then (yields_u64 _ txnId) (yields_return _ fields))
  | checkpoint value => exact yields_return _ (yields_u64 _ value)
  | txnBegin value => exact yields_return _ (yields_u64 _ value)
  | txnCommit value => exact yields_return _ (yields_u64 _ value)
  | txnRollback value => exact yields_return _ (yields_u64 _ value)

/-! Frames. -/

theorem length_frame (ext : External) (recordType : Nat) (timestamp : Int64) (data : Bytes) :
    (frame ext recordType timestamp data).length = 13 + data.length + 4 := by
  simp only [frame,List.length_append,length_leBytes]

section
variable (ext : External) (recordType : Nat) (timestamp : Int64) (data suffix : Bytes) (tag : recordType < 256)
include tag

theorem frame_header :
    ofLe ((frame ext recordType timestamp data ++ suffix).take 1) = recordType ∧
    ofLe (((frame ext recordType timestamp data ++ suffix).drop 9).take 4) = data.length % 2^32 := by
  have shape : frame ext recordType timestamp data ++ suffix =
      leBytes 1 recordType ++ (leBytes 8 timestamp.toUInt64.toNat ++ (leBytes 4 data.length ++ (data ++
        (leBytes 4 (ext.crc32 (leBytes 1 recordType ++ leBytes 8 timestamp.toUInt64.toNat ++ leBytes 4 data.length ++
          data)).toNat ++ suffix)))) := by
    simp only [frame,List.append_assoc]
  rw [shape]
  constructor
  · rw [List.take_left' (length_leBytes 1 recordType)]
    exact ofLe_leBytes_of_lt tag
  · rw [← List.append_assoc,List.drop_left' (by simp only [List.length_append,length_leBytes]),
      List.take_left' (length_leBytes 4 data.length),ofLe_leBytes]
    norm_num

theorem fromBytes_frame (small : data.length < 256^4) :
    fromBytesVersioned ext (frame ext recordType timestamp data ++ suffix) walVersion =
      (readRecord ext recordType data).map (fun result => (result.1,(frame ext recordType timestamp data).length)) := by
  obtain ⟨kind,length⟩ := frame_header ext recordType timestamp data suffix tag
  have total := length_frame ext recordType timestamp data
  rw [Nat.mod_eq_of_lt (by omega)] at length
  -- The checksummed part, split off the checksum and the suffix.
  obtain ⟨buf,crc,split,body,inside,code,four⟩ : ∃ buf crc, frame ext recordType timestamp data ++ suffix =
    buf ++ (crc ++ suffix) ∧
      buf.length = 13 + data.length ∧ buf.drop 13 = data ∧ ofLe crc = (ext.crc32 buf).toNat ∧ crc.length = 4 := by
    refine ⟨leBytes 1 recordType ++ leBytes 8 timestamp.toUInt64.toNat ++ leBytes 4 data.length ++ data,
      leBytes 4 (ext.crc32 (leBytes 1 recordType ++ leBytes 8 timestamp.toUInt64.toNat ++ leBytes 4 data.length ++
        data)).toNat,by simp only [frame,List.append_assoc],?_,?_,?_,length_leBytes _ _⟩
    · simp only [List.length_append,length_leBytes]
    · exact List.drop_left' (by simp only [List.length_append,length_leBytes])
    · exact ofLe_leBytes_of_lt (UInt32.toNat_lt _)
  have size : (frame ext recordType timestamp data ++ suffix).length = 13 + data.length + 4 + suffix.length := by
    rw [List.length_append,total]
  have whole : (frame ext recordType timestamp data ++ suffix).take (13 + data.length) = buf := by
    rw [split,List.take_left' body]
  have checksum : ((frame ext recordType timestamp data ++ suffix).drop (13 + data.length)).take 4 = crc := by
    rw [split,List.drop_left' body,List.take_left' four]
  have nonempty : (frame ext recordType timestamp data ++ suffix).isEmpty = false := by
    rw [List.isEmpty_eq_false_iff,← List.length_pos_iff]
    omega
  unfold fromBytesVersioned
  simp only [nonempty,kind,length,whole,checksum,inside,code,total,size,Bool.false_eq_true,if_false,ne_eq,
    not_true_eq_false]
  rw [if_neg (by omega),if_neg (by omega)]
  cases readRecord ext recordType data with
  | error e => rfl
  | ok result =>
    simp only [bind,Except.bind,Nat.le_refl,if_true]
    rw [if_neg (by omega)]
    rfl

private theorem fromBytes_ok (record : WalRecord) (consumed : Nat)
    (ok : fromBytesVersioned ext (frame ext recordType timestamp data ++ suffix) walVersion = .ok (record,consumed)) :
    consumed = 13 + data.length % 2^32 + 4 ∧ ∃ payload rest, readRecord ext recordType payload = .ok (record,rest) := by
  obtain ⟨kind,length⟩ := frame_header ext recordType timestamp data suffix tag
  unfold fromBytesVersioned at ok
  rw [kind,length] at ok
  split at ok
  · cases ok
  split at ok
  · cases ok
  simp only at ok
  split at ok
  · cases ok
  cases read : readRecord ext recordType
      (((frame ext recordType timestamp data ++ suffix).take (13 + data.length % 2^32)).drop 13) with
  | error e =>
    rw [read] at ok
    cases ok
  | ok pair =>
    rw [read] at ok
    simp only [bind,Except.bind,Nat.le_refl,if_true] at ok
    split at ok
    · cases ok
    split at ok
    · cases ok
    simp only [pure,Except.pure,Except.ok.injEq,Prod.mk.injEq] at ok
    obtain ⟨rfl,rfl⟩ := ok
    exact ⟨rfl,_,pair.2,read⟩

end

theorem recordType_lt (record : WalRecord) : record.recordType < 256 := by
  cases record <;> simp only [WalRecord.recordType] <;> (try split) <;> decide

/-! What the decoder can return at all. -/

private theorem readRow_all (blob : Bool) (bytes rest : Bytes) (row : Map String ColumnValue)
    (ok : readRow blob bytes = .ok (row,rest)) :
    ∀ name value, row.lookup name = some value → (utf8 name).length < 256^2 ∧ survives blob value = true := by
  obtain ⟨count,_,_,ok⟩ := of_bind ok
  refine readFields_all (readColumnValue_survives blob) count ∅ row _ rest ?_ ok
  intro name value found
  simp at found

private theorem readUpdateRow_all (ext : External) (bytes rest : Bytes) (row : Row)
    (ok : readUpdateRow ext bytes = .ok (row,rest)) :
    ∀ name value, row.lookup name = some value → (utf8 name).length < 256^2 ∧ True := by
  obtain ⟨count,_,_,ok⟩ := of_bind ok
  refine readFields_all (fun _ _ _ _ => trivial) count ∅ row _ rest ?_ ok
  intro name value found
  simp at found

private theorem readMany_all {α : Type} {read : Reader Failure α} {P : α → Prop}
    (each : ∀ bytes item rest, read bytes = .ok (item,rest) → P item) (count : Nat) (items : List α)
    (bytes rest : Bytes)
    (ok : readMany read count bytes = .ok (items,rest)) : ∀ item ∈ items, P item := by
  induction count generalizing items bytes rest with
  | zero =>
    rw [of_pure ok]
    simp
  | succ count ih =>
    obtain ⟨first,_,one,ok⟩ := of_bind ok
    obtain ⟨others,_,more,ok⟩ := of_bind ok
    rw [of_pure ok]
    exact List.forall_mem_cons.mpr ⟨each _ _ _ one,ih others _ _ more⟩

private theorem partner_of_same {V : Type} {found rows : List (Map String V)} (same : List.Forall₂ SameRow found rows)
    (row : Map String V) (member : row ∈ rows) : ∃ partner ∈ found, SameRow partner row := by
  induction same with
  | nil => cases member
  | cons first _ ih =>
    rcases List.mem_cons.mp member with rfl | later
    · exact ⟨_,List.mem_cons_self,first⟩
    · obtain ⟨partner,inside,equal⟩ := ih later
      exact ⟨partner,List.mem_cons_of_mem _ inside,equal⟩

private theorem entries_of_same {V : Type} {P : String → V → Prop} {row decoded : Map String V}
    (same : SameRow decoded row)
    (good : ∀ name value, decoded.lookup name = some value → P name value) : ∀ e ∈ row.entries, P e.1 e.2 := by
  intro e member
  exact good e.1 e.2 ((same e.1).trans (AList.mem_lookup_iff.mpr member))

private theorem insert_sound (ext : External) (id txnId : UInt64) (row : Map String ColumnValue) (decoded : WalRecord)
    (payload rest : Bytes) (ok : readRecord ext (WalRecord.insert id row txnId).recordType payload = .ok (decoded,rest))
    (same : decoded.Same (.insert id row txnId)) :
    ∀ e ∈ row.entries, (utf8 e.1).length < 256^2 ∧ survives (txnId == 0) e.2 = true := by
  by_cases open_ : txnId = 0
  · subst open_
    obtain ⟨_,_,_,ok⟩ := of_bind ok
    obtain ⟨found,_,read,ok⟩ := of_bind ok
    rw [of_pure ok] at same
    exact entries_of_same same.2.1 (readRow_all true _ _ found read)
  · have mode : (txnId == 0) = false := by simp [open_]
    simp only [WalRecord.recordType,ne_eq,open_,not_false_eq_true,if_true] at ok
    obtain ⟨_,_,_,ok⟩ := of_bind ok
    obtain ⟨_,_,_,ok⟩ := of_bind ok
    obtain ⟨found,_,read,ok⟩ := of_bind ok
    rw [of_pure ok] at same
    rw [mode]
    exact entries_of_same same.2.1 (readRow_all false _ _ found read)

private theorem batch_sound (ext : External) (startId txnId : UInt64) (rows : List (Map String ColumnValue))
    (decoded : WalRecord) (payload rest : Bytes) (ok : readRecord ext recordBatchInsert payload = .ok (decoded,rest))
    (same : decoded.Same (.batchInsert startId rows txnId)) :
    txnId = 0 ∧ ∀ row ∈ rows, ∀ e ∈ row.entries, (utf8 e.1).length < 256^2 ∧ survives true e.2 = true := by
  obtain ⟨_,_,_,ok⟩ := of_bind ok
  obtain ⟨_,_,_,ok⟩ := of_bind ok
  obtain ⟨found,_,read,ok⟩ := of_bind ok
  rw [of_pure ok] at same
  refine ⟨same.2.2.symm,?_⟩
  have good := readMany_all (fun bytes row rest => readRow_all true bytes rest row) _ found _ _ read
  intro row member
  obtain ⟨partner,inside,equal⟩ := partner_of_same same.2.1 row member
  exact entries_of_same equal (good partner inside)

private theorem update_sound (ext : External) (id txnId : UInt64) (row : Row) (decoded : WalRecord)
    (payload rest : Bytes) (ok : readRecord ext recordUpdateTxn payload = .ok (decoded,rest))
    (same : decoded.Same (.update id row txnId)) :
    ∀ e ∈ row.entries, (utf8 e.1).length < 256^2 := by
  obtain ⟨_,_,_,ok⟩ := of_bind ok
  obtain ⟨_,_,_,ok⟩ := of_bind ok
  obtain ⟨found,_,read,ok⟩ := of_bind ok
  rw [of_pure ok] at same
  intro e member
  exact (entries_of_same same.2.1 (readUpdateRow_all ext _ _ found read) e member).1

/-! The round trip. -/

section
variable (ext : External) (record : WalRecord)

private theorem decode_back (named : record.NamesFit) (small : (record.data ext).length < 256^4) (timestamp : Int64)
    (suffix : Bytes) :
    fromBytesVersioned ext (record.toBytes ext timestamp ++ suffix) walVersion =
      (record.back ext).map (fun decoded => (decoded,(record.toBytes ext timestamp).length)) := by
  have read := yields_record ext record named small []
  rw [List.append_nil] at read
  rw [WalRecord.toBytes,fromBytes_frame ext _ timestamp _ suffix (recordType_lt record) small,read]
  cases record.back ext <;> rfl

private theorem back_same :
    (∃ decoded, record.back ext = .ok decoded ∧ decoded.Same record) ↔
      match record with
      | .insert _ row txnId => ∀ e ∈ row.entries, survives (txnId == 0) e.2 = true
      | .batchInsert _ rows txnId => txnId = 0 ∧ ∀ row ∈ rows, ∀ e ∈ row.entries, survives true e.2 = true
      | .update _ row _ => ∀ e ∈ row.entries, JsonIntact ext e.2
      | _ => True := by
  cases record with
  | insert id row txnId =>
    simp only [← backColumnValue_eq,← backFields_same]
    constructor
    · rintro ⟨decoded,ok,same⟩
      obtain ⟨found,read,rfl⟩ := map_eq_ok.mp ok
      exact ⟨found,read,same.2.1⟩
    · rintro ⟨found,read,same⟩
      exact ⟨.insert id found txnId,map_eq_ok.mpr ⟨found,read,rfl⟩,rfl,same,rfl⟩
  | batchInsert startId rows txnId =>
    simp only [← backRows_same]
    constructor
    · rintro ⟨decoded,ok,same⟩
      obtain ⟨found,read,rfl⟩ := map_eq_ok.mp ok
      exact ⟨same.2.2.symm,found,read,same.2.1⟩
    · rintro ⟨rfl,found,read,same⟩
      exact ⟨.batchInsert startId found 0,map_eq_ok.mpr ⟨found,read,rfl⟩,rfl,same,rfl⟩
  | update id row txnId =>
    simp only [← backValue_eq,← backFields_same]
    constructor
    · rintro ⟨decoded,ok,same⟩
      obtain ⟨found,read,rfl⟩ := map_eq_ok.mp ok
      exact ⟨found,read,same.2.1⟩
    · rintro ⟨found,read,same⟩
      exact ⟨.update id found txnId,map_eq_ok.mpr ⟨found,read,rfl⟩,rfl,same,rfl⟩
  | delete id txnId => exact ⟨fun _ => trivial,fun _ => ⟨_,rfl,rfl,rfl⟩⟩
  | checkpoint | txnBegin | txnCommit | txnRollback => exact ⟨fun _ => trivial,fun _ => ⟨_,rfl,rfl⟩⟩

theorem survives_iff :
    Survives ext record ↔ (record.data ext).length < 2^32 ∧ record.NamesFit ∧
      ∃ decoded, record.back ext = .ok decoded ∧ decoded.Same record := by
  rw [back_same,length_data]
  unfold Survives
  refine and_congr_right' ?_
  cases record with
  | insert | update => exact Iff.rfl
  | batchInsert startId rows txnId =>
    constructor
    · rintro ⟨auto,good⟩
      exact ⟨fun row member => (good row member).1,auto,fun row member => (good row member).2⟩
    · rintro ⟨named,auto,good⟩
      exact ⟨auto,fun row member => ⟨named row member,good row member⟩⟩
  | delete | checkpoint | txnBegin | txnCommit | txnRollback => simp [WalRecord.NamesFit]

end

theorem Survives.decodes {ext : External} {record : WalRecord} (survived : Survives ext record) (timestamp : Int64)
    (suffix : Bytes) : ∃ decoded, fromBytesVersioned ext (record.toBytes ext timestamp ++ suffix) walVersion =
      .ok (decoded,(record.toBytes ext timestamp).length) ∧ decoded.Same record := by
  obtain ⟨small,named,decoded,back,same⟩ := (survives_iff ext record).mp survived
  refine ⟨decoded,?_,same⟩
  rw [decode_back ext record named small,back]
  rfl

theorem survives_of_decodes {ext : External} {record decoded : WalRecord} {timestamp : Int64} {suffix : Bytes}
    (ok : fromBytesVersioned ext (record.toBytes ext timestamp ++ suffix) walVersion =
      .ok (decoded,(record.toBytes ext timestamp).length)) (same : decoded.Same record) : Survives ext record := by
  obtain ⟨consumed,payload,rest,read⟩ := fromBytes_ok ext _ timestamp _ suffix (recordType_lt record) decoded _ ok
  have small : (record.data ext).length < 2^32 := by
    rw [WalRecord.toBytes,length_frame] at consumed
    have bound := Nat.mod_lt (record.data ext).length (show 0 < 2^32 by decide)
    omega
  have named : record.NamesFit := by
    cases record with
    | insert id row txnId =>
      exact fun e member => (insert_sound ext id txnId row decoded payload rest read same e member).1
    | batchInsert startId rows txnId =>
      exact fun row member e inside => ((batch_sound ext startId txnId rows decoded payload rest read same).2 row member
        e inside).1
    | update id row txnId => exact update_sound ext id txnId row decoded payload rest read same
    | delete | checkpoint | txnBegin | txnCommit | txnRollback => exact trivial
  rw [decode_back ext record named small] at ok
  obtain ⟨value,back,equal⟩ := map_eq_ok.mp ok
  cases equal
  exact (survives_iff ext record).mpr ⟨small,named,decoded,back,same⟩

/-- The record, and the row written by `append_row`, come back exactly when every part of it has a
place of its own in the format. -/
theorem round_trips_iff_survives (ext : External) (record : WalRecord) :
    (RoundTrips ext record ↔ Survives ext record) ∧
    ∀ timestamp id row, appendRow ext timestamp id row = (WalRecord.insert id row 0).toBytes ext timestamp := by
  refine ⟨⟨fun trips => ?_,fun survived => survived.decodes⟩,?_⟩
  · obtain ⟨decoded,ok,same⟩ := trips 0 []
    exact survives_of_decodes ok same
  · intro timestamp id row
    simp only [appendRow,WalRecord.toBytes,WalRecord.recordType,WalRecord.data,writeRow,writeFields,ne_eq,
      not_true_eq_false,
      if_false,List.append_assoc]

/-- A transactional insert of a `Blob` never comes back: the decoder of
`RECORD_INSERT_TXN` rejects its tag. -/
theorem transactional_blob_rejected :
    ¬ ∃ ext, RoundTrips ext (.insert 1 (AList.singleton "photo" (.blob [7])) 9) := by
  rintro ⟨ext,trips⟩
  obtain ⟨decoded,ok,same⟩ := trips 0 []
  obtain ⟨_,payload,rest,read⟩ := fromBytes_ok ext _ 0 _ [] (recordType_lt _) decoded _ ok
  have good := insert_sound ext 1 9 _ decoded payload rest read same ⟨"photo",.blob [7]⟩ (List.mem_singleton_self _)
  exact absurd good.2 (by decide)

end ApexBase.Wal
