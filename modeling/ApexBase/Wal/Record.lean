import ApexBase.Data.Value
import ApexBase.Library.Wire

/-! The records of the write-ahead log and their bytes (`storage/incremental.rs`). A record is
framed by its type, a timestamp, the length of its data and, from version 2 on, a checksum. -/
namespace ApexBase.Wal
open Data Library.Assoc Library.Wire

inductive WalRecord
  | insert (id : UInt64) (data : Map String ColumnValue) (txnId : UInt64)
  | batchInsert (startId : UInt64) (rows : List (Map String ColumnValue)) (txnId : UInt64)
  | delete (id txnId : UInt64)
  | update (id : UInt64) (data : Row) (txnId : UInt64)
  | checkpoint (rowCount : UInt64)
  | txnBegin (txnId : UInt64)
  | txnCommit (txnId : UInt64)
  | txnRollback (txnId : UInt64)

/-- What the codec uses from other packages: the JSON text of `serde_json` and the checksum of
`crc32fast`. -/
structure External where
  jsonText : Json → String
  jsonFromSlice : Bytes → Option Json
  crc32 : Bytes → UInt32

def walVersion : Nat := 2

def walVersionV1 : Nat := 1

def recordInsert : Nat := 1
def recordDelete : Nat := 2
def recordCheckpoint : Nat := 3
def recordBatchInsert : Nat := 4
def recordTxnBegin : Nat := 5
def recordTxnCommit : Nat := 6
def recordTxnRollback : Nat := 7
def recordInsertTxn : Nat := 8
def recordDeleteTxn : Nat := 9
def recordUpdateTxn : Nat := 10

def u32Prefixed (bytes : Bytes) : Bytes := leBytes 4 bytes.length ++ bytes

def writeColumnValue : ColumnValue → Bytes
  | .null => [0]
  | .bool value => 1 :: [if value then 1 else 0]
  | .int64 value => 2 :: leBytes 8 value.toUInt64.toNat
  | .float64 bits => 3 :: leBytes 8 bits.toNat
  | .string value => 4 :: u32Prefixed (utf8 value)
  | .binary value => 5 :: u32Prefixed value
  | .blob value => 6 :: u32Prefixed value
  -- The same wire encoding as `Binary`.
  | .fixedList value => 5 :: u32Prefixed value

def writeName (name : String) : Bytes := leBytes 2 (utf8 name).length ++ utf8 name

/-- The column count and the columns in the iteration order of the map. -/
def writeFields {V : Type} (write : V → Bytes) (row : Map String V) : Bytes :=
  leBytes 4 row.entries.length ++ row.entries.flatMap (fun e => writeName e.1 ++ write e.2)

def writeRow (row : Map String ColumnValue) : Bytes := writeFields writeColumnValue row

mutual

def writeValue (ext : External) : Value → Bytes
  | .null => [0]
  | .bool value => 1 :: [if value then 1 else 0]
  | .int8 value => 2 :: leBytes 1 value.toUInt8.toNat
  | .int16 value => 3 :: leBytes 2 value.toUInt16.toNat
  | .int32 value => 4 :: leBytes 4 value.toUInt32.toNat
  | .int64 value => 5 :: leBytes 8 value.toUInt64.toNat
  | .uint8 value => 6 :: leBytes 1 value.toNat
  | .uint16 value => 7 :: leBytes 2 value.toNat
  | .uint32 value => 8 :: leBytes 4 value.toNat
  | .uint64 value => 9 :: leBytes 8 value.toNat
  | .float32 bits => 10 :: leBytes 4 bits.toNat
  | .float64 bits => 11 :: leBytes 8 bits.toNat
  | .string value => 12 :: u32Prefixed (utf8 value)
  | .binary value => 13 :: u32Prefixed value
  | .blob value => 14 :: u32Prefixed value
  | .fixedList value => 15 :: u32Prefixed value
  | .json value => 16 :: u32Prefixed (utf8 (ext.jsonText value))
  | .timestamp value => 17 :: leBytes 8 value.toUInt64.toNat
  | .date value => 18 :: leBytes 4 value.toUInt32.toNat
  | .time value => 20 :: leBytes 8 value.toUInt64.toNat
  | .interval value => 21 :: leBytes 8 value.toUInt64.toNat
  | .array values => 19 :: (leBytes 4 values.length ++ writeValues ext values)

def writeValues (ext : External) : List Value → Bytes
  | [] => []
  | value :: rest => writeValue ext value ++ writeValues ext rest

end

def writeValueRow (ext : External) (row : Row) :
    Bytes := writeFields (fun value => u32Prefixed (writeValue ext value)) row

namespace WalRecord

/-- An insert or a delete outside any transaction has a record type of its own. -/
def recordType : WalRecord → Nat
  | insert _ _ txnId => if txnId ≠ 0 then recordInsertTxn else recordInsert
  | batchInsert .. => recordBatchInsert
  | delete _ txnId => if txnId ≠ 0 then recordDeleteTxn else recordDelete
  | update .. => recordUpdateTxn
  | checkpoint _ => recordCheckpoint
  | txnBegin _ => recordTxnBegin
  | txnCommit _ => recordTxnCommit
  | txnRollback _ => recordTxnRollback

def data (ext : External) : WalRecord → Bytes
  | insert id row txnId =>
    if txnId ≠ 0 then leBytes 8 id.toNat ++ leBytes 8 txnId.toNat ++ writeRow row
    else leBytes 8 id.toNat ++ writeRow row
  | batchInsert startId rows _ => leBytes 8 startId.toNat ++ leBytes 4 rows.length ++ rows.flatMap writeRow
  | delete id txnId => if txnId ≠ 0 then leBytes 8 id.toNat ++ leBytes 8 txnId.toNat else leBytes 8 id.toNat
  | update id row txnId => leBytes 8 id.toNat ++ leBytes 8 txnId.toNat ++ writeValueRow ext row
  | checkpoint rowCount => leBytes 8 rowCount.toNat
  | txnBegin txnId | txnCommit txnId | txnRollback txnId => leBytes 8 txnId.toNat

end WalRecord

def frame (ext : External) (recordType : Nat) (timestamp : Int64) (data : Bytes) : Bytes :=
  let buf := leBytes 1 recordType ++ leBytes 8 timestamp.toUInt64.toNat ++ leBytes 4 data.length ++ data
  buf ++ leBytes 4 (ext.crc32 buf).toNat

def WalRecord.toBytes (ext : External) (timestamp : Int64) (record : WalRecord) : Bytes :=
  frame ext record.recordType timestamp (record.data ext)

/-- `WalWriter::append_row`, which builds no `WalRecord`. -/
def appendRow (ext : External) (timestamp : Int64) (id : UInt64) (row : Map String ColumnValue) : Bytes :=
  frame ext recordInsert timestamp
    (leBytes 8 id.toNat ++ leBytes 4 row.entries.length ++
      row.entries.flatMap (fun e => writeName e.1 ++ writeColumnValue e.2))

inductive Failure
  | io (error : IoError)
  /-- `InvalidData` around the error of `from_utf8`. -/
  | utf8
  /-- `InvalidData` around the error of `serde_json`. -/
  | json
  /-- A slice out of range. -/
  | panicked

def invalidData (message : String) : Failure := .io ⟨.invalidData,message⟩

def readText (bytes : Bytes) : Except Failure String :=
  match fromUtf8 bytes with
  | some text => .ok text
  | none => .error .utf8

def readPrefixed (short : Failure) : Reader Failure Bytes := do
  let len ← Reader.word short 4
  Reader.take short len

def readPrefixedText (short : Failure) : Reader Failure String := do
  Reader.lift (readText (← readPrefixed short))

/-- The value ladder of the insert records. Only that of `RECORD_INSERT_TXN` lacks the tag of
`Blob`. -/
def readColumnValue (blob : Bool) : Reader Failure ColumnValue := do
  let valueType ← Reader.word .panicked 1
  match valueType with
  | 0 => return .null
  | 1 => return .bool ((← Reader.word .panicked 1) != 0)
  | 2 => return .int64 (UInt64.ofNat (← Reader.word .panicked 8)).toInt64
  | 3 => return .float64 (UInt64.ofNat (← Reader.word .panicked 8))
  | 4 => return .string (← readPrefixedText .panicked)
  | 5 => return .binary (← readPrefixed .panicked)
  | 6 => if blob then return .blob (← readPrefixed .panicked) else Reader.fail (invalidData "Invalid value type")
  | _ => Reader.fail (invalidData "Invalid value type")

def readName (short : Failure) : Reader Failure String := do
  let nameLen ← Reader.word short 2
  Reader.lift (readText (← Reader.take short nameLen))

def readFields {V : Type} (short : Failure) (read : Reader Failure V) :
    Nat → Map String V → Reader Failure (Map String V)
  | 0,row => return row
  | count + 1,row => do
    let name ← readName short
    let value ← read
    readFields short read count (row.insert name value)

def readRow (blob : Bool) : Reader Failure (Map String ColumnValue) := do
  let colCount ← Reader.word .panicked 4
  readFields .panicked (readColumnValue blob) colCount ∅

/-- `for _ in 0..count`, collecting what each turn reads. -/
def readMany {α : Type} (read : Reader Failure α) : Nat → Reader Failure (List α)
  | 0 => return []
  | count + 1 => do
    let item ← read
    let rest ← readMany read count
    return item :: rest

def truncatedValue : Failure := invalidData "Truncated UPDATE value"

def emptyValue : Failure := invalidData "Empty UPDATE value"

def readJson (ext : External) (bytes : Bytes) : Except Failure Json :=
  match ext.jsonFromSlice bytes with
  | some value => .ok value
  | none => .error .json

def readPrefixedJson (ext : External) : Reader Failure Json := do
  Reader.lift (readJson ext (← readPrefixed truncatedValue))

/-- The tag and the value after it. Each level of nesting starts with a tag, so the length of the
bytes bounds the depth: at depth 0 there are no bytes. -/
def readValueWithin (ext : External) : Nat → Reader Failure Value
  | 0 => Reader.fail emptyValue
  | depth + 1 => do
    let tag ← Reader.word emptyValue 1
    match tag with
    | 0 => return .null
    | 1 => return .bool ((← Reader.word truncatedValue 1) != 0)
    | 2 => return .int8 (UInt8.ofNat (← Reader.word truncatedValue 1)).toInt8
    | 3 => return .int16 (UInt16.ofNat (← Reader.word truncatedValue 2)).toInt16
    | 4 => return .int32 (UInt32.ofNat (← Reader.word truncatedValue 4)).toInt32
    | 5 => return .int64 (UInt64.ofNat (← Reader.word truncatedValue 8)).toInt64
    | 6 => return .uint8 (UInt8.ofNat (← Reader.word truncatedValue 1))
    | 7 => return .uint16 (UInt16.ofNat (← Reader.word truncatedValue 2))
    | 8 => return .uint32 (UInt32.ofNat (← Reader.word truncatedValue 4))
    | 9 => return .uint64 (UInt64.ofNat (← Reader.word truncatedValue 8))
    | 10 => return .float32 (UInt32.ofNat (← Reader.word truncatedValue 4))
    | 11 => return .float64 (UInt64.ofNat (← Reader.word truncatedValue 8))
    | 12 => return .string (← readPrefixedText truncatedValue)
    | 13 => return .binary (← readPrefixed truncatedValue)
    | 14 => return .blob (← readPrefixed truncatedValue)
    | 15 => return .fixedList (← readPrefixed truncatedValue)
    | 16 => return .json (← readPrefixedJson ext)
    | 17 => return .timestamp (UInt64.ofNat (← Reader.word truncatedValue 8)).toInt64
    | 18 => return .date (UInt32.ofNat (← Reader.word truncatedValue 4)).toInt32
    | 20 => return .time (UInt64.ofNat (← Reader.word truncatedValue 8)).toInt64
    | 21 => return .interval (UInt64.ofNat (← Reader.word truncatedValue 8)).toInt64
    | 19 => do
      let count ← Reader.word truncatedValue 4
      return .array (← readMany (readValueWithin ext depth) count)
    | _ => Reader.fail (invalidData "Invalid UPDATE value tag")

def readValue (ext : External) (bytes : Bytes) : Except Failure (Value × Bytes) :=
  readValueWithin ext bytes.length bytes

def truncatedUpdate : Failure := invalidData "Truncated UPDATE record"

def readUpdateValue (ext : External) : Reader Failure Value := do
  let valueBytes ← readPrefixed truncatedUpdate
  Reader.lift (do
    let (value,rest) ← readValue ext valueBytes
    if rest.isEmpty then return value else throw (invalidData "UPDATE value has trailing bytes"))

def readUpdateRow (ext : External) : Reader Failure Row := do
  let colCount ← Reader.word truncatedUpdate 4
  readFields truncatedUpdate (readUpdateValue ext) colCount ∅

def readU64 (short : Failure) : Reader Failure UInt64 := UInt64.ofNat <$> Reader.word short 8

/-- The data of one record. Bytes left over are ignored. -/
def readRecord (ext : External) (recordType : Nat) : Reader Failure WalRecord :=
  match recordType with
  | 1 => do
    let id ← readU64 .panicked
    return .insert id (← readRow true) 0
  | 8 => do
    let id ← readU64 .panicked
    let txnId ← readU64 .panicked
    return .insert id (← readRow false) txnId
  | 4 => do
    let startId ← readU64 .panicked
    let rowCount ← Reader.word .panicked 4
    return .batchInsert startId (← readMany (readRow true) rowCount) 0
  | 2 => return .delete (← readU64 .panicked) 0
  | 9 => do
    let id ← readU64 .panicked
    return .delete id (← readU64 .panicked)
  | 10 => do
    let id ← readU64 truncatedUpdate
    let txnId ← readU64 truncatedUpdate
    return .update id (← readUpdateRow ext) txnId
  | 3 => return .checkpoint (← readU64 .panicked)
  | 5 => return .txnBegin (← readU64 .panicked)
  | 6 => return .txnCommit (← readU64 .panicked)
  | 7 => return .txnRollback (← readU64 .panicked)
  | _ => Reader.fail (invalidData "Invalid record type")

def fromBytesVersioned (ext : External) (bytes : Bytes) (version : Nat) : Except Failure (WalRecord × Nat) :=
  if bytes.isEmpty then .error (invalidData "Empty record")
  else if bytes.length < 13 then .error (invalidData "WAL record truncated (incomplete header)")
  else
    let recordLen := ofLe ((bytes.drop 9).take 4)
    let totalLen := 13 + recordLen
    if bytes.length < totalLen then .error (invalidData "WAL record truncated (incomplete body)")
    else do
      let (record,_) ← readRecord ext (ofLe (bytes.take 1)) ((bytes.take totalLen).drop 13)
      if walVersion ≤ version then
        if bytes.length < totalLen + 4 then throw (invalidData "WAL record truncated (missing CRC)")
        else if ofLe ((bytes.drop totalLen).take 4) ≠ (ext.crc32 (bytes.take totalLen)).toNat then
          throw (invalidData "WAL record CRC mismatch")
        else return (record,totalLen + 4)
      else return (record,totalLen)

def fromBytes (ext : External) (bytes : Bytes) : Except Failure (WalRecord × Nat) :=
  fromBytesVersioned ext bytes walVersionV1

end ApexBase.Wal
