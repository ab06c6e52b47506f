import ApexBase.Library.Assoc

/-! The row values of the database. Integers keep their machine width and a float is its bit
pattern, so equality of values is equality of stored bits. -/
namespace ApexBase.Data
open Library.Assoc

/-- A number of `serde_json`, which keeps integers apart from floats. -/
inductive JsonNumber
  | posInt (value : UInt64)
  | negInt (value : Int64)
  | float (bits : UInt64)
  deriving DecidableEq

inductive Json
  | null
  | bool (value : Bool)
  | number (value : JsonNumber)
  | string (value : String)
  | array (items : List Json)
  | object (fields : List (String × Json))

inductive Value
  | null
  | bool (value : Bool)
  | int8 (value : Int8)
  | int16 (value : Int16)
  | int32 (value : Int32)
  | int64 (value : Int64)
  | uint8 (value : UInt8)
  | uint16 (value : UInt16)
  | uint32 (value : UInt32)
  | uint64 (value : UInt64)
  | float32 (bits : UInt32)
  | float64 (bits : UInt64)
  | string (value : String)
  | binary (value : List UInt8)
  | blob (value : List UInt8)
  | fixedList (value : List UInt8)
  | json (value : Json)
  | timestamp (value : Int64)
  | date (value : Int32)
  | array (values : List Value)
  | time (value : Int64)
  | interval (value : Int64)

namespace Value

def asI64 : Value → Option Int64
  | .int8 value => some value.toInt64
  | .int16 value => some value.toInt64
  | .int32 value => some value.toInt64
  | .int64 value => some value
  | .uint8 value => some value.toUInt64.toInt64
  | .uint16 value => some value.toUInt64.toInt64
  | .uint32 value => some value.toUInt64.toInt64
  | .uint64 value => if value.toNat ≤ 2^63 - 1 then some value.toInt64 else none
  | .timestamp value => some value
  | .date value => some value.toInt64
  | .time value => some value
  | .interval value => some value
  | _ => none

def asF64 : Value → Option UInt64
  | .float32 bits => some (Float32.ofBits bits).toFloat.toBits
  | .float64 bits => some bits
  | .int8 value => some value.toFloat.toBits
  | .int16 value => some value.toFloat.toBits
  | .int32 value => some value.toFloat.toBits
  | .int64 value => some value.toFloat.toBits
  | .uint8 value => some value.toFloat.toBits
  | .uint16 value => some value.toFloat.toBits
  | .uint32 value => some value.toFloat.toBits
  | .uint64 value => some value.toFloat.toBits
  | _ => none

/-- The number that an integer of any width is. -/
def integer? : Value → Option Int
  | .int8 value => some value.toInt
  | .int16 value => some value.toInt
  | .int32 value => some value.toInt
  | .int64 value => some value.toInt
  | .uint8 value => some value.toNat
  | .uint16 value => some value.toNat
  | .uint32 value => some value.toNat
  | .uint64 value => some value.toNat
  | _ => none

def asStr : Value → Option String
  | .string value => some value
  | _ => none

def asBool : Value → Option Bool
  | .bool value => some value
  | _ => none

end Value

inductive ColumnValue
  | null
  | bool (value : Bool)
  | int64 (value : Int64)
  | float64 (bits : UInt64)
  | string (value : String)
  | binary (value : List UInt8)
  | blob (value : List UInt8)
  | fixedList (value : List UInt8)
  deriving DecidableEq

/-- A row under construction: `HashMap<String, Value>`. -/
abbrev Row := Map String Value

inductive ErrorKind
  | notFound
  | invalidInput
  | invalidData
  | permissionDenied
  | alreadyExists
  | wouldBlock
  | timedOut
  | unexpectedEof
  deriving DecidableEq

structure IoError where
  kind : ErrorKind
  message : String
  deriving DecidableEq

end ApexBase.Data
