import ApexBase.Data.Value
import ApexBase.Library.Bytewise
import ApexBase.Library.Decimal
import ApexBase.Library.Overflow

/-! Folding of DEFAULT expressions (`query/sql_parser.rs`): the constant that is stored for a column,
and the value that the expression has when its numbers are as large as they come. -/
namespace ApexBase.Query.Defaults
open Data Library.Overflow
open Library.Bytewise (upTo)

inductive DataType
  | null | bool | int8 | int16 | int32 | int64 | uint8 | uint16 | uint32 | uint64 | float32 | float64 | string | binary
  | json | timestamp
  | date | array | decimal | float16Vector | blob | float32Vector | bfloat16Vector | int8Vector | uint8Vector
  | bit1Vector
  | turboQuant2Vector | turboQuant3Vector | turboQuant4Vector | uuid | decimal128 | time | interval | timestampTz
  deriving DecidableEq

def DataType.toSqlType : DataType → String
  | null => "NULL"
  | bool => "BOOLEAN"
  | int8 => "TINYINT"
  | int16 => "SMALLINT"
  | int32 => "INTEGER"
  | int64 => "BIGINT"
  | uint8 => "UTINYINT"
  | uint16 => "USMALLINT"
  | uint32 => "UINTEGER"
  | uint64 => "UBIGINT"
  | float32 => "FLOAT"
  | float64 => "DOUBLE"
  | string => "VARCHAR"
  | binary => "BINARY"
  | blob => "BLOB"
  | json => "JSON"
  | timestamp => "TIMESTAMP"
  | timestampTz => "TIMESTAMPTZ"
  | date => "DATE"
  | time => "TIME"
  | interval => "INTERVAL"
  | array => "ARRAY"
  | decimal => "DECIMAL"
  | uuid => "UUID"
  | decimal128 => "DECIMAL128"
  | float16Vector => "FLOAT16_VECTOR"
  | float32Vector => "FLOAT32_VECTOR"
  | bfloat16Vector => "BFLOAT16_VECTOR"
  | int8Vector => "INT8_VECTOR"
  | uint8Vector => "UINT8_VECTOR"
  | bit1Vector => "BIT1_VECTOR"
  | turboQuant2Vector => "TURBOQUANT2_VECTOR"
  | turboQuant3Vector => "TURBOQUANT3_VECTOR"
  | turboQuant4Vector => "TURBOQUANT4_VECTOR"

inductive BinaryOperator
  | eq | notEq | lt | le | gt | ge | and | or | add | sub | mul | div | mod
  deriving DecidableEq

inductive UnaryOperator
  | not | minus
  deriving DecidableEq

/-- The expressions that the folder tells apart; all others are `other`. -/
inductive SqlExpr
  | column (name : String)
  | literal (value : Value)
  | binaryOp (left : SqlExpr) (op : BinaryOperator) (right : SqlExpr)
  | unaryOp (op : UnaryOperator) (expr : SqlExpr)
  | inSubquery
  | existsSubquery
  | scalarSubquery
  | function (name : String) (args : List SqlExpr)
  | cast (expr : SqlExpr) (dataType : DataType)
  | paren (inner : SqlExpr)
  | other

/-- What the folder uses of `chrono` and of the texts of the standard library. A date is the
number of days since 1970, a time the number of microseconds. -/
structure External where
  parseDate : String → String → Option Int64
  parseDateTime : String → String → Option Int64
  parseF64 : String → Option UInt64
  f32Text : UInt32 → String
  f64Text : UInt64 → String
  jsonText : Json → String
  debug : Value → String

section Fold
variable (ext : External)

mutual

def toStringValue : Value → String
  | .null => "null"
  | .bool b => toString b
  | .int8 v => toString v
  | .int16 v => toString v
  | .int32 v => toString v
  | .int64 v => toString v
  | .uint8 v => toString v
  | .uint16 v => toString v
  | .uint32 v => toString v
  | .uint64 v => toString v
  | .float32 v => ext.f32Text v
  | .float64 v => ext.f64Text v
  | .string s => s
  | .binary b => (String.fromUTF8? b.toByteArray).getD ("<binary_data_" ++ toString b.length ++ "bytes>")
  | .blob b => "<blob_" ++ toString b.length ++ "bytes>"
  | .fixedList b => "<vector_" ++ toString (b.length / 4) ++ "dims>"
  | .json j => ext.jsonText j
  | .timestamp t => toString t
  | .date d => toString d
  | .time t => toString t
  | .interval t => toString t
  | .array arr => "[" ++ ", ".intercalate (toStringValues arr) ++ "]"

def toStringValues : List Value → List String
  | [] => []
  | value :: rest => toStringValue value :: toStringValues rest

end

/-- `s.parse::<i64>()`: digits behind a sign at most. -/
def parseI64 (s : String) : Option Int64 :=
  let digits (text : List Char) (sign : Int) : Option Int64 :=
    let exact := sign * (Library.Decimal.natOf text : Int)
    if !text.isEmpty && text.all Char.isDigit && decide (Fits exact) then some (Int64.ofInt exact) else none
  match s.toList with
  | '-' :: rest => digits rest (-1)
  | '+' :: rest => digits rest 1
  | rest => digits rest 1

def sliceTo (s : String) (len : Nat) : Run String :=
  match upTo s.toList len with
  | some chars => .ok (String.ofList chars)
  | none => .error .panicked

def asInt64 : Value → Option Int64
  | .int64 v => some v
  | _ => none

def evalDefaultBinary (checks : Bool) (left : Value) (op : BinaryOperator) (right : Value) : Run Value := do
  match left.asF64 with
  | none => refuse "DEFAULT binary expression requires numeric operands"
  | some lf =>
    match right.asF64 with
    | none => refuse "DEFAULT binary expression requires numeric operands"
    | some rf =>
      match op with
      | .add =>
        match asInt64 left,asInt64 right with
        | some a,some b => Value.int64 <$> int64 checks (a.toInt + b.toInt)
        | _,_ => .ok (.float64 (Float.ofBits lf + Float.ofBits rf).toBits)
      | .sub =>
        match asInt64 left,asInt64 right with
        | some a,some b => Value.int64 <$> int64 checks (a.toInt - b.toInt)
        | _,_ => .ok (.float64 (Float.ofBits lf - Float.ofBits rf).toBits)
      | .mul =>
        match asInt64 left,asInt64 right with
        | some a,some b => Value.int64 <$> int64 checks (a.toInt * b.toInt)
        | _,_ => .ok (.float64 (Float.ofBits lf * Float.ofBits rf).toBits)
      | .div =>
        if Float.ofBits rf == 0 then refuse "DEFAULT expression division by zero"
        else .ok (.float64 (Float.ofBits lf / Float.ofBits rf).toBits)
      | .mod =>
        match asInt64 left,asInt64 right with
        | some a,some b =>
          if b = 0 then refuse "DEFAULT expression modulo by zero"
          -- The remainder by -1 overflows in every build, for the quotient does.
          else if a = Int64.minValue ∧ b = -1 then .error .panicked
          else .ok (.int64 (a % b))
        | _,_ => refuse "DEFAULT modulo requires integer operands"
      | _ => refuse "DEFAULT expression only supports arithmetic operators"

def parseDefaultDateDays (s : String) : Run Int32 := do
  let head ← sliceTo s (min 10 s.utf8ByteSize)
  match ext.parseDate head "%Y-%m-%d" with
  | some days => .ok days.toInt32
  | none => refuse "Invalid DEFAULT DATE literal"

def parseDefaultTimestampMicros (checks : Bool) (s : String) : Run Int64 :=
  match ext.parseDateTime s "%Y-%m-%d %H:%M:%S%.f" with
  | some micros => .ok micros
  | none =>
    match ext.parseDateTime s "%Y-%m-%d %H:%M:%S" with
    | some micros => .ok micros
    | none => do
      let days ← parseDefaultDateDays ext s
      int64 checks (days.toInt * 86400000000)

def parseDefaultTimestampSeconds (checks : Bool) (s : String) :
    Run Int64 := (· / 1000000) <$> parseDefaultTimestampMicros ext checks s

def castDefaultValue (checks : Bool) (value : Value) : DataType → Run Value
  | .string => .ok (.string (toStringValue ext value))
  | .bool =>
    match value with
    | .bool v => .ok (.bool v)
    | .string s => .ok (.bool (["true","t","1","yes"].contains s.toLower))
    | _ => .ok (.bool (value.asI64.getD 0 ≠ 0))
  | .int8 | .int16 | .int32 | .int64 | .uint8 | .uint16 | .uint32 | .uint64 =>
    match value.asI64 <|> value.asStr.bind parseI64 with
    | some v => .ok (.int64 v)
    | none => refuse "Invalid DEFAULT integer cast"
  | .float32 | .float64 =>
    match value.asF64 <|> value.asStr.bind ext.parseF64 with
    | some v => .ok (.float64 v)
    | none => refuse "Invalid DEFAULT float cast"
  | .date =>
    match value with
    | .date v => .ok (.date v)
    | .string s => Value.date <$> parseDefaultDateDays ext s
    | _ =>
      match value.asI64 with
      | some v => .ok (.date v.toInt32)
      | none => refuse "Invalid DEFAULT DATE cast"
  | .timestamp =>
    match value with
    | .timestamp v => .ok (.timestamp v)
    | .string s => Value.timestamp <$> parseDefaultTimestampMicros ext checks s
    | _ =>
      match value.asI64 with
      | some v => .ok (.timestamp v)
      | none => refuse "Invalid DEFAULT TIMESTAMP cast"
  | dataType => refuse ("Unsupported DEFAULT cast target: " ++ dataType.toSqlType)

inductive FoldedFunction
  | lower | upper | concat | abs | unixTimestamp

def foldedFunction (upper : String) : Option FoldedFunction :=
  match upper with
  | "LOWER" | "LCASE" => some .lower
  | "UPPER" | "UCASE" => some .upper
  | "CONCAT" => some .concat
  | "ABS" => some .abs
  | "UNIX_TIMESTAMP" => some .unixTimestamp
  | _ => none

/-- The arguments are folded already. All functions but one have a single argument. -/
def applyDefaultFunction (checks : Bool) (name : String) (values : List Value) : Run Value :=
  match foldedFunction name.toUpper,values with
  | some .lower,[value] => .ok (.string (toStringValue ext value).toLower)
  | some .upper,[value] => .ok (.string (toStringValue ext value).toUpper)
  | some .concat,values => .ok (.string (String.join (values.map (toStringValue ext))))
  | some .abs,[value] =>
    match value with
    | .int64 v => Value.int64 <$> int64 checks |v.toInt|
    | .float64 bits => .ok (.float64 (Float.ofBits bits).abs.toBits)
    | _ => refuse "ABS() in DEFAULT requires numeric argument"
  | some .unixTimestamp,[value] =>
    match value with
    | .string s => Value.int64 <$> parseDefaultTimestampSeconds ext checks s
    | _ => refuse "UNIX_TIMESTAMP() in DEFAULT requires a string argument"
  | _,_ => refuse ("Unsupported function '" ++ name ++ "' in DEFAULT expression")

def unaryMinus (checks : Bool) : Value → Run Value
  | .int64 v => Value.int64 <$> int64 checks (-v.toInt)
  | .float64 bits => .ok (.float64 (-Float.ofBits bits).toBits)
  | other => refuse ("DEFAULT unary minus requires numeric literal, got " ++ ext.debug other)

mutual

def evalDefaultConstantExpr (checks : Bool) : SqlExpr → Run Value
  | .literal v => .ok v
  | .paren inner => evalDefaultConstantExpr checks inner
  | .unaryOp .minus expr => evalDefaultConstantExpr checks expr >>= unaryMinus ext checks
  | .binaryOp left op right => do
    let l ← evalDefaultConstantExpr checks left
    let r ← evalDefaultConstantExpr checks right
    evalDefaultBinary checks l op r
  | .cast expr dataType => do
    let value ← evalDefaultConstantExpr checks expr
    castDefaultValue ext checks value dataType
  | .function name args => evalDefaultArgs checks args >>= applyDefaultFunction ext checks name
  | .column name => refuse ("DEFAULT expression cannot reference column '" ++ name ++ "'")
  | .scalarSubquery | .existsSubquery | .inSubquery => refuse "DEFAULT expression cannot contain subqueries"
  | _ => refuse "Unsupported DEFAULT expression; only row-independent constant expressions are allowed"

def evalDefaultArgs (checks : Bool) : List SqlExpr → Run (List Value)
  | [] => .ok []
  | arg :: rest => do
    let value ← evalDefaultConstantExpr checks arg
    (value :: ·) <$> evalDefaultArgs checks rest

end

end Fold

/-! The exact values. -/

/-- A value whose numbers, days and microseconds are integers of any size. -/
inductive Exact
  | int (value : Int)
  | day (days : Int)
  | micros (time : Int)
  | other (value : Value)

namespace Exact

def of : Value → Exact
  | .int64 value => .int value.toInt
  | .date days => .day days.toInt
  | .timestamp time => .micros time.toInt
  | value => .other value

def number : Exact → Option Int
  | .int value => some value
  | .day days => some days
  | .micros time => some time
  | .other value => value.asI64.map Int64.toInt

def int? : Exact → Option Int
  | .int value => some value
  | _ => none

def text? : Exact → Option String
  | .other value => value.asStr
  | _ => none

def float : Exact → Option UInt64
  | .int value => (Value.int64 (Int64.ofInt value)).asF64
  | .other value => value.asF64
  | _ => none

variable (ext : External)

def show_ : Exact → String
  | .int value => toString value
  | .day days => toString days
  | .micros time => toString time
  | .other value => toStringValue ext value

def minus : Exact → Option Exact
  | .int value => some (.int (-value))
  | .other (.float64 bits) => some (.other (.float64 (-Float.ofBits bits).toBits))
  | _ => none

/-- Integers are calculated with exactly, but a quotient is a float. -/
def binary (left : Exact) (op : BinaryOperator) (right : Exact) : Option Exact :=
  left.float.bind fun lf => right.float.bind fun rf =>
    match op,left.int?,right.int? with
    | .add,some a,some b => some (.int (a + b))
    | .sub,some a,some b => some (.int (a - b))
    | .mul,some a,some b => some (.int (a * b))
    | .mod,some a,some b => if b = 0 then none else some (.int (a.tmod b))
    | .add,_,_ => some (.other (.float64 (Float.ofBits lf + Float.ofBits rf).toBits))
    | .sub,_,_ => some (.other (.float64 (Float.ofBits lf - Float.ofBits rf).toBits))
    | .mul,_,_ => some (.other (.float64 (Float.ofBits lf * Float.ofBits rf).toBits))
    | .div,_,_ => if Float.ofBits rf == 0 then none
      else some (.other (.float64 (Float.ofBits lf / Float.ofBits rf).toBits))
    | _,_,_ => none

/-- The date at the front of a text. `days` is what becomes of a day number. -/
def dateDays (days : Int → Int) (s : String) : Option Int :=
  (upTo s.toList (min 10 s.utf8ByteSize)).bind fun head =>
    (ext.parseDate (String.ofList head) "%Y-%m-%d").map fun day => days day.toInt

def timestampMicros (days : Int → Int) (s : String) : Option Int :=
  match ext.parseDateTime s "%Y-%m-%d %H:%M:%S%.f" with
  | some time => some time.toInt
  | none =>
    match ext.parseDateTime s "%Y-%m-%d %H:%M:%S" with
    | some time => some time.toInt
    | none => (dateDays ext days s).map fun day => day * 86400000000

def cast (days : Int → Int) (value : Exact) : DataType → Option Exact
  | .string => some (.other (.string (value.show_ ext)))
  | .bool =>
    match value with
    | .other (.bool v) => some (.other (.bool v))
    | .other (.string s) => some (.other (.bool (["true","t","1","yes"].contains s.toLower)))
    | _ => some (.other (.bool (value.number.getD 0 ≠ 0)))
  | .int8 | .int16 | .int32 | .int64 | .uint8 | .uint16 | .uint32 | .uint64 =>
    (value.number <|> (value.text?.bind parseI64).map Int64.toInt).map .int
  | .float32 | .float64 => (value.float <|> value.text?.bind ext.parseF64).map fun bits => .other (.float64 bits)
  | .date =>
    match value with
    | .day v => some (.day v)
    | .other (.string s) => (dateDays ext days s).map .day
    | _ => value.number.map fun v => .day (days v)
  | .timestamp =>
    match value with
    | .other (.string s) => (timestampMicros ext days s).map .micros
    | _ => value.number.map .micros
  | _ => none

def abs : Exact → Option Exact
  | .int v => some (.int |v|)
  | .other (.float64 bits) => some (.other (.float64 (Float.ofBits bits).abs.toBits))
  | _ => none

def seconds (days : Int → Int) : Exact → Option Exact
  | .other (.string s) => (timestampMicros ext days s).map fun time => .int (time.tdiv 1000000)
  | _ => none

def function (days : Int → Int) (name : String) (values : List Exact) : Option Exact :=
  match foldedFunction name.toUpper,values with
  | some .lower,[value] => some (.other (.string (value.show_ ext).toLower))
  | some .upper,[value] => some (.other (.string (value.show_ ext).toUpper))
  | some .concat,values => some (.other (.string (String.join (values.map (show_ ext)))))
  | some .abs,[value] => value.abs
  | some .unixTimestamp,[value] => value.seconds ext days
  | _,_ => none

end Exact

section Exact
variable (ext : External) (days : Int → Int)

mutual

def exactExpr : SqlExpr → Option Exact
  | .literal v => some (.of v)
  | .paren inner => exactExpr inner
  | .unaryOp .minus expr => (exactExpr expr).bind Exact.minus
  | .binaryOp left op right => (exactExpr left).bind fun l => (exactExpr right).bind fun r => l.binary op r
  | .cast expr dataType => (exactExpr expr).bind fun value => value.cast ext days dataType
  | .function name args => (exactArgs args).bind (Exact.function ext days name)
  | _ => none

def exactArgs : List SqlExpr → Option (List Exact)
  | [] => some []
  | arg :: rest => (exactExpr arg).bind fun value => (exactArgs rest).map (value :: ·)

end

end Exact

/-! What goes well. -/

def Cut (s : String) : Prop := (upTo s.toList (min 10 s.utf8ByteSize)).isSome

section InRange
variable (ext : External) (days : Int → Int)

def MinusFits : Exact → Prop
  | .int value => Fits (-value)
  | _ => True

def BinaryFits (left : Exact) (op : BinaryOperator) (right : Exact) : Prop :=
  match op,left.int?,right.int? with
  | .add,some a,some b => Fits (a + b)
  | .sub,some a,some b => Fits (a - b)
  | .mul,some a,some b => Fits (a * b)
  | .mod,some a,some b => ¬ (a = -2^63 ∧ b = -1)
  | _,_,_ => True

def MicrosFit (s : String) : Prop :=
  ext.parseDateTime s "%Y-%m-%d %H:%M:%S%.f" = none → ext.parseDateTime s "%Y-%m-%d %H:%M:%S" = none →
    Cut s ∧ ∀ day, Exact.dateDays ext days s = some day → Fits (day * 86400000000)

def CastFits (value : Exact) (dataType : DataType) : Prop :=
  match dataType,value with
  | .date,.other (.string s) => Cut s
  | .timestamp,.other (.string s) => MicrosFit ext days s
  | _,_ => True

def AbsFits : Exact → Prop
  | .int v => Fits |v|
  | _ => True

def SecondsFit : Exact → Prop
  | .other (.string s) => MicrosFit ext days s
  | _ => True

def FunctionFits (name : String) (values : List Exact) : Prop :=
  match foldedFunction name.toUpper,values with
  | some .abs,[value] => AbsFits value
  | some .unixTimestamp,[value] => SecondsFit ext days value
  | _,_ => True

mutual

/-- Every operation on integers that the folding comes to has a result in 64 bits, no remainder by -1 is taken
of the least integer, and no date is cut inside a character. -/
def InRange : SqlExpr → Prop
  | .paren inner => InRange inner
  | .unaryOp .minus expr => InRange expr ∧ ∀ value, exactExpr ext days expr = some value → MinusFits value
  | .binaryOp left op right => InRange left ∧ ∀ l, exactExpr ext days left = some l →
      InRange right ∧ ∀ r, exactExpr ext days right = some r → BinaryFits l op r
  | .cast expr dataType => InRange expr ∧ ∀ value, exactExpr ext days expr = some value →
    CastFits ext days value dataType
  | .function name args => ArgsInRange args ∧ ∀ values, exactArgs ext days args = some values →
    FunctionFits ext days name values
  | _ => True

def ArgsInRange : List SqlExpr → Prop
  | [] => True
  | arg :: rest => InRange arg ∧ ∀ value, exactExpr ext days arg = some value → ArgsInRange rest

end

end InRange

def cut (days : Int) : Int := days.bmod (2^32)

/-- In either build the folding gives the exact value or an error. -/
def FoldsExactly (ext : External) (expr : SqlExpr) : Prop :=
  ∀ checks, match evalDefaultConstantExpr ext checks expr with
    | .ok value => exactExpr ext id expr = some (.of value)
    | .error (.refused _) => True
    | .error .panicked => False

def DaysKept (ext : External) (expr : SqlExpr) : Prop :=
  ∀ value, exactExpr ext cut expr = some value → exactExpr ext id expr = some value

section Operations
variable (ext : External)

section
variable (value : Value)

theorem float_of : (Exact.of value).float = value.asF64 := by
  cases value with
  | int64 v => rw [Exact.of,Exact.float,Int64.ofInt_toInt]
  | _ => rfl

theorem int?_of : (Exact.of value).int? = (asInt64 value).map Int64.toInt := by
  cases value with
  | _ => rfl

theorem text?_of : (Exact.of value).text? = value.asStr := by
  cases value with
  | _ => rfl

theorem number_of : (Exact.of value).number = value.asI64.map Int64.toInt := by
  cases value with
  | date v => exact congrArg some (Int32.toInt_toInt64 v).symm
  | _ => rfl

theorem show_of : (Exact.of value).show_ ext = toStringValue ext value := by
  cases value with
  | int64 v => rw [toStringValue]; rfl
  | date v => rw [toStringValue]; rfl
  | timestamp v => rw [toStringValue]; rfl
  | _ => rfl

theorem minus_follows :
    Follows Exact.of (fun checks => unaryMinus ext checks value) (MinusFits (.of value)) (Exact.minus (.of value)) := by
  cases value with
  | int64 v => exact (follows_int64 (-v.toInt)).map fun _ => rfl
  | float64 bits => exact follows_ok Exact.of _
  | _ => exact follows_refuse _ _

end

private theorem int_follows (value : Int) :
    Follows Exact.of (fun checks => Value.int64 <$> int64 checks value) (Fits value) (some (.int value)) :=
      (follows_int64 value).map fun _ => rfl

private theorem no_int {value : Value} (float : value.asF64 = none) : asInt64 value = none := by
  cases value with
  | int64 v => cases float
  | _ => rfl

/-- The remainder overflows only where the quotient does. -/
private theorem mod_follows (a b : Int64) :
    Follows Exact.of (fun _ => if b = 0 then refuse "DEFAULT expression modulo by zero"
      else if a = Int64.minValue ∧ b = -1 then .error .panicked
        else .ok (.int64 (a % b)))
      (¬ (a.toInt = -2^63 ∧ b.toInt = -1)) (if b.toInt = 0 then none else some (.int (a.toInt.tmod b.toInt))) := by
  have zero : b = 0 ↔ b.toInt = 0 := by rw [← Int64.toInt_inj]; rfl
  have wraps : a = Int64.minValue ∧ b = -1 ↔ a.toInt = -2^63 ∧ b.toInt =
    -1 := by rw [← Int64.toInt_inj,← Int64.toInt_inj]; rfl
  by_cases none_ : b = 0
  · rw [if_pos (zero.mp none_)]
    refine ⟨fun _ _ => ?_,fun bad => ?_⟩
    · rw [if_pos none_]
      exact .refused _
    · rw [none_] at bad
      exact absurd (fun both => nomatch both.2) bad
  · rw [if_neg fun same => none_ (zero.mpr same)]
    constructor
    · intro fits _
      rw [if_neg none_,if_neg fun both => fits (wraps.mp both),← Int64.toInt_mod]
      exact .value (Value.int64 (a % b))
    · intro bad
      rw [if_neg none_,if_pos (wraps.mpr (not_not.mp bad))]

private theorem div_follows (lf rf : UInt64) :
    Follows Exact.of (fun _ => if Float.ofBits rf == 0 then refuse "DEFAULT expression division by zero"
        else .ok (.float64 (Float.ofBits lf / Float.ofBits rf).toBits))
      True (if Float.ofBits rf == 0 then none
        else some (.other (.float64 (Float.ofBits lf / Float.ofBits rf).toBits))) := by
  cases Float.ofBits rf == 0 with
  | true => exact follows_refuse _ _
  | false => exact follows_ok Exact.of _

theorem binary_follows (left right : Value) (op : BinaryOperator) :
    Follows Exact.of (fun checks => evalDefaultBinary checks left op right) (BinaryFits (.of left) op (.of right))
      (Exact.binary (.of left) op (.of right)) := by
  unfold evalDefaultBinary Exact.binary BinaryFits
  rw [float_of,float_of,int?_of,int?_of]
  cases leftFloat : left.asF64 with
  | none =>
    rw [no_int leftFloat]
    exact (follows_refuse _ _).congr (by cases op <;> simp) rfl
  | some lf =>
    cases rightFloat : right.asF64 with
    | none =>
      rw [no_int rightFloat]
      exact (follows_refuse _ _).congr (by cases op <;> simp) rfl
    | some rf =>
      cases asInt64 left with
      | none =>
        cases op with
        | add => exact follows_ok Exact.of _
        | sub => exact follows_ok Exact.of _
        | mul => exact follows_ok Exact.of _
        | div => exact div_follows lf rf
        | _ => exact follows_refuse _ _
      | some a =>
        cases asInt64 right with
        | none =>
          cases op with
          | add => exact follows_ok Exact.of _
          | sub => exact follows_ok Exact.of _
          | mul => exact follows_ok Exact.of _
          | div => exact div_follows lf rf
          | _ => exact follows_refuse _ _
        | some b =>
          cases op with
          | add => exact int_follows (a.toInt + b.toInt)
          | sub => exact int_follows (a.toInt - b.toInt)
          | mul => exact int_follows (a.toInt * b.toInt)
          | div => exact div_follows lf rf
          | mod => exact mod_follows a b
          | _ => exact follows_refuse _ _

theorem dateDays_follows (s : String) : Follows Int32.toInt (fun _ => parseDefaultDateDays ext s) (Cut s)
    (Exact.dateDays ext cut s) := by
  unfold parseDefaultDateDays Exact.dateDays sliceTo Cut
  cases upTo s.toList (min 10 s.utf8ByteSize) with
  | none => exact ⟨fun whole => (by cases whole),fun _ => rfl⟩
  | some head =>
    refine Follows.congr ?_ (iff_of_true trivial rfl) rfl
    change Follows Int32.toInt (fun _ => match ext.parseDate (String.ofList head) "%Y-%m-%d" with
      | some days => .ok days.toInt32
      | none => refuse "Invalid DEFAULT DATE literal") True ((ext.parseDate (String.ofList head) "%Y-%m-%d").map
        fun day => cut day.toInt)
    cases ext.parseDate (String.ofList head) "%Y-%m-%d" with
    | none => exact follows_refuse _ _
    | some days =>
      refine (follows_ok Int32.toInt days.toInt32).congr Iff.rfl ?_
      rw [Int64.toInt_toInt32]
      rfl

theorem micros_follows (s : String) :
    Follows Int64.toInt (fun checks => parseDefaultTimestampMicros ext checks s) (MicrosFit ext cut s)
      (Exact.timestampMicros ext cut s) := by
  unfold parseDefaultTimestampMicros Exact.timestampMicros MicrosFit
  cases ext.parseDateTime s "%Y-%m-%d %H:%M:%S%.f" with
  | some time => exact (follows_ok Int64.toInt time).congr (iff_of_true trivial nofun) rfl
  | none =>
    cases ext.parseDateTime s "%Y-%m-%d %H:%M:%S" with
    | some time => exact (follows_ok Int64.toInt time).congr (iff_of_true trivial fun _ => nofun) rfl
    | none =>
      refine ((dateDays_follows ext s).bind (fun day => Fits (day * 86400000000)) (fun day => some (day * 86400000000))
        fun day => follows_int64 (day.toInt * 86400000000)).congr ?_ ?_
      · exact ⟨fun fits _ _ => fits,fun fits => fits rfl rfl⟩
      · cases Exact.dateDays ext cut s <;> rfl

theorem seconds_follows (s : String) : Follows Int64.toInt (fun checks => parseDefaultTimestampSeconds ext checks s)
    (MicrosFit ext cut s)
    ((Exact.timestampMicros ext cut s).map fun time => time.tdiv 1000000) :=
  (micros_follows ext s).map fun time => Int64.toInt_div_of_ne_right time 1000000 (by decide)

section
variable (value : Value)

private theorem integer_follows :
    Follows Exact.of (fun _ => match value.asI64 <|> value.asStr.bind
      parseI64 with | some v => .ok (.int64 v) | none => refuse "Invalid DEFAULT integer cast")
      True (((Exact.of value).number <|> ((Exact.of value).text?.bind parseI64).map Int64.toInt).map .int) := by
  rw [number_of,text?_of]
  cases value.asI64 with
  | some v => exact follows_ok Exact.of (.int64 v)
  | none =>
    cases value.asStr.bind parseI64 with
    | some v => exact follows_ok Exact.of (.int64 v)
    | none => exact follows_refuse _ _

private theorem float_follows :
    Follows Exact.of (fun _ => match value.asF64 <|> value.asStr.bind
      ext.parseF64 with | some v => .ok (.float64 v) | none => refuse "Invalid DEFAULT float cast")
      True (((Exact.of value).float <|> (Exact.of value).text?.bind ext.parseF64).map fun bits =>
        .other (.float64 bits)) := by
  rw [float_of,text?_of]
  cases value.asF64 with
  | some v => exact follows_ok Exact.of (.float64 v)
  | none =>
    cases value.asStr.bind ext.parseF64 with
    | some v => exact follows_ok Exact.of (.float64 v)
    | none => exact follows_refuse _ _

private theorem bool_follows : Follows Exact.of (fun _ => .ok (.bool (value.asI64.getD 0 ≠ 0))) True
    (some (.other (.bool ((Exact.of value).number.getD 0 ≠ 0)))) := by
  refine (follows_ok Exact.of _).congr Iff.rfl (congrArg some (congrArg Exact.other
    (congrArg Value.bool (decide_eq_decide.mpr (not_congr ?_)))))
  rw [number_of]
  cases value.asI64 with
  | none => exact iff_of_true rfl rfl
  | some v =>
    rw [Option.map_some,Option.getD_some,Option.getD_some,← Int64.toInt_inj]
    rfl

private theorem date_follows : Follows Exact.of (fun _ => match value.asI64 with
      | some v => .ok (.date v.toInt32)
      | none => refuse "Invalid DEFAULT DATE cast") True ((Exact.of value).number.map fun v => .day (cut v)) := by
  rw [number_of]
  cases value.asI64 with
  | none => exact follows_refuse _ _
  | some v =>
    exact (follows_ok Exact.of (.date v.toInt32)).congr Iff.rfl (congrArg (fun days =>
      some (Exact.day days)) (Int64.toInt_toInt32 v))

private theorem timestamp_follows : Follows Exact.of (fun _ => match value.asI64 with
      | some v => .ok (.timestamp v)
      | none => refuse "Invalid DEFAULT TIMESTAMP cast") True ((Exact.of value).number.map .micros) := by
  rw [number_of]
  cases value.asI64 with
  | none => exact follows_refuse _ _
  | some v => exact follows_ok Exact.of (.timestamp v)

theorem cast_follows (dataType : DataType) :
    Follows Exact.of (fun checks => castDefaultValue ext checks value dataType) (CastFits ext cut (.of value) dataType)
      (Exact.cast ext cut (.of value) dataType) := by
  cases dataType with
  | string =>
    refine (follows_ok Exact.of (.string (toStringValue ext value))).congr ?_
      (congrArg (fun text => some (Exact.other (.string text))) (show_of ext value).symm)
    exact Iff.rfl
  | bool =>
    have general := bool_follows value
    cases value with
    | bool v => exact follows_ok Exact.of (.bool v)
    | string s => exact follows_ok Exact.of (.bool _)
    | _ => exact general
  | date =>
    have general := date_follows value
    cases value with
    | date v => exact follows_ok Exact.of (.date v)
    | string s => exact (dateDays_follows ext s).map fun _ => rfl
    | _ => exact general
  | timestamp =>
    have general := timestamp_follows value
    cases value with
    | timestamp v => exact follows_ok Exact.of (.timestamp v)
    | string s => exact (micros_follows ext s).map fun _ => rfl
    | _ => exact general
  | int8 => exact integer_follows value
  | int16 => exact integer_follows value
  | int32 => exact integer_follows value
  | int64 => exact integer_follows value
  | uint8 => exact integer_follows value
  | uint16 => exact integer_follows value
  | uint32 => exact integer_follows value
  | uint64 => exact integer_follows value
  | float32 => exact float_follows ext value
  | float64 => exact float_follows ext value
  | _ => exact follows_refuse _ _

end

theorem function_follows (name : String) (values : List Value) :
    Follows Exact.of (fun checks => applyDefaultFunction ext checks name values)
      (FunctionFits ext cut name (values.map .of))
      (Exact.function ext cut name (values.map .of)) := by
  unfold applyDefaultFunction FunctionFits Exact.function
  cases foldedFunction name.toUpper with
  | none => exact follows_refuse _ _
  | some function =>
    cases function with
    | concat =>
      refine (follows_ok Exact.of (.string _)).congr Iff.rfl (congrArg (fun texts =>
        some (Exact.other (.string (String.join texts)))) ?_)
      rw [List.map_map]
      exact (List.map_congr_left fun value _ => show_of ext value).symm
    | lower =>
      match values with
      | [] => exact follows_refuse _ _
      | [value] =>
        exact (follows_ok Exact.of (.string _)).congr Iff.rfl (congrArg (fun text : String =>
          some (Exact.other (.string text.toLower))) (show_of ext value).symm)
      | _ :: _ :: _ => exact follows_refuse _ _
    | upper =>
      match values with
      | [] => exact follows_refuse _ _
      | [value] =>
        exact (follows_ok Exact.of (.string _)).congr Iff.rfl (congrArg (fun text : String =>
          some (Exact.other (.string text.toUpper))) (show_of ext value).symm)
      | _ :: _ :: _ => exact follows_refuse _ _
    | abs =>
      match values with
      | [] => exact follows_refuse _ _
      | [value] =>
        cases value with
        | int64 v => exact int_follows |v.toInt|
        | float64 bits => exact follows_ok Exact.of (.float64 _)
        | _ => exact follows_refuse _ _
      | _ :: _ :: _ => exact follows_refuse _ _
    | unixTimestamp =>
      match values with
      | [] => exact follows_refuse _ _
      | [value] =>
        cases value with
        | string s =>
          refine ((seconds_follows ext s).map (f := Value.int64) (g := Exact.int) fun _ => rfl).congr Iff.rfl ?_
          rw [Option.map_map]
          rfl
        | _ => exact follows_refuse _ _
      | _ :: _ :: _ => exact follows_refuse _ _

end Operations

section Expressions
variable (ext : External)

mutual

theorem expr_follows (expr : SqlExpr) :
    Follows Exact.of (fun checks => evalDefaultConstantExpr ext checks expr) (InRange ext cut expr)
      (exactExpr ext cut expr) := by
  cases expr with
  | literal v => simpa only [evalDefaultConstantExpr,InRange,exactExpr] using follows_ok Exact.of v
  | paren inner => simpa only [evalDefaultConstantExpr,InRange,exactExpr] using expr_follows inner
  | unaryOp op expr =>
    cases op with
    | minus =>
      simpa only [evalDefaultConstantExpr,InRange,exactExpr] using (expr_follows expr).bind MinusFits Exact.minus
        (minus_follows ext)
    | not => simpa only [evalDefaultConstantExpr,InRange,exactExpr] using follows_refuse _ _
  | binaryOp left op right =>
    have follows := (expr_follows left).bind (fun l => InRange ext cut right ∧ ∀ r, exactExpr ext cut right = some r →
      BinaryFits l op r)
      (fun l => (exactExpr ext cut right).bind fun r => l.binary op r) fun l =>
        (expr_follows right).bind (fun r => BinaryFits (.of l) op r) (fun r => (Exact.of l).binary op r) fun r =>
          binary_follows l r op
    simpa only [evalDefaultConstantExpr,InRange,exactExpr] using follows
  | cast expr dataType =>
    have follows := (expr_follows expr).bind (fun value => CastFits ext cut value dataType) (fun value =>
      value.cast ext cut dataType)
      fun value => cast_follows ext value dataType
    simpa only [evalDefaultConstantExpr,InRange,exactExpr] using follows
  | function name args =>
    have follows := (args_follow args).bind (FunctionFits ext cut name) (Exact.function ext cut name)
      (function_follows ext name)
    simpa only [evalDefaultConstantExpr,InRange,exactExpr] using follows
  | column name => simpa only [evalDefaultConstantExpr,InRange,exactExpr] using follows_refuse _ _
  | inSubquery => simpa only [evalDefaultConstantExpr,InRange,exactExpr] using follows_refuse _ _
  | existsSubquery => simpa only [evalDefaultConstantExpr,InRange,exactExpr] using follows_refuse _ _
  | scalarSubquery => simpa only [evalDefaultConstantExpr,InRange,exactExpr] using follows_refuse _ _
  | other => simpa only [evalDefaultConstantExpr,InRange,exactExpr] using follows_refuse _ _

theorem args_follow (args : List SqlExpr) :
    Follows (List.map Exact.of) (fun checks => evalDefaultArgs ext checks args) (ArgsInRange ext cut args)
      (exactArgs ext cut args) := by
  cases args with
  | nil =>
    simpa only [evalDefaultArgs,ArgsInRange,exactArgs,List.map_nil] using follows_ok (List.map Exact.of)
      ([] : List Value)
  | cons arg rest =>
    have tail (value : Value) : Follows (List.map Exact.of) (fun checks =>
      (value :: ·) <$> evalDefaultArgs ext checks rest)
        (ArgsInRange ext cut rest) ((exactArgs ext cut rest).map (Exact.of value :: ·)) :=
          (args_follow rest).map fun _ => rfl
    have follows := (expr_follows arg).bind (fun _ => ArgsInRange ext cut rest) (fun value =>
      (exactArgs ext cut rest).map (value :: ·)) tail
    simpa only [evalDefaultArgs,ArgsInRange,exactArgs] using follows

end

end Expressions

/-- The folding is exact or refused in both builds if and only if every operation on integers that it comes to fits in
64 bits, no date is cut inside a character, and cutting day numbers to 32 bits changes nothing. -/
theorem folds_exactly_iff (ext : External) (expr : SqlExpr) :
    FoldsExactly ext expr ↔ InRange ext cut expr ∧ DaysKept ext expr := by
  have follows := expr_follows ext expr
  unfold FoldsExactly DaysKept
  constructor
  · intro exact
    have inRange : InRange ext cut expr := by
      by_contra wide
      have never := exact true
      rw [follows.panics wide] at never
      exact never
    refine ⟨inRange,fun value folded => ?_⟩
    have agrees := follows.agrees inRange true
    have same := exact true
    rw [folded] at agrees
    generalize evalDefaultConstantExpr ext true expr = result at agrees same
    cases agrees with
    | value v => exact same
  · rintro ⟨inRange,kept⟩ checks
    have agrees := follows.agrees inRange checks
    generalize evalDefaultConstantExpr ext checks expr = result at agrees ⊢
    generalize cutValue : exactExpr ext cut expr = value at agrees
    cases agrees with
    | value v => exact kept _ cutValue
    | refused message => trivial

def bare : External := ⟨fun _ _ => none,fun _ _ => none,fun _ => none,fun _ => "",fun _ => "",fun _ => "",fun _ => ""⟩

def leastNegated : SqlExpr :=
  .unaryOp .minus (.paren (.binaryOp (.unaryOp .minus (.literal (.int64 9223372036854775807))) .sub
    (.literal (.int64 1))))

theorem leastNegated_wraps : evalDefaultConstantExpr bare true leastNegated = .error .panicked ∧
    evalDefaultConstantExpr bare false leastNegated = .ok (.int64 (-9223372036854775808)) ∧
    ¬ FoldsExactly bare leastNegated := by
  have panics : evalDefaultConstantExpr bare true leastNegated = .error .panicked := rfl
  refine ⟨panics,rfl,fun exact => ?_⟩
  have never := exact true
  rw [panics] at never
  exact never

end ApexBase.Query.Defaults
