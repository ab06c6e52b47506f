import ApexBase.Data.Value
import ApexBase.Fts.Query
import ApexBase.Library.Binary64
import ApexBase.Library.Bytewise
import ApexBase.Library.Wire
import ApexBase.Query.Defaults

/-! Predicates on decimal columns (`query/executor/decimal.rs`): literals, exact comparison and the
masks of a comparison, of BETWEEN and of IN. -/
namespace ApexBase.Query.Decimal
open Data Library Library.Assoc Library.Wire
open Library.Bytewise (bytesLen)
open Defaults (BinaryOperator SqlExpr UnaryOperator)

@[ext] structure Int128 where
  value : Int
  fits : -2^127 ≤ value ∧ value < 2^127
  deriving DecidableEq

namespace Int128

def wrap (value : Int) : Int128 := ⟨Int.bmod value (2^128),by
  have low := @Int.le_bmod value (2^128) (by decide)
  have high := @Int.bmod_lt value (2^128) (by decide)
  omega⟩

def checked (value : Int) : Option Int128 := if fits : -2^127 ≤ value ∧ value < 2^127 then some ⟨value,fits⟩ else none

def checkedMul (a : Int128) (b : Int) : Option Int128 := checked (a.value * b)

def checkedAdd (a : Int128) (b : Int) : Option Int128 := checked (a.value + b)

def neg (a : Int128) : Int128 := wrap (-a.value)

def fromLeBytes (bytes : Bytes) : Int128 := wrap (ofLe bytes)

theorem wrap_value (value : Int) : (wrap value).value = Int.bmod value (2^128) := rfl

theorem neg_value (a : Int128) : a.neg.value = Int.bmod (-a.value) (2^128) := rfl

theorem wrap_of_fits {value : Int} (fits : -2^127 ≤ value ∧ value < 2^127) : (wrap value).value = value := by
  rw [wrap_value,Int.bmod_def]
  omega

end Int128

/-- A panic of a build with overflow checks, or an error of the statement. -/
inductive Fault
  | overflow
  | io (error : IoError)
  deriving DecidableEq

/-- Whether arithmetic that overflows panics or wraps, and what the standard library does:
`to_lowercase` and the text of a float. -/
structure Runtime where
  overflowChecks : Bool
  toLowercase : String → String
  display : UInt64 → List Char

def trimQuotes (text : List Char) : List Char := ((text.dropWhile (· == '"')).reverse.dropWhile (· == '"')).reverse

def lastSegment (text : List Char) : List Char := (text.reverse.takeWhile (· != '.')).reverse

/-- `split_once('.')`, with an empty text behind where there is no point. -/
def splitPoint (text : List Char) : List Char × List Char :=
  (text.takeWhile (· != '.'),(text.dropWhile (· != '.')).drop 1)

def takeDigit (unscaled : Int128) (c : Char) : Option Int128 := do
  let shifted ← unscaled.checkedMul 10
  shifted.checkedAdd (c.toNat - 48 : Nat)

def parseDecimalText (text : List Char) : Option (Int128 × Int8) :=
  match Fts.trim text with
  | [] => none
  | first :: rest =>
    let negative := first == '-'
    let unsigned := if first == '-' || first == '+' then rest else first :: rest
    if unsigned.isEmpty || 40 < bytesLen unsigned then none
    else
      let (integerPart,fractionalPart) := splitPoint unsigned
      if integerPart.isEmpty && fractionalPart.isEmpty then none
      else if !integerPart.all Char.isDigit || !fractionalPart.all Char.isDigit then none
      else if 127 < bytesLen fractionalPart then none
      else do
        let unscaled ← (integerPart ++ fractionalPart).foldlM takeDigit (Int128.wrap 0)
        some (if negative then unscaled.neg else unscaled,Int8.ofNat (bytesLen fractionalPart))

def isFinite (bits : UInt64) : Bool := decide (Binary64.magnitude bits < 2047 * 2^52)

section Literal
variable (runtime : Runtime)

def float64Parts (bits : UInt64) : Option (Int128 × Int8) :=
  if !isFinite bits then none else parseDecimalText (runtime.display bits)

def decimalLiteralParts : Value → Option (Int128 × Int8)
  | .int8 value => some (.wrap value.toInt,0)
  | .int16 value => some (.wrap value.toInt,0)
  | .int32 value => some (.wrap value.toInt,0)
  | .int64 value => some (.wrap value.toInt,0)
  | .uint8 value => some (.wrap value.toNat,0)
  | .uint16 value => some (.wrap value.toNat,0)
  | .uint32 value => some (.wrap value.toNat,0)
  | .uint64 value => some (.wrap value.toNat,0)
  | .float32 bits => float64Parts runtime (Float32.ofBits bits).toFloat.toBits
  | .float64 bits => float64Parts runtime bits
  | .string text => parseDecimalText text.toList
  | _ => none

end Literal

def pow10 : List Nat := [
  1,
  10,
  100,
  1_000,
  10_000,
  100_000,
  1_000_000,
  10_000_000,
  100_000_000,
  1_000_000_000,
  10_000_000_000,
  100_000_000_000,
  1_000_000_000_000,
  10_000_000_000_000,
  100_000_000_000_000,
  1_000_000_000_000_000,
  10_000_000_000_000_000,
  100_000_000_000_000_000,
  1_000_000_000_000_000_000,
  10_000_000_000_000_000_000,
  100_000_000_000_000_000_000,
  1_000_000_000_000_000_000_000,
  10_000_000_000_000_000_000_000,
  100_000_000_000_000_000_000_000,
  1_000_000_000_000_000_000_000_000,
  10_000_000_000_000_000_000_000_000,
  100_000_000_000_000_000_000_000_000,
  1_000_000_000_000_000_000_000_000_000,
  10_000_000_000_000_000_000_000_000_000,
  100_000_000_000_000_000_000_000_000_000,
  1_000_000_000_000_000_000_000_000_000_000,
  10_000_000_000_000_000_000_000_000_000_000,
  100_000_000_000_000_000_000_000_000_000_000,
  1_000_000_000_000_000_000_000_000_000_000_000,
  10_000_000_000_000_000_000_000_000_000_000_000,
  100_000_000_000_000_000_000_000_000_000_000_000,
  1_000_000_000_000_000_000_000_000_000_000_000_000,
  10_000_000_000_000_000_000_000_000_000_000_000_000,
  100_000_000_000_000_000_000_000_000_000_000_000_000]

def pow10Mul (value digits : Nat) : Option Nat :=
  if value = 0 then some 0
  else (pow10[digits]?).bind fun factor => if value * factor < 2^128 then some (value * factor) else none

/-- `(a - b) as usize` of two `i8`. A difference that wraps is negative and becomes a huge count. -/
def scaleGap (overflowChecks : Bool) (a b : Int8) : Option Nat :=
  if overflowChecks = true ∧ ¬(-128 ≤ a.toInt - b.toInt ∧ a.toInt - b.toInt ≤ 127) then none
  else some (a - b).toInt64.toUInt64.toNat

def cmpDecimalMagnitudes (overflowChecks : Bool) (a : Nat) (aScale : Int8) (b : Nat) (bScale : Int8) :
    Option Ordering :=
  if aScale = bScale then some (compare a b)
  else if aScale > bScale then
    (scaleGap overflowChecks aScale bScale).map fun gap =>
      match pow10Mul b gap with
      | some scaled => compare a scaled
      | none => .lt
  else
    (scaleGap overflowChecks bScale aScale).map fun gap =>
      match pow10Mul a gap with
      | some scaled => compare scaled b
      | none => .gt

def cmpDecimal (overflowChecks : Bool) (a : Int128) (aScale : Int8) (b : Int128) (bScale : Int8) : Option Ordering :=
  let signA := a.value.sign
  let signB := b.value.sign
  if signA ≠ signB then some (compare signA signB)
  else if signA = 0 then some .eq
  else
    (cmpDecimalMagnitudes overflowChecks a.value.natAbs aScale b.value.natAbs bScale).map fun magnitude =>
      if signA < 0 then magnitude.swap else magnitude

def cmpDecimalMatches (op : BinaryOperator) (ordering : Ordering) : Bool :=
  match op with
  | .eq => ordering == .eq
  | .notEq => ordering != .eq
  | .lt => ordering == .lt
  | .le => ordering != .gt
  | .gt => ordering == .gt
  | .ge => ordering != .lt
  | _ => false

def flipComparison : BinaryOperator → Option BinaryOperator
  | .eq => some .eq
  | .notEq => some .notEq
  | .lt => some .gt
  | .le => some .ge
  | .gt => some .lt
  | .ge => some .le
  | _ => none

/-- A column of a batch, by the array types that can hold decimals. -/
inductive ArrayRef
  | binary (values : List (Option Bytes))
  | fixedSizeBinary (valueLength : Int) (values : List (Option Bytes))
  | decimal128 (values : List (Option Int128))
  | other

structure RecordBatch where
  columns : List (String × ArrayRef)

def RecordBatch.columnByName (batch : RecordBatch) (name : String) : Option ArrayRef := batch.columns.lookup name

abbrev BooleanArray := List (Option Bool)

def decimalPayloadToI128 (bytes : Bytes) : Option Int128 := if bytes.length ≠ 16 then none
    else some (.fromLeBytes bytes)

def decimalColumnValues : ArrayRef → Option (List (Option Int128))
  | .binary values => some (values.map fun value => value.bind decimalPayloadToI128)
  | .fixedSizeBinary valueLength values =>
    if valueLength ≠ 16 then none else some (values.map fun value => value.bind decimalPayloadToI128)
  | .decimal128 values => some values
  | .other => none

def clean (column : String) : String := .ofList (lastSegment (trimQuotes column.toList))

def errInput (message : String) : Fault := .io ⟨.invalidInput,message⟩

section Masks
variable (runtime : Runtime) (scales : Option (Map String Int8)) (batch : RecordBatch)

/-- The declared scale of a column, from the scales that the statement has installed. -/
def decimalScaleHint (column : String) : Option Int8 := do
  let hints ← scales
  let trimmed := String.ofList (trimQuotes column.toList)
  match hints.lookup trimmed with
  | some scale => some scale
  | none => (hints.lookup (clean column)).or (hints.lookup (runtime.toLowercase (clean column)))

/-- The scale and the values of a column that is a decimal column here. -/
def decimalColumn (column : String) : Option (Int8 × List (Option Int128)) := do
  let scale ← decimalScaleHint runtime scales column
  let array ← batch.columnByName (clean column)
  let values ← decimalColumnValues array
  some (scale,values)

def maskRow (row : Int128 → Option (Option Bool)) : Option Int128 → Option (Option Bool)
  | none => some none
  | some value => row value

def buildMask (row : Int128 → Option (Option Bool)) (values : List (Option Int128)) :
    Except Fault (Option BooleanArray) :=
  match values.mapM (maskRow row) with
  | some mask => .ok (some mask)
  | none => .error .overflow

def decimalColumnPairMask (leftName : String) (op : BinaryOperator) (rightName : String) :
    Except Fault (Option BooleanArray) :=
  match decimalScaleHint runtime scales leftName,decimalScaleHint runtime scales rightName,
      (batch.columnByName (clean leftName)).bind decimalColumnValues,
      (batch.columnByName (clean rightName)).bind decimalColumnValues with
  | some leftScale,some rightScale,some leftValues,some rightValues =>
    if leftValues.length ≠ rightValues.length then .ok none
    else
      match (leftValues.zip rightValues).mapM (fun pair => match pair with
          | (some left,some right) =>
            (cmpDecimal runtime.overflowChecks left leftScale right rightScale).map fun ordering =>
              some (cmpDecimalMatches op ordering)
          | _ => some none) with
      | some mask => .ok (some mask)
      | none => .error .overflow
  | _,_,_,_ => .ok none

def decimalLiteralMask (column : String) (literal : Value) (reversed : Bool) (op : BinaryOperator) :
    Except Fault (Option BooleanArray) :=
  match decimalColumn runtime scales batch column with
  | none => .ok none
  | some (scale,values) =>
    match if reversed then flipComparison op else some op with
    | none => .ok none
    | some effectiveOp =>
      match decimalLiteralParts runtime literal with
      | none => .error (errInput s!"DECIMAL column '{clean column}' can only be compared with a numeric literal")
      | some (literalValue,literalScale) =>
        buildMask (fun value => (cmpDecimal runtime.overflowChecks value scale literalValue literalScale).map
          fun ordering =>
          some (cmpDecimalMatches effectiveOp ordering)) values

def decimalComparisonMask (left : SqlExpr) (op : BinaryOperator) (right : SqlExpr) :
    Except Fault (Option BooleanArray) :=
  match left,right with
  | .column name,.literal value => decimalLiteralMask runtime scales batch name value false op
  | .literal value,.column name => decimalLiteralMask runtime scales batch name value true op
  | .column leftName,.column rightName => decimalColumnPairMask runtime scales batch leftName op rightName
  | _,_ => .ok none

/-- The second bound is looked at only where the first one holds. -/
def betweenRow (scale : Int8) (low high : Int128 × Int8) (negated : Bool) (value : Int128) : Option (Option Bool) := do
  let above ← cmpDecimal runtime.overflowChecks value scale low.1 low.2
  let matched ← if above == .lt then some false
    else (cmpDecimal runtime.overflowChecks value scale high.1 high.2).map fun below => below != .gt
  some (some (if negated then !matched else matched))

def decimalBetweenMask (column : String) (low high : SqlExpr) (negated : Bool) : Except Fault (Option BooleanArray) :=
  match decimalColumn runtime scales batch column with
  | none => .ok none
  | some (scale,values) =>
    match low,high with
    | .literal low,.literal high =>
      match decimalLiteralParts runtime low,decimalLiteralParts runtime high with
      | some low,some high => buildMask (betweenRow runtime scale low high negated) values
      | _,_ => .error (errInput s!"DECIMAL column '{clean column}' can only be compared with numeric literals")
    | _,_ => .ok none

/-- `any`, which stops at the first literal that is equal. -/
def inAny (scale : Int8) (value : Int128) : List (Int128 × Int8) → Option Bool
  | [] => some false
  | literal :: rest => do
    let ordering ← cmpDecimal runtime.overflowChecks value scale literal.1 literal.2
    if ordering == .eq then some true else inAny scale value rest

def inRow (scale : Int8) (literals : List (Int128 × Int8)) (hasNull negated : Bool) (value : Int128) :
    Option (Option Bool) :=
  (inAny runtime scale value literals).map fun matched =>
    if matched then some !negated else if hasNull then none else some negated

def isNull : Value → Bool
  | .null => true
  | _ => false

def decimalInMask (column : String) (values : List Value) (negated : Bool) : Except Fault (Option BooleanArray) :=
  match decimalColumn runtime scales batch column with
  | none => .ok none
  | some (scale,rows) =>
    match (values.filter fun value => !isNull value).mapM (decimalLiteralParts runtime) with
    | none => .error (errInput s!"DECIMAL column '{clean column}' IN list requires numeric literals")
    | some literals => buildMask (inRow runtime scale literals (values.any isNull) negated) rows

end Masks

end ApexBase.Query.Decimal
