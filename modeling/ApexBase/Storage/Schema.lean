import ApexBase.Column.Data
import ApexBase.Library.Guarded
import ApexBase.Library.Run
import ApexBase.Storage.DeltaFile

/-! The schema of a table and its bytes (`storage/on_demand/header.rs`). The format grew by parts at
the end, most of them behind a marker byte. -/
namespace ApexBase.Storage.Schema
open Data Column Library Library.Wire Library.Wire.Reader

def toU8 : ColumnType → UInt8
  | .null => 0
  | .bool => 1
  | .int8 => 2
  | .int16 => 3
  | .int32 => 4
  | .int64 => 5
  | .uint8 => 6
  | .uint16 => 7
  | .uint32 => 8
  | .uint64 => 9
  | .float32 => 10
  | .float64 => 11
  | .string => 12
  | .binary => 13
  | .stringDict => 14
  | .timestamp => 15
  | .date => 16
  | .fixedList => 17
  | .float16List => 18
  | .blob => 19
  | .bfloat16List => 20
  | .int8Vector => 21
  | .uint8Vector => 22
  | .bit1Vector => 23
  | .turboQuant2Vector => 24
  | .turboQuant3Vector => 25
  | .turboQuant4Vector => 26
  | .json => 27
  | .uuid => 28
  | .decimal128 => 29
  | .time => 30
  | .timestampTz => 31
  | .interval => 32
  | .list => 33
  | .extension => 34

def columnTypes : List ColumnType :=
  [.null,.bool,.int8,.int16,.int32,.int64,.uint8,.uint16,.uint32,.uint64,.float32,.float64,.string,.binary,.stringDict,
    .timestamp,.date,
    .fixedList,.float16List,.blob,.bfloat16List,.int8Vector,.uint8Vector,.bit1Vector,.turboQuant2Vector,
    .turboQuant3Vector,.turboQuant4Vector,
    .json,.uuid,.decimal128,.time,.timestampTz,.interval,.list,.extension]

/-- The type with this tag: the tags are consecutive. -/
def fromU8 (tag : UInt8) : Option ColumnType := columnTypes[tag.toNat]?

inductive DefaultValue
  | int64 (value : Int64)
  | float64 (bits : UInt64)
  | string (value : String)
  | bool (value : Bool)
  | null
  | currentDate
  | currentTimestamp
  | unixTimestamp
  | date (value : Int32)
  | timestamp (value : Int64)
  deriving DecidableEq

structure ColumnConstraints where
  notNull : Bool := false
  primaryKey : Bool := false
  unique : Bool := false
  defaultValue : Option DefaultValue := none
  checkExprSql : Option String := none
  foreignKey : Option (String × String) := none
  autoincrement : Bool := false
  deriving DecidableEq

structure VectorDerivation where
  source : String
  target : String
  codecVersion : UInt16
  deriving DecidableEq

inductive LogicalType
  | uuid
  | decimal (precision : UInt8) (scale : Int8)
  | timestampTz (offsetMinutes : Int16)
  | list (element : ColumnType)
  | extension (codec : String) (version : UInt8)
  deriving DecidableEq

structure OnDemandSchema where
  columns : List (String × ColumnType)
  logicalTypes : List (Option LogicalType)
  nameToIdx : String → Option Nat
  constraints : List ColumnConstraints
  vectorDerivations : List VectorDerivation

inductive Failure
  | io (error : IoError)
  /-- `InvalidData` around the error of `from_utf8`. -/
  | utf8
  /-- An index or a slice out of range. -/
  | panicked
  deriving DecidableEq

def failed (message : String) : Failure := .io (errData message)

namespace OnDemandSchema

def new : OnDemandSchema := ⟨[],[],fun _ => none,[],[]⟩

def push (schema : OnDemandSchema) (name : String) (dtype : ColumnType) (cons : ColumnConstraints) : OnDemandSchema :=
  {schema with
    columns := schema.columns ++ [(name,dtype)]
    logicalTypes := schema.logicalTypes ++ [none]
    nameToIdx := Function.update schema.nameToIdx name (some schema.columns.length)
    constraints := schema.constraints ++ [cons]}

def addColumn (schema : OnDemandSchema) (name : String) (dtype : ColumnType) : OnDemandSchema × Nat :=
  match schema.nameToIdx name with
  | some idx => (schema,idx)
  | none => (schema.push name dtype {},schema.columns.length)

def addColumnWithConstraints (schema : OnDemandSchema) (name : String) (dtype : ColumnType) (cons : ColumnConstraints) :
    OnDemandSchema × Nat :=
  match schema.nameToIdx name with
  | some idx => ({schema with constraints := schema.constraints.set idx cons},idx)
  | none => (schema.push name dtype cons,schema.columns.length)

def getIndex (schema : OnDemandSchema) (name : String) : Option Nat := schema.nameToIdx name

def setLogicalType (schema : OnDemandSchema) (index : Nat) (logical : Option LogicalType) : OnDemandSchema :=
  if schema.columns.length ≤ index then schema
  else
    let resized := schema.logicalTypes ++ List.replicate (schema.columns.length - schema.logicalTypes.length) none
    {schema with logicalTypes := resized.set index logical}

def logicalType (schema : OnDemandSchema) (index : Nat) : Option LogicalType := schema.logicalTypes[index]?.join

def columnType (schema : OnDemandSchema) (index : Nat) : Except Failure ColumnType :=
  match schema.columns[index]? with
  | some column => .ok column.2
  | none => .error .panicked

def isSource : ColumnType → Bool
  | .fixedList | .float16List | .bfloat16List => true
  | _ => false

def isTarget : ColumnType → Bool
  | .float16List | .bfloat16List | .int8Vector | .uint8Vector | .bit1Vector
  | .turboQuant2Vector | .turboQuant3Vector | .turboQuant4Vector => true
  | _ => false

def indexOr (schema : OnDemandSchema) (name message : String) : Except Failure Nat :=
  match schema.getIndex name with
  | some idx => .ok idx
  | none => .error (.io ⟨.notFound,message⟩)

def addVectorDerivation (schema : OnDemandSchema) (source target : String) (codecVersion : UInt16) :
    Except Failure OnDemandSchema :=
  if source = target then .error (.io ⟨.invalidInput,"quantized vector source and target columns must differ"⟩)
  else do
    let sourceIdx ← schema.indexOr source s!"source vector column '{source}' not found"
    let targetIdx ← schema.indexOr target s!"quantized vector target column '{target}' not found"
    let sourceType ← schema.columnType sourceIdx
    if !isSource sourceType then
      .error (.io ⟨.invalidInput,s!"column '{source}' is not a rescore-capable vector source"⟩)
    else do
      let targetType ← schema.columnType targetIdx
      if !isTarget targetType then .error (.io ⟨.invalidInput,s!"column '{target}' is not a quantized vector target"⟩)
      else if schema.vectorDerivations.any fun derivation => derivation.target == target then
        .error (.io ⟨.alreadyExists,s!"quantized vector target '{target}' is already registered"⟩)
      else .ok {schema with vectorDerivations := schema.vectorDerivations ++ [⟨source,target,codecVersion⟩]}

def removeVectorDerivation (schema : OnDemandSchema) (target : String) : OnDemandSchema :=
  {schema with vectorDerivations := schema.vectorDerivations.filter fun derivation => derivation.target != target}

def renamed (oldName newName name : String) : String := if name = oldName then newName else name

def renameColumn (schema : OnDemandSchema) (oldName newName : String) : Option OnDemandSchema :=
  (schema.nameToIdx oldName).map fun idx =>
    {schema with
      columns := schema.columns.modify idx fun column => (newName,column.2)
      nameToIdx := Function.update (Function.update schema.nameToIdx oldName none) newName (some idx)
      vectorDerivations := schema.vectorDerivations.map fun derivation =>
        {derivation with
          source := renamed oldName newName derivation.source,target := renamed oldName newName derivation.target}}

end OnDemandSchema

inductive Edit
  | addColumn (name : String) (dtype : ColumnType)
  | addColumnWithConstraints (name : String) (dtype : ColumnType) (cons : ColumnConstraints)
  | setLogicalType (index : Nat) (logical : Option LogicalType)
  | addVectorDerivation (source target : String) (codecVersion : UInt16)
  | removeVectorDerivation (target : String)
  | renameColumn (oldName newName : String)

def edit (schema : OnDemandSchema) (change : Edit) : Option (Edit × OnDemandSchema) :=
  (match change with
    | .addColumn name dtype => some (schema.addColumn name dtype).1
    | .addColumnWithConstraints name dtype cons => some (schema.addColumnWithConstraints name dtype cons).1
    | .setLogicalType index logical => some (schema.setLogicalType index logical)
    | .addVectorDerivation source target codecVersion =>
      (schema.addVectorDerivation source target codecVersion).toOption
    | .removeVectorDerivation target => some (schema.removeVectorDerivation target)
    | .renameColumn oldName newName => schema.renameColumn oldName newName).map fun next => (change,next)

def Built (edits : List Edit) (schema : OnDemandSchema) : Prop := Run edit (fun _ _ => true) .new edits schema

def shortText (value : String) : Bytes := leBytes 2 (utf8 value).length ++ utf8 value

def columnBytes (column : String × ColumnType) : Bytes := shortText column.1 ++ [toU8 column.2]

def flag (set : Bool) (mask : UInt8) : UInt8 := if set then mask else 0

def ColumnConstraints.flags (cons : ColumnConstraints) : UInt8 :=
  flag cons.notNull 0x01 ||| flag cons.primaryKey 0x02 ||| flag cons.unique 0x04 |||
    flag cons.defaultValue.isSome 0x08 |||
    flag cons.autoincrement 0x10

def defaultBytes : Option DefaultValue → Bytes
  | some (.int64 value) => 1 :: leBytes 8 value.toUInt64.toNat
  | some (.float64 bits) => 2 :: leBytes 8 bits.toNat
  | some (.string value) => 3 :: shortText value
  | some (.bool value) => [4,if value then 1 else 0]
  | some .null => [5]
  | some .currentDate => [6]
  | some .currentTimestamp => [7]
  | some .unixTimestamp => [8]
  | some (.date value) => 9 :: leBytes 4 value.toUInt32.toNat
  | some (.timestamp value) => 10 :: leBytes 8 value.toUInt64.toNat
  | none => [0]

/-- Length 0 stands for no expression. -/
def checkBytes : Option String → Bytes
  | some sql => shortText sql
  | none => leBytes 2 0

/-- Length 0 stands for no key. -/
def foreignKeyBytes : Option (String × String) → Bytes
  | some (table,column) => shortText table ++ shortText column
  | none => leBytes 2 0

def derivationBytes (derivation : VectorDerivation) : Bytes :=
  shortText derivation.source ++ (shortText derivation.target ++ leBytes 2 derivation.codecVersion.toNat)

def LogicalType.toBytes : LogicalType → Bytes
  | .uuid => [1]
  | .decimal precision scale => [2,precision,scale.toUInt8]
  | .timestampTz offsetMinutes => 3 :: leBytes 2 offsetMinutes.toUInt16.toNat
  | .list element => [4,toU8 element]
  | .extension codec version => 5 :: (shortText codec ++ [version])

def logicalBytes : Option LogicalType → Bytes
  | some logical => 1 :: logical.toBytes
  | none => [0]

namespace OnDemandSchema

variable (schema : OnDemandSchema)

/-- The constraints by column, with defaults for columns that have none. -/
def aligned : List ColumnConstraints := (List.range schema.columns.length).map fun i => schema.constraints[i]?.getD {}

def constraintBytes : Bytes :=
  schema.aligned.map ColumnConstraints.flags ++
    (optional (schema.constraints.any fun cons => cons.defaultValue.isSome) 0xDF (schema.aligned.flatMap fun cons =>
      defaultBytes cons.defaultValue) ++
    (optional (schema.constraints.any fun cons => cons.checkExprSql.isSome) 0xCE (schema.aligned.flatMap fun cons =>
      checkBytes cons.checkExprSql) ++
    optional (schema.constraints.any fun cons => cons.foreignKey.isSome) 0xFC (schema.aligned.flatMap fun cons =>
      foreignKeyBytes cons.foreignKey)))

def vectorDerivationBytes : Bytes := leBytes 2 schema.vectorDerivations.length ++
    schema.vectorDerivations.flatMap derivationBytes

def logicalTypeBytes : Bytes :=
  1 :: (leBytes 4 schema.columns.length ++ (List.range schema.columns.length).flatMap fun index =>
    logicalBytes (schema.logicalType index))

def hasAny : Bool :=
  schema.constraints.any fun cons => cons.notNull || cons.primaryKey || cons.unique || cons.defaultValue.isSome ||
    cons.autoincrement

def optionalBytes : Bytes :=
  (if schema.hasAny || !schema.constraints.isEmpty then schema.constraintBytes else []) ++
    (optional (!schema.vectorDerivations.isEmpty) 0xA7 schema.vectorDerivationBytes ++
    optional (schema.logicalTypes.any Option.isSome) 0x4C schema.logicalTypeBytes)

def toBytes : Bytes := leBytes 4 schema.columns.length ++ (schema.columns.flatMap columnBytes ++ schema.optionalBytes)

end OnDemandSchema

abbrev Parser := Reader Failure

def byte : Parser UInt8 := UInt8.ofNat <$> word .panicked 1

def textOrEmpty (raw : Bytes) : String := (fromUtf8 raw).getD ""

def readText (raw : Bytes) : Except Failure String :=
  match fromUtf8 raw with
  | some text => .ok text
  | none => .error .utf8

def readColumn : Parser (String × ColumnType) :=
  ifRoom 2 (do
    let nameLen ← word .panicked 2
    ifRoom (nameLen + 1) (do
      let raw ← take .panicked nameLen
      let name ← lift (readText raw)
      let tag ← byte
      match fromU8 tag with
      | some dtype => return (name,dtype)
      | none => fail (failed "Invalid column type")) (fail (failed "Truncated column")))
        (fail (failed "Truncated schema"))

def readColumns : Nat → OnDemandSchema → Parser OnDemandSchema
  | 0,schema => pure schema
  | count + 1,schema => do
    let column ← readColumn
    readColumns count (schema.addColumn column.1 column.2).1

def ofFlags (flags : UInt8) : ColumnConstraints where
  notNull := flags &&& 1 != 0
  primaryKey := flags &&& 2 != 0
  unique := flags &&& 4 != 0
  autoincrement := flags &&& 0x10 != 0

def stop {α : Type} : Parser (Option α) := pure none

def fixed {α : Type} (width : Nat) (value : Nat → α) : Parser (Option α) :=
  ifRoom width (do return some (value (← word .panicked width))) stop

def readDefault : Parser (Option (Option DefaultValue)) :=
  ifRoom 1 (do
    let tag ← word .panicked 1
    match tag with
    | 1 => fixed 8 fun value => some (.int64 (UInt64.ofNat value).toInt64)
    | 2 => fixed 8 fun value => some (.float64 (UInt64.ofNat value))
    | 3 => ifRoom 2 (do
        let len ← word .panicked 2
        ifRoom len (do return some (some (.string (textOrEmpty (← take .panicked len))))) stop) stop
    | 4 => fixed 1 fun value => some (.bool (decide (value ≠ 0)))
    | 5 => return some (some .null)
    | 6 => return some (some .currentDate)
    | 7 => return some (some .currentTimestamp)
    | 8 => return some (some .unixTimestamp)
    | 9 => fixed 4 fun value => some (.date (UInt32.ofNat value).toInt32)
    | 10 => fixed 8 fun value => some (.timestamp (UInt64.ofNat value).toInt64)
    | _ => return some none) stop

def readCheck : Parser (Option (Option String)) :=
  ifRoom 2 (do
    let len ← word .panicked 2
    if 0 < len then ifRoom len (do return some (some (textOrEmpty (← take .panicked len)))) stop
    else return some none) stop

def readForeignKey : Parser (Option (Option (String × String))) :=
  ifRoom 2 (do
    let tableLen ← word .panicked 2
    if 0 < tableLen then
      ifRoom tableLen (do
        let table ← take .panicked tableLen
        ifRoom 2 (do
          let columnLen ← word .panicked 2
          ifRoom columnLen (do
            let column ← take .panicked columnLen
            return some (some (textOrEmpty table,textOrEmpty column))) stop) stop) stop
    else return some none) stop

def setEach {α β : Type} (set : α → β → β) : List α → List β → List β
  | value :: values,item :: items => set value item :: setEach set values items
  | _,items => items

def setDefault (value : Option DefaultValue) (cons : ColumnConstraints) :
    ColumnConstraints := {cons with defaultValue := value}

def setCheck (value : Option String) (cons : ColumnConstraints) : ColumnConstraints :=
  if value.isSome then {cons with checkExprSql := value} else cons

def setForeignKey (value : Option (String × String)) (cons : ColumnConstraints) : ColumnConstraints :=
  if value.isSome then {cons with foreignKey := value} else cons

/-- There are constraints when a byte for each column is left. -/
def readConstraints (count : Nat) (schema : OnDemandSchema) : Parser OnDemandSchema :=
  if 0 < count then
    ifRoom count (do
      let flags ← take .panicked count
      let defaults ← marked 0xDF (upTo readDefault count) []
      let checks ← marked 0xCE (upTo readCheck count) []
      let keys ← marked 0xFC (upTo readForeignKey count) []
      let flagged := setEach (fun byte _ => ofFlags byte) flags schema.constraints
      return {schema with
        constraints := setEach setForeignKey keys (setEach setCheck checks (setEach setDefault defaults flagged))})
          (return schema)
  else return schema

def readName : Parser String :=
  ifRoom 2 (do
    let len ← word .panicked 2
    ifRoom len (do lift (readText (← take .panicked len))) (fail (failed "Truncated vector derivation value")))
    (fail (failed "Truncated vector derivation name"))

def readDerivation (schema : OnDemandSchema) : Parser OnDemandSchema := do
  let source ← readName
  let target ← readName
  let codecVersion ← ifRoom 2 (word .panicked 2) (fail (failed "Truncated vector codec version"))
  lift (schema.addVectorDerivation source target (UInt16.ofNat codecVersion))

def readDerivations : Nat → OnDemandSchema → Parser OnDemandSchema
  | 0,schema => pure schema
  | count + 1,schema => do
    let next ← readDerivation schema
    readDerivations count next

def parseVectorDerivations (schema : OnDemandSchema) : Parser OnDemandSchema :=
  ifRoom 2 (do readDerivations (← word .panicked 2) schema) (fail (failed "Truncated vector derivation count"))

def readLogicalType : Parser LogicalType :=
  ifRoom 1 (do
    let tag ← word .panicked 1
    match tag with
    | 1 => return .uuid
    | 2 => ifRoom 2 (do
        let precision ← byte
        let scale ← byte
        return .decimal precision scale.toInt8) (fail (failed "Truncated decimal logical type"))
    | 3 =>
      ifRoom 2 (do return .timestampTz (UInt16.ofNat (← word .panicked 2)).toInt16)
        (fail (failed "Truncated timestamptz logical type"))
    | 4 => ifRoom 1 (do
        let raw ← byte
        match fromU8 raw with
        | some element => return .list element
        | none => fail (failed "Unknown list element type tag")) (fail (failed "Truncated list logical type"))
    | 5 => ifRoom 2 (do
        let len ← word .panicked 2
        ifRoom (len + 1) (do
          let codec ← take .panicked len
          let version ← byte
          return .extension (DeltaFile.fromUtf8Lossy codec) version) (fail (failed "Truncated extension logical type")))
            (fail (failed "Truncated extension logical type"))
    | _ => fail (failed "Unknown logical type tag")) (fail (failed "Truncated logical type"))

def readLogicalTypes : Nat → Nat → OnDemandSchema → Parser OnDemandSchema
  | 0,_,schema => pure schema
  | count + 1,index,schema => do
    let present ← ifRoom 1 byte (fail (failed "Truncated logical-type entry"))
    if present = 1 then do
      let logical ← readLogicalType
      readLogicalTypes count (index + 1) (schema.setLogicalType index (some logical))
    else readLogicalTypes count (index + 1) schema

def parseLogicalTypes (schema : OnDemandSchema) : Parser OnDemandSchema :=
  ifRoom 5 (do
    let version ← byte
    if version ≠ 1 then fail (failed "Unsupported logical-type section version")
    else do
      let count ← word .panicked 4
      if count ≠ schema.columns.length then fail (failed "Logical-type section column count mismatch")
      else readLogicalTypes count 0 schema) (fail (failed "Truncated logical-type section"))

def readOptional (count : Nat) (named : OnDemandSchema) : Parser OnDemandSchema := do
  let constrained ← readConstraints count named
  let derived ← marked 0xA7 (parseVectorDerivations constrained) constrained
  marked 0x4C (parseLogicalTypes derived) derived

def readSchema : Parser OnDemandSchema :=
  ifRoom 4 (do
    let count ← word .panicked 4
    let named ← readColumns count .new
    readOptional count named) (fail (failed "Schema too short"))

def OnDemandSchema.fromBytes (bytes : Bytes) : Except Failure OnDemandSchema := (readSchema bytes).map (·.1)

end ApexBase.Storage.Schema
