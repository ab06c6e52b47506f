import ApexBase.Library.Run
import ApexBase.Index.Key

/-! The indexes of a table, `storage/index/index_manager.rs`. The catalog says which indexes there
are; an index is loaded from its file when it is first needed. A stored index reads back as it was
written. -/
namespace ApexBase.Index
open Data Library Library.Assoc

variable (json : JsonCodec)

mutual
def valueEq : Value → Value → Bool
  | .null,.null => true
  | .bool a,.bool b => a == b
  | .int8 a,.int8 b => a == b
  | .int16 a,.int16 b => a == b
  | .int32 a,.int32 b => a == b
  | .int64 a,.int64 b => a == b
  | .uint8 a,.uint8 b => a == b
  | .uint16 a,.uint16 b => a == b
  | .uint32 a,.uint32 b => a == b
  | .uint64 a,.uint64 b => a == b
  | .float32 a,.float32 b => Binary64.eq (Float32.ofBits a).toFloat.toBits (Float32.ofBits b).toFloat.toBits
  | .float64 a,.float64 b => Binary64.eq a b
  | .string a,.string b => a == b
  | .binary a,.binary b => a == b
  | .blob a,.blob b => a == b
  | .fixedList a,.fixedList b => a == b
  | .json a,.json b => json.eq a b
  | .timestamp a,.timestamp b => a == b
  | .date a,.date b => a == b
  | .array a,.array b => valuesEq a b
  | .time a,.time b => a == b
  | .interval a,.interval b => a == b
  | _,_ => false

def valuesEq : List Value → List Value → Bool
  | [],[] => true
  | a :: as,b :: bs => valueEq a b && valuesEq as bs
  | _,_ => false
end

structure IndexMeta where
  columnName : String
  /-- Empty for a single column in catalogs of an older format. -/
  columns : List String
  indexType : IndexType
  unique : Bool
  deriving DecidableEq

def IndexMeta.effectiveColumns (def_ : IndexMeta) : List String := if def_.columns = [] then [def_.columnName]
    else def_.columns

def typedTupleVersion : UInt8 := 1

def compositeKey (columns : List String) (values : Row) : Option IndexKey :=
  match columns with
  | [column] => (values.lookup column).map (IndexKey.fromValue json)
  | columns => (columns.mapM fun column => (values.lookup column).map (Scalar.fromValue json)).map
    (.tuple typedTupleVersion)

/-- `BTreeIndex` and `HashIndex`, which differ in how they tell keys apart. -/
structure IndexInstance where
  indexType : IndexType
  columnName : String
  unique : Bool
  entries : List (IndexKey × List UInt64)
  entryCount : Nat
  dirty : Bool
  deriving DecidableEq

namespace IndexInstance

def withPath (def_ : IndexMeta) : IndexInstance := ⟨def_.indexType,def_.columnName,def_.unique,[],0,false⟩

def get (index : IndexInstance) (key : IndexKey) : List UInt64 := Postings.ids index.indexType.same index.entries key

def duplicateKey (index : IndexInstance) : IoError :=
  match index.indexType with
  | .btree => ⟨.alreadyExists,"Duplicate key in unique index '" ++ index.columnName ++ "'"⟩
  | .hash => ⟨.alreadyExists,"Duplicate key in unique hash index '" ++ index.columnName ++ "'"⟩

def insert (key : IndexKey) (rowId : UInt64) (index : IndexInstance) : Except IoError IndexInstance :=
  if index.unique && index.get key != [] then .error index.duplicateKey
  else .ok {index with
    entries := Postings.push index.indexType.same index.indexType.before index.entries key rowId
    entryCount := index.entryCount + 1
    dirty := true}

def remove (key : IndexKey) (rowId : UInt64) (index : IndexInstance) : IndexInstance :=
  match Postings.remove index.indexType.same index.entries key rowId with
  | (true,entries) => {index with entries,entryCount := index.entryCount - 1,dirty := true}
  | (false,_) => index

def clear (index : IndexInstance) : IndexInstance := {index with entries := [],entryCount := 0,dirty := true}

end IndexInstance

structure IndexFiles where
  catalog : Option (Map String IndexMeta)
  indexes : Map String IndexInstance

structure IndexManager where
  inMemory : Bool
  catalog : Map String IndexMeta
  instances : Map String IndexInstance
  dirty : Bool

namespace IndexManager

def load (inMemory : Bool) (files : IndexFiles) : IndexManager :=
  ⟨inMemory,if inMemory then ∅ else files.catalog.getD ∅,∅,false⟩

/-- The index `ensure_loaded` gives: the instance, or the stored index, or a new one. -/
def ensureLoaded (files : IndexFiles) (manager : IndexManager) (name : String) (def_ : IndexMeta) : IndexInstance :=
  (manager.instances.lookup name).getD ((files.indexes.lookup name).getD (.withPath def_))

def setInstance (manager : IndexManager) (name : String) (index : IndexInstance) : IndexManager :=
  {manager with instances := manager.instances.insert name index}

def allIndexes (manager : IndexManager) : List (String × IndexMeta) :=
  manager.catalog.entries.map fun entry => (entry.1,entry.2)

/-- The indexes on one of the columns that a row has a value for. -/
def seenIndexes (manager : IndexManager) (values : Row) : List (String × IndexMeta) :=
  manager.allIndexes.filter fun entry => entry.2.effectiveColumns.any fun column => (values.lookup column).isSome

/-- The loops over indexes: the first step that fails ends the loop. -/
def forEach (step : String → IndexMeta → IndexManager → Except IoError Unit × IndexManager) :
    List (String × IndexMeta) → IndexManager → Except IoError Unit × IndexManager
  | [],manager => (.ok (),manager)
  | (name,def_) :: rest,manager =>
    match step name def_ manager with
    | (.error error,manager) => (.error error,manager)
    | (.ok (),manager) => forEach step rest manager

/-- Puts a key into an index, which stays as it is if that fails. -/
def store (manager : IndexManager) (name : String) (index : IndexInstance) (key : IndexKey) (rowId : UInt64) :
    Except IoError Unit × IndexManager :=
  match index.insert key rowId with
  | .error error => (.error error,manager.setInstance name index)
  | .ok index => (.ok (),manager.setInstance name index)

/-- The order in which the indexes are visited is that of the catalog. -/
def onInsert (files : IndexFiles) (rowId : UInt64) (values : Row) (manager : IndexManager) :
    Except IoError Unit × IndexManager :=
  forEach (fun name def_ manager =>
    match compositeKey json def_.effectiveColumns values with
    | none => (.ok (),manager)
    | some key => manager.store name (manager.ensureLoaded files name def_) key rowId)
      (manager.seenIndexes values) manager

def onDelete (files : IndexFiles) (rowId : UInt64) (values : Row) (manager : IndexManager) :
    Except IoError Unit × IndexManager :=
  forEach (fun name def_ manager =>
    match compositeKey json def_.effectiveColumns values with
    | none => (.ok (),manager)
    | some key => (.ok (),manager.setInstance name ((manager.ensureLoaded files name def_).remove key rowId)))
      (manager.seenIndexes values) manager

/-- Some indexed column has a value before and after, and the two differ. -/
def changed (columns : List String) (old new : Row) : Bool :=
  columns.any fun column =>
    match old.lookup column,new.lookup column with
    | some before,some after => !valueEq json before after
    | _,_ => false

/-- Unlike the other two it does not load an index. -/
def onUpdate (rowId : UInt64) (old new : Row) (manager : IndexManager) : Except IoError Unit × IndexManager :=
  forEach (fun name def_ manager =>
    if changed json def_.effectiveColumns old new then
      match manager.instances.lookup name with
      | none => (.ok (),manager)
      | some index =>
        let cleared := match compositeKey json def_.effectiveColumns old with
          | some key => index.remove key rowId
          | none => index
        match compositeKey json def_.effectiveColumns new with
        | none => (.ok (),manager.setInstance name cleared)
        | some key => manager.store name cleared key rowId
    else (.ok (),manager)) manager.allIndexes manager

def save (files : IndexFiles) (manager : IndexManager) : IndexFiles × IndexManager :=
  if manager.inMemory then (files,{manager with dirty := false})
  else
    ({catalog := if manager.dirty then some manager.catalog else files.catalog
      indexes := manager.instances.entries.foldl (fun indexes entry =>
        if entry.2.dirty then indexes.insert entry.1 {entry.2 with dirty := false} else indexes) files.indexes},
      {manager with dirty := false,instances := mapValues (fun index => {index with dirty := false}) manager.instances})

def rebuildAll (files : IndexFiles) (manager : IndexManager) : Except IoError Unit × IndexManager :=
  forEach (fun name def_ manager => (.ok (),manager.setInstance name (manager.ensureLoaded files name def_).clear))
    manager.allIndexes manager

end IndexManager

end ApexBase.Index
