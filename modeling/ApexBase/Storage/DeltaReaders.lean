import ApexBase.Storage.DeltaFile
import ApexBase.Library.Run
import Mathlib.Data.List.Dedup

/-! The readers of the `.delta` file (`storage/on_demand/storage_core.rs`). Each walks the format by
hand, and most keep what they found for the next call, to be used again while the file is unchanged
or continued when it has grown. -/
namespace ApexBase.Storage.DeltaFile
open Data Library Library.Assoc Library.Wire Library.Wire.Reader

/-! Counting rows. -/

def scanDeltaRowCount : Nat → Bytes → Nat → Nat
  | 0,_,total => total
  | turns + 1,bytes,total =>
    match skipBatch bytes with
    | .ok (rows,rest) => if total + rows < 2^64 then scanDeltaRowCount turns rest (total + rows) else total
    | .error _ => total

/-! The two scans for values. Positions are below the length of the file, so a length that would
overflow one runs past the end as well. -/

def rowsWhere {V : Type} (keep : V → Bool) (values : List V) (ids : List UInt64) : List UInt64 :=
  ((values.zip ids).filter fun pair => keep pair.1).map (·.2)

def inRange (low high value : Float) : Bool := decide (low ≤ value) && decide (value ≤ high)

def numericShort : IoError := ⟨.unexpectedEof,"delta numeric scan truncated"⟩

def wordColumn (short : IoError) (rows : Nat) : Reader IoError (Bytes × List UInt64) := do
  let nameLen ← word short 2
  let name ← take short nameLen
  let values ← words short 8 rows
  return (name,values.map UInt64.ofNat)

def skippedColumn (short : IoError) (bytes : Nat) : Reader IoError Unit := do
  let nameLen ← word short 2
  let _ ← take short nameLen
  let _ ← take short bytes
  return ()

def skippedText (short : IoError) : Reader IoError Unit := do
  let len ← word short 4
  let _ ← take short len
  return ()

def skippedTexts (short : IoError) (rows : Nat) : Reader IoError Unit := do
  let nameLen ← word short 2
  let _ ← take short nameLen
  let _ ← many (skippedText short) rows
  return ()

def sectionOf {A : Type} (short : IoError) (column : Reader IoError A) : Reader IoError (List A) :=
  word short 4 >>= many column

def columnMatches (target : Bytes) (keep : UInt64 → Bool) (ids : List UInt64) (column : Bytes × List UInt64) :
    List UInt64 :=
  if column.1 = target then rowsWhere keep column.2 ids else []

structure NumericKey where
  column : String
  lowBits : UInt64
  highBits : UInt64
  deriving DecidableEq

def NumericKey.keepsInt (key : NumericKey) (bits : UInt64) : Bool :=
  inRange (Float.ofBits key.lowBits) (Float.ofBits key.highBits) bits.toInt64.toFloat

def NumericKey.keepsFloat (key : NumericKey) (bits : UInt64) : Bool :=
  inRange (Float.ofBits key.lowBits) (Float.ofBits key.highBits) (Float.ofBits bits)

def numericBatch (key : NumericKey) : Reader IoError (List UInt64) := do
  let rows ← word numericShort 8
  let ids ← words numericShort 8 rows
  let ints ← sectionOf numericShort (wordColumn numericShort rows)
  let floats ← sectionOf numericShort (wordColumn numericShort rows)
  let _ ← sectionOf numericShort (skippedTexts numericShort rows)
  let _ ← sectionOf numericShort (skippedColumn numericShort rows)
  let target := utf8 key.column
  return ints.flatMap (columnMatches target key.keepsInt (ids.map UInt64.ofNat)) ++
    floats.flatMap (columnMatches target key.keepsFloat (ids.map UInt64.ofNat))

def scanDeltaNumericRangeBytes (bytes : Bytes) (key : NumericKey) (matched : List UInt64) :
    Except IoError (List UInt64) :=
  (untilEnd (numericBatch key) bytes.length bytes).map fun found => matched ++ found.flatten

def stringShort : IoError := ⟨.unexpectedEof,"delta string scan truncated"⟩

def stringShortCount : IoError := ⟨.unexpectedEof,"delta string scan truncated record count"⟩

def textColumn (rows : Nat) : Reader IoError (String × List String) := do
  let nameLen ← word stringShort 2
  let name ← take stringShort nameLen
  let values ← many (do
    let len ← word stringShort 4
    fromUtf8Lossy <$> take stringShort len) rows
  return (fromUtf8Lossy name,values)

def stringBatch : Reader IoError (List UInt64 × List (String × List String)) := do
  let rows ← word stringShortCount 8
  let ids ← many (UInt64.ofNat <$> word stringShort 8) rows
  let _ ← sectionOf stringShort (skippedColumn stringShort (rows * 8))
  let _ ← sectionOf stringShort (skippedColumn stringShort (rows * 8))
  let strings ← sectionOf stringShort (textColumn rows)
  let _ ← sectionOf stringShort (skippedColumn stringShort rows)
  return (ids,strings)

abbrev StringIndex := String → String → List UInt64

def pushId (index : StringIndex) (column value : String) (id : UInt64) : StringIndex := fun name text =>
  if name = column ∧ text = value then index name text ++ [id] else index name text

def indexColumn (ids : List UInt64) (index : StringIndex) (column : String × List String) : StringIndex :=
  (column.2.zip ids).foldl (fun index pair => pushId index column.1 pair.1 pair.2) index

def indexBatch (index : StringIndex) (batch : List UInt64 × List (String × List String)) : StringIndex :=
  batch.2.foldl (indexColumn batch.1) index

def parseDeltaStringIndex (bytes : Bytes) (index : StringIndex) : Except IoError StringIndex :=
  (untilEnd stringBatch bytes.length bytes).map fun batches => batches.foldl indexBatch index

def TypedBatch.texts (batch : TypedBatch) : List UInt64 × List (String × List String) :=
  (batch.ids,batch.stringColumns.entries.map fun e => (e.1,e.2))

/-! What is kept between calls: for a state of the file, given by its length and its time of
modification. -/

structure Snapshot (V : Type) where
  len : Nat
  modified : Nat
  value : V

inductive Lookup (V : Type)
  | hit (value : V)
  | resume (start : Nat) (value : V)
  | fresh

/-- A file that has only grown is read on from where it ended. -/
def follow {V : Type} (cache : Option (Snapshot V)) (len modified : Nat) : Lookup V :=
  match cache with
  | some entry =>
    if entry.len = len ∧ modified ≤ entry.modified then .hit entry.value
    else if entry.len < len ∧ entry.modified ≤ modified then .resume entry.len entry.value
    else .fresh
  | none => .fresh

structure DeltaState where
  file : Bytes
  modified : Nat
  batchCache : Option (Snapshot (List (Nat × Nat) × Nat))
  rowCountCache : Option (Snapshot Nat)
  stringCache : Option (Snapshot StringIndex)
  numericCache : Map NumericKey (Snapshot (List UInt64))

namespace DeltaState

variable (state : DeltaState)

def len : Nat := state.file.length

/-- Used again only for the same file. -/
def deltaCompleteBatches : List (Nat × Nat) × Nat :=
  match state.batchCache with
  | some entry =>
    if entry.len = state.len ∧ entry.modified = state.modified then entry.value else scanDeltaBatches state.file
  | none => scanDeltaBatches state.file

def deltaRowCount : Nat :=
  match follow state.rowCountCache state.len state.modified with
  | .hit count => count
  | .resume start count => scanDeltaRowCount state.len (state.file.drop start) count
  | .fresh => scanDeltaRowCount state.len state.file 0

/-- The ids before the deleted ones are taken out. -/
def numericIds (key : NumericKey) : Except IoError (List UInt64) :=
  match follow (state.numericCache.lookup key) state.len state.modified with
  | .hit ids => .ok ids
  | .resume start ids => scanDeltaNumericRangeBytes (state.file.drop start) key ids
  | .fresh => scanDeltaNumericRangeBytes state.file key []

def deltaNumericRangeIds (deleted : UInt64 → Bool) (key : NumericKey) : Except IoError (List UInt64) :=
  (state.numericIds key).map fun ids => ids.filter fun id => !deleted id

/-- An index of nothing is built again. -/
def stringIndex : Except IoError StringIndex :=
  match follow state.stringCache state.len state.modified with
  | .hit index => .ok index
  | .resume start index =>
    if 0 < start then parseDeltaStringIndex (state.file.drop start) index
    else parseDeltaStringIndex state.file fun _ _ => []
  | .fresh => parseDeltaStringIndex state.file fun _ _ => []

def deltaStringMatchIds (column target : String) : Except IoError (List UInt64) :=
  state.stringIndex.map fun index => index column target

/-! The readers that go by the complete batches. -/

def readDelta : Except IoError (Option (List UInt64 × Map String ColumnData)) :=
  readCompleteBatches state.deltaCompleteBatches.1 state.file

def batchIds (place : Nat × Nat) : Except IoError (List UInt64) :=
  (many readFloat place.2 (state.file.drop (place.1 + 8))).map (·.1)

def allIds : Except IoError (List UInt64) := (state.deltaCompleteBatches.1.mapM state.batchIds).map List.flatten

def deltaIdSet : Except IoError (List UInt64) := state.allIds.map List.dedup

def getMaxIdFromDelta : Except IoError UInt64 := state.allIds.map fun ids => ids.foldl max 0

def repairTornDeltaTail : DeltaState :=
  let lastEnd := state.deltaCompleteBatches.2
  if lastEnd < state.len then {state with file := state.file.take lastEnd} else state

/-! The caches after a call. -/

def keptBatches : DeltaState :=
  {state with batchCache := some ⟨state.len,state.modified,state.deltaCompleteBatches⟩}

def keptRowCount : DeltaState :=
  match follow state.rowCountCache state.len state.modified with
  | .hit _ => state
  | _ => {state with rowCountCache := some ⟨state.len,state.modified,state.deltaRowCount⟩}

def keptNumeric (key : NumericKey) : DeltaState :=
  match follow (state.numericCache.lookup key) state.len state.modified,state.numericIds key with
  | .hit _,_ => state
  | _,.ok ids => {state with numericCache := state.numericCache.insert key ⟨state.len,state.modified,ids⟩}
  | _,.error _ => state

/-- A failed scan leaves a part of its index behind in the source; it does not fail on complete
batches. -/
def keptStrings : DeltaState :=
  match follow state.stringCache state.len state.modified,state.stringIndex with
  | .hit _,_ => state
  | _,.ok index => {state with stringCache := some ⟨state.len,state.modified,index⟩}
  | _,.error _ => state

/-- What was kept for the file before the rows came is carried on; `before` is the state
of the file then, if there was one. -/
def refreshDeltaInsertCaches (before : Option (Nat × Nat)) (batch : TypedBatch) : DeltaState :=
  let ids := batch.ids.length
  match before with
  | none => {state with
      numericCache := ∅
      rowCountCache := some ⟨state.len,state.modified,ids⟩
      stringCache := some ⟨state.len,state.modified,indexBatch (fun _ _ => []) batch.texts⟩}
  | some (len,modified) => {state with
      rowCountCache := state.rowCountCache.map fun entry =>
        if entry.len = len ∧ modified ≤ entry.modified then ⟨state.len,state.modified,entry.value + ids⟩ else entry
      stringCache := state.stringCache.map fun entry =>
        if entry.len = len ∧ modified ≤ entry.modified then
          ⟨state.len,state.modified,indexBatch entry.value batch.texts⟩
        else entry}

end DeltaState

/-! What the readers have to find in a list of batches. -/

def TypedBatch.stringMatches (column target : String) (batch : TypedBatch) : List UInt64 :=
  ((batch.stringColumns.lookup column).map fun values => rowsWhere (fun value =>
    decide (value = target)) values batch.ids).getD []

def TypedBatch.numericMatches (key : NumericKey) (batch : TypedBatch) : List UInt64 :=
  ((batch.intColumns.lookup key.column).map fun values =>
    rowsWhere (fun value => inRange (Float.ofBits key.lowBits) (Float.ofBits key.highBits) value.toFloat) values
      batch.ids).getD [] ++
  ((batch.floatColumns.lookup key.column).map fun values =>
    rowsWhere (fun bits => inRange (Float.ofBits key.lowBits) (Float.ofBits key.highBits) (Float.ofBits bits)) values
      batch.ids).getD []

def rowTotal (batches : List TypedBatch) : Nat := (batches.map fun batch => batch.ids.length).sum

structure Agree (batches : List TypedBatch) (state : DeltaState) : Prop where
  scan : scanDeltaBatches state.file = (offsets 0 batches,(contents batches).length)
  complete : state.deltaCompleteBatches = (offsets 0 batches,(contents batches).length)
  rowCount : state.deltaRowCount = rowTotal batches
  data : state.readDelta = .ok (if batches = [] then none
    else some (DeltaBatch.readDeltaData (batches.map TypedBatch.delta)))
  idSet : ∃ ids, state.deltaIdSet = .ok ids ∧ ∀ id, id ∈ ids ↔ id ∈ batches.flatMap TypedBatch.ids
  maxId : state.getMaxIdFromDelta = .ok ((batches.flatMap TypedBatch.ids).foldl max 0)
  strings : ∀ column target, state.deltaStringMatchIds column target =
    .ok (batches.flatMap (TypedBatch.stringMatches column target))
  numbers : ∀ deleted key, state.deltaNumericRangeIds deleted key =
    .ok ((batches.flatMap (TypedBatch.numericMatches key)).filter fun id => !deleted id)
  repaired : state.repairTornDeltaTail.file = contents batches

section Batch

variable {batch : TypedBatch} {short : IoError}

private theorem reads_wordColumn {V : Type} {write : V → Bytes} {raw : V → UInt64} {rows : Nat}
    {e : Sigma fun _ : String => List V} (same : ∀ value, write value = leBytes 8 (raw value).toNat)
    (count : e.2.length = rows) (name : (utf8 e.1).length < 256^2) :
    Reads (wordColumn short rows) (columnBytes write e) (utf8 e.1,e.2.map raw) := by
  have bytes : e.2.flatMap write = leWords 8 (e.2.map fun value => (raw value).toNat) := by
    rw [leWords,List.flatMap_map]
    exact congrArg (e.2.flatMap ·) (funext same)
  have values : Reads (words short 8 rows) (e.2.flatMap write) (e.2.map fun value => (raw value).toNat) := by
    have small : ∀ value ∈ e.2.map (fun value => (raw value).toNat), value < 256^8 := by
      intro value member
      obtain ⟨item,_,rfl⟩ := List.mem_map.mp member
      exact (raw item).toNat_lt
    have read : Reads (words short 8 _) _ _ := reads_words small
    rwa [List.length_map,count,← bytes] at read
  have named : Reads (wordColumn short rows) (columnBytes write e) _ :=
    reads_named (fun (name : Bytes) (values : List Nat) => (name,values.map UInt64.ofNat)) name values
  rwa [List.map_map,show UInt64.ofNat ∘ (fun value => (raw value).toNat) = raw from
    funext fun value => UInt64.ofNat_toNat] at named

private theorem reads_skippedColumn {V : Type} {write : V → Bytes} {width bytes : Nat}
    {e : Sigma fun _ : String => List V} (wide : ∀ value, (write value).length = width)
    (size : e.2.length * width = bytes) (name : (utf8 e.1).length < 256^2) :
    Reads (skippedColumn short bytes) (columnBytes write e) () :=
  reads_named (fun _ _ => ()) name (reads_take _ ((length_values e.2 wide).trans size))

section
variable {e : Sigma fun _ : String => List String} {rows : Nat} (count : e.2.length = rows)
    (small : ∀ text ∈ e.2, (utf8 text).length < 2^32)
variable (name : (utf8 e.1).length < 256^2)
include count small name

private theorem reads_skippedTexts :
    Reads (skippedTexts short rows) (columnBytes stringBytes e) () := by
  have texts : Reads (many (skippedText short) rows) (e.2.flatMap stringBytes) (e.2.map fun _ => ()) :=
    reads_values count fun text member => (reads_word (small text member)).bind
      ((reads_take (utf8 text) rfl).last fun _ => ())
  exact reads_named (fun _ _ => ()) name texts

private theorem reads_textColumn :
    Reads (textColumn rows) (columnBytes stringBytes e) (e.1,e.2) := by
  have text (value : String) (member : value ∈ e.2) : Reads (do
      let len ← word stringShort 4
      fromUtf8Lossy <$> take stringShort len) (stringBytes value) (fromUtf8Lossy (utf8 value)) :=
    reads_text fromUtf8Lossy (small value member)
  have texts := reads_values count text
  have named : Reads (textColumn rows) (columnBytes stringBytes e) _ :=
    reads_named (fun name values => (fromUtf8Lossy name,values)) name texts
  simp only [lossy_utf8,List.map_id'] at named
  exact named

end

private theorem rowsWhere_map {V W : Type} (keep : W → Bool) (f : V → W) (values : List V) (ids : List UInt64) :
    rowsWhere keep (values.map f) ids = rowsWhere (fun value => keep (f value)) values ids := by
  unfold rowsWhere
  rw [List.zip_map_left,List.filter_map,List.map_map]
  rfl

private theorem columnMatches_at {V : Type} (columns : Map String (List V)) (target : String) (keep : UInt64 → Bool)
    (raw : V → UInt64)
    (ids : List UInt64) : (columns.entries.map fun e => (utf8 e.1,e.2.map raw)).flatMap
    (columnMatches (utf8 target) keep ids) =
      ((columns.lookup target).map fun values => rowsWhere (fun value => keep (raw value)) values ids).getD [] := by
  rw [← flatMap_at,List.flatMap_map]
  refine congrArg (columns.entries.flatMap ·) (funext fun e => ?_)
  have names : utf8 e.1 = utf8 target ↔ e.1 = target := by
    refine ⟨fun same => ?_,congrArg utf8⟩
    have back := congrArg fromUtf8 same
    rw [fromUtf8_utf8,fromUtf8_utf8] at back
    exact Option.some.inj back
  unfold columnMatches
  simp only [names,rowsWhere_map]

private theorem ids_words (ids : List UInt64) :
    Reads (words short 8 ids.length) (ids.flatMap floatBytes) (ids.map UInt64.toNat) := by
  have small : ∀ value ∈ ids.map UInt64.toNat, value < 256^8 := by
    intro value member
    obtain ⟨id,_,rfl⟩ := List.mem_map.mp member
    exact id.toNat_lt
  have bytes : ids.flatMap floatBytes = leWords 8 (ids.map UInt64.toNat) := by
    rw [leWords,List.flatMap_map]
    rfl
  have read : Reads (words short 8 _) _ _ := reads_words small
  rwa [List.length_map,← bytes] at read

theorem reads_numericBatch (key : NumericKey) (fits : batch.Fits) :
    Reads (numericBatch key) batch.toBytes (batch.numericMatches key) := by
  have ints : Reads (sectionOf numericShort (wordColumn numericShort batch.ids.length))
    (sectionBytes intBytes batch.intColumns) _ :=
    reads_section (fun e => (utf8 e.1,e.2.map Int64.toUInt64)) fits.ints fun e member name =>
      reads_wordColumn (fun _ => rfl) (batch.intsSized e member) name
  have floats : Reads (sectionOf numericShort (wordColumn numericShort batch.ids.length))
    (sectionBytes floatBytes batch.floatColumns) _ :=
    reads_section (fun e => (utf8 e.1,e.2.map id)) fits.floats fun e member name =>
      reads_wordColumn (fun _ => rfl) (batch.floatsSized e member) name
  have strings : Reads (sectionOf numericShort (skippedTexts numericShort batch.ids.length))
      (sectionBytes stringBytes batch.stringColumns) _ :=
    reads_section (fun _ => ()) fits.strings fun e member name =>
      reads_skippedTexts (batch.stringsSized e member) (fits.texts e member) name
  have bools : Reads (sectionOf numericShort (skippedColumn numericShort batch.ids.length))
    (sectionBytes boolBytes batch.boolColumns) _ :=
    reads_section (fun _ => ()) fits.bools fun e member name =>
      reads_skippedColumn (fun _ => (rfl : _ = 1)) ((Nat.mul_one _).trans (batch.boolsSized e member)) name
  have ids : (batch.ids.map UInt64.toNat).map UInt64.ofNat = batch.ids := by
    rw [List.map_map,show UInt64.ofNat ∘ UInt64.toNat = id from funext fun id => UInt64.ofNat_toNat,List.map_id]
  have read : Reads (numericBatch key) batch.toBytes _ :=
    (reads_word fits.rows).bind ((ids_words batch.ids).bind (ints.bind (floats.bind (strings.bind (bools.last _)))))
  rw [ids,columnMatches_at,columnMatches_at] at read
  exact read

theorem reads_stringBatch (fits : batch.Fits) : Reads stringBatch batch.toBytes batch.texts := by
  have id (value : UInt64) : Reads (UInt64.ofNat <$> word stringShort 8) (floatBytes value) value := by
    have read : Reads (UInt64.ofNat <$> word stringShort 8) (floatBytes value) _ :=
      (reads_word value.toNat_lt).map UInt64.ofNat
    rwa [UInt64.ofNat_toNat] at read
  have ids : Reads (many (UInt64.ofNat <$> word stringShort 8) batch.ids.length) (batch.ids.flatMap floatBytes)
    (batch.ids.map fun value => value) :=
    reads_values rfl fun value _ => id value
  have ints : Reads (sectionOf stringShort (skippedColumn stringShort (batch.ids.length * 8)))
    (sectionBytes intBytes batch.intColumns) _ :=
    reads_section (fun _ => ()) fits.ints fun e member name =>
      reads_skippedColumn (fun value => length_leBytes 8 value.toUInt64.toNat) (by rw [batch.intsSized e member]) name
  have floats : Reads (sectionOf stringShort (skippedColumn stringShort (batch.ids.length * 8)))
      (sectionBytes floatBytes batch.floatColumns) _ :=
    reads_section (fun _ => ()) fits.floats fun e member name =>
      reads_skippedColumn (fun bits => length_leBytes 8 bits.toNat) (by rw [batch.floatsSized e member]) name
  have strings : Reads (sectionOf stringShort (textColumn batch.ids.length))
    (sectionBytes stringBytes batch.stringColumns) _ :=
    reads_section (fun e => (e.1,e.2)) fits.strings fun e member name =>
      reads_textColumn (batch.stringsSized e member) (fits.texts e member) name
  have bools : Reads (sectionOf stringShort (skippedColumn stringShort batch.ids.length))
    (sectionBytes boolBytes batch.boolColumns) _ :=
    reads_section (fun _ => ()) fits.bools fun e member name =>
      reads_skippedColumn (fun _ => (rfl : _ = 1)) ((Nat.mul_one _).trans (batch.boolsSized e member)) name
  have read : Reads stringBatch batch.toBytes _ :=
    (reads_word fits.rows).bind (ids.bind (ints.bind (floats.bind (strings.bind (bools.last _)))))
  rw [List.map_id'] at read
  exact read

end Batch

/-! The index of the string columns. -/

private theorem indexColumn_at (ids : List UInt64) (index : StringIndex) (column : String × List String)
    (name target : String) :
    indexColumn ids index column name target =
      index name target ++ if column.1 = name then rowsWhere (fun value => decide (value = target)) column.2 ids
        else [] := by
  unfold indexColumn rowsWhere
  generalize column.2.zip ids = pairs
  induction pairs generalizing index with
  | nil => simp
  | cons pair rest ih =>
    rw [List.foldl_cons,ih,pushId]
    by_cases here : column.1 = name
    · by_cases found : pair.1 = target
      · simp [here,found]
      · simp [here,found,Ne.symm found]
    · simp [here,Ne.symm here]

private theorem indexBatch_at (index : StringIndex) (batch : TypedBatch) (name target : String) :
    indexBatch index batch.texts name target = index name target ++ batch.stringMatches name target := by
  have columns (rest : List (String × List String)) (index : StringIndex) :
      rest.foldl (indexColumn batch.ids) index name target = index name target ++ rest.flatMap fun column =>
        if column.1 = name then rowsWhere (fun value => decide (value = target)) column.2 batch.ids else [] := by
    induction rest generalizing index with
    | nil => simp
    | cons column rest ih => rw [List.foldl_cons,ih,indexColumn_at,List.flatMap_cons,List.append_assoc]
  rw [indexBatch,TypedBatch.texts,columns,TypedBatch.stringMatches,← flatMap_at,List.flatMap_map]

private theorem indexBatches_at (index : StringIndex) (batches : List TypedBatch) (name target : String) :
    (batches.map TypedBatch.texts).foldl indexBatch index name target =
      index name target ++ batches.flatMap (TypedBatch.stringMatches name target) := by
  induction batches generalizing index with
  | nil => simp
  | cons batch rest ih => rw [List.map_cons,List.foldl_cons,ih,indexBatch_at,List.flatMap_cons,List.append_assoc]

section Scans

variable {batches : List TypedBatch} {part : Bytes}

private theorem scanDeltaRowCount_contents (fits : ∀ batch ∈ batches, batch.Fits) (torn : Torn part) (turns total : Nat)
    (enough : (contents batches ++ part).length ≤ turns) (small : total + rowTotal batches < 2^64) :
    scanDeltaRowCount turns (contents batches ++ part) total = total + rowTotal batches := by
  induction batches generalizing turns total with
  | nil =>
    obtain ⟨batch,batchFits,inside,other⟩ := torn
    obtain ⟨error,failed⟩ := (reads_skipBatch batchFits).torn part inside other
    change scanDeltaRowCount turns part total = total + 0
    cases turns with
    | zero => rfl
    | succ turns => rw [scanDeltaRowCount,failed]; rfl
  | cons batch rest ih =>
    obtain ⟨first,others⟩ := List.forall_mem_cons.mp fits
    have long := toBytes_pos batch
    have sum : rowTotal (batch :: rest) = batch.ids.length + rowTotal rest := by
      rw [rowTotal,List.map_cons,List.sum_cons]
      rfl
    have shape : contents (batch :: rest) ++ part = batch.toBytes ++ (contents rest ++ part) := by
      rw [contents,List.flatMap_cons,List.append_assoc]
      rfl
    rw [shape,List.length_append] at enough
    rw [shape,sum]
    rw [sum] at small
    obtain ⟨turns,rfl⟩ : ∃ fewer, turns = fewer + 1 := ⟨turns - 1,by omega⟩
    rw [scanDeltaRowCount,(reads_skipBatch first).complete]
    simp only
    rw [if_pos (by omega),ih others turns (total + batch.ids.length) (by omega) (by omega)]
    omega

private theorem toBytes_ne (batch : TypedBatch) : batch.toBytes ≠ [] := by
  intro same
  have long := toBytes_pos batch
  rw [same] at long
  exact absurd long (by decide)

private theorem scanNumeric_contents (key : NumericKey) (fits : ∀ batch ∈ batches, batch.Fits) (torn : Torn part)
    (matched : List UInt64) :
    (part = [] → scanDeltaNumericRangeBytes (contents batches ++ part) key matched =
      .ok (matched ++ batches.flatMap (TypedBatch.numericMatches key))) ∧
    (part ≠ [] → ∃ error, scanDeltaNumericRangeBytes (contents batches ++ part) key matched = .error error) := by
  obtain ⟨whole,cut⟩ := untilEnd_reads part
    (fun batch member => ⟨reads_numericBatch key (fits batch member),toBytes_ne batch⟩) le_rfl
  refine ⟨fun none => ?_,fun some => ?_⟩
  · rw [scanDeltaNumericRangeBytes,contents,whole none,List.flatMap_def]
    rfl
  · obtain ⟨batch,batchFits,inside,other⟩ := torn
    obtain ⟨error,failed⟩ := cut some ((reads_numericBatch key batchFits).torn part inside other)
    exact ⟨error,by rw [scanDeltaNumericRangeBytes,contents,failed]; rfl⟩

private theorem parseStrings_contents (fits : ∀ batch ∈ batches, batch.Fits) (torn : Torn part) (index : StringIndex) :
    (part = [] → parseDeltaStringIndex (contents batches ++ part) index =
      .ok fun column target => index column target ++ batches.flatMap (TypedBatch.stringMatches column target)) ∧
    (part ≠ [] → ∃ error, parseDeltaStringIndex (contents batches ++ part) index = .error error) := by
  obtain ⟨whole,cut⟩ := untilEnd_reads part
    (fun batch member => ⟨reads_stringBatch (fits batch member),toBytes_ne batch⟩) le_rfl
  refine ⟨fun none => ?_,fun some => ?_⟩
  · rw [parseDeltaStringIndex,contents,whole none]
    exact congrArg Except.ok (funext fun column => funext fun target => indexBatches_at index batches column target)
  · obtain ⟨batch,batchFits,inside,other⟩ := torn
    obtain ⟨error,failed⟩ := cut some ((reads_stringBatch batchFits).torn part inside other)
    exact ⟨error,by rw [parseDeltaStringIndex,contents,failed]; rfl⟩

end Scans

/-! A cached value is that of the batches the file began with when it was taken. -/

def Taken {V : Type} (batches : List TypedBatch) (value : List TypedBatch → V) (cache : Option (Snapshot V)) : Prop :=
  ∀ entry, cache = some entry → ∃ before after, batches = before ++ after ∧ entry.len = (contents before).length ∧
    entry.value = value before

section
variable {V : Type} {batches : List TypedBatch} {value : List TypedBatch → V}

private theorem Taken.append {cache : Option (Snapshot V)} (taken : Taken batches value cache)
    (more : List TypedBatch) : Taken (batches ++ more) value cache := by
  intro entry found
  obtain ⟨before,after,rfl,len,same⟩ := taken entry found
  exact ⟨before,after ++ more,List.append_assoc _ _ _,len,same⟩

private theorem taken_now {len modified : Nat} {current : V} (length : len = (contents batches).length)
    (same : current = value batches) :
    Taken batches value (some ⟨len,modified,current⟩) := by
  intro entry found
  cases found
  exact ⟨batches,[],(List.append_nil _).symm,length,same⟩

end

theorem contents_append (first second : List TypedBatch) :
    contents (first ++ second) = contents first ++ contents second :=
  List.flatMap_append

theorem contents_length_zero {batches : List TypedBatch} (none : (contents batches).length = 0) : batches = [] := by
  cases batches with
  | nil => rfl
  | cons batch rest =>
    have long := toBytes_pos batch
    rw [contents,List.flatMap_cons,List.length_append] at none
    omega

/-- A cache of the whole file is carried on to the batch behind it. -/
private theorem carry_taken {V : Type} {batches : List TypedBatch} {value : List TypedBatch → V}
    {cache : Option (Snapshot V)} {batch : TypedBatch} (taken : Taken batches value cache) (grow : V → V)
    (grows : grow (value batches) = value (batches ++ [batch])) (since modified : Nat) :
    Taken (batches ++ [batch]) value (cache.map fun entry =>
      if entry.len = (contents batches).length ∧ since ≤ entry.modified then
        ⟨(contents (batches ++ [batch])).length,modified,grow entry.value⟩ else entry) := by
  intro entry found
  obtain ⟨old,there,rfl⟩ := Option.map_eq_some_iff.mp found
  split
  · rename_i whole
    obtain ⟨before,after,split,len,same⟩ := taken old there
    have lengths := whole.1
    rw [len,split,contents_append,List.length_append] at lengths
    have rest : after = [] := contents_length_zero (by omega)
    rw [rest,List.append_nil] at split
    refine ⟨batches ++ [batch],[],(List.append_nil _).symm,rfl,?_⟩
    rw [← grows,split,← same]
  · exact taken.append [batch] old there

private theorem follow_taken {V : Type} {batches : List TypedBatch} {value : List TypedBatch → V}
    {cache : Option (Snapshot V)} (taken : Taken batches value cache) (part : Bytes) (modified : Nat) :
    (part = [] ∧ follow cache (contents batches ++ part).length modified = .hit (value batches)) ∨
    (∃ before after, batches = before ++ after ∧
      follow cache (contents batches ++ part).length modified = .resume (contents before).length (value before)) ∨
    follow cache (contents batches ++ part).length modified = .fresh := by
  cases cache with
  | none => exact Or.inr (Or.inr rfl)
  | some entry =>
    obtain ⟨before,after,rfl,len,same⟩ := taken entry rfl
    unfold follow
    simp only
    split
    · rename_i hit
      have lengths := hit.1
      rw [len,contents_append,List.length_append,List.length_append] at lengths
      have rest : after = [] := contents_length_zero (by omega)
      have empty : part = [] := List.eq_nil_of_length_eq_zero (by omega)
      subst rest
      rw [List.append_nil,same]
      exact Or.inl ⟨empty,rfl⟩
    · split
      · rw [len,same]
        exact Or.inr (Or.inl ⟨before,after,rfl,rfl⟩)
      · exact Or.inr (Or.inr rfl)

/-- The caches of a process that has read a file of complete batches only. -/
structure Derived (batches : List TypedBatch) (state : DeltaState) : Prop where
  file : state.file = contents batches
  fits : ∀ batch ∈ batches, batch.Fits
  rows : ∀ batch ∈ batches, batch.ids ≠ []
  small : (contents batches).length < 2^64
  complete : Taken batches (fun before => (offsets 0 before,(contents before).length)) state.batchCache
  count : Taken batches rowTotal state.rowCountCache
  strings : Taken batches (fun before column target => before.flatMap (TypedBatch.stringMatches column target))
    state.stringCache
  numbers : ∀ key, Taken batches (fun before => before.flatMap (TypedBatch.numericMatches key))
    (state.numericCache.lookup key)

/-- The state after an append of which `part` reached the file. -/
def DeltaState.after (state : DeltaState) (part : Bytes) (modified : Nat) : DeltaState :=
  {state with file := state.file ++ part,modified := modified}

section Readers

variable {batches : List TypedBatch} {state : DeltaState} {part : Bytes}

private theorem rowTotal_le (batches : List TypedBatch) : rowTotal batches ≤ (contents batches).length := by
  induction batches with
  | nil => exact Nat.zero_le _
  | cons batch rest ih =>
    have ids : (batch.ids.flatMap floatBytes).length = batch.ids.length * 8 :=
      length_values batch.ids (fun id => length_leBytes 8 id.toNat)
    have first : batch.ids.length ≤ batch.toBytes.length := by
      rw [TypedBatch.toBytes,List.length_append,List.length_append,ids]
      omega
    rw [rowTotal] at ih
    rw [rowTotal,List.map_cons,List.sum_cons,contents,List.flatMap_cons,List.length_append]
    rw [contents] at ih
    omega

private theorem drop_contents (before after : List TypedBatch) (part : Bytes) :
    (contents (before ++ after) ++ part).drop (contents before).length = contents after ++ part := by
  rw [contents_append,List.append_assoc,List.drop_left]

section
variable (derived : Derived batches state) (torn : Torn part) (modified : Nat)
include derived torn

private theorem completeBatches_eq :
    (state.after part modified).deltaCompleteBatches = (offsets 0 batches,(contents batches).length) := by
  have scanned := scanDeltaBatches_contents derived.fits torn
  have file : (state.after part modified).file = contents batches ++ part := congrArg (· ++ part) derived.file
  unfold DeltaState.deltaCompleteBatches
  rw [file]
  cases found : (state.after part modified).batchCache with
  | none => exact scanned
  | some entry =>
    simp only
    split
    · rename_i same
      obtain ⟨before,after,split,len,value⟩ := derived.complete entry found
      have lengths := same.1
      rw [len,DeltaState.len,file,split,contents_append,List.length_append,List.length_append] at lengths
      have rest : after = [] := contents_length_zero (by omega)
      subst rest
      rw [List.append_nil] at split
      rw [value,split]
    · exact scanned

private theorem rowCount_eq :
    (state.after part modified).deltaRowCount = rowTotal batches := by
  have file : (state.after part modified).file = contents batches ++ part := congrArg (· ++ part) derived.file
  have small := rowTotal_le batches
  have bound := derived.small
  unfold DeltaState.deltaRowCount DeltaState.len
  rw [file]
  rcases follow_taken derived.count part modified with ⟨_,hit⟩ | ⟨before,after,split,resume⟩ | fresh
  · rw [show follow (state.after part modified).rowCountCache _ (state.after part modified).modified = _ from hit]
  · have sum : rowTotal batches = rowTotal before + rowTotal after := by
      rw [split,rowTotal,List.map_append,List.sum_append]
      rfl
    rw [show follow (state.after part modified).rowCountCache _ (state.after part modified).modified = _ from resume]
    subst split
    simp only [drop_contents]
    rw [scanDeltaRowCount_contents (fun batch member => derived.fits batch (List.mem_append_right _ member)) torn _ _ ?_
      (by omega),sum]
    simp only [contents_append,List.length_append]
    omega
  · rw [show follow (state.after part modified).rowCountCache _ (state.after part modified).modified = _ from fresh]
    simp only
    rw [scanDeltaRowCount_contents derived.fits torn _ 0 le_rfl (by omega),Nat.zero_add]

private theorem numericIds_eq (key : NumericKey) :
    (part = [] → (state.after part modified).numericIds key = .ok (batches.flatMap (TypedBatch.numericMatches key))) ∧
    (part ≠ [] → ∃ error, (state.after part modified).numericIds key = .error error) := by
  have file : (state.after part modified).file = contents batches ++ part := congrArg (· ++ part) derived.file
  unfold DeltaState.numericIds DeltaState.len
  rw [file]
  rcases follow_taken (derived.numbers key) part modified with ⟨empty,hit⟩ | ⟨before,after,split,resume⟩ | fresh
  · rw [show follow ((state.after part modified).numericCache.lookup key) _ (state.after part modified).modified =
      _ from hit]
    exact ⟨fun _ => rfl,fun some => absurd empty some⟩
  · rw [show follow ((state.after part modified).numericCache.lookup key) _ (state.after part modified).modified =
      _ from resume]
    subst split
    simp only [drop_contents,List.flatMap_append]
    exact scanNumeric_contents key (fun batch member => derived.fits batch (List.mem_append_right _ member)) torn _
  · rw [show follow ((state.after part modified).numericCache.lookup key) _ (state.after part modified).modified =
      _ from fresh]
    exact scanNumeric_contents key derived.fits torn []

private theorem stringIndex_eq :
    (part = [] → (state.after part modified).stringIndex =
      .ok fun column target => batches.flatMap (TypedBatch.stringMatches column target)) ∧
    (part ≠ [] → ∃ error, (state.after part modified).stringIndex = .error error) := by
  have file : (state.after part modified).file = contents batches ++ part := congrArg (· ++ part) derived.file
  have whole := parseStrings_contents derived.fits torn fun _ _ => []
  unfold DeltaState.stringIndex DeltaState.len
  rw [file]
  rcases follow_taken derived.strings part modified with ⟨empty,hit⟩ | ⟨before,after,split,resume⟩ | fresh
  · rw [show follow (state.after part modified).stringCache _ (state.after part modified).modified = _ from hit]
    exact ⟨fun _ => rfl,fun some => absurd empty some⟩
  · rw [show follow (state.after part modified).stringCache _ (state.after part modified).modified = _ from resume]
    simp only
    by_cases start : 0 < (contents before).length
    · simp only [if_pos start]
      subst split
      simp only [drop_contents,List.flatMap_append]
      exact parseStrings_contents (fun batch member => derived.fits batch (List.mem_append_right _ member)) torn _
    · simp only [if_neg start]
      exact whole
  · rw [show follow (state.after part modified).stringCache _ (state.after part modified).modified = _ from fresh]
    exact whole

end

theorem batchIds_at {batch : TypedBatch} {place : Nat} {rest : Bytes}
    (there : state.file.drop place = batch.toBytes ++ rest) :
    state.batchIds (place,batch.ids.length) = .ok batch.ids := by
  have ids : Reads (many readFloat batch.ids.length) (batch.ids.flatMap floatBytes) (batch.ids.map fun id => id) :=
    reads_values rfl fun id _ => reads_float id
  have behind : state.file.drop (place + 8) = batch.ids.flatMap floatBytes ++
      ((sectionBytes intBytes batch.intColumns ++ (sectionBytes floatBytes batch.floatColumns ++
        (sectionBytes stringBytes batch.stringColumns ++ sectionBytes boolBytes batch.boolColumns))) ++ rest) := by
    rw [← List.drop_drop,there,TypedBatch.toBytes,List.append_assoc,List.drop_left' (length_leBytes 8 _),
      List.append_assoc]
  unfold DeltaState.batchIds
  rw [behind,ids.complete,List.map_id']
  rfl

section
variable (derived : Derived batches state) (torn : Torn part) (modified : Nat)
include derived torn

theorem allIds_eq :
    (state.after part modified).allIds = .ok (batches.flatMap TypedBatch.ids) := by
  have file : (state.after part modified).file = contents batches ++ part := congrArg (· ++ part) derived.file
  have read := mapM_offsets (state.after part modified).batchIds TypedBatch.ids (contents batches ++ part) 0 rfl
    fun batch _ place rest there => batchIds_at (file.symm ▸ there)
  rw [DeltaState.allIds,completeBatches_eq derived torn modified,read,List.flatMap_def]
  rfl

private theorem repaired_eq :
    (state.after part modified).repairTornDeltaTail.file = contents batches := by
  have file : (state.after part modified).file = contents batches ++ part := congrArg (· ++ part) derived.file
  rw [DeltaState.repairTornDeltaTail,completeBatches_eq derived torn modified]
  simp only
  split
  · rw [file,List.take_left]
  · rename_i whole
    rw [DeltaState.len,file,List.length_append] at whole
    have none : part = [] := List.eq_nil_of_length_eq_zero (by omega)
    rw [file,none,List.append_nil]

/-- The readers agree on a file exactly when nothing is left of another batch. -/
private theorem agree_iff :
    Agree batches (state.after part modified) ↔ part = [] := by
  have file : (state.after part modified).file = contents batches ++ part := congrArg (· ++ part) derived.file
  have complete := completeBatches_eq derived torn modified
  constructor
  · intro agree
    by_contra some
    obtain ⟨error,failed⟩ := (stringIndex_eq derived torn modified).2 some
    have found := agree.strings "" ""
    rw [DeltaState.deltaStringMatchIds,failed] at found
    cases found
  · intro none
    have ids := allIds_eq derived torn modified
    refine ⟨?_,complete,rowCount_eq derived torn modified,?_,?_,?_,?_,?_,?_⟩
    · rw [file]
      exact scanDeltaBatches_contents derived.fits torn
    · rw [DeltaState.readDelta,complete,file]
      exact readCompleteBatches_contents derived.fits part derived.rows
    · refine ⟨_,by rw [DeltaState.deltaIdSet,ids]; rfl,fun id => List.mem_dedup⟩
    · rw [DeltaState.getMaxIdFromDelta,ids]
      rfl
    · intro column target
      rw [DeltaState.deltaStringMatchIds,(stringIndex_eq derived torn modified).1 none]
      rfl
    · intro deleted key
      rw [DeltaState.deltaNumericRangeIds,(numericIds_eq derived torn modified key).1 none]
      rfl
    · exact repaired_eq derived torn modified

end

end Readers

/-! The file over time: appends and removals, by whichever process, the readers of one
process with their caches, and crashes in the middle of an append. -/

instance {V : Type} (columns : Map String (List V)) : Decidable (NamesFit columns) :=
  inferInstanceAs (Decidable (_ ∧ _))

instance (batch : TypedBatch) : Decidable batch.Fits :=
  decidable_of_iff (batch.ids.length < 2^64 ∧ NamesFit batch.intColumns ∧ NamesFit batch.floatColumns ∧
      NamesFit batch.stringColumns ∧ NamesFit batch.boolColumns ∧
      ∀ e ∈ batch.stringColumns.entries, ∀ text ∈ e.2, (utf8 text).length < 2^32)
    ⟨fun ⟨rows,ints,floats,strings,bools,texts⟩ => ⟨rows,ints,floats,strings,bools,texts⟩,
      fun fits => ⟨fits.rows,fits.ints,fits.floats,fits.strings,fits.bools,fits.texts⟩⟩

/-- The caches go by the path of the file. A streaming compaction empties them as it
removes the file, any other rewrite of the base only that of the ranges; `DROP TABLE`
and another process leave them all. -/
inductive Removal
  | compaction
  | rewrite
  | dropTable

/-- The caches are emptied when they hold too many tables or ranges. -/
inductive Request
  | append (batch : TypedBatch) (modified : Nat)
  | insert (batch : TypedBatch) (modified : Nat)
  | remove (removal : Removal) (modified : Nat)
  | crash (batch : TypedBatch) (reached modified : Nat)
  | completeBatches
  | rowCount
  | numericRange (key : NumericKey)
  | stringMatch
  | dropBatches
  | dropRowCount
  | dropNumeric
  | dropStrings

structure DeltaLog where
  appended : List TypedBatch
  state : DeltaState
  fileExists : Bool

namespace DeltaState

def closed (file : Bytes) (modified : Nat) : DeltaState := ⟨file,modified,none,none,none,∅⟩

def removed (state : DeltaState) (modified : Nat) : Removal → DeltaState
  | .compaction => closed [] modified
  | .rewrite => {state with file := [],modified := modified,numericCache := ∅}
  | .dropTable => {state with file := [],modified := modified}

/-- The removal leaves nothing in the caches. -/
def forgotten (state : DeltaState) : Removal → Bool
  | .compaction => true
  | .rewrite => state.batchCache.isNone && state.rowCountCache.isNone && state.stringCache.isNone
  | .dropTable =>
    state.batchCache.isNone && state.rowCountCache.isNone && state.stringCache.isNone &&
      state.numericCache.entries.isEmpty

end DeltaState

namespace DeltaLog

def empty : DeltaLog := ⟨[],.closed [] 0,false⟩

def appendTyped (log : DeltaLog) (batch : TypedBatch) (modified : Nat) : DeltaLog :=
  if batch.ids.isEmpty then log else ⟨log.appended ++ [batch],log.state.after batch.toBytes modified,true⟩

def insertRows (log : DeltaLog) (batch : TypedBatch) (modified : Nat) : DeltaLog :=
  if batch.ids.isEmpty then log
  else
    let next := log.appendTyped batch modified
    let before := if log.fileExists then some (log.state.len,log.state.modified) else none
    ⟨next.appended,next.state.refreshDeltaInsertCaches before batch,next.fileExists⟩

def withState (log : DeltaLog) (state : DeltaState) : DeltaLog := {log with state := state}

/-- The process ends with a part of the batch written; the next one repairs the file as it opens the
table for writing. -/
def reopen (log : DeltaLog) (batch : TypedBatch) (reached modified : Nat) : DeltaLog :=
  ⟨log.appended,(DeltaState.closed (log.state.file ++ batch.toBytes.take reached) modified).repairTornDeltaTail,true⟩

/-- A reader that finds no file empties its own cache; asking for the batches fails. -/
def exec (log : DeltaLog) (request : Request) : Option (Request × DeltaLog) :=
  some (request,match request with
    | .append batch modified => log.appendTyped batch modified
    | .insert batch modified => log.insertRows batch modified
    | .remove removal modified => ⟨[],log.state.removed modified removal,false⟩
    | .crash batch reached modified => log.reopen batch reached modified
    | .completeBatches => if log.fileExists then log.withState log.state.keptBatches else log
    | .rowCount => log.withState (if log.fileExists then log.state.keptRowCount
      else {log.state with rowCountCache := none})
    | .numericRange key =>
      log.withState (if log.fileExists then log.state.keptNumeric key else {log.state with numericCache := ∅})
    | .stringMatch => log.withState (if log.fileExists then log.state.keptStrings
      else {log.state with stringCache := none})
    | .dropBatches => log.withState {log.state with batchCache := none}
    | .dropRowCount => log.withState {log.state with rowCountCache := none}
    | .dropNumeric => log.withState {log.state with numericCache := ∅}
    | .dropStrings => log.withState {log.state with stringCache := none})

/-- What is written fits the format, and the file its 64-bit positions. A part of a
batch is on the file at no other time than between a crash and the repair. No cache
outlives the file. -/
def fitting (log : DeltaLog) : Request → Bool
  | .append batch _ | .insert batch _ => decide batch.Fits && decide ((log.state.file ++ batch.toBytes).length < 2^64)
  | .remove removal _ => log.state.forgotten removal
  | .crash batch reached _ => decide batch.Fits && decide (reached < batch.toBytes.length)
  | _ => true

end DeltaLog

section Runs

variable {batches : List TypedBatch} {state : DeltaState}

private theorem after_nothing (state : DeltaState) : state.after [] state.modified = state := by
  rw [DeltaState.after,List.append_nil]

private theorem taken_none {V : Type} {value : List TypedBatch → V} : Taken batches value none := nofun

private theorem derived_closed {log : DeltaLog} (derived : Derived log.appended log.state) (modified : Nat) :
    Derived log.appended (.closed (contents log.appended) modified) :=
  ⟨rfl,derived.fits,derived.rows,derived.small,taken_none,taken_none,taken_none,fun _ => taken_none⟩

section
variable {log : DeltaLog} {batch : TypedBatch} (derived : Derived log.appended log.state) (fits : batch.Fits)
include derived fits

private theorem appendTyped_derived (small : (log.state.file ++ batch.toBytes).length < 2^64) (modified : Nat) :
    Derived (log.appendTyped batch modified).appended (log.appendTyped batch modified).state := by
  unfold DeltaLog.appendTyped
  split
  · exact derived
  · rename_i some
    have file : log.state.file ++ batch.toBytes = contents (log.appended ++ [batch]) := by
      rw [derived.file,contents_append,contents,contents,List.flatMap_singleton]
    constructor
    case file => exact file
    case fits =>
      intro other member
      rcases List.mem_append.mp member with old | new
      · exact derived.fits other old
      · rw [List.mem_singleton.mp new]
        exact fits
    case rows =>
      intro other member
      rcases List.mem_append.mp member with old | new
      · exact derived.rows other old
      · rw [List.mem_singleton.mp new]
        simpa using some
    case small => rw [← file]; exact small
    case complete => exact derived.complete.append [batch]
    case count => exact derived.count.append [batch]
    case strings => exact derived.strings.append [batch]
    case numbers => exact fun key => (derived.numbers key).append [batch]

private theorem insertRows_derived (missing : log.fileExists = false → log.appended = [])
    (small : (log.state.file ++ batch.toBytes).length < 2^64) (modified : Nat) :
    Derived (log.insertRows batch modified).appended (log.insertRows batch modified).state := by
  have next := appendTyped_derived derived fits small modified
  by_cases none_ : batch.ids.isEmpty
  · rw [DeltaLog.insertRows,if_pos none_]
    exact derived
  · have appended : log.appendTyped batch modified = ⟨log.appended ++ [batch],log.state.after batch.toBytes modified,
      true⟩ := if_neg none_
    rw [DeltaLog.insertRows,if_neg none_,appended]
    rw [appended] at next
    have length : (log.state.after batch.toBytes modified).len = (contents (log.appended ++ [batch])).length :=
      congrArg List.length next.file
    have rows (batches : List TypedBatch) : rowTotal batches + batch.ids.length = rowTotal (batches ++ [batch]) := by
      rw [rowTotal,rowTotal,List.map_append,List.sum_append,List.map_singleton,List.sum_singleton]
    have texts (batches : List TypedBatch) : indexBatch (fun column target =>
      batches.flatMap (TypedBatch.stringMatches column target)) batch.texts =
        fun column target => (batches ++ [batch]).flatMap (TypedBatch.stringMatches column target) := by
      funext column target
      rw [indexBatch_at,List.flatMap_append,List.flatMap_singleton]
    cases there : log.fileExists with
    | false =>
      have nothing := missing there
      rw [nothing] at next length ⊢
      exact {next with
        count := taken_now length (by rw [← rows []]; exact (Nat.zero_add _).symm)
        strings := taken_now length (texts [])
        numbers := fun _ => taken_none}
    | true =>
      have before : log.state.len = (contents log.appended).length := congrArg List.length derived.file
      refine {next with count := ?_,strings := ?_}
      · have carried := carry_taken derived.count (· + batch.ids.length) (rows _) log.state.modified modified
        rw [← before,← length] at carried
        exact carried
      · have carried := carry_taken derived.strings (indexBatch · batch.texts) (texts _) log.state.modified modified
        rw [← before,← length] at carried
        exact carried

private theorem reopen_derived {reached : Nat} (short : reached < batch.toBytes.length) (modified : Nat) :
    Derived (log.reopen batch reached modified).appended (log.reopen batch reached modified).state := by
  have torn : Torn (batch.toBytes.take reached) := by
    refine ⟨batch,fits,List.take_prefix _ _,fun whole => ?_⟩
    have length := congrArg List.length whole
    rw [List.length_take] at length
    omega
  have repaired := repaired_eq (derived_closed derived modified) torn modified
  have before : (DeltaState.closed (contents log.appended) modified).after (batch.toBytes.take reached) modified =
      .closed (log.state.file ++ batch.toBytes.take reached) modified := by
    rw [derived.file]
    rfl
  rw [before] at repaired
  have closed : (log.reopen batch reached modified).state = .closed (contents log.appended) modified := by
    rw [← repaired,DeltaLog.reopen,DeltaState.repairTornDeltaTail]
    simp only
    split <;> rfl
  rw [closed]
  exact derived_closed derived modified

end

private theorem Derived.setNumeric (derived : Derived batches state) {key : NumericKey} {entry : Snapshot (List UInt64)}
    (taken : Taken batches (fun before => before.flatMap (TypedBatch.numericMatches key)) (some entry)) :
    Derived batches {state with numericCache := state.numericCache.insert key entry} := by
  refine {derived with numbers := fun other => ?_}
  by_cases same : other = key
  · subst same
    simp only [AList.lookup_insert]
    exact taken
  · simp only [AList.lookup_insert_ne same]
    exact derived.numbers other

private theorem Derived.noNumeric (derived : Derived batches state) : Derived batches {state with numericCache := ∅} :=
  {derived with numbers := fun _ => taken_none}

private theorem removed_derived {removal : Removal} (forgotten : state.forgotten removal = true) (modified : Nat) :
    Derived [] (state.removed modified removal) := by
  have small : (contents []).length < 2^64 := by decide
  have fits : ∀ batch ∈ ([] : List TypedBatch), batch.Fits := List.forall_mem_nil _
  have rows : ∀ batch ∈ ([] : List TypedBatch), batch.ids ≠ [] := List.forall_mem_nil _
  cases removal with
  | compaction => exact ⟨rfl,fits,rows,small,taken_none,taken_none,taken_none,fun _ => taken_none⟩
  | rewrite =>
    simp only [DeltaState.forgotten,Bool.and_eq_true,Option.isNone_iff_eq_none] at forgotten
    obtain ⟨⟨batch,count⟩,strings⟩ := forgotten
    exact ⟨rfl,fits,rows,small,batch ▸ taken_none,count ▸ taken_none,strings ▸ taken_none,fun _ => taken_none⟩
  | dropTable =>
    simp only [DeltaState.forgotten,Bool.and_eq_true,Option.isNone_iff_eq_none,List.isEmpty_iff] at forgotten
    obtain ⟨⟨⟨batch,count⟩,strings⟩,numbers⟩ := forgotten
    have none_ : state.numericCache = ∅ := AList.ext numbers
    exact ⟨rfl,fits,rows,small,batch ▸ taken_none,count ▸ taken_none,strings ▸ taken_none,
      fun _ => show Taken [] _ (state.numericCache.lookup _) from none_ ▸ taken_none⟩

private theorem kept_derived (derived : Derived batches state) :
    Derived batches state.keptBatches ∧ Derived batches state.keptRowCount ∧
    (∀ key, Derived batches (state.keptNumeric key)) ∧ Derived batches state.keptStrings := by
  have len : state.len = (contents batches).length := congrArg List.length derived.file
  have now := after_nothing state
  refine ⟨?_,?_,?_,?_⟩
  · have complete := completeBatches_eq derived torn_nil state.modified
    rw [now] at complete
    exact {derived with complete := taken_now len complete}
  · have count := rowCount_eq derived torn_nil state.modified
    rw [now] at count
    unfold DeltaState.keptRowCount
    split
    · exact derived
    · exact {derived with count := taken_now len count}
  · intro key
    have numbers := (numericIds_eq derived torn_nil state.modified key).1 rfl
    rw [now] at numbers
    unfold DeltaState.keptNumeric
    split
    · exact derived
    · rename_i ids found _
      rw [numbers] at found
      exact derived.setNumeric (taken_now len (Except.ok.inj found).symm)
    · exact derived
  · have strings := (stringIndex_eq derived torn_nil state.modified).1 rfl
    rw [now] at strings
    unfold DeltaState.keptStrings
    split
    · exact derived
    · rename_i index found _
      rw [strings] at found
      exact {derived with strings := taken_now len (Except.ok.inj found).symm}
    · exact derived

private theorem exec_derived {log next : DeltaLog} {request event : Request} (derived : Derived log.appended log.state)
    (missing : log.fileExists = false → log.appended = []) (permitted : log.fitting request = true)
    (stepped : log.exec request = some (event,next)) : Derived next.appended next.state := by
  obtain ⟨complete,count,numbers,strings⟩ := kept_derived derived
  cases request with
  | append batch modified =>
    cases stepped
    obtain ⟨fits,small⟩ := Bool.and_eq_true_iff.mp permitted
    exact appendTyped_derived derived (of_decide_eq_true fits) (of_decide_eq_true small) modified
  | insert batch modified =>
    cases stepped
    obtain ⟨fits,small⟩ := Bool.and_eq_true_iff.mp permitted
    exact insertRows_derived derived (of_decide_eq_true fits) missing (of_decide_eq_true small) modified
  | remove removal modified =>
    cases stepped
    exact removed_derived permitted modified
  | crash batch reached modified =>
    cases stepped
    obtain ⟨fits,short⟩ := Bool.and_eq_true_iff.mp permitted
    exact reopen_derived derived (of_decide_eq_true fits) (of_decide_eq_true short) modified
  | completeBatches =>
    cases stepped
    dsimp only
    split
    · exact complete
    · exact derived
  | rowCount =>
    cases stepped
    dsimp only [DeltaLog.withState]
    split
    · exact count
    · exact {derived with count := taken_none}
  | numericRange key =>
    cases stepped
    dsimp only [DeltaLog.withState]
    split
    · exact numbers key
    · exact derived.noNumeric
  | stringMatch =>
    cases stepped
    dsimp only [DeltaLog.withState]
    split
    · exact strings
    · exact {derived with strings := taken_none}
  | dropBatches => cases stepped; exact {derived with complete := taken_none}
  | dropRowCount => cases stepped; exact {derived with count := taken_none}
  | dropNumeric => cases stepped; exact derived.noNumeric
  | dropStrings => cases stepped; exact {derived with strings := taken_none}

private theorem rows_missing {log : DeltaLog} (missing : log.fileExists = false → log.appended = [])
    (batch : TypedBatch) (modified : Nat) :
    ((log.appendTyped batch modified).fileExists = false → (log.appendTyped batch modified).appended = []) ∧
    ((log.insertRows batch modified).fileExists = false → (log.insertRows batch modified).appended = []) := by
  by_cases none_ : batch.ids.isEmpty
  · rw [DeltaLog.insertRows,DeltaLog.appendTyped,if_pos none_,if_pos none_]
    exact ⟨missing,missing⟩
  · rw [DeltaLog.insertRows,DeltaLog.appendTyped,if_neg none_,if_neg none_]
    exact ⟨fun absent => (nomatch absent),fun absent => (nomatch absent)⟩

private theorem exec_missing {log next : DeltaLog} {request event : Request}
    (missing : log.fileExists = false → log.appended = [])
    (stepped : log.exec request = some (event,next)) : next.fileExists = false → next.appended = [] := by
  cases request with
  | append batch modified => cases stepped; exact (rows_missing missing batch modified).1
  | insert batch modified => cases stepped; exact (rows_missing missing batch modified).2
  | remove removal modified => cases stepped; exact fun _ => rfl
  | crash batch reached modified => cases stepped; exact fun absent => nomatch absent
  | completeBatches =>
    cases stepped
    by_cases there : log.fileExists = true
    · simp only [if_pos there]
      exact missing
    · simp only [if_neg there]
      exact missing
  | _ => cases stepped; exact missing

private theorem run_derived {trace : List Request} {log : DeltaLog}
    (run : Run DeltaLog.exec DeltaLog.fitting .empty trace log) : Derived log.appended log.state := by
  suffices kept : Derived log.appended log.state ∧ (log.fileExists = false → log.appended = []) from kept.1
  refine Run.invariant (P := fun _ log => Derived log.appended log.state ∧
    (log.fileExists = false → log.appended = [])) ?_ ?_ run
  · have started : Derived [] ((DeltaState.closed [] 0).removed 0 .compaction) := removed_derived rfl 0
    exact ⟨started, fun _ => rfl⟩
  · intro _ _ _ _ _ _ held permitted stepped
    exact ⟨exec_derived held.1 held.2 permitted stepped,exec_missing held.2 stepped⟩

end Runs

def oneText (id : UInt64) (name value : String) : TypedBatch where
  ids := [id]
  intColumns := ∅
  floatColumns := ∅
  stringColumns := AList.singleton name [value]
  boolColumns := ∅
  intsSized := List.forall_mem_nil _
  floatsSized := List.forall_mem_nil _
  stringsSized := fun _ member => List.mem_singleton.mp member ▸ rfl
  boolsSized := List.forall_mem_nil _

def oneRow : DeltaLog := DeltaLog.empty.appendTyped (oneText 7 "a" "x") 1

def twoRows : DeltaLog := (oneRow.withState oneRow.state.keptStrings).appendTyped (oneText 8 "a" "x") 2

end ApexBase.Storage.DeltaFile
