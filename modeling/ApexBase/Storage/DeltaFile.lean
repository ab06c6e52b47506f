import ApexBase.Storage.DeltaBatch
import ApexBase.Library.Torn

/-! The bytes of the append-only `.delta` file (`storage/on_demand/storage_core.rs`): how a batch is
written, how the complete batches of a file are found, and how their rows are read back. -/
namespace ApexBase.Storage.DeltaFile
open Data Library.Assoc Library.Wire Library.Wire.Reader

/-- The arguments of one append: a column has a value for every row. -/
structure TypedBatch where
  ids : List UInt64
  intColumns : Map String (List Int64)
  floatColumns : Map String (List UInt64)
  stringColumns : Map String (List String)
  boolColumns : Map String (List Bool)
  intsSized : ∀ e ∈ intColumns.entries, e.2.length = ids.length
  floatsSized : ∀ e ∈ floatColumns.entries, e.2.length = ids.length
  stringsSized : ∀ e ∈ stringColumns.entries, e.2.length = ids.length
  boolsSized : ∀ e ∈ boolColumns.entries, e.2.length = ids.length

def nameBytes (name : String) : Bytes := leBytes 2 (utf8 name).length ++ utf8 name

def intBytes (value : Int64) : Bytes := leBytes 8 value.toUInt64.toNat

def floatBytes (bits : UInt64) : Bytes := leBytes 8 bits.toNat

def stringBytes (value : String) : Bytes := leBytes 4 (utf8 value).length ++ utf8 value

def boolBytes (value : Bool) : Bytes := [if value then 1 else 0]

def columnBytes {V : Type} (write : V → Bytes) (column : Sigma fun _ : String => List V) : Bytes :=
  nameBytes column.1 ++ column.2.flatMap write

def sectionBytes {V : Type} (write : V → Bytes) (columns : Map String (List V)) : Bytes :=
  leBytes 4 columns.entries.length ++ columns.entries.flatMap (columnBytes write)

def TypedBatch.toBytes (batch : TypedBatch) : Bytes :=
  leBytes 8 batch.ids.length ++ (batch.ids.flatMap floatBytes ++ (sectionBytes intBytes batch.intColumns ++
    (sectionBytes floatBytes batch.floatColumns ++ (sectionBytes stringBytes batch.stringColumns ++
      sectionBytes boolBytes batch.boolColumns))))

/-- A batch without rows writes nothing. -/
def appendTypedToDeltaWithIds (file : Bytes) (batch : TypedBatch) : Bytes :=
  if batch.ids.isEmpty then file else file ++ batch.toBytes

def written (batches : List TypedBatch) : Bytes := batches.foldl appendTypedToDeltaWithIds []

def skipColumns (rows width : Nat) : Reader Unit (List Bytes) := do
  let count ← word () 4
  many (do
    let nameLen ← word () 2
    take () (nameLen + rows * width)) count

def skipString : Reader Unit Bytes := do
  let len ← word () 4
  take () len

def skipStringColumns (rows : Nat) : Reader Unit (List (List Bytes)) := do
  let count ← word () 4
  many (do
    let nameLen ← word () 2
    let _ ← take () nameLen
    many skipString rows) count

def skipDeltaBatchColumns (rows : Nat) : Reader Unit Unit := do
  let _ ← skipColumns rows 8
  let _ ← skipColumns rows 8
  let _ ← skipStringColumns rows
  let _ ← skipColumns rows 1
  return ()

/-- The record count of a batch that is there as a whole. -/
def skipBatch : Reader Unit Nat := do
  let rows ← word () 8
  let _ ← take () (rows * 8)
  skipDeltaBatchColumns rows
  return rows

/-- The batches from a position on, and the end of the last one. A batch takes at least 8 bytes, so
as many turns as there are bytes are enough. -/
def scanFrom : Nat → Nat → Bytes → List (Nat × Nat) × Nat
  | 0,start,_ => ([],start)
  | turns + 1,start,bytes =>
    if bytes.isEmpty then ([],start)
    else
      match skipBatch bytes with
      | .ok (rows,rest) =>
        let (batches,lastEnd) := scanFrom turns (start + (bytes.length - rest.length)) rest
        ((start,rows) :: batches,lastEnd)
      | .error _ => ([],start)

def scanDeltaBatches (file : Bytes) : List (Nat × Nat) × Nat := scanFrom file.length 0 file

def isContinuation (byte : UInt8) : Bool := 0x80 ≤ byte && byte ≤ 0xBF

/-- The bytes that the second byte of a sequence may be, and the length of the sequence. -/
def sequenceOf (first : UInt8) : Option (UInt8 × UInt8 × Nat) :=
  if 0xC2 ≤ first && first ≤ 0xDF then some (0x80,0xBF,2)
  else if first = 0xE0 then some (0xA0,0xBF,3)
  else if first = 0xED then some (0x80,0x9F,3)
  else if 0xE1 ≤ first && first ≤ 0xEF then some (0x80,0xBF,3)
  else if first = 0xF0 then some (0x90,0xBF,4)
  else if 0xF1 ≤ first && first ≤ 0xF3 then some (0x80,0xBF,4)
  else if first = 0xF4 then some (0x80,0x8F,4)
  else none

def sequenceStart : Bytes → Nat
  | [] => 0
  | first :: rest =>
    match sequenceOf first,rest with
    | some (low,high,len),second :: more =>
      if low ≤ second && second ≤ high then 2 + ((more.take (len - 2)).takeWhile isContinuation).length else 1
    | _,_ => 1

def replaced : Nat → Bytes → String
  | 0,_ => ""
  | turns + 1,bytes =>
    if bytes.isEmpty then ""
    else
      let len := sequenceStart bytes
      (fromUtf8 (bytes.take len)).getD "\uFFFD" ++ replaced turns (bytes.drop len)

def fromUtf8Lossy (bytes : Bytes) : String := (fromUtf8 bytes).getD (replaced bytes.length bytes)

def shortRead : IoError := ⟨.unexpectedEof,"failed to fill whole buffer"⟩

def readInt : Reader IoError Int64 := (fun raw => (UInt64.ofNat raw).toInt64) <$> word shortRead 8

def readFloat : Reader IoError UInt64 := UInt64.ofNat <$> word shortRead 8

def readString : Reader IoError String := do
  let len ← word shortRead 4
  fromUtf8Lossy <$> take shortRead len

def readBool : Reader IoError Bool := (fun raw => raw != 0) <$> word shortRead 1

def readColumn {V : Type} (value : Reader IoError V) (rows : Nat) : Reader IoError (String × List V) := do
  let nameLen ← word shortRead 2
  let name ← take shortRead nameLen
  let values ← many value rows
  return (fromUtf8Lossy name,values)

def readSection {V : Type} (value : Reader IoError V) (rows : Nat) : Reader IoError (List (String × List V)) := do
  let count ← word shortRead 4
  many (readColumn value rows) count

def readBatch : Reader IoError DeltaBatch := do
  let rows ← word shortRead 8
  let ids ← many readFloat rows
  let ints ← readSection readInt rows
  let floats ← readSection readFloat rows
  let strings ← readSection readString rows
  let bools ← readSection readBool rows
  return ⟨ids,ints,floats,strings,bools⟩

def readCompleteBatches (batches : List (Nat × Nat)) (file : Bytes) :
    Except IoError (Option (List UInt64 × Map String ColumnData)) := do
  if batches.isEmpty then return none
  else
    let read ← batches.mapM (fun (start,_) => (readBatch (file.drop start)).map (·.1))
    let data := DeltaBatch.readDeltaData read
    if data.1.isEmpty then return none else return some data

/-- A torn batch at the end is left out. -/
def readDeltaData (file : Bytes) : Except IoError (Option (List UInt64 × Map String ColumnData)) :=
  readCompleteBatches (scanDeltaBatches file).1 file

def NamesFit {V : Type} (columns : Map String (List V)) : Prop :=
  columns.entries.length < 2^32 ∧ ∀ e ∈ columns.entries, (utf8 e.1).length < 2^16

theorem noNames {V : Type} : NamesFit (∅ : Map String (List V)) := ⟨(by decide : 0 < 2^32),nofun⟩

structure TypedBatch.Fits (batch : TypedBatch) : Prop where
  rows : batch.ids.length < 2^64
  ints : NamesFit batch.intColumns
  floats : NamesFit batch.floatColumns
  strings : NamesFit batch.stringColumns
  bools : NamesFit batch.boolColumns
  texts : ∀ e ∈ batch.stringColumns.entries, ∀ text ∈ e.2, (utf8 text).length < 2^32

def TypedBatch.delta (batch : TypedBatch) : DeltaBatch :=
  ⟨batch.ids,batch.intColumns.entries.map (fun e => (e.1,e.2)),batch.floatColumns.entries.map (fun e => (e.1,e.2)),
    batch.stringColumns.entries.map (fun e => (e.1,e.2)),batch.boolColumns.entries.map (fun e => (e.1,e.2))⟩

section Walks

variable {ε V : Type} {short : ε} {columns : Map String (List V)} {rows : Nat}

theorem reads_section {A : Type} {column : Reader ε A} {write : V → Bytes}
    (value : (Sigma fun _ : String => List V) → A) (fits : NamesFit columns)
    (each : ∀ e ∈ columns.entries, (utf8 e.1).length < 256^2 → Reads column (columnBytes write e) (value e)) :
    Reads (word short 4 >>= many column) (sectionBytes write columns) (columns.entries.map value) :=
  reads_counted _ fits.1 (fun e member => each e member (fits.2 e member))

theorem reads_named {A B : Type} {values : Reader ε A} {write : V → Bytes} {e : Sigma fun _ : String => List V}
    {value : A} (f : Bytes → A → B) (name : (utf8 e.1).length < 256^2) (rest : Reads values (e.2.flatMap write) value) :
    Reads (do
      let nameLen ← word short 2
      let name ← take short nameLen
      let read ← values
      return f name read) (columnBytes write e) (f (utf8 e.1) value) := by
  rw [columnBytes,nameBytes,List.append_assoc]
  exact (reads_word name).bind ((reads_take (utf8 e.1) rfl).bind (rest.last (f (utf8 e.1))))

theorem length_values {write : V → Bytes} {width : Nat} (values : List V)
    (sized : ∀ value, (write value).length = width) :
    (values.flatMap write).length = values.length * width := by
  induction values with
  | nil => simp
  | cons value rest ih => rw [List.flatMap_cons,List.length_append,ih,sized,List.length_cons]; ring

theorem reads_skipColumns {write : V → Bytes} {width : Nat} (fits : NamesFit columns)
    (sized : ∀ e ∈ columns.entries, e.2.length = rows) (wide : ∀ value, (write value).length = width) :
    ∃ skipped, Reads (skipColumns rows width) (sectionBytes write columns) skipped := by
  refine ⟨_,reads_section (fun e => utf8 e.1 ++ e.2.flatMap write) fits ?_⟩
  intro e member name
  rw [columnBytes,nameBytes,List.append_assoc]
  refine (reads_word name).bind (reads_take _ ?_)
  rw [List.length_append,length_values e.2 wide,sized e member]

theorem reads_text {A : Type} {text : Bytes} (f : Bytes → A) (small : text.length < 256^4) :
    Reads (do
      let len ← word short 4
      f <$> take short len) (leBytes 4 text.length ++ text) (f text) :=
  (reads_word small).bind ((reads_take text rfl).map f)

theorem reads_values {A : Type} {reader : Reader ε A} {write : V → Bytes} {value : V → A} {values : List V}
    (count : values.length = rows)
    (each : ∀ v ∈ values, Reads reader (write v) (value v)) :
    Reads (many reader rows) (values.flatMap write) (values.map value) :=
  count ▸ reads_many values each

end Walks

variable {batch : TypedBatch}

private theorem reads_skipStringColumns (fits : batch.Fits) :
    ∃ skipped, Reads (skipStringColumns batch.ids.length) (sectionBytes stringBytes batch.stringColumns) skipped := by
  refine ⟨_,reads_section (fun e => e.2.map utf8) fits.strings ?_⟩
  intro e member name
  have texts : Reads (many skipString batch.ids.length) (e.2.flatMap stringBytes) (e.2.map utf8) :=
    reads_values (batch.stringsSized e member) fun text inside =>
      (reads_word (fits.texts e member text inside)).bind (reads_take (utf8 text) rfl)
  rw [columnBytes,nameBytes,List.append_assoc]
  exact (reads_word name).bind ((reads_take (utf8 e.1) rfl).bind texts)

theorem reads_skipBatch (fits : batch.Fits) : Reads skipBatch batch.toBytes batch.ids.length := by
  obtain ⟨ints,skipInts⟩ := reads_skipColumns fits.ints batch.intsSized (fun value =>
    (length_leBytes 8 _ : (intBytes value).length = 8))
  obtain ⟨floats,skipFloats⟩ := reads_skipColumns fits.floats batch.floatsSized (fun bits =>
    (length_leBytes 8 _ : (floatBytes bits).length = 8))
  obtain ⟨strings,skipStrings⟩ := reads_skipStringColumns fits
  obtain ⟨bools,skipBools⟩ := reads_skipColumns fits.bools batch.boolsSized (fun value =>
    (rfl : (boolBytes value).length = 1))
  have ids : (batch.ids.flatMap floatBytes).length = batch.ids.length * 8 :=
    length_values batch.ids (fun id => length_leBytes 8 id.toNat)
  have columns : Reads (skipDeltaBatchColumns batch.ids.length) (sectionBytes intBytes batch.intColumns ++
      (sectionBytes floatBytes batch.floatColumns ++ (sectionBytes stringBytes batch.stringColumns ++
        sectionBytes boolBytes batch.boolColumns))) () :=
    skipInts.bind (skipFloats.bind (skipStrings.bind (skipBools.last fun _ => ())))
  exact (reads_word fits.rows).bind ((reads_take _ ids).bind (columns.last fun _ => batch.ids.length))

theorem lossy_utf8 (text : String) : fromUtf8Lossy (utf8 text) = text := by
  rw [fromUtf8Lossy,fromUtf8_utf8,Option.getD_some]

private theorem reads_int (value : Int64) : Reads readInt (intBytes value) value := by
  have read := (reads_word value.toUInt64.toNat_lt : Reads (word shortRead 8) _ _).map
    (fun raw => (UInt64.ofNat raw).toInt64)
  rwa [UInt64.ofNat_toNat,show value.toUInt64.toInt64 = value from rfl] at read

theorem reads_float (bits : UInt64) : Reads readFloat (floatBytes bits) bits := by
  have read := (reads_word bits.toNat_lt : Reads (word shortRead 8) _ _).map UInt64.ofNat
  rwa [UInt64.ofNat_toNat] at read

private theorem reads_string {text : String} (small : (utf8 text).length < 256^4) :
    Reads readString (stringBytes text) text := by
  have read : Reads readString (stringBytes text) _ := reads_text fromUtf8Lossy small
  rwa [lossy_utf8] at read

private theorem reads_bool (value : Bool) : Reads readBool (boolBytes value) value := by
  have small : (if value then 1 else 0) < 256^1 := by cases value <;> decide
  have read := (reads_word small : Reads (word shortRead 1) _ _).map (fun raw => raw != 0)
  cases value <;> exact read

private theorem reads_readSection {V : Type} {reader : Reader IoError V} {write : V → Bytes}
    {columns : Map String (List V)} {rows : Nat} (fits : NamesFit columns)
    (sized : ∀ e ∈ columns.entries, e.2.length = rows)
    (each : ∀ e ∈ columns.entries, ∀ value ∈ e.2, Reads reader (write value) value) :
    Reads (readSection reader rows) (sectionBytes write columns) (columns.entries.map fun e => (e.1,e.2)) := by
  refine reads_section (fun e => (e.1,e.2)) fits fun e member name => ?_
  have values := reads_values (sized e member) (each e member)
  have named : Reads (readColumn reader rows) (columnBytes write e) _ :=
    reads_named (fun name values => (fromUtf8Lossy name,values)) name values
  rwa [List.map_id',lossy_utf8] at named

theorem reads_readBatch (fits : batch.Fits) : Reads readBatch batch.toBytes batch.delta := by
  have ids : Reads (many readFloat batch.ids.length) (batch.ids.flatMap floatBytes) (batch.ids.map id) :=
    reads_values rfl fun id _ => reads_float id
  rw [List.map_id] at ids
  have ints := reads_readSection fits.ints batch.intsSized fun _ _ value _ => reads_int value
  have floats := reads_readSection fits.floats batch.floatsSized fun _ _ bits _ => reads_float bits
  have strings := reads_readSection fits.strings batch.stringsSized fun e member text inside =>
    reads_string (fits.texts e member text inside)
  have bools := reads_readSection fits.bools batch.boolsSized fun _ _ value _ => reads_bool value
  exact (reads_word fits.rows).bind (ids.bind (ints.bind (floats.bind (strings.bind (bools.last fun read =>
    (⟨batch.ids,_,_,_,read⟩ : DeltaBatch))))))

def stored (batches : List TypedBatch) : List TypedBatch := batches.filter (fun batch => !batch.ids.isEmpty)

def contents (batches : List TypedBatch) : Bytes := batches.flatMap TypedBatch.toBytes

/-- A proper part of a batch, as an append leaves it that did not finish. -/
def Torn (part : Bytes) : Prop := ∃ batch : TypedBatch, batch.Fits ∧ part <+: batch.toBytes ∧ part ≠ batch.toBytes

def offsets : Nat → List TypedBatch → List (Nat × Nat)
  | _,[] => []
  | start,batch :: rest => (start,batch.ids.length) :: offsets (start + batch.toBytes.length) rest

theorem written_eq (batches : List TypedBatch) : written batches = contents (stored batches) := by
  suffices general : ∀ file, batches.foldl appendTypedToDeltaWithIds file = file ++ contents (stored batches) by
    exact general []
  induction batches with
  | nil => exact fun file => (List.append_nil file).symm
  | cons batch rest ih =>
    intro file
    rw [List.foldl_cons,ih,appendTypedToDeltaWithIds]
    by_cases empty : batch.ids.isEmpty = true
    · simp [empty,stored]
    · simp [empty,stored,contents]

theorem toBytes_pos (batch : TypedBatch) : 8 ≤ batch.toBytes.length := by
  rw [TypedBatch.toBytes,List.length_append,length_leBytes]
  exact Nat.le_add_right _ _

variable {batches : List TypedBatch} {torn : Bytes}

theorem torn_nil : Torn [] := by
  let none : TypedBatch := ⟨[],∅,∅,∅,∅,nofun,nofun,nofun,nofun⟩
  refine ⟨none,⟨by decide,noNames,noNames,noNames,noNames,nofun⟩,List.nil_prefix,fun same => ?_⟩
  have long := toBytes_pos none
  rw [← same] at long
  exact absurd long (by decide)

private theorem skipBatch_torn (torn_ : Torn torn) : skipBatch torn = .error () := by
  obtain ⟨batch,fits,inside,other⟩ := torn_
  obtain ⟨_,failed⟩ := (reads_skipBatch fits).torn torn inside other
  exact failed

theorem scanFrom_contents (fits : ∀ batch ∈ batches, batch.Fits) (torn_ : Torn torn) (turns start : Nat)
    (enough : (contents batches ++ torn).length ≤ turns) :
    scanFrom turns start (contents batches ++ torn) = (offsets start batches,start + (contents batches).length) := by
  induction batches generalizing turns start with
  | nil =>
    change scanFrom turns start torn = ([],start + 0)
    cases turns with
    | zero => rfl
    | succ turns =>
      rw [scanFrom]
      split
      · rfl
      · rw [skipBatch_torn torn_]
        rfl
  | cons batch rest ih =>
    obtain ⟨first,others⟩ := List.forall_mem_cons.mp fits
    have long := toBytes_pos batch
    have shape : contents (batch :: rest) ++ torn = batch.toBytes ++ (contents rest ++ torn) := by
      rw [contents,List.flatMap_cons,List.append_assoc]
      rfl
    rw [shape,List.length_append] at enough
    rw [shape]
    obtain ⟨turns,rfl⟩ : ∃ fewer, turns = fewer + 1 := ⟨turns - 1,by omega⟩
    have nonempty : ¬ (batch.toBytes ++ (contents rest ++ torn)).isEmpty = true := by
      rw [List.isEmpty_iff,← List.length_eq_zero_iff,List.length_append]
      omega
    have taken : (batch.toBytes ++ (contents rest ++ torn)).length - (contents rest ++ torn).length =
      batch.toBytes.length := by
      rw [List.length_append,Nat.add_sub_cancel_right]
    have length : (contents (batch :: rest)).length = batch.toBytes.length + (contents rest).length := by
      rw [contents,List.flatMap_cons,List.length_append]
      rfl
    rw [scanFrom,if_neg nonempty,(reads_skipBatch first).complete]
    simp only [taken]
    rw [ih others turns (start + batch.toBytes.length) (by omega),offsets,length,Nat.add_assoc]

theorem scanDeltaBatches_contents (fits : ∀ batch ∈ batches, batch.Fits) (torn_ : Torn torn) :
    scanDeltaBatches (contents batches ++ torn) = (offsets 0 batches,(contents batches).length) := by
  rw [scanDeltaBatches,scanFrom_contents fits torn_ _ 0 le_rfl,Nat.zero_add]

theorem mapM_offsets {ε A : Type} (read : Nat × Nat → Except ε A) (value : TypedBatch → A) (file : Bytes) (start : Nat)
    (here : file.drop start = contents batches ++ torn)
    (each : ∀ batch ∈ batches, ∀ at_ rest, file.drop at_ = batch.toBytes ++ rest →
      read (at_,batch.ids.length) = .ok (value batch)) :
    (offsets start batches).mapM read = .ok (batches.map value) := by
  induction batches generalizing start with
  | nil => rfl
  | cons batch rest ih =>
    have shape : file.drop start = batch.toBytes ++ (contents rest ++ torn) := by
      rw [here,contents,List.flatMap_cons,List.append_assoc]
      rfl
    have later : file.drop (start + batch.toBytes.length) = contents rest ++ torn := by
      rw [← List.drop_drop,shape,List.drop_left]
    rw [offsets,List.mapM_cons,each batch List.mem_cons_self start _ shape,
      ih _ later (fun other member => each other (List.mem_cons_of_mem _ member))]
    rfl

theorem readCompleteBatches_contents (fits : ∀ batch ∈ batches, batch.Fits) (torn : Bytes)
    (rows : ∀ batch ∈ batches, batch.ids ≠ []) : readCompleteBatches (offsets 0 batches) (contents batches ++ torn) =
      .ok (if batches = [] then none else some (DeltaBatch.readDeltaData (batches.map TypedBatch.delta))) := by
  unfold readCompleteBatches
  cases batches with
  | nil => rfl
  | cons batch rest =>
    have read := mapM_offsets (fun place => (readBatch ((contents (batch :: rest) ++ torn).drop place.1)).map (·.1))
      TypedBatch.delta (contents (batch :: rest) ++ torn) 0 rfl (by
        intro other member at_ later there
        have complete := (reads_readBatch (fits other member)).complete later
        simp only [there,complete]
        rfl)
    have nonempty : (DeltaBatch.readDeltaData ((batch :: rest).map TypedBatch.delta)).1.isEmpty = false := by
      have first := rows batch List.mem_cons_self
      simp only [DeltaBatch.readDeltaData,List.map_cons,List.flatMap_cons,List.isEmpty_eq_false_iff]
      exact List.append_ne_nil_of_left_ne_nil first _
    simp only [offsets,List.isEmpty_cons,Bool.false_eq_true,if_false,reduceCtorEq]
    rw [offsets] at read
    rw [read]
    simp only [bind,Except.bind,nonempty]
    rfl

theorem readDeltaData_contents (fits : ∀ batch ∈ batches, batch.Fits) (torn_ : Torn torn)
    (rows : ∀ batch ∈ batches, batch.ids ≠ []) : readDeltaData (contents batches ++ torn) =
      .ok (if batches = [] then none else some (DeltaBatch.readDeltaData (batches.map TypedBatch.delta))) := by
  rw [readDeltaData,scanDeltaBatches_contents fits torn_]
  exact readCompleteBatches_contents fits torn rows

end ApexBase.Storage.DeltaFile
