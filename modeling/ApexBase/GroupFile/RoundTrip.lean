import ApexBase.GroupFile.Frames
import ApexBase.Column.ReadBack

/-! A row group that was written is parsed to the same ids and cells, with NULL in the columns that
were added since. -/
namespace ApexBase.GroupFile
open Data Column Library.Wire ColumnData
open Storage.Schema (Failure failed)
open Storage.Footer (ChunkedColumn RowGroupMeta)

/-- A column as the callers build it: in memory no column is dictionary encoded. -/
structure Stored (colType : ColumnType) (column : ColumnData) : Prop where
  variant : (ColumnData.new (memType colType)).SameVariant column
  sound : column.Sound
  ordered : column.Ordered

def shown (column : ColumnData) (nulls : Bytes) (row : Nat) : Option Cell :=
  if getBit nulls row then some .null else column.rows[row]?

def Restores (start rows : Nat) (column : ColumnData) (nulls : Bytes) (parsed : ColumnData × Bytes) : Prop :=
  ∀ row < rows, shown parsed.1 parsed.2 row = shown column nulls (start + row)

section Columns

variable {options : ColumnEncodingOptions} {start stop : Nat}

private theorem kept_text {schemaType readType : ColumnType} {column : ColumnData} {nulls : Bytes}
    (text : readType = .string ∨ readType = .stringDict) (other : ∀ values, column ≠ .float64 values) :
    Kept schemaType readType options column nulls where
  survives := fun _ => by rcases text with rfl | rfl <;> trivial
  zeros := fun null => by rcases text with rfl | rfl <;> cases null
  exact_ := fun _ _ values is => absurd is (other values)

private theorem processed_spec {isFirstRg : Bool} {schemaType colType : ColumnType} {recorded : Option ColumnType}
    {chunk : ColumnData} {nulls : Bytes}
    (known : isFirstRg = true ∧ colType = schemaType ∨ isFirstRg = false ∧ recorded = some colType)
    (stored : Stored colType chunk) (few : chunk.rows.length < 2^32)
    (kept : Kept schemaType colType options chunk nulls) {encodedAs : Option ColumnData}
    (chosen : dictEncoded isFirstRg recorded chunk = .ok encodedAs) :
    let processed := encodedAs.getD chunk
    let readType := if isFirstRg then actualType schemaType processed else colType
    (ColumnData.new readType).SameVariant processed ∧ processed.Sound ∧
    Kept schemaType readType options processed nulls ∧
      processed.decodeStringDict.rows = chunk.rows := by
  have dictionary {offsets : List UInt64} {data : Bytes} {dict : ColumnData} (is : chunk = .string offsets data)
      (made : chunk.toDictEncoded = some (some dict)) : (ColumnData.new .stringDict).SameVariant dict ∧ dict.Sound ∧
      Kept schemaType .stringDict options dict nulls ∧ dict.decodeStringDict.rows = chunk.rows := by
    subst is
    have count : offsets.length - 1 < 2^32 := by
      simpa [rows] using few
    obtain ⟨variant,sound,same⟩ := toDictEncoded_spec stored.sound count made
    refine ⟨variant,sound,kept_text (Or.inr rfl) ?_,same⟩
    rintro values rfl
    exact variant.elim
  unfold dictEncoded at chosen
  cases encodedAs with
  | some dict =>
    have made : ∃ offsets data, chunk = .string offsets data ∧ chunk.toDictEncoded = some (some dict) ∧
      (isFirstRg = false → colType = .stringDict) := by
      rcases known with ⟨rfl,rfl⟩ | ⟨rfl,rfl⟩
      · rw [if_pos rfl] at chosen
        cases encoded : chunk.dictEncodeIfSmaller with
        | none =>
          rw [encoded] at chosen
          cases chosen
        | some found =>
          rw [encoded] at chosen
          obtain ⟨offsets,data,is,made⟩ := dictEncodeIfSmaller_spec encoded (Except.ok.inj chosen)
          exact ⟨offsets,data,is,made,by rintro ⟨⟩⟩
      · rw [if_neg Bool.false_ne_true] at chosen
        split at chosen
        · rename_i dictType
          cases encoded : chunk.toDictEncoded with
          | none =>
            rw [encoded] at chosen
            cases chosen
          | some found =>
            rw [encoded] at chosen
            cases chosen
            cases chunk with
            | string offsets data => exact ⟨offsets,data,rfl,rfl,fun _ => Option.some.inj dictType⟩
            | _ => cases encoded
        · cases chosen
    obtain ⟨offsets,data,is,made,later⟩ := made
    obtain ⟨variant,sound,keptDict,same⟩ := dictionary is made
    have readType : (if isFirstRg then actualType schemaType dict else colType) = .stringDict := by
      cases isFirstRg with
      | true =>
        cases dict with
        | stringDict => rfl
        | _ => exact variant.elim
      | false => exact later rfl
    simp only [Option.getD_some]
    rw [readType]
    exact ⟨variant,sound,keptDict,same⟩
  | none =>
    have plain : Plain chunk := by
      rintro indices dictOffsets dictData rfl
      have variant := stored.variant
      cases colType <;> exact variant.elim
    have same : chunk.decodeStringDict.rows = chunk.rows := by rw [plain.decode]
    simp only [Option.getD_none]
    rcases known with ⟨rfl,rfl⟩ | ⟨rfl,rfl⟩
    · rw [if_pos rfl]
      by_cases text : ∃ offsets data, chunk = .string offsets data
      · obtain ⟨offsets,data,rfl⟩ := text
        exact ⟨trivial,stored.sound,kept_text (Or.inl rfl) (by rintro _ ⟨⟩),same⟩
      · have type : actualType colType chunk = colType := by
          cases chunk with
          | string offsets data => exact absurd ⟨offsets,data,rfl⟩ text
          | stringDict indices dictOffsets dictData => exact absurd rfl (plain indices dictOffsets dictData)
          | _ => rfl
        have variant := stored.variant
        have mem : memType colType = colType := by
          refine if_neg ?_
          rintro rfl
          cases chunk with
          | string offsets data => exact text ⟨offsets,data,rfl⟩
          | _ => exact variant.elim
        rw [mem] at variant
        rw [type]
        exact ⟨variant,stored.sound,kept,same⟩
    · rw [if_neg Bool.false_ne_true] at chosen ⊢
      have other : colType ≠ .stringDict := by
        rintro rfl
        rw [if_pos rfl] at chosen
        cases chunk with
        | string offsets data =>
          cases encoded : toDictEncoded (.string offsets data) with
          | none =>
            rw [encoded] at chosen
            cases chosen
          | some found =>
            rw [encoded] at chosen
            obtain ⟨pieces,_,made⟩ := Option.bind_eq_some_iff.mp encoded
            cases made
            cases chosen
        | _ => exact stored.variant.elim
      have variant := stored.variant
      rw [memType,if_neg other] at variant
      exact ⟨variant,stored.sound,kept,same⟩

private theorem writeColumn_spec {isFirstRg : Bool} {schemaType colType recordedType : ColumnType}
    {recorded : Option ColumnType} {column : ColumnData} {nulls bytes : Bytes} (few : stop - start < 2^32)
    (known : isFirstRg = true ∧ colType = schemaType ∨ isFirstRg = false ∧ recorded = some colType)
    (stored : Stored colType column)
    (kept : ∀ chunk, column.sliceRange start stop = some chunk →
      Kept schemaType colType options chunk (sliceNullBitmap nulls start stop))
    (written : writeColumn options start stop isFirstRg schemaType recorded column nulls = .ok (recordedType,bytes)) :
    ∃ encoded, bytes = sliceNullBitmap nulls start stop ++ encoded ∧ ∀ rest,
      ∃ found, readColumnEncoded (encoded ++ rest) (if isFirstRg then recordedType else colType) =
      .ok (found,encoded.length) ∧
        Restores start (stop - start) column nulls (found.decodeStringDict,sliceNullBitmap nulls start stop) := by
  unfold writeColumn at written
  obtain ⟨chunk,sliced,written⟩ := bind_eq_ok.mp written
  obtain ⟨encodedAs,chosen,written⟩ := bind_eq_ok.mp written
  cases cut : column.sliceRange start stop with
  | none =>
    rw [cut] at sliced
    cases sliced
  | some found =>
    rw [cut] at sliced
    cases sliced
    have range := sliceRange_cut stored.ordered stored.sound cut
    have short : chunk.rows.length < 2^32 := by
      rw [range.rows,List.length_take]
      omega
    obtain ⟨variant,sound,keptProcessed,same⟩ :=
      processed_spec known ⟨range.variant _ stored.variant,range.sound,range.ordered⟩ short
      (kept chunk cut) chosen
    simp only at written
    cases encodes : writeColumnEncoded (encodedAs.getD chunk) schemaType options with
    | error fault =>
      rw [encodes] at written
      cases written
    | ok encoded =>
      rw [encodes] at written
      cases written
      refine ⟨encoded,rfl,fun rest => ?_⟩
      obtain ⟨read,ok,agree⟩ := read_back variant sound keptProcessed encodes rest
      refine ⟨read,ok,fun row inside => ?_⟩
      unfold shown
      simp only
      rw [getBit_sliceNullBitmap nulls start stop inside]
      split
      · rfl
      · rename_i visible
        have bit : getBit (sliceNullBitmap nulls start stop) row = false := by
          rw [getBit_sliceNullBitmap nulls start stop inside]
          simpa using visible
        rw [agree row bit,same,range.rows,List.getElem?_take,if_pos inside,List.getElem?_drop]

private theorem parse_padded {rows : Nat} (version : UInt8) (some_ : 0 < rows) (extra : List ColumnType) :
    parseColumns version rows extra [] = .ok (extra.map (padded rows)) := by
  cases extra with
  | nil => rfl
  | cons colType rest =>
    rw [parseColumns]
    simp only
    rw [if_pos (by rw [List.length_nil]; omega)]

private theorem parse_written {isFirstRg : Bool} (few : stop - start < 2^32) (some_ : 0 < stop - start)
    (extra : List ColumnType) {schemaCols : List (String × ColumnType)} {recorded : List ColumnType}
    {columns : List ColumnData} {nulls : List Bytes} {sections : List (ColumnType × Bytes)}
    (listed : isFirstRg = false → recorded.length = schemaCols.length)
    (stored : ∀ (i : Nat) colType column, (if isFirstRg then schemaCols.map Prod.snd else recorded)[i]? = some colType →
      columns[i]? = some column →
      Stored colType column)
    (kept : ∀ (i : Nat) schemaType colType column bitmap chunk, (schemaCols.map Prod.snd)[i]? = some schemaType →
      (if isFirstRg then schemaCols.map Prod.snd else recorded)[i]? = some colType → columns[i]? = some column →
      nulls[i]? = some bitmap →
      column.sliceRange start stop = some chunk → Kept schemaType colType options chunk
        (sliceNullBitmap bitmap start stop))
    (written : writeColumns options start stop isFirstRg schemaCols recorded columns nulls = .ok sections) :
    ∃ restored, parseColumns rgEncodingVersion (stop - start) ((if isFirstRg then sections.map Prod.fst
      else recorded) ++ extra) (sections.map Prod.snd).flatten =
        .ok (restored ++ extra.map (padded (stop - start))) ∧ restored.length = schemaCols.length ∧
      ∀ (i : Nat) column bitmap parsed, columns[i]? = some column → nulls[i]? = some bitmap →
      restored[i]? = some parsed →
        Restores start (stop - start) column bitmap parsed := by
  induction schemaCols generalizing recorded columns nulls sections with
  | nil =>
    cases written
    refine ⟨[],?_,rfl,fun _ _ _ _ _ _ none_ => nomatch none_⟩
    have types : (if isFirstRg then ([] : List (ColumnType × Bytes)).map Prod.fst else recorded) = [] := by
      cases isFirstRg with
      | true => rfl
      | false => exact List.eq_nil_of_length_eq_zero (listed rfl)
    rw [types]
    exact parse_padded rgEncodingVersion some_ extra
  | cons first schemaCols ih =>
    obtain ⟨name,schemaType⟩ := first
    cases columns with
    | nil => cases written
    | cons column columns =>
      cases nulls with
      | nil => cases written
      | cons bitmap nulls =>
        rw [writeColumns] at written
        obtain ⟨⟨recordedType,bytes⟩,here,written⟩ := bind_eq_ok.mp written
        obtain ⟨others,more,written⟩ := bind_eq_ok.mp written
        cases written
        obtain ⟨colType,known,at_,tail⟩ : ∃ colType, (isFirstRg = true ∧ colType = schemaType ∨ isFirstRg = false ∧
          recorded.head? = some colType) ∧
            (if isFirstRg then ((name,schemaType) :: schemaCols).map Prod.snd else recorded)[0]? = some colType ∧
            (isFirstRg = false → recorded = colType :: recorded.tail) := by
          cases isFirstRg with
          | true => exact ⟨schemaType,Or.inl ⟨rfl,rfl⟩,rfl,nofun⟩
          | false =>
            cases recorded with
            | nil => cases listed rfl
            | cons colType rest => exact ⟨colType,Or.inr ⟨rfl,rfl⟩,rfl,fun _ => rfl⟩
        have shift (i : Nat) (other : ColumnType) (there : (if isFirstRg then schemaCols.map Prod.snd
          else recorded.tail)[i]? = some other) :
            (if isFirstRg then ((name,schemaType) :: schemaCols).map Prod.snd else recorded)[i + 1]? = some other := by
          cases isFirstRg with
          | true => exact there
          | false =>
            rw [if_neg Bool.false_ne_true] at there ⊢
            rw [tail rfl]
            exact there
        obtain ⟨encoded,rfl,read⟩ := writeColumn_spec few known (stored 0 colType column at_ rfl)
          (fun chunk cut => kept 0 schemaType colType column bitmap chunk rfl at_ rfl rfl cut) here
        obtain ⟨restored,parsed,length,each⟩ :=
          @ih recorded.tail columns nulls others (fun later => by rw [List.length_tail,listed later]; rfl)
          (fun i other col there found => stored (i + 1) other col (shift i other there) found)
          (fun i schema other col bits chunk is there found nullsAt cut =>
            kept (i + 1) schema other col bits chunk is (shift i other there) found nullsAt cut)
          more
        obtain ⟨found,ok,restores⟩ := read (others.map Prod.snd).flatten
        have types : (if isFirstRg then
          ((recordedType,sliceNullBitmap bitmap start stop ++ encoded) :: others).map Prod.fst else recorded) =
            (if isFirstRg then recordedType else colType) :: (if isFirstRg then others.map Prod.fst
              else recorded.tail) := by
          cases isFirstRg with
          | true => rfl
          | false =>
            rw [if_neg Bool.false_ne_true,if_neg Bool.false_ne_true,if_neg Bool.false_ne_true]
            exact tail rfl
        have size := length_sliceNullBitmap bitmap start stop
        refine ⟨(found.decodeStringDict,sliceNullBitmap bitmap start stop) :: restored,?_,
          by rw [List.length_cons,length,List.length_cons],?_⟩
        · rw [types,List.map_cons,List.flatten_cons,List.cons_append,parseColumns]
          simp only
          rw [if_neg (by simp only [List.length_append,size]; omega),List.append_assoc,List.drop_left' size,
            List.take_left' size,
            if_pos (show rgColumnsAreEncoded rgEncodingVersion = true by decide),ok]
          simp only
          rw [List.drop_left,parsed]
          rfl
        · intro i other bits parsedAt columnAt nullsAt restoredAt
          cases i with
          | zero =>
            cases columnAt
            cases nullsAt
            cases restoredAt
            exact restores
          | succ i => exact each i other bits parsedAt columnAt nullsAt restoredAt

end Columns

section Ids

variable {ids : List UInt64}

private theorem toNat_saturatingAdd (a b : UInt64) : (saturatingAdd a b).toNat = min (a.toNat + b.toNat) (2^64 - 1) :=
  UInt64.toNat_ofNat_of_lt' (show min (a.toNat + b.toNat) (2^64 - 1) < 2^64 by omega)

section
variable {first : UInt64} (head : ids.head? = some first) (contiguous : idsAreContiguous ids = true)
include head contiguous

private theorem contiguous_at {i : Nat} {id : UInt64}
    (there : ids[i]? = some id) : id = saturatingAdd first (UInt64.ofNat i) := by
  unfold idsAreContiguous at contiguous
  rw [head] at contiguous
  simp only [List.all_eq_true] at contiguous
  have member : (id,i) ∈ ids.zipIdx := by
    rw [List.mem_zipIdx_iff_getElem?]
    exact there
  exact beq_iff_eq.mp (contiguous (id,i) member)

private theorem min_contiguous :
    ids.min? = some first := by
  refine List.min?_eq_some_iff.mpr ⟨List.mem_of_head? head,fun id member => ?_⟩
  obtain ⟨i,there⟩ := List.getElem?_of_mem member
  have bound := first.toNat_lt
  rw [contiguous_at head contiguous there,UInt64.le_iff_toNat_le,toNat_saturatingAdd]
  omega

end

def IdsFit (ids : List UInt64) (implicitIdsOk : Bool) : Prop :=
  rgIdEncodingFor ids implicitIdsOk = rgIdsImplicitContiguous → ∀ first ∈ ids.head?, first.toNat + ids.length ≤ 2^64

/-- Implied ids come back exactly when they fit. -/
private theorem implied_ids {implicitIdsOk : Bool} (few : ids.length < 2^64)
    (implied : rgIdEncodingFor ids implicitIdsOk = rgIdsImplicitContiguous) :
    ((List.range ids.length).map fun offset => ids.min?.getD 0 + UInt64.ofNat offset) = ids ↔
    IdsFit ids implicitIdsOk := by
  have contiguous : idsAreContiguous ids = true := by
    unfold rgIdEncodingFor at implied
    split at implied
    · rename_i both
      exact (Bool.and_eq_true_iff.mp both).2
    · cases implied
  cases head : ids.head? with
  | none =>
    rw [List.head?_eq_none_iff] at head
    subst head
    exact iff_of_true rfl fun _ first member => nomatch member
  | some first =>
    have bound := first.toNat_lt
    have offsets {i : Nat} (inside : i < ids.length) : (UInt64.ofNat i).toNat = i :=
      UInt64.toNat_ofNat_of_lt' (Nat.lt_trans inside few)
    rw [min_contiguous head contiguous,Option.getD_some]
    constructor
    · intro same _ other member
      cases head.symm.trans member
      by_contra wraps
      -- the id at which the sum passes the end is zero, and was the greatest
      have inside : 2^64 - first.toNat < ids.length := by omega
      have there := List.getElem?_eq_getElem inside
      have sum := contiguous_at head contiguous there
      have read := congrArg (fun list => list[2^64 - first.toNat]?) same
      simp only [List.getElem?_map,List.getElem?_range inside,Option.map_some,there,Option.some.injEq] at read
      rw [sum] at read
      have values := congrArg UInt64.toNat read
      rw [UInt64.toNat_add,offsets inside,toNat_saturatingAdd,offsets inside] at values
      omega
    · intro fits
      have room := fits implied first head
      apply List.ext_getElem
      · rw [List.length_map,List.length_range]
      · intro i _ inside
        have there := contiguous_at head contiguous (List.getElem?_eq_getElem inside)
        rw [List.getElem_map,List.getElem_range,there]
        apply UInt64.toNat_inj.mp
        rw [UInt64.toNat_add,offsets inside,toNat_saturatingAdd,offsets inside]
        omega

private theorem plain_ids (rest : Bytes) : (ofLeWords 8 ids.length (leWords 8 (ids.map (·.toNat)) ++ rest)).map
    UInt64.ofNat = ids := by
  have small : ∀ value ∈ ids.map (·.toNat), value < 256^8 := by
    intro value member
    obtain ⟨id,_,rfl⟩ := List.mem_map.mp member
    exact id.toNat_lt
  have read := ofLeWords_leWords small rest
  rw [List.length_map] at read
  rw [read,List.map_map]
  conv_rhs => rw [← List.map_id ids]
  exact List.map_congr_left fun id _ => UInt64.ofNat_toNat

end Ids

/-! The row group as a whole. -/

/-- The arguments of one call, as the callers pass them: the types of the first row
group are recorded for the ones that follow. -/
structure GroupInput where
  schemaCols : List (String × ColumnType)
  ids : List UInt64
  columns : List ColumnData
  nulls : List Bytes
  start : Nat
  stop : Nat
  isFirstRg : Bool
  actualColTypes : List ColumnType
  fresh : isFirstRg = true → actualColTypes = []
  listed : isFirstRg = false → actualColTypes.length = schemaCols.length
  stored : ∀ (i : Nat) colType column, (if isFirstRg then schemaCols.map Prod.snd else actualColTypes)[i]? =
    some colType →
    columns[i]? = some column → Stored colType column

namespace GroupInput

variable (codecs : Codecs) (options : GroupOptions) (rgOffset : UInt64) (input : GroupInput)

def rows : Nat := input.stop - input.start

def chunkIds : List UInt64 := (input.ids.drop input.start).take input.rows

def write : Except WriteFault WrittenGroup :=
  writeStreamedV4RowGroup codecs options rgOffset input.schemaCols input.ids input.columns input.nulls input.start
    input.stop input.isFirstRg
    input.actualColTypes

def sections : Except WriteFault (List (ColumnType × Bytes)) :=
  writeColumns options.encodingOptions input.start input.stop input.isFirstRg input.schemaCols input.actualColTypes
    input.columns input.nulls

def footerTypes (written : WrittenGroup) : List ColumnType :=
  if written.actualColTypes = [] then input.schemaCols.map Prod.snd else written.actualColTypes

/-- The same ids, nothing deleted, the same cells, and NULL in the columns behind them. -/
structure Restored (extra : List ColumnType) (parsed : ParsedV4RowGroup) : Prop where
  ids : parsed.ids = input.chunkIds
  deleted : ∀ row, getBit parsed.deleted row = false
  cells : ∀ i < input.schemaCols.length, ∀ column bitmap, input.columns[i]? = some column →
    input.nulls[i]? = some bitmap →
    ∃ found bits, parsed.columns[i]? = some found ∧ parsed.nulls[i]? = some bits ∧
    Restores input.start input.rows column bitmap (found,bits)
  added : ∀ i < extra.length, ∃ found bits, parsed.columns[input.schemaCols.length + i]? = some found ∧
    parsed.nulls[input.schemaCols.length + i]? = some bits ∧ ∀ row < input.rows, shown found bits row = some .null

def RoundTrips : Prop := ∀ written, input.write codecs options rgOffset = .ok written →
  ∀ (schema : List (String × ColumnType)) extra, schema.map Prod.snd = input.footerTypes written ++ extra →
    ∃ parsed, parseV4RowGroup codecs written.bytes written.rgMeta schema (chunkEntry written.chunkTable) = .ok parsed ∧
    input.Restored extra parsed

/-- The body is written as one frame for each column. -/
def chunked (head : Bytes) (columns : List Bytes) : Bool :=
  (encodeRgBodyWithLayout codecs options.compression options.chunkIndex (head ++ columns.flatten)
    (colRanges head.length columns)
    options.layout).chunks.isSome

structure Fits : Prop where
  rows : input.rows < 2^32
  ids : IdsFit input.chunkIds options.implicitIdsOk
  body : ∀ sections, input.sections options = .ok sections →
    chunked codecs options (bodyHead input.chunkIds options.implicitIdsOk) (sections.map Prod.snd) = true →
    (bodyHead input.chunkIds options.implicitIdsOk ++ (sections.map Prod.snd).flatten).length < 2^32
  columns : ∀ (i : Nat) schemaType colType column bitmap chunk, (input.schemaCols.map Prod.snd)[i]? = some schemaType →
    (if input.isFirstRg then input.schemaCols.map Prod.snd else input.actualColTypes)[i]? = some colType →
    input.columns[i]? = some column →
    input.nulls[i]? = some bitmap → column.sliceRange input.start input.stop = some chunk →
    Kept schemaType colType options.encodingOptions chunk (sliceNullBitmap bitmap input.start input.stop)

end GroupInput

section RoundTrip

variable {codecs : Codecs} {options : GroupOptions} {rgOffset : UInt64} {input : GroupInput} {written : WrittenGroup}

structure Written (codecs : Codecs) (options : GroupOptions) (input : GroupInput) (written : WrittenGroup)
    (sections : List (ColumnType × Bytes)) : Prop where
  some_ : 0 < input.rows
  count : input.chunkIds.length = input.rows
  columns : input.sections options = .ok sections
  types : written.actualColTypes = if input.isFirstRg then sections.map Prod.fst else input.actualColTypes
  encoded : let head := bodyHead input.chunkIds options.implicitIdsOk
    let body := encodeRgBodyWithLayout codecs options.compression options.chunkIndex (head ++
      (sections.map Prod.snd).flatten)
      (colRanges head.length (sections.map Prod.snd)) options.layout
    written.bytes = groupHeader input.rows input.schemaCols.length (input.chunkIds.min?.getD 0)
      (input.chunkIds.max?.getD 0)
      [body.compressFlag,if body.chunks.isSome then rgChunkedEncodingVersion else rgEncodingVersion,
        rgIdEncodingFor input.chunkIds options.implicitIdsOk,0] ++ body.body ∧
    written.chunkTable = some ((body.chunks.getD []).map some)
  rowCount : written.rgMeta.rowCount = UInt32.ofNat input.rows
  minId : written.rgMeta.minId = input.chunkIds.min?.getD 0

private theorem write_cases (ok : input.write codecs options rgOffset = .ok written) :
    (input.stop = input.start ∧ written.rgMeta.rowCount = 0 ∧ written.actualColTypes = input.actualColTypes) ∨
    ∃ sections, Written codecs options input written sections := by
  unfold GroupInput.write writeStreamedV4RowGroup at ok
  split at ok
  · cases ok
  · split at ok
    · rename_i none_
      cases ok
      exact Or.inl ⟨none_,rfl,rfl⟩
    · rename_i forward some_
      obtain ⟨chunkIds,cut,ok⟩ := bind_eq_ok.mp ok
      cases range : between input.ids input.start input.stop with
      | none =>
        rw [range] at cut
        cases cut
      | some found =>
        rw [range] at cut
        cases cut
        obtain ⟨sections,made,ok⟩ := bind_eq_ok.mp ok
        cases ok
        unfold between at range
        split at range
        · rename_i inside
          cases range
          have length : input.chunkIds.length = input.rows := by
            simp only [GroupInput.chunkIds,GroupInput.rows,List.length_take,List.length_drop]
            omega
          refine Or.inr ⟨sections,?_,length,made,?_,⟨rfl,rfl⟩,rfl,rfl⟩
          · unfold GroupInput.rows
            omega
          · cases first : input.isFirstRg with
            | true => simp [input.fresh first]
            | false => rfl
        · cases range

/-! The header of a row group: four flags stand at its end. -/

private theorem header_flags (rows colCount : Nat) (minId maxId : UInt64) (a b c d : UInt8) (body : Bytes) :
    let bytes := groupHeader rows colCount minId maxId [a,b,c,d] ++ body
    32 ≤ bytes.length ∧ bytes.drop 32 = body ∧ bytes[28]? = some a ∧ bytes[29]? = some b ∧ bytes[30]? = some c := by
  have front : (magicRowGroup ++ (leBytes 4 rows ++ (leBytes 4 colCount ++
    (leBytes 8 minId.toNat ++ leBytes 8 maxId.toNat)))).length = 28 := by
    simp only [List.length_append,length_leBytes]
    rfl
  have split : groupHeader rows colCount minId maxId [a,b,c,d] =
      (magicRowGroup ++ (leBytes 4 rows ++ (leBytes 4 colCount ++ (leBytes 8 minId.toNat ++ leBytes 8 maxId.toNat)))) ++
      [a,b,c,d] := by
    simp only [groupHeader,List.append_assoc]
  have length : (groupHeader rows colCount minId maxId [a,b,c,d]).length = 32 := by
    rw [split,List.length_append,front]
    rfl
  simp only
  refine ⟨?_,List.drop_left' length,?_,?_,?_⟩
  · rw [List.length_append,length]
    omega
  · rw [split,List.append_assoc,List.getElem?_append_right (by omega),front]
    rfl
  · rw [split,List.append_assoc,List.getElem?_append_right (by omega),front]
    rfl
  · rw [split,List.append_assoc,List.getElem?_append_right (by omega),front]
    rfl

def idsOf (input : GroupInput) (options : GroupOptions) : List UInt64 :=
  if rgIdEncodingFor input.chunkIds options.implicitIdsOk = rgIdsImplicitContiguous then
    (List.range input.rows).map fun offset => input.chunkIds.min?.getD 0 + UInt64.ofNat offset
  else input.chunkIds

private theorem encoding_cases (ids : List UInt64) (implicitIdsOk : Bool) :
    rgIdEncodingFor ids implicitIdsOk = rgIdsImplicitContiguous ∨ rgIdEncodingFor ids implicitIdsOk = rgIdsPlain := by
  unfold rgIdEncodingFor
  split
  · exact Or.inl rfl
  · exact Or.inr rfl

private theorem parseColumns_version {version : UInt8} (encodes : rgColumnsAreEncoded version = true) {rows : Nat}
    {types : List ColumnType}
    {body : Bytes} : parseColumns version rows types body = parseColumns rgEncodingVersion rows types body := by
  have first : rgColumnsAreEncoded rgEncodingVersion = true := by decide
  induction types generalizing body with
  | nil => rfl
  | cons colType rest ih => simp only [parseColumns,encodes,first,ih]

private theorem parse_bytes {sections : List (ColumnType × Bytes)}
    (made : Written codecs options input written sections) (few : input.rows < 2^32) (lossless : codecs.Lossless)
    (short : GroupInput.chunked codecs options (bodyHead input.chunkIds options.implicitIdsOk) (sections.map Prod.snd) =
      true →
      (bodyHead input.chunkIds options.implicitIdsOk ++ (sections.map Prod.snd).flatten).length < 2^32)
    (schema : List (String × ColumnType)) {columns : List (ColumnData × Bytes)}
    (read : parseColumns rgEncodingVersion input.rows (schema.map Prod.snd) (sections.map Prod.snd).flatten =
      .ok columns) :
    parseV4RowGroup codecs written.bytes written.rgMeta schema (chunkEntry written.chunkTable) =
      .ok ⟨idsOf input options,List.replicate ((input.rows + 7) / 8) 0,columns.map Prod.fst,columns.map Prod.snd⟩ := by
  have body := readBody_encoded lossless options short
  obtain ⟨bytesAre,table⟩ := made.encoded
  simp only at body bytesAre table
  generalize encodeRgBodyWithLayout codecs options.compression options.chunkIndex
    (bodyHead input.chunkIds options.implicitIdsOk ++ (sections.map Prod.snd).flatten)
    (colRanges (bodyHead input.chunkIds options.implicitIdsOk).length (sections.map Prod.snd)) options.layout =
    encoded at body bytesAre table
  obtain ⟨long,raw,flag,version,idEncoding⟩ :=
    header_flags input.rows input.schemaCols.length (input.chunkIds.min?.getD 0)
    (input.chunkIds.max?.getD 0) encoded.compressFlag (if encoded.chunks.isSome then rgChunkedEncodingVersion
      else rgEncodingVersion)
    (rgIdEncodingFor input.chunkIds options.implicitIdsOk) 0 encoded.body
  rw [← bytesAre] at long raw flag version idEncoding
  have rows : written.rgMeta.rowCount.toNat = input.rows := by
    rw [made.rowCount]
    exact UInt32.toNat_ofNat_of_lt' few
  have known : rgColumnsAreEncoded (if encoded.chunks.isSome then rgChunkedEncodingVersion
    else rgEncodingVersion) = true ∧
      ¬ (if encoded.chunks.isSome then rgChunkedEncodingVersion else rgEncodingVersion) > rgChunkedEncodingVersion := by
    split
    · decide
    · decide
  have positive := made.some_
  have count := made.count
  unfold parseV4RowGroup
  simp only
  rw [rows,if_neg (by omega),if_pos long,if_pos long,version,Option.getD_some,if_neg known.2,if_neg (by omega),flag,
    Option.getD_some,idEncoding,
    Option.getD_some,raw,table,body]
  simp only [bind,Except.bind]
  rcases encoding_cases input.chunkIds options.implicitIdsOk with implied | plain
  · have head : bodyHead input.chunkIds options.implicitIdsOk = List.replicate ((input.rows + 7) / 8) 0 := by
      rw [bodyHead,implied,if_neg (by decide),List.nil_append,count]
    rw [implied,idsOf,implied,made.minId,head]
    simp only [rgIdSectionLen,if_true,ne_eq,not_true_eq_false,false_and,if_false,Nat.zero_add,List.drop_zero]
    rw [if_neg (by rw [List.length_append,List.length_replicate]; omega),List.drop_left' (List.length_replicate),
      List.take_left' (List.length_replicate),parseColumns_version known.1,read]
    rfl
  · have other : rgIdsPlain ≠ rgIdsImplicitContiguous := by decide
    have idBytes : (leWords 8 (input.chunkIds.map (·.toNat))).length = input.rows * 8 := by
      rw [length_leWords,List.length_map,count]
    have head : bodyHead input.chunkIds options.implicitIdsOk =
        leWords 8 (input.chunkIds.map (·.toNat)) ++ List.replicate ((input.rows + 7) / 8) 0 := by
      rw [bodyHead,plain,if_pos rfl,count]
    have idsRead := @plain_ids input.chunkIds (List.replicate ((input.rows + 7) / 8) 0 ++
      (sections.map Prod.snd).flatten)
    rw [count] at idsRead
    rw [plain,idsOf,plain,head,List.append_assoc]
    simp only [rgIdSectionLen,ne_eq,other,not_false_eq_true,true_and,if_false]
    rw [if_neg (by simp only [List.length_append,idBytes]; omega),
      if_neg (by simp only [List.length_append,idBytes,List.length_replicate]; omega),
      idsRead,List.drop_left' idBytes,List.drop_left' (List.length_replicate),List.take_left' (List.length_replicate),
      parseColumns_version known.1,read]
    rfl

private theorem length_writeColumns {encodingOptions : ColumnEncodingOptions} {start stop : Nat} {isFirstRg : Bool}
    {schemaCols : List (String × ColumnType)} {recorded : List ColumnType} {columns : List ColumnData}
    {nulls : List Bytes} {sections : List (ColumnType × Bytes)}
    (written : writeColumns encodingOptions start stop isFirstRg schemaCols recorded columns nulls = .ok sections) :
    sections.length = schemaCols.length := by
  induction schemaCols generalizing recorded columns nulls sections with
  | nil =>
    cases written
    rfl
  | cons first rest ih =>
    cases columns with
    | nil => cases written
    | cons column columns =>
      cases nulls with
      | nil => cases written
      | cons bitmap nulls =>
        rw [writeColumns] at written
        obtain ⟨section_,_,written⟩ := bind_eq_ok.mp written
        obtain ⟨others,more,written⟩ := bind_eq_ok.mp written
        cases written
        rw [List.length_cons,ih more,List.length_cons]

private theorem shown_padded {rows row : Nat} (inside : row < rows) (colType : ColumnType) :
    shown (padded rows colType).1 (padded rows colType).2 row = some .null := by
  unfold shown padded
  simp only
  rw [getBit_packBits _ inside,if_pos rfl]

private theorem empty_restored (none_ : input.stop = input.start) (rowCount : written.rgMeta.rowCount = 0)
    (types : written.actualColTypes = input.actualColTypes) {schema : List (String × ColumnType)}
    {extra : List ColumnType}
    (typed : schema.map Prod.snd = input.footerTypes written ++ extra) :
    ∃ parsed, parseV4RowGroup codecs written.bytes written.rgMeta schema (chunkEntry written.chunkTable) = .ok parsed ∧
    input.Restored extra parsed := by
  have rows : input.rows = 0 := by
    unfold GroupInput.rows
    omega
  have footer : (input.footerTypes written).length = input.schemaCols.length := by
    unfold GroupInput.footerTypes
    rw [types]
    split
    · rw [List.length_map]
    · rename_i some_
      cases first : input.isFirstRg with
      | true => exact absurd (input.fresh first) some_
      | false => exact input.listed first
  have length : schema.length = input.schemaCols.length + extra.length := by
    have same := congrArg List.length typed
    rwa [List.length_map,List.length_append,footer] at same
  refine ⟨⟨[],[],schema.map fun _ => .new .int64,schema.map fun _ => []⟩,?_,?_,?_,?_,?_⟩
  · unfold parseV4RowGroup
    simp only
    rw [rowCount,if_pos (by rfl)]
  · rw [GroupInput.chunkIds,rows]
    rfl
  · exact fun row => getBit_replicate 0 row
  · intro i inside column bitmap _ _
    refine ⟨.new .int64,[],?_,?_,?_⟩
    · rw [List.getElem?_map,List.getElem?_eq_getElem (show i < schema.length by omega)]
      rfl
    · rw [List.getElem?_map,List.getElem?_eq_getElem (show i < schema.length by omega)]
      rfl
    · rw [rows]
      exact fun row inside => absurd inside (Nat.not_lt_zero row)
  · intro i inside
    refine ⟨.new .int64,[],?_,?_,?_⟩
    · rw [List.getElem?_map,List.getElem?_eq_getElem (show input.schemaCols.length + i < schema.length by omega)]
      rfl
    · rw [List.getElem?_map,List.getElem?_eq_getElem (show input.schemaCols.length + i < schema.length by omega)]
      rfl
    · rw [rows]
      exact fun row inside => absurd inside (Nat.not_lt_zero row)

private theorem roundTrips_of_fits (lossless : codecs.Lossless) (fits : input.Fits codecs options) :
    input.RoundTrips codecs options rgOffset := by
  intro written ok schema extra typed
  rcases write_cases ok with ⟨none_,rowCount,types⟩ | ⟨sections,made⟩
  · exact empty_restored none_ rowCount types typed
  · have length := length_writeColumns made.columns
    have types : (if input.isFirstRg then sections.map Prod.fst else input.actualColTypes).length =
      input.schemaCols.length := by
      cases first : input.isFirstRg with
      | true => rw [if_pos rfl,List.length_map,length]
      | false => exact input.listed first
    have footer : input.footerTypes written = if input.isFirstRg then sections.map Prod.fst
      else input.actualColTypes := by
      unfold GroupInput.footerTypes
      rw [made.types]
      by_cases empty : (if input.isFirstRg then sections.map Prod.fst else input.actualColTypes) = []
      · rw [empty,List.length_nil] at types
        rw [if_pos empty,empty,List.eq_nil_of_length_eq_zero types.symm]
        rfl
      · rw [if_neg empty]
    obtain ⟨restored,parsed,size,each⟩ :=
      parse_written fits.rows made.some_ extra input.listed input.stored fits.columns made.columns
    rw [← footer,← typed] at parsed
    have whole := parse_bytes made fits.rows lossless (fits.body sections made.columns) schema parsed
    refine ⟨_,whole,?_,fun row => getBit_replicate _ row,?_,?_⟩
    · unfold idsOf
      simp only
      split
      · rename_i implied
        rw [← made.count]
        exact (implied_ids (by have few := fits.rows; rw [made.count]; omega) implied).mpr fits.ids
      · rfl
    · intro i inside column bitmap columnAt nullsAt
      have there := List.getElem?_eq_getElem (show i < restored.length by omega)
      refine ⟨(restored[i]).1,(restored[i]).2,?_,?_,each i column bitmap _ columnAt nullsAt there⟩
      · rw [List.getElem?_map,List.getElem?_append_left (by omega),there]
        rfl
      · rw [List.getElem?_map,List.getElem?_append_left (by omega),there]
        rfl
    · intro i inside
      have there : (restored ++ extra.map (padded (input.stop - input.start)))[input.schemaCols.length + i]? =
        some (padded input.rows extra[i]) := by
        rw [List.getElem?_append_right (by omega),size,Nat.add_sub_cancel_left,List.getElem?_map,
          List.getElem?_eq_getElem inside]
        rfl
      refine ⟨_,_,?_,?_,fun row inside => shown_padded inside extra[i]⟩
      · rw [List.getElem?_map,there]
        rfl
      · rw [List.getElem?_map,there]
        rfl

private theorem parsed_ids {rgBuf : Bytes} {rgMeta : RowGroupMeta} {schema : List (String × ColumnType)}
    {entry : Option (List (Option ChunkedColumn))} {parsed : ParsedV4RowGroup}
    (ok : parseV4RowGroup codecs rgBuf rgMeta schema entry = .ok parsed) :
    parsed.ids.length = rgMeta.rowCount.toNat ∧ (rgMeta.rowCount.toNat ≠ 0 → rgBuf[30]?.getD rgIdsPlain =
      rgIdsImplicitContiguous →
      parsed.ids = (List.range rgMeta.rowCount.toNat).map fun offset => rgMeta.minId + UInt64.ofNat offset) := by
  unfold parseV4RowGroup at ok
  simp only at ok
  generalize (if 32 ≤ rgBuf.length then rgBuf[28]?.getD 0 else rgCompressNone) = flag at ok
  generalize (if 32 ≤ rgBuf.length then rgBuf[29]?.getD 0 else 0) = version at ok
  split at ok
  · rename_i none_
    cases ok
    exact ⟨none_.symm,fun some_ => absurd none_ some_⟩
  split at ok
  · cases ok
  split at ok
  · cases ok
  obtain ⟨body,_,ok⟩ := bind_eq_ok.mp ok
  split at ok
  · cases ok
  split at ok
  · cases ok
  obtain ⟨columns,_,ok⟩ := bind_eq_ok.mp ok
  cases ok
  refine ⟨?_,fun _ implied => if_pos implied⟩
  simp only
  split
  · rw [List.length_map,List.length_range]
  · rw [List.length_map,ofLeWords,List.length_map,List.length_range]

private theorem ids_of_roundTrips (trips : input.RoundTrips codecs options rgOffset)
    (ok : input.write codecs options rgOffset = .ok written)
    (some_ : input.start < input.stop) : input.rows < 2^32 ∧ IdsFit input.chunkIds options.implicitIdsOk := by
  rcases write_cases ok with ⟨none_,_,_⟩ | ⟨sections,made⟩
  · omega
  · obtain ⟨parsed,read,restored⟩ := trips written ok ((input.footerTypes written).map fun colType =>
      ("",colType)) [] (by simp)
    obtain ⟨length,implies⟩ := parsed_ids read
    have few : input.rows < 2^32 := by
      rw [restored.ids,made.count,made.rowCount] at length
      rw [length]
      exact UInt32.toNat_lt _
    have rows : written.rgMeta.rowCount.toNat = input.rows := by
      rw [made.rowCount]
      exact UInt32.toNat_ofNat_of_lt' few
    refine ⟨few,fun implied => ?_⟩
    have positive := made.some_
    have flag : written.bytes[30]? = some (rgIdEncodingFor input.chunkIds options.implicitIdsOk) := by
      rw [made.encoded.1]
      exact (header_flags _ _ _ _ _ _ _ _ _).2.2.2.2
    have ids := implies (by omega) (by rw [flag]; exact implied)
    rw [restored.ids,rows,made.minId,← made.count] at ids
    exact (implied_ids (by rw [made.count]; omega) implied).mp ids.symm implied

/-- A row group comes back when it fits. It does not come back when it has too many
rows, or ids that are implied past the greatest. -/
theorem row_group_round_trip (lossless : codecs.Lossless) (input : GroupInput) (options : GroupOptions)
    (rgOffset : UInt64) :
    (input.Fits codecs options → input.RoundTrips codecs options rgOffset) ∧
    (input.RoundTrips codecs options rgOffset → ∀ written, input.write codecs options rgOffset = .ok written →
      input.start < input.stop →
      input.rows < 2^32 ∧ IdsFit input.chunkIds options.implicitIdsOk) :=
  ⟨roundTrips_of_fits lossless,fun trips _ ok some_ => ids_of_roundTrips trips ok some_⟩

end RoundTrip

def storing : Codecs where
  zstdCompress := some
  zstdContentSize := fun _ => none
  zstdDecompress := fun bytes _ => .ok bytes
  zstdStream := .ok
  zstdInto := fun bytes _ => .ok bytes
  lz4Compress := fun bytes => leBytes 4 bytes.length ++ bytes
  lz4Decompress := fun bytes => .ok (bytes.drop 4)
  lz4Into := fun bytes _ => .ok bytes

theorem storing_lossless : storing.Lossless where
  zstdSized := fun _ _ same _ _ => by cases same; rfl
  zstdStreamed := fun _ _ same => by cases same; rfl
  zstdFilled := fun _ _ same => by cases same; rfl
  lz4Sized := fun bytes => congrArg Except.ok (List.drop_left' (length_leBytes 4 bytes.length))
  lz4Header := fun bytes => by simp [storing]
  lz4Filled := fun bytes => congrArg Except.ok (List.drop_left' (length_leBytes 4 bytes.length))

def sixteen (colType : ColumnType)
    (variant : (ColumnData.new (memType colType)).SameVariant (.int64 (List.replicate 16 7))) : GroupInput where
  schemaCols := [("t",colType)]
  ids := (List.range 16).map UInt64.ofNat
  columns := [.int64 (List.replicate 16 7)]
  nulls := [[]]
  start := 0
  stop := 16
  isFirstRg := true
  actualColTypes := []
  fresh := fun _ => rfl
  listed := nofun
  stored := by
    intro i type column typed there
    cases i with
    | zero =>
      cases typed
      cases there
      exact ⟨variant,by unfold Sound; decide,trivial⟩
    | succ i => cases there

def plainOptions : GroupOptions := ⟨.none,none,true,⟨false⟩,true⟩

theorem timestamps_come_back : (sixteen .timestamp trivial).RoundTrips storing plainOptions 0 := by
  refine (row_group_round_trip storing_lossless (sixteen .timestamp trivial) plainOptions 0).1 ⟨by decide, ?_, ?_, ?_⟩
  · intro _ first member
    cases member
    decide
  · intro sections _ frames
    simp [GroupInput.chunked, encodeRgBodyWithLayout, plainOptions] at frames
  · intro i schemaType colType column bitmap chunk schemaAt typeAt columnAt _ cut
    cases i with
    | zero =>
      cases schemaAt
      cases typeAt
      cases columnAt
      refine ⟨fun _ => ?_,?_,?_⟩
      · cases cut
        trivial
      all_goals
        intro other
        cases other
    | succ i => cases columnAt

def unreadable (input : GroupInput) (options : GroupOptions) : Bool :=
  match input.write storing options 0 with
  | .error _ => false
  | .ok written =>
    written.actualColTypes = input.schemaCols.map Prod.snd &&
    match parseV4RowGroup storing written.bytes written.rgMeta input.schemaCols (chunkEntry written.chunkTable) with
    | .error _ => true
    | .ok _ => false

private theorem timestampTz_unreadable : unreadable (sixteen .timestampTz trivial) plainOptions = true := by
  decide +kernel

/-- The run of one value is written for a type whose runs are not read. -/
theorem timestampTz_group_unreadable : storing.Lossless ∧
    ¬ (sixteen .timestampTz trivial).RoundTrips storing plainOptions 0 := by
  refine ⟨storing_lossless,fun trips => ?_⟩
  have unread := timestampTz_unreadable
  unfold unreadable at unread
  split at unread
  · cases unread
  · rename_i written ok
    rw [Bool.and_eq_true,decide_eq_true_eq] at unread
    have types : (sixteen .timestampTz trivial).footerTypes written =
      (sixteen .timestampTz trivial).schemaCols.map Prod.snd := by
      rw [GroupInput.footerTypes,unread.1,ite_self]
    obtain ⟨parsed,read,-⟩ := trips written ok (sixteen .timestampTz trivial).schemaCols []
      (by rw [types,List.append_nil])
    rw [read] at unread
    exact absurd unread.2 Bool.false_ne_true

end ApexBase.GroupFile
