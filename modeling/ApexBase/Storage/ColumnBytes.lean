import ApexBase.Column.RowLists
import ApexBase.Storage.DeltaFile

/-! A column by its values and the same column in bytes: what is read from the bytes, a write
in place and the pushes of appended rows are those of the values. -/
namespace ApexBase.Storage
open Data Library Library.Wire
open Column (ColumnType VectorCodec Texts Stores)
open Column.ColumnData (Cell slice)

/-- A text is its bytes. No column holds an unsigned value. -/
def rowCell : Scalar → Cell
  | .null | .uint64 _ => .null
  | .bool value => .bool value
  | .int64 value => .int64 value
  | .float64 bits => .float64 bits
  | .utf8 text => .bytes (utf8 text)
  | .bytes value => .bytes value

inductive Represents : ColumnData → Column.ColumnData → Prop
  | bool (data : Bytes) (len : Nat) : Represents (.bool ((List.range len).map (getBit data))) (.bool data len)
  | int64 (values : List Int64) : Represents (.int64 values) (.int64 values)
  | float64 (values : List UInt64) : Represents (.float64 values) (.float64 values)
  | string {texts : List String} {offsets : List UInt64} {data : Bytes}
    (laid : Texts.of (texts.map utf8) = ⟨offsets,data⟩) :
      Represents (.string texts) (.string offsets data)
  | binary {values : List Bytes} {offsets : List UInt64} {data : Bytes} (laid : Texts.of values = ⟨offsets,data⟩) :
      Represents (.binary values) (.binary offsets data)
  | stringDict {indices : List UInt32} {dict : List String} {offsets : List UInt64} {data : Bytes}
      (laid : Texts.of (dict.map utf8) = ⟨offsets,data⟩) : Represents (.stringDict indices dict)
        (.stringDict indices offsets data)
  | fixedList {dim : UInt32} {rows : List Bytes} {data : Bytes} (stacked : Stacked data (dim.toNat * 4) rows) :
      Represents (.vectors .float32 dim rows) (.fixedList data dim)
  | float16List {dim : UInt32} {rows : List Bytes} {data : Bytes} (stacked : Stacked data (dim.toNat * 2) rows) :
      Represents (.vectors .float16 dim rows) (.float16List data dim)
  | quantizedList {codec : VectorCodec} {dim : UInt32} {rows : List Bytes} {data : Bytes}
    (unknown : dim = 0 → data = [] ∧ rows = [])
      (stacked : ∀ width, codec.rowWidth dim.toNat = .ok width → Stacked data width rows) :
      Represents (.vectors codec dim rows) (.quantizedList data dim codec)

theorem new_represents (type : ColumnType) : Represents (.new type) (.new type) := by
  have vectors (codec : VectorCodec) : Represents (.vectors codec 0 []) (.quantizedList [] 0 codec) :=
    .quantizedList (fun _ => ⟨rfl,rfl⟩) fun width _ => Stacked.nil width
  cases type with
  | bool => exact .bool [] 0
  | string | json => exact .string rfl
  | binary | blob | uuid | decimal128 | list | extension => exact .binary rfl
  | stringDict => exact .stringDict rfl
  | fixedList => exact .fixedList (Stacked.nil _)
  | float16List => exact .float16List (Stacked.nil _)
  | bfloat16List | int8Vector | uint8Vector | bit1Vector | turboQuant2Vector | turboQuant3Vector | turboQuant4Vector =>
    exact vectors _
  | float32 | float64 => exact .float64 []
  | _ => exact .int64 []

/-- The packed bytes of a Bool column. -/
def boolBytes : Column.ColumnData → Nat
  | .bool data _ => data.length
  | _ => 0

/-- A pending update is written into the bytes of its column; a text column is laid out anew.
Its offsets are in order, so that no slice of it panics. -/
def writeBytes (row : Nat) (value : Value) (packed : Column.ColumnData) : Column.ColumnData :=
  match value,packed with
  | .int64 value,.int64 values => .int64 (values.set row value)
  | .float64 bits,.float64 values => .float64 (values.set row bits)
  | .string value,.string offsets data =>
    let strings := (List.range (offsets.length - 1)).map fun i => if i = row then value
      else DeltaFile.fromUtf8Lossy (slice offsets data i)
    let laid := Texts.of (strings.map utf8)
    .string laid.offsets laid.data
  | .bool value,.bool data len => .bool (if row / 8 < data.length then assignBit data row value else data) len
  | _,packed => packed

/-- The values of an appended batch are pushed one after another. -/
def pushValues : ColumnData → Column.ColumnData → Option Column.ColumnData
  | .int64 values,packed => some (values.foldl (fun packed value => packed.pushI64 value) packed)
  | .float64 values,packed => some (values.foldl (fun packed value => packed.pushF64 value) packed)
  | .string values,packed => some (packed.extendStrings (values.map utf8))
  | .bool values,packed => packed.pushBools values
  | _,packed => some packed

section
variable {column : ColumnData} {packed : Column.ColumnData}

private theorem each_value {V : Type} (values : List V) (f : V → Cell) (g : Nat → Cell)
    (each : ∀ row (inside : row < values.length), g row = f values[row]) :
    values.map f = (List.range values.length).map g := by
  refine List.ext_getElem (by rw [List.length_map,List.length_map,List.length_range]) fun row inside _ => ?_
  rw [List.length_map] at inside
  rw [List.getElem_map,List.getElem_map,List.getElem_range,each row inside]

/-- Every row that is read from the bytes is the value of the row. -/
theorem rows_represented (represents : Represents column packed) (fits : packed.Fits) :
    packed.rows = (List.range column.length).map fun row => rowCell (column.value row) := by
  have vectors {codec : VectorCodec} {dim : UInt32} (rows : List Bytes) :
      rows.map Cell.bytes = (List.range rows.length).map fun row =>
        rowCell ((ColumnData.vectors codec dim rows).value row) :=
    each_value rows _ _ fun row inside => by simp [ColumnData.value,rowCell,List.getElem?_eq_getElem inside]
  cases represents with
  | bool data len =>
    rw [ColumnData.length,List.length_map,List.length_range,Column.ColumnData.rows]
    refine List.map_congr_left fun row member => ?_
    simp [ColumnData.value,rowCell,List.mem_range.mp member]
  | int64 values =>
    exact each_value values _ _ fun row inside => by simp [ColumnData.value,rowCell,List.getElem?_eq_getElem inside]
  | float64 values =>
    exact each_value values _ _ fun row inside => by simp [ColumnData.value,rowCell,List.getElem?_eq_getElem inside]
  | @string texts offsets data laid =>
    rw [(Stores.string laid).rows fits,List.map_map]
    exact each_value texts _ _ fun row inside => by simp [ColumnData.value,rowCell,List.getElem?_eq_getElem inside]
  | @binary values offsets data laid =>
    rw [(Stores.binary laid).rows fits]
    exact each_value values _ _ fun row inside => by simp [ColumnData.value,rowCell,List.getElem?_eq_getElem inside]
  | @stringDict indices dict offsets data laid =>
    rw [Texts.of_eq] at laid
    cases laid
    refine each_value indices _ _ fun row inside => ?_
    have long : (UInt64.ofNat 0 :: Column.endsFrom 0 (dict.map utf8)).length = dict.length + 1 := by
      rw [List.length_cons,Column.length_endsFrom,List.length_map]
    simp only [ColumnData.value,List.getD_eq_getElem?_getD,List.getElem?_eq_getElem inside,Option.getD_some,long]
    generalize indices[row] = index
    by_cases zero : index = 0
    · rw [if_pos (Or.inl zero),if_pos (by rw [zero]; rfl)]
      rfl
    · have counted : index.toNat ≠ 0 := fun none_ => zero (UInt32.toNat_inj.mp none_)
      rw [if_neg counted]
      cases there : dict[index.toNat - 1]? with
      | none =>
        have beyond := List.getElem?_eq_none_iff.mp there
        rw [if_pos (Or.inr (by omega))]
        rfl
      | some text =>
        obtain ⟨known,_⟩ := List.getElem?_eq_some_iff.mp there
        have entry : (dict.map utf8)[index.toNat - 1]? =
          some (utf8 text) := by rw [List.getElem?_map,there,Option.map_some]
        rw [if_neg (not_or.mpr ⟨zero,by omega⟩),Column.slice_texts (Nat.lt_trans fits.2.2 (by decide)) entry]
        rfl
  | fixedList stacked =>
    rw [(Stores.fixedList stacked).rows fits]
    exact vectors _
  | float16List stacked =>
    rw [(Stores.float16List stacked).rows fits]
    exact vectors _
  | quantizedList unknown stacked =>
    rw [(Stores.quantizedList unknown stacked).rows fits]
    exact vectors _

theorem write_represents (represents : Represents column packed) (fits : packed.Fits) (row : Nat) (value : Value) :
    Represents (MemTable.writeValue (boolBytes packed) column row value) (writeBytes row value packed) := by
  cases represents with
  | bool data len =>
    cases value with
    | bool value =>
      change Represents (.bool (if row / 8 < data.length then _ else _)) (.bool (if row / 8 < data.length then _
        else _) len)
      split
      · have same : ((List.range len).map (getBit data)).set row value =
          (List.range len).map (getBit (assignBit data row value)) := by
          refine List.ext_getElem (by rw [List.length_set,List.length_map,List.length_map]) fun index _ _ => ?_
          rw [List.getElem_set,List.getElem_map,List.getElem_map,List.getElem_range,getBit_assignBit]
          exact ite_congr (propext eq_comm) (fun _ => rfl) fun _ => rfl
        rw [same]
        exact .bool _ len
      · exact .bool data len
    | _ => exact .bool data len
  | @string texts offsets data laid =>
    cases value with
    | string value =>
      rw [Texts.of_eq] at laid
      cases laid
      have anew : ((List.range ((UInt64.ofNat 0 :: Column.endsFrom 0 (texts.map utf8)).length - 1)).map fun i =>
          if i = row then value
          else DeltaFile.fromUtf8Lossy (slice (UInt64.ofNat 0 :: Column.endsFrom 0 (texts.map utf8))
            (texts.map utf8).flatten i)) =
            texts.set row value := by
        rw [List.length_cons,Column.length_endsFrom,Nat.add_sub_cancel,List.length_map]
        refine List.ext_getElem (by rw [List.length_set,List.length_map,List.length_range]) fun index inside _ => ?_
        rw [List.length_map,List.length_range] at inside
        have entry : (texts.map utf8)[index]? =
          some (utf8 texts[index]) := by rw [List.getElem?_map,List.getElem?_eq_getElem inside,Option.map_some]
        rw [List.getElem_set,List.getElem_map,List.getElem_range,
          Column.slice_texts (Nat.lt_trans fits.2 (by decide)) entry,
          DeltaFile.lossy_utf8]
        exact ite_congr (propext eq_comm) (fun _ => rfl) fun _ => rfl
      unfold writeBytes
      dsimp only
      rw [anew]
      exact .string rfl
    | _ => exact .string laid
  | int64 values => cases value <;> exact .int64 _
  | float64 values => cases value <;> exact .float64 _
  | binary laid => cases value <;> exact .binary laid
  | stringDict laid => cases value <;> exact .stringDict laid
  | fixedList stacked => cases value <;> exact .fixedList stacked
  | float16List stacked => cases value <;> exact .float16List stacked
  | quantizedList unknown stacked => cases value <;> exact .quantizedList unknown stacked

private theorem foldl_snoc {V : Type} (build : List V → Column.ColumnData)
    {push : Column.ColumnData → V → Column.ColumnData}
    (each : ∀ before value, push (build before) value = build (before ++ [value])) (before values : List V) :
    values.foldl push (build before) = build (before ++ values) := by
  induction values generalizing before with
  | nil => rw [List.append_nil,List.foldl_nil]
  | cons value rest ih => rw [List.foldl_cons,each,ih,List.append_assoc,List.singleton_append]

private theorem pushBools_other (refused : ∀ value, packed.pushBool value = some packed) (values : List Bool) :
    packed.pushBools values = some packed := by
  induction values with
  | nil => rfl
  | cons value rest ih => rw [Column.ColumnData.pushBools,refused,Option.bind_some,ih]

/-- Values of another variant than the column's are ignored on both sides. -/
theorem append_represents {more : ColumnData} (represents : Represents column packed)
    (stores : ∃ cells, Stores packed cells) :
    ∃ next, pushValues more packed = some next ∧ Represents (column.append more) next ∧ ∃ cells, Stores next cells := by
  have ignored (same : pushValues more packed = some packed) (kept : column.append more = column) :
      ∃ next, pushValues more packed = some next ∧ Represents (column.append more) next ∧ ∃ cells, Stores next cells :=
    ⟨packed,same,kept.symm ▸ represents,stores⟩
  cases more with
  | int64 values =>
    cases represents with
    | int64 before => exact ⟨_,congrArg some (foldl_snoc .int64 (fun _ _ => rfl) before values),.int64 _,_,.int64 _⟩
    | _ => exact ignored (congrArg some (List.foldl_fixed' (fun _ => rfl) values)) rfl
  | float64 values =>
    cases represents with
    | float64 before =>
      exact ⟨_,congrArg some (foldl_snoc .float64 (fun _ _ => rfl) before values),.float64 _,_,.float64 _⟩
    | _ => exact ignored (congrArg some (List.foldl_fixed' (fun _ => rfl) values)) rfl
  | string values =>
    cases represents with
    | @string before offsets data laid =>
      let build (pieces : List Bytes) : Column.ColumnData := .string (Texts.of pieces).offsets (Texts.of pieces).data
      have pushed (pieces : List Bytes) (piece : Bytes) : (build pieces).pushString piece =
        build (pieces ++ [piece]) := by
        simp only [build,← Texts.of_foldl]
        rfl
      have all := @foldl_snoc _ build (fun packed piece => packed.pushString piece) pushed (before.map utf8)
        (values.map utf8)
      simp only [build,laid,← List.map_append] at all
      exact ⟨_,congrArg some all,.string rfl,_,.string rfl⟩
    | _ => exact ignored (congrArg some (List.foldl_fixed' (fun _ => rfl) _)) rfl
  | bool values =>
    cases represents with
    | bool data len =>
      obtain ⟨_,stores⟩ := stores
      cases stores with
      | bool packed =>
        obtain ⟨data',pushed,next⟩ := packed.pushAll values
        have represented := Represents.bool data' (len + values.length)
        rw [next.eq_bits,← packed.eq_bits] at represented
        exact ⟨_,pushed,represented,_,.bool next⟩
    | _ => exact ignored (pushBools_other (fun _ => rfl) values) rfl
  | binary | stringDict | vectors => exact ignored rfl (by cases column <;> rfl)

end

end ApexBase.Storage
