import ApexBase.Column.Limited
import ApexBase.Column.RoundTrip

/-! When the limited decode of a column is the beginning of the full one. -/
namespace ApexBase.Column
open Data Library.Wire Library.Wire.Reader ColumnData

/-! Shapes of what is read. -/

private theorem shaped_offsets (kind : String) {build : List UInt64 → Bytes → ColumnData}
    (shaped : ∀ offsets data, offsets ≠ [] → Shaped (build offsets data)) :
    Returns Shaped (readOffsets kind build) := by
  intro bytes column rest ok
  obtain ⟨count,_,_,ok⟩ := of_bind ok
  obtain ⟨words,_,read,ok⟩ := of_bind ok
  obtain ⟨_,_,_,ok⟩ := of_bind ok
  obtain ⟨data,_,_,ok⟩ := of_bind ok
  obtain ⟨_,rfl,_⟩ := map_take_eq_ok.mp read
  rw [of_pure ok]
  exact shaped _ _ (by simp [ofLeWords,List.range_succ])

private theorem shaped_vectors (kind : String) (width : Nat → Except IoError Nat) {build : Bytes → UInt32 → ColumnData}
    (shaped : ∀ data dim stride count, width dim.toNat = .ok stride → data.length = count * stride →
      Shaped (build data dim)) :
    Returns Shaped (readVectors kind width build) := by
  intro bytes column rest ok
  obtain ⟨count,_,_,ok⟩ := of_bind ok
  obtain ⟨dim,_,dimRead,ok⟩ := of_bind ok
  obtain ⟨stride,_,lifted,ok⟩ := of_bind ok
  obtain ⟨data,_,taken,ok⟩ := of_bind ok
  have small := of_word dimRead
  have exact_ : (UInt32.ofNat dim).toNat = dim := UInt32.toNat_ofNat_of_lt' small
  rw [of_pure ok]
  exact shaped _ _ stride count (by rw [exact_]; exact of_lift lifted) (of_take taken)

private theorem shaped_quantized (codec : VectorCodec) : Returns Shaped (readQuantized codec) :=
  shaped_vectors _ _ fun _ _ stride count width length => ⟨stride,width,count,length⟩

private theorem shaped_bool : Returns Shaped readBool := by
  intro bytes column rest ok
  obtain ⟨len,_,_,ok⟩ := of_bind ok
  obtain ⟨data,_,taken,ok⟩ := of_bind ok
  rw [of_pure ok]
  exact of_take taken

theorem shaped_typed (colType : ColumnType) : Returns Shaped (fromBytesTyped colType) := by
  have ints : Returns Shaped readInt64 := Returns.then fun _ => Returns.then fun _ => returns_pure trivial
  have floats : Returns Shaped readFloat64 := Returns.then fun _ => Returns.then fun _ => returns_pure trivial
  have strings : Returns Shaped (readOffsets "String" .string) := shaped_offsets _ fun _ _ some_ => some_
  have binaries : Returns Shaped (readOffsets "Binary" .binary) := shaped_offsets _ fun _ _ some_ => some_
  have dict : Returns Shaped readStringDict :=
    Returns.then fun _ => Returns.then fun _ => Returns.then fun _ => Returns.then fun _ => Returns.then fun _ =>
      Returns.then fun _ => returns_pure trivial
  have fixed : Returns Shaped (readVectors "FixedList" (fun dim => .ok (dim * 4)) .fixedList) :=
    shaped_vectors _ _ fun _ _ _ count width length => ⟨count,by cases width; exact length⟩
  have halves : Returns Shaped (readVectors "Float16List" (fun dim => .ok (dim * 2)) .float16List) :=
    shaped_vectors _ _ fun _ _ _ count width length => ⟨count,by cases width; exact length⟩
  cases colType with
  | null =>
    refine Returns.then fun count => ?_
    intro bytes column rest ok
    cases ok
    trivial
  | bool => exact shaped_bool
  | float32 => exact floats
  | float64 => exact floats
  | string => exact strings
  | json => exact strings
  | binary => exact binaries
  | blob => exact binaries
  | uuid => exact binaries
  | decimal128 => exact binaries
  | list => exact binaries
  | extension => exact binaries
  | stringDict => exact dict
  | fixedList => exact fixed
  | float16List => exact halves
  | bfloat16List => exact shaped_quantized _
  | int8Vector => exact shaped_quantized _
  | uint8Vector => exact shaped_quantized _
  | bit1Vector => exact shaped_quantized _
  | turboQuant2Vector => exact shaped_quantized _
  | turboQuant3Vector => exact shaped_quantized _
  | turboQuant4Vector => exact shaped_quantized _
  | _ => exact ints

private theorem length_fillRuns (runs : List (Nat × Nat)) (bitIdx : Nat) (data : Bytes) :
    (fillRuns runs bitIdx data).length = data.length := by
  have filled (start count : Nat) (data : Bytes) : ((List.range count).foldl (fun data j =>
    setBit data (start + j)) data).length = data.length := by
    refine List.foldlRecOn (motive := fun other : Bytes => other.length = data.length) _ _ rfl ?_
    intro other same j _
    rw [length_setBit,same]
  induction runs generalizing bitIdx data with
  | nil => rfl
  | cons run rest ih =>
    rw [fillRuns,ih]
    split
    · exact filled _ _ _
    · rfl

private theorem shaped_counted {reader : Reader IoError ColumnData} (returns : Returns Shaped reader) {bytes : Bytes}
    {column : ColumnData} {consumed : Nat} (ok : reader.counted bytes = .ok (column,consumed)) : Shaped column := by
  obtain ⟨⟨read,rest⟩,here,same⟩ := map_eq_ok.mp ok
  cases same
  exact returns _ _ _ here

private theorem shaped_payload {encoding : UInt8} {colType : ColumnType} {bytes : Bytes} {column : ColumnData}
    {consumed : Nat}
    (ok : readPayload encoding colType bytes = .ok (column,consumed)) : Shaped column := by
  have typed := shaped_typed colType
  have mapped {α : Type} {reader : Reader IoError α} {f : α → ColumnData} (shaped : ∀ value,
    Shaped (f value)) : Returns Shaped (f <$> reader) := by
    intro bytes column rest ok
    obtain ⟨value,after,_,same⟩ := of_bind (show (reader >>= fun value => pure (f value)) bytes =
      _ by rw [bind_pure_comp]; exact ok)
    cases same
    exact shaped value
  unfold readPayload at ok
  split at ok
  · exact shaped_counted typed ok
  split at ok
  · obtain ⟨floats,decoded,ok⟩ := bind_eq_ok.mp ok
    obtain ⟨length,_,ok⟩ := bind_eq_ok.mp ok
    cases ok
    obtain ⟨byteLen,_,same⟩ := bind_eq_ok.mp decoded
    cases same
    trivial
  split at ok
  · split at ok
    · exact shaped_counted (mapped (f := ColumnData.int64) fun _ => trivial) ok
    · exact shaped_counted typed ok
  split at ok
  · split at ok
    · exact shaped_counted (mapped (f := ColumnData.int64) fun _ => trivial) ok
    · exact shaped_counted typed ok
  split at ok
  · refine shaped_counted (Returns.then fun ⟨count,runs⟩ => returns_pure ?_) ok
    change (fillRuns _ _ _).length = _
    rw [length_fillRuns,List.length_replicate]
  split at ok
  · exact shaped_counted (mapped (f := StringDictView.decode) fun _ => trivial) ok
  split at ok
  · exact shaped_counted (mapped (f := FloatDictView.decode) fun _ => trivial) ok
  · exact shaped_counted typed ok

section Skip
variable {bytes rest : Bytes} {column : ColumnData}

private theorem skipU64_room {pos : Nat} (room : pos + 8 ≤ bytes.length) :
    skipU64 bytes pos = .ok (ofLe ((bytes.drop pos).take 8)) :=
  if_neg (Nat.not_lt.mpr room)

private theorem skip_of_pos {colType : ColumnType} {pos : Nat} (at_ : skipPos bytes colType = .ok pos)
    (inside : pos ≤ bytes.length) :
    skipBytesTyped bytes colType = .ok pos := by
  unfold skipBytesTyped
  rw [at_]
  exact if_neg (Nat.not_lt.mpr inside)

private theorem bool_ok (ok : readBool bytes = .ok (column,rest)) :
    8 + (ofLe (bytes.take 8) + 7) / 8 ≤ bytes.length ∧
    column = .bool ((bytes.drop 8).take ((ofLe (bytes.take 8) + 7) / 8)) (ofLe (bytes.take 8)) ∧
    rest = bytes.drop (8 + (ofLe (bytes.take 8) + 7) / 8) := by
  obtain ⟨len,_,header,ok⟩ := of_bind ok
  obtain ⟨enough,rfl,rfl⟩ := map_take_eq_ok.mp header
  obtain ⟨data,_,taken,ok⟩ := of_bind ok
  obtain ⟨room,rfl,rfl⟩ := take_eq_ok.mp taken
  cases ok
  rw [List.length_drop] at room
  exact ⟨by omega,rfl,List.drop_drop⟩

private theorem ofLeWords_window {width count many : Nat} (few : count ≤ many) (bytes : Bytes) :
    ofLeWords width count (bytes.take (many * width)) = ofLeWords width count bytes := by
  refine List.map_congr_left fun index member => ?_
  have inside := List.mem_range.mp member
  have room : index * width + width ≤ many * width := by
    calc index * width + width = (index + 1) * width := by ring
      _ ≤ many * width := Nat.mul_le_mul_right _ (by omega)
  unfold wordAt
  rw [List.drop_take,List.take_take,Nat.min_eq_left (by omega)]

private theorem take_ofLeWords (width count limit : Nat) (bytes : Bytes) :
    (ofLeWords width count bytes).take limit = ofLeWords width (min count limit) bytes := by
  unfold ofLeWords
  rw [← List.map_take,List.take_range,Nat.min_comm]

private theorem words_ok {short : IoError} {build : List Nat → ColumnData}
    (ok : (do
      let count ← readU64
      let values ← words short 8 count
      pure (build values) : Reader IoError ColumnData) bytes = .ok (column,rest)) :
    8 + ofLe (bytes.take 8) * 8 ≤ bytes.length ∧ column = build (ofLeWords 8 (ofLe (bytes.take 8)) (bytes.drop 8)) ∧
    rest = bytes.drop (8 + ofLe (bytes.take 8) * 8) := by
  obtain ⟨count,_,header,ok⟩ := of_bind ok
  obtain ⟨enough,rfl,rfl⟩ := map_take_eq_ok.mp header
  obtain ⟨values,_,taken,ok⟩ := of_bind ok
  obtain ⟨room,rfl,rfl⟩ := map_take_eq_ok.mp taken
  cases ok
  rw [List.length_drop] at room
  refine ⟨by omega,?_,List.drop_drop⟩
  rw [ofLeWords_window (Nat.le_refl _)]

private theorem offsets_ok {kind : String} {build : List UInt64 → Bytes → ColumnData}
    (ok : readOffsets kind build bytes = .ok (column,rest)) {count dataStart dataLen : Nat}
    (count_ : count = ofLe (bytes.take 8)) (start_ : dataStart = 8 + (count + 1) * 4 + 8)
    (len_ : dataLen = ofLe ((bytes.drop (8 + (count + 1) * 4)).take 8)) :
    dataStart + dataLen ≤ bytes.length ∧
    column = build ((ofLeWords 4 (count + 1) (bytes.drop 8)).map UInt64.ofNat) ((bytes.drop dataStart).take dataLen) ∧
    rest = bytes.drop (dataStart + dataLen) := by
  obtain ⟨_,_,header,ok⟩ := of_bind ok
  obtain ⟨enough,rfl,rfl⟩ := map_take_eq_ok.mp header
  obtain ⟨_,_,read,ok⟩ := of_bind ok
  obtain ⟨room,rfl,rfl⟩ := map_take_eq_ok.mp read
  obtain ⟨_,_,lenRead,ok⟩ := of_bind ok
  obtain ⟨lenRoom,rfl,rfl⟩ := map_take_eq_ok.mp lenRead
  obtain ⟨data,_,taken,ok⟩ := of_bind ok
  obtain ⟨dataRoom,rfl,rfl⟩ := take_eq_ok.mp taken
  cases ok
  subst count_ start_ len_
  simp only [List.length_drop,List.drop_drop] at room lenRoom dataRoom ⊢
  refine ⟨by omega,?_,trivial⟩
  rw [ofLeWords_window (Nat.le_refl _)]

private theorem dict_ok (ok : readStringDict bytes = .ok (column,rest))
    {rowCount dictSize dictOffStart lenOff dictDataLen : Nat} (rows_ : rowCount = ofLe (bytes.take 8))
    (size_ : dictSize = ofLe ((bytes.drop 8).take 8)) (start_ : dictOffStart = 16 + rowCount * 4)
    (lenOff_ : lenOff = dictOffStart + dictSize * 4) (len_ : dictDataLen = ofLe ((bytes.drop lenOff).take 8)) :
    lenOff + 8 + dictDataLen ≤ bytes.length ∧
    column = .stringDict ((ofLeWords 4 rowCount (bytes.drop 16)).map UInt32.ofNat)
      ((ofLeWords 4 dictSize (bytes.drop dictOffStart)).map UInt64.ofNat)
      ((bytes.drop (lenOff + 8)).take dictDataLen) ∧
    rest = bytes.drop (lenOff + 8 + dictDataLen) := by
  obtain ⟨_,_,header,ok⟩ := of_bind ok
  obtain ⟨enough,rfl,rfl⟩ := map_take_eq_ok.mp header
  obtain ⟨_,_,second,ok⟩ := of_bind ok
  obtain ⟨more,rfl,rfl⟩ := map_take_eq_ok.mp second
  obtain ⟨_,_,read,ok⟩ := of_bind ok
  obtain ⟨room,rfl,rfl⟩ := map_take_eq_ok.mp read
  obtain ⟨_,_,dictRead,ok⟩ := of_bind ok
  obtain ⟨dictRoom,rfl,rfl⟩ := map_take_eq_ok.mp dictRead
  obtain ⟨_,_,lenRead,ok⟩ := of_bind ok
  obtain ⟨lenRoom,rfl,rfl⟩ := map_take_eq_ok.mp lenRead
  obtain ⟨data,_,taken,ok⟩ := of_bind ok
  obtain ⟨dataRoom,rfl,rfl⟩ := take_eq_ok.mp taken
  cases ok
  subst rows_ size_ start_ lenOff_ len_
  simp only [List.length_drop,List.drop_drop,Nat.reduceAdd] at more room dictRoom lenRoom dataRoom ⊢
  refine ⟨by omega,?_,trivial⟩
  rw [ofLeWords_window (Nat.le_refl _),ofLeWords_window (Nat.le_refl _)]

private theorem skip_vectors {kind kind' : String} {width : Nat → Except IoError Nat}
    {build : Bytes → UInt32 → ColumnData}
    (ok : readVectors kind width build bytes = .ok (column,rest)) :
    ∃ pos, skipVectors kind' width bytes = .ok pos ∧ pos ≤ bytes.length ∧ rest = bytes.drop pos := by
  obtain ⟨_,_,header,ok⟩ := of_bind ok
  obtain ⟨enough,rfl,rfl⟩ := map_take_eq_ok.mp header
  obtain ⟨_,_,dimRead,ok⟩ := of_bind ok
  obtain ⟨room,rfl,rfl⟩ := map_take_eq_ok.mp dimRead
  obtain ⟨stride,_,lifted,ok⟩ := of_bind ok
  have width_ := of_lift lifted
  rw [width_] at lifted
  cases lifted
  obtain ⟨data,_,taken,ok⟩ := of_bind ok
  obtain ⟨dataRoom,rfl,rfl⟩ := take_eq_ok.mp taken
  cases ok
  simp only [List.length_drop,List.drop_drop] at room dataRoom ⊢
  refine ⟨8 + 4 + ofLe (bytes.take 8) * stride,?_,by omega,by rw [Nat.add_assoc]⟩
  unfold skipVectors
  rw [skipU64_room (by omega)]
  simp only [bind,Except.bind]
  rw [if_neg (by omega),width_]
  rfl

theorem skip_typed {colType : ColumnType} (other : colType ≠ .null)
    (ok : fromBytesTyped colType bytes = .ok (column,rest)) :
    ∃ pos, skipBytesTyped bytes colType = .ok pos ∧ pos ≤ bytes.length ∧ rest = bytes.drop pos := by
  have found {pos : Nat} (at_ : skipPos bytes colType = .ok pos) (inside : pos ≤ bytes.length) (same : rest =
    bytes.drop pos) :
      ∃ pos, skipBytesTyped bytes colType = .ok pos ∧ pos ≤ bytes.length ∧ rest = bytes.drop pos :=
    ⟨pos,skip_of_pos at_ inside,inside,same⟩
  have header {value : Nat} (room : value ≤ bytes.length) (long : 8 ≤ value) : skipU64 bytes 0 =
    .ok (ofLe (bytes.take 8)) := by
    have here : skipU64 bytes 0 = .ok (ofLe ((bytes.drop 0).take 8)) := skipU64_room (by omega)
    rwa [List.drop_zero] at here
  have words {short : IoError} {build : List Nat → ColumnData}
      (same : skipPos bytes colType = (do
        let count ← skipU64 bytes 0
        pure (8 + count * 8)))
      (ok : (do
        let count ← readU64
        let values ← Reader.words short 8 count
        pure (build values) : Reader IoError ColumnData) bytes = .ok (column,rest)) :
      ∃ pos, skipBytesTyped bytes colType = .ok pos ∧ pos ≤ bytes.length ∧ rest = bytes.drop pos := by
    obtain ⟨room,_,rest_⟩ := words_ok ok
    exact found (by rw [same,header room (by omega)]; rfl) room rest_
  have offsets {kind : String} {build : List UInt64 → Bytes → ColumnData}
      (same : skipPos bytes colType = (do
        let count ← skipU64 bytes 0
        let dataLen ← skipU64 bytes (8 + (count + 1) * 4)
        pure (8 + (count + 1) * 4 + 8 + dataLen)))
      (ok : readOffsets kind build bytes = .ok (column,rest)) :
      ∃ pos, skipBytesTyped bytes colType = .ok pos ∧ pos ≤ bytes.length ∧ rest = bytes.drop pos := by
    obtain ⟨room,_,rest_⟩ := offsets_ok ok rfl rfl rfl
    refine found ?_ room rest_
    rw [same,header room (by omega)]
    simp only [bind,Except.bind]
    rw [skipU64_room (by omega)]
    rfl
  have vectors {kind kind' : String} {width : Nat → Except IoError Nat} {build : Bytes → UInt32 → ColumnData}
      (same : skipPos bytes colType = skipVectors kind' width bytes) (ok : readVectors kind width build bytes =
        .ok (column,rest)) :
      ∃ pos, skipBytesTyped bytes colType = .ok pos ∧ pos ≤ bytes.length ∧ rest = bytes.drop pos := by
    obtain ⟨pos,at_,inside,rest_⟩ := skip_vectors ok
    exact found (same.trans at_) inside rest_
  have quantized {codec : VectorCodec} (same : skipPos bytes colType = skipQuantized codec bytes)
    (ok : readQuantized codec bytes = .ok (column,rest)) :
      ∃ pos, skipBytesTyped bytes colType = .ok pos ∧ pos ≤ bytes.length ∧ rest = bytes.drop pos := vectors same ok
  cases colType with
  | null => exact absurd rfl other
  | bool =>
    obtain ⟨room,_,rest_⟩ := bool_ok ok
    refine found ?_ room rest_
    unfold skipPos
    rw [header room (by omega)]
    rfl
  | float32 => exact words rfl ok
  | float64 => exact words rfl ok
  | string => exact offsets rfl ok
  | json => exact offsets rfl ok
  | binary => exact offsets rfl ok
  | blob => exact offsets rfl ok
  | uuid => exact offsets rfl ok
  | decimal128 => exact offsets rfl ok
  | list => exact offsets rfl ok
  | extension => exact offsets rfl ok
  | stringDict =>
    obtain ⟨room,_,rest_⟩ := dict_ok ok rfl rfl rfl rfl rfl
    refine found ?_ room rest_
    unfold skipPos
    rw [header room (by omega)]
    simp only [bind,Except.bind]
    rw [skipU64_room (by omega)]
    simp only
    rw [skipU64_room (by omega)]
    rfl
  | fixedList => exact vectors rfl ok
  | float16List => exact vectors rfl ok
  | bfloat16List => exact quantized rfl ok
  | int8Vector => exact quantized rfl ok
  | uint8Vector => exact quantized rfl ok
  | bit1Vector => exact quantized rfl ok
  | turboQuant2Vector => exact quantized rfl ok
  | turboQuant3Vector => exact quantized rfl ok
  | turboQuant4Vector => exact quantized rfl ok
  | _ => exact words rfl ok

end Skip

/-! What the limited decode is asked for. -/

def LimitedDecode (limit : Nat) (bytes : Bytes) (colType : ColumnType) (column : ColumnData) (consumed : Nat) : Prop :=
  ∃ cut, readColumnEncodedPartial limit bytes colType = some (.ok (cut,consumed)) ∧ cut.rows = column.rows.take limit ∧
    Proper cut

/-- The first texts are in order and end inside the data, or there is no text in them
and they lie inside the payload. -/
def CutsTexts (limit : Nat) (payload : Bytes) (offsets : List UInt64) (data : Bytes) : Prop :=
  let first := (offsets[0]?.getD 0).toNat
  let last := (offsets[min limit (offsets.length - 1)]?.getD 0).toNat
  InOrder (offsets.take (limit + 1)) ∧ (last ≤ data.length ∨
    (first = last ∧ 8 + offsets.length * 4 + 8 + last ≤ payload.length))

def CutsPlain (limit : Nat) (payload : Bytes) : ColumnType → ColumnData → Prop
  | .null,column => 8 + column.len * 8 ≤ payload.length
  | .bool,.bool data len => ∀ row ≥ min len limit, row < 8 * ((min len limit + 7) / 8) → getBit data row = false
  | .string,.string offsets data => CutsTexts limit payload offsets data
  | .json,.string offsets data => CutsTexts limit payload offsets data
  | _,column => Slices limit column

/-- Of the first values that are read as words, none has a bit beyond `bitWidth % 64` where the word has none.
A width below 64 leaves no such bit. -/
def CutsPacked (limit : Nat) (payload : Bytes) : Prop :=
  let count := ofLe (payload.take 8)
  let bitWidth := ofLe ((payload.drop 8).take 1)
  let packed := (payload.drop 17).take ((count * bitWidth + 7) / 8)
  ∀ i < min count limit, i < fastCount packed bitWidth → ∀ b < bitWidth, bitWidth % 64 ≤ b →
    getBit packed (i * bitWidth + b) = true →
    b % 64 < bitWidth % 64 ∧ getBit packed (i * bitWidth + b % 64) = true

def CutsWell (limit : Nat) (bytes : Bytes) (colType : ColumnType) (column : ColumnData) : Prop :=
  if bytes.head? = some colEncodingPlain then CutsPlain limit bytes.tail colType column
  else if bytes.head? = some colEncodingBitpack ∧ decodesInt64 colType then CutsPacked limit bytes.tail
  else Slices limit column

section Arms
variable {limit : Nat} {bytes : Bytes}

private theorem thenSlice_iff {column : ColumnData} {consumed : Nat} (shaped : Shaped column) :
    (∃ cut, thenSlice limit (.ok (column,consumed)) = some (.ok (cut,consumed)) ∧ cut.rows = column.rows.take limit ∧
      Proper cut) ↔
    Slices limit column := by
  rw [← sliceFirst_iff shaped]
  simp only [thenSlice]
  constructor
  · rintro ⟨cut,found,rest⟩
    obtain ⟨sliced,here,same⟩ := Option.map_eq_some_iff.mp found
    cases same
    exact ⟨_,here,rest⟩
  · rintro ⟨cut,found,rest⟩
    exact ⟨cut,by rw [found]; rfl,rest⟩

private theorem firstWords_ok {kind : String} {build : List Nat → ColumnData}
    (room : 8 + ofLe (bytes.take 8) * 8 ≤ bytes.length) :
    firstWords limit kind build bytes = .ok (build (ofLeWords 8 (min (ofLe (bytes.take 8)) limit) (bytes.drop 8))) := by
  unfold firstWords
  simp only
  rw [if_neg (by omega),if_neg (by omega)]

private theorem getBit_take (bytes : Bytes) (count row : Nat) :
    getBit (bytes.take count) row = (decide (row < 8 * count) && getBit bytes row) := by
  unfold getBit
  rw [List.getElem?_take]
  by_cases inside : row < 8 * count
  · rw [if_pos (by omega),decide_eq_true inside,Bool.true_and]
  · rw [if_neg (by omega),decide_eq_false inside]
    simp

private theorem firstBool_iff {consumed : Nat} (room : 8 + (ofLe (bytes.take 8) + 7) / 8 ≤ bytes.length) {data : Bytes}
    (data_ : data = (bytes.drop 8).take ((ofLe (bytes.take 8) + 7) / 8)) :
    (∃ cut, some ((firstBool limit bytes).map (·,consumed)) = some (.ok (cut,consumed)) ∧
      cut.rows = (ColumnData.bool data (ofLe (bytes.take 8))).rows.take limit ∧ Proper cut) ↔
    ∀ row ≥ min (ofLe (bytes.take 8)) limit, row < 8 * ((min (ofLe (bytes.take 8)) limit + 7) / 8) →
    getBit data row = false := by
  have fewer : min (ofLe (bytes.take 8)) limit ≤ ofLe (bytes.take 8) := Nat.min_le_left _ _
  have window : (bytes.drop 8).take ((min (ofLe (bytes.take 8)) limit + 7) / 8) =
    data.take ((min (ofLe (bytes.take 8)) limit + 7) / 8) := by
    have bytes_ : (min (ofLe (bytes.take 8)) limit + 7) / 8 ≤ (ofLe (bytes.take 8) + 7) / 8 := by omega
    rw [data_,List.take_take,Nat.min_eq_left bytes_]
  have read : firstBool limit bytes =
      .ok (.bool (data.take ((min (ofLe (bytes.take 8)) limit + 7) / 8)) (min (ofLe (bytes.take 8)) limit)) := by
    unfold firstBool
    simp only
    rw [if_neg (by omega),if_neg (by omega),window]
  have long : data.length = (ofLe (bytes.take 8) + 7) / 8 := by
    rw [data_,List.length_take,List.length_drop]
    omega
  rw [read]
  generalize ofLe (bytes.take 8) = len at fewer long
  have rows_ : (ColumnData.bool (data.take ((min len limit + 7) / 8)) (min len limit)).rows =
    (ColumnData.bool data len).rows.take limit := by
    rw [rows,rows,← List.map_take,List.take_range,Nat.min_comm limit]
    refine List.map_congr_left fun row member => ?_
    have inside := List.mem_range.mp member
    rw [getBit_take,decide_eq_true (by omega),Bool.true_and]
  constructor
  · rintro ⟨cut,same,_,proper⟩ row beyond inside
    cases same
    have clear := proper.2 row beyond
    rwa [getBit_take,decide_eq_true inside,Bool.true_and] at clear
  · intro clear
    refine ⟨_,rfl,rows_,?_,fun row beyond => ?_⟩
    · rw [List.length_take]
      omega
    · rw [getBit_take]
      by_cases inside : row < 8 * ((min len limit + 7) / 8)
      · rw [clear row beyond inside,Bool.and_false]
      · rw [decide_eq_false inside,Bool.false_and]

private theorem texts_eq {first second : List UInt64} {one two : Bytes} (length : first.length = second.length)
    (same : (ColumnData.string first one).rows = (ColumnData.string second two).rows) :
    (List.range (first.length - 1)).map (slice first one) = (List.range (second.length - 1)).map
      (slice second two) := by
  rw [rows,rows,length] at same
  rw [length]
  exact List.map_congr_left fun row member => Cell.bytes.inj (List.map_inj_left.mp same row member)

private theorem small_word (width index : Nat) (bytes : Bytes) : wordAt width bytes index < 256^width := by
  have bound := ofLe_lt ((bytes.drop (index * width)).take width)
  exact Nat.lt_of_lt_of_le bound (Nat.pow_le_pow_right (by decide) (List.length_take_le _ _))

private theorem texts_iff {offsets : List UInt64} {base last : UInt64} {text data : Bytes}
    (spans : Spans offsets base last) (order : base.toNat ≤ last.toNat) (inside : last.toNat ≤ text.length)
    {dataLen : Nat} (data_ : data = text.take dataLen) (fits : dataLen ≤ text.length) :
    ((ColumnData.string (offsets.map (· - base)) ((text.drop base.toNat).take (last.toNat - base.toNat))).rows =
      (ColumnData.string offsets data).rows ∧
      Laid (offsets.map (· - base)) ((text.drop base.toNat).take (last.toNat - base.toNat))) ↔
    InOrder offsets ∧ (last.toNat ≤ data.length ∨ base.toNat = last.toNat) := by
  have length : ((text.drop base.toNat).take (last.toNat - base.toNat)).length = last.toNat - base.toNat := by
    rw [List.length_take,List.length_drop]
    omega
  have long : data.length = dataLen := by
    rw [data_,List.length_take,Nat.min_eq_left fits]
  rw [laid_rebased spans order]
  constructor
  · rintro ⟨same,inOrder,_⟩
    refine ⟨inOrder,?_⟩
    have texts := texts_eq rfl ((rows_rebased spans inOrder rfl).symm.trans same)
    have flat := congrArg List.flatten texts
    rw [flatten_slices inOrder spans,flatten_slices inOrder spans] at flat
    have lengths := congrArg List.length flat
    rw [length,List.length_take,List.length_drop] at lengths
    omega
  · rintro ⟨inOrder,short⟩
    refine ⟨rows_rebased spans inOrder ?_,inOrder,length⟩
    rcases short with within | empty
    · rw [data_,List.drop_take,List.take_take,Nat.min_eq_left (by omega)]
    · rw [empty,Nat.sub_self,List.take_zero,List.take_zero]

private theorem firstString_iff {consumed count dataStart dataLen : Nat} (count_ : count = ofLe (bytes.take 8))
    (start_ : dataStart = 8 + (count + 1) * 4 + 8) (room : dataStart + dataLen ≤ bytes.length) {offsets : List UInt64}
    {data : Bytes} (offsets_ : offsets = (ofLeWords 4 (count + 1) (bytes.drop 8)).map UInt64.ofNat)
    (data_ : data = (bytes.drop dataStart).take dataLen) :
    (∃ cut, ((firstString limit bytes).map fun outcome => outcome.map (·,consumed)) = some (.ok (cut,consumed)) ∧
      cut.rows = (ColumnData.string offsets data).rows.take limit ∧ Proper cut) ↔
        CutsTexts limit bytes offsets data := by
  have many : offsets.length = count + 1 := by rw [offsets_,List.length_map,ofLeWords,List.length_map,List.length_range]
  have some_ : offsets ≠ [] := List.ne_nil_of_length_pos (by omega)
  have at_ {index : Nat} (inside : index ≤ count) : offsets[index]?.getD 0 =
    UInt64.ofNat (wordAt 4 (bytes.drop 8) index) := by
    rw [offsets_,List.getElem?_map,ofLeWords,List.getElem?_map,List.getElem?_range (by omega)]
    rfl
  have value {index : Nat} (inside : index ≤ count) : (offsets[index]?.getD 0).toNat =
    wordAt 4 (bytes.drop 8) index := by
    have small := small_word 4 index (bytes.drop 8)
    rw [at_ inside]
    exact UInt64.toNat_ofNat_of_lt' (show _ < 2^64 by omega)
  have diskAt {index actual : Nat} (inside : index ≤ actual) : (ofLeWords 4 (actual + 1) (bytes.drop 8))[index]?.getD
    0 = wordAt 4 (bytes.drop 8) index := by
    rw [ofLeWords,List.getElem?_map,List.getElem?_range (by omega)]
    rfl
  have first_ : (ofLeWords 4 (min count limit + 1) (bytes.drop 8)).map UInt64.ofNat = offsets.take (limit + 1) := by
    rw [offsets_,← List.map_take,take_ofLeWords]
    congr 2
    omega
  have spans := Spans.take offsets (min limit (offsets.length - 1)) (by omega)
  have taken : offsets.take (min limit (offsets.length - 1) + 1) = offsets.take (limit + 1) := by
    rw [List.take_eq_take_iff]
    omega
  have actual : min count limit = min limit (offsets.length - 1) := by omega
  rw [taken] at spans
  have text : data = (bytes.drop dataStart).take dataLen := data_
  have length : data.length = dataLen := by
    rw [data_,List.length_take,List.length_drop]
    omega
  -- The reader gets past every check up to the one that the text is inside the payload.
  have read : firstString limit bytes =
      if dataStart + (offsets[min limit (offsets.length - 1)]?.getD 0).toNat > bytes.length then
        some (.error (errData "partial String: data truncated"))
      else (between bytes (dataStart + (offsets[0]?.getD 0).toNat) (dataStart +
        (offsets[min limit (offsets.length - 1)]?.getD 0).toNat)).map fun data =>
        .ok (.string ((offsets.take (limit + 1)).map (· - offsets[0]?.getD 0)) data) := by
    unfold firstString
    simp only
    rw [← count_,if_neg (by omega),if_neg (by omega),if_neg (by omega),diskAt (Nat.zero_le _),diskAt (Nat.le_refl _),
      first_,← start_,
      ← actual,value (Nat.zero_le _),value (show min count limit ≤ count by omega),at_ (Nat.zero_le _)]
  have firstRows := rows_take offsets data limit some_
  unfold CutsTexts
  simp only
  generalize offsets[0]?.getD 0 = base at read spans ⊢
  generalize offsets[min limit (offsets.length - 1)]?.getD 0 = last at read spans ⊢
  have cuts (order : base.toNat ≤ last.toNat) (inside : dataStart + last.toNat ≤ bytes.length) :=
    @texts_iff (offsets.take (limit + 1)) base last (bytes.drop dataStart) data spans order
      (by rw [List.length_drop]; omega) dataLen data_
      (by rw [List.length_drop]; omega)
  rw [firstRows] at cuts
  rw [read]
  constructor
  · rintro ⟨cut,found,same,proper⟩
    split at found
    · cases found
    · rename_i inside
      obtain ⟨outcome,between_,same_⟩ := Option.map_eq_some_iff.mp found
      obtain ⟨newData,cut_,rfl⟩ := Option.map_eq_some_iff.mp between_
      cases same_
      obtain ⟨order,_,rfl⟩ := between_some cut_
      rw [← List.drop_drop,Nat.add_sub_add_left] at same proper
      obtain ⟨inOrder,short⟩ := (cuts (by omega) (by omega)).mp ⟨same,proper⟩
      exact ⟨inOrder,short.imp_right fun empty => ⟨empty,by omega⟩⟩
  · rintro ⟨inOrder,short⟩
    have order := (spans.bounds inOrder (List.mem_of_head? spans.first)).2
    have inside : dataStart + last.toNat ≤ bytes.length := by omega
    obtain ⟨same,laid⟩ := (cuts order inside).mpr ⟨inOrder,short.imp_right fun empty => empty.1⟩
    refine ⟨_,?_,same,laid⟩
    rw [if_neg (by omega),between,if_pos ⟨by omega,inside⟩,← List.drop_drop,Nat.add_sub_add_left]
    rfl

private theorem firstStringDict_ok {rowCount dictSize dictOffStart lenOff dictDataLen : Nat}
    (rows_ : rowCount = ofLe (bytes.take 8)) (size_ : dictSize = ofLe ((bytes.drop 8).take 8))
    (start_ : dictOffStart = 16 + rowCount * 4) (lenOff_ : lenOff = dictOffStart + dictSize * 4)
    (len_ : dictDataLen = ofLe ((bytes.drop lenOff).take 8)) (room : lenOff + 8 + dictDataLen ≤ bytes.length) :
    firstStringDict limit bytes =
    .ok (.stringDict (((ofLeWords 4 rowCount (bytes.drop 16)).map UInt32.ofNat).take limit)
      ((ofLeWords 4 dictSize (bytes.drop dictOffStart)).map UInt64.ofNat)
        ((bytes.drop (lenOff + 8)).take dictDataLen)) := by
  unfold firstStringDict
  simp only
  rw [← rows_,← size_,← start_,← lenOff_,← len_,if_neg (by omega),if_neg (by omega),if_neg (by omega),if_neg (by omega),
    if_neg (by omega),
    ← List.map_take,take_ofLeWords]

private theorem words_eq_bits_iff {packed : Bytes} {bitWidth i : Nat} :
    unpackWords packed bitWidth i = unpackBits packed bitWidth i ↔
      ∀ b < bitWidth, bitWidth % 64 ≤ b → getBit packed (i * bitWidth + b) = true →
        b % 64 < bitWidth % 64 ∧ getBit packed (i * bitWidth + b % 64) = true := by
  have words (b : Nat) : (unpackWords packed bitWidth i).testBit b = true ↔
      b < bitWidth % 64 ∧ getBit packed (i * bitWidth + b) = true := by
    rw [testBit_unpackWords, Bool.and_eq_true, decide_eq_true_iff]
  constructor
  · intro same b below _ one
    have there := (testBit_unpackBits_iff packed bitWidth i (b % 64)).mpr ⟨b, below, rfl, one⟩
    rw [← same, words] at there
    exact there
  · intro covered
    refine Nat.eq_of_testBit_eq fun place => ?_
    rw [Bool.eq_iff_iff, words, testBit_unpackBits_iff]
    constructor
    · rintro ⟨low, one⟩
      exact ⟨place, Nat.lt_of_lt_of_le low (Nat.mod_le _ _), Nat.mod_eq_of_lt (by omega), one⟩
    · rintro ⟨b, below, rfl, one⟩
      by_cases low : b < bitWidth % 64
      · rw [Nat.mod_eq_of_lt (by omega)]
        exact ⟨low, one⟩
      · exact covered b below (Nat.not_lt.mp low) one

private theorem unpackWords_lt (packed : Bytes) (bitWidth i : Nat) : unpackWords packed bitWidth i < 2^64 := by
  refine Nat.lt_pow_two_of_testBit _ fun b high => ?_
  rw [testBit_unpackWords, decide_eq_false (by omega), Bool.false_and]

private theorem unpackBits_lt (packed : Bytes) (bitWidth i : Nat) : unpackBits packed bitWidth i < 2^64 := by
  refine Nat.lt_pow_two_of_testBit _ fun b high => ?_
  rw [← Bool.not_eq_true, testBit_unpackBits_iff]
  rintro ⟨k, _, rfl, _⟩
  omega

private theorem delta_inj {a b : Nat} (aFits : a < 2^64) (bFits : b < 2^64) :
    (UInt64.ofNat a).toInt64 = (UInt64.ofNat b).toInt64 ↔ a = b := by
  constructor
  · intro same
    have words := congrArg (fun value => value.toUInt64.toNat) same
    simpa [UInt64.toNat_ofNat_of_lt' aFits, UInt64.toNat_ofNat_of_lt' bFits] using words
  · exact fun same => congrArg (fun value => (UInt64.ofNat value).toInt64) same

section
variable {rest : Bytes} {data : List Int64} (ok : bitpackDecodeI64 bytes = .ok (data,rest))
include ok

private theorem bitpack_ok {count bitWidth packedBytes : Nat} (count_ : count = ofLe (bytes.take 8))
    (width_ : bitWidth = ofLe ((bytes.drop 8).take 1)) (packed_ : packedBytes = (count * bitWidth + 7) / 8) :
    17 + packedBytes ≤ bytes.length ∧
    data = bitpackFill ((bytes.drop 17).take packedBytes) count bitWidth
      (UInt64.ofNat (ofLe ((bytes.drop 9).take 8))).toInt64 ∧
    rest = bytes.drop (17 + packedBytes) := by
  obtain ⟨_,_,header,ok⟩ := of_bind ok
  obtain ⟨enough,rfl,rfl⟩ := map_take_eq_ok.mp header
  obtain ⟨_,_,widthRead,ok⟩ := of_bind ok
  obtain ⟨more,rfl,rfl⟩ := map_take_eq_ok.mp widthRead
  obtain ⟨_,_,minRead,ok⟩ := of_bind ok
  obtain ⟨minRoom,rfl,rfl⟩ := map_take_eq_ok.mp minRead
  obtain ⟨packed,_,taken,ok⟩ := of_bind ok
  obtain ⟨room,rfl,rfl⟩ := take_eq_ok.mp taken
  cases ok
  subst count_ width_ packed_
  simp only [List.length_drop,List.drop_drop,Nat.reduceAdd] at more minRoom room ⊢
  exact ⟨by omega,trivial,trivial⟩

private theorem firstPacked_ok :
    ∃ first, firstPacked limit bytes = (.int64 first, 1 + (bytes.length - rest.length)) ∧
      (first = data.take limit ↔ CutsPacked limit bytes) := by
  obtain ⟨room, filled, rest_⟩ := bitpack_ok ok rfl rfl rfl
  have used : bytes.length - rest.length = 17 + (ofLe (bytes.take 8) * ofLe ((bytes.drop 8).take 1) + 7) / 8 := by
    rw [rest_, List.length_drop]
    omega
  unfold firstPacked CutsPacked
  simp only
  rw [used, filled]
  generalize (UInt64.ofNat (ofLe ((bytes.drop 9).take 8))).toInt64 = minVal
  generalize ofLe (bytes.take 8) = count at *
  generalize ofLe ((bytes.drop 8).take 1) = bitWidth at *
  rw [if_pos room, Nat.add_assoc 1]
  refine ⟨_, rfl, ?_⟩
  generalize (bytes.drop 17).take ((count * bitWidth + 7) / 8) = packed
  unfold bitpackFill
  by_cases zero : bitWidth = 0
  · subst zero
    rw [if_pos rfl, if_pos (Or.inl rfl), List.take_replicate, Nat.min_comm]
    exact ⟨fun _ _ _ _ b below => absurd below (Nat.not_lt_zero b), fun _ => rfl⟩
  rw [if_neg zero]
  by_cases none_ : count = 0
  · subst none_
    rw [if_pos (Or.inr rfl), Nat.zero_min]
    simp
  rw [if_neg (by omega), ← List.map_take, List.take_range, Nat.min_comm limit, List.map_inj_left]
  refine forall_congr' fun i => ?_
  rw [List.mem_range, ← words_eq_bits_iff]
  refine imp_congr_right fun inside => ?_
  by_cases fast : i < fastCount packed bitWidth
  · rw [if_pos (by omega), Int64.add_right_inj, delta_inj (unpackBits_lt _ _ _) (unpackWords_lt _ _ _)]
    exact ⟨fun same _ => same.symm, fun same => (same fast).symm⟩
  · rw [if_neg (by omega)]
    exact ⟨fun _ reached => absurd reached fast, fun _ => rfl⟩

end

end Arms

section Decode
variable {limit : Nat} {bytes : Bytes} {colType : ColumnType} {column : ColumnData} {consumed : Nat}

private theorem counted_ok {reader : Reader IoError ColumnData} (ok : reader.counted bytes = .ok (column,consumed)) :
    ∃ rest, reader bytes = .ok (column,rest) ∧ consumed = bytes.length - rest.length := by
  obtain ⟨⟨read,rest⟩,here,same⟩ := map_eq_ok.mp ok
  cases same
  exact ⟨rest,here,rfl⟩

private theorem direct_iff {found : ColumnData}
    (arm : readColumnEncodedPartial limit bytes colType = some (.ok (found,consumed)))
    (same : found.rows = column.rows.take limit) : LimitedDecode limit bytes colType column consumed ↔
    Proper found := by
  unfold LimitedDecode
  rw [arm]
  constructor
  · rintro ⟨cut,equal,_,proper⟩
    cases equal
    exact proper
  · exact fun proper => ⟨found,rfl,same,proper⟩

private theorem partial_plain (limit : Nat) {dataBytes : Bytes} {skipped : Nat}
    (at_ : skipBytesTyped dataBytes colType = .ok skipped) :
    readColumnEncodedPartial limit (colEncodingPlain :: dataBytes) colType =
    firstPlain limit colType dataBytes skipped := by
  unfold readColumnEncodedPartial
  simp only
  rw [if_neg (fun packed => absurd packed.1 (by decide)),if_neg (fun other => other rfl),at_]

private theorem null_iff {dataBytes rest : Bytes} (ok : readNull dataBytes = .ok (column,rest)) :
    LimitedDecode limit (colEncodingPlain :: dataBytes) .null column (1 + (dataBytes.length - rest.length)) ↔
    CutsPlain limit dataBytes .null column := by
  have read := ok
  obtain ⟨_,_,header,ok⟩ := of_bind ok
  obtain ⟨enough,rfl,rfl⟩ := map_take_eq_ok.mp header
  cases ok
  have len : (ColumnData.int64 (List.replicate (ofLe (dataBytes.take 8)) 0)).len = ofLe (dataBytes.take 8) :=
    List.length_replicate
  have pos : skipPos dataBytes .null = .ok (8 + ofLe (dataBytes.take 8) * 8) := by
    have here := skipU64_room (by omega)
    rw [List.drop_zero] at here
    unfold skipPos
    rw [here]
    rfl
  simp only [CutsPlain,len]
  by_cases room : 8 + ofLe (dataBytes.take 8) * 8 ≤ dataBytes.length
  · have arm : firstPlain limit .null dataBytes (8 + ofLe (dataBytes.take 8) * 8) = thenSlice limit
        (.ok (.int64 (List.replicate (ofLe (dataBytes.take 8)) 0),
          1 + (dataBytes.length - ((dataBytes.drop 8).drop (ofLe (dataBytes.take 8) * 8)).length))) := by
      unfold firstPlain Reader.counted
      change thenSlice limit (((readNull dataBytes).map _).map _) = _
      rw [read]
      rfl
    unfold LimitedDecode
    rw [partial_plain _ (skip_of_pos pos room),arm,
      thenSlice_iff (show Shaped (.int64 (List.replicate (ofLe (dataBytes.take 8)) 0)) from trivial)]
    exact ⟨fun _ => room,fun _ => trivial⟩
  · refine ⟨?_,fun inside => absurd inside room⟩
    rintro ⟨cut,found,_⟩
    unfold readColumnEncodedPartial at found
    simp only at found
    rw [if_neg (fun packed => absurd packed.1 (by decide)),if_neg (fun other => other rfl)] at found
    unfold skipBytesTyped at found
    rw [pos] at found
    simp only [bind,Except.bind] at found
    rw [if_pos (by omega)] at found
    cases found

private theorem plain_iff {dataBytes : Bytes} {used : Nat}
    (ok : (fromBytesTyped colType).counted dataBytes = .ok (column,used)) :
    LimitedDecode limit (colEncodingPlain :: dataBytes) colType column (1 + used) ↔
    CutsPlain limit dataBytes colType column := by
  obtain ⟨rest,read,rfl⟩ := counted_ok ok
  by_cases null : colType = .null
  · subst null
    exact null_iff read
  obtain ⟨pos,skipped,inside,rest_⟩ := skip_typed null read
  have used : dataBytes.length - rest.length = pos := by
    rw [rest_,List.length_drop]
    omega
  rw [used] at ok ⊢
  have shaped := shaped_typed colType dataBytes column rest read
  have start := partial_plain limit skipped
  have integers (arm : firstPlain limit colType dataBytes pos = some ((firstWords limit "Int64"
        (fun values => .int64 (values.map fun value => (UInt64.ofNat value).toInt64)) dataBytes).map (·,1 + pos)))
      (read : readInt64 dataBytes = .ok (column,rest)) (whole : ∀ values,
        CutsPlain limit dataBytes colType (.int64 values)) :
      LimitedDecode limit (colEncodingPlain :: dataBytes) colType column (1 + pos) ↔
      CutsPlain limit dataBytes colType column := by
    obtain ⟨room,rfl,_⟩ := words_ok read
    rw [firstWords_ok room] at arm
    rw [direct_iff (start.trans arm) (by simp only [rows]; rw [← List.map_take,← List.map_take,take_ofLeWords])]
    exact ⟨fun _ => whole _,fun _ => trivial⟩
  have floats (arm : firstPlain limit colType dataBytes pos = some ((firstWords limit "Float64"
        (fun values => .float64 (values.map UInt64.ofNat)) dataBytes).map (·,1 + pos)))
      (read : readFloat64 dataBytes = .ok (column,rest)) (whole : ∀ values,
        CutsPlain limit dataBytes colType (.float64 values)) :
      LimitedDecode limit (colEncodingPlain :: dataBytes) colType column (1 + pos) ↔
      CutsPlain limit dataBytes colType column := by
    obtain ⟨room,rfl,_⟩ := words_ok read
    rw [firstWords_ok room] at arm
    rw [direct_iff (start.trans arm) (by simp only [rows]; rw [← List.map_take,← List.map_take,take_ofLeWords])]
    exact ⟨fun _ => whole _,fun _ => trivial⟩
  have strings (arm : firstPlain limit colType dataBytes pos = (firstString limit dataBytes).map fun outcome =>
    outcome.map (·,1 + pos))
      (read : readOffsets "String" .string dataBytes = .ok (column,rest))
      (whole : ∀ offsets data, CutsPlain limit dataBytes colType (.string offsets data) ↔
        CutsTexts limit dataBytes offsets data) :
      LimitedDecode limit (colEncodingPlain :: dataBytes) colType column (1 + pos) ↔
      CutsPlain limit dataBytes colType column := by
    obtain ⟨room,rfl,_⟩ := offsets_ok read rfl rfl rfl
    unfold LimitedDecode
    rw [start,arm,whole]
    exact firstString_iff rfl rfl room rfl rfl
  have sliced (arm : firstPlain limit colType dataBytes pos =
    thenSlice limit (((fromBytesTyped colType).counted dataBytes).map fun read => (read.1,1 + read.2)))
      (whole : CutsPlain limit dataBytes colType column ↔ Slices limit column) :
      LimitedDecode limit (colEncodingPlain :: dataBytes) colType column (1 + pos) ↔
      CutsPlain limit dataBytes colType column := by
    unfold LimitedDecode
    rw [start,arm,ok,whole]
    exact thenSlice_iff shaped
  cases colType with
  | null => exact absurd rfl null
  | bool =>
    obtain ⟨room,rfl,_⟩ := bool_ok read
    unfold LimitedDecode
    rw [start]
    exact firstBool_iff room rfl
  | int8 => exact integers rfl read fun _ => trivial
  | int16 => exact integers rfl read fun _ => trivial
  | int32 => exact integers rfl read fun _ => trivial
  | int64 => exact integers rfl read fun _ => trivial
  | uint8 => exact integers rfl read fun _ => trivial
  | uint16 => exact integers rfl read fun _ => trivial
  | uint32 => exact integers rfl read fun _ => trivial
  | uint64 => exact integers rfl read fun _ => trivial
  | timestamp => exact integers rfl read fun _ => trivial
  | date => exact integers rfl read fun _ => trivial
  | float32 => exact floats rfl read fun _ => trivial
  | float64 => exact floats rfl read fun _ => trivial
  | string => exact strings rfl read fun _ _ => Iff.rfl
  | json => exact strings rfl read fun _ _ => Iff.rfl
  | stringDict =>
    obtain ⟨room,rfl,_⟩ := dict_ok read rfl rfl rfl rfl rfl
    have arm : firstPlain limit .stringDict dataBytes pos = some ((firstStringDict limit dataBytes).map (·,1 + pos)) :=
      rfl
    rw [firstStringDict_ok rfl rfl rfl rfl rfl room] at arm
    rw [direct_iff (start.trans arm) (by simp only [rows]; rw [List.map_take])]
    exact Iff.rfl
  | _ => exact sliced rfl Iff.rfl

end Decode

/-! Eight rows of a Bool column, of which three are read. -/

def eightBools (flags : UInt8) : Bytes := [0,8,0,0,0,0,0,0,0,flags]

end ApexBase.Column
