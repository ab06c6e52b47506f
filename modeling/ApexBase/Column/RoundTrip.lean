import ApexBase.Column.Payload

/-! Encoded columns come back. The writer picks an encoding from the values, the reader dispatches
on the declared type, and the two agree except for the types that the reader's lists leave out. -/
namespace ApexBase.Column
open Data Library.Wire Library.Wire.Reader Library.RunLength ColumnData

/-- What was written is read back with the same rows and consumed exactly, and it is skipped
exactly, whatever bytes follow. -/
def RoundTrips (colType : ColumnType) (col : ColumnData) (options : ColumnEncodingOptions) : Prop :=
  ∀ bytes, writeColumnEncoded col colType options = .ok bytes → ∀ rest,
    (∃ col', readColumnEncoded (bytes ++ rest) colType = .ok (col',bytes.length) ∧ col'.rows = col.rows) ∧
    skipColumnEncoded (bytes ++ rest) colType = .ok bytes.length

def Restores (encoding : UInt8) (colType : ColumnType) (col : ColumnData) (payload : Bytes) : Prop :=
  ∀ rest, (∃ col', readPayload encoding colType (payload ++ rest) = .ok (col',payload.length) ∧ col'.rows = col.rows) ∧
    skipPayload encoding colType (payload ++ rest) = .ok payload.length

private theorem restores_iff {encoding : UInt8} {colType : ColumnType} {col : ColumnData} {payload : Bytes} :
    Restores encoding colType col payload ↔ ∀ rest,
      (∃ col', readColumnEncoded (encoding :: payload ++ rest) colType = .ok (col',(encoding :: payload).length) ∧
        col'.rows = col.rows) ∧
      skipColumnEncoded (encoding :: payload ++ rest) colType = .ok (encoding :: payload).length := by
  unfold Restores
  apply forall_congr'
  intro rest
  simp only [List.cons_append,readColumnEncoded,skipColumnEncoded,bind,Except.bind,pure,Except.pure,List.length_cons,
    Nat.add_comm 1]
  apply and_congr
  · apply exists_congr
    intro col'
    cases readPayload encoding colType (payload ++ rest) with
    | error error => simp
    | ok read => simp [Prod.ext_iff]
  · cases skipPayload encoding colType (payload ++ rest) with
    | error error => simp
    | ok consumed => simp

section
variable {colType : ColumnType} {col : ColumnData} {options : ColumnEncodingOptions}

private theorem roundTrips_of_write {encoding : UInt8} {payload : Bytes}
    (written : writeColumnEncoded col colType options = .ok (encoding :: payload)) :
    RoundTrips colType col options ↔ Restores encoding colType col payload := by
  rw [restores_iff]
  constructor
  · intro trips
    exact trips _ written
  · intro restores bytes other
    rw [written] at other
    cases other
    exact restores

private theorem roundTrips_of_error {fault : Fault} (failed : writeColumnEncoded col colType options = .error fault) :
    RoundTrips colType col options := by
  intro bytes written
  rw [failed] at written
  cases written

end

/-! The plain encoding. -/

theorem readPayload_plain (colType : ColumnType) (bytes : Bytes) :
    readPayload colEncodingPlain colType bytes = (fromBytesTyped colType).counted bytes := by
  simp [readPayload]

private theorem skipPayload_plain {colType : ColumnType} {payload : Bytes} (rest : Bytes)
    (skip : skipPos (payload ++ rest) colType = .ok payload.length) :
    skipPayload colEncodingPlain colType (payload ++ rest) = .ok payload.length := by
  have inside : ¬ payload.length > (payload ++ rest).length := by simp
  have dispatch : skipPayload colEncodingPlain colType (payload ++ rest) =
    skipBytesTyped (payload ++ rest) colType := by
    simp [skipPayload]
  rw [dispatch]
  simp only [skipBytesTyped,skip,bind,Except.bind,if_neg inside,pure,Except.pure]

private theorem restores_plain {colType : ColumnType} {col col' : ColumnData} {payload : Bytes}
    (read : Yields (fromBytesTyped colType) payload (.ok col')) (same : col'.rows = col.rows)
    (skip : ∀ rest, skipPos (payload ++ rest) colType = .ok payload.length) :
    Restores colEncodingPlain colType col payload := by
  intro rest
  rw [readPayload_plain,read.counted rest]
  exact ⟨⟨col',rfl,same⟩,skipPayload_plain rest (skip rest)⟩

private theorem skipU64_at {before : Bytes} {value pos : Nat} (position : before.length = pos) (small : value < 256^8)
    (rest : Bytes) :
    skipU64 (before ++ (leBytes 8 value ++ rest)) pos = .ok value := by
  have inside : ¬ pos + 8 > (before ++ (leBytes 8 value ++ rest)).length := by simp; omega
  rw [skipU64,if_neg inside,List.drop_left' position,List.take_left' (length_leBytes _ _),ofLe_leBytes_of_lt small]

private theorem skipU64_start {value : Nat} (small : value < 256^8) (rest : Bytes) :
    skipU64 (leBytes 8 value ++ rest) 0 = .ok value :=
  @skipU64_at [] value 0 rfl small rest

private theorem plain_bool (data : Bytes) (len : Nat) (sound : (ColumnData.bool data len).Sound) :
    ∃ payload, (ColumnData.bool data len).writeTo = .ok payload ∧
    Restores colEncodingPlain .bool (.bool data len) payload := by
  have small : len + 7 < 2^64 := sound
  -- The bytes that are written: those of the column, and zeros where it ends early.
  obtain ⟨body, body_⟩ : ∃ body, body = data.take (min ((len + 7) / 8) data.length) ++
      List.replicate ((len + 7) / 8 - data.length) 0 := ⟨_, rfl⟩
  have length : body.length = (len + 7) / 8 := by
    rw [body_, List.length_append, List.length_take, List.length_replicate]
    omega
  have same (row : Nat) (inside : row < 8 * ((len + 7) / 8)) : getBit body row = getBit data row := by
    rw [body_, getBit_append, getBit_replicate, List.length_take, Nat.min_assoc, Nat.min_self]
    split
    · rename_i within
      have window := getBit_window data 0 (min ((len + 7) / 8) data.length) row
      rw [List.drop_zero, Nat.mul_zero, Nat.zero_add, decide_eq_true within, Bool.true_and] at window
      exact window
    · have beyond : data.length ≤ row / 8 := by omega
      rw [getBit, List.getElem?_eq_none beyond]
      exact (Nat.zero_testBit _).symm
  have written : (ColumnData.bool data len).writeTo = .ok (leBytes 8 len ++ body) := by
    rw [body_, ← List.append_assoc]
    rfl
  refine ⟨_, written, restores_plain (yields_readBool body len length small) ?_ (fun rest => ?_)⟩
  · simp only [rows]
    apply List.map_congr_left
    intro row member
    have inside := List.mem_range.mp member
    rw [same row (by omega)]
  · rw [List.append_assoc]
    simp only [skipPos,skipU64_start (show len < 256^8 by omega),bind,Except.bind,pure,Except.pure,List.length_append,
      length_leBytes,length]

private theorem layout_int64 {colType : ColumnType} {values : List Int64}
    (variant : (ColumnData.new colType).SameVariant (.int64 values)) (notNull : colType ≠ .null) :
    fromBytesTyped colType = readInt64 ∧ ∀ bytes, skipPos bytes colType = skipPos bytes .int64 := by
  cases colType <;> first | exact ⟨rfl,fun _ => rfl⟩ | exact variant.elim | exact absurd rfl notNull

private theorem skipPos_words {count : Nat} (small : count * 8 < 2^63) (body rest : Bytes)
    (length : body.length = count * 8) :
    (do let count ← skipU64 (leBytes 8 count ++ body ++ rest) 0; pure (8 + count * 8) : Except IoError Nat) =
      .ok (leBytes 8 count ++ body).length := by
  rw [List.append_assoc]
  simp only [skipU64_start (show count < 256^8 by omega),bind,Except.bind,pure,Except.pure,List.length_append,
    length_leBytes,
    length]

private theorem plain_int64 {colType : ColumnType} (values : List Int64) (sound : (ColumnData.int64 values).Sound)
    (variant : (ColumnData.new colType).SameVariant (.int64 values)) (notNull : colType ≠ .null) :
    Restores colEncodingPlain colType (.int64 values)
      (leBytes 8 values.length ++ leWords 8 (values.map (·.toUInt64.toNat))) := by
  obtain ⟨reader,skipper⟩ := layout_int64 variant notNull
  refine restores_plain (reader ▸ yields_readInt64 values sound) rfl (fun rest => ?_)
  rw [skipper]
  exact skipPos_words sound _ rest (by simp)

private theorem plain_float64 {colType : ColumnType} (values : List UInt64) (sound : (ColumnData.float64 values).Sound)
    (variant : (ColumnData.new colType).SameVariant (.float64 values)) :
    Restores colEncodingPlain colType (.float64 values) (leBytes 8 values.length ++
      leWords 8 (values.map (·.toNat))) := by
  have layout : fromBytesTyped colType = readFloat64 ∧ ∀ bytes, skipPos bytes colType = skipPos bytes .float64 := by
    cases colType <;> first | exact ⟨rfl,fun _ => rfl⟩ | exact variant.elim
  refine restores_plain (layout.1 ▸ yields_readFloat64 values sound) rfl (fun rest => ?_)
  rw [layout.2]
  exact skipPos_words sound _ rest (by simp)

private theorem skipPos_offsets {offsets : List UInt64} {data : Bytes} (nonempty : offsets ≠ [])
    (smallOffsets : offsets.length * 8 < 2^63) (smallData : data.length < 2^63) (rest : Bytes) :
    skipPos ((leBytes 8 (offsets.length - 1) ++ (u32Bytes (offsetsToU32 offsets) ++ (leBytes 8 data.length ++ data))) ++
      rest)
      .string =
      .ok (leBytes 8 (offsets.length - 1) ++ (u32Bytes (offsetsToU32 offsets) ++
        (leBytes 8 data.length ++ data))).length := by
  have positive := List.length_pos_iff.mpr nonempty
  have tableLength : (u32Bytes (offsetsToU32 offsets)).length = (offsets.length - 1 + 1) * 4 := by
    rw [u32Bytes,length_leWords,List.length_map,offsetsToU32,List.length_map]
    omega
  have tableEnd : (leBytes 8 (offsets.length - 1) ++ u32Bytes (offsetsToU32 offsets)).length =
      8 + (offsets.length - 1 + 1) * 4 := by
    rw [List.length_append,length_leBytes,tableLength]
  have second := skipU64_at tableEnd (show data.length < 256^8 by omega) (data ++ rest)
  simp only [List.append_assoc] at second ⊢
  simp only [skipPos,skipU64_start (show offsets.length - 1 < 256^8 by omega),bind,Except.bind,pure,Except.pure,second,
    List.length_append,length_leBytes,tableLength]
  congr 1
  omega

private theorem fits_of_not_exceed {offsets : List UInt64}
    (fit : offsets.any (fun offset => offset.toNat > 2^32 - 1) = false) :
    ∀ offset ∈ offsets, offset.toNat ≤ 2^32 - 1 := by
  intro offset member
  have notLarge := List.any_eq_false.mp fit offset member
  simpa using notLarge

private theorem plain_string {colType : ColumnType} (offsets : List UInt64) (data : Bytes)
    (sound : (ColumnData.string offsets data).Sound) (fits : ∀ offset ∈ offsets, offset.toNat ≤ 2^32 - 1)
    (variant : (ColumnData.new colType).SameVariant (.string offsets data)) :
    Restores colEncodingPlain colType (.string offsets data)
      (leBytes 8 (offsets.length - 1) ++ (u32Bytes (offsetsToU32 offsets) ++ (leBytes 8 data.length ++ data))) := by
  obtain ⟨nonempty,smallOffsets,smallData⟩ := sound
  have layout : fromBytesTyped colType = readOffsets "String" .string ∧
      ∀ bytes, skipPos bytes colType = skipPos bytes .string := by
    cases colType <;> first | exact ⟨rfl,fun _ => rfl⟩ | exact variant.elim
  refine restores_plain (layout.1 ▸ yields_readOffsets _ _ _ _ nonempty smallOffsets smallData fits) rfl
    (fun rest => ?_)
  rw [layout.2]
  exact skipPos_offsets nonempty smallOffsets smallData rest

private theorem plain_binary {colType : ColumnType} (offsets : List UInt64) (data : Bytes)
    (sound : (ColumnData.binary offsets data).Sound) (fits : ∀ offset ∈ offsets, offset.toNat ≤ 2^32 - 1)
    (variant : (ColumnData.new colType).SameVariant (.binary offsets data)) :
    Restores colEncodingPlain colType (.binary offsets data)
      (leBytes 8 (offsets.length - 1) ++ (u32Bytes (offsetsToU32 offsets) ++ (leBytes 8 data.length ++ data))) := by
  obtain ⟨nonempty,smallOffsets,smallData⟩ := sound
  have layout : fromBytesTyped colType = readOffsets "Binary" .binary ∧
      ∀ bytes, skipPos bytes colType = skipPos bytes .string := by
    cases colType <;> first | exact ⟨rfl,fun _ => rfl⟩ | exact variant.elim
  refine restores_plain (layout.1 ▸ yields_readOffsets _ _ _ _ nonempty smallOffsets smallData fits) rfl
    (fun rest => ?_)
  rw [layout.2]
  exact skipPos_offsets nonempty smallOffsets smallData rest

private theorem plain_stringDict (indices : List UInt32) (dictOffsets : List UInt64) (dictData : Bytes)
    (sound : (ColumnData.stringDict indices dictOffsets dictData).Sound)
    (fits : ∀ offset ∈ dictOffsets, offset.toNat ≤ 2^32 - 1) :
    Restores colEncodingPlain .stringDict (.stringDict indices dictOffsets dictData)
      (leBytes 8 indices.length ++ (leBytes 8 dictOffsets.length ++ (u32Bytes indices ++
        (u32Bytes (offsetsToU32 dictOffsets) ++ (leBytes 8 dictData.length ++ dictData))))) := by
  obtain ⟨smallIndices,smallOffsets,smallData⟩ := sound
  refine restores_plain (yields_readStringDict _ _ _ smallIndices smallOffsets smallData fits) rfl (fun rest => ?_)
  have indexLength : (u32Bytes indices).length = indices.length * 4 := by simp [u32Bytes]
  have tableLength : (u32Bytes (offsetsToU32 dictOffsets)).length =
    dictOffsets.length * 4 := by simp [u32Bytes,offsetsToU32]
  have second := skipU64_at (length_leBytes 8 indices.length) (show dictOffsets.length < 256^8 by omega)
    (u32Bytes indices ++ (u32Bytes (offsetsToU32 dictOffsets) ++ (leBytes 8 dictData.length ++ (dictData ++ rest))))
  have tableEnd : (leBytes 8 indices.length ++ (leBytes 8 dictOffsets.length ++ (u32Bytes indices ++
      u32Bytes (offsetsToU32 dictOffsets)))).length = 16 + indices.length * 4 + dictOffsets.length * 4 := by
    simp only [List.length_append,length_leBytes,indexLength,tableLength]
    omega
  have third := skipU64_at tableEnd (show dictData.length < 256^8 by omega) (dictData ++ rest)
  simp only [List.append_assoc] at third ⊢
  simp only [skipPos,skipU64_start (show indices.length < 256^8 by omega),bind,Except.bind,pure,Except.pure,
    second,third,
    List.length_append,length_leBytes,indexLength,tableLength]
  congr 1
  omega

private theorem skipVectors_written (kind : String) {width : Nat → Except IoError Nat} {data : Bytes} {dim : UInt32}
    {count stride : Nat} (strided : width dim.toNat = .ok stride) (length : data.length = count * stride)
    (small : count < 2^63) (rest : Bytes) :
    skipVectors kind width ((leBytes 8 count ++ (leBytes 4 dim.toNat ++ data)) ++ rest) =
      .ok (leBytes 8 count ++ (leBytes 4 dim.toNat ++ data)).length := by
  have inside : ¬ 8 + 4 > (leBytes 8 count ++ (leBytes 4 dim.toNat ++ (data ++ rest))).length := by
    simp only [List.length_append,length_leBytes]
    omega
  simp only [List.append_assoc]
  simp only [skipVectors,skipU64_start (show count < 256^8 by omega),bind,Except.bind,pure,Except.pure]
  rw [if_neg inside,List.drop_left' (length_leBytes _ _),List.take_left' (length_leBytes _ _),
    ofLe_leBytes_of_lt (show dim.toNat < 256^4 from dim.toNat_lt),strided]
  simp only [List.length_append,length_leBytes,length]
  congr 1
  omega

private theorem plain_vectors {colType : ColumnType} {kind : String} {width : Nat → Except IoError Nat}
    {build : Bytes → UInt32 → ColumnData} (reader : fromBytesTyped colType = readVectors kind width build)
    (skipper : ∀ bytes, skipPos bytes colType = skipVectors kind width bytes) (data : Bytes) (dim : UInt32)
    {count stride : Nat} (strided : width dim.toNat = .ok stride) (length : data.length = count * stride)
    (small : count < 2^63) :
    Restores colEncodingPlain colType (build data dim) (leBytes 8 count ++ (leBytes 4 dim.toNat ++ data)) := by
  refine restores_plain (reader ▸ yields_readVectors kind width build data dim strided length small) rfl
    (fun rest => ?_)
  rw [skipper]
  exact skipVectors_written kind strided length small rest

private theorem countOf_spec {data : Bytes} {dim stride rows : Nat} (length : data.length = rows * (dim * stride))
    (positive : 0 < stride) : data.length = countOf data dim (dim * stride) * (dim * stride) ∧
      countOf data dim (dim * stride) ≤ data.length := by
  unfold countOf
  split
  · rename_i zero
    subst zero
    simp [length]
  · rename_i nonzero
    have width : 0 < dim * stride := Nat.mul_pos (Nat.pos_of_ne_zero nonzero) positive
    rw [length,Nat.mul_div_cancel _ width]
    exact ⟨rfl,Nat.le_mul_of_pos_right _ width⟩

/-! The other encodings, where the reader has their decoder. -/

section
variable {colType : ColumnType} {values : List Int64} {payload : Bytes} (decodes : decodesInt64 colType)
    (small : values.length * 8 < 2^63)
include decodes small

private theorem restores_rle (encoded : rleEncodeI64 values = .ok (some payload)) :
    Restores colEncodingRle colType (.int64 values) payload := by
  intro rest
  have read := yields_map ColumnData.int64 (rleEncodeI64_yields small encoded)
  refine ⟨⟨.int64 values,?_,rfl⟩,?_⟩
  · have dispatch : readPayload colEncodingRle colType (payload ++ rest) =
        (ColumnData.int64 <$> rleDecodeI64).counted (payload ++ rest) := by
      simp [readPayload,decodes,colEncodingRle,colEncodingPlain,colEncodingPlainF32]
    rw [dispatch,read.counted rest]
  · obtain ⟨_,_,length,_,shape⟩ := rleEncode_some encoded
    have fewer := length_runs values
    have long : ¬ (payload ++ rest).length < 16 := by rw [List.length_append,length]; omega
    have header : ((payload ++ rest).drop 8).take 8 = leBytes 8 (runs values).length := by
      rw [shape,List.append_assoc,List.drop_left' (length_leBytes _ _),List.append_assoc,
        List.take_left' (length_leBytes _ _)]
    have dispatch : skipPayload colEncodingRle colType (payload ++ rest) =
        .ok (16 + ofLe (((payload ++ rest).drop 8).take 8) * 12) := by
      simp only [skipPayload,if_neg long]
      rfl
    rw [dispatch,header,ofLe_leBytes_of_lt (by omega),length]

private theorem restores_bitpack (encoded : bitpackEncodeI64 values = some payload) :
    Restores colEncodingBitpack colType (.int64 values) payload := by
  intro rest
  have read := yields_map ColumnData.int64 (bitpackEncodeI64_yields small encoded)
  refine ⟨⟨.int64 values,?_,rfl⟩,?_⟩
  · have dispatch : readPayload colEncodingBitpack colType (payload ++ rest) =
        (ColumnData.int64 <$> bitpackDecodeI64).counted (payload ++ rest) := by
      simp [readPayload,decodes,colEncodingRle,colEncodingPlain,colEncodingPlainF32,colEncodingBitpack]
    rw [dispatch,read.counted rest]
  · obtain ⟨minVal,bitWidth,_,narrow,_,_,length,shape⟩ := bitpackEncodeI64_some encoded
    have long : ¬ (payload ++ rest).length < 17 := by rw [List.length_append,length]; omega
    have count : (payload ++ rest).take 8 = leBytes 8 values.length := by
      rw [shape,List.append_assoc,List.take_left' (length_leBytes _ _)]
    have width : ((payload ++ rest).drop 8).take 1 = leBytes 1 bitWidth := by
      rw [shape,List.append_assoc,List.drop_left' (length_leBytes _ _),List.append_assoc,
        List.take_left' (length_leBytes _ _)]
    have dispatch : skipPayload colEncodingBitpack colType (payload ++ rest) =
        .ok (17 + (ofLe ((payload ++ rest).take 8) * ofLe (((payload ++ rest).drop 8).take 1) + 7) / 8) := by
      simp only [skipPayload,if_neg long]
      rfl
    rw [dispatch,count,width,ofLe_leBytes_of_lt (by omega),ofLe_leBytes_of_lt (by omega),length]

end

private theorem restores_rleBool {data : Bytes} {len : Nat} {payload : Bytes} (small : len + 7 < 2^64)
    (encoded : rleEncodeBool data len = .ok (some payload)) :
    Restores colEncodingRleBool .bool (.bool data len) payload := by
  intro rest
  obtain ⟨data',read,agree⟩ := rleEncodeBool_yields small encoded
  refine ⟨⟨.bool data' len,?_,?_⟩,?_⟩
  · have dispatch : readPayload colEncodingRleBool .bool (payload ++ rest) =
      rleDecodeBool.counted (payload ++ rest) := by
      simp [readPayload,colEncodingRle,colEncodingPlain,colEncodingPlainF32,colEncodingBitpack,colEncodingRleBool]
    rw [dispatch,read.counted rest]
  · simp only [rows]
    apply List.map_congr_left
    intro row member
    rw [agree row (List.mem_range.mp member)]
  · obtain ⟨_, _, length, _, shape⟩ := rleEncode_some (rleEncodeBool_some encoded)
    have fewer := length_runs ((List.range len).map (getBit data))
    rw [List.length_map,List.length_range] at fewer
    have long : ¬ (payload ++ rest).length < 16 := by rw [List.length_append,length]; omega
    have header : ((payload ++ rest).drop 8).take 8 = leBytes 8 (runs ((List.range len).map (getBit data))).length := by
      rw [shape,List.append_assoc,List.drop_left' (length_leBytes _ _),List.append_assoc,
        List.take_left' (length_leBytes _ _)]
    have dispatch : skipPayload colEncodingRleBool .bool (payload ++ rest) =
        .ok (16 + ofLe (((payload ++ rest).drop 8).take 8) * 5) := by
      simp only [skipPayload,if_neg long]
      rfl
    rw [dispatch,header,ofLe_leBytes_of_lt (by omega),length]

private theorem restores_floatDictionary {colType : ColumnType} {values : List UInt64} {payload : Bytes}
    (floats : colType = .float64 ∨ colType = .float32) (small : values.length * 8 < 2^63)
    (encoded : dictionaryEncodeF64 values = some payload) :
    Restores colEncodingFloatDictionary colType (.float64 values) payload := by
  intro rest
  obtain ⟨view,read,decoded⟩ := dictionaryEncodeF64_yields small encoded
  have mapped := yields_map FloatDictView.decode read
  refine ⟨⟨.float64 values,?_,rfl⟩,?_⟩
  · have dispatch : readPayload colEncodingFloatDictionary colType (payload ++ rest) =
        (FloatDictView.decode <$> FloatDictView.parse).counted (payload ++ rest) := by
      rcases floats with rfl | rfl <;> rfl
    rw [dispatch,mapped.counted rest,decoded]
  · have dispatch : skipPayload colEncodingFloatDictionary colType (payload ++ rest) =
        (FloatDictView.parse.counted (payload ++ rest)).map Prod.snd := by
      rcases floats with rfl | rfl <;> rfl
    rw [dispatch,read.counted rest]
    rfl

section
variable {indexWidth : Nat} (width : indexWidth = 1 ∨ indexWidth = 2) {indices : List UInt32}
    {dictOffsets : List UInt64} {dictData : Bytes}
variable (narrow : ∀ index ∈ indices, index.toNat < 256^indexWidth)
    (sound : (ColumnData.stringDict indices dictOffsets dictData).Sound)
variable (fits : ∀ offset ∈ dictOffsets, offset.toNat ≤ 2^32 - 1)
include width narrow sound fits

theorem read_compact (rest : Bytes) :
    readPayload colEncodingCompactDictionary .stringDict (writeCompact indexWidth indices dictOffsets
      dictData ++ rest) =
      .ok (.stringDict indices dictOffsets dictData,(writeCompact indexWidth indices dictOffsets dictData).length) := by
  obtain ⟨view,read,decoded⟩ := writeCompact_yields width indices dictOffsets dictData narrow sound fits
  have counted := (yields_map StringDictView.decode read).counted rest
  rw [decoded] at counted
  exact counted

private theorem restores_compact :
    Restores colEncodingCompactDictionary .stringDict (.stringDict indices dictOffsets dictData)
      (writeCompact indexWidth indices dictOffsets dictData) := by
  intro rest
  obtain ⟨view,read,_⟩ := writeCompact_yields width indices dictOffsets dictData narrow sound fits
  refine ⟨⟨.stringDict indices dictOffsets dictData,read_compact width narrow sound fits rest,rfl⟩,?_⟩
  have counted := congrArg (fun outcome => outcome.map Prod.snd) (read.counted rest)
  exact counted

end

/-! The writer's choice for integer columns. -/

private theorem chooseInt64_some {values : List Int64} {encoding : UInt8} {payload : Bytes}
    (chosen : chooseInt64 values = .ok (some (encoding,payload))) :
    (encoding = colEncodingRle ∧ rleEncodeI64 values = .ok (some payload)) ∨
    (encoding = colEncodingBitpack ∧ bitpackEncodeI64 values = some payload) := by
  unfold chooseInt64 at chosen
  cases rle : rleEncodeI64 values with
  | error fault => simp [rle,bind,Except.bind] at chosen
  | ok found =>
    cases packed : bitpackEncodeI64 values with
    | none => cases found <;> simp_all [bind,Except.bind,pure,Except.pure]
    | some bpBytes =>
      cases found with
      | none => simp_all [bind,Except.bind,pure,Except.pure]
      | some rleBytes =>
        simp only [rle,packed,bind,Except.bind,pure,Except.pure] at chosen
        split at chosen
        · simp_all
        · simp_all

/-- Whenever the writer returns, neither integer encoding was worthwhile. -/
def Uncompressed (values : List Int64) : Prop :=
  ∀ found, rleEncodeI64 values = .ok found → found = none ∧ bitpackEncodeI64 values = none

private theorem chooseInt64_cases (values : List Int64) :
    (∃ fault, chooseInt64 values = .error fault ∧ ∀ found, rleEncodeI64 values ≠ .ok found) ∨
    (chooseInt64 values = .ok none ∧ rleEncodeI64 values = .ok none ∧ bitpackEncodeI64 values = none) ∨
    (∃ encoding payload, chooseInt64 values = .ok (some (encoding,payload)) ∧ ¬ Uncompressed values) := by
  unfold chooseInt64 Uncompressed
  cases rle : rleEncodeI64 values with
  | error fault => exact Or.inl ⟨fault,rfl,by simp⟩
  | ok found =>
    right
    cases packed : bitpackEncodeI64 values with
    | none =>
      cases found with
      | none => exact Or.inl ⟨rfl,rfl,rfl⟩
      | some rleBytes => exact Or.inr ⟨_,rleBytes,rfl,by simp⟩
    | some bpBytes =>
      right
      cases found with
      | none => exact ⟨_,bpBytes,rfl,by simp⟩
      | some rleBytes =>
        by_cases smaller : bpBytes.length < rleBytes.length
        · exact ⟨colEncodingBitpack,bpBytes,by simp [bind,Except.bind,smaller,pure,Except.pure],by simp⟩
        · exact ⟨colEncodingRle,rleBytes,by simp [bind,Except.bind,smaller,pure,Except.pure],by simp⟩

private theorem compressed_shape {values : List Int64} {encoding : UInt8} {payload : Bytes}
    (chosen : chooseInt64 values = .ok (some (encoding,payload))) :
    (encoding = colEncodingRle ∨ encoding = colEncodingBitpack) ∧
    ∃ body, payload = leBytes 8 values.length ++ body ∧ body.length < values.length * 8 := by
  rcases chooseInt64_some chosen with ⟨rfl,encoded⟩ | ⟨rfl,encoded⟩
  · obtain ⟨_,_,_,saves,shape⟩ := rleEncode_some encoded
    have length := congrArg List.length shape
    rw [List.length_append,length_leBytes] at length
    exact ⟨Or.inl rfl,_,shape,by omega⟩
  · obtain ⟨_,_,_,_,_,saves,total,shape⟩ := bitpackEncodeI64_some encoded
    have length := congrArg List.length shape
    rw [List.length_append,length_leBytes] at length
    exact ⟨Or.inr rfl,_,shape,by omega⟩

private theorem readPayload_undecoded {encoding : UInt8} {colType : ColumnType}
    (compressed : encoding = colEncodingRle ∨ encoding = colEncodingBitpack) (undecoded : decodesInt64 colType = false)
    (bytes : Bytes) : readPayload encoding colType bytes = (fromBytesTyped colType).counted bytes := by
  rcases compressed with rfl | rfl
  · simp [readPayload,undecoded,colEncodingRle,colEncodingPlain,colEncodingPlainF32]
  · simp [readPayload,undecoded,colEncodingRle,colEncodingPlain,colEncodingPlainF32,colEncodingBitpack]

private theorem readInt64_truncated {count : Nat} {body : Bytes} (small : count < 256^8)
    (short : body.length < count * 8) :
    ∃ error, readInt64.counted (leBytes 8 count ++ body) = .error error := by
  have header := yields_word (errData "ColumnData::from_bytes_typed: unexpected EOF reading u64") 8 count small body
  have noWords : words (errData "Int64 column data truncated") 8 count body =
    .error (errData "Int64 column data truncated") := by
    have few : ¬ count * 8 ≤ body.length := by omega
    simp only [words,Functor.map,StateT.map,take,if_neg few]
    rfl
  refine ⟨errData "Int64 column data truncated",?_⟩
  simp only [Except.map] at header
  simp only [counted,readInt64,readU64,bind,StateT.bind,header,Except.bind,noWords]
  rfl

private theorem not_restores_int64 {encoding : UInt8} {colType : ColumnType} {values : List Int64} {payload : Bytes}
    (small : values.length * 8 < 2^63) (undecoded : decodesInt64 colType = false)
    (reader : fromBytesTyped colType = readInt64)
    (chosen : chooseInt64 values = .ok (some (encoding,payload))) :
    ¬ Restores encoding colType (.int64 values) payload := by
  intro restores
  obtain ⟨compressed,body,rfl,short⟩ := compressed_shape chosen
  obtain ⟨⟨col',read,_⟩,_⟩ := restores []
  obtain ⟨error,failed⟩ := readInt64_truncated (show values.length < 256^8 by omega) short
  rw [List.append_nil,readPayload_undecoded compressed undecoded,reader,failed] at read
  cases read

private theorem readNull_counted {count : Nat} (small : count < 256^8) (body : Bytes) :
    readNull.counted (leBytes 8 count ++ body) =
      .ok (.int64 (List.replicate count 0),8 + body.length - (body.length - count * 8)) := by
  have header := yields_word (errData "ColumnData::from_bytes_typed: unexpected EOF reading u64") 8 count small body
  simp only [Except.map] at header
  simp [counted,readNull,readU64,bind,StateT.bind,header,Except.bind,Except.map]

private theorem not_restores_null {encoding : UInt8} {values : List Int64} {payload : Bytes}
    (small : values.length * 8 < 2^63) (chosen : chooseInt64 values = .ok (some (encoding,payload))) :
    ¬ Restores encoding .null (.int64 values) payload := by
  intro restores
  obtain ⟨compressed,body,rfl,short⟩ := compressed_shape chosen
  -- With a plain column's worth of bytes behind it, the padding is consumed from there.
  obtain ⟨⟨col',read,_⟩,_⟩ := restores (List.replicate (values.length * 8) 0)
  have counted := readNull_counted (show values.length < 256^8 by omega) (body ++ List.replicate (values.length * 8) 0)
  rw [readPayload_undecoded compressed rfl,List.append_assoc] at read
  change readNull.counted _ = _ at read
  rw [counted] at read
  simp only [Except.ok.injEq,Prod.mk.injEq,List.length_append,List.length_replicate,length_leBytes] at read
  omega

theorem read_null {values : List Int64} (small : values.length * 8 < 2^63) (rest : Bytes) :
    readPayload colEncodingPlain .null
    ((leBytes 8 values.length ++ leWords 8 (values.map (·.toUInt64.toNat))) ++ rest) =
    .ok (.int64 (List.replicate values.length 0),
      (leBytes 8 values.length ++ leWords 8 (values.map (·.toUInt64.toNat))).length) := by
  have count : (leWords 8 (values.map (·.toUInt64.toNat))).length = values.length * 8 := by simp
  rw [readPayload_plain,List.append_assoc]
  change readNull.counted _ = _
  rw [readNull_counted (by omega)]
  simp only [List.length_append,count,length_leBytes,Except.ok.injEq,Prod.mk.injEq,true_and]
  omega

private theorem restores_null_iff {values : List Int64} (small : values.length * 8 < 2^63) :
    Restores colEncodingPlain .null (.int64 values) (leBytes 8 values.length ++
      leWords 8 (values.map (·.toUInt64.toNat))) ↔
      ∀ value ∈ values, value = 0 := by
  have count : (leWords 8 (values.map (·.toUInt64.toNat))).length = values.length * 8 := by simp
  constructor
  · intro restores value member
    obtain ⟨⟨col',readBack,same⟩,_⟩ := restores []
    rw [read_null small [],Except.ok.injEq,Prod.mk.injEq] at readBack
    obtain ⟨rfl,_⟩ := readBack
    have pointwise : List.replicate values.length (0 : Int64) = values :=
      (List.map_inj_right (fun _ _ equal => by injection equal)).mp same
    rw [← pointwise] at member
    exact List.eq_of_mem_replicate member
  · intro zeros rest
    have same : values = List.replicate values.length 0 := List.eq_replicate_of_mem zeros
    exact ⟨⟨_,read_null small rest,congrArg (fun values => (ColumnData.int64 values).rows) same.symm⟩,
      skipPayload_plain rest (skipPos_words small _ rest count)⟩

/-! The law. -/

/-- When a column survives its encoding. The reader has no run-length and no bit-packing decoder for
three of the integer types, a `Null` column is read back as zeros, and the dimension 0 of an empty
TurboQuant column has no row width. -/
def Survives : ColumnType → ColumnData → Prop
  | .timestampTz,.int64 values | .time,.int64 values | .interval,.int64 values => Uncompressed values
  | .null,.int64 values => Uncompressed values ∧ ∀ found, rleEncodeI64 values = .ok found → ∀ value ∈ values, value = 0
  | .turboQuant2Vector,.quantizedList _ dim _ | .turboQuant3Vector,.quantizedList _ dim _
  | .turboQuant4Vector,.quantizedList _ dim _ => dim ≠ 0
  | _,_ => True

private theorem write_int64 (colType : ColumnType) (options : ColumnEncodingOptions) (values : List Int64) :
    writeColumnEncoded (.int64 values) colType options = (do
      match ← chooseInt64 values with
      | some (encoding,payload) => pure (encoding :: payload)
      | none => .ok (colEncodingPlain :: (leBytes 8 values.length ++ leWords 8 (values.map (·.toUInt64.toNat))))) := by
  simp only [writeColumnEncoded,offsetsExceedU32,writePlain,writeTo]
  rfl

theorem write_uncompressed {colType : ColumnType} {options : ColumnEncodingOptions} {values : List Int64}
    {bytes : Bytes} (uncompressed : Uncompressed values)
    (written : writeColumnEncoded (.int64 values) colType options = .ok bytes) :
    bytes = colEncodingPlain :: (leBytes 8 values.length ++ leWords 8 (values.map (·.toUInt64.toNat))) := by
  rw [write_int64] at written
  rcases chooseInt64_cases values with ⟨fault,chosen,_⟩ | ⟨chosen,_,_⟩ | ⟨encoding,payload,chosen,not⟩
  · rw [chosen] at written
    cases written
  · rw [chosen] at written
    exact (Except.ok.inj written).symm
  · exact absurd uncompressed not

private theorem int64_types {colType : ColumnType} {values : List Int64}
    (variant : (ColumnData.new colType).SameVariant (.int64 values)) :
    (decodesInt64 colType = true ∧ colType ≠ .null ∧ Survives colType (.int64 values)) ∨
    (decodesInt64 colType = false ∧ colType ≠ .null ∧ fromBytesTyped colType = readInt64 ∧
      (Survives colType (.int64 values) ↔ Uncompressed values)) ∨
    colType = .null := by
  cases colType <;> simp_all [ColumnData.new,SameVariant,decodesInt64,Survives,fromBytesTyped]

private theorem roundTrips_int64 {colType : ColumnType} (options : ColumnEncodingOptions) {values : List Int64}
    (sound : (ColumnData.int64 values).Sound) (variant : (ColumnData.new colType).SameVariant (.int64 values)) :
    RoundTrips colType (.int64 values) options ↔ Survives colType (.int64 values) := by
  rcases chooseInt64_cases values with ⟨fault,chosen,unwritten⟩ | ⟨chosen,noRuns,noPacking⟩ | ⟨encoding,payload,
    chosen,not⟩
  · -- The writer does not return.
    have vacuous : Uncompressed values := fun found written => absurd written (unwritten found)
    have failed : writeColumnEncoded (.int64 values) colType options = .error fault := by
      rw [write_int64,chosen]
      rfl
    refine iff_of_true (roundTrips_of_error failed) ?_
    rcases int64_types variant with ⟨_,_,survives⟩ | ⟨_,_,_,survives⟩ | rfl
    · exact survives
    · exact survives.mpr vacuous
    · exact ⟨vacuous,fun found written => absurd written (unwritten found)⟩
  · have uncompressed : Uncompressed values := by
      intro found written
      rw [noRuns] at written
      exact ⟨(Except.ok.inj written).symm,noPacking⟩
    have written : writeColumnEncoded (.int64 values) colType options =
        .ok (colEncodingPlain :: (leBytes 8 values.length ++ leWords 8 (values.map (·.toUInt64.toNat)))) := by
      rw [write_int64,chosen]
      rfl
    rw [roundTrips_of_write written]
    rcases int64_types variant with ⟨_,notNull,survives⟩ | ⟨_,notNull,_,survives⟩ | rfl
    · exact iff_of_true (plain_int64 values sound variant notNull) survives
    · exact iff_of_true (plain_int64 values sound variant notNull) (survives.mpr uncompressed)
    · rw [restores_null_iff sound]
      exact ⟨fun zeros => ⟨uncompressed,fun _ _ => zeros⟩,fun survives => survives.2 none noRuns⟩
  · have written : writeColumnEncoded (.int64 values) colType options = .ok (encoding :: payload) := by
      rw [write_int64,chosen]
      rfl
    rw [roundTrips_of_write written]
    rcases int64_types variant with ⟨decodes,_,survives⟩ | ⟨undecoded,_,reader,survives⟩ | rfl
    · refine iff_of_true ?_ survives
      rcases chooseInt64_some chosen with ⟨rfl,encoded⟩ | ⟨rfl,encoded⟩
      · exact restores_rle decodes sound encoded
      · exact restores_bitpack decodes sound encoded
    · exact iff_of_false (not_restores_int64 sound undecoded reader chosen) (fun kept => not (survives.mp kept))
    · exact iff_of_false (not_restores_null sound chosen) (fun kept => not kept.1)

private theorem roundTrips_bool (options : ColumnEncodingOptions) {data : Bytes} {len : Nat}
    (sound : (ColumnData.bool data len).Sound) : RoundTrips .bool (.bool data len) options := by
  obtain ⟨plain,plainWritten,restores⟩ := plain_bool data len sound
  have shape : writeColumnEncoded (.bool data len) .bool options = (rleEncodeBool data len >>= fun found =>
      found.elim (.ok (colEncodingPlain :: plain)) fun rleBytes => pure (colEncodingRleBool :: rleBytes)) := by
    simp only [writeColumnEncoded,offsetsExceedU32,writePlain,plainWritten]
    rcases rleEncodeBool data len with fault | _ | payload <;> rfl
  cases encoded : rleEncodeBool data len with
  | error fault =>
    have failed : writeColumnEncoded (.bool data len) .bool options = .error fault := by
      rw [shape,encoded]
      rfl
    exact roundTrips_of_error failed
  | ok found =>
    cases found with
    | none => exact (roundTrips_of_write (by rw [shape,encoded]; rfl)).mpr restores
    | some payload => exact (roundTrips_of_write (by rw [shape,encoded]; rfl)).mpr (restores_rleBool sound encoded)

private theorem roundTrips_float64 {colType : ColumnType} {options : ColumnEncodingOptions}
    (wide : options.narrowFloat32 = false) {values : List UInt64} (sound : (ColumnData.float64 values).Sound)
    (variant : (ColumnData.new colType).SameVariant (.float64 values)) :
    RoundTrips colType (.float64 values) options := by
  have noNarrow : narrowPayload options colType values = none := by simp [narrowPayload,wide]
  have floats : colType = .float64 ∨ colType = .float32 := by
    cases colType <;> simp_all [ColumnData.new,SameVariant]
  cases encoded : dictionaryEncodeF64 values with
  | some payload =>
    have written : writeColumnEncoded (.float64 values) colType options =
      .ok (colEncodingFloatDictionary :: payload) := by
      simp only [writeColumnEncoded,offsetsExceedU32,encoded]
      rfl
    exact (roundTrips_of_write written).mpr (restores_floatDictionary floats sound encoded)
  | none =>
    have written : writeColumnEncoded (.float64 values) colType options =
        .ok (colEncodingPlain :: (leBytes 8 values.length ++ leWords 8 (values.map (·.toNat)))) := by
      simp only [writeColumnEncoded,offsetsExceedU32,encoded,noNarrow]
      rfl
    exact (roundTrips_of_write written).mpr (plain_float64 values sound variant)

private theorem refused_or_fits (col : ColumnData) (colType : ColumnType) (options : ColumnEncodingOptions) :
    (∃ fault, writeColumnEncoded col colType options = .error fault) ∨ offsetsExceedU32 col = false := by
  by_cases exceed : offsetsExceedU32 col
  · exact Or.inl ⟨_,by simp only [writeColumnEncoded,if_pos exceed]; rfl⟩
  · exact Or.inr (by simpa using exceed)

section
variable {colType : ColumnType} (options : ColumnEncodingOptions) {offsets : List UInt64} {data : Bytes}

private theorem roundTrips_string (sound : (ColumnData.string offsets data).Sound)
    (variant : (ColumnData.new colType).SameVariant (.string offsets data)) :
    RoundTrips colType (.string offsets data) options := by
  rcases refused_or_fits (.string offsets data) colType options with ⟨fault,refused⟩ | fit
  · exact roundTrips_of_error refused
  · have written : writeColumnEncoded (.string offsets data) colType options = .ok (colEncodingPlain ::
        (leBytes 8 (offsets.length - 1) ++ (u32Bytes (offsetsToU32 offsets) ++ (leBytes 8 data.length ++ data)))) := by
      simp [writeColumnEncoded,fit,writePlain,writeTo]
    exact (roundTrips_of_write written).mpr (plain_string offsets data sound (fits_of_not_exceed fit) variant)

private theorem roundTrips_binary (sound : (ColumnData.binary offsets data).Sound)
    (variant : (ColumnData.new colType).SameVariant (.binary offsets data)) :
    RoundTrips colType (.binary offsets data) options := by
  rcases refused_or_fits (.binary offsets data) colType options with ⟨fault,refused⟩ | fit
  · exact roundTrips_of_error refused
  · have written : writeColumnEncoded (.binary offsets data) colType options = .ok (colEncodingPlain ::
        (leBytes 8 (offsets.length - 1) ++ (u32Bytes (offsetsToU32 offsets) ++ (leBytes 8 data.length ++ data)))) := by
      simp [writeColumnEncoded,fit,writePlain,writeTo]
    exact (roundTrips_of_write written).mpr (plain_binary offsets data sound (fits_of_not_exceed fit) variant)

end

theorem write_stringDict {colType : ColumnType} {options : ColumnEncodingOptions} {indices : List UInt32}
    {dictOffsets : List UInt64} {dictData bytes : Bytes}
    (written : writeColumnEncoded (.stringDict indices dictOffsets dictData) colType options = .ok bytes) :
    (∀ offset ∈ dictOffsets, offset.toNat ≤ 2^32 - 1) ∧
    ((∃ width, (width = 1 ∨ width = 2) ∧ (∀ index ∈ indices, index.toNat < 256^width) ∧
      bytes = colEncodingCompactDictionary :: writeCompact width indices dictOffsets dictData) ∨
    bytes = colEncodingPlain :: (leBytes 8 indices.length ++ (leBytes 8 dictOffsets.length ++ (u32Bytes indices ++
      (u32Bytes (offsetsToU32 dictOffsets) ++ (leBytes 8 dictData.length ++ dictData)))))) := by
  rcases refused_or_fits (.stringDict indices dictOffsets dictData) colType options with ⟨fault,refused⟩ | fit
  · rw [refused] at written
    cases written
  refine ⟨fits_of_not_exceed fit,?_⟩
  have bounded := le_maxIndex indices
  by_cases byte : (indices.max?.getD 0).toNat ≤ 255
  · simp only [writeColumnEncoded,fit,byte,if_true,Bool.false_eq_true,if_false,Except.ok.injEq] at written
    exact Or.inl ⟨1,Or.inl rfl,fun index member => by have := bounded index member; omega,written.symm⟩
  by_cases twoBytes : (indices.max?.getD 0).toNat ≤ 65535
  · simp only [writeColumnEncoded,fit,byte,twoBytes,if_true,Bool.false_eq_true,if_false,Except.ok.injEq] at written
    exact Or.inl ⟨2,Or.inr rfl,fun index member => by have := bounded index member; omega,written.symm⟩
  · simp only [writeColumnEncoded,fit,byte,twoBytes,writePlain,writeTo,Bool.false_eq_true,if_false,Except.ok.injEq,
      List.append_assoc] at written
    exact Or.inr written.symm

section
variable (options : ColumnEncodingOptions)

private theorem roundTrips_stringDict {indices : List UInt32} {dictOffsets : List UInt64}
    {dictData : Bytes} (sound : (ColumnData.stringDict indices dictOffsets dictData).Sound) :
    RoundTrips .stringDict (.stringDict indices dictOffsets dictData) options := by
  intro bytes written
  obtain ⟨fits,⟨width,widths,narrow,rfl⟩ | rfl⟩ := write_stringDict written
  · exact (roundTrips_of_write written).mpr (restores_compact widths narrow sound fits) _ written
  · exact (roundTrips_of_write written).mpr (plain_stringDict indices dictOffsets dictData sound fits) _ written

private theorem roundTrips_fixedList {data : Bytes} {dim : UInt32}
    (sound : (ColumnData.fixedList data dim).Sound) : RoundTrips .fixedList (.fixedList data dim) options := by
  obtain ⟨small,rows,length⟩ := sound
  obtain ⟨counted,bound⟩ := countOf_spec length (by decide)
  have reader : fromBytesTyped .fixedList = readVectors "FixedList" (fun dim => .ok (dim * 4)) .fixedList := rfl
  have written : writeColumnEncoded (.fixedList data dim) .fixedList options = .ok (colEncodingPlain ::
      (leBytes 8 (countOf data dim.toNat (dim.toNat * 4)) ++ (leBytes 4 dim.toNat ++ data))) := by
    simp [writeColumnEncoded,offsetsExceedU32,writePlain,writeTo]
  exact (roundTrips_of_write written).mpr (plain_vectors reader (fun _ => rfl) data dim rfl counted (by omega))

private theorem roundTrips_float16List {data : Bytes} {dim : UInt32}
    (sound : (ColumnData.float16List data dim).Sound) : RoundTrips .float16List (.float16List data dim) options := by
  obtain ⟨small,rows,length⟩ := sound
  obtain ⟨counted,bound⟩ := countOf_spec length (by decide)
  have reader : fromBytesTyped .float16List = readVectors "Float16List" (fun dim => .ok (dim * 2)) .float16List := rfl
  have written : writeColumnEncoded (.float16List data dim) .float16List options = .ok (colEncodingPlain ::
      (leBytes 8 (countOf data dim.toNat (dim.toNat * 2)) ++ (leBytes 4 dim.toNat ++ data))) := by
    simp [writeColumnEncoded,offsetsExceedU32,writePlain,writeTo]
  exact (roundTrips_of_write written).mpr (plain_vectors reader (fun _ => rfl) data dim rfl counted (by omega))

end

private theorem quantized_types {colType : ColumnType} {data : Bytes} {dim : UInt32} {codec : VectorCodec}
    (variant : (ColumnData.new colType).SameVariant (.quantizedList data dim codec)) :
    fromBytesTyped colType = readQuantized codec ∧ (∀ bytes, skipPos bytes colType = skipQuantized codec bytes) ∧
    (Survives colType (.quantizedList data dim codec) ↔ (codec.bits = 0 ∨ dim ≠ 0)) := by
  cases colType <;> simp_all only [ColumnData.new,SameVariant] <;>
    (subst variant; exact ⟨rfl,fun _ => rfl,by simp [Survives,VectorCodec.bits]⟩)

theorem rowWidth_cases (codec : VectorCodec) (dim : UInt32) :
    (∃ width, codec.rowWidth dim.toNat = .ok width ∧ (0 < width ∨ dim = 0) ∧ (codec.bits = 0 ∨ dim ≠ 0)) ∨
    (∃ error, codec.rowWidth dim.toNat = .error error ∧ dim = 0 ∧ ¬ (codec.bits = 0 ∨ dim ≠ 0)) := by
  by_cases zero : dim = 0
  · subst zero
    cases codec <;> first
      | exact Or.inl ⟨_,rfl,Or.inr rfl,Or.inl rfl⟩
      | exact Or.inr ⟨_,rfl,rfl,by simp [VectorCodec.bits]⟩
  · have positive : 0 < dim.toNat := Nat.pos_of_ne_zero (fun same => zero (UInt32.toNat_inj.mp same))
    have padded (bits : Nat) : (do pure (packedLen (← turboPaddedDim dim.toNat) bits + 4) : Except IoError Nat) =
        .ok (packedLen dim.toNat.nextPowerOfTwo bits + 4) := by
      simp [turboPaddedDim,Nat.ne_of_gt positive,bind,Except.bind,pure,Except.pure]
    left
    cases codec with
    | float32 => exact ⟨_,rfl,Or.inl (by omega),Or.inr zero⟩
    | float16 => exact ⟨_,rfl,Or.inl (by omega),Or.inr zero⟩
    | bfloat16 => exact ⟨_,rfl,Or.inl (by omega),Or.inr zero⟩
    | int8 => exact ⟨_,rfl,Or.inl (by omega),Or.inr zero⟩
    | uint8 => exact ⟨_,rfl,Or.inl (by omega),Or.inr zero⟩
    | bit1 => exact ⟨_,rfl,Or.inl (by omega),Or.inr zero⟩
    | turboQuant2 => exact ⟨_,padded 2,Or.inl (by omega),Or.inr zero⟩
    | turboQuant3 => exact ⟨_,padded 3,Or.inl (by omega),Or.inr zero⟩
    | turboQuant4 => exact ⟨_,padded 4,Or.inl (by omega),Or.inr zero⟩

private theorem write_quantized (colType : ColumnType) (options : ColumnEncodingOptions) (data : Bytes) (dim : UInt32)
    (codec : VectorCodec) {count : Nat}
    (counted : (if dim = 0 then pure 0 else (data.length / ·) <$> codec.rowWidth dim.toNat) =
      (.ok count : Except IoError Nat)) :
    writeColumnEncoded (.quantizedList data dim codec) colType options =
      .ok (colEncodingPlain :: (leBytes 8 count ++ (leBytes 4 dim.toNat ++ data))) := by
  have payload : (ColumnData.quantizedList data dim codec).writeTo =
    .ok (leBytes 8 count ++ (leBytes 4 dim.toNat ++ data)) := by
    by_cases zero : dim = 0
    · rw [if_pos zero] at counted
      cases counted
      simp [writeTo,zero,bind,Except.bind,pure,Except.pure]
    · rw [if_neg zero] at counted
      simp [writeTo,zero,counted,bind,Except.bind,pure,Except.pure]
  simp [writeColumnEncoded,offsetsExceedU32,writePlain,payload]

private theorem roundTrips_quantized {colType : ColumnType} (options : ColumnEncodingOptions) {data : Bytes}
    {dim : UInt32} {codec : VectorCodec} (sound : (ColumnData.quantizedList data dim codec).Sound)
    (variant : (ColumnData.new colType).SameVariant (.quantizedList data dim codec)) :
    RoundTrips colType (.quantizedList data dim codec) options ↔ Survives colType (.quantizedList data dim codec) := by
  obtain ⟨small,emptyAtZero,strided⟩ := sound
  obtain ⟨reader,skipper,survives⟩ := quantized_types variant
  rw [survives]
  rcases rowWidth_cases codec dim with ⟨width,known,positive,kept⟩ | ⟨error,unknown,rfl,lost⟩
  · refine iff_of_true ?_ kept
    obtain ⟨rows,length⟩ := strided width known
    have counted : ∃ count, (if dim = 0 then pure 0 else (data.length / ·) <$> codec.rowWidth dim.toNat) =
        (.ok count : Except IoError Nat) ∧ data.length = count * width ∧ count ≤ data.length := by
      by_cases zero : dim = 0
      · exact ⟨0,by rw [if_pos zero]; rfl,by simp [emptyAtZero zero],Nat.zero_le _⟩
      · have wide : 0 < width := positive.resolve_right zero
        refine ⟨data.length / width,by rw [if_neg zero,known]; rfl,?_,Nat.div_le_self _ _⟩
        rw [length,Nat.mul_div_cancel _ wide]
    obtain ⟨count,header,exact_,bound⟩ := counted
    refine (roundTrips_of_write (write_quantized colType options data dim codec header)).mpr ?_
    exact plain_vectors reader skipper data dim known exact_ (by omega)
  · refine iff_of_false ?_ lost
    rw [roundTrips_of_write (write_quantized colType options data 0 codec rfl),emptyAtZero rfl]
    intro restores
    obtain ⟨⟨col',read,_⟩,_⟩ := restores []
    rw [readPayload_plain,reader] at read
    have failed : (readQuantized codec).counted (leBytes 8 0 ++ (leBytes 4 (0 : UInt32).toNat ++ []) ++ []) =
      .error error := by
      have yields : Yields (readQuantized codec) (leBytes 8 0 ++ (leBytes 4 (0 : UInt32).toNat ++ []))
        (.error error) := by
        refine yields_then (yields_word _ 8 _ (by decide)) ?_
        refine yields_then (yields_word _ 4 _ (by decide)) ?_
        rw [unknown]
        exact fun rest => rfl
      rw [Reader.counted,yields []]
      rfl
    rw [failed] at read
    cases read

theorem roundTrips_iff {colType : ColumnType} {data : ColumnData} (variant : (ColumnData.new colType).SameVariant data)
    (sound : data.Sound) {options : ColumnEncodingOptions} (wide : options.narrowFloat32 = false) :
    RoundTrips colType data options ↔ Survives colType data := by
  cases data with
  | int64 values => exact roundTrips_int64 options sound variant
  | quantizedList data dim codec => exact roundTrips_quantized options sound variant
  | bool data len =>
    have type : colType = .bool := by cases colType <;> first | rfl | exact variant.elim
    subst type
    exact iff_of_true (roundTrips_bool options sound) trivial
  | float64 values =>
    have survives : Survives colType (.float64 values) := by cases colType <;> trivial
    exact iff_of_true (roundTrips_float64 wide sound variant) survives
  | string offsets data =>
    have survives : Survives colType (.string offsets data) := by cases colType <;> trivial
    exact iff_of_true (roundTrips_string options sound variant) survives
  | binary offsets data =>
    have survives : Survives colType (.binary offsets data) := by cases colType <;> trivial
    exact iff_of_true (roundTrips_binary options sound variant) survives
  | stringDict indices dictOffsets dictData =>
    have type : colType = .stringDict := by cases colType <;> first | rfl | exact variant.elim
    subst type
    exact iff_of_true (roundTrips_stringDict options sound) trivial
  | fixedList data dim =>
    have type : colType = .fixedList := by cases colType <;> first | rfl | exact variant.elim
    subst type
    exact iff_of_true (roundTrips_fixedList options sound) trivial
  | float16List data dim =>
    have type : colType = .float16List := by cases colType <;> first | rfl | exact variant.elim
    subst type
    exact iff_of_true (roundTrips_float16List options sound) trivial

/-- Every column that a table can hold comes back from its encoding if and only if it is not one of
the three kinds that `Survives` excludes. -/
theorem encoded_round_trips_iff_survives {colType : ColumnType} (col : TypedColumn colType)
    (options : ColumnEncodingOptions)
    (wide : options.narrowFloat32 = false) : RoundTrips colType col.data options ↔ Survives colType col.data :=
  roundTrips_iff col.variant col.sound wide

def steady (colType : ColumnType) (variant : (ColumnData.new colType).SameVariant (.int64 (List.replicate 16 7))) :
    TypedColumn colType :=
  ⟨.int64 (List.replicate 16 7),variant,by unfold Sound; decide⟩

theorem timestamps_round_trip : RoundTrips .timestamp (steady .timestamp trivial).data ⟨false⟩ :=
  (encoded_round_trips_iff_survives (steady .timestamp trivial) ⟨false⟩ rfl).mpr trivial

/-- The run-length payload of a `TimestampTz` column is read as plain. -/
theorem timestampTz_runs_unreadable : ¬ RoundTrips .timestampTz (steady .timestampTz trivial).data ⟨false⟩ := by
  intro trips
  have written : writeColumnEncoded (.int64 (List.replicate 16 7)) .timestampTz ⟨false⟩ =
      .ok (1 :: (leBytes 8 16 ++ leBytes 8 1 ++ leBytes 8 7 ++ leBytes 4 16)) := by
    decide +kernel
  obtain ⟨⟨col',read,_⟩,_⟩ := trips _ written []
  have failed : readColumnEncoded (1 :: (leBytes 8 16 ++ leBytes 8 1 ++ leBytes 8 7 ++ leBytes 4 16) ++ [])
    .timestampTz =
      .error (errData "Int64 column data truncated") := by
    decide +kernel
  rw [failed] at read
  cases read

end ApexBase.Column
