import ApexBase.Column.RoundTrip
import ApexBase.Column.SliceRows
import ApexBase.Library.Guarded

/-! Reading a column of a row group back, where only the rows that are not NULL count and a
dictionary is decoded. -/
namespace ApexBase.Column
open Data Library Library.Wire Library.Wire.Reader ColumnData

def Plain (column : ColumnData) : Prop := ∀ indices dictOffsets dictData, column ≠
    .stringDict indices dictOffsets dictData

theorem Plain.decode {column : ColumnData} (plain : Plain column) : column.decodeStringDict = column := by
  cases column with
  | stringDict indices dictOffsets dictData => exact absurd rfl (plain indices dictOffsets dictData)
  | _ => rfl

private theorem plain_offsets (kind : String) {build : List UInt64 → Bytes → ColumnData}
    (plain : ∀ offsets data, Plain (build offsets data)) :
    Returns Plain (readOffsets kind build) :=
  Returns.then fun _ => Returns.then fun _ => Returns.then fun _ => Returns.then fun _ => returns_pure (plain _ _)

private theorem plain_readVectors (kind : String) (width : Nat → Except IoError Nat)
    {build : Bytes → UInt32 → ColumnData}
    (plain : ∀ data dim, Plain (build data dim)) : Returns Plain (readVectors kind width build) :=
  Returns.then fun _ => Returns.then fun _ => Returns.then fun _ => Returns.then fun _ => returns_pure (plain _ _)

private theorem plain_quantized (codec : VectorCodec) : Returns Plain (readQuantized codec) :=
  plain_readVectors _ _ fun _ _ _ _ _ same => nomatch same

private theorem plain_null : Returns Plain readNull := by
  refine Returns.then fun count => ?_
  intro bytes column rest ok
  cases ok
  exact fun _ _ _ same => nomatch same

private theorem plain_typed {colType : ColumnType} (other : colType ≠ .stringDict) :
    Returns Plain (fromBytesTyped colType) := by
  have ints : Returns Plain readInt64 := Returns.then fun _ => Returns.then fun _ => returns_pure nofun
  have floats : Returns Plain readFloat64 := Returns.then fun _ => Returns.then fun _ => returns_pure nofun
  have strings : Returns Plain (readOffsets "String" .string) := plain_offsets _ nofun
  have binaries : Returns Plain (readOffsets "Binary" .binary) := plain_offsets _ nofun
  cases colType with
  | null => exact plain_null
  | bool => exact Returns.then fun _ => Returns.then fun _ => returns_pure nofun
  | float32 => exact floats
  | float64 => exact floats
  | string => exact strings
  | json => exact strings
  | binary => exact binaries
  | blob => exact binaries
  | uuid => exact binaries
  | decimal128 => exact binaries
  | list => exact binaries
  | extension => exact binaries
  | stringDict => exact absurd rfl other
  | fixedList => exact plain_readVectors _ _ fun _ _ _ _ _ same => nomatch same
  | float16List => exact plain_readVectors _ _ fun _ _ _ _ _ same => nomatch same
  | bfloat16List => exact plain_quantized _
  | int8Vector => exact plain_quantized _
  | uint8Vector => exact plain_quantized _
  | bit1Vector => exact plain_quantized _
  | turboQuant2Vector => exact plain_quantized _
  | turboQuant3Vector => exact plain_quantized _
  | turboQuant4Vector => exact plain_quantized _
  | _ => exact ints

private theorem plain_counted {reader : Reader IoError ColumnData} (returns : Returns Plain reader) {bytes : Bytes}
    {column : ColumnData} {consumed : Nat} (ok : reader.counted bytes = .ok (column,consumed)) : Plain column := by
  obtain ⟨⟨read,rest⟩,here,same⟩ := map_eq_ok.mp ok
  cases same
  exact returns _ _ _ here

private theorem plain_payload {encoding : UInt8} {colType : ColumnType} (other : colType ≠ .stringDict) {bytes : Bytes}
    {column : ColumnData} {consumed : Nat}
    (ok : readPayload encoding colType bytes = .ok (column,consumed)) : Plain column := by
  have typed := plain_typed other
  have mapped {α : Type} {reader : Reader IoError α} {f : α → ColumnData} (plain : ∀ value,
    Plain (f value)) : Returns Plain (f <$> reader) := by
    intro bytes column rest ok
    obtain ⟨value,after,_,same⟩ := of_bind (show (reader >>= fun value => pure (f value)) bytes =
      _ by rw [bind_pure_comp]; exact ok)
    cases same
    exact plain value
  unfold readPayload at ok
  split at ok
  · exact plain_counted typed ok
  split at ok
  · obtain ⟨floats,decoded,ok⟩ := bind_eq_ok.mp ok
    obtain ⟨length,_,ok⟩ := bind_eq_ok.mp ok
    cases ok
    obtain ⟨byteLen,_,same⟩ := bind_eq_ok.mp decoded
    cases same
    nofun
  split at ok
  · split at ok
    · exact plain_counted (mapped nofun) ok
    · exact plain_counted typed ok
  split at ok
  · split at ok
    · exact plain_counted (mapped nofun) ok
    · exact plain_counted typed ok
  split at ok
  · exact plain_counted (Returns.then fun ⟨_,_⟩ => returns_pure fun _ _ _ same => nomatch same) ok
  split at ok
  · rename_i dict
    exact absurd dict.2 other
  split at ok
  · exact plain_counted (mapped nofun) ok
  · exact plain_counted typed ok

/-- A column that comes back in every row that is not NULL: it survives its encoding, the values of
a `Null` column are zeros, and floats that are narrowed are floats of half the width. -/
structure Kept (schemaType readType : ColumnType) (options : ColumnEncodingOptions) (column : ColumnData)
    (nulls : Bytes) : Prop where
  survives : readType ≠ .null → Survives readType column
  zeros : readType = .null → ∀ values, column = .int64 values → Uncompressed values ∧
    ∀ row value, values[row]? = some value → getBit nulls row = false → value = 0
  exact_ : options.narrowFloat32 → schemaType = .float32 → ∀ values, column = .float64 values →
    dictionaryEncodeF64 values = none →
    ∀ narrow, values.mapM narrowed = some narrow → ∀ row, getBit nulls row = false →
    (narrow.map widen)[row]? = values[row]?

def AgreeOn (nulls : Bytes) (first second : ColumnData) : Prop :=
  ∀ row, getBit nulls row = false → first.rows[row]? = second.rows[row]?

section ReadBack

variable {schemaType readType : ColumnType} {options : ColumnEncodingOptions} {column : ColumnData}
    {nulls bytes : Bytes}

private theorem write_wide
    (wide : ∀ values, column = .float64 values → dictionaryEncodeF64 values = none →
      narrowPayload options schemaType values = none) :
    writeColumnEncoded column schemaType options = writeColumnEncoded column readType ⟨false⟩ := by
  cases column with
  | float64 values =>
    have off : narrowPayload ⟨false⟩ readType values = none := by simp [narrowPayload]
    simp only [writeColumnEncoded,off]
    cases encoded : dictionaryEncodeF64 values with
    | some payload => rfl
    | none => rw [wide values rfl encoded]
  | _ => rfl

private theorem readColumnEncoded_ok {encoding : UInt8} {payload rest : Bytes} {found : ColumnData}
    (read : readPayload encoding readType (payload ++ rest) = .ok (found,payload.length)) :
    readColumnEncoded (encoding :: payload ++ rest) readType = .ok (found,(encoding :: payload).length) := by
  simp only [List.cons_append,readColumnEncoded,read,bind,Except.bind,pure,Except.pure,List.length_cons,Nat.add_comm]

private theorem read_narrow {values : List UInt64} {narrow : List Nat} (small : values.length * 8 < 2^63)
    (narrowed_ : values.mapM narrowed = some narrow) (rest : Bytes) :
    readPayload colEncodingPlainF32 readType ((leBytes 8 values.length ++ leWords 4 narrow) ++ rest) =
      .ok (.float64 (narrow.map widen),(leBytes 8 values.length ++ leWords 4 narrow).length) := by
  have each := mapM_some narrowed_
  have length : narrow.length = values.length := by
    have same := congrArg List.length each
    rw [List.length_map,List.length_map] at same
    exact same.symm
  have words_ : ∀ value ∈ narrow, value < 256^4 := by
    intro value member
    have there : some value ∈ values.map narrowed := by
      rw [each]
      exact List.mem_map_of_mem member
    obtain ⟨bits,_,from_⟩ := List.mem_map.mp there
    unfold narrowed at from_
    simp only at from_
    split at from_
    · cases from_
    · cases from_
      exact UInt32.toNat_lt _
  have header : ofLe (((leBytes 8 values.length ++ leWords 4 narrow) ++ rest).take 8) = values.length := by
    rw [List.append_assoc,List.take_left' (length_leBytes 8 _)]
    exact ofLe_leBytes_of_lt (by omega)
  have total : ((leBytes 8 values.length ++ leWords 4 narrow) ++ rest).length =
    8 + values.length * 4 + rest.length := by
    simp only [List.length_append,length_leBytes,length_leWords,length]
  have payloadLen : f32PayloadLen ((leBytes 8 values.length ++ leWords 4 narrow) ++ rest) =
    .ok (8 + values.length * 4) := by
    unfold f32PayloadLen
    rw [if_neg (by rw [total]; omega)]
    simp only [header]
    rw [if_neg (by rw [total]; omega)]
  have decoded : ofLeWords 4 values.length (((leBytes 8 values.length ++ leWords 4 narrow) ++ rest).drop 8) =
    narrow := by
    rw [List.append_assoc,List.drop_left' (length_leBytes 8 _),← length]
    exact ofLeWords_leWords words_ rest
  have dispatch : readPayload colEncodingPlainF32 readType ((leBytes 8 values.length ++ leWords 4 narrow) ++ rest) = (do
      let col ← decodePlainF32 ((leBytes 8 values.length ++ leWords 4 narrow) ++ rest)
      pure (col,← f32PayloadLen ((leBytes 8 values.length ++ leWords 4 narrow) ++ rest))) := rfl
  rw [dispatch,decodePlainF32,payloadLen]
  simp only [bind,Except.bind,pure,Except.pure]
  rw [Nat.add_sub_cancel_left,Nat.mul_div_cancel _ (by decide),decoded]
  simp only [List.length_append,length_leBytes,length_leWords,length]

private theorem read_dictionary {indices : List UInt32} {dictOffsets : List UInt64} {dictData : Bytes}
    (sound : (ColumnData.stringDict indices dictOffsets dictData).Sound)
    (written : writeColumnEncoded (.stringDict indices dictOffsets dictData) schemaType options = .ok bytes)
    (rest : Bytes) :
    readColumnEncoded (bytes ++ rest) .stringDict = .ok (.stringDict indices dictOffsets dictData,bytes.length) := by
  obtain ⟨fits,⟨width,widths,narrow,rfl⟩ | rfl⟩ := write_stringDict written
  · exact readColumnEncoded_ok (read_compact widths narrow sound fits rest)
  · refine readColumnEncoded_ok ?_
    rw [readPayload_plain]
    exact (yields_readStringDict _ _ _ sound.1 sound.2.1 sound.2.2 fits).counted rest

private theorem narrowPayload_some {values : List UInt64} {payload : Bytes}
    (some_ : narrowPayload options schemaType values = some payload) :
    options.narrowFloat32 = true ∧ schemaType = .float32 ∧
      ∃ narrow, values.mapM narrowed = some narrow ∧ payload = leBytes 8 values.length ++ leWords 4 narrow := by
  unfold narrowPayload at some_
  split at some_
  · rename_i on
    obtain ⟨narrow,mapped,rfl⟩ := Option.map_eq_some_iff.mp some_
    exact ⟨on.1,on.2,narrow,mapped,rfl⟩
  · cases some_

/-- The writer's bytes are read back with the values of every row that is not NULL, and consumed
exactly, whatever follows them. -/
theorem read_back (variant : (ColumnData.new readType).SameVariant column) (sound : column.Sound)
    (kept : Kept schemaType readType options column nulls)
    (written : writeColumnEncoded column schemaType options = .ok bytes) (rest : Bytes) :
    ∃ found, readColumnEncoded (bytes ++ rest) readType = .ok (found,bytes.length) ∧
      AgreeOn nulls found.decodeStringDict column.decodeStringDict := by
  by_cases dict : readType = .stringDict
  · subst dict
    cases column with
    | stringDict indices dictOffsets dictData => exact ⟨_,read_dictionary sound written rest,fun _ _ => rfl⟩
    | _ => exact variant.elim
  by_cases null : readType = .null
  · subst null
    cases column with
    | int64 values =>
      obtain ⟨uncompressed,zeros⟩ := kept.zeros rfl values rfl
      obtain rfl := write_uncompressed uncompressed written
      refine ⟨_,readColumnEncoded_ok (read_null sound rest),fun row shown => ?_⟩
      simp only [decodeStringDict,rows,List.getElem?_map,List.getElem?_replicate]
      cases there : values[row]? with
      | none =>
        rw [if_neg (by simpa using there)]
      | some value =>
        obtain ⟨inside,_⟩ := List.getElem?_eq_some_iff.mp there
        rw [if_pos inside,zeros row value there shown]
    | _ => exact variant.elim
  have plain : Plain column := by
    rintro indices dictOffsets dictData rfl
    cases readType <;> first | exact dict rfl | exact variant.elim
  by_cases narrows : ∃ values payload, column = .float64 values ∧ dictionaryEncodeF64 values = none ∧
      narrowPayload options schemaType values = some payload
  · obtain ⟨values,payload,rfl,encoded,chosen⟩ := narrows
    obtain ⟨on,rfl,narrow,mapped,rfl⟩ := narrowPayload_some chosen
    have bytesAre : bytes = colEncodingPlainF32 :: (leBytes 8 values.length ++ leWords 4 narrow) := by
      simp only [writeColumnEncoded,offsetsExceedU32,encoded,chosen,Bool.false_eq_true,if_false,
        Except.ok.injEq] at written
      exact written.symm
    subst bytesAre
    refine ⟨_,readColumnEncoded_ok (read_narrow sound mapped rest),fun row shown => ?_⟩
    have same := kept.exact_ on rfl values rfl encoded narrow mapped row shown
    simp only [decodeStringDict,rows,List.getElem?_map] at same ⊢
    rw [same]
  · have wide : writeColumnEncoded column schemaType options = writeColumnEncoded column readType ⟨false⟩ := by
      refine write_wide fun values is encoded => ?_
      by_contra some_
      obtain ⟨payload,chosen⟩ := Option.ne_none_iff_exists'.mp some_
      exact narrows ⟨values,payload,is,encoded,chosen⟩
    rw [wide] at written
    obtain ⟨⟨found,read,same⟩,_⟩ := (roundTrips_iff variant sound rfl).mpr (kept.survives null) bytes written rest
    have foundPlain : Plain found := by
      generalize bytes ++ rest = all at read
      cases all with
      | nil => cases read
      | cons encoding payload =>
        obtain ⟨⟨col,consumed⟩,payloadRead,is⟩ := bind_eq_ok.mp read
        obtain ⟨rfl,_⟩ := Prod.mk.inj (Except.ok.inj is)
        exact plain_payload dict payloadRead
    refine ⟨found,read,fun row _ => ?_⟩
    rw [foundPlain.decode,plain.decode,same]

end ReadBack

end ApexBase.Column
