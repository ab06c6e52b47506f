import ApexBase.Column.Encoding

/-! Each payload format by itself: the bytes that its encoder writes are decoded to the same values,
and the skipper stops behind them, whatever follows. -/
namespace ApexBase.Column
open Data Library.Wire Library.Wire.Reader Library.RunLength ColumnData

/-! Machine words as the numbers that are written. -/

private theorem ofNat_uint64 (values : List UInt64) : (values.map (·.toNat)).map UInt64.ofNat = values := by
  simp [List.map_map,Function.comp_def]

private theorem ofNat_int64 (values : List Int64) :
    (values.map (·.toUInt64.toNat)).map (fun value => (UInt64.ofNat value).toInt64) = values := by
  have same (value : Int64) : (UInt64.ofNat value.toUInt64.toNat).toInt64 = value := by
    rw [UInt64.ofNat_toNat,Int64.toInt64_toUInt64]
  simp only [List.map_map,Function.comp_def,same,List.map_id']

private theorem ofNat_uint32 (values : List UInt32) : (values.map (·.toNat)).map UInt32.ofNat = values := by
  simp [List.map_map,Function.comp_def]

private theorem small_uint64 (values : List UInt64) : ∀ value ∈ values.map (·.toNat), value < 256^8 := by
  intro value member
  obtain ⟨word,_,rfl⟩ := List.mem_map.mp member
  exact word.toNat_lt

private theorem small_int64 (values : List Int64) : ∀ value ∈ values.map (·.toUInt64.toNat), value < 256^8 := by
  intro value member
  obtain ⟨word,_,rfl⟩ := List.mem_map.mp member
  exact word.toUInt64.toNat_lt

private theorem small_uint32 (values : List UInt32) : ∀ value ∈ values.map (·.toNat), value < 256^4 := by
  intro value member
  obtain ⟨word,_,rfl⟩ := List.mem_map.mp member
  exact word.toNat_lt

private theorem ofNat_offsets {offsets : List UInt64} (fits : ∀ offset ∈ offsets, offset.toNat ≤ 2^32 - 1) :
    ((offsetsToU32 offsets).map (·.toNat)).map UInt64.ofNat = offsets := by
  rw [offsetsToU32,List.map_map,List.map_map]
  conv_rhs => rw [← List.map_id offsets]
  apply List.map_congr_left
  intro offset member
  have low := fits offset member
  apply UInt64.toNat_inj.mp
  simp only [Function.comp_apply,UInt64.toNat_toUInt32,UInt64.toNat_ofNat',id_eq]
  omega

@[simp] private theorem length_u32Bytes (values : List UInt32) : (u32Bytes values).length = values.length * 4 := by
  simp [u32Bytes]

@[simp] private theorem length_offsetsToU32 (offsets : List UInt64) :
    (offsetsToU32 offsets).length = offsets.length := by
  simp [offsetsToU32]

private theorem yields_u32 (short : IoError) (values : List UInt32) {count : Nat} (length : values.length = count) :
    Yields (words short 4 count) (u32Bytes values) (.ok (values.map (·.toNat))) := by
  have read := yields_words short (small_uint32 values)
  rwa [List.length_map,length] at read

/-! Plain payloads. -/

theorem yields_readInt64 (values : List Int64) (small : values.length * 8 < 2^63) :
    Yields readInt64 (leBytes 8 values.length ++ leWords 8 (values.map (·.toUInt64.toNat))) (.ok (.int64 values)) := by
  refine yields_then (yields_word _ 8 _ (by omega)) ?_
  have read := yields_words (errData "Int64 column data truncated") (small_int64 values)
  rw [List.length_map] at read
  exact yields_last read (by rw [ofNat_int64])

theorem yields_readFloat64 (values : List UInt64) (small : values.length * 8 < 2^63) :
    Yields readFloat64 (leBytes 8 values.length ++ leWords 8 (values.map (·.toNat))) (.ok (.float64 values)) := by
  refine yields_then (yields_word _ 8 _ (by omega)) ?_
  have read := yields_words (errData "Float64 column data truncated") (small_uint64 values)
  rw [List.length_map] at read
  exact yields_last read (by rw [ofNat_uint64])

theorem yields_readBool (data : Bytes) (len : Nat) (length : data.length = (len + 7) / 8) (small : len + 7 < 2^64) :
    Yields readBool (leBytes 8 len ++ data) (.ok (.bool data len)) := by
  refine yields_then (yields_word _ 8 len (by omega)) ?_
  exact yields_last (yields_exactly _ length) rfl

theorem yields_readOffsets (kind : String) (build : List UInt64 → Bytes → ColumnData) (offsets : List UInt64)
    (data : Bytes) (nonempty : offsets ≠ []) (smallOffsets : offsets.length * 8 < 2^63) (smallData : data.length < 2^63)
    (fits : ∀ offset ∈ offsets, offset.toNat ≤ 2^32 - 1) :
    Yields (readOffsets kind build)
      (leBytes 8 (offsets.length - 1) ++ (u32Bytes (offsetsToU32 offsets) ++ (leBytes 8 data.length ++ data)))
      (.ok (build offsets data)) := by
  have positive := List.length_pos_iff.mpr nonempty
  refine yields_then (yields_word _ 8 _ (by omega)) ?_
  refine yields_then (yields_u32 _ _ (by rw [length_offsetsToU32]; omega)) ?_
  refine yields_then (yields_word _ 8 _ (by omega)) ?_
  exact yields_last (yields_take _ data) (by rw [ofNat_offsets fits])

theorem yields_readStringDict (indices : List UInt32) (dictOffsets : List UInt64) (dictData : Bytes)
    (smallIndices : indices.length * 4 < 2^63) (smallOffsets : dictOffsets.length * 8 < 2^63)
    (smallData : dictData.length < 2^63) (fits : ∀ offset ∈ dictOffsets, offset.toNat ≤ 2^32 - 1) :
    Yields readStringDict
      (leBytes 8 indices.length ++ (leBytes 8 dictOffsets.length ++ (u32Bytes indices ++
        (u32Bytes (offsetsToU32 dictOffsets) ++ (leBytes 8 dictData.length ++ dictData)))))
      (.ok (.stringDict indices dictOffsets dictData)) := by
  refine yields_then (yields_word _ 8 _ (by omega)) ?_
  refine yields_then (yields_word _ 8 _ (by omega)) ?_
  refine yields_then (yields_u32 _ _ rfl) ?_
  refine yields_then (yields_u32 _ _ (length_offsetsToU32 _)) ?_
  refine yields_then (yields_word _ 8 _ (by omega)) ?_
  exact yields_last (yields_take _ dictData) (by rw [ofNat_offsets fits,ofNat_uint32])

theorem yields_readVectors (kind : String) (width : Nat → Except IoError Nat) (build : Bytes → UInt32 → ColumnData)
    (data : Bytes) (dim : UInt32) {count stride : Nat} (strided : width dim.toNat = .ok stride)
    (length : data.length = count * stride) (small : count < 2^63) :
    Yields (readVectors kind width build) (leBytes 8 count ++ (leBytes 4 dim.toNat ++ data))
      (.ok (build data dim)) := by
  refine yields_then (yields_word _ 8 _ (by omega)) ?_
  refine yields_then (yields_word _ 4 _ dim.toNat_lt) ?_
  have lifted : Yields (lift (width dim.toNat)) [] (.ok stride) := strided ▸ yields_lift _
  refine yields_then lifted ?_
  exact yields_last (yields_exactly _ length) (by rw [UInt32.ofNat_toNat])

/-! Run lengths. -/

private theorem drop_flatMap {α : Type} {f : α → Bytes} {width : Nat} {list : List α}
    (fixed : ∀ value ∈ list, (f value).length = width) (i : Nat) :
    (list.flatMap f).drop (i * width) = (list.drop i).flatMap f := by
  induction list generalizing i with
  | nil => simp
  | cons value rest ih =>
    cases i with
    | zero => simp
    | succ i =>
      have skip : (i + 1) * width = (f value).length + i * width := by rw [fixed value (by simp)]; ring
      rw [List.flatMap_cons,skip,← List.drop_drop,List.drop_left,
        ih (fun value member => fixed value (by simp [member]))]
      rfl

private theorem length_runBytes {α : Type} (width : Nat) (toNat : α → Nat) (runs : List (α × Nat)) :
    (runs.flatMap (fun run => leBytes width (toNat run.1) ++ leBytes 4 run.2)).length = runs.length * (width + 4) := by
  have fixed : ∀ run ∈ runs, (leBytes width (toNat run.1) ++ leBytes 4 run.2).length = width + 4 := by simp
  rw [List.length_flatMap,List.map_congr_left fixed]
  simp

theorem yields_rleDecode {α : Type} (kind : String) (width count : Nat) (toNat : α → Nat) (runs : List (α × Nat))
    (smallCount : count < 2^64) (smallRuns : runs.length < 2^64) (smallValue : ∀ value, toNat value < 256^width)
    (smallRun : ∀ run ∈ runs, run.2 < 2^32) :
    Yields (rleDecode kind width)
      (leBytes 8 count ++ (leBytes 8 runs.length ++ runs.flatMap (fun run => leBytes width (toNat run.1) ++
        leBytes 4 run.2)))
      (.ok (count,runs.map (fun run => (toNat run.1,run.2)))) := by
  have fixed : ∀ run ∈ runs, (leBytes width (toNat run.1) ++ leBytes 4 run.2).length = width + 4 := by simp
  refine yields_then (yields_word _ 8 _ smallCount) ?_
  refine yields_then (yields_word _ 8 _ smallRuns) ?_
  refine yields_last (yields_exactly _ (length_runBytes width toNat runs)) ?_
  congr 1
  apply List.ext_getElem
  · simp
  · intro i _ inside
    rw [List.length_map] at inside
    have split := drop_flatMap fixed i
    rw [List.drop_eq_getElem_cons inside,List.flatMap_cons,List.append_assoc] at split
    have value := ofLe_leBytes_of_lt (smallValue (runs[i]).1)
    have run : ofLe (leBytes 4 (runs[i]).2) = (runs[i]).2 :=
      ofLe_leBytes_of_lt (smallRun runs[i] (List.getElem_mem inside))
    simp only [List.getElem_map,List.getElem_range,split]
    rw [List.take_left' (length_leBytes _ _),List.drop_left' (length_leBytes _ _),List.take_left' (length_leBytes _ _),
      value,run]

private theorem countedRuns_ok {α : Type} [DecidableEq α] {values : List α} {counted : List (α × Nat)}
    (ok : countedRuns values = .ok counted) : counted = runs values ∧ ∀ run ∈ counted, run.2 < 2^32 := by
  unfold countedRuns at ok
  split at ok
  · cases ok
  · rename_i short
    cases ok
    simpa using short

theorem rleEncode_some {α : Type} [DecidableEq α] {width plainSize : Nat} {toNat : α → Nat} {values : List α}
    {bytes : Bytes} (encoded : rleEncode width toNat plainSize values = .ok (some bytes)) :
    16 ≤ values.length ∧ (∀ run ∈ runs values, run.2 < 2^32) ∧ bytes.length = 16 + (runs values).length * (width + 4) ∧
    bytes.length < plainSize * 7 / 10 ∧
    bytes = leBytes 8 values.length ++ (leBytes 8 (runs values).length ++
      (runs values).flatMap (fun run => leBytes width (toNat run.1) ++ leBytes 4 run.2)) := by
  unfold rleEncode at encoded
  split at encoded
  · cases encoded
  · rename_i enough
    cases counting : countedRuns values with
    | error fault => simp [counting,bind,Except.bind] at encoded
    | ok counted =>
      obtain ⟨rfl,short⟩ := countedRuns_ok counting
      simp only [counting,bind,Except.bind] at encoded
      split at encoded
      · cases encoded
      · rename_i saves
        simp only [pure,Except.pure,Except.ok.injEq,Option.some.injEq,List.append_assoc] at encoded
        have length : bytes.length = 16 + (runs values).length * (width + 4) := by
          rw [← encoded,List.length_append,List.length_append,length_runBytes,length_leBytes,length_leBytes]
          omega
        exact ⟨by omega,short,length,by omega,encoded.symm⟩

theorem rleEncodeI64_yields {data : List Int64} {bytes : Bytes} (small : data.length * 8 < 2^63)
    (encoded : rleEncodeI64 data = .ok (some bytes)) : Yields rleDecodeI64 bytes (.ok data) := by
  obtain ⟨_,short,_,_,rfl⟩ := rleEncode_some encoded
  have fewer := length_runs data
  have read := yields_rleDecode "RLE Int64" 8 data.length (fun value : Int64 => value.toUInt64.toNat) (runs data)
    (by omega) (by omega) (fun value => value.toUInt64.toNat_lt) short
  refine yields_last read ?_
  have back (value : Int64) : (UInt64.ofNat value.toUInt64.toNat).toInt64 = value := by
    rw [UInt64.ofNat_toNat,Int64.toInt64_toUInt64]
  simp only [List.map_map,Function.comp_def,back,Prod.mk.eta,List.map_id',expand_runs]

private theorem setRun_spec (data : Bytes) (start count : Nat) (room : start + count ≤ 8 * data.length) :
    ((List.range count).foldl (fun data j => setBit data (start + j)) data).length = data.length ∧
    ∀ index, getBit ((List.range count).foldl (fun data j => setBit data (start + j)) data) index =
      (getBit data index || (decide (start ≤ index) && decide (index < start + count))) := by
  induction count with
  | zero =>
    refine ⟨rfl,fun index => ?_⟩
    rcases Nat.lt_or_ge index start with low | high
    · simp [Nat.not_le.mpr low]
    · simp [Nat.not_lt.mpr high]
  | succ count ih =>
    obtain ⟨length,bits⟩ := ih (by omega)
    simp only [List.range_succ,List.foldl_append,List.foldl_cons,List.foldl_nil,length_setBit]
    refine ⟨length,fun index => ?_⟩
    rw [getBit_setBit _ _ _ (by omega),bits]
    by_cases here : index = start + count
    · simp [here]
    · have same : index < start + (count + 1) ↔ index < start + count := by omega
      simp [here,same]

private theorem fillRuns_spec (runs : List (Bool × Nat)) (start : Nat) (data : Bytes)
    (room : start + (expand runs).length ≤ 8 * data.length)
    (blank : ∀ index, start ≤ index → getBit data index = false) :
    ∀ index, getBit (fillRuns (runs.map (fun run => (run.1.toNat,run.2))) start data) index =
      if index < start then getBit data index else ((expand runs)[index - start]?).getD false := by
  induction runs generalizing start data with
  | nil =>
    intro index
    simp only [List.map_nil,fillRuns,expand,List.flatMap_nil,List.getElem?_nil,Option.getD_none]
    split
    · rfl
    · exact blank index (by omega)
  | cons run rest ih =>
    obtain ⟨value,count⟩ := run
    have total : (expand ((value,count) :: rest)).length = count + (expand rest).length := by simp [expand]
    rw [total] at room
    obtain ⟨length,bits⟩ := setRun_spec data start count (by omega)
    intro index
    have unrolled : (expand ((value,count) :: rest))[index - start]? =
        if index - start < count then some value else (expand rest)[index - start - count]? := by
      simp only [expand,List.flatMap_cons,List.getElem?_append,List.length_replicate,List.getElem?_replicate]
      split <;> simp_all
    rw [List.map_cons,fillRuns,unrolled]
    have later : index - (start + count) = index - start - count := by omega
    cases value with
    | false =>
      rw [if_neg (by simp),ih (start + count) data (by omega) (fun index above => blank index (by omega)),later]
      by_cases low : index < start
      · rw [if_pos low,if_pos (by omega)]
      · by_cases inside : index < start + count
        · rw [if_neg low,if_pos inside,if_pos (by omega),blank index (by omega)]
          rfl
        · rw [if_neg low,if_neg inside,if_neg (by omega)]
    | true =>
      rw [if_pos (by simp),ih (start + count) _ (by rw [length]; omega) (fun index above => ?_),later,bits]
      · by_cases low : index < start
        · have outside : ¬ start ≤ index := by omega
          rw [if_pos low,if_pos (by omega)]
          simp [outside]
        · by_cases inside : index < start + count
          · have above : start ≤ index := by omega
            rw [if_neg low,if_pos inside,if_pos (by omega)]
            simp [above,inside]
          · rw [if_neg low,if_neg inside,if_neg (by omega)]
      · have outside : ¬ index < start + count := by omega
        rw [bits,blank index (by omega)]
        simp [outside]

theorem rleEncodeBool_some {data : Bytes} {len : Nat} {bytes : Bytes}
    (encoded : rleEncodeBool data len = .ok (some bytes)) :
    rleEncode 1 Bool.toNat (8 + (len + 7) / 8) ((List.range len).map (getBit data)) = .ok (some bytes) := by
  unfold rleEncodeBool at encoded
  split at encoded
  · cases encoded
  · exact encoded

theorem rleEncodeBool_yields {data : Bytes} {len : Nat} {bytes : Bytes} (small : len + 7 < 2^64)
    (encoded : rleEncodeBool data len = .ok (some bytes)) :
    ∃ data', Yields rleDecodeBool bytes (.ok (.bool data' len)) ∧ ∀ index, index < len →
    getBit data' index = getBit data index := by
  obtain ⟨_, short, _, _, rfl⟩ := rleEncode_some (rleEncodeBool_some encoded)
  have count : ((List.range len).map (getBit data)).length = len := by simp
  rw [count]
  have fewer := length_runs ((List.range len).map (getBit data))
  rw [count] at fewer
  have read := yields_rleDecode "RLE Bool" 1 len Bool.toNat (runs ((List.range len).map (getBit data)))
    (by omega) (by omega) (fun value => by cases value <;> decide) short
  refine ⟨_,yields_last read rfl,fun index inside => ?_⟩
  have filled := fillRuns_spec (runs ((List.range len).map (getBit data))) 0 (List.replicate ((len + 7) / 8) 0)
    (by rw [expand_runs,count,List.length_replicate]; omega) (fun index _ => getBit_replicate _ _) index
  rw [expand_runs] at filled
  simpa [inside] using filled

/-! Bit-packing. -/

private theorem testBit_wordAt (packed : Bytes) (index b : Nat) :
    (wordAt 8 packed index).testBit b = (decide (b < 64) && getBit packed (64 * index + b)) := by
  have start : 8 * (index * 8) + b = 64 * index + b := by omega
  rw [wordAt,testBit_ofLe,getBit_window,start]

theorem testBit_unpackBits_iff (packed : Bytes) (bitWidth i b : Nat) :
    (unpackBits packed bitWidth i).testBit b = true ↔
      ∃ k < bitWidth, k % 64 = b ∧ getBit packed (i * bitWidth + k) = true := by
  unfold unpackBits
  generalize i * bitWidth = offset
  induction bitWidth with
  | zero => simp
  | succ width ih =>
    simp only [List.range_succ, List.foldl_append, List.foldl_cons, List.foldl_nil]
    constructor
    · intro found
      split at found
      · rename_i one
        rw [Nat.testBit_or, Bool.or_eq_true, ih, Nat.one_shiftLeft, Nat.testBit_two_pow, decide_eq_true_iff] at found
        rcases found with ⟨k, below, rest⟩ | here
        · exact ⟨k, Nat.lt_succ_of_lt below, rest⟩
        · exact ⟨width, Nat.lt_succ_self width, here, one⟩
      · obtain ⟨k, below, rest⟩ := ih.mp found
        exact ⟨k, Nat.lt_succ_of_lt below, rest⟩
    · rintro ⟨k, below, place, one⟩
      by_cases last : k = width
      · subst last
        rw [if_pos one, Nat.testBit_or, Nat.one_shiftLeft, Nat.testBit_two_pow, decide_eq_true place, Bool.or_true]
      · have before := ih.mpr ⟨k, by omega, place, one⟩
        split
        · rw [Nat.testBit_or, before, Bool.true_or]
        · exact before

theorem testBit_unpackBits (packed : Bytes) {bitWidth : Nat} (fits : bitWidth ≤ 64) (i b : Nat) :
    (unpackBits packed bitWidth i).testBit b = (decide (b < bitWidth) && getBit packed (i * bitWidth + b)) := by
  rw [Bool.eq_iff_iff, testBit_unpackBits_iff, Bool.and_eq_true, decide_eq_true_iff]
  constructor
  · rintro ⟨k, below, rfl, one⟩
    rw [Nat.mod_eq_of_lt (by omega)]
    exact ⟨below, one⟩
  · exact fun ⟨below, one⟩ => ⟨b, below, Nat.mod_eq_of_lt (by omega), one⟩

theorem testBit_unpackWords (packed : Bytes) (bitWidth i b : Nat) :
    (unpackWords packed bitWidth i).testBit b = (decide (b < bitWidth % 64) && getBit packed (i * bitWidth + b)) := by
  simp only [unpackWords]
  generalize i * bitWidth = offset
  by_cases inside : b < bitWidth % 64
  swap
  · -- The mask clears what is above the width.
    split
    · rw [Nat.testBit_and,Nat.testBit_two_pow_sub_one]
      simp [inside]
    · rw [Nat.testBit_and,Nat.testBit_two_pow_sub_one]
      simp [inside]
  split
  · rename_i aligned
    have position : 64 * (offset / 64) + b = offset + b := by omega
    rw [Nat.testBit_and,Nat.testBit_two_pow_sub_one,testBit_wordAt,position]
    have low : b < 64 := by omega
    simp [inside,low]
  · rename_i unaligned
    have low : b < 64 := by omega
    rw [Nat.testBit_and,Nat.testBit_two_pow_sub_one,Nat.testBit_or,Nat.testBit_shiftRight,Nat.testBit_mod_two_pow,
      Nat.testBit_shiftLeft,testBit_wordAt,testBit_wordAt]
    by_cases first : offset % 64 + b < 64
    · have position : 64 * (offset / 64) + (offset % 64 + b) = offset + b := by omega
      have notSecond : ¬ b ≥ 64 - offset % 64 := by omega
      simp [inside,first,notSecond,position]
    · have position : 64 * (offset / 64 + 1) + (b - (64 - offset % 64)) = offset + b := by omega
      have second : b ≥ 64 - offset % 64 := by omega
      have bound : b - (64 - offset % 64) < 64 := by omega
      simp [inside,first,second,position,bound,low]

private theorem toInt_cases (value : Int64) :
    value.toInt = value.toUInt64.toNat ∨ value.toInt = value.toUInt64.toNat - 2^64 := by
  have shape : value.toInt = if 2 * value.toUInt64.toNat < 2^64 then (value.toUInt64.toNat : Int)
      else (value.toUInt64.toNat : Int) - (2^64 : Nat) := BitVec.toInt_eq_toNat_cond _
  rw [shape]
  split
  · exact Or.inl rfl
  · exact Or.inr rfl

private theorem delta_le {val minVal maxVal : Int64} (low : minVal ≤ val) (high : val ≤ maxVal) :
    (val - minVal).toUInt64.toNat ≤ ((maxVal.toInt - minVal.toInt) % 2^128).toNat := by
  rw [Int64.le_iff_toInt_le] at low high
  have lowest := Int64.le_toInt minVal
  have highest := Int64.toInt_lt maxVal
  have valBound := val.toUInt64.toNat_lt
  have minBound := minVal.toUInt64.toNat_lt
  rw [Int64.toUInt64_sub,UInt64.toNat_sub]
  rcases toInt_cases val with valShape | valShape <;> rcases toInt_cases minVal with minShape | minShape <;> omega

theorem lt_two_pow_bitLength (value : Nat) : value < 2^bitLength value := by
  unfold bitLength
  split
  · rename_i zero
    simp [zero]
  · exact Nat.lt_log2_self

private theorem bitpackFill_packed {bitWidth : Nat} (positive : 0 < bitWidth) (fits : bitWidth < 64) (data : List Int64)
    (minVal : Int64) (small : ∀ val ∈ data, (val - minVal).toUInt64.toNat < 2^bitWidth) :
    bitpackFill (packFields bitWidth 0 (data.map (fun val => (val - minVal).toUInt64.toNat))
      (List.replicate ((data.length * bitWidth + 7) / 8) 0)) data.length bitWidth minVal = data := by
  have room : (0 + (data.map (fun val => (val - minVal).toUInt64.toNat)).length) * bitWidth ≤
      8 * (List.replicate ((data.length * bitWidth + 7) / 8) (0 : UInt8)).length := by
    rw [List.length_map,List.length_replicate,Nat.zero_add]
    omega
  obtain ⟨_,bits⟩ := packFields_spec bitWidth 0 _ _ room
  generalize packFields bitWidth 0 _ _ = packed at bits ⊢
  unfold bitpackFill
  split
  · rename_i trivialCase
    have empty : data = [] := by
      rcases trivialCase with zero | zero
      · omega
      · exact List.length_eq_zero_iff.mp zero
    simp [empty]
  · apply List.ext_getElem
    · simp
    · intro i _ inside
      have field (b : Nat) : (decide (b < bitWidth) && getBit packed (i * bitWidth + b)) =
          (data[i] - minVal).toUInt64.toNat.testBit b := by
        by_cases low : b < bitWidth
        · rw [bits i b low]
          simp [low,inside,getBit_replicate]
        · have small := small data[i] (List.getElem_mem inside)
          have clear := Nat.testBit_lt_two_pow (Nat.lt_of_lt_of_le small
            (Nat.pow_le_pow_right (by omega) (Nat.not_lt.mp low)))
          rw [clear]
          simp [low]
      have words : unpackWords packed bitWidth i = (data[i] - minVal).toUInt64.toNat :=
        Nat.eq_of_testBit_eq (fun b => by rw [testBit_unpackWords, Nat.mod_eq_of_lt fits, field])
      have loop : unpackBits packed bitWidth i = (data[i] - minVal).toUInt64.toNat :=
        Nat.eq_of_testBit_eq (fun b => by rw [testBit_unpackBits packed (Nat.le_of_lt fits), field])
      simp only [List.getElem_map,List.getElem_range,words,loop,ite_self]
      rw [UInt64.ofNat_toNat,Int64.toInt64_toUInt64,Int64.add_comm,Int64.sub_add_cancel]

instance lawfulSupInt64 : Std.LawfulOrderSup Int64 where
  max_le_iff a b c := by
    change (if a ≤ b then b else a) ≤ c ↔ a ≤ c ∧ b ≤ c
    simp only [Int64.le_iff_toInt_le]
    split <;> omega

theorem bitpackEncodeI64_some {data : List Int64} {bytes : Bytes} (encoded : bitpackEncodeI64 data = some bytes) :
    ∃ minVal bitWidth, 0 < bitWidth ∧ bitWidth < 48 ∧
    (∀ val ∈ data, (val - minVal).toUInt64.toNat < 2^bitWidth) ∧
    17 + (data.length * bitWidth + 7) / 8 < (8 + data.length * 8) * 7 / 10 ∧
    bytes.length = 17 + (data.length * bitWidth + 7) / 8 ∧
    bytes = leBytes 8 data.length ++ (leBytes 1 bitWidth ++ (leBytes 8 minVal.toUInt64.toNat ++
      packFields bitWidth 0 (data.map (fun val => (val - minVal).toUInt64.toNat))
        (List.replicate ((data.length * bitWidth + 7) / 8) 0))) := by
  unfold bitpackEncodeI64 at encoded
  split at encoded
  · cases encoded
  simp only [bind,Option.bind_eq_some_iff] at encoded
  obtain ⟨minVal,least,maxVal,greatest,encoded⟩ := encoded
  split at encoded
  · cases encoded
  split at encoded
  · cases encoded
  split at encoded
  · cases encoded
  rename_i width
  split at encoded
  · cases encoded
  rename_i saves
  rw [not_or] at width
  have bounded : ∀ val ∈ data, (val - minVal).toUInt64.toNat < 2^bitLength
    ((maxVal.toInt - minVal.toInt) % 2^128).toNat := by
    intro val member
    have low := (List.le_min?_iff least).mp (Std.le_refl minVal) val member
    have high := (List.max?_le_iff greatest).mp (Std.le_refl maxVal) val member
    exact Nat.lt_of_le_of_lt (delta_le low high) (lt_two_pow_bitLength _)
  generalize bitLength ((maxVal.toInt - minVal.toInt) % 2^128).toNat = bitWidth at encoded width saves bounded
  have packedLength := (packFields_spec bitWidth 0 (data.map (fun val => (val - minVal).toUInt64.toNat))
    (List.replicate ((data.length * bitWidth + 7) / 8) 0) (by simp; omega)).1
  rw [List.length_replicate] at packedLength
  simp only [Option.some.injEq,List.append_assoc] at encoded
  refine ⟨minVal,bitWidth,Nat.pos_of_ne_zero width.1,Nat.not_le.mp width.2,bounded,Nat.not_le.mp saves,?_,encoded.symm⟩
  rw [← encoded]
  simp only [List.length_append,length_leBytes,packedLength]
  omega

theorem bitpackEncodeI64_yields {data : List Int64} {bytes : Bytes} (small : data.length * 8 < 2^63)
    (encoded : bitpackEncodeI64 data = some bytes) : Yields bitpackDecodeI64 bytes (.ok data) := by
  obtain ⟨minVal,bitWidth,positive,narrow,bounded,_,length,rfl⟩ := bitpackEncodeI64_some encoded
  refine yields_then (yields_word _ 8 _ (by omega)) ?_
  refine yields_then (yields_word _ 1 _ (by omega)) ?_
  refine yields_then (yields_word _ 8 _ minVal.toUInt64.toNat_lt) ?_
  refine yields_last (yields_exactly _ ?_) ?_
  · simp only [List.length_append,length_leBytes] at length
    omega
  · rw [UInt64.ofNat_toNat,Int64.toInt64_toUInt64]
    exact bitpackFill_packed positive (by omega) data minVal bounded

/-! Dictionaries. -/

private theorem buildDictionary_spec {values values' data : List UInt64} {indices indices' : List Nat}
    (room : values.length ≤ 65536) (built : buildDictionary values indices data = some (values',indices')) :
    values <+: values' ∧ values'.length ≤ 65536 ∧
    ∃ added, indices' = indices ++ added ∧ added.map (fun index => values'[index]?) = data.map some := by
  induction data generalizing values indices with
  | nil =>
    cases built
    exact ⟨List.prefix_rfl,room,[],by simp,rfl⟩
  | cons bits rest ih =>
    rw [buildDictionary] at built
    split at built
    · rename_i index found
      obtain ⟨grown,bound,added,rfl,points⟩ := ih room built
      obtain ⟨inside,same,_⟩ := List.idxOf?_eq_some_iff.mp found
      have later : values'[index]? = some bits := by rw [List.prefix_iff_getElem?.mp grown index inside,same]
      exact ⟨grown,bound,index :: added,by simp,by simp [later,points]⟩
    · split at built
      · cases built
      · rename_i smaller
        obtain ⟨grown,bound,added,rfl,points⟩ := ih (by rw [List.length_append,List.length_singleton]; omega) built
        have later : values'[values.length]? = some bits := by
          rw [List.prefix_iff_getElem?.mp grown values.length (by simp),List.getElem_concat_length rfl]
        exact ⟨(List.prefix_append _ _).trans grown,bound,values.length :: added,by simp,by simp [later,points]⟩

private theorem dictionaryEncodeF64_some {data : List UInt64} {bytes : Bytes}
    (encoded : dictionaryEncodeF64 data = some bytes) :
    ∃ (values : List UInt64) (indices : List Nat) (indexWidth : Nat), 0 < values.length ∧ values.length ≤ 65536 ∧
    (indexWidth = 1 ∨ indexWidth = 2) ∧
    (∀ index ∈ indices, index < 256^indexWidth) ∧ indices.map (fun index => values[index]?) = data.map some ∧
    bytes = leBytes 8 data.length ++ (leBytes 4 values.length ++ (leBytes 1 indexWidth ++
      (leWords indexWidth indices ++ leWords 8 (values.map (·.toNat))))) := by
  simp only [dictionaryEncodeF64] at encoded
  split at encoded
  · cases encoded
  rename_i long
  split at encoded
  swap
  · cases encoded
  simp only [bind,Option.bind_eq_some_iff] at encoded
  obtain ⟨⟨values,indices⟩,built,encoded⟩ := encoded
  obtain ⟨_,bound,_,rfl,points⟩ := buildDictionary_spec (by simp) built
  have inside : ∀ index ∈ indices, index < values.length := by
    intro index member
    have some : values[index]? ∈ data.map Option.some := points ▸ List.mem_map_of_mem member
    obtain ⟨bits,_,present⟩ := List.mem_map.mp some
    exact (List.getElem?_eq_some_iff.mp present.symm).1
  have count : indices.length = data.length := by simpa using congrArg List.length points
  have nonempty : 0 < values.length := by
    obtain ⟨index,member⟩ := List.exists_mem_of_length_pos (show 0 < indices.length by omega)
    exact Nat.lt_of_le_of_lt (Nat.zero_le _) (inside index member)
  have width : (if values.length ≤ 255 + 1 then 1 else 2) = 1 ∨ (if values.length ≤ 255 + 1 then 1 else 2) = 2 := by
    split <;> simp
  have narrow : ∀ index ∈ indices, index < 256^(if values.length ≤ 255 + 1 then 1 else 2) := by
    intro index member
    have low := inside index member
    split <;> omega
  generalize (if values.length ≤ 255 + 1 then 1 else 2) = indexWidth at encoded width narrow
  split at encoded
  · cases encoded
  simp only [Option.some.injEq,List.append_assoc] at encoded
  exact ⟨values,indices,indexWidth,nonempty,bound,width,narrow,points,encoded.symm⟩

theorem dictionaryEncodeF64_yields {data : List UInt64} {bytes : Bytes} (small : data.length * 8 < 2^63)
    (encoded : dictionaryEncodeF64 data = some bytes) :
    ∃ view, Yields FloatDictView.parse bytes (.ok view) ∧ view.decode = .float64 data := by
  obtain ⟨values,indices,indexWidth,nonempty,bound,width,smallIndices,points,rfl⟩ := dictionaryEncodeF64_some encoded
  have count : indices.length = data.length := by simpa using congrArg List.length points
  refine ⟨⟨data.length,values.length,indexWidth,leWords indexWidth indices,leWords 8 (values.map (·.toNat))⟩,?_,?_⟩
  · refine yields_then (yields_word _ 8 _ (by omega)) ?_
    refine yields_then (yields_word _ 4 _ (by omega)) ?_
    refine yields_then (yields_word _ 1 _ (by omega)) ?_
    rw [if_neg (by omega)]
    refine yields_then (yields_exactly _ (by rw [length_leWords,count])) ?_
    exact yields_last (yields_exactly _ (by rw [length_leWords,List.length_map])) rfl
  · unfold FloatDictView.decode
    congr 1
    apply List.ext_getElem
    · simp
    · intro row _ inside
      have indexed : row < indices.length := by omega
      have read := wordAt_leWords smallIndices row indexed []
      rw [List.append_nil] at read
      have point : values[indices[row]]? = some data[row] := by
        have pointwise := congrArg (fun list => list[row]?) points
        simpa [indexed,inside] using pointwise
      obtain ⟨inDictionary,same⟩ := List.getElem?_eq_some_iff.mp point
      have valueRead := wordAt_leWords (small_uint64 values) indices[row] (by simpa using inDictionary) []
      rw [List.append_nil,List.getElem_map,same] at valueRead
      have rowInside : ¬ row ≥ data.length := by omega
      have indexInside : ¬ indices[row] ≥ values.length := by omega
      simp [FloatDictView.value,FloatDictView.index,FloatDictView.dictionaryValue,rowInside,read,indexInside,valueRead]

instance lawfulSupUInt32 : Std.LawfulOrderSup UInt32 where
  max_le_iff a b c := by
    change (if a ≤ b then b else a) ≤ c ↔ a ≤ c ∧ b ≤ c
    simp only [UInt32.le_iff_toNat_le]
    split <;> omega

theorem le_maxIndex (indices : List UInt32) : ∀ index ∈ indices, index.toNat ≤ (indices.max?.getD 0).toNat := by
  intro index member
  cases greatest : indices.max? with
  | none => simp_all
  | some top => exact UInt32.le_iff_toNat_le.mp ((List.max?_le_iff greatest).mp (Std.le_refl top) index member)

def writtenView (indexWidth : Nat) (indices : List UInt32) (dictOffsets : List UInt64) (dictData : Bytes) :
    StringDictView :=
  ⟨indices.length,dictOffsets.length,indexWidth,leWords indexWidth (indices.map (·.toNat)),
    u32Bytes (offsetsToU32 dictOffsets),dictData⟩

theorem parse_compact {indexWidth : Nat} (width : indexWidth = 1 ∨ indexWidth = 2) {indices : List UInt32}
    {dictOffsets : List UInt64} {dictData : Bytes}
    (sound : (ColumnData.stringDict indices dictOffsets dictData).Sound) :
    Yields (StringDictView.parse true) (writeCompact indexWidth indices dictOffsets dictData)
      (.ok (writtenView indexWidth indices dictOffsets dictData)) := by
  obtain ⟨smallIndices,smallOffsets,smallData⟩ := sound
  simp only [writeCompact,List.append_assoc]
  refine yields_then (yields_word _ 8 _ (by omega)) ?_
  refine yields_then (yields_word _ 8 _ (by omega)) ?_
  refine yields_then (yields_word _ 1 _ (by omega)) ?_
  dsimp only
  rw [if_pos (by omega)]
  refine yields_then (yields_exactly _ (by simp)) ?_
  refine yields_then (yields_exactly _ (by simp)) ?_
  refine yields_then (yields_word _ 8 _ (by omega)) ?_
  exact yields_last (yields_take _ dictData) rfl

theorem parse_plain {indices : List UInt32} {dictOffsets : List UInt64} {dictData : Bytes}
    (sound : (ColumnData.stringDict indices dictOffsets dictData).Sound) :
    Yields (StringDictView.parse false) (leBytes 8 indices.length ++
      (leBytes 8 dictOffsets.length ++ (u32Bytes indices ++
      (u32Bytes (offsetsToU32 dictOffsets) ++ (leBytes 8 dictData.length ++ dictData)))))
      (.ok (writtenView 4 indices dictOffsets dictData)) := by
  obtain ⟨smallIndices,smallOffsets,smallData⟩ := sound
  refine yields_then (yields_word _ 8 _ (by omega)) ?_
  refine yields_then (yields_word _ 8 _ (by omega)) ?_
  simp only [Bool.false_eq_true,if_false,pure_bind]
  rw [if_pos (Or.inr (Or.inr trivial))]
  refine yields_then (yields_exactly _ (by simp)) ?_
  refine yields_then (yields_exactly _ (by simp)) ?_
  refine yields_then (yields_word _ 8 _ (by omega)) ?_
  exact yields_last (yields_take _ dictData) rfl

theorem writeCompact_yields {indexWidth : Nat} (width : indexWidth = 1 ∨ indexWidth = 2) (indices : List UInt32)
    (dictOffsets : List UInt64) (dictData : Bytes) (narrow : ∀ index ∈ indices, index.toNat < 256^indexWidth)
    (sound : (ColumnData.stringDict indices dictOffsets dictData).Sound)
    (fits : ∀ offset ∈ dictOffsets, offset.toNat ≤ 2^32 - 1) :
    ∃ view, Yields (StringDictView.parse true) (writeCompact indexWidth indices dictOffsets dictData) (.ok view) ∧
      view.decode = .stringDict indices dictOffsets dictData := by
  have smallWords : ∀ value ∈ indices.map (·.toNat), value < 256^indexWidth := by
    intro value member
    obtain ⟨index,present,rfl⟩ := List.mem_map.mp member
    exact narrow index present
  refine ⟨_,parse_compact width sound,?_⟩
  have indexWords := ofLeWords_leWords smallWords []
  have offsetWords := ofLeWords_leWords (small_uint32 (offsetsToU32 dictOffsets)) []
  rw [List.append_nil,List.length_map] at indexWords offsetWords
  rw [length_offsetsToU32] at offsetWords
  simp only [StringDictView.decode,writtenView,u32Bytes,indexWords,offsetWords,ofNat_uint32,ofNat_offsets fits]

end ApexBase.Column
