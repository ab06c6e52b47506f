import ApexBase.Column.Payload
import ApexBase.Column.SliceRows
import ApexBase.Library.Guarded

/-! Reading only the first rows of a column (`storage/on_demand/mod.rs`). The payloads
that can be long are cut where they are read, the others are read whole and then cut.
`none` is a panic. -/
namespace ApexBase.Column
open Data Library.Wire Library.Wire.Reader ColumnData

section Read
variable (limit : Nat)

def sliceFirst (col : ColumnData) : Option ColumnData := if col.len > limit then col.sliceRange 0 limit else some col

def thenSlice : Except IoError (ColumnData × Nat) → Option (Except IoError (ColumnData × Nat))
  | .error error => some (.error error)
  | .ok (col,consumed) => (sliceFirst limit col).map fun sliced => .ok (sliced,consumed)

def firstPacked (dataBytes : Bytes) : ColumnData × Nat :=
  let count := ofLe (dataBytes.take 8)
  let bitWidth := ofLe ((dataBytes.drop 8).take 1)
  let minVal := (UInt64.ofNat (ofLe ((dataBytes.drop 9).take 8))).toInt64
  let packedBytes := (count * bitWidth + 7) / 8
  let actual := min count limit
  let packed := (dataBytes.drop 17).take packedBytes
  let result :=
    if bitWidth = 0 then List.replicate actual minVal
    else if 17 + packedBytes ≤ dataBytes.length then
      (List.range actual).map fun i => minVal + (UInt64.ofNat (unpackBits packed bitWidth i)).toInt64
    else []
  (.int64 result,1 + 17 + packedBytes)

def firstWords (kind : String) (build : List Nat → ColumnData) (dataBytes : Bytes) : Except IoError ColumnData :=
  if dataBytes.length < 8 then .error (errData ("partial " ++ kind ++ ": truncated"))
  else
    let actual := min (ofLe (dataBytes.take 8)) limit
    if 8 + actual * 8 > dataBytes.length then .error (errData ("partial " ++ kind ++ ": data truncated"))
    else .ok (build (ofLeWords 8 actual (dataBytes.drop 8)))

def firstBool (dataBytes : Bytes) : Except IoError ColumnData :=
  if dataBytes.length < 8 then .error (errData "partial Bool: truncated")
  else
    let actual := min (ofLe (dataBytes.take 8)) limit
    let byteLen := (actual + 7) / 8
    if 8 + byteLen > dataBytes.length then .error (errData "partial Bool: data truncated")
    else .ok (.bool ((dataBytes.drop 8).take byteLen) actual)

def firstString (dataBytes : Bytes) : Option (Except IoError ColumnData) :=
  if dataBytes.length < 8 then some (.error (errData "partial String: truncated"))
  else
    let count := ofLe (dataBytes.take 8)
    let actual := min count limit
    let dataLenOff := 8 + (count + 1) * 4
    if dataLenOff > dataBytes.length then some (.error (errData "partial String: offsets truncated"))
    else
      let diskOffsets := ofLeWords 4 (actual + 1) (dataBytes.drop 8)
      if dataLenOff + 8 > dataBytes.length then some (.error (errData "partial String: data_len truncated"))
      else
        let dataStart := dataLenOff + 8
        let base := diskOffsets[0]?.getD 0
        let stop := diskOffsets[actual]?.getD 0
        if dataStart + stop > dataBytes.length then some (.error (errData "partial String: data truncated"))
        else (between dataBytes (dataStart + base) (dataStart + stop)).map fun data =>
          .ok (.string ((diskOffsets.map UInt64.ofNat).map (· - UInt64.ofNat base)) data)

def firstStringDict (dataBytes : Bytes) : Except IoError ColumnData :=
  if dataBytes.length < 16 then .error (errData "partial StringDict: truncated")
  else
    let rowCount := ofLe (dataBytes.take 8)
    let dictSize := ofLe ((dataBytes.drop 8).take 8)
    let dictOffStart := 16 + rowCount * 4
    if dictOffStart > dataBytes.length then .error (errData "partial StringDict: indices truncated")
    else
      let indices := ofLeWords 4 (min rowCount limit) (dataBytes.drop 16)
      let dictDataLenOff := dictOffStart + dictSize * 4
      if dictDataLenOff > dataBytes.length then .error (errData "partial StringDict: dict_offsets truncated")
      else
        let dictOffsets := ofLeWords 4 dictSize (dataBytes.drop dictOffStart)
        if dictDataLenOff + 8 > dataBytes.length then .error (errData "partial StringDict: dict_data_len truncated")
        else
          let dictDataLen := ofLe ((dataBytes.drop dictDataLenOff).take 8)
          let dictDataStart := dictDataLenOff + 8
          if dictDataStart + dictDataLen > dataBytes.length then
            .error (errData "partial StringDict: dict_data truncated")
          else .ok (.stringDict (indices.map UInt32.ofNat) (dictOffsets.map UInt64.ofNat)
            ((dataBytes.drop dictDataStart).take dictDataLen))

/-- The plain payload of a column, which the reader would leave `skipped` bytes further on. -/
def firstPlain (colType : ColumnType) (dataBytes : Bytes) (skipped : Nat) :
    Option (Except IoError (ColumnData × Nat)) :=
  match colType with
  | .int64 | .int8 | .int16 | .int32 | .uint8 | .uint16 | .uint32 | .uint64 | .timestamp | .date =>
    some ((firstWords limit "Int64" (fun values => .int64 (values.map fun value => (UInt64.ofNat value).toInt64))
      dataBytes).map (·,1 + skipped))
  | .float64 | .float32 => some ((firstWords limit "Float64" (fun values => .float64 (values.map UInt64.ofNat))
    dataBytes).map (·,1 + skipped))
  | .bool => some ((firstBool limit dataBytes).map (·,1 + skipped))
  | .string | .json => (firstString limit dataBytes).map fun outcome => outcome.map (·,1 + skipped)
  | .stringDict => some ((firstStringDict limit dataBytes).map (·,1 + skipped))
  | colType => thenSlice limit (((fromBytesTyped colType).counted dataBytes).map fun read => (read.1,1 + read.2))

def readColumnEncodedPartial (bytes : Bytes) (colType : ColumnType) : Option (Except IoError (ColumnData × Nat)) :=
  match bytes with
  | [] => some (.error (errData "read_column_encoded_partial: empty input"))
  | encoding :: dataBytes =>
    if encoding = colEncodingBitpack ∧ decodesInt64 colType ∧ 17 ≤ dataBytes.length then
      some (.ok (firstPacked limit dataBytes))
    else if encoding ≠ colEncodingPlain then thenSlice limit (readColumnEncoded bytes colType)
    else
      match skipBytesTyped dataBytes colType with
      | .error error => some (.error error)
      | .ok skipped => firstPlain limit colType dataBytes skipped

end Read

def InOrder (offsets : List UInt64) : Prop := offsets.Pairwise fun a b => a.toNat ≤ b.toNat

def Laid (offsets : List UInt64) (data : Bytes) : Prop :=
  offsets.head? = some 0 ∧ InOrder offsets ∧ offsets.getLast?.map (·.toNat) = some data.length

/-- What the `push` operations keep of a variant. In particular no bit is set at or
beyond the length of a Bool column. -/
def Proper : ColumnData → Prop
  | .bool data len => data.length = (len + 7) / 8 ∧ ∀ row ≥ len, getBit data row = false
  | .int64 _ | .float64 _ => True
  | .string offsets data | .binary offsets data => Laid offsets data
  | .stringDict _ dictOffsets dictData => InOrder dictOffsets ∧ ∀ offset ∈ dictOffsets, offset.toNat ≤ dictData.length
  | .fixedList data dim => ∃ rows, data.length = rows * (dim.toNat * 4)
  | .float16List data dim => ∃ rows, data.length = rows * (dim.toNat * 2)
  | .quantizedList data dim codec => (dim = 0 → data = []) ∧ ∀ width, codec.rowWidth dim.toNat = .ok width →
    ∃ rows, data.length = rows * width

def Slices (limit : Nat) : ColumnData → Prop
  | .bool data len => limit < len ∨ ∀ row ≥ len, getBit data row = false
  | .string offsets data | .binary offsets data =>
    if limit < offsets.length - 1 then
      limit = 0 ∨ (InOrder (offsets.take (limit + 1)) ∧ (offsets[limit]?.getD 0).toNat ≤ data.length)
    else Laid offsets data
  | .stringDict _ dictOffsets dictData => InOrder dictOffsets ∧ ∀ offset ∈ dictOffsets, offset.toNat ≤ dictData.length
  | .quantizedList data dim _ => dim = 0 → data = []
  | .int64 _ | .float64 _ | .fixedList _ _ | .float16List _ _ => True

def Shaped : ColumnData → Prop
  | .bool data len => data.length = (len + 7) / 8
  | .int64 _ | .float64 _ | .stringDict _ _ _ => True
  | .string offsets _ | .binary offsets _ => offsets ≠ []
  | .fixedList data dim => ∃ rows, data.length = rows * (dim.toNat * 4)
  | .float16List data dim => ∃ rows, data.length = rows * (dim.toNat * 2)
  | .quantizedList data dim codec => ∃ width, codec.rowWidth dim.toNat = .ok width ∧ ∃ rows, data.length = rows * width

section Offsets
variable {offsets : List UInt64} {data newData : Bytes} {base last : UInt64}

structure Spans (offsets : List UInt64) (base last : UInt64) : Prop where
  first : offsets.head? = some base
  final : offsets.getLast? = some last

theorem Spans.bounds (spans : Spans offsets base last) (inOrder : InOrder offsets) {offset : UInt64}
    (member : offset ∈ offsets) :
    base.toNat ≤ offset.toNat ∧ offset.toNat ≤ last.toNat := by
  obtain ⟨i,there⟩ := List.getElem?_of_mem member
  have inside := (List.getElem?_eq_some_iff.mp there).1
  have first : offsets[0]? = some base := by rw [← List.head?_eq_getElem?,spans.first]
  have final : offsets[offsets.length - 1]? = some last := by rw [← List.getLast?_eq_getElem?,spans.final]
  exact ⟨offset_le inOrder (Nat.zero_le _) first there,offset_le inOrder (by omega) there final⟩

theorem Spans.take (offsets : List UInt64) (count : Nat) (inside : count < offsets.length) :
    Spans (offsets.take (count + 1)) (offsets[0]?.getD 0) (offsets[count]?.getD 0) := by
  have here : (offsets.take (count + 1)).length = count + 1 := by rw [List.length_take]; omega
  refine ⟨?_,?_⟩
  · rw [List.head?_take,if_neg (Nat.succ_ne_zero _),List.head?_eq_getElem?,List.getElem?_eq_getElem (by omega)]
    rfl
  · rw [List.getLast?_eq_getElem?,here,Nat.add_sub_cancel,List.getElem?_take,if_pos (Nat.lt_succ_self _),
      List.getElem?_eq_getElem inside]
    rfl

section
variable (spans : Spans offsets base last) (inOrder : InOrder offsets)
variable (cut : newData = (data.drop base.toNat).take (last.toNat - base.toNat))
include spans inOrder cut

theorem slice_rebased {row : Nat} (inside : row + 1 < offsets.length) :
    slice (offsets.map (· - base)) newData row = slice offsets data row := by
  have low := List.getElem?_eq_getElem (show row < offsets.length by omega)
  have high := List.getElem?_eq_getElem inside
  obtain ⟨lowBase,_⟩ := spans.bounds inOrder (List.mem_of_getElem? low)
  obtain ⟨highBase,highLast⟩ := spans.bounds inOrder (List.mem_of_getElem? high)
  have order := offset_le inOrder (Nat.le_succ row) low high
  have differ {offset : UInt64} (above : base.toNat ≤ offset.toNat) : (offset - base).toNat =
    offset.toNat - base.toNat :=
    UInt64.toNat_sub_of_le _ _ above
  subst cut
  simp only [slice,List.getElem?_map,low,high,Option.map_some,Option.getD_some]
  rw [differ lowBase,differ highBase,List.drop_take,List.drop_drop,List.take_take]
  congr 1
  · omega
  · congr 1
    omega

theorem rows_rebased :
    (ColumnData.string (offsets.map (· - base)) newData).rows = (ColumnData.string offsets data).rows := by
  simp only [rows,List.length_map]
  refine List.map_congr_left fun row member => ?_
  rw [slice_rebased spans inOrder cut (by have := List.mem_range.mp member; omega)]

end

theorem laid_rebased (spans : Spans offsets base last) (order : base.toNat ≤ last.toNat) :
    Laid (offsets.map (· - base)) newData ↔ InOrder offsets ∧ newData.length = last.toNat - base.toNat := by
  have differ {offset : UInt64} (above : base.toNat ≤ offset.toNat) : (offset - base).toNat =
    offset.toNat - base.toNat :=
    UInt64.toNat_sub_of_le _ _ above
  have head : (offsets.map (· - base)).head? = some 0 := by
    rw [List.head?_map,spans.first]
    exact congrArg some (UInt64.sub_self base)
  have end_ : (offsets.map (· - base)).getLast?.map (·.toNat) = some (last.toNat - base.toNat) := by
    rw [List.getLast?_map,spans.final]
    exact congrArg some (differ order)
  constructor
  · rintro ⟨_,inOrder,final⟩
    have length : newData.length = last.toNat - base.toNat := Option.some.inj (final.symm.trans end_)
    refine ⟨?_,length⟩
    have finalSpan : Spans (offsets.map (· - base)) 0 (last - base) :=
      ⟨head,by rw [List.getLast?_map,spans.final]; rfl⟩
    -- An offset below the base would wrap around to one above the last.
    have above {offset : UInt64} (member : offset ∈ offsets) : base.toNat ≤ offset.toNat := by
      have bound := (finalSpan.bounds inOrder (List.mem_map_of_mem member)).2
      have wide := offset.toNat_lt
      have wideBase := base.toNat_lt
      have wideLast := last.toNat_lt
      rw [differ order,UInt64.toNat_sub] at bound
      omega
    refine List.Pairwise.imp_of_mem ?_ (List.pairwise_map.mp inOrder)
    intro a b first second le
    rw [differ (above first),differ (above second)] at le
    have one := above first
    have two := above second
    omega
  · rintro ⟨inOrder,length⟩
    refine ⟨head,?_,by rw [end_,length]⟩
    refine List.pairwise_map.mpr (List.Pairwise.imp_of_mem ?_ inOrder)
    intro a b first second le
    rw [differ (spans.bounds inOrder first).1,differ (spans.bounds inOrder second).1]
    omega

theorem rows_take (offsets : List UInt64) (data : Bytes) (count : Nat) (some_ : offsets ≠ []) :
    (ColumnData.string (offsets.take (count + 1)) data).rows = (ColumnData.string offsets data).rows.take count := by
  have long := List.length_pos_iff.mpr some_
  simp only [rows]
  rw [← List.map_take,List.take_range,List.length_take,show min (count + 1) offsets.length - 1 =
    min count (offsets.length - 1) by omega]
  refine List.map_congr_left fun row member => ?_
  have inside := List.mem_range.mp member
  unfold slice
  rw [List.getElem?_take,if_pos (by omega),List.getElem?_take,if_pos (by omega)]

theorem flatten_slices (inOrder : InOrder offsets) (spans : Spans offsets base last) :
    ((List.range (offsets.length - 1)).map (slice offsets data)).flatten =
    (data.drop base.toNat).take (last.toNat - base.toNat) := by
  induction offsets generalizing base with
  | nil => cases spans.first
  | cons offset rest ih =>
    obtain rfl : offset = base := Option.some.inj spans.first
    cases rest with
    | nil =>
      obtain rfl : offset = last := Option.some.inj spans.final
      simp
    | cons next rest =>
      have tail := ih (List.pairwise_cons.mp inOrder).2 ⟨rfl,spans.final⟩
      have order : offset.toNat ≤ next.toNat := (List.pairwise_cons.mp inOrder).1 next (by simp)
      have later : next.toNat ≤ last.toNat := by
        have whole : Spans (next :: rest) next last := ⟨rfl,spans.final⟩
        exact (whole.bounds (List.pairwise_cons.mp inOrder).2 (by simp)).2
      have shift : (List.range (next :: rest).length).map (slice (offset :: next :: rest) data) =
          slice (offset :: next :: rest) data 0 :: (List.range ((next :: rest).length - 1)).map
            (slice (next :: rest) data) := by
        rw [List.length_cons,Nat.add_sub_cancel,List.range_succ_eq_map,List.map_cons,List.map_map]
        rfl
      rw [List.length_cons,Nat.add_sub_cancel,shift,List.flatten_cons,tail]
      have first : slice (offset :: next :: rest) data 0 = (data.drop offset.toNat).take (next.toNat - offset.toNat) :=
        rfl
      have behind : data.drop next.toNat = (data.drop offset.toNat).drop (next.toNat - offset.toNat) := by
        rw [List.drop_drop,Nat.add_sub_cancel' order]
      rw [first,behind,← List.take_add]
      congr 1
      omega

end Offsets

section Slices
variable {limit : Nat}

theorem sliceOffsets_first {offsets : List UInt64} {data : Bytes} (long : limit < offsets.length - 1)
    (positive : limit ≠ 0) :
    sliceOffsets offsets data 0 limit =
      (between data (offsets[0]?.getD 0).toNat (min (offsets[limit]?.getD 0).toNat data.length)).map fun newData =>
        ((offsets.take (limit + 1)).map (· - offsets[0]?.getD 0),newData) := by
  have low := List.getElem?_eq_getElem (show 0 < offsets.length by omega)
  have high := List.getElem?_eq_getElem (show limit < offsets.length by omega)
  unfold sliceOffsets
  simp only [Nat.zero_min,Nat.min_eq_left (Nat.le_of_lt long)]
  rw [if_neg (by omega),low,high]
  simp only [Option.getD_some,bind,Option.bind]
  cases between data (offsets[0]).toNat (min (offsets[limit]).toNat data.length) with
  | none => rfl
  | some newData => rfl

theorem slices_offsets {offsets : List UInt64} {data : Bytes} (some_ : offsets ≠ []) :
    (∃ cut, (if offsets.length - 1 > limit then sliceOffsets offsets data 0 limit else some (offsets,data)) = some cut ∧
      (ColumnData.string cut.1 cut.2).rows = (ColumnData.string offsets data).rows.take limit ∧ Laid cut.1 cut.2) ↔
    Slices limit (.string offsets data) := by
  simp only [Slices]
  by_cases long : limit < offsets.length - 1
  · rw [if_pos long,if_pos long]
    by_cases zero : limit = 0
    · subst zero
      have none_ : sliceOffsets offsets data 0 0 = some ([0],[]) := by simp [sliceOffsets]
      refine ⟨fun _ => Or.inl rfl,fun _ => ⟨_,none_,rfl,rfl,List.pairwise_singleton _ _,rfl⟩⟩
    · have inside : limit < offsets.length := by omega
      have spans := Spans.take _ _ inside
      rw [sliceOffsets_first long zero]
      constructor
      · rintro ⟨cut,found,_,laid⟩
        obtain ⟨newData,between_,rfl⟩ := Option.map_eq_some_iff.mp found
        obtain ⟨order,_,rfl⟩ := between_some between_
        obtain ⟨inOrder,length⟩ := (laid_rebased spans (Nat.le_trans order (Nat.min_le_left _ _))).mp laid
        rw [List.length_take,List.length_drop] at length
        exact Or.inr ⟨inOrder,by omega⟩
      · intro fits
        obtain ⟨inOrder,within⟩ := fits.resolve_left zero
        have order := (spans.bounds inOrder (List.mem_of_head? spans.first)).2
        refine ⟨((offsets.take (limit + 1)).map (· - offsets[0]?.getD 0),
          (data.drop (offsets[0]?.getD 0).toNat).take ((offsets[limit]?.getD 0).toNat - (offsets[0]?.getD 0).toNat)),?_,
            ?_,?_⟩
        · rw [Nat.min_eq_left within,between,if_pos ⟨order,within⟩]
          rfl
        · rw [rows_rebased spans inOrder rfl,rows_take offsets data limit some_]
        · refine (laid_rebased spans order).mpr ⟨inOrder,?_⟩
          rw [List.length_take,List.length_drop]
          omega
  · rw [if_neg long,if_neg long]
    have all : (ColumnData.string offsets data).rows.take limit = (ColumnData.string offsets data).rows := by
      refine List.take_of_length_le ?_
      rw [rows,List.length_map,List.length_range]
      omega
    rw [all]
    constructor
    · rintro ⟨cut,same,_,laid⟩
      cases same
      exact laid
    · exact fun laid => ⟨_,rfl,rfl,laid⟩

theorem sliceFirst_offsets (build : List UInt64 → Bytes → ColumnData) {offsets : List UInt64} {data : Bytes}
    (some_ : offsets ≠ []) (len : ∀ offsets data, (build offsets data).len = offsets.length - 1)
    (sliced : (build offsets data).sliceRange 0 limit = (sliceOffsets offsets data 0 limit).map fun cut =>
      build cut.1 cut.2)
    (slices : Slices limit (build offsets data) = Slices limit (.string offsets data))
    (same : ∀ offsets data, (build offsets data).rows = (ColumnData.string offsets data).rows ∧
      (Proper (build offsets data) ↔ Laid offsets data)) :
    (∃ cut, (if (build offsets data).len > limit then (build offsets data).sliceRange 0 limit
      else some (build offsets data)) = some cut ∧
      cut.rows = (build offsets data).rows.take limit ∧ Proper cut) ↔ Slices limit (build offsets data) := by
  have whole : (if (build offsets data).len > limit then (build offsets data).sliceRange 0 limit
    else some (build offsets data)) =
      (if offsets.length - 1 > limit then sliceOffsets offsets data 0 limit else some (offsets,data)).map fun cut =>
        build cut.1 cut.2 := by
    rw [len,sliced]
    split
    · rfl
    · rfl
  rw [whole,slices,← slices_offsets some_,(same offsets data).1]
  constructor
  · rintro ⟨cut,found,rows_,proper⟩
    obtain ⟨pair,cut_,rfl⟩ := Option.map_eq_some_iff.mp found
    rw [(same _ _).1] at rows_
    exact ⟨pair,cut_,rows_,(same _ _).2.mp proper⟩
  · rintro ⟨pair,cut_,rows_,laid⟩
    exact ⟨build pair.1 pair.2,by rw [cut_]; rfl,by rw [(same _ _).1]; exact rows_,(same _ _).2.mpr laid⟩

theorem strided_first {data : Bytes} {stride : Nat} (limit : Nat) : ∃ cut, sliceStrided data stride 0 limit = some cut ∧
    strideRows cut stride = (strideRows data stride).take limit ∧ ∃ rows, cut.length = rows * stride := by
  have inside : min limit (if stride = 0 then 0 else data.length / stride) * stride ≤ data.length := by
    split
    · simp
    · exact Nat.le_trans (Nat.mul_le_mul_right _ (Nat.min_le_right _ _)) (Nat.div_mul_le_self _ _)
  have found : sliceStrided data stride 0 limit =
    some ((data.drop 0).take (min limit (if stride = 0 then 0 else data.length / stride) * stride)) := by
    unfold sliceStrided between
    simp only [Nat.zero_min,Nat.zero_mul]
    rw [if_pos ⟨Nat.zero_le _,inside⟩,Nat.sub_zero]
  obtain ⟨same,count,length,_⟩ := rows_strided found
  exact ⟨_,found,same,count,length⟩

theorem strideRows_all {data : Bytes} {dim : UInt32} {stride : Nat}
    (short : (if dim = 0 then 0 else data.length / stride) ≤ limit)
    (empty : dim = 0 → data = []) : (strideRows data stride).take limit = strideRows data stride := by
  refine List.take_of_length_le ?_
  rw [strideRows,List.length_map,List.length_range]
  split at short
  · rename_i zero
    rw [empty zero,List.length_nil,Nat.zero_div]
    exact Nat.zero_le _
  · exact short

theorem sliceFirst_long {col : ColumnData} (long : limit < col.len) : sliceFirst limit col = col.sliceRange 0 limit :=
  if_pos long

theorem sliceFirst_short {col : ColumnData} (short : ¬ limit < col.len) :
    sliceFirst limit col = some col := if_neg short

theorem between_first {α : Type} {values : List α} (long : limit < values.length) :
    between values (min 0 values.length) (min limit values.length) = some (values.take limit) := by
  rw [Nat.zero_min,Nat.min_eq_left (Nat.le_of_lt long),between,if_pos ⟨Nat.zero_le _,Nat.le_of_lt long⟩,List.drop_zero,
    Nat.sub_zero]

theorem sliceFirst_iff {col : ColumnData} (shaped : Shaped col) :
    (∃ cut, sliceFirst limit col = some cut ∧ cut.rows = col.rows.take limit ∧ Proper cut) ↔ Slices limit col := by
  cases col with
  | bool data len =>
    by_cases long : limit < len
    · rw [sliceFirst_long long]
      refine ⟨fun _ => Or.inl long,fun _ => ⟨_,rfl,?_,?_,?_⟩⟩
      · simpa using rows_bits 0 limit data len
      · rw [(packBits_spec _ _ _ (by rw [List.length_replicate]; omega)).1,List.length_replicate]
      · intro row beyond
        rw [(packBits_spec _ _ _ (by rw [List.length_replicate]; omega)).2,getBit_replicate,decide_eq_false (by omega)]
        rfl
    · have all : (ColumnData.bool data len).rows.take limit = (ColumnData.bool data len).rows :=
        List.take_of_length_le (by rw [rows,List.length_map,List.length_range]; omega)
      rw [sliceFirst_short long,all]
      constructor
      · rintro ⟨cut,same,_,proper⟩
        cases same
        exact Or.inr proper.2
      · exact fun clean => ⟨_,rfl,rfl,shaped,clean.resolve_left long⟩
  | int64 values =>
    refine ⟨fun _ => trivial,fun _ => ?_⟩
    by_cases long : limit < values.length
    · exact ⟨.int64 (values.take limit),
        by rw [sliceFirst_long long,sliceRange,between_first long]; rfl,by rw [rows,rows,List.map_take],trivial⟩
    · exact ⟨_,sliceFirst_short long,(List.take_of_length_le (by rw [rows,List.length_map]; omega)).symm,trivial⟩
  | float64 values =>
    refine ⟨fun _ => trivial,fun _ => ?_⟩
    by_cases long : limit < values.length
    · exact ⟨.float64 (values.take limit),
        by rw [sliceFirst_long long,sliceRange,between_first long]; rfl,by rw [rows,rows,List.map_take],trivial⟩
    · exact ⟨_,sliceFirst_short long,(List.take_of_length_le (by rw [rows,List.length_map]; omega)).symm,trivial⟩
  | string offsets data => exact sliceFirst_offsets .string shaped (fun _ _ => rfl) rfl rfl fun _ _ => ⟨rfl,Iff.rfl⟩
  | binary offsets data => exact sliceFirst_offsets .binary shaped (fun _ _ => rfl) rfl rfl fun _ _ => ⟨rfl,Iff.rfl⟩
  | stringDict indices dictOffsets dictData =>
    by_cases long : limit < indices.length
    · have cut : sliceFirst limit (.stringDict indices dictOffsets dictData) =
        some (.stringDict (indices.take limit) dictOffsets dictData) := by
        rw [sliceFirst_long long,sliceRange,between_first long]
        rfl
      rw [cut]
      constructor
      · rintro ⟨_,same,_,proper⟩
        cases same
        exact proper
      · exact fun proper => ⟨_,rfl,by rw [rows,rows,List.map_take],proper⟩
    · rw [sliceFirst_short long]
      constructor
      · rintro ⟨_,same,_,proper⟩
        cases same
        exact proper
      · exact fun proper => ⟨_,rfl,(List.take_of_length_le (by rw [rows,List.length_map]; omega)).symm,proper⟩
  | fixedList data dim =>
    refine ⟨fun _ => trivial,fun _ => ?_⟩
    by_cases long : limit < (ColumnData.fixedList data dim).len
    · obtain ⟨cut,found,same,count⟩ := strided_first limit
      exact ⟨.fixedList cut dim,by rw [sliceFirst_long long,sliceRange,found]; rfl,same,count⟩
    · refine ⟨_,sliceFirst_short long,(strideRows_all (Nat.not_lt.mp long) fun zero => ?_).symm,shaped⟩
      obtain ⟨count,length⟩ := shaped
      subst zero
      exact List.eq_nil_of_length_eq_zero (by simpa using length)
  | float16List data dim =>
    refine ⟨fun _ => trivial,fun _ => ?_⟩
    by_cases long : limit < (ColumnData.float16List data dim).len
    · obtain ⟨cut,found,same,count⟩ := strided_first limit
      exact ⟨.float16List cut dim,by rw [sliceFirst_long long,sliceRange,found]; rfl,same,count⟩
    · refine ⟨_,sliceFirst_short long,(strideRows_all (Nat.not_lt.mp long) fun zero => ?_).symm,shaped⟩
      obtain ⟨count,length⟩ := shaped
      subst zero
      exact List.eq_nil_of_length_eq_zero (by simpa using length)
  | quantizedList data dim codec =>
    obtain ⟨stride,width,count,length⟩ := shaped
    have only {other : Nat} (same : codec.rowWidth dim.toNat = .ok other) : other = stride := by
      rw [width] at same
      exact (Except.ok.inj same).symm
    have rowsOf (data : Bytes) : (ColumnData.quantizedList data dim codec).rows =
      strideRows data stride := by rw [rows,width]
    have len : (ColumnData.quantizedList data dim codec).len = if dim = 0 then 0
      else data.length / stride := by rw [ColumnData.len,width]
    constructor
    · rintro ⟨cut,found,_,proper⟩ zero
      rw [sliceFirst_short (by rw [len,if_pos zero]; omega)] at found
      cases found
      exact proper.1 zero
    · intro empty
      by_cases long : limit < (ColumnData.quantizedList data dim codec).len
      · have nonzero : dim ≠ 0 := by
          rintro rfl
          rw [len,if_pos rfl] at long
          exact Nat.not_lt_zero _ long
        obtain ⟨cut,found,same,many⟩ := strided_first limit
        refine ⟨.quantizedList cut dim codec,?_,
          by rw [rowsOf,rowsOf]; exact same,fun zero => absurd zero nonzero,fun other width' => ?_⟩
        · rw [sliceFirst_long long,sliceRange,width]
          simp only
          rw [found]
          rfl
        · rw [only width']
          exact many
      · refine ⟨_,sliceFirst_short long,?_,empty,fun other width' => ?_⟩
        · rw [len] at long
          rw [rowsOf]
          exact (strideRows_all (Nat.not_lt.mp long) empty).symm
        · rw [only width']
          exact ⟨count,length⟩

end Slices

end ApexBase.Column
