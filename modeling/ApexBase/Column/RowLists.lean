import ApexBase.Column.Operations
import ApexBase.Column.RoundTrip
import ApexBase.Column.SliceRows
import ApexBase.Library.Stacked

/-! The columns are lists of rows: what a column stores, and that every operation does to it what it
means. -/
namespace ApexBase.Column
open Data Library Library.Wire ColumnData

section Texts
variable {pieces others : List Bytes}

def Texts.of (pieces : List Bytes) : Texts := pieces.foldl Texts.push .empty

theorem Texts.of_eq (pieces : List Bytes) : Texts.of pieces = ⟨UInt64.ofNat 0 :: endsFrom 0 pieces,pieces.flatten⟩ := by
  rw [Texts.of,foldl_push]
  rfl

theorem Texts.of_foldl (pieces others : List Bytes) :
    others.foldl Texts.push (Texts.of pieces) = Texts.of (pieces ++ others) :=
  List.foldl_append.symm

theorem Texts.flatten_of {offsets : List UInt64} {data : Bytes} (laid : Texts.of pieces = ⟨offsets,data⟩) :
    pieces.flatten = data := by
  rw [Texts.of_eq] at laid
  exact congrArg Texts.data laid

theorem Texts.length_offsets (pieces : List Bytes) : (Texts.of pieces).offsets.length = pieces.length + 1 := by
  rw [Texts.of_eq,List.length_cons,length_endsFrom]

theorem endsFrom_append (start : Nat) (pieces others : List Bytes) :
    endsFrom start (pieces ++ others) = endsFrom start pieces ++ endsFrom (start + pieces.flatten.length) others := by
  induction pieces generalizing start with
  | nil => simp [endsFrom]
  | cons text rest ih =>
    rw [List.cons_append,endsFrom,endsFrom,ih,List.flatten_cons,List.length_append,Nat.add_assoc]
    rfl

theorem endsFrom_shift (base start : Nat) (pieces : List Bytes) :
    endsFrom (base + start) pieces = (endsFrom start pieces).map (UInt64.ofNat base + ·) := by
  induction pieces generalizing start with
  | nil => rfl
  | cons text rest ih =>
    rw [endsFrom,endsFrom,Nat.add_assoc,ih,List.map_cons,UInt64.ofNat_add]

theorem Texts.last_offset (pieces : List Bytes) :
    (Texts.of pieces).offsets.getLast? = some (UInt64.ofNat pieces.flatten.length) := by
  have atEnd := endsFrom_at 0 pieces (Nat.le_refl _)
  rw [List.take_length,Nat.zero_add] at atEnd
  rw [List.getLast?_eq_getElem?,Texts.length_offsets,Nat.add_sub_cancel,Texts.of_eq]
  exact atEnd

theorem Texts.laid (small : pieces.flatten.length < 2^64) : Laid (Texts.of pieces).offsets (Texts.of pieces).data := by
  have ordered := ordered_texts small
  rw [Texts.of_eq]
  refine ⟨rfl,ordered.1,?_⟩
  have last := Texts.last_offset pieces
  rw [Texts.of_eq] at last
  rw [last]
  exact congrArg some (UInt64.toNat_ofNat_of_lt' small)

theorem appendTexts_of (pieces others : List Bytes) :
    appendTexts (Texts.of pieces).offsets (Texts.of pieces).data (Texts.of others).offsets (Texts.of others).data =
      some (Texts.of (pieces ++ others)) := by
  unfold appendTexts
  rw [if_neg (by rw [Texts.of_eq]; exact nofun),Texts.last_offset,Texts.of_eq,Texts.of_eq,Texts.of_eq]
  simp only [Option.getD_some,List.drop_succ_cons,List.drop_zero,List.flatten_append,endsFrom_append,List.cons_append,
    Nat.zero_add]
  rw [← endsFrom_shift,Nat.add_zero]

theorem between_text (small : pieces.flatten.length < 2^64) {index : Nat} {text : Bytes}
    (there : pieces[index]? = some text) :
    between (Texts.of pieces).data ((Texts.of pieces).offsets[index]?.getD 0).toNat
      ((Texts.of pieces).offsets[index + 1]?.getD 0).toNat =
      some text := by
  obtain ⟨inside,_⟩ := List.getElem?_eq_some_iff.mp there
  obtain ⟨cut,next,bounded⟩ := flatten_at there
  have value {n : Nat} (le : n ≤ pieces.flatten.length) : (UInt64.ofNat n).toNat = n :=
    UInt64.toNat_ofNat_of_lt' (Nat.lt_of_le_of_lt le small)
  rw [Texts.of_eq]
  simp only
  rw [endsFrom_at 0 pieces (Nat.le_of_lt inside),endsFrom_at 0 pieces (show index + 1 ≤ pieces.length from inside)]
  simp only [Option.getD_some,Nat.zero_add]
  rw [value (show (pieces.take index).flatten.length ≤ _ by omega),value bounded,between,if_pos ⟨by omega,bounded⟩,next,
    Nat.add_sub_cancel_left,cut]

theorem filterTexts_of (small : pieces.flatten.length < 2^64) (indices : List Nat) :
    filterTexts (Texts.of pieces).offsets (Texts.of pieces).data indices =
    some (Texts.of (indices.filterMap (pieces[·]?))) := by
  have step : (fun (texts : Texts) (idx : Nat) =>
      if idx + 1 < (Texts.of pieces).offsets.length then
        (between (Texts.of pieces).data ((Texts.of pieces).offsets[idx]?.getD 0).toNat
          ((Texts.of pieces).offsets[idx + 1]?.getD 0).toNat).map texts.push
      else some texts) = fun texts idx => pure ((pieces[idx]?).elim texts texts.push) := by
    funext texts idx
    rw [Texts.length_offsets]
    cases there : pieces[idx]? with
    | none =>
      have beyond := List.getElem?_eq_none_iff.mp there
      rw [if_neg (by omega)]
      rfl
    | some text =>
      obtain ⟨inside,_⟩ := List.getElem?_eq_some_iff.mp there
      rw [if_pos (by omega),between_text small there]
      rfl
  rw [filterTexts,step,List.foldlM_pure,Texts.of,List.foldl_filterMap]
  refine congrArg some (List.foldl_ext _ _ _ fun texts idx _ => ?_)
  cases pieces[idx]? <;> rfl

theorem drop_offsets (start : Nat) (front pieces : List Bytes) :
    (UInt64.ofNat start :: endsFrom start (front ++ pieces)).drop front.length =
      UInt64.ofNat (start + front.flatten.length) :: endsFrom (start + front.flatten.length) pieces := by
  induction front generalizing start with
  | nil => rfl
  | cons text rest ih =>
    rw [List.length_cons,List.drop_succ_cons,List.cons_append,endsFrom,ih,List.flatten_cons,List.length_append,
      Nat.add_assoc]

private theorem middle_offsets (front middle back : List Bytes) :
    (((Texts.of (front ++ (middle ++ back))).offsets.drop front.length).take (middle.length + 1)).map
      (· - UInt64.ofNat front.flatten.length) =
      (Texts.of middle).offsets := by
  have shift (n : Nat) : UInt64.ofNat (front.flatten.length + n) - UInt64.ofNat front.flatten.length =
    UInt64.ofNat n := by
    rw [UInt64.ofNat_add,UInt64.add_comm,UInt64.add_sub_cancel]
  rw [Texts.of_eq,Texts.of_eq]
  simp only
  rw [drop_offsets,List.take_succ_cons,endsFrom_append]
  have long : middle.length = (endsFrom (0 + front.flatten.length) middle).length := (length_endsFrom _ _).symm
  rw [List.take_append_of_le_length (Nat.le_of_eq long),long,List.take_length,List.map_cons,Nat.zero_add]
  have first : UInt64.ofNat front.flatten.length - UInt64.ofNat front.flatten.length = UInt64.ofNat 0 :=
    UInt64.sub_self _
  rw [first,show front.flatten.length = front.flatten.length + 0 from rfl,endsFrom_shift,List.map_map]
  congr 1
  refine (List.map_congr_left fun offset _ => ?_).trans (List.map_id _)
  change UInt64.ofNat front.flatten.length + offset - UInt64.ofNat front.flatten.length = offset
  rw [UInt64.add_comm,UInt64.add_sub_cancel]

theorem sliceOffsets_of (small : pieces.flatten.length < 2^64) {start stop : Nat} (order : start ≤ stop) :
    sliceOffsets (Texts.of pieces).offsets (Texts.of pieces).data start stop =
      some ((Texts.of ((pieces.drop start).take (stop - start))).offsets,
        (Texts.of ((pieces.drop start).take (stop - start))).data) := by
  unfold sliceOffsets
  simp only [Texts.length_offsets,Nat.add_sub_cancel]
  by_cases empty : min stop pieces.length ≤ min start pieces.length
  · have none_ : (pieces.drop start).take (stop - start) = [] := by
      rw [List.take_eq_nil_iff,List.drop_eq_nil_iff]
      omega
    rw [if_pos empty,none_]
    rfl
  · have first : min start pieces.length = start := by omega
    rw [if_neg empty,first]
    obtain ⟨front,middle,back,split,frontLong,middleLong,cut⟩ : ∃ front middle back, pieces =
      front ++ (middle ++ back) ∧
        front.length = start ∧ middle.length = min stop pieces.length - start ∧
        (pieces.drop start).take (stop - start) = middle := by
      refine ⟨pieces.take start,(pieces.drop start).take (stop - start),(pieces.drop start).drop (stop - start),?_,
        ?_,?_,rfl⟩
      · rw [List.take_append_drop,List.take_append_drop]
      · rw [List.length_take]
        omega
      · rw [List.length_take,List.length_drop]
        omega
    have whole : pieces.length = front.length + (middle.length +
      back.length) := by rw [split,List.length_append,List.length_append]
    have inFront : pieces.take start = front := by rw [split,← frontLong,List.take_left]
    have inMiddle : pieces.take (min stop pieces.length) = front ++ middle := by
      have reached : min stop pieces.length = (front ++ middle).length := by rw [List.length_append]; omega
      rw [reached,split,← List.append_assoc,List.take_left]
    have base : (Texts.of pieces).offsets[start]? = some (UInt64.ofNat front.flatten.length) := by
      have at_ := endsFrom_at 0 pieces (show start ≤ pieces.length by omega)
      rw [inFront,Nat.zero_add] at at_
      rw [Texts.of_eq]
      exact at_
    have last : (Texts.of pieces).offsets[min stop pieces.length]? =
      some (UInt64.ofNat (front.flatten.length + middle.flatten.length)) := by
      have at_ := endsFrom_at 0 pieces (Nat.min_le_right stop pieces.length)
      rw [inMiddle,Nat.zero_add,List.flatten_append,List.length_append] at at_
      rw [Texts.of_eq]
      exact at_
    have size : pieces.flatten.length = front.flatten.length + (middle.flatten.length + back.flatten.length) := by
      rw [split,List.flatten_append,List.flatten_append,List.length_append,List.length_append]
    have value {n : Nat} (le : n ≤ pieces.flatten.length) : (UInt64.ofNat n).toNat = n :=
      UInt64.toNat_ofNat_of_lt' (Nat.lt_of_le_of_lt le small)
    have data : between (Texts.of pieces).data front.flatten.length
        (min (front.flatten.length + middle.flatten.length) (Texts.of pieces).data.length) =
        some (Texts.of middle).data := by
      have flat : (Texts.of pieces).data = front.flatten ++ (middle.flatten ++ back.flatten) := by
        rw [Texts.of_eq,split,List.flatten_append,List.flatten_append]
      have inside : (Texts.of pieces).data.length = pieces.flatten.length := by rw [Texts.of_eq]
      rw [between,Nat.min_eq_left (by omega),if_pos ⟨by omega,by omega⟩,flat,List.drop_left,Nat.add_sub_cancel_left,
        List.take_left,Texts.of_eq]
    have offsets := middle_offsets front middle back
    rw [← split,frontLong,show middle.length + 1 = min stop pieces.length + 1 - start by omega] at offsets
    rw [base,last,cut]
    simp only [bind,Option.bind]
    rw [value (by omega),value (by omega),data]
    exact congrArg (fun found => some (found,(Texts.of middle).data)) offsets

end Texts

section Vectors
variable {data : Bytes} {width : Nat} {records : List Bytes}

theorem strideRows_stacked (stacked : Stacked data width records) : strideRows data width = records.map .bytes := by
  have windows := congrArg (List.map Cell.bytes) stacked.windows
  rwa [List.map_map] at windows

theorem clamped {α : Type} (items : List α) {start stop : Nat} (order : start ≤ stop) :
    (items.drop (min start items.length)).take (min stop items.length - min start items.length) =
    (items.drop start).take (stop - start) :=
  between_clamped (if_pos ⟨by omega,Nat.min_le_right _ _⟩)

theorem sliceStrided_stacked (stacked : Stacked data width records) {start stop : Nat} (order : start ≤ stop) :
    ∃ cut, sliceStrided data width start stop = some cut ∧
    Stacked cut width ((records.drop start).take (stop - start)) := by
  have count : (if width = 0 then 0 else data.length / width) = records.length := by
    rw [stacked.count]
    split
    · rename_i zero
      rw [stacked.wide zero]
      rfl
    · rfl
  have low : min start records.length ≤ min stop records.length := by omega
  have inside : min stop records.length * width ≤ data.length := by
    rw [stacked.length]
    exact Nat.mul_le_mul_right _ (Nat.min_le_right _ _)
  have part := (stacked.drop (min start records.length)).take (min stop records.length - min start records.length)
  rw [clamped records order,Nat.sub_mul] at part
  refine ⟨_,?_,part⟩
  rw [sliceStrided,count]
  exact if_pos ⟨Nat.mul_le_mul_right _ low,inside⟩

theorem filterStrided_stacked (stacked : Stacked data width records) {indices : List Nat}
    (inRange : ∀ index ∈ indices, index < records.length) :
    Stacked (filterStrided data width indices) width (indices.filterMap (records[·]?)) := by
  induction indices with
  | nil => exact Stacked.nil width
  | cons index rest ih =>
    obtain ⟨record,there⟩ : ∃ record, records[index]? = some record :=
      ⟨_,List.getElem?_eq_getElem (inRange index List.mem_cons_self)⟩
    obtain ⟨window,inside,positive⟩ := stacked.record there
    have tail := ih fun other member => inRange other (List.mem_cons_of_mem _ member)
    have one : Stacked record width [record] :=
      ⟨List.flatten_singleton.symm,fun other member =>
        stacked.each _ (List.mem_singleton.mp member ▸ List.mem_of_getElem? there),
        fun zero => absurd zero (Nat.ne_of_gt positive)⟩
    rw [List.filterMap_cons_some there,filterStrided,List.flatMap_cons,if_pos ⟨positive,inside⟩,window]
    exact one.append tail

end Vectors

/-! What a column stores. -/

structure Packed (data : Bytes) (len : Nat) (bits : List Bool) : Prop where
  count : bits.length = len
  long : data.length = (len + 7) / 8
  carries : Carries data bits

theorem Packed.eq_bits {data : Bytes} {len : Nat} {bits : List Bool} (packed : Packed data len bits) :
    (List.range len).map (getBit data) = bits := by
  obtain ⟨rfl,_,carries⟩ := packed
  refine List.ext_getElem (by rw [List.length_map,List.length_range]) fun index _ inside => ?_
  rw [List.getElem_map,List.getElem_range,carries,List.getElem?_eq_getElem inside,Option.getD_some]

inductive Stores : ColumnData → List Cell → Prop
  | bool {data : Bytes} {len : Nat} {bits : List Bool} (packed : Packed data len bits) :
    Stores (.bool data len) (bits.map .bool)
  | int64 (values : List Int64) : Stores (.int64 values) (values.map .int64)
  | float64 (values : List UInt64) : Stores (.float64 values) (values.map .float64)
  | string {offsets : List UInt64} {data : Bytes} {texts : List Bytes} (laid : Texts.of texts = ⟨offsets,data⟩) :
      Stores (.string offsets data) (texts.map .bytes)
  | binary {offsets : List UInt64} {data : Bytes} {texts : List Bytes} (laid : Texts.of texts = ⟨offsets,data⟩) :
      Stores (.binary offsets data) (texts.map .bytes)
  | stringDict {indices : List UInt32} {dictOffsets : List UInt64} {dictData : Bytes} {entries texts : List Bytes}
      (laid : Texts.of entries = ⟨dictOffsets,dictData⟩) (each : indices.map (fun index => entries[index.toNat - 1]?) =
        texts.map some)
      (positive : ∀ index ∈ indices, index ≠ 0) : Stores (.stringDict indices dictOffsets dictData) (texts.map .bytes)
  | fixedList {data : Bytes} {dim : UInt32} {records : List Bytes} (stacked : Stacked data (dim.toNat * 4) records) :
      Stores (.fixedList data dim) (records.map .bytes)
  | float16List {data : Bytes} {dim : UInt32} {records : List Bytes} (stacked : Stacked data (dim.toNat * 2) records) :
      Stores (.float16List data dim) (records.map .bytes)
  | quantizedList {data : Bytes} {dim : UInt32} {codec : VectorCodec} {records : List Bytes}
    (unknown : dim = 0 → data = [] ∧ records = [])
      (stacked : ∀ width, codec.rowWidth dim.toNat = .ok width → Stacked data width records) :
      Stores (.quantizedList data dim codec) (records.map .bytes)

namespace Stores
variable {column : ColumnData} {list : List Cell}

theorem new (colType : ColumnType) : Stores (.new colType) [] := by
  have bits : Stores (.bool [] 0) [] := @Stores.bool [] 0 [] ⟨rfl,rfl,getBit_nil⟩
  have string : Stores (.string [0] []) [] := @Stores.string [0] [] [] rfl
  have binary : Stores (.binary [0] []) [] := @Stores.binary [0] [] [] rfl
  have dictionary : Stores (.stringDict [] [0] []) [] := @Stores.stringDict [] [0] [] [] [] rfl rfl nofun
  have vectors (codec : VectorCodec) : Stores (.quantizedList [] 0 codec) [] :=
    @Stores.quantizedList [] 0 codec [] (fun _ => ⟨rfl,rfl⟩) fun width _ => Stacked.nil width
  cases colType with
  | bool => exact bits
  | string | json => exact string
  | binary | blob | uuid | decimal128 | list | extension => exact binary
  | stringDict => exact dictionary
  | fixedList => exact @Stores.fixedList [] 0 [] (Stacked.nil _)
  | float16List => exact @Stores.float16List [] 0 [] (Stacked.nil _)
  | bfloat16List | int8Vector | uint8Vector | bit1Vector | turboQuant2Vector | turboQuant3Vector | turboQuant4Vector =>
    exact vectors _
  | float32 | float64 => exact .float64 []
  | _ => exact .int64 []

private theorem dictionary_text {indices : List UInt32} {entries texts : List Bytes}
    (each : indices.map (fun index => entries[index.toNat - 1]?) = texts.map some) {row : Nat} {index : UInt32}
    (there : indices[row]? = some index) :
    ∃ text, texts[row]? = some text ∧ entries[index.toNat - 1]? = some text := by
  have same := congrArg (fun found => found[row]?) each
  simp only [List.getElem?_map,there,Option.map_some] at same
  cases found : texts[row]? with
  | none =>
    rw [found] at same
    cases same
  | some text =>
    rw [found] at same
    exact ⟨text,rfl,Option.some.inj same⟩

private theorem dictionary_rows {V : Type} {read : UInt32 → V} {shown : Bytes → V} {indices : List UInt32}
    {entries texts : List Bytes} (each : indices.map (fun index => entries[index.toNat - 1]?) = texts.map some)
    (agree : ∀ index ∈ indices, ∀ text, entries[index.toNat - 1]? = some text → read index = shown text) :
    indices.map read = texts.map shown := by
  induction indices generalizing texts with
  | nil =>
    rw [List.map_nil,eq_comm,List.map_eq_nil_iff] at each
    rw [each,List.map_nil,List.map_nil]
  | cons index rest ih =>
    cases texts with
    | nil => cases each
    | cons text others =>
      obtain ⟨first,later⟩ := List.cons.inj each
      rw [List.map_cons,List.map_cons,agree index List.mem_cons_self text first,
        ih later fun other member => agree other (List.mem_cons_of_mem _ member)]

theorem rows (stores : Stores column list) (fits : column.Fits) : column.rows = list := by
  have small {n : Nat} (less : n < 2^63) : n < 2^64 := by omega
  cases stores with
  | @bool data len bits packed =>
    rw [← packed.eq_bits,List.map_map]
    rfl
  | int64 values => rfl
  | float64 values => rfl
  | @string offsets data texts laid =>
    rw [Texts.of_eq] at laid
    cases laid
    exact rows_texts (small fits.2)
  | @binary offsets data texts laid =>
    rw [Texts.of_eq] at laid
    cases laid
    exact rows_texts (small fits.2)
  | @stringDict indices dictOffsets dictData entries texts laid each positive =>
    rw [Texts.of_eq] at laid
    cases laid
    refine dictionary_rows each fun index member text inEntries => ?_
    have some_ := positive index member
    have counted : index.toNat ≠ 0 := fun zero => some_ (UInt32.toNat_inj.mp zero)
    obtain ⟨inside,_⟩ := List.getElem?_eq_some_iff.mp inEntries
    have known : ¬ (index = 0 ∨ (UInt64.ofNat 0 :: endsFrom 0 entries).length ≤ index.toNat) := by
      rintro (zero | beyond)
      · exact some_ zero
      · rw [List.length_cons,length_endsFrom] at beyond
        omega
    rw [if_neg known,slice_texts (small fits.2.2) inEntries]
  | fixedList stacked => exact strideRows_stacked stacked
  | float16List stacked => exact strideRows_stacked stacked
  | @quantizedList data dim codec records unknown stacked =>
    rw [ColumnData.rows]
    rcases rowWidth_cases codec dim with ⟨width,known,_⟩ | ⟨error,known,zero,_⟩
    · rw [known]
      exact strideRows_stacked (stacked width known)
    · rw [known,(unknown zero).2]
      rfl

private theorem stacked_len {data : Bytes} {dim : UInt32} {bytes : Nat} {records : List Bytes}
    (stacked : Stacked data (dim.toNat * bytes) records) :
    (if dim = 0 then 0 else data.length / (dim.toNat * bytes)) = records.length := by
  split
  · rename_i zero
    rw [stacked.wide (by rw [zero]; exact Nat.zero_mul bytes)]
    rfl
  · exact stacked.count

theorem len (stores : Stores column list) : column.len = list.length := by
  cases stores with
  | bool packed => exact packed.count.symm.trans (List.length_map _).symm
  | int64 values => exact (List.length_map _).symm
  | float64 values => exact (List.length_map _).symm
  | @string offsets data texts laid =>
    have counted := Texts.length_offsets texts
    rw [laid] at counted
    rw [List.length_map,ColumnData.len,counted,Nat.add_sub_cancel]
  | @binary offsets data texts laid =>
    have counted := Texts.length_offsets texts
    rw [laid] at counted
    rw [List.length_map,ColumnData.len,counted,Nat.add_sub_cancel]
  | @stringDict indices dictOffsets dictData entries texts laid each positive =>
    have counted := congrArg List.length each
    rw [List.length_map,List.length_map] at counted
    rw [List.length_map]
    exact counted
  | fixedList stacked => exact (stacked_len stacked).trans (List.length_map _).symm
  | float16List stacked => exact (stacked_len stacked).trans (List.length_map _).symm
  | @quantizedList data dim codec records unknown stacked =>
    rw [List.length_map,ColumnData.len]
    split
    · rename_i zero
      rw [(unknown zero).2]
      rfl
    · rename_i some_
      rcases rowWidth_cases codec dim with ⟨width,known,_⟩ | ⟨error,_,zero,_⟩
      · rw [known]
        exact (stacked width known).count
      · exact absurd zero some_

theorem wellFormed (stores : Stores column list) (fits : column.Fits) : column.WellFormed := by
  have small {n : Nat} (less : n < 2^63) : n < 2^64 := by omega
  have laid_of {offsets : List UInt64} {data : Bytes} {texts : List Bytes} (laid : Texts.of texts = ⟨offsets,data⟩)
      (less : data.length < 2^63) : Laid offsets data := by
    have all : Laid (Texts.of texts).offsets (Texts.of texts).data :=
      Texts.laid (by rw [Texts.flatten_of laid]; exact small less)
    rwa [laid] at all
  cases stores with
  | bool packed =>
    refine ⟨packed.long,fun row beyond => ?_⟩
    rw [packed.carries,List.getElem?_eq_none (by rw [packed.count]; exact beyond)]
    rfl
  | int64 values => trivial
  | float64 values => trivial
  | string laid => exact laid_of laid fits.2
  | binary laid => exact laid_of laid fits.2
  | @stringDict indices dictOffsets dictData entries texts laid each positive =>
    refine ⟨laid_of laid fits.2.2,fun index member => ?_⟩
    obtain ⟨row,there⟩ := List.getElem?_of_mem member
    obtain ⟨text,_,inEntries⟩ := dictionary_text each there
    obtain ⟨inside,_⟩ := List.getElem?_eq_some_iff.mp inEntries
    have counted := Texts.length_offsets entries
    rw [laid] at counted
    rw [counted]
    omega
  | fixedList stacked => exact ⟨_,stacked.length⟩
  | float16List stacked => exact ⟨_,stacked.length⟩
  | quantizedList unknown stacked =>
    exact ⟨fun zero => (unknown zero).1,fun width known => ⟨_,(stacked width known).length⟩⟩

end Stores

namespace Packed
variable {data otherData : Bytes} {len otherLen : Nat} {bits otherBits : List Bool}

section
variable (packed : Packed data len bits)
include packed

theorem push (value : Bool) :
    ∃ data', (ColumnData.bool data len).pushBool value = some (.bool data' (len + 1)) ∧
    Packed data' (len + 1) (bits ++ [value]) := by
  obtain ⟨rfl,long,carries⟩ := packed
  obtain ⟨room,grown,wide,same⟩ : ∃ room, (if bits.length / 8 ≥ data.length then data ++ [0] else data) = room ∧
      room.length = (bits.length + 1 + 7) / 8 ∧ Carries room bits := by
    refine ⟨_,rfl,?_⟩
    split
    · exact ⟨by rw [List.length_append,List.length_singleton]; omega,carries.grown 1⟩
    · exact ⟨by omega,carries⟩
  have inside : bits.length / 8 < room.length := by omega
  have next := same.snoc inside value
  have count : (bits ++ [value]).length = bits.length + 1 := by rw [List.length_append,List.length_singleton]
  rw [pushBool]
  simp only [grown]
  cases value with
  | true =>
    exact ⟨setBit room bits.length,by rw [if_pos rfl,if_pos inside],count,by rw [length_setBit]; exact wide,next⟩
  | false => exact ⟨_,if_neg (by decide),count,wide,next⟩

theorem pushAll (values : List Bool) :
    ∃ data', pushBools values (.bool data len) = some (.bool data' (len + values.length)) ∧
    Packed data' (len + values.length) (bits ++ values) := by
  induction values generalizing data len bits with
  | nil => exact ⟨data,rfl,by rw [List.append_nil]; exact packed⟩
  | cons value rest ih =>
    obtain ⟨middle,pushed,next⟩ := packed.push value
    obtain ⟨final,all,done⟩ := ih next
    rw [List.append_assoc,Nat.add_assoc,Nat.add_comm 1] at done
    refine ⟨final,?_,done⟩
    rw [pushBools,pushed,Option.bind_some,all,Nat.add_assoc,Nat.add_comm 1]
    rfl

theorem extend (values : List Bool) :
    ∃ data' len', (ColumnData.bool data len).extendBools values = .bool data' len' ∧
    Packed data' len' (bits ++ values) := by
  obtain ⟨rfl,long,carries⟩ := packed
  rw [extendBools]
  by_cases none_ : values.isEmpty
  · rw [if_pos none_,List.isEmpty_iff.mp none_,List.append_nil]
    exact ⟨data,_,rfl,rfl,long,carries⟩
  · rw [if_neg none_]
    have whole : data.take ((bits.length + values.length + 7) / 8) = data := List.take_of_length_le (by omega)
    have room := carries.grown ((bits.length + values.length + 7) / 8 - data.length)
    have wide : (data ++ List.replicate ((bits.length + values.length + 7) / 8 - data.length) (0 : UInt8)).length =
        (bits.length + values.length + 7) / 8 := by
      rw [List.length_append,List.length_replicate]
      omega
    obtain ⟨count,length,all⟩ := room.extended values (by rw [wide]; omega)
    refine ⟨_,_,rfl,?_⟩
    rw [whole]
    exact ⟨by rw [List.length_append,count],by rw [length,count,wide],all⟩

theorem append (also : Packed otherData otherLen otherBits) :
    ∃ data', appendBits data len otherData otherLen = some (.bool data' (len + otherLen)) ∧
    Packed data' (len + otherLen) (bits ++ otherBits) := by
  unfold appendBits
  by_cases none_ : otherLen = 0
  · obtain rfl : otherBits = [] := List.eq_nil_of_length_eq_zero (also.count.trans none_)
    rw [if_pos none_,none_,List.append_nil]
    exact ⟨data,rfl,packed⟩
  · rw [if_neg none_]
    by_cases aligned : len % 8 = 0
    · -- the whole bytes of the column end where those of the other begin
      have bytes : data.length * 8 = len := by
        rw [packed.long]
        omega
      have copied : min ((otherLen + 7) / 8) otherData.length = otherData.length :=
        Nat.min_eq_right (Nat.le_of_eq also.long)
      rw [if_pos aligned]
      refine ⟨_,rfl,by rw [List.length_append,packed.count,also.count],?_,?_⟩
      · rw [copied,List.take_length,List.length_append,List.length_append,List.length_replicate,packed.long,also.long]
        omega
      · rw [copied,List.take_length,also.long,Nat.sub_self,List.replicate_zero,List.append_nil]
        exact packed.carries.append also.carries (by rw [packed.count]; omega)
    · have values : (List.range otherLen).map (getBit otherData) = otherBits := by
        obtain ⟨rfl,_,carries⟩ := also
        refine List.ext_getElem (by rw [List.length_map,List.length_range]) fun index _ inside => ?_
        rw [List.getElem_map,List.getElem_range,carries,List.getElem?_eq_getElem inside,Option.getD_some]
      have all := packed.pushAll otherBits
      rw [also.count] at all
      rwa [if_neg aligned,values]

end

theorem packed_afresh (bit : Nat → Bool) (count : Nat) :
    Packed (packBits bit count (List.replicate ((count + 7) / 8) 0)) count ((List.range count).map bit) := by
  have length := (packBits_spec bit count (List.replicate ((count + 7) / 8) 0) (by rw [List.length_replicate]; omega)).1
  exact ⟨by rw [List.length_map,List.length_range],by rw [length,List.length_replicate],carries_packBits bit count⟩

end Packed

/-! Rows that are added. -/

private theorem length_chunksExact (bytes : Bytes) : (chunksExact bytes).length = bytes.length / 4 := by
  fun_induction chunksExact bytes with
  | case1 a b c d rest ih =>
    simp only [List.length_cons,ih]
    omega
  | case2 bytes short =>
    have few : bytes.length < 4 := by
      rcases bytes with _ | ⟨a,_ | ⟨b,_ | ⟨c,_ | ⟨d,rest⟩⟩⟩⟩
      · simp
      · simp
      · simp
      · simp
      · exact absurd rfl (short a b c d rest)
    rw [List.length_nil]
    omega

private theorem length_f16Bytes (f32Bytes : Bytes) : (f16Bytes f32Bytes).length = f32Bytes.length / 4 * 2 := by
  rw [f16Bytes,← length_chunksExact]
  induction chunksExact f32Bytes with
  | nil => rfl
  | cons bits rest ih =>
    rw [List.flatMap_cons,List.length_append,ih,length_leBytes,List.length_cons]
    omega

private theorem stacked_pushed {data row : Bytes} {dim : UInt32} {unit count : Nat} {records : List Bytes}
    (stacked : Stacked data (dim.toNat * unit) records) (positive : 0 < unit) (long : row.length = count * unit)
    (fits : Operation.FitsDim dim count) :
    Stacked (data ++ row) ((if dim = 0 then UInt32.ofNat count else dim).toNat * unit) (records ++ [row]) := by
  unfold Operation.FitsDim at fits
  split
  · rename_i zero
    rw [if_pos zero] at fits
    have none_ : records = [] := stacked.wide (by rw [zero]; exact Nat.zero_mul unit)
    have empty : data = [] := by
      rw [stacked.flat,none_]
      rfl
    have some_ : 0 < count * unit := Nat.mul_pos fits.1 positive
    rw [none_,empty,UInt32.toNat_ofNat_of_lt' fits.2]
    exact (Stacked.nil _).snoc long fun zero => by rw [zero] at long; exact absurd long.symm (Nat.ne_of_gt some_)
  · rename_i some_
    rw [if_neg some_] at fits
    have dimension : 0 < dim.toNat := Nat.pos_of_ne_zero fun zero => some_ (UInt32.toNat_inj.mp zero)
    have wide : 0 < count * unit := Nat.mul_pos (fits ▸ dimension) positive
    exact stacked.snoc (by rw [long,fits]) fun zero => by rw [zero] at long; exact absurd long.symm (Nat.ne_of_gt wide)

private theorem foldl_pushString (values : List Bytes) (texts : Texts) :
    values.foldl (fun column value => ColumnData.pushString value column) (.string texts.offsets texts.data) =
      .string (values.foldl Texts.push texts).offsets (values.foldl Texts.push texts).data := by
  induction values generalizing texts with
  | nil => rfl
  | cons value rest ih => exact ih (texts.push value)

private theorem foldl_pushBytes (values : List Bytes) (texts : Texts) :
    values.foldl (fun column value => ColumnData.pushBytes value column) (.binary texts.offsets texts.data) =
      .binary (values.foldl Texts.push texts).offsets (values.foldl Texts.push texts).data := by
  induction values generalizing texts with
  | nil => rfl
  | cons value rest ih => exact ih (texts.push value)

private theorem foldl_ignored {column : ColumnData} {push : ColumnData → Bytes → ColumnData}
    (ignored : ∀ value, push column value = column)
    (values : List Bytes) : values.foldl push column = column := by
  induction values with
  | nil => rfl
  | cons value rest ih => rw [List.foldl_cons,ignored,ih]

namespace Stores
variable {column : ColumnData} {list : List Cell} (encoder : VectorEncoder)

section
variable (stores : Stores column list)
include stores

private theorem none_added : Stores column (list ++ []) := by
  rw [List.append_nil]
  exact stores

theorem pushI64 (value : Int64) :
    Stores (column.pushI64 value) (list ++ (Operation.pushI64 value).added encoder column) := by
  cases column with
  | int64 values =>
    cases stores
    have next := Stores.int64 (values ++ [value])
    rwa [List.map_append] at next
  | _ => exact stores.none_added

theorem pushF64 (value : UInt64) :
    Stores (column.pushF64 value) (list ++ (Operation.pushF64 value).added encoder column) := by
  cases column with
  | float64 values =>
    cases stores
    have next := Stores.float64 (values ++ [value])
    rwa [List.map_append] at next
  | _ => exact stores.none_added

theorem pushBool (value : Bool) :
    ∃ next, column.pushBool value = some next ∧
    Stores next (list ++ (Operation.pushBool value).added encoder column) := by
  cases column with
  | bool data len =>
    cases stores with
    | @bool _ _ bits packed =>
      obtain ⟨data',pushed,next⟩ := packed.push value
      refine ⟨_,pushed,?_⟩
      have stored := Stores.bool next
      rwa [List.map_append] at stored
  | _ => exact ⟨_,rfl,stores.none_added⟩

theorem pushString (value : Bytes) :
    Stores (column.pushString value) (list ++ (Operation.pushString value).added encoder column) := by
  cases column with
  | string offsets data =>
    cases stores with
    | @string _ _ texts laid =>
      have all := Texts.of_foldl texts [value]
      rw [laid] at all
      have next := Stores.string all.symm
      rwa [List.map_append] at next
  | _ => exact stores.none_added

theorem pushBytes (value : Bytes) :
    Stores (column.pushBytes value) (list ++ (Operation.pushBytes value).added encoder column) := by
  cases column with
  | binary offsets data =>
    cases stores with
    | @binary _ _ texts laid =>
      have all := Texts.of_foldl texts [value]
      rw [laid] at all
      have next := Stores.binary all.symm
      rwa [List.map_append] at next
  | _ => exact stores.none_added

theorem extendI64 (values : List Int64) :
    Stores (column.extendI64 values) (list ++ (Operation.extendI64 values).added encoder column) := by
  cases column with
  | int64 before =>
    cases stores
    have next := Stores.int64 (before ++ values)
    rwa [List.map_append] at next
  | float64 before =>
    cases stores
    have next := Stores.float64 (before ++ values.map fun value => value.toFloat.toBits)
    rwa [List.map_append,List.map_map] at next
  | _ => exact stores.none_added

theorem extendF64 (values : List UInt64) :
    Stores (column.extendF64 values) (list ++ (Operation.extendF64 values).added encoder column) := by
  cases column with
  | float64 before =>
    cases stores
    have next := Stores.float64 (before ++ values)
    rwa [List.map_append] at next
  | _ => exact stores.none_added

theorem extendStrings (values : List Bytes) :
    Stores (column.extendStrings values) (list ++ (Operation.extendStrings values).added encoder column) := by
  unfold ColumnData.extendStrings
  cases column with
  | string offsets data =>
    cases stores with
    | @string _ _ texts laid =>
      have all := Texts.of_foldl texts values
      rw [laid] at all
      have next := Stores.string all.symm
      rw [List.map_append] at next
      rwa [foldl_pushString values ⟨offsets,data⟩]
  | _ =>
    rw [foldl_ignored fun value => rfl]
    exact stores.none_added

theorem extendBytes (values : List Bytes) :
    Stores (column.extendBytes values) (list ++ (Operation.extendBytes values).added encoder column) := by
  unfold ColumnData.extendBytes
  cases column with
  | binary offsets data =>
    cases stores with
    | @binary _ _ texts laid =>
      have all := Texts.of_foldl texts values
      rw [laid] at all
      have next := Stores.binary all.symm
      rw [List.map_append] at next
      rwa [foldl_pushBytes values ⟨offsets,data⟩]
  | _ =>
    rw [foldl_ignored fun value => rfl]
    exact stores.none_added

theorem extendBools (values : List Bool) :
    Stores (column.extendBools values) (list ++ (Operation.extendBools values).added encoder column) := by
  cases column with
  | bool data len =>
    cases stores with
    | @bool _ _ bits packed =>
      obtain ⟨data',len',extended,next⟩ := packed.extend values
      rw [extended]
      have stored := Stores.bool next
      rwa [List.map_append] at stored
  | _ => exact stores.none_added

theorem pushFixedList {bytes : Bytes} (exact_ : (Operation.pushFixedList bytes).Exact column) :
    Stores (column.pushFixedList bytes) (list ++ (Operation.pushFixedList bytes).added encoder column) := by
  cases column with
  | fixedList data dim =>
    cases stores with
    | fixedList stacked =>
      obtain ⟨whole,fits⟩ := exact_
      have next := Stores.fixedList (stacked_pushed stacked (by decide) (show bytes.length =
        bytes.length / 4 * 4 by omega) fits)
      rw [List.map_append] at next
      rw [ColumnData.pushFixedList]
      simp only [whole,and_true]
      exact next
  | _ => exact stores.none_added

theorem pushFloat16List {bytes : Bytes} (exact_ : (Operation.pushFloat16List bytes).Exact column) :
    Stores (column.pushFloat16List bytes) (list ++ (Operation.pushFloat16List bytes).added encoder column) := by
  cases column with
  | float16List data dim =>
    cases stores with
    | float16List stacked =>
      obtain ⟨whole,fits⟩ := exact_
      have next := Stores.float16List (stacked_pushed stacked (by decide) (show bytes.length =
        bytes.length / 2 * 2 by omega) fits)
      rw [List.map_append] at next
      rw [ColumnData.pushFloat16List]
      simp only [whole,and_true]
      exact next
  | _ => exact stores.none_added

theorem pushFloat16ListFromF32 {f32Bytes : Bytes}
    (exact_ : (Operation.pushFloat16ListFromF32 f32Bytes).Exact column) :
    Stores (column.pushFloat16ListFromF32 f32Bytes) (list ++ (Operation.pushFloat16ListFromF32 f32Bytes).added encoder
      column) := by
  cases column with
  | float16List data dim =>
    cases stores with
    | float16List stacked =>
      have next := Stores.float16List (stacked_pushed stacked (by decide) (length_f16Bytes f32Bytes) exact_)
      rw [List.map_append] at next
      have first : (dim = 0 ∧ 0 < f32Bytes.length / 4) ↔ dim = 0 := by
        refine and_iff_left_of_imp fun zero => ?_
        have fits : Operation.FitsDim dim (f32Bytes.length / 4) := exact_
        rw [Operation.FitsDim,if_pos zero] at fits
        exact fits.1
      rw [ColumnData.pushFloat16ListFromF32]
      simp only [first]
      exact next
  | _ => exact stores.none_added

theorem pushQuantizedListFromF32 {f32Bytes : Bytes}
    (exact_ : (Operation.pushQuantizedListFromF32 f32Bytes).Exact column) :
    Stores (column.pushQuantizedListFromF32 encoder f32Bytes).1 (list ++
      (Operation.pushQuantizedListFromF32 f32Bytes).added encoder column) := by
  cases column with
  | quantizedList data dim codec =>
    cases stores with
    | @quantizedList _ _ _ records unknown stacked =>
      have stored : Stores (.quantizedList data dim codec) (records.map .bytes) := .quantizedList unknown stacked
      unfold ColumnData.pushQuantizedListFromF32 Operation.added
      simp only [List.isEmpty_iff,length_chunksExact,← or_assoc]
      by_cases refused : f32Bytes = [] ∨ f32Bytes.length % 4 ≠ 0
      · rw [if_pos refused,if_pos (Or.inl refused)]
        exact stored.none_added
      · rw [if_neg refused]
        by_cases other : dim ≠ 0 ∧ dim.toNat ≠ f32Bytes.length / 4
        · rw [if_pos other,if_pos (Or.inr other)]
          exact stored.none_added
        · have taken := not_or.mpr ⟨refused,other⟩
          rw [if_neg other,if_neg taken]
          obtain ⟨some_,whole⟩ := not_or.mp refused
          have long : 0 < f32Bytes.length / 4 := by
            have positive := List.length_pos_iff.mpr some_
            omega
          -- the dimension after the push is the number of values
          have known : (if dim = 0 then UInt32.ofNat (f32Bytes.length / 4) else dim).toNat = f32Bytes.length / 4 := by
            split
            · rename_i zero
              exact UInt32.toNat_ofNat_of_lt' (exact_ zero (not_not.mp whole))
            · rename_i nonzero
              exact not_not.mp (not_and.mp other nonzero)
          have named : (if dim = 0 then UInt32.ofNat (f32Bytes.length / 4) else dim) ≠ 0 := by
            intro zero
            rw [zero] at known
            exact absurd known.symm (Nat.ne_of_gt long)
          have before (width : Nat) (rowWidth : codec.rowWidth (f32Bytes.length / 4) =
            .ok width) : Stacked data width records := by
            by_cases zero : dim = 0
            · rw [(unknown zero).1,(unknown zero).2]
              exact Stacked.nil width
            · exact stacked width (by rw [if_neg zero] at known; rw [known]; exact rowWidth)
          generalize (if dim = 0 then UInt32.ofNat (f32Bytes.length / 4) else dim) = after at known named ⊢
          cases encoded : encoder.encodeVector codec (chunksExact f32Bytes) with
          | error error =>
            refine none_added (.quantizedList (fun zero => absurd zero named) fun width rowWidth => ?_)
            rw [known] at rowWidth
            exact before width rowWidth
          | ok row =>
            have wide := encoder.width codec _ row encoded
            rw [length_chunksExact] at wide
            have some_ : row ≠ [] := by
              rintro rfl
              rcases rowWidth_cases codec after with ⟨width,rowWidth,positive | zero,_⟩ | ⟨error,_,zero,_⟩
              · rw [known,wide] at rowWidth
                cases rowWidth
                exact Nat.not_lt_zero _ positive
              · exact named zero
              · exact named zero
            have next : Stores (.quantizedList (data ++ row) after codec) ((records ++ [row]).map .bytes) := by
              refine .quantizedList (fun zero => absurd zero named) fun width rowWidth => ?_
              rw [known] at rowWidth
              have same : row.length = width := by
                rw [wide] at rowWidth
                exact Except.ok.inj rowWidth
              exact (before width rowWidth).snoc same some_
            rwa [List.map_append] at next
  | _ => exact stores.none_added

end

end Stores

/-! Columns that are appended. -/

private theorem appendVectors_spec {data otherData : Bytes} {dim otherDim : UInt32} {rows others : List Bytes}
    (unknown : dim = 0 → data = [] ∧ rows = []) (otherUnknown : otherDim = 0 → otherData = [] ∧ others = []) :
    (dim = otherDim ∧ appendVectors data dim otherData otherDim = (data ++ otherData,dim) ∧
      sameDim dim otherDim = true) ∨
    (dim = 0 ∧ appendVectors data dim otherData otherDim = (otherData,otherDim) ∧ sameDim dim otherDim = true ∧
      rows = []) ∨
    (otherDim = 0 ∧ appendVectors data dim otherData otherDim = (data,dim) ∧ sameDim dim otherDim = true ∧
      others = []) ∨
    (appendVectors data dim otherData otherDim = (data,dim) ∧ sameDim dim otherDim = false) := by
  have positive : 0 < otherDim ↔ otherDim ≠ 0 := by
    rw [UInt32.pos_iff_ne_zero]
  unfold appendVectors sameDim
  simp only [positive]
  by_cases same : dim = otherDim
  · subst same
    left
    simp
  · by_cases zero : dim = 0
    · right; left
      have some_ : otherDim ≠ 0 := fun none_ => same (zero.trans none_.symm)
      exact ⟨zero,by simp [zero,some_,(unknown zero).1],by simp [zero],(unknown zero).2⟩
    · right; right
      by_cases none_ : otherDim = 0
      · left
        exact ⟨none_,by simp [zero,none_],by simp [none_],(otherUnknown none_).2⟩
      · right
        simp [zero,none_,same]

private theorem stacked_append {data otherData : Bytes} {dim otherDim : UInt32} {unit : Nat} {rows others : List Bytes}
    (stacked : Stacked data (dim.toNat * unit) rows) (also : Stacked otherData (otherDim.toNat * unit) others) :
    Stacked (appendVectors data dim otherData otherDim).1 ((appendVectors data dim otherData otherDim).2.toNat * unit)
      (if sameDim dim otherDim then rows ++ others else rows) := by
  have none_ {data : Bytes} {dim : UInt32} {rows : List Bytes} (stacked : Stacked data (dim.toNat * unit) rows)
    (zero : dim = 0) :
      data = [] ∧ rows = [] := by
    have empty : rows = [] := stacked.wide (by rw [zero]; exact Nat.zero_mul unit)
    exact ⟨by rw [stacked.flat,empty]; rfl,empty⟩
  rcases appendVectors_spec (none_ stacked) (none_ also) with ⟨rfl,both,same⟩ | ⟨_,both,same,empty⟩ | ⟨_,both,same,
    empty⟩ | ⟨both,other⟩
  · rw [both,if_pos same]
    exact stacked.append also
  · rw [both,if_pos same,empty]
    exact also
  · rw [both,if_pos same,empty,List.append_nil]
    exact stacked
  · rw [both,if_neg (by rw [other]; decide)]
    exact stacked

private theorem rebased {indices otherIndices : List UInt32} {entries others texts more : List Bytes}
    (each : indices.map (fun index => entries[index.toNat - 1]?) = texts.map some)
    (positive : ∀ index ∈ indices, index ≠ 0)
    (also : otherIndices.map (fun index => others[index.toNat - 1]?) = more.map some)
    (alsoPositive : ∀ index ∈ otherIndices, index ≠ 0)
    (fits : ∀ index ∈ otherIndices, index.toNat + entries.length < 2^32) :
    (indices ++ otherIndices.map (· + UInt32.ofNat entries.length)).map (fun index =>
      (entries ++ others)[index.toNat - 1]?) =
      (texts ++ more).map some ∧ ∀ index ∈ indices ++ otherIndices.map (· + UInt32.ofNat entries.length),
      index ≠ 0 := by
  have counted {index : UInt32} (some_ : index ≠ 0) : index.toNat ≠ 0 := fun zero => some_ (UInt32.toNat_inj.mp zero)
  have moved {index : UInt32} (member : index ∈ otherIndices) : (index + UInt32.ofNat entries.length).toNat =
    index.toNat + entries.length := by
    have small := fits index member
    rw [UInt32.toNat_add,UInt32.toNat_ofNat_of_lt' (show entries.length < 2^32 by omega),Nat.mod_eq_of_lt small]
  refine ⟨?_,fun index member => ?_⟩
  · rw [List.map_append,List.map_append,List.map_map]
    congr 1
    · rw [← each]
      refine List.map_congr_left fun index member => ?_
      obtain ⟨row,there⟩ := List.getElem?_of_mem member
      obtain ⟨text,_,inEntries⟩ := Stores.dictionary_text each there
      obtain ⟨inside,_⟩ := List.getElem?_eq_some_iff.mp inEntries
      exact List.getElem?_append_left inside
    · rw [← also]
      refine List.map_congr_left fun index member => ?_
      have some_ := counted (alsoPositive index member)
      change (entries ++ others)[(index + UInt32.ofNat entries.length).toNat - 1]? = _
      rw [moved member,List.getElem?_append_right (by omega)]
      congr 1
      omega
  · rcases List.mem_append.mp member with old | new
    · exact positive index old
    · obtain ⟨index,other,rfl⟩ := List.mem_map.mp new
      have some_ := counted (alsoPositive index other)
      intro zero
      have same := congrArg UInt32.toNat zero
      rw [moved other] at same
      change _ = 0 at same
      omega

namespace Stores
variable {column other : ColumnData} {list more : List Cell}

private theorem apart (stores : Stores column list) (ignored : column.append other = some column)
    (different : column.joins other = false) :
    ∃ next, column.append other = some next ∧ Stores next (if column.joins other then list ++ more else list) :=
  ⟨column,ignored,by rw [if_neg (by rw [different]; decide)]; exact stores⟩

theorem append (stores : Stores column list) (also : Stores other more)
    (exact_ : (Operation.append other).Exact column) :
    ∃ next, column.append other = some next ∧ Stores next (if column.joins other then list ++ more else list) := by
  cases stores with
  | bool packed =>
    cases also with
    | bool others =>
      obtain ⟨data',appended,both⟩ := packed.append others
      exact ⟨_,appended,by rw [← List.map_append]; exact .bool both⟩
    | _ => exact apart (.bool packed) rfl rfl
  | int64 values =>
    cases also with
    | int64 others => exact ⟨_,rfl,by rw [← List.map_append]; exact .int64 (values ++ others)⟩
    | _ => exact apart (.int64 values) rfl rfl
  | float64 values =>
    cases also with
    | float64 others => exact ⟨_,rfl,by rw [← List.map_append]; exact .float64 (values ++ others)⟩
    | _ => exact apart (.float64 values) rfl rfl
  | @string offsets data texts laid =>
    cases also with
    | @string otherOffsets otherData others laid' =>
      have both := appendTexts_of texts others
      rw [laid,laid'] at both
      refine ⟨_,by rw [ColumnData.append,both]; rfl,?_⟩
      rw [← List.map_append]
      exact .string rfl
    | _ => exact apart (.string laid) rfl rfl
  | @binary offsets data texts laid =>
    cases also with
    | @binary otherOffsets otherData others laid' =>
      have both := appendTexts_of texts others
      rw [laid,laid'] at both
      refine ⟨_,by rw [ColumnData.append,both]; rfl,?_⟩
      rw [← List.map_append]
      exact .binary rfl
    | _ => exact apart (.binary laid) rfl rfl
  | @stringDict indices dictOffsets dictData entries texts laid each positive =>
    cases also with
    | @stringDict otherIndices otherOffsets otherData others more laid' each' positive' =>
      have both := appendTexts_of entries others
      rw [laid,laid'] at both
      have counted := Texts.length_offsets entries
      rw [laid] at counted
      have offset : (if 0 < dictOffsets.length then UInt32.ofNat dictOffsets.length - 1 else 0) =
        UInt32.ofNat entries.length := by
        rw [counted,if_pos (Nat.succ_pos _),UInt32.ofNat_add]
        exact UInt32.add_sub_cancel _ _
      have fits (index : UInt32) (member : index ∈ otherIndices) : index.toNat + entries.length < 2^32 := by
        have small := exact_ index member
        rwa [counted,Nat.add_sub_cancel] at small
      obtain ⟨rows,nonzero⟩ := rebased each positive each' positive' fits
      refine ⟨_,by rw [ColumnData.append,both,Option.map_some,offset],?_⟩
      have laid'' : Texts.of (entries ++ others) = ⟨(Texts.of (entries ++ others)).offsets,
        (Texts.of (entries ++ others)).data⟩ := rfl
      have stored := Stores.stringDict laid'' rows nonzero
      rwa [List.map_append] at stored
    | _ => exact apart (.stringDict laid each positive) rfl rfl
  | @fixedList data dim rows stacked =>
    cases also with
    | @fixedList otherData otherDim others stacked' =>
      refine ⟨_,rfl,?_⟩
      have stored := Stores.fixedList (stacked_append stacked stacked')
      rwa [apply_ite (List.map Cell.bytes),List.map_append] at stored
    | _ => exact apart (.fixedList stacked) rfl rfl
  | @float16List data dim rows stacked =>
    cases also with
    | @float16List otherData otherDim others stacked' =>
      refine ⟨_,rfl,?_⟩
      have stored := Stores.float16List (stacked_append stacked stacked')
      rwa [apply_ite (List.map Cell.bytes),List.map_append] at stored
    | _ => exact apart (.float16List stacked) rfl rfl
  | @quantizedList data dim codec rows unknown stacked =>
    cases also with
    | @quantizedList otherData otherDim otherCodec others unknown' stacked' =>
      by_cases one : codec = otherCodec
      · subst one
        have joined : (ColumnData.quantizedList data dim codec).joins (.quantizedList otherData otherDim codec) =
          sameDim dim otherDim := by
          simp [joins]
        refine ⟨_,if_pos rfl,?_⟩
        rw [joined]
        rcases appendVectors_spec unknown unknown' with ⟨rfl,both,same⟩ | ⟨_,both,same,empty⟩ | ⟨_,both,same,
          empty⟩ | ⟨both,different⟩
        · simp only [both,if_pos same,← List.map_append]
          refine .quantizedList (fun zero => ?_) fun width known => (stacked width known).append (stacked' width known)
          rw [(unknown zero).1,(unknown zero).2,(unknown' zero).1,(unknown' zero).2]
          exact ⟨rfl,rfl⟩
        · simp only [both,if_pos same,empty,List.map_nil,List.nil_append]
          exact .quantizedList unknown' stacked'
        · simp only [both,if_pos same,empty,List.map_nil,List.append_nil]
          exact .quantizedList unknown stacked
        · simp only [both,different,Bool.false_eq_true,if_false]
          exact .quantizedList unknown stacked
      · exact apart (.quantizedList unknown stacked) (if_neg one) (by simp [joins,one])
    | _ => exact apart (.quantizedList unknown stacked) rfl rfl

end Stores

namespace Stores
variable {column : ColumnData} {list : List Cell}

private theorem chosen {α : Type} (inject : α → Cell) (items : List α) (indices : List Nat) :
    indices.filterMap ((items.map inject)[·]?) = (indices.filterMap (items[·]?)).map inject := by
  rw [List.map_filterMap]
  exact congrArg (List.filterMap · indices) (funext fun index => List.getElem?_map)

private theorem chosen_all {α : Type} {items : List α} {indices : List Nat}
    (inRange : ∀ index ∈ indices, index < items.length) (missing : α) :
    indices.map (fun index => items[index]?.getD missing) = indices.filterMap (items[·]?) := by
  induction indices with
  | nil => rfl
  | cons index rest ih =>
    obtain ⟨item,there⟩ : ∃ item, items[index]? = some item :=
      ⟨_,List.getElem?_eq_getElem (inRange index List.mem_cons_self)⟩
    rw [List.map_cons,List.filterMap_cons_some there,there,ih fun other member =>
      inRange other (List.mem_cons_of_mem _ member)]
    rfl

private theorem filtered {offsets : List UInt64} {data : Bytes} {texts : List Bytes}
    (laid : Texts.of texts = ⟨offsets,data⟩) (less : data.length < 2^63) (indices : List Nat) :
    filterTexts offsets data indices = some (Texts.of (indices.filterMap (texts[·]?))) ∧
      Texts.of (indices.filterMap (texts[·]?)) =
        ⟨(Texts.of (indices.filterMap (texts[·]?))).offsets,(Texts.of (indices.filterMap (texts[·]?))).data⟩ := by
  have small : texts.flatten.length < 2^64 := by
    rw [Texts.flatten_of laid]
    omega
  have kept := filterTexts_of small indices
  rw [laid] at kept
  exact ⟨kept,rfl⟩

theorem filterByIndices (stores : Stores column list) (fits : column.Fits) {indices : List Nat}
    (given : (Operation.filterByIndices indices).Given column)
    (exact_ : (Operation.filterByIndices indices).Exact column) :
    ∃ next, column.filterByIndices indices = some next ∧ Stores next (indices.filterMap (list[·]?)) := by
  have inRange (index : Nat) (member : index ∈ indices) : index < list.length := stores.len ▸ given index member
  cases stores with
  | @bool data len bits packed =>
    rw [List.length_map] at inRange
    refine ⟨_,rfl,?_⟩
    rw [chosen]
    have fresh := Packed.packed_afresh (fun newIdx => (indices[newIdx]?.map (getBit data)).getD false) indices.length
    have same : (List.range indices.length).map (fun newIdx => (indices[newIdx]?.map (getBit data)).getD false) =
      indices.filterMap (bits[·]?) := by
      rw [← chosen_all inRange false]
      refine List.ext_getElem (by rw [List.length_map,List.length_map,List.length_range]) fun index _ inside => ?_
      rw [List.length_map] at inside
      rw [List.getElem_map,List.getElem_range,List.getElem_map,List.getElem?_eq_getElem inside]
      exact packed.carries _
    rw [same] at fresh
    exact .bool fresh
  | int64 values =>
    rw [List.length_map] at inRange
    refine ⟨_,rfl,?_⟩
    rw [chosen,← chosen_all inRange 0]
    exact .int64 _
  | float64 values =>
    rw [List.length_map] at inRange
    refine ⟨_,rfl,?_⟩
    rw [chosen,← chosen_all inRange 0]
    exact .float64 _
  | @string offsets data texts laid =>
    obtain ⟨found,kept⟩ := filtered laid fits.2 indices
    refine ⟨_,by rw [ColumnData.filterByIndices,found]; rfl,?_⟩
    rw [chosen]
    exact .string kept
  | @binary offsets data texts laid =>
    obtain ⟨found,kept⟩ := filtered laid fits.2 indices
    refine ⟨_,by rw [ColumnData.filterByIndices,found]; rfl,?_⟩
    rw [chosen]
    exact .binary kept
  | @stringDict rowIndices dictOffsets dictData entries texts laid each positive =>
    refine ⟨_,rfl,?_⟩
    rw [chosen]
    refine .stringDict laid ?_ fun index member => ?_
    · rw [List.map_filterMap,List.map_filterMap]
      refine congrArg (List.filterMap · indices) (funext fun row => ?_)
      have same := congrArg (fun found => found[row]?) each
      simpa only [List.getElem?_map] using same
    · obtain ⟨row,_,there⟩ := List.mem_filterMap.mp member
      exact positive index (List.mem_of_getElem? there)
  | fixedList stacked =>
    rw [List.length_map] at inRange
    exact ⟨_,rfl,by rw [chosen]; exact .fixedList (filterStrided_stacked stacked inRange)⟩
  | float16List stacked =>
    rw [List.length_map] at inRange
    exact ⟨_,rfl,by rw [chosen]; exact .float16List (filterStrided_stacked stacked inRange)⟩
  | @quantizedList data dim codec records unknown stacked =>
    rw [List.length_map] at inRange
    rcases rowWidth_cases codec dim with ⟨width,known,_⟩ | ⟨_,_,_,unsized⟩
    · refine ⟨_,by rw [ColumnData.filterByIndices,known],?_⟩
      rw [chosen]
      refine .quantizedList (fun zero => ?_) fun other same => ?_
      · have empty := (unknown zero).2
        rw [empty] at inRange
        obtain rfl : indices = [] := List.eq_nil_iff_forall_not_mem.mpr fun index member =>
          Nat.not_lt_zero _ (inRange index member)
        exact ⟨rfl,rfl⟩
      · rw [known] at same
        cases same
        exact filterStrided_stacked (stacked width known) inRange
    · exact absurd exact_ unsized

/-! Rows of a range. -/

private theorem cut_rows {α : Type} (inject : α → Cell) (items : List α) (start stop : Nat) :
    ((items.map inject).drop start).take (stop - start) = ((items.drop start).take (stop - start)).map inject := by
  rw [List.map_take,List.map_drop]

private theorem cut_some {α : Type} (items : List α) {start stop : Nat} (order : start ≤ stop) :
    between items (min start items.length) (min stop items.length) = some ((items.drop start).take (stop - start)) := by
  rw [← clamped items order]
  exact if_pos ⟨by omega,Nat.min_le_right _ _⟩

theorem sliceRange (stores : Stores column list) (fits : column.Fits) {start stop : Nat} (order : start ≤ stop)
    (exact_ : (Operation.sliceRange start stop).Exact column) :
    ∃ next, column.sliceRange start stop = some next ∧ Stores next ((list.drop start).take (stop - start)) := by
  have small {n : Nat} (less : n < 2^63) : n < 2^64 := by omega
  cases stores with
  | @bool data len bits packed =>
    refine ⟨_,rfl,?_⟩
    rw [cut_rows]
    have fresh := Packed.packed_afresh (fun i => getBit data (min start len + i)) (min stop len - min start len)
    have same : (List.range (min stop len - min start len)).map (fun i => getBit data (min start len + i)) =
        (bits.drop start).take (stop - start) := by
      rw [← clamped bits order,packed.count]
      refine List.ext_getElem ?_ fun index first _ => ?_
      · rw [List.length_map,List.length_range,List.length_take,List.length_drop,packed.count]
        omega
      · rw [List.length_map,List.length_range] at first
        have inside : min start len + index < bits.length := by
          rw [packed.count]
          omega
        rw [List.getElem_map,List.getElem_range,List.getElem_take,List.getElem_drop,packed.carries,
          List.getElem?_eq_getElem inside]
        rfl
    rw [same] at fresh
    exact .bool fresh
  | int64 values => exact ⟨_,by rw [ColumnData.sliceRange,cut_some values order]; rfl,by rw [cut_rows]; exact .int64 _⟩
  | float64 values =>
    exact ⟨_,by rw [ColumnData.sliceRange,cut_some values order]; rfl,by rw [cut_rows]; exact .float64 _⟩
  | @string offsets data texts laid =>
    have cut := sliceOffsets_of (small (Texts.flatten_of laid ▸ fits.2)) order
    rw [laid] at cut
    exact ⟨_,by rw [ColumnData.sliceRange,cut]; rfl,by rw [cut_rows]; exact .string rfl⟩
  | @binary offsets data texts laid =>
    have cut := sliceOffsets_of (small (Texts.flatten_of laid ▸ fits.2)) order
    rw [laid] at cut
    exact ⟨_,by rw [ColumnData.sliceRange,cut]; rfl,by rw [cut_rows]; exact .binary rfl⟩
  | @stringDict indices dictOffsets dictData entries texts laid each positive =>
    refine ⟨_,by rw [ColumnData.sliceRange,cut_some indices order]; rfl,?_⟩
    rw [cut_rows]
    refine .stringDict laid ?_ fun index member => positive index (List.mem_of_mem_drop (List.mem_of_mem_take member))
    rw [List.map_take,List.map_drop,each,List.map_take,List.map_drop]
  | fixedList stacked =>
    obtain ⟨cut,found,part⟩ := sliceStrided_stacked stacked order
    exact ⟨_,by rw [ColumnData.sliceRange,found]; rfl,by rw [cut_rows]; exact .fixedList part⟩
  | float16List stacked =>
    obtain ⟨cut,found,part⟩ := sliceStrided_stacked stacked order
    exact ⟨_,by rw [ColumnData.sliceRange,found]; rfl,by rw [cut_rows]; exact .float16List part⟩
  | @quantizedList data dim codec records unknown stacked =>
    rcases rowWidth_cases codec dim with ⟨width,known,_⟩ | ⟨_,_,_,unsized⟩
    · obtain ⟨cut,found,part⟩ := sliceStrided_stacked (stacked width known) order
      refine ⟨_,by rw [ColumnData.sliceRange,known]; simp only [found]; rfl,?_⟩
      rw [cut_rows]
      refine .quantizedList (fun zero => ?_) fun other same => ?_
      · obtain ⟨_,empty⟩ := unknown zero
        rw [empty,List.drop_nil,List.take_nil] at part ⊢
        exact ⟨part.flat,rfl⟩
      · rw [known] at same
        cases same
        exact part
    · exact absurd exact_ unsized

/-! Dictionaries. -/

private theorem texts_of {pieces : List Bytes} (small : pieces.flatten.length < 2^64) :
    ColumnData.texts (Texts.of pieces).offsets (Texts.of pieces).data = some pieces := by
  rw [ColumnData.texts,mapM_eq_some,Texts.length_offsets,Nat.add_sub_cancel]
  refine List.ext_getElem (by rw [List.length_map,List.length_map,List.length_range]) fun index first _ => ?_
  rw [List.length_map,List.length_range] at first
  rw [List.getElem_map,List.getElem_range,List.getElem_map]
  exact between_text small (List.getElem?_eq_getElem first)

theorem toDictEncoded (stores : Stores column list) (fits : column.Fits)
    (exact_ : Operation.toDictEncoded.Exact column) :
    ∃ next, column.toDictEncoded.map (·.getD column) = some next ∧ Stores next list := by
  cases column with
  | string offsets data =>
    have rows := stores.rows fits
    cases stores with
    | @string _ _ texts laid =>
      have small : texts.flatten.length < 2^64 := by
        have less := fits.2
        rw [Texts.flatten_of laid]
        omega
      have read := texts_of small
      rw [laid] at read
      have few : texts.dedup.length < 2^32 := by
        have distinct : (ColumnData.string offsets data).rows.dedup.length < 2^32 := exact_
        rw [rows,List.dedup_map_of_injective fun _ _ => Cell.bytes.inj,List.length_map] at distinct
        exact distinct
      have holds := holds_all texts few
      refine ⟨_,by rw [ColumnData.toDictEncoded,read]; rfl,
        .stringDict holds.dict.symm holds.indices fun index member => ?_⟩
      exact (holds.positive index member).1
  | _ => exact ⟨_,rfl,stores⟩

theorem decodeStringDict (stores : Stores column list) (fits : column.Fits) : Stores column.decodeStringDict list := by
  cases column with
  | stringDict indices dictOffsets dictData =>
    cases stores with
    | @stringDict _ _ _ entries texts laid each positive =>
      have small : entries.flatten.length < 2^64 := by
        have less := fits.2.2
        rw [Texts.flatten_of laid]
        omega
      have decoded : indices.map (dictText dictOffsets dictData) = texts := by
        rw [← List.map_id texts]
        refine Stores.dictionary_rows each fun index member text inEntries => ?_
        have some_ := positive index member
        have counted : index.toNat ≠ 0 := fun zero => some_ (UInt32.toNat_inj.mp zero)
        obtain ⟨inside,_⟩ := List.getElem?_eq_some_iff.mp inEntries
        have counts := Texts.length_offsets entries
        have cut := between_text small inEntries
        rw [laid] at counts cut
        rw [Nat.sub_add_cancel (Nat.pos_of_ne_zero counted)] at cut
        have known : ¬ (index = 0 ∨ dictOffsets.length ≤ index.toNat) := by
          rw [counts]
          exact not_or.mpr ⟨some_,by omega⟩
        obtain ⟨order,bounded,same⟩ := between_some cut
        rw [dictText,if_neg known]
        simp only
        rw [if_pos ⟨bounded,order⟩,same,id]
      have folded : indices.foldl (fun texts index => texts.push (dictText dictOffsets dictData index)) Texts.empty =
        Texts.of texts := by
        rw [← decoded,Texts.of,List.foldl_map]
      rw [ColumnData.decodeStringDict,folded]
      exact .string rfl
  | _ => exact stores

/-! One step and whole runs. -/

variable (encoder : VectorEncoder)

theorem run {operation : Operation} (stores : Stores column list) (fits : column.Fits)
    (operand : ∀ other, operation = .append other → Stores other other.rows) (given : operation.Given column)
    (exact_ : operation.Exact column) :
    ∃ next, operation.run encoder column = some next ∧ Stores next (operation.onRows encoder column) := by
  have rows := stores.rows fits
  subst rows
  cases operation with
  | pushI64 value => exact ⟨_,rfl,stores.pushI64 encoder value⟩
  | pushF64 value => exact ⟨_,rfl,stores.pushF64 encoder value⟩
  | pushBool value => exact stores.pushBool encoder value
  | pushString value => exact ⟨_,rfl,stores.pushString encoder value⟩
  | pushBytes value => exact ⟨_,rfl,stores.pushBytes encoder value⟩
  | pushFixedList bytes => exact ⟨_,rfl,stores.pushFixedList encoder exact_⟩
  | pushFloat16List bytes => exact ⟨_,rfl,stores.pushFloat16List encoder exact_⟩
  | pushFloat16ListFromF32 f32Bytes => exact ⟨_,rfl,stores.pushFloat16ListFromF32 encoder exact_⟩
  | pushQuantizedListFromF32 f32Bytes => exact ⟨_,rfl,stores.pushQuantizedListFromF32 encoder exact_⟩
  | extendI64 values => exact ⟨_,rfl,stores.extendI64 encoder values⟩
  | extendF64 values => exact ⟨_,rfl,stores.extendF64 encoder values⟩
  | extendStrings values => exact ⟨_,rfl,stores.extendStrings encoder values⟩
  | extendBytes values => exact ⟨_,rfl,stores.extendBytes encoder values⟩
  | extendBools values => exact ⟨_,rfl,stores.extendBools encoder values⟩
  | append other => exact stores.append (operand other rfl) exact_
  | filterByIndices indices => exact stores.filterByIndices fits given exact_
  | sliceRange start stop => exact stores.sliceRange fits given exact_
  | toDictEncoded => exact stores.toDictEncoded fits exact_
  | decodeStringDict => exact ⟨_,rfl,stores.decodeStringDict fits⟩

end Stores

theorem fits_new (colType : ColumnType) : (ColumnData.new colType).Fits := by
  cases colType <;> simp [ColumnData.new,Fits]

theorem Reachable.stores {encoder : VectorEncoder} {column : ColumnData}
    (reached : Reachable encoder (fun operation column => operation.Given column ∧ operation.Exact column) column) :
    column.Fits ∧ Stores column column.rows := by
  induction reached with
  | new colType =>
    have stores := Stores.new colType
    exact ⟨fits_new colType,by rwa [stores.rows (fits_new colType)]⟩
  | step operation reached operand permitted ran fits column_ih operand_ih =>
    obtain ⟨next,done,stores⟩ := column_ih.2.run encoder column_ih.1 (fun other is =>
      (operand_ih other is).2) permitted.1 permitted.2
    obtain rfl := Option.some.inj (ran.symm.trans done)
    exact ⟨fits,by rwa [stores.rows fits]⟩

theorem operations_are_list_operations (encoder : VectorEncoder) :
    ListOperations encoder fun operation column => operation.Given column ∧ operation.Exact column := by
  intro column reached
  obtain ⟨fits,stores⟩ := reached.stores
  refine ⟨stores.wellFormed fits,fun operation operand permitted => ?_⟩
  obtain ⟨next,ran,stored⟩ := stores.run encoder fits (fun other is => (operand other is).stores.2) permitted.1
    permitted.2
  exact ⟨next,ran,fun fits => stored.rows fits⟩

/-- No row of a TurboQuant column without vectors can be cut out, not even none. -/
theorem turbo_without_dimension : ¬ ∃ encoder : VectorEncoder, ListOperations encoder Operation.Given := by
  rintro ⟨encoder,listOperations⟩
  obtain ⟨_,step⟩ := listOperations _ (.new .turboQuant2Vector)
  obtain ⟨next,ran,_⟩ := step (.sliceRange 0 0) nofun (Nat.le_refl 0)
  cases ran

end ApexBase.Column
