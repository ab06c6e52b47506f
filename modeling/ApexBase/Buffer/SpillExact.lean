import ApexBase.Buffer.Spill
import ApexBase.Column.SliceRows

/-! When a spill moves exactly the live rows and otherwise changes nothing. -/
namespace ApexBase.Buffer
open Data Library Library.Wire Library.Assoc Column Column.ColumnData
open Storage.DeltaFile (TypedBatch DeltaTable)

namespace Extracted
variable {rows : Nat}

def kind : Extracted rows → Section
  | .ints _ => .ints
  | .floats _ => .floats
  | .texts _ => .texts
  | .bools _ => .bools

def cell : Extracted rows → Nat → Option Cell
  | .ints values,k => values.toList[k]?.map .int64
  | .floats values,k => values.toList[k]?.map .float64
  | .texts values,k => values.toList[k]?.map fun text => .bytes (utf8 text)
  | .bools values,k => values.toList[k]?.map .bool

end Extracted

def batchCell (batch : TypedBatch) (kind : Section) (name : String) (k : Nat) : Option Cell :=
  match kind with
  | .ints => (batch.intColumns.lookup name).bind fun values => values[k]?.map .int64
  | .floats => (batch.floatColumns.lookup name).bind fun values => values[k]?.map .float64
  | .texts => (batch.stringColumns.lookup name).bind fun values => values[k]?.map fun text => .bytes (utf8 text)
  | .bools => (batch.boolColumns.lookup name).bind fun values => values[k]?.map .bool

def Slot.cell (slot : Slot) (row : Nat) : Option Cell := if getBit slot.nulls row then some .null
    else slot.column.rows[row]?

/-- What becomes of a value: there are no NULLs in a batch. -/
def written : Cell → Cell
  | .null => .bytes []
  | .bytes text => .bytes (utf8 ((fromUtf8 text).getD ""))
  | cell => cell

section Gather
variable {V : Type} {get : Nat → Option V}

private theorem gather_map {rows : List Nat} {values : List.Vector V rows.length}
    (found : gather get rows = some values) :
    values.toList.map some = rows.map get := by
  induction rows with
  | nil =>
    cases found
    rfl
  | cons row rest ih =>
    obtain ⟨first,here,found⟩ := Option.bind_eq_some_iff.mp found
    obtain ⟨others,there,same⟩ := Option.bind_eq_some_iff.mp found
    cases same
    rw [List.Vector.toList_cons,List.map_cons,List.map_cons,here,ih there]

private theorem gather_some {rows : List Nat} : (∃ values, gather get rows = some values) ↔
    ∀ row ∈ rows, (get row).isSome = true := by
  induction rows with
  | nil => exact iff_of_true ⟨.nil,rfl⟩ (List.forall_mem_nil _)
  | cons row rest ih =>
    rw [List.forall_mem_cons,← ih]
    constructor
    · rintro ⟨values,found⟩
      obtain ⟨first,here,found⟩ := Option.bind_eq_some_iff.mp found
      obtain ⟨others,there,_⟩ := Option.bind_eq_some_iff.mp found
      exact ⟨Option.isSome_of_eq_some here,others,there⟩
    · rintro ⟨here,others,there⟩
      obtain ⟨first,here⟩ := Option.isSome_iff_exists.mp here
      refine ⟨first ::ᵥ others,?_⟩
      rw [gather,here,there]
      rfl

private theorem gather_cells {cells : Nat → Option Cell} (inject : V → Cell)
    (same : ∀ row, (get row).map inject = cells row) (rows : List Nat) :
    ((∃ values, gather get rows = some values) ↔ ∀ row ∈ rows, (cells row).isSome = true) ∧
    ∀ values, gather get rows = some values → ∀ k row : Nat, rows[k]? = some row →
    values.toList[k]?.map inject = cells row := by
  refine ⟨gather_some.trans (forall₂_congr fun row _ => ?_),fun values found k row here => ?_⟩
  · rw [← same row,Option.isSome_map]
  · have at_ := congrArg (fun list => list[k]?) (gather_map found)
    simp only [List.getElem?_map,here,Option.map_some] at at_
    rw [← same row]
    cases there : values.toList[k]? with
    | none =>
      rw [there] at at_
      cases at_
    | some value =>
      rw [there] at at_
      rw [← Option.some.inj at_]

private theorem built {kind : Section} {cells : Nat → Option Cell} {rows : List Nat}
    (build : List.Vector V rows.length → Extracted rows.length) (inject : V → Cell)
    (same : ∀ row, (get row).map inject = cells row) (kinds : ∀ values, (build values).kind = kind)
    (cell : ∀ values k, (build values).cell k = values.toList[k]?.map inject) :
    ((∃ values, (gather get rows).map build = some values) ↔ ∀ row ∈ rows, (cells row).isSome = true) ∧
    ∀ values, (gather get rows).map build = some values → values.kind = kind ∧ ∀ k row : Nat, rows[k]? = some row →
    values.cell k = cells row := by
  obtain ⟨some_,each⟩ := gather_cells inject same rows
  refine ⟨?_,fun values found => ?_⟩
  · rw [← some_]
    constructor
    · rintro ⟨values,found⟩
      obtain ⟨gathered,here,_⟩ := Option.map_eq_some_iff.mp found
      exact ⟨gathered,here⟩
    · rintro ⟨gathered,here⟩
      exact ⟨build gathered,by rw [here]; rfl⟩
  · obtain ⟨gathered,here,rfl⟩ := Option.map_eq_some_iff.mp found
    exact ⟨kinds gathered,fun k row at_ => (cell gathered k).trans (each gathered here k row at_)⟩

end Gather

section Rows

theorem textAt_eq {offsets : List UInt64} {data : Bytes} (inOrder : offsets.Pairwise fun a b => a.toNat ≤ b.toNat)
    (inside : ∀ offset ∈ offsets, offset.toNat ≤ data.length) (row : Nat) :
    textAt offsets data row = if row + 1 < offsets.length then some ((fromUtf8 (slice offsets data row)).getD "")
      else none := by
  unfold textAt
  by_cases here : row + 1 < offsets.length
  · have low := List.getElem?_eq_getElem (show row < offsets.length by omega)
    have high := List.getElem?_eq_getElem here
    have order := offset_le inOrder (Nat.le_succ row) low high
    have bounded := inside _ (List.mem_of_getElem? high)
    rw [if_pos here,slice,low,high]
    simp only [Option.bind_eq_bind,Option.bind_some,Option.getD_some]
    rw [if_neg (by omega)]
  · rw [if_neg here,List.getElem?_eq_none (show offsets.length ≤ row + 1 by omega)]
    cases offsets[row]? <;> rfl

def Fits (kind : Section) : ColumnData → Prop
  | .int64 _ => kind = .ints
  | .float64 _ => kind = .floats
  | .string _ _ => kind = .texts
  | .bool _ _ => kind = .bools
  | _ => False

private theorem valuesAt_none {kind : Section} {column : ColumnData} (other : ¬ Fits kind column) (start : Nat)
    (rows : List Nat) :
    valuesAt kind column start rows = none := by
  cases kind <;> cases column <;> first | rfl | exact absurd rfl other

theorem text_cell {offsets : List UInt64} {data : Bytes} (inOrder : offsets.Pairwise fun a b => a.toNat ≤ b.toNat)
    (inside : ∀ offset ∈ offsets, offset.toNat ≤ data.length) (row : Nat) :
    (textAt offsets data row).map (fun text => Cell.bytes (utf8 text)) =
    ((ColumnData.string offsets data).rows[row]?).map written := by
  rw [textAt_eq inOrder inside,ColumnData.rows,List.getElem?_map]
  by_cases here : row + 1 < offsets.length
  · rw [if_pos here,List.getElem?_range (by omega)]
    rfl
  · rw [if_neg here,List.getElem?_eq_none (by rw [List.length_range]; omega)]
    rfl

theorem valuesAt_spec {column : ColumnData} (ordered : column.Ordered) (kind : Section) (start : Nat)
    (rows : List Nat) :
    ((∃ values, valuesAt kind column start rows = some values) ↔ Fits kind column ∧
      ∀ row ∈ rows, column.rows[start + row]?.isSome = true) ∧
    ∀ values, valuesAt kind column start rows = some values → values.kind = kind ∧
      ∀ k row : Nat, rows[k]? = some row → values.cell k = column.rows[start + row]?.map written := by
  by_cases fits : Fits kind column
  · rw [and_iff_right fits]
    have exists_ : ∀ row, (column.rows[start + row]?.map written).isSome = column.rows[start + row]?.isSome :=
      fun row => Option.isSome_map
    simp only [← exists_]
    cases column with
    | int64 values =>
      cases fits
      exact built _ .int64 (fun row => by rw [ColumnData.rows,List.getElem?_map,Option.map_map]; rfl) (fun _ =>
        rfl) (fun _ _ => rfl)
    | float64 values =>
      cases fits
      exact built _ .float64 (fun row => by rw [ColumnData.rows,List.getElem?_map,Option.map_map]; rfl) (fun _ =>
        rfl) (fun _ _ => rfl)
    | string offsets data =>
      cases fits
      exact built _ _ (fun row => text_cell ordered.1 ordered.2 (start + row)) (fun _ => rfl) (fun _ _ => rfl)
    | bool data len =>
      cases fits
      refine built _ .bool (fun row => ?_) (fun _ => rfl) (fun _ _ => rfl)
      rw [ColumnData.rows,List.getElem?_map]
      by_cases here : start + row < len
      · rw [if_pos here,List.getElem?_range here]
        rfl
      · rw [if_neg here,List.getElem?_eq_none (by rw [List.length_range]; omega)]
        rfl
    | binary offsets data => cases fits
    | stringDict indices dictOffsets dictData => cases fits
    | fixedList data dim => cases fits
    | float16List data dim => cases fits
    | quantizedList data dim codec => cases fits
  · rw [valuesAt_none fits]
    exact ⟨⟨by rintro ⟨_,⟨⟩⟩,fun there => absurd there.1 fits⟩,by rintro _ ⟨⟩⟩

theorem dictionary_cell {indices : List UInt32} {dictOffsets : List UInt64} {dictData : Bytes}
    (ordered : (ColumnData.stringDict indices dictOffsets dictData).Ordered) (row : Nat) :
    (dictionaryAt indices dictOffsets dictData row).map (fun text => Cell.bytes (utf8 text)) =
      (((ColumnData.stringDict indices dictOffsets dictData).rows[row]?).filter (· ≠ .null)).map written := by
  rw [ColumnData.rows,List.getElem?_map]
  unfold dictionaryAt
  cases indices[row]? with
  | none => rfl
  | some index =>
    simp only [Option.bind_eq_bind,Option.bind_some,Option.map_some]
    by_cases zero : index = 0
    · rw [if_pos zero,if_pos (Or.inl zero)]
      rfl
    · have positive : index.toNat ≠ 0 := fun none => zero (UInt32.toNat_inj.mp none)
      rw [if_neg zero,textAt_eq ordered.1 ordered.2]
      by_cases beyond : dictOffsets.length ≤ index.toNat
      · rw [if_pos (Or.inr beyond),if_neg (by omega)]
        rfl
      · have known : ¬ (index = 0 ∨ dictOffsets.length ≤ index.toNat) := not_or.mpr ⟨zero,beyond⟩
        rw [if_neg known,if_pos (show index.toNat - 1 + 1 < dictOffsets.length by omega)]
        rfl

end Rows

section Decode
variable {indices : List UInt32} {dictOffsets : List UInt64} {dictData : Bytes}

private theorem written_dictText (ordered : (ColumnData.stringDict indices dictOffsets dictData).Ordered)
    (index : UInt32) :
    written (.bytes (dictText dictOffsets dictData index)) =
      written (if index = 0 ∨ dictOffsets.length ≤ index.toNat then .null
        else .bytes (slice dictOffsets dictData (index.toNat - 1))) := by
  unfold dictText
  split
  · have empty : fromUtf8 [] = some "" := fromUtf8_utf8 ""
    change Cell.bytes (utf8 ((fromUtf8 []).getD "")) = .bytes []
    rw [empty]
    rfl
  · rename_i known
    obtain ⟨some_,inside⟩ := not_or.mp known
    have positive : index.toNat ≠ 0 := fun zero => some_ (UInt32.toNat_inj.mp zero)
    have next : index.toNat - 1 + 1 = index.toNat := by omega
    have low := List.getElem?_eq_getElem (show index.toNat - 1 < dictOffsets.length by omega)
    have high := List.getElem?_eq_getElem (show index.toNat < dictOffsets.length by omega)
    have order := offset_le ordered.1 (Nat.sub_le _ 1) low high
    have bounded := ordered.2 _ (List.mem_of_getElem? high)
    rw [slice,next,low,high]
    simp only [Option.getD_some]
    rw [if_pos ⟨bounded,order⟩]

theorem decoded_spec (ordered : (ColumnData.stringDict indices dictOffsets dictData).Ordered)
    (small : (indices.flatMap (dictText dictOffsets dictData)).length < 2^64) :
    ∃ offsets data, (ColumnData.stringDict indices dictOffsets dictData).decodeStringDict = .string offsets data ∧
      (ColumnData.string offsets data).Ordered ∧ ∀ row : Nat, (ColumnData.string offsets data).rows[row]?.map written =
        (ColumnData.stringDict indices dictOffsets dictData).rows[row]?.map written := by
  have decoded : (ColumnData.stringDict indices dictOffsets dictData).decodeStringDict =
      .string (UInt64.ofNat 0 :: endsFrom 0 (indices.map (dictText dictOffsets dictData)))
        (indices.map (dictText dictOffsets dictData)).flatten := by
    rw [decodeStringDict,← List.foldl_map,foldl_push]
    rfl
  refine ⟨_,_,decoded,ordered_texts small,fun row => ?_⟩
  rw [rows_texts small,ColumnData.rows,List.getElem?_map,List.getElem?_map,List.getElem?_map]
  cases indices[row]? with
  | none => rfl
  | some index => exact congrArg some (written_dictText ordered index)

end Decode

/-! Cutting the pending rows out of a column. -/

/-- What the appends and the readers keep of a column; the texts of a dictionary fit into memory. -/
structure Formed (column : ColumnData) : Prop where
  sound : column.Sound
  ordered : column.Ordered
  small : ∀ indices dictOffsets dictData, column = .stringDict indices dictOffsets dictData →
    (indices.flatMap (dictText dictOffsets dictData)).length < 2^64

def Cuttable : ColumnData → Prop
  | .quantizedList _ dim codec => ∃ width, codec.rowWidth dim.toNat = .ok width
  | _ => True

section Cuts
variable {column : ColumnData} {start stop : Nat}

private theorem between_clamp {V : Type} (values : List V) (order : start ≤ stop) :
    ∃ cut, between values (min start values.length) (min stop values.length) = some cut := by
  rw [between,if_pos ⟨by omega,by omega⟩]
  exact ⟨_,rfl⟩

private theorem sliceStrided_some (data : Bytes) (stride : Nat) (order : start ≤ stop) :
    ∃ cut, sliceStrided data stride start stop = some cut := by
  unfold sliceStrided
  by_cases zero : stride = 0
  · subst zero
    exact ⟨_,if_pos ⟨by omega,by omega⟩⟩
  · rw [if_neg zero]
    have last : data.length / stride * stride ≤ data.length := Nat.div_mul_le_self _ _
    refine ⟨_,if_pos ⟨Nat.mul_le_mul_right _ (by omega),?_⟩⟩
    exact (Nat.mul_le_mul_right stride (Nat.min_le_right _ _)).trans last

private theorem sliceOffsets_some_of {offsets : List UInt64} {data : Bytes}
    (inOrder : offsets.Pairwise fun a b => a.toNat ≤ b.toNat)
    (inside : ∀ offset ∈ offsets, offset.toNat ≤ data.length) :
    ∃ cut, sliceOffsets offsets data start stop = some cut := by
  unfold sliceOffsets
  simp only
  split
  · exact ⟨_,rfl⟩
  · have low := List.getElem?_eq_getElem (show min start (offsets.length - 1) < offsets.length by omega)
    have high := List.getElem?_eq_getElem (show min stop (offsets.length - 1) < offsets.length by omega)
    have order := offset_le inOrder (by omega) low high
    have bounded := inside _ (List.mem_of_getElem? high)
    rw [low,high]
    simp only [Option.bind_eq_bind,Option.bind_some]
    rw [Nat.min_eq_left bounded,between,if_pos ⟨order,bounded⟩]
    exact ⟨_,rfl⟩

theorem sliceRange_some (ordered : column.Ordered) (order : start ≤ stop) :
    (∃ sliced, column.sliceRange start stop = some sliced) ↔ Cuttable column := by
  cases column with
  | bool data len => exact iff_of_true ⟨_,rfl⟩ trivial
  | int64 values =>
    obtain ⟨cut,found⟩ := between_clamp values order
    exact iff_of_true ⟨.int64 cut,by rw [sliceRange,found]; rfl⟩ trivial
  | float64 values =>
    obtain ⟨cut,found⟩ := between_clamp values order
    exact iff_of_true ⟨.float64 cut,by rw [sliceRange,found]; rfl⟩ trivial
  | string offsets data =>
    obtain ⟨cut,found⟩ := sliceOffsets_some_of ordered.1 ordered.2
    exact iff_of_true ⟨.string cut.1 cut.2,by rw [sliceRange,found]; rfl⟩ trivial
  | binary offsets data =>
    obtain ⟨cut,found⟩ := sliceOffsets_some_of ordered.1 ordered.2
    exact iff_of_true ⟨.binary cut.1 cut.2,by rw [sliceRange,found]; rfl⟩ trivial
  | stringDict indices dictOffsets dictData =>
    obtain ⟨cut,found⟩ := between_clamp indices order
    exact iff_of_true ⟨.stringDict cut dictOffsets dictData,by rw [sliceRange,found]; rfl⟩ trivial
  | fixedList data dim =>
    obtain ⟨cut,found⟩ := sliceStrided_some data (dim.toNat * 4) order
    exact iff_of_true ⟨.fixedList cut dim,by rw [sliceRange,found]; rfl⟩ trivial
  | float16List data dim =>
    obtain ⟨cut,found⟩ := sliceStrided_some data (dim.toNat * 2) order
    exact iff_of_true ⟨.float16List cut dim,by rw [sliceRange,found]; rfl⟩ trivial
  | quantizedList data dim codec =>
    rw [sliceRange,Cuttable]
    cases width : codec.rowWidth dim.toNat with
    | error error => exact iff_of_false (by rintro ⟨_,⟨⟩⟩) (by rintro ⟨_,⟨⟩⟩)
    | ok stride =>
      obtain ⟨cut,found⟩ := sliceStrided_some data stride order
      exact iff_of_true ⟨.quantizedList cut dim codec,by simp only [found]; rfl⟩ ⟨stride,rfl⟩

theorem formed_cut {sliced : ColumnData} (formed : Formed column) (found : column.sliceRange start stop = some sliced) :
    Formed sliced := by
  have cut := sliceRange_cut formed.ordered formed.sound found
  refine ⟨cut.sound,cut.ordered,?_⟩
  rintro indices dictOffsets dictData rfl
  have variant := sliceRange_variant found
  cases column with
  | stringDict all dictOffsets' dictData' =>
    obtain ⟨part,between_,same⟩ := Option.map_eq_some_iff.mp found
    cases same
    have whole := formed.small all dictOffsets dictData rfl
    obtain ⟨front,back,split⟩ : ((all.drop start).take (stop - start)) <:+: all :=
      (List.take_prefix _ _).isInfix.trans (List.drop_suffix _ _).isInfix
    rw [between_clamped between_]
    rw [← split,List.flatMap_append,List.flatMap_append,List.length_append,List.length_append] at whole
    omega
  | bool data len => exact variant.elim
  | int64 values => exact variant.elim
  | float64 values => exact variant.elim
  | string offsets data => exact variant.elim
  | binary offsets data => exact variant.elim
  | fixedList data dim => exact variant.elim
  | float16List data dim => exact variant.elim
  | quantizedList data dim codec => exact variant.elim

end Cuts

/-! One column of the pending rows. -/

def Accepts (one : Bool) (type : ColumnType) : ColumnData → Prop
  | .string _ _ => sectionOf type = some .texts ∧ (one = true → type ≠ .stringDict)
  | .stringDict _ _ _ => if one then type = .stringDict else sectionOf type = some .texts
  | column => ∃ kind, sectionOf type = some kind ∧ Fits kind column

def Clear (pendingStart : Nat) (live : List Nat) (slot : Slot) :
    Prop := ∀ row ∈ live, getBit slot.nulls (pendingStart + row) = false

/-- The live rows of the column can be written. A row on its own may not be NULL by its dictionary. -/
structure Carried (one : Bool) (pendingStart : Nat) (live : List Nat) (slot : Slot) : Prop where
  accepts : Accepts one slot.type slot.column
  clear : Clear pendingStart live slot
  present : ∀ row ∈ live, slot.column.rows[pendingStart + row]?.isSome = true
  known : one = true → ∀ row ∈ live, slot.column.rows[pendingStart + row]? ≠ some .null

structure Reads (one : Bool) (pendingStart : Nat) (live : List Nat)
    (values : Slot → Except Stop (Extracted live.length)) (slot : Slot) : Prop where
  carried : (∃ found, values slot = .ok found) ↔ Carried one pendingStart live slot
  panics : values slot = .error .panic ↔ one = false ∧ Clear pendingStart live slot ∧ ¬ Cuttable slot.column
  cells : ∀ found, values slot = .ok found → sectionOf slot.type = some found.kind ∧
    ∀ k row : Nat, live[k]? = some row → found.cell k = slot.column.rows[pendingStart + row]?.map written

section Paths
variable {type : ColumnType} {column : ColumnData} {pendingStart : Nat} {live : List Nat}

private theorem ne_null {kind : Section} (fits : Fits kind column) (row : Nat) : column.rows[row]? ≠ some .null := by
  intro null
  have member := List.mem_of_getElem? null
  cases column <;> first | exact fits | (obtain ⟨_,_,same⟩ := List.mem_map.mp member; cases same)

private theorem sectionValues_spec (ordered : column.Ordered) (type : ColumnType) (start : Nat) (live : List Nat) :
    ((∃ found, ((sectionOf type).bind fun kind => valuesAt kind column start live) = some found) ↔
      (∃ kind, sectionOf type = some kind ∧ Fits kind column) ∧ ∀ row ∈ live, column.rows[start + row]?.isSome = true) ∧
    ∀ found, ((sectionOf type).bind fun kind => valuesAt kind column start live) = some found →
      sectionOf type = some found.kind ∧ ∀ k row : Nat, live[k]? = some row →
      found.cell k = column.rows[start + row]?.map written := by
  cases sectionOf type with
  | none => exact ⟨⟨nofun,fun ⟨⟨_,absent,_⟩,_⟩ => nomatch absent⟩,nofun⟩
  | some kind =>
    obtain ⟨some_,each⟩ := valuesAt_spec ordered kind start live
    refine ⟨some_.trans ?_,fun found here => ?_⟩
    · exact and_congr_left' ⟨fun fits => ⟨kind,rfl,fits⟩,fun ⟨_,same,fits⟩ => Option.some.inj same ▸ fits⟩
    · obtain ⟨same,cells⟩ := each found here
      exact ⟨congrArg some same.symm,cells⟩

private theorem orRefuse_ok {V : Type} {values : Option V} {found : V} :
    orRefuse values = .ok found ↔ values = some found := by
  cases values <;> simp [orRefuse]

private theorem orRefuse_panic {V : Type} {values : Option V} : orRefuse values ≠ .error .panic := by
  cases values <;> exact nofun

private theorem hasNull_iff (slot : Slot) : hasNull pendingStart live slot = false ↔ Clear pendingStart live slot := by
  rw [hasNull,List.any_eq_false]
  exact forall₂_congr fun row _ => iff_of_eq (Bool.not_eq_true _)

private theorem singleColumn_other (other : type ≠ .stringDict) (column : ColumnData) :
    singleColumn pendingStart type column live = (sectionOf type).bind fun kind =>
      valuesAt kind column pendingStart live := by
  cases type <;> first | rfl | exact absurd rfl other

private theorem accepts_plain {one : Bool} (other : one = true → type ≠ .stringDict)
    (plain : ∀ indices dictOffsets dictData, column ≠ .stringDict indices dictOffsets dictData) :
    Accepts one type column ↔ ∃ kind, sectionOf type = some kind ∧ Fits kind column := by
  cases column with
  | string offsets data => exact ⟨fun texts => ⟨.texts,texts.1,rfl⟩,fun ⟨_,same,texts⟩ => ⟨texts ▸ same,other⟩⟩
  | stringDict indices dictOffsets dictData => exact absurd rfl (plain indices dictOffsets dictData)
  | _ => exact Iff.rfl

private theorem singleColumn_spec (ordered : column.Ordered) :
    ((∃ found, singleColumn pendingStart type column live = some found) ↔ Accepts true type column ∧
      (∀ row ∈ live, column.rows[pendingStart + row]?.isSome = true) ∧ ∀ row ∈ live, column.rows[pendingStart + row]? ≠
      some .null) ∧
    ∀ found, singleColumn pendingStart type column live = some found → sectionOf type = some found.kind ∧
      ∀ k row : Nat, live[k]? = some row → found.cell k = column.rows[pendingStart + row]?.map written := by
  by_cases dict : type = .stringDict
  · subst dict
    cases column with
    | stringDict indices dictOffsets dictData =>
      obtain ⟨some_,each⟩ := built .texts _
        (fun row => dictionary_cell ordered (pendingStart + row)) (fun _ => rfl) (fun _ _ => rfl)
      have kept : ∀ cell : Option Cell, ((cell.filter (· ≠ .null)).map written).isSome = true ↔
        cell.isSome = true ∧ cell ≠ some .null := by
        rintro (_ | cell)
        · exact ⟨nofun,fun there => absurd there.1 Bool.false_ne_true⟩
        · cases cell <;> simp [Option.filter]
      refine ⟨some_.trans ?_,fun found here => ?_⟩
      · simp only [kept]
        exact ⟨fun all => ⟨rfl,fun row member => (all row member).1,fun row member => (all row member).2⟩,
          fun ⟨_,present,known⟩ row member => ⟨present row member,known row member⟩⟩
      · obtain ⟨same,cells⟩ := each found here
        refine ⟨congrArg some same.symm,fun k row at_ => ?_⟩
        have member := some_.mp ⟨found,here⟩ row (List.mem_of_getElem? at_)
        rw [cells k row at_]
        cases cell : (ColumnData.stringDict indices dictOffsets dictData).rows[pendingStart + row]? with
        | none => rfl
        | some value =>
          rw [cell,kept] at member
          have filled : value ≠ .null := fun null => member.2 (congrArg some null)
          rw [Option.filter_some,if_pos (decide_eq_true filled)]
    | string offsets data => exact ⟨iff_of_false nofun (fun there => there.1.2 rfl rfl),nofun⟩
    | _ => exact ⟨iff_of_false nofun (fun ⟨⟨kind,same,fits⟩,_⟩ => by cases same; cases fits),nofun⟩
  · rw [singleColumn_other dict]
    obtain ⟨some_,each⟩ := sectionValues_spec ordered type pendingStart live
    refine ⟨some_.trans ?_,each⟩
    cases column with
    | stringDict indices dictOffsets dictData =>
      exact iff_of_false (fun ⟨⟨_,_,fits⟩,_⟩ => fits) (fun ⟨same,_⟩ => dict same)
    | _ =>
      rw [accepts_plain (fun _ => dict) (by rintro _ _ _ same; cases same)]
      exact and_congr_right fun ⟨_,_,fits⟩ => ⟨fun present => ⟨present,fun _ _ => ne_null fits _⟩,And.left⟩

private theorem liveColumn_spec (formed : Formed column) :
    ((∃ found, liveColumn type column live = some found) ↔ Accepts false type column ∧
      ∀ row ∈ live, column.rows[row]?.isSome = true) ∧
    ∀ found, liveColumn type column live = some found → sectionOf type = some found.kind ∧
      ∀ k row : Nat, live[k]? = some row → found.cell k = column.rows[row]?.map written := by
  unfold liveColumn
  by_cases dictionary : ∃ indices dictOffsets dictData, column = .stringDict indices dictOffsets dictData
  · obtain ⟨indices,dictOffsets,dictData,rfl⟩ := dictionary
    obtain ⟨offsets,data,decoded,ordered,rows⟩ := decoded_spec formed.ordered (formed.small _ _ _ rfl)
    by_cases texts : sectionOf type = some .texts
    · obtain ⟨some_,each⟩ := valuesAt_spec ordered .texts 0 live
      simp only [Nat.zero_add,rows] at each
      have present : ∀ row : Nat, (ColumnData.string offsets data).rows[row]?.isSome =
          (ColumnData.stringDict indices dictOffsets dictData).rows[row]?.isSome := by
        intro row
        have same := congrArg Option.isSome (rows row)
        rwa [Option.isSome_map,Option.isSome_map] at same
      simp only [Nat.zero_add,present] at some_
      rw [texts,Option.bind_some,if_pos rfl,decoded]
      refine ⟨some_.trans (and_congr_left' (iff_of_true rfl texts)),fun found here => ?_⟩
      obtain ⟨kind,cells⟩ := each found here
      exact ⟨congrArg some kind.symm,cells⟩
    · have refused : ((sectionOf type).bind fun kind => valuesAt kind (if kind = .texts then
          (ColumnData.stringDict indices dictOffsets dictData).decodeStringDict else .stringDict indices dictOffsets
            dictData) 0 live) = none := by
        cases kind : sectionOf type with
        | none => rfl
        | some kind' =>
          have other : kind' ≠ .texts := fun same => texts (kind.trans (congrArg some same))
          rw [Option.bind_some,if_neg other]
          exact valuesAt_none id 0 live
      rw [refused]
      exact ⟨iff_of_false nofun (fun there => texts there.1),nofun⟩
  · have plain : ∀ indices dictOffsets dictData, column ≠ .stringDict indices dictOffsets dictData :=
      fun indices dictOffsets dictData same => dictionary ⟨indices,dictOffsets,dictData,same⟩
    have same : column.decodeStringDict = column := by
      cases column <;> first | rfl | exact absurd rfl (plain _ _ _)
    simp only [same,ite_self]
    have direct := sectionValues_spec formed.ordered type 0 live
    simp only [Nat.zero_add] at direct
    have accepts : Accepts false type column ↔ _ := accepts_plain (fun one => absurd one Bool.false_ne_true) plain
    rw [accepts]
    exact direct

theorem singleValues_reads {slot : Slot} (ordered : slot.column.Ordered) :
    Reads true pendingStart live (singleValues pendingStart live) slot := by
  obtain ⟨some_,each⟩ := singleColumn_spec ordered
  unfold singleValues
  by_cases clear : Clear pendingStart live slot
  · constructor
    all_goals rw [(hasNull_iff slot).mpr clear,if_neg Bool.false_ne_true]
    · simp only [orRefuse_ok]
      exact some_.trans ⟨fun ⟨accepts,present,known⟩ => ⟨accepts,clear,present,fun _ => known⟩,
        fun carried => ⟨carried.accepts,carried.present,carried.known rfl⟩⟩
    · exact iff_of_false orRefuse_panic nofun
    · exact fun found here => each found (orRefuse_ok.mp here)
  · constructor
    all_goals rw [eq_true_of_ne_false (fun none => clear ((hasNull_iff slot).mp none)),if_pos rfl]
    · exact iff_of_false nofun fun carried => clear carried.clear
    · exact iff_of_false nofun nofun
    · exact nofun

theorem liveValues_reads {slot : Slot} (formed : Formed slot.column) {idsLen : Nat} (order : pendingStart ≤ idsLen)
    (inside : ∀ row ∈ live, row < idsLen - pendingStart) :
    Reads false pendingStart live (liveValues pendingStart idsLen live) slot := by
  unfold liveValues
  by_cases clear : Clear pendingStart live slot
  · cases found : slot.column.sliceRange pendingStart idsLen with
    | none =>
      have stuck : ¬ Cuttable slot.column := fun cuttable => by
        obtain ⟨sliced,some_⟩ := (sliceRange_some formed.ordered order).mpr cuttable
        rw [found] at some_
        cases some_
      constructor
      all_goals rw [(hasNull_iff slot).mpr clear,if_neg Bool.false_ne_true,found]
      · refine iff_of_false nofun fun carried => stuck ?_
        have accepts := carried.accepts
        cases kind : slot.column <;>
          rw [kind] at accepts <;> first | trivial | exact (accepts.elim fun _ fits => fits.2).elim
      · exact iff_of_true rfl ⟨rfl,clear,stuck⟩
      · exact nofun
    | some sliced =>
      have cuttable := (sliceRange_some formed.ordered order).mp ⟨sliced,found⟩
      have cut := sliceRange_cut formed.ordered formed.sound found
      have row_ : ∀ row ∈ live, sliced.rows[row]? = slot.column.rows[pendingStart + row]? := by
        intro row member
        rw [cut.rows,List.getElem?_take,if_pos (inside row member),List.getElem?_drop]
      have shape : Accepts false slot.type sliced ↔ Accepts false slot.type slot.column := by
        have variant := sliceRange_variant found
        cases sliced <;> cases kind : slot.column <;>
          rw [kind] at variant <;> first | exact variant.elim | exact Iff.rfl
      obtain ⟨some_,each⟩ := liveColumn_spec (formed_cut formed found)
      constructor
      all_goals rw [(hasNull_iff slot).mpr clear,if_neg Bool.false_ne_true,found]
      · simp only [orRefuse_ok]
        rw [some_,shape,forall₂_congr fun row member => by rw [row_ row member]]
        exact ⟨fun ⟨accepts,present⟩ => ⟨accepts,clear,present,nofun⟩,fun carried => ⟨carried.accepts,carried.present⟩⟩
      · exact iff_of_false orRefuse_panic fun there => there.2.2 cuttable
      · intro values here
        obtain ⟨kind,cells⟩ := each values (orRefuse_ok.mp here)
        exact ⟨kind,fun k row at_ => (cells k row at_).trans (by rw [row_ row (List.mem_of_getElem? at_)])⟩
  · constructor
    all_goals rw [eq_true_of_ne_false (fun none => clear ((hasNull_iff slot).mp none)),if_pos rfl]
    · exact iff_of_false nofun fun carried => clear carried.clear
    · exact iff_of_false nofun fun there => clear there.2.1
    · exact nofun

end Paths

section All
variable {rows : Nat}

/-- What was put last under a name, among the columns of a kind. -/
def SpillColumns.find (columns : SpillColumns rows) (kind : Section) (name : String) : Option (Extracted rows) :=
  match kind with
  | .ints => (columns.intColumns.lookup name).map .ints
  | .floats => (columns.floatColumns.lookup name).map .floats
  | .texts => (columns.stringColumns.lookup name).map .texts
  | .bools => (columns.boolColumns.lookup name).map .bools

private theorem find_put (columns : SpillColumns rows) (name other : String) (values : Extracted rows)
    (kind : Section) :
    (columns.put name values).find kind other = if other = name ∧ kind = values.kind then some values
      else columns.find kind other := by
  by_cases same : other = name
  · subst same
    cases values <;> cases kind <;> simp [SpillColumns.put,SpillColumns.find,Extracted.kind]
  · cases values <;> cases kind <;> simp [SpillColumns.put,SpillColumns.find,same,AList.lookup_insert_ne same]

private theorem batchCell_find (columns : SpillColumns rows) (ids : List UInt64) (sized : ids.length = rows)
    (kind : Section) (name : String) (k : Nat) :
    batchCell (columns.batch ids sized) kind name k = (columns.find kind name).bind fun values => values.cell k := by
  cases kind <;> simp only [batchCell,SpillColumns.batch,lookup_convert,SpillColumns.find,Option.bind_map] <;> rfl

variable {values : Slot → Except Stop (Extracted rows)}

private theorem extractAll_ok {all : List Slot} {columns : SpillColumns rows} :
    (∃ final, extractAll values all columns = .ok final) ↔ ∀ slot ∈ all, ∃ found, values slot = .ok found := by
  induction all generalizing columns with
  | nil => exact ⟨fun _ => nofun,fun _ => ⟨columns,rfl⟩⟩
  | cons slot rest ih =>
    rw [List.forall_mem_cons]
    constructor
    · rintro ⟨final,ok⟩
      obtain ⟨found,here,ok⟩ := bind_eq_ok.mp ok
      exact ⟨⟨found,here⟩,ih.mp ⟨final,ok⟩⟩
    · rintro ⟨⟨found,here⟩,others⟩
      obtain ⟨final,ok⟩ := (ih).mpr others
      exact ⟨final,bind_eq_ok.mpr ⟨found,here,ok⟩⟩

private theorem extractAll_stop {all : List Slot} {columns : SpillColumns rows} {stop : Stop} :
    extractAll values all columns = .error stop ↔
      ∃ before slot after, all = before ++ slot :: after ∧ (∀ other ∈ before, ∃ found, values other = .ok found) ∧
      values slot = .error stop := by
  induction all generalizing columns with
  | nil => exact iff_of_false nofun fun ⟨before,_,_,same,_⟩ => by cases before <;> cases same
  | cons first rest ih =>
    unfold extractAll
    cases here : values first with
    | error reason =>
      constructor
      · intro same
        cases same
        exact ⟨[],first,rest,rfl,nofun,here⟩
      · rintro ⟨before,slot,after,same,others,stopped⟩
        cases before with
        | nil =>
          cases same
          rw [here] at stopped
          cases stopped
          rfl
        | cons other before =>
          cases same
          obtain ⟨found,there⟩ := others first List.mem_cons_self
          rw [here] at there
          cases there
    | ok found =>
      change extractAll values rest (columns.put first.name found) = .error stop ↔ _
      rw [ih]
      constructor
      · rintro ⟨before,slot,after,rfl,others,stopped⟩
        exact ⟨first :: before,slot,after,rfl,List.forall_mem_cons.mpr ⟨⟨found,here⟩,others⟩,stopped⟩
      · rintro ⟨before,slot,after,same,others,stopped⟩
        cases before with
        | nil =>
          cases same
          rw [here] at stopped
          cases stopped
        | cons other before =>
          cases same
          exact ⟨before,slot,after,rfl,(List.forall_mem_cons.mp others).2,stopped⟩

private theorem extractAll_find {all : List Slot} {columns final : SpillColumns rows}
    (ok : extractAll values all columns = .ok final) (kind : Section) (name : String) :
    (∃ slot ∈ all, slot.name = name ∧ ∃ found, values slot = .ok found ∧ found.kind = kind ∧
      final.find kind name = some found) ∨
    ((∀ slot ∈ all, ∀ found, values slot = .ok found → ¬ (slot.name = name ∧ found.kind = kind)) ∧
      final.find kind name = columns.find kind name) := by
  induction all generalizing columns with
  | nil =>
    cases ok
    exact Or.inr ⟨nofun,rfl⟩
  | cons slot rest ih =>
    obtain ⟨found,here,ok⟩ := bind_eq_ok.mp ok
    rcases ih ok with ⟨other,member,there⟩ | ⟨others,kept⟩
    · exact Or.inl ⟨other,List.mem_cons_of_mem _ member,there⟩
    · rw [find_put] at kept
      by_cases same : name = slot.name ∧ kind = found.kind
      · rw [if_pos same] at kept
        exact Or.inl ⟨slot,List.mem_cons_self,same.1.symm,found,here,same.2.symm,kept⟩
      · rw [if_neg same] at kept
        refine Or.inr ⟨List.forall_mem_cons.mpr ⟨fun values there both => ?_,others⟩,kept⟩
        rw [here] at there
        cases there
        exact same ⟨both.1.symm,both.2.symm⟩

end All

section Discard

/-- No flag of the first rows is in the bits that are masked: the last byte that is masked is
the one that the last row is in, unless the bitmap is shorter. -/
def Covers (rowCount : Nat) (bitmap : Bytes) : Prop :=
  rowCount % 8 = 0 ∨ rowCount / 8 < bitmap.length ∨ ∀ last ∈ bitmap.getLast?, last.toNat < 2^(rowCount % 8)

private theorem small_iff (byte : UInt8) (tail : Nat) :
    byte.toNat < 2^tail ↔ ∀ index, tail ≤ index → index < 8 → byte.toNat.testBit index = false := by
  constructor
  · intro small index above _
    exact Nat.testBit_lt_two_pow (Nat.lt_of_lt_of_le small (Nat.pow_le_pow_right (by decide) above))
  · intro clear
    refine Nat.lt_pow_two_of_testBit _ fun index above => ?_
    by_cases inside : index < 8
    · exact clear index above inside
    · exact Nat.testBit_lt_two_pow (Nat.lt_of_lt_of_le byte.toNat_lt (Nat.pow_le_pow_right (n :=
        2) (by decide) (Nat.le_of_not_lt inside)))

private theorem getBit_of {bitmap : Bytes} {row : Nat} {byte : UInt8} (there : bitmap[row / 8]? = some byte) :
    getBit bitmap row = byte.toNat.testBit (row % 8) := by
  rw [getBit,there]
  rfl

private theorem getBit_beyond {bitmap : Bytes} {row : Nat} (beyond : bitmap.length ≤ row / 8) :
    getBit bitmap row = false := by
  rw [getBit,List.getElem?_eq_none beyond]
  exact Nat.zero_testBit _

theorem truncateBitmap_iff {rowCount : Nat} (some_ : rowCount ≠ 0) (bitmap : Bytes) :
    (∀ row, getBit (truncateBitmap bitmap rowCount) row = (decide (row < rowCount) && getBit bitmap row)) ↔
    Covers rowCount bitmap := by
  have taken (row : Nat) (count : Nat) : (bitmap.take count)[row / 8]? = if row / 8 < count then bitmap[row / 8]?
    else none := List.getElem?_take
  unfold truncateBitmap
  rw [if_neg some_]
  by_cases aligned : rowCount % 8 = 0
  · refine iff_of_true (fun row => ?_) (Or.inl aligned)
    rw [if_neg (not_not.mpr aligned),getBit,taken]
    by_cases inside : row < rowCount
    · rw [if_pos (by omega),decide_eq_true inside,Bool.true_and,getBit]
    · rw [if_neg (by omega),decide_eq_false inside,Bool.false_and]
      exact Nat.zero_testBit _
  · have count : (rowCount + 7) / 8 = rowCount / 8 + 1 := by omega
    rw [if_pos aligned,count,Covers,or_iff_right aligned]
    have tail : rowCount % 8 < 8 := Nat.mod_lt _ (by decide)
    have bit (row : Nat) : row % 8 < 8 := Nat.mod_lt _ (by decide)
    by_cases long : rowCount / 8 < bitmap.length
    · refine iff_of_true (fun row => ?_) (Or.inl long)
      have last : (bitmap.take (rowCount / 8 + 1)).length - 1 = rowCount / 8 := by rw [List.length_take]; omega
      rw [last,getBit,List.getElem?_modify,taken]
      by_cases inside : row / 8 < rowCount / 8 + 1
      · have here := List.getElem?_eq_getElem (show row / 8 < bitmap.length by omega)
        rw [if_pos inside,getBit_of here,here,Option.map_eq_map,Option.map_some,Option.getD_some]
        by_cases masked : rowCount / 8 = row / 8
        · rw [if_pos masked]
          refine (testBit_mask _ tail (bit row)).trans ?_
          congr 1
          exact decide_eq_decide.mpr (by omega)
        · rw [if_neg masked,decide_eq_true (show row < rowCount by omega),Bool.true_and]
      · rw [if_neg inside,decide_eq_false (show ¬ row < rowCount by omega),Bool.false_and]
        split <;> exact Nat.zero_testBit _
    · rw [or_iff_right long,List.take_of_length_le (by omega)]
      -- The byte that is masked belongs to rows that stay.
      have flag (row : Nat) : getBit (bitmap.modify (bitmap.length - 1) (· &&& (1 <<< UInt8.ofNat (rowCount % 8)) - 1))
        row =
          (decide (row / 8 = bitmap.length - 1 → row % 8 < rowCount % 8) && getBit bitmap row) := by
        by_cases inside : row / 8 < bitmap.length
        · have here := List.getElem?_eq_getElem inside
          rw [getBit_of here,getBit,List.getElem?_modify,here,Option.map_eq_map,Option.map_some,Option.getD_some]
          by_cases masked : bitmap.length - 1 = row / 8
          · rw [if_pos masked]
            refine (testBit_mask _ tail (bit row)).trans ?_
            congr 1
            exact decide_eq_decide.mpr ⟨fun low _ => low,fun low => low masked.symm⟩
          · rw [if_neg masked,decide_eq_true (fun same => absurd same.symm masked),Bool.true_and]
        · rw [getBit_beyond (Nat.le_of_not_lt inside),Bool.and_false]
          exact getBit_beyond (by rw [List.length_modify]; exact Nat.le_of_not_lt inside)
      constructor
      · intro kept last there
        have here := there
        rw [List.getLast?_eq_getElem?] at here
        obtain ⟨inside,_⟩ := List.getElem?_eq_some_iff.mp here
        refine (small_iff last _).mpr fun index above low => ?_
        have place : ((bitmap.length - 1) * 8 + index) / 8 = bitmap.length - 1 := by omega
        have within : ((bitmap.length - 1) * 8 + index) % 8 = index := by omega
        have same := kept ((bitmap.length - 1) * 8 + index)
        rw [flag,place,within,decide_eq_false (fun implied => by have := implied rfl; omega),Bool.false_and,
          decide_eq_true (show (bitmap.length - 1) * 8 + index < rowCount by omega),Bool.true_and,
          getBit_of (place ▸ here),within] at same
        exact same.symm
      · intro small row
        rw [flag]
        by_cases inside : row / 8 < bitmap.length
        · rw [decide_eq_true (show row < rowCount by omega),Bool.true_and]
          by_cases masked : row / 8 = bitmap.length - 1
          · have here := List.getElem?_eq_getElem inside
            have last : bitmap[row / 8] ∈ bitmap.getLast? := by rw [List.getLast?_eq_getElem?,← masked]; exact here
            by_cases low : row % 8 < rowCount % 8
            · rw [decide_eq_true (fun _ => low),Bool.true_and]
            · rw [getBit_of here,(small_iff _ _).mp (small _ last) _ (Nat.le_of_not_lt low) (bit row),Bool.and_false]
          · rw [decide_eq_true (fun same => absurd same masked),Bool.true_and]
        · rw [getBit_beyond (Nat.le_of_not_lt inside),Bool.and_false,Bool.and_false]

structure FirstRows (rowCount : Nat) (before after : PendingBuffer) : Prop where
  schema : after.schema = before.schema
  ids : after.ids = before.ids.take rowCount
  values : ∀ index : Nat, (after.columns[index]?.map rows).getD [] =
    ((before.columns[index]?.map rows).getD []).take rowCount
  nulls : ∀ index row : Nat, getBit (after.nulls[index]?.getD []) row =
    (decide (row < rowCount) && getBit (before.nulls[index]?.getD []) row)
  deleted : ∀ row, getBit after.deleted row = (decide (row < rowCount) && getBit before.deleted row)

/-- The rows before the pending ones can be cut out, and no flag of theirs is masked. -/
structure Discards (pendingStart : Nat) (buffer : PendingBuffer) : Prop where
  cuts : ∀ column ∈ buffer.columns, Cuttable column
  nulls : ∀ bitmap ∈ buffer.nulls, Covers pendingStart bitmap
  deleted : Covers pendingStart buffer.deleted

variable {pendingStart : Nat} {buffer : PendingBuffer}

private theorem discard_delta {after : PendingBuffer}
    (discarded : discardPendingV4RowsFrom pendingStart buffer = some after) : after.delta = buffer.delta := by
  unfold discardPendingV4RowsFrom at discarded
  split at discarded
  · cases discarded
    rfl
  · obtain ⟨columns,_,rfl⟩ := Option.map_eq_some_iff.mp discarded
    rfl

/-- The rows that stay are the same exactly when no flag of theirs was masked. -/
private theorem discard_iff (pendingStart : Nat) (buffer : PendingBuffer)
    (formed : ∀ column ∈ buffer.columns, Formed column) :
    (∃ after, discardPendingV4RowsFrom pendingStart buffer = some after ∧ FirstRows pendingStart buffer after) ↔
      pendingStart = 0 ∨ Discards pendingStart buffer := by
  unfold discardPendingV4RowsFrom
  by_cases zero : pendingStart = 0
  · subst zero
    rw [if_pos rfl]
    refine iff_of_true ⟨_,rfl,rfl,rfl,fun _ => rfl,fun index row => ?_,fun row => ?_⟩ (Or.inl rfl)
    · exact getBit_nil row
    · exact getBit_nil row
  · rw [if_neg zero,or_iff_right zero]
    have cuttable : (∃ columns, buffer.columns.mapM (sliceRange 0 pendingStart) = some columns) ↔
      ∀ column ∈ buffer.columns, Cuttable column :=
      mapM_isSome.trans (forall₂_congr fun column member => sliceRange_some (formed column member).ordered
        (Nat.zero_le _))
    have nulls : (∀ index row : Nat, getBit (((buffer.nulls.map (truncateBitmap · pendingStart))[index]?).getD []) row =
        (decide (row < pendingStart) && getBit (buffer.nulls[index]?.getD []) row)) ↔
          ∀ bitmap ∈ buffer.nulls, Covers pendingStart bitmap := by
      constructor
      · intro kept bitmap member
        obtain ⟨index,there⟩ := List.getElem?_of_mem member
        refine (truncateBitmap_iff zero bitmap).mp fun row => ?_
        have same := kept index row
        rwa [List.getElem?_map,there] at same
      · intro covers index row
        rw [List.getElem?_map]
        cases there : buffer.nulls[index]? with
        | none => exact (getBit_nil row).trans (by rw [Option.getD_none,getBit_nil,Bool.and_false])
        | some bitmap => exact (truncateBitmap_iff zero bitmap).mpr (covers bitmap (List.mem_of_getElem? there)) row
    constructor
    · rintro ⟨after,discarded,first⟩
      obtain ⟨columns,cut,rfl⟩ := Option.map_eq_some_iff.mp discarded
      exact ⟨cuttable.mp ⟨columns,cut⟩,nulls.mp first.nulls,(truncateBitmap_iff zero _).mp first.deleted⟩
    · intro discards
      obtain ⟨columns,cut⟩ := cuttable.mpr discards.cuts
      rw [cut]
      refine ⟨_,rfl,rfl,rfl,fun index => ?_,nulls.mpr discards.nulls,(truncateBitmap_iff zero _).mpr discards.deleted⟩
      have each := congrArg (fun list => list[index]?) (mapM_some cut)
      simp only [List.getElem?_map] at each
      change (columns[index]?.map rows).getD [] = _
      cases there : buffer.columns[index]? with
      | none =>
        rw [there] at each
        cases gone : columns[index]? with
        | none => exact List.take_nil.symm
        | some _ =>
          rw [gone] at each
          cases each
      | some column =>
        rw [there] at each
        cases here : columns[index]? with
        | none =>
          rw [here] at each
          cases each
        | some sliced =>
          rw [here] at each
          have found : column.sliceRange 0 pendingStart = some sliced := Option.some.inj each
          have kept := formed column (List.mem_of_getElem? there)
          exact (sliceRange_cut kept.ordered kept.sound found).rows

end Discard

section Moved
variable {pendingStart : Nat} {live : List Nat} {all : List Slot} {one : Bool}

/-- Every live text can be written, and columns of one name and kind have the same values. -/
structure Written (pendingStart : Nat) (live : List Nat) (all : List Slot) : Prop where
  texts : ∀ slot ∈ all, sectionOf slot.type = some .texts → ∀ row ∈ live,
    ∃ text, slot.column.rows[pendingStart + row]? = some (.bytes (utf8 text))
  names : ∀ slot ∈ all, ∀ other ∈ all, slot.name = other.name → sectionOf slot.type = sectionOf other.type →
    ∀ row ∈ live,
    slot.cell (pendingStart + row) = other.cell (pendingStart + row)

structure Holds (pendingStart : Nat) (live : List Nat) (all : List Slot) (batch : TypedBatch) : Prop where
  values : ∀ slot ∈ all, ∃ kind, sectionOf slot.type = some kind ∧
    ∀ k row : Nat, live[k]? = some row → batchCell batch kind slot.name k = slot.cell (pendingStart + row)
  only : ∀ kind name k cell, batchCell batch kind name k = some cell → ∃ slot ∈ all, slot.name = name ∧
    sectionOf slot.type = some kind

private theorem Carried.cell {slot : Slot} (carried : Carried one pendingStart live slot) {row : Nat}
    (member : row ∈ live) :
    slot.cell (pendingStart + row) = slot.column.rows[pendingStart + row]? := by
  rw [Slot.cell,carried.clear row member,if_neg Bool.false_ne_true]

private theorem written_other {type : ColumnType} {column : ColumnData} (accepts : Accepts one type column)
    (other : sectionOf type ≠ some .texts) (row : Nat) :
    column.rows[row]?.map written = column.rows[row]? := by
  cases column with
  | int64 values =>
    rw [ColumnData.rows,List.getElem?_map,Option.map_map]
    rfl
  | float64 values =>
    rw [ColumnData.rows,List.getElem?_map,Option.map_map]
    rfl
  | bool data len =>
    rw [ColumnData.rows,List.getElem?_map,Option.map_map]
    rfl
  | string offsets data => exact absurd accepts.1 other
  | stringDict indices dictOffsets dictData =>
    cases one with
    | true =>
      have dict : type = .stringDict := accepts
      exact absurd (congrArg sectionOf dict) other
    | false => exact absurd accepts other
  | _ => exact (accepts.elim fun _ fits => fits.2).elim

private theorem written_text (text : String) : written (.bytes (utf8 text)) = .bytes (utf8 text) := by
  rw [written,fromUtf8_utf8]
  rfl

private theorem holds_iff {values : Slot → Except Stop (Extracted live.length)}
    (reads : ∀ slot ∈ all, Reads one pendingStart live values slot)
    (carried : ∀ slot ∈ all, Carried one pendingStart live slot) {final : SpillColumns live.length}
    (ok : extractAll values all .empty = .ok final) (ids : List UInt64) (sized : ids.length = live.length) :
    Holds pendingStart live all (final.batch ids sized) ↔ Written pendingStart live all := by
  constructor
  · intro holds
    refine ⟨fun slot member texts row here => ?_,fun slot member other also name kinds row here => ?_⟩
    · obtain ⟨kind,same,values⟩ := holds.values slot member
      obtain ⟨k,at_⟩ := List.getElem?_of_mem here
      have cell := values k row at_
      rw [(carried slot member).cell here] at cell
      cases texts.symm.trans same
      obtain ⟨value,present⟩ := Option.isSome_iff_exists.mp ((carried slot member).present row here)
      rw [present] at cell
      obtain ⟨column,_,cell⟩ := Option.bind_eq_some_iff.mp cell
      obtain ⟨text,_,rfl⟩ := Option.map_eq_some_iff.mp cell
      exact ⟨text,present⟩
    · obtain ⟨kind,same,values⟩ := holds.values slot member
      obtain ⟨kind',same',values'⟩ := holds.values other also
      obtain ⟨k,at_⟩ := List.getElem?_of_mem here
      have equal : kind = kind' := Option.some.inj (same.symm.trans (kinds.trans same'))
      rw [← values k row at_,← values' k row at_,name,equal]
  · intro written_
    refine ⟨fun slot member => ?_,fun kind name k cell here => ?_⟩
    · obtain ⟨found,here⟩ := (reads slot member).carried.mpr (carried slot member)
      obtain ⟨kind,_⟩ := (reads slot member).cells found here
      refine ⟨found.kind,kind,fun k row at_ => ?_⟩
      have inside := List.mem_of_getElem? at_
      rw [batchCell_find]
      rcases extractAll_find ok found.kind slot.name with ⟨winner,also,name,values,there,same,last⟩ | ⟨others,_⟩
      · obtain ⟨kind',cells⟩ := (reads winner also).cells values there
        have alike := written_.names winner also slot member name (kind'.trans ((congrArg some same).trans kind.symm))
          row inside
        rw [last,Option.bind_some,cells k row at_,← alike,(carried winner also).cell inside]
        by_cases texts : sectionOf winner.type = some .texts
        · obtain ⟨text,is⟩ := written_.texts winner also texts row inside
          rw [is,Option.map_some,written_text]
        · exact written_other (carried winner also).accepts texts _
      · exact absurd ⟨rfl,rfl⟩ (others slot member found here)
    · rw [batchCell_find] at here
      rcases extractAll_find ok kind name with ⟨slot,member,same,values,there,kind_,_⟩ | ⟨_,empty⟩
      · exact ⟨slot,member,same,((reads slot member).cells values there).1.trans (congrArg some kind_)⟩
      · have none : SpillColumns.find (.empty : SpillColumns live.length) kind name = none := by cases kind <;> rfl
        rw [empty,none] at here
        cases here

end Moved

/-! The spill as a whole. -/

def PendingBuffer.slots (buffer : PendingBuffer) : List Slot := Buffer.slots buffer.schema buffer.columns buffer.nulls

def Gained (pendingStart : Nat) (before : PendingBuffer) (delta : DeltaTable) : Prop :=
  if liveRows pendingStart before = [] then delta = before.delta
  else ∃ batch : TypedBatch, delta = before.delta.appendTypedToDeltaWithIds batch ∧
    batch.ids = liveIds pendingStart before ∧
    Holds pendingStart (liveRows pendingStart before) before.slots batch

/-- The live rows are moved and the first rows stay, or nothing changes. -/
def SpillsExactly (backend : Backend) (pendingStart : Nat) (buffer : PendingBuffer) : Prop :=
  ∃ outcome after, spillPendingV4RowsToDeltaFrom backend pendingStart buffer = some (outcome,after) ∧
    match outcome with
    | .ok true => Gained pendingStart buffer after.delta ∧ FirstRows pendingStart buffer after
    | _ => after = buffer

def appendFailure (backend : Backend) (pendingStart : Nat) (buffer : PendingBuffer) : Option (IoError × Nat) :=
  if liveRows pendingStart buffer = [] then none else backend.appendFails

/-- Where the spill is let through: no column that is reached without a refusal panics, an append that
fails has written nothing, every live value can be written, and the first rows can be kept. -/
def SpillsWell (backend : Backend) (pendingStart : Nat) (buffer : PendingBuffer) : Prop :=
  eligible backend pendingStart buffer = .ok true →
    (single pendingStart buffer = false → ∀ before slot after, buffer.slots = before ++ slot :: after →
      (∀ other ∈ before, Carried false pendingStart (liveRows pendingStart buffer) other) →
      Clear pendingStart (liveRows pendingStart buffer) slot → Cuttable slot.column) ∧
    ((∀ slot ∈ buffer.slots, Carried (single pendingStart buffer) pendingStart (liveRows pendingStart buffer) slot) →
      match appendFailure backend pendingStart buffer with
      | some (_,reached) => reached = 0
      | none => Written pendingStart (liveRows pendingStart buffer) buffer.slots ∧
        (pendingStart = 0 ∨ Discards pendingStart buffer))

section Whole
variable {backend : Backend} {pendingStart : Nat} {buffer : PendingBuffer}

private theorem mem_slots {schema : List (String × ColumnType)} {columns : List ColumnData} {nulls : List Bytes}
    {slot : Slot}
    (member : slot ∈ slots schema columns nulls) : slot.column ∈ columns := by
  induction schema generalizing columns nulls with
  | nil => cases member
  | cons entry schema ih =>
    cases columns with
    | nil => cases member
    | cons column columns =>
      rcases List.mem_cons.mp member with rfl | later
      · exact List.mem_cons_self
      · exact List.mem_cons_of_mem _ (ih later)

private theorem mem_liveRows {row : Nat} (member : row ∈ liveRows pendingStart buffer) :
    row < buffer.ids.length - pendingStart :=
  List.mem_range.mp (List.mem_filter.mp member).1

private theorem eligible_start (let_ : eligible backend pendingStart buffer = .ok true) :
    pendingStart < buffer.ids.length := by
  unfold eligible at let_
  split at let_
  · cases let_
  · split at let_
    · cases let_
    · split at let_
      · cases let_
      · obtain ⟨header,_,let_⟩ := bind_eq_ok.mp let_
        simp only at let_
        split at let_
        · cases let_
        · split at let_
          · cases let_
          · omega

private theorem crashed_ne (delta : DeltaTable) (batch : TypedBatch) {reached : Nat} (some_ : reached ≠ 0) :
    delta.crashed batch reached ≠ delta := by
  intro same
  have long := Storage.DeltaFile.toBytes_pos batch
  have file := congrArg (fun table => (table.file.getD []).length) same
  change (delta.file.getD [] ++ batch.toBytes.take reached).length = _ at file
  rw [List.length_append,List.length_take] at file
  omega

private theorem stored_append (delta : DeltaTable) {batch : TypedBatch} (some_ : batch.ids ≠ []) :
    (delta.appendTypedToDeltaWithIds batch).stored = delta.stored ++ [batch] := by
  rw [DeltaTable.appendTypedToDeltaWithIds,if_neg (mt List.isEmpty_iff.mp some_)]

private theorem gained_append {batch : TypedBatch} (ids : batch.ids = liveIds pendingStart buffer) :
    Gained pendingStart buffer (if batch.ids.isEmpty then buffer.delta
      else buffer.delta.appendTypedToDeltaWithIds batch) ↔
      liveRows pendingStart buffer = [] ∨ Holds pendingStart (liveRows pendingStart buffer) buffer.slots batch := by
  unfold Gained
  by_cases none : liveRows pendingStart buffer = []
  · have empty : batch.ids.isEmpty = true := by rw [ids,liveIds,none]; rfl
    rw [if_pos none,if_pos empty]
    exact iff_of_true rfl (Or.inl none)
  · have filled : batch.ids ≠ [] := by
      rw [ids,liveIds]
      exact mt List.map_eq_nil_iff.mp none
    rw [if_neg none,if_neg (mt List.isEmpty_iff.mp filled),or_iff_right none]
    constructor
    · rintro ⟨other,same,otherIds,holds⟩
      have stored := congrArg DeltaTable.stored same
      rw [stored_append _ filled,stored_append _ (otherIds.trans ids.symm ▸ filled)] at stored
      have equal : batch = other := List.singleton_inj.mp (List.append_cancel_left stored)
      exact equal ▸ holds
    · exact fun holds => ⟨batch,rfl,ids,holds⟩

private theorem path_reads (formed : ∀ column ∈ buffer.columns, Formed column)
    (order : pendingStart < buffer.ids.length) :
    ∀ slot ∈ buffer.slots, Reads (single pendingStart buffer) pendingStart (liveRows pendingStart buffer)
      (if single pendingStart buffer then singleValues pendingStart (liveRows pendingStart buffer)
        else liveValues pendingStart buffer.ids.length (liveRows pendingStart buffer)) slot := by
  intro slot member
  have formedSlot := formed _ (mem_slots member)
  cases single pendingStart buffer with
  | true => exact singleValues_reads formedSlot.ordered
  | false => exact liveValues_reads formedSlot (Nat.le_of_lt order) fun row => mem_liveRows

private theorem append_iff (formed : ∀ column ∈ buffer.columns, Formed column) {batch : TypedBatch}
    (ids : batch.ids = liveIds pendingStart buffer) {written_ : Prop}
    (holds : Holds pendingStart (liveRows pendingStart buffer) buffer.slots batch ↔ written_)
    (empty : liveRows pendingStart buffer = [] → written_) :
    (∃ outcome after, (match appendOrFail backend.appendFails buffer.delta batch with
        | (some error,delta) => some (.error error,{buffer with delta := delta})
        | (none,delta) => (discardPendingV4RowsFrom pendingStart {buffer with delta := delta}).map (Except.ok true,·)) =
          some (outcome,after) ∧
      match outcome with
      | .ok true => Gained pendingStart buffer after.delta ∧ FirstRows pendingStart buffer after
      | _ => after = buffer) ↔
    match appendFailure backend pendingStart buffer with
    | some (_,reached) => reached = 0
    | none => written_ ∧ (pendingStart = 0 ∨ Discards pendingStart buffer) := by
  have isEmpty : batch.ids.isEmpty = true ↔ liveRows pendingStart buffer = [] := by
    rw [List.isEmpty_iff,ids,liveIds,List.map_eq_nil_iff]
  -- The append succeeds: then the rows are discarded.
  have success (delta : DeltaTable) (is : delta = if batch.ids.isEmpty then buffer.delta
    else buffer.delta.appendTypedToDeltaWithIds batch) :
      (∃ outcome after, (discardPendingV4RowsFrom pendingStart {buffer with delta := delta}).map (Except.ok true,·) =
        some (outcome,after) ∧
        match (outcome : Except IoError Bool) with
        | .ok true => Gained pendingStart buffer after.delta ∧ FirstRows pendingStart buffer after
        | _ => after = buffer) ↔ written_ ∧ (pendingStart = 0 ∨ Discards pendingStart buffer) := by
    have gained : Gained pendingStart buffer delta ↔ written_ := by
      rw [is,gained_append ids,holds]
      exact or_iff_right_of_imp empty
    have kept := discard_iff pendingStart {buffer with delta := delta} formed
    have same : Discards pendingStart {buffer with delta := delta} ↔ Discards pendingStart buffer :=
      ⟨fun discards => ⟨discards.cuts,discards.nulls,discards.deleted⟩,fun discards =>
        ⟨discards.cuts,discards.nulls,discards.deleted⟩⟩
    have first (after : PendingBuffer) : FirstRows pendingStart {buffer with delta := delta} after ↔
      FirstRows pendingStart buffer after :=
      ⟨fun first => ⟨first.schema,first.ids,first.values,first.nulls,first.deleted⟩,
        fun first => ⟨first.schema,first.ids,first.values,first.nulls,first.deleted⟩⟩
    rw [← gained,← same,← kept]
    constructor
    · rintro ⟨outcome,after,found,exact_⟩
      obtain ⟨after,discarded,same⟩ := Option.map_eq_some_iff.mp found
      cases same
      have delta' := discard_delta discarded
      rw [delta'] at exact_
      exact ⟨exact_.1,after,discarded,(first after).mpr exact_.2⟩
    · rintro ⟨gained,after,discarded,firstRows⟩
      have delta' := discard_delta discarded
      exact ⟨.ok true,after,by rw [discarded]; rfl,delta'.symm ▸ gained,(first after).mp firstRows⟩
  unfold appendOrFail appendFailure
  by_cases none : liveRows pendingStart buffer = []
  · have noIds := isEmpty.mpr none
    rw [if_pos noIds,if_pos none]
    exact success _ (if_pos noIds).symm
  · have some_ : ¬ batch.ids.isEmpty = true := mt isEmpty.mp none
    rw [if_neg some_,if_neg none]
    rcases backend.appendFails with _ | ⟨error,_ | reached⟩
    · exact success _ (if_neg some_).symm
    · exact iff_of_true ⟨_,_,rfl,rfl⟩ rfl
    · refine iff_of_false ?_ (Nat.succ_ne_zero reached)
      rintro ⟨outcome,after,found,exact_⟩
      cases found
      exact crashed_ne buffer.delta batch (Nat.succ_ne_zero reached) (congrArg PendingBuffer.delta exact_)

/-- A spill is exact where nothing goes wrong, and only there. -/
theorem spill_exact_iff (formed : ∀ column ∈ buffer.columns, Formed column) :
    SpillsExactly backend pendingStart buffer ↔ SpillsWell backend pendingStart buffer := by
  unfold SpillsExactly SpillsWell spillPendingV4RowsToDeltaFrom
  rcases found : eligible backend pendingStart buffer with error | ⟨_ | _⟩
  · exact iff_of_true ⟨_,_,rfl,rfl⟩ (by rintro ⟨⟩)
  · exact iff_of_true ⟨_,_,rfl,rfl⟩ (by rintro ⟨⟩)
  · rw [forall_prop_of_true rfl]
    have reads := path_reads formed (eligible_start found)
    simp only
    generalize (if single pendingStart buffer then singleValues pendingStart (liveRows pendingStart buffer)
      else liveValues pendingStart buffer.ids.length (liveRows pendingStart buffer)) = values at reads ⊢
    have carried : (∀ slot ∈ buffer.slots, Carried (single pendingStart buffer) pendingStart
      (liveRows pendingStart buffer) slot) ↔
        ∃ final, extractAll values buffer.slots .empty = .ok final :=
      (extractAll_ok.trans (forall₂_congr fun slot member => (reads slot member).carried)).symm
    -- Where no column panics, none that is reached has no width.
    have reached : extractAll values buffer.slots .empty = .error .panic ↔ ¬ (single pendingStart buffer = false →
        ∀ before slot after, buffer.slots = before ++ slot :: after →
          (∀ other ∈ before, Carried false pendingStart (liveRows pendingStart buffer) other) →
          Clear pendingStart (liveRows pendingStart buffer) slot → Cuttable slot.column) := by
      rw [extractAll_stop]
      push Not
      constructor
      · rintro ⟨before,slot,after,split,others,stopped⟩
        have member : ∀ other ∈ before ++ [slot], other ∈ buffer.slots := by
          intro other there
          rw [split]
          rcases List.mem_append.mp there with first | last
          · exact List.mem_append_left _ first
          · exact List.mem_append_right _ (List.mem_singleton.mp last ▸ List.mem_cons_self)
        obtain ⟨several,clear,stuck⟩ := (reads slot (member slot (by simp))).panics.mp stopped
        refine ⟨several,before,slot,after,split,fun other there => ?_,clear,stuck⟩
        exact several ▸ (reads other (member other (List.mem_append_left _ there))).carried.mp (others other there)
      · rintro ⟨several,before,slot,after,split,others,clear,stuck⟩
        have here : slot ∈ buffer.slots := split ▸ List.mem_append_right _ List.mem_cons_self
        refine ⟨before,slot,after,split,fun other there => ?_,(reads slot here).panics.mpr ⟨several,clear,stuck⟩⟩
        have also : other ∈ buffer.slots := split ▸ List.mem_append_left _ there
        exact (reads other also).carried.mpr (several.symm ▸ others other there)
    rw [show slots buffer.schema buffer.columns buffer.nulls = buffer.slots from rfl]
    rcases extracted : extractAll values buffer.slots .empty with (_ | _) | final
    · have fine := mt reached.mpr (by rw [extracted]; rintro ⟨⟩)
      refine iff_of_true ⟨_,_,rfl,rfl⟩ ⟨not_not.mp fine,fun all => ?_⟩
      obtain ⟨final,ok⟩ := carried.mp all
      rw [extracted] at ok
      cases ok
    · refine iff_of_false ?_ fun fine => reached.mp extracted fine.1
      rintro ⟨_,_,panicked,_⟩
      cases panicked
    · have fine := mt reached.mpr (by rw [extracted]; rintro ⟨⟩)
      have all := carried.mpr ⟨final,extracted⟩
      rw [and_iff_right (not_not.mp fine),forall_prop_of_true all]
      refine append_iff formed rfl (holds_iff reads all extracted _ _) fun none => ?_
      rw [none]
      exact ⟨fun _ _ _ _ absent => absurd absent List.not_mem_nil,fun _ _ _ _ _ _ _ absent =>
        absurd absent List.not_mem_nil⟩

end Whole

/-! A table of twelve rows with one row more in memory; the sixth row is NULL. -/

def twelveRows : Backend where
  inMemory := false
  cachedFooterOffset := 64
  v4Footer := some
    { schema := ⟨[("n",.int64)],[],fun _ => none,[],[]⟩
      rowGroups := [⟨0,0,12,1,12,0⟩]
      zoneMaps := []
      colOffsets := []
      chunkTables := [] }
  onDiskHeaderRowCount := .ok (some 12)
  v4BaseLoaded := true
  persistedRowCount := 12
  appendFails := none

def thirteenth (nulls : Bytes) : PendingBuffer where
  schema := [("n",.int64)]
  columns := [.int64 (List.replicate 13 0)]
  nulls := [nulls]
  ids := (List.range 13).map fun row => UInt64.ofNat (row + 1)
  deleted := []
  pendingRows := 1
  delta := .empty

private theorem formed_thirteenth (nulls : Bytes) : ∀ column ∈ (thirteenth nulls).columns, Formed column := by
  intro column member
  rw [List.mem_singleton.mp member]
  exact ⟨(by decide : 13 * 8 < 2^63),trivial,nofun⟩

/-- A bitmap with a byte for the last row is cut right. -/
theorem spills_with_long_bitmap : SpillsExactly twelveRows 12 (thirteenth [0x20,0]) := by
  refine (spill_exact_iff (formed_thirteenth _)).mpr fun _ => ⟨fun several => ?_,fun _ => ⟨⟨?_,?_⟩,Or.inr ⟨?_,?_,?_⟩⟩⟩
  · exact absurd several (by decide)
  · intro slot member text
    rw [List.mem_singleton.mp member] at text
    cases text
  · intro slot member other also _ _ _ _
    rw [List.mem_singleton.mp member,List.mem_singleton.mp also]
  · intro column member
    rw [List.mem_singleton.mp member]
    trivial
  · intro bitmap member
    rw [List.mem_singleton.mp member]
    exact Or.inr (Or.inl (by decide))
  · exact Or.inr (Or.inr nofun)

/-- A bitmap that ends with the last NULL is masked in the byte of rows that stay: the sixth row is
not NULL any more. -/
theorem spill_forgets_null : ¬ SpillsExactly twelveRows 12 (thirteenth [0x20]) := by
  rintro ⟨outcome,after,ran,exact_⟩
  have spilled : (spillPendingV4RowsToDeltaFrom twelveRows 12 (thirteenth [0x20])).map (fun result =>
    (result.1.toOption,result.2.nulls)) =
      some (some true,[[0]]) := by decide +kernel
  rw [ran,Option.map_some,Option.some.injEq,Prod.mk.injEq] at spilled
  obtain ⟨success,nulls⟩ := spilled
  cases toOption_eq_some.mp success
  have sixth := exact_.2.nulls 0 5
  rw [show after.nulls = [[0]] from nulls] at sixth
  exact absurd sixth (by decide)

end ApexBase.Buffer
