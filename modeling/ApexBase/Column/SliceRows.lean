import ApexBase.Column.Slice
import ApexBase.Library.Traverse
import Mathlib.Data.List.Dedup

/-! What the cuts and the dictionaries keep: the rows of a column. -/
namespace ApexBase.Column
open Data Library Library.Wire ColumnData

/-- What the `push` operations keep of the offsets: they are in order and end inside the data. -/
def ColumnData.Ordered : ColumnData → Prop
  | .string offsets data | .binary offsets data | .stringDict _ offsets data =>
    offsets.Pairwise (fun a b => a.toNat ≤ b.toNat) ∧ ∀ offset ∈ offsets, offset.toNat ≤ data.length
  | _ => True

namespace ColumnData

theorem SameVariant.refl (column : ColumnData) : column.SameVariant column := by
  cases column <;> trivial

theorem sliceRange_variant {column next : ColumnData} {start stop : Nat}
    (cut : column.sliceRange start stop = some next) : column.SameVariant next := by
  cases column with
  | bool data len =>
    cases cut
    trivial
  | quantizedList data dim codec =>
    simp only [sliceRange] at cut
    split at cut
    · obtain ⟨bytes,_,rfl⟩ := Option.map_eq_some_iff.mp cut
      rfl
    · cases cut
  | _ =>
    obtain ⟨bytes,_,rfl⟩ := Option.map_eq_some_iff.mp cut
    trivial

end ColumnData

section Cuts

variable {start stop : Nat}

theorem between_some {α : Type} {items cut : List α} (found : between items start stop = some cut) :
    start ≤ stop ∧ stop ≤ items.length ∧ cut = (items.drop start).take (stop - start) := by
  unfold between at found
  split at found
  · rename_i range
    exact ⟨range.1,range.2,(Option.some.inj found).symm⟩
  · cases found

theorem between_clamped {α : Type} {items cut : List α}
    (found : between items (min start items.length) (min stop items.length) = some cut) :
    cut = (items.drop start).take (stop - start) := by
  obtain ⟨_,_,rfl⟩ := between_some found
  apply List.ext_getElem?
  intro i
  simp only [List.getElem?_take,List.getElem?_drop]
  by_cases inside : start < items.length
  · rw [Nat.min_eq_left (Nat.le_of_lt inside)]
    by_cases short : i < stop - start
    · by_cases there : start + i < items.length
      · rw [if_pos short,if_pos (by omega)]
      · rw [List.getElem?_eq_none (Nat.le_of_not_lt there)]
        simp
    · rw [if_neg short,if_neg (by omega)]
  · have none_ (j : Nat) : items[items.length + j]? = none := List.getElem?_eq_none (by omega)
    have beyond : items[start + i]? = none := List.getElem?_eq_none (by omega)
    rw [Nat.min_eq_right (Nat.le_of_not_lt inside),none_,beyond]
    simp

/-! Rows of a fixed number of bytes. -/

theorem rows_strided {data cut : Bytes} {stride : Nat} (found : sliceStrided data stride start stop = some cut) :
    strideRows cut stride = ((strideRows data stride).drop start).take (stop - start) ∧
    ∃ rows, cut.length = rows * stride ∧ cut.length ≤ data.length := by
  unfold sliceStrided at found
  obtain ⟨order,inside,rfl⟩ := between_some found
  by_cases zero : stride = 0
  · subst zero
    simp [strideRows]
  · have wide : 0 < stride := Nat.pos_of_ne_zero zero
    rw [if_neg zero] at order inside ⊢
    have low : min start (data.length / stride) ≤ min stop (data.length / stride) :=
      Nat.le_of_mul_le_mul_right order wide
    have length : ((data.drop (min start (data.length / stride) * stride)).take
        (min stop (data.length / stride) * stride - min start (data.length / stride) * stride)).length =
        (min stop (data.length / stride) - min start (data.length / stride)) * stride := by
      rw [List.length_take,List.length_drop,Nat.sub_mul]
      omega
    refine ⟨?_,_,length,?_⟩
    · apply List.ext_getElem?
      intro i
      rw [strideRows,length,Nat.mul_div_cancel _ wide]
      simp only [strideRows,List.getElem?_take,List.getElem?_drop,List.getElem?_map]
      by_cases here : i < min stop (data.length / stride) - min start (data.length / stride)
      · have first : min start (data.length / stride) = start := by omega
        rw [first] at here ⊢
        have shift : start * stride + i * stride = (start + i) * stride := (Nat.add_mul _ _ _).symm
        have room : (start + i) * stride + stride ≤ min stop (data.length / stride) * stride := by
          calc (start + i) * stride + stride = (start + i + 1) * stride := by ring
            _ ≤ min stop (data.length / stride) * stride := Nat.mul_le_mul_right _ (by omega)
        rw [List.getElem?_range here,if_pos (by omega),List.getElem?_range (by omega)]
        simp only [Option.map_some,List.drop_take,List.drop_drop,List.take_take,shift]
        congr 4
        omega
      · rw [List.getElem?_eq_none (by rw [List.length_range]; omega)]
        split
        · rw [List.getElem?_eq_none (by rw [List.length_range]; omega)]
          rfl
        · rfl
    · rw [length,Nat.sub_mul]
      omega

/-! Rows between offsets. -/

theorem offset_le {offsets : List UInt64} (inOrder : offsets.Pairwise fun a b => a.toNat ≤ b.toNat) {i j : Nat}
    {a b : UInt64} (le : i ≤ j) (first : offsets[i]? = some a) (second : offsets[j]? = some b) : a.toNat ≤ b.toNat := by
  obtain ⟨here,rfl⟩ := List.getElem?_eq_some_iff.mp first
  obtain ⟨there,rfl⟩ := List.getElem?_eq_some_iff.mp second
  rcases Nat.lt_or_eq_of_le le with before | rfl
  · exact List.pairwise_iff_getElem.mp inOrder i j here there before
  · exact Nat.le_refl _

private theorem sliceOffsets_some {offsets cutOffsets : List UInt64} {data cutData : Bytes}
    (inside : ∀ offset ∈ offsets, offset.toNat ≤ data.length)
    (found : sliceOffsets offsets data start stop = some (cutOffsets,cutData)) :
    (min stop (offsets.length - 1) ≤ start ∧ cutOffsets = [0] ∧ cutData = []) ∨
    ∃ base last, start < min stop (offsets.length - 1) ∧ offsets[start]? = some base ∧
    offsets[min stop (offsets.length - 1)]? = some last ∧
      cutOffsets = ((offsets.drop start).take (min stop (offsets.length - 1) + 1 - start)).map (· - base) ∧
      cutData = (data.drop base.toNat).take (last.toNat - base.toNat) ∧ last.toNat ≤ data.length := by
  unfold sliceOffsets at found
  simp only at found
  split at found
  · rename_i empty
    cases found
    exact Or.inl ⟨by omega,rfl,rfl⟩
  · rename_i some_
    have first : min start (offsets.length - 1) = start := by omega
    rw [first] at found
    obtain ⟨base,atStart,found⟩ := Option.bind_eq_some_iff.mp found
    obtain ⟨last,atStop,found⟩ := Option.bind_eq_some_iff.mp found
    obtain ⟨newData,cut,found⟩ := Option.bind_eq_some_iff.mp found
    cases found
    have bounded := inside last (List.mem_of_getElem? atStop)
    rw [Nat.min_eq_left bounded] at cut
    obtain ⟨_,_,rfl⟩ := between_some cut
    exact Or.inr ⟨base,last,by omega,atStart,atStop,rfl,rfl,bounded⟩

section
variable {offsets cutOffsets : List UInt64} {data cutData : Bytes}
    (inOrder : offsets.Pairwise fun a b => a.toNat ≤ b.toNat)
variable (inside : ∀ offset ∈ offsets, offset.toNat ≤ data.length)
    (found : sliceOffsets offsets data start stop = some (cutOffsets,cutData))
include inOrder inside found

private theorem rows_offsets :
    (List.range (cutOffsets.length - 1)).map (slice cutOffsets cutData) =
      (((List.range (offsets.length - 1)).map (slice offsets data)).drop start).take (stop - start) := by
  rcases sliceOffsets_some inside found with ⟨empty,rfl,rfl⟩ | ⟨base,last,some_,atStart,atStop,rfl,rfl,bounded⟩
  · symm
    change _ = ([] : List Bytes)
    rw [List.take_eq_nil_iff,List.drop_eq_nil_iff,List.length_map,List.length_range]
    omega
  · have length : (((offsets.drop start).take (min stop (offsets.length - 1) + 1 - start)).map (· - base)).length =
        min stop (offsets.length - 1) + 1 - start := by
      rw [List.length_map,List.length_take,List.length_drop]
      omega
    have entry (i : Nat) (here : i ≤ min stop (offsets.length - 1) - start) :
        ∃ offset, offsets[start + i]? = some offset ∧ base.toNat ≤ offset.toNat ∧ offset.toNat ≤ last.toNat ∧
          (((offsets.drop start).take (min stop (offsets.length - 1) + 1 - start)).map (· - base))[i]?.getD 0 =
          offset - base := by
      have there : start + i < offsets.length := by omega
      have at_ := List.getElem?_eq_getElem there
      refine ⟨offsets[start + i],at_,offset_le inOrder (Nat.le_add_right _ _) atStart at_,
        offset_le inOrder (by omega) at_ atStop,?_⟩
      rw [List.getElem?_map,List.getElem?_take,if_pos (by omega),List.getElem?_drop,at_]
      rfl
    apply List.ext_getElem?
    intro i
    rw [length]
    simp only [List.getElem?_take,List.getElem?_drop,List.getElem?_map]
    by_cases here : i < min stop (offsets.length - 1) - start
    · rw [List.getElem?_range (by omega),if_pos (by omega),List.getElem?_range (by omega)]
      obtain ⟨low,lowAt,lowBase,lowLast,lowCut⟩ := entry i (by omega)
      obtain ⟨high,highAt,highBase,highLast,highCut⟩ := entry (i + 1) (by omega)
      have order := offset_le inOrder (Nat.le_succ _) lowAt highAt
      have differ {offset : UInt64} (above : base.toNat ≤ offset.toNat) : (offset - base).toNat =
        offset.toNat - base.toNat :=
        UInt64.toNat_sub_of_le _ _ above
      simp only [Option.map_some,Option.some.injEq,slice]
      rw [lowCut,highCut,differ lowBase,differ highBase,show start + i + 1 = start + (i + 1) from rfl,lowAt,highAt]
      simp only [Option.getD_some,List.drop_take,List.drop_drop,List.take_take]
      congr 1
      · omega
      · congr 1
        omega
    · rw [List.getElem?_eq_none (by rw [List.length_range]; omega)]
      split
      · rw [List.getElem?_eq_none (by rw [List.length_range]; omega)]
        rfl
      · rfl

private theorem ordered_cut :
    (cutOffsets.Pairwise fun a b => a.toNat ≤ b.toNat) ∧ (∀ offset ∈ cutOffsets, offset.toNat ≤ cutData.length) ∧
    cutOffsets ≠ [] ∧
      cutOffsets.length ≤ max offsets.length 1 ∧ cutData.length ≤ data.length := by
  rcases sliceOffsets_some inside found with ⟨_,rfl,rfl⟩ | ⟨base,last,some_,atStart,atStop,rfl,rfl,bounded⟩
  · exact ⟨List.pairwise_singleton _ _,by simp,by simp,by simp,Nat.zero_le _⟩
  · have above (i : Nat) (offset : UInt64)
        (there : ((offsets.drop start).take (min stop (offsets.length - 1) + 1 - start))[i]? = some offset) :
        offsets[start + i]? = some offset ∧ base.toNat ≤ offset.toNat ∧ offset.toNat ≤ last.toNat := by
      rw [List.getElem?_take] at there
      split at there
      · rw [List.getElem?_drop] at there
        exact ⟨there,offset_le inOrder (Nat.le_add_right _ _) atStart there,offset_le inOrder (by omega) there atStop⟩
      · cases there
    have differ {offset : UInt64} (le : base.toNat ≤ offset.toNat) : (offset - base).toNat =
      offset.toNat - base.toNat :=
      UInt64.toNat_sub_of_le _ _ le
    refine ⟨?_,?_,?_,?_,?_⟩
    · rw [List.pairwise_map]
      refine List.pairwise_iff_getElem.mpr fun i j first second before => ?_
      obtain ⟨lowAt,lowBase,_⟩ := above i _ (List.getElem?_eq_getElem first)
      obtain ⟨highAt,highBase,_⟩ := above j _ (List.getElem?_eq_getElem second)
      have order := offset_le inOrder (Nat.add_le_add_left (Nat.le_of_lt before) start) lowAt highAt
      rw [differ lowBase,differ highBase]
      omega
    · intro shifted member
      obtain ⟨offset,there,rfl⟩ := List.mem_map.mp member
      obtain ⟨i,at_⟩ := List.getElem?_of_mem there
      obtain ⟨_,lowBase,highLast⟩ := above i offset at_
      rw [differ lowBase,List.length_take,List.length_drop]
      omega
    · intro empty
      have length := congrArg List.length empty
      rw [List.length_map,List.length_take,List.length_drop,List.length_nil] at length
      obtain ⟨here,_⟩ := List.getElem?_eq_some_iff.mp atStart
      omega
    · rw [List.length_map,List.length_take,List.length_drop]
      omega
    · rw [List.length_take,List.length_drop]
      omega

end

theorem rows_bits (start stop : Nat) (data : Bytes) (len : Nat) :
    (ColumnData.bool (packBits (fun i => getBit data (min start len + i)) (min stop len - min start len)
      (List.replicate ((min stop len - min start len + 7) / 8) 0)) (min stop len - min start len)).rows =
    ((ColumnData.bool data len).rows.drop start).take (stop - start) := by
  apply List.ext_getElem?
  intro i
  simp only [rows,List.getElem?_take,List.getElem?_drop,List.getElem?_map]
  by_cases here : i < min stop len - min start len
  · have first : min start len = start := by omega
    rw [List.getElem?_range here,if_pos (by omega),List.getElem?_range (by omega)]
    simp only [Option.map_some]
    rw [getBit_packBits _ here,first]
  · rw [List.getElem?_eq_none (by rw [List.length_range]; omega)]
    split
    · rw [List.getElem?_eq_none (by rw [List.length_range]; omega)]
      rfl
    · rfl

/-- A cut has the rows of its range, and is as well formed as the column. -/
structure Cut (column : ColumnData) (start stop : Nat) (chunk : ColumnData) : Prop where
  rows : chunk.rows = (column.rows.drop start).take (stop - start)
  ordered : chunk.Ordered
  sound : chunk.Sound
  variant : ∀ other : ColumnData, other.SameVariant column → other.SameVariant chunk

theorem sliceRange_cut {column chunk : ColumnData} (ordered : column.Ordered) (sound : column.Sound)
    (found : column.sliceRange start stop = some chunk) : Cut column start stop chunk := by
  cases column with
  | bool data len =>
    cases found
    unfold Sound at sound
    refine ⟨rows_bits _ _ data len, trivial, ?_, fun other same => by cases other <;> exact same⟩
    unfold Sound
    omega
  | int64 values =>
    obtain ⟨cut,between_,rfl⟩ := Option.map_eq_some_iff.mp found
    rw [between_clamped between_]
    unfold Sound at sound
    refine ⟨by simp only [rows,List.map_take,List.map_drop],trivial,?_,fun other same => by cases other <;> exact same⟩
    simp only [Sound,List.length_take,List.length_drop]
    omega
  | float64 values =>
    obtain ⟨cut,between_,rfl⟩ := Option.map_eq_some_iff.mp found
    rw [between_clamped between_]
    unfold Sound at sound
    refine ⟨by simp only [rows,List.map_take,List.map_drop],trivial,?_,fun other same => by cases other <;> exact same⟩
    simp only [Sound,List.length_take,List.length_drop]
    omega
  | string offsets data =>
    obtain ⟨⟨cutOffsets,cutData⟩,cut,rfl⟩ := Option.map_eq_some_iff.mp found
    obtain ⟨inOrder,inside,some_,fewer,less⟩ := ordered_cut ordered.1 ordered.2 cut
    have same := congrArg (List.map Cell.bytes) (rows_offsets ordered.1 ordered.2 cut)
    simp only [List.map_map,List.map_take,List.map_drop] at same
    obtain ⟨_,smallOffsets,smallData⟩ := sound
    have fewOffsets : cutOffsets.length * 8 < 2^63 := by omega
    exact ⟨same,⟨inOrder,inside⟩,⟨some_,fewOffsets,Nat.lt_of_le_of_lt less smallData⟩,fun other same =>
      by cases other <;> exact same⟩
  | binary offsets data =>
    obtain ⟨⟨cutOffsets,cutData⟩,cut,rfl⟩ := Option.map_eq_some_iff.mp found
    obtain ⟨inOrder,inside,some_,fewer,less⟩ := ordered_cut ordered.1 ordered.2 cut
    have same := congrArg (List.map Cell.bytes) (rows_offsets ordered.1 ordered.2 cut)
    simp only [List.map_map,List.map_take,List.map_drop] at same
    obtain ⟨_,smallOffsets,smallData⟩ := sound
    have fewOffsets : cutOffsets.length * 8 < 2^63 := by omega
    exact ⟨same,⟨inOrder,inside⟩,⟨some_,fewOffsets,Nat.lt_of_le_of_lt less smallData⟩,fun other same =>
      by cases other <;> exact same⟩
  | stringDict indices dictOffsets dictData =>
    obtain ⟨cut,between_,rfl⟩ := Option.map_eq_some_iff.mp found
    rw [between_clamped between_]
    obtain ⟨smallIndices,smallOffsets,smallData⟩ := sound
    refine ⟨by simp only [rows,List.map_take,List.map_drop],ordered,⟨?_,smallOffsets,smallData⟩,
      fun other same => by cases other <;> exact same⟩
    simp only [List.length_take,List.length_drop]
    omega
  | fixedList data dim =>
    obtain ⟨cut,strided,rfl⟩ := Option.map_eq_some_iff.mp found
    obtain ⟨same,count,length,less⟩ := rows_strided strided
    exact ⟨same,trivial,⟨Nat.lt_of_le_of_lt less sound.1,count,length⟩,fun other same => by cases other <;> exact same⟩
  | float16List data dim =>
    obtain ⟨cut,strided,rfl⟩ := Option.map_eq_some_iff.mp found
    obtain ⟨same,count,length,less⟩ := rows_strided strided
    exact ⟨same,trivial,⟨Nat.lt_of_le_of_lt less sound.1,count,length⟩,fun other same => by cases other <;> exact same⟩
  | quantizedList data dim codec =>
    rw [sliceRange] at found
    cases width : codec.rowWidth dim.toNat with
    | error error =>
      rw [width] at found
      cases found
    | ok stride =>
      rw [width] at found
      obtain ⟨cut,strided,rfl⟩ := Option.map_eq_some_iff.mp found
      obtain ⟨same,count,length,less⟩ := rows_strided strided
      obtain ⟨small,empty,_⟩ := sound
      refine ⟨?_,trivial,⟨Nat.lt_of_le_of_lt less small,fun zero => ?_,fun other width' => ?_⟩,fun other same =>
        by cases other <;> exact same⟩
      · simp only [rows,width]
        exact same
      · rw [empty zero,List.length_nil] at less
        exact List.eq_nil_of_length_eq_zero (Nat.le_zero.mp less)
      · rw [width] at width'
        cases width'
        exact ⟨count,length⟩

end Cuts

section Nulls

variable (nulls : Bytes) (start stop : Nat)

theorem testBit_mask (byte : UInt8) {tail index : Nat} (short : tail < 8) (low : index < 8) :
    (byte &&& (1 <<< UInt8.ofNat tail) - 1).toNat.testBit index =
    (decide (index < tail) && byte.toNat.testBit index) := by
  have mask : ((1 <<< UInt8.ofNat tail : UInt8) - 1).toNat.testBit index = decide (index < tail) := by
    have all : ∀ tail < 8, ∀ index < 8, ((1 <<< UInt8.ofNat tail : UInt8) - 1).toNat.testBit index =
      decide (index < tail) := by decide
    exact all tail short index low
  rw [UInt8.toNat_and,Nat.testBit_and,mask,Bool.and_comm]

private theorem copied_byte {count index : Nat} (inside : index < count) :
    (((nulls.drop start).take count ++ List.replicate (count - ((nulls.drop start).take count).length) 0)[index]?).getD
      0 =
      (nulls[start + index]?).getD 0 := by
  rw [List.getElem?_append]
  split
  · rw [List.getElem?_take,if_pos inside,List.getElem?_drop]
  · rename_i beyond
    rw [List.length_take,List.length_drop] at beyond
    rw [List.getElem?_replicate,List.getElem?_eq_none (show nulls.length ≤ start + index by omega)]
    split
    · rfl
    · rfl

theorem length_sliceNullBitmap : (sliceNullBitmap nulls start stop).length = (stop - start + 7) / 8 := by
  have copied : ((nulls.drop (start / 8)).take ((stop - start + 7) / 8) ++
      List.replicate ((stop - start + 7) / 8 - ((nulls.drop (start / 8)).take ((stop - start + 7) / 8)).length)
        0).length =
      (stop - start + 7) / 8 := by
    rw [List.length_append,List.length_replicate,List.length_take]
    omega
  unfold sliceNullBitmap
  simp only
  split
  · exact List.length_replicate
  · split
    · split
      · rw [List.length_modify,copied]
      · exact copied
    · have packed := (packBits_spec (fun i => getBit nulls (start + i)) (stop - start)
        (List.replicate ((stop - start + 7) / 8) 0)
        (by rw [List.length_replicate]; omega)).1
      rw [packed,List.length_replicate]

theorem getBit_sliceNullBitmap {row : Nat} (inside : row < stop - start) :
    getBit (sliceNullBitmap nulls start stop) row = getBit nulls (start + row) := by
  have byte : row / 8 < (stop - start + 7) / 8 := by omega
  unfold sliceNullBitmap
  simp only
  split
  · rename_i none_
    rw [getBit_replicate,none_.resolve_left (by omega)]
    simp [getBit]
  · split
    · rename_i aligned
      have place : (start + row) / 8 = start / 8 + row / 8 := by omega
      have within : (start + row) % 8 = row % 8 := by omega
      have same := copied_byte nulls (start / 8) byte
      unfold getBit
      rw [place,within,← same]
      split
      · rename_i ragged
        rw [List.getElem?_modify]
        split
        · rename_i last
          cases found : (((nulls.drop (start / 8)).take ((stop - start + 7) / 8) ++
              List.replicate ((stop - start + 7) / 8 - ((nulls.drop (start / 8)).take ((stop - start + 7) / 8)).length)
                0)[row / 8]?) with
          | none => rfl
          | some whole =>
            have kept : row % 8 < (stop - start) % 8 := by omega
            exact (testBit_mask whole (Nat.mod_lt _ (by decide)) (Nat.mod_lt _ (by decide))).trans
              (by rw [decide_eq_true kept,Bool.true_and]; rfl)
        · simp
      · rfl
    · exact getBit_packBits _ inside

end Nulls

section Dictionaries

def endsFrom : Nat → List Bytes → List UInt64
  | _,[] => []
  | start,text :: rest => UInt64.ofNat (start + text.length) :: endsFrom (start + text.length) rest

theorem foldl_push (pieces : List Bytes) (texts : Texts) :
    pieces.foldl Texts.push texts = ⟨texts.offsets ++ endsFrom texts.data.length pieces,
      texts.data ++ pieces.flatten⟩ := by
  induction pieces generalizing texts with
  | nil => simp [endsFrom]
  | cons text rest ih =>
    rw [List.foldl_cons,ih]
    simp [Texts.push,endsFrom]

theorem length_endsFrom (start : Nat) (pieces : List Bytes) : (endsFrom start pieces).length = pieces.length := by
  induction pieces generalizing start with
  | nil => rfl
  | cons text rest ih => rw [endsFrom,List.length_cons,ih,List.length_cons]

theorem endsFrom_at (start : Nat) (pieces : List Bytes) {index : Nat} (inside : index ≤ pieces.length) :
    (UInt64.ofNat start :: endsFrom start pieces)[index]? =
    some (UInt64.ofNat (start + (pieces.take index).flatten.length)) := by
  induction pieces generalizing start index with
  | nil =>
    obtain rfl : index = 0 := Nat.le_zero.mp inside
    simp
  | cons text rest ih =>
    cases index with
    | zero => simp
    | succ index =>
      rw [List.getElem?_cons_succ,endsFrom,ih (start + text.length) (Nat.le_of_succ_le_succ inside)]
      simp [Nat.add_assoc]

theorem flatten_at {pieces : List Bytes} {index : Nat} {text : Bytes} (there : pieces[index]? = some text) :
    (pieces.flatten.drop (pieces.take index).flatten.length).take text.length = text ∧
    (pieces.take (index + 1)).flatten.length = (pieces.take index).flatten.length + text.length ∧
    (pieces.take (index + 1)).flatten.length ≤ pieces.flatten.length := by
  obtain ⟨inside,rfl⟩ := List.getElem?_eq_some_iff.mp there
  have split : pieces.flatten = (pieces.take index).flatten ++ (pieces[index] ++
    (pieces.drop (index + 1)).flatten) := by
    conv_lhs => rw [← List.take_append_drop index pieces,List.drop_eq_getElem_cons inside]
    rw [List.flatten_append,List.flatten_cons]
  have next : (pieces.take (index + 1)).flatten = (pieces.take index).flatten ++ pieces[index] := by
    rw [List.take_succ_eq_append_getElem inside,List.flatten_append,List.flatten_singleton]
  refine ⟨?_,by rw [next,List.length_append],?_⟩
  · rw [split,List.drop_left,List.take_left]
  · rw [next,split,← List.append_assoc]
    simp

theorem slice_texts {pieces : List Bytes} (small : pieces.flatten.length < 2^64) {index : Nat} {text : Bytes}
    (there : pieces[index]? = some text) : slice (UInt64.ofNat 0 :: endsFrom 0 pieces) pieces.flatten index = text := by
  obtain ⟨inside,_⟩ := List.getElem?_eq_some_iff.mp there
  obtain ⟨cut,next,bounded⟩ := flatten_at there
  have value {n : Nat} (le : n ≤ pieces.flatten.length) : (UInt64.ofNat n).toNat = n := by
    rw [UInt64.toNat_ofNat_of_lt' (Nat.lt_of_le_of_lt le small)]
  unfold slice
  rw [endsFrom_at 0 pieces (Nat.le_of_lt inside),endsFrom_at 0 pieces (show index + 1 ≤ pieces.length from inside)]
  simp only [Option.getD_some,Nat.zero_add]
  rw [value (show (pieces.take index).flatten.length ≤ _ by omega),value bounded,next,Nat.add_sub_cancel_left]
  exact cut

theorem rows_texts {pieces : List Bytes} (small : pieces.flatten.length < 2^64) :
    (ColumnData.string (UInt64.ofNat 0 :: endsFrom 0 pieces) pieces.flatten).rows = pieces.map .bytes := by
  apply List.ext_getElem?
  intro i
  simp only [rows,List.length_cons,length_endsFrom,Nat.add_sub_cancel,List.getElem?_map]
  by_cases inside : i < pieces.length
  · have there := List.getElem?_eq_getElem inside
    rw [List.getElem?_range inside,there,Option.map_some,slice_texts small there]
    rfl
  · rw [List.getElem?_eq_none (by rw [List.length_range]; omega),List.getElem?_eq_none (by omega)]
    rfl

private theorem length_flatten_le {front whole : List Bytes} (first : front <+: whole) :
    front.flatten.length ≤ whole.flatten.length := by
  obtain ⟨rest,rfl⟩ := first
  rw [List.flatten_append,List.length_append]
  exact Nat.le_add_right _ _

theorem ordered_texts {pieces : List Bytes} (small : pieces.flatten.length < 2^64) :
    (ColumnData.string (UInt64.ofNat 0 :: endsFrom 0 pieces) pieces.flatten).Ordered := by
  have length : (UInt64.ofNat 0 :: endsFrom 0 pieces).length = pieces.length +
    1 := by rw [List.length_cons,length_endsFrom]
  have offset {i : Nat} (inside : i < (UInt64.ofNat 0 :: endsFrom 0 pieces).length) :
      (UInt64.ofNat 0 :: endsFrom 0 pieces)[i].toNat = (pieces.take i).flatten.length := by
    have at_ := endsFrom_at 0 pieces (show i ≤ pieces.length by omega)
    rw [List.getElem?_eq_getElem inside] at at_
    rw [Option.some.inj at_,Nat.zero_add]
    refine UInt64.toNat_ofNat_of_lt' (Nat.lt_of_le_of_lt ?_ small)
    exact length_flatten_le (List.take_prefix i pieces)
  refine ⟨List.pairwise_iff_getElem.mpr fun i j first second before => ?_,fun value member => ?_⟩
  · rw [offset first,offset second]
    exact length_flatten_le (List.take_prefix_take_left (Nat.le_of_lt before))
  · obtain ⟨i,inside,rfl⟩ := List.getElem_of_mem member
    rw [offset inside]
    exact length_flatten_le (List.take_prefix i pieces)

/-- What the builder holds of the texts that it was given: every one is an entry, at the place
before the index that was noted for it. -/
structure Holds (builder : DictBuilder) (pieces : List Bytes) : Prop where
  dict : builder.dict = builder.entries.foldl Texts.push .empty
  indices : builder.rowIndices.map (fun index => builder.entries[index.toNat - 1]?) = pieces.map some
  positive : ∀ index ∈ builder.rowIndices, index ≠ 0 ∧ index.toNat ≤ builder.entries.length
  distinct : builder.entries.Nodup
  drawn : builder.entries ⊆ pieces
  less : builder.entries.flatten.length ≤ pieces.flatten.length

private theorem length_le_dedup {entries pieces : List Bytes} (distinct : entries.Nodup) (drawn : entries ⊆ pieces) :
    entries.length ≤ pieces.dedup.length :=
  (List.subperm_of_subset distinct fun _ member => List.mem_dedup.mpr (drawn member)).length_le

theorem dedup_le (pieces : List Bytes) : pieces.dedup.length ≤ pieces.length := (List.dedup_sublist pieces).length_le

theorem Holds.fewer {builder : DictBuilder} {pieces : List Bytes} (holds : Holds builder pieces) :
    builder.entries.length ≤ pieces.dedup.length := length_le_dedup holds.distinct holds.drawn

private theorem Holds.push {builder : DictBuilder} {pieces : List Bytes} (holds : Holds builder pieces) (text : Bytes)
    (few : (pieces ++ [text]).dedup.length < 2^32) : Holds (builder.push text) (pieces ++ [text]) := by
  have value {n : Nat} (le : n + 1 ≤ (pieces ++ [text]).dedup.length) : (UInt32.ofNat (n + 1)).toNat = n + 1 :=
    UInt32.toNat_ofNat_of_lt' (Nat.lt_of_le_of_lt le few)
  have nonzero {n : Nat} (le : n + 1 ≤ (pieces ++ [text]).dedup.length) : UInt32.ofNat (n + 1) ≠ 0 := by
    intro zero
    have same := congrArg UInt32.toNat zero
    rw [value le] at same
    cases same
  have kept : builder.entries ⊆ pieces ++ [text] := fun _ member => List.mem_append_left _ (holds.drawn member)
  unfold DictBuilder.push
  split
  · rename_i index found
    obtain ⟨inside,same,_⟩ := List.idxOf?_eq_some_iff.mp found
    have bounded : index + 1 ≤ (pieces ++ [text]).dedup.length :=
      Nat.le_trans inside (length_le_dedup holds.distinct kept)
    refine ⟨holds.dict,?_,?_,holds.distinct,kept,?_⟩
    · rw [List.map_append,List.map_append,holds.indices,List.map_singleton,List.map_singleton,value bounded,
        Nat.add_sub_cancel,
        List.getElem?_eq_getElem inside,same]
    · intro index member
      rcases List.mem_append.mp member with old | new
      · exact holds.positive index old
      · rw [List.mem_singleton.mp new,value bounded]
        exact ⟨nonzero bounded,inside⟩
    · rw [List.flatten_append,List.length_append]
      exact Nat.le_add_right_of_le holds.less
  · rename_i missing
    have fresh : text ∉ builder.entries := List.idxOf?_eq_none_iff.mp missing
    have distinct : (builder.entries ++ [text]).Nodup :=
      List.nodup_append.mpr ⟨holds.distinct,List.nodup_singleton _,fun entry member other one same =>
        fresh (List.mem_singleton.mp one ▸ same ▸ member)⟩
    have drawn : builder.entries ++ [text] ⊆ pieces ++ [text] :=
      List.append_subset.mpr ⟨kept,List.subset_append_right _ _⟩
    have bounded : builder.entries.length + 1 ≤ (pieces ++ [text]).dedup.length := by
      have fewer := length_le_dedup distinct drawn
      rwa [List.length_append,List.length_singleton] at fewer
    have atEnd : (builder.entries ++ [text])[builder.entries.length]? = some text := by
      rw [List.getElem?_append_right (Nat.le_refl _),Nat.sub_self]
      rfl
    have kept : builder.rowIndices.map (fun index => (builder.entries ++ [text])[index.toNat - 1]?) =
      pieces.map some := by
      rw [← holds.indices]
      refine List.map_congr_left fun index member => ?_
      obtain ⟨some_,inside⟩ := holds.positive index member
      have positive : index.toNat ≠ 0 := fun zero => some_ (UInt32.toNat_inj.mp zero)
      exact List.getElem?_append_left (by omega)
    refine ⟨?_,?_,?_,distinct,drawn,?_⟩
    · rw [List.foldl_append,← holds.dict]
      rfl
    · rw [List.map_append,List.map_append,kept,List.map_singleton,List.map_singleton,value bounded,
        Nat.add_sub_cancel,atEnd]
    · intro index member
      rw [List.length_append,List.length_singleton]
      rcases List.mem_append.mp member with old | new
      · obtain ⟨some_,inside⟩ := holds.positive index old
        exact ⟨some_,by omega⟩
      · rw [List.mem_singleton.mp new,value bounded]
        exact ⟨nonzero bounded,Nat.le_refl _⟩
    · have less := holds.less
      simp only [List.flatten_append,List.length_append]
      omega

private theorem Holds.foldl {builder : DictBuilder} {done : List Bytes} (pieces : List Bytes)
    (few : (done ++ pieces).dedup.length < 2^32)
    (holds : Holds builder done) : Holds (pieces.foldl DictBuilder.push builder) (done ++ pieces) := by
  induction pieces generalizing builder done with
  | nil =>
    rw [List.append_nil]
    exact holds
  | cons text rest ih =>
    have split : done ++ text :: rest = done ++ [text] ++ rest := by rw [List.append_assoc]; rfl
    rw [split] at few ⊢
    have fewer : (done ++ [text]).dedup.length ≤ (done ++ [text] ++ rest).dedup.length :=
      length_le_dedup (List.nodup_dedup _) fun _ member => List.mem_append_left _ (List.mem_dedup.mp member)
    exact ih few (holds.push text (Nat.lt_of_le_of_lt fewer few))

theorem holds_all (pieces : List Bytes) (few : pieces.dedup.length < 2^32) :
    Holds (pieces.foldl DictBuilder.push .empty) pieces := by
  have start : Holds .empty [] := ⟨rfl,rfl,nofun,List.nodup_nil,nofun,Nat.le_refl _⟩
  exact start.foldl pieces (by rw [List.nil_append]; exact few)

/-! From a string column to its dictionary and back. -/

variable {offsets : List UInt64} {data : Bytes}

private theorem texts_some {pieces : List Bytes} (found : texts offsets data = some pieces) :
    pieces = (List.range (offsets.length - 1)).map (slice offsets data) ∧ pieces.flatten.length ≤ data.length := by
  have each := mapM_some found
  have length : pieces.length = offsets.length - 1 := by
    have same := congrArg List.length each
    rw [List.length_map,List.length_map,List.length_range] at same
    exact same.symm
  have piece (row : Nat) (inside : row < pieces.length) : between data (offsets[row]?.getD 0).toNat
    (offsets[row + 1]?.getD 0).toNat = some pieces[row] := by
    have same := congrArg (fun list => list[row]?) each
    simp only [List.getElem?_map,List.getElem?_range (length ▸ inside),Option.map_some,List.getElem?_eq_getElem inside,
      Option.some.injEq] at same
    exact same
  refine ⟨?_,?_⟩
  · apply List.ext_getElem
    · rw [List.length_map,List.length_range,length]
    · intro row inside _
      obtain ⟨_,_,same⟩ := between_some (piece row inside)
      rw [List.getElem_map,List.getElem_range,same]
      rfl
  · -- the lengths of the rows add up to the distance between the first offset and the last
    have total (count : Nat) (inside : count ≤ pieces.length) :
        (pieces.take count).flatten.length + (offsets[0]?.getD 0).toNat = (offsets[count]?.getD 0).toNat := by
      induction count with
      | zero => simp
      | succ count ih =>
        obtain ⟨order,bounded,same⟩ := between_some (piece count inside)
        have before := ih (by omega)
        have size := congrArg List.length same
        rw [List.length_take,List.length_drop] at size
        rw [List.take_succ_eq_append_getElem inside,List.flatten_append,List.flatten_singleton,List.length_append]
        omega
    have all := total pieces.length (Nat.le_refl _)
    rw [List.take_length] at all
    rcases Nat.eq_zero_or_pos pieces.length with none_ | some_
    · rw [List.eq_nil_of_length_eq_zero none_]
      exact Nat.zero_le _
    · obtain ⟨_,bounded,_⟩ := between_some (piece (pieces.length - 1) (by omega))
      rw [Nat.sub_add_cancel some_] at bounded
      omega

private theorem decode_dictionary {pieces : List Bytes} (few : pieces.dedup.length < 2^32)
    (small : pieces.flatten.length < 2^64) :
    decodeStringDict (.stringDict (pieces.foldl DictBuilder.push .empty).rowIndices
      (pieces.foldl DictBuilder.push .empty).dict.offsets
      (pieces.foldl DictBuilder.push .empty).dict.data) = .string (UInt64.ofNat 0 :: endsFrom 0 pieces)
        pieces.flatten := by
  have holds := holds_all pieces few
  generalize pieces.foldl DictBuilder.push .empty = builder at holds ⊢
  have dict := holds.dict
  rw [foldl_push] at dict
  have same : builder.rowIndices.map (dictText builder.dict.offsets builder.dict.data) = pieces := by
    apply List.map_inj_right (fun _ _ => Option.some.inj) |>.mp
    rw [← holds.indices,List.map_map]
    refine List.map_congr_left fun index member => ?_
    obtain ⟨some_,inside⟩ := holds.positive index member
    have positive : index.toNat ≠ 0 := fun zero => some_ (UInt32.toNat_inj.mp zero)
    obtain ⟨place,is⟩ := Nat.exists_eq_succ_of_ne_zero positive
    rw [is] at inside
    obtain ⟨text,there⟩ : ∃ text, builder.entries[place]? = some text := ⟨_,List.getElem?_eq_getElem inside⟩
    obtain ⟨cut,next,bounded⟩ := flatten_at there
    have value {n : Nat} (le : n ≤ builder.entries.flatten.length) : (UInt64.ofNat n).toNat = n :=
      UInt64.toNat_ofNat_of_lt' (Nat.lt_of_le_of_lt (Nat.le_trans le holds.less) small)
    have offsetsAre : builder.dict.offsets = UInt64.ofNat 0 :: endsFrom 0 builder.entries := by rw [dict]; rfl
    have dataIs : builder.dict.data = builder.entries.flatten := by rw [dict]; rfl
    have known : ¬ (index = 0 ∨ builder.dict.offsets.length ≤ index.toNat) := by
      rintro (zero | beyond)
      · exact some_ zero
      · rw [offsetsAre,List.length_cons,length_endsFrom,is] at beyond
        omega
    rw [Function.comp_apply,dictText,if_neg known,offsetsAre,dataIs,is,Nat.succ_sub_one,there,
      endsFrom_at 0 builder.entries (Nat.le_of_lt inside),endsFrom_at 0 builder.entries
        (show place + 1 ≤ builder.entries.length from inside)]
    simp only [Option.getD_some,Nat.zero_add]
    rw [value (show (builder.entries.take place).flatten.length ≤ _ by omega),value bounded,
      if_pos ⟨bounded,by omega⟩,next,
      Nat.add_sub_cancel_left,cut]
  have decoded : builder.rowIndices.foldl (fun texts index =>
    texts.push (dictText builder.dict.offsets builder.dict.data index)) Texts.empty =
      pieces.foldl Texts.push .empty := by
    rw [← same,List.foldl_map]
  rw [decodeStringDict,decoded,foldl_push]
  rfl

theorem toDictEncoded_spec {dict : ColumnData} (sound : (ColumnData.string offsets data).Sound)
    (few : offsets.length - 1 < 2^32)
    (found : toDictEncoded (.string offsets data) = some (some dict)) :
    (ColumnData.new .stringDict).SameVariant dict ∧ dict.Sound ∧ (decodeStringDict dict).rows =
    (ColumnData.string offsets data).rows := by
  obtain ⟨_,smallOffsets,smallData⟩ := sound
  obtain ⟨pieces,read,found⟩ := Option.bind_eq_some_iff.mp found
  cases found
  obtain ⟨cut,less⟩ := texts_some read
  have length : pieces.length = offsets.length - 1 := by rw [cut,List.length_map,List.length_range]
  have distinct : pieces.dedup.length < 2^32 := Nat.lt_of_le_of_lt (dedup_le pieces) (by omega)
  have holds := holds_all pieces distinct
  have indices : (pieces.foldl DictBuilder.push .empty).rowIndices.length = pieces.length := by
    have same := congrArg List.length holds.indices
    rwa [List.length_map,List.length_map] at same
  have fewer := Nat.le_trans holds.fewer (dedup_le pieces)
  have dict := holds.dict
  rw [foldl_push] at dict
  have dictLess := holds.less
  refine ⟨trivial,⟨by omega,?_,?_⟩,?_⟩
  · rw [dict]
    simp only [Texts.empty,List.length_append,List.length_singleton,length_endsFrom]
    omega
  · rw [dict]
    simp only [Texts.empty,List.nil_append]
    omega
  · rw [decode_dictionary distinct (by omega),rows_texts (by omega),cut,List.map_map]
    rfl

theorem dictEncodeIfSmaller_spec {column : ColumnData} {found : Option ColumnData}
    (encoded : column.dictEncodeIfSmaller = some found) {dict : ColumnData} (chosen : found = some dict) :
    ∃ offsets data, column = .string offsets data ∧ column.toDictEncoded = some (some dict) := by
  subst chosen
  cases column with
  | string offsets data =>
    refine ⟨offsets,data,rfl,?_⟩
    simp only [dictEncodeIfSmaller] at encoded
    split at encoded
    · cases encoded
    · obtain ⟨maybe,read,encoded⟩ := Option.bind_eq_some_iff.mp encoded
      have kept := Option.eq_some_of_filter_eq_some (Option.some.inj encoded)
      rw [read,kept]
  | _ => cases encoded

end Dictionaries

end ApexBase.Column
