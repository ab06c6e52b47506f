import ApexBase.Column.SliceRows
import ApexBase.Library.ByteOrder
import ApexBase.Library.Greatest
import ApexBase.Library.Scan
import ApexBase.Storage.Footer

/-! Zone maps (`storage/on_demand/read_write.rs`): the ranges of the values that a row group holds
in a column. A scan leaves the group out if a range shows that no value can match. -/
namespace ApexBase.Storage.ZoneMaps
open Library.Wire Library.Scan
open Column (between)
open Column.ColumnData (slice)
open Footer (RgColumnZoneMap)

def stringByteKey (value : Bytes) (offset : Nat) :
    Int64 := signedKey (UInt64.ofNat (ofBe (padded 8 (value.drop offset))))

def stringPrefixKey (value : Bytes) : Int64 := stringByteKey value 0

def stringTailKey (value : Bytes) : Int64 := stringByteKey value 8

/-- `value.len() as i64` -/
def lengthKey (value : Bytes) : Int64 := Int64.ofNat value.length

def zoneMapParMinValues : Nat := 16384

def zoneMapParParts : Nat := 4

structure StringRange where
  min : Int64
  max : Int64
  values : Nat

namespace StringRange

def empty : StringRange := ⟨Int64.maxValue,Int64.minValue,0⟩

def add (key : Bytes → Int64) (range : StringRange) (value : Bytes) : StringRange :=
  ⟨Min.min range.min (key value),Max.max range.max (key value),range.values + 1⟩

def merge (range other : StringRange) : StringRange :=
  ⟨Min.min range.min other.min,Max.max range.max other.max,range.values + other.values⟩

end StringRange

def zoneScanRanges (lo hi : Nat) : List (Nat × Nat) :=
  let count := hi - lo
  if count < zoneMapParMinValues then [(lo,hi)]
  else parts lo hi ((count + zoneMapParParts - 1) / zoneMapParParts)

/-- `&data[offsets[i]..offsets[i + 1]]`, `none` for a panic. -/
def valueAt (offsets : List UInt64) (data : Bytes) (i : Nat) : Option Bytes := do
  let start ← offsets[i]?
  let stop ← offsets[i + 1]?
  between data start.toNat stop.toNat

/-- The values of a chunk, in one scan or in parts that are merged. -/
def zoneScan {R : Type} (add : R → Bytes → R) (merge : R → R → R) (empty : R) (offsets : List UInt64) (data : Bytes)
    (lo hi : Nat) : Option R :=
  match zoneScanRanges lo hi with
  | [(start,stop)] => scan (valueAt offsets data) add empty start stop
  | ranges => (ranges.mapM fun bounds => scan (valueAt offsets data) add empty bounds.1 bounds.2).map fun found =>
    found.foldl merge empty

def stringZoneData : List UInt64 → Bytes → Nat → Nat → Option (StringRange × StringRange) :=
  zoneScan (fun ranges value => (ranges.1.add lengthKey value,ranges.2.add stringPrefixKey value))
    (fun ranges other => (ranges.1.merge other.1,ranges.2.merge other.2)) (.empty,.empty)

def stringTailData : List UInt64 → Bytes → Nat → Nat → Option StringRange := zoneScan (.add stringTailKey) .merge .empty

/-- An entry of a column, with the meaning of its range in the last three fields. -/
def zoneEntry (colIdx : Nat) (hasNulls : Bool) (min max : Int64) (isFloat isStringPrefix isStringTail : Bool) :
    RgColumnZoneMap :=
  ⟨UInt16.ofNat colIdx,min,max,hasNulls,isFloat,isStringPrefix,isStringTail⟩

/-- The tails are of use only where all values have the same first eight bytes. -/
def pushStringZoneEntries (colIdx : Nat) (hasNulls : Bool) (offsets : List UInt64) (data : Bytes) (lo hi : Nat) :
    Option (List RgColumnZoneMap) := do
  let (lengths,keys) ← stringZoneData offsets data lo hi
  if lengths.values = 0 then return []
  else
    let entries := [zoneEntry colIdx hasNulls lengths.min lengths.max false false false,
      zoneEntry colIdx hasNulls keys.min keys.max false true false]
    if keys.min = keys.max then
      let tails ← stringTailData offsets data lo hi
      return if tails.min ≠ tails.max then entries ++ [zoneEntry colIdx hasNulls tails.min tails.max false false true]
        else entries
    else return entries

def nullBitmapAnySet (nulls : List Bytes) (colIdx start stop : Nat) : Bool :=
  match nulls[colIdx]? with
  | none => false
  | some bitmap => (List.range' start (stop - start)).any fun row => getBit bitmap row

def sliceOrEmpty {α : Type} (data : List α) (start stop : Nat) : List α :=
  let lo := min start data.length
  let hi := min stop data.length
  if hi > lo then (data.drop lo).take (hi - lo) else []

def bit (value : Bool) : Int64 := if value then 1 else 0

/-- The bits in a range of rows, `none` inside for no rows and outside for a panic. -/
def boolBitRange (data : Bytes) (len start stop : Nat) : Option (Option (Int64 × Int64)) :=
  let lo := min start len
  let hi := min stop len
  if hi ≤ lo then some none
  else
    let get (i : Nat) : Option Int64 := data[i / 8]?.map fun byte => bit (byte.toNat.testBit (i % 8))
    (scan get (fun range bit => (if bit < range.1 then bit else range.1,if bit > range.2 then bit else range.2)) (1,
      0) lo hi).map some

def columnZoneMaps (column : Column.ColumnData) (nulls : Option (List Bytes)) (colIdx start stop : Nat) :
    Option (List RgColumnZoneMap) :=
  let hasNulls := (nulls.map fun nulls => nullBitmapAnySet nulls colIdx start stop).getD false
  match column with
  | .int64 data =>
    let values := sliceOrEmpty data start stop
    if values.isEmpty then some []
    else
      let range := values.foldl (fun range v => (min range.1 v,max range.2 v)) (Int64.maxValue,Int64.minValue)
      some [zoneEntry colIdx hasNulls range.1 range.2 false false false]
  | .float64 data =>
    let values := sliceOrEmpty data start stop
    if values.isEmpty then some []
    else
      let infinity := Float.ofBits 0x7FF0000000000000
      let range := values.foldl (fun range bits =>
        (if Float.ofBits bits < range.1 then Float.ofBits bits else range.1,if Float.ofBits bits > range.2 then
          Float.ofBits bits else range.2))
        (infinity,-infinity)
      some [zoneEntry colIdx hasNulls range.1.toBits.toInt64 range.2.toBits.toInt64 true false false]
  | .string offsets data =>
    let lo := min start (offsets.length - 1)
    let hi := min stop (offsets.length - 1)
    if hi > lo then pushStringZoneEntries colIdx hasNulls offsets data lo hi else some []
  | .stringDict _ dictOffsets dictData =>
    -- The whole dictionary belongs to the row group.
    let hi := dictOffsets.length - 1
    if hi > 0 then pushStringZoneEntries colIdx hasNulls dictOffsets dictData 0 hi else some []
  | .bool data len =>
    (boolBitRange data len start stop).map fun found =>
      match found with
      | some (mn,mx) => [zoneEntry colIdx hasNulls mn mx false false false]
      | none => []
  | _ => some []

def entryKey (zone : RgColumnZoneMap) (value : Bytes) : Int64 :=
  if zone.isStringPrefix then stringPrefixKey value else if zone.isStringTail then stringTailKey value
  else lengthKey value

def Within (zone : RgColumnZoneMap) (key : Int64) : Prop := zone.minBits ≤ key ∧ key ≤ zone.maxBits

/-- Every entry has the value in its range, and a string has an entry for its length and one for its first bytes. -/
def Covered (zones : List RgColumnZoneMap) : Column.ColumnData.Cell → Prop
  | .bytes value => (∀ zone ∈ zones, Within zone (entryKey zone value)) ∧ (∃ zone ∈ zones, zone.isStringPrefix = true) ∧
      ∃ zone ∈ zones, zone.isStringPrefix = false ∧ zone.isStringTail = false
  | .int64 value => zones ≠ [] ∧ ∀ zone ∈ zones, Within zone value
  | .bool value => zones ≠ [] ∧ ∀ zone ∈ zones, Within zone (bit value)
  | _ => True

def Zoned : Column.ColumnData → Bool
  | .string _ _ | .stringDict _ _ _ | .int64 _ | .bool _ _ => true
  | _ => false

def Spans (key : Bytes → Int64) (range : StringRange) (value : Bytes) : Prop :=
  0 < range.values ∧ range.min ≤ key value ∧ key value ≤ range.max

theorem gathers_add (key : Bytes → Int64) : Gathers (StringRange.add key) (Spans key) where
  own _ _ := ⟨Nat.succ_pos _,Std.min_le_right,Std.right_le_max⟩
  kept _ _ _ spans := ⟨Nat.succ_pos _,Std.le_trans Std.min_le_left spans.2.1,Std.le_trans spans.2.2 Std.left_le_max⟩

theorem merges_merge (key : Bytes → Int64) : Merges StringRange.merge (Spans key) where
  left _ _ _ spans := ⟨Nat.add_pos_left spans.1 _,Std.le_trans Std.min_le_left spans.2.1,
    Std.le_trans spans.2.2 Std.left_le_max⟩
  right _ _ _ spans := ⟨Nat.add_pos_right _ spans.1,Std.le_trans Std.min_le_right spans.2.1,
    Std.le_trans spans.2.2 Std.right_le_max⟩

section Scans
variable {R : Type} {add : R → Bytes → R} {merge : R → R → R} {empty : R} {Covers : R → Bytes → Prop}
    {offsets : List UInt64} {data : Bytes} {lo hi : Nat}

theorem mem_zoneScanRanges {place : Nat} (after : lo ≤ place) (before : place < hi) :
    ∃ bounds ∈ zoneScanRanges lo hi, bounds.1 ≤ place ∧ place < bounds.2 := by
  unfold zoneScanRanges
  dsimp only
  split
  · exact ⟨(lo,hi),List.mem_singleton_self _,after,before⟩
  · rename_i large
    refine mem_parts ?_ after before
    unfold zoneMapParMinValues at large
    unfold zoneMapParParts
    omega

theorem zoneScanRanges_inside {bounds : Nat × Nat} (member : bounds ∈ zoneScanRanges lo hi) :
    lo ≤ bounds.1 ∧ bounds.2 ≤ hi := by
  unfold zoneScanRanges at member
  dsimp only at member
  split at member
  · rw [List.mem_singleton.mp member]
    exact ⟨Nat.le_refl _,Nat.le_refl _⟩
  · exact parts_inside member

theorem zoneScan_covers (gathers : Gathers add Covers) (merges : Merges merge Covers) {gathered : R}
    (found : zoneScan add merge empty offsets data lo hi = some gathered) {place : Nat} (after : lo ≤ place)
    (before : place < hi) :
    ∃ value, valueAt offsets data place = some value ∧ Covers gathered value := by
  obtain ⟨bounds,member,low,high⟩ := mem_zoneScanRanges after before
  unfold zoneScan at found
  split at found
  · rename_i start stop single
    rw [single,List.mem_singleton] at member
    subst member
    exact scan_covers gathers found low high
  · obtain ⟨each,scanned,rfl⟩ := Option.map_eq_some_iff.mp found
    have same := Library.mapM_some scanned
    have here : scan (valueAt offsets data) add empty bounds.1 bounds.2 ∈ each.map some := by
      rw [← same]
      exact List.mem_map_of_mem (f := fun bounds => scan (valueAt offsets data) add empty bounds.1 bounds.2) member
    obtain ⟨one,gathered,part⟩ := List.mem_map.mp here
    obtain ⟨value,present,covered⟩ := scan_covers gathers part.symm low high
    exact ⟨value,present,foldl_merge_covers merges gathered covered⟩

theorem zoneScan_isSome (all : ∀ place, lo ≤ place → place < hi → (valueAt offsets data place).isSome) :
    (zoneScan add merge empty offsets data lo hi).isSome := by
  have each : ∀ bounds ∈ zoneScanRanges lo hi, (scan (valueAt offsets data) add empty bounds.1 bounds.2).isSome := by
    intro bounds member
    obtain ⟨low,high⟩ := zoneScanRanges_inside member
    exact scan_isSome fun place after before => all place (by omega) (by omega)
  unfold zoneScan
  split
  · rename_i start stop single
    exact each _ (by rw [single]; exact List.mem_singleton_self _)
  · rw [Option.isSome_map]
    exact Option.isSome_iff_exists.mpr (Library.mapM_isSome.mpr fun bounds member =>
      Option.isSome_iff_exists.mp (each bounds member))

end Scans

theorem stringZoneData_covers {offsets : List UInt64} {data : Bytes} {lo hi : Nat} {lengths keys : StringRange}
    (found : stringZoneData offsets data lo hi = some (lengths,keys)) {place : Nat} (after : lo ≤ place)
    (before : place < hi) :
    ∃ value, valueAt offsets data place = some value ∧ Spans lengthKey lengths value ∧
    Spans stringPrefixKey keys value := by
  have gathers : Gathers (fun (ranges : StringRange × StringRange) value =>
    (ranges.1.add lengthKey value,ranges.2.add stringPrefixKey value))
      fun ranges value => Spans lengthKey ranges.1 value ∧ Spans stringPrefixKey ranges.2 value :=
    ⟨fun ranges value => ⟨(gathers_add lengthKey).own ranges.1 value,(gathers_add stringPrefixKey).own ranges.2 value⟩,
      fun ranges value other spans => ⟨(gathers_add lengthKey).kept ranges.1 value other spans.1,
        (gathers_add stringPrefixKey).kept ranges.2 value other spans.2⟩⟩
  have merges : Merges (fun (ranges other : StringRange × StringRange) =>
    (ranges.1.merge other.1,ranges.2.merge other.2))
      fun ranges value => Spans lengthKey ranges.1 value ∧ Spans stringPrefixKey ranges.2 value :=
    ⟨fun one other value spans => ⟨(merges_merge lengthKey).left one.1 other.1 value spans.1,
        (merges_merge stringPrefixKey).left one.2 other.2 value spans.2⟩,
      fun one other value spans => ⟨(merges_merge lengthKey).right one.1 other.1 value spans.1,
        (merges_merge stringPrefixKey).right one.2 other.2 value spans.2⟩⟩
  exact zoneScan_covers gathers merges found after before

section
variable {colIdx : Nat} {hasNulls : Bool} {offsets : List UInt64} {data : Bytes} {lo hi : Nat}

theorem pushStringZoneEntries_covers {zones : List RgColumnZoneMap}
    (found : pushStringZoneEntries colIdx hasNulls offsets data lo hi = some zones) {place : Nat} (after : lo ≤ place)
    (before : place < hi) :
    ∃ value, valueAt offsets data place = some value ∧ Covered zones (.bytes value) := by
  unfold pushStringZoneEntries at found
  obtain ⟨⟨lengths,keys⟩,scanned,found⟩ := Option.bind_eq_some_iff.mp found
  obtain ⟨value,present,inLengths,inKeys⟩ := stringZoneData_covers scanned after before
  refine ⟨value,present,?_⟩
  have some_ : lengths.values ≠ 0 := Nat.ne_of_gt inLengths.1
  dsimp only at found
  rw [if_neg some_] at found
  have two : Covered [zoneEntry colIdx hasNulls lengths.min lengths.max false false false,
    zoneEntry colIdx hasNulls keys.min keys.max false true false]
      (.bytes value) := by
    refine ⟨fun zone member => ?_,⟨_,List.mem_cons_of_mem _ (List.mem_singleton_self _),rfl⟩,
      ⟨_,List.mem_cons_self,rfl,rfl⟩⟩
    rcases List.mem_cons.mp member with rfl | member
    · exact inLengths.2
    · rw [List.mem_singleton.mp member]
      exact inKeys.2
  split at found
  · obtain ⟨tails,scannedTails,found⟩ := Option.bind_eq_some_iff.mp found
    obtain ⟨other,also,inTails⟩ := zoneScan_covers (gathers_add stringTailKey) (merges_merge stringTailKey) scannedTails
      after before
    obtain rfl : value = other := Option.some.inj (present.symm.trans also)
    obtain rfl := Option.some.inj found
    split
    · obtain ⟨each,⟨keyed,inside,isKey⟩,⟨sized,within,isLength⟩⟩ := two
      refine ⟨fun zone member => ?_,⟨keyed,List.mem_append_left _ inside,isKey⟩,
        ⟨sized,List.mem_append_left _ within,isLength⟩⟩
      rcases List.mem_append.mp member with early | last
      · exact each zone early
      · rw [List.mem_singleton.mp last]
        exact inTails.2
    · exact two
  · obtain rfl := Option.some.inj found
    exact two

theorem pushStringZoneEntries_isSome (all : ∀ place, lo ≤ place → place < hi → (valueAt offsets data place).isSome) :
    (pushStringZoneEntries colIdx hasNulls offsets data lo hi).isSome := by
  have ranges : (stringZoneData offsets data lo hi).isSome := zoneScan_isSome all
  have tails : (stringTailData offsets data lo hi).isSome := zoneScan_isSome all
  obtain ⟨⟨lengths,keys⟩,scanned⟩ := Option.isSome_iff_exists.mp ranges
  obtain ⟨range,scannedTails⟩ := Option.isSome_iff_exists.mp tails
  unfold pushStringZoneEntries
  rw [scanned,scannedTails]
  dsimp only [Option.bind_eq_bind,Option.bind_some,pure]
  split
  · rfl
  · split
    · rfl
    · rfl

end

theorem valueAt_eq {offsets : List UInt64} {data value : Bytes} {place : Nat}
    (found : valueAt offsets data place = some value) :
    value = slice offsets data place := by
  obtain ⟨start,first,found⟩ := Option.bind_eq_some_iff.mp found
  obtain ⟨stop,second,found⟩ := Option.bind_eq_some_iff.mp found
  obtain ⟨_,_,same⟩ := Column.between_some found
  rw [same,slice,first,second]
  rfl

theorem valueAt_isSome {offsets : List UInt64} {data : Bytes} {place : Nat}
    (inOrder : offsets.Pairwise fun a b => a.toNat ≤ b.toNat) (inside : ∀ offset ∈ offsets, offset.toNat ≤ data.length)
    (before : place < offsets.length - 1) :
    (valueAt offsets data place).isSome := by
  have early : place < offsets.length := by omega
  have late : place + 1 < offsets.length := by omega
  have first := List.getElem?_eq_getElem early
  have second := List.getElem?_eq_getElem late
  have order := Column.offset_le inOrder (Nat.le_succ place) first second
  unfold valueAt
  rw [first,second]
  dsimp only [Option.bind_eq_bind,Option.bind_some]
  rw [between,if_pos ⟨order,inside _ (List.getElem_mem late)⟩]
  rfl

theorem foldl_range (values : List Int64) (range : Int64 × Int64) :
    (values.foldl (fun range v => (min range.1 v,max range.2 v)) range).1 ≤ range.1 ∧
    range.2 ≤ (values.foldl (fun range v => (min range.1 v,max range.2 v)) range).2 ∧
    ∀ v ∈ values, (values.foldl (fun range v => (min range.1 v,max range.2 v)) range).1 ≤ v ∧
      v ≤ (values.foldl (fun range v => (min range.1 v,max range.2 v)) range).2 := by
  induction values generalizing range with
  | nil => exact ⟨Std.le_refl _,Std.le_refl _,nofun⟩
  | cons value rest ih =>
    rw [List.foldl_cons]
    obtain ⟨low,high,each⟩ := ih (min range.1 value,max range.2 value)
    refine ⟨Std.le_trans low Std.min_le_left,Std.le_trans Std.left_le_max high,fun v member => ?_⟩
    rcases List.mem_cons.mp member with rfl | later
    · exact ⟨Std.le_trans low Std.min_le_right,Std.le_trans Std.right_le_max high⟩
    · exact each v later

theorem mem_sliceOrEmpty {α : Type} {data : List α} {value : α} {row start stop : Nat} (here : data[row]? = some value)
    (after : start ≤ row)
    (before : row < stop) : value ∈ sliceOrEmpty data start stop := by
  obtain ⟨inside,_⟩ := List.getElem?_eq_some_iff.mp here
  unfold sliceOrEmpty
  dsimp only
  rw [if_pos (by omega)]
  refine List.mem_of_getElem? (i := row - min start data.length) ?_
  rw [List.getElem?_take,if_pos (by omega),List.getElem?_drop,← here]
  exact congrArg (data[·]?) (by omega)

theorem gathers_bits :
    Gathers (fun (range : Int64 × Int64) bit =>
      (if bit < range.1 then bit else range.1,if bit > range.2 then bit else range.2))
    fun range bit => range.1 ≤ bit ∧ bit ≤ range.2 where
  own range bit := by
    dsimp only
    constructor
    · split
      · exact Std.le_refl _
      · rename_i above
        exact Int64.not_lt.mp above
    · split
      · exact Std.le_refl _
      · rename_i below
        exact Int64.not_lt.mp below
  kept range bit other spans := by
    dsimp only
    constructor
    · split
      · rename_i less
        exact Std.le_trans (Int64.le_of_lt less) spans.1
      · exact spans.1
    · split
      · rename_i greater
        exact Std.le_trans spans.2 (Int64.le_of_lt greater)
      · exact spans.2

section Columns
variable {nulls : Option (List Bytes)} {colIdx start stop row : Nat} {zones : List RgColumnZoneMap}

private theorem int64_covered {values : List Int64} {value : Int64}
    (found : columnZoneMaps (.int64 values) nulls colIdx start stop = some zones) (here : values[row]? = some value)
    (after : start ≤ row) (before : row < stop) : Covered zones (.int64 value) := by
  have member := mem_sliceOrEmpty here after before
  have some_ : (sliceOrEmpty values start stop).isEmpty = false :=
    List.isEmpty_eq_false_iff.mpr (List.ne_nil_of_mem member)
  unfold columnZoneMaps at found
  dsimp only at found
  rw [some_,if_neg (by decide)] at found
  obtain rfl := Option.some.inj found
  refine ⟨List.cons_ne_nil _ _,fun zone only => ?_⟩
  rw [List.mem_singleton.mp only]
  exact (foldl_range _ _).2.2 value member

private theorem bool_covered {data : Bytes} {len : Nat}
    (found : columnZoneMaps (.bool data len) nulls colIdx start stop = some zones) (inside : row < len)
    (after : start ≤ row) (before : row < stop) : Covered zones (.bool (getBit data row)) := by
  obtain ⟨range,bits,rfl⟩ := Option.map_eq_some_iff.mp found
  unfold boolBitRange at bits
  dsimp only at bits
  rw [if_neg (by omega)] at bits
  obtain ⟨range,scanned,rfl⟩ := Option.map_eq_some_iff.mp bits
  obtain ⟨value,present,spans⟩ := @scan_covers _ _ _ _ _ _ _ _ _ gathers_bits scanned row (by omega) (by omega)
  obtain ⟨byte,here,rfl⟩ := Option.map_eq_some_iff.mp present
  have same : getBit data row = byte.toNat.testBit (row % 8) := by rw [getBit,here,Option.getD_some]
  refine ⟨List.cons_ne_nil _ _,fun zone only => ?_⟩
  rw [List.mem_singleton.mp only,same]
  exact spans

private theorem string_covered {offsets : List UInt64} {data : Bytes}
    (found : columnZoneMaps (.string offsets data) nulls colIdx start stop = some zones)
    (inside : row < offsets.length - 1) (after : start ≤ row) (before : row < stop) :
    Covered zones (.bytes (slice offsets data row)) := by
  unfold columnZoneMaps at found
  dsimp only at found
  rw [if_pos (by omega)] at found
  obtain ⟨value,present,covered⟩ := @pushStringZoneEntries_covers _ _ _ _ _ _ _ found row (by omega) (by omega)
  rwa [valueAt_eq present] at covered

private theorem stringDict_covered {indices : List UInt32} {dictOffsets : List UInt64} {dictData : Bytes}
    {index : UInt32}
    (found : columnZoneMaps (.stringDict indices dictOffsets dictData) nulls colIdx start stop = some zones)
    (some_ : index ≠ 0) (known : index.toNat < dictOffsets.length) :
    Covered zones (.bytes (slice dictOffsets dictData (index.toNat - 1))) := by
  have positive : 0 < index.toNat := Nat.pos_of_ne_zero fun zero => some_ (UInt32.toNat_inj.mp zero)
  unfold columnZoneMaps at found
  dsimp only at found
  rw [if_pos (by omega)] at found
  obtain ⟨value,present,covered⟩ := @pushStringZoneEntries_covers _ _ _ _ _ _ _ found (index.toNat - 1) (Nat.zero_le _)
    (by omega)
  rwa [valueAt_eq present] at covered

theorem columnZoneMaps_covers {column : Column.ColumnData} (zoned : Zoned column = true)
    (found : columnZoneMaps column nulls colIdx start stop = some zones) {cell : Column.ColumnData.Cell}
    (here : column.rows[row]? = some cell) (after : start ≤ row) (before : row < stop) :
    Covered zones cell := by
  cases column with
  | int64 values =>
    rw [Column.ColumnData.rows,List.getElem?_map] at here
    obtain ⟨value,at_,rfl⟩ := Option.map_eq_some_iff.mp here
    exact int64_covered found at_ after before
  | bool data len =>
    rw [Column.ColumnData.rows,List.getElem?_map] at here
    obtain ⟨place,at_,rfl⟩ := Option.map_eq_some_iff.mp here
    obtain ⟨inside,same⟩ := List.getElem?_eq_some_iff.mp at_
    rw [List.getElem_range] at same
    rw [List.length_range,same] at inside
    subst same
    exact bool_covered found inside after before
  | string offsets data =>
    rw [Column.ColumnData.rows,List.getElem?_map] at here
    obtain ⟨place,at_,rfl⟩ := Option.map_eq_some_iff.mp here
    obtain ⟨inside,same⟩ := List.getElem?_eq_some_iff.mp at_
    rw [List.getElem_range] at same
    rw [List.length_range,same] at inside
    subst same
    exact string_covered found inside after before
  | stringDict indices dictOffsets dictData =>
    rw [Column.ColumnData.rows,List.getElem?_map] at here
    obtain ⟨index,_,rfl⟩ := Option.map_eq_some_iff.mp here
    split
    · trivial
    · rename_i entry
      obtain ⟨some_,known⟩ := not_or.mp entry
      exact stringDict_covered found some_ (Nat.not_le.mp known)
  | _ => cases zoned

/-- The bits of a Bool column reach to its last row. -/
def Backed : Column.ColumnData → Prop
  | .bool data len => len ≤ 8 * data.length
  | _ => True

theorem columnZoneMaps_isSome {column : Column.ColumnData} (sound : column.Sound) (inOrder : column.Ordered)
    (backed : Backed column) :
    (columnZoneMaps column nulls colIdx start stop).isSome := by
  cases column with
  | int64 values =>
    unfold columnZoneMaps
    dsimp only
    split <;> rfl
  | float64 values =>
    unfold columnZoneMaps
    dsimp only
    split <;> rfl
  | bool data len =>
    have bits : (boolBitRange data len start stop).isSome := by
      unfold boolBitRange
      dsimp only
      split
      · rfl
      · rw [Option.isSome_map]
        refine scan_isSome fun place after before => ?_
        have covered : len ≤ 8 * data.length := backed
        rw [Option.isSome_map,List.getElem?_eq_getElem (by omega)]
        rfl
    unfold columnZoneMaps
    dsimp only
    rw [Option.isSome_map]
    exact bits
  | string offsets data =>
    unfold columnZoneMaps
    dsimp only
    split
    · exact pushStringZoneEntries_isSome fun place after before => valueAt_isSome inOrder.1 inOrder.2 (by omega)
    · rfl
  | stringDict indices dictOffsets dictData =>
    unfold columnZoneMaps
    dsimp only
    split
    · exact pushStringZoneEntries_isSome fun place after before => valueAt_isSome inOrder.1 inOrder.2 before
    · rfl
  | _ => rfl

end Columns

private theorem key_le {a b : Bytes} (order : a ≤ b) :
    signedKey (UInt64.ofNat (ofBe (padded 8 a))) ≤ signedKey (UInt64.ofNat (ofBe (padded 8 b))) := by
  have small (bytes : Bytes) : ofBe (padded 8 bytes) < 2^64 := by
    have bound := ofBe_lt (padded 8 bytes)
    rwa [length_padded] at bound
  rw [signedKey_le,UInt64.le_iff_toNat_le,UInt64.toNat_ofNat_of_lt' (small a),UInt64.toNat_ofNat_of_lt' (small b)]
  exact ofBe_padded_le 8 order

/-- Keys keep the order of the strings, and whatever a row holds is in the ranges of the entries of its column. -/
theorem zone_keys_complete :
    (∀ a b : Bytes, a ≤ b → stringPrefixKey a ≤ stringPrefixKey b) ∧
    (∀ a b : Bytes, a.take 8 = b.take 8 → a ≤ b → stringTailKey a ≤ stringTailKey b) ∧
    ∀ (column : Column.ColumnData) (nulls : Option (List Bytes)) (colIdx start stop : Nat), Zoned column = true →
      (column.Sound → column.Ordered → Backed column → (columnZoneMaps column nulls colIdx start stop).isSome) ∧
      ∀ zones, columnZoneMaps column nulls colIdx start stop = some zones →
      ∀ (row : Nat) (cell : Column.ColumnData.Cell), start ≤ row → row < stop →
        column.rows[row]? = some cell → Covered zones cell := by
  refine ⟨fun a b order => key_le order,fun a b shared order => key_le (drop_le_drop shared order),?_⟩
  intro column nulls colIdx start stop zoned
  exact ⟨columnZoneMaps_isSome,fun zones found row cell after before here =>
    columnZoneMaps_covers zoned found here after before⟩

/-- Two rows with the same eight bytes in front, and a row group that holds both. -/
theorem zone_keys_complete_of_two_rows :
    stringPrefixKey [97,97,97,97,97,97,97,97,49] ≤ stringPrefixKey [97,97,97,97,97,97,97,97,50] ∧
    stringTailKey [97,97,97,97,97,97,97,97,49] ≤ stringTailKey [97,97,97,97,97,97,97,97,50] ∧
    ∃ zones, columnZoneMaps (.string [0,9,18] [97,97,97,97,97,97,97,97,49,97,97,97,97,97,97,97,97,50]) none 0 0 2 =
    some zones ∧
      Covered zones (.bytes [97,97,97,97,97,97,97,97,50]) := by
  obtain ⟨prefixes,tails,columns⟩ := zone_keys_complete
  refine ⟨prefixes _ _ (by decide),tails _ _ (by decide) (by decide),?_⟩
  obtain ⟨total,covers⟩ := columns (.string [0,9,18] [97,97,97,97,97,97,97,97,49,97,97,97,97,97,97,97,97,50])
    none 0 0 2 rfl
  obtain ⟨zones,found⟩ :=
    Option.isSome_iff_exists.mp (total ⟨by decide, by decide, by decide⟩ ⟨by decide, by simp⟩ trivial)
  exact ⟨zones,found,covers zones found 1 _ (by decide) (by decide) (by decide)⟩

end ApexBase.Storage.ZoneMaps
