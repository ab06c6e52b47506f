import ApexBase.Library.Wire
import Mathlib.Data.Nat.Bitwise
import Mathlib.Tactic.IntervalCases

/-! The bits of a byte string, counted from the least significant bit of the first byte, and fields
of a fixed number of bits packed one after another. -/
namespace ApexBase.Library.Wire

def getBit (bytes : Bytes) (index : Nat) : Bool := (bytes[index / 8]?.getD 0).toNat.testBit (index % 8)

def setBit (bytes : Bytes) (index : Nat) : Bytes :=
  bytes.modify (index / 8) (fun byte => byte ||| 1 <<< UInt8.ofNat (index % 8))

@[simp] theorem length_setBit (bytes : Bytes) (index : Nat) : (setBit bytes index).length = bytes.length := by
  simp [setBit]

theorem testBit_ofLe (bytes : Bytes) (index : Nat) : (ofLe bytes).testBit index = getBit bytes index := by
  induction bytes generalizing index with
  | nil => simp [ofLe,getBit]
  | cons byte rest ih =>
    have small : byte.toNat < 2^8 := byte.toNat_lt
    have shape : ofLe (byte :: rest) = 2^8 * ofLe rest + byte.toNat := by rw [ofLe]; omega
    rw [shape,Nat.testBit_two_pow_mul_add _ small]
    by_cases low : index < 8
    · simp [low,getBit,Nat.div_eq_of_lt low,Nat.mod_eq_of_lt low]
    · obtain ⟨atop,rfl⟩ := Nat.exists_eq_add_of_le (Nat.not_lt.mp low)
      have step : (8 + atop) / 8 = atop / 8 + 1 := by omega
      simp [ih,getBit,step]

/-- The number in `width` bits from bit `start` on. -/
def window (bytes : Bytes) (start width : Nat) : Nat := (ofLe bytes >>> start) % 2^width

theorem testBit_window (bytes : Bytes) (start width index : Nat) :
    (window bytes start width).testBit index = (decide (index < width) && getBit bytes (start + index)) := by
  rw [window,Nat.testBit_mod_two_pow,Nat.testBit_shiftRight,testBit_ofLe]

theorem window_lt (bytes : Bytes) (start width : Nat) : window bytes start width < 2^width :=
  Nat.mod_lt _ (Nat.two_pow_pos width)

private theorem testBit_or_shift (byte : UInt8) (position index : Nat) (low : position < 8) :
    (byte ||| 1 <<< UInt8.ofNat position).toNat.testBit index = (byte.toNat.testBit index ||
      decide (index = position)) := by
  have mask : (1 <<< UInt8.ofNat position : UInt8).toNat = 2^position := by
    interval_cases position <;> rfl
  rw [UInt8.toNat_or,mask,Nat.testBit_or,Nat.testBit_two_pow]
  simp [eq_comm]

theorem getBit_setBit (bytes : Bytes) (position index : Nat) (inside : position / 8 < bytes.length) :
    getBit (setBit bytes position) index = (getBit bytes index || decide (index = position)) := by
  unfold getBit setBit
  rw [List.getElem?_modify]
  by_cases byte : position / 8 = index / 8
  · have present : index / 8 < bytes.length := byte ▸ inside
    have bound : position % 8 < 8 := Nat.mod_lt _ (by decide)
    have same : (index % 8 = position % 8) ↔ index = position := by omega
    simp only [List.getElem?_eq_getElem present,Option.map_eq_map,Option.map_some,Option.getD_some,if_pos byte]
    rw [testBit_or_shift _ _ _ bound,decide_eq_decide.mpr same]
  · have different : index ≠ position := fun same => byte (by rw [same])
    simp [byte,different]

def clearBit (bytes : Bytes) (index : Nat) : Bytes :=
  bytes.modify (index / 8) (fun byte => byte &&& ~~~(1 <<< UInt8.ofNat (index % 8)))

private theorem testBit_and_not_shift (byte : UInt8) (position index : Nat) (low : position < 8) (bit : index < 8) :
    (byte &&& ~~~(1 <<< UInt8.ofNat position)).toNat.testBit index =
    (byte.toNat.testBit index && !decide (index = position)) := by
  have mask : ∀ index < 8, (~~~(1 <<< UInt8.ofNat position) : UInt8).toNat.testBit index =
    !decide (index = position) := by
    interval_cases position <;> decide
  rw [UInt8.toNat_and,Nat.testBit_and,mask index bit]

theorem getBit_clearBit (bytes : Bytes) (position index : Nat) :
    getBit (clearBit bytes position) index = (getBit bytes index && !decide (index = position)) := by
  unfold getBit clearBit
  rw [List.getElem?_modify]
  by_cases byte : position / 8 = index / 8
  · cases present : bytes[index / 8]? with
    | none => simp
    | some value =>
      have bound : position % 8 < 8 := Nat.mod_lt _ (by decide)
      have same : (index % 8 = position % 8) ↔ index = position := by omega
      simp only [Option.map_eq_map,Option.map_some,Option.getD_some,if_pos byte]
      rw [testBit_and_not_shift _ _ _ bound (Nat.mod_lt _ (by decide)),decide_eq_decide.mpr same]
  · have different : index ≠ position := fun same => byte (by rw [same])
    simp [byte,different]

def growTo (bytes : Bytes) (index : Nat) : Bytes := bytes ++ List.replicate (index / 8 + 1 - bytes.length) 0

theorem growTo_inside (bytes : Bytes) (index : Nat) : index / 8 < (growTo bytes index).length := by
  simp only [growTo,List.length_append,List.length_replicate]
  omega

@[simp] theorem getBit_growTo (bytes : Bytes) (position index : Nat) :
    getBit (growTo bytes position) index = getBit bytes index := by
  unfold getBit growTo
  rw [List.getElem?_append]
  split
  · rfl
  · rename_i outside
    rw [List.getElem?_eq_none (Nat.not_lt.mp outside),List.getElem?_replicate]
    split <;> rfl

def assignBit (bytes : Bytes) (row : Nat) (value : Bool) : Bytes :=
  if value then setBit (growTo bytes row) row else clearBit (growTo bytes row) row

theorem getBit_assignBit (bytes : Bytes) (row index : Nat) (value : Bool) :
    getBit (assignBit bytes row value) index = if index = row then value else getBit bytes index := by
  unfold assignBit
  cases value with
  | true =>
    rw [if_pos rfl,getBit_setBit _ _ _ (growTo_inside bytes row),getBit_growTo]
    split <;> simp_all
  | false =>
    rw [if_neg (by decide),getBit_clearBit,getBit_growTo]
    split <;> simp_all

theorem getBit_nil (index : Nat) : getBit [] index = false := Nat.zero_testBit _

theorem getBit_replicate (count index : Nat) : getBit (List.replicate count 0) index = false := by
  unfold getBit
  rw [List.getElem?_replicate]
  split <;> simp

theorem getBit_window (bytes : Bytes) (start count index : Nat) :
    getBit ((bytes.drop start).take count) index = (decide (index < 8 * count) &&
      getBit bytes (8 * start + index)) := by
  have byte : (8 * start + index) / 8 = start + index / 8 := by omega
  have position : (8 * start + index) % 8 = index % 8 := by omega
  unfold getBit
  rw [List.getElem?_take,List.getElem?_drop,byte,position]
  by_cases inside : index < 8 * count
  · have low : index / 8 < count := by omega
    simp [inside,low]
  · have high : ¬ index / 8 < count := by omega
    simp [inside,high]

theorem getBit_append (front back : Bytes) (index : Nat) :
    getBit (front ++ back) index = if index < 8 * front.length then getBit front index
      else getBit back (index - 8 * front.length) := by
  unfold getBit
  rw [List.getElem?_append]
  split
  · rw [if_pos (by omega)]
  · rename_i late
    have byte : (index - 8 * front.length) / 8 = index / 8 - front.length := by omega
    have position : (index - 8 * front.length) % 8 = index % 8 := by omega
    rw [if_neg (by omega),byte,position]

def packField (width offset value : Nat) (bytes : Bytes) : Bytes :=
  (List.range width).foldl (fun bytes b => if value.testBit b then setBit bytes (offset + b) else bytes) bytes

def packFields (width : Nat) : Nat → List Nat → Bytes → Bytes
  | _,[],bytes => bytes
  | i,value :: values,bytes => packFields width (i + 1) values (packField width (i * width) value bytes)

theorem packField_spec (width offset value : Nat) (bytes : Bytes) (room : offset + width ≤ 8 * bytes.length) :
    (packField width offset value bytes).length = bytes.length ∧
    ∀ index, getBit (packField width offset value bytes) index =
      (getBit bytes index || (decide (offset ≤ index) && decide (index < offset + width) &&
        value.testBit (index - offset))) := by
  induction width with
  | zero =>
    refine ⟨rfl,fun index => ?_⟩
    have outside : ¬ (offset ≤ index ∧ index < offset + 0) := by omega
    simp only [packField,List.range_zero,List.foldl_nil]
    rcases Nat.lt_or_ge index offset with low | high
    · simp [Nat.not_le.mpr low]
    · simp [Nat.not_lt.mpr high]
  | succ width ih =>
    obtain ⟨length,bits⟩ := ih (by omega)
    have unfolded : packField (width + 1) offset value bytes =
        if value.testBit width then setBit (packField width offset value bytes) (offset + width)
        else packField width offset value bytes := by
      simp [packField,List.range_succ,List.foldl_append]
    rw [unfolded]
    by_cases last : value.testBit width
    · rw [if_pos last,length_setBit]
      refine ⟨length,fun index => ?_⟩
      rw [getBit_setBit _ _ _ (by omega),bits]
      by_cases here : index = offset + width
      · subst here
        simp [last]
      · have same : index < offset + (width + 1) ↔ index < offset + width := by omega
        simp [here,same]
    · rw [if_neg last]
      refine ⟨length,fun index => ?_⟩
      rw [bits]
      by_cases here : index = offset + width
      · subst here
        simp [last]
      · have same : index < offset + (width + 1) ↔ index < offset + width := by omega
        simp [same]

theorem packFields_spec (width i : Nat) (values : List Nat) (bytes : Bytes)
    (room : (i + values.length) * width ≤ 8 * bytes.length) :
    (packFields width i values bytes).length = bytes.length ∧
    ∀ field b, b < width → getBit (packFields width i values bytes) (field * width + b) =
      (getBit bytes (field * width + b) ||
        (decide (i ≤ field) && (values[field - i]?.map (fun value => value.testBit b)).getD false)) := by
  induction values generalizing i bytes with
  | nil => exact ⟨rfl,fun field b _ => by simp [packFields]⟩
  | cons value values ih =>
    have total : (i + 1 + values.length) * width ≤ 8 * bytes.length := by
      rw [List.length_cons] at room
      calc (i + 1 + values.length) * width = (i + (values.length + 1)) * width := by ring
        _ ≤ 8 * bytes.length := room
    have first : i * width + width ≤ 8 * bytes.length := by
      calc i * width + width = (i + 1) * width := by ring
        _ ≤ (i + 1 + values.length) * width := Nat.mul_le_mul_right _ (by omega)
        _ ≤ 8 * bytes.length := total
    obtain ⟨length,bits⟩ := packField_spec width (i * width) value bytes first
    obtain ⟨lengthRest,bitsRest⟩ := ih (i + 1) (packField width (i * width) value bytes) (by rw [length]; exact total)
    refine ⟨by rw [packFields,lengthRest,length],fun field b inField => ?_⟩
    rw [packFields,bitsRest field b inField,bits]
    rcases Nat.lt_trichotomy field i with before | rfl | after
    · have below : field * width + b < i * width := by
        calc field * width + b < field * width + width := by omega
          _ = (field + 1) * width := by ring
          _ ≤ i * width := Nat.mul_le_mul_right _ before
      have noRest : ¬ i + 1 ≤ field := by omega
      have noHere : ¬ i ≤ field := by omega
      have offBelow : ¬ i * width ≤ field * width + b := by omega
      simp [noRest,noHere,offBelow]
    · simp [inField]
    · have above : i * width + width ≤ field * width + b := by
        calc i * width + width = (i + 1) * width := by ring
          _ ≤ field * width := Nat.mul_le_mul_right _ after
          _ ≤ field * width + b := Nat.le_add_right _ _
      have notHere : ¬ field * width + b < i * width + width := by omega
      have restIndex : field - i = field - (i + 1) + 1 := by omega
      have inRest : i + 1 ≤ field := after
      have inAll : i ≤ field := by omega
      simp [notHere,restIndex,inRest,inAll]

def packBits (bit : Nat → Bool) (count : Nat) (bytes : Bytes) : Bytes :=
  (List.range count).foldl (fun bytes i => if bit i then setBit bytes i else bytes) bytes

theorem packBits_spec (bit : Nat → Bool) (count : Nat) (bytes : Bytes) (room : count ≤ 8 * bytes.length) :
    (packBits bit count bytes).length = bytes.length ∧
    ∀ index, getBit (packBits bit count bytes) index = (getBit bytes index ||
      (decide (index < count) && bit index)) := by
  induction count with
  | zero => exact ⟨rfl,fun index => by simp [packBits]⟩
  | succ count ih =>
    obtain ⟨length,bits⟩ := ih (by omega)
    have unfolded : packBits bit (count + 1) bytes =
        if bit count then setBit (packBits bit count bytes) count else packBits bit count bytes := by
      simp [packBits,List.range_succ,List.foldl_append]
    have others (index : Nat) (other : index ≠ count) : index < count + 1 ↔ index < count := by omega
    rw [unfolded]
    split
    · rename_i one
      refine ⟨by rw [length_setBit,length],fun index => ?_⟩
      rw [getBit_setBit _ _ _ (by omega),bits]
      by_cases here : index = count
      · simp [here,one]
      · simp [here,others index here]
    · rename_i zero
      refine ⟨length,fun index => ?_⟩
      rw [bits]
      by_cases here : index = count
      · simp [here,zero]
      · simp [others index here]

theorem getBit_packBits (bit : Nat → Bool) {count index : Nat} (inside : index < count) :
    getBit (packBits bit count (List.replicate ((count + 7) / 8) 0)) index = bit index := by
  obtain ⟨_,bits⟩ := packBits_spec bit count (List.replicate ((count + 7) / 8) 0) (by rw [List.length_replicate]; omega)
  rw [bits,getBit_replicate]
  simp [inside]

def Carries (bytes : Bytes) (bits : List Bool) : Prop := ∀ index, getBit bytes index = bits[index]?.getD false

namespace Carries
variable {bytes others : Bytes} {bits more : List Bool}

section
variable (carries : Carries bytes bits)
include carries

theorem grown (count : Nat) : Carries (bytes ++ List.replicate count 0) bits := by
  intro index
  rw [getBit_append,getBit_replicate,← carries index]
  split
  · rfl
  · unfold getBit
    rw [List.getElem?_eq_none (by omega)]
    simp

theorem snoc (room : bits.length / 8 < bytes.length) (bit : Bool) :
    Carries (if bit then setBit bytes bits.length else bytes) (bits ++ [bit]) := by
  intro index
  have before := carries index
  rcases Nat.lt_trichotomy index bits.length with inside | rfl | beyond
  · have other : index ≠ bits.length := Nat.ne_of_lt inside
    rw [List.getElem?_append_left inside,← before]
    cases bit with
    | true => rw [if_pos rfl,getBit_setBit _ _ _ room,decide_eq_false other,Bool.or_false]
    | false => rfl
  · rw [List.getElem?_eq_none (Nat.le_refl _)] at before
    rw [List.getElem?_concat_length]
    cases bit with
    | true => rw [if_pos rfl,getBit_setBit _ _ _ room,decide_eq_true rfl,Bool.or_true,Option.getD_some]
    | false => exact before
  · have other : index ≠ bits.length := Nat.ne_of_gt beyond
    rw [List.getElem?_eq_none (Nat.le_of_lt beyond)] at before
    rw [List.getElem?_eq_none (by rw [List.length_append,List.length_singleton]; omega),← before]
    cases bit with
    | true => rw [if_pos rfl,getBit_setBit _ _ _ room,decide_eq_false other,Bool.or_false]
    | false => rfl

theorem extended (more : List Bool) (room : bits.length + more.length ≤ 8 * bytes.length) :
    (more.foldl (fun state bit => (if bit then setBit state.1 state.2 else state.1,state.2 + 1)) (bytes,
      bits.length)).2 = bits.length + more.length ∧
    (more.foldl (fun state bit => (if bit then setBit state.1 state.2 else state.1,state.2 + 1)) (bytes,
      bits.length)).1.length = bytes.length ∧
    Carries (more.foldl (fun state bit => (if bit then setBit state.1 state.2 else state.1,state.2 + 1)) (bytes,
      bits.length)).1 (bits ++ more) := by
  induction more generalizing bytes bits with
  | nil => exact ⟨rfl,rfl,by rw [List.append_nil]; exact carries⟩
  | cons bit rest ih =>
    rw [List.length_cons] at room
    have same : (if bit then setBit bytes bits.length else bytes).length = bytes.length := by
      split
      · exact length_setBit _ _
      · rfl
    have step := ih (carries.snoc (by omega) bit) (by rw [same,List.length_append,List.length_singleton]; omega)
    rw [List.length_append,List.length_singleton,same,List.append_assoc] at step
    obtain ⟨count,length,all⟩ := step
    refine ⟨?_,length,all⟩
    rw [List.foldl_cons,count,List.length_cons]
    omega

theorem append (also : Carries others more) (aligned : bits.length = 8 * bytes.length) :
    Carries (bytes ++ others) (bits ++ more) := by
  intro index
  rw [getBit_append,List.getElem?_append,aligned]
  split
  · exact carries index
  · exact also _

end

end Carries

theorem carries_packBits (bit : Nat → Bool) (count : Nat) :
    Carries (packBits bit count (List.replicate ((count + 7) / 8) 0)) ((List.range count).map bit) := by
  intro index
  obtain ⟨_,packed⟩ := packBits_spec bit count (List.replicate ((count + 7) / 8) 0)
    (by rw [List.length_replicate]; omega)
  rw [packed,getBit_replicate,Bool.false_or,List.getElem?_map]
  by_cases inside : index < count
  · rw [List.getElem?_range inside,decide_eq_true inside]
    rfl
  · rw [List.getElem?_eq_none (by rw [List.length_range]; omega),decide_eq_false inside]
    rfl

end ApexBase.Library.Wire
