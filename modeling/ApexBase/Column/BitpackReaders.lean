import Mathlib.Algebra.Group.Action.Defs
import Mathlib.Algebra.Order.BigOperators.Group.List
import Mathlib.Algebra.Order.Group.Nat
import Mathlib.Data.List.TakeWhile
import ApexBase.Column.Bitpack

/-! What the readers of a bit-packed column make of a payload: each value is the number in its own bits. -/
namespace ApexBase.Column.Bitpack
open Data Library Library.Wire Library.Checked

/-- A header, the packed bits of the length that it declares, and what follows in the buffer. -/
structure Payload where
  count : UInt64
  bitWidth : Nat
  minVal : Int64
  packed : Bytes
  rest : Bytes
  narrow : bitWidth ≤ 63
  declared : packed.length = (count.toNat * bitWidth + 7) / 8
  small : 17 + packed.length + rest.length < 2^63

namespace Payload
variable (payload : Payload)

def bytes : Bytes :=
  leBytes 8 payload.count.toNat ++ (leBytes 1 payload.bitWidth ++ (leBytes 8 payload.minVal.toUInt64.toNat ++
    (payload.packed ++ payload.rest)))

def field (i : Nat) : Nat := window payload.packed (i * payload.bitWidth) payload.bitWidth

def delta (i : Nat) : UInt64 := UInt64.ofNat (payload.field i)

def value (i : Nat) : Int64 := payload.minVal + (payload.delta i).toInt64

def values : List Int64 := (List.range payload.count.toNat).map payload.value

def SizesFit : Prop := payload.count.toNat * payload.bitWidth + 7 < 2^64

theorem countOf_bytes : countOf payload.bytes = payload.count.toNat := by
  rw [countOf,bytes,List.take_left' (length_leBytes _ _),ofLe_leBytes_of_lt (UInt64.toNat_lt _)]

theorem widthOf_bytes : widthOf payload.bytes = payload.bitWidth := by
  have narrow := payload.narrow
  rw [widthOf,bytes,List.drop_left' (length_leBytes _ _),List.take_left' (length_leBytes _ _),
    ofLe_leBytes_of_lt (by omega)]

theorem minOf_bytes : minOf payload.bytes = payload.minVal := by
  have headed : payload.bytes.drop 9 = leBytes 8 payload.minVal.toUInt64.toNat ++ (payload.packed ++ payload.rest) := by
    rw [bytes,show 9 = 8 + 1 from rfl,← List.drop_drop,List.drop_left' (length_leBytes _ _),
      List.drop_left' (length_leBytes _ _)]
  rw [minOf,headed,List.take_left' (length_leBytes _ _),ofLe_leBytes_of_lt (UInt64.toNat_lt _),UInt64.ofNat_toNat,
    Int64.toInt64_toUInt64]

theorem length_bytes : payload.bytes.length = 17 + payload.packed.length + payload.rest.length := by
  simp only [bytes,List.length_append,length_leBytes]
  omega

theorem packed_bytes : (payload.bytes.drop 17).take payload.packed.length = payload.packed := by
  have headed : payload.bytes.drop 17 = payload.packed ++ payload.rest := by
    rw [bytes,show 17 = 8 + (1 + 8) from rfl,← List.drop_drop,List.drop_left' (length_leBytes _ _),← List.drop_drop,
      List.drop_left' (length_leBytes _ _),List.drop_left' (length_leBytes _ _)]
  rw [headed,List.take_left' rfl]

theorem packedOf_bytes {ε : Type} (truncated : ε) (fits : payload.SizesFit) :
    packedOf payload.bytes truncated = .ok (payload.packed,17 + payload.packed.length) := by
  have small := payload.small
  unfold SizesFit at fits
  unfold packedOf mul add
  rw [countOf_bytes,widthOf_bytes,usize_ok (by omega)]
  dsimp only [bind,Except.bind]
  rw [usize_ok fits]
  dsimp only
  rw [← payload.declared,usize_ok (by omega)]
  dsimp only
  rw [if_neg (by rw [length_bytes]; omega),slice_ok (by rw [length_bytes]; omega),packed_bytes]
  rfl

theorem packedOf_wraps {ε : Type} (truncated : ε) (wraps : ¬payload.SizesFit) :
    packedOf payload.bytes truncated = .error (.fault .wrapped) := by
  unfold SizesFit at wraps
  unfold packedOf mul add
  rw [countOf_bytes,widthOf_bytes,usize_then (fun packedBits => packedBits + 7) (Nat.le_add_right _ _),
    usize_wrapped wraps]
  rfl

theorem room {i : Nat} (inside : i < payload.count.toNat) :
    i * payload.bitWidth + payload.bitWidth ≤ 8 * payload.packed.length := by
  have declared := payload.declared
  have last : (i + 1) * payload.bitWidth ≤ payload.count.toNat * payload.bitWidth := Nat.mul_le_mul_right _ inside
  rw [Nat.succ_mul] at last
  omega

end Payload

/-! Plain extraction. -/

theorem unpackBits_eq (packed : Bytes) {bitWidth : Nat} (narrow : bitWidth ≤ 64) (i : Nat) :
    unpackBits packed bitWidth i = window packed (i * bitWidth) bitWidth :=
  Nat.eq_of_testBit_eq fun b => by rw [testBit_unpackBits packed narrow, testBit_window]

theorem unpackWords_eq (packed : Bytes) {bitWidth : Nat} (narrow : bitWidth < 64) (i : Nat) :
    unpackWords packed bitWidth i = window packed (i * bitWidth) bitWidth :=
  Nat.eq_of_testBit_eq fun b => by rw [testBit_unpackWords, Nat.mod_eq_of_lt narrow, testBit_window]

theorem masked_eq (packed : Bytes) {start count shift position bitWidth : Nat} (covers : shift + bitWidth ≤ 8 * count)
    (position_ : 8 * start + shift = position) :
    (ofLe ((packed.drop start).take count) >>> shift) &&& (2^bitWidth - 1) = window packed position bitWidth := by
  refine Nat.eq_of_testBit_eq fun b => ?_
  have here : 8 * start + (shift + b) = position + b := by omega
  rw [Nat.testBit_and,Nat.testBit_two_pow_sub_one,Nat.testBit_shiftRight,testBit_ofLe,getBit_window,here,testBit_window,
    Bool.and_comm]
  by_cases low : b < bitWidth
  · rw [decide_eq_true (show shift + b < 8 * count by omega),Bool.true_and]
  · rw [decide_eq_false low,Bool.false_and,Bool.false_and]

namespace Payload
variable (payload : Payload)

theorem fill : bitpackFill payload.packed payload.count.toNat payload.bitWidth payload.minVal = payload.values := by
  have narrow := payload.narrow
  unfold bitpackFill values
  split
  · rename_i simple
    rcases simple with flat | empty
    · refine List.ext_getElem (by simp) fun i _ _ => ?_
      rw [List.getElem_replicate,List.getElem_map,value,delta,field,flat,window,Nat.pow_zero,Nat.mod_one]
      exact (Int64.add_zero _).symm
    · rw [empty]
      rfl
  · refine List.map_congr_left fun i _ => ?_
    dsimp only
    rw [unpackWords_eq _ (by omega), unpackBits_eq _ (by omega), ite_self]
    rfl

theorem decoded (fits : payload.SizesFit) (allocated : payload.count.toNat * 8 < 2^63) :
    bitpackDecodeI64 payload.bytes = .ok (payload.values,17 + payload.packed.length) := by
  unfold bitpackDecodeI64
  rw [if_neg (by rw [length_bytes]; omega),packedOf_bytes _ _ fits]
  dsimp only [bind,Except.bind]
  rw [countOf_bytes,alloc,if_pos allocated,widthOf_bytes,minOf_bytes,fill]
  rfl

theorem not_decoded (refused : ¬(payload.SizesFit ∧ payload.count.toNat * 8 < 2^63)) (read : List Int64 × Nat) :
    bitpackDecodeI64 payload.bytes ≠ .ok read := by
  unfold bitpackDecodeI64
  rw [if_neg (by rw [length_bytes]; omega)]
  by_cases fits : payload.SizesFit
  · rw [packedOf_bytes _ _ fits]
    dsimp only [bind,Except.bind]
    rw [countOf_bytes,alloc,if_neg fun allocated => refused ⟨fits,allocated⟩]
    exact nofun
  · rw [packedOf_wraps _ _ fits]
    exact nofun

theorem at_idx (fits : payload.SizesFit) (idx : Nat) :
    bitpackDecodeAtIdx payload.bytes idx = if idx < payload.count.toNat then .ok (payload.value idx)
      else .error (.error ()) := by
  unfold bitpackDecodeAtIdx
  rw [if_neg (by rw [length_bytes]; omega),countOf_bytes,widthOf_bytes,minOf_bytes]
  by_cases inside : idx < payload.count.toNat
  · rw [if_neg (by omega),if_pos inside]
    split
    · rename_i flat
      rw [value,delta,field,flat,window,Nat.pow_zero,Nat.mod_one]
      exact congrArg Except.ok (Int64.add_zero _).symm
    · rw [packedOf_bytes _ _ fits]
      dsimp only [bind,Except.bind]
      rw [unpackBits_eq _ (Nat.le_succ_of_le payload.narrow)]
      rfl
  · rw [if_pos (by omega),if_neg inside]

end Payload

/-! Reading the bytes of a value into one word. -/

theorem testBit_byteOrZero (packed : Bytes) (index bit : Nat) :
    (byteOrZero packed index).testBit bit = (decide (bit < 8) && getBit packed (8 * index + bit)) := by
  by_cases low : bit < 8
  · have byte : (8 * index + bit) / 8 = index := by omega
    have position : (8 * index + bit) % 8 = bit := by omega
    rw [decide_eq_true low,Bool.true_and,getBit,byte,position,byteOrZero]
  · have small : byteOrZero packed index < 2^8 := UInt8.toNat_lt _
    rw [decide_eq_false low,Bool.false_and]
    exact Nat.testBit_lt_two_pow (Nat.lt_of_lt_of_le small (Nat.pow_le_pow_right (by decide) (Nat.not_lt.mp low)))

theorem byteAt_inside {packed : Bytes} {index : Nat} (inside : index < packed.length) :
    byteAt packed index = .ok (byteOrZero packed index) := by
  unfold byteAt byteOrZero
  rw [List.getElem?_eq_getElem inside]
  rfl

section Word
variable {checks : Bool} {packed : Bytes}

theorem shl_small {ε : Type} {value places : Nat} (small : places < 64) :
    (shl checks value places : Checked ε Nat) = .ok (value <<< places % 2^64) :=
  if_pos small

theorem word_push {byte count : Nat} (few : count < 8) :
    ofLe ((packed.drop byte).take count) ||| byteOrZero packed (byte + count) <<< (8 * count) % 2^64 =
      ofLe ((packed.drop byte).take (count + 1)) := by
  refine Nat.eq_of_testBit_eq fun bit => ?_
  rw [Nat.testBit_or,testBit_ofLe,testBit_ofLe,getBit_window,getBit_window,Nat.testBit_mod_two_pow,
    Nat.testBit_shiftLeft,testBit_byteOrZero]
  by_cases before : bit < 8 * count
  · have behind : ¬bit ≥ 8 * count := by omega
    have inside : bit < 8 * (count + 1) := by omega
    simp only [before,behind,inside,decide_true,decide_false,Bool.true_and,Bool.false_and,Bool.and_false,Bool.or_false]
  · have place : 8 * (byte + count) + (bit - 8 * count) = 8 * byte + bit := by omega
    have behind : bit ≥ 8 * count := by omega
    rw [place]
    by_cases inside : bit < 8 * (count + 1)
    · have low : bit - 8 * count < 8 := by omega
      have word : bit < 64 := by omega
      simp only [before,behind,inside,low,word,decide_true,decide_false,Bool.true_and,Bool.false_and,Bool.false_or]
    · have high : ¬bit - 8 * count < 8 := by omega
      simp only [before,inside,high,decide_false,Bool.false_and,Bool.and_false,Bool.or_false]

theorem word_eq {byte count : Nat} (few : count ≤ 8) (inside : byte + count ≤ packed.length) :
    (List.range count).foldlM (fun word k => do
      let here ← byteAt packed (byte + k)
      let shifted ← shl checks here (8 * k)
      pure (word ||| shifted)) 0 = .ok (ofLe ((packed.drop byte).take count)) := by
  induction count with
  | zero => rfl
  | succ count ih =>
    rw [List.range_succ,List.foldlM_append,ih (by omega) (by omega)]
    change (byteAt packed (byte + count) >>= fun here => shl checks here (8 * count) >>= _) >>= _ = _
    rw [byteAt_inside (by omega)]
    change (shl checks _ (8 * count) >>= _) >>= _ = _
    rw [shl_small (by omega)]
    exact congrArg Except.ok (word_push (by omega))

section
variable {bitPos bitWidth : Nat} (narrow : bitWidth ≤ 63) (room : bitPos + bitWidth ≤ 8 * packed.length)
include narrow room

theorem readBits_near (near : bitPos % 8 + bitWidth ≤ 64) :
    bitpackReadBits checks packed bitPos bitWidth = .ok (window packed bitPos bitWidth) := by
  unfold bitpackReadBits
  by_cases flat : bitWidth = 0
  · rw [if_pos flat,flat,window,Nat.pow_zero,Nat.mod_one]
  · rw [if_neg flat,if_neg (by omega)]
    dsimp only
    rw [if_neg (by omega),word_eq (by omega) (by omega)]
    exact congrArg Except.ok (masked_eq packed (by omega) (by omega))

theorem readBits_far
    (far : ¬bitPos % 8 + bitWidth ≤ 64) : bitpackReadBits checks packed bitPos bitWidth = if checks then
    .error (.fault .wrapped) else
      .ok (((ofLe ((packed.drop (bitPos / 8)).take 8) ||| byteOrZero packed (bitPos / 8 + 8)) >>> (bitPos % 8)) &&&
        (2^bitWidth - 1)) := by
  have needed : (bitPos % 8 + bitWidth + 7) / 8 = 8 + 1 := by omega
  unfold bitpackReadBits
  rw [if_neg (by omega),if_neg (by omega)]
  dsimp only
  rw [if_neg (by omega),needed,List.range_succ,List.foldlM_append,word_eq (Nat.le_refl 8) (by omega)]
  change ((byteAt packed (bitPos / 8 + 8) >>= fun here => shl checks here 64 >>= _) >>= _) >>= _ = _
  rw [byteAt_inside (by omega)]
  have byte : byteOrZero packed (bitPos / 8 + 8) < 2^64 := Nat.lt_trans (UInt8.toNat_lt _) (by decide)
  have shifted : (shl checks (byteOrZero packed (bitPos / 8 + 8)) 64 : Checked Unit Nat) =
      overflow checks (byteOrZero packed (bitPos / 8 + 8)) := by
    rw [shl,if_neg (by decide),Nat.mod_self,Nat.shiftLeft_zero,Nat.mod_eq_of_lt byte]
  change ((shl checks _ 64 >>= _) >>= _) >>= _ = _
  rw [shifted,overflow]
  cases checks with
  | true => rfl
  | false => rfl

end

end Word

/-- The bits of the ninth byte, taken for those of the first, change no bit of the value, and its
bits there are zero. -/
def Folds (packed : Bytes) (bitPos bitWidth : Nat) : Prop :=
  ∀ b < bitWidth, if bitPos % 8 + b < 64 then
    bitPos % 8 + b < 8 → getBit packed (bitPos + 64 + b) = true → getBit packed (bitPos + b) = true
    else getBit packed (bitPos + b) = false

theorem folds_iff (packed : Bytes) (bitPos bitWidth : Nat) :
    ((ofLe ((packed.drop (bitPos / 8)).take 8) ||| byteOrZero packed (bitPos / 8 + 8)) >>> (bitPos % 8)) &&&
    (2^bitWidth - 1) =
      window packed bitPos bitWidth ↔ Folds packed bitPos bitWidth := by
  have bits : ∀ b, (((ofLe ((packed.drop (bitPos / 8)).take 8) ||| byteOrZero packed (bitPos / 8 + 8)) >>>
    (bitPos % 8)) &&& (2^bitWidth - 1)).testBit b =
      (decide (b < bitWidth) && (decide (bitPos % 8 + b < 64) && getBit packed (bitPos + b) ||
        decide (bitPos % 8 + b < 8) && getBit packed (bitPos + 64 + b))) := by
    intro b
    have first : 8 * (bitPos / 8) + (bitPos % 8 + b) = bitPos + b := by omega
    have ninth : 8 * (bitPos / 8 + 8) + (bitPos % 8 + b) = bitPos + 64 + b := by omega
    rw [Nat.testBit_and,Nat.testBit_two_pow_sub_one,Nat.testBit_shiftRight,Nat.testBit_or,testBit_ofLe,getBit_window,
      testBit_byteOrZero,
      first,ninth,Bool.and_comm]
  refine Iff.trans ⟨fun same b => congrArg (Nat.testBit · b) same,Nat.eq_of_testBit_eq⟩ (forall_congr' fun b => ?_)
  rw [bits,testBit_window]
  by_cases low : b < bitWidth
  · rw [decide_eq_true low,Bool.true_and,Bool.true_and]
    by_cases near : bitPos % 8 + b < 64
    · rw [if_pos near,decide_eq_true near,Bool.true_and]
      by_cases first : bitPos % 8 + b < 8
      · rw [decide_eq_true first,Bool.true_and]
        cases getBit packed (bitPos + b) <;> cases getBit packed (bitPos + 64 + b) <;> simp [low,first]
      · rw [decide_eq_false first,Bool.false_and,Bool.or_false]
        exact iff_of_true rfl fun _ below => absurd below first
    · rw [if_neg near,decide_eq_false near,decide_eq_false (by omega),Bool.false_and,Bool.false_and,Bool.or_false]
      exact ⟨fun zero _ => zero.symm,fun zero => (zero low).symm⟩
  · rw [decide_eq_false low,Bool.false_and,Bool.false_and]
    exact iff_of_true rfl fun less => absurd less low

namespace Payload
variable (payload : Payload) {checks : Bool}

/-- The bits of a value lie in eight bytes, or a release build reads them all the same. -/
def Readable (checks : Bool) (i : Nat) : Prop :=
  i * payload.bitWidth % 8 + payload.bitWidth ≤ 64 ∨ checks = false ∧
    Folds payload.packed (i * payload.bitWidth) payload.bitWidth

theorem read_iff {i : Nat} (inside : i < payload.count.toNat) :
    bitpackReadBits checks payload.packed (i * payload.bitWidth) payload.bitWidth = .ok (payload.field i) ↔
    payload.Readable checks i := by
  unfold Readable
  by_cases near : i * payload.bitWidth % 8 + payload.bitWidth ≤ 64
  · exact iff_of_true (readBits_near payload.narrow (payload.room inside) near) (Or.inl near)
  · rw [readBits_far payload.narrow (payload.room inside) near]
    cases checks with
    | true =>
      rw [if_pos rfl]
      exact iff_of_false nofun (by simp only [near,false_or,Bool.true_eq_false,false_and,not_false_eq_true])
    | false =>
      rw [if_neg Bool.false_ne_true,Except.ok.injEq,field,folds_iff]
      exact ⟨fun folds => Or.inr ⟨rfl,folds⟩,fun either => (either.resolve_left near).2⟩

theorem field_lt (i : Nat) : payload.field i < 2^64 :=
  Nat.lt_trans (window_lt _ _ _) (Nat.pow_lt_pow_right (by decide) (Nat.lt_of_le_of_lt payload.narrow (by decide)))

def header : Header := ⟨payload.count.toNat,payload.bitWidth,payload.minVal,payload.packed⟩

theorem header_bytes (fits : payload.SizesFit) : bitpackHeader payload.bytes = .ok payload.header := by
  have narrow := payload.narrow
  unfold bitpackHeader
  rw [if_neg (by rw [length_bytes]; omega),widthOf_bytes,if_neg (by omega),packedOf_bytes _ _ fits]
  dsimp only [bind,Except.bind]
  rw [countOf_bytes,minOf_bytes]
  rfl

section
variable (fits : payload.SizesFit) (readable : ∀ i < payload.count.toNat, payload.Readable checks i) (low high : UInt64)
include fits readable

theorem countLoop_eq (rest : Nat) {i : Nat} (end_ : i + rest = payload.count.toNat) (matched : Nat) :
    countLoop checks low high payload.header rest (i * payload.bitWidth) matched =
      .ok (matched + ((List.range' i rest).map payload.value).countP (inRange low high)) := by
  induction rest generalizing i matched with
  | zero => rfl
  | succ rest ih =>
    have inside : i < payload.count.toNat := by omega
    have bound : (i + 1) * payload.bitWidth ≤ payload.count.toNat * payload.bitWidth := Nat.mul_le_mul_right _ inside
    unfold SizesFit at fits
    rw [Nat.succ_mul] at bound
    change (bitpackReadBits checks payload.packed (i * payload.bitWidth) payload.bitWidth >>= fun delta =>
      add (i * payload.bitWidth) payload.bitWidth >>= fun bitPos => countLoop checks low high payload.header rest bitPos
        (if inRange low high (payload.minVal + (UInt64.ofNat delta).toInt64) then matched + 1 else matched)) = _
    rw [(payload.read_iff inside).mpr (readable i inside)]
    change (add (i * payload.bitWidth) payload.bitWidth >>= fun bitPos =>
      countLoop checks low high payload.header rest bitPos
        (if inRange low high (payload.value i) then matched + 1 else matched)) = _
    rw [add,usize_ok (by omega),← Nat.succ_mul]
    refine (ih (by omega) _).trans (congrArg Except.ok ?_)
    rw [List.range'_succ,List.map_cons,List.countP_cons]
    split
    · rw [Nat.add_assoc,Nat.add_comm 1]
    · rfl

theorem counted :
    bitpackCountInRange checks payload.bytes low high = .ok (payload.values.countP (inRange low high)) := by
  unfold bitpackCountInRange
  rw [header_bytes _ fits]
  dsimp only [bind,Except.bind]
  split
  · rename_i flat
    have all : payload.values = List.replicate payload.count.toNat payload.minVal := by
      rw [← fill,bitpackFill,if_pos (Or.inl (show payload.bitWidth = 0 from flat))]
    rw [all,List.countP_replicate]
    rfl
  · have looped := payload.countLoop_eq fits readable low high payload.count.toNat (Nat.zero_add _) 0
    rw [Nat.zero_mul,Nat.zero_add,← List.range_eq_range'] at looped
    exact looped

end

end Payload

namespace Deltas

theorem toNat_min (a b : UInt64) : (Min.min a b).toNat = Min.min a.toNat b.toNat := by
  change (if a ≤ b then a else b).toNat = _
  split
  · rename_i less
    exact (Nat.min_eq_left (UInt64.le_iff_toNat_le.mp less)).symm
  · rename_i more
    exact (Nat.min_eq_right (Nat.le_of_not_le fun less => more (UInt64.le_iff_toNat_le.mpr less))).symm

theorem toNat_max (a b : UInt64) : (Max.max a b).toNat = Max.max a.toNat b.toNat := by
  change (if a ≤ b then b else a).toNat = _
  split
  · rename_i less
    exact (Nat.max_eq_right (UInt64.le_iff_toNat_le.mp less)).symm
  · rename_i more
    exact (Nat.max_eq_left (Nat.le_of_not_le fun less => more (UInt64.le_iff_toNat_le.mpr less))).symm

theorem ext_toNat {a b : Deltas} (sum : a.sum = b.sum) (min : a.min.toNat = b.min.toNat)
    (max : a.max.toNat = b.max.toNat) : a = b :=
  Deltas.ext sum (UInt64.toNat_inj.mp min) (UInt64.toNat_inj.mp max)

@[simp] theorem sum_add (a b : Deltas) : (a + b).sum = a.sum + b.sum := rfl

@[simp] theorem min_add (a b : Deltas) : (a + b).min.toNat = Min.min a.min.toNat b.min.toNat := toNat_min _ _

@[simp] theorem max_add (a b : Deltas) : (a + b).max.toNat = Max.max a.max.toNat b.max.toNat := toNat_max _ _

private theorem add_comm' (a b : Deltas) : a + b = b + a :=
  ext_toNat (UInt64.add_comm _ _) (by rw [min_add,min_add,Nat.min_comm]) (by rw [max_add,max_add,Nat.max_comm])

private theorem zero_add' (a : Deltas) : 0 + a = a := by
  have top := a.min.toNat_lt
  refine ext_toNat (UInt64.zero_add _) ?_ ?_
  · rw [min_add]
    exact Nat.min_eq_right (Nat.le_of_lt_succ top)
  · rw [max_add]
    exact Nat.max_eq_right (Nat.zero_le _)

instance : AddCommMonoid Deltas where
  add_assoc a b c := ext_toNat (UInt64.add_assoc _ _ _) (by simp only [min_add,Nat.min_assoc])
    (by simp only [max_add,Nat.max_assoc])
  zero_add := zero_add'
  add_zero a := (add_comm' a 0).trans (zero_add' a)
  add_comm := add_comm'
  nsmul := nsmulRec

theorem foldl_push {α : Type} (delta : α → UInt64) (items : List α) (start : Deltas) :
    items.foldl (fun deltas item => deltas.push (delta item)) start =
    start + (items.map fun item => single (delta item)).sum :=
  foldl_add_eq_sum (fun item => single (delta item)) items start

instance : Std.Associative (α := UInt64) Min.min :=
  ⟨fun a b c => UInt64.toNat_inj.mp (by simp only [toNat_min,Nat.min_assoc])⟩

instance : Std.Associative (α := UInt64) Max.max :=
  ⟨fun a b c => UInt64.toNat_inj.mp (by simp only [toNat_max,Nat.max_assoc])⟩

theorem merged (lanes : List Deltas) : (lanes.map Deltas.min).min?.getD (UInt64.ofNat (2^64 - 1)) = lanes.sum.min ∧
    (lanes.map Deltas.max).max?.getD 0 = lanes.sum.max ∧ (lanes.map Deltas.sum).sum = lanes.sum.sum := by
  induction lanes with
  | nil => exact ⟨rfl,rfl,rfl⟩
  | cons lane rest ih =>
    obtain ⟨least,greatest,total⟩ := ih
    simp only [List.map_cons,List.sum_cons]
    refine ⟨?_,?_,?_⟩
    · rw [List.min?_cons]
      change _ = Min.min lane.min rest.sum.min
      rw [← least,Option.getD_some]
      cases found : (rest.map Deltas.min).min? with
      | none => exact (congrArg Deltas.min (add_zero lane)).symm
      | some value => rfl
    · rw [List.max?_cons]
      change _ = Max.max lane.max rest.sum.max
      rw [← greatest,Option.getD_some]
      cases found : (rest.map Deltas.max).max? with
      | none => exact (congrArg Deltas.max (add_zero lane)).symm
      | some value => rfl
    · rw [total,sum_add]

theorem sumU64_eq (checks : Bool) (items : List UInt64) (start : UInt64) :
    (items.foldlM (addU64 checks) start : Checked Unit UInt64) =
      if checks = true ∧ ¬start.toNat + (items.map UInt64.toNat).sum < 2^64 then .error (.fault .wrapped)
      else .ok (start + items.sum) := by
  induction items generalizing start with
  | nil =>
    have small := start.toNat_lt
    rw [List.map_nil,List.sum_nil,List.sum_nil,UInt64.add_zero,if_neg fun both => both.2 small]
    rfl
  | cons item rest ih =>
    rw [List.foldlM_cons,List.map_cons,List.sum_cons,List.sum_cons,← UInt64.add_assoc]
    by_cases fits : start.toNat + item.toNat < 2^64
    · have total : (start + item).toNat = start.toNat + item.toNat := by rw [UInt64.toNat_add,Nat.mod_eq_of_lt fits]
      rw [addU64,if_pos fits]
      refine (ih (start + item)).trans ?_
      rw [total,Nat.add_assoc]
    · have more : ¬start.toNat + (item.toNat + (rest.map UInt64.toNat).sum) < 2^64 := by omega
      rw [addU64,if_neg fits,overflow]
      cases checks with
      | true =>
        rw [if_pos rfl,if_pos ⟨rfl,more⟩]
        rfl
      | false =>
        refine (ih (start + item)).trans ?_
        rw [if_neg fun both => Bool.false_ne_true both.1,if_neg fun both => Bool.false_ne_true both.1]

end Deltas

namespace Payload
variable (payload : Payload) {checks : Bool}

def total (positions : List Nat) : Deltas := (positions.map fun i => Deltas.single (payload.delta i)).sum

theorem total_append (first second : List Nat) :
    payload.total (first ++ second) = payload.total first + payload.total second := by
  rw [total,List.map_append,List.sum_append]
  rfl

theorem foldl_deltas {delta : Nat → UInt64} {positions : List Nat} (same : ∀ i ∈ positions, delta i = payload.delta i) :
    positions.foldl (fun deltas i => deltas.push (delta i)) 0 = payload.total positions := by
  rw [Deltas.foldl_push,zero_add,total]
  exact congrArg List.sum (List.map_congr_left fun i member => congrArg Deltas.single (same i member))

theorem aggWide_eq : aggWide payload.packed payload.count.toNat payload.bitWidth =
    payload.total (List.range payload.count.toNat) :=
  payload.foldl_deltas fun i _ => by rw [unpackBits_eq _ (Nat.le_succ_of_le payload.narrow), delta, field]

theorem agg16_eq (some_ : 0 < payload.bitWidth) (few : payload.bitWidth ≤ 16) :
    agg16 payload.packed payload.count.toNat payload.bitWidth (2^payload.bitWidth - 1) =
    payload.total (List.range payload.count.toNat) := by
  have all : ∀ i ∈ List.range payload.count.toNat, decide (i * payload.bitWidth / 8 < payload.packed.length) =
    true := by
    intro i member
    have inside := payload.room (List.mem_range.mp member)
    exact decide_eq_true (by omega)
  unfold agg16
  rw [List.takeWhile_eq_self_iff.mpr all]
  refine payload.foldl_deltas fun i _ => ?_
  have position : 8 * (i * payload.bitWidth / 8) + i * payload.bitWidth % 8 = i * payload.bitWidth :=
    Nat.div_add_mod _ 8
  rw [delta,field,masked_eq payload.packed (by omega) position]

theorem agg8_eq (eight : payload.bitWidth = 8) :
    agg8 payload.packed payload.count.toNat = payload.total (List.range payload.count.toNat) := by
  have declared := payload.declared
  have length : payload.packed.length = payload.count.toNat := by
    rw [eight] at declared
    omega
  unfold agg8
  rw [List.take_of_length_le (by omega),Deltas.foldl_push,zero_add,total]
  refine congrArg List.sum (List.ext_getElem (by rw [List.length_map,List.length_map,List.length_range,length]) fun i
    here _ => ?_)
  rw [List.length_map] at here
  rw [List.getElem_map,List.getElem_map,List.getElem_range]
  refine congrArg Deltas.single (UInt64.toNat_inj.mp ?_)
  have byte : window payload.packed (i * 8) 8 = byteOrZero payload.packed i := Nat.eq_of_testBit_eq fun b => by
    rw [testBit_window,testBit_byteOrZero,Nat.mul_comm]
  rw [delta,field,eight,byte,byteOrZero,List.getElem?_eq_getElem here,Option.getD_some,UInt8.toNat_toUInt64,
    UInt64.toNat_ofNat_of_lt' (Nat.lt_trans (UInt8.toNat_lt _) (by decide))]

/-! Lanes: group `g` has the values from `g * 8` on. -/

theorem lane_eq {groups : List Nat} (start : Nat → Deltas) {k : Nat} (eight : k < 8) :
    groups.foldl (pushGroup payload.packed payload.bitWidth) start k =
    start k + payload.total (groups.map fun g => g * 8 + k) := by
  induction groups generalizing start with
  | nil => exact (add_zero _).symm
  | cons g rest ih =>
    have within_ : (k + 1) * payload.bitWidth ≤ 8 * payload.bitWidth := Nat.mul_le_mul_right _ eight
    have position : 8 * (g * payload.bitWidth) + k * payload.bitWidth = (g * 8 + k) * payload.bitWidth := by ring
    rw [Nat.succ_mul] at within_
    rw [List.foldl_cons,ih,pushGroup]
    dsimp only
    rw [masked_eq payload.packed within_ position]
    exact add_assoc (start k) (Deltas.single (payload.delta (g * 8 + k))) (payload.total (rest.map fun g => g * 8 + k))

theorem total_lanes (groups : Nat) :
    ((List.range 8).map fun k => payload.total ((List.range groups).map fun g => g * 8 + k)).sum =
    payload.total (List.range (groups * 8)) := by
  have lanes := sum_lanes (fun i => Deltas.single (payload.delta i)) 8 groups
  simp only [← sum_map_range] at lanes
  refine Eq.trans ?_ lanes
  refine congrArg List.sum (List.map_congr_left fun k _ => ?_)
  rw [total,List.map_map]
  rfl

theorem pair_eq (packed : Bytes) (index : Nat) :
    byteOrZero packed index ||| byteOrZero packed (index + 1) <<< 8 = ofLe ((packed.drop index).take 2) := by
  refine Nat.eq_of_testBit_eq fun bit => ?_
  rw [Nat.testBit_or,Nat.testBit_shiftLeft,testBit_byteOrZero,testBit_byteOrZero,testBit_ofLe,getBit_window]
  by_cases low : bit < 8
  · have both : bit < 8 * 2 := by omega
    have not_ : ¬bit ≥ 8 := by omega
    simp only [low,both,not_,decide_true,decide_false,Bool.true_and,Bool.false_and,Bool.or_false]
  · have place : 8 * (index + 1) + (bit - 8) = 8 * index + bit := by omega
    have high : bit ≥ 8 := by omega
    have same : bit - 8 < 8 ↔ bit < 8 * 2 := by omega
    simp only [low,high,same,place,decide_false,decide_true,Bool.false_and,Bool.true_and,Bool.false_or]

def LanesFit (checks : Bool) : Prop :=
  checks = true → payload.bitWidth = 6 ∨ payload.bitWidth = 7 →
    ((List.range (payload.count.toNat / 8 * 8)).map payload.field).sum < 2^64

theorem total_toNat {positions : List Nat} (small : (positions.map payload.field).sum < 2^64) :
    (payload.total positions).sum.toNat = (positions.map payload.field).sum := by
  induction positions with
  | nil => rfl
  | cons i rest ih =>
    rw [List.map_cons,List.sum_cons] at small ⊢
    have later := ih (by omega)
    have here : (payload.delta i).toNat = payload.field i := UInt64.toNat_ofNat_of_lt' (payload.field_lt i)
    change (payload.delta i + (payload.total rest).sum).toNat = _
    rw [UInt64.toNat_add,later,here,Nat.mod_eq_of_lt small]

theorem foldlM_tail (lanes : payload.bitWidth = 6 ∨ payload.bitWidth = 7) {first : Nat → Checked Unit Nat}
    (first_ : ∀ index < payload.packed.length, first index = .ok (byteOrZero payload.packed index))
    {positions : List Nat} (inside : ∀ i ∈ positions, i < payload.count.toNat) (start : Deltas) :
    positions.foldlM (fun deltas i => do
      let b0 ← first (i * payload.bitWidth / 8)
      let b1 := byteOrZero payload.packed (i * payload.bitWidth / 8 + 1)
      pure (deltas.push (UInt64.ofNat (((b0 ||| b1 <<< 8) >>> (i * payload.bitWidth % 8)) &&&
        (2^payload.bitWidth - 1))))) start =
      .ok (start + payload.total positions) := by
  induction positions generalizing start with
  | nil => exact congrArg Except.ok (add_zero start).symm
  | cons i rest ih =>
    have room := payload.room (inside i List.mem_cons_self)
    have position : 8 * (i * payload.bitWidth / 8) + i * payload.bitWidth % 8 = i * payload.bitWidth :=
      Nat.div_add_mod _ 8
    rw [List.foldlM_cons,first_ _ (by omega)]
    change _ >>= _ = _
    dsimp only [bind,Except.bind,pure,Except.pure]
    rw [pair_eq,masked_eq payload.packed (by omega) position]
    refine (ih (fun j member => inside j (List.mem_cons_of_mem _ member)) _).trans (congrArg Except.ok ?_)
    exact add_assoc start (Deltas.single (payload.delta i)) (payload.total rest)

theorem lanes_toNat (allocated : payload.count.toNat * 8 < 2^63) (narrow : payload.bitWidth ≤ 7) :
    ((((List.range 8).map fun k => payload.total ((List.range (payload.count.toNat / 8)).map fun g => g * 8 + k)).map
      Deltas.sum).map
      UInt64.toNat).sum = ((List.range (payload.count.toNat / 8 * 8)).map payload.field).sum := by
  have together := sum_lanes payload.field 8 (payload.count.toNat / 8)
  simp only [← sum_map_range] at together
  rw [← together,List.map_map,List.map_map]
  refine congrArg List.sum (List.map_congr_left fun k _ => ?_)
  have each : ∀ x ∈ ((List.range (payload.count.toNat / 8)).map fun g => g * 8 + k).map payload.field, x ≤ 127 := by
    intro x member
    obtain ⟨i,-,rfl⟩ := List.mem_map.mp member
    have small : payload.field i < 2^payload.bitWidth := window_lt _ _ _
    have width : 2^payload.bitWidth ≤ 2^7 := Nat.pow_le_pow_right (by decide) narrow
    omega
  have bound := List.sum_le_card_nsmul _ 127 each
  rw [List.length_map,List.length_map,List.length_range,smul_eq_mul] at bound
  refine (payload.total_toNat (by omega)).trans ?_
  rw [List.map_map]
  rfl

variable (checks) in
theorem aggLanes_eq (allocated : payload.count.toNat * 8 < 2^63) (lanes : payload.bitWidth = 6 ∨ payload.bitWidth = 7)
    {first : Nat → Checked Unit Nat}
    (first_ : ∀ index < payload.packed.length, first index = .ok (byteOrZero payload.packed index)) :
    aggLanes checks payload.packed payload.count.toNat payload.bitWidth first =
      if checks = true ∧ ¬((List.range (payload.count.toNat / 8 * 8)).map payload.field).sum < 2^64 then
        .error (.fault .wrapped)
      else .ok (payload.total (List.range payload.count.toNat)) := by
  have declared := payload.declared
  have all : ∀ g ∈ List.range (payload.count.toNat / 8),
    decide (g * payload.bitWidth + payload.bitWidth ≤ payload.packed.length) = true := by
    intro g member
    have whole : (g + 1) * 8 ≤ payload.count.toNat := by
      have less := List.mem_range.mp member
      omega
    have bits := Nat.mul_le_mul_right payload.bitWidth whole
    rw [Nat.mul_right_comm,Nat.succ_mul] at bits
    exact decide_eq_true (by omega)
  have lane : (List.range 8).map ((List.range (payload.count.toNat / 8)).foldl
    (pushGroup payload.packed payload.bitWidth) fun _ => 0) =
      (List.range 8).map fun k => payload.total ((List.range (payload.count.toNat / 8)).map fun g => g * 8 + k) :=
    List.map_congr_left fun k member => (payload.lane_eq _ (List.mem_range.mp member)).trans (zero_add _)
  unfold aggLanes
  dsimp only
  rw [List.takeWhile_eq_self_iff.mpr all,lane]
  obtain ⟨least,greatest,added⟩ := Deltas.merged ((List.range 8).map fun k =>
    payload.total ((List.range (payload.count.toNat / 8)).map fun g => g * 8 + k))
  rw [payload.total_lanes] at least greatest added
  rw [sumU64,Deltas.sumU64_eq,payload.lanes_toNat allocated (by omega),least,greatest,added,UInt64.zero_add]
  have start : UInt64.toNat 0 + ((List.range (payload.count.toNat / 8 * 8)).map payload.field).sum =
      ((List.range (payload.count.toNat / 8 * 8)).map payload.field).sum := Nat.zero_add _
  by_cases wraps : checks = true ∧ ¬((List.range (payload.count.toNat / 8 * 8)).map payload.field).sum < 2^64
  · rw [if_pos (start.symm ▸ wraps),if_pos wraps]
    rfl
  · rw [if_neg (start.symm ▸ wraps),if_neg wraps]
    refine (payload.foldlM_tail lanes first_ (fun i member => ?_) _).trans (congrArg Except.ok ?_)
    · have range := List.mem_range'_1.mp member
      omega
    · have whole : payload.count.toNat / 8 * 8 + (payload.count.toNat - payload.count.toNat / 8 * 8) =
        payload.count.toNat := by omega
      refine (payload.total_append (List.range (payload.count.toNat / 8 * 8)) _).symm.trans (congrArg payload.total ?_)
      rw [List.range_eq_range',List.range_eq_range',← whole,← List.range'_append_1,Nat.zero_add,whole]

def ProductFits (checks : Bool) : Prop := checks = true → payload.bitWidth = 0 →
  -2^63 ≤ (payload.count.toInt64).toInt * payload.minVal.toInt ∧
  (payload.count.toInt64).toInt * payload.minVal.toInt < 2^63

def found : Aggregate :=
  let deltas := payload.total (List.range payload.count.toNat)
  ⟨payload.count.toInt64 * payload.minVal + deltas.sum.toInt64,payload.minVal + if payload.count.toNat > 0 then
    deltas.min.toInt64 else 0,
    payload.minVal + if payload.count.toNat > 0 then deltas.max.toInt64
      else 0,payload.count.toNat,17 + payload.packed.length⟩

theorem total_flat (flat : payload.bitWidth = 0) {positions : List Nat} (some_ : positions ≠ []) :
    payload.total positions = Deltas.single 0 := by
  have zero : ∀ i, payload.delta i = 0 := fun i => by
    rw [delta,field,flat,window,Nat.pow_zero,Nat.mod_one]
    rfl
  induction positions with
  | nil => exact absurd rfl some_
  | cons i rest ih =>
    change Deltas.single (payload.delta i) + payload.total rest = _
    rw [zero]
    cases rest with
    | nil => exact add_zero _
    | cons j rest =>
      rw [ih (List.cons_ne_nil _ _)]
      rfl

theorem found_flat (flat : payload.bitWidth = 0) :
    payload.found = ⟨payload.count.toInt64 * payload.minVal,payload.minVal,payload.minVal,payload.count.toNat,17⟩ := by
  have declared := payload.declared
  have none_ : payload.packed.length = 0 := by
    rw [declared,flat,Nat.mul_zero]
  unfold found
  dsimp only
  rw [none_]
  by_cases empty : payload.count.toNat = 0
  · rw [empty,if_neg (Nat.lt_irrefl 0),if_neg (Nat.lt_irrefl 0),Int64.add_zero]
    exact congrArg (fun sum => (⟨sum,payload.minVal,payload.minVal,0,17⟩ : Aggregate)) (Int64.add_zero _)
  · rw [payload.total_flat flat (fun nothing => empty (List.range_eq_nil.mp nothing)),if_pos (Nat.pos_of_ne_zero empty),
      if_pos (Nat.pos_of_ne_zero empty)]
    change (⟨_ + 0,_ + 0,_ + 0,_,_⟩ : Aggregate) = _
    rw [Int64.add_zero,Int64.add_zero]

theorem aggDeltas_eq (allocated : payload.count.toNat * 8 < 2^63) (some_ : 0 < payload.bitWidth) :
    aggDeltas checks payload.packed payload.count.toNat payload.bitWidth (2^payload.bitWidth - 1) =
      if checks = true ∧ (payload.bitWidth = 6 ∨ payload.bitWidth = 7) ∧
        ¬((List.range (payload.count.toNat / 8 * 8)).map payload.field).sum < 2^64 then .error (.fault .wrapped)
      else .ok (payload.total (List.range payload.count.toNat)) := by
  unfold aggDeltas
  by_cases lanes : payload.bitWidth = 6 ∨ payload.bitWidth = 7
  · have same : (checks = true ∧ (payload.bitWidth = 6 ∨ payload.bitWidth = 7) ∧
        ¬((List.range (payload.count.toNat / 8 * 8)).map payload.field).sum < 2^64) ↔
        checks = true ∧ ¬((List.range (payload.count.toNat / 8 * 8)).map payload.field).sum < 2^64 :=
      ⟨fun all => ⟨all.1,all.2.2⟩,fun both => ⟨both.1,lanes,both.2⟩⟩
    simp only [same]
    by_cases six : payload.bitWidth = 6
    · have folded := payload.aggLanes_eq checks allocated lanes fun index _ => rfl
      rw [if_pos six]
      rwa [six] at folded
    · have seven := lanes.resolve_left six
      have folded := payload.aggLanes_eq checks allocated lanes fun index inside => byteAt_inside inside
      rw [if_neg six,if_pos seven]
      rwa [seven] at folded
  · have apart : ¬(checks = true ∧ (payload.bitWidth = 6 ∨ payload.bitWidth = 7) ∧
        ¬((List.range (payload.count.toNat / 8 * 8)).map payload.field).sum < 2^64) := fun all => lanes all.2.1
    rw [if_neg fun six => lanes (Or.inl six),if_neg fun seven => lanes (Or.inr seven),if_neg apart]
    split
    · rename_i eight
      rw [payload.agg8_eq eight]
    · split
      · rename_i few
        rw [payload.agg16_eq some_ few]
      · rw [payload.aggWide_eq]

theorem agg_eq (checks : Bool) (fits : payload.SizesFit) (allocated : payload.count.toNat * 8 < 2^63) :
    (payload.ProductFits checks ∧ payload.LanesFit checks → bitpackAggI64 checks payload.bytes = .ok payload.found) ∧
    (¬(payload.ProductFits checks ∧ payload.LanesFit checks) → bitpackAggI64 checks payload.bytes =
      .error (.fault .wrapped)) := by
  have narrow := payload.narrow
  unfold bitpackAggI64
  rw [if_neg (by rw [length_bytes]; omega),countOf_bytes,widthOf_bytes,minOf_bytes]
  dsimp only
  rw [UInt64.ofNat_toNat]
  by_cases flat : payload.bitWidth = 0
  · have lanes : payload.LanesFit checks := fun _ width => by omega
    rw [if_pos flat,payload.found_flat flat,mulI64]
    constructor
    · rintro ⟨product,-⟩
      cases checks with
      | true =>
        rw [if_pos (product rfl flat)]
        rfl
      | false =>
        rw [overflow,if_neg Bool.false_ne_true,ite_self]
        rfl
    · intro wraps
      have product : ¬payload.ProductFits checks := fun product => wraps ⟨product,lanes⟩
      unfold ProductFits at product
      push Not at product
      obtain ⟨checked,-,atop⟩ := product
      rw [if_neg fun both => Int.not_lt.mpr (atop both.1) both.2,overflow,if_pos checked]
      rfl
  · have product : payload.ProductFits checks := fun _ width => absurd width flat
    have high : 1 <<< payload.bitWidth % 2^64 = 2^payload.bitWidth := by
      rw [Nat.one_shiftLeft,Nat.mod_eq_of_lt (Nat.pow_lt_pow_right (by decide) (by omega))]
    rw [if_neg flat,packedOf_bytes _ _ fits]
    dsimp only [bind,Except.bind]
    rw [shl_small (by omega)]
    dsimp only
    rw [high,payload.aggDeltas_eq allocated (Nat.pos_of_ne_zero flat)]
    constructor
    · rintro ⟨-,lanes⟩
      rw [if_neg fun all => all.2.2 (lanes all.1 all.2.1)]
      rfl
    · intro wraps
      have lanes : ¬payload.LanesFit checks := fun lanes => wraps ⟨product,lanes⟩
      unfold LanesFit at lanes
      push Not at lanes
      rw [if_pos ⟨lanes.1,lanes.2.1,Nat.not_lt.mpr lanes.2.2⟩]

/-! The aggregate that the values themselves have. -/

def aggregate : Aggregate :=
  ⟨payload.values.sum,payload.values.min?.getD payload.minVal,payload.values.max?.getD payload.minVal,
    payload.count.toNat,
    17 + payload.packed.length⟩

theorem sum_values : payload.values.sum =
    payload.count.toInt64 * payload.minVal + (payload.total (List.range payload.count.toNat)).sum.toInt64 := by
  have positions : ∀ positions : List Nat, (positions.map payload.value).sum =
      Int64.ofNat positions.length * payload.minVal + (payload.total positions).sum.toInt64 := by
    intro positions
    induction positions with
    | nil =>
      exact (Int64.add_zero (0 : Int64)).symm.trans (congrArg (· + (0 : Int64))
        (Int64.zero_mul (a := payload.minVal)).symm)
    | cons i rest ih =>
      rw [List.map_cons,List.sum_cons,ih,List.length_cons,Int64.ofNat_add,Int64.add_mul]
      change payload.minVal + (payload.delta i).toInt64 + _ = _ + 1 * payload.minVal +
        (payload.delta i + (payload.total rest).sum).toInt64
      rw [UInt64.toInt64_add,Int64.one_mul]
      grind
  rw [values,positions,List.length_range,← UInt64.toInt64_ofNat',UInt64.ofNat_toNat]

def Wraps (i : Nat) : Prop := 2^63 ≤ payload.minVal.toInt + payload.field i

def OneSide : Prop := (∀ i < payload.count.toNat, ¬payload.Wraps i) ∨ ∀ i < payload.count.toNat, payload.Wraps i

theorem field_small (i : Nat) : payload.field i < 2^63 :=
  Nat.lt_of_lt_of_le (window_lt _ _ _) (Nat.pow_le_pow_right (by decide) payload.narrow)

theorem toInt_plus (delta : UInt64) (small : delta.toNat < 2^63) : (payload.minVal + delta.toInt64).toInt =
    if 2^63 ≤ payload.minVal.toInt + delta.toNat then payload.minVal.toInt + delta.toNat - 2^64
    else payload.minVal.toInt + delta.toNat := by
  have low := payload.minVal.le_toInt
  have high := payload.minVal.toInt_lt
  have here : delta.toInt64.toInt = delta.toNat := by
    have cast : delta.toInt64 = Int64.ofNat delta.toNat := by rw [← UInt64.toInt64_ofNat',UInt64.ofNat_toNat]
    rw [cast,Int64.toInt_ofNat_of_lt small]
  rw [Int64.toInt_add,here]
  split
  · rename_i wraps
    exact (Int.bmod_eq_iff (by decide)).mpr ⟨by omega,by omega,by omega⟩
  · exact Int.bmod_eq_of_le (by omega) (by omega)

theorem toInt_value (i : Nat) : (payload.value i).toInt =
    if 2^63 ≤ payload.minVal.toInt + payload.field i then payload.minVal.toInt + payload.field i - 2^64
    else payload.minVal.toInt + payload.field i := by
  have here : (payload.delta i).toNat = payload.field i := UInt64.toNat_ofNat_of_lt' (payload.field_lt i)
  have plus := payload.toInt_plus (payload.delta i) (here.symm ▸ payload.field_small i)
  rwa [here] at plus

theorem value_le (side : payload.OneSide) {i j : Nat} (inside : i < payload.count.toNat)
    (inside' : j < payload.count.toNat)
    (less : payload.field i ≤ payload.field j) : payload.value i ≤ payload.value j := by
  rw [Int64.le_iff_toInt_le,toInt_value,toInt_value]
  rcases side with below | above
  · have first := below i inside
    have second := below j inside'
    unfold Wraps at first second
    rw [if_neg first,if_neg second]
    omega
  · have first := above i inside
    have second := above j inside'
    unfold Wraps at first second
    rw [if_pos first,if_pos second]
    omega

theorem total_bounds (positions : List Nat) (some_ : positions ≠ []) :
    (∃ i ∈ positions, (payload.total positions).min = payload.delta i ∧ ∀ j ∈ positions,
      payload.field i ≤ payload.field j) ∧
    ∃ i ∈ positions, (payload.total positions).max = payload.delta i ∧ ∀ j ∈ positions,
    payload.field j ≤ payload.field i := by
  induction positions with
  | nil => exact absurd rfl some_
  | cons i rest ih =>
    have toNat : ∀ k, (payload.delta k).toNat = payload.field k :=
      fun k => UInt64.toNat_ofNat_of_lt' (payload.field_lt k)
    have split : payload.total (i :: rest) = Deltas.single (payload.delta i) + payload.total rest := rfl
    by_cases last : rest = []
    · subst last
      have alone : payload.total [i] = Deltas.single (payload.delta i) := split.trans (add_zero _)
      rw [alone]
      exact ⟨⟨i,List.mem_cons_self,rfl,fun j member => by rw [List.mem_singleton.mp member]⟩,
        ⟨i,List.mem_cons_self,rfl,fun j member => by rw [List.mem_singleton.mp member]⟩⟩
    · obtain ⟨⟨a,inside,min_,least⟩,b,inside',max_,greatest⟩ := ih last
      rw [split]
      constructor
      · have min : (Deltas.single (payload.delta i) + payload.total rest).min.toNat =
          Min.min (payload.field i) (payload.field a) := by
          rw [Deltas.min_add,min_,toNat]
          exact congrArg (Min.min · _) (toNat i)
        rcases Nat.le_total (payload.field i) (payload.field a) with less | more
        · refine ⟨i,List.mem_cons_self,UInt64.toNat_inj.mp (by rw [min,toNat,Nat.min_eq_left less]),fun j member => ?_⟩
          rcases List.mem_cons.mp member with rfl | later
          · exact Nat.le_refl _
          · exact Nat.le_trans less (least j later)
        · refine ⟨a,List.mem_cons_of_mem _ inside,UInt64.toNat_inj.mp (by rw [min,toNat,Nat.min_eq_right more]),
            fun j member => ?_⟩
          rcases List.mem_cons.mp member with rfl | later
          · exact more
          · exact least j later
      · have max : (Deltas.single (payload.delta i) + payload.total rest).max.toNat =
          Max.max (payload.field i) (payload.field b) := by
          rw [Deltas.max_add,max_,toNat]
          exact congrArg (Max.max · _) (toNat i)
        rcases Nat.le_total (payload.field b) (payload.field i) with less | more
        · refine ⟨i,List.mem_cons_self,UInt64.toNat_inj.mp (by rw [max,toNat,Nat.max_eq_left less]),fun j member => ?_⟩
          rcases List.mem_cons.mp member with rfl | later
          · exact Nat.le_refl _
          · exact Nat.le_trans (greatest j later) less
        · refine ⟨b,List.mem_cons_of_mem _ inside',UInt64.toNat_inj.mp (by rw [max,toNat,Nat.max_eq_right more]),
            fun j member => ?_⟩
          rcases List.mem_cons.mp member with rfl | later
          · exact more
          · exact greatest j later

instance : Std.MaxEqOr Int64 where
  max_eq_or a b := by
    change (if a ≤ b then b else a) = a ∨ (if a ≤ b then b else a) = b
    split
    · exact Or.inr rfl
    · exact Or.inl rfl

theorem found_eq (side : payload.OneSide) : payload.found = payload.aggregate := by
  unfold found aggregate
  rw [payload.sum_values]
  dsimp only
  by_cases empty : payload.count.toNat = 0
  · have none_ : payload.values = [] := by rw [values,empty]; rfl
    rw [none_,if_neg (by omega),if_neg (by omega),Int64.add_zero]
    rfl
  · obtain ⟨⟨i,inside,min,least⟩,j,inside',max,greatest⟩ :=
      payload.total_bounds (List.range payload.count.toNat) fun nothing => empty (List.range_eq_nil.mp nothing)
    have first : payload.values.min? = some (payload.value i) := by
      refine List.min?_eq_some_iff.mpr ⟨List.mem_map_of_mem inside,fun value member => ?_⟩
      obtain ⟨k,there,rfl⟩ := List.mem_map.mp member
      exact payload.value_le side (List.mem_range.mp inside) (List.mem_range.mp there) (least k there)
    have last : payload.values.max? = some (payload.value j) := by
      refine List.max?_eq_some_iff.mpr ⟨List.mem_map_of_mem inside',fun value member => ?_⟩
      obtain ⟨k,there,rfl⟩ := List.mem_map.mp member
      exact payload.value_le side (List.mem_range.mp there) (List.mem_range.mp inside') (greatest k there)
    rw [first,last,if_pos (Nat.pos_of_ne_zero empty),if_pos (Nat.pos_of_ne_zero empty),min,max]
    rfl

theorem side_of_found (same : payload.found = payload.aggregate) : payload.OneSide := by
  by_contra both
  unfold OneSide at both
  push Not at both
  obtain ⟨⟨i,inside,wraps⟩,j,inside',stays⟩ := both
  obtain ⟨⟨k,there,min,least⟩,-⟩ :=
    payload.total_bounds (List.range payload.count.toNat) fun nothing => by
      have none_ := List.range_eq_nil.mp nothing
      omega
  have mins : payload.minVal + (payload.delta k).toInt64 = payload.values.min?.getD payload.minVal := by
    have := congrArg Aggregate.min same
    unfold found aggregate at this
    dsimp only at this
    rwa [if_pos (by omega),min] at this
  have member : payload.value i ∈ payload.values := List.mem_map_of_mem (List.mem_range.mpr inside)
  -- the least value is at most the one that wraps, which lies below the header's least value
  have below : (payload.value k).toInt ≤ (payload.value i).toInt := by
    rw [← Int64.le_iff_toInt_le]
    change payload.minVal + (payload.delta k).toInt64 ≤ _
    rw [mins]
    cases found_ : payload.values.min? with
    | none => exact absurd (List.min?_eq_none_iff.mp found_) (List.ne_nil_of_mem member)
    | some value => exact (List.min?_eq_some_iff.mp found_).2 _ member
  have less := least j (List.mem_range.mpr inside')
  have small := payload.field_small i
  unfold Wraps at wraps stays
  rw [toInt_value,toInt_value,if_pos wraps,if_neg (by omega)] at below
  omega

theorem reader_yields : Reader.Yields Column.bitpackDecodeI64 (leBytes 8 payload.count.toNat ++
    (leBytes 1 payload.bitWidth ++
    (leBytes 8 payload.minVal.toUInt64.toNat ++ payload.packed))) (.ok payload.values) := by
  have narrow := payload.narrow
  refine Reader.yields_then (Reader.yields_word _ 8 _ (UInt64.toNat_lt _)) ?_
  refine Reader.yields_then (Reader.yields_word _ 1 _ (by omega)) ?_
  refine Reader.yields_then (Reader.yields_word _ 8 _ (UInt64.toNat_lt _)) ?_
  refine Reader.yields_last (Reader.yields_exactly _ payload.declared) ?_
  rw [UInt64.ofNat_toNat,Int64.toInt64_toUInt64,payload.fill]

structure ReadersAgree (checks : Bool) : Prop where
  decoded : bitpackDecodeI64 payload.bytes = .ok (payload.values,17 + payload.packed.length)
  at_idx : ∀ idx, bitpackDecodeAtIdx payload.bytes idx = if idx < payload.count.toNat then .ok (payload.value idx)
    else .error (.error ())
  bits : ∀ i < payload.count.toNat, bitpackReadBits checks payload.packed (i * payload.bitWidth) payload.bitWidth =
    .ok (payload.field i)
  counted : ∀ low high, bitpackCountInRange checks payload.bytes low high =
    .ok (payload.values.countP (inRange low high))
  aggregated : bitpackAggI64 checks payload.bytes = .ok payload.aggregate

structure Regular (checks : Bool) : Prop where
  sizes : payload.SizesFit
  allocated : payload.count.toNat * 8 < 2^63
  readable : ∀ i < payload.count.toNat, payload.Readable checks i
  product : payload.ProductFits checks
  lanes : payload.LanesFit checks
  side : payload.OneSide

theorem readers_iff : payload.ReadersAgree checks ↔ payload.Regular checks := by
  constructor
  · intro agree
    have sized : payload.SizesFit ∧ payload.count.toNat * 8 < 2^63 := by
      by_contra refused
      exact payload.not_decoded refused _ agree.decoded
    have exact_ := payload.agg_eq checks sized.1 sized.2
    have fits : payload.ProductFits checks ∧ payload.LanesFit checks := by
      by_contra wraps
      exact nomatch (exact_.2 wraps).symm.trans agree.aggregated
    exact ⟨sized.1,sized.2,fun i inside => (payload.read_iff inside).mp (agree.bits i inside),fits.1,fits.2,
      payload.side_of_found (Except.ok.inj ((exact_.1 fits).symm.trans agree.aggregated))⟩
  · intro regular
    refine ⟨payload.decoded regular.sizes regular.allocated,payload.at_idx regular.sizes,
      fun i inside => (payload.read_iff inside).mpr (regular.readable i inside),
        payload.counted regular.sizes regular.readable,?_⟩
    rw [← payload.found_eq regular.side]
    exact (payload.agg_eq checks regular.sizes regular.allocated).1 ⟨regular.product,regular.lanes⟩

end Payload

theorem encoded_payload {data : List Int64} {bytes : Bytes} (small : data.length * 8 < 2^63)
    (encoded : bitpackEncodeI64 data = some bytes) :
    ∃ payload : Payload, payload.bytes = bytes ∧ payload.values = data ∧ payload.rest = [] := by
  obtain ⟨minVal,bitWidth,-,narrow,-,-,length,shape⟩ := bitpackEncodeI64_some encoded
  have yields := bitpackEncodeI64_yields small encoded
  generalize packFields bitWidth 0 (data.map fun val => (val - minVal).toUInt64.toNat)
    (List.replicate ((data.length * bitWidth + 7) / 8) 0) =
    packed at shape
  have count : (UInt64.ofNat data.length).toNat = data.length :=
    UInt64.toNat_ofNat_of_lt' (show data.length < 2^64 by omega)
  have packedLength : packed.length = (data.length * bitWidth + 7) / 8 := by
    rw [shape] at length
    simp only [List.length_append,length_leBytes] at length
    omega
  have bound : data.length * bitWidth ≤ data.length * 47 := Nat.mul_le_mul_left _ (by omega)
  let payload : Payload := ⟨UInt64.ofNat data.length,bitWidth,minVal,packed,[],by omega,by rw [packedLength,count],by
    rw [List.length_nil]
    omega⟩
  have bytes_ : payload.bytes = bytes := by
    rw [shape,Payload.bytes,count,List.append_nil]
  have own := payload.reader_yields []
  have given_ := yields []
  have same : leBytes 8 payload.count.toNat ++ (leBytes 1 payload.bitWidth ++
    (leBytes 8 payload.minVal.toUInt64.toNat ++ payload.packed)) = bytes := by
    rw [← bytes_,Payload.bytes,List.append_nil]
  rw [same,given_] at own
  exact ⟨payload,bytes_,(Prod.mk.inj (Except.ok.inj own)).1.symm,rfl⟩

/-- The decoder inverts the encoder, and all readers agree, exactly where no size, product, lane sum or value wraps and
no value needs a ninth byte. -/
theorem bitpack_readers_iff (checks : Bool) :
    (∀ data bytes, data.length * 8 < 2^63 → bitpackEncodeI64 data = some bytes →
      (bitpackDecodeI64 bytes = .ok (data,bytes.length) ↔ data.length * widthOf bytes + 7 < 2^64)) ∧
    ∀ payload : Payload, payload.ReadersAgree checks ↔ payload.Regular checks := by
  refine ⟨fun data bytes small encoded => ?_,fun payload => payload.readers_iff⟩
  obtain ⟨payload,rfl,rfl,nothing⟩ := encoded_payload small encoded
  have count : payload.values.length = payload.count.toNat := by rw [Payload.values,List.length_map,List.length_range]
  have whole : payload.bytes.length =
    17 + payload.packed.length := by rw [payload.length_bytes,nothing,List.length_nil,Nat.add_zero]
  rw [whole,count,payload.widthOf_bytes]
  rw [count] at small
  constructor
  · intro decoded
    by_contra wraps
    exact payload.not_decoded (fun both => wraps both.1) _ decoded
  · exact fun fits => payload.decoded fits small

def twoSmall : Payload := ⟨2,3,10,[0x38],[],by decide,by decide,by decide⟩

theorem two_small_agree : twoSmall.ReadersAgree true :=
  ((bitpack_readers_iff true).2 twoSmall).mpr ⟨show 2 * 3 + 7 < 2^64 by decide,show 2 * 8 < 2^63 by decide,
    fun _ inside => Or.inl (Nat.le_trans (Nat.add_le_add_right (Nat.le_of_lt_succ (Nat.mod_lt _ (by decide))) 3)
      (by decide)),
    fun _ flat => absurd flat (by decide),fun _ lanes => absurd lanes (by decide),
    Or.inl fun i inside => by
      have cases_ : i = 0 ∨ i = 1 := by
        have two : i < 2 := inside
        omega
      rcases cases_ with rfl | rfl
      · exact show ¬(2^63 : Int) ≤ 10 + 0 by decide
      · exact show ¬(2^63 : Int) ≤ 10 + 7 by decide⟩

def ninthByte : Payload := ⟨2,63,0,[0,0,0,0,0,0,0,0,0,0,0,0,0,0,0,0x20],[],by decide,by decide,by decide⟩

def acrossTheEnd : Payload := ⟨2,1,Int64.maxValue,[2],[],by decide,by decide,by decide⟩

theorem ninth_byte_is_lost : bitpackReadBits false ninthByte.packed 63 63 = .ok 0 ∧
    bitpackReadBits true ninthByte.packed 63 63 = .error (.fault .wrapped) ∧
    ninthByte.field 1 = 2^62 ∧ acrossTheEnd.values = [Int64.maxValue,Int64.minValue] ∧
    (∀ checks, ¬ninthByte.ReadersAgree checks) ∧ ∀ checks, ¬acrossTheEnd.ReadersAgree checks := by
  have lost : bitpackReadBits false ninthByte.packed 63 63 = .ok 0 := rfl
  have shifted : bitpackReadBits true ninthByte.packed 63 63 = .error (.fault .wrapped) := rfl
  have plain : ninthByte.field 1 = 2^62 := by decide +kernel
  refine ⟨lost,shifted,plain,by decide +kernel,fun checks agree => ?_,fun checks agree => ?_⟩
  · have read : bitpackReadBits checks ninthByte.packed 63 63 = .ok (ninthByte.field 1) := agree.bits 1 (by decide)
    rw [plain] at read
    cases checks with
    | true => exact nomatch shifted.symm.trans read
    | false => exact absurd (Except.ok.inj (lost.symm.trans read)) (by decide)
  · have least : acrossTheEnd.aggregate.min = Int64.minValue := by decide +kernel
    have ran : bitpackAggI64 checks acrossTheEnd.bytes = .ok acrossTheEnd.found := by
      cases checks with
      | true => rfl
      | false => rfl
    have same := congrArg Aggregate.min (Except.ok.inj (ran.symm.trans agree.aggregated))
    rw [least] at same
    exact absurd same (by decide +kernel)

end ApexBase.Column.Bitpack
