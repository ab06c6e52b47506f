import ApexBase.Column.Payload
import ApexBase.Library.Binary64
import ApexBase.Library.Checked
import ApexBase.Library.Lanes

/-! The readers of a bit-packed column, `storage/on_demand/mod.rs`. Where a plain operator overflows, a build
with overflow checks panics and a release build goes on with the bits that are left. -/
namespace ApexBase.Column.Bitpack
open Data Library Library.Wire Library.Checked

@[ext] structure Deltas where
  sum : UInt64
  min : UInt64
  max : UInt64

namespace Deltas

def single (delta : UInt64) : Deltas := ⟨delta,delta,delta⟩

instance : Zero Deltas := ⟨⟨0,UInt64.ofNat (2^64 - 1),0⟩⟩

instance : Add Deltas := ⟨fun a b => ⟨a.sum + b.sum,Min.min a.min b.min,Max.max a.max b.max⟩⟩

def push (deltas : Deltas) (delta : UInt64) :
    Deltas := ⟨deltas.sum + delta,Min.min deltas.min delta,Max.max deltas.max delta⟩

end Deltas

section Operators
variable {ε : Type} (checks : Bool)

def overflow {α : Type} (value : α) : Checked ε α := if checks then .error (.fault .wrapped) else .ok value

def addU64 (a b : UInt64) : Checked ε UInt64 := if a.toNat + b.toNat < 2^64 then .ok (a + b)
    else overflow checks (a + b)

def sumU64 (items : List UInt64) : Checked ε UInt64 := items.foldlM (addU64 checks) 0

def mulI64 (a b : Int64) : Checked ε Int64 :=
  if -2^63 ≤ a.toInt * b.toInt ∧ a.toInt * b.toInt < 2^63 then .ok (a * b) else overflow checks (a * b)

/-- `value << places`, which only looks at the low six bits of `places` in a release build. -/
def shl (value places : Nat) : Checked ε Nat :=
  if places < 64 then .ok (value <<< places % 2^64) else overflow checks (value <<< (places % 64) % 2^64)

end Operators

section Readers
variable {ε : Type} (checks : Bool) (bytes : Bytes)

def countOf : Nat := ofLe (bytes.take 8)

def widthOf : Nat := ofLe ((bytes.drop 8).take 1)

def minOf : Int64 := (UInt64.ofNat (ofLe ((bytes.drop 9).take 8))).toInt64

def packedOf (truncated : ε) : Checked ε (Bytes × Nat) := do
  let packedBits ← mul (countOf bytes) (widthOf bytes)
  let rounded ← add packedBits 7
  let stop ← add 17 (rounded / 8)
  if bytes.length < stop then .error (.error truncated)
  else do
    let packed ← slice bytes 17 stop
    pure (packed,stop)

def bitpackDecodeI64 : Checked IoError (List Int64 × Nat) :=
  if bytes.length < 17 then .error (.error (errData "BitPack Int64: truncated header"))
  else do
    let (packed,stop) ← packedOf bytes (errData "BitPack Int64: truncated packed data")
    alloc (countOf bytes) 8
    pure (bitpackFill packed (countOf bytes) (widthOf bytes) (minOf bytes),stop)

def bitpackDecodeAtIdx (idx : Nat) : Checked Unit Int64 :=
  if bytes.length < 17 then .error (.error ())
  else if idx ≥ countOf bytes then .error (.error ())
  else if widthOf bytes = 0 then .ok (minOf bytes)
  else do
    let (packed,_) ← packedOf bytes ()
    pure (minOf bytes + (UInt64.ofNat (unpackBits packed (widthOf bytes) idx)).toInt64)

structure Header where
  count : Nat
  bitWidth : Nat
  minVal : Int64
  packed : Bytes

def bitpackHeader : Checked Unit Header :=
  if bytes.length < 17 then .error (.error ())
  else if widthOf bytes > 63 then .error (.error ())
  else do
    let (packed,_) ← packedOf bytes ()
    pure ⟨countOf bytes,widthOf bytes,minOf bytes,packed⟩

def byteAt (packed : Bytes) (index : Nat) : Checked Unit Nat :=
  match packed[index]? with
  | some byte => .ok byte.toNat
  | none => .error (.fault .outside)

def bitpackReadBits (packed : Bytes) (bitPos bitWidth : Nat) : Checked Unit Nat :=
  if bitWidth = 0 then .ok 0
  else if bitWidth > 63 then .error (.error ())
  else
    let byte := bitPos / 8
    let shift := bitPos % 8
    let needed := (shift + bitWidth + 7) / 8
    if byte + needed > packed.length then .error (.error ())
    else do
      let word ← (List.range needed).foldlM (fun word k => do
        let here ← byteAt packed (byte + k)
        let shifted ← shl checks here (8 * k)
        pure (word ||| shifted)) 0
      pure ((word >>> shift) &&& (2^bitWidth - 1))

/-- `value as f64` lies between the bounds. -/
def inRange (low high : UInt64) (value : Int64) : Bool :=
  (Binary64.partialCmp value.toFloat.toBits low).any (· != .lt) &&
    (Binary64.partialCmp value.toFloat.toBits high).any (· != .gt)

def countLoop (low high : UInt64) (header : Header) : Nat → Nat → Nat → Checked Unit Nat
  | 0,_,matched => .ok matched
  | rest + 1,bitPos,matched => do
    let delta ← bitpackReadBits checks header.packed bitPos header.bitWidth
    let matched := if inRange low high (header.minVal + (UInt64.ofNat delta).toInt64) then matched + 1 else matched
    let bitPos ← add bitPos header.bitWidth
    countLoop low high header rest bitPos matched

def bitpackCountInRange (low high : UInt64) : Checked Unit Nat := do
  let header ← bitpackHeader bytes
  if header.bitWidth = 0 then pure (if inRange low high header.minVal then header.count else 0)
  else countLoop checks low high header header.count 0 0

section Loops
variable (packed : Bytes) (count : Nat)

def byteOrZero (index : Nat) : Nat := (packed[index]?.getD 0).toNat

/-- The eight values of group `g`, each in a lane of its own. -/
def pushGroup (bitWidth : Nat) (lanes : Nat → Deltas) (g : Nat) : Nat → Deltas :=
  let word := ofLe ((packed.drop (g * bitWidth)).take bitWidth)
  fun k => (lanes k).push (UInt64.ofNat ((word >>> (k * bitWidth)) &&& (2^bitWidth - 1)))

/-- Eight values at a time, then one value after the other from two bytes. -/
def aggLanes (bitWidth : Nat) (first : Nat → Checked Unit Nat) : Checked Unit Deltas := do
  let nFull := count / 8
  let groups := (List.range nFull).takeWhile fun g => g * bitWidth + bitWidth ≤ packed.length
  let lanes := groups.foldl (pushGroup packed bitWidth) fun _ => 0
  let sums := (List.range 8).map lanes
  let sumDelta ← sumU64 checks (sums.map Deltas.sum)
  let merged : Deltas := ⟨sumDelta,(sums.map Deltas.min).min?.getD (UInt64.ofNat (2^64 - 1)),
    (sums.map Deltas.max).max?.getD 0⟩
  (List.range' (nFull * 8) (count - nFull * 8)).foldlM (fun deltas i => do
    let b0 ← first (i * bitWidth / 8)
    let b1 := byteOrZero packed (i * bitWidth / 8 + 1)
    pure (deltas.push (UInt64.ofNat (((b0 ||| b1 <<< 8) >>> (i * bitWidth % 8)) &&& (2^bitWidth - 1))))) merged

def agg6 : Checked Unit Deltas := aggLanes checks packed count 6 fun index => .ok (byteOrZero packed index)

def agg7 : Checked Unit Deltas := aggLanes checks packed count 7 (byteAt packed)

def agg8 : Deltas := (packed.take count).foldl (fun deltas byte => deltas.push byte.toUInt64) 0

def agg16 (bitWidth mask : Nat) : Deltas :=
  ((List.range count).takeWhile fun i => i * bitWidth / 8 < packed.length).foldl (fun deltas i =>
    deltas.push (UInt64.ofNat ((ofLe ((packed.drop (i * bitWidth / 8)).take 3) >>> (i * bitWidth % 8)) &&& mask))) 0

def aggWide (bitWidth : Nat) : Deltas :=
  (List.range count).foldl (fun deltas i => deltas.push (UInt64.ofNat (unpackBits packed bitWidth i))) 0

def aggDeltas (bitWidth mask : Nat) : Checked Unit Deltas :=
  if bitWidth = 6 then agg6 checks packed count
  else if bitWidth = 7 then agg7 checks packed count
  else if bitWidth = 8 then .ok (agg8 packed count)
  else if bitWidth ≤ 16 then .ok (agg16 packed count bitWidth mask)
  else .ok (aggWide packed count bitWidth)

end Loops

structure Aggregate where
  sum : Int64
  min : Int64
  max : Int64
  count : Nat
  consumed : Nat

def bitpackAggI64 : Checked Unit Aggregate :=
  if bytes.length < 17 then .error (.error ())
  else
    let count := countOf bytes
    let bitWidth := widthOf bytes
    let minVal := minOf bytes
    let asI64 := (UInt64.ofNat count).toInt64
    if bitWidth = 0 then do
      let sum ← mulI64 checks asI64 minVal
      pure ⟨sum,minVal,minVal,count,17⟩
    else do
      let (packed,stop) ← packedOf bytes ()
      let high ← shl checks 1 bitWidth
      let deltas ← aggDeltas checks packed count bitWidth (high - 1)
      pure ⟨asI64 * minVal + deltas.sum.toInt64,minVal + if count > 0 then deltas.min.toInt64 else 0,
        minVal + if count > 0 then deltas.max.toInt64 else 0,count,stop⟩

end Readers

end ApexBase.Column.Bitpack
