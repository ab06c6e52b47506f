import Mathlib.Data.String.Basic
import Mathlib.Data.UInt
import Mathlib.Data.List.Lex
import Mathlib.Order.Basic

/-! Partition keys and the strategies that turn a key into a shard index
(`scaling/partition.rs`). The hash of a key is some function, which a process fixes when it starts. -/
namespace ApexBase.Scaling

abbrev ShardId := UInt32

inductive PartitionKey
  | int (value : Int64)
  | uint (value : UInt64)
  | str (value : String)
  | bytes (value : List UInt8)
  | composite (parts : List PartitionKey)

def keyLessThan : PartitionKey → PartitionKey → Bool
  | .int a,.int b => a < b
  | .uint a,.uint b => a < b
  | .str a,.str b => a < b
  | .bytes a,.bytes b => a < b
  | _,_ => false

/-- The order within one key variant. Composite keys are not ordered by the code, so any two of them
count as in order. -/
def keyAtMost : PartitionKey → PartitionKey → Prop
  | .int a,.int b => a ≤ b
  | .uint a,.uint b => a ≤ b
  | .str a,.str b => a ≤ b
  | .bytes a,.bytes b => a ≤ b
  | .composite _,.composite _ => True
  | _,_ => False

theorem keyLessThan_of_atMost {low key bound : PartitionKey} (ordered : keyAtMost low key)
    (below : keyLessThan key bound = true) : keyLessThan low bound = true := by
  cases key with
  | int value =>
    cases bound <;> simp only [keyLessThan,decide_eq_true_eq,Bool.false_eq_true] at below
    cases low <;> simp only [keyAtMost] at ordered
    simpa only [keyLessThan,decide_eq_true_eq] using Int64.lt_of_le_of_lt ordered below
  | uint value =>
    cases bound <;> simp only [keyLessThan,decide_eq_true_eq,Bool.false_eq_true] at below
    cases low <;> simp only [keyAtMost] at ordered
    simpa only [keyLessThan,decide_eq_true_eq] using UInt64.lt_of_le_of_lt ordered below
  | str value =>
    cases bound <;> simp only [keyLessThan,decide_eq_true_eq,Bool.false_eq_true] at below
    cases low <;> simp only [keyAtMost] at ordered
    simpa only [keyLessThan,decide_eq_true_eq] using lt_of_le_of_lt ordered below
  | bytes value =>
    cases bound <;> simp only [keyLessThan,decide_eq_true_eq,Bool.false_eq_true] at below
    cases low <;> simp only [keyAtMost] at ordered
    simpa only [keyLessThan,decide_eq_true_eq] using List.lt_of_le_of_lt ordered below
  | composite parts => cases bound <;> simp only [keyLessThan,Bool.false_eq_true] at below

structure HashPartitioner where
  /-- From hash to shard, by ascending hash. Both constructors leave it empty. -/
  ring : Option (List (UInt64 × ShardId))

structure RangePartitioner where
  boundaries : List PartitionKey

inductive PartitionStrategy
  | hash (partitioner : HashPartitioner)
  | range (partitioner : RangePartitioner)

namespace HashPartitioner

def new : HashPartitioner := ⟨none⟩

def ringLookup (partitioner : HashPartitioner) (hash : UInt64) : ShardId :=
  match partitioner.ring with
  | some ring => (((ring.find? fun node => decide (hash ≤ node.1)).or ring.head?).map (·.2)).getD 0
  | none => 0

def route (hashValue : PartitionKey → UInt64) (partitioner : HashPartitioner) (key : PartitionKey)
    (shardCount : UInt32) : ShardId :=
  if shardCount ≤ 1 then 0
  else
    match partitioner.ring with
    | some _ => partitioner.ringLookup (hashValue key)
    | none => (hashValue key % shardCount.toUInt64).toUInt32

end HashPartitioner

namespace RangePartitioner

/-- The first boundary above the key, the number of boundaries if there is none. -/
def shardIndex (partitioner : RangePartitioner) (key : PartitionKey) :
    Nat := partitioner.boundaries.findIdx (keyLessThan key)

def route (partitioner : RangePartitioner) (key : PartitionKey) : ShardId := UInt32.ofNat (partitioner.shardIndex key)

def routeRange (partitioner : RangePartitioner) (low high : PartitionKey) : List ShardId :=
  let startShard := (partitioner.route low).toNat
  let endShard := (partitioner.route high).toNat
  ((List.range (endShard + 1)).drop startShard).map UInt32.ofNat

theorem shardIndex_mono (partitioner : RangePartitioner) {low key : PartitionKey} (ordered : keyAtMost low key) :
    partitioner.shardIndex low ≤ partitioner.shardIndex key := by
  unfold shardIndex
  rcases Nat.lt_or_ge (partitioner.boundaries.findIdx (keyLessThan key))
    partitioner.boundaries.length with found | missing
  · by_contra later
    have below : keyLessThan key partitioner.boundaries[partitioner.boundaries.findIdx (keyLessThan key)] = true :=
      List.findIdx_getElem
    have above := List.not_of_lt_findIdx (Nat.lt_of_not_le later)
    exact absurd (keyLessThan_of_atMost ordered below) (by simpa using above)
  · exact le_trans List.findIdx_le_length missing

end RangePartitioner

namespace PartitionStrategy

variable (hashValue : PartitionKey → UInt64)

def route (strategy : PartitionStrategy) (key : PartitionKey) (shardCount : UInt32) : ShardId :=
  match strategy with
  | .hash partitioner => partitioner.route hashValue key shardCount
  | .range partitioner => partitioner.route key

def routeRange (strategy : PartitionStrategy) (low high : PartitionKey) : Option (List ShardId) :=
  match strategy with
  | .hash _ => none
  | .range partitioner => some (partitioner.routeRange low high)

def fits (strategy : PartitionStrategy) (shards : Nat) : Bool :=
  match strategy with
  | .hash _ => true
  | .range partitioner => decide (partitioner.boundaries.length < shards)

end PartitionStrategy

end ApexBase.Scaling
