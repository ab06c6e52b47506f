import ApexBase.Library.Assoc
import ApexBase.Scaling.Partition

/-! The shards of each table and the catalog they are saved in (`scaling/shard.rs`). A map keeps its
iteration order; the order in which a saved catalog comes back is the hash map's own and belongs to
the load. -/
namespace ApexBase.Scaling
open Library.Assoc

inductive ShardStatus
  | active | creating | splitting | merging | migrating | readOnly | offline
  deriving DecidableEq

structure ShardMeta where
  id : ShardId
  tableName : String
  status : ShardStatus
  deriving DecidableEq

namespace ShardMeta

def isReadable (shard : ShardMeta) : Bool := shard.status = .active || shard.status = .readOnly

def isWritable (shard : ShardMeta) : Bool := shard.status = .active

end ShardMeta

structure ShardManager where
  shards : Map ShardId ShardMeta
  tableShards : Map String (List ShardId)
  dirty : Bool

/-- What the process and the disk hold: the manager, the next shard id and the saved catalog. -/
structure Node where
  manager : ShardManager
  nextShardId : UInt32
  catalog : Option (Map ShardId ShardMeta)

namespace ShardManager

def new : ShardManager := ⟨∅,∅,false⟩

def pushShard (tables : Map String (List ShardId)) (tableName : String) (id : ShardId) : Map String (List ShardId) :=
  tables.insert tableName ((tables.lookup tableName).getD [] ++ [id])

def tableIds (manager : ShardManager) (tableName : String) : List ShardId :=
  (manager.tableShards.lookup tableName).getD []

def getTableShards (manager : ShardManager) (tableName : String) : List ShardMeta :=
  (manager.tableIds tableName).filterMap fun id => manager.shards.lookup id

def getWritableShards (manager : ShardManager) (tableName : String) : List ShardMeta :=
  (manager.getTableShards tableName).filter ShardMeta.isWritable

def setShardStatus (manager : ShardManager) (shardId : ShardId) (status : ShardStatus) : Option ShardManager :=
  (manager.shards.lookup shardId).map fun shard =>
    ⟨manager.shards.insert shardId {shard with status := status},manager.tableShards,true⟩

def groupByTable (shards : Map ShardId ShardMeta) (order : List ShardId) : Map String (List ShardId) :=
  order.foldl (fun tables id =>
    match shards.lookup id with
    | some shard => pushShard tables shard.tableName id
    | none => tables) ∅

end ShardManager

namespace Node

def started : Node := ⟨.new,1,none⟩

/-- Two ids are taken: one names the data file of the shard, the next is its id. -/
def createShard (node : Node) (tableName : String) : Node :=
  let id := node.nextShardId + 1
  ⟨⟨node.manager.shards.insert id ⟨id,tableName,.active⟩,ShardManager.pushShard node.manager.tableShards tableName id,
    true⟩,
    node.nextShardId + 2,node.catalog⟩

def setShardStatus (node : Node) (shardId : ShardId) (status : ShardStatus) : Node :=
  match node.manager.setShardStatus shardId status with
  | some manager => {node with manager := manager}
  | none => node

def save (node : Node) : Node :=
  if node.manager.dirty then ⟨{node.manager with dirty := false},node.nextShardId,some node.manager.shards⟩ else node

/-- Opening the saved catalog, in the running process or, with the id counter back at
its start, in a new one. -/
def load (node : Node) (restarted : Bool) (order : List ShardId) : Node :=
  let nextShardId := if restarted then 1 else node.nextShardId
  match node.catalog with
  | none => ⟨.new,nextShardId,none⟩
  | some shards => ⟨⟨shards,ShardManager.groupByTable shards order,false⟩,nextShardId,some shards⟩

end Node

namespace ShardManager

theorem lookup_pushShard (tables : Map String (List ShardId)) (tableName : String) (id : ShardId) (other : String) :
    ((pushShard tables tableName id).lookup other).getD [] =
      (tables.lookup other).getD [] ++ if other = tableName then [id] else [] := by
  unfold pushShard
  by_cases same : other = tableName
  · subst same
    simp
  · rw [AList.lookup_insert_ne same,if_neg same,List.append_nil]

theorem lookup_groupByTable (shards : Map ShardId ShardMeta) (order : List ShardId) (tableName : String) :
    ((groupByTable shards order).lookup tableName).getD [] =
      order.filter fun id => decide ((shards.lookup id).map (·.tableName) = some tableName) := by
  suffices general : ∀ tables : Map String (List ShardId),
      ((order.foldl (fun tables id =>
        match shards.lookup id with
        | some shard => pushShard tables shard.tableName id
        | none => tables) tables).lookup tableName).getD [] =
      (tables.lookup tableName).getD [] ++
        order.filter fun id => decide ((shards.lookup id).map (·.tableName) = some tableName) by
    have fromEmpty := general ∅
    rw [AList.lookup_empty,Option.getD_none,List.nil_append] at fromEmpty
    exact fromEmpty
  induction order with
  | nil => simp
  | cons id order ih =>
    intro tables
    rw [List.foldl_cons,ih,List.filter_cons]
    cases found : shards.lookup id with
    | none => simp
    | some shard =>
      rw [lookup_pushShard]
      by_cases same : tableName = shard.tableName
      · simp [same]
      · simp [same,Ne.symm same]

end ShardManager

end ApexBase.Scaling
