import ApexBase.Library.Run
import ApexBase.Scaling.Shard

/-! Routing of reads and writes to shards (`scaling/router.rs`), and what it guarantees along a run:
a key is read from the shard it was written to as long as no table of several shards has one that is
not active. -/
namespace ApexBase.Scaling
open Library Library.Assoc

inductive RoutingDecision
  | singleShard (shardId : ShardId)
  | multiShard (shardIds : List ShardId)
  | allShards (shardIds : List ShardId)
  | local
  deriving DecidableEq

def RoutingDecision.shardIds : RoutingDecision → List ShardId
  | .singleShard shardId => [shardId]
  | .multiShard shardIds => shardIds
  | .allShards shardIds => shardIds
  | .local => []

structure ShardRouter where
  hashValue : PartitionKey → UInt64
  strategies : String → Option PartitionStrategy

namespace ShardRouter

/-- The router of a new process: the keys of the hasher are drawn anew. -/
def restart (router : ShardRouter) (hashValue : PartitionKey → UInt64) :
    ShardRouter := {router with hashValue := hashValue}

def hashes (router : ShardRouter) (tableName : String) : Bool :=
  match router.strategies tableName with
  | some (.hash _) => true
  | _ => false

/-- The shard of a key among the shards that serve; the first one when the strategy's
index is past their end, or when there is no strategy. -/
def pick (router : ShardRouter) (tableName : String) (key : PartitionKey) (shards : List ShardMeta) : RoutingDecision :=
  match shards with
  | [] => .local
  | first :: _ =>
    match router.strategies tableName with
    | some strategy =>
      match shards[(strategy.route router.hashValue key (UInt32.ofNat shards.length)).toNat]? with
      | some shard => .singleShard shard.id
      | none => .singleShard first.id
    | none => .singleShard first.id

def routeWrite (router : ShardRouter) (manager : ShardManager) (tableName : String) (key : PartitionKey) :
    RoutingDecision :=
  router.pick tableName key (manager.getWritableShards tableName)

def readable (manager : ShardManager) (tableName : String) : List ShardMeta :=
  (manager.getTableShards tableName).filter ShardMeta.isReadable

def routePointQuery (router : ShardRouter) (manager : ShardManager) (tableName : String) (key : PartitionKey) :
    RoutingDecision :=
  router.pick tableName key (readable manager tableName)

def routeRangeQuery (router : ShardRouter) (manager : ShardManager) (tableName : String) (low high : PartitionKey) :
    RoutingDecision :=
  let shards := readable manager tableName
  if shards.isEmpty then .local
  else
    match (router.strategies tableName).bind fun strategy => strategy.routeRange low high with
    | some targetShards =>
      let shardIds := targetShards.filterMap fun index => shards[index.toNat]?.map (·.id)
      match shardIds with
      | [shardId] => .singleShard shardId
      | shardIds => .multiShard shardIds
    | none => .allShards (shards.map (·.id))

end ShardRouter

inductive Action
  | createShard (tableName : String)
  | routeWrite (tableName : String) (key : PartitionKey)
  | setShardStatus (shardId : ShardId) (status : ShardStatus)
  | save
  | load (restarted : Option (PartitionKey → UInt64)) (order : List ShardId)

inductive Event
  | wrote (tableName : String) (key : PartitionKey) (decision : RoutingDecision)
  | changed

/-- A node of the cluster; `serving` once anything but the creation of shards happened. -/
structure Session where
  router : ShardRouter
  node : Node
  serving : Bool

namespace Session

def start (router : ShardRouter) : Session := ⟨router, .started, false⟩

def catalogIds (session : Session) : List ShardId :=
  match session.node.catalog with
  | some shards => shards.keys
  | none => []

/-- A load takes the saved shards in any order, in the running process or in a new one. -/
def exec (session : Session) : Action → Option (Event × Session)
  | .createShard tableName => some (.changed, {session with node := session.node.createShard tableName})
  | .routeWrite tableName key =>
    some (.wrote tableName key (session.router.routeWrite session.node.manager tableName key),
      {session with serving := true})
  | .setShardStatus shardId status => some (.changed, ⟨session.router,
    session.node.setShardStatus shardId status, true⟩)
  | .save => some (.changed, ⟨session.router, session.node.save, true⟩)
  | .load restarted order =>
    if order.Perm session.catalogIds then
      some (.changed, ⟨restarted.elim session.router session.router.restart,
        session.node.load restarted.isSome order, true⟩)
    else none

/-- Shards are created first, as many as the boundaries of their table need. -/
def orderly (session : Session) : Action → Bool
  | .createShard _ => !session.serving
  | .routeWrite tableName _ =>
    match session.router.strategies tableName with
    | some strategy =>
      let shards := (session.node.manager.tableIds tableName).length
      shards == 0 || strategy.fits shards
    | none => false
  | .setShardStatus _ status => status = .active || status = .readOnly || status = .offline
  | _ => true

/-- The step takes no shard of a table with several out of service, brings the shards
back in the order they had, does not reuse a shard id, and does not change how the keys
of a table with several shards are hashed. -/
def keepsRoutes (session : Session) : Action → Bool
  | .createShard _ => (session.node.manager.shards.lookup (session.node.nextShardId + 1)).isNone
  | .setShardStatus shardId status =>
    match session.node.manager.shards.lookup shardId with
    | some shard => status = .active || decide ((session.node.manager.tableIds shard.tableName).length ≤ 1)
    | none => true
  | .load restarted order =>
    session.node.catalog.isNone || session.node.manager.tableShards.entries.all fun entry =>
      (session.node.load restarted.isSome order).manager.tableIds entry.1 == entry.2 &&
        (restarted.isNone || !session.router.hashes entry.1 || decide (entry.2.length ≤ 1))
  | _ => true

end Session

/-- What a client that wrote `key` to `shardId` relies on afterwards. -/
def Reachable (session : Session) (tableName : String) (key : PartitionKey) (shardId : ShardId) : Prop :=
  ((∃ shard, session.node.manager.shards.lookup shardId = some shard ∧ shard.isReadable = true) →
    session.router.routePointQuery session.node.manager tableName key = .singleShard shardId ∧
    ∀ low high, keyAtMost low key → keyAtMost key high →
      shardId ∈ (session.router.routeRangeQuery session.node.manager tableName low high).shardIds) ∧
  (session.router.routeWrite session.node.manager tableName key = .singleShard shardId ∨
    session.router.routeWrite session.node.manager tableName key = .local)

end ApexBase.Scaling
