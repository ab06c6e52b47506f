import ApexBase.Scaling.Router

/-! What a run keeps: the shard list of every table, with every shard of a list of
several active, in the manager and in the saved catalog alike. -/
namespace ApexBase.Scaling
open Library Library.Assoc

structure Sound (shards : Map ShardId ShardMeta) (ids : String → List ShardId) : Prop where
  listed : ∀ tableName, ∀ id ∈ ids tableName, ∃ shard, shards.lookup id = some shard ∧ shard.tableName = tableName
  owned : ∀ id shard, shards.lookup id = some shard → id ∈ ids shard.tableName
  distinct : ∀ tableName, (ids tableName).Nodup
  named : ∀ id shard, shards.lookup id = some shard → shard.id = id
  active : ∀ tableName, 2 ≤ (ids tableName).length → ∀ id ∈ ids tableName, ∀ shard, shards.lookup id = some shard →
    shard.status = .active

theorem sound_empty : Sound ∅ (fun _ => []) where
  listed := by simp
  owned := by simp
  distinct := by simp
  named := by simp
  active := by simp

section
variable {shards : Map ShardId ShardMeta} {ids : String → List ShardId} (sound : Sound shards ids)
include sound

theorem Sound.create (allActive : ∀ id shard, shards.lookup id = some shard → shard.status = .active) {id : ShardId}
    (tableName : String)
    (unused : shards.lookup id = none) :
    Sound (shards.insert id ⟨id,tableName,.active⟩) (fun other => ids other ++ if other = tableName then [id]
      else []) := by
  have absent : ∀ other, id ∉ ids other := by
    intro other member
    obtain ⟨shard,found,_⟩ := sound.listed other id member
    rw [unused] at found
    cases found
  have stored : ∀ other shard, (shards.insert id ⟨id,tableName,.active⟩).lookup other = some shard →
      other = id ∧ shard = ⟨id,tableName,.active⟩ ∨ other ≠ id ∧ shards.lookup other = some shard := by
    intro other shard found
    by_cases same : other = id
    · subst same
      rw [AList.lookup_insert] at found
      exact .inl ⟨rfl,(Option.some.inj found).symm⟩
    · rw [AList.lookup_insert_ne same] at found
      exact .inr ⟨same,found⟩
  constructor
  · intro other member inside
    rcases List.mem_append.mp inside with old | new
    · obtain ⟨shard,found,named⟩ := sound.listed other member old
      have different : member ≠ id := fun same => absent other (same ▸ old)
      exact ⟨shard,by rw [AList.lookup_insert_ne different,found],named⟩
    · by_cases same : other = tableName
      · rw [if_pos same,List.mem_singleton] at new
        subst new
        exact ⟨_,AList.lookup_insert _,same.symm⟩
      · simp [same] at new
  · intro other shard found
    rcases stored other shard found with ⟨rfl,rfl⟩ | ⟨_,old⟩
    · simp
    · exact List.mem_append_left _ (sound.owned other shard old)
  · intro other
    by_cases same : other = tableName
    · simp only [same,if_true]
      exact List.Nodup.append (sound.distinct tableName) (List.nodup_singleton id)
        (List.disjoint_singleton.mpr (absent tableName))
    · simpa [same] using sound.distinct other
  · intro other shard found
    rcases stored other shard found with ⟨rfl,rfl⟩ | ⟨_,old⟩
    · rfl
    · exact sound.named other shard old
  · intro other _ member _ shard found
    rcases stored member shard found with ⟨_,rfl⟩ | ⟨_,old⟩
    · rfl
    · exact allActive member shard old

theorem Sound.setStatus {id : ShardId} {shard : ShardMeta} (found : shards.lookup id = some shard)
    {status : ShardStatus}
    (permitted : status = .active ∨ (ids shard.tableName).length ≤ 1) :
    Sound (shards.insert id {shard with status := status}) ids := by
  have stored : ∀ other kept, (shards.insert id {shard with status := status}).lookup other = some kept →
      other = id ∧ kept = {shard with status := status} ∨ other ≠ id ∧ shards.lookup other = some kept := by
    intro other kept read
    by_cases same : other = id
    · subst same
      rw [AList.lookup_insert] at read
      exact .inl ⟨rfl,(Option.some.inj read).symm⟩
    · rw [AList.lookup_insert_ne same] at read
      exact .inr ⟨same,read⟩
  constructor
  · intro tableName member inside
    obtain ⟨kept,read,named⟩ := sound.listed tableName member inside
    by_cases same : member = id
    · subst same
      rw [found] at read
      cases read
      exact ⟨_,AList.lookup_insert _,named⟩
    · exact ⟨kept,by rw [AList.lookup_insert_ne same,read],named⟩
  · intro other kept read
    rcases stored other kept read with ⟨rfl,rfl⟩ | ⟨_,old⟩
    · exact sound.owned other shard found
    · exact sound.owned other kept old
  · exact sound.distinct
  · intro other kept read
    rcases stored other kept read with ⟨rfl,rfl⟩ | ⟨_,old⟩
    · exact sound.named other shard found
    · exact sound.named other kept old
  · intro tableName several member inside kept read
    rcases stored member kept read with ⟨rfl,rfl⟩ | ⟨_,old⟩
    · rcases permitted with same | single
      · exact same
      · obtain ⟨kept,again,named⟩ := sound.listed tableName member inside
        rw [found] at again
        cases again
        rw [named] at single
        omega
    · exact sound.active tableName several member inside kept old

end

section Routing
variable (router : ShardRouter)

def home (tableName : String) (key : PartitionKey) (ids : List ShardId) : Option ShardId :=
  match router.strategies tableName with
  | some strategy => ids[(strategy.route router.hashValue key (UInt32.ofNat ids.length)).toNat]?.or ids.head?
  | none => ids.head?

theorem pick_eq (tableName : String) (key : PartitionKey) (shards : List ShardMeta) :
    router.pick tableName key shards =
      match home router tableName key (shards.map (·.id)) with
      | some shardId => .singleShard shardId
      | none => .local := by
  cases shards with
  | nil => cases strategy : router.strategies tableName <;> simp [ShardRouter.pick,home,strategy]
  | cons first rest =>
    cases strategy : router.strategies tableName with
    | none => simp [ShardRouter.pick,home,strategy]
    | some strategy' =>
      simp only [ShardRouter.pick,home,strategy,List.length_map,List.getElem?_map]
      cases (first :: rest)[(strategy'.route router.hashValue key (UInt32.ofNat (first :: rest).length)).toNat]? with
      | none => simp
      | some shard => simp

theorem home_mem {tableName : String} {key : PartitionKey} {ids : List ShardId} {shardId : ShardId}
    (at_home : home router tableName key ids = some shardId) : shardId ∈ ids := by
  unfold home at at_home
  cases strategy : router.strategies tableName with
  | none =>
    rw [strategy] at at_home
    exact List.mem_of_mem_head? at_home
  | some strategy' =>
    simp only [strategy,Option.or_eq_some_iff] at at_home
    rcases at_home with indexed | ⟨_,first⟩
    · exact List.mem_of_getElem? indexed
    · exact List.mem_of_mem_head? first

/-- Only the keys of a table with several shards are hashed. -/
theorem home_restart {tableName : String} {ids : List ShardId} (hashValue : PartitionKey → UInt64)
    (kept : router.hashes tableName = false ∨ ids.length ≤ 1) (key : PartitionKey) :
    home (router.restart hashValue) tableName key ids = home router tableName key ids := by
  unfold home ShardRouter.restart
  cases strategy : router.strategies tableName with
  | none => rfl
  | some strategy' =>
    cases strategy' with
    | range partitioner => rfl
    | hash partitioner =>
      have few : ids.length ≤ 1 := kept.resolve_left (by simp [ShardRouter.hashes, strategy])
      have alone : UInt32.ofNat ids.length ≤ 1 := by
        rw [UInt32.le_iff_toNat_le, UInt32.toNat_ofNat_of_lt' (show ids.length < 2^32 by omega)]
        exact few
      simp only [PartitionStrategy.route, HashPartitioner.route, if_pos alone]

end Routing

theorem nodup_length_le {ids : List ShardId} (distinct : ids.Nodup) : ids.length ≤ 2^32 := by
  have injective : (ids.map UInt32.toNat).Nodup := distinct.map fun _ _ same => UInt32.toNat_inj.mp same
  have small : ids.map UInt32.toNat ⊆ List.range (2^32) := by
    intro number member
    obtain ⟨id,_,rfl⟩ := List.mem_map.mp member
    exact List.mem_range.mpr id.toNat_lt
  have bounded := (injective.subperm small).length_le
  rwa [List.length_map,List.length_range] at bounded

namespace Sound
variable {manager : ShardManager} (sound : Sound manager.shards manager.tableIds)
include sound

theorem ids_getTableShards (tableName : String) :
    (manager.getTableShards tableName).map (·.id) = manager.tableIds tableName := by
  have listed := sound.listed tableName
  unfold ShardManager.getTableShards
  generalize manager.tableIds tableName = ids at listed ⊢
  induction ids with
  | nil => rfl
  | cons id ids ih =>
    obtain ⟨shard,found,_⟩ := listed id List.mem_cons_self
    simp only [List.filterMap_cons,found,List.map_cons,sound.named id shard found,
      ih fun other member => listed other (List.mem_cons_of_mem _ member)]

theorem filter_getTableShards (tableName : String) (serves : ShardMeta → Bool)
    (whenActive : ∀ shard : ShardMeta, shard.status = .active → serves shard = true) :
    ((manager.getTableShards tableName).filter serves).map (·.id) = manager.tableIds tableName ∨
    (manager.getTableShards tableName).filter serves = [] ∧ (manager.tableIds tableName).length ≤ 1 := by
  have ids := sound.ids_getTableShards tableName
  have length : (manager.getTableShards tableName).length = (manager.tableIds tableName).length := by
    rw [← ids,List.length_map]
  rcases Nat.lt_or_ge (manager.tableIds tableName).length 2 with few | several
  · match shards : manager.getTableShards tableName with
    | [] => exact .inr ⟨rfl,by omega⟩
    | [shard] =>
      rw [shards] at ids
      cases served : serves shard with
      | true => exact .inl (by simpa [served] using ids)
      | false => exact .inr ⟨by simp [served],by omega⟩
    | _ :: _ :: _ =>
      rw [shards] at length
      simp at length
      omega
  · refine .inl ?_
    rw [List.filter_eq_self.mpr,ids]
    intro shard member
    obtain ⟨id,inside,found⟩ := List.mem_filterMap.mp member
    exact whenActive shard (sound.active tableName several id inside shard found)

end Sound

namespace Session

structure Steady (session : Session) : Prop where
  sound : Sound session.node.manager.shards session.node.manager.tableIds
  saved : ∀ shards, session.node.catalog = some shards → Sound shards session.node.manager.tableIds
  unsaved : session.serving = false → session.node.catalog = none ∧
    ∀ id shard, session.node.manager.shards.lookup id = some shard → shard.status = .active

def Lost (session : Session) : Prop := session.node.manager.tableIds = fun _ => []

/-- Every key has the home it had. -/
structure Follows (session next : Session) : Prop where
  strategies : next.router.strategies = session.router.strategies
  ids : next.node.manager.tableIds = session.node.manager.tableIds
  homes : ∀ tableName key, home next.router tableName key (session.node.manager.tableIds tableName) =
    home session.router tableName key (session.node.manager.tableIds tableName)

theorem steady_start (router : ShardRouter) : Steady (start router) where
  sound := by
    have ids : ShardManager.new.tableIds = fun _ => [] := by
      funext tableName
      simp [ShardManager.tableIds,ShardManager.new]
    change Sound ∅ ShardManager.new.tableIds
    rw [ids]
    exact sound_empty
  saved := by simp [start,Node.started]
  unsaved := by simp [start,Node.started,ShardManager.new]

variable {session next : Session} {event : Event}

theorem Follows.same_router {node : Node} {serving : Bool}
    (ids : node.manager.tableIds = session.node.manager.tableIds) :
    Follows session ⟨session.router, node, serving⟩ :=
  ⟨rfl, ids, fun _ _ => rfl⟩

theorem tableIds_createShard (node : Node) (tableName : String) :
    (node.createShard tableName).manager.tableIds =
      fun other => node.manager.tableIds other ++ if other = tableName then [node.nextShardId + 1] else [] := by
  funext other
  exact ShardManager.lookup_pushShard _ _ _ _

theorem tableIds_load {shards : Map ShardId ShardMeta} (steady : Steady session)
    (catalog : session.node.catalog = some shards) (restarted : Bool) (order : List ShardId)
    (kept : ∀ entry ∈ session.node.manager.tableShards.entries,
      (session.node.load restarted order).manager.tableIds entry.1 = entry.2) :
    (session.node.load restarted order).manager.tableIds = session.node.manager.tableIds := by
  funext tableName
  cases found : session.node.manager.tableShards.lookup tableName with
  | some ids =>
    rw [kept ⟨tableName,ids⟩ (AList.mem_lookup_iff.mp found)]
    simp [ShardManager.tableIds,found]
  | none =>
    have unlisted : session.node.manager.tableIds tableName = [] := by simp [ShardManager.tableIds,found]
    rw [unlisted]
    simp only [Node.load,catalog,ShardManager.tableIds,ShardManager.lookup_groupByTable]
    apply List.filter_eq_nil_iff.mpr
    intro id _ owned
    obtain ⟨shard,stored,named⟩ := Option.map_eq_some_iff.mp (of_decide_eq_true owned)
    have member := (steady.saved shards catalog).owned id shard stored
    rw [named,unlisted] at member
    cases member

/-- A step under the guard keeps the lists fixed, unless shards are still being created
or the node loses them all. -/
theorem steady_step {action : Action} (steady : Steady session) (ordered : orderly session action = true)
    (kept : keepsRoutes session action = true) (stepped : exec session action = some (event,next)) :
    Steady next ∧ ((session.serving = false ∧ next.serving = false ∧ event = .changed) ∨
      next.serving = true ∧ (Lost next ∨ Follows session next)) := by
  cases action with
  | createShard tableName =>
    simp only [exec,Option.some.injEq,Prod.mk.injEq] at stepped
    obtain ⟨rfl,rfl⟩ := stepped
    have idle : session.serving = false := by simpa [orderly] using ordered
    obtain ⟨catalog,allActive⟩ := steady.unsaved idle
    have unused : session.node.manager.shards.lookup (session.node.nextShardId + 1) = none := by
      simpa [keepsRoutes] using kept
    refine ⟨⟨?_,?_,?_⟩,.inl ⟨idle,idle,rfl⟩⟩
    · rw [tableIds_createShard]
      exact steady.sound.create allActive tableName unused
    · intro shards saved
      rw [show (session.node.createShard tableName).catalog = session.node.catalog from rfl,catalog] at saved
      cases saved
    · refine fun _ => ⟨catalog,?_⟩
      intro id shard found
      change (session.node.manager.shards.insert (session.node.nextShardId + 1)
        ⟨session.node.nextShardId + 1,tableName,.active⟩).lookup id = some shard at found
      by_cases same : id = session.node.nextShardId + 1
      · subst same
        rw [AList.lookup_insert] at found
        rw [← Option.some.inj found]
      · rw [AList.lookup_insert_ne same] at found
        exact allActive id shard found
  | routeWrite tableName key =>
    simp only [exec,Option.some.injEq,Prod.mk.injEq] at stepped
    obtain ⟨rfl,rfl⟩ := stepped
    exact ⟨⟨steady.sound,steady.saved,by simp⟩,.inr ⟨rfl, .inr (.same_router rfl)⟩⟩
  | setShardStatus shardId status =>
    simp only [exec,Option.some.injEq,Prod.mk.injEq] at stepped
    obtain ⟨rfl,rfl⟩ := stepped
    cases found : session.node.manager.shards.lookup shardId with
    | none =>
      have same : session.node.setShardStatus shardId status = session.node := by
        simp [Node.setShardStatus,ShardManager.setShardStatus,found]
      rw [same]
      exact ⟨⟨steady.sound,steady.saved,by simp⟩,.inr ⟨rfl, .inr (.same_router rfl)⟩⟩
    | some shard =>
      have permitted : status = .active ∨ (session.node.manager.tableIds shard.tableName).length ≤ 1 := by
        simpa [keepsRoutes,found] using kept
      have changed : session.node.setShardStatus shardId status =
          {session.node with manager :=
            ⟨session.node.manager.shards.insert shardId {shard with status := status},session.node.manager.tableShards,
              true⟩} := by
        simp [Node.setShardStatus,ShardManager.setShardStatus,found]
      rw [changed]
      exact ⟨⟨steady.sound.setStatus found permitted,steady.saved,by simp⟩,.inr ⟨rfl, .inr (.same_router rfl)⟩⟩
  | save =>
    simp only [exec,Option.some.injEq,Prod.mk.injEq] at stepped
    obtain ⟨rfl,rfl⟩ := stepped
    unfold Node.save
    split
    · refine ⟨⟨steady.sound,?_,by simp⟩,.inr ⟨rfl, .inr (.same_router rfl)⟩⟩
      intro shards saved
      cases saved
      exact steady.sound
    · exact ⟨⟨steady.sound,steady.saved,by simp⟩,.inr ⟨rfl, .inr (.same_router rfl)⟩⟩
  | load restarted order =>
    simp only [exec] at stepped
    split at stepped
    · simp only [Option.some.injEq, Prod.mk.injEq] at stepped
      obtain ⟨rfl, rfl⟩ := stepped
      cases catalog : session.node.catalog with
      | none =>
        have lost : (session.node.load restarted.isSome order).manager.tableIds = fun _ => [] := by
          funext tableName
          simp [Node.load, catalog, ShardManager.tableIds, ShardManager.new]
        refine ⟨⟨?_, ?_, by simp⟩, .inr ⟨rfl, .inl lost⟩⟩
        · rw [lost]
          simpa [Node.load, catalog, ShardManager.new] using sound_empty
        · intro shards saved
          simp [Node.load, catalog] at saved
      | some shards =>
        have all : ∀ entry ∈ session.node.manager.tableShards.entries,
            (session.node.load restarted.isSome order).manager.tableIds entry.1 = entry.2 ∧
              (restarted = none ∨ session.router.hashes entry.1 = false ∨ entry.2.length ≤ 1) := by
          intro entry member
          simp only [keepsRoutes, catalog, Option.isNone_some, Bool.false_or, List.all_eq_true] at kept
          simpa [or_assoc] using kept entry member
        have same := tableIds_load steady catalog restarted.isSome order fun entry member => (all entry member).1
        have stored : (session.node.load restarted.isSome order).manager.shards = shards := by simp [Node.load, catalog]
        refine ⟨⟨?_, ?_, by simp⟩, .inr ⟨rfl, .inr ?_⟩⟩
        · rw [stored, same]
          exact steady.saved shards catalog
        · intro other saved
          rw [same]
          refine steady.saved other ?_
          simpa [Node.load, catalog] using saved
        · cases restarted with
          | none => exact .same_router same
          | some hashValue =>
            refine ⟨rfl, same, fun tableName key => home_restart session.router hashValue ?_ key⟩
            unfold ShardManager.tableIds
            cases found : session.node.manager.tableShards.lookup tableName with
            | none => exact .inr (Nat.zero_le _)
            | some ids => exact ((all ⟨tableName, ids⟩ (AList.mem_lookup_iff.mp found)).2).resolve_left (by simp)
    · cases stepped

end Session

end ApexBase.Scaling
