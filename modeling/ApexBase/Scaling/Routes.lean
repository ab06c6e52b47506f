import ApexBase.Scaling.Stable

/-! Reads of a key go to the shard its writes went to. Taking a shard of a table with
several out of service, or bringing shards back in another order, moves keys to shards
that do not hold them. -/
namespace ApexBase.Scaling
open Library Library.Assoc

def Kept (session : Session) : Event → Prop
  | .wrote tableName key (.singleShard shardId) => Session.Lost session ∨
    home session.router tableName key (session.node.manager.tableIds tableName) = some shardId ∧
      ∃ strategy, session.router.strategies tableName = some strategy ∧
        strategy.fits (session.node.manager.tableIds tableName).length = true
  | _ => True

structure Held (trace : List Event) (session : Session) : Prop where
  steady : session.Steady
  idle : session.serving = false → ∀ event ∈ trace, event = .changed
  kept : ∀ event ∈ trace, Kept session event

section
variable {session next : Session} {trace : List Event} {event : Event}

theorem kept_routeWrite (steady : session.Steady) {tableName : String} {key : PartitionKey}
    (ordered : session.orderly (.routeWrite tableName key) = true) :
    Kept session (.wrote tableName key (session.router.routeWrite session.node.manager tableName key)) := by
  unfold ShardRouter.routeWrite ShardManager.getWritableShards
  rw [pick_eq]
  rcases steady.sound.filter_getTableShards tableName ShardMeta.isWritable (by simp [ShardMeta.isWritable])
    with all | ⟨nobody,_⟩
  · rw [all]
    cases at_home : home session.router tableName key (session.node.manager.tableIds tableName) with
    | none => trivial
    | some shardId =>
      refine .inr ⟨at_home,?_⟩
      cases strategy : session.router.strategies tableName with
      | none => simp [Session.orderly,strategy] at ordered
      | some strategy' =>
        have nonempty : (session.node.manager.tableIds tableName).length ≠ 0 := by
          intro zero
          rw [List.length_eq_zero_iff.mp zero] at at_home
          exact absurd (home_mem _ at_home) List.not_mem_nil
        refine ⟨strategy',rfl,?_⟩
        simpa [Session.orderly,strategy,nonempty] using ordered
  · cases at_home : home session.router tableName key (([] : List ShardMeta).map (·.id)) with
    | none =>
      rw [nobody,at_home]
      trivial
    | some shardId => exact absurd (home_mem _ at_home) List.not_mem_nil

theorem Kept.mono (kept : Kept session event)
    (same : next.Lost ∨ session.Follows next) : Kept next event := by
  cases event with
  | changed => trivial
  | wrote tableName key decision =>
    cases decision with
    | singleShard shardId =>
      rcases same with lost | follows
      · exact .inl lost
      · rcases kept with lost | home
        · exact .inl (follows.ids.trans lost)
        · exact .inr (by rw [follows.ids, follows.homes, follows.strategies]; exact home)
    | multiShard _ => trivial
    | allShards _ => trivial
    | «local» => trivial

theorem held_step {action : Action} (held : Held trace session) (ordered : session.orderly action = true)
    (keeps : session.keepsRoutes action = true)
    (stepped : session.exec action = some (event,next)) : Held (trace ++ [event]) next := by
  obtain ⟨steady,progress⟩ := Session.steady_step held.steady ordered keeps stepped
  refine ⟨steady,?_,?_⟩
  · rcases progress with ⟨idle,_,rfl⟩ | ⟨serving,_⟩
    · intro _ seen member
      rcases List.mem_append.mp member with old | new
      · exact held.idle idle seen old
      · exact List.mem_singleton.mp new
    · intro idle
      rw [serving] at idle
      cases idle
  · intro seen member
    rcases progress with ⟨idle,_,rfl⟩ | ⟨_,same⟩
    · have changed : seen = .changed := by
        rcases List.mem_append.mp member with old | new
        · exact held.idle idle seen old
        · exact List.mem_singleton.mp new
      rw [changed]
      trivial
    · rcases List.mem_append.mp member with old | new
      · exact (held.kept seen old).mono same
      · rw [List.mem_singleton.mp new]
        cases action with
        | routeWrite tableName key =>
          simp only [Session.exec,Option.some.injEq,Prod.mk.injEq] at stepped
          obtain ⟨rfl,rfl⟩ := stepped
          exact (kept_routeWrite held.steady ordered).mono same
        | createShard _ | setShardStatus _ _ | save =>
          simp only [Session.exec,Option.some.injEq,Prod.mk.injEq] at stepped
          rw [← stepped.1]
          trivial
        | load restarted order =>
          simp only [Session.exec] at stepped
          split at stepped
          · simp only [Option.some.injEq,Prod.mk.injEq] at stepped
            rw [← stepped.1]
            trivial
          · cases stepped

end

theorem home_mem_range {router : ShardRouter} {shards : List ShardMeta} {tableName : String}
    {key low high : PartitionKey} {shardId : ShardId} {partitioner : RangePartitioner}
    (strategy : router.strategies tableName = some (.range partitioner))
    (fits : partitioner.boundaries.length < shards.length) (few : shards.length ≤ 2^32) (lower : keyAtMost low key)
    (upper : keyAtMost key high) (at_home : home router tableName key (shards.map (·.id)) = some shardId) :
    shardId ∈ (partitioner.routeRange low high).filterMap fun index => shards[index.toNat]?.map (·.id) := by
  have bounded (other : PartitionKey) : partitioner.shardIndex other ≤ partitioner.boundaries.length :=
    List.findIdx_le_length
  have read (other : PartitionKey) : (partitioner.route other).toNat = partitioner.shardIndex other := by
    have small : partitioner.shardIndex other < 2^32 := by
      have := bounded other
      omega
    exact UInt32.toNat_ofNat_of_lt' small
  have inside : partitioner.shardIndex key < shards.length := by
    have := bounded key
    omega
  refine List.mem_filterMap.mpr ⟨partitioner.route key,?_,?_⟩
  · have first := partitioner.shardIndex_mono lower
    have last := partitioner.shardIndex_mono upper
    refine List.mem_map.mpr ⟨partitioner.shardIndex key,?_,rfl⟩
    rw [read,read]
    refine List.mem_iff_getElem.mpr ⟨partitioner.shardIndex key - partitioner.shardIndex low,?_,?_⟩
    · simp only [List.length_drop,List.length_range]
      omega
    · simp only [List.getElem_drop,List.getElem_range]
      omega
  · rw [read]
    simpa [home,strategy,PartitionStrategy.route,read,inside] using at_home

theorem reachable_of_held {session : Session} (steady : session.Steady) {tableName : String}
    {key : PartitionKey} {shardId : ShardId} (kept : Kept session (.wrote tableName key (.singleShard shardId))) :
    Reachable session tableName key shardId := by
  have sound := steady.sound
  have noHome : home session.router tableName key (([] : List ShardMeta).map (·.id)) = none := by
    cases at_home : home session.router tableName key (([] : List ShardMeta).map (·.id)) with
    | none => rfl
    | some other => exact absurd (home_mem _ at_home) List.not_mem_nil
  rcases kept with lost | ⟨at_home,strategy,registered,fits⟩
  · have gone : ∀ id, session.node.manager.shards.lookup id = none := by
      intro id
      cases found : session.node.manager.shards.lookup id with
      | none => rfl
      | some shard =>
        have member := sound.owned id shard found
        rw [show session.node.manager.tableIds = _ from lost] at member
        cases member
    constructor
    · rintro ⟨shard,found,_⟩
      rw [gone] at found
      cases found
    · refine .inr ?_
      unfold ShardRouter.routeWrite
      rw [pick_eq]
      have nobody : session.node.manager.getWritableShards tableName = [] := by
        simp [ShardManager.getWritableShards,ShardManager.getTableShards,show session.node.manager.tableIds =
          _ from lost]
      rw [nobody,noHome]
  · constructor
    · rintro ⟨shard,found,serves⟩
      have everyone : (ShardRouter.readable session.node.manager tableName).map (·.id) =
          session.node.manager.tableIds tableName := by
        rcases sound.filter_getTableShards tableName ShardMeta.isReadable (by simp +contextual [ShardMeta.isReadable])
          with all | ⟨nobody,few⟩
        · exact all
        · -- A list of one shard is that of the key's home, which serves.
          have member := home_mem _ at_home
          have present : shard ∈ (session.node.manager.getTableShards tableName).filter ShardMeta.isReadable :=
            List.mem_filter.mpr ⟨List.mem_filterMap.mpr ⟨shardId,member,found⟩,serves⟩
          rw [nobody] at present
          cases present
      have length : (ShardRouter.readable session.node.manager tableName).length =
          (session.node.manager.tableIds tableName).length := by rw [← everyone,List.length_map]
      refine ⟨?_,?_⟩
      · unfold ShardRouter.routePointQuery
        rw [pick_eq,everyone,at_home]
      · intro low high lower upper
        have some_serve : (ShardRouter.readable session.node.manager tableName).isEmpty = false := by
          cases shards : ShardRouter.readable session.node.manager tableName with
          | nil =>
            rw [shards] at everyone
            have member := home_mem _ at_home
            rw [← everyone] at member
            cases member
          | cons _ _ => rfl
        have bounded := nodup_length_le (sound.distinct tableName)
        simp only [ShardRouter.routeRangeQuery,some_serve,registered,Option.bind_some,Bool.false_eq_true,if_false]
        cases strategy with
        | hash partitioner =>
          simp only [PartitionStrategy.routeRange,RoutingDecision.shardIds,everyone]
          exact home_mem _ at_home
        | range partitioner =>
          have enough : partitioner.boundaries.length < (ShardRouter.readable session.node.manager
            tableName).length := by
            rw [length]
            simpa [PartitionStrategy.fits] using fits
          have named := home_mem_range registered enough (by omega) lower upper (by rw [everyone]; exact at_home)
          simp only [PartitionStrategy.routeRange]
          generalize (partitioner.routeRange low high).filterMap _ = shardIds at named ⊢
          match shardIds with
          | [] => exact named
          | [_] => exact named
          | _ :: _ :: _ => exact named
    · unfold ShardRouter.routeWrite ShardManager.getWritableShards
      rw [pick_eq]
      rcases sound.filter_getTableShards tableName ShardMeta.isWritable (by simp [ShardMeta.isWritable])
        with all | ⟨nobody,_⟩
      · rw [all,at_home]
        exact .inl rfl
      · rw [nobody,noHome]
        exact .inr rfl

/-- In every run whose steps keep the routes, a key is read from the shard it was
written to, and is not written to another. -/
theorem routes_agree (router : ShardRouter) (trace : List Event) (session : Session)
    (run : Run Session.exec (fun state action => state.orderly action && state.keepsRoutes action)
      (Session.start router)
      trace session)
    (tableName : String) (key : PartitionKey) (shardId : ShardId)
    (wrote : Event.wrote tableName key (.singleShard shardId) ∈ trace) :
    Reachable session tableName key shardId := by
  have held : Held trace session := by
    refine run.invariant ⟨Session.steady_start router, by simp, by simp⟩ ?_
    intro before state action event next _ held guarded stepped
    obtain ⟨ordered, keeps⟩ := Bool.and_eq_true_iff.mp guarded
    exact held_step held ordered keeps stepped
  exact reachable_of_held held.steady (held.kept _ wrote)

def splitAtTen : ShardRouter where
  hashValue := fun _ => 0
  strategies := fun tableName => if tableName = "users" then some (.range ⟨[.int 10]⟩) else none

def firstWrite : List Action := [.createShard "users", .createShard "users", .routeWrite "users" (.int 5)]

theorem routes_agree_after_reload : ∃ trace session,
    Run Session.exec (fun state action => state.orderly action && state.keepsRoutes action) (Session.start splitAtTen)
      trace session ∧
    Event.wrote "users" (.int 5) (.singleShard 2) ∈ trace ∧ Reachable session "users" (.int 5) 2 := by
  have run := @Run.of_play _ _ _ Session.exec (fun state action => state.orderly action && state.keepsRoutes action)
    (Session.start splitAtTen) (firstWrite ++ [.save, .load (some fun _ => 1) [2, 4],
      .setShardStatus 4 .active]) _ _ rfl
  exact ⟨_, _, run, List.mem_of_getElem? (i := 2) rfl,
    routes_agree splitAtTen _ _ run "users" (.int 5) 2 (List.mem_of_getElem? (i := 2) rfl)⟩

/-- A write before its shard becomes read-only, and one after. -/
theorem route_moves_to_other_shard : ¬ ∀ (router : ShardRouter) (trace : List Event) (session : Session),
    Run Session.exec (fun state action => state.orderly action) (Session.start router) trace session →
    ∀ tableName key shardId, Event.wrote tableName key (.singleShard shardId) ∈ trace →
      Reachable session tableName key shardId := by
  intro agree
  have run := @Run.of_play _ _ _ Session.exec (fun state action => state.orderly action) (Session.start splitAtTen)
    (firstWrite ++ [.setShardStatus 2 .readOnly]) _ _ rfl
  have kept := (agree splitAtTen _ _ run "users" (.int 5) 2 (List.mem_of_getElem? (i := 2) rfl)).2
  revert kept
  decide

end ApexBase.Scaling
