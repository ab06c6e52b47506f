import ApexBase.Mvcc.VersionStore
import Mathlib.Data.List.MinMax

/-! The snapshot manager of `storage/mvcc/snapshot.rs` and the garbage collector of
`storage/mvcc/gc.rs`. The process-wide counters are passed explicitly. -/
namespace ApexBase.Mvcc
open Data Library.Assoc

structure Snapshot where
  id : Nat
  readTs : Nat
  readOnly : Bool

def Snapshot.isVisible (snapshot : Snapshot) (beginTs endTs : Nat) : Bool :=
  decide (beginTs ≤ snapshot.readTs) && decide (snapshot.readTs < endTs)

structure SnapshotManager where
  active : Map Nat Snapshot
  oldestActiveTs : Nat

namespace SnapshotManager

def new : SnapshotManager := ⟨∅,tsActive⟩

def register (manager : SnapshotManager) (snapshot : Snapshot) : SnapshotManager :=
  ⟨manager.active.insert snapshot.id snapshot,min manager.oldestActiveTs snapshot.readTs⟩

/-- The minimum `read_ts` of the given snapshots, `u64::MAX` when there is none. -/
def oldestOf (snapshots : List Snapshot) : Nat := (snapshots.map (·.readTs)).foldr min tsActive

def release (manager : SnapshotManager) (snapshotId : Nat) : SnapshotManager :=
  let active := manager.active.erase snapshotId
  ⟨active,oldestOf (values active)⟩

theorem oldestOf_le (snapshots : List Snapshot) (snapshot : Snapshot) (member : snapshot ∈ snapshots) :
    oldestOf snapshots ≤ snapshot.readTs := by
  induction snapshots with
  | nil => simp at member
  | cons head rest ih =>
    simp only [oldestOf,List.map_cons,List.foldr_cons]
    rcases List.mem_cons.mp member with rfl | inside
    · exact Nat.min_le_left _ _
    · exact le_trans (Nat.min_le_right _ _) (ih inside)

/-- The cached minimum never exceeds the `read_ts` of a registered snapshot. -/
def Tracks (manager : SnapshotManager) : Prop :=
  ∀ id snapshot, manager.active.lookup id = some snapshot → manager.oldestActiveTs ≤ snapshot.readTs

theorem tracks_register (manager : SnapshotManager) (snapshot : Snapshot) (tracked : Tracks manager) :
    Tracks (manager.register snapshot) := by
  intro id other found
  simp only [register,lookup_insert_eq] at found ⊢
  split at found
  · cases found
    exact Nat.min_le_right _ _
  · exact le_trans (Nat.min_le_left _ _) (tracked id other found)

theorem tracks_release (manager : SnapshotManager) (snapshotId : Nat) : Tracks (manager.release snapshotId) := by
  intro id snapshot found
  exact oldestOf_le _ _ ((mem_values _ _).mpr ⟨id,found⟩)

end SnapshotManager

structure GcConfig where
  intervalMillis : Nat
  minVersions : Nat
  enabled : Bool

def GcConfig.default : GcConfig := ⟨60 * 1000,1000,true⟩

structure GarbageCollector where
  config : GcConfig
  lastRun : Nat
  running : Bool
  totalRemoved : Nat

namespace GarbageCollector

def new : GarbageCollector := ⟨.default,0,false,0⟩

def shouldRun (gc : GarbageCollector) (store : VersionStore) (nowMillis : Nat) : Bool :=
  gc.config.enabled && !gc.running && decide (¬ store.totalVersions < gc.config.minVersions) &&
    decide (nowMillis - gc.lastRun ≥ gc.config.intervalMillis)

/-- A run that loses the race for the `running` flag leaves everything as it was. -/
def run (gc : GarbageCollector) (store : VersionStore) (oldestActiveTs nowMillis : Nat) :
    GarbageCollector × VersionStore :=
  if gc.running then (gc,store)
  else
    let (collected,removed) := store.gc oldestActiveTs
    ({gc with totalRemoved := gc.totalRemoved + removed, lastRun := nowMillis},collected)

def maybeRun (gc : GarbageCollector) (store : VersionStore) (oldestActiveTs nowMillis : Nat) :
    GarbageCollector × VersionStore :=
  if gc.shouldRun store nowMillis then gc.run store oldestActiveTs nowMillis else (gc,store)

end GarbageCollector

end ApexBase.Mvcc
