import ApexBase.Catalog.Durable

/-! Directories from before the catalog. Their table files are the registry until the catalog is
written, and a mapping that created the catalog takes them over with its first mutation. -/
namespace ApexBase.Catalog
open Library Library.Wire CatalogFile

variable {crc32 : Bytes → UInt32}

/-- The catalog is the registry: no mapping of it adopts table files. -/
def Directory.Settled (dir : Directory) : Prop := dir.catalog.isSome = true ∧
    ∀ mapping ∈ dir.mapped, mapping.adoptExistingFiles = false

def Outcome.mutated : Outcome → Bool
  | .inserted _ (.ok ()) | .removed _ (.ok true) => true
  | _ => false

section Locked

variable {state : Locked} {files : Finset String} {name : String}

theorem snapshot_files (state : Locked) (files : Finset String) :
    Locked.snapshot crc32 {state with files} = ((state.snapshot crc32).1,{(state.snapshot crc32).2 with files}) := by
  obtain ⟨baseDir,old,catalog,modified,mapping,cached⟩ := state
  unfold Locked.snapshot Locked.metaPath
  dsimp only
  cases catalog.scan crc32 (baseDir ++ "/.apex_tables") with
  | error error =>
    cases cached with
    | none => rfl
    | some entry =>
      dsimp only
      split <;> rfl
  | ok tables =>
    cases cached with
    | none => rfl
    | some entry =>
      dsimp only
      split <;> rfl

theorem snapshot_mapping (state : Locked) : (state.snapshot crc32).2.mapping = state.mapping := by
  unfold Locked.snapshot
  dsimp only
  split
  · split <;> rfl
  · split
    · rfl
    · split <;> rfl

theorem insert_of_settled (settled : state.mapping.adoptExistingFiles = false) (name : String) :
    state.insert crc32 name = match state.snapshot crc32 with
      | (.error error,state) => (.error error,state)
      | (.ok tables,state) => state.register crc32 name tables := by
  unfold Locked.insert
  have kept := @snapshot_mapping crc32 state
  generalize state.snapshot crc32 = shown at kept
  obtain ⟨outcome,after⟩ := shown
  cases outcome with
  | error error => rfl
  | ok tables =>
    have unadopted : after.backfill crc32 name tables = (.ok tables,after) := if_neg (by
      rw [Locked.adopts,show after.mapping = state.mapping from kept,settled,Bool.and_false]
      exact Bool.false_ne_true)
    dsimp only
    rw [unadopted]

theorem register_files (state : Locked) (name : String) (tables files : Finset String) :
    Locked.register crc32 name tables {state with files} =
      ((state.register crc32 name tables).1,{(state.register crc32 name tables).2 with files}) := by
  unfold Locked.register
  dsimp only
  split
  · rfl
  · split <;> rfl

section
variable (settled : state.mapping.adoptExistingFiles = false) (name : String) (files : Finset String)
include settled

theorem insert_files :
    Locked.insert crc32 name {state with files} = ((state.insert crc32 name).1,
      {(state.insert crc32 name).2 with files}) := by
  rw [insert_of_settled settled,@insert_of_settled crc32 {state with files} settled,snapshot_files]
  generalize state.snapshot crc32 = shown
  obtain ⟨outcome,after⟩ := shown
  cases outcome with
  | error error => rfl
  | ok tables => exact register_files after name tables files

theorem remove_files :
    Locked.remove crc32 name {state with files} = ((state.remove crc32 name).1,
      {(state.remove crc32 name).2 with files}) := by
  have kept := @snapshot_mapping crc32 state
  unfold Locked.remove
  rw [snapshot_files]
  generalize state.snapshot crc32 = shown at kept
  obtain ⟨outcome,after⟩ := shown
  cases outcome with
  | error error => rfl
  | ok tables =>
    have unadopted : after.adopts tables = false := by
      rw [Locked.adopts,show after.mapping = state.mapping from kept,settled,Bool.and_false]
    have unadoptedFiles : Locked.adopts {after with files} tables = false := unadopted
    dsimp only
    rw [unadopted,unadoptedFiles]
    simp only [Bool.false_eq_true,↓reduceIte]
    split <;> rfl

end

theorem register_settles {tables : Finset String} {next : Locked}
    (done : state.register crc32 name tables = (.ok (),next)) :
    next.mapping.adoptExistingFiles = false := by
  unfold Locked.register at done
  split at done
  · cases done
  · split at done
    · cases done
    · cases done
      rfl

theorem insert_settles {next : Locked} (done : state.insert crc32 name = (.ok (),next)) :
    next.mapping.adoptExistingFiles = false := by
  unfold Locked.insert at done
  split at done
  · cases done
  · split at done
    · cases done
    · exact register_settles done

theorem remove_settles {next : Locked} (done : state.remove crc32 name = (.ok true,next)) :
    next.mapping.adoptExistingFiles = false := by
  unfold Locked.remove at done
  split at done
  · cases done
  · split at done
    · dsimp only at done
      split at done
      · split at done
        · cases done
        · cases done
          rfl
      · cases done
    · split at done
      · cases done
        rfl
      · cases done

section
variable (settled : state.mapping.adoptExistingFiles = false)
include settled

theorem register_keeps (tables : Finset String) :
    (state.register crc32 name tables).2.mapping.adoptExistingFiles = false := by
  unfold Locked.register
  split
  · exact settled
  · split
    · exact settled
    · rfl

theorem insert_keeps : (state.insert crc32 name).2.mapping.adoptExistingFiles = false := by
  have kept := @snapshot_mapping crc32 state
  rw [insert_of_settled settled]
  generalize state.snapshot crc32 = shown at kept
  obtain ⟨outcome,after⟩ := shown
  have settledAfter : after.mapping.adoptExistingFiles = false :=
    (congrArg Mapping.adoptExistingFiles kept).trans settled
  cases outcome with
  | error error => exact settledAfter
  | ok tables => exact register_keeps settledAfter tables

theorem remove_keeps : (state.remove crc32 name).2.mapping.adoptExistingFiles = false := by
  have kept := @snapshot_mapping crc32 state
  unfold Locked.remove
  generalize state.snapshot crc32 = shown at kept
  obtain ⟨outcome,after⟩ := shown
  have settledAfter : after.mapping.adoptExistingFiles = false :=
    (congrArg Mapping.adoptExistingFiles kept).trans settled
  cases outcome with
  | error error => exact settledAfter
  | ok tables =>
    have unadopted : after.adopts tables = false := by rw [Locked.adopts,settledAfter,Bool.and_false]
    dsimp only
    rw [unadopted]
    simp only [Bool.false_eq_true,↓reduceIte]
    split
    · rfl
    · exact settledAfter

end

end Locked

section Directory

variable {dir next : Directory} {call : Call} {outcome : Outcome}

theorem lock_settled (settled : dir.Settled) : dir.lock.mapping.adoptExistingFiles = false := by
  obtain ⟨there,unadopted⟩ := settled
  obtain ⟨catalog,held⟩ := Option.isSome_iff_exists.mp there
  unfold Directory.lock
  rw [held]
  cases mapped : dir.mapped with
  | none => rfl
  | some mapping =>
    dsimp only
    split
    · exact unadopted mapping mapped
    · rfl

theorem unlock_settled {state : Locked} (settled : state.mapping.adoptExistingFiles = false) : state.unlock.Settled :=
  ⟨rfl,fun mapping member => by cases member; exact settled⟩

theorem withFile_settled {name : String} (settled : dir.Settled) : (dir.withFile name).Settled := by
  unfold Directory.withFile
  split <;> exact settled

theorem prepared_settled {name : String} {early : Bool} (settled : dir.Settled) :
    (dir.prepared name early).Settled := by
  cases early with
  | false => exact settled
  | true => exact withFile_settled settled

theorem step_settled (stepped : exec crc32 dir call = some (outcome,next))
    (why : outcome.mutated = true ∨ dir.Settled) : next.Settled := by
  cases call with
  | lock =>
    cases stepped
    rcases why with mutated | settled
    · cases mutated
    · exact unlock_settled (lock_settled settled)
  | snapshot =>
    cases stepped
    rcases why with mutated | settled
    · cases mutated
    · obtain ⟨catalog,held⟩ := Option.isSome_iff_exists.mp settled.1
      rw [held]
      refine unlock_settled ?_
      rw [snapshot_mapping]
      exact lock_settled settled
  | insert name early =>
    simp only [exec] at stepped
    split at stepped
    · rename_i done
      cases stepped
      exact withFile_settled (unlock_settled (insert_settles done))
    · rename_i failed
      cases stepped
      rcases why with mutated | settled
      · cases mutated
      · have kept := @insert_keeps crc32 (dir.prepared name early).lock name (lock_settled (prepared_settled settled))
        rw [failed] at kept
        exact unlock_settled kept
  | remove name unlinks =>
    simp only [exec] at stepped
    split at stepped
    · rename_i done
      cases stepped
      have settled := unlock_settled (remove_settles done)
      split
      · exact settled
      · exact settled
    · rename_i result state other failed
      cases stepped
      rcases why with mutated | settled
      · cases result with
        | error error => cases mutated
        | ok there =>
          cases there with
          | false => cases mutated
          | true => exact absurd rfl other
      · have kept := @remove_keeps crc32 _ name (lock_settled settled)
        rw [failed] at kept
        exact unlock_settled kept
  | release =>
    cases stepped
    rcases why with mutated | settled
    · cases mutated
    · exact ⟨settled.1,by rintro _ ⟨⟩⟩
  | touch modified =>
    cases stepped
    rcases why with mutated | settled
    · cases mutated
    · exact settled

theorem locked_snapshot (there : dir.catalog.isSome = true) :
    dir.snapshot crc32 = ((dir.lock.snapshot crc32).1,(dir.lock.snapshot crc32).2.unlock) := by
  obtain ⟨catalog,held⟩ := Option.isSome_iff_exists.mp there
  unfold Directory.snapshot
  rw [held]

theorem exec_files (settled : dir.Settled) (files : Finset String)
    (stepped : exec crc32 dir call = some (outcome,next)) :
    ∃ kept, exec crc32 {dir with files} call = some (outcome,{next with files := kept}) := by
  have unadopted := lock_settled settled
  cases call with
  | lock =>
    cases stepped
    exact ⟨files,by rw [exec,lock_files]; rfl⟩
  | snapshot =>
    simp only [exec] at stepped
    cases stepped
    refine ⟨files,?_⟩
    have other := @locked_snapshot crc32 {dir with files} settled.1
    rw [lock_files,snapshot_files] at other
    simp only [exec]
    rw [other,locked_snapshot settled.1]
    rfl
  | insert name early =>
    simp only [exec] at stepped ⊢
    rw [prepared_lock,insert_files unadopted] at stepped
    rw [prepared_lock,lock_files,insert_files unadopted]
    generalize dir.lock.insert crc32 name = result at stepped
    obtain ⟨result,state⟩ := result
    cases result with
    | error error =>
      cases stepped
      exact ⟨_,rfl⟩
    | ok =>
      by_cases slash : '/' ∈ name.toList
      · simp only [Directory.withFile,if_pos slash] at stepped ⊢
        cases stepped
        exact ⟨_,rfl⟩
      · simp only [Directory.withFile,if_neg slash] at stepped ⊢
        cases stepped
        exact ⟨_,rfl⟩
  | remove name unlinks =>
    simp only [exec] at stepped ⊢
    rw [lock_files,remove_files unadopted]
    generalize dir.lock.remove crc32 name = result at stepped
    obtain ⟨result,state⟩ := result
    cases result with
    | error error =>
      cases stepped
      exact ⟨_,rfl⟩
    | ok there =>
      cases there with
      | false =>
        cases stepped
        exact ⟨_,rfl⟩
      | true =>
        cases stepped
        dsimp only
        split <;> exact ⟨_,rfl⟩
  | release =>
    cases stepped
    exact ⟨files,rfl⟩
  | touch modified =>
    cases stepped
    exact ⟨files,rfl⟩

end Directory

/-- A directory without a catalog, before anything is mapped. -/
structure Legacy (dir : Directory) : Prop where
  catalog : dir.catalog = none
  mapped : dir.mapped = none
  cached : dir.cached = none

/-- The tables of a directory from before the catalog are taken over where each call settles the
registry or finds it settled; and behind the first mutation of any run its files are not read. -/
theorem legacy_tables_adopted_once {start : Directory} (legacy : Legacy start) :
    ((∀ name ∈ scanApexFiles start.files, Fit name) → ∀ trace final, Run (exec crc32) settles start trace final →
      (final.snapshot crc32).1 = .ok (registered (scanApexFiles start.files) trace)) ∧
    ∀ trace final, Run (exec crc32) (fun _ _ => true) start trace final → (∃ outcome ∈ trace, outcome.mutated = true) →
      ∀ call outcome next, exec crc32 final call = some (outcome,next) →
        ∀ files, ∃ kept, exec crc32 {final with files} call = some (outcome,{next with files := kept}) := by
  refine ⟨fun fits trace final run => ?_,fun trace final run mutated call outcome next stepped files => ?_⟩
  · have tracks : final.Tracks crc32 (registered (scanApexFiles start.files) trace) := by
      refine run.invariant (P := fun trace dir => dir.Tracks crc32 (registered (scanApexFiles start.files) trace)) ?_ ?_
      · unfold Directory.Tracks
        rw [legacy.catalog]
        exact ⟨legacy.mapped,legacy.cached,rfl,fits⟩
      · intro trace dir call outcome next _ before allowed stepped
        rw [registered_snoc]
        exact step_tracks before allowed stepped
    exact (snapshot_tracks tracks).1
  · have settled : (∃ outcome ∈ trace, outcome.mutated = true) → final.Settled := by
      refine run.invariant (P := fun trace dir => (∃ outcome ∈ trace, outcome.mutated = true) → dir.Settled) nofun ?_
      rintro trace dir call outcome next - before - stepped ⟨earlier,member,mutated⟩
      refine step_settled stepped ?_
      rcases List.mem_append.mp member with inside | last
      · exact .inr (before ⟨earlier,inside,mutated⟩)
      · rw [List.mem_singleton] at last
        subst last
        exact .inl mutated
    exact exec_files (settled mutated) files stepped

def legacyDirectory : Directory := ⟨"db",{"a.apex"},none,0,none,none⟩

theorem legacyDirectory_legacy : Legacy legacyDirectory := ⟨rfl,rfl,rfl⟩

/-- The table is adopted by the first insertion. -/
theorem inserting_adopts_the_file : ∃ trace final,
    Run (exec Crc.crc32) settles legacyDirectory trace final ∧ (final.snapshot Crc.crc32).1 = .ok {"a","b"} := by
  have played : (play (exec Crc.crc32) settles legacyDirectory [.snapshot,.insert "b" true,.release]).map
      (fun played => registered {"a"} played.1) = some {"a","b"} := by decide +kernel
  have files : scanApexFiles legacyDirectory.files = {"a"} := by decide +kernel
  obtain ⟨⟨trace,final⟩,played,names⟩ := Option.map_eq_some_iff.mp played
  have run := Run.of_play played
  refine ⟨trace,final,run,?_⟩
  have fits : ∀ name ∈ scanApexFiles legacyDirectory.files, Fit name := by
    rw [files]
    decide +kernel
  rw [(legacy_tables_adopted_once legacyDirectory_legacy).1 fits trace final run,files,names]

/-- A lock that is dropped again creates the empty catalog; once that is mapped anew, the table that
the directory held is not adopted any more. -/
theorem locking_loses_the_file : Legacy legacyDirectory ∧ ¬ ∀ trace final,
    Run (exec Crc.crc32) (fun _ _ => true) legacyDirectory trace final →
      (final.snapshot Crc.crc32).1 = .ok (registered (scanApexFiles legacyDirectory.files) trace) := by
  refine ⟨legacyDirectory_legacy,fun adopted => ?_⟩
  have played : (play (exec Crc.crc32) (fun _ _ => true) legacyDirectory [.lock,.release,.insert "b" true]).map
      (fun played => match (played.2.snapshot Crc.crc32).1 with
        | .ok names => decide ("a" ∈ registered (scanApexFiles legacyDirectory.files) played.1) && decide ("a" ∉ names)
        | .error _ => false) = some true := by decide +kernel
  obtain ⟨⟨trace,final⟩,played,lost⟩ := Option.map_eq_some_iff.mp played
  rw [adopted trace final (Run.of_play played)] at lost
  simp only [Bool.and_eq_true,decide_eq_true_eq] at lost
  exact lost.2 lost.1

end ApexBase.Catalog
