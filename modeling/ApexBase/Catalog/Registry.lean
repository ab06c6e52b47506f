import Mathlib.Data.Finset.Option
import Mathlib.Data.Finset.Union
import ApexBase.Library.Run
import ApexBase.Catalog.Slots

/-! The table registry of one database directory as one process sees it: the directory, the
catalog file in it, the mapping of that file and the cached snapshot. The mapping is shared, so
that what is stored through it is what the file holds. Each call takes the registry lock, and
nothing else runs while it is held. -/
namespace ApexBase.Catalog
open Library Library.Wire CatalogFile

/-- The name of the table an entry of the directory is taken for: what stands before the
extension `apex`, if anything does. -/
def apexStem (file : String) : Option String :=
  let stem := file.toList.take (file.toList.length - 5)
  if stem ≠ [] ∧ file.toList.drop (file.toList.length - 5) = ".apex".toList then some (String.ofList stem) else none

def scanApexFiles (files : Finset String) : Finset String :=
  files.biUnion fun file => (apexStem file).toFinset

structure Mapping where
  modified : Nat
  adoptExistingFiles : Bool

structure CachedSnapshot where
  generation : UInt64
  modified : Nat
  tables : Finset String

structure Directory where
  baseDir : String
  files : Finset String
  catalog : Option CatalogFile
  /-- The time stamp of the catalog file, or the one it gets when it is created. -/
  modified : Nat
  mapped : Option Mapping
  cached : Option CachedSnapshot

structure Locked where
  baseDir : String
  files : Finset String
  catalog : CatalogFile
  modified : Nat
  mapping : Mapping
  cached : Option CachedSnapshot

namespace Locked

def unlock (state : Locked) : Directory :=
  ⟨state.baseDir,state.files,some state.catalog,state.modified,some state.mapping,state.cached⟩

def metaPath (state : Locked) : String := state.baseDir ++ "/.apex_tables"

section Calls
variable (crc32 : Bytes → UInt32)

/-- `snapshot_from_catalog`. Nothing moves the generation between its two loads, so that the first
of the attempts is the last. -/
def snapshot (state : Locked) : Except IoError (Finset String) × Locked :=
  let scanned := match state.catalog.scan crc32 state.metaPath with
    | .error error => (.error error,state)
    | .ok tables => (.ok tables,{state with cached := some ⟨state.catalog.generation,state.mapping.modified,tables⟩})
  match state.cached with
  | none => scanned
  | some entry =>
    if entry.generation = state.catalog.generation ∧ entry.modified = state.mapping.modified then
      (.ok entry.tables,state)
    else scanned

def adopts (state : Locked) (tables : Finset String) : Bool := tables = ∅ && state.mapping.adoptExistingFiles

/-- The part of `insert` that takes over the table files of a directory without a catalog. -/
def backfill (name : String) (tables : Finset String) (state : Locked) : Except IoError (Finset String) × Locked :=
  if state.adopts tables then
    let adopted := (tables ∪ scanApexFiles state.files).erase name
    let (outcome,catalog) := state.catalog.persistTables crc32 state.metaPath adopted
    (outcome.map fun _ => adopted,{state with catalog})
  else (.ok tables,state)

def publish (catalog : CatalogFile) (tables : Finset String) (state : Locked) : Locked :=
  {state with
    catalog
    mapping := {state.mapping with adoptExistingFiles := false}
    cached := some ⟨catalog.generation,state.mapping.modified,tables⟩}

def register (name : String) (tables : Finset String) (state : Locked) : Except IoError Unit × Locked :=
  if name ∈ tables then (.error ⟨.alreadyExists,"Table '" ++ name ++ "' already exists"⟩,state)
  else
    match state.catalog.claimSlot state.catalog.lastSlot with
    | none => (.error (fullError state.metaPath state.catalog),state)
    | some slot =>
      let stored := state.catalog.setSlot crc32 slot name
      let catalog := bumpGeneration {stored with
        lastSlot := max state.catalog.lastSlot slot
        entryCount := state.catalog.entryCount + 1}
      (.ok (),state.publish catalog (insert name tables))

def insert (name : String) (state : Locked) : Except IoError Unit × Locked :=
  match state.snapshot crc32 with
  | (.error error,state) => (.error error,state)
  | (.ok tables,state) =>
    match state.backfill crc32 name tables with
    | (.error error,state) => (.error error,state)
    | (.ok tables,state) => state.register crc32 name tables

def remove (name : String) (state : Locked) : Except IoError Bool × Locked :=
  match state.snapshot crc32 with
  | (.error error,state) => (.error error,state)
  | (.ok tables,state) =>
    if state.adopts tables then
      let adopted := tables ∪ scanApexFiles state.files
      if name ∈ adopted then
        -- the removed table had no slot of its own
        match state.catalog.persistTables crc32 state.metaPath (adopted.erase name) with
        | (.error error,catalog) => (.error error,{state with catalog})
        | (.ok (),catalog) => (.ok true,state.publish catalog (adopted.erase name))
      else (.ok false,state)
    else if name ∈ tables then
      (.ok true,state.publish (bumpGeneration (state.catalog.eraseName name)) (tables.erase name))
    else (.ok false,state)

end Calls

end Locked

namespace Directory

def locked (dir : Directory) (catalog : CatalogFile) (mapping : Mapping) (cached : Option CachedSnapshot) : Locked :=
  ⟨dir.baseDir,dir.files,catalog,dir.modified,mapping,cached⟩

/-- Takes the lock, and maps the catalog if it is not mapped or the mapping is stale. A catalog that
does not exist is created; that is when the mapping may adopt table files. -/
def lock (dir : Directory) : Locked :=
  match dir.catalog,dir.mapped with
  | none,none => dir.locked .created ⟨dir.modified,true⟩ dir.cached
  | none,some _ => dir.locked .created ⟨dir.modified,true⟩ none
  | some catalog,none => dir.locked catalog ⟨dir.modified,false⟩ dir.cached
  | some catalog,some mapping =>
    if mapping.modified = dir.modified then dir.locked catalog mapping dir.cached
    else dir.locked catalog ⟨dir.modified,false⟩ none

def release (dir : Directory) : Directory := {dir with mapped := none,cached := none}

def withFile (name : String) (dir : Directory) : Directory :=
  if '/' ∈ name.toList then dir else {dir with files := insert (name ++ ".apex") dir.files}

def prepared (name : String) (early : Bool) (dir : Directory) : Directory := if early then dir.withFile name else dir

def withoutFile (name : String) (dir : Directory) : Directory := {dir with files := dir.files.erase (name ++ ".apex")}

end Directory

inductive Call
  /-- A lock that is taken and dropped. -/
  | lock
  | snapshot
  /-- The caller creates the file of the table, before the call or when it has succeeded. -/
  | insert (name : String) (early : Bool)
  /-- The caller may unlink the file of a table that it has removed. -/
  | remove (name : String) (unlinks : Bool)
  | release
  /-- The time stamp of the catalog file moves, as it does when the mapping is written back. -/
  | touch (modified : Nat)
  deriving DecidableEq

inductive Outcome
  | done
  | tables (tables : Except IoError (Finset String))
  | inserted (name : String) (outcome : Except IoError Unit)
  | removed (name : String) (outcome : Except IoError Bool)

variable (crc32 : Bytes → UInt32)

def Directory.snapshot (dir : Directory) : Except IoError (Finset String) × Directory :=
  match dir.catalog with
  | none => (.ok (scanApexFiles dir.files),dir)
  | some _ =>
    let (outcome,state) := dir.lock.snapshot crc32
    (outcome,state.unlock)

def exec (dir : Directory) : Call → Option (Outcome × Directory)
  | .lock => some (.done,dir.lock.unlock)
  | .snapshot =>
    let (outcome,next) := dir.snapshot crc32
    some (.tables outcome,next)
  | .insert name early =>
    match (dir.prepared name early).lock.insert crc32 name with
    | (.ok (),state) => some (.inserted name (.ok ()),state.unlock.withFile name)
    | (.error error,state) => some (.inserted name (.error error),state.unlock)
  | .remove name unlinks =>
    match dir.lock.remove crc32 name with
    | (.ok true,state) => some (.removed name (.ok true),if unlinks then state.unlock.withoutFile name
      else state.unlock)
    | (outcome,state) => some (.removed name outcome,state.unlock)
  | .release => some (.done,dir.release)
  | .touch modified => some (.done,{dir with modified})

def registered (names : Finset String) (trace : List Outcome) : Finset String :=
  trace.foldl (fun names outcome => match outcome with
    | .inserted name (.ok ()) => insert name names
    | .removed name (.ok _) => names.erase name
    | _ => names) names

end ApexBase.Catalog
