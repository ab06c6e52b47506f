import ApexBase.Catalog.Registry
import ApexBase.Catalog.Names
import ApexBase.Library.Crc

/-! What the registry stands for along a run: the names stored in the catalog, and, while the
mapping may still adopt them, the table files of a directory that had no catalog. -/
namespace ApexBase.Catalog
open Library Library.Wire CatalogFile

section Files

theorem apexStem_file (name : String) : apexStem (name ++ ".apex") = some name ∨ apexStem (name ++ ".apex") = none := by
  have chars : (name ++ ".apex").toList = name.toList ++ ".apex".toList := String.toList_append
  have five : ".apex".toList.length = 5 := by decide
  unfold apexStem
  dsimp only
  rw [chars,List.length_append,five,Nat.add_sub_cancel,List.take_left,List.drop_left]
  split
  · rw [String.ofList_toList]
    exact .inl rfl
  · exact .inr rfl

theorem mem_scanApexFiles {files : Finset String} {name : String} :
    name ∈ scanApexFiles files ↔ ∃ file ∈ files, apexStem file = some name := by
  unfold scanApexFiles
  simp only [Finset.mem_biUnion,Option.mem_toFinset,Option.mem_def]

theorem scan_withFile (name : String) (dir : Directory) :
    (scanApexFiles (dir.withFile name).files).erase name = (scanApexFiles dir.files).erase name := by
  unfold Directory.withFile
  split
  · rfl
  · ext other
    simp only [Finset.mem_erase,mem_scanApexFiles,Finset.mem_insert,exists_eq_or_imp]
    refine and_congr_right fun different => or_iff_right fun stem => ?_
    rcases apexStem_file name with own | none_
    · exact different (Option.some.inj (stem.symm.trans own))
    · rw [none_] at stem
      cases stem

theorem scan_prepared (name : String) (early : Bool) (dir : Directory) :
    (scanApexFiles (dir.prepared name early).files).erase name = (scanApexFiles dir.files).erase name := by
  cases early with
  | false => rfl
  | true => exact scan_withFile name dir

private theorem insert_erase_same (name : String) (names : Finset String) :
    insert name (names.erase name) = insert name names := by
  ext other
  simp only [Finset.mem_insert,Finset.mem_erase]
  tauto

end Files

variable {crc32 : Bytes → UInt32}

/-- The catalog holds `names` and the cache does not say otherwise. -/
structure Locked.Stores (crc32 : Bytes → UInt32) (names : Finset String) (state : Locked) : Prop where
  registers : Registers crc32 state.catalog names
  cached : ∀ entry ∈ state.cached, entry.generation = state.catalog.generation → entry.tables = names

section Calls

variable {state : Locked} {names : Finset String} {name : String}

theorem Locked.Stores.snapshot (stores : state.Stores crc32 names) :
    ∃ cached, state.snapshot crc32 = (.ok names,{state with cached}) ∧
    Locked.Stores crc32 names {state with cached} := by
  have scanned : Locked.Stores crc32 names {state with
    cached := some ⟨state.catalog.generation,state.mapping.modified,names⟩} :=
    ⟨stores.registers,fun entry member _ => by cases member; rfl⟩
  have scan := @Registers.scan crc32 state.metaPath _ _ stores.registers
  unfold Locked.snapshot
  rw [scan]
  cases there : state.cached with
  | none => exact ⟨_,rfl,scanned⟩
  | some entry =>
    dsimp only
    split
    · rename_i fresh
      refine ⟨some entry,?_,stores.registers,?_⟩
      · rw [stores.cached entry there fresh.1,← there]
      · rw [← there]
        exact stores.cached
    · exact ⟨_,rfl,scanned⟩

theorem register_cases (registers : Registers crc32 state.catalog names) (name : String) :
    (∃ error, state.register crc32 name names = (.error error,state) ∧
      (name ∈ names ∨ names.card = state.catalog.capacity)) ∨
    ∃ catalog, state.register crc32 name names = (.ok (),state.publish catalog (insert name names)) ∧ name ∉ names ∧
      names.card < state.catalog.capacity ∧ (Fit name → Registers crc32 catalog (insert name names)) := by
  unfold Locked.register
  by_cases there : name ∈ names
  · rw [if_pos there]
    exact .inl ⟨_,rfl,.inl there⟩
  · rw [if_neg there]
    rcases registers.claim with ⟨none_,full⟩ | ⟨slot,claimed,room,stored⟩
    · rw [none_]
      exact .inl ⟨_,rfl,.inr full⟩
    · rw [claimed]
      exact .inr ⟨_,rfl,there,room,fun fit => (stored name there fit).bump⟩

theorem insert_settled (stores : state.Stores crc32 names) (settled : state.adopts names = false) (name : String) :
    (∃ error cached, state.insert crc32 name = (.error error,{state with cached}) ∧
      Locked.Stores crc32 names {state with cached} ∧
      (name ∈ names ∨ names.card = state.catalog.capacity)) ∨
    ∃ catalog, state.insert crc32 name = (.ok (),state.publish catalog (insert name names)) ∧ name ∉ names ∧
      names.card < state.catalog.capacity ∧ (Fit name → Registers crc32 catalog (insert name names)) := by
  obtain ⟨cached,shown,after⟩ := stores.snapshot
  have kept : Locked.backfill crc32 name names {state with cached} = (.ok names,{state with cached}) := if_neg (by
    change ¬ state.adopts names = true
    rw [settled]
    exact Bool.false_ne_true)
  unfold Locked.insert
  rw [shown]
  dsimp only
  rw [kept]
  rcases register_cases after.registers name with ⟨error,failed,why⟩ | ⟨catalog,done,fresh,room,registers⟩
  · exact .inl ⟨error,cached,failed,after,why⟩
  · exact .inr ⟨catalog,done,fresh,room,registers⟩

theorem insert_adopting (stores : state.Stores crc32 ∅) (adopts : state.mapping.adoptExistingFiles = true)
    {name : String} (fits : ∀ other ∈ (scanApexFiles state.files).erase name, Fit other)
    (room : ((scanApexFiles state.files).erase name).card < state.catalog.capacity) :
    ∃ catalog, state.insert crc32 name = (.ok (),state.publish catalog (insert name (scanApexFiles state.files))) ∧
      (Fit name → Registers crc32 catalog (insert name (scanApexFiles state.files))) := by
  obtain ⟨cached,shown,after⟩ := stores.snapshot
  obtain ⟨next,persisted,registers,capacity⟩ :=
    @Registers.persistTables crc32 (Locked.metaPath {state with cached}) _ _ _ stores.registers fits
    (Finset.disjoint_empty_left _) (by
      rw [Finset.card_empty]
      omega)
  rw [Finset.empty_union] at registers
  have filled : Locked.backfill crc32 name ∅ {state with cached} =
      (.ok ((scanApexFiles state.files).erase name),{state with cached,catalog := next}) := by
    unfold Locked.backfill
    rw [if_pos (show Locked.adopts {state with cached} ∅ = true by rw [Locked.adopts,adopts]; rfl)]
    dsimp only
    rw [Finset.empty_union,persisted]
    rfl
  unfold Locked.insert
  rw [shown]
  dsimp only
  rw [filled]
  dsimp only
  have registersNext : Registers crc32 (Locked.catalog {state with cached,catalog := next}) _ := registers
  rcases register_cases registersNext name with ⟨error,-,there | full⟩ | ⟨catalog,done,-,-,stored⟩
  · exact absurd rfl (Finset.mem_erase.mp there).1
  · dsimp only at full
    omega
  · rw [insert_erase_same] at done stored
    exact ⟨catalog,done,stored⟩

theorem remove_settled (stores : state.Stores crc32 names) (settled : state.adopts names = false) (name : String) :
    (∃ cached, state.remove crc32 name = (.ok false,{state with cached}) ∧
      Locked.Stores crc32 names {state with cached} ∧ name ∉ names) ∨
    ∃ catalog, state.remove crc32 name = (.ok true,state.publish catalog (names.erase name)) ∧
    Registers crc32 catalog (names.erase name) := by
  obtain ⟨cached,shown,after⟩ := stores.snapshot
  have kept : ¬ Locked.adopts {state with cached} names = true := by
    change ¬ state.adopts names = true
    rw [settled]
    exact Bool.false_ne_true
  unfold Locked.remove
  rw [shown]
  dsimp only
  rw [if_neg kept]
  by_cases there : name ∈ names
  · rw [if_pos there]
    exact .inr ⟨_,rfl,(stores.registers.eraseName there).bump⟩
  · rw [if_neg there]
    exact .inl ⟨cached,rfl,after,there⟩

theorem remove_adopting (stores : state.Stores crc32 ∅) (adopts : state.mapping.adoptExistingFiles = true)
    {name : String} (fits : ∀ other ∈ scanApexFiles state.files, Fit other)
    (room : ((scanApexFiles state.files).erase name).card ≤ state.catalog.capacity) :
    (∃ cached, state.remove crc32 name = (.ok false,{state with cached}) ∧ Locked.Stores crc32 ∅ {state with cached} ∧
      name ∉ scanApexFiles state.files) ∨
    ∃ catalog, state.remove crc32 name = (.ok true,state.publish catalog ((scanApexFiles state.files).erase name)) ∧
      Registers crc32 catalog ((scanApexFiles state.files).erase name) := by
  obtain ⟨cached,shown,after⟩ := stores.snapshot
  unfold Locked.remove
  rw [shown]
  dsimp only
  rw [if_pos (show Locked.adopts {state with cached} ∅ = true by rw [Locked.adopts,adopts]; rfl),Finset.empty_union]
  by_cases there : name ∈ scanApexFiles state.files
  · rw [if_pos there]
    obtain ⟨next,persisted,registers,-⟩ :=
      @Registers.persistTables crc32 (Locked.metaPath {state with cached}) _ _ _ stores.registers
      (fun other member => fits other (Finset.mem_of_mem_erase member))
        (Finset.disjoint_empty_left ((scanApexFiles state.files).erase name))
      (by rw [Finset.card_empty]; omega)
    rw [Finset.empty_union] at registers
    rw [persisted]
    exact .inr ⟨next,rfl,registers⟩
  · rw [if_neg there]
    exact .inl ⟨cached,rfl,after,there⟩

end Calls

/-- The registry stands for `names`: through the catalog, or through the table files where there is
no catalog yet. A mapping that may still adopt finds nothing to adopt. -/
def Directory.Tracks (crc32 : Bytes → UInt32) (names : Finset String) (dir : Directory) : Prop :=
  match dir.catalog with
  | none => dir.mapped = none ∧ dir.cached = none ∧ scanApexFiles dir.files = names ∧ ∀ name ∈ names, Fit name
  | some catalog => Registers crc32 catalog names ∧
      (∀ entry ∈ dir.cached, entry.generation = catalog.generation → entry.tables = names) ∧
      ∀ mapping ∈ dir.mapped, mapping.adoptExistingFiles = true → names = ∅ ∧ scanApexFiles dir.files = ∅

section Directory

variable {dir : Directory} {state : Locked} {names : Finset String} {name : String}

theorem tracks_unlock (stores : state.Stores crc32 names)
    (nothing : state.mapping.adoptExistingFiles = true → names = ∅ ∧ scanApexFiles state.files = ∅) :
    state.unlock.Tracks crc32 names :=
  ⟨stores.registers,stores.cached,fun mapping member adopts => by cases member; exact nothing adopts⟩

theorem tracks_published {catalog : CatalogFile} (registers : Registers crc32 catalog names) (files : Finset String) :
    ({(state.publish catalog names).unlock with files} : Directory).Tracks crc32 names :=
  ⟨registers,fun entry member _ => by cases member; rfl,fun mapping member adopts => by cases member; cases adopts⟩

theorem published_withFile {catalog : CatalogFile} (registers : Registers crc32 catalog names) (name : String) :
    ((state.publish catalog names).unlock.withFile name).Tracks crc32 names := by
  unfold Directory.withFile
  split
  · exact tracks_published registers state.files
  · exact tracks_published registers _

theorem lock_files (dir : Directory) (files : Finset String) :
    Directory.lock {dir with files} = {dir.lock with files} := by
  unfold Directory.lock
  dsimp only
  split <;> (first | rfl | (split <;> rfl))

theorem prepared_lock (name : String) (early : Bool) (dir : Directory) :
    (dir.prepared name early).lock = {dir.lock with files := (dir.prepared name early).files} := by
  unfold Directory.prepared Directory.withFile
  split
  · split
    · rw [← lock_files]
    · exact lock_files dir _
  · rw [← lock_files]

theorem lock_cases (tracks : dir.Tracks crc32 names) : dir.lock.files = dir.files ∧
    ((dir.lock.Stores crc32 names ∧ dir.lock.mapping.adoptExistingFiles = false) ∨
    (dir.lock.Stores crc32 ∅ ∧ dir.lock.mapping.adoptExistingFiles = true ∧ scanApexFiles dir.files = names ∧
      (∀ name ∈ names, Fit name) ∧ (dir.catalog = none ∧ dir.lock.catalog.capacity = defaultCapacity ∨
        names = ∅))) := by
  unfold Directory.Tracks at tracks
  unfold Directory.lock
  cases held : dir.catalog with
  | none =>
    rw [held] at tracks
    obtain ⟨mapped,cached,files,fits⟩ := tracks
    rw [mapped]
    refine ⟨rfl,.inr ⟨⟨.created,?_⟩,rfl,files,fits,.inl ⟨rfl,List.length_replicate⟩⟩⟩
    rw [show (dir.locked .created ⟨dir.modified,true⟩ dir.cached).cached = none from cached]
    exact nofun
  | some catalog =>
    rw [held] at tracks
    obtain ⟨registers,cached,adopting⟩ := tracks
    cases mapped : dir.mapped with
    | none => exact ⟨rfl,.inl ⟨⟨registers,cached⟩,rfl⟩⟩
    | some mapping =>
      dsimp only
      split
      · refine ⟨rfl,?_⟩
        cases adopts : mapping.adoptExistingFiles with
        | false => exact .inl ⟨⟨registers,cached⟩,adopts⟩
        | true =>
          obtain ⟨rfl,files⟩ := adopting mapping mapped adopts
          exact .inr ⟨⟨registers,cached⟩,adopts,files,nofun,.inr rfl⟩
      · exact ⟨rfl,.inl ⟨⟨registers,nofun⟩,rfl⟩⟩

theorem isSome_of_settled (settled : dir.lock.mapping.adoptExistingFiles = false) : dir.catalog.isSome = true := by
  unfold Directory.lock at settled
  cases held : dir.catalog with
  | some catalog => rfl
  | none =>
    rw [held] at settled
    cases mapped : dir.mapped with
    | none =>
      rw [mapped] at settled
      cases settled
    | some mapping =>
      rw [mapped] at settled
      cases settled

/-- The call settles the registry of a directory without a catalog, or there is nothing to settle:
the catalog is not created without its tables. -/
def settles (dir : Directory) (call : Call) : Bool :=
  let legacy := scanApexFiles dir.files
  match call with
  | .lock => dir.catalog.isSome || legacy = ∅
  | .insert name _ => decide (Fit name) && (dir.catalog.isSome || decide ((insert name legacy).card ≤ defaultCapacity))
  | .remove name _ => dir.catalog.isSome || legacy = ∅ || (decide (name ∈ legacy) &&
    decide ((legacy.erase name).card ≤ defaultCapacity))
  | .snapshot | .release | .touch _ => true

variable {outcome : Outcome} {next : Directory} {early unlinks : Bool}

section
variable (tracks : dir.Tracks crc32 names)
include tracks

theorem lock_tracks (allowed : settles dir .lock = true) : dir.lock.unlock.Tracks crc32 names := by
  obtain ⟨files,⟨stores,settled⟩ | ⟨stores,-,legacy,-,why⟩⟩ := lock_cases tracks
  · exact tracks_unlock stores fun adopts => absurd (settled.symm.trans adopts) Bool.false_ne_true
  · have none_ : names = ∅ := by
      rcases why with ⟨missing,-⟩ | none_
      · rw [settles,missing,legacy] at allowed
        simpa using allowed
      · exact none_
    subst none_
    exact tracks_unlock stores fun _ => ⟨rfl,by rw [files,legacy]⟩

theorem snapshot_tracks :
    (dir.snapshot crc32).1 = .ok names ∧ (dir.snapshot crc32).2.Tracks crc32 names := by
  unfold Directory.snapshot
  cases held : dir.catalog with
  | none =>
    unfold Directory.Tracks at tracks ⊢
    rw [held] at tracks
    dsimp only
    rw [held]
    exact ⟨congrArg Except.ok tracks.2.2.1,tracks⟩
  | some catalog =>
    obtain ⟨files,⟨stores,settled⟩ | ⟨stores,adopts,legacy,-,⟨missing,-⟩ | rfl⟩⟩ := lock_cases tracks
    · obtain ⟨cached,shown,after⟩ := stores.snapshot
      dsimp only
      rw [shown]
      exact ⟨rfl,tracks_unlock after fun adopts => absurd (settled.symm.trans adopts) Bool.false_ne_true⟩
    · rw [held] at missing
      cases missing
    · obtain ⟨cached,shown,after⟩ := stores.snapshot
      dsimp only
      rw [shown]
      exact ⟨rfl,tracks_unlock after fun _ => ⟨rfl,(congrArg scanApexFiles files).trans legacy⟩⟩

theorem insert_cases (room : dir.catalog.isSome = true ∨ (insert name (scanApexFiles dir.files)).card ≤ defaultCapacity)
    (stepped : exec crc32 dir (.insert name early) = some (outcome,next)) :
    (∃ error, outcome = .inserted name (.error error) ∧ next.Tracks crc32 names ∧ dir.catalog.isSome = true ∧
      (name ∈ names ∨ names.card = dir.lock.catalog.capacity)) ∨
    (outcome = .inserted name (.ok ()) ∧ (Fit name → next.Tracks crc32 (insert name names)) ∧
      (names = ∅ ∨ dir.catalog = none ∨ name ∉ names ∧ names.card < dir.lock.catalog.capacity)) := by
  have locked := prepared_lock name early dir
  simp only [exec] at stepped
  obtain ⟨files,⟨stores,settled⟩ | ⟨stores,adopts,legacy,fits,why⟩⟩ := lock_cases tracks
  · have storesGiven : (dir.prepared name early).lock.Stores crc32 names := by
      rw [locked]
      exact ⟨stores.registers,stores.cached⟩
    have settledGiven : (dir.prepared name early).lock.mapping.adoptExistingFiles = false := by
      rw [locked]
      exact settled
    have capacity : (dir.prepared name early).lock.catalog.capacity = dir.lock.catalog.capacity := by rw [locked]
    rcases insert_settled storesGiven (by rw [Locked.adopts,settledGiven,Bool.and_false]) name with
      ⟨error,cached,failed,after,reason⟩ | ⟨catalog,done,fresh,free,registers⟩
    · rw [failed] at stepped
      cases stepped
      refine .inl ⟨error,rfl,?_,isSome_of_settled settled,by rwa [capacity] at reason⟩
      exact tracks_unlock after fun adopts => absurd (settledGiven.symm.trans adopts) Bool.false_ne_true
    · rw [done] at stepped
      cases stepped
      exact .inr ⟨rfl,fun fit => published_withFile (registers fit) name,.inr (.inr ⟨fresh,by rwa [capacity] at free⟩)⟩
  · have storesGiven : (dir.prepared name early).lock.Stores crc32 ∅ := by
      rw [locked]
      exact ⟨stores.registers,stores.cached⟩
    have adoptsGiven : (dir.prepared name early).lock.mapping.adoptExistingFiles = true := by
      rw [locked]
      exact adopts
    have same : (scanApexFiles (dir.prepared name early).lock.files).erase name = names.erase name := by
      rw [locked,← legacy]
      exact scan_prepared name early dir
    have enough : ((scanApexFiles (dir.prepared name early).lock.files).erase name).card <
      (dir.prepared name early).lock.catalog.capacity := by
      rw [same,locked]
      dsimp only
      rcases why with ⟨missing,capacity⟩ | none_
      · rw [missing,legacy] at room
        rw [capacity]
        have size : (insert name (names.erase name)).card ≤ defaultCapacity := by
          rw [insert_erase_same]
          exact room.resolve_left Bool.false_ne_true
        rw [Finset.card_insert_of_notMem (Finset.notMem_erase name names)] at size
        omega
      · rw [none_,Finset.erase_empty,Finset.card_empty]
        exact dir.lock.catalog.room
    obtain ⟨catalog,done,registers⟩ := insert_adopting storesGiven adoptsGiven
      (fun other member => fits other (Finset.mem_of_mem_erase (same ▸ member))) enough
    have whole : insert name (scanApexFiles (dir.prepared name early).lock.files) = insert name names := by
      rw [← insert_erase_same,same,insert_erase_same]
    rw [done] at stepped
    cases stepped
    rw [whole] at registers ⊢
    refine .inr ⟨rfl,fun fit => published_withFile (registers fit) name,?_⟩
    rcases why with ⟨missing,-⟩ | none_
    · exact .inr (.inl missing)
    · exact .inl none_

theorem remove_cases (allowed : settles dir (.remove name unlinks) = true)
    (stepped : exec crc32 dir (.remove name unlinks) = some (outcome,next)) :
    (outcome = .removed name (.ok false) ∧ name ∉ names ∧ next.Tracks crc32 names) ∨
    (outcome = .removed name (.ok true) ∧ next.Tracks crc32 (names.erase name)) := by
  simp only [settles,Bool.and_eq_true,Bool.or_eq_true,decide_eq_true_eq] at allowed
  have published : ∀ {state : Locked} {catalog : CatalogFile} {kept : Finset String}, Registers crc32 catalog kept →
      (if unlinks then (state.publish catalog kept).unlock.withoutFile name
        else (state.publish catalog kept).unlock).Tracks crc32 kept := by
    intro state catalog kept registers
    split
    · exact tracks_published registers _
    · exact tracks_published registers state.files
  simp only [exec] at stepped
  obtain ⟨files,⟨stores,settled⟩ | ⟨stores,adopts,legacy,fits,why⟩⟩ := lock_cases tracks
  · rcases remove_settled stores (by rw [Locked.adopts,settled,Bool.and_false]) name with ⟨cached,absent,after,
      gone⟩ | ⟨catalog,done,registers⟩
    · rw [absent] at stepped
      cases stepped
      exact .inl ⟨rfl,gone,tracks_unlock after fun adopts => absurd (settled.symm.trans adopts) Bool.false_ne_true⟩
    · rw [done] at stepped
      cases stepped
      exact .inr ⟨rfl,published registers⟩
  · have sure : names = ∅ ∨ name ∈ names ∧ (names.erase name).card ≤ dir.lock.catalog.capacity := by
      rcases why with ⟨missing,capacity⟩ | none_
      · rw [missing,legacy] at allowed
        rcases allowed with (there | none_) | ⟨there,room⟩
        · cases there
        · exact .inl none_
        · exact .inr ⟨there,by rwa [capacity]⟩
      · exact .inl none_
    have enough : ((scanApexFiles dir.lock.files).erase name).card ≤ dir.lock.catalog.capacity := by
      rw [files,legacy]
      rcases sure with none_ | ⟨-,room⟩
      · rw [none_,Finset.erase_empty,Finset.card_empty]
        exact Nat.zero_le _
      · exact room
    rcases remove_adopting stores adopts (by rw [files,legacy]; exact fits) enough with ⟨cached,absent,after,
      gone⟩ | ⟨catalog,done,registers⟩
    · rw [files,legacy] at gone
      have none_ : names = ∅ := sure.resolve_right fun there => gone there.1
      rw [absent] at stepped
      cases stepped
      subst none_
      exact .inl ⟨rfl,gone,tracks_unlock after fun _ => ⟨rfl,(congrArg scanApexFiles files).trans legacy⟩⟩
    · rw [files,legacy] at done registers
      rw [done] at stepped
      cases stepped
      exact .inr ⟨rfl,published registers⟩

theorem release_tracks : dir.release.Tracks crc32 names := by
  unfold Directory.Tracks Directory.release at *
  dsimp only
  split
  · rename_i missing
    rw [missing] at tracks
    exact ⟨rfl,rfl,tracks.2.2⟩
  · rename_i catalog held
    rw [held] at tracks
    exact ⟨tracks.1,nofun,nofun⟩

end

theorem step_tracks {call : Call} (tracks : dir.Tracks crc32 names) (allowed : settles dir call = true)
    (stepped : exec crc32 dir call = some (outcome,next)) : next.Tracks crc32 (registered names [outcome]) := by
  cases call with
  | lock =>
    cases stepped
    exact lock_tracks tracks allowed
  | snapshot =>
    cases stepped
    exact (snapshot_tracks tracks).2
  | insert name early =>
    simp only [settles,Bool.and_eq_true,Bool.or_eq_true,decide_eq_true_eq] at allowed
    rcases insert_cases tracks allowed.2 stepped with ⟨error,rfl,kept,-⟩ | ⟨rfl,grown,-⟩
    · exact kept
    · exact grown allowed.1
  | remove name unlinks =>
    rcases remove_cases tracks allowed stepped with ⟨rfl,gone,kept⟩ | ⟨rfl,erased⟩
    · have same : registered names [.removed name (.ok false)] = names := Finset.erase_eq_of_notMem gone
      rwa [same]
    · exact erased
  | release =>
    cases stepped
    exact release_tracks tracks
  | touch modified =>
    cases stepped
    exact tracks

end Directory

def CatalogFile.used (catalog : CatalogFile) (index : Nat) :
    Prop := index < catalog.capacity ∧ catalog.slotNameLen index ≠ 0

def CatalogFile.usedSlots (catalog : CatalogFile) : Nat := catalog.slots.countP fun slot => slot.nameLen != 0

def Directory.Full (dir : Directory) : Prop := ∃ catalog, dir.catalog = some catalog ∧
    catalog.usedSlots = catalog.capacity

def Outcome.failed : Outcome → Bool
  | .tables (.error _) | .inserted _ (.error _) | .removed _ (.error _) | .removed _ (.ok false) => true
  | _ => false

/-- The registry is the set `names`: in what it shows, in which insertions fail, in that a call that
fails changes nothing, and in the counters of the header. -/
structure Durable (crc32 : Bytes → UInt32) (names : Finset String) (dir : Directory) : Prop where
  snapshot : (dir.snapshot crc32).1 = .ok names
  inserts : ∀ name early outcome next, exec crc32 dir (.insert name early) = some (.inserted name outcome,next) →
    ((∃ error, outcome = .error error) ↔ name ∈ names ∨ dir.Full)
  unchanged : ∀ call outcome next, exec crc32 dir call = some (outcome,next) → outcome.failed = true →
    (next.snapshot crc32).1 = .ok names
  counters : ∀ catalog, dir.catalog = some catalog →
    catalog.entryCount = catalog.usedSlots ∧ ∀ index, catalog.used index → index ≤ catalog.lastSlot

def fitting (_ : Directory) : Call → Bool
  | .insert name _ => decide (Fit name)
  | _ => true

structure Fresh (dir : Directory) : Prop where
  catalog : dir.catalog = none
  mapped : dir.mapped = none
  cached : dir.cached = none
  files : scanApexFiles dir.files = ∅

section Durable

variable {dir next : Directory} {names : Finset String} {outcome : Outcome} {call : Call} {catalog : CatalogFile}

theorem Registers.counters (registers : Registers crc32 catalog names) :
    catalog.usedSlots = names.card ∧ ∀ index, catalog.used index → index ≤ catalog.lastSlot := by
  obtain ⟨pool,holds,rfl⟩ := registers
  have fit : ∀ entry ∈ pool, (render crc32 entry).nameLen = 0 ↔ entry = none :=
    fun entry member => render_nameLen (holds.entry_fit member)
  refine ⟨?_,fun index used => ?_⟩
  · rw [List.toFinset_card_of_nodup holds.distinct,Pool.length_reduceOption,usedSlots,holds.slots,List.countP_map]
    refine List.countP_congr fun entry member => ?_
    rw [Function.comp_apply,bne_iff_ne,ne_eq,fit entry member,Option.isSome_iff_ne_none]
  · obtain ⟨inside,taken⟩ := used
    rw [holds.capacity] at inside
    rw [slotNameLen,holds.slots,List.getElem?_map,List.getElem?_eq_getElem inside] at taken
    cases entry : pool[index] with
    | none =>
      rw [entry] at taken
      exact absurd rfl taken
    | some name => exact holds.below index name (by rw [List.getElem?_eq_getElem inside,entry])

theorem registers_of_tracks (tracks : dir.Tracks crc32 names) (held : dir.catalog = some catalog) :
    Registers crc32 catalog names := by
  unfold Directory.Tracks at tracks
  rw [held] at tracks
  exact tracks.1

theorem lock_catalog (held : dir.catalog = some catalog) : dir.lock.catalog = catalog := by
  unfold Directory.lock
  rw [held]
  cases dir.mapped with
  | none => rfl
  | some mapping =>
    dsimp only
    split <;> rfl

theorem exec_missing (names : Finset String) (stepped : exec crc32 dir call = some (outcome,next))
    (missing : next.catalog = none) :
    dir.catalog = none ∧ registered names [outcome] = names := by
  have some_ : ∀ (state : Locked) (name : String), (state.unlock.withFile name).catalog = some state.catalog :=
    fun state name => by
    unfold Directory.withFile
    split <;> rfl
  cases call with
  | lock =>
    cases stepped
    cases missing
  | snapshot =>
    cases stepped
    split at missing
    · exact ⟨missing,rfl⟩
    · cases missing
  | insert name early =>
    simp only [exec] at stepped
    split at stepped
    · cases stepped
      rw [some_] at missing
      cases missing
    · cases stepped
      cases missing
  | remove name unlinks =>
    simp only [exec] at stepped
    split at stepped
    · cases stepped
      split at missing <;> cases missing
    · cases stepped
      cases missing
  | release =>
    cases stepped
    exact ⟨missing,rfl⟩
  | touch modified =>
    cases stepped
    exact ⟨missing,rfl⟩

section
variable (tracks : dir.Tracks crc32 names) (none_ : dir.catalog = none → names = ∅)
include tracks none_

theorem no_files (missing : dir.catalog = none) :
    scanApexFiles dir.files = ∅ := by
  unfold Directory.Tracks at tracks
  rw [missing] at tracks
  rw [tracks.2.2.1,none_ missing]

theorem settles_of_fitting (fit : fitting dir call = true) : settles dir call = true := by
  cases held : dir.catalog with
  | some catalog => cases call <;> simp_all [settles,fitting]
  | none =>
    have empty := no_files tracks none_ held
    cases call with
    | insert name early =>
      simp only [fitting,decide_eq_true_eq] at fit
      simp [settles,held,empty,fit,defaultCapacity]
    | _ => simp [settles,held,empty]

theorem room_of_tracks (name : String) :
    dir.catalog.isSome = true ∨ (insert name (scanApexFiles dir.files)).card ≤ defaultCapacity := by
  cases held : dir.catalog with
  | some catalog => exact .inl rfl
  | none =>
    rw [no_files tracks none_ held]
    exact .inr (Nat.succ_le_succ (Nat.zero_le _))

end

theorem full_iff (tracks : dir.Tracks crc32 names) (held : dir.catalog = some catalog) :
    dir.Full ↔ names.card = dir.lock.catalog.capacity := by
  rw [lock_catalog held,← (registers_of_tracks tracks held).counters.1]
  refine ⟨fun ⟨other,there,full⟩ => ?_,fun full => ⟨catalog,held,full⟩⟩
  cases Option.some.inj (held.symm.trans there)
  exact full

theorem inserts_of_tracks {name : String} {early : Bool} {result : Except IoError Unit}
    (tracks : dir.Tracks crc32 names) (none_ : dir.catalog = none → names = ∅)
    (stepped : exec crc32 dir (.insert name early) = some (.inserted name result,next)) :
    (∃ error, result = .error error) ↔ name ∈ names ∨ dir.Full := by
  rcases insert_cases tracks (room_of_tracks tracks none_ name) stepped with ⟨error,same,-,there,
    reason⟩ | ⟨same,-,reason⟩
  · cases same
    obtain ⟨catalog,held⟩ := Option.isSome_iff_exists.mp there
    rw [full_iff tracks held]
    exact iff_of_true ⟨error,rfl⟩ reason
  · cases same
    refine iff_of_false (fun ⟨_,failed⟩ => nomatch failed) ?_
    rintro (member | full)
    · rcases reason with rfl | missing | ⟨fresh,-⟩
      · exact absurd member (Finset.notMem_empty name)
      · rw [none_ missing] at member
        exact absurd member (Finset.notMem_empty name)
      · exact fresh member
    · have ⟨catalog,held,_⟩ := full
      have size := (full_iff tracks held).mp full
      rcases reason with rfl | missing | ⟨-,less⟩
      · exact absurd size (Nat.ne_of_lt dir.lock.catalog.room)
      · rw [held] at missing
        cases missing
      · omega

theorem unchanged_of_tracks (tracks : dir.Tracks crc32 names) (none_ : dir.catalog = none → names = ∅)
    (stepped : exec crc32 dir call = some (outcome,next)) (failed : outcome.failed = true) :
    next.Tracks crc32 names := by
  cases call with
  | insert name early =>
    rcases insert_cases tracks (room_of_tracks tracks none_ name) stepped with ⟨error,rfl,kept,-⟩ | ⟨rfl,-⟩
    · exact kept
    · cases failed
  | remove name unlinks =>
    rcases remove_cases tracks (settles_of_fitting tracks none_ rfl) stepped with ⟨rfl,-,kept⟩ | ⟨rfl,-⟩
    · exact kept
    · cases failed
  | snapshot =>
    have shown := (snapshot_tracks tracks).1
    simp only [exec,Option.some.injEq,Prod.mk.injEq] at stepped
    rw [shown] at stepped
    rw [← stepped.1] at failed
    cases failed
  | lock =>
    cases stepped
    cases failed
  | release =>
    cases stepped
    cases failed
  | touch modified =>
    cases stepped
    cases failed

theorem durable_of_tracks (tracks : dir.Tracks crc32 names) (none_ : dir.catalog = none → names = ∅) :
    Durable crc32 names dir where
  snapshot := (snapshot_tracks tracks).1
  inserts := fun _ _ _ _ stepped => inserts_of_tracks tracks none_ stepped
  unchanged := fun _ _ _ stepped failed => (snapshot_tracks (unchanged_of_tracks tracks none_ stepped failed)).1
  counters := fun catalog held => by
    have registers := registers_of_tracks tracks held
    exact ⟨registers.count.trans registers.counters.1.symm,registers.counters.2⟩

theorem registered_snoc (names : Finset String) (trace : List Outcome) (outcome : Outcome) :
    registered names (trace ++ [outcome]) = registered (registered names trace) [outcome] := by
  rw [registered,List.foldl_append]
  rfl

end Durable

/-- The registry of a new directory is the set of the names that were inserted and not removed since,
in every run that inserts names that fit into a slot. -/
theorem registry_is_a_durable_set {start final : Directory} {trace : List Outcome} (fresh : Fresh start)
    (run : Run (exec crc32) fitting start trace final) : Durable crc32 (registered ∅ trace) final := by
  have kept : final.Tracks crc32 (registered ∅ trace) ∧ (final.catalog = none → registered ∅ trace = ∅) := by
    refine run.invariant (P := fun trace dir => dir.Tracks crc32 (registered ∅ trace) ∧
      (dir.catalog = none → registered ∅ trace = ∅)) ?_ ?_
    · refine ⟨?_,fun _ => rfl⟩
      unfold Directory.Tracks
      rw [fresh.catalog]
      exact ⟨fresh.mapped,fresh.cached,fresh.files,nofun⟩
    · intro trace dir call outcome next _ before allowed stepped
      rw [registered_snoc]
      refine ⟨step_tracks before.1 (settles_of_fitting before.1 before.2 allowed) stepped,fun missing => ?_⟩
      obtain ⟨missingBefore,same⟩ := exec_missing (registered ∅ trace) stepped missing
      rw [same,before.2 missingBefore]
  exact durable_of_tracks kept.1 kept.2

def newDirectory : Directory := ⟨"db",∅,none,0,none,none⟩

theorem newDirectory_fresh : Fresh newDirectory := ⟨rfl,rfl,rfl,rfl⟩

/-- Two tables inserted and one removed, across a remapping of the file. -/
theorem videos_and_frames_durable : ∃ trace final,
    Run (exec Crc.crc32) fitting newDirectory trace final ∧ (final.snapshot Crc.crc32).1 = .ok {"frames"} := by
  have played : (play (exec Crc.crc32) fitting newDirectory
      [.insert "videos" true,.insert "frames" false,.release,.remove "videos" true]).map (fun played =>
        registered ∅ played.1) =
      some {"frames"} := by decide +kernel
  obtain ⟨⟨trace,final⟩,played,names⟩ := Option.map_eq_some_iff.mp played
  have run := Run.of_play played
  refine ⟨trace,final,run,?_⟩
  rw [(registry_is_a_durable_set newDirectory_fresh run).snapshot,names]

def longName : String := String.ofList (List.replicate 129 'a')

/-- The slot holds the first 128 bytes of the name: the table is gone when the file is mapped again. -/
theorem long_name_not_durable : Fresh newDirectory ∧
    ¬ ∀ trace final, Run (exec Crc.crc32) (fun _ _ => true) newDirectory trace final →
    Durable Crc.crc32 (registered ∅ trace) final := by
  refine ⟨newDirectory_fresh,fun durable => ?_⟩
  have played : (play (exec Crc.crc32) (fun _ _ => true) newDirectory [.insert longName true,.release]).map
      (fun played => match (played.2.snapshot Crc.crc32).1 with
        | .ok names => decide (longName ∈ registered ∅ played.1) && decide (longName ∉ names)
        | .error _ => false) = some true := by decide +kernel
  obtain ⟨⟨trace,final⟩,played,lost⟩ := Option.map_eq_some_iff.mp played
  rw [(durable trace final (Run.of_play played)).snapshot] at lost
  simp only [Bool.and_eq_true,decide_eq_true_eq] at lost
  exact lost.2 lost.1

end ApexBase.Catalog
