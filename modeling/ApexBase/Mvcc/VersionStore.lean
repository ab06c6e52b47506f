import ApexBase.Data.Value

/-! Version chains of `storage/mvcc/version_store.rs`. A chain is ordered newest first; a version is
visible at a timestamp inside its half-open interval. -/
namespace ApexBase.Mvcc
open Data Library.Assoc

/-- `TS_ACTIVE`, which is also the `u64::MAX` that stands for no active snapshot. -/
def tsActive : Nat := 2^64 - 1

/-- `TS_INF`: the version has no end. -/
def tsInf : Nat := 2^64 - 2

structure RowVersion where
  beginTs : Nat
  endTs : Nat
  data : Row
  isDelete : Bool

namespace RowVersion

def newInsert (beginTs : Nat) (data : Row) : RowVersion := ⟨beginTs,tsInf,data,false⟩

def newUpdate (beginTs : Nat) (data : Row) : RowVersion := ⟨beginTs,tsInf,data,false⟩

def newDelete (beginTs : Nat) : RowVersion := ⟨beginTs,tsInf,∅,true⟩

def isVisibleAt (version : RowVersion) (snapshotTs : Nat) : Bool :=
  decide (version.beginTs ≤ snapshotTs) && decide (snapshotTs < version.endTs)

def setEnd (version : RowVersion) (endTs : Nat) : RowVersion := {version with endTs}

def isLatest (version : RowVersion) : Bool := version.endTs == tsInf

end RowVersion

structure VersionChain where
  rowId : Nat
  versions : List RowVersion

namespace VersionChain

def new (rowId : Nat) (version : RowVersion) : VersionChain := ⟨rowId,[version]⟩

def closeLatest (endTs : Nat) : List RowVersion → List RowVersion
  | [] => []
  | prev :: rest => (if prev.isLatest then prev.setEnd endTs else prev) :: rest

def addVersion (chain : VersionChain) (version : RowVersion) : VersionChain :=
  {chain with versions := version :: closeLatest version.beginTs chain.versions}

def getVisible (chain : VersionChain) (snapshotTs : Nat) : Option RowVersion :=
  match chain.versions.find? (·.isVisibleAt snapshotTs) with
  | some version => if version.isDelete then none else some version
  | none => none

def latest (chain : VersionChain) : Option RowVersion := chain.versions.head?

def isDeletedAt (chain : VersionChain) (snapshotTs : Nat) : Bool :=
  match chain.versions.find? (·.isVisibleAt snapshotTs) with
  | some version => version.isDelete
  | none => true

/-- The collected chain and the number of versions removed from it. -/
def gc (chain : VersionChain) (oldestActiveTs : Nat) : VersionChain × Nat :=
  if chain.versions.length ≤ 1 then (chain,0)
  else
    let kept := chain.versions.filter (fun v => v.isLatest || decide (v.endTs > oldestActiveTs))
    ({chain with versions := kept},chain.versions.length - kept.length)

def versionCount (chain : VersionChain) : Nat := chain.versions.length

end VersionChain

structure VersionStore where
  chains : Map Nat VersionChain
  totalVersions : Nat

namespace VersionStore

def new : VersionStore := ⟨∅,0⟩

def insert (store : VersionStore) (rowId beginTs : Nat) (data : Row) : VersionStore :=
  ⟨store.chains.insert rowId (VersionChain.new rowId (.newInsert beginTs data)),store.totalVersions + 1⟩

def rowNotFound (rowId : Nat) : IoError := ⟨.notFound,"Row " ++ toString rowId ++ " not found"⟩

/-- Add a version to an existing chain; `update` and `delete` differ in the version only. -/
def addTo (store : VersionStore) (rowId : Nat) (version : RowVersion) : Except IoError VersionStore :=
  match store.chains.lookup rowId with
  | none => .error (rowNotFound rowId)
  | some chain => .ok ⟨store.chains.insert rowId (chain.addVersion version),store.totalVersions + 1⟩

def update (store : VersionStore) (rowId beginTs : Nat) (data : Row) : Except IoError VersionStore :=
  store.addTo rowId (.newUpdate beginTs data)

def delete (store : VersionStore) (rowId beginTs : Nat) : Except IoError VersionStore :=
  store.addTo rowId (.newDelete beginTs)

def read (store : VersionStore) (rowId snapshotTs : Nat) : Option Row :=
  ((store.chains.lookup rowId).bind (·.getVisible snapshotTs)).map (·.data)

def «exists» (store : VersionStore) (rowId snapshotTs : Nat) : Bool :=
  ((store.chains.lookup rowId).map (fun chain => !chain.isDeletedAt snapshotTs)).getD false

def readLatest (store : VersionStore) (rowId : Nat) : Option Row :=
  (((store.chains.lookup rowId).bind (·.latest)).filter (fun v => !v.isDelete)).map (·.data)

/-- A chain stays unless it is empty or its tombstone ended before every snapshot. -/
def keepsChain (oldestActiveTs : Nat) (chain : VersionChain) : Bool :=
  match chain.latest with
  | some version => !(version.isDelete && decide (version.endTs < oldestActiveTs))
  | none => false

def gc (store : VersionStore) (oldestActiveTs : Nat) : VersionStore × Nat :=
  let removed := ((values store.chains).map (fun chain => (chain.gc oldestActiveTs).2)).sum
  let collected := mapValues (fun chain => (chain.gc oldestActiveTs).1) store.chains
  (⟨retain (fun _ chain => keepsChain oldestActiveTs chain) collected,store.totalVersions - removed⟩,removed)

def rowCount (store : VersionStore) : Nat := store.chains.entries.length

end VersionStore

namespace VersionChain

/-- What a snapshot sees of a chain: the data of the visible version and whether it is a tombstone. -/
def sees (chain : VersionChain) (snapshotTs : Nat) : Option (Row × Bool) :=
  (chain.versions.find? (·.isVisibleAt snapshotTs)).map (fun v => (v.data,v.isDelete))

def Open (chain : VersionChain) : Prop := ∃ head rest, chain.versions = head :: rest ∧ head.endTs = tsInf

def tombstoned (chain : VersionChain) : Bool := (chain.latest.map (·.isDelete)).getD true

theorem open_new (rowId : Nat) (version : RowVersion) (unended : version.endTs = tsInf) : (new rowId version).Open :=
  ⟨version,[],rfl,unended⟩

section
variable (chain : VersionChain)

theorem open_addVersion (version : RowVersion) (unended : version.endTs = tsInf) :
    (chain.addVersion version).Open :=
  ⟨version,_,rfl,unended⟩

theorem open_gc (oldestActiveTs : Nat) (opened : chain.Open) :
    (chain.gc oldestActiveTs).1.Open := by
  obtain ⟨head,rest,shape,unended⟩ := opened
  unfold gc
  split
  · exact ⟨head,rest,shape,unended⟩
  · have latest : head.isLatest = true := by simp [RowVersion.isLatest,unended]
    exact ⟨head,rest.filter (fun v => v.isLatest || decide (v.endTs > oldestActiveTs)),by simp [shape,latest],unended⟩

/-- A new version is invisible below its own timestamp, and closing the previous latest version at
that timestamp changes nothing below it. -/
theorem sees_addVersion (version : RowVersion) (ts : Nat) (before : ts < version.beginTs)
    (finite : ts < tsInf) : (chain.addVersion version).sees ts = chain.sees ts := by
  have hidden : version.isVisibleAt ts = false := by
    simp [RowVersion.isVisibleAt,Nat.not_le.mpr before]
  simp only [sees,addVersion,List.find?_cons_of_neg,hidden,Bool.false_eq_true,not_false_eq_true]
  cases chain.versions with
  | nil => rfl
  | cons prev rest =>
    simp only [closeLatest]
    by_cases latest : prev.isLatest
    · have ended : prev.endTs = tsInf := by simpa [RowVersion.isLatest] using latest
      have same : (prev.setEnd version.beginTs).isVisibleAt ts = prev.isVisibleAt ts := by
        change (decide (prev.beginTs ≤ ts) && decide (ts < version.beginTs)) = _
        simp [RowVersion.isVisibleAt,before,ended,finite]
      simp only [latest,if_true,List.find?_cons,same]
      cases prev.isVisibleAt ts <;> rfl
    · simp [latest]

theorem sees_gc (oldestActiveTs ts : Nat) (covered : oldestActiveTs ≤ ts) :
    (chain.gc oldestActiveTs).1.sees ts = chain.sees ts := by
  unfold gc
  split
  · rfl
  have same : (chain.versions.filter (fun v => v.isLatest || decide (v.endTs > oldestActiveTs))).find?
      (·.isVisibleAt ts) = chain.versions.find? (·.isVisibleAt ts) := by
    rw [List.find?_filter]
    congr 1
    funext version
    by_cases visible : version.isVisibleAt ts = true
    · have later : ts < version.endTs := by simpa using (Bool.and_eq_true_iff.mp visible).2
      simp [visible,Nat.lt_of_le_of_lt covered later]
    · simp [visible]
  simp only [sees,same]

theorem getVisible_eq (ts : Nat) :
    (chain.getVisible ts).map (·.data) = (chain.sees ts).bind (fun v => if v.2 then none else some v.1) := by
  unfold getVisible sees
  cases chain.versions.find? (·.isVisibleAt ts) with
  | none => rfl
  | some version => cases deleted : version.isDelete <;> simp [deleted]

theorem isDeletedAt_eq (ts : Nat) :
    chain.isDeletedAt ts = ((chain.sees ts).map (·.2)).getD true := by
  unfold isDeletedAt sees
  cases chain.versions.find? (·.isVisibleAt ts) <;> rfl

end

end VersionChain

namespace VersionStore

section
variable (store : VersionStore) (rowId ts : Nat) (chain : VersionChain) (found : store.chains.lookup rowId = some chain)
include found

theorem read_of_chain :
    store.read rowId ts = (chain.sees ts).bind (fun v => if v.2 then none else some v.1) := by
  rw [← chain.getVisible_eq]
  simp [read,found]

theorem exists_of_chain :
    store.exists rowId ts = !((chain.sees ts).map (·.2)).getD true := by
  rw [← chain.isDeletedAt_eq]
  simp [VersionStore.exists,found]

end

theorem readLatest_isNone (store : VersionStore) (rowId : Nat) (chain : VersionChain)
    (found : store.chains.lookup rowId = some chain) : (store.readLatest rowId).isNone = chain.tombstoned := by
  simp only [readLatest,found,Option.bind_some,VersionChain.tombstoned]
  cases chain.latest with
  | none => rfl
  | some version => cases deleted : version.isDelete <;> simp [Option.filter,deleted]

section
variable (store : VersionStore) (oldestActiveTs rowId : Nat) (chain : VersionChain)

theorem lookup_gc (found : store.chains.lookup rowId = some chain) (opened : chain.Open)
    (real : oldestActiveTs ≤ tsInf) :
    (store.gc oldestActiveTs).1.chains.lookup rowId = some (chain.gc oldestActiveTs).1 := by
  refine (lookup_retain _ _ _ _).mpr ⟨by simp [found],?_⟩
  obtain ⟨head,rest,shape,unended⟩ := chain.open_gc oldestActiveTs opened
  simp only [keepsChain,VersionChain.latest,shape,List.head?_cons,unended]
  simp [Nat.not_lt.mpr real]

theorem lookup_gc_open (opened : ∀ rowId chain, store.chains.lookup rowId = some chain → chain.Open)
    (found : (store.gc oldestActiveTs).1.chains.lookup rowId = some chain) : chain.Open := by
  obtain ⟨collected,_⟩ := (lookup_retain _ _ _ _).mp found
  rw [lookup_mapValues] at collected
  obtain ⟨old,before,rfl⟩ := Option.map_eq_some_iff.mp collected
  exact old.open_gc oldestActiveTs (opened rowId old before)

end

end VersionStore

end ApexBase.Mvcc
