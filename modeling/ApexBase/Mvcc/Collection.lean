import ApexBase.Mvcc.Snapshot
import Mathlib.Algebra.BigOperators.Group.List.Basic

/-! Garbage collection over whole histories of a version store. Timestamps need not
increase: the newest version of a chain never has an end, and that is all that
collection relies on. -/
namespace ApexBase.Mvcc
open Data Library.Assoc

inductive StoreOp
  | insert (rowId beginTs : Nat) (data : Row)
  | update (rowId beginTs : Nat) (data : Row)
  | delete (rowId beginTs : Nat)
  | gc (oldestActiveTs : Nat)

namespace VersionStore

def apply (store : VersionStore) : StoreOp → VersionStore
  | .insert rowId beginTs data => store.insert rowId beginTs data
  | .update rowId beginTs data => (store.update rowId beginTs data).toOption.getD store
  | .delete rowId beginTs => (store.delete rowId beginTs).toOption.getD store
  | .gc oldestActiveTs => (store.gc oldestActiveTs).1

def history (ops : List StoreOp) : VersionStore := ops.foldl apply new

def Opened (store : VersionStore) : Prop := ∀ rowId chain, store.chains.lookup rowId = some chain → chain.Open

variable {store : VersionStore}

theorem addTo_cases (store : VersionStore) (rowId : Nat) (version : RowVersion) :
    (store.chains.lookup rowId = none ∧ (store.addTo rowId version).toOption.getD store = store) ∨
    ∃ chain, store.chains.lookup rowId = some chain ∧ (store.addTo rowId version).toOption.getD store =
      ⟨store.chains.insert rowId (chain.addVersion version),store.totalVersions + 1⟩ := by
  unfold addTo
  cases found : store.chains.lookup rowId with
  | none => exact Or.inl ⟨rfl,rfl⟩
  | some chain => exact Or.inr ⟨chain,rfl,rfl⟩

private theorem opened_addTo (rowId : Nat) (version : RowVersion) (unended : version.endTs = tsInf)
    (opened : store.Opened) :
    ((store.addTo rowId version).toOption.getD store).Opened := by
  rcases store.addTo_cases rowId version with ⟨_,same⟩ | ⟨chain,_,added⟩
  · rwa [same]
  · rw [added]
    intro other found lookedUp
    rcases lookup_of_insert lookedUp with ⟨_,rfl⟩ | ⟨_,old⟩
    · exact chain.open_addVersion version unended
    · exact opened other found old

theorem opened_new : new.Opened := by
  intro rowId chain found
  simp [new] at found

theorem opened_apply (op : StoreOp) (opened : store.Opened) : (store.apply op).Opened := by
  cases op with
  | insert rowId beginTs data =>
    intro other chain found
    rcases lookup_of_insert found with ⟨_,rfl⟩ | ⟨_,old⟩
    · exact VersionChain.open_new _ _ rfl
    · exact opened other chain old
  | update rowId beginTs data => exact opened_addTo rowId _ rfl opened
  | delete rowId beginTs => exact opened_addTo rowId _ rfl opened
  | gc oldestActiveTs => exact fun rowId chain found => store.lookup_gc_open oldestActiveTs rowId chain opened found

theorem opened_foldl (ops : List StoreOp) (opened : store.Opened) : (ops.foldl apply store).Opened := by
  induction ops generalizing store with
  | nil => exact opened
  | cons op rest ih => exact ih (opened_apply op opened)

theorem opened_history (ops : List StoreOp) : (history ops).Opened := opened_foldl ops opened_new

end VersionStore

namespace VersionChain

theorem latest_gc {chain : VersionChain} (oldestActiveTs : Nat) (opened : chain.Open) :
    (chain.gc oldestActiveTs).1.latest = chain.latest := by
  obtain ⟨head,rest,shape,unended⟩ := opened
  unfold gc
  split
  · rfl
  · have latest : head.isLatest = true := by simp [RowVersion.isLatest,unended]
    simp [VersionChain.latest,shape,latest]

theorem gc_gc (chain : VersionChain) (oldestActiveTs : Nat) :
    (chain.gc oldestActiveTs).1.gc oldestActiveTs = ((chain.gc oldestActiveTs).1,0) := by
  by_cases short : chain.versions.length ≤ 1
  · simp [gc,short]
  · unfold gc
    simp only [if_neg short,List.filter_filter,Bool.and_self,Nat.sub_self]
    split <;> rfl

theorem length_gc (chain : VersionChain) (oldestActiveTs : Nat) :
    (chain.gc oldestActiveTs).1.versionCount + (chain.gc oldestActiveTs).2 = chain.versionCount := by
  unfold gc versionCount
  split
  · rfl
  · exact Nat.add_sub_cancel' (List.length_filter_le _ _)

end VersionChain

namespace VersionStore

variable {store : VersionStore}

theorem chain_gc (store : VersionStore) (oldestActiveTs rowId : Nat) : (store.gc oldestActiveTs).1.chains.lookup rowId =
    ((store.chains.lookup rowId).map fun chain => (chain.gc oldestActiveTs).1).filter (keepsChain oldestActiveTs) := by
  apply Option.ext
  intro chain
  refine (lookup_retain _ _ _ _).trans ?_
  rw [lookup_mapValues,Option.filter_eq_some_iff]

theorem keepsChain_gc {chain : VersionChain} (oldestActiveTs : Nat) (opened : chain.Open) :
    keepsChain oldestActiveTs (chain.gc oldestActiveTs).1 = !(chain.tombstoned && decide (tsInf < oldestActiveTs)) := by
  have same := chain.latest_gc oldestActiveTs opened
  obtain ⟨head,rest,shape,unended⟩ := opened
  have latest : chain.latest = some head := by simp [VersionChain.latest,shape]
  simp [keepsChain,VersionChain.tombstoned,same,latest,unended]

theorem read_gc (opened : store.Opened) {oldestActiveTs ts : Nat} (rowId : Nat) (covered : oldestActiveTs ≤ ts)
    (real : ts < tsInf) :
    (store.gc oldestActiveTs).1.read rowId ts = store.read rowId ts ∧
      (store.gc oldestActiveTs).1.exists rowId ts = store.exists rowId ts := by
  have early : oldestActiveTs ≤ tsInf := by omega
  cases found : store.chains.lookup rowId with
  | none =>
    have gone : (store.gc oldestActiveTs).1.chains.lookup rowId = none := by rw [chain_gc,found]; rfl
    simp [read,VersionStore.exists,found,gone]
  | some chain =>
    have kept := store.lookup_gc oldestActiveTs rowId chain found (opened rowId chain found) early
    rw [read_of_chain _ rowId ts _ kept,read_of_chain _ rowId ts _ found,exists_of_chain _ rowId ts _ kept,
      exists_of_chain _ rowId ts _ found,chain.sees_gc oldestActiveTs ts covered]
    exact ⟨rfl,rfl⟩

theorem readLatest_gc (opened : store.Opened) (oldestActiveTs rowId : Nat) :
    (store.gc oldestActiveTs).1.readLatest rowId = store.readLatest rowId := by
  unfold readLatest
  rw [chain_gc]
  cases found : store.chains.lookup rowId with
  | none => rfl
  | some chain =>
    have open_ := opened rowId chain found
    have same := chain.latest_gc oldestActiveTs open_
    rw [Option.map_some,Option.filter_some,keepsChain_gc oldestActiveTs open_]
    cases dropped : chain.tombstoned && decide (tsInf < oldestActiveTs) with
    | false => simp [same]
    | true =>
      -- What is dropped shows no row.
      have dead : chain.tombstoned = true := (Bool.and_eq_true_iff.mp dropped).1
      have nothing := store.readLatest_isNone rowId chain found
      rw [dead,readLatest,found,Option.isNone_iff_eq_none] at nothing
      simpa using nothing.symm

private theorem entries_gc (store : VersionStore) (oldestActiveTs : Nat) : (store.gc oldestActiveTs).1.chains.entries =
    (store.chains.entries.map fun e => (⟨e.1,(e.2.gc oldestActiveTs).1⟩ : Sigma fun _ : Nat => VersionChain)).filter
      fun e => keepsChain oldestActiveTs e.2 := rfl

theorem gc_gc (store : VersionStore) (oldestActiveTs : Nat) :
    (store.gc oldestActiveTs).1.gc oldestActiveTs = ((store.gc oldestActiveTs).1,0) := by
  have collected : ∀ e ∈ (store.gc oldestActiveTs).1.chains.entries, e.2.gc oldestActiveTs = (e.2,0) := by
    intro e member
    rw [entries_gc] at member
    obtain ⟨old,_,rfl⟩ := List.mem_map.mp (List.mem_filter.mp member).1
    exact old.2.gc_gc oldestActiveTs
  have zero : ((values (store.gc oldestActiveTs).1.chains).map fun chain => (chain.gc oldestActiveTs).2).sum = 0 := by
    apply List.sum_eq_zero
    intro removed member
    obtain ⟨chain,inside,rfl⟩ := List.mem_map.mp member
    obtain ⟨e,stored,rfl⟩ := List.mem_map.mp inside
    rw [collected e stored]
  have same : ((store.gc oldestActiveTs).1.gc oldestActiveTs).1.chains = (store.gc oldestActiveTs).1.chains := by
    apply AList.ext
    rw [entries_gc]
    have mapped : ((store.gc oldestActiveTs).1.chains.entries.map
        fun e => (⟨e.1,(e.2.gc oldestActiveTs).1⟩ : Sigma fun _ : Nat => VersionChain)) =
          (store.gc oldestActiveTs).1.chains.entries := by
      refine (List.map_congr_left fun e member => ?_).trans (List.map_id _)
      rw [collected e member]
      rfl
    rw [mapped,entries_gc,List.filter_filter]
    simp only [Bool.and_self]
  calc (store.gc oldestActiveTs).1.gc oldestActiveTs
      = (⟨((store.gc oldestActiveTs).1.gc oldestActiveTs).1.chains,(store.gc oldestActiveTs).1.totalVersions -
          ((values (store.gc oldestActiveTs).1.chains).map fun chain => (chain.gc oldestActiveTs).2).sum⟩,
        ((values (store.gc oldestActiveTs).1.chains).map fun chain => (chain.gc oldestActiveTs).2).sum) := rfl
    _ = ((store.gc oldestActiveTs).1,0) := by rw [same,zero]; rfl

/-- Collection is invisible: to every snapshot at or after the oldest active one, to
reads of the newest version, and to a second collection. -/
theorem collection_invisible (ops : List StoreOp) (oldestActiveTs : Nat) :
    (∀ rowId ts, oldestActiveTs ≤ ts → ts < tsInf →
      ((history ops).gc oldestActiveTs).1.read rowId ts = (history ops).read rowId ts ∧
      ((history ops).gc oldestActiveTs).1.exists rowId ts = (history ops).exists rowId ts) ∧
    (∀ rowId, ((history ops).gc oldestActiveTs).1.readLatest rowId = (history ops).readLatest rowId) ∧
    ((history ops).gc oldestActiveTs).1.gc oldestActiveTs = (((history ops).gc oldestActiveTs).1,0) := by
  have opened := opened_history ops
  refine ⟨?_,?_,?_⟩
  · intro rowId ts covered real
    exact read_gc opened rowId covered real
  · intro rowId
    exact readLatest_gc opened oldestActiveTs rowId
  · exact gc_gc _ oldestActiveTs

theorem updated_row_survives_collection :
    let store := history [.insert 1 5 ∅,.update 1 7 ∅,.delete 1 9]
    (store.gc 7).1.read 1 8 = store.read 1 8 ∧ (store.gc 7).1.exists 1 8 = store.exists 1 8 :=
  (collection_invisible [.insert 1 5 ∅,.update 1 7 ∅,.delete 1 9] 7).1 1 8 (by decide) (by decide)

end VersionStore

end ApexBase.Mvcc
