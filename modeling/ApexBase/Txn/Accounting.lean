import ApexBase.Mvcc.Collection
import ApexBase.Txn.Manager

/-! The version counter of a store. It is exact for as long as no call drops versions
without counting them: an insert over a chain, or a collection that drops a chain. -/
namespace ApexBase.Mvcc
open Data Library.Assoc

namespace VersionStore

def versionSum (store : VersionStore) : Nat := ((values store.chains).map (·.versionCount)).sum

/-- The call drops no version that it does not count. -/
def countsAll (store : VersionStore) : StoreOp → Bool
  | .insert rowId _ _ => (store.chains.lookup rowId).isNone
  | .gc oldestActiveTs => decide (oldestActiveTs ≤ tsInf) || (values store.chains).all fun chain => !chain.tombstoned
  | _ => true

def allCount : VersionStore → List StoreOp → Bool
  | _,[] => true
  | store,op :: rest => store.countsAll op && allCount (store.apply op) rest

/-- The counter is exact, and a store without chains goes when stores are pruned. -/
structure Accounted (store : VersionStore) : Prop where
  exact_ : store.totalVersions = store.versionSum
  pruned : store.chains = ∅ → ∀ stores table, stores.lookup table = some store →
    (Txn.TxnManager.pruneEmptyVersionStores stores).lookup table = none

def lost (store : VersionStore) : StoreOp → Nat
  | .insert rowId _ _ => ((store.chains.lookup rowId).map (·.versionCount)).getD 0
  | .gc oldestActiveTs => (((values store.chains).filter fun chain => chain.tombstoned &&
    decide (tsInf < oldestActiveTs)).map
      fun chain => (chain.gc oldestActiveTs).1.versionCount).sum
  | _ => 0

variable {store : VersionStore}

private theorem sum_insert (chains : Map Nat VersionChain) (rowId : Nat) (chain : VersionChain) :
    ((values (chains.insert rowId chain)).map (·.versionCount)).sum +
    ((chains.lookup rowId).map (·.versionCount)).getD 0 =
      ((values chains).map (·.versionCount)).sum + chain.versionCount := by
  rw [values_insert,List.map_cons,List.sum_cons]
  cases found : chains.lookup rowId with
  | none =>
    rw [values_erase_none found,Option.map_none,Option.getD_none]
    omega
  | some old =>
    rw [((perm_values found).map _).sum_eq,List.map_cons,List.sum_cons,Option.map_some,Option.getD_some]
    omega

private theorem counted_addTo {extra : Nat} (rowId : Nat) (version : RowVersion)
    (counted : store.totalVersions = store.versionSum + extra) :
    ((store.addTo rowId version).toOption.getD store).totalVersions =
      ((store.addTo rowId version).toOption.getD store).versionSum + extra := by
  rcases store.addTo_cases rowId version with ⟨_,same⟩ | ⟨chain,found,added⟩
  · rwa [same]
  · have sum := sum_insert store.chains rowId (chain.addVersion version)
    have longer : (chain.addVersion version).versionCount = chain.versionCount + 1 := by
      cases shape : chain.versions <;> simp [VersionChain.versionCount,VersionChain.addVersion,
        VersionChain.closeLatest,shape]
    rw [found,Option.map_some,Option.getD_some,longer] at sum
    rw [added]
    unfold versionSum at counted ⊢
    dsimp only
    omega

private theorem sum_gc (opened : store.Opened) (oldestActiveTs : Nat) : store.versionSum =
    ((values store.chains).map fun chain => (chain.gc oldestActiveTs).2).sum + (store.gc oldestActiveTs).1.versionSum +
      store.lost (.gc oldestActiveTs) := by
  have every : ∀ chain ∈ values store.chains, chain.Open := by
    intro chain member
    obtain ⟨rowId,found⟩ := (mem_values _ _).mp member
    exact opened rowId chain found
  have collected : values (store.gc oldestActiveTs).1.chains =
      ((values store.chains).map fun chain => (chain.gc oldestActiveTs).1).filter (keepsChain oldestActiveTs) := by
    change List.map _ (List.filter _ (List.map _ _)) = _
    rw [values,List.map_map,List.filter_map,List.filter_map,List.map_map]
    rfl
  unfold versionSum lost
  rw [collected]
  dsimp only
  clear collected
  generalize values store.chains = chains at every
  induction chains with
  | nil => rfl
  | cons chain rest ih =>
    have split := chain.length_gc oldestActiveTs
    have kept := keepsChain_gc oldestActiveTs (every chain List.mem_cons_self)
    have others := ih fun c member => every c (List.mem_cons_of_mem _ member)
    cases dropped : chain.tombstoned && decide (tsInf < oldestActiveTs) with
    | false =>
      rw [dropped] at kept
      simp only [List.map_cons,List.sum_cons,List.filter_cons,kept,dropped,Bool.not_false,if_true,
        Bool.false_eq_true,if_false]
      omega
    | true =>
      rw [dropped] at kept
      simp only [List.map_cons,List.sum_cons,List.filter_cons,kept,dropped,Bool.not_true,if_true,
        Bool.false_eq_true,if_false]
      omega

theorem counted_apply {extra : Nat} (op : StoreOp) (opened : store.Opened)
    (counted : store.totalVersions = store.versionSum + extra) :
    (store.apply op).totalVersions = (store.apply op).versionSum + (extra + store.lost op) := by
  cases op with
  | insert rowId beginTs data =>
    have sum := sum_insert store.chains rowId (VersionChain.new rowId (.newInsert beginTs data))
    have one : (VersionChain.new rowId (.newInsert beginTs data)).versionCount = 1 := rfl
    rw [one] at sum
    unfold versionSum at counted ⊢
    simp only [apply,insert,lost]
    omega
  | update rowId beginTs data => exact counted_addTo rowId _ counted
  | delete rowId beginTs => exact counted_addTo rowId _ counted
  | gc oldestActiveTs =>
    have sum := sum_gc opened oldestActiveTs
    change store.totalVersions - _ = _
    simp only [apply]
    omega

private theorem versionCount_pos {chain : VersionChain} (opened : chain.Open) : 0 < chain.versionCount := by
  obtain ⟨head,rest,shape,_⟩ := opened
  simp [VersionChain.versionCount,shape]

theorem lost_eq_zero (op : StoreOp) (opened : store.Opened) : store.lost op = 0 ↔ store.countsAll op = true := by
  cases op with
  | insert rowId beginTs data =>
    cases found : store.chains.lookup rowId with
    | none => simp [lost,countsAll,found]
    | some chain =>
      have some_ := versionCount_pos (opened rowId chain found)
      simp only [lost,countsAll,found,Option.map_some,Option.getD_some,Option.isNone_some,Bool.false_eq_true,iff_false]
      omega
  | update | delete => simp [lost,countsAll]
  | gc oldestActiveTs =>
    simp only [lost,countsAll,List.sum_eq_zero_iff_forall_eq_nat,List.forall_mem_map,List.mem_filter,and_imp,
      Bool.and_eq_true,decide_eq_true_eq,
      Bool.or_eq_true,List.all_eq_true,Bool.not_eq_true']
    constructor
    · intro none_
      rcases Nat.lt_or_ge tsInf oldestActiveTs with unread | early
      · refine Or.inr fun chain member => ?_
        cases dead : chain.tombstoned with
        | false => rfl
        | true =>
          obtain ⟨rowId,found⟩ := (mem_values _ _).mp member
          have some_ := versionCount_pos (chain.open_gc oldestActiveTs (opened rowId chain found))
          have zero := none_ chain member dead unread
          omega
      · exact Or.inl early
    · rintro (early | live) chain member dead unread
      · omega
      · rw [live chain member] at dead
        cases dead

theorem counted_foldl (ops : List StoreOp) {extra : Nat} (opened : store.Opened)
    (counted : store.totalVersions = store.versionSum + extra) :
    (ops.foldl apply store).totalVersions = (ops.foldl apply store).versionSum ↔
    extra = 0 ∧ allCount store ops = true := by
  induction ops generalizing store extra with
  | nil =>
    simp only [List.foldl_nil,allCount,and_true]
    omega
  | cons op rest ih =>
    rw [List.foldl_cons,ih (opened_apply op opened) (counted_apply op opened counted),allCount,Bool.and_eq_true,
      ← lost_eq_zero op opened,
      Nat.add_eq_zero_iff,and_assoc]

theorem accounted_iff : store.Accounted ↔ store.totalVersions = store.versionSum := by
  constructor
  · exact Accounted.exact_
  · intro exact_
    refine ⟨exact_,?_⟩
    intro empty stores table found
    have zero : store.totalVersions = 0 := by
      rw [exact_,versionSum,empty]
      rfl
    have none_ : store.rowCount = 0 := by
      rw [rowCount,empty]
      rfl
    by_contra kept
    obtain ⟨other,lookedUp⟩ := Option.ne_none_iff_exists'.mp kept
    obtain ⟨stored,worth⟩ := (lookup_retain _ _ _ _).mp lookedUp
    cases Option.some.inj (stored.symm.trans found)
    simp [zero,none_] at worth

/-- The counter is exact after a history if and only if no call of it dropped versions
that it did not count. -/
theorem counter_exact_iff (ops : List StoreOp) : (history ops).Accounted ↔ allCount new ops = true := by
  have counted : new.totalVersions = new.versionSum + 0 := rfl
  rw [accounted_iff,history,counted_foldl ops opened_new counted]
  exact and_iff_right rfl

/-- A deleted row that no snapshot reads is dropped, and one version stays counted. -/
theorem dropped_tombstone_stays_counted :
    ¬ (history [.insert 1 5 ∅,.delete 1 7,.gc tsActive]).Accounted := by
  intro accounted
  have counted := accounted.exact_
  revert counted
  decide

end VersionStore

end ApexBase.Mvcc
