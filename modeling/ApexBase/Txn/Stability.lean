import ApexBase.Txn.Invariant

/-! What a transaction sees of a row that has a version chain, from any moment to any later moment
of its life. A commit keeps the answer as long as it is stamped after the snapshot and appends to
the chain instead of replacing it. -/
namespace ApexBase.Txn
open Data Library.Assoc Mvcc

def chainAt (stores : Map String VersionStore) (table : String) (rowId : Nat) : Option VersionChain :=
  (stores.lookup table).bind (·.chains.lookup rowId)

/-- Two moments in the life of a transaction: every row that has a chain at the first reads the same
at the second. -/
def SnapshotStable (m later : TxnManager) : Prop :=
  ∀ txnId txn txn' table rowId chain, m.activeTxns.lookup txnId = some txn → later.activeTxns.lookup txnId = some txn' →
    chainAt m.versionStores table rowId = some chain →
    (later.readVersioned txnId table rowId).1 = (m.readVersioned txnId table rowId).1 ∧
    (later.isVisible txnId table rowId).1 = (m.isVisible txnId table rowId).1

/-- The writes of one commit to one row append to its chain: none is an insert, and none brings old
data to a row whose latest version is a tombstone. -/
def appends (tombstoned : Bool) : List TxnWrite → Bool
  | [] => true
  | .insert .. :: _ => false
  | .delete _ _ oldData :: rest => !(tombstoned && !oldData.entries.isEmpty) && appends true rest
  | .update _ _ oldData _ :: rest => !(tombstoned && !oldData.entries.isEmpty) && appends false rest

/-- The step finalizes nothing that replaces a chain, or carries the timestamp of a snapshot, while
another transaction is open. -/
def System.chainsKept (s : System) : Op → Bool
  | .finalizeCommit txnId _ =>
    match s.held.find? (fun token => token.txnId == txnId) with
    | none => true
    | some token => s.manager.activeTxns.entries.all fun e => e.1 == txnId || token.writes.all fun write =>
        match chainAt s.manager.versionStores write.table write.rowId with
        | none => true
        | some chain => decide (e.2.snapshot.readTs < s.manager.globalTs) &&
            appends chain.tombstoned (token.writes.filter (fun w => w.key == write.key))
  | _ => true

/-! Reads as functions of the chain. -/

private theorem getVersionStore_lookup (m : TxnManager) (table : String) :
    (m.getVersionStore table).1 = (m.versionStores.lookup table).getD .new := by
  unfold TxnManager.getVersionStore
  cases m.versionStores.lookup table <;> rfl

private theorem store_of_chain {stores : Map String VersionStore} {table : String} {rowId : Nat} {chain : VersionChain}
    (found : chainAt stores table rowId = some chain) :
    ∃ store, stores.lookup table = some store ∧ store.chains.lookup rowId = some chain :=
  Option.bind_eq_some_iff.mp found

section
variable (m : TxnManager) (txnId : Nat) (txn : ActiveTxn) (table : String) (rowId : Nat) (chain : VersionChain)
variable (active : m.activeTxns.lookup txnId = some txn) (found : chainAt m.versionStores table rowId = some chain)
include active found

theorem TxnManager.readVersioned_of_chain :
    (m.readVersioned txnId table rowId).1 =
      .ok ((chain.sees txn.snapshot.readTs).bind (fun v => if v.2 then none else some v.1)) := by
  obtain ⟨store,here,inside⟩ := store_of_chain found
  simp [readVersioned,getSnapshotTs,active,getVersionStore_lookup,here,store.read_of_chain _ _ _ inside]

theorem TxnManager.isVisible_of_chain :
    (m.isVisible txnId table rowId).1 = .ok (!((chain.sees txn.snapshot.readTs).map (·.2)).getD true) := by
  obtain ⟨store,here,inside⟩ := store_of_chain found
  simp [isVisible,getSnapshotTs,active,getVersionStore_lookup,here,store.exists_of_chain _ _ _ inside]

end

/-! Publishing the writes of a commit. -/

private def publishRow (commitTs : Nat) (store : VersionStore) : TxnWrite → VersionStore
  | .insert _ rowId data => store.insert rowId commitTs data
  | .delete _ rowId oldData =>
      let seeded := TxnManager.seedVersion store rowId oldData
      TxnManager.ignoreError seeded (seeded.delete rowId commitTs)
  | .update _ rowId oldData newData =>
      let seeded := TxnManager.seedVersion store rowId oldData
      TxnManager.ignoreError seeded (seeded.update rowId commitTs newData)

private theorem publishWrite_eq (commitTs : Nat) (stores : Map String VersionStore) (write : TxnWrite) :
    TxnManager.publishWrite commitTs stores write =
      TxnManager.withStore stores write.table (fun store => publishRow commitTs store write) := by
  cases write <;> rfl

private theorem chainAt_withStore (stores : Map String VersionStore) (table other : String) (rowId : Nat)
    (f : VersionStore → VersionStore) :
    chainAt (TxnManager.withStore stores table f) other rowId =
      if other = table then (f ((stores.lookup table).getD .new)).chains.lookup rowId
      else chainAt stores other rowId := by
  by_cases same : other = table <;> simp [chainAt,TxnManager.withStore,lookup_insert_eq,same]

private theorem chainAt_getD (stores : Map String VersionStore) (table : String) (rowId : Nat) :
    chainAt stores table rowId = ((stores.lookup table).getD .new).chains.lookup rowId := by
  unfold chainAt
  cases stores.lookup table <;> rfl

private theorem lookup_seedVersion_ne (store : VersionStore) (rowId other : Nat) (oldData : Row)
    (different : other ≠ rowId) :
    (TxnManager.seedVersion store rowId oldData).chains.lookup other = store.chains.lookup other := by
  unfold TxnManager.seedVersion
  split
  · exact AList.lookup_insert_ne different
  · rfl

private theorem lookup_addTo_ne (store : VersionStore) (rowId other : Nat) (version : RowVersion)
    (different : other ≠ rowId) :
    (TxnManager.ignoreError store (store.addTo rowId version)).chains.lookup other = store.chains.lookup other := by
  unfold VersionStore.addTo
  split
  · rfl
  · exact AList.lookup_insert_ne different

private theorem lookup_publishRow_ne (commitTs : Nat) (store : VersionStore) (write : TxnWrite) (other : Nat)
    (different : other ≠ write.rowId) : (publishRow commitTs store write).chains.lookup other =
    store.chains.lookup other := by
  cases write with
  | insert table rowId data => exact AList.lookup_insert_ne different
  | delete table rowId oldData =>
    exact (lookup_addTo_ne _ _ _ _ different).trans (lookup_seedVersion_ne _ _ _ _ different)
  | update table rowId oldData newData =>
    exact (lookup_addTo_ne _ _ _ _ different).trans (lookup_seedVersion_ne _ _ _ _ different)

private theorem chainAt_publish_ne (commitTs : Nat) (stores : Map String VersionStore) (write : TxnWrite)
    (table : String) (rowId : Nat) (different : write.key ≠ (table,rowId)) :
    chainAt (TxnManager.publishWrite commitTs stores write) table rowId = chainAt stores table rowId := by
  rw [publishWrite_eq,chainAt_withStore]
  split
  · rename_i same
    have apart : rowId ≠ write.rowId := by
      rintro rfl
      exact different (by simp [TxnWrite.key,same])
    rw [lookup_publishRow_ne _ _ _ _ apart,same,chainAt_getD]
  · rfl

private theorem seedVersion_live (store : VersionStore) (rowId : Nat) (oldData : Row) (chain : VersionChain)
    (found : store.chains.lookup rowId = some chain)
    (live : (chain.tombstoned && !oldData.entries.isEmpty) = false) :
    TxnManager.seedVersion store rowId oldData = store := by
  simp [TxnManager.seedVersion,store.readLatest_isNone rowId chain found,live]

private theorem lookup_addTo (store : VersionStore) (rowId : Nat) (version : RowVersion) (chain : VersionChain)
    (found : store.chains.lookup rowId = some chain) :
    (TxnManager.ignoreError store (store.addTo rowId version)).chains.lookup rowId =
    some (chain.addVersion version) := by
  simp [VersionStore.addTo,found,TxnManager.ignoreError]

private theorem chainAt_publish (commitTs : Nat) (stores : Map String VersionStore) (write : TxnWrite)
    (rest : List TxnWrite) (chain : VersionChain) (found : chainAt stores write.table write.rowId = some chain)
    (kept : appends chain.tombstoned (write :: rest) = true) :
    ∃ version : RowVersion, version.beginTs = commitTs ∧ version.endTs = tsInf ∧
      chainAt (TxnManager.publishWrite commitTs stores write) write.table write.rowId =
      some (chain.addVersion version) ∧
      appends (chain.addVersion version).tombstoned rest = true := by
  rw [publishWrite_eq,chainAt_withStore,if_pos rfl]
  rw [chainAt_getD] at found
  cases write with
  | insert table rowId data => simp [appends] at kept
  | delete table rowId oldData =>
    simp only [appends,Bool.and_eq_true,Bool.not_eq_true'] at kept
    refine ⟨.newDelete commitTs,rfl,rfl,?_,kept.2⟩
    have live := seedVersion_live _ rowId oldData chain found kept.1
    simp only [TxnWrite.table,TxnWrite.rowId,publishRow,VersionStore.delete] at live ⊢
    rw [live]
    exact lookup_addTo _ _ _ chain found
  | update table rowId oldData newData =>
    simp only [appends,Bool.and_eq_true,Bool.not_eq_true'] at kept
    refine ⟨.newUpdate commitTs newData,rfl,rfl,?_,kept.2⟩
    have live := seedVersion_live _ rowId oldData chain found kept.1
    simp only [TxnWrite.table,TxnWrite.rowId,publishRow,VersionStore.update] at live ⊢
    rw [live]
    exact lookup_addTo _ _ _ chain found

private theorem sees_publishAll (commitTs ts : Nat) (finite : ts < tsInf) (table : String) (rowId : Nat)
    (writes : List TxnWrite) (before : (∃ write ∈ writes, write.key = (table,rowId)) → ts < commitTs)
    (stores : Map String VersionStore) (chain : VersionChain) (found : chainAt stores table rowId = some chain)
    (kept : appends chain.tombstoned (writes.filter (fun w => w.key == (table,rowId))) = true) :
    ∃ chain', chainAt (writes.foldl (TxnManager.publishWrite commitTs) stores) table rowId = some chain' ∧
      chain'.sees ts = chain.sees ts := by
  induction writes generalizing stores chain with
  | nil => exact ⟨chain,found,rfl⟩
  | cons write rest ih =>
    have ih := ih (fun ⟨other,inside,key⟩ => before ⟨other,List.mem_cons_of_mem _ inside,key⟩)
    by_cases own : write.key = (table,rowId)
    · have stampedLater := before ⟨write,List.mem_cons_self,own⟩
      rw [List.filter_cons_of_pos (by simp [own])] at kept
      obtain ⟨rfl,rfl⟩ : table = write.table ∧ rowId = write.rowId :=
        ⟨(congrArg Prod.fst own).symm,(congrArg Prod.snd own).symm⟩
      obtain ⟨version,stamped,unended,published,continues⟩ := chainAt_publish commitTs stores write _ chain found kept
      obtain ⟨chain',final,same⟩ := ih _ _ published continues
      exact ⟨chain',final,same.trans (chain.sees_addVersion version ts (stamped ▸ stampedLater) finite)⟩
    · rw [List.filter_cons_of_neg (by simp [own])] at kept
      exact ih _ chain ((chainAt_publish_ne commitTs stores write table rowId own).trans found) kept

/-! Every chain is open. -/

def AllOpen (stores : Map String VersionStore) : Prop :=
  ∀ table rowId chain, chainAt stores table rowId = some chain → chain.Open

private theorem allOpen_insert {stores : Map String VersionStore} (opened : AllOpen stores) (table : String)
    (store : VersionStore) (inside : ∀ rowId chain, store.chains.lookup rowId = some chain → chain.Open) :
    AllOpen (stores.insert table store) := by
  intro other rowId chain found
  simp only [chainAt,lookup_insert_eq] at found
  split at found
  · exact inside rowId chain (by simpa using found)
  · exact opened other rowId chain found

private theorem store_open {stores : Map String VersionStore} (opened : AllOpen stores) (table : String) :
    ∀ rowId chain, ((stores.lookup table).getD .new).chains.lookup rowId = some chain → chain.Open := by
  intro rowId chain found
  exact opened table rowId chain (by rw [chainAt_getD]; exact found)

private theorem insert_open {chains : Map Nat VersionChain}
    (opened : ∀ rowId chain, chains.lookup rowId = some chain → chain.Open) (row : Nat) (new : VersionChain)
    (fresh : new.Open) :
    ∀ rowId chain, (chains.insert row new).lookup rowId = some chain → chain.Open := by
  intro rowId chain found
  rw [lookup_insert_eq] at found
  split at found
  · cases found
    exact fresh
  · exact opened rowId chain found

private theorem seedVersion_open (store : VersionStore) (row : Nat) (oldData : Row)
    (opened : ∀ rowId chain, store.chains.lookup rowId = some chain → chain.Open) :
    ∀ rowId chain, (TxnManager.seedVersion store row oldData).chains.lookup rowId = some chain → chain.Open := by
  unfold TxnManager.seedVersion
  split
  · exact insert_open opened row _ (VersionChain.open_new _ _ rfl)
  · exact opened

private theorem addTo_open (store : VersionStore) (row : Nat) (version : RowVersion) (unended : version.endTs = tsInf)
    (opened : ∀ rowId chain, store.chains.lookup rowId = some chain → chain.Open) :
    ∀ rowId chain, (TxnManager.ignoreError store (store.addTo row version)).chains.lookup rowId = some chain →
    chain.Open := by
  unfold VersionStore.addTo
  split
  · exact opened
  · exact insert_open opened row _ (VersionChain.open_addVersion _ _ unended)

private theorem publishRow_open (commitTs : Nat) (store : VersionStore) (write : TxnWrite)
    (opened : ∀ rowId chain, store.chains.lookup rowId = some chain → chain.Open) :
    ∀ rowId chain, (publishRow commitTs store write).chains.lookup rowId = some chain → chain.Open := by
  cases write with
  | insert table row data => exact insert_open opened row _ (VersionChain.open_new _ _ rfl)
  | delete table row oldData => exact addTo_open _ _ _ rfl (seedVersion_open store row oldData opened)
  | update table row oldData newData => exact addTo_open _ _ _ rfl (seedVersion_open store row oldData opened)

private theorem allOpen_publishAll (commitTs : Nat) (writes : List TxnWrite) (stores : Map String VersionStore)
    (opened : AllOpen stores) : AllOpen (writes.foldl (TxnManager.publishWrite commitTs) stores) := by
  induction writes generalizing stores with
  | nil => exact opened
  | cons write rest ih =>
    apply ih
    rw [publishWrite_eq]
    exact allOpen_insert opened _ _ (publishRow_open commitTs _ write (store_open opened _))

/-! Garbage collection. -/

section
variable (gc : GarbageCollector) (store : VersionStore) (oldest nowMillis : Nat)

private theorem gcRun_cases :
    (gc.run store oldest nowMillis).2 = store ∨ (gc.run store oldest nowMillis).2 = (store.gc oldest).1 := by
  unfold GarbageCollector.run
  split
  · exact Or.inl rfl
  · exact Or.inr rfl

private theorem maybeRun_cases :
    (gc.maybeRun store oldest nowMillis).2 = store ∨ (gc.maybeRun store oldest nowMillis).2 = (store.gc oldest).1 := by
  unfold GarbageCollector.maybeRun
  split
  · exact gcRun_cases gc store oldest nowMillis
  · exact Or.inl rfl

end

private theorem chainAt_collect (stores : Map String VersionStore) (opened : AllOpen stores) (oldest ts : Nat)
    (covered : oldest ≤ ts) (finite : ts < tsInf) (name : String) (store collected : VersionStore)
    (here : stores.lookup name = some store) (result : collected = store ∨ collected = (store.gc oldest).1)
    (table : String) (rowId : Nat) (chain : VersionChain) (found : chainAt stores table rowId = some chain) :
    ∃ chain', chainAt (stores.insert name collected) table rowId = some chain' ∧ chain'.sees ts = chain.sees ts := by
  by_cases same : table = name
  · subst same
    have inside : store.chains.lookup rowId = some chain := by simpa [chainAt,here] using found
    rcases result with rfl | rfl
    · exact ⟨chain,by simpa [chainAt] using inside,rfl⟩
    · have kept := store.lookup_gc oldest rowId chain inside (opened table rowId chain found)
        (Nat.le_trans covered (Nat.le_of_lt finite))
      exact ⟨_,by simpa [chainAt] using kept,chain.sees_gc oldest ts covered⟩
  · exact ⟨chain,by simpa [chainAt,AList.lookup_insert_ne same] using found,rfl⟩

private theorem allOpen_collect (stores : Map String VersionStore) (opened : AllOpen stores) (oldest : Nat)
    (name : String) (store collected : VersionStore) (here : stores.lookup name = some store)
    (result : collected = store ∨ collected = (store.gc oldest).1) : AllOpen (stores.insert name collected) := by
  have inside : ∀ rowId chain, store.chains.lookup rowId = some chain → chain.Open := by
    intro rowId chain found
    exact opened name rowId chain (by simp [chainAt,here,found])
  rcases result with rfl | rfl
  · exact allOpen_insert opened name _ inside
  · exact allOpen_insert opened name _ (fun rowId chain found => store.lookup_gc_open oldest rowId chain inside found)

private theorem collectStores_keeps (oldest nowMillis : Nat) (names : List String) (gc : GarbageCollector)
    (stores : Map String VersionStore) (opened : AllOpen stores) :
    AllOpen (TxnManager.collectStores gc oldest nowMillis names stores).2 ∧
    ∀ ts, oldest ≤ ts → ts < tsInf → ∀ table rowId chain, chainAt stores table rowId = some chain →
      ∃ chain', chainAt (TxnManager.collectStores gc oldest nowMillis names stores).2 table rowId = some chain' ∧
        chain'.sees ts = chain.sees ts := by
  induction names generalizing gc stores with
  | nil => exact ⟨opened,fun _ _ _ _ _ chain found => ⟨chain,found,rfl⟩⟩
  | cons name rest ih =>
    simp only [TxnManager.collectStores]
    split
    · rename_i store here
      have result := maybeRun_cases gc store oldest nowMillis
      obtain ⟨stillOpen,kept⟩ := ih (gc.maybeRun store oldest nowMillis).1 _
        (allOpen_collect stores opened oldest name store _ here result)
      refine ⟨stillOpen,?_⟩
      intro ts covered finite table rowId chain found
      obtain ⟨middle,collected,same⟩ := chainAt_collect stores opened oldest ts covered finite name store _ here result
        table rowId chain found
      obtain ⟨chain',final,same'⟩ := kept ts covered finite table rowId middle collected
      exact ⟨chain',final,same'.trans same⟩
    · exact ih gc stores opened

private theorem chainAt_prune (stores : Map String VersionStore) (table : String) (rowId : Nat) (chain : VersionChain) :
    chainAt (TxnManager.pruneEmptyVersionStores stores) table rowId = some chain ↔
      chainAt stores table rowId = some chain := by
  constructor
  · intro found
    obtain ⟨store,here,inside⟩ := store_of_chain found
    have kept := ((lookup_retain _ _ _ _).mp here).1
    simp [chainAt,kept,inside]
  · intro found
    obtain ⟨store,here,inside⟩ := store_of_chain found
    have busy : store.rowCount > 0 := List.length_pos_of_mem (AList.mem_lookup_iff.mp inside)
    have kept := (lookup_retain (fun _ store => decide (store.rowCount > 0) || decide (store.totalVersions > 0))
      stores table store).mpr ⟨here,by simp [busy]⟩
    simp only [chainAt,TxnManager.pruneEmptyVersionStores,kept,Option.bind_some,inside]

/-! Steps of the system. -/

inductive StoreEffect (s : System) : Op → System → Prop
  | kept {op : Op} {next : System} (same : next.manager.versionStores = s.manager.versionStores) : StoreEffect s op next
  | created {op : Op} {next : System} (table : String) (absent : s.manager.versionStores.lookup table = none)
      (same : next.manager.versionStores = s.manager.versionStores.insert table .new) : StoreEffect s op next
  | collected {next : System} (table : String) (nowMillis : Nat) (store : VersionStore)
      (here : s.manager.versionStores.lookup table = some store) (same : next.manager.versionStores =
        s.manager.versionStores.insert table (s.manager.gc.run store s.manager.snapshotManager.oldestActiveTs
          nowMillis).2) :
      StoreEffect s (.collectGarbage table nowMillis) next
  | finalized {next : System} (txnId nowMillis : Nat) (token : PreparedCommit) (txn : ActiveTxn)
      (located : s.held.find? (fun token => token.txnId == txnId) = some token)
      (found : s.manager.activeTxns.lookup txnId = some txn)
      (txns : next.manager.activeTxns = s.manager.activeTxns.erase txnId)
      (clock : next.manager.globalTs = s.manager.globalTs + 1)
      (same : next.manager.versionStores = TxnManager.pruneEmptyVersionStores
        (TxnManager.collectStores s.manager.gc (s.manager.snapshotManager.release
          txn.snapshot.id).oldestActiveTs nowMillis
          (token.writes.foldl (TxnManager.publishWrite s.manager.globalTs) s.manager.versionStores).keys
          (token.writes.foldl (TxnManager.publishWrite s.manager.globalTs) s.manager.versionStores)).2) :
      StoreEffect s (.finalizeCommit txnId nowMillis) next

private theorem abortListed_stores (ids : List Nat) (m : TxnManager) :
    (m.abortListed ids).versionStores = m.versionStores :=
  TxnManager.abortListed_induct (P := fun n => n.versionStores = m.versionStores) (fun _ _ _ same _ => same) ids m rfl

private theorem prepareCommit_stores (m : TxnManager) (txnId : Nat) :
    (m.prepareCommit txnId).2.versionStores = m.versionStores := by
  unfold TxnManager.prepareCommit
  split
  · rfl
  split
  · rfl
  split
  · simp only
    split
    · rfl
    · split <;> rfl
  · rfl

private theorem withContext_stores (m : TxnManager) (txnId now : Nat) (calls : List ContextOp) :
    (m.withContext txnId now calls).2.versionStores = m.versionStores := by
  unfold TxnManager.withContext
  split
  · rfl
  split
  · rfl
  split <;> rfl

private theorem rollback_stores (m : TxnManager) (txnId : Nat) :
    (m.rollback txnId).2.versionStores = m.versionStores := by
  unfold TxnManager.rollback
  split <;> rfl

private theorem finalizeCommit_stores (s next : System) (txnId nowMillis : Nat) (event : Event)
    (performed : s.perform (.finalizeCommit txnId nowMillis) = some (event,next)) :
    StoreEffect s (.finalizeCommit txnId nowMillis) next := by
  simp only [System.perform,TxnManager.finalizeCommit] at performed
  split at performed
  · cases performed
  rename_i token located
  have named : token.txnId = txnId := by simpa using List.find?_some located
  subst named
  cases found : s.manager.activeTxns.lookup token.txnId with
  | none =>
    simp only [found,Option.some.injEq,Prod.mk.injEq] at performed
    obtain ⟨_,rfl⟩ := performed
    exact .kept rfl
  | some txn =>
    simp only [found] at performed
    split at performed
    · rename_i writes manager settled
      split at settled
      · simp at settled
      simp only [Prod.mk.injEq] at settled
      obtain ⟨_,rfl⟩ := settled
      simp only [Option.some.injEq,Prod.mk.injEq] at performed
      obtain ⟨_,rfl⟩ := performed
      exact .finalized token.txnId nowMillis token txn located found rfl rfl rfl
    · rename_i e manager settled
      split at settled
      · simp only [Prod.mk.injEq] at settled
        obtain ⟨_,rfl⟩ := settled
        simp only [Option.some.injEq,Prod.mk.injEq] at performed
        obtain ⟨_,rfl⟩ := performed
        exact .kept rfl
      · simp at settled

private theorem getVersionStore_effect (s : System) (op : Op) (table : String) :
    StoreEffect s op {s with manager := (s.manager.getVersionStore table).2} := by
  unfold TxnManager.getVersionStore
  cases here : s.manager.versionStores.lookup table with
  | some store => exact .kept rfl
  | none => exact .created table here rfl

theorem System.exec_stores (s : System) (op : Op) (event : Event) (next : System)
    (ok : s.exec op = some (event,next)) : StoreEffect s op next := by
  obtain ⟨performed,_⟩ := Option.filter_eq_some_iff.mp ok
  cases op with
  | begin now =>
    simp only [perform,Option.some.injEq,Prod.mk.injEq] at performed
    obtain ⟨_,rfl⟩ := performed
    exact .kept (abortListed_stores _ _)
  | beginReadOnly now =>
    simp only [perform,Option.some.injEq,Prod.mk.injEq] at performed
    obtain ⟨_,rfl⟩ := performed
    exact .kept rfl
  | withContext txnId now calls =>
    simp only [perform,Option.some.injEq,Prod.mk.injEq] at performed
    obtain ⟨_,rfl⟩ := performed
    exact .kept (withContext_stores _ _ _ _)
  | prepareCommit txnId =>
    have same := prepareCommit_stores s.manager txnId
    simp only [perform] at performed
    split at performed <;> rename_i result
    · simp only [Option.some.injEq,Prod.mk.injEq] at performed
      obtain ⟨_,rfl⟩ := performed
      exact .kept (by simpa [result] using same)
    · simp only [Option.some.injEq,Prod.mk.injEq] at performed
      obtain ⟨_,rfl⟩ := performed
      exact .kept (by simpa [result] using same)
  | finalizeCommit txnId nowMillis => exact finalizeCommit_stores s next txnId nowMillis event performed
  | rollback txnId =>
    simp only [perform,Option.some.injEq,Prod.mk.injEq] at performed
    obtain ⟨_,rfl⟩ := performed
    exact .kept (rollback_stores _ _)
  | isVisible txnId table rowId =>
    simp only [perform,TxnManager.isVisible,Option.some.injEq,Prod.mk.injEq] at performed
    obtain ⟨_,rfl⟩ := performed
    split
    · exact .kept rfl
    · exact getVersionStore_effect s _ table
  | readVersioned txnId table rowId =>
    simp only [perform,TxnManager.readVersioned,Option.some.injEq,Prod.mk.injEq] at performed
    obtain ⟨_,rfl⟩ := performed
    split
    · exact .kept rfl
    · exact getVersionStore_effect s _ table
  | collectGarbage table nowMillis =>
    simp only [perform,TxnManager.collectGarbage,Option.some.injEq,Prod.mk.injEq] at performed
    obtain ⟨_,rfl⟩ := performed
    split
    · exact .kept rfl
    · rename_i store here
      exact .collected table nowMillis store here rfl

/-! Where an open transaction comes from. -/

private def Origin (m : TxnManager) (id : Nat) (txn : ActiveTxn) : Prop :=
  (∃ before, m.activeTxns.lookup id = some before ∧ before.snapshot = txn.snapshot) ∨
    (id = m.nextTxnId ∧ txn.snapshot.readTs = m.globalTs)

private theorem Effect.origin {s next : System} {op : Op} {event : Event} (effect : Effect s op event next) :
      s.manager.nextTxnId ≤ next.manager.nextTxnId ∧
      s.manager.globalTs ≤ next.manager.globalTs ∧
      ∀ id txn, next.manager.activeTxns.lookup id = some txn → Origin s.manager id txn := by
  cases effect with
  | admitted now globalTs readOnly late drawn =>
    refine TxnManager.abortListed_induct (P := fun m => s.manager.nextTxnId ≤ m.nextTxnId ∧
      s.manager.globalTs ≤ m.globalTs ∧ ∀ id txn, m.activeTxns.lookup id = some txn →
      Origin s.manager id txn) ?_ late _ ?_
    · rintro m id txn ⟨ids,clock,origin⟩ _
      exact ⟨ids,clock,fun other txn' found => origin other txn' (lookup_of_erase found).2⟩
    · refine ⟨Nat.le_succ _,?_,?_⟩
      · change s.manager.globalTs ≤ globalTs
        rw [drawn]
        split <;> omega
      · intro id txn found
        rcases lookup_of_insert found with ⟨rfl,rfl⟩ | ⟨_,old⟩
        · exact Or.inr ⟨rfl,rfl⟩
        · exact Or.inl ⟨txn,old,rfl⟩
  | stores silent stores gc => exact ⟨Nat.le_refl _,Nat.le_refl _,fun id txn found => Or.inl ⟨txn,found,rfl⟩⟩
  | aborted silent id txn found =>
    exact ⟨Nat.le_refl _,Nat.le_refl _,fun other txn' h => Or.inl ⟨txn',(lookup_of_erase h).2,rfl⟩⟩
  | edited silent id now calls txn found active =>
    refine ⟨Nat.le_refl _,Nat.le_refl _,?_⟩
    intro other txn' h
    rcases lookup_of_insert h with ⟨rfl,rfl⟩ | ⟨_,old⟩
    · exact Or.inl ⟨txn,found,rfl⟩
    · exact Or.inl ⟨txn',old,rfl⟩
  | prepared id txn detector found active intents valid idle =>
    refine ⟨Nat.le_refl _,Nat.le_refl _,?_⟩
    intro other txn' h
    rcases lookup_of_insert h with ⟨rfl,rfl⟩ | ⟨_,old⟩
    · exact Or.inl ⟨txn,found,rfl⟩
    · exact Or.inl ⟨txn',old,rfl⟩
  | finalized token nowMillis writes manager owned rest fewer ok =>
    unfold TxnManager.finalizeCommit at ok
    split at ok
    · simp at ok
    split at ok
    · simp at ok
    simp only [Prod.mk.injEq,Except.ok.injEq] at ok
    obtain ⟨_,rfl⟩ := ok
    exact ⟨Nat.le_refl _,Nat.le_succ _,fun other txn' h => Or.inl ⟨txn',(lookup_of_erase h).2,rfl⟩⟩
  | discarded silent rest fewer => exact ⟨Nat.le_refl _,Nat.le_refl _,fun id txn found => Or.inl ⟨txn,found,rfl⟩⟩

/-! The invariants that reads rest on, in every reachable state. -/

structure Settled (m : TxnManager) : Prop where
  opened : AllOpen m.versionStores
  past : ∀ id txn, m.activeTxns.lookup id = some txn → txn.snapshot.readTs ≤ m.globalTs
  clock : m.globalTs < tsInf

private theorem allOpen_step {s next : System} {op : Op} (opened : AllOpen s.manager.versionStores)
    (effect : StoreEffect s op next) : AllOpen next.manager.versionStores := by
  cases effect with
  | kept same =>
    rw [same]
    exact opened
  | created table absent same =>
    rw [same]
    exact allOpen_insert opened table _ (by intro rowId chain found; simp [VersionStore.new] at found)
  | collected table nowMillis store here same =>
    rw [same]
    exact allOpen_collect _ opened _ table store _ here (gcRun_cases _ _ _ _)
  | finalized txnId nowMillis token txn located found txns clock same =>
    rw [same]
    intro table rowId chain found
    exact (collectStores_keeps _ _ _ _ _ (allOpen_publishAll _ _ _ opened)).1 table rowId chain
      ((chainAt_prune _ _ _ _).mp found)

private theorem Settled.step {s next : System} {op : Op} {event : Event} (settled : Settled s.manager)
    (stepped : s.exec op = some (event,next)) : Settled next.manager := by
  obtain ⟨effect,clock⟩ := s.exec_effect op event next stepped
  obtain ⟨_,later,origin⟩ := effect.origin
  refine ⟨allOpen_step settled.opened (s.exec_stores op event next stepped),?_,clock⟩
  intro id txn found
  rcases origin id txn found with ⟨before,old,same⟩ | ⟨_,drawn⟩
  · exact Nat.le_trans (same ▸ settled.past id before old) later
  · rw [drawn]
    exact later

private theorem Settled.of_run {history : List Event} {s : System} (run : System.Run history s) :
    Settled s.manager := by
  refine Library.Run.invariant (P := fun _ s => Settled s.manager) ⟨?_,?_,by decide⟩ ?_ run
  · intro table rowId chain found
    simp [System.new,TxnManager.newStandalone,chainAt] at found
  · intro id txn found
    simp [System.new,TxnManager.newStandalone] at found
  · exact fun _ _ _ _ _ _ settled _ stepped => settled.step stepped

/-- The step lemma: whoever is open before and after a step that keeps the chains sees every chained
row as before. -/
private theorem chain_step {history : List Event} {s next : System} {op : Op} {event : Event}
    (inv : Inv history s.manager s.held) (settled : Settled s.manager) (permitted : s.chainsKept op = true)
    (stepped : s.exec op = some (event,next)) (id : Nat) (txn after : ActiveTxn)
    (active : s.manager.activeTxns.lookup id = some txn) (still : next.manager.activeTxns.lookup id = some after)
    (table : String) (rowId : Nat) (chain : VersionChain)
    (found : chainAt s.manager.versionStores table rowId = some chain) :
    ∃ chain', chainAt next.manager.versionStores table rowId = some chain' ∧
      chain'.sees txn.snapshot.readTs = chain.sees txn.snapshot.readTs := by
  have finite : txn.snapshot.readTs < tsInf := Nat.lt_of_le_of_lt (settled.past id txn active) settled.clock
  have covered : s.manager.snapshotManager.oldestActiveTs ≤ txn.snapshot.readTs :=
    inv.tracks _ _ (inv.registered id txn active)
  cases s.exec_stores op event next stepped with
  | kept same =>
    rw [same]
    exact ⟨chain,found,rfl⟩
  | created other absent same =>
    have different : table ≠ other := by
      rintro rfl
      simp [chainAt,absent] at found
    rw [same]
    exact ⟨chain,by simpa [chainAt,AList.lookup_insert_ne different] using found,rfl⟩
  | collected other nowMillis store here same =>
    rw [same]
    exact chainAt_collect _ settled.opened _ _ covered finite other store _ here (gcRun_cases _ _ _ _) table rowId
      chain found
  | finalized txnId nowMillis token own located owner txns clock same =>
    rw [txns] at still
    obtain ⟨different,_⟩ := lookup_of_erase still
    have released : (s.manager.snapshotManager.release own.snapshot.id).oldestActiveTs ≤ txn.snapshot.readTs :=
      SnapshotManager.tracks_release _ _ _ _ (inv.release owner active different)
    have published : ∃ middle, chainAt (token.writes.foldl (TxnManager.publishWrite s.manager.globalTs)
        s.manager.versionStores) table rowId = some middle ∧
        middle.sees txn.snapshot.readTs = chain.sees txn.snapshot.readTs := by
      -- The guard speaks about the rows the commit writes; the others are untouched.
      by_cases written : ∃ write ∈ token.writes, write.key = (table,rowId)
      · obtain ⟨write,inside,key⟩ := written
        simp only [System.chainsKept,located,List.all_eq_true] at permitted
        have checked := permitted ⟨id,txn⟩ (AList.mem_lookup_iff.mp active)
        simp only [beq_eq_false_iff_ne.mpr different,Bool.false_or,List.all_eq_true] at checked
        have passed := checked write inside
        obtain ⟨rfl,rfl⟩ : table = write.table ∧ rowId = write.rowId :=
          ⟨(congrArg Prod.fst key).symm,(congrArg Prod.snd key).symm⟩
        simp only [found,Bool.and_eq_true,decide_eq_true_eq] at passed
        exact sees_publishAll _ _ finite _ _ _ (fun _ => passed.1) _ chain found passed.2
      · have unwritten : token.writes.filter (fun w => w.key == (table,rowId)) = [] := by
          simpa [List.filter_eq_nil_iff] using written
        exact sees_publishAll _ _ finite _ _ _ (fun touched => absurd touched written) _ chain found
          (by rw [unwritten]; rfl)
    obtain ⟨middle,stored,equal⟩ := published
    obtain ⟨chain',final,equal'⟩ :=
      (collectStores_keeps (s.manager.snapshotManager.release own.snapshot.id).oldestActiveTs
      nowMillis (token.writes.foldl (TxnManager.publishWrite s.manager.globalTs) s.manager.versionStores).keys
        s.manager.gc _
      (allOpen_publishAll s.manager.globalTs token.writes _ settled.opened)).2 _ released finite table rowId
        middle stored
    rw [same]
    exact ⟨chain',(chainAt_prune _ _ _ _).mpr final,equal'.trans equal⟩

/-- Along a run that keeps the chains, an open transaction goes on seeing what it saw: the run lemma
over `chain_step`. -/
private theorem sees_run {history after : List Event} {s s' : System} (run : System.Run history s)
    (continued : Library.Run System.exec System.chainsKept s after s') (id : Nat) (txn : ActiveTxn)
    (active : s.manager.activeTxns.lookup id = some txn) (table : String) (rowId : Nat) (chain : VersionChain)
    (found : chainAt s.manager.versionStores table rowId = some chain) (txn' : ActiveTxn)
    (still : s'.manager.activeTxns.lookup id = some txn') :
    txn'.snapshot = txn.snapshot ∧ ∃ chain', chainAt s'.manager.versionStores table rowId = some chain' ∧
      chain'.sees txn.snapshot.readTs = chain.sees txn.snapshot.readTs := by
  have kept := Library.Run.invariant (P := fun _ st => id < st.manager.nextTxnId ∧
    ∀ txn', st.manager.activeTxns.lookup id = some txn' → txn'.snapshot = txn.snapshot ∧
      ∃ chain', chainAt st.manager.versionStores table rowId = some chain' ∧
        chain'.sees txn.snapshot.readTs = chain.sees txn.snapshot.readTs) ?_ ?_ continued
  · exact kept.2 txn' still
  · refine ⟨((Inv.of_run run).ids id txn active).2,?_⟩
    intro same here
    rw [active] at here
    cases here
    exact ⟨rfl,chain,found,rfl⟩
  intro trace state op event next before held permitted stepped
  have reached := run.append (before.weaken (fun _ _ _ => rfl))
  obtain ⟨effect,_⟩ := state.exec_effect op event next stepped
  obtain ⟨more,_,origin⟩ := effect.origin
  refine ⟨Nat.lt_of_lt_of_le held.1 more,?_⟩
  intro later here
  -- Ids are never reused, so the transaction was open before the step.
  rcases origin id later here with ⟨earlier,open_,same⟩ | ⟨new,_⟩
  · obtain ⟨snapshot,middle,stored,equal⟩ := held.2 earlier open_
    obtain ⟨chain',final,equal'⟩ := chain_step (Inv.of_run reached) (Settled.of_run reached) permitted stepped
      id earlier
      later open_ here table rowId middle stored
    rw [snapshot] at equal'
    exact ⟨same.symm.trans snapshot,chain',final,equal'.trans equal⟩
  · exact absurd held.1 (by omega)

/-- From any reachable state on, as long as every step keeps the chains, open
transactions read chained rows the same. -/
theorem snapshot_stable_of_chainsKept {history after : List Event} {s s' : System} (run : System.Run history s)
    (continued : Library.Run System.exec System.chainsKept s after s') : SnapshotStable s.manager s'.manager := by
  intro txnId txn txn' table rowId chain active still found
  obtain ⟨snapshot,chain',final,same⟩ := sees_run run continued txnId txn active table rowId chain found txn' still
  rw [TxnManager.readVersioned_of_chain _ _ _ _ _ _ still final,TxnManager.isVisible_of_chain _ _ _ _ _ _ still final,
    TxnManager.readVersioned_of_chain _ _ _ _ _ _ active found,TxnManager.isVisible_of_chain _ _ _ _ _ _ active found,
    snapshot,same]
  exact ⟨rfl,rfl⟩

/-- A reader begun before another writer, and the writer's commit. -/
theorem snapshot_stable_under_commit :
    ∃ history s after s', System.Run history s ∧ Library.Run System.exec System.chainsKept s after s' ∧
      after[1]? = some (Event.finalized 3 [] [.delete "t" 7 ∅] 5) ∧
      (s'.manager.isVisible 2 "t" 7).1 = (s.manager.isVisible 2 "t" 7).1 := by
  obtain ⟨run,continued⟩ := @Library.Run.of_play_twice _ _ _ System.exec (fun _ _ => true) System.new System.chainsKept
    [.begin 0,.withContext 1 0 [.bufferInsert "t" 7 ∅],.prepareCommit 1,.finalizeCommit 1 0,.begin 0,.begin 0,
      .withContext 3 0 [.bufferDelete "t" 7 ∅]] [.prepareCommit 3,.finalizeCommit 3 0] _ _ _ _ rfl rfl
  exact ⟨_,_,_,_,run,continued,rfl,(snapshot_stable_of_chainsKept run continued 2 _ _ "t" 7 _ rfl rfl rfl).2⟩

/-- A read-only snapshot takes the current timestamp without consuming it, so the next commit
carries the same timestamp and the reader sees it. -/
theorem commit_at_read_only_snapshot_visible : ¬ ∀ history s after s', System.Run history s →
    Library.Run System.exec (fun _ _ => true) s after s' → SnapshotStable s.manager s'.manager := by
  intro stable
  obtain ⟨run,continued⟩ := @Library.Run.of_play_twice _ _ _ System.exec (fun _ _ => true) System.new (fun _ _ => true)
    [.begin 0,.withContext 1 0 [.bufferInsert "t" 7 ∅],.prepareCommit 1,.finalizeCommit 1 0,.begin 0,
      .withContext 2 0 [.bufferDelete "t" 7 ∅],.beginReadOnly 0] [.prepareCommit 2,.finalizeCommit 2 0] _ _ _ _ rfl rfl
  have same := (stable _ _ _ _ run continued 3 _ _ "t" 7 _ rfl rfl rfl).2
  have changed : (.ok true : Except IoError Bool) = .ok false := same.symm
  cases changed

end ApexBase.Txn
