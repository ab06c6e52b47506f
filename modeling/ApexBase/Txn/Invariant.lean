import ApexBase.Txn.Manager

/-! What every reachable state of the transaction manager satisfies, relative to the history of
events that led to it. One lemma for each primitive change of the manager; the operations are
compositions of these. -/
namespace ApexBase.Txn
open Data Library.Assoc Mvcc

/-- The timestamp an event consumed. A read-only begin consumes none. -/
def Event.stamp : Event → Option Nat
  | .began _ readTs false => some readTs
  | .finalized _ _ _ commitTs => some commitTs
  | _ => none

def Event.admitted : Event → Option Nat
  | .began id _ _ => some id
  | _ => none

structure Inv (history : List Event) (m : TxnManager) (held : List PreparedCommit) : Prop where
  ids : ∀ id txn, m.activeTxns.lookup id = some txn → txn.context.txnId = id ∧ id < m.nextTxnId
  snapshot : ∀ id txn, m.activeTxns.lookup id = some txn →
    txn.context.snapshotTs = txn.snapshot.readTs ∧ txn.context.readOnly = txn.snapshot.readOnly
  registered : ∀ id txn, m.activeTxns.lookup id = some txn →
    m.snapshotManager.active.lookup txn.snapshot.id = some txn.snapshot
  separate : ∀ id txn id' txn', m.activeTxns.lookup id = some txn → m.activeTxns.lookup id' = some txn' →
    txn.snapshot.id = txn'.snapshot.id → id = id'
  fresh : ∀ sid snap, m.snapshotManager.active.lookup sid = some snap → sid < m.nextSnapshotId
  tracks : m.snapshotManager.Tracks
  open_ : ∀ id txn, m.activeTxns.lookup id = some txn → txn.status = .active →
    txn.context.KeysExact ∧ (txn.context.readOnly = true → txn.context.writeSet = [])
  prepared : ∀ id txn, m.activeTxns.lookup id = some txn → txn.status ≠ .active →
    txn.status = .validating ∧ (txn.context.readOnly = true → txn.context.writeKeys = []) ∧
    ∀ key ∈ txn.context.writeKeys, m.conflictDetector.activeWrites.lookup key = some id
  tokens : ∀ token ∈ held, token.txnId < m.nextTxnId ∧ ∀ txn, m.activeTxns.lookup token.txnId = some txn →
    txn.status = .validating ∧ ∀ write ∈ token.writes, write.key ∈ txn.context.writeKeys
  began : ∀ id txn, m.activeTxns.lookup id = some txn →
    .began id txn.snapshot.readTs txn.snapshot.readOnly ∈ history
  once : (history.filterMap Event.admitted).Nodup
  numbered : ∀ id ∈ history.filterMap Event.admitted, id < m.nextTxnId
  increasing : (history.filterMap Event.stamp).Pairwise (· < ·)
  elapsed : ∀ ts ∈ history.filterMap Event.stamp, ts < m.globalTs
  retained : ∀ id reads writes commitTs, .finalized id reads writes commitTs ∈ history → ∀ write ∈ writes,
    ∀ sid snap, m.snapshotManager.active.lookup sid = some snap → snap.readTs < commitTs →
    ⟨id,commitTs,write.table,write.rowId⟩ ∈ m.conflictDetector.committedWrites

/-- No prepared transaction that writes touches, in its footprint, a row that another transaction
has finalized a write to since its snapshot. -/
def Excluded (footprint : TxnContext → List (String × Nat)) (history : List Event) (m : TxnManager) : Prop :=
  ∀ id reads writes commitTs, .finalized id reads writes commitTs ∈ history →
    ∀ other txn, m.activeTxns.lookup other = some txn → txn.status = .validating → other ≠ id →
    txn.snapshot.readTs < commitTs → txn.context.writeKeys ≠ [] →
    ∀ write ∈ writes, write.key ∉ footprint txn.context

def Clear (footprint : TxnContext → List (String × Nat)) (m : TxnManager) (id : Nat) (keys : List (String × Nat)) :
    Prop :=
  ∀ other txn, m.activeTxns.lookup other = some txn → other ≠ id → txn.status = .validating →
    txn.context.writeKeys ≠ [] → ∀ key ∈ keys, key ∉ footprint txn.context

theorem Inv.new : Inv [] .newStandalone [] := by
  constructor <;> intros <;> simp_all [TxnManager.newStandalone,SnapshotManager.new,SnapshotManager.Tracks]

/-! Changes that no clause of the invariant reads. -/

theorem Inv.stores {history : List Event} {m : TxnManager} {held : List PreparedCommit} (inv : Inv history m held)
    (stores : Map String VersionStore) (gc : GarbageCollector) :
    Inv history {m with versionStores := stores, gc := gc} held :=
  ⟨inv.ids,inv.snapshot,inv.registered,inv.separate,inv.fresh,inv.tracks,inv.open_,inv.prepared,inv.tokens,
    inv.began,inv.once,inv.numbered,inv.increasing,inv.elapsed,inv.retained⟩

def Event.Silent (event : Event) : Prop :=
  (∀ id readTs readOnly, event ≠ .began id readTs readOnly) ∧
    ∀ id reads writes commitTs, event ≠ .finalized id reads writes commitTs

section
variable {event : Event} (silent : event.Silent)
include silent

theorem Event.Silent.stamp : event.stamp = none := by
  cases event <;> first | rfl | skip
  · exact absurd rfl (silent.1 _ _ _)
  · exact absurd rfl (silent.2 _ _ _ _)

theorem Event.Silent.admitted : event.admitted = none := by
  cases event <;> first | rfl | skip
  exact absurd rfl (silent.1 _ _ _)

theorem Event.Silent.finalized_mem {history : List Event} {id : Nat} {reads : List ReadRecord} {writes : List TxnWrite}
    {commitTs : Nat} (member : .finalized id reads writes commitTs ∈ history ++ [event]) :
    .finalized id reads writes commitTs ∈ history := by
  rcases List.mem_append.mp member with old | last
  · exact old
  · exact absurd (List.mem_singleton.mp last).symm (silent.2 _ _ _ _)

end

theorem Inv.silent {history : List Event} {m : TxnManager} {held : List PreparedCommit} (inv : Inv history m held)
    {event : Event} (silent : event.Silent) : Inv (history ++ [event]) m held := by
  have stamps : (history ++ [event]).filterMap Event.stamp = history.filterMap Event.stamp := by
    simp [List.filterMap_append,silent.stamp]
  have admissions : (history ++ [event]).filterMap Event.admitted = history.filterMap Event.admitted := by
    simp [List.filterMap_append,silent.admitted]
  refine ⟨inv.ids,inv.snapshot,inv.registered,inv.separate,inv.fresh,inv.tracks,inv.open_,inv.prepared,
    inv.tokens,?_,?_,?_,?_,?_,?_⟩
  · intro id txn found
    exact List.mem_append_left _ (inv.began id txn found)
  · rw [admissions]
    exact inv.once
  · rw [admissions]
    exact inv.numbered
  · rw [stamps]
    exact inv.increasing
  · rw [stamps]
    exact inv.elapsed
  · intro id reads writes commitTs member
    exact inv.retained id reads writes commitTs (silent.finalized_mem member)

theorem Excluded.silent {footprint : TxnContext → List (String × Nat)} {history : List Event} {m : TxnManager}
    (excluded : Excluded footprint history m) {event : Event} (silent : event.Silent) :
    Excluded footprint (history ++ [event]) m :=
  fun id reads writes commitTs member => excluded id reads writes commitTs (silent.finalized_mem member)

/-! Aborting a transaction. -/

section
variable {history : List Event} {m : TxnManager} {held : List PreparedCommit} (inv : Inv history m held)
include inv

theorem Inv.release {id other : Nat} {txn txn' : ActiveTxn} (found : m.activeTxns.lookup id = some txn)
    (found' : m.activeTxns.lookup other = some txn') (different : other ≠ id) :
    (m.snapshotManager.release txn.snapshot.id).active.lookup txn'.snapshot.id = some txn'.snapshot := by
  have apart : txn'.snapshot.id ≠ txn.snapshot.id := by
    intro same
    exact different (inv.separate other txn' id txn found' found same)
  simp only [SnapshotManager.release,AList.lookup_erase_ne apart]
  exact inv.registered other txn' found'

theorem Inv.abort (id : Nat) (txn : ActiveTxn) (found : m.activeTxns.lookup id = some txn) :
    Inv history (m.abortTxn id txn) held := by
  have owner := (inv.ids id txn found).1
  constructor
  case ids => exact fun other txn' h => inv.ids other txn' (lookup_of_erase h).2
  case snapshot => exact fun other txn' h => inv.snapshot other txn' (lookup_of_erase h).2
  case registered =>
    intro other txn' h
    exact inv.release found (lookup_of_erase h).2 (lookup_of_erase h).1
  case separate =>
    intro a txnA b txnB ha hb
    exact inv.separate a txnA b txnB (lookup_of_erase ha).2 (lookup_of_erase hb).2
  case fresh => exact fun sid snap h => inv.fresh sid snap (lookup_of_erase h).2
  case tracks => exact SnapshotManager.tracks_release _ _
  case open_ => exact fun other txn' h => inv.open_ other txn' (lookup_of_erase h).2
  case prepared =>
    intro other txn' h closed
    obtain ⟨validating,reader,intents⟩ := inv.prepared other txn' (lookup_of_erase h).2 closed
    refine ⟨validating,reader,?_⟩
    intro key member
    apply ConflictDetector.releaseIntents_spec _ _ _ _ _ _ (intents key member)
    rw [owner]
    exact (lookup_of_erase h).1
  case tokens =>
    intro token member
    exact ⟨(inv.tokens token member).1,fun txn' h => (inv.tokens token member).2 txn' (lookup_of_erase h).2⟩
  case began => exact fun other txn' h => inv.began other txn' (lookup_of_erase h).2
  case once => exact inv.once
  case numbered => exact inv.numbered
  case increasing => exact inv.increasing
  case elapsed => exact inv.elapsed
  case retained =>
    intro other reads writes commitTs member write inside sid snap h
    exact inv.retained other reads writes commitTs member write inside sid snap (lookup_of_erase h).2

end

theorem Excluded.abort {footprint : TxnContext → List (String × Nat)} {history : List Event} {m : TxnManager}
    (excluded : Excluded footprint history m) (id : Nat) (txn : ActiveTxn) :
    Excluded footprint history (m.abortTxn id txn) :=
  fun a reads writes commitTs member other txn' h =>
    excluded a reads writes commitTs member other txn' (lookup_of_erase h).2

theorem TxnManager.abortListed_induct {P : TxnManager → Prop}
    (kept : ∀ m id txn, P m → m.activeTxns.lookup id = some txn → P (m.abortTxn id txn)) (ids : List Nat)
    (m : TxnManager) (initial : P m) : P (m.abortListed ids) := by
  induction ids generalizing m with
  | nil => exact initial
  | cons id rest ih =>
    simp only [TxnManager.abortListed]
    split
    · rename_i txn found
      exact ih _ (kept m id txn initial found)
    · exact ih m initial

/-! Admitting a transaction. -/

/-- The part of the invariant that talks about timestamps, for a begin that draws `readTs` from the
clock and leaves it at `globalTs`. -/
theorem Inv.enroll {history : List Event} {m : TxnManager} {held : List PreparedCommit} (inv : Inv history m held)
    (globalTs now : Nat) (readOnly : Bool) (drawn : globalTs = if readOnly then m.globalTs else m.globalTs + 1) :
    Inv (history ++ [.began m.nextTxnId m.globalTs readOnly])
      ({m with globalTs := globalTs}.enroll m.globalTs now readOnly) held := by
  have stamps : (history ++ [Event.began m.nextTxnId m.globalTs readOnly]).filterMap Event.stamp =
      history.filterMap Event.stamp ++ (if readOnly then [] else [m.globalTs]) := by
    cases readOnly <;> simp [Event.stamp]
  have admissions : (history ++ [Event.began m.nextTxnId m.globalTs readOnly]).filterMap Event.admitted =
      history.filterMap Event.admitted ++ [m.nextTxnId] := by
    simp [Event.admitted]
  have unseen {sid snap} (h : m.snapshotManager.active.lookup sid = some snap) : sid ≠ m.nextSnapshotId :=
    Nat.ne_of_lt (inv.fresh sid snap h)
  have oldSnapshot {id txn} (h : m.activeTxns.lookup id = some txn) : txn.snapshot.id ≠ m.nextSnapshotId :=
    unseen (inv.registered id txn h)
  constructor
  case ids =>
    intro id txn h
    rcases lookup_of_insert h with ⟨rfl,rfl⟩ | ⟨_,h⟩
    · exact ⟨rfl,Nat.lt_succ_self _⟩
    · exact ⟨(inv.ids id txn h).1,Nat.lt_succ_of_lt (inv.ids id txn h).2⟩
  case snapshot =>
    intro id txn h
    rcases lookup_of_insert h with ⟨rfl,rfl⟩ | ⟨_,h⟩
    · exact ⟨rfl,rfl⟩
    · exact inv.snapshot id txn h
  case registered =>
    intro id txn h
    rcases lookup_of_insert h with ⟨rfl,rfl⟩ | ⟨_,h⟩
    · exact AList.lookup_insert _
    · exact (AList.lookup_insert_ne (oldSnapshot h)).trans (inv.registered id txn h)
  case separate =>
    intro a txnA b txnB ha hb same
    rcases lookup_of_insert ha with ⟨rfl,rfl⟩ | ⟨_,ha⟩ <;> rcases lookup_of_insert hb with ⟨rfl,rfl⟩ | ⟨_,hb⟩
    · rfl
    · exact absurd same.symm (oldSnapshot hb)
    · exact absurd same (oldSnapshot ha)
    · exact inv.separate a txnA b txnB ha hb same
  case fresh =>
    intro sid snap h
    rcases lookup_of_insert h with ⟨rfl,rfl⟩ | ⟨_,h⟩
    · exact Nat.lt_succ_self _
    · exact Nat.lt_succ_of_lt (inv.fresh sid snap h)
  case tracks => exact SnapshotManager.tracks_register _ _ inv.tracks
  case open_ =>
    intro id txn h status
    rcases lookup_of_insert h with ⟨rfl,rfl⟩ | ⟨_,h⟩
    · exact ⟨TxnContext.keysExact_new _ _ _,fun _ => rfl⟩
    · exact inv.open_ id txn h status
  case prepared =>
    intro id txn h status
    rcases lookup_of_insert h with ⟨rfl,rfl⟩ | ⟨_,h⟩
    · exact absurd rfl status
    · exact inv.prepared id txn h status
  case tokens =>
    intro token member
    obtain ⟨bound,checked⟩ := inv.tokens token member
    refine ⟨Nat.lt_succ_of_lt bound,?_⟩
    intro txn h
    rcases lookup_of_insert h with ⟨same,_⟩ | ⟨_,h⟩
    · exact absurd same (Nat.ne_of_lt bound)
    · exact checked txn h
  case began =>
    intro id txn h
    rcases lookup_of_insert h with ⟨rfl,rfl⟩ | ⟨_,h⟩
    · exact List.mem_append_right _ (List.mem_singleton.mpr rfl)
    · exact List.mem_append_left _ (inv.began id txn h)
  case once =>
    rw [admissions,List.nodup_append]
    refine ⟨inv.once,List.nodup_singleton _,?_⟩
    intro a ha b hb
    exact (List.mem_singleton.mp hb) ▸ Nat.ne_of_lt (inv.numbered a ha)
  case numbered =>
    intro id member
    rw [admissions] at member
    rcases List.mem_append.mp member with earlier | last
    · exact Nat.lt_succ_of_lt (inv.numbered id earlier)
    · exact (List.mem_singleton.mp last) ▸ Nat.lt_succ_self _
  case increasing =>
    rw [stamps,List.pairwise_append]
    refine ⟨inv.increasing,by cases readOnly <;> simp,?_⟩
    intro a ha b hb
    have same : b = m.globalTs := by cases readOnly <;> simp_all
    exact same ▸ inv.elapsed a ha
  case elapsed =>
    intro ts member
    rw [stamps] at member
    have bound : m.globalTs ≤ globalTs := by rw [drawn]; split <;> omega
    rcases List.mem_append.mp member with earlier | last
    · exact Nat.lt_of_lt_of_le (inv.elapsed ts earlier) bound
    · cases readOnly
      · simp only [Bool.false_eq_true,if_false,List.mem_singleton] at last
        simp only [Bool.false_eq_true,if_false] at drawn
        subst last drawn
        exact Nat.lt_succ_self _
      · simp at last
  case retained =>
    intro id reads writes commitTs member write inside sid snap h before
    have earlier : .finalized id reads writes commitTs ∈ history := by simpa using member
    rcases lookup_of_insert h with ⟨rfl,rfl⟩ | ⟨_,h⟩
    · -- A snapshot taken now is not older than any commit so far.
      have past := inv.elapsed commitTs (List.mem_filterMap.mpr ⟨_,earlier,rfl⟩)
      exact absurd before (Nat.not_lt.mpr (Nat.le_of_lt past))
    · exact inv.retained id reads writes commitTs earlier write inside sid snap h before

theorem Excluded.enroll {footprint : TxnContext → List (String × Nat)} {history : List Event} {m : TxnManager}
    (excluded : Excluded footprint history m) (globalTs readTs now : Nat) (readOnly : Bool) :
    Excluded footprint (history ++ [.began m.nextTxnId readTs readOnly])
      ({m with globalTs := globalTs}.enroll readTs now readOnly) := by
  intro id reads writes commitTs member other txn h status
  have earlier : .finalized id reads writes commitTs ∈ history := by simpa using member
  rcases lookup_of_insert h with ⟨rfl,rfl⟩ | ⟨_,h⟩
  · cases status
  · exact excluded id reads writes commitTs earlier other txn h status

/-! Replacing the entry of an open transaction: by an edited one, or by the prepared one. -/

structure Intents (m : TxnManager) (detector : ConflictDetector) (id : Nat) (keys : List (String × Nat)) : Prop where
  log : detector.committedWrites = m.conflictDetector.committedWrites
  own : ∀ key ∈ keys, detector.activeWrites.lookup key = some id
  others : ∀ key owner, owner ≠ id → m.conflictDetector.activeWrites.lookup key = some owner →
    detector.activeWrites.lookup key = some owner

theorem Inv.replace {history : List Event} {m : TxnManager} {held tokens : List PreparedCommit}
    (inv : Inv history m held) (id : Nat) (txn new : ActiveTxn) (detector : ConflictDetector)
    (found : m.activeTxns.lookup id = some txn) (snapshot : new.snapshot = txn.snapshot)
    (same : txn.context.SameTxn new.context)
    (opened : new.status = .active →
      new.context.KeysExact ∧ (new.context.readOnly = true → new.context.writeSet = []))
    (closed : new.status ≠ .active → new.status = .validating ∧
      (new.context.readOnly = true → new.context.writeKeys = []) ∧
      ∀ key ∈ new.context.writeKeys, detector.activeWrites.lookup key = some id)
    (log : detector.committedWrites = m.conflictDetector.committedWrites)
    (others : ∀ key owner, owner ≠ id → m.conflictDetector.activeWrites.lookup key = some owner →
      detector.activeWrites.lookup key = some owner)
    (checked : ∀ token ∈ tokens, token.txnId < m.nextTxnId ∧
      (token.txnId = id → new.status = .validating ∧ ∀ write ∈ token.writes, write.key ∈ new.context.writeKeys) ∧
      (token.txnId ≠ id → token ∈ held)) :
    Inv history {m with conflictDetector := detector, activeTxns := m.activeTxns.insert id new} tokens := by
  constructor
  case ids =>
    intro other txn' h
    rcases lookup_of_insert h with ⟨rfl,rfl⟩ | ⟨_,old⟩
    · exact ⟨same.txnId.trans (inv.ids _ txn found).1,(inv.ids _ txn found).2⟩
    · exact inv.ids other txn' old
  case snapshot =>
    intro other txn' h
    rcases lookup_of_insert h with ⟨rfl,rfl⟩ | ⟨_,old⟩
    · obtain ⟨ts,mode⟩ := inv.snapshot _ txn found
      rw [snapshot]
      exact ⟨same.snapshotTs.trans ts,same.readOnly.trans mode⟩
    · exact inv.snapshot other txn' old
  case registered =>
    intro other txn' h
    rcases lookup_of_insert h with ⟨rfl,rfl⟩ | ⟨_,old⟩
    · rw [snapshot]
      exact inv.registered _ txn found
    · exact inv.registered other txn' old
  case separate =>
    intro a txnA b txnB ha hb shared
    rcases lookup_of_insert ha with ⟨rfl,rfl⟩ | ⟨_,oldA⟩ <;> rcases lookup_of_insert hb with ⟨rfl,rfl⟩ | ⟨_,oldB⟩
    · rfl
    · exact inv.separate _ txn b txnB found oldB (snapshot ▸ shared)
    · exact inv.separate a txnA _ txn oldA found (snapshot ▸ shared)
    · exact inv.separate a txnA b txnB oldA oldB shared
  case fresh => exact inv.fresh
  case tracks => exact inv.tracks
  case open_ =>
    intro other txn' h status
    rcases lookup_of_insert h with ⟨rfl,rfl⟩ | ⟨_,old⟩
    · exact opened status
    · exact inv.open_ other txn' old status
  case prepared =>
    intro other txn' h status
    rcases lookup_of_insert h with ⟨rfl,rfl⟩ | ⟨different,old⟩
    · exact closed status
    · obtain ⟨validating,readOnly,kept⟩ := inv.prepared other txn' old status
      exact ⟨validating,readOnly,fun key member => others key other different (kept key member)⟩
  case tokens =>
    intro token member
    obtain ⟨bound,own,rest⟩ := checked token member
    refine ⟨bound,?_⟩
    intro txn' h
    rcases lookup_of_insert h with ⟨here,rfl⟩ | ⟨different,old⟩
    · exact own here
    · exact (inv.tokens token (rest different)).2 txn' old
  case began =>
    intro other txn' h
    rcases lookup_of_insert h with ⟨rfl,rfl⟩ | ⟨_,old⟩
    · rw [snapshot]
      exact inv.began _ txn found
    · exact inv.began other txn' old
  case once => exact inv.once
  case numbered => exact inv.numbered
  case increasing => exact inv.increasing
  case elapsed => exact inv.elapsed
  case retained =>
    intro other reads writes commitTs member write inside sid snap h before
    change _ ∈ detector.committedWrites
    rw [log]
    exact inv.retained other reads writes commitTs member write inside sid snap h before

section
variable {history : List Event} {m : TxnManager} {held : List PreparedCommit} (inv : Inv history m held)
include inv

theorem Inv.noToken {id : Nat} {txn : ActiveTxn} (found : m.activeTxns.lookup id = some txn)
    (active : txn.status = .active) {token : PreparedCommit} (member : token ∈ held) : token.txnId ≠ id := by
  rintro rfl
  have closed := ((inv.tokens token member).2 txn found).1
  rw [active] at closed
  cases closed

theorem Inv.edit (id now : Nat) (txn : ActiveTxn) (context : TxnContext) (found : m.activeTxns.lookup id = some txn)
    (active : txn.status = .active) (same : txn.context.SameTxn context) (exact : context.KeysExact)
    (reader : context.readOnly = true → context.writeSet = []) :
    Inv history {m with activeTxns := m.activeTxns.insert id {txn with context, lastActivity := now}} held := by
  refine inv.replace id txn {txn with context, lastActivity := now} m.conflictDetector found rfl same
    (fun _ => ⟨exact,reader⟩) (fun status => absurd active status) rfl (fun _ _ _ kept => kept) ?_
  intro token member
  exact ⟨(inv.tokens token member).1,fun here => absurd here (inv.noToken found active member),fun _ => member⟩

theorem Inv.prepare (id : Nat) (txn : ActiveTxn) (detector : ConflictDetector)
    (found : m.activeTxns.lookup id = some txn) (active : txn.status = .active)
    (intents : Intents m detector id txn.context.writeKeys) :
    Inv history ({m with conflictDetector := detector}.enterPrepared id txn).2
      (({m with conflictDetector := detector}.enterPrepared id txn).1 :: held) := by
  obtain ⟨exact,reader⟩ := inv.open_ id txn found active
  have keyless : txn.context.readOnly = true → txn.context.writeKeys = [] := by
    intro mode
    refine List.eq_nil_iff_forall_not_mem.mpr ?_
    intro key member
    obtain ⟨write,inside,_⟩ := (exact key).mp member
    rw [reader mode] at inside
    cases inside
  refine inv.replace id txn {txn with context := txn.context.takeWriteSet.2, status := .validating} detector
    found rfl ⟨rfl,rfl,rfl⟩ (fun status => by cases status) (fun _ => ⟨rfl,keyless,intents.own⟩)
    intents.log intents.others ?_
  intro token member
  rcases List.mem_cons.mp member with rfl | earlier
  · refine ⟨(inv.ids id txn found).2,fun _ => ⟨rfl,?_⟩,fun different => absurd rfl different⟩
    exact fun write inside => (exact write.key).mpr ⟨write,inside,rfl⟩
  · exact ⟨(inv.tokens token earlier).1,fun here => absurd here (inv.noToken found active earlier),fun _ => earlier⟩

end

section
variable {footprint : TxnContext → List (String × Nat)} {history : List Event} {m : TxnManager}

theorem Excluded.edit (excluded : Excluded footprint history m) (id : Nat) (txn : ActiveTxn)
    (active : txn.status = .active) :
    Excluded footprint history {m with activeTxns := m.activeTxns.insert id txn} := by
  intro a reads writes commitTs member other txn' h status
  rcases lookup_of_insert h with ⟨rfl,rfl⟩ | ⟨_,h⟩
  · rw [active] at status
    cases status
  · exact excluded a reads writes commitTs member other txn' h status

/-- Validation finds every conflict of the footprint, because the log still holds every commit after
the snapshot of the transaction. -/
theorem Excluded.prepare {held : List PreparedCommit} (inv : Inv history m held)
    (excluded : Excluded footprint history m)
    (stable : ∀ ctx : TxnContext, footprint ctx.takeWriteSet.2 = footprint ctx)
    (covered : ∀ ctx : TxnContext, ∀ key ∈ footprint ctx, key ∈ ctx.readSet.map (·.key) ∨ key ∈ ctx.writeKeys)
    (id : Nat) (txn : ActiveTxn) (detector : ConflictDetector) (found : m.activeTxns.lookup id = some txn)
    (valid : txn.context.writeKeys ≠ [] → (m.conflictDetector.validate txn.context).isOk = true) :
    Excluded footprint history ({m with conflictDetector := detector}.enterPrepared id txn).2 := by
  intro a reads writes commitTs member other txn' h status different before busy write inside
  rcases lookup_of_insert h with ⟨rfl,rfl⟩ | ⟨_,h⟩
  · intro touched
    have touched : write.key ∈ footprint txn.context := by
      rw [← stable]
      exact touched
    have logged := inv.retained a reads writes commitTs member write inside _ _ (inv.registered _ txn found) before
    have own := m.conflictDetector.validate_ok txn.context (valid busy) _ logged
      ((inv.snapshot _ txn found).1 ▸ before) (covered _ _ touched)
    exact different ((inv.ids _ txn found).1.symm.trans own.symm)
  · exact excluded a reads writes commitTs member other txn' h status different before busy write inside

end

/-! Finalizing a transaction. -/

theorem Inv.finalize {history : List Event} {m : TxnManager} {held rest : List PreparedCommit}
    (inv : Inv history m held) (fewer : ∀ token ∈ rest, token ∈ held) (reads : List ReadRecord) (token : PreparedCommit)
    (nowMillis : Nat) (writes : List TxnWrite) (next : TxnManager) (bounded : next.globalTs < tsInf)
    (ok : m.finalizeCommit token nowMillis = (.ok writes,next)) :
    Inv (history ++ [.finalized token.txnId reads writes m.globalTs]) next rest := by
  unfold TxnManager.finalizeCommit at ok
  split at ok
  · simp at ok
  rename_i txn found
  split at ok
  · simp at ok
  simp only [Prod.mk.injEq,Except.ok.injEq] at ok
  obtain ⟨rfl,rfl⟩ := ok
  have stamps : (history ++ [Event.finalized token.txnId reads token.writes m.globalTs]).filterMap Event.stamp =
      history.filterMap Event.stamp ++ [m.globalTs] := by
    simp [Event.stamp]
  have admissions : (history ++ [Event.finalized token.txnId reads token.writes m.globalTs]).filterMap Event.admitted =
      history.filterMap Event.admitted := by
    simp [Event.admitted]
  have bound : m.globalTs + 1 < tsInf := bounded
  -- the transaction is gone, as after an abort
  have gone := inv.abort token.txnId txn found
  constructor
  case ids => exact gone.ids
  case snapshot => exact gone.snapshot
  case registered => exact gone.registered
  case separate => exact gone.separate
  case fresh => exact gone.fresh
  case tracks => exact gone.tracks
  case open_ => exact gone.open_
  case prepared =>
    intro other txn' h closed
    obtain ⟨validating,reader,intents⟩ := inv.prepared other txn' (lookup_of_erase h).2 closed
    refine ⟨validating,reader,?_⟩
    intro key member
    have kept := ConflictDetector.releaseIntents_spec m.conflictDetector.activeWrites token.txnId
      txn.context.writeKeys key other (lookup_of_erase h).1 (intents key member)
    unfold TxnManager.trimLog
    split <;> exact kept
  case tokens =>
    intro other member
    obtain ⟨below,checked⟩ := inv.tokens other (fewer other member)
    exact ⟨below,fun txn' h => checked txn' (lookup_of_erase h).2⟩
  case began => exact fun other txn' h => List.mem_append_left _ (inv.began other txn' (lookup_of_erase h).2)
  case once =>
    rw [admissions]
    exact inv.once
  case numbered =>
    rw [admissions]
    exact inv.numbered
  case increasing =>
    rw [stamps,List.pairwise_append]
    refine ⟨inv.increasing,List.pairwise_singleton _ _,?_⟩
    intro a ha b hb
    exact (List.mem_singleton.mp hb) ▸ inv.elapsed a ha
  case elapsed =>
    intro ts member
    rw [stamps] at member
    rcases List.mem_append.mp member with earlier | last
    · exact Nat.lt_succ_of_lt (inv.elapsed ts earlier)
    · exact (List.mem_singleton.mp last) ▸ Nat.lt_succ_self _
  case retained =>
    intro id old writes commitTs member write inside sid snap h before
    -- The cached minimum is at most the snapshot's timestamp, so it is a real
    -- timestamp, and the trim keeps every commit from it on.
    have oldest := SnapshotManager.tracks_release m.snapshotManager txn.snapshot.id sid snap h
    have logged : (⟨id,commitTs,write.table,write.rowId⟩ : CommittedWrite) ∈
        m.conflictDetector.committedWrites ++
          token.writes.map (fun w => ⟨token.txnId,m.globalTs,w.table,w.rowId⟩) := by
      rcases List.mem_append.mp member with earlier | last
      · exact List.mem_append_left _
          (inv.retained id old writes commitTs earlier write inside sid snap (lookup_of_erase h).2 before)
      · simp only [List.mem_singleton,Event.finalized.injEq] at last
        obtain ⟨rfl,rfl,rfl,rfl⟩ := last
        exact List.mem_append_right _ (List.mem_map.mpr ⟨write,inside,rfl⟩)
    have past : commitTs ≤ m.globalTs := by
      rcases List.mem_append.mp member with earlier | last
      · exact Nat.le_of_lt (inv.elapsed commitTs (List.mem_filterMap.mpr ⟨_,earlier,rfl⟩))
      · simp only [List.mem_singleton,Event.finalized.injEq] at last
        exact Nat.le_of_eq last.2.2.2
    have real : (m.snapshotManager.release txn.snapshot.id).oldestActiveTs ≠ tsActive := by
      unfold tsInf at bound
      unfold tsActive
      omega
    unfold TxnManager.trimLog
    rw [if_pos real]
    refine List.mem_filter.mpr ⟨logged,?_⟩
    simp only [ge_iff_le,decide_eq_true_eq]
    omega

theorem Excluded.finalize {footprint : TxnContext → List (String × Nat)} {history : List Event} {m : TxnManager}
    {held : List PreparedCommit} (inv : Inv history m held) (excluded : Excluded footprint history m)
    (token : PreparedCommit) (nowMillis : Nat) (writes : List TxnWrite) (next : TxnManager) (owned : token ∈ held)
    (clear : ∀ txn, m.activeTxns.lookup token.txnId = some txn → Clear footprint m token.txnId txn.context.writeKeys)
    (reads : List ReadRecord) (ok : m.finalizeCommit token nowMillis = (.ok writes,next)) :
    Excluded footprint (history ++ [.finalized token.txnId reads writes m.globalTs]) next := by
  unfold TxnManager.finalizeCommit at ok
  split at ok
  · simp at ok
  rename_i txn found
  split at ok
  · simp at ok
  simp only [Prod.mk.injEq,Except.ok.injEq] at ok
  obtain ⟨rfl,rfl⟩ := ok
  intro id old writes commitTs member other txn' h status different before busy write inside
  obtain ⟨apart,h⟩ := lookup_of_erase h
  rcases List.mem_append.mp member with earlier | last
  · exact excluded id old writes commitTs earlier other txn' h status different before busy write inside
  · simp only [List.mem_singleton,Event.finalized.injEq] at last
    obtain ⟨rfl,rfl,rfl,rfl⟩ := last
    have keys := ((inv.tokens token owned).2 txn found).2
    exact clear txn found other txn' h apart status busy write.key (keys write inside)

/-! The operations in terms of the primitive changes. -/

inductive Effect (s : System) : Op → Event → System → Prop
  | admitted {op : Op} (now globalTs : Nat) (readOnly : Bool) (late : List Nat)
      (drawn : globalTs = if readOnly then s.manager.globalTs else s.manager.globalTs + 1) :
      Effect s op (.began s.manager.nextTxnId s.manager.globalTs readOnly)
        ⟨({s.manager with globalTs := globalTs}.enroll s.manager.globalTs now readOnly).abortListed late,s.held⟩
  | stores {op : Op} {event : Event} (silent : event.Silent) (stores : Map String VersionStore)
      (gc : GarbageCollector) :
      Effect s op event ⟨{s.manager with versionStores := stores, gc := gc},s.held⟩
  | aborted {op : Op} {event : Event} (silent : event.Silent) (id : Nat) (txn : ActiveTxn)
      (found : s.manager.activeTxns.lookup id = some txn) : Effect s op event ⟨s.manager.abortTxn id txn,s.held⟩
  | edited {event : Event} (silent : event.Silent) (id now : Nat) (calls : List ContextOp) (txn : ActiveTxn)
      (found : s.manager.activeTxns.lookup id = some txn) (active : txn.status = .active) :
      Effect s (.withContext id now calls) event ⟨{s.manager with activeTxns :=
        (s.manager.activeTxns.insert id {txn with context := (applyAll txn.context calls).2, lastActivity := now})},
          s.held⟩
  | prepared (id : Nat) (txn : ActiveTxn) (detector : ConflictDetector)
      (found : s.manager.activeTxns.lookup id = some txn) (active : txn.status = .active)
      (intents : txn.context.hasWrites = true →
        Intents s.manager detector txn.context.txnId txn.context.writeKeys)
      (valid : txn.context.hasWrites = true → (s.manager.conflictDetector.validate txn.context).isOk = true)
      (idle : txn.context.hasWrites = false → detector = s.manager.conflictDetector) :
      Effect s (.prepareCommit id) (.prepared id (.ok ()))
        ⟨({s.manager with conflictDetector := detector}.enterPrepared id txn).2,
          ({s.manager with conflictDetector := detector}.enterPrepared id txn).1 :: s.held⟩
  | finalized (token : PreparedCommit) (nowMillis : Nat) (writes : List TxnWrite) (next : TxnManager)
      (owned : token ∈ s.held) (rest : List PreparedCommit) (fewer : ∀ other ∈ rest, other ∈ s.held)
      (ok : s.manager.finalizeCommit token nowMillis = (.ok writes,next)) :
      Effect s (.finalizeCommit token.txnId nowMillis)
        (.finalized token.txnId (s.manager.readSetOf token.txnId) writes s.manager.globalTs) ⟨next,rest⟩
  | discarded {op : Op} {event : Event} (silent : event.Silent) (rest : List PreparedCommit)
      (fewer : ∀ other ∈ rest, other ∈ s.held) : Effect s op event ⟨s.manager,rest⟩

private theorem stores_getVersionStore (m : TxnManager) (table : String) :
    ∃ stores, (m.getVersionStore table).2 = {m with versionStores := stores, gc := m.gc} := by
  unfold TxnManager.getVersionStore
  split
  · exact ⟨m.versionStores,rfl⟩
  · exact ⟨_,rfl⟩

private theorem toIoError_none (result : ConflictResult) (clean : result.toIoError = none) :
    result = .noConflict := by
  cases result with
  | noConflict => rfl
  | readWriteConflict | writeWriteConflict => simp [ConflictResult.toIoError] at clean

private theorem finalizeCommit_error (m next : TxnManager) (token : PreparedCommit) (nowMillis : Nat) (e : IoError)
    (failed : m.finalizeCommit token nowMillis = (.error e,next)) : next = m := by
  unfold TxnManager.finalizeCommit at failed
  split at failed
  · exact (Prod.mk.inj failed).2.symm
  · split at failed
    · exact (Prod.mk.inj failed).2.symm
    · simp at failed

private theorem prepareCommit_effect (s : System) (id : Nat) (event : Event) (next : System)
    (ok : s.perform (.prepareCommit id) = some (event,next)) : Effect s (.prepareCommit id) event next := by
  have silent (e : IoError) : (Event.prepared id (.error e)).Silent := by constructor <;> simp
  simp only [System.perform,TxnManager.prepareCommit] at ok
  cases found : s.manager.activeTxns.lookup id with
  | none =>
    simp only [found,Option.some.injEq,Prod.mk.injEq] at ok
    obtain ⟨rfl,rfl⟩ := ok
    exact .discarded (silent _) s.held (fun _ h => h)
  | some txn =>
    simp only [found] at ok
    by_cases active : txn.status = .active
    · simp only [active,ne_eq,not_true_eq_false,if_false] at ok
      cases writes : txn.context.hasWrites with
      | false =>
        simp only [writes,Bool.false_eq_true,if_false,Option.some.injEq,Prod.mk.injEq] at ok
        obtain ⟨rfl,rfl⟩ := ok
        exact .prepared id txn s.manager.conflictDetector found active (by simp [writes]) (by simp [writes])
          (fun _ => rfl)
      | true =>
        simp only [writes,if_true] at ok
        cases checked : (s.manager.conflictDetector.validate txn.context).toIoError with
        | some e =>
          simp only [checked,Option.some.injEq,Prod.mk.injEq] at ok
          obtain ⟨rfl,rfl⟩ := ok
          exact .aborted (silent _) id txn found
        | none =>
          simp only [checked] at ok
          cases acquired : s.manager.conflictDetector.acquireWriteIntent txn.context with
          | mk intent detector =>
            simp only [acquired] at ok
            cases clean : intent.toIoError with
            | some e =>
              simp only [clean,Option.some.injEq,Prod.mk.injEq] at ok
              obtain ⟨rfl,rfl⟩ := ok
              exact .aborted (silent _) id txn found
            | none =>
              simp only [clean,Option.some.injEq,Prod.mk.injEq] at ok
              obtain ⟨rfl,rfl⟩ := ok
              rw [toIoError_none _ clean] at acquired
              obtain ⟨log,keys,free⟩ := ConflictDetector.acquireWriteIntent_ok _ _ _ acquired
              refine .prepared id txn detector found active (fun _ => ⟨log,?_,?_⟩) ?_ (by simp [writes])
              · intro key member
                rw [keys,if_pos member]
              · intro key owner different lookup
                rw [keys,if_neg (fun member => different (free key member owner lookup))]
                exact lookup
              · intro _
                rw [toIoError_none _ checked]
                rfl
    · simp only [active,ne_eq,not_false_eq_true,if_true,Option.some.injEq,Prod.mk.injEq] at ok
      obtain ⟨rfl,rfl⟩ := ok
      exact .discarded (silent _) s.held (fun _ h => h)

private theorem finalizeCommit_effect (s : System) (id nowMillis : Nat) (event : Event) (next : System)
    (ok : s.perform (.finalizeCommit id nowMillis) = some (event,next)) :
    Effect s (.finalizeCommit id nowMillis) event next := by
  simp only [System.perform] at ok
  split at ok
  · cases ok
  rename_i token located
  have owned := List.mem_of_find?_eq_some located
  have named : token.txnId = id := by simpa using List.find?_some located
  have fewer : ∀ other ∈ s.held.eraseP (fun token => token.txnId == id), other ∈ s.held :=
    fun other member => List.mem_of_mem_eraseP member
  split at ok
  · rename_i writes manager done
    simp only [Option.some.injEq,Prod.mk.injEq] at ok
    obtain ⟨rfl,rfl⟩ := ok
    subst named
    exact .finalized token nowMillis writes manager owned _ fewer done
  · rename_i e manager failed
    simp only [Option.some.injEq,Prod.mk.injEq] at ok
    obtain ⟨rfl,rfl⟩ := ok
    have same := finalizeCommit_error _ _ _ _ _ failed
    subst same
    exact .discarded (by constructor <;> simp) _ fewer

private theorem withContext_effect (s : System) (id now : Nat) (calls : List ContextOp) (event : Event) (next : System)
    (ok : s.perform (.withContext id now calls) = some (event,next)) :
    Effect s (.withContext id now calls) event next := by
  have silent (result : Except IoError Unit) : (Event.context id result).Silent := by constructor <;> simp
  simp only [System.perform,TxnManager.withContext,Option.some.injEq,Prod.mk.injEq] at ok
  obtain ⟨rfl,rfl⟩ := ok
  cases found : s.manager.activeTxns.lookup id with
  | none => exact .discarded (silent _) s.held (fun _ h => h)
  | some txn =>
    by_cases active : txn.status = .active
    · by_cases late : TxnManager.isTimedOut txn now = true
      · simp only [active,late,ne_eq,not_true_eq_false,if_false,if_true]
        exact .aborted (silent _) id txn found
      · simp only [active,late,ne_eq,not_true_eq_false,if_false,Bool.false_eq_true]
        have edited := Effect.edited (s := s) (silent (applyAll txn.context calls).1) id now calls txn found active
        rw [active] at edited
        exact edited
    · simp only [active,ne_eq,not_false_eq_true,if_true]
      exact .discarded (silent _) s.held (fun _ h => h)

theorem System.exec_effect (s : System) (op : Op) (event : Event) (next : System)
    (ok : s.exec op = some (event,next)) : Effect s op event next ∧ next.manager.globalTs < tsInf := by
  obtain ⟨performed,bound⟩ := Option.filter_eq_some_iff.mp ok
  refine ⟨?_,by simpa using bound⟩
  cases op with
  | begin now =>
    simp only [perform,Option.some.injEq,Prod.mk.injEq] at performed
    obtain ⟨rfl,rfl⟩ := performed
    exact .admitted now _ false _ rfl
  | beginReadOnly now =>
    simp only [perform,Option.some.injEq,Prod.mk.injEq] at performed
    obtain ⟨rfl,rfl⟩ := performed
    exact .admitted now _ true [] rfl
  | withContext id now calls => exact withContext_effect s id now calls event next performed
  | prepareCommit id => exact prepareCommit_effect s id event next performed
  | finalizeCommit id nowMillis => exact finalizeCommit_effect s id nowMillis event next performed
  | rollback id =>
    have silent (result : Except IoError Unit) : (Event.rolledBack id result).Silent := by constructor <;> simp
    simp only [perform,TxnManager.rollback,Option.some.injEq,Prod.mk.injEq] at performed
    obtain ⟨rfl,rfl⟩ := performed
    cases found : s.manager.activeTxns.lookup id with
    | none => exact .discarded (silent _) s.held (fun _ h => h)
    | some txn => exact .aborted (silent _) id txn found
  | isVisible id table rowId =>
    simp only [perform,TxnManager.isVisible,Option.some.injEq,Prod.mk.injEq] at performed
    obtain ⟨rfl,rfl⟩ := performed
    obtain ⟨stores,same⟩ := stores_getVersionStore s.manager table
    split
    · exact .discarded (by constructor <;> simp) s.held (fun _ h => h)
    · rw [same]
      exact .stores (by constructor <;> simp) stores s.manager.gc
  | readVersioned id table rowId =>
    simp only [perform,TxnManager.readVersioned,Option.some.injEq,Prod.mk.injEq] at performed
    obtain ⟨rfl,rfl⟩ := performed
    obtain ⟨stores,same⟩ := stores_getVersionStore s.manager table
    split
    · exact .discarded (by constructor <;> simp) s.held (fun _ h => h)
    · rw [same]
      exact .stores (by constructor <;> simp) stores s.manager.gc
  | collectGarbage table nowMillis =>
    have silent : (Event.collected table).Silent := by constructor <;> simp
    simp only [perform,TxnManager.collectGarbage,Option.some.injEq,Prod.mk.injEq] at performed
    obtain ⟨rfl,rfl⟩ := performed
    split
    · exact .discarded silent s.held (fun _ h => h)
    · exact .stores silent _ _

/-! The invariant along a run. -/

private theorem Inv.step {history : List Event} {s next : System} {op : Op} {event : Event}
    (inv : Inv history s.manager s.held) (effect : Effect s op event next) (bound : next.manager.globalTs < tsInf) :
    Inv (history ++ [event]) next.manager next.held := by
  cases effect with
  | admitted now globalTs readOnly late drawn =>
    exact TxnManager.abortListed_induct (P := fun m => Inv _ m s.held)
      (fun m id txn kept found => kept.abort id txn found) late _ (inv.enroll globalTs now readOnly drawn)
  | stores silent stores gc => exact (inv.stores stores gc).silent silent
  | aborted silent id txn found => exact (inv.abort id txn found).silent silent
  | edited silent id now calls txn found active =>
    obtain ⟨exact,reader⟩ := inv.open_ id txn found active
    obtain ⟨same,kept⟩ := applyAll_keeps calls txn.context exact
    refine (inv.edit id now txn _ found active same kept ?_).silent silent
    intro mode
    have before : txn.context.readOnly = true := same.readOnly ▸ mode
    exact applyAll_reader calls txn.context exact before (reader before)
  | prepared id txn detector found active intents valid idle =>
    have silent : (Event.prepared id (.ok ())).Silent := by constructor <;> simp
    refine (inv.prepare id txn detector found active ?_).silent silent
    cases writes : txn.context.hasWrites with
    | true => exact (inv.ids id txn found).1 ▸ intents writes
    | false =>
      rw [idle writes]
      refine ⟨rfl,?_,fun _ _ _ kept => kept⟩
      intro key member
      obtain ⟨write,inside,_⟩ := ((inv.open_ id txn found active).1 key).mp member
      have empty : txn.context.writeSet = [] := by simpa [TxnContext.hasWrites] using writes
      rw [empty] at inside
      cases inside
  | finalized token nowMillis writes manager owned rest fewer ok =>
    exact inv.finalize fewer _ token nowMillis writes manager bound ok
  | discarded silent rest fewer =>
    have smaller : Inv history s.manager rest :=
      ⟨inv.ids,inv.snapshot,inv.registered,inv.separate,inv.fresh,inv.tracks,inv.open_,inv.prepared,
        fun token member => inv.tokens token (fewer token member),inv.began,inv.once,inv.numbered,inv.increasing,
          inv.elapsed,inv.retained⟩
    exact smaller.silent silent

theorem Inv.of_run {allowed : System → Op → Bool} {history : List Event} {s : System}
    (run : Library.Run System.exec allowed System.new history s) : Inv history s.manager s.held := by
  refine Library.Run.invariant (P := fun history s => Inv history s.manager s.held) Inv.new ?_ run
  intro history state op event next _ inv _ stepped
  obtain ⟨effect,bound⟩ := state.exec_effect op event next stepped
  exact inv.step effect bound

end ApexBase.Txn
