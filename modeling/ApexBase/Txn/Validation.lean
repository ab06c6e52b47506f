import ApexBase.Txn.Invariant

/-! What optimistic validation guarantees over whole runs: first committer wins for write sets, and,
where prepared transactions do not overlap, the same for read sets. -/
namespace ApexBase.Txn
open Data Library.Assoc Mvcc

section
variable {footprint : TxnContext → List (String × Nat)} {history : List Event}

private theorem Excluded.step {s next : System} {op : Op} {event : Event}
    (stable : ∀ ctx : TxnContext, footprint ctx.takeWriteSet.2 = footprint ctx)
    (covered : ∀ ctx : TxnContext, ∀ key ∈ footprint ctx, key ∈ ctx.readSet.map (·.key) ∨ key ∈ ctx.writeKeys)
    (inv : Inv history s.manager s.held) (excluded : Excluded footprint history s.manager)
    (effect : Effect s op event next)
    (clear : ∀ id nowMillis txn, op = .finalizeCommit id nowMillis → s.manager.activeTxns.lookup id = some txn →
      txn.status = .validating → Clear footprint s.manager id txn.context.writeKeys) :
    Excluded footprint (history ++ [event]) next.manager := by
  cases effect with
  | admitted now globalTs readOnly late drawn =>
    exact TxnManager.abortListed_induct (P := fun m => Excluded footprint _ m)
      (fun m id txn kept _ => kept.abort id txn) late _ (excluded.enroll globalTs _ now readOnly)
  | stores silent stores gc =>
    exact Excluded.silent (m := {s.manager with versionStores := stores, gc := gc}) excluded silent
  | aborted silent id txn found => exact (excluded.abort id txn).silent silent
  | edited silent id now calls txn found active =>
    exact (excluded.edit id {txn with context := (applyAll txn.context calls).2, lastActivity := now}
      active).silent silent
  | prepared id txn detector found active intents valid idle =>
    have silent : (Event.prepared id (.ok ())).Silent := by constructor <;> simp
    refine (Excluded.prepare inv excluded stable covered id txn detector found ?_).silent silent
    intro busy
    apply valid
    obtain ⟨key,member⟩ := List.exists_mem_of_ne_nil _ busy
    obtain ⟨write,inside,_⟩ := ((inv.open_ id txn found active).1 key).mp member
    simp [TxnContext.hasWrites,List.ne_nil_of_mem inside]
  | finalized token nowMillis writes manager owned rest fewer ok =>
    refine Excluded.finalize inv excluded token nowMillis writes manager owned ?_ _ ok
    intro txn found
    exact clear _ nowMillis txn rfl found ((inv.tokens token owned).2 txn found).1
  | discarded silent rest fewer => exact excluded.silent silent

/-- A prepared transaction that is about to finalize a write: what the invariants say about it and
about the commits since its snapshot. -/
private theorem finalized_entry {s : System} (inv : Inv history s.manager s.held)
    (excluded : Excluded footprint history s.manager) (token : PreparedCommit) (nowMillis : Nat)
    (writes : List TxnWrite) (manager : TxnManager) (owned : token ∈ s.held)
    (ok : s.manager.finalizeCommit token nowMillis = (.ok writes,manager)) (busy : writes ≠ []) :
    ∃ txn, s.manager.activeTxns.lookup token.txnId = some txn ∧ (∀ write ∈ writes, write.key ∈ txn.context.writeKeys) ∧
      .began token.txnId txn.snapshot.readTs false ∈ history ∧
      ∀ id reads others commitTs, .finalized id reads others commitTs ∈ history → token.txnId ≠ id →
        ∀ write ∈ others, write.key ∈ footprint txn.context → commitTs ≤ txn.snapshot.readTs := by
  unfold TxnManager.finalizeCommit at ok
  split at ok
  · simp at ok
  rename_i txn found
  split at ok
  · simp at ok
  simp only [Prod.mk.injEq,Except.ok.injEq] at ok
  obtain ⟨rfl,_⟩ := ok
  obtain ⟨validating,keys⟩ := (inv.tokens token owned).2 txn found
  obtain ⟨first,member⟩ := List.exists_mem_of_ne_nil _ busy
  have nonempty : txn.context.writeKeys ≠ [] := List.ne_nil_of_mem (keys first member)
  have writer : txn.snapshot.readOnly = false := by
    cases mode : txn.snapshot.readOnly with
    | false => rfl
    | true =>
      have closed : txn.status ≠ .active := by rw [validating]; simp
      exact absurd ((inv.prepared _ txn found closed).2.1 ((inv.snapshot _ txn found).2.trans mode)) nonempty
  refine ⟨txn,found,keys,writer ▸ inv.began _ txn found,?_⟩
  intro id reads others commitTs earlier different write inside touched
  by_contra later
  exact excluded id reads others commitTs earlier _ txn found validating different (Nat.not_le.mp later) nonempty
    write inside touched

end

section
variable {history : List Event} {m : TxnManager} {held : List PreparedCommit} (inv : Inv history m held)
include inv

section
variable (i j : Nat) (a b : Event) (ha : history[i]? = some a) (hb : history[j]? = some b) (ta tb : Nat)
    (sa : a.stamp = some ta)
variable (sb : b.stamp = some tb)
include ha hb sa sb

private theorem stamp_order (before : i < j) : ta < tb := by
  have pairs := List.pairwise_filterMap.mp inv.increasing
  obtain ⟨boundA,rfl⟩ := List.getElem?_eq_some_iff.mp ha
  obtain ⟨boundB,rfl⟩ := List.getElem?_eq_some_iff.mp hb
  exact List.pairwise_iff_getElem.mp pairs i j boundA boundB before ta sa tb sb

private theorem index_order (before : ta < tb) : i < j := by
  rcases Nat.lt_trichotomy i j with less | same | greater
  · exact less
  · subst same
    rw [ha] at hb
    cases hb
    rw [sa] at sb
    exact absurd (Option.some.inj sb) (Nat.ne_of_lt before)
  · exact absurd before (Nat.not_lt.mpr (Nat.le_of_lt (stamp_order inv j i b a hb ha tb ta sb sa greater)))

end

private theorem stamp_injective (a b : Event) (ha : a ∈ history) (hb : b ∈ history) (ts : Nat)
    (sa : a.stamp = some ts) (sb : b.stamp = some ts) : a = b := by
  obtain ⟨i,ia⟩ := List.mem_iff_getElem?.mp ha
  obtain ⟨j,jb⟩ := List.mem_iff_getElem?.mp hb
  rcases Nat.lt_trichotomy i j with less | same | greater
  · exact absurd (stamp_order inv i j a b ia jb ts ts sa sb less) (Nat.lt_irrefl ts)
  · subst same
    exact Option.some.inj (ia.symm.trans jb)
  · exact absurd (stamp_order inv j i b a jb ia ts ts sb sa greater) (Nat.lt_irrefl ts)

private theorem began_unique (i j : Nat) (id ts ts' : Nat) (ro ro' : Bool) (ha : history[i]? = some (.began id ts ro))
    (hb : history[j]? = some (.began id ts' ro')) : i = j := by
  have pairs := List.pairwise_filterMap.mp inv.once
  obtain ⟨boundA,eventA⟩ := List.getElem?_eq_some_iff.mp ha
  obtain ⟨boundB,eventB⟩ := List.getElem?_eq_some_iff.mp hb
  rcases Nat.lt_trichotomy i j with less | same | greater
  · exact absurd rfl (List.pairwise_iff_getElem.mp pairs i j boundA boundB less id (by rw [eventA]; rfl) id
      (by rw [eventB]; rfl))
  · exact same
  · exact absurd rfl (List.pairwise_iff_getElem.mp pairs j i boundB boundA greater id (by rw [eventB]; rfl) id
      (by rw [eventA]; rfl))

end

private def Apart (touched : List ReadRecord → List TxnWrite → List (String × Nat)) (history : List Event) : Prop :=
  ∀ id reads writes commitTs id' reads' writes' commitTs', .finalized id reads writes commitTs ∈ history →
    .finalized id' reads' writes' commitTs' ∈ history → id ≠ id' → commitTs < commitTs' → writes' ≠ [] →
    ∃ readTs, .began id' readTs false ∈ history ∧
      ∀ write ∈ writes, write.key ∈ touched reads' writes' → commitTs < readTs

private theorem Apart.append {touched : List ReadRecord → List TxnWrite → List (String × Nat)} {history : List Event}
    (apart : Apart touched history) {event : Event}
    (keeps : ∀ id reads writes commitTs, event ≠ .finalized id reads writes commitTs) :
    Apart touched (history ++ [event]) := by
  intro id reads writes commitTs id' reads' writes' commitTs' a b different before busy
  have old {id reads writes commitTs} (h : Event.finalized id reads writes commitTs ∈ history ++ [event]) :
      .finalized id reads writes commitTs ∈ history := by
    rcases List.mem_append.mp h with earlier | last
    · exact earlier
    · exact absurd (List.mem_singleton.mp last).symm (keeps _ _ _ _)
  obtain ⟨readTs,began,later⟩ := apart id reads writes commitTs id' reads' writes' commitTs' (old a) (old b)
    different before busy
  exact ⟨readTs,List.mem_append_left _ began,later⟩

private theorem Apart.finalize {footprint : TxnContext → List (String × Nat)}
    {touched : List ReadRecord → List TxnWrite → List (String × Nat)} {history : List Event} {s : System}
    (inv : Inv history s.manager s.held) (excluded : Excluded footprint history s.manager)
    (apart : Apart touched history) (token : PreparedCommit) (nowMillis : Nat) (writes : List TxnWrite)
    (manager : TxnManager) (owned : token ∈ s.held)
    (recorded : ∀ txn, s.manager.activeTxns.lookup token.txnId = some txn →
      (∀ write ∈ writes, write.key ∈ txn.context.writeKeys) →
      ∀ key ∈ touched (s.manager.readSetOf token.txnId) writes, key ∈ footprint txn.context)
    (ok : s.manager.finalizeCommit token nowMillis = (.ok writes,manager)) :
    Apart touched (history ++
      [.finalized token.txnId (s.manager.readSetOf token.txnId) writes s.manager.globalTs]) := by
  have past (ts : Nat) (member : ts ∈ history.filterMap Event.stamp) : ts < s.manager.globalTs := inv.elapsed ts member
  intro id reads ws commitTs id' reads' ws' commitTs' a b different before busy
  rcases List.mem_append.mp a with earlier | last
  · rcases List.mem_append.mp b with earlier' | last'
    · obtain ⟨readTs,began,later⟩ := apart id reads ws commitTs id' reads' ws' commitTs' earlier earlier'
        different before busy
      exact ⟨readTs,List.mem_append_left _ began,later⟩
    · simp only [List.mem_singleton,Event.finalized.injEq] at last'
      obtain ⟨rfl,rfl,rfl,rfl⟩ := last'
      obtain ⟨txn,found,keys,began,settled⟩ := finalized_entry inv excluded token nowMillis ws' manager owned ok busy
      refine ⟨txn.snapshot.readTs,List.mem_append_left _ began,?_⟩
      intro write inside member
      have order := settled id reads ws commitTs earlier different.symm write inside (recorded txn found keys _ member)
      refine Nat.lt_of_le_of_ne order ?_
      intro equal
      have clash := stamp_injective inv _ _ earlier began commitTs rfl (by rw [equal]; rfl)
      cases clash
  · simp only [List.mem_singleton,Event.finalized.injEq] at last
    obtain ⟨_,_,_,rfl⟩ := last
    rcases List.mem_append.mp b with earlier' | last'
    · exact absurd (past commitTs' (List.mem_filterMap.mpr ⟨_,earlier',rfl⟩)) (Nat.not_lt.mpr (Nat.le_of_lt before))
    · simp only [List.mem_singleton,Event.finalized.injEq] at last'
      exact absurd last'.2.2.2.symm (Nat.ne_of_lt before)

/-- The run lemma: a footprint that validation covers, and that commits stay clear of, keeps
finalized transactions apart. -/
private theorem Apart.of_run {allowed : System → Op → Bool} (footprint : TxnContext → List (String × Nat))
    (touched : List ReadRecord → List TxnWrite → List (String × Nat))
    (stable : ∀ ctx : TxnContext, footprint ctx.takeWriteSet.2 = footprint ctx)
    (covered : ∀ ctx : TxnContext, ∀ key ∈ footprint ctx, key ∈ ctx.readSet.map (·.key) ∨ key ∈ ctx.writeKeys)
    (recorded : ∀ (ctx : TxnContext) (writes : List TxnWrite), (∀ write ∈ writes, write.key ∈ ctx.writeKeys) →
      ∀ key ∈ touched ctx.readSet writes, key ∈ footprint ctx)
    (clear : ∀ (history : List Event) (s : System) (id nowMillis : Nat) (txn : ActiveTxn),
      Inv history s.manager s.held → allowed s (.finalizeCommit id nowMillis) = true →
      s.manager.activeTxns.lookup id = some txn → txn.status = .validating →
      Clear footprint s.manager id txn.context.writeKeys)
    {history : List Event} {s : System} (run : Library.Run System.exec allowed System.new history s) :
    Apart touched history := by
  have both := Library.Run.invariant
    (P := fun history s => Excluded footprint history s.manager ∧ Apart touched history)
    ⟨(by intro _ _ _ _ h; cases h),(by intro _ _ _ _ _ _ _ _ h; cases h)⟩ ?_ run
  · exact both.2
  intro history state op event next before kept permitted stepped
  have inv := Inv.of_run before
  obtain ⟨effect,_⟩ := state.exec_effect op event next stepped
  refine ⟨Excluded.step stable covered inv kept.1 effect ?_,?_⟩
  · intro id nowMillis txn called found validating
    subst called
    exact clear history state id nowMillis txn inv permitted found validating
  · cases effect with
    | admitted => exact kept.2.append (by simp)
    | stores silent | aborted silent | edited silent | discarded silent => exact kept.2.append silent.2
    | prepared => exact kept.2.append (by simp)
    | finalized token nowMillis writes manager owned rest fewer ok =>
      refine Apart.finalize inv kept.1 kept.2 token nowMillis writes manager owned ?_ ok
      intro txn found keys key member
      have reads : state.manager.readSetOf token.txnId = txn.context.readSet := by
        simp [TxnManager.readSetOf,found]
      rw [reads] at member
      exact recorded txn.context writes keys key member

private theorem writes_clear {history : List Event} {m : TxnManager} {held : List PreparedCommit}
    (inv : Inv history m held) (id : Nat) (txn : ActiveTxn) (found : m.activeTxns.lookup id = some txn)
    (validating : txn.status = .validating) : Clear TxnContext.writeKeys m id txn.context.writeKeys := by
  intro other txn' found' different status _ key member member'
  have own := (inv.prepared id txn found (by rw [validating]; simp)).2.2 key member
  have foreign := (inv.prepared other txn' found' (by rw [status]; simp)).2.2 key member'
  exact different (Option.some.inj (foreign.symm.trans own))

/-- In every run, of two transactions that finalized writes to one row one began after the other had
finalized; and at every moment the commit log still holds each finalized write that is newer than
some registered snapshot. -/
theorem first_committer_wins {history : List Event} {s : System} (run : System.Run history s) :
    (∀ (i j id id' commitTs commitTs' : Nat) (reads reads' : List ReadRecord) (writes writes' : List TxnWrite),
      history[i]? = some (Event.finalized id reads writes commitTs) →
      history[j]? = some (Event.finalized id' reads' writes' commitTs') → id ≠ id' →
      (∃ write ∈ writes, ∃ write' ∈ writes', write.key = write'.key) →
      (∃ b readTs : Nat, history[b]? = some (Event.began id' readTs false) ∧ i < b) ∨
      (∃ b readTs : Nat, history[b]? = some (Event.began id readTs false) ∧ j < b)) ∧
    ∀ id reads writes commitTs, .finalized id reads writes commitTs ∈ history → ∀ write ∈ writes,
      ∀ sid snap, s.manager.snapshotManager.active.lookup sid = some snap → snap.readTs < commitTs →
      ⟨id,commitTs,write.table,write.rowId⟩ ∈ s.manager.conflictDetector.committedWrites := by
  have inv := Inv.of_run run
  have apart : Apart (fun _ writes => writes.map TxnWrite.key) history := by
    refine Apart.of_run TxnContext.writeKeys _ (fun _ => rfl) (fun _ _ h => Or.inr h) ?_ ?_ run
    · intro ctx writes keys key member
      obtain ⟨write,inside,rfl⟩ := List.mem_map.mp member
      exact keys write inside
    · exact fun _ _ id _ txn inv _ found validating => writes_clear inv id txn found validating
  -- The earlier commit is the one the later transaction began after.
  have ordered {i j id id' commitTs commitTs' : Nat} {reads reads' : List ReadRecord} {writes writes' : List TxnWrite}
      (hi : history[i]? = some (Event.finalized id reads writes commitTs))
      (hj : history[j]? = some (Event.finalized id' reads' writes' commitTs')) (different : id ≠ id')
      (share : ∃ write ∈ writes, ∃ write' ∈ writes', write.key = write'.key) (before : commitTs < commitTs') :
      ∃ b readTs : Nat, history[b]? = some (Event.began id' readTs false) ∧ i < b := by
    obtain ⟨write,inside,write',inside',key⟩ := share
    obtain ⟨readTs,began,later⟩ := apart _ _ _ _ _ _ _ _ (List.mem_of_getElem? hi) (List.mem_of_getElem? hj)
      different before (List.ne_nil_of_mem inside')
    obtain ⟨b,hb⟩ := List.mem_iff_getElem?.mp began
    have order := later write inside (key ▸ List.mem_map_of_mem inside')
    exact ⟨b,readTs,hb,index_order inv i b _ _ hi hb commitTs readTs rfl rfl order⟩
  refine ⟨?_,inv.retained⟩
  intro i j id id' commitTs commitTs' reads reads' writes writes' hi hj different share
  rcases Nat.lt_trichotomy commitTs commitTs' with less | same | greater
  · exact Or.inl (ordered hi hj different share less)
  · have clash := stamp_injective inv _ _ (List.mem_of_getElem? hi) (List.mem_of_getElem? hj) commitTs rfl
      (by rw [same]; rfl)
    exact absurd (Event.finalized.inj clash).1 different
  · obtain ⟨write,inside,write',inside',key⟩ := share
    exact Or.inr (ordered hj hi different.symm ⟨write',inside',write,inside,key.symm⟩ greater)

theorem first_committer_wins_in_turn :
    ∃ history s, System.Run history s ∧
      history[3]? = some (Event.finalized 1 [] [.insert "t" 7 ∅] 2) ∧
      history[7]? = some (Event.finalized 2 [] [.delete "t" 7 ∅] 4) ∧
      ((∃ b readTs : Nat, history[b]? = some (Event.began 2 readTs false) ∧ 3 < b) ∨
        (∃ b readTs : Nat, history[b]? = some (Event.began 1 readTs false) ∧ 7 < b)) := by
  have played : Library.play System.exec (fun _ _ => true) System.new
      [.begin 0,.withContext 1 0 [.bufferInsert "t" 7 ∅],.prepareCommit 1,.finalizeCommit 1 0,
        .begin 0,.withContext 2 0 [.bufferDelete "t" 7 ∅],.prepareCommit 2,.finalizeCommit 2 0] = some (_,_) := rfl
  have run : System.Run _ _ := Library.Run.of_play played
  exact ⟨_,_,run,rfl,rfl,(first_committer_wins run).1 3 7 1 2 2 4 [] [] _ _ rfl rfl (by decide)
    ⟨_,List.mem_singleton_self _,_,List.mem_singleton_self _,rfl⟩⟩

def TxnContext.readKeys (ctx : TxnContext) : List (String × Nat) := ctx.readSet.map (·.key)

/-- Whenever a transaction finalized writes, no other transaction had finalized a write to a row of
its read set since it began. -/
def ReadsValid (history : List Event) : Prop :=
  ∀ (b i j id id' readTs commitTs commitTs' : Nat) (readOnly : Bool) (reads reads' : List ReadRecord)
    (writes writes' : List TxnWrite), history[b]? = some (Event.began id readTs readOnly) →
    history[i]? = some (Event.finalized id' reads' writes' commitTs') →
    history[j]? = some (Event.finalized id reads writes commitTs) → writes ≠ [] → id' ≠ id → b < i → i < j →
    ∀ write ∈ writes', write.key ∉ reads.map (·.key)

/-- The step finalizes no write to a row that another prepared transaction with writes of its own
has read. -/
def System.readersClear (s : System) : Op → Bool
  | .finalizeCommit id _ =>
    match s.manager.activeTxns.lookup id with
    | none => true
    | some txn => s.manager.activeTxns.entries.all fun e =>
        e.1 == id || e.2.status != .validating || e.2.context.writeKeys.isEmpty ||
          txn.context.writeKeys.all (fun key => !e.2.context.readKeys.contains key)
  | _ => true

private theorem readersClear_clear (s : System) (id nowMillis : Nat) (txn : ActiveTxn)
    (clear : s.readersClear (.finalizeCommit id nowMillis) = true) (found : s.manager.activeTxns.lookup id = some txn) :
    Clear TxnContext.readKeys s.manager id txn.context.writeKeys := by
  intro other txn' found' different validating busy key member
  simp only [System.readersClear,found,List.all_eq_true] at clear
  have checked := clear ⟨other,txn'⟩ (AList.mem_lookup_iff.mp found')
  have unread : ∀ key ∈ txn.context.writeKeys, key ∉ txn'.context.readKeys := by
    simpa [different,validating,busy] using checked
  exact unread key member

/-- Where no step finalizes under a prepared reader, read validation is complete. -/
theorem reads_valid_of_readersClear {history : List Event} {s : System}
    (run : Library.Run System.exec System.readersClear System.new history s) : ReadsValid history := by
  have inv := Inv.of_run run
  have apart : Apart (fun reads _ => reads.map (·.key)) history :=
    Apart.of_run TxnContext.readKeys _ (fun _ => rfl) (fun _ _ h => Or.inl h) (fun _ _ _ _ h => h)
      (fun _ s id nowMillis txn _ permitted found _ => readersClear_clear s id nowMillis txn permitted found) run
  intro b i j id id' readTs commitTs commitTs' readOnly reads reads' writes writes' hb hi hj busy different first second
    write inside member
  have before := stamp_order inv i j _ _ hi hj commitTs' commitTs rfl rfl second
  obtain ⟨drawn,began,later⟩ := apart _ _ _ _ _ _ _ _ (List.mem_of_getElem? hi) (List.mem_of_getElem? hj)
    different before busy
  have order := later write inside member
  -- A transaction begins once, so this is the snapshot taken at `b`.
  obtain ⟨k,hk⟩ := List.mem_iff_getElem?.mp began
  have here := began_unique inv b k id readTs drawn readOnly false hb hk
  have after := index_order inv i k _ _ hi hk commitTs' drawn rfl rfl order
  omega

theorem reads_valid_in_turn :
    ∃ history s, Library.Run System.exec System.readersClear System.new history s ∧
      history[1]? = some (Event.began 2 2 false) ∧
      history[4]? = some (Event.finalized 1 [] [.update "t" 2 ∅ ∅] 3) ∧
      history[7]? = some (Event.finalized 2 [⟨"t",1,2⟩] [.update "t" 3 ∅ ∅] 4) ∧ ReadsValid history := by
  have played : Library.play System.exec System.readersClear System.new
      [.begin 0,.begin 0,.withContext 1 0 [.bufferUpdate "t" 2 ∅ ∅],.prepareCommit 1,.finalizeCommit 1 0,
        .withContext 2 0 [.recordRead "t" 1 2,.bufferUpdate "t" 3 ∅ ∅],.prepareCommit 2,.finalizeCommit 2 0] =
      some (_,_) := rfl
  have run := Library.Run.of_play played
  exact ⟨_,_,run,rfl,rfl,rfl,reads_valid_of_readersClear run⟩

/-- Write skew: each of two transactions reads the row the other one updates, both prepare, and both
finalize. -/
theorem write_skew_commits : ¬ ∀ history s, System.Run history s → ReadsValid history := by
  intro valid
  have played : Library.play System.exec (fun _ _ => true) System.new
      [.begin 0,.begin 0,.withContext 1 0 [.recordRead "t" 1 0,.bufferUpdate "t" 2 ∅ ∅],
        .withContext 2 0 [.recordRead "t" 2 0,.bufferUpdate "t" 1 ∅ ∅],.prepareCommit 1,.prepareCommit 2,
        .finalizeCommit 1 0,.finalizeCommit 2 0] = some (_,_) := rfl
  have claimed := valid _ _ (Library.Run.of_play played) 1 6 7 2 1 2 4 3 false [⟨"t",2,0⟩] [⟨"t",1,0⟩]
    [.update "t" 1 ∅ ∅] [.update "t" 2 ∅ ∅] rfl rfl rfl (by simp) (by decide) (by decide) (by decide)
  exact claimed (.update "t" 2 ∅ ∅) (List.mem_singleton_self _) (List.mem_singleton_self _)

end ApexBase.Txn
