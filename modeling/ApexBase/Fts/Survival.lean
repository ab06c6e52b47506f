import ApexBase.Fts.Overlay
import ApexBase.Library.Journal
import Mathlib.Data.List.TakeWhile

/-! What is flushed survives every crash, as long as nothing goes on beside a snapshot that
it would lose. -/
namespace ApexBase.Fts
open Library Library.Assoc
open Session (Written)

namespace WalOp

def docId : WalOp → UInt64
  | .upsert docId _ => docId
  | .delete docId => docId

def version : WalOp → Option AnalyzedDocument
  | .upsert _ document => some document
  | .delete _ => none

end WalOp

abbrev Log := Journal UInt64 (Option AnalyzedDocument) WalOp

theorem replay_eq (ops : List WalOp) (start : Contents) :
    Journal.replay WalOp.docId WalOp.version ops start = ops.foldl applied start := by
  induction ops generalizing start with
  | nil => rfl
  | cons op rest ih =>
    cases op with
    | upsert docId document => exact ih _
    | delete docId => exact ih _

def Task.logs : Task → Bool
  | .adding _ _ recordWal => recordWal
  | .removing _ recordWal => recordWal
  | .appending => true
  | .persisting => false

namespace System

def log (system : System) : Log :=
  ⟨system.base,system.ops,system.flushed,system.engine.wal,system.engine.state.pendingWal,system.stale,system.saved⟩

structure Unlogged (system : System) : Prop where
  index : system.engine.index = none
  wal : system.engine.wal = []
  pending : system.engine.state.pendingWal = []
  flushed : system.flushed = 0
  stale : system.stale = 0
  base : system.base = system.saved

structure Logged (system : System) (first snapshot : Nat) : Prop where
  index : system.engine.index.isSome = true
  kept : ∃ old, Journal.Kept WalOp.docId WalOp.version system.log first snapshot old

structure Behind (system : System) (persist : Persist) (first snapshot : Nat) : Prop where
  logged : Logged system first snapshot
  ahead : Journal.Ahead WalOp.docId WalOp.version system.log first persist.acknowledged persist.pending
  before : persist.stage ≠ .logRemoved → first ≤ persist.acknowledged
  after : persist.stage = .replaced ∨ persist.stage = .logRemoved → persist.acknowledged ≤ snapshot
  removed : persist.stage = .logRemoved → system.engine.wal = [] ∨ persist.acknowledged ≤ system.flushed

/-- A snapshot on its way: the base has what was acknowledged when it was merged, and so has
the file that is written from it. -/
structure InFlight (system : System) (persist : Persist) : Prop where
  inside : persist.acknowledged ≤ system.ops.length
  eager : system.engine.state.mmapPostings = none
  atop : Over system.engine.state (system.contentsAt persist.acknowledged) system.now
  temp : persist.stage = .written → system.temp = some system.engine.state.snapshot
  index : persist.stage = .replaced ∨ persist.stage = .logRemoved → system.engine.index =
    some system.engine.state.snapshot
  saved : persist.stage = .replaced → system.saved = system.contentsAt persist.acknowledged
  phase : (persist.stage = .merged ∨ persist.stage = .written) ∧ Unlogged system ∧
    persist.acknowledged = system.ops.length ∧ persist.pending = 0 ∨
    ∃ first snapshot, Behind system persist first snapshot

theorem InFlight.behind {system : System} {persist : Persist} (flight : InFlight system persist)
    (stage : persist.stage = .replaced ∨ persist.stage = .logRemoved) :
    ∃ first snapshot, Behind system persist first snapshot := by
  refine flight.phase.resolve_left fun early => ?_
  rcases early.1 with same | same
  · simp [same] at stage
  · simp [same] at stage

structure Sound (system : System) : Prop where
  reads : Reads system.engine.state system.now
  written : Written system.engine.index system.saved
  filed : ∀ snapshot, system.engine.index = some snapshot → Filed snapshot system.saved
  tasks : ∀ task ∈ system.tasks, task.logs = true → system.engine.index.isSome = true
  phase : system.persists = [] ∧ (Unlogged system ∨ ∃ first snapshot, Logged system first snapshot) ∨
    ∃ persist, system.persists = [persist] ∧ InFlight system persist

section Steps
variable {system : System} {persist : Persist} {recordBytes : WalOp → Nat} {lazyLoad : Bool}

theorem contentsAt_eq (system : System) (n : Nat) :
    system.contentsAt n = Journal.versions WalOp.docId WalOp.version system.base system.ops n := (replay_eq _ _).symm

theorem contentsAt_length (system : System) : system.contentsAt system.ops.length = system.now := by
  rw [contentsAt,List.take_length]
  rfl

theorem Unlogged.crashedWal (unlogged : Unlogged system) (torn : Option Nat) : system.crashedWal torn = [] := by
  cases torn with
  | none => exact unlogged.wal
  | some count => simp only [System.crashedWal,unlogged.wal,unlogged.pending,List.take_nil,List.append_nil]

theorem pendingWal_replay (wal : List WalOp) (state : IndexState) :
    (wal.foldl .replay state).pendingWal = state.pendingWal := by
  induction wal generalizing state with
  | nil => rfl
  | cons op rest ih =>
    refine (ih _).trans ?_
    cases op with
    | upsert docId document => exact (Grown.upsert state docId document false).pending.trans (List.append_nil _)
    | delete docId => exact (Grown.delete state docId false).pending.trans (List.append_nil _)

theorem Sound.recovers (sound : Sound system) {torn : Option Nat}
    (past : ∀ count, torn = some count → system.stale ≤ count) (docId : UInt64) :
    ∃ n, system.flushed ≤ n ∧ n ≤ system.ops.length ∧ (system.crashedWal torn).foldl applied system.saved docId =
    system.contentsAt n docId := by
  have unlogged : Unlogged system → ∃ n, system.flushed ≤ n ∧ n ≤ system.ops.length ∧
      (system.crashedWal torn).foldl applied system.saved docId = system.contentsAt n docId := by
    intro unlogged
    refine ⟨0,Nat.le_of_eq unlogged.flushed,Nat.zero_le _,?_⟩
    rw [unlogged.crashedWal torn]
    exact (congrFun unlogged.base docId).symm
  have logged : ∀ {first snapshot}, Logged system first snapshot → ∃ n, system.flushed ≤ n ∧ n ≤ system.ops.length ∧
      (system.crashedWal torn).foldl applied system.saved docId = system.contentsAt n docId := by
    intro first snapshot logged
    obtain ⟨old,kept⟩ := logged.kept
    obtain ⟨n,late,inside,same⟩ := kept.recovers torn past docId
    refine ⟨n,late,inside,?_⟩
    have crashed : system.log.crashed torn = system.crashedWal torn := by
      cases torn with
      | none => rfl
      | some count => rfl
    rw [crashed,replay_eq] at same
    rw [contentsAt_eq]
    exact same
  rcases sound.phase with ⟨_,early | ⟨_,_,late⟩⟩ | ⟨_,_,flight⟩
  · exact unlogged early
  · exact logged late
  · rcases flight.phase with ⟨_,early,_⟩ | ⟨_,_,behind⟩
    · exact unlogged early
    · exact logged behind.logged

/-! Changes. -/

theorem Logged.change {first snapshot : Nat} (logged : Logged system first snapshot) {state : IndexState}
    {records : List WalOp}
    (grown : Grown system.engine.state state records) :
    Logged {system with engine := {system.engine with state := state},ops := system.ops ++ records} first snapshot := by
  obtain ⟨old,kept⟩ := logged.kept
  refine ⟨logged.index,old,?_⟩
  have changed := kept.change records
  unfold log
  simp only [grown.pending]
  exact changed

theorem Logged.inside {first snapshot : Nat} (logged : Logged system first snapshot) : first ≤ system.ops.length := by
  obtain ⟨old,kept⟩ := logged.kept
  exact kept.first_le.trans kept.inside

theorem now_append (system : System) (state : IndexState) (records : List WalOp) :
    now {system with engine := {system.engine with state := state},ops := system.ops ++ records} =
    records.foldl applied system.now := List.foldl_append

theorem InFlight.recorded (flight : InFlight system persist) (index : system.engine.index.isSome = true)
    {state : IndexState} {records : List WalOp} (grown : Grown system.engine.state state records)
    (atop : ∀ old, Over system.engine.state old system.now → Over state old (records.foldl applied system.now)) :
    InFlight {system with engine := {system.engine with state := state},ops := system.ops ++ records} persist := by
  refine ⟨?_,grown.mapped.trans flight.eager,?_,fun stage => ?_,fun stage => ?_,fun stage => ?_,?_⟩
  · simp only [List.length_append]
    exact Nat.le_add_right_of_le flight.inside
  · rw [now_append]
    have same : contentsAt {system with engine := {system.engine with state := state},ops := system.ops ++ records}
      persist.acknowledged =
        system.contentsAt persist.acknowledged := by
      unfold contentsAt
      rw [List.take_append_of_le_length flight.inside]
    rw [same]
    exact atop _ flight.atop
  · simp only [grown.snapshot]
    exact flight.temp stage
  · simp only [grown.snapshot]
    exact flight.index stage
  · refine (flight.saved stage).trans ?_
    unfold contentsAt
    rw [List.take_append_of_le_length flight.inside]
  · rcases flight.phase with ⟨_,early,_⟩ | ⟨first,snapshot,behind⟩
    · rw [early.index] at index
      cases index
    · refine Or.inr ⟨first,snapshot,behind.logged.change grown,?_,behind.before,behind.after,behind.removed⟩
      have ahead := behind.ahead.change (max_le behind.logged.inside flight.inside) records
      unfold log
      simp only [grown.pending]
      exact ahead

theorem Sound.recorded (sound : Sound system) (index : system.engine.index.isSome = true) {state : IndexState}
    {records : List WalOp} (grown : Grown system.engine.state state records)
    (atop : ∀ old, Over system.engine.state old system.now → Over state old (records.foldl applied system.now)) :
    Sound {system with engine := {system.engine with state := state},ops := system.ops ++ records} := by
  refine ⟨?_,sound.written,sound.filed,sound.tasks,?_⟩
  · obtain ⟨old,before⟩ := sound.reads
    rw [now_append]
    exact (atop old before).reads
  · rcases sound.phase with ⟨alone,early | ⟨first,snapshot,logged⟩⟩ | ⟨persist,alone,flight⟩
    · rw [early.index] at index
      cases index
    · exact Or.inl ⟨alone,Or.inr ⟨first,snapshot,logged.change grown⟩⟩
    · exact Or.inr ⟨persist,alone,flight.recorded index grown atop⟩

theorem Sound.unrecorded (sound : Sound system) (index : system.engine.index = none) (alone : system.persists = [])
    {state : IndexState} {records : List WalOp} (pending : state.pendingWal = system.engine.state.pendingWal)
    (reads : Reads state (records.foldl applied system.now)) :
    Sound {system with engine := {system.engine with state := state},ops := system.ops ++ records} := by
  refine ⟨?_,sound.written,sound.filed,sound.tasks,Or.inl ⟨alone,?_⟩⟩
  · rw [now_append]
    exact reads
  · rcases sound.phase with ⟨_,early | ⟨first,snapshot,logged⟩⟩ | ⟨persist,other,_⟩
    · exact Or.inl ⟨early.index,early.wal,pending.trans early.pending,early.flushed,early.stale,early.base⟩
    · have some_ := logged.index
      rw [index] at some_
      cases some_
    · rw [alone] at other
      cases other

theorem Sound.addBatch (sound : Sound system) {analyzed : List (UInt64 × AnalyzedDocument)}
    (fits : fitsBatch system.engine analyzed = true)
    (calm : (system.engine.index.isSome || system.persists.isEmpty) = true) :
    Sound {system with
      engine := system.engine.applyAnalyzed analyzed
      ops := system.ops ++ analyzed.map fun entry => .upsert entry.1 entry.2} := by
  have records : ∀ contents : Contents, (analyzed.map fun entry => WalOp.upsert entry.1 entry.2).foldl applied
    contents = overlaid contents analyzed :=
    fun contents => List.foldl_map
  rw [system.engine.applyAnalyzed_files analyzed]
  by_cases index : system.engine.index.isSome = true
  · have builds : system.engine.builds = false := by
      unfold Engine.builds
      rw [Option.isNone_eq_false_iff.mpr index]
      rfl
    have fits : fitsAll true analyzed {system.engine.state with needsRebuild := false} = true := by
      simpa [fitsBatch,builds,index] using fits
    by_cases empty : analyzed = []
    · subst empty
      exact sound.recorded index (Grown.nothing system.engine.state) fun _ atop => atop
    · have upserted : (system.engine.applyAnalyzed analyzed).state =
        Engine.upsertAll true analyzed {system.engine.state with needsRebuild := false} := by
        simp [Engine.applyAnalyzed,empty,builds,index]
      rw [upserted]
      refine sound.recorded index ?_ fun old atop => ?_
      · have grown := Grown.foldl (fun state (entry : UInt64 × AnalyzedDocument) =>
          Grown.upsert state entry.1 entry.2 true) analyzed
          {system.engine.state with needsRebuild := false}
        exact ⟨grown.snapshot,grown.mapped,grown.pending⟩
      · rw [records]
        exact (atop.congr ⟨_,_,rfl⟩).upsertAll fits
  · have absent : system.engine.index.isSome = false := Bool.not_eq_true _ ▸ index
    rw [absent] at calm
    refine sound.unrecorded (Option.not_isSome_iff_eq_none.mp index) (List.isEmpty_iff.mp calm) ?_ ?_
    · unfold Engine.applyAnalyzed
      split
      · rfl
      · split
        · rfl
        · have grown := Grown.foldl (fun state (entry : UInt64 × AnalyzedDocument) =>
            Grown.upsert state entry.1 entry.2 false) analyzed
            {system.engine.state with needsRebuild := false}
          simp only [Engine.upsertAll,absent]
          exact grown.pending.trans (List.append_nil _)
    · rw [records]
      exact sound.reads.applyAnalyzed fits

theorem Sound.removeDocuments (sound : Sound system) (docIds : List UInt64)
    (calm : (system.engine.index.isSome || system.persists.isEmpty) = true) :
    Sound {system with engine := system.engine.removeDocuments docIds,ops := system.ops ++ docIds.map .delete} := by
  have records : ∀ contents : Contents, (docIds.map WalOp.delete).foldl applied contents =
      docIds.foldl (fun contents docId => Function.update contents docId none) contents :=
        fun contents => List.foldl_map
  have grown := Grown.foldl (fun state docId => Grown.delete state docId system.engine.index.isSome) docIds
    system.engine.state
  by_cases index : system.engine.index.isSome = true
  · refine sound.recorded index ?_ fun old atop => ?_
    · rw [index] at grown ⊢
      exact grown
    · rw [records]
      exact atop.deleteAll _ docIds
  · have absent : system.engine.index.isSome = false := Bool.not_eq_true _ ▸ index
    rw [absent] at calm grown
    refine sound.unrecorded (Option.not_isSome_iff_eq_none.mp index) (List.isEmpty_iff.mp calm) ?_ ?_
    · rw [absent]
      exact grown.pending.trans (List.append_nil _)
    · rw [records]
      exact sound.reads.deleteAll _ docIds

/-! Tasks. -/

theorem Sound.retask (sound : Sound system) {tasks : List Task}
    (seen : ∀ task ∈ tasks, task.logs = true → system.engine.index.isSome = true) :
    Sound {system with tasks := tasks} := by
  refine ⟨sound.reads,sound.written,sound.filed,seen,?_⟩
  have early : Unlogged system → Unlogged {system with tasks := tasks} := fun early =>
    ⟨early.index,early.wal,early.pending,early.flushed,early.stale,early.base⟩
  have late : ∀ {first snapshot}, Logged system first snapshot → Logged {system with tasks := tasks} first snapshot :=
    fun logged => ⟨logged.index,logged.kept⟩
  rcases sound.phase with ⟨alone,either | ⟨first,snapshot,logged⟩⟩ | ⟨persist,alone,flight⟩
  · exact Or.inl ⟨alone,Or.inl (early either)⟩
  · exact Or.inl ⟨alone,Or.inr ⟨first,snapshot,late logged⟩⟩
  · refine Or.inr ⟨persist,alone,flight.inside,flight.eager,flight.atop,flight.temp,flight.index,flight.saved,?_⟩
    rcases flight.phase with ⟨stage,unlogged,rest⟩ | ⟨first,snapshot,behind⟩
    · exact Or.inl ⟨stage,early unlogged,rest⟩
    · exact Or.inr ⟨first,snapshot,late behind.logged,behind.ahead,behind.before,behind.after,behind.removed⟩

theorem Sound.start (sound : Sound system) {task : Task} (seen : task.logs = true → system.engine.index.isSome = true) :
    Sound {system with tasks := system.tasks ++ [task]} := by
  refine sound.retask fun other member => ?_
  rcases List.mem_append.mp member with before | new
  · exact sound.tasks other before
  · rw [List.mem_singleton.mp new]
    exact seen

theorem Sound.change (sound : Sound system) {recordWal : Bool}
    (seen : recordWal = true → system.engine.index.isSome = true)
    (calm : (recordWal || (system.engine.index.isNone && system.persists.isEmpty)) = true) {state : IndexState}
    {op : WalOp} (grown : Grown system.engine.state state (if recordWal then [op] else []))
    (atop : ∀ old, Over system.engine.state old system.now → Over state old (applied system.now op)) :
    Sound {system with engine := {system.engine with state := state},ops := system.ops ++ [op]} := by
  cases recordWal with
  | true => exact sound.recorded (seen rfl) grown atop
  | false =>
    obtain ⟨index,alone⟩ := Bool.and_eq_true _ _ ▸ calm
    refine sound.unrecorded (Option.isNone_iff_eq_none.mp index) (List.isEmpty_iff.mp alone)
      (grown.pending.trans (List.append_nil _)) ?_
    obtain ⟨old,before⟩ := sound.reads
    exact (atop old before).reads

theorem Sound.append (sound : Sound system) (index : system.engine.index.isSome = true)
    (calm : ∀ persist ∈ system.persists, persist.stage = .logRemoved ∨ persist.acknowledged = system.ops.length) :
    Sound (system.perform .appending) := by
  have appended : ∀ {first snapshot}, Logged system first snapshot →
    Logged (system.perform .appending) system.ops.length system.ops.length := by
    intro first snapshot logged
    obtain ⟨old,kept⟩ := logged.kept
    exact ⟨index,[],kept.append⟩
  have state : ∀ {old}, Over system.engine.state old system.now →
    Over (system.perform .appending).engine.state old system.now :=
    fun atop => atop.congr ⟨_,_,rfl⟩
  refine ⟨?_,sound.written,sound.filed,sound.tasks,?_⟩
  · obtain ⟨old,atop⟩ := sound.reads
    exact (state atop).reads
  · rcases sound.phase with ⟨alone,early | ⟨first,snapshot,logged⟩⟩ | ⟨persist,alone,flight⟩
    · rw [early.index] at index
      cases index
    · refine Or.inl ⟨?_,Or.inr ⟨_,_,appended logged⟩⟩
      simp only [perform,alone,List.map_nil]
    · have before := calm persist (alone ▸ List.mem_singleton_self persist)
      refine Or.inr ⟨{persist with pending := 0},?_,flight.inside,flight.eager,state flight.atop,flight.temp,
        flight.index,flight.saved,?_⟩
      · simp only [perform,alone,List.map_cons,List.map_nil]
      · rcases flight.phase with ⟨_,early,_⟩ | ⟨first,snapshot,behind⟩
        · rw [early.index] at index
          cases index
        · refine Or.inr ⟨_,_,appended behind.logged,Journal.ahead_append _ _ system.log flight.inside,fun stage => ?_,
            fun _ => flight.inside,
            fun _ => Or.inr flight.inside⟩
          exact Nat.le_of_eq (before.resolve_left stage).symm

/-! Snapshots. -/

theorem Sound.merge (sound : Sound system) (alone : system.persists = []) : Sound system.merge := by
  have merged : Over system.merge.engine.state system.now system.now := sound.reads.merged.congr ⟨_,_,rfl⟩
  refine ⟨merged.reads,sound.written,sound.filed,sound.tasks,
    Or.inr ⟨⟨.merged,system.ops.length,system.engine.state.pendingWal.length⟩,?_,
    Nat.le_refl _,rfl,?_,nofun,nofun,nofun,?_⟩⟩
  · simp only [System.merge,alone,List.nil_append]
  · have same : system.merge.contentsAt system.ops.length = system.now := contentsAt_length system
    simp only [same]
    exact merged
  · rcases sound.phase with ⟨_,early | ⟨first,snapshot,logged⟩⟩ | ⟨persist,other,_⟩
    · refine Or.inl ⟨Or.inl rfl,⟨early.index,early.wal,early.pending,early.flushed,early.stale,early.base⟩,rfl,?_⟩
      simp only [early.pending,List.length_nil]
    · have kept := logged.kept
      refine Or.inr ⟨first,snapshot,⟨logged.index,kept⟩,?_,fun _ => logged.inside,nofun,nofun⟩
      obtain ⟨old,kept⟩ := kept
      exact kept.ahead
    · rw [alone] at other
      cases other

section
variable (sound : Sound system) (flight : InFlight system persist)
include sound flight

theorem Sound.write (stage : persist.stage = .merged) :
    Sound {system with temp := some system.engine.state.snapshot,persists := [{persist with stage := .written}]} := by
  refine ⟨sound.reads,sound.written,sound.filed,sound.tasks,Or.inr ⟨_,rfl,flight.inside,flight.eager,flight.atop,
    fun _ => rfl,nofun,nofun,?_⟩⟩
  rcases flight.phase with ⟨_,early,all,none_⟩ | ⟨first,snapshot,behind⟩
  · exact Or.inl ⟨Or.inr rfl,⟨early.index,early.wal,early.pending,early.flushed,early.stale,early.base⟩,all,none_⟩
  · refine Or.inr ⟨first,snapshot,⟨behind.logged.index,behind.logged.kept⟩,behind.ahead,fun _ => behind.before ?_,
      nofun,nofun⟩
    rw [stage]
    nofun

theorem Sound.replace (stage : persist.stage = .written) :
    Sound {system with
      engine := {system.engine with index := some system.engine.state.snapshot},temp := none,saved :=
        system.contentsAt persist.acknowledged
      persists := [{persist with stage := .replaced}]} := by
  refine ⟨sound.reads,⟨fun snapshot same => ?_,by rintro ⟨⟩⟩,fun snapshot same => ?_,fun _ _ _ => rfl,
    Or.inr ⟨_,rfl,flight.inside,flight.eager,flight.atop,by rintro ⟨⟩,fun _ => rfl,fun _ => rfl,Or.inr ?_⟩⟩
  · cases same
    exact flight.atop.holds flight.eager
  · cases same
    exact flight.atop.filed flight.eager
  · rcases flight.phase with ⟨_,early,all,none_⟩ | ⟨first,snapshot,behind⟩
    · refine ⟨system.ops.length,system.ops.length,⟨rfl,[],?_⟩,?_,fun _ => Nat.le_of_eq all.symm,fun _ =>
        Nat.le_of_eq all,by rintro ⟨⟩⟩
      · have kept := Journal.kept_snapshot WalOp.docId WalOp.version system.base system.ops (Nat.zero_le _)
        simp only [log,early.flushed,early.wal,early.pending,early.stale,all,contentsAt_eq]
        exact kept
      · refine ⟨[],?_,none_.symm,Journal.Ends.nil _ _ _⟩
        simp only [log,early.pending,all,max_self,List.drop_length,List.append_nil]
    · obtain ⟨old,kept⟩ := behind.logged.kept
      have since := behind.before (by rw [stage]; rintro ⟨⟩)
      refine ⟨first,persist.acknowledged,⟨rfl,old,?_⟩,behind.ahead,fun _ => since,fun _ => Nat.le_refl _,by rintro ⟨⟩⟩
      simp only [log,contentsAt_eq]
      exact kept.replace since flight.inside

theorem Sound.removeLog (stage : persist.stage = .replaced) :
    Sound {system with engine := {system.engine with wal := []},persists := [{persist with stage := .logRemoved}]} := by
  refine ⟨sound.reads,sound.written,sound.filed,sound.tasks,
    Or.inr ⟨_,rfl,flight.inside,flight.eager,flight.atop,nofun,fun _ => flight.index (Or.inl stage),nofun,Or.inr ?_⟩⟩
  obtain ⟨first,snapshot,behind⟩ := flight.behind (Or.inl stage)
  obtain ⟨old,kept⟩ := behind.logged.kept
  have since := behind.before (by rw [stage]; nofun)
  have same := (flight.saved stage).trans (contentsAt_eq system persist.acknowledged)
  exact ⟨first,persist.acknowledged,⟨behind.logged.index,old,kept.truncate since flight.inside same⟩,behind.ahead,
    fun other => absurd rfl other,
    fun _ => Nat.le_refl _,fun _ => Or.inl rfl⟩

theorem Sound.finish (stage : persist.stage = .logRemoved) :
    Sound {system.finish lazyLoad persist with persists := []} := by
  have index := flight.index (Or.inr stage)
  have atop : Over (system.finish lazyLoad persist).engine.state (system.contentsAt persist.acknowledged)
    system.now := by
    unfold System.finish
    rw [index]
    cases lazyLoad with
    | false => exact flight.atop
    | true => exact flight.atop.publish flight.eager
  have pending : (system.finish lazyLoad persist).engine.state.pendingWal = system.engine.state.pendingWal := by
    unfold System.finish
    rw [index]
    cases lazyLoad with
    | false => rfl
    | true => rfl
  refine ⟨atop.reads,sound.written,sound.filed,sound.tasks,Or.inl ⟨rfl,Or.inr ?_⟩⟩
  obtain ⟨first,snapshot,behind⟩ := flight.behind (Or.inr stage)
  obtain ⟨old,kept⟩ := behind.logged.kept
  obtain ⟨front,finished⟩ := kept.finish behind.ahead (behind.after (Or.inr stage)) (behind.removed stage)
  refine ⟨max first persist.acknowledged,snapshot,behind.logged.index,front,?_⟩
  unfold log
  simp only [pending]
  exact finished

end

theorem Sound.advance (sound : Sound system) {at_ : Nat} (found : system.persists[at_]? = some persist) :
    Sound (system.advance lazyLoad at_ persist) := by
  rcases sound.phase with ⟨none_,_⟩ | ⟨only,alone,flight⟩
  · rw [none_] at found
    cases found
  · rw [alone,List.getElem?_singleton] at found
    split at found
    · rename_i first
      subst first
      cases found
      cases stage : persist.stage with
      | merged =>
        have written := sound.write flight stage
        simp only [System.advance,stage,alone,List.set_cons_zero]
        exact written
      | written =>
        have replaced := sound.replace flight stage
        simp only [System.advance,stage,alone,flight.temp stage,List.set_cons_zero]
        exact replaced
      | replaced =>
        have removed := sound.removeLog flight stage
        simp only [System.advance,stage,alone,List.set_cons_zero]
        exact removed
      | logRemoved =>
        have finished : Sound {system.finish lazyLoad persist with persists := []} := sound.finish flight stage
        simp only [System.advance,stage,alone,List.eraseIdx_cons_zero]
        exact finished
    · cases found

/-! Crashes. -/

theorem Sound.unlogged_of_none (sound : Sound system) (index : system.engine.index = none) : Unlogged system := by
  have absurd_ : ∀ {first snapshot}, ¬ Logged system first snapshot := by
    intro first snapshot logged
    have some_ := logged.index
    rw [index] at some_
    cases some_
  rcases sound.phase with ⟨_,early | ⟨_,_,logged⟩⟩ | ⟨_,_,flight⟩
  · exact early
  · exact absurd logged absurd_
  · rcases flight.phase with ⟨_,early,_⟩ | ⟨_,_,behind⟩
    · exact early
    · exact absurd behind.logged absurd_

/-- The engine that a crash leaves to be opened, if all of its log can be read. -/
def openedAfter (lazyLoad : Bool) (system : System) (torn : Option Nat) : Engine :=
  {system.engine with wal := system.crashedWal torn}.reopen lazyLoad

theorem openedAfter_pending (lazyLoad : Bool) (system : System) (torn : Option Nat) :
    (openedAfter lazyLoad system torn).state.pendingWal = [] := by
  refine (pendingWal_replay _ _).trans ?_
  change (system.engine.loaded lazyLoad).pendingWal = []
  unfold Engine.loaded
  cases system.engine.index with
  | none => rfl
  | some snapshot => rfl

section
variable {torn : Option Nat} (sound : Sound system)
    (fits : fitsReplay (system.crashedWal torn) (system.engine.loaded lazyLoad) = true)
include sound fits

theorem Sound.reads_opened : Reads (openedAfter lazyLoad system torn).state
    ((system.crashedWal torn).foldl applied system.saved) :=
  (reads_loaded sound.written sound.filed lazyLoad).replay fits

theorem Sound.recover : Sound (system.recover (openedAfter lazyLoad system torn)) := by
  have pending := openedAfter_pending lazyLoad system torn
  refine ⟨sound.reads_opened fits,sound.written,sound.filed,nofun,Or.inl ⟨rfl,?_⟩⟩
  by_cases index : system.engine.index.isSome = true
  · refine Or.inr ⟨0,0,index,[],?_⟩
    have kept := Journal.kept_recovered WalOp.docId WalOp.version (system.crashedWal torn) system.saved
    rw [replay_eq] at kept
    simp only [log,System.recover,pending]
    exact kept
  · have early := sound.unlogged_of_none (Option.not_isSome_iff_eq_none.mp index)
    have empty := early.crashedWal torn
    refine Or.inl ⟨early.index,empty,pending,rfl,rfl,?_⟩
    change (system.crashedWal torn).foldl applied system.saved = system.saved
    rw [empty,List.foldl_nil]

end

/-! Sizes: whatever is kept can be read again. -/

def Short (contents : Contents) : Prop :=
  ∀ docId document, contents docId = some document → ∀ term ∈ document.terms, term.utf8ByteSize ≤ maxTermBytes

def Filled (snapshot : IndexState.Snapshot) : Prop :=
  ∀ term posting, snapshot.postings.lookup term = some posting → posting.docs.Compact ∧ posting.docs.isEmpty = false

structure Sized (recordBytes : WalOp → Nat) (system : System) : Prop where
  base : Short system.base
  saved : Short system.saved
  ops : ∀ op ∈ system.ops, op.sized recordBytes = true
  wal : ∀ op ∈ system.engine.wal, op.sized recordBytes = true
  pending : ∀ op ∈ system.engine.state.pendingWal, op.sized recordBytes = true
  state : Compacted system.engine.state
  index : ∀ snapshot, system.engine.index = some snapshot → Filled snapshot
  temp : ∀ snapshot, system.temp = some snapshot → Filled snapshot

theorem filled_snapshot {state : IndexState} (compacted : Compacted state) : Filled state.snapshot := by
  intro term posting found
  obtain ⟨there,kept⟩ := (lookup_retain _ _ _ _).mp found
  exact ⟨compacted.base term posting there,by simpa using kept⟩

theorem Short.foldl {contents : Contents} (short : Short contents) {ops : List WalOp}
    (sized : ∀ op ∈ ops, op.sized recordBytes = true) : Short (ops.foldl applied contents) := by
  induction ops generalizing contents with
  | nil => exact short
  | cons op rest ih =>
    obtain ⟨here,later⟩ := List.forall_mem_cons.mp sized
    refine ih (fun docId document found => ?_) later
    cases op with
    | upsert changed latest =>
      by_cases same : docId = changed
      · simp only [applied,same,Function.update_self,Option.some.injEq] at found
        subst found
        intro term member
        exact of_decide_eq_true (List.all_eq_true.mp (Bool.and_eq_true_iff.mp here).2 term member)
      · simp only [applied,Function.update_of_ne same] at found
        exact short docId document found
    | delete changed =>
      by_cases same : docId = changed
      · simp only [applied,same,Function.update_self] at found
        cases found
      · simp only [applied,Function.update_of_ne same] at found
        exact short docId document found

theorem readable_eq {wal : List WalOp} (sized : ∀ op ∈ wal, op.sized recordBytes = true) :
    readable recordBytes wal = wal := by
  rw [readable,List.takeWhile_eq_self_iff]
  exact fun op member => (Bool.and_eq_true_iff.mp (sized op member)).1

theorem applyAnalyzed_pending (engine : Engine) (analyzed : List (UInt64 × AnalyzedDocument)) {op : WalOp}
    (member : op ∈ (engine.applyAnalyzed analyzed).state.pendingWal) :
    op ∈ engine.state.pendingWal ∨ ∃ entry ∈ analyzed, op = .upsert entry.1 entry.2 := by
  unfold Engine.applyAnalyzed at member
  split at member
  · exact Or.inl member
  · split at member
    · exact Or.inl member
    · have grown := Grown.foldl (fun state (entry : UInt64 × AnalyzedDocument) =>
        Grown.upsert state entry.1 entry.2 engine.index.isSome) analyzed {engine.state with needsRebuild := false}
      change op ∈ (Engine.upsertAll engine.index.isSome analyzed _).pendingWal at member
      rw [Engine.upsertAll,grown.pending] at member
      rcases List.mem_append.mp member with old | new
      · exact Or.inl old
      · split at new
        · obtain ⟨entry,among,rfl⟩ := List.mem_map.mp new
          exact Or.inr ⟨entry,among,rfl⟩
        · cases new

namespace Sized

variable (sized : Sized recordBytes system)
include sized

theorem crashedWal (torn : Option Nat) : ∀ op ∈ system.crashedWal torn, op.sized recordBytes = true := by
  cases torn with
  | none => exact sized.wal
  | some count =>
    intro op member
    rcases List.mem_append.mp member with old | new
    · exact sized.wal op old
    · exact sized.pending op (List.mem_of_mem_take new)

theorem opens (written : Written system.engine.index system.saved) :
    system.engine.index.all IndexState.Snapshot.opens = true := by
  cases file : system.engine.index with
  | none => rfl
  | some snapshot =>
    refine List.all_eq_true.mpr fun term member => decide_eq_true ?_
    obtain ⟨posting,found⟩ := Option.isSome_iff_exists.mp (AList.lookup_isSome.mpr (AList.mem_keys.mpr member))
    obtain ⟨compact,some_⟩ := sized.index snapshot file term posting found
    obtain ⟨docId,there⟩ := compact.exists_mem some_
    have listed : docId ∈ IndexState.docsOf (snapshot.postings.lookup term) := found ▸ there
    obtain ⟨document,here,has⟩ := ((written.holds snapshot file).postings term docId).mp listed
    exact sized.saved docId document here term has

theorem reopened_eq (written : Written system.engine.index system.saved) (lazyLoad : Bool) (torn : Option Nat) :
    system.reopened recordBytes lazyLoad torn = some (openedAfter lazyLoad system torn) := by
  rw [reopened,if_pos (sized.opens written),readable_eq (sized.crashedWal torn)]
  rfl

/-- A change of one operation or several. -/
theorem change {engine : Engine} {records : List WalOp} (fits : ∀ op ∈ records, op.sized recordBytes = true)
    (index : engine.index = system.engine.index) (wal : engine.wal = system.engine.wal)
    (compacted : Compacted engine.state)
    (pending : ∀ op ∈ engine.state.pendingWal, op ∈ system.engine.state.pendingWal ∨ op ∈ records) :
    Sized recordBytes {system with engine := engine,ops := system.ops ++ records} := by
  refine ⟨sized.base,sized.saved,fun op member => ?_,?_,fun op member => ?_,compacted,?_,sized.temp⟩
  · exact (List.mem_append.mp member).elim (sized.ops op) (fits op)
  · rw [wal]
    exact sized.wal
  · exact (pending op member).elim (sized.pending op) (fits op)
  · rw [index]
    exact sized.index

theorem contentsAt (n : Nat) : Short (system.contentsAt n) :=
  sized.base.foldl fun op member => sized.ops op (List.mem_of_mem_take member)

theorem advance (persist : Persist) (at_ : Nat) : Sized recordBytes (system.advance lazyLoad at_ persist) := by
  unfold System.advance
  split
  · exact ⟨sized.base,sized.saved,sized.ops,sized.wal,sized.pending,sized.state,sized.index,
      fun snapshot same => Option.some.inj same ▸ filled_snapshot sized.state⟩
  · split
    · rename_i snapshot there
      exact ⟨sized.base,sized.contentsAt _,sized.ops,sized.wal,sized.pending,sized.state,
        fun other same => Option.some.inj same ▸ sized.temp snapshot there,nofun⟩
    · exact ⟨sized.base,sized.saved,sized.ops,sized.wal,sized.pending,sized.state,sized.index,sized.temp⟩
  · exact ⟨sized.base,sized.saved,sized.ops,List.forall_mem_nil _,sized.pending,sized.state,sized.index,sized.temp⟩
  · suffices kept : Compacted (system.finish lazyLoad persist).engine.state ∧
        (system.finish lazyLoad persist).engine.state.pendingWal = system.engine.state.pendingWal from
      ⟨sized.base,sized.saved,sized.ops,sized.wal,kept.2 ▸ sized.pending,kept.1,sized.index,sized.temp⟩
    unfold System.finish
    dsimp only
    split
    · rename_i snapshot file
      refine ⟨⟨allCompact_empty,fun postings mapped => ?_,sized.state.delta⟩,rfl⟩
      cases mapped
      exact fun term posting found => (sized.index snapshot file term posting found).1
    · exact ⟨sized.state,rfl⟩

theorem recover (torn : Option Nat) : Sized recordBytes (system.recover (openedAfter lazyLoad system torn)) := by
  have none_ : ∀ op ∈ (openedAfter lazyLoad system torn).state.pendingWal, op.sized recordBytes = true := by
    rw [openedAfter_pending lazyLoad system torn]
    exact List.forall_mem_nil _
  have loaded : Compacted (system.engine.loaded lazyLoad) := by
    unfold Engine.loaded
    cases file : system.engine.index with
    | none => exact compacted_default.congr ⟨_,_,rfl⟩
    | some snapshot =>
      exact compacted_load (fun term posting found => (sized.index snapshot file term posting found).1) lazyLoad
  exact ⟨sized.saved.foldl (sized.crashedWal torn),sized.saved,List.forall_mem_nil _,sized.crashedWal torn,none_,
    loaded.replay _,sized.index,nofun⟩

end Sized

theorem Sized.step (sized : Sized recordBytes system) (written : Written system.engine.index system.saved)
    {action : Action} {next : System} (fits : system.fits recordBytes lazyLoad action = true)
    (stepped : exec recordBytes lazyLoad system action = some ((),next)) :
    Sized recordBytes next := by
  have same (tasks : List Task) : Sized recordBytes {system with tasks := tasks} :=
    ⟨sized.base,sized.saved,sized.ops,sized.wal,sized.pending,sized.state,sized.index,sized.temp⟩
  cases action with
  | startAdd docId document => cases stepped; exact same _
  | startRemove docId => cases stepped; exact same _
  | addBatch analyzed =>
    cases stepped
    have records := List.all_eq_true.mp (Bool.and_eq_true_iff.mp fits).2
    have files := system.engine.applyAnalyzed_files analyzed
    refine sized.change (fun op member => ?_) (by rw [files]) (by rw [files]) (sized.state.applyAnalyzed analyzed)
      fun op member => ?_
    · obtain ⟨entry,among,rfl⟩ := List.mem_map.mp member
      exact records entry among
    · exact (applyAnalyzed_pending _ _ member).imp_right fun ⟨entry,among,same⟩ =>
        List.mem_map.mpr ⟨entry,among,same.symm⟩
  | removeDocuments docIds =>
    cases stepped
    have grown := Grown.foldl (fun state docId => Grown.delete state docId system.engine.index.isSome) docIds
      system.engine.state
    have deleted : Compacted (system.engine.removeDocuments docIds).state :=
      foldl_keeps Compacted (fun _ docId before => before.delete docId _) docIds sized.state
    refine sized.change (fun op member => ?_) rfl rfl deleted fun op member => ?_
    · obtain ⟨docId,among,rfl⟩ := List.mem_map.mp member
      exact List.all_eq_true.mp fits docId among
    · rw [Engine.removeDocuments,grown.pending] at member
      refine (List.mem_append.mp member).imp_right fun new => ?_
      split at new
      · exact new
      · cases new
  | startFlush => cases stepped; exact same _
  | startCompact => cases stepped; exact same _
  | perform task =>
    obtain ⟨task_,found,rest⟩ := Option.map_eq_some_iff.mp stepped
    cases rest
    have performed : Sized recordBytes (system.perform task_) := by
      simp only [System.fits,found] at fits
      have one {state : IndexState} {op : WalOp} {recordWal : Bool} (fits : op.sized recordBytes = true)
          (grown : Grown system.engine.state state (if recordWal then [op] else [])) (compacted : Compacted state) :
          Sized recordBytes {system with engine := {system.engine with state := state},ops := system.ops ++ [op]} := by
        refine sized.change (fun other member => List.mem_singleton.mp member ▸ fits) rfl rfl compacted fun other
          member => ?_
        rw [grown.pending] at member
        refine (List.mem_append.mp member).imp_right fun new => ?_
        split at new
        · exact new
        · cases new
      cases task_ with
      | adding docId document recordWal =>
        exact one (Bool.and_eq_true_iff.mp fits).2 (Grown.upsert _ docId document recordWal)
          (sized.state.upsert docId document recordWal)
      | removing docId recordWal => exact one fits (Grown.delete _ docId recordWal) (sized.state.delete docId recordWal)
      | appending =>
        refine ⟨sized.base,sized.saved,sized.ops,fun op member => ?_,List.forall_mem_nil _,sized.state.congr ⟨_,_,rfl⟩,
          sized.index,sized.temp⟩
        exact (List.mem_append.mp member).elim (sized.wal op) (sized.pending op)
      | persisting =>
        exact ⟨sized.base,sized.saved,sized.ops,sized.wal,sized.pending,sized.state.merge.congr ⟨_,_,rfl⟩,sized.index,
          sized.temp⟩
    exact ⟨performed.base,performed.saved,performed.ops,performed.wal,performed.pending,performed.state,performed.index,
      performed.temp⟩
  | advance at_ =>
    obtain ⟨persist,found,rest⟩ := Option.map_eq_some_iff.mp stepped
    cases rest
    exact sized.advance persist at_
  | crash torn =>
    simp only [exec,sized.reopened_eq written] at stepped
    split at stepped
    · cases stepped
    · cases stepped
      exact sized.recover torn

theorem Sound.step (sound : Sound system) (sized : Sized recordBytes system) {action : Action} {next : System}
    (permitted : allowed recordBytes lazyLoad system action = true)
    (stepped : exec recordBytes lazyLoad system action = some ((),next)) : Sound next := by
  obtain ⟨fits,calm⟩ := Bool.and_eq_true _ _ ▸ permitted
  cases action with
  | startAdd docId document =>
    cases stepped
    exact sound.start id
  | startRemove docId =>
    cases stepped
    exact sound.start id
  | addBatch analyzed =>
    cases stepped
    exact sound.addBatch (Bool.and_eq_true_iff.mp fits).1 calm
  | removeDocuments docIds =>
    cases stepped
    exact sound.removeDocuments docIds calm
  | startFlush =>
    cases stepped
    refine sound.start fun logs => ?_
    split at logs
    · cases logs
    · rename_i appends
      have appends := (Bool.or_eq_false_iff.mp (Bool.not_eq_true _ ▸ appends)).1
      exact Option.isNone_eq_false_iff.mp appends
  | startCompact =>
    cases stepped
    exact sound.start nofun
  | perform task =>
    obtain ⟨next_,found,same⟩ := Option.map_eq_some_iff.mp stepped
    cases same
    have seen := sound.tasks next_ (List.mem_of_getElem? found)
    have performed : Sound (system.perform next_) := by
      simp only [System.calm,found] at calm
      simp only [System.fits,found] at fits
      cases next_ with
      | adding docId document recordWal =>
        exact sound.change seen calm (Grown.upsert _ docId document recordWal) fun old atop =>
          atop.upsert (Bool.and_eq_true_iff.mp fits).1 recordWal
      | removing docId recordWal =>
        exact sound.change seen calm (Grown.delete _ docId recordWal) fun old atop => atop.delete docId recordWal
      | appending =>
        exact sound.append (seen rfl) fun persist member => of_decide_eq_true (List.all_eq_true.mp calm persist member)
      | persisting => exact sound.merge (List.isEmpty_iff.mp calm)
    refine performed.retask fun other member logs => ?_
    have before := sound.tasks other (List.mem_of_mem_eraseIdx member) logs
    cases next_ with
    | adding docId document recordWal => exact before
    | removing docId recordWal => exact before
    | appending => exact before
    | persisting => exact before
  | advance at_ =>
    obtain ⟨persist,found,same⟩ := Option.map_eq_some_iff.mp stepped
    cases same
    exact sound.advance found
  | crash torn =>
    simp only [exec,sized.reopened_eq sound.written] at stepped
    simp only [System.fits,readable_eq (sized.crashedWal torn)] at fits
    split at stepped
    · cases stepped
    · cases stepped
      exact sound.recover fits

theorem sound_fresh : Sound fresh := by
  refine ⟨reads_default.congr ⟨_,_,rfl⟩,⟨nofun,fun _ => rfl⟩,nofun,nofun,Or.inl ⟨rfl,Or.inl ?_⟩⟩
  exact ⟨rfl,rfl,rfl,rfl,rfl,rfl⟩

theorem sized_fresh : Sized recordBytes fresh :=
  ⟨nofun,nofun,List.forall_mem_nil _,List.forall_mem_nil _,List.forall_mem_nil _,compacted_default.congr ⟨_,_,rfl⟩,
    nofun,nofun⟩

theorem sound_run {trace : List Unit} {final : System}
    (run : Run (exec recordBytes lazyLoad) (allowed recordBytes lazyLoad) fresh trace final) :
    Sound final ∧ Sized recordBytes final := by
  refine run.invariant (P := fun _ system => Sound system ∧ Sized recordBytes system) ⟨sound_fresh,sized_fresh⟩ ?_
  intro trace system action event next _ held permitted stepped
  exact ⟨held.1.step held.2 permitted stepped,held.2.step held.1.written (Bool.and_eq_true_iff.mp permitted).1 stepped⟩

end Steps

end System

/-- What is flushed survives every crash of a run in which changes are recorded, or precede the
first snapshot; the log is not written beside an older snapshot that will remove it; no two
snapshots are on their way at once; no crash inside an append leaves out the records that are
older than the index file; and no record and no term is too long to be read again. -/
theorem flushed_survives (recordBytes : WalOp → Nat) (lazyLoad : Bool) {trace : List Unit} {final : System}
    (run : Run (System.exec recordBytes lazyLoad) (System.allowed recordBytes lazyLoad) .fresh trace final)
    (torn : Option Nat)
    (permitted : System.allowed recordBytes lazyLoad final (.crash torn) = true) :
    Survives recordBytes lazyLoad final torn := by
  obtain ⟨sound,sized⟩ := System.sound_run run
  obtain ⟨fits,calm⟩ := Bool.and_eq_true _ _ ▸ permitted
  simp only [System.fits,System.readable_eq (sized.crashedWal torn)] at fits
  have reads := sound.reads_opened fits
  have past : ∀ count, torn = some count → final.stale ≤ count := by
    rintro count rfl
    exact of_decide_eq_true calm
  exact ⟨_,_,sized.reopened_eq sound.written lazyLoad torn,reads.shows_.exact,reads.identified,sound.recovers past⟩

/-- Fixed widths, and a length of eight bytes in front of every list and text. -/
def bincodeBytes : WalOp → Nat
  | .upsert _ document => 4 + 8 + (8 + (document.terms.map fun term => 8 + term.utf8ByteSize).sum) +
    (8 + 4 * document.tokens.length)
  | .delete _ => 4 + 8

theorem flushed_survives_compaction : ∃ trace final, Run (System.exec bincodeBytes true)
    (System.allowed bincodeBytes true) .fresh trace final ∧ Survives bincodeBytes true final (some 1) ∧
    .appending ∈ final.tasks ∧ final.flushed = 1 ∧ final.ops.length = 2 := by
  have played : (play (System.exec bincodeBytes true) (System.allowed bincodeBytes true) .fresh
      [.startAdd 7 twoTerms,.perform 0,.startFlush,.perform 0,.advance 0,.advance 0,.advance 0,.advance 0,
        .startCompact,.perform 0,.advance 0,.startAdd 8 oneTerm,.perform 0,.advance 0,.advance 0,.advance 0,
        .startFlush]).any
        (fun result => decide (System.allowed bincodeBytes true result.2 (.crash (some 1)) = true ∧
          .appending ∈ result.2.tasks ∧ result.2.flushed = 1 ∧
          result.2.ops.length = 2)) = true := by decide +kernel
  obtain ⟨⟨trace,final⟩,same,holds⟩ := (Option.any_eq_true _ _).mp played
  obtain ⟨permitted,rest⟩ := of_decide_eq_true holds
  have run := Run.of_play same
  exact ⟨trace,final,run,flushed_survives bincodeBytes true run (some 1) permitted,rest⟩

theorem Survives.now {recordBytes : WalOp → Nat} {lazyLoad : Bool} {system : System} {torn : Option Nat}
    (survives : Survives recordBytes lazyLoad system torn) (all : system.flushed = system.ops.length) :
    ∃ engine, system.reopened recordBytes lazyLoad torn = some engine ∧ Exact engine.state system.now := by
  obtain ⟨engine,contents,opened,exact_,_,versions⟩ := survives
  have same : contents = system.now := by
    funext docId
    obtain ⟨n,late,inside,same⟩ := versions docId
    have last : n = system.ops.length := by omega
    rw [same,last,System.contentsAt_length]
  exact ⟨engine,opened,same ▸ exact_⟩

theorem not_survives {recordBytes : WalOp → Nat} {lazyLoad : Bool} {system : System} {torn : Option Nat}
    {docId : UInt64} (all : system.flushed = system.ops.length) (there : (system.now docId).isSome)
    (hidden : (system.reopened recordBytes lazyLoad torn).all fun engine => decide (docId ∉ engine.state.liveDocs)) :
    ¬ Survives recordBytes lazyLoad system torn := by
  intro survives
  obtain ⟨engine,opened,exact_⟩ := survives.now all
  rw [opened] at hidden
  exact of_decide_eq_true hidden ((exact_.liveDocs docId).mpr (Option.isSome_iff_ne_none.mp there))

/-- A document added beside a compaction and flushed to the log, which the compaction then
removes; one added after a look at the index file from before its first snapshot; and an older
version, which a crash inside the append after a compaction brings back. -/
theorem flushed_lost :
    (∃ trace final, Run (System.exec bincodeBytes false) (fun _ _ => true) .fresh trace final ∧
      ¬ Survives bincodeBytes false final none ∧
      final.flushed = final.ops.length ∧ (final.now 8).isSome ∧
      (final.reopened bincodeBytes false none).all fun engine => decide (8 ∉ engine.state.liveDocs)) ∧
    (∃ trace final, Run (System.exec bincodeBytes false) (fun _ _ => true) .fresh trace final ∧
      ¬ Survives bincodeBytes false final none ∧
      final.flushed = final.ops.length ∧ (final.now 8).isSome ∧
      (final.reopened bincodeBytes false none).all fun engine => decide (8 ∉ engine.state.liveDocs)) ∧
    ∃ trace final, Run (System.exec bincodeBytes false) (fun _ _ => true) .fresh trace final ∧
    ¬ Survives bincodeBytes false final (some 1) ∧
      .appending ∈ final.tasks ∧ final.flushed = final.ops.length ∧ (final.now 7).map (·.terms) = some ["c"] ∧
      (final.reopened bincodeBytes false (some 1)).all fun engine => decide (7 ∈ engine.state.posting "a") := by
  refine ⟨?_,?_,?_⟩
  · have played : (play (System.exec bincodeBytes false) (fun _ _ => true) .fresh
        [.startAdd 7 twoTerms,.perform 0,.startFlush,.perform 0,.advance 0,.advance 0,.advance 0,.advance 0,
          .startCompact,.perform 0,.startAdd 8 oneTerm,.perform 0,.startFlush,.perform 0,.advance 0,.advance 0,
          .advance 0,.advance 0]).any
          (fun result => decide (result.2.flushed = result.2.ops.length ∧ (result.2.now 8).isSome ∧
            (result.2.reopened bincodeBytes false none).all fun engine => decide (8 ∉ engine.state.liveDocs))) =
              true := by decide +kernel
    obtain ⟨⟨trace,final⟩,same,holds⟩ := (Option.any_eq_true _ _).mp played
    obtain ⟨all,there,hidden⟩ := of_decide_eq_true holds
    exact ⟨trace,final,Run.of_play same,not_survives all there hidden,all,there,hidden⟩
  · have played : (play (System.exec bincodeBytes false) (fun _ _ => true) .fresh
        [.startAdd 7 twoTerms,.perform 0,.startAdd 8 oneTerm,.startFlush,.perform 1,.advance 0,.advance 0,.advance 0,
          .advance 0,
          .perform 0,.startFlush,.perform 0]).any
          (fun result => decide (result.2.flushed = result.2.ops.length ∧ (result.2.now 8).isSome ∧
            (result.2.reopened bincodeBytes false none).all fun engine => decide (8 ∉ engine.state.liveDocs))) =
              true := by decide +kernel
    obtain ⟨⟨trace,final⟩,same,holds⟩ := (Option.any_eq_true _ _).mp played
    obtain ⟨all,there,hidden⟩ := of_decide_eq_true holds
    exact ⟨trace,final,Run.of_play same,not_survives all there hidden,all,there,hidden⟩
  · have played : (play (System.exec bincodeBytes false) (fun _ _ => true) .fresh
        [.startAdd 7 oneTerm,.perform 0,.startFlush,.perform 0,.advance 0,.advance 0,.advance 0,.advance 0,
          .startAdd 7 twoTerms,.perform 0,.startAdd 7 oneTerm,.perform 0,.startCompact,.perform 0,.advance 0,.advance 0,
          .advance 0,.advance 0,
          .startFlush]).any
          (fun result => decide (.appending ∈ result.2.tasks ∧ result.2.flushed = result.2.ops.length ∧
            (result.2.now 7).map (·.terms) = some ["c"] ∧
            (result.2.reopened bincodeBytes false (some 1)).all fun engine => decide (7 ∈ engine.state.posting "a"))) =
              true := by decide +kernel
    obtain ⟨⟨trace,final⟩,same,holds⟩ := (Option.any_eq_true _ _).mp played
    obtain ⟨appends,all,terms,posted⟩ := of_decide_eq_true holds
    refine ⟨trace,final,Run.of_play same,fun survives => ?_,appends,all,terms,posted⟩
    obtain ⟨engine,opened,exact_⟩ := survives.now all
    rw [opened] at posted
    obtain ⟨document,here,has⟩ := (exact_.posting "a" 7).mp (of_decide_eq_true posted)
    simp only [here,Option.map_some,Option.some.injEq] at terms
    rw [terms] at has
    exact absurd has (by decide)

end ApexBase.Fts
