import ApexBase.Fts.Answers

/-! Runs of one engine: batches, single changes, merges, flushes and openings in any order. -/
namespace ApexBase.Fts
open Library Library.Assoc

structure Session where
  engine : Engine
  contents : Contents
  saved : Contents

inductive Action
  | addBatch (analyzed : List (UInt64 × AnalyzedDocument))
  | addDocument (docId : UInt64) (document : AnalyzedDocument)
  | removeDocuments (docIds : List UInt64)
  | mergeDelta
  | flush
  | compact
  | reopen

namespace Session

def fresh : Session := ⟨.fresh,fun _ => none,fun _ => none⟩

/-- One call. The postings are read lazily from the index file, or they are not. -/
def exec (lazyLoad : Bool) (session : Session) : Action → Option (Unit × Session)
  | .addBatch analyzed =>
    some ((),{session with
      engine := session.engine.applyAnalyzed analyzed,contents := overlaid session.contents analyzed})
  | .addDocument docId document =>
    some ((),{session with
      engine := session.engine.addDocument docId document,contents :=
        Function.update session.contents docId (some document)})
  | .removeDocuments docIds =>
    some ((),{session with
      engine := session.engine.removeDocuments docIds
      contents := docIds.foldl (fun contents docId => Function.update contents docId none) session.contents})
  | .mergeDelta => some ((),{session with engine := {session.engine with state := session.engine.state.mergeDelta}})
  | .flush =>
    some ((),{session with
      engine := session.engine.flush lazyLoad
      saved := if session.engine.snapshots then session.contents else session.saved})
  | .compact => some ((),{session with engine := session.engine.persistSnapshot lazyLoad,saved := session.contents})
  | .reopen =>
    some ((),{session with
      engine := session.engine.reopen lazyLoad,contents := session.engine.wal.foldl applied session.saved})

def allowed (session : Session) : Action → Bool
  | .addBatch analyzed => !session.engine.builds || buildable session.engine.state analyzed
  | _ => true

structure Written (index : Option IndexState.Snapshot) (saved : Contents) : Prop where
  holds : ∀ snapshot, index = some snapshot →
    Holds snapshot.docs (fun term => IndexState.docsOf (snapshot.postings.lookup term)) saved
  absent : index = none → saved = fun _ => none

structure Sound (session : Session) : Prop where
  shows_ : Shows session.engine.state session.contents
  written : Written session.engine.index session.saved

structure Packed (session : Session) : Prop where
  state : Compacted session.engine.state
  file : ∀ snapshot, session.engine.index = some snapshot → AllCompact snapshot.postings

end Session

section Files
variable {engine : Engine} {contents saved : Contents} {lazyLoad : Bool}

theorem compacted_default : Compacted IndexState.default :=
  ⟨allCompact_empty,nofun,allCompact_empty⟩

theorem Compacted.congr {state other : IndexState} (compacted : Compacted state)
    (same : ∃ pending rebuild, other = {state with pendingWal := pending,needsRebuild := rebuild}) :
    Compacted other := by
  obtain ⟨pending,rebuild,rfl⟩ := same
  exact ⟨compacted.base,compacted.mapped,compacted.delta⟩

theorem Compacted.upsertAll {state : IndexState} (compacted : Compacted state) (recordWal : Bool)
    (analyzed : List (UInt64 × AnalyzedDocument)) : Compacted (Engine.upsertAll recordWal analyzed state) :=
  foldl_keeps Compacted (fun _ entry before => before.upsert entry.1 entry.2 recordWal) analyzed compacted

theorem Compacted.applyAnalyzed (compacted : Compacted engine.state) (analyzed : List (UInt64 × AnalyzedDocument)) :
    Compacted (engine.applyAnalyzed analyzed).state := by
  unfold Engine.applyAnalyzed
  split
  · exact compacted
  · split
    · exact compacted.buildBase analyzed
    · exact Compacted.upsertAll (compacted.congr ⟨_,_,rfl⟩) _ analyzed

theorem Compacted.replay {state : IndexState} (compacted : Compacted state) (wal : List WalOp) :
    Compacted (wal.foldl .replay state) := by
  refine foldl_keeps Compacted (fun state op before => ?_) wal compacted
  cases op with
  | upsert docId document => exact before.upsert docId document false
  | delete docId => exact before.delete docId false

theorem shows_default : Shows IndexState.default fun _ => none :=
  ⟨_,_,IndexState.tracks_default,by funext docId; exact ite_self _⟩

theorem Shows.snapshot {state : IndexState} (shows_ : Shows state contents) :
    Holds state.mergeDelta.snapshot.docs (fun term =>
      IndexState.docsOf (state.mergeDelta.snapshot.postings.lookup term)) contents := by
  obtain ⟨old,new,tracks,rfl⟩ := shows_
  have merged := tracks.merge
  refine ⟨merged.base.docs,fun term docId => ?_⟩
  have postings := merged.base.postings term docId
  have eager : state.mergeDelta.mmapPostings = none := rfl
  simp only [IndexState.basePosting_eager eager] at postings
  simp only [IndexState.snapshot,IndexState.docsOf_retain]
  exact postings

theorem tracks_over {snapshot : IndexState.Snapshot} {state : IndexState}
    (holds : Holds snapshot.docs (fun term => IndexState.docsOf (snapshot.postings.lookup term)) contents)
    (docs : state.baseDocs = snapshot.docs) (base : ∀ term, state.basePosting term = snapshot.postings.lookup term)
    (lazily : state.mmapPostings = none ∨ state.basePostings = ∅)
    (empty : state.deltaDocs = ∅ ∧ state.deltaPostings = ∅ ∧
      state.shadowedDocs = ∅ ∧ state.deletedDocs = ∅) :
    IndexState.Tracks state contents (fun _ => none) ∧ state.shown contents (fun _ => none) = contents := by
  obtain ⟨deltaDocs,deltaPostings,shadowed,deleted⟩ := empty
  refine ⟨⟨?_,⟨fun docId => ?_,fun term docId => ?_⟩,?_,?_,lazily⟩,?_⟩
  · simp only [docs,base]
    exact holds
  · simp [deltaDocs]
  · simp [deltaPostings,IndexState.docsOf]
  · rw [shadowed,deltaDocs,deleted,Finset.empty_union]
  · rw [deltaDocs]
    exact Finset.disjoint_empty_left _
  · funext docId
    unfold IndexState.shown
    rw [shadowed]
    exact if_neg (Finset.notMem_empty docId)

theorem basePosting_mapped {state : IndexState} {postings : Postings} (mapped : state.mmapPostings = some postings)
    (none_ : state.basePostings = ∅) (term : String) : state.basePosting term = postings.lookup term := by
  unfold IndexState.basePosting
  rw [none_,AList.lookup_empty,mapped]
  rfl

theorem basePosting_load (snapshot : IndexState.Snapshot) (lazyLoad : Bool) (term : String) :
    (IndexState.loadSnapshot snapshot lazyLoad).basePosting term = snapshot.postings.lookup term := by
  cases lazyLoad with
  | false => exact IndexState.basePosting_eager rfl term
  | true => exact basePosting_mapped rfl rfl term

section
variable {snapshot : IndexState.Snapshot}
variable (holds : Holds snapshot.docs (fun term => IndexState.docsOf (snapshot.postings.lookup term)) contents)
    (lazyLoad : Bool)
include holds

theorem tracks_load :
    IndexState.Tracks (.loadSnapshot snapshot lazyLoad) contents (fun _ => none) ∧
      (IndexState.loadSnapshot snapshot lazyLoad).shown contents (fun _ => none) = contents := by
  refine tracks_over holds rfl (basePosting_load snapshot lazyLoad) ?_ ⟨rfl,rfl,rfl,rfl⟩
  cases lazyLoad with
  | false => exact Or.inl rfl
  | true => exact Or.inr rfl

theorem shows_load :
    Shows (.loadSnapshot snapshot lazyLoad) contents := ⟨_,_,tracks_load holds lazyLoad⟩

end

theorem compacted_load {snapshot : IndexState.Snapshot} (compact : AllCompact snapshot.postings) (lazyLoad : Bool) :
    Compacted (.loadSnapshot snapshot lazyLoad) := by
  cases lazyLoad with
  | false => exact ⟨compact,nofun,allCompact_empty⟩
  | true =>
    refine ⟨allCompact_empty,fun postings mapped => ?_,allCompact_empty⟩
    cases mapped
    exact compact

theorem Shows.tracks_publish {state : IndexState} (shows_ : Shows state contents) :
    IndexState.Tracks (state.mergeDelta.publish state.mergeDelta.snapshot) contents (fun _ => none) ∧
      (state.mergeDelta.publish state.mergeDelta.snapshot).shown contents (fun _ => none) = contents := by
  refine tracks_over shows_.snapshot ?_ (basePosting_mapped rfl rfl) (Or.inr rfl) ⟨rfl,rfl,rfl,rfl⟩
  rfl

theorem Shows.publish {state : IndexState} (shows_ : Shows state contents) :
    Shows (state.mergeDelta.publish state.mergeDelta.snapshot) contents := ⟨_,_,shows_.tracks_publish⟩

theorem Compacted.snapshot {state : IndexState} (compacted : Compacted state) :
    AllCompact state.snapshot.postings := compacted.base.retain _

theorem Compacted.publish {state : IndexState} (compacted : Compacted state) :
    Compacted (state.publish state.snapshot) := by
  refine ⟨allCompact_empty,fun postings mapped => ?_,compacted.delta⟩
  cases mapped
  exact compacted.snapshot

namespace Session
variable {session : Session}

theorem sound_fresh : Sound fresh := ⟨shows_default.congr ⟨_,_,_,_,_,rfl⟩,nofun,fun _ => rfl⟩

section
variable (sound : Sound session)
include sound

theorem Sound.persist (lazyLoad : Bool) :
    Sound {session with engine := session.engine.persistSnapshot lazyLoad,saved := session.contents} := by
  refine ⟨?_,fun snapshot same => ?_,nofun⟩
  · cases lazyLoad with
    | false => exact sound.shows_.merge.congr ⟨_,_,_,_,_,rfl⟩
    | true => exact sound.shows_.publish.congr ⟨_,_,_,_,_,rfl⟩
  · cases same
    exact sound.shows_.snapshot

theorem Sound.flush (lazyLoad : Bool) :
    Sound {session with
      engine := session.engine.flush lazyLoad
      saved := if session.engine.snapshots then session.contents else session.saved} := by
  unfold Engine.flush
  split
  · exact sound.persist lazyLoad
  · exact ⟨sound.shows_.congr ⟨_,_,_,_,_,rfl⟩,sound.written⟩

theorem Sound.loaded (lazyLoad : Bool) : Shows (session.engine.loaded lazyLoad) session.saved := by
  unfold Engine.loaded
  cases file : session.engine.index with
  | none =>
    rw [sound.written.absent file]
    exact shows_default.congr ⟨_,_,_,_,_,rfl⟩
  | some snapshot => exact shows_load (sound.written.holds snapshot file) lazyLoad

theorem Sound.addBatch {analyzed : List (UInt64 × AnalyzedDocument)}
    (permitted : allowed session (.addBatch analyzed) = true) :
    Sound {session with
      engine := session.engine.applyAnalyzed analyzed,contents := overlaid session.contents analyzed} := by
  unfold Engine.applyAnalyzed
  split
  · rename_i empty
    rw [List.isEmpty_iff.mp empty]
    exact sound
  · split
    · rename_i builds
      have can : session.engine.state.canBuildBase = true := (Bool.and_eq_true _ _ ▸ builds).2
      have fits : buildable session.engine.state analyzed = true := by simpa [allowed,builds] using permitted
      exact ⟨sound.shows_.build can fits,sound.written⟩
    · refine ⟨Shows.upsertAll ?_ _ analyzed,sound.written⟩
      exact sound.shows_.congr ⟨_,_,_,_,_,rfl⟩

theorem Sound.step {lazyLoad : Bool} {action : Action} {next : Session} (permitted : allowed session action = true)
    (stepped : exec lazyLoad session action = some ((),next)) : Sound next := by
  cases action with
  | addBatch analyzed =>
    cases stepped
    exact sound.addBatch permitted
  | addDocument docId document =>
    cases stepped
    exact ⟨sound.shows_.upsert docId document _,sound.written⟩
  | removeDocuments docIds =>
    cases stepped
    exact ⟨sound.shows_.deleteAll _ docIds,sound.written⟩
  | mergeDelta =>
    cases stepped
    exact ⟨sound.shows_.merge,sound.written⟩
  | flush =>
    cases stepped
    exact sound.flush lazyLoad
  | compact =>
    cases stepped
    exact sound.persist lazyLoad
  | reopen =>
    cases stepped
    exact ⟨(sound.loaded lazyLoad).replay _,sound.written⟩

end

theorem sound_run {lazyLoad : Bool} {trace : List Unit} {final : Session}
    (run : Run (exec lazyLoad) allowed fresh trace final) : Sound final := by
  refine run.invariant (P := fun _ session => Sound session) sound_fresh ?_
  intro trace session action event next _ sound permitted stepped
  exact sound.step permitted stepped

theorem packed_fresh : Packed fresh := ⟨compacted_default.congr ⟨_,_,rfl⟩,nofun⟩

theorem Packed.persist (packed : Packed session) (lazyLoad : Bool) (saved : Contents) :
    Packed {session with engine := session.engine.persistSnapshot lazyLoad,saved := saved} := by
  refine ⟨?_,fun snapshot same => ?_⟩
  · cases lazyLoad with
    | false => exact packed.state.merge.congr ⟨_,_,rfl⟩
    | true => exact packed.state.merge.publish.congr ⟨_,_,rfl⟩
  · cases same
    exact packed.state.merge.snapshot

theorem Packed.loaded (packed : Packed session) (lazyLoad : Bool) : Compacted (session.engine.loaded lazyLoad) := by
  unfold Engine.loaded
  cases file : session.engine.index with
  | none => exact compacted_default.congr ⟨_,_,rfl⟩
  | some snapshot => exact compacted_load (packed.file snapshot file) lazyLoad

theorem Packed.step (packed : Packed session) {lazyLoad : Bool} {action : Action} {next : Session}
    (stepped : exec lazyLoad session action = some ((),next)) : Packed next := by
  cases action with
  | addBatch analyzed =>
    cases stepped
    refine ⟨?_,fun snapshot => ?_⟩
    · exact packed.state.applyAnalyzed analyzed
    · simp only [Engine.applyAnalyzed]
      split
      · exact packed.file snapshot
      · split
        · exact packed.file snapshot
        · exact packed.file snapshot
  | addDocument docId document =>
    cases stepped
    exact ⟨packed.state.upsert docId document _,packed.file⟩
  | removeDocuments docIds =>
    cases stepped
    exact ⟨foldl_keeps Compacted (fun _ docId before => before.delete docId _) docIds packed.state,packed.file⟩
  | mergeDelta =>
    cases stepped
    exact ⟨packed.state.merge,packed.file⟩
  | flush =>
    cases stepped
    unfold Engine.flush
    split
    · exact packed.persist lazyLoad _
    · exact ⟨packed.state.congr ⟨_,_,rfl⟩,packed.file⟩
  | compact =>
    cases stepped
    exact packed.persist lazyLoad _
  | reopen =>
    cases stepped
    exact ⟨(packed.loaded lazyLoad).replay _,packed.file⟩

theorem packed_run {lazyLoad : Bool} {guard : Session → Action → Bool} {trace : List Unit} {final : Session}
    (run : Run (exec lazyLoad) guard fresh trace final) : Packed final := by
  refine run.invariant (P := fun _ session => Packed session) packed_fresh ?_
  intro trace session action event next _ packed _ stepped
  exact packed.step stepped

end Session

end Files

/-- An index answers as the latest versions of its documents do, as long as each batch that
builds the base may; a batch that may not has other answers than its upserts. -/
theorem index_exact (lazyLoad : Bool) {trace free : List Unit} {final other : Session}
    (unrestricted : Run (Session.exec lazyLoad) (fun _ _ => true) .fresh free other)
    (run : Run (Session.exec lazyLoad) Session.allowed .fresh trace final) :
    Compacted other.engine.state ∧ Exact final.engine.state final.contents ∧
    ∀ analyzed recordWal, Exact (Engine.upsertAll recordWal analyzed final.engine.state)
      (overlaid final.contents analyzed) ∧
      (final.engine.state.canBuildBase = true →
        (Exact (final.engine.state.buildBase analyzed) (overlaid final.contents analyzed) ↔
          buildable final.engine.state analyzed = true)) := by
  have sound := Session.sound_run run
  refine ⟨(Session.packed_run unrestricted).state,sound.shows_.exact,fun analyzed recordWal =>
    ⟨(sound.shows_.upsertAll recordWal analyzed).exact,?_⟩⟩
  intro can
  exact ⟨buildable_of_exact sound.shows_ can,fun fits => (sound.shows_.build can fits).exact⟩

def twoTerms : AnalyzedDocument := ⟨["a","b"],[1,2],by simp⟩

def oneTerm : AnalyzedDocument := ⟨["c"],[1],by simp⟩

theorem index_exact_of_batch : ∃ trace final,
    Run (Session.exec false) Session.allowed .fresh trace final ∧ Compacted final.engine.state ∧
    Exact final.engine.state final.contents ∧
      final.engine.state.posting "a" = {7,9} := by
  have played : (play (Session.exec false) Session.allowed .fresh
      [.addBatch [(7,twoTerms),(9,twoTerms)],.addDocument 8 oneTerm,.compact]).any
        (fun result => decide (result.2.engine.state.posting "a" = {7,9})) = true := by decide +kernel
  obtain ⟨⟨trace,final⟩,same,posted⟩ := (Option.any_eq_true _ _).mp played
  have run := Run.of_play same
  have result := index_exact false (run.weaken fun _ _ _ => rfl) run
  exact ⟨trace,final,run,result.1,result.2.1,of_decide_eq_true posted⟩

/-- Repeated ids in the batch that builds the base: the document keeps the terms of its older
version. A document deleted before that batch: the document stays hidden. -/
theorem index_inexact :
    (∃ trace final, Run (Session.exec false) (fun _ _ => true) .fresh trace final ∧
      ¬ Exact final.engine.state final.contents ∧
      7 ∈ final.engine.state.posting "a" ∧ (final.contents 7).map (·.terms) = some ["c"]) ∧
    ∃ trace final, Run (Session.exec false) (fun _ _ => true) .fresh trace final ∧
    ¬ Exact final.engine.state final.contents ∧
      7 ∉ final.engine.state.liveDocs ∧ (final.contents 7).map (·.terms) = some ["c"] := by
  constructor
  · have played : (play (Session.exec false) (fun _ _ => true) .fresh [.addBatch [(7,twoTerms),(7,oneTerm)]]).any
        (fun result => decide (7 ∈ result.2.engine.state.posting "a" ∧ (result.2.contents 7).map (·.terms) =
          some ["c"])) = true := by decide +kernel
    obtain ⟨⟨trace,final⟩,same,posted⟩ := (Option.any_eq_true _ _).mp played
    obtain ⟨seven,terms⟩ := of_decide_eq_true posted
    refine ⟨trace,final,Run.of_play same,fun exact_ => ?_,seven,terms⟩
    obtain ⟨document,here,has⟩ := (exact_.posting "a" 7).mp seven
    simp only [here,Option.map_some,Option.some.injEq] at terms
    rw [terms] at has
    exact absurd has (by decide)
  · have played : (play (Session.exec false) (fun _ _ => true) .fresh [.removeDocuments [7],
      .addBatch [(7,oneTerm)]]).any
        (fun result => decide (7 ∉ result.2.engine.state.liveDocs ∧ (result.2.contents 7).map (·.terms) = some ["c"])) =
        true := by decide +kernel
    obtain ⟨⟨trace,final⟩,same,posted⟩ := (Option.any_eq_true _ _).mp played
    obtain ⟨hidden,terms⟩ := of_decide_eq_true posted
    refine ⟨trace,final,Run.of_play same,fun exact_ => hidden ((exact_.liveDocs 7).mpr fun none_ => ?_),hidden,terms⟩
    rw [none_] at terms
    cases terms

end ApexBase.Fts
