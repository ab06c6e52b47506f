import ApexBase.Fts.Spelling

/-! Runs of one engine in which term ids identify terms. -/
namespace ApexBase.Fts
open Library Library.Assoc
open IndexState (idOf)

def Assigned (state : IndexState) (term : String) (id : UInt32) : Prop :=
  idOf (state.basePostings.lookup term) = some id ∨ (∃ postings, state.mmapPostings = some postings ∧
    idOf (postings.lookup term) = some id) ∨
    idOf (state.deltaPostings.lookup term) = some id

/-- Term ids identify terms, and the token list of every live document is its latest version's. -/
structure Identified (state : IndexState) (contents : Contents) : Prop where
  apart : ∀ term other id, Assigned state term id → Assigned state other id → term = other
  positive : ∀ term id, Assigned state term id → id ≠ 0
  below : ∀ term id, Assigned state term id → id < state.nextTermId
  tokens : ∀ docId ∈ state.liveDocs, ∃ document tokens, contents docId = some document ∧
    state.tokensForDoc docId = some tokens ∧
    MapsBack state.termId document tokens ∧
    ∀ term id, state.termId term = some id → tokens.count id = occurrences document term

def Reads (state : IndexState) (contents : Contents) : Prop :=
  ∃ old new, IndexState.Tracks state old new ∧ Spelled state old new ∧ state.shown old new = contents

def fitsAll (recordWal : Bool) : List (UInt64 × AnalyzedDocument) → IndexState → Bool
  | [],_ => true
  | entry :: rest,state => fitsUpsert state entry.1 entry.2 &&
    fitsAll recordWal rest (state.applyUpsert entry.1 entry.2 recordWal)

def fitsReplay : List WalOp → IndexState → Bool
  | [],_ => true
  | .upsert docId document :: rest,state => fitsUpsert state docId document &&
    fitsReplay rest (state.applyUpsert docId document false)
  | .delete docId :: rest,state => fitsReplay rest (state.applyDelete docId false)

def fitsBatch (engine : Engine) (analyzed : List (UInt64 × AnalyzedDocument)) : Bool :=
  if engine.builds then buildable engine.state analyzed && assignable engine.state analyzed
  else fitsAll engine.index.isSome analyzed {engine.state with needsRebuild := false}

def identifies (lazyLoad : Bool) (session : Session) : Action → Bool
  | .addBatch analyzed => fitsBatch session.engine analyzed
  | .addDocument docId document => fitsUpsert session.engine.state docId document
  | .reopen => fitsReplay session.engine.wal (session.engine.loaded lazyLoad)
  | _ => true

theorem Engine.applyAnalyzed_files (engine : Engine) (analyzed : List (UInt64 × AnalyzedDocument)) :
    engine.applyAnalyzed analyzed = {engine with state := (engine.applyAnalyzed analyzed).state} := by
  unfold Engine.applyAnalyzed
  split
  · rfl
  · split
    · rfl
    · rfl

section Reads
variable {state : IndexState} {contents : Contents}

theorem Reads.congr (reads : Reads state contents) {other : IndexState}
    (same : ∃ pending rebuild, other = {state with pendingWal := pending,needsRebuild := rebuild}) :
    Reads other contents := by
  obtain ⟨old,new,tracks,spelled,rfl⟩ := reads
  obtain ⟨pending,rebuild,rfl⟩ := same
  exact ⟨old,new,⟨tracks.base,tracks.delta,tracks.shadowed,tracks.apart,tracks.lazily⟩,
    ⟨spelled.interns,spelled.agree,spelled.recorded,spelled.delta⟩,rfl⟩

theorem reads_default : Reads IndexState.default fun _ => none := by
  refine ⟨_,_,IndexState.tracks_default,⟨Interns.nothing _,nofun,⟨List.Pairwise.nil,nofun,nofun⟩,fun _ => rfl⟩,?_⟩
  funext docId
  exact ite_self _

section
variable (reads : Reads state contents)
include reads

theorem Reads.upsert {docId : UInt64} {document : AnalyzedDocument} (fits : fitsUpsert state docId document = true)
    (recordWal : Bool) :
    Reads (state.applyUpsert docId document recordWal) (Function.update contents docId (some document)) := by
  obtain ⟨old,new,tracks,spelled,rfl⟩ := reads
  exact ⟨old,_,tracks.upsert docId document recordWal,spelled.upsert tracks fits recordWal,
    IndexState.shown_upsert docId document recordWal⟩

theorem Reads.delete (docId : UInt64) (recordWal : Bool) :
    Reads (state.applyDelete docId recordWal) (Function.update contents docId none) := by
  obtain ⟨old,new,tracks,spelled,rfl⟩ := reads
  exact ⟨old,_,tracks.delete docId recordWal,spelled.delete tracks docId recordWal,
    IndexState.shown_delete docId recordWal⟩

theorem Reads.upsertAll {recordWal : Bool} {analyzed : List (UInt64 × AnalyzedDocument)}
    (fits : fitsAll recordWal analyzed state = true) :
    Reads (Engine.upsertAll recordWal analyzed state) (overlaid contents analyzed) := by
  induction analyzed generalizing state contents with
  | nil => exact reads
  | cons entry rest ih =>
    obtain ⟨here,later⟩ := Bool.and_eq_true _ _ ▸ fits
    exact ih (reads.upsert here recordWal) later

theorem Reads.deleteAll (recordWal : Bool) (docIds : List UInt64) :
    Reads (docIds.foldl (fun state docId => state.applyDelete docId recordWal) state)
      (docIds.foldl (fun contents docId => Function.update contents docId none) contents) := by
  induction docIds generalizing state contents with
  | nil => exact reads
  | cons docId rest ih => exact ih (reads.delete docId recordWal)

theorem Reads.replay {wal : List WalOp} (fits : fitsReplay wal state = true) :
    Reads (wal.foldl .replay state) (wal.foldl applied contents) := by
  induction wal generalizing state contents with
  | nil => exact reads
  | cons op rest ih =>
    cases op with
    | upsert docId document =>
      obtain ⟨here,later⟩ := Bool.and_eq_true _ _ ▸ fits
      exact ih (reads.upsert here false) later
    | delete docId => exact ih (reads.delete docId false) fits

theorem Reads.merge :
    IndexState.Tracks state.mergeDelta contents (fun _ => none) ∧
    Spelled state.mergeDelta contents (fun _ => none) := by
  obtain ⟨old,new,tracks,spelled,rfl⟩ := reads
  exact ⟨tracks.merge,spelled.merge tracks⟩

theorem Reads.shows_ : Shows state contents := by
  obtain ⟨old,new,tracks,_,same⟩ := reads
  exact ⟨old,new,tracks,same⟩

end

theorem reads_merged (tracks : IndexState.Tracks state contents fun _ => none)
    (spelled : Spelled state contents fun _ => none)
    (clean : state.shadowedDocs = ∅) : Reads state contents := by
  refine ⟨_,_,tracks,spelled,?_⟩
  funext docId
  unfold IndexState.shown
  rw [clean]
  exact if_neg (Finset.notMem_empty docId)

theorem Reads.filed (reads : Reads state contents) : Filed state.mergeDelta.snapshot contents :=
  reads.merge.2.filed rfl reads.shows_.snapshot

theorem Reads.build (reads : Reads state contents) (can : state.canBuildBase = true)
    {analyzed : List (UInt64 × AnalyzedDocument)} (allowed : buildable state analyzed = true)
    (ids : assignable state analyzed = true) :
    Reads (state.buildBase analyzed) (overlaid contents analyzed) := by
  rw [reads.shows_.nothing can]
  obtain ⟨old,new,tracks,spelled,_⟩ := reads
  obtain ⟨built,shown⟩ := tracks_build tracks can allowed
  exact ⟨_,new,built,spelled.build tracks can ids,shown⟩

theorem Reads.applyAnalyzed {engine : Engine} (reads : Reads engine.state contents)
    {analyzed : List (UInt64 × AnalyzedDocument)}
    (fits : fitsBatch engine analyzed = true) :
    Reads (engine.applyAnalyzed analyzed).state (overlaid contents analyzed) := by
  unfold Engine.applyAnalyzed
  unfold fitsBatch at fits
  split
  · rename_i empty
    rw [List.isEmpty_iff.mp empty]
    exact reads
  · split
    · rename_i builds
      rw [if_pos builds] at fits
      obtain ⟨may,ids⟩ := Bool.and_eq_true _ _ ▸ fits
      have can : engine.state.canBuildBase = true := (Bool.and_eq_true _ _ ▸ builds).2
      exact reads.build can may ids
    · rename_i grows
      rw [if_neg grows] at fits
      exact (reads.congr ⟨_,_,rfl⟩).upsertAll fits

section
variable (reads : Reads state contents)
include reads

theorem Reads.tokens {docId : UInt64} {document : AnalyzedDocument} (here : contents docId = some document) :
    state.tokensForDoc docId = some (spell state.termId document) := by
  have member := (reads.shows_.exact.liveDocs docId).mpr (here ▸ Option.some_ne_none document)
  obtain ⟨old,new,tracks,spelled,rfl⟩ := reads
  unfold IndexState.tokensForDoc
  have notDeleted : docId ∉ state.deletedDocs := (Finset.mem_sdiff.mp member).2
  rw [if_neg notDeleted,spelled.delta]
  unfold IndexState.shown at here
  by_cases shadowed : docId ∈ state.shadowedDocs
  · rw [if_pos shadowed] at here
    rw [here]
    rfl
  · rw [if_neg shadowed] at here
    have none_ : new docId = none := by
      by_contra some_
      exact shadowed (tracks.mem_shadowed.mpr (Or.inl ((tracks.delta.docs docId).mpr some_)))
    rw [none_,if_neg shadowed]
    -- a document of the base has the ids of the base, which the delta shares
    refine (spelled.recorded.get here).trans (congrArg some (spell_subset spelled.agree fun term has => ?_).symm)
    exact IndexState.idOf_of_docs ((tracks.base.postings term docId).mpr ⟨document,here,has⟩)

theorem Reads.interns : Interns state.termId state.nextTermId := by
  obtain ⟨old,new,_,spelled,_⟩ := reads
  exact spelled.interns

theorem Reads.known {docId : UInt64} {document : AnalyzedDocument} (here : contents docId = some document)
    {term : String} (has : term ∈ document.terms) : ∃ id, state.termId term = some id := by
  have member := (reads.shows_.exact.posting term docId).mpr ⟨document,here,has⟩
  obtain ⟨old,new,tracks,spelled,rfl⟩ := reads
  rw [IndexState.posting_eq,Finset.mem_sdiff,Finset.mem_union,Finset.mem_sdiff] at member
  rcases member.1 with base | delta
  · obtain ⟨id,found⟩ := IndexState.idOf_of_docs base.1
    exact ⟨id,spelled.agree term id found⟩
  · obtain ⟨id,found⟩ := IndexState.idOf_of_docs delta
    rw [IndexState.termId_eq,found]
    exact ⟨id,rfl⟩

theorem Reads.identified : Identified state contents := by
  have live := reads.shows_.exact.liveDocs
  have interns := reads.interns
  have assigned : ∀ {term : String} {id : UInt32}, Assigned state term id → state.termId term = some id := by
    obtain ⟨old,new,tracks,spelled,rfl⟩ := reads
    intro term id assigned
    rcases assigned with base | ⟨postings,mapped,found⟩ | delta
    · refine spelled.agree term id ?_
      unfold IndexState.basePosting
      cases here : state.basePostings.lookup term with
      | none =>
        rw [here] at base
        cases base
      | some posting =>
        rw [here] at base
        exact base
    · refine spelled.agree term id ?_
      rw [tracks.basePosting_eq,mapped]
      exact found
    · rw [IndexState.termId_eq,delta]
      rfl
  have positive : ∀ {term : String} {id : UInt32}, state.termId term = some id → id ≠ 0 := by
    rintro term id found rfl
    exact absurd (interns.positive term 0 found) (by decide)
  refine ⟨fun term other id here there => interns.apart term other id (assigned here) (assigned there),
    fun term id here => positive (assigned here),
    fun term id here => UInt32.lt_iff_toNat_lt.mpr (interns.below term id (assigned here)),fun docId member => ?_⟩
  obtain ⟨document,here⟩ := Option.ne_none_iff_exists'.mp ((live docId).mp member)
  have ids : ∀ term ∈ document.terms, (state.termId term).isSome :=
    fun term has => Option.isSome_iff_exists.mpr (reads.known here has)
  have back := mapsBack_spell ids
  refine ⟨document,_,here,reads.tokens here,back,fun term id found =>
    count_of_mapsBack back found (positive found) fun other there => ?_⟩
  exact interns.apart other term id there found

end

theorem reads_loaded {engine : Engine} {saved : Contents} (written : Session.Written engine.index saved)
    (filed : ∀ snapshot, engine.index = some snapshot → Filed snapshot saved) (lazyLoad : Bool) :
    Reads (engine.loaded lazyLoad) saved := by
  unfold Engine.loaded
  cases file : engine.index with
  | none =>
    rw [written.absent file]
    exact reads_default.congr ⟨_,_,rfl⟩
  | some snapshot =>
    obtain ⟨tracks,_⟩ := tracks_load (written.holds snapshot file) lazyLoad
    exact reads_merged tracks ((filed snapshot file).load lazyLoad) rfl

end Reads

namespace Session
variable {session : Session}

structure Traced (session : Session) : Prop where
  reads : Reads session.engine.state session.contents
  written : Written session.engine.index session.saved
  filed : ∀ snapshot, session.engine.index = some snapshot → Filed snapshot session.saved

theorem traced_fresh : Traced fresh := ⟨reads_default.congr ⟨_,_,rfl⟩,⟨nofun,fun _ => rfl⟩,nofun⟩

theorem Traced.persist (traced : Traced session) (lazyLoad : Bool) :
    Traced {session with engine := session.engine.persistSnapshot lazyLoad,saved := session.contents} := by
  obtain ⟨tracks,spelled⟩ := traced.reads.merge
  have filed := traced.reads.filed
  refine ⟨?_,⟨fun snapshot same => ?_,nofun⟩,fun snapshot same => ?_⟩
  · cases lazyLoad with
    | false => exact (reads_merged tracks spelled rfl).congr ⟨_,_,rfl⟩
    | true =>
      have published := traced.reads.shows_.tracks_publish.1
      exact (reads_merged published (Filed.publish spelled rfl rfl filed) rfl).congr ⟨_,_,rfl⟩
  · cases same
    exact traced.reads.shows_.snapshot
  · cases same
    exact filed

theorem Traced.loaded (traced : Traced session) (lazyLoad : Bool) :
    Reads (session.engine.loaded lazyLoad) session.saved :=
  reads_loaded traced.written traced.filed lazyLoad

theorem Traced.step (traced : Traced session) {lazyLoad : Bool} {action : Action} {next : Session}
    (permitted : identifies lazyLoad session action = true) (stepped : exec lazyLoad session action = some ((),next)) :
    Traced next := by
  cases action with
  | addBatch analyzed =>
    cases stepped
    refine ⟨traced.reads.applyAnalyzed permitted,?_,fun snapshot => ?_⟩
    · rw [session.engine.applyAnalyzed_files analyzed]
      exact traced.written
    · rw [session.engine.applyAnalyzed_files analyzed]
      exact traced.filed snapshot
  | addDocument docId document =>
    cases stepped
    exact ⟨traced.reads.upsert permitted _,traced.written,traced.filed⟩
  | removeDocuments docIds =>
    cases stepped
    exact ⟨traced.reads.deleteAll _ docIds,traced.written,traced.filed⟩
  | mergeDelta =>
    cases stepped
    obtain ⟨tracks,spelled⟩ := traced.reads.merge
    exact ⟨reads_merged tracks spelled rfl,traced.written,traced.filed⟩
  | flush =>
    cases stepped
    unfold Engine.flush
    split
    · exact traced.persist lazyLoad
    · exact ⟨traced.reads.congr ⟨_,_,rfl⟩,traced.written,traced.filed⟩
  | compact =>
    cases stepped
    exact traced.persist lazyLoad
  | reopen =>
    cases stepped
    exact ⟨(traced.loaded lazyLoad).replay permitted,traced.written,traced.filed⟩

theorem reads_run {lazyLoad : Bool} {trace : List Unit} {final : Session}
    (run : Run (exec lazyLoad) (identifies lazyLoad) fresh trace final) :
    Reads final.engine.state final.contents := by
  have traced : Traced final := by
    refine run.invariant (P := fun _ session => Traced session) traced_fresh ?_
    intro trace session action event next _ traced permitted stepped
    exact traced.step permitted stepped
  exact traced.reads

end Session

/-- In every state of a run whose steps leave room for the ids, and whose batches that build
the base may and find the counter started, term ids identify terms. -/
theorem ids_identify (lazyLoad : Bool) {trace : List Unit} {final : Session}
    (run : Run (Session.exec lazyLoad) (identifies lazyLoad) .fresh trace final) :
    Identified final.engine.state final.contents :=
  (Session.reads_run run).identified

theorem ids_identify_of_upserts : ∃ trace final, Run (Session.exec true) (identifies true) .fresh trace final ∧
    Identified final.engine.state final.contents ∧ final.engine.state.tokensForDoc 7 = some [1,2] := by
  have played : (play (Session.exec true) (identifies true) .fresh
      [.addDocument 7 twoTerms,.compact,.addBatch [(8,oneTerm),(9,twoTerms)],.flush,.reopen]).any
        (fun result => decide (result.2.engine.state.tokensForDoc 7 = some [1,2])) = true := by decide +kernel
  obtain ⟨⟨trace,final⟩,same,tokens⟩ := (Option.any_eq_true _ _).mp played
  have run := Run.of_play same
  exact ⟨trace,final,run,ids_identify true run,of_decide_eq_true tokens⟩

/-- The first batch of an engine gives its first two terms the same id. -/
theorem ids_collide : ∃ trace final, Run (Session.exec false) (fun _ _ => true) .fresh trace final ∧
    Assigned final.engine.state "a" 1 ∧ Assigned final.engine.state "b" 1 ∧
    ¬ Identified final.engine.state final.contents := by
  have played : (play (Session.exec false) (fun _ _ => true) .fresh [.addBatch [(7,twoTerms)]]).any
      (fun result => decide (idOf (result.2.engine.state.basePostings.lookup "a") = some 1 ∧
        idOf (result.2.engine.state.basePostings.lookup "b") = some 1)) = true := by decide +kernel
  obtain ⟨⟨trace,final⟩,same,both⟩ := (Option.any_eq_true _ _).mp played
  obtain ⟨first,second⟩ := of_decide_eq_true both
  refine ⟨trace,final,Run.of_play same,Or.inl first,Or.inl second,fun identified => ?_⟩
  exact absurd (identified.apart "a" "b" 1 (Or.inl first) (Or.inl second)) (by decide)

end ApexBase.Fts
