import ApexBase.Fts.Threads

/-! Changes over a base that is being written: what they leave of it, and the snapshot of a
base whose delta has grown since it was merged. -/
namespace ApexBase.Fts
open Library Library.Assoc
open IndexState (idOf)

def Over (state : IndexState) (old contents : Contents) : Prop :=
  ∃ new, IndexState.Tracks state old new ∧ Spelled state old new ∧ state.shown old new = contents

structure Grown (state other : IndexState) (records : List WalOp) : Prop where
  snapshot : other.snapshot = state.snapshot
  mapped : other.mmapPostings = state.mmapPostings
  pending : other.pendingWal = state.pendingWal ++ records

namespace Grown
variable {state middle other : IndexState} {records more : List WalOp}

theorem nothing (state : IndexState) : Grown state state [] := ⟨rfl,rfl,(List.append_nil _).symm⟩

theorem trans (first : Grown state middle records) (second : Grown middle other more) :
    Grown state other (records ++ more) :=
  ⟨second.snapshot.trans first.snapshot,second.mapped.trans first.mapped,
    by rw [second.pending,first.pending,List.append_assoc]⟩

theorem upsert (state : IndexState) (docId : UInt64) (document : AnalyzedDocument) (recordWal : Bool) :
    Grown state (state.applyUpsert docId document recordWal) (if recordWal then [.upsert docId document] else []) := by
  obtain ⟨removedPostings,removedDocs,removedTokens,removed⟩ := IndexState.removeFromDelta_frame state docId
  unfold IndexState.applyUpsert
  simp only [removed]
  obtain ⟨postings,next,frame⟩ := IndexState.addDeltaTerms_frame docId document.terms
    ({state with
      deltaPostings := removedPostings,deltaDocs := insert docId removedDocs,deltaTokens := removedTokens
      shadowedDocs := insert docId state.shadowedDocs,deletedDocs := state.deletedDocs.erase docId},[])
  simp only [frame]
  refine ⟨rfl,rfl,?_⟩
  cases recordWal with
  | false => exact (List.append_nil _).symm
  | true => rfl

theorem delete (state : IndexState) (docId : UInt64) (recordWal : Bool) :
    Grown state (state.applyDelete docId recordWal) (if recordWal then [.delete docId] else []) := by
  obtain ⟨removedPostings,removedDocs,removedTokens,removed⟩ := IndexState.removeFromDelta_frame state docId
  unfold IndexState.applyDelete
  simp only [removed]
  refine ⟨rfl,rfl,?_⟩
  cases recordWal with
  | false => exact (List.append_nil _).symm
  | true => rfl

theorem foldl {α : Type} {step : IndexState → α → IndexState} {op : α → WalOp} {recordWal : Bool}
    (grows : ∀ state item, Grown state (step state item) (if recordWal then [op item] else [])) (items : List α)
    (state : IndexState) :
    Grown state (items.foldl step state) (if recordWal then items.map op else []) := by
  induction items generalizing state with
  | nil =>
    rw [List.map_nil,ite_self]
    exact nothing state
  | cons item rest ih =>
    have all := (grows state item).trans (ih (step state item))
    cases recordWal with
    | false => exact all
    | true => exact all

end Grown

namespace Over
variable {state : IndexState} {old contents : Contents}

section
variable (atop : Over state old contents)
include atop

theorem reads : Reads state contents := ⟨old,atop⟩

theorem congr {other : IndexState}
    (same : ∃ pending rebuild, other = {state with pendingWal := pending,needsRebuild := rebuild}) :
    Over other old contents := by
  obtain ⟨new,tracks,spelled,rfl⟩ := atop
  obtain ⟨pending,rebuild,rfl⟩ := same
  exact ⟨new,⟨tracks.base,tracks.delta,tracks.shadowed,tracks.apart,tracks.lazily⟩,
    ⟨spelled.interns,spelled.agree,spelled.recorded,spelled.delta⟩,rfl⟩

theorem upsert {docId : UInt64} {document : AnalyzedDocument} (fits : fitsUpsert state docId document = true)
    (recordWal : Bool) :
    Over (state.applyUpsert docId document recordWal) old (Function.update contents docId (some document)) := by
  obtain ⟨new,tracks,spelled,rfl⟩ := atop
  exact ⟨_,tracks.upsert docId document recordWal,spelled.upsert tracks fits recordWal,
    IndexState.shown_upsert docId document recordWal⟩

theorem delete (docId : UInt64) (recordWal : Bool) :
    Over (state.applyDelete docId recordWal) old (Function.update contents docId none) := by
  obtain ⟨new,tracks,spelled,rfl⟩ := atop
  exact ⟨_,tracks.delete docId recordWal,spelled.delete tracks docId recordWal,IndexState.shown_delete docId recordWal⟩

theorem upsertAll {recordWal : Bool} {analyzed : List (UInt64 × AnalyzedDocument)}
    (fits : fitsAll recordWal analyzed state = true) :
    Over (Engine.upsertAll recordWal analyzed state) old (overlaid contents analyzed) := by
  induction analyzed generalizing state contents with
  | nil => exact atop
  | cons entry rest ih =>
    obtain ⟨here,later⟩ := Bool.and_eq_true _ _ ▸ fits
    exact ih (atop.upsert here recordWal) later

theorem deleteAll (recordWal : Bool) (docIds : List UInt64) :
    Over (docIds.foldl (fun state docId => state.applyDelete docId recordWal) state) old
      (docIds.foldl (fun contents docId => Function.update contents docId none) contents) := by
  induction docIds generalizing state contents with
  | nil => exact atop
  | cons docId rest ih => exact ih (atop.delete docId recordWal)

theorem holds (eager : state.mmapPostings = none) :
    Holds state.snapshot.docs (fun term => IndexState.docsOf (state.snapshot.postings.lookup term)) old := by
  obtain ⟨new,tracks,_,_⟩ := atop
  refine ⟨tracks.base.docs,fun term docId => ?_⟩
  have postings := tracks.base.postings term docId
  simp only [IndexState.basePosting_eager eager] at postings
  simp only [IndexState.snapshot,IndexState.docsOf_retain]
  exact postings

theorem filed (eager : state.mmapPostings = none) : Filed state.snapshot old := by
  have holds := atop.holds eager
  obtain ⟨new,_,spelled,_⟩ := atop
  have subset : ∀ term id, idOf (state.snapshot.postings.lookup term) = some id →
    idOf (state.basePosting term) = some id :=
    fun term id => idOf_snapshot eager
  refine ⟨⟨state.nextTermId,spelled.interns.mono fun term id found => spelled.agree term id (subset term id found)⟩,
    spelled.recorded.subset subset fun docId document here term member => ?_⟩
  exact IndexState.idOf_of_docs ((holds.postings term docId).mpr ⟨document,here,member⟩)

theorem publish (eager : state.mmapPostings = none) : Over (state.publish state.snapshot) old contents := by
  have holds := atop.holds eager
  have filed := atop.filed eager
  obtain ⟨new,tracks,spelled,rfl⟩ := atop
  have base : ∀ term, (state.publish state.snapshot).basePosting term = state.snapshot.postings.lookup term :=
    basePosting_mapped rfl rfl
  have ids : ∀ term, (state.publish state.snapshot).termId term =
      (idOf (state.deltaPostings.lookup term)).or (idOf (state.snapshot.postings.lookup term)) := by
    intro term
    rw [IndexState.termId_eq,base]
    rfl
  have kept : ∀ {term : String} {id : UInt32}, (state.publish state.snapshot).termId term = some id →
    state.termId term = some id := by
    intro term id found
    rw [ids] at found
    cases delta : idOf (state.deltaPostings.lookup term) with
    | some known =>
      rw [delta] at found
      rw [IndexState.termId_eq,delta]
      exact found
    | none =>
      rw [delta] at found
      exact spelled.agree term id (idOf_snapshot eager found)
  refine ⟨new,⟨⟨tracks.base.docs,?_⟩,tracks.delta,tracks.shadowed,tracks.apart,Or.inr rfl⟩,
    ⟨spelled.interns.mono fun _ _ => kept,?_,?_,?_⟩,rfl⟩
  · simp only [base]
    exact holds.postings
  · intro term id found
    rw [base] at found
    have before := spelled.agree term id (idOf_snapshot eager found)
    rw [IndexState.termId_eq] at before
    rw [ids]
    cases delta : idOf (state.deltaPostings.lookup term) with
    | some known =>
      rw [delta] at before
      exact before
    | none => exact found
  · simp only [base]
    exact filed.recorded
  · intro docId
    refine (spelled.delta docId).trans ?_
    cases here : new docId with
    | none => rfl
    | some document =>
      refine congrArg some (spell_subset (fun _ _ => kept) fun term member => ?_)
      obtain ⟨id,found⟩ := IndexState.idOf_of_docs ((tracks.delta.postings term docId).mpr ⟨document,here,member⟩)
      refine ⟨id,?_⟩
      rw [ids,found]
      rfl

end

end Over

theorem Reads.merged {state : IndexState} {contents : Contents} (reads : Reads state contents) :
    Over state.mergeDelta contents contents := by
  obtain ⟨tracks,spelled⟩ := reads.merge
  refine ⟨_,tracks,spelled,?_⟩
  funext docId
  exact if_neg (Finset.notMem_empty docId)

end ApexBase.Fts
