import ApexBase.Fts.Spelling

/-! Every document that a posting shows has its tokens, in any run at all. -/
namespace ApexBase.Fts
open Library Library.Assoc

def Stored (state : IndexState) : Prop := ∀ term docId, docId ∈ state.posting term → state.tokensForDoc docId ≠ none

def Covered (postings : String → DocSet) (docs : DocSet) (tokens : PackedDocTokens) : Prop :=
  ∀ term docId, docId ∈ postings term → docId ∈ docs ∧ ∃ list, (docId,list) ∈ tokens.records

structure Kept (state : IndexState) : Prop where
  sorted : state.baseTokens.records.Pairwise fun a b => a.1 ≤ b.1
  base : Covered (fun term => IndexState.docsOf (state.basePosting term)) state.baseDocs state.baseTokens
  delta : ∀ term docId, docId ∈ IndexState.docsOf (state.deltaPostings.lookup term) → docId ∈ state.deltaDocs
  tokens : ∀ docId ∈ state.deltaDocs, state.deltaTokens.lookup docId ≠ none
  deleted : state.deletedDocs ⊆ state.shadowedDocs
  apart : Disjoint state.deltaDocs state.deletedDocs
  lazily : state.mmapPostings = none ∨ state.basePostings = ∅

namespace Kept
variable {state : IndexState}

theorem stored (kept : Kept state) : Stored state := by
  intro term docId member
  rw [IndexState.posting_eq,Finset.mem_sdiff,Finset.mem_union,Finset.mem_sdiff] at member
  obtain ⟨either,notDeleted⟩ := member
  unfold IndexState.tokensForDoc
  rw [if_neg notDeleted]
  cases found : state.deltaTokens.lookup docId with
  | some tokens => exact Option.some_ne_none tokens
  | none =>
    rcases either with ⟨base,notShadowed⟩ | delta
    · obtain ⟨_,list,record⟩ := kept.base term docId base
      obtain ⟨tokens,got,_⟩ := get_of_mem kept.sorted record
      simp only [if_neg notShadowed,got]
      exact Option.some_ne_none tokens
    · exact absurd found (kept.tokens docId (kept.delta term docId delta))

theorem posting_subset (kept : Kept state) (term : String) : state.posting term ⊆ state.liveDocs := by
  intro docId member
  rw [IndexState.posting_eq,Finset.mem_sdiff,Finset.mem_union,Finset.mem_sdiff] at member
  obtain ⟨either,notDeleted⟩ := member
  unfold IndexState.liveDocs
  rw [Finset.mem_sdiff,Finset.mem_union,Finset.mem_sdiff]
  refine ⟨?_,notDeleted⟩
  rcases either with ⟨base,notShadowed⟩ | delta
  · exact Or.inl ⟨(kept.base term docId base).1,notShadowed⟩
  · exact Or.inr (kept.delta term docId delta)

theorem congr (kept : Kept state) {other : IndexState}
    (same : ∃ pending rebuild, other = {state with pendingWal := pending,needsRebuild := rebuild}) : Kept other := by
  obtain ⟨pending,rebuild,rfl⟩ := same
  exact ⟨kept.sorted,kept.base,kept.delta,kept.tokens,kept.deleted,kept.apart,kept.lazily⟩

theorem default : Kept IndexState.default :=
  ⟨List.Pairwise.nil,fun _ docId member => absurd member (Finset.notMem_empty docId),fun _ docId member =>
    absurd member (Finset.notMem_empty docId),
    nofun,Finset.Subset.refl _,Finset.disjoint_empty_left _,Or.inl rfl⟩

section
variable (kept : Kept state)
include kept

theorem removed (docId : UInt64) : Kept (state.removeFromDelta docId) ∧
    docId ∉ (state.removeFromDelta docId).deltaDocs := by
  unfold IndexState.removeFromDelta
  split
  · rename_i absent
    exact ⟨kept,absent⟩
  · refine ⟨⟨kept.sorted,kept.base,fun term other member => ?_,fun other member => ?_,kept.deleted,?_,kept.lazily⟩,
      Finset.notMem_erase _ _⟩
    · simp only at member ⊢
      rw [IndexState.docsOf_retain,IndexState.docsOf_mapValues (PostingDocs.remove docId) _ _ (·.erase docId)
        (Finset.erase_empty _)
        (PostingDocs.toRoaring_remove docId),Finset.mem_erase] at member
      exact Finset.mem_erase.mpr ⟨member.1,kept.delta term other member.2⟩
    · obtain ⟨different,before⟩ := Finset.mem_erase.mp member
      rw [lookup_erase_eq,if_neg different]
      exact kept.tokens other before
    · exact Finset.disjoint_of_subset_left (Finset.erase_subset _ _) kept.apart

theorem upsert (docId : UInt64) (document : AnalyzedDocument) (recordWal : Bool) :
    Kept (state.applyUpsert docId document recordWal) := by
  obtain ⟨removed,absent⟩ := kept.removed docId
  obtain ⟨pending,upserted⟩ := applyUpsert_eq state docId document recordWal
  obtain ⟨postings,next,frame⟩ := IndexState.addDeltaTerms_frame docId document.terms (marked state docId,[])
  have docs := IndexState.addDeltaTerms_docs docId document.terms (marked state docId,[])
  rw [upserted]
  simp only [frame] at docs ⊢
  refine ⟨removed.sorted,removed.base,fun term other member => ?_,fun other member => ?_,?_,?_,removed.lazily⟩
  · simp only [docs] at member
    change other ∈ insert docId (state.removeFromDelta docId).deltaDocs
    split at member
    · rcases Finset.mem_insert.mp member with rfl | before
      · exact Finset.mem_insert_self _ _
      · exact Finset.mem_insert_of_mem (removed.delta term other before)
    · exact Finset.mem_insert_of_mem (removed.delta term other member)
  · rw [lookup_insert_eq]
    split
    · exact Option.some_ne_none _
    · rename_i different
      rcases Finset.mem_insert.mp member with same | before
      · exact absurd same different
      · exact removed.tokens other before
  · intro other member
    exact Finset.mem_insert_of_mem (removed.deleted (Finset.mem_of_mem_erase member))
  · rw [Finset.disjoint_left]
    intro other member deleted
    obtain ⟨different,gone⟩ := Finset.mem_erase.mp deleted
    rcases Finset.mem_insert.mp member with same | before
    · exact different same
    · exact Finset.disjoint_left.mp removed.apart before gone

theorem delete (docId : UInt64) (recordWal : Bool) : Kept (state.applyDelete docId recordWal) := by
  obtain ⟨removed,absent⟩ := kept.removed docId
  refine ⟨removed.sorted,removed.base,removed.delta,removed.tokens,Finset.insert_subset_insert docId removed.deleted,?_,
    removed.lazily⟩
  exact Finset.disjoint_insert_right.mpr ⟨absent,removed.apart⟩

theorem basePosting_eq (term : String) :
    state.basePosting term = (state.mmapPostings.getD state.basePostings).lookup term := by
  rcases kept.lazily with eager | lazily
  · rw [IndexState.basePosting_eager eager,eager,Option.getD_none]
  · unfold IndexState.basePosting
    rw [lazily,AList.lookup_empty]
    cases state.mmapPostings with
    | none => rfl
    | some postings => rfl

theorem merge : Kept state.mergeDelta := by
  refine ⟨sorted_fromRecords _,fun term docId member => ?_,fun _ docId member =>
    absurd member (Finset.notMem_empty docId),nofun,
    Finset.Subset.refl _,Finset.disjoint_empty_left _,Or.inl rfl⟩
  simp only [IndexState.basePosting_eager (show state.mergeDelta.mmapPostings = none from rfl)] at member
  rcases (IndexState.mergePostings_docs _ _ term docId).mp member with base | delta
  · have visible : docId ∈ IndexState.docsOf (state.basePosting term) \ state.shadowedDocs := by
      rw [kept.basePosting_eq]
      split at base
      · rename_i none_
        rw [none_,Finset.sdiff_empty]
        exact base
      · rwa [IndexState.docsOf_retain,IndexState.docsOf_mapValues (PostingDocs.subtract state.shadowedDocs) _ _
          (· \ state.shadowedDocs)
          (Finset.empty_sdiff _) (PostingDocs.toRoaring_subtract state.shadowedDocs)] at base
    obtain ⟨there,notShadowed⟩ := Finset.mem_sdiff.mp visible
    obtain ⟨inBase,list,record⟩ := kept.base term docId there
    have notDeleted : docId ∉ state.deletedDocs := fun deleted => notShadowed (kept.deleted deleted)
    refine ⟨Finset.mem_sdiff.mpr ⟨Finset.mem_union_left _ ?_,notDeleted⟩,list,
      (mem_fromRecords _ _).mpr (List.mem_append_left _ (List.mem_filter.mpr ⟨record,
      decide_eq_true ⟨notShadowed,notDeleted⟩⟩))⟩
    split
    · exact inBase
    · exact Finset.mem_sdiff.mpr ⟨inBase,notShadowed⟩
  · have inDelta := kept.delta term docId ((IndexState.mem_docsOf_entries _ term docId).mp delta)
    obtain ⟨list,found⟩ := Option.ne_none_iff_exists'.mp (kept.tokens docId inDelta)
    have notDeleted := Finset.disjoint_left.mp kept.apart inDelta
    refine ⟨Finset.mem_sdiff.mpr ⟨Finset.mem_union_right _ inDelta,notDeleted⟩,list,
      (mem_fromRecords _ _).mpr (List.mem_append_right _ (List.mem_filter.mpr ⟨?_,decide_eq_true notDeleted⟩))⟩
    exact List.mem_map.mpr ⟨⟨docId,list⟩,AList.mem_lookup_iff.mp found,rfl⟩

end

theorem addBaseDocuments_records (analyzed : List (UInt64 × AnalyzedDocument))
    (building : Postings × UInt32 × DocSet × List (UInt64 × List UInt32)) :
    (analyzed.foldl IndexState.addBaseDocument building).2.2.2.map Prod.fst = building.2.2.2.map Prod.fst ++
    analyzed.map Prod.fst := by
  induction analyzed generalizing building with
  | nil => exact (List.append_nil _).symm
  | cons entry rest ih =>
    rw [List.foldl_cons,ih]
    unfold IndexState.addBaseDocument
    simp

theorem build (kept : Kept state) (can : state.canBuildBase = true) (analyzed : List (UInt64 × AnalyzedDocument)) :
    Kept (state.buildBase analyzed) := by
  obtain ⟨postings,docs⟩ := buildBase_fields can analyzed
  refine ⟨sorted_fromRecords _,fun term docId member => ?_,kept.delta,kept.tokens,kept.deleted,kept.apart,
    Or.inl (canBuildBase_fields can).2.1⟩
  obtain ⟨entry,among,rfl,_⟩ := (postings term docId).mp member
  have ids := addBaseDocuments_records analyzed (∅,state.nextTermId,state.baseDocs,[])
  have there : entry.1 ∈ (analyzed.foldl IndexState.addBaseDocument (∅,state.nextTermId,state.baseDocs,[])).2.2.2.map
    Prod.fst := by
    rw [ids]
    exact List.mem_append_right _ (List.mem_map_of_mem among)
  obtain ⟨⟨docId,list⟩,record,same⟩ := List.mem_map.mp there
  have same : docId = entry.1 := same
  subst same
  exact ⟨(docs entry.1).mpr ⟨entry,among,rfl⟩,list,(mem_fromRecords _ _).mpr record⟩

theorem load {snapshot : IndexState.Snapshot}
    (covered : Covered (fun term => IndexState.docsOf (snapshot.postings.lookup term)) snapshot.docs snapshot.tokens)
    (lazyLoad : Bool) : Kept (.loadSnapshot snapshot lazyLoad) := by
  refine ⟨sorted_fromRecords _,fun term docId member => ?_,fun _ docId member =>
    absurd member (Finset.notMem_empty docId),nofun,
    Finset.Subset.refl _,Finset.disjoint_empty_left _,?_⟩
  · simp only [basePosting_load] at member
    obtain ⟨among,list,record⟩ := covered term docId member
    exact ⟨among,list,(mem_fromRecords _ _).mpr record⟩
  · cases lazyLoad with
    | false => exact Or.inl rfl
    | true => exact Or.inr rfl

theorem snapshot (kept : Kept state) :
    Covered (fun term => IndexState.docsOf (state.mergeDelta.snapshot.postings.lookup term))
      state.mergeDelta.snapshot.docs
      state.mergeDelta.snapshot.tokens := by
  intro term docId member
  have member : docId ∈ IndexState.docsOf (state.mergeDelta.snapshot.postings.lookup term) := member
  unfold IndexState.snapshot at member
  rw [IndexState.docsOf_retain] at member
  refine kept.merge.base term docId ?_
  simp only [IndexState.basePosting_eager (show state.mergeDelta.mmapPostings = none from rfl)]
  exact member

theorem publish (kept : Kept state) : Kept (state.mergeDelta.publish state.mergeDelta.snapshot) := by
  have merged := kept.merge
  refine ⟨merged.sorted,fun term docId member => ?_,merged.delta,merged.tokens,merged.deleted,merged.apart,Or.inr rfl⟩
  simp only [basePosting_mapped (show (state.mergeDelta.publish state.mergeDelta.snapshot).mmapPostings =
    some _ from rfl) rfl] at member
  exact kept.snapshot term docId member

end Kept

namespace Session
variable {session : Session}

structure Keeps (session : Session) : Prop where
  state : Kept session.engine.state
  file : ∀ snapshot, session.engine.index = some snapshot →
    Covered (fun term => IndexState.docsOf (snapshot.postings.lookup term)) snapshot.docs snapshot.tokens

theorem keeps_fresh : Keeps fresh := ⟨Kept.default.congr ⟨_,_,rfl⟩,nofun⟩

theorem Keeps.persist (keeps : Keeps session) (lazyLoad : Bool) (saved : Contents) :
    Keeps {session with engine := session.engine.persistSnapshot lazyLoad,saved := saved} := by
  refine ⟨?_,fun snapshot same => ?_⟩
  · cases lazyLoad with
    | false => exact keeps.state.merge.congr ⟨_,_,rfl⟩
    | true => exact keeps.state.publish.congr ⟨_,_,rfl⟩
  · cases same
    exact keeps.state.snapshot

theorem Keeps.loaded (keeps : Keeps session) (lazyLoad : Bool) : Kept (session.engine.loaded lazyLoad) := by
  unfold Engine.loaded
  cases file : session.engine.index with
  | none => exact Kept.default.congr ⟨_,_,rfl⟩
  | some snapshot => exact Kept.load (keeps.file snapshot file) lazyLoad

theorem Keeps.step (keeps : Keeps session) {lazyLoad : Bool} {action : Action} {next : Session}
    (stepped : exec lazyLoad session action = some ((),next)) : Keeps next := by
  cases action with
  | addBatch analyzed =>
    cases stepped
    have upserts : ∀ recordWal, Kept (Engine.upsertAll recordWal analyzed {session.engine.state with
      needsRebuild := false}) := fun recordWal =>
      foldl_keeps Kept (fun _ entry before => before.upsert entry.1 entry.2 recordWal) analyzed
        (keeps.state.congr ⟨_,_,rfl⟩)
    simp only [Engine.applyAnalyzed]
    split
    · exact ⟨keeps.state,keeps.file⟩
    · split
      · rename_i builds
        exact ⟨keeps.state.build (Bool.and_eq_true _ _ ▸ builds).2 analyzed,keeps.file⟩
      · exact ⟨upserts _,keeps.file⟩
  | addDocument docId document =>
    cases stepped
    exact ⟨keeps.state.upsert docId document _,keeps.file⟩
  | removeDocuments docIds =>
    cases stepped
    exact ⟨foldl_keeps Kept (fun _ docId before => before.delete docId _) docIds keeps.state,keeps.file⟩
  | mergeDelta =>
    cases stepped
    exact ⟨keeps.state.merge,keeps.file⟩
  | flush =>
    cases stepped
    unfold Engine.flush
    split
    · exact keeps.persist lazyLoad _
    · exact ⟨keeps.state.congr ⟨_,_,rfl⟩,keeps.file⟩
  | compact =>
    cases stepped
    exact keeps.persist lazyLoad _
  | reopen =>
    cases stepped
    refine ⟨foldl_keeps Kept (fun state op before => ?_) session.engine.wal (keeps.loaded lazyLoad),keeps.file⟩
    cases op with
    | upsert docId document => exact before.upsert docId document false
    | delete docId => exact before.delete docId false

theorem kept_run {lazyLoad : Bool} {guard : Session → Action → Bool} {trace : List Unit} {final : Session}
    (run : Run (exec lazyLoad) guard fresh trace final) : Kept final.engine.state := by
  have keeps : Keeps final := by
    refine run.invariant (P := fun _ session => Keeps session) keeps_fresh ?_
    intro trace session action event next _ keeps _ stepped
    exact keeps.step stepped
  exact keeps.state

end Session

end ApexBase.Fts
