import ApexBase.Fts.State
import ApexBase.Library.Run

/-! An index is a map from documents to their latest versions: what each operation does
to the documents of the base and of the delta. -/
namespace ApexBase.Fts
open Library Library.Assoc

abbrev Contents := UInt64 → Option AnalyzedDocument

/-- Documents and postings that hold the terms of these versions. -/
structure Holds (docs : DocSet) (postings : String → DocSet) (contents : Contents) : Prop where
  docs : ∀ docId, docId ∈ docs ↔ contents docId ≠ none
  postings : ∀ term docId, docId ∈ postings term ↔ ∃ document, contents docId = some document ∧ term ∈ document.terms

namespace IndexState

section Postings
variable {postings : Postings} {docId : UInt64} {term key : String}

theorem docsOf_retain (postings : Postings) (term : String) :
    docsOf ((retain (fun _ posting => !posting.docs.isEmpty) postings).lookup term) =
    docsOf (postings.lookup term) := by
  have kept := lookup_retain (fun (_ : String) (posting : Posting) => !posting.docs.isEmpty) postings term
  cases found : (retain (fun _ posting => !posting.docs.isEmpty) postings).lookup term with
  | some posting => rw [((kept posting).mp found).1]
  | none =>
    cases before : postings.lookup term with
    | none => rfl
    | some posting =>
      have empty : posting.docs.isEmpty = true := by
        by_contra some_
        rw [(kept posting).mpr ⟨before,by simpa using some_⟩] at found
        cases found
      rcases posting with ⟨termId,_ | _ | _⟩
      · rfl
      · cases empty
      · cases empty

theorem docsOf_mapValues (f : PostingDocs → PostingDocs) (postings : Postings) (term : String) (g : DocSet → DocSet)
    (none_ : g ∅ = ∅)
    (same : ∀ posting : PostingDocs, (f posting).toRoaring = g posting.toRoaring) :
    docsOf ((mapValues (fun posting => {posting with docs := f posting.docs}) postings).lookup term) =
    g (docsOf (postings.lookup term)) := by
  rw [lookup_mapValues]
  cases postings.lookup term with
  | none => exact none_.symm
  | some posting => exact same posting.docs

theorem docsOf_insert (postings : Postings) (key term : String) (posting : Posting) :
    docsOf ((postings.insert key posting).lookup term) = if term = key then posting.docs.toRoaring
      else docsOf (postings.lookup term) := by
  rw [lookup_insert_eq]
  split
  · rfl
  · rfl

theorem foldl_docs {σ : Type} (read : σ → String → DocSet) {step : σ → String → σ}
    (puts : ∀ state term key, read (step state term) key = if key = term then insert docId (read state key)
      else read state key)
    (terms : List String) (state : σ) (key : String) :
    read (terms.foldl step state) key = if key ∈ terms then insert docId (read state key) else read state key := by
  induction terms generalizing state with
  | nil => simp
  | cons term rest ih =>
    rw [List.foldl_cons,ih,puts]
    by_cases later : key ∈ rest
    · by_cases here : key = term
      · simp [here]
      · simp [later,here]
    · by_cases here : key = term
      · simp [here]
      · simp [later,here]

end Postings

section Build
variable {docId : UInt64}

theorem addBaseTerm_docs (docId : UInt64) (interning : Interning) (term key : String) :
    docsOf ((addBaseTerm docId interning term).postings.lookup key) =
      if key = term then insert docId (docsOf (interning.postings.lookup key))
      else docsOf (interning.postings.lookup key) := by
  unfold addBaseTerm
  split
  · rename_i posting found
    simp only
    rw [docsOf_insert,PostingDocs.toRoaring_insert]
    split
    · rename_i same
      rw [same,found]
      rfl
    · rfl
  · rename_i absent
    simp only
    rw [docsOf_insert,PostingDocs.toRoaring_insert]
    split
    · rename_i same
      rw [same,absent]
      rfl
    · rfl

theorem addBaseTerms_docs (docId : UInt64) (terms : List String) (interning : Interning) (key : String) :
    docsOf ((terms.foldl (addBaseTerm docId) interning).postings.lookup key) =
      if key ∈ terms then insert docId (docsOf (interning.postings.lookup key))
      else docsOf (interning.postings.lookup key) :=
  foldl_docs (fun interning key => docsOf (interning.postings.lookup key)) (addBaseTerm_docs docId) terms interning key

theorem addBaseDocuments_docs (analyzed : List (UInt64 × AnalyzedDocument))
    (building : Postings × UInt32 × DocSet × List (UInt64 × List UInt32)) :
    (∀ key docId, docId ∈ docsOf ((analyzed.foldl addBaseDocument building).1.lookup key) ↔
      docId ∈ docsOf (building.1.lookup key) ∨ ∃ entry ∈ analyzed, entry.1 = docId ∧ key ∈ entry.2.terms) ∧
    ∀ docId, docId ∈ (analyzed.foldl addBaseDocument building).2.2.1 ↔ docId ∈ building.2.2.1 ∨
    ∃ entry ∈ analyzed, entry.1 = docId := by
  induction analyzed generalizing building with
  | nil => simp
  | cons entry rest ih =>
    obtain ⟨postings,docs⟩ := ih (addBaseDocument building entry)
    rw [List.foldl_cons]
    constructor
    · intro key docId
      have step : docId ∈ docsOf ((addBaseDocument building entry).1.lookup key) ↔
          docId ∈ docsOf (building.1.lookup key) ∨ entry.1 = docId ∧ key ∈ entry.2.terms := by
        unfold addBaseDocument
        simp only
        rw [addBaseTerms_docs]
        split
        · rename_i member
          rw [Finset.mem_insert]
          constructor
          · rintro (same | old)
            · exact Or.inr ⟨same.symm,member⟩
            · exact Or.inl old
          · rintro (old | new)
            · exact Or.inr old
            · exact Or.inl new.1.symm
        · rename_i absent
          exact ⟨Or.inl,fun either => either.elim id fun new => absurd new.2 absent⟩
      rw [postings,step]
      simp only [List.mem_cons,exists_eq_or_imp,or_assoc]
    · intro docId
      have step : docId ∈ (addBaseDocument building entry).2.2.1 ↔ docId ∈ building.2.2.1 ∨ entry.1 = docId := by
        unfold addBaseDocument
        simp only
        rw [Finset.mem_insert]
        exact ⟨fun either => either.elim (fun same => Or.inr same.symm) Or.inl,
          fun either => either.elim Or.inr fun same => Or.inl same.symm⟩
      rw [docs,step]
      simp only [List.mem_cons,exists_eq_or_imp,or_assoc]

end Build

section Delta
variable {state : IndexState} {docId : UInt64} {new : Contents}

theorem removeFromDelta_holds (holds : Holds state.deltaDocs (fun term => docsOf (state.deltaPostings.lookup term)) new)
    (docId : UInt64) :
    Holds (state.removeFromDelta docId).deltaDocs (fun term =>
      docsOf ((state.removeFromDelta docId).deltaPostings.lookup term))
      (Function.update new docId none) := by
  unfold removeFromDelta
  split
  · rename_i absent
    have none_ : new docId = none := by
      by_contra some_
      exact absent ((holds.docs docId).mpr some_)
    rw [← none_,Function.update_eq_self]
    exact holds
  · constructor
    · intro other
      simp only [Finset.mem_erase,Function.update_apply,holds.docs]
      split
      · rename_i same
        simp [same]
      · rename_i other
        simp [other]
    · intro term other
      simp only
      rw [docsOf_retain,docsOf_mapValues (PostingDocs.remove docId) _ _ (·.erase docId) (Finset.erase_empty _)
        (PostingDocs.toRoaring_remove docId),
        Finset.mem_erase,holds.postings]
      rw [Function.update_apply]
      split
      · rename_i same
        simp [same]
      · rename_i other
        simp [other]

theorem removeFromDelta_frame (state : IndexState) (docId : UInt64) :
    ∃ postings docs tokens, state.removeFromDelta docId = {state with
      deltaPostings := postings,deltaDocs := docs,deltaTokens := tokens} := by
  unfold removeFromDelta
  split
  · exact ⟨_,_,_,rfl⟩
  · exact ⟨_,_,_,rfl⟩

theorem addDeltaTerms_frame (docId : UInt64) (terms : List String) (adding : IndexState × List UInt32) :
    ∃ postings next, (terms.foldl (addDeltaTerm docId) adding).1 = {adding.1 with
      deltaPostings := postings,nextTermId := next} := by
  induction terms generalizing adding with
  | nil => exact ⟨_,_,rfl⟩
  | cons term rest ih =>
    obtain ⟨postings,next,frame⟩ := ih (addDeltaTerm docId adding term)
    rw [List.foldl_cons,frame]
    unfold addDeltaTerm
    simp only
    split
    · exact ⟨_,_,rfl⟩
    · exact ⟨_,_,rfl⟩

theorem addDeltaTerm_docs (docId : UInt64) (adding : IndexState × List UInt32) (term key : String) :
    docsOf ((addDeltaTerm docId adding term).1.deltaPostings.lookup key) =
      if key = term then insert docId (docsOf (adding.1.deltaPostings.lookup key))
      else docsOf (adding.1.deltaPostings.lookup key) := by
  unfold addDeltaTerm
  simp only
  split
  · rename_i posting found
    simp only
    rw [docsOf_insert,PostingDocs.toRoaring_insert]
    split
    · rename_i same
      rw [same,found]
      rfl
    · rfl
  · rename_i absent
    simp only
    rw [docsOf_insert,PostingDocs.toRoaring_insert]
    split
    · rename_i same
      rw [same,absent]
      rfl
    · rfl

theorem addDeltaTerms_docs (docId : UInt64) (terms : List String) (adding : IndexState × List UInt32) (key : String) :
    docsOf ((terms.foldl (addDeltaTerm docId) adding).1.deltaPostings.lookup key) =
      if key ∈ terms then insert docId (docsOf (adding.1.deltaPostings.lookup key))
      else docsOf (adding.1.deltaPostings.lookup key) :=
  foldl_docs (fun adding key => docsOf (adding.1.deltaPostings.lookup key)) (addDeltaTerm_docs docId) terms adding key

end Delta

theorem posting_eq (state : IndexState) (term : String) : state.posting term =
    ((docsOf (state.basePosting term) \ state.shadowedDocs) ∪ docsOf (state.deltaPostings.lookup term)) \
    state.deletedDocs := by
  unfold posting
  cases state.deltaPostings.lookup term with
  | none => simp [docsOf]
  | some delta => simp [docsOf,PostingDocs.toRoaring_unionInto]

theorem basePosting_eager {state : IndexState} (eager : state.mmapPostings = none) (term : String) :
    state.basePosting term = state.basePostings.lookup term := by
  unfold basePosting
  rw [eager]
  cases found : state.basePostings.lookup term with
  | none => rfl
  | some posting => rfl

/-- The base holds the old versions and the delta the new ones, which shadow them. -/
structure Tracks (state : IndexState) (old new : Contents) : Prop where
  base : Holds state.baseDocs (fun term => docsOf (state.basePosting term)) old
  delta : Holds state.deltaDocs (fun term => docsOf (state.deltaPostings.lookup term)) new
  shadowed : state.shadowedDocs = state.deltaDocs ∪ state.deletedDocs
  apart : Disjoint state.deltaDocs state.deletedDocs
  /-- Postings that are read lazily are the only ones of the base. -/
  lazily : state.mmapPostings = none ∨ state.basePostings = ∅

def shown (state : IndexState) (old new : Contents) : Contents := fun docId => if docId ∈ state.shadowedDocs then
    new docId else old docId

namespace Tracks
variable {state : IndexState} {old new : Contents} (tracks : Tracks state old new)
include tracks

theorem notDeleted {docId : UInt64} (inDelta : docId ∈ state.deltaDocs) : docId ∉ state.deletedDocs :=
  Finset.disjoint_left.mp tracks.apart inDelta

theorem new_of_deleted {docId : UInt64} (deleted : docId ∈ state.deletedDocs) : new docId = none := by
  by_contra some_
  exact tracks.notDeleted ((tracks.delta.docs docId).mpr some_) deleted

theorem mem_shadowed {docId : UInt64} : docId ∈ state.shadowedDocs ↔ docId ∈ state.deltaDocs ∨
    docId ∈ state.deletedDocs := by
  rw [tracks.shadowed,Finset.mem_union]

/-- A document is in the delta, deleted, or only in the base. -/
theorem places (docId : UInt64) :
    docId ∈ state.shadowedDocs ∧ docId ∉ state.deletedDocs ∨
    docId ∈ state.shadowedDocs ∧ docId ∈ state.deletedDocs ∧ new docId = none ∨
    docId ∉ state.shadowedDocs ∧ docId ∉ state.deletedDocs ∧ new docId = none := by
  by_cases deleted : docId ∈ state.deletedDocs
  · exact Or.inr (Or.inl ⟨tracks.mem_shadowed.mpr (Or.inr deleted),deleted,tracks.new_of_deleted deleted⟩)
  · by_cases inDelta : docId ∈ state.deltaDocs
    · exact Or.inl ⟨tracks.mem_shadowed.mpr (Or.inl inDelta),deleted⟩
    · refine Or.inr (Or.inr ⟨fun shadowed => (tracks.mem_shadowed.mp shadowed).elim inDelta deleted,deleted,?_⟩)
      by_contra some_
      exact inDelta ((tracks.delta.docs docId).mpr some_)

theorem posting_iff (term : String) (docId : UInt64) :
    docId ∈ state.posting term ↔ ∃ document, state.shown old new docId = some document ∧ term ∈ document.terms := by
  have base := tracks.base.postings term docId
  have delta := tracks.delta.postings term docId
  rw [posting_eq,Finset.mem_sdiff,Finset.mem_union,Finset.mem_sdiff,base,delta]
  unfold shown
  rcases tracks.places docId with ⟨shadowed,alive⟩ | ⟨shadowed,deleted,none_⟩ | ⟨bare,alive,none_⟩
  · simp [shadowed,alive]
  · simp [shadowed,deleted,none_]
  · simp [bare,alive,none_]

theorem liveDocs_iff (docId : UInt64) : docId ∈ state.liveDocs ↔ state.shown old new docId ≠ none := by
  unfold liveDocs shown
  rw [Finset.mem_sdiff,Finset.mem_union,Finset.mem_sdiff,tracks.base.docs,tracks.delta.docs]
  rcases tracks.places docId with ⟨shadowed,alive⟩ | ⟨shadowed,deleted,none_⟩ | ⟨bare,alive,none_⟩
  · simp [shadowed,alive]
  · simp [shadowed,deleted,none_]
  · simp [bare,alive,none_]

end Tracks

section Steps
variable {state : IndexState} {old new : Contents}

theorem tracks_default : Tracks default (fun _ => none) (fun _ => none) := by
  have nothing : Holds ∅ (fun _ => ∅) (fun _ => none) := ⟨by simp,by simp⟩
  exact ⟨nothing,nothing,rfl,Finset.disjoint_empty_left _,Or.inl rfl⟩

theorem Tracks.upsert (tracks : Tracks state old new) (docId : UInt64) (document : AnalyzedDocument)
    (recordWal : Bool) :
    Tracks (state.applyUpsert docId document recordWal) old (Function.update new docId (some document)) := by
  have held := removeFromDelta_holds tracks.delta docId
  obtain ⟨removedPostings,removedDocs,removedTokens,removed⟩ := removeFromDelta_frame state docId
  rw [removed] at held
  unfold applyUpsert
  simp only [removed]
  obtain ⟨postings,next,frame⟩ := addDeltaTerms_frame docId document.terms
    ({state with
      deltaPostings := removedPostings,deltaDocs := insert docId removedDocs,deltaTokens := removedTokens
      shadowedDocs := insert docId state.shadowedDocs,deletedDocs := state.deletedDocs.erase docId},[])
  have docs := addDeltaTerms_docs docId document.terms
    ({state with
      deltaPostings := removedPostings,deltaDocs := insert docId removedDocs,deltaTokens := removedTokens
      shadowedDocs := insert docId state.shadowedDocs,deletedDocs := state.deletedDocs.erase docId},[])
  simp only [frame] at docs ⊢
  refine ⟨tracks.base,⟨fun other => ?_,fun term other => ?_⟩,?_,?_,tracks.lazily⟩
  · rw [Finset.mem_insert,held.docs,Function.update_apply,Function.update_apply]
    split
    · rename_i same
      simp [same]
    · rename_i different
      simp [different]
  · simp only [docs]
    have before := held.postings term other
    rw [Function.update_apply] at before ⊢
    by_cases same : other = docId
    · rw [if_pos same] at before ⊢
      split
      · rename_i member
        simp [same,member]
      · rename_i absent
        simp [before,absent]
    · rw [if_neg same] at before ⊢
      split
      · simpa [same] using before
      · exact before
  · ext other
    simp only [Finset.mem_insert,Finset.mem_union,Finset.mem_erase]
    have here := held.docs other
    have earlier := tracks.delta.docs other
    have shadows : other ∈ state.shadowedDocs ↔ other ∈ state.deltaDocs ∨ other ∈ state.deletedDocs :=
      tracks.mem_shadowed
    rw [Function.update_apply] at here
    by_cases same : other = docId
    · simp [same]
    · rw [if_neg same,← earlier] at here
      simp [same,shadows,here]
  · rw [Finset.disjoint_left]
    intro other
    simp only [Finset.mem_insert,Finset.mem_erase,not_and,held.docs,Function.update_apply]
    intro inDelta different
    rw [if_neg different] at inDelta
    rcases inDelta with same | some_
    · exact absurd same different
    · exact tracks.notDeleted ((tracks.delta.docs other).mpr some_)

theorem Tracks.delete (tracks : Tracks state old new) (docId : UInt64) (recordWal : Bool) :
    Tracks (state.applyDelete docId recordWal) old (Function.update new docId none) := by
  have held := removeFromDelta_holds tracks.delta docId
  obtain ⟨removedPostings,removedDocs,removedTokens,removed⟩ := removeFromDelta_frame state docId
  rw [removed] at held
  unfold applyDelete
  simp only [removed]
  refine ⟨tracks.base,held,?_,?_,tracks.lazily⟩
  · ext other
    simp only [Finset.mem_insert,Finset.mem_union]
    have here := held.docs other
    have earlier := tracks.delta.docs other
    have shadows : other ∈ state.shadowedDocs ↔ other ∈ state.deltaDocs ∨ other ∈ state.deletedDocs :=
      tracks.mem_shadowed
    rw [Function.update_apply] at here
    by_cases same : other = docId
    · simp [same]
    · rw [if_neg same,← earlier] at here
      simp [same,shadows,here]
  · rw [Finset.disjoint_left]
    intro other
    simp only [Finset.mem_insert,held.docs,Function.update_apply]
    split
    · exact fun some_ => absurd rfl some_
    · rename_i different
      intro some_ either
      rcases either with same | deleted
      · exact different same
      · exact tracks.notDeleted ((tracks.delta.docs other).mpr some_) deleted

theorem shown_upsert (docId : UInt64) (document : AnalyzedDocument) (recordWal : Bool) :
    (state.applyUpsert docId document recordWal).shown old (Function.update new docId (some document)) =
      Function.update (state.shown old new) docId (some document) := by
  have shadowed : (state.applyUpsert docId document recordWal).shadowedDocs = insert docId state.shadowedDocs := by
    obtain ⟨removedPostings,removedDocs,removedTokens,removed⟩ := removeFromDelta_frame state docId
    unfold applyUpsert
    simp only [removed]
    obtain ⟨postings,next,frame⟩ := addDeltaTerms_frame docId document.terms
      ({state with
        deltaPostings := removedPostings,deltaDocs := insert docId removedDocs,deltaTokens := removedTokens
        shadowedDocs := insert docId state.shadowedDocs,deletedDocs := state.deletedDocs.erase docId},[])
    rw [frame]
  funext other
  unfold shown
  rw [shadowed,Function.update_apply,Function.update_apply]
  by_cases same : other = docId
  · simp [same]
  · simp [same]

theorem shown_delete (docId : UInt64) (recordWal : Bool) :
    (state.applyDelete docId recordWal).shown old (Function.update new docId none) =
    Function.update (state.shown old new) docId none := by
  have shadowed : (state.applyDelete docId recordWal).shadowedDocs = insert docId state.shadowedDocs := by
    obtain ⟨_,_,_,removed⟩ := removeFromDelta_frame state docId
    unfold applyDelete
    simp only [removed]
  funext other
  unfold shown
  rw [shadowed,Function.update_apply,Function.update_apply]
  by_cases same : other = docId
  · simp [same]
  · simp [same]

theorem mergePosting_docs (base : Postings) (entry : String × Posting) (key : String) :
    docsOf ((mergePosting base entry).lookup key) =
      if key = entry.1 then docsOf (base.lookup key) ∪ entry.2.docs.toRoaring else docsOf (base.lookup key) := by
  unfold mergePosting
  split
  · rename_i posting found
    rw [docsOf_insert]
    split
    · rename_i same
      rw [same,found]
      exact PostingDocs.toRoaring_unionOwned _ _
    · rfl
  · rename_i absent
    rw [docsOf_insert]
    split
    · rename_i same
      rw [same,absent]
      exact (Finset.empty_union _).symm
    · rfl

theorem mergePostings_docs (entries : List (String × Posting)) (base : Postings) (key : String) (docId : UInt64) :
    docId ∈ docsOf ((entries.foldl mergePosting base).lookup key) ↔
      docId ∈ docsOf (base.lookup key) ∨ ∃ entry ∈ entries, entry.1 = key ∧ docId ∈ entry.2.docs.toRoaring := by
  induction entries generalizing base with
  | nil => simp
  | cons entry rest ih =>
    rw [List.foldl_cons,ih,mergePosting_docs]
    simp only [List.mem_cons,exists_eq_or_imp]
    split
    · rename_i same
      rw [Finset.mem_union,or_assoc,same]
      simp
    · rename_i different
      simp [Ne.symm different]

theorem mem_docsOf_entries (postings : Postings) (key : String) (docId : UInt64) :
    (∃ entry ∈ postings.entries.map fun entry => (entry.1,entry.2), entry.1 = key ∧ docId ∈ entry.2.docs.toRoaring) ↔
      docId ∈ docsOf (postings.lookup key) := by
  constructor
  · rintro ⟨entry,member,rfl,inDocs⟩
    obtain ⟨⟨term,posting⟩,there,rfl⟩ := List.mem_map.mp member
    rw [AList.mem_lookup_iff.mpr there]
    exact inDocs
  · intro inDocs
    cases found : postings.lookup key with
    | none =>
      rw [found] at inDocs
      exact absurd inDocs (Finset.notMem_empty _)
    | some posting =>
      rw [found] at inDocs
      exact ⟨(key,posting),List.mem_map.mpr ⟨⟨key,posting⟩,AList.mem_lookup_iff.mp found,rfl⟩,rfl,inDocs⟩

theorem Tracks.basePosting_eq (tracks : Tracks state old new) (term : String) :
    state.basePosting term = (state.mmapPostings.getD state.basePostings).lookup term := by
  rcases tracks.lazily with eager | lazily
  · rw [basePosting_eager eager,eager,Option.getD_none]
  · unfold basePosting
    rw [lazily,AList.lookup_empty]
    cases state.mmapPostings with
    | none => rfl
    | some postings => rfl

theorem Tracks.merge (tracks : Tracks state old new) :
    Tracks state.mergeDelta (state.shown old new) (fun _ => none) := by
  have nothing : Holds ∅ (fun _ => ∅) (fun _ => none) := ⟨by simp,by simp⟩
  refine ⟨⟨fun docId => ?_,fun term docId => ?_⟩,nothing,rfl,Finset.disjoint_empty_left _,Or.inl rfl⟩
  · have live := tracks.liveDocs_iff docId
    have same : state.mergeDelta.baseDocs = state.liveDocs := by
      unfold mergeDelta liveDocs
      simp only
      split
      · rename_i none_
        rw [none_,Finset.sdiff_empty]
      · rfl
    rw [same,live]
  · have subtracted : docsOf ((if state.shadowedDocs = ∅ then state.mmapPostings.getD state.basePostings
        else retain (fun _ posting => !posting.docs.isEmpty)
          (mapValues (fun posting => {posting with docs := posting.docs.subtract state.shadowedDocs})
            (state.mmapPostings.getD state.basePostings))).lookup term) =
              docsOf (state.basePosting term) \ state.shadowedDocs := by
      rw [tracks.basePosting_eq]
      split
      · rename_i none_
        rw [none_,Finset.sdiff_empty]
      · rw [docsOf_retain,docsOf_mapValues (PostingDocs.subtract state.shadowedDocs) _ _ (· \ state.shadowedDocs)
          (Finset.empty_sdiff _)
          (PostingDocs.toRoaring_subtract state.shadowedDocs)]
    have merged : docId ∈ docsOf (state.mergeDelta.basePosting term) ↔
        docId ∈ docsOf (state.basePosting term) \ state.shadowedDocs ∨
        docId ∈ docsOf (state.deltaPostings.lookup term) := by
      have whole := mergePostings_docs (state.deltaPostings.entries.map fun entry => (entry.1,entry.2))
        (if state.shadowedDocs = ∅ then state.mmapPostings.getD state.basePostings
          else retain (fun _ posting => !posting.docs.isEmpty)
            (mapValues (fun posting => {posting with docs := posting.docs.subtract state.shadowedDocs})
              (state.mmapPostings.getD state.basePostings))) term docId
      rw [mem_docsOf_entries,subtracted] at whole
      rw [basePosting_eager rfl]
      exact whole
    have seen := tracks.posting_iff term docId
    have notDeleted : docId ∈ docsOf (state.basePosting term) \ state.shadowedDocs ∨
      docId ∈ docsOf (state.deltaPostings.lookup term) →
        docId ∉ state.deletedDocs := by
      rintro (base | delta) deleted
      · exact (Finset.mem_sdiff.mp base).2 (tracks.mem_shadowed.mpr (Or.inr deleted))
      · obtain ⟨document,some_,_⟩ := (tracks.delta.postings term docId).mp delta
        rw [tracks.new_of_deleted deleted] at some_
        cases some_
    rw [merged,← seen,posting_eq]
    exact ⟨fun either => Finset.mem_sdiff.mpr ⟨Finset.mem_union.mpr either,notDeleted either⟩,
      fun both => Finset.mem_union.mp (Finset.mem_sdiff.mp both).1⟩

end Steps

end IndexState

end ApexBase.Fts
