import ApexBase.Fts.Contents
import ApexBase.Fts.Engine

/-! What an index answers over any run of batches, upserts, deletes, merges and flushes:
the documents whose latest version has the term. -/
namespace ApexBase.Fts
open Library Library.Assoc

def applied (contents : Contents) : WalOp → Contents
  | .upsert docId document => Function.update contents docId (some document)
  | .delete docId => Function.update contents docId none

def overlaid (contents : Contents) (analyzed : List (UInt64 × AnalyzedDocument)) : Contents :=
  analyzed.foldl (fun contents entry => Function.update contents entry.1 (some entry.2)) contents

structure Exact (state : IndexState) (contents : Contents) : Prop where
  posting : ∀ term docId, docId ∈ state.posting term ↔ ∃ document, contents docId = some document ∧
    term ∈ document.terms
  liveDocs : ∀ docId, docId ∈ state.liveDocs ↔ contents docId ≠ none

def AllCompact (postings : Postings) : Prop := ∀ term posting, postings.lookup term = some posting →
    posting.docs.Compact

structure Compacted (state : IndexState) : Prop where
  base : AllCompact state.basePostings
  mapped : ∀ postings, state.mmapPostings = some postings → AllCompact postings
  delta : AllCompact state.deltaPostings

section Compacted
variable {postings : Postings} {state : IndexState}

theorem allCompact_empty : AllCompact ∅ := fun term posting found => by
  rw [AList.lookup_empty] at found
  cases found

theorem AllCompact.insert (compact : AllCompact postings) {posting : Posting} (also : posting.docs.Compact)
    (term : String) :
    AllCompact (postings.insert term posting) := by
  intro key other found
  rcases lookup_of_insert found with ⟨_,same⟩ | ⟨_,before⟩
  · rw [same]
    exact also
  · exact compact key other before

theorem AllCompact.mapDocs (compact : AllCompact postings) {f : PostingDocs → PostingDocs}
    (kept : ∀ docs : PostingDocs, docs.Compact → (f docs).Compact) :
    AllCompact (mapValues (fun posting => {posting with docs := f posting.docs}) postings) := by
  intro term posting found
  rw [lookup_mapValues] at found
  obtain ⟨before,there,rfl⟩ := Option.map_eq_some_iff.mp found
  exact kept _ (compact term before there)

theorem AllCompact.retain (compact : AllCompact postings) (keep : String → Posting → Bool) :
    AllCompact (retain keep postings) :=
  fun term posting found => compact term posting ((lookup_retain keep postings term posting).mp found).1

theorem foldl_keeps {σ α : Type} (P : σ → Prop) {step : σ → α → σ} (kept : ∀ state item, P state → P (step state item))
    (items : List α) {state : σ} (before : P state) : P (items.foldl step state) := by
  induction items generalizing state with
  | nil => exact before
  | cons item rest ih => exact ih (kept state item before)

theorem addBaseTerm_compact (docId : UInt64) (interning : IndexState.Interning) (term : String)
    (compact : AllCompact interning.postings) :
    AllCompact (IndexState.addBaseTerm docId interning term).postings := by
  unfold IndexState.addBaseTerm
  split
  · rename_i posting found
    exact compact.insert ((compact term posting found).insert docId) term
  · refine compact.insert ?_ term
    exact trivial

theorem Compacted.buildBase (compacted : Compacted state) (analyzed : List (UInt64 × AnalyzedDocument)) :
    Compacted (state.buildBase analyzed) := by
  refine ⟨?_,compacted.mapped,compacted.delta⟩
  have start : AllCompact (∅ : Postings) := allCompact_empty
  exact foldl_keeps (fun building : Postings × UInt32 × DocSet × List (UInt64 × List UInt32) => AllCompact building.1)
    (fun building entry before => foldl_keeps (fun interning : IndexState.Interning =>
      AllCompact interning.postings) (addBaseTerm_compact entry.1) entry.2.terms before)
    analyzed start

theorem Compacted.removeFromDelta (compacted : Compacted state) (docId : UInt64) :
    Compacted (state.removeFromDelta docId) := by
  unfold IndexState.removeFromDelta
  split
  · exact compacted
  · exact ⟨compacted.base,compacted.mapped,(compacted.delta.mapDocs fun _ compact => compact.remove docId).retain _⟩

theorem addDeltaTerm_compact (docId : UInt64) (adding : IndexState × List UInt32) (term : String)
    (compacted : Compacted adding.1) :
    Compacted (IndexState.addDeltaTerm docId adding term).1 := by
  unfold IndexState.addDeltaTerm
  simp only
  split
  · rename_i posting found
    exact ⟨compacted.base,compacted.mapped,compacted.delta.insert ((compacted.delta term posting found).insert
      docId) term⟩
  · refine ⟨compacted.base,compacted.mapped,compacted.delta.insert ?_ term⟩
    exact trivial

theorem Compacted.upsert (compacted : Compacted state) (docId : UInt64) (document : AnalyzedDocument)
    (recordWal : Bool) :
    Compacted (state.applyUpsert docId document recordWal) := by
  have removed := compacted.removeFromDelta docId
  have marked : Compacted {state.removeFromDelta docId with
      shadowedDocs := insert docId (state.removeFromDelta docId).shadowedDocs
      deletedDocs := (state.removeFromDelta docId).deletedDocs.erase docId
      deltaDocs := insert docId (state.removeFromDelta docId).deltaDocs} := ⟨removed.base,removed.mapped,removed.delta⟩
  have added := foldl_keeps (fun adding : IndexState × List UInt32 => Compacted adding.1) (addDeltaTerm_compact docId)
    document.terms (show Compacted (_,[]).1 from marked)
  exact ⟨added.base,added.mapped,added.delta⟩

theorem Compacted.delete (compacted : Compacted state) (docId : UInt64) (recordWal : Bool) :
    Compacted (state.applyDelete docId recordWal) :=
  have removed := compacted.removeFromDelta docId
  ⟨removed.base,removed.mapped,removed.delta⟩

theorem mergePosting_compact (postings : Postings) (entry : String × Posting) (compact : AllCompact postings)
    (also : entry.2.docs.Compact) :
    AllCompact (IndexState.mergePosting postings entry) := by
  unfold IndexState.mergePosting
  split
  · rename_i posting found
    exact compact.insert ((compact entry.1 posting found).unionOwned also) entry.1
  · exact compact.insert also entry.1

theorem mergePostings_compact (entries : List (String × Posting)) (also : ∀ entry ∈ entries, entry.2.docs.Compact)
    {base : Postings}
    (compact : AllCompact base) : AllCompact (entries.foldl IndexState.mergePosting base) := by
  induction entries generalizing base with
  | nil => exact compact
  | cons entry rest ih =>
    exact ih (fun other member => also other (List.mem_cons_of_mem _ member))
      (mergePosting_compact base entry compact (also entry List.mem_cons_self))

theorem Compacted.merge (compacted : Compacted state) : Compacted state.mergeDelta := by
  have base : AllCompact (state.mmapPostings.getD state.basePostings) := by
    cases mapped : state.mmapPostings with
    | none => exact compacted.base
    | some postings => exact compacted.mapped postings mapped
  have shadowed : AllCompact (if state.shadowedDocs = ∅ then state.mmapPostings.getD state.basePostings
      else retain (fun _ posting => !posting.docs.isEmpty)
        (mapValues (fun posting => {posting with docs := posting.docs.subtract state.shadowedDocs})
          (state.mmapPostings.getD state.basePostings))) := by
    split
    · exact base
    · exact (base.mapDocs fun _ compact => compact.subtract state.shadowedDocs).retain _
  refine ⟨mergePostings_compact _ (fun entry member => ?_) shadowed,fun postings mapped => ?_,allCompact_empty⟩
  · obtain ⟨⟨term,posting⟩,there,rfl⟩ := List.mem_map.mp member
    exact compacted.delta term posting (AList.mem_lookup_iff.mpr there)
  · cases mapped

end Compacted

def latest (analyzed : List (UInt64 × AnalyzedDocument)) : Contents := overlaid (fun _ => none) analyzed

section Batches
variable {contents : Contents} {analyzed : List (UInt64 × AnalyzedDocument)} {docId : UInt64}

theorem overlaid_cases (contents : Contents) (analyzed : List (UInt64 × AnalyzedDocument)) (docId : UInt64) :
    (∃ entry ∈ analyzed, entry.1 = docId ∧ overlaid contents analyzed docId = some entry.2) ∨
    ((∀ entry ∈ analyzed, entry.1 ≠ docId) ∧ overlaid contents analyzed docId = contents docId) := by
  induction analyzed generalizing contents with
  | nil => exact Or.inr ⟨by simp,rfl⟩
  | cons entry rest ih =>
    rcases ih (Function.update contents entry.1 (some entry.2)) with ⟨later,member,same,found⟩ | ⟨absent,before⟩
    · exact Or.inl ⟨later,List.mem_cons_of_mem _ member,same,found⟩
    · by_cases here : entry.1 = docId
      · refine Or.inl ⟨entry,List.mem_cons_self,here,before.trans ?_⟩
        rw [← here,Function.update_self]
      · refine Or.inr ⟨fun other member => ?_,before.trans (Function.update_of_ne (Ne.symm here) _ _)⟩
        rcases List.mem_cons.mp member with rfl | later
        · exact here
        · exact absent other later

theorem latest_of_mem {entry : UInt64 × AnalyzedDocument} (member : entry ∈ analyzed) :
    ∃ last ∈ analyzed, last.1 = entry.1 ∧ latest analyzed entry.1 = some last.2 := by
  rcases overlaid_cases (fun _ => none) analyzed entry.1 with found | ⟨absent,_⟩
  · exact found
  · exact absurd rfl (absent entry member)

theorem latest_eq_some {document : AnalyzedDocument} (found : latest analyzed docId = some document) :
    (docId,document) ∈ analyzed := by
  rcases overlaid_cases (fun _ => none) analyzed docId with ⟨entry,member,rfl,last⟩ | ⟨_,none_⟩
  · rw [latest,last] at found
    rw [← Option.some.inj found]
    exact member
  · rw [latest,none_] at found
    cases found

end Batches

/-- A batch that may build the base: none of its documents is shadowed, and the last
version of each has all the terms of the earlier ones. -/
def buildable (state : IndexState) (analyzed : List (UInt64 × AnalyzedDocument)) : Bool :=
  analyzed.all fun entry => decide (entry.1 ∉ state.shadowedDocs) &&
    (latest analyzed entry.1).any fun document => entry.2.terms.all fun term => decide (term ∈ document.terms)

theorem buildable_iff {state : IndexState} {analyzed : List (UInt64 × AnalyzedDocument)} :
    buildable state analyzed = true ↔
    ∀ entry ∈ analyzed, entry.1 ∉ state.shadowedDocs ∧
      ∃ document, latest analyzed entry.1 = some document ∧ ∀ term ∈ entry.2.terms, term ∈ document.terms := by
  simp only [buildable,List.all_eq_true,Bool.and_eq_true,decide_eq_true_eq,Option.any_eq_true]

def Shows (state : IndexState) (contents : Contents) : Prop :=
  ∃ old new, IndexState.Tracks state old new ∧ state.shown old new = contents

section Shows
variable {state : IndexState} {contents : Contents}

theorem Shows.exact (shows_ : Shows state contents) : Exact state contents := by
  obtain ⟨old,new,tracks,rfl⟩ := shows_
  exact ⟨tracks.posting_iff,tracks.liveDocs_iff⟩

section
variable (shows_ : Shows state contents)
include shows_

theorem Shows.upsert (docId : UInt64) (document : AnalyzedDocument) (recordWal : Bool) :
    Shows (state.applyUpsert docId document recordWal) (Function.update contents docId (some document)) := by
  obtain ⟨old,new,tracks,rfl⟩ := shows_
  exact ⟨old,_,tracks.upsert docId document recordWal,IndexState.shown_upsert docId document recordWal⟩

theorem Shows.delete (docId : UInt64) (recordWal : Bool) :
    Shows (state.applyDelete docId recordWal) (Function.update contents docId none) := by
  obtain ⟨old,new,tracks,rfl⟩ := shows_
  exact ⟨old,_,tracks.delete docId recordWal,IndexState.shown_delete docId recordWal⟩

theorem Shows.merge : Shows state.mergeDelta contents := by
  obtain ⟨old,new,tracks,rfl⟩ := shows_
  refine ⟨_,_,tracks.merge,?_⟩
  funext docId
  exact if_neg (Finset.notMem_empty docId)

theorem Shows.congr {other : IndexState}
    (same : ∃ tokens delta pending next rebuild, other = {state with
      baseTokens := tokens,deltaTokens := delta,pendingWal := pending,nextTermId := next,needsRebuild := rebuild}) :
        Shows other contents := by
  obtain ⟨old,new,tracks,rfl⟩ := shows_
  obtain ⟨tokens,delta,pending,next,rebuild,rfl⟩ := same
  exact ⟨old,new,⟨tracks.base,tracks.delta,tracks.shadowed,tracks.apart,tracks.lazily⟩,rfl⟩

theorem Shows.upsertAll (recordWal : Bool) (analyzed : List (UInt64 × AnalyzedDocument)) :
    Shows (Engine.upsertAll recordWal analyzed state) (overlaid contents analyzed) := by
  unfold Engine.upsertAll overlaid
  induction analyzed generalizing state contents with
  | nil => exact shows_
  | cons entry rest ih => exact ih (shows_.upsert entry.1 entry.2 recordWal)

theorem Shows.deleteAll (recordWal : Bool) (docIds : List UInt64) :
    Shows (docIds.foldl (fun state docId => state.applyDelete docId recordWal) state)
      (docIds.foldl (fun contents docId => Function.update contents docId none) contents) := by
  induction docIds generalizing state contents with
  | nil => exact shows_
  | cons docId rest ih => exact ih (shows_.delete docId recordWal)

theorem Shows.replay (wal : List WalOp) : Shows (wal.foldl .replay state) (wal.foldl applied contents) := by
  induction wal generalizing state contents with
  | nil => exact shows_
  | cons op rest ih =>
    refine ih ?_
    cases op with
    | upsert docId document => exact shows_.upsert docId document false
    | delete docId => exact shows_.delete docId false

end

theorem canBuildBase_fields (can : state.canBuildBase = true) :
    state.baseDocs = ∅ ∧ state.mmapPostings = none ∧ state.deltaDocs = ∅ := by
  simp only [IndexState.canBuildBase,Bool.and_eq_true,decide_eq_true_eq,Option.isNone_iff_eq_none] at can
  obtain ⟨⟨⟨⟨⟨⟨⟨_,docs⟩,mapped⟩,_⟩,_⟩,delta⟩,_⟩,_⟩ := can
  exact ⟨docs,mapped,delta⟩

theorem Shows.nothing (shows_ : Shows state contents) (can : state.canBuildBase = true) : contents = fun _ => none := by
  obtain ⟨baseDocs,_,deltaDocs⟩ := canBuildBase_fields can
  funext docId
  have live := shows_.exact.liveDocs docId
  rw [IndexState.liveDocs,baseDocs,deltaDocs] at live
  by_contra some_
  have member := live.mpr some_
  simp at member

variable {old new : Contents} {analyzed : List (UInt64 × AnalyzedDocument)}

theorem buildBase_fields (can : state.canBuildBase = true) (analyzed : List (UInt64 × AnalyzedDocument)) :
    (∀ term docId, docId ∈ IndexState.docsOf ((state.buildBase analyzed).basePosting term) ↔
      ∃ entry ∈ analyzed, entry.1 = docId ∧ term ∈ entry.2.terms) ∧
    ∀ docId, docId ∈ (state.buildBase analyzed).baseDocs ↔ ∃ entry ∈ analyzed, entry.1 = docId := by
  obtain ⟨baseDocs,mapped,_⟩ := canBuildBase_fields can
  obtain ⟨postings,docs⟩ := IndexState.addBaseDocuments_docs analyzed (∅,state.nextTermId,state.baseDocs,[])
  constructor
  · intro term docId
    have eager : (state.buildBase analyzed).mmapPostings = none := mapped
    rw [IndexState.basePosting_eager eager]
    refine (postings term docId).trans (or_iff_right ?_)
    rw [AList.lookup_empty]
    exact Finset.notMem_empty docId
  · intro docId
    refine (docs docId).trans (or_iff_right ?_)
    rw [baseDocs]
    exact Finset.notMem_empty docId

theorem tracks_nothing (tracks : IndexState.Tracks state old new) (can : state.canBuildBase = true) :
    state.deletedDocs = state.shadowedDocs ∧ new = fun _ => none := by
  obtain ⟨_,_,deltaDocs⟩ := canBuildBase_fields can
  constructor
  · rw [tracks.shadowed,deltaDocs,Finset.empty_union]
  · funext docId
    by_contra some_
    have member := (tracks.delta.docs docId).mpr some_
    rw [deltaDocs] at member
    exact Finset.notMem_empty docId member

theorem tracks_build (tracks : IndexState.Tracks state old new) (can : state.canBuildBase = true)
    (allowed : buildable state analyzed = true) :
    IndexState.Tracks (state.buildBase analyzed) (latest analyzed) new ∧
      (state.buildBase analyzed).shown (latest analyzed) new = latest analyzed := by
  obtain ⟨postings,docs⟩ := buildBase_fields can analyzed
  obtain ⟨deleted,nothing⟩ := tracks_nothing tracks can
  have fits := buildable_iff.mp allowed
  refine ⟨⟨⟨fun docId => ?_,fun term docId => ?_⟩,tracks.delta,tracks.shadowed,tracks.apart,Or.inl ?_⟩,?_⟩
  · rw [docs]
    constructor
    · rintro ⟨entry,member,rfl⟩
      obtain ⟨_,_,_,last⟩ := latest_of_mem member
      rw [last]
      exact Option.some_ne_none _
    · intro some_
      obtain ⟨document,found⟩ := Option.ne_none_iff_exists'.mp some_
      exact ⟨_,latest_eq_some found,rfl⟩
  · rw [postings]
    constructor
    · rintro ⟨entry,member,rfl,has⟩
      obtain ⟨_,document,last,covers⟩ := fits entry member
      exact ⟨document,last,covers term has⟩
    · rintro ⟨document,last,has⟩
      exact ⟨_,latest_eq_some last,rfl,has⟩
  · exact (canBuildBase_fields can).2.1
  · funext docId
    change (if docId ∈ state.shadowedDocs then new docId else latest analyzed docId) = latest analyzed docId
    split
    · rename_i hidden
      rw [nothing]
      by_contra some_
      obtain ⟨document,found⟩ := Option.ne_none_iff_exists'.mp (Ne.symm some_)
      exact (fits _ (latest_eq_some found)).1 hidden
    · rfl

theorem Shows.build (shows_ : Shows state contents) (can : state.canBuildBase = true)
    (allowed : buildable state analyzed = true) :
    Shows (state.buildBase analyzed) (overlaid contents analyzed) := by
  rw [shows_.nothing can]
  obtain ⟨old,new,tracks,_⟩ := shows_
  obtain ⟨built,shown⟩ := tracks_build tracks can allowed
  exact ⟨latest analyzed,new,built,shown⟩

theorem buildable_of_exact (shows_ : Shows state contents) (can : state.canBuildBase = true)
    (exact_ : Exact (state.buildBase analyzed) (overlaid contents analyzed)) : buildable state analyzed = true := by
  rw [shows_.nothing can] at exact_
  obtain ⟨old,new,tracks,_⟩ := shows_
  obtain ⟨postings,_⟩ := buildBase_fields can analyzed
  obtain ⟨deleted,_⟩ := tracks_nothing tracks can
  obtain ⟨_,_,deltaDocs⟩ := canBuildBase_fields can
  have visible : ∀ entry ∈ analyzed, entry.1 ∉ state.shadowedDocs := by
    intro entry member hidden
    obtain ⟨_,_,_,last⟩ := latest_of_mem member
    have live : entry.1 ∈ (state.buildBase analyzed).liveDocs := by
      rw [exact_.liveDocs]
      exact Option.ne_none_iff_exists'.mpr ⟨_,last⟩
    have gone : entry.1 ∈ (state.buildBase analyzed).deletedDocs := deleted ▸ hidden
    exact (Finset.mem_sdiff.mp live).2 gone
  refine buildable_iff.mpr fun entry member => ⟨visible entry member,?_⟩
  obtain ⟨last,_,_,found⟩ := latest_of_mem member
  refine ⟨last.2,found,fun term has => ?_⟩
  have posted : entry.1 ∈ (state.buildBase analyzed).posting term := by
    rw [IndexState.posting_eq,Finset.mem_sdiff,Finset.mem_union,Finset.mem_sdiff,postings]
    have notDeleted : entry.1 ∉ (state.buildBase analyzed).deletedDocs :=
      fun gone => visible entry member (deleted ▸ gone)
    exact ⟨Or.inl ⟨⟨entry,member,rfl,has⟩,visible entry member⟩,notDeleted⟩
  obtain ⟨document,same,among⟩ := (exact_.posting term entry.1).mp posted
  have same : latest analyzed entry.1 = some document := same
  rw [found] at same
  rw [Option.some.inj same]
  exact among

end Shows

end ApexBase.Fts
