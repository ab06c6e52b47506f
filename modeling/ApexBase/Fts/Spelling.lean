import ApexBase.Fts.TermIds
import ApexBase.Library.Greatest

/-! What each operation does to the ids and to the token lists spelled with them. -/
namespace ApexBase.Fts
open Library Library.Assoc
open IndexState (idOf)

section Delta
variable {state : IndexState} {old new : Contents}

theorem idOf_removed (state : IndexState) (docId : UInt64) {term : String} {id : UInt32}
    (found : idOf ((state.removeFromDelta docId).deltaPostings.lookup term) = some id) :
    idOf (state.deltaPostings.lookup term) = some id := by
  unfold IndexState.removeFromDelta at found
  split at found
  · exact found
  · exact IndexState.idOf_retain (f := PostingDocs.remove docId) found

theorem basePosting_removed (state : IndexState) (docId : UInt64) (term : String) :
    (state.removeFromDelta docId).basePosting term = state.basePosting term := by
  obtain ⟨_,_,_,removed⟩ := IndexState.removeFromDelta_frame state docId
  rw [removed]
  rfl

theorem spell_subset {f g : String → Option UInt32} {document : AnalyzedDocument}
    (subset : ∀ term id, g term = some id → f term = some id)
    (known : ∀ term ∈ document.terms, ∃ id, g term = some id) : spell f document = spell g document := by
  refine spell_congr fun term member => ?_
  obtain ⟨id,found⟩ := known term member
  rw [found,subset term id found]

theorem Spelled.termId_removed (spelled : Spelled state old new) (docId : UInt64) {term : String} {id : UInt32}
    (found : (state.removeFromDelta docId).termId term = some id) : state.termId term = some id := by
  rw [IndexState.termId_eq,basePosting_removed] at found
  rcases Option.or_eq_some_iff.mp found with delta | ⟨_,base⟩
  · rw [IndexState.termId_eq,idOf_removed state docId delta]
    rfl
  · exact spelled.agree term id base

theorem Spelled.removed (spelled : Spelled state old new) (tracks : IndexState.Tracks state old new) (docId : UInt64) :
    Spelled (state.removeFromDelta docId) old (Function.update new docId none) := by
  have held := IndexState.removeFromDelta_holds tracks.delta docId
  have frame := IndexState.removeFromDelta_frame state docId
  refine ⟨?_,fun term id base => ?_,?_,fun other => ?_⟩
  · have next : (state.removeFromDelta docId).nextTermId = state.nextTermId := by
      obtain ⟨_,_,_,removed⟩ := frame
      rw [removed]
    rw [next]
    exact spelled.interns.mono fun term id => spelled.termId_removed docId
  · rw [basePosting_removed] at base
    rw [IndexState.termId_eq,basePosting_removed,base]
    cases delta : idOf ((state.removeFromDelta docId).deltaPostings.lookup term) with
    | none => rfl
    | some other =>
      have here := spelled.agree term id base
      rw [IndexState.termId_eq,idOf_removed state docId delta] at here
      exact here
  · have tokens : (state.removeFromDelta docId).baseTokens = state.baseTokens := by
      obtain ⟨_,_,_,removed⟩ := frame
      rw [removed]
    simp only [basePosting_removed,tokens]
    exact spelled.recorded
  · have known : ∀ document, Function.update new docId none other = some document → ∀ term ∈ document.terms,
        ∃ id, (state.removeFromDelta docId).termId term = some id := by
      intro document here term member
      obtain ⟨id,found⟩ := IndexState.idOf_of_docs ((held.postings term other).mpr ⟨document,here,member⟩)
      rw [IndexState.termId_eq,found]
      exact ⟨id,rfl⟩
    have tokens : (state.removeFromDelta docId).deltaTokens.lookup other = if other = docId then none
      else state.deltaTokens.lookup other := by
      unfold IndexState.removeFromDelta
      split
      · rename_i absent
        split
        · rename_i same
          rw [same,spelled.delta]
          cases there : new docId with
          | none => rfl
          | some document => exact absurd ((tracks.delta.docs docId).mpr (there ▸ Option.some_ne_none document)) absent
        · rfl
      · exact lookup_erase_eq _ _ _
    rw [tokens]
    by_cases same : other = docId
    · rw [if_pos same,same,Function.update_self]
      rfl
    · rw [Function.update_of_ne same] at known ⊢
      rw [if_neg same,spelled.delta]
      cases here : new other with
      | none => rfl
      | some document =>
        rw [Option.map_some,Option.map_some,spell_subset (fun term id => spelled.termId_removed docId)
          (known document here)]

def fitsUpsert (state : IndexState) (docId : UInt64) (document : AnalyzedDocument) : Bool :=
  decide (Room (state.removeFromDelta docId).termId state.nextTermId document.terms)

def marked (state : IndexState) (docId : UInt64) : IndexState :=
  {state.removeFromDelta docId with
    shadowedDocs := insert docId (state.removeFromDelta docId).shadowedDocs
    deletedDocs := (state.removeFromDelta docId).deletedDocs.erase docId
    deltaDocs := insert docId (state.removeFromDelta docId).deltaDocs}

theorem applyUpsert_eq (state : IndexState) (docId : UInt64) (document : AnalyzedDocument) (recordWal : Bool) :
    ∃ pending, state.applyUpsert docId document recordWal =
      {(document.terms.foldl (IndexState.addDeltaTerm docId) (marked state docId,[])).1 with
        deltaTokens := (state.removeFromDelta docId).deltaTokens.insert docId
          (IndexState.globalTokens (document.terms.foldl (IndexState.addDeltaTerm docId) (marked state docId,[])).2
            document.tokens)
        pendingWal := pending} := by
  have tokens : (document.terms.foldl (IndexState.addDeltaTerm docId) (marked state docId,[])).1.deltaTokens =
      (state.removeFromDelta docId).deltaTokens := by
    obtain ⟨_,_,frame⟩ := IndexState.addDeltaTerms_frame docId document.terms (marked state docId,[])
    rw [frame]
    rfl
  rw [← tokens]
  exact ⟨_,rfl⟩

theorem Spelled.upsert (spelled : Spelled state old new) (tracks : IndexState.Tracks state old new) {docId : UInt64}
    {document : AnalyzedDocument} (fits : fitsUpsert state docId document = true) (recordWal : Bool) :
    Spelled (state.applyUpsert docId document recordWal) old (Function.update new docId (some document)) := by
  have removed := spelled.removed tracks docId
  have held := IndexState.removeFromDelta_holds tracks.delta docId
  have room : Room (marked state docId).termId (marked state docId).nextTermId (document.terms ++ []) := by
    obtain ⟨_,_,_,same⟩ := IndexState.removeFromDelta_frame state docId
    have next : (marked state docId).nextTermId = state.nextTermId := by
      unfold marked
      rw [same]
    rw [next,List.append_nil]
    exact of_decide_eq_true fits
  obtain ⟨termIds,kept,_,_,interns,_⟩ := foldl_interned (fun adding : IndexState × List UInt32 =>
    adding.1.termId) (fun adding => adding.1.nextTermId)
    (fun adding => adding.2) (fun _ => True) (fun adding term rest _ room =>
      ⟨trivial,addDeltaTerm_interned docId adding term rest room⟩)
    document.terms [] (marked state docId,[]) trivial removed.interns room
  obtain ⟨pending,upserted⟩ := applyUpsert_eq state docId document recordWal
  obtain ⟨postings,next,frame⟩ := IndexState.addDeltaTerms_frame docId document.terms (marked state docId,[])
  have base : ∀ term, (document.terms.foldl (IndexState.addDeltaTerm docId) (marked state docId,
    [])).1.basePosting term =
      (state.removeFromDelta docId).basePosting term := by
    intro term
    rw [frame]
    rfl
  have tokens : (document.terms.foldl (IndexState.addDeltaTerm docId) (marked state docId,[])).1.baseTokens =
      (state.removeFromDelta docId).baseTokens := by
    rw [frame]
    rfl
  rw [upserted]
  generalize document.terms.foldl (IndexState.addDeltaTerm docId) (marked state docId,[]) = added at *
  have kept : ∀ term id, (state.removeFromDelta docId).termId term = some id → added.1.termId term = some id := kept
  refine ⟨interns,fun term id found => ?_,?_,fun other => ?_⟩
  · have found : idOf ((state.removeFromDelta docId).basePosting term) = some id := base term ▸ found
    exact kept term id (removed.agree term id found)
  · have same : (fun term => idOf (added.1.basePosting term)) = fun term =>
      idOf ((state.removeFromDelta docId).basePosting term) := by
      funext term
      rw [base]
    change Recorded (fun term => idOf (added.1.basePosting term)) added.1.baseTokens old
    rw [same,tokens]
    exact removed.recorded
  · change ((state.removeFromDelta docId).deltaTokens.insert docId _).lookup other = _
    rw [lookup_insert_eq]
    by_cases same : other = docId
    · rw [if_pos same,same,Function.update_self,termIds]
      rfl
    · rw [if_neg same,removed.delta,Function.update_of_ne same,Function.update_of_ne same]
      have known : ∀ document, new other = some document → ∀ term ∈ document.terms,
          ∃ id, (state.removeFromDelta docId).termId term = some id := by
        intro document here term member
        have posted := (held.postings term other).mpr ⟨document,(Function.update_of_ne same _ _).trans here,member⟩
        obtain ⟨id,found⟩ := IndexState.idOf_of_docs posted
        rw [IndexState.termId_eq,found]
        exact ⟨id,rfl⟩
      cases here : new other with
      | none => rfl
      | some document =>
        rw [Option.map_some,Option.map_some]
        exact congrArg some (spell_subset kept (known document here)).symm

theorem Spelled.delete (spelled : Spelled state old new) (tracks : IndexState.Tracks state old new) (docId : UInt64)
    (recordWal : Bool) :
    Spelled (state.applyDelete docId recordWal) old (Function.update new docId none) := by
  have removed := spelled.removed tracks docId
  exact ⟨removed.interns,removed.agree,removed.recorded,removed.delta⟩

end Delta

section Merge
variable {state : IndexState} {old new contents : Contents}

theorem idOf_mergePosting {base : Postings} {entry : String × Posting} {term : String} {id : UInt32}
    (found : idOf ((IndexState.mergePosting base entry).lookup term) = some id) :
    idOf (base.lookup term) = some id ∨ entry.1 = term ∧ entry.2.termId = id := by
  unfold IndexState.mergePosting at found
  split at found
  · rename_i posting there
    rw [IndexState.idOf_insert] at found
    split at found
    · rename_i same
      rw [same,there]
      exact Or.inl found
    · exact Or.inl found
  · rw [IndexState.idOf_insert] at found
    split at found
    · rename_i same
      exact Or.inr ⟨same.symm,Option.some.inj found⟩
    · exact Or.inl found

theorem idOf_mergePostings (entries : List (String × Posting)) {base : Postings} {term : String} {id : UInt32}
    (found : idOf ((entries.foldl IndexState.mergePosting base).lookup term) = some id) :
    idOf (base.lookup term) = some id ∨ ∃ entry ∈ entries, entry.1 = term ∧ entry.2.termId = id := by
  induction entries generalizing base with
  | nil => exact Or.inl found
  | cons entry rest ih =>
    rcases ih found with merged | ⟨later,member,there⟩
    · rcases idOf_mergePosting merged with before | here
      · exact Or.inl before
      · exact Or.inr ⟨entry,List.mem_cons_self,here⟩
    · exact Or.inr ⟨later,List.mem_cons_of_mem _ member,there⟩

theorem Spelled.termId_merged (spelled : Spelled state old new) (tracks : IndexState.Tracks state old new)
    {term : String} {id : UInt32}
    (found : idOf (state.mergeDelta.basePosting term) = some id) : state.termId term = some id := by
  rw [IndexState.basePosting_eager rfl] at found
  rcases idOf_mergePostings _ found with base | ⟨entry,member,rfl,rfl⟩
  · refine spelled.agree term id ?_
    rw [tracks.basePosting_eq]
    split at base
    · exact base
    · exact IndexState.idOf_retain (f := PostingDocs.subtract state.shadowedDocs) base
  · obtain ⟨⟨term,posting⟩,there,rfl⟩ := List.mem_map.mp member
    rw [IndexState.termId_eq,AList.mem_lookup_iff.mpr there]
    rfl

theorem termId_of_base (state : IndexState) (delta : state.deltaPostings = ∅) (term : String) :
    state.termId term = idOf (state.basePosting term) := by
  rw [IndexState.termId_eq,delta,AList.lookup_empty]
  rfl

theorem Spelled.merge (spelled : Spelled state old new) (tracks : IndexState.Tracks state old new) :
    Spelled state.mergeDelta (state.shown old new) fun _ => none := by
  have merged := tracks.merge
  have ids := termId_of_base state.mergeDelta rfl
  have subset : ∀ term id, idOf (state.mergeDelta.basePosting term) = some id → state.termId term = some id :=
    fun term id => spelled.termId_merged tracks
  -- every document that is shown stands in the merged postings of its terms
  have known : ∀ docId document, state.shown old new docId = some document → ∀ term ∈ document.terms,
      ∃ id, idOf (state.mergeDelta.basePosting term) = some id := fun docId document here term member =>
    IndexState.idOf_of_docs ((merged.base.postings term docId).mpr ⟨document,here,member⟩)
  refine ⟨?_,fun term id found => (ids term).trans found,recorded_fromRecords (fun record member =>
    ?_) fun docId document here => ?_,fun _ => rfl⟩
  · refine spelled.interns.mono fun term id found => ?_
    rw [ids] at found
    exact subset term id found
  · rcases List.mem_append.mp member with kept | fresh
    · obtain ⟨there,visible⟩ := List.mem_filter.mp kept
      obtain ⟨notShadowed,_⟩ := of_decide_eq_true visible
      obtain ⟨document,found,tokens⟩ := spelled.recorded.spelled record there
      have here : state.shown old new record.1 = some document := (if_neg notShadowed).trans found
      refine ⟨document,here,?_⟩
      rw [tokens,← spell_subset subset (known _ document here)]
      refine (spell_subset spelled.agree fun term member => ?_).symm
      exact IndexState.idOf_of_docs ((tracks.base.postings term record.1).mpr ⟨document,found,member⟩)
    · obtain ⟨there,_⟩ := List.mem_filter.mp fresh
      obtain ⟨⟨docId,tokens⟩,entry,rfl⟩ := List.mem_map.mp there
      have looked := spelled.delta docId
      rw [AList.mem_lookup_iff.mpr entry] at looked
      obtain ⟨document,found,same⟩ := Option.map_eq_some_iff.mp looked.symm
      have inDelta := (tracks.delta.docs docId).mpr (found ▸ Option.some_ne_none document)
      have here : state.shown old new docId = some document :=
        (if_pos (tracks.mem_shadowed.mpr (Or.inl inDelta))).trans found
      refine ⟨document,here,?_⟩
      rw [← same]
      exact spell_subset subset (known docId document here)
  · by_cases shadowed : docId ∈ state.shadowedDocs
    · have found : new docId = some document := (if_pos shadowed).symm.trans here
      have looked := spelled.delta docId
      rw [found,Option.map_some] at looked
      have notDeleted : docId ∉ state.deletedDocs := by
        intro deleted
        rw [tracks.new_of_deleted deleted] at found
        cases found
      refine ⟨spell state.termId document,List.mem_append_right _ (List.mem_filter.mpr ⟨?_,decide_eq_true notDeleted⟩)⟩
      exact List.mem_map.mpr ⟨⟨docId,spell state.termId document⟩,AList.mem_lookup_iff.mp looked,rfl⟩
    · have found : old docId = some document := (if_neg shadowed).symm.trans here
      obtain ⟨list,member⟩ := spelled.recorded.complete docId document found
      have notDeleted : docId ∉ state.deletedDocs := fun deleted => shadowed (tracks.mem_shadowed.mpr (Or.inr deleted))
      exact ⟨list,List.mem_append_left _ (List.mem_filter.mpr ⟨member,decide_eq_true ⟨shadowed,notDeleted⟩⟩)⟩

structure Filed (snapshot : IndexState.Snapshot) (saved : Contents) : Prop where
  interns : ∃ next, Interns (fun term => idOf (snapshot.postings.lookup term)) next
  recorded : Recorded (fun term => idOf (snapshot.postings.lookup term)) snapshot.tokens saved

theorem Recorded.subset {f g : String → Option UInt32} {tokens : PackedDocTokens} {old : Contents}
    (recorded : Recorded f tokens old) (subset : ∀ term id, g term = some id → f term = some id)
    (known : ∀ docId document, old docId = some document → ∀ term ∈ document.terms, ∃ id, g term = some id) :
    Recorded g tokens old := by
  refine ⟨recorded.sorted,fun record member => ?_,recorded.complete⟩
  obtain ⟨document,here,tokens_⟩ := recorded.spelled record member
  exact ⟨document,here,tokens_.trans (spell_subset subset (known _ document here))⟩

theorem idOf_snapshot {state : IndexState} {term : String} {id : UInt32} (eager : state.mmapPostings = none)
    (found : idOf (state.snapshot.postings.lookup term) = some id) : idOf (state.basePosting term) = some id := by
  obtain ⟨posting,kept,rfl⟩ := Option.map_eq_some_iff.mp found
  rw [IndexState.basePosting_eager eager,((lookup_retain _ _ term posting).mp kept).1]
  rfl

theorem Spelled.filed (spelled : Spelled state contents fun _ => none) (eager : state.mmapPostings = none)
    (holds : Holds state.snapshot.docs (fun term => IndexState.docsOf (state.snapshot.postings.lookup term)) contents) :
    Filed state.snapshot contents := by
  have subset : ∀ term id, idOf (state.snapshot.postings.lookup term) = some id →
    idOf (state.basePosting term) = some id :=
    fun term id => idOf_snapshot eager
  refine ⟨⟨state.nextTermId,spelled.interns.mono fun term id found => spelled.agree term id (subset term id found)⟩,
    spelled.recorded.subset subset fun docId document here term member => ?_⟩
  exact IndexState.idOf_of_docs ((holds.postings term docId).mpr ⟨document,here,member⟩)

theorem mem_termIds {postings : Postings} {id : UInt32} :
    id ∈ (values postings).map (·.termId) ↔ ∃ term, idOf (postings.lookup term) = some id := by
  rw [List.mem_map]
  constructor
  · rintro ⟨posting,member,rfl⟩
    obtain ⟨term,found⟩ := (mem_values postings posting).mp member
    exact ⟨term,by rw [found]; rfl⟩
  · rintro ⟨term,found⟩
    obtain ⟨posting,there,same⟩ := Option.map_eq_some_iff.mp found
    exact ⟨posting,(mem_values postings posting).mpr ⟨term,there⟩,same⟩

theorem le_maxTermId {postings : Postings} {term : String} {id : UInt32}
    (found : idOf (postings.lookup term) = some id) :
    id.toNat ≤ (IndexState.maxTermId postings).toNat :=
  UInt32.le_iff_toNat_le.mp ((le_foldl_max _ 0).2 id (mem_termIds.mpr ⟨term,found⟩))

theorem maxTermId_cases (postings : Postings) :
    IndexState.maxTermId postings = 0 ∨ ∃ term, idOf (postings.lookup term) = some (IndexState.maxTermId postings) :=
  (foldl_max_cases _ 0).imp id mem_termIds.mp

theorem Filed.load {snapshot : IndexState.Snapshot} (filed : Filed snapshot contents) (lazyLoad : Bool) :
    Spelled (.loadSnapshot snapshot lazyLoad) contents fun _ => none := by
  have base := basePosting_load snapshot lazyLoad
  have ids : ∀ term, (IndexState.loadSnapshot snapshot lazyLoad).termId term =
    idOf (snapshot.postings.lookup term) := by
    intro term
    rw [termId_of_base (.loadSnapshot snapshot lazyLoad) rfl,base]
  obtain ⟨next,interns⟩ := filed.interns
  refine ⟨⟨fun term other a here there => ?_,fun term a here => ?_,fun term a here => ?_⟩,fun term id found => ?_,?_,
    fun _ => rfl⟩
  · rw [ids] at here there
    exact interns.apart term other a here there
  · rw [ids] at here
    exact interns.positive term a here
  · rw [ids] at here
    have least := le_maxTermId here
    have room : (IndexState.maxTermId snapshot.postings).toNat < 2^32 - 1 := by
      rcases maxTermId_cases snapshot.postings with zero | ⟨greatest,found⟩
      · rw [zero]
        decide
      · have below := interns.below greatest _ found
        have last := next.toNat_lt
        omega
    change a.toNat < (max (IndexState.saturatingSucc (IndexState.maxTermId snapshot.postings)) 1).toNat
    rw [toNat_max_one,toNat_saturatingSucc room]
    omega
  · rw [ids,← base]
    exact found
  · simp only [base]
    exact recorded_fromRecords filed.recorded.spelled filed.recorded.complete

theorem Filed.publish (spelled : Spelled state contents fun _ => none) (delta : state.deltaPostings = ∅)
    (eager : state.mmapPostings = none)
    (filed : Filed state.snapshot contents) : Spelled (state.publish state.snapshot) contents fun _ => none := by
  have base : ∀ term, (state.publish state.snapshot).basePosting term = state.snapshot.postings.lookup term :=
    basePosting_mapped rfl rfl
  have ids := termId_of_base (state.publish state.snapshot) delta
  refine ⟨?_,fun term id found => (ids term).trans found,?_,spelled.delta⟩
  · refine spelled.interns.mono fun term id found => ?_
    rw [ids,base] at found
    exact spelled.agree term id (idOf_snapshot eager found)
  · simp only [base]
    exact filed.recorded

end Merge

section Build
variable {state : IndexState} {old new : Contents}

theorem addBaseTerm_interned (docId : UInt64) (interning : IndexState.Interning) (term : String) (rest : List String)
    (started : 1 ≤ interning.nextTermId.toNat)
    (room : Room (fun term => idOf (interning.postings.lookup term)) interning.nextTermId (term :: rest)) :
    1 ≤ (IndexState.addBaseTerm docId interning term).nextTermId.toNat ∧
    ∃ id, (IndexState.addBaseTerm docId interning term).termIds = interning.termIds ++ [id] ∧
      Interned (fun term => idOf (interning.postings.lookup term))
        (fun other => idOf ((IndexState.addBaseTerm docId interning term).postings.lookup other)) interning.nextTermId
        (IndexState.addBaseTerm docId interning term).nextTermId term id := by
  unfold IndexState.addBaseTerm
  split
  · rename_i posting found
    refine ⟨started,posting.termId,rfl,fun other => IndexState.idOf_insert _ _ _ _,Or.inl ⟨?_,rfl⟩⟩
    rw [found]
    rfl
  · rename_i absent
    have unknown : idOf (interning.postings.lookup term) = none := by
      rw [absent]
      rfl
    have one := room.one unknown
    have succ := toNat_saturatingSucc (show interning.nextTermId.toNat < 2^32 - 1 by omega)
    refine ⟨by simp only; omega,_,rfl,fun other => IndexState.idOf_insert _ _ _ _,Or.inr ⟨unknown,rfl,?_⟩⟩
    simp only
    omega

structure Building (building : Postings × UInt32 × DocSet × List (UInt64 × List UInt32)) (rest : List String) :
    Prop where
  started : rest ≠ [] → 1 ≤ building.2.1.toNat
  interns : Interns (fun term => idOf (building.1.lookup term)) building.2.1
  room : Room (fun term => idOf (building.1.lookup term)) building.2.1 rest

theorem addBaseDocument_building {building : Postings × UInt32 × DocSet × List (UInt64 × List UInt32)}
    {entry : UInt64 × AnalyzedDocument} {rest : List String} (before : Building building (entry.2.terms ++ rest)) :
    Building (IndexState.addBaseDocument building entry) rest ∧
    (∀ term id, idOf (building.1.lookup term) = some id →
      idOf ((IndexState.addBaseDocument building entry).1.lookup term) = some id) ∧
    (∀ term ∈ entry.2.terms, ∃ id, idOf ((IndexState.addBaseDocument building entry).1.lookup term) = some id) ∧
    (IndexState.addBaseDocument building entry).2.2.2 = building.2.2.2 ++
      [(entry.1,spell (fun term => idOf ((IndexState.addBaseDocument building entry).1.lookup term)) entry.2)] := by
  cases terms : entry.2.terms with
  | nil =>
    rw [terms] at before
    have same : (IndexState.addBaseDocument building entry).1 = building.1 ∧
        (IndexState.addBaseDocument building entry).2.1 = building.2.1 := by
      unfold IndexState.addBaseDocument
      rw [terms]
      exact ⟨rfl,rfl⟩
    refine ⟨⟨?_,?_,?_⟩,fun _ _ found => same.1.symm ▸ found,nofun,?_⟩
    · rw [same.2]
      exact before.started
    · rw [same.1,same.2]
      exact before.interns
    · rw [same.1,same.2]
      exact before.room
    · unfold IndexState.addBaseDocument spell
      rw [terms]
      rfl
  | cons first more =>
    rw [← terms]
    have started : 1 ≤ building.2.1.toNat := before.started (by simp [terms])
    obtain ⟨termIds,kept,known,started,interns,room⟩ := foldl_interned
      (fun interning : IndexState.Interning => fun term => idOf (interning.postings.lookup term)) (·.nextTermId)
        (·.termIds)
      (fun interning => 1 ≤ interning.nextTermId.toNat) (addBaseTerm_interned entry.1) entry.2.terms rest ⟨building.1,
        building.2.1,[]⟩
      started before.interns before.room
    refine ⟨⟨fun _ => started,interns,room⟩,kept,known,?_⟩
    unfold IndexState.addBaseDocument spell
    simp only
    rw [termIds]
    rfl

theorem addBaseDocuments_building (analyzed : List (UInt64 × AnalyzedDocument))
    {building : Postings × UInt32 × DocSet × List (UInt64 × List UInt32)}
    (before : Building building (analyzed.flatMap fun entry => entry.2.terms)) :
    Building (analyzed.foldl IndexState.addBaseDocument building) [] ∧
    (∀ term id, idOf (building.1.lookup term) = some id →
      idOf ((analyzed.foldl IndexState.addBaseDocument building).1.lookup term) = some id) ∧
    (analyzed.foldl IndexState.addBaseDocument building).2.2.2 = building.2.2.2 ++ analyzed.map fun entry =>
      (entry.1,spell (fun term => idOf ((analyzed.foldl IndexState.addBaseDocument building).1.lookup term))
        entry.2) := by
  induction analyzed generalizing building with
  | nil => exact ⟨before,fun _ _ found => found,(List.append_nil _).symm⟩
  | cons entry rest ih =>
    obtain ⟨one,kept,known,record⟩ := addBaseDocument_building (show Building building (entry.2.terms ++ _) from before)
    obtain ⟨final,later,records⟩ := ih one
    refine ⟨final,fun term id found => later term id (kept term id found),?_⟩
    rw [List.foldl_cons,records,record,List.map_cons,List.append_assoc,spell_subset later known]
    rfl

def sameVersions (analyzed : List (UInt64 × AnalyzedDocument)) : Bool :=
  analyzed.all fun entry => analyzed.all fun other => entry.1 != other.1 || decide (entry.2 = other.2)

/-- A batch that may build the base as far as the ids go: the counter has left zero or is not
needed, and has room for the terms. -/
def assignable (state : IndexState) (analyzed : List (UInt64 × AnalyzedDocument)) : Bool :=
  (decide (1 ≤ state.nextTermId) || analyzed.all fun entry => entry.2.terms.isEmpty) && sameVersions analyzed &&
    decide (Room (fun _ => none) state.nextTermId (analyzed.flatMap fun entry => entry.2.terms))

theorem lookup_of_isEmpty {K V : Type} [DecidableEq K] {m : Map K V} (empty : m.entries.isEmpty = true) (key : K) :
    m.lookup key = none := by
  rw [AList.lookup_eq_none]
  intro member
  have keys : key ∈ m.entries.keys := member
  rw [List.isEmpty_iff.mp empty] at keys
  exact absurd keys List.not_mem_nil

theorem latest_same {analyzed : List (UInt64 × AnalyzedDocument)} (same : sameVersions analyzed = true)
    {entry : UInt64 × AnalyzedDocument}
    (member : entry ∈ analyzed) : latest analyzed entry.1 = some entry.2 := by
  obtain ⟨last,among,id,found⟩ := latest_of_mem member
  have either := List.all_eq_true.mp (List.all_eq_true.mp same last among) entry member
  rw [found]
  rcases Bool.or_eq_true _ _ ▸ either with different | equal
  · exact absurd id (by simpa using different)
  · rw [of_decide_eq_true equal]

theorem Spelled.build (spelled : Spelled state old new) (tracks : IndexState.Tracks state old new)
    (can : state.canBuildBase = true) {analyzed : List (UInt64 × AnalyzedDocument)}
    (allowed : assignable state analyzed = true) :
    Spelled (state.buildBase analyzed) (latest analyzed) new := by
  obtain ⟨_,nothing⟩ := tracks_nothing tracks can
  simp only [assignable,Bool.and_eq_true,Bool.or_eq_true,decide_eq_true_eq] at allowed
  obtain ⟨⟨counter,same⟩,room⟩ := allowed
  simp only [IndexState.canBuildBase,Bool.and_eq_true] at can
  obtain ⟨⟨⟨⟨⟨⟨⟨_,_⟩,mapped⟩,_⟩,delta⟩,_⟩,_⟩,_⟩ := can
  have start : Building ((∅ : Postings),state.nextTermId,state.baseDocs,([] : List (UInt64 × List UInt32)))
      (analyzed.flatMap fun entry => entry.2.terms) := by
    refine ⟨fun some_ => ?_,Interns.nothing _,room⟩
    rcases counter with started | none_
    · exact UInt32.le_iff_toNat_le.mp started
    · refine absurd (List.flatMap_eq_nil_iff.mpr fun entry member => ?_) some_
      exact List.isEmpty_iff.mp (List.all_eq_true.mp none_ entry member)
  obtain ⟨built,_,records⟩ := addBaseDocuments_building analyzed start
  have eager : (state.buildBase analyzed).mmapPostings = none := Option.isNone_iff_eq_none.mp mapped
  have base : ∀ term, (state.buildBase analyzed).basePosting term = (analyzed.foldl IndexState.addBaseDocument
      ((∅ : Postings),state.nextTermId,state.baseDocs,([] : List (UInt64 × List UInt32)))).1.lookup term := fun term =>
    IndexState.basePosting_eager eager term
  have ids : ∀ term, (state.buildBase analyzed).termId term = idOf ((state.buildBase analyzed).basePosting term) := by
    intro term
    have none_ : (state.buildBase analyzed).deltaPostings.lookup term = none := lookup_of_isEmpty delta term
    rw [IndexState.termId_eq,none_]
    rfl
  refine ⟨?_,fun term id found => (ids term).trans found,?_,fun docId => ?_⟩
  · refine built.interns.mono fun term id found => ?_
    rw [ids,base] at found
    exact found
  · simp only [base]
    refine recorded_fromRecords (fun record member => ?_) fun docId document here => ?_
    · rw [records,List.nil_append] at member
      obtain ⟨entry,among,rfl⟩ := List.mem_map.mp member
      exact ⟨entry.2,latest_same same among,rfl⟩
    · rw [records,List.nil_append]
      exact ⟨_,List.mem_map.mpr ⟨_,latest_eq_some here,rfl⟩⟩
  · have before := spelled.delta docId
    rw [nothing] at before ⊢
    exact before

end Build

end ApexBase.Fts
