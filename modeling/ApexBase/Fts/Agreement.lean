import ApexBase.Fts.Search
import ApexBase.Fts.Identified
import ApexBase.Fts.Stored

/-! Searching and ranked searching find the same documents, when the query has no operators. -/
namespace ApexBase.Fts
open Library Library.Assoc

theorem mem_intersectAll (postings : List DocSet) (result : DocSet) (docId : UInt64) :
    docId ∈ intersectAll result postings ↔ docId ∈ result ∧ ∀ docs ∈ postings, docId ∈ docs := by
  induction postings generalizing result with
  | nil => simp [intersectAll]
  | cons docs rest ih =>
    unfold intersectAll
    split
    · rename_i none_
      rw [none_]
      constructor
      · exact fun member => absurd member (Finset.notMem_empty docId)
      · rintro ⟨first,all⟩
        rw [← none_]
        exact Finset.mem_inter.mpr ⟨first,all docs List.mem_cons_self⟩
    · rw [ih,Finset.mem_inter,List.forall_mem_cons,and_assoc]

theorem mem_intersectPostings (postings : List DocSet) (docId : UInt64) :
    docId ∈ intersectPostings postings ↔ postings ≠ [] ∧ ∀ docs ∈ postings, docId ∈ docs := by
  unfold intersectPostings
  have perm := List.perm_insertionSort (fun a b : Nat => ((postings[a]?).getD ∅).card ≤ ((postings[b]?).getD ∅).card)
    (List.range postings.length)
  split
  · rename_i empty
    rw [empty] at perm
    have none_ : postings = [] := List.length_eq_zero_iff.mp (by simpa using perm.length_eq.symm)
    simp [none_]
  · rename_i smallest rest order
    rw [order] at perm
    have indexes : ∀ index, index ∈ smallest :: rest ↔ index < postings.length :=
      fun index => perm.mem_iff.trans List.mem_range
    have some_ : postings ≠ [] := by
      rintro rfl
      exact absurd ((indexes smallest).mp List.mem_cons_self) (Nat.not_lt_zero _)
    have all : (∀ docs ∈ postings, docId ∈ docs) ↔ docId ∈ (postings[smallest]?).getD ∅ ∧
        ∀ docs ∈ rest.map fun index => (postings[index]?).getD ∅, docId ∈ docs := by
      rw [List.forall_mem_map,← List.forall_mem_cons (p := fun index => docId ∈ (postings[index]?).getD ∅)]
      constructor
      · intro every index member
        have inside := (indexes index).mp member
        rw [List.getElem?_eq_getElem inside]
        exact every _ (List.getElem_mem inside)
      · intro every docs member
        obtain ⟨index,inside,rfl⟩ := List.mem_iff_getElem.mp member
        have here := every index ((indexes index).mpr inside)
        rwa [List.getElem?_eq_getElem inside] at here
    rw [and_iff_right some_,all]
    simp only
    split
    · rename_i none_
      rw [none_]
      simp
    · exact mem_intersectAll _ _ _

namespace AnalysisBuilder

def Words (builder : AnalysisBuilder) : Prop := ∀ token ∈ builder.tokens, 0 < token

theorem interned_positive (terms : List String) (term : String) : 0 < (interned terms term).2 := by
  unfold interned
  split
  · exact Nat.succ_pos _
  · exact Nat.succ_pos _

theorem Words.push {builder : AnalysisBuilder} (words : builder.Words) (term : String) : (builder.push term).Words := by
  intro token member
  rcases List.mem_append.mp member with before | here
  · exact words token before
  · rw [List.mem_singleton.mp here]
    exact interned_positive _ _

theorem pushAll_tokens (words : List Text) (builder : AnalysisBuilder) :
    (words.foldl (fun builder word => builder.push (String.ofList word)) builder).tokens.length =
    builder.tokens.length + words.length := by
  induction words generalizing builder with
  | nil => rfl
  | cons word rest ih =>
    rw [List.foldl_cons,ih,List.length_cons]
    change (builder.tokens ++ [_]).length + rest.length = _
    rw [List.length_append,List.length_singleton]
    omega

theorem internAll_tokens (words : List Text) (builder : AnalysisBuilder) :
    (words.foldl (fun builder word => builder.intern (String.ofList word)) builder).tokens = builder.tokens := by
  induction words generalizing builder with
  | nil => rfl
  | cons word rest ih => exact ih _

end AnalysisBuilder

section Analyze
variable {unicode : Unicode} {config : FtsConfig}

theorem mem_segmentTokens {c : Char} (cjk : isCjk c = true) {text : Text} (member : c ∈ text) (buffer : Text) :
    [c] ∈ segmentTokens unicode config buffer text := by
  induction text generalizing buffer with
  | nil => cases member
  | cons first rest ih =>
    unfold segmentTokens
    split
    · rcases List.mem_cons.mp member with rfl | later
      · exact List.mem_append_right _ List.mem_cons_self
      · exact List.mem_append_right _ (List.mem_cons_of_mem _ (ih later []))
    · rename_i other
      rcases List.mem_cons.mp member with rfl | later
      · exact absurd cjk other
      · exact ih later _

theorem mem_primaryTokens {c : Char} (cjk : isCjk c = true) {text : Text} (member : c ∈ text) :
    [c] ∈ primaryTokens unicode config text := by
  rw [← unicode.bounds text] at member
  obtain ⟨segment,among,inside⟩ := List.mem_flatten.mp member
  exact List.mem_flatMap.mpr ⟨segment,among,mem_segmentTokens cjk inside []⟩

theorem cjkRuns_cases (run text : Text) : cjkRuns run text = [] ∨ run ≠ [] ∨ ∃ c ∈ text, isCjk c = true := by
  induction text generalizing run with
  | nil =>
    unfold cjkRuns
    split
    · exact Or.inl rfl
    · rename_i some_
      exact Or.inr (Or.inl fun none_ => some_ (by rw [none_]; rfl))
  | cons c rest ih =>
    unfold cjkRuns
    split
    · rename_i cjk
      exact Or.inr (Or.inr ⟨c,List.mem_cons_self,cjk⟩)
    · split
      · rcases ih [] with none_ | some_ | ⟨other,member,cjk⟩
        · exact Or.inl none_
        · exact absurd rfl some_
        · exact Or.inr (Or.inr ⟨other,List.mem_cons_of_mem _ member,cjk⟩)
      · rename_i some_
        exact Or.inr (Or.inl fun none_ => some_ (by rw [none_]; rfl))

theorem addText_tokens (unicode : Unicode) (config : FtsConfig) (text : Text)
    (none_ : (AnalysisBuilder.empty.addText unicode config text).tokens = []) :
    (AnalysisBuilder.empty.addText unicode config text).terms = [] := by
  unfold AnalysisBuilder.addText at none_ ⊢
  simp only at none_ ⊢
  split at none_
  · rename_i ascii
    rw [if_pos ascii]
    have length := AnalysisBuilder.pushAll_tokens (asciiWords config (normalize unicode text)) .empty
    rw [none_] at length
    have words : asciiWords config (normalize unicode text) = [] := List.length_eq_zero_iff.mp (by
      simp only [List.length_nil] at length
      omega)
    rw [words]
    rfl
  · rename_i other
    rw [if_neg other]
    rw [AnalysisBuilder.internAll_tokens] at none_
    have length := AnalysisBuilder.pushAll_tokens (primaryTokens unicode config (normalize unicode text)) .empty
    rw [none_] at length
    have words : primaryTokens unicode config (normalize unicode text) = [] := List.length_eq_zero_iff.mp (by
      simp only [List.length_nil] at length
      omega)
    have runs : cjkRuns [] (normalize unicode text) = [] := by
      rcases cjkRuns_cases [] (normalize unicode text) with runs | some_ | ⟨c,member,cjk⟩
      · exact runs
      · exact absurd rfl some_
      · have token : [c] ∈ primaryTokens unicode config (normalize unicode text) := mem_primaryTokens cjk member
        rw [words] at token
        cases token
    rw [words,runs]
    rfl

theorem addText_words {builder : AnalysisBuilder} (words : builder.Words) (text : Text) :
    (builder.addText unicode config text).Words := by
  have pushed : ∀ list : List Text, (list.foldl (fun builder word => builder.push (String.ofList word))
    builder).Words :=
    fun list => foldl_keeps AnalysisBuilder.Words (fun _ word before => before.push (String.ofList word)) list words
  unfold AnalysisBuilder.addText
  simp only
  split
  · exact pushed _
  · unfold AnalysisBuilder.Words
    rw [AnalysisBuilder.internAll_tokens]
    exact pushed _

theorem analyzeDocument_tokens {text : Text} (small : (analyzeDocument unicode config text).terms.length < 2^32) :
    (∀ token ∈ (analyzeDocument unicode config text).tokens, token ≠ 0) ∧
    ((analyzeDocument unicode config text).terms ≠ [] → (analyzeDocument unicode config text).tokens ≠ []) := by
  have words : (AnalysisBuilder.empty.addText unicode config text).Words :=
    addText_words (by intro token member; cases member) text
  have none_ := addText_tokens unicode config text
  unfold analyzeDocument at small ⊢
  generalize AnalysisBuilder.empty.addText unicode config text = builder at *
  unfold AnalysisBuilder.finish at small ⊢
  simp only [List.length_insertionSort] at small ⊢
  constructor
  · intro token member
    obtain ⟨id,among,rfl⟩ := List.mem_map.mp member
    have positive := words id among
    rw [if_neg (by omega)]
    have within : id - 1 < builder.terms.length := by
      have inside := builder.inside id among
      omega
    rw [List.getElem?_eq_getElem within,Option.getD_some]
    have known : builder.terms[id - 1] ∈ builder.terms.insertionSort (· ≤ ·) :=
      (List.mem_insertionSort _).mpr (List.getElem_mem within)
    have index := List.idxOf_lt_length_iff.mpr known
    rw [List.length_insertionSort] at index
    intro zero
    have size := congrArg UInt32.toNat zero
    rw [UInt32.toNat_ofNat',Nat.mod_eq_of_lt (by omega)] at size
    exact absurd size (Nat.succ_ne_zero _)
  · intro terms tokens
    refine terms ?_
    rw [none_ (List.map_eq_nil_iff.mp tokens)]
    rfl

end Analyze

section Rank
variable {σ : Type} [LinearOrder σ] {limit : Nat}

theorem pushHit_length (top : List (RankedHit σ)) (hit : RankedHit σ) (within : top.length ≤ limit) :
    (pushHit limit top hit).length ≤ limit := by
  unfold pushHit
  split
  · rw [List.orderedInsert_length]
    omega
  · split
    · exact within
    · rename_i worst rest
      split
      · exact within
      · rw [List.orderedInsert_length]
        exact within

theorem pushHits_length (hits top : List (RankedHit σ)) (within : top.length ≤ limit) :
    (hits.foldl (pushHit limit) top).length ≤ limit :=
  foldl_keeps (fun top => top.length ≤ limit) (fun top hit before => pushHit_length top hit before) hits within

theorem pushHit_subset (top : List (RankedHit σ)) (hit : RankedHit σ) : pushHit limit top hit ⊆ hit :: top := by
  unfold pushHit
  split
  · exact (List.perm_orderedInsert _ hit top).subset
  · split
    · exact List.subset_cons_self _ _
    · rename_i worst rest
      split
      · exact List.subset_cons_self _ _
      · intro other member
        rcases (List.mem_orderedInsert _).mp member with rfl | later
        · exact List.mem_cons_self
        · exact List.mem_cons_of_mem _ (List.mem_cons_of_mem _ later)

theorem pushHits_subset (hits top : List (RankedHit σ)) :
    ∀ hit ∈ hits.foldl (pushHit limit) top, hit ∈ hits ∨ hit ∈ top := by
  induction hits generalizing top with
  | nil => exact fun hit member => Or.inr member
  | cons first rest ih =>
    intro hit member
    rcases ih (pushHit limit top first) hit member with later | here
    · exact Or.inl (List.mem_cons_of_mem _ later)
    · rcases List.mem_cons.mp (pushHit_subset top first here) with rfl | before
      · exact Or.inl List.mem_cons_self
      · exact Or.inr before

theorem pushHits_perm (hits top : List (RankedHit σ)) (room : top.length + hits.length ≤ limit) :
    (hits.foldl (pushHit limit) top).Perm (hits ++ top) := by
  induction hits generalizing top with
  | nil => exact List.Perm.refl _
  | cons first rest ih =>
    have inserted : (pushHit limit top first).Perm (first :: top) := by
      unfold pushHit
      rw [if_pos (by rw [List.length_cons] at room; omega)]
      exact List.perm_orderedInsert _ first top
    rw [List.foldl_cons]
    refine (ih (pushHit limit top first) ?_).trans ?_
    · rw [inserted.length_eq]
      rw [List.length_cons] at room ⊢
      omega
    · exact (List.Perm.append_left rest inserted).trans List.perm_middle

end Rank

section Search
variable {unicode : Unicode} {config : FtsConfig} {state : IndexState} {σ : Type} [LinearOrder σ]
    {bm25 : Nat → Nat → List (Nat × Nat) → Nat → σ}

theorem termId_of_posting {term : String} {docId : UInt64} (member : docId ∈ state.posting term) :
    ∃ id, state.termId term = some id := by
  rw [IndexState.posting_eq,Finset.mem_sdiff,Finset.mem_union,Finset.mem_sdiff] at member
  rw [IndexState.termId_eq]
  cases delta : IndexState.idOf (state.deltaPostings.lookup term) with
  | some id => exact ⟨id,rfl⟩
  | none =>
    rcases member.1 with base | later
    · obtain ⟨id,found⟩ := IndexState.idOf_of_docs base.1
      exact ⟨id,found⟩
    · obtain ⟨id,found⟩ := IndexState.idOf_of_docs later
      rw [delta] at found
      cases found

theorem mem_matchingDocs {analyzed : AnalyzedDocument} {phrase : Bool} {docId : UInt64}
    (member : docId ∈ matchingDocs state analyzed phrase) :
    analyzed.terms ≠ [] ∧ ∀ term ∈ analyzed.terms, docId ∈ state.posting term := by
  have among : docId ∈ intersectPostings (analyzed.terms.map state.posting) := by
    unfold matchingDocs matchingDocsFromPostings at member
    simp only at member
    split at member
    · exact member
    · split at member
      · exact absurd member (Finset.notMem_empty docId)
      · exact (Finset.mem_filter.mp member).1
  obtain ⟨some_,all⟩ := (mem_intersectPostings _ docId).mp among
  exact ⟨fun none_ => some_ (by rw [none_]; rfl),fun term has => all _ (List.mem_map.mpr ⟨term,has,rfl⟩)⟩

theorem queryTerms_ne_nil {analyzed : AnalyzedDocument} (tokens : analyzed.tokens ≠ [])
    (words : ∀ token ∈ analyzed.tokens, token ≠ 0)
    (known : ∀ term ∈ analyzed.terms, ∃ id, state.termId term = some id) : queryTerms state analyzed ≠ [] := by
  obtain ⟨token,rest,shape⟩ := List.exists_cons_of_ne_nil tokens
  have first : token ∈ analyzed.tokens := shape ▸ List.mem_cons_self
  have inside := analyzed.inside token first
  have positive : token.toNat ≠ 0 := fun zero => words token first (UInt32.toNat_inj.mp zero)
  have within : token.toNat - 1 < analyzed.terms.length := by omega
  obtain ⟨id,found⟩ := known _ (List.getElem_mem within)
  unfold queryTerms
  simp only [ne_eq,List.destutter_eq_nil]
  intro none_
  have pair : (id,token.toNat - 1) ∈ analyzed.tokens.filterMap fun localId =>
      if localId = 0 then none
      else (analyzed.terms[localId.toNat - 1]?).bind fun term => (state.termId term).map fun termId =>
        (termId,localId.toNat - 1) := by
    refine List.mem_filterMap.mpr ⟨token,first,?_⟩
    rw [if_neg (words token first),List.getElem?_eq_getElem within,Option.bind_some,found,Option.map_some]
  rw [← List.mem_insertionSort (fun a b : UInt32 × Nat => a.1.toNat ≤ b.1.toNat),none_] at pair
  cases pair

omit [LinearOrder σ] in
theorem hits_docs {candidates : DocSet} (stored : ∀ docId ∈ candidates, state.tokensForDoc docId ≠ none)
    (score : List UInt32 → σ) :
    ((candidates.sort (· ≤ ·)).filterMap fun docId => (state.tokensForDoc docId).map fun tokens =>
      RankedHit.mk docId (score tokens)).map
      (·.docId) = candidates.sort (· ≤ ·) := by
  rw [List.map_filterMap]
  refine (List.filterMap_congr fun docId inside => ?_).trans List.filterMap_some
  obtain ⟨list,found⟩ := Option.ne_none_iff_exists'.mp (stored docId ((Finset.mem_sort _).mp inside))
  rw [found]
  rfl

theorem searchRanked_cases (bm25 : Nat → Nat → List (Nat × Nat) → Nat → σ) (query : Text) {limit : Nat}
    (some_ : limit ≠ 0) (stored : Stored state)
    (small : (analyzeDocument unicode config (phraseQuery query).1).terms.length < 2^32) :
    ∃ hits : List (RankedHit σ),
      searchRanked unicode config state bm25 query limit = (hits.foldl (pushHit (min limit hits.length)) []).reverse ∧
      hits.map (·.docId) = (matchingDocs state (analyzeDocument unicode config (phraseQuery query).1)
        (phraseQuery query).2).sort (· ≤ ·) := by
  obtain ⟨words,tokens⟩ := analyzeDocument_tokens small
  unfold searchRanked
  rw [if_neg some_]
  simp only
  generalize analyzeDocument unicode config (phraseQuery query).1 = analyzed at *
  generalize (phraseQuery query).2 = phrase
  have nothing : matchingDocs state analyzed phrase = ∅ →
      ([] : List (RankedHit σ)).map (·.docId) = (matchingDocs state analyzed phrase).sort (· ≤ ·) := by
    intro none_
    rw [none_,Finset.sort_empty]
    rfl
  split
  · rename_i empty
    refine ⟨[],rfl,nothing (Finset.eq_empty_of_forall_notMem fun docId member => ?_)⟩
    exact (mem_matchingDocs member).1 (List.isEmpty_iff.mp empty)
  · split
    · rename_i none_
      exact ⟨[],rfl,nothing none_⟩
    · rename_i nonempty
      have nonempty : matchingDocs state analyzed phrase ≠ ∅ := nonempty
      obtain ⟨docId,member⟩ := Finset.nonempty_iff_ne_empty.mpr nonempty
      obtain ⟨terms,posted⟩ := mem_matchingDocs member
      obtain ⟨term,first⟩ := List.exists_mem_of_ne_nil _ terms
      have kept : ∀ other ∈ matchingDocs state analyzed phrase, state.tokensForDoc other ≠ none :=
        fun other here => stored term other ((mem_matchingDocs here).2 term first)
      have ids := queryTerms_ne_nil (tokens terms) words fun term has => termId_of_posting (posted term has)
      split
      · rename_i empty
        exact absurd (List.isEmpty_iff.mp empty) ids
      · have docs := hits_docs kept (scoreOf state bm25 state.liveTermTotal (analyzed.terms.map state.posting)
          (queryTerms state analyzed))
        have size := congrArg List.length docs
        rw [List.length_map,Finset.length_sort] at size
        refine ⟨_,?_,docs⟩
        rw [size]
        rfl

end Search

end ApexBase.Fts
