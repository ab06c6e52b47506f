import ApexBase.Fts.Agreement

/-! What a phrase matches, and the agreement of the searches. -/
namespace ApexBase.Fts
open Library Library.Assoc

/-- The words of a document or a query in order; nothing stands at a field boundary. -/
def words (document : AnalyzedDocument) : List (Option String) :=
  document.tokens.map fun token => if token = 0 then none else document.terms[token.toNat - 1]?

def wordId (state : IndexState) : Option String → UInt32
  | none => 0
  | some term => (state.termId term).getD 0

theorem mem_words {document : AnalyzedDocument} {term : String} (member : some term ∈ words document) :
    term ∈ document.terms := by
  obtain ⟨token,_,word⟩ := List.mem_map.mp member
  split at word
  · cases word
  · exact List.mem_of_getElem? word

theorem spell_eq_words (state : IndexState) (document : AnalyzedDocument) :
    spell state.termId document = (words document).map (wordId state) := by
  unfold spell IndexState.globalTokens words
  rw [List.map_map]
  refine List.map_congr_left fun token member => ?_
  rw [Function.comp_apply]
  by_cases boundary : token = 0
  · rw [if_pos boundary,if_pos boundary]
    rfl
  · have positive : token.toNat ≠ 0 := fun zero => boundary (UInt32.toNat_inj.mp zero)
    have within : token.toNat - 1 < document.terms.length := by
      have inside := document.inside token member
      omega
    rw [if_neg boundary,if_neg boundary,List.getElem?_map,List.getElem?_eq_getElem within]
    rfl

theorem windows_any (tokens list : List UInt32) : (windows tokens.length list).any (· == tokens) = true ↔
    tokens <:+: list := by
  unfold windows
  rw [List.any_eq_true]
  constructor
  · rintro ⟨window,member,same⟩
    obtain ⟨start,_,rfl⟩ := List.mem_map.mp member
    rw [← eq_of_beq same]
    exact (List.take_prefix _ _).isInfix.trans (List.drop_suffix _ _).isInfix
  · rintro ⟨before,after,rfl⟩
    refine ⟨tokens,List.mem_map.mpr ⟨before.length,List.mem_range.mpr ?_,?_⟩,beq_self_eq_true tokens⟩
    · simp only [List.length_append]
      omega
    · rw [List.append_assoc,List.drop_left,List.take_left]

theorem eq_of_map_eq {α β : Type} {f : α → β} {left right : List α} (same : left.map f = right.map f)
    (apart : ∀ a ∈ left, ∀ b ∈ right, f a = f b → a = b) : left = right := by
  induction left generalizing right with
  | nil => exact (List.map_eq_nil_iff.mp same.symm).symm
  | cons a rest ih =>
    cases right with
    | nil => cases same
    | cons b more =>
      obtain ⟨first,others⟩ := List.cons.inj same
      have here := apart a List.mem_cons_self b List.mem_cons_self first
      rw [here,ih others fun x inLeft y inRight => apart x (List.mem_cons_of_mem _ inLeft) y
        (List.mem_cons_of_mem _ inRight)]

theorem infix_map_iff {α β : Type} {f : α → β} {part whole : List α}
    (apart : ∀ a ∈ whole, ∀ b ∈ part, f a = f b → a = b) :
    part.map f <:+: whole.map f ↔ part <:+: whole := by
  constructor
  · rintro ⟨before,after,same⟩
    obtain ⟨front,last,rfl,first,_⟩ := List.map_eq_append_iff.mp same.symm
    obtain ⟨start,middle,rfl,_,here⟩ := List.map_eq_append_iff.mp first
    have equal := eq_of_map_eq here fun a inWhole b inPart => apart a (by simp [inWhole]) b inPart
    rw [equal]
    exact ⟨start,last,rfl⟩
  · rintro ⟨before,after,rfl⟩
    exact ⟨before.map f,after.map f,by simp⟩

section Phrase
variable {unicode : Unicode} {config : FtsConfig} {state : IndexState} {contents : Contents}

theorem search_plain {query : Text} (plain : hasOperators query = false) :
    search unicode config state query = .ok (matchingDocs state (analyzeDocument unicode config (phraseQuery query).1)
      (phraseQuery query).2) := by
  unfold search matchingBooleanQuery
  rw [plain]
  simp only [Bool.not_false,if_true]
  split
  · rename_i empty
    have none_ : matchingDocs state (analyzeDocument unicode config (phraseQuery query).1) (phraseQuery query).2 = ∅ :=
      Finset.eq_empty_of_forall_notMem fun docId member => (mem_matchingDocs member).1 (List.isEmpty_iff.mp empty)
    rw [none_]
  · rfl

theorem queryTokens_eq {analyzed : AnalyzedDocument} (all : ∀ token ∈ analyzed.tokens, token ≠ 0)
    (known : ∀ term ∈ analyzed.terms, ∃ id, state.termId term = some id) :
    queryTokens state analyzed = (words analyzed).map (wordId state) := by
  unfold queryTokens words
  rw [List.map_map,← List.filterMap_eq_map]
  refine List.filterMap_congr fun token member => ?_
  have word := all token member
  have positive : token.toNat ≠ 0 := fun zero => word (UInt32.toNat_inj.mp zero)
  have within : token.toNat - 1 < analyzed.terms.length := by
    have inside := analyzed.inside token member
    omega
  obtain ⟨id,found⟩ := known _ (List.getElem_mem within)
  rw [if_neg word,List.getElem?_eq_getElem within,Option.bind_some,found,Function.comp_apply,Function.comp_apply,
    if_neg word,
    List.getElem?_eq_getElem within]
  simp only [wordId,found,Option.getD_some]

theorem wordId_apart (reads : Reads state contents) {a b : Option String}
    (left : ∀ term, a = some term → ∃ id, state.termId term = some id)
    (right : ∀ term, b = some term → ∃ id, state.termId term = some id) (same : wordId state a = wordId state b) :
    a = b := by
  have interns := reads.interns
  have positive : ∀ {term : String} {id : UInt32}, state.termId term = some id → id ≠ 0 := by
    rintro term id found rfl
    exact absurd (interns.positive term 0 found) (by decide)
  cases a with
  | none =>
    cases b with
    | none => rfl
    | some term =>
      obtain ⟨id,found⟩ := right term rfl
      simp only [wordId,found,Option.getD_some] at same
      exact absurd same.symm (positive found)
  | some first =>
    obtain ⟨id,found⟩ := left first rfl
    cases b with
    | none =>
      simp only [wordId,found,Option.getD_some] at same
      exact absurd same (positive found)
    | some second =>
      obtain ⟨other,there⟩ := right second rfl
      simp only [wordId,found,there,Option.getD_some] at same
      rw [interns.apart first second id found (same ▸ there)]

theorem mem_matchingDocs_phrase (reads : Reads state contents) {analyzed : AnalyzedDocument}
    (all : ∀ token ∈ analyzed.tokens, token ≠ 0) (some_ : analyzed.terms ≠ [] → analyzed.tokens ≠ []) (docId : UInt64) :
    docId ∈ matchingDocs state analyzed true ↔ ∃ document, contents docId = some document ∧
    words analyzed <:+: words document ∧
      analyzed.terms ≠ [] ∧ ∀ term ∈ analyzed.terms, term ∈ document.terms := by
  have posting := reads.shows_.exact.posting
  have matched : ∀ document, contents docId = some document → (∀ term ∈ analyzed.terms, ∃ id, state.termId term =
    some id) →
      (((state.tokensForDoc docId).any fun list => (windows (queryTokens state analyzed).length list).any
        (· == queryTokens state analyzed)) = true ↔
        words analyzed <:+: words document) := by
    intro document here known
    rw [reads.tokens here,Option.any_some,windows_any,spell_eq_words,queryTokens_eq all known]
    exact infix_map_iff fun a inDocument b inPhrase same => wordId_apart reads (fun term word =>
      reads.known here (mem_words (word ▸ inDocument)))
      (fun term word => known term (mem_words (word ▸ inPhrase))) same
  unfold matchingDocs matchingDocsFromPostings
  simp only [Bool.not_true,Bool.or_false,decide_eq_true_eq]
  have among := mem_intersectPostings (analyzed.terms.map state.posting) docId
  rw [List.forall_mem_map] at among
  have shape : analyzed.terms.map state.posting ≠ [] ↔ analyzed.terms ≠ [] := by simp
  rw [shape] at among
  constructor
  · intro member
    split at member
    · rename_i none_
      rw [none_] at member
      exact absurd member (Finset.notMem_empty docId)
    · split at member
      · exact absurd member (Finset.notMem_empty docId)
      · obtain ⟨inPostings,window⟩ := Finset.mem_filter.mp member
        obtain ⟨terms,posted⟩ := among.mp inPostings
        obtain ⟨term,first⟩ := List.exists_mem_of_ne_nil _ terms
        obtain ⟨document,here,_⟩ := (posting term docId).mp (posted term first)
        have has : ∀ other ∈ analyzed.terms, other ∈ document.terms := by
          intro other inside
          obtain ⟨same,there,has⟩ := (posting other docId).mp (posted other inside)
          rw [here] at there
          cases there
          exact has
        have known : ∀ other ∈ analyzed.terms, ∃ id, state.termId other = some id :=
          fun other inside => reads.known here (has other inside)
        exact ⟨document,here,(matched document here known).mp window,terms,has⟩
  · rintro ⟨document,here,inRow,terms,has⟩
    have inPostings := among.mpr ⟨terms,fun term inside => (posting term docId).mpr ⟨document,here,has term inside⟩⟩
    have known : ∀ other ∈ analyzed.terms, ∃ id, state.termId other = some id :=
      fun other inside => reads.known here (has other inside)
    have nonempty : intersectPostings (analyzed.terms.map state.posting) ≠ ∅ := Finset.ne_empty_of_mem inPostings
    rw [if_neg nonempty]
    have tokens : queryTokens state analyzed ≠ [] := by
      rw [queryTokens_eq all known]
      unfold words
      simpa using some_ terms
    rw [if_neg (by simpa using tokens)]
    exact Finset.mem_filter.mpr ⟨inPostings,(matched document here known).mpr inRow⟩

end Phrase

section Ranked
variable {unicode : Unicode} {config : FtsConfig} {state : IndexState} {σ : Type} [LinearOrder σ]

omit [LinearOrder σ] in
theorem mem_hits {docs : DocSet} {hits : List (RankedHit σ)} (same : hits.map (·.docId) = docs.sort (· ≤ ·))
    {hit : RankedHit σ}
    (member : hit ∈ hits) : hit.docId ∈ docs := by
  have there : hit.docId ∈ hits.map (·.docId) := List.mem_map_of_mem member
  rw [same] at there
  exact (Finset.mem_sort _).mp there

section
variable (bm25 : Nat → Nat → List (Nat × Nat) → Nat → σ) (query : Text)

theorem searchTopN_bounds (n : Nat) (stored : Stored state)
    (small : (analyzeDocument unicode config (phraseQuery query).1).terms.length < 2^32) :
    (searchTopN unicode config state bm25 query n).length ≤ n ∧ ∀ docId ∈ searchTopN unicode config state bm25 query n,
      docId ∈ matchingDocs state (analyzeDocument unicode config (phraseQuery query).1) (phraseQuery query).2 := by
  unfold searchTopN
  rcases Nat.eq_zero_or_pos n with rfl | positive
  · exact ⟨Nat.le_refl _,nofun⟩
  · obtain ⟨hits,ranked,docs⟩ := searchRanked_cases bm25 query (Nat.pos_iff_ne_zero.mp positive) stored small
    rw [ranked]
    generalize matchingDocs state (analyzeDocument unicode config (phraseQuery query).1) (phraseQuery query).2 =
      matching at *
    constructor
    · rw [List.length_map,List.length_reverse]
      exact (pushHits_length hits [] (Nat.zero_le _)).trans (Nat.min_le_left _ _)
    · intro docId member
      obtain ⟨hit,among,rfl⟩ := List.mem_map.mp member
      rcases pushHits_subset hits [] hit (List.mem_reverse.mp among) with inside | none_
      · exact mem_hits docs inside
      · cases none_

theorem mem_searchScored (stored : Stored state)
    (small : (analyzeDocument unicode config (phraseQuery query).1).terms.length < 2^32)
    (addressable : (matchingDocs state (analyzeDocument unicode config (phraseQuery query).1)
      (phraseQuery query).2).card ≤ usizeMax) (docId : UInt64) :
    docId ∈ (searchScored unicode config state bm25 query).map (·.docId) ↔
      docId ∈ matchingDocs state (analyzeDocument unicode config (phraseQuery query).1) (phraseQuery query).2 := by
  obtain ⟨hits,ranked,docs⟩ := searchRanked_cases bm25 query (show usizeMax ≠ 0 by decide) stored small
  have size := congrArg List.length docs
  rw [List.length_map,Finset.length_sort] at size
  have kept : (hits.foldl (pushHit (min usizeMax hits.length)) []).Perm (hits ++ []) := by
    refine pushHits_perm hits [] ?_
    simp only [List.length_nil]
    omega
  unfold searchScored
  rw [ranked]
  have perm : ((hits.foldl (pushHit (min usizeMax hits.length)) []).reverse.map (·.docId)).Perm
    (hits.map (·.docId)) := by
    rw [List.append_nil] at kept
    exact ((List.reverse_perm _).trans kept).map _
  rw [perm.mem_iff,docs,Finset.mem_sort]

end

end Ranked

/-- The searches agree on a query without operators, a ranked search never returns more than
it is asked for, and a phrase matches the documents with its words in a row if and only if
such documents have all the terms of the phrase. -/
theorem searches_agree {σ : Type} [LinearOrder σ] (unicode : Unicode) (config : FtsConfig)
    (bm25 : Nat → Nat → List (Nat × Nat) → Nat → σ) (lazyLoad : Bool) {trace free : List Unit} {final other : Session}
    (unrestricted : Run (Session.exec lazyLoad) (fun _ _ => true) .fresh free other)
    (run : Run (Session.exec lazyLoad) (identifies lazyLoad) .fresh trace final) (query : Text)
    (plain : hasOperators query = false)
    (small : (analyzeDocument unicode config (phraseQuery query).1).terms.length < 2^32)
    (addressable : other.engine.state.liveDocs.card ≤ usizeMax) :
    (∃ result, search unicode config other.engine.state query = .ok result ∧
      (∀ docId, docId ∈ result ↔ docId ∈ (searchScored unicode config other.engine.state bm25 query).map (·.docId)) ∧
      ∀ n, (searchTopN unicode config other.engine.state bm25 query n).length ≤ n ∧
        ∀ docId ∈ searchTopN unicode config other.engine.state bm25 query n, docId ∈ result) ∧
    ((phraseQuery query).2 = true → ∃ result, search unicode config final.engine.state query = .ok result ∧
      ((∀ docId, docId ∈ result ↔ ∃ document, final.contents docId = some document ∧
          words (analyzeDocument unicode config (phraseQuery query).1) <:+: words document) ↔
        ∀ docId document, final.contents docId = some document →
          words (analyzeDocument unicode config (phraseQuery query).1) <:+: words document →
          (analyzeDocument unicode config (phraseQuery query).1).terms ≠ [] ∧
            ∀ term ∈ (analyzeDocument unicode config (phraseQuery query).1).terms, term ∈ document.terms)) := by
  have kept := Session.kept_run unrestricted
  have stored := kept.stored
  constructor
  · refine ⟨_,search_plain plain,fun docId => ?_,fun n => searchTopN_bounds bm25 query n stored small⟩
    refine (mem_searchScored bm25 query stored small ?_ docId).symm
    refine (Finset.card_le_card fun found member => ?_).trans addressable
    obtain ⟨terms,posted⟩ := mem_matchingDocs member
    obtain ⟨term,first⟩ := List.exists_mem_of_ne_nil _ terms
    exact kept.posting_subset term (posted term first)
  · intro phrase
    have reads := Session.reads_run run
    obtain ⟨all,some_⟩ := analyzeDocument_tokens small
    refine ⟨_,search_plain plain,?_⟩
    rw [phrase]
    generalize analyzeDocument unicode config (phraseQuery query).1 = analyzed at *
    constructor
    · intro exactly docId document here inRow
      obtain ⟨same,there,_,terms⟩ := (mem_matchingDocs_phrase reads all some_ docId).mp
        ((exactly docId).mpr ⟨document,here,inRow⟩)
      rw [here] at there
      cases there
      exact terms
    · intro complete docId
      rw [mem_matchingDocs_phrase reads all some_]
      constructor
      · rintro ⟨document,here,inRow,_⟩
        exact ⟨document,here,inRow⟩
      · rintro ⟨document,here,inRow⟩
        exact ⟨document,here,inRow,complete docId document here inRow⟩

def plainUnicode : Unicode :=
  ⟨id,fun c => [c.toLower],fun text => text.map fun c => [c],fun text => if text.any Char.isAlphanum then [text]
    else [],by
    intro text
    induction text with
    | nil => rfl
    | cons c rest ih => rw [List.map_cons,List.flatten_cons,ih,List.singleton_append]⟩

def defaultConfig : FtsConfig := ⟨3,2⟩

def indexed (texts : List (UInt64 × String)) : List Action :=
  texts.map (fun entry => .addDocument entry.1 (analyzeDocument plainUnicode defaultConfig entry.2.toList)) ++ [.flush]

theorem searches_agree_on_phrase : ∃ trace final, Run (Session.exec true) (identifies true) .fresh trace final ∧
    ∃ result, search plainUnicode defaultConfig final.engine.state "\"quick fox\"".toList = .ok result ∧ 7 ∈ result ∧
      ∀ docId, docId ∈ result ↔
        docId ∈ (searchScored plainUnicode defaultConfig final.engine.state (fun _ _ _ _ =>
          0) "\"quick fox\"".toList).map (·.docId) := by
  have played : (play (Session.exec true) (identifies true) .fresh (indexed [(7,"the quick fox"),(8,"fox quick")])).any
    (fun result =>
      decide ((search plainUnicode defaultConfig result.2.engine.state "\"quick fox\"".toList).toOption = some {7} ∧
        result.2.engine.state.liveDocs = {7,8})) = true := by decide +kernel
  obtain ⟨⟨trace,final⟩,same,both⟩ := (Option.any_eq_true _ _).mp played
  obtain ⟨found,live⟩ := of_decide_eq_true both
  have run := Run.of_play same
  have small : final.engine.state.liveDocs.card ≤ usizeMax := by
    rw [live]
    decide
  obtain ⟨⟨result,searched,scored,_⟩,_⟩ := searches_agree plainUnicode defaultConfig (fun _ _ _ _ =>
    0) true (run.weaken fun _ _ _ => rfl) run
    "\"quick fox\"".toList (by decide +kernel) (by decide +kernel) small
  refine ⟨trace,final,run,result,searched,?_,scored⟩
  rw [searched] at found
  rw [Option.some.inj found]
  exact Finset.mem_singleton_self 7

/-- Operators make the searches disagree, in quotes too; and a phrase misses a document that
has its words in a row but not the term they make together. -/
theorem searches_disagree :
    (∃ trace final, Run (Session.exec false) (identifies false) .fresh trace final ∧
      (search plainUnicode defaultConfig final.engine.state "quick OR fox".toList).toOption = some {7,8} ∧
      searchScored plainUnicode defaultConfig final.engine.state (fun _ _ _ _ => 0) "quick OR fox".toList = []) ∧
    (∃ trace final, Run (Session.exec false) (identifies false) .fresh trace final ∧
      (search plainUnicode defaultConfig final.engine.state "\"quick or fox\"".toList).toOption = some {7,8} ∧
      (searchScored plainUnicode defaultConfig final.engine.state (fun _ _ _ _ => 0) "\"quick or fox\"".toList).map
        (·.docId) = [8]) ∧
    ∃ trace final, Run (Session.exec false) (identifies false) .fresh trace final ∧
      (search plainUnicode defaultConfig final.engine.state "\"中文\"".toList).toOption = some ∅ ∧
      (final.contents 7).map words = some [some "中",some "文"] ∧
      words (analyzeDocument plainUnicode defaultConfig "中文".toList) = [some "中",some "文"] := by
  refine ⟨?_,?_,?_⟩
  · have played : (play (Session.exec false) (identifies false) .fresh (indexed [(7,"quick"),(8,"fox")])).any
      (fun result =>
        decide ((search plainUnicode defaultConfig result.2.engine.state "quick OR fox".toList).toOption =
          some {7,8}) &&
          (searchScored plainUnicode defaultConfig result.2.engine.state (fun _ _ _ _ =>
            0) "quick OR fox".toList).isEmpty) = true := by
      decide +kernel
    obtain ⟨⟨trace,final⟩,same,both⟩ := (Option.any_eq_true _ _).mp played
    obtain ⟨found,none_⟩ := Bool.and_eq_true _ _ ▸ both
    exact ⟨trace,final,Run.of_play same,of_decide_eq_true found,List.isEmpty_iff.mp none_⟩
  · have played : (play (Session.exec false) (identifies false) .fresh (indexed [(7,"quick"),(8,"quick or fox")])).any
      (fun result =>
        decide ((search plainUnicode defaultConfig result.2.engine.state "\"quick or fox\"".toList).toOption =
          some {7,8} ∧
          (searchScored plainUnicode defaultConfig result.2.engine.state (fun _ _ _ _ =>
            0) "\"quick or fox\"".toList).map (·.docId) = [8])) =
            true := by
      decide +kernel
    obtain ⟨⟨trace,final⟩,same,both⟩ := (Option.any_eq_true _ _).mp played
    obtain ⟨found,ranked⟩ := of_decide_eq_true both
    exact ⟨trace,final,Run.of_play same,found,ranked⟩
  · have played : (play (Session.exec false) (identifies false) .fresh (indexed [(7,"中 文")])).any (fun result =>
        decide ((search plainUnicode defaultConfig result.2.engine.state "\"中文\"".toList).toOption = some ∅ ∧
          (result.2.contents 7).map words = some [some "中",some "文"])) = true := by
      decide +kernel
    obtain ⟨⟨trace,final⟩,same,both⟩ := (Option.any_eq_true _ _).mp played
    obtain ⟨found,document⟩ := of_decide_eq_true both
    exact ⟨trace,final,Run.of_play same,found,document,by decide +kernel⟩

end ApexBase.Fts
