import ApexBase.Fts.Query
import Mathlib.Data.Finset.Sort
import Mathlib.Algebra.BigOperators.Group.Finset.Basic
import Mathlib.Data.List.Destutter

/-! Searching an index, and ranking what is found (`fts/engine.rs`). A score is what
`f32::total_cmp` makes of it. -/
namespace ApexBase.Fts

def usizeMax : Nat := 2^64 - 1

structure RankedHit (σ : Type) where
  docId : UInt64
  score : σ

section Rank
variable {σ : Type} [LinearOrder σ]

/-- A hit is greater with the higher score, and then with the smaller document id. -/
def RankedHit.le (left right : RankedHit σ) : Bool :=
  decide (left.score < right.score) || decide (left.score = right.score) && decide (right.docId ≤ left.docId)

/-- The best hits so far, the worst first. -/
def pushHit (heapLimit : Nat) (top : List (RankedHit σ)) (hit : RankedHit σ) : List (RankedHit σ) :=
  if top.length < heapLimit then top.orderedInsert (fun a b => a.le b = true) hit
  else
    match top with
    | [] => top
    | worst :: rest => if hit.le worst then top else rest.orderedInsert (fun a b => a.le b = true) hit

end Rank

section Search
variable (unicode : Unicode) (config : FtsConfig) (state : IndexState)

def search (query : Text) : Except FtsError DocSet :=
  match matchingBooleanQuery unicode config state query with
  | .error error => .error error
  | .ok (some result) => .ok result
  | .ok none =>
    let (query,phrase) := phraseQuery query
    let analyzed := analyzeDocument unicode config query
    if analyzed.terms.isEmpty then .ok ∅ else .ok (matchingDocs state analyzed phrase)

/-- The ids of the query's terms with the indexes of the terms, each id once. -/
def queryTerms (analyzed : AnalyzedDocument) : List (UInt32 × Nat) :=
  let pairs := analyzed.tokens.filterMap fun localId =>
    if localId = 0 then none
    else (analyzed.terms[localId.toNat - 1]?).bind fun term => (state.termId term).map fun termId =>
      (termId,localId.toNat - 1)
  (pairs.insertionSort fun a b => a.1.toNat ≤ b.1.toNat).destutter fun a b => a.1 ≠ b.1

/-- The score of a document: `f32` arithmetic over the number of live documents, the number of
live tokens, the number of documents of each term, how often each stands in the document, and
the length of the document. -/
def scoreOf {σ : Type} (bm25 : Nat → Nat → List (Nat × Nat) → Nat → σ) (termTotal : Nat) (postings : List DocSet)
    (terms : List (UInt32 × Nat)) (tokens : List UInt32) : σ :=
  bm25 state.liveDocs.card termTotal
    (terms.map fun entry => (((postings[entry.2]?).getD ∅).card,tokens.countP fun token =>
      decide (token ≠ 0 ∧ token = entry.1)))
    (tokens.countP fun token => decide (token ≠ 0))

variable {σ : Type} [LinearOrder σ] (bm25 : Nat → Nat → List (Nat × Nat) → Nat → σ)

def searchRanked (query : Text) (limit : Nat) : List (RankedHit σ) :=
  if limit = 0 then []
  else
    let (query,phrase) := phraseQuery query
    let analyzed := analyzeDocument unicode config query
    if analyzed.terms.isEmpty then []
    else
      let postings := analyzed.terms.map state.posting
      let candidates := matchingDocsFromPostings state postings analyzed phrase
      if candidates = ∅ then []
      else
        let terms := queryTerms state analyzed
        if terms.isEmpty then []
        else
          let hits := (candidates.sort (· ≤ ·)).filterMap fun docId => (state.tokensForDoc docId).map fun tokens =>
            RankedHit.mk docId (scoreOf state bm25 state.liveTermTotal postings terms tokens)
          (hits.foldl (pushHit (min limit candidates.card)) []).reverse

def searchScored (query : Text) : List (RankedHit σ) := searchRanked unicode config state bm25 query usizeMax

def searchTopN (query : Text) (n : Nat) : List UInt64 := (searchRanked unicode config state bm25 query n).map (·.docId)

end Search

end ApexBase.Fts
