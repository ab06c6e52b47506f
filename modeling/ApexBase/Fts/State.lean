import ApexBase.Fts.PostingDocs
import ApexBase.Library.Assoc
import ApexBase.Library.Search
import Mathlib.Algebra.BigOperators.Group.Finset.Basic
import Mathlib.Data.List.Sort

/-! The state of a full-text index (`fts/index.rs`, `fts/engine.rs`): an immutable base,
and over it a delta that shadows the documents changed since. -/
namespace ApexBase.Fts
open Library.Assoc Library.Search

def maxTermBytes : Nat := 1024 * 1024

/-- The terms of a document, and its tokens as one-based indexes into them; zero is a
field boundary. -/
structure AnalyzedDocument where
  terms : List String
  tokens : List UInt32
  inside : ∀ token ∈ tokens, token.toNat ≤ terms.length
  deriving DecidableEq

inductive WalOp
  | upsert (docId : UInt64) (document : AnalyzedDocument)
  | delete (docId : UInt64)

structure Posting where
  termId : UInt32
  docs : PostingDocs

abbrev Postings := Map String Posting

/-- The token lists of the base documents, in order of the document ids. -/
structure PackedDocTokens where
  records : List (UInt64 × List UInt32)

namespace PackedDocTokens

def fromRecords (records : List (UInt64 × List UInt32)) : PackedDocTokens :=
  ⟨records.insertionSort fun a b => a.1 ≤ b.1⟩

def get (packed : PackedDocTokens) (docId : UInt64) : Option (List UInt32) :=
  match (bisect (fun index => compare ((packed.records[index]?.map Prod.fst).getD 0) docId)
      packed.records.length 0 packed.records.length).1 with
  | some index => packed.records[index]?.map Prod.snd
  | none => none

end PackedDocTokens

def termCount (tokens : List UInt32) : Nat := (tokens.filter (· ≠ 0)).length

def PackedDocTokens.totalTerms (packed : PackedDocTokens) :
    Nat := (packed.records.map fun record => termCount record.2).sum

structure IndexState where
  basePostings : Postings
  /-- The base postings of a snapshot that is read lazily. -/
  mmapPostings : Option Postings
  baseDocs : DocSet
  baseTokens : PackedDocTokens
  deltaPostings : Postings
  deltaDocs : DocSet
  deltaTokens : Map UInt64 (List UInt32)
  /-- Every base document superseded by a delta upsert or delete. -/
  shadowedDocs : DocSet
  deletedDocs : DocSet
  pendingWal : List WalOp
  nextTermId : UInt32
  needsRebuild : Bool

namespace IndexState

def default : IndexState := ⟨∅,none,∅,⟨[]⟩,∅,∅,∅,∅,∅,[],0,false⟩

def canBuildBase (state : IndexState) : Bool :=
  state.basePostings.entries.isEmpty && state.baseDocs = ∅ && state.mmapPostings.isNone &&
    state.baseTokens.records.isEmpty &&
    state.deltaPostings.entries.isEmpty && state.deltaDocs = ∅ && state.deltaTokens.entries.isEmpty &&
    state.pendingWal.isEmpty

def saturatingSucc (value : UInt32) : UInt32 := if value.toNat = 2^32 - 1 then value else value + 1

def globalTokens (termIds tokens : List UInt32) : List UInt32 :=
  tokens.map fun localId => if localId = 0 then 0 else (termIds[localId.toNat - 1]?).getD 0

structure Interning where
  postings : Postings
  nextTermId : UInt32
  termIds : List UInt32

def addBaseTerm (docId : UInt64) (interning : Interning) (term : String) : Interning :=
  match interning.postings.lookup term with
  | some posting =>
    ⟨interning.postings.insert term {posting with docs := posting.docs.insert docId},interning.nextTermId,
      interning.termIds ++ [posting.termId]⟩
  | none =>
    let termId := max interning.nextTermId 1
    ⟨interning.postings.insert term ⟨termId,PostingDocs.empty.insert docId⟩,saturatingSucc interning.nextTermId,
      interning.termIds ++ [termId]⟩

/-- One document of the batch: the postings, the documents and the token records. -/
def addBaseDocument (building : Postings × UInt32 × DocSet × List (UInt64 × List UInt32))
    (entry : UInt64 × AnalyzedDocument) :
    Postings × UInt32 × DocSet × List (UInt64 × List UInt32) :=
  let interning := entry.2.terms.foldl (addBaseTerm entry.1) ⟨building.1,building.2.1,[]⟩
  (interning.postings,interning.nextTermId,insert entry.1 building.2.2.1,
    building.2.2.2 ++ [(entry.1,globalTokens interning.termIds entry.2.tokens)])

def buildBase (state : IndexState) (analyzed : List (UInt64 × AnalyzedDocument)) : IndexState :=
  let built := analyzed.foldl addBaseDocument (∅,state.nextTermId,state.baseDocs,[])
  {state with
    basePostings := built.1
    nextTermId := built.2.1
    baseDocs := built.2.2.1
    baseTokens := .fromRecords built.2.2.2
    needsRebuild := false}

def removeFromDelta (state : IndexState) (docId : UInt64) : IndexState :=
  if docId ∉ state.deltaDocs then state
  else
    {state with
      deltaDocs := state.deltaDocs.erase docId
      deltaTokens := state.deltaTokens.erase docId
      deltaPostings := retain (fun _ posting => !posting.docs.isEmpty)
        (mapValues (fun posting => {posting with docs := posting.docs.remove docId}) state.deltaPostings)}

def termId (state : IndexState) (term : String) : Option UInt32 :=
  match (state.deltaPostings.lookup term).or (state.basePostings.lookup term) with
  | some posting => some posting.termId
  | none => (state.mmapPostings.bind (·.lookup term)).map (·.termId)

def allocate (nextTermId : UInt32) : UInt32 × UInt32 :=
  let termId := max nextTermId 1
  let next := saturatingSucc nextTermId
  (termId,if next ≤ termId then saturatingSucc termId else next)

def addDeltaTerm (docId : UInt64) (adding : IndexState × List UInt32) (term : String) : IndexState × List UInt32 :=
  let state := adding.1
  match state.deltaPostings.lookup term with
  | some posting =>
    ({state with deltaPostings := state.deltaPostings.insert term {posting with docs := posting.docs.insert docId}},
      adding.2 ++ [posting.termId])
  | none =>
    let (termId,next) := match state.termId term with
      | some known => (known,state.nextTermId)
      | none => allocate state.nextTermId
    ({state with
      deltaPostings := state.deltaPostings.insert term ⟨termId,PostingDocs.empty.insert docId⟩
      nextTermId := next},adding.2 ++ [termId])

def applyUpsert (state : IndexState) (docId : UInt64) (analyzed : AnalyzedDocument) (recordWal : Bool) : IndexState :=
  let removed := state.removeFromDelta docId
  let marked : IndexState := {removed with
    shadowedDocs := insert docId removed.shadowedDocs
    deletedDocs := removed.deletedDocs.erase docId
    deltaDocs := insert docId removed.deltaDocs}
  let (added,termIds) := analyzed.terms.foldl (addDeltaTerm docId) (marked,[])
  {added with
    deltaTokens := added.deltaTokens.insert docId (globalTokens termIds analyzed.tokens)
    pendingWal := if recordWal then added.pendingWal ++ [.upsert docId analyzed] else added.pendingWal}

def applyDelete (state : IndexState) (docId : UInt64) (recordWal : Bool) : IndexState :=
  let removed := state.removeFromDelta docId
  {removed with
    shadowedDocs := insert docId removed.shadowedDocs
    deletedDocs := insert docId removed.deletedDocs
    pendingWal := if recordWal then removed.pendingWal ++ [.delete docId] else removed.pendingWal}

/-- The posting of a term in the base, wherever it is kept. -/
def basePosting (state : IndexState) (term : String) : Option Posting :=
  match state.basePostings.lookup term with
  | some posting => some posting
  | none => state.mmapPostings.bind (·.lookup term)

def docsOf (posting : Option Posting) : DocSet :=
  match posting with
  | some posting => posting.docs.toRoaring
  | none => ∅

def posting (state : IndexState) (term : String) : DocSet :=
  let result := docsOf (state.basePosting term) \ state.shadowedDocs
  let result := match state.deltaPostings.lookup term with
    | some delta => delta.docs.unionInto result
    | none => result
  result \ state.deletedDocs

def tokensForDoc (state : IndexState) (docId : UInt64) : Option (List UInt32) :=
  if docId ∈ state.deletedDocs then none
  else
    match state.deltaTokens.lookup docId with
    | some tokens => some tokens
    | none => if docId ∈ state.shadowedDocs then none else state.baseTokens.get docId

def liveDocs (state : IndexState) : DocSet :=
  ((state.baseDocs \ state.shadowedDocs) ∪ state.deltaDocs) \ state.deletedDocs

def shadowedBaseTerms (state : IndexState) : Nat := state.shadowedDocs.sum fun docId =>
    ((state.baseTokens.get docId).map termCount).getD 0

/-- The non-zero tokens of the live documents. -/
def liveTermTotal (state : IndexState) : Nat :=
  let live := state.deltaTokens.entries.filter fun entry => entry.1 ∉ state.deletedDocs
  state.baseTokens.totalTerms - state.shadowedBaseTerms + (live.map fun entry => termCount entry.2).sum

def mergePosting (base : Postings) (entry : String × Posting) : Postings :=
  match base.lookup entry.1 with
  | some posting => base.insert entry.1 {posting with docs := posting.docs.unionOwned entry.2.docs}
  | none => base.insert entry.1 entry.2

def mergeDelta (state : IndexState) : IndexState :=
  let base := state.mmapPostings.getD state.basePostings
  let shadowed := if state.shadowedDocs = ∅ then base
    else retain (fun _ posting => !posting.docs.isEmpty)
      (mapValues (fun posting => {posting with docs := posting.docs.subtract state.shadowedDocs}) base)
  let baseDocs := if state.shadowedDocs = ∅ then state.baseDocs else state.baseDocs \ state.shadowedDocs
  let kept := state.baseTokens.records.filter fun record => record.1 ∉ state.shadowedDocs ∧ record.1 ∉ state.deletedDocs
  let fresh := (state.deltaTokens.entries.map fun entry => (entry.1,entry.2)).filter fun record =>
    record.1 ∉ state.deletedDocs
  {state with
    mmapPostings := none
    basePostings := (state.deltaPostings.entries.map fun entry => (entry.1,entry.2)).foldl mergePosting shadowed
    deltaPostings := ∅
    baseTokens := .fromRecords (kept ++ fresh)
    deltaTokens := ∅
    baseDocs := (baseDocs ∪ state.deltaDocs) \ state.deletedDocs
    deltaDocs := ∅
    shadowedDocs := ∅
    deletedDocs := ∅}

structure Snapshot where
  postings : Postings
  docs : DocSet
  tokens : PackedDocTokens

/-- Terms without documents are not written. -/
def snapshot (state : IndexState) : Snapshot :=
  ⟨retain (fun _ posting => !posting.docs.isEmpty) state.basePostings,state.baseDocs,state.baseTokens⟩

def maxTermId (postings : Postings) : UInt32 := ((values postings).map (·.termId)).foldl max 0

def loadSnapshot (snapshot : Snapshot) (lazyLoad : Bool) : IndexState :=
  {default with
    basePostings := if lazyLoad then ∅ else snapshot.postings
    mmapPostings := if lazyLoad then some snapshot.postings else none
    baseDocs := snapshot.docs
    baseTokens := .fromRecords snapshot.tokens.records
    nextTermId := max (saturatingSucc (maxTermId snapshot.postings)) 1}

/-- After a snapshot the postings are read from its file, where they are read lazily. -/
def publish (state : IndexState) (written : Snapshot) : IndexState :=
  {state with basePostings := ∅,mmapPostings := some written.postings}

def replay (state : IndexState) : WalOp → IndexState
  | .upsert docId document => state.applyUpsert docId document false
  | .delete docId => state.applyDelete docId false

end IndexState

end ApexBase.Fts
