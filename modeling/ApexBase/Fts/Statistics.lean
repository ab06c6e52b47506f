import ApexBase.Fts.Contents
import ApexBase.Library.Keyed
import Mathlib.Algebra.BigOperators.Group.Finset.Basic
import Mathlib.Algebra.BigOperators.Group.Finset.Piecewise
import Mathlib.Algebra.Order.BigOperators.Group.Finset

/-! The statistics of an index, and the cache of them under a hash of seven counters (`fts/index.rs`). -/
namespace ApexBase.Fts
open Library Library.Assoc
open scoped BigOperators

namespace IndexState

def deltaTerms (state : IndexState) : Nat := (state.deltaTokens.entries.map fun entry => termCount entry.2).sum

def counters (state : IndexState) : List Nat :=
  [state.baseDocs.card,state.deltaDocs.card,state.shadowedDocs.card,state.deletedDocs.card,state.baseTokens.totalTerms,
    state.deltaTokens.entries.length,state.deltaTerms]

def statsSignature (state : IndexState) : UInt64 :=
  state.counters.foldl (fun hash value => hash * 0x9E3779B97F4A7C15 + UInt64.ofNat value) 0

def liveStats (state : IndexState) : Nat × Nat := (state.liveDocs.card,state.liveTermTotal)

structure Cached where
  state : IndexState
  statsCache : Option (UInt64 × Nat × Nat)

namespace Cached

def cachedStats (cached : Cached) : (Nat × Nat) × Cached :=
  let found := Keyed.read statsSignature liveStats cached.statsCache cached.state
  (found.1,{cached with statsCache := found.2})

def liveDocCount (cached : Cached) : Nat := cached.cachedStats.1.1

def liveTermTotalCached (cached : Cached) : Nat := cached.cachedStats.1.2

end Cached

inductive Call
  | upsert (docId : UInt64) (document : AnalyzedDocument) (recordWal : Bool)
  | delete (docId : UInt64) (recordWal : Bool)
  | mergeDelta
  | stats

def Cached.call (cached : Cached) : Call → Cached
  | .upsert docId document recordWal => {cached with state := cached.state.applyUpsert docId document recordWal}
  | .delete docId recordWal => {cached with state := cached.state.applyDelete docId recordWal}
  | .mergeDelta => {cached with state := cached.state.mergeDelta}
  | .stats => cached.cachedStats.2

def opened : Option (Snapshot × Bool) → Cached
  | none => ⟨default,none⟩
  | some (snapshot,lazyLoad) => ⟨loadSnapshot snapshot lazyLoad,none⟩

/-- A run with what the code does not record: the state that filled the cache, and whether there was a merge since. -/
structure Observed where
  cached : Cached
  filled : Option IndexState
  merged : Bool

def Observed.call (run : Observed) (call : Call) : Observed where
  cached := run.cached.call call
  filled :=
    match call with
    | .stats => some (Keyed.filledBy statsSignature run.filled run.cached.state)
    | _ => run.filled
  merged :=
    match call with
    | .stats => if ∃ earlier ∈ run.filled, statsSignature earlier = statsSignature run.cached.state then run.merged
      else false
    | .mergeDelta => true
    | _ => run.merged

def observe (from_ : Option (Snapshot × Bool)) (calls : List Call) :
    Observed := calls.foldl Observed.call ⟨opened from_,none,false⟩

def hidden (state : IndexState) : Nat × Nat := ((state.baseDocs ∩ state.shadowedDocs).card,state.shadowedBaseTerms)

/-- As much more is hidden in the later state as there is more in its base and its delta. -/
def Balanced (earlier later : IndexState) : Prop :=
  earlier.baseDocs.card + earlier.deltaDocs.card + later.hidden.1 = later.baseDocs.card + later.deltaDocs.card +
    earlier.hidden.1 ∧
  earlier.baseTokens.totalTerms + earlier.deltaTerms + later.hidden.2 = later.baseTokens.totalTerms + later.deltaTerms +
  earlier.hidden.2

structure Layered (state : IndexState) : Prop where
  shadowed : state.shadowedDocs = state.deltaDocs ∪ state.deletedDocs
  apart : Disjoint state.deltaDocs state.deletedDocs
  tokens : ∀ docId, docId ∈ state.deltaTokens ↔ docId ∈ state.deltaDocs

section Counts
variable {state : IndexState} (layered : Layered state)
include layered

theorem live_docs_balance : state.liveDocs.card + state.hidden.1 = state.baseDocs.card + state.deltaDocs.card := by
  have live : state.liveDocs = (state.baseDocs \ state.shadowedDocs) ∪ state.deltaDocs := by
    ext docId
    have deleted : docId ∈ state.deletedDocs → docId ∈ state.shadowedDocs := fun member => by
      rw [layered.shadowed]
      exact Finset.mem_union_right _ member
    have delta : docId ∈ state.deltaDocs → docId ∉ state.deletedDocs :=
      fun member => Finset.disjoint_left.mp layered.apart member
    rw [liveDocs,Finset.mem_sdiff,Finset.mem_union,Finset.mem_sdiff]
    constructor
    · exact fun both => both.1
    · rintro (⟨base,bare⟩ | member)
      · exact ⟨Or.inl ⟨base,bare⟩,fun gone => bare (deleted gone)⟩
      · exact ⟨Or.inr member,delta member⟩
  have disjoint : Disjoint (state.baseDocs \ state.shadowedDocs) state.deltaDocs := by
    rw [layered.shadowed]
    refine Finset.disjoint_left.mpr fun docId bare member => ?_
    exact (Finset.mem_sdiff.mp bare).2 (Finset.mem_union_left _ member)
  have split := Finset.card_sdiff_add_card_inter state.baseDocs state.shadowedDocs
  rw [live,Finset.card_union_of_disjoint disjoint,hidden]
  dsimp only
  omega

omit layered in
private theorem sum_by_id (weight : List UInt32 → Nat) (docs : DocSet) (records : List (UInt64 × List UInt32)) :
    ∑ docId ∈ docs, ((records.filter fun record => record.1 = docId).map fun record => weight record.2).sum ≤
      (records.map fun record => weight record.2).sum := by
  induction records with
  | nil => simp
  | cons record rest ih =>
    have first : ∀ docId, (((record :: rest).filter fun record => record.1 = docId).map fun record =>
      weight record.2).sum =
        (if record.1 = docId then weight record.2 else 0) + ((rest.filter fun record => record.1 =
          docId).map fun record => weight record.2).sum := by
      intro docId
      by_cases here : record.1 = docId
      · rw [if_pos here,List.filter_cons_of_pos (by simpa using here),List.map_cons,List.sum_cons]
      · rw [if_neg here,List.filter_cons_of_neg (by simpa using here),Nat.zero_add]
    have one : ∑ docId ∈ docs, (if record.1 = docId then weight record.2 else 0) ≤ weight record.2 := by
      rw [Finset.sum_ite_eq]
      split
      · exact Nat.le_refl _
      · exact Nat.zero_le _
    rw [Finset.sum_congr rfl fun docId _ => first docId,Finset.sum_add_distrib,List.map_cons,List.sum_cons]
    exact Nat.add_le_add one ih

omit layered in
theorem mem_of_get {packed : PackedDocTokens} {docId : UInt64} {tokens : List UInt32}
    (found : packed.get docId = some tokens) :
    (docId,tokens) ∈ packed.records := by
  unfold PackedDocTokens.get at found
  split at found
  · rename_i index landed
    obtain ⟨record,here,rfl⟩ := Option.map_eq_some_iff.mp found
    have equal := (Search.bisect_hit _ (Prod.ext landed rfl)).1
    simp only [here,Option.map_some,Option.getD_some] at equal
    rw [← compare_eq_iff_eq.mp equal]
    exact List.mem_of_getElem? here
  · cases found

omit layered in
theorem shadowedBaseTerms_le (state : IndexState) : state.shadowedBaseTerms ≤ state.baseTokens.totalTerms := by
  refine Nat.le_trans (Finset.sum_le_sum fun docId _ => ?_) (sum_by_id termCount state.shadowedDocs
    state.baseTokens.records)
  cases found : state.baseTokens.get docId with
  | none => exact Nat.zero_le _
  | some tokens =>
    have member : (docId,tokens) ∈ state.baseTokens.records.filter fun record => record.1 = docId :=
      List.mem_filter.mpr ⟨mem_of_get found,by simp⟩
    exact List.single_le_sum (fun _ _ => Nat.zero_le _) _ (List.mem_map.mpr ⟨_,member,rfl⟩)

theorem live_terms_balance : state.liveTermTotal + state.hidden.2 = state.baseTokens.totalTerms + state.deltaTerms := by
  have all : (state.deltaTokens.entries.filter fun entry => entry.1 ∉ state.deletedDocs) =
    state.deltaTokens.entries := by
    refine List.filter_eq_self.mpr fun entry member => ?_
    have key : entry.1 ∈ state.deltaTokens := List.mem_keys_of_mem member
    exact decide_eq_true (Finset.disjoint_left.mp layered.apart ((layered.tokens entry.1).mp key))
  have bound := state.shadowedBaseTerms_le
  rw [liveTermTotal,all,deltaTerms,hidden]
  dsimp only
  omega

end Counts

section Calls
variable {state : IndexState}

private theorem removeFromDelta_fields (layered : Layered state) (docId : UInt64) :
    (state.removeFromDelta docId).baseDocs = state.baseDocs ∧ (state.removeFromDelta docId).baseTokens =
    state.baseTokens ∧
    (state.removeFromDelta docId).shadowedDocs = state.shadowedDocs ∧ (state.removeFromDelta docId).deletedDocs =
    state.deletedDocs ∧
    (state.removeFromDelta docId).deltaDocs = state.deltaDocs.erase docId ∧
    ∀ other, other ∈ (state.removeFromDelta docId).deltaTokens ↔ other ≠ docId ∧ other ∈ state.deltaTokens := by
  unfold removeFromDelta
  split
  · rename_i absent
    refine ⟨rfl,rfl,rfl,rfl,(Finset.erase_eq_of_notMem absent).symm,fun other =>
      (and_iff_right_of_imp fun member same => ?_).symm⟩
    exact absent ((layered.tokens docId).mp (same ▸ member))
  · exact ⟨rfl,rfl,rfl,rfl,rfl,fun other => AList.mem_erase⟩

structure Since (earlier later : IndexState) : Prop where
  docs : later.baseDocs = earlier.baseDocs
  tokens : later.baseTokens = earlier.baseTokens
  shadowed : earlier.shadowedDocs ⊆ later.shadowedDocs

theorem Layered.upsert (layered : Layered state) (docId : UInt64) (document : AnalyzedDocument) (recordWal : Bool) :
    Layered (state.applyUpsert docId document recordWal) ∧
    Since state (state.applyUpsert docId document recordWal) := by
  obtain ⟨baseDocs,baseTokens,shadowed,deleted,delta,tokens⟩ := removeFromDelta_fields layered docId
  unfold applyUpsert
  dsimp only
  generalize state.removeFromDelta docId = removed at baseDocs baseTokens shadowed deleted delta tokens ⊢
  obtain ⟨postings,next,frame⟩ := addDeltaTerms_frame docId document.terms
    ({removed with
      shadowedDocs := insert docId removed.shadowedDocs
      deletedDocs := removed.deletedDocs.erase docId
      deltaDocs := insert docId removed.deltaDocs},[])
  generalize document.terms.foldl (addDeltaTerm docId) _ = added at frame ⊢
  obtain ⟨added,termIds⟩ := added
  dsimp only at frame ⊢
  subst frame
  refine ⟨⟨?_,?_,fun other => ?_⟩,⟨baseDocs,baseTokens,?_⟩⟩
  · dsimp only
    rw [shadowed,delta,deleted,layered.shadowed]
    ext other
    simp only [Finset.mem_insert,Finset.mem_union,Finset.mem_erase]
    tauto
  · dsimp only
    rw [delta,deleted]
    refine Finset.disjoint_left.mpr fun other member gone => ?_
    obtain ⟨apart,gone⟩ := Finset.mem_erase.mp gone
    rcases Finset.mem_insert.mp member with same | member
    · exact apart same
    · exact Finset.disjoint_left.mp layered.apart (Finset.mem_of_mem_erase member) gone
  · dsimp only
    rw [AList.mem_insert,tokens,delta,Finset.mem_insert,Finset.mem_erase,layered.tokens]
  · dsimp only
    rw [shadowed]
    exact Finset.subset_insert _ _

theorem Layered.delete (layered : Layered state) (docId : UInt64) (recordWal : Bool) :
    Layered (state.applyDelete docId recordWal) ∧ Since state (state.applyDelete docId recordWal) := by
  obtain ⟨baseDocs,baseTokens,shadowed,deleted,delta,tokens⟩ := removeFromDelta_fields layered docId
  unfold applyDelete
  refine ⟨⟨?_,?_,fun other => ?_⟩,⟨baseDocs,baseTokens,?_⟩⟩
  · dsimp only
    rw [shadowed,delta,deleted,layered.shadowed]
    ext other
    simp only [Finset.mem_insert,Finset.mem_union,Finset.mem_erase]
    tauto
  · dsimp only
    rw [delta,deleted]
    refine Finset.disjoint_left.mpr fun other member gone => ?_
    obtain ⟨apart,member⟩ := Finset.mem_erase.mp member
    exact Finset.disjoint_left.mp layered.apart member (Finset.mem_of_mem_insert_of_ne gone apart)
  · dsimp only
    rw [tokens,delta,Finset.mem_erase,layered.tokens]
  · dsimp only
    rw [shadowed]
    exact Finset.subset_insert _ _

theorem layered_of_empty (docs : state.deltaDocs = ∅) (shadowed : state.shadowedDocs = ∅)
    (deleted : state.deletedDocs = ∅)
    (tokens : state.deltaTokens = ∅) : Layered state := by
  refine ⟨?_,?_,fun docId => ?_⟩
  · rw [docs,shadowed,deleted,Finset.union_empty]
  · rw [docs]
    exact Finset.disjoint_empty_left _
  · rw [docs,tokens]
    exact iff_of_false (AList.notMem_empty _) (Finset.notMem_empty _)

theorem layered_mergeDelta : Layered state.mergeDelta := layered_of_empty rfl rfl rfl rfl

theorem layered_opened (from_ : Option (Snapshot × Bool)) : Layered (opened from_).state := by
  cases from_ with
  | none => exact layered_of_empty rfl rfl rfl rfl
  | some loaded => exact layered_of_empty rfl rfl rfl rfl

end Calls

structure Sound (run : Observed) : Prop where
  layered : Layered run.cached.state
  holds : Keyed.Holds statsSignature liveStats run.cached.statsCache run.filled
  before : ∀ earlier, run.filled = some earlier → Layered earlier
  since : run.merged = false → ∀ earlier, run.filled = some earlier → Since earlier run.cached.state

theorem Since.trans {a b c : IndexState} (first : Since a b) (next : Since b c) : Since a c :=
  ⟨next.docs.trans first.docs,next.tokens.trans first.tokens,first.shadowed.trans next.shadowed⟩

theorem Sound.call {run : Observed} (sound : Sound run) (call : Call) : Sound (run.call call) := by
  cases call with
  | upsert docId document recordWal =>
    obtain ⟨layered,grown⟩ := sound.layered.upsert docId document recordWal
    exact ⟨layered,sound.holds,sound.before,fun unmerged earlier found =>
      (sound.since unmerged earlier found).trans grown⟩
  | delete docId recordWal =>
    obtain ⟨layered,grown⟩ := sound.layered.delete docId recordWal
    exact ⟨layered,sound.holds,sound.before,fun unmerged earlier found =>
      (sound.since unmerged earlier found).trans grown⟩
  | mergeDelta => exact ⟨layered_mergeDelta,sound.holds,sound.before,nofun⟩
  | stats =>
    refine ⟨sound.layered,sound.holds.read _,fun filler found => ?_,fun unmerged filler found => ?_⟩
    · cases found
      cases earlier : run.filled with
      | none => exact sound.layered
      | some state =>
        unfold Keyed.filledBy
        dsimp only
        split
        · exact sound.before state earlier
        · exact sound.layered
    · cases found
      have itself : Since run.cached.state run.cached.state := ⟨rfl,rfl,Finset.Subset.refl _⟩
      unfold Observed.call at unmerged
      dsimp only at unmerged
      cases earlier : run.filled with
      | none => exact itself
      | some state =>
        unfold Keyed.filledBy
        dsimp only
        split
        · rename_i same
          rw [if_pos ⟨state,earlier,same⟩] at unmerged
          exact sound.since unmerged state earlier
        · exact itself

theorem Sound.run {run : Observed} (sound : Sound run) (calls : List Call) : Sound (calls.foldl Observed.call run) := by
  induction calls generalizing run with
  | nil => exact sound
  | cons call rest ih => exact ih (sound.call call)

theorem sound_observe (from_ : Option (Snapshot × Bool)) (calls : List Call) : Sound (observe from_ calls) := by
  refine Sound.run ⟨layered_opened from_,?_,?_,?_⟩ calls
  · cases from_ with
    | none => rfl
    | some loaded => rfl
  · intro earlier found
    cases found
  · intro _ earlier found
    cases found

theorem liveStats_eq_iff {earlier later : IndexState} (layered : Layered earlier) (also : Layered later) :
    liveStats earlier = liveStats later ↔ Balanced earlier later := by
  have docs := live_docs_balance layered
  have laterDocs := live_docs_balance also
  have terms := live_terms_balance layered
  have laterTerms := live_terms_balance also
  rw [liveStats,liveStats,Prod.mk.injEq,Balanced]
  constructor
  · rintro ⟨sameDocs,sameTerms⟩
    omega
  · rintro ⟨balancedDocs,balancedTerms⟩
    omega

theorem balanced_iff_hidden {earlier later : IndexState} (same : counters earlier = counters later) :
    Balanced earlier later ↔ earlier.hidden = later.hidden := by
  simp only [counters,List.cons.injEq] at same
  obtain ⟨base,delta,_,_,total,_,terms,_⟩ := same
  rw [Balanced,Prod.ext_iff]
  constructor
  · rintro ⟨docs,tokens⟩
    omega
  · rintro ⟨docs,tokens⟩
    omega

theorem Since.hidden_eq {earlier later : IndexState} (since : Since earlier later)
    (same : counters earlier = counters later) :
    earlier.hidden = later.hidden := by
  simp only [counters,List.cons.injEq] at same
  obtain ⟨_,_,shadowed,_⟩ := same
  have docs := Finset.eq_of_subset_of_card_le since.shadowed shadowed.ge
  rw [hidden,hidden,shadowedBaseTerms,shadowedBaseTerms,since.docs,since.tokens,docs]

/-- In every run: the cached statistics are those of the state, unless they were taken in a state
with the same signature where more or less was hidden than the base and the delta account for.
Between states with the same counters only a merge can bring that about. -/
theorem cached_stats_iff (from_ : Option (Snapshot × Bool)) (calls : List Call) :
    let run := observe from_ calls
    let state := run.cached.state
    (run.cached.liveDocCount = state.liveDocs.card ∧ run.cached.liveTermTotalCached = state.liveTermTotal ↔
      ∀ earlier, run.filled = some earlier → statsSignature earlier = statsSignature state → Balanced earlier state) ∧
    ∀ earlier, run.filled = some earlier → counters earlier = counters state →
      (Balanced earlier state ↔ earlier.hidden = state.hidden) ∧ (run.merged = false → Balanced earlier state) := by
  intro run state
  have sound : Sound run := sound_observe from_ calls
  refine ⟨?_,fun earlier filled same => ⟨balanced_iff_hidden same,fun unmerged => ?_⟩⟩
  · have right := sound.holds.right_iff state
    have both : run.cached.liveDocCount = state.liveDocs.card ∧ run.cached.liveTermTotalCached = state.liveTermTotal ↔
        (Keyed.read statsSignature liveStats run.cached.statsCache state).1 = liveStats state := by
      rw [liveStats,Prod.ext_iff]
      rfl
    rw [both,right]
    refine forall₃_congr fun earlier filled _ => liveStats_eq_iff (sound.before earlier filled) sound.layered
  · exact (balanced_iff_hidden same).mpr ((sound.since unmerged earlier filled).hidden_eq same)

def oneTerm : AnalyzedDocument := ⟨["a"],[1],by simp⟩

def replaced : List Call :=
  [.upsert 1 oneTerm true,.mergeDelta,.delete 1 true,.stats,.mergeDelta,.upsert 5 oneTerm true,.mergeDelta,
    .delete 9 true]

/-- The statistics of the first delete are still given out, with one document live. -/
theorem replaced_document_missed :
    (observe none replaced).cached.liveDocCount = 0 ∧ (observe none replaced).cached.state.liveDocs = {5} ∧
    ¬ ∀ from_ calls, (observe from_ calls).cached.liveDocCount = (observe from_ calls).cached.state.liveDocs.card ∧
      (observe from_ calls).cached.liveTermTotalCached = (observe from_ calls).cached.state.liveTermTotal := by
  have count : (observe none replaced).cached.liveDocCount = 0 := by decide +kernel
  have live : (observe none replaced).cached.state.liveDocs = {5} := by decide +kernel
  refine ⟨count,live,fun all => ?_⟩
  have docs := (all none replaced).1
  rw [count,live] at docs
  cases docs

end IndexState

end ApexBase.Fts
