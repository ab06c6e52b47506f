import ApexBase.Fts.Directory
import ApexBase.Fts.Contents

/-! An index whose base postings are read from the mapped snapshot, so that reading and merging may fail, and what
a failed merge leaves behind. -/
namespace ApexBase.Fts
open Library.Wire Library.Assoc

/-- A state over a mapped directory. Everything but the directory is in the index. -/
structure MappedState (decoding : Decoding) where
  index : IndexState
  directory : Option (MmapTermDirectory decoding)
  eager : index.mmapPostings = none

namespace MappedState
variable {decoding : Decoding} (state : MappedState decoding)

def basePosting (term : String) : Except FtsError (Option Posting) :=
  match state.index.basePostings.lookup term with
  | some posting => .ok (some posting)
  | none =>
    match state.directory with
    | some directory => directory.posting decoding term
    | none => .ok none

def overBase (term : String) (base : DocSet) : DocSet :=
  let result := base \ state.index.shadowedDocs
  let result := match state.index.deltaPostings.lookup term with
    | some delta => delta.docs.unionInto result
    | none => result
  result \ state.index.deletedDocs

def posting (term : String) : Except FtsError DocSet :=
  (fun base => state.overBase term (IndexState.docsOf base)) <$> state.basePosting term

def liveDocs : DocSet := state.index.liveDocs

def tokensForDoc (docId : UInt64) : Option (List UInt32) := state.index.tokensForDoc docId

/-- The directory is taken out of the state before its postings are decoded. -/
def mergeDelta : Except FtsError Unit × MappedState decoding :=
  match state.directory with
  | some directory =>
    match directory.materialize decoding with
    | .ok postings => (.ok (),⟨{state.index with basePostings := postings}.mergeDelta,none,rfl⟩)
    | .error error => (.error error,⟨state.index,none,state.eager⟩)
  | none => (.ok (),⟨state.index.mergeDelta,none,rfl⟩)

def SameAnswers (before after : MappedState decoding) : Prop :=
  (∀ term, after.posting term = before.posting term) ∧ after.liveDocs = before.liveDocs ∧
    ∀ docId, after.tokensForDoc docId = before.tokensForDoc docId

/-- A merge that returns an error leaves the answers as they were. -/
def KeepsOnError : Prop := ∀ error, state.mergeDelta.1 = .error error → state.SameAnswers state.mergeDelta.2

/-- The documents that a base posting of a term does not decide about. -/
def hidden (term : String) : DocSet :=
  state.index.shadowedDocs ∪ state.index.deletedDocs ∪ IndexState.docsOf (state.index.deltaPostings.lookup term)

variable {state}

theorem overBase_eq (state : MappedState decoding) (term : String) (base : DocSet) : state.overBase term base =
    ((base \ state.index.shadowedDocs) ∪ IndexState.docsOf (state.index.deltaPostings.lookup term)) \
    state.index.deletedDocs := by
  unfold overBase
  cases state.index.deltaPostings.lookup term with
  | none => simp [IndexState.docsOf]
  | some delta => simp [IndexState.docsOf,PostingDocs.toRoaring_unionInto]

theorem overBase_empty_iff (state : MappedState decoding) (term : String) (base : DocSet) :
    state.overBase term ∅ = state.overBase term base ↔ base ⊆ state.hidden term := by
  rw [overBase_eq,overBase_eq,hidden,Finset.ext_iff,Finset.subset_iff]
  refine forall_congr' fun docId => ?_
  simp only [Finset.mem_sdiff,Finset.mem_union,Finset.notMem_empty,false_and,false_or]
  tauto

/-- The state with its directory as a map, when every posting of it can be decoded. -/
def materialized (state : MappedState decoding) (postings : Postings) :
    IndexState := {state.index with mmapPostings := some postings}

section
variable {directory : MmapTermDirectory decoding} (mapped : state.directory = some directory)
include mapped

theorem materialized_spec {postings : Postings}
    (decoded : directory.materialize decoding = .ok postings) :
    (∀ term, state.posting term = .ok ((state.materialized postings).posting term)) ∧
      state.mergeDelta.1 = .ok () ∧ state.mergeDelta.2.index = (state.materialized postings).mergeDelta := by
  refine ⟨fun term => ?_,?_,?_⟩
  · have base : state.basePosting term = .ok ((state.materialized postings).basePosting term) := by
      unfold basePosting IndexState.basePosting materialized
      rw [mapped]
      simp only
      cases state.index.basePostings.lookup term with
      | some posting => rfl
      | none => exact (directory.materialize_ok decoded).2 term
    rw [posting,base,IndexState.posting_eq]
    exact congrArg Except.ok (overBase_eq state term _)
  · unfold mergeDelta
    rw [mapped]
    simp only [decoded]
  · unfold mergeDelta
    rw [mapped]
    simp only [decoded]
    unfold materialized IndexState.mergeDelta
    simp only [state.eager,Option.getD_none,Option.getD_some]

theorem mergeDelta_error {error : FtsError}
    (failed : directory.materialize decoding = .error error) :
    state.mergeDelta = (.error error,⟨state.index,none,state.eager⟩) := by
  unfold mergeDelta
  rw [mapped]
  simp only [failed]

/-- Without its directory a state answers as before if each entry that the base does not replace can
be decoded, and decides about nothing. -/
theorem sameAnswers_taken :
    state.SameAnswers ⟨state.index,none,state.eager⟩ ↔
      ∀ index < directory.termCount, ∀ term, directory.term decoding index = .ok term →
      state.index.basePostings.lookup term = none →
        ∃ posting, directory.decodeAt decoding index = .ok posting ∧ posting.docs.toRoaring ⊆ state.hidden term := by
  constructor
  · intro keeps index inside term named missing
    obtain ⟨info,word,reads⟩ := directory.reads inside
    obtain rfl : word = term := Except.ok.inj ((directory.term_eq reads).symm.trans named)
    have same := keeps.1 word
    simp only [posting,basePosting,missing,mapped,directory.posting_hit inside reads] at same
    cases decoded : directory.decodeAt decoding index with
    | error other =>
      rw [decoded] at same
      exact nomatch same
    | ok found =>
      rw [decoded] at same
      exact ⟨found,rfl,(overBase_empty_iff state word _).mp (Except.ok.inj same)⟩
  · intro each
    refine ⟨fun term => ?_,rfl,fun _ => rfl⟩
    simp only [posting,basePosting,mapped]
    cases found : state.index.basePostings.lookup term with
    | some posting => rfl
    | none =>
      simp only
      by_cases known : ∃ index < directory.termCount, ∃ info, directory.Reads index info term
      · obtain ⟨index,inside,info,reads⟩ := known
        obtain ⟨posting,decoded,unseen⟩ := each index inside term (directory.term_eq reads) found
        rw [directory.posting_hit inside reads,decoded]
        exact congrArg Except.ok ((overBase_empty_iff state term _).mpr unseen)
      · rw [directory.posting_miss fun index inside info reads => known ⟨index,inside,info,reads⟩]
        rfl

/-- A merge fails exactly when an entry cannot be decoded, and then keeps the answers if the state
does without its directory. -/
theorem keepsOnError_mapped :
    state.KeepsOnError ↔ (∀ index < directory.termCount, ∃ posting, directory.decodeAt decoding index = .ok posting) ∨
      state.SameAnswers ⟨state.index,none,state.eager⟩ := by
  cases ran : directory.materialize decoding with
  | ok postings =>
    refine iff_of_true (fun error failed => ?_) (Or.inl (directory.materialize_ok ran).1)
    rw [(materialized_spec mapped ran).2.1] at failed
    cases failed
  | error error =>
    obtain ⟨bad,less,undecoded⟩ := directory.materialize_error ran
    have result := mergeDelta_error mapped ran
    have some_ : ¬ ∀ index < directory.termCount, ∃ posting, directory.decodeAt decoding index = .ok posting := by
      intro all
      obtain ⟨posting,decoded⟩ := all bad less
      exact nomatch undecoded.symm.trans decoded
    rw [or_iff_right some_]
    constructor
    · intro keeps
      have same := keeps error (congrArg Prod.fst result)
      rwa [result] at same
    · intro same other _
      rwa [result]

end

theorem keepsOnError_unmapped (unmapped : state.directory = none) : state.KeepsOnError := by
  intro error failed
  unfold mergeDelta at failed
  rw [unmapped] at failed
  cases failed

/-- A failed merge takes the directory away, which no answer shows only if each entry that the base
does not replace could be decoded and all its documents were hidden. -/
theorem keepsOnError_iff (state : MappedState decoding) :
    state.KeepsOnError ↔ ∀ directory, state.directory = some directory →
      (∀ index < directory.termCount, ∃ posting, directory.decodeAt decoding index = .ok posting) ∨
      ∀ index < directory.termCount, ∀ term, directory.term decoding index = .ok term →
      state.index.basePostings.lookup term = none →
        ∃ posting, directory.decodeAt decoding index = .ok posting ∧ posting.docs.toRoaring ⊆ state.hidden term := by
  cases mapped : state.directory with
  | none => exact iff_of_true (keepsOnError_unmapped mapped) nofun
  | some directory =>
    rw [keepsOnError_mapped mapped,sameAnswers_taken mapped]
    simp only [Option.some.injEq,forall_eq']

def damagedFile : Bytes :=
  List.replicate 72 0 ++
  leBytes 8 152 ++ leBytes 4 3 ++ leBytes 4 1 ++ leBytes 8 158 ++ leBytes 8 1 ++ leBytes 4 postingCodecRoaring ++
  leBytes 4 0 ++
  leBytes 8 155 ++ leBytes 4 3 ++ leBytes 4 2 ++ leBytes 8 7 ++ leBytes 8 0 ++ leBytes 4 postingCodecSingleDoc ++
  leBytes 4 0 ++
  utf8 "foxowl" ++ [255] ++ List.replicate 4 0

def refusing : Decoding := ⟨fun _ => .error "failed to fill whole buffer",fun _ => "invalid utf-8 sequence"⟩

def damaged : MappedState refusing :=
  ⟨{IndexState.default with baseDocs := {7}},some ⟨⟨damagedFile,72,2⟩,by decide +kernel⟩,rfl⟩

/-- The failed merge takes the documents of the other terms away. -/
theorem damaged_loses_owl : ¬ damaged.KeepsOnError := by
  intro keeps
  have failed : damaged.mergeDelta.1 =
    .error (.corruptIndex "invalid mmap posting: failed to fill whole buffer") := by decide +kernel
  have same := (keeps _ failed).1 "owl"
  have before : damaged.posting "owl" = .ok {7} := by decide +kernel
  have after : damaged.mergeDelta.2.posting "owl" = .ok ∅ := by decide +kernel
  rw [before,after] at same
  exact absurd (Except.ok.inj same) (by decide)

end MappedState

end ApexBase.Fts
