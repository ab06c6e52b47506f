import ApexBase.Fts.Sessions

/-! The ids of terms: which an index has handed out, and the token lists spelled with them. -/
namespace ApexBase.Fts
open Library Library.Assoc

theorem toNat_max_one (value : UInt32) : (max value 1).toNat = max value.toNat 1 := by
  change (if value ≤ 1 then 1 else value : UInt32).toNat = _
  split
  · rename_i small
    have small : value.toNat ≤ 1 := UInt32.le_iff_toNat_le.mp small
    rw [Nat.max_eq_right small]
    rfl
  · rename_i large
    have large : ¬ value.toNat ≤ 1 := fun small => large (UInt32.le_iff_toNat_le.mpr small)
    rw [Nat.max_eq_left (by omega)]

theorem toNat_saturatingSucc {value : UInt32} (room : value.toNat < 2^32 - 1) :
    (IndexState.saturatingSucc value).toNat = value.toNat + 1 := by
  unfold IndexState.saturatingSucc
  rw [if_neg (by omega),UInt32.toNat_add]
  exact Nat.mod_eq_of_lt (by simp; omega)

/-- Distinct terms have distinct ids, none of them zero, and the next one is greater than all. -/
structure Interns (ids : String → Option UInt32) (next : UInt32) : Prop where
  apart : ∀ term other a, ids term = some a → ids other = some a → term = other
  positive : ∀ term a, ids term = some a → 0 < a.toNat
  below : ∀ term a, ids term = some a → a.toNat < next.toNat

structure Interned (ids later : String → Option UInt32) (next following : UInt32) (term : String) (id : UInt32) :
    Prop where
  updates : ∀ other, later other = if other = term then some id else ids other
  known : ids term = some id ∧ following = next ∨ ids term = none ∧ id = max next 1 ∧
    following.toNat = max next.toNat 1 + 1

def newTerms (ids : String → Option UInt32) (terms : List String) :
    Finset String := terms.toFinset.filter fun term => (ids term).isNone

def Room (ids : String → Option UInt32) (next : UInt32) (terms : List String) : Prop :=
  max next.toNat 1 + (newTerms ids terms).card ≤ 2^32 - 1

instance {ids : String → Option UInt32} {next : UInt32} {terms : List String} :
    Decidable (Room ids next terms) := inferInstanceAs (Decidable (_ ≤ _))

theorem newTerms_cons (ids : String → Option UInt32) (term : String) (terms : List String) :
    newTerms ids (term :: terms) =
    if (ids term).isNone then insert term (newTerms ids terms) else newTerms ids terms := by
  unfold newTerms
  rw [List.toFinset_cons,Finset.filter_insert]

namespace Interns
variable {ids fewer : String → Option UInt32} {next : UInt32}

theorem mono (interns : Interns ids next) (subset : ∀ term a, fewer term = some a → ids term = some a) :
    Interns fewer next :=
  ⟨fun term other a here there => interns.apart term other a (subset _ _ here) (subset _ _ there),
    fun term a here => interns.positive term a (subset _ _ here),fun term a here =>
      interns.below term a (subset _ _ here)⟩

theorem nothing (next : UInt32) : Interns (fun _ => none) next := ⟨nofun,nofun,nofun⟩

end Interns

namespace Interned
variable {ids later : String → Option UInt32} {next following : UInt32} {term : String} {id : UInt32}
  (interned : Interned ids later next following term id)
include interned

theorem here : later term = some id := (interned.updates term).trans (if_pos rfl)

theorem keeps {other : String} {a : UInt32} (found : ids other = some a) : later other = some a := by
  rw [interned.updates]
  split
  · rename_i same
    rcases interned.known with ⟨known,_⟩ | ⟨unknown,_⟩
    · rw [← known,← same,found]
    · rw [same,unknown] at found
      cases found
  · exact found

theorem newTerms_subset (terms : List String) : newTerms later terms ⊆ (newTerms ids terms).erase term := by
  intro other member
  obtain ⟨among,none_⟩ := Finset.mem_filter.mp member
  rw [Option.isNone_iff_eq_none,interned.updates] at none_
  by_cases same : other = term
  · rw [if_pos same] at none_
    cases none_
  · rw [if_neg same] at none_
    exact Finset.mem_erase.mpr ⟨same,Finset.mem_filter.mpr ⟨among,Option.isNone_iff_eq_none.mpr none_⟩⟩

theorem interns (before : Interns ids next) : Interns later following := by
  rcases interned.known with ⟨known,same⟩ | ⟨unknown,fresh,greater⟩
  · rw [same]
    refine before.mono fun other a found => ?_
    rw [interned.updates] at found
    split at found
    · rename_i same
      rw [same,known,found]
    · exact found
  · have distinct : ∀ {other : String} {a : UInt32}, ids other = some a → a ≠ id := by
      intro other a there same
      have below := before.below other a there
      rw [same,fresh,toNat_max_one] at below
      omega
    have cases_ : ∀ {other : String} {a : UInt32}, later other = some a → ids other = some a ∨ other = term ∧
      a = id := by
      intro other a found
      rw [interned.updates] at found
      split at found
      · rename_i same
        exact Or.inr ⟨same,(Option.some.inj found).symm⟩
      · exact Or.inl found
    have size : id.toNat = max next.toNat 1 := by rw [fresh,toNat_max_one]
    refine ⟨fun first second a one two => ?_,fun other a found => ?_,fun other a found => ?_⟩
    · rcases cases_ one with one | ⟨rfl,rfl⟩
      · rcases cases_ two with two | ⟨_,same⟩
        · exact before.apart first second a one two
        · exact absurd same (distinct one)
      · rcases cases_ two with two | ⟨same,_⟩
        · exact absurd rfl (distinct two)
        · exact same.symm
    · rcases cases_ found with old | ⟨_,rfl⟩
      · exact before.positive other a old
      · omega
    · rcases cases_ found with old | ⟨_,rfl⟩
      · have below := before.below other a old
        omega
      · omega

theorem room {terms : List String} (before : Room ids next (term :: terms)) : Room later following terms := by
  have less := Finset.card_le_card (interned.newTerms_subset terms)
  unfold Room at before ⊢
  rw [newTerms_cons] at before
  rcases interned.known with ⟨known,rfl⟩ | ⟨unknown,_,greater⟩
  · rw [known,Option.isNone_some,if_neg Bool.false_ne_true] at before
    have erased : ((newTerms ids terms).erase term).card ≤ (newTerms ids terms).card := Finset.card_erase_le
    omega
  · rw [unknown,Option.isNone_none,if_pos rfl] at before
    have counted := Finset.card_insert_of_notMem (Finset.notMem_erase term (newTerms ids terms))
    have fits : (insert term ((newTerms ids terms).erase term)).card ≤ (insert term (newTerms ids terms)).card :=
      Finset.card_le_card (Finset.insert_subset_insert term (Finset.erase_subset term _))
    omega

end Interned

theorem foldl_interned {σ : Type} (ids : σ → String → Option UInt32) (next : σ → UInt32) (out : σ → List UInt32)
    (ready : σ → Prop) {step : σ → String → σ}
    (interned : ∀ state term rest, ready state → Room (ids state) (next state) (term :: rest) →
      ready (step state term) ∧
      ∃ id, out (step state term) = out state ++ [id] ∧ Interned (ids state) (ids (step state term)) (next state)
        (next (step state term)) term id)
    (terms more : List String) (state : σ) (start : ready state) (interns : Interns (ids state) (next state))
    (room : Room (ids state) (next state) (terms ++ more)) :
    out (terms.foldl step state) = out state ++ terms.map (fun term => (ids (terms.foldl step state) term).getD 0) ∧
      (∀ other a, ids state other = some a → ids (terms.foldl step state) other = some a) ∧
      (∀ term ∈ terms, ∃ id, ids (terms.foldl step state) term = some id) ∧
      ready (terms.foldl step state) ∧ Interns (ids (terms.foldl step state)) (next (terms.foldl step state)) ∧
      Room (ids (terms.foldl step state)) (next (terms.foldl step state)) more := by
  induction terms generalizing state with
  | nil => exact ⟨(List.append_nil _).symm,fun _ _ found => found,nofun,start,interns,room⟩
  | cons term rest ih =>
    obtain ⟨ready_,id,put,one⟩ := interned state term (rest ++ more) start room
    obtain ⟨all,later,others,final⟩ := ih (step state term) ready_ (one.interns interns) (one.room room)
    refine ⟨?_,fun other a found => later other a (one.keeps found),fun other member => ?_,final⟩
    · rw [List.foldl_cons,all,put,List.map_cons,later term id one.here,Option.getD_some,List.append_assoc]
      rfl
    · rcases List.mem_cons.mp member with rfl | rest_
      · exact ⟨id,later other id one.here⟩
      · exact others other rest_

def spell (ids : String → Option UInt32) (document : AnalyzedDocument) : List UInt32 :=
  IndexState.globalTokens (document.terms.map fun term => (ids term).getD 0) document.tokens

theorem spell_congr {f g : String → Option UInt32} {document : AnalyzedDocument}
    (same : ∀ term ∈ document.terms, f term = g term) :
    spell f document = spell g document := by
  unfold spell
  congr 1
  refine List.map_congr_left fun term member => ?_
  rw [same term member]

/-- The token list of a document maps back, term by term, to the analysed one. -/
def MapsBack (termId : String → Option UInt32) (document : AnalyzedDocument) (tokens : List UInt32) : Prop :=
  List.Forall₂ (fun id token => if token = 0 then id = 0 else ∃ term, document.terms[token.toNat - 1]? = some term ∧
    termId term = some id)
    tokens document.tokens

theorem mapsBack_spell {termId : String → Option UInt32} {document : AnalyzedDocument}
    (known : ∀ term ∈ document.terms, (termId term).isSome) :
    MapsBack termId document (spell termId document) := by
  unfold MapsBack spell IndexState.globalTokens
  rw [List.forall₂_map_left_iff,List.forall₂_same]
  intro token member
  split
  · rfl
  · rename_i word
    have inside := document.inside token member
    have positive : token.toNat ≠ 0 := fun zero => word (UInt32.toNat_inj.mp zero)
    have within : token.toNat - 1 < document.terms.length := by omega
    obtain ⟨id,found⟩ := Option.isSome_iff_exists.mp (known _ (List.getElem_mem within))
    refine ⟨_,List.getElem?_eq_getElem within,?_⟩
    rw [List.getElem?_map,List.getElem?_eq_getElem within,Option.map_some,Option.getD_some,found,Option.getD_some]

def occurrences (document : AnalyzedDocument) (term : String) : Nat :=
  document.tokens.countP fun token => decide (token ≠ 0 ∧ document.terms[token.toNat - 1]? = some term)

theorem count_of_mapsBack {termId : String → Option UInt32} {document : AnalyzedDocument} {tokens : List UInt32}
    (back : MapsBack termId document tokens) {term : String} {id : UInt32} (known : termId term = some id)
    (positive : id ≠ 0)
    (apart : ∀ other, termId other = some id → other = term) : tokens.count id = occurrences document term := by
  unfold occurrences
  unfold MapsBack at back
  generalize document.tokens = analyzed at back ⊢
  induction back with
  | nil => rfl
  | @cons here token rest more head _ ih =>
    rw [List.count_cons,List.countP_cons,ih]
    congr 1
    by_cases boundary : token = 0
    · rw [if_pos boundary] at head
      have notHere : ¬ (here == id) = true := by
        rw [beq_iff_eq,head]
        exact Ne.symm positive
      rw [if_neg notHere,if_neg (by simp [boundary])]
    · rw [if_neg boundary] at head
      obtain ⟨other,stands,found⟩ := head
      by_cases same : here = id
      · rw [same] at found
        rw [if_pos (by simpa using same),if_pos (by simp [boundary,stands,apart other found])]
      · have different : other ≠ term := by
          rintro rfl
          rw [known] at found
          exact same (Option.some.inj found).symm
        rw [if_neg (by simpa using same),if_neg (by simp [stands,different])]

structure Recorded (ids : String → Option UInt32) (tokens : PackedDocTokens) (old : Contents) : Prop where
  sorted : tokens.records.Pairwise fun a b => a.1 ≤ b.1
  spelled : ∀ record ∈ tokens.records, ∃ document, old record.1 = some document ∧ record.2 = spell ids document
  complete : ∀ docId document, old docId = some document → ∃ list, (docId,list) ∈ tokens.records

theorem mem_fromRecords (records : List (UInt64 × List UInt32)) (record : UInt64 × List UInt32) :
    record ∈ (PackedDocTokens.fromRecords records).records ↔ record ∈ records := List.mem_insertionSort _

theorem sorted_fromRecords (records : List (UInt64 × List UInt32)) :
    (PackedDocTokens.fromRecords records).records.Pairwise fun a b => a.1 ≤ b.1 := by
  have total : Std.Total fun a b : UInt64 × List UInt32 => a.1 ≤ b.1 := ⟨fun a b => le_total a.1 b.1⟩
  have trans : IsTrans (UInt64 × List UInt32) fun a b => a.1 ≤ b.1 := ⟨fun _ _ _ => le_trans⟩
  exact List.pairwise_insertionSort _ _

theorem recorded_fromRecords {ids : String → Option UInt32} {records : List (UInt64 × List UInt32)} {old : Contents}
    (spelled : ∀ record ∈ records, ∃ document, old record.1 = some document ∧ record.2 = spell ids document)
    (complete : ∀ docId document, old docId = some document → ∃ list, (docId,list) ∈ records) :
    Recorded ids (.fromRecords records) old :=
  ⟨sorted_fromRecords records,fun record member => spelled record ((mem_fromRecords records record).mp member),
    fun docId document some_ => (complete docId document some_).imp fun _ member =>
      (mem_fromRecords records _).mpr member⟩

theorem get_of_mem {tokens : PackedDocTokens} (sorted : tokens.records.Pairwise fun a b => a.1 ≤ b.1) {docId : UInt64}
    {list : List UInt32}
    (member : (docId,list) ∈ tokens.records) : ∃ found, tokens.get docId = some found ∧
    (docId,found) ∈ tokens.records := by
  obtain ⟨target,inside,here⟩ := List.mem_iff_getElem.mp member
  have key : ∀ index, (within : index < tokens.records.length) →
      ((tokens.records[index]?.map Prod.fst).getD 0) = (tokens.records[index]).1 := by
    intro index within
    rw [List.getElem?_eq_getElem within,Option.map_some,Option.getD_some]
  have ordered : ∀ first last, (within : last < tokens.records.length) → (less : first ≤ last) →
      (tokens.records[first]).1 ≤ (tokens.records[last]).1 := by
    intro first last within less
    rcases Nat.lt_or_eq_of_le less with before | same
    · exact List.pairwise_iff_getElem.mp sorted first last (before.trans within) within before
    · simp only [same]
      exact le_refl _
  obtain ⟨mid,bottom,top,landed⟩ :=
    Search.bisect_found (fun index => compare ((tokens.records[index]?.map Prod.fst).getD 0) docId)
      tokens.records.length (Nat.zero_le target) inside (Nat.sub_le _ _) (by
        intro index within less
        simp only [key index within] at less
        by_contra after
        have low := ordered target index within (Nat.not_lt.mp after)
        rw [here] at low
        exact absurd (compare_lt_iff_lt.mp less) (not_lt.mpr low)) (by
        intro index within greater
        simp only [key index within] at greater
        by_contra before
        have high := ordered index target inside (Nat.not_lt.mp before)
        rw [here] at high
        exact absurd (compare_gt_iff_gt.mp greater) (not_lt.mpr high))
  obtain ⟨equal,within⟩ := Search.bisect_hit _ landed
  simp only [key mid within] at equal
  refine ⟨(tokens.records[mid]).2,?_,?_⟩
  · unfold PackedDocTokens.get
    simp only [landed]
    rw [List.getElem?_eq_getElem within,Option.map_some]
  · rw [← compare_eq_iff_eq.mp equal]
    exact List.getElem_mem within

theorem Recorded.get {ids : String → Option UInt32} {tokens : PackedDocTokens} {old : Contents}
    (recorded : Recorded ids tokens old) {docId : UInt64} {document : AnalyzedDocument}
    (some_ : old docId = some document) :
    tokens.get docId = some (spell ids document) := by
  obtain ⟨list,member⟩ := recorded.complete docId document some_
  obtain ⟨found,got,there⟩ := get_of_mem recorded.sorted member
  obtain ⟨same,spelled,tokens_⟩ := recorded.spelled _ there
  rw [some_] at spelled
  rw [got,Option.some.inj spelled]
  exact congrArg some tokens_

namespace IndexState

def idOf (posting : Option Posting) : Option UInt32 := posting.map (·.termId)

theorem idOf_of_docs {posting : Option Posting} {docId : UInt64} (member : docId ∈ docsOf posting) :
    ∃ id, idOf posting = some id := by
  cases posting with
  | none => exact absurd member (Finset.notMem_empty docId)
  | some posting => exact ⟨_,rfl⟩

theorem termId_eq (state : IndexState) (term : String) :
    state.termId term = (idOf (state.deltaPostings.lookup term)).or (idOf (state.basePosting term)) := by
  unfold termId basePosting
  cases state.deltaPostings.lookup term with
  | some posting => rfl
  | none =>
    cases state.basePostings.lookup term with
    | some posting => rfl
    | none => rfl

theorem idOf_insert (postings : Postings) (term other : String) (posting : Posting) :
    idOf ((postings.insert term posting).lookup other) = if other = term then some posting.termId
      else idOf (postings.lookup other) := by
  rw [lookup_insert_eq]
  split
  · rfl
  · rfl

theorem idOf_retain {postings : Postings} {f : PostingDocs → PostingDocs} {keep : String → Posting → Bool}
    {term : String} {id : UInt32}
    (found : idOf ((retain keep (mapValues (fun posting => {posting with docs := f posting.docs}) postings)).lookup
      term) = some id) :
    idOf (postings.lookup term) = some id := by
  obtain ⟨posting,kept,rfl⟩ := Option.map_eq_some_iff.mp found
  have mapped := ((lookup_retain _ _ term posting).mp kept).1
  rw [lookup_mapValues] at mapped
  obtain ⟨before,there,rfl⟩ := Option.map_eq_some_iff.mp mapped
  rw [there]
  rfl

end IndexState
open IndexState (idOf)

structure Spelled (state : IndexState) (old new : Contents) : Prop where
  interns : Interns state.termId state.nextTermId
  /-- The delta has the ids of the base. -/
  agree : ∀ term id, idOf (state.basePosting term) = some id → state.termId term = some id
  recorded : Recorded (fun term => idOf (state.basePosting term)) state.baseTokens old
  delta : ∀ docId, state.deltaTokens.lookup docId = (new docId).map (spell state.termId)

section Delta
variable {state : IndexState} {docId : UInt64}

theorem toNat_allocate {next : UInt32} (room : max next.toNat 1 + 1 ≤ 2^32 - 1) :
    (IndexState.allocate next).2.toNat = max next.toNat 1 + 1 := by
  have succ := toNat_saturatingSucc (show next.toNat < 2^32 - 1 by omega)
  have first := toNat_max_one next
  unfold IndexState.allocate
  simp only
  split
  · rename_i behind
    rw [UInt32.le_iff_toNat_le,succ,first] at behind
    rw [toNat_saturatingSucc (by omega),first]
  · rename_i ahead
    rw [UInt32.le_iff_toNat_le,succ,first] at ahead
    rw [succ]
    omega

theorem Room.one {ids : String → Option UInt32} {next : UInt32} {term : String} {rest : List String}
    (room : Room ids next (term :: rest))
    (unknown : ids term = none) : max next.toNat 1 + 1 ≤ 2^32 - 1 := by
  unfold Room at room
  have member : term ∈ newTerms ids (term :: rest) :=
    Finset.mem_filter.mpr ⟨List.mem_toFinset.mpr List.mem_cons_self,Option.isNone_iff_eq_none.mpr unknown⟩
  have some_ := Finset.card_pos.mpr ⟨term,member⟩
  omega

theorem addDeltaTerm_interned (docId : UInt64) (adding : IndexState × List UInt32) (term : String) (rest : List String)
    (room : Room adding.1.termId adding.1.nextTermId (term :: rest)) :
    ∃ id, (IndexState.addDeltaTerm docId adding term).2 = adding.2 ++ [id] ∧
      Interned adding.1.termId (IndexState.addDeltaTerm docId adding term).1.termId adding.1.nextTermId
        (IndexState.addDeltaTerm docId adding term).1.nextTermId term id := by
  have ids : ∀ (id : UInt32) (docs : PostingDocs) (next : UInt32) (other : String),
      IndexState.termId {adding.1 with deltaPostings := adding.1.deltaPostings.insert term ⟨id,docs⟩,nextTermId := next}
        other =
        if other = term then some id else adding.1.termId other := by
    intro id docs next other
    rw [IndexState.termId_eq,IndexState.idOf_insert]
    split
    · rfl
    · exact (IndexState.termId_eq _ _).symm
  unfold IndexState.addDeltaTerm
  simp only
  split
  · rename_i posting found
    refine ⟨posting.termId,rfl,ids posting.termId _ adding.1.nextTermId,Or.inl ⟨?_,rfl⟩⟩
    rw [IndexState.termId_eq,found]
    rfl
  · cases known : adding.1.termId term with
    | some id => exact ⟨id,rfl,ids id _ adding.1.nextTermId,Or.inl ⟨known,rfl⟩⟩
    | none => exact ⟨_,rfl,ids _ _ _,Or.inr ⟨known,rfl,toNat_allocate (room.one known)⟩⟩

end Delta

end ApexBase.Fts
