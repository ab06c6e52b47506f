import ApexBase.Fts.Query
import ApexBase.Library.Wire

/-! The term directory of a snapshot that is read lazily (`fts/index.rs`). The cache of decoded postings is left out:
it answers what decoding answers. -/
namespace ApexBase.Fts
open Library.Wire Library.Assoc

def termDirectoryEntryBytes : Nat := 40

def postingCodecRoaring : Nat := 0

def postingCodecSingleDoc : Nat := 1

structure MmapTermMeta where
  termOffset : Nat
  termLen : Nat
  termId : UInt32
  postingValue : UInt64
  postingLen : Nat
  postingCodec : Nat

/-- What the crates do: reading a bitmap gives it with the bytes it takes, or a message; text that
is no UTF-8 has one too. -/
structure Decoding where
  deserialize : Bytes → Except String (DocSet × Nat)
  invalidUtf8 : Bytes → String

structure RawDirectory where
  mmap : Bytes
  directoryOffset : Nat
  termCount : Nat

namespace RawDirectory
variable (decoding : Decoding) (raw : RawDirectory)

def readAt (width offset : Nat) : Except FtsError Nat :=
  if offset + width ≤ raw.mmap.length then .ok (ofLe ((raw.mmap.drop offset).take width))
  else .error (.corruptIndex "term directory exceeds snapshot bounds")

def checkCodec (postingValue postingLen postingCodec : Nat) : Except FtsError Unit :=
  if postingCodec = postingCodecRoaring then
    if raw.mmap.length - 4 < postingValue + postingLen then
      .error (.corruptIndex "posting entry exceeds snapshot bounds") else .ok ()
  else if postingCodec = postingCodecSingleDoc then
    if postingLen = 0 then .ok () else .error (.corruptIndex "single-document posting has a payload")
  else .error (.corruptIndex ("unsupported posting codec " ++ toString postingCodec))

def metaAt (index : Nat) : Except FtsError MmapTermMeta := do
  if raw.termCount ≤ index then .error (.corruptIndex "term directory index out of bounds")
  else
    let offset := raw.directoryOffset + index * termDirectoryEntryBytes
    let termOffset ← raw.readAt 8 offset
    let termLen ← raw.readAt 4 (offset + 8)
    let termId ← raw.readAt 4 (offset + 12)
    let postingValue ← raw.readAt 8 (offset + 16)
    let postingLen ← raw.readAt 8 (offset + 24)
    let postingCodec ← raw.readAt 4 (offset + 32)
    if maxTermBytes < termLen ∨ raw.mmap.length - 4 < termOffset + termLen then
      .error (.corruptIndex "term entry exceeds snapshot bounds")
    else
      raw.checkCodec postingValue postingLen postingCodec
      .ok ⟨termOffset,termLen,.ofNat termId,.ofNat postingValue,postingLen,postingCodec⟩

def termBytes (info : MmapTermMeta) : Except FtsError Bytes :=
  if info.termOffset + info.termLen ≤ raw.mmap.length then .ok ((raw.mmap.drop info.termOffset).take info.termLen)
  else .error (.corruptIndex "term exceeds snapshot bounds")

def termText (bytes : Bytes) : Except FtsError String :=
  match fromUtf8 bytes with
  | some term => .ok term
  | none => .error (.corruptIndex ("invalid term UTF-8: " ++ decoding.invalidUtf8 bytes))

def term (index : Nat) : Except FtsError String := do
  let info ← raw.metaAt index
  termText decoding (← raw.termBytes info)

/-- The loop of `new`: every entry can be read, and the terms ascend. -/
def checkFrom (previous : Option Bytes) : List Nat → Except FtsError Unit
  | [] => .ok ()
  | index :: rest => do
    let info ← raw.metaAt index
    let term ← raw.termBytes info
    let _ ← termText decoding term
    if previous.any fun value => compare value term != .lt then
      .error (.corruptIndex "mmap term directory is not strictly sorted")
    else checkFrom (some term) rest

def check : Except FtsError Unit := raw.checkFrom decoding none (List.range raw.termCount)

def findIn (term : Bytes) : Nat → Nat → Nat → Except FtsError (Option (Nat × MmapTermMeta))
  | 0,_,_ => .ok none
  | fuel + 1,low,high =>
    if low < high then do
      let mid := low + (high - low) / 2
      let info ← raw.metaAt mid
      let bytes ← raw.termBytes info
      match compare bytes term with
      | .lt => findIn term fuel (mid + 1) high
      | .gt => findIn term fuel low mid
      | .eq => .ok (some (mid,info))
    else .ok none

def find (term : String) : Except FtsError (Option (Nat × MmapTermMeta)) :=
  raw.findIn (utf8 term) raw.termCount 0 raw.termCount

def decodePosting (info : MmapTermMeta) : Except FtsError Posting :=
  if info.postingCodec = postingCodecSingleDoc then .ok ⟨info.termId,.one info.postingValue⟩
  else
    let bytes := (raw.mmap.drop info.postingValue.toNat).take info.postingLen
    match decoding.deserialize bytes with
    | .error message => .error (.corruptIndex ("invalid mmap posting: " ++ message))
    | .ok (docs,position) =>
      if position ≠ bytes.length then .error (.corruptIndex "unexpected bytes after mmap posting")
      else .ok ⟨info.termId,.fromRoaring docs⟩

def decodeAt (index : Nat) : Except FtsError Posting := do
  raw.decodePosting decoding (← raw.metaAt index)

def posting (term : String) : Except FtsError (Option Posting) := do
  match ← raw.find term with
  | none => .ok none
  | some (_,info) =>
    if info.postingCodec = postingCodecSingleDoc then .ok (some ⟨info.termId,.one info.postingValue⟩)
    else some <$> raw.decodePosting decoding info

def termId (term : String) : Option UInt32 := (raw.find term).toOption.join.map fun found => found.2.termId

def terms : Except FtsError (List String) := (List.range raw.termCount).mapM (raw.term decoding)

def materializeAt (postings : Postings) (index : Nat) : Except FtsError Postings := do
  let info ← raw.metaAt index
  let term ← termText decoding (← raw.termBytes info)
  let posting ← raw.decodePosting decoding info
  .ok (postings.insert term posting)

def materialize : Except FtsError Postings := (List.range raw.termCount).foldlM (raw.materializeAt decoding) ∅

end RawDirectory

structure MmapTermDirectory (decoding : Decoding) extends RawDirectory where
  checked : toRawDirectory.check decoding = .ok ()

def MmapTermDirectory.new (decoding : Decoding) (raw : RawDirectory) : Except FtsError (MmapTermDirectory decoding) :=
  match checked : raw.check decoding with
  | .ok () => .ok ⟨raw,checked⟩
  | .error error => .error error

namespace RawDirectory
variable {decoding : Decoding} {raw : RawDirectory}

theorem termText_eq_ok {bytes : Bytes} {term : String} : termText decoding bytes = .ok term ↔ bytes = utf8 term := by
  unfold termText
  constructor
  · intro text
    cases decoded : fromUtf8 bytes with
    | none =>
      rw [decoded] at text
      cases text
    | some other =>
      rw [decoded] at text
      rw [← Except.ok.inj text]
      exact (utf8_of_fromUtf8 decoded).symm
  · rintro rfl
    rw [fromUtf8_utf8]

def Reads (raw : RawDirectory) (index : Nat) (info : MmapTermMeta) (term : String) : Prop :=
  raw.metaAt index = .ok info ∧ raw.termBytes info = .ok (utf8 term)

theorem utf8_inj {term other : String} (same : utf8 term = utf8 other) : term = other := by
  have decoded := fromUtf8_utf8 term
  rw [same,fromUtf8_utf8] at decoded
  exact (Option.some.inj decoded).symm

theorem Reads.unique {index : Nat} {info other : MmapTermMeta} {term word : String} (reads : raw.Reads index info term)
    (again : raw.Reads index other word) : info = other ∧ term = word := by
  obtain rfl : info = other := Except.ok.inj (reads.1.symm.trans again.1)
  exact ⟨rfl,utf8_inj (Except.ok.inj (reads.2.symm.trans again.2))⟩

theorem reads_of_check {previous : Option Bytes} {indexes : List Nat}
    (checked : raw.checkFrom decoding previous indexes = .ok ()) :
    (∀ index ∈ indexes, ∃ info term, raw.Reads index info term ∧ ∀ value ∈ previous, compare value (utf8 term) = .lt) ∧
    indexes.Pairwise fun first second => ∀ info term other word, raw.Reads first info term →
    raw.Reads second other word →
      compare (utf8 term) (utf8 word) = .lt := by
  induction indexes generalizing previous with
  | nil => exact ⟨by simp,List.Pairwise.nil⟩
  | cons index rest ih =>
    unfold checkFrom at checked
    obtain ⟨info,found,checked⟩ := bind_eq_ok.mp checked
    obtain ⟨bytes,taken,checked⟩ := bind_eq_ok.mp checked
    obtain ⟨term,text,checked⟩ := bind_eq_ok.mp checked
    obtain rfl := termText_eq_ok.mp text
    split at checked
    · cases checked
    · rename_i ascends
      obtain ⟨each,sorted⟩ := ih checked
      have below : ∀ value ∈ previous, compare value (utf8 term) = .lt := by
        intro value member
        rw [Option.mem_def.mp member,Option.any_some] at ascends
        simpa using ascends
      refine ⟨fun other member => ?_,List.pairwise_cons.mpr ⟨fun other member => ?_,sorted⟩⟩
      · rcases List.mem_cons.mp member with rfl | later
        · exact ⟨info,term,⟨found,taken⟩,below⟩
        · obtain ⟨info',term',reads,above⟩ := each other later
          exact ⟨info',term',reads,fun value known => Std.TransCmp.lt_trans (below value known) (above _ rfl)⟩
      · intro info₁ term₁ info₂ term₂ first second
        obtain ⟨info',term',reads,above⟩ := each other member
        rw [(first.unique ⟨found,taken⟩).2,(second.unique reads).2]
        exact above _ rfl

end RawDirectory

namespace MmapTermDirectory
open RawDirectory
variable {decoding : Decoding} (directory : MmapTermDirectory decoding)

theorem reads {index : Nat} (inside : index < directory.termCount) : ∃ info term, directory.Reads index info term := by
  obtain ⟨info,term,reads,_⟩ := (reads_of_check directory.checked).1 index (List.mem_range.mpr inside)
  exact ⟨info,term,reads⟩

theorem ascends {first second : Nat} (less : first < second) (inside : second < directory.termCount)
    {info other : MmapTermMeta} {term word : String} (reads : directory.Reads first info term)
    (again : directory.Reads second other word) :
    compare (utf8 term) (utf8 word) = .lt := by
  have sorted := List.pairwise_iff_getElem.mp (reads_of_check directory.checked).2 first second (by simp; omega)
    (by simpa using inside) less
  rw [List.getElem_range,List.getElem_range] at sorted
  exact sorted info term other word reads again

theorem findIn_succ (word : Bytes) (fuel : Nat) {low high : Nat} (less : low < high)
    (inside : high ≤ directory.termCount) :
    ∃ info term, directory.Reads (low + (high - low) / 2) info term ∧
      directory.findIn word (fuel + 1) low high = match compare (utf8 term) word with
        | .lt => directory.findIn word fuel (low + (high - low) / 2 + 1) high
        | .gt => directory.findIn word fuel low (low + (high - low) / 2)
        | .eq => .ok (some (low + (high - low) / 2,info)) := by
  have middle : low + (high - low) / 2 < directory.termCount := by omega
  obtain ⟨info,term,reads⟩ := directory.reads middle
  refine ⟨info,term,reads,?_⟩
  rw [findIn,if_pos less]
  simp only [reads.1,reads.2,bind,Except.bind]

theorem findIn_hit {index : Nat} {info : MmapTermMeta} {term : String} (reads : directory.Reads index info term)
    (fuel : Nat) {low high : Nat} (lower : low ≤ index) (upper : index < high) (inside : high ≤ directory.termCount)
    (enough : high - low ≤ fuel) :
    directory.findIn (utf8 term) fuel low high = .ok (some (index,info)) := by
  induction fuel generalizing low high with
  | zero => omega
  | succ fuel ih =>
    obtain ⟨other,word,here,probed⟩ := directory.findIn_succ (utf8 term) fuel (Nat.lt_of_le_of_lt lower upper) inside
    rw [probed]
    rcases Nat.lt_trichotomy (low + (high - low) / 2) index with below | same | above
    · rw [directory.ascends below (by omega) here reads]
      exact ih (by omega) upper inside (by omega)
    · rw [same] at here ⊢
      obtain ⟨rfl,rfl⟩ := reads.unique here
      have equal : compare (utf8 term) (utf8 term) = .eq := Std.ReflOrd.compare_self
      rw [equal]
    · have greater := directory.ascends above (by omega) reads here
      rw [Std.OrientedCmp.gt_of_lt greater]
      exact ih lower above (by omega) (by omega)

theorem findIn_miss {term : String} (absent : ∀ index < directory.termCount, ∀ info, ¬ directory.Reads index info term)
    (fuel : Nat) {low high : Nat}
    (inside : high ≤ directory.termCount) : directory.findIn (utf8 term) fuel low high = .ok none := by
  induction fuel generalizing low high with
  | zero => rfl
  | succ fuel ih =>
    by_cases less : low < high
    · obtain ⟨other,word,here,probed⟩ := directory.findIn_succ (utf8 term) fuel less inside
      rw [probed]
      cases compared : compare (utf8 word) (utf8 term) with
      | lt => exact ih inside
      | gt => exact ih (by omega)
      | eq =>
        have same : word = term := utf8_inj (Std.LawfulEqOrd.eq_of_compare compared)
        exact absurd (same ▸ here) (absent _ (by omega) other)
    · rw [findIn,if_neg less]

theorem find_hit {index : Nat} {info : MmapTermMeta} {term : String} (inside : index < directory.termCount)
    (reads : directory.Reads index info term) :
    directory.find term = .ok (some (index,info)) :=
  directory.findIn_hit reads _ (Nat.zero_le _) inside (Nat.le_refl _) (by omega)

theorem find_miss {term : String} (absent : ∀ index < directory.termCount, ∀ info, ¬ directory.Reads index info term) :
    directory.find term = .ok none :=
  directory.findIn_miss absent _ (Nat.le_refl _)

section
variable {index : Nat} {info : MmapTermMeta} {term : String}

theorem decodeAt_eq (reads : directory.Reads index info term) :
    directory.decodeAt decoding index = directory.decodePosting decoding info := by
  rw [decodeAt,reads.1]
  rfl

theorem term_eq (reads : directory.Reads index info term) :
    directory.term decoding index = .ok term := by
  rw [RawDirectory.term,reads.1]
  simp only [bind,Except.bind,reads.2]
  exact termText_eq_ok.mpr rfl

theorem posting_hit (inside : index < directory.termCount)
    (reads : directory.Reads index info term) :
    directory.posting decoding term = some <$> directory.decodeAt decoding index := by
  unfold RawDirectory.posting
  rw [directory.find_hit inside reads,directory.decodeAt_eq reads]
  simp only [bind,Except.bind]
  split
  · rename_i single
    rw [decodePosting,if_pos single]
    rfl
  · rfl

end

theorem posting_miss {term : String}
    (absent : ∀ index < directory.termCount, ∀ info, ¬ directory.Reads index info term) :
    directory.posting decoding term = .ok none := by
  unfold RawDirectory.posting
  rw [directory.find_miss absent]
  rfl

theorem materializeAt_eq {index : Nat} {info : MmapTermMeta} {term : String} (reads : directory.Reads index info term)
    (postings : Postings) :
    directory.materializeAt decoding postings index = (fun posting => postings.insert term posting) <$>
    directory.decodeAt decoding index := by
  rw [materializeAt,directory.decodeAt_eq reads,reads.1]
  simp only [bind,Except.bind,reads.2,termText_eq_ok.mpr rfl]
  cases directory.decodePosting decoding info with
  | error error => rfl
  | ok posting => rfl

theorem foldlM_materializeAt (indexes : List Nat) (inside : ∀ index ∈ indexes, index < directory.termCount)
    (ascending : indexes.Pairwise (· < ·))
    (start : Postings) :
    (∃ postings, indexes.foldlM (directory.materializeAt decoding) start = .ok postings ∧
      (∀ index ∈ indexes, ∃ posting, directory.decodeAt decoding index = .ok posting) ∧
      ∀ term, (∃ index ∈ indexes, ∃ info posting, directory.Reads index info term ∧
        directory.decodeAt decoding index = .ok posting ∧ postings.lookup term = some posting) ∨
        (∀ index ∈ indexes, ∀ info, ¬ directory.Reads index info term) ∧ postings.lookup term = start.lookup term) ∨
    ∃ error, indexes.foldlM (directory.materializeAt decoding) start = .error error ∧
    ∃ index ∈ indexes, directory.decodeAt decoding index = .error error := by
  induction indexes generalizing start with
  | nil => exact Or.inl ⟨start,rfl,by simp,fun term => Or.inr ⟨by simp,rfl⟩⟩
  | cons index rest ih =>
    obtain ⟨info,word,reads⟩ := directory.reads (inside index List.mem_cons_self)
    obtain ⟨before,later⟩ := List.pairwise_cons.mp ascending
    rw [List.foldlM_cons,directory.materializeAt_eq reads]
    cases decoded : directory.decodeAt decoding index with
    | error error => exact Or.inr ⟨error,rfl,index,List.mem_cons_self,decoded⟩
    | ok posting =>
      simp only [Functor.map,Except.map,bind,Except.bind]
      rcases ih (fun other member => inside other (List.mem_cons_of_mem _ member)) later
        (start.insert word posting) with
        ⟨postings,ran,each,found⟩ | ⟨error,ran,other,member,failed⟩
      · refine Or.inl ⟨postings,ran,?_,fun term => ?_⟩
        · intro other member
          rcases List.mem_cons.mp member with rfl | after
          · exact ⟨posting,decoded⟩
          · exact each other after
        · rcases found term with ⟨other,member,here⟩ | ⟨absent,kept⟩
          · exact Or.inl ⟨other,List.mem_cons_of_mem _ member,here⟩
          · by_cases same : term = word
            · rw [same,AList.lookup_insert] at kept
              exact Or.inl ⟨index,List.mem_cons_self,info,posting,same ▸ reads,decoded,same ▸ kept⟩
            · rw [AList.lookup_insert_ne same] at kept
              refine Or.inr ⟨fun other member info' again => ?_,kept⟩
              rcases List.mem_cons.mp member with rfl | after
              · exact same (again.unique reads).2
              · exact absent other after info' again
      · exact Or.inr ⟨error,ran,other,List.mem_cons_of_mem _ member,failed⟩

theorem materialize_ok {postings : Postings} (ran : directory.materialize decoding = .ok postings) :
    (∀ index < directory.termCount, ∃ posting, directory.decodeAt decoding index = .ok posting) ∧
      ∀ term, directory.posting decoding term = .ok (postings.lookup term) := by
  rcases directory.foldlM_materializeAt (List.range directory.termCount) (by simp) List.pairwise_lt_range ∅ with ⟨found,
    all,each,entries⟩ | ⟨error,failed,_⟩
  · obtain rfl : postings = found := Except.ok.inj (ran.symm.trans all)
    refine ⟨fun index less => each index (List.mem_range.mpr less),fun term => ?_⟩
    rcases entries term with ⟨index,member,info,posting,reads,decoded,here⟩ | ⟨absent,missing⟩
    · rw [directory.posting_hit (List.mem_range.mp member) reads,decoded,here]
      rfl
    · rw [directory.posting_miss fun index less => absent index (List.mem_range.mpr less),missing,AList.lookup_empty]
  · exact nomatch ran.symm.trans failed

theorem materialize_error {error : FtsError} (ran : directory.materialize decoding = .error error) :
    ∃ index < directory.termCount, directory.decodeAt decoding index = .error error := by
  rcases directory.foldlM_materializeAt (List.range directory.termCount) (by simp) List.pairwise_lt_range ∅ with ⟨found,
    all,_⟩ | ⟨other,failed,index,member,bad⟩
  · exact nomatch ran.symm.trans all
  · obtain rfl : error = other := Except.error.inj (ran.symm.trans failed)
    exact ⟨index,List.mem_range.mp member,bad⟩

end MmapTermDirectory

end ApexBase.Fts
