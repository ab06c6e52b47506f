import Mathlib.Data.Finset.Max
import Mathlib.Data.Finset.Card
import Mathlib.Data.UInt

/-! The documents of a term (`fts/index.rs`): none, one, or a bitmap of several. A
`RoaringTreemap` is a finite set of document ids. -/
namespace ApexBase.Fts

instance linearOrderUInt64 : LinearOrder UInt64 where
  le_refl := UInt64.le_refl
  le_trans _ _ _ := UInt64.le_trans
  lt_iff_le_not_ge _ _ := by
    simp only [UInt64.le_iff_toNat_le,UInt64.lt_iff_toNat_lt]
    omega
  le_antisymm _ _ := UInt64.le_antisymm
  le_total := UInt64.le_total
  toDecidableLE := inferInstance

abbrev DocSet := Finset UInt64

inductive PostingDocs
  | empty
  | one (doc : UInt64)
  | roaring (docs : DocSet)
  deriving DecidableEq

namespace PostingDocs

/-- `docs.iter().next().unwrap()` on a set that is not empty. -/
def firstDoc (docs : DocSet) : UInt64 := docs.min.untopD 0

/-- A set in the form of its size. -/
def fromRoaring (docs : DocSet) : PostingDocs :=
  match docs.card with
  | 0 => .empty
  | 1 => .one (firstDoc docs)
  | _ => .roaring docs

def insert (doc : UInt64) : PostingDocs → PostingDocs
  | .empty => .one doc
  | .one existing => if existing = doc then .one existing else .roaring {existing,doc}
  | .roaring docs => .roaring (Insert.insert doc docs)

def remove (doc : UInt64) : PostingDocs → PostingDocs
  | .empty => .empty
  | .one existing => if existing = doc then .empty else .one existing
  | .roaring docs =>
    if doc ∉ docs then .roaring docs
    else if (docs.erase doc).card = 1 then .one (firstDoc (docs.erase doc))
    else .roaring (docs.erase doc)

def isEmpty : PostingDocs → Bool
  | .empty => true
  | _ => false

def toRoaring : PostingDocs → DocSet
  | .empty => ∅
  | .one doc => {doc}
  | .roaring docs => docs

def unionInto (posting : PostingDocs) (result : DocSet) : DocSet :=
  match posting with
  | .empty => result
  | .one doc => Insert.insert doc result
  | .roaring docs => result ∪ docs

def unionOwned (posting other : PostingDocs) : PostingDocs :=
  match other with
  | .empty => posting
  | .one doc => posting.insert doc
  | .roaring otherDocs =>
    match posting with
    | .empty => .roaring otherDocs
    | .one doc => .roaring (Insert.insert doc otherDocs)
    | .roaring docs => .roaring (docs ∪ otherDocs)

def subtract (removed : DocSet) : PostingDocs → PostingDocs
  | .empty => .empty
  | .one doc => if doc ∈ removed then .empty else .one doc
  | .roaring docs =>
    match (docs \ removed).card with
    | 0 => .empty
    | 1 => .one (firstDoc (docs \ removed))
    | _ => .roaring (docs \ removed)

/-- A bitmap holds at least two documents. -/
def Compact : PostingDocs → Prop
  | .roaring docs => 2 ≤ docs.card
  | _ => True

theorem singleton_firstDoc {docs : DocSet} (one : docs.card = 1) : {firstDoc docs} = docs := by
  obtain ⟨doc,rfl⟩ := Finset.card_eq_one.mp one
  simp [firstDoc]

@[simp] theorem toRoaring_fromRoaring (docs : DocSet) : (fromRoaring docs).toRoaring = docs := by
  unfold fromRoaring
  split
  · rename_i none_
    exact (Finset.card_eq_zero.mp none_).symm
  · rename_i one
    exact singleton_firstDoc one
  · rfl

theorem Compact.exists_mem {posting : PostingDocs} (compact : posting.Compact) (some_ : posting.isEmpty = false) :
    ∃ doc, doc ∈ posting.toRoaring := by
  cases posting with
  | empty => cases some_
  | one doc => exact ⟨doc,Finset.mem_singleton_self doc⟩
  | roaring docs => exact Finset.card_pos.mp (Nat.lt_of_lt_of_le Nat.zero_lt_two compact)

theorem compact_fromRoaring (docs : DocSet) : (fromRoaring docs).Compact := by
  unfold fromRoaring
  split
  · trivial
  · trivial
  · rename_i none_ one
    have some_ : docs.card ≠ 0 := none_
    have many : docs.card ≠ 1 := one
    change 2 ≤ docs.card
    omega

@[simp] theorem toRoaring_insert (doc : UInt64) (posting : PostingDocs) :
    (posting.insert doc).toRoaring = Insert.insert doc posting.toRoaring := by
  cases posting with
  | empty => rfl
  | one existing =>
    simp only [PostingDocs.insert]
    split
    · rename_i same
      simp [toRoaring,same]
    · exact Finset.pair_comm _ _
  | roaring docs => rfl

theorem Compact.insert {posting : PostingDocs} (compact : posting.Compact) (doc : UInt64) :
    (posting.insert doc).Compact := by
  cases posting with
  | empty => trivial
  | one existing =>
    simp only [PostingDocs.insert]
    split
    · trivial
    · rename_i other
      exact Nat.le_of_eq (Finset.card_pair other).symm
  | roaring docs => exact Nat.le_trans compact (Finset.card_le_card (Finset.subset_insert _ _))

theorem toRoaring_remove (doc : UInt64) (posting : PostingDocs) :
    (posting.remove doc).toRoaring = posting.toRoaring.erase doc := by
  cases posting with
  | empty => rfl
  | one existing =>
    simp only [PostingDocs.remove]
    split
    · rename_i same
      simp [toRoaring,same]
    · rename_i other
      exact (Finset.erase_eq_of_notMem (by simpa [toRoaring] using Ne.symm other)).symm
  | roaring docs =>
    simp only [PostingDocs.remove]
    split
    · rename_i absent
      exact (Finset.erase_eq_of_notMem absent).symm
    · split
      · rename_i one
        exact singleton_firstDoc one
      · rfl

theorem Compact.remove {posting : PostingDocs} (compact : posting.Compact) (doc : UInt64) :
    (posting.remove doc).Compact := by
  cases posting with
  | empty => trivial
  | one existing =>
    simp only [PostingDocs.remove]
    split <;> trivial
  | roaring docs =>
    simp only [PostingDocs.remove]
    split
    · exact compact
    · rename_i present
      split
      · trivial
      · rename_i several
        have size := Finset.card_erase_of_mem (not_not.mp present)
        have two : 2 ≤ docs.card := compact
        change 2 ≤ (docs.erase doc).card
        omega

theorem toRoaring_subtract (removed : DocSet) (posting : PostingDocs) :
    (posting.subtract removed).toRoaring = posting.toRoaring \ removed := by
  cases posting with
  | empty => exact (Finset.empty_sdiff removed).symm
  | one doc =>
    simp only [PostingDocs.subtract]
    split
    · rename_i member
      exact (Finset.sdiff_eq_empty_iff_subset.mpr (Finset.singleton_subset_iff.mpr member)).symm
    · rename_i absent
      exact (Finset.sdiff_eq_self_of_disjoint (Finset.disjoint_singleton_left.mpr absent)).symm
  | roaring docs =>
    have same := toRoaring_fromRoaring (docs \ removed)
    exact same

theorem Compact.subtract (removed : DocSet) {posting : PostingDocs} (compact : posting.Compact) :
    (posting.subtract removed).Compact := by
  cases posting with
  | empty => trivial
  | one doc =>
    simp only [PostingDocs.subtract]
    split <;> trivial
  | roaring docs => exact compact_fromRoaring (docs \ removed)

theorem toRoaring_unionInto (posting : PostingDocs) (result : DocSet) :
    posting.unionInto result = result ∪ posting.toRoaring := by
  cases posting with
  | empty => exact (Finset.union_empty _).symm
  | one doc => exact (Finset.union_singleton ..).symm
  | roaring docs => rfl

theorem toRoaring_unionOwned (posting other : PostingDocs) :
    (posting.unionOwned other).toRoaring = posting.toRoaring ∪ other.toRoaring := by
  cases other with
  | empty => exact (Finset.union_empty _).symm
  | one doc => exact (toRoaring_insert doc posting).trans (Finset.union_singleton ..).symm
  | roaring otherDocs =>
    cases posting with
    | empty => exact (Finset.empty_union _).symm
    | one doc => exact Finset.insert_eq ..
    | roaring docs => rfl

theorem Compact.unionOwned {posting other : PostingDocs} (compact : posting.Compact) (also : other.Compact) :
    (posting.unionOwned other).Compact := by
  cases other with
  | empty => exact compact
  | one doc => exact compact.insert doc
  | roaring otherDocs =>
    have two : 2 ≤ otherDocs.card := also
    cases posting with
    | empty => exact two
    | one doc => exact Nat.le_trans two (Finset.card_le_card (Finset.subset_insert _ _))
    | roaring docs => exact Nat.le_trans two (Finset.card_le_card Finset.subset_union_right)

end PostingDocs

end ApexBase.Fts
