import ApexBase.Storage.Footer
import ApexBase.Library.Bits
import ApexBase.Library.Greatest
import Mathlib.Data.Bool.Count

/-! Finding rows by id from the row-group directory (`storage/on_demand/read_write.rs`):
a group that holds as many rows as its id range is wide is taken to hold its ids in
order, and groups are taken to follow one another in order of their ids. -/
namespace ApexBase.Storage
open Library.Wire Footer

/-- A row group as far as the directory and its deletion vector tell of it. -/
structure Group where
  ids : List UInt64
  deleted : Bytes

namespace IdDirectory

/-- `slice::partition_point`. Its result is only specified on a list that the predicate
cuts in two. -/
structure PartitionPoint where
  find : (RowGroupMeta → Bool) → List RowGroupMeta → Nat
  cut : ∀ predicate front back, (∀ rg ∈ front, predicate rg = true) → (∀ rg ∈ back, predicate rg = false) →
    find predicate (front ++ back) = front.length

def countOnes (byte : UInt8) : Nat := (List.range 8).countP byte.toNat.testBit

def countDeletedBits (deletions : Bytes) (stop : Nat) : Nat :=
  let wholeBytes := stop / 8
  let total := ((deletions.take (min wholeBytes deletions.length)).map countOnes).sum
  match deletions[wholeBytes]? with
  | some byte => if stop % 8 > 0 then total + countOnes (byte &&& (1 <<< UInt8.ofNat (stop % 8)) - 1) else total
  | none => total

section
variable (partitionPoint : PartitionPoint)

def findRowGroupForId (rowGroups : List RowGroupMeta) (id : UInt64) : Option Nat :=
  let stop := partitionPoint.find (fun rg => rg.minId ≤ id) rowGroups
  if stop = 0 then none
  else
    match rowGroups[stop - 1]? with
    | some rg => if rg.rowCount > 0 ∧ id ≤ rg.maxId then some (stop - 1) else none
    | none => none

def notDense (rg : RowGroupMeta) : Bool :=
  rg.rowCount > 0 && (rg.maxId < rg.minId || rg.maxId - rg.minId + 1 != rg.rowCount.toUInt64)

def notDenseOrDeleted (rg : RowGroupMeta) : Bool :=
  rg.rowCount > 0 && (rg.deletionCount > 0 || rg.maxId < rg.minId || rg.maxId - rg.minId + 1 != rg.rowCount.toUInt64)

/-- The row at which each group starts, unless a group is declined. -/
def starts (declined : RowGroupMeta → Bool) : Nat → List RowGroupMeta → Option (List Nat)
  | _,[] => some []
  | cumulative,rg :: rest =>
    if declined rg then none else (starts declined (cumulative + rg.rowCount.toNat) rest).map (cumulative :: ·)

/-- Where the directory places an id. The addition wraps when the id is below the
group's first one. -/
def physicalPosition (rowGroups : List RowGroupMeta) (starts : List Nat) (id : UInt64) : Option Nat := do
  let index ← findRowGroupForId partitionPoint rowGroups id
  let start ← starts[index]?
  let rg ← rowGroups[index]?
  return (UInt64.ofNat start + (id - rg.minId)).toNat

def positionsForIds (rowGroups : List RowGroupMeta) (ids : List UInt64) : Option (List Nat) := do
  let starts ← starts notDenseOrDeleted 0 rowGroups
  return ids.filterMap (physicalPosition partitionPoint rowGroups starts)

def positionsForIdsIncludingDeleted (rowGroups : List RowGroupMeta) (ids : List UInt64) : Option (List Nat) := do
  let starts ← starts notDense 0 rowGroups
  return ids.filterMap (physicalPosition partitionPoint rowGroups starts)

/-- The number of the row among the live ones, unless it is deleted. -/
def activePosition (deletions : Bytes) (physical : Nat) : Option Nat :=
  if deletions.length ≤ physical / 8 ∨ getBit deletions physical then none
  else some (physical - countDeletedBits deletions physical)

/-- `shadowed` says that rows or deletions wait in memory. -/
def activePositionsForIds (rowGroups : List RowGroupMeta) (deletions : Bytes) (shadowed : Bool) (ids : List UInt64) :
    Option (List Nat) :=
  if ¬ rowGroups.any (fun rg => rg.deletionCount > 0) then positionsForIds partitionPoint rowGroups ids
  else if shadowed then none
  else do
    let starts ← starts notDense 0 rowGroups
    return ids.filterMap fun id => do
      let physical ← physicalPosition partitionPoint rowGroups starts id
      if deletions = [] then some (physical - countDeletedBits deletions physical)
      else activePosition deletions physical

def activatePositions (rowGroups : List RowGroupMeta) (deletions : Bytes) (positions : List Nat) : List Nat :=
  if ¬ rowGroups.any (fun rg => rg.deletionCount > 0) ∨ deletions = [] then positions
  else positions.filterMap (activePosition deletions)

end

/-! The directory of a file. -/

def flags (group : Group) : List Bool := (List.range group.ids.length).map (getBit group.deleted)

def rowGroupMeta (group : Group) : RowGroupMeta where
  offset := 0
  dataSize := 0
  rowCount := UInt32.ofNat group.ids.length
  minId := group.ids.min?.getD 0
  maxId := group.ids.max?.getD 0
  deletionCount := UInt32.ofNat ((flags group).count true)

def directory (groups : List Group) : List RowGroupMeta := groups.map rowGroupMeta

/-- The deletion vectors of the groups, each in whole bytes. -/
def persistedDeletionBitmap (groups : List Group) : Bytes := groups.flatMap (·.deleted)

def allIds (groups : List Group) : List UInt64 := groups.flatMap (·.ids)

def allFlags (groups : List Group) : List Bool := groups.flatMap flags

/-- What every writer keeps: only the first group of a table that was empty has no rows. -/
structure Stored (groups : List Group) : Prop where
  filled : ∀ group ∈ groups.tail, group.ids ≠ []
  counted : ∀ group ∈ groups, group.ids.length < 2^32
  bitmaps : ∀ group ∈ groups, group.deleted.length = (group.ids.length + 7) / 8
  addressed : (allIds groups).length < 2^64

def place (groups : List Group) (id : UInt64) : Option Nat :=
  if id ∈ allIds groups then some ((allIds groups).idxOf id) else none

def livePlace (groups : List Group) (position : Nat) : Option Nat :=
  if (allFlags groups)[position]?.getD false then none else some (((allFlags groups).take position).count false)

structure Exact (partitionPoint : PartitionPoint) (groups : List Group) : Prop where
  positions : ∀ ids result, positionsForIds partitionPoint (directory groups) ids = some result →
    result = ids.filterMap (place groups)
  including : ∀ ids result, positionsForIdsIncludingDeleted partitionPoint (directory groups) ids = some result →
    result = ids.filterMap (place groups)
  active : ∀ shadowed ids result,
    activePositionsForIds partitionPoint (directory groups) (persistedDeletionBitmap groups) shadowed ids =
    some result →
    result = ids.filterMap fun id => (place groups id).bind (livePlace groups)
  activate : ∀ positions, (∀ position ∈ positions, position < (allIds groups).length) →
    activatePositions (directory groups) (persistedDeletionBitmap groups) positions =
    positions.filterMap (livePlace groups)
  group : ∀ id ∈ allIds groups,
    findRowGroupForId partitionPoint (directory groups) id = groups.findIdx? (fun group => id ∈ group.ids)

def Below (first second : Group) : Prop := ∀ a ∈ first.ids, ∀ b ∈ second.ids, a < b

def Dense (groups : List Group) : Prop := ∀ group ∈ groups, notDense (rowGroupMeta group) = false

/-- Read one after another, the bits of the deletion vectors are those of the rows. -/
def Aligned (groups : List Group) : Prop :=
  ∀ position < (allIds groups).length, getBit (persistedDeletionBitmap groups) position =
    (allFlags groups)[position]?.getD false

/-! Counting bits. -/

private theorem testBit_lowMask : ∀ tail < 8, ∀ index < 8, ((1 <<< UInt8.ofNat tail : UInt8) - 1).toNat.testBit index =
    decide (index < tail) := by
  decide

private theorem countOnes_low (byte : UInt8) {tail : Nat} (short : tail < 8) :
    countOnes (byte &&& (1 <<< UInt8.ofNat tail) - 1) = (List.range tail).countP byte.toNat.testBit := by
  have split : List.range 8 = List.range tail ++ (List.range (8 - tail)).map (tail + ·) := by
    rw [← List.range_add]
    congr 1
    omega
  have low : (List.range tail).countP (byte &&& (1 <<< UInt8.ofNat tail) - 1).toNat.testBit =
    (List.range tail).countP byte.toNat.testBit := by
    refine List.countP_congr fun index member => ?_
    have below := List.mem_range.mp member
    rw [UInt8.toNat_and,Nat.testBit_and,testBit_lowMask tail short index (by omega),decide_eq_true below,Bool.and_true]
  have high : ((List.range (8 - tail)).map (tail + ·)).countP (byte &&& (1 <<< UInt8.ofNat tail) - 1).toNat.testBit =
    0 := by
    rw [List.countP_eq_zero]
    intro index member
    obtain ⟨offset,inside,rfl⟩ := List.mem_map.mp member
    have few := List.mem_range.mp inside
    rw [UInt8.toNat_and,Nat.testBit_and,testBit_lowMask tail short (tail + offset) (by omega),
      decide_eq_false (by omega),Bool.and_false]
    exact Bool.false_ne_true
  rw [countOnes,split,List.countP_append,low,high,Nat.add_zero]

theorem countDeletedBits_eq (deletions : Bytes) (stop : Nat) :
    countDeletedBits deletions stop = (List.range stop).countP (getBit deletions) := by
  induction deletions generalizing stop with
  | nil =>
    symm
    simp [countDeletedBits,List.countP_eq_zero,getBit]
  | cons byte rest ih =>
    rcases Nat.lt_or_ge stop 8 with short | long
    · have bits : (List.range stop).countP (getBit (byte :: rest)) = (List.range stop).countP byte.toNat.testBit := by
        refine List.countP_congr fun index member => ?_
        have below := List.mem_range.mp member
        rw [getBit,Nat.div_eq_of_lt (by omega),Nat.mod_eq_of_lt (by omega)]
        rfl
      rw [bits]
      unfold countDeletedBits
      simp only [Nat.div_eq_of_lt short,Nat.mod_eq_of_lt short,List.getElem?_cons_zero,Nat.zero_min,List.take_zero,
        List.map_nil,List.sum_nil,
        Nat.zero_add]
      split
      · exact countOnes_low byte short
      · obtain rfl : stop = 0 := by omega
        rfl
    · obtain ⟨more,rfl⟩ := Nat.exists_eq_add_of_le long
      have first : (List.range 8).countP (getBit (byte :: rest)) = countOnes byte := by
        refine List.countP_congr fun index member => ?_
        have below := List.mem_range.mp member
        rw [getBit,Nat.div_eq_of_lt below,Nat.mod_eq_of_lt below]
        rfl
      have others : ((List.range more).map (8 + ·)).countP (getBit (byte :: rest)) =
        (List.range more).countP (getBit rest) := by
        rw [List.countP_map]
        refine List.countP_congr fun index _ => ?_
        have place : (8 + index) / 8 = index / 8 + 1 := by omega
        have within : (8 + index) % 8 = index % 8 := by omega
        rw [Function.comp_apply,getBit,getBit,place,within,List.getElem?_cons_succ]
      rw [List.range_add,List.countP_append,first,others,← ih]
      have place : (8 + more) / 8 = more / 8 + 1 := by omega
      have within : (8 + more) % 8 = more % 8 := by omega
      unfold countDeletedBits
      simp only [place,within,List.getElem?_cons_succ,List.length_cons,Nat.add_min_add_right,List.take_succ_cons,
        List.map_cons,List.sum_cons]
      cases rest[more / 8]? with
      | none => rfl
      | some last =>
        simp only
        split <;> omega

section Bounds
variable {group : Group}

theorem minId_spec (some_ : group.ids ≠ []) : (rowGroupMeta group).minId ∈ group.ids ∧
    ∀ id ∈ group.ids, (rowGroupMeta group).minId ≤ id := by
  unfold rowGroupMeta
  cases least : group.ids.min? with
  | none => exact absurd (List.min?_eq_none_iff.mp least) some_
  | some id => exact List.min?_eq_some_iff.mp least

theorem maxId_spec (some_ : group.ids ≠ []) : (rowGroupMeta group).maxId ∈ group.ids ∧
    ∀ id ∈ group.ids, id ≤ (rowGroupMeta group).maxId := by
  unfold rowGroupMeta
  cases greatest : group.ids.max? with
  | none => exact absurd (List.max?_eq_none_iff.mp greatest) some_
  | some id => exact List.max?_eq_some_iff.mp greatest

theorem minId_empty (empty : group.ids = []) : (rowGroupMeta group).minId = 0 := by simp [rowGroupMeta,empty]

theorem rowCount_toNat (counted : group.ids.length < 2^32) : (rowGroupMeta group).rowCount.toNat = group.ids.length :=
  UInt32.toNat_ofNat_of_lt' counted

theorem rowCount_pos (counted : group.ids.length < 2^32) : (rowGroupMeta group).rowCount > 0 ↔ group.ids ≠ [] := by
  rw [gt_iff_lt,UInt32.lt_iff_toNat_lt,rowCount_toNat counted,← List.length_pos_iff]
  rfl

theorem dense_span (counted : group.ids.length < 2^32) (some_ : group.ids ≠ []) :
    notDense (rowGroupMeta group) = false ↔ (rowGroupMeta group).maxId.toNat =
    (rowGroupMeta group).minId.toNat + (group.ids.length - 1) := by
  have order : (rowGroupMeta group).minId ≤ (rowGroupMeta group).maxId := (minId_spec some_).2 _ (maxId_spec some_).1
  have positive := List.length_pos_iff.mpr some_
  have width : (rowGroupMeta group).rowCount.toUInt64.toNat = group.ids.length := by
    rw [UInt32.toNat_toUInt64,rowCount_toNat counted]
  have notAbove : ¬ (rowGroupMeta group).maxId < (rowGroupMeta group).minId := by
    rw [UInt64.lt_iff_toNat_lt]
    rw [UInt64.le_iff_toNat_le] at order
    omega
  have difference : ((rowGroupMeta group).maxId - (rowGroupMeta group).minId).toNat =
      (rowGroupMeta group).maxId.toNat - (rowGroupMeta group).minId.toNat := UInt64.toNat_sub_of_le _ _ order
  have small := (rowGroupMeta group).maxId.toNat_lt
  rw [UInt64.le_iff_toNat_le] at order
  have same : (rowGroupMeta group).maxId - (rowGroupMeta group).minId + 1 = (rowGroupMeta group).rowCount.toUInt64 ↔
      (rowGroupMeta group).maxId.toNat = (rowGroupMeta group).minId.toNat + (group.ids.length - 1) := by
    rw [← UInt64.toNat_inj,UInt64.toNat_add,difference,width]
    change (_ + 1) % 2^64 = _ ↔ _
    omega
  simp [notDense,(rowCount_pos counted).mpr some_,notAbove,same]

end Bounds

section Groups
variable {partitionPoint : PartitionPoint} {groups front back : List Group} {last : Group} {id : UInt64}

/-- The group that the directory proposes: the last of those that begin at the id or
before, where they come first. -/
theorem find_last (counted : last.ids.length < 2^32) (low : ∀ group ∈ front, (rowGroupMeta group).minId ≤ id)
    (begins : (rowGroupMeta last).minId ≤ id) (high : ∀ group ∈ back, id < (rowGroupMeta group).minId) :
    findRowGroupForId partitionPoint (directory (front ++ last :: back)) id =
      if last.ids ≠ [] ∧ id ≤ (rowGroupMeta last).maxId then some front.length else none := by
  have cut := partitionPoint.cut (fun rg => rg.minId ≤ id) (directory (front ++ [last])) (directory back) (by
    intro rg member
    obtain ⟨group,here,rfl⟩ := List.mem_map.mp member
    rcases List.mem_append.mp here with before | self
    · exact decide_eq_true (low group before)
    · rw [List.mem_singleton.mp self]
      exact decide_eq_true begins) (by
    intro rg member
    obtain ⟨group,here,rfl⟩ := List.mem_map.mp member
    exact decide_eq_false (UInt64.not_le.mpr (high group here)))
  have whole : directory (front ++ [last]) ++ directory back = directory (front ++ last :: back) := by simp [directory]
  have there : (directory (front ++ last :: back))[front.length]? = some (rowGroupMeta last) := by simp [directory]
  have length : (directory (front ++ [last])).length = front.length + 1 := by simp [directory]
  rw [whole,length] at cut
  unfold findRowGroupForId
  simp only [cut,Nat.add_sub_cancel,there,rowCount_pos counted]
  rw [if_neg (Nat.succ_ne_zero _)]

theorem find_before (high : ∀ group ∈ groups, id < (rowGroupMeta group).minId) :
    findRowGroupForId partitionPoint (directory groups) id = none := by
  have cut := partitionPoint.cut (fun rg => rg.minId ≤ id) [] (directory groups) (fun _ member => nomatch member) (by
    intro rg member
    obtain ⟨group,here,rfl⟩ := List.mem_map.mp member
    exact decide_eq_false (UInt64.not_le.mpr (high group here)))
  rw [List.nil_append,List.length_nil] at cut
  unfold findRowGroupForId
  simp only [cut,if_true]

theorem mem_allIds : id ∈ allIds groups ↔ ∃ group ∈ groups, id ∈ group.ids := List.mem_flatMap

theorem nonempty_of_mem {group : Group} (member : id ∈ group.ids) : group.ids ≠ [] := List.ne_nil_of_mem member

theorem Stored.filled_back (stored : Stored (front ++ last :: back)) : ∀ group ∈ back, group.ids ≠ [] := by
  intro group member
  refine stored.filled group ?_
  cases front with
  | nil => exact member
  | cons first rest => exact List.mem_append_right _ (List.mem_cons_of_mem _ member)

theorem Stored.front_nil (stored : Stored (front ++ last :: back)) (empty : last.ids = []) : front = [] := by
  cases front with
  | nil => rfl
  | cons first rest => exact absurd empty (stored.filled last (List.mem_append_right _ List.mem_cons_self))

theorem min_le_of_below (below : ∀ group ∈ front, Below group last) (member : id ∈ last.ids) :
    ∀ group ∈ front, (rowGroupMeta group).minId ≤ id := by
  intro group here
  by_cases empty : group.ids = []
  · rw [minId_empty empty,UInt64.le_iff_toNat_le]
    exact Nat.zero_le _
  · exact UInt64.le_of_lt (below group here _ (minId_spec empty).1 id member)

/-- The directory finds the first group that holds an id, wherever there is one, exactly
when the groups follow one another in order of their ids. -/
theorem findsGroup_iff (stored : Stored groups) :
    (∀ id ∈ allIds groups, findRowGroupForId partitionPoint (directory groups) id =
      groups.findIdx? (fun group => id ∈ group.ids)) ↔
      groups.Pairwise Below := by
  constructor
  · intro finds
    -- From the last group to the first: the greatest id before a group is below it.
    have general (front back : List Group) (split : groups = front ++ back) (ordered : back.Pairwise Below)
        (across : ∀ first ∈ front, ∀ second ∈ back, Below first second) : groups.Pairwise Below := by
      induction front using List.reverseRecOn generalizing back with
      | nil => rwa [split]
      | append_singleton front last ih =>
        rw [List.append_assoc,List.singleton_append] at split
        have before : ∀ first ∈ front, Below first last := by
          by_contra crossed
          simp only [Below,not_forall] at crossed
          obtain ⟨first,inFront,a,inFirst,b,inLast,notBelow⟩ := crossed
          have some_ : allIds front ≠ [] :=
            @nonempty_of_mem _ ⟨allIds front,[]⟩ (mem_allIds.mpr ⟨first,inFront,inFirst⟩)
          obtain ⟨topMem,topGreatest⟩ := @maxId_spec ⟨allIds front,[]⟩ some_
          generalize (rowGroupMeta ⟨allIds front,[]⟩).maxId = top at topMem topGreatest
          obtain ⟨holder,inFront',holds⟩ := mem_allIds.mp topMem
          have counted := stored.counted last (by rw [split]; exact List.mem_append_right _ List.mem_cons_self)
          have low : ∀ group ∈ front, (rowGroupMeta group).minId ≤ top := by
            intro group member
            by_cases empty : group.ids = []
            · rw [minId_empty empty,UInt64.le_iff_toNat_le]
              exact Nat.zero_le _
            · exact topGreatest _ (mem_allIds.mpr ⟨group,member,(minId_spec empty).1⟩)
          have begins : (rowGroupMeta last).minId ≤ top := by
            have least := (minId_spec (nonempty_of_mem inLast)).2 b inLast
            have upTo := topGreatest a (mem_allIds.mpr ⟨first,inFront,inFirst⟩)
            simp only [UInt64.le_iff_toNat_le,UInt64.lt_iff_toNat_lt] at least upTo notBelow ⊢
            omega
          have high : ∀ group ∈ back, top < (rowGroupMeta group).minId := fun group member =>
            across holder (List.mem_append_left _ inFront') group member top holds _
              (minId_spec ((split ▸ stored).filled_back group member)).1
          have found := finds top (mem_allIds.mpr ⟨holder,by rw [split]; exact List.mem_append_left _ inFront',holds⟩)
          rw [split,find_last counted low begins high] at found
          obtain ⟨position,inside,here⟩ := List.getElem_of_mem inFront'
          have early : (front ++ last :: back).findIdx? (fun group => top ∈ group.ids) ≠ some front.length := by
            intro late
            have least := (List.findIdx?_eq_some_iff_getElem.mp late).2.2 position inside
            rw [List.getElem_append_left inside,here] at least
            exact least (decide_eq_true holds)
          split at found
          · exact early found.symm
          · have nobody := List.findIdx?_eq_none_iff.mp found.symm holder (List.mem_append_left _ inFront')
            exact absurd holds (of_decide_eq_false nobody)
        refine ih (last :: back) split (List.pairwise_cons.mpr ⟨fun second member =>
          across last (by simp) second member,ordered⟩) ?_
        intro first inFront second member
        rcases List.mem_cons.mp member with rfl | later
        · exact before first inFront
        · exact across first (List.mem_append_left _ inFront) second later
    exact general groups [] (List.append_nil _).symm List.Pairwise.nil (fun _ _ _ absent =>
      absurd absent List.not_mem_nil)
  · intro ordered id member
    obtain ⟨group,inGroups,holds⟩ := mem_allIds.mp member
    obtain ⟨front,back,rfl⟩ := List.append_of_mem inGroups
    obtain ⟨_,after,before⟩ := List.pairwise_append.mp ordered
    obtain ⟨following,_⟩ := List.pairwise_cons.mp after
    have below : ∀ first ∈ front, Below first group :=
      fun first inFront => before first inFront group List.mem_cons_self
    have high : ∀ later ∈ back, id < (rowGroupMeta later).minId := fun later inBack =>
      following later inBack id holds _ (minId_spec (stored.filled_back later inBack)).1
    rw [find_last (stored.counted group inGroups) (min_le_of_below below holds)
      ((minId_spec (nonempty_of_mem holds)).2 id holds) high,
      if_pos ⟨nonempty_of_mem holds,(maxId_spec (nonempty_of_mem holds)).2 id holds⟩]
    symm
    rw [List.findIdx?_eq_some_iff_getElem]
    refine ⟨by simp,by simpa using holds,fun earlier less => ?_⟩
    rw [List.getElem_append_left less]
    intro also
    have same := below front[earlier] (List.getElem_mem less) id (of_decide_eq_true also) id holds
    exact absurd same (UInt64.lt_irrefl id)

/-! The position of an id. -/

section
variable {declined : RowGroupMeta → Bool}

theorem starts_some {cumulative : Nat} {result : List Nat} (counted : ∀ group ∈ groups, group.ids.length < 2^32)
    (some_ : starts declined cumulative (directory groups) = some result) :
    (∀ group ∈ groups, declined (rowGroupMeta group) = false) ∧
    ∀ front last back, groups = front ++ last :: back → result[front.length]? =
    some (cumulative + (allIds front).length) := by
  induction groups generalizing cumulative result with
  | nil => exact ⟨fun _ none_ => (nomatch none_),fun front last back split => by cases front <;> cases split⟩
  | cons group rest ih =>
    simp only [directory,List.map_cons,starts] at some_
    split at some_
    · cases some_
    · rename_i accepted
      obtain ⟨others,more,rfl⟩ := Option.map_eq_some_iff.mp some_
      obtain ⟨all,places⟩ := ih (fun group member => counted group (List.mem_cons_of_mem _ member)) more
      refine ⟨fun other member => ?_,fun front last back split => ?_⟩
      · rcases List.mem_cons.mp member with rfl | later
        · simpa using accepted
        · exact all other later
      · cases front with
        | nil => rfl
        | cons first front =>
          obtain ⟨rfl,rest_⟩ := List.cons_eq_cons.mp split
          rw [List.length_cons,List.getElem?_cons_succ,places front last back rest_,
            rowCount_toNat (counted _ List.mem_cons_self)]
          simp [allIds,Nat.add_assoc]

theorem starts_of_accepted (cumulative : Nat) (accepted : ∀ group ∈ groups, declined (rowGroupMeta group) = false) :
    ∃ result, starts declined cumulative (directory groups) = some result := by
  induction groups generalizing cumulative with
  | nil => exact ⟨[],rfl⟩
  | cons group rest ih =>
    obtain ⟨others,more⟩ := ih (cumulative + (rowGroupMeta group).rowCount.toNat) fun group member =>
      accepted group (List.mem_cons_of_mem _ member)
    refine ⟨cumulative :: others,?_⟩
    simp only [directory,List.map_cons,starts,accepted group List.mem_cons_self,Bool.false_eq_true,if_false]
    unfold directory at more
    rw [more]
    rfl

theorem physicalPosition_in {result : List Nat} (stored : Stored (front ++ last :: back))
    (started : starts declined 0 (directory (front ++ last :: back)) = some result)
    (found : findRowGroupForId partitionPoint (directory (front ++ last :: back)) id = some front.length)
    (begins : (rowGroupMeta last).minId ≤ id) (inside : id.toNat - (rowGroupMeta last).minId.toNat < last.ids.length) :
    physicalPosition partitionPoint (directory (front ++ last :: back)) result id =
      some ((allIds front).length + (id.toNat - (rowGroupMeta last).minId.toNat)) := by
  have start := (starts_some stored.counted started).2 front last back rfl
  have there : (directory (front ++ last :: back))[front.length]? = some (rowGroupMeta last) := by simp [directory]
  have total := stored.addressed
  have length : (allIds (front ++ last :: back)).length = (allIds front).length +
    (last.ids.length + (allIds back).length) := by simp [allIds]
  have difference : (id - (rowGroupMeta last).minId).toNat = id.toNat - (rowGroupMeta last).minId.toNat :=
    UInt64.toNat_sub_of_le _ _ begins
  have small : (UInt64.ofNat (allIds front).length).toNat = (allIds front).length :=
    UInt64.toNat_ofNat_of_lt' (by change _ < 2^64; omega)
  unfold physicalPosition
  simp only [found,start,there,Option.bind_eq_bind,Option.bind_some,Nat.zero_add,pure,Option.some.injEq]
  rw [UInt64.toNat_add,small,difference]
  exact Nat.mod_eq_of_lt (by omega)

end

theorem dense_consecutive {group : Group} (counted : group.ids.length < 2^32)
    (dense : notDense (rowGroupMeta group) = false) (increasing : group.ids.Pairwise (· < ·)) {row : Nat}
    (inside : row < group.ids.length) :
    group.ids[row].toNat = (rowGroupMeta group).minId.toNat + row := by
  have some_ : group.ids ≠ [] := List.ne_nil_of_length_pos (Nat.lt_of_le_of_lt (Nat.zero_le _) inside)
  have span := (dense_span counted some_).mp dense
  have order (i j : Nat) (less : i < j) (short : j < group.ids.length) : group.ids[i].toNat < group.ids[j].toNat :=
    UInt64.lt_iff_toNat_lt.mp (List.pairwise_iff_getElem.mp increasing i j (by omega) short less)
  have above : ∀ row (inside : row < group.ids.length), (rowGroupMeta group).minId.toNat +
    row ≤ group.ids[row].toNat := by
    intro row
    induction row with
    | zero => exact fun inside => UInt64.le_iff_toNat_le.mp ((minId_spec some_).2 _ (List.getElem_mem inside))
    | succ row ih =>
      intro inside
      have here := ih (by omega)
      have step := order row (row + 1) (Nat.lt_succ_self row) inside
      omega
  have gap : ∀ more (inside : row + more < group.ids.length), group.ids[row].toNat +
    more ≤ group.ids[row + more].toNat := by
    intro more
    induction more with
    | zero => exact fun _ => Nat.le_refl _
    | succ more ih =>
      intro inside
      have here := ih (by omega)
      have step := order (row + more) (row + (more + 1)) (by omega) inside
      omega
  have low := above row inside
  have high := gap (group.ids.length - 1 - row) (by omega)
  have top := UInt64.le_iff_toNat_le.mp ((maxId_spec some_).2 _ (List.getElem_mem
    (show row + (group.ids.length - 1 - row) < group.ids.length by omega)))
  omega

theorem split_at (stored : Stored groups) (ordered : groups.Pairwise Below) (id : UInt64) :
    ∃ front back, groups = front ++ back ∧ (∀ group ∈ front, (rowGroupMeta group).minId ≤ id) ∧
    ∀ group ∈ back, id < (rowGroupMeta group).minId := by
  have mins : groups.Pairwise fun first second => (rowGroupMeta first).minId ≤ (rowGroupMeta second).minId := by
    cases groups with
    | nil => exact List.Pairwise.nil
    | cons first rest =>
      obtain ⟨before,others⟩ := List.pairwise_cons.mp ordered
      refine List.pairwise_cons.mpr ⟨fun second member => ?_,?_⟩
      · exact @min_le_of_below [first] second _ (by simpa using before second member)
          (minId_spec (stored.filled second member)).1 first List.mem_cons_self
      · refine others.imp_of_mem fun {a b} inA inB below => ?_
        exact UInt64.le_of_lt (below _ (minId_spec (stored.filled a inA)).1 _ (minId_spec (stored.filled b inB)).1)
  clear stored ordered
  induction groups with
  | nil => exact ⟨[],[],rfl,fun _ none_ => (nomatch none_),fun _ none_ => nomatch none_⟩
  | cons first rest ih =>
    obtain ⟨before,others⟩ := List.pairwise_cons.mp mins
    by_cases begins : (rowGroupMeta first).minId ≤ id
    · obtain ⟨front,back,rfl,low,high⟩ := ih others
      exact ⟨first :: front,back,rfl,List.forall_mem_cons.mpr ⟨begins,low⟩,high⟩
    · have above : id < (rowGroupMeta first).minId := UInt64.not_le.mp begins
      refine ⟨[],first :: rest,rfl,fun _ none_ => (nomatch none_),
        List.forall_mem_cons.mpr ⟨above,fun group member => ?_⟩⟩
      exact UInt64.lt_of_lt_of_le above (before group member)

theorem place_at (increasing : (allIds groups).Pairwise (· < ·)) {position : Nat}
    (there : (allIds groups)[position]? = some id) :
    place groups id = some position := by
  obtain ⟨inside,rfl⟩ := List.getElem?_eq_some_iff.mp there
  have distinct : (allIds groups).Nodup := increasing.imp fun less same => absurd (same ▸ less) (UInt64.lt_irrefl _)
  rw [place,if_pos (List.getElem_mem inside),distinct.idxOf_getElem]

theorem physicalPosition_eq_place {declined : RowGroupMeta → Bool} {result : List Nat} (stored : Stored groups)
    (dense : Dense groups) (increasing : (allIds groups).Pairwise (· < ·)) (ordered : groups.Pairwise Below)
    (started : starts declined 0 (directory groups) = some result) (id : UInt64) :
    physicalPosition partitionPoint (directory groups) result id = place groups id := by
  obtain ⟨front,back,rfl,low,high⟩ := split_at stored ordered id
  have notBack : ∀ group ∈ back, id ∉ group.ids := by
    intro group member holds
    have least := (minId_spec (nonempty_of_mem holds)).2 id holds
    exact absurd (UInt64.lt_of_lt_of_le (high group member) least) (UInt64.lt_irrefl id)
  rcases List.eq_nil_or_concat front with rfl | ⟨front,last,rfl⟩
  · have nowhere : id ∉ allIds back := fun member =>
      have ⟨group,inBack,holds⟩ := mem_allIds.mp member
      notBack group inBack holds
    rw [List.nil_append,place,if_neg nowhere,physicalPosition]
    simp only [find_before high,Option.bind_eq_bind,Option.bind_none]
  · simp only [List.concat_eq_append,List.append_assoc,List.singleton_append]
      at stored dense increasing ordered started low ⊢
    have inGroups : last ∈ front ++ last :: back := List.mem_append_right _ List.mem_cons_self
    have begins : (rowGroupMeta last).minId ≤ id := low last (by simp)
    have found : findRowGroupForId partitionPoint _ id = _ := find_last (stored.counted last inGroups)
      (fun group member => low group (List.mem_append_left _ member)) begins high
    by_cases covered : last.ids ≠ [] ∧ id ≤ (rowGroupMeta last).maxId
    · rw [if_pos covered] at found
      have span := (dense_span (stored.counted last inGroups) covered.1).mp (dense last inGroups)
      have upper := UInt64.le_iff_toNat_le.mp covered.2
      have lower := UInt64.le_iff_toNat_le.mp begins
      have positive := List.length_pos_iff.mpr covered.1
      have inside : id.toNat - (rowGroupMeta last).minId.toNat < last.ids.length := by omega
      have own : last.ids.Pairwise (· < ·) :=
        (List.pairwise_flatMap.mp increasing).1 last inGroups
      have value := dense_consecutive (stored.counted last inGroups) (dense last inGroups) own inside
      have here : last.ids[id.toNat - (rowGroupMeta last).minId.toNat] = id := UInt64.toNat_inj.mp (by omega)
      rw [physicalPosition_in stored started found begins inside]
      symm
      refine place_at increasing ?_
      simp only [allIds,List.flatMap_append,List.flatMap_cons]
      rw [List.getElem?_append_right (Nat.le_add_right _ _),Nat.add_sub_cancel_left,List.getElem?_append_left inside,
        List.getElem?_eq_getElem inside,here]
    · rw [if_neg covered] at found
      have nowhere : id ∉ allIds (front ++ last :: back) := by
        intro member
        obtain ⟨group,inAll,holds⟩ := mem_allIds.mp member
        have none_ : id ∉ last.ids := fun also => covered ⟨nonempty_of_mem also,
          (maxId_spec (nonempty_of_mem also)).2 id also⟩
        rcases List.mem_append.mp inAll with inFront | inRest
        · by_cases empty : last.ids = []
          · rw [stored.front_nil empty] at inFront
            cases inFront
          · have below := (List.pairwise_append.mp ordered).2.2 group inFront last List.mem_cons_self id holds _
              (minId_spec empty).1
            exact absurd (UInt64.lt_of_lt_of_le below begins) (UInt64.lt_irrefl id)
        · rcases List.mem_cons.mp inRest with rfl | inBack
          · exact none_ holds
          · exact notBack group inBack holds
      rw [place,if_neg nowhere,physicalPosition]
      simp only [found,Option.bind_eq_bind,Option.bind_none]

theorem increasing_of_including (stored : Stored groups) (dense : Dense groups) (ordered : groups.Pairwise Below)
    (exact_ : ∀ ids result, positionsForIdsIncludingDeleted partitionPoint (directory groups) ids = some result →
      result = ids.filterMap (place groups)) : (allIds groups).Pairwise (· < ·) := by
  refine List.pairwise_flatMap.mpr ⟨fun group inGroups => ?_,ordered⟩
  obtain ⟨result,started⟩ := starts_of_accepted 0 dense
  obtain ⟨front,back,rfl⟩ := List.append_of_mem inGroups
  have consecutive : ∀ row (inside : row < group.ids.length), group.ids[row].toNat =
    (rowGroupMeta group).minId.toNat + row := by
    intro row inside
    have some_ : group.ids ≠ [] := List.ne_nil_of_length_pos (Nat.lt_of_le_of_lt (Nat.zero_le _) inside)
    have counted := stored.counted group inGroups
    have span := (dense_span counted some_).mp (dense group inGroups)
    have small := (rowGroupMeta group).maxId.toNat_lt
    have value : (UInt64.ofNat ((rowGroupMeta group).minId.toNat + row)).toNat =
      (rowGroupMeta group).minId.toNat + row :=
      UInt64.toNat_ofNat_of_lt' (by change _ < 2^64; omega)
    generalize UInt64.ofNat ((rowGroupMeta group).minId.toNat + row) = id at value
    obtain ⟨_,after,before⟩ := List.pairwise_append.mp ordered
    obtain ⟨following,_⟩ := List.pairwise_cons.mp after
    have begins : (rowGroupMeta group).minId ≤ id := UInt64.le_iff_toNat_le.mpr (by omega)
    have upTo : id ≤ (rowGroupMeta group).maxId := UInt64.le_iff_toNat_le.mpr (by omega)
    have low : ∀ first ∈ front, (rowGroupMeta first).minId ≤ id := fun first inFront =>
      UInt64.le_trans (min_le_of_below (fun other inFront => before other inFront group List.mem_cons_self)
        (minId_spec some_).1 first inFront) begins
    have high : ∀ later ∈ back, id < (rowGroupMeta later).minId := fun later inBack =>
      UInt64.lt_of_le_of_lt upTo (following later inBack _ (maxId_spec some_).1 _
        (minId_spec (stored.filled_back later inBack)).1)
    have found : findRowGroupForId partitionPoint _ id = _ := find_last counted low begins high
    rw [if_pos ⟨some_,upTo⟩] at found
    have positioned := physicalPosition_in stored started found begins (by omega)
    have answer := exact_ [id] [(allIds front).length + (id.toNat - (rowGroupMeta group).minId.toNat)] (by
      simp [positionsForIdsIncludingDeleted,started,positioned])
    have placed : place (front ++ group :: back) id = some ((allIds front).length + row) := by
      cases placed : place (front ++ group :: back) id with
      | none =>
        rw [List.filterMap_cons_none placed] at answer
        cases answer
      | some position =>
        rw [List.filterMap_cons_some placed] at answer
        rw [← (List.cons_eq_cons.mp answer).1]
        congr 2
        omega
    have there : (allIds (front ++ group :: back))[(allIds front).length + row]? = some id := by
      unfold place at placed
      split at placed
      · rename_i member
        rw [← Option.some.inj placed,List.getElem?_idxOf member]
      · cases placed
    simp only [allIds,List.flatMap_append,List.flatMap_cons] at there
    rw [List.getElem?_append_right (Nat.le_add_right _ _),Nat.add_sub_cancel_left,List.getElem?_append_left inside,
      List.getElem?_eq_getElem inside,Option.some.injEq] at there
    rw [there,value]
  refine List.pairwise_iff_getElem.mpr fun i j first second less => ?_
  rw [UInt64.lt_iff_toNat_lt,consecutive i first,consecutive j second]
  omega

/-! Live rows. -/

theorem length_allFlags (groups : List Group) : (allFlags groups).length = (allIds groups).length := by
  simp [allFlags,allIds,flags,List.length_flatMap]

theorem any_deleted_iff (counted : ∀ group ∈ groups, group.ids.length < 2^32) :
    (directory groups).any (fun rg => rg.deletionCount > 0) = true ↔ true ∈ allFlags groups := by
  have each (group : Group) (inGroups : group ∈ groups) : (rowGroupMeta group).deletionCount > 0 ↔
    true ∈ flags group := by
    have few : (flags group).count true ≤ group.ids.length := by
      refine Nat.le_trans List.count_le_length ?_
      simp [flags]
    have small : ((flags group).count true) < 2^32 := Nat.lt_of_le_of_lt few (counted group inGroups)
    rw [gt_iff_lt,UInt32.lt_iff_toNat_lt,rowGroupMeta,UInt32.toNat_ofNat_of_lt' small,← List.count_pos_iff]
    rfl
  simp only [List.any_eq_true,allFlags,List.mem_flatMap,decide_eq_true_eq]
  constructor
  · rintro ⟨rg,member,deleted⟩
    obtain ⟨group,inGroups,rfl⟩ := List.mem_map.mp member
    exact ⟨group,inGroups,(each group inGroups).mp deleted⟩
  · rintro ⟨group,inGroups,deleted⟩
    exact ⟨_,List.mem_map_of_mem inGroups,(each group inGroups).mpr deleted⟩

theorem byte_inside (stored : Stored groups) {position : Nat} (inside : position < (allIds groups).length) :
    position / 8 < (persistedDeletionBitmap groups).length := by
  have enough : (allIds groups).length ≤ 8 * (persistedDeletionBitmap groups).length := by
    have bitmaps := stored.bitmaps
    clear stored inside
    induction groups with
    | nil => exact Nat.zero_le _
    | cons group rest ih =>
      have others := ih fun group member => bitmaps group (List.mem_cons_of_mem _ member)
      have own := bitmaps group List.mem_cons_self
      simp only [allIds,persistedDeletionBitmap,List.flatMap_cons,List.length_append] at others ⊢
      omega
  omega

theorem activePosition_of_aligned (stored : Stored groups) (aligned : Aligned groups) {position : Nat}
    (inside : position < (allIds groups).length) :
    activePosition (persistedDeletionBitmap groups) position = livePlace groups position := by
  have bit := aligned position inside
  have byte := byte_inside stored inside
  have counted : (List.range position).countP (getBit (persistedDeletionBitmap groups)) =
    ((allFlags groups).take position).count true := by
    have prefix_ : (allFlags groups).take position = (List.range position).map
      (getBit (persistedDeletionBitmap groups)) := by
      apply List.ext_getElem?
      intro row
      rw [List.getElem?_map,List.getElem?_take]
      split
      · rename_i before
        rw [List.getElem?_range before,Option.map_some,aligned row (by omega),
          List.getElem?_eq_getElem (by rw [length_allFlags]; omega)]
        rfl
      · rw [List.getElem?_eq_none (by rw [List.length_range]; omega)]
        rfl
    rw [prefix_,List.count_eq_countP,List.countP_map]
    exact List.countP_congr fun row _ => by simp
  have whole := List.count_true_add_count_false ((allFlags groups).take position)
  rw [List.length_take,length_allFlags,Nat.min_eq_left (Nat.le_of_lt inside)] at whole
  unfold activePosition livePlace
  rw [countDeletedBits_eq,counted,bit]
  by_cases deleted : (allFlags groups)[position]?.getD false = true
  · rw [if_pos (Or.inr deleted),if_pos deleted]
  · rw [if_neg (not_or.mpr ⟨Nat.not_le.mpr byte,deleted⟩),if_neg deleted]
    congr 1
    omega

theorem livePlace_of_clean (clean : true ∉ allFlags groups) {position : Nat}
    (inside : position < (allIds groups).length) :
    livePlace groups position = some position := by
  have none_ (flag : Bool) (member : flag ∈ allFlags groups) : flag = false := by
    cases flag with
    | true => exact absurd member clean
    | false => rfl
  have short : position < (allFlags groups).length := by rw [length_allFlags]; exact inside
  have all : ((allFlags groups).take position).count false = ((allFlags groups).take position).length :=
    List.count_eq_length.mpr fun flag member => (none_ flag (List.mem_of_mem_take member)).symm
  unfold livePlace
  rw [List.getElem?_eq_getElem short,Option.getD_some,none_ _ (List.getElem_mem short),if_neg Bool.false_ne_true,all,
    List.length_take,
    Nat.min_eq_left (Nat.le_of_lt short)]

theorem place_lt {position : Nat} (placed : place groups id = some position) : position < (allIds groups).length := by
  unfold place at placed
  split at placed
  · rename_i member
    rw [← Option.some.inj placed]
    exact List.idxOf_lt_length_of_mem member
  · cases placed

end Groups

/-- Directory lookups are exact when the groups follow one another in order of their ids,
groups that are as dense as their range list their ids in order, and the deletion
vectors, which end in whole bytes, stay aligned with the rows. -/
theorem directory_exact_iff (partitionPoint : PartitionPoint) {groups : List Group} (stored : Stored groups) :
    Exact partitionPoint groups ↔ groups.Pairwise Below ∧ (Dense groups → (allIds groups).Pairwise (· < ·)) ∧
      (true ∈ allFlags groups → Aligned groups) := by
  have deleted := any_deleted_iff stored.counted
  constructor
  · intro exact_
    have ordered := (findsGroup_iff stored).mp exact_.group
    refine ⟨ordered,fun dense => increasing_of_including stored dense ordered exact_.including,
      fun some_ position inside => ?_⟩
    have byte := byte_inside stored inside
    have present : persistedDeletionBitmap groups ≠ [] :=
      List.ne_nil_of_length_pos (Nat.lt_of_le_of_lt (Nat.zero_le _) byte)
    have answer := exact_.activate [position] (by simpa using inside)
    rw [activatePositions,if_neg (not_or.mpr ⟨not_not.mpr (deleted.mpr some_),present⟩)] at answer
    unfold activePosition livePlace at answer
    cases bit : getBit (persistedDeletionBitmap groups) position with
    | false =>
      cases flag : (allFlags groups)[position]?.getD false with
      | false => rfl
      | true => simp [bit,flag,Nat.not_le.mpr byte] at answer
    | true =>
      cases flag : (allFlags groups)[position]?.getD false with
      | false => simp [bit,flag] at answer
      | true => rfl
  · rintro ⟨ordered,increasing,aligned⟩
    have positions (declined : RowGroupMeta → Bool) (strict : ∀ rg, declined rg = false →
      notDense rg = false) (starting : List Nat)
        (started : starts declined 0 (directory groups) = some starting) (id : UInt64) :
        physicalPosition partitionPoint (directory groups) starting id = place groups id := by
      have dense : Dense groups := fun group member => strict _ ((starts_some stored.counted started).1 group member)
      exact physicalPosition_eq_place stored dense (increasing dense) ordered started id
    have undeleted (rg : RowGroupMeta) (accepted : notDenseOrDeleted rg = false) : notDense rg = false := by
      unfold notDenseOrDeleted at accepted
      unfold notDense
      cases filled : decide (rg.rowCount > 0) with
      | false => rfl
      | true =>
        rw [filled,Bool.true_and,Bool.or_assoc,Bool.or_eq_false_iff] at accepted
        rw [Bool.true_and]
        exact accepted.2
    have clean (ids : List UInt64) (result : List Nat) (answer : positionsForIds partitionPoint (directory groups) ids =
      some result) :
        result = ids.filterMap (place groups) := by
      obtain ⟨starting,started,answer⟩ := Option.bind_eq_some_iff.mp answer
      rw [← Option.some.inj answer]
      exact List.filterMap_congr fun id _ => positions _ undeleted starting started id
    refine ⟨clean,fun ids result answer => ?_,fun shadowed ids result answer => ?_,fun places inside => ?_,
      (findsGroup_iff stored).mpr ordered⟩
    · obtain ⟨starting,started,answer⟩ := Option.bind_eq_some_iff.mp answer
      rw [← Option.some.inj answer]
      exact List.filterMap_congr fun id _ => positions _ (fun _ accepted => accepted) starting started id
    · unfold activePositionsForIds at answer
      split at answer
      · rename_i none_
        have noFlag : true ∉ allFlags groups := fun flagged => none_ (deleted.mpr flagged)
        rw [clean ids result answer]
        refine List.filterMap_congr fun id _ => ?_
        cases placed : place groups id with
        | none => rfl
        | some position => exact (livePlace_of_clean noFlag (place_lt placed)).symm
      · rename_i some_
        have flagged := deleted.mp (not_not.mp some_)
        split at answer
        · cases answer
        · obtain ⟨starting,started,answer⟩ := Option.bind_eq_some_iff.mp answer
          rw [← Option.some.inj answer]
          refine List.filterMap_congr fun id _ => ?_
          rw [positions _ (fun _ accepted => accepted) starting started id]
          cases placed : place groups id with
          | none => rfl
          | some position =>
            have inside := place_lt placed
            have present : persistedDeletionBitmap groups ≠ [] :=
              List.ne_nil_of_length_pos (Nat.lt_of_le_of_lt (Nat.zero_le _) (byte_inside stored inside))
            simp only [Option.bind_eq_bind,Option.bind_some,if_neg present]
            exact activePosition_of_aligned stored (aligned flagged) inside
    · unfold activatePositions
      by_cases flagged : true ∈ allFlags groups
      · by_cases present : persistedDeletionBitmap groups = []
        · rw [if_pos (Or.inr present)]
          cases places with
          | nil => rfl
          | cons position rest =>
            have byte := byte_inside stored (inside position List.mem_cons_self)
            rw [present] at byte
            exact absurd byte (Nat.not_lt_zero _)
        · rw [if_neg (not_or.mpr ⟨not_not.mpr (deleted.mpr flagged),present⟩)]
          exact List.filterMap_congr fun position member => activePosition_of_aligned stored (aligned flagged)
            (inside position member)
      · rw [if_pos (Or.inl fun some_ => flagged (deleted.mp some_))]
        symm
        calc places.filterMap (livePlace groups) = places.filterMap some :=
              List.filterMap_congr fun position member => livePlace_of_clean flagged (inside position member)
          _ = places := List.filterMap_some

/-! The writers. -/

theorem Stored.append {groups : List Group} {group : Group} (stored : Stored groups) (some_ : group.ids ≠ [])
    (counted : group.ids.length < 2^32) (bitmap : group.deleted.length = (group.ids.length + 7) / 8)
    (addressed : (allIds (groups ++ [group])).length < 2^64) : Stored (groups ++ [group]) := by
  have one {P : Group → Prop} {list : List Group} (all : ∀ other ∈ list, P other) (own : P group) : ∀ other ∈ list ++
    [group], P other := by
    intro other member
    rcases List.mem_append.mp member with old | new
    · exact all other old
    · rw [List.mem_singleton.mp new]
      exact own
  refine ⟨?_,one stored.counted counted,one stored.bitmaps bitmap,addressed⟩
  cases groups with
  | nil => exact fun _ none_ => nomatch none_
  | cons first rest => exact one stored.filled some_

theorem Stored.delete {front back : List Group} {group : Group} (stored : Stored (front ++ group :: back))
    {bitmap : Bytes}
    (length : bitmap.length = group.deleted.length) : Stored (front ++ {group with deleted := bitmap} :: back) := by
  have same : allIds (front ++ {group with deleted := bitmap} :: back) =
    allIds (front ++ group :: back) := by simp [allIds]
  have counted := stored.counted
  have bitmaps := stored.bitmaps
  simp only [List.forall_mem_append,List.forall_mem_cons] at counted bitmaps
  refine ⟨?_,?_,?_,same ▸ stored.addressed⟩
  · have filled := stored.filled
    cases front with
    | nil => exact filled
    | cons first rest =>
      simp only [List.cons_append,List.tail_cons,List.forall_mem_append,List.forall_mem_cons] at filled ⊢
      exact filled
  · simp only [List.forall_mem_append,List.forall_mem_cons]
    exact counted
  · simp only [List.forall_mem_append,List.forall_mem_cons]
    exact ⟨bitmaps.1,length.trans bitmaps.2.1,bitmaps.2.2⟩

/-- The row groups that a rewrite has written, and the rows that wait for the next one. -/
structure Writer where
  groups : List Group
  out : List UInt64

def written (ids : List UInt64) : Group := ⟨ids,List.replicate ((ids.length + 7) / 8) 0⟩

def Writer.flush (writer : Writer) : Writer := if writer.out = [] then writer
    else ⟨writer.groups ++ [written writer.out],[]⟩

theorem Writer.flush_out (writer : Writer) : writer.flush.out = [] := by
  unfold flush
  split
  · assumption
  · rfl

def Writer.push (target : Nat) (writer : Writer) (id : UInt64) : Writer :=
  let grown : Writer := {writer with out := writer.out ++ [id]}
  if target ≤ grown.out.length then grown.flush else grown

/-- The row groups of a rewrite: the rows of the base, then in groups of their own those
that were appended. Without rows, one empty row group is written. -/
def rewritten (target : Nat) (base appended : List UInt64) : List Group :=
  let final := (appended.foldl (Writer.push target) (base.foldl (Writer.push target) ⟨[],[]⟩).flush).flush
  if final.groups = [] then [written []] else final.groups

structure Filling (target : Nat) (ids : List UInt64) (writer : Writer) : Prop where
  groups : ∀ group ∈ writer.groups, ∃ rows, group = written rows ∧ rows ≠ [] ∧ rows.length ≤ target
  kept : allIds writer.groups ++ writer.out = ids
  few : writer.out.length < target

section
variable {target : Nat} {ids : List UInt64} {writer : Writer} (positive : 0 < target)
include positive

theorem filling_flush
    (groups : ∀ group ∈ writer.groups, ∃ rows, group = written rows ∧ rows ≠ [] ∧ rows.length ≤ target)
    (kept : allIds writer.groups ++ writer.out = ids) (few : writer.out.length ≤ target) :
    Filling target ids writer.flush := by
  unfold Writer.flush
  split
  · rename_i empty
    exact ⟨groups,kept,by rwa [empty]⟩
  · rename_i some_
    refine ⟨fun group member => ?_,?_,positive⟩
    · rcases List.mem_append.mp member with old | new
      · exact groups group old
      · exact ⟨writer.out,List.mem_singleton.mp new,some_,few⟩
    · rw [← kept,allIds,List.flatMap_append,List.append_nil,List.flatMap_singleton]
      rfl

theorem filling_push (filling : Filling target ids writer) (id : UInt64) :
    Filling target (ids ++ [id]) (writer.push target id) := by
  have kept : allIds writer.groups ++ (writer.out ++ [id]) = ids ++ [id] := by rw [← filling.kept,List.append_assoc]
  have few : (writer.out ++ [id]).length ≤ target := by
    rw [List.length_append]
    exact filling.few
  unfold Writer.push
  dsimp only
  split
  · exact @filling_flush target _ ⟨_,writer.out ++ [id]⟩ positive filling.groups kept few
  · rename_i room
    exact ⟨filling.groups,kept,Nat.lt_of_not_le room⟩

theorem filling_foldl (filling : Filling target ids writer) (more : List UInt64) :
    Filling target (ids ++ more) (more.foldl (Writer.push target) writer) := by
  induction more generalizing ids writer with
  | nil => rwa [List.append_nil]
  | cons id rest ih =>
    have next := ih (filling_push positive filling id)
    rwa [List.append_assoc] at next

end

/-- The rewrite keeps the rows in their order and leaves row groups as every writer does. -/
theorem rewritten_stored {target : Nat} (positive : 0 < target) (bounded : target < 2^32) {base appended : List UInt64}
    (addressed : (base ++ appended).length < 2^64) :
    allIds (rewritten target base appended) = base ++ appended ∧ Stored (rewritten target base appended) := by
  have start : Filling target [] ⟨[],[]⟩ := ⟨List.forall_mem_nil _,rfl,positive⟩
  have close {ids : List UInt64} {writer : Writer} (filling : Filling target ids writer) :=
    filling_flush positive filling.groups filling.kept (Nat.le_of_lt filling.few)
  have whole := close (filling_foldl positive (close (filling_foldl positive start base)) appended)
  unfold rewritten
  dsimp only
  have none_ := Writer.flush_out (appended.foldl (Writer.push target) (base.foldl (Writer.push target) ⟨[],[]⟩).flush)
  generalize Writer.flush (List.foldl _ _ appended) = final at whole none_ ⊢
  obtain ⟨groups,kept,_⟩ := whole
  rw [none_,List.append_nil,List.nil_append] at kept
  have sized : ∀ group ∈ final.groups, group.ids ≠ [] ∧ group.ids.length < 2^32 ∧
    group.deleted.length = (group.ids.length + 7) / 8 := by
    intro group member
    obtain ⟨rows,rfl,some_,few⟩ := groups group member
    exact ⟨some_,Nat.lt_of_le_of_lt few bounded,List.length_replicate⟩
  split
  · rename_i empty
    rw [empty] at kept
    refine ⟨kept,?_,?_,?_,by simp [allIds,written]⟩
    · exact List.forall_mem_nil _
    · exact List.forall_mem_singleton.mpr (by decide)
    · exact List.forall_mem_singleton.mpr rfl
  · exact ⟨kept,fun group member => (sized group (List.mem_of_mem_tail member)).1,fun group member =>
      (sized group member).2.1,
      fun group member => (sized group member).2.2,kept ▸ addressed⟩

def linearPoint : PartitionPoint where
  find predicate rowGroups := (rowGroups.takeWhile predicate).length
  cut predicate front back low high := by
    rw [List.takeWhile_append_of_pos low]
    cases back with
    | nil => simp
    | cons first rest =>
      rw [List.takeWhile_cons_of_neg (by rw [high first List.mem_cons_self]; exact Bool.false_ne_true),List.append_nil]

/-- A rewrite of the base rows 0 and 1 and of two batches, of which the later ids came first. -/
def lateGroups : List Group := rewritten 65536 [0,1] [4,5,2,3]

/-- The rewrite puts the late batches into one dense group out of order: the row of id 4
is looked for where that of id 2 is. -/
theorem directory_misplaces : positionsForIds linearPoint (directory lateGroups) [4] = some [4] ∧
    place lateGroups 4 = some 2 ∧
    Stored lateGroups ∧ ¬ Exact linearPoint lateGroups := by
  have found : positionsForIds linearPoint (directory lateGroups) [4] = some [4] := by decide +kernel
  have there : place lateGroups 4 = some 2 := by decide +kernel
  refine ⟨found,there,(rewritten_stored (by decide) (by decide) (by decide)).2,fun exact_ => ?_⟩
  have same := exact_.positions [4] [4] found
  rw [List.filterMap_cons_some there] at same
  cases same

theorem directory_exact_of_two : Exact linearPoint [⟨[0,1],[0]⟩,⟨[2,3],[0]⟩] ↔
    [(⟨[0,1],[0]⟩ : Group),⟨[2,3],[0]⟩].Pairwise Below ∧
      (Dense [⟨[0,1],[0]⟩,⟨[2,3],[0]⟩] → (allIds [⟨[0,1],[0]⟩,⟨[2,3],[0]⟩]).Pairwise (· < ·)) ∧
      (true ∈ allFlags [⟨[0,1],[0]⟩,⟨[2,3],[0]⟩] → Aligned [⟨[0,1],[0]⟩,⟨[2,3],[0]⟩]) :=
  directory_exact_iff linearPoint ⟨by simp,by simp,by simp,by decide⟩

end IdDirectory

end ApexBase.Storage
