import ApexBase.Library.Greatest
import ApexBase.Query.MultiColumn
import Mathlib.Data.Finset.Card
import Mathlib.Data.Finset.Image

/-! What the groups of a multi-column GROUP BY are: those of the hashes, up to the width of a group id. -/
namespace ApexBase.Query.MultiColumn
open Library Library.Grouping

/-- A table and its arrays say these groups; the states only while the ids have room for the hashes. -/
structure Represents (hashes : Finset UInt64) (agg : MultiColumnHashAgg) (groups : List (UInt64 × AggregateState)) :
    Prop where
  distinct : (groups.map Prod.fst).Nodup
  inside : ∀ key ∈ groups.map Prod.fst, key ∈ hashes
  table : agg.hashTable = (groups.map Prod.fst).zipIdx.map fun entry => (entry.1,UInt32.ofNat entry.2)
  states : agg.states.length = groups.length
  firsts : agg.firstRowIndices.length = groups.length
  content : hashes.card ≤ 2^32 → agg.states = groups.map Prod.snd ∧ agg.firstRowIndices = groups.map (·.2.firstRowIdx)

namespace Represents
variable {hashes : Finset UInt64} {agg : MultiColumnHashAgg} {groups : List (UInt64 × AggregateState)} {key : UInt64}
    {state : AggregateState}

theorem new : Represents hashes .new [] :=
  ⟨List.nodup_nil,by simp,rfl,rfl,rfl,fun _ => ⟨rfl,rfl⟩⟩

section
variable (represents : Represents hashes agg groups)
include represents

theorem length_le : groups.length ≤ hashes.card := by
  rw [← List.length_map Prod.fst,← List.toFinset_card_of_nodup represents.distinct]
  exact Finset.card_le_card fun key member => represents.inside key (List.mem_toFinset.mp member)

theorem mem_table {groupId : UInt32} :
    (key,groupId) ∈ agg.hashTable ↔ ∃ place state, groups[place]? = some (key,state) ∧
    groupId = UInt32.ofNat place := by
  rw [represents.table,List.mem_map]
  constructor
  · rintro ⟨entry,member,same⟩
    rw [List.mem_zipIdx_iff_getElem?,List.getElem?_map,Option.map_eq_some_iff] at member
    obtain ⟨⟨other,state⟩,here,named⟩ := member
    obtain ⟨rfl,rfl⟩ := Prod.mk.inj same
    exact ⟨entry.2,state,by rw [here,← named],rfl⟩
  · rintro ⟨place,state,here,rfl⟩
    refine ⟨(key,place),?_,rfl⟩
    rw [List.mem_zipIdx_iff_getElem?,List.getElem?_map,here]
    rfl

theorem keys_table : agg.hashTable.map Prod.fst = groups.map Prod.fst := by
  rw [represents.table,List.map_map]
  exact List.zipIdx_map_fst 0 _

theorem lookup_table {groupId : UInt32} :
    agg.hashTable.lookup key = some groupId ↔ ∃ place state, groups[place]? = some (key,state) ∧
    groupId = UInt32.ofNat place := by
  rw [lookup_eq_some (represents.keys_table ▸ represents.distinct),represents.mem_table]

theorem lookup_none : agg.hashTable.lookup key = none ↔ groups.lookup key = none := by
  rw [lookup_eq_none,lookup_eq_none,represents.keys_table]

private theorem inside_upsert (known : key ∈ hashes) (f : Option AggregateState → AggregateState) :
    ∀ other ∈ (upsert key f groups).map Prod.fst, other ∈ hashes := by
  intro other member
  rw [keys_upsert] at member
  split at member
  · exact represents.inside other member
  · rcases List.mem_append.mp member with before | here
    · exact represents.inside other before
    · rw [List.mem_singleton.mp here]
      exact known

theorem append (known : key ∈ hashes) (absent : groups.lookup key = none) {f : Option AggregateState → AggregateState}
    {first : Nat} {pushed : AggregateState}
    (same : hashes.card ≤ 2^32 → pushed = f none ∧ first = (f none).firstRowIdx) :
    Represents hashes ⟨agg.hashTable ++ [(key,UInt32.ofNat agg.states.length)],agg.states ++ [pushed],
      agg.firstRowIndices ++ [first]⟩ (upsert key f groups) := by
  have added := upsert_eq_append f absent
  refine ⟨nodup_upsert f represents.distinct,represents.inside_upsert known f,?_,?_,?_,fun small => ?_⟩
  · rw [added,List.map_append,List.zipIdx_append,List.map_append,← represents.table,represents.states]
    simp
  · rw [added,List.length_append,List.length_append,represents.states]
    rfl
  · rw [added,List.length_append,List.length_append,represents.firsts]
    rfl
  · obtain ⟨states,firsts⟩ := represents.content small
    obtain ⟨rfl,rfl⟩ := same small
    rw [added,List.map_append,List.map_append,states,firsts]
    exact ⟨rfl,rfl⟩

theorem update {groupId : UInt32} (found : agg.hashTable.lookup key = some groupId)
    {f : Option AggregateState → AggregateState} {g : AggregateState → AggregateState}
    (same : ∀ state, f (some state) = g state)
    (kept : ∀ state, (g state).firstRowIdx = state.firstRowIdx) :
    Represents hashes (agg.update groupId g) (upsert key f groups) := by
  obtain ⟨place,state,here,rfl⟩ := represents.lookup_table.mp found
  have less : place < groups.length := (List.getElem?_eq_some_iff.mp here).1
  have set_ := upsert_eq_set f represents.distinct here
  have keys : (upsert key f groups).map Prod.fst = groups.map Prod.fst := by
    rw [keys_upsert,if_pos (List.mem_map_of_mem (f := Prod.fst) (List.mem_of_getElem? here))]
  refine ⟨keys ▸ represents.distinct,keys ▸ represents.inside,keys ▸ represents.table,?_,?_,fun small => ?_⟩
  · rw [set_,List.length_set,← represents.states]
    exact List.length_modify _ _ _
  · rw [set_,List.length_set]
    exact represents.firsts
  · obtain ⟨states,firsts⟩ := represents.content small
    have room : (UInt32.ofNat place).toNat = place := by
      have most := represents.length_le
      rw [UInt32.toNat_ofNat',Nat.mod_eq_of_lt (by omega)]
    have entry : groups[place] = (key,state) := (List.getElem?_eq_some_iff.mp here).2
    constructor
    · change agg.states.modify (UInt32.ofNat place).toNat g = _
      rw [room,states,set_]
      refine List.ext_getElem? fun index => ?_
      rw [List.getElem?_modify,List.getElem?_map,List.getElem?_map,List.getElem?_set]
      by_cases equal : place = index
      · subst equal
        simp [entry,same,less]
      · simp [equal]
    · change agg.firstRowIndices = _
      rw [firsts,set_]
      refine List.ext_getElem? fun index => ?_
      rw [List.getElem?_map,List.getElem?_map,List.getElem?_set]
      by_cases equal : place = index
      · subst equal
        simp [entry,same,less,kept]
      · simp [equal]

theorem touch (known : key ∈ hashes) (row : Nat) {g : AggregateState → AggregateState}
    (kept : ∀ state, (g state).firstRowIdx = state.firstRowIdx) :
    Represents hashes ((agg.getOrCreateGroup key row).1.update (agg.getOrCreateGroup key row).2 g)
      (upsert key (fun state => g (state.getD (.new row))) groups) := by
  unfold MultiColumnHashAgg.getOrCreateGroup
  cases found : agg.hashTable.lookup key with
  | some groupId => exact represents.update found (fun _ => rfl) kept
  | none =>
    have absent := represents.lookup_none.mp found
    have made : Represents hashes ⟨agg.hashTable ++ [(key,UInt32.ofNat agg.states.length)],agg.states ++ [.new row],
      agg.firstRowIndices ++ [row]⟩
        (upsert key (fun state => state.getD (.new row)) groups) := represents.append known absent fun _ => ⟨rfl,rfl⟩
    have again : (agg.hashTable ++ [(key,UInt32.ofNat agg.states.length)]).lookup key =
      some (UInt32.ofNat agg.states.length) := by
      rw [List.lookup_append,found]
      simp
    have updated := made.update (f := fun state => g (state.getD (.new row))) again (fun _ => rfl) kept
    rwa [upsert_upsert] at updated

end

def absorb (add : UInt64 → UInt64 → UInt64) (state : AggregateState) (known : Option AggregateState) : AggregateState :=
  known.elim state (·.merge add state)

theorem mergeEntry (add : UInt64 → UInt64 → UInt64) (represents : Represents hashes agg groups) (known : key ∈ hashes)
    (localAgg : MultiColumnHashAgg) (groupId : UInt32)
    (first : hashes.card ≤ 2^32 → (localAgg.firstRowIndices[groupId.toNat]?).getD 0 =
      ((localAgg.states[groupId.toNat]?).getD (.new 0)).firstRowIdx) :
    Represents hashes (localAgg.mergeEntry add agg (key,groupId))
      (upsert key (absorb add ((localAgg.states[groupId.toNat]?).getD (.new 0))) groups) := by
  unfold MultiColumnHashAgg.mergeEntry
  simp only
  cases found : agg.hashTable.lookup key with
  | some globalGroupId => exact represents.update found (fun _ => rfl) fun _ => rfl
  | none => exact represents.append known (represents.lookup_none.mp found) fun small => ⟨rfl,first small⟩

def entriesOf (localAgg : MultiColumnHashAgg) (table : List (UInt64 × UInt32)) : List (UInt64 × AggregateState) :=
  table.map fun entry => (entry.1,(localAgg.states[entry.2.toNat]?).getD (.new 0))

theorem mergeEntries (add : UInt64 → UInt64 → UInt64) (localAgg : MultiColumnHashAgg) (table : List (UInt64 × UInt32))
    (known : ∀ entry ∈ table, entry.1 ∈ hashes)
    (first : hashes.card ≤ 2^32 → ∀ entry ∈ table,
      (localAgg.firstRowIndices[entry.2.toNat]?).getD 0 = ((localAgg.states[entry.2.toNat]?).getD (.new 0)).firstRowIdx)
    (represents : Represents hashes agg groups) :
    Represents hashes (table.foldl (localAgg.mergeEntry add) agg)
      ((entriesOf localAgg table).foldl (fun groups entry => upsert entry.1 (absorb add entry.2) groups) groups) := by
  induction table generalizing agg groups with
  | nil => exact represents
  | cons entry rest ih =>
    refine ih (fun other member => known other (List.mem_cons_of_mem _ member)) (fun small other member =>
      first small other (List.mem_cons_of_mem _ member)) ?_
    exact represents.mergeEntry add (known entry List.mem_cons_self) localAgg entry.2 fun small =>
      first small entry List.mem_cons_self

theorem at_entry (represents : Represents hashes agg groups) (small : hashes.card ≤ 2^32) {place : Nat}
    (here : groups[place]? = some (key,state)) :
    agg.states[(UInt32.ofNat place).toNat]? = some state ∧ agg.firstRowIndices[(UInt32.ofNat place).toNat]? =
    some state.firstRowIdx := by
  obtain ⟨states,firsts⟩ := represents.content small
  have less : place < groups.length := (List.getElem?_eq_some_iff.mp here).1
  have most := represents.length_le
  rw [UInt32.toNat_ofNat',Nat.mod_eq_of_lt (by omega),states,firsts,List.getElem?_map,List.getElem?_map,here]
  exact ⟨rfl,rfl⟩

theorem entriesOf_eq (represents : Represents hashes agg groups) (small : hashes.card ≤ 2^32) :
    entriesOf agg agg.hashTable = groups := by
  unfold entriesOf
  rw [represents.table,List.map_map]
  refine List.ext_getElem? fun place => ?_
  rw [List.getElem?_map,List.getElem?_zipIdx,List.getElem?_map]
  cases here : groups[place]? with
  | none => rfl
  | some entry =>
    have state := (represents.at_entry small here).1
    simp only [Option.map_some,Nat.zero_add,Function.comp_apply,state,Option.getD_some]

theorem mergePartition (add : UInt64 → UInt64 → UInt64) (order : MapOrder) {localAgg : MultiColumnHashAgg}
    {locals : List (UInt64 × AggregateState)} (represents : Represents hashes agg groups)
    (part : Represents hashes localAgg locals) :
    ∃ entries : List (UInt64 × AggregateState), Represents hashes (agg.mergePartition add order localAgg)
        (entries.foldl (fun groups entry => upsert entry.1 (absorb add entry.2) groups) groups) ∧
      (∀ key, key ∈ entries.map Prod.fst ↔ key ∈ locals.map Prod.fst) ∧ (hashes.card ≤ 2^32 → entries.Perm locals) := by
  have perm := order.perm localAgg.hashTable
  have member : ∀ entry ∈ order.iterate localAgg.hashTable, ∃ place state, locals[place]? = some (entry.1,state) ∧
    entry.2 = UInt32.ofNat place :=
    fun entry inside => part.mem_table.mp (perm.mem_iff.mp inside)
  refine ⟨entriesOf localAgg (order.iterate localAgg.hashTable),?_,fun key => ?_,fun small => ?_⟩
  · refine represents.mergeEntries add localAgg _ (fun entry inside => ?_) fun small entry inside => ?_
    · obtain ⟨place,state,here,_⟩ := member entry inside
      exact part.inside _ (List.mem_map_of_mem (f := Prod.fst) (List.mem_of_getElem? here))
    · obtain ⟨place,state,here,named⟩ := member entry inside
      obtain ⟨states,firsts⟩ := part.at_entry small here
      rw [named,states,firsts]
      rfl
  · have keys : (entriesOf localAgg (order.iterate localAgg.hashTable)).map Prod.fst =
      (order.iterate localAgg.hashTable).map Prod.fst := by
      unfold entriesOf
      rw [List.map_map]
      rfl
    rw [keys,(perm.map Prod.fst).mem_iff,part.keys_table]
  · have same := part.entriesOf_eq small
    rw [← same]
    exact perm.map _

end Represents

section Rows
variable (add : UInt64 → UInt64 → UInt64) (aggInt : Option (List (Option Int64)))
    (aggFloat : Option (List (Option UInt64)))

/-- The value of a row in the column that is aggregated: the first of the two that is there. -/
def intAt (row : Nat) : Option Int64 := aggInt.bind (·[row]?.join)

def floatAt (row : Nat) : Option UInt64 := if aggInt.isSome then none else aggFloat.bind (·[row]?.join)

/-- A row counts where it has a value, or where there is no column to aggregate. -/
def counts (row : Nat) : Bool := aggInt.isNone && aggFloat.isNone || (intAt aggInt row).isSome ||
    (floatAt aggInt aggFloat row).isSome

def rowUpdate (row : Nat) (state : AggregateState) : AggregateState :=
  match aggInt,aggFloat with
  | none,none => state.updateCount
  | some values,_ => (values[row]?.join).elim state (state.updateInt ·)
  | none,some values => (values[row]?.join).elim state (state.updateFloat add ·)

structure Summarizes (rows : List Nat) (state : AggregateState) : Prop where
  first : rows.head? = some state.firstRowIdx
  count : state.count = Int64.ofNat (rows.filter (counts aggInt aggFloat)).length
  sumInt : state.sumInt = (rows.filterMap (intAt aggInt)).sum
  minInt : state.minInt = (rows.filterMap (intAt aggInt)).min?
  maxInt : state.maxInt = (rows.filterMap (intAt aggInt)).max?
  minFloat : state.minFloat = reduce minNum (rows.filterMap (floatAt aggInt aggFloat))
  maxFloat : state.maxFloat = reduce maxNum (rows.filterMap (floatAt aggInt aggFloat))

structure Adds (state other both : AggregateState) : Prop where
  first : both.firstRowIdx = state.firstRowIdx
  count : both.count = state.count + other.count
  sumInt : both.sumInt = state.sumInt + other.sumInt
  minInt : both.minInt = Option.merge min state.minInt other.minInt
  maxInt : both.maxInt = Option.merge max state.maxInt other.maxInt
  minFloat : both.minFloat = Option.merge minNum state.minFloat other.minFloat
  maxFloat : both.maxFloat = Option.merge maxNum state.maxFloat other.maxFloat

theorem mergeValue_eq {α : Type} (op : α → α → α) (value other : Option α) :
    AggregateState.mergeValue op value other = Option.merge op value other := by
  cases value with
  | none => cases other with | none => rfl | some _ => rfl
  | some _ => cases other with | none => rfl | some _ => rfl

theorem adds_merge (state other : AggregateState) : Adds state other (state.merge add other) :=
  ⟨rfl,rfl,rfl,mergeValue_eq _ _ _,mergeValue_eq _ _ _,mergeValue_eq _ _ _,mergeValue_eq _ _ _⟩

theorem elim_eq {α : Type} (op : α → α → α) (value : Option α) (other : α) :
    some (value.elim other (op · other)) = Option.merge op value (some other) := by
  cases value with
  | none => rfl
  | some _ => rfl

private theorem adds_none (row : Nat) (state : AggregateState) : Adds state (.new row) state := by
  refine ⟨rfl,(Int64.add_zero _).symm,(Int64.add_zero _).symm,?_,?_,?_,?_⟩
  · cases state.minInt with | none => rfl | some _ => rfl
  · cases state.maxInt with | none => rfl | some _ => rfl
  · cases state.minFloat with | none => rfl | some _ => rfl
  · cases state.maxFloat with | none => rfl | some _ => rfl

theorem rowUpdate_cases (row : Nat) :
    (rowUpdate add aggInt aggFloat row = id ∧ counts aggInt aggFloat row = false ∧ intAt aggInt row = none ∧
      floatAt aggInt aggFloat row = none) ∨
    (rowUpdate add aggInt aggFloat row = .updateCount ∧ counts aggInt aggFloat row = true ∧ intAt aggInt row = none ∧
      floatAt aggInt aggFloat row = none) ∨
    (∃ value, rowUpdate add aggInt aggFloat row = .updateInt value ∧ counts aggInt aggFloat row = true ∧
      intAt aggInt row = some value ∧
      floatAt aggInt aggFloat row = none) ∨
    ∃ value, rowUpdate add aggInt aggFloat row = .updateFloat add value ∧ counts aggInt aggFloat row = true ∧
    intAt aggInt row = none ∧
      floatAt aggInt aggFloat row = some value := by
  cases aggInt with
  | some values =>
    cases found : values[row]?.join with
    | none =>
      exact Or.inl ⟨funext fun state =>
        by simp [rowUpdate,found],by simp [counts,intAt,floatAt,found],by simp [intAt,found],rfl⟩
    | some value =>
      exact Or.inr (Or.inr (Or.inl ⟨value,funext fun state =>
        by simp [rowUpdate,found],by simp [counts,intAt,floatAt,found],
        by simp [intAt,found],rfl⟩))
  | none =>
    cases aggFloat with
    | none => exact Or.inr (Or.inl ⟨rfl,rfl,rfl,rfl⟩)
    | some values =>
      cases found : values[row]?.join with
      | none =>
        exact Or.inl ⟨funext fun state =>
          by simp [rowUpdate,found],by simp [counts,intAt,floatAt,found],rfl,by simp [floatAt,found]⟩
      | some value =>
        exact Or.inr (Or.inr (Or.inr ⟨value,funext fun state =>
          by simp [rowUpdate,found],by simp [counts,intAt,floatAt,found],rfl,
          by simp [floatAt,found]⟩))

theorem adds_rowUpdate (row : Nat) (state : AggregateState) :
    Adds state (rowUpdate add aggInt aggFloat row (.new row)) (rowUpdate add aggInt aggFloat row state) := by
  have same := adds_none row state
  have counted : state.count + 1 = state.count + (0 + 1) := by rw [Int64.zero_add]
  rcases rowUpdate_cases add aggInt aggFloat row with ⟨update,_⟩ | ⟨update,_⟩ | ⟨value,update,_⟩ | ⟨value,update,_⟩
  · rw [update]
    exact same
  · rw [update]
    exact ⟨rfl,counted,same.sumInt,same.minInt,same.maxInt,same.minFloat,same.maxFloat⟩
  · rw [update]
    have summed : state.sumInt + value = state.sumInt + (0 + value) := by rw [Int64.zero_add]
    exact ⟨rfl,counted,summed,elim_eq min _ _,elim_eq max _ _,same.minFloat,same.maxFloat⟩
  · rw [update]
    exact ⟨rfl,counted,same.sumInt,same.minInt,same.maxInt,elim_eq minNum _ _,elim_eq maxNum _ _⟩

theorem rowUpdate_first (row : Nat) (state : AggregateState) :
    (rowUpdate add aggInt aggFloat row state).firstRowIdx = state.firstRowIdx :=
  (adds_rowUpdate add aggInt aggFloat row state).first

theorem minNum_assoc (a b c : UInt64) : minNum (minNum a b) c = minNum a (minNum b c) := by
  unfold minNum
  grind

theorem maxNum_assoc (a b c : UInt64) : maxNum (maxNum a b) c = maxNum a (maxNum b c) := by
  unfold maxNum
  grind

instance : Std.Associative minNum := ⟨minNum_assoc⟩

instance : Std.Associative maxNum := ⟨maxNum_assoc⟩

variable {aggInt aggFloat}

theorem Summarizes.append {rows others : List Nat} {state other both : AggregateState} (adds : Adds state other both)
    (summarizes : Summarizes aggInt aggFloat rows state) (more : Summarizes aggInt aggFloat others other) :
    Summarizes aggInt aggFloat (rows ++ others) both := by
  refine ⟨?_,?_,?_,?_,?_,?_,?_⟩
  · rw [List.head?_append,summarizes.first,adds.first]
    rfl
  · rw [adds.count,summarizes.count,more.count,List.filter_append,List.length_append,Int64.ofNat_add]
  · rw [adds.sumInt,summarizes.sumInt,more.sumInt,List.filterMap_append,List.sum_append]
  · rw [adds.minInt,summarizes.minInt,more.minInt,List.filterMap_append]
    exact (reduce_append min _ _).symm
  · rw [adds.maxInt,summarizes.maxInt,more.maxInt,List.filterMap_append]
    exact (reduce_append max _ _).symm
  · rw [adds.minFloat,summarizes.minFloat,more.minFloat,List.filterMap_append,reduce_append]
  · rw [adds.maxFloat,summarizes.maxFloat,more.maxFloat,List.filterMap_append,reduce_append]

theorem summarizes_row (row : Nat) : Summarizes aggInt aggFloat [row]
    (rowUpdate add aggInt aggFloat row (.new row)) := by
  rcases rowUpdate_cases add aggInt aggFloat row with ⟨update,counted,int,float⟩ | ⟨update,counted,int,float⟩ | ⟨value,
    update,counted,int,float⟩ |
    ⟨value,update,counted,int,float⟩
  all_goals
    rw [update]
    constructor
  all_goals simp [counted,int,float,AggregateState.new,AggregateState.updateCount,AggregateState.updateInt,
    AggregateState.updateFloat,reduce]

def Summary (aggInt : Option (List (Option Int64))) (aggFloat : Option (List (Option UInt64))) (rows : List Nat) :
    Option AggregateState → Prop
  | none => rows = []
  | some state => Summarizes aggInt aggFloat rows state

theorem summary_foldl (more : List Nat) {rows : List Nat} {state : Option AggregateState}
    (summary : Summary aggInt aggFloat rows state) :
    Summary aggInt aggFloat (rows ++ more)
      (more.foldl (fun state row => some (rowUpdate add aggInt aggFloat row (state.getD (.new row)))) state) := by
  induction more generalizing rows state with
  | nil => rwa [List.append_nil]
  | cons row rest ih =>
    rw [List.foldl_cons,← List.singleton_append,← List.append_assoc]
    refine ih ?_
    cases state with
    | none =>
      obtain rfl : rows = [] := summary
      exact summarizes_row add row
    | some state =>
      exact Summarizes.append (adds_rowUpdate add aggInt aggFloat row state) summary (summarizes_row add row)

theorem summary_absorb {rows others : List Nat} {state : Option AggregateState} {other : Option AggregateState}
    (summary : Summary aggInt aggFloat rows state) (more : Summary aggInt aggFloat others other) :
    Summary aggInt aggFloat (rows ++ others)
      (other.toList.foldl (fun state other => some (Represents.absorb add other state)) state) := by
  cases other with
  | none =>
    obtain rfl : others = [] := more
    rwa [List.append_nil]
  | some other =>
    cases state with
    | none =>
      obtain rfl : rows = [] := summary
      exact more
    | some state => exact Summarizes.append (adds_merge add state other) summary more

end Rows

section Run
variable (add : UInt64 → UInt64 → UInt64) (hash : Nat → UInt64) (aggInt : Option (List (Option Int64)))
    (aggFloat : Option (List (Option UInt64)))

def touchRow (agg : MultiColumnHashAgg) (row : Nat) : MultiColumnHashAgg :=
  (agg.getOrCreateGroup (hash row) row).1.update (agg.getOrCreateGroup (hash row) row).2
    (rowUpdate add aggInt aggFloat row)

/-- A table after these rows: its groups are those of their hashes. -/
structure Ran (hashes : Finset UInt64) (rows : List Nat) (agg : MultiColumnHashAgg)
    (groups : List (UInt64 × AggregateState)) : Prop where
  represents : Represents hashes agg groups
  keys : ∀ key, key ∈ groups.map Prod.fst ↔ key ∈ rows.map hash
  summary : hashes.card ≤ 2^32 → ∀ key, Summary aggInt aggFloat (rows.filter fun row =>
    decide (hash row = key)) (groups.lookup key)

variable {hash aggInt aggFloat} {hashes : Finset UInt64}

theorem Ran.new : Ran hash aggInt aggFloat hashes [] .new [] := ⟨Represents.new,by simp,fun _ _ => rfl⟩

theorem represents_rows (rows : List Nat) (known : ∀ row ∈ rows, hash row ∈ hashes) {agg : MultiColumnHashAgg}
    {groups : List (UInt64 × AggregateState)} (represents : Represents hashes agg groups) :
    Represents hashes (rows.foldl (touchRow add hash aggInt aggFloat) agg)
      (rows.foldl (fun groups row => upsert (hash row) (fun state =>
        rowUpdate add aggInt aggFloat row (state.getD (.new row))) groups) groups) := by
  induction rows generalizing agg groups with
  | nil => exact represents
  | cons row rest ih =>
    refine ih (fun other member => known other (List.mem_cons_of_mem _ member)) ?_
    exact represents.touch (known row List.mem_cons_self) row (rowUpdate_first add aggInt aggFloat row)

theorem ran_rows (rows : List Nat) (known : ∀ row ∈ rows, hash row ∈ hashes) :
    ∃ groups, Ran hash aggInt aggFloat hashes rows (rows.foldl (touchRow add hash aggInt aggFloat) .new) groups := by
  refine ⟨_,represents_rows add rows known Represents.new,fun key => ?_,fun _ key => ?_⟩
  · rw [mem_keys_foldl hash]
    simp
  · rw [lookup_foldl hash fun row state => rowUpdate add aggInt aggFloat row (state.getD (.new row))]
    have nothing : Summary aggInt aggFloat [] none := rfl
    exact summary_foldl add _ nothing

theorem Ran.merge (order : MapOrder) {rows others : List Nat} {agg localAgg : MultiColumnHashAgg}
    {groups locals : List (UInt64 × AggregateState)} (ran : Ran hash aggInt aggFloat hashes rows agg groups)
    (part : Ran hash aggInt aggFloat hashes others localAgg locals) :
    ∃ merged, Ran hash aggInt aggFloat hashes (rows ++ others) (agg.mergePartition add order localAgg) merged := by
  obtain ⟨entries,represents,keys,perm⟩ := ran.represents.mergePartition add order part.represents
  refine ⟨_,represents,fun key => ?_,fun small key => ?_⟩
  · rw [mem_keys_foldl Prod.fst fun entry => Represents.absorb add entry.2,ran.keys,keys,part.keys,List.map_append,
      List.mem_append]
  · rw [lookup_foldl Prod.fst fun entry => Represents.absorb add entry.2,List.filter_append]
    have entry : (entries.filter fun entry => decide (entry.1 = key)) = (locals.lookup key).toList.map fun state =>
      (key,state) := by
      have perm := (perm small).filter fun entry => decide (entry.1 = key)
      rw [filter_eq_lookup key part.represents.distinct] at perm
      cases found : locals.lookup key with
      | none =>
        rw [found] at perm
        exact perm.eq_nil
      | some state =>
        rw [found] at perm
        exact perm.eq_singleton
    rw [entry,List.foldl_map]
    exact summary_absorb add (ran.summary small key) (part.summary small key)

theorem ran_partitions (order : MapOrder) (partitions : List (List Nat))
    (known : ∀ rows ∈ partitions, ∀ row ∈ rows, hash row ∈ hashes) {rows : List Nat} {agg : MultiColumnHashAgg}
    {groups : List (UInt64 × AggregateState)} (ran : Ran hash aggInt aggFloat hashes rows agg groups) :
    ∃ merged, Ran hash aggInt aggFloat hashes (rows ++ partitions.flatten)
      ((partitions.map fun rows => rows.foldl (touchRow add hash aggInt aggFloat) .new).foldl
        (MultiColumnHashAgg.mergePartition add order) agg) merged := by
  induction partitions generalizing rows agg groups with
  | nil => exact ⟨groups,by rwa [List.flatten_nil,List.append_nil]⟩
  | cons first rest ih =>
    have part : ∃ locals, Ran hash aggInt aggFloat hashes first (first.foldl (touchRow add hash aggInt aggFloat)
      .new) locals :=
      ran_rows add first (known first List.mem_cons_self)
    obtain ⟨locals,part⟩ := part
    obtain ⟨merged,both⟩ := ran.merge add order part
    rw [List.flatten_cons,← List.append_assoc]
    exact ih (fun rows member => known rows (List.mem_cons_of_mem _ member)) both

end Run

end ApexBase.Query.MultiColumn
