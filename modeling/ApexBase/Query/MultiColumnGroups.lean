import ApexBase.Query.MultiColumnExact
import Mathlib.Data.Fintype.Pigeonhole

/-! When the groups of `execute_multi_column_group_by` are those of the key tuples. -/
namespace ApexBase.Query.MultiColumn
open Library Library.Grouping

theorem pieces_flatMap (start end_ size count : Nat) :
    ((List.range count).flatMap fun piece => List.range' (start + size * piece)
      (min (start + size * piece + size) end_ - (start + size * piece))) =
      List.range' start (min (size * count) (end_ - start)) := by
  induction count with
  | zero => simp
  | succ count ih =>
    rw [List.range_succ,List.flatMap_append,ih,List.flatMap_singleton]
    rcases Nat.le_total (size * count) (end_ - start) with room | full
    · rw [Nat.min_eq_left room,List.range'_append_1]
      congr 1
      rw [Nat.mul_succ]
      omega
    · have nothing : min (start + size * count + size) end_ - (start + size * count) = 0 := by omega
      rw [nothing,Nat.min_eq_right full,List.range'_zero,List.append_nil,Nat.mul_succ]
      congr 1
      omega

section Run
variable (add : UInt64 → UInt64 → UInt64) (finish : List Write → UInt64) (cols : List TypedColumnRef)
  (aggInt : Option (List (Option Int64))) (aggFloat : Option (List (Option UInt64)))

private theorem update_id (agg : MultiColumnHashAgg) (groupId : UInt32) : agg.update groupId id = agg := by
  unfold MultiColumnHashAgg.update
  rw [List.modify_id]

theorem process_eq (agg : MultiColumnHashAgg) (start end_ : Nat) :
    processMultiColumnGroupBy add finish cols aggInt aggFloat (aggInt.isNone && aggFloat.isNone) agg start end_ =
      (List.range' start (end_ - start)).foldl (touchRow add (fromColumns finish cols) aggInt aggFloat) agg := by
  unfold processMultiColumnGroupBy
  cases aggInt with
  | some values =>
    rw [if_neg (by simp)]
    refine List.foldl_ext _ _ _ fun agg row _ => ?_
    cases found : values[row]?.join with
    | none =>
      have update : rowUpdate add (some values) aggFloat row = id := funext fun state => by simp [rowUpdate,found]
      rw [touchRow,update,update_id]
    | some value =>
      have update : rowUpdate add (some values) aggFloat row = .updateInt value :=
        funext fun state => by simp [rowUpdate,found]
      rw [touchRow,update]
  | none =>
    cases aggFloat with
    | none => rfl
    | some values =>
      rw [if_neg (by simp)]
      refine List.foldl_ext _ _ _ fun agg row _ => ?_
      cases found : values[row]?.join with
      | none =>
        have update : rowUpdate add none (some values) row = id := funext fun state => by simp [rowUpdate,found]
        rw [touchRow,update,update_id]
      | some value =>
        have update : rowUpdate add none (some values) row = .updateFloat add value :=
          funext fun state => by simp [rowUpdate,found]
        rw [touchRow,update]

theorem processChunks_eq (start end_ : Nat) :
    processChunks add finish cols aggInt aggFloat (aggInt.isNone && aggFloat.isNone) start end_ =
      (List.range' start (end_ - start)).foldl (touchRow add (fromColumns finish cols) aggInt aggFloat) .new := by
  have whole : end_ - start ≤ vectorSize * ((end_ - start + vectorSize - 1) / vectorSize) := by
    have positive : 0 < vectorSize := by decide
    have rest := Nat.mod_lt (end_ - start + vectorSize - 1) positive
    have parts := Nat.div_add_mod (end_ - start + vectorSize - 1) vectorSize
    omega
  have pieces := pieces_flatMap start end_ vectorSize ((end_ - start + vectorSize - 1) / vectorSize)
  rw [Nat.min_eq_right whole] at pieces
  unfold processChunks
  simp only [process_eq]
  rw [← pieces,List.foldl_flatMap]

end Run

def keyOf (cols : List TypedColumnRef) (row : Nat) : List (Option KeyValue) := cols.map (·.keyAt row)

/-- Rows are together in a group exactly if their key tuples are equal, every group has rows, and
says a first row and the numbers of these. -/
structure GroupsExactly (hash : Nat → UInt64) (cols : List TypedColumnRef) (aggInt : Option (List (Option Int64)))
    (aggFloat : Option (List (Option UInt64))) (numRows : Nat) (agg : MultiColumnHashAgg) : Prop where
  together : ∀ row < numRows, ∀ other < numRows,
    agg.hashTable.lookup (hash row) = agg.hashTable.lookup (hash other) ↔ keyOf cols row = keyOf cols other
  summarized : ∀ row < numRows, ∃ groupId state first, agg.hashTable.lookup (hash row) = some groupId ∧
    agg.states[groupId.toNat]? = some state ∧
    agg.firstRowIndices[groupId.toNat]? = some first ∧ first < numRows ∧ keyOf cols first = keyOf cols row ∧
    Summarizes aggInt aggFloat ((List.range numRows).filter fun other =>
      decide (keyOf cols other = keyOf cols row)) state
  inhabited : ∀ groupId < agg.states.length, ∃ row < numRows, (agg.hashTable.lookup (hash row)).map UInt32.toNat =
    some groupId

section Ran
variable {hash : Nat → UInt64} {cols : List TypedColumnRef} {aggInt : Option (List (Option Int64))}
    {aggFloat : Option (List (Option UInt64))}
  {numRows : Nat} {agg : MultiColumnHashAgg} {groups : List (UInt64 × AggregateState)}
  (ran : Ran hash aggInt aggFloat ((Finset.range numRows).image hash) (List.range numRows) agg groups)
include ran

theorem Ran.mem_keys {row : Nat} (less : row < numRows) : ∃ place state, groups[place]? = some (hash row,state) ∧
    agg.hashTable.lookup (hash row) = some (UInt32.ofNat place) := by
  have member : hash row ∈ groups.map Prod.fst := (ran.keys _).mpr (List.mem_map_of_mem (List.mem_range.mpr less))
  obtain ⟨entry,inside,named⟩ := List.mem_map.mp member
  obtain ⟨place,here⟩ := List.mem_iff_getElem?.mp inside
  have here : groups[place]? = some (hash row,entry.2) := by rw [here,← named]
  exact ⟨place,entry.2,here,ran.represents.lookup_table.mpr ⟨place,entry.2,here,rfl⟩⟩

theorem Ran.card_eq : groups.length = ((Finset.range numRows).image hash).card := by
  rw [← List.length_map Prod.fst,← List.toFinset_card_of_nodup ran.represents.distinct]
  congr 1
  ext key
  rw [List.mem_toFinset,ran.keys,Finset.mem_image,List.mem_map]
  simp

theorem Ran.lookup_inj (small : ((Finset.range numRows).image hash).card ≤ 2^32) {row other : Nat}
    (less : row < numRows) (below : other < numRows) :
    agg.hashTable.lookup (hash row) = agg.hashTable.lookup (hash other) ↔ hash row = hash other := by
  constructor
  · intro same
    obtain ⟨place,state,here,found⟩ := ran.mem_keys less
    obtain ⟨second,otherState,there,known⟩ := ran.mem_keys below
    have most := ran.card_eq
    have first : place < groups.length := (List.getElem?_eq_some_iff.mp here).1
    have last : second < groups.length := (List.getElem?_eq_some_iff.mp there).1
    rw [found,known] at same
    have ids := congrArg UInt32.toNat (Option.some.inj same)
    rw [UInt32.toNat_ofNat',UInt32.toNat_ofNat',Nat.mod_eq_of_lt (by omega),Nat.mod_eq_of_lt (by omega)] at ids
    rw [ids,there] at here
    exact (Prod.mk.inj (Option.some.inj here)).1.symm
  · intro same
    rw [same]

theorem Ran.exact_iff :
    GroupsExactly hash cols aggInt aggFloat numRows agg ↔
      (∀ row < numRows, ∀ other < numRows, hash row = hash other ↔ keyOf cols row = keyOf cols other) ∧
        ((Finset.range numRows).image hash).card ≤ 2^32 := by
  constructor
  · intro exact_
    have small : ((Finset.range numRows).image hash).card ≤ 2^32 := by
      by_contra large
      have some_ : 2^32 < agg.states.length := by
        rw [ran.represents.states,ran.card_eq]
        omega
      obtain ⟨row,_,found⟩ := exact_.inhabited (2^32) some_
      obtain ⟨groupId,_,same⟩ := Option.map_eq_some_iff.mp found
      have less := groupId.toNat_lt
      omega
    refine ⟨fun row less other below => ?_,small⟩
    rw [← ran.lookup_inj small less below]
    exact exact_.together row less other below
  · rintro ⟨apart,small⟩
    refine ⟨fun row less other below => ?_,fun row less => ?_,fun groupId less => ?_⟩
    · rw [ran.lookup_inj small less below]
      exact apart row less other below
    · obtain ⟨place,state,here,found⟩ := ran.mem_keys less
      obtain ⟨states,firsts⟩ := ran.represents.at_entry small here
      have rows : (List.range numRows).filter (fun other => decide (hash other = hash row)) =
          (List.range numRows).filter fun other => decide (keyOf cols other = keyOf cols row) :=
        List.filter_congr fun other member => decide_eq_decide.mpr (apart other (List.mem_range.mp member) row less)
      have summary := ran.summary small (hash row)
      rw [(lookup_eq_some ran.represents.distinct).mpr (List.mem_of_getElem? here),rows] at summary
      have first : state.firstRowIdx ∈ (List.range numRows).filter fun other =>
        decide (keyOf cols other = keyOf cols row) :=
        List.mem_of_mem_head? summary.first
      obtain ⟨below,same⟩ := List.mem_filter.mp first
      exact ⟨_,state,_,found,states,firsts,List.mem_range.mp below,of_decide_eq_true same,summary⟩
    · rw [ran.represents.states] at less
      have here := List.getElem?_eq_getElem less
      generalize groups[groupId] = entry at here
      have member : entry.1 ∈ groups.map Prod.fst := List.mem_map_of_mem (List.mem_of_getElem? here)
      obtain ⟨row,below,named⟩ := List.mem_map.mp ((ran.keys entry.1).mp member)
      have here : groups[groupId]? = some (hash row,entry.2) := by rw [here,named]
      refine ⟨row,List.mem_range.mp below,?_⟩
      rw [ran.represents.lookup_table.mpr ⟨groupId,entry.2,here,rfl⟩,Option.map_some,UInt32.toNat_ofNat',
        Nat.mod_eq_of_lt]
      have most := ran.card_eq
      omega

end Ran

section Execute
variable (add : UInt64 → UInt64 → UInt64) (finish : List Write → UInt64) (order : MapOrder) (threads : Nat)
    (batch : RecordBatch)
  (groupColNames : List String) (aggColName : Option String)

theorem ran_execute {cols : List TypedColumnRef} (typed : groupColNames.mapM (typedColumn batch) = .ok cols) :
    ∃ agg groups, executeMultiColumnGroupBy add finish order threads batch groupColNames aggColName = .ok agg ∧
      Ran (fromColumns finish cols) (aggColName.bind (aggColInt batch)) (aggColName.bind (aggColFloat batch))
        ((Finset.range batch.numRows).image (fromColumns finish cols)) (List.range batch.numRows) agg groups := by
  have known : ∀ row ∈ List.range batch.numRows, fromColumns finish cols row ∈
    (Finset.range batch.numRows).image (fromColumns finish cols) :=
    fun row member => Finset.mem_image_of_mem _ (Finset.mem_range.mpr (List.mem_range.mp member))
  generalize hashes_ : (Finset.range batch.numRows).image (fromColumns finish cols) = hashes at known ⊢
  unfold executeMultiColumnGroupBy
  rw [typed]
  simp only [bind,Except.bind,processChunks_eq]
  split
  · generalize parts_ : max threads 4 = parts
    generalize size_ : (batch.numRows + parts - 1) / parts = size
    have positive : 0 < parts := by omega
    have whole : batch.numRows ≤ size * parts := by
      have rest := Nat.mod_lt (batch.numRows + parts - 1) positive
      have division := Nat.div_add_mod (batch.numRows + parts - 1) parts
      rw [size_,Nat.mul_comm] at division
      omega
    have pieces := pieces_flatMap 0 batch.numRows size parts
    rw [Nat.sub_zero,Nat.min_eq_right whole,← List.range_eq_range'] at pieces
    have each : ∀ p, List.range' (p * size) (min ((p + 1) * size) batch.numRows - p * size) =
        List.range' (0 + size * p) (min (0 + size * p + size) batch.numRows - (0 + size * p)) := by
      intro p
      rw [Nat.zero_add,Nat.succ_mul,Nat.mul_comm p size]
    simp only [each]
    rw [List.flatMap_def] at pieces
    have nothing : Ran (fromColumns finish cols) (aggColName.bind (aggColInt batch))
      (aggColName.bind (aggColFloat batch)) hashes [] .new [] := Ran.new
    obtain ⟨merged,ran⟩ := ran_partitions add order ((List.range parts).map fun p =>
      List.range' (0 + size * p) (min (0 + size * p + size) batch.numRows - (0 + size * p)))
        (fun rows member row inside => known row (by
        rw [← pieces]
        exact List.mem_flatten.mpr ⟨rows,member,inside⟩)) nothing
    rw [List.nil_append,pieces,List.map_map] at ran
    exact ⟨_,merged,rfl,ran⟩
  · rw [Nat.sub_zero,← List.range_eq_range']
    obtain ⟨groups,ran⟩ := ran_rows add (List.range batch.numRows) known
    exact ⟨_,groups,rfl,ran⟩

def ExactOn (cols : List TypedColumnRef) : Prop :=
  ∃ agg, executeMultiColumnGroupBy add finish order threads batch groupColNames aggColName = .ok agg ∧
    GroupsExactly (fromColumns finish cols) cols (aggColName.bind (aggColInt batch))
      (aggColName.bind (aggColFloat batch)) batch.numRows agg

/-- Rows have one hash exactly if they have one key tuple, and there are no more hashes than ids. -/
def HashesApart (numRows : Nat) (cols : List TypedColumnRef) : Prop :=
  (∀ row < numRows, ∀ other < numRows, fromColumns finish cols row = fromColumns finish cols other ↔
    keyOf cols row = keyOf cols other) ∧
    ((Finset.range numRows).image (fromColumns finish cols)).card ≤ 2^32

theorem exactOn_iff {cols : List TypedColumnRef} (typed : groupColNames.mapM (typedColumn batch) = .ok cols) :
    ExactOn add finish order threads batch groupColNames aggColName cols ↔ HashesApart finish batch.numRows cols := by
  obtain ⟨agg,groups,executed,ran⟩ := ran_execute add finish order threads batch groupColNames aggColName typed
  unfold ExactOn
  rw [executed]
  constructor
  · rintro ⟨other,same,exact_⟩
    obtain rfl := Except.ok.inj same
    exact ran.exact_iff.mp exact_
  · exact fun apart => ⟨agg,rfl,ran.exact_iff.mpr apart⟩

/-- Grouping by columns of the types that it knows is exact as long as the 64-bit hashes tell the
key tuples of the batch apart. -/
theorem executeMultiColumnGroupBy_exact_iff :
    (∀ cols, groupColNames.mapM (typedColumn batch) = .ok cols →
      ExactOn add finish order threads batch groupColNames aggColName cols) ↔
      ∀ cols, groupColNames.mapM (typedColumn batch) = .ok cols → HashesApart finish batch.numRows cols :=
  forall₂_congr fun _ typed => exactOn_iff add finish order threads batch groupColNames aggColName typed

end Execute

def twoTexts (first second : String) : RecordBatch :=
  ⟨2,[("c",.typed (.string [some first,some second]))],by simp [ArrayRef.length,TypedColumnRef.length]⟩

def nullValue : RecordBatch :=
  ⟨2,[("c",.typed (.dictString [some 0,some 1] [(false,""),(true,"")]))],
    by simp [ArrayRef.length,TypedColumnRef.length]⟩

private theorem infinite_texts (f : String → UInt64) : ∃ first second, first ≠ second ∧ f first = f second := by
  have finite : Finite UInt64 := Finite.of_injective UInt64.toFin fun _ _ same => UInt64.toFin_inj.mp same
  obtain ⟨m,n,different,same⟩ := Finite.exists_ne_map_eq_of_infinite fun n : Nat =>
    f (String.ofList (List.replicate n 'a'))
  refine ⟨_,_,fun equal => different ?_,same⟩
  have lengths := congrArg List.length (String.ofList_injective equal)
  rwa [List.length_replicate,List.length_replicate] at lengths

/-- No hash function makes the grouping exact: a NULL of a dictionary's values hashes like the empty
text, and some two texts hash alike. -/
theorem no_hash_exact :
    (¬ ∃ add finish order threads, ExactOn add finish order threads nullValue ["c"] none
      [.dictString [some 0,some 1] [(false,""),(true,"")]]) ∧
    ¬ ∃ add finish order threads, ∀ first second,
      ExactOn add finish order threads (twoTexts first second) ["c"] none [.string [some first,some second]] := by
  constructor
  · rintro ⟨add,finish,order,threads,exact_⟩
    obtain ⟨apart,_⟩ := (exactOn_iff add finish order threads nullValue ["c"] none rfl).mp exact_
    have keys := (apart 0 (by decide) 1 (by decide)).mp rfl
    exact absurd keys (by decide)
  · rintro ⟨add,finish,order,threads,exact_⟩
    obtain ⟨first,second,different,same⟩ := infinite_texts fun text => finish [.bytes (Wire.utf8 text)]
    obtain ⟨apart,_⟩ := (exactOn_iff add finish order threads (twoTexts first second) ["c"] none rfl).mp
      (exact_ first second)
    have keys := (apart 0 Nat.two_pos 1 Nat.one_lt_two).mp same
    simp [keyOf,TypedColumnRef.keyAt] at keys
    exact different keys

end ApexBase.Query.MultiColumn
