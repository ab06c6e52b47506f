import ApexBase.Storage.DeltaFile

/-! The columns of appended rows. Each batch of the `.delta` file has columns of its
own; a read joins the values of one name end to end. -/
namespace ApexBase.Storage.DeltaFile
open Data Library.Assoc Library.Wire

def scalars (column : ColumnData) : List Scalar := (List.range column.length).map column.value

def cellAt (columns : Map String ColumnData) (name : String) (position : Nat) : Option Scalar :=
  (columns.lookup name).bind fun column => (scalars column)[position]?

/-- The batch that holds a position of the file, and the row in it. -/
def locate : List TypedBatch → Nat → Option (TypedBatch × Nat)
  | [],_ => none
  | batch :: rest,position =>
    if position < batch.ids.length then some (batch,position) else locate rest (position - batch.ids.length)

def TypedBatch.Wrote (batch : TypedBatch) (name : String) (column : ColumnData) :
    Prop := (name,column) ∈ batch.delta.columns

def TypedBatch.Carries (batch : TypedBatch) (name : String) : Prop := ∃ column, batch.Wrote name column

/-- What was read holds, at every position, the values that the batch of the position wrote there,
and no others. -/
def KeepsColumns (batches : List TypedBatch) (ids : List UInt64) (columns : Map String ColumnData) : Prop :=
  ids = batches.flatMap TypedBatch.ids ∧
  ∀ position batch row, locate batches position = some (batch,row) → ∀ name,
    (¬ batch.Carries name → cellAt columns name position = none) ∧
    ∀ column, batch.Wrote name column → cellAt columns name position = (scalars column)[row]?

def ReadsColumns (batches : List TypedBatch) : Prop :=
  ∃ data, readDeltaData (written batches) = .ok data ∧ KeepsColumns batches (data.getD ([],∅)).1 (data.getD ([],∅)).2

/-- Every name is written with one type, and by no batch with rows after one without it. -/
structure Uniform (batches : List TypedBatch) : Prop where
  oneType : ∀ batch ∈ batches, ∀ other ∈ batches, ∀ name column second, batch.Wrote name column →
    other.Wrote name second →
    column.kind = second.kind
  noGaps : batches.Pairwise fun earlier later => ∀ name, later.Carries name → earlier.Carries name

section Join

variable {columns : List (String × ColumnData)} {known : Map String ColumnData}

def Plain (column : ColumnData) : Prop := column.kind ∈ [.int64,.float64,.string,.bool]

private theorem length_scalars (column : ColumnData) : (scalars column).length = column.length := by
  rw [scalars,List.length_map,List.length_range]

private theorem scalars_eq {V : Type} {column : ColumnData} (values : List V) (f : V → Scalar)
    (length : column.length = values.length)
    (each : ∀ index (inside : index < values.length), column.value index = f values[index]) :
    scalars column = values.map f := by
  apply List.ext_getElem
  · rw [length_scalars,length,List.length_map]
  · intro index _ inside
    rw [List.length_map] at inside
    simp only [scalars,List.getElem_map,List.getElem_range]
    exact each index inside

private theorem scalars_int (values : List Int64) : scalars (.int64 values) = values.map .int64 :=
  scalars_eq values _ rfl fun index inside => by simp [ColumnData.value,List.getElem?_eq_getElem inside]

private theorem scalars_float (values : List UInt64) : scalars (.float64 values) = values.map .float64 :=
  scalars_eq values _ rfl fun index inside => by simp [ColumnData.value,List.getElem?_eq_getElem inside]

private theorem scalars_string (values : List String) : scalars (.string values) = values.map .utf8 :=
  scalars_eq values _ rfl fun index inside => by simp [ColumnData.value,List.getElem?_eq_getElem inside]

private theorem scalars_bool (values : List Bool) : scalars (.bool values) = values.map .bool :=
  scalars_eq values _ rfl fun index inside => by simp [ColumnData.value,List.getElem?_eq_getElem inside]

private theorem append_same {column more : ColumnData} (plain : Plain column) (same : more.kind = column.kind) :
    (column.append more).kind = column.kind ∧ scalars (column.append more) = scalars column ++ scalars more := by
  cases column with
  | int64 values =>
    cases more with
    | int64 rest => exact ⟨rfl,by simp only [ColumnData.append,scalars_int,List.map_append]⟩
    | _ => cases same
  | float64 values =>
    cases more with
    | float64 rest => exact ⟨rfl,by simp only [ColumnData.append,scalars_float,List.map_append]⟩
    | _ => cases same
  | string values =>
    cases more with
    | string rest => exact ⟨rfl,by simp only [ColumnData.append,scalars_string,List.map_append]⟩
    | _ => cases same
  | bool values =>
    cases more with
    | bool rest => exact ⟨rfl,by simp only [ColumnData.append,scalars_bool,List.map_append]⟩
    | _ => cases same
  | binary | stringDict | vectors => exact absurd plain (by simp [Plain,ColumnData.kind])

private theorem append_other {column more : ColumnData} (other : more.kind ≠ column.kind) :
    column.append more = column := by
  cases column <;> cases more <;> first | rfl | exact absurd rfl other

private theorem emptied_plain {column : ColumnData} (plain : Plain column) :
    (DeltaBatch.emptied column).kind = column.kind ∧ scalars (DeltaBatch.emptied column) = [] := by
  cases column <;> first | exact ⟨rfl,rfl⟩ | exact absurd plain (by simp [Plain,ColumnData.kind])

def named (name : String) (kind : Kind) (columns : List (String × ColumnData)) : List Scalar :=
  (columns.filter fun column => decide (column.1 = name ∧ column.2.kind = kind)).flatMap fun column => scalars column.2

private theorem named_cons (name : String) (kind : Kind) (column : String × ColumnData)
    (rest : List (String × ColumnData)) :
    named name kind (column :: rest) =
      (if column.1 = name ∧ column.2.kind = kind then scalars column.2 else []) ++ named name kind rest := by
  unfold named
  rw [List.filter_cons]
  by_cases here : column.1 = name ∧ column.2.kind = kind
  · simp [here]
  · simp [here]

private theorem lookup_absorb (known : Map String ColumnData) (column : String × ColumnData) (name : String) :
    (DeltaBatch.absorb known column).lookup name =
      if name = column.1 then some (((known.lookup name).getD (DeltaBatch.emptied column.2)).append column.2)
      else known.lookup name := by
  rw [DeltaBatch.absorb,lookup_insert_eq]
  split
  · rename_i same
    rw [same]
  · rfl

private theorem absorbed_known (columns : List (String × ColumnData)) {name : String} {column : ColumnData}
    (plain : Plain column) (found : known.lookup name = some column) :
    ∃ joined, (columns.foldl DeltaBatch.absorb known).lookup name = some joined ∧ joined.kind = column.kind ∧
      scalars joined = scalars column ++ named name column.kind columns := by
  induction columns generalizing known column with
  | nil => exact ⟨column,found,rfl,(List.append_nil _).symm⟩
  | cons first rest ih =>
    rw [List.foldl_cons,named_cons]
    have step := lookup_absorb known first name
    by_cases here : name = first.1
    · rw [if_pos here,found,Option.getD_some] at step
      by_cases same : first.2.kind = column.kind
      · obtain ⟨kind,values⟩ := append_same plain same
        have still : Plain (column.append first.2) := by rw [Plain,kind]; exact plain
        obtain ⟨joined,there,joinedKind,joinedValues⟩ := ih still step
        refine ⟨joined,there,joinedKind.trans kind,?_⟩
        rw [joinedValues,values,kind,if_pos ⟨here.symm,same⟩,List.append_assoc]
      · rw [append_other same] at step
        obtain ⟨joined,there,joinedKind,joinedValues⟩ := ih plain step
        refine ⟨joined,there,joinedKind,?_⟩
        rw [joinedValues,if_neg (fun both => same both.2),List.nil_append]
    · rw [if_neg here,found] at step
      obtain ⟨joined,there,joinedKind,joinedValues⟩ := ih plain step
      refine ⟨joined,there,joinedKind,?_⟩
      rw [joinedValues,if_neg (fun both => here both.1.symm),List.nil_append]

private theorem absorbed_new {name : String} (plain : ∀ column ∈ columns, Plain column.2)
    (missing : known.lookup name = none) :
    ((∀ column ∈ columns, column.1 ≠ name) → (columns.foldl DeltaBatch.absorb known).lookup name = none) ∧
    ∀ column ∈ columns, column.1 = name → ∃ first ∈ columns, first.1 = name ∧ ∃ joined,
      (columns.foldl DeltaBatch.absorb known).lookup name = some joined ∧ joined.kind = first.2.kind ∧
        scalars joined = named name first.2.kind columns := by
  induction columns generalizing known with
  | nil => exact ⟨fun _ => missing,fun column member => nomatch member⟩
  | cons first rest ih =>
    have step := lookup_absorb known first name
    obtain ⟨firstPlain,others⟩ := List.forall_mem_cons.mp plain
    by_cases here : name = first.1
    · rw [if_pos here,missing,Option.getD_none] at step
      obtain ⟨emptyKind,emptyValues⟩ := emptied_plain firstPlain
      have emptyPlain : Plain (DeltaBatch.emptied first.2) := by rw [Plain,emptyKind]; exact firstPlain
      obtain ⟨kind,values⟩ := append_same emptyPlain emptyKind.symm
      have still : Plain ((DeltaBatch.emptied first.2).append first.2) := by rw [Plain,kind]; exact emptyPlain
      obtain ⟨joined,there,joinedKind,joinedValues⟩ := absorbed_known rest still step
      refine ⟨fun absent => absurd here.symm (absent first List.mem_cons_self),fun _ _ _ => ?_⟩
      refine ⟨first,List.mem_cons_self,here.symm,joined,there,joinedKind.trans (kind.trans emptyKind),?_⟩
      rw [joinedValues,values,emptyValues,List.nil_append,kind,emptyKind,named_cons,if_pos ⟨here.symm,rfl⟩]
    · rw [if_neg here,missing] at step
      obtain ⟨absentAfter,presentAfter⟩ := ih others step
      refine ⟨fun absent => absentAfter fun column member => absent column (List.mem_cons_of_mem _ member),?_⟩
      intro column member same
      rcases List.mem_cons.mp member with rfl | later
      · exact absurd same.symm here
      · obtain ⟨source,inside,sourceName,joined,there,joinedKind,joinedValues⟩ := presentAfter column later same
        refine ⟨source,List.mem_cons_of_mem _ inside,sourceName,joined,there,joinedKind,?_⟩
        rw [joinedValues,named_cons,if_neg (fun both => here both.1.symm),List.nil_append]

private theorem named_append (name : String) (kind : Kind) (first second : List (String × ColumnData)) :
    named name kind (first ++ second) = named name kind first ++ named name kind second := by
  unfold named
  rw [List.filter_append,List.flatMap_append]

private theorem named_flatMap {A : Type} (name : String) (kind : Kind) (f : A → List (String × ColumnData))
    (items : List A) :
    named name kind (items.flatMap f) = items.flatMap fun item => named name kind (f item) := by
  induction items with
  | nil => rfl
  | cons item rest ih => rw [List.flatMap_cons,named_append,ih,List.flatMap_cons]

def scalarKind : Scalar → Option Kind
  | .int64 _ => some .int64
  | .float64 _ => some .float64
  | .utf8 _ => some .string
  | .bool _ => some .bool
  | _ => none

private theorem scalarKind_of_mem {column : ColumnData} (plain : Plain column) {value : Scalar}
    (member : value ∈ scalars column) :
    scalarKind value = some column.kind := by
  cases column with
  | int64 values =>
    rw [scalars_int] at member
    obtain ⟨_,_,rfl⟩ := List.mem_map.mp member
    rfl
  | float64 values =>
    rw [scalars_float] at member
    obtain ⟨_,_,rfl⟩ := List.mem_map.mp member
    rfl
  | string values =>
    rw [scalars_string] at member
    obtain ⟨_,_,rfl⟩ := List.mem_map.mp member
    rfl
  | bool values =>
    rw [scalars_bool] at member
    obtain ⟨_,_,rfl⟩ := List.mem_map.mp member
    rfl
  | binary | stringDict | vectors => exact absurd plain (by simp [Plain,ColumnData.kind])

end Join

section Batch

variable {batch : TypedBatch} {name : String} {column : ColumnData}

private theorem named_entries {V : Type} (wrap : List V → ColumnData) {kind : Kind}
    (same : ∀ values, (wrap values).kind = kind) (columns : Map String (List V)) (name : String) :
    named name kind (columns.entries.map fun e => (e.1,wrap e.2)) =
    ((columns.lookup name).map fun values => scalars (wrap values)).getD [] := by
  rcases columns with ⟨entries,unique⟩
  simp only [AList.lookup]
  induction entries with
  | nil => rfl
  | cons e rest ih =>
    obtain ⟨absent,unique⟩ := List.nodupKeys_cons.mp unique
    rw [List.map_cons,named_cons,ih unique]
    by_cases here : e.1 = name
    · subst here
      have gone : rest.dlookup e.1 = none := List.dlookup_eq_none.mpr absent
      rw [if_pos ⟨rfl,same e.2⟩,gone]
      rw [List.dlookup_cons_eq]
      exact List.append_nil _
    · rw [if_neg (fun both => here both.1),List.nil_append]
      rcases e with ⟨key,values⟩
      rw [List.dlookup_cons_ne _ _ (fun back => here back.symm)]

private theorem named_section {V : Type} (wrap : List V → ColumnData) (own kind : Kind)
    (same : ∀ values, (wrap values).kind = own) (columns : Map String (List V))
    (name : String) : named name kind (columns.entries.map fun e => (e.1,wrap e.2)) =
      if own = kind then ((columns.lookup name).map fun values => scalars (wrap values)).getD [] else [] := by
  split
  · rename_i here
    exact named_entries wrap (fun values => (same values).trans here) columns name
  · rename_i other
    unfold named
    rw [List.flatMap_eq_nil_iff]
    intro found member
    obtain ⟨inside,kept⟩ := List.mem_filter.mp member
    obtain ⟨e,_,rfl⟩ := List.mem_map.mp inside
    exact absurd ((same e.2).symm.trans (of_decide_eq_true kept).2) other

private theorem columns_eq : batch.delta.columns =
    batch.intColumns.entries.map (fun e => (e.1,ColumnData.int64 e.2)) ++
    batch.floatColumns.entries.map (fun e => (e.1,ColumnData.float64 e.2)) ++
    batch.stringColumns.entries.map (fun e => (e.1,ColumnData.string e.2)) ++
    batch.boolColumns.entries.map (fun e => (e.1,ColumnData.bool e.2)) := by
  simp only [DeltaBatch.columns,TypedBatch.delta,List.map_map]
  rfl

section
variable (wrote : batch.Wrote name column)
include wrote

private theorem wrote_cases :
    (∃ values, column = .int64 values ∧ batch.intColumns.lookup name = some values) ∨
    (∃ values, column = .float64 values ∧ batch.floatColumns.lookup name = some values) ∨
    (∃ values, column = .string values ∧ batch.stringColumns.lookup name = some values) ∨
    ∃ values, column = .bool values ∧ batch.boolColumns.lookup name = some values := by
  rw [TypedBatch.Wrote,columns_eq] at wrote
  have entry {V : Type} {wrap : List V → ColumnData} {columns : Map String (List V)}
      (member : (name,column) ∈ columns.entries.map fun e => (e.1,wrap e.2)) :
      ∃ values, column = wrap values ∧ columns.lookup name = some values := by
    obtain ⟨e,inside,same⟩ := List.mem_map.mp member
    cases same
    exact ⟨e.2,rfl,AList.mem_lookup_iff.mpr inside⟩
  rcases List.mem_append.mp wrote with wrote | bools
  · rcases List.mem_append.mp wrote with wrote | strings
    · rcases List.mem_append.mp wrote with ints | floats
      · exact Or.inl (entry ints)
      · exact Or.inr (Or.inl (entry floats))
    · exact Or.inr (Or.inr (Or.inl (entry strings)))
  · exact Or.inr (Or.inr (Or.inr (entry bools)))

private theorem wrote_plain : Plain column := by
  rcases wrote_cases wrote with ⟨_,rfl,_⟩ | ⟨_,rfl,_⟩ | ⟨_,rfl,_⟩ | ⟨_,rfl,_⟩ <;> simp [Plain,ColumnData.kind]

private theorem wrote_length : (scalars column).length = batch.ids.length := by
  rw [length_scalars]
  rcases wrote_cases wrote with ⟨_,rfl,found⟩ | ⟨_,rfl,found⟩ | ⟨_,rfl,found⟩ | ⟨_,rfl,found⟩
  · exact batch.intsSized _ (AList.mem_lookup_iff.mp found)
  · exact batch.floatsSized _ (AList.mem_lookup_iff.mp found)
  · exact batch.stringsSized _ (AList.mem_lookup_iff.mp found)
  · exact batch.boolsSized _ (AList.mem_lookup_iff.mp found)

private theorem named_wrote : named name column.kind batch.delta.columns = scalars column := by
  rw [columns_eq,named_append,named_append,named_append,named_section .int64 .int64 _ fun _ => rfl,
    named_section .float64 .float64 _ fun _ => rfl,named_section .string .string _ fun _ => rfl,
    named_section .bool .bool _ fun _ => rfl]
  rcases wrote_cases wrote with ⟨_,rfl,found⟩ | ⟨_,rfl,found⟩ | ⟨_,rfl,found⟩ | ⟨_,rfl,found⟩ <;>
    simp [ColumnData.kind,found]

end

private theorem named_unwritten {kind : Kind} (none : ∀ column, batch.Wrote name column → column.kind ≠ kind) :
    named name kind batch.delta.columns = [] := by
  unfold named
  rw [List.flatMap_eq_nil_iff]
  intro found member
  obtain ⟨inside,kept⟩ := List.mem_filter.mp member
  obtain ⟨rfl,same⟩ := of_decide_eq_true kept
  exact absurd same (none found.2 inside)

private theorem length_named_le (kind : Kind) : (named name kind batch.delta.columns).length ≤ batch.ids.length := by
  by_cases written : ∃ column, batch.Wrote name column ∧ column.kind = kind
  · obtain ⟨column,wrote,rfl⟩ := written
    rw [named_wrote wrote,wrote_length wrote]
  · rw [named_unwritten fun column wrote same => written ⟨column,wrote,same⟩]
    exact Nat.zero_le _

end Batch

/-! Positions. -/

def rowsOf (batches : List TypedBatch) : Nat := (batches.map fun batch => batch.ids.length).sum

variable {batches : List TypedBatch} {name : String}

private theorem rowsOf_append (first second : List TypedBatch) :
    rowsOf (first ++ second) = rowsOf first + rowsOf second := by
  rw [rowsOf,List.map_append,List.sum_append]
  rfl

private theorem rowsOf_cons (batch : TypedBatch) (rest : List TypedBatch) :
    rowsOf (batch :: rest) = batch.ids.length + rowsOf rest := by
  rw [rowsOf,List.map_cons,List.sum_cons]
  rfl

private theorem locate_split {position row : Nat} {batch : TypedBatch}
    (found : locate batches position = some (batch,row)) :
    ∃ earlier later, batches = earlier ++ batch :: later ∧ position = rowsOf earlier + row ∧
    row < batch.ids.length := by
  induction batches generalizing position with
  | nil => cases found
  | cons first rest ih =>
    rw [locate] at found
    split at found
    · rename_i inside
      cases found
      exact ⟨[],rest,rfl,(Nat.zero_add _).symm,inside⟩
    · obtain ⟨earlier,later,rfl,place,inside⟩ := ih found
      refine ⟨first :: earlier,later,rfl,?_,inside⟩
      rw [rowsOf_cons]
      omega

private theorem locate_at (earlier later : List TypedBatch) (batch : TypedBatch) {row : Nat}
    (inside : row < batch.ids.length) :
    locate (earlier ++ batch :: later) (rowsOf earlier + row) = some (batch,row) := by
  induction earlier with
  | nil =>
    change locate (batch :: later) (0 + row) = _
    rw [locate,Nat.zero_add,if_pos inside]
  | cons first rest ih =>
    rw [List.cons_append,locate,rowsOf_cons,if_neg (by omega)]
    have shorter : first.ids.length + rowsOf rest + row - first.ids.length = rowsOf rest + row := by omega
    rw [shorter,ih]

private theorem locate_stored (batches : List TypedBatch) (position : Nat) :
    locate (stored batches) position = locate batches position := by
  induction batches generalizing position with
  | nil => rfl
  | cons batch rest ih =>
    unfold stored at ih ⊢
    rw [List.filter_cons]
    by_cases empty : batch.ids = []
    · rw [if_neg (by simp [empty]),ih,locate,if_neg (by simp [empty])]
      simp [empty]
    · rw [if_pos (by simp [empty]),locate,locate]
      split
      · rfl
      · exact ih _

private theorem ids_stored (batches : List TypedBatch) :
    (stored batches).flatMap TypedBatch.ids = batches.flatMap TypedBatch.ids := by
  induction batches with
  | nil => rfl
  | cons batch rest ih =>
    unfold stored at ih ⊢
    rw [List.filter_cons,List.flatMap_cons]
    by_cases empty : batch.ids = []
    · rw [if_neg (by simp [empty]),ih,empty,List.nil_append]
    · rw [if_pos (by simp [empty]),List.flatMap_cons,ih]

/-! The join over all batches. -/

def joinedColumns (batches : List TypedBatch) : Map String ColumnData :=
  (batches.flatMap fun batch => batch.delta.columns).foldl DeltaBatch.absorb ∅

private theorem readDeltaData_joined (batches : List TypedBatch) :
    DeltaBatch.readDeltaData (batches.map TypedBatch.delta) = (batches.flatMap TypedBatch.ids,
      joinedColumns batches) := by
  rw [DeltaBatch.readDeltaData,joinedColumns,List.foldl_flatMap,List.foldl_map,List.flatMap_map]
  rfl

def pieces (name : String) (kind : Kind) (batches : List TypedBatch) : List Scalar :=
  batches.flatMap fun batch => named name kind batch.delta.columns

private theorem length_pieces_le (name : String) (kind : Kind) (batches : List TypedBatch) :
    (pieces name kind batches).length ≤ rowsOf batches := by
  induction batches with
  | nil => exact le_rfl
  | cons batch rest ih =>
    have first : (named name kind batch.delta.columns).length ≤ batch.ids.length := length_named_le kind
    rw [pieces] at ih
    rw [pieces,List.flatMap_cons,List.length_append,rowsOf_cons]
    omega

private theorem length_pieces {kind : Kind}
    (all : ∀ batch ∈ batches, ∃ column, batch.Wrote name column ∧ column.kind = kind) :
    (pieces name kind batches).length = rowsOf batches := by
  induction batches with
  | nil => rfl
  | cons batch rest ih =>
    obtain ⟨⟨column,wrote,same⟩,others⟩ := List.forall_mem_cons.mp all
    have tail := ih others
    rw [pieces] at tail
    rw [pieces,List.flatMap_cons,List.length_append,rowsOf_cons,tail,← same,named_wrote wrote,wrote_length wrote]

private theorem columns_plain (batches : List TypedBatch) :
    ∀ column ∈ batches.flatMap (fun batch => batch.delta.columns), Plain column.2 := by
  intro column member
  obtain ⟨batch,_,inside⟩ := List.mem_flatMap.mp member
  have wrote : batch.Wrote column.1 column.2 := inside
  exact wrote_plain wrote

private theorem joined_missing (none : ∀ batch ∈ batches, ¬ batch.Carries name) :
    (joinedColumns batches).lookup name = Option.none := by
  refine (absorbed_new (columns_plain batches) (AList.lookup_empty name)).1 ?_
  rintro column member rfl
  obtain ⟨batch,there,inside⟩ := List.mem_flatMap.mp member
  exact none batch there ⟨column.2,inside⟩

private theorem joined_present {batch : TypedBatch} {column : ColumnData} (there : batch ∈ batches)
    (wrote : batch.Wrote name column) :
    ∃ source ∈ batches, ∃ first, source.Wrote name first ∧ ∃ joined, (joinedColumns batches).lookup name = some joined ∧
      joined.kind = first.kind ∧ scalars joined = pieces name first.kind batches := by
  obtain ⟨first,member,rfl,joined,found,kind,values⟩ :=
    (absorbed_new (columns_plain batches) (AList.lookup_empty name)).2 (name,column)
    (List.mem_flatMap.mpr ⟨batch,there,wrote⟩) rfl
  obtain ⟨source,inside,firstWrote⟩ := List.mem_flatMap.mp member
  exact ⟨source,inside,first.2,firstWrote,joined,found,kind,values.trans (named_flatMap _ _ _ _)⟩

private theorem pieces_append (kind : Kind) (first second : List TypedBatch) :
    pieces name kind (first ++ second) = pieces name kind first ++ pieces name kind second := List.flatMap_append

private theorem pieces_none {kind : Kind} (none : ∀ batch ∈ batches, ¬ batch.Carries name) :
    pieces name kind batches = [] := by
  rw [pieces,List.flatMap_eq_nil_iff]
  intro batch member
  exact named_unwritten fun column wrote _ => none batch member ⟨column,wrote⟩

/-- Enough: under one type and without gaps a name's values stand at their positions. -/
private theorem keeps_of_uniform (uniform : Uniform batches) :
    KeepsColumns batches (batches.flatMap TypedBatch.ids) (joinedColumns batches) := by
  refine ⟨rfl,?_⟩
  intro position batch row found name
  obtain ⟨earlier,later,rfl,rfl,inside⟩ := locate_split found
  have here : batch ∈ earlier ++ batch :: later := List.mem_append_right _ List.mem_cons_self
  obtain ⟨_,after,before⟩ := List.pairwise_append.mp uniform.noGaps
  constructor
  · intro absent
    -- No later batch has the name, so the column ends before this one.
    have rest : ∀ other ∈ batch :: later, ¬ other.Carries name := by
      intro other member carries
      rcases List.mem_cons.mp member with rfl | inLater
      · exact absent carries
      · exact absent ((List.pairwise_cons.mp after).1 other inLater name carries)
    by_cases any : ∃ other ∈ earlier ++ batch :: later, other.Carries name
    · obtain ⟨other,member,column,wrote⟩ := any
      obtain ⟨_,_,first,_,joined,found,_,values⟩ := joined_present member wrote
      have short := length_pieces_le name first.kind earlier
      rw [cellAt,found,Option.bind_some,values,pieces_append,pieces_none rest,List.append_nil,
        List.getElem?_eq_none (by omega)]
    · rw [cellAt,joined_missing fun other member carries => any ⟨other,member,carries⟩]
      rfl
  · intro column wrote
    obtain ⟨source,member,first,firstWrote,joined,found,kind,values⟩ := joined_present here wrote
    have same : first.kind = column.kind := uniform.oneType source member batch here name first column firstWrote wrote
    have full : (pieces name column.kind earlier).length = rowsOf earlier := by
      refine length_pieces fun other inEarlier => ?_
      obtain ⟨second,otherWrote⟩ := before other inEarlier batch List.mem_cons_self name ⟨column,wrote⟩
      exact ⟨second,otherWrote,uniform.oneType other (List.mem_append_left _ inEarlier) batch here name second column
        otherWrote wrote⟩
    have piece : pieces name column.kind (batch :: later) = scalars column ++ pieces name column.kind later := by
      rw [pieces,List.flatMap_cons,named_wrote wrote]
      rfl
    rw [cellAt,found,Option.bind_some,values,same,pieces_append,piece,List.getElem?_append_right (by omega),full,
      Nat.add_sub_cancel_left,List.getElem?_append_left (by rw [wrote_length wrote]; exact inside)]

/-- Needed: the first row of each batch shows its kind, and that nothing was missing before. -/
private theorem uniform_of_keeps (rows : ∀ batch ∈ batches, batch.ids ≠ [])
    (keeps : KeepsColumns batches (batches.flatMap TypedBatch.ids) (joinedColumns batches)) : Uniform batches := by
  have start (earlier later : List TypedBatch) (batch : TypedBatch) (split : batches = earlier ++ batch :: later) :
      locate batches (rowsOf earlier) = some (batch,0) := by
    have inside : 0 < batch.ids.length :=
      List.length_pos_iff.mpr (rows batch (split ▸ List.mem_append_right _ List.mem_cons_self))
    rw [split]
    exact locate_at earlier later batch inside
  -- The value at the first row of a batch that has the name.
  have head (batch : TypedBatch) (there : batch ∈ batches) (column : ColumnData) (name : String)
    (wrote : batch.Wrote name column) :
      ∃ value, (scalars column)[0]? = some value ∧ scalarKind value = some column.kind := by
    have inside : 0 < (scalars column).length := by
      rw [wrote_length wrote]
      exact List.length_pos_iff.mpr (rows batch there)
    exact ⟨_,List.getElem?_eq_getElem inside,scalarKind_of_mem (wrote_plain wrote) (List.getElem_mem inside)⟩
  constructor
  · have joinedKind (batch : TypedBatch) (there : batch ∈ batches) (name : String) (column joined : ColumnData)
        (wrote : batch.Wrote name column) (plain : Plain joined) (found : (joinedColumns batches).lookup name =
          some joined) :
        column.kind = joined.kind := by
      obtain ⟨earlier,later,split⟩ := List.append_of_mem there
      obtain ⟨value,first,kind⟩ := head batch there column name wrote
      have cell := (keeps.2 _ batch 0 (start earlier later batch split) name).2 column wrote
      rw [cellAt,found,Option.bind_some,first] at cell
      have other := scalarKind_of_mem plain (List.mem_of_getElem? cell)
      rw [kind] at other
      exact Option.some.inj other
    intro batch there other otherThere name column second wrote otherWrote
    obtain ⟨_,_,first,firstWrote,joined,found,kind,_⟩ := joined_present there wrote
    have plain : Plain joined := by
      rw [Plain,kind]
      exact wrote_plain firstWrote
    rw [joinedKind batch there name column joined wrote plain found,
      joinedKind other otherThere name second joined otherWrote plain found]
  · suffices gaps : ∀ before rest, batches = before ++ rest →
        rest.Pairwise fun earlier later => ∀ name, later.Carries name → earlier.Carries name from gaps [] batches rfl
    intro before rest
    induction rest generalizing before with
    | nil => exact fun _ => .nil
    | cons batch rest ih =>
      intro split
      refine List.pairwise_cons.mpr ⟨?_,ih (before ++ [batch]) (by rw [split,List.append_assoc]; rfl)⟩
      intro later member name ⟨column,wrote⟩
      by_contra absent
      obtain ⟨middle,tail,rfl⟩ := List.append_of_mem member
      have whole : batches = (before ++ batch :: middle) ++ later :: tail := by
        rw [split,List.append_assoc]
        rfl
      have there : later ∈ batches := whole ▸ List.mem_append_right _ List.mem_cons_self
      obtain ⟨_,_,first,_,joined,found,_,_⟩ := joined_present there wrote
      have gap := (keeps.2 _ batch 0 (start before _ batch split) name).1 absent
      obtain ⟨value,shown,_⟩ := head later there column name wrote
      have cell := (keeps.2 _ later 0 (start _ tail later whole) name).2 column wrote
      rw [cellAt,found,Option.bind_some] at gap cell
      rw [shown] at cell
      have short := List.getElem?_eq_none_iff.mp gap
      have long := (List.getElem?_eq_some_iff.mp cell).1
      rw [rowsOf_append] at long
      omega

private theorem readsColumns_iff (fits : ∀ batch ∈ stored batches, batch.Fits) :
    ReadsColumns batches ↔ KeepsColumns (stored batches) ((stored batches).flatMap TypedBatch.ids)
      (joinedColumns (stored batches)) := by
  have rows : ∀ batch ∈ stored batches, batch.ids ≠ [] := by
    intro batch member
    simpa using (List.mem_filter.mp member).2
  have read := readDeltaData_contents fits torn_nil rows
  rw [List.append_nil,← written_eq] at read
  have data : (if stored batches = [] then none
    else some (DeltaBatch.readDeltaData ((stored batches).map TypedBatch.delta))).getD ([],∅) =
      ((stored batches).flatMap TypedBatch.ids,joinedColumns (stored batches)) := by
    split
    · rename_i empty
      rw [empty]
      rfl
    · exact readDeltaData_joined (stored batches)
  have keeps (ids : List UInt64) (columns : Map String ColumnData) :
      KeepsColumns batches ids columns ↔ KeepsColumns (stored batches) ids columns := by
    simp only [KeepsColumns,locate_stored,ids_stored]
  rw [ReadsColumns,read]
  constructor
  · rintro ⟨_,same,kept⟩
    cases same
    rw [data,keeps] at kept
    exact kept
  · intro kept
    refine ⟨_,rfl,?_⟩
    rw [data,keeps]
    exact kept

/-- Appended rows keep their columns exactly when every name is written with one type and, among the
batches with rows, by none after one that lacks it. -/
theorem appended_columns_kept_iff (fits : ∀ batch ∈ stored batches, batch.Fits) :
    ReadsColumns batches ↔ Uniform (stored batches) := by
  rw [readsColumns_iff fits]
  refine ⟨uniform_of_keeps fun batch member => ?_,keeps_of_uniform⟩
  simpa using (List.mem_filter.mp member).2

def oneInt (id : UInt64) (name : String) (value : Int64) : TypedBatch where
  ids := [id]
  intColumns := AList.singleton name [value]
  floatColumns := ∅
  stringColumns := ∅
  boolColumns := ∅
  intsSized := by simp
  floatsSized := nofun
  stringsSized := nofun
  boolsSized := nofun

private theorem oneInt_fits (id : UInt64) {name : String} (value : Int64) (short : (utf8 name).length < 2^16) :
    (oneInt id name value).Fits := by
  refine ⟨(by decide : 1 < 2^64),⟨(by decide : 1 < 2^32),?_⟩,noNames,noNames,noNames,nofun⟩
  intro e member
  rw [List.mem_singleton.mp member]
  exact short

theorem two_appends_of_one_column_kept : ReadsColumns [oneInt 1 "a" 5,oneInt 2 "a" 6] := by
  have fits : ∀ batch ∈ stored [oneInt 1 "a" 5, oneInt 2 "a" 6], batch.Fits := by
    intro batch member
    rcases List.mem_pair.mp (List.mem_of_mem_filter member) with rfl | rfl <;> exact oneInt_fits _ _ (by decide)
  refine (appended_columns_kept_iff fits).mpr ⟨?_,?_⟩
  · have kind (batch : TypedBatch) (there : batch ∈ [oneInt 1 "a" 5,oneInt 2 "a" 6]) (name : String)
      (column : ColumnData)
        (wrote : batch.Wrote name column) : column.kind = .int64 := by
      rcases List.mem_pair.mp there with rfl | rfl <;>
        · rw [TypedBatch.Wrote] at wrote
          cases List.mem_singleton.mp wrote
          rfl
    intro batch there other otherThere name column second wrote otherWrote
    rw [kind batch there name column wrote,kind other otherThere name second otherWrote]
  · refine List.pairwise_pair.mpr ?_
    rintro name ⟨column,wrote⟩
    cases List.mem_singleton.mp wrote
    exact ⟨.int64 [5],List.mem_singleton_self _⟩

/-- The second batch adds a column: its value moves to the first row. -/
theorem late_column_shifts : ¬ ReadsColumns [oneInt 1 "a" 5,oneInt 2 "b" 6] := by
  have fits : ∀ batch ∈ stored [oneInt 1 "a" 5, oneInt 2 "b" 6], batch.Fits := by
    intro batch member
    rcases List.mem_pair.mp (List.mem_of_mem_filter member) with rfl | rfl <;> exact oneInt_fits _ _ (by decide)
  rw [readsColumns_iff fits]
  rintro ⟨_,cells⟩
  have first := (cells 0 (oneInt 1 "a" 5) 0 rfl "b").1 (by
    rintro ⟨column,wrote⟩
    have other : "b" = "a" := congrArg Prod.fst (List.mem_singleton.mp wrote)
    exact absurd other (by decide))
  have shown : cellAt (joinedColumns (stored [oneInt 1 "a" 5,oneInt 2 "b" 6])) "b" 0 = some (.int64 6) := by rfl
  rw [first] at shown
  cases shown

end ApexBase.Storage.DeltaFile
