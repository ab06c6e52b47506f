import ApexBase.GroupFile.Rewrite
import ApexBase.GroupFile.RoundTrip
import ApexBase.Storage.SchemaEdits

/-! The schema that a rewrite puts into the footer: what it still says of the columns. -/
namespace ApexBase.Column
open Data Library.Wire

namespace ColumnData

theorem SameVariant.trans {first second third : ColumnData} (before : first.SameVariant second)
    (after : second.SameVariant third) :
    first.SameVariant third := by
  cases first <;> cases second <;> first | exact before.elim | skip
  all_goals cases third <;> first | exact after.elim | trivial | exact Eq.trans before after

section Pushes

variable {encoder : VectorEncoder} {column next : ColumnData}

private theorem pushDefaultValue_variant (pushed : column.pushDefaultValue encoder = some next) :
    column.SameVariant next := by
  cases column with
  | quantizedList data dim codec =>
    simp only [pushDefaultValue] at pushed
    split at pushed
    · cases pushed
      rfl
    · split at pushed <;> cases pushed
      rfl
  | _ => cases pushed; trivial

private theorem pushBool_variant {value : Bool} (pushed : column.pushBool value = some next) :
    column.SameVariant next := by
  cases column with
  | bool data len =>
    simp only [pushBool] at pushed
    generalize (if len / 8 ≥ data.length then data ++ [0] else data) = room at pushed
    split at pushed
    · split at pushed <;> cases pushed
      trivial
    · cases pushed
      trivial
  | _ =>
    cases pushed
    exact .refl _

private theorem copyVector_variant (build : Bytes → ColumnData) (builds : ∀ bytes, column.SameVariant (build bytes))
    {width row : Nat} {data source : Bytes} (pushed : copyVector encoder build width data source row = some next) :
    column.SameVariant next := by
  unfold copyVector at pushed
  split at pushed
  · cases pushed
    exact builds _
  · exact (builds data).trans (pushDefaultValue_variant pushed)

private theorem pushSourceValue_variant {source : ColumnData} {row : Nat} {isNull : Bool}
    (pushed : column.pushSourceValue encoder source row isNull = some next) : column.SameVariant next := by
  unfold pushSourceValue at pushed
  split at pushed
  · exact pushDefaultValue_variant pushed
  · split at pushed
    case h_1 | h_2 =>
      obtain ⟨value,_,rfl⟩ := Option.map_eq_some_iff.mp pushed
      trivial
    case h_3 | h_4 =>
      cases pushed
      trivial
    case h_5 =>
      obtain ⟨value,_,pushed⟩ := Option.bind_eq_some_iff.mp pushed
      exact pushBool_variant pushed
    case h_6 data dim source sourceDim =>
      simp only at pushed
      generalize (if dim = 0 then sourceDim else dim) = known at pushed
      split at pushed
      · cases pushed
        trivial
      · exact copyVector_variant (.fixedList · known) (fun _ => trivial) pushed
    case h_7 data dim source sourceDim =>
      simp only at pushed
      generalize (if dim = 0 then sourceDim else dim) = known at pushed
      split at pushed
      · cases pushed
        trivial
      · exact copyVector_variant (.float16List · known) (fun _ => trivial) pushed
    case h_8 data dim codec source sourceDim sourceCodec =>
      simp only at pushed
      generalize (if dim = 0 then sourceDim else dim) = known at pushed
      split at pushed
      · split at pushed
        · cases pushed
          rfl
        · split at pushed
          · exact copyVector_variant (.quantizedList · known codec) (fun _ => rfl) pushed
          · cases pushed
      · exact pushDefaultValue_variant pushed
    case h_9 => exact pushDefaultValue_variant pushed

private theorem tryPushUpdatedValue_variant {value : Value}
    (pushed : column.tryPushUpdatedValue value = some (some next)) :
    column.SameVariant next := by
  unfold tryPushUpdatedValue at pushed
  split at pushed
  · cases pushed
    trivial
  · cases pushed
    trivial
  · cases pushed
    trivial
  · obtain ⟨grown,found,same⟩ := Option.map_eq_some_iff.mp pushed
    cases same
    exact pushBool_variant found
  · cases pushed

theorem new_columnType_variant {colType : ColumnType} (made : (ColumnData.new (colType)).SameVariant column) :
    (ColumnData.new colType).SameVariant (.new column.columnType) := by
  cases colType <;> cases column <;> first | exact made.elim | trivial | (cases made; rfl)

end Pushes

end ColumnData

end ApexBase.Column

namespace ApexBase.GroupFile
open Data Column Library.Wire ColumnData
open Library.Assoc (Map)
open Storage.Schema (Failure OnDemandSchema LogicalType Placed Indexed placed_addColumn indexed_addColumn placed_new
    indexed_new)
open Storage.Footer (RowGroupMeta)

/-! What a schema says of a column, and when another says the same. -/

/-- The types whose choice is left to the writer. -/
def isPlainText : ColumnType → Bool
  | .string | .stringDict => true
  | _ => false

def SameType (before after : ColumnType) : Prop := after = before ∨
    (isPlainText before = true ∧ isPlainText after = true)

structure PresentsColumn (before after : OnDemandSchema) (i : Nat) (name : String) (colType : ColumnType) : Prop where
  column : ∃ shown, after.columns[i]? = some (name,shown) ∧ SameType colType shown
  logicalType : after.logicalType i = before.logicalType i
  constraints : after.constraints[i]?.getD {} = before.constraints[i]?.getD {}

/-- The columns that stay are the same under the second schema, no column is added, and the
derivations are the same. -/
structure Presents (stays : String → Prop) (before after : OnDemandSchema) : Prop where
  columns : ∀ i name colType, before.columns[i]? = some (name,colType) → stays name →
    PresentsColumn before after i name colType
  fewer : after.columns.length ≤ before.columns.length
  derivations : after.vectorDerivations = before.vectorDerivations

/-- What a schema may say when it is made anew from the names and the stored types: no name
comes twice, nothing but the stored type is known, and that is not `Json`. -/
def Rebuildable (stays : String → Prop) (schema : OnDemandSchema) : Prop :=
  ∀ i name colType, schema.columns[i]? = some (name,colType) → stays name →
    ((schema.columns.take (i + 1)).map Prod.fst).Nodup ∧ schema.logicalType i = none ∧ colType ≠ .json

section Rebuild

variable {columns : List (String × ColumnType)} {actualColTypes : List ColumnType} {schema rebuilt : OnDemandSchema}

private theorem addColumn_cases (schema : OnDemandSchema) (name : String) (dtype : ColumnType) :
    (∃ idx, schema.nameToIdx name = some idx ∧ (schema.addColumn name dtype).1 = schema) ∨
      schema.nameToIdx name = none ∧ (schema.addColumn name dtype).1 = schema.push name dtype {} := by
  unfold OnDemandSchema.addColumn
  split
  · rename_i idx found
    exact Or.inl ⟨idx,found,rfl⟩
  · rename_i fresh
    exact Or.inr ⟨fresh,rfl⟩

private theorem addColumn_prefixed (schema : OnDemandSchema) (name : String) (dtype : ColumnType) :
    schema.columns <+: (schema.addColumn name dtype).1.columns ∧
      (schema.addColumn name dtype).1.columns.length ≤ schema.columns.length + 1 := by
  rcases addColumn_cases schema name dtype with ⟨_,_,same⟩ | ⟨_,pushed⟩
  · rw [same]
    exact ⟨List.prefix_refl _,Nat.le_succ _⟩
  · rw [pushed]
    exact ⟨List.prefix_append _ _,by rw [OnDemandSchema.push,List.length_append,List.length_singleton]⟩

private theorem addColumn_found (schema : OnDemandSchema) (name other : String) (dtype : ColumnType) {idx : Nat}
    (found : schema.nameToIdx other = some idx) : (schema.addColumn name dtype).1.nameToIdx other = some idx := by
  rcases addColumn_cases schema name dtype with ⟨_,_,same⟩ | ⟨fresh,pushed⟩
  · rw [same]
    exact found
  · have different : other ≠ name := by
      rintro rfl
      rw [fresh] at found
      cases found
    rw [pushed,OnDemandSchema.push]
    simp only [Function.update_of_ne different]
    exact found

section
variable (ok : rebuildSchema columns actualColTypes schema = .ok rebuilt)
include ok

private theorem rebuild_keeps (placed : Placed schema) (indexed : Indexed schema) :
    schema.columns <+: rebuilt.columns ∧ rebuilt.columns.length ≤ schema.columns.length + columns.length ∧
    Placed rebuilt ∧ Indexed rebuilt ∧
      ∀ name idx, schema.nameToIdx name = some idx → rebuilt.nameToIdx name = some idx := by
  induction columns generalizing actualColTypes schema with
  | nil =>
    cases ok
    exact ⟨List.prefix_refl _,Nat.le_refl _,placed,indexed,fun _ _ found => found⟩
  | cons column rest ih =>
    cases actualColTypes with
    | nil => cases ok
    | cons actual actualColTypes =>
      obtain ⟨first,atMost⟩ := addColumn_prefixed schema column.1 actual
      obtain ⟨later,fewer,placedLast,indexedLast,found⟩ :=
        ih ok (placed_addColumn placed column.1 actual) (indexed_addColumn indexed column.1 actual)
      refine ⟨first.trans later,?_,placedLast,indexedLast,fun name idx is =>
        found name idx (addColumn_found schema column.1 name actual is)⟩
      rw [List.length_cons]
      omega

private theorem rebuild_logicalTypes (plain : ∀ logical ∈ schema.logicalTypes, logical = none) :
    ∀ logical ∈ rebuilt.logicalTypes, logical = none := by
  induction columns generalizing actualColTypes schema with
  | nil =>
    cases ok
    exact plain
  | cons column rest ih =>
    cases actualColTypes with
    | nil => cases ok
    | cons actual actualColTypes =>
      refine ih ok fun logical member => ?_
      rcases addColumn_cases schema column.1 actual with ⟨_,_,same⟩ | ⟨_,pushed⟩
      · rw [same] at member
        exact plain logical member
      · rw [pushed,OnDemandSchema.push] at member
        rcases List.mem_append.mp member with old | new
        · exact plain logical old
        · exact List.mem_singleton.mp new

section
variable (placed : Placed schema) (indexed : Indexed schema) {i : Nat} {column : String × ColumnType}
include placed indexed

private theorem rebuild_found (there : columns[i]? = some column) :
    ∃ idx ≤ schema.columns.length + i, rebuilt.nameToIdx column.1 = some idx := by
  induction columns generalizing actualColTypes schema i with
  | nil => cases there
  | cons head rest ih =>
    cases actualColTypes with
    | nil => cases ok
    | cons actual actualColTypes =>
      rw [rebuildSchema] at ok
      have placedNext := placed_addColumn placed head.1 actual
      have indexedNext := indexed_addColumn indexed head.1 actual
      cases i with
      | zero =>
        obtain rfl : head = column := Option.some.inj there
        obtain ⟨_,_,_,_,found⟩ := rebuild_keeps ok placedNext indexedNext
        rcases addColumn_cases schema head.1 actual with ⟨idx,known,same⟩ | ⟨_,pushed⟩
        · obtain ⟨column,at_,_⟩ := Option.map_eq_some_iff.mp (placed _ _ known)
          obtain ⟨inside,_⟩ := List.getElem?_eq_some_iff.mp at_
          exact ⟨idx,by omega,found _ _ (by rw [same]; exact known)⟩
        · exact ⟨schema.columns.length,Nat.le_refl _,
            found _ _ (by rw [pushed,OnDemandSchema.push]; exact Function.update_self ..)⟩
      | succ i =>
        obtain ⟨idx,before,found⟩ := ih ok placedNext indexedNext there
        have atMost := (addColumn_prefixed schema head.1 actual).2
        exact ⟨idx,by omega,found⟩

/-- A column is at its place exactly when no name came twice up to it. -/
private theorem rebuild_column {actual : ColumnType} (there : columns[i]? = some column)
    (typed : actualColTypes[i]? = some actual) :
    (rebuilt.columns[schema.columns.length + i]?.map Prod.fst = some column.1 ↔
      ((schema.columns ++ columns.take (i + 1)).map Prod.fst).Nodup) ∧
      (((schema.columns ++ columns.take (i + 1)).map Prod.fst).Nodup → rebuilt.columns[schema.columns.length + i]? =
        some (column.1,actual)) := by
  induction columns generalizing actualColTypes schema i with
  | nil => cases there
  | cons head rest ih =>
    cases actualColTypes with
    | nil => cases ok
    | cons headType actualColTypes =>
      rw [rebuildSchema] at ok
      have placedNext := placed_addColumn placed head.1 headType
      have indexedNext := indexed_addColumn indexed head.1 headType
      obtain ⟨later,_,_,indexedLast,found⟩ := rebuild_keeps ok placedNext indexedNext
      -- where a name comes twice, it is found before its column
      have misplaced {idx : Nat} (known : rebuilt.nameToIdx column.1 = some idx)
        (before : idx < schema.columns.length + i) :
          rebuilt.columns[schema.columns.length + i]?.map Prod.fst ≠ some column.1 := by
        intro same
        obtain ⟨shown,at_,named⟩ := Option.map_eq_some_iff.mp same
        have again := indexedLast _ shown at_
        rw [named,known] at again
        have := Option.some.inj again
        omega
      rcases addColumn_cases schema head.1 headType with ⟨idx,known,same⟩ | ⟨fresh,pushed⟩
      · obtain ⟨first,at_,named⟩ := Option.map_eq_some_iff.mp (placed _ _ known)
        obtain ⟨inside,_⟩ := List.getElem?_eq_some_iff.mp at_
        have twice : ¬ ((schema.columns ++ (head :: rest).take (i + 1)).map Prod.fst).Nodup := by
          intro distinct
          rw [List.take_succ_cons,List.map_append] at distinct
          exact (List.nodup_append.mp distinct).2.2 first.1 (List.mem_map_of_mem (List.mem_of_getElem? at_)) head.1
            (List.mem_map_of_mem List.mem_cons_self) named
        refine ⟨iff_of_false ?_ twice,fun distinct => absurd distinct twice⟩
        cases i with
        | zero =>
          obtain rfl : head = column := Option.some.inj there
          exact misplaced (found _ _ (by rw [same]; exact known)) (by omega)
        | succ i =>
          rw [same] at ok
          obtain ⟨other,before,foundThere⟩ := rebuild_found ok placed indexed there
          exact misplaced foundThere (by omega)
      · have length : (schema.addColumn head.1 headType).1.columns = schema.columns ++ [(head.1,headType)] := by
          rw [pushed]
          rfl
        have unused : head.1 ∉ schema.columns.map Prod.fst := by
          intro member
          obtain ⟨other,at_,named⟩ := List.mem_map.mp member
          obtain ⟨j,_,at_⟩ := List.mem_iff_getElem.mp at_
          have known := indexed j other (by rw [← at_]; exact List.getElem?_eq_getElem _)
          rw [named,fresh] at known
          cases known
        cases i with
        | zero =>
          obtain rfl : head = column := Option.some.inj there
          obtain rfl : headType = actual := Option.some.inj typed
          have at_ : rebuilt.columns[schema.columns.length + 0]? = some (head.1,headType) := by
            obtain ⟨rest_,whole⟩ := later
            rw [← whole,length]
            simp
          refine ⟨iff_of_true (by rw [at_]; rfl) ?_,fun _ => at_⟩
          rw [List.take_succ_cons,List.take_zero,List.map_append]
          exact List.nodup_append.mpr ⟨indexed.nodup,List.nodup_singleton _,fun name member other last => by
            rw [List.map_singleton,List.mem_singleton] at last
            rintro rfl
            exact unused (last ▸ member)⟩
        | succ i =>
          have step := ih ok placedNext indexedNext there typed
          rw [length,List.length_append,List.length_singleton] at step
          have names : ((schema.columns ++ [(head.1,headType)]) ++ rest.take (i + 1)).map Prod.fst =
              (schema.columns ++ (head :: rest).take (i + 1 + 1)).map Prod.fst := by
            simp [List.take_succ_cons]
          rw [names,show schema.columns.length + 1 + i = schema.columns.length + (i + 1) by omega] at step
          exact step

end

end

end Rebuild

/-! The types in the first row group. -/

def Recorded (colType actual : ColumnType) : Prop :=
  if isPlainText colType = true ∨ colType = .json then isPlainText actual = true else actual = colType

private theorem recorded_same {colType actual : ColumnType} (recorded : Recorded colType actual) :
    SameType colType actual ↔ colType ≠ .json := by
  unfold Recorded at recorded
  split at recorded
  · rename_i text
    constructor
    · rintro (rfl | ⟨plain,_⟩) rfl
      · cases recorded
      · cases plain
    · intro other
      exact Or.inr ⟨text.resolve_right other,recorded⟩
  · rename_i other
    exact iff_of_true (Or.inl recorded) fun json => other (Or.inr json)

section Written

variable {options : ColumnEncodingOptions} {start stop : Nat}

private theorem text_variant {colType : ColumnType} {column : ColumnData}
    (made : (ColumnData.new (memType colType)).SameVariant column) :
    (isPlainText colType = true ∨ colType = .json) ↔ ∃ offsets data, column = .string offsets data := by
  constructor
  · rintro text
    cases column with
    | string offsets data => exact ⟨offsets,data,rfl⟩
    | _ =>
      rcases text with text | rfl
      · cases colType <;> first | exact made.elim | cases text
      · exact made.elim
  · rintro ⟨offsets,data,rfl⟩
    cases colType <;> first | exact Or.inl rfl | exact Or.inr rfl | exact made.elim

private theorem writeColumn_recorded {colType actual : ColumnType} {recorded : Option ColumnType} {column : ColumnData}
    {nulls bytes : Bytes} (made : (ColumnData.new (memType colType)).SameVariant column)
    (written : writeColumn options start stop true colType recorded column nulls = .ok (actual,bytes)) :
    Recorded colType actual := by
  unfold writeColumn at written
  obtain ⟨chunk,sliced,written⟩ := bind_eq_ok.mp written
  obtain ⟨encodedAs,chosen,written⟩ := bind_eq_ok.mp written
  have same : column.SameVariant chunk := by
    cases cut : column.sliceRange start stop with
    | none =>
      rw [cut] at sliced
      cases sliced
    | some found =>
      rw [cut] at sliced
      cases sliced
      exact sliceRange_variant cut
  have madeChunk := made.trans same
  have text := text_variant madeChunk
  have is : actual = actualType colType (encodedAs.getD chunk) := by
    simp only at written
    split at written
    · cases written
      rfl
    · cases written
  subst is
  cases encodedAs with
  | some dict =>
    rw [dictEncoded,if_pos rfl] at chosen
    cases encoded : chunk.dictEncodeIfSmaller with
    | none =>
      rw [encoded] at chosen
      cases chosen
    | some found =>
      rw [encoded] at chosen
      obtain ⟨offsets,data,rfl,made_⟩ := dictEncodeIfSmaller_spec encoded (Except.ok.inj chosen)
      obtain ⟨pieces,_,built⟩ := Option.bind_eq_some_iff.mp made_
      cases built
      rw [Recorded,if_pos (text.mpr ⟨offsets,data,rfl⟩)]
      rfl
  | none =>
    rw [Option.getD_none,Recorded]
    cases chunk with
    | string offsets data =>
      rw [if_pos (text.mpr ⟨offsets,data,rfl⟩)]
      rfl
    | stringDict indices dictOffsets dictData => cases colType <;> exact madeChunk.elim
    | _ =>
      rw [if_neg fun is => by obtain ⟨_,_,same⟩ := text.mp is; cases same]
      rfl

private theorem writeColumns_recorded {schemaCols : List (String × ColumnType)} {recorded : List ColumnType}
    {columns : List ColumnData} {nulls : List Bytes} {sections : List (ColumnType × Bytes)}
    (made : List.Forall₂ (fun column data => (ColumnData.new (memType column.2)).SameVariant data) schemaCols columns)
    (written : writeColumns options start stop true schemaCols recorded columns nulls = .ok sections) :
    List.Forall₂ (fun column section_ => Recorded column.2 section_.1) schemaCols sections := by
  induction made generalizing recorded nulls sections with
  | nil =>
    cases written
    exact .nil
  | @cons column data schemaCols columns first _ ih =>
    cases nulls with
    | nil => cases written
    | cons bitmap nulls =>
      rw [writeColumns] at written
      obtain ⟨section_,head,written⟩ := bind_eq_ok.mp written
      obtain ⟨others,more,written⟩ := bind_eq_ok.mp written
      cases written
      exact .cons (writeColumn_recorded first head) (ih more)

end Written

section Output

variable {context : RewriteContext} {schemaCols : List (String × ColumnType)} {state next : RewriteState}

structure Sane (schemaCols : List (String × ColumnType)) (state : RewriteState) : Prop where
  made : List.Forall₂ (fun column data => (ColumnData.new (memType column.2)).SameVariant data) schemaCols
    (state.outColumns.map Prod.fst)
  first : state.firstRg = state.groups.isEmpty
  fresh : state.groups = [] → state.actualColTypes = []
  recorded : state.groups ≠ [] → List.Forall₂ (fun column actual => Recorded column.2 actual) schemaCols
    state.actualColTypes

def HasRow (state : RewriteState) : Prop := state.groups ≠ [] ∨ state.outIds ≠ []

private theorem sane_start (schemaCols : List (String × ColumnType)) : Sane schemaCols (startRewrite schemaCols) where
  made := by
    induction schemaCols with
    | nil => exact .nil
    | cons column rest ih => exact .cons (.refl _) ih
  first := rfl
  fresh := fun _ => rfl
  recorded := fun some_ => absurd rfl some_

private theorem writeGroup_types {written : WrittenGroup} (sane : Sane schemaCols state) (some_ : state.outIds ≠ [])
    (ok : context.writeGroup schemaCols state = .ok written) :
    List.Forall₂ (fun column actual => Recorded column.2 actual) schemaCols written.actualColTypes := by
  have ok := mapError_eq_ok.mp ok
  unfold writeStreamedV4RowGroup at ok
  rw [if_neg (Nat.not_lt_zero _),if_neg (fun none_ => some_ (List.length_eq_zero_iff.mp none_))] at ok
  obtain ⟨chunkIds,_,ok⟩ := bind_eq_ok.mp ok
  obtain ⟨sections,made,ok⟩ := bind_eq_ok.mp ok
  cases ok
  cases first : state.firstRg with
  | true =>
    have none_ : state.groups = [] := by rwa [sane.first,List.isEmpty_iff] at first
    rw [first] at made
    simp only [if_true,sane.fresh none_,List.nil_append]
    exact List.forall₂_map_right_iff.mpr (writeColumns_recorded sane.made made)
  | false =>
    have some_ : state.groups ≠ [] := by
      intro none_
      rw [sane.first,none_] at first
      cases first
    exact sane.recorded some_

private theorem flush_sane (sane : Sane schemaCols state)
    (ok : context.flushStreamedOutRg schemaCols state = .ok next) :
    Sane schemaCols next ∧ next.outIds = [] ∧ (HasRow next ↔ HasRow state) := by
  unfold RewriteContext.flushStreamedOutRg at ok
  split at ok
  · rename_i none_
    cases ok
    exact ⟨sane,List.isEmpty_iff.mp none_,Iff.rfl⟩
  · rename_i some_
    have some_ : state.outIds ≠ [] := fun none_ => some_ (List.isEmpty_iff.mpr none_)
    obtain ⟨written,wrote,ok⟩ := bind_eq_ok.mp ok
    cases ok
    have grown : state.groups ++ [written] ≠ [] := List.append_ne_nil_of_right_ne_nil _ (List.cons_ne_nil _ _)
    refine ⟨⟨?_,?_,fun none_ => absurd none_ grown,fun _ => writeGroup_types sane some_ wrote⟩,rfl,
      iff_of_true (Or.inl grown) (Or.inr some_)⟩
    · have made := sane.made
      rw [List.forall₂_map_right_iff] at made
      rw [List.map_map,List.forall₂_map_right_iff]
      exact made.imp fun column entry made => new_columnType_variant made
    · simp

def KeepsVariant (cell : Nat → ColumnData × Bytes → Except RewriteFault (ColumnData × Bytes)) : Prop :=
  ∀ colIdx column pushed, cell colIdx column = .ok pushed → column.1.SameVariant pushed.1

private theorem pushCells_made {cell : Nat → ColumnData × Bytes → Except RewriteFault (ColumnData × Bytes)}
    (keeps : KeepsVariant cell) {colIdx : Nat} {columns pushed : List (ColumnData × Bytes)}
    (made : List.Forall₂ (fun column data => (ColumnData.new (memType column.2)).SameVariant data) schemaCols
      (columns.map Prod.fst))
    (ok : RewriteContext.pushCells cell colIdx columns = .ok pushed) :
    List.Forall₂ (fun column data => (ColumnData.new (memType column.2)).SameVariant data) schemaCols
      (pushed.map Prod.fst) := by
  induction columns generalizing colIdx schemaCols pushed with
  | nil =>
    cases ok
    exact made
  | cons column columns ih =>
    rw [RewriteContext.pushCells] at ok
    obtain ⟨first,head,ok⟩ := bind_eq_ok.mp ok
    obtain ⟨rest,more,ok⟩ := bind_eq_ok.mp ok
    cases ok
    cases made with
    | cons here there => exact .cons (here.trans (keeps _ _ _ head)) (ih there more)

private theorem pushRow_sane {id : UInt64} {cell : Nat → ColumnData × Bytes → Except RewriteFault (ColumnData × Bytes)}
    (keeps : KeepsVariant cell) (sane : Sane schemaCols state)
    (ok : context.pushRow schemaCols state id cell = .ok next) :
    Sane schemaCols next ∧ HasRow next := by
  unfold RewriteContext.pushRow at ok
  obtain ⟨columns,pushed,ok⟩ := bind_eq_ok.mp ok
  have grown : Sane schemaCols {state with outIds := state.outIds ++ [id],outColumns := columns} :=
    ⟨pushCells_made keeps sane.made pushed,sane.first,sane.fresh,sane.recorded⟩
  have some_ : HasRow {state with outIds := state.outIds ++ [id],outColumns := columns} :=
    Or.inr (List.append_ne_nil_of_right_ne_nil _ (List.cons_ne_nil _ _))
  simp only at ok
  split at ok
  · obtain ⟨saneNext,_,same⟩ := flush_sane grown ok
    exact ⟨saneNext,same.mpr some_⟩
  · cases ok
    exact ⟨grown,some_⟩

private theorem finish_cases {schema : OnDemandSchema} {file : RewrittenFile}
    (ok : context.finish schema state = .ok file) :
    modifiedSchema schema state.actualColTypes = .ok file.schema := by
  unfold RewriteContext.finish at ok
  simp only at ok
  split at ok
  all_goals
    obtain ⟨groups,_,ok⟩ := bind_eq_ok.mp ok
    obtain ⟨written,made,ok⟩ := bind_eq_ok.mp ok
    cases ok
    exact made

/-- The schema in the footer presents what was there before exactly when no row was written or
everything in it can be made anew. -/
private theorem presents_iff {schema written : OnDemandSchema} (stays : String → Prop)
    (sane : Sane schema.columns state)
    (ok : modifiedSchema schema state.actualColTypes = .ok written) :
    Presents stays schema written ↔ state.groups = [] ∨ Rebuildable stays schema := by
  unfold modifiedSchema at ok
  split at ok
  · rename_i none_
    cases ok
    refine iff_of_true ⟨fun i name colType there _ => ⟨⟨colType,there,Or.inl rfl⟩,rfl,rfl⟩,Nat.le_refl _,rfl⟩ ?_
    by_cases empty : state.groups = []
    · exact Or.inl empty
    · have recorded := sane.recorded empty
      rw [List.isEmpty_iff.mp none_,List.forall₂_nil_right_iff] at recorded
      refine Or.inr fun i name colType there => ?_
      rw [recorded] at there
      cases there
  · rename_i some_
    have written_ : state.groups ≠ [] := fun none_ => some_ (by rw [sane.fresh none_]; rfl)
    have recorded := sane.recorded written_
    obtain ⟨rebuilt,made,ok⟩ := bind_eq_ok.mp ok
    cases ok
    obtain ⟨_,atMost,_,_,_⟩ := rebuild_keeps made placed_new indexed_new
    have unknown (i : Nat) : OnDemandSchema.logicalType {rebuilt with
      constraints := schema.constraints,vectorDerivations := schema.vectorDerivations} i = none := by
      unfold OnDemandSchema.logicalType
      cases there : rebuilt.logicalTypes[i]? with
      | none => rfl
      | some logical => exact rebuild_logicalTypes made nofun logical (List.mem_of_getElem? there)
    rw [or_iff_right written_]
    have columnwise (i : Nat) (name : String) (colType : ColumnType) (there : schema.columns[i]? =
      some (name,colType)) :
        PresentsColumn schema {rebuilt with
          constraints := schema.constraints,vectorDerivations := schema.vectorDerivations} i name colType ↔
          ((schema.columns.take (i + 1)).map Prod.fst).Nodup ∧ schema.logicalType i = none ∧ colType ≠ .json := by
      obtain ⟨inside,is⟩ := List.getElem?_eq_some_iff.mp there
      have inTypes : i < state.actualColTypes.length := by
        rw [← recorded.length_eq]
        exact inside
      have type := recorded.get inside inTypes
      rw [List.get_eq_getElem,List.get_eq_getElem,is] at type
      obtain ⟨place,shown⟩ := rebuild_column made placed_new indexed_new there (List.getElem?_eq_getElem inTypes)
      simp only [OnDemandSchema.new,List.length_nil,Nat.zero_add,List.nil_append] at place shown
      constructor
      · rintro ⟨⟨other,at_,same⟩,logical,_⟩
        have distinct := place.mp (by rw [at_]; rfl)
        rw [shown distinct] at at_
        cases at_
        exact ⟨distinct,by rw [← logical,unknown],(recorded_same type).mp same⟩
      · rintro ⟨distinct,logical,notJson⟩
        exact ⟨⟨_,shown distinct,(recorded_same type).mpr notJson⟩,by rw [unknown,logical],rfl⟩
    constructor
    · rintro ⟨columns,_,_⟩ i name colType there stay
      exact (columnwise i name colType there).mp (columns i name colType there stay)
    · intro rebuildable
      refine ⟨fun i name colType there stay => (columnwise i name colType there).mpr
        (rebuildable i name colType there stay),?_,rfl⟩
      simpa [OnDemandSchema.new] using atMost

end Output

namespace OnDemandStorage

variable (storage : OnDemandStorage)

def RowLeft (codecs : Codecs) (filterMemDeletes : Bool) : Prop :=
  (∃ rgMeta ∈ storage.footer.rowGroups, rgMeta.rowCount ≠ 0 ∧ ∃ parsed, storage.parse codecs rgMeta = .ok parsed ∧
    ∃ row ∈ List.range parsed.ids.length, storage.baseDropped filterMemDeletes parsed row = some false) ∨
  ∃ ids columns, storage.deltaData = some (some (ids,columns)) ∧ ∃ id ∈ ids, storage.deleteBitmap id = false

def RowStored (codecs : Codecs) : Prop :=
  ∃ rgMeta ∈ storage.footer.rowGroups, rgMeta.rowCount ≠ 0 ∧ ∃ parsed, storage.parse codecs rgMeta = .ok parsed ∧
    ∃ row ∈ List.range parsed.ids.length, bitAt parsed.deleted row = some false

section Rows

variable {context : RewriteContext} {schemaCols : List (String × ColumnType)} {state next : RewriteState}

private theorem orPanicked_ok {α : Type} {value : Option α} {result : α} :
    orPanicked value = .ok result ↔ value = some result := by
  cases value <;> simp [orPanicked]

private theorem updatedOr_keeps {update : Option Value} {outRow : Nat} {column pushed : ColumnData × Bytes}
    {copy : Except RewriteFault (ColumnData × Bytes)}
    (copies : ∀ copied, copy = .ok copied → column.1.SameVariant copied.1)
    (ok : RewriteContext.updatedOr update outRow column copy = .ok pushed) : column.1.SameVariant pushed.1 := by
  unfold RewriteContext.updatedOr at ok
  split at ok
  · exact copies pushed ok
  · obtain ⟨taken,found,ok⟩ := bind_eq_ok.mp ok
    split at ok
    · cases ok
      exact tryPushUpdatedValue_variant (orPanicked_ok.mp found)
    · exact copies pushed ok

private theorem baseCell_keeps {parsed : ParsedV4RowGroup} {id : UInt64} {row outRow : Nat} :
    KeepsVariant (storage.baseCell context schemaCols parsed id row outRow) := by
  intro colIdx column pushed ok
  unfold baseCell at ok
  split at ok
  · obtain ⟨⟨isNull,source⟩,_,ok⟩ := bind_eq_ok.mp ok
    obtain ⟨⟨name,_⟩,_,ok⟩ := bind_eq_ok.mp ok
    refine updatedOr_keeps (fun copied copy => ?_) ok
    obtain ⟨data,grown,copy⟩ := bind_eq_ok.mp copy
    cases copy
    exact pushSourceValue_variant (orPanicked_ok.mp grown)
  · obtain ⟨data,grown,ok⟩ := bind_eq_ok.mp ok
    cases ok
    exact pushDefaultValue_variant (orPanicked_ok.mp grown)

private theorem deltaCell_keeps {columns : Map String ColumnData} {id : UInt64} {row outRow : Nat} :
    KeepsVariant (storage.deltaCell context schemaCols columns id row outRow) := by
  intro colIdx column pushed ok
  unfold deltaCell at ok
  obtain ⟨⟨name,_⟩,_,ok⟩ := bind_eq_ok.mp ok
  refine updatedOr_keeps (fun copied copy => ?_) ok
  obtain ⟨data,grown,copy⟩ := bind_eq_ok.mp copy
  cases copy
  have grown := orPanicked_ok.mp grown
  split at grown
  · split at grown
    · exact pushSourceValue_variant grown
    · exact pushDefaultValue_variant grown
  · exact pushDefaultValue_variant grown

private theorem pushDerived_keeps {decoder : VectorDecoder} {encoder : VectorEncoder}
    {column source pushed : ColumnData} {row : Nat} {isNull : Bool}
    (ok : pushDerivedVectorValue encoder decoder column source row isNull = .ok pushed) :
    column.SameVariant pushed := by
  unfold pushDerivedVectorValue at ok
  split at ok
  · cases ok
  · obtain ⟨sized,grown,ok⟩ := bind_eq_ok.mp ok
    have same : column.SameVariant sized := by
      cases column <;> cases grown <;> trivial
    refine same.trans ?_
    split at ok
    · exact pushDefaultValue_variant (orPanicked_ok.mp ok)
    · obtain ⟨values,_,ok⟩ := bind_eq_ok.mp ok
      cases sized with
      | float16List data dim =>
        cases ok
        trivial
      | quantizedList data dim codec =>
        simp only [pushVectorValues] at ok
        split at ok <;> cases ok
        rfl
      | _ => cases ok

private theorem outputCell_keeps {sources : List OutputSource} {parsed : ParsedV4RowGroup} {row outRow : Nat} :
    KeepsVariant (outputCell context sources parsed row outRow) := by
  intro colIdx column pushed ok
  unfold outputCell at ok
  obtain ⟨source,_,ok⟩ := bind_eq_ok.mp ok
  split at ok
  · obtain ⟨⟨isNull,data⟩,_,ok⟩ := bind_eq_ok.mp ok
    obtain ⟨grown,made,ok⟩ := bind_eq_ok.mp ok
    cases ok
    exact pushSourceValue_variant (orPanicked_ok.mp made)
  · obtain ⟨⟨isNull,data⟩,_,ok⟩ := bind_eq_ok.mp ok
    obtain ⟨grown,made,ok⟩ := bind_eq_ok.mp ok
    cases ok
    exact pushDerived_keeps made

/-! One row, one row group, and all of them. -/

private theorem baseRow_sane {filterMemDeletes : Bool} {parsed : ParsedV4RowGroup} {row : Nat}
    (sane : Sane schemaCols state)
    (ok : storage.baseRow context filterMemDeletes schemaCols parsed state row = .ok next) :
    Sane schemaCols next ∧ (HasRow next ↔ HasRow state ∨ storage.baseDropped filterMemDeletes parsed row =
      some false) := by
  unfold baseRow at ok
  obtain ⟨dropped,found,ok⟩ := bind_eq_ok.mp ok
  rw [orPanicked_ok.mp found]
  split at ok
  · rename_i left_
    cases ok
    subst left_
    exact ⟨sane,by simp⟩
  · rename_i stays
    obtain ⟨id,_,ok⟩ := bind_eq_ok.mp ok
    obtain ⟨saneNext,some_⟩ := pushRow_sane (storage.baseCell_keeps) sane ok
    exact ⟨saneNext,iff_of_true some_ (Or.inr (by simpa using stays))⟩

private theorem baseGroup_sane {filterMemDeletes : Bool} {rgMeta : RowGroupMeta} (sane : Sane schemaCols state)
    (ok : storage.baseGroup context filterMemDeletes schemaCols state rgMeta = .ok next) :
    Sane schemaCols next ∧ (HasRow next ↔ HasRow state ∨ rgMeta.rowCount ≠ 0 ∧
      ∃ parsed, storage.parse context.codecs rgMeta = .ok parsed ∧
      ∃ row ∈ List.range parsed.ids.length, storage.baseDropped filterMemDeletes parsed row = some false) := by
  unfold baseGroup at ok
  split at ok
  · rename_i none_
    cases ok
    exact ⟨sane,by simp [none_]⟩
  · rename_i some_
    obtain ⟨parsed,read,ok⟩ := bind_eq_ok.mp ok
    have read := mapError_eq_ok.mp read
    obtain ⟨saneNext,reached⟩ := foldlM_progress (fun _ row _ sane ok => storage.baseRow_sane sane ok) sane ok
    refine ⟨saneNext,reached.trans (or_congr_right ⟨fun left_ => ⟨some_,parsed,read,left_⟩,?_⟩)⟩
    rintro ⟨_,other,again,left_⟩
    rw [read] at again
    cases again
    exact left_

private theorem deltaRow_sane {columns : Map String ColumnData} {entry : UInt64 × Nat} (sane : Sane schemaCols state)
    (ok : storage.deltaRow context schemaCols columns state entry = .ok next) :
    Sane schemaCols next ∧ (HasRow next ↔ HasRow state ∨ storage.deleteBitmap entry.1 = false) := by
  unfold deltaRow at ok
  split at ok
  · rename_i deleted
    cases ok
    exact ⟨sane,by simp [deleted]⟩
  · rename_i stays
    obtain ⟨saneNext,some_⟩ := pushRow_sane (storage.deltaCell_keeps) sane ok
    exact ⟨saneNext,iff_of_true some_ (Or.inr (by simpa using stays))⟩

private theorem deltaRows_sane (sane : Sane schemaCols state)
    (ok : storage.deltaRows context schemaCols state = .ok next) :
    Sane schemaCols next ∧ (HasRow next ↔ HasRow state ∨
      ∃ ids columns, storage.deltaData = some (some (ids,columns)) ∧ ∃ id ∈ ids, storage.deleteBitmap id = false) := by
  unfold deltaRows at ok
  split at ok
  · rename_i ids columns found
    have found := Option.join_eq_some_iff.mp found
    obtain ⟨saneNext,reached⟩ := foldlM_progress (fun _ entry _ sane ok => storage.deltaRow_sane sane ok) sane ok
    refine ⟨saneNext,reached.trans (or_congr_right ⟨?_,?_⟩)⟩
    · rintro ⟨entry,member,left_⟩
      exact ⟨ids,columns,found,entry.1,(List.mem_zipIdx' member).2 ▸ List.getElem_mem _,left_⟩
    · rintro ⟨_,_,again,id,member,left_⟩
      rw [found] at again
      cases again
      obtain ⟨i,inside,rfl⟩ := List.mem_iff_getElem.mp member
      exact ⟨(ids[i],i),List.mk_mem_zipIdx_iff_getElem?.mpr (List.getElem?_eq_getElem inside),left_⟩
  · rename_i none_
    cases ok
    refine ⟨sane,(or_iff_left ?_).symm⟩
    rintro ⟨ids,columns,found,_⟩
    rw [found] at none_
    cases none_

private theorem outputRow_sane {sources : List OutputSource} {parsed : ParsedV4RowGroup} {row : Nat}
    (sane : Sane schemaCols state)
    (ok : outputRow context schemaCols sources parsed state row = .ok next) :
    Sane schemaCols next ∧ (HasRow next ↔ HasRow state ∨ bitAt parsed.deleted row = some false) := by
  unfold outputRow at ok
  obtain ⟨dropped,found,ok⟩ := bind_eq_ok.mp ok
  rw [orPanicked_ok.mp found]
  split at ok
  · rename_i left_
    cases ok
    subst left_
    exact ⟨sane,by simp⟩
  · rename_i stays
    obtain ⟨id,_,ok⟩ := bind_eq_ok.mp ok
    obtain ⟨saneNext,some_⟩ := pushRow_sane outputCell_keeps sane ok
    exact ⟨saneNext,iff_of_true some_ (Or.inr (by simpa using stays))⟩

private theorem outputGroup_sane {sources : List OutputSource} {rgMeta : RowGroupMeta} (sane : Sane schemaCols state)
    (ok : storage.outputGroup context schemaCols sources state rgMeta = .ok next) :
    Sane schemaCols next ∧ (HasRow next ↔ HasRow state ∨ rgMeta.rowCount ≠ 0 ∧
      ∃ parsed, storage.parse context.codecs rgMeta = .ok parsed ∧
      ∃ row ∈ List.range parsed.ids.length, bitAt parsed.deleted row = some false) := by
  unfold outputGroup at ok
  split at ok
  · rename_i none_
    cases ok
    exact ⟨sane,by simp [none_]⟩
  · rename_i some_
    obtain ⟨parsed,read,ok⟩ := bind_eq_ok.mp ok
    have read := mapError_eq_ok.mp read
    obtain ⟨saneNext,reached⟩ := foldlM_progress (fun _ row _ sane ok => outputRow_sane sane ok) sane ok
    refine ⟨saneNext,reached.trans (or_congr_right ⟨fun left_ => ⟨some_,parsed,read,left_⟩,?_⟩)⟩
    rintro ⟨_,other,again,left_⟩
    rw [read] at again
    cases again
    exact left_

private theorem start_hasRow (schemaCols : List (String × ColumnType)) : ¬ HasRow (startRewrite schemaCols) := by
  rintro (some_ | some_) <;> exact some_ rfl

private theorem flushed_groups (none_ : state.outIds = []) : state.groups = [] ↔ ¬ HasRow state := by
  simp [HasRow,none_]

private theorem close_rewrite {schema : OnDemandSchema} {final : RewriteState} {file : RewrittenFile}
    (stays : String → Prop) (sane : Sane schema.columns state)
    (written : context.flushStreamedOutRg schema.columns state = .ok final)
    (ok : context.finish schema final = .ok file) : Presents stays schema file.schema ↔
    ¬ HasRow state ∨ Rebuildable stays schema := by
  obtain ⟨saneFinal,noneLeft,same⟩ := flush_sane sane written
  rw [presents_iff stays saneFinal (finish_cases ok),flushed_groups noneLeft,same]

private theorem stream_presents {settings : RewriteContext} {requireDelta filterMemDeletes : Bool}
    {file : RewrittenFile} (stays : String → Prop)
    (ok : storage.streamRewriteV4 settings requireDelta filterMemDeletes = .ok (some file)) :
    Presents stays storage.mergedSchema file.schema ↔
      ¬ storage.RowLeft settings.codecs filterMemDeletes ∨ Rebuildable stays storage.mergedSchema := by
  unfold streamRewriteV4 at ok
  split at ok
  · cases ok
  · obtain ⟨base,merged,ok⟩ := bind_eq_ok.mp ok
    obtain ⟨flushed,written,ok⟩ := bind_eq_ok.mp ok
    obtain ⟨appended,added,ok⟩ := bind_eq_ok.mp ok
    obtain ⟨final,last,ok⟩ := bind_eq_ok.mp ok
    obtain ⟨made,finished,ok⟩ := bind_eq_ok.mp ok
    cases ok
    obtain ⟨saneBase,baseRows⟩ := foldlM_progress (fun _ _ _ sane ok => storage.baseGroup_sane sane ok)
      (sane_start _) merged
    obtain ⟨saneFlushed,_,flushedRows⟩ := flush_sane saneBase written
    obtain ⟨saneAppended,appendedRows⟩ := storage.deltaRows_sane saneFlushed added
    rw [close_rewrite stays saneAppended last finished,appendedRows,flushedRows,baseRows,or_iff_right (start_hasRow _)]
    rfl

private theorem dropColumns_presents {settings : RewriteContext} {file : RewrittenFile} (stays : String → Prop)
    (ok : storage.rewriteV4DropColumns settings = .ok (some file)) :
    Presents stays storage.memSchema file.schema ↔ ¬ storage.RowStored settings.codecs ∨
    Rebuildable stays storage.memSchema := by
  unfold rewriteV4DropColumns at ok
  simp only at ok
  split at ok
  · cases ok
  · obtain ⟨sources,_,ok⟩ := bind_eq_ok.mp ok
    obtain ⟨base,copied,ok⟩ := bind_eq_ok.mp ok
    obtain ⟨final,last,ok⟩ := bind_eq_ok.mp ok
    obtain ⟨made,finished,ok⟩ := bind_eq_ok.mp ok
    cases ok
    obtain ⟨saneBase,baseRows⟩ := foldlM_progress (fun _ _ _ sane ok => storage.outputGroup_sane sane ok)
      (sane_start _) copied
    rw [close_rewrite stays saneBase last finished,baseRows,or_iff_right (start_hasRow _)]
    rfl

/-! The schema before the rewrite says of the columns in the footer what the footer says. -/

private theorem addMissing_presents {first schema : OnDemandSchema} (column : String × ColumnType)
    (before : ∀ i name colType, first.columns[i]? = some (name,colType) → PresentsColumn first schema i name colType) :
    ∀ i name colType, first.columns[i]? = some (name,colType) →
    PresentsColumn first (addMissing schema column) i name colType := by
  unfold addMissing
  split
  · intro i name colType there
    obtain ⟨⟨shown,at_,same⟩,logical,cons⟩ := before i name colType there
    rcases addColumn_cases schema column.1 column.2 with ⟨_,_,kept⟩ | ⟨_,pushed⟩
    · rw [kept]
      exact ⟨⟨shown,at_,same⟩,logical,cons⟩
    · rw [pushed]
      refine ⟨⟨shown,?_,same⟩,?_,?_⟩
      · obtain ⟨inside,_⟩ := List.getElem?_eq_some_iff.mp at_
        rw [OnDemandSchema.push,List.getElem?_append_left inside,at_]
      · rw [← logical]
        simp only [OnDemandSchema.logicalType,OnDemandSchema.push,List.getElem?_append]
        split
        · rfl
        · rename_i beyond
          rw [List.getElem?_eq_none (Nat.le_of_not_lt beyond)]
          cases i - schema.logicalTypes.length <;> rfl
      · rw [← cons]
        simp only [OnDemandSchema.push,List.getElem?_append]
        split
        · rfl
        · rename_i beyond
          rw [List.getElem?_eq_none (Nat.le_of_not_lt beyond)]
          cases i - schema.constraints.length <;> rfl
  · exact before

private theorem foldl_addMissing_presents {first schema : OnDemandSchema} (columns : List (String × ColumnType))
    (before : ∀ i name colType, first.columns[i]? = some (name,colType) → PresentsColumn first schema i name colType) :
    ∀ i name colType, first.columns[i]? = some (name,colType) →
    PresentsColumn first (columns.foldl addMissing schema) i name colType := by
  induction columns generalizing schema with
  | nil => exact before
  | cons column rest ih => exact ih (addMissing_presents column before)

private theorem merged_presents (i : Nat) (name : String) (colType : ColumnType)
    (there : storage.footer.schema.columns[i]? = some (name,colType)) :
    PresentsColumn storage.footer.schema storage.mergedSchema i name colType := by
  have known := foldl_addMissing_presents storage.memSchema.columns
    fun i name colType (there : storage.footer.schema.columns[i]? = some (name,colType)) =>
      (⟨⟨colType,there,Or.inl rfl⟩,rfl,rfl⟩ : PresentsColumn storage.footer.schema storage.footer.schema i name colType)
  unfold mergedSchema
  simp only
  split
  · exact foldl_addMissing_presents _ known i name colType there
  · exact known i name colType there

end Rows

def Stays (name : String) : Prop := (storage.footer.schema.getIndex name).isSome = true

/-- What a rewrite that writes a file leaves of the schema: all of it where no row is left, and
else what the names and the stored types tell. -/
theorem rewritten_schema_iff (storage : OnDemandStorage) (settings : RewriteContext) :
    (∀ i name colType, storage.footer.schema.columns[i]? = some (name,colType) →
      PresentsColumn storage.footer.schema storage.mergedSchema i name colType) ∧
    (∀ requireDelta filterMemDeletes file, storage.streamRewriteV4 settings requireDelta filterMemDeletes =
      .ok (some file) →
      (Presents (fun _ => True) storage.mergedSchema file.schema ↔
        ¬ storage.RowLeft settings.codecs filterMemDeletes ∨ Rebuildable (fun _ => True) storage.mergedSchema)) ∧
    ∀ file, storage.rewriteV4DropColumns settings = .ok (some file) →
      (Presents storage.Stays storage.memSchema file.schema ↔
        ¬ storage.RowStored settings.codecs ∨ Rebuildable storage.Stays storage.memSchema) :=
  ⟨storage.merged_presents,fun _ _ _ ok => storage.stream_presents _ ok,fun _ ok => storage.dropColumns_presents _ ok⟩

end OnDemandStorage

def zeroEncoder : VectorEncoder where
  encodeVector codec values := (codec.rowWidth values.length).map fun width => List.replicate width 0
  width := by
    intro codec values bytes ok
    obtain ⟨width,known,rfl⟩ := map_eq_ok.mp ok
    rw [known,List.length_replicate]
  zeros := by
    intro codec count positive
    rw [List.length_replicate]
    have padded : turboPaddedDim count = .ok count.nextPowerOfTwo := if_neg (Nat.ne_of_gt positive)
    cases codec <;> simp [VectorCodec.rowWidth,padded,Except.map,bind,Except.bind,pure,Except.pure]

def plainContext : RewriteContext := ⟨storing,zeroEncoder,fun _ _ dim => .ok (List.replicate dim 0),plainOptions,1024⟩

def pricesGroup : Except WriteFault WrittenGroup :=
  writeStreamedV4RowGroup storing plainOptions 256 [("price",.decimal128),("note",.string)] [1,2]
    [.binary [0,16,32] (List.replicate 32 0),.string [0,1,2] [97,98]] [[0],[0]] 0 2 true []

def pricesSchema (logical : Option LogicalType) : OnDemandSchema :=
  ((OnDemandSchema.new.addColumn "price" .decimal128).1.addColumn "note" .string).1.setLogicalType 0 logical

def prices (logical : Option LogicalType) (memSchema : OnDemandSchema) : OnDemandStorage where
  footer := ⟨pricesSchema logical,(pricesGroup.toOption.map WrittenGroup.rgMeta).toList,[],[],[]⟩
  readAt := fun _ => (pricesGroup.toOption.map WrittenGroup.bytes).getD []
  memSchema := memSchema
  deltaData := none
  updates := fun _ _ => none
  deleteBitmap := fun _ => false
  idToIdx := some fun id => if id = 1 then some 0 else if id = 2 then some 1 else none
  deleted := [2]

def footerSchema (outcome : Except RewriteFault (Option RewrittenFile)) : Option OnDemandSchema :=
  match outcome with
  | .ok (some file) => some file.schema
  | _ => none

private theorem footerSchema_some {outcome : Except RewriteFault (Option RewrittenFile)} {schema : OnDemandSchema}
    (written : footerSchema outcome = some schema) : ∃ file, outcome = .ok (some file) ∧ file.schema = schema := by
  unfold footerSchema at written
  split at written
  · rename_i file
    exact ⟨file,rfl,Option.some.inj written⟩
  · cases written

private theorem footerSchema_logical (outcome : Except RewriteFault (Option RewrittenFile))
    (logical : Option LogicalType)
    (written : (footerSchema outcome).map (fun schema => schema.logicalType 0) = some logical) :
    ∃ file, outcome = .ok (some file) ∧ file.schema.logicalType 0 = logical := by
  obtain ⟨schema,found,same⟩ := Option.map_eq_some_iff.mp written
  obtain ⟨file,ok,rfl⟩ := footerSchema_some found
  exact ⟨file,ok,same⟩

/-- After a delete the price is no longer a decimal of ten digits. -/
theorem rewrite_forgets_precision : ∃ file,
    (prices (some (.decimal 10 2)) (pricesSchema (some (.decimal 10 2)))).streamRewriteV4 plainContext false true =
    .ok (some file) ∧
      ¬ Presents (fun _ => True) (prices (some (.decimal 10 2)) (pricesSchema (some (.decimal 10 2)))).mergedSchema
        file.schema := by
  obtain ⟨file,ok,forgotten⟩ := footerSchema_logical
    ((prices (some (.decimal 10 2)) (pricesSchema (some (.decimal 10 2)))).streamRewriteV4 plainContext false true) none
      (by decide +kernel)
  refine ⟨file,ok,fun presents => ?_⟩
  have known := (presents.columns 0 "price" .decimal128 (by decide +kernel) trivial).logicalType
  rw [forgotten] at known
  exact absurd known (by decide +kernel)

/-- Without a logical type the table is as before; dropping its price leaves the note as it is. -/
theorem plain_prices_rewritten :
    (∃ file, (prices none (pricesSchema none)).streamRewriteV4 plainContext false true = .ok (some file) ∧
      Presents (fun _ => True) (prices none (pricesSchema none)).mergedSchema file.schema) ∧
    ∃ file, (prices (some (.decimal 10 2)) (OnDemandSchema.new.addColumn "note" .string).1).rewriteV4DropColumns
      plainContext = .ok (some file) ∧
      Presents (prices (some (.decimal 10 2)) (OnDemandSchema.new.addColumn "note" .string).1).Stays
        (OnDemandSchema.new.addColumn "note" .string).1 file.schema := by
  constructor
  · obtain ⟨file,ok,_⟩ := footerSchema_logical ((prices none (pricesSchema none)).streamRewriteV4 plainContext false
      true) none (by decide +kernel)
    refine ⟨file,ok,((OnDemandStorage.rewritten_schema_iff _ _).2.1 _ _ _ ok).mpr
      (Or.inr fun i name colType there _ => ?_)⟩
    match i with
    | 0 => cases there; exact ⟨by decide +kernel,by decide +kernel,nofun⟩
    | 1 => cases there; exact ⟨by decide +kernel,by decide +kernel,nofun⟩
    | _ + 2 => cases there
  · obtain ⟨file,ok,_⟩ := footerSchema_logical
      ((prices (some (.decimal 10 2)) (OnDemandSchema.new.addColumn "note" .string).1).rewriteV4DropColumns
        plainContext) none (by decide +kernel)
    refine ⟨file,ok,((OnDemandStorage.rewritten_schema_iff _ _).2.2 _ ok).mpr (Or.inr fun i name colType there _ => ?_)⟩
    match i with
    | 0 => cases there; exact ⟨by decide +kernel,by decide +kernel,nofun⟩
    | _ + 1 => cases there

end ApexBase.GroupFile
