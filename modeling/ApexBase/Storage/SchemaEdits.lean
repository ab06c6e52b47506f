import ApexBase.Storage.Schema

/-! The schemas that the methods build: what holds of their columns, of the index of the names and
of the derivations. -/
namespace ApexBase.Storage.Schema
open Data Column Library Library.Wire

def Placed (schema : OnDemandSchema) : Prop :=
  ∀ name i, schema.nameToIdx name = some i → (schema.columns[i]?).map (·.1) = some name

section Placed

variable {schema next : OnDemandSchema} {name : String} {dtype : ColumnType} {cons : ColumnConstraints}

theorem placed_new : Placed .new := nofun

theorem placed_push (placed : Placed schema) : Placed (schema.push name dtype cons) := by
  intro other i found
  by_cases same : other = name
  · subst same
    simp only [OnDemandSchema.push,Function.update_self,Option.some.injEq] at found
    subst found
    simp [OnDemandSchema.push]
  · simp only [OnDemandSchema.push,Function.update_of_ne same] at found
    have before := placed other i found
    obtain ⟨column,there,named⟩ := Option.map_eq_some_iff.mp before
    obtain ⟨inside,_⟩ := List.getElem?_eq_some_iff.mp there
    rw [OnDemandSchema.push,List.getElem?_append_left inside]
    exact before

theorem placed_addColumn (placed : Placed schema) (name : String) (dtype : ColumnType) :
    Placed (schema.addColumn name dtype).1 := by
  unfold OnDemandSchema.addColumn
  split
  · exact placed
  · exact placed_push placed

theorem indexOr_ok {message : String} {i : Nat} (ok : schema.indexOr name message = .ok i) :
    schema.nameToIdx name = some i := by
  unfold OnDemandSchema.indexOr OnDemandSchema.getIndex at ok
  split at ok
  · cases ok
    assumption
  · cases ok

theorem columnType_ok {i : Nat} (ok : schema.columnType i = .ok dtype) :
    ∃ column, schema.columns[i]? = some column ∧ column.2 = dtype := by
  unfold OnDemandSchema.columnType at ok
  split at ok
  · rename_i column found
    cases ok
    exact ⟨column,found,rfl⟩
  · cases ok

end Placed

structure Supported (schema : OnDemandSchema) (source target : String) : Prop where
  differ : source ≠ target
  source : ∃ i column, schema.nameToIdx source = some i ∧ schema.columns[i]? = some column ∧
    OnDemandSchema.isSource column.2 = true
  target : ∃ i column, schema.nameToIdx target = some i ∧ schema.columns[i]? = some column ∧
    OnDemandSchema.isTarget column.2 = true

section Derivations

variable {schema next : OnDemandSchema} {source target : String} {codecVersion : UInt16}

theorem addVectorDerivation_ok (supported : Supported schema source target)
    (free : ∀ derivation ∈ schema.vectorDerivations, derivation.target ≠ target) :
    schema.addVectorDerivation source target codecVersion =
      .ok {schema with vectorDerivations := schema.vectorDerivations ++ [⟨source,target,codecVersion⟩]} := by
  obtain ⟨i,first,indexed,there,isSource⟩ := supported.source
  obtain ⟨j,second,found,here,isTarget⟩ := supported.target
  have unused : (schema.vectorDerivations.any fun derivation => derivation.target == target) =
    false := by simpa using free
  simp [OnDemandSchema.addVectorDerivation,if_neg supported.differ,OnDemandSchema.indexOr,OnDemandSchema.getIndex,
    indexed,found,
    OnDemandSchema.columnType,there,here,isSource,isTarget,unused,bind,Except.bind]

theorem addVectorDerivation_cases (ok : schema.addVectorDerivation source target codecVersion = .ok next) :
    Supported schema source target ∧ (∀ derivation ∈ schema.vectorDerivations, derivation.target ≠ target) ∧
      next = {schema with vectorDerivations := schema.vectorDerivations ++ [⟨source,target,codecVersion⟩]} := by
  unfold OnDemandSchema.addVectorDerivation at ok
  split at ok
  · cases ok
  · rename_i differ
    obtain ⟨i,indexed,ok⟩ := bind_eq_ok.mp ok
    obtain ⟨j,found,ok⟩ := bind_eq_ok.mp ok
    obtain ⟨sourceType,typed,ok⟩ := bind_eq_ok.mp ok
    split at ok
    · cases ok
    · rename_i isSource
      obtain ⟨targetType,typedTarget,ok⟩ := bind_eq_ok.mp ok
      split at ok
      · cases ok
      · rename_i isTarget
        split at ok
        · cases ok
        · rename_i free
          obtain ⟨column,there,rfl⟩ := columnType_ok typed
          obtain ⟨other,here,rfl⟩ := columnType_ok typedTarget
          refine ⟨⟨differ,⟨i,column,indexOr_ok indexed,there,by simpa using isSource⟩,
            ⟨j,other,indexOr_ok found,here,by simpa using isTarget⟩⟩,
            by simpa using free,(Except.ok.inj ok).symm⟩

theorem addVectorDerivation_safe (placed : Placed schema) :
    schema.addVectorDerivation source target codecVersion ≠ .error .panicked := by
  have inside {name message : String} {i : Nat} (found : schema.indexOr name message = .ok i) : ∃ dtype,
    schema.columnType i = .ok dtype := by
    obtain ⟨column,there,_⟩ := Option.map_eq_some_iff.mp (placed name i (indexOr_ok found))
    exact ⟨column.2,by rw [OnDemandSchema.columnType,there]⟩
  have missing {name message : String} {failure : Failure} (failed : schema.indexOr name message =
    .error failure) : failure ≠ .panicked := by
    unfold OnDemandSchema.indexOr at failed
    split at failed <;> cases failed
    nofun
  unfold OnDemandSchema.addVectorDerivation
  split
  · nofun
  · cases first : schema.indexOr source s!"source vector column '{source}' not found" with
    | error failure => exact fun same => missing first (Except.error.inj same)
    | ok i =>
      cases second : schema.indexOr target s!"quantized vector target column '{target}' not found" with
      | error failure => exact fun same => missing second (Except.error.inj same)
      | ok j =>
        obtain ⟨sourceType,typed⟩ := inside first
        obtain ⟨targetType,typedTarget⟩ := inside second
        simp only [bind,Except.bind,typed,typedTarget]
        split
        · nofun
        · split
          · nofun
          · split <;> nofun

end Derivations

def Indexed (schema : OnDemandSchema) : Prop :=
  ∀ i column, schema.columns[i]? = some column → schema.nameToIdx column.1 = some i

structure Valid (schema : OnDemandSchema) : Prop where
  supported : ∀ derivation ∈ schema.vectorDerivations, Supported schema derivation.source derivation.target
  targets : (schema.vectorDerivations.map VectorDerivation.target).Nodup

structure Wf (schema : OnDemandSchema) : Prop where
  constraints : schema.constraints.length = schema.columns.length
  logicalTypes : schema.logicalTypes.length = schema.columns.length
  placed : Placed schema
  valid : Indexed schema → Valid schema

theorem indexed_new : Indexed .new := nofun

theorem indexed_addColumn {schema : OnDemandSchema} (indexed : Indexed schema) (name : String) (dtype : ColumnType) :
    Indexed (schema.addColumn name dtype).1 := by
  unfold OnDemandSchema.addColumn
  split
  · exact indexed
  · rename_i fresh
    intro i column there
    rcases Nat.lt_or_ge i schema.columns.length with old | new
    · rw [OnDemandSchema.push,List.getElem?_append_left old] at there
      have found := indexed i column there
      have different : column.1 ≠ name := by
        intro same
        rw [same,fresh] at found
        cases found
      simp only [OnDemandSchema.push,Function.update_of_ne different]
      exact found
    · rw [OnDemandSchema.push,List.getElem?_append_right new] at there
      obtain ⟨inside,same⟩ := List.getElem?_eq_some_iff.mp there
      rw [List.length_singleton] at inside
      have last : i = schema.columns.length := by omega
      subst last
      rw [List.getElem_singleton] at same
      subst same
      simp only [OnDemandSchema.push,Function.update_self]

theorem Indexed.nodup {schema : OnDemandSchema} (indexed : Indexed schema) : (schema.columns.map (·.1)).Nodup := by
  refine List.pairwise_iff_getElem.mpr fun i j iIn jIn less same => ?_
  rw [List.length_map] at iIn jIn
  rw [List.getElem_map,List.getElem_map] at same
  have first := indexed i _ (List.getElem?_eq_getElem iIn)
  have second := indexed j _ (List.getElem?_eq_getElem jIn)
  rw [same,second] at first
  have equal := Option.some.inj first
  omega

theorem Indexed.unique {first second : OnDemandSchema} (firstIndexed : Indexed first) (secondIndexed : Indexed second)
    (firstPlaced : Placed first) (secondPlaced : Placed second) (columns : first.columns = second.columns) :
    first.nameToIdx = second.nameToIdx := by
  have agree {left right : OnDemandSchema} (placed : Placed left) (indexed : Indexed right) (same : left.columns =
    right.columns)
      (name : String) (i : Nat) (found : left.nameToIdx name = some i) : right.nameToIdx name = some i := by
    obtain ⟨column,there,rfl⟩ := Option.map_eq_some_iff.mp (placed name i found)
    rw [same] at there
    exact indexed i column there
  funext name
  cases found : first.nameToIdx name with
  | some i => exact (agree firstPlaced secondIndexed columns name i found).symm
  | none =>
    cases other : second.nameToIdx name with
    | none => rfl
    | some i =>
      rw [agree secondPlaced firstIndexed columns.symm name i other] at found
      cases found

theorem addColumn_distinct {schema : OnDemandSchema} {columns : List (String × ColumnType)} (placed : Placed schema)
    (distinct : ((schema.columns ++ columns).map (·.1)).Nodup) :
    let added := columns.foldl (fun schema column => (schema.addColumn column.1 column.2).1) schema
    added.columns = schema.columns ++ columns ∧ added.logicalTypes = schema.logicalTypes ++
    List.replicate columns.length none ∧
      added.constraints = schema.constraints ++ List.replicate columns.length ({} : ColumnConstraints) ∧
      added.vectorDerivations = schema.vectorDerivations := by
  induction columns generalizing schema with
  | nil => simp
  | cons column rest ih =>
    have fresh : schema.nameToIdx column.1 = none := by
      cases found : schema.nameToIdx column.1 with
      | none => rfl
      | some i =>
        obtain ⟨other,there,name⟩ := Option.map_eq_some_iff.mp (placed _ _ found)
        rw [List.map_append] at distinct
        have apart := (List.nodup_append.mp distinct).2.2 other.1
          (List.mem_map_of_mem (List.mem_of_getElem? there)) column.1
          (List.mem_map_of_mem List.mem_cons_self)
        exact absurd name apart
    have pushed : (schema.addColumn column.1 column.2).1 = schema.push column.1 column.2
      {} := by rw [OnDemandSchema.addColumn,fresh]
    have step := ih (placed_push placed : Placed (schema.push column.1 column.2 {})) (by
      simpa only [OnDemandSchema.push,List.append_assoc,List.singleton_append] using distinct)
    simp only [List.foldl_cons,pushed]
    simpa only [OnDemandSchema.push,List.append_assoc,List.singleton_append,List.length_cons,
      List.replicate_succ] using step

theorem addColumn_keeps {schema : OnDemandSchema} (columns : List (String × ColumnType)) (placed : Placed schema)
    (indexed : Indexed schema) :
    Placed (columns.foldl (fun schema column => (schema.addColumn column.1 column.2).1) schema) ∧
      Indexed (columns.foldl (fun schema column => (schema.addColumn column.1 column.2).1) schema) := by
  induction columns generalizing schema with
  | nil => exact ⟨placed,indexed⟩
  | cons column rest ih =>
    exact ih (placed_addColumn placed column.1 column.2) (indexed_addColumn indexed column.1 column.2)

section Built

variable {schema next : OnDemandSchema}

theorem wf_new : Wf .new := ⟨rfl,rfl,placed_new,fun _ => ⟨nofun,.nil⟩⟩

private theorem Supported.mono {source target : String} (supported : Supported schema source target)
    (columns : ∀ (i : Nat) column, schema.columns[i]? = some column → next.columns[i]? = some column)
    (names : ∀ name i, schema.nameToIdx name = some i → next.nameToIdx name = some i) :
    Supported next source target := by
  obtain ⟨i,column,found,there,isSource⟩ := supported.source
  obtain ⟨j,other,indexed,here,isTarget⟩ := supported.target
  exact ⟨supported.differ,⟨i,column,names _ _ found,columns _ _ there,isSource⟩,
    ⟨j,other,names _ _ indexed,columns _ _ here,isTarget⟩⟩

private theorem Valid.keep (valid : Valid schema) (columns : next.columns = schema.columns)
    (names : next.nameToIdx = schema.nameToIdx)
    (fewer : next.vectorDerivations.Sublist schema.vectorDerivations) : Valid next where
  supported := fun derivation member => (valid.supported derivation (fewer.subset member)).mono
    (fun i column there => by rw [columns]; exact there) fun name i found => by rw [names]; exact found
  targets := valid.targets.sublist (fewer.map _)

section
variable (wf : Wf schema)
include wf

private theorem wf_push {name : String} {dtype : ColumnType} {cons : ColumnConstraints}
    (fresh : schema.nameToIdx name = none) : Wf (schema.push name dtype cons) := by
  have columns (i : Nat) (column : String × ColumnType) (there : schema.columns[i]? = some column) :
      (schema.push name dtype cons).columns[i]? = some column := by
    obtain ⟨inside,_⟩ := List.getElem?_eq_some_iff.mp there
    rw [OnDemandSchema.push,List.getElem?_append_left inside]
    exact there
  have names (other : String) (i : Nat) (found : schema.nameToIdx other = some i) :
      (schema.push name dtype cons).nameToIdx other = some i := by
    have different : other ≠ name := by
      rintro rfl
      rw [fresh] at found
      cases found
    simp only [OnDemandSchema.push,Function.update_of_ne different]
    exact found
  refine ⟨?_,?_,placed_push wf.placed,fun indexed => ?_⟩
  · simp [OnDemandSchema.push,wf.constraints]
  · simp [OnDemandSchema.push,wf.logicalTypes]
  · have before : Indexed schema := by
      intro i column there
      have found := indexed i column (columns i column there)
      by_cases same : column.1 = name
      · -- the new column would be found in place of the old one
        obtain ⟨inside,_⟩ := List.getElem?_eq_some_iff.mp there
        rw [same] at found
        simp only [OnDemandSchema.push,Function.update_self,Option.some.injEq] at found
        omega
      · simpa only [OnDemandSchema.push,Function.update_of_ne same] using found
    have valid := wf.valid before
    exact ⟨fun derivation member => (valid.supported derivation member).mono columns names,valid.targets⟩

theorem wf_addColumn (name : String) (dtype : ColumnType) : Wf (schema.addColumn name dtype).1 := by
  unfold OnDemandSchema.addColumn
  split
  · exact wf
  · rename_i fresh
    exact wf_push wf fresh

private theorem wf_addColumnWithConstraints (name : String) (dtype : ColumnType) (cons : ColumnConstraints) :
    Wf (schema.addColumnWithConstraints name dtype cons).1 := by
  unfold OnDemandSchema.addColumnWithConstraints
  split
  · refine ⟨?_,wf.logicalTypes,wf.placed,fun indexed => (wf.valid indexed).keep rfl rfl (List.Sublist.refl _)⟩
    simp only [List.length_set]
    exact wf.constraints
  · rename_i fresh
    exact wf_push wf fresh

theorem wf_setLogicalType (index : Nat) (logical : Option LogicalType) : Wf (schema.setLogicalType index logical) := by
  unfold OnDemandSchema.setLogicalType
  split
  · exact wf
  · refine ⟨wf.constraints,?_,wf.placed,fun indexed => (wf.valid indexed).keep rfl rfl (List.Sublist.refl _)⟩
    simp [wf.logicalTypes]

theorem wf_addVectorDerivation {source target : String} {codecVersion : UInt16}
    (ok : schema.addVectorDerivation source target codecVersion = .ok next) : Wf next := by
  obtain ⟨supported,free,rfl⟩ := addVectorDerivation_cases ok
  refine ⟨wf.constraints,wf.logicalTypes,wf.placed,fun indexed => ?_⟩
  obtain ⟨before,targets⟩ := wf.valid indexed
  refine ⟨fun derivation member => ?_,?_⟩
  · rcases List.mem_append.mp member with old | new
    · exact (before derivation old).mono (fun _ _ there => there) fun _ _ found => found
    · rw [List.mem_singleton.mp new]
      exact supported.mono (fun _ _ there => there) fun _ _ found => found
  · rw [List.map_append]
    refine List.nodup_append.mpr ⟨targets,List.nodup_singleton _,?_⟩
    intro name member other last
    obtain ⟨derivation,there,rfl⟩ := List.mem_map.mp member
    rw [List.mem_singleton.mp last]
    exact free derivation there

private theorem wf_removeVectorDerivation (target : String) : Wf (schema.removeVectorDerivation target) :=
  ⟨wf.constraints,wf.logicalTypes,wf.placed,fun indexed => (wf.valid indexed).keep rfl rfl List.filter_sublist⟩

end

private theorem renamed_inj {oldName newName x y : String} {i j : Nat}
    (free : newName ≠ oldName → schema.nameToIdx newName = none) (xFound : schema.nameToIdx x = some i)
    (yFound : schema.nameToIdx y = some j)
    (same : OnDemandSchema.renamed oldName newName x = OnDemandSchema.renamed oldName newName y) : x = y := by
  have other (name : String) (k : Nat) (found : schema.nameToIdx name = some k) (different : name ≠ oldName) : name ≠
    newName := by
    rintro rfl
    rw [free different] at found
    cases found
  unfold OnDemandSchema.renamed at same
  split at same
  · split at same
    · rename_i isX isY
      rw [isX,isY]
    · rename_i isY
      exact absurd same.symm (other y j yFound isY)
  · split at same
    · rename_i isX _
      exact absurd same (other x i xFound isX)
    · exact same

private theorem wf_renameColumn (wf : Wf schema) {oldName newName : String}
    (ok : schema.renameColumn oldName newName = some next) :
    Wf next := by
  obtain ⟨idx,found,rfl⟩ := Option.map_eq_some_iff.mp ok
  obtain ⟨renamedColumn,there,named⟩ := Option.map_eq_some_iff.mp (wf.placed oldName idx found)
  have elsewhere (i : Nat) (other : i ≠ idx) :
      (schema.columns.modify idx fun column => (newName,column.2))[i]? = schema.columns[i]? := by
    simp [Ne.symm other]
  have here : (schema.columns.modify idx fun column => (newName,column.2))[idx]? = some (newName,renamedColumn.2) := by
    simp [there]
  have index (name : String) (i : Nat) (is : schema.nameToIdx name = some i) (different : name ≠
    oldName) : i ≠ idx := by
    rintro rfl
    have column := wf.placed name i is
    rw [there] at column
    exact different ((Option.some.inj column).symm.trans named)
  constructor
  case constraints => simpa using wf.constraints
  case logicalTypes => simpa using wf.logicalTypes
  case placed =>
    intro name i is
    simp only at is ⊢
    by_cases new : name = newName
    · subst new
      rw [Function.update_self] at is
      cases is
      rw [here]
      rfl
    · rw [Function.update_of_ne new] at is
      by_cases old : name = oldName
      · subst old
        rw [Function.update_self] at is
        cases is
      · rw [Function.update_of_ne old] at is
        rw [elsewhere i (index name i is old)]
        exact wf.placed name i is
  case valid =>
    intro indexed
    have before : Indexed schema := by
      intro i column is
      by_cases same : i = idx
      · subst same
        rw [there] at is
        cases is
        rw [named]
        exact found
      · have kept := indexed i column (by rw [elsewhere i same]; exact is)
        simp only at kept
        by_cases new : column.1 = newName
        · rw [new,Function.update_self] at kept
          exact absurd (Option.some.inj kept).symm same
        · rw [Function.update_of_ne new] at kept
          by_cases old : column.1 = oldName
          · rw [old,Function.update_self] at kept
            cases kept
          · rwa [Function.update_of_ne old] at kept
    have free (different : newName ≠ oldName) : schema.nameToIdx newName = none := by
      cases taken : schema.nameToIdx newName with
      | none => rfl
      | some j =>
        have other := index newName j taken different
        obtain ⟨column,is,name⟩ := Option.map_eq_some_iff.mp (wf.placed newName j taken)
        have kept := indexed j column (by rw [elsewhere j other]; exact is)
        simp only [name,Function.update_self] at kept
        exact absurd (Option.some.inj kept).symm other
    -- the column of a name is the one of its new name, with the type it had
    have follows (name : String) (i : Nat) (column : String × ColumnType) (is : schema.nameToIdx name = some i)
        (at_ : schema.columns[i]? = some column) : ∃ kept,
        Function.update (Function.update schema.nameToIdx oldName none) newName (some idx)
          (OnDemandSchema.renamed oldName newName name) = some i ∧
        (schema.columns.modify idx fun column => (newName,column.2))[i]? = some kept ∧ kept.2 = column.2 := by
      unfold OnDemandSchema.renamed
      split
      · rename_i old
        subst old
        rw [found] at is
        cases is
        rw [there] at at_
        cases at_
        exact ⟨_,Function.update_self ..,here,rfl⟩
      · rename_i old
        have new : name ≠ newName := by
          rintro rfl
          rw [free old] at is
          cases is
        refine ⟨column,?_,?_,rfl⟩
        · rw [Function.update_of_ne new,Function.update_of_ne old]
          exact is
        · rw [elsewhere i (index name i is old)]
          exact at_
    obtain ⟨supported,targets⟩ := wf.valid before
    refine ⟨fun derivation member => ?_,?_⟩
    · obtain ⟨original,was,rfl⟩ := List.mem_map.mp member
      obtain ⟨differ,⟨i,column,sourceFound,sourceThere,isSource⟩,⟨j,other,targetFound,targetThere,isTarget⟩⟩ :=
        supported original was
      obtain ⟨sourceKept,sourceIs,sourceAt,sourceType⟩ := follows _ i column sourceFound sourceThere
      obtain ⟨targetKept,targetIs,targetAt,targetType⟩ := follows _ j other targetFound targetThere
      refine ⟨fun same => differ (renamed_inj free sourceFound targetFound same),?_,?_⟩
      · exact ⟨i,sourceKept,sourceIs,sourceAt,by rw [sourceType]; exact isSource⟩
      · exact ⟨j,targetKept,targetIs,targetAt,by rw [targetType]; exact isTarget⟩
    · simp only [List.map_map]
      have maps : (VectorDerivation.target ∘ fun derivation : VectorDerivation => {derivation with
          source := OnDemandSchema.renamed oldName newName derivation.source
          target := OnDemandSchema.renamed oldName newName derivation.target}) =
          OnDemandSchema.renamed oldName newName ∘ VectorDerivation.target := rfl
      rw [maps,← List.map_map]
      refine List.Nodup.map_on ?_ targets
      intro x xIn y yIn same
      obtain ⟨dx,inX,rfl⟩ := List.mem_map.mp xIn
      obtain ⟨dy,inY,rfl⟩ := List.mem_map.mp yIn
      obtain ⟨i,_,xFound,_⟩ := (supported dx inX).target
      obtain ⟨j,_,yFound,_⟩ := (supported dy inY).target
      exact renamed_inj free xFound yFound same

theorem built_wf {edits : List Edit} (built : Built edits schema) : Wf schema := by
  refine Run.invariant (P := fun _ schema => Wf schema) wf_new ?_ built
  intro _ before change event after _ wf _ stepped
  obtain ⟨result,changed,same⟩ := Option.map_eq_some_iff.mp stepped
  cases same
  cases change with
  | addColumn name dtype => cases changed; exact wf_addColumn wf name dtype
  | addColumnWithConstraints name dtype cons => cases changed; exact wf_addColumnWithConstraints wf name dtype cons
  | setLogicalType index logical => cases changed; exact wf_setLogicalType wf index logical
  | addVectorDerivation source target codecVersion =>
    change (before.addVectorDerivation source target codecVersion).toOption = some after at changed
    cases added : before.addVectorDerivation source target codecVersion with
    | error failure =>
      rw [added] at changed
      cases changed
    | ok next =>
      rw [added] at changed
      cases changed
      exact wf_addVectorDerivation wf added
  | removeVectorDerivation target => cases changed; exact wf_removeVectorDerivation wf target
  | renameColumn oldName newName => exact wf_renameColumn wf changed

end Built

end ApexBase.Storage.Schema
