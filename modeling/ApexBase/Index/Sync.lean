import ApexBase.Index.Manager

/-! Keeping the indexes of a table in step with its rows. -/
namespace ApexBase.Index
open Data Library Library.Assoc

/-- A table as far as its indexes go: the index files, the manager in memory and the live rows. -/
structure Indexed where
  files : IndexFiles
  manager : IndexManager
  rows : Map UInt64 Row

inductive Call
  | insert (rowId : UInt64) (values : Row)
  | delete (rowId : UInt64)
  | update (rowId : UInt64) (values : Row)
  | save
  /-- The manager is dropped, and a new one loaded when it is needed next. -/
  | reload
  /-- `rebuild_all` and an insertion of every live row. -/
  | rebuild

section Run
variable (json : JsonCodec)

def IndexManager.insertAll (files : IndexFiles) : List (Sigma fun _ : UInt64 => Row) → IndexManager →
    Except IoError Unit × IndexManager
  | [],manager => (.ok (),manager)
  | row :: rest,manager =>
    match manager.onInsert json files row.1 row.2 with
    | (.error error,manager) => (.error error,manager)
    | (.ok (),manager) => insertAll files rest manager

/-- One call with the row's true values. A call that fails leaves the rows as they are. -/
def exec (state : Indexed) : Call → Option (Unit × Indexed)
  | .insert rowId values =>
    if (state.rows.lookup rowId).isSome then none
    else
      match state.manager.onInsert json state.files rowId values with
      | (.ok (),manager) => some ((),{state with manager,rows := state.rows.insert rowId values})
      | (.error _,manager) => some ((),{state with manager})
  | .delete rowId =>
    (state.rows.lookup rowId).map fun values =>
      ((),{state with
        manager := (state.manager.onDelete json state.files rowId values).2,rows := state.rows.erase rowId})
  | .update rowId values =>
    (state.rows.lookup rowId).map fun old =>
      match state.manager.onUpdate json rowId old values with
      | (.ok (),manager) => ((),{state with manager,rows := state.rows.insert rowId values})
      | (.error _,manager) => ((),{state with manager})
  | .save =>
    let (files,manager) := state.manager.save state.files
    some ((),{state with files,manager})
  | .reload => some ((),{state with manager := .load state.manager.inMemory state.files})
  | .rebuild => some ((),{state with
    manager := ((state.manager.rebuildAll state.files).2.insertAll json state.files state.rows.entries).2})

def keyOf (def_ : IndexMeta) (live : UInt64 → Option Row) (rowId : UInt64) : Option IndexKey :=
  (live rowId).bind (compositeKey json def_.effectiveColumns)

def posted (def_ : IndexMeta) (live : UInt64 → Option Row) (key : IndexKey) (rowId : UInt64) : Bool :=
  (keyOf json def_ live rowId).any fun own => def_.indexType.same own key

/-- No stale, missing or duplicate posting: a row stands once under its key and nowhere else. -/
def InSync (def_ : IndexMeta) (index : IndexInstance) (live : UInt64 → Option Row) : Prop :=
  ∀ key, def_.indexType.accepts key = true → ∀ rowId, (index.get key).count rowId =
    if posted json def_ live key rowId then 1 else 0

/-- The key is one that the index can tell apart, and no other row has it if the index is unique. -/
def admits (def_ : IndexMeta) (rows : Map UInt64 Row) (rowId : UInt64) (values : Row) : Bool :=
  match compositeKey json def_.effectiveColumns values with
  | none => true
  | some key => def_.indexType.accepts key &&
      (!def_.unique || (rows.entries.all fun row => row.1 == rowId ||
        !posted json def_ (fun rowId => rows.lookup rowId) key row.1))

/-- An update reaches the index, or leaves its key alone. -/
def reaches (def_ : IndexMeta) (instances : Map String IndexInstance) (name : String) (old new : Row) : Bool :=
  if IndexManager.changed json def_.effectiveColumns old new then (instances.lookup name).isSome
  else
    match compositeKey json def_.effectiveColumns old,compositeKey json def_.effectiveColumns new with
    | some before,some after => def_.indexType.same before after
    | none,none => true
    | _,_ => false

def maintained (state : Indexed) : Call → Bool
  | .insert rowId values => state.manager.catalog.entries.all fun entry => admits json entry.2 state.rows rowId values
  | .update rowId values => state.manager.catalog.entries.all fun entry =>
    admits json entry.2 state.rows rowId values &&
      (((state.rows.lookup rowId).map fun old => reaches json entry.2 state.manager.instances entry.1 old
        values).getD true)
  | .reload => !state.manager.inMemory && !state.manager.dirty && (values state.manager.instances).all fun index =>
    !index.dirty
  | .delete _ | .save | .rebuild => true

end Run

variable {json : JsonCodec}

section Instance

variable {def_ : IndexMeta} {index : IndexInstance} {live : UInt64 → Option Row} {rowId : UInt64} {key : IndexKey}
    {values : Row}

structure Good (json : JsonCodec) (def_ : IndexMeta) (live : UInt64 → Option Row) (index : IndexInstance) : Prop where
  type : index.indexType = def_.indexType
  unique : index.unique = def_.unique
  distinct : Postings.Distinct def_.indexType.same (fun key => def_.indexType.accepts key = true) index.entries
  sync : InSync json def_ index live

theorem posted_update (new : Option Row) (key : IndexKey) (other : UInt64) :
    posted json def_ (Function.update live rowId new) key other =
      if other = rowId then
        (new.bind (compositeKey json def_.effectiveColumns)).any fun own => def_.indexType.same own key
      else posted json def_ live key other := by
  unfold posted keyOf
  rw [Function.update_apply]
  by_cases here : other = rowId
  · rw [if_pos here,if_pos here]
  · rw [if_neg here,if_neg here]

theorem posted_none (none_ : keyOf json def_ live rowId = none) (key : IndexKey) :
    posted json def_ live key rowId = false := by
  rw [posted,none_,Option.any_none]

theorem Good.get (good : Good json def_ live index) (key : IndexKey) :
    index.get key = Postings.ids def_.indexType.same index.entries key := by rw [IndexInstance.get,good.type]

theorem Good.keyless (good : Good json def_ live index) (before : keyOf json def_ live rowId = none) {new : Option Row}
    (after : new.bind (compositeKey json def_.effectiveColumns) = none) :
    Good json def_ (Function.update live rowId new) index := by
  refine ⟨good.type,good.unique,good.distinct,fun key accepted other => ?_⟩
  rw [good.sync key accepted other,posted_update,after,Option.any_none]
  by_cases here : other = rowId
  · rw [if_pos here,here,posted_none before]
  · rw [if_neg here]

theorem Good.insert (good : Good json def_ live index) (fresh : keyOf json def_ live rowId = none)
    (own : compositeKey json def_.effectiveColumns values = some key) (accepted : def_.indexType.accepts key = true)
    (alone : def_.unique = true → ∀ other, posted json def_ live key other = false) :
    ∃ next, index.insert key rowId = .ok next ∧ next.dirty = true ∧
    Good json def_ (Function.update live rowId (some values)) next := by
  have free : ¬ (index.unique && index.get key != []) = true := by
    rw [good.unique,Bool.and_eq_true,not_and]
    intro unique
    have none_ : index.get key = [] := by
      refine List.eq_nil_iff_forall_not_mem.mpr fun other member => ?_
      have count := good.sync key accepted other
      rw [alone unique other,if_neg Bool.false_ne_true] at count
      exact absurd member (List.count_eq_zero.mp count)
    rw [none_]
    exact Bool.false_ne_true
  refine ⟨_,if_neg free,rfl,good.type,good.unique,?_,fun other accepts x => ?_⟩
  · dsimp only
    rw [good.type]
    exact good.distinct.push (lawful _) accepted
  · unfold IndexInstance.get
    dsimp only
    rw [good.type,Postings.ids_push (lawful _) good.distinct accepted accepts,posted_update]
    have before := good.sync other accepts x
    rw [good.get] at before
    rw [Option.bind_some,own,Option.any_some]
    by_cases here : x = rowId
    · rw [if_pos here]
      rw [here,posted_none fresh,if_neg Bool.false_ne_true] at before
      rw [here]
      split
      · rw [List.count_append,before,List.count_singleton_self]
      · exact before
    · rw [if_neg here,← before]
      split
      · rw [List.count_append,List.count_singleton,beq_eq_false_iff_ne.mpr (Ne.symm here)]
        rfl
      · rfl

theorem remove_cases (key : IndexKey) (rowId : UInt64) (index : IndexInstance) :
    index.remove key rowId = index ∧ (Postings.remove index.indexType.same index.entries key rowId).2 = index.entries ∨
    index.remove key rowId = {index with
      entries := (Postings.remove index.indexType.same index.entries key rowId).2,entryCount :=
        index.entryCount - 1,dirty := true} := by
  unfold IndexInstance.remove
  split
  · rename_i entries removed
    rw [removed]
    exact .inr rfl
  · rename_i entries removed
    exact .inl ⟨rfl,Postings.remove_missed (by rw [removed])⟩

theorem remove_fields (key : IndexKey) (rowId : UInt64) (index : IndexInstance) :
    (index.remove key rowId).indexType = index.indexType ∧ (index.remove key rowId).unique = index.unique ∧
    (index.remove key rowId).entries = (Postings.remove index.indexType.same index.entries key rowId).2 := by
  rcases remove_cases key rowId index with ⟨same,entries⟩ | removed
  · rw [same]
    exact ⟨rfl,rfl,entries.symm⟩
  · rw [removed]
    exact ⟨rfl,rfl,rfl⟩

theorem Good.remove (good : Good json def_ live index) (own : keyOf json def_ live rowId = some key)
    (accepted : def_.indexType.accepts key = true) :
    Good json def_ (Function.update live rowId none) (index.remove key rowId) := by
  obtain ⟨type,unique,entries⟩ := remove_fields key rowId index
  rw [good.type] at type entries
  refine ⟨type,unique.trans good.unique,?_,fun other accepts x => ?_⟩
  · rw [entries]
    exact good.distinct.remove
  · have before := good.sync other accepts x
    rw [good.get] at before
    rw [IndexInstance.get,type,entries,Postings.count_remove (lawful _) good.distinct accepted accepts,before,
      posted_update,
      Option.bind_none,Option.any_none]
    by_cases here : x = rowId
    · rw [if_pos here,here,posted,own,Option.any_some]
      cases def_.indexType.same key other <;> simp
    · have other_ : ¬ (def_.indexType.same key other = true ∧ rowId = x) := fun both => here both.2.symm
      rw [if_neg here,if_neg other_,Nat.sub_zero]

theorem good_clear (type : index.indexType = def_.indexType) (unique : index.unique = def_.unique) :
    Good json def_ (fun _ => none) index.clear :=
  ⟨type,unique,⟨fun _ member => absurd member List.not_mem_nil,List.Pairwise.nil⟩,fun _ _ _ => rfl⟩

end Instance

section Manager

variable {files : IndexFiles} {live : UInt64 → Option Row} {rowId : UInt64} {name : String} {def_ : IndexMeta}
    {values : Row}

/-- The index that is loaded when it is not in memory. -/
def IndexFiles.stored (files : IndexFiles) (name : String) (def_ : IndexMeta) :
    IndexInstance := (files.indexes.lookup name).getD (.withPath def_)

/-- One index of the catalog, in memory or on disk. An instance that is not marked agrees with the file. -/
structure Part (json : JsonCodec) (files : IndexFiles) (live : UInt64 → Option Row) (name : String) (def_ : IndexMeta)
    (loaded : Option IndexInstance) : Prop where
  good : Good json def_ live (loaded.getD (files.stored name def_))
  type : (files.stored name def_).indexType = def_.indexType
  unique : (files.stored name def_).unique = def_.unique
  saved : ∀ index ∈ loaded, index.dirty = false → index.entries = (files.stored name def_).entries

theorem Part.keyless {loaded : Option IndexInstance} (part : Part json files live name def_ loaded)
    (before : keyOf json def_ live rowId = none) {new : Option Row}
    (after : new.bind (compositeKey json def_.effectiveColumns) = none) :
    Part json files (Function.update live rowId new) name def_ loaded :=
  ⟨part.good.keyless before after,part.type,part.unique,part.saved⟩

theorem lookup_setInstance (manager : IndexManager) (name other : String) (index : IndexInstance) :
    (manager.setInstance name index).instances.lookup other = if other = name then some index
      else manager.instances.lookup other :=
  lookup_insert_eq _ _ _ _

theorem keyOf_live (there : live rowId = some values) :
    keyOf json def_ live rowId = compositeKey json def_.effectiveColumns values := by
  rw [keyOf,there,Option.bind_some]

theorem keyOf_dead (absent : live rowId = none) : keyOf json def_ live rowId = none := by
  rw [keyOf,absent,Option.bind_none]

/-- A step of a loop: it succeeds and changes at most the instance of its own index. -/
structure Touches (name : String) (manager next : IndexManager) : Prop where
  rest : next = {manager with instances := next.instances}
  others : ∀ other, other ≠ name → next.instances.lookup other = manager.instances.lookup other

/-- The rule for the loops: what a step makes of its own index holds for all of them in the end. -/
theorem forEach_parts {P Q : String → IndexMeta → Option IndexInstance → Prop}
    (step : String → IndexMeta → IndexManager → Except IoError Unit × IndexManager) (defs : List (String × IndexMeta))
    (manager : IndexManager)
    (each : ∀ name def_ manager, (name,def_) ∈ defs → P name def_ (manager.instances.lookup name) →
      ∃ next, step name def_ manager = (.ok (),next) ∧ Touches name manager next ∧
      Q name def_ (next.instances.lookup name))
    (distinct : (defs.map Prod.fst).Nodup)
    (before : ∀ entry ∈ defs, P entry.1 entry.2 (manager.instances.lookup entry.1)) :
    ∃ next, IndexManager.forEach step defs manager = (.ok (),next) ∧ next = {manager with instances := next.instances} ∧
      (∀ entry ∈ defs, Q entry.1 entry.2 (next.instances.lookup entry.1)) ∧
      ∀ other, other ∉ defs.map Prod.fst → next.instances.lookup other = manager.instances.lookup other := by
  induction defs generalizing manager with
  | nil => exact ⟨manager,rfl,rfl,nofun,fun _ _ => rfl⟩
  | cons entry defs ih =>
    obtain ⟨name,def_⟩ := entry
    rw [List.map_cons,List.nodup_cons] at distinct
    obtain ⟨middle,stepped,touches,after⟩ :=
      each name def_ manager List.mem_cons_self (before (name,def_) List.mem_cons_self)
    have others : ∀ entry ∈ defs, P entry.1 entry.2 (middle.instances.lookup entry.1) := fun entry member => by
      rw [touches.others entry.1 fun same => distinct.1 (List.mem_map.mpr ⟨entry,member,same⟩)]
      exact before entry (List.mem_cons_of_mem _ member)
    obtain ⟨next,done,rest,kept,frame⟩ := ih middle (fun name def_ manager member =>
      each name def_ manager (List.mem_cons_of_mem _ member))
      distinct.2 others
    refine ⟨next,?_,?_,fun entry member => ?_,fun other outside => ?_⟩
    · rw [IndexManager.forEach,stepped]
      exact done
    · rw [rest,touches.rest]
    · rcases List.mem_cons.mp member with rfl | inside
      · rw [frame name distinct.1]
        exact after
      · exact kept entry inside
    · rw [List.map_cons,List.mem_cons,not_or] at outside
      rw [frame other outside.2,touches.others other outside.1]

theorem touches_refl (name : String) (manager : IndexManager) : Touches name manager manager := ⟨rfl,fun _ _ => rfl⟩

theorem touches_set (manager : IndexManager) (name : String) (index : IndexInstance) :
    Touches name manager (manager.setInstance name index) :=
  ⟨rfl,fun other different => by rw [lookup_setInstance,if_neg different]⟩

section
variable {loaded : Option IndexInstance} {key : IndexKey} (part : Part json files live name def_ loaded)
include part

theorem Part.remove (own : keyOf json def_ live rowId = some key) (accepted : def_.indexType.accepts key = true) :
    Part json files (Function.update live rowId none) name def_
      (some ((loaded.getD (files.stored name def_)).remove key rowId)) := by
  refine ⟨part.good.remove own accepted,part.type,part.unique,fun index there clean => ?_⟩
  cases there
  rcases remove_cases key rowId (loaded.getD (files.stored name def_)) with ⟨same,-⟩ | removed
  · rw [same] at clean ⊢
    cases loaded with
    | none => rfl
    | some index => exact part.saved index rfl clean
  · rw [removed] at clean
    cases clean

theorem Part.store (manager : IndexManager) (fresh : keyOf json def_ live rowId = none)
    (own : compositeKey json def_.effectiveColumns values = some key) (accepted : def_.indexType.accepts key = true)
    (alone : def_.unique = true → ∀ other, posted json def_ live key other = false) :
    ∃ next, manager.store name (loaded.getD (files.stored name def_)) key rowId = (.ok (),next) ∧
    Touches name manager next ∧
      Part json files (Function.update live rowId (some values)) name def_ (next.instances.lookup name) := by
  obtain ⟨index,inserted,dirty,good⟩ := part.good.insert fresh own accepted alone
  refine ⟨manager.setInstance name index,by rw [IndexManager.store,inserted],touches_set manager name index,?_⟩
  rw [lookup_setInstance,if_pos rfl]
  refine ⟨good,part.type,part.unique,fun other there clean => ?_⟩
  cases there
  rw [dirty] at clean
  cases clean

end

def Kept (json : JsonCodec) (files : IndexFiles) (manager : IndexManager) (live : UInt64 → Option Row) : Prop :=
  ∀ name def_, manager.catalog.lookup name = some def_ → Part json files live name def_ (manager.instances.lookup name)

variable {manager : IndexManager}

theorem mem_allIndexes : (name,def_) ∈ manager.allIndexes ↔ manager.catalog.lookup name = some def_ := by
  unfold IndexManager.allIndexes
  rw [AList.lookup,← Option.mem_def,List.mem_dlookup_iff manager.catalog.nodupKeys,List.mem_map]
  constructor
  · rintro ⟨⟨key,value⟩,member,same⟩
    cases same
    exact member
  · exact fun member => ⟨⟨name,def_⟩,member,rfl⟩

theorem nodup_allIndexes (manager : IndexManager) : (manager.allIndexes.map Prod.fst).Nodup := by
  unfold IndexManager.allIndexes
  rw [List.map_map]
  exact manager.catalog.nodupKeys

theorem nodup_seenIndexes (manager : IndexManager) (values : Row) : ((manager.seenIndexes values).map Prod.fst).Nodup :=
  (nodup_allIndexes manager).sublist (List.filter_sublist.map Prod.fst)

theorem unseen (held : manager.catalog.lookup name = some def_)
    (outside : name ∉ (manager.seenIndexes values).map Prod.fst) :
    compositeKey json def_.effectiveColumns values = none := by
  have nothing : ∀ column ∈ def_.effectiveColumns, values.lookup column = none := by
    intro column member
    rw [← Option.not_isSome_iff_eq_none]
    intro there
    refine outside (List.mem_map.mpr ⟨(name,def_),List.mem_filter.mpr ⟨mem_allIndexes.mpr held,?_⟩,rfl⟩)
    exact List.any_eq_true.mpr ⟨column,member,there⟩
  have some_ : def_.effectiveColumns ≠ [] := by
    unfold IndexMeta.effectiveColumns
    split
    · exact List.cons_ne_nil _ _
    · assumption
  unfold compositeKey
  split
  · rename_i column columns
    rw [columns] at nothing
    rw [nothing column List.mem_cons_self,Option.map_none]
  · cases columns : def_.effectiveColumns with
    | nil => exact absurd columns some_
    | cons column rest =>
      rw [columns] at nothing
      rw [List.mapM_cons,nothing column List.mem_cons_self]
      rfl

theorem kept_of_seen {next : IndexManager} {new : Option Row} (kept : Kept json files manager live)
    (rest : next = {manager with instances := next.instances})
    (seen : ∀ entry ∈ manager.seenIndexes values, Part json files (Function.update live rowId new) entry.1 entry.2
      (next.instances.lookup entry.1))
    (frame : ∀ other, other ∉ (manager.seenIndexes values).map Prod.fst → next.instances.lookup other =
      manager.instances.lookup other)
    (keyless : ∀ def_, compositeKey json def_.effectiveColumns values = none →
      keyOf json def_ live rowId = none ∧ new.bind (compositeKey json def_.effectiveColumns) = none) :
    Kept json files next (Function.update live rowId new) := by
  intro name def_ held
  rw [rest] at held
  by_cases inside : name ∈ (manager.seenIndexes values).map Prod.fst
  · obtain ⟨⟨own,other⟩,member,same⟩ := List.mem_map.mp inside
    dsimp only at same
    subst same
    have again := mem_allIndexes.mp (List.mem_of_mem_filter member)
    cases Option.some.inj (held.symm.trans again)
    exact seen _ member
  · rw [frame name inside]
    obtain ⟨before,after⟩ := keyless def_ (unseen held inside)
    exact (kept name def_ held).keyless before after

theorem onInsert_kept (kept : Kept json files manager live) (fresh : live rowId = none)
    (admitted : ∀ name def_, manager.catalog.lookup name = some def_ → ∀ key,
      compositeKey json def_.effectiveColumns values = some key →
      def_.indexType.accepts key = true ∧ (def_.unique = true → ∀ other, posted json def_ live key other = false)) :
    ∃ next, manager.onInsert json files rowId values = (.ok (),next) ∧ next =
    {manager with instances := next.instances} ∧
      Kept json files next (Function.update live rowId (some values)) := by
  have loop := forEach_parts (P := fun name def_ loaded => Part json files live name def_ loaded)
    (Q := fun name def_ loaded => Part json files (Function.update live rowId (some values)) name def_ loaded)
    (fun name def_ manager => match compositeKey json def_.effectiveColumns values with
      | none => (.ok (),manager)
      | some key => manager.store name (manager.ensureLoaded files name def_) key rowId)
    (manager.seenIndexes values) manager (fun name def_ manager' member part => ?_)
    (nodup_seenIndexes manager values) fun entry member =>
      kept entry.1 entry.2 (mem_allIndexes.mp (List.mem_of_mem_filter member))
  · obtain ⟨next,done,rest,seen,frame⟩ := loop
    exact ⟨next,done,rest,kept_of_seen kept rest seen frame fun def_ none_ => ⟨keyOf_dead fresh,none_⟩⟩
  · cases own : compositeKey json def_.effectiveColumns values with
    | none => exact ⟨manager',rfl,touches_refl name manager',part.keyless (keyOf_dead fresh) own⟩
    | some key =>
      obtain ⟨accepted,alone⟩ := admitted name def_ (mem_allIndexes.mp (List.mem_of_mem_filter member)) key own
      exact part.store manager' (keyOf_dead fresh) own accepted alone

theorem onDelete_kept (kept : Kept json files manager live) (there : live rowId = some values)
    (accepted : ∀ name def_, manager.catalog.lookup name = some def_ → ∀ key,
      compositeKey json def_.effectiveColumns values = some key →
      def_.indexType.accepts key = true) :
    ∃ next, manager.onDelete json files rowId values = (.ok (),next) ∧ next =
    {manager with instances := next.instances} ∧
      Kept json files next (Function.update live rowId none) := by
  have loop := forEach_parts (P := fun name def_ loaded => Part json files live name def_ loaded)
    (Q := fun name def_ loaded => Part json files (Function.update live rowId none) name def_ loaded)
    (fun name def_ manager => match compositeKey json def_.effectiveColumns values with
      | none => (.ok (),manager)
      | some key => (.ok (),manager.setInstance name ((manager.ensureLoaded files name def_).remove key rowId)))
    (manager.seenIndexes values) manager (fun name def_ manager' member part => ?_)
    (nodup_seenIndexes manager values) fun entry member =>
      kept entry.1 entry.2 (mem_allIndexes.mp (List.mem_of_mem_filter member))
  · obtain ⟨next,done,rest,seen,frame⟩ := loop
    exact ⟨next,done,rest,kept_of_seen kept rest seen frame fun def_ none_ =>
      ⟨(keyOf_live there).trans none_,Option.bind_none _⟩⟩
  · cases own : compositeKey json def_.effectiveColumns values with
    | none =>
      exact ⟨manager',rfl,touches_refl name manager',part.keyless ((keyOf_live there).trans own) (Option.bind_none _)⟩
    | some key =>
      refine ⟨_,rfl,touches_set manager' name _,?_⟩
      rw [lookup_setInstance,if_pos rfl]
      exact part.remove ((keyOf_live there).trans own) (accepted name def_
        (mem_allIndexes.mp (List.mem_of_mem_filter member)) key own)

structure Updates (json : JsonCodec) (live : UInt64 → Option Row) (rowId : UInt64) (old new : Row) (def_ : IndexMeta) :
    Prop where
  accepted : ∀ key, compositeKey json def_.effectiveColumns old = some key → def_.indexType.accepts key = true
  accepts : ∀ key, compositeKey json def_.effectiveColumns new = some key → def_.indexType.accepts key = true
  alone : def_.unique = true → ∀ key, compositeKey json def_.effectiveColumns new = some key →
    ∀ other, other ≠ rowId → posted json def_ live key other = false

theorem Part.sameKey {loaded : Option IndexInstance} {old new : Row} {before after : IndexKey}
    (part : Part json files live name def_ loaded) (there : live rowId = some old)
    (updates : Updates json live rowId old new def_) (first : compositeKey json def_.effectiveColumns old = some before)
    (second : compositeKey json def_.effectiveColumns new = some after)
    (same : def_.indexType.same before after = true) :
    Part json files (Function.update live rowId (some new)) name def_ loaded := by
  refine ⟨⟨part.good.type,part.good.unique,part.good.distinct,fun key accepted other => ?_⟩,part.type,part.unique,
    part.saved⟩
  rw [part.good.sync key accepted other,posted_update,Option.bind_some,second,Option.any_some]
  by_cases here : other = rowId
  · rw [if_pos here,here,posted,keyOf_live there,first,Option.any_some,
      (lawful def_.indexType).congr_left (updates.accepted before first) (updates.accepts after second) accepted same]
  · rw [if_neg here]

theorem Part.replace {index : IndexInstance} {old new : Row} {manager : IndexManager}
    (part : Part json files live name def_ (some index)) (there : live rowId = some old)
    (updates : Updates json live rowId old new def_) :
    let cleared := match compositeKey json def_.effectiveColumns old with
      | some key => index.remove key rowId
      | none => index
    ∃ next, (match compositeKey json def_.effectiveColumns new with
      | none => (.ok (),manager.setInstance name cleared)
      | some key => manager.store name cleared key rowId) = ((.ok (),next) : Except IoError Unit × IndexManager) ∧
        Touches name manager next ∧
      Part json files (Function.update live rowId (some new)) name def_ (next.instances.lookup name) := by
  intro cleared
  have gone : Part json files (Function.update live rowId none) name def_ (some cleared) := by
    cases own : compositeKey json def_.effectiveColumns old with
    | none =>
      have same : cleared = index := by simp only [cleared,own]
      rw [same]
      exact part.keyless ((keyOf_live there).trans own) (Option.bind_none _)
    | some key =>
      have same : cleared = index.remove key rowId := by simp only [cleared,own]
      rw [same]
      exact part.remove ((keyOf_live there).trans own) (updates.accepted key own)
  have dead : keyOf json def_ (Function.update live rowId none) rowId = none :=
    keyOf_dead (Function.update_self rowId none live)
  cases own : compositeKey json def_.effectiveColumns new with
  | none =>
    refine ⟨_,rfl,touches_set manager name cleared,?_⟩
    have back := gone.keyless dead (show (some new).bind (compositeKey json def_.effectiveColumns) = none from own)
    rw [Function.update_idem] at back
    rw [lookup_setInstance,if_pos rfl]
    exact back
  | some key =>
    have stored := gone.store manager dead own (updates.accepts key own) fun unique other => by
      rw [posted_update,Option.bind_none,Option.any_none]
      split
      · rfl
      · rename_i different
        exact updates.alone unique key own other different
    rw [Function.update_idem] at stored
    exact stored

theorem onUpdate_kept {old new : Row} (kept : Kept json files manager live) (there : live rowId = some old)
    (updates : ∀ name def_, manager.catalog.lookup name = some def_ → Updates json live rowId old new def_ ∧
      reaches json def_ manager.instances name old new = true) :
    ∃ next, manager.onUpdate json rowId old new = (.ok (),next) ∧ next = {manager with instances := next.instances} ∧
      Kept json files next (Function.update live rowId (some new)) := by
  suffices loop : ∃ next, manager.onUpdate json rowId old new = (.ok (),next) ∧
    next = {manager with instances := next.instances} ∧
      (∀ entry ∈ manager.allIndexes,
        Part json files (Function.update live rowId (some new)) entry.1 entry.2 (next.instances.lookup entry.1)) ∧
      ∀ other, other ∉ manager.allIndexes.map Prod.fst → next.instances.lookup other = manager.instances.lookup other by
    obtain ⟨next,done,rest,all_,-⟩ := loop
    refine ⟨next,done,rest,fun name def_ held => ?_⟩
    rw [rest] at held
    exact all_ (name,def_) (mem_allIndexes.mpr held)
  unfold IndexManager.onUpdate
  refine forEach_parts (P := fun name def_ loaded => Part json files live name def_ loaded ∧
      (IndexManager.changed json def_.effectiveColumns old new = true → loaded.isSome = true))
    (Q := fun name def_ loaded => Part json files (Function.update live rowId (some new)) name def_ loaded)
    _ manager.allIndexes manager (fun name def_ manager' member before => ?_) (nodup_allIndexes manager) fun entry
      member => ?_
  · obtain ⟨part,loaded⟩ := before
    obtain ⟨needed,reached⟩ := updates name def_ (mem_allIndexes.mp member)
    by_cases changes : IndexManager.changed json def_.effectiveColumns old new = true
    · obtain ⟨index,held⟩ := Option.isSome_iff_exists.mp (loaded changes)
      rw [if_pos changes]
      rw [held] at part ⊢
      exact part.replace there needed
    · rw [if_neg changes]
      refine ⟨manager',rfl,touches_refl name manager',?_⟩
      unfold reaches at reached
      rw [if_neg changes] at reached
      split at reached
      · rename_i first second
        exact part.sameKey there needed first second reached
      · rename_i first second
        exact part.keyless ((keyOf_live there).trans first) second
      · cases reached
  · have held := mem_allIndexes.mp member
    refine ⟨kept entry.1 entry.2 held,fun changes => ?_⟩
    have reached := (updates entry.1 entry.2 held).2
    unfold reaches at reached
    rwa [if_pos changes] at reached

theorem rebuildAll_kept (kept : Kept json files manager live) :
    ∃ next, manager.rebuildAll files = (.ok (),next) ∧ next = {manager with instances := next.instances} ∧
    Kept json files next fun _ => none := by
  have loop := forEach_parts (P := fun name def_ loaded => Part json files live name def_ loaded)
    (Q := fun name def_ loaded => Part json files (fun _ => none) name def_ loaded)
    (fun name def_ manager => (.ok (),manager.setInstance name (manager.ensureLoaded files name def_).clear))
    manager.allIndexes manager (fun name def_ manager' member part => ?_) (nodup_allIndexes manager)
    fun entry member => kept entry.1 entry.2 (mem_allIndexes.mp member)
  · obtain ⟨next,done,rest,all_,-⟩ := loop
    refine ⟨next,done,rest,fun name def_ held => ?_⟩
    rw [rest] at held
    exact all_ (name,def_) (mem_allIndexes.mpr held)
  · refine ⟨_,rfl,touches_set manager' name _,?_⟩
    rw [lookup_setInstance,if_pos rfl]
    refine ⟨good_clear part.good.type part.good.unique,part.type,part.unique,fun index there clean => ?_⟩
    cases there
    cases clean

structure Fitting (json : JsonCodec) (live : UInt64 → Option Row) (def_ : IndexMeta) : Prop where
  accepts : ∀ rowId key, keyOf json def_ live rowId = some key → def_.indexType.accepts key = true
  alone : def_.unique = true → ∀ rowId other own key, keyOf json def_ live rowId = some own →
    keyOf json def_ live other = some key →
    def_.indexType.same own key = true → rowId = other

theorem insertAll_kept {rows : List (Sigma fun _ : UInt64 => Row)} {table : UInt64 → Option Row}
    (kept : Kept json files manager live) (distinct : rows.NodupKeys) (fresh : ∀ row ∈ rows, live row.1 = none)
    (below : ∀ rowId values, live rowId = some values → table rowId = some values)
    (listed : ∀ row ∈ rows, table row.1 = some row.2)
    (fits : ∀ name def_, manager.catalog.lookup name = some def_ → Fitting json table def_) :
    ∃ next, manager.insertAll json files rows = (.ok (),next) ∧ next = {manager with instances := next.instances} ∧
      Kept json files next (rows.foldl (fun live row => Function.update live row.1 (some row.2)) live) := by
  induction rows generalizing manager live with
  | nil => exact ⟨manager,rfl,rfl,kept⟩
  | cons row rows ih =>
    obtain ⟨rowId,values⟩ := row
    rw [List.nodupKeys_cons] at distinct
    have dead := fresh ⟨rowId,values⟩ List.mem_cons_self
    have own := listed ⟨rowId,values⟩ List.mem_cons_self
    have admitted : ∀ name def_, manager.catalog.lookup name = some def_ → ∀ key,
      compositeKey json def_.effectiveColumns values = some key →
        def_.indexType.accepts key = true ∧ (def_.unique = true → ∀ other, posted json def_ live key other =
          false) := by
      intro name def_ held key made
      have fitting := fits name def_ held
      have keyed : keyOf json def_ table rowId = some key := (keyOf_live own).trans made
      refine ⟨fitting.accepts rowId key keyed,fun unique other => ?_⟩
      rw [posted,Option.any_eq_false]
      intro theirs has
      rw [← Bool.not_eq_true]
      intro same
      obtain ⟨row,lives,_⟩ := Option.bind_eq_some_iff.mp has
      have tabled : keyOf json def_ table other = some theirs := by rw [← has,keyOf,keyOf,lives,below other row lives]
      have equal := fitting.alone unique other rowId theirs key tabled keyed same
      rw [equal,dead] at lives
      cases lives
    obtain ⟨middle,stepped,rest,keptMiddle⟩ := onInsert_kept kept dead admitted
    have catalog : middle.catalog = manager.catalog := by rw [rest]
    obtain ⟨next,done,rest',keptNext⟩ := ih keptMiddle distinct.2 (fun row member => by
        have away : row.1 ≠ rowId := fun same => distinct.1 (List.mem_map.mpr ⟨row,member,same⟩)
        rw [Function.update_of_ne away]
        exact fresh row (List.mem_cons_of_mem _ member))
      (fun other row lives => by
        by_cases here : other = rowId
        · rw [here,Function.update_self] at lives
          rw [here,own]
          exact lives
        · rw [Function.update_of_ne here] at lives
          exact below other row lives)
      (fun row member => listed row (List.mem_cons_of_mem _ member)) (by rwa [catalog])
    refine ⟨next,?_,?_,keptNext⟩
    · rw [IndexManager.insertAll,stepped]
      exact done
    · rw [rest',rest]

theorem foldl_update_lookup {rows : List (Sigma fun _ : UInt64 => Row)} (distinct : rows.NodupKeys)
    (live : UInt64 → Option Row) (rowId : UInt64) :
    rows.foldl (fun (live : UInt64 → Option Row) row => Function.update live row.1 (some row.2)) live rowId =
      (rows.dlookup rowId).or (live rowId) := by
  induction rows generalizing live with
  | nil => rfl
  | cons row rows ih =>
    obtain ⟨other,values⟩ := row
    rw [List.nodupKeys_cons] at distinct
    rw [List.foldl_cons,ih distinct.2]
    by_cases here : rowId = other
    · subst here
      rw [List.dlookup_cons_eq,List.dlookup_eq_none.mpr distinct.1,Option.none_or,Function.update_self,Option.some_or]
    · rw [List.dlookup_cons_ne _ _ here,Function.update_of_ne here]

theorem Good.of_entries {index other : IndexInstance} (good : Good json def_ live index)
    (type : other.indexType = def_.indexType) (unique : other.unique = def_.unique)
    (entries : other.entries = index.entries) : Good json def_ live other := by
  refine ⟨type,unique,by rw [entries]; exact good.distinct,fun key accepted rowId => ?_⟩
  have same : other.get key = index.get key := by rw [IndexInstance.get,type,entries,good.get]
  rw [same]
  exact good.sync key accepted rowId

theorem lookup_saved (instances : List (Sigma fun _ : String => IndexInstance)) (distinct : instances.NodupKeys)
    (base : Map String IndexInstance)
    (name : String) :
    (instances.foldl (fun (indexes : Map String IndexInstance) entry =>
      if entry.2.dirty then indexes.insert entry.1 {entry.2 with dirty := false} else indexes) base).lookup name =
      match instances.dlookup name with
      | some index => if index.dirty then some {index with dirty := false} else base.lookup name
      | none => base.lookup name := by
  induction instances generalizing base with
  | nil => rfl
  | cons entry instances ih =>
    obtain ⟨other,index⟩ := entry
    rw [List.nodupKeys_cons] at distinct
    rw [List.foldl_cons,ih distinct.2]
    by_cases here : name = other
    · subst here
      rw [List.dlookup_cons_eq,List.dlookup_eq_none.mpr distinct.1]
      dsimp only
      split
      · exact AList.lookup_insert _
      · rfl
    · have base' : (if index.dirty then base.insert other {index with dirty := false} else base).lookup name =
        base.lookup name := by
        split
        · exact AList.lookup_insert_ne here
        · rfl
      rw [List.dlookup_cons_ne _ _ here]
      dsimp only
      rw [base']

theorem save_kept (kept : Kept json files manager live) :
    Kept json (manager.save files).1 (manager.save files).2 live := by
  unfold IndexManager.save
  split
  · exact kept
  · intro name def_ held
    have part := kept name def_ held
    dsimp only
    rw [lookup_mapValues]
    have stored : IndexFiles.stored ⟨if manager.dirty then some manager.catalog else files.catalog,
        manager.instances.entries.foldl (fun indexes entry =>
          if entry.2.dirty then indexes.insert entry.1 {entry.2 with dirty := false} else indexes) files.indexes⟩
            name def_ =
        match manager.instances.lookup name with
        | some index => if index.dirty then {index with dirty := false} else files.stored name def_
        | none => files.stored name def_ := by
      unfold IndexFiles.stored
      dsimp only
      rw [lookup_saved _ manager.instances.nodupKeys]
      change (match manager.instances.lookup name with | some index => _ | none => _ : Option IndexInstance).getD _ = _
      cases manager.instances.lookup name with
      | none => rfl
      | some index =>
        dsimp only
        split <;> rfl
    cases loaded : manager.instances.lookup name with
    | none =>
      rw [loaded] at part stored
      dsimp only at stored
      refine ⟨?_,?_,?_,nofun⟩
      · rw [Option.map_none,Option.getD_none,stored]
        exact part.good
      · rw [stored]
        exact part.type
      · rw [stored]
        exact part.unique
    | some index =>
      rw [loaded] at part stored
      dsimp only at stored
      have good : Good json def_ live {index with dirty := false} :=
        part.good.of_entries part.good.type part.good.unique rfl
      cases dirty : index.dirty with
      | true =>
        rw [dirty,if_pos rfl] at stored
        refine ⟨good,?_,?_,fun other there _ => ?_⟩
        · rw [stored]
          exact good.type
        · rw [stored]
          exact good.unique
        · cases there
          rw [stored]
      | false =>
        rw [dirty,if_neg Bool.false_ne_true] at stored
        refine ⟨good,?_,?_,fun other there _ => ?_⟩
        · rw [stored]
          exact part.type
        · rw [stored]
          exact part.unique
        · cases there
          rw [stored]
          exact part.saved index rfl dirty

theorem Part.reload {loaded : Option IndexInstance} (part : Part json files live name def_ loaded)
    (clean : ∀ index ∈ loaded, index.dirty = false) : Part json files live name def_ none := by
  refine ⟨?_,part.type,part.unique,nofun⟩
  cases loaded with
  | none => exact part.good
  | some index => exact part.good.of_entries part.type part.unique (part.saved index rfl (clean index rfl)).symm

end Manager

section Step

variable {state next : Indexed} {call : Call}

structure Maintained (json : JsonCodec) (state : Indexed) : Prop where
  catalog : state.manager.inMemory = false → state.files.catalog = some state.manager.catalog
  fits : ∀ name def_, state.manager.catalog.lookup name = some def_ →
    Fitting json (fun rowId => state.rows.lookup rowId) def_
  kept : Kept json state.files state.manager fun rowId => state.rows.lookup rowId

theorem lookup_insert_update (rows : Map UInt64 Row) (rowId : UInt64) (values : Row) :
    (fun other => (rows.insert rowId values).lookup other) = Function.update (fun other =>
      rows.lookup other) rowId (some values) := by
  funext other
  rw [lookup_insert_eq,Function.update_apply]

theorem lookup_erase_update (rows : Map UInt64 Row) (rowId : UInt64) :
    (fun other => (rows.erase rowId).lookup other) = Function.update (fun other => rows.lookup other) rowId none := by
  funext other
  rw [lookup_erase_eq,Function.update_apply]

theorem keyOf_update {def_ : IndexMeta} {live : UInt64 → Option Row} (rowId : UInt64) (new : Option Row)
    (other : UInt64) :
    keyOf json def_ (Function.update live rowId new) other =
      if other = rowId then new.bind (compositeKey json def_.effectiveColumns) else keyOf json def_ live other := by
  unfold keyOf
  rw [Function.update_apply]
  split <;> rfl

theorem Fitting.update {def_ : IndexMeta} {live : UInt64 → Option Row} {rowId : UInt64} {new : Option Row}
    (fits : Fitting json live def_)
    (accepts : ∀ key, new.bind (compositeKey json def_.effectiveColumns) = some key → def_.indexType.accepts key = true)
    (alone : def_.unique = true → ∀ key, new.bind (compositeKey json def_.effectiveColumns) = some key →
      ∀ other, other ≠ rowId → posted json def_ live key other = false) :
        Fitting json (Function.update live rowId new) def_ := by
  have accepted : ∀ other key, keyOf json def_ (Function.update live rowId new) other = some key →
    def_.indexType.accepts key = true := by
    intro other key keyed
    rw [keyOf_update] at keyed
    split at keyed
    · exact accepts key keyed
    · exact fits.accepts other key keyed
  refine ⟨accepted,fun unique first second own key keyed keyed' same => ?_⟩
  have back := (lawful def_.indexType).symm own key (accepted first own keyed) (accepted second key keyed') same
  rw [keyOf_update] at keyed keyed'
  by_cases here : first = rowId
  · by_cases there : second = rowId
    · rw [here,there]
    · rw [if_pos here] at keyed
      rw [if_neg there] at keyed'
      have none_ := alone unique own keyed second there
      rw [posted,keyed',Option.any_some,back] at none_
      cases none_
  · by_cases there : second = rowId
    · rw [if_neg here] at keyed
      rw [if_pos there] at keyed'
      have none_ := alone unique key keyed' first here
      rw [posted,keyed,Option.any_some,same] at none_
      cases none_
    · rw [if_neg here] at keyed
      rw [if_neg there] at keyed'
      exact fits.alone unique first second own key keyed keyed' same

theorem of_admits {def_ : IndexMeta} {rows : Map UInt64 Row} {rowId : UInt64} {values : Row}
    (admitted : admits json def_ rows rowId values = true) {key : IndexKey}
    (own : compositeKey json def_.effectiveColumns values = some key) :
    def_.indexType.accepts key = true ∧ (def_.unique = true →
      ∀ other, other ≠ rowId → posted json def_ (fun rowId => rows.lookup rowId) key other = false) := by
  unfold admits at admitted
  rw [own] at admitted
  simp only [Bool.and_eq_true,Bool.or_eq_true,Bool.not_eq_true',List.all_eq_true,beq_iff_eq] at admitted
  refine ⟨admitted.1,fun unique other different => ?_⟩
  rcases admitted.2 with loose | rows_
  · rw [unique] at loose
    cases loose
  · cases there : rows.lookup other with
    | none => exact posted_none (keyOf_dead there) key
    | some row => exact (rows_ ⟨other,row⟩ (AList.mem_lookup_iff.mp there)).resolve_left different

theorem catalog_all {manager : IndexManager} (test : String → IndexMeta → Bool)
    (all_ : (manager.catalog.entries.all fun entry => test entry.1 entry.2) = true)
    {name : String} {def_ : IndexMeta} (held : manager.catalog.lookup name = some def_) : test name def_ = true :=
  List.all_eq_true.mp all_ ⟨name,def_⟩ (AList.mem_lookup_iff.mp held)

/-- New rows and new maps of the indexes, under the same catalog. -/
theorem Maintained.replaced {manager : IndexManager} {rows : Map UInt64 Row} (before : Maintained json state)
    (rest : manager = {state.manager with instances := manager.instances})
    (fits : ∀ name def_, state.manager.catalog.lookup name = some def_ →
      Fitting json (fun rowId => rows.lookup rowId) def_)
    (kept : Kept json state.files manager fun rowId => rows.lookup rowId) :
    Maintained json {state with manager := manager,rows := rows} := by
  have catalog : manager.catalog = state.manager.catalog := by rw [rest]
  refine ⟨fun disk => ?_,fun name def_ held => fits name def_ (catalog ▸ held),kept⟩
  dsimp only at disk ⊢
  rw [catalog]
  exact before.catalog (by rw [rest] at disk; exact disk)

theorem insert_maintained {rowId : UInt64} {values : Row} (before : Maintained json state)
    (allowed : maintained json state (.insert rowId values) = true)
    (stepped : exec json state (.insert rowId values) = some ((),next)) : Maintained json next := by
  have admitted : ∀ name def_, state.manager.catalog.lookup name = some def_ →
    admits json def_ state.rows rowId values = true :=
    fun name def_ held => catalog_all (fun _ def_ => admits json def_ state.rows rowId values) allowed held
  unfold exec at stepped
  dsimp only at stepped
  split at stepped
  · cases stepped
  · rename_i absent
    rw [Option.not_isSome_iff_eq_none] at absent
    obtain ⟨manager,done,rest,kept⟩ := onInsert_kept before.kept absent fun name def_ held key own => by
      obtain ⟨accepts,alone⟩ := of_admits (admitted name def_ held) own
      refine ⟨accepts,fun unique other => ?_⟩
      by_cases here : other = rowId
      · rw [here]
        exact posted_none (keyOf_dead absent) key
      · exact alone unique other here
    rw [done] at stepped
    cases stepped
    refine before.replaced rest (fun name def_ held => ?_) ?_
    · rw [lookup_insert_update]
      exact (before.fits name def_ held).update (fun key own => (of_admits (admitted name def_ held) own).1)
        fun unique key own => (of_admits (admitted name def_ held) own).2 unique
    · rw [lookup_insert_update]
      exact kept

theorem delete_maintained {rowId : UInt64} (before : Maintained json state)
    (stepped : exec json state (.delete rowId) = some ((),next)) :
    Maintained json next := by
  obtain ⟨values,there,same⟩ := Option.map_eq_some_iff.mp stepped
  obtain ⟨manager,done,rest,kept⟩ := onDelete_kept before.kept there fun name def_ held key own =>
    (before.fits name def_ held).accepts rowId key ((keyOf_live there).trans own)
  rw [done] at same
  cases same
  refine before.replaced rest (fun name def_ held => ?_) ?_
  · rw [lookup_erase_update]
    exact (before.fits name def_ held).update nofun fun _ => nofun
  · rw [lookup_erase_update]
    exact kept

theorem update_maintained {rowId : UInt64} {values : Row} (before : Maintained json state)
    (allowed : maintained json state (.update rowId values) = true)
    (stepped : exec json state (.update rowId values) = some ((),next)) : Maintained json next := by
  obtain ⟨old,there,same⟩ := Option.map_eq_some_iff.mp stepped
  have both : ∀ name def_, state.manager.catalog.lookup name = some def_ →
    admits json def_ state.rows rowId values = true ∧
      reaches json def_ state.manager.instances name old values = true := by
    intro name def_ held
    have passed := catalog_all (fun name def_ => admits json def_ state.rows rowId values &&
      (((state.rows.lookup rowId).map fun old => reaches json def_ state.manager.instances name old values).getD true))
        allowed held
    rw [there] at passed
    exact Bool.and_eq_true _ _ ▸ passed
  obtain ⟨manager,done,rest,kept⟩ := onUpdate_kept before.kept there fun name def_ held => by
    obtain ⟨admitted,reached⟩ := both name def_ held
    refine ⟨⟨fun key own => ?_,fun key own => (of_admits admitted own).1,fun unique key own =>
      (of_admits admitted own).2 unique⟩,reached⟩
    exact (before.fits name def_ held).accepts rowId key ((keyOf_live there).trans own)
  rw [done] at same
  cases same
  refine before.replaced rest (fun name def_ held => ?_) ?_
  · rw [lookup_insert_update]
    have admitted := (both name def_ held).1
    exact (before.fits name def_ held).update (fun key own => (of_admits admitted own).1) fun unique key own =>
      (of_admits admitted own).2 unique
  · rw [lookup_insert_update]
    exact kept

section
variable (before : Maintained json state)
include before

theorem save_maintained (stepped : exec json state .save = some ((),next)) : Maintained json next := by
  have same : next = {state with
    files := (state.manager.save state.files).1,manager := (state.manager.save state.files).2} :=
    (Prod.mk.inj (Option.some.inj stepped)).2.symm
  subst same
  have catalog : (state.manager.save state.files).2.catalog = state.manager.catalog := by
    unfold IndexManager.save
    split <;> rfl
  refine ⟨fun disk => ?_,fun name def_ held => before.fits name def_ (catalog ▸ held),save_kept before.kept⟩
  dsimp only at disk ⊢
  rw [catalog]
  unfold IndexManager.save at disk ⊢
  split
  · rename_i memory
    rw [if_pos memory] at disk
    rw [memory] at disk
    cases disk
  · rename_i memory
    dsimp only
    split
    · rfl
    · exact before.catalog (Bool.not_eq_true _ ▸ memory)

theorem reload_maintained (allowed : maintained json state .reload = true)
    (stepped : exec json state .reload = some ((),next)) : Maintained json next := by
  cases stepped
  simp only [maintained,Bool.and_eq_true,Bool.not_eq_true',List.all_eq_true] at allowed
  obtain ⟨⟨disk,-⟩,clean⟩ := allowed
  have stored := before.catalog disk
  have catalog : (IndexManager.load state.manager.inMemory state.files).catalog = state.manager.catalog := by
    rw [IndexManager.load,disk,stored]
    rfl
  refine ⟨fun _ => ?_,fun name def_ held => ?_,fun name def_ held => ?_⟩
  · dsimp only
    rw [catalog,stored]
  · dsimp only at held
    rw [catalog] at held
    exact before.fits name def_ held
  · dsimp only at held
    rw [catalog] at held
    exact (before.kept name def_ held).reload fun index there => clean index ((mem_values _ _).mpr ⟨name,there⟩)

theorem rebuild_maintained (stepped : exec json state .rebuild = some ((),next)) : Maintained json next := by
  cases stepped
  obtain ⟨cleared,_,rest,keptCleared⟩ := rebuildAll_kept before.kept
  have catalog : cleared.catalog = state.manager.catalog := by rw [rest]
  obtain ⟨filled,done,rest',kept⟩ := insertAll_kept keptCleared state.rows.nodupKeys (fun _ _ => rfl) nofun
    (fun row member => AList.mem_lookup_iff.mpr member) fun name def_ held => before.fits name def_ (catalog ▸ held)
  have catalog' : filled.catalog = state.manager.catalog := by rw [rest',rest]
  have memory : filled.inMemory = state.manager.inMemory := by rw [rest',rest]
  have result : ((state.manager.rebuildAll state.files).2.insertAll json state.files state.rows.entries).2 =
    filled := by
    rename_i cleared_
    rw [cleared_,done]
  rw [result]
  refine ⟨fun disk => ?_,fun name def_ held => ?_,?_⟩
  · dsimp only at disk ⊢
    rw [catalog']
    exact before.catalog (memory ▸ disk)
  · dsimp only at held
    rw [catalog'] at held
    exact before.fits name def_ held
  · have rows : (fun rowId => state.rows.lookup rowId) =
        state.rows.entries.foldl (fun (live : UInt64 → Option Row) row => Function.update live row.1 (some row.2))
          fun _ => none := by
      funext rowId
      rw [foldl_update_lookup state.rows.nodupKeys,Option.or_none]
      rfl
    dsimp only
    rw [rows]
    exact kept

theorem step_maintained (allowed : maintained json state call = true)
    (stepped : exec json state call = some ((),next)) : Maintained json next := by
  cases call with
  | insert rowId values => exact insert_maintained before allowed stepped
  | delete rowId => exact delete_maintained before stepped
  | update rowId values => exact update_maintained before allowed stepped
  | save => exact save_maintained before stepped
  | reload => exact reload_maintained before allowed stepped
  | rebuild => exact rebuild_maintained before stepped

end

end Step

def Indexed.created (inMemory : Bool) (catalog : Map String IndexMeta) :
    Indexed := ⟨⟨some catalog,∅⟩,⟨inMemory,catalog,∅,false⟩,∅⟩

theorem created_maintained (inMemory : Bool) (catalog : Map String IndexMeta) :
    Maintained json (.created inMemory catalog) := by
  have none_ : ∀ rowId, (∅ : Map UInt64 Row).lookup rowId = none := fun rowId => AList.lookup_empty rowId
  refine ⟨fun _ => rfl,fun name def_ _ => ⟨fun rowId key keyed => ?_,fun _ rowId _ own _ keyed => ?_⟩,
    fun name def_ _ => ?_⟩
  · rw [keyOf_dead (none_ rowId)] at keyed
    cases keyed
  · rw [keyOf_dead (none_ rowId)] at keyed
    cases keyed
  · refine ⟨⟨rfl,rfl,⟨fun _ member => absurd member List.not_mem_nil,List.Pairwise.nil⟩,fun key _ rowId => ?_⟩,rfl,
      rfl,nofun⟩
    rw [posted_none (keyOf_dead (none_ rowId)),if_neg Bool.false_ne_true]
    rfl

theorem run_maintained {inMemory : Bool} {catalog : Map String IndexMeta} {trace : List Unit} {final : Indexed}
    (run : Run (exec json) (maintained json) (.created inMemory catalog) trace final) : Maintained json final :=
  Run.invariant (P := fun _ state => Maintained json state) (created_maintained inMemory catalog)
    (fun _ _ _ _ _ _ before allowed stepped => step_maintained before allowed stepped) run

/-- In a run whose calls all reach the indexes, these say what the live rows are. -/
theorem indexes_stay_in_sync (json : JsonCodec) (inMemory : Bool) (catalog : Map String IndexMeta) {trace : List Unit}
    {final : Indexed} (run : Run (exec json) (maintained json) (.created inMemory catalog) trace final) {name : String}
    {def_ : IndexMeta} (held : final.manager.catalog.lookup name = some def_) :
    InSync json def_ (final.manager.ensureLoaded final.files name def_) fun rowId => final.rows.lookup rowId :=
  ((run_maintained run).kept name def_ held).good.sync

section Runs

def noDocuments : JsonCodec := ⟨fun _ => "",fun _ _ => true⟩

def oneColumn (value : Int64) : Row := AList.insert "c" (.int64 value) ∅

def hashOnColumn : IndexMeta := ⟨"c",["c"],.hash,false⟩

def oneIndex : Map String IndexMeta := AList.insert "idx" hashOnColumn ∅

/-- A row is updated while its index is in memory, then deleted after a reload. -/
theorem updated_then_deleted_in_sync : ∃ trace final,
    Run (exec noDocuments) (maintained noDocuments) (.created false oneIndex) trace final ∧ trace.length = 7 ∧
    final.manager.catalog.lookup "idx" = some hashOnColumn ∧
    InSync noDocuments hashOnColumn (final.manager.ensureLoaded final.files "idx" hashOnColumn) fun rowId =>
      final.rows.lookup rowId := by
  have played : (play (exec noDocuments) (maintained noDocuments) (.created false oneIndex)
      [.insert 1 (oneColumn 5),.insert 2 (oneColumn 5),.update 1 (oneColumn 6),.save,.reload,.delete 2,.rebuild]).map
      (fun result => (result.1.length,result.2.manager.catalog.lookup "idx")) =
      some (7,some hashOnColumn) := by decide +kernel
  obtain ⟨⟨trace,final⟩,run,facts⟩ := Option.map_eq_some_iff.mp played
  obtain ⟨length,held⟩ := Prod.mk.inj facts
  have run' := Run.of_play run
  exact ⟨trace,final,run',length,held,indexes_stay_in_sync noDocuments false oneIndex run' held⟩

/-- After a reload an update does not reach the index: the old key has the row, the new one has not. -/
theorem update_after_reload_is_missed : ∃ trace final,
    Run (exec noDocuments) (fun _ _ => true) (.created false oneIndex) trace final ∧
    final.manager.catalog.lookup "idx" = some hashOnColumn ∧
    keyOf noDocuments hashOnColumn (fun rowId => final.rows.lookup rowId) 1 = some (.scalar (.int 6)) ∧
    (final.manager.ensureLoaded final.files "idx" hashOnColumn).get (.scalar (.int 5)) = [1] ∧
    (final.manager.ensureLoaded final.files "idx" hashOnColumn).get (.scalar (.int 6)) = [] ∧
    ¬ InSync noDocuments hashOnColumn (final.manager.ensureLoaded final.files "idx" hashOnColumn) fun rowId =>
      final.rows.lookup rowId := by
  have played : (play (exec noDocuments) (fun _ _ => true) (.created false oneIndex)
      [.insert 1 (oneColumn 5),.save,.reload,.update 1 (oneColumn 6)]).map
      (fun result => (result.2.manager.catalog.lookup "idx",keyOf noDocuments hashOnColumn (fun rowId =>
        result.2.rows.lookup rowId) 1,
        (result.2.manager.ensureLoaded result.2.files "idx" hashOnColumn).get (.scalar (.int 5)),
        (result.2.manager.ensureLoaded result.2.files "idx" hashOnColumn).get (.scalar (.int 6)))) =
      some (some hashOnColumn,some (.scalar (.int 6)),[1],[]) := by decide +kernel
  obtain ⟨⟨trace,final⟩,run,facts⟩ := Option.map_eq_some_iff.mp played
  obtain ⟨held,facts⟩ := Prod.mk.inj facts
  obtain ⟨row,facts⟩ := Prod.mk.inj facts
  obtain ⟨stale,missing⟩ := Prod.mk.inj facts
  refine ⟨trace,final,Run.of_play run,held,row,stale,missing,fun sync => ?_⟩
  have count := sync (.scalar (.int 6)) rfl 1
  dsimp only at row missing count
  rw [missing,posted,row] at count
  revert count
  decide

end Runs

end ApexBase.Index
