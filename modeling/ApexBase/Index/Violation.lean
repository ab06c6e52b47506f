import ApexBase.Index.Sync

/-! What a refused insertion or update leaves in the indexes, `storage/index/index_manager.rs`. Both calls
visit one index after the other: a visit takes the old key out and puts the new key in. -/
namespace ApexBase.Index
open Data Library Library.Assoc

/-- What a visit does to an index: the key that it takes out and the key that it puts in. -/
structure Visit where
  out : Option IndexKey
  into : Option IndexKey

namespace Visit
variable (rowId : UInt64) (index : IndexInstance)

def cleared (visit : Visit) : IndexInstance :=
  match visit.out with
  | some key => index.remove key rowId
  | none => index

def run (visit : Visit) (name : String) (manager : IndexManager) : Except IoError Unit × IndexManager :=
  match visit.into with
  | none => (.ok (),manager.setInstance name (visit.cleared rowId index))
  | some key => manager.store name (visit.cleared rowId index) key rowId

/-- A unique index has the new key, even without the old one. -/
def Refused (visit : Visit) : Prop := ∃ key, visit.into = some key ∧ index.unique = true ∧
    (visit.cleared rowId index).get key ≠ []

def applied (visit : Visit) : IndexInstance :=
  match visit.into with
  | none => visit.cleared rowId index
  | some key => {visit.cleared rowId index with
    entries := Postings.push index.indexType.same index.indexType.before (visit.cleared rowId index).entries key rowId
    entryCount := (visit.cleared rowId index).entryCount + 1
    dirty := true}

end Visit

/-- Each key stands once, and the keys of a B-tree are ordered. -/
def IndexInstance.Formed (index : IndexInstance) : Prop :=
  Postings.Distinct index.indexType.same (fun key => index.indexType.accepts key = true) index.entries

/-- The rows of every key are the same. -/
def IndexInstance.SameRows (index other : IndexInstance) : Prop :=
  ∀ key, index.indexType.accepts key = true → (other.get key).Perm (index.get key)

section Index
variable {rowId : UInt64} {index : IndexInstance} {visit : Visit}

variable (rowId index visit) in
theorem cleared_fields : (visit.cleared rowId index).indexType = index.indexType ∧
    (visit.cleared rowId index).unique = index.unique := by
  unfold Visit.cleared
  split
  · rename_i key _
    exact ⟨(remove_fields key rowId index).1,(remove_fields key rowId index).2.1⟩
  · exact ⟨rfl,rfl⟩

theorem cleared_distinct (formed : index.Formed) :
    Postings.Distinct index.indexType.same (fun key => index.indexType.accepts key =
      true) (visit.cleared rowId index).entries := by
  unfold Visit.cleared
  split
  · rename_i key _
    rw [(remove_fields key rowId index).2.2]
    exact formed.remove
  · exact formed

def Visit.loss (rowId : UInt64) (index : IndexInstance) (visit : Visit) (key : IndexKey) (id : UInt64) : Nat :=
  match visit.out with
  | none => 0
  | some old => if index.indexType.same old key = true ∧ rowId = id then 1 else 0

def Visit.gain (rowId : UInt64) (index : IndexInstance) (visit : Visit) (key : IndexKey) (id : UInt64) : Nat :=
  match visit.into with
  | none => 0
  | some new => if index.indexType.same new key = true ∧ rowId = id then 1 else 0

theorem count_cleared (formed : index.Formed) (accepted : ∀ old ∈ visit.out, index.indexType.accepts old = true)
    {key : IndexKey} (proper : index.indexType.accepts key = true) (id : UInt64) :
    ((visit.cleared rowId index).get key).count id = (index.get key).count id - visit.loss rowId index key id := by
  unfold Visit.cleared Visit.loss
  cases out : visit.out with
  | none => rfl
  | some old =>
    rw [IndexInstance.get,(remove_fields old rowId index).1,(remove_fields old rowId index).2.2,
      Postings.count_remove (lawful _) formed (accepted old out) proper]
    rfl

theorem count_applied (formed : index.Formed) (taken : ∀ old ∈ visit.out, index.indexType.accepts old = true)
    (given_ : ∀ new ∈ visit.into, index.indexType.accepts new = true) {key : IndexKey}
    (proper : index.indexType.accepts key = true) (id : UInt64) :
    ((visit.applied rowId index).get key).count id = (index.get key).count id - visit.loss rowId index key id +
    visit.gain rowId index key id := by
  have before : ((visit.cleared rowId index).get key).count id = (index.get key).count id -
    visit.loss rowId index key id :=
    count_cleared formed taken proper id
  have type := (cleared_fields rowId index visit).1
  rw [IndexInstance.get,type] at before
  unfold Visit.applied Visit.gain
  cases into : visit.into with
  | none =>
    rw [IndexInstance.get,type,before]
    rfl
  | some new =>
    dsimp only
    rw [IndexInstance.get]
    dsimp only
    rw [type,Postings.ids_push (lawful _) (cleared_distinct formed) (given_ new into) proper,← before]
    split
    · rename_i same
      rw [List.count_append,List.count_singleton]
      by_cases here : rowId = id
      · simp only [same,here,beq_self_eq_true,and_self,if_true]
      · simp only [here,beq_eq_false_iff_ne.mpr here,and_false,if_false,Bool.false_eq_true]
    · rename_i differ
      rw [if_neg fun both => differ both.1,Nat.add_zero]

def Visit.Missed (rowId : UInt64) (index : IndexInstance) (visit : Visit) :
    Prop := ∀ old ∈ visit.out, rowId ∉ index.get old

/-- The visit takes out what it puts in, or does nothing. -/
def Visit.Idle (rowId : UInt64) (index : IndexInstance) (visit : Visit) : Prop :=
  match visit.into with
  | none => visit.Missed rowId index
  | some new => ∃ old ∈ visit.out, index.indexType.same old new = true ∧ rowId ∈ index.get old

theorem same_cleared (formed : index.Formed) (accepted : ∀ old ∈ visit.out, index.indexType.accepts old = true) :
    index.SameRows (visit.cleared rowId index) ↔ visit.Missed rowId index := by
  unfold Visit.Missed
  constructor
  · intro same old member there
    have perm := (same old (accepted old member)).count_eq rowId
    rw [count_cleared formed accepted (accepted old member)] at perm
    have lost : visit.loss rowId index old rowId = 1 := by
      unfold Visit.loss
      rw [Option.mem_def.mp member]
      exact if_pos ⟨(lawful _).refl old (accepted old member),rfl⟩
    have positive := List.count_pos_iff.mpr there
    omega
  · intro missed key proper
    refine List.perm_iff_count.mpr fun id => ?_
    rw [count_cleared formed accepted proper]
    unfold Visit.loss
    split
    · rfl
    · rename_i old out
      split
      · rename_i both
        have none_ : id ∉ index.get key := by
          have absent := missed old out
          rw [both.2] at absent
          rwa [IndexInstance.get,← Postings.ids_congr (lawful _) formed (accepted old out) proper both.1]
        rw [List.count_eq_zero.mpr none_]
      · rfl

theorem same_applied (formed : index.Formed) (taken : ∀ old ∈ visit.out, index.indexType.accepts old = true)
    (given_ : ∀ new ∈ visit.into, index.indexType.accepts new = true) :
    index.SameRows (visit.applied rowId index) ↔ visit.Idle rowId index := by
  unfold Visit.Idle
  cases into : visit.into with
  | none =>
    have same : visit.applied rowId index = visit.cleared rowId index := by rw [Visit.applied,into]
    rw [same,same_cleared formed taken]
  | some new =>
    have proper := given_ new into
    dsimp only
    constructor
    · intro same
      have perm := (same new proper).count_eq rowId
      rw [count_applied formed taken given_ proper] at perm
      have gained : visit.gain rowId index new rowId = 1 := by
        unfold Visit.gain
        rw [into]
        exact if_pos ⟨(lawful _).refl new proper,rfl⟩
      have lost : visit.loss rowId index new rowId = 1 ∧ 0 < (index.get new).count rowId := by
        have bound : visit.loss rowId index new rowId ≤ 1 := by
          unfold Visit.loss
          split
          · exact Nat.zero_le _
          · split
            · exact Nat.le_refl _
            · exact Nat.zero_le _
        omega
      obtain ⟨loss,positive⟩ := lost
      unfold Visit.loss at loss
      split at loss
      · exact nomatch loss
      · rename_i old out
        split at loss
        · rename_i both
          refine ⟨old,out,both.1,?_⟩
          rw [IndexInstance.get,Postings.ids_congr (lawful _) formed (taken old out) proper both.1]
          exact List.count_pos_iff.mp positive
        · exact nomatch loss
    · rintro ⟨old,out,same,there⟩ key proper_
      refine List.perm_iff_count.mpr fun id => ?_
      rw [count_applied formed taken given_ proper_]
      have keys : index.indexType.same old key = index.indexType.same new key :=
        (lawful _).congr_left (taken old out) proper proper_ same
      unfold Visit.loss Visit.gain
      simp only [into,Option.mem_def.mp out,keys]
      split
      · rename_i both
        rw [IndexInstance.get,Postings.ids_congr (lawful _) formed (taken old out) proper_ (keys.trans both.1)] at there
        have positive := List.count_pos_iff.mpr there
        rw [both.2] at positive
        exact Nat.sub_add_cancel positive
      · rfl

end Index

section Run
variable {json : JsonCodec} {files : IndexFiles} {rowId : UInt64} {manager : IndexManager}

variable (manager) in
theorem run_refused {visit : Visit} {index : IndexInstance} (refused : visit.Refused rowId index) (name : String) :
    ∃ error, visit.run rowId index name manager =
    (.error error,manager.setInstance name (visit.cleared rowId index)) := by
  obtain ⟨key,into,unique,held⟩ := refused
  have own : (visit.cleared rowId index).unique = true := (cleared_fields _ _ _).2.trans unique
  have taken : ((visit.cleared rowId index).unique && (visit.cleared rowId index).get key != []) = true := by
    rw [own,Bool.true_and]
    exact bne_iff_ne.mpr held
  refine ⟨(visit.cleared rowId index).duplicateKey,?_⟩
  unfold Visit.run
  rw [into]
  dsimp only
  rw [IndexManager.store,IndexInstance.insert,if_pos taken]

theorem run_applied {visit : Visit} {index : IndexInstance} (free : ¬visit.Refused rowId index) (name : String) :
    visit.run rowId index name manager = (.ok (),manager.setInstance name (visit.applied rowId index)) := by
  unfold Visit.run Visit.applied
  cases into : visit.into with
  | none => rfl
  | some key =>
    have open_ : ¬((visit.cleared rowId index).unique && (visit.cleared rowId index).get key != []) = true := by
      rw [Bool.and_eq_true,bne_iff_ne,(cleared_fields _ _ _).2]
      exact fun both => free ⟨key,into,both⟩
    dsimp only
    rw [IndexManager.store,IndexInstance.insert,if_neg open_,(cleared_fields _ _ _).1]

/-- The visit that a call plans for an index, from its columns and the instance in memory. -/
abbrev Plan := IndexMeta → Option IndexInstance → Option Visit

def insertVisit (json : JsonCodec) (values : Row) : Plan := fun def_ _ =>
  (compositeKey json def_.effectiveColumns values).map fun key => ⟨none,some key⟩

def updateVisit (json : JsonCodec) (old new : Row) : Plan := fun def_ loaded =>
  if IndexManager.changed json def_.effectiveColumns old new then
    loaded.map fun _ => ⟨compositeKey json def_.effectiveColumns old,compositeKey json def_.effectiveColumns new⟩
  else none

variable (files rowId) in
def planned (plan : Plan) (name : String) (def_ : IndexMeta) (manager : IndexManager) :
    Except IoError Unit × IndexManager :=
  match plan def_ (manager.instances.lookup name) with
  | none => (.ok (),manager)
  | some visit => visit.run rowId (manager.ensureLoaded files name def_) name manager

theorem onInsert_planned (values : Row) : IndexManager.onInsert json files rowId values manager =
    IndexManager.forEach (planned files rowId (insertVisit json values)) (manager.seenIndexes values) manager := by
  unfold IndexManager.onInsert
  congr 1
  funext name def_ manager
  unfold planned insertVisit
  cases compositeKey json def_.effectiveColumns values with
  | none => rfl
  | some key => rfl

theorem onUpdate_planned (old new : Row) : IndexManager.onUpdate json rowId old new manager =
    IndexManager.forEach (planned files rowId (updateVisit json old new)) manager.allIndexes manager := by
  unfold IndexManager.onUpdate
  congr 1
  funext name def_ manager
  unfold planned updateVisit
  split
  · unfold IndexManager.ensureLoaded
    cases manager.instances.lookup name with
    | none => rfl
    | some index =>
      simp only [Option.getD_some]
      cases compositeKey json def_.effectiveColumns new with
      | none => rfl
      | some key => rfl
  · rfl

/-- The visit to one index of the catalog, and the index before it. -/
def visitOf (plan : Plan) (manager : IndexManager) (entry : String × IndexMeta) :
    Option Visit := plan entry.2 (manager.instances.lookup entry.1)

def indexOf (files : IndexFiles) (manager : IndexManager) (entry : String × IndexMeta) : IndexInstance :=
  manager.ensureLoaded files entry.1 entry.2

/-- What a call that was refused at an index has made of the indexes: those it had passed have the new key, the one
that refused is without the old key, and the others are as they were. -/
structure Stopped (files : IndexFiles) (rowId : UInt64) (plan : Plan) (manager next : IndexManager)
    (passed : List (String × IndexMeta))
    (entry : String × IndexMeta) : Prop where
  refused : ∃ visit, visitOf plan manager entry = some visit ∧ visit.Refused rowId (indexOf files manager entry) ∧
    indexOf files next entry = visit.cleared rowId (indexOf files manager entry)
  applied : ∀ other ∈ passed, indexOf files next other =
    ((visitOf plan manager other).map fun visit => visit.applied rowId (indexOf files manager other)).getD
      (indexOf files manager other)
  kept : next = {manager with instances := next.instances}
  others : ∀ name, name ∉ (passed ++ [entry]).map Prod.fst → next.instances.lookup name = manager.instances.lookup name

theorem indexOf_eq {next : IndexManager} {entry : String × IndexMeta}
    (same : next.instances.lookup entry.1 = manager.instances.lookup entry.1) :
    indexOf files next entry = indexOf files manager entry := by
  unfold indexOf IndexManager.ensureLoaded
  rw [same]

theorem indexOf_set (index : IndexInstance) (entry : String × IndexMeta) :
    indexOf files (manager.setInstance entry.1 index) entry = index := by
  unfold indexOf IndexManager.ensureLoaded
  rw [lookup_setInstance,if_pos rfl,Option.getD_some]

variable (rowId manager) in
theorem planned_cases (plan : Plan) (entry : String × IndexMeta) :
    (∃ error visit, visitOf plan manager entry = some visit ∧ visit.Refused rowId (indexOf files manager entry) ∧
      planned files rowId plan entry.1 entry.2 manager =
        (.error error,manager.setInstance entry.1 (visit.cleared rowId (indexOf files manager entry)))) ∨
    ∃ next, planned files rowId plan entry.1 entry.2 manager = (.ok (),next) ∧ Touches entry.1 manager next ∧
    indexOf files next entry =
      ((visitOf plan manager entry).map fun visit => visit.applied rowId (indexOf files manager entry)).getD
        (indexOf files manager entry) := by
  unfold planned visitOf
  cases visited : plan entry.2 (manager.instances.lookup entry.1) with
  | none => exact Or.inr ⟨manager,rfl,touches_refl entry.1 manager,rfl⟩
  | some visit =>
    change (∃ _ _, _ ∧ _ ∧ visit.run rowId (indexOf files manager entry) entry.1 manager = _) ∨
      ∃ _, visit.run rowId (indexOf files manager entry) entry.1 manager = _ ∧ _
    by_cases refused : visit.Refused rowId (indexOf files manager entry)
    · obtain ⟨error,stopped⟩ := run_refused manager refused entry.1
      exact Or.inl ⟨error,visit,rfl,refused,stopped⟩
    · exact Or.inr ⟨_,run_applied refused entry.1,touches_set manager entry.1 _,indexOf_set _ entry⟩

theorem forEach_stopped {plan : Plan} {defs : List (String × IndexMeta)} (distinct : (defs.map Prod.fst).Nodup)
    {error : IoError} {next : IndexManager}
    (ran : IndexManager.forEach (planned files rowId plan) defs manager = (.error error,next)) :
    ∃ passed entry rest, defs = passed ++ entry :: rest ∧ Stopped files rowId plan manager next passed entry := by
  induction defs generalizing manager with
  | nil => cases ran
  | cons entry defs ih =>
    rw [IndexManager.forEach] at ran
    rw [List.map_cons,List.nodup_cons] at distinct
    rcases planned_cases rowId manager plan entry with ⟨error',visit,visited,refused,stopped⟩ | ⟨middle,stepped,
      touches,after⟩
    · rw [stopped] at ran
      obtain ⟨-,rfl⟩ := Prod.mk.inj ran
      have touches := touches_set manager entry.1 (visit.cleared rowId (indexOf files manager entry))
      refine ⟨[],entry,defs,rfl,⟨visit,visited,refused,indexOf_set _ entry⟩,List.forall_mem_nil _,rfl,
        fun name outside => touches.others name ?_⟩
      rwa [List.nil_append,List.map_singleton,List.mem_singleton] at outside
    · rw [stepped] at ran
      obtain ⟨passed,last,rest,split,found,applied,kept,others⟩ := ih distinct.2 ran
      -- the steps that follow are on other indexes
      have apart : ∀ other ∈ defs, middle.instances.lookup other.1 = manager.instances.lookup other.1 :=
        fun other member =>
        touches.others other.1 fun same => distinct.1 (List.mem_map.mpr ⟨other,member,same⟩)
      have planned_ : ∀ other ∈ defs, visitOf plan middle other = visitOf plan manager other := fun other member => by
        rw [visitOf,visitOf,apart other member]
      have inside : ∀ other ∈ passed ++ [last], other ∈ defs := fun other member => by
        rw [split,List.append_cons]
        exact List.mem_append_left rest member
      refine ⟨entry :: passed,last,rest,by rw [split,List.cons_append],?_,?_,?_,?_⟩
      · obtain ⟨visit,visited,refused,cleared⟩ := found
        have member := inside last (List.mem_append_right _ List.mem_cons_self)
        rw [planned_ last member] at visited
        rw [indexOf_eq (apart last member)] at refused cleared
        exact ⟨visit,visited,refused,cleared⟩
      · intro other member
        rcases List.mem_cons.mp member with rfl | later
        · rw [indexOf_eq (others other.1 ?_),after]
          intro again
          obtain ⟨twice,there,same⟩ := List.mem_map.mp again
          exact distinct.1 (List.mem_map.mpr ⟨twice,inside twice there,same⟩)
        · have there := inside other (List.mem_append_left _ later)
          rw [applied other later,planned_ other there,indexOf_eq (apart other there)]
      · rw [kept,touches.rest]
      · intro name outside
        rw [List.cons_append,List.map_cons,List.mem_cons,not_or] at outside
        rw [others name outside.2,touches.others name outside.1]

/-- The postings are those before the call when the visits before the refused one changed nothing,
and the old key had not the row. -/
theorem Stopped.same_iff {plan : Plan} {next : IndexManager} {passed : List (String × IndexMeta)}
    {entry : String × IndexMeta} (stopped : Stopped files rowId plan manager next passed entry)
    {defs : List (String × IndexMeta)} (among : ∀ other ∈ passed ++ [entry], other ∈ defs)
    (distinct : (defs.map Prod.fst).Nodup) (formed : ∀ other ∈ passed ++ [entry], (indexOf files manager other).Formed)
    (accepted : ∀ other ∈ passed ++ [entry], ∀ visit ∈ visitOf plan manager other, ∀ key, key ∈ visit.out ∨
      key ∈ visit.into →
      (indexOf files manager other).indexType.accepts key = true) :
    (∀ other ∈ defs, (indexOf files manager other).SameRows (indexOf files next other)) ↔
      (∀ other ∈ passed, ∀ visit ∈ visitOf plan manager other, visit.Idle rowId (indexOf files manager other)) ∧
      ∀ visit ∈ visitOf plan manager entry, visit.Missed rowId (indexOf files manager entry) := by
  obtain ⟨visit,visited,-,cleared⟩ := stopped.refused
  have last : entry ∈ passed ++ [entry] := List.mem_append_right _ List.mem_cons_self
  have own : (indexOf files manager entry).SameRows (indexOf files next entry) ↔
    visit.Missed rowId (indexOf files manager entry) := by
    rw [cleared]
    exact same_cleared (formed entry last) fun old member => accepted entry last visit visited old (Or.inl member)
  have before : ∀ other ∈ passed, (indexOf files manager other).SameRows (indexOf files next other) ↔
      ∀ visit ∈ visitOf plan manager other, visit.Idle rowId (indexOf files manager other) := by
    intro other member
    have inside := List.mem_append_left [entry] member
    rw [stopped.applied other member]
    cases seen : visitOf plan manager other with
    | none => exact iff_of_true (fun _ _ => List.Perm.refl _) nofun
    | some visit' =>
      have keys := accepted other inside visit' seen
      have same : (indexOf files manager other).SameRows (visit'.applied rowId (indexOf files manager other)) ↔
          visit'.Idle rowId (indexOf files manager other) :=
        same_applied (formed other inside) (fun old taken => keys old (Or.inl taken)) fun new given_ =>
          keys new (Or.inr given_)
      exact same.trans ⟨fun idle _ there => Option.some.inj there ▸ idle,fun idle => idle visit' rfl⟩
  constructor
  · intro same
    refine ⟨fun other member => (before other member).mp (same other (among other (List.mem_append_left _ member))),
      fun visit' there => ?_⟩
    rw [visited] at there
    cases there
    exact own.mp (same entry (among entry last))
  · rintro ⟨idle,missed⟩ other member
    by_cases inside : other ∈ passed ++ [entry]
    · rcases List.mem_append.mp inside with early | here
      · exact (before other early).mpr (idle other early)
      · rw [List.mem_singleton.mp here]
        exact own.mpr (missed visit visited)
    · rw [indexOf_eq (stopped.others other.1 ?_)]
      · exact fun _ _ => List.Perm.refl _
      · intro named
        obtain ⟨twin,there,same⟩ := List.mem_map.mp named
        exact inside (List.inj_on_of_nodup_map distinct (among twin there) member same ▸ there)

end Run

/-- A call that a unique index refuses leaves the indexes that it had not come to as they were. -/
theorem violation_stops (json : JsonCodec) (files : IndexFiles) (rowId : UInt64) (manager : IndexManager) :
    (∀ (values : Row) (error : IoError) (next : IndexManager), manager.onInsert json files rowId values =
      (.error error,next) →
      ∃ passed entry rest, manager.seenIndexes values = passed ++ entry :: rest ∧
        Stopped files rowId (insertVisit json values) manager next passed entry) ∧
    ∀ (old new : Row) (error : IoError) (next : IndexManager), manager.onUpdate json rowId old new =
    (.error error,next) →
      ∃ passed entry rest, manager.allIndexes = passed ++ entry :: rest ∧
        Stopped files rowId (updateVisit json old new) manager next passed entry := by
  constructor
  · intro values error next ran
    rw [onInsert_planned] at ran
    exact forEach_stopped (nodup_seenIndexes manager values) ran
  · intro old new error next ran
    rw [onUpdate_planned] at ran
    exact forEach_stopped (nodup_allIndexes manager) ran

section Runs

def twoColumns (a b : Int64) : Row := AList.insert "a" (.int64 a) (AList.insert "b" (.int64 b) ∅)

def plainAndUnique : IndexManager :=
  ⟨true,AList.insert "by_a" ⟨"a",["a"],.hash,false⟩ (AList.insert "by_b" ⟨"b",["b"],.hash,true⟩ ∅),
    AList.insert "by_b" ⟨.hash,"b",true,[(.scalar (.int 1),[7])],1,false⟩ ∅,false⟩

theorem second_index_refuses : ∃ error next, plainAndUnique.onInsert noDocuments ⟨none,∅⟩ 8 (twoColumns 5 1) =
    (.error error,next) ∧
    ∃ passed entry rest, plainAndUnique.seenIndexes (twoColumns 5 1) = passed ++ entry :: rest ∧
      Stopped ⟨none,∅⟩ 8 (insertVisit noDocuments (twoColumns 5 1)) plainAndUnique next passed entry := by
  have refused : (plainAndUnique.onInsert noDocuments ⟨none,∅⟩ 8 (twoColumns 5 1)).1.isOk = false := by decide +kernel
  rcases ran : plainAndUnique.onInsert noDocuments ⟨none,∅⟩ 8 (twoColumns 5 1) with ⟨error | done,next⟩
  · exact ⟨error,next,rfl,(violation_stops noDocuments ⟨none,∅⟩ 8 plainAndUnique).1 (twoColumns 5 1) error next ran⟩
  · rw [ran] at refused
    cases refused

/-- The plain index keeps the key of a row that the unique index has refused. -/
theorem refused_row_stays_posted : ∃ (manager next : IndexManager) (error : IoError) (entry : String × IndexMeta),
    manager.onInsert noDocuments ⟨none,∅⟩ 8 (twoColumns 5 1) = (.error error,next) ∧
    (∃ other ∈ manager.allIndexes, other.2.unique = true ∧
      (indexOf ⟨none,∅⟩ manager other).get (.scalar (.int 1)) = [7]) ∧
    entry ∈ manager.allIndexes ∧
    (indexOf ⟨none,∅⟩ manager entry).get (.scalar (.int 5)) = [] ∧
    (indexOf ⟨none,∅⟩ next entry).get (.scalar (.int 5)) = [8] := by
  have ran : (plainAndUnique.onInsert noDocuments ⟨none,∅⟩ 8 (twoColumns 5 1)).1.isOk = false ∧
      (indexOf ⟨none,∅⟩ (plainAndUnique.onInsert noDocuments ⟨none,∅⟩ 8 (twoColumns 5 1)).2 ("by_a",
        ⟨"a",["a"],.hash,false⟩)).get
        (.scalar (.int 5)) = [8] := by decide +kernel
  rcases ended : plainAndUnique.onInsert noDocuments ⟨none,∅⟩ 8 (twoColumns 5 1) with ⟨error | done,next⟩
  · rw [ended] at ran
    exact ⟨plainAndUnique,next,error,("by_a",⟨"a",["a"],.hash,false⟩),ended,
      ⟨("by_b",⟨"b",["b"],.hash,true⟩),by decide +kernel,rfl,by decide +kernel⟩,
      by decide +kernel,by decide +kernel,ran.2⟩
  · rw [ended] at ran
    cases ran.1

end Runs

end ApexBase.Index
