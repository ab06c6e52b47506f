import ApexBase.Blob.Vacuum

/-! A crash between any two file operations of the vacuum or of a recovery leaves the old files or
the new ones. -/
namespace ApexBase.Blob
open Library.Wire
open Storage.Footer (V4Footer)

def VacuumFiles.pair (files : VacuumFiles) : Bytes × Option Bytes := (files.table,files.packed)

def recovered (files : VacuumFiles) : VacuumFiles := files.applyAll (recoverPackedVacuum files)

/-- The states after a crash, and after crashes of the recoveries that follow. -/
inductive Interrupted (files : VacuumFiles) (ops : List FileOp) : VacuumFiles → Prop
  | crash (count : Nat) : Interrupted files ops (files.applyAll (ops.take count))
  | again {state : VacuumFiles} (before : Interrupted files ops state) (count : Nat) :
      Interrupted files ops (state.applyAll ((recoverPackedVacuum state).take count))

section Recover

variable {newPacked newTable : Bytes} {state : VacuumFiles}

theorem recover_quiet (quiet : state.journal = false) : recoverPackedVacuum state = [.removeNew,.removeCopy] := by
  rw [recoverPackedVacuum,quiet]
  rfl

theorem quiet_take (quiet : state.journal = false) (count : Nat) :
    (state.applyAll ((recoverPackedVacuum state).take count)).journal = false ∧
    (state.applyAll ((recoverPackedVacuum state).take count)).pair = state.pair := by
  rw [recover_quiet quiet]
  rcases count with _ | _ | count
  · exact ⟨quiet,rfl⟩
  · exact ⟨quiet,rfl⟩
  · rw [List.take_of_length_le (by simp)]
    exact ⟨quiet,rfl⟩

/-- The stages of a publication, from the files beside the table to those in their place. -/
inductive Stage (newPacked newTable : Bytes) : VacuumFiles → Prop
  | beside (table : Bytes) (packed oldPacked : Option Bytes) :
    Stage newPacked newTable ⟨table,packed,some newPacked,oldPacked,some newTable,true⟩
  | packedInPlace (table : Bytes) (oldPacked : Option Bytes) :
    Stage newPacked newTable ⟨table,some newPacked,none,oldPacked,some newTable,true⟩
  | inPlace (oldPacked : Option Bytes) : Stage newPacked newTable ⟨newTable,some newPacked,none,oldPacked,none,true⟩
  | done (oldPacked : Option Bytes) : Stage newPacked newTable ⟨newTable,some newPacked,none,oldPacked,none,false⟩

theorem Stage.recover (stage : Stage newPacked newTable state) (count : Nat) :
    Stage newPacked newTable (state.applyAll ((recoverPackedVacuum state).take count)) ∧
    Stage newPacked newTable (recovered state) ∧
    (recovered state).journal = false := by
  cases stage with
  | beside table packed oldPacked =>
    cases packed with
    | none =>
      refine ⟨?_,.done none,rfl⟩
      change Stage newPacked newTable (VacuumFiles.applyAll _
        (([.newToPacked,.copyToTable,.removeOld,.removeJournal] : List FileOp).take count))
      rcases count with _ | _ | _ | _ | count
      · exact .beside table none oldPacked
      · exact .packedInPlace table oldPacked
      · exact .inPlace oldPacked
      · exact .inPlace none
      · rw [List.take_of_length_le (by simp)]
        exact .done none
    | some packed =>
      refine ⟨?_,.done none,rfl⟩
      change Stage newPacked newTable
        (VacuumFiles.applyAll _ (([.removeOld,.packedToOld,.newToPacked,.copyToTable,.removeOld,
          .removeJournal] : List FileOp).take count))
      rcases count with _ | _ | _ | _ | _ | _ | count
      · exact .beside table (some packed) oldPacked
      · exact .beside table (some packed) none
      · exact .beside table none (some packed)
      · exact .packedInPlace table (some packed)
      · exact .inPlace (some packed)
      · exact .inPlace none
      · rw [List.take_of_length_le (by simp)]
        exact .done none
  | packedInPlace table oldPacked =>
    refine ⟨?_,.done none,rfl⟩
    change Stage newPacked newTable (VacuumFiles.applyAll _
      (([.copyToTable,.removeOld,.removeJournal] : List FileOp).take count))
    rcases count with _ | _ | _ | count
    · exact .packedInPlace table oldPacked
    · exact .inPlace oldPacked
    · exact .inPlace none
    · rw [List.take_of_length_le (by simp)]
      exact .done none
  | inPlace oldPacked =>
    refine ⟨?_,.done none,rfl⟩
    change Stage newPacked newTable (VacuumFiles.applyAll _ (([.removeOld,.removeJournal] : List FileOp).take count))
    rcases count with _ | _ | count
    · exact .inPlace oldPacked
    · exact .inPlace none
    · rw [List.take_of_length_le (by simp)]
      exact .done none
  | done oldPacked =>
    refine ⟨?_,.done oldPacked,rfl⟩
    change Stage newPacked newTable (VacuumFiles.applyAll _ (([.removeNew,.removeCopy] : List FileOp).take count))
    rcases count with _ | _ | count
    · exact .done oldPacked
    · exact .done oldPacked
    · rw [List.take_of_length_le (by simp)]
      exact .done oldPacked

theorem Stage.pair (stage : Stage newPacked newTable state) (quiet : state.journal = false) :
    state.pair = (newTable,some newPacked) := by
  cases stage with
  | done oldPacked => rfl
  | _ => cases quiet

end Recover

section Crash

variable {files state : VacuumFiles} {ops : List FileOp}

def FileOp.prepares : FileOp → Bool
  | .createNew | .appendNew _ | .copyTable | .patchCopy _ => true
  | _ => false

theorem prepares_keeps (prepares : ∀ op ∈ ops, op.prepares = true) (files : VacuumFiles) :
    (files.applyAll ops).pair = files.pair ∧ (files.applyAll ops).journal = files.journal := by
  induction ops generalizing files with
  | nil => exact ⟨rfl,rfl⟩
  | cons op ops ih =>
    have rest := ih (fun op member => prepares op (List.mem_cons_of_mem _ member)) (files.apply op)
    have first := prepares op List.mem_cons_self
    have same : (files.apply op).pair = files.pair ∧ (files.apply op).journal = files.journal := by
      cases op <;> first | exact ⟨rfl,rfl⟩ | cases first
    exact ⟨rest.1.trans same.1,rest.2.trans same.2⟩

/-- What the operations of a vacuum are: none that a reader sees, or those up to the journal and a recovery. -/
inductive Journaled (files : VacuumFiles) : List FileOp → Prop
  | prepared {ops : List FileOp} (prepares : ∀ op ∈ ops, op.prepares = true) : Journaled files ops
  | published {ops : List FileOp} (prepares : ∀ op ∈ ops, op.prepares = true) {newPacked newTable : Bytes}
      (packed : (files.applyAll ops).newPacked = some newPacked) (copy : (files.applyAll ops).tableCopy =
        some newTable) :
      Journaled files ((ops ++ [.writeJournal]) ++ recoverPackedVacuum (files.applyAll (ops ++ [.writeJournal])))

theorem applyAll_append (files : VacuumFiles) (first second : List FileOp) :
    files.applyAll (first ++ second) = (files.applyAll first).applyAll second := List.foldl_append

section
variable {newPacked newTable : Bytes} (packed : (files.applyAll ops).newPacked = some newPacked)
variable (copy : (files.applyAll ops).tableCopy = some newTable)
include packed copy

theorem journal_stage : Stage newPacked newTable (files.applyAll (ops ++ [.writeJournal])) := by
  rw [applyAll_append]
  generalize files.applyAll ops = state at packed copy
  obtain ⟨table,packed',new,oldPacked,copy',journal⟩ := state
  cases packed
  cases copy
  exact .beside table packed' oldPacked

theorem published_pair :
    (files.applyAll ((ops ++ [.writeJournal]) ++ recoverPackedVacuum (files.applyAll (ops ++ [.writeJournal])))).pair =
    (newTable,some newPacked) := by
  have stage := journal_stage packed copy
  rw [applyAll_append]
  exact (stage.recover 0).2.1.pair (stage.recover 0).2.2

end

section
variable (journaled : Journaled files ops) (quiet : files.journal = false)
include journaled quiet

/-- After a crash the files are the old ones and there is no journal, or they are at some stage of the publication. -/
theorem journaled_crash (count : Nat) :
    ((files.applyAll (ops.take count)).journal = false ∧ (files.applyAll (ops.take count)).pair = files.pair) ∨
    ∃ newPacked newTable, (files.applyAll ops).pair = (newTable,some newPacked) ∧
    Stage newPacked newTable (files.applyAll (ops.take count)) := by
  cases journaled with
  | prepared prepares =>
    have kept := @prepares_keeps (ops.take count) (fun op member => prepares op (List.mem_of_mem_take member)) files
    exact .inl ⟨kept.2.trans quiet,kept.1⟩
  | @published first prepares newPacked newTable packed copy =>
    have stage := journal_stage packed copy
    rcases Nat.lt_or_ge first.length count with behind | before
    · refine .inr ⟨newPacked,newTable,published_pair packed copy,?_⟩
      rw [List.take_append,List.take_of_length_le (by rw [List.length_append,List.length_singleton]; omega),
        applyAll_append]
      exact (stage.recover _).1
    · rw [List.append_assoc,List.take_append_of_le_length before]
      have kept := @prepares_keeps (first.take count) (fun op member => prepares op (List.mem_of_mem_take member)) files
      exact .inl ⟨kept.2.trans quiet,kept.1⟩

theorem interrupted_safe (interrupted : Interrupted files ops state) :
    (state.journal = false ∧ state.pair = files.pair) ∨
    ∃ newPacked newTable, (files.applyAll ops).pair = (newTable,some newPacked) ∧ Stage newPacked newTable state := by
  induction interrupted with
  | crash count => exact journaled_crash journaled quiet count
  | again before count ih =>
    rcases ih with ⟨noJournal,same⟩ | ⟨newPacked,newTable,ends,stage⟩
    · obtain ⟨still,pair⟩ := quiet_take noJournal count
      exact .inl ⟨still,pair.trans same⟩
    · exact .inr ⟨newPacked,newTable,ends,(stage.recover count).1⟩

theorem recovered_old_or_new (interrupted : Interrupted files ops state)
    (more : Nat) : (recovered^[more + 1] state).pair = files.pair ∨ (recovered^[more + 1] state).pair =
    (files.applyAll ops).pair := by
  have settled : ((recovered^[more + 1] state).journal = false ∧ (recovered^[more + 1] state).pair = files.pair) ∨
      ((recovered^[more + 1] state).journal = false ∧ (recovered^[more + 1] state).pair =
        (files.applyAll ops).pair) := by
    have once : ∀ state, state.journal = false → (recovered state).journal = false ∧
      (recovered state).pair = state.pair := by
      intro state noJournal
      have all_ := quiet_take noJournal (recoverPackedVacuum state).length
      rw [List.take_length] at all_
      exact all_
    induction more with
    | zero =>
      rcases interrupted_safe journaled quiet interrupted with ⟨noJournal,same⟩ | ⟨newPacked,newTable,ends,stage⟩
      · obtain ⟨still,pair⟩ := once state noJournal
        exact .inl ⟨still,pair.trans same⟩
      · obtain ⟨-,next,still⟩ := stage.recover 0
        exact .inr ⟨still,(next.pair still).trans ends.symm⟩
    | succ more ih =>
      rw [Function.iterate_succ_apply']
      rcases ih with ⟨noJournal,same⟩ | ⟨noJournal,same⟩
      · obtain ⟨still,pair⟩ := once _ noJournal
        exact .inl ⟨still,pair.trans same⟩
      · obtain ⟨still,pair⟩ := once _ noJournal
        exact .inr ⟨still,pair.trans same⟩
  exact settled.imp (fun both => both.2) fun both => both.2

end

theorem appended (payloads : List Bytes) (files : VacuumFiles) {bytes : Bytes} (there : files.newPacked = some bytes) :
    files.applyAll (payloads.map .appendNew) = {files with newPacked := some (bytes ++ payloads.flatten)} := by
  induction payloads generalizing files bytes with
  | nil =>
    rw [List.flatten_nil,List.append_nil,← there]
    rfl
  | cons payload payloads ih =>
    have next : (files.apply (.appendNew payload)).newPacked =
      some (bytes ++ payload) := by rw [VacuumFiles.apply,there,Option.map_some]
    rw [List.map_cons,VacuumFiles.applyAll,List.foldl_cons]
    refine (ih (files.apply (.appendNew payload)) next).trans ?_
    rw [List.flatten_cons,List.append_assoc]
    rfl

theorem patched (patches : List (Nat × Bytes)) (files : VacuumFiles) {bytes : Bytes}
    (there : files.tableCopy = some bytes) :
    files.applyAll (patches.map .patchCopy) = {files with
      tableCopy := some (Library.Patch.overwriteAll bytes patches)} := by
  induction patches generalizing files bytes with
  | nil =>
    rw [Library.Patch.overwriteAll,List.foldl_nil,← there]
    rfl
  | cons patch patches ih =>
    have next : (files.apply (.patchCopy patch)).tableCopy =
      some (Library.Patch.overwrite bytes patch) := by rw [VacuumFiles.apply,there,Option.map_some]
    rw [List.map_cons,VacuumFiles.applyAll,List.foldl_cons]
    exact ih (files.apply (.patchCopy patch)) next

theorem prepared_files (files : VacuumFiles) (payloads : List Bytes) (patches : List (Nat × Bytes)) :
    files.applyAll ((.createNew :: payloads.map .appendNew) ++ (.copyTable :: patches.map .patchCopy)) =
      {files with
        newPacked := some payloads.flatten,tableCopy := some (Library.Patch.overwriteAll files.table patches)} := by
  rw [applyAll_append]
  change (((files.apply .createNew).applyAll (payloads.map .appendNew)).apply .copyTable).applyAll
    (patches.map .patchCopy) = _
  rw [appended payloads (files.apply .createNew) rfl]
  exact patched patches _ rfl

theorem prepares_writes (payloads : List Bytes) :
    ∀ op ∈ (FileOp.createNew :: payloads.map .appendNew), op.prepares = true := by
  intro op member
  rcases List.mem_cons.mp member with rfl | appends
  · rfl
  · obtain ⟨payload,-,rfl⟩ := List.mem_map.mp appends
    rfl

theorem prepares_all (payloads : List Bytes) (patches : List (Nat × Bytes)) :
    ∀ op ∈ (FileOp.createNew :: payloads.map .appendNew) ++ (.copyTable :: patches.map .patchCopy), op.prepares =
    true := by
  intro op member
  rcases List.mem_append.mp member with writes | copies
  · exact prepares_writes payloads op writes
  · rcases List.mem_cons.mp copies with rfl | patching
    · rfl
    · obtain ⟨patch,-,rfl⟩ := List.mem_map.mp patching
      rfl

theorem published_ops (files : VacuumFiles) (payloads : List Bytes) (patches : List (Nat × Bytes)) :
    Journaled files (((.createNew :: payloads.map .appendNew) ++
      (.copyTable :: (patches.map .patchCopy ++ [.writeJournal]))) ++
      recoverPackedVacuum (files.applyAll ((.createNew :: payloads.map .appendNew) ++
        (.copyTable :: (patches.map .patchCopy ++ [.writeJournal]))))) := by
  have made := prepared_files files payloads patches
  have journaled := Journaled.published (prepares_all payloads patches) (by rw [made]) (by rw [made])
  simpa using journaled

theorem vacuum_journaled (settled : Bool) (footer : V4Footer) (files : VacuumFiles) :
    Journaled files (vacuumPackedBlobs settled footer files).2 := by
  unfold vacuumPackedBlobs
  split
  · exact .prepared nofun
  · exact .prepared nofun
  · rename_i located packed prepared
    dsimp only
    split
    · exact .prepared (prepares_writes _)
    · split
      · refine .prepared fun op member => ?_
        rcases List.mem_append.mp member with writes | copies
        · exact prepares_writes _ op writes
        · cases List.mem_singleton.mp copies
          rfl
      · exact published_ops _ _ _

end Crash

end ApexBase.Blob
