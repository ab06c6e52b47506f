import ApexBase.Blob.Compact
import Mathlib.Algebra.Order.BigOperators.Group.List

/-! When the vacuum of packed blobs is complete. The source computes the position of a descriptor
from the rows of the whole table, so it is right for tables with rows in one row group. -/
namespace ApexBase.Blob
open Data Library Library.Wire Library.Assoc Column GroupFile
open Storage.Schema (Failure failed)
open Storage.Footer (RowGroupMeta V4Footer)

def FlatTable.moved (table : FlatTable) (footer : V4Footer) (newOffset : Nat → Nat) : FlatTable :=
  {table with groups := table.groups.map fun entry => (entry.1,entry.2.movedAt newOffset (blobColumns footer))}

/-- A live row with a packed descriptor in a blob column. -/
structure LivePacked (footer : V4Footer) (table : FlatTable) (group : FlatGroup) (column row : Nat) (cell : Bytes)
    (descriptor : BlobDescriptor) : Prop where
  stored : ∃ gap, (gap,group) ∈ table.groups
  listed : column ∈ blobColumns footer
  there : (group.cells column)[row]? = some cell
  live : bitIsSet group.deleted row = false
  packed : packedCell cell = some descriptor

def readPacked (packed : Bytes) (cell : Bytes) : Option (Except Failure Bytes) :=
  (packedCell cell).map fun descriptor => readExact packed (packedOffset descriptor) descriptor.len

def FlatGroup.payloadBytes (group : FlatGroup) (column : Nat) : Nat := ((group.located 0 column).map Located.len).sum

/-- The packed file has the payloads of the live rows. -/
structure Consistent (footer : V4Footer) (table : FlatTable) (files : VacuumFiles) : Prop where
  file : files.table = table.bytes
  payloads : ∀ group column row cell descriptor, LivePacked footer table group column row cell descriptor →
    ∃ packed, files.packed = some packed ∧ packedOffset descriptor + descriptor.len ≤ packed.length
  total : (table.groups.map fun entry => ((blobColumns footer).map entry.2.payloadBytes).sum).sum < 2^64

/-- The vacuum succeeds, changes the table in the locators of live packed cells only, and every such cell reads in the
new packed file what it read in the old one. -/
def Complete (footer : V4Footer) (table : FlatTable) (files : VacuumFiles) : Prop :=
  ∃ saved newOffset, (vacuumPackedBlobs true footer files).1 = .ok saved ∧
    (files.applyAll (vacuumPackedBlobs true footer files).2).table = (table.moved footer newOffset).bytes ∧
    ∀ group column row cell descriptor, LivePacked footer table group column row cell descriptor →
      ∃ packed newPacked payload cell', files.packed = some packed ∧
      (files.applyAll (vacuumPackedBlobs true footer files).2).packed = some newPacked ∧
        ((group.movedAt newOffset (blobColumns footer)).cells column)[row]? = some cell' ∧
        readPacked packed cell = some (.ok payload) ∧ readPacked newPacked cell' = some (.ok payload)

/-- There is no packed file, or every row group with rows has all blob columns, and rows are in one row group or no
cell is packed that the deletion vectors of all row groups, one behind the other, leave live. -/
def Vacuumable (footer : V4Footer) (table : FlatTable) (files : VacuumFiles) : Prop :=
  files.packed = none ∨ (∀ column ∈ blobColumns footer, ∀ entry ∈ table.groups, entry.2.rows ≠ 0 → entry.2.Has column) ∧
    ((table.groups.filter fun entry => entry.2.rows ≠ 0).length ≤ 1 ∨
      ∀ column ∈ blobColumns footer, ∀ row cell, (allCells column table.groups)[row]? = some cell →
        bitIsSet (allDeleted table.groups) row = false → packedCell cell = none)

section Unmoved

variable {footer : V4Footer} {table : FlatTable}

theorem moveCell_none {aim : Nat → Bytes → Option Nat} {row : Nat} {cell : Bytes} (none_ : aim row cell = none) :
    moveCell aim row cell = cell := by
  rw [moveCell,none_]

theorem mapIdx_same {α : Type} {f : Nat → α → α} {items : List α}
    (same : ∀ index item, items[index]? = some item → f index item = item) :
    items.mapIdx f = items := by
  refine List.ext_getElem? fun index => ?_
  rw [List.getElem?_mapIdx]
  cases there : items[index]? with
  | none => rfl
  | some item => rw [Option.map_some, same index item there]

theorem moved_same {group : FlatGroup} {newOffset : Nat → Nat} {columns : List Nat}
    (same : ∀ column ∈ columns, ∀ row cell, (group.cells column)[row]? = some cell →
      moveCell (target group.deleted newOffset) row cell = cell) :
    group.movedAt newOffset columns = group := by
  unfold FlatGroup.movedAt
  rw [mapIdx_same]
  intro column content there
  split
  · rename_i inside
    cases content with
    | other bytes => rfl
    | blobs nulls cells =>
      have here : group.cells column = cells := by rw [FlatGroup.cells, there]
      rw [moveSection, mapIdx_same fun row cell found => same column inside row cell (by rw [here]; exact found)]
  · rfl

theorem moveCell_id (deleted : Bytes) (row : Nat) (cell : Bytes) : moveCell (target deleted id) row cell = cell := by
  by_cases gone : bitIsSet deleted row = true
  · exact moveCell_none (if_pos gone)
  · cases packed : packedCell cell with
    | none => exact moveCell_none (by rw [target, packed, Option.map_none, ite_self])
    | some descriptor =>
      rw [moveCell, target, if_neg gone, packed, Option.map_some]
      exact relocate_same packed

theorem moved_id (group : FlatGroup) (columns : List Nat) : group.movedAt id columns = group :=
  moved_same fun _ _ row cell _ => moveCell_id group.deleted row cell

theorem table_moved_id : table.moved footer id = table := by
  unfold FlatTable.moved
  have same : (table.groups.map fun entry => (entry.1, entry.2.movedAt id (blobColumns footer))) = table.groups := by
    conv_rhs => rw [← List.map_id table.groups]
    refine List.map_congr_left fun entry _ => ?_
    rw [moved_id]
    rfl
  rw [same]

theorem readExact_ok {file : Bytes} {offset len : Nat} (inside : offset + len ≤ file.length) :
    readExact file offset len = .ok ((file.drop offset).take len) := if_pos (Or.inl inside)

/-- A vacuum that finds nothing leaves every payload where it is. -/
theorem complete_of_nothing {files : VacuumFiles} (consistent : Consistent footer table files)
    (nothing : prepareVacuum true footer files = .ok none) : Complete footer table files := by
  have done : vacuumPackedBlobs true footer files = (.ok 0, []) := by rw [vacuumPackedBlobs, nothing]
  refine ⟨0, id, by rw [done], ?_, fun group column row cell descriptor live => ?_⟩
  · rw [done, table_moved_id]
    exact consistent.file
  · obtain ⟨packed, there, bound⟩ := consistent.payloads group column row cell descriptor live
    have read : readPacked packed cell = some (.ok ((packed.drop (packedOffset descriptor)).take descriptor.len)) := by
      rw [readPacked, live.packed, Option.map_some, readExact_ok bound]
    exact ⟨packed, packed, _, cell, there, by rw [done]; exact there, by rw [moved_id]; exact live.there, read, read⟩

end Unmoved

section Prepare

variable {footer : V4Footer} {table : FlatTable}

theorem forM_ok {α : Type} {f : α → Except Failure Unit} {items : List α} (each : ∀ item ∈ items, f item = .ok ()) :
    items.forM f = .ok () := by
  induction items with
  | nil => rfl
  | cons item items ih =>
    rw [List.forM,each item List.mem_cons_self,ok_bind]
    exact ih fun item member => each item (List.mem_cons_of_mem _ member)

theorem groups_accepted {groups : List (Bytes × FlatGroup)} {metas : List RowGroupMeta} {index position : Nat}
    {front tail : Bytes} (fits : ∀ entry ∈ groups, entry.2.Fits)
    (described : Describes footer index position metas groups) (length : front.length = position) :
    ∀ rgMeta ∈ metas, checkGroup (front ++ (groupsBytes groups ++ tail)) rgMeta = .ok () := by
  induction groups generalizing metas index position front with
  | nil =>
    cases metas with
    | nil => exact nofun
    | cons rgMeta metas => exact described.elim
  | cons entry groups ih =>
    obtain ⟨gap,group⟩ := entry
    cases metas with
    | nil => exact nofun
    | cons rgMeta metas =>
      obtain ⟨here,rest⟩ := described
      have behind : front ++ (groupsBytes ((gap,group) :: groups) ++ tail) = (front ++ gap ++ group.bytes) ++
        (groupsBytes groups ++ tail) := by
        rw [groupsBytes]
        simp only [List.append_assoc]
      intro rgMeta' member
      rcases List.mem_cons.mp member with rfl | later
      · have fitting : group.Fits := fits (gap,group) List.mem_cons_self
        have whole : front ++ (groupsBytes ((gap,group) :: groups) ++ tail) =
          (front ++ gap) ++ (group.bytes ++ (groupsBytes groups ++ tail)) := by
          rw [behind]
          simp only [List.append_assoc]
        have offset : rgMeta'.offset.toNat = (front ++ gap).length := by rw [List.length_append,length,here.offset]
        have long := length_bytes fitting
        have flag : ∀ position, position < 4 →
            ((front ++ gap) ++ (group.bytes ++ (groupsBytes groups ++ tail)))[(front ++ gap).length +
              (28 + position)]? = group.flags[position]? := by
          intro position inside
          rw [List.getElem?_append_right (Nat.le_add_right _ _),Nat.add_sub_cancel_left,
            List.getElem?_append_left (by omega),flag_at fitting inside]
        have room : ¬ (front ++ gap).length + 32 > ((front ++ gap) ++
          (group.bytes ++ (groupsBytes groups ++ tail))).length := by
          have total : ((front ++ gap) ++ (group.bytes ++ (groupsBytes groups ++ tail))).length =
              (front ++ gap).length + (group.bytes.length + (groupsBytes groups ++
                tail).length) := by simp only [List.length_append]
          omega
        rw [whole,checkGroup,offset,if_neg room,flag 0 (by omega),flag 1 (by omega)]
        rfl
      · rw [behind]
        exact @ih metas (index + 1) _ (front ++ gap ++ group.bytes) (fun entry inside =>
          fits entry (List.mem_cons_of_mem _ inside)) rest
          (by rw [List.length_append,List.length_append,length]) rgMeta' later

theorem prepare_flat (flat : Flat footer table) {files : VacuumFiles} (same : files.table = table.bytes)
    {packed : Bytes} (there : files.packed = some packed) (some_ : blobColumns footer ≠ []) {located : List Located}
    (found : locateAll table.bytes footer = .ok located) :
    prepareVacuum true footer files = .ok (if located = [] then none else some (located,packed)) := by
  have accepted := @groups_accepted footer table.groups footer.rowGroups 0 table.lead.length table.lead table.tail
    flat.fits flat.metas rfl
  unfold prepareVacuum
  rw [if_neg (by decide),if_neg some_,there]
  dsimp only
  rw [flat.chunks,if_neg Bool.false_ne_true,same,FlatTable.bytes,forM_ok accepted,ok_bind]
  rw [FlatTable.bytes] at found
  rw [found,ok_bind]
  rfl

theorem locateAll_columns {located : Nat → List Located}
    (each : ∀ column ∈ blobColumns footer, locateColumn table.bytes footer column = .ok (located column)) :
    locateAll table.bytes footer = .ok ((blobColumns footer).flatMap located) := by
  unfold locateAll
  rw [mapM_ok each,ok_bind,List.flatMap_def]
  rfl

end Prepare

section Only

variable {footer : V4Footer} {table : FlatTable} {gap : Bytes} {group : FlatGroup}

theorem cells_of_empty (fits : group.Fits) (empty : group.rows = 0) (column : Nat) : group.cells column = [] := by
  unfold FlatGroup.cells
  split
  · rename_i nulls cells there
    have count := (fits.columns nulls cells (mem_columns there)).count
    rw [empty] at count
    exact List.length_eq_zero_iff.mp count
  · rfl

theorem only_mem (only : (table.groups.filter fun entry => entry.2.rows ≠ 0) = [(gap,group)]) :
    (gap,group) ∈ table.groups ∧ group.rows ≠ 0 ∧ ∀ entry ∈ table.groups, entry.2.rows ≠ 0 → entry = (gap,group) := by
  have member : (gap,group) ∈ table.groups.filter fun entry => entry.2.rows ≠
    0 := by rw [only]; exact List.mem_cons_self
  obtain ⟨inside,some_⟩ := List.mem_filter.mp member
  refine ⟨inside,by simpa using some_,fun entry listed rows => ?_⟩
  have found : entry ∈ table.groups.filter fun entry => entry.2.rows ≠ 0 :=
    List.mem_filter.mpr ⟨listed,by simpa using rows⟩
  rw [only] at found
  exact List.mem_singleton.mp found

theorem group_of_live (flat : Flat footer table)
    (only : (table.groups.filter fun entry => entry.2.rows ≠ 0) = [(gap,group)]) {other : FlatGroup} {column row : Nat}
    {cell : Bytes} {descriptor : BlobDescriptor} (live : LivePacked footer table other column row cell descriptor) :
    other = group := by
  obtain ⟨gap',member⟩ := live.stored
  have some_ : other.rows ≠ 0 := by
    intro empty
    have there := live.there
    rw [cells_of_empty (flat.fits (gap',other) member) empty] at there
    cases there
  exact (Prod.mk.inj ((only_mem only).2.2 (gap',other) member some_)).2

theorem located_of_live (fits : group.Fits) {column row : Nat} {cell : Bytes} {descriptor : BlobDescriptor}
    (live : LivePacked footer table group column row cell descriptor) (position : Nat) :
    ∃ entry ∈ group.located position column, entry.offset = packedOffset descriptor ∧ entry.len = descriptor.len := by
  have inside : row < group.rows := by
    obtain ⟨bound,-⟩ := List.getElem?_eq_some_iff.mp live.there
    rcases Nat.eq_zero_or_pos group.rows with empty | some_
    · rw [cells_of_empty fits empty] at bound
      cases bound
    · unfold FlatGroup.cells at bound
      split at bound
      · rename_i nulls cells there
        rwa [(fits.columns nulls cells (mem_columns there)).count] at bound
      · cases bound
  refine ⟨⟨group.dataStart position column + ((group.cells column).take row).flatten.length + 22,
    packedOffset descriptor,descriptor.len⟩,?_,rfl,rfl⟩
  refine List.mem_filterMap.mpr ⟨row,List.mem_range.mpr inside,?_⟩
  rw [locatedCell,live.live,if_neg Bool.false_ne_true,live.there,Option.bind_some,live.packed,Option.map_some]

theorem live_of_located (member : (gap,group) ∈ table.groups) {column position : Nat}
    (listed : column ∈ blobColumns footer) {entry : Located}
    (found : entry ∈ group.located position column) :
    ∃ row cell descriptor, LivePacked footer table group column row cell descriptor ∧
    entry.offset = packedOffset descriptor ∧ entry.len = descriptor.len := by
  obtain ⟨row,-,located⟩ := List.mem_filterMap.mp found
  unfold locatedCell at located
  split at located
  · cases located
  · rename_i live
    obtain ⟨cell,there,located⟩ := Option.bind_eq_some_iff.mp located
    obtain ⟨descriptor,packed,rfl⟩ := Option.map_eq_some_iff.mp located
    exact ⟨row,cell,descriptor,⟨⟨gap,member⟩,listed,there,Bool.not_eq_true _ ▸ live,packed⟩,rfl,rfl⟩

theorem patches_located (group : FlatGroup) (position : Nat) (columns : List Nat) {newOffsets : Map Nat Nat}
    (has : ∀ column ∈ columns, group.Has column) (fits : group.Fits)
    (known : ∀ column ∈ columns, ∀ entry ∈ group.located position column,
      (newOffsets.lookup entry.offset).isSome = true) :
    patches (columns.flatMap (group.located position)) newOffsets =
      some (columns.flatMap (group.columnPatches (fun offset => (newOffsets.lookup offset).getD 0) position)) := by
  have each : ∀ entry ∈ columns.flatMap (group.located position),
      ((newOffsets.lookup entry.offset).map fun offset => (entry.position,leBytes 8 offset)) =
        some (entry.position,leBytes 8 ((newOffsets.lookup entry.offset).getD 0)) := by
    intro entry member
    obtain ⟨column,listed,found⟩ := List.mem_flatMap.mp member
    obtain ⟨offset,there⟩ := Option.isSome_iff_exists.mp (known column listed entry found)
    rw [there]
    rfl
  have all_ : patches (columns.flatMap (group.located position)) newOffsets =
    some ((columns.flatMap (group.located position)).map fun entry =>
      (entry.position,leBytes 8 ((newOffsets.lookup entry.offset).getD 0))) := by
    unfold patches
    generalize columns.flatMap (group.located position) = entries at each
    induction entries with
    | nil => rfl
    | cons entry entries ih =>
      rw [List.mapM_cons,each entry List.mem_cons_self,ih fun entry member =>
        each entry (List.mem_cons_of_mem _ member)]
      rfl
  rw [all_,List.map_flatMap]
  congr 1
  refine List.flatMap_congr fun column listed => ?_
  obtain ⟨nulls,there⟩ := (has column listed).at
  have count := (fits.columns nulls _ (mem_columns there)).count
  unfold FlatGroup.located FlatGroup.columnPatches cellPatches
  rw [List.map_filterMap,List.map_filterMap,count]
  refine List.filterMap_congr fun row _ => ?_
  unfold locatedCell target
  cases bitIsSet group.deleted row with
  | true =>
    cases (group.cells column)[row]? with
    | none => rfl
    | some cell => rfl
  | false =>
    cases (group.cells column)[row]? with
    | none => rfl
    | some cell =>
      simp only [Option.bind_some,Bool.false_eq_true,if_false]
      cases packedCell cell with
      | none => rfl
      | some descriptor =>
        simp only [Option.map_some,Patch.shift,Nat.add_assoc]

theorem extents_small (located : List Located) :
    ((distinctExtents located).map Prod.snd).sum ≤ (located.map Located.len).sum := by
  have sublist := (sublist_dedup ((located.map fun entry => (entry.offset,entry.len)).mergeSort pairLe)).map Prod.snd
  have perm := (List.mergeSort_perm (located.map fun entry => (entry.offset,entry.len)) pairLe).map Prod.snd
  calc ((distinctExtents located).map Prod.snd).sum
      ≤ (((located.map fun entry => (entry.offset,entry.len)).mergeSort pairLe).map Prod.snd).sum :=
        sublist.sum_le_sum fun _ _ => Nat.zero_le _
    _ = ((located.map fun entry => (entry.offset,entry.len)).map Prod.snd).sum := perm.sum_eq
    _ = (located.map Located.len).sum := by rw [List.map_map]; rfl

theorem payloads_small (group : FlatGroup) (position : Nat) (columns : List Nat) :
    ((columns.flatMap (group.located position)).map Located.len).sum = (columns.map group.payloadBytes).sum := by
  have same : ∀ column, (group.located position column).map Located.len = (group.located 0 column).map Located.len := by
    intro column
    unfold FlatGroup.located
    rw [List.map_filterMap,List.map_filterMap]
    refine List.filterMap_congr fun row _ => ?_
    unfold locatedCell
    split
    · rfl
    · rw [Option.map_bind,Option.map_bind]
      congr 1
      funext cell
      rw [Function.comp_apply,Function.comp_apply,Option.map_map,Option.map_map]
      rfl
  induction columns with
  | nil => rfl
  | cons column columns ih =>
    rw [List.flatMap_cons,List.map_append,List.sum_append,ih,List.map_cons,List.sum_cons,same column]
    rfl

theorem readPacked_moved {cell newPacked : Bytes} {descriptor : BlobDescriptor}
    (packed : packedCell cell = some descriptor) {offset : Nat}
    (small : offset < 2^64) : readPacked newPacked (relocate offset cell) =
    some (readExact newPacked offset descriptor.len) := by
  have decoded := decode_relocate packed offset
  have mode := (packedCell_spec packed).2.1
  have found : packedCell (relocate offset cell) = some {descriptor with locator := leBytes 8 offset} := by
    rw [packedCell,decoded]
    refine Option.filter_eq_some_iff.mpr ⟨rfl,?_⟩
    rw [isPacked,Bool.and_eq_true,beq_iff_eq,beq_iff_eq]
    exact ⟨mode,length_leBytes _ _⟩
  rw [readPacked,found,Option.map_some,packedOffset]
  dsimp only
  rw [List.take_of_length_le (by rw [length_leBytes]),ofLe_leBytes_of_lt (show offset < 256^8 by omega)]

theorem cells_moved {columns : List Nat} {newOffset : Nat → Nat} {column row : Nat} {cell : Bytes}
    (listed : column ∈ columns)
    (there : (group.cells column)[row]? = some cell) :
    ((group.movedAt newOffset columns).cells column)[row]? =
    some (moveCell (target group.deleted newOffset) row cell) := by
  unfold FlatGroup.cells at there ⊢
  rw [FlatGroup.movedAt]
  dsimp only
  rw [List.getElem?_mapIdx]
  split at there
  · rename_i nulls cells found
    rw [found,Option.map_some,if_pos listed]
    dsimp only [moveSection]
    rw [List.getElem?_mapIdx,there,Option.map_some]
  · cases there

theorem vacuum_published {files : VacuumFiles} {located : List Located} {packed : Bytes} {payloads : List Bytes}
    {copied : Map Nat Nat} {list : List (Nat × Bytes)}
    (prepared : prepareVacuum true footer files = .ok (some (located,packed)))
    (done : copyPayloads packed (distinctExtents located) 0 ∅ = (none,payloads,copied))
    (found : patches located copied = some list) :
    (vacuumPackedBlobs true footer files).1 = .ok (packed.length - (payloads.map List.length).sum) ∧
    (files.applyAll (vacuumPackedBlobs true footer files).2).pair =
    (Patch.overwriteAll files.table list,some payloads.flatten) := by
  have made := prepared_files files payloads list
  have pair := @published_pair files _ payloads.flatten (Patch.overwriteAll files.table list) (by rw [made])
    (by rw [made])
  have ops : vacuumPackedBlobs true footer files = (.ok (packed.length - (payloads.map List.length).sum),
      ((((.createNew :: payloads.map .appendNew) ++ (.copyTable :: list.map .patchCopy)) ++ [.writeJournal]) ++
        recoverPackedVacuum (files.applyAll (((.createNew :: payloads.map .appendNew) ++
          (.copyTable :: list.map .patchCopy)) ++ [.writeJournal])))) := by
    unfold vacuumPackedBlobs
    rw [prepared]
    dsimp only
    rw [done]
    dsimp only
    rw [found]
    simp only [List.append_assoc,List.cons_append]
  rw [ops]
  exact ⟨rfl,pair⟩

theorem only_table (flat : Flat footer table)
    (only : (table.groups.filter fun entry => entry.2.rows ≠ 0) = [(gap,group)]) :
    ∃ number rgMeta before after, numbered 0 0 footer.rowGroups = [(number,0,rgMeta)] ∧
    Meta before.length group footer.colOffsets[number]? rgMeta ∧
      table.bytes = before ++ (group.bytes ++ after) ∧
      ∀ newOffset, (table.moved footer newOffset).bytes = before ++
      ((group.movedAt newOffset (blobColumns footer)).bytes ++ after) := by
  obtain ⟨member,rows,others⟩ := only_mem only
  obtain ⟨number,rgMeta,before,after,numbers,described,bytes⟩ := only_group flat.metas only table.lead table.tail rfl 0
  have whole : table.bytes = before ++ (group.bytes ++ after) := by
    have same : (table.groups.map fun entry => if entry.2.rows = 0 then entry else (entry.1,group)) = table.groups := by
      conv_rhs => rw [← List.map_id table.groups]
      refine List.map_congr_left fun entry inside => ?_
      by_cases empty : entry.2.rows = 0
      · exact if_pos empty
      · rw [if_neg empty,others entry inside empty]
        rfl
    rw [← bytes group,same,FlatTable.bytes]
  have movedBytes : ∀ newOffset, (table.moved footer newOffset).bytes = before ++
    ((group.movedAt newOffset (blobColumns footer)).bytes ++ after) := by
    intro newOffset
    have same : (table.groups.map fun entry => if entry.2.rows = 0 then entry
      else (entry.1,group.movedAt newOffset (blobColumns footer))) =
        table.groups.map fun entry => (entry.1,entry.2.movedAt newOffset (blobColumns footer)) := by
      refine List.map_congr_left fun entry inside => ?_
      by_cases empty : entry.2.rows = 0
      · rw [if_pos empty,moved_same fun column _ row cell found => ?_]
        rw [cells_of_empty (flat.fits entry inside) empty] at found
        cases found
      · rw [if_neg empty,others entry inside empty]
    rw [← bytes (group.movedAt newOffset (blobColumns footer)),same,FlatTable.bytes,FlatTable.moved]
  exact ⟨number,rgMeta,before,after,numbers,described,whole,movedBytes⟩

theorem complete_only {files : VacuumFiles} (flat : Flat footer table) (consistent : Consistent footer table files)
    {packed : Bytes} (there : files.packed = some packed) (some_ : blobColumns footer ≠ [])
    (has : ∀ column ∈ blobColumns footer, ∀ entry ∈ table.groups, entry.2.rows ≠ 0 → entry.2.Has column)
    (only : (table.groups.filter fun entry => entry.2.rows ≠ 0) = [(gap,group)]) : Complete footer table files := by
  obtain ⟨member,rows,others⟩ := only_mem only
  have fits : group.Fits := flat.fits (gap,group) member
  have hasColumns : ∀ column ∈ blobColumns footer, group.Has column :=
    fun column listed => has column listed (gap,group) member rows
  obtain ⟨number,rgMeta,before,after,numbers,described,whole,movedBytes⟩ := only_table flat only
  have found := @locateAll_columns footer table _ fun column listed =>
    locateColumn_only fits rows whole described numbers (mem_blobColumns listed) (hasColumns column listed)
  have prepared := prepare_flat flat consistent.file there some_ found
  by_cases nothing : (blobColumns footer).flatMap (group.located before.length) = []
  · rw [if_pos nothing] at prepared
    exact complete_of_nothing consistent prepared
  · rw [if_neg nothing] at prepared
    -- the payloads that are copied are in the packed file
    have inside : ∀ extent ∈ distinctExtents ((blobColumns footer).flatMap (group.located before.length)),
      extent.1 + extent.2 ≤ packed.length := by
      intro extent listed
      obtain ⟨entry,located,rfl⟩ := mem_distinctExtents.mp listed
      obtain ⟨column,blob,located⟩ := List.mem_flatMap.mp located
      obtain ⟨row,cell,descriptor,live,offset,len⟩ := live_of_located member blob located
      obtain ⟨packed',same,bound⟩ := consistent.payloads group column row cell descriptor live
      rw [there] at same
      cases same
      rw [offset,len]
      exact bound
    obtain ⟨payloads,copied,done,total,-,each⟩ := copyPayloads_spec packed _ (distinctExtents_sorted _) inside 0 ∅
    have known : ∀ column ∈ blobColumns footer, ∀ entry ∈ group.located before.length column,
      (copied.lookup entry.offset).isSome = true := by
      intro column blob entry located
      obtain ⟨start,len,copiedTo,-⟩ :=
        each (entry.offset,entry.len) (mem_distinctExtents.mpr ⟨entry,List.mem_flatMap.mpr ⟨column,blob,located⟩,rfl⟩)
      rw [copiedTo]
      rfl
    have patched_ := patches_located group before.length (blobColumns footer) hasColumns fits known
    obtain ⟨returned,pair⟩ := vacuum_published prepared done patched_
    have small : payloads.flatten.length < 2^64 := by
      have entry : ((blobColumns footer).map group.payloadBytes).sum ≤
          (table.groups.map fun entry => ((blobColumns footer).map entry.2.payloadBytes).sum).sum :=
        List.le_sum_of_mem (List.mem_map.mpr ⟨(gap,group),member,rfl⟩)
      have extents := extents_small ((blobColumns footer).flatMap (group.located before.length))
      have bound := consistent.total
      rw [payloads_small] at extents
      omega
    refine ⟨_,fun offset => (copied.lookup offset).getD 0,returned,?_,?_⟩
    · have table_ := congrArg Prod.fst pair
      dsimp only [VacuumFiles.pair] at table_
      rw [table_,consistent.file,whole,overwrite_columns fits _ _ (nodup_blobColumns footer) hasColumns,movedBytes]
    · intro other column row cell descriptor live
      cases group_of_live flat only live
      obtain ⟨entry,located,offset,len⟩ := located_of_live fits live before.length
      obtain ⟨start,most,copiedTo,longer,room,equal⟩ := each (entry.offset,entry.len)
        (mem_distinctExtents.mpr ⟨entry,List.mem_flatMap.mpr ⟨column,live.listed,located⟩,rfl⟩)
      dsimp only at copiedTo longer equal
      rw [Nat.zero_add,offset] at copiedTo
      rw [len] at longer
      rw [offset] at equal
      obtain ⟨packed',same,bound⟩ := consistent.payloads group column row cell descriptor live
      rw [there] at same
      cases same
      refine ⟨packed,payloads.flatten,(packed.drop (packedOffset descriptor)).take descriptor.len,_,there,
        congrArg Prod.snd pair,
        cells_moved live.listed live.there,?_,?_⟩
      · rw [readPacked,live.packed,Option.map_some,readExact_ok bound]
      · have aim : target group.deleted (fun offset => (copied.lookup offset).getD 0) row cell = some start := by
          rw [target,live.live,if_neg Bool.false_ne_true,live.packed,Option.map_some,copiedTo,Option.getD_some]
        have shorter := congrArg (List.take descriptor.len) equal
        rw [List.take_take,List.take_take,Nat.min_eq_left longer] at shorter
        rw [moveCell,aim]
        dsimp only
        rw [readPacked_moved live.packed (by omega),readExact_ok (by omega),shorter]

section
variable {files : VacuumFiles} (flat : Flat footer table)
include flat

theorem prepare_unpacked (same : files.table = table.bytes) {packed : Bytes} (there : files.packed = some packed)
    (some_ : blobColumns footer ≠ [])
    (has : ∀ column ∈ blobColumns footer, ∀ entry ∈ table.groups, entry.2.rows ≠ 0 → entry.2.Has column)
    (none_ : ∀ column ∈ blobColumns footer, ∀ row cell, (allCells column table.groups)[row]? = some cell →
      bitIsSet (allDeleted table.groups) row = false → packedCell cell = none) :
    prepareVacuum true footer files = .ok none := by
  have found := @locateAll_columns footer table (fun _ => []) fun column listed =>
    locateColumn_none flat (mem_blobColumns listed) (has column listed) (none_ column listed)
  have prepared := prepare_flat flat same there some_ found
  rw [if_pos (List.flatMap_eq_nil_iff.mpr fun _ _ => rfl)] at prepared
  exact prepared

theorem complete_of_vacuumable (consistent : Consistent footer table files)
    (vacuumable : Vacuumable footer table files) : Complete footer table files := by
  by_cases none_ : blobColumns footer = []
  · exact complete_of_nothing consistent (by rw [prepareVacuum, if_neg (by decide), if_pos none_])
  cases there : files.packed with
  | none =>
    exact complete_of_nothing consistent (by rw [prepareVacuum, if_neg (by decide), if_neg none_, there])
  | some packed =>
    rcases vacuumable with absent | ⟨has,few | unpacked⟩
    · rw [there] at absent
      cases absent
    · -- no row group with rows has no cells
      match only : table.groups.filter fun entry => entry.2.rows ≠ 0 with
      | [] =>
        refine complete_of_nothing consistent (prepare_unpacked flat consistent.file there none_ has fun column _ row
          cell found => ?_)
        rw [allCells, only] at found
        cases found
      | [(gap,group)] => exact complete_only flat consistent there none_ has only
      | first :: second :: rest =>
        rw [only,List.length_cons,List.length_cons] at few
        omega
    · exact complete_of_nothing consistent (prepare_unpacked flat consistent.file there none_ has unpacked)

end

end Only

/-- The vacuum is complete for tables with rows in one row group, and atomic for all tables. -/
theorem vacuum_complete_and_atomic (footer : V4Footer) (table : FlatTable) (files : VacuumFiles) :
    (Flat footer table → Consistent footer table files → Vacuumable footer table files → Complete footer table files) ∧
    ∀ settled state more, files.journal = false → Interrupted files (vacuumPackedBlobs settled footer files).2 state →
      (recovered^[more + 1] state).pair = files.pair ∨
      (recovered^[more + 1] state).pair = (files.applyAll (vacuumPackedBlobs settled footer files).2).pair :=
  ⟨complete_of_vacuumable,fun settled _ more quiet interrupted =>
    recovered_old_or_new (vacuum_journaled settled footer files) quiet interrupted more⟩

section Sample

def samplePayload : Bytes := List.replicate 65537 0

def sampleCell : Bytes := encodeBlobDescriptor modePacked 65537 0xE50D43F3 (leBytes 8 0)

def sampleGroup (id : Nat) : FlatGroup :=
  {rows := 1,head := groupHeader 1 1 (UInt64.ofNat id) (UInt64.ofNat id) [],idEncoding := rgIdsPlain,
    ids := leBytes 8 id,deleted := [0],columns := [.blobs [0] [sampleCell]]}

def sampleTable (ids : List Nat) : FlatTable := ⟨List.replicate 256 0,ids.map fun id => ([],sampleGroup id),[]⟩

def sampleMeta (number id : Nat) : RowGroupMeta :=
  {offset := UInt64.ofNat (256 + number * 97),dataSize := 97,rowCount := 1,minId := UInt64.ofNat id,
    maxId := UInt64.ofNat id,deletionCount := 0}

def sampleFooter (ids : List Nat) : V4Footer :=
  {schema := ⟨[("photo",.blob)],[none],fun name => if name = "photo" then some 0 else none,[],[]⟩,
    rowGroups := ids.mapIdx sampleMeta,zoneMaps := [],colOffsets := ids.map fun _ => [9],chunkTables := []}

def sampleFiles (ids : List Nat) : VacuumFiles := ⟨(sampleTable ids).bytes,some samplePayload,none,none,none,false⟩

theorem sample_sections : ([Section.blobs [0] [sampleCell]].map Section.bytes).flatten.length = 56 := by decide

theorem sample_fits (id : Nat) : (sampleGroup id).Fits where
  head := by simp [sampleGroup,groupHeader,magicRowGroup,length_leBytes]
  ids := by simp [sampleGroup,length_leBytes,rgIdSectionLen,rgIdsPlain,rgIdsImplicitContiguous]
  deleted := by simp [sampleGroup]
  rows := by simp [sampleGroup]
  body := by
    rw [FlatGroup.body,List.length_append,FlatGroup.bodyFront,List.length_append,sampleGroup]
    dsimp only
    rw [sample_sections,length_leBytes]
    decide
  columns := by
    intro nulls cells member
    rw [sampleGroup] at member
    cases List.mem_singleton.mp member
    exact ⟨by simp [sampleGroup],by simp [sampleGroup],by decide⟩

theorem sample_decoded : packedCell sampleCell = some ⟨modePacked,65537,0xE50D43F3,leBytes 8 0⟩ := by decide

theorem sample_consistent (ids : List Nat) (few : ids.length < 4096) :
    Consistent (sampleFooter ids) (sampleTable ids) (sampleFiles ids) where
  file := rfl
  payloads := by
    intro group column row cell descriptor live
    obtain ⟨gap,member⟩ := live.stored
    obtain ⟨id,-,same⟩ := List.mem_map.mp member
    cases same
    have first : column = 0 := List.mem_singleton.mp live.listed
    subst first
    have only : cell = sampleCell := List.mem_singleton.mp (List.mem_of_getElem? live.there)
    have packed := live.packed
    rw [only,sample_decoded] at packed
    cases packed
    refine ⟨samplePayload,rfl,?_⟩
    rw [samplePayload,List.length_replicate]
    decide
  total := by
    have each : ∀ id, ((blobColumns (sampleFooter ids)).map (sampleGroup id).payloadBytes).sum = 65537 := by
      intro id
      have one : (sampleGroup id).located 0 0 = [⟨(sampleGroup id).dataStart 0 0 + 0 + 22,0,65537⟩] := by
        rw [FlatGroup.located]
        change [0].filterMap (locatedCell ((sampleGroup id).dataStart 0 0) [0] [sampleCell]) = _
        rw [List.filterMap_cons_some ?_,List.filterMap_nil]
        have there : [sampleCell][0]? = some sampleCell := rfl
        rw [locatedCell,if_neg (by decide),there,Option.bind_some,sample_decoded]
        rfl
      change ([0].map (sampleGroup id).payloadBytes).sum = 65537
      rw [List.map_singleton,List.sum_singleton,FlatGroup.payloadBytes,one]
      rfl
    have same : ((sampleTable ids).groups.map fun entry =>
      ((blobColumns (sampleFooter ids)).map entry.2.payloadBytes).sum) =
        List.replicate ids.length 65537 := by
      rw [sampleTable,List.map_map,← List.map_const']
      exact List.map_congr_left fun id _ => each id
    rw [same,List.sum_replicate,nsmul_eq_mul,Nat.cast_id]
    omega

theorem sample_blobs (ids : List Nat) : ∀ entry ∈ (sampleTable ids).groups, ∀ column ∈ blobColumns (sampleFooter ids),
    entry.2.columns[column]? = some (.blobs [0] [sampleCell]) := by
  intro entry member column listed
  obtain ⟨id,-,rfl⟩ := List.mem_map.mp member
  cases List.mem_singleton.mp listed
  rfl

theorem sample_flat {ids : List Nat}
    (described : Describes (sampleFooter ids) 0 (sampleTable ids).lead.length (sampleFooter ids).rowGroups
    (sampleTable ids).groups) :
    Flat (sampleFooter ids) (sampleTable ids) where
  chunks := rfl
  fits := by
    intro entry member
    obtain ⟨id,-,rfl⟩ := List.mem_map.mp member
    exact sample_fits id
  metas := described
  blobs := by
    intro entry member column listed bytes other
    rw [sample_blobs ids entry member column listed] at other
    cases other

end Sample

theorem one_group_vacuumed : Complete (sampleFooter [1]) (sampleTable [1]) (sampleFiles [1]) :=
  (vacuum_complete_and_atomic (sampleFooter [1]) (sampleTable [1]) (sampleFiles [1])).1
    (sample_flat ⟨⟨by decide +kernel,by decide +kernel,rfl,fun _ => by decide +kernel⟩,trivial⟩)
      (sample_consistent [1] (by decide))
    (.inr ⟨fun column listed entry member _ => ⟨[0],[sampleCell],sample_blobs [1] entry member column listed⟩,
      .inl (by decide)⟩)

/-- Two row groups with one row each. The position of the first descriptor is computed with the two
rows of the table, so the vacuum stops. -/
theorem two_groups_not_vacuumed :
    Flat (sampleFooter [1,2]) (sampleTable [1,2]) ∧ Consistent (sampleFooter [1,2]) (sampleTable [1,2])
      (sampleFiles [1,2]) ∧
    (vacuumPackedBlobs true (sampleFooter [1,2]) (sampleFiles [1,2])).1 =
    .error (failed "packed blob descriptor does not match the table file layout") ∧
    ¬ Complete (sampleFooter [1,2]) (sampleTable [1,2]) (sampleFiles [1,2]) := by
  have stopped : (vacuumPackedBlobs true (sampleFooter [1,2]) (sampleFiles [1,2])).1 =
      .error (failed "packed blob descriptor does not match the table file layout") := by
    have refused : (match prepareVacuum true (sampleFooter [1,2]) (sampleFiles [1,2]) with
        | .error error => some error
        | .ok _ => none) = some
          (failed "packed blob descriptor does not match the table file layout") := by decide +kernel
    rw [vacuumPackedBlobs]
    split at refused
    · rename_i error same
      rw [same]
      exact congrArg Except.error (Option.some.inj refused)
    · cases refused
  refine ⟨sample_flat ⟨⟨by decide +kernel,by decide +kernel,rfl,fun _ => by decide +kernel⟩,
    ⟨by decide +kernel,by decide +kernel,rfl,fun _ => by decide +kernel⟩,trivial⟩,sample_consistent [1,2] (by decide),
      stopped,?_⟩
  rintro ⟨saved,newOffset,returned,-⟩
  rw [stopped] at returned
  cases returned

end ApexBase.Blob
