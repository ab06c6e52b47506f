import ApexBase.Blob.Recovery
import ApexBase.Blob.Flat

/-! What the vacuum makes of a flat table: the payloads of the live descriptors in a new packed
file, and the descriptors with new offsets in the table. -/
namespace ApexBase.Blob
open Data Library Library.Wire Library.Assoc Column GroupFile
open Storage.Schema (Failure failed)
open Storage.Footer (RowGroupMeta V4Footer)

section Extents

theorem mem_dedup {α : Type} [DecidableEq α] {items : List α} {item : α} : item ∈ dedup items ↔ item ∈ items := by
  fun_induction dedup items with
  | case1 b rest ih =>
    rw [ih]
    simp
  | case2 a b rest different ih => rw [List.mem_cons,ih,List.mem_cons (a := item) (b := a)]
  | case3 short _ => rfl

theorem sublist_dedup {α : Type} [DecidableEq α] (items : List α) : (dedup items).Sublist items := by
  fun_induction dedup items with
  | case1 b rest ih => exact ih.trans (List.sublist_cons_self _ _)
  | case2 a b rest different ih => exact ih.cons_cons a
  | case3 short _ => exact List.Sublist.refl _

theorem pairLe_trans (a b c : Nat × Nat) (first : pairLe a b = true) (second : pairLe b c = true) :
    pairLe a c = true := by
  simp only [pairLe,Bool.or_eq_true,Bool.and_eq_true,decide_eq_true_iff,beq_iff_eq] at *
  omega

theorem pairLe_total (a b : Nat × Nat) : (pairLe a b || pairLe b a) = true := by
  simp only [pairLe,Bool.or_eq_true,Bool.and_eq_true,decide_eq_true_iff,beq_iff_eq]
  omega

theorem distinctExtents_sorted (located : List Located) :
    (distinctExtents located).Pairwise fun a b => pairLe a b = true :=
  (List.pairwise_mergeSort pairLe_trans pairLe_total _).sublist (sublist_dedup _)

theorem mem_distinctExtents {located : List Located} {extent : Nat × Nat} :
    extent ∈ distinctExtents located ↔ ∃ entry ∈ located, (entry.offset,entry.len) = extent := by
  rw [distinctExtents,mem_dedup,List.mem_mergeSort,List.mem_map]

/-- Every extent has its payload in the new file. Of extents with one offset the longest comes last, and the others are
beginnings of it. -/
theorem copyPayloads_spec (packed : Bytes) (extents : List (Nat × Nat))
    (sorted : extents.Pairwise fun a b => pairLe a b = true)
    (inside : ∀ extent ∈ extents, extent.1 + extent.2 ≤ packed.length) (cursor : Nat) (newOffsets : Map Nat Nat) :
    ∃ payloads copied, copyPayloads packed extents cursor newOffsets = (none,payloads,copied) ∧
      payloads.flatten.length = (extents.map Prod.snd).sum ∧
      (∀ offset, (∀ extent ∈ extents, extent.1 ≠ offset) → copied.lookup offset = newOffsets.lookup offset) ∧
      ∀ extent ∈ extents, ∃ start len, copied.lookup extent.1 = some (cursor + start) ∧ extent.2 ≤ len ∧
      start + len ≤ payloads.flatten.length ∧
        (payloads.flatten.drop start).take len = (packed.drop extent.1).take len := by
  induction extents generalizing cursor newOffsets with
  | nil => exact ⟨[],newOffsets,rfl,rfl,fun _ _ => rfl,nofun⟩
  | cons extent rest ih =>
    obtain ⟨offset,len⟩ := extent
    rw [List.pairwise_cons] at sorted
    have here := inside (offset,len) List.mem_cons_self
    obtain ⟨payloads,copied,done,total,others,each⟩ :=
      ih sorted.2 (fun extent member => inside extent (List.mem_cons_of_mem _ member))
      (cursor + len) (newOffsets.insert offset cursor)
    have read : readExact packed offset len = .ok ((packed.drop offset).take len) := if_pos (.inl here)
    have size : ((packed.drop offset).take len).length = len := by
      rw [List.length_take,List.length_drop]
      dsimp only at here
      omega
    refine ⟨(packed.drop offset).take len :: payloads,copied,?_,?_,?_,?_⟩
    · rw [copyPayloads,read]
      dsimp only
      rw [done]
    · rw [List.flatten_cons,List.length_append,size,total,List.map_cons,List.sum_cons]
    · intro other different
      rw [others other fun extent member => different extent (List.mem_cons_of_mem _ member),
        AList.lookup_insert_ne fun same => different (offset,len) List.mem_cons_self same.symm]
    · -- an extent of the rest lies behind the first payload
      have later : ∀ extent ∈ rest, ∃ start len', copied.lookup extent.1 = some (cursor + start) ∧ extent.2 ≤ len' ∧
          start + len' ≤ ((packed.drop offset).take len :: payloads).flatten.length ∧
          (((packed.drop offset).take len :: payloads).flatten.drop start).take len' =
          (packed.drop extent.1).take len' := by
        intro extent member
        obtain ⟨start,len',found,longer,room,same⟩ := each extent member
        refine ⟨len + start,len',by rw [found,Nat.add_assoc],longer,?_,?_⟩
        · rw [List.flatten_cons,List.length_append,size]
          omega
        · rw [List.flatten_cons,← List.drop_drop,List.drop_left' size]
          exact same
      intro extent member
      rcases List.mem_cons.mp member with rfl | member
      · by_cases again : ∃ extent ∈ rest, extent.1 = offset
        · obtain ⟨⟨offset',len'⟩,member',same⟩ := again
          dsimp only at same
          subst same
          have longest := sorted.1 (offset',len') member'
          obtain ⟨start,most,found,longer,room,equal⟩ := later (offset',len') member'
          refine ⟨start,most,found,Nat.le_trans ?_ longer,room,equal⟩
          simpa [pairLe] using longest
        · have only : ∀ extent ∈ rest, extent.1 ≠ offset := fun extent member same => again ⟨extent,member,same⟩
          refine ⟨0,len,?_,Nat.le_refl _,?_,?_⟩
          · rw [others offset only,AList.lookup_insert,Nat.add_zero]
          · rw [List.flatten_cons,List.length_append,size]
            omega
          · rw [List.flatten_cons,List.drop_zero,List.take_left' size]
      · exact later extent member

end Extents

section Cells

/-- The new offset of the payload of a cell, if the row is live and the payload is in the packed file. -/
def target (deleted : Bytes) (newOffset : Nat → Nat) (row : Nat) (cell : Bytes) : Option Nat :=
  if bitIsSet deleted row then none else (packedCell cell).map fun descriptor => newOffset (packedOffset descriptor)

def moveCell (aim : Nat → Bytes → Option Nat) (row : Nat) (cell : Bytes) : Bytes :=
  match aim row cell with
  | some offset => relocate offset cell
  | none => cell

/-- The patches of a list of cells, relative aim the first of them. -/
def cellPatches (aim : Nat → Bytes → Option Nat) (cells : List Bytes) : List (Nat × Bytes) :=
  (List.range cells.length).filterMap fun row =>
    (cells[row]?).bind fun cell => (aim row cell).map fun offset =>
      ((cells.take row).flatten.length + 22,leBytes 8 offset)

variable {aim : Nat → Bytes → Option Nat}

theorem cellPatches_cons (aim : Nat → Bytes → Option Nat) (cell : Bytes) (rest : List Bytes) :
    cellPatches aim (cell :: rest) = ((aim 0 cell).map fun offset => (22,leBytes 8 offset)).toList ++
      (cellPatches (fun row => aim (row + 1)) rest).map (Patch.shift cell.length) := by
  unfold cellPatches
  rw [List.length_cons,List.range_succ_eq_map,List.filterMap_cons,List.filterMap_map,List.map_filterMap]
  have tail : (List.range rest.length).filterMap ((fun row => ((cell :: rest)[row]?).bind fun cell' =>
        (aim row cell').map fun offset => (((cell :: rest).take row).flatten.length + 22,leBytes 8 offset)) ∘
          Nat.succ) =
      (List.range rest.length).filterMap fun row => ((rest[row]?).bind fun cell' =>
        (aim (row + 1) cell').map fun offset => ((rest.take row).flatten.length + 22,leBytes 8 offset)).map
          (Patch.shift cell.length) := by
    refine List.filterMap_congr fun row _ => ?_
    rw [Function.comp_apply,Nat.succ_eq_add_one,List.getElem?_cons_succ,List.take_succ_cons,List.flatten_cons,
      List.length_append]
    cases rest[row]? with
    | none => rfl
    | some cell' =>
      rw [Option.bind_some,Option.bind_some,Option.map_map]
      congr 1
  rw [tail]
  cases moved : aim 0 cell with
  | none => simp [moved]
  | some offset => simp [moved]

section
variable (roomy : ∀ row cell offset, aim row cell = some offset → 30 ≤ cell.length)
include roomy

theorem cellPatches_within (cells : List Bytes) :
    ∀ patch ∈ cellPatches aim cells, Patch.Within cells.flatten.length patch := by
  induction cells generalizing aim with
  | nil => exact nofun
  | cons cell rest ih =>
    intro patch member
    rw [cellPatches_cons,List.mem_append] at member
    rw [Patch.Within,List.flatten_cons,List.length_append]
    rcases member with first | later
    · obtain ⟨offset,moved,rfl⟩ := Option.map_eq_some_iff.mp (Option.mem_toList.mp first)
      have room := roomy 0 cell offset moved
      rw [length_leBytes]
      omega
    · obtain ⟨patch',inside,rfl⟩ := List.mem_map.mp later
      have bound := @ih (fun row => aim (row + 1)) (fun row => roomy (row + 1)) patch' inside
      rw [Patch.Within] at bound
      rw [Patch.shift]
      dsimp only
      omega

theorem overwrite_cells (cells : List Bytes) :
    Patch.overwriteAll cells.flatten (cellPatches aim cells) = (cells.mapIdx (moveCell aim)).flatten := by
  induction cells generalizing aim with
  | nil => rfl
  | cons cell rest ih =>
    have within : ∀ patch ∈ ((aim 0 cell).map fun offset => ((22,leBytes 8 offset) : Nat × Bytes)).toList,
      Patch.Within cell.length patch := by
      intro patch member
      obtain ⟨offset,moved,rfl⟩ := Option.map_eq_some_iff.mp (Option.mem_toList.mp member)
      have room := roomy 0 cell offset moved
      rw [Patch.Within,length_leBytes]
      omega
    rw [cellPatches_cons,List.flatten_cons,Patch.overwriteAll_parts within,ih fun row => roomy (row + 1),
      List.mapIdx_cons,List.flatten_cons]
    congr 1
    unfold moveCell
    cases aim 0 cell <;> rfl

theorem length_moveCell (row : Nat) (cell : Bytes) :
    (moveCell aim row cell).length = cell.length := by
  unfold moveCell
  split
  · rename_i offset moved
    exact length_relocate (roomy row cell offset moved) offset
  · rfl

theorem ends_moved (start : Nat) (cells : List Bytes) :
    ends start (cells.mapIdx (moveCell aim)) = ends start cells := by
  induction cells generalizing aim start with
  | nil => rfl
  | cons cell rest ih =>
    rw [List.mapIdx_cons,ends,ends,length_moveCell roomy]
    congr 1
    exact ih (fun row => roomy (row + 1)) _

end

theorem target_roomy (deleted : Bytes) (newOffset : Nat → Nat) (row : Nat) (cell : Bytes) (offset : Nat)
    (moved : target deleted newOffset row cell = some offset) : 30 ≤ cell.length := by
  unfold target at moved
  split at moved
  · cases moved
  · obtain ⟨descriptor,packed,-⟩ := Option.map_eq_some_iff.mp moved
    exact (packedCell_spec packed).2.2.2

end Cells

section Locate

/-- A live packed cell, with the position of its locator. -/
def locatedCell (dataStart : Nat) (deleted : Bytes) (cells : List Bytes) (row : Nat) : Option Located :=
  if bitIsSet deleted row then none
  else (cells[row]?).bind fun cell => (packedCell cell).map fun descriptor =>
    ⟨dataStart + (cells.take row).flatten.length + 22,packedOffset descriptor,descriptor.len⟩

variable {table : Bytes} {cells : List Bytes} {deleted : Bytes} {row dataStart : Nat} {cell : Bytes}

theorem flatten_drop (there : cells[row]? = some cell) (rest : Bytes) :
    (cells.flatten ++ rest).drop (cells.take row).flatten.length = cell ++
    ((cells.drop (row + 1)).flatten ++ rest) := by
  obtain ⟨inside,same⟩ := List.getElem?_eq_some_iff.mp there
  have split_ : cells = cells.take row ++
    (cell :: cells.drop (row + 1)) := by rw [← same,List.getElem_cons_drop,List.take_append_drop]
  conv_lhs =>
    arg 2
    rw [split_]
  rw [List.flatten_append,List.flatten_cons,List.append_assoc,List.append_assoc,List.drop_left' rfl]

theorem locateRow_cells (there : cells[row]? = some cell) :
    locateRow table (scannedCells cells deleted) dataStart row =
      if bitIsSet deleted row then .ok none
      else
        match packedCell cell with
        | none => .ok none
        | some descriptor =>
          let position := dataStart + (cells.take row).flatten.length + 22
          if position + 8 > table.length ∨ (table.drop position).take 8 ≠ descriptor.locator then
            .error (failed "packed blob descriptor does not match the table file layout")
          else .ok (some ⟨position,packedOffset descriptor,descriptor.len⟩) := by
  obtain ⟨inside,same⟩ := List.getElem?_eq_some_iff.mp there
  have start := getElem?_ends 0 cells (Nat.le_of_lt inside)
  have stop := getElem?_ends 0 cells (Nat.succ_le_of_lt inside)
  have next : (cells.take (row + 1)).flatten.length = (cells.take row).flatten.length + cell.length := by
    rw [List.take_add_one,there,Option.toList_some,List.flatten_append,List.length_append,List.flatten_singleton]
  have dropped := flatten_drop there []
  rw [List.append_nil] at dropped
  have whole := congrArg List.length dropped
  rw [List.length_drop,List.length_append] at whole
  have bound : (cells.take row).flatten.length ≤ cells.flatten.length := by
    conv_rhs => rw [← List.take_append_drop row cells]
    rw [List.flatten_append,List.length_append]
    exact Nat.le_add_right _ _
  rw [Nat.zero_add] at start stop
  unfold locateRow scannedCells
  dsimp only
  rw [start,stop,next]
  dsimp only
  rw [if_neg (show ¬ ((cells.take row).flatten.length > (cells.take row).flatten.length + cell.length ∨
    (cells.take row).flatten.length + cell.length > cells.flatten.length) by omega),Nat.add_sub_cancel_left,dropped]
  have cut : (cell ++ ((cells.drop (row + 1)).flatten ++ [])).take cell.length = cell := List.take_left' rfl
  generalize (cell ++ ((cells.drop (row + 1)).flatten ++ [])).take cell.length = taken at cut ⊢
  subst cut
  rfl

theorem locateRow_found {rest : Bytes} (placedAt : table.drop dataStart = cells.flatten ++ rest)
    (inside : row < cells.length) :
    locateRow table (scannedCells cells deleted) dataStart row = .ok (locatedCell dataStart deleted cells row) := by
  have there : cells[row]? = some (cells[row]) := List.getElem?_eq_getElem inside
  rw [locateRow_cells there,locatedCell,there,Option.bind_some]
  split
  · rfl
  · split
    · rename_i none_
      rw [none_]
      rfl
    · rename_i descriptor packed
      obtain ⟨-,-,locator,room⟩ := packedCell_spec packed
      have dropped := flatten_drop there rest
      rw [← placedAt,List.drop_drop] at dropped
      have size := congrArg List.length dropped
      rw [List.length_drop,List.length_append] at size
      have content : (table.drop (dataStart + (cells.take row).flatten.length + 22)).take 8 = descriptor.locator := by
        rw [← List.drop_drop,dropped,List.drop_append_of_le_length (by omega),
          List.take_append_of_le_length (by rw [List.length_drop]; omega),locator]
      have fine : ¬ (dataStart + (cells.take row).flatten.length + 22 + 8 > table.length ∨
          (table.drop (dataStart + (cells.take row).flatten.length + 22)).take 8 ≠ descriptor.locator) := by
        rintro (beyond | other)
        · omega
        · exact other content
      dsimp only
      rw [if_neg fine,packed]
      rfl

theorem mapM_ok {α β : Type} {f : α → Except Failure β} {g : α → β} {items : List α}
    (each : ∀ item ∈ items, f item = .ok (g item)) :
    items.mapM f = .ok (items.map g) := by
  induction items with
  | nil => rfl
  | cons item items ih =>
    rw [List.mapM_cons,each item List.mem_cons_self,ih fun item member => each item (List.mem_cons_of_mem _ member)]
    rfl

end Locate

section Move

def moveSection (deleted : Bytes) (newOffset : Nat → Nat) : Section → Section
  | .blobs nulls cells => .blobs nulls (cells.mapIdx (moveCell (target deleted newOffset)))
  | .other bytes => .other bytes

def FlatGroup.movedAt (group : FlatGroup) (newOffset : Nat → Nat) (columns : List Nat) : FlatGroup :=
  {group with
    columns := group.columns.mapIdx fun column content => if column ∈ columns then
    moveSection group.deleted newOffset content else content}

theorem length_cellsHead (cells : List Bytes) : (cellsHead cells).length = 8 + (cells.length + 1) * 4 + 8 := by
  rw [cellsHead,List.length_append,List.length_append,length_leBytes,length_leBytes,ColumnData.u32Bytes,length_leWords,
    List.length_map,
    ColumnData.offsetsToU32,List.length_map,List.length_map,length_ends]
  omega

variable {aim : Nat → Bytes → Option Nat} {group : FlatGroup} {column : Nat} {nulls : Bytes} {cells : List Bytes}

theorem cellsHead_moved (roomy : ∀ row cell offset, aim row cell = some offset → 30 ≤ cell.length)
    (cells : List Bytes) :
    cellsHead (cells.mapIdx (moveCell aim)) = cellsHead cells := by
  have total : (cells.mapIdx (moveCell aim)).flatten.length = cells.flatten.length := by
    rw [← overwrite_cells roomy cells,Patch.length_overwriteAll (cellPatches_within roomy cells)]
  rw [cellsHead,cellsHead,ends_moved roomy,List.length_mapIdx,total]

theorem bytes_around (there : group.columns[column]? = some (.blobs nulls cells)) (cells' : List Bytes) :
    ∃ front back : Bytes, ({group with columns := group.columns.set column (.blobs nulls cells')} : FlatGroup).bytes =
        front ++ (nulls ++ (colEncodingPlain :: cellsHead cells') ++ (cells'.flatten ++ back)) ∧
      front.length = group.head.length + 4 + group.start column ∧
      group.bytes = front ++ (nulls ++ (colEncodingPlain :: cellsHead cells) ++ (cells.flatten ++ back)) := by
  obtain ⟨inside,same⟩ := List.getElem?_eq_some_iff.mp there
  have split_ : group.columns = group.columns.take column ++
    (.blobs nulls cells :: group.columns.drop (column + 1)) := by
    rw [← same,List.getElem_cons_drop,List.take_append_drop]
  have replaced : group.columns.set column (.blobs nulls cells') = group.columns.take column ++
    (.blobs nulls cells' :: group.columns.drop (column + 1)) :=
    List.set_eq_take_append_cons_drop.trans (if_pos inside)
  refine ⟨group.head ++ (group.flags ++ (group.bodyFront ++ ((group.columns.take column).map Section.bytes).flatten)),
    ((group.columns.drop (column + 1)).map Section.bytes).flatten,?_,?_,?_⟩
  · rw [FlatGroup.bytes,FlatGroup.body]
    dsimp only
    rw [replaced,List.map_append,List.map_cons,List.flatten_append,List.flatten_cons,Section.bytes]
    simp only [FlatGroup.flags,FlatGroup.bodyFront,List.append_assoc,List.cons_append]
  · rw [List.length_append,List.length_append,FlatGroup.start]
    simp only [FlatGroup.flags,List.length_append,List.length_cons,List.length_nil]
    omega
  · rw [FlatGroup.bytes,FlatGroup.body]
    conv_lhs => rw [split_]
    rw [List.map_append,List.map_cons,List.flatten_append,List.flatten_cons,Section.bytes]
    simp only [FlatGroup.flags,FlatGroup.bodyFront,List.append_assoc,List.cons_append]

theorem overwrite_column (roomy : ∀ row cell offset, aim row cell = some offset → 30 ≤ cell.length)
    (head : group.head.length = 28) (there : group.columns[column]? = some (.blobs nulls cells))
    (before after : Bytes) :
    Patch.overwriteAll (before ++ (group.bytes ++ after)) ((cellPatches aim cells).map (Patch.shift
      (before.length + 32 + group.start column + nulls.length + 1 + (8 + (cells.length + 1) * 4 + 8)))) =
    before ++ (({group with columns := group.columns.set column (.blobs nulls (cells.mapIdx (moveCell aim)))} :
      FlatGroup).bytes ++ after) := by
  obtain ⟨front,back,new,length,old⟩ := bytes_around there (cells.mapIdx (moveCell aim))
  have whole : before ++ (group.bytes ++ after) =
      (before ++ (front ++ (nulls ++ (colEncodingPlain :: cellsHead cells)))) ++
      (cells.flatten ++ (back ++ after)) := by
    rw [old]
    simp only [List.append_assoc]
  have start : before.length + 32 + group.start column + nulls.length + 1 + (8 + (cells.length + 1) * 4 + 8) =
      (before ++ (front ++ (nulls ++ (colEncodingPlain :: cellsHead cells)))).length := by
    rw [List.length_append,List.length_append,List.length_append,List.length_cons,length,length_cellsHead,head]
    omega
  rw [whole,start,Patch.overwriteAll_append_left,Patch.overwriteAll_append_right _ (cellPatches_within roomy cells),
    overwrite_cells roomy,new,
    cellsHead_moved roomy]
  simp only [List.append_assoc]

theorem length_moveSection (deleted : Bytes) (newOffset : Nat → Nat) (content : Section) :
    (moveSection deleted newOffset content).bytes.length = content.bytes.length := by
  cases content with
  | other bytes => rfl
  | blobs nulls cells =>
    have roomy := target_roomy deleted newOffset
    rw [moveSection,Section.bytes,Section.bytes,cellsHead_moved roomy,← overwrite_cells roomy]
    simp only [List.length_append,List.length_cons,Patch.length_overwriteAll (cellPatches_within roomy cells)]

theorem length_mapIdx_sections {change : Nat → Section → Section}
    (same : ∀ column content, (change column content).bytes.length = content.bytes.length) (sections : List Section)
    (count : Nat) :
    (((sections.mapIdx change).take count).map Section.bytes).flatten.length =
    ((sections.take count).map Section.bytes).flatten.length := by
  induction sections generalizing change count with
  | nil => rfl
  | cons content rest ih =>
    cases count with
    | zero => rfl
    | succ count =>
      rw [List.mapIdx_cons,List.take_succ_cons,List.take_succ_cons,List.map_cons,List.map_cons,List.flatten_cons,
        List.flatten_cons,List.length_append,
        List.length_append,same,ih fun column => same (column + 1)]

theorem start_movedAt (group : FlatGroup) (newOffset : Nat → Nat) (columns : List Nat) (column : Nat) :
    (group.movedAt newOffset columns).start column = group.start column := by
  unfold FlatGroup.start FlatGroup.movedAt
  dsimp only
  rw [length_mapIdx_sections fun column content => ?_]
  · rfl
  · split
    · exact length_moveSection _ _ _
    · rfl

def FlatGroup.dataStart (group : FlatGroup) (position column : Nat) : Nat :=
  position + 32 + group.start column + (group.rows + 7) / 8 + 1 + (8 + (group.rows + 1) * 4 + 8)

def FlatGroup.columnPatches (group : FlatGroup) (newOffset : Nat → Nat) (position column : Nat) : List (Nat × Bytes) :=
  (cellPatches (target group.deleted newOffset) (group.cells column)).map
    (Patch.shift (group.dataStart position column))

theorem movedAt_untouched {columns : List Nat} (outside : column ∉ columns) (newOffset : Nat → Nat) :
    (group.movedAt newOffset columns).columns[column]? = group.columns[column]? := by
  rw [FlatGroup.movedAt,List.getElem?_mapIdx]
  cases group.columns[column]? with
  | none => rfl
  | some content => rw [Option.map_some,if_neg outside]

theorem movedAt_concat {columns : List Nat} (newOffset : Nat → Nat)
    (there : group.columns[column]? = some (.blobs nulls cells)) :
    ({group.movedAt newOffset columns with
      columns := (group.movedAt newOffset columns).columns.set column
        (.blobs nulls (cells.mapIdx (moveCell (target group.deleted newOffset))))} :
        FlatGroup) = group.movedAt newOffset (columns ++ [column]) := by
  unfold FlatGroup.movedAt
  dsimp only
  congr 1
  refine List.ext_getElem? fun other => ?_
  obtain ⟨inside,-⟩ := List.getElem?_eq_some_iff.mp there
  rw [List.getElem?_set,List.length_mapIdx,List.getElem?_mapIdx,List.getElem?_mapIdx]
  by_cases here : column = other
  · subst here
    rw [if_pos rfl,if_pos inside,there,Option.map_some,if_pos (List.mem_append_right _ List.mem_cons_self),moveSection]
  · rw [if_neg here]
    have member : other ∈ columns ++ [column] ↔ other ∈ columns := by simp [Ne.symm here]
    simp only [member]

theorem overwrite_columns (fits : group.Fits) (newOffset : Nat → Nat) (columns : List Nat) (distinct : columns.Nodup)
    (has : ∀ column ∈ columns, group.Has column) (before after : Bytes) :
    Patch.overwriteAll (before ++ (group.bytes ++ after)) (columns.flatMap
      (group.columnPatches newOffset before.length)) =
      before ++ ((group.movedAt newOffset columns).bytes ++ after) := by
  induction columns using List.reverseRecOn with
  | nil =>
    have same : group.movedAt newOffset [] = group := by
      have kept : (group.columns.mapIdx fun _ content => content) = group.columns := by
        refine List.ext_getElem? fun column => ?_
        rw [List.getElem?_mapIdx,Option.map_id']
      unfold FlatGroup.movedAt
      simp only [List.not_mem_nil,if_false,kept]
    rw [same]
    rfl
  | append_singleton columns column ih =>
    rw [List.nodup_append] at distinct
    have outside : column ∉ columns := fun member => distinct.2.2 column member column List.mem_cons_self rfl
    obtain ⟨nulls,there⟩ := (has column (List.mem_append_right _ List.mem_cons_self)).at
    have section_ := fits.columns nulls (group.cells column) (mem_columns there)
    have still : (group.movedAt newOffset columns).columns[column]? = some (.blobs nulls (group.cells column)) := by
      rw [movedAt_untouched outside,there]
    have last := overwrite_column (target_roomy group.deleted newOffset)
      (show (group.movedAt newOffset columns).head.length = 28 from fits.head)
      still before after
    rw [start_movedAt,section_.bitmap,section_.count,movedAt_concat newOffset there] at last
    rw [List.flatMap_append,Patch.overwriteAll_append,ih distinct.1 fun column member =>
      has column (List.mem_append_left _ member),
      List.flatMap_cons,List.flatMap_nil,List.append_nil]
    exact last

end Move

section Table

variable {footer : V4Footer} {column : Nat}

theorem mem_blobColumns (member : column ∈ blobColumns footer) : columnType footer column = .blob := by
  obtain ⟨⟨entry,index⟩,inside,rfl⟩ := List.mem_map.mp member
  obtain ⟨listed,blob⟩ := List.mem_filter.mp inside
  have there := List.mem_zipIdx_iff_getElem?.mp listed
  dsimp only at there ⊢
  rw [columnType,there,Option.map_some,Option.getD_some]
  exact of_decide_eq_true blob

theorem nodup_blobColumns (footer : V4Footer) : (blobColumns footer).Nodup := by
  have all_ : (footer.schema.columns.zipIdx.map Prod.snd).Nodup := by
    rw [List.zipIdx_map_snd]
    exact List.nodup_range'
  exact all_.sublist (List.filter_sublist.map Prod.snd)

theorem only_group {groups : List (Bytes × FlatGroup)} {metas : List RowGroupMeta} {index position : Nat} {gap : Bytes}
    {group : FlatGroup} (described : Describes footer index position metas groups)
    (only : (groups.filter fun entry => entry.2.rows ≠ 0) = [(gap,group)]) (front tail : Bytes)
    (length : front.length = position) (first : Nat) :
    ∃ number rgMeta before after, numbered index first metas = [(number,first,rgMeta)] ∧
      Meta before.length group footer.colOffsets[number]? rgMeta ∧
      ∀ group' : FlatGroup, front ++ (groupsBytes (groups.map fun entry => if entry.2.rows = 0 then entry
        else (entry.1,group')) ++ tail) =
        before ++ (group'.bytes ++ after) := by
  induction groups generalizing metas index position front with
  | nil => cases only
  | cons entry groups ih =>
    obtain ⟨gap',group'⟩ := entry
    cases metas with
    | nil => exact described.elim
    | cons rgMeta metas =>
      obtain ⟨here,rest⟩ := described
      by_cases empty : group'.rows = 0
      · rw [List.filter_cons,if_neg (by simp [empty])] at only
        obtain ⟨number,rgMeta',before,after,numbers,meta_,bytes⟩ := ih rest only (front ++ gap' ++ group'.bytes)
          (by rw [List.length_append,List.length_append,length])
        refine ⟨number,rgMeta',before,after,?_,meta_,fun other => ?_⟩
        · rw [numbered_cons,here.rows,if_pos empty,numbers]
        · rw [← bytes other,List.map_cons]
          dsimp only
          rw [if_pos empty,groupsBytes]
          simp only [List.append_assoc]
      · rw [List.filter_cons,if_pos (by simp [empty])] at only
        obtain ⟨same,none_⟩ := List.cons.inj only
        cases same
        -- the row groups behind it have no rows
        have zero : ∀ entry ∈ groups, entry.2.rows = 0 := by
          intro entry member
          by_contra some_
          have found : entry ∈ groups.filter fun entry => entry.2.rows ≠ 0 :=
            List.mem_filter.mpr ⟨member,by simp [some_]⟩
          rw [none_] at found
          cases found
        have quiet : ∀ index first position metas, Describes footer index position metas groups →
          numbered index first metas = [] := by
          clear ih only rest none_
          induction groups with
          | nil =>
            intro index first position metas described
            cases metas with
            | nil => rfl
            | cons rgMeta metas => exact described.elim
          | cons entry groups ih =>
            intro index first position metas described
            cases metas with
            | nil => rfl
            | cons rgMeta metas =>
              rw [numbered_cons,described.1.rows,if_pos (zero entry List.mem_cons_self)]
              exact ih (fun entry member => zero entry (List.mem_cons_of_mem _ member)) _ _ _ _ described.2
        refine ⟨index,rgMeta,front ++ gap,groupsBytes groups ++ tail,?_,?_,fun other => ?_⟩
        · rw [numbered_cons,here.rows,if_neg empty,quiet _ _ _ _ rest]
        · rw [List.length_append,length]
          exact here
        · have others : (groups.map fun entry => if entry.2.rows = 0 then entry else (entry.1,other)) = groups := by
            conv_rhs => rw [← List.map_id groups]
            exact List.map_congr_left fun entry member => if_pos (zero entry member)
          rw [List.map_cons,others]
          dsimp only
          rw [if_neg empty,groupsBytes]
          simp only [List.append_assoc]

variable {group : FlatGroup}

def FlatGroup.located (group : FlatGroup) (position column : Nat) : List Located :=
  (List.range group.rows).filterMap (locatedCell (group.dataStart position column) group.deleted (group.cells column))

theorem ok_bind {α β : Type} (value : α) (next : α → Except Failure β) : (Except.ok value >>= next) = next value := rfl

theorem filterMap_id_map {α β : Type} (f : α → Option β) (items : List α) :
    (items.map f).filterMap id = items.filterMap f := by
  rw [List.filterMap_map]
  rfl

theorem cells_at_start (fits : group.Fits) {nulls : Bytes} (before after : Bytes)
    (there : group.columns[column]? = some (.blobs nulls (group.cells column))) :
    ∃ rest, (before ++ (group.bytes ++ after)).drop (group.dataStart before.length column) =
    (group.cells column).flatten ++ rest := by
  obtain ⟨front,back,-,length,old⟩ := bytes_around there []
  have section_ := fits.columns nulls (group.cells column) (mem_columns there)
  refine ⟨back ++ after,?_⟩
  have whole : before ++ (group.bytes ++ after) =
      (before ++ (front ++ (nulls ++ (colEncodingPlain :: cellsHead (group.cells column))))) ++
      ((group.cells column).flatten ++ (back ++ after)) := by
    rw [old]
    simp only [List.append_assoc]
  rw [whole,List.drop_left' ?_]
  rw [List.length_append,List.length_append,List.length_append,List.length_cons,length,length_cellsHead,fits.head,
    section_.bitmap,section_.count,
    FlatGroup.dataStart]
  omega

theorem scan_only {before after : Bytes} {number : Nat} {rgMeta : RowGroupMeta} (fits : group.Fits)
    (some_ : group.rows ≠ 0) (described : Meta before.length group footer.colOffsets[number]? rgMeta)
    (numbers : numbered 0 0 footer.rowGroups = [(number,0,rgMeta)]) (blob : columnType footer column = .blob)
    (has : group.Has column) :
    scanColumn (before ++ (group.bytes ++ after)) footer column =
    .ok (scannedCells (group.cells column) group.deleted) := by
  obtain ⟨nulls,there⟩ := has.at
  have section_ := fits.columns nulls (group.cells column) (mem_columns there)
  unfold scanColumn
  rw [numbers,List.foldlM_cons]
  dsimp only
  rw [scanGroup_blobs fits some_ described there blob]
  exact congrArg Except.ok (@scannedCells_append [] (group.cells column) [] group.deleted section_.size)

theorem locateColumn_only {before after : Bytes} {number : Nat} {rgMeta : RowGroupMeta} {table : Bytes}
    (fits : group.Fits) (some_ : group.rows ≠ 0) (whole : table = before ++ (group.bytes ++ after))
    (described : Meta before.length group footer.colOffsets[number]? rgMeta)
    (numbers : numbered 0 0 footer.rowGroups = [(number,0,rgMeta)]) (blob : columnType footer column = .blob)
    (has : group.Has column) :
    locateColumn table footer column = .ok (group.located before.length column) := by
  subst whole
  obtain ⟨nulls,there⟩ := has.at
  have section_ := fits.columns nulls (group.cells column) (mem_columns there)
  have scanned := @scan_only footer column group before after number rgMeta fits some_ described numbers blob has
  have count : (scannedCells (group.cells column) group.deleted).offsets.length - 1 = group.rows := by
    rw [scannedCells,length_ends,Nat.add_sub_cancel,section_.count]
  obtain ⟨rest,starts⟩ := cells_at_start fits before after there
  have rows : (List.range group.rows).mapM (fun row => locateRow (before ++ (group.bytes ++ after))
    (scannedCells (group.cells column) group.deleted)
      (group.dataStart before.length column) (0 + row)) =
      .ok ((List.range group.rows).map (locatedCell (group.dataStart before.length column) group.deleted
        (group.cells column))) := by
    refine mapM_ok fun row member => ?_
    rw [Nat.zero_add]
    exact locateRow_found starts (by rw [section_.count]; exact List.mem_range.mp member)
  have located : locateGroup (before ++ (group.bytes ++ after)) footer (scannedCells (group.cells column) group.deleted)
    column (number,0,rgMeta) =
      .ok (group.located before.length column) := by
    unfold locateGroup
    dsimp only
    rw [count,dataStart_blobs fits some_ described there,described.rows,ok_bind,← FlatGroup.dataStart,rows,ok_bind,
      filterMap_id_map]
    rfl
  unfold locateColumn
  rw [scanned,ok_bind,numbers,List.mapM_cons,located]
  exact congrArg Except.ok (by simp)

theorem numbered_mem {groups : List (Bytes × FlatGroup)} {metas : List RowGroupMeta} {index position first : Nat}
    {front tail : Bytes} (fits : ∀ entry ∈ groups, entry.2.Fits)
    (has : ∀ entry ∈ groups, entry.2.rows ≠ 0 → entry.2.Has column)
    (described : Describes footer index position metas groups) (length : front.length = position) {number start : Nat}
    {rgMeta : RowGroupMeta} (member : (number,start,rgMeta) ∈ numbered index first metas) :
    ∃ gap group before after, (gap,group) ∈ groups ∧ group.rows ≠ 0 ∧ front ++ (groupsBytes groups ++ tail) =
    before ++ (group.bytes ++ after) ∧
      Meta before.length group footer.colOffsets[number]? rgMeta ∧
      start + group.rows ≤ first + (allCells column groups).length := by
  induction groups generalizing metas index position front first with
  | nil =>
    cases metas with
    | nil => cases member
    | cons rgMeta metas => exact described.elim
  | cons entry groups ih =>
    obtain ⟨gap,group⟩ := entry
    cases metas with
    | nil => cases member
    | cons rgMeta' metas =>
      obtain ⟨here,rest⟩ := described
      have behind : front ++ (groupsBytes ((gap,group) :: groups) ++ tail) = (front ++ gap ++ group.bytes) ++
        (groupsBytes groups ++ tail) := by
        rw [groupsBytes]
        simp only [List.append_assoc]
      have next := fun first member => @ih metas (index + 1) (position + gap.length + group.bytes.length) first
        (front ++ gap ++ group.bytes)
        (fun entry inside => fits entry (List.mem_cons_of_mem _ inside)) (fun entry inside =>
          has entry (List.mem_cons_of_mem _ inside)) rest
        (by rw [List.length_append,List.length_append,length]) member
      rw [behind]
      rw [numbered_cons,here.rows] at member
      by_cases empty : group.rows = 0
      · rw [if_pos empty] at member
        obtain ⟨gap',group',before,after,inside,some_,whole,meta_,bound⟩ := next first member
        refine ⟨gap',group',before,after,List.mem_cons_of_mem _ inside,some_,whole,meta_,?_⟩
        rw [(all_skip column empty groups).1]
        exact bound
      · obtain ⟨nulls,there⟩ := (has (gap,group) List.mem_cons_self empty).at
        have count := ((fits (gap,group) List.mem_cons_self).columns nulls _ (mem_columns there)).count
        dsimp only at count
        rw [if_neg empty] at member
        rw [(all_keep column empty groups).1,List.length_append,count]
        rcases List.mem_cons.mp member with same | later
        · cases same
          refine ⟨gap,group,front ++ gap,groupsBytes groups ++ tail,List.mem_cons_self,empty,?_,?_,by omega⟩
          · simp only [List.append_assoc]
          · rw [List.length_append,length]
            exact here
        · obtain ⟨gap',group',before,after,inside,some_,whole,meta_,bound⟩ := next _ later
          exact ⟨gap',group',before,after,List.mem_cons_of_mem _ inside,some_,whole,meta_,by omega⟩

theorem locateColumn_none {table : FlatTable} (flat : Flat footer table) (blob : columnType footer column = .blob)
    (has : ∀ entry ∈ table.groups, entry.2.rows ≠ 0 → entry.2.Has column)
    (none_ : ∀ row cell, (allCells column table.groups)[row]? = some cell →
      bitIsSet (allDeleted table.groups) row = false →
      packedCell cell = none) :
    locateColumn table.bytes footer column = .ok [] := by
  have scanned : scanColumn table.bytes footer column =
    .ok (scannedCells (allCells column table.groups) (allDeleted table.groups)) :=
    scan_groups blob flat.fits has flat.metas rfl rfl 0 [] []
  have located : ∀ entry ∈ numbered 0 0 footer.rowGroups,
      locateGroup table.bytes footer (scannedCells (allCells column table.groups) (allDeleted table.groups)) column
        entry = .ok [] := by
    rintro ⟨number,start,rgMeta⟩ member
    obtain ⟨gap,group,before,after,inside,some_,whole,meta_,bound⟩ :=
      @numbered_mem footer column table.groups footer.rowGroups 0 table.lead.length 0
      table.lead table.tail flat.fits has flat.metas rfl number start rgMeta member
    obtain ⟨nulls,there⟩ := (has (gap,group) inside some_).at
    have rows : (List.range group.rows).mapM (fun row => locateRow table.bytes
      (scannedCells (allCells column table.groups) (allDeleted table.groups))
        (before.length + 32 + group.start column + (group.rows + 7) / 8 + 1 +
          (8 + ((scannedCells (allCells column table.groups) (allDeleted table.groups)).offsets.length - 1 + 1) * 4 +
            8)) (start + row)) =
        .ok ((List.range group.rows).map fun _ => none) := by
      refine mapM_ok fun row member => ?_
      have early := List.mem_range.mp member
      have inside : start + row < (allCells column table.groups).length := by omega
      have found : (allCells column table.groups)[start + row]? = some (allCells column table.groups)[start + row] :=
        List.getElem?_eq_getElem inside
      rw [locateRow_cells found]
      split
      · rfl
      · rename_i live
        rw [none_ _ _ found (Bool.not_eq_true _ ▸ live)]
    unfold locateGroup
    dsimp only
    rw [FlatTable.bytes,whole] at rows ⊢
    rw [dataStart_blobs (flat.fits (gap,group) inside) some_ meta_ there,ok_bind,meta_.rows,rows,ok_bind,
      filterMap_id_map]
    exact congrArg Except.ok (List.filterMap_eq_nil_iff.mpr fun _ _ => rfl)
  unfold locateColumn
  rw [scanned,ok_bind,mapM_ok located,ok_bind]
  exact congrArg Except.ok (List.flatten_eq_nil_iff.mpr fun list member => by
    obtain ⟨-,-,rfl⟩ := List.mem_map.mp member
    rfl)

end Table

end ApexBase.Blob
