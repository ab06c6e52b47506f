import ApexBase.Blob.Live
import ApexBase.Library.Lanes
import ApexBase.Library.Traverse

/-! What the vacuums keep of the blobs of a table, and whole runs. The vacuum of the packed file moves
payloads, so its step uses that the vacuum is complete. -/
namespace ApexBase.Blob
open Data Library Library.Wire Library.Assoc Column GroupFile
open Storage.Schema (Failure failed)
open Storage.Footer (RowGroupMeta V4Footer)
open Digests (crc32)

/-- No live row has its bit set in the deletion vectors of the row groups, one behind the other. -/
def Clear (store : BlobStore) : Prop :=
  ∀ entry ∈ store.rows, ∀ scanned, scanColumn store.files.table store.footer entry.column = .ok scanned →
    bitIsSet scanned.deleted entry.row = false

section Objects

variable [Digests] {store : BlobStore}

omit [Digests] in
theorem cell_scanned {entry : Row} {bytes : Bytes} (there : store.cell entry = some bytes) :
    ∃ scanned, scanColumn store.files.table store.footer entry.column = .ok scanned ∧
    scanned.cell entry.row = some bytes := by
  unfold BlobStore.cell cellAt at there
  split at there
  · cases there
  · rename_i scanned found
    exact ⟨scanned,found,there⟩

omit [Digests] in
theorem cell_row {scanned : Scanned} {row : Nat} {bytes : Bytes} (there : scanned.cell row = some bytes) :
    row < scanned.offsets.length - 1 := by
  unfold Scanned.cell at there
  split at there
  · rename_i start stop found next
    obtain ⟨inside,-⟩ := List.getElem?_eq_some_iff.mp next
    omega
  · cases there

theorem vacuumBlobObjects_sound (sound : Sound store) (clear : store.settled = true → Clear store) :
    Sound store.vacuumBlobObjects := by
  unfold BlobStore.vacuumBlobObjects
  split
  · exact sound
  · rename_i goes
    have settled : store.settled = true := by
      cases settled : store.settled with
      | true => rfl
      | false => exact absurd (by rw [settled]; rfl) goes
    split
    · exact sound
    · rename_i live found
      have none_ : store.pending = [] := List.isEmpty_iff.mp settled
      refine ⟨fun entry member => ?_,fun entry member => ?_⟩
      · dsimp only at member
        rw [none_] at member
        cases member
      · obtain ⟨column,bytes,there,designated⟩ := sound.rows entry member
        refine ⟨column,bytes,there,?_⟩
        cases designated with
        | inline decoded => exact .inline decoded
        | packed locator decoded eight size there => exact .packed locator decoded eight size there
        | dedicated objectId decoded object =>
          refine .dedicated objectId decoded ((lookup_retain _ _ _ _).mpr ⟨object,List.contains_iff_mem.mpr ?_⟩)
          -- the row names the object
          obtain ⟨scanned,scan,cell⟩ := cell_scanned there
          have named : objectId ∈ liveObjects scanned := by
            refine List.mem_filterMap.mpr ⟨entry.row,List.mem_range.mpr (cell_row cell),?_⟩
            rw [clear settled entry member scanned scan,if_neg Bool.false_ne_true,cell]
            change (decodeBlobDescriptor bytes).bind _ = _
            rw [decoded,Option.bind_some,if_pos rfl]
            exact fromUtf8_utf8 objectId
          unfold BlobStore.allLiveObjects at found
          cases each : (blobColumns store.footer).mapM fun column => do
              let scanned ← scanColumn store.files.table store.footer column
              return liveObjects scanned with
          | error error =>
            rw [each] at found
            cases found
          | ok lists =>
            rw [each] at found
            cases found
            obtain ⟨list,inside,same⟩ := mapM_mem each column
            rw [scan] at same
            cases same
            exact List.mem_flatten.mpr ⟨_,inside,named⟩

end Objects

section Total

variable {group : FlatGroup}

theorem packed_count {α : Type} (cells : List Bytes) (found : Nat → Bytes → Option α)
    (long : ∀ row cell item, found row cell = some item → 30 ≤ cell.length) :
    ((List.range cells.length).filterMap fun row => (cells[row]?).bind (found row)).length * 30 ≤
    cells.flatten.length := by
  induction cells generalizing found with
  | nil => exact Nat.zero_le _
  | cons cell rest ih =>
    have tail : ((List.range rest.length).filterMap ((fun row => ((cell :: rest)[row]?).bind (found row)) ∘
      Nat.succ)).length * 30 ≤ rest.flatten.length := by
      have same := ih (fun row => found (row + 1)) fun row => long (row + 1)
      exact same
    rw [List.length_cons,List.range_succ_eq_map,List.filterMap_cons,List.filterMap_map,List.flatten_cons,
      List.length_append]
    have first : (cell :: rest)[0]? = some cell := rfl
    rw [first,Option.bind_some]
    cases here : found 0 cell with
    | none =>
      dsimp only
      omega
    | some item =>
      have room := long 0 cell item here
      dsimp only
      rw [List.length_cons]
      omega

theorem located_count (position column : Nat)
    (same : group.rows = (group.cells column).length ∨ group.cells column = []) :
    (group.located position column).length * 30 ≤ (group.cells column).flatten.length := by
  have counted := packed_count (group.cells column) (fun row cell => if bitIsSet group.deleted row then none
    else (packedCell cell).map fun descriptor =>
      (⟨group.dataStart position column + ((group.cells column).take row).flatten.length + 22,packedOffset descriptor,
        descriptor.len⟩ : Located)) <| by
    intro row cell item found
    split at found
    · cases found
    · obtain ⟨descriptor,packed,-⟩ := Option.map_eq_some_iff.mp found
      exact (packedCell_spec packed).2.2.2
  have each : ∀ row, locatedCell (group.dataStart position column) group.deleted (group.cells column) row =
      ((group.cells column)[row]?).bind fun cell => if bitIsSet group.deleted row then none
        else (packedCell cell).map fun descriptor =>
        (⟨group.dataStart position column + ((group.cells column).take row).flatten.length + 22,packedOffset descriptor,
          descriptor.len⟩ : Located) := by
    intro row
    rw [locatedCell]
    split
    · cases (group.cells column)[row]? <;> rfl
    · rfl
  rcases same with rows | empty
  · rw [FlatGroup.located,rows]
    simp only [each]
    exact counted
  · rw [FlatGroup.located,empty]
    have none_ : ((List.range group.rows).filterMap (locatedCell (group.dataStart position column) group.deleted [])) =
      [] := by
      refine List.filterMap_eq_nil_iff.mpr fun row _ => ?_
      rw [locatedCell]
      split <;> rfl
    rw [none_]
    exact Nat.zero_le _

theorem cells_in_section (column : Nat) : (group.cells column).flatten.length ≤
    ((group.columns.map fun content => content.bytes.length)[column]?).getD 0 := by
  rw [FlatGroup.cells,List.getElem?_map]
  split
  · rename_i nulls cells there
    rw [there,Option.map_some,Option.getD_some,Section.bytes]
    simp only [List.length_append,List.length_cons]
    omega
  · exact Nat.zero_le _

theorem cells_in_body {columns : List Nat} (distinct : columns.Nodup) :
    (columns.map fun column => (group.cells column).flatten.length).sum ≤ group.body.length := by
  have sections : (group.columns.map fun content => content.bytes.length).sum =
    ((group.columns.map Section.bytes).flatten).length := by
    rw [List.length_flatten,List.map_map]
    rfl
  have parts := sum_distinct (group.columns.map fun content => content.bytes.length) distinct
  have each : (columns.map fun column => (group.cells column).flatten.length).sum ≤
      (columns.map fun column => ((group.columns.map fun content => content.bytes.length)[column]?).getD 0).sum :=
    List.sum_le_sum fun column _ => cells_in_section column
  rw [FlatGroup.body,List.length_append]
  omega

theorem payloads_bounded {columns : List Nat} (distinct : columns.Nodup) (fits : group.Fits) {limit : Nat}
    (small : ∀ column ∈ columns, ∀ entry ∈ group.located 0 column, entry.len ≤ limit) :
    (columns.map group.payloadBytes).sum * 30 ≤ group.body.length * limit := by
  have each : ∀ column ∈ columns, group.payloadBytes column * 30 ≤ (group.cells column).flatten.length * limit := by
    intro column member
    have rows : group.rows = (group.cells column).length ∨ group.cells column = [] := by
      unfold FlatGroup.cells
      split
      · rename_i nulls cells there
        exact .inl (fits.columns nulls cells (mem_columns there)).count.symm
      · exact .inr rfl
    have count := located_count 0 column rows
    have sum := List.sum_le_card_nsmul ((group.located 0 column).map Located.len) limit fun len inside => by
      obtain ⟨entry,found,rfl⟩ := List.mem_map.mp inside
      exact small column member entry found
    rw [List.length_map,nsmul_eq_mul,Nat.cast_id] at sum
    calc group.payloadBytes column * 30
        ≤ ((group.located 0 column).length * limit) * 30 := Nat.mul_le_mul_right _ sum
      _ = ((group.located 0 column).length * 30) * limit := by ring
      _ ≤ (group.cells column).flatten.length * limit := Nat.mul_le_mul_right _ count
  calc (columns.map group.payloadBytes).sum * 30
      = (columns.map fun column => group.payloadBytes column * 30).sum := (List.sum_map_mul_right _ _ _).symm
    _ ≤ (columns.map fun column => (group.cells column).flatten.length * limit).sum := List.sum_le_sum each
    _ = (columns.map fun column => (group.cells column).flatten.length).sum * limit := List.sum_map_mul_right _ _ _
    _ ≤ group.body.length * limit := Nat.mul_le_mul_right _ (cells_in_body distinct)

end Total

section Packed

variable [Digests] {store : BlobStore} {footer : V4Footer} {table : FlatTable} {gap : Bytes} {group : FlatGroup}

/-- What the vacuum of the packed file relies on: it does nothing, or the table is one for which it
is complete. The rows are all live rows. -/
inductive PackedSafe (store : BlobStore) : Prop
  | unsettled (some_ : store.settled = false)
  | absent (none_ : store.files.packed = none)
  | chunked (layout : usesChunkLayout store.footer = true)
  | refused (rgMeta : RowGroupMeta) (listed : rgMeta ∈ store.footer.rowGroups) (error : Failure)
    (stops : checkGroup store.files.table rgMeta = .error error)
  | flat (table : FlatTable) (flat : Flat store.footer table) (file : store.files.table = table.bytes)
      (all : ∀ group column row cell descriptor, LivePacked store.footer table group column row cell descriptor →
        ∃ entry ∈ store.rows, store.cell entry = some cell)
      (vacuumable : Vacuumable store.footer table store.files) (clear : Clear store)

omit [Digests] in
theorem vacuum_nothing {settled : Bool} {files : VacuumFiles}
    (nothing : ∀ found, prepareVacuum settled footer files ≠ .ok (some found)) :
    (vacuumPackedBlobs settled footer files).2 = [] := by
  unfold vacuumPackedBlobs
  split
  · rfl
  · rfl
  · rename_i located packed prepared
    exact absurd prepared (nothing _)

omit [Digests] in
theorem vacuumPacked_nothing
    (nothing : ∀ found, prepareVacuum store.settled store.footer store.files ≠ .ok (some found)) :
    store.vacuumPacked = store := by
  rw [BlobStore.vacuumPacked,vacuum_nothing nothing]
  rfl

omit [Digests] in
theorem cell_scannedCells (cells : List Bytes) (deleted : Bytes) (row : Nat) :
    (scannedCells cells deleted).cell row = cells[row]? := by
  unfold Scanned.cell scannedCells
  dsimp only
  rcases Nat.lt_or_ge row cells.length with inside | beyond
  · have there : cells[row]? = some cells[row] := List.getElem?_eq_getElem inside
    have next : (cells.take (row + 1)).flatten.length = (cells.take row).flatten.length + cells[row].length := by
      rw [List.take_add_one,there,Option.toList_some,List.flatten_append,List.length_append,List.flatten_singleton]
    have dropped := flatten_drop there []
    rw [List.append_nil] at dropped
    have bound : (cells.take (row + 1)).flatten.length ≤ cells.flatten.length := by
      conv_rhs => rw [← List.take_append_drop (row + 1) cells]
      rw [List.flatten_append,List.length_append]
      exact Nat.le_add_right _ _
    have start : (ends 0 cells)[row]? = some (0 + (cells.take row).flatten.length) :=
      getElem?_ends 0 cells (Nat.le_of_lt inside)
    have stop : (ends 0 cells)[row + 1]? = some (0 + (cells.take (row + 1)).flatten.length) :=
      getElem?_ends 0 cells inside
    rw [start,stop,Nat.zero_add,Nat.zero_add]
    dsimp only
    rw [if_neg (by omega),next,Nat.add_sub_cancel_left,dropped,List.take_left' rfl,there]
  · have none_ : (ends 0 cells)[row + 1]? = none := List.getElem?_eq_none (by rw [length_ends]; omega)
    rw [none_,List.getElem?_eq_none beyond]
    cases (ends 0 cells)[row]? <;> rfl

omit [Digests] in
theorem sections_moved (group : FlatGroup) (newOffset : Nat → Nat) (columns : List Nat) :
    (((group.movedAt newOffset columns).columns).map Section.bytes).flatten.length =
    (group.columns.map Section.bytes).flatten.length := by
  have lengths := @length_mapIdx_sections (fun column content => if column ∈ columns then
    moveSection group.deleted newOffset content else content)
    (fun column content => by
      split
      · exact length_moveSection _ _ _
      · rfl) group.columns group.columns.length
  rw [List.take_length,List.take_of_length_le (by rw [List.length_mapIdx])] at lengths
  exact lengths

omit [Digests] in
theorem fits_moved (fits : group.Fits) (newOffset : Nat → Nat) (columns : List Nat) :
    (group.movedAt newOffset columns).Fits where
  head := fits.head
  ids := fits.ids
  deleted := fits.deleted
  rows := fits.rows
  body := by
    have small := fits.body
    rw [FlatGroup.body,List.length_append] at small ⊢
    rw [sections_moved]
    exact small
  columns := by
    intro nulls cells member
    obtain ⟨column,there⟩ := List.mem_iff_getElem?.mp member
    rw [FlatGroup.movedAt,List.getElem?_mapIdx] at there
    obtain ⟨content,before,moved⟩ := Option.map_eq_some_iff.mp there
    split at moved
    · cases content with
      | other bytes => cases moved
      | blobs nulls' cells' =>
        cases moved
        have section_ := fits.columns nulls cells' (mem_columns before)
        have roomy := target_roomy group.deleted newOffset
        refine ⟨section_.bitmap,?_,?_⟩
        · rw [List.length_mapIdx]
          exact section_.count
        · rw [← overwrite_cells roomy,Patch.length_overwriteAll (cellPatches_within roomy cells')]
          exact section_.size
    · cases moved
      exact fits.columns nulls cells (mem_columns before)

omit [Digests] in
theorem meta_moved {position : Nat} {offsets : Option (List UInt32)} {rgMeta : RowGroupMeta} (fits : group.Fits)
    (described : Meta position group offsets rgMeta) (newOffset : Nat → Nat)
    (columns : List Nat) : Meta position (group.movedAt newOffset columns) offsets rgMeta where
  offset := described.offset
  size := by
    rw [described.size,length_bytes fits,length_bytes (fits_moved fits newOffset columns),FlatGroup.body,FlatGroup.body,
      List.length_append,List.length_append]
    exact congrArg (32 + (group.bodyFront.length + ·)) (sections_moved group newOffset columns).symm
  rows := described.rows
  directory some_ := by
    have columns_ : (group.movedAt newOffset columns).columns.length =
      group.columns.length := by rw [FlatGroup.movedAt,List.length_mapIdx]
    rw [described.directory some_,FlatGroup.directory,FlatGroup.directory,columns_]
    simp only [start_movedAt]

omit [Digests] in
theorem has_moved {column : Nat} (has : group.Has column) (newOffset : Nat → Nat) (columns : List Nat) :
    (group.movedAt newOffset columns).Has column := by
  obtain ⟨nulls,cells,there⟩ := has
  by_cases listed : column ∈ columns
  · refine ⟨nulls,cells.mapIdx (moveCell (target group.deleted newOffset)),?_⟩
    rw [FlatGroup.movedAt,List.getElem?_mapIdx,there,Option.map_some,if_pos listed]
    rfl
  · exact ⟨nulls,cells,(movedAt_untouched listed newOffset).trans there⟩

theorem designated_packedCell {bytes payload : Bytes} (designated : Designated store bytes payload)
    {descriptor : BlobDescriptor}
    (packed : packedCell bytes = some descriptor) :
    descriptor.len = payload.length ∧ descriptor.checksum = crc32 payload ∧ packedSize payload ∧
      InPacked store.files.packed (packedOffset descriptor) payload := by
  obtain ⟨known,mode,-,-⟩ := packedCell_spec packed
  cases designated with
  | inline decoded =>
    rw [decoded] at known
    cases known
    cases mode
  | packed locator decoded eight size there =>
    rw [decoded] at known
    cases known
    exact ⟨rfl,rfl,size,there⟩
  | dedicated objectId decoded there =>
    rw [decoded] at known
    cases known
    cases mode

omit [Digests] in
theorem packedCell_other {bytes : Bytes} {descriptor : BlobDescriptor}
    (decoded : decodeBlobDescriptor bytes = some descriptor)
    (other : descriptor.mode ≠ modePacked) : packedCell bytes = none := by
  rw [packedCell,decoded,Option.filter_some,
    if_neg (by rw [isPacked,Bool.and_eq_true,beq_iff_eq]; exact fun both => other both.1)]

theorem consistent_only (sound : Sound store) (flat : Flat store.footer table) (file : store.files.table = table.bytes)
    (all : ∀ group column row cell descriptor, LivePacked store.footer table group column row cell descriptor →
      ∃ entry ∈ store.rows, store.cell entry = some cell)
    (only : (table.groups.filter fun entry => entry.2.rows ≠ 0) = [(gap,group)]) :
    Consistent store.footer table store.files := by
  have packed : ∀ group column row cell descriptor, LivePacked store.footer table group column row cell descriptor →
      ∃ payload : Bytes, descriptor.len = payload.length ∧ payload.length ≤ blobPackedThreshold ∧
      InPacked store.files.packed (packedOffset descriptor) payload := by
    intro group column row cell descriptor live
    obtain ⟨entry,member,there⟩ := all group column row cell descriptor live
    obtain ⟨-,bytes,there',designated⟩ := sound.rows entry member
    rw [there] at there'
    cases there'
    obtain ⟨len,-,size,found⟩ := designated_packedCell designated live.packed
    exact ⟨entry.payload,len,size.2,found⟩
  obtain ⟨member,rows,others⟩ := only_mem only
  have fits : group.Fits := flat.fits (gap,group) member
  refine ⟨file,fun group column row cell descriptor live => ?_,?_⟩
  · obtain ⟨payload,len,-,there⟩ := packed group column row cell descriptor live
    obtain ⟨file,found,room,-⟩ := there.inside
    exact ⟨file,found,by rw [len]; exact room⟩
  · have sum : (table.groups.map fun entry => ((blobColumns store.footer).map entry.2.payloadBytes).sum).sum =
        ((blobColumns store.footer).map group.payloadBytes).sum := by
      rw [sum_map_filter _ (fun entry => decide (entry.2.rows ≠ 0)) table.groups fun entry inside empty => ?_]
      · rw [only,List.map_singleton,List.sum_singleton]
      · have zero : entry.2.rows = 0 := not_not.mp (of_decide_eq_false empty)
        refine List.sum_eq_zero fun size found => ?_
        obtain ⟨column,-,rfl⟩ := List.mem_map.mp found
        rw [FlatGroup.payloadBytes,FlatGroup.located,zero]
        rfl
    have bound := @payloads_bounded group (blobColumns store.footer) (nodup_blobColumns _) fits blobPackedThreshold
      fun column listed entry found => by
      obtain ⟨row,cell,descriptor,live,-,len⟩ := live_of_located member listed found
      obtain ⟨payload,same,small,-⟩ := packed group column row cell descriptor live
      rw [len,same]
      exact small
    have body := fits.body
    rw [sum]
    unfold blobPackedThreshold at bound
    omega

theorem vacuum_only (sound : Sound store) (settled : store.settled = true) (flat : Flat store.footer table)
    (file : store.files.table = table.bytes)
    (all : ∀ group column row cell descriptor, LivePacked store.footer table group column row cell descriptor →
      ∃ entry ∈ store.rows, store.cell entry = some cell)
    (clear : Clear store) {packed : Bytes} (there : store.files.packed = some packed)
    (some_ : blobColumns store.footer ≠ [])
    (has : ∀ column ∈ blobColumns store.footer, ∀ entry ∈ table.groups, entry.2.rows ≠ 0 → entry.2.Has column)
    (only : (table.groups.filter fun entry => entry.2.rows ≠ 0) = [(gap,group)]) : Sound store.vacuumPacked := by
  obtain ⟨saved,newOffset,-,newTable,moved⟩ :=
    complete_only flat (consistent_only sound flat file all only) there some_ has only
  obtain ⟨member,rows,others⟩ := only_mem only
  have fits : group.Fits := flat.fits (gap,group) member
  obtain ⟨number,rgMeta,before,after,numbers,described,whole,movedBytes⟩ := only_table flat only
  refine ⟨fun entry inside => ?_,fun entry inside => ?_⟩
  · have none_ : store.pending = [] := List.isEmpty_iff.mp settled
    rw [BlobStore.vacuumPacked,none_] at inside
    cases inside
  · obtain ⟨listed,bytes,cell,designated⟩ := sound.rows entry inside
    have hasColumn := has entry.column listed (gap,group) member rows
    -- the row before
    have scan := @scan_only store.footer entry.column group before after number rgMeta fits rows described numbers
      (mem_blobColumns listed) hasColumn
    rw [← whole,← file] at scan
    obtain ⟨scanned,found,bytes_⟩ := cell_scanned cell
    rw [scan] at found
    cases found
    rw [cell_scannedCells] at bytes_
    have live : bitIsSet group.deleted entry.row = false := clear entry inside _ scan
    -- the row after
    have after_ := @scan_only store.footer entry.column (group.movedAt newOffset (blobColumns store.footer)) before
      after number rgMeta (fits_moved fits _ _)
      rows (meta_moved fits described _ _) numbers (mem_blobColumns listed) (has_moved hasColumn _ _)
    rw [← movedBytes,← newTable] at after_
    have newCell : store.vacuumPacked.cell entry =
      some (moveCell (target group.deleted newOffset) entry.row bytes) := by
      rw [BlobStore.cell,cellAt,BlobStore.vacuumPacked]
      dsimp only
      rw [settled,after_]
      dsimp only
      rw [cell_scannedCells]
      exact cells_moved listed bytes_
    refine ⟨listed,_,newCell,?_⟩
    have stays : ∀ descriptor, decodeBlobDescriptor bytes = some descriptor → descriptor.mode ≠ modePacked →
        moveCell (target group.deleted newOffset) entry.row bytes = bytes := by
      intro descriptor decoded other
      refine moveCell_none ?_
      rw [target,live,if_neg Bool.false_ne_true,packedCell_other decoded other]
      rfl
    cases designated with
    | inline decoded =>
      rw [stays _ decoded (show modeInline ≠ modePacked by decide)]
      exact .inline decoded
    | dedicated objectId decoded object =>
      rw [stays _ decoded (show modeDedicated ≠ modePacked by decide)]
      exact .dedicated objectId decoded object
    | packed locator decoded eight size payload =>
      have packed_ : packedCell bytes = some ⟨modePacked,entry.payload.length,crc32 entry.payload,locator⟩ := by
        rw [packedCell,decoded,Option.filter_some,
          if_pos (by rw [isPacked,Bool.and_eq_true,beq_iff_eq,beq_iff_eq]; exact ⟨rfl,eight⟩)]
      obtain ⟨old,new,read,cell',old_,new_,moved_,before_,after'⟩ :=
        moved group entry.column entry.row bytes _ ⟨⟨gap,member⟩,listed,bytes_,live,packed_⟩
      rw [cells_moved listed bytes_] at moved_
      obtain rfl := Option.some.inj moved_
      have aim : target group.deleted newOffset entry.row bytes = some (newOffset (ofLe (locator.take 8))) := by
        rw [target,live,if_neg Bool.false_ne_true,packed_]
        rfl
      have relocated : moveCell (target group.deleted newOffset) entry.row bytes =
        relocate (newOffset (ofLe (locator.take 8))) bytes := by
        rw [moveCell,aim]
      -- the old payload is that of the row
      obtain ⟨file',found,room,same⟩ := payload.inside
      rw [old_] at found
      cases found
      rw [readPacked,packed_,Option.map_some,packedOffset,readExact_ok room,same] at before_
      cases before_
      have decodedNew := decode_relocate packed_ (newOffset (ofLe (locator.take 8)))
      have packedNew : packedCell (relocate (newOffset (ofLe (locator.take 8))) bytes) =
          some ⟨modePacked,entry.payload.length,crc32 entry.payload,leBytes 8 (newOffset (ofLe (locator.take 8)))⟩ := by
        rw [packedCell,decodedNew,Option.filter_some,
          if_pos (by rw [isPacked,Bool.and_eq_true,beq_iff_eq,beq_iff_eq]; exact ⟨rfl,length_leBytes _ _⟩)]
      rw [relocated] at after' ⊢
      rw [readPacked,packedNew,Option.map_some,readExact] at after'
      dsimp only at after'
      refine .packed _ decodedNew (length_leBytes _ _) size ⟨new,?_,?_⟩
      · rw [BlobStore.vacuumPacked,settled]
        exact new_
      · have some_ : entry.payload.length ≠ 0 := Nat.ne_of_gt (Nat.lt_of_le_of_lt (Nat.zero_le _) size.1)
        split at after'
        · rename_i fine
          exact ⟨fine.resolve_right some_,Except.ok.inj (Option.some.inj after')⟩
        · cases after'

theorem vacuumPacked_sound (sound : Sound store) (safe : PackedSafe store) : Sound store.vacuumPacked := by
  have kept : (∀ found, prepareVacuum store.settled store.footer store.files ≠ .ok (some found)) →
    Sound store.vacuumPacked := fun nothing => by
    rw [vacuumPacked_nothing nothing]
    exact sound
  cases settled : store.settled with
  | false =>
    refine kept fun found prepared => ?_
    rw [settled] at prepared
    cases prepared
  | true =>
    by_cases none_ : blobColumns store.footer = []
    · refine kept fun found prepared => ?_
      rw [prepareVacuum,settled,if_neg (by decide),if_pos none_] at prepared
      cases prepared
    cases there : store.files.packed with
    | none =>
      refine kept fun found prepared => ?_
      rw [prepareVacuum,settled,if_neg (by decide),if_neg none_,there] at prepared
      cases prepared
    | some packed =>
      cases safe with
      | unsettled some_ =>
        rw [settled] at some_
        cases some_
      | absent gone =>
        rw [there] at gone
        cases gone
      | chunked layout =>
        refine kept fun found prepared => ?_
        rw [prepareVacuum,settled,if_neg (by decide),if_neg none_,there] at prepared
        dsimp only at prepared
        rw [if_pos layout] at prepared
        cases prepared
      | refused rgMeta listed error stops =>
        refine kept fun found prepared => ?_
        rw [prepareVacuum,settled,if_neg (by decide),if_neg none_,there] at prepared
        dsimp only at prepared
        obtain ⟨other,refused⟩ := forM_error listed stops
        split at prepared
        · cases prepared
        · rw [refused] at prepared
          cases prepared
      | flat table flat file all vacuumable clear =>
        rcases vacuumable with absent | ⟨has,few | unpacked⟩
        · rw [there] at absent
          cases absent
        · rcases only : table.groups.filter fun entry => entry.2.rows ≠ 0 with _ | ⟨⟨gap,group⟩,_ | ⟨second,rest⟩⟩
          · refine kept fun found prepared => ?_
            rw [settled,prepare_unpacked flat file there none_ has fun column _ row cell found => by
              rw [allCells, only] at found
              cases found] at prepared
            cases prepared
          · exact vacuum_only sound settled flat file all clear there none_ has only
          · rw [only,List.length_cons,List.length_cons] at few
            omega
        · refine kept fun found prepared => ?_
          rw [settled,prepare_unpacked flat file there none_ has unpacked] at prepared
          cases prepared

end Packed

section Run

variable [Digests] {store next : BlobStore}

def Permitted (store : BlobStore) : BlobCall → Prop
  | .writeBlobValue value => ValueSafe store value.val
  | .writeBlobValues _ values => BatchSafe store (values.map Subtype.val)
  | .vacuumBlobObjects => store.settled = true → Clear store
  | .vacuumPackedBlobs => PackedSafe store
  | .forgetBlobPackedDedup | .save _ _ _ _ => True

open Classical in
noncomputable def permitted (store : BlobStore) (call : BlobCall) : Bool := decide (Permitted store call)

theorem permitted_iff {call : BlobCall} : permitted store call = true ↔ Permitted store call := by
  unfold permitted
  exact @decide_eq_true_iff _ (Classical.propDecidable _)

theorem Designated.same {bytes payload : Bytes} (designated : Designated store bytes payload)
    (packed : next.files.packed = store.files.packed)
    (objects : next.objects = store.objects) : Designated next bytes payload := by
  cases designated with
  | inline decoded => exact .inline decoded
  | packed locator decoded eight size there => exact .packed locator decoded eight size (packed ▸ there)
  | dedicated objectId decoded there => exact .dedicated objectId decoded (objects ▸ there)

theorem Sound.add (sound : Sound store) {added : List (Bytes × Bytes)}
    (designated : ∀ entry ∈ added, Designated store entry.1 entry.2) :
    Sound {store with pending := store.pending ++ added} where
  pending entry member := by
    rcases List.mem_append.mp member with before | new
    · exact (sound.pending entry before).same rfl rfl
    · exact (designated entry new).same rfl rfl
  rows entry member := by
    obtain ⟨column,bytes,there,here⟩ := sound.rows entry member
    exact ⟨column,bytes,there,here.same rfl rfl⟩

theorem held_designated (sound : Sound store) {bytes payload : Bytes} (member : (bytes,payload) ∈ store.held) :
    Designated store bytes payload := by
  rcases List.mem_append.mp member with pending | rows
  · exact sound.pending _ pending
  · obtain ⟨entry,inside,found⟩ := List.mem_filterMap.mp rows
    obtain ⟨cell,there,same⟩ := Option.map_eq_some_iff.mp found
    cases same
    obtain ⟨-,bytes,there',designated⟩ := sound.rows entry inside
    rw [there] at there'
    cases there'
    exact designated

theorem exec_sound {call : BlobCall} {answer : List Bytes} (sound : Sound store) (allowed : Permitted store call)
    (stepped : store.exec call = some (answer,next)) : Sound next := by
  cases call with
  | writeBlobValue value =>
    obtain ⟨grows,returns⟩ := writeBlobValue_sound value.2 allowed
    cases stepped
    refine (sound.grow grows).add fun entry member => ?_
    obtain ⟨bytes,returned,rfl⟩ := List.mem_map.mp member
    exact returns bytes (Option.mem_toList.mp returned)
  | writeBlobValues batch values =>
    obtain ⟨grows,returns⟩ := @writeBlobValues_sound _ store (values.map Subtype.val) batch allowed fun value member =>
      by
      obtain ⟨payload,-,rfl⟩ := List.mem_map.mp member
      exact payload.2
    cases stepped
    exact (sound.grow grows).add returns
  | forgetBlobPackedDedup =>
    cases stepped
    exact ⟨fun entry member => (sound.pending entry member).same rfl rfl,fun entry member => by
      obtain ⟨column,bytes,there,here⟩ := sound.rows entry member
      exact ⟨column,bytes,there,here.same rfl rfl⟩⟩
  | vacuumBlobObjects =>
    cases stepped
    exact vacuumBlobObjects_sound sound allowed
  | vacuumPackedBlobs =>
    cases stepped
    exact vacuumPacked_sound sound allowed
  | save footer table pending rows =>
    rw [BlobStore.exec] at stepped
    split at stepped
    · rename_i saves
      cases stepped
      rw [BlobStore.saves,Bool.and_eq_true,List.all_eq_true,List.all_eq_true] at saves
      refine ⟨fun entry member => (held_designated sound (of_decide_eq_true (saves.1 entry member))).same rfl rfl,
        fun entry member => ?_⟩
      have row := saves.2 entry member
      rw [Bool.and_eq_true] at row
      obtain ⟨listed,found⟩ := row
      split at found
      · cases found
      · rename_i bytes there
        exact ⟨of_decide_eq_true listed,bytes,there,(held_designated sound (of_decide_eq_true found)).same rfl rfl⟩
    · cases stepped

/-- In every run of calls that are safe, every descriptor of a live row reads back what was written. -/
theorem blobs_read_back {start final : BlobStore} (noPending : start.pending = []) (noRows : start.rows = [])
    {trace : List (List Bytes)} (run : Run BlobStore.exec (permitted) start trace final) : ReadsBack final := by
  refine readsBack_of_sound ?_
  have first : Sound start := ⟨by rw [noPending]; exact nofun,by rw [noRows]; exact nofun⟩
  induction run with
  | nil => exact first
  | snoc before allowed stepped ih => exact exec_sound ih (permitted_iff.mp allowed) stepped

end Run

section Sample

variable [Digests]

def sampleStore : BlobStore :=
  {path := "photos.apex",inMemory := false,footer := sampleFooter [],files := ⟨[],none,none,none,none,false⟩,
    objects := ∅,packedDedup := ∅,objectCounter := 1,pending := [],rows := []}

def storedGroup (cell : Bytes) : FlatGroup := {sampleGroup 1 with columns := [.blobs [0] [cell]]}

def storedTable (cell : Bytes) : FlatTable := ⟨List.replicate 256 0,[([],storedGroup cell)],[]⟩

section
variable {cell : Bytes} (length : cell.length = 30)
include length

omit [Digests] in
theorem stored_body : (storedGroup cell).body.length = 65 := by
  have front : (storedGroup cell).bodyFront.length = 9 := rfl
  have sections : ((storedGroup cell).columns.map Section.bytes).flatten.length = 56 := by
    change ([0] ++ (colEncodingPlain :: (cellsHead [cell] ++ [cell].flatten)) ++ []).length = 56
    simp only [List.length_append,List.length_cons,List.length_nil,length_cellsHead,List.flatten_singleton,length]
  rw [FlatGroup.body,List.length_append,front,sections]

omit [Digests] in
theorem stored_fits : (storedGroup cell).Fits where
  head := (sample_fits 1).head
  ids := (sample_fits 1).ids
  deleted := (sample_fits 1).deleted
  rows := (sample_fits 1).rows
  body := by
    rw [stored_body length]
    decide
  columns := by
    intro nulls cells member
    cases List.mem_singleton.mp member
    exact ⟨by simp [storedGroup,sampleGroup],by simp [storedGroup,sampleGroup],
      by rw [List.flatten_singleton,length]; decide⟩

omit [Digests] in
theorem stored_flat : Flat (sampleFooter [1]) (storedTable cell) where
  chunks := rfl
  fits := by
    intro entry member
    cases List.mem_singleton.mp member
    exact stored_fits length
  metas := by
    refine ⟨⟨?_,?_,rfl,fun _ => ?_⟩,trivial⟩
    · rw [storedTable,List.length_replicate]
      rfl
    · rw [length_bytes (stored_fits length),stored_body length]
      rfl
    · rfl
  blobs := by
    intro entry member column listed bytes other
    cases List.mem_singleton.mp member
    cases List.mem_singleton.mp listed
    cases other

end

variable {first second : Bytes}

theorem write_new (state : BatchState) (size : packedSize first)
    (unknown : state.packedDedup.lookup (first.length,crc32 first) = none)
    (unshared : state.store.packedDedup.lookup (state.store.packedKey first) = none)
    (room : state.store.packedRoom first = true) (batch : Nat) :
    state.write batch first = (some (encodePacked first (UInt64.ofNat (state.cursor.getD state.store.packedLen))),
      ⟨(state.store.appendPacked first).rememberPacked first (UInt64.ofNat (state.cursor.getD state.store.packedLen)),
        state.packedDedup.insert (first.length,crc32 first) (UInt64.ofNat (state.cursor.getD state.store.packedLen)),
        some (state.cursor.getD state.store.packedLen + first.length)⟩) := by
  rw [BatchState.write,if_neg (Nat.not_le_of_lt size.1),if_pos size.2,BatchState.writePacked]
  dsimp only
  rw [unknown,unshared]
  dsimp only [Option.or]
  rw [if_pos room]

def oneStored (payload : Bytes) : BlobStore :=
  {sampleStore with
    files := {sampleStore.files with packed := some payload}
    packedDedup := (∅ : Map PackedKey UInt64).insert ("photos.apex",payload.length,crc32 payload) 0}

def twoStored (first second : Bytes) : BlobStore :=
  {sampleStore with
    files := {sampleStore.files with packed := some (first ++ second)}
    packedDedup := (oneStored first).packedDedup.insert ("photos.apex",second.length,
      crc32 second) (UInt64.ofNat first.length)}

theorem write_two (size : packedSize first) (size' : packedSize second) (differ : first.length ≠ second.length)
    (batch : Nat) :
    (sampleStore.writeBlobValues batch [first,second]).1 = some [encodePacked first 0,
      encodePacked second (UInt64.ofNat first.length)] ∧
    (sampleStore.writeBlobValues batch [first,second]).2 = twoStored first second := by
  have limits : first.length + second.length ≤ fileLimit := by
    have a := size.2
    have b := size'.2
    unfold blobPackedThreshold at a b
    unfold fileLimit
    omega
  have room : sampleStore.packedRoom first = true := decide_eq_true (by
    change 0 + first.length ≤ fileLimit
    omega)
  have one := @write_new _ first ⟨sampleStore,∅,none⟩ size (AList.lookup_empty _) (AList.lookup_empty _) room batch
  have next : (sampleStore.appendPacked first).rememberPacked first 0 = oneStored first := by
    have whole : first.take (fileLimit - sampleStore.packedLen) = first :=
      List.take_of_length_le (by change _ ≤ fileLimit - 0; omega)
    rw [BlobStore.appendPacked,whole]
    rfl
  have other : (second.length,crc32 second) ≠ (first.length,crc32 first) := fun same => differ (Prod.mk.inj same).1.symm
  have otherKey : (oneStored first).packedKey second ≠ ("photos.apex",first.length,crc32 first) := fun same =>
    differ (Prod.mk.inj (Prod.mk.inj same).2).1.symm
  have room' : (oneStored first).packedRoom second = true := decide_eq_true limits
  have two := @write_new _ second ⟨oneStored first,(∅ : Map (Nat × UInt32) UInt64).insert (first.length,crc32 first) 0,
    some (0 + first.length)⟩ size'
    ((AList.lookup_insert_ne other).trans (AList.lookup_empty _)) ((AList.lookup_insert_ne otherKey).trans
      (AList.lookup_empty _)) room' batch
  have last : ((oneStored first).appendPacked second).rememberPacked second (UInt64.ofNat first.length) =
    twoStored first second := by
    have whole : second.take (fileLimit - (oneStored first).packedLen) = second :=
      List.take_of_length_le (by change _ ≤ fileLimit - first.length; omega)
    rw [BlobStore.appendPacked,whole,BlobStore.rememberPacked,if_neg (by
      change ¬ 4096 ≤ 1
      omega)]
    rfl
  have zero : UInt64.ofNat ((none : Option Nat).getD sampleStore.packedLen) = 0 := rfl
  dsimp only at one two
  rw [zero,next] at one
  have start : (none : Option Nat).getD sampleStore.packedLen + first.length = 0 + first.length := rfl
  rw [start] at one
  rw [Option.getD_some,Nat.zero_add,last] at two
  have all_ : ∃ packedDedup cursor, BatchState.writeAll batch ⟨sampleStore,∅,none⟩ [first,second] =
      (some [encodePacked first 0,encodePacked second (UInt64.ofNat first.length)],
        ⟨twoStored first second,packedDedup,cursor⟩) := by
    rw [BatchState.writeAll,one]
    dsimp only
    rw [Nat.zero_add,BatchState.writeAll,two]
    exact ⟨_,_,rfl⟩
  obtain ⟨packedDedup,cursor,all_⟩ := all_
  unfold BlobStore.writeBlobValues
  rw [if_neg (by simp [sampleStore]),all_]
  exact ⟨rfl,rfl⟩

variable {cell : Bytes}

omit [Digests] in
theorem stored_only (cell : Bytes) : ((storedTable cell).groups.filter fun entry => entry.2.rows ≠ 0) =
    [([],storedGroup cell)] := rfl

omit [Digests] in
theorem stored_rows (cell : Bytes) : (storedGroup cell).rows ≠ 0 := Nat.one_ne_zero

omit [Digests] in
theorem stored_has (cell : Bytes) : (storedGroup cell).Has 0 := ⟨[0],[cell],rfl⟩

omit [Digests] in
theorem stored_cell (length : cell.length = 30) :
    cellAt (sampleFooter [1]) (storedTable cell).bytes 0 0 = some cell := by
  obtain ⟨number,rgMeta,before,after,numbers,described,whole,-⟩ := only_table (stored_flat length) (stored_only cell)
  have scan := @scan_only (sampleFooter [1]) 0 (storedGroup cell) before after number rgMeta (stored_fits length)
    (stored_rows cell) described numbers rfl
    (stored_has cell)
  rw [cellAt,whole,scan]
  exact cell_scannedCells _ _ 0

omit [Digests] in
theorem stored_vacuum (length : cell.length = 30) {descriptor : BlobDescriptor}
    (packed : packedCell cell = some descriptor) {file : Bytes}
    (inside : packedOffset descriptor + descriptor.len ≤ file.length) {files : VacuumFiles}
    (table : files.table = (storedTable cell).bytes)
    (there : files.packed = some file) :
    ∃ new, (files.applyAll (vacuumPackedBlobs true (sampleFooter [1]) files).2).packed = some new ∧
    new.length = descriptor.len := by
  obtain ⟨number,rgMeta,before,after,numbers,described,whole,-⟩ := only_table (stored_flat length) (stored_only cell)
  have found := @locateAll_columns (sampleFooter [1]) (storedTable cell) _ fun column listed => by
    cases List.mem_singleton.mp listed
    exact locateColumn_only (stored_fits length) (stored_rows cell) whole described numbers rfl (stored_has cell)
  have one : (storedGroup cell).located before.length 0 =
    [⟨(storedGroup cell).dataStart before.length 0 + 0 + 22,packedOffset descriptor,descriptor.len⟩] := by
    rw [FlatGroup.located]
    change [0].filterMap (locatedCell ((storedGroup cell).dataStart before.length 0) [0] [cell]) = _
    rw [List.filterMap_cons_some ?_,List.filterMap_nil]
    have first : [cell][0]? = some cell := rfl
    rw [locatedCell,if_neg (by decide),first,Option.bind_some,packed]
    rfl
  have columns : blobColumns (sampleFooter [1]) = [0] := rfl
  rw [columns,List.flatMap_singleton,one] at found
  have prepared := prepare_flat (stored_flat length) table there (by rw [columns]; exact List.cons_ne_nil _ _) found
  rw [if_neg (List.cons_ne_nil _ _)] at prepared
  have extents : distinctExtents [⟨(storedGroup cell).dataStart before.length 0 + 0 + 22,packedOffset descriptor,
    descriptor.len⟩] =
      [(packedOffset descriptor,descriptor.len)] := by
    rw [distinctExtents,List.map_singleton,List.mergeSort_singleton]
    rfl
  obtain ⟨payloads,copied,done,total,-,each⟩ :=
    copyPayloads_spec file [(packedOffset descriptor,descriptor.len)] (List.pairwise_singleton _ _)
    (fun extent member => by
      cases List.mem_singleton.mp member
      exact inside) 0 ∅
  obtain ⟨start,len,copiedTo,-⟩ := each _ List.mem_cons_self
  have patched_ : patches [⟨(storedGroup cell).dataStart before.length 0 + 0 + 22,packedOffset descriptor,
    descriptor.len⟩] copied =
      some [((storedGroup cell).dataStart before.length 0 + 0 + 22,leBytes 8 (0 + start))] := by
    rw [patches,List.mapM_cons,copiedTo]
    rfl
  rw [← extents] at done
  obtain ⟨-,pair⟩ := vacuum_published prepared done patched_
  refine ⟨payloads.flatten,congrArg Prod.snd pair,?_⟩
  rw [total,List.map_singleton,List.sum_singleton]

theorem write_known {store : BlobStore} (onDisk : store.inMemory = false) (size : packedSize first) {offset : UInt64}
    (known : store.packedDedup.lookup (store.packedKey first) = some offset) (batch : Nat) :
    store.writeBlobValues batch [first] = (some [encodePacked first offset],store) := by
  rw [BlobStore.writeBlobValues,onDisk,if_neg Bool.false_ne_true,BatchState.writeAll,BatchState.write,
    if_neg (Nat.not_le_of_lt size.1),if_pos size.2,
    BatchState.writePacked]
  dsimp only
  rw [known,AList.lookup_empty]
  rfl

theorem exec_writes {store next : BlobStore} {batch : Nat} {values : List Payload} {descriptors : List Bytes}
    (written : store.writeBlobValues batch (values.map Subtype.val) = (some descriptors,next)) :
    store.exec (.writeBlobValues batch values) =
      some (descriptors,{next with pending := next.pending ++ descriptors.zip (values.map Subtype.val)}) := by
  rw [BlobStore.exec,written]
  rfl

def bothHeld (first second : Bytes) : BlobStore :=
  {twoStored first second with
    pending := [(encodePacked first 0,first),(encodePacked second (UInt64.ofNat first.length),second)]}

def secondStored (first second : Bytes) : BlobStore :=
  {twoStored first second with
    footer := sampleFooter [1]
    files := {(twoStored first second).files with
      table := (storedTable (encodePacked second (UInt64.ofNat first.length))).bytes}
    rows := [⟨0,0,second⟩]}

theorem decoded_second (small : first.length < 2^63) (small' : second.length < 2^63) :
    decodeBlobDescriptor (encodePacked second (UInt64.ofNat first.length)) =
    some ⟨modePacked,second.length,crc32 second,leBytes 8 first.length⟩ := by
  rw [encodePacked,UInt64.toNat_ofNat',Nat.mod_eq_of_lt (by omega)]
  exact decode_encode modePacked _ (by omega) (by rw [length_leBytes]; decide)

theorem packed_second (small : first.length < 2^63) (small' : second.length < 2^63) :
    packedCell (encodePacked second (UInt64.ofNat first.length)) = some ⟨modePacked,second.length,crc32 second,
      leBytes 8 first.length⟩ := by
  rw [packedCell,decoded_second small small',Option.filter_some,
    if_pos (by rw [isPacked,Bool.and_eq_true,beq_iff_eq,beq_iff_eq]; exact ⟨rfl,length_leBytes _ _⟩)]

theorem offset_second (small : first.length < 2^63) :
    packedOffset ⟨modePacked,second.length,crc32 second,leBytes 8 first.length⟩ = first.length := by
  rw [packedOffset]
  dsimp only
  rw [List.take_of_length_le (by rw [length_leBytes]),ofLe_leBytes_of_lt (show first.length < 256^8 by omega)]

theorem length_encodePacked (value : Bytes) (offset : UInt64) : (encodePacked value offset).length = 30 := by
  simp only [encodePacked,encodeBlobDescriptor,descMagic,List.length_append,List.length_cons,List.length_nil,
    length_leBytes]

theorem save_second (first second : Bytes) :
    (bothHeld first second).exec (.save (sampleFooter [1])
      (storedTable (encodePacked second (UInt64.ofNat first.length))).bytes []
      [⟨0,0,second⟩]) = some ([],secondStored first second) := by
  have held : (encodePacked second (UInt64.ofNat first.length),second) ∈ (bothHeld first second).held :=
    List.mem_append_left _ (List.mem_cons_of_mem _ List.mem_cons_self)
  have saves : (bothHeld first second).saves (sampleFooter [1])
    (storedTable (encodePacked second (UInt64.ofNat first.length))).bytes []
      [⟨0,0,second⟩] = true := by
    rw [BlobStore.saves,List.all_nil,Bool.true_and,List.all_cons,List.all_nil,Bool.and_true,
      stored_cell (length_encodePacked _ _)]
    exact (Bool.and_eq_true _ _).mpr ⟨rfl,decide_eq_true held⟩
  rw [BlobStore.exec,if_pos saves]
  rfl

theorem table_second (first second : Bytes) :
    (secondStored first second).files.table = (storedTable (encodePacked second (UInt64.ofNat first.length))).bytes :=
      rfl

theorem vacuum_second (small : first.length < 2^63) (small' : second.length < 2^63) :
    ∃ new, (secondStored first second).vacuumPacked.files.packed = some new ∧ new.length = second.length := by
  have file : (secondStored first second).files.packed = some (first ++ second) := rfl
  have settled : (secondStored first second).settled = true := rfl
  obtain ⟨new,moved,length⟩ := stored_vacuum (length_encodePacked second (UInt64.ofNat first.length))
    (packed_second small small')
    (by rw [offset_second small]; exact Nat.le_of_eq List.length_append.symm) (table_second first second) file
  refine ⟨new,?_,length⟩
  rw [BlobStore.vacuumPacked,settled]
  exact moved

theorem known_second (first second : Bytes) :
    (secondStored first second).vacuumPacked.packedDedup.lookup
      ((secondStored first second).vacuumPacked.packedKey second) =
      some (UInt64.ofNat first.length) := by
  have dedup : (secondStored first second).vacuumPacked.packedDedup =
      (oneStored first).packedDedup.insert ("photos.apex",second.length,crc32 second) (UInt64.ofNat first.length) := rfl
  have key : (secondStored first second).vacuumPacked.packedKey second = ("photos.apex",second.length,crc32 second) :=
    rfl
  rw [dedup,key,AList.lookup_insert]

/-- The offset of a payload is still in the map after the vacuum of the packed file moved the
payload, and the next row with that payload gets it. -/
theorem stale_offset (size : packedSize first) (size' : packedSize second) (differ : first.length ≠ second.length) :
    ∃ trace final bytes, Run BlobStore.exec (fun _ _ => true) sampleStore trace final ∧ (bytes,second) ∈ final.pending ∧
      final.readBlobValue bytes = .error (.io ⟨.unexpectedEof,"failed to fill whole buffer"⟩) := by
  have small : first.length < 2^63 ∧ second.length < 2^63 :=
    ⟨Nat.lt_of_le_of_lt size.2 (by decide),Nat.lt_of_le_of_lt size'.2 (by decide)⟩
  have written := write_two size size' differ 1
  have one := @exec_writes _ sampleStore _ 1 [⟨first,small.1⟩,⟨second,small.2⟩] _ (Prod.ext written.1 written.2)
  have two := save_second first second
  have three : (secondStored first second).exec .vacuumPackedBlobs =
    some ([],(secondStored first second).vacuumPacked) := rfl
  have onDisk : (secondStored first second).vacuumPacked.inMemory = false := rfl
  have four := @exec_writes _ (secondStored first second).vacuumPacked _ 2 [⟨second,small.2⟩] _
    (write_known onDisk size' (known_second first second) 2)
  refine ⟨_,_,_,(((Run.nil.snoc rfl one).snoc rfl two).snoc rfl three).snoc rfl four,
    List.mem_append_right _ List.mem_cons_self,?_⟩
  obtain ⟨new,moved,length⟩ := @vacuum_second _ first second small.1 small.2
  have gone : readExact new first.length second.length =
    .error (.io ⟨.unexpectedEof,"failed to fill whole buffer"⟩) := by
    have a := size.1
    have b := size'.1
    unfold blobInlineThreshold at a b
    rw [readExact,length,if_neg (by omega)]
  rw [BlobStore.readBlobValue,decoded_second small.1 small.2]
  dsimp only
  rw [if_neg (show ¬ modePacked = modeInline by decide),if_pos rfl,if_neg (not_not.mpr (length_leBytes _ _)),
    offset_second small.1,
    BlobStore.readPackedBlobAt,moved]
  dsimp only
  rw [gone]
  rfl

theorem sample_safe (differ : first.length ≠ second.length) : BatchSafe sampleStore [first,second] where
  short memory := by cases memory
  known _ value _ _ offset found := by
    rw [sampleStore,AList.lookup_empty] at found
    cases found
  alike := by
    intro _ one member two member' _ _ len _
    simp only [List.mem_cons,List.not_mem_nil,or_false] at member member'
    rcases member with rfl | rfl <;> rcases member' with rfl | rfl
    · rfl
    · exact absurd len differ
    · exact absurd len.symm differ
    · rfl

end Sample

def firstPayload : Payload := ⟨List.replicate 65537 0,by rw [List.length_replicate]; decide⟩

def secondPayload : Payload := ⟨List.replicate 65538 0,by rw [List.length_replicate]; decide⟩

theorem payloads_packed : packedSize firstPayload.val ∧ packedSize secondPayload.val ∧
    firstPayload.val.length ≠ secondPayload.val.length := by
  rw [packedSize,packedSize,firstPayload,secondPayload,List.length_replicate,List.length_replicate]
  decide

instance sampleDigests : Digests where
  md5 _ := Vector.replicate 16 0
  crc32 := Crc.crc32

/-- Two packed payloads that are written and read back. -/
theorem batch_reads_back : ∃ trace final, Run BlobStore.exec permitted sampleStore trace final ∧
    final.pending.length = 2 ∧ ReadsBack final := by
  obtain ⟨size,size',differ⟩ := payloads_packed
  have written := write_two size size' differ 1
  have one := @exec_writes _ sampleStore _ 1 [firstPayload,secondPayload] _ (Prod.ext written.1 written.2)
  have allowed : permitted sampleStore (.writeBlobValues 1 [firstPayload,secondPayload]) = true :=
    permitted_iff.mpr (sample_safe differ)
  have run := Run.snoc (@Run.nil _ _ _ BlobStore.exec permitted sampleStore) allowed one
  exact ⟨_,_,run,rfl,blobs_read_back rfl rfl run⟩

/-- A batch with two payloads; the first row is deleted; the packed file is vacuumed; another batch
with the second payload. -/
theorem rewritten_payload_is_lost : ∃ trace final, Run BlobStore.exec (fun _ _ => true) sampleStore trace final ∧
    ¬ ReadsBack final := by
  obtain ⟨size,size',differ⟩ := payloads_packed
  obtain ⟨trace,final,bytes,run,there,lost⟩ := stale_offset size size' differ
  refine ⟨trace,final,run,fun back => ?_⟩
  have value := (back.pending _ there).value
  dsimp only at value
  rw [lost] at value
  cases value

end ApexBase.Blob
