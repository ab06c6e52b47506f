import ApexBase.GroupFile.DeletionBitmap
import ApexBase.GroupFile.Rewrite
import ApexBase.Storage.IdDirectory

/-! The row groups of a file and what the directory tells of them: the deletion vectors as
they are joined, and the entries that a merge (`stream_rewrite_v4`) leaves. -/
namespace ApexBase.Storage.IdDirectory
open Column Library.Wire Footer
open GroupFile (Codecs ParsedV4RowGroup RewriteContext RewriteState RewrittenFile WrittenGroup OnDemandStorage)

/-- An entry without its place in the file. -/
def placeless (rgMeta : RowGroupMeta) : RowGroupMeta := {rgMeta with offset := 0,dataSize := 0}

section Vectors

/-- What the file holds where its footer has the entry. -/
structure Describes (codecs : Codecs) (file : Bytes) (footer : V4Footer) (rgMeta : RowGroupMeta) (group : Group) :
    Prop where
  entry : placeless rgMeta = rowGroupMeta group
  stored : GroupFile.StoredGroup codecs file footer rgMeta (flags group)
  packed : group.deleted = GroupFile.packed (flags group)

variable {codecs : Codecs} {file : Bytes} {footer : V4Footer} {groups : List Group}

theorem persistedDeletionBitmap_joined (packed : ∀ group ∈ groups, group.deleted = GroupFile.packed (flags group)) :
    persistedDeletionBitmap groups = GroupFile.joined (groups.map flags) := by
  rw [persistedDeletionBitmap,GroupFile.joined,List.flatMap_map]
  exact List.flatMap_congr packed

/-- The vectors that the directory is read with are those of the file, and they are aligned
with the rows exactly when no row is deleted behind a group that ends inside a byte. -/
theorem persistedDeletionBitmap_read (described : List.Forall₂ (Describes codecs file footer) footer.rowGroups groups) :
    footer.rowGroups.map placeless = directory groups ∧
      GroupFile.persistedDeletionBitmap codecs file footer = .ok (persistedDeletionBitmap groups) ∧
      (Aligned groups ↔ GroupFile.noneBehindPartial (groups.map flags) = true) := by
  have packed : ∀ group ∈ groups, group.deleted = GroupFile.packed (flags group) := by
    intro group member
    obtain ⟨row,inside,rfl⟩ := List.getElem_of_mem member
    have known : row < footer.rowGroups.length := by rwa [described.length_eq]
    exact (described.get known inside).packed
  have joined := persistedDeletionBitmap_joined packed
  refine ⟨?_,?_,?_⟩
  · rw [directory,← List.forall₂_eq_eq_eq,List.forall₂_map_left_iff,List.forall₂_map_right_iff]
    exact described.imp fun _ _ describes => describes.entry
  · rw [joined,GroupFile.persistedDeletionBitmap,GroupFile.joinDeletions_stored
      (List.forall₂_map_right_iff.mpr (described.imp fun _ _ describes => describes.stored)),List.nil_append]
  · rw [← GroupFile.aligned_iff,Aligned,joined,GroupFile.Aligned,← length_allFlags,allFlags,List.flatMap_def]

end Vectors

section Rewrite
variable {context : RewriteContext} {schemaCols : List (String × ColumnType)} {state next : RewriteState}
    {writer : Writer}

/-- The state of a rewrite and the same rewrite by its ids. -/
structure Mirrors (state : RewriteState) (writer : Writer) : Prop where
  out : state.outIds = writer.out
  groups : state.groups.map (fun written => placeless written.rgMeta) = directory writer.groups

theorem rowGroupMeta_written (ids : List UInt64) : rowGroupMeta (written ids) =
    ⟨0,0,UInt32.ofNat ids.length,ids.min?.getD 0,ids.max?.getD 0,0⟩ := by
  have none_ : (flags (written ids)).count true = 0 := by
    rw [List.count_eq_zero,flags]
    intro deleted
    obtain ⟨row,_,bit⟩ := List.mem_map.mp deleted
    rw [written,getBit_replicate] at bit
    cases bit
  rw [rowGroupMeta,none_]
  rfl

theorem writeGroup_entry {wrote : WrittenGroup} (ok : context.writeGroup schemaCols state = .ok wrote) :
    placeless wrote.rgMeta = rowGroupMeta (written state.outIds) := by
  have ok := mapError_eq_ok.mp ok
  rw [rowGroupMeta_written]
  unfold GroupFile.writeStreamedV4RowGroup at ok
  rw [if_neg (Nat.not_lt_zero _)] at ok
  split at ok
  · rename_i none_
    cases ok
    rw [List.length_eq_zero_iff.mp none_]
    rfl
  · obtain ⟨chunkIds,cut,ok⟩ := bind_eq_ok.mp ok
    obtain ⟨sections,_,ok⟩ := bind_eq_ok.mp ok
    cases ok
    have whole : between state.outIds 0 state.outIds.length = some state.outIds := by
      rw [between,if_pos ⟨Nat.zero_le _,Nat.le_refl _⟩,List.drop_zero,Nat.sub_zero,List.take_length]
    rw [whole] at cut
    cases cut
    rfl

theorem flush_mirrors (mirrors : Mirrors state writer) (ok : context.flushStreamedOutRg schemaCols state = .ok next) :
    Mirrors next writer.flush := by
  unfold RewriteContext.flushStreamedOutRg at ok
  rw [Writer.flush,← mirrors.out]
  by_cases empty : state.outIds = []
  · rw [if_pos (List.isEmpty_iff.mpr empty)] at ok
    cases ok
    rw [if_pos empty]
    exact mirrors
  · rw [if_neg (fun none_ => empty (List.isEmpty_iff.mp none_))] at ok
    obtain ⟨wrote,written_,ok⟩ := bind_eq_ok.mp ok
    cases ok
    rw [if_neg empty]
    refine ⟨rfl,?_⟩
    rw [List.map_append,mirrors.groups,directory,directory,List.map_append]
    exact congrArg _ (congrArg (fun entry => [entry]) (writeGroup_entry written_))

theorem pushRow_mirrors {id : UInt64}
    {cell : Nat → Column.ColumnData × Bytes → Except GroupFile.RewriteFault (Column.ColumnData × Bytes)}
    (mirrors : Mirrors state writer) (ok : context.pushRow schemaCols state id cell = .ok next) :
    Mirrors next (writer.push context.rgSizeTarget id) := by
  obtain ⟨columns,_,ok⟩ := bind_eq_ok.mp ok
  have grown : Mirrors {state with outIds := state.outIds ++ [id],outColumns := columns} {writer with
    out := writer.out ++ [id]} :=
    ⟨congrArg (· ++ [id]) mirrors.out,mirrors.groups⟩
  have count : (state.outIds ++ [id]).length = (writer.out ++ [id]).length := congrArg List.length grown.out
  unfold Writer.push
  dsimp only at ok ⊢
  rw [count] at ok
  split at ok
  · rename_i full
    rw [if_pos full]
    exact flush_mirrors grown ok
  · rename_i room
    cases ok
    rw [if_neg room]
    exact grown

theorem finish_entries {schema : Schema.OnDemandSchema} {file : RewrittenFile} (mirrors : Mirrors state writer)
    (none_ : writer.out = [])
    (ok : context.finish schema state = .ok file) :
    file.groups.map (fun written => placeless written.rgMeta) = directory (if writer.groups = [] then [written []]
      else writer.groups) := by
  unfold RewriteContext.finish at ok
  dsimp only at ok
  have both : state.groups = [] ↔ writer.groups = [] := by
    rw [← List.map_eq_nil_iff,mirrors.groups,directory,List.map_eq_nil_iff]
  by_cases empty : state.groups = []
  · rw [if_pos (List.isEmpty_iff.mpr empty)] at ok
    obtain ⟨groups,made,ok⟩ := bind_eq_ok.mp ok
    obtain ⟨known,_,ok⟩ := bind_eq_ok.mp ok
    obtain ⟨wrote,written_,rfl⟩ := map_eq_ok.mp made
    cases ok
    rw [if_pos (both.mp empty),← none_,← mirrors.out]
    exact congrArg (fun entry => [entry]) (writeGroup_entry written_)
  · rw [if_neg (fun none_ => empty (List.isEmpty_iff.mp none_))] at ok
    obtain ⟨groups,made,ok⟩ := bind_eq_ok.mp ok
    obtain ⟨known,_,ok⟩ := bind_eq_ok.mp ok
    cases made
    cases ok
    rw [if_neg (fun none_ => empty (both.mpr none_))]
    exact mirrors.groups

variable (storage : OnDemandStorage)

/-- The id of a row of a row group, unless the row is left out. -/
def keptId (filterMemDeletes : Bool) (parsed : ParsedV4RowGroup) (row : Nat) : Option UInt64 :=
  if storage.baseDropped filterMemDeletes parsed row = some false then parsed.ids[row]? else none

def groupIds (codecs : Codecs) (filterMemDeletes : Bool) (rgMeta : RowGroupMeta) : List UInt64 :=
  if rgMeta.rowCount = 0 then []
  else match storage.parse codecs rgMeta with
    | .ok parsed => (List.range parsed.ids.length).filterMap (keptId storage filterMemDeletes parsed)
    | .error _ => []

def baseIds (codecs : Codecs) (filterMemDeletes : Bool) : List UInt64 :=
  storage.footer.rowGroups.flatMap (groupIds storage codecs filterMemDeletes)

def appendedIds : List UInt64 := (storage.deltaData.join.elim [] Prod.fst).filter fun id => !storage.deleteBitmap id

variable {storage}

theorem baseRow_mirrors {filterMemDeletes : Bool} {parsed : ParsedV4RowGroup} {row : Nat}
    (mirrors : Mirrors state writer)
    (ok : storage.baseRow context filterMemDeletes schemaCols parsed state row = .ok next) :
    Mirrors next ((keptId storage filterMemDeletes parsed row).elim writer (writer.push context.rgSizeTarget)) := by
  unfold OnDemandStorage.baseRow at ok
  obtain ⟨dropped,tested,ok⟩ := bind_eq_ok.mp ok
  unfold keptId
  cases test : storage.baseDropped filterMemDeletes parsed row with
  | none =>
    rw [test] at tested
    cases tested
  | some out =>
    rw [test] at tested
    cases tested
    cases dropped with
    | true =>
      cases ok
      exact mirrors
    | false =>
      obtain ⟨id,there,ok⟩ := bind_eq_ok.mp ok
      rw [if_pos rfl]
      cases found : parsed.ids[row]? with
      | none =>
        rw [found] at there
        cases there
      | some first =>
        rw [found] at there
        cases there
        exact pushRow_mirrors mirrors ok

theorem baseGroup_mirrors {filterMemDeletes : Bool} {rgMeta : RowGroupMeta} (mirrors : Mirrors state writer)
    (ok : storage.baseGroup context filterMemDeletes schemaCols state rgMeta = .ok next) :
    Mirrors next ((groupIds storage context.codecs filterMemDeletes rgMeta).foldl (Writer.push context.rgSizeTarget)
      writer) := by
  unfold OnDemandStorage.baseGroup at ok
  unfold groupIds
  split at ok
  · rename_i empty
    cases ok
    rw [if_pos empty]
    exact mirrors
  · rename_i some_
    obtain ⟨parsed,read,ok⟩ := bind_eq_ok.mp ok
    rw [if_neg some_,mapError_eq_ok.mp read]
    dsimp only
    rw [List.foldl_filterMap]
    have stepped (state : RewriteState) (writer : Writer) (row : Nat) (next : RewriteState)
      (held : Mirrors state writer)
        (pushed : storage.baseRow context filterMemDeletes schemaCols parsed state row = .ok next) :
        Mirrors next ((keptId storage filterMemDeletes parsed row).elim writer (writer.push context.rgSizeTarget)) :=
      baseRow_mirrors held pushed
    have rows := foldlM_mirrors stepped mirrors ok
    refine Eq.mp (congrArg (Mirrors next) (List.foldl_ext _ _ _ fun writer row _ => ?_)) rows
    cases keptId storage filterMemDeletes parsed row <;> rfl

theorem deltaRows_mirrors (mirrors : Mirrors state writer)
    (ok : storage.deltaRows context schemaCols state = .ok next) :
    Mirrors next ((appendedIds storage).foldl (Writer.push context.rgSizeTarget) writer) := by
  unfold OnDemandStorage.deltaRows at ok
  unfold appendedIds
  cases data : storage.deltaData.join with
  | none =>
    rw [data] at ok
    cases ok
    exact mirrors
  | some appended =>
    rw [data] at ok
    have stepped (state : RewriteState) (writer : Writer) (entry : UInt64 × Nat) (next : RewriteState)
      (held : Mirrors state writer)
        (pushed : storage.deltaRow context schemaCols appended.2 state entry = .ok next) :
        Mirrors next (if !storage.deleteBitmap entry.1 then writer.push context.rgSizeTarget entry.1 else writer) := by
      unfold OnDemandStorage.deltaRow at pushed
      cases deleted : storage.deleteBitmap entry.1 with
      | true =>
        rw [if_pos deleted] at pushed
        cases pushed
        exact held
      | false =>
        rw [if_neg (by rw [deleted]; exact Bool.false_ne_true)] at pushed
        exact pushRow_mirrors held pushed
    have rows := foldlM_mirrors stepped mirrors ok
    rw [Option.elim_some,List.foldl_filter,← List.zipIdx_map_fst 0 appended.1,List.foldl_map]
    exact rows

/-- A merge leaves the directory of the ids that it keeps: those of the base, then those of
the appended batches as they came. -/
theorem streamRewriteV4_directory {settings : RewriteContext} {requireDelta filterMemDeletes : Bool}
    {file : RewrittenFile}
    (ok : storage.streamRewriteV4 settings requireDelta filterMemDeletes = .ok (some file)) :
    file.groups.map (fun written => placeless written.rgMeta) =
      directory (rewritten settings.rgSizeTarget (baseIds storage settings.codecs filterMemDeletes)
        (appendedIds storage)) := by
  have target : settings.rgSizeTarget = (storage.layoutKept settings).rgSizeTarget := rfl
  have codecs : settings.codecs = (storage.layoutKept settings).codecs := rfl
  rw [target,codecs]
  unfold OnDemandStorage.streamRewriteV4 at ok
  split at ok
  · cases ok
  · generalize storage.layoutKept settings = context at ok ⊢
    obtain ⟨base,based,ok⟩ := bind_eq_ok.mp ok
    obtain ⟨flushed,flush,ok⟩ := bind_eq_ok.mp ok
    obtain ⟨appended,delta,ok⟩ := bind_eq_ok.mp ok
    obtain ⟨final,last,ok⟩ := bind_eq_ok.mp ok
    obtain ⟨written_,finished,ok⟩ := bind_eq_ok.mp ok
    cases ok
    have start : Mirrors (GroupFile.startRewrite storage.mergedSchema.columns) ⟨[],[]⟩ := ⟨rfl,rfl⟩
    have stepped (state : RewriteState) (writer : Writer) (rgMeta : RowGroupMeta) (next : RewriteState)
      (held : Mirrors state writer)
        (pushed : storage.baseGroup context filterMemDeletes storage.mergedSchema.columns state rgMeta = .ok next) :
        Mirrors next ((groupIds storage context.codecs filterMemDeletes rgMeta).foldl (Writer.push context.rgSizeTarget)
          writer) :=
      baseGroup_mirrors held pushed
    have read := foldlM_mirrors stepped start based
    rw [← List.foldl_flatMap] at read
    have first := flush_mirrors read flush
    have second := deltaRows_mirrors first delta
    exact finish_entries (flush_mirrors second last) (Writer.flush_out _) finished

end Rewrite

end ApexBase.Storage.IdDirectory
