import ApexBase.GroupFile.DeletionBitmap
import ApexBase.Library.Assoc

/-! Single columns of a chunked row group, and the cache of what was decompressed
(`storage/on_demand/storage_core.rs`). One map holds whole bodies, their heads and their
columns, under keys of three kinds. -/
namespace ApexBase.GroupFile
open Library Library.Wire
open Storage.Schema (Failure failed)
open Storage.Footer (RowGroupMeta V4Footer ChunkRef ChunkedColumn)

/-- Where the row group is, and the kind of what is kept of it. -/
abbrev CacheKey := UInt64 × UInt64

structure DecompressedRgCache where
  entries : Assoc.Map CacheKey Bytes
  order : List CacheKey
  bytes : Nat

def u64Max : UInt64 := 0xFFFFFFFFFFFFFFFF

def columnKind (index : Nat) : UInt64 := u64Max - 1 - UInt64.ofNat index

namespace DecompressedRgCache

def fresh : DecompressedRgCache := ⟨∅,[],0⟩

def get (cache : DecompressedRgCache) (key : CacheKey) : Option Bytes := cache.entries.lookup key

/-- Removes the oldest entries until the budget is kept. -/
def evict (budget : Nat) : List CacheKey → Assoc.Map CacheKey Bytes → Nat → DecompressedRgCache
  | [],entries,bytes => ⟨entries,[],bytes⟩
  | oldest :: order,entries,bytes =>
    if bytes > budget then
      match entries.lookup oldest with
      | some evicted => evict budget order (entries.erase oldest) (bytes - evicted.length)
      | none => evict budget order entries bytes
    else ⟨entries,oldest :: order,bytes⟩

def insert (cache : DecompressedRgCache) (budget : Nat) (key : CacheKey) (body : Bytes) : DecompressedRgCache :=
  if body.length > budget then cache
  else
    match cache.entries.lookup key with
    | none => evict budget (cache.order ++ [key]) (cache.entries.insert key body) (cache.bytes + body.length)
    | some _ => evict budget cache.order (cache.entries.insert key body) cache.bytes

section Read
variable (codecs : Codecs) (budget : Nat) (footer : V4Footer)

def decompressedRgBody (cache : DecompressedRgCache) (rgOffset rgEnd : UInt64) (compressFlag : UInt8) (raw : Bytes) :
    Except Failure (Option Bytes) × DecompressedRgCache :=
  if compressFlag = rgCompressNone then (.ok none,cache)
  else
    match cache.get (rgOffset,rgEnd - rgOffset) with
    | some body => (.ok (some body),cache)
    | none =>
      match GroupFile.decompressedRgBody codecs footer rgOffset compressFlag raw with
      | .ok (some body) => (.ok (some body),cache.insert budget (rgOffset,rgEnd - rgOffset) body)
      | other => (other,cache)

/-- What precedes the columns, when it is asked for, and where they begin. -/
def takePrefix (cache : DecompressedRgCache) (rgOffset : UInt64) (prefixLen : Nat) (raw : Bytes) (needPrefix : Bool) :
    Except Failure (Bytes × Nat) × DecompressedRgCache :=
  if prefixLen > 0 then
    if raw.length < chunkFrameHeaderLen then (.error (failed "chunked prefix frame truncated"),cache)
    else
      let frameEnd := chunkFrameHeaderLen + ofLe (raw.take 4)
      if frameEnd > raw.length then (.error (failed "chunked prefix frame runs past the row group"),cache)
      else if needPrefix then
        match cache.get (rgOffset,u64Max) with
        | some cached => (.ok (cached,frameEnd),cache)
        | none =>
          match decompressColumnFrame codecs (raw.take frameEnd) with
          | .ok decoded => (.ok (decoded,frameEnd),cache.insert budget (rgOffset,u64Max) decoded)
          | .error error => (.error error,cache)
      else (.ok ([],frameEnd),cache)
  else (.ok ([],0),cache)

def joinChunks (raw : Bytes) (take : Bool) : List ChunkRef → Nat → Bytes → Except Failure (Nat × Bytes)
  | [],pos,joined => .ok (pos,joined)
  | chunk :: rest,pos,joined =>
    let frameEnd := pos + chunkFrameHeaderLen + chunk.len.toNat
    if frameEnd > raw.length then .error (failed "chunked column frame runs past the row group")
    else if take then do
      let bytes ← decompressColumnFrame codecs ((raw.drop pos).take (frameEnd - pos))
      joinChunks raw take rest frameEnd (joined ++ bytes)
    else joinChunks raw take rest frameEnd joined

/-- The wanted columns from `index` on, whose frames begin at `pos`. What was decompressed
before a frame turns out to be damaged stays in the cache. -/
def takeColumns (rgOffset : UInt64) (wanted : List Nat) (raw : Bytes) :
    List (Option ChunkedColumn) → Nat → Nat → DecompressedRgCache →
    Except Failure (List (Nat × Bytes)) × DecompressedRgCache
  | [],_,_,cache => (.ok [],cache)
  | none :: rest,index,pos,cache => takeColumns rgOffset wanted raw rest (index + 1) pos cache
  | some column :: rest,index,pos,cache =>
    if wanted.contains index then
      match cache.get (rgOffset,columnKind index) with
      | some cached =>
        -- The frames are skipped by the lengths in the directory.
        let pos := column.chunks.foldl (fun pos chunk => pos + (chunkFrameHeaderLen + chunk.len.toNat)) pos
        let (out,cache) := takeColumns rgOffset wanted raw rest (index + 1) pos cache
        (out.map ((index,cached) :: ·),cache)
      | none =>
        match joinChunks codecs raw true column.chunks pos [] with
        | .ok (pos,decoded) =>
          let (out,cache) := takeColumns rgOffset wanted raw rest (index + 1) pos
            (cache.insert budget (rgOffset,columnKind index) decoded)
          (out.map ((index,decoded) :: ·),cache)
        | .error error => (.error error,cache)
    else
      match joinChunks codecs raw false column.chunks pos [] with
      | .ok (pos,_) => takeColumns rgOffset wanted raw rest (index + 1) pos cache
      | .error error => (.error error,cache)

def decompressedChunkedColumns (cache : DecompressedRgCache) (rgIdx : Nat) (wanted : List Nat) (raw : Bytes)
    (needPrefix : Bool) :
    Except Failure (Option (Bytes × List (Nat × Bytes))) × DecompressedRgCache :=
  match chunkEntry footer.chunkTables[rgIdx]? with
  | none => (.ok none,cache)
  | some columns =>
    let rgOffset := (footer.rowGroups[rgIdx]?.map (·.offset)).getD 0
    match cache.takePrefix codecs budget rgOffset (nextStart 0 columns) raw needPrefix with
    | (.error error,cache) => (.error error,cache)
    | (.ok (head,pos),cache) =>
      match takeColumns codecs budget rgOffset wanted raw columns 0 pos cache with
      | (.error error,cache) => (.error error,cache)
      | (.ok [],cache) => (.ok none,cache)
      | (.ok out,cache) => (.ok (some (head,out)),cache)

end Read

end DecompressedRgCache

/-! The readers of one file. -/

def rgBytes (file : Bytes) (rgMeta : RowGroupMeta) : Bytes := (file.drop rgMeta.offset.toNat).take rgMeta.dataSize.toNat

inductive Call
  | decompressedRgBody (rgIdx : Nat)
  | decompressedChunkedColumns (rgIdx : Nat) (wanted : List Nat) (needPrefix : Bool)
  | invalidate

section Calls
variable (codecs : Codecs) (file : Bytes) (footer : V4Footer)

/-- The readers go over the row groups of the footer and hand on what is behind the header. -/
def call (budget : Nat) (cache : DecompressedRgCache) : Call → DecompressedRgCache
  | .decompressedRgBody rgIdx =>
    match footer.rowGroups[rgIdx]? with
    | none => cache
    | some rgMeta => (cache.decompressedRgBody codecs budget footer rgMeta.offset (rgMeta.offset + rgMeta.dataSize)
        ((rgBytes file rgMeta)[28]?.getD rgCompressNone) ((rgBytes file rgMeta).drop 32)).2
  | .decompressedChunkedColumns rgIdx wanted needPrefix =>
    match footer.rowGroups[rgIdx]? with
    | none => cache
    | some rgMeta => (cache.decompressedChunkedColumns codecs budget footer rgIdx wanted ((rgBytes file rgMeta).drop 32)
      needPrefix).2
  | .invalidate => .fresh

def calls (history : List (Nat × Call)) : DecompressedRgCache :=
  history.foldl (fun cache next => call codecs file footer next.1 cache next.2) .fresh

end Calls

/-! What was split. -/

def Contiguous : Nat → List (Nat × Nat) → Nat → Prop
  | start,[],stop => start = stop
  | start,range :: rest,stop => range.1 = start ∧ range.1 ≤ range.2 ∧ Contiguous range.2 rest stop

def columnsOf (flat : Bytes) (ranges : List (Nat × Nat)) : List Bytes :=
  ranges.map fun range => (flat.drop range.1).take (range.2 - range.1)

def prefixOf (flat : Bytes) (ranges : List (Nat × Nat)) : Bytes := flat.take ((ranges.head?.map Prod.fst).getD 0)

def picked (wanted : List Nat) (columns : List Bytes) (index : Nat) : List (Nat × Bytes) :=
  ((columns.zipIdx index).filter fun column => wanted.contains column.2).map Prod.swap

/-- A row group of the file whose body is `flat`, split at `ranges`. -/
structure ChunkedGroup (codecs : Codecs) (compression : CompressionType) (file : Bytes) (footer : V4Footer)
    (rgIdx : Nat) (rgMeta : RowGroupMeta) (flat : Bytes) (ranges : List (Nat × Nat)) (payload : Bytes)
    (chunks : List ChunkedColumn) : Prop where
  covering : ∃ start, Contiguous start ranges flat.length
  chunked : chunkRgBodyWithPrefix codecs compression (columnsOf flat ranges) (prefixOf flat ranges) =
    some (payload,chunks)
  /-- A mapped file has at most `isize::MAX` bytes. -/
  mapped : file.length < 2^63
  listed : footer.rowGroups[rgIdx]? = some rgMeta
  alone : ∀ other otherMeta, footer.rowGroups[other]? = some otherMeta → otherMeta.offset = rgMeta.offset →
    other = rgIdx
  inside : rgMeta.offset.toNat + rgMeta.dataSize.toNat ≤ file.length
  body : (rgBytes file rgMeta).drop 32 = payload
  directory : footer.chunkTables[rgIdx]? = some (chunks.map some)

theorem flat_split {start stop : Nat} {ranges : List (Nat × Nat)} {flat : Bytes}
    (covering : Contiguous start ranges stop) (fits : stop ≤ flat.length) :
    start ≤ stop ∧ (columnsOf flat ranges).flatten = (flat.drop start).take (stop - start) := by
  induction ranges generalizing start with
  | nil =>
    have same : start = stop := covering
    subst same
    exact ⟨Nat.le_refl _,by simp [columnsOf]⟩
  | cons range rest ih =>
    obtain ⟨rfl,forward,others⟩ := covering
    obtain ⟨before,flat_⟩ := ih others
    refine ⟨Nat.le_trans forward before,?_⟩
    have later : (flat.drop range.2).take (stop - range.2) = ((flat.drop range.1).drop (range.2 - range.1)).take
      (stop - range.2) := by
      rw [List.drop_drop,Nat.add_sub_cancel' forward]
    rw [columnsOf,List.map_cons,List.flatten_cons]
    change _ ++ (columnsOf flat rest).flatten = _
    rw [flat_,later,← List.take_add]
    congr 1
    omega

theorem flat_eq {ranges : List (Nat × Nat)} {flat : Bytes} {start : Nat}
    (covering : Contiguous start ranges flat.length) (some_ : ranges ≠ []) :
    prefixOf flat ranges ++ (columnsOf flat ranges).flatten = flat := by
  obtain ⟨_,columns⟩ := flat_split covering (Nat.le_refl _)
  cases ranges with
  | nil => exact absurd rfl some_
  | cons range rest =>
    obtain ⟨rfl,_⟩ := covering
    rw [columns,← List.length_drop,List.take_length]
    exact List.take_append_drop _ _

/-! What the cache may hold for one row group. -/

def Right (size : UInt64) (head : Bytes) (columns : List Bytes) (kind : UInt64) (body : Bytes) : Prop :=
  (kind = size → body = head ++ columns.flatten) ∧ (kind = u64Max → body = head) ∧
  ∀ index < columns.length, kind = columnKind index → columns[index]? = some body

namespace DecompressedRgCache

def Holds (cache : DecompressedRgCache) (offset size : UInt64) (head : Bytes) (columns : List Bytes) : Prop :=
  ∀ kind body, cache.get (offset,kind) = some body → Right size head columns kind body

theorem get_evict {budget bytes : Nat} {order : List CacheKey} {entries : Assoc.Map CacheKey Bytes} {key : CacheKey}
    {body : Bytes}
    (found : (evict budget order entries bytes).get key = some body) : entries.lookup key = some body := by
  induction order generalizing entries bytes with
  | nil => exact found
  | cons oldest order ih =>
    rw [evict] at found
    split at found
    · split at found
      · exact (Assoc.lookup_of_erase (ih found)).2
      · exact ih found
    · exact found

theorem get_insert {cache : DecompressedRgCache} {budget : Nat} {key other : CacheKey} {body found : Bytes}
    (there : (cache.insert budget key body).get other = some found) :
    (other = key ∧ found = body) ∨ cache.get other = some found := by
  unfold insert at there
  split at there
  · exact Or.inr there
  · split at there
    all_goals
      rcases Assoc.lookup_of_insert (get_evict there) with same | ⟨_,old⟩
      · exact Or.inl same
      · exact Or.inr old

section Holds
variable {codecs : Codecs} {compression : CompressionType} {budget : Nat} {footer : V4Footer}
    {cache : DecompressedRgCache}
  {offset size : UInt64} {head : Bytes} {columns : List Bytes}

theorem Holds.insert (holds : cache.Holds offset size head columns) (key : CacheKey) {body : Bytes}
    (right : key.1 = offset → Right size head columns key.2 body) :
    (cache.insert budget key body).Holds offset size head columns := by
  intro kind found there
  rcases get_insert there with ⟨same,rfl⟩ | old
  · subst same
    exact right rfl
  · exact holds kind found old

/-! Another row group. -/

theorem Holds.takePrefix (holds : cache.Holds offset size head columns) {other : UInt64} (apart : other ≠ offset)
    {prefixLen : Nat} {raw : Bytes}
    {needPrefix : Bool} : (cache.takePrefix codecs budget other prefixLen raw needPrefix).2.Holds offset size head
    columns := by
  unfold DecompressedRgCache.takePrefix
  split
  · split
    · exact holds
    · simp only
      split
      · exact holds
      · split
        · split
          · exact holds
          · split
            · exact holds.insert _ fun same => absurd same apart
            · exact holds
        · exact holds
  · exact holds

theorem Holds.decompressedRgBody (holds : cache.Holds offset size head columns) {other rgEnd : UInt64}
    (apart : other ≠ offset) {compressFlag : UInt8}
    {raw : Bytes} : (cache.decompressedRgBody codecs budget footer other rgEnd compressFlag raw).2.Holds offset size
    head columns := by
  unfold DecompressedRgCache.decompressedRgBody
  split
  · exact holds
  · split
    · exact holds
    · split
      · exact holds.insert _ fun same => absurd same apart
      · exact holds

theorem Holds.takeColumns (holds : cache.Holds offset size head columns) {other : UInt64} (apart : other ≠ offset)
    {wanted : List Nat} {raw : Bytes} (table : List (Option ChunkedColumn)) (index pos : Nat) :
    (takeColumns codecs budget other wanted raw table index pos cache).2.Holds offset size head columns := by
  induction table generalizing index pos cache with
  | nil => exact holds
  | cons column rest ih =>
    cases column with
    | none => exact ih holds _ _
    | some column =>
      rw [DecompressedRgCache.takeColumns]
      split
      · split
        · exact ih holds _ _
        · split
          · exact ih (holds.insert _ fun same => absurd same apart) _ _
          · exact holds
      · split
        · exact ih holds _ _
        · exact holds

theorem Holds.decompressedChunkedColumns (holds : cache.Holds offset size head columns) {other : Nat}
    {wanted : List Nat} {raw : Bytes} {needPrefix : Bool}
    (apart : (footer.rowGroups[other]?.map (·.offset)).getD 0 ≠ offset) :
    (cache.decompressedChunkedColumns codecs budget footer other wanted raw needPrefix).2.Holds offset size head
      columns := by
  unfold DecompressedRgCache.decompressedChunkedColumns
  split
  · exact holds
  · rename_i table _
    simp only
    have headTaken : (cache.takePrefix codecs budget _ (nextStart 0 table) raw needPrefix).2.Holds offset size head
      columns := holds.takePrefix apart
    split
    · rename_i stopped
      rwa [stopped] at headTaken
    · rename_i head' pos cache' taken
      rw [taken] at headTaken
      have columnsTaken : (DecompressedRgCache.takeColumns codecs budget _ wanted raw table 0 pos cache').2.Holds offset
        size head columns :=
        Holds.takeColumns headTaken apart table 0 pos
      split
      all_goals
        rename_i read
        rwa [read] at columnsTaken

/-! The row group itself. -/

theorem toNat_columnKind {index : Nat} (few : index < 2^64 - 1) : (columnKind index).toNat = 2^64 - 2 - index := by
  have small : (UInt64.ofNat index).toNat = index := UInt64.toNat_ofNat_of_lt' (show index < 2^64 by omega)
  have below : UInt64.ofNat index ≤ u64Max - 1 := by
    rw [UInt64.le_iff_toNat_le,small]
    change index ≤ 2^64 - 2
    omega
  rw [columnKind,UInt64.toNat_sub_of_le _ _ below,small]
  rfl

variable (apart : size.toNat + columns.length < 2^64 - 1)
include apart

theorem right_body (head : Bytes) : Right size head columns size (head ++ columns.flatten) := by
  refine ⟨fun _ => rfl,?_,?_⟩
  · rintro rfl
    have most : u64Max.toNat = 2^64 - 1 := rfl
    omega
  · rintro index few rfl
    rw [toNat_columnKind (by omega)] at apart
    omega

theorem right_prefix : Right size head columns u64Max head := by
  have most : u64Max.toNat = 2^64 - 1 := rfl
  refine ⟨?_,fun _ => rfl,?_⟩
  · rintro rfl
    omega
  · intro index few same
    have kind := toNat_columnKind (show index < 2^64 - 1 by omega)
    rw [← same] at kind
    omega

theorem right_column {index : Nat} {column : Bytes} (there : columns[index]? = some column) :
    Right size head columns (columnKind index) column := by
  have few : index < columns.length := (List.getElem?_eq_some_iff.mp there).1
  have kind := toNat_columnKind (show index < 2^64 - 1 by omega)
  refine ⟨?_,?_,?_⟩
  · rintro rfl
    omega
  · intro same
    have most : u64Max.toNat = 2^64 - 1 := rfl
    rw [same] at kind
    omega
  · intro other otherFew same
    have otherKind := toNat_columnKind (show other < 2^64 - 1 by omega)
    have equal : other = index := by
      rw [same] at kind
      omega
    rw [equal,there]

omit apart

theorem decompressColumnFrame_frameBytes (lossless : codecs.Lossless) {column : Bytes}
    (small : (compressFrame codecs compression column).2.length < 2^32) :
    decompressColumnFrame codecs (frameBytes (compressFrame codecs compression column)) = .ok column := by
  have whole : readBody codecs (compressFrame codecs compression column).1 (compressFrame codecs compression column).2
    none = .ok column :=
    decompress_compressed lossless column
  unfold decompressColumnFrame
  rw [openFrame_frameBytes small]
  unfold readBody at whole
  cases opened : decompressRgBody codecs (compressFrame codecs compression column).1
    (compressFrame codecs compression column).2 with
  | error error =>
    rw [opened] at whole
    cases whole
  | ok result =>
    rw [opened] at whole
    simp only [bind,Except.bind,opened]
    cases result with
    | none => exact whole
    | some bytes => exact whole

theorem joinChunks_frame (lossless : codecs.Lossless) {before after column : Bytes}
    (small : (compressFrame codecs compression column).2.length < 2^32)
    (take : Bool) :
    joinChunks codecs (before ++ (frameBytes (compressFrame codecs compression column) ++ after)) take
      [⟨UInt32.ofNat (compressFrame codecs compression column).2.length⟩] before.length [] =
    .ok ((before ++ frameBytes (compressFrame codecs compression column)).length,if take then column else []) := by
  have size : (UInt32.ofNat (compressFrame codecs compression column).2.length).toNat =
    (compressFrame codecs compression column).2.length :=
    UInt32.toNat_ofNat_of_lt' small
  have stop : before.length + chunkFrameHeaderLen + (compressFrame codecs compression column).2.length =
      (before ++ frameBytes (compressFrame codecs compression column)).length := by
    rw [List.length_append,length_frameBytes]
    omega
  have frame : ((before ++ (frameBytes (compressFrame codecs compression column) ++ after)).drop before.length).take
      ((before ++ frameBytes (compressFrame codecs compression column)).length - before.length) =
      frameBytes (compressFrame codecs compression column) := by
    rw [List.drop_left,List.length_append,Nat.add_sub_cancel_left,List.take_left]
  rw [joinChunks,size,stop,if_neg (by simp only [List.length_append]; omega)]
  cases take with
  | false => rfl
  | true =>
    rw [if_pos rfl,frame,decompressColumnFrame_frameBytes lossless small]
    rfl

theorem picked_cons (wanted : List Nat) (column : Bytes) (rest : List Bytes) (index : Nat) :
    picked wanted (column :: rest) index =
    if wanted.contains index then (index,column) :: picked wanted rest (index + 1)
    else picked wanted rest (index + 1) := by
  unfold picked
  rw [List.zipIdx_cons,List.filter_cons]
  split
  · rfl
  · rfl

include apart

/-- The cursor is where the frames of the remaining columns begin, whether those before were
decompressed, skipped, or found in the cache. -/
theorem takeColumns_frames (lossless : codecs.Lossless) {flatLen flatOff : UInt32} {done rest : List Bytes}
    {before : Bytes} (wanted : List Nat) (split_ : columns = done ++ rest)
    (small : ∀ column ∈ rest, (compressFrame codecs compression column).2.length < 2^32)
    (holds : cache.Holds offset size head columns) :
    ∃ cache', takeColumns codecs budget offset wanted (before ++ frames codecs compression rest)
        ((directory codecs compression flatLen flatOff rest).map some) done.length before.length cache =
        (.ok (picked wanted rest done.length),cache') ∧
      cache'.Holds offset size head columns := by
  induction rest generalizing done before flatOff cache with
  | nil => exact ⟨cache,rfl,holds⟩
  | cons column rest ih =>
    obtain ⟨here,others⟩ := List.forall_mem_cons.mp small
    have there : columns[done.length]? = some column := by
      rw [split_,List.getElem?_append_right (Nat.le_refl _),Nat.sub_self]
      rfl
    have few : done.length < columns.length := (List.getElem?_eq_some_iff.mp there).1
    have next {cache : DecompressedRgCache} (holds : cache.Holds offset size head columns) :=
      @ih cache (flatOff + UInt32.ofNat column.length) (done ++ [column]) (before ++
        frameBytes (compressFrame codecs compression column))
        (by rw [split_,List.append_assoc]; rfl) others holds
    have raw : before ++ frames codecs compression (column :: rest) =
        before ++ (frameBytes (compressFrame codecs compression column) ++ frames codecs compression rest) := by
      rw [frames,List.flatMap_cons]
      rfl
    simp only [List.length_append,List.length_cons,List.length_nil,Nat.zero_add,List.append_assoc] at next
    rw [raw,directory,List.map_cons,takeColumns,picked_cons]
    simp only [joinChunks_frame lossless here,if_true,List.length_append]
    by_cases take : wanted.contains done.length = true
    · rw [if_pos take,if_pos take]
      cases cached : cache.get (offset,columnKind done.length) with
      | some body =>
        have same : column = body := Option.some.inj (there.symm.trans ((holds _ _ cached).2.2 _ few rfl))
        subst same
        obtain ⟨cache',taken,still⟩ := next holds
        have size : (UInt32.ofNat (compressFrame codecs compression column).2.length).toNat =
          (compressFrame codecs compression column).2.length :=
          UInt32.toNat_ofNat_of_lt' here
        simp only [List.foldl_cons,List.foldl_nil,size]
        rw [← length_frameBytes,taken]
        exact ⟨cache',rfl,still⟩
      | none =>
        obtain ⟨cache',taken,still⟩ := next (holds.insert (offset,columnKind done.length)
          fun _ => right_column apart there)
        rw [taken]
        exact ⟨cache',rfl,still⟩
    · rw [if_neg take,if_neg take]
      obtain ⟨cache',taken,still⟩ := next holds
      rw [taken]
      exact ⟨cache',rfl,still⟩

theorem takePrefix_frame (lossless : codecs.Lossless) (short : head.length < 2^32) (after : Bytes) (needPrefix : Bool)
    (holds : cache.Holds offset size head columns) :
    ∃ cache', cache.takePrefix codecs budget offset head.length (prefixFrame codecs compression head ++ after)
      needPrefix =
        (.ok (if needPrefix then head else [],(prefixFrame codecs compression head).length),cache') ∧
        cache'.Holds offset size head columns := by
  by_cases empty : head = []
  · subst empty
    refine ⟨cache,?_,holds⟩
    cases needPrefix with
    | false => rfl
    | true => rfl
  · have small : (compressFrame codecs compression head).2.length < 2^32 :=
      Nat.lt_of_le_of_lt (compressFrame_le codecs compression head) short
    have frame := length_frameBytes (compressFrame codecs compression head)
    unfold DecompressedRgCache.takePrefix prefixFrame
    rw [if_pos (List.length_pos_iff.mpr empty),if_neg empty,if_neg (by rw [List.length_append,frame]; omega)]
    simp only
    rw [frameBytes_header small,← frame,if_neg (by rw [List.length_append]; omega)]
    cases needPrefix with
    | false => exact ⟨cache,rfl,holds⟩
    | true =>
      rw [if_pos rfl]
      cases cached : cache.get (offset,u64Max) with
      | some body =>
        have same : body = head := (holds _ _ cached).2.1 rfl
        subst same
        exact ⟨cache,rfl,holds⟩
      | none =>
        simp only
        rw [List.take_left,decompressColumnFrame_frameBytes lossless small]
        exact ⟨_,rfl,holds.insert _ fun _ => right_prefix apart⟩

omit apart

theorem picked_eq_nil {wanted : List Nat} {columns : List Bytes} {index : Nat} : picked wanted columns index = [] ↔
    ∀ other < columns.length, index + other ∉ wanted := by
  induction columns generalizing index with
  | nil => simp [picked]
  | cons column rest ih =>
    rw [picked_cons,List.length_cons]
    constructor
    · intro none_ other few
      split at none_
      · cases none_
      · rename_i unwanted
        cases other with
        | zero => simpa using unwanted
        | succ other =>
          have later := ih.mp none_ other (by omega)
          rwa [show index + (other + 1) = index + 1 + other by omega]
    · intro none_
      have unwanted := none_ 0 (by omega)
      rw [if_neg (by simpa using unwanted)]
      refine ih.mpr fun other few => ?_
      have later := none_ (other + 1) (by omega)
      rwa [show index + 1 + other = index + (other + 1) by omega]

end Holds

end DecompressedRgCache

namespace ChunkedGroup
variable {codecs : Codecs} {compression : CompressionType} {file : Bytes} {footer : V4Footer} {rgIdx : Nat}
    {rgMeta : RowGroupMeta} {flat : Bytes}
  {ranges : List (Nat × Nat)} {payload : Bytes} {chunks : List ChunkedColumn} {cache : DecompressedRgCache}
  (group : ChunkedGroup codecs compression file footer rgIdx rgMeta flat ranges payload chunks)
include group

theorem some_ranges : ranges ≠ [] := by
  rintro rfl
  exact (chunked_layout group.chunked).1 rfl

theorem flat_eq : prefixOf flat ranges ++ (columnsOf flat ranges).flatten = flat := by
  obtain ⟨start,covering⟩ := group.covering
  exact GroupFile.flat_eq covering group.some_ranges

theorem entry : chunkEntry footer.chunkTables[rgIdx]? = some (chunks.map some) := by
  obtain ⟨some_,_,rfl,_⟩ := chunked_layout group.chunked
  rw [group.directory]
  cases columns : columnsOf flat ranges with
  | nil => exact absurd columns some_
  | cons => rfl

theorem apart : rgMeta.dataSize.toNat + (columnsOf flat ranges).length < 2^64 - 1 := by
  obtain ⟨_,layout,_,_⟩ := chunked_layout group.chunked
  have few : (columnsOf flat ranges).length ≤ (frames codecs compression (columnsOf flat ranges)).length := by
    induction columnsOf flat ranges with
    | nil => exact Nat.le_refl _
    | cons column rest ih =>
      rw [frames,List.flatMap_cons,List.length_append,length_frameBytes,chunkFrameHeaderLen,List.length_cons]
      unfold frames at ih
      omega
  have size : payload.length ≤ rgMeta.dataSize.toNat := by
    rw [← group.body,rgBytes,List.length_drop,List.length_take]
    omega
  have mapped := group.mapped
  have inside := group.inside
  rw [layout,List.length_append] at size
  omega

theorem findIdx : footer.rowGroups.findIdx? (fun other => other.offset == rgMeta.offset) = some rgIdx := by
  obtain ⟨few,here⟩ := List.getElem?_eq_some_iff.mp group.listed
  rw [List.findIdx?_eq_some_iff_getElem]
  refine ⟨few,by rw [here]; exact beq_self_eq_true _,?_⟩
  intro other before same
  have equal := group.alone other _ (List.getElem?_eq_getElem (by omega)) (eq_of_beq same)
  omega

theorem assembled (lossless : codecs.Lossless) (short : flat.length < 2^32) :
    declaredLen (chunks.map some) = flat.length ∧ assembleChunkedBody codecs payload flat.length (chunks.map some) =
    .ok flat := by
  obtain ⟨some_,_,directory,_⟩ := chunked_layout group.chunked
  have assembled := (assemble_chunked lossless group.chunked (by rwa [group.flat_eq])).1
  have declared : declaredLen (chunks.map some) = flat.length := by
    rw [directory,declared_directory some_,group.flat_eq]
    exact UInt32.toNat_ofNat_of_lt' short
  rw [declared,group.flat_eq] at assembled
  exact ⟨declared,assembled⟩

section
variable (lossless : codecs.Lossless) (short : flat.length < 2^32)
include lossless short

section
variable (holds : cache.Holds rgMeta.offset rgMeta.dataSize (prefixOf flat ranges) (columnsOf flat ranges))
    (budget : Nat)
include holds

theorem columns_of_holds (wanted : List Nat) (needPrefix : Bool) :
    ∃ cache', cache.decompressedChunkedColumns codecs budget footer rgIdx wanted payload needPrefix =
        (.ok (if picked wanted (columnsOf flat ranges) 0 = [] then none
          else some (if needPrefix then prefixOf flat ranges else [],picked wanted (columnsOf flat ranges) 0)),cache') ∧
      cache'.Holds rgMeta.offset rgMeta.dataSize (prefixOf flat ranges) (columnsOf flat ranges) := by
  obtain ⟨some_,layout,directory,small⟩ := chunked_layout group.chunked
  have headShort : (prefixOf flat ranges).length < 2^32 := by
    rw [← group.flat_eq,List.length_append] at short
    omega
  have first : nextStart 0 (chunks.map some) = (prefixOf flat ranges).length := by
    rw [directory]
    exact nextStart_directory headShort _ fun none_ => absurd none_ some_
  obtain ⟨cache1,headTaken,holds1⟩ := DecompressedRgCache.takePrefix_frame group.apart lossless headShort
    (frames codecs compression (columnsOf flat ranges)) needPrefix holds
  obtain ⟨cache2,taken,holds2⟩ := DecompressedRgCache.takeColumns_frames
    group.apart lossless wanted (List.nil_append _).symm small holds1
  refine ⟨cache2,?_,holds2⟩
  rw [← directory,← layout] at taken
  rw [← layout] at headTaken
  unfold DecompressedRgCache.decompressedChunkedColumns
  rw [group.entry,group.listed]
  simp only [Option.map_some,Option.getD_some]
  rw [first,headTaken]
  simp only
  change DecompressedRgCache.takeColumns codecs budget rgMeta.offset wanted payload (chunks.map some) 0 _ _ = _ at taken
  rw [taken]
  simp only [List.length_nil]
  cases out : picked wanted (columnsOf flat ranges) 0 with
  | nil => rfl
  | cons => rfl

theorem body_of_holds {compressFlag : UInt8}
    (compressed : compressFlag ≠ rgCompressNone) :
    ∃ cache', cache.decompressedRgBody codecs budget footer rgMeta.offset (rgMeta.offset + rgMeta.dataSize) compressFlag
      payload = (.ok (some flat),cache') ∧
      cache'.Holds rgMeta.offset rgMeta.dataSize (prefixOf flat ranges) (columnsOf flat ranges) := by
  have size : rgMeta.offset + rgMeta.dataSize - rgMeta.offset = rgMeta.dataSize := by
    rw [UInt64.add_comm,UInt64.add_sub_cancel]
  unfold DecompressedRgCache.decompressedRgBody
  rw [if_neg compressed,size]
  cases cached : cache.get (rgMeta.offset,rgMeta.dataSize) with
  | some body =>
    have same : body = flat := ((holds _ _ cached).1 rfl).trans group.flat_eq
    subst same
    exact ⟨cache,rfl,holds⟩
  | none =>
    have read : GroupFile.decompressedRgBody codecs footer rgMeta.offset compressFlag payload = .ok (some flat) := by
      obtain ⟨declared,assembled⟩ := group.assembled lossless short
      unfold GroupFile.decompressedRgBody
      rw [if_neg compressed,group.findIdx]
      simp only [Option.bind_some]
      rw [group.entry]
      simp only [readBody]
      rw [declared,assembled]
      rfl
    simp only
    rw [read]
    refine ⟨_,rfl,holds.insert _ fun _ => ?_⟩
    have right := DecompressedRgCache.right_body group.apart (prefixOf flat ranges)
    rwa [group.flat_eq] at right

end

theorem holds_call (budget : Nat)
    (holds : cache.Holds rgMeta.offset rgMeta.dataSize (prefixOf flat ranges) (columnsOf flat ranges)) (next : Call) :
    (call codecs file footer budget cache next).Holds rgMeta.offset rgMeta.dataSize (prefixOf flat ranges)
      (columnsOf flat ranges) := by
  cases next with
  | decompressedRgBody other =>
    simp only [call]
    cases listed : footer.rowGroups[other]? with
    | none => exact holds
    | some otherMeta =>
      simp only
      by_cases same : otherMeta.offset = rgMeta.offset
      · have equal := group.alone other otherMeta listed same
        subst equal
        have meta_ : otherMeta = rgMeta := Option.some.inj (listed.symm.trans group.listed)
        subst meta_
        rw [group.body]
        by_cases compressed : (rgBytes file otherMeta)[28]?.getD rgCompressNone = rgCompressNone
        · rw [DecompressedRgCache.decompressedRgBody,if_pos compressed]
          exact holds
        · obtain ⟨cache',read,still⟩ := group.body_of_holds lossless short holds budget compressed
          rw [read]
          exact still
      · exact holds.decompressedRgBody same
  | decompressedChunkedColumns other wanted needPrefix =>
    simp only [call]
    cases listed : footer.rowGroups[other]? with
    | none => exact holds
    | some otherMeta =>
      simp only
      by_cases same : otherMeta.offset = rgMeta.offset
      · have equal := group.alone other otherMeta listed same
        subst equal
        have meta_ : otherMeta = rgMeta := Option.some.inj (listed.symm.trans group.listed)
        subst meta_
        rw [group.body]
        obtain ⟨cache',read,still⟩ := group.columns_of_holds lossless short holds budget wanted needPrefix
        rw [read]
        exact still
      · exact holds.decompressedChunkedColumns (by rw [listed]; exact same)
  | invalidate =>
    intro kind body found
    cases found

theorem holds_calls (history : List (Nat × Call)) :
    (calls codecs file footer history).Holds rgMeta.offset rgMeta.dataSize (prefixOf flat ranges)
      (columnsOf flat ranges) := by
  unfold calls
  induction history using List.reverseRecOn with
  | nil =>
    intro kind body found
    cases found
  | append_singleton history next ih =>
    rw [List.foldl_append]
    exact group.holds_call lossless short next.1 ih next.2

end

end ChunkedGroup

section Main
variable {codecs : Codecs} {compression : CompressionType} {file : Bytes} {footer : V4Footer} {rgIdx : Nat}
    {rgMeta : RowGroupMeta} {flat : Bytes}
  {ranges : List (Nat × Nat)} {payload : Bytes} {chunks : List ChunkedColumn}

/-- The frames are put together to the flat body, and one by one they are its head and its
columns, whatever was read before. A call that wants none of the columns has no answer. -/
theorem chunked_body_is_flat (lossless : codecs.Lossless)
    (group : ChunkedGroup codecs compression file footer rgIdx rgMeta flat ranges payload chunks)
    (short : flat.length < 2^32) (history : List (Nat × Call)) (budget : Nat) (wanted : List Nat) (needPrefix : Bool) :
    assembleChunkedBody codecs payload flat.length (chunks.map some) = .ok flat ∧
    ((calls codecs file footer history).decompressedChunkedColumns codecs budget footer rgIdx wanted payload
      needPrefix).1 =
      .ok (if ∃ index < ranges.length, index ∈ wanted then
          some (if needPrefix then prefixOf flat ranges else [],picked wanted (columnsOf flat ranges) 0)
        else none) := by
  refine ⟨(group.assembled lossless short).2,?_⟩
  obtain ⟨cache,read,_⟩ := group.columns_of_holds lossless short (group.holds_calls lossless short history) budget
    wanted needPrefix
  rw [read]
  have count : (columnsOf flat ranges).length = ranges.length := List.length_map _
  have nothing := @DecompressedRgCache.picked_eq_nil wanted (columnsOf flat ranges) 0
  simp only [Nat.zero_add,count] at nothing
  by_cases asked : ∃ index < ranges.length, index ∈ wanted
  · rw [if_pos asked,if_neg]
    obtain ⟨index,few,member⟩ := asked
    exact fun none_ => nothing.mp none_ index few member
  · rw [if_neg asked,if_pos]
    exact nothing.mpr fun index few member => asked ⟨index,few,member⟩

end Main

/-! A row group of two columns, one byte each. -/

def twoColumns : Bytes := [1,0,0,0,0,9,1,0,0,0,0,7,1,0,0,0,0,8]

def twoColumnsMeta : RowGroupMeta := ⟨8,50,1,0,0,0⟩

def twoColumnsChunks : List ChunkedColumn := [⟨[⟨1⟩],3,1⟩,⟨[⟨1⟩],3,2⟩]

def twoColumnsFile : Bytes := List.replicate 40 0 ++ twoColumns

def twoColumnsFooter : V4Footer := ⟨.new,[twoColumnsMeta],[],[],[twoColumnsChunks.map some]⟩

theorem twoColumns_group : ChunkedGroup storing .zstd twoColumnsFile twoColumnsFooter 0 twoColumnsMeta [9,7,8] [(1,2),
    (2,3)] twoColumns twoColumnsChunks where
  covering := ⟨1,rfl,by decide,rfl,by decide,rfl⟩
  chunked := by decide
  mapped := by decide
  listed := rfl
  alone := by
    intro other otherMeta listed _
    cases other with
    | zero => rfl
    | succ other => cases listed
  inside := by decide
  body := by decide
  directory := rfl

/-- The head and the second column, when the first was read before. -/
theorem second_column_comes_back :
    ((calls storing twoColumnsFile twoColumnsFooter
      [(64,.decompressedChunkedColumns 0 [0] false)]).decompressedChunkedColumns storing 64
      twoColumnsFooter 0 [1] twoColumns true).1 = .ok (some ([9],[(1,[8])])) :=
  (chunked_body_is_flat storing_lossless twoColumns_group (by decide) [(64,.decompressedChunkedColumns 0 [0] false)] 64
    [1] true).2

def zeros : Codecs where
  zstdCompress := fun bytes => if 8 < bytes.length ∧ bytes.length < 2^64 ∧ bytes = List.replicate bytes.length 0 then
    some (leBytes 8 bytes.length) else none
  zstdContentSize := fun _ => none
  zstdDecompress := fun bytes _ => .ok (List.replicate (ofLe bytes) 0)
  zstdStream := fun bytes => .ok (List.replicate (ofLe bytes) 0)
  zstdInto := fun bytes size => if ofLe bytes ≤ size then .ok (List.replicate (ofLe bytes) 0)
    else .error "Destination buffer is too small"
  lz4Compress := storing.lz4Compress
  lz4Decompress := storing.lz4Decompress
  lz4Into := storing.lz4Into

theorem zeros_compress {bytes compressed : Bytes} (made : zeros.zstdCompress bytes = some compressed) :
    ofLe compressed = bytes.length ∧ List.replicate bytes.length 0 = bytes := by
  simp only [zeros] at made
  split at made
  · rename_i fits
    cases made
    exact ⟨ofLe_leBytes_of_lt fits.2.1,fits.2.2.symm⟩
  · cases made

theorem zeros_lossless : zeros.Lossless where
  zstdSized := fun bytes compressed made size same => nomatch same
  zstdStreamed := fun bytes compressed made => by
    obtain ⟨count,same⟩ := zeros_compress made
    simp only [zeros]
    rw [count,same]
  zstdFilled := fun bytes compressed made => by
    obtain ⟨count,same⟩ := zeros_compress made
    simp only [zeros]
    rw [count,if_pos (Nat.le_refl _),same]
  lz4Sized := storing_lossless.lz4Sized
  lz4Header := storing_lossless.lz4Header
  lz4Filled := storing_lossless.lz4Filled

def wrapped : Bytes := [8,0,0,0,2,0,0,0,0,1,0,0,0,1,0,0,0,0,7]

def wrappedChunks : List ChunkedColumn := [⟨[⟨8⟩],1,0⟩,⟨[⟨1⟩],1,0⟩]

theorem wrapped_chunked {many : Nat} (exactly : many = 2^32) :
    chunkRgBodyWithPrefix zeros .zstd [List.replicate many 0,[7]] [] = some (wrapped,wrappedChunks) := by
  have bytes : leBytes 8 many = [0,0,0,0,1,0,0,0] := by
    rw [exactly]
    decide
  have place : UInt32.ofNat many = 0 := by
    rw [exactly]
    rfl
  have total : UInt32.ofNat (many + 1) = 1 := by
    rw [exactly]
    rfl
  have nonempty : List.replicate many (0 : UInt8) ≠ [] := by
    rw [ne_eq,List.replicate_eq_nil_iff]
    omega
  have first : compressFrame zeros .zstd (List.replicate many 0) = (rgCompressZstd,[0,0,0,0,1,0,0,0]) := by
    simp only [compressFrame,zeros,List.length_replicate]
    rw [if_pos ⟨by omega,by omega,trivial⟩,bytes]
    simp only
    rw [if_pos]
    rw [exactly]
    decide
  have second : compressFrame zeros .zstd [7] = (rgCompressNone,[7]) := by decide
  have columns : chunkColumns zeros .zstd [List.replicate many 0,[7]] [] 0 =
      some (wrapped,[⟨[⟨8⟩],0,0⟩,⟨[⟨1⟩],0,0⟩]) := by
    rw [chunkColumns,if_neg nonempty,first]
    simp only [List.length_replicate,place]
    rw [if_neg (by decide),chunkColumns,if_neg (by decide),second]
    rfl
  unfold chunkRgBodyWithPrefix
  rw [if_neg (by simp)]
  simp only [List.map_cons,List.map_nil,List.sum_cons,List.sum_nil,List.length_replicate,List.length_nil,
    List.length_cons,Nat.zero_add,if_true,
    Nat.add_zero,total]
  rw [show UInt32.ofNat 0 = 0 from rfl,columns]
  rfl

theorem wrapped_fails (declared : Nat) : assembleChunkedBody zeros wrapped declared (wrappedChunks.map some) =
    .error (failed "ZSTD decompress failed: Destination buffer is too small") := by
  have frame : decompressFrameInto zeros (wrapped.take 13) 0 =
    .error (failed "ZSTD decompress failed: Destination buffer is too small") := rfl
  have next : nextStart declared [some (⟨[⟨1⟩],1,0⟩ : ChunkedColumn)] = 0 := rfl
  unfold assembleChunkedBody
  simp only [wrappedChunks,List.map_cons,List.map_nil]
  rw [show nextStart 0 [some (⟨[⟨8⟩],1,0⟩ : ChunkedColumn),some ⟨[⟨1⟩],1,0⟩] = 0 from rfl,Nat.zero_min,
    if_neg (Nat.lt_irrefl 0)]
  rw [assembleColumns,next,if_neg (by simp)]
  rw [show (UInt32.toNat 0) = 0 from rfl]
  rw [assembleColumn]
  rw [show chunkFrameHeaderLen + (⟨8⟩ : ChunkRef).len.toNat = 13 from rfl,if_neg (by decide),if_pos ⟨rfl,Nat.le_refl 0⟩]
  rw [frame]
  rfl

/-- Reading no column does not give the head, and the directory has no room for places
from 2^32 on. -/
theorem prefix_alone_is_not_read :
    (storing.Lossless ∧ ChunkedGroup storing .zstd twoColumnsFile twoColumnsFooter 0 twoColumnsMeta [9,7,8] [(1,2),
      (2,3)] twoColumns twoColumnsChunks ∧
      (DecompressedRgCache.fresh.decompressedChunkedColumns storing 64 twoColumnsFooter 0 [] twoColumns true).1 =
      .ok none) ∧
    (zeros.Lossless ∧ chunkRgBodyWithPrefix zeros .zstd [List.replicate (2^32) 0,[7]] [] =
      some (wrapped,wrappedChunks) ∧
      assembleChunkedBody zeros wrapped (2^32 + 1) (wrappedChunks.map some) =
        .error (failed "ZSTD decompress failed: Destination buffer is too small")) :=
  ⟨⟨storing_lossless,twoColumns_group,by decide⟩,zeros_lossless,wrapped_chunked rfl,wrapped_fails _⟩

end ApexBase.GroupFile
