import ApexBase.GroupFile.Format

/-! Every layout of a body is read back as the flat body. -/
namespace ApexBase.GroupFile
open Data Column Library.Wire ColumnData
open Storage.Schema (Failure failed)
open Storage.Footer (ChunkRef ChunkedColumn)

/-- What the compressors promise: each way to decompress undoes the compression, where a buffer has
the size of the original. -/
structure Codecs.Lossless (codecs : Codecs) : Prop where
  zstdSized : ∀ bytes compressed, codecs.zstdCompress bytes = some compressed →
    ∀ size, codecs.zstdContentSize compressed = some size → codecs.zstdDecompress compressed size = .ok bytes
  zstdStreamed : ∀ bytes compressed, codecs.zstdCompress bytes = some compressed →
    codecs.zstdStream compressed = .ok bytes
  zstdFilled : ∀ bytes compressed, codecs.zstdCompress bytes = some compressed →
    codecs.zstdInto compressed bytes.length = .ok bytes
  lz4Sized : ∀ bytes, codecs.lz4Decompress (codecs.lz4Compress bytes) = .ok bytes
  lz4Header : ∀ bytes, 4 ≤ (codecs.lz4Compress bytes).length
  lz4Filled : ∀ bytes, codecs.lz4Into ((codecs.lz4Compress bytes).drop 4) bytes.length = .ok bytes

section Frames

variable {codecs : Codecs} {compression : CompressionType}

section
variable (codecs : Codecs) (compression : CompressionType) (chunk : Bytes)

private theorem compressFrame_cases :
    compressFrame codecs compression chunk = (rgCompressNone,chunk) ∨
    (∃ compressed, codecs.zstdCompress chunk = some compressed ∧ compressed.length < chunk.length ∧
      compressFrame codecs compression chunk = (rgCompressZstd,compressed)) ∨
    ((codecs.lz4Compress chunk).length < chunk.length ∧ compressFrame codecs compression chunk =
      (rgCompressLz4,codecs.lz4Compress chunk)) := by
  cases compression with
  | none => exact Or.inl rfl
  | zstd =>
    simp only [compressFrame]
    cases compressed : codecs.zstdCompress chunk with
    | none => exact Or.inl rfl
    | some bytes =>
      by_cases smaller : bytes.length < chunk.length
      · exact Or.inr (Or.inl ⟨bytes,rfl,smaller,if_pos smaller⟩)
      · exact Or.inl (if_neg smaller)
  | lz4 =>
    simp only [compressFrame]
    by_cases smaller : (codecs.lz4Compress chunk).length < chunk.length
    · exact Or.inr (Or.inr ⟨smaller,if_pos smaller⟩)
    · exact Or.inl (if_neg smaller)

theorem compressFrame_le :
    (compressFrame codecs compression chunk).2.length ≤ chunk.length := by
  rcases compressFrame_cases codecs compression chunk with same | ⟨compressed,_,smaller,same⟩ | ⟨smaller,same⟩
  · rw [same]
  · rw [same]
    exact Nat.le_of_lt smaller
  · rw [same]
    exact Nat.le_of_lt smaller

end

theorem decompress_compressed (lossless : codecs.Lossless) (body : Bytes) :
    readBody codecs (compressFrame codecs compression body).1 (compressFrame codecs compression body).2 none =
    .ok body := by
  rcases compressFrame_cases codecs compression body with same | ⟨compressed,from_,_,same⟩ | ⟨_,same⟩
  · rw [same]
    rfl
  · rw [same]
    simp only [readBody,decompressRgBody]
    rw [if_neg (by decide),if_neg (by decide),if_pos trivial]
    cases sized : codecs.zstdContentSize compressed with
    | some size =>
      simp only
      rw [lossless.zstdSized body compressed from_ size sized]
      rfl
    | none =>
      simp only
      rw [lossless.zstdStreamed body compressed from_]
      rfl
  · rw [same]
    simp only [readBody,decompressRgBody]
    rw [if_neg (by decide),if_pos trivial,lossless.lz4Sized]
    rfl

private theorem decompress_whole (lossless : codecs.Lossless) (body : Bytes) :
    readBody codecs (compressRgBody codecs compression body).1 (compressRgBody codecs compression body).2 none =
    .ok body := by
  unfold compressRgBody
  split
  · rfl
  · exact decompress_compressed lossless body

@[simp] theorem length_frameBytes (frame : UInt8 × Bytes) :
    (frameBytes frame).length = chunkFrameHeaderLen + frame.2.length := by
  simp only [frameBytes,chunkFrameHeaderLen,List.length_append,length_leBytes,List.length_cons]
  omega

theorem frameBytes_header {frame : UInt8 × Bytes} (small : frame.2.length < 2^32) {after : Bytes} :
    ofLe ((frameBytes frame ++ after).take 4) = frame.2.length := by
  rw [frameBytes,List.append_assoc,List.take_left' (length_leBytes 4 _)]
  exact ofLe_leBytes_of_lt small

theorem openFrame_frameBytes {frame : UInt8 × Bytes} (small : frame.2.length < 2^32) :
    openFrame (frameBytes frame) = .ok frame := by
  have header : ofLe ((frameBytes frame).take 4) = frame.2.length := by simpa using @frameBytes_header frame small []
  have flag : (frameBytes frame)[4]?.getD 0 = frame.1 := by
    rw [frameBytes,List.getElem?_append_right (by rw [length_leBytes]),length_leBytes]
    rfl
  have body : (frameBytes frame).drop chunkFrameHeaderLen = frame.2 := by
    rw [frameBytes,chunkFrameHeaderLen,show 5 = (leBytes 4 frame.2.length).length +
      1 by rw [length_leBytes],List.drop_append]
    simp
  unfold openFrame
  simp only
  rw [header,flag,body,length_frameBytes,if_neg (by omega),if_neg (by omega),List.take_length]

private theorem decompress_into (lossless : codecs.Lossless) {chunk : Bytes}
    (small : (compressFrame codecs compression chunk).2.length < 2^32) :
    decompressFrameInto codecs (frameBytes (compressFrame codecs compression chunk)) chunk.length = .ok chunk := by
  unfold decompressFrameInto
  rw [openFrame_frameBytes small]
  simp only [bind,Except.bind]
  rcases compressFrame_cases codecs compression chunk with same | ⟨compressed,from_,_,same⟩ | ⟨_,same⟩
  · rw [same]
    simp [pure,Except.pure]
  · rw [same]
    simp only
    rw [if_neg (by decide),if_pos trivial,lossless.zstdFilled chunk compressed from_]
    simp [pure,Except.pure]
  · have long := lossless.lz4Header chunk
    rw [same]
    simp only
    rw [if_neg (by decide),if_neg (by decide),if_pos trivial,if_neg (by omega),lossless.lz4Filled]
    simp [pure,Except.pure]

end Frames

def directory (codecs : Codecs) (compression : CompressionType) (flatLen : UInt32) :
    UInt32 → List Bytes → List ChunkedColumn
  | _,[] => []
  | flatOff,column :: rest => ⟨[⟨UInt32.ofNat (compressFrame codecs compression column).2.length⟩],flatLen,flatOff⟩ ::
      directory codecs compression flatLen (flatOff + UInt32.ofNat column.length) rest

def frames (codecs : Codecs) (compression : CompressionType) (columns : List Bytes) : Bytes :=
  columns.flatMap fun column => frameBytes (compressFrame codecs compression column)

def prefixFrame (codecs : Codecs) (compression : CompressionType) (head : Bytes) : Bytes :=
  if head = [] then [] else frameBytes (compressFrame codecs compression head)

section Directory

variable {codecs : Codecs} {compression : CompressionType}

theorem chunkColumns_some {columns : List Bytes} {payload written : Bytes} {flatOff flatLen : UInt32}
    {chunks : List ChunkedColumn}
    (some_ : chunkColumns codecs compression columns payload flatOff = some (written,chunks)) :
    written = payload ++ frames codecs compression columns ∧
    (chunks.map fun column => {column with flatLen := flatLen}) = directory codecs compression flatLen flatOff columns ∧
    ∀ column ∈ columns, (compressFrame codecs compression column).2.length < 2^32 := by
  induction columns generalizing payload flatOff chunks with
  | nil =>
    cases some_
    exact ⟨(List.append_nil _).symm,rfl,nofun⟩
  | cons column rest ih =>
    rw [chunkColumns] at some_
    split at some_
    · cases some_
    · simp only at some_
      split at some_
      · cases some_
      · rename_i fits
        obtain ⟨⟨later,others⟩,more,same⟩ := Option.bind_eq_some_iff.mp some_
        cases same
        obtain ⟨rfl,entries,small⟩ := ih more
        refine ⟨?_,?_,?_⟩
        · simp only [frames,List.flatMap_cons,List.append_assoc]
        · rw [List.map_cons,entries]
          rfl
        · refine List.forall_mem_cons.mpr ⟨?_,small⟩
          omega

theorem nextStart_directory {flatLen : UInt32} {place beyond : Nat} (small : place < 2^32) (columns : List Bytes)
    (last : columns = [] → beyond = place) :
    nextStart beyond ((directory codecs compression flatLen (UInt32.ofNat place) columns).map some) = place := by
  cases columns with
  | nil => exact last rfl
  | cons column rest =>
    simp only [directory,nextStart,List.map_cons,List.findSome?_cons,Option.map_some,Option.getD_some]
    exact UInt32.toNat_ofNat_of_lt' small

private theorem splice_next (done column : Bytes) (more : Nat) :
    splice (done ++ List.replicate (column.length + more) 0) done.length column =
    (done ++ column) ++ List.replicate more 0 := by
  unfold splice
  rw [List.take_left,List.drop_append,List.drop_eq_nil_of_le (Nat.le_add_right _ _),Nat.add_sub_cancel_left,
    List.drop_replicate,
    Nat.add_sub_cancel_left,List.nil_append,List.append_assoc]

private theorem assemble_directory (lossless : codecs.Lossless) {flatLen : UInt32} {columns : List Bytes} {done : Bytes}
    {declared : Nat} (total : declared = done.length + columns.flatten.length) (short : declared < 2^32)
    (small : ∀ column ∈ columns, (compressFrame codecs compression column).2.length < 2^32) :
    assembleColumns codecs declared ((directory codecs compression flatLen (UInt32.ofNat done.length) columns).map some)
      (frames codecs compression columns) (done ++ List.replicate columns.flatten.length 0) =
      .ok (done ++ columns.flatten) := by
  induction columns generalizing done with
  | nil => simp [directory,assembleColumns]
  | cons column rest ih =>
    rw [List.flatten_cons,List.length_append] at total
    obtain ⟨here,others⟩ := List.forall_mem_cons.mp small
    have start : (UInt32.ofNat done.length).toNat = done.length :=
      UInt32.toNat_ofNat_of_lt' (show done.length < 2^32 by omega)
    have size : (UInt32.ofNat (compressFrame codecs compression column).2.length).toNat =
      (compressFrame codecs compression column).2.length :=
      UInt32.toNat_ofNat_of_lt' here
    have nextOff : UInt32.ofNat done.length + UInt32.ofNat column.length = UInt32.ofNat (done ++ column).length := by
      rw [List.length_append,UInt32.ofNat_add]
    have next : nextStart declared ((directory codecs compression flatLen (UInt32.ofNat (done ++ column).length)
      rest).map some) =
        done.length + column.length := by
      rw [nextStart_directory (by rw [List.length_append]; omega),List.length_append]
      rintro rfl
      rw [List.length_append]
      simpa using total
    have more := @ih (done ++ column) (by rw [List.length_append]; omega) others
    have room : (done ++ List.replicate (column.length + rest.flatten.length) (0 : UInt8)).length = declared := by
      rw [List.length_append,List.length_replicate]
      omega
    have taken : (frameBytes (compressFrame codecs compression column) ++ frames codecs compression rest).take
        (chunkFrameHeaderLen + (compressFrame codecs compression column).2.length) =
        frameBytes (compressFrame codecs compression column) :=
      List.take_left' (length_frameBytes _)
    have left : (frameBytes (compressFrame codecs compression column) ++ frames codecs compression rest).drop
        (chunkFrameHeaderLen + (compressFrame codecs compression column).2.length) = frames codecs compression rest :=
      List.drop_left' (length_frameBytes _)
    have fits : ¬ chunkFrameHeaderLen + (compressFrame codecs compression column).2.length >
        (frameBytes (compressFrame codecs compression column) ++ frames codecs compression rest).length := by
      rw [List.length_append,length_frameBytes]
      omega
    rw [frames,List.flatMap_cons,directory,List.map_cons,List.flatten_cons,List.length_append]
    change assembleColumns codecs declared _ (frameBytes (compressFrame codecs compression column) ++
      frames codecs compression rest) _ = _
    simp only [assembleColumns]
    rw [nextOff,next,start,room,if_neg (by omega)]
    simp only [assembleColumn,size]
    rw [if_neg fits,if_pos ⟨rfl,Nat.le_add_right _ _⟩,taken,left,Nat.add_sub_cancel_left,decompress_into lossless here]
    simp only [bind,Except.bind]
    rw [splice_next,more,List.append_assoc]

theorem declared_directory {flatLen flatOff : UInt32} {columns : List Bytes} (some_ : columns ≠ []) :
    declaredLen ((directory codecs compression flatLen flatOff columns).map some) = flatLen.toNat := by
  have all : ∀ (flatOff : UInt32) (columns : List Bytes),
      (directory codecs compression flatLen flatOff columns).map (fun column => column.flatLen.toNat) =
        List.replicate columns.length flatLen.toNat := by
    intro flatOff columns
    induction columns generalizing flatOff with
    | nil => rfl
    | cons column rest ih => rw [directory,List.map_cons,ih,List.length_cons,List.replicate_succ]
  have long := List.length_pos_iff.mpr some_
  unfold declaredLen
  rw [List.filterMap_map,show (id ∘ some : ChunkedColumn → Option ChunkedColumn) = some from rfl,
    List.filterMap_some,all,
    List.max?_replicate_of_pos long]
  rfl

theorem chunked_layout {columns : List Bytes} {head payload : Bytes} {chunks : List ChunkedColumn}
    (made : chunkRgBodyWithPrefix codecs compression columns head = some (payload,chunks)) :
    columns ≠ [] ∧ payload = prefixFrame codecs compression head ++ frames codecs compression columns ∧
    chunks = directory codecs compression (UInt32.ofNat (head ++ columns.flatten).length)
      (UInt32.ofNat head.length) columns ∧
    ∀ column ∈ columns, (compressFrame codecs compression column).2.length < 2^32 := by
  unfold chunkRgBodyWithPrefix at made
  split at made
  · cases made
  · rename_i both
    obtain ⟨⟨written,entries⟩,split_,same⟩ := Option.bind_eq_some_iff.mp made
    cases same
    obtain ⟨rfl,listed,small⟩ :=
      @chunkColumns_some _ _ columns _ _ _ (UInt32.ofNat (head.length + (columns.map List.length).sum)) _ split_
    refine ⟨fun none_ => both (Or.inr none_),rfl,?_,small⟩
    rw [listed,List.length_append,List.length_flatten]

theorem assemble_chunked (lossless : codecs.Lossless) {columns : List Bytes} {head payload : Bytes}
    {chunks : List ChunkedColumn} (made : chunkRgBodyWithPrefix codecs compression columns head = some (payload,chunks))
    (short : (head ++ columns.flatten).length < 2^32) :
    assembleChunkedBody codecs payload (declaredLen (chunks.map some)) (chunks.map some) =
    .ok (head ++ columns.flatten) ∧ chunks ≠ [] := by
  obtain ⟨some_,rfl,rfl,small⟩ := chunked_layout made
  have declared : (UInt32.ofNat (head ++ columns.flatten).length).toNat = (head ++ columns.flatten).length :=
    UInt32.toNat_ofNat_of_lt' short
  rw [declared_directory some_,declared,List.length_append]
  rw [List.length_append] at short
  have headShort : head.length < 2^32 := by omega
  have first : nextStart 0 ((directory codecs compression (UInt32.ofNat (head.length + columns.flatten.length))
      (UInt32.ofNat head.length) columns).map some) = head.length := nextStart_directory headShort columns fun none_ =>
        absurd none_ some_
  have assembled := @assemble_directory codecs compression lossless
    (UInt32.ofNat (head.length + columns.flatten.length)) columns head
    (head.length + columns.flatten.length) rfl short small
  refine ⟨?_,?_⟩
  · unfold assembleChunkedBody prefixFrame
    simp only
    rw [first,Nat.min_eq_left (Nat.le_add_right _ _)]
    by_cases empty : head = []
    · subst empty
      simpa using assembled
    · have long := List.length_pos_iff.mpr empty
      have headSmall : (compressFrame codecs compression head).2.length < 2^32 :=
        Nat.lt_of_le_of_lt (compressFrame_le codecs compression head) headShort
      have opened : chunkFrameBytes (frameBytes (compressFrame codecs compression head) ++
        frames codecs compression columns) =
          .ok (frameBytes (compressFrame codecs compression head),frames codecs compression columns) := by
        unfold chunkFrameBytes
        simp only
        rw [frameBytes_header headSmall,if_neg (by rw [List.length_append,length_frameBytes]; omega),
          if_neg (by rw [List.length_append,length_frameBytes]; omega),List.take_left' (length_frameBytes _),
          List.drop_left' (length_frameBytes _)]
      have spliced := splice_next [] head columns.flatten.length
      rw [List.nil_append,List.nil_append,List.length_nil] at spliced
      rw [if_pos long,if_neg empty,opened]
      simp only [bind,Except.bind]
      rw [decompress_into lossless headSmall]
      simp only
      rw [spliced,assembled]
  · cases columns with
    | nil => exact absurd rfl some_
    | cons column rest =>
      exact fun empty => nomatch empty

section
variable {columns : List Bytes} {before : Bytes} (short : (before ++ columns.flatten).length < 2^32)
include short

private theorem columns_of_ranges :
    ((colRanges before.length columns).map fun range => ((before ++ columns.flatten).drop range.1).take
      (range.2 - range.1)) = columns := by
  induction columns generalizing before with
  | nil => rfl
  | cons column rest ih =>
    have more := @ih (before ++ column) (by rwa [List.append_assoc])
    have place : before.length % 2^32 = before.length := by
      rw [List.length_append] at short
      exact Nat.mod_eq_of_lt (by omega)
    rw [List.length_append,List.append_assoc] at more
    rw [colRanges,List.map_cons,List.flatten_cons,more,place,List.drop_left,Nat.add_sub_cancel_left,List.take_left]

private theorem head_of_ranges (some_ : columns ≠ []) :
    (before ++ columns.flatten).take (((colRanges before.length columns).head?.map Prod.fst).getD 0) = before := by
  cases columns with
  | nil => exact absurd rfl some_
  | cons column rest =>
    rw [List.length_append] at short
    simp only [colRanges,List.head?_cons,Option.map_some,Option.getD_some]
    rw [Nat.mod_eq_of_lt (show before.length < 2^32 by omega),List.take_left]

end

theorem readBody_encoded (lossless : codecs.Lossless) (options : GroupOptions) {head : Bytes} {columns : List Bytes}
    (short : (encodeRgBodyWithLayout codecs options.compression options.chunkIndex (head ++ columns.flatten)
      (colRanges head.length columns) options.layout).chunks.isSome = true → (head ++ columns.flatten).length < 2^32) :
    let encoded := encodeRgBodyWithLayout codecs options.compression options.chunkIndex (head ++ columns.flatten)
      (colRanges head.length columns) options.layout
    readBody codecs encoded.compressFlag encoded.body (chunkEntry (some ((encoded.chunks.getD []).map some))) =
    .ok (head ++ columns.flatten) := by
  have whole : readBody codecs (compressRgBody codecs options.compression (head ++ columns.flatten)).1
      (compressRgBody codecs options.compression (head ++ columns.flatten)).2 (chunkEntry (some ([].map some))) =
      .ok (head ++ columns.flatten) :=
    decompress_whole lossless _
  have chunked {payload : Bytes} {chunks : List ChunkedColumn} (flag : UInt8)
    (short : (head ++ columns.flatten).length < 2^32)
      (some_ : columns ≠ [])
      (made : chunkRgBodyWithPrefix codecs options.compression
        ((colRanges head.length columns).map fun range => ((head ++ columns.flatten).drop range.1).take
          (range.2 - range.1))
        ((head ++ columns.flatten).take (((colRanges head.length columns).head?.map Prod.fst).getD 0)) =
        some (payload, chunks)) :
      readBody codecs flag payload (chunkEntry (some (chunks.map some))) = .ok (head ++ columns.flatten) := by
    rw [columns_of_ranges short, head_of_ranges short some_] at made
    obtain ⟨assembled,some_⟩ := assemble_chunked lossless made short
    have counts : chunkEntry (some (chunks.map some)) = some (chunks.map some) := by
      cases chunks with
      | nil => exact absurd rfl some_
      | cons => rfl
    rw [counts]
    exact assembled
  simp only [encodeRgBodyWithLayout] at short ⊢
  split
  · rename_i chunkable
    have some_ : columns ≠ [] := by
      rintro rfl
      exact chunkable.1.2.2.2 rfl
    rw [if_pos chunkable] at short
    split
    · exact whole
    · rename_i payload chunks made
      rw [made] at short
      simp only at short
      split
      · rename_i forced
        exact chunked _ (short (by rw [if_pos forced]; rfl)) some_ made
      · rename_i gated
        split
        · rename_i taken
          exact chunked _ (short (by rw [if_neg gated, if_pos taken]; rfl)) some_ made
        · exact whole
  · exact whole

end Directory

end ApexBase.GroupFile
