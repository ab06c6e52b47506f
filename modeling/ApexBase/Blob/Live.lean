import ApexBase.Blob.Store

/-! What a descriptor stands for, and what the calls keep of it. A descriptor of a live row reads back
its payload as long as the packed file and the objects only grow, so the writes and the vacuums are
checked one by one. -/
namespace ApexBase.Blob
open Data Library Library.Wire Library.Assoc
open Storage.Schema (Failure failed)
open Storage.Footer (V4Footer)
open Digests (crc32)

variable [Digests]

structure InPacked (packed : Option Bytes) (offset : Nat) (payload : Bytes) : Prop where
  inside : ∃ file, packed = some file ∧ offset + payload.length ≤ file.length ∧
    (file.drop offset).take payload.length = payload

def packedSize (payload : Bytes) : Prop := blobInlineThreshold < payload.length ∧ payload.length ≤ blobPackedThreshold

/-- A descriptor and where its payload is. -/
inductive Designated (store : BlobStore) (bytes payload : Bytes) : Prop
  | inline (decoded : decodeBlobDescriptor bytes = some ⟨modeInline,payload.length,crc32 payload,payload⟩)
  | packed (locator : Bytes)
      (decoded : decodeBlobDescriptor bytes = some ⟨modePacked,payload.length,crc32 payload,locator⟩)
      (eight : locator.length = 8) (size : packedSize payload)
      (there : InPacked store.files.packed (ofLe (locator.take 8)) payload)
  | dedicated (objectId : String)
      (decoded : decodeBlobDescriptor bytes = some ⟨modeDedicated,payload.length,crc32 payload,utf8 objectId⟩)
      (there : store.objects.lookup objectId = some payload)

def part (payload : Bytes) (offset : Nat) : Option Nat → Bytes
  | none => payload.drop offset
  | some count => (payload.drop offset).take count

/-- All readers give the payload. -/
structure Reads (store : BlobStore) (bytes payload : Bytes) : Prop where
  value : store.readBlobValue bytes = .ok payload
  range : ∀ offset length, store.readBlobValueRange bytes offset length = .ok (part payload offset.toNat length)
  cached : store.readBlobBytesWithCache bytes none = .ok payload
  cachedRange : ∀ offset length, store.readBlobBytesWithCache bytes (some (offset,length)) =
    .ok (part payload offset.toNat length)

/-- Every descriptor of a live row reads back. -/
structure ReadsBack (store : BlobStore) : Prop where
  pending : ∀ entry ∈ store.pending, Reads store entry.1 entry.2
  rows : ∀ entry ∈ store.rows, ∃ bytes, store.cell entry = some bytes ∧ Reads store bytes entry.payload

structure Sound (store : BlobStore) : Prop where
  pending : ∀ entry ∈ store.pending, Designated store entry.1 entry.2
  rows : ∀ entry ∈ store.rows, entry.column ∈ blobColumns store.footer ∧ ∃ bytes, store.cell entry = some bytes ∧
    Designated store bytes entry.payload

section Read

variable {store : BlobStore} {bytes payload : Bytes}

theorem verified_ok {descriptor : BlobDescriptor} (len : descriptor.len = payload.length)
    (checksum : descriptor.checksum = crc32 payload) :
    verified descriptor payload = .ok payload := by
  rw [verified,len,checksum,if_neg (not_not.mpr rfl),if_neg (not_not.mpr rfl)]

omit [Digests] in
theorem drop_take {file : Bytes} {offset start count : Nat} (same : (file.drop offset).take payload.length = payload)
    (inside : start + count ≤ payload.length) :
    (file.drop (offset + start)).take count = (payload.drop start).take count := by
  have size : count ≤ payload.length - start := by omega
  calc (file.drop (offset + start)).take count
      = (((file.drop offset).drop start).take (payload.length - start)).take count := by
        rw [List.drop_drop,List.take_take,Nat.min_eq_left size]
    _ = (((file.drop offset).take payload.length).drop start).take count := by rw [List.drop_take]
    _ = (payload.drop start).take count := by rw [same]

omit [Digests] in
theorem part_take (offset : Nat) (length : Option Nat) :
    (payload.drop offset).take (min (length.getD (payload.length - offset)) (payload.length - offset)) =
    part payload offset length := by
  cases length with
  | none =>
    rw [Option.getD_none,Nat.min_self,part,List.take_of_length_le (by rw [List.length_drop])]
  | some count =>
    rw [Option.getD_some,part,← List.length_drop,← List.take_eq_take_min]

omit [Digests] in
theorem part_beyond {offset : Nat} (beyond : payload.length ≤ offset) (length : Option Nat) :
    part payload offset length = [] := by
  have none_ : payload.drop offset = [] := List.drop_eq_nil_of_le beyond
  cases length with
  | none => exact none_
  | some count => rw [part,none_,List.take_nil]

section
variable (designated : Designated store bytes payload)
include designated

theorem readRange_designated :
    ∃ descriptor, decodeBlobDescriptor bytes = some descriptor ∧ descriptor.len = payload.length ∧
    descriptor.checksum = crc32 payload ∧
      ∀ start count, start + count ≤ payload.length → store.readRange descriptor start count =
      .ok ((payload.drop start).take count) := by
  cases designated with
  | inline decoded =>
    refine ⟨_,decoded,rfl,rfl,fun start count inside => ?_⟩
    rw [BlobStore.readRange,if_pos rfl]
    exact if_pos inside
  | packed locator decoded eight size there =>
    obtain ⟨file,found,room,same⟩ := there.inside
    refine ⟨_,decoded,rfl,rfl,fun start count inside => ?_⟩
    rw [BlobStore.readRange,if_neg (show ¬ modePacked = modeInline by decide),if_pos rfl,if_neg (not_not.mpr eight),
      BlobStore.readPackedBlobAt,found]
    dsimp only
    rw [packedOffset,readExact_ok (by dsimp only; omega),drop_take same inside]
  | dedicated objectId decoded there =>
    refine ⟨_,decoded,rfl,rfl,fun start count inside => ?_⟩
    rw [BlobStore.readRange,if_neg (show ¬ modeDedicated = modeInline by decide),
      if_neg (show ¬ modeDedicated = modePacked by decide),if_pos rfl,
      BlobStore.readObject]
    dsimp only
    rw [fromUtf8_utf8]
    dsimp only
    rw [there]
    exact readExact_ok inside

theorem readBlobValue_designated : store.readBlobValue bytes = .ok payload := by
  unfold BlobStore.readBlobValue
  cases designated with
  | inline decoded =>
    rw [decoded]
    dsimp only
    rw [if_pos rfl,ok_bind]
    exact verified_ok rfl rfl
  | packed locator decoded eight size there =>
    obtain ⟨file,found,room,same⟩ := there.inside
    rw [decoded]
    dsimp only
    rw [if_neg (show ¬ modePacked = modeInline by decide),if_pos rfl,if_neg (not_not.mpr eight),
      BlobStore.readPackedBlobAt,found]
    dsimp only
    rw [packedOffset,readExact_ok room,ok_bind,same]
    exact verified_ok rfl rfl
  | dedicated objectId decoded there =>
    rw [decoded]
    dsimp only
    rw [if_neg (show ¬ modeDedicated = modeInline by decide),if_neg (show ¬ modeDedicated = modePacked by decide),
      if_pos rfl,BlobStore.readObject,
      fromUtf8_utf8]
    dsimp only
    rw [there]
    exact verified_ok rfl rfl

theorem reads_of_designated : Reads store bytes payload := by
  obtain ⟨descriptor,decoded,len,checksum,ranged⟩ := readRange_designated designated
  have inside : ∀ offset (length : Option Nat), offset < payload.length →
      offset + min (length.getD (payload.length - offset)) (payload.length - offset) ≤ payload.length := by
    intro offset length early
    have bound := Nat.min_le_right (length.getD (payload.length - offset)) (payload.length - offset)
    omega
  refine ⟨readBlobValue_designated designated,fun offset length => ?_,?_,fun offset length => ?_⟩
  · rw [BlobStore.readBlobValueRange,decoded]
    dsimp only
    rw [len]
    split
    · rename_i beyond
      rw [part_beyond beyond]
    · rename_i early
      rw [ranged _ _ (inside _ _ (Nat.lt_of_not_le early)),part_take]
  · rw [BlobStore.readBlobBytesWithCache,decoded]
    dsimp only [BlobStore.readBlobDescWithCache,Option.map_none,Option.bind_none,Option.getD_none,Option.isNone_none]
    rw [len]
    split
    · rename_i empty
      rw [List.length_eq_zero_iff.mp (Nat.le_zero.mp empty)]
    · rename_i some_
      have early := Nat.lt_of_not_le some_
      rw [Nat.sub_zero,Nat.min_self,ranged 0 payload.length (by omega),ok_bind,List.drop_zero,List.take_length]
      split
      · exact verified_ok len checksum
      · rfl
  · rw [BlobStore.readBlobBytesWithCache,decoded]
    dsimp only [BlobStore.readBlobDescWithCache,Option.map_some,Option.bind_some,Option.getD_some,Option.isNone_some]
    rw [len]
    split
    · rename_i beyond
      rw [part_beyond beyond]
    · rename_i early
      rw [ranged _ _ (inside _ _ (Nat.lt_of_not_le early)),ok_bind,part_take,if_neg (by simp)]

end

theorem readsBack_of_sound (sound : Sound store) : ReadsBack store where
  pending entry member := reads_of_designated (sound.pending entry member)
  rows entry member := by
    obtain ⟨-,bytes,there,designated⟩ := sound.rows entry member
    exact ⟨bytes,there,reads_of_designated designated⟩

end Read

section Grow

structure Grows (store next : BlobStore) : Prop where
  footer : next.footer = store.footer
  table : next.files.table = store.files.table
  path : next.path = store.path
  inMemory : next.inMemory = store.inMemory
  pending : next.pending = store.pending
  rows : next.rows = store.rows
  packed : ∀ file, store.files.packed = some file → ∃ more, next.files.packed = some (file ++ more)
  objects : ∀ objectId data, store.objects.lookup objectId = some data → next.objects.lookup objectId = some data

variable {store next final : BlobStore} {bytes payload : Bytes}

omit [Digests] in
theorem Grows.refl (store : BlobStore) : Grows store store :=
  ⟨rfl,rfl,rfl,rfl,rfl,rfl,fun file there => ⟨[],by rw [List.append_nil]; exact there⟩,fun _ _ there => there⟩

omit [Digests] in
theorem Grows.trans (first : Grows store next) (second : Grows next final) : Grows store final where
  footer := second.footer.trans first.footer
  table := second.table.trans first.table
  path := second.path.trans first.path
  inMemory := second.inMemory.trans first.inMemory
  pending := second.pending.trans first.pending
  rows := second.rows.trans first.rows
  packed := by
    intro file there
    obtain ⟨more,next_⟩ := first.packed file there
    obtain ⟨still,final_⟩ := second.packed _ next_
    exact ⟨more ++ still,by rw [final_,List.append_assoc]⟩
  objects objectId data there := second.objects objectId data (first.objects objectId data there)

omit [Digests] in
theorem InPacked.grow {packed : Option Bytes} {offset : Nat} (there : InPacked packed offset payload)
    {more : Option Bytes}
    (grows : ∀ file, packed = some file → ∃ rest, more = some (file ++ rest)) : InPacked more offset payload := by
  obtain ⟨file,found,room,same⟩ := there.inside
  obtain ⟨rest,longer⟩ := grows file found
  refine ⟨_,longer,?_,?_⟩
  · rw [List.length_append]
    omega
  · rw [List.drop_append_of_le_length (by omega),List.take_append_of_le_length (by rw [List.length_drop]; omega),same]

theorem Designated.grow (designated : Designated store bytes payload) (grows : Grows store next) :
    Designated next bytes payload := by
  cases designated with
  | inline decoded => exact .inline decoded
  | packed locator decoded eight size there => exact .packed locator decoded eight size (there.grow grows.packed)
  | dedicated objectId decoded there => exact .dedicated objectId decoded (grows.objects objectId payload there)

theorem Sound.grow (sound : Sound store) (grows : Grows store next) : Sound next where
  pending := by
    rw [grows.pending]
    exact fun entry member => (sound.pending entry member).grow grows
  rows := by
    rw [grows.rows,grows.footer]
    intro entry member
    obtain ⟨column,bytes,there,designated⟩ := sound.rows entry member
    refine ⟨column,bytes,?_,designated.grow grows⟩
    rw [BlobStore.cell,grows.footer,grows.table]
    exact there

omit [Digests] in
theorem grows_appendPacked (store : BlobStore) (value : Bytes) : Grows store (store.appendPacked value) where
  footer := rfl
  table := rfl
  path := rfl
  inMemory := rfl
  pending := rfl
  rows := rfl
  packed file there := ⟨value.take (fileLimit - store.packedLen),by rw [BlobStore.appendPacked,there]; rfl⟩
  objects _ _ there := there

omit [Digests] in
theorem grows_createObject {objectId : String} (absent : store.objects.lookup objectId = none) (value : Bytes) :
    Grows store (store.createObject objectId value) where
  footer := rfl
  table := rfl
  path := rfl
  inMemory := rfl
  pending := rfl
  rows := rfl
  packed file there := ⟨[],by rw [List.append_nil]; exact there⟩
  objects other data there := by
    have different : other ≠ objectId := by
      rintro rfl
      rw [absent] at there
      cases there
    rw [BlobStore.createObject,AList.lookup_insert_ne different]
    exact there

omit [Digests] in
theorem inPacked_append {value : Bytes} (room : store.packedRoom value = true) :
    InPacked (store.appendPacked value).files.packed store.packedLen value := by
  have fits : store.packedLen + value.length ≤ fileLimit := of_decide_eq_true room
  have whole : value.take (fileLimit - store.packedLen) = value := List.take_of_length_le (by omega)
  refine ⟨store.files.packed.getD [] ++ value,?_,?_,?_⟩
  · rw [BlobStore.appendPacked,whole]
  · rw [List.length_append,BlobStore.packedLen]
  · rw [BlobStore.packedLen,List.drop_left,List.take_length]

end Grow

section Encode

omit [Digests] in
theorem length_utf8_le (text : String) : (utf8 text).length ≤ 4 * text.length := by
  have chars : ∀ list : List Char, list.utf8Encode.size ≤ 4 * list.length := by
    intro list
    induction list with
    | nil => simp
    | cons char rest ih =>
      have four := char.utf8Size_le_four
      rw [List.utf8Encode_cons,ByteArray.size_append,List.length_cons]
      simp only [List.utf8Encode_singleton,List.size_toByteArray,String.length_utf8EncodeChar]
      omega
  have bound := chars text.toList
  rw [String.utf8Encode_toList,String.length_toList] at bound
  rw [utf8,Array.length_toList]
  exact bound

omit [Digests] in
theorem length_hex (bytes : Bytes) : (hex bytes).length = 2 * bytes.length := by
  rw [hex,String.length_ofList]
  induction bytes with
  | nil => rfl
  | cons byte rest ih =>
    rw [List.flatMap_cons,List.length_append,ih]
    simp only [List.length_cons,List.length_nil]
    omega

omit [Digests] in
theorem length_decimal {len : Nat} (small : len < 2^63) : (toString len).length ≤ 20 :=
  (Nat.length_repr_le_iff (by decide)).mpr (by omega)

theorem contentId_short {value : Bytes} (small : value.length < 2^63) : (utf8 (contentId value)).length < 2^32 := by
  have bytes := length_utf8_le (contentId value)
  have digits := length_decimal small
  have chars : (contentId value).length = 32 + 1 + 8 + 1 + (toString value.length).length + 5 := by
    simp only [contentId,hexNat,String.length_append,length_hex,Vector.length_toList,List.length_reverse,length_leBytes]
    rfl
  omega

omit [Digests] in
theorem batchId_short (batch : Nat) (seq : UInt64) (checksum : UInt32) {len : Nat} (small : len < 2^63) :
    (utf8 (batchId batch seq checksum len)).length < 2^32 := by
  have bytes := length_utf8_le (batchId batch seq checksum len)
  have digits := length_decimal small
  have chars : (batchId batch seq checksum len).length = 32 + 1 + 16 + 1 + 8 + 1 + (toString len).length + 5 := by
    simp only [batchId,hexNat,String.length_append,length_hex,List.length_reverse,length_leBytes]
    rfl
  omega

variable {store : BlobStore} {value : Bytes}

theorem designated_inline (short : value.length < 2^32) : Designated store (encodeInline value) value :=
  .inline (decode_encode modeInline _ (by omega) short)

theorem designated_packed (size : packedSize value) {offset : UInt64}
    (there : InPacked store.files.packed offset.toNat value) :
    Designated store (encodePacked value offset) value := by
  have short : value.length < 2^64 := Nat.lt_of_le_of_lt size.2 (by decide)
  refine .packed (leBytes 8 offset.toNat) (decode_encode modePacked _ short (by rw [length_leBytes]; decide))
    (length_leBytes _ _) size ?_
  rw [List.take_of_length_le (by rw [length_leBytes]),ofLe_leBytes_of_lt offset.toNat_lt]
  exact there

theorem designated_dedicated (small : value.length < 2^63) {objectId : String} (short : (utf8 objectId).length < 2^32)
    (there : store.objects.lookup objectId = some value) : Designated store (encodeDedicated value objectId) value :=
  .dedicated objectId (decode_encode modeDedicated _ (by omega) short) there

end Encode

section Write

variable {store : BlobStore} {value : Bytes}

/-- What a write of one value relies on: a descriptor has room for a payload that is kept in memory,
and an object of the name that the payload gets has that payload. -/
structure ValueSafe (store : BlobStore) (value : Bytes) : Prop where
  short : store.inMemory = true → value.length < 2^32
  same : store.inMemory = false → blobPackedThreshold < value.length →
    ∀ data, store.objects.lookup (contentId value) = some data → data = value

omit [Digests] in
theorem createObject_whole (small : value.length < 2^63) {objectId : String} :
    (store.createObject objectId value).objects.lookup objectId = some value := by
  rw [BlobStore.createObject,AList.lookup_insert,List.take_of_length_le (by unfold fileLimit; omega)]

theorem writeBlobValue_sound (small : value.length < 2^63) (safe : ValueSafe store value) :
    Grows store (store.writeBlobValue value).2 ∧
    ∀ bytes, (store.writeBlobValue value).1 = some bytes → Designated (store.writeBlobValue value).2 bytes value := by
  unfold BlobStore.writeBlobValue
  split
  · rename_i inline
    refine ⟨.refl store,fun bytes returned => ?_⟩
    cases returned
    refine designated_inline ?_
    rcases Bool.or_eq_true _ _ ▸ inline with memory | short
    · exact safe.short memory
    · exact Nat.lt_of_le_of_lt (of_decide_eq_true short) (by decide)
  · rename_i file
    have onDisk : store.inMemory = false := by
      cases memory : store.inMemory with
      | false => rfl
      | true => exact absurd (by rw [memory]; rfl) file
    split
    · rename_i packed
      refine ⟨grows_appendPacked store value,fun bytes returned => ?_⟩
      dsimp only at returned
      split at returned
      · rename_i room
        cases returned
        have fits : store.packedLen + value.length ≤ fileLimit := of_decide_eq_true room
        have long : blobInlineThreshold < value.length := by
          refine Nat.lt_of_not_le fun short => file ?_
          rw [decide_eq_true short,Bool.or_true]
        refine designated_packed ⟨long,packed⟩ ?_
        rw [UInt64.toNat_ofNat',Nat.mod_eq_of_lt (by unfold fileLimit at fits; omega)]
        exact inPacked_append room
      · cases returned
    · rename_i large
      dsimp only
      split
      · rename_i exists_
        refine ⟨.refl store,fun bytes returned => ?_⟩
        cases returned
        obtain ⟨data,there⟩ := Option.isSome_iff_exists.mp exists_
        have same := safe.same onDisk (Nat.lt_of_not_le large) data there
        exact designated_dedicated small (contentId_short small) (same ▸ there)
      · rename_i absent
        refine ⟨grows_createObject (Option.not_isSome_iff_eq_none.mp absent) value,fun bytes returned => ?_⟩
        dsimp only at returned
        split at returned
        · cases returned
          exact designated_dedicated small (contentId_short small) (createObject_whole small)
        · cases returned

end Write

section Batch

variable {start : BlobStore} {state : BatchState} {done values : List Bytes} {value : Bytes} {batch : Nat}

/-- What a batch relies on: the map of packed payloads has the offsets of the payloads of the batch,
if it has any, and payloads of one length and one checksum are the same. -/
structure BatchSafe (store : BlobStore) (values : List Bytes) : Prop where
  short : store.inMemory = true → ∀ value ∈ values, value.length < 2^32
  known : store.inMemory = false → ∀ value ∈ values, packedSize value → ∀ offset,
    store.packedDedup.lookup (store.packedKey value) = some offset →
    InPacked store.files.packed offset.toNat value
  alike : store.inMemory = false → ∀ first ∈ values, ∀ second ∈ values, packedSize first → packedSize second →
    first.length = second.length →
    crc32 first = crc32 second → first = second

def Written (done : List Bytes) (packed : Option Bytes) (len : Nat) (checksum : UInt32) (offset : UInt64) : Prop :=
  ∃ value ∈ done, packedSize value ∧ value.length = len ∧ crc32 value = checksum ∧ InPacked packed offset.toNat value

structure BatchSound (start : BlobStore) (done : List Bytes) (state : BatchState) : Prop where
  grows : Grows start state.store
  cursor : ∀ stop, state.cursor = some stop → stop = state.store.packedLen
  own : ∀ len checksum offset, state.packedDedup.lookup (len,checksum) = some offset →
    Written done state.store.files.packed len checksum offset
  shared : ∀ len checksum offset, state.store.packedDedup.lookup (start.path,len,checksum) = some offset →
    start.packedDedup.lookup (start.path,len,checksum) = some offset ∨
    Written done state.store.files.packed len checksum offset

theorem Written.later {packed more : Option Bytes} {len : Nat} {checksum : UInt32} {offset : UInt64}
    (written : Written done packed len checksum offset)
    (grows : ∀ file, packed = some file → ∃ rest, more = some (file ++ rest)) (value : Bytes) :
    Written (done ++ [value]) more len checksum offset := by
  obtain ⟨value,member,size,len_,checksum_,there⟩ := written
  exact ⟨value,List.mem_append_left _ member,size,len_,checksum_,there.grow grows⟩

theorem BatchSound.skip (sound : BatchSound start done state) {next : BlobStore} (grows : Grows state.store next)
    (packed : next.files.packed = state.store.files.packed) (dedup : next.packedDedup = state.store.packedDedup)
    (value : Bytes) :
    BatchSound start (done ++ [value]) {state with store := next} where
  grows := sound.grows.trans grows
  cursor stop there := by
    rw [BlobStore.packedLen,packed]
    exact sound.cursor stop there
  own len checksum offset there := (sound.own len checksum offset there).later grows.packed value
  shared len checksum offset there := by
    dsimp only at there
    rw [dedup] at there
    exact (sound.shared len checksum offset there).imp id fun written => written.later grows.packed value

theorem found_inPacked (safe : BatchSafe start values) (onDisk : start.inMemory = false)
    (sound : BatchSound start done state) (subset : ∀ value ∈ done, value ∈ values) (member : value ∈ values)
    (size : packedSize value) {offset : UInt64}
    (found : (state.packedDedup.lookup (value.length,crc32 value)).or
      (state.store.packedDedup.lookup (state.store.packedKey value)) = some offset) :
    InPacked state.store.files.packed offset.toNat value := by
  have same : Written done state.store.files.packed value.length (crc32 value) offset →
    InPacked state.store.files.packed offset.toNat value := by
    rintro ⟨other,before,otherSize,len,checksum,there⟩
    rw [safe.alike onDisk value member other (subset other before) size otherSize len.symm checksum.symm]
    exact there
  rcases Option.or_eq_some_iff.mp found with own | ⟨-,shared⟩
  · exact same (sound.own _ _ _ own)
  · rw [BlobStore.packedKey,sound.grows.path] at shared
    rcases sound.shared _ _ _ shared with before | written
    · exact (safe.known onDisk value member size offset before).grow sound.grows.packed
    · exact same written

theorem remember_lookup {store : BlobStore} {offset found : UInt64} {key : PackedKey}
    (there : (store.rememberPacked value offset).packedDedup.lookup key = some found) :
    (key = store.packedKey value ∧ found = offset) ∨ store.packedDedup.lookup key = some found := by
  unfold BlobStore.rememberPacked at there
  dsimp only at there
  by_cases same : key = store.packedKey value
  · rw [same,AList.lookup_insert] at there
    exact .inl ⟨same,(Option.some.inj there).symm⟩
  · rw [AList.lookup_insert_ne same] at there
    split at there
    · rw [AList.lookup_empty] at there
      cases there
    · exact .inr there

theorem writePacked_sound (safe : BatchSafe start values) (onDisk : start.inMemory = false)
    (sound : BatchSound start done state) (subset : ∀ value ∈ done, value ∈ values) (member : value ∈ values)
    (size : packedSize value) :
    Grows state.store (state.writePacked value).2.store ∧ ∀ bytes, (state.writePacked value).1 = some bytes →
      BatchSound start (done ++ [value]) (state.writePacked value).2 ∧
      Designated (state.writePacked value).2.store bytes value := by
  unfold BatchState.writePacked
  dsimp only
  split
  · rename_i offset found
    refine ⟨.refl _,fun bytes returned => ?_⟩
    cases returned
    exact ⟨sound.skip (.refl _) rfl rfl value,designated_packed size
      (found_inPacked safe onDisk sound subset member size found)⟩
  · have grows := grows_appendPacked state.store value
    split
    · rename_i room
      have fits : state.store.packedLen + value.length ≤ fileLimit := of_decide_eq_true room
      have start_ : state.cursor.getD state.store.packedLen = state.store.packedLen := by
        cases opened : state.cursor with
        | none => rfl
        | some stop => exact sound.cursor stop opened
      have exact_ : (UInt64.ofNat state.store.packedLen).toNat = state.store.packedLen := by
        rw [UInt64.toNat_ofNat',Nat.mod_eq_of_lt (by unfold fileLimit at fits; omega)]
      have there : InPacked (state.store.appendPacked value).files.packed (UInt64.ofNat state.store.packedLen).toNat
        value := by
        rw [exact_]
        exact inPacked_append room
      have here : Written (done ++ [value]) (state.store.appendPacked value).files.packed value.length (crc32 value)
          (UInt64.ofNat state.store.packedLen) := ⟨value,List.mem_append_right _ List.mem_cons_self,size,rfl,rfl,there⟩
      rw [start_]
      have all_ : Grows start (state.store.appendPacked value) := sound.grows.trans grows
      refine ⟨⟨grows.1,grows.2,grows.3,grows.4,grows.5,grows.6,grows.7,grows.8⟩,fun bytes returned => ?_⟩
      cases returned
      refine ⟨⟨⟨all_.1,all_.2,all_.3,all_.4,all_.5,all_.6,all_.7,all_.8⟩,?_,?_,?_⟩,designated_packed size there⟩
      · rintro stop same
        cases same
        have whole : value.take (fileLimit - state.store.packedLen) = value := List.take_of_length_le (by omega)
        change _ = ((state.store.appendPacked value).files.packed.getD []).length
        rw [BlobStore.appendPacked,whole,Option.getD_some,List.length_append,BlobStore.packedLen]
      · intro len checksum offset found
        dsimp only at found
        by_cases same : (len,checksum) = (value.length,crc32 value)
        · rw [same,AList.lookup_insert] at found
          cases same
          cases found
          exact here
        · rw [AList.lookup_insert_ne same] at found
          exact (sound.own len checksum offset found).later grows.packed value
      · intro len checksum offset found
        rcases remember_lookup found with ⟨same,rfl⟩ | before
        · obtain ⟨-,key⟩ := Prod.mk.inj same
          obtain ⟨rfl,rfl⟩ := Prod.mk.inj key
          exact .inr here
        · exact (sound.shared len checksum offset before).imp id fun written => written.later grows.packed value
    · exact ⟨grows,nofun⟩

omit [Digests] in
theorem freshObjectId_spec {store : BlobStore} {checksum : UInt32} {len fuel : Nat} {seq counter : UInt64}
    {objectId : String}
    (found : store.freshObjectId batch checksum len fuel seq = some (objectId,counter)) :
    store.objects.lookup objectId = none ∧ ∃ seq, objectId = batchId batch seq checksum len := by
  induction fuel generalizing seq with
  | zero => cases found
  | succ fuel ih =>
    unfold BlobStore.freshObjectId at found
    dsimp only at found
    split at found
    · exact ih found
    · rename_i absent
      obtain ⟨rfl,-⟩ := Prod.mk.inj (Option.some.inj found)
      exact ⟨Option.not_isSome_iff_eq_none.mp absent,seq,rfl⟩

theorem writeDedicated_sound (sound : BatchSound start done state) (small : value.length < 2^63) :
    Grows state.store (state.writeDedicated batch value).2.store ∧ ∀ bytes, (state.writeDedicated batch value).1 =
    some bytes →
      BatchSound start (done ++ [value]) (state.writeDedicated batch value).2 ∧
      Designated (state.writeDedicated batch value).2.store bytes value := by
  unfold BatchState.writeDedicated
  split
  · exact ⟨.refl _,nofun⟩
  · rename_i objectId counter found
    obtain ⟨absent,seq,rfl⟩ := freshObjectId_spec found
    have grows := grows_createObject absent value
    have counted : Grows state.store {state.store.createObject (batchId batch seq (crc32 value) value.length) value with
      objectCounter := counter} :=
      ⟨grows.1,grows.2,grows.3,grows.4,grows.5,grows.6,grows.7,grows.8⟩
    refine ⟨counted,fun bytes returned => ⟨sound.skip counted rfl rfl value,?_⟩⟩
    dsimp only at returned
    split at returned
    · cases returned
      exact designated_dedicated small (batchId_short batch seq _ small) (createObject_whole small)
    · cases returned

theorem write_sound (safe : BatchSafe start values) (onDisk : start.inMemory = false)
    (sound : BatchSound start done state) (subset : ∀ value ∈ done, value ∈ values) (member : value ∈ values)
    (small : value.length < 2^63) :
    Grows state.store (state.write batch value).2.store ∧ ∀ bytes, (state.write batch value).1 = some bytes →
      BatchSound start (done ++ [value]) (state.write batch value).2 ∧
      Designated (state.write batch value).2.store bytes value := by
  unfold BatchState.write
  split
  · rename_i short
    refine ⟨.refl _,fun bytes returned => ?_⟩
    cases returned
    exact ⟨sound.skip (.refl _) rfl rfl value,designated_inline (Nat.lt_of_le_of_lt short (by decide))⟩
  · rename_i long
    split
    · rename_i packed
      exact writePacked_sound safe onDisk sound subset member ⟨Nat.lt_of_not_le long,packed⟩
    · exact writeDedicated_sound sound small

theorem writeAll_sound (safe : BatchSafe start values) (onDisk : start.inMemory = false)
    (small : ∀ value ∈ values, value.length < 2^63) {rest : List Bytes} (sound : BatchSound start done state)
    (all_ : done ++ rest = values) :
    Grows state.store (state.writeAll batch rest).2.store ∧
    ∀ descriptors, (state.writeAll batch rest).1 = some descriptors →
      ∀ entry ∈ descriptors.zip rest, Designated (state.writeAll batch rest).2.store entry.1 entry.2 := by
  induction rest generalizing done state with
  | nil =>
    refine ⟨.refl _,fun descriptors returned => ?_⟩
    cases returned
    exact nofun
  | cons value rest ih =>
    have member : value ∈ values := by
      rw [← all_]
      exact List.mem_append_right _ List.mem_cons_self
    obtain ⟨grows,returns⟩ := @write_sound _ start state done values value batch safe onDisk sound
      (fun other before => all_ ▸ List.mem_append_left _ before) member (small value member)
    rw [BatchState.writeAll]
    cases written : state.write batch value with
    | mk descriptor next =>
      rw [written] at grows returns
      cases descriptor with
      | none => exact ⟨grows,nofun⟩
      | some bytes =>
        obtain ⟨sound,designated⟩ := returns bytes rfl
        obtain ⟨more,others⟩ := ih sound (by rw [← all_,List.append_assoc]; rfl)
        refine ⟨grows.trans more,fun descriptors returned => ?_⟩
        obtain ⟨tail,final,rfl⟩ := Option.map_eq_some_iff.mp returned
        intro entry inside
        rcases List.mem_cons.mp inside with rfl | later
        · exact designated.grow more
        · exact others tail final entry later

theorem writeBlobValues_sound (safe : BatchSafe start values) (small : ∀ value ∈ values, value.length < 2^63) :
    Grows start (start.writeBlobValues batch values).2 ∧
    ∀ entry ∈ ((start.writeBlobValues batch values).1.getD []).zip values,
    Designated (start.writeBlobValues batch values).2 entry.1 entry.2 := by
  unfold BlobStore.writeBlobValues
  split
  · rename_i memory
    refine ⟨.refl _,fun entry inside => ?_⟩
    have same : entry ∈ (values.map encodeInline).zip values := inside
    rw [List.zip_map_left,List.mem_map] at same
    obtain ⟨⟨first,second⟩,both,rfl⟩ := same
    obtain rfl : first = second := by
      obtain ⟨index,there⟩ := List.mem_iff_getElem?.mp both
      obtain ⟨one,two⟩ := List.getElem?_zip_eq_some.mp there
      exact Option.some.inj (one.symm.trans two)
    exact designated_inline (safe.short memory first (List.of_mem_zip both).1)
  · rename_i onDisk
    have empty : BatchSound start [] ⟨start,∅,none⟩ := by
      refine ⟨.refl _,nofun,fun len checksum offset there => ?_,fun _ _ _ there => .inl there⟩
      rw [AList.lookup_empty] at there
      cases there
    obtain ⟨grows,returns⟩ := @writeAll_sound _ start ⟨start,∅,none⟩ [] values batch safe (Bool.not_eq_true _ ▸ onDisk)
      small values empty rfl
    refine ⟨grows,fun entry inside => ?_⟩
    dsimp only at inside ⊢
    cases returned : (BatchState.writeAll batch ⟨start,∅,none⟩ values).1 with
    | none =>
      rw [returned] at inside
      cases inside
    | some descriptors =>
      rw [returned] at inside
      exact returns descriptors returned entry inside

end Batch

end ApexBase.Blob
