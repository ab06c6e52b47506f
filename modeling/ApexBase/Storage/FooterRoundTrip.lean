import ApexBase.Storage.Footer
import ApexBase.Storage.SchemaRoundTrip

/-! Which footers come back from their bytes, and which byte strings are read past their end. -/
namespace ApexBase.Storage.Footer
open Data Column Library Library.Wire Library.Wire.Reader Schema

section Directory

variable {bytes rest : Bytes}

private theorem read_group_room (room : rowGroupMetaSize ≤ bytes.length) :
    ∃ group, RowGroupMeta.read bytes = .ok (group,bytes.drop rowGroupMetaSize) := by
  have words {width : Nat} {bytes : Bytes} (enough : width ≤ bytes.length) :
      word Failure.panicked width bytes = .ok (ofLe (bytes.take width),bytes.drop width) := by
    simp only [word,Functor.map,StateT.map,take,if_pos enough]
    rfl
  unfold rowGroupMetaSize at room
  unfold RowGroupMeta.read rowGroupMetaSize
  rw [ifRoom,if_pos room]
  simp only [bind,StateT.bind]
  rw [words (by omega)]
  simp only [Except.bind]
  rw [words (by rw [List.length_drop]; omega)]
  simp only
  rw [words (by simp only [List.length_drop]; omega)]
  simp only
  rw [words (by simp only [List.length_drop]; omega)]
  simp only
  rw [words (by simp only [List.length_drop]; omega)]
  simp only
  rw [words (by simp only [List.length_drop]; omega)]
  simp only [List.drop_drop]
  exact ⟨_,rfl⟩

private theorem split_group {group : RowGroupMeta} (ok : RowGroupMeta.read bytes = .ok (group,rest)) :
    ∃ raw : Bytes, bytes = raw ++ rest ∧ raw.length = rowGroupMetaSize := by
  by_cases room : rowGroupMetaSize ≤ bytes.length
  · obtain ⟨other,read⟩ := read_group_room room
    rw [read] at ok
    cases ok
    exact ⟨bytes.take rowGroupMetaSize,(List.take_append_drop _ _).symm,List.length_take_of_le room⟩
  · rw [RowGroupMeta.read,ifRoom,if_neg room] at ok
    cases ok

private theorem split_groups {count : Nat} {groups : List RowGroupMeta}
    (ok : many RowGroupMeta.read count bytes = .ok (groups,rest)) :
    ∃ raw : Bytes, bytes = raw ++ rest ∧ raw.length = count * rowGroupMetaSize := by
  induction count generalizing bytes groups with
  | zero =>
    cases ok
    exact ⟨[],rfl,(Nat.zero_mul _).symm⟩
  | succ count ih =>
    obtain ⟨group,middle,first,ok⟩ := of_bind ok
    obtain ⟨others,after,more,ok⟩ := of_bind ok
    cases ok
    obtain ⟨raw,rfl,size⟩ := split_group first
    obtain ⟨tail,rfl,tailSize⟩ := ih more
    refine ⟨raw ++ tail,(List.append_assoc _ _ _).symm,?_⟩
    rw [List.length_append,size,tailSize,Nat.succ_mul,Nat.add_comm]

private theorem read_groups {count : Nat} {raw : Bytes} (size : raw.length = count * rowGroupMetaSize) (rest : Bytes) :
    ∃ groups, many RowGroupMeta.read count (raw ++ rest) = .ok (groups,rest) := by
  induction count generalizing raw with
  | zero =>
    rw [Nat.zero_mul] at size
    rw [List.eq_nil_of_length_eq_zero size]
    exact ⟨[],rfl⟩
  | succ count ih =>
    rw [Nat.succ_mul] at size
    have room : rowGroupMetaSize ≤ (raw ++ rest).length := by
      rw [List.length_append]
      omega
    obtain ⟨group,first⟩ := read_group_room room
    have dropped : (raw ++ rest).drop rowGroupMetaSize = raw.drop rowGroupMetaSize ++ rest :=
      List.drop_append_of_le_length (by omega)
    have fewer : (raw.drop rowGroupMetaSize).length = count * rowGroupMetaSize := by
      rw [List.length_drop]
      omega
    obtain ⟨others,more⟩ := ih fewer
    refine ⟨group :: others,?_⟩
    simp only [many,bind,StateT.bind]
    rw [first,dropped]
    simp only [Except.bind]
    rw [more]
    rfl

structure Listed (raw : Bytes) (count : Nat) (groups : Bytes) (schema : OnDemandSchema) : Prop where
  accepted : OnDemandSchema.fromBytes raw = .ok schema
  short : raw.length < 2^64
  few : count < 2^32
  whole : groups.length = count * rowGroupMetaSize

def directoryBytes (raw : Bytes) (count : Nat) (groups : Bytes) :
    Bytes := leBytes 8 raw.length ++ (raw ++ (leBytes 4 count ++ groups))

private theorem split_directory {schema : OnDemandSchema} {rowGroups : List RowGroupMeta}
    (ok : readDirectory bytes = .ok ((schema,rowGroups),rest)) :
    ∃ raw count groups, Listed raw count groups schema ∧ bytes = directoryBytes raw count groups ++ rest := by
  obtain ⟨schemaLen,afterLen,readLen,ok⟩ := of_bind ok
  obtain ⟨raw,afterRaw,readRaw,ok⟩ := of_bind ok
  obtain ⟨decoded,afterSchema,readSchema_,ok⟩ := of_bind ok
  obtain ⟨count,afterCount,readCount,ok⟩ := of_bind ok
  obtain ⟨groups,afterGroups,readGroups,ok⟩ := of_bind ok
  cases ok
  have accepted := of_lift readSchema_
  rw [accepted] at readSchema_
  cases readSchema_
  unfold ifRoom at readRaw readCount
  split at readRaw
  · split at readCount
    · obtain ⟨rows,rfl,size⟩ := split_groups readGroups
      have rawBytes := split_take readRaw
      have countBytes := split_word readCount
      have lenBytes := split_word readLen
      have rawLen := of_take readRaw
      refine ⟨raw,count,rows,⟨accepted,?_,of_word readCount,size⟩,?_⟩
      · rw [rawLen]
        exact of_word readLen
      · rw [lenBytes,rawBytes,countBytes,directoryBytes,rawLen]
        simp only [List.append_assoc]
    · cases readCount
  · cases readRaw

private theorem read_directory {raw groups : Bytes} {count : Nat} {schema : OnDemandSchema}
    {rowGroups : List RowGroupMeta} (listed : Listed raw count groups schema)
    (readGroups : many RowGroupMeta.read count (groups ++ rest) = .ok (rowGroups,rest)) :
    readDirectory (directoryBytes raw count groups ++ rest) = .ok ((schema,rowGroups),rest) := by
  have readLen := yields_word Failure.panicked 8 raw.length listed.short (raw ++ (leBytes 4 count ++ (groups ++ rest)))
  have readRaw : Yields (ifRoom raw.length (take .panicked raw.length) (fail (failed "V4 footer: schema overflow"))) raw
    (.ok raw) :=
    yields_ifRoom le_rfl (yields_take _ raw)
  have readCount : Yields (ifRoom 4 (word .panicked 4) (fail (failed "V4 footer: truncated row group directory")))
    (leBytes 4 count) (.ok count) :=
    yields_ifRoom (by simp) (yields_word _ 4 _ listed.few)
  simp only [directoryBytes,List.append_assoc,readDirectory,bind,StateT.bind]
  rw [readLen]
  simp only [Except.map,Except.bind]
  rw [readRaw (leBytes 4 count ++ (groups ++ rest))]
  simp only [Except.map]
  rw [listed.accepted]
  rw [show lift (Except.ok schema) (leBytes 4 count ++ (groups ++ rest)) = Except.ok (schema,_) from rfl]
  dsimp only
  rw [readCount (groups ++ rest)]
  simp only [Except.map]
  rw [readGroups]
  rfl

private theorem never_directory : Within .panicked 20 readDirectory := by
  refine within_word (by omega) fun schemaLen => Never.within ?_ _
  refine (never_ifRoom (within_take_last schemaLen) never_failed).bind fun raw => ?_
  refine (never_lift (fromBytes_safe raw)).bind fun schema => ?_
  refine (never_ifRoom (within_word_last 4) never_failed).bind fun count => ?_
  have group : Never .panicked RowGroupMeta.read := by
    intro bytes
    by_cases room : rowGroupMetaSize ≤ bytes.length
    · obtain ⟨group,read⟩ := read_group_room room
      rw [read]
      rintro ⟨⟩
    · rw [RowGroupMeta.read,ifRoom,if_neg room]
      rintro ⟨⟩
  have groups : Never .panicked (many RowGroupMeta.read count) := by
    induction count with
    | zero => exact never_pure []
    | succ count ih => exact group.bind fun first => ih.bind fun others => never_pure (first :: others)
  exact groups.bind fun rowGroups => never_pure _

end Directory

section Tables

variable {α : Type}

private theorem never_readZoneMap : Never .panicked readZoneMap := by
  refine never_ifRoom (within_word (by omega) fun colIdx => within_word (by omega) fun minBits => ?_) never_stop
  exact within_word (by omega) fun maxBits => within_byte (by omega) fun flags => (never_pure _).within _

private theorem never_readChunked : Never .panicked readChunked := by
  refine never_ifRoom (within_word (by omega) fun flatLen => within_word (by omega) fun flatOff => ?_) never_stop
  refine within_word (by omega) fun count => Never.within ?_ _
  split
  · exact never_pure _
  · refine never_ifRoom (fun bytes room => ?_) never_stop
    simp only [words,bind,StateT.bind,Functor.map,StateT.map,take,if_pos room]
    rintro ⟨⟩

private theorem never_readGroup {column : Parser (Option α)} (each : Never .panicked column) :
    Never .panicked (readGroup column) :=
  never_ifRoom (within_word le_rfl fun count => ((never_upTo each count).bind fun _ => never_pure _).within _)
    never_stop

private theorem never_guardedTable {magic : Bytes} {column : Parser (Option α)} (each : Never .panicked column) :
    Never .panicked (readTable magic guardedCount column) := by
  have count : Never .panicked guardedCount := never_ifRoom (within_word_last 4) (never_pure 0)
  exact never_tagged (count.bind fun groups => never_upTo (never_readGroup each) groups)

private theorem zoneMaps_panic {bytes : Bytes} :
    readTable zoneMapMagic (word .panicked 4) readZoneMap bytes = .error .panicked ↔
    ∃ tail : Bytes, bytes = zoneMapMagic ++ tail ∧ tail.length < 4 := by
  unfold readTable tagged
  constructor
  · intro failed
    split at failed
    · rename_i there
      refine ⟨bytes.drop 4,?_,?_⟩
      · have split := List.take_append_drop 4 bytes
        rw [show bytes.take 4 = zoneMapMagic from there.2] at split
        exact split.symm
      · by_contra enough
        have read := within_word (Nat.le_refl 4) (fun count =>
          (never_upTo (never_readGroup never_readZoneMap) count).within (4 - 4))
          (bytes.drop 4) (Nat.le_of_not_lt enough)
        exact read failed
    · cases failed
  · rintro ⟨tail,rfl,short⟩
    rw [List.take_left,List.drop_left,if_pos ⟨by rw [List.length_append]; omega,rfl⟩]
    have cut : ¬ 4 ≤ tail.length := by omega
    simp only [bind,StateT.bind,word,Functor.map,StateT.map,take,if_neg cut]
    rfl

private theorem readTables_panic {schema : OnDemandSchema} {rowGroups : List RowGroupMeta} {bytes : Bytes} :
    readTables schema rowGroups bytes = .error .panicked ↔ ∃ tail : Bytes, bytes = zoneMapMagic ++ tail ∧
    tail.length < 4 := by
  rw [← zoneMaps_panic]
  have others (zoneMaps : List (List RgColumnZoneMap)) : Never .panicked (do
      let colOffsets ← readTable rcixMagic guardedCount readOffset
      let chunkTables ← readTable chunkMagic guardedCount readChunked
      return (⟨schema,rowGroups,zoneMaps,colOffsets,chunkTables⟩ : V4Footer)) := by
    refine (never_guardedTable (never_fixed 4 _)).bind fun colOffsets => ?_
    exact (never_guardedTable never_readChunked).bind fun chunkTables => never_pure _
  unfold readTables
  simp only [bind,StateT.bind] at others ⊢
  cases read : readTable zoneMapMagic (word .panicked 4) readZoneMap bytes with
  | error failure =>
    exact ⟨fun failed => congrArg _ (Except.error.inj failed),fun failed => congrArg _ (Except.error.inj failed)⟩
  | ok pair =>
    simp only [Except.bind]
    exact ⟨fun failed => absurd failed (others pair.1 pair.2),nofun⟩

end Tables

/-! Bytes that are read past their end: the tag of the zone maps with less than a count behind it. -/

def ZoneMapCut (bytes : Bytes) : Prop :=
  ∃ raw count groups schema, Listed raw count groups schema ∧ ∃ tail : Bytes,
    bytes = directoryBytes raw count groups ++ (zoneMapMagic ++ tail) ∧ tail.length < 4

private theorem fromBytes_panic (bytes : Bytes) : V4Footer.fromBytes bytes = .error .panicked ↔ ZoneMapCut bytes := by
  have same : V4Footer.fromBytes bytes = .error .panicked ↔ readFooter bytes = .error .panicked := by
    rw [V4Footer.fromBytes]
    cases readFooter bytes with
    | error failure => simp [Except.map]
    | ok pair => simp [Except.map]
  rw [same,readFooter,ifRoom]
  constructor
  · intro failed
    split at failed
    · rename_i room
      have safe := never_directory bytes room
      simp only [bind,StateT.bind] at failed
      cases read : readDirectory bytes with
      | error failure =>
        rw [read] at failed safe
        exact absurd (congrArg _ (Except.error.inj failed)) safe
      | ok pair =>
        obtain ⟨⟨schema,rowGroups⟩,rest⟩ := pair
        rw [read] at failed
        obtain ⟨tail,rfl,short⟩ := readTables_panic.mp failed
        obtain ⟨raw,count,groups,listed,bytesAre⟩ := split_directory read
        exact ⟨raw,count,groups,schema,listed,tail,bytesAre,short⟩
    · cases failed
  · rintro ⟨raw,count,groups,schema,listed,tail,rfl,short⟩
    obtain ⟨rowGroups,readGroups⟩ := read_groups listed.whole (zoneMapMagic ++ tail)
    have read := read_directory listed readGroups
    have some_ : 4 ≤ raw.length := by
      have accepted := listed.accepted
      unfold OnDemandSchema.fromBytes readSchema ifRoom at accepted
      split at accepted
      · assumption
      · cases accepted
    have room : 20 ≤ (directoryBytes raw count groups ++ (zoneMapMagic ++ tail)).length := by
      simp only [directoryBytes,List.length_append,length_leBytes]
      change 20 ≤ _ + (4 + _)
      omega
    rw [if_pos room]
    simp only [bind,StateT.bind]
    rw [read]
    exact readTables_panic.mpr ⟨tail,rfl,short⟩

/-! Reading back what was written. -/

def TableFits {α : Type} (Q : α → Prop) (groups : List (List α)) : Prop :=
  groups.length < 2^32 ∧ ∀ columns ∈ groups, columns.length < 2^16 ∧ ∀ column ∈ columns, Q column

def ChunksFit (column : Option ChunkedColumn) : Prop := ∀ chunked, column = some chunked → chunked.chunks.length < 2^32

section Items

variable {α : Type}

private theorem yields_rowGroup (group : RowGroupMeta) : Yields RowGroupMeta.read group.toBytes (.ok group) := by
  refine yields_ifRoom (by simp [RowGroupMeta.toBytes,rowGroupMetaSize]) ?_
  refine yields_then (yields_word _ 8 _ group.offset.toNat_lt)
    (yields_then (yields_word _ 8 _ group.dataSize.toNat_lt) ?_)
  refine yields_then (yields_word _ 4 _ group.rowCount.toNat_lt)
    (yields_then (yields_word _ 8 _ group.minId.toNat_lt) ?_)
  refine yields_then (yields_word _ 8 _ group.maxId.toNat_lt)
    (yields_last (yields_word _ 4 _ group.deletionCount.toNat_lt) ?_)
  simp only [UInt64.ofNat_toNat,UInt32.ofNat_toNat]

private theorem zone_flags : ∀ a b c d : Bool,
    let flags := flag a 1 ||| flag b 2 ||| flag c 4 ||| flag d 8
    (flags &&& 1 != 0) = a ∧ (flags &&& 2 != 0) = b ∧ (flags &&& 4 != 0) = c ∧ (flags &&& 8 != 0) = d := by decide

private theorem yields_zoneMap (zone : RgColumnZoneMap) : Yields readZoneMap zone.toBytes (.ok (some zone)) := by
  refine yields_ifRoom (by simp [RgColumnZoneMap.toBytes]) ?_
  refine yields_then (yields_word _ 2 _ zone.colIdx.toNat_lt)
    (yields_then (yields_word _ 8 _ zone.minBits.toUInt64.toNat_lt) ?_)
  refine yields_then (yields_word _ 8 _ zone.maxBits.toUInt64.toNat_lt) (yields_last (yields_byte zone.flags) ?_)
  obtain ⟨hasNulls,isFloat,isStringPrefix,isStringTail⟩ :=
    zone_flags zone.hasNulls zone.isFloat zone.isStringPrefix zone.isStringTail
  simp only [RgColumnZoneMap.flags,hasNulls,isFloat,isStringPrefix,isStringTail,UInt16.ofNat_toNat,UInt64.ofNat_toNat]
  rfl

private theorem yields_offset (offset : UInt32) : Yields readOffset (offsetBytes offset) (.ok (some offset)) := by
  have read := yields_fixed 4 UInt32.ofNat offset.toNat_lt
  rwa [UInt32.ofNat_toNat] at read

private theorem yields_chunked {column : Option ChunkedColumn} (fits : ChunksFit column)
    (some_ : ∀ chunked, column = some chunked → chunked.chunks ≠ []) :
    Yields readChunked (chunkedBytes column) (.ok (some column)) := by
  cases column with
  | none =>
    refine yields_ifRoom (by simp [chunkedBytes]) (yields_then (yields_word _ 4 0 (by decide))
      (yields_then (yields_word _ 4 0 (by decide)) ?_))
    have read : Yields (word Failure.panicked 4) (leBytes 4 0) (.ok 0) := yields_word _ 4 0 (by decide)
    intro rest
    simp only [bind,StateT.bind]
    rw [read rest]
    rfl
  | some chunked =>
    have long : chunked.chunks.length ≠ 0 := fun empty => some_ chunked rfl (List.eq_nil_of_length_eq_zero empty)
    have words_ : (chunked.chunks.flatMap fun chunk => leBytes 4 chunk.len.toNat) =
      leWords 4 (chunked.chunks.map fun chunk => chunk.len.toNat) := by
      rw [leWords,List.flatMap_map]
    have small (value : Nat) (member : value ∈ chunked.chunks.map fun chunk => chunk.len.toNat) : value < 256^4 := by
      obtain ⟨chunk,_,rfl⟩ := List.mem_map.mp member
      exact chunk.len.toNat_lt
    refine yields_ifRoom (by simp [chunkedBytes]; omega) (yields_then (yields_word _ 4 _ chunked.flatLen.toNat_lt) ?_)
    refine yields_then (yields_word _ 4 _ chunked.flatOff.toNat_lt)
      (yields_then (yields_word _ 4 _ (fits chunked rfl)) ?_)
    have read := yields_words Failure.panicked small
    rw [List.length_map] at read
    rw [if_neg long,words_]
    refine yields_ifRoom (by simp) (yields_last read ?_)
    rw [List.map_map]
    have chunks : (chunked.chunks.map ((fun len => (⟨UInt32.ofNat len⟩ : ChunkRef)) ∘ fun chunk => chunk.len.toNat)) =
      chunked.chunks := by
      conv_rhs => rw [← List.map_id chunked.chunks]
      exact List.map_congr_left fun chunk _ => by simp
    rw [chunks,UInt32.ofNat_toNat,UInt32.ofNat_toNat]

private theorem yields_groups {column : Parser (Option α)} {encode : α → Bytes} {Q : α → Prop} {groups : List (List α)}
    (fits : TableFits Q groups)
    (each : ∀ columns ∈ groups, ∀ item ∈ columns, Yields column (encode item) (.ok (some item))) :
    Yields (upTo (readGroup column) groups.length) (groups.flatMap fun columns =>
      leBytes 2 columns.length ++ columns.flatMap encode) (.ok groups) := by
  have read := @yields_upTo _ _ _ (readGroup column) (fun columns => leBytes 2 columns.length ++ columns.flatMap encode)
    id groups (by
    intro columns member
    have items := @yields_upTo _ _ _ column encode id columns (each columns member)
    rw [List.map_id] at items
    refine yields_ifRoom (by simp) (yields_then (yields_word _ 2 _ (fits.2 columns member).1) (yields_last items rfl)))
  rwa [List.map_id] at read

end Items

/-! The end of a footer, which a reader of a table may come upon: its size, unless that was taken
for a table of no row groups, and the tag of the footer. -/

def ending (size : Nat) : Bytes := leBytes 8 size ++ magicV4Footer

def Ends (size : Nat) (bytes : Bytes) : Prop := bytes = ending size ∨ bytes = magicV4Footer

section Stages

variable {α : Type} {magic : Bytes} {count : Parser Nat} {column : Parser (Option α)} {encode : α → Bytes}
    {Q : α → Prop}
  {groups : List (List α)} {size : Nat}

private theorem ending_split (size : Nat) :
    ending size = leBytes 4 size ++ (leBytes 4 (size / 256^4) ++ magicV4Footer) := by
  rw [ending,show (8 : Nat) = 4 + 4 from rfl,leBytes_add,List.append_assoc]

structure Counts (magic : Bytes) (count : Parser Nat) : Prop where
  tag : magic.length = 4
  ending : magicV4Footer.take 4 ≠ magic
  yields : ∀ value, value < 2^32 → Yields count (leBytes 4 value) (.ok value)

private theorem counts_zoneMaps : Counts zoneMapMagic (word .panicked 4) :=
  ⟨rfl,by decide,fun value small => yields_word _ 4 value small⟩

private theorem counts_guarded : ∀ value, value < 2^32 → Yields guardedCount (leBytes 4 value) (.ok value) :=
  fun value small => yields_ifRoom (by simp) (yields_word _ 4 value small)

private theorem counts_rcix : Counts rcixMagic guardedCount := ⟨rfl,by decide,counts_guarded⟩

private theorem counts_chunks : Counts chunkMagic guardedCount := ⟨rfl,by decide,counts_guarded⟩

section
variable (counts : Counts magic count)
include counts

private theorem readTable_ending (large : size < 2^64) (taken : leBytes 4 size = magic) :
    readTable magic count column (ending size) = upTo (readGroup column) (size / 256^4) magicV4Footer := by
  have high : size / 256^4 < 2^32 := Nat.div_lt_of_lt_mul large
  have read := counts.yields _ high magicV4Footer
  rw [readTable,ending_split,taken,tagged_there]
  simp only [bind,StateT.bind]
  rw [read]
  rfl

private theorem readTable_other {bytes : Bytes} (other : bytes.take 4 ≠ magic) :
    readTable magic count column bytes = .ok ([],bytes) := by
  refine tagged_absent ?_
  rw [counts.tag]
  exact other

/-- A table of row groups is read; where there is none, the reader finds another tag or the end,
where the size may be taken for the tag and a count of zero. -/
private theorem table_stage (large : size < 2^64) (fits : TableFits Q groups)
    (each : ∀ columns ∈ groups, ∀ item ∈ columns, Yields column (encode item) (.ok (some item))) {next : Bytes → Bytes}
    {last : Bytes} (ends : Ends size last) (later : (∀ bytes, (next bytes).take 4 ≠ magic) ∨ next = id)
    (safe : groups = [] → next = id → leBytes 4 size = magic → size < 2^32) :
    ∃ final, Ends size final ∧ (final = last ∨ leBytes 4 size = magic) ∧
      readTable magic count column (tableBytes magic encode groups ++ next last) = .ok (groups,next final) := by
  by_cases some_ : groups = []
  · subst some_
    change ∃ final, Ends size final ∧ (final = last ∨ leBytes 4 size = magic) ∧
      readTable magic count column (next last) = .ok ([],next final)
    rcases later with other | rfl
    · exact ⟨last,ends,Or.inl rfl,readTable_other counts (other last)⟩
    · by_cases taken : leBytes 4 size = magic
      · rcases ends with rfl | rfl
        · have zero : size / 256^4 = 0 := Nat.div_eq_of_lt (safe rfl rfl taken)
          refine ⟨magicV4Footer,Or.inr rfl,Or.inr taken,?_⟩
          simp only [id]
          rw [readTable_ending counts large taken,zero]
          rfl
        · exact ⟨magicV4Footer,Or.inr rfl,Or.inl rfl,readTable_other counts counts.ending⟩
      · refine ⟨last,ends,Or.inl rfl,readTable_other counts ?_⟩
        rcases ends with rfl | rfl
        · simp only [id]
          rw [ending_split,List.take_left' (length_leBytes 4 size)]
          exact taken
        · exact counts.ending
  · have written : tableBytes magic encode groups =
        magic ++ (leBytes 4 groups.length ++ groups.flatMap fun columns => leBytes 2 columns.length ++
          columns.flatMap encode) := by
      rw [tableBytes,if_neg (by simpa using some_)]
    have counted := counts.yields _ fits.1 ((groups.flatMap fun columns => leBytes 2 columns.length ++
      columns.flatMap encode) ++ next last)
    have read := yields_groups fits each (next last)
    refine ⟨last,ends,Or.inl rfl,?_⟩
    rw [written,List.append_assoc,List.append_assoc,readTable,tagged_there]
    simp only [bind,StateT.bind]
    rw [counted]
    simp only [Except.map,Except.bind]
    rw [read]
    rfl

private theorem mistaken_stage (large : size < 2^64) (taken : leBytes 4 size = magic) (high : 2^32 ≤ size)
    (rest : Bytes) : readTable magic count column (ending size) ≠ .ok ([],rest) := by
  have some_ : size / 256^4 ≠ 0 := by
    have positive : 0 < size / 256^4 := Nat.div_pos high (by decide)
    omega
  obtain ⟨more,turns⟩ := Nat.exists_eq_succ_of_ne_zero some_
  intro ok
  rw [readTable_ending counts large taken,turns,upTo] at ok
  obtain ⟨found,middle,read,ok⟩ := of_bind ok
  cases found with
  | some columns =>
    obtain ⟨others,after,_,ok⟩ := of_bind ok
    cases of_pure ok
  | none =>
    unfold readGroup ifRoom at read
    rw [if_pos (by decide)] at read
    obtain ⟨columnCount,_,_,read⟩ := of_bind read
    obtain ⟨columns,_,_,read⟩ := of_bind read
    cases of_pure read

end

end Stages

section Results

variable {α : Type}

private theorem returns_table {magic : Bytes} {count : Parser Nat} {column : Parser (Option α)} {Q : α → Prop}
    (few : Returns (· < 2^32) count)
    (each : Returns (fun found => ∀ value ∈ found, Q value) column) :
    Returns (TableFits Q) (readTable magic count column) := by
  have group : Returns (fun found => ∀ columns ∈ found, columns.length < 2^16 ∧
    ∀ item ∈ columns, Q item) (readGroup column) := by
    refine returns_ifRoom ((returns_word _ 2).bind fun size small => ?_) returns_missing
    exact (returns_upTo each size).bind fun columns good => returns_found ⟨Nat.lt_of_le_of_lt good.1 small,good.2⟩
  refine returns_tagged (few.bind fun size small => ?_) ⟨Nat.two_pow_pos 32,nofun⟩
  intro bytes groups rest ok
  obtain ⟨length,good⟩ := returns_upTo group size bytes groups rest ok
  exact ⟨Nat.lt_of_le_of_lt length small,good⟩

private theorem returns_chunked : Returns (fun found => ∀ column ∈ found, ChunksFit column) readChunked := by
  refine returns_ifRoom (Returns.then fun flatLen => Returns.then fun flatOff => ?_) returns_missing
  refine (returns_word _ 4).bind fun count small => ?_
  split
  · exact returns_found nofun
  · refine returns_ifRoom ?_ returns_missing
    have sized : Returns (fun chunks : List Nat => chunks.length = count) (words Failure.panicked 4 count) := by
      intro bytes chunks rest ok
      simp only [words,Functor.map,StateT.map] at ok
      cases taken : take Failure.panicked (count * 4) bytes with
      | error failure =>
        rw [taken] at ok
        cases ok
      | ok pair =>
        rw [taken] at ok
        cases ok
        simp [ofLeWords]
    refine sized.bind fun chunks length => returns_found ?_
    intro chunked same
    cases same
    rw [List.length_map,length]
    exact small

private theorem returns_any_column (column : Parser (Option α)) : Returns (fun found => ∀ value ∈ found, True) column :=
  fun _ _ _ _ _ _ => trivial

private theorem returns_guarded : Returns (· < 2^32) guardedCount :=
  returns_ifRoom (returns_word _ 4) (returns_pure (by decide))

private theorem returns_groups {count : Nat} :
    Returns (fun groups => groups.length = count) (many RowGroupMeta.read count) := by
  induction count with
  | zero => exact returns_pure rfl
  | succ count ih =>
    exact Returns.then fun first => ih.bind fun others size => returns_pure (by rw [List.length_cons,size])

private theorem returns_directory : Returns (fun directory => directory.2.length < 2^32) readDirectory := by
  refine Returns.then fun schemaLen => Returns.then fun raw => Returns.then fun schema => ?_
  refine (returns_ifRoom (returns_word _ 4) (returns_fail _)).bind fun count small => ?_
  exact returns_groups.bind fun groups size => returns_pure (by rw [size]; exact small)

structure Filled (schema : OnDemandSchema) (rowGroups : List RowGroupMeta) (footer : V4Footer) : Prop where
  schema : footer.schema = schema
  rowGroups : footer.rowGroups = rowGroups
  zoneMaps : TableFits (fun _ => True) footer.zoneMaps
  colOffsets : TableFits (fun _ => True) footer.colOffsets
  chunkTables : TableFits ChunksFit footer.chunkTables

private theorem returns_tables (schema : OnDemandSchema) (rowGroups : List RowGroupMeta) :
    Returns (Filled schema rowGroups) (readTables schema rowGroups) := by
  refine (returns_table (returns_word _ 4) (returns_any_column _)).bind fun zoneMaps zonesFit => ?_
  refine (returns_table returns_guarded (returns_any_column _)).bind fun colOffsets offsetsFit => ?_
  refine (returns_table returns_guarded returns_chunked).bind fun chunkTables chunksFit => ?_
  exact returns_pure ⟨rfl,rfl,zonesFit,offsetsFit,chunksFit⟩

end Results

/-- What the format can tell apart: a schema that comes back, counts that fit, and a
size whose low half is not taken for the tag of a table that is not there. -/
structure V4Footer.Storable (footer : V4Footer) : Prop where
  wf : Wf footer.schema
  schema : Schema.Storable footer.schema
  rowGroups : footer.rowGroups.length < 2^32
  zoneMaps : TableFits (fun _ => True) footer.zoneMaps
  colOffsets : TableFits (fun _ => True) footer.colOffsets
  chunkTables : TableFits ChunksFit footer.chunkTables
  chunkTag : footer.chunkTables = [] → leBytes 4 footer.footerSize = chunkMagic → footer.footerSize < 2^32
  rcixTag : footer.colOffsets = [] → footer.chunkTables = [] → leBytes 4 footer.footerSize = rcixMagic →
    footer.footerSize < 2^32
  zoneMapTag : footer.zoneMaps = [] → footer.colOffsets = [] → footer.chunkTables = [] →
    leBytes 4 footer.footerSize = zoneMapMagic → footer.footerSize < 2^32

section RoundTrip

variable {footer : V4Footer}

private theorem size_eq : footer.toBytes.length = footer.footerSize := by
  rw [V4Footer.toBytes,List.length_append,List.length_append,length_leBytes,V4Footer.footerSize]
  rfl

private theorem toBytes_eq : footer.toBytes =
    directoryBytes footer.schema.toBytes footer.rowGroups.length (footer.rowGroups.flatMap RowGroupMeta.toBytes) ++
      (tableBytes zoneMapMagic RgColumnZoneMap.toBytes footer.zoneMaps ++
        (tableBytes rcixMagic offsetBytes footer.colOffsets ++
        (tableBytes chunkMagic chunkedBytes footer.chunkTables ++ ending footer.footerSize))) := by
  simp only [V4Footer.toBytes,V4Footer.body,V4Footer.tables,directoryBytes,ending,List.append_assoc]

private theorem take_table {α : Type} {magic : Bytes} {encode : α → Bytes} {groups : List (List α)}
    (tag : magic.length = 4) (some_ : groups ≠ [])
    (rest : Bytes) : (tableBytes magic encode groups ++ rest).take 4 = magic := by
  rw [tableBytes,if_neg (by simpa using some_),List.append_assoc,List.take_left' tag]

/-! The three tables one after another, each with what may follow it. -/

private theorem chunks_stage (large : footer.footerSize < 2^64) (fits : TableFits ChunksFit footer.chunkTables)
    (some_ : ∀ columns ∈ footer.chunkTables, ∀ chunked, some chunked ∈ columns → chunked.chunks ≠ []) {last : Bytes}
    (ends : Ends footer.footerSize last)
    (safe : footer.chunkTables = [] → leBytes 4 footer.footerSize = chunkMagic → footer.footerSize < 2^32) :
    ∃ final, readTable chunkMagic guardedCount readChunked (tableBytes chunkMagic chunkedBytes
      footer.chunkTables ++ last) =
      .ok (footer.chunkTables,final) := by
  obtain ⟨final,_,_,read⟩ := table_stage counts_chunks large fits (fun columns member item there =>
    yields_chunked ((fits.2 columns member).2 item there) fun chunked same =>
      some_ columns member chunked (same ▸ there))
    ends (Or.inr (rfl : (id : Bytes → Bytes) = id)) (fun none_ _ => safe none_)
  exact ⟨final,read⟩

private theorem offsets_stage (large : footer.footerSize < 2^64) (fits : TableFits (fun _ => True) footer.colOffsets)
    {last : Bytes} (ends : Ends footer.footerSize last)
    (safe : footer.colOffsets = [] → footer.chunkTables = [] → leBytes 4 footer.footerSize = rcixMagic →
      footer.footerSize < 2^32) :
    ∃ final, Ends footer.footerSize final ∧ (final = last ∨ leBytes 4 footer.footerSize = rcixMagic) ∧
      readTable rcixMagic guardedCount readOffset (tableBytes rcixMagic offsetBytes footer.colOffsets ++
        (tableBytes chunkMagic chunkedBytes footer.chunkTables ++ last)) =
      .ok (footer.colOffsets,tableBytes chunkMagic chunkedBytes footer.chunkTables ++ final) := by
  refine @table_stage _ rcixMagic guardedCount readOffset offsetBytes _ footer.colOffsets footer.footerSize counts_rcix
    large fits
    (fun _ _ offset _ => yields_offset offset) (tableBytes chunkMagic chunkedBytes footer.chunkTables ++ ·) last
      ends ?_ ?_
  · by_cases some_ : footer.chunkTables = []
    · refine Or.inr (funext fun bytes => ?_)
      rw [some_]
      rfl
    · refine Or.inl fun bytes => ?_
      rw [take_table rfl some_]
      decide
  · intro none_ alone
    refine safe none_ ?_
    by_contra some_
    have empty : (tableBytes chunkMagic chunkedBytes footer.chunkTables ++ []).take 4 =
      [] := by rw [congrFun alone []]; rfl
    rw [take_table rfl some_] at empty
    exact absurd empty (by decide)

private theorem zones_stage (large : footer.footerSize < 2^64) (fits : TableFits (fun _ => True) footer.zoneMaps)
    {last : Bytes} (ends : Ends footer.footerSize last)
    (safe : footer.zoneMaps = [] → footer.colOffsets = [] → footer.chunkTables = [] →
      leBytes 4 footer.footerSize = zoneMapMagic →
      footer.footerSize < 2^32) :
    ∃ final, Ends footer.footerSize final ∧ (final = last ∨ leBytes 4 footer.footerSize = zoneMapMagic) ∧
      readTable zoneMapMagic (word .panicked 4) readZoneMap (tableBytes zoneMapMagic RgColumnZoneMap.toBytes
        footer.zoneMaps ++
        (tableBytes rcixMagic offsetBytes footer.colOffsets ++
          (tableBytes chunkMagic chunkedBytes footer.chunkTables ++ last))) =
      .ok (footer.zoneMaps,tableBytes rcixMagic offsetBytes footer.colOffsets ++
        (tableBytes chunkMagic chunkedBytes footer.chunkTables ++ final)) := by
  refine @table_stage _ zoneMapMagic (word .panicked 4) readZoneMap RgColumnZoneMap.toBytes _ footer.zoneMaps
    footer.footerSize counts_zoneMaps
    large fits (fun _ _ zone _ => yields_zoneMap zone)
    (fun bytes => tableBytes rcixMagic offsetBytes footer.colOffsets ++
      (tableBytes chunkMagic chunkedBytes footer.chunkTables ++ bytes))
    last ends ?_ ?_
  · by_cases offsets : footer.colOffsets = []
    · by_cases chunks : footer.chunkTables = []
      · refine Or.inr (funext fun bytes => ?_)
        rw [offsets,chunks]
        rfl
      · refine Or.inl fun bytes => ?_
        rw [offsets]
        change (tableBytes chunkMagic chunkedBytes footer.chunkTables ++ bytes).take 4 ≠ _
        rw [take_table rfl chunks]
        decide
    · refine Or.inl fun bytes => ?_
      rw [take_table rfl offsets]
      decide
  · intro none_ alone
    have offsets : footer.colOffsets = [] := by
      by_contra some_
      have empty := congrArg (List.take 4) (congrFun alone [])
      rw [take_table rfl some_] at empty
      exact absurd empty (by decide)
    have chunks : footer.chunkTables = [] := by
      by_contra some_
      have empty := congrArg (List.take 4) (congrFun alone [])
      rw [offsets] at empty
      change (tableBytes chunkMagic chunkedBytes footer.chunkTables ++ []).take 4 = _ at empty
      rw [take_table rfl some_] at empty
      exact absurd empty (by decide)
    exact safe none_ offsets chunks

/-! The footer as a whole. -/

private theorem length_groups (rowGroups : List RowGroupMeta) :
    (rowGroups.flatMap RowGroupMeta.toBytes).length = rowGroups.length * rowGroupMetaSize := by
  induction rowGroups with
  | nil => rfl
  | cons group rest ih =>
    rw [List.flatMap_cons,List.length_append,ih,List.length_cons,Nat.succ_mul,Nat.add_comm]
    simp [RowGroupMeta.toBytes,rowGroupMetaSize]

private theorem schema_short : footer.schema.toBytes.length ≤ footer.toBytes.length := by
  rw [toBytes_eq]
  simp only [directoryBytes,List.length_append]
  omega

section
variable (short : footer.toBytes.length < 2^64)
include short

private theorem read_written (few : footer.rowGroups.length < 2^32)
    (accepted : OnDemandSchema.fromBytes footer.schema.toBytes = .ok footer.schema) :
    readDirectory footer.toBytes = .ok ((footer.schema,footer.rowGroups),
      tableBytes zoneMapMagic RgColumnZoneMap.toBytes footer.zoneMaps ++
      (tableBytes rcixMagic offsetBytes footer.colOffsets ++
        (tableBytes chunkMagic chunkedBytes footer.chunkTables ++ ending footer.footerSize))) := by
  have groups := yields_many footer.rowGroups fun group _ => yields_rowGroup group
  have listed : Listed footer.schema.toBytes footer.rowGroups.length (footer.rowGroups.flatMap RowGroupMeta.toBytes)
    footer.schema :=
    ⟨accepted,Nat.lt_of_le_of_lt schema_short short,few,length_groups footer.rowGroups⟩
  rw [List.map_id'] at groups
  rw [toBytes_eq]
  exact read_directory listed (groups _)

private theorem readFooter_toBytes
    (some_ : ∀ columns ∈ footer.chunkTables, ∀ chunked, some chunked ∈ columns → chunked.chunks ≠ [])
    (storable : footer.Storable) :
    ∃ left, readFooter footer.toBytes = .ok (footer,left) := by
  have large : footer.footerSize < 2^64 := size_eq ▸ short
  have room : 20 ≤ footer.toBytes.length := by
    rw [toBytes_eq]
    simp only [directoryBytes,ending,List.length_append,length_leBytes]
    change 20 ≤ _ + (_ + (_ + (_ + (8 + 8))))
    omega
  have directory := read_written short storable.rowGroups (comes_back_iff.mpr ⟨storable.wf,storable.schema⟩)
  obtain ⟨afterZones,zonesEnd,_,zones⟩ := zones_stage large storable.zoneMaps (Or.inl rfl) storable.zoneMapTag
  obtain ⟨afterOffsets,offsetsEnd,_,offsets⟩ := offsets_stage large storable.colOffsets zonesEnd storable.rcixTag
  obtain ⟨left,chunks⟩ := chunks_stage large storable.chunkTables some_ offsetsEnd storable.chunkTag
  refine ⟨left,?_⟩
  rw [readFooter,ifRoom,if_pos room]
  simp only [readTables,bind,StateT.bind]
  rw [directory]
  simp only [Except.bind]
  rw [zones]
  simp only
  rw [offsets]
  simp only
  rw [chunks]
  rfl

private theorem schema_of {rowGroups : List RowGroupMeta} {rest : Bytes}
    (ok : readDirectory footer.toBytes = .ok ((footer.schema,rowGroups),rest)) :
    OnDemandSchema.fromBytes footer.schema.toBytes = .ok footer.schema := by
  obtain ⟨raw,count,groups,listed,same⟩ := split_directory ok
  rw [toBytes_eq,directoryBytes,directoryBytes] at same
  simp only [List.append_assoc] at same
  obtain ⟨lengths,same⟩ := List.append_inj same (by rw [length_leBytes,length_leBytes])
  have sizes : footer.schema.toBytes.length = raw.length := by
    have read := congrArg ofLe lengths
    rwa [ofLe_leBytes_of_lt (Nat.lt_of_le_of_lt schema_short short),ofLe_leBytes_of_lt listed.short] at read
  obtain ⟨texts,_⟩ := List.append_inj same sizes
  rw [texts]
  exact listed.accepted

private theorem storable_of_read {left : Bytes} (ok : readFooter footer.toBytes = .ok (footer,left)) :
    footer.Storable := by
  have large : footer.footerSize < 2^64 := size_eq ▸ short
  unfold readFooter ifRoom at ok
  split at ok
  case isFalse => cases ok
  obtain ⟨⟨schema,rowGroups⟩,rest,directory,ok⟩ := of_bind ok
  have few := returns_directory _ _ _ directory
  obtain ⟨rfl,rfl,zonesFit,offsetsFit,chunksFit⟩ := returns_tables schema rowGroups _ _ _ ok
  have accepted := schema_of short directory
  obtain ⟨wf,storable⟩ := comes_back_iff.mp accepted
  rw [read_written short few accepted] at directory
  cases directory
  obtain ⟨zoneMaps,afterZones,readZones,ok⟩ := of_bind ok
  obtain ⟨colOffsets,afterOffsets,readOffsets,ok⟩ := of_bind ok
  obtain ⟨chunkTables,afterChunks,readChunks,ok⟩ := of_bind ok
  have same := congrArg Prod.fst (Except.ok.inj ok)
  have zones : zoneMaps = footer.zoneMaps := congrArg V4Footer.zoneMaps same
  have offsets : colOffsets = footer.colOffsets := congrArg V4Footer.colOffsets same
  have chunks : chunkTables = footer.chunkTables := congrArg V4Footer.chunkTables same
  subst zones offsets chunks
  -- a size that is one tag is no other, so the readers before that table leave it alone
  have apart {one other : Bytes} (is : leBytes 4 footer.footerSize = one) (differ : one ≠
    other) : leBytes 4 footer.footerSize ≠ other :=
    is ▸ differ
  have zonesLeave (other : leBytes 4 footer.footerSize ≠ zoneMapMagic) : afterZones =
    tableBytes rcixMagic offsetBytes footer.colOffsets ++
      (tableBytes chunkMagic chunkedBytes footer.chunkTables ++ ending footer.footerSize) := by
    obtain ⟨final,_,last,stage⟩ := zones_stage large zonesFit (Or.inl rfl) fun _ _ _ taken => absurd taken other
    rw [stage] at readZones
    cases readZones
    rw [last.resolve_right other]
  have offsetsLeave (notZones : leBytes 4 footer.footerSize ≠ zoneMapMagic) (other : leBytes 4 footer.footerSize ≠
    rcixMagic) :
      afterOffsets = tableBytes chunkMagic chunkedBytes footer.chunkTables ++ ending footer.footerSize := by
    obtain ⟨final,_,last,stage⟩ := offsets_stage large offsetsFit (Or.inl rfl) fun _ _ taken => absurd taken other
    rw [zonesLeave notZones,stage] at readOffsets
    cases readOffsets
    rw [last.resolve_right other]
  refine ⟨wf,storable,few,zonesFit,offsetsFit,chunksFit,fun none_ taken => ?_,fun noOffsets none_ taken => ?_,
    fun noZones noOffsets none_ taken => ?_⟩
  · by_contra high
    rw [offsetsLeave (apart taken (by decide)) (apart taken (by decide)),none_] at readChunks
    exact mistaken_stage counts_chunks large taken (Nat.le_of_not_lt high) _ readChunks
  · by_contra high
    rw [zonesLeave (apart taken (by decide)),noOffsets,none_] at readOffsets
    exact mistaken_stage counts_rcix large taken (Nat.le_of_not_lt high) _ readOffsets
  · by_contra high
    rw [noZones,noOffsets,none_] at readZones
    exact mistaken_stage counts_zoneMaps large taken (Nat.le_of_not_lt high) _ readZones

end

/-- A footer comes back from its bytes exactly when it is storable, and bytes are read
past their end exactly when they stop inside the count of the zone maps. -/
theorem footer_round_trip_iff (short : footer.toBytes.length < 2^64)
    (chunked : ∀ columns ∈ footer.chunkTables, ∀ column, some column ∈ columns → column.chunks ≠ []) :
    (V4Footer.fromBytes footer.toBytes = .ok footer ↔ footer.Storable) ∧
    ∀ bytes, V4Footer.fromBytes bytes ≠ .error .panicked ↔ ¬ ZoneMapCut bytes := by
  refine ⟨⟨fun ok => ?_,fun storable => ?_⟩,fun bytes => not_congr (fromBytes_panic bytes)⟩
  · obtain ⟨⟨read,left⟩,ok,rfl⟩ := map_eq_ok.mp ok
    exact storable_of_read short ok
  · obtain ⟨left,read⟩ := readFooter_toBytes short chunked storable
    rw [V4Footer.fromBytes,read]
    rfl

end RoundTrip

def oneGroup : V4Footer where
  schema := .new
  rowGroups := [⟨256,120,3,1,3,0⟩]
  zoneMaps := [[⟨0,-5,7,true,false,false,false⟩]]
  colOffsets := [[32]]
  chunkTables := [[some ⟨[⟨40⟩],64,32⟩,none]]

theorem oneGroup_comes_back : V4Footer.fromBytes oneGroup.toBytes = .ok oneGroup ∧
    V4Footer.fromBytes [4,0,0] ≠ .error .panicked := by
  have length : oneGroup.toBytes.length = 153 := rfl
  have short : oneGroup.toBytes.length < 2^64 := by rw [length]; decide
  have chunked : ∀ columns ∈ oneGroup.chunkTables, ∀ column, some column ∈ columns → column.chunks ≠ [] := by
    refine List.forall_mem_singleton.mpr fun column member => ?_
    cases member with
    | head => nofun
    | tail _ later => exact nomatch List.mem_singleton.mp later
  have noSchema : Schema.Storable .new := ⟨⟨indexed_new,by decide,nofun,nofun,by decide⟩,nofun,nofun,nofun⟩
  have storable : oneGroup.Storable := by
    refine ⟨wf_new,noSchema,by decide,?_,?_,?_,nofun,nofun,nofun⟩
    · exact ⟨by decide,List.forall_mem_singleton.mpr ⟨by decide,fun _ _ => trivial⟩⟩
    · exact ⟨by decide,List.forall_mem_singleton.mpr ⟨by decide,fun _ _ => trivial⟩⟩
    · refine ⟨by decide,List.forall_mem_singleton.mpr ⟨by decide,fun column member chunked same => ?_⟩⟩
      subst same
      cases member with
      | head => decide
      | tail _ later => exact nomatch List.mem_singleton.mp later
  obtain ⟨roundTrip,total⟩ := footer_round_trip_iff short chunked
  refine ⟨roundTrip.mpr storable,(total _).mpr ?_⟩
  rintro ⟨raw,count,groups,schema,_,tail,same,_⟩
  have lengths := congrArg List.length same
  simp only [directoryBytes,List.length_append,length_leBytes,List.length_cons,List.length_nil] at lengths
  omega

/-- An empty schema, no row groups and the tag of the zone maps. -/
theorem tag_at_end_is_read_past :
    ¬ ∀ bytes, V4Footer.fromBytes bytes ≠ .error .panicked := by
  intro total
  refine total [4,0,0,0,0,0,0,0,0,0,0,0,0,0,0,0,0x5A,0x4D,0x41,0x50] ?_
  rfl

end ApexBase.Storage.Footer
