import ApexBase.GroupFile.RoundTrip
import ApexBase.Library.Bits

/-! The deletion vectors of all row groups, joined for the readers that count rows from
the start of the base (`storage/on_demand/storage_core.rs`). Each vector is in whole
bytes, and they are joined as they are. -/
namespace ApexBase.GroupFile
open Library.Wire
open Storage.Schema (Failure)
open Storage.Footer (RowGroupMeta V4Footer)

/-- The rows of the base, deleted or not, if some row is deleted. -/
def physicalBaseWithDeletions (rowGroups : List RowGroupMeta) : Option Nat :=
  if ¬ rowGroups.any (fun group => group.deletionCount > 0) then none
  else
    let physical := (rowGroups.map (·.rowCount.toNat)).sum
    if physical > 0 then some physical else none

section Read
variable (codecs : Codecs) (file : Bytes) (footer : V4Footer)

/-- `none` for a body that is kept as it is. The cache of bodies holds what is computed
here. -/
def decompressedRgBody (rgOffset : UInt64) (compressFlag : UInt8) (raw : Bytes) : Except Failure (Option Bytes) :=
  if compressFlag = rgCompressNone then .ok none
  else
    let rgIdx := footer.rowGroups.findIdx? (fun rgMeta => rgMeta.offset == rgOffset)
    (readBody codecs compressFlag raw (chunkEntry (rgIdx.bind (footer.chunkTables[·]?)))).map some

/-- The deletion vector of one group; `none` ends the loop. -/
def groupDeletions (rgMeta : RowGroupMeta) : Except Failure (Option Bytes) :=
  let rgRows := rgMeta.rowCount.toNat
  let rgStart := rgMeta.offset.toNat
  let rgEnd := (rgMeta.offset + rgMeta.dataSize).toNat
  if rgEnd > file.length then .ok none
  else if rgEnd < rgStart + 32 then .error .panicked
  else do
    let rgBytes := (file.drop rgStart).take (rgEnd - rgStart)
    let raw := rgBytes.drop 32
    let decompressed ← decompressedRgBody codecs footer rgMeta.offset (rgBytes[28]?.getD rgCompressNone) raw
    let body := decompressed.getD raw
    let pos := rgIdSectionLen rgRows (rgBytes[30]?.getD rgIdsPlain)
    let delVecLen := (rgRows + 7) / 8
    if pos + delVecLen > body.length then return none else return some ((body.drop pos).take delVecLen)

def joinDeletions : List RowGroupMeta → Bytes → Except Failure Bytes
  | [],result => .ok result
  | rgMeta :: rest,result => do
    match ← groupDeletions codecs file footer rgMeta with
    | some deletions => joinDeletions rest (result ++ deletions)
    | none => return result

def persistedDeletionBitmap : Except Failure Bytes := joinDeletions codecs file footer footer.rowGroups []

end Read

def packed (flags : List Bool) : Bytes :=
  packBits (fun row => flags[row]?.getD false) flags.length (List.replicate ((flags.length + 7) / 8) 0)

structure StoredGroup (codecs : Codecs) (file : Bytes) (footer : V4Footer) (rgMeta : RowGroupMeta) (flags : List Bool) :
    Prop where
  counted : rgMeta.rowCount.toNat = flags.length
  addressed : rgMeta.offset.toNat + rgMeta.dataSize.toNat < 2^64
  bytes : ∃ header raw idSection columns, (file.drop rgMeta.offset.toNat).take rgMeta.dataSize.toNat = header ++ raw ∧
    header.length = 32 ∧ rgMeta.offset.toNat + rgMeta.dataSize.toNat ≤ file.length ∧
    raw.length + 32 = rgMeta.dataSize.toNat ∧
    idSection.length = rgIdSectionLen flags.length (header[30]?.getD rgIdsPlain) ∧
    (decompressedRgBody codecs footer rgMeta.offset (header[28]?.getD rgCompressNone) raw).map (·.getD raw) =
      .ok (idSection ++ (packed flags ++ columns))

/-- No row is deleted in a group that comes after one whose last byte is only partly used. -/
def noneBehindPartial : List (List Bool) → Bool
  | [] => true
  | flags :: rest => if flags.length % 8 = 0 then noneBehindPartial rest else rest.all fun later => !later.contains true

theorem length_packed (flags : List Bool) : (packed flags).length = (flags.length + 7) / 8 := by
  rw [packed,(packBits_spec _ _ _ (by rw [List.length_replicate]; omega)).1,List.length_replicate]

theorem getBit_packed (flags : List Bool) (row : Nat) : getBit (packed flags) row = flags[row]?.getD false := by
  obtain ⟨_,bits⟩ := packBits_spec (fun row => flags[row]?.getD false) flags.length
    (List.replicate ((flags.length + 7) / 8) 0) (by rw [List.length_replicate]; omega)
  rw [packed,bits,getBit_replicate,Bool.false_or]
  by_cases inside : row < flags.length
  · simp [inside]
  · simp [inside]

def joined (groups : List (List Bool)) : Bytes := groups.flatMap packed

def Aligned (groups : List (List Bool)) : Prop :=
  ∀ row < groups.flatten.length, getBit (joined groups) row = groups.flatten[row]?.getD false

theorem getBit_joined_cons (flags : List Bool) (rest : List (List Bool)) (row : Nat) :
    getBit (joined (flags :: rest)) row =
    if row < 8 * ((flags.length + 7) / 8) then flags[row]?.getD false
    else getBit (joined rest) (row - 8 * ((flags.length + 7) / 8)) := by
  rw [joined,List.flatMap_cons,getBit_append,length_packed,getBit_packed]
  rfl

theorem getBit_joined_false {groups : List (List Bool)} {count : Nat}
    (live : ∀ row < count, groups.flatten[row]?.getD false = false) {row : Nat}
    (early : row < count) : getBit (joined groups) row = false := by
  induction groups generalizing count row with
  | nil => simp [joined,getBit]
  | cons flags rest ih =>
    rw [getBit_joined_cons]
    split
    · have own := live row early
      rw [List.flatten_cons,List.getElem?_append] at own
      split at own
      · exact own
      · rw [List.getElem?_eq_none (by omega)]
        rfl
    · refine ih (?_ : ∀ other < count - flags.length, rest.flatten[other]?.getD false = false) (by omega)
      intro other before
      have own := live (flags.length + other) (by omega)
      rwa [List.flatten_cons,List.getElem?_append_right (by omega),Nat.add_sub_cancel_left] at own

theorem aligned_iff (groups : List (List Bool)) : Aligned groups ↔ noneBehindPartial groups = true := by
  induction groups with
  | nil => simp [Aligned,noneBehindPartial]
  | cons flags rest ih =>
    unfold noneBehindPartial
    split
    · -- Whole bytes: the other groups are where they were.
      rename_i whole
      rw [← ih]
      have bytes : 8 * ((flags.length + 7) / 8) = flags.length := by omega
      constructor
      · intro aligned row inside
        have own := aligned (flags.length + row) (by rw [List.flatten_cons,List.length_append]; omega)
        rwa [getBit_joined_cons,bytes,if_neg (by omega),Nat.add_sub_cancel_left,List.flatten_cons,
          List.getElem?_append_right (by omega),Nat.add_sub_cancel_left] at own
      · intro aligned row inside
        rw [getBit_joined_cons,bytes,List.flatten_cons,List.getElem?_append]
        split
        · rfl
        · rename_i late
          refine aligned _ ?_
          rw [List.flatten_cons,List.length_append] at inside
          omega
    · rename_i broken
      have shift : flags.length < 8 * ((flags.length + 7) / 8) := by omega
      have live : (rest.all fun later => !later.contains true) = true ↔ ∀ row : Nat, rest.flatten[row]?.getD false =
        false := by
        simp only [List.all_eq_true,Bool.not_eq_true',List.contains_eq_mem,decide_eq_false_iff_not]
        constructor
        · intro none_ row
          cases at_ : rest.flatten[row]? with
          | none => rfl
          | some flag =>
            obtain ⟨later,member,inside⟩ := List.mem_flatten.mp (List.mem_of_getElem? at_)
            cases flag with
            | false => rfl
            | true => exact absurd inside (none_ later member)
        · intro none_ later member deleted
          obtain ⟨row,at_⟩ := List.mem_iff_getElem?.mp (List.mem_flatten.mpr ⟨later,member,deleted⟩)
          have flag := none_ row
          rw [at_] at flag
          cases flag
      rw [live]
      constructor
      · intro aligned row
        -- By induction on the row: its bit is padding or the flag of an earlier row.
        induction row using Nat.strongRecOn with
        | ind row earlier =>
          rcases Nat.lt_or_ge row rest.flatten.length with inside | outside
          · have own := aligned (flags.length + row) (by rw [List.flatten_cons,List.length_append]; omega)
            rw [List.flatten_cons,List.getElem?_append_right (by omega),Nat.add_sub_cancel_left] at own
            rw [← own,getBit_joined_cons]
            split
            · rw [List.getElem?_eq_none (by omega)]
              rfl
            · exact getBit_joined_false (fun other before => earlier other before) (by omega)
          · rw [List.getElem?_eq_none outside]
            rfl
      · intro none_ row inside
        rw [getBit_joined_cons,List.flatten_cons,List.getElem?_append]
        split
        · split
          · rfl
          · rw [List.getElem?_eq_none (by omega),none_]
            rfl
        · rw [if_neg (by omega),none_]
          exact getBit_joined_false (fun other _ => none_ other) (Nat.lt_succ_self _)

section
variable {codecs : Codecs} {file : Bytes} {footer : V4Footer} {rgMeta : RowGroupMeta} {flags : List Bool}

theorem groupDeletions_stored (stored : StoredGroup codecs file footer rgMeta flags) :
    groupDeletions codecs file footer rgMeta = .ok (some (packed flags)) := by
  obtain ⟨header,raw,idSection,columns,shape,sized,inside,rest,ids,body⟩ := stored.bytes
  have rgEnd : (rgMeta.offset + rgMeta.dataSize).toNat = rgMeta.offset.toNat + rgMeta.dataSize.toNat := by
    rw [UInt64.toNat_add,Nat.mod_eq_of_lt stored.addressed]
  have field : ∀ i < 32, (header ++ raw)[i]? = header[i]? := fun i early => List.getElem?_append_left (by omega)
  have contents : (header ++ raw).drop 32 = raw := List.drop_left' sized
  unfold groupDeletions
  dsimp only
  rw [rgEnd,if_neg (by omega),if_neg (by omega),Nat.add_sub_cancel_left,shape,contents,field 28 (by decide),
    field 30 (by decide),stored.counted]
  cases read : decompressedRgBody codecs footer rgMeta.offset (header[28]?.getD rgCompressNone) raw with
  | error failure =>
    rw [read] at body
    cases body
  | ok decompressed =>
    rw [read] at body
    have flat : decompressed.getD raw = idSection ++ (packed flags ++ columns) := Except.ok.inj body
    have window : ((idSection ++ (packed flags ++ columns)).drop idSection.length).take ((flags.length + 7) / 8) =
      packed flags := by
      rw [List.drop_left,← length_packed,List.take_left]
    have room : ¬ idSection.length + (flags.length + 7) / 8 > (idSection ++ (packed flags ++ columns)).length := by
      rw [List.length_append,List.length_append,length_packed]
      omega
    change (if _ then _ else _) = _
    rw [flat,← ids,if_neg room,window]
    rfl

section
variable {rowGroups : List RowGroupMeta} {groups : List (List Bool)}
variable (stored : List.Forall₂ (StoredGroup codecs file footer) rowGroups groups)
include stored

theorem joinDeletions_stored (result : Bytes) :
    joinDeletions codecs file footer rowGroups result = .ok (result ++ joined groups) := by
  induction stored generalizing result with
  | nil => simp [joinDeletions,joined]
  | cons first rest ih =>
    rw [joinDeletions,groupDeletions_stored first]
    change joinDeletions codecs file footer _ _ = _
    rw [ih,joined,joined,List.flatMap_cons,List.append_assoc]

theorem sum_rowCounts :
    (rowGroups.map (·.rowCount.toNat)).sum = groups.flatten.length := by
  induction stored with
  | nil => rfl
  | cons first rest ih => rw [List.map_cons,List.sum_cons,ih,first.counted,List.flatten_cons,List.length_append]

end

theorem length_joined (groups : List (List Bool)) : groups.flatten.length ≤ 8 * (joined groups).length := by
  induction groups with
  | nil => exact Nat.zero_le _
  | cons flags rest ih =>
    rw [joined] at ih ⊢
    rw [List.flatten_cons,List.length_append,List.flatMap_cons,List.length_append,length_packed]
    omega

/-- The joined vectors cover the rows of the base, and every row finds its own flag in
them if and only if no row is deleted behind a group that ends inside a byte. -/
theorem physical_bitmap_aligned_iff {groups : List (List Bool)}
    (stored : List.Forall₂ (StoredGroup codecs file footer) footer.rowGroups groups) :
    ∃ bitmap, persistedDeletionBitmap codecs file footer = .ok bitmap ∧
      (∀ count, physicalBaseWithDeletions footer.rowGroups = some count → count = groups.flatten.length) ∧
      groups.flatten.length ≤ 8 * bitmap.length ∧
      ((∀ row < groups.flatten.length, getBit bitmap row = groups.flatten[row]?.getD false) ↔
        noneBehindPartial groups = true) := by
  refine ⟨joined groups,joinDeletions_stored stored [],?_,length_joined groups,aligned_iff groups⟩
  intro count counted
  unfold physicalBaseWithDeletions at counted
  split at counted
  · cases counted
  · dsimp only at counted
    split at counted
    · rw [← Option.some.inj counted,sum_rowCounts stored]
    · cases counted

end

def bareGroup (flags : List Bool) : Bytes :=
  List.replicate 28 0 ++ ([rgCompressNone,rgEncodingVersion,rgIdsImplicitContiguous,0] ++ packed flags)

def bareMeta (offset : Nat) (flags : List Bool) : RowGroupMeta :=
  ⟨UInt64.ofNat offset,UInt64.ofNat (bareGroup flags).length,UInt32.ofNat flags.length,0,0,
    UInt32.ofNat (flags.count true)⟩

def bareFooter (groups : List RowGroupMeta) : V4Footer := ⟨.new,groups,[],[],[]⟩

private theorem bare_stored (codecs : Codecs) (footer : V4Footer) (front back : Bytes) (flags : List Bool)
    (short : (front ++ (bareGroup flags ++ back)).length < 2^32) (few : flags.length < 2^32) :
    StoredGroup codecs (front ++ (bareGroup flags ++ back)) footer (bareMeta front.length flags) flags := by
  have total : front.length + (bareGroup flags).length + back.length < 2^32 := by
    rw [List.length_append,List.length_append] at short
    omega
  have offset : (UInt64.ofNat front.length).toNat = front.length :=
    UInt64.toNat_ofNat_of_lt' (by simp only [UInt64.size]; omega)
  have size : (UInt64.ofNat (bareGroup flags).length).toNat = (bareGroup flags).length :=
    UInt64.toNat_ofNat_of_lt' (by simp only [UInt64.size]; omega)
  have shape : bareGroup flags = (List.replicate 28 0 ++ [rgCompressNone,rgEncodingVersion,rgIdsImplicitContiguous,
    0]) ++ packed flags := by
    rw [bareGroup,List.append_assoc]
  refine ⟨UInt32.toNat_ofNat_of_lt' few,?_,List.replicate 28 0 ++ [rgCompressNone,rgEncodingVersion,
    rgIdsImplicitContiguous,0],
    packed flags,[],[],?_,rfl,?_,?_,rfl,?_⟩
  · rw [bareMeta,offset,size]
    omega
  · rw [bareMeta,offset,size,List.drop_left,List.take_left,shape]
  · rw [bareMeta,offset,size,List.length_append,List.length_append]
    omega
  · rw [bareMeta,size,shape,List.length_append,Nat.add_comm]
    rfl
  · rw [List.nil_append,List.append_nil]
    rfl

/-- A group of eight rows and one of one row. -/
theorem eight_rows_then_one_aligned :
    let groups : List (List Bool) := [List.replicate 8 false,[true]]
    ∃ bitmap, persistedDeletionBitmap storing (bareGroup (List.replicate 8 false) ++ (bareGroup [true] ++ []))
        (bareFooter [bareMeta 0 (List.replicate 8 false),bareMeta 33 [true]]) = .ok bitmap ∧
      ∀ row < groups.flatten.length, getBit bitmap row = groups.flatten[row]?.getD false := by
  have first := bare_stored storing (bareFooter [bareMeta 0 (List.replicate 8 false),bareMeta 33 [true]])
    [] (bareGroup [true] ++ []) (List.replicate 8 false) (by decide) (by decide)
  have second := bare_stored storing (bareFooter [bareMeta 0 (List.replicate 8 false),bareMeta 33 [true]])
    (bareGroup (List.replicate 8 false)) [] [true] (by decide) (by decide)
  obtain ⟨bitmap,read,_,_,aligned⟩ := physical_bitmap_aligned_iff
    (.cons first (.cons second .nil))
  exact ⟨bitmap,read,aligned.mpr (by decide)⟩

/-- A deleted row behind a group of one row: its bit is read in the padding. -/
theorem row_behind_one_row_looks_live :
    (persistedDeletionBitmap storing (bareGroup [false] ++ (bareGroup [true] ++ []))
      (bareFooter [bareMeta 0 [false],bareMeta 33 [true]])).toOption =
      some [0,1] ∧ getBit [0,1] 1 = false ∧ [[false],[true]].flatten[1]? = some true ∧
    List.Forall₂ (StoredGroup storing (bareGroup [false] ++ (bareGroup [true] ++ []))
      (bareFooter [bareMeta 0 [false],bareMeta 33 [true]]))
      [bareMeta 0 [false],bareMeta 33 [true]] [[false],[true]] := by
  refine ⟨by decide,by decide,rfl,?_⟩
  exact .cons (bare_stored storing _ [] _ _ (by decide) (by decide))
    (.cons (bare_stored storing _ _ _ _ (by decide) (by decide)) .nil)

end ApexBase.GroupFile
