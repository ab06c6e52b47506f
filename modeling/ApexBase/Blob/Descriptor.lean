import ApexBase.Library.Crc
import ApexBase.Library.Patch

/-! Blob descriptors, `storage/on_demand/blob.rs`. A descriptor stands in a column for a payload
that may lie in a file beside the table. -/
namespace ApexBase.Blob
open Library Library.Wire

def descMagic : Bytes := [0x41,0x42,0x4C,0x42]

def descVersion : UInt8 := 1

def modeInline : UInt8 := 0

def modePacked : UInt8 := 1

def modeDedicated : UInt8 := 2

def modeExternal : UInt8 := 3

structure BlobDescriptor where
  mode : UInt8
  len : Nat
  checksum : UInt32
  locator : Bytes
  deriving DecidableEq

/-- The length of the locator is kept as a `u32`. -/
def encodeBlobDescriptor (mode : UInt8) (len : Nat) (checksum : UInt32) (locator : Bytes) : Bytes :=
  descMagic ++ (descVersion :: mode :: (leBytes 8 len ++ (leBytes 4 checksum.toNat ++
    (leBytes 4 locator.length ++ locator))))

def decodeBlobDescriptor (bytes : Bytes) : Option BlobDescriptor :=
  if bytes.length < 22 || bytes.take 4 != descMagic || bytes[4]? != some descVersion then none
  else
    let locatorLen := ofLe ((bytes.drop 18).take 4)
    if 22 + locatorLen > bytes.length then none
    else some ⟨bytes[5]?.getD 0,ofLe ((bytes.drop 6).take 8),UInt32.ofNat (ofLe ((bytes.drop 14).take 4)),
      (bytes.drop 22).take locatorLen⟩

theorem decode_encode (mode : UInt8) {len : Nat} (checksum : UInt32) {locator : Bytes} (lens : len < 2^64)
    (short : locator.length < 2^32) :
    decodeBlobDescriptor (encodeBlobDescriptor mode len checksum locator) = some ⟨mode,len,checksum,locator⟩ := by
  have size : (encodeBlobDescriptor mode len checksum locator).length = 22 + locator.length := by
    simp only [encodeBlobDescriptor,descMagic,List.length_append,List.length_cons,length_leBytes,List.length_nil]
    omega
  have at18 : ((encodeBlobDescriptor mode len checksum locator).drop 18).take 4 = leBytes 4 locator.length := by
    have front : (encodeBlobDescriptor mode len checksum locator) =
        (descMagic ++ (descVersion :: mode :: (leBytes 8 len ++ leBytes 4 checksum.toNat))) ++
        (leBytes 4 locator.length ++ locator) := by
      simp [encodeBlobDescriptor]
    rw [front,List.drop_left' (by simp [descMagic,length_leBytes]),List.take_left' (length_leBytes _ _)]
  have at14 : ((encodeBlobDescriptor mode len checksum locator).drop 14).take 4 = leBytes 4 checksum.toNat := by
    have front : (encodeBlobDescriptor mode len checksum locator) =
        (descMagic ++ (descVersion :: mode :: leBytes 8 len)) ++ (leBytes 4 checksum.toNat ++
          (leBytes 4 locator.length ++ locator)) := by
      simp [encodeBlobDescriptor]
    rw [front,List.drop_left' (by simp [descMagic,length_leBytes]),List.take_left' (length_leBytes _ _)]
  have at22 : (encodeBlobDescriptor mode len checksum locator).drop 22 = locator := by
    have front : (encodeBlobDescriptor mode len checksum locator) =
        (descMagic ++ (descVersion :: mode :: (leBytes 8 len ++ (leBytes 4 checksum.toNat ++
          leBytes 4 locator.length)))) ++ locator := by
      simp [encodeBlobDescriptor]
    rw [front,List.drop_left' (by simp [descMagic,length_leBytes])]
  have at6 : ((encodeBlobDescriptor mode len checksum locator).drop 6).take 8 = leBytes 8 len :=
    List.take_left' (length_leBytes _ _)
  have refused : ¬ ((encodeBlobDescriptor mode len checksum locator).length < 22 ||
      (encodeBlobDescriptor mode len checksum locator).take 4 != descMagic ||
      (encodeBlobDescriptor mode len checksum locator)[4]? != some descVersion) = true := by
    rw [size]
    simp [encodeBlobDescriptor,descMagic]
  unfold decodeBlobDescriptor
  rw [if_neg refused]
  dsimp only
  rw [at18,ofLe_leBytes_of_lt (by omega),size,if_neg (Nat.lt_irrefl _),at22,at14,at6,
    ofLe_leBytes_of_lt (show len < 256^8 by omega),
    ofLe_leBytes_of_lt (show checksum.toNat < 256^4 from checksum.toNat_lt),List.take_length]
  simp [encodeBlobDescriptor,descMagic]

def packedOffset (descriptor : BlobDescriptor) : Nat := ofLe (descriptor.locator.take 8)

def isPacked (descriptor : BlobDescriptor) : Bool := descriptor.mode == modePacked && descriptor.locator.length == 8

def packedCell (cell : Bytes) : Option BlobDescriptor := (decodeBlobDescriptor cell).filter isPacked

def relocate (offset : Nat) (cell : Bytes) : Bytes := Patch.overwrite cell (22,leBytes 8 offset)

section Packed

variable {cell : Bytes} {descriptor : BlobDescriptor}

theorem packedCell_spec (packed : packedCell cell = some descriptor) :
    decodeBlobDescriptor cell = some descriptor ∧ descriptor.mode = modePacked ∧
    descriptor.locator = (cell.drop 22).take 8 ∧ 30 ≤ cell.length := by
  obtain ⟨decoded,passed⟩ := Option.filter_eq_some_iff.mp packed
  rw [isPacked,Bool.and_eq_true,beq_iff_eq,beq_iff_eq] at passed
  obtain ⟨mode,length⟩ := passed
  refine ⟨decoded,mode,?_⟩
  unfold decodeBlobDescriptor at decoded
  split at decoded
  · cases decoded
  · dsimp only at decoded
    split at decoded
    · cases decoded
    · rename_i room
      cases decoded
      dsimp only at length ⊢
      rw [List.length_take,List.length_drop] at length
      have eight : ofLe ((cell.drop 18).take 4) = 8 := by omega
      rw [eight]
      exact ⟨rfl,by omega⟩

theorem length_relocate (room : 30 ≤ cell.length) (offset : Nat) : (relocate offset cell).length = cell.length :=
  Patch.length_overwrite (show 22 + (leBytes 8 offset).length ≤ cell.length by rw [length_leBytes]; omega)

/-- Its own offset is in the cell already. -/
theorem relocate_same (packed : packedCell cell = some descriptor) :
    relocate (packedOffset descriptor) cell = cell := by
  obtain ⟨-, -, locator, room⟩ := packedCell_spec packed
  have eight : ((cell.drop 22).take 8).length = 8 := by
    rw [List.length_take, List.length_drop]
    omega
  have own : leBytes 8 (packedOffset descriptor) = (cell.drop 22).take 8 := by
    rw [packedOffset, locator, List.take_of_length_le (Nat.le_of_eq eight)]
    have same := leBytes_ofLe ((cell.drop 22).take 8)
    rwa [eight] at same
  rw [relocate, Patch.overwrite, own, eight]
  calc cell.take 22 ++ ((cell.drop 22).take 8 ++ cell.drop (22 + 8))
      = cell.take 22 ++ ((cell.drop 22).take 8 ++ (cell.drop 22).drop 8) := by rw [List.drop_drop]
    _ = cell := by rw [List.take_append_drop, List.take_append_drop]

theorem decode_relocate (packed : packedCell cell = some descriptor) (offset : Nat) :
    decodeBlobDescriptor (relocate offset cell) = some {descriptor with locator := leBytes 8 offset} := by
  obtain ⟨decoded,-,locator,room⟩ := packedCell_spec packed
  have moved : relocate offset cell = cell.take 22 ++ (leBytes 8 offset ++ cell.drop 30) := by
    rw [relocate,Patch.overwrite,length_leBytes]
  have head : (cell.take 22).length = 22 := by rw [List.length_take]; omega
  have same : ∀ start count, start + count ≤ 22 → ((relocate offset cell).drop start).take count =
    (cell.drop start).take count := by
    intro start count inside
    have early : ∀ back : Bytes, ((cell.take 22 ++ back).drop start).take count =
      ((cell.take 22).drop start).take count := fun back => by
      rw [List.drop_append_of_le_length (by omega),List.take_append_of_le_length (by rw [List.length_drop]; omega)]
    have whole := early (cell.drop 22)
    rw [List.take_append_drop] at whole
    rw [moved,early,whole]
  have byte : ∀ position, position < 22 → (relocate offset cell)[position]? = cell[position]? := by
    intro position inside
    rw [moved,List.getElem?_append_left (by omega),List.getElem?_take_of_lt inside]
  have magic : (relocate offset cell).take 4 = cell.take 4 := same 0 4 (by omega)
  have eight : ofLe ((cell.drop 18).take 4) = 8 := by
    have length := (Option.filter_eq_some_iff.mp packed).2
    rw [isPacked,Bool.and_eq_true,beq_iff_eq,beq_iff_eq] at length
    unfold decodeBlobDescriptor at decoded
    split at decoded
    · cases decoded
    · dsimp only at decoded
      split at decoded
      · cases decoded
      · cases decoded
        have found := length.2
        dsimp only at found
        rw [List.length_take,List.length_drop] at found
        omega
  have place : ((relocate offset cell).drop 22).take 8 = leBytes 8 offset := by
    rw [moved,List.drop_left' head,List.take_left' (length_leBytes _ _)]
  unfold decodeBlobDescriptor at decoded ⊢
  rw [length_relocate room,magic,byte 4 (by omega),same 18 4 (by omega),byte 5 (by omega),same 6 8 (by omega),
    same 14 4 (by omega)]
  split at decoded
  · cases decoded
  · rename_i known
    rw [if_neg known]
    dsimp only at decoded ⊢
    rw [eight] at decoded ⊢
    rw [if_neg (show ¬ 22 + 8 > cell.length by omega)] at decoded ⊢
    cases decoded
    rw [place]

end Packed

end ApexBase.Blob
