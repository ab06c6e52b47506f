import ApexBase.Column.Data
import ApexBase.Library.Checked

/-! The plain column readers of `storage/on_demand/types.rs` with the sizes that they compute: counts and
dimensions come from the file, and a position or a length is a 64-bit number. -/
namespace ApexBase.Column.Sized
open Data Library Library.Wire Library.Checked

variable (bytes : Bytes)

def fail {α : Type} (message : String) : Checked IoError α := .error (.error (errData message))

def takeBytes (message : String) (byteLen pos : Nat) : Checked IoError (Bytes × Nat) := do
  let stop ← add pos byteLen
  if stop > bytes.length then fail message
  else do
    let data ← slice bytes pos stop
    pure (data,stop)

def readLe (width : Nat) (message : String) (pos : Nat) : Checked IoError (Nat × Nat) := do
  let (word,stop) ← takeBytes bytes message width pos
  pure (ofLe word,stop)

def copyWords (message : String) (size count byteLen pos : Nat) : Checked IoError (List Nat × Nat) := do
  let stop ← add pos byteLen
  if stop > bytes.length then fail message
  else do
    alloc count size
    let data ← slice bytes pos stop
    pure (ofLeWords size count data,stop)

def readU64 (pos : Nat) : Checked IoError (Nat × Nat) :=
  readLe bytes 8 "ColumnData::from_bytes_typed: unexpected EOF reading u64" pos

def fromBool : Checked IoError (ColumnData × Nat) := do
  let (len,pos) ← readU64 bytes 0
  let rounded ← add len 7
  let (data,pos) ← takeBytes bytes "Bool column data truncated" (rounded / 8) pos
  pure (.bool data len,pos)

def fromWords (kind : String) (build : List Nat → ColumnData) : Checked IoError (ColumnData × Nat) := do
  let (count,pos) ← readU64 bytes 0
  let byteLen ← mul count 8
  let (values,pos) ← copyWords bytes (kind ++ " column data truncated") 8 count byteLen pos
  pure (build values,pos)

def fromOffsets (kind : String) (build : List UInt64 → Bytes → ColumnData) : Checked IoError (ColumnData × Nat) := do
  let (count,pos) ← readU64 bytes 0
  let entries ← add count 1
  let offsetsLen ← mul entries 4
  let (diskOffsets,pos) ← copyWords bytes (kind ++ " offsets truncated") 4 entries offsetsLen pos
  let (dataLen,pos) ← readU64 bytes pos
  let (data,pos) ← takeBytes bytes (kind ++ " data truncated") dataLen pos
  pure (build (diskOffsets.map UInt64.ofNat) data,pos)

def fromStringDict : Checked IoError (ColumnData × Nat) := do
  let (rowCount,pos) ← readU64 bytes 0
  let (dictSize,pos) ← readU64 bytes pos
  let indicesLen ← mul rowCount 4
  let (indices,pos) ← copyWords bytes "StringDict indices truncated" 4 rowCount indicesLen pos
  let dictOffsetsLen ← mul dictSize 4
  let (dictOffsets,pos) ← copyWords bytes "StringDict dict_offsets truncated" 4 dictSize dictOffsetsLen pos
  let (dictDataLen,pos) ← readU64 bytes pos
  let (dictData,pos) ← takeBytes bytes "StringDict dict_data truncated" dictDataLen pos
  pure (.stringDict (indices.map UInt32.ofNat) (dictOffsets.map UInt64.ofNat) dictData,pos)

def fromLists (kind : String) (size : Nat) (build : Bytes → UInt32 → ColumnData) :
    Checked IoError (ColumnData × Nat) := do
  let (count,pos) ← readU64 bytes 0
  let (dim,pos) ← readLe bytes 4 (kind ++ ": dim truncated") pos
  let items ← mul count dim
  let byteLen ← mul items size
  let (data,pos) ← takeBytes bytes (kind ++ ": data truncated") byteLen pos
  pure (build data (UInt32.ofNat dim),pos)

/-- `checked_mul` and `checked_add`: a size that does not fit is an error of the code. -/
def within (message : String) (value : Nat) : Checked IoError Nat := if value < 2^64 then .ok value else fail message

/-- `row_width` has no size that a 32-bit dimension could make too large. -/
def rowWidth (codec : VectorCodec) (dim : Nat) : Checked IoError Nat := (codec.rowWidth dim).mapError Stop.error

def fromQuantized (codec : VectorCodec) : Checked IoError (ColumnData × Nat) := do
  let (count,pos) ← readU64 bytes 0
  let (dim,pos) ← readLe bytes 4 "QuantizedList: dim truncated" pos
  let width ← rowWidth codec dim
  let byteLen ← within "QuantizedList: data length overflow" (count * width)
  let (data,pos) ← takeBytes bytes "QuantizedList: data truncated" byteLen pos
  pure (.quantizedList data (UInt32.ofNat dim) codec,pos)

def fromNull : Checked IoError (ColumnData × Nat) := do
  let (count,pos) ← readU64 bytes 0
  let byteLen ← mul count 8
  let pos ← add pos (min byteLen (bytes.length - pos))
  alloc count 8
  pure (.int64 (List.replicate count 0),pos)

def fromBytesTyped : ColumnType → Checked IoError (ColumnData × Nat)
  | .bool => fromBool bytes
  | .int64 | .int8 | .int16 | .int32 | .uint8 | .uint16 | .uint32 | .uint64 | .timestamp | .timestampTz | .date
  | .time | .interval => fromWords bytes "Int64" fun values => .int64 (values.map fun value =>
    (UInt64.ofNat value).toInt64)
  | .float64 | .float32 => fromWords bytes "Float64" fun values => .float64 (values.map UInt64.ofNat)
  | .string | .json => fromOffsets bytes "String" .string
  | .binary | .blob | .uuid | .decimal128 | .list | .extension => fromOffsets bytes "Binary" .binary
  | .stringDict => fromStringDict bytes
  | .fixedList => fromLists bytes "FixedList" 4 .fixedList
  | .float16List => fromLists bytes "Float16List" 2 .float16List
  | .bfloat16List => fromQuantized bytes .bfloat16
  | .int8Vector => fromQuantized bytes .int8
  | .uint8Vector => fromQuantized bytes .uint8
  | .bit1Vector => fromQuantized bytes .bit1
  | .turboQuant2Vector => fromQuantized bytes .turboQuant2
  | .turboQuant3Vector => fromQuantized bytes .turboQuant3
  | .turboQuant4Vector => fromQuantized bytes .turboQuant4
  | .null => fromNull bytes

def skipU64 (pos : Nat) : Checked IoError (Nat × Nat) :=
  readLe bytes 8 "skip_bytes_typed: unexpected EOF reading u64" pos

def skipWords : Checked IoError Nat := do
  let (count,pos) ← skipU64 bytes 0
  let byteLen ← mul count 8
  add pos byteLen

def skipLists (kind : String) (size : Nat) : Checked IoError Nat := do
  let (count,pos) ← skipU64 bytes 0
  let (dim,pos) ← readLe bytes 4 ("skip " ++ kind ++ ": dim truncated") pos
  let items ← mul count dim
  let byteLen ← mul items size
  add pos byteLen

def skipQuantized (codec : VectorCodec) : Checked IoError Nat := do
  let (count,pos) ← skipU64 bytes 0
  let (dim,pos) ← readLe bytes 4 "skip QuantizedList: dim truncated" pos
  let width ← rowWidth codec dim
  let byteLen ← within "skip QuantizedList: data length overflow" (count * width)
  within "skip QuantizedList: position overflow" (pos + byteLen)

def skipPos : ColumnType → Checked IoError Nat
  | .bool => do
    let (len,pos) ← skipU64 bytes 0
    let rounded ← add len 7
    add pos (rounded / 8)
  | .int64 | .int8 | .int16 | .int32 | .uint8 | .uint16 | .uint32 | .uint64 | .timestamp | .timestampTz | .date
  | .time | .interval => skipWords bytes
  | .float64 | .float32 => skipWords bytes
  | .string | .json | .binary | .blob | .uuid | .decimal128 | .list | .extension => do
    let (count,pos) ← skipU64 bytes 0
    let entries ← add count 1
    let offsetsLen ← mul entries 4
    let pos ← add pos offsetsLen
    let (dataLen,pos) ← skipU64 bytes pos
    add pos dataLen
  | .stringDict => do
    let (rowCount,pos) ← skipU64 bytes 0
    let (dictSize,pos) ← skipU64 bytes pos
    let indicesLen ← mul rowCount 4
    let pos ← add pos indicesLen
    let dictOffsetsLen ← mul dictSize 4
    let pos ← add pos dictOffsetsLen
    let (dictDataLen,pos) ← skipU64 bytes pos
    add pos dictDataLen
  | .fixedList => skipLists bytes "FixedList" 4
  | .float16List => skipLists bytes "Float16List" 2
  | .bfloat16List => skipQuantized bytes .bfloat16
  | .int8Vector => skipQuantized bytes .int8
  | .uint8Vector => skipQuantized bytes .uint8
  | .bit1Vector => skipQuantized bytes .bit1
  | .turboQuant2Vector => skipQuantized bytes .turboQuant2
  | .turboQuant3Vector => skipQuantized bytes .turboQuant3
  | .turboQuant4Vector => skipQuantized bytes .turboQuant4
  | .null => skipWords bytes

def skipBytesTyped (colType : ColumnType) : Checked IoError Nat := do
  let pos ← skipPos bytes colType
  if pos > bytes.length then fail s!"skip_bytes_typed: would skip past EOF ({pos} > {bytes.length})"
  else pure pos

/-! The sizes. A slice has at most `isize::MAX` bytes. -/

structure Input where
  bytes : Bytes
  small : bytes.length < 2^63

def countAt (pos : Nat) : Nat := ofLe ((bytes.drop pos).take 8)

def dimAt : Nat := ofLe ((bytes.drop 8).take 4)

/-- The vectors of a quantized column are not so many that the column would end behind the last position. -/
def QuantizedFits (codec : VectorCodec) : Prop :=
  ∀ width, codec.rowWidth (dimAt bytes) = .ok width → countAt bytes 0 * width < 2^64 →
    12 + countAt bytes 0 * width < 2^64

/-- The column would end at a 64-bit position, by the numbers in its header. A NULL column ends inside the input. -/
def SizesFit : ColumnType → Prop
  | .bool => 8 ≤ bytes.length → countAt bytes 0 + 7 < 2^64
  | .int64 | .int8 | .int16 | .int32 | .uint8 | .uint16 | .uint32 | .uint64 | .timestamp | .timestampTz | .date
  | .time | .interval | .float64 | .float32 => 8 ≤ bytes.length → 8 + countAt bytes 0 * 8 < 2^64
  | .string | .json | .binary | .blob | .uuid | .decimal128 | .list | .extension => 8 ≤ bytes.length →
    let dataAt := 8 + (countAt bytes 0 + 1) * 4 + 8
    dataAt < 2^64 ∧ (dataAt ≤ bytes.length → dataAt + countAt bytes (dataAt - 8) < 2^64)
  | .stringDict => 16 ≤ bytes.length →
    let dataAt := 16 + countAt bytes 0 * 4 + countAt bytes 8 * 4 + 8
    dataAt < 2^64 ∧ (dataAt ≤ bytes.length → dataAt + countAt bytes (dataAt - 8) < 2^64)
  | .fixedList => 12 ≤ bytes.length → 12 + countAt bytes 0 * dimAt bytes * 4 < 2^64
  | .float16List => 12 ≤ bytes.length → 12 + countAt bytes 0 * dimAt bytes * 2 < 2^64
  | .bfloat16List => 12 ≤ bytes.length → QuantizedFits bytes .bfloat16
  | .int8Vector => 12 ≤ bytes.length → QuantizedFits bytes .int8
  | .uint8Vector => 12 ≤ bytes.length → QuantizedFits bytes .uint8
  | .bit1Vector => 12 ≤ bytes.length → QuantizedFits bytes .bit1
  | .turboQuant2Vector => 12 ≤ bytes.length → QuantizedFits bytes .turboQuant2
  | .turboQuant3Vector => 12 ≤ bytes.length → QuantizedFits bytes .turboQuant3
  | .turboQuant4Vector => 12 ≤ bytes.length → QuantizedFits bytes .turboQuant4
  | .null => 8 ≤ bytes.length → 8 + countAt bytes 0 * 8 ≤ bytes.length

def settle (pos : Nat) : Checked IoError Nat :=
  if pos > bytes.length then fail s!"skip_bytes_typed: would skip past EOF ({pos} > {bytes.length})" else pure pos

variable {bytes}

theorem takeBytes_eq (message : String) (byteLen pos : Nat) : takeBytes bytes message byteLen pos =
    usize (pos + byteLen) >>= fun stop => if stop > bytes.length then fail message
      else .ok ((bytes.drop pos).take byteLen,stop) := by
  unfold takeBytes add
  by_cases fits : pos + byteLen < 2^64
  · rw [usize_ok fits]
    dsimp only [bind,Except.bind]
    split
    · rfl
    · rw [slice_ok (by omega)]
      rfl
  · rw [usize_wrapped fits]
    rfl

theorem readLe_eq (width : Nat) (message : String) (pos : Nat) : readLe bytes width message pos =
    usize (pos + width) >>= fun stop => if stop > bytes.length then fail message
      else .ok (ofLe ((bytes.drop pos).take width),stop) := by
  rw [readLe,takeBytes_eq,bind_assoc]
  congr 1
  funext stop
  split
  · rfl
  · rfl

theorem copyWords_eq (small : bytes.length < 2^63) (message : String) (size count pos : Nat) :
    (mul count size >>= fun byteLen => copyWords bytes message size count byteLen pos) = usize (pos + count * size) >>=
    fun stop =>
      if stop > bytes.length then fail message else .ok (ofLeWords size count ((bytes.drop pos).take (count * size)),
        stop) := by
  unfold mul copyWords add
  rw [usize_then (fun byteLen => pos + byteLen) (Nat.le_add_left _ _)]
  by_cases fits : pos + count * size < 2^64
  · rw [usize_ok fits]
    dsimp only [bind,Except.bind]
    split
    · rfl
    · rw [alloc,if_pos (by omega),slice_ok (by omega)]
      rfl
  · rw [usize_wrapped fits]
    rfl

theorem readLe_inside (small : bytes.length < 2^63) {width pos : Nat} (room : pos + width ≤ bytes.length)
    (message : String) :
    readLe bytes width message pos = .ok (ofLe ((bytes.drop pos).take width),pos + width) := by
  rw [readLe_eq,usize_ok (by omega)]
  exact if_neg (by omega)

theorem readLe_short {width pos : Nat} (fits : pos + width < 2^64) (short : ¬pos + width ≤ bytes.length)
    (message : String) : readLe bytes width message pos = fail message := by
  rw [readLe_eq,usize_ok fits]
  exact if_pos (by omega)

theorem agree_end {raw : Type} (build : raw → ColumnData) (found : raw) (message : String) (stop : Nat) :
    Agree ((if stop > bytes.length then fail message else .ok (found,stop)) >>= fun read => pure (build read.1,read.2))
      (settle bytes stop) := by
  unfold settle
  split
  · exact agree_error _ _
  · exact agree_ok (build found) stop

section Layouts
variable (small : bytes.length < 2^63)
include small

theorem words_iff (kind : String) (build : List Nat → ColumnData) :
    Agree (fromWords bytes kind build) (skipWords bytes >>= settle bytes) ↔
    (8 ≤ bytes.length → 8 + countAt bytes 0 * 8 < 2^64) := by
  unfold fromWords skipWords readU64 skipU64
  by_cases head : 8 ≤ bytes.length
  · rw [readLe_inside small (by omega),readLe_inside small (by omega)]
    change Agree (mul (countAt bytes 0) 8 >>= fun byteLen => copyWords bytes _ 8 (countAt bytes 0) byteLen 8 >>= _)
      ((mul (countAt bytes 0) 8 >>= fun byteLen => add 8 byteLen) >>= settle bytes) ↔ _
    rw [← bind_assoc,copyWords_eq small,bind_assoc,mul]
    unfold add
    rw [bind_assoc,usize_then (fun byteLen => 8 + byteLen) (Nat.le_add_left _ _),agree_usize]
    exact ⟨fun both _ => both.1,fun fits => ⟨fits head,agree_end build _ _ _⟩⟩
  · rw [readLe_short (by omega) (by omega),readLe_short (by omega) (by omega)]
    exact iff_of_true (agree_error _ _) fun room => absurd room head

theorem bool_iff : Agree (fromBool bytes) (skipBytesTyped bytes .bool) ↔
    (8 ≤ bytes.length → countAt bytes 0 + 7 < 2^64) := by
  change Agree (fromBool bytes) (skipPos bytes .bool >>= settle bytes) ↔ _
  unfold fromBool skipPos readU64 skipU64
  by_cases head : 8 ≤ bytes.length
  · rw [readLe_inside small (by omega),readLe_inside small (by omega)]
    change Agree (usize (countAt bytes 0 + 7) >>= fun rounded => takeBytes bytes _ (rounded / 8) 8 >>= _)
      ((usize (countAt bytes 0 + 7) >>= fun rounded => usize (8 + rounded / 8)) >>= settle bytes) ↔ _
    rw [bind_assoc,agree_usize]
    refine ⟨fun both _ => both.1,fun fits => ⟨fits head,?_⟩⟩
    have room := fits head
    rw [takeBytes_eq,bind_assoc,agree_usize]
    exact ⟨by omega,agree_end (fun data => .bool data (countAt bytes 0)) _ _ _⟩
  · rw [readLe_short (by omega) (by omega),readLe_short (by omega) (by omega)]
    exact iff_of_true (agree_error _ _) fun room => absurd room head

private theorem vectors_iff {fits : Prop} (message message' : String)
    {decode : Nat × Nat → Nat × Nat → Checked IoError (ColumnData × Nat)}
    {skip : Nat × Nat → Nat × Nat → Checked IoError Nat}
    (inside : Agree (decode (countAt bytes 0,8) (dimAt bytes,12)) (skip (countAt bytes 0,8) (dimAt bytes,12)) ↔ fits) :
    Agree (readU64 bytes 0 >>= fun read => readLe bytes 4 message read.2 >>= decode read)
      (skipU64 bytes 0 >>= fun read => readLe bytes 4 message' read.2 >>= skip read) ↔ (12 ≤ bytes.length → fits) := by
  unfold readU64 skipU64
  by_cases head : 8 ≤ bytes.length
  · rw [readLe_inside small (by omega),readLe_inside small (by omega)]
    change Agree (readLe bytes 4 message 8 >>= decode (countAt bytes 0,8)) (readLe bytes 4 message' 8 >>=
      skip (countAt bytes 0,8)) ↔ _
    by_cases room : 12 ≤ bytes.length
    · rw [readLe_inside small (by omega),readLe_inside small (by omega)]
      exact inside.trans ⟨fun known _ => known,fun known => known room⟩
    · rw [readLe_short (by omega) (by omega),readLe_short (by omega) (by omega)]
      exact iff_of_true (agree_error _ _) fun long => absurd long room
  · rw [readLe_short (by omega) (by omega),readLe_short (by omega) (by omega)]
    exact iff_of_true (agree_error _ _) fun long => absurd long (by omega)

theorem lists_iff (kind : String) {size : Nat} (some_ : 0 < size) (build : Bytes → UInt32 → ColumnData) :
    Agree (fromLists bytes kind size build) (skipLists bytes kind size >>= settle bytes) ↔
      (12 ≤ bytes.length → 12 + countAt bytes 0 * dimAt bytes * size < 2^64) := by
  unfold fromLists skipLists
  simp only [bind_assoc]
  refine vectors_iff small _ _ ?_
  unfold mul add
  dsimp only
  rw [usize_then (fun items => items * size) (Nat.le_mul_of_pos_right _ some_),
    usize_then (fun items => items * size) (Nat.le_mul_of_pos_right _ some_)]
  simp only [takeBytes_eq,bind_assoc]
  rw [usize_then (fun byteLen => 12 + byteLen) (Nat.le_add_left _ _),
    usize_then (fun byteLen => 12 + byteLen) (Nat.le_add_left _ _),
    agree_usize]
  exact ⟨fun both => both.1,fun fits => ⟨fits,agree_end (fun data => build data (UInt32.ofNat (dimAt bytes))) _ _ _⟩⟩

theorem quantized_iff (codec : VectorCodec) :
    Agree (fromQuantized bytes codec) (skipQuantized bytes codec >>= settle bytes) ↔
    (12 ≤ bytes.length → QuantizedFits bytes codec) := by
  unfold fromQuantized skipQuantized
  simp only [bind_assoc]
  refine vectors_iff small _ _ ?_
  unfold rowWidth QuantizedFits
  dsimp only
  cases row : codec.rowWidth (dimAt bytes) with
  | error error => exact iff_of_true (agree_error _ _) nofun
  | ok width =>
    have once : (∀ other, (Except.ok width : Except IoError Nat) = .ok other → countAt bytes 0 * other < 2^64 →
      12 + countAt bytes 0 * other < 2^64) ↔
        (countAt bytes 0 * width < 2^64 → 12 + countAt bytes 0 * width < 2^64) :=
      ⟨fun all => all width rfl,fun fits other same => by cases same; exact fits⟩
    rw [once]
    change Agree (within _ (countAt bytes 0 * width) >>= _) (within _ (countAt bytes 0 * width) >>= _) ↔ _
    by_cases few : countAt bytes 0 * width < 2^64
    · rw [within,within,if_pos few,if_pos few]
      change Agree (takeBytes bytes _ (countAt bytes 0 * width) 12 >>= _) (within _ (12 + countAt bytes 0 * width) >>=
        settle bytes) ↔ _
      rw [takeBytes_eq,bind_assoc]
      by_cases fits : 12 + countAt bytes 0 * width < 2^64
      · rw [usize_ok fits,within,if_pos fits]
        exact iff_of_true (agree_end (fun data => .quantizedList data (UInt32.ofNat (dimAt bytes)) codec) _ _ _)
          fun _ => fits
      · rw [usize_wrapped fits]
        exact iff_of_false (fun agree => agree.decoded .wrapped rfl) fun known => fits (known few)
    · rw [within,within,if_neg few,if_neg few]
      exact iff_of_true (agree_error _ _) fun less => absurd less few

/-- Data behind a length, which the decode reads only where all before it is inside the input. -/
private theorem data_iff {raw : Type} (build : raw → Bytes → ColumnData) (found : raw) (message message' : String)
    (stop : Nat) :
    Agree ((if stop > bytes.length then fail message else .ok (found,stop)) >>= fun read => readU64 bytes read.2 >>=
      fun word =>
        takeBytes bytes message' word.1 word.2 >>= fun data => pure (build read.1 data.1,data.2))
      (skipU64 bytes stop >>= fun word => add word.2 word.1 >>= settle bytes) ↔
      stop + 8 < 2^64 ∧ (stop + 8 ≤ bytes.length → stop + 8 + countAt bytes stop < 2^64) := by
  rw [skipU64,readLe_eq,bind_assoc,agree_skip_usize]
  refine and_congr_right fun fits => ?_
  by_cases room : stop + 8 ≤ bytes.length
  · rw [if_neg (by omega),if_neg (by omega)]
    change Agree (readU64 bytes stop >>= _) (usize (stop + 8 + countAt bytes stop) >>= settle bytes) ↔ _
    rw [readU64,readLe_inside small room]
    change Agree (takeBytes bytes message' (countAt bytes stop) (stop + 8) >>= _) _ ↔ _
    rw [takeBytes_eq,bind_assoc,agree_usize]
    exact ⟨fun both _ => both.1,fun known => ⟨known room,agree_end (build found) _ _ _⟩⟩
  · rw [if_pos (show stop + 8 > bytes.length by omega)]
    refine iff_of_true ?_ fun inside => absurd inside room
    split
    · exact agree_error _ _
    · change Agree (readU64 bytes stop >>= _) _
      rw [readU64,readLe_short fits room]
      exact agree_error _ _

theorem offsets_iff (kind : String) (build : List UInt64 → Bytes → ColumnData) :
    Agree (fromOffsets bytes kind build) (skipPos bytes .string >>= settle bytes) ↔ SizesFit bytes .string := by
  unfold fromOffsets skipPos SizesFit
  simp only [bind_assoc]
  by_cases head : 8 ≤ bytes.length
  · rw [readU64,skipU64,readLe_inside small (by omega),readLe_inside small (by omega)]
    change Agree (usize (countAt bytes 0 + 1) >>= fun entries => mul entries 4 >>= fun offsetsLen =>
        copyWords bytes _ 4 entries offsetsLen 8 >>= _)
      (usize (countAt bytes 0 + 1) >>= fun entries => mul entries 4 >>= fun offsetsLen => add 8 offsetsLen >>= _) ↔ _
    rw [agree_usize,← bind_assoc (mul (countAt bytes 0 + 1) 4),copyWords_eq small,bind_assoc]
    unfold mul add
    rw [usize_then (fun offsetsLen => 8 + offsetsLen) (Nat.le_add_left _ _),agree_usize]
    have tail := data_iff small (fun words data => build (words.map UInt64.ofNat) data)
      (ofLeWords 4 (countAt bytes 0 + 1) ((bytes.drop 8).take ((countAt bytes 0 + 1) * 4))) (kind ++
        " offsets truncated")
      (kind ++ " data truncated") (8 + (countAt bytes 0 + 1) * 4)
    constructor
    · rintro ⟨-,-,agree⟩ -
      exact tail.mp agree
    · intro fits
      have known := fits head
      exact ⟨by omega,by omega,tail.mpr known⟩
  · rw [readU64,skipU64,readLe_short (by omega) (by omega),readLe_short (by omega) (by omega)]
    exact iff_of_true (agree_error _ _) fun room => absurd room head

theorem dict_iff : Agree (fromStringDict bytes) (skipPos bytes .stringDict >>= settle bytes) ↔
    SizesFit bytes .stringDict := by
  unfold fromStringDict skipPos SizesFit
  simp only [bind_assoc]
  by_cases head : 16 ≤ bytes.length
  · simp only [readU64,skipU64]
    rw [readLe_inside small (by omega),readLe_inside small (by omega)]
    change Agree (readLe bytes 8 _ 8 >>= _) (readLe bytes 8 _ 8 >>= _) ↔ _
    rw [readLe_inside small (by omega),readLe_inside small (by omega)]
    change Agree (mul (countAt bytes 0) 4 >>= fun indicesLen =>
      copyWords bytes _ 4 (countAt bytes 0) indicesLen 16 >>= _)
      (mul (countAt bytes 0) 4 >>= fun indicesLen => add 16 indicesLen >>= _) ↔ _
    rw [← bind_assoc,copyWords_eq small,bind_assoc]
    unfold mul add
    rw [usize_then (fun indicesLen => 16 + indicesLen) (Nat.le_add_left _ _),agree_usize]
    change 16 + countAt bytes 0 * 4 < 2^64 ∧ Agree (_ >>= fun (read : List Nat × Nat) => mul (countAt bytes 8) 4 >>=
      fun dictOffsetsLen =>
        copyWords bytes _ 4 (countAt bytes 8) dictOffsetsLen read.2 >>= _)
      (usize (countAt bytes 8 * 4) >>= fun dictOffsetsLen => usize (16 + countAt bytes 0 * 4 + dictOffsetsLen) >>= _) ↔
      _
    rw [usize_then (fun dictOffsetsLen => 16 + countAt bytes 0 * 4 + dictOffsetsLen) (Nat.le_add_left _ _)]
    by_cases inside : 16 + countAt bytes 0 * 4 ≤ bytes.length
    · rw [if_neg (by omega)]
      change _ ∧ Agree (mul (countAt bytes 8) 4 >>= fun dictOffsetsLen =>
        copyWords bytes _ 4 (countAt bytes 8) dictOffsetsLen (16 + countAt bytes 0 * 4) >>= _) _ ↔ _
      rw [← bind_assoc,copyWords_eq small,bind_assoc,agree_usize]
      have tail := data_iff small (fun (words : List Nat) data => .stringDict
          ((ofLeWords 4 (countAt bytes 0) ((bytes.drop 16).take (countAt bytes 0 * 4))).map UInt32.ofNat)
            (words.map UInt64.ofNat) data)
        (ofLeWords 4 (countAt bytes 8) ((bytes.drop (16 + countAt bytes 0 * 4)).take (countAt bytes 8 * 4)))
        "StringDict dict_offsets truncated" "StringDict dict_data truncated" (16 + countAt bytes 0 * 4 +
          countAt bytes 8 * 4)
      constructor
      · rintro ⟨-,-,agree⟩ -
        exact tail.mp agree
      · intro fits
        have known := fits head
        exact ⟨by omega,by omega,tail.mpr known⟩
    · rw [if_pos (by omega),agree_skip_usize]
      simp only [readLe_eq,bind_assoc]
      rw [agree_skip_usize,if_pos (by omega)]
      constructor
      · rintro ⟨-,-,fits,-⟩ -
        exact ⟨fits,fun room => absurd room (by omega)⟩
      · intro fits
        have known := (fits head).1
        exact ⟨by omega,by omega,by omega,agree_error _ _⟩
  · simp only [readU64,skipU64]
    refine iff_of_true ?_ fun room => absurd room head
    by_cases first : 8 ≤ bytes.length
    · rw [readLe_inside small (by omega),readLe_inside small (by omega)]
      change Agree (readLe bytes 8 _ 8 >>= _) (readLe bytes 8 _ 8 >>= _)
      rw [readLe_short (by omega) (by omega),readLe_short (by omega) (by omega)]
      exact agree_error _ _
    · rw [readLe_short (by omega) (by omega),readLe_short (by omega) (by omega)]
      exact agree_error _ _

theorem null_iff : Agree (fromNull bytes) (skipWords bytes >>= settle bytes) ↔
    (8 ≤ bytes.length → 8 + countAt bytes 0 * 8 ≤ bytes.length) := by
  unfold fromNull skipWords readU64 skipU64
  by_cases head : 8 ≤ bytes.length
  · rw [readLe_inside small (by omega),readLe_inside small (by omega)]
    change Agree (mul (countAt bytes 0) 8 >>= fun byteLen => add 8 (min byteLen (bytes.length - 8)) >>= fun pos =>
        alloc (countAt bytes 0) 8 >>= fun _ => pure (ColumnData.int64 (List.replicate (countAt bytes 0) 0),pos))
      ((mul (countAt bytes 0) 8 >>= fun byteLen => add 8 byteLen) >>= settle bytes) ↔ _
    unfold mul add
    rw [bind_assoc,agree_usize,agree_skip_usize,usize_ok (by omega)]
    change _ ∧ _ ∧ Agree (alloc (countAt bytes 0) 8 >>= fun _ =>
      .ok (_,8 + min (countAt bytes 0 * 8) (bytes.length - 8))) _ ↔ _
    unfold alloc settle
    constructor
    · rintro ⟨-,-,agree⟩ -
      by_contra outside
      rw [if_pos (show 8 + countAt bytes 0 * 8 > bytes.length by omega)] at agree
      by_cases few : countAt bytes 0 * 8 < 2^63
      · rw [if_pos few] at agree
        exact nomatch agree.same _ _ rfl
      · rw [if_neg few] at agree
        exact agree.decoded .capacity rfl
    · intro inside
      have room := inside head
      refine ⟨by omega,by omega,?_⟩
      rw [if_pos (by omega),if_neg (by omega),Nat.min_eq_left (by omega)]
      exact agree_ok _ _
  · rw [readLe_short (by omega) (by omega),readLe_short (by omega) (by omega)]
    exact iff_of_true (agree_error _ _) fun room => absurd room head

end Layouts

section Readers
variable (small : bytes.length < 2^63)
include small

end Readers

/-- No fault, one end and one verdict, exactly where the column would end at a 64-bit position. -/
theorem plain_parse_iff (input : Input) (colType : ColumnType) :
    Agree (fromBytesTyped input.bytes colType) (skipBytesTyped input.bytes colType) ↔ SizesFit input.bytes colType := by
  have small := input.small
  unfold fromBytesTyped
  cases colType with
  | null => exact null_iff small
  | bool => exact bool_iff small
  | int8 | int16 | int32 | int64 | uint8 | uint16 | uint32 | uint64 | timestamp | timestampTz | date | time
  | interval => exact words_iff small _ _
  | float32 | float64 => exact words_iff small _ _
  | string | json | binary | blob | uuid | decimal128 | list | extension => exact offsets_iff small _ _
  | stringDict => exact dict_iff small
  | fixedList => exact lists_iff small _ (by decide) _
  | float16List => exact lists_iff small _ (by decide) _
  | bfloat16List | int8Vector | uint8Vector | bit1Vector | turboQuant2Vector | turboQuant3Vector | turboQuant4Vector =>
    exact quantized_iff small _

/-- A NULL column of one row without its padding is decoded but not skipped, and a BOOL column may
have more rows than fit. -/
theorem null_without_padding : ∃ input large : Input,
    fromBytesTyped input.bytes .null = .ok (.int64 [0],8) ∧ (∃ error, skipBytesTyped input.bytes .null =
      .error (.error error)) ∧
    fromBytesTyped large.bytes .bool = .error (.fault .wrapped) ∧
    ¬Agree (fromBytesTyped input.bytes .null) (skipBytesTyped input.bytes .null) ∧
    ¬Agree (fromBytesTyped large.bytes .bool) (skipBytesTyped large.bytes .bool) := by
  have decoded : fromBytesTyped [1,0,0,0,0,0,0,0] .null = .ok (.int64 [0],8) := rfl
  have skipped : skipBytesTyped [1,0,0,0,0,0,0,0] .null =
    fail "skip_bytes_typed: would skip past EOF (16 > 8)" := by rfl
  have wraps : fromBytesTyped (List.replicate 8 0xFF) .bool = .error (.fault .wrapped) := rfl
  refine ⟨⟨[1,0,0,0,0,0,0,0],by decide⟩,⟨List.replicate 8 0xFF,by decide⟩,decoded,⟨_,skipped⟩,wraps,fun agree => ?_,
    fun agree => ?_⟩
  · exact nomatch skipped.symm.trans (agree.same _ _ decoded)
  · exact agree.decoded .wrapped wraps

end ApexBase.Column.Sized
