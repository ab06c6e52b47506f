import ApexBase.Wal.RoundTrip
import ApexBase.Wal.Recovery

/-! The log file: `WalWriter` and `WalReader` of `storage/incremental.rs` on files that were cut,
overwritten or appended to after a cut. -/
namespace ApexBase.Wal
open Data Library.Assoc Library.Wire Library.Wire.Reader

def walMagic : Bytes := [65,80,69,88,87,65,76,0]

/-! Writing. A record is written with the time of the append. -/

structure WalWriter where
  file : Bytes
  recordCount : Nat

namespace WalWriter

def header (startId : UInt64) : Bytes := walMagic ++ leBytes 4 walVersion ++ leBytes 8 startId.toNat ++ leBytes 4 0

def create (startId : UInt64) : WalWriter := ⟨header startId,0⟩

/-- The writer continues at the end of the file, whatever is there. -/
def «open» (file : Bytes) : Except IoError WalWriter :=
  if file.length < walHeaderSize then .error ⟨.unexpectedEof,"failed to fill whole buffer"⟩
  else if file.take 8 ≠ walMagic then .error ⟨.invalidData,"Invalid WAL magic"⟩
  else .ok ⟨file,if walHeaderSize < file.length then (file.length - walHeaderSize) / 100 else 0⟩

def append (ext : External) (writer : WalWriter) (entry : Int64 × WalRecord) : WalWriter :=
  ⟨writer.file ++ entry.2.toBytes ext entry.1,writer.recordCount + 1⟩

def appendAll (ext : External) (writer : WalWriter) (entries : List (Int64 × WalRecord)) : WalWriter :=
  entries.foldl (append ext) writer

end WalWriter

/-! Reading. -/

structure WalReader where
  data : Bytes
  pos : Nat
  version : Nat

namespace WalReader

def «open» (data : Bytes) : Except IoError WalReader :=
  if walHeaderSize ≤ data.length ∧ data.take 8 = walMagic then .ok ⟨data,walHeaderSize,ofLe ((data.drop 8).take 4)⟩
  else if data.isEmpty then .ok ⟨[],walHeaderSize,walVersion⟩
  else .error ⟨.invalidData,"Invalid WAL header"⟩

/-- The loop, with the bytes from `pos` on. A record takes at least 13 of them, so as many turns as
there are bytes are enough. -/
def readRecords (ext : External) (version : Nat) : Nat → Nat → Bytes → Except Failure (List (Nat × WalRecord))
  | 0,_,_ => .ok []
  | turns + 1,pos,bytes =>
    if bytes.isEmpty then .ok []
    else
      match fromBytesVersioned ext bytes version with
      | .ok (record,len) => (readRecords ext version turns (pos + len) (bytes.drop len)).map ((pos,record) :: ·)
      | .error .panicked => .error .panicked
      | .error _ => .ok []

def readAllWithOffsets (ext : External) (reader : WalReader) : Except Failure (List (Nat × WalRecord)) :=
  readRecords ext reader.version reader.data.length reader.pos (reader.data.drop reader.pos)

def readAll (ext : External) (reader : WalReader) : Except Failure (List WalRecord) :=
  (readAllWithOffsets ext reader).map (List.map (·.2))

end WalReader

def readLog (ext : External) (file : Bytes) : Except Failure (List WalRecord) :=
  match WalReader.open file with
  | .ok reader => reader.readAll ext
  | .error error => .error (.io error)

/-! When decoding does not run past the end: the body of a record holds as many bytes as the counts
and lengths inside it announce, up to the first name, text or tag that the decoder rejects. -/

def textRoom (next : Bytes → Bool) (raw rest : Bytes) : Bool := (fromUtf8 raw).all fun _ => next rest

def prefixedRoom (next : Bytes → Bytes → Bool) : Bytes → Bool := room 4 fun len => room (ofLe len) next

def taggedFits (blob : Bool) (tag : Nat) (next : Bytes → Bool) : Bytes → Bool :=
  match tag with
  | 0 => next
  | 1 => room 1 fun _ => next
  | 2 | 3 => room 8 fun _ => next
  | 4 => prefixedRoom (textRoom next)
  | 5 => prefixedRoom fun _ => next
  | 6 => if blob then prefixedRoom fun _ => next else fun _ => true
  | _ => fun _ => true

def valueFits (blob : Bool) (next : Bytes → Bool) : Bytes → Bool := room 1 fun tag => taggedFits blob (ofLe tag) next

def columnsFit (blob : Bool) : Nat → (Bytes → Bool) → Bytes → Bool
  | 0,next => next
  | count + 1,next => room 2 fun len => room (ofLe len) (textRoom (valueFits blob (columnsFit blob count next)))

def rowFits (blob : Bool) (next : Bytes → Bool) : Bytes → Bool := room 4 fun count => columnsFit blob (ofLe count) next

def rowsFit : Nat → (Bytes → Bool) → Bytes → Bool
  | 0,next => next
  | count + 1,next => rowFits true (rowsFit count next)

def bodyFits (recordType : Nat) (body : Bytes) : Bool :=
  let done : Bytes → Bool := fun _ => true
  match recordType with
  | 1 => room 8 (fun _ => rowFits true done) body
  | 8 => room 8 (fun _ => room 8 fun _ => rowFits false done) body
  | 4 => room 8 (fun _ => room 4 fun count => rowsFit (ofLe count) done) body
  | 2 | 3 | 5 | 6 | 7 => room 8 (fun _ => done) body
  | 9 => room 8 (fun _ => room 8 fun _ => done) body
  | _ => true

/-- A record whose frame is cut off is not looked into. -/
def recordFits (bytes : Bytes) : Bool :=
  if bytes.length < 13 then true
  else
    let totalLen := 13 + ofLe ((bytes.drop 9).take 4)
    if bytes.length < totalLen then true else bodyFits (ofLe (bytes.take 1)) ((bytes.take totalLen).drop 13)

inductive Reached (ext : External) (version : Nat) (start : Bytes) : Bytes → Prop
  | first : Reached ext version start start
  | next {bytes : Bytes} {record : WalRecord} {len : Nat} (before : Reached ext version start bytes)
      (decoded : fromBytesVersioned ext bytes version = .ok (record,len)) : Reached ext version start (bytes.drop len)

private theorem guards_text (raw : Bytes) :
    Guards Failure.panicked (fun next rest => (fromUtf8 raw).all (fun text => next text rest))
      (Reader.lift (readText raw)) := by
  intro next bytes
  unfold readText
  cases fromUtf8 raw with
  | none => exact iff_of_true rfl (by rintro ⟨⟩)
  | some text => exact Iff.rfl

private theorem guards_prefixed : Guards .panicked prefixedRoom (readPrefixed .panicked) :=
  (guards_word 4).bind fun len => guards_take len

private theorem skips_word {β : Type} (width : Nat) (f : Nat → β) :
    Skips Failure.panicked (fun next => room width fun _ => next) (word .panicked width >>= fun value =>
      pure (f value)) :=
  (guards_word width).then fun value => skips_pure (f value)

private theorem skips_prefixedText {β : Type} (f : String → β) :
    Skips .panicked (fun next => prefixedRoom (textRoom next)) (readPrefixedText .panicked >>= fun text =>
      pure (f text)) :=
  (guards_prefixed.bind guards_text).then fun text => skips_pure (f text)

private theorem skips_columnValue (blob : Bool) : Skips .panicked (valueFits blob) (readColumnValue blob) := by
  refine @Guards.then _ _ _ _ _ (taggedFits blob) _ _ (guards_word 1) fun tag => ?_
  match tag with
  | 0 => exact skips_pure _
  | 1 => exact skips_word 1 _
  | 2 | 3 => exact skips_word 8 _
  | 4 => exact skips_prefixedText _
  | 5 => exact guards_prefixed.then fun raw => skips_pure (ColumnValue.binary raw)
  | 6 =>
    cases blob with
    | true => exact guards_prefixed.then fun raw => skips_pure (ColumnValue.blob raw)
    | false => exact skips_fail (by simp [invalidData])
  | _ + 7 => exact skips_fail (by simp [invalidData])

private theorem skips_fields (blob : Bool) (count : Nat) (row : Map String ColumnValue) :
    Skips .panicked (columnsFit blob count) (readFields .panicked (readColumnValue blob) count row) := by
  induction count generalizing row with
  | zero => exact skips_pure row
  | succ count ih =>
    have named : Guards .panicked (fun next => room 2 fun len => room (ofLe len) fun raw rest =>
        (fromUtf8 raw).all (fun name => next name rest)) (readName .panicked) :=
      (guards_word 2).bind fun len => (guards_take len).bind guards_text
    exact named.then fun name => (skips_columnValue blob).then fun value => ih (row.insert name value)

private theorem skips_row (blob : Bool) : Skips .panicked (rowFits blob) (readRow blob) :=
  @Guards.then _ _ _ _ _ (columnsFit blob) _ _ (guards_word 4) fun count => skips_fields blob count ∅

private theorem skips_rows (count : Nat) : Skips .panicked (rowsFit count) (readMany (readRow true) count) := by
  induction count with
  | zero => exact skips_pure []
  | succ count ih =>
    exact (skips_row true).then fun row => ih.then fun rows => skips_pure (row :: rows)

private theorem skips_u64 : Skips .panicked (fun next => room 8 fun _ => next) (readU64 .panicked) :=
  skips_word 8 UInt64.ofNat

private theorem skips_u64_last (f : UInt64 → WalRecord) :
    Skips .panicked (fun next => room 8 fun _ => next) (readU64 .panicked >>= fun value => pure (f value)) :=
  skips_u64.then fun value => skips_pure (f value)

/-! The decoder of updates checks every length. -/

private theorem never_readMany {α : Type} {read : Reader Failure α} (each : Never .panicked read) (count : Nat) :
    Never .panicked (readMany read count) := by
  induction count with
  | zero => exact never_pure []
  | succ count ih => exact each.bind fun item => ih.bind fun rest => never_pure (item :: rest)

private theorem never_text (raw : Bytes) : Never .panicked (Reader.lift (readText raw)) := by
  refine never_lift ?_
  unfold readText
  split <;> nofun

private theorem emptyValue_ne : emptyValue ≠ .panicked := nofun

private theorem invalidTag_ne : invalidData "Invalid UPDATE value tag" ≠ .panicked := nofun

private theorem readJson_ne {ext : External} (raw : Bytes) : readJson ext raw ≠ .error .panicked := by
  unfold readJson
  cases ext.jsonFromSlice raw <;> rintro ⟨⟩

private theorem truncatedValue_ne : truncatedValue ≠ .panicked := nofun

private theorem never_word_last {β : Type} (width : Nat) (f : Nat → β) :
    Never .panicked (word truncatedValue width >>= fun value => pure (f value)) :=
  (never_word truncatedValue_ne width).bind fun value => never_pure (f value)

private theorem never_prefixed {short : Failure} (other : short ≠ .panicked) : Never .panicked (readPrefixed short) :=
  (never_word other 4).bind fun len => never_take other len

private theorem never_prefixed_last {β : Type} (f : Bytes → β) :
    Never .panicked (readPrefixed truncatedValue >>= fun raw => pure (f raw)) :=
  (never_prefixed truncatedValue_ne).bind fun raw => never_pure (f raw)

private theorem never_value (ext : External) (depth : Nat) : Never .panicked (readValueWithin ext depth) := by
  induction depth with
  | zero => exact never_fail emptyValue_ne
  | succ depth ih =>
    refine (never_word emptyValue_ne 1).bind fun tag => ?_
    split
    case h_1 => exact never_pure _
    case h_13 =>
      exact ((never_prefixed truncatedValue_ne).bind never_text).bind fun text => never_pure (Value.string text)
    case h_14 | h_15 | h_16 => exact never_prefixed_last _
    case h_17 =>
      refine ((never_prefixed truncatedValue_ne).bind fun raw => never_lift ?_).bind fun value =>
        never_pure (Value.json value)
      exact readJson_ne raw
    case h_22 =>
      refine (never_word truncatedValue_ne 4).bind fun count => ?_
      exact (never_readMany ih count).bind fun values => never_pure (Value.array values)
    case h_23 => exact never_fail invalidTag_ne
    all_goals exact never_word_last _ _

private theorem never_updateValue (ext : External) : Never .panicked (readUpdateValue ext) := by
  have short : truncatedUpdate ≠ .panicked := nofun
  refine (never_prefixed short).bind fun raw => never_lift ?_
  have read := never_value ext raw.length raw
  unfold readValue
  cases decoded : readValueWithin ext raw.length raw with
  | error error =>
    rw [decoded] at read
    exact fun same => read (congrArg _ (Except.error.inj same))
  | ok pair =>
    simp only [bind,Except.bind]
    split <;> nofun

private theorem never_fields {V : Type} {read : Reader Failure V} {short : Failure} (other : short ≠ .panicked)
    (each : Never .panicked read) (count : Nat) (row : Map String V) :
    Never .panicked (readFields short read count row) := by
  induction count generalizing row with
  | zero => exact never_pure row
  | succ count ih =>
    have named : Never .panicked (readName short) :=
      (never_word other 2).bind fun len => (never_take other len).bind never_text
    exact named.bind fun name => each.bind fun value => ih (row.insert name value)

private theorem never_update (ext : External) : Never .panicked (readRecord ext 10) := by
  have short : truncatedUpdate ≠ .panicked := nofun
  have id : Never .panicked (readU64 truncatedUpdate) := (never_word short 8).bind fun value =>
    never_pure (UInt64.ofNat value)
  refine id.bind fun id' => id.bind fun txnId => Never.bind ?_ fun row => never_pure (WalRecord.update id' row txnId)
  exact (never_word short 4).bind fun count => never_fields short (never_updateValue ext) count ∅

private theorem avoids_true {α : Type} (outcome : Except Failure (α × Bytes)) :
    Avoids .panicked (fun _ _ => true) outcome ↔ outcome ≠ .error .panicked := by
  cases outcome <;> simp [Avoids]

private theorem readRecord_panics (ext : External) (recordType : Nat) (body : Bytes) :
    bodyFits recordType body = true ↔ readRecord ext recordType body ≠ .error .panicked := by
  have walked {walk : (Bytes → Bool) → Bytes → Bool} (skips : Skips .panicked walk (readRecord ext recordType)) :
      walk (fun _ => true) body = true ↔ readRecord ext recordType body ≠ .error .panicked :=
    (skips _ body).trans (avoids_true _)
  match recordType with
  | 0 => exact iff_of_true rfl nofun
  | 1 => exact walked (skips_u64.then fun id => (skips_row true).then fun row => skips_pure (WalRecord.insert id row 0))
  | 2 => exact walked (skips_u64_last fun id => WalRecord.delete id 0)
  | 3 => exact walked (skips_u64_last WalRecord.checkpoint)
  | 4 =>
    have rows (startId : UInt64) := @Guards.then _ _ _ Failure.panicked _ rowsFit _ _ (guards_word 4) fun count =>
      (skips_rows count).then fun rows => skips_pure (WalRecord.batchInsert startId rows 0)
    exact walked (skips_u64.then rows)
  | 5 => exact walked (skips_u64_last WalRecord.txnBegin)
  | 6 => exact walked (skips_u64_last WalRecord.txnCommit)
  | 7 => exact walked (skips_u64_last WalRecord.txnRollback)
  | 8 => exact walked (skips_u64.then fun id => skips_u64.then fun txnId =>
      (skips_row false).then fun row => skips_pure (WalRecord.insert id row txnId))
  | 9 => exact walked (skips_u64.then fun id => skips_u64_last (WalRecord.delete id))
  | 10 => exact iff_of_true rfl (never_update ext body)
  | _ + 11 => exact iff_of_true rfl nofun

def announced (bytes : Bytes) : Nat := 13 + ofLe ((bytes.drop 9).take 4)

def verified (ext : External) (bytes : Bytes) (version : Nat) (record : WalRecord) : Except Failure (WalRecord × Nat) :=
  if walVersion ≤ version then
    if bytes.length < announced bytes + 4 then .error (invalidData "WAL record truncated (missing CRC)")
    else if ofLe ((bytes.drop (announced bytes)).take 4) ≠ (ext.crc32 (bytes.take (announced bytes))).toNat then
      .error (invalidData "WAL record CRC mismatch")
    else .ok (record,announced bytes + 4)
  else .ok (record,announced bytes)

private theorem decode_whole (ext : External) {bytes : Bytes} (version : Nat) (header : ¬ bytes.length < 13)
    (body : ¬ bytes.length < announced bytes) : fromBytesVersioned ext bytes version =
      (readRecord ext (ofLe (bytes.take 1)) ((bytes.take (announced bytes)).drop 13) >>= fun read =>
        verified ext bytes version read.1) := by
  have nonempty : ¬ bytes.isEmpty = true := by
    rw [List.isEmpty_iff]
    rintro rfl
    exact header (by decide)
  unfold fromBytesVersioned
  rw [if_neg nonempty,if_neg header]
  exact if_neg body

private theorem decode_cut (ext : External) {bytes : Bytes} (version : Nat)
    (short : bytes.length < 13 ∨ bytes.length < announced bytes) :
    ∃ message, fromBytesVersioned ext bytes version = .error (invalidData message) := by
  unfold fromBytesVersioned
  split
  · exact ⟨_,rfl⟩
  split
  · exact ⟨_,rfl⟩
  · rename_i header
    exact ⟨_,if_pos (short.resolve_left header)⟩

private theorem verified_cases (ext : External) (bytes : Bytes) (version : Nat) (record : WalRecord) :
    (∃ len, verified ext bytes version record = .ok (record,len) ∧ announced bytes ≤ len) ∨
    ∃ message, verified ext bytes version record = .error (invalidData message) := by
  unfold verified
  split
  · split
    · exact Or.inr ⟨_,rfl⟩
    · split
      · exact Or.inr ⟨_,rfl⟩
      · exact Or.inl ⟨_,rfl,Nat.le_add_right _ _⟩
  · exact Or.inl ⟨_,rfl,le_rfl⟩

private theorem decode_panics (ext : External) (bytes : Bytes) (version : Nat) :
    recordFits bytes = true ↔ fromBytesVersioned ext bytes version ≠ .error .panicked := by
  by_cases header : bytes.length < 13
  · obtain ⟨message,failed⟩ := decode_cut ext version (Or.inl header)
    rw [recordFits,if_pos header,failed]
    exact iff_of_true rfl nofun
  by_cases body : bytes.length < announced bytes
  · obtain ⟨message,failed⟩ := decode_cut ext version (Or.inr body)
    have fits : recordFits bytes = true := (if_neg header).trans (if_pos body)
    rw [fits,failed]
    exact iff_of_true rfl nofun
  have fits : recordFits bytes = bodyFits (ofLe (bytes.take 1)) ((bytes.take (announced bytes)).drop 13) :=
    (if_neg header).trans (if_neg body)
  rw [fits,readRecord_panics ext,decode_whole ext version header body]
  cases readRecord ext (ofLe (bytes.take 1)) ((bytes.take (announced bytes)).drop 13) with
  | error error => simp [bind,Except.bind]
  | ok pair =>
    refine iff_of_true nofun ?_
    rcases verified_cases ext bytes version pair.1 with ⟨len,checked,_⟩ | ⟨message,failed⟩
    · exact fun same => nomatch checked.symm.trans same
    · exact fun same => nomatch failed.symm.trans same

section
variable {ext : External} {bytes : Bytes} {version len : Nat} {record : WalRecord}

private theorem of_decode (decoded : fromBytesVersioned ext bytes version = .ok (record,len)) :
    13 ≤ bytes.length ∧ announced bytes ≤ bytes.length ∧ verified ext bytes version record = .ok (record,len) ∧
      ∃ rest, readRecord ext (ofLe (bytes.take 1)) ((bytes.take (announced bytes)).drop 13) = .ok (record,rest) := by
  by_cases short : bytes.length < 13 ∨ bytes.length < announced bytes
  · obtain ⟨message,failed⟩ := decode_cut ext version short
    rw [failed] at decoded
    cases decoded
  rw [not_or] at short
  rw [decode_whole ext version short.1 short.2] at decoded
  obtain ⟨read,body,checked⟩ := bind_eq_ok.mp decoded
  rcases verified_cases ext bytes version read.1 with ⟨consumed,same,_⟩ | ⟨message,failed⟩
  · rw [same] at checked
    cases checked
    exact ⟨by omega,by omega,same,read.2,body⟩
  · rw [failed] at checked
    cases checked

private theorem verified_len (checked : verified ext bytes version record = .ok (record,len))
    (body : announced bytes ≤ bytes.length) :
    announced bytes ≤ len ∧ len ≤ bytes.length := by
  unfold verified at checked
  split at checked
  · split at checked
    · cases checked
    · rename_i enough
      split at checked
      · cases checked
      · cases checked
        omega
  · cases checked
    omega

private theorem decode_len (decoded : fromBytesVersioned ext bytes version = .ok (record,len)) :
    13 ≤ len ∧ len ≤ bytes.length := by
  obtain ⟨_,body,checked,_⟩ := of_decode decoded
  have consumed := verified_len checked body
  unfold announced at consumed
  omega

end

/-! The scan. -/

open WalReader

variable {ext : External} {version : Nat}

private theorem readRecords_ok {bytes : Bytes} {record : WalRecord} {len : Nat} (turns pos : Nat)
    (decoded : fromBytesVersioned ext bytes version = .ok (record,len)) :
    readRecords ext version (turns + 1) pos bytes =
      (readRecords ext version turns (pos + len) (bytes.drop len)).map ((pos,record) :: ·) := by
  have nonempty : ¬ bytes.isEmpty = true := by
    rw [List.isEmpty_iff]
    rintro rfl
    cases decoded
  rw [readRecords,if_neg nonempty,decoded]

private theorem readRecords_stop {bytes : Bytes} {failure : Failure} (turns pos : Nat) (other : failure ≠ .panicked)
    (failed : fromBytesVersioned ext bytes version = .error failure) :
    readRecords ext version turns pos bytes = .ok [] := by
  cases turns with
  | zero => rfl
  | succ turns =>
    rw [readRecords]
    split
    · rfl
    · rw [failed]
      cases failure <;> simp at other ⊢

private theorem readRecords_panic {bytes : Bytes} (turns pos : Nat)
    (failed : fromBytesVersioned ext bytes version = .error .panicked) :
    readRecords ext version (turns + 1) pos bytes = .error .panicked := by
  have nonempty : ¬ bytes.isEmpty = true := by
    rw [List.isEmpty_iff]
    rintro rfl
    cases failed
  rw [readRecords,if_neg nonempty,failed]

private theorem Reached.after {start bytes : Bytes} {record : WalRecord} {len : Nat}
    (decoded : fromBytesVersioned ext start version = .ok (record,len))
    (later : Reached ext version (start.drop len) bytes) :
    Reached ext version start bytes := by
  induction later with
  | first => exact Reached.first.next decoded
  | next _ decoded ih => exact ih.next decoded

private theorem Reached.split {start bytes : Bytes} (reached : Reached ext version start bytes) :
    bytes = start ∨ ∃ record len, fromBytesVersioned ext start version = .ok (record,len) ∧
      Reached ext version (start.drop len) bytes := by
  induction reached with
  | first => exact Or.inl rfl
  | next _ decoded ih =>
    rcases ih with rfl | ⟨record,len,first,later⟩
    · exact Or.inr ⟨_,_,decoded,.first⟩
    · exact Or.inr ⟨record,len,first,later.next decoded⟩

private theorem scan_panics (ext : External) (version turns pos : Nat) (bytes : Bytes) (enough : bytes.length ≤ turns) :
    readRecords ext version turns pos bytes ≠ .error .panicked ↔ ∀ suffix, Reached ext version bytes suffix →
    recordFits suffix = true := by
  induction turns generalizing pos bytes with
  | zero =>
    have empty : bytes = [] := List.eq_nil_of_length_eq_zero (by omega)
    subst empty
    refine iff_of_true nofun fun suffix reached => ?_
    rcases reached.split with rfl | ⟨record,len,decoded,_⟩
    · rfl
    · cases decoded
  | succ turns ih =>
    cases decoded : fromBytesVersioned ext bytes version with
    | ok pair =>
      obtain ⟨record,len⟩ := pair
      obtain ⟨least,most⟩ := decode_len decoded
      have shorter : (bytes.drop len).length ≤ turns := by
        rw [List.length_drop]
        omega
      have here : recordFits bytes = true := (decode_panics ext bytes version).mpr (by rw [decoded]; nofun)
      have later := ih (pos + len) (bytes.drop len) shorter
      rw [readRecords_ok turns pos decoded]
      have mapped : (readRecords ext version turns (pos + len) (bytes.drop len)).map ((pos,record) :: ·) ≠
        .error .panicked ↔
          readRecords ext version turns (pos + len) (bytes.drop len) ≠ .error .panicked := by
        cases readRecords ext version turns (pos + len) (bytes.drop len) <;> simp [Except.map]
      rw [mapped,later]
      constructor
      · intro fits suffix reached
        rcases reached.split with rfl | ⟨other,size,again,rest⟩
        · exact here
        · rw [decoded] at again
          cases again
          exact fits suffix rest
      · exact fun fits suffix reached => fits suffix (reached.after decoded)
    | error failure =>
      have only (suffix : Bytes) (reached : Reached ext version bytes suffix) : suffix = bytes := by
        rcases reached.split with same | ⟨_,_,again,_⟩
        · exact same
        · rw [decoded] at again
          cases again
      have here := decode_panics ext bytes version
      rw [decoded] at here
      by_cases panics : failure = .panicked
      · subst panics
        rw [readRecords_panic turns pos decoded]
        refine iff_of_false (fun other => other rfl) fun fits => ?_
        exact here.mp (fits bytes .first) rfl
      · rw [readRecords_stop _ pos panics decoded]
        refine iff_of_true nofun fun suffix reached => ?_
        rw [only suffix reached]
        exact here.mpr (fun same => panics (Except.error.inj same))

def scan (ext : External) (version : Nat) (bytes : Bytes) : Except Failure (List WalRecord) :=
  (readRecords ext version bytes.length 0 bytes).map (List.map (·.2))

private theorem scan_eq (turns pos : Nat) (bytes : Bytes) (enough : bytes.length ≤ turns) :
    (readRecords ext version turns pos bytes).map (List.map (·.2)) = scan ext version bytes := by
  suffices same : ∀ turns others pos start bytes, bytes.length ≤ turns → bytes.length ≤ others →
      (readRecords ext version turns pos bytes).map (List.map (·.2)) =
        (readRecords ext version others start bytes).map (List.map (·.2)) from
    same turns _ pos 0 bytes enough le_rfl
  clear enough bytes pos turns
  intro turns
  induction turns with
  | zero =>
    intro others pos start bytes enough _
    have empty : bytes = [] := List.eq_nil_of_length_eq_zero (by omega)
    subst empty
    cases others <;> rfl
  | succ turns ih =>
    intro others pos start bytes enough more
    cases decoded : fromBytesVersioned ext bytes version with
    | ok pair =>
      obtain ⟨record,len⟩ := pair
      obtain ⟨least,most⟩ := decode_len decoded
      obtain ⟨others,rfl⟩ : ∃ fewer, others = fewer + 1 := ⟨others - 1,by omega⟩
      have rest := ih others (pos + len) (start + len) (bytes.drop len) (by rw [List.length_drop]; omega)
        (by rw [List.length_drop]; omega)
      rw [readRecords_ok turns pos decoded,readRecords_ok others start decoded]
      revert rest
      cases readRecords ext version turns (pos + len) (bytes.drop len) <;>
        cases readRecords ext version others (start + len) (bytes.drop len) <;> simp [Except.map]
    | error failure =>
      by_cases panics : failure = .panicked
      · subst panics
        cases others with
        | zero =>
          have empty : bytes = [] := List.eq_nil_of_length_eq_zero (by omega)
          subst empty
          cases decoded
        | succ others => rw [readRecords_panic turns pos decoded,readRecords_panic others start decoded]
      · rw [readRecords_stop _ pos panics decoded,readRecords_stop _ start panics decoded]

private theorem scan_ok {bytes : Bytes} {record : WalRecord} {len : Nat}
    (decoded : fromBytesVersioned ext bytes version = .ok (record,len)) :
    scan ext version bytes = (scan ext version (bytes.drop len)).map (record :: ·) := by
  obtain ⟨least,most⟩ := decode_len decoded
  rw [← scan_eq (bytes.length + 1) 0 bytes (Nat.le_succ _),readRecords_ok bytes.length 0 decoded,
    ← scan_eq bytes.length (0 + len) (bytes.drop len) (by rw [List.length_drop]; omega)]
  cases readRecords ext version bytes.length (0 + len) (bytes.drop len) <;> rfl

private theorem scan_stop {bytes : Bytes} {failure : Failure} (other : failure ≠ .panicked)
    (failed : fromBytesVersioned ext bytes version = .error failure) : scan ext version bytes = .ok [] := by
  rw [scan,readRecords_stop _ 0 other failed]
  rfl

private theorem scan_panic {bytes : Bytes} (failed : fromBytesVersioned ext bytes version = .error .panicked) :
    scan ext version bytes = .error .panicked := by
  rw [← scan_eq (bytes.length + 1) 0 bytes (Nat.le_succ _),readRecords_panic _ 0 failed]
  rfl

/-! Cuts. -/

private theorem decode_take {bytes : Bytes} {record : WalRecord} {len : Nat} (cut : Nat)
    (decoded : fromBytesVersioned ext bytes walVersion = .ok (record,len)) :
    (len ≤ cut → fromBytesVersioned ext (bytes.take cut) walVersion = .ok (record,len)) ∧
    (cut < len → ∃ message, fromBytesVersioned ext (bytes.take cut) walVersion = .error (invalidData message)) := by
  obtain ⟨header,body,checked,rest,read⟩ := of_decode decoded
  have whole : len = announced bytes + 4 ∧ announced bytes + 4 ≤ bytes.length ∧
      ofLe ((bytes.drop (announced bytes)).take 4) = (ext.crc32 (bytes.take (announced bytes))).toNat := by
    unfold verified at checked
    rw [if_pos le_rfl] at checked
    split at checked
    · cases checked
    · rename_i enough
      split at checked
      · cases checked
      · rename_i same
        cases checked
        exact ⟨rfl,by omega,not_not.mp same⟩
  obtain ⟨rfl,enough,crc⟩ := whole
  have base : 13 ≤ announced bytes := Nat.le_add_right _ _
  by_cases small : cut < 13
  · refine ⟨fun long => by omega,fun _ => decode_cut ext walVersion (Or.inl ?_)⟩
    rw [List.length_take]
    omega
  have same : announced (bytes.take cut) = announced bytes := by
    unfold announced
    rw [List.drop_take,List.take_take,Nat.min_eq_left (by omega)]
  by_cases torn : cut < announced bytes
  · refine ⟨fun long => by omega,fun _ => decode_cut ext walVersion (Or.inr ?_)⟩
    rw [same,List.length_take]
    omega
  have tag : (bytes.take cut).take 1 = bytes.take 1 := by rw [List.take_take,Nat.min_eq_left (by omega)]
  have part : (bytes.take cut).take (announced bytes) = bytes.take (announced bytes) := by
    rw [List.take_take,Nat.min_eq_left (by omega)]
  have shape : fromBytesVersioned ext (bytes.take cut) walVersion =
    verified ext (bytes.take cut) walVersion record := by
    rw [decode_whole ext walVersion (by rw [List.length_take]; omega) (by rw [same,List.length_take]; omega),same,tag,
      part,read]
    rfl
  rw [shape]
  unfold verified
  rw [if_pos le_rfl,same,part,List.length_take]
  constructor
  · intro long
    have checksum : ((bytes.take cut).drop (announced bytes)).take 4 = (bytes.drop (announced bytes)).take 4 := by
      rw [List.drop_take,List.take_take,Nat.min_eq_left (by omega)]
    rw [if_neg (by omega),checksum,if_neg (not_not.mpr crc)]
  · intro short
    exact ⟨_,if_pos (by omega)⟩

def recordBytes (ext : External) (entries : List (Int64 × WalRecord)) : Bytes :=
  entries.flatMap (fun e => e.2.toBytes ext e.1)

def contained (ext : External) : Nat → List (Int64 × WalRecord) → List WalRecord
  | _,[] => []
  | room,e :: rest =>
    if (e.2.toBytes ext e.1).length ≤ room then e.2 :: contained ext (room - (e.2.toBytes ext e.1).length) rest else []

def AtBoundary (ext : External) (entries : List (Int64 × WalRecord)) (room : Nat) : Prop :=
  ∃ done rest, entries = done ++ rest ∧ room = (recordBytes ext done).length

def AllSurvive (ext : External) (entries : List (Int64 × WalRecord)) : Prop := ∀ e ∈ entries, Survives ext e.2

def ReadsBack (outcome : Except Failure (List WalRecord)) (expected : List WalRecord) : Prop :=
  ∃ records, outcome = .ok records ∧ List.Forall₂ WalRecord.Same records expected

variable {entries done more : List (Int64 × WalRecord)}

private theorem recordBytes_cons (e : Int64 × WalRecord) (rest : List (Int64 × WalRecord)) :
    recordBytes ext (e :: rest) = e.2.toBytes ext e.1 ++ recordBytes ext rest := List.flatMap_cons

private theorem recordBytes_append (first second : List (Int64 × WalRecord)) :
    recordBytes ext (first ++ second) = recordBytes ext first ++ recordBytes ext second := List.flatMap_append

private theorem length_toBytes_pos (record : WalRecord) (timestamp : Int64) :
    0 < (record.toBytes ext timestamp).length := by
  rw [WalRecord.toBytes,length_frame]
  omega

private theorem scan_append (survive : AllSurvive ext done) (tail : Bytes) :
    ∃ records, List.Forall₂ WalRecord.Same records (done.map (·.2)) ∧
      scan ext walVersion (recordBytes ext done ++ tail) = (scan ext walVersion tail).map (records ++ ·) := by
  induction done with
  | nil =>
    refine ⟨[],.nil,?_⟩
    change scan ext walVersion tail = _
    cases scan ext walVersion tail <;> rfl
  | cons e rest ih =>
    obtain ⟨first,others⟩ := List.forall_mem_cons.mp survive
    obtain ⟨records,same,scanned⟩ := ih others
    obtain ⟨decoded,ok,equal⟩ := first.decodes e.1 (recordBytes ext rest ++ tail)
    refine ⟨decoded :: records,.cons equal same,?_⟩
    rw [recordBytes_cons,List.append_assoc,scan_ok ok,List.drop_left,scanned]
    cases scan ext walVersion tail <;> rfl

private theorem cut_split (ext : External) (entries : List (Int64 × WalRecord)) (room : Nat) :
    ∃ done rest torn, entries = done ++ rest ∧ (recordBytes ext entries).take room = recordBytes ext done ++ torn ∧
      contained ext room entries = done.map (·.2) ∧
      (torn = [] ∧ (room = (recordBytes ext done).length ∨ rest = []) ∨
        ∃ e later size, rest = e :: later ∧ 0 < size ∧ size < (e.2.toBytes ext e.1).length ∧
          torn = (e.2.toBytes ext e.1).take size) := by
  induction entries generalizing room with
  | nil => exact ⟨[],[],[],rfl,List.take_nil,rfl,Or.inl ⟨rfl,Or.inr rfl⟩⟩
  | cons e later ih =>
    by_cases fits : (e.2.toBytes ext e.1).length ≤ room
    · obtain ⟨done,rest,torn,split,cut,inside,shape⟩ := ih (room - (e.2.toBytes ext e.1).length)
      refine ⟨e :: done,rest,torn,by rw [split,List.cons_append],?_,?_,?_⟩
      · rw [recordBytes_cons,List.take_append,List.take_of_length_le fits,cut,recordBytes_cons,List.append_assoc]
      · rw [contained,if_pos fits,inside,List.map_cons]
      · rcases shape with ⟨empty,exact_ | last⟩ | inner
        · refine Or.inl ⟨empty,Or.inl ?_⟩
          rw [recordBytes_cons,List.length_append]
          omega
        · exact Or.inl ⟨empty,Or.inr last⟩
        · exact Or.inr inner
    · have cut : (recordBytes ext (e :: later)).take room = (e.2.toBytes ext e.1).take room := by
        rw [recordBytes_cons,List.take_append_of_le_length (by omega)]
      have none : contained ext room (e :: later) = [] := by rw [contained,if_neg fits]
      by_cases zero : room = 0
      · subst zero
        exact ⟨[],e :: later,[],rfl,by rw [cut,List.take_zero]; rfl,none,Or.inl ⟨rfl,Or.inl rfl⟩⟩
      · exact ⟨[],e :: later,_,rfl,cut,none,Or.inr ⟨e,later,room,rfl,by omega,by omega,rfl⟩⟩

private theorem scan_torn {e : Int64 × WalRecord} (survived : Survives ext e.2) {size : Nat}
    (short : size < (e.2.toBytes ext e.1).length) : scan ext walVersion ((e.2.toBytes ext e.1).take size) = .ok [] := by
  obtain ⟨decoded,ok,_⟩ := survived.decodes e.1 []
  rw [List.append_nil] at ok
  obtain ⟨message,failed⟩ := (decode_take size ok).2 short
  have other : invalidData message ≠ .panicked := nofun
  exact scan_stop other failed

private theorem scan_nil : scan ext version [] = .ok [] := rfl

private theorem scan_contained (survive : AllSurvive ext entries) (room : Nat) :
    ReadsBack (scan ext walVersion ((recordBytes ext entries).take room)) (contained ext room entries) := by
  obtain ⟨done,rest,torn,rfl,cut,inside,shape⟩ := cut_split ext entries room
  obtain ⟨records,same,scanned⟩ := scan_append (fun e member => survive e (List.mem_append_left _ member)) torn
  have stops : scan ext walVersion torn = .ok [] := by
    rcases shape with ⟨rfl,_⟩ | ⟨e,later,size,rfl,_,short,rfl⟩
    · exact scan_nil
    · exact scan_torn (survive e (List.mem_append_right _ List.mem_cons_self)) short
  refine ⟨records,?_,inside ▸ same⟩
  rw [cut,scanned,stops]
  exact congrArg Except.ok (List.append_nil records)

private theorem contained_zero (entries : List (Int64 × WalRecord)) : contained ext 0 entries = [] := by
  cases entries with
  | nil => rfl
  | cons e rest =>
    have positive : 0 < (e.2.toBytes ext e.1).length := length_toBytes_pos e.2 e.1
    rw [contained,if_neg (by omega)]

private theorem contained_cons (e : Int64 × WalRecord) (rest : List (Int64 × WalRecord)) (room : Nat) :
    contained ext ((e.2.toBytes ext e.1).length + room) (e :: rest) = e.2 :: contained ext room rest := by
  rw [contained,if_pos (Nat.le_add_right _ _),Nat.add_sub_cancel_left]

private theorem contained_boundary (done rest : List (Int64 × WalRecord)) :
    contained ext (recordBytes ext done).length (done ++ rest) = done.map (·.2) := by
  induction done with
  | nil => exact contained_zero rest
  | cons e later ih => rw [recordBytes_cons,List.length_append,List.cons_append,contained_cons,ih,List.map_cons]

private theorem scan_cons {bytes : Bytes} {record : WalRecord} {records : List WalRecord}
    (scanned : scan ext version bytes = .ok (record :: records)) :
    ∃ len, fromBytesVersioned ext bytes version = .ok (record,len) ∧ scan ext version (bytes.drop len) =
    .ok records := by
  cases decoded : fromBytesVersioned ext bytes version with
  | ok pair =>
    rw [scan_ok decoded] at scanned
    obtain ⟨rest,ok,same⟩ := map_eq_ok.mp scanned
    cases same
    exact ⟨pair.2,rfl,ok⟩
  | error failure =>
    by_cases panics : failure = .panicked
    · subst panics
      rw [scan_panic decoded] at scanned
      cases scanned
    · rw [scan_stop panics decoded] at scanned
      cases scanned

private theorem survive_of_cuts
    (reads : ∀ room, ReadsBack (scan ext walVersion ((recordBytes ext entries).take room))
      (contained ext room entries)) :
    AllSurvive ext entries := by
  induction entries with
  | nil => exact fun e member => nomatch member
  | cons e rest ih =>
    have first : Survives ext e.2 := by
      obtain ⟨records,scanned,same⟩ := reads (e.2.toBytes ext e.1).length
      have here : contained ext ((e.2.toBytes ext e.1).length + 0) (e :: rest) = e.2 :: contained ext 0 rest :=
        contained_cons e rest 0
      rw [Nat.add_zero,contained_zero] at here
      rw [here] at same
      obtain ⟨decoded,others,equal,_,rfl⟩ := List.forall₂_cons_right_iff.mp same
      rw [recordBytes_cons,List.take_left] at scanned
      obtain ⟨len,ok,_⟩ := scan_cons scanned
      have most := (decode_len ok).2
      -- A shorter record would be returned by a cut that does not contain it.
      have whole : len = (e.2.toBytes ext e.1).length := by
        by_contra shorter
        obtain ⟨records,scanned,same⟩ := reads len
        have again := (decode_take len ok).1 le_rfl
        rw [recordBytes_cons,List.take_append_of_le_length most,scan_ok again] at scanned
        rw [contained,if_neg (by omega)] at same
        cases same
        obtain ⟨_,_,impossible⟩ := map_eq_ok.mp scanned
        cases impossible
      subst whole
      have alone : fromBytesVersioned ext (e.2.toBytes ext e.1 ++ []) walVersion =
        .ok (decoded,(e.2.toBytes ext e.1).length) := by
        rw [List.append_nil]
        exact ok
      exact survives_of_decodes alone equal
    refine List.forall_mem_cons.mpr ⟨first,ih fun room => ?_⟩
    obtain ⟨records,scanned,same⟩ := reads ((e.2.toBytes ext e.1).length + room)
    obtain ⟨decoded,ok,_⟩ := first.decodes e.1 ((recordBytes ext rest).take room)
    rw [recordBytes_cons,List.take_length_add_append,scan_ok ok,List.drop_left] at scanned
    rw [contained_cons] at same
    obtain ⟨others,read,rfl⟩ := map_eq_ok.mp scanned
    exact ⟨others,read,(List.forall₂_cons.mp same).2⟩

/-! Appending after a cut. -/

private theorem of_last {α β : Type} {reader : Reader Failure α} {f : α → β} {bytes rest : Bytes} {result : β}
    (ok : (reader >>= fun value => pure (f value)) bytes = .ok (result,rest)) : ∃ value, result = f value := by
  obtain ⟨value,_,_,ok⟩ := of_bind ok
  exact ⟨value,of_pure ok⟩

private theorem readRecord_type {recordType : Nat} {body rest : Bytes} {record : WalRecord}
    (ok : readRecord ext recordType body = .ok (record,rest)) (txnId : UInt64) :
    (record = .txnBegin txnId → recordType = recordTxnBegin) ∧ (record = .txnCommit txnId →
      recordType = recordTxnCommit) := by
  match recordType with
  | 0 => cases ok
  | 1 =>
    obtain ⟨_,_,_,ok⟩ := of_bind ok
    obtain ⟨_,rfl⟩ := of_last ok
    exact ⟨nofun,nofun⟩
  | 2 | 3 | 7 =>
    obtain ⟨_,rfl⟩ := of_last ok
    exact ⟨nofun,nofun⟩
  | 4 =>
    obtain ⟨_,_,_,ok⟩ := of_bind ok
    obtain ⟨_,_,_,ok⟩ := of_bind ok
    obtain ⟨_,rfl⟩ := of_last ok
    exact ⟨nofun,nofun⟩
  | 5 =>
    obtain ⟨_,rfl⟩ := of_last ok
    exact ⟨fun _ => rfl,nofun⟩
  | 6 =>
    obtain ⟨_,rfl⟩ := of_last ok
    exact ⟨nofun,fun _ => rfl⟩
  | 8 | 10 =>
    obtain ⟨_,_,_,ok⟩ := of_bind ok
    obtain ⟨_,_,_,ok⟩ := of_bind ok
    obtain ⟨_,rfl⟩ := of_last ok
    exact ⟨nofun,nofun⟩
  | 9 =>
    obtain ⟨_,_,_,ok⟩ := of_bind ok
    obtain ⟨_,rfl⟩ := of_last ok
    exact ⟨nofun,nofun⟩
  | _ + 11 => cases ok

def otherThan (record : WalRecord) : WalRecord :=
  if record.recordType = recordTxnBegin then .txnCommit 0 else .txnBegin 0

private theorem otherThan_survives (record : WalRecord) : Survives ext (otherThan record) := by
  unfold otherThan
  split <;> exact ⟨(by decide : 8 < 2^32),trivial⟩

private theorem torn_hides (e : Int64 × WalRecord) {size : Nat} (positive : 0 < size)
    (appended : Bytes) (short : size < (e.2.toBytes ext e.1).length) :
    ¬ ReadsBack (scan ext walVersion ((e.2.toBytes ext e.1).take size ++ appended)) [otherThan e.2] := by
  rintro ⟨records,scanned,same⟩
  obtain ⟨decoded,others,equal,_,rfl⟩ := List.forall₂_cons_right_iff.mp same
  obtain ⟨len,ok,_⟩ := scan_cons scanned
  obtain ⟨_,_,_,rest,read⟩ := of_decode ok
  have tag : ofLe (((e.2.toBytes ext e.1).take size ++ appended).take 1) = e.2.recordType := by
    have header := (frame_header ext e.2.recordType e.1 (e.2.data ext) [] (recordType_lt e.2)).1
    rw [List.append_nil] at header
    rw [List.take_append_of_le_length (by rw [List.length_take]; omega),List.take_take,Nat.min_eq_left positive]
    exact header
  rw [tag] at read
  obtain ⟨begins,commits⟩ := readRecord_type read 0
  unfold otherThan at equal
  split at equal
  · rename_i begun
    cases decoded with
    | txnCommit txnId =>
      have same : txnId = 0 := equal
      subst same
      have impossible := (commits rfl).symm.trans begun
      exact absurd impossible (by decide)
    | _ => exact equal
  · rename_i other
    cases decoded with
    | txnBegin txnId =>
      have same : txnId = 0 := equal
      subst same
      exact other (begins rfl)
    | _ => exact equal

private theorem appended_iff (survive : AllSurvive ext entries) {room : Nat}
    (within : room ≤ (recordBytes ext entries).length) :
    (∀ more, AllSurvive ext more → ReadsBack
      (scan ext walVersion ((recordBytes ext entries).take room ++ recordBytes ext more))
      (contained ext room entries ++ more.map (·.2))) ↔ AtBoundary ext entries room := by
  obtain ⟨done,rest,torn,rfl,cut,inside,shape⟩ := cut_split ext entries room
  have doneSurvive : AllSurvive ext done := fun e member => survive e (List.mem_append_left _ member)
  rw [cut,inside]
  rcases shape with ⟨rfl,place⟩ | ⟨e,later,size,rfl,positive,short,rfl⟩
  · have boundary : AtBoundary ext (done ++ rest) room := by
      refine ⟨done,rest,rfl,?_⟩
      rcases place with here | rfl
      · exact here
      · have length := congrArg List.length cut
        rw [List.length_take,List.append_nil,List.append_nil] at length
        rw [List.append_nil] at within
        omega
    refine iff_of_true (fun more moreSurvive => ?_) boundary
    have all : AllSurvive ext (done ++ more) := by
      intro e member
      exact (List.mem_append.mp member).elim (doneSurvive e) (moreSurvive e)
    obtain ⟨records,same,scanned⟩ := scan_append all []
    refine ⟨records,?_,by rwa [List.map_append] at same⟩
    rw [List.append_nil,← recordBytes_append]
    rw [List.append_nil,scan_nil] at scanned
    rw [scanned]
    exact congrArg Except.ok (List.append_nil records)
  · refine iff_of_false (fun reads => ?_) ?_
    · obtain ⟨records,scanned,same⟩ := reads [(0,otherThan e.2)] (by
        intro other member
        rw [List.mem_singleton.mp member]
        exact otherThan_survives e.2)
      obtain ⟨first,equal,appended⟩ := scan_append doneSurvive
        ((e.2.toBytes ext e.1).take size ++ recordBytes ext [(0,otherThan e.2)])
      rw [List.append_assoc,appended] at scanned
      obtain ⟨last,read,rfl⟩ := map_eq_ok.mp scanned
      have tail := List.forall₂_drop_append _ _ _ same
      rw [← equal.length_eq,List.drop_left] at tail
      exact torn_hides e positive _ short ⟨last,read,tail⟩
    · rintro ⟨others,tail,split,place⟩
      have length := congrArg List.length cut
      rw [List.length_take,Nat.min_eq_left within,List.length_append,List.length_take,
        Nat.min_eq_left short.le] at length
      have count : others.length = done.length := by
        have again := inside
        rw [split,place,contained_boundary] at again
        simpa using congrArg List.length again
      have same : others = done := by
        have taken := congrArg (List.take done.length) split
        rwa [List.take_left,← count,List.take_left,eq_comm] at taken
      subst same
      omega

/-! The file. -/

def writtenLog (ext : External) (startId : UInt64) (entries : List (Int64 × WalRecord)) : Bytes :=
  ((WalWriter.create startId).appendAll ext entries).file

private theorem file_appendAll (writer : WalWriter) (entries : List (Int64 × WalRecord)) :
    (writer.appendAll ext entries).file = writer.file ++ recordBytes ext entries := by
  induction entries generalizing writer with
  | nil => exact (List.append_nil _).symm
  | cons e rest ih =>
    rw [recordBytes_cons,← List.append_assoc]
    exact ih (writer.append ext e)

private theorem length_header (startId : UInt64) : (WalWriter.header startId).length = walHeaderSize := by
  simp only [WalWriter.header,List.length_append,length_leBytes]
  rfl

private theorem header_magic (startId : UInt64) (tail : Bytes) :
    (WalWriter.header startId ++ tail).take 8 = walMagic := by
  simp only [WalWriter.header,List.append_assoc]
  exact List.take_left' rfl

private theorem open_header (startId : UInt64) (tail : Bytes) :
    WalReader.open (WalWriter.header startId ++ tail) = .ok ⟨WalWriter.header startId ++ tail,walHeaderSize,
      walVersion⟩ := by
  have long : walHeaderSize ≤ (WalWriter.header startId ++ tail).length := by
    rw [List.length_append,length_header]
    exact Nat.le_add_right _ _
  have version : ofLe (((WalWriter.header startId ++ tail).drop 8).take 4) = walVersion := by
    simp only [WalWriter.header,List.append_assoc]
    have magic : walMagic.length = 8 := rfl
    rw [List.drop_left' magic,List.take_left' (length_leBytes _ _)]
    exact ofLe_leBytes_of_lt (by decide)
  rw [WalReader.open,if_pos ⟨long,header_magic startId tail⟩,version]

private theorem readAll_eq (reader : WalReader) :
    reader.readAll ext = scan ext reader.version (reader.data.drop reader.pos) :=
  scan_eq _ _ _ (by rw [List.length_drop]; exact Nat.sub_le _ _)

private theorem readLog_header (startId : UInt64) (tail : Bytes) :
    readLog ext (WalWriter.header startId ++ tail) = scan ext walVersion tail := by
  rw [readLog,open_header]
  change WalReader.readAll ext _ = _
  rw [readAll_eq]
  change scan ext walVersion ((WalWriter.header startId ++ tail).drop walHeaderSize) = _
  rw [← length_header startId,List.drop_left]

private theorem take_log (startId : UInt64) (entries : List (Int64 × WalRecord)) {cut : Nat}
    (long : walHeaderSize ≤ cut) :
    (writtenLog ext startId entries).take cut =
      WalWriter.header startId ++ (recordBytes ext entries).take (cut - walHeaderSize) := by
  have file : writtenLog ext startId entries = WalWriter.header startId ++ recordBytes ext entries :=
    file_appendAll _ entries
  rw [file,List.take_append,length_header,List.take_of_length_le (by rw [length_header]; exact long)]

private theorem length_log (startId : UInt64) (entries : List (Int64 × WalRecord)) :
    (writtenLog ext startId entries).length = walHeaderSize + (recordBytes ext entries).length := by
  have file : writtenLog ext startId entries = WalWriter.header startId ++ recordBytes ext entries :=
    file_appendAll _ entries
  rw [file,List.length_append,length_header]

private theorem readLog_panics (file : Bytes) : readLog ext file ≠ .error .panicked ↔
    ∀ reader, WalReader.open file = .ok reader →
      ∀ suffix, Reached ext reader.version (reader.data.drop reader.pos) suffix → recordFits suffix = true := by
  unfold readLog
  cases opened : WalReader.open file with
  | error error =>
    refine iff_of_true nofun ?_
    intro reader same
    cases same
  | ok reader =>
    have enough : (reader.data.drop reader.pos).length ≤ reader.data.length := by
      rw [List.length_drop]
      exact Nat.sub_le _ _
    have panics := scan_panics ext reader.version reader.data.length reader.pos _ enough
    have mapped : reader.readAll ext ≠ .error .panicked ↔ reader.readAllWithOffsets ext ≠ .error .panicked := by
      unfold WalReader.readAll
      cases reader.readAllWithOffsets ext <;> simp [Except.map]
    refine mapped.trans (panics.trans ?_)
    constructor
    · intro fits other same
      cases same
      exact fits
    · exact fun fits => fits reader rfl

private theorem cut_reads (startId : UInt64) (survive : AllSurvive ext entries) (cut : Nat) :
    ReadsBack (readLog ext ((writtenLog ext startId entries).take cut)) (contained ext (cut - walHeaderSize) entries) ↔
      cut = 0 ∨ walHeaderSize ≤ cut := by
  by_cases long : walHeaderSize ≤ cut
  · rw [take_log startId entries long,readLog_header]
    exact iff_of_true (scan_contained survive _) (Or.inr long)
  by_cases zero : cut = 0
  · subst zero
    rw [List.take_zero,Nat.zero_sub,contained_zero]
    exact iff_of_true ⟨[],rfl,.nil⟩ (Or.inl rfl)
  · refine iff_of_false ?_ (by omega)
    rintro ⟨records,read,_⟩
    have length : ((writtenLog ext startId entries).take cut).length = cut := by
      rw [List.length_take,length_log]
      omega
    have nonempty : ((writtenLog ext startId entries).take cut).isEmpty = false := by
      rw [List.isEmpty_eq_false_iff,← List.length_pos_iff]
      omega
    rw [readLog,WalReader.open,if_neg (fun both => long (by omega)),nonempty] at read
    cases read

private theorem open_writer (startId : UInt64) (tail : Bytes) :
    ∃ count, WalWriter.open (WalWriter.header startId ++ tail) = .ok ⟨WalWriter.header startId ++ tail,count⟩ := by
  have long : ¬ (WalWriter.header startId ++ tail).length < walHeaderSize := by
    rw [List.length_append,length_header]
    omega
  rw [WalWriter.open,if_neg long,if_neg (not_not.mpr (header_magic startId tail))]
  exact ⟨_,rfl⟩

def AppendedReads (ext : External) (cutLog : Bytes) (before : List WalRecord) (more : List (Int64 × WalRecord)) :
    Prop :=
  ∃ writer, WalWriter.open cutLog = .ok writer ∧ ReadsBack (readLog ext (writer.appendAll ext more).file) (before ++
    more.map (·.2))

private theorem appends_read (startId : UInt64) (survive : AllSurvive ext entries) {cut : Nat}
    (within : cut ≤ (writtenLog ext startId entries).length) :
    (∀ more, AllSurvive ext more → AppendedReads ext ((writtenLog ext startId entries).take cut)
      (contained ext (cut - walHeaderSize) entries) more) ↔
      walHeaderSize ≤ cut ∧ AtBoundary ext entries (cut - walHeaderSize) := by
  by_cases long : walHeaderSize ≤ cut
  · rw [take_log startId entries long,and_iff_right long,
      ← appended_iff survive (by rw [length_log] at within; omega)]
    obtain ⟨count,opened⟩ := open_writer startId ((recordBytes ext entries).take (cut - walHeaderSize))
    refine forall₂_congr fun more _ => ?_
    unfold AppendedReads
    rw [opened]
    constructor
    · rintro ⟨writer,same,reads⟩
      cases same
      rwa [file_appendAll,List.append_assoc,readLog_header] at reads
    · intro reads
      refine ⟨_,rfl,?_⟩
      rwa [file_appendAll,List.append_assoc,readLog_header]
  · refine iff_of_false (fun reads => ?_) (fun both => long both.1)
    obtain ⟨writer,opened,_⟩ := reads [] (fun e member => nomatch member)
    rw [WalWriter.open,if_pos (by rw [List.length_take]; omega)] at opened
    cases opened

/-- A log read after damage. Decoding, and a scan, run past the end of a body exactly where a record
that is reached announces more than its body holds. Cut anywhere but inside its header, a log of
records that survive gives the records it contains, and only such a log does. What is appended after
a cut is read exactly when the cut falls on the end of a record. -/
theorem damaged_log_read (ext : External) :
    (∀ bytes version, fromBytesVersioned ext bytes version ≠ .error .panicked ↔ recordFits bytes = true) ∧
    (∀ file, readLog ext file ≠ .error .panicked ↔ ∀ reader, WalReader.open file = .ok reader →
      ∀ suffix, Reached ext reader.version (reader.data.drop reader.pos) suffix → recordFits suffix = true) ∧
    (∀ startId entries, (∀ cut, cut = 0 ∨ walHeaderSize ≤ cut → ReadsBack
        (readLog ext ((writtenLog ext startId entries).take cut)) (contained ext (cut - walHeaderSize) entries)) ↔
      AllSurvive ext entries) ∧
    (∀ startId entries cut, AllSurvive ext entries → (ReadsBack
        (readLog ext ((writtenLog ext startId entries).take cut)) (contained ext (cut - walHeaderSize) entries) ↔
      cut = 0 ∨ walHeaderSize ≤ cut)) ∧
    ∀ startId entries cut, AllSurvive ext entries → cut ≤ (writtenLog ext startId entries).length →
      ((∀ more, AllSurvive ext more → AppendedReads ext ((writtenLog ext startId entries).take cut)
        (contained ext (cut - walHeaderSize) entries) more) ↔
        walHeaderSize ≤ cut ∧ AtBoundary ext entries (cut - walHeaderSize)) := by
  refine ⟨fun bytes version => (decode_panics ext bytes version).symm,readLog_panics,fun startId entries => ?_,
    fun startId entries cut survive => cut_reads startId survive cut,
    fun startId entries cut survive within => appends_read startId survive within⟩
  constructor
  · intro reads
    refine survive_of_cuts fun room => ?_
    have here := reads (walHeaderSize + room) (Or.inr (Nat.le_add_right _ _))
    rwa [take_log startId entries (Nat.le_add_right _ _),readLog_header,Nat.add_sub_cancel_left] at here
  · exact fun survive cut place => (cut_reads startId survive cut).mpr place

def noExternal : External := ⟨fun _ => "",fun _ => none,fun _ => 0⟩

theorem damaged_log_read_at_boundary :
    AppendedReads noExternal ((writtenLog noExternal 1 [(0,.txnBegin 1),(0,.txnCommit 1)]).take 49) [.txnBegin 1]
      [(0,.txnRollback 1)] := by
  have survive : AllSurvive noExternal [(0,.txnBegin 1),(0,.txnCommit 1)] := by
    intro e member
    rcases List.mem_pair.mp member with rfl | rfl <;> exact ⟨(by decide : 8 < 2^32),trivial⟩
  refine ((damaged_log_read noExternal).2.2.2.2 1 _ 49 survive (by decide)).mpr ⟨by decide,?_⟩ [(0,.txnRollback 1)] ?_
  · exact ⟨[(0,.txnBegin 1)],[(0,.txnCommit 1)],rfl,rfl⟩
  · intro e member
    rw [List.mem_singleton.mp member]
    exact ⟨(by decide : 8 < 2^32),trivial⟩

/-- A delete whose length was overwritten with zero is sliced beyond its body. -/
theorem overwritten_length_panics :
    ∃ ext file, file.length = walHeaderSize + 13 ∧ readLog ext file = .error .panicked := by
  refine ⟨noExternal,WalWriter.header 1 ++ [2,0,0,0,0,0,0,0,0,0,0,0,0],rfl,?_⟩
  rw [readLog_header]
  rfl

end ApexBase.Wal
