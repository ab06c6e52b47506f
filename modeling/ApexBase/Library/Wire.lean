import Mathlib.Tactic.Ring
import Mathlib.Data.Nat.Basic
import Mathlib.Data.UInt

/-! Byte strings, little-endian words and readers that consume a byte string from the front.
`Yields` is the composition rule for round trips: what a reader returns on encoded bytes, whatever
bytes come after them. -/
namespace ApexBase.Library.Wire

abbrev Bytes := List UInt8

/-- The low `width` bytes of `value`, least significant first. -/
def leBytes : Nat → Nat → Bytes
  | 0,_ => []
  | width + 1,value => UInt8.ofNat value :: leBytes width (value / 256)

def ofLe : Bytes → Nat
  | [] => 0
  | byte :: rest => byte.toNat + 256 * ofLe rest

@[simp] theorem length_leBytes (width value : Nat) : (leBytes width value).length = width := by
  induction width generalizing value with
  | zero => rfl
  | succ width ih => simp [leBytes,ih]

theorem leBytes_add (low high value : Nat) :
    leBytes (low + high) value = leBytes low value ++ leBytes high (value / 256^low) := by
  induction low generalizing value with
  | zero => simp [leBytes]
  | succ low ih =>
    rw [Nat.succ_add,leBytes,leBytes,ih,List.cons_append,Nat.div_div_eq_div_mul,Nat.pow_succ']

theorem ofLe_leBytes (width value : Nat) : ofLe (leBytes width value) = value % 256^width := by
  induction width generalizing value with
  | zero => simp [leBytes,ofLe,Nat.mod_one]
  | succ width ih =>
    have byte : (UInt8.ofNat value).toNat = value % 256 := by simp
    rw [leBytes,ofLe,ih,byte,Nat.pow_succ',Nat.mod_mul]

theorem ofLe_leBytes_of_lt {width value : Nat} (small : value < 256^width) : ofLe (leBytes width value) = value := by
  rw [ofLe_leBytes,Nat.mod_eq_of_lt small]

theorem ofLe_lt (bytes : Bytes) : ofLe bytes < 256^bytes.length := by
  induction bytes with
  | nil => simp [ofLe]
  | cons byte rest ih =>
    have small : byte.toNat < 256 := byte.toNat_lt
    simp only [ofLe,List.length_cons,Nat.pow_succ]
    omega

theorem leBytes_ofLe (bytes : Bytes) : leBytes bytes.length (ofLe bytes) = bytes := by
  induction bytes with
  | nil => rfl
  | cons byte rest ih =>
    have small : byte.toNat < 256 := byte.toNat_lt
    have first : UInt8.ofNat (byte.toNat + 256 * ofLe rest) = byte := by
      apply UInt8.toNat_inj.mp
      rw [UInt8.toNat_ofNat']
      omega
    have others : (byte.toNat + 256 * ofLe rest) / 256 = ofLe rest := by omega
    rw [List.length_cons,ofLe,leBytes,first,others,ih]

def leWords (width : Nat) (values : List Nat) : Bytes := values.flatMap (leBytes width)

def wordAt (width : Nat) (bytes : Bytes) (index : Nat) : Nat := ofLe ((bytes.drop (index * width)).take width)

def ofLeWords (width count : Nat) (bytes : Bytes) : List Nat := (List.range count).map (wordAt width bytes)

@[simp] theorem length_leWords (width : Nat) (values : List Nat) :
    (leWords width values).length = values.length * width := by
  induction values with
  | nil => simp [leWords]
  | cons value values ih =>
    rw [leWords] at ih
    simp only [leWords,List.flatMap_cons,List.length_append,length_leBytes,ih,List.length_cons]
    ring

theorem wordAt_leWords {width : Nat} {values : List Nat} (small : ∀ value ∈ values, value < 256^width) (index : Nat)
    (inside : index < values.length) (rest : Bytes) :
    wordAt width (leWords width values ++ rest) index = values[index] := by
  induction values generalizing index with
  | nil => exact absurd inside (Nat.not_lt_zero _)
  | cons value values ih =>
    have split : leWords width (value :: values) ++ rest = leBytes width value ++ (leWords width values ++ rest) := by
      simp [leWords]
    rw [split]
    cases index with
    | zero =>
      have head : (leBytes width value ++ (leWords width values ++ rest)).take width = leBytes width value :=
        List.take_left' (length_leBytes _ _)
      rw [wordAt,Nat.zero_mul,List.drop_zero,head,ofLe_leBytes_of_lt (small value (by simp))]
      rfl
    | succ index =>
      have skip : (index + 1) * width = (leBytes width value).length + index * width := by rw [length_leBytes]; ring
      have tail := ih (fun value member => small value (by simp [member])) index (by simpa using inside)
      rw [wordAt] at tail
      rw [wordAt,skip,← List.drop_drop,List.drop_left,tail]
      rfl

theorem ofLeWords_leWords {width : Nat} {values : List Nat} (small : ∀ value ∈ values, value < 256^width)
    (rest : Bytes) :
    ofLeWords width values.length (leWords width values ++ rest) = values := by
  apply List.ext_getElem
  · simp [ofLeWords]
  · intro index _ inside
    simp [ofLeWords,wordAt_leWords small index inside rest]

def utf8 (text : String) : Bytes := text.toUTF8.data.toList

def fromUtf8 (bytes : Bytes) : Option String := String.fromUTF8? ⟨bytes.toArray⟩

theorem fromUtf8_utf8 (text : String) : fromUtf8 (utf8 text) = some text := by
  have same : (⟨(utf8 text).toArray⟩ : ByteArray) = text.toUTF8 := by simp [utf8]
  unfold fromUtf8 String.fromUTF8?
  rw [same,String.toUTF8_eq_toByteArray,dif_pos text.isValidUTF8]
  rfl

theorem utf8_of_fromUtf8 {bytes : Bytes} {text : String} (decoded : fromUtf8 bytes = some text) :
    utf8 text = bytes := by
  unfold fromUtf8 String.fromUTF8? at decoded
  split at decoded
  · cases decoded
    simp [utf8,String.fromUTF8]
  · cases decoded

abbrev Reader (ε : Type) := StateT Bytes (Except ε)

variable {ε α β : Type}

theorem map_eq_ok {f : α → β} {outcome : Except ε α} {result : β} :
    outcome.map f = .ok result ↔ ∃ value, outcome = .ok value ∧ f value = result := by
  cases outcome <;> simp [Except.map]

theorem bind_eq_ok {outcome : Except ε α} {next : α → Except ε β} {result : β} :
    outcome >>= next = .ok result ↔ ∃ value, outcome = .ok value ∧ next value = .ok result := by
  cases outcome <;> simp [bind,Except.bind]

theorem mapError_eq_ok {δ : Type} {f : ε → δ} {outcome : Except ε α} {result : α} :
    outcome.mapError f = .ok result ↔ outcome = .ok result := by
  cases outcome <;> simp [Except.mapError]

theorem toOption_eq_some {outcome : Except ε α} {result : α} :
    outcome.toOption = some result ↔ outcome = .ok result := by
  cases outcome <;> simp [Except.toOption]

/-- A fold that may fail keeps in step with another fold. -/
theorem foldlM_mirrors {σ τ : Type} {step : σ → α → Except ε σ} {follow : τ → α → τ} {mirrors : σ → τ → Prop}
    (stepped : ∀ state other item next, mirrors state other → step state item = .ok next →
      mirrors next (follow other item))
    {items : List α} {start final : σ} {other : τ} (holds : mirrors start other)
    (ok : items.foldlM step start = .ok final) :
    mirrors final (items.foldl follow other) := by
  induction items generalizing start other with
  | nil =>
    cases ok
    exact holds
  | cons item rest ih =>
    rw [List.foldlM_cons] at ok
    obtain ⟨next,first,ok⟩ := bind_eq_ok.mp ok
    exact ih (stepped start other item next holds first) ok

theorem foldlM_progress {σ : Type} {step : σ → α → Except ε σ} {kept reached : σ → Prop} {brings : α → Prop}
    (stepped : ∀ state item next, kept state → step state item = .ok next → kept next ∧
      (reached next ↔ reached state ∨ brings item))
    {items : List α} {start final : σ} (holds : kept start) (ok : items.foldlM step start = .ok final) :
    kept final ∧ (reached final ↔ reached start ∨ ∃ item ∈ items, brings item) := by
  induction items generalizing start with
  | nil =>
    cases ok
    simpa using holds
  | cons item rest ih =>
    rw [List.foldlM_cons] at ok
    obtain ⟨next,first,ok⟩ := bind_eq_ok.mp ok
    obtain ⟨holdsNext,reachedNext⟩ := stepped start item next holds first
    obtain ⟨holdsFinal,reachedFinal⟩ := ih holdsNext ok
    refine ⟨holdsFinal,reachedFinal.trans ?_⟩
    simp only [reachedNext,List.mem_cons,exists_eq_or_imp,or_assoc]

namespace Reader

def fail (error : ε) : Reader ε α := fun _ => .error error

/-- The next `count` bytes, or `short` when there are fewer. -/
def take (short : ε) (count : Nat) : Reader ε Bytes := fun bytes =>
  if count ≤ bytes.length then .ok (bytes.take count,bytes.drop count) else .error short

def word (short : ε) (width : Nat) : Reader ε Nat := ofLe <$> take short width

def words (short : ε) (width count : Nat) : Reader ε (List Nat) := ofLeWords width count <$> take short (count * width)

def lift : Except ε α → Reader ε α
  | .ok value => pure value
  | .error error => fail error

/-- The value read and the number of bytes consumed. -/
def counted (reader : Reader ε α) (bytes : Bytes) : Except ε (α × Nat) :=
  (reader bytes).map (fun read => (read.1,bytes.length - read.2.length))

/-- On `bytes` followed by anything the reader returns `result` and leaves the rest; a failure does
not depend on the rest either. -/
def Yields (reader : Reader ε α) (bytes : Bytes) (result : Except ε α) : Prop :=
  ∀ rest, reader (bytes ++ rest) = result.map (fun value => (value,rest))

theorem Yields.counted {reader : Reader ε α} {bytes : Bytes} {value : α} (read : Yields reader bytes (.ok value))
    (rest : Bytes) : reader.counted (bytes ++ rest) = .ok (value,bytes.length) := by
  rw [Reader.counted,read rest]
  simp [Except.map]

theorem yields_pure (value : α) : Yields (pure value : Reader ε α) [] (.ok value) := fun _ => rfl

theorem yields_fail (error : ε) (bytes : Bytes) : Yields (fail error : Reader ε α) bytes (.error error) := fun _ => rfl

theorem yields_lift (result : Except ε α) : Yields (lift result) [] result := by
  intro rest
  cases result <;> rfl

section
variable {reader : Reader ε α} {next : α → Reader ε β}

theorem yields_bind {first second : Bytes} {result : Except ε α} {final : α → Except ε β}
    (head : Yields reader first result)
    (tail : ∀ value, result = .ok value → Yields (next value) second (final value)) :
    Yields (reader >>= next) (first ++ second) (result >>= final) := by
  intro rest
  have start := head (second ++ rest)
  simp only [bind,StateT.bind,List.append_assoc,start]
  cases result with
  | error error => rfl
  | ok value => exact tail value rfl rest

theorem yields_then {first second : Bytes} {value : α} {result : Except ε β} (head : Yields reader first (.ok value))
    (tail : Yields (next value) second result) :
    Yields (reader >>= next) (first ++ second) result := by
  intro rest
  have start := head (second ++ rest)
  simp only [bind,StateT.bind,List.append_assoc,start]
  exact tail rest

theorem of_bind {bytes rest : Bytes} {result : β}
    (ok : (reader >>= next) bytes = .ok (result,rest)) :
    ∃ value middle, reader bytes = .ok (value,middle) ∧ next value middle = .ok (result,rest) := by
  simp only [bind,StateT.bind] at ok
  cases first : reader bytes with
  | error error => simp [first,Except.bind] at ok
  | ok pair => exact ⟨pair.1,pair.2,rfl,by simpa [first,Except.bind] using ok⟩

end

theorem of_pure {value result : α} {bytes rest : Bytes} (ok : (pure value : Reader ε α) bytes = .ok (result,rest)) :
    result = value := by
  have same : (value,bytes) = (result,rest) := Except.ok.inj ok
  exact (Prod.mk.inj same).1.symm

theorem of_lift {outcome : Except ε α} {result : α} {bytes rest : Bytes}
    (ok : (lift outcome : Reader ε α) bytes = .ok (result,rest)) : outcome = .ok result := by
  cases outcome with
  | error error => cases ok
  | ok value => rw [of_pure ok]

theorem of_word {short : ε} {width value : Nat} {bytes rest : Bytes}
    (ok : word short width bytes = .ok (value,rest)) : value < 256^width := by
  simp only [word,Functor.map,StateT.map,take] at ok
  split at ok
  · rename_i enough
    simp only [bind,Except.bind,pure,Except.pure,Except.ok.injEq,Prod.mk.injEq] at ok
    rw [← ok.1]
    have bound := ofLe_lt (bytes.take width)
    rwa [List.length_take,Nat.min_eq_left enough] at bound
  · cases ok

section
variable {short : ε} {count : Nat} {bytes taken rest : Bytes} (ok : take short count bytes = .ok (taken,rest))
include ok

theorem split_take :
    bytes = taken ++ rest := by
  unfold take at ok
  split at ok
  · cases ok
    exact (List.take_append_drop count bytes).symm
  · cases ok

theorem of_take : taken.length = count := by
  unfold take at ok
  split at ok
  · simp only [Except.ok.injEq,Prod.mk.injEq] at ok
    rw [← ok.1,List.length_take,Nat.min_eq_left (by assumption)]
  · cases ok

end

theorem split_word {short : ε} {width value : Nat} {bytes rest : Bytes}
    (ok : word short width bytes = .ok (value,rest)) :
    bytes = leBytes width value ++ rest := by
  simp only [word,Functor.map,StateT.map] at ok
  cases taken : take short width bytes with
  | error error =>
    rw [taken] at ok
    cases ok
  | ok pair =>
    rw [taken] at ok
    cases ok
    have size := of_take taken
    have bytesAre := leBytes_ofLe pair.1
    rw [size] at bytesAre
    rw [bytesAre]
    exact split_take taken

theorem take_eq_ok {short : ε} {count : Nat} {bytes taken rest : Bytes} :
    take short count bytes = .ok (taken,rest) ↔ count ≤ bytes.length ∧ taken = bytes.take count ∧
    rest = bytes.drop count := by
  unfold take
  split
  · rename_i enough
    simp [enough,eq_comm]
  · rename_i few
    simp [few]

theorem map_take_eq_ok {short : ε} {count : Nat} {f : Bytes → α} {bytes rest : Bytes} {value : α} :
    (f <$> take short count) bytes = .ok (value,rest) ↔ count ≤ bytes.length ∧ value = f (bytes.take count) ∧
    rest = bytes.drop count := by
  simp only [Functor.map,StateT.map,take]
  split
  · rename_i enough
    simp [bind,Except.bind,pure,Except.pure,enough,eq_comm]
  · rename_i few
    simp [bind,Except.bind,few]

theorem yields_map {reader : Reader ε α} {bytes : Bytes} {result : Except ε α} (f : α → β)
    (head : Yields reader bytes result) : Yields (f <$> reader) bytes (result.map f) := by
  intro rest
  have start := head rest
  simp only [Functor.map,StateT.map,start]
  cases result <;> rfl

theorem yields_take (short : ε) (bytes : Bytes) : Yields (take short bytes.length) bytes (.ok bytes) := by
  intro rest
  simp [take,Except.map]

theorem yields_last {reader : Reader ε α} {bytes : Bytes} {value : α} {f : α → β} {result : β}
    (head : Yields reader bytes (.ok value)) (same : f value = result) :
    Yields (do return f (← reader)) bytes (.ok result) :=
  same ▸ yields_map f head

theorem yields_exactly (short : ε) {bytes : Bytes} {count : Nat} (length : bytes.length = count) :
    Yields (take short count) bytes (.ok bytes) :=
  length ▸ yields_take short bytes

theorem yields_wrapped (short : ε) (width value : Nat) :
    Yields (word short width) (leBytes width value) (.ok (value % 256^width)) := by
  have read := yields_take short (leBytes width value)
  rw [length_leBytes] at read
  have mapped := yields_map ofLe read
  rw [Except.map,ofLe_leBytes] at mapped
  exact mapped

theorem yields_word (short : ε) (width value : Nat) (small : value < 256^width) :
    Yields (word short width) (leBytes width value) (.ok value) := by
  have read := yields_wrapped short width value
  rwa [Nat.mod_eq_of_lt small] at read

theorem yields_words (short : ε) {width : Nat} {values : List Nat} (small : ∀ value ∈ values, value < 256^width) :
    Yields (words short width values.length) (leWords width values) (.ok values) := by
  have read := yields_take short (leWords width values)
  rw [length_leWords] at read
  have mapped := yields_map (ofLeWords width values.length) read
  have decoded := ofLeWords_leWords small []
  rw [List.append_nil] at decoded
  rw [Except.map,decoded] at mapped
  exact mapped

section Walks

variable (bad : ε)

def Avoids (next : α → Bytes → Bool) : Except ε (α × Bytes) → Prop
  | .ok (value,rest) => next value rest = true
  | .error error => error ≠ bad

def Guards (walk : (α → Bytes → Bool) → Bytes → Bool) (reader : Reader ε α) : Prop :=
  ∀ next bytes, walk next bytes = true ↔ Avoids bad next (reader bytes)

def Skips (walk : (Bytes → Bool) → Bytes → Bool) (reader : Reader ε α) : Prop :=
  ∀ next bytes, walk next bytes = true ↔ Avoids bad (fun _ => next) (reader bytes)

def room (count : Nat) (next : Bytes → Bytes → Bool) (bytes : Bytes) : Bool :=
  decide (count ≤ bytes.length) && next (bytes.take count) (bytes.drop count)

variable {bad}

theorem guards_take (count : Nat) : Guards bad (room count) (take bad count) := by
  intro next bytes
  unfold room take
  split
  · rename_i enough
    simp [enough,Avoids]
  · rename_i short
    simp [short,Avoids]

theorem Guards.bind {walk : (α → Bytes → Bool) → Bytes → Bool} {walks : α → (β → Bytes → Bool) → Bytes → Bool}
    {reader : Reader ε α} {cont : α → Reader ε β} (head : Guards bad walk reader)
    (tail : ∀ value, Guards bad (walks value) (cont value)) :
    Guards bad (fun next => walk (fun value => walks value next)) (reader >>= cont) := by
  intro next bytes
  rw [head]
  simp only [Bind.bind,StateT.bind]
  cases reader bytes with
  | error error => rfl
  | ok pair => exact tail pair.1 next pair.2

theorem Guards.then {walk : (α → Bytes → Bool) → Bytes → Bool} {walks : α → (Bytes → Bool) → Bytes → Bool}
    {reader : Reader ε α} {cont : α → Reader ε β} (head : Guards bad walk reader)
    (tail : ∀ value, Skips bad (walks value) (cont value)) :
    Skips bad (fun next => walk (fun value => walks value next)) (reader >>= cont) := by
  intro next bytes
  rw [head]
  simp only [Bind.bind,StateT.bind]
  cases reader bytes with
  | error error => rfl
  | ok pair => exact tail pair.1 next pair.2

theorem Skips.then {walk walks : (Bytes → Bool) → Bytes → Bool} {reader : Reader ε α} {cont : α → Reader ε β}
    (head : Skips bad walk reader) (tail : ∀ value, Skips bad walks (cont value)) :
    Skips bad (fun next => walk (walks next)) (reader >>= cont) := by
  intro next bytes
  rw [head]
  simp only [Bind.bind,StateT.bind]
  cases reader bytes with
  | error error => rfl
  | ok pair => exact tail pair.1 next pair.2

theorem skips_pure (value : α) : Skips bad id (pure value : Reader ε α) := fun _ _ => Iff.rfl

theorem skips_fail {error : ε} (other : error ≠ bad) : Skips bad (fun _ _ => true) (fail error : Reader ε α) := by
  intro next bytes
  simpa [fail,Avoids] using other

theorem guards_word (width : Nat) : Guards bad (fun next => room width (fun raw => next (ofLe raw)))
    (word bad width) := by
  intro next bytes
  rw [(guards_take width : Guards bad _ _)]
  simp only [word,Functor.map,StateT.map]
  cases take bad width bytes <;> rfl

def Never (bad : ε) (reader : Reader ε α) : Prop := ∀ bytes, reader bytes ≠ .error bad

theorem never_pure (value : α) : Never bad (pure value : Reader ε α) := fun _ same => nomatch same

theorem never_fail {error : ε} (other : error ≠ bad) : Never bad (fail error : Reader ε α) :=
  fun _ same => other (Except.error.inj same)

theorem never_take {short : ε} (other : short ≠ bad) (count : Nat) : Never bad (take short count) := by
  intro bytes
  unfold take
  split
  · nofun
  · exact fun same => other (Except.error.inj same)

theorem Never.bind {reader : Reader ε α} {cont : α → Reader ε β} (head : Never bad reader)
    (tail : ∀ value, Never bad (cont value)) :
    Never bad (reader >>= cont) := by
  intro bytes
  have first := head bytes
  simp only [Bind.bind,StateT.bind]
  cases read : reader bytes with
  | error error =>
    rw [read] at first
    exact fun same => first (congrArg _ (Except.error.inj same))
  | ok pair => exact tail pair.1 pair.2

theorem never_word {short : ε} (other : short ≠ bad) (width : Nat) : Never bad (word short width) := by
  intro bytes
  have read := never_take other width bytes
  simp only [word,Functor.map,StateT.map]
  cases taken : take short width bytes with
  | error error =>
    rw [taken] at read
    exact fun same => read (congrArg _ (Except.error.inj same))
  | ok pair => nofun

theorem never_lift {outcome : Except ε α} (other : outcome ≠ .error bad) : Never bad (lift outcome) := by
  cases outcome with
  | error error => exact never_fail (fun same => other (congrArg _ same))
  | ok value => exact never_pure value

end Walks

end Reader

end ApexBase.Library.Wire
