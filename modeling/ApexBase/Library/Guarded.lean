import ApexBase.Library.Wire

/-! Readers that look at the number of bytes left before they read: where a slice past the end would
be a failure of its own, and where a loop stops early on short input instead of failing. -/
namespace ApexBase.Library.Wire.Reader

variable {ε α β : Type}

def ifRoom (count : Nat) (enough short : Reader ε α) : Reader ε α := fun bytes =>
  if count ≤ bytes.length then enough bytes else short bytes

def marked (marker : UInt8) (body : Reader ε α) (absent : α) : Reader ε α
  | [] => .ok (absent,[])
  | first :: rest => if first = marker then body rest else .ok (absent,first :: rest)

def tagged (tag : Bytes) (body : Reader ε α) (absent : α) : Reader ε α := fun bytes =>
  if tag.length ≤ bytes.length ∧ bytes.take tag.length = tag then body (bytes.drop tag.length) else .ok (absent,bytes)

/-- At most `count` items: the loop is left at the first one that is not there. -/
def upTo (item : Reader ε (Option α)) : Nat → Reader ε (List α)
  | 0 => pure []
  | count + 1 => do
    match ← item with
    | some value => do
      let rest ← upTo item count
      return value :: rest
    | none => return []

theorem yields_ifRoom {count : Nat} {enough short : Reader ε α} {bytes : Bytes} {result : Except ε α}
    (room : count ≤ bytes.length) (read : Yields enough bytes result) :
    Yields (ifRoom count enough short) bytes result := by
  intro rest
  have more : count ≤ (bytes ++ rest).length := by
    rw [List.length_append]
    omega
  rw [ifRoom,if_pos more]
  exact read rest

def optional (present : Bool) (marker : UInt8) (body : Bytes) : Bytes := if present then marker :: body else []

def Begins (markers : List UInt8) (bytes : Bytes) : Prop := ∀ first ∈ bytes.head?, first ∈ markers

theorem begins_nil (markers : List UInt8) : Begins markers [] := nofun

theorem begins_optional {present : Bool} {marker : UInt8} {body rest : Bytes} {markers : List UInt8}
    (begins : Begins markers rest) :
    Begins (marker :: markers) (optional present marker body ++ rest) := by
  intro first found
  cases present with
  | true =>
    cases found
    exact List.mem_cons_self
  | false => exact List.mem_cons_of_mem _ (begins first found)

theorem marked_absent {marker : UInt8} {body : Reader ε α} {absent : α} {bytes : Bytes} {markers : List UInt8}
    (begins : Begins markers bytes)
    (other : marker ∉ markers) : marked marker body absent bytes = .ok (absent,bytes) := by
  cases bytes with
  | nil => rfl
  | cons first rest =>
    have different : first ≠ marker := by
      rintro rfl
      exact other (begins first rfl)
    rw [marked,if_neg different]

theorem marked_optional {present : Bool} {marker : UInt8} {reader : Reader ε α} {absent value : α} {body rest : Bytes}
    {markers : List UInt8} (read : present = true → Yields reader body (.ok value)) (begins : Begins markers rest)
    (other : marker ∉ markers) :
    marked marker reader absent (optional present marker body ++ rest) = .ok (if present then value
      else absent,rest) := by
  cases present with
  | true =>
    have done := read rfl rest
    rw [optional,if_pos rfl,if_pos rfl,List.cons_append,marked,if_pos rfl,done]
    rfl
  | false => exact marked_absent begins other

theorem tagged_there {tag : Bytes} {body : Reader ε α} {absent : α} (bytes : Bytes) :
    tagged tag body absent (tag ++ bytes) = body bytes := by
  unfold tagged
  rw [List.take_left,List.drop_left,if_pos ⟨by rw [List.length_append]; omega,rfl⟩]

theorem tagged_absent {tag : Bytes} {body : Reader ε α} {absent : α} {bytes : Bytes}
    (other : bytes.take tag.length ≠ tag) :
    tagged tag body absent bytes = .ok (absent,bytes) := if_neg fun there => other there.2

section
variable {γ : Type} {item : Reader ε (Option α)} {encode : γ → Bytes} {value : γ → α} (items : List γ)
variable (each : ∀ thing ∈ items, Yields item (encode thing) (.ok (some (value thing))))
include each

theorem yields_upTo :
    Yields (upTo item items.length) (items.flatMap encode) (.ok (items.map value)) := by
  induction items with
  | nil => exact yields_pure []
  | cons thing rest ih =>
    have tail := ih (fun other member => each other (List.mem_cons_of_mem _ member))
    rw [List.flatMap_cons,List.length_cons,upTo]
    exact yields_then (each thing List.mem_cons_self) (yields_last tail rfl)

/-- The items up to one that is read as something else come back as they are read,
whatever is made of the bytes behind them. -/
theorem upTo_starts {bytes middle rest : Bytes} {count : Nat} {last : α} {values : List α}
    (next : item bytes = .ok (some last,middle))
    (ok : upTo item (items.length + (count + 1)) (items.flatMap encode ++ bytes) = .ok (values,rest)) :
    ∃ more, values = items.map value ++ last :: more := by
  induction items generalizing values rest with
  | nil =>
    rw [List.length_nil,Nat.zero_add,upTo] at ok
    obtain ⟨found,after,read,ok⟩ := of_bind ok
    change item bytes = _ at read
    rw [next] at read
    cases read
    obtain ⟨others,final,_,ok⟩ := of_bind ok
    exact ⟨others,of_pure ok⟩
  | cons thing tail ih =>
    rw [List.length_cons,Nat.succ_add,upTo,List.flatMap_cons,List.append_assoc] at ok
    obtain ⟨found,after,read,ok⟩ := of_bind ok
    rw [each thing List.mem_cons_self] at read
    cases read
    obtain ⟨others,final,readOthers,ok⟩ := of_bind ok
    obtain ⟨more,same⟩ := ih (fun other member => each other (List.mem_cons_of_mem _ member)) readOthers
    refine ⟨more,?_⟩
    rw [of_pure ok,same]
    rfl

end

section Bounds

variable {bad : ε}

def Within (bad : ε) (count : Nat) (reader : Reader ε α) :
    Prop := ∀ bytes : Bytes, count ≤ bytes.length → reader bytes ≠ .error bad

theorem Never.within {reader : Reader ε α} (never : Never bad reader) (count : Nat) :
    Within bad count reader := fun bytes _ => never bytes

theorem within_take {width count : Nat} {next : Bytes → Reader ε α} (enough : width ≤ count)
    (tail : ∀ raw, Within bad (count - width) (next raw)) : Within bad count (take bad width >>= next) := by
  intro bytes room
  have here : width ≤ bytes.length := enough.trans room
  simp only [Bind.bind,StateT.bind,take,if_pos here]
  exact tail _ _ (by rw [List.length_drop]; omega)

theorem within_word {width count : Nat} {next : Nat → Reader ε α} (enough : width ≤ count)
    (tail : ∀ value, Within bad (count - width) (next value)) : Within bad count (word bad width >>= next) := by
  intro bytes room
  have read := within_take enough (fun raw => tail (ofLe raw)) bytes room
  simp only [Bind.bind,StateT.bind,word,Functor.map,StateT.map] at read ⊢
  cases taken : take bad width bytes with
  | error error => simpa [taken,Except.bind] using read
  | ok pair => simpa [taken,Except.bind,pure,Except.pure] using read

theorem within_take_last (count : Nat) : Within bad count (take bad count) := by
  intro bytes room
  rw [take,if_pos room]
  rintro ⟨⟩

theorem within_word_last (width : Nat) : Within bad width (word bad width) := by
  intro bytes room
  simp only [word,Functor.map,StateT.map,take,if_pos room]
  rintro ⟨⟩

theorem within_lift {count : Nat} {outcome : Except ε α} {next : α → Reader ε β} (safe : outcome ≠ .error bad)
    (tail : ∀ value, Within bad count (next value)) : Within bad count (lift outcome >>= next) := by
  intro bytes room
  cases outcome with
  | error error => exact fun same => safe (congrArg _ (Except.error.inj same))
  | ok value => exact tail value bytes room

theorem never_ifRoom {count : Nat} {enough short : Reader ε α} (yes : Within bad count enough) (no : Never bad short) :
    Never bad (ifRoom count enough short) := by
  intro bytes
  unfold ifRoom
  split
  · rename_i room
    exact yes bytes room
  · exact no bytes

theorem within_ifRoom {count before : Nat} {enough short : Reader ε α} (yes : Within bad count enough)
    (no : Never bad short) :
    Within bad before (ifRoom count enough short) := (never_ifRoom yes no).within before

theorem never_marked {marker : UInt8} {body : Reader ε α} {absent : α} (never : Never bad body) :
    Never bad (marked marker body absent) := by
  intro bytes
  cases bytes with
  | nil => nofun
  | cons first rest =>
    rw [marked]
    split
    · exact never rest
    · nofun

theorem never_tagged {tag : Bytes} {body : Reader ε α} {absent : α} (never : Never bad body) :
    Never bad (tagged tag body absent) := by
  intro bytes
  unfold tagged
  split
  · exact never _
  · nofun

theorem never_upTo {item : Reader ε (Option α)} (each : Never bad item) (count : Nat) :
    Never bad (upTo item count) := by
  induction count with
  | zero => exact never_pure []
  | succ count ih =>
    refine each.bind fun found => ?_
    cases found with
    | some value => exact ih.bind fun rest => never_pure (value :: rest)
    | none => exact never_pure []

end Bounds

def Returns (P : α → Prop) (reader : Reader ε α) : Prop := ∀ bytes value rest, reader bytes = .ok (value,rest) → P value

section Results

variable {P : α → Prop} {Q : β → Prop}

theorem returns_pure {value : α} (holds : P value) : Returns P (pure value : Reader ε α) := by
  intro bytes result rest ok
  rw [of_pure ok]
  exact holds

theorem returns_fail (error : ε) : Returns P (fail error : Reader ε α) := nofun

theorem Returns.bind {reader : Reader ε α} {next : α → Reader ε β} (head : Returns P reader)
    (tail : ∀ value, P value → Returns Q (next value)) :
    Returns Q (reader >>= next) := by
  intro bytes result rest ok
  obtain ⟨value,middle,read,continued⟩ := of_bind ok
  exact tail value (head bytes value middle read) middle result rest continued

theorem returns_any (reader : Reader ε α) : Returns (fun _ => True) reader := fun _ _ _ _ => trivial

theorem Returns.then {reader : Reader ε α} {next : α → Reader ε β} (tail : ∀ value, Returns Q (next value)) :
    Returns Q (reader >>= next) :=
  (returns_any reader).bind fun value _ => tail value

theorem returns_word (short : ε) (width : Nat) : Returns (· < 256^width) (word short width) :=
  fun _ _ _ ok => of_word ok

theorem returns_take (short : ε) (count : Nat) : Returns (fun raw => raw.length = count) (take short count) :=
  fun _ _ _ ok => of_take ok

theorem returns_ifRoom {count : Nat} {enough short : Reader ε α} (yes : Returns P enough) (no : Returns P short) :
    Returns P (ifRoom count enough short) := by
  intro bytes value rest ok
  unfold ifRoom at ok
  split at ok
  · exact yes bytes value rest ok
  · exact no bytes value rest ok

theorem returns_marked {marker : UInt8} {body : Reader ε α} {absent : α} (yes : Returns P body) (no : P absent) :
    Returns P (marked marker body absent) := by
  intro bytes value rest ok
  cases bytes with
  | nil =>
    cases ok
    exact no
  | cons first others =>
    rw [marked] at ok
    split at ok
    · exact yes others value rest ok
    · cases ok
      exact no

theorem returns_tagged {tag : Bytes} {body : Reader ε α} {absent : α} (yes : Returns P body) (no : P absent) :
    Returns P (tagged tag body absent) := by
  intro bytes value rest ok
  unfold tagged at ok
  split at ok
  · exact yes _ value rest ok
  · cases ok
    exact no

theorem returns_found {value : α} (holds : P value) :
    Returns (fun found => ∀ value ∈ found, P value) (pure (some value) : Reader ε (Option α)) := by
  refine returns_pure ?_
  intro found same
  cases same
  exact holds

theorem returns_missing : Returns (fun found => ∀ value ∈ found, P value) (pure none : Reader ε (Option α)) :=
  returns_pure nofun

theorem returns_upTo {item : Reader ε (Option α)} (each : Returns (fun found => ∀ value ∈ found, P value) item)
    (count : Nat) :
    Returns (fun values => values.length ≤ count ∧ ∀ value ∈ values, P value) (upTo item count) := by
  induction count with
  | zero => exact returns_pure ⟨le_rfl,nofun⟩
  | succ count ih =>
    refine each.bind fun found holds => ?_
    cases found with
    | some value =>
      refine ih.bind fun values others => returns_pure ⟨?_,?_⟩
      · rw [List.length_cons]
        exact Nat.succ_le_succ others.1
      · exact List.forall_mem_cons.mpr ⟨holds value rfl,others.2⟩
    | none => exact returns_pure ⟨Nat.zero_le _,nofun⟩

theorem Never.bindOf {bad : ε} {reader : Reader ε α} {next : α → Reader ε β} (head : Never bad reader)
    (known : Returns P reader)
    (tail : ∀ value, P value → Never bad (next value)) : Never bad (reader >>= next) := by
  intro bytes
  have first := head bytes
  simp only [Bind.bind,StateT.bind]
  cases read : reader bytes with
  | error error =>
    rw [read] at first
    exact fun same => first (congrArg _ (Except.error.inj same))
  | ok pair => exact tail pair.1 (known bytes pair.1 pair.2 read) pair.2

end Results

end ApexBase.Library.Wire.Reader
