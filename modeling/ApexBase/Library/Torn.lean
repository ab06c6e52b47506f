import ApexBase.Library.Wire
import Mathlib.Data.List.Infix

/-! Readers on bytes that may be cut off. `Reads` says of a reader and the bytes it is meant for
that it takes exactly these, and that it fails on every shorter part. -/
namespace ApexBase.Library.Wire.Reader

variable {ε α β : Type}

structure Reads (reader : Reader ε α) (bytes : Bytes) (value : α) : Prop where
  whole : Yields reader bytes (.ok value)
  torn : ∀ part, part <+: bytes → part ≠ bytes → ∃ error, reader part = .error error

theorem Reads.complete {reader : Reader ε α} {bytes : Bytes} {value : α} (reads : Reads reader bytes value)
    (rest : Bytes) :
    reader (bytes ++ rest) = .ok (value,rest) := reads.whole rest

theorem reads_pure (value : α) : Reads (pure value : Reader ε α) [] value where
  whole := yields_pure value
  torn := fun _ inside other => absurd (List.prefix_nil.mp inside) other

theorem Reads.bind {reader : Reader ε α} {next : α → Reader ε β} {first second : Bytes} {value : α} {result : β}
    (head : Reads reader first value) (tail : Reads (next value) second result) :
    Reads (reader >>= next) (first ++ second) result where
  whole := yields_then head.whole tail.whole
  torn := by
    intro part inside other
    by_cases reached : first <+: part
    · obtain ⟨later,rfl⟩ := reached
      have rest : later <+: second := (List.prefix_append_right_inj first).mp inside
      obtain ⟨error,failed⟩ := tail.torn later rest (fun same => other (by rw [same]))
      refine ⟨error,?_⟩
      simp only [Bind.bind,StateT.bind,head.complete later]
      exact failed
    · have early : part <+: first := by
        rcases List.prefix_or_prefix_of_prefix inside (List.prefix_append first second) with early | late
        · exact early
        · exact absurd late reached
      obtain ⟨error,failed⟩ := head.torn part early (fun same => reached (same ▸ List.prefix_refl _))
      refine ⟨error,?_⟩
      simp only [Bind.bind,StateT.bind,failed]
      rfl

section
variable {reader : Reader ε α} {bytes : Bytes} {value : α} (f : α → β) (reads : Reads reader bytes value)
include reads

theorem Reads.map :
    Reads (f <$> reader) bytes (f value) where
  whole := yields_map f reads.whole
  torn := by
    intro part inside other
    obtain ⟨error,failed⟩ := reads.torn part inside other
    refine ⟨error,?_⟩
    simp only [Functor.map,StateT.map,failed]
    rfl

theorem Reads.last :
    Reads (reader >>= fun read => pure (f read)) bytes (f value) := reads.map f

end

theorem reads_take {short : ε} (bytes : Bytes) {count : Nat} (length : bytes.length = count) :
    Reads (take short count) bytes bytes where
  whole := yields_exactly short length
  torn := by
    intro part inside other
    have shorter : part.length < bytes.length :=
      lt_of_le_of_ne inside.length_le (fun same => other (inside.eq_of_length same))
    exact ⟨short,if_neg (by omega)⟩

theorem reads_word {short : ε} {width value : Nat} (small : value < 256^width) :
    Reads (word short width) (leBytes width value) value := by
  have read := (reads_take (leBytes width value) (length_leBytes width value) : Reads (take short width) _ _).map ofLe
  rwa [ofLe_leBytes_of_lt small] at read

theorem reads_words {short : ε} {width : Nat} {values : List Nat} (small : ∀ value ∈ values, value < 256^width) :
    Reads (words short width values.length) (leWords width values) values := by
  have read := (reads_take (leWords width values) (length_leWords width values) : Reads (take short _) _ _).map
    (ofLeWords width values.length)
  have decoded := ofLeWords_leWords small []
  rw [List.append_nil] at decoded
  rwa [decoded] at read

def many (reader : Reader ε α) : Nat → Reader ε (List α)
  | 0 => pure []
  | count + 1 => do
    let item ← reader
    let rest ← many reader count
    return item :: rest

section
variable {γ : Type} {reader : Reader ε α} {encode : γ → Bytes} {value : γ → α} (items : List γ)

theorem yields_many (each : ∀ item ∈ items, Yields reader (encode item) (.ok (value item))) :
    Yields (many reader items.length) (items.flatMap encode) (.ok (items.map value)) := by
  induction items with
  | nil => exact yields_pure []
  | cons item rest ih =>
    have tail := ih (fun other member => each other (List.mem_cons_of_mem _ member))
    rw [List.flatMap_cons]
    exact yields_then (each item List.mem_cons_self) (yields_last tail rfl)

theorem reads_many (each : ∀ item ∈ items, Reads reader (encode item) (value item)) :
    Reads (many reader items.length) (items.flatMap encode) (items.map value) := by
  induction items with
  | nil => exact reads_pure []
  | cons item rest ih =>
    have tail := ih (fun other member => each other (List.mem_cons_of_mem _ member))
    rw [List.flatMap_cons]
    exact (each item List.mem_cons_self).bind (tail.last (value item :: ·))

end

theorem reads_counted {γ : Type} {short : ε} {reader : Reader ε α} {encode : γ → Bytes} {value : γ → α} {width : Nat}
    (items : List γ) (small : items.length < 256^width)
    (each : ∀ item ∈ items, Reads reader (encode item) (value item)) :
    Reads (word short width >>= many reader) (leBytes width items.length ++ items.flatMap encode) (items.map value) :=
  (reads_word small).bind (reads_many items each)

def untilEnd (reader : Reader ε α) : Nat → Bytes → Except ε (List α)
  | 0,_ => .ok []
  | turns + 1,bytes =>
    if bytes.isEmpty then .ok []
    else
      match reader bytes with
      | .ok (item,rest) => (untilEnd reader turns rest).map (item :: ·)
      | .error error => .error error

/-- Items that the reader takes one by one are all returned; the beginning of another one behind
them is an error. -/
theorem untilEnd_reads {γ : Type} {reader : Reader ε α} {encode : γ → Bytes} {value : γ → α} {items : List γ}
    {turns : Nat} (part : Bytes) (each : ∀ item ∈ items, Reads reader (encode item) (value item) ∧ encode item ≠ [])
    (enough : (items.flatMap encode ++ part).length ≤ turns) :
    (part = [] → untilEnd reader turns (items.flatMap encode ++ part) = .ok (items.map value)) ∧
    (part ≠ [] → (∃ error, reader part = .error error) →
      ∃ error, untilEnd reader turns (items.flatMap encode ++ part) = .error error) := by
  induction items generalizing turns with
  | nil =>
    constructor
    · rintro rfl
      cases turns <;> rfl
    · rintro some ⟨error,failed⟩
      have positive : 0 < part.length := List.length_pos_iff.mpr some
      have short : part.length ≤ turns := enough
      obtain ⟨turns,rfl⟩ : ∃ fewer, turns = fewer + 1 := ⟨turns - 1,by omega⟩
      refine ⟨error,?_⟩
      change untilEnd reader (turns + 1) part = _
      rw [untilEnd,if_neg (by simpa using some),failed]
  | cons item rest ih =>
    obtain ⟨⟨reads,some⟩,others⟩ := List.forall_mem_cons.mp each
    have positive : 0 < (encode item).length := List.length_pos_iff.mpr some
    rw [List.flatMap_cons,List.append_assoc,List.length_append] at enough
    obtain ⟨turns,rfl⟩ : ∃ fewer, turns = fewer + 1 := ⟨turns - 1,by omega⟩
    have fewer : (rest.flatMap encode ++ part).length ≤ turns := by omega
    obtain ⟨whole,torn⟩ := ih others fewer
    have step : untilEnd reader (turns + 1) ((item :: rest).flatMap encode ++ part) =
        (untilEnd reader turns (rest.flatMap encode ++ part)).map (value item :: ·) := by
      rw [List.flatMap_cons,List.append_assoc,untilEnd,if_neg (by simp [some]),reads.complete]
    rw [step]
    constructor
    · intro none
      rw [whole none]
      rfl
    · intro other failed
      obtain ⟨error,stopped⟩ := torn other failed
      exact ⟨error,by rw [stopped]; rfl⟩

end ApexBase.Library.Wire.Reader
