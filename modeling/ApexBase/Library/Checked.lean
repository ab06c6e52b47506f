import ApexBase.Library.Wire

/-! Runs on a machine with 64-bit sizes. A run ends with a value, with an error of the program, or at a
fault: a size that does not fit, a read outside the input, or an allocation that is too large. -/
namespace ApexBase.Library
open Wire

inductive Fault
  | wrapped
  | outside
  | capacity
  deriving DecidableEq

inductive Stop (ε : Type)
  | error (error : ε)
  | fault (fault : Fault)

abbrev Checked (ε : Type) := Except (Stop ε)

namespace Checked

variable {ε α β : Type}

def usize (value : Nat) : Checked ε Nat := if value < 2^64 then .ok value else .error (.fault .wrapped)

def add (a b : Nat) : Checked ε Nat := usize (a + b)

def mul (a b : Nat) : Checked ε Nat := usize (a * b)

def slice (bytes : Bytes) (start stop : Nat) : Checked ε Bytes :=
  if start ≤ stop ∧ stop ≤ bytes.length then .ok ((bytes.drop start).take (stop - start)) else .error (.fault .outside)

def alloc (count size : Nat) : Checked ε Unit := if count * size < 2^63 then .ok () else .error (.fault .capacity)

def Clean (run : Checked ε α) : Prop := ∀ fault, run ≠ .error (.fault fault)

theorem usize_ok {value : Nat} (fits : value < 2^64) : (usize value : Checked ε Nat) = .ok value := if_pos fits

theorem usize_wrapped {value : Nat} (wraps : ¬value < 2^64) :
    (usize value : Checked ε Nat) = .error (.fault .wrapped) := if_neg wraps

theorem usize_then (f : Nat → Nat) {value : Nat} (grows : value ≤ f value) (next : Nat → Nat → Checked ε β) :
    (usize value >>= fun first => usize (f first) >>= next first) = usize (f value) >>= next value := by
  by_cases fits : value < 2^64
  · rw [usize_ok fits]
    rfl
  · rw [usize_wrapped fits,usize_wrapped fun small => fits (Nat.lt_of_le_of_lt grows small)]
    rfl

theorem slice_ok {bytes : Bytes} {start count : Nat} (room : start + count ≤ bytes.length) :
    (slice bytes start (start + count) : Checked ε Bytes) = .ok ((bytes.drop start).take count) := by
  unfold slice
  rw [if_pos ⟨Nat.le_add_right _ _,room⟩,Nat.add_sub_cancel_left]

/-- A run that decodes a value and says where it ends, and one that only says where: no fault, the same end, and an
error of one is an error of the other. -/
structure Agree (decode : Checked ε (α × Nat)) (skip : Checked ε Nat) : Prop where
  decoded : Clean decode
  skipped : Clean skip
  same : ∀ value consumed, decode = .ok (value,consumed) → skip = .ok consumed
  refused : ∀ error, decode = .error (.error error) → ∃ error', skip = .error (.error error')

theorem agree_error (error error' : ε) : Agree (.error (.error error) : Checked ε (α × Nat)) (.error (.error error')) :=
  ⟨nofun,nofun,nofun,fun _ _ => ⟨error',rfl⟩⟩

theorem agree_ok (value : α) (consumed : Nat) : Agree (.ok (value,consumed) : Checked ε (α × Nat)) (.ok consumed) :=
  ⟨nofun,nofun,fun _ _ same => by cases same; rfl,nofun⟩

theorem agree_usize {value : Nat} {decode : Nat → Checked ε (α × Nat)} {skip : Nat → Checked ε Nat} :
    Agree (usize value >>= decode) (usize value >>= skip) ↔ value < 2^64 ∧ Agree (decode value) (skip value) := by
  by_cases fits : value < 2^64
  · rw [usize_ok fits]
    exact ⟨fun agree => ⟨fits,agree⟩,fun both => both.2⟩
  · rw [usize_wrapped fits]
    exact ⟨fun agree => absurd rfl (agree.skipped .wrapped),fun both => absurd both.1 fits⟩

theorem agree_skip_usize {value : Nat} {decode : Checked ε (α × Nat)} {skip : Nat → Checked ε Nat} :
    Agree decode (usize value >>= skip) ↔ value < 2^64 ∧ Agree decode (skip value) := by
  by_cases fits : value < 2^64
  · rw [usize_ok fits]
    exact ⟨fun agree => ⟨fits,agree⟩,fun both => both.2⟩
  · rw [usize_wrapped fits]
    exact ⟨fun agree => absurd rfl (agree.skipped .wrapped),fun both => absurd both.1 fits⟩

end Checked

end ApexBase.Library
