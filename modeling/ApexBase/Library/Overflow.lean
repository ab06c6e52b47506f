import Mathlib.Data.Int.Basic
import Mathlib.Data.UInt

/-! Runs that calculate with 64-bit integers, in a build that stops where a result does not fit and in
one that wraps, and the calculation with all integers that both follow as long as its numbers fit. -/
namespace ApexBase.Library.Overflow

inductive Stop
  | refused (message : String)
  | panicked
  deriving DecidableEq

abbrev Run := Except Stop

def refuse {α : Type} (message : String) : Run α := .error (.refused message)

def Fits (exact : Int) : Prop := -2^63 ≤ exact ∧ exact < 2^63

instance (exact : Int) : Decidable (Fits exact) := inferInstanceAs (Decidable (_ ∧ _))

def int64 (checks : Bool) (exact : Int) : Run Int64 :=
  if Fits exact then .ok (Int64.ofInt exact) else if checks then .error .panicked else .ok (Int64.ofInt exact)

theorem toInt_ofInt {exact : Int} (fits : Fits exact) : (Int64.ofInt exact).toInt = exact :=
  Int64.toInt_ofInt_of_le fits.1 fits.2

variable {α β γ δ : Type}

/-- The run has the value of the calculation, or both have none. -/
inductive Agrees (reading : α → β) : Run α → Option β → Prop
  | value (result : α) : Agrees reading (.ok result) (some (reading result))
  | refused (message : String) : Agrees reading (refuse message) none

/-- The builds agree with the calculation if its numbers fit, and the one with checks stops if some do not. -/
structure Follows (reading : α → β) (run : Bool → Run α) (fits : Prop) (exact : Option β) : Prop where
  agrees : fits → ∀ checks, Agrees reading (run checks) exact
  panics : ¬ fits → run true = .error .panicked

variable {reading : α → β} {reading' : γ → δ} {run : Bool → Run α} {fits : Prop} {exact : Option β}

theorem follows_ok (reading : α → β) (value : α) : Follows reading (fun _ => .ok value) True (some (reading value)) :=
  ⟨fun _ _ => .value value,fun absurd_ => absurd trivial absurd_⟩

theorem follows_refuse (reading : α → β) (message : String) : Follows reading (fun _ => refuse message) True none :=
  ⟨fun _ _ => .refused message,fun absurd_ => absurd trivial absurd_⟩

theorem follows_int64 (exact : Int) : Follows Int64.toInt (fun checks => int64 checks exact) (Fits exact)
    (some exact) := by
  constructor
  · intro fits checks
    have agrees : Agrees Int64.toInt _ _ := .value (Int64.ofInt exact)
    rw [toInt_ofInt fits] at agrees
    unfold int64
    rwa [if_pos fits]
  · intro wide
    unfold int64
    rw [if_neg wide,if_pos rfl]

section
variable (follows : Follows reading run fits exact)
include follows

theorem Follows.congr {fits' : Prop} {exact' : Option β} (same : fits ↔ fits')
    (equal : exact = exact') : Follows reading run fits' exact' := by
  subst equal
  exact ⟨fun here => follows.agrees (same.mpr here),fun wide => follows.panics fun here => wide (same.mp here)⟩

theorem Follows.bind {next : Bool → α → Run γ} (fits' : β → Prop) (exact' : β → Option δ)
    (rest : ∀ value, Follows reading' (fun checks => next checks value) (fits' (reading value))
      (exact' (reading value))) :
    Follows reading' (fun checks => run checks >>= next checks) (fits ∧ ∀ value, exact = some value →
      fits' value) (exact.bind exact') := by
  constructor
  · rintro ⟨here,later⟩ checks
    have first := follows.agrees here checks
    generalize run checks = result at first ⊢
    cases first with
    | value value => exact (rest value).agrees (later _ rfl) checks
    | refused message => exact .refused message
  · intro wide
    by_cases here : fits
    · have first := follows.agrees here true
      generalize run true = result at first ⊢
      cases first with
      | value value => exact (rest value).panics fun later => wide ⟨here,fun other same => Option.some.inj same ▸ later⟩
      | refused message => exact absurd ⟨here,nofun⟩ wide
    · rw [follows.panics here]
      rfl

theorem Follows.map {f : α → γ} {g : β → δ} (commutes : ∀ value, reading' (f value) = g (reading value)) :
    Follows reading' (fun checks => f <$> run checks) fits (exact.map g) := by
  constructor
  · intro here checks
    have first := follows.agrees here checks
    generalize run checks = result at first ⊢
    cases first with
    | value value =>
      rw [Option.map_some,← commutes]
      exact .value (f value)
    | refused message => exact .refused message
  · intro wide
    rw [follows.panics wide]
    rfl

end

end ApexBase.Library.Overflow
