import Mathlib.Data.Option.Basic
import Mathlib.Data.UInt

/-! A cache of one value under a key that is computed from the state. -/
namespace ApexBase.Library.Keyed
variable {σ K V : Type} [DecidableEq K] (key : σ → K) (value : σ → V)

/-- The value of the cache where its key is that of the state, and else the value of the state, which is kept. -/
def read (cache : Option (K × V)) (state : σ) : V × Option (K × V) :=
  match cache with
  | some (kept,found) => if kept = key state then (found,cache) else (value state,some (key state,value state))
  | none => (value state,some (key state,value state))

def filledBy (filled : Option σ) (state : σ) : σ :=
  match filled with
  | some earlier => if key earlier = key state then earlier else state
  | none => state

def Holds (cache : Option (K × V)) (filled : Option σ) : Prop := cache = filled.map fun state => (key state,value state)

variable {key value} {cache : Option (K × V)} {filled : Option σ} (holds : Holds key value cache filled) (state : σ)
include holds

theorem Holds.read : Holds key value (Keyed.read key value cache state).2 (some (filledBy key filled state)) := by
  rw [Holds] at holds
  subst holds
  cases filled with
  | none => rfl
  | some earlier =>
    unfold Keyed.read filledBy Holds
    dsimp only [Option.map_some]
    split
    · rfl
    · rfl

theorem Holds.answer : (Keyed.read key value cache state).1 = value (filledBy key filled state) := by
  rw [Holds] at holds
  subst holds
  cases filled with
  | none => rfl
  | some earlier =>
    unfold Keyed.read filledBy
    dsimp only [Option.map_some]
    split
    · rfl
    · rfl

theorem Holds.right_iff : (Keyed.read key value cache state).1 = value state ↔
    ∀ earlier, filled = some earlier → key earlier = key state → value earlier = value state := by
  rw [holds.answer]
  cases filled with
  | none => exact ⟨fun _ => nofun,fun _ => rfl⟩
  | some earlier =>
    unfold filledBy
    dsimp only
    split
    · rename_i same
      constructor
      · intro right other found _
        cases found
        exact right
      · exact fun right => right earlier rfl same
    · rename_i other
      refine iff_of_true rfl fun kept found same => ?_
      cases found
      exact absurd same other

end ApexBase.Library.Keyed
