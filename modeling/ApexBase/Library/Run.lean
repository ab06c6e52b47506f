import Mathlib.Data.List.Basic
import Mathlib.Data.UInt

/-! Runs of a state machine given by an executable step. `Run` is the relation the invariant rules
are about; `play` computes one run from a list of actions. A guard on the state before each action
restricts the runs considered. -/
namespace ApexBase.Library

variable {σ α ε : Type}

/-- Every finite run from `start` in which each action is enabled and allowed. -/
inductive Run (exec : σ → α → Option (ε × σ)) (allowed : σ → α → Bool) (start : σ) : List ε → σ → Prop
  | nil : Run exec allowed start [] start
  | snoc {trace : List ε} {state next : σ} {action : α} {event : ε}
      (before : Run exec allowed start trace state) (permitted : allowed state action = true)
      (stepped : exec state action = some (event,next)) :
      Run exec allowed start (trace ++ [event]) next

def play (exec : σ → α → Option (ε × σ)) (allowed : σ → α → Bool) : σ → List α → Option (List ε × σ)
  | state,[] => some ([],state)
  | state,action :: rest =>
    if allowed state action then
      (exec state action).bind fun (event,next) =>
        (play exec allowed next rest).map fun (trace,final) => (event :: trace,final)
    else none

namespace Run

variable {exec : σ → α → Option (ε × σ)} {allowed : σ → α → Bool} {start : σ}

theorem append {first second : List ε} {middle final : σ} (a : Run exec allowed start first middle)
    (b : Run exec allowed middle second final) : Run exec allowed start (first ++ second) final := by
  induction b with
  | nil => simpa using a
  | snoc _ permitted stepped ih =>
    rw [← List.append_assoc]
    exact ih.snoc permitted stepped

theorem of_play {actions : List α} {trace : List ε} {final : σ}
    (played : play exec allowed start actions = some (trace,final)) : Run exec allowed start trace final := by
  induction actions generalizing start trace with
  | nil =>
    simp only [play,Option.some.injEq,Prod.mk.injEq] at played
    obtain ⟨rfl,rfl⟩ := played
    exact .nil
  | cons action rest ih =>
    simp only [play] at played
    split at played
    · rename_i permitted
      obtain ⟨⟨event,next⟩,stepped,continued⟩ := Option.bind_eq_some_iff.mp played
      obtain ⟨⟨tail,last⟩,restPlayed,same⟩ := Option.map_eq_some_iff.mp continued
      simp only [Prod.mk.injEq] at same
      obtain ⟨rfl,rfl⟩ := same
      have first : Run exec allowed start ([] ++ [event]) next := Run.nil.snoc permitted stepped
      exact first.append (ih restPlayed)
    · cases played

theorem of_play_twice {stricter : σ → α → Bool} {first second : List α} {trace continued : List ε} {middle final : σ}
    (played : play exec allowed start first = some (trace,middle))
    (resumed : play exec stricter middle second = some (continued,final)) :
    Run exec allowed start trace middle ∧ Run exec stricter middle continued final :=
  ⟨of_play played,of_play resumed⟩

/-- The invariant rule: what holds at the start and is kept by every step of a run holds after the
run. The property may mention the trace so far. -/
theorem invariant {P : List ε → σ → Prop} (initial : P [] start)
    (preserved : ∀ trace state action event next, Run exec allowed start trace state → P trace state →
      allowed state action = true → exec state action = some (event,next) → P (trace ++ [event]) next)
    {trace : List ε} {final : σ} (run : Run exec allowed start trace final) : P trace final := by
  induction run with
  | nil => exact initial
  | snoc before permitted stepped ih => exact preserved _ _ _ _ _ before ih permitted stepped

theorem weaken {weaker : σ → α → Bool}
    (implied : ∀ state action, allowed state action = true → weaker state action = true) {trace : List ε} {final : σ}
    (run : Run exec allowed start trace final) : Run exec weaker start trace final := by
  induction run with
  | nil => exact .nil
  | snoc _ permitted stepped ih => exact ih.snoc (implied _ _ permitted) stepped

end Run

end ApexBase.Library
