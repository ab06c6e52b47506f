import Mathlib.Data.List.Basic
import Mathlib.Order.Basic
import Mathlib.Data.UInt

/-! Searching: the first occurrence of a list in another, and the bisection of an
interval by a three-way comparison. -/
namespace ApexBase.Library.Search

section Sublist
variable {α : Type} [DecidableEq α]

def occursAt (needle haystack : List α) (start : Nat) : Bool := needle.isPrefixOf (haystack.drop start)

def findSub (haystack needle : List α) : Option Nat :=
  (List.range (haystack.length + 1)).find? (occursAt needle haystack)

theorem occursAt_iff {needle haystack : List α} {start : Nat} :
    occursAt needle haystack start = true ↔ (haystack.drop start).take needle.length = needle := by
  rw [occursAt,List.isPrefixOf_iff_prefix,List.prefix_iff_eq_take]
  exact eq_comm

theorem occursAt_drop (needle haystack : List α) (start offset : Nat) :
    occursAt needle (haystack.drop start) offset = occursAt needle haystack (start + offset) := by
  rw [occursAt,List.drop_drop,occursAt]

theorem findSub_eq_some {haystack needle : List α} {start : Nat} (found : findSub haystack needle = some start) :
    occursAt needle haystack start = true ∧ ∀ earlier < start, occursAt needle haystack earlier = false := by
  obtain ⟨occurs,_,first⟩ := List.find?_range_eq_some.mp found
  exact ⟨occurs,fun earlier less => by simpa using first earlier less⟩

theorem findSub_of_occurs {haystack needle : List α} {start : Nat} (inside : start ≤ haystack.length)
    (occurs : occursAt needle haystack start = true) : (findSub haystack needle).isSome = true :=
  List.find?_isSome.mpr ⟨start, List.mem_range.mpr (by omega), occurs⟩

variable (α) in
/-- A search for a needle in a haystack: the first place where it occurs, none if it does not. -/
structure Finder where
  find : List α → List α → Option Nat
  first : ∀ haystack needle start, find haystack needle = some start →
    occursAt needle haystack start = true ∧ ∀ earlier < start, occursAt needle haystack earlier = false
  complete : ∀ haystack needle start, start ≤ haystack.length → occursAt needle haystack start = true →
    (find haystack needle).isSome = true

def Finder.scan : Finder α where
  find := findSub
  first _ _ _ := findSub_eq_some
  complete _ _ _ := findSub_of_occurs

theorem Finder.of_occurs (finder : Finder α) {haystack needle : List α} {start : Nat} (inside : start ≤ haystack.length)
    (occurs : occursAt needle haystack start = true) : ∃ first ≤ start, finder.find haystack needle = some first := by
  obtain ⟨first, found⟩ := Option.isSome_iff_exists.mp (finder.complete haystack needle start inside occurs)
  refine ⟨first, ?_, found⟩
  by_contra later
  have absent := (finder.first _ _ _ found).2 start (by omega)
  rw [occurs] at absent
  cases absent

end Sublist

/-- Halves the interval until a midpoint compares equal: that midpoint, if there is one,
and the interval that was left. -/
def bisect (order : Nat → Ordering) : Nat → Nat → Nat → Option Nat × Nat × Nat
  | 0,low,high => (none,low,high)
  | fuel + 1,low,high =>
    if low < high then
      let mid := (low + high) / 2
      match order mid with
      | .lt => bisect order fuel (mid + 1) high
      | .gt => bisect order fuel low mid
      | .eq => (some mid,low,high)
    else (none,low,high)

def locateIn (first last : Nat) (index : Nat) : Ordering :=
  if index < first then .lt else if last < index then .gt else .eq

theorem bisect_congr {order other : Nat → Ordering} (fuel : Nat) {low high : Nat}
    (same : ∀ index < high, order index = other index) : bisect order fuel low high = bisect other fuel low high := by
  induction fuel generalizing low high with
  | zero => rfl
  | succ fuel ih =>
    unfold bisect
    split
    · have inside : (low + high) / 2 < high := by omega
      simp only [same _ inside]
      cases other ((low + high) / 2) with
      | lt => exact ih same
      | gt => exact ih fun index less => same index (by omega)
      | eq => rfl
    · rfl

theorem bisect_locateIn {first last : Nat} (fuel : Nat) {low high : Nat} (ordered : first ≤ last) (lower : low ≤ first)
    (upper : last < high) (enough : high - low ≤ fuel) :
    ∃ mid bottom top, bisect (locateIn first last) fuel low high = (some mid,bottom,top) ∧ first ≤ mid ∧ mid ≤ last ∧
      last < top ∧ top ≤ high := by
  induction fuel generalizing low high with
  | zero => omega
  | succ fuel ih =>
    unfold bisect
    rw [if_pos (by omega)]
    have inside : low ≤ (low + high) / 2 ∧ (low + high) / 2 < high := by omega
    rcases Nat.lt_or_ge ((low + high) / 2) first with below | notBelow
    · simp only [locateIn,if_pos below]
      exact ih (by omega) upper (by omega)
    · rcases Nat.lt_or_ge last ((low + high) / 2) with above | notAbove
      · simp only [locateIn,if_neg (Nat.not_lt.mpr notBelow),if_pos above]
        obtain ⟨mid,bottom,top,landed,rest⟩ := ih lower above (by omega)
        exact ⟨mid,bottom,top,landed,rest.1,rest.2.1,rest.2.2.1,by omega⟩
      · simp only [locateIn,if_neg (Nat.not_lt.mpr notBelow),if_neg (Nat.not_lt.mpr notAbove)]
        exact ⟨_,low,high,rfl,notBelow,notAbove,upper,Nat.le_refl _⟩

/-- A bisection lands somewhere if a position is after all that compare less and before
all that compare greater. -/
theorem bisect_found (order : Nat → Ordering) (fuel : Nat) {low high target : Nat} (lower : low ≤ target)
    (upper : target < high) (enough : high - low ≤ fuel) (below : ∀ index < high, order index = .lt → index < target)
    (above : ∀ index < high, order index = .gt → target < index) :
    ∃ mid bottom top, bisect order fuel low high = (some mid,bottom,top) := by
  induction fuel generalizing low high with
  | zero => omega
  | succ fuel ih =>
    unfold bisect
    rw [if_pos (by omega)]
    have inside : low ≤ (low + high) / 2 ∧ (low + high) / 2 < high := by omega
    cases here : order ((low + high) / 2) with
    | lt =>
      have less := below _ inside.2 here
      simp only [here]
      exact ih (by omega) upper (by omega) below above
    | gt =>
      have greater := above _ inside.2 here
      simp only [here]
      exact ih lower greater (by omega) (fun index less => below index (by omega)) fun index less =>
        above index (by omega)
    | eq =>
      simp only [here]
      exact ⟨_,low,high,rfl⟩

theorem bisect_hit {order : Nat → Ordering} (fuel : Nat) {low high mid bottom top : Nat}
    (landed : bisect order fuel low high = (some mid,bottom,top)) : order mid = .eq ∧ mid < high := by
  induction fuel generalizing low high with
  | zero => simp [bisect] at landed
  | succ fuel ih =>
    unfold bisect at landed
    split at landed
    · have inside : (low + high) / 2 < high := by omega
      cases here : order ((low + high) / 2) with
      | lt =>
        simp only [here] at landed
        exact ih landed
      | gt =>
        simp only [here] at landed
        obtain ⟨equal,less⟩ := ih landed
        exact ⟨equal,by omega⟩
      | eq =>
        simp only [here,Prod.mk.injEq,Option.some.injEq] at landed
        obtain ⟨rfl,_⟩ := landed
        exact ⟨here,inside⟩
    · simp at landed

end ApexBase.Library.Search
