import ApexBase.Library.Traverse

/-! Scans of a range of places, alone or in parts, that gather what they meet. -/
namespace ApexBase.Library.Scan
variable {R V : Type}

/-- The places from `lo` up to `hi`, one after another; `none` if one has no value. -/
def scan (get : Nat → Option V) (add : R → V → R) (start : R) (lo hi : Nat) : Option R :=
  (List.range' lo (hi - lo)).foldlM (fun gathered place => (get place).map (add gathered)) start

/-- What is gathered covers the value that is added, and all that it covered before. -/
structure Gathers (add : R → V → R) (Covers : R → V → Prop) : Prop where
  own : ∀ gathered value, Covers (add gathered value) value
  kept : ∀ gathered value other, Covers gathered value → Covers (add gathered other) value

variable {get : Nat → Option V} {add : R → V → R} {Covers : R → V → Prop} {start gathered : R} {lo hi : Nat}

theorem scan_step (inside : lo < hi) : scan get add start lo hi = (get lo).bind fun value =>
    scan get add (add start value) (lo + 1) hi := by
  obtain ⟨rest,same⟩ := Nat.exists_eq_add_of_lt inside
  have size : hi - lo = rest + 1 := by omega
  have less : hi - (lo + 1) = rest := by omega
  rw [scan,size,List.range'_succ,List.foldlM_cons]
  cases get lo with
  | none => rfl
  | some value =>
    rw [Option.bind_some,scan,less]
    rfl

theorem scan_empty (outside : hi ≤ lo) : scan get add start lo hi = some start := by
  rw [scan,Nat.sub_eq_zero_of_le outside]
  rfl

theorem scan_kept (gathers : Gathers add Covers) {value : V} (covered : Covers start value)
    (found : scan get add start lo hi = some gathered) :
    Covers gathered value := by
  induction rest : hi - lo generalizing lo start with
  | zero =>
    rw [scan_empty (by omega)] at found
    rwa [← Option.some.inj found]
  | succ rest ih =>
    rw [scan_step (by omega)] at found
    obtain ⟨other,_,found⟩ := Option.bind_eq_some_iff.mp found
    exact ih (gathers.kept _ _ other covered) found (by omega)

theorem scan_covers (gathers : Gathers add Covers) (found : scan get add start lo hi = some gathered) {place : Nat}
    (after : lo ≤ place)
    (before : place < hi) : ∃ value, get place = some value ∧ Covers gathered value := by
  induction rest : place - lo generalizing lo start with
  | zero =>
    have same : place = lo := by omega
    subst same
    rw [scan_step before] at found
    obtain ⟨value,here,found⟩ := Option.bind_eq_some_iff.mp found
    exact ⟨value,here,scan_kept gathers (gathers.own start value) found⟩
  | succ rest ih =>
    rw [scan_step (by omega)] at found
    obtain ⟨value,_,found⟩ := Option.bind_eq_some_iff.mp found
    exact ih found (by omega) (by omega)

theorem scan_isSome (all : ∀ place, lo ≤ place → place < hi → (get place).isSome) :
    (scan get add start lo hi).isSome := by
  induction rest : hi - lo generalizing lo start with
  | zero =>
    rw [scan_empty (by omega)]
    rfl
  | succ rest ih =>
    obtain ⟨value,here⟩ := Option.isSome_iff_exists.mp (all lo (Nat.le_refl _) (by omega))
    rw [scan_step (by omega),here]
    exact ih (fun place after before => all place (by omega) before) (by omega)

def parts (lo hi step : Nat) : List (Nat × Nat) :=
  (List.range ((hi - lo + step - 1) / step)).map fun part => (lo + part * step,min (lo + part * step + step) hi)

theorem mem_parts {step place : Nat} (wide : 0 < step) (after : lo ≤ place) (before : place < hi) :
    ∃ bounds ∈ parts lo hi step, bounds.1 ≤ place ∧ place < bounds.2 := by
  have split := Nat.div_add_mod (place - lo) step
  have below := Nat.mod_lt (place - lo) wide
  rw [Nat.mul_comm] at split
  refine ⟨_,List.mem_map.mpr ⟨(place - lo) / step,List.mem_range.mpr ?_,rfl⟩,?_,?_⟩
  · refine (Nat.le_div_iff_mul_le wide).mpr ?_
    rw [Nat.succ_mul]
    omega
  · change lo + (place - lo) / step * step ≤ place
    omega
  · change place < min (lo + (place - lo) / step * step + step) hi
    omega

theorem parts_inside {step : Nat} {bounds : Nat × Nat} (member : bounds ∈ parts lo hi step) :
    lo ≤ bounds.1 ∧ bounds.2 ≤ hi := by
  obtain ⟨part,_,rfl⟩ := List.mem_map.mp member
  exact ⟨Nat.le_add_right _ _,Nat.min_le_right _ _⟩

variable {merge : R → R → R}

/-- What is gathered in one part or another is covered by all parts together. -/
structure Merges (merge : R → R → R) (Covers : R → V → Prop) : Prop where
  left : ∀ one other value, Covers one value → Covers (merge one other) value
  right : ∀ one other value, Covers other value → Covers (merge one other) value

theorem foldl_merge_kept (merges : Merges merge Covers) {value : V} {others : List R} (covered : Covers start value) :
    Covers (others.foldl merge start) value := by
  induction others generalizing start with
  | nil => exact covered
  | cons other rest ih => exact ih (merges.left _ other value covered)

theorem foldl_merge_covers (merges : Merges merge Covers) {value : V} {others : List R} {one : R}
    (member : one ∈ others) (covered : Covers one value) :
    Covers (others.foldl merge start) value := by
  induction others generalizing start with
  | nil => cases member
  | cons other rest ih =>
    rw [List.foldl_cons]
    rcases List.mem_cons.mp member with rfl | later
    · exact foldl_merge_kept merges (merges.right start one value covered)
    · exact ih later

end ApexBase.Library.Scan
