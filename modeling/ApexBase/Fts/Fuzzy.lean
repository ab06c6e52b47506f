import ApexBase.Fts.Analyzer
import ApexBase.Library.EditDistance

/-! The bounded edit distance of fuzzy search (`fts/analyzer.rs`): a table of which two rows are kept, given up
as soon as a row has no entry within the bound. -/
namespace ApexBase.Fts
open Library.EditDistance

/-- The entries of a row behind the one on the left, below those of the row above. -/
def cells (a : Char) : Nat → Nat → List Nat → Text → List Nat
  | left,diagonal,above :: previous,b :: right =>
    let cell := min (min (above + 1) (left + 1)) (diagonal + if a ≠ b then 1 else 0)
    cell :: cells a cell above previous right
  | _,_,_,_ => []

/-- The rows for the characters left, from the one below `previous` on, which is the row of number `i`. -/
def rows (right : Text) (maxDistance : Nat) : Nat → List Nat → Text → Option Nat
  | _,previous,[] =>
    let last := (previous[right.length]?).getD 0
    if last ≤ maxDistance then some last else none
  | i,previous,a :: left =>
    let current := (i + 1) :: cells a (i + 1) ((previous[0]?).getD 0) (previous.drop 1) right
    let rowMin := (current.drop 1).foldl min (i + 1)
    if maxDistance < rowMin then none else rows right maxDistance (i + 1) current left

def levenshtein (left right : Text) (maxDistance : Nat) : Option Nat :=
  if maxDistance < (left.length - right.length) + (right.length - left.length) then none
  else rows right maxDistance 0 (List.range (right.length + 1)) left

/-- The distances to a text as it grows by the characters still to read. -/
def distances (read : Text) : Text → Text → List Nat
  | seen,[] => [distance read seen]
  | seen,b :: right => distance read seen :: distances read (b :: seen) right

section Table
variable {read seen right : Text} {maxDistance : Nat}

private theorem distances_head (read seen right : Text) :
    distances read seen right = distance read seen :: (distances read seen right).drop 1 := by
  cases right <;> rfl

private theorem first_row (seen right : Text) :
    distances [] seen right = (List.range (right.length + 1)).map (· + seen.length) := by
  induction right generalizing seen with
  | nil =>
    rw [distances,distance_nil_left]
    simp
  | cons b right ih =>
    have shifted : List.range (right.length + 1 + 1) = 0 :: (List.range (right.length + 1)).map Nat.succ :=
      List.range_succ_eq_map
    rw [distances,distance_nil_left,ih,List.length_cons,List.length_cons,shifted,List.map_cons,List.map_map,
      Nat.zero_add]
    refine congrArg _ (List.map_congr_left fun j _ => ?_)
    rw [Function.comp_apply]
    omega

theorem cells_distances (a : Char) (read seen right : Text) :
    cells a (distance (a :: read) seen) (distance read seen) ((distances read seen right).drop 1) right =
      (distances (a :: read) seen right).drop 1 := by
  induction right generalizing seen with
  | nil => rfl
  | cons b right ih =>
    have cell : min (min (distance read (b :: seen) + 1) (distance (a :: read) seen + 1)) (distance read seen + if a ≠
      b then 1 else 0) =
        distance (a :: read) (b :: seen) := by
      rw [distance_cons]
      by_cases same : a = b
      · rw [if_pos same,if_neg (not_not.mpr same)]
      · rw [if_neg same,if_pos same]
    change cells a _ _ (distances read (b :: seen) right) (b :: right) = distances (a :: read) (b :: seen) right
    rw [distances_head read,cells]
    rw [cell,ih,← distances_head]

private theorem last_entry (read seen right : Text) :
    ((distances read seen right)[right.length]?).getD 0 = distance read (right.reverse ++ seen) := by
  induction right generalizing seen with
  | nil => rfl
  | cons b right ih =>
    rw [distances,List.length_cons,List.getElem?_cons_succ,ih,List.reverse_cons,List.append_assoc]
    rfl

private theorem mem_distances {rest : Text} (read seen right : Text) (long : seen <:+ rest)
    (part : rest <:+ right.reverse ++ seen) :
    distance read rest ∈ distances read seen right := by
  induction right generalizing seen with
  | nil =>
    rw [List.reverse_nil,List.nil_append] at part
    rw [part.eq_of_length_le long.length_le]
    exact List.mem_cons_self
  | cons b right ih =>
    rw [List.reverse_cons,List.append_assoc,List.singleton_append] at part
    rw [distances]
    by_cases same : rest = seen
    · rw [same]
      exact List.mem_cons_self
    · refine List.mem_cons_of_mem _ (ih (b :: seen) ?_ part)
      have longer : seen.length < rest.length := by
        refine lt_of_le_of_ne long.length_le fun equal => same ?_
        exact (long.eq_of_length equal).symm
      exact List.suffix_of_suffix_length_le (List.suffix_append _ _) part longer

private theorem lt_foldl_min {bound start : Nat} {entries : List Nat} :
    bound < entries.foldl min start ↔ bound < start ∧ ∀ entry ∈ entries, bound < entry := by
  induction entries generalizing start with
  | nil => exact (and_iff_left (List.forall_mem_nil _)).symm
  | cons entry entries ih =>
    rw [List.foldl_cons,ih,lt_min_iff,List.forall_mem_cons,and_assoc]

private theorem all_above (more read right : Text) (above : ∀ entry ∈ distances read [] right, maxDistance < entry) :
    maxDistance < distance (more ++ read) right.reverse := by
  have near : ∀ text : Text, ∃ rest, rest <:+ text ∧ distance read rest ≤ distance (more ++ read) text := by
    induction more with
    | nil => exact fun text => ⟨text,List.suffix_refl text,Nat.le_refl _⟩
    | cons c more ih =>
      intro text
      obtain ⟨rest,part,less⟩ := exists_suffix c (more ++ read) text
      obtain ⟨rest',part',less'⟩ := ih rest
      exact ⟨rest',part'.trans part,less'.trans less⟩
  obtain ⟨rest,part,less⟩ := near right.reverse
  have member := mem_distances read [] right (List.nil_suffix (l := rest)) (by rw [List.append_nil]; exact part)
  exact Nat.lt_of_lt_of_le (above _ member) less

theorem rows_eq (left read right : Text) (maxDistance : Nat) :
    rows right maxDistance read.length (distances read [] right) left =
    if distance (left.reverse ++ read) right.reverse ≤ maxDistance then
      some (distance (left.reverse ++ read) right.reverse) else none := by
  induction left generalizing read with
  | nil =>
    rw [rows,last_entry,List.append_nil]
    rfl
  | cons a left ih =>
    have first : distance (a :: read) [] = read.length + 1 := distance_nil_right _
    have zero : ((distances read [] right)[0]?).getD 0 = distance read [] := by
      rw [distances_head]
      rfl
    have current : (read.length + 1) :: cells a (read.length + 1) (((distances read [] right)[0]?).getD 0)
      ((distances read [] right).drop 1) right =
        distances (a :: read) [] right := by
      rw [zero,← first,cells_distances,← distances_head]
    rw [rows,current,List.reverse_cons,List.append_assoc,List.singleton_append]
    split
    · rename_i beyond
      have above : ∀ entry ∈ distances (a :: read) [] right, maxDistance < entry := by
        obtain ⟨start,others⟩ := lt_foldl_min.mp beyond
        rw [distances_head]
        refine List.forall_mem_cons.mpr ⟨?_,others⟩
        rw [first]
        exact start
      rw [if_neg (Nat.not_le_of_lt (all_above left.reverse (a :: read) right above))]
    · exact ih (a :: read)

end Table

theorem levenshtein_eq (left right : Text) (maxDistance : Nat) :
    levenshtein left right maxDistance = if distance left right ≤ maxDistance then some (distance left right)
      else none := by
  rw [levenshtein]
  split
  · rename_i apart
    have far := length_le_distance left right
    rw [if_neg (by omega)]
  · have whole := rows_eq left [] right maxDistance
    rw [first_row,List.append_nil,distance_reverse] at whole
    simpa using whole

/-- The bounded distance is the least number of edits if that is within the bound. -/
theorem levenshtein_exact (left right : Text) (maxDistance : Nat) :
    (∀ d, levenshtein left right maxDistance = some d ↔ IsLeast {n | Edits n left right} d ∧ d ≤ maxDistance) ∧
      (levenshtein left right maxDistance = none ↔ ∀ n ≤ maxDistance, ¬ Edits n left right) := by
  have least := isLeast_distance left right
  rw [levenshtein_eq]
  constructor
  · intro d
    constructor
    · intro found
      split at found
      · rename_i within
        cases found
        exact ⟨least,within⟩
      · cases found
    · rintro ⟨other,within⟩
      obtain rfl := other.unique least
      exact if_pos within
  · split
    · rename_i within
      exact iff_of_false (by rintro ⟨⟩) fun none_ => absurd least.1 (none_ _ within)
    · rename_i beyond
      exact ⟨fun _ n within edits => beyond ((least.2 edits).trans within),fun _ => rfl⟩

example : levenshtein "kitten".toList "sitting".toList 2 = none ∧ levenshtein "kitten".toList "sitting".toList 3 =
    some 3 := by decide

end ApexBase.Fts
