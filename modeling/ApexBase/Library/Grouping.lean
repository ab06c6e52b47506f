import Mathlib.Data.List.Basic
import Mathlib.Data.List.Nodup
import Mathlib.Data.UInt

/-! Groups in the order in which their keys come first, each with a state that its items update. -/
namespace ApexBase.Library.Grouping
variable {K S ρ : Type} [DecidableEq K]

/-- Updates the state of a key, or adds the key. -/
def upsert (key : K) (f : Option S → S) : List (K × S) → List (K × S)
  | [] => [(key,f none)]
  | (k,state) :: rest => if k = key then (k,f (some state)) :: rest else (k,state) :: upsert key f rest

theorem lookup_upsert (key k : K) (f : Option S → S) (groups : List (K × S)) :
    (upsert key f groups).lookup k = if k = key then some (f (groups.lookup key)) else groups.lookup k := by
  induction groups with
  | nil =>
    unfold upsert
    rw [List.lookup_cons]
    by_cases same : k = key
    · simp [same]
    · rw [beq_eq_false_iff_ne.mpr same,if_neg same]
  | cons entry rest ih =>
    obtain ⟨other,state⟩ := entry
    unfold upsert
    by_cases here : other = key
    · subst here
      rw [if_pos rfl,List.lookup_cons,List.lookup_cons,List.lookup_cons]
      by_cases same : k = other
      · simp [same]
      · simp [same,beq_eq_false_iff_ne.mpr same]
    · rw [if_neg here,List.lookup_cons,ih,List.lookup_cons,List.lookup_cons,beq_eq_false_iff_ne.mpr (Ne.symm here)]
      by_cases same : k = other
      · subst same
        simp [here]
      · simp [beq_eq_false_iff_ne.mpr same]

theorem keys_upsert (key : K) (f : Option S → S) (groups : List (K × S)) :
    (upsert key f groups).map Prod.fst = if key ∈ groups.map Prod.fst then groups.map Prod.fst
      else groups.map Prod.fst ++ [key] := by
  induction groups with
  | nil => rfl
  | cons entry rest ih =>
    obtain ⟨other,state⟩ := entry
    unfold upsert
    by_cases here : other = key
    · subst here
      simp
    · rw [if_neg here,List.map_cons,ih,List.map_cons]
      by_cases known : key ∈ rest.map Prod.fst
      · rw [if_pos known,if_pos (List.mem_cons_of_mem _ known)]
      · rw [if_neg known,if_neg fun member => (List.mem_cons.mp member).elim (fun same => here same.symm) known,
          List.cons_append]

theorem nodup_upsert {key : K} (f : Option S → S) {groups : List (K × S)} (distinct : (groups.map Prod.fst).Nodup) :
    ((upsert key f groups).map Prod.fst).Nodup := by
  rw [keys_upsert]
  split
  · exact distinct
  · rename_i fresh
    rw [List.nodup_append]
    refine ⟨distinct,List.nodup_singleton _,fun a inside b here => ?_⟩
    rintro rfl
    rw [List.mem_singleton.mp here] at inside
    exact fresh inside

theorem lookup_eq_some {key : K} {state : S} {groups : List (K × S)} (distinct : (groups.map Prod.fst).Nodup) :
    groups.lookup key = some state ↔ (key,state) ∈ groups := by
  induction groups with
  | nil => simp
  | cons entry rest ih =>
    obtain ⟨other,found⟩ := entry
    obtain ⟨fresh,later⟩ := List.nodup_cons.mp distinct
    rw [List.lookup_cons,List.mem_cons]
    by_cases same : key = other
    · subst same
      simp only [beq_self_eq_true,Option.some.injEq,Prod.mk.injEq,true_and]
      constructor
      · exact fun found => Or.inl found.symm
      · rintro (same | member)
        · exact same.symm
        · exact absurd (List.mem_map_of_mem (f := Prod.fst) member) fresh
    · simp only [beq_eq_false_iff_ne.mpr same,ih later,Prod.mk.injEq,same,false_and,false_or]

theorem lookup_eq_none {key : K} {groups : List (K × S)} : groups.lookup key = none ↔ key ∉ groups.map Prod.fst := by
  rw [List.lookup_eq_none_iff]
  constructor
  · intro other member
    obtain ⟨entry,inside,rfl⟩ := List.mem_map.mp member
    exact absurd (other entry inside) (by simp)
  · intro absent entry inside
    have other : key ≠ entry.1 := by
      rintro rfl
      exact absent (List.mem_map_of_mem inside)
    exact bne_iff_ne.mpr other

theorem filter_eq_lookup (key : K) {groups : List (K × S)} (distinct : (groups.map Prod.fst).Nodup) :
    (groups.filter fun entry => decide (entry.1 = key)) = (groups.lookup key).toList.map fun state => (key,state) := by
  induction groups with
  | nil => rfl
  | cons entry rest ih =>
    obtain ⟨other,found⟩ := entry
    obtain ⟨fresh,later⟩ := List.nodup_cons.mp distinct
    rw [List.lookup_cons]
    by_cases same : other = key
    · subst same
      have none_ : rest.lookup other = none := lookup_eq_none.mpr fresh
      rw [List.filter_cons_of_pos (by simp),ih later,none_,beq_self_eq_true]
      rfl
    · rw [List.filter_cons_of_neg (by simpa using same),ih later,beq_eq_false_iff_ne.mpr (Ne.symm same)]

theorem upsert_eq_set {key : K} (f : Option S → S) {groups : List (K × S)} (distinct : (groups.map Prod.fst).Nodup)
    {place : Nat} {state : S}
    (here : groups[place]? = some (key,state)) : upsert key f groups = groups.set place (key,f (some state)) := by
  induction groups generalizing place with
  | nil => simp at here
  | cons entry rest ih =>
    obtain ⟨fresh,later⟩ := List.nodup_cons.mp distinct
    cases place with
    | zero =>
      obtain rfl := Option.some.inj here
      unfold upsert
      rw [if_pos rfl,List.set_cons_zero]
    | succ place =>
      rw [List.getElem?_cons_succ] at here
      have member : key ∈ rest.map Prod.fst := List.mem_map_of_mem (f := Prod.fst) (List.mem_of_getElem? here)
      have other : entry.1 ≠ key := by
        rintro rfl
        exact fresh member
      unfold upsert
      rw [if_neg other,ih later here,List.set_cons_succ]

theorem upsert_eq_append {key : K} (f : Option S → S) {groups : List (K × S)} (absent : groups.lookup key = none) :
    upsert key f groups = groups ++ [(key,f none)] := by
  induction groups with
  | nil => rfl
  | cons entry rest ih =>
    have missing := lookup_eq_none.mp absent
    rw [List.map_cons,List.mem_cons,not_or] at missing
    unfold upsert
    rw [if_neg (Ne.symm missing.1),ih (lookup_eq_none.mpr missing.2),List.cons_append]

theorem upsert_upsert (key : K) (f g : Option S → S) (groups : List (K × S)) :
    upsert key g (upsert key f groups) = upsert key (fun state => g (some (f state))) groups := by
  induction groups with
  | nil => simp [upsert]
  | cons entry rest ih =>
    obtain ⟨other,state⟩ := entry
    by_cases here : other = key
    · simp [upsert,here]
    · simp [upsert,here,ih]

section
variable (key : ρ → K) (step : ρ → Option S → S) (items : List ρ) (groups : List (K × S)) (k : K)

theorem lookup_foldl :
    (items.foldl (fun groups item => upsert (key item) (step item) groups) groups).lookup k =
      (items.filter fun item => decide (key item = k)).foldl (fun state item =>
        some (step item state)) (groups.lookup k) := by
  induction items generalizing groups with
  | nil => rfl
  | cons item rest ih =>
    rw [List.foldl_cons,ih,lookup_upsert]
    by_cases same : key item = k
    · rw [List.filter_cons_of_pos (by simpa using same),List.foldl_cons,if_pos same.symm,same]
    · rw [List.filter_cons_of_neg (by simpa using same),if_neg (Ne.symm same)]

theorem mem_keys_foldl :
    k ∈ (items.foldl (fun groups item => upsert (key item) (step item) groups) groups).map Prod.fst ↔
      k ∈ groups.map Prod.fst ∨ k ∈ items.map key := by
  induction items generalizing groups with
  | nil => simp
  | cons item rest ih =>
    rw [List.foldl_cons,ih,keys_upsert,List.map_cons,List.mem_cons]
    split
    · rename_i known
      constructor
      · rintro (before | later)
        · exact Or.inl before
        · exact Or.inr (Or.inr later)
      · rintro (before | rfl | later)
        · exact Or.inl before
        · exact Or.inl known
        · exact Or.inr later
    · rw [List.mem_append,List.mem_singleton,or_assoc]

end

def reduce (op : S → S → S) : List S → Option S
  | [] => none
  | item :: rest => some (rest.foldl op item)

theorem reduce_append (op : S → S → S) [Std.Associative op] (items others : List S) :
    reduce op (items ++ others) = Option.merge op (reduce op items) (reduce op others) := by
  cases items with
  | nil =>
    rw [List.nil_append,reduce]
    cases reduce op others with
    | none => rfl
    | some other => rfl
  | cons item rest =>
    rw [List.cons_append,reduce,reduce,List.foldl_append]
    cases others with
    | nil => rfl
    | cons other later =>
      rw [List.foldl_cons,List.foldl_assoc]
      rfl

end ApexBase.Library.Grouping
