import Mathlib.Data.List.AList
import Mathlib.Data.UInt

/-! Finite maps with an iteration order. Mathlib's `AList` supplies lookup, insertion and erasure;
the two bulk operations of a mutable map (filtering the entries and rewriting every value) and the
value list are added here. -/
namespace ApexBase.Library.Assoc

abbrev Map (K V : Type) := AList (fun _ : K => V)

variable {K V : Type}

def retain (keep : K → V → Bool) (m : Map K V) : Map K V :=
  ⟨m.entries.filter (fun e => keep e.1 e.2),
    m.nodupKeys.sublist List.filter_sublist⟩

def mapValues (f : V → V) (m : Map K V) : Map K V :=
  ⟨m.entries.map (fun e => ⟨e.1,f e.2⟩),by
    have keys : (m.entries.map (fun e => (⟨e.1,f e.2⟩ : Sigma fun _ : K => V))).keys = m.entries.keys := by
      simp [List.keys,Function.comp_def]
    rw [List.NodupKeys,keys]
    exact m.nodupKeys⟩

def convert {W : Type} (f : V → W) (m : Map K V) : Map K W :=
  ⟨m.entries.map (fun e => ⟨e.1,f e.2⟩),by
    have keys : (m.entries.map (fun e => (⟨e.1,f e.2⟩ : Sigma fun _ : K => W))).keys = m.entries.keys := by
      simp [List.keys,Function.comp_def]
    rw [List.NodupKeys,keys]
    exact m.nodupKeys⟩

def values (m : Map K V) : List V := m.entries.map (fun e => e.2)

theorem mem_values [DecidableEq K] (m : Map K V) (v : V) :
    v ∈ values m ↔ ∃ k, m.lookup k = some v := by
  simp only [values,List.mem_map]
  constructor
  · rintro ⟨e,member,rfl⟩
    exact ⟨e.1,AList.mem_lookup_iff.mpr member⟩
  · rintro ⟨k,found⟩
    exact ⟨⟨k,v⟩,AList.mem_lookup_iff.mp found,rfl⟩

theorem lookup_convert [DecidableEq K] {W : Type} (f : V → W) (m : Map K V) (k : K) :
    (convert f m).lookup k = (m.lookup k).map f := by
  rcases m with ⟨entries,nodup⟩
  simp only [convert,AList.lookup]
  clear nodup
  induction entries with
  | nil => rfl
  | cons e rest ih =>
    rcases e with ⟨key,v⟩
    by_cases same : k = key
    · subst same
      simp
    · simp [same,ih]

@[simp] theorem lookup_mapValues [DecidableEq K] (f : V → V) (m : Map K V) (k : K) :
    (mapValues f m).lookup k = (m.lookup k).map f :=
  lookup_convert f m k

theorem lookup_retain [DecidableEq K] (keep : K → V → Bool) (m : Map K V) (k : K) (v : V) :
    (retain keep m).lookup k = some v ↔ m.lookup k = some v ∧ keep k v = true := by
  have member : (⟨k,v⟩ : Sigma fun _ : K => V) ∈ (retain keep m).entries ↔
      ⟨k,v⟩ ∈ m.entries ∧ keep k v = true := by simp [retain]
  exact AList.mem_lookup_iff.trans (member.trans (and_congr_left' AList.mem_lookup_iff.symm))

theorem flatMap_at [DecidableEq K] {A : Type} (m : Map K V) (k : K) (f : V → List A) :
    (m.entries.flatMap fun e => if e.1 = k then f e.2 else []) = ((m.lookup k).map f).getD [] := by
  rcases m with ⟨entries,unique⟩
  simp only [AList.lookup]
  induction entries with
  | nil => rfl
  | cons e rest ih =>
    obtain ⟨absent,unique⟩ := List.nodupKeys_cons.mp unique
    rw [List.flatMap_cons,ih unique]
    rcases e with ⟨key,v⟩
    by_cases here : key = k
    · subst here
      have gone : rest.dlookup key = none := List.dlookup_eq_none.mpr absent
      simp [gone]
    · rw [if_neg here,List.nil_append,List.dlookup_cons_ne _ _ (fun back => here back.symm)]

theorem lookup_insert_eq [DecidableEq K] (m : Map K V) (k key : K) (v : V) :
    (m.insert key v).lookup k = if k = key then some v else m.lookup k := by
  by_cases same : k = key
  · subst same
    simp
  · simp [same,AList.lookup_insert_ne same]

theorem lookup_erase_eq [DecidableEq K] (m : Map K V) (k key : K) :
    (m.erase key).lookup k = if k = key then none else m.lookup k := by
  by_cases same : k = key
  · subst same
    simp
  · simp [same,AList.lookup_erase_ne same]

theorem lookup_of_insert [DecidableEq K] {m : Map K V} {key k : K} {v w : V}
    (found : (m.insert key v).lookup k = some w) : (k = key ∧ w = v) ∨ (k ≠ key ∧ m.lookup k = some w) := by
  rw [lookup_insert_eq] at found
  split at found
  · rename_i same
    exact Or.inl ⟨same,(Option.some.inj found).symm⟩
  · rename_i other
    exact Or.inr ⟨other,found⟩

theorem lookup_of_erase [DecidableEq K] {m : Map K V} {key k : K} {v : V}
    (found : (m.erase key).lookup k = some v) : k ≠ key ∧ m.lookup k = some v := by
  rw [lookup_erase_eq] at found
  split at found
  · cases found
  · rename_i other
    exact ⟨other,found⟩

theorem values_insert [DecidableEq K] (m : Map K V) (k : K) (v : V) :
    values (m.insert k v) = v :: values (m.erase k) := rfl

theorem perm_values [DecidableEq K] {m : Map K V} {k : K} {v : V} (found : m.lookup k = some v) :
    (values m).Perm (v :: values (m.erase k)) := by
  have present : k ∈ m.entries.keys := List.mem_keys_of_mem (AList.mem_lookup_iff.mp found)
  obtain ⟨w,front,back,absent,shape,erased⟩ := List.exists_of_kerase present
  have same : w = v := by
    have stored : ⟨k,w⟩ ∈ m.entries := by rw [shape]; simp
    exact Option.some.inj ((AList.mem_lookup_iff.mpr stored).symm.trans found)
  subst same
  have rest : values (m.erase k) = front.map (fun e => e.2) ++ back.map (fun e => e.2) := by
    rw [← List.map_append,← erased]
    rfl
  rw [rest,values,shape,List.map_append,List.map_cons]
  exact List.perm_middle

theorem values_erase_none [DecidableEq K] {m : Map K V} {k : K} (absent : m.lookup k = none) :
    values (m.erase k) = values m := by
  have outside : k ∉ m.entries.keys := AList.lookup_eq_none.mp absent
  exact congrArg (List.map fun e => e.2) (List.kerase_of_notMem_keys outside)

end ApexBase.Library.Assoc
