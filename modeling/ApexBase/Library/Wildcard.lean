import Mathlib.Data.List.Infix
import Mathlib.Data.UInt

/-! Patterns with wildcards: an item is one entry, any entry, or any run of entries. What a wildcard
may stand for is a parameter. -/
namespace ApexBase.Library.Wildcard

variable {α : Type}

inductive Item (α : Type)
  | exact (entry : α)
  | one
  | any
  deriving DecidableEq

/-- What is left of a list after a run of entries that are allowed, for some such run. -/
def reaches (wild : α → Bool) (next : List α → Bool) : List α → Bool
  | [] => next []
  | entry :: rest => next (entry :: rest) || (wild entry && reaches wild next rest)

section Matches
variable [BEq α] (wild : α → Bool)

def fits : List (Item α) → List α → Bool
  | [] => fun list => list.isEmpty
  | .exact entry :: items => fun list =>
    match list with | [] => false | first :: rest => entry == first && fits items rest
  | .one :: items => fun list => match list with | [] => false | first :: rest => wild first && fits items rest
  | .any :: items => reaches wild (fits items)

end Matches

theorem reaches_iff {wild : α → Bool} {next : List α → Bool} {list : List α} :
    reaches wild next list = true ↔ ∃ front back, list = front ++ back ∧ (∀ entry ∈ front, wild entry = true) ∧
    next back = true := by
  induction list with
  | nil =>
    refine ⟨fun here => ⟨[],[],rfl,nofun,here⟩,?_⟩
    rintro ⟨front,back,split,_,here⟩
    obtain ⟨rfl,rfl⟩ := List.append_eq_nil_iff.mp split.symm
    exact here
  | cons entry rest ih =>
    rw [reaches,Bool.or_eq_true,Bool.and_eq_true,ih]
    constructor
    · rintro (here | ⟨allowed,front,back,rfl,each,there⟩)
      · exact ⟨[],_,rfl,nofun,here⟩
      · refine ⟨entry :: front,back,rfl,fun other member => ?_,there⟩
        rcases List.mem_cons.mp member with rfl | later
        · exact allowed
        · exact each other later
    · rintro ⟨front,back,split,each,there⟩
      cases front with
      | nil => exact Or.inl (split ▸ there)
      | cons first front =>
        obtain ⟨rfl,rfl⟩ := List.cons.inj split
        exact Or.inr ⟨each _ List.mem_cons_self,front,back,rfl,fun other member =>
          each other (List.mem_cons_of_mem _ member),there⟩

section Fits
variable [BEq α] [LawfulBEq α] {wild narrow : α → Bool} {items : List (Item α)} {list : List α}

omit [LawfulBEq α] in
theorem fits_mono (fewer : ∀ entry, narrow entry = true → wild entry = true) (here : fits narrow items list = true) :
    fits wild items list = true := by
  induction items generalizing list with
  | nil => exact here
  | cons item items ih =>
    cases item with
    | exact entry =>
      cases list with
      | nil => cases here
      | cons first rest =>
        obtain ⟨same,there⟩ := (Bool.and_eq_true _ _).mp here
        exact (Bool.and_eq_true _ _).mpr ⟨same,ih there⟩
    | one =>
      cases list with
      | nil => cases here
      | cons first rest =>
        obtain ⟨allowed,there⟩ := (Bool.and_eq_true _ _).mp here
        exact (Bool.and_eq_true _ _).mpr ⟨fewer first allowed,ih there⟩
    | any =>
      obtain ⟨front,back,split,each,there⟩ := reaches_iff.mp here
      exact reaches_iff.mpr ⟨front,back,split,fun entry member => fewer entry (each entry member),ih there⟩

theorem fits_exact_append (entries : List α) :
    fits wild (entries.map .exact ++ items) list = true ↔ ∃ rest, list = entries ++ rest ∧
    fits wild items rest = true := by
  induction entries generalizing list with
  | nil => exact ⟨fun here => ⟨list,rfl,here⟩,fun ⟨_,same,here⟩ => same ▸ here⟩
  | cons entry entries ih =>
    cases list with
    | nil => exact ⟨nofun,fun ⟨_,same,_⟩ => nomatch same⟩
    | cons first rest =>
      change (entry == first && fits wild (entries.map .exact ++ items) rest) = true ↔ _
      rw [Bool.and_eq_true,beq_iff_eq,ih]
      constructor
      · rintro ⟨rfl,back,rfl,here⟩
        exact ⟨back,rfl,here⟩
      · rintro ⟨back,split,here⟩
        obtain ⟨rfl,rfl⟩ := List.cons.inj split
        exact ⟨rfl,back,rfl,here⟩

variable (entries : List α)

theorem fits_exact : fits wild (entries.map .exact) list = true ↔ list = entries := by
  have split := @fits_exact_append _ _ _ wild [] list entries
  rw [List.append_nil] at split
  rw [split]
  constructor
  · rintro ⟨rest,rfl,none_⟩
    rw [List.isEmpty_iff.mp none_,List.append_nil]
  · rintro rfl
    exact ⟨[],(List.append_nil _).symm,rfl⟩

omit [LawfulBEq α] in
theorem fits_any : fits (fun _ => true) [.any] list = true :=
  reaches_iff.mpr ⟨list,[],(List.append_nil _).symm,fun _ _ => rfl,rfl⟩

theorem fits_before_any : fits (fun _ => true) (entries.map .exact ++ [.any]) list = true ↔ entries <+: list := by
  rw [fits_exact_append]
  exact ⟨fun ⟨rest,same,_⟩ => ⟨rest,same.symm⟩,fun ⟨rest,same⟩ => ⟨rest,same.symm,fits_any⟩⟩

theorem fits_behind_any : fits (fun _ => true) (.any :: entries.map .exact) list = true ↔ entries <:+ list := by
  rw [fits,reaches_iff]
  constructor
  · rintro ⟨front,back,rfl,_,here⟩
    rw [fits_exact] at here
    exact ⟨front,by rw [here]⟩
  · rintro ⟨front,rfl⟩
    exact ⟨front,entries,rfl,fun _ _ => rfl,(fits_exact entries).mpr rfl⟩

theorem fits_between_any : fits (fun _ => true) (.any :: (entries.map .exact ++ [.any])) list = true ↔
    entries <:+: list := by
  rw [fits,reaches_iff]
  constructor
  · rintro ⟨front,back,rfl,_,here⟩
    obtain ⟨rest,rfl⟩ := (fits_before_any entries).mp here
    exact ⟨front,rest,List.append_assoc _ _ _⟩
  · rintro ⟨front,rest,rfl⟩
    exact ⟨front,entries ++ rest,List.append_assoc _ _ _,fun _ _ => rfl,(fits_before_any entries).mpr ⟨rest,rfl⟩⟩

end Fits

end ApexBase.Library.Wildcard
