import Mathlib.Data.List.Basic
import Mathlib.Data.UInt

/-! Traversals of a list that may fail. -/
namespace ApexBase.Library
variable {α β : Type} {f : α → Option β}

theorem mapM_eq_some {items : List α} {out : List β} : items.mapM f = some out ↔ items.map f = out.map some := by
  induction items generalizing out with
  | nil =>
    rw [List.mapM_nil,List.map_nil]
    cases out with
    | nil => exact ⟨fun _ => rfl,fun _ => rfl⟩
    | cons first others => exact ⟨nofun,nofun⟩
  | cons item rest ih =>
    rw [List.mapM_cons,List.map_cons]
    constructor
    · intro found
      obtain ⟨first,here,found⟩ := Option.bind_eq_some_iff.mp found
      obtain ⟨others,more,found⟩ := Option.bind_eq_some_iff.mp found
      cases found
      rw [List.map_cons,here,ih.mp more]
    · intro same
      cases out with
      | nil => exact nomatch same
      | cons first others =>
        obtain ⟨here,more⟩ := List.cons.inj same
        rw [here,ih.mpr more]
        rfl

theorem mapM_some {items : List α} {out : List β} (found : items.mapM f = some out) :
    items.map f = out.map some := mapM_eq_some.mp found

theorem mapM_isSome {items : List α} : (∃ out, items.mapM f = some out) ↔
    ∀ item ∈ items, ∃ value, f item = some value := by
  induction items with
  | nil => exact ⟨fun _ => nofun,fun _ => ⟨[],rfl⟩⟩
  | cons item rest ih =>
    rw [List.forall_mem_cons,← ih]
    constructor
    · rintro ⟨out,found⟩
      rw [List.mapM_cons] at found
      obtain ⟨first,here,found⟩ := Option.bind_eq_some_iff.mp found
      obtain ⟨others,more,_⟩ := Option.bind_eq_some_iff.mp found
      exact ⟨⟨first,here⟩,others,more⟩
    · rintro ⟨⟨first,here⟩,others,more⟩
      exact ⟨first :: others,by rw [List.mapM_cons,here,more]; rfl⟩

theorem mapM_eq_map {g : α → β} {items : List α} : items.mapM f = some (items.map g) ↔
    ∀ item ∈ items, f item = some (g item) := by
  rw [mapM_eq_some,List.map_map,List.map_inj_left]
  rfl

theorem mapM_mem {ε : Type} {f : α → Except ε β} {items : List α} {results : List β} (done : items.mapM f = .ok results)
    {item : α} (member : item ∈ items) : ∃ result ∈ results, f item = .ok result := by
  induction items generalizing results with
  | nil => cases member
  | cons first rest ih =>
    rw [List.mapM_cons] at done
    cases here : f first with
    | error error =>
      rw [here] at done
      cases done
    | ok result =>
      rw [here] at done
      cases others : rest.mapM f with
      | error error =>
        rw [others] at done
        cases done
      | ok tail =>
        rw [others] at done
        cases done
        rcases List.mem_cons.mp member with rfl | later
        · exact ⟨result,List.mem_cons_self,here⟩
        · obtain ⟨found,inside,same⟩ := ih others later
          exact ⟨found,List.mem_cons_of_mem _ inside,same⟩

theorem forM_error {ε : Type} {f : α → Except ε Unit} {items : List α} {item : α} (member : item ∈ items) {error : ε}
    (stops : f item = .error error) : ∃ error, items.forM f = .error error := by
  induction items with
  | nil => cases member
  | cons first rest ih =>
    rw [List.forM]
    cases here : f first with
    | error error => exact ⟨error,rfl⟩
    | ok _ =>
      rcases List.mem_cons.mp member with rfl | later
      · rw [stops] at here
        cases here
      · exact ih later

end ApexBase.Library
