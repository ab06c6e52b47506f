import Mathlib.Data.List.Basic
import Mathlib.Data.UInt

/-! The lexicographic comparison of lists, from a comparison of their items that need only be lawful
on the items at hand. -/
namespace ApexBase.Library

variable {α : Type} {cmp : α → α → Ordering}

theorem lex_eq : ∀ {as bs : List α}, (∀ a ∈ as, ∀ b ∈ bs, (cmp a b = .eq ↔ a = b)) →
    (List.compareLex cmp as bs = .eq ↔ as = bs)
  | [],[],_ => ⟨fun _ => rfl,fun _ => rfl⟩
  | [],_ :: _,_ => ⟨nofun,nofun⟩
  | _ :: _,[],_ => ⟨nofun,nofun⟩
  | a :: as,b :: bs,each => by
    have first := each a List.mem_cons_self b List.mem_cons_self
    have rest := lex_eq fun a one b two => each a (List.mem_cons_of_mem _ one) b (List.mem_cons_of_mem _ two)
    rw [List.compareLex_cons_cons,Ordering.then_eq_eq,first,rest,List.cons.injEq]

theorem lex_swap : ∀ {as bs : List α}, (∀ a ∈ as, ∀ b ∈ bs, cmp b a = (cmp a b).swap) →
    List.compareLex cmp bs as = (List.compareLex cmp as bs).swap
  | [],[],_ => rfl
  | [],_ :: _,_ => rfl
  | _ :: _,[],_ => rfl
  | a :: as,b :: bs,each => by
    have first := each a List.mem_cons_self b List.mem_cons_self
    have rest := lex_swap fun a one b two => each a (List.mem_cons_of_mem _ one) b (List.mem_cons_of_mem _ two)
    rw [List.compareLex_cons_cons,List.compareLex_cons_cons,first,rest,Ordering.swap_then]

def LtTrans (cmp : α → α → Ordering) (a b c : α) : Prop := cmp a b = .lt → cmp b c = .lt → cmp a c = .lt

theorem then_eq_lt {first rest : Ordering} : first.then rest = .lt ↔ first = .lt ∨ first = .eq ∧ rest = .lt := by
  cases first <;> simp [Ordering.then]

theorem lex_lt_trans : ∀ {as bs cs : List α}, (∀ a ∈ as, ∀ b ∈ bs, (cmp a b = .eq ↔ a = b)) →
    (∀ b ∈ bs, ∀ c ∈ cs, (cmp b c = .eq ↔ b = c)) →
    (∀ a ∈ as, ∀ b ∈ bs, ∀ c ∈ cs, LtTrans cmp a b c) → LtTrans (List.compareLex cmp) as bs cs
  | _,[],[],_,_,_ => fun _ second => nomatch second
  | [],[],_ :: _,_,_,_ => fun first _ => nomatch first
  | _ :: _,[],_ :: _,_,_,_ => fun first _ => nomatch first
  | _,_ :: _,[],_,_,_ => fun _ second => nomatch second
  | [],_ :: _,_ :: _,_,_,_ => fun _ _ => rfl
  | a :: as,b :: bs,c :: cs,left,right,each => by
    intro first second
    have equalAB := left a List.mem_cons_self b List.mem_cons_self
    have equalBC := right b List.mem_cons_self c List.mem_cons_self
    have less := each a List.mem_cons_self b List.mem_cons_self c List.mem_cons_self
    have rest := lex_lt_trans (fun a one b two => left a (List.mem_cons_of_mem _ one) b (List.mem_cons_of_mem _ two))
      (fun b one c two => right b (List.mem_cons_of_mem _ one) c (List.mem_cons_of_mem _ two))
      fun a one b two c three => each a (List.mem_cons_of_mem _ one) b (List.mem_cons_of_mem _ two) c
        (List.mem_cons_of_mem _ three)
    rw [List.compareLex_cons_cons,then_eq_lt] at first second ⊢
    rcases first with below | ⟨same,later⟩
    · rcases second with above | ⟨equal,_⟩
      · exact Or.inl (less below above)
      · rw [← equalBC.mp equal]
        exact Or.inl below
    · rw [equalAB.mp same]
      rcases second with above | ⟨equal,more⟩
      · exact Or.inl above
      · exact Or.inr ⟨equal,rest later more⟩

end ApexBase.Library
