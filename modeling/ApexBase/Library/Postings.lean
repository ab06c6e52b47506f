import Mathlib.Data.List.Count
import Mathlib.Data.List.Basic
import Mathlib.Data.List.Pairwise
import Mathlib.Data.List.Perm.Basic
import Mathlib.Data.UInt

/-! Postings: a list of ids for each key, with keys told apart by a test `same` that need not be
equality. The test is an equivalence on the keys in use; `before` says where a new key goes. -/
namespace ApexBase.Library.Postings

variable {K ι : Type}

/-- `swap_remove`: the last item takes the place of the one removed. -/
def swapRemove (items : List ι) (position : Nat) : List ι :=
  match items.getLast? with
  | none => items
  | some last => (items.set position last).dropLast

variable (same before : K → K → Bool)

def find? (entries : List (K × List ι)) (key : K) : Option (List ι) :=
  (entries.find? fun entry => same entry.1 key).map Prod.snd

def place (key : K) (ids : List ι) : List (K × List ι) → List (K × List ι)
  | [] => [(key,ids)]
  | entry :: rest => if before key entry.1 then (key,ids) :: entry :: rest else entry :: place key ids rest

def modify (f : List ι → List ι) (key : K) : List (K × List ι) → List (K × List ι)
  | [] => []
  | entry :: rest => if same entry.1 key then (entry.1,f entry.2) :: rest else entry :: modify f key rest

def push (entries : List (K × List ι)) (key : K) (id : ι) : List (K × List ι) :=
  match find? same entries key with
  | some _ => modify same (· ++ [id]) key entries
  | none => place before key [id] entries

def erase : List (K × List ι) → K → List (K × List ι)
  | [],_ => []
  | entry :: rest,key => if same entry.1 key then rest else entry :: erase rest key

/-- Takes one id from the entry of a key, and the entry with its last id. -/
def remove [DecidableEq ι] (entries : List (K × List ι)) (key : K) (id : ι) : Bool × List (K × List ι) :=
  match find? same entries key with
  | none => (false,entries)
  | some ids =>
    match ids.idxOf? id with
    | none => (false,entries)
    | some position =>
      if swapRemove ids position = [] then (true,erase same entries key)
      else (true,modify same (fun ids => swapRemove ids position) key entries)

variable {same before : K → K → Bool}

def ids (same : K → K → Bool) (entries : List (K × List ι)) (key : K) : List ι := (find? same entries key).getD []

structure Lawful (same : K → K → Bool) (proper : K → Prop) : Prop where
  refl : ∀ a, proper a → same a a = true
  symm : ∀ a b, proper a → proper b → same a b = true → same b a = true
  trans : ∀ a b c, proper a → proper b → proper c → same a b = true → same b c = true → same a c = true

structure Distinct (same : K → K → Bool) (proper : K → Prop) (entries : List (K × List ι)) : Prop where
  proper : ∀ entry ∈ entries, proper entry.1
  apart : entries.Pairwise fun a b => same a.1 b.1 = false

theorem perm_swapRemove [DecidableEq ι] {items : List ι} {id : ι} {position : Nat}
    (found : items.idxOf? id = some position) :
    (id :: swapRemove items position).Perm items := by
  rcases List.eq_nil_or_concat items with rfl | ⟨front,last,rfl⟩
  · cases found
  · rw [List.concat_eq_append] at found ⊢
    obtain ⟨inside,there,-⟩ := List.idxOf?_eq_some_iff.mp found
    unfold swapRemove
    rw [List.getLast?_append_cons,List.getLast?_singleton]
    dsimp only
    rw [List.length_append,List.length_singleton] at inside
    rcases Nat.lt_or_ge position front.length with early | late
    · rw [List.set_append_left _ _ early,List.dropLast_concat]
      rw [List.getElem_append_left early] at there
      have taken := List.getElem_cons_eraseIdx_perm early
      rw [there] at taken
      have placed := List.set_perm_cons_eraseIdx early last
      calc (id :: front.set position last).Perm (id :: last :: front.eraseIdx position) := placed.cons id
        _ |>.Perm (last :: id :: front.eraseIdx position) := List.Perm.swap _ _ _
        _ |>.Perm (last :: front) := taken.cons last
        _ |>.Perm (front ++ [last]) := (List.perm_append_singleton last front).symm
    · have end_ : position = front.length := by omega
      subst end_
      rw [List.getElem_append_right (Nat.le_refl _)] at there
      simp only [Nat.sub_self,List.getElem_cons_zero] at there
      subst there
      rw [List.set_append_right _ _ (Nat.le_refl _),Nat.sub_self,List.set_cons_zero,List.dropLast_concat]
      exact (List.perm_append_singleton last front).symm

section Keys

variable {proper : K → Prop} {entries : List (K × List ι)} {key other : K} {id : ι}

theorem found_key {list : List ι} (found : find? same entries key = some list) :
    ids same entries key = list ∧ ∃ entry ∈ entries, same entry.1 key = true := by
  refine ⟨by rw [ids,found,Option.getD_some],?_⟩
  obtain ⟨entry,there,-⟩ := Option.map_eq_some_iff.mp found
  have equal := List.find?_some there
  exact ⟨entry,List.mem_of_find?_eq_some there,equal⟩

theorem find?_eq_none : find? same entries key = none ↔ ∀ entry ∈ entries, same entry.1 key = false := by
  simp only [find?,Option.map_eq_none_iff,List.find?_eq_none,Bool.not_eq_true]

theorem ids_cons (entry : K × List ι) (rest : List (K × List ι)) (key : K) :
    ids same (entry :: rest) key = if same entry.1 key then entry.2 else ids same rest key := by
  unfold ids find?
  rw [List.find?_cons]
  cases same entry.1 key <;> rfl

theorem ids_none (apart : ∀ entry ∈ entries, same entry.1 key = false) : ids same entries key = [] := by
  rw [ids,find?_eq_none.mpr apart,Option.getD_none]

section
variable (lawful : Lawful same proper) (a : proper key) (b : proper other) {c : K} (third : proper c)
    (equal : same key other = true)
include lawful a b third equal

theorem Lawful.congr : same c key = same c other := by
  cases left : same c key with
  | true => exact (lawful.trans _ _ _ third a b left equal).symm
  | false =>
    cases right : same c other with
    | false => rfl
    | true =>
      have back := lawful.trans _ _ _ third b a right (lawful.symm _ _ a b equal)
      exact absurd (left.symm.trans back) Bool.false_ne_true

theorem Lawful.congr_left : same key c = same other c := by
  cases left : same key c with
  | true => exact (lawful.trans _ _ _ b a third (lawful.symm _ _ a b equal) left).symm
  | false =>
    cases right : same other c with
    | false => rfl
    | true => exact absurd (left.symm.trans (lawful.trans _ _ _ a b third equal right)) Bool.false_ne_true

end

theorem Distinct.tail {entry : K × List ι} {rest : List (K × List ι)}
    (distinct : Distinct same proper (entry :: rest)) :
    Distinct same proper rest :=
  ⟨fun entry member => distinct.proper entry (List.mem_cons_of_mem _ member),(List.pairwise_cons.mp distinct.apart).2⟩

theorem ids_congr (lawful : Lawful same proper) (distinct : Distinct same proper entries) (a : proper key)
    (b : proper other)
    (equal : same key other = true) : ids same entries key = ids same entries other := by
  induction entries with
  | nil => rfl
  | cons entry rest ih =>
    have third := distinct.proper entry List.mem_cons_self
    have tail := ih distinct.tail
    rw [ids_cons,ids_cons,lawful.congr a b third equal,tail]

theorem ids_of_mem (lawful : Lawful same proper) (distinct : Distinct same proper entries) {entry : K × List ι}
    (member : entry ∈ entries) :
    ids same entries entry.1 = entry.2 := by
  induction entries with
  | nil => cases member
  | cons first rest ih =>
    rw [ids_cons]
    rcases List.mem_cons.mp member with rfl | inside
    · rw [lawful.refl entry.1 (distinct.proper entry List.mem_cons_self),if_pos rfl]
    · rw [(List.pairwise_cons.mp distinct.apart).1 entry inside,if_neg Bool.false_ne_true]
      exact ih distinct.tail inside

theorem mem_ids (member : id ∈ ids same entries key) : ∃ entry ∈ entries, same entry.1 key = true ∧ id ∈ entry.2 := by
  induction entries with
  | nil => cases member
  | cons first rest ih =>
    rw [ids_cons] at member
    split at member
    · rename_i equal
      exact ⟨first,List.mem_cons_self,equal,member⟩
    · obtain ⟨entry,inside,found⟩ := ih member
      exact ⟨entry,List.mem_cons_of_mem _ inside,found⟩

theorem ids_place (key : K) (list : List ι) (apart : ∀ entry ∈ entries, same entry.1 key = false)
    (lawful : Lawful same proper) (distinct : Distinct same proper entries) (a : proper key) (b : proper other) :
    ids same (place before key list entries) other = if same key other then list else ids same entries other := by
  induction entries with
  | nil => rw [place,ids_cons]
  | cons entry rest ih =>
    have third := distinct.proper entry List.mem_cons_self
    rw [place]
    split
    · rw [ids_cons]
    · have tail := ih (fun entry member => apart entry (List.mem_cons_of_mem _ member)) distinct.tail
      rw [ids_cons,ids_cons,tail]
      cases equal : same key other with
      | false => rfl
      | true =>
        rw [← lawful.congr a b third equal,apart entry List.mem_cons_self]
        rfl

theorem Lawful.join (lawful : Lawful same proper) (a : proper key) (b : proper other) {c : K} (third : proper c)
    (left : same c key = true) (right : same c other = true) : same key other = true :=
  lawful.trans _ _ _ a third b (lawful.symm _ _ third a left) right

theorem ids_modify (f : List ι → List ι) (there : ∃ entry ∈ entries, same entry.1 key = true)
    (lawful : Lawful same proper) (distinct : Distinct same proper entries) (a : proper key) (b : proper other) :
    ids same (modify same f key entries) other = if same key other then f (ids same entries other)
      else ids same entries other := by
  induction entries with
  | nil =>
    obtain ⟨_,member,_⟩ := there
    cases member
  | cons entry rest ih =>
    have third := distinct.proper entry List.mem_cons_self
    rw [modify]
    split
    · rename_i head
      rw [ids_cons,ids_cons]
      cases equal : same key other with
      | true =>
        rw [lawful.trans _ _ _ third a b head equal]
        rfl
      | false =>
        have apart : same entry.1 other = false := by
          rw [← Bool.not_eq_true]
          intro tail
          exact absurd (equal.symm.trans (lawful.join a b third head tail)) Bool.false_ne_true
        rw [apart]
        rfl
    · rename_i head
      obtain ⟨found,member,equal⟩ := there
      have inside : found ∈ rest := (List.mem_cons.mp member).resolve_left fun same_ => head (same_ ▸ equal)
      rw [ids_cons,ids_cons,ih ⟨found,inside,equal⟩ distinct.tail]
      cases equal : same key other with
      | false => rfl
      | true =>
        rw [← lawful.congr a b third equal,Bool.not_eq_true _ |>.mp head]
        rfl

theorem ids_erase (lawful : Lawful same proper) (distinct : Distinct same proper entries) (a : proper key)
    (b : proper other) :
    ids same (erase same entries key) other = if same key other then [] else ids same entries other := by
  induction entries with
  | nil => rw [erase,ids_none (fun _ member => absurd member List.not_mem_nil),ite_self]
  | cons entry rest ih =>
    have third := distinct.proper entry List.mem_cons_self
    have apart := (List.pairwise_cons.mp distinct.apart).1
    rw [erase]
    split
    · rename_i head
      rw [ids_cons]
      cases equal : same key other with
      | true =>
        rw [if_pos rfl]
        refine ids_none fun later member => ?_
        have properLater := distinct.proper later (List.mem_cons_of_mem _ member)
        rw [← Bool.not_eq_true]
        intro tail
        have joined := lawful.trans _ _ _ third a b head equal
        exact absurd ((apart later member).symm.trans (lawful.trans _ _ _ third b properLater joined
          (lawful.symm _ _ properLater b tail))) Bool.false_ne_true
      | false =>
        have other_ : same entry.1 other = false := by
          rw [← Bool.not_eq_true]
          intro tail
          exact absurd (equal.symm.trans (lawful.join a b third head tail)) Bool.false_ne_true
        rw [other_]
        rfl
    · rename_i head
      rw [ids_cons,ids_cons,ih distinct.tail]
      cases equal : same key other with
      | false => rfl
      | true =>
        rw [← lawful.congr a b third equal,Bool.not_eq_true _ |>.mp head]
        rfl

theorem distinct_place (list : List ι) (apart : ∀ entry ∈ entries, same entry.1 key = false)
    (lawful : Lawful same proper) (distinct : Distinct same proper entries) (a : proper key) :
    Distinct same proper (place before key list entries) := by
  have members : ∀ entries : List (K × List ι), ∀ entry ∈ place before key list entries, entry = (key,list) ∨
    entry ∈ entries := by
    intro entries
    induction entries with
    | nil => simp [place]
    | cons head rest ih =>
      intro entry member
      rw [place] at member
      split at member
      · exact List.mem_cons.mp member
      · rcases List.mem_cons.mp member with rfl | later
        · exact .inr List.mem_cons_self
        · exact (ih entry later).imp_right (List.mem_cons_of_mem _)
  refine ⟨fun entry member => ?_,?_⟩
  · rcases members entries entry member with rfl | old
    · exact a
    · exact distinct.proper entry old
  · induction entries with
    | nil => exact List.pairwise_singleton _ _
    | cons head rest ih =>
      have third := distinct.proper head List.mem_cons_self
      have back : ∀ entry ∈ head :: rest, same key entry.1 = false := fun entry member => by
        rw [← Bool.not_eq_true]
        intro equal
        exact absurd ((apart entry member).symm.trans (lawful.symm _ _ a (distinct.proper entry member) equal))
          Bool.false_ne_true
      rw [place]
      split
      · exact List.pairwise_cons.mpr ⟨back,distinct.apart⟩
      · refine List.pairwise_cons.mpr ⟨fun entry member => ?_,
          ih (fun entry member => apart entry (List.mem_cons_of_mem _ member)) distinct.tail⟩
        rcases members rest entry member with rfl | old
        · exact apart head List.mem_cons_self
        · exact (List.pairwise_cons.mp distinct.apart).1 entry old

theorem map_modify (f : List ι → List ι) (key : K) (entries : List (K × List ι)) :
    (modify same f key entries).map Prod.fst = entries.map Prod.fst := by
  induction entries with
  | nil => rfl
  | cons entry rest ih =>
    rw [modify]
    split
    · rfl
    · rw [List.map_cons,ih,List.map_cons]

theorem distinct_of_keys {others : List (K × List ι)} (keys : others.map Prod.fst = entries.map Prod.fst)
    (distinct : Distinct same proper entries) : Distinct same proper others := by
  refine ⟨fun entry member => ?_,?_⟩
  · obtain ⟨old,there,equal⟩ := List.mem_map.mp (keys ▸ List.mem_map_of_mem member : entry.1 ∈ entries.map Prod.fst)
    rw [← equal]
    exact distinct.proper old there
  · have apart : (entries.map Prod.fst).Pairwise fun a b => same a b = false := List.pairwise_map.mpr distinct.apart
    rw [← keys] at apart
    exact List.pairwise_map.mp apart

theorem erase_sublist (key : K) (entries : List (K × List ι)) : (erase same entries key).Sublist entries := by
  induction entries with
  | nil => exact List.Sublist.slnil
  | cons entry rest ih =>
    rw [erase]
    split
    · exact List.sublist_cons_self entry rest
    · exact ih.cons_cons entry

theorem Distinct.push (lawful : Lawful same proper) (distinct : Distinct same proper entries) (a : proper key) :
    Distinct same proper (push same before entries key id) := by
  unfold Postings.push
  split
  · exact distinct_of_keys (map_modify _ key entries) distinct
  · rename_i absent
    exact distinct_place [id] (find?_eq_none.mp absent) lawful distinct a

theorem ids_push (lawful : Lawful same proper) (distinct : Distinct same proper entries) (a : proper key)
    (b : proper other) :
    ids same (push same before entries key id) other = if same key other then ids same entries other ++ [id]
      else ids same entries other := by
  unfold push
  cases found : find? same entries key with
  | some list => exact ids_modify (· ++ [id]) (found_key found).2 lawful distinct a b
  | none =>
    have apart := find?_eq_none.mp found
    rw [ids_place key [id] apart lawful distinct a b]
    cases equal : same key other with
    | false => rfl
    | true =>
      rw [← ids_congr lawful distinct a b equal,ids_none apart]
      rfl

theorem filled_place {list : List ι} (some_ : list ≠ []) (key : K) (filled : ∀ entry ∈ entries, entry.2 ≠ []) :
    ∀ entry ∈ place before key list entries, entry.2 ≠ [] := by
  induction entries with
  | nil => exact List.forall_mem_singleton.mpr some_
  | cons first rest ih =>
    rw [List.forall_mem_cons] at filled
    unfold place
    split
    · exact List.forall_mem_cons.mpr ⟨some_,List.forall_mem_cons.mpr filled⟩
    · exact List.forall_mem_cons.mpr ⟨filled.1,ih filled.2⟩

theorem filled_modify {f : List ι → List ι} (some_ : ∀ list, f list ≠ []) (key : K)
    (filled : ∀ entry ∈ entries, entry.2 ≠ []) :
    ∀ entry ∈ modify same f key entries, entry.2 ≠ [] := by
  induction entries with
  | nil => exact nofun
  | cons first rest ih =>
    rw [List.forall_mem_cons] at filled
    unfold modify
    split
    · exact List.forall_mem_cons.mpr ⟨some_ _,filled.2⟩
    · exact List.forall_mem_cons.mpr ⟨filled.1,ih filled.2⟩

theorem filled_push (filled : ∀ entry ∈ entries, entry.2 ≠ []) :
    ∀ entry ∈ push same before entries key id, entry.2 ≠ [] := by
  unfold push
  split
  · exact filled_modify (fun list => List.append_ne_nil_of_right_ne_nil list (List.cons_ne_nil id [])) key filled
  · exact filled_place (List.cons_ne_nil id []) key filled

theorem find?_of_filled (filled : ∀ entry ∈ entries, entry.2 ≠ []) :
    find? same entries key = if (ids same entries key).isEmpty then none else some (ids same entries key) := by
  cases found : find? same entries key with
  | none =>
    rw [ids,found]
    rfl
  | some list =>
    obtain ⟨entry,there,own⟩ := Option.map_eq_some_iff.mp found
    have some_ := filled entry (List.mem_of_find?_eq_some there)
    rw [own] at some_
    rw [ids,found,Option.getD_some,if_neg (List.isEmpty_iff.not.mpr some_)]

def pushAll (same before : K → K → Bool) (pairs : List (K × ι)) : List (K × List ι) :=
  pairs.foldl (fun entries pair => push same before entries pair.1 pair.2) []

theorem find?_pushAll (lawful : Lawful same proper) {pairs : List (K × ι)} (each : ∀ pair ∈ pairs, proper pair.1)
    (own : proper key) :
    find? same (pushAll same before pairs) key =
      if ((pairs.filter fun pair => same pair.1 key).map Prod.snd).isEmpty then none
      else some ((pairs.filter fun pair => same pair.1 key).map Prod.snd) := by
  have run : ∀ (pairs : List (K × ι)) (entries : List (K × List ι)), (∀ pair ∈ pairs, proper pair.1) →
    Distinct same proper entries →
      (∀ entry ∈ entries, entry.2 ≠ []) →
      (∀ entry ∈ pairs.foldl (fun entries pair => push same before entries pair.1 pair.2) entries, entry.2 ≠ []) ∧
      ids same (pairs.foldl (fun entries pair => push same before entries pair.1 pair.2) entries) key =
        ids same entries key ++ (pairs.filter fun pair => same pair.1 key).map Prod.snd := by
    intro pairs
    induction pairs with
    | nil => exact fun entries _ _ filled => ⟨filled,(List.append_nil _).symm⟩
    | cons pair rest ih =>
      intro entries each distinct filled
      rw [List.forall_mem_cons] at each
      have later := ih (push same before entries pair.1 pair.2) each.2 (distinct.push lawful each.1)
        (filled_push filled)
      refine ⟨later.1,later.2.trans ?_⟩
      rw [ids_push lawful distinct each.1 own,List.filter_cons]
      split
      · rw [List.append_assoc,List.map_cons,List.singleton_append]
      · rfl
  have filled := run pairs [] each ⟨nofun,List.Pairwise.nil⟩ nofun
  unfold pushAll
  rw [find?_of_filled filled.1,filled.2]
  rfl

variable [DecidableEq ι]

theorem Distinct.remove (distinct : Distinct same proper entries) :
    Distinct same proper (remove same entries key id).2 := by
  unfold Postings.remove
  split
  · exact distinct
  · split
    · exact distinct
    · split
      · have less : (erase same entries key).Sublist entries := erase_sublist key entries
        exact ⟨fun entry member => distinct.proper entry (less.subset member),distinct.apart.sublist less⟩
      · exact distinct_of_keys (map_modify _ key entries) distinct

theorem remove_missed (missed : (remove same entries key id).1 = false) : (remove same entries key id).2 = entries := by
  unfold remove at missed ⊢
  split
  · rfl
  · rename_i list found
    rw [found] at missed
    dsimp only at missed
    split
    · rfl
    · rename_i position there
      rw [there] at missed
      dsimp only at missed
      split at missed <;> cases missed

theorem count_remove (lawful : Lawful same proper) (distinct : Distinct same proper entries) (a : proper key)
    (b : proper other) (x : ι) :
    (ids same (remove same entries key id).2 other).count x =
      (ids same entries other).count x - if same key other = true ∧ id = x then 1 else 0 := by
  unfold remove
  cases found : find? same entries key with
  | none =>
    by_cases equal : same key other = true
    · rw [← ids_congr lawful distinct a b equal,ids_none (find?_eq_none.mp found),List.count_nil,Nat.zero_sub]
    · rw [if_neg fun both => equal both.1,Nat.sub_zero]
  | some list =>
    obtain ⟨listed,there⟩ := found_key found
    dsimp only
    cases position : list.idxOf? id with
    | none =>
      by_cases both : same key other = true ∧ id = x
      · have gone : id ∉ list := List.idxOf?_eq_none_iff.mp position
        rw [← ids_congr lawful distinct a b both.1,listed,← both.2,List.count_eq_zero_of_not_mem gone,Nat.zero_sub]
      · rw [if_neg both,Nat.sub_zero]
    | some index =>
      have perm := perm_swapRemove position
      have count : list.count x = (swapRemove list index).count x + if id = x then 1 else 0 := by
        rw [← perm.count_eq x,List.count_cons]
        simp only [beq_iff_eq]
      have after : ids same (if swapRemove list index = [] then (true,erase same entries key)
          else (true,modify same (fun ids => swapRemove ids index) key entries)).2 other =
          if same key other then swapRemove (ids same entries other) index else ids same entries other := by
        split
        · rename_i empty
          rw [ids_erase lawful distinct a b]
          cases equal : same key other with
          | false => rfl
          | true => rw [← ids_congr lawful distinct a b equal,listed,empty]
        · exact ids_modify (fun ids => swapRemove ids index) there lawful distinct a b
      dsimp only at after ⊢
      rw [after]
      cases equal : same key other with
      | false => simp
      | true =>
        rw [← ids_congr lawful distinct a b equal,listed,count]
        simp

end Keys

end ApexBase.Library.Postings
