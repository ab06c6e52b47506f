import ApexBase.Library.Assoc
import ApexBase.Library.Run

/-! Row-id reservations of `storage/epoch.rs`, by their atomic loads, stores and compare-exchanges.
Each process keeps an entry for the table; the row-id mark is the slot of the sidecar that all
processes map, or a cursor in the entry where the sidecar cannot be mapped. -/
namespace ApexBase.Storage.Epoch
open Library Library.Assoc

def maxId : Nat := 2^64 - 1

def saturatingAdd (base count : Nat) : Nat := min (base + count) maxId

/-- A call of `reserve_row_ids` between its first and its last atomic step. -/
structure Call where
  process : Nat
  minimum : Nat
  count : Nat
  /-- The call created the entry and holds it for itself. -/
  exclusive : Bool
  loaded : Option Nat

structure Reservation where
  minimum : Nat
  count : Nat
  base : Nat
  deriving DecidableEq

structure TableEpochs where
  slot : Option Nat
  /-- `id_local` of each process's entry. -/
  entries : Map Nat Nat
  /-- By thread. -/
  calls : Map Nat Call
  returned : List Reservation

def opened (slot : Option Nat) : TableEpochs := ⟨slot,∅,∅,[]⟩

inductive Action
  | call (process thread minimum count : Nat)
  | load (thread : Nat)
  /-- The compare-exchange of the slot, or the store of the cursor. -/
  | finish (thread : Nat)
  /-- `remove`: the process drops its entry. -/
  | forget (process : Nat)

namespace TableEpochs

def callsOf (state : TableEpochs) (process : Nat) : List Call :=
  (values state.calls).filter (fun call => call.process == process)

def start (state : TableEpochs) (process thread minimum count : Nat) : Option TableEpochs :=
  if count = 0 then some {state with returned := state.returned ++ [⟨minimum,0,minimum⟩]}
  else if (state.calls.lookup thread).isSome then none
  else
    match state.entries.lookup process with
    | some _ =>
      if (state.callsOf process).any (fun call => call.exclusive) then none
      else some {state with calls := state.calls.insert thread ⟨process,minimum,count,false,none⟩}
    | none =>
      if (state.callsOf process).isEmpty then
        some {state with
          entries := state.entries.insert process 0
          calls := state.calls.insert thread ⟨process,minimum,count,true,none⟩}
      else none

def current (state : TableEpochs) (process : Nat) : Nat :=
  state.slot.getD ((state.entries.lookup process).getD 0)

def load (state : TableEpochs) (thread : Nat) : Option TableEpochs :=
  (state.calls.lookup thread).bind (fun call =>
    if call.loaded.isSome then none
    else some {state with calls := state.calls.insert thread {call with loaded := some (state.current call.process)}})

def base (call : Call) (current : Nat) : Nat := max current call.minimum

def finish (state : TableEpochs) (thread : Nat) : Option TableEpochs :=
  (state.calls.lookup thread).bind (fun call =>
    call.loaded.map (fun current =>
      let next := saturatingAdd (base call current) call.count
      let done : TableEpochs := {state with
        calls := state.calls.erase thread
        returned := state.returned ++ [⟨call.minimum,call.count,base call current⟩]}
      match state.slot with
      | some slot =>
        if slot = current then {done with slot := some next}
        -- The exchange failed: the loop loads again.
        else {state with calls := state.calls.insert thread {call with loaded := none}}
      | none => {done with entries := state.entries.insert call.process next}))

def forget (state : TableEpochs) (process : Nat) : Option TableEpochs :=
  if (state.callsOf process).isEmpty then some {state with entries := state.entries.erase process} else none

def exec (state : TableEpochs) (action : Action) : Option (Action × TableEpochs) :=
  (match action with
    | .call process thread minimum count => state.start process thread minimum count
    | .load thread => state.load thread
    | .finish thread => state.finish thread
    | .forget process => state.forget process).map (fun next => (action,next))

end TableEpochs

open TableEpochs

def inRange (state : TableEpochs) : Action → Bool
  | .finish thread => (state.calls.lookup thread).all (fun call =>
      call.loaded.all (fun current => base call current + call.count ≤ maxId))
  | _ => true

/-- Without a sidecar, the table is used by one process, which keeps its entry, and no call loads
the cursor while another is between its load and its store. -/
def unshared (state : TableEpochs) : Action → Bool
  | .call process _ _ _ => state.entries.keys.all (fun other => other == process)
  | .load _ => (values state.calls).all (fun call => call.loaded.isNone)
  | .finish _ => true
  | .forget _ => false

def safe (state : TableEpochs) (action : Action) : Bool :=
  inRange state action && (state.slot.isSome || unshared state action)

def Disjoint (left right : Reservation) : Prop :=
  left.count = 0 ∨ right.count = 0 ∨ left.base + left.count ≤ right.base ∨ right.base + right.count ≤ left.base

def Bounded (returned : List Reservation) (bound : Nat) : Prop :=
  ∀ r ∈ returned, 0 < r.count → r.base + r.count ≤ bound

/-- A table without a sidecar: one entry, whose cursor bounds what was handed out, and at most one
call that has loaded it. -/
structure Local (state : TableEpochs) : Prop where
  sole : ∀ p q, p ∈ state.entries.keys → q ∈ state.entries.keys → p = q
  bounded : ∀ p cursor, state.entries.lookup p = some cursor → Bounded state.returned cursor
  unused : state.entries.keys = [] → Bounded state.returned 0
  held : ∀ t call, state.calls.lookup t = some call →
    ∃ cursor, state.entries.lookup call.process = some cursor ∧ ∀ current, call.loaded = some current → current = cursor
  single : ∀ t u left right, state.calls.lookup t = some left → state.calls.lookup u = some right →
    left.loaded.isSome → right.loaded.isSome → t = u

structure Kept (state : TableEpochs) : Prop where
  respected : ∀ r ∈ state.returned, r.minimum ≤ r.base
  disjoint : state.returned.Pairwise Disjoint
  shared : ∀ slot, state.slot = some slot → Bounded state.returned slot
  cursor : state.slot = none → Local state

theorem kept_opened (slot : Option Nat) : Kept (opened slot) where
  respected := by simp [opened]
  disjoint := .nil
  shared := by simp [opened,Bounded]
  cursor := by
    intro _
    constructor <;> simp [opened,Bounded]

variable {state next : TableEpochs}

theorem Bounded.mono {returned : List Reservation} {low high : Nat} (bounded : Bounded returned low) (le : low ≤ high) :
    Bounded returned high := fun r member counted => Nat.le_trans (bounded r member counted) le

theorem Bounded.snoc {returned : List Reservation} {r : Reservation} {low high : Nat} (bounded : Bounded returned low)
    (le : low ≤ high) (top : r.base + r.count ≤ high) : Bounded (returned ++ [r]) high := by
  intro other member counted
  rcases List.mem_append.mp member with old | new
  · exact Nat.le_trans (bounded other old counted) le
  · rw [List.mem_singleton.mp new]
    exact top

private theorem disjoint_snoc {returned : List Reservation} {r : Reservation} {bound : Nat}
    (pairwise : returned.Pairwise Disjoint) (bounded : Bounded returned bound)
    (above : bound ≤ r.base) : (returned ++ [r]).Pairwise Disjoint := by
  apply List.pairwise_append.mpr
  refine ⟨pairwise,List.pairwise_singleton _ _,?_⟩
  intro other member new last
  rw [List.mem_singleton.mp last]
  by_cases counted : 0 < other.count
  · exact Or.inr (Or.inr (Or.inl (Nat.le_trans (bounded other member counted) above)))
  · exact Or.inl (by omega)

private theorem respected_snoc {r : Reservation} (respected : ∀ r ∈ state.returned, r.minimum ≤ r.base)
    (here : r.minimum ≤ r.base) :
    ∀ other ∈ state.returned ++ [r], other.minimum ≤ other.base := by
  intro other member
  rcases List.mem_append.mp member with old | new
  · exact respected other old
  · rw [List.mem_singleton.mp new]
    exact here

private theorem start_cases {process thread minimum count : Nat}
    (stepped : state.start process thread minimum count = some next) :
    (count = 0 ∧ next = {state with returned := state.returned ++ [⟨minimum,0,minimum⟩]}) ∨
    (state.calls.lookup thread = none ∧ (∃ cursor, state.entries.lookup process = some cursor) ∧
      next = {state with calls := state.calls.insert thread ⟨process,minimum,count,false,none⟩}) ∨
    (state.calls.lookup thread = none ∧ state.entries.lookup process = none ∧
      next = {state with
        entries := state.entries.insert process 0
        calls := state.calls.insert thread ⟨process,minimum,count,true,none⟩}) := by
  unfold start at stepped
  split at stepped
  · rename_i zero
    exact Or.inl ⟨zero,(Option.some.inj stepped).symm⟩
  · split at stepped
    · cases stepped
    · rename_i _ free
      have idle : state.calls.lookup thread = none := by simpa using free
      split at stepped
      · rename_i cursor found
        split at stepped
        · cases stepped
        · exact Or.inr (Or.inl ⟨idle,⟨cursor,found⟩,(Option.some.inj stepped).symm⟩)
      · rename_i absent
        split at stepped
        · exact Or.inr (Or.inr ⟨idle,absent,(Option.some.inj stepped).symm⟩)
        · cases stepped

private theorem load_cases {thread : Nat} (stepped : state.load thread = some next) :
    ∃ call, state.calls.lookup thread = some call ∧ call.loaded = none ∧
      next = {state with calls := state.calls.insert thread {call with
        loaded := some (state.current call.process)}} := by
  obtain ⟨call,found,stepped⟩ := Option.bind_eq_some_iff.mp stepped
  split at stepped
  · cases stepped
  · rename_i unloaded
    exact ⟨call,found,by simpa using unloaded,(Option.some.inj stepped).symm⟩

private theorem finish_cases {thread : Nat} (stepped : state.finish thread = some next) :
    ∃ call current, state.calls.lookup thread = some call ∧ call.loaded = some current ∧
      ((∃ slot, state.slot = some slot ∧ slot ≠ current ∧
        next = {state with calls := state.calls.insert thread {call with loaded := none}}) ∨
      (state.slot = some current ∧ next = {state with
        slot := some (saturatingAdd (base call current) call.count)
        calls := state.calls.erase thread
        returned := state.returned ++ [⟨call.minimum,call.count,base call current⟩]}) ∨
      (state.slot = none ∧ next = {state with
        entries := state.entries.insert call.process (saturatingAdd (base call current) call.count)
        calls := state.calls.erase thread
        returned := state.returned ++ [⟨call.minimum,call.count,base call current⟩]})) := by
  obtain ⟨call,found,stepped⟩ := Option.bind_eq_some_iff.mp stepped
  obtain ⟨current,loaded,stepped⟩ := Option.map_eq_some_iff.mp stepped
  refine ⟨call,current,found,loaded,?_⟩
  cases mapped : state.slot with
  | none =>
    simp only [mapped] at stepped
    exact Or.inr (Or.inr ⟨rfl,stepped.symm⟩)
  | some slot =>
    simp only [mapped] at stepped
    split at stepped
    · rename_i same
      exact Or.inr (Or.inl ⟨same ▸ rfl,stepped.symm⟩)
    · rename_i other
      exact Or.inl ⟨slot,rfl,other,stepped.symm⟩

private theorem start_kept {process thread minimum count : Nat} (kept : Kept state)
    (guarded : state.slot.isSome = true ∨ ∀ other ∈ state.entries.keys, other = process)
    (stepped : state.start process thread minimum count = some next) : Kept next := by
  rcases start_cases stepped with ⟨_,rfl⟩ | ⟨_,⟨cursor,found⟩,rfl⟩ | ⟨_,absent,rfl⟩
  · have plain {bound : Nat} (bounded : Bounded state.returned bound) :
        Bounded (state.returned ++ [⟨minimum,0,minimum⟩]) bound := by
      intro r member counted
      rcases List.mem_append.mp member with old | new
      · exact bounded r old counted
      · rw [List.mem_singleton.mp new] at counted
        exact absurd counted (Nat.lt_irrefl 0)
    refine ⟨respected_snoc kept.respected (Nat.le_refl _),?_,fun slot mapped => plain (kept.shared slot mapped),?_⟩
    · apply List.pairwise_append.mpr
      refine ⟨kept.disjoint,List.pairwise_singleton _ _,?_⟩
      intro other _ new last
      rw [List.mem_singleton.mp last]
      exact Or.inr (Or.inl rfl)
    · intro unmapped
      have own := kept.cursor unmapped
      exact ⟨own.sole,fun p cursor found => plain (own.bounded p cursor found),fun empty => plain (own.unused empty),
        own.held,own.single⟩
  · refine ⟨kept.respected,kept.disjoint,kept.shared,fun unmapped => ?_⟩
    have own := kept.cursor unmapped
    refine ⟨own.sole,own.bounded,own.unused,?_,?_⟩
    · intro t call listed
      rcases lookup_of_insert listed with ⟨_,rfl⟩ | ⟨_,old⟩
      · exact ⟨cursor,found,by simp⟩
      · exact own.held t call old
    · intro t u left right first second
      rcases lookup_of_insert first with ⟨_,rfl⟩ | ⟨_,oldLeft⟩
      · simp
      · rcases lookup_of_insert second with ⟨_,rfl⟩ | ⟨_,oldRight⟩
        · simp
        · exact own.single t u left right oldLeft oldRight
  · refine ⟨kept.respected,kept.disjoint,kept.shared,fun unmapped => ?_⟩
    change state.slot = none at unmapped
    have own := kept.cursor unmapped
    -- The first entry: nothing has been handed out and no call is under way.
    have none : state.entries.keys = [] := by
      apply List.eq_nil_iff_forall_not_mem.mpr
      intro other member
      rcases guarded with mapped | alone
      · simp [unmapped] at mapped
      · have same := alone other member
        exact AList.lookup_eq_none.mp absent (AList.mem_keys.mpr (same ▸ member))
    have idle : ∀ t call, state.calls.lookup t ≠ some call := by
      intro t call listed
      obtain ⟨cursor,found,_⟩ := own.held t call listed
      have present : call.process ∈ state.entries := AList.lookup_isSome.mp (by simp [found])
      simp [AList.mem_keys,none] at present
    have empty := own.unused none
    refine ⟨?_,?_,?_,?_,?_⟩
    · intro p q first second
      simp only [AList.keys_insert,none,List.erase_nil,List.mem_singleton] at first second
      rw [first,second]
    · intro p cursor found
      exact empty.mono (Nat.zero_le _)
    · intro gone
      exact empty
    · intro t call listed
      rcases lookup_of_insert listed with ⟨_,rfl⟩ | ⟨_,old⟩
      · exact ⟨0,by simp,by simp⟩
      · exact absurd old (idle t call)
    · intro t u left right first second
      rcases lookup_of_insert first with ⟨_,rfl⟩ | ⟨_,old⟩
      · simp
      · exact absurd old (idle t left)

private theorem load_kept {thread : Nat} (kept : Kept state)
    (guarded : state.slot.isSome = true ∨ ∀ call ∈ values state.calls, call.loaded = none)
    (stepped : state.load thread = some next) : Kept next := by
  obtain ⟨call,found,_,rfl⟩ := load_cases stepped
  refine ⟨kept.respected,kept.disjoint,kept.shared,fun unmapped => ?_⟩
  change state.slot = none at unmapped
  have own := kept.cursor unmapped
  have quiet : ∀ t other, state.calls.lookup t = some other → other.loaded = none := by
    intro t other listed
    rcases guarded with mapped | alone
    · simp [unmapped] at mapped
    · exact alone other ((mem_values _ _).mpr ⟨t,listed⟩)
  refine ⟨own.sole,own.bounded,own.unused,?_,?_⟩
  · intro t other listed
    rcases lookup_of_insert listed with ⟨_,rfl⟩ | ⟨_,old⟩
    · obtain ⟨cursor,holds,_⟩ := own.held thread call found
      refine ⟨cursor,holds,?_⟩
      intro current loaded
      simpa [TableEpochs.current,unmapped,holds] using loaded.symm
    · exact own.held t other old
  · intro t u left right first second someLeft someRight
    rcases lookup_of_insert first with ⟨rfl,rfl⟩ | ⟨_,oldLeft⟩
    · rcases lookup_of_insert second with ⟨rfl,_⟩ | ⟨_,oldRight⟩
      · rfl
      · simp [quiet u right oldRight] at someRight
    · simp [quiet t left oldLeft] at someLeft

private theorem reserve_kept {call : Call} {current mark : Nat} (kept : Kept state)
    (fits : base call current + call.count ≤ maxId) (bounded : Bounded state.returned current)
    (raised : mark = saturatingAdd (base call current) call.count) :
    let returned := state.returned ++ [⟨call.minimum,call.count,base call current⟩]
    (∀ r ∈ returned, r.minimum ≤ r.base) ∧ returned.Pairwise Disjoint ∧ Bounded returned mark := by
  have exact_ : mark = base call current + call.count := by
    rw [raised,saturatingAdd]
    omega
  have above : current ≤ base call current := Nat.le_max_left _ _
  refine ⟨respected_snoc kept.respected (Nat.le_max_right _ _),disjoint_snoc kept.disjoint bounded above,?_⟩
  apply bounded.snoc
  · omega
  · exact exact_ ▸ Nat.le_refl _

private theorem stored_local {thread current mark : Nat} {call : Call} (own : Local state)
    (found : state.calls.lookup thread = some call) (loaded : call.loaded = some current)
    (held : state.entries.lookup call.process = some current)
    (bounded : Bounded (state.returned ++ [⟨call.minimum,call.count,base call current⟩]) mark) :
    Local {state with
      entries := state.entries.insert call.process mark
      calls := state.calls.erase thread
      returned := state.returned ++ [⟨call.minimum,call.count,base call current⟩]} := by
  have here : call.process ∈ state.entries.keys := AList.mem_keys.mp (AList.lookup_isSome.mp (by simp [held]))
  have only : ∀ p cursor, state.entries.lookup p = some cursor → p = call.process := by
    intro p cursor listed
    exact own.sole p call.process (AList.mem_keys.mp (AList.lookup_isSome.mp (by simp [listed]))) here
  refine ⟨?_,?_,?_,?_,?_⟩
  · have one : ∀ p ∈ (state.entries.insert call.process mark).keys, p = call.process := by
      intro p member
      rw [AList.keys_insert] at member
      rcases List.mem_cons.mp member with same | old
      · exact same
      · exact own.sole p call.process (List.mem_of_mem_erase old) here
    intro p q first second
    exact (one p first).trans (one q second).symm
  · intro p cursor listed
    rcases lookup_of_insert listed with ⟨_,rfl⟩ | ⟨other,old⟩
    · exact bounded
    · exact absurd (only p cursor old) other
  · intro empty
    simp [AList.keys_insert] at empty
  · intro t other listed
    obtain ⟨apart,old⟩ := lookup_of_erase listed
    obtain ⟨cursor,holds,_⟩ := own.held t other old
    have same := only other.process cursor holds
    refine ⟨mark,by rw [same]; exact AList.lookup_insert _,?_⟩
    intro read reads
    exact absurd (own.single t thread other call old found (by simp [reads]) (by simp [loaded])) apart
  · intro t u left right first second
    exact own.single t u left right (lookup_of_erase first).2 (lookup_of_erase second).2

private theorem finish_kept {thread : Nat} (kept : Kept state) (fits : inRange state (.finish thread) = true)
    (stepped : state.finish thread = some next) : Kept next := by
  obtain ⟨call,current,found,loaded,outcome⟩ := finish_cases stepped
  have room : base call current + call.count ≤ maxId := by
    simpa [inRange,found,loaded] using fits
  rcases outcome with ⟨slot,mapped,_,rfl⟩ | ⟨mapped,rfl⟩ | ⟨unmapped,rfl⟩
  · refine ⟨kept.respected,kept.disjoint,kept.shared,fun unmapped => ?_⟩
    change state.slot = none at unmapped
    simp [mapped] at unmapped
  · obtain ⟨respected,disjoint,bounded⟩ := reserve_kept kept room (kept.shared current mapped) rfl
    refine ⟨respected,disjoint,?_,fun unmapped => by cases unmapped⟩
    intro slot mark
    exact Option.some.inj mark ▸ bounded
  · have own := kept.cursor unmapped
    obtain ⟨cursor,held,same⟩ := own.held thread call found
    obtain rfl := same current loaded
    obtain ⟨respected,disjoint,bounded⟩ := reserve_kept kept room (own.bounded call.process current held) rfl
    refine ⟨respected,disjoint,?_,fun _ => stored_local own found loaded held bounded⟩
    intro slot mapped
    change state.slot = some slot at mapped
    simp [unmapped] at mapped

private theorem forget_kept {process : Nat} (kept : Kept state) (guarded : state.slot.isSome = true)
    (stepped : state.forget process = some next) : Kept next := by
  unfold forget at stepped
  split at stepped
  · cases stepped
    refine ⟨kept.respected,kept.disjoint,kept.shared,fun unmapped => ?_⟩
    change state.slot = none at unmapped
    simp [unmapped] at guarded
  · cases stepped

theorem exec_kept {action event : Action} (kept : Kept state) (permitted : safe state action = true)
    (stepped : exec state action = some (event,next)) : Kept next := by
  obtain ⟨after,stepped,same⟩ := Option.map_eq_some_iff.mp stepped
  cases same
  obtain ⟨fits,guarded⟩ := Bool.and_eq_true_iff.mp permitted
  rw [Bool.or_eq_true] at guarded
  cases action with
  | call process thread minimum count => exact start_kept kept (by simpa [unshared] using guarded) stepped
  | load thread => exact load_kept kept (by simpa [unshared] using guarded) stepped
  | finish thread => exact finish_kept kept fits stepped
  | forget process => exact forget_kept kept (by simpa [unshared] using guarded) stepped

/-- In every run in which a table without a sidecar is used by one call at a time, the reserved
ranges are disjoint and respect the callers' minimums. With a sidecar every interleaving is such a
run, also across dropped entries. -/
theorem reservations_disjoint {slot : Option Nat} {trace : List Action} {final : TableEpochs}
    (run : Run exec safe (opened slot) trace final) :
    final.returned.Pairwise Disjoint ∧ ∀ r ∈ final.returned, r.minimum ≤ r.base := by
  have kept : Kept final := by
    refine Run.invariant (P := fun _ state => Kept state) (kept_opened slot) ?_ run
    intro _ _ _ _ _ _ kept permitted stepped
    exact exec_kept kept permitted stepped
  exact ⟨kept.disjoint,kept.respected⟩

theorem reservations_disjoint_reopened :
    ∃ trace final, Run exec safe (opened (some 7)) trace final ∧
      final.returned = [⟨1,2,7⟩,⟨20,3,20⟩] ∧ final.returned.Pairwise Disjoint := by
  have played : ∃ trace final, play exec safe (opened (some 7)) [.call 0 0 1 2,.load 0,.finish 0,.forget 0,
    .call 0 1 20 3,.load 1,.finish 1] =
      some (trace,final) ∧ final.returned = [⟨1,2,7⟩,⟨20,3,20⟩] := ⟨_,_,rfl,rfl⟩
  obtain ⟨trace,final,played,returned⟩ := played
  have run := Run.of_play played
  exact ⟨trace,final,run,returned,(reservations_disjoint run).1⟩

/-- Two calls on a table without a sidecar that both load before either stores. -/
theorem racing_stores_repeat_ids :
    ∃ trace final, Run exec inRange (opened none) trace final ∧ ¬ final.returned.Pairwise Disjoint := by
  have played : ∃ trace final, play exec inRange (opened none)
      [.call 0 0 1 1,.load 0,.finish 0,.call 0 1 1 3,.call 0 2 1 3,.load 1,.load 2,.finish 1,.finish 2] =
      some (trace,final) ∧
      final.returned = [⟨1,1,1⟩,⟨1,3,2⟩,⟨1,3,2⟩] := ⟨_,_,rfl,rfl⟩
  obtain ⟨trace,final,played,returned⟩ := played
  refine ⟨trace,final,Run.of_play played,?_⟩
  rw [returned]
  simp [Disjoint]

end ApexBase.Storage.Epoch
