import ApexBase.Library.Assoc
import ApexBase.Library.Run

/-! Table generations of `storage/epoch.rs`, on one thread. The generation of a path is
the first slot of its sidecar, or a counter of the process where the sidecar cannot be
mapped. Which file a path's sidecar is, the file system says; paths are not
canonicalised. -/
namespace ApexBase.Storage.Generation
open Library Library.Assoc

structure WriteScopeState where
  depth : Nat
  changed : Bool
  deriving DecidableEq

structure Epochs (Path File : Type) where
  /-- The first slot of every sidecar; a new file is filled with zeros. -/
  slots : Map File UInt64
  /-- `local` of each entry of `TABLE_EPOCHS`. -/
  locals : Map Path UInt64
  globalEpoch : UInt64
  writeScopes : Map Path WriteScopeState
  /-- The live guards. -/
  guards : Map Nat Path

inductive Action (Path : Type)
  | logicalWrite (guard : Nat) (path : Path)
  | commit (guard : Nat)
  | bump (path : Path)
  | drop (guard : Nat)

inductive Event (Path : Type)
  | opened (path : Path)
  | committed (path : Path)
  | bumped (path : Path) (returned : UInt64)
  | dropped (path : Path)
  deriving DecidableEq

def Event.path {Path : Type} : Event Path → Path
  | opened path | committed path | bumped path _ | dropped path => path

def saturatingSucc (epoch : UInt64) : UInt64 := if epoch = UInt64.ofNat (2^64 - 1) then epoch else epoch + 1

section
variable {Path File : Type} [DecidableEq Path] [DecidableEq File] (sidecar : Path → Option File)

namespace Epochs

def idle (slots : Map File UInt64) (locals : Map Path UInt64) (globalEpoch : UInt64) : Epochs Path File :=
  ⟨slots,locals,globalEpoch,∅,∅⟩

def current (epochs : Epochs Path File) (path : Path) : UInt64 :=
  match sidecar path with
  | some file => (epochs.slots.lookup file).getD 0
  | none => (epochs.locals.lookup path).getD 0

def bumpNow (epochs : Epochs Path File) (path : Path) : UInt64 × Epochs Path File :=
  let epoch := epochs.current sidecar path + 1
  let slots := match sidecar path with
    | some file => epochs.slots.insert file epoch
    | none => epochs.slots
  (epoch,{epochs with slots, locals := epochs.locals.insert path epoch, globalEpoch := epochs.globalEpoch + 1})

def mark (epochs : Epochs Path File) (path : Path) : Epochs Path File :=
  match epochs.writeScopes.lookup path with
  | some scope => {epochs with writeScopes := epochs.writeScopes.insert path {scope with changed := true}}
  | none => epochs

def logicalWrite (epochs : Epochs Path File) (guard : Nat) (path : Path) : Epochs Path File :=
  let scope := (epochs.writeScopes.lookup path).getD ⟨0,false⟩
  {epochs with
    writeScopes := epochs.writeScopes.insert path {scope with depth := scope.depth + 1}
    guards := epochs.guards.insert guard path}

def bump (epochs : Epochs Path File) (path : Path) : UInt64 × Epochs Path File :=
  if (epochs.writeScopes.lookup path).isSome then (saturatingSucc (epochs.current sidecar path),epochs.mark path)
  else epochs.bumpNow sidecar path

def drop (epochs : Epochs Path File) (guard : Nat) (path : Path) : Epochs Path File :=
  let dropped := {epochs with guards := epochs.guards.erase guard}
  match epochs.writeScopes.lookup path with
  | none => dropped
  | some scope =>
    if scope.depth - 1 = 0 then
      let closed := {dropped with writeScopes := epochs.writeScopes.erase path}
      if scope.changed then (closed.bumpNow sidecar path).2 else closed
    else {dropped with writeScopes := epochs.writeScopes.insert path {scope with depth := scope.depth - 1}}

/-- A guard is opened once, and committed and dropped while it is live. -/
def exec (epochs : Epochs Path File) : Action Path → Option (Event Path × Epochs Path File)
  | .logicalWrite guard path =>
    if (epochs.guards.lookup guard).isSome then none else some (.opened path,epochs.logicalWrite guard path)
  | .commit guard => (epochs.guards.lookup guard).map fun path => (.committed path,epochs.mark path)
  | .bump path => some (.bumped path (epochs.bump sidecar path).1,(epochs.bump sidecar path).2)
  | .drop guard => (epochs.guards.lookup guard).map fun path => (.dropped path,epochs.drop sidecar guard path)

end Epochs

end

/-! What is to be published, read off the events. -/

section
variable {Path : Type} [DecidableEq Path] (path : Path)

def opens : Event Path → Bool
  | .opened p => p == path
  | _ => false

def drops : Event Path → Bool
  | .dropped p => p == path
  | _ => false

def bumps : Event Path → Bool
  | .bumped p _ => p == path
  | _ => false

def commits : Event Path → Bool
  | .committed p => p == path
  | _ => false

def live (events : List (Event Path)) : Nat := events.countP (opens path) - events.countP (drops path)

/-- Some guard of the path has been live ever since a commit or a bump inside the same
interval. -/
def Dirty (events : List (Event Path)) : Prop :=
  ∃ k < events.length, events[k]?.any (fun event => bumps path event || commits path event) = true ∧
    ∀ m ≤ events.length, k ≤ m → 0 < live path (events.take m)

/-- The event is a bump with no live guard, or closes an interval in which a guard was
committed or the path bumped. -/
def Publishes (events : List (Event Path)) (j : Nat) : Prop :=
  (events[j]?.any (bumps path) = true ∧ live path (events.take j) = 0) ∨
  (events[j]?.any (drops path) = true ∧ live path (events.take (j + 1)) = 0 ∧ Dirty path (events.take j))

instance (events : List (Event Path)) : Decidable (Dirty path events) := by unfold Dirty; infer_instance

instance (events : List (Event Path)) (j : Nat) :
    Decidable (Publishes path events j) := by unfold Publishes; infer_instance

def published (events : List (Event Path)) : Nat := (List.range events.length).countP fun j => Publishes path events j

end

/-! One more event. -/

section
variable {Path : Type} [DecidableEq Path] {path : Path} {events : List (Event Path)} {event : Event Path}

theorem live_positive_of_dirty (dirty : Dirty path events) : 0 < live path events := by
  obtain ⟨k,early,_,lasting⟩ := dirty
  simpa using lasting events.length (Nat.le_refl _) (Nat.le_of_lt early)

theorem dirty_snoc : Dirty path (events ++ [event]) ↔ 0 < live path (events ++ [event]) ∧
    (Dirty path events ∨ ((bumps path event || commits path event) = true ∧ 0 < live path events)) := by
  have whole : (events ++ [event]).take (events ++ [event]).length = events ++ [event] := List.take_length
  have front (m : Nat) (early : m ≤ events.length) : (events ++ [event]).take m = events.take m :=
    List.take_append_of_le_length early
  have size : (events ++ [event]).length = events.length + 1 := by simp
  constructor
  · intro dirty
    have positive := live_positive_of_dirty dirty
    obtain ⟨k,inside,marks,lasting⟩ := dirty
    refine ⟨positive,?_⟩
    rcases Nat.lt_or_ge k events.length with early | late
    · refine Or.inl ⟨k,early,by simpa [List.getElem?_append_left early] using marks,?_⟩
      intro m within after
      have alive := lasting m (by omega) after
      rwa [front m within] at alive
    · obtain rfl : k = events.length := by omega
      have alive := lasting events.length (by omega) (Nat.le_refl _)
      rw [front _ (Nat.le_refl _),List.take_length] at alive
      exact Or.inr ⟨by simpa using marks,alive⟩
  · rintro ⟨positive,⟨k,early,marks,lasting⟩ | ⟨marks,alive⟩⟩
    · refine ⟨k,by omega,by simpa [List.getElem?_append_left early] using marks,?_⟩
      intro m within after
      rcases Nat.lt_or_ge events.length m with last | before
      · obtain rfl : m = (events ++ [event]).length := by omega
        rwa [whole]
      · rw [front m before]
        exact lasting m before after
    · refine ⟨events.length,by omega,by simpa using marks,?_⟩
      intro m within after
      rcases Nat.lt_or_ge events.length m with last | before
      · obtain rfl : m = (events ++ [event]).length := by omega
        rwa [whole]
      · obtain rfl : m = events.length := by omega
        rwa [front _ (Nat.le_refl _),List.take_length]

theorem publishes_last : Publishes path (events ++ [event]) events.length ↔
    (bumps path event = true ∧ live path events = 0) ∨ (drops path event = true ∧ live path (events ++ [event]) = 0 ∧
      Dirty path events) := by
  have front : (events ++ [event]).take events.length = events := List.take_left
  have whole : (events ++ [event]).take (events.length + 1) = events ++ [event] := List.take_of_length_le (by simp)
  unfold Publishes
  rw [front,whole]
  simp

theorem published_snoc (path : Path) (events : List (Event Path)) (event : Event Path) :
    published path (events ++ [event]) =
    published path events + if Publishes path (events ++ [event]) events.length then 1 else 0 := by
  unfold published
  rw [List.length_append,List.length_singleton,List.range_succ,List.countP_append]
  congr 1
  · refine List.countP_congr fun j member => ?_
    have early := List.mem_range.mp member
    have here : (events ++ [event]).take j = events.take j := List.take_append_of_le_length (by omega)
    have next : (events ++ [event]).take (j + 1) = events.take (j + 1) := List.take_append_of_le_length (by omega)
    rw [decide_eq_true_eq,decide_eq_true_eq]
    simp only [Publishes,List.getElem?_append_left early,here,next]
  · simp [List.countP_cons]

theorem event_elsewhere (other : event.path ≠ path) :
    opens path event = false ∧ drops path event = false ∧ bumps path event = false ∧ commits path event = false := by
  cases event with
  | opened p | committed p | bumped p _ | dropped p =>
    have apart : (p == path) = false := beq_false_of_ne other
    simp [opens,drops,bumps,commits,apart]

theorem elsewhere_snoc (events : List (Event Path)) (other : event.path ≠ path) :
    live path (events ++ [event]) = live path events ∧
    (Dirty path (events ++ [event]) ↔ Dirty path events) ∧ published path (events ++ [event]) =
    published path events := by
  obtain ⟨opened,dropped,bumped,committed⟩ := event_elsewhere other
  have same : live path (events ++ [event]) = live path events := by
    simp [live,List.countP_append,opened,dropped]
  refine ⟨same,?_,?_⟩
  · rw [dirty_snoc,same,bumped,committed]
    simp only [Bool.or_self,Bool.false_eq_true,false_and,or_false]
    exact ⟨fun both => both.2,fun dirty => ⟨live_positive_of_dirty dirty,dirty⟩⟩
  · rw [published_snoc,if_neg,Nat.add_zero]
    rw [publishes_last,bumped,dropped]
    simp

end

/-! The state follows the events. -/

section
variable {Path File : Type} [DecidableEq Path] [DecidableEq File] {sidecar : Path → Option File} {path other : Path}
  {events : List (Event Path)} {start epochs next : Epochs Path File}

def holders (path : Path) (epochs : Epochs Path File) : Nat := (values epochs.guards).countP (· == path)

def due (path : Path) (events : List (Event Path)) : Nat := published path events + if Dirty path events then 1 else 0

structure Tracks (sidecar : Path → Option File) (path : Path) (start : Epochs Path File) (events : List (Event Path))
    (epochs : Epochs Path File) : Prop where
  balance : events.countP (opens path) = events.countP (drops path) + holders path epochs
  scope : epochs.writeScopes.lookup path =
    if live path events = 0 then none else some ⟨live path events,decide (Dirty path events)⟩
  generation : epochs.current sidecar path = start.current sidecar path + UInt64.ofNat (published path events)
  returned : (start.current sidecar path).toNat + due path events < 2^64 → ∀ (j : Nat) (value : UInt64),
    events[j]? = some (Event.bumped path value) → value.toNat ≤ (start.current sidecar path).toNat + due path events

theorem Tracks.live (tracks : Tracks sidecar path start events epochs) : live path events = holders path epochs := by
  have balance := tracks.balance
  unfold Generation.live
  omega

theorem tracks_idle (slots : Map File UInt64) (locals : Map Path UInt64) (globalEpoch : UInt64) :
    Tracks sidecar path (.idle slots locals globalEpoch) [] (.idle slots locals globalEpoch) where
  balance := rfl
  scope := rfl
  generation := (UInt64.add_zero _).symm
  returned := by simp

/-! What the operations do to the generation, the scopes and the guards of a path. -/

theorem current_bumpNow (epochs : Epochs Path File) (path : Path) :
    (epochs.bumpNow sidecar path).2.current sidecar path = epochs.current sidecar path + 1 := by
  simp only [Epochs.bumpNow,Epochs.current]
  cases sidecar path <;> simp

def Apart (sidecar : Path → Option File) (path other : Path) :
    Prop := sidecar path = none ∨ sidecar other ≠ sidecar path

theorem current_bumpNow_other (epochs : Epochs Path File) (different : other ≠ path)
    (apart : Apart sidecar path other) :
    (epochs.bumpNow sidecar other).2.current sidecar path = epochs.current sidecar path := by
  simp only [Epochs.bumpNow,Epochs.current]
  cases mapped : sidecar path with
  | none => simp [AList.lookup_insert_ne different.symm]
  | some file =>
    rcases apart with unmapped | elsewhere
    · rw [mapped] at unmapped
      cases unmapped
    · cases target : sidecar other with
      | none => rfl
      | some slot =>
        have off : file ≠ slot := fun same => elsewhere (by rw [target,mapped,same])
        simp [AList.lookup_insert_ne off]

omit [DecidableEq File] in
theorem mark_fields (epochs : Epochs Path File) (path : Path) : (epochs.mark path).slots = epochs.slots ∧
    (epochs.mark path).locals = epochs.locals ∧ (epochs.mark path).guards = epochs.guards := by
  unfold Epochs.mark
  split <;> exact ⟨rfl,rfl,rfl⟩

theorem current_congr {a b : Epochs Path File} (slots : a.slots = b.slots) (locals : a.locals = b.locals) :
    a.current sidecar path = b.current sidecar path := by
  unfold Epochs.current
  rw [slots,locals]

theorem current_mark (epochs : Epochs Path File) :
    (epochs.mark other).current sidecar path = epochs.current sidecar path :=
  current_congr (mark_fields epochs other).1 (mark_fields epochs other).2.1

omit [DecidableEq File] in
theorem holders_open (path other : Path) {guard : Nat} (free : epochs.guards.lookup guard = none) :
    holders path (epochs.logicalWrite guard other) = holders path epochs + if other = path then 1 else 0 := by
  simp only [holders,Epochs.logicalWrite,values_insert,values_erase_none free,List.countP_cons,beq_iff_eq]

omit [DecidableEq File] in
theorem holders_drop (path : Path) {guard : Nat} (found : epochs.guards.lookup guard = some other)
    (epochs' : Epochs Path File)
    (guards : epochs'.guards = epochs.guards.erase guard) :
    holders path epochs = holders path epochs' + if other = path then 1 else 0 := by
  simp only [holders,guards]
  rw [(perm_values found).countP_eq,List.countP_cons]
  simp only [beq_iff_eq]

theorem drop_guards (sidecar : Path → Option File) (epochs : Epochs Path File) (guard : Nat) (path : Path) :
    (epochs.drop sidecar guard path).guards = epochs.guards.erase guard := by
  unfold Epochs.drop
  split
  · rfl
  · split
    · split <;> rfl
    · rfl

structure Elsewhere (sidecar : Path → Option File) (path : Path) (before after : Epochs Path File) : Prop where
  scope : after.writeScopes.lookup path = before.writeScopes.lookup path
  generation : after.current sidecar path = before.current sidecar path
  holders : holders path after = holders path before

omit [DecidableEq File] in
theorem mark_scope (different : other ≠ path) :
    (epochs.mark other).writeScopes.lookup path = epochs.writeScopes.lookup path := by
  unfold Epochs.mark
  split
  · exact AList.lookup_insert_ne different.symm
  · rfl

theorem drop_elsewhere {guard : Nat} (different : other ≠ path) (apart : Apart sidecar path other) :
    (epochs.drop sidecar guard other).writeScopes.lookup path = epochs.writeScopes.lookup path ∧
      (epochs.drop sidecar guard other).current sidecar path = epochs.current sidecar path := by
  unfold Epochs.drop
  split
  · exact ⟨rfl,rfl⟩
  · split
    · split
      · exact ⟨AList.lookup_erase_ne different.symm,current_bumpNow_other _ different apart⟩
      · exact ⟨AList.lookup_erase_ne different.symm,rfl⟩
    · exact ⟨AList.lookup_insert_ne different.symm,rfl⟩

theorem exec_elsewhere {action : Action Path} {event : Event Path}
    (stepped : epochs.exec sidecar action = some (event,next)) (different : event.path ≠ path)
    (apart : Apart sidecar path event.path) : Elsewhere sidecar path epochs next := by
  cases action with
  | logicalWrite guard p =>
    simp only [Epochs.exec] at stepped
    split at stepped
    · cases stepped
    · rename_i free
      cases stepped
      have idle : epochs.guards.lookup guard = none := by simpa using free
      have holding := holders_open path p idle
      rw [if_neg (show ¬ p = path from different),Nat.add_zero] at holding
      exact ⟨AList.lookup_insert_ne different.symm,rfl,holding⟩
  | commit guard =>
    obtain ⟨p,found,same⟩ := Option.map_eq_some_iff.mp stepped
    cases same
    exact ⟨mark_scope different,current_mark epochs,by rw [holders,(mark_fields epochs p).2.2,holders]⟩
  | bump p =>
    cases stepped
    unfold Epochs.bump
    split
    · exact ⟨mark_scope different,current_mark epochs,by rw [holders,(mark_fields epochs p).2.2,holders]⟩
    · exact ⟨rfl,current_bumpNow_other epochs different apart,rfl⟩
  | drop guard =>
    obtain ⟨p,found,same⟩ := Option.map_eq_some_iff.mp stepped
    cases same
    obtain ⟨scope,generation⟩ := drop_elsewhere different apart
    have holding := holders_drop path found _ (drop_guards sidecar epochs guard p)
    rw [if_neg (show ¬ p = path from different),Nat.add_zero] at holding
    exact ⟨scope,generation,holding.symm⟩

/-! One step. -/

omit [DecidableEq File] in
theorem live_snoc
    (balance : (events ++ [event]).countP (opens path) = (events ++ [event]).countP (drops path) + holders path next) :
    live path (events ++ [event]) = holders path next := by
  unfold live
  omega

theorem returned_snoc {event : Event Path} (tracks : Tracks sidecar path start events epochs)
    (grows : due path events ≤ due path (events ++ [event]))
    (new : ∀ value : UInt64, event = .bumped path value → (start.current sidecar path).toNat +
      due path (events ++ [event]) < 2^64 →
      value.toNat ≤ (start.current sidecar path).toNat + due path (events ++ [event])) :
    (start.current sidecar path).toNat + due path (events ++ [event]) < 2^64 → ∀ (j : Nat) (value : UInt64),
      (events ++ [event])[j]? = some (Event.bumped path value) →
      value.toNat ≤ (start.current sidecar path).toNat + due path (events ++ [event]) := by
  intro fits j value found
  rcases Nat.lt_or_ge j events.length with early | late
  · rw [List.getElem?_append_left early] at found
    exact Nat.le_trans (tracks.returned (by omega) j value found) (by omega)
  · rw [List.getElem?_append_right late] at found
    rw [List.getElem?_singleton] at found
    split at found
    · exact new value (Option.some.inj found) fits
    · cases found

theorem elsewhere_step {event : Event Path} (tracks : Tracks sidecar path start events epochs)
    (different : event.path ≠ path)
    (elsewhere : Elsewhere sidecar path epochs next) : Tracks sidecar path start (events ++ [event]) next := by
  obtain ⟨live_,dirty,published_⟩ := elsewhere_snoc events different
  obtain ⟨opened,dropped,_,_⟩ := event_elsewhere different
  have same : due path (events ++ [event]) = due path events := by simp only [due,published_,dirty]
  refine ⟨?_,?_,?_,?_⟩
  · simp only [List.countP_append,List.countP_cons,List.countP_nil,opened,dropped,elsewhere.holders,tracks.balance,
      Bool.false_eq_true,
      if_false,Nat.add_zero]
  · rw [elsewhere.scope,tracks.scope,live_]
    simp only [dirty]
  · rw [elsewhere.generation,tracks.generation,published_]
  · refine returned_snoc tracks (by omega) ?_
    rintro value rfl
    exact absurd rfl different

private theorem countP_snoc (event : Event Path) (opened : opens path event = false)
    (dropped : drops path event = false) :
    (events ++ [event]).countP (opens path) = events.countP (opens path) ∧ (events ++ [event]).countP (drops path) =
    events.countP (drops path) := by
  simp [List.countP_append,opened,dropped]

private theorem published_quiet {event : Event Path} (bumped : bumps path event = true → 0 < live path events)
    (dropped : drops path event = false) : published path (events ++ [event]) = published path events := by
  rw [published_snoc,if_neg,Nat.add_zero]
  rw [publishes_last,dropped]
  rintro (⟨here,idle⟩ | ⟨never,_⟩)
  · have busy := bumped here
    omega
  · cases never

theorem open_step {guard : Nat} (tracks : Tracks sidecar path start events epochs)
    (free : epochs.guards.lookup guard = none) :
    Tracks sidecar path start (events ++ [.opened path]) (epochs.logicalWrite guard path) := by
  have holding := holders_open path path free
  rw [if_pos rfl] at holding
  have balance : (events ++ [Event.opened path]).countP (opens path) =
      (events ++ [Event.opened path]).countP (drops path) + holders path (epochs.logicalWrite guard path) := by
    have before := tracks.balance
    simp only [List.countP_append,List.countP_singleton,opens,drops,beq_self_eq_true,if_true,
      Bool.false_eq_true,if_false]
    omega
  have alive := live_snoc balance
  have dirty : Dirty path (events ++ [.opened path]) ↔ Dirty path events := by
    rw [dirty_snoc]
    simp only [bumps,commits,Bool.or_self,Bool.false_eq_true,false_and,or_false]
    exact ⟨fun both => both.2,fun dirty => ⟨by omega,dirty⟩⟩
  have quiet : published path (events ++ [.opened path]) = published path events :=
    published_quiet (fun never => Bool.noConfusion never) rfl
  refine ⟨balance,?_,?_,returned_snoc tracks (by simp only [due,quiet,dirty]; omega) (fun _ never => by cases never)⟩
  · rw [if_neg (by omega)]
    simp only [Epochs.logicalWrite,AList.lookup_insert,tracks.scope,dirty]
    have count : live path (events ++ [.opened path]) = live path events + 1 := by
      rw [alive,holding,tracks.live]
    rw [count]
    split
    · rename_i none_
      have clean : ¬ Dirty path events := fun dirty => by
        have positive := live_positive_of_dirty dirty
        omega
      simp [none_,clean]
    · rfl
  · rw [quiet]
    exact tracks.generation

theorem mark_step {event : Event Path} (tracks : Tracks sidecar path start events epochs)
    (opened : opens path event = false) (dropped : drops path event = false)
    (marks : (bumps path event || commits path event) = true) (positive : 0 < live path events)
    (new : ∀ value : UInt64, event = .bumped path value → (start.current sidecar path).toNat +
      (published path events + 1) < 2^64 →
      value.toNat ≤ (start.current sidecar path).toNat + (published path events + 1)) :
    Tracks sidecar path start (events ++ [event]) (epochs.mark path) := by
  obtain ⟨opens_,drops_⟩ := countP_snoc _ opened dropped
  have holding : holders path (epochs.mark path) =
    holders path epochs := by rw [holders,(mark_fields epochs path).2.2,holders]
  have balance : (events ++ [event]).countP (opens path) = (events ++ [event]).countP (drops path) +
    holders path (epochs.mark path) := by
    rw [opens_,drops_,holding]
    exact tracks.balance
  have same : live path (events ++ [event]) = live path events := by rw [live_snoc balance,holding,tracks.live]
  have dirty : Dirty path (events ++ [event]) := dirty_snoc.mpr ⟨by omega,Or.inr ⟨marks,positive⟩⟩
  have quiet : published path (events ++ [event]) = published path events := published_quiet (fun _ => positive) dropped
  have total : due path (events ++ [event]) = published path events + 1 := by rw [due,quiet,if_pos dirty]
  refine ⟨balance,?_,?_,returned_snoc tracks ?_ ?_⟩
  · have scope := tracks.scope
    rw [if_neg (by omega)] at scope
    rw [if_neg (by omega),same,Epochs.mark,scope]
    simp [dirty]
  · rw [current_mark,quiet]
    exact tracks.generation
  · rw [total,due]
    split <;> omega
  · rw [total]
    exact new

theorem toNat_generation (tracks : Tracks sidecar path start events epochs)
    (fits : (start.current sidecar path).toNat + published path events < 2^64) :
    (epochs.current sidecar path).toNat = (start.current sidecar path).toNat + published path events := by
  rw [tracks.generation,UInt64.toNat_add,UInt64.toNat_ofNat_of_lt' (by simp only [UInt64.size]; omega)]
  omega

theorem bump_step (tracks : Tracks sidecar path start events epochs) :
    Tracks sidecar path start (events ++ [.bumped path (epochs.bump sidecar path).1]) (epochs.bump sidecar path).2 := by
  have scope := tracks.scope
  rcases Nat.eq_zero_or_pos (live path events) with idle | positive
  · rw [if_pos idle] at scope
    have now : epochs.bump sidecar path = epochs.bumpNow sidecar path := by
      rw [Epochs.bump,scope]
      rfl
    rw [now]
    obtain ⟨opens_,drops_⟩ := countP_snoc (.bumped path (epochs.bumpNow sidecar path).1) rfl rfl
    have balance : (events ++ [Event.bumped path (epochs.bumpNow sidecar path).1]).countP (opens path) =
        (events ++ [Event.bumped path (epochs.bumpNow sidecar path).1]).countP (drops path) +
          holders path (epochs.bumpNow sidecar path).2 := by
      rw [opens_,drops_]
      exact tracks.balance
    have same : live path (events ++ [.bumped path (epochs.bumpNow sidecar path).1]) = live path events :=
      (live_snoc balance).trans tracks.live.symm
    have clean : ¬ Dirty path (events ++ [.bumped path (epochs.bumpNow sidecar path).1]) := fun dirty => by
      have alive := live_positive_of_dirty dirty
      omega
    have before : ¬ Dirty path events := fun dirty => by
      have alive := live_positive_of_dirty dirty
      omega
    have one : published path (events ++ [.bumped path (epochs.bumpNow sidecar path).1]) =
      published path events + 1 := by
      rw [published_snoc,if_pos (publishes_last.mpr (Or.inl ⟨by simp [bumps],idle⟩))]
    have total : due path (events ++ [.bumped path (epochs.bumpNow sidecar path).1]) = published path events + 1 := by
      rw [due,one,if_neg clean]
    have generation : (epochs.bumpNow sidecar path).2.current sidecar path =
        start.current sidecar path + UInt64.ofNat (published path events + 1) := by
      rw [current_bumpNow,tracks.generation,UInt64.ofNat_add,UInt64.add_assoc]
      rfl
    refine ⟨balance,?_,by rw [one,generation],returned_snoc tracks ?_ ?_⟩
    · rw [same,if_pos idle]
      exact scope
    · rw [total,due,if_neg before]
      omega
    · rw [total]
      rintro value returned fits
      cases returned
      change (epochs.current sidecar path + 1).toNat ≤ _
      rw [UInt64.toNat_add,toNat_generation tracks (by omega)]
      have one : (1 : UInt64).toNat = 1 := rfl
      exact Nat.le_trans (Nat.mod_le _ _) (by omega)
  · rw [if_neg (by omega)] at scope
    have deferred : epochs.bump sidecar path = (saturatingSucc (epochs.current sidecar path),epochs.mark path) := by
      rw [Epochs.bump,scope]
      rfl
    rw [deferred]
    refine mark_step tracks rfl rfl (by simp [bumps]) positive ?_
    rintro value returned fits
    cases returned
    have now := toNat_generation tracks (by omega)
    change (saturatingSucc (epochs.current sidecar path)).toNat ≤ _
    unfold saturatingSucc
    split
    · omega
    · rw [UInt64.toNat_add,now]
      have one : (1 : UInt64).toNat = 1 := rfl
      exact Nat.le_trans (Nat.mod_le _ _) (by omega)

theorem drop_step {guard : Nat} (tracks : Tracks sidecar path start events epochs)
    (found : epochs.guards.lookup guard = some path) :
    Tracks sidecar path start (events ++ [.dropped path]) (epochs.drop sidecar guard path) := by
  have holding := holders_drop path found _ (drop_guards sidecar epochs guard path)
  rw [if_pos rfl] at holding
  have held := tracks.live
  have balance : (events ++ [Event.dropped path]).countP (opens path) =
      (events ++ [Event.dropped path]).countP (drops path) + holders path (epochs.drop sidecar guard path) := by
    have before := tracks.balance
    simp only [List.countP_append,List.countP_singleton,opens,drops,beq_self_eq_true,if_true,
      Bool.false_eq_true,if_false]
    omega
  have alive := live_snoc balance
  have scope := tracks.scope
  rw [if_neg (by omega)] at scope
  have dirty : Dirty path (events ++ [.dropped path]) ↔ 0 < live path (events ++ [.dropped path]) ∧
    Dirty path events := by
    rw [dirty_snoc]
    simp only [bumps,commits,Bool.or_self,Bool.false_eq_true,false_and,or_false]
  have publishes : Publishes path (events ++ [.dropped path]) events.length ↔
    live path (events ++ [.dropped path]) = 0 ∧ Dirty path events := by
    rw [publishes_last]
    simp [bumps,drops]
  have count := published_snoc path events (.dropped path)
  have total : due path (events ++ [.dropped path]) = due path events := by
    unfold due
    rw [count]
    simp only [publishes,dirty]
    rcases Nat.eq_zero_or_pos (live path (events ++ [.dropped path])) with zero | positive
    · simp [zero]
    · simp [positive,Nat.ne_of_gt positive]
  refine ⟨balance,?_,?_,returned_snoc tracks (by omega) (fun _ never => by cases never)⟩
  · unfold Epochs.drop
    rw [scope]
    dsimp only
    rcases Nat.eq_zero_or_pos (live path (events ++ [.dropped path])) with zero | positive
    · rw [if_pos zero,if_pos (show live path events - 1 = 0 by omega)]
      split <;> exact AList.lookup_erase _ _
    · rw [if_neg (show ¬ live path events - 1 = 0 by omega),if_neg (by omega)]
      have down : live path events - 1 = live path (events ++ [.dropped path]) := by omega
      simp only [AList.lookup_insert,down]
      simp [dirty,positive]
  · rw [count]
    simp only [publishes]
    unfold Epochs.drop
    rw [scope]
    dsimp only
    rcases Nat.eq_zero_or_pos (live path (events ++ [.dropped path])) with zero | positive
    · rw [if_pos (show live path events - 1 = 0 by omega)]
      by_cases changed : Dirty path events
      · simp only [changed,decide_true,if_true,zero,and_self]
        rw [current_bumpNow,UInt64.ofNat_add,← UInt64.add_assoc]
        exact congrArg (· + 1) tracks.generation
      · simp only [changed,decide_false,Bool.false_eq_true,if_false,and_false,Nat.add_zero]
        exact tracks.generation
    · rw [if_neg (show ¬ live path events - 1 = 0 by omega),if_neg (by omega),Nat.add_zero]
      exact tracks.generation

theorem exec_step {action : Action Path} {event : Event Path} (tracks : Tracks sidecar path start events epochs)
    (stepped : epochs.exec sidecar action = some (event,next))
    (apart : event.path = path ∨ Apart sidecar path event.path) :
    Tracks sidecar path start (events ++ [event]) next := by
  by_cases here : event.path = path
  · subst here
    cases action with
    | logicalWrite guard p =>
      simp only [Epochs.exec] at stepped
      split at stepped
      · cases stepped
      · rename_i free
        cases stepped
        exact open_step tracks (by simpa using free)
    | commit guard =>
      obtain ⟨p,found,same⟩ := Option.map_eq_some_iff.mp stepped
      cases same
      have positive : 0 < live p events := by
        have held : live p events = holders p epochs := tracks.live
        rw [held,holders,List.countP_pos_iff]
        exact ⟨p,(mem_values _ _).mpr ⟨guard,found⟩,by simp⟩
      exact mark_step tracks rfl rfl (by simp [bumps,commits,Event.path]) positive (fun _ never => by cases never)
    | bump p =>
      cases stepped
      exact bump_step tracks
    | drop guard =>
      obtain ⟨p,found,same⟩ := Option.map_eq_some_iff.mp stepped
      cases same
      exact drop_step tracks found
  · exact elsewhere_step tracks here (exec_elsewhere stepped here (apart.resolve_left here))

/-! Whole runs. -/

theorem tracks_run {slots : Map File UInt64} {locals : Map Path UInt64} {globalEpoch : UInt64}
    (run : Run (Epochs.exec sidecar) (fun _ _ => true) (.idle slots locals globalEpoch) events epochs)
    (apart : ∀ event ∈ events, event.path = path ∨ Apart sidecar path event.path) :
    Tracks sidecar path (.idle slots locals globalEpoch) events epochs := by
  induction run with
  | nil => exact tracks_idle slots locals globalEpoch
  | snoc before permitted stepped ih =>
    have earlier := ih fun event member => apart event (List.mem_append_left _ member)
    exact exec_step earlier stepped (apart _ (List.mem_append_right _ List.mem_cons_self))

/-- The generation of a path counts the bumps outside of every scope and the outermost
scopes that closed with a change, and what a bump returns is reached by the time its
outermost scope has closed, as long as the counter does not wrap. -/
theorem generation_counts_writes (slots : Map File UInt64) (locals : Map Path UInt64) (globalEpoch : UInt64)
    (run : Run (Epochs.exec sidecar) (fun _ _ => true) (.idle slots locals globalEpoch) events epochs)
    (apart : ∀ event ∈ events, event.path = path ∨ Apart sidecar path event.path) :
    epochs.current sidecar path = (Epochs.idle slots locals globalEpoch).current sidecar path +
    UInt64.ofNat (published path events) ∧
    (((Epochs.idle slots locals globalEpoch).current sidecar path).toNat + published path events < 2^64 →
      live path events = 0 →
      ∀ (j : Nat) (value : UInt64), events[j]? = some (Event.bumped path value) →
      value ≤ epochs.current sidecar path) := by
  have tracks := tracks_run run apart
  refine ⟨tracks.generation,?_⟩
  intro fits closed j value found
  have clean : ¬ Dirty path events := fun dirty => by
    have alive := live_positive_of_dirty dirty
    omega
  have total : due path events = published path events := by rw [due,if_neg clean,Nat.add_zero]
  have below := tracks.returned (by omega) j value found
  rw [UInt64.le_iff_toNat_le,toNat_generation tracks fits]
  omega

end

def workingDirectory (path : String) : Option String :=
  if path = "users.apex" ∨ path = "./users.apex" then some "users.apex.lock" else none

theorem nested_writes_publish_once :
    ∃ events epochs, Run (Epochs.exec workingDirectory) (fun _ _ => true) (.idle ∅ ∅ 0) events epochs ∧
      epochs.current workingDirectory "users.apex" = 1 ∧
      ∀ (j : Nat) (value : UInt64), events[j]? = some (Event.bumped "users.apex" value) →
        value ≤ epochs.current workingDirectory "users.apex" := by
  have played : ∃ events epochs, play (Epochs.exec workingDirectory) (fun _ _ => true) (.idle ∅ ∅ 0)
      [.logicalWrite 0 "users.apex",.bump "users.apex",.logicalWrite 1 "users.apex",.logicalWrite 2 "orders.apex",
        .bump "users.apex",
        .drop 0,.commit 1,.bump "orders.apex",.drop 1,.drop 2] = some (events,epochs) ∧
      (∀ event ∈ events, event.path = "users.apex" ∨ Apart workingDirectory "users.apex" event.path) ∧
      published "users.apex" events = 1 ∧ live "users.apex" events = 0 := by
    refine ⟨_,_,rfl,?_,by decide,by decide⟩
    simp [Event.path,Apart,workingDirectory]
  obtain ⟨events,epochs,played,apart,once,closed⟩ := played
  have run := Run.of_play played
  obtain ⟨generation,returned⟩ := generation_counts_writes ∅ ∅ 0 run apart
  rw [once] at generation returned
  exact ⟨events,epochs,run,generation,returned (by decide) closed⟩

/-- A path whose sidecar another path maps changes without an event of its own, and at the
last value of the counter a bump returns more than the generation has afterwards. -/
theorem shared_sidecar_and_last_generation :
    (∃ events epochs, Run (Epochs.exec workingDirectory) (fun _ _ => true) (.idle ∅ ∅ 0) events epochs ∧
      published "users.apex" events = 0 ∧ epochs.current workingDirectory "users.apex" = 1) ∧
    (∃ events epochs, Run (Epochs.exec workingDirectory) (fun _ _ => true)
        (.idle (AList.singleton "users.apex.lock" (UInt64.ofNat (2^64 - 1))) ∅ 0) events epochs ∧
      live "users.apex" events = 0 ∧ events[1]? = some (Event.bumped "users.apex" (UInt64.ofNat (2^64 - 1))) ∧
      epochs.current workingDirectory "users.apex" = 0) := by
  constructor
  · have played : ∃ events epochs, play (Epochs.exec workingDirectory) (fun _ _ =>
      true) (.idle ∅ ∅ 0) [.bump "./users.apex"] =
        some (events,epochs) ∧ published "users.apex" events = 0 ∧ epochs.current workingDirectory "users.apex" = 1 :=
      ⟨_,_,rfl,by decide,by decide⟩
    obtain ⟨events,epochs,played,facts⟩ := played
    exact ⟨events,epochs,Run.of_play played,facts⟩
  · have played : ∃ events epochs, play (Epochs.exec workingDirectory) (fun _ _ => true)
        (.idle (AList.singleton "users.apex.lock" (UInt64.ofNat (2^64 - 1))) ∅ 0)
        [.logicalWrite 0 "users.apex",.bump "users.apex",.drop 0] = some (events,epochs) ∧
        live "users.apex" events = 0 ∧
        events[1]? = some (Event.bumped "users.apex" (UInt64.ofNat (2^64 - 1))) ∧
        epochs.current workingDirectory "users.apex" = 0 :=
      ⟨_,_,rfl,by decide,by decide,by decide⟩
    obtain ⟨events,epochs,played,facts⟩ := played
    exact ⟨events,epochs,Run.of_play played,facts⟩

end ApexBase.Storage.Generation
