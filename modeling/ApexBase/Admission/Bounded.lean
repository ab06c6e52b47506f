import ApexBase.Admission.Controller

/-! What the counters say along every run: the reservations of the live guards, and the statements that wait. -/
namespace ApexBase.Admission
open Library

/-- What a pass can do to the counters. -/
inductive Passes (platform : Platform) (config : AdmissionConfig) (bytes : UInt64) (state : QueueState) :
    Outcome → QueueState → Prop
  | admitted {next : QueueState} (fits : saturatingAdd state.usedBytes bytes ≤ config.budgetBytes)
      (summed : platform.checks = true → state.usedBytes.toNat + bytes.toNat < 2^64)
      (used : next.usedBytes = state.usedBytes + bytes) (waiting : next.waiting = state.waiting) :
      Passes platform config bytes state .admitted next
  | rejected {next : QueueState} {error : AdmissionError} (used : next.usedBytes = state.usedBytes)
      (waiting : next.waiting = state.waiting) (full : error.code = .queueFull → config.queueMax ≤ state.waiting) :
      Passes platform config bytes state (.rejected error) next
  | waits {next : QueueState} (room : state.waiting < config.queueMax) (used : next.usedBytes = state.usedBytes)
      (waiting : next.waiting = state.waiting + 1) : Passes platform config bytes state .waits next
  | panics {next : QueueState} (used : next.usedBytes = state.usedBytes) (waiting : next.waiting = state.waiting) :
      Passes platform config bytes state .panics next
  | lost {next : QueueState} (fits : saturatingAdd state.usedBytes bytes ≤ config.budgetBytes)
      (summed : state.usedBytes.toNat + bytes.toNat < 2^64) (checked : platform.checks =
        true) (last : state.admitted = -1)
      (used : next.usedBytes = state.usedBytes + bytes) (waiting : next.waiting = state.waiting) :
      Passes platform config bytes state .panics next

section Pass
variable {platform : Platform} {config : AdmissionConfig} {bytes : UInt64} {state : QueueState}

private theorem reject_passes {error : AdmissionError} {counted : Option QueueState}
    (same : ∀ next, counted = some next → next.usedBytes = state.usedBytes ∧ next.waiting = state.waiting)
    (full : error.code = .queueFull → config.queueMax ≤ state.waiting) :
    Passes platform config bytes state (QueueState.reject error counted state).1
      (QueueState.reject error counted state).2 := by
  cases counted with
  | none => exact .panics rfl rfl
  | some next => exact .rejected (same next rfl).1 (same next rfl).2 full

private theorem rejectTimedOut_passes {error : AdmissionError} (late : error.code = .timeout) :
    Passes platform config bytes state (state.rejectTimedOut platform error).1
      (state.rejectTimedOut platform error).2 := by
  refine reject_passes (fun next counted => ?_) fun full => ?_
  · obtain ⟨timedOut,_,rfl⟩ := Option.map_eq_some_iff.mp counted
    exact ⟨rfl,rfl⟩
  · rw [late] at full
    cases full

theorem pass_passes (deadline : Option Nat) (now : Nat) :
    Passes platform config bytes state (state.pass platform config bytes deadline now).1
      (state.pass platform config bytes deadline now).2 := by
  unfold QueueState.pass
  split
  · rename_i fits
    split
    · exact .panics rfl rfl
    · rename_i summed
      simp only [not_and,not_not] at summed
      dsimp only
      split
      · exact .admitted fits summed rfl rfl
      · rename_i stopped
        unfold bumped at stopped
        split at stopped
        · rename_i last
          exact .lost fits (summed last.1) last.1 last.2 rfl rfl
        · cases stopped
  · split
    · rename_i full
      refine reject_passes (fun next counted => ?_) fun _ => full
      obtain ⟨rejected,_,rfl⟩ := Option.map_eq_some_iff.mp counted
      exact ⟨rfl,rfl⟩
    · rename_i room
      split
      · exact rejectTimedOut_passes rfl
      · split
        · exact rejectTimedOut_passes rfl
        · split
          · rename_i waiting counted
            unfold bumped at counted
            split at counted
            · cases counted
            · cases counted
              exact .waits (UInt64.not_le.mp room) rfl rfl
          · exact .panics rfl rfl

end Pass

/-- The reservations and the waiting statements are counted exactly. -/
structure Sound (config : AdmissionConfig) (system : System) : Prop where
  used : system.state.usedBytes.toNat = (system.guards.map (·.reserved.toNat)).sum
  within : system.state.usedBytes ≤ config.budgetBytes
  waiting : system.state.waiting.toNat = system.blocked.length
  few : system.state.waiting ≤ config.queueMax

/-- The sum of an admission fits into a word; a build with overflow checks sees to that, and there
the admission can still be counted. -/
def counts (platform : Platform) (config : AdmissionConfig) (bytes : UInt64) (state : QueueState) : Bool :=
  !decide (saturatingAdd state.usedBytes bytes ≤ config.budgetBytes) ||
    if platform.checks then state.admitted != -1 || !decide (state.usedBytes.toNat + bytes.toNat < 2^64)
    else decide (state.usedBytes.toNat + bytes.toNat < 2^64)

section Settle
variable {platform : Platform} {config : AdmissionConfig} {bytes : UInt64} {system : System}
    {left : Outcome × QueueState}

theorem settle_sound (sound : Sound config system) (passes : Passes platform config bytes system.state left.1 left.2)
    (counted : counts platform config bytes system.state = true) (id deadline : Nat) :
    Sound config (System.settle id bytes deadline left system).2 := by
  obtain ⟨outcome,next⟩ := left
  cases passes with
  | admitted fits summed used waiting =>
    have small : system.state.usedBytes.toNat + bytes.toNat < 2^64 := by
      cases checks : platform.checks with
      | true => exact summed checks
      | false => simpa [counts,fits,checks] using counted
    have sum : next.usedBytes.toNat = system.state.usedBytes.toNat + bytes.toNat := by
      rw [used,UInt64.toNat_add,Nat.mod_eq_of_lt small]
    refine ⟨?_,?_,?_,?_⟩
    · change next.usedBytes.toNat = bytes.toNat + (system.guards.map (·.reserved.toNat)).sum
      rw [sum,sound.used,Nat.add_comm]
    · rw [saturatingAdd,if_pos small,← used] at fits
      exact fits
    · exact (congrArg UInt64.toNat waiting).trans sound.waiting
    · exact waiting ▸ sound.few
  | rejected used waiting _ => exact ⟨used ▸ sound.used,used ▸ sound.within,waiting ▸ sound.waiting,waiting ▸ sound.few⟩
  | waits room used waiting =>
    have one : (1 : UInt64).toNat = 1 := rfl
    have below := UInt64.lt_iff_toNat_lt.mp room
    have most := config.queueMax.toNat_lt
    have next_ : next.waiting.toNat = system.state.waiting.toNat + 1 := by
      rw [waiting,UInt64.toNat_add,one,Nat.mod_eq_of_lt (by omega)]
    refine ⟨used ▸ sound.used,used ▸ sound.within,?_,?_⟩
    · exact next_.trans (congrArg (· + 1) sound.waiting)
    · refine UInt64.le_iff_toNat_le.mpr ?_
      change next.waiting.toNat ≤ config.queueMax.toNat
      omega
  | panics used waiting => exact ⟨used ▸ sound.used,used ▸ sound.within,waiting ▸ sound.waiting,waiting ▸ sound.few⟩
  | lost fits summed checked last used waiting =>
    simp [counts,fits,checked,last] at counted
    omega

end Settle

private theorem taken {α : Type} {p : α → Bool} {list : List α} {entry : α} (found : list.find? p = some entry) :
    ∃ front back, list = front ++ entry :: back ∧ list.eraseP p = front ++ back := by
  obtain ⟨here,front,back,rfl,before⟩ := List.find?_eq_some_iff_append.mp found
  refine ⟨front,back,rfl,?_⟩
  rw [List.eraseP_append_right _ (fun other member => by simpa using before other member),List.eraseP_cons_of_pos here]

section Steps
variable {platform : Platform} {config : AdmissionConfig} {system : System}

theorem awake_sound (sound : Sound config system) {statement : Blocked} {id : Nat}
    (found : system.blocked.find? (·.id = id) = some statement) :
    system.state.waiting ≠ 0 ∧ system.state.waiting - 1 < config.queueMax ∧
      Sound config {system with
        state := {system.state with waiting := system.state.waiting - 1}
        blocked := system.blocked.eraseP (·.id = id)} := by
  obtain ⟨front,back,whole,rest⟩ := taken found
  have length := sound.waiting
  rw [whole,List.length_append,List.length_cons] at length
  have few := UInt64.le_iff_toNat_le.mp sound.few
  have positive : system.state.waiting ≠ 0 := by
    intro zero
    rw [zero] at length
    exact absurd length (by simp)
  have less : (system.state.waiting - 1).toNat = system.state.waiting.toNat - 1 :=
    UInt64.toNat_sub_of_le _ _ (UInt64.le_iff_toNat_le.mpr (show 1 ≤ system.state.waiting.toNat by omega))
  refine ⟨positive,UInt64.lt_iff_toNat_lt.mpr (by omega),sound.used,sound.within,?_,UInt64.le_iff_toNat_le.mpr ?_⟩
  · change (system.state.waiting - 1).toNat = (system.blocked.eraseP (·.id = id)).length
    rw [less,rest,List.length_append]
    omega
  · change (system.state.waiting - 1).toNat ≤ config.queueMax.toNat
    omega

theorem release_sound (sound : Sound config system) {guard : Guard} {id : Nat}
    (found : system.guards.find? (·.id = id) = some guard) :
    Sound config {system with
      state := system.state.release guard.reserved
      guards := system.guards.eraseP (·.id = id)} := by
  obtain ⟨front,back,whole,rest⟩ := taken found
  have used := sound.used
  rw [whole,List.map_append,List.map_cons,List.sum_append,List.sum_cons] at used
  have inside : guard.reserved ≤ system.state.usedBytes := UInt64.le_iff_toNat_le.mpr (by omega)
  have less : (system.state.usedBytes - guard.reserved).toNat = system.state.usedBytes.toNat - guard.reserved.toNat :=
    UInt64.toNat_sub_of_le _ _ inside
  have within := UInt64.le_iff_toNat_le.mp sound.within
  have released : (system.state.release guard.reserved).usedBytes = system.state.usedBytes - guard.reserved := by
    unfold QueueState.release
    by_cases zero : guard.reserved = 0
    · rw [if_pos zero,zero,UInt64.sub_zero]
    · rw [if_neg zero]
      exact if_pos inside
  have waiting : (system.state.release guard.reserved).waiting = system.state.waiting := by
    unfold QueueState.release
    split
    · rfl
    · rfl
  refine ⟨?_,UInt64.le_iff_toNat_le.mpr ?_,?_,?_⟩
  · change (system.state.release guard.reserved).usedBytes.toNat =
      ((system.guards.eraseP (·.id = id)).map (·.reserved.toNat)).sum
    rw [released,less,rest,List.map_append,List.sum_append]
    omega
  · change (system.state.release guard.reserved).usedBytes.toNat ≤ config.budgetBytes.toNat
    rw [released,less]
    omega
  · exact (congrArg UInt64.toNat waiting).trans sound.waiting
  · exact waiting ▸ sound.few

end Steps

/-- Every admission of the call can be counted. -/
def fitting (platform : Platform) (config : AdmissionConfig) (system : System) : Call → Bool
  | .acquire bytes _ _ => decide (config.budgetBytes = 0 ∨ bytes = 0) || counts platform config bytes system.state
  | .wake id _ _ _ => (system.blocked.find? (·.id = id)).all fun statement =>
    counts platform config statement.bytes system.state
  | .release _ => true

/-- What the events say of the statements: one that was turned away by a full queue never waited. -/
structure Traced (trace : List Event) (system : System) : Prop where
  known : ∀ id, .waits id ∈ trace → id < system.statements
  blocked : ∀ statement ∈ system.blocked, statement.id < system.statements
  full : ∀ id error, .rejected id error ∈ trace → error.code = .queueFull →
    id < system.statements ∧ .waits id ∉ trace ∧ ∀ statement ∈ system.blocked, statement.id ≠ id

section Runs
variable {platform : Platform} {config : AdmissionConfig} {system next : System} {trace : List Event} {event : Event}

theorem sound_new (config : AdmissionConfig) : Sound config System.new :=
  ⟨rfl,UInt64.le_iff_toNat_le.mpr (Nat.zero_le _),rfl,UInt64.le_iff_toNat_le.mpr (Nat.zero_le _)⟩

theorem wake_passes (sound : Sound config system) {statement : Blocked} {id : Nat}
    (found : system.blocked.find? (·.id = id) = some statement) (timedOut : Bool) (woken now : Nat) :
    let left := system.state.wake platform config statement.bytes statement.deadline timedOut woken now
    Passes platform config statement.bytes {system.state with waiting := system.state.waiting - 1} left.1 left.2 ∧
      ∀ error, left.1 = .rejected error → error.code ≠ .queueFull := by
  obtain ⟨positive,room,_⟩ := awake_sound sound found
  have passes : Passes platform config statement.bytes {system.state with waiting := system.state.waiting - 1}
      (system.state.wake platform config statement.bytes statement.deadline timedOut woken now).1
      (system.state.wake platform config statement.bytes statement.deadline timedOut woken now).2 := by
    unfold QueueState.wake
    rw [if_neg fun both => positive both.2]
    dsimp only
    split
    · exact rejectTimedOut_passes rfl
    · exact pass_passes _ _
  refine ⟨passes,fun error rejected full => ?_⟩
  rw [rejected] at passes
  cases passes with
  | rejected used waiting turned => exact UInt64.not_le.mpr room (turned full)

private theorem settle_state (id : Nat) (bytes : UInt64) (deadline : Nat) (left : Outcome × QueueState)
    (state : QueueState) (system : System) :
    System.settle id bytes deadline left {system with state := state} =
    System.settle id bytes deadline left system := by
  obtain ⟨outcome,after⟩ := left
  cases outcome with
  | admitted => rfl
  | rejected error => rfl
  | waits => rfl
  | panics => rfl

theorem step_sound (sound : Sound config system) {call : Call} (fits : fitting platform config system call = true)
    (stepped : system.exec platform config call = some (event,next)) : Sound config next := by
  cases call with
  | acquire bytes started now =>
    rw [System.exec] at stepped
    split at stepped
    · cases stepped
      refine ⟨?_,sound.within,sound.waiting,sound.few⟩
      exact sound.used.trans (Nat.zero_add _).symm
    · rename_i asks
      rw [fitting,decide_eq_false asks,Bool.false_or] at fits
      have begun : Sound config {system with statements := system.statements + 1} :=
        ⟨sound.used,sound.within,sound.waiting,sound.few⟩
      have after : _ = next := congrArg Prod.snd (Option.some.inj stepped)
      rw [← after]
      exact settle_sound begun (pass_passes _ _) fits _ _
  | wake id timedOut woken now =>
    obtain ⟨statement,found,same⟩ := Option.map_eq_some_iff.mp stepped
    have counted : counts platform config statement.bytes system.state = true := by
      rw [fitting,found] at fits
      exact fits
    obtain ⟨_,_,awake⟩ := awake_sound sound found
    have settled := settle_sound awake (wake_passes sound found timedOut woken now).1 counted id statement.deadline
    have after : _ = next := congrArg Prod.snd same
    rw [← after]
    rwa [settle_state id statement.bytes statement.deadline _ _ {system with
      blocked := system.blocked.eraseP (·.id = id)}] at settled
  | release id =>
    obtain ⟨guard,found,same⟩ := Option.map_eq_some_iff.mp stepped
    cases same
    exact release_sound sound found

private theorem traced_append (traced : Traced trace system) (more : system.statements ≤ next.statements)
    (fewer : ∀ statement ∈ next.blocked, statement ∈ system.blocked) (quiet : ∀ id, event ≠ .waits id)
    (turned : ∀ id error, event = .rejected id error → error.code = .queueFull →
      id < next.statements ∧ .waits id ∉ trace ∧ ∀ statement ∈ next.blocked, statement.id ≠ id) :
        Traced (trace ++ [event]) next := by
  have only {id : Nat} (waits : .waits id ∈ trace ++ [event]) : .waits id ∈ trace := by
    rcases List.mem_append.mp waits with before | here
    · exact before
    · exact absurd (List.mem_singleton.mp here).symm (quiet id)
  refine ⟨fun id waits => Nat.lt_of_lt_of_le (traced.known id (only waits)) more,fun statement member => ?_,
    fun id error rejected full => ?_⟩
  · exact Nat.lt_of_lt_of_le (traced.blocked statement (fewer statement member)) more
  · rcases List.mem_append.mp rejected with before | here
    · obtain ⟨inside,never,apart⟩ := traced.full id error before full
      exact ⟨Nat.lt_of_lt_of_le inside more,fun waits => never (only waits),fun statement member =>
        apart statement (fewer statement member)⟩
    · obtain ⟨inside,never,apart⟩ := turned id error (List.mem_singleton.mp here).symm full
      exact ⟨inside,fun waits => never (only waits),apart⟩

theorem settle_traced {bytes : UInt64} {deadline id : Nat} {left : Outcome × QueueState} (traced : Traced trace system)
    (inside : id < system.statements) (never : ∀ error, .rejected id error ∈ trace → error.code ≠ .queueFull)
    (turned : ∀ error, left.1 = .rejected error → error.code = .queueFull → .waits id ∉ trace ∧
      ∀ statement ∈ system.blocked, statement.id ≠ id) :
    Traced (trace ++ [(System.settle id bytes deadline left system).1])
      (System.settle id bytes deadline left system).2 := by
  obtain ⟨outcome,state⟩ := left
  cases outcome with
  | admitted => exact traced_append traced (Nat.le_refl _) (fun _ member => member) nofun nofun
  | rejected error =>
    refine traced_append traced (Nat.le_refl _) (fun _ member => member) nofun fun other error' same full => ?_
    cases same
    exact ⟨inside,turned error rfl full⟩
  | panics => exact traced_append traced (Nat.le_refl _) (fun _ member => member) nofun nofun
  | waits =>
    refine ⟨fun other waits => ?_,fun statement member => ?_,fun other error rejected full => ?_⟩
    · rcases List.mem_append.mp waits with before | here
      · exact traced.known other before
      · cases List.mem_singleton.mp here
        exact inside
    · rcases List.mem_cons.mp member with rfl | before
      · exact inside
      · exact traced.blocked statement before
    · rcases List.mem_append.mp rejected with before | here
      · obtain ⟨known,quiet,apart⟩ := traced.full other error before full
        have different : other ≠ id := by
          rintro rfl
          exact never error before full
        refine ⟨known,fun waits => ?_,fun statement member => ?_⟩
        · rcases List.mem_append.mp waits with earlier | here
          · exact quiet earlier
          · cases List.mem_singleton.mp here
            exact different rfl
        · rcases List.mem_cons.mp member with rfl | earlier
          · exact different.symm
          · exact apart statement earlier
      · cases List.mem_singleton.mp here

theorem step_traced (sound : Sound config system) (traced : Traced trace system) {call : Call}
    (stepped : system.exec platform config call = some (event,next)) : Traced (trace ++ [event]) next := by
  cases call with
  | acquire bytes started now =>
    have begun : Traced trace {system with statements := system.statements + 1} := by
      refine ⟨fun id waits => Nat.lt_succ_of_lt (traced.known id waits),fun statement member =>
        Nat.lt_succ_of_lt (traced.blocked statement member),?_⟩
      intro id error rejected full
      obtain ⟨inside,never,apart⟩ := traced.full id error rejected full
      exact ⟨Nat.lt_succ_of_lt inside,never,apart⟩
    rw [System.exec] at stepped
    split at stepped
    · cases stepped
      exact traced_append begun (Nat.le_refl _) (fun _ member => member) nofun nofun
    · have same := Option.some.inj stepped
      have there : _ = event := congrArg Prod.fst same
      have after : _ = next := congrArg Prod.snd same
      rw [← there,← after]
      refine settle_traced begun (Nat.lt_succ_self _) (fun error rejected full => ?_) fun error _ _ =>
        ⟨fun waits => ?_,fun statement member => ?_⟩
      · exact absurd (traced.full _ _ rejected full).1 (Nat.lt_irrefl _)
      · exact absurd (traced.known _ waits) (Nat.lt_irrefl _)
      · exact Nat.ne_of_lt (traced.blocked statement member)
  | wake id timedOut woken now =>
    obtain ⟨statement,found,same⟩ := Option.map_eq_some_iff.mp stepped
    have there : _ = event := congrArg Prod.fst same
    have after : _ = next := congrArg Prod.snd same
    have here : statement.id = id := by simpa using List.find?_some found
    have member := List.mem_of_find?_eq_some found
    have left : Traced trace {system with blocked := system.blocked.eraseP (·.id = id)} := by
      refine ⟨traced.known,fun other inside => traced.blocked other (List.mem_of_mem_eraseP inside),
        fun other error rejected full => ?_⟩
      obtain ⟨inside,never,apart⟩ := traced.full other error rejected full
      exact ⟨inside,never,fun waiting still => apart waiting (List.mem_of_mem_eraseP still)⟩
    rw [← there,← after]
    refine settle_traced left (here ▸ traced.blocked statement member) (fun error rejected full =>
      ?_) fun error rejected full => ?_
    · exact (traced.full id error rejected full).2.2 statement member here
    · exact absurd full ((wake_passes sound found timedOut woken now).2 error rejected)
  | release id =>
    obtain ⟨guard,found,same⟩ := Option.map_eq_some_iff.mp stepped
    cases same
    exact traced_append traced (Nat.le_refl _) (fun _ member => member) nofun nofun

/-- In every run whose admissions can be counted, the controller holds what its guards hold and no
more than the budget, the waiting statements are those in the queue and no more than the queue
takes, and no statement that waited is turned away by a full queue. -/
theorem admission_never_overcommits
    (run : Run (System.exec platform config) (fitting platform config) .new trace system) :
    Sound config system ∧ ∀ id error, .waits id ∈ trace → .rejected id error ∈ trace → error.code ≠ .queueFull := by
  have kept : Sound config system ∧ Traced trace system := by
    refine Run.invariant (P := fun trace system => Sound config system ∧ Traced trace system) ⟨sound_new config,
      ⟨nofun,nofun,nofun⟩⟩ ?_ run
    intro trace state call event next _ holds fits stepped
    exact ⟨step_sound holds.1 fits stepped,step_traced holds.1 holds.2 stepped⟩
  exact ⟨kept.1,fun id error waits rejected full => (kept.2.full id error rejected full).2.1 waits⟩

end Runs

/-- A statement waits for another and takes its place. -/
theorem waiting_statement_admitted : ∃ trace system, Run (System.exec ⟨true,2^64⟩ ⟨16,16,1,50⟩)
    (fitting ⟨true,2^64⟩ ⟨16,16,1,50⟩) .new trace system ∧
    .waits 1 ∈ trace ∧ Sound ⟨16,16,1,50⟩ system ∧ system.guards.length = 1 := by
  have played : (play (System.exec ⟨true,2^64⟩ ⟨16,16,1,50⟩) (fitting ⟨true,2^64⟩ ⟨16,16,1,50⟩) .new
      [.acquire 16 0 0,.acquire 16 1 2,.acquire 16 3 4,.wake 1 false 10 11,.release 0,.wake 1 false 12 13]).any
        (fun result => decide (.waits 1 ∈ result.1 ∧ result.2.guards.length = 1)) = true := by decide +kernel
  obtain ⟨⟨trace,system⟩,same,found⟩ := (Option.any_eq_true _ _).mp played
  obtain ⟨waits,one⟩ := of_decide_eq_true found
  have run := Run.of_play same
  exact ⟨trace,system,run,waits,(admission_never_overcommits run).1,one⟩

def unlimited : Environment := ⟨some "17592186044416".toList,some "0".toList,none,none,some "0".toList⟩

/-- The second statement is admitted beside the first, and the sum of their reservations wraps. -/
theorem unlimited_budget_overcommits :
    AdmissionConfig.fromEnv unlimited = ⟨-1,-1,64,5000⟩ ∧
    (AdmissionConfig.fromEnv unlimited).reservationFor unlimited "SELECT 1".toList = -1 ∧
    ¬ ∀ platform config trace system,
      Run (System.exec platform config) (fun _ call =>
        match call with | .acquire bytes _ _ => decide (bytes ≤ config.budgetBytes) | _ => true) .new
        trace system → system.state.usedBytes.toNat = (system.guards.map (·.reserved.toNat)).sum := by
  refine ⟨by decide +kernel,by decide +kernel,fun claimed => ?_⟩
  have played : (play (System.exec ⟨false,2^64⟩ ⟨-1,-1,64,5000⟩)
      (fun _ call => match call with | .acquire bytes _ _ => decide (bytes ≤ (-1 : UInt64)) | _ => true) .new
      [.acquire (-1) 0 0,.acquire (-1) 0 0]).any
        (fun result => decide (result.2.state.usedBytes.toNat ≠ (result.2.guards.map (·.reserved.toNat)).sum)) =
        true := by decide +kernel
  obtain ⟨⟨trace,system⟩,same,found⟩ := (Option.any_eq_true _ _).mp played
  exact of_decide_eq_true found (claimed ⟨false,2^64⟩ ⟨-1,-1,64,5000⟩ trace system (Run.of_play same))

end ApexBase.Admission
