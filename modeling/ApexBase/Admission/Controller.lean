import ApexBase.Admission.Config
import ApexBase.Library.Run

/-! The admission controller (`admission.rs`). A call runs from the lock to its answer, or to the wait that gives
the lock away; a wait ends whenever the lock comes back, by a notification, at the deadline or for no reason. -/
namespace ApexBase.Admission
open Library

/-- The build and the clock: times are natural numbers, up to the last instant that the clock has. -/
structure Platform where
  checks : Bool
  lastInstant : Nat

structure QueueState where
  usedBytes : UInt64 := 0
  waiting : UInt64 := 0
  admitted : UInt64 := 0
  rejected : UInt64 := 0
  timedOut : UInt64 := 0
  deriving DecidableEq

inductive RejectionCode
  | queueFull
  | timeout
  deriving DecidableEq

def RejectionCode.text : RejectionCode → String
  | .queueFull => "QUEUE_FULL"
  | .timeout => "TIMEOUT"

structure AdmissionError where
  code : RejectionCode
  detail : String
  deriving DecidableEq

/-- The message of the `WouldBlock` error. -/
def AdmissionError.message (error : AdmissionError) :
    String := "[APEX_ADMISSION_" ++ error.code.text ++ "] " ++ error.detail

namespace QueueState

def queueFullError (config : AdmissionConfig) (state : QueueState) : AdmissionError :=
  ⟨.queueFull,"process memory admission queue is full (" ++ toString state.waiting ++ " statements waiting, budget " ++
    toString (config.budgetBytes / (1024 * 1024)) ++
    " MiB); increase APEX_PROCESS_BUDGET_MB / APEX_QUERY_QUEUE_MAX or retry"⟩

def timeoutError (config : AdmissionConfig) (state : QueueState) : AdmissionError :=
  ⟨.timeout,"process memory admission timed out after " ++ toString config.wait ++ " ms (" ++
    toString (state.usedBytes / (1024 * 1024)) ++
    " MiB in use of " ++ toString (config.budgetBytes / (1024 * 1024)) ++
    " MiB); increase APEX_PROCESS_BUDGET_MB or APEX_QUERY_QUEUE_WAIT_MS"⟩

def noDeadlineError : AdmissionError := ⟨.timeout,"process memory admission timed out (wait budget 0 ms)"⟩

end QueueState

/-- How a call leaves the lock. -/
inductive Outcome
  | admitted
  | rejected (error : AdmissionError)
  | waits
  | panics
  deriving DecidableEq

def bumped (checks : Bool) (counter : UInt64) : Option UInt64 := if checks ∧ counter = -1 then none
    else some (counter + 1)

namespace QueueState

def reject (error : AdmissionError) (counted : Option QueueState) (state : QueueState) : Outcome × QueueState :=
  match counted with
  | some next => (.rejected error,next)
  | none => (.panics,state)

def rejectTimedOut (platform : Platform) (error : AdmissionError) (state : QueueState) : Outcome × QueueState :=
  reject error ((bumped platform.checks state.timedOut).map fun timedOut => {state with timedOut := timedOut}) state

def pass (platform : Platform) (config : AdmissionConfig) (bytes : UInt64) (deadline : Option Nat) (now : Nat)
    (state : QueueState) :
    Outcome × QueueState :=
  if saturatingAdd state.usedBytes bytes ≤ config.budgetBytes then
    if platform.checks ∧ ¬ state.usedBytes.toNat + bytes.toNat < 2^64 then (.panics,state)
    else
      let state := {state with usedBytes := state.usedBytes + bytes}
      match bumped platform.checks state.admitted with
      | some admitted => (.admitted,{state with admitted := admitted})
      | none => (.panics,state)
  else if state.waiting ≥ config.queueMax then
    reject (queueFullError config state) ((bumped platform.checks state.rejected).map fun rejected =>
      {state with rejected := rejected}) state
  else
    match deadline with
    | none => rejectTimedOut platform noDeadlineError state
    | some deadline =>
      if now ≥ deadline then rejectTimedOut platform (timeoutError config state) state
      else
        match bumped platform.checks state.waiting with
        | some waiting => (.waits,{state with waiting := waiting})
        | none => (.panics,state)

/-- A wait has the lock again: `timedOut` is what `wait_timeout` says, `woken` and `now` what the
clock says then and in the pass behind it. -/
def wake (platform : Platform) (config : AdmissionConfig) (bytes : UInt64) (deadline : Nat) (timedOut : Bool)
    (woken now : Nat) (state : QueueState) :
    Outcome × QueueState :=
  if platform.checks ∧ state.waiting = 0 then (.panics,state)
  else
    let state := {state with waiting := state.waiting - 1}
    if timedOut ∧ woken ≥ deadline then rejectTimedOut platform (timeoutError config state) state
    else pass platform config bytes (some deadline) now state

def release (bytes : UInt64) (state : QueueState) : QueueState :=
  if bytes = 0 then state else {state with usedBytes := if bytes ≤ state.usedBytes then state.usedBytes - bytes else 0}

end QueueState

/-- A live `QueryAdmission`. -/
structure Guard where
  id : Nat
  reserved : UInt64

structure Blocked where
  id : Nat
  bytes : UInt64
  deadline : Nat

structure System where
  state : QueueState
  guards : List Guard
  blocked : List Blocked
  /-- How many statements there have been. -/
  statements : Nat

inductive Call
  | acquire (bytes : UInt64) (started now : Nat)
  | wake (id : Nat) (timedOut : Bool) (woken now : Nat)
  | release (id : Nat)

inductive Event
  | admitted (id : Nat)
  | rejected (id : Nat) (error : AdmissionError)
  | waits (id : Nat)
  | panicked (id : Nat)
  | released (id : Nat)
  deriving DecidableEq

namespace System

def new : System := ⟨{},[],[],0⟩

def deadlineOf (platform : Platform) (config : AdmissionConfig) (started : Nat) : Option Nat :=
  if started + config.wait.toNat ≤ platform.lastInstant then some (started + config.wait.toNat) else none

/-- What becomes of a statement that leaves the lock. -/
def settle (id : Nat) (bytes : UInt64) (deadline : Nat) (left : Outcome × QueueState) (system : System) :
    Event × System :=
  match left.1 with
  | .admitted => (.admitted id,{system with state := left.2,guards := ⟨id,bytes⟩ :: system.guards})
  | .rejected error => (.rejected id error,{system with state := left.2})
  | .waits => (.waits id,{system with state := left.2,blocked := ⟨id,bytes,deadline⟩ :: system.blocked})
  | .panics => (.panicked id,{system with state := left.2})

def exec (platform : Platform) (config : AdmissionConfig) (system : System) : Call → Option (Event × System)
  | .acquire bytes started now =>
    let id := system.statements
    let system := {system with statements := id + 1}
    if config.budgetBytes = 0 ∨ bytes = 0 then some (.admitted id,{system with guards := ⟨id,0⟩ :: system.guards})
    else
      let deadline := deadlineOf platform config started
      some (settle id bytes (deadline.getD 0) (system.state.pass platform config bytes deadline now) system)
  | .wake id timedOut woken now =>
    (system.blocked.find? (·.id = id)).map fun statement =>
      settle id statement.bytes statement.deadline
        (system.state.wake platform config statement.bytes statement.deadline timedOut woken now)
        {system with blocked := system.blocked.eraseP (·.id = id)}
  | .release id =>
    (system.guards.find? (·.id = id)).map fun guard =>
      (.released id,{system with
        state := system.state.release guard.reserved,guards := system.guards.eraseP (·.id = id)})

end System

end ApexBase.Admission
