import Rtems.CoreMutex.Model
import Rtems.ThreadQueue.Waiters

/-!
# POSIX condition variables

The model of `condwaitsupp.c`, `condsignalsupp.c` and `condtimedwait.c` for one
condition variable, over the core mutexes of `Rtems.CoreMutex` and the waiting
threads of `Rtems.ThreadQueue`.  A thread that has thread dispatching disabled
is the only one that takes steps, but interrupts come at any time: a timeout, a
signal to a thread, a change of a priority.
-/

namespace Rtems.Condition

open ThreadQueue (Waiters)

/-- The values of `Wait.return_code` in a wait: `0`, `ETIMEDOUT` and `EINTR`. -/
inductive Code where
  | successful
  | timedOut
  | interrupted
deriving DecidableEq, Repr

/-- What `pthread_cond_wait` returns. -/
inductive Status where
  | ok
  | EINVAL
  | EPERM
  | ETIMEDOUT
deriving DecidableEq, Repr

/-- `POSIX_Absolute_timeout_conversion_results_t`. -/
inductive AbsoluteTimeout where
  | isValid
  | invalid
  | isInPast
  | isNow
deriving DecidableEq, Repr

/-- Where a thread stands. -/
inductive Pc (Tid Mid : Type) where
  /-- In no call, or waiting for a mutex in a call of its own. -/
  | running
  /-- Before `pthread_mutex_unlock`, with dispatching disabled. -/
  | unlocking (m : Mid) (timeout : Option Code) (alreadyTimedout : Bool)
  /-- Before `_Thread_queue_Enqueue`, with dispatching disabled. -/
  | unlocked (m : Mid) (timeout : Option Code)
  /-- On the wait queue, or released from it. -/
  | waiting (m : Mid)
  /-- Before `pthread_mutex_lock`. -/
  | locking (m : Mid) (status : Status)
  /-- In `pthread_mutex_lock`. -/
  | relocking (m : Mid) (status : Status)
  | returning (m : Mid) (status : Status)
  /-- In the loop of `_POSIX_Condition_variables_Signal_support`, with dispatching disabled. -/
  | signaling (isBroadcast : Bool) (woken : List Tid)
deriving DecidableEq, Repr

/-- The condition variable, the mutexes and the threads. -/
structure State (Tid Mid : Type) where
  mutexes : CoreMutex.State Tid Mid
  /-- `Wait_queue`. -/
  waitQueue : Waiters Tid Code
  /-- `Mutex`. -/
  mutex : Option Mid
  pc : Tid → Pc Tid Mid
  /-- The thread that has thread dispatching disabled. -/
  disabled : Option Tid

variable {Tid Mid : Type} [DecidableEq Tid] [DecidableEq Mid]

def State.setPc (s : State Tid Mid) (t : Tid) (pc : Pc Tid Mid) : State Tid Mid :=
  { s with pc := Function.update s.pc t pc }

/-! ## Wait -/

/-- `pthread_cond_timedwait` up to `_POSIX_Condition_variables_Wait_support`, and
`pthread_cond_wait` without a time.  The result is the timeout and `already_timedout`. -/
def timedwait : Option AbsoluteTimeout → Except Status (Option Code × Bool)
  | none => .ok (none, false)
  | some .invalid => .error .EINVAL
  | some .isInPast | some .isNow => .ok (some .timedOut, true)
  | some .isValid => .ok (some .timedOut, false)

/-- `_POSIX_Condition_variables_Wait_support` up to `pthread_mutex_unlock`. -/
def waitBegin (s : State Tid Mid) (t : Tid) (m : Mid) (abstime : Option AbsoluteTimeout) :
    State Tid Mid :=
  match timedwait abstime with
  | .error status => s.setPc t (.returning m status)
  | .ok (timeout, alreadyTimedout) =>
    if s.mutex ≠ none ∧ s.mutex ≠ some m then s.setPc t (.returning m .EINVAL)
    else { s.setPc t (.unlocking m timeout alreadyTimedout) with disabled := some t }

/-- `pthread_mutex_unlock` in a wait. -/
def waitUnlock (s : State Tid Mid) (t : Tid) (m : Mid) (timeout : Option Code)
    (alreadyTimedout : Bool) : State Tid Mid :=
  match CoreMutex.surrender s.mutexes t m with
  | (mutexes, .successful) =>
    let s := { s with mutexes := mutexes }
    if alreadyTimedout then { s.setPc t (.locking m .ETIMEDOUT) with disabled := none }
    else s.setPc t (.unlocked m timeout)
  | (mutexes, _) =>
    { s.setPc t (.returning m .EPERM) with
      mutexes := mutexes
      disabled := none }

/-- `_Thread_queue_Enqueue` in a wait. -/
def waitEnqueue (s : State Tid Mid) (t : Tid) (m : Mid) (timeout : Option Code) : State Tid Mid :=
  { s.setPc t (.waiting m) with
    mutex := some m
    waitQueue := (s.waitQueue.setReturnCode t .successful).enqueueCritical .fifo s.mutexes.prio t
      timeout
    disabled := none }

/-- The status of a wait that has blocked. -/
def statusOf : Code → Status
  | .successful => .ok
  | .timedOut => .ETIMEDOUT
  | .interrupted => .ok

/-- A released thread is back from `_Thread_queue_Enqueue`. -/
def waitResume (s : State Tid Mid) (t : Tid) (m : Mid) : State Tid Mid :=
  { s.setPc t (.locking m (statusOf (s.waitQueue.returnCode t))) with
    waitQueue := s.waitQueue.resume t }

/-- `pthread_mutex_lock` in a wait, up to where it may block. -/
def waitLock (s : State Tid Mid) (t : Tid) (m : Mid) (status : Status) : State Tid Mid :=
  { s.setPc t (.relocking m status) with mutexes := CoreMutex.seize s.mutexes t m true 0 }

/-- `pthread_mutex_lock` in a wait is back. -/
def waitLocked (s : State Tid Mid) (t : Tid) (m : Mid) (status : Status) : State Tid Mid :=
  if (s.mutexes.threads t).returnCode = .successful then s.setPc t (.returning m status)
  else s.setPc t (.returning m .EINVAL)

/-! ## Signal -/

/-- One turn of the loop of `_POSIX_Condition_variables_Signal_support`. -/
def signalTurn (s : State Tid Mid) (t : Tid) (isBroadcast : Bool) (woken : List Tid) :
    State Tid Mid :=
  match s.waitQueue.dequeue .fifo with
  | (none, _) =>
    { s.setPc t .running with
      mutex := none
      disabled := none }
  | (some u, waitQueue) =>
    if isBroadcast then
      { s.setPc t (.signaling true (woken ++ [u])) with waitQueue := waitQueue }
    else
      { s.setPc t .running with
        waitQueue := waitQueue
        disabled := none }

/-- `_POSIX_signals_Unblock_thread` for a thread in a wait.  A timeout may come between its look at
the state of the thread and the rest. -/
def unblockThread (s : State Tid Mid) (t : Tid) : State Tid Mid :=
  { s with waitQueue := (s.waitQueue.setReturnCode t .interrupted).extract .fifo t }

/-! ## Runs -/

inductive Op (Tid Mid : Type) where
  /-- An operation on a mutex outside of a wait. -/
  | mutex (op : CoreMutex.Op Tid Mid)
  | wait (t : Tid) (m : Mid) (abstime : Option AbsoluteTimeout)
  | signal (t : Tid) (isBroadcast : Bool)
  /-- The next step of a thread in a call. -/
  | advance (t : Tid)
  | timeout (t : Tid)
  | unblockThread (t : Tid)

/-- The thread is not kept from running. -/
def State.canRun (s : State Tid Mid) (t : Tid) : Prop :=
  (s.disabled = none ∨ s.disabled = some t) ∧ (s.mutexes.threads t).waitQueue = none

/-- When an operation can be performed. -/
def Op.Enabled (s : State Tid Mid) : Op Tid Mid → Prop
  | .mutex op => op.Enabled s.mutexes ∧
      match op with
      | .seize t _ _ _ | .surrender t _ => s.canRun t ∧ s.pc t = .running
      | .timeout _ | .changePriority _ _ _ => True
  | .wait t _ _ => s.canRun t ∧ s.pc t = .running
  | .signal t _ => s.canRun t ∧ s.pc t = .running
  | .advance t => s.canRun t ∧ ∀ m, s.pc t = .waiting m → t ∈ s.waitQueue.released
  | .timeout _ => True
  | .unblockThread t => ∃ m, s.pc t = .waiting m

def advance (s : State Tid Mid) (t : Tid) : State Tid Mid :=
  match s.pc t with
  | .running => s
  | .unlocking m timeout alreadyTimedout => waitUnlock s t m timeout alreadyTimedout
  | .unlocked m timeout => waitEnqueue s t m timeout
  | .waiting m => waitResume s t m
  | .locking m status => waitLock s t m status
  | .relocking m status => waitLocked s t m status
  | .returning _ _ => s.setPc t .running
  | .signaling isBroadcast woken => signalTurn s t isBroadcast woken

def Op.run (s : State Tid Mid) : Op Tid Mid → State Tid Mid
  | .mutex op => { s with mutexes := op.run s.mutexes }
  | .wait t m abstime => waitBegin s t m abstime
  | .signal t isBroadcast =>
    { s.setPc t (.signaling isBroadcast []) with disabled := some t }
  | .advance t => Condition.advance s t
  | .timeout t => { s with waitQueue := s.waitQueue.timeout .fifo t }
  | .unblockThread t => Condition.unblockThread s t

/-- The states of the runs from a state. -/
def Reachable (s₀ : State Tid Mid) : State Tid Mid → Prop :=
  Relation.ReflTransGen (fun s s' => ∃ op : Op Tid Mid, op.Enabled s ∧ s' = op.run s) s₀

/-- A new condition variable, and mutexes that `pthread_mutex_init` has made. -/
structure Start (s : State Tid Mid) : Prop where
  mutexes : CoreMutex.Start s.mutexes
  onlyOwnerRelease : ∀ m, (s.mutexes.mutexes m).attributes.onlyOwnerRelease = true
  waitQueue : s.waitQueue = .start .successful
  mutex : s.mutex = none
  pc : ∀ t, s.pc t = .running
  disabled : s.disabled = none

/-- The wait of the thread has released the mutex, and nothing has woken the thread. -/
def Unwoken (s : State Tid Mid) (t : Tid) : Prop :=
  (∃ m timeout, s.pc t = .unlocked m timeout) ∨
    (∃ m, s.pc t = .waiting m) ∧ t ∉ s.waitQueue.released

end Rtems.Condition
