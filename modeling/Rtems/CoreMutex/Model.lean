import Rtems.ThreadQueue.Operations

/-!
# Core mutexes

The model of `coremuteximpl.h`, `coremutexseize.c`, `coremutexsurrender.c` and
`threadchangepriority.c` on one processor, together with the filters through
which the other files change a thread's priority.  Each operation runs with
thread dispatching disabled, so a system is a set of threads, a set of mutexes
and a sequence of whole operations on them.  The wait queues carry the list
model of `Rtems.ThreadQueue.Operations`.
-/

namespace Rtems.CoreMutex

open ThreadQueue (Operations)

variable {Tid Mid : Type} [DecidableEq Tid] [DecidableEq Mid]

/-! ## Mutexes and threads -/

/-- `CORE_mutex_Disciplines`. -/
inductive Discipline where
  | fifo
  | priority
  | priorityInherit
  | priorityCeiling
deriving DecidableEq, Repr

/-- `CORE_mutex_Nesting_behaviors`. -/
inductive NestingBehavior where
  | acquires
  | isError
  | blocks
deriving DecidableEq, Repr

/-- `CORE_mutex_Status`, as far as seize and surrender report it. -/
inductive Status where
  | successful
  | unsatisfiedNowait
  | nestingNotAllowed
  | notOwnerOfResource
  | timeout
  | ceilingViolated
deriving DecidableEq, Repr

/-- `CORE_mutex_Attributes`. -/
structure Attributes where
  lockNestingBehavior : NestingBehavior
  onlyOwnerRelease : Bool
  discipline : Discipline
  priorityCeiling : Priority
deriving DecidableEq, Repr

/-- Holding the mutex counts as a resource of the holder. -/
def Attributes.counted (a : Attributes) : Bool :=
  a.discipline == .priorityInherit || a.discipline == .priorityCeiling

/-- The queue operations `_CORE_mutex_Initialize` selects. -/
def Attributes.operations (a : Attributes) : Operations :=
  if a.discipline = .fifo then .fifo else .priority

/-- `CORE_mutex_Control`. -/
structure Control (Tid : Type) where
  attributes : Attributes
  holder : Option Tid
  /-- `nest_count`, a `uint32_t`. -/
  nestCount : Nat
  waitQueue : List Tid
deriving DecidableEq, Repr

/-- The fields of `Thread_Control` that mutexes and priority changes use. -/
structure ThreadControl (Mid : Type) where
  currentPriority : Priority
  realPriority : Priority
  priorityRestoreHint : Bool
  /-- `resource_count`.  It counts mutexes in memory, so it does not overflow. -/
  resourceCount : Nat
  /-- The mutex of `Wait.queue`. -/
  waitQueue : Option Mid
  /-- `Timer.state`. -/
  timer : WatchdogState
  /-- `Wait.return_code`. -/
  returnCode : Status
deriving DecidableEq, Repr

/-- `_Thread_Owns_resources`. -/
def ThreadControl.ownsResources (c : ThreadControl Mid) : Bool := c.resourceCount != 0

@[ext]
structure State (Tid Mid : Type) where
  threads : Tid → ThreadControl Mid
  mutexes : Mid → Control Tid

def State.prio (s : State Tid Mid) (t : Tid) : Priority := (s.threads t).currentPriority

/-- Change one thread. -/
def State.onThread (s : State Tid Mid) (t : Tid) (f : ThreadControl Mid → ThreadControl Mid) :
    State Tid Mid :=
  { s with threads := Function.update s.threads t (f (s.threads t)) }

/-- Change one mutex. -/
def State.onMutex (s : State Tid Mid) (m : Mid) (f : Control Tid → Control Tid) :
    State Tid Mid :=
  { s with mutexes := Function.update s.mutexes m (f (s.mutexes m)) }

/-! ## Priority changes -/

/-- The filters passed to `_Thread_Change_priority`. -/
inductive Filter where
  /-- `_Thread_Raise_priority_filter`. -/
  | raise
  /-- `_Thread_Restore_priority_filter`. -/
  | restore
  /-- `_Thread_Set_priority_filter`. -/
  | set
  /-- `_Thread_Raise_real_priority_filter`. -/
  | raiseReal
  /-- `_POSIX_Threads_Sporadic_budget_TSR_filter`. -/
  | sporadicBudgetTsr
  /-- `_POSIX_Threads_Sporadic_budget_callout_filter`. -/
  | sporadicBudgetCallout
deriving DecidableEq, Repr

/-- `_Thread_Priority_highest`. -/
def priorityHighest (left right : Priority) : Priority :=
  if priorityLessThan left right then right else left

/-- A filter's result: whether to change, the new priority, and the thread
with the fields the filter itself writes. -/
def Filter.run (f : Filter) (c : ThreadControl Mid) (newPriority : Priority) :
    Bool × Priority × ThreadControl Mid :=
  match f with
  | .raise => (priorityLessThan c.currentPriority newPriority, newPriority, c)
  | .restore =>
    (c.realPriority != c.currentPriority, c.realPriority,
      { c with priorityRestoreHint := false })
  | .set =>
    (priorityLessThan c.currentPriority newPriority || !c.ownsResources, newPriority,
      { c with realPriority := newPriority })
  | .raiseReal =>
    let newPriority := priorityHighest c.realPriority newPriority
    (priorityLessThan c.currentPriority newPriority, newPriority,
      { c with realPriority := newPriority })
  | .sporadicBudgetTsr =>
    (!c.ownsResources && priorityLessThan c.currentPriority newPriority, newPriority,
      { c with realPriority := newPriority })
  | .sporadicBudgetCallout =>
    (!c.ownsResources && priorityLessThan newPriority c.currentPriority, newPriority,
      { c with realPriority := newPriority })

/-- The `priority_change` operation of the queue the thread waits on. -/
def priorityChange (s : State Tid Mid) (t : Tid) : State Tid Mid :=
  match (s.threads t).waitQueue with
  | none => s
  | some m => s.onMutex m fun x =>
    { x with waitQueue := x.attributes.operations.priorityChange s.prio x.waitQueue t }

/-- `_Thread_Change_priority`. -/
def changePriority (s : State Tid Mid) (t : Tid) (newPriority : Priority) (f : Filter) :
    State Tid Mid :=
  let c := { s.threads t with priorityRestoreHint := true }
  let (change, newPriority, c) := f.run c newPriority
  if change then priorityChange (s.onThread t fun _ => { c with currentPriority := newPriority }) t
  else s.onThread t fun _ => c

/-- `_Thread_Raise_priority`. -/
def raisePriority (s : State Tid Mid) (t : Tid) (newPriority : Priority) : State Tid Mid :=
  changePriority s t newPriority .raise

/-- `_Thread_Restore_priority`. -/
def restorePriority (s : State Tid Mid) (t : Tid) : State Tid Mid :=
  changePriority s t 0 .restore

/-! ## Seize -/

def setReturnCode (s : State Tid Mid) (t : Tid) (code : Status) : State Tid Mid :=
  s.onThread t fun c => { c with returnCode := code }

/-- Give a free mutex to a thread. -/
def lock (s : State Tid Mid) (t : Tid) (m : Mid) : State Tid Mid :=
  let s := s.onMutex m fun x => { x with holder := some t, nestCount := 1 }
  if (s.mutexes m).attributes.counted then
    s.onThread t fun c => { c with resourceCount := c.resourceCount + 1 }
  else s

/-- The part of `_CORE_mutex_Seize_interrupt_trylock_body` after the mutex was
locked: the ceiling is applied, or the locking is undone. -/
def applyCeiling (s : State Tid Mid) (executing : Tid) (m : Mid) : State Tid Mid :=
  let ceiling := (s.mutexes m).attributes.priorityCeiling
  let current := (s.threads executing).currentPriority
  if current = ceiling then s
  else if current > ceiling then raisePriority s executing ceiling
  else
    let s := setReturnCode s executing .ceilingViolated
    let s := s.onMutex m fun x => { x with holder := none, nestCount := 0 }
    s.onThread executing fun c => { c with resourceCount := c.resourceCount - 1 }

/-- `_CORE_mutex_Seize_interrupt_trylock_body`.  The flag says that the caller
has to block. -/
def trylock (s : State Tid Mid) (executing : Tid) (m : Mid) : State Tid Mid × Bool :=
  let s := setReturnCode s executing .successful
  match (s.mutexes m).holder with
  | none =>
    let s := lock s executing m
    if (s.mutexes m).attributes.discipline ≠ .priorityCeiling then (s, false)
    else (applyCeiling s executing m, false)
  | some holder =>
    if holder = executing then
      match (s.mutexes m).attributes.lockNestingBehavior with
      | .acquires =>
        (s.onMutex m fun x => { x with nestCount := (x.nestCount + 1) % 2 ^ 32 }, false)
      | .isError => (setReturnCode s executing .nestingNotAllowed, false)
      | .blocks => (s, true)
    else (s, true)

/-- `_Thread_queue_Enqueue_critical` as it stands once the thread has blocked. -/
def enqueue (s : State Tid Mid) (t : Tid) (m : Mid) (timeout : Nat) : State Tid Mid :=
  let s := s.onThread t fun c =>
    { c with waitQueue := some m, timer := if timeout = 0 then .inactive else .active }
  s.onMutex m fun x => { x with waitQueue := x.attributes.operations.enqueue s.prio x.waitQueue t }

/-- `_CORE_mutex_Seize_interrupt_blocking`. -/
def seizeBlocking (s : State Tid Mid) (executing : Tid) (m : Mid) (timeout : Nat) :
    State Tid Mid :=
  let s := match (s.mutexes m).attributes.discipline, (s.mutexes m).holder with
    | .priorityInherit, some holder =>
      raisePriority s holder (s.threads executing).currentPriority
    | _, _ => s
  enqueue s executing m timeout

/-- `_CORE_mutex_Seize_body`. -/
def seize (s : State Tid Mid) (executing : Tid) (m : Mid) (wait : Bool) (timeout : Nat) :
    State Tid Mid :=
  match trylock s executing m with
  | (s, false) => s
  | (s, true) =>
    if wait then seizeBlocking s executing m timeout
    else setReturnCode s executing .unsatisfiedNowait

/-! ## Surrender -/

/-- `_Thread_queue_Extract_locked` and the wakeup that follows it. -/
def extract (s : State Tid Mid) (t : Tid) (m : Mid) : State Tid Mid :=
  let s := s.onThread t fun c => { c with waitQueue := none, timer := .inactive }
  s.onMutex m fun x => { x with waitQueue := x.attributes.operations.extract x.waitQueue t }

/-- Formally release the mutex. -/
def release (s : State Tid Mid) (holder : Tid) (m : Mid) : State Tid Mid :=
  let s := if (s.mutexes m).attributes.counted then
      s.onThread holder fun c => { c with resourceCount := c.resourceCount - 1 }
    else s
  s.onMutex m fun x => { x with holder := none, nestCount := 0 }

/-- Transfer the mutex to the first waiting thread, if there is one. -/
def handOver (s : State Tid Mid) (m : Mid) : State Tid Mid :=
  match (s.mutexes m).waitQueue with
  | [] => s
  | t :: _ =>
    let s := lock (extract s t m) t m
    if (s.mutexes m).attributes.discipline = .priorityCeiling then
      raisePriority s t (s.mutexes m).attributes.priorityCeiling
    else s

/-- An inherited priority is given back with the last resource. -/
def restoreIfIdle (s : State Tid Mid) (holder : Tid) : State Tid Mid :=
  if !(s.threads holder).ownsResources && (s.threads holder).priorityRestoreHint then
    restorePriority s holder
  else s

/-- `_CORE_mutex_Surrender`. -/
def surrender (s : State Tid Mid) (executing : Tid) (m : Mid) : State Tid Mid × Status :=
  let x := s.mutexes m
  if x.attributes.onlyOwnerRelease = true ∧ x.holder ≠ some executing then
    (s, .notOwnerOfResource)
  else if x.nestCount = 0 then (s, .successful)
  else if x.nestCount - 1 ≠ 0 then
    (s.onMutex m fun x => { x with nestCount := x.nestCount - 1 }, .successful)
  else
    match x.holder with
    | none => (s.onMutex m fun x => { x with nestCount := 0 }, .successful)
    | some holder => (restoreIfIdle (handOver (release s holder m) m) holder, .successful)

/-! ## Timeouts and the system -/

/-- `_Thread_Timeout` of a thread that waits on a mutex. -/
def threadTimeout (s : State Tid Mid) (t : Tid) : State Tid Mid :=
  match (s.threads t).waitQueue with
  | none => s
  | some m => extract (setReturnCode s t .timeout) t m

/-- An operation of the system. -/
inductive Op (Tid Mid : Type) where
  | seize (executing : Tid) (m : Mid) (wait : Bool) (timeout : Nat)
  | surrender (executing : Tid) (m : Mid)
  | timeout (t : Tid)
  | changePriority (t : Tid) (newPriority : Priority) (f : Filter)

/-- A thread that waits does not execute, only a running timer expires, and
mutexes alone raise and restore priorities. -/
def Op.Enabled (s : State Tid Mid) : Op Tid Mid → Prop
  | .seize executing _ _ _ | .surrender executing _ => (s.threads executing).waitQueue = none
  | .timeout t => (s.threads t).timer = .active
  | .changePriority _ _ f => f ≠ .raise ∧ f ≠ .restore

def Op.run (s : State Tid Mid) : Op Tid Mid → State Tid Mid
  | .seize executing m wait ticks => CoreMutex.seize s executing m wait ticks
  | .surrender executing m => (CoreMutex.surrender s executing m).1
  | .timeout t => threadTimeout s t
  | .changePriority t newPriority f => CoreMutex.changePriority s t newPriority f

/-- One operation, which meets the side condition `ok`. -/
def Step (ok : State Tid Mid → Op Tid Mid → Prop) (s s' : State Tid Mid) : Prop :=
  ∃ op : Op Tid Mid, op.Enabled s ∧ ok s op ∧ s' = op.run s

/-- No mutex is locked, and every thread runs at its real priority. -/
structure Start (s : State Tid Mid) : Prop where
  holder : ∀ m, (s.mutexes m).holder = none
  nestCount : ∀ m, (s.mutexes m).nestCount = 0
  waitQueue : ∀ m, (s.mutexes m).waitQueue = []
  waits : ∀ t, (s.threads t).waitQueue = none
  priority : ∀ t, (s.threads t).currentPriority = (s.threads t).realPriority
  resourceCount : ∀ t, (s.threads t).resourceCount = 0

end Rtems.CoreMutex
