import Rtems.ThreadQueue.Operations

/-!
# Thread queue blocking

The model of `threadqenqueue.c`, `threadqflush.c` and `threadtimeout.c` on one
processor.  One thread, the *enqueuer*, executes
`_Thread_queue_Enqueue_critical`.  Its code is cut at the points where the
queue lock is released and interrupts are enabled, and `Pc` names the cuts.
At each of them interrupts may run.  Their code is a stack of pieces, each of
which is one critical section (`Isr`): an arriving interrupt pushes a piece,
the piece on top runs next, and the enqueuer runs only when the stack is
empty.  So interrupts may interrupt interrupts, and each of them runs to its
end before the thread does.
-/

namespace Rtems.ThreadQueue

variable {Tid : Type} [DecidableEq Tid]

/-! ## Flags and states -/

/-- `THREAD_WAIT_STATE_READY_AGAIN`. -/
def waitStateReadyAgain : BitVec 32 := 0x4#32

/-- `THREAD_WAIT_STATE_INTEND_TO_BLOCK`. -/
def waitStateIntendToBlock : BitVec 32 := 0x1#32

/-- `THREAD_WAIT_STATE_BLOCKED`. -/
def waitStateBlocked : BitVec 32 := 0x2#32

/-- `THREAD_WAIT_CLASS_MASK`. -/
def waitClassMask : BitVec 32 := 0xff00#32

/-- `THREAD_WAIT_CLASS_OBJECT`. -/
def waitClassObject : BitVec 32 := 0x400#32

/-- `THREAD_QUEUE_INTEND_TO_BLOCK`. -/
def intendToBlock : BitVec 32 := waitClassObject ||| waitStateIntendToBlock

/-- `THREAD_QUEUE_BLOCKED`. -/
def blocked : BitVec 32 := waitClassObject ||| waitStateBlocked

/-- `THREAD_QUEUE_READY_AGAIN`. -/
def readyAgain : BitVec 32 := waitClassObject ||| waitStateReadyAgain

/-- `STATES_LOCALLY_BLOCKED`. -/
def statesLocallyBlocked : BitVec 32 :=
  0x20#32 ||| 0x40#32 ||| 0x80#32 ||| 0x200#32 ||| 0x400#32 ||| 0x800#32 |||
    0x1000000#32 ||| 0x8000#32 ||| 0x10000#32 ||| 0x80000#32 ||| 0x20000#32

/-- `STATES_BLOCKED`. -/
def statesBlocked : BitVec 32 :=
  0x8#32 ||| statesLocallyBlocked ||| 0x10#32 ||| 0x4000#32 ||| 0x100#32 ||| 0x2000#32 |||
    0x40000#32 ||| 0x10000000#32

/-! ## Threads -/

/-- The fields of `Thread_Control` that blocking reads and writes. -/
structure ThreadControl where
  /-- `current_state`. -/
  currentState : BitVec 32
  /-- `current_priority`. -/
  currentPriority : Priority
  /-- `Wait.flags`. -/
  flags : BitVec 32
  /-- `Wait.queue` is not `NULL`, that is, it is the queue of the model. -/
  onQueue : Bool
  /-- `Wait.operations`. -/
  operations : Operations
  /-- `Wait.return_code`. -/
  returnCode : Nat
  /-- `Wait.timeout_code`. -/
  timeoutCode : Nat
  /-- `Timer.state`. -/
  timer : WatchdogState

/-! ## Configurations and states -/

/-- The arguments of the enqueue call. -/
structure Config (Tid : Type) where
  /-- `the_thread`. -/
  enqueuer : Tid
  /-- The operations of `the_thread_queue`. -/
  operations : Operations
  /-- `state`. -/
  state : BitVec 32
  /-- `timeout`. -/
  timeout : Nat
  /-- `timeout_code`. -/
  timeoutCode : Nat

/-- Where the enqueuer is in `_Thread_queue_Enqueue_critical`. -/
inductive Pc where
  /-- On entry, with the queue lock. -/
  | start
  /-- The lock is released, `_Thread_Set_state` comes next. -/
  | setState
  /-- The timer is to be initialised and inserted. -/
  | timerInit
  /-- The insert of the timer is under way. -/
  | timerInsert
  /-- The wait flags are to be changed from intend to block to blocked. -/
  | tryChange
  /-- `_Thread_queue_Unblock`: the timer is to be removed. -/
  | unblockTimer
  /-- `_Thread_queue_Unblock`: the state is to be cleared. -/
  | unblockState
  /-- The call is finished. -/
  | done
deriving DecidableEq, Repr

/-- Who ended a wait. -/
inductive Waker where
  | extracted
  | flushed (status : Nat)
  | timedOut
deriving DecidableEq, Repr

/-- A piece of interrupt code that runs without being interrupted. -/
inductive Isr (Tid : Type) where
  /-- `_Thread_queue_Extract`. -/
  | extract (t : Tid)
  /-- `_Thread_queue_Dequeue`. -/
  | dequeue
  /-- One turn of the loop of `_Thread_queue_Flush`. -/
  | flush (status : Nat)
  /-- The watchdog of the thread expires. -/
  | expire (t : Tid)
  /-- Another thread's enqueue, as it stands once that thread has blocked. -/
  | enqueueOther (t : Tid) (state : BitVec 32) (timeout timeoutCode : Nat)
  /-- `_Thread_Timeout` up to the release of the lock. -/
  | timeout (t : Tid)
  /-- `_Watchdog_Remove_ticks` in `_Thread_queue_Unblock`. -/
  | removeTimer (t : Tid)
  /-- `_Thread_Unblock`. -/
  | unblock (t : Tid)
deriving DecidableEq, Repr

/-- The pieces an interrupt may start with.  The others only continue one. -/
def Isr.Arrives : Isr Tid → Prop
  | .extract _ | .dequeue | .flush _ | .expire _ | .enqueueOther .. => True
  | .timeout _ | .removeTimer _ | .unblock _ => False

/-- A state of the protocol.  `wakes` and `unblocks` are ghosts: who took the
thread off the queue, latest first, and how often it became ready. -/
structure State (Tid : Type) where
  threads : Tid → ThreadControl
  /-- The threads of `the_thread_queue`, first one first. -/
  queue : List Tid
  /-- The interrupt code still to run, top of the stack first. -/
  pending : List (Isr Tid)
  pc : Pc
  wakes : Tid → List Waker
  unblocks : Tid → Nat

/-- Change the control block of one thread. -/
def State.modify (s : State Tid) (t : Tid) (f : ThreadControl → ThreadControl) : State Tid :=
  { s with threads := Function.update s.threads t (f (s.threads t)) }

/-! ## The operations -/

/-- `_Watchdog_Remove_ticks` on the timer of a thread. -/
def watchdogRemove (s : State Tid) (t : Tid) : State Tid :=
  s.modify t fun c => { c with timer := .inactive }

/-- `_Thread_Unblock`, that is `_Thread_Clear_state` with `STATES_BLOCKED`. -/
def threadUnblock (s : State Tid) (t : Tid) : State Tid :=
  let previous := (s.threads t).currentState
  if previous &&& statesBlocked ≠ 0#32 then
    let next := statesClear statesBlocked previous
    { s.modify t (fun c => { c with currentState := next }) with
      unblocks := if next = statesReady then
          Function.update s.unblocks t (s.unblocks t + 1)
        else s.unblocks }
  else s

/-- `_Thread_queue_Extract_locked`. -/
def extractLocked (cfg : Config Tid) (s : State Tid) (t : Tid) : State Tid :=
  { s.modify t (fun c => { c with onQueue := false, operations := .default }) with
    queue := cfg.operations.extract s.queue t }

/-- `_Thread_queue_Unblock_critical`.  A thread that has blocked is unblocked
by this waker, once the lock is released. -/
def unblockCritical (s : State Tid) (t : Tid) : State Tid :=
  let s' := s.modify t fun c => { c with flags := readyAgain }
  if (s.threads t).flags = intendToBlock then s'
  else { s' with pending := .removeTimer t :: .unblock t :: s'.pending }

/-- `_Thread_queue_Extract_critical`. -/
def extractCritical (cfg : Config Tid) (w : Waker) (s : State Tid) (t : Tid) : State Tid :=
  let s := unblockCritical (extractLocked cfg s t) t
  { s with wakes := Function.update s.wakes t (w :: s.wakes t) }

/-- `_Thread_Do_timeout`. -/
def doTimeout (s : State Tid) (t : Tid) : State Tid :=
  { s.modify t (fun c =>
      { c with returnCode := c.timeoutCode, onQueue := false, operations := .default }) with
    queue := (s.threads t).operations.extract s.queue t }

/-- `_Thread_Timeout` up to the release of the lock. -/
def threadTimeout (s : State Tid) (t : Tid) : State Tid :=
  let waitFlags := (s.threads t).flags
  if waitFlags &&& waitStateReadyAgain = 0#32 then
    let waitClass := waitFlags &&& waitClassMask
    let again := waitClass ||| waitStateReadyAgain
    let s := doTimeout s t
    let s := { s with wakes := Function.update s.wakes t (.timedOut :: s.wakes t) }
    let s' := s.modify t fun c => { c with flags := again }
    if (s.threads t).flags = waitClass ||| waitStateIntendToBlock then s'
    else { s' with pending := .unblock t :: s'.pending }
  else s

/-- Another thread's finished enqueue.  Only a ready thread that waits nowhere
and has no timer running can make the call. -/
def enqueueOther (cfg : Config Tid) (s : State Tid) (t : Tid) (state : BitVec 32)
    (timeout timeoutCode : Nat) : State Tid :=
  let c := s.threads t
  if t ≠ cfg.enqueuer ∧ c.currentState = statesReady ∧ c.onQueue = false ∧ c.timer = .inactive ∧
      state ≠ 0#32 ∧ statesClear statesBlocked state = statesReady then
    let c' := { c with
      currentState := statesSet state c.currentState
      flags := blocked
      onQueue := true
      operations := cfg.operations
      timeoutCode := if timeout = 0 then c.timeoutCode else timeoutCode
      timer := if timeout = 0 then .inactive else .active }
    { s with
      threads := Function.update s.threads t c'
      queue := cfg.operations.enqueue (fun u => (s.threads u).currentPriority) s.queue t }
  else s

/-- One piece of interrupt code. -/
def isrStep (cfg : Config Tid) (s : State Tid) : Isr Tid → State Tid
  | .extract t => if (s.threads t).onQueue then extractCritical cfg .extracted s t else s
  | .dequeue =>
    match s.queue with
    | [] => s
    | t :: _ => extractCritical cfg .extracted s t
  | .flush status =>
    match s.queue with
    | [] => s
    | t :: _ =>
      -- The loop goes on once the extracted thread is unblocked.
      let s := { s with pending := .flush status :: s.pending }
      let s := s.modify t fun c => { c with returnCode := status }
      extractCritical cfg (.flushed status) s t
  | .expire t =>
    if (s.threads t).timer = .active then
      let s := watchdogRemove s t
      { s with pending := .timeout t :: s.pending }
    else s
  | .enqueueOther t state timeout timeoutCode => enqueueOther cfg s t state timeout timeoutCode
  | .timeout t => threadTimeout s t
  | .removeTimer t => watchdogRemove s t
  | .unblock t => threadUnblock s t

/-- The next statement of the enqueuer. -/
def threadStep (cfg : Config Tid) (s : State Tid) : State Tid :=
  let t := cfg.enqueuer
  match s.pc with
  | .start =>
    { s.modify t (fun c =>
        { c with onQueue := true, operations := cfg.operations, flags := intendToBlock }) with
      queue := cfg.operations.enqueue (fun u => (s.threads u).currentPriority) s.queue t
      pc := .setState }
  | .setState =>
    { s.modify t (fun c => { c with currentState := statesSet cfg.state c.currentState }) with
      pc := if cfg.timeout = 0 then .tryChange else .timerInit }
  | .timerInit =>
    { s.modify t (fun c =>
        { c with timeoutCode := cfg.timeoutCode, timer := .beingInserted }) with
      pc := .timerInsert }
  | .timerInsert =>
    { s.modify t (fun c =>
        { c with timer := if c.timer = .beingInserted then .active else c.timer }) with
      pc := .tryChange }
  | .tryChange =>
    if (s.threads t).flags = intendToBlock then
      { s.modify t (fun c => { c with flags := blocked }) with pc := .done }
    else { s with pc := .unblockTimer }
  | .unblockTimer => { watchdogRemove s t with pc := .unblockState }
  | .unblockState => { threadUnblock s t with pc := .done }
  | .done => s

/-- One step of the system. -/
inductive Step (cfg : Config Tid) : State Tid → State Tid → Prop where
  /-- The enqueuer runs, since no interrupt code is left. -/
  | thread {s : State Tid} : s.pending = [] → Step cfg s (threadStep cfg s)
  /-- The interrupt code on top of the stack runs. -/
  | isr {s : State Tid} {op : Isr Tid} {rest : List (Isr Tid)} :
      s.pending = op :: rest → Step cfg s (isrStep cfg { s with pending := rest } op)
  /-- An interrupt arrives.  On entry the enqueuer holds the lock. -/
  | interrupt {s : State Tid} {op : Isr Tid} :
      s.pc ≠ .start → op.Arrives → Step cfg s { s with pending := op :: s.pending }

end Rtems.ThreadQueue
