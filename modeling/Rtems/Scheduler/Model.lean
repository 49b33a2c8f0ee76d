import Rtems.Score.Types
import Rtems.Scheduler.BitMap

/-!
# The deterministic priority scheduler

The model of `schedulerpriorityimpl.h`, of the operations
`_Scheduler_priority_*` and of `_Thread_Set_state`, `_Thread_Clear_state`,
`_Thread_Change_priority` and `_Thread_Yield` on one processor.  Each of them
is one step.  A chain is the list of its threads.

`clock` and `since` are ghosts: the time of the last enqueue, and when a thread
became ready or yielded last.  The time of a thread that was put in front of
its chain is negative.
-/

namespace Rtems.Scheduler

variable {Tid : Type} [DecidableEq Tid]

/-- `STATES_DORMANT`. -/
def statesDormant : BitVec 32 := 1#32

/-! ## Threads and ready queues -/

/-- The fields of `Thread_Control` and `Scheduler_priority_Node` in use here. -/
structure ThreadControl where
  currentPriority : Nat
  currentState : BitVec 32
  isPreemptible : Bool
  /-- `Ready_queue.ready_chain`, as an index of `Ready`. -/
  readyChain : Nat
  /-- `Ready_queue.Priority_map`. -/
  priorityMap : BitMap.Information
deriving DecidableEq

structure State (Tid : Type) where
  threads : Tid → ThreadControl
  /-- `Ready`, the chain of each priority. -/
  ready : Nat → List Tid
  bitMap : BitMap
  /-- `_Thread_Heir`. -/
  heir : Tid
  /-- `_Thread_Executing`. -/
  executing : Tid
  /-- `_Thread_Dispatch_necessary`. -/
  dispatchNecessary : Bool
  clock : Nat
  since : Tid → Int

def State.prio (s : State Tid) (t : Tid) : Nat := (s.threads t).currentPriority

/-- `_States_Is_ready` of the state of a thread. -/
def State.IsReady (s : State Tid) (t : Tid) : Prop := (s.threads t).currentState = statesReady

instance (s : State Tid) (t : Tid) : Decidable (s.IsReady t) :=
  inferInstanceAs (Decidable ((s.threads t).currentState = statesReady))

/-- Change one thread. -/
def State.onThread (s : State Tid) (t : Tid) (f : ThreadControl → ThreadControl) : State Tid :=
  { s with threads := Function.update s.threads t (f (s.threads t)) }

/-- `_Scheduler_priority_Ready_queue_enqueue`. -/
def readyQueueEnqueue (s : State Tid) (t : Tid) : State Tid :=
  let node := s.threads t
  { s with
    ready := Function.update s.ready node.readyChain (s.ready node.readyChain ++ [t])
    bitMap := s.bitMap.add node.priorityMap
    clock := s.clock + 1
    since := Function.update s.since t (s.clock + 1) }

/-- `_Scheduler_priority_Ready_queue_enqueue_first`. -/
def readyQueueEnqueueFirst (s : State Tid) (t : Tid) : State Tid :=
  let node := s.threads t
  { s with
    ready := Function.update s.ready node.readyChain (t :: s.ready node.readyChain)
    bitMap := s.bitMap.add node.priorityMap
    clock := s.clock + 1
    since := Function.update s.since t (-(s.clock + 1)) }

/-- `_Scheduler_priority_Ready_queue_extract`. -/
def readyQueueExtract (s : State Tid) (t : Tid) : State Tid :=
  let node := s.threads t
  if (s.ready node.readyChain).length = 1 then
    { s with
      ready := Function.update s.ready node.readyChain []
      bitMap := s.bitMap.remove node.priorityMap }
  else
    { s with
      ready := Function.update s.ready node.readyChain ((s.ready node.readyChain).erase t) }

/-- `_Scheduler_priority_Ready_queue_first`. -/
def readyQueueFirst (s : State Tid) : Option Tid := (s.ready s.bitMap.getHighest).head?

/-- `_Scheduler_priority_Ready_queue_update`. -/
def readyQueueUpdate (s : State Tid) (t : Tid) (newPriority : Nat) : State Tid :=
  s.onThread t fun c =>
    { c with readyChain := newPriority, priorityMap := BitMap.information newPriority }

/-! ## The heir -/

/-- `_Scheduler_Update_heir`. -/
def updateHeir (s : State Tid) (newHeir : Tid) (forceDispatch : Bool) : State Tid :=
  if s.heir ≠ newHeir ∧ ((s.threads s.heir).isPreemptible || forceDispatch) then
    { s with heir := newHeir, dispatchNecessary := true }
  else s

/-- `_Scheduler_priority_Schedule_body`.  A thread is always ready. -/
def scheduleBody (s : State Tid) (forceDispatch : Bool) : State Tid :=
  match readyQueueFirst s with
  | none => s
  | some heir => updateHeir s heir forceDispatch

/-! ## Scheduler operations -/

/-- `_Scheduler_priority_Block`. -/
def block (s : State Tid) (t : Tid) : State Tid :=
  let s := readyQueueExtract s t
  if s.executing = t ∨ s.heir = t then scheduleBody s true else s

/-- `_Scheduler_priority_Unblock`. -/
def unblock (s : State Tid) (t : Tid) : State Tid :=
  let s := readyQueueEnqueue s t
  if s.prio t < s.prio s.heir then
    updateHeir s t (s.prio t == priorityPseudoIsr)
  else s

/-- `_Scheduler_priority_Change_priority`. -/
def schedulerChangePriority (s : State Tid) (t : Tid) (newPriority : Nat) (prependIt : Bool) :
    State Tid :=
  let s := readyQueueExtract s t
  let s := readyQueueUpdate s t newPriority
  let s := if prependIt then readyQueueEnqueueFirst s t else readyQueueEnqueue s t
  scheduleBody s false

/-- `_Scheduler_priority_Yield`. -/
def schedulerYield (s : State Tid) (t : Tid) : State Tid :=
  let chain := (s.threads t).readyChain
  let s :=
    { s with
      ready :=
        if (s.ready chain).length ≠ 1 then
          Function.update s.ready chain ((s.ready chain).erase t ++ [t])
        else s.ready
      clock := s.clock + 1
      since := Function.update s.since t (s.clock + 1) }
  scheduleBody s true

/-! ## Thread operations -/

/-- `_Thread_Set_state`. -/
def setState (s : State Tid) (t : Tid) (state : BitVec 32) : State Tid :=
  let previous := (s.threads t).currentState
  let s' := s.onThread t fun c => { c with currentState := statesSet state previous }
  if previous = statesReady then block s' t else s'

/-- `_Thread_Clear_state`. -/
def clearState (s : State Tid) (t : Tid) (state : BitVec 32) : State Tid :=
  let previous := (s.threads t).currentState
  if previous &&& state ≠ 0#32 then
    let next := statesClear state previous
    let s := s.onThread t fun c => { c with currentState := next }
    if next = statesReady then unblock s t else s
  else s

/-- `_Thread_Change_priority`, where the filter yields the new priority if there
is one.  No other change comes between, so the generations agree. -/
def changePriority (s : State Tid) (t : Tid) (filter : ThreadControl → Option Nat)
    (prependIt : Bool) : State Tid :=
  match filter (s.threads t) with
  | none => s
  | some newPriority =>
    let s := s.onThread t fun c => { c with currentPriority := newPriority }
    if (s.threads t).currentState = statesReady then
      schedulerChangePriority s t newPriority prependIt
    else
      -- `_Scheduler_priority_Update_priority`
      readyQueueUpdate s t newPriority

/-- `_Thread_Yield`. -/
def yield (s : State Tid) (t : Tid) : State Tid :=
  if (s.threads t).currentState = statesReady then schedulerYield s t else s

/-- `_Thread_Dispatch`, as far as it selects the executing thread. -/
def dispatch (s : State Tid) : State Tid :=
  { s with executing := s.heir, dispatchNecessary := false }

/-! ## Runs -/

/-- The scheduler after its initialization, with every thread dormant and the
idle thread as the heir. -/
def schedulerInitialize (priority : Tid → Nat) (isPreemptible : Tid → Bool) (idle : Tid) :
    State Tid where
  threads t :=
    { currentPriority := priority t, currentState := statesDormant
      isPreemptible := isPreemptible t, readyChain := priority t
      priorityMap := BitMap.information (priority t) }
  ready := fun _ => []
  bitMap := .cleared
  heir := idle
  executing := idle
  dispatchNecessary := false
  clock := 0
  since := fun _ => 0

inductive Op (Tid : Type) where
  | setState (t : Tid) (state : BitVec 32)
  | clearState (t : Tid) (state : BitVec 32)
  | changePriority (t : Tid) (filter : ThreadControl → Option Nat) (prependIt : Bool)
  | yield (t : Tid)
  | dispatch

/-- What the operations assert: states to set or clear are given, there is a
ready thread left to select, and priorities are in range. -/
def Op.Enabled (s : State Tid) : Op Tid → Prop
  | .setState t state => state ≠ 0#32 ∧ ∃ u, u ≠ t ∧ s.IsReady u
  | .clearState _ state => state ≠ 0#32
  | .changePriority _ filter _ => ∀ c p, filter c = some p → p < 256
  | .yield _ | .dispatch => True

def Op.run (s : State Tid) : Op Tid → State Tid
  | .setState t state => Scheduler.setState s t state
  | .clearState t state => Scheduler.clearState s t state
  | .changePriority t filter prependIt => Scheduler.changePriority s t filter prependIt
  | .yield t => Scheduler.yield s t
  | .dispatch => Scheduler.dispatch s

/-- A run of operations, each of which meets the side condition `ok`. -/
inductive Runs (ok : State Tid → Op Tid → Prop) : State Tid → List (Op Tid) → State Tid → Prop where
  | nil {s : State Tid} : Runs ok s [] s
  | cons {s s' : State Tid} {op : Op Tid} {ops : List (Op Tid)} : op.Enabled s → ok s op →
      Runs ok (op.run s) ops s' → Runs ok s (op :: ops) s'

end Rtems.Scheduler
