import Rtems.Scheduler.Heir
import Rtems.Lib.StableInsert

/-!
# The scheduler over whole runs

The invariant along every run from the initialized scheduler with the idle
thread started, and what it says about the chains, the bit map and the heir.
-/

namespace Rtems.Scheduler

variable {Tid : Type} [DecidableEq Tid] {s s' : State Tid}

/-! ## The start -/

/-- The idle thread is started first. -/
def start (priority : Tid → Nat) (isPreemptible : Tid → Bool) (idle : Tid) : State Tid :=
  clearState (schedulerInitialize priority isPreemptible idle) idle statesDormant

section

omit [DecidableEq Tid]

theorem Queues.schedulerInitialize {priority : Tid → Nat} (hp : ∀ t, priority t < 256)
    (isPreemptible : Tid → Bool) (idle : Tid) :
    Queues (schedulerInitialize priority isPreemptible idle) where
  placed t := ⟨hp t, rfl, rfl⟩
  chains :=
    { bits := exact_cleared.congr fun _ _ => ⟨False.elim, fun hx => hx rfl⟩
      mem := fun p t => by
        refine ⟨fun ht => absurd ht List.not_mem_nil, fun ht => ?_⟩
        exact absurd ht.2.1 (by change statesDormant ≠ statesReady; decide)
      fifo := fun p => List.Pairwise.nil
      clock := fun t => ⟨Int.le_refl 0, Int.le_refl 0⟩ }

end

theorem Inv.of_start {priority : Tid → Nat} (hp : ∀ t, priority t < 256)
    (isPreemptible : Tid → Bool) (idle : Tid) : Inv (start priority isPreemptible idle) := by
  have hq := Queues.schedulerInitialize hp isPreemptible idle
  have hnot : ¬ (Scheduler.schedulerInitialize priority isPreemptible idle).IsReady idle := by
    change statesDormant ≠ statesReady
    decide
  have hclear : statesClear statesDormant statesDormant = statesReady := by decide
  let r := (Scheduler.schedulerInitialize priority isPreemptible idle).onThread idle
    fun c => { c with currentState := statesReady }
  have hstart : start priority isPreemptible idle = Scheduler.unblock r idle := by
    unfold start Scheduler.clearState
    change (if statesDormant &&& statesDormant ≠ 0#32 then _ else _) = _
    rw [if_pos (by decide)]
    change (if statesClear statesDormant statesDormant = statesReady then _ else _) = _
    rw [if_pos hclear, show ((Scheduler.schedulerInitialize priority isPreemptible idle).threads
      idle).currentState = statesDormant from rfl, hclear]
  have hself : r.threads idle = { (Scheduler.schedulerInitialize priority isPreemptible
      idle).threads idle with currentState := statesReady } := onThread_self _
  have hpl : Placed (r.threads idle) := by
    rw [hself]
    exact ⟨hp idle, rfl, rfl⟩
  have hready : r.IsReady idle := by
    rw [State.IsReady, hself]
  rw [hstart]
  unfold Scheduler.unblock
  dsimp only
  rw [show (readyQueueEnqueue r idle).heir = idle from rfl, if_neg (Nat.lt_irrefl _)]
  refine ⟨((hq.detach hnot).onThread _).enqueue hpl hready, hready, fun _ => ?_⟩
  exact First.enqueue_self hpl fun _ _ => rfl

/-! ## Runs -/

/-- The side condition of a run: no thread becomes the heir by force while a
thread of its priority waits before it. -/
def InTurn (s : State Tid) : Op Tid → Prop
  | .clearState t state => Readies s t state → ¬ Overtakes s t
  | _ => True

/-- One step keeps the invariant. -/
theorem Inv.step {op : Op Tid} (h : Inv s) (he : op.Enabled s) (ho : InTurn s op) :
    Inv (op.run s) := by
  cases op with
  | setState t state => exact h.setState he.1 he.2
  | clearState t state => exact h.clearState ho
  | changePriority t filter prependIt => exact h.changePriority he prependIt
  | yield t => exact h.yield
  | dispatch =>
    exact ⟨⟨h.queues.placed, h.queues.chains.bits, h.queues.chains.mem, h.queues.chains.fifo,
      h.queues.chains.clock⟩, h.heir.ready, h.heir.first⟩

theorem Inv.run {ops : List (Op Tid)} (h : Inv s) (hr : Runs InTurn s ops s') : Inv s' := by
  induction hr with
  | nil => exact h
  | cons he ho _ ih => exact ih (h.step he ho)

/-! ## The scheduler -/

/-- What the scheduler keeps. -/
structure Correct (s : State Tid) : Prop where
  /-- A minor bit is set iff the chain of its priority is not empty. -/
  minor : ∀ p < 256, (s.bitMap.bitMap (priorityMajor p)).getMsbD (priorityMinor p) = true ↔
    s.ready p ≠ []
  /-- A major bit is set iff its minor word is not zero. -/
  major : ∀ m < 16, s.bitMap.majorBitMap.getMsbD m = true ↔ s.bitMap.bitMap m ≠ 0#16
  /-- A ready thread is once on the chain of its priority and on no other, and a
  blocked thread is on none. -/
  chains : ∀ t p, (s.ready p).count t = if s.IsReady t ∧ s.prio t = p then 1 else 0
  /-- A chain is in the order of the times. -/
  fifo : ∀ p, (s.ready p).Pairwise fun t u => s.since t < s.since u
  /-- A thread that becomes ready, yields, or gets a priority without prepending
  is the last one of its chain. -/
  last : ∀ (op : Op Tid) t, op.Appends s t →
    ((op.run s).ready ((op.run s).prio t)).getLast? = some t
  /-- A thread that is prepended is the first one of its chain. -/
  first : ∀ (op : Op Tid) t, op.Prepends s t →
    ((op.run s).ready ((op.run s).prio t)).head? = some t
  heir_ready : s.IsReady s.heir
  heir_first : (s.threads s.heir).isPreemptible = true → First s s.heir

theorem Inv.correct (h : Inv s) : Correct s where
  minor := h.queues.chains.bits.minor
  major := h.queues.chains.bits.major
  chains t p := by
    split
    next hc => exact List.count_eq_one_of_mem h.queues.chains.nodup (h.queues.mem_iff.mpr hc)
    next hc => exact List.count_eq_zero_of_not_mem fun hm => hc (h.queues.mem_iff.mp hm)
  fifo := h.queues.chains.fifo
  last _ _ := h.queues.appends
  first _ _ := prepends
  heir_ready := h.heir.ready
  heir_first := h.heir.first

/-- **The scheduler is correct in every run** in which no thread of the pseudo
ISR priority overtakes one that is ready. -/
theorem scheduler_correct {priority : Tid → Nat} (hp : ∀ t, priority t < 256)
    {isPreemptible : Tid → Bool} {idle : Tid} {ops : List (Op Tid)}
    (hrun : Runs InTurn (start priority isPreemptible idle) ops s) : Correct s :=
  ((Inv.of_start hp isPreemptible idle).run hrun).correct

theorem statesDormant_ne_zero : statesDormant ≠ 0#32 := by decide

/-- Four threads: idle, one that is not preemptible, and two more. -/
def fourPriorities : Nat → Nat
  | 0 => 255
  | 1 => 10
  | 2 => 20
  | _ => 0

theorem fourPriorities_lt (t : Nat) : fourPriorities t < 256 := by
  unfold fourPriorities
  split <;> decide

/-- The thread of the pseudo ISR priority preempts even a thread that is not
preemptible. -/
theorem scheduler_correct_pseudoIsr :
    let s₀ := start fourPriorities (fun t => t != 1) 0
    let s₁ := Op.run s₀ (.clearState 1 statesDormant)
    let s₂ := Op.run s₁ (.clearState 3 statesDormant)
    let s₃ := Op.run s₂ (.changePriority 1 (fun _ => some 0) true)
    s₁.heir = 1 ∧ s₂.heir = 3 ∧ s₃.ready 0 = [1, 3] ∧ s₃.heir = 1 ∧ Correct s₃ := by
  intro s₀ s₁ s₂ s₃
  have hrun : Runs InTurn s₀ [.clearState 1 statesDormant, .clearState 3 statesDormant,
      .changePriority 1 (fun _ => some 0) true] s₃ := by
    refine .cons statesDormant_ne_zero (fun _ ho => ?_) <|
      .cons statesDormant_ne_zero (fun _ ho => ?_) <| .cons (fun _ p hp => ?_) trivial .nil
    · exact absurd ho.1 (by decide)
    · exact absurd ho.2.2.2.2 (by decide)
    · cases hp
      decide
  exact ⟨by decide, by decide, by decide, by decide, scheduler_correct fourPriorities_lt hrun⟩

/-- Thread 2 gets the pseudo ISR priority while the heir, thread 1, is not
preemptible.  Then thread 3 of the same priority is unblocked and becomes the
heir, though thread 2 comes first. -/
theorem scheduler_correct_overtaken : ¬ ∀ (priority : Nat → Nat) (isPreemptible : Nat → Bool)
    (idle : Nat) (ops : List (Op Nat)) (s : State Nat), (∀ t, priority t < 256) →
      Runs (fun _ _ => True) (start priority isPreemptible idle) ops s → Correct s := by
  intro hall
  let ops : List (Op Nat) := [.clearState 1 statesDormant, .clearState 2 statesDormant,
    .changePriority 2 (fun _ => some 0) false, .clearState 3 statesDormant]
  have hrun : Runs (fun _ _ => True) (start fourPriorities (fun t => t != 1) 0) ops
      (ops.foldl Op.run (start fourPriorities (fun t => t != 1) 0)) := by
    refine .cons statesDormant_ne_zero trivial <| .cons statesDormant_ne_zero trivial <|
      .cons (fun _ p hp => ?_) trivial <| .cons statesDormant_ne_zero trivial .nil
    cases hp
    decide
  have hfirst := (hall _ _ _ _ _ fourPriorities_lt hrun).heir_first (by decide)
  exact absurd hfirst.1 (by decide)

end Rtems.Scheduler

/-!
## The simple scheduler

The model of `schedulersimpleimpl.h` and of the operations
`_Scheduler_simple_*`, with the thread operations that call them, and its
comparison with the deterministic priority scheduler.  The simple scheduler
keeps one list, sorted by priority.  It holds the chains of the priority
scheduler one after the other, and the heir is the same, except after a yield
that does not force the dispatch.
-/

namespace Rtems.Scheduler

variable {Tid : Type} [DecidableEq Tid]

/-! ## Threads and the ready list -/

/-- The fields of `Thread_Control` that the simple scheduler reads. -/
structure SimpleThread where
  currentPriority : Nat
  currentState : BitVec 32
  isPreemptible : Bool
deriving DecidableEq

structure Simple (Tid : Type) where
  threads : Tid → SimpleThread
  /-- `Scheduler_simple_Context.Ready`. -/
  ready : List Tid
  /-- `_Thread_Heir`. -/
  heir : Tid
  /-- `_Thread_Executing`. -/
  executing : Tid
  /-- `_Thread_Dispatch_necessary`. -/
  dispatchNecessary : Bool

namespace Simple

def prio (s : Simple Tid) (t : Tid) : Nat := (s.threads t).currentPriority

/-- Change one thread. -/
def onThread (s : Simple Tid) (t : Tid) (f : SimpleThread → SimpleThread) : Simple Tid :=
  { s with threads := Function.update s.threads t (f (s.threads t)) }

/-- `_Scheduler_simple_Insert_priority_lifo`: before the first thread that is
not more important. -/
def insertPriorityLifo (s : Simple Tid) (t : Tid) : Simple Tid :=
  { s with ready := s.ready.orderedInsert (fun a b => s.prio a ≤ s.prio b) t }

/-- `_Scheduler_simple_Insert_priority_fifo`: before the first thread that is
less important. -/
def insertPriorityFifo (s : Simple Tid) (t : Tid) : Simple Tid :=
  { s with ready := s.ready.orderedInsert (fun a b => s.prio a < s.prio b) t }

/-- `_Scheduler_simple_Extract`. -/
def extract (s : Simple Tid) (t : Tid) : Simple Tid :=
  { s with ready := s.ready.erase t }

/-- `_Scheduler_Update_heir`. -/
def updateHeir (s : Simple Tid) (newHeir : Tid) (forceDispatch : Bool) : Simple Tid :=
  if s.heir ≠ newHeir ∧ ((s.threads s.heir).isPreemptible || forceDispatch) then
    { s with heir := newHeir, dispatchNecessary := true }
  else s

/-- `_Scheduler_simple_Schedule_body`.  A thread is always ready. -/
def scheduleBody (s : Simple Tid) (forceDispatch : Bool) : Simple Tid :=
  match s.ready with
  | [] => s
  | heir :: _ => s.updateHeir heir forceDispatch

/-! ## Scheduler operations -/

/-- `_Scheduler_simple_Block`. -/
def block (s : Simple Tid) (t : Tid) : Simple Tid :=
  let s := s.extract t
  if s.executing = t ∨ s.heir = t then s.scheduleBody true else s

/-- `_Scheduler_simple_Unblock`. -/
def unblock (s : Simple Tid) (t : Tid) : Simple Tid :=
  let s := s.insertPriorityFifo t
  if s.prio t < s.prio s.heir then
    s.updateHeir t (s.prio t == priorityPseudoIsr)
  else s

/-- `_Scheduler_simple_Change_priority`, called with the new priority set. -/
def schedulerChangePriority (s : Simple Tid) (t : Tid) (prependIt : Bool) : Simple Tid :=
  let s := s.extract t
  let s := if prependIt then s.insertPriorityLifo t else s.insertPriorityFifo t
  s.scheduleBody false

/-- `_Scheduler_simple_Yield`. -/
def schedulerYield (s : Simple Tid) (t : Tid) : Simple Tid :=
  ((s.extract t).insertPriorityFifo t).scheduleBody false

/-! ## Thread operations -/

/-- `_Thread_Set_state`. -/
def setState (s : Simple Tid) (t : Tid) (state : BitVec 32) : Simple Tid :=
  let previous := (s.threads t).currentState
  let s' := s.onThread t fun c => { c with currentState := statesSet state previous }
  if previous = statesReady then s'.block t else s'

/-- `_Thread_Clear_state`. -/
def clearState (s : Simple Tid) (t : Tid) (state : BitVec 32) : Simple Tid :=
  let previous := (s.threads t).currentState
  if previous &&& state ≠ 0#32 then
    let next := statesClear state previous
    let s := s.onThread t fun c => { c with currentState := next }
    if next = statesReady then s.unblock t else s
  else s

/-- `_Thread_Change_priority`.  There is nothing to update for a thread that is
not ready. -/
def changePriority (s : Simple Tid) (t : Tid) (filter : SimpleThread → Option Nat)
    (prependIt : Bool) : Simple Tid :=
  match filter (s.threads t) with
  | none => s
  | some newPriority =>
    let s := s.onThread t fun c => { c with currentPriority := newPriority }
    if (s.threads t).currentState = statesReady then
      s.schedulerChangePriority t prependIt
    else s

/-- `_Thread_Yield`. -/
def yield (s : Simple Tid) (t : Tid) : Simple Tid :=
  if (s.threads t).currentState = statesReady then s.schedulerYield t else s

/-- `_Thread_Dispatch`, as far as it selects the executing thread. -/
def dispatch (s : Simple Tid) : Simple Tid :=
  { s with executing := s.heir, dispatchNecessary := false }

/-- The scheduler after its initialization, with every thread dormant and the
idle thread as the heir. -/
def schedulerInitialize (priority : Tid → Nat) (isPreemptible : Tid → Bool) (idle : Tid) :
    Simple Tid where
  threads t :=
    { currentPriority := priority t, currentState := statesDormant
      isPreemptible := isPreemptible t }
  ready := []
  heir := idle
  executing := idle
  dispatchNecessary := false

/-- The idle thread is started first. -/
def start (priority : Tid → Nat) (isPreemptible : Tid → Bool) (idle : Tid) : Simple Tid :=
  (schedulerInitialize priority isPreemptible idle).clearState idle statesDormant

end Simple

/-! ## Requests to either scheduler -/

/-- What both schedulers see of a thread. -/
def ThreadControl.simple (c : ThreadControl) : SimpleThread where
  currentPriority := c.currentPriority
  currentState := c.currentState
  isPreemptible := c.isPreemptible

inductive Request (Tid : Type) where
  | setState (t : Tid) (state : BitVec 32)
  | clearState (t : Tid) (state : BitVec 32)
  | changePriority (t : Tid) (filter : SimpleThread → Option Nat) (prependIt : Bool)
  | yield (t : Tid)
  | dispatch

/-- The request to the priority scheduler. -/
def Request.op : Request Tid → Op Tid
  | .setState t state => .setState t state
  | .clearState t state => .clearState t state
  | .changePriority t filter prependIt => .changePriority t (fun c => filter c.simple) prependIt
  | .yield t => .yield t
  | .dispatch => .dispatch

/-- The request to the simple scheduler. -/
def Request.run (s : Simple Tid) : Request Tid → Simple Tid
  | .setState t state => s.setState t state
  | .clearState t state => s.clearState t state
  | .changePriority t filter prependIt => s.changePriority t filter prependIt
  | .yield t => s.yield t
  | .dispatch => s.dispatch

/-- The ready chains, from the most to the least important priority. -/
def State.readyThreads (r : State Tid) : List Tid := (List.range 256).flatMap r.ready

/-- The same heir and the same ready threads in the same order. -/
structure Agree (r : State Tid) (s : Simple Tid) : Prop where
  heir : r.heir = s.heir
  ready : r.readyThreads = s.ready

/-- The schedulers agree at the start and after each request. -/
inductive AgreeAlong : State Tid → Simple Tid → List (Request Tid) → Prop where
  | nil {r : State Tid} {s : Simple Tid} : Agree r s → AgreeAlong r s []
  | cons {r : State Tid} {s : Simple Tid} {a : Request Tid} {as : List (Request Tid)} :
      Agree r s → AgreeAlong (a.op.run r) (a.run s) as → AgreeAlong r s (a :: as)

/-- `u` is the first ready thread once `t` is behind the threads of its
priority. -/
def ComesFirst (r : State Tid) (t u : Tid) : Prop :=
  (if r.prio u = r.prio t then (r.ready (r.prio t)).erase t ++ [t]
    else r.ready (r.prio u)).head? = some u ∧ ∀ p < r.prio u, r.ready p = []

/-- A yield needs no force: the heir is preemptible or remains the first
thread. -/
def YieldsInTurn (r : State Tid) : Op Tid → Prop
  | .yield t => r.IsReady t → (r.threads r.heir).isPreemptible = true ∨ ComesFirst r t r.heir
  | _ => True

end Rtems.Scheduler
