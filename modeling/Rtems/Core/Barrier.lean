import Rtems.ThreadQueue.Waiters

/-!
# SuperCore barriers

The model of `corebarrier.c`, `corebarrierwait.c` and `corebarrierrelease.c`.
The callers enter with thread dispatching disabled, so that while a release
empties the queue, one critical section for each thread, no other thread
arrives at the barrier.  Interrupts do run between these sections, and with
them the timeouts of the threads that wait.
-/

namespace Rtems.CoreBarrier

open ThreadQueue

/-- `CORE_barrier_Status`. -/
inductive Status where
  | successful
  | automaticallyReleased
  | wasDeleted
  | timeout
deriving DecidableEq, Repr

/-- `CORE_barrier_Disciplines`. -/
inductive Discipline where
  | automaticRelease
  | manualRelease
deriving DecidableEq, Repr

/-- `CORE_barrier_Attributes`.  No API creates a barrier for zero threads. -/
structure Attributes where
  discipline : Discipline
  maximumCount : Nat
  pos : 0 < maximumCount
  lt : maximumCount < 2 ^ 32

variable {Tid : Type}

/-- `CORE_barrier_Control`.  `timedOut` is a ghost: how many waiting threads
have timed out since the barrier was last released. -/
structure State (Tid : Type) where
  /-- `Wait_queue`. -/
  waitQueue : Waiters Tid Status
  numberOfWaitingThreads : Nat
  /-- The local `count` of a `_CORE_barrier_Release` under way. -/
  releasing : Option Nat
  timedOut : Nat

variable [DecidableEq Tid]

/-- The discipline of the wait queue. -/
abbrev fifo : ThreadQueue.Discipline := .fifo

/-- The wait queue of a barrier does not look at priorities. -/
abbrev noPrio : Tid → Priority := fun _ => 0

/-! ## The operations -/

/-- `_CORE_barrier_Initialize`. -/
def start : State Tid where
  waitQueue := .start .successful
  numberOfWaitingThreads := 0
  releasing := none
  timedOut := 0

/-- `_CORE_barrier_Wait`, up to the call of `_CORE_barrier_Release`. -/
def wait (attr : Attributes) (s : State Tid) (executing : Tid) (timeout : Nat) : State Tid :=
  let q := s.waitQueue.setReturnCode executing .successful
  let number := (s.numberOfWaitingThreads + 1) % 2 ^ 32
  if attr.discipline = .automaticRelease ∧ number = attr.maximumCount then
    { s with
      waitQueue := q.setReturnCode executing .automaticallyReleased
      numberOfWaitingThreads := number
      releasing := some 0 }
  else
    { s with
      waitQueue := q.enqueueCritical fifo noPrio executing
        (if timeout ≠ 0 then some .timeout else none)
      numberOfWaitingThreads := number }

/-- The start of a `_CORE_barrier_Release` that a user asks for. -/
def release (s : State Tid) : State Tid := { s with releasing := some 0 }

/-- One turn of the loop of `_CORE_barrier_Release`, or what follows it. -/
def releaseTurn (s : State Tid) (count : Nat) : State Tid :=
  match s.waitQueue.dequeue fifo with
  | (some _, q) => { s with waitQueue := q, releasing := some (count + 1) }
  | (none, _) => { s with numberOfWaitingThreads := 0, releasing := none, timedOut := 0 }

/-- `_Thread_Timeout` of a thread. -/
def threadTimeout (s : State Tid) (t : Tid) : State Tid :=
  { s with
    waitQueue := s.waitQueue.timeout fifo t
    timedOut := s.timedOut + (s.waitQueue.queue.length - (s.waitQueue.timeout fifo t).queue.length) }

/-- A released thread returns from its wait. -/
def complete (s : State Tid) (t : Tid) : State Tid :=
  { s with waitQueue := s.waitQueue.resume t }

/-- A step of the barrier and its users. -/
inductive Step (attr : Attributes) : State Tid → State Tid → Prop where
  | wait (s : State Tid) (executing : Tid) (timeout : Nat)
      (hidle : s.waitQueue.Idle executing) (hdispatch : s.releasing = none) :
      Step attr s (wait attr s executing timeout)
  | release (s : State Tid) (hdispatch : s.releasing = none) : Step attr s (release s)
  | releaseTurn (s : State Tid) (count : Nat) (hrel : s.releasing = some count) :
      Step attr s (releaseTurn s count)
  | threadTimeout (s : State Tid) (t : Tid) : Step attr s (threadTimeout s t)
  | complete (s : State Tid) (t : Tid) (hreleased : t ∈ s.waitQueue.released) :
      Step attr s (complete s t)

/-- The states of the runs of a barrier. -/
def Reachable (attr : Attributes) : State Tid → Prop := Relation.ReflTransGen (Step attr) start

/-- No release is under way. -/
def Quiescent (s : State Tid) : Prop := s.releasing = none

/-! ## The counter -/

/-- The invariant of the runs of an automatic barrier.  The counter also counts
the threads that timed out. -/
structure Inv (attr : Attributes) (s : State Tid) : Prop where
  waiters : s.waitQueue.Inv fifo noPrio
  counted : s.releasing = none →
    s.numberOfWaitingThreads = s.waitQueue.queue.length + s.timedOut
  below : s.releasing = none → s.numberOfWaitingThreads < attr.maximumCount

variable {attr : Attributes} {s s' : State Tid} {t : Tid}

omit [DecidableEq Tid] in
theorem Inv.start : Inv attr (start : State Tid) where
  waiters := .start _
  counted := fun _ => rfl
  below := fun _ => attr.pos

omit [DecidableEq Tid] in
/-- The counter does not wrap around. -/
theorem Inv.increment (h : Inv attr s) (hrel : s.releasing = none) :
    (s.numberOfWaitingThreads + 1) % 2 ^ 32 = s.numberOfWaitingThreads + 1 := by
  have hb := h.below hrel
  have hlt := attr.lt
  exact Nat.mod_eq_of_lt (by omega)

/-- An arriving thread trips the release if and only if the counter says so. -/
theorem Inv.wait_releasing (h : Inv attr s) (hauto : attr.discipline = .automaticRelease)
    (hrel : s.releasing = none) (t : Tid) (timeout : Nat) :
    (wait attr s t timeout).releasing.isSome ↔
      s.numberOfWaitingThreads + 1 = attr.maximumCount := by
  unfold wait
  simp only [h.increment hrel]
  split
  next htrip => exact ⟨fun _ => htrip.2, fun _ => rfl⟩
  next htrip =>
    constructor
    · intro hsome
      rw [hrel] at hsome
      cases hsome
    · intro heq
      exact absurd ⟨hauto, heq⟩ htrip

theorem Inv.wait (h : Inv attr s) (hauto : attr.discipline = .automaticRelease)
    (hidle : s.waitQueue.Idle t) (hrel : s.releasing = none) (timeout : Nat) :
    Inv attr (wait attr s t timeout) := by
  have hw := h.waiters.setReturnCode t .successful
  have hc := h.counted hrel
  have hb := h.below hrel
  unfold CoreBarrier.wait
  simp only [h.increment hrel]
  split
  next => exact ⟨hw.setReturnCode t _, nofun, nofun⟩
  next htrip =>
    have hne : s.numberOfWaitingThreads + 1 ≠ attr.maximumCount := fun e => htrip ⟨hauto, e⟩
    refine ⟨hw.enqueueCritical hidle _, ?_, ?_⟩
    · intro _
      rw [Waiters.length_enqueueCritical, Waiters.setReturnCode_queue]
      show s.numberOfWaitingThreads + 1 = s.waitQueue.queue.length + 1 + s.timedOut
      omega
    · intro _
      show s.numberOfWaitingThreads + 1 < attr.maximumCount
      omega

theorem Inv.releaseTurn (h : Inv attr s) (count : Nat) : Inv attr (releaseTurn s count) := by
  unfold CoreBarrier.releaseTurn Waiters.dequeue
  cases hf : s.waitQueue.firstLocked with
  | some t =>
    refine ⟨h.waiters.extractCritical ?_, nofun, nofun⟩
    exact List.mem_of_mem_head? hf
  | none =>
    refine ⟨h.waiters, ?_, fun _ => attr.pos⟩
    intro _
    show 0 = s.waitQueue.queue.length + 0
    rw [Waiters.firstLocked_eq_none.mp hf]
    rfl

theorem Inv.threadTimeout (h : Inv attr s) (t : Tid) : Inv attr (threadTimeout s t) := by
  refine ⟨h.waiters.timeout t, ?_, h.below⟩
  intro hrel
  have hc := h.counted hrel
  show s.numberOfWaitingThreads = (s.waitQueue.timeout fifo t).queue.length +
    (s.timedOut + (s.waitQueue.queue.length - (s.waitQueue.timeout fifo t).queue.length))
  have hle : (s.waitQueue.timeout fifo t).queue.length ≤ s.waitQueue.queue.length := by
    rcases Waiters.timeout_cases fifo s.waitQueue t with e | ⟨code, -, -, e⟩
    · rw [e]
    · rw [e, Waiters.extractCritical_queue]
      exact List.erase_sublist.length_le
  omega

theorem Inv.step (h : Inv attr s) (hauto : attr.discipline = .automaticRelease)
    (hstep : Step attr s s') : Inv attr s' := by
  cases hstep with
  | wait t timeout hidle hrel => exact h.wait hauto hidle hrel timeout
  | release hrel => exact ⟨h.waiters, nofun, nofun⟩
  | releaseTurn count hrel => exact h.releaseTurn count
  | threadTimeout t => exact h.threadTimeout t
  | complete t ht => exact ⟨h.waiters.resume t, h.counted, h.below⟩

theorem Reachable.inv (hauto : attr.discipline = .automaticRelease) (h : Reachable attr s) :
    Inv attr s :=
  Reach.invariant h .start fun _ _ hi hs => hi.step hauto hs

/-- The counter of an automatic barrier is the number of waiting threads, and
the threads trip the release exactly when they are enough, if and only if no
thread has timed out of its wait since the barrier was last released. -/
theorem automatic_release_counts (hauto : attr.discipline = .automaticRelease)
    (h : Reachable attr s) (hquiet : Quiescent s) :
    (s.numberOfWaitingThreads = s.waitQueue.queue.length ∧
      ∀ t timeout, s.waitQueue.Idle t →
        ((wait attr s t timeout).releasing.isSome ↔
          s.waitQueue.queue.length + 1 = attr.maximumCount)) ↔ s.timedOut = 0 := by
  have hinv := h.inv hauto
  have hc := hinv.counted hquiet
  constructor
  · rintro ⟨hn, -⟩
    omega
  · intro hz
    rw [hz] at hc
    refine ⟨hc, ?_⟩
    intro t timeout _
    rw [hinv.wait_releasing hauto hquiet, hc]

/-- An automatic barrier for two threads. -/
def pair : Attributes where
  discipline := .automaticRelease
  maximumCount := 2
  pos := by decide
  lt := by decide

/-- One thread waits, and the next one to arrive trips the release. -/
theorem automatic_release_counts_pair :
    let s : State Nat := wait pair start 0 5
    s.numberOfWaitingThreads = s.waitQueue.queue.length ∧
      ((wait pair s 1 0).releasing.isSome ↔ s.waitQueue.queue.length + 1 = 2) := by
  have hreach : Reachable pair (wait pair start 0 5 : State Nat) :=
    .tail .refl (.wait _ 0 5 (by decide) rfl)
  have hcounts := (automatic_release_counts rfl hreach rfl).mpr rfl
  exact ⟨hcounts.1, hcounts.2 1 0 (by decide)⟩

/-- After a timeout the barrier counts one thread although none waits, and the
next thread trips the release all alone. -/
theorem automatic_release_counts_timeout :
    ∃ s : State Nat, Reachable pair s ∧ Quiescent s ∧ s.waitQueue.Idle 1 ∧
      s.waitQueue.queue.length = 0 ∧ s.numberOfWaitingThreads = 1 ∧
      (wait pair s 1 0).releasing.isSome ∧ s.waitQueue.queue.length + 1 ≠ pair.maximumCount := by
  refine ⟨threadTimeout (wait pair start 0 5) 0, ?_, rfl, ?_, ?_, ?_, ?_, ?_⟩
  · exact .tail (.tail .refl (.wait _ 0 5 (by decide) rfl)) (.threadTimeout _ 0)
  all_goals decide

end Rtems.CoreBarrier
