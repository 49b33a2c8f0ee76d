import Rtems.ThreadQueue.Waiters

/-!
# SuperCore semaphores

The model of `coresem.c` and `coresemimpl.h`: counting semaphores, which hand a
surrendered unit to the first waiting thread or add it to their count.  Threads
seize and surrender in any order, the timeouts of waiting threads strike at any
point between their critical sections, and a flush takes the lock anew for each
thread it extracts.
-/

namespace Rtems.CoreSemaphore

open ThreadQueue

/-- `CORE_semaphore_Status`. -/
inductive Status where
  | successful
  | unsatisfiedNowait
  | wasDeleted
  | timeout
  | maximumCountExceeded
  /-- Another value of the `uint32_t` status of a flush, such as the -1 of
  `_POSIX_Semaphore_Delete`. -/
  | other (code : Nat)
deriving DecidableEq, Repr

variable {Tid : Type}

/-- `CORE_semaphore_Attributes`, and the priorities of the threads. -/
structure Config (Tid : Type) where
  /-- `Attributes.maximum_count`. -/
  maximumCount : Nat
  /-- `Attributes.discipline`. -/
  discipline : Discipline
  prio : Tid → Priority

/-- `CORE_semaphore_Control`.  `surrenders` and `seizes` are ghosts: how many
surrenders returned `SUCCESSFUL` and how many seizes completed with it. -/
structure State (Tid : Type) where
  /-- `Wait_queue`. -/
  waitQueue : Waiters Tid Status
  count : Nat
  surrenders : Nat
  seizes : Nat

variable [DecidableEq Tid]

/-! ## The operations -/

/-- `_CORE_semaphore_Initialize`. -/
def start (initialValue : Nat) : State Tid where
  waitQueue := .start .successful
  count := initialValue
  surrenders := 0
  seizes := 0

/-- `_CORE_semaphore_Seize`.  `timeout` is the interval, zero for
`WATCHDOG_NO_TIMEOUT`.  A seize that does not enqueue its thread completes here. -/
def seize (cfg : Config Tid) (s : State Tid) (executing : Tid) (wait : Bool) (timeout : Nat) :
    State Tid :=
  let q := s.waitQueue.setReturnCode executing .successful
  if s.count ≠ 0 then
    { s with waitQueue := q, count := s.count - 1, seizes := s.seizes + 1 }
  else if !wait then
    { s with waitQueue := q.setReturnCode executing .unsatisfiedNowait }
  else
    { s with
      waitQueue := q.enqueueCritical cfg.discipline cfg.prio executing
        (if timeout ≠ 0 then some .timeout else none) }

/-- `_CORE_semaphore_Surrender`. -/
def surrender (cfg : Config Tid) (s : State Tid) : Status × State Tid :=
  match s.waitQueue.firstLocked with
  | some theThread =>
    (.successful,
      { s with
        waitQueue := s.waitQueue.extractCritical cfg.discipline theThread
        surrenders := s.surrenders + 1 })
  | none =>
    if s.count < cfg.maximumCount then
      (.successful, { s with count := s.count + 1, surrenders := s.surrenders + 1 })
    else
      (.maximumCountExceeded, s)

/-- One turn of `_CORE_semaphore_Flush`. -/
def flushTurn (cfg : Config Tid) (s : State Tid) (status : Status) : State Tid :=
  { s with waitQueue := s.waitQueue.flushTurn cfg.discipline status }

/-- `_Thread_Timeout` of a thread. -/
def threadTimeout (cfg : Config Tid) (s : State Tid) (t : Tid) : State Tid :=
  { s with waitQueue := s.waitQueue.timeout cfg.discipline t }

/-- A released thread completes its seize. -/
def complete (s : State Tid) (t : Tid) : State Tid :=
  { s with
    waitQueue := s.waitQueue.resume t
    seizes := if s.waitQueue.returnCode t = .successful then s.seizes + 1 else s.seizes }

/-- A step of the semaphore and its users.  A thread that seizes is in no other
call, and no caller flushes with `SUCCESSFUL`. -/
inductive Step (cfg : Config Tid) : State Tid → State Tid → Prop where
  | seize (s : State Tid) (executing : Tid) (wait : Bool) (timeout : Nat)
      (hidle : s.waitQueue.Idle executing) :
      Step cfg s (seize cfg s executing wait timeout)
  | surrender (s : State Tid) : Step cfg s (surrender cfg s).2
  | flushTurn (s : State Tid) (status : Status) (hstatus : status ≠ .successful) :
      Step cfg s (flushTurn cfg s status)
  | threadTimeout (s : State Tid) (t : Tid) : Step cfg s (threadTimeout cfg s t)
  | complete (s : State Tid) (t : Tid) (hreleased : t ∈ s.waitQueue.released) :
      Step cfg s (complete s t)

/-- The states of the runs that start with `initialValue` units. -/
def Reachable (cfg : Config Tid) (initialValue : Nat) : State Tid → Prop :=
  Relation.ReflTransGen (Step cfg) (start initialValue)

/-- No thread is on its way out of a seize. -/
def Quiescent (s : State Tid) : Prop := s.waitQueue.released = []

/-! ## Conservation -/

/-- The released threads that have a unit. -/
def granted (w : Waiters Tid Status) : Nat := w.releasedCount fun _ code => code = .successful

/-- The invariant of the runs. -/
structure Inv (cfg : Config Tid) (initialValue : Nat) (s : State Tid) : Prop where
  waiters : s.waitQueue.Inv cfg.discipline cfg.prio
  promises : s.waitQueue.Promises .successful
  conserved : initialValue + s.surrenders = s.count + s.seizes + granted s.waitQueue
  noUnit : 0 < s.count → s.waitQueue.queue = []
  bounded : s.count ≤ cfg.maximumCount

variable {cfg : Config Tid} {initialValue : Nat} {s s' : State Tid} {t : Tid}

omit [DecidableEq Tid] in
theorem Inv.start (h : initialValue ≤ cfg.maximumCount) :
    Inv cfg initialValue (start initialValue : State Tid) where
  waiters := .start _
  promises := .start
  conserved := rfl
  noUnit := fun _ => rfl
  bounded := h

/-- A waiting thread leaves the queue with a status that is not `SUCCESSFUL`:
no unit moves. -/
theorem Inv.expel (h : Inv cfg initialValue s) (ht : t ∈ s.waitQueue.queue) {status : Status}
    (hs : status ≠ .successful) :
    Inv cfg initialValue
      { s with
        waitQueue := (s.waitQueue.setReturnCode t status).extractCritical cfg.discipline t } := by
  constructor
  case waiters => exact (h.waiters.setReturnCode t status).extractCritical ht
  case promises => exact h.promises.expel h.waiters.queue_nodup t status
  case conserved =>
    rw [h.conserved]
    congr 1
    unfold granted
    rw [Waiters.releasedCount_expel (h.waiters.not_mem_released ht)]
    simp [hs]
  case noUnit =>
    intro hc
    rw [h.noUnit hc] at ht
    exact absurd ht List.not_mem_nil
  case bounded => exact h.bounded

theorem Inv.seize (h : Inv cfg initialValue s) (hidle : s.waitQueue.Idle t) (wait : Bool)
    (timeout : Nat) : Inv cfg initialValue (seize cfg s t wait timeout) := by
  have hw : ∀ code, (s.waitQueue.setReturnCode t code).Inv cfg.discipline cfg.prio :=
    fun code => h.waiters.setReturnCode t code
  have hp : ∀ code, (s.waitQueue.setReturnCode t code).Promises .successful :=
    fun code => h.promises.setReturnCode hidle.1 code
  have hg : ∀ code, granted (s.waitQueue.setReturnCode t code) = granted s.waitQueue :=
    fun code => Waiters.releasedCount_setReturnCode hidle.2
  unfold CoreSemaphore.seize
  split
  next hcount =>
    refine ⟨hw _, hp _, ?_, ?_, ?_⟩
    · have hc := h.conserved
      show initialValue + s.surrenders = s.count - 1 + (s.seizes + 1) + granted _
      rw [hg]
      omega
    · intro _
      exact h.noUnit (Nat.pos_of_ne_zero hcount)
    · exact Nat.le_trans (Nat.sub_le _ _) h.bounded
  next hcount =>
    have hzero : s.count = 0 := Decidable.not_not.mp hcount
    split
    · have hset : (s.waitQueue.setReturnCode t .successful).setReturnCode t .unsatisfiedNowait =
          s.waitQueue.setReturnCode t .unsatisfiedNowait := by
        simp [Waiters.setReturnCode]
      simp only
      rw [hset]
      refine ⟨hw _, hp _, ?_, h.noUnit, h.bounded⟩
      rw [h.conserved]
      congr 1
      exact (hg _).symm
    · constructor
      case waiters => exact (hw _).enqueueCritical hidle _
      case promises =>
        refine (hp _).enqueueCritical ?_ ?_
        · exact Function.update_self ..
        · split <;> exact nofun
      case conserved =>
        rw [h.conserved]
        congr 1
        exact (hg _).symm
      case noUnit =>
        intro hc
        exact absurd hc (by simp [hzero])
      case bounded => exact h.bounded

/-- A surrender with waiters gives the unit to the first of them. -/
theorem surrender_waiting {q : List Tid} (hq : s.waitQueue.queue = t :: q) :
    surrender cfg s = (.successful,
      { s with
        waitQueue := s.waitQueue.extractCritical cfg.discipline t
        surrenders := s.surrenders + 1 }) := by
  unfold surrender
  rw [Waiters.firstLocked_eq_some.mpr ⟨q, hq⟩]

theorem Inv.surrender (h : Inv cfg initialValue s) : Inv cfg initialValue (surrender cfg s).2 := by
  cases hq : s.waitQueue.queue with
  | cons t q =>
    have ht : t ∈ s.waitQueue.queue := by
      rw [hq]
      exact List.mem_cons_self
    rw [surrender_waiting hq]
    constructor
    case waiters => exact h.waiters.extractCritical ht
    case promises => exact h.promises.extractCritical t
    case conserved =>
      have hc := h.conserved
      have hg : granted (s.waitQueue.extractCritical cfg.discipline t) =
          granted s.waitQueue + 1 := by
        unfold granted
        rw [Waiters.releasedCount_extractCritical, h.promises.returnCode t ht]
        rfl
      show initialValue + (s.surrenders + 1) = s.count + s.seizes + granted _
      rw [hg]
      omega
    case noUnit =>
      intro hc
      rw [h.noUnit hc] at hq
      cases hq
    case bounded => exact h.bounded
  | nil =>
    unfold CoreSemaphore.surrender
    rw [Waiters.firstLocked_eq_none.mpr hq]
    simp only
    split
    next hlt =>
      refine ⟨h.waiters, h.promises, ?_, fun _ => hq, hlt⟩
      have hc := h.conserved
      show initialValue + (s.surrenders + 1) = s.count + 1 + s.seizes + granted s.waitQueue
      omega
    next => exact h

theorem Inv.flushTurn (h : Inv cfg initialValue s) {status : Status}
    (hs : status ≠ .successful) : Inv cfg initialValue (flushTurn cfg s status) := by
  unfold CoreSemaphore.flushTurn
  rcases Waiters.flushTurn_cases cfg.discipline s.waitQueue status with e | ⟨t, ht, e⟩
  · rw [e]
    exact h
  · rw [e]
    exact h.expel ht hs

theorem Inv.threadTimeout (h : Inv cfg initialValue s) (t : Tid) :
    Inv cfg initialValue (threadTimeout cfg s t) := by
  unfold CoreSemaphore.threadTimeout
  rcases Waiters.timeout_cases cfg.discipline s.waitQueue t with e | ⟨code, ht, hcode, e⟩
  · rw [e]
    exact h
  · rw [e]
    refine h.expel ht ?_
    rintro rfl
    exact h.promises.timeoutCode t ht hcode

theorem Inv.complete (h : Inv cfg initialValue s) (ht : t ∈ s.waitQueue.released) :
    Inv cfg initialValue (complete s t) := by
  refine ⟨h.waiters.resume t, ⟨h.promises.returnCode, h.promises.timeoutCode⟩, ?_, h.noUnit,
    h.bounded⟩
  have hc := h.conserved
  have hg : granted s.waitQueue = granted (s.waitQueue.resume t) +
      if decide (s.waitQueue.returnCode t = .successful) then 1 else 0 :=
    Waiters.releasedCount_resume ht
  show initialValue + s.surrenders = s.count +
    (if s.waitQueue.returnCode t = .successful then s.seizes + 1 else s.seizes) +
    granted (s.waitQueue.resume t)
  rw [hg] at hc
  cases hcode : decide (s.waitQueue.returnCode t = .successful) with
  | true =>
    rw [if_pos (of_decide_eq_true hcode)]
    rw [hcode, if_pos rfl] at hc
    omega
  | false =>
    rw [if_neg (of_decide_eq_false hcode)]
    rw [hcode, if_neg Bool.false_ne_true] at hc
    omega

theorem Inv.step (h : Inv cfg initialValue s) (hstep : Step cfg s s') :
    Inv cfg initialValue s' := by
  cases hstep with
  | seize t wait timeout hidle => exact h.seize hidle wait timeout
  | surrender => exact h.surrender
  | flushTurn status hs => exact h.flushTurn hs
  | threadTimeout t => exact h.threadTimeout t
  | complete t ht => exact h.complete ht

theorem Reachable.inv (hv : initialValue ≤ cfg.maximumCount) (h : Reachable cfg initialValue s) :
    Inv cfg initialValue s :=
  Reach.invariant h (.start hv) fun _ _ hi hs => hi.step hs

/-- Units are neither lost nor made.  Once every released thread is back, the
initial units and those surrendered are those of the count and those seized; no
thread waits while there are units; the count stays within its maximum; and a
surrender with waiters leaves the count alone and gives its unit to the thread
that the discipline serves first. -/
theorem semaphore_conservation (hv : initialValue ≤ cfg.maximumCount)
    (h : Reachable cfg initialValue s) :
    (Quiescent s → initialValue + s.surrenders = s.count + s.seizes) ∧
      (0 < s.count → s.waitQueue.queue = []) ∧
      s.count ≤ cfg.maximumCount ∧
      ∀ t q, s.waitQueue.queue = t :: q →
        (∀ u ∈ q, cfg.discipline.Before cfg.prio s.waitQueue t u) ∧
          (surrender cfg s).1 = .successful ∧
          (surrender cfg s).2.count = s.count ∧
          (surrender cfg s).2.waitQueue.queue = q ∧
          (surrender cfg s).2.waitQueue.released = t :: s.waitQueue.released ∧
          (surrender cfg s).2.waitQueue.returnCode t = .successful := by
  have hinv := h.inv hv
  refine ⟨?_, hinv.noUnit, hinv.bounded, ?_⟩
  · intro hquiet
    have hc := hinv.conserved
    have hg : granted s.waitQueue = 0 := Waiters.releasedCount_nil hquiet
    omega
  · intro t q hq
    rw [surrender_waiting hq]
    refine ⟨hinv.waiters.before_first hq, rfl, rfl, ?_, rfl, ?_⟩
    · rw [Waiters.extractCritical_queue, hq, List.erase_cons_head]
    · refine hinv.promises.returnCode t ?_
      rw [hq]
      exact List.mem_cons_self

/-- One unit, two threads that seize it, and a surrender that serves the
second. -/
theorem semaphore_conservation_handoff :
    let cfg : Config Nat := { maximumCount := 5, discipline := .priority, prio := fun t => t }
    let waiting := seize cfg (seize cfg (start 1) 0 true 0) 1 true 7
    let s := complete (surrender cfg waiting).2 1
    waiting.waitQueue.queue = [1] ∧ s.seizes = 2 ∧ 1 + s.surrenders = s.count + s.seizes := by
  refine ⟨by decide, by decide, ?_⟩
  refine (semaphore_conservation ?_ (.tail (.tail (.tail (.tail .refl
    (.seize _ 0 true 0 ?_)) (.seize _ 1 true 7 ?_)) (.surrender _)) (.complete _ 1 ?_))).1 rfl
  all_goals decide

end Rtems.CoreSemaphore
