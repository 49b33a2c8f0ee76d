import Rtems.ThreadQueue.Waiters

/-!
# SuperCore reader/writer locks

The model of `corerwlock.c`, `corerwlockobtainread.c`, `corerwlockobtainwrite.c`
and `corerwlockrelease.c`.  The callers enter with thread dispatching disabled.
An obtain is one critical section.  A release is not: it marks the lock
unlocked, takes the first waiting thread off the queue, and then counts and
extracts the readers behind it, with interrupts enabled in between.  `Release`
names these points, and at each of them a waiting thread may time out.
-/

namespace Rtems.CoreRWLock

open ThreadQueue

/-- `CORE_RWLock_Status`. -/
inductive Status where
  | successful
  | wasDeleted
  | unavailable
  | timeout
deriving DecidableEq, Repr

/-- `CORE_RWLock_States`. -/
inductive LockState where
  | unlocked
  | lockedForReading
  | lockedForWriting
deriving DecidableEq, Repr

/-- `CORE_RWLOCK_THREAD_WAITING_FOR_READ` and `_FOR_WRITE`. -/
inductive WaitOption where
  | read
  | write
deriving DecidableEq, Repr

/-- Where a `_CORE_RWLock_Release` stands. -/
inductive Release (Tid : Type) where
  /-- No release is under way. -/
  | idle
  /-- The lock is marked unlocked, the dequeue comes next. -/
  | unlocked
  /-- `next` is dequeued, its option is to be read. -/
  | dequeued (next : Tid)
  /-- At the head of the loop. -/
  | first
  /-- The reader `next` is counted, its extract comes next. -/
  | counted (next : Tid)
deriving DecidableEq, Repr

variable {Tid : Type}

/-- `CORE_RWLock_Control`.  `readers`, `writers` and `phantoms` are ghosts: the
threads whose obtains succeeded and that have not released the lock, once for
each obtain, and the waiting readers that a release counted and that timed out
before it extracted them. -/
structure State (Tid : Type) where
  /-- `Wait_queue`. -/
  waitQueue : Waiters Tid Status
  /-- `Wait.option` of the threads. -/
  option : Tid → WaitOption
  currentState : LockState
  numberOfReaders : Nat
  release : Release Tid
  readers : List Tid
  writers : List Tid
  phantoms : Nat

variable [DecidableEq Tid]

/-- The discipline of the wait queue. -/
abbrev fifo : Discipline := .fifo

/-- The wait queue of a lock does not look at priorities. -/
abbrev noPrio : Tid → Priority := fun _ => 0

/-! ## The operations -/

/-- `_CORE_RWLock_Initialize`. -/
def start : State Tid where
  waitQueue := .start .successful
  option := fun _ => .read
  currentState := .unlocked
  numberOfReaders := 0
  release := .idle
  readers := []
  writers := []
  phantoms := 0

/-- The end of both obtains, where the lock is not to be had. -/
def unavailable (s : State Tid) (executing : Tid) (option : WaitOption) (wait : Bool)
    (timeout : Nat) : State Tid :=
  if !wait then
    { s with waitQueue := s.waitQueue.setReturnCode executing .unavailable }
  else
    { s with
      option := Function.update s.option executing option
      waitQueue := (s.waitQueue.setReturnCode executing .successful).enqueueCritical fifo noPrio
        executing (if timeout ≠ 0 then some .timeout else none) }

/-- `_CORE_RWLock_Obtain_for_reading`. -/
def obtainForReading (s : State Tid) (executing : Tid) (wait : Bool) (timeout : Nat) : State Tid :=
  let obtained :=
    { s with
      currentState := .lockedForReading
      numberOfReaders := s.numberOfReaders + 1
      waitQueue := s.waitQueue.setReturnCode executing .successful
      readers := executing :: s.readers }
  match s.currentState with
  | .unlocked => obtained
  | .lockedForReading =>
    match s.waitQueue.firstLocked with
    | none => obtained
    | some _ => unavailable s executing .read wait timeout
  | .lockedForWriting => unavailable s executing .read wait timeout

/-- `_CORE_RWLock_Obtain_for_writing`. -/
def obtainForWriting (s : State Tid) (executing : Tid) (wait : Bool) (timeout : Nat) : State Tid :=
  match s.currentState with
  | .unlocked =>
    { s with
      currentState := .lockedForWriting
      waitQueue := s.waitQueue.setReturnCode executing .successful
      writers := executing :: s.writers }
  | .lockedForReading => unavailable s executing .write wait timeout
  | .lockedForWriting => unavailable s executing .write wait timeout

/-- `_CORE_RWLock_Release` up to the first `_ISR_Enable`. -/
def releaseStart (s : State Tid) (executing : Tid) : State Tid :=
  let unlock := fun (s : State Tid) =>
    { s with
      waitQueue := s.waitQueue.setReturnCode executing .successful
      currentState := .unlocked
      release := .unlocked }
  match s.currentState with
  | .unlocked => { s with waitQueue := s.waitQueue.setReturnCode executing .unavailable }
  | .lockedForReading =>
    let s := { s with numberOfReaders := s.numberOfReaders - 1 }
    if s.numberOfReaders ≠ 0 then s else unlock s
  | .lockedForWriting => unlock s

/-- A reader starts its release. -/
def releaseReader (s : State Tid) (t : Tid) : State Tid :=
  releaseStart { s with readers := s.readers.erase t } t

/-- A writer starts its release. -/
def releaseWriter (s : State Tid) (t : Tid) : State Tid :=
  releaseStart { s with writers := s.writers.erase t } t

/-- `_CORE_RWLock_Release` from one point to the next. -/
def releaseTurn (s : State Tid) : State Tid :=
  match s.release with
  | .idle => s
  | .unlocked =>
    match s.waitQueue.dequeue fifo with
    | (some next, q) => { s with waitQueue := q, release := .dequeued next }
    | (none, _) => { s with release := .idle }
  | .dequeued next =>
    match s.option next with
    | .write => { s with currentState := .lockedForWriting, release := .idle }
    | .read =>
      { s with
        numberOfReaders := s.numberOfReaders + 1
        currentState := .lockedForReading
        release := .first }
  | .first =>
    match s.waitQueue.firstLocked with
    | none => { s with release := .idle }
    | some next =>
      match s.option next with
      | .write => { s with release := .idle }
      | .read =>
        { s with numberOfReaders := s.numberOfReaders + 1, release := .counted next }
  | .counted next => { s with waitQueue := s.waitQueue.extract fifo next, release := .first }

/-- `_Thread_Timeout` of a thread. -/
def threadTimeout (s : State Tid) (t : Tid) : State Tid :=
  let q := s.waitQueue.timeout fifo t
  { s with
    waitQueue := q
    phantoms :=
      if s.release = .counted t ∧ t ∈ s.waitQueue.queue ∧ t ∉ q.queue then s.phantoms + 1
      else s.phantoms }

/-- A released thread returns from its obtain. -/
def complete (s : State Tid) (t : Tid) : State Tid :=
  let s' := { s with waitQueue := s.waitQueue.resume t }
  if s.waitQueue.returnCode t = .successful then
    match s.option t with
    | .read => { s' with readers := t :: s.readers }
    | .write => { s' with writers := t :: s.writers }
  else s'

/-- A step of the lock and its users.  Only holders release, and no thread
enters the lock while a release is under way. -/
inductive Step : State Tid → State Tid → Prop where
  | obtainForReading (s : State Tid) (t : Tid) (wait : Bool) (timeout : Nat)
      (hidle : s.waitQueue.Idle t) (hrel : s.release = .idle) :
      Step s (obtainForReading s t wait timeout)
  | obtainForWriting (s : State Tid) (t : Tid) (wait : Bool) (timeout : Nat)
      (hidle : s.waitQueue.Idle t) (hrel : s.release = .idle) :
      Step s (obtainForWriting s t wait timeout)
  | releaseReader (s : State Tid) (t : Tid) (hidle : s.waitQueue.Idle t)
      (hrel : s.release = .idle) (hholds : t ∈ s.readers) :
      Step s (releaseReader s t)
  | releaseWriter (s : State Tid) (t : Tid) (hidle : s.waitQueue.Idle t)
      (hrel : s.release = .idle) (hholds : t ∈ s.writers) :
      Step s (releaseWriter s t)
  | releaseTurn (s : State Tid) : Step s (releaseTurn s)
  | threadTimeout (s : State Tid) (t : Tid) : Step s (threadTimeout s t)
  | complete (s : State Tid) (t : Tid) (hreleased : t ∈ s.waitQueue.released) :
      Step s (complete s t)

/-- The states of the runs of a lock. -/
def Reachable : State Tid → Prop := Relation.ReflTransGen Step start

/-- No release is under way, and no thread is on its way out of an obtain. -/
def Quiescent (s : State Tid) : Prop := s.release = .idle ∧ s.waitQueue.released = []

/-! ## The accounts -/

/-- The thread was let in with this option. -/
def letIn (option : Tid → WaitOption) (o : WaitOption) (t : Tid) (code : Status) : Bool :=
  decide (option t = o) && decide (code = .successful)

/-- The read holds, those under way to their threads and the phantoms. -/
def reads (s : State Tid) : Nat :=
  s.readers.length + s.waitQueue.releasedCount (letIn s.option .read) + s.phantoms

/-- The write holds, and those under way to their threads. -/
def writes (s : State Tid) : Nat :=
  s.writers.length + s.waitQueue.releasedCount (letIn s.option .write)

/-- The counter and the state of the lock against the holds, at each point of
a release. -/
def Balanced (s : State Tid) : Prop :=
  match s.release with
  | .idle =>
    match s.currentState with
    | .unlocked => s.numberOfReaders = 0 ∧ reads s = 0 ∧ writes s = 0
    | .lockedForReading => s.numberOfReaders = reads s ∧ 0 < reads s ∧ writes s = 0
    | .lockedForWriting => s.numberOfReaders = 0 ∧ reads s = 0 ∧ writes s = 1
  | .unlocked =>
    s.currentState = .unlocked ∧ s.numberOfReaders = 0 ∧ reads s = 0 ∧ writes s = 0
  | .dequeued next =>
    s.currentState = .unlocked ∧ s.numberOfReaders = 0 ∧
      match s.option next with
      | .read => reads s = 1 ∧ writes s = 0
      | .write => reads s = 0 ∧ writes s = 1
  | .first =>
    s.currentState = .lockedForReading ∧ s.numberOfReaders = reads s ∧ 0 < reads s ∧ writes s = 0
  | .counted next =>
    s.currentState = .lockedForReading ∧ 0 < reads s ∧ writes s = 0 ∧ s.option next = .read ∧
      (next ∈ s.waitQueue.queue ∧ s.numberOfReaders = reads s + 1 ∨
        next ∉ s.waitQueue.queue ∧ s.numberOfReaders = reads s)

/-- The invariant of the runs. -/
structure Inv (s : State Tid) : Prop where
  waiters : s.waitQueue.Inv fifo noPrio
  promises : s.waitQueue.Promises .successful
  balanced : Balanced s

variable {s s' : State Tid} {t : Tid}

omit [DecidableEq Tid] in
theorem Inv.start : Inv (start : State Tid) where
  waiters := .start _
  promises := .start
  balanced := ⟨rfl, rfl, rfl⟩

omit [DecidableEq Tid] in
/-- Outside a release the accounts are those of the counter, the state and the
holds. -/
theorem Balanced.of_idle (h : Balanced s) (hrel : s.release = .idle) (hrel' : s'.release = .idle)
    (hstate : s'.currentState = s.currentState) (hnum : s'.numberOfReaders = s.numberOfReaders)
    (hr : reads s' = reads s) (hw : writes s' = writes s) : Balanced s' := by
  unfold Balanced at h ⊢
  rw [hrel] at h
  rw [hrel', hstate, hnum, hr, hw]
  exact h

/-! ## Obtaining the lock -/

/-- The option of a thread that is not released does not matter. -/
theorem releasedCount_letIn_update {w : Waiters Tid Status} {option : Tid → WaitOption}
    {o o' : WaitOption} (ht : t ∉ w.released) :
    w.releasedCount (letIn (Function.update option t o) o') = w.releasedCount (letIn option o') := by
  refine Waiters.releasedCount_congr rfl ?_
  intro u hu
  have hne : u ≠ t := fun e => ht (e ▸ hu)
  unfold letIn
  rw [Function.update_of_ne hne]

theorem Inv.unavailable (h : Inv s) (hidle : s.waitQueue.Idle t) (hrel : s.release = .idle)
    (o : WaitOption) (wait : Bool) (timeout : Nat) :
    Inv (unavailable s t o wait timeout) := by
  have hcount : ∀ (code : Status) (o' : WaitOption),
      (s.waitQueue.setReturnCode t code).releasedCount (letIn s.option o') =
        s.waitQueue.releasedCount (letIn s.option o') :=
    fun code o' => Waiters.releasedCount_setReturnCode hidle.2
  unfold CoreRWLock.unavailable
  split
  next =>
    refine ⟨h.waiters.setReturnCode t _, h.promises.setReturnCode hidle.1 _, ?_⟩
    refine h.balanced.of_idle hrel hrel rfl rfl ?_ ?_
    · unfold reads
      rw [hcount]
    · unfold writes
      rw [hcount]
  next =>
    constructor
    case waiters => exact (h.waiters.setReturnCode t _).enqueueCritical hidle _
    case promises =>
      refine (h.promises.setReturnCode hidle.1 _).enqueueCritical (Waiters.setReturnCode_self ..) ?_
      split <;> exact nofun
    case balanced =>
      have hupdate : ∀ o', ((s.waitQueue.setReturnCode t .successful).enqueueCritical fifo noPrio t
          (if timeout ≠ 0 then some .timeout else none)).releasedCount
            (letIn (Function.update s.option t o) o') =
          s.waitQueue.releasedCount (letIn s.option o') := by
        intro o'
        refine (releasedCount_letIn_update ?_).trans ?_
        · exact hidle.2
        · exact hcount _ o'
      refine h.balanced.of_idle hrel hrel rfl rfl ?_ ?_
      · unfold reads
        rw [hupdate]
      · unfold writes
        rw [hupdate]

theorem Inv.obtainForReading (h : Inv s) (hidle : s.waitQueue.Idle t) (hrel : s.release = .idle)
    (wait : Bool) (timeout : Nat) : Inv (obtainForReading s t wait timeout) := by
  have hb := h.balanced
  unfold Balanced at hb
  rw [hrel] at hb
  have hobtain : s.numberOfReaders = reads s → writes s = 0 →
      Inv { s with
        currentState := .lockedForReading
        numberOfReaders := s.numberOfReaders + 1
        waitQueue := s.waitQueue.setReturnCode t .successful
        readers := t :: s.readers } := by
    intro hn hw
    refine ⟨h.waiters.setReturnCode t _, h.promises.setReturnCode hidle.1 _, ?_⟩
    unfold Balanced reads writes at *
    simp only [hrel, List.length_cons]
    rw [Waiters.releasedCount_setReturnCode hidle.2, Waiters.releasedCount_setReturnCode hidle.2]
    omega
  unfold CoreRWLock.obtainForReading
  cases hstate : s.currentState with
  | unlocked =>
    rw [hstate] at hb
    exact hobtain (by omega) hb.2.2
  | lockedForReading =>
    rw [hstate] at hb
    cases s.waitQueue.firstLocked with
    | none => exact hobtain hb.1 hb.2.2
    | some u => exact h.unavailable hidle hrel .read wait timeout
  | lockedForWriting => exact h.unavailable hidle hrel .read wait timeout

theorem Inv.obtainForWriting (h : Inv s) (hidle : s.waitQueue.Idle t) (hrel : s.release = .idle)
    (wait : Bool) (timeout : Nat) : Inv (obtainForWriting s t wait timeout) := by
  have hb := h.balanced
  unfold Balanced at hb
  rw [hrel] at hb
  unfold CoreRWLock.obtainForWriting
  cases hstate : s.currentState with
  | unlocked =>
    rw [hstate] at hb
    refine ⟨h.waiters.setReturnCode t _, h.promises.setReturnCode hidle.1 _, ?_⟩
    unfold Balanced reads writes at *
    simp only [hrel, List.length_cons]
    rw [Waiters.releasedCount_setReturnCode hidle.2, Waiters.releasedCount_setReturnCode hidle.2]
    omega
  | lockedForReading => exact h.unavailable hidle hrel .write wait timeout
  | lockedForWriting => exact h.unavailable hidle hrel .write wait timeout

/-! ## Releasing the lock -/

/-- The first part of a release, by a thread that has just given up its hold. -/
theorem Inv.releaseStart (hwait : s.waitQueue.Inv fifo noPrio)
    (hprom : s.waitQueue.Promises .successful) (hidle : s.waitQueue.Idle t)
    (hrel : s.release = .idle)
    (hread : s.currentState = .lockedForReading ∧ s.numberOfReaders = reads s + 1 ∧ writes s = 0 ∨
      s.currentState = .lockedForWriting ∧ s.numberOfReaders = 0 ∧ reads s = 0 ∧ writes s = 0) :
    Inv (releaseStart s t) := by
  have hw := hwait.setReturnCode t .successful
  have hp := hprom.setReturnCode hidle.1 .successful
  have hunlock : reads s = 0 → writes s = 0 →
      Inv { s with
        numberOfReaders := 0
        waitQueue := s.waitQueue.setReturnCode t .successful
        currentState := .unlocked
        release := .unlocked } := by
    intro hr hw'
    refine ⟨hw, hp, rfl, rfl, ?_, ?_⟩
    · unfold reads at *
      rw [Waiters.releasedCount_setReturnCode hidle.2]
      exact hr
    · unfold writes at *
      rw [Waiters.releasedCount_setReturnCode hidle.2]
      exact hw'
  unfold CoreRWLock.releaseStart
  rcases hread with ⟨hstate, hn, hwr⟩ | ⟨hstate, hn, hr, hwr⟩
  · rw [hstate]
    simp only
    split
    next hne =>
      refine ⟨hwait, hprom, ?_⟩
      unfold Balanced reads writes at *
      simp only [hrel]
      omega
    next hne =>
      have hzero : s.numberOfReaders - 1 = 0 := Decidable.not_not.mp hne
      rw [hzero]
      exact hunlock (by omega) hwr
  · rw [hstate]
    have hinv := hunlock hr hwr
    rw [← hn] at hinv
    exact hinv

theorem Inv.releaseReader (h : Inv s) (hidle : s.waitQueue.Idle t) (hrel : s.release = .idle)
    (ht : t ∈ s.readers) : Inv (releaseReader s t) := by
  have hlen := List.length_erase_of_mem ht
  have hpos := List.length_pos_of_mem ht
  have hb := h.balanced
  unfold Balanced at hb
  rw [hrel] at hb
  refine .releaseStart h.waiters h.promises hidle hrel ?_
  unfold reads writes at *
  simp only [hlen]
  cases hstate : s.currentState with
  | unlocked =>
    rw [hstate] at hb
    omega
  | lockedForReading =>
    rw [hstate] at hb
    exact .inl ⟨rfl, by omega, hb.2.2⟩
  | lockedForWriting =>
    rw [hstate] at hb
    omega

theorem Inv.releaseWriter (h : Inv s) (hidle : s.waitQueue.Idle t) (hrel : s.release = .idle)
    (ht : t ∈ s.writers) : Inv (releaseWriter s t) := by
  have hlen := List.length_erase_of_mem ht
  have hpos := List.length_pos_of_mem ht
  have hb := h.balanced
  unfold Balanced at hb
  rw [hrel] at hb
  refine .releaseStart h.waiters h.promises hidle hrel ?_
  unfold reads writes at *
  simp only [hlen]
  cases hstate : s.currentState with
  | unlocked =>
    rw [hstate] at hb
    omega
  | lockedForReading =>
    rw [hstate] at hb
    omega
  | lockedForWriting =>
    rw [hstate] at hb
    exact .inr ⟨rfl, hb.1, hb.2.1, by omega⟩

/-- What the release of a waiting thread adds to the holds. -/
theorem releasedCount_letIn_extractCritical (h : Inv s) (ht : t ∈ s.waitQueue.queue)
    (o : WaitOption) :
    (s.waitQueue.extractCritical fifo t).releasedCount (letIn s.option o) =
      s.waitQueue.releasedCount (letIn s.option o) + if s.option t = o then 1 else 0 := by
  rw [Waiters.releasedCount_extractCritical, h.promises.returnCode t ht]
  simp [letIn]

theorem Inv.releaseTurn (h : Inv s) : Inv (releaseTurn s) := by
  have hb := h.balanced
  unfold Balanced at hb
  unfold CoreRWLock.releaseTurn
  cases hrel : s.release with
  | idle => exact h
  | unlocked =>
    rw [hrel] at hb
    obtain ⟨hstate, hn, hr, hw⟩ := hb
    simp only [Waiters.dequeue]
    cases hf : s.waitQueue.firstLocked with
    | none =>
      refine ⟨h.waiters, h.promises, ?_⟩
      unfold Balanced
      simp only [hstate]
      exact ⟨hn, hr, hw⟩
    | some next =>
      have ht : next ∈ s.waitQueue.queue := List.mem_of_mem_head? hf
      refine ⟨h.waiters.extractCritical ht, h.promises.extractCritical next, hstate, hn, ?_⟩
      unfold reads writes at *
      simp only [releasedCount_letIn_extractCritical h ht]
      cases ho : s.option next with
      | read =>
        simp only [if_true, reduceCtorEq, if_false]
        omega
      | write =>
        simp only [if_true, reduceCtorEq, if_false]
        omega
  | dequeued next =>
    rw [hrel] at hb
    obtain ⟨hstate, hn, hopt⟩ := hb
    simp only
    cases ho : s.option next with
    | write =>
      rw [ho] at hopt
      refine ⟨h.waiters, h.promises, ?_⟩
      unfold Balanced reads writes at *
      exact ⟨hn, hopt.1, hopt.2⟩
    | read =>
      rw [ho] at hopt
      refine ⟨h.waiters, h.promises, rfl, ?_, ?_, hopt.2⟩
      · show s.numberOfReaders + 1 = reads s
        rw [hn, hopt.1]
      · show 0 < reads s
        rw [hopt.1]
        exact Nat.one_pos
  | first =>
    rw [hrel] at hb
    obtain ⟨hstate, hn, hpos, hw⟩ := hb
    have hidle : Inv { s with release := .idle } := by
      refine ⟨h.waiters, h.promises, ?_⟩
      unfold Balanced
      simp only [hstate]
      exact ⟨hn, hpos, hw⟩
    simp only
    cases hf : s.waitQueue.firstLocked with
    | none => exact hidle
    | some next =>
      cases ho : s.option next with
      | write =>
        simp only [ho]
        exact hidle
      | read =>
        simp only [ho]
        refine ⟨h.waiters, h.promises, hstate, hpos, hw, ho, .inl ⟨?_, ?_⟩⟩
        · exact List.mem_of_mem_head? hf
        · show s.numberOfReaders + 1 = reads s + 1
          rw [hn]
  | counted next =>
    rw [hrel] at hb
    obtain ⟨hstate, hpos, hw, ho, hcase⟩ := hb
    simp only [Waiters.extract]
    rcases hcase with ⟨ht, hn⟩ | ⟨ht, hn⟩
    · rw [if_pos ht]
      refine ⟨h.waiters.extractCritical ht, h.promises.extractCritical next, hstate, ?_⟩
      unfold reads writes at *
      simp only [releasedCount_letIn_extractCritical h ht, ho, if_true, reduceCtorEq, if_false]
      omega
    · rw [if_neg ht]
      exact ⟨h.waiters, h.promises, hstate, hn, hpos, hw⟩

/-! ## Timeouts and returns -/

/-- A timeout moves no hold, but a reader that is counted already becomes a
phantom. -/
theorem Inv.threadTimeout (h : Inv s) (t : Tid) : Inv (threadTimeout s t) := by
  have hb := h.balanced
  unfold CoreRWLock.threadTimeout
  rcases Waiters.timeout_cases fifo s.waitQueue t with e | ⟨code, ht, hcode, e⟩
  · rw [e]
    simp only [and_not_self, and_false, if_false]
    exact h
  · have hne : code ≠ .successful := by
      rintro rfl
      exact h.promises.timeoutCode t ht hcode
    have hcount : ∀ o, ((s.waitQueue.setReturnCode t code).extractCritical fifo t).releasedCount
        (letIn s.option o) = s.waitQueue.releasedCount (letIn s.option o) := by
      intro o
      rw [Waiters.releasedCount_expel (h.waiters.not_mem_released ht)]
      simp [letIn, hne]
    have hgone : t ∉ ((s.waitQueue.setReturnCode t code).extractCritical fifo t).queue := by
      rw [Waiters.extractCritical_queue]
      exact h.waiters.queue_nodup.not_mem_erase
    rw [e]
    refine ⟨(h.waiters.setReturnCode t code).extractCritical ht,
      h.promises.expel h.waiters.queue_nodup t code, ?_⟩
    unfold Balanced reads writes at *
    simp only [hcount, ht, hgone, not_false_eq_true, and_self, and_true]
    cases hrel : s.release with
    | idle =>
      rw [hrel] at hb
      exact hb
    | unlocked =>
      rw [hrel] at hb
      exact hb
    | dequeued next =>
      rw [hrel] at hb
      exact hb
    | first =>
      rw [hrel] at hb
      exact hb
    | counted next =>
      rw [hrel] at hb
      obtain ⟨hstate, hpos, hw, ho, hcase⟩ := hb
      rcases eq_or_ne next t with rfl | hnt
      · have hn := (hcase.resolve_right fun hc => hc.1 ht).2
        simp only [if_true]
        exact ⟨hstate, by omega, hw, ho, .inr ⟨hgone, by omega⟩⟩
      · have hmem : next ∈ ((s.waitQueue.setReturnCode t code).extractCritical fifo t).queue ↔
            next ∈ s.waitQueue.queue := by
          rw [Waiters.extractCritical_queue]
          exact List.mem_erase_of_ne hnt
        have hrne : Release.counted next ≠ Release.counted t := by
          intro hc
          exact hnt (Release.counted.inj hc)
        simp only [hmem, hrne, if_false]
        exact ⟨hstate, hpos, hw, ho, hcase⟩

theorem Inv.complete (h : Inv s) (ht : t ∈ s.waitQueue.released) : Inv (complete s t) := by
  have hb := h.balanced
  have hwait := h.waiters.resume t
  have hprom : (s.waitQueue.resume t).Promises .successful :=
    ⟨h.promises.returnCode, h.promises.timeoutCode⟩
  have hcount : ∀ o, s.waitQueue.releasedCount (letIn s.option o) =
      (s.waitQueue.resume t).releasedCount (letIn s.option o) +
        if letIn s.option o t (s.waitQueue.returnCode t) then 1 else 0 :=
    fun o => Waiters.releasedCount_resume ht
  have hr := hcount .read
  have hw := hcount .write
  -- the holds stay as they are, so the accounts do too
  have hkeep : ∀ readers writers,
      readers.length + (s.waitQueue.resume t).releasedCount (letIn s.option .read) + s.phantoms =
        reads s →
      writers.length + (s.waitQueue.resume t).releasedCount (letIn s.option .write) = writes s →
      Inv { s with waitQueue := s.waitQueue.resume t, readers := readers, writers := writers } := by
    intro readers writers hreads hwrites
    refine ⟨hwait, hprom, ?_⟩
    unfold Balanced at hb ⊢
    unfold reads writes at *
    simp only [hreads, hwrites]
    exact hb
  unfold CoreRWLock.complete
  simp only
  split
  next hcode =>
    cases ho : s.option t with
    | read =>
      simp only [letIn, ho, hcode, decide_true, Bool.and_self, if_true, reduceCtorEq, decide_false,
        Bool.false_and, Bool.false_eq_true, if_false] at hr hw
      refine hkeep (t :: s.readers) s.writers ?_ ?_
      · unfold reads
        rw [List.length_cons]
        omega
      · unfold writes
        omega
    | write =>
      simp only [letIn, ho, hcode, decide_true, Bool.and_self, if_true, reduceCtorEq, decide_false,
        Bool.false_and, Bool.false_eq_true, if_false] at hr hw
      refine hkeep s.readers (t :: s.writers) ?_ ?_
      · unfold reads
        omega
      · unfold writes
        rw [List.length_cons]
        omega
  next hcode =>
    simp only [letIn, hcode, decide_false, Bool.and_false, Bool.false_eq_true, if_false] at hr hw
    refine hkeep s.readers s.writers ?_ ?_
    · unfold reads
      omega
    · unfold writes
      omega

/-! ## Runs -/

theorem Inv.step (h : Inv s) (hstep : Step s s') : Inv s' := by
  cases hstep with
  | obtainForReading t wait timeout hidle hrel => exact h.obtainForReading hidle hrel wait timeout
  | obtainForWriting t wait timeout hidle hrel => exact h.obtainForWriting hidle hrel wait timeout
  | releaseReader t hidle hrel ht => exact h.releaseReader hidle hrel ht
  | releaseWriter t hidle hrel ht => exact h.releaseWriter hidle hrel ht
  | releaseTurn => exact h.releaseTurn
  | threadTimeout t => exact h.threadTimeout t
  | complete t ht => exact h.complete ht

theorem Reachable.inv (h : Reachable s) : Inv s :=
  Reach.invariant h .start fun _ _ hi hs => hi.step hs

/-- In a quiescent state the lock counts its readers, and is unlocked when
nobody holds it, if and only if no waiting reader has ever timed out between
the moment a release counted it and the moment that release extracted it. -/
theorem rwlock_accounting (h : Reachable s) (hquiet : Quiescent s) :
    (s.numberOfReaders = s.readers.length ∧
      (s.readers = [] → s.writers = [] → s.currentState = .unlocked)) ↔ s.phantoms = 0 := by
  obtain ⟨hrel, hnone⟩ := hquiet
  have hb := h.inv.balanced
  unfold Balanced reads writes at hb
  simp only [hrel, Waiters.releasedCount_nil hnone, Nat.add_zero] at hb
  cases hstate : s.currentState with
  | unlocked =>
    rw [hstate] at hb
    obtain ⟨hn, hr, -⟩ := hb
    exact ⟨fun _ => by omega, fun _ => ⟨by omega, fun _ _ => rfl⟩⟩
  | lockedForReading =>
    rw [hstate] at hb
    obtain ⟨hn, hpos, -⟩ := hb
    constructor
    · rintro ⟨heq, -⟩
      omega
    · intro hz
      refine ⟨by omega, ?_⟩
      intro hnil
      rw [hnil, hz] at hpos
      exact absurd hpos (Nat.lt_irrefl 0)
  | lockedForWriting =>
    rw [hstate] at hb
    obtain ⟨hn, hr, hw⟩ := hb
    constructor
    · intro _
      omega
    · intro _
      refine ⟨by omega, ?_⟩
      intro _ hnil
      rw [hnil] at hw
      cases hw

theorem Reachable.releaseTurns (h : Reachable s) (n : Nat) : Reachable (releaseTurn^[n] s) := by
  induction n with
  | zero => exact h
  | succ n ih =>
    rw [Function.iterate_succ_apply']
    exact .tail ih (.releaseTurn _)

/-- Two readers wait behind a writer that has just started its release. -/
def writerLeaves : State Nat :=
  releaseWriter (obtainForReading (obtainForReading (obtainForWriting start 0 true 0) 1 true 9)
    2 true 9) 0

theorem reachable_writerLeaves : Reachable writerLeaves := by
  refine .tail ?_ (.releaseWriter _ 0 (by decide) rfl (by decide))
  exact .tail (.tail (.tail .refl (.obtainForWriting _ 0 true 0 (by decide) rfl))
    (.obtainForReading _ 1 true 9 (by decide) rfl)) (.obtainForReading _ 2 true 9 (by decide) rfl)

/-- The release lets both of them in. -/
theorem rwlock_accounting_readers :
    let s := complete (complete (releaseTurn^[5] writerLeaves) 1) 2
    s.readers = [2, 1] ∧ s.numberOfReaders = s.readers.length := by
  refine ⟨by decide, ?_⟩
  refine ((rwlock_accounting ?_ ⟨by decide, by decide⟩).mpr (by decide)).1
  exact .tail (.tail (reachable_writerLeaves.releaseTurns 5) (.complete _ 1 (by decide)))
    (.complete _ 2 (by decide))

/-- The second reader times out after the release counted it, and both come
back from their obtains. -/
def readerTimesOut : State Nat :=
  complete (complete (releaseTurn^[2] (threadTimeout (releaseTurn^[3] writerLeaves) 2)) 1) 2

theorem reachable_readerTimesOut : Reachable readerTimesOut := by
  have hcounted := reachable_writerLeaves.releaseTurns 3
  have hexpired : Reachable (threadTimeout (releaseTurn^[3] writerLeaves) 2) :=
    .tail hcounted (.threadTimeout _ 2)
  exact .tail (.tail (hexpired.releaseTurns 2) (.complete _ 1 (by decide)))
    (.complete _ 2 (by decide))

/-- When the first reader has released the lock nobody holds it, and yet it
stays locked for reading. -/
theorem rwlock_accounting_phantom :
    ∃ s : State Nat, Reachable s ∧ Quiescent s ∧ s.readers = [] ∧ s.writers = [] ∧
      s.numberOfReaders = 1 ∧ s.currentState = .lockedForReading := by
  refine ⟨releaseReader readerTimesOut 1, ?_, ⟨by decide, by decide⟩, by decide, by decide,
    by decide, by decide⟩
  exact .tail reachable_readerTimesOut (.releaseReader _ 1 (by decide) (by decide) (by decide))

end Rtems.CoreRWLock
