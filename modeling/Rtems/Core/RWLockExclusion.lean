import Rtems.Core.RWLock

/-!
# Who holds a reader/writer lock

A hold passes to a waiting thread inside the release, before the thread itself
runs again.  So a thread counts as granted the lock from the moment it leaves
the wait queue with success.  The release sets the mode of the lock one critical
section later, and `writeHolds` leaves out the thread whose mode it has still
to set.
-/

namespace Rtems.CoreRWLock

open ThreadQueue

section

variable {Tid : Type}

/-- The threads whose obtains have returned with success, and that have not
released the lock. -/
def holders (s : State Tid) : WaitOption → List Tid
  | .read => s.readers
  | .write => s.writers

/-- The holders, and the threads on their way out of an obtain that succeeds. -/
def granted (s : State Tid) (o : WaitOption) : List Tid :=
  holders s o ++
    s.waitQueue.released.filter fun t => letIn s.option o t (s.waitQueue.returnCode t)

/-- A run of the lock in which `w` waits in every state. -/
inductive WhileQueued [DecidableEq Tid] (w : Tid) : State Tid → State Tid → Prop where
  | refl (s : State Tid) (hw : w ∈ s.waitQueue.queue) : WhileQueued w s s
  | tail {s s' s'' : State Tid} (hrun : WhileQueued w s s') (hstep : Step s' s'')
      (hw : w ∈ s''.waitQueue.queue) : WhileQueued w s s''

end

variable {Tid : Type} [DecidableEq Tid]

/-- The threads that hold the lock for writing. -/
def writeHolds (s : State Tid) : List Tid :=
  match s.release with
  | .dequeued next => (granted s .write).erase next
  | _ => granted s .write

variable {s s' : State Tid} {t r w : Tid} {o : WaitOption}

/-! ## Counting the grants -/

/-- The thread `t` was let in with this option. -/
def letInAs (option : Tid → WaitOption) (o : WaitOption) (t u : Tid) (code : Status) : Bool :=
  u == t && letIn option o u code

theorem count_granted : (granted s o).count t =
    (holders s o).count t + s.waitQueue.releasedCount (letInAs s.option o t) := by
  unfold granted
  rw [List.count_append]
  congr 1
  exact List.countP_filter

omit [DecidableEq Tid] in
theorem length_granted_read : (granted s .read).length + s.phantoms = reads s := by
  unfold granted reads Waiters.releasedCount
  rw [List.length_append, ← List.countP_eq_length_filter]
  rfl

omit [DecidableEq Tid] in
theorem length_granted_write : (granted s .write).length = writes s := by
  unfold granted writes Waiters.releasedCount
  rw [List.length_append, ← List.countP_eq_length_filter]
  rfl

theorem count_granted_unavailable (hidle : s.waitQueue.Idle t) (o' : WaitOption) (wait : Bool)
    (timeout : Nat) :
    (granted (unavailable s t o' wait timeout) o).count r = (granted s o).count r := by
  rw [count_granted, count_granted]
  unfold unavailable
  split
  next => exact congrArg _ (Waiters.releasedCount_setReturnCode hidle.2)
  next =>
    refine congrArg _ (Waiters.releasedCount_congr rfl ?_)
    intro u hu
    have hne : u ≠ t := fun e => hidle.2 (e ▸ hu)
    have hoption : Function.update s.option t o' u = s.option u := Function.update_of_ne hne ..
    have hcode : (s.waitQueue.setReturnCode t .successful).returnCode u = s.waitQueue.returnCode u :=
      Waiters.setReturnCode_of_ne _ hne _
    simp only [letInAs, letIn, hoption, Waiters.enqueueCritical_returnCode, hcode]

theorem count_granted_releaseStart (hidle : s.waitQueue.Idle t) :
    (granted (releaseStart s t) o).count r = (granted s o).count r := by
  rw [count_granted, count_granted]
  have hset : (s.waitQueue.setReturnCode t .successful).releasedCount (letInAs s.option o r) =
      s.waitQueue.releasedCount (letInAs s.option o r) :=
    Waiters.releasedCount_setReturnCode hidle.2
  unfold releaseStart
  cases s.currentState with
  | unlocked => exact congrArg _ (Waiters.releasedCount_setReturnCode hidle.2)
  | lockedForReading =>
    simp only
    split
    next => rfl
    next => exact congrArg _ hset
  | lockedForWriting => exact congrArg _ hset

/-- A thread that the release takes off the queue is granted the lock. -/
theorem releasedCount_letInAs_extractCritical (h : Inv s) (ht : t ∈ s.waitQueue.queue) :
    (s.waitQueue.extractCritical fifo t).releasedCount (letInAs s.option o r) =
      s.waitQueue.releasedCount (letInAs s.option o r) +
        if t = r ∧ s.option t = o then 1 else 0 := by
  rw [Waiters.releasedCount_extractCritical, h.promises.returnCode t ht]
  simp [letInAs, letIn]

/-- A timeout grants nothing. -/
theorem count_granted_threadTimeout (h : Inv s) (t : Tid) :
    (granted (threadTimeout s t) o).count r = (granted s o).count r := by
  rw [count_granted, count_granted]
  unfold threadTimeout
  refine congrArg _ ?_
  rcases Waiters.timeout_cases fifo s.waitQueue t with e | ⟨code, ht, hcode, e⟩
  · rw [e]
  · have hne : code ≠ .successful := by
      rintro rfl
      exact h.promises.timeoutCode t ht hcode
    rw [e, Waiters.releasedCount_expel (h.waiters.not_mem_released ht)]
    simp [letInAs, letIn, hne]

/-- A thread that returns keeps what it was granted. -/
theorem count_granted_complete (ht : t ∈ s.waitQueue.released) :
    (granted (complete s t) o).count r = (granted s o).count r := by
  rw [count_granted, count_granted, Waiters.releasedCount_resume ht]
  unfold complete
  simp only
  split
  next hcode =>
    cases ho : s.option t with
    | read =>
      cases o with
      | read =>
        simp only [holders, letInAs, letIn, ho, hcode, List.count_cons]
        simp
        omega
      | write => simp [holders, letInAs, letIn, ho]
    | write =>
      cases o with
      | read => simp [holders, letInAs, letIn, ho]
      | write =>
        simp only [holders, letInAs, letIn, ho, hcode, List.count_cons]
        simp
        omega
  next hcode =>
    simp only [letInAs, letIn, hcode, decide_false, Bool.and_false, Bool.false_eq_true, if_false]
    cases o <;> rfl

/-! ## The hand-over -/

/-- What holds besides the accounts: the thread that a release has dequeued is
granted the lock, and a lock that nobody is about to release is unlocked only
when nobody waits. -/
structure HandOver (s : State Tid) : Prop where
  taken : ∀ next, s.release = .dequeued next → next ∈ granted s (s.option next)
  served : s.release = .idle → s.currentState = .unlocked → s.waitQueue.queue = []

omit [DecidableEq Tid] in
theorem HandOver.start : HandOver (start : State Tid) where
  taken := by
    intro next h
    cases h
  served := fun _ _ => rfl

omit [DecidableEq Tid] in
/-- Outside a release only the mode matters. -/
theorem HandOver.of_idle (hrel : s.release = .idle)
    (hserved : s.currentState = .unlocked → s.waitQueue.queue = []) : HandOver s where
  taken := by
    intro next h
    rw [hrel] at h
    cases h
  served := fun _ => hserved

omit [DecidableEq Tid] in
/-- In the middle of a release, but not just after the dequeue, there is nothing
to show. -/
theorem HandOver.of_busy
    (h : s.release = .unlocked ∨ s.release = .first ∨ ∃ next, s.release = .counted next) :
    HandOver s := by
  constructor
  case taken =>
    intro next hnext
    rcases h with h | h | ⟨next', h⟩ <;> rw [h] at hnext <;> cases hnext
  case served =>
    intro hidle
    rcases h with h | h | ⟨next', h⟩ <;> rw [h] at hidle <;> cases hidle

theorem HandOver.unavailable (hrel : s.release = .idle) (hlocked : s.currentState ≠ .unlocked)
    (o : WaitOption) (wait : Bool) (timeout : Nat) :
    HandOver (unavailable s t o wait timeout) := by
  unfold CoreRWLock.unavailable
  split
  next => exact .of_idle hrel fun h => absurd h hlocked
  next => exact .of_idle hrel fun h => absurd h hlocked

theorem HandOver.obtainForReading (hrel : s.release = .idle) (wait : Bool) (timeout : Nat) :
    HandOver (obtainForReading s t wait timeout) := by
  unfold CoreRWLock.obtainForReading
  cases hstate : s.currentState with
  | unlocked => exact .of_idle hrel LockState.noConfusion
  | lockedForReading =>
    cases s.waitQueue.firstLocked with
    | none => exact .of_idle hrel LockState.noConfusion
    | some u => exact .unavailable hrel (by rw [hstate]; exact LockState.noConfusion) _ _ _
  | lockedForWriting => exact .unavailable hrel (by rw [hstate]; exact LockState.noConfusion) _ _ _

theorem HandOver.obtainForWriting (hrel : s.release = .idle) (wait : Bool) (timeout : Nat) :
    HandOver (obtainForWriting s t wait timeout) := by
  unfold CoreRWLock.obtainForWriting
  cases hstate : s.currentState with
  | unlocked => exact .of_idle hrel LockState.noConfusion
  | lockedForReading => exact .unavailable hrel (by rw [hstate]; exact LockState.noConfusion) _ _ _
  | lockedForWriting => exact .unavailable hrel (by rw [hstate]; exact LockState.noConfusion) _ _ _

theorem HandOver.releaseStart (h : HandOver s) (hrel : s.release = .idle) :
    HandOver (releaseStart s t) := by
  unfold CoreRWLock.releaseStart
  split
  next hstate =>
    refine .of_idle hrel ?_
    exact fun _ => h.served hrel hstate
  next hstate =>
    simp only
    split
    next =>
      refine .of_idle hrel ?_
      intro hc
      rw [hstate] at hc
      exact LockState.noConfusion hc
    next => exact .of_busy (.inl rfl)
  next => exact .of_busy (.inl rfl)

theorem HandOver.releaseTurn (h : HandOver s) (hinv : Inv s) : HandOver (releaseTurn s) := by
  have hb := hinv.balanced
  unfold Balanced at hb
  unfold CoreRWLock.releaseTurn
  cases hrel : s.release with
  | idle => exact h
  | unlocked =>
    simp only [Waiters.dequeue]
    cases hf : s.waitQueue.firstLocked with
    | none => exact .of_idle rfl fun _ => Waiters.firstLocked_eq_none.mp hf
    | some next =>
      have ht : next ∈ s.waitQueue.queue := List.mem_of_mem_head? hf
      constructor
      case taken =>
        intro next' hnext
        cases hnext
        rw [← List.count_pos_iff, count_granted]
        refine Nat.lt_of_lt_of_le ?_ (Nat.le_add_left _ _)
        show 0 < (s.waitQueue.extractCritical fifo next).releasedCount _
        rw [releasedCount_letInAs_extractCritical hinv ht, if_pos ⟨rfl, rfl⟩]
        exact Nat.succ_pos _
      case served =>
        intro hc
        cases hc
  | dequeued next =>
    simp only
    cases s.option next with
    | write => exact .of_idle rfl LockState.noConfusion
    | read => exact .of_busy (.inr (.inl rfl))
  | first =>
    rw [hrel] at hb
    have hstay : HandOver { s with release := .idle } := by
      refine .of_idle rfl ?_
      intro hc
      rw [show s.currentState = .unlocked from hc] at hb
      exact LockState.noConfusion hb.1
    simp only
    cases s.waitQueue.firstLocked with
    | none => exact hstay
    | some next =>
      simp only
      cases s.option next with
      | write => exact hstay
      | read => exact .of_busy (.inr (.inr ⟨next, rfl⟩))
  | counted next => exact .of_busy (.inr (.inl rfl))

theorem HandOver.threadTimeout (h : HandOver s) (hinv : Inv s) (t : Tid) :
    HandOver (threadTimeout s t) where
  taken := by
    intro next hnext
    rw [← List.count_pos_iff, count_granted_threadTimeout hinv]
    exact List.count_pos_iff.mpr (h.taken next hnext)
  served := by
    intro hrel hstate
    have hnil := h.served hrel hstate
    show (s.waitQueue.timeout fifo t).queue = []
    rcases Waiters.timeout_cases fifo s.waitQueue t with e | ⟨code, ht, -, -⟩
    · rw [e]
      exact hnil
    · rw [hnil] at ht
      exact absurd ht List.not_mem_nil

theorem complete_frame (s : State Tid) (t : Tid) :
    (complete s t).release = s.release ∧ (complete s t).currentState = s.currentState ∧
      (complete s t).option = s.option ∧ (complete s t).waitQueue = s.waitQueue.resume t := by
  unfold complete
  simp only
  split
  next => cases s.option t <;> exact ⟨rfl, rfl, rfl, rfl⟩
  next => exact ⟨rfl, rfl, rfl, rfl⟩

theorem HandOver.complete (h : HandOver s) (ht : t ∈ s.waitQueue.released) :
    HandOver (complete s t) := by
  obtain ⟨hrel, hstate, hoption, hqueue⟩ := complete_frame s t
  constructor
  case taken =>
    intro next hnext
    rw [hrel] at hnext
    rw [← List.count_pos_iff, count_granted_complete ht, hoption]
    exact List.count_pos_iff.mpr (h.taken next hnext)
  case served =>
    intro hidle hunlocked
    rw [hqueue]
    exact h.served (hrel ▸ hidle) (hstate ▸ hunlocked)

theorem HandOver.step (h : HandOver s) (hinv : Inv s) (hstep : Step s s') : HandOver s' := by
  cases hstep with
  | obtainForReading t wait timeout hidle hrel => exact .obtainForReading hrel wait timeout
  | obtainForWriting t wait timeout hidle hrel => exact .obtainForWriting hrel wait timeout
  | releaseReader t hidle hrel ht => exact .releaseStart (.of_idle hrel (h.served hrel)) hrel
  | releaseWriter t hidle hrel ht => exact .releaseStart (.of_idle hrel (h.served hrel)) hrel
  | releaseTurn => exact h.releaseTurn hinv
  | threadTimeout t => exact h.threadTimeout hinv t
  | complete t ht => exact h.complete ht

theorem Reachable.handOver (h : Reachable s) : HandOver s := by
  induction h with
  | refl => exact .start
  | tail hrun hstep ih => exact ih.step (Reachable.inv hrun) hstep

/-! ## The modes exclude each other -/

omit [DecidableEq Tid] in
theorem granted_alone (h : Inv s) (ht : t ∈ granted s .write) :
    granted s .write = [t] ∧ granted s .read = [] := by
  have hb := h.balanced
  have hpos := List.length_pos_of_mem ht
  have hr := length_granted_read (s := s)
  have hw := length_granted_write (s := s)
  unfold Balanced at hb
  have hone : writes s = 1 ∧ reads s = 0 := by
    cases hrel : s.release with
    | idle =>
      rw [hrel] at hb
      cases hstate : s.currentState <;> rw [hstate] at hb <;> omega
    | unlocked =>
      rw [hrel] at hb
      omega
    | dequeued next =>
      rw [hrel] at hb
      obtain ⟨-, -, hb⟩ := hb
      cases ho : s.option next <;> rw [ho] at hb <;> omega
    | first =>
      rw [hrel] at hb
      omega
    | counted next =>
      rw [hrel] at hb
      omega
  constructor
  · obtain ⟨u, hu⟩ := List.length_eq_one_iff.mp (hw.trans hone.1)
    rw [hu] at ht ⊢
    rw [List.mem_singleton.mp ht]
  · exact List.eq_nil_of_length_eq_zero (by omega)

theorem lockedForWriting_iff (h : Inv s) (hover : HandOver s) :
    s.currentState = .lockedForWriting ↔ ∃ t, writeHolds s = [t] := by
  have hb := h.balanced
  have hw := length_granted_write (s := s)
  unfold Balanced at hb
  rw [← List.length_eq_one_iff]
  unfold writeHolds
  cases hrel : s.release with
  | idle =>
    rw [hrel] at hb
    cases hstate : s.currentState <;> rw [hstate] at hb <;> simp <;> omega
  | unlocked =>
    rw [hrel] at hb
    simp [hb.1]
    omega
  | dequeued next =>
    rw [hrel] at hb
    obtain ⟨hstate, -, hb⟩ := hb
    have hnone : ((granted s .write).erase next).length = 0 := by
      cases ho : s.option next with
      | read =>
        rw [ho] at hb
        have hlen := List.length_erase_le (a := next) (l := granted s .write)
        omega
      | write =>
        have htaken := hover.taken next hrel
        rw [ho] at htaken
        rw [(granted_alone h htaken).1, List.erase_cons_head]
        rfl
    simp [hstate, hnone]
  | first =>
    rw [hrel] at hb
    simp [hb.1]
    omega
  | counted next =>
    rw [hrel] at hb
    simp [hb.1]
    omega

/-! ## Waiting writers -/

/-- The writer `w` waits, and the thread `r` has come after it if it waits at
all.  It has no more than `n` read grants. -/
structure Behind (w r : Tid) (n : Nat) (s : State Tid) : Prop where
  waits : w ∈ s.waitQueue.queue
  writer : s.option w = .write
  passed : s.release ≠ .counted r
  after : r ∈ s.waitQueue.queue → s.waitQueue.arrival w < s.waitQueue.arrival r
  atMost : (granted s .read).count r ≤ n

variable {n : Nat}

/-- The thread that is served next is not `r`. -/
theorem Behind.first_ne (h : Behind w r n s) (hinv : Inv s) {next : Tid}
    (hf : s.waitQueue.firstLocked = some next) : next ≠ r := by
  rintro rfl
  obtain ⟨q, hq⟩ := Waiters.firstLocked_eq_some.mp hf
  have hafter := h.after (List.mem_of_mem_head? hf)
  have hw := h.waits
  rw [hq] at hw
  rcases List.mem_cons.mp hw with rfl | hw
  · exact Nat.lt_irrefl _ hafter
  · exact Nat.lt_asymm hafter (hinv.waiters.before_first hq w hw)

theorem Behind.locked (h : Behind w r n s) (hover : HandOver s) (hrel : s.release = .idle) :
    s.currentState ≠ .unlocked := by
  intro hstate
  have hw := h.waits
  rw [hover.served hrel hstate] at hw
  exact List.not_mem_nil hw

theorem Behind.unavailable (h : Behind w r n s) (hinv : Inv s) (hidle : s.waitQueue.Idle t)
    (o : WaitOption) (wait : Bool) (timeout : Nat) :
    Behind w r n (unavailable s t o wait timeout) := by
  have hatMost : (granted (CoreRWLock.unavailable s t o wait timeout) .read).count r ≤ n := by
    rw [count_granted_unavailable hidle]
    exact h.atMost
  have hwt : w ≠ t := fun e => hidle.1 (e ▸ h.waits)
  revert hatMost
  unfold CoreRWLock.unavailable
  split
  next => exact fun hatMost => ⟨h.waits, h.writer, h.passed, h.after, hatMost⟩
  next =>
    intro hatMost
    refine ⟨Waiters.mem_enqueueCritical.mpr (.inr h.waits), ?_, h.passed, ?_, hatMost⟩
    · show Function.update s.option t o w = .write
      rw [Function.update_of_ne hwt]
      exact h.writer
    · intro hr
      show Function.update s.waitQueue.arrival t s.waitQueue.clock w <
        Function.update s.waitQueue.arrival t s.waitQueue.clock r
      rw [Function.update_of_ne hwt]
      by_cases hrt : r = t
      · rw [hrt, Function.update_self]
        exact hinv.waiters.arrived w h.waits
      · rw [Function.update_of_ne hrt]
        exact h.after ((Waiters.mem_enqueueCritical.mp hr).resolve_left hrt)

theorem Behind.obtainForReading (h : Behind w r n s) (hinv : Inv s) (hover : HandOver s)
    (hidle : s.waitQueue.Idle t) (hrel : s.release = .idle) (wait : Bool) (timeout : Nat) :
    Behind w r n (obtainForReading s t wait timeout) := by
  unfold CoreRWLock.obtainForReading
  split
  next hstate => exact absurd hstate (h.locked hover hrel)
  next =>
    split
    next hf =>
      have hw := h.waits
      rw [Waiters.firstLocked_eq_none.mp hf] at hw
      exact absurd hw List.not_mem_nil
    next => exact h.unavailable hinv hidle .read wait timeout
  next => exact h.unavailable hinv hidle .read wait timeout

theorem Behind.obtainForWriting (h : Behind w r n s) (hinv : Inv s) (hover : HandOver s)
    (hidle : s.waitQueue.Idle t) (hrel : s.release = .idle) (wait : Bool) (timeout : Nat) :
    Behind w r n (obtainForWriting s t wait timeout) := by
  unfold CoreRWLock.obtainForWriting
  split
  next hstate => exact absurd hstate (h.locked hover hrel)
  next => exact h.unavailable hinv hidle .write wait timeout
  next => exact h.unavailable hinv hidle .write wait timeout

theorem Behind.releaseStart (h : Behind w r n s) (hidle : s.waitQueue.Idle t) :
    Behind w r n (releaseStart s t) := by
  have hatMost : (granted (CoreRWLock.releaseStart s t) .read).count r ≤ n := by
    rw [count_granted_releaseStart hidle]
    exact h.atMost
  have hpassed : Release.unlocked ≠ Release.counted r := by
    intro hc
    cases hc
  revert hatMost
  unfold CoreRWLock.releaseStart
  split
  next => exact fun hatMost => ⟨h.waits, h.writer, h.passed, h.after, hatMost⟩
  next =>
    simp only
    split
    next => exact fun hatMost => ⟨h.waits, h.writer, h.passed, h.after, hatMost⟩
    next => exact fun hatMost => ⟨h.waits, h.writer, hpassed, h.after, hatMost⟩
  next => exact fun hatMost => ⟨h.waits, h.writer, hpassed, h.after, hatMost⟩

/-- A hold less, of any thread. -/
theorem Behind.drop (h : Behind w r n s) {readers writers : List Tid}
    (hsub : readers.Sublist s.readers) :
    Behind w r n { s with readers := readers, writers := writers } := by
  refine ⟨h.waits, h.writer, h.passed, h.after, ?_⟩
  refine Nat.le_trans ?_ h.atMost
  rw [count_granted, count_granted]
  exact Nat.add_le_add_right (hsub.count_le r) _

theorem Behind.extractCritical (h : Behind w r n s) (hinv : Inv s) {next : Tid}
    (hnext : next ∈ s.waitQueue.queue) (hne : next ≠ r) {release : Release Tid}
    (hpassed : release ≠ .counted r)
    (hw : w ∈ (s.waitQueue.extractCritical fifo next).queue) :
    Behind w r n { s with
      waitQueue := s.waitQueue.extractCritical fifo next
      release := release } := by
  refine ⟨hw, h.writer, hpassed, ?_, ?_⟩
  · intro hr
    rw [Waiters.extractCritical_queue] at hr
    exact h.after (List.mem_of_mem_erase hr)
  · rw [count_granted]
    show s.readers.count r + (s.waitQueue.extractCritical fifo next).releasedCount _ ≤ n
    have hatMost := h.atMost
    rw [count_granted] at hatMost
    rw [releasedCount_letInAs_extractCritical hinv hnext, if_neg fun hc => hne hc.1]
    exact hatMost

theorem Behind.releaseTurn (h : Behind w r n s) (hinv : Inv s)
    (hw : w ∈ (releaseTurn s).waitQueue.queue) : Behind w r n (releaseTurn s) := by
  have hidle : Release.idle ≠ Release.counted r := by
    intro hc
    cases hc
  have hfirst : Release.first ≠ Release.counted r := by
    intro hc
    cases hc
  revert hw
  unfold CoreRWLock.releaseTurn
  cases hrel : s.release with
  | idle => exact fun _ => h
  | unlocked =>
    simp only [Waiters.dequeue]
    cases hf : s.waitQueue.firstLocked with
    | none => exact fun hw => ⟨hw, h.writer, hidle, h.after, h.atMost⟩
    | some next =>
      refine h.extractCritical hinv (List.mem_of_mem_head? hf) (h.first_ne hinv hf) ?_
      intro hc
      cases hc
  | dequeued next =>
    simp only
    cases s.option next with
    | write => exact fun hw => ⟨hw, h.writer, hidle, h.after, h.atMost⟩
    | read => exact fun hw => ⟨hw, h.writer, hfirst, h.after, h.atMost⟩
  | first =>
    simp only
    cases hf : s.waitQueue.firstLocked with
    | none => exact fun hw => ⟨hw, h.writer, hidle, h.after, h.atMost⟩
    | some next =>
      have hne := h.first_ne hinv hf
      simp only
      cases s.option next with
      | write => exact fun hw => ⟨hw, h.writer, hidle, h.after, h.atMost⟩
      | read =>
        refine fun hw => ⟨hw, h.writer, ?_, h.after, h.atMost⟩
        intro hc
        exact hne (Release.counted.inj hc)
  | counted next =>
    have hne : next ≠ r := by
      rintro rfl
      exact h.passed hrel
    simp only [Waiters.extract]
    split
    next hnext => exact h.extractCritical hinv hnext hne hfirst
    next => exact fun hw => ⟨hw, h.writer, hfirst, h.after, h.atMost⟩

theorem Behind.threadTimeout (h : Behind w r n s) (hinv : Inv s)
    (hw : w ∈ (threadTimeout s t).waitQueue.queue) : Behind w r n (threadTimeout s t) := by
  refine ⟨hw, h.writer, h.passed, ?_, ?_⟩
  · show r ∈ (s.waitQueue.timeout fifo t).queue →
      (s.waitQueue.timeout fifo t).arrival w < (s.waitQueue.timeout fifo t).arrival r
    rcases Waiters.timeout_cases fifo s.waitQueue t with e | ⟨code, -, -, e⟩
    · rw [e]
      exact h.after
    · rw [e, Waiters.extractCritical_queue]
      exact fun hr => h.after (List.mem_of_mem_erase hr)
  · rw [count_granted_threadTimeout hinv]
    exact h.atMost

theorem Behind.complete (h : Behind w r n s) (ht : t ∈ s.waitQueue.released) :
    Behind w r n (complete s t) := by
  obtain ⟨hrel, -, hoption, hqueue⟩ := complete_frame s t
  constructor
  case waits =>
    rw [hqueue]
    exact h.waits
  case writer =>
    rw [hoption]
    exact h.writer
  case passed =>
    rw [hrel]
    exact h.passed
  case after =>
    rw [hqueue]
    exact h.after
  case atMost =>
    rw [count_granted_complete ht]
    exact h.atMost

theorem Behind.step (h : Behind w r n s) (hinv : Inv s) (hover : HandOver s) (hstep : Step s s')
    (hw : w ∈ s'.waitQueue.queue) : Behind w r n s' := by
  cases hstep with
  | obtainForReading t wait timeout hidle hrel =>
    exact h.obtainForReading hinv hover hidle hrel wait timeout
  | obtainForWriting t wait timeout hidle hrel =>
    exact h.obtainForWriting hinv hover hidle hrel wait timeout
  | releaseReader t hidle hrel ht => exact (h.drop List.erase_sublist).releaseStart hidle
  | releaseWriter t hidle hrel ht => exact (h.drop (List.Sublist.refl _)).releaseStart hidle
  | releaseTurn => exact h.releaseTurn hinv hw
  | threadTimeout t => exact h.threadTimeout hinv hw
  | complete t ht => exact h.complete ht

theorem WhileQueued.reachable (h : WhileQueued w s s') (hs : Reachable s) : Reachable s' := by
  induction h with
  | refl hw => exact hs
  | tail hrun hstep hw ih => exact .tail ih hstep

theorem Behind.run (h : Behind w r n s) (hs : Reachable s) (hrun : WhileQueued w s s') :
    Behind w r n s' := by
  induction hrun with
  | refl hw => exact h
  | tail hrun hstep hw ih =>
    have hreach := hrun.reachable hs
    exact ih.step hreach.inv hreach.handOver hstep hw

/-- Readers and writers exclude each other.  A thread that was granted the lock
for writing is the only one that was granted it, the lock is in the write mode
when there is one such thread and in no other case, and a reader that arrives
while a writer waits gets no grant for as long as that writer goes on waiting. -/
theorem rwlock_exclusion (h : Reachable s) :
    (∀ t ∈ granted s .write, granted s .write = [t] ∧ granted s .read = []) ∧
    (s.currentState = .lockedForWriting ↔ ∃ t, writeHolds s = [t]) ∧
    ∀ r w wait timeout s', s.waitQueue.Idle r → s.release = .idle →
      w ∈ s.waitQueue.queue → s.option w = .write →
      WhileQueued w (obtainForReading s r wait timeout) s' →
      (granted s' .read).count r ≤ (granted s .read).count r := by
  refine ⟨fun t => granted_alone h.inv, lockedForWriting_iff h.inv h.handOver, ?_⟩
  intro r w wait timeout s' hidle hrel hw hwriter hrun
  have hbehind : Behind w r ((granted s .read).count r) s := by
    refine ⟨hw, hwriter, ?_, fun hr => absurd hr hidle.1, Nat.le_refl _⟩
    rw [hrel]
    intro hc
    cases hc
  have harrived := hbehind.obtainForReading h.inv h.handOver hidle hrel wait timeout
  exact (harrived.run (.tail h (.obtainForReading s r wait timeout hidle hrel)) hrun).atMost

/-- A reader comes while a writer waits for another reader to leave.  The lock
goes to the writer. -/
theorem rwlock_exclusion_waiting :
    let s := obtainForWriting (obtainForReading start 0 true 0) 1 true 9
    (granted (releaseTurn (releaseReader (obtainForReading s 2 true 9) 0)) .write = [1] ∧
      granted (releaseTurn (releaseReader (obtainForReading s 2 true 9) 0)) .read = []) ∧
    (granted (threadTimeout (obtainForReading s 2 true 9) 0) .read).count 2 ≤
      (granted s .read).count 2 := by
  have hfirst : Reachable (obtainForReading (start : State Nat) 0 true 0) :=
    .tail .refl (.obtainForReading _ 0 true 0 (by decide) rfl)
  have hwaits : Reachable (obtainForWriting (obtainForReading (start : State Nat) 0 true 0) 1 true 9) :=
    .tail hfirst (.obtainForWriting _ 1 true 9 (by decide) rfl)
  constructor
  · refine (rwlock_exclusion ?_).1 1 (by decide)
    refine .tail (.tail (.tail hwaits (.obtainForReading _ 2 true 9 (by decide) rfl)) ?_)
      (.releaseTurn _)
    exact .releaseReader _ 0 (by decide) (by decide) (by decide)
  · refine (rwlock_exclusion hwaits).2.2 2 1 true 9 _ (by decide) rfl (by decide) (by decide) ?_
    exact .tail (.refl _ (by decide)) (.threadTimeout _ 0) (by decide)

end Rtems.CoreRWLock
