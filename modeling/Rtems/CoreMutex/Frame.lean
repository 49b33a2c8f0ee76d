import Rtems.CoreMutex.Model

/-!
# What the mutex operations leave alone

Every operation is put together from a few pieces: a priority change, a lock
or release of one mutex, an enqueue, an extract.  This module says for each
piece what it changes, so that the invariants can be proved piece by piece.
-/

namespace Rtems.CoreMutex

open Lib
open ThreadQueue (Operations mem_enqueue nodup_enqueue extract_eq_erase)

variable {Tid Mid : Type} [DecidableEq Tid] [DecidableEq Mid]
variable {s s' : State Tid Mid} {t u : Tid} {m n : Mid}

/-! ## Updates of one thread or one mutex -/

section

omit [DecidableEq Mid]

@[simp]
theorem onThread_mutexes (f : ThreadControl Mid → ThreadControl Mid) :
    (s.onThread t f).mutexes = s.mutexes := rfl

end

section

omit [DecidableEq Tid]

@[simp]
theorem onMutex_threads (f : Control Tid → Control Tid) :
    (s.onMutex m f).threads = s.threads := rfl

end

section

omit [DecidableEq Mid]

theorem onThread_threads (f : ThreadControl Mid → ThreadControl Mid) (u : Tid) :
    (s.onThread t f).threads u = if u = t then f (s.threads t) else s.threads u := by
  simp [State.onThread, Function.update_apply]

end

section

omit [DecidableEq Tid]

theorem onMutex_mutexes (f : Control Tid → Control Tid) (n : Mid) :
    (s.onMutex m f).mutexes n = if n = m then f (s.mutexes m) else s.mutexes n := by
  simp [State.onMutex, Function.update_apply]

end

section

omit [DecidableEq Mid]

@[simp]
theorem onThread_self (f : ThreadControl Mid → ThreadControl Mid) :
    (s.onThread t f).threads t = f (s.threads t) := by
  simp [onThread_threads]

end

section

omit [DecidableEq Tid]

@[simp]
theorem onMutex_self (f : Control Tid → Control Tid) :
    (s.onMutex m f).mutexes m = f (s.mutexes m) := by
  simp [onMutex_mutexes]

end

section

omit [DecidableEq Mid]

/-- A field that the update of a thread keeps. -/
theorem onThread_field {α : Type} (p : ThreadControl Mid → α)
    {f : ThreadControl Mid → ThreadControl Mid} (h : p (f (s.threads t)) = p (s.threads t))
    (u : Tid) : p ((s.onThread t f).threads u) = p (s.threads u) := by
  rw [onThread_threads]
  split
  next e => rw [e, h]
  next => rfl

end

section

omit [DecidableEq Tid]

/-- A field that the update of a mutex keeps. -/
theorem onMutex_field {α : Type} (p : Control Tid → α) {f : Control Tid → Control Tid}
    (h : p (f (s.mutexes m)) = p (s.mutexes m)) (n : Mid) :
    p ((s.onMutex m f).mutexes n) = p (s.mutexes n) := by
  rw [onMutex_mutexes]
  split
  next e => rw [e, h]
  next => rfl

end

theorem operations_ne_default (a : Attributes) : a.operations ≠ .default := by
  unfold Attributes.operations
  split <;> simp

theorem operations_of_ne_fifo {a : Attributes} (h : a.discipline ≠ .fifo) :
    a.operations = .priority := if_neg h

/-! ## Priority changes -/

/-- `s'` is `s` after the priorities of `t` changed.  Besides these only the
order of the queue that `t` waits in may differ. -/
structure Repriced (t : Tid) (s s' : State Tid Mid) : Prop where
  others : ∀ u, u ≠ t → s'.threads u = s.threads u
  resourceCount : (s'.threads t).resourceCount = (s.threads t).resourceCount
  waitQueue : (s'.threads t).waitQueue = (s.threads t).waitQueue
  returnCode : (s'.threads t).returnCode = (s.threads t).returnCode
  mutex : ∀ m, ∃ q, s'.mutexes m = { s.mutexes m with waitQueue := q } ∧
    (q = (s.mutexes m).waitQueue ∨ (s.threads t).waitQueue = some m ∧
      q = (s.mutexes m).attributes.operations.priorityChange s'.prio (s.mutexes m).waitQueue t)
  /-- The queue follows the priority. -/
  follows : ∀ m, (s.threads t).waitQueue = some m → s'.prio t ≠ s.prio t →
    (s'.mutexes m).waitQueue =
      (s.mutexes m).attributes.operations.priorityChange s'.prio (s.mutexes m).waitQueue t

section

omit [DecidableEq Mid]

/-- No filter writes the fields that a priority change keeps. -/
theorem Filter.run_frame (f : Filter) (c : ThreadControl Mid) (p : Priority) :
    (f.run c p).2.2.resourceCount = c.resourceCount ∧ (f.run c p).2.2.waitQueue = c.waitQueue ∧
      (f.run c p).2.2.currentPriority = c.currentPriority ∧
      (f.run c p).2.2.returnCode = c.returnCode := by
  cases f <;> exact ⟨rfl, rfl, rfl, rfl⟩

end

theorem repriced_priorityChange (c : ThreadControl Mid)
    (hr : c.resourceCount = (s.threads t).resourceCount)
    (hw : c.waitQueue = (s.threads t).waitQueue)
    (hc : c.returnCode = (s.threads t).returnCode) :
    Repriced t s (priorityChange (s.onThread t fun _ => c) t) := by
  unfold priorityChange
  rw [onThread_self, hw]
  cases hm : (s.threads t).waitQueue with
  | none =>
    exact
      { others := fun u hu => by simp [onThread_threads, hu]
        resourceCount := by simp [hr]
        waitQueue := by simp [hw]
        returnCode := by simp [hc]
        mutex := fun m => ⟨_, rfl, .inl rfl⟩
        follows := fun m h => absurd h (by simp [hm]) }
  | some n =>
    refine
      { others := fun u hu => by simp [onThread_threads, hu]
        resourceCount := by simp [hr]
        waitQueue := by simp [hw]
        returnCode := by simp [hc]
        mutex := fun m => ?_
        follows := fun m h _ => ?_ }
    · by_cases e : m = n
      · subst e
        exact ⟨_, onMutex_self _, .inr ⟨hm, rfl⟩⟩
      · exact ⟨_, by rw [onMutex_mutexes, if_neg e]; rfl, .inl rfl⟩
    · obtain rfl : n = m := Option.some.inj (hm.symm.trans h)
      simp only [onMutex_self]
      rfl

/-- **`_Thread_Change_priority` changes priorities and the order of one queue.** -/
theorem repriced_changePriority (s : State Tid Mid) (t : Tid) (p : Priority) (f : Filter) :
    Repriced t s (changePriority s t p f) := by
  obtain ⟨hr, hw, hc, hk⟩ :=
    f.run_frame { s.threads t with priorityRestoreHint := true } p
  unfold changePriority
  simp only
  split
  next => exact repriced_priorityChange _ hr hw hk
  next =>
    exact
      { others := fun u hu => by simp [onThread_threads, hu]
        resourceCount := by simpa using hr
        waitQueue := by simpa using hw
        returnCode := by simpa using hk
        mutex := fun m => ⟨_, rfl, .inl rfl⟩
        follows := fun m _ h => absurd (by simpa [State.prio] using hc) h }

section Repriced

variable (h : Repriced t s s')
include h

omit [DecidableEq Mid]

theorem Repriced.resourceCount_eq (u : Tid) :
    (s'.threads u).resourceCount = (s.threads u).resourceCount := by
  by_cases e : u = t
  · rw [e, h.resourceCount]
  · rw [h.others u e]

theorem Repriced.waitQueue_eq (u : Tid) :
    (s'.threads u).waitQueue = (s.threads u).waitQueue := by
  by_cases e : u = t
  · rw [e, h.waitQueue]
  · rw [h.others u e]

theorem Repriced.returnCode_eq (u : Tid) :
    (s'.threads u).returnCode = (s.threads u).returnCode := by
  by_cases e : u = t
  · rw [e, h.returnCode]
  · rw [h.others u e]

theorem Repriced.prio_other (hu : u ≠ t) : s'.prio u = s.prio u := by
  rw [State.prio, h.others u hu, State.prio]

theorem Repriced.attributes (m : Mid) :
    (s'.mutexes m).attributes = (s.mutexes m).attributes := by
  obtain ⟨q, hq, _⟩ := h.mutex m
  rw [hq]

theorem Repriced.holder (m : Mid) : (s'.mutexes m).holder = (s.mutexes m).holder := by
  obtain ⟨q, hq, _⟩ := h.mutex m
  rw [hq]

theorem Repriced.nestCount (m : Mid) : (s'.mutexes m).nestCount = (s.mutexes m).nestCount := by
  obtain ⟨q, hq, _⟩ := h.mutex m
  rw [hq]

end Repriced

/-- The thread a change leaves. -/
def Filter.result (f : Filter) (c : ThreadControl Mid) (p : Priority) : ThreadControl Mid :=
  let r := f.run { c with priorityRestoreHint := true } p
  if r.1 then { r.2.2 with currentPriority := r.2.1 } else r.2.2

section

omit [DecidableEq Mid]

/-- The two ways a change can end. -/
theorem Filter.result_cases (f : Filter) (c : ThreadControl Mid) (p : Priority) :
    let r := f.run { c with priorityRestoreHint := true } p
    (r.1 = true ∧ f.result c p = { r.2.2 with currentPriority := r.2.1 }) ∨
      (r.1 = false ∧ f.result c p = r.2.2) := by
  intro r
  by_cases h : r.1 = true
  · exact .inl ⟨h, if_pos h⟩
  · exact .inr ⟨by simpa using h, if_neg h⟩

end

theorem changePriority_self (s : State Tid Mid) (t : Tid) (p : Priority) (f : Filter) :
    (changePriority s t p f).threads t = f.result (s.threads t) p := by
  unfold changePriority Filter.result
  simp only
  split
  next =>
    unfold priorityChange
    split <;> simp
  next => simp

section

omit [DecidableEq Mid]

/-- Raising makes a thread more important, or leaves it as it is. -/
theorem result_raise (c : ThreadControl Mid) (p : Priority) :
    (Filter.raise.result c p).currentPriority = min c.currentPriority p := by
  unfold Filter.result
  simp only [Filter.run, priorityLessThan, decide_eq_true_eq]
  split
  next h => exact (Nat.min_eq_right (Nat.le_of_lt h)).symm
  next h => exact (Nat.min_eq_left (Nat.le_of_not_gt h)).symm

end

theorem raisePriority_prio (p : Priority) : (raisePriority s t p).prio t = min (s.prio t) p := by
  rw [State.prio, raisePriority, changePriority_self, result_raise, State.prio]

section

omit [DecidableEq Mid]

/-- A thread that owns resources gets no less important, unless its priority
is restored. -/
theorem result_le_of_owns {f : Filter} (hf : f ≠ .restore) {c : ThreadControl Mid}
    (hc : c.resourceCount ≠ 0) (p : Priority) :
    (f.result c p).currentPriority ≤ c.currentPriority := by
  unfold Filter.result
  cases f with
  | restore => exact absurd rfl hf
  | raise | raiseReal =>
    simp only [Filter.run, priorityLessThan, decide_eq_true_eq]
    split
    next h => exact Nat.le_of_lt h
    next => exact Nat.le_refl _
  | set =>
    simp only [Filter.run, priorityLessThan, ThreadControl.ownsResources, Bool.or_eq_true,
      decide_eq_true_eq, Bool.not_eq_true']
    split
    next h => exact Nat.le_of_lt (h.resolve_right (by simpa using hc))
    next => exact Nat.le_refl _
  | sporadicBudgetTsr | sporadicBudgetCallout =>
    simp [Filter.run, ThreadControl.ownsResources, hc]

/-! ## Return codes, enqueue and extract -/

@[simp]
theorem setReturnCode_prio (code : Status) (u : Tid) :
    (setReturnCode s t code).prio u = s.prio u :=
  onThread_field (·.currentPriority) rfl u

@[simp]
theorem setReturnCode_waits (code : Status) (u : Tid) :
    ((setReturnCode s t code).threads u).waitQueue = (s.threads u).waitQueue :=
  onThread_field (·.waitQueue) rfl u

end

@[simp]
theorem enqueue_prio (ticks : Nat) (u : Tid) : (enqueue s t m ticks).prio u = s.prio u := by
  simp only [State.prio, enqueue, onMutex_threads]
  exact onThread_field (·.currentPriority) rfl u

@[simp]
theorem enqueue_resourceCount (ticks : Nat) (u : Tid) :
    ((enqueue s t m ticks).threads u).resourceCount = (s.threads u).resourceCount := by
  simp only [enqueue, onMutex_threads]
  exact onThread_field (·.resourceCount) rfl u

theorem enqueue_waits (ticks : Nat) (u : Tid) : ((enqueue s t m ticks).threads u).waitQueue =
    if u = t then some m else (s.threads u).waitQueue := by
  simp only [enqueue, onMutex_threads, onThread_threads]
  split <;> rfl

theorem enqueue_mutex (ticks : Nat) (n : Mid) :
    ∃ q, (enqueue s t m ticks).mutexes n = { s.mutexes n with waitQueue := q } := by
  rw [enqueue, onMutex_mutexes]
  split
  next e => exact ⟨_, by rw [e]; rfl⟩
  next => exact ⟨_, rfl⟩

@[simp]
theorem extract_prio (u : Tid) : (extract s t m).prio u = s.prio u := by
  simp only [State.prio, extract, onMutex_threads]
  exact onThread_field (·.currentPriority) rfl u

@[simp]
theorem extract_resourceCount (u : Tid) :
    ((extract s t m).threads u).resourceCount = (s.threads u).resourceCount := by
  simp only [extract, onMutex_threads]
  exact onThread_field (·.resourceCount) rfl u

theorem extract_realPriority (u : Tid) :
    ((extract s t m).threads u).realPriority = (s.threads u).realPriority := by
  simp only [extract, onMutex_threads]
  exact onThread_field (·.realPriority) rfl u

theorem extract_waits (u : Tid) : ((extract s t m).threads u).waitQueue =
    if u = t then none else (s.threads u).waitQueue := by
  simp only [extract, onMutex_threads, onThread_threads]
  split <;> rfl

/-- Extracting takes the thread out of the queue and does no more to the
mutexes. -/
theorem extract_mutex (n : Mid) : (extract s t m).mutexes n =
    { s.mutexes n with
      waitQueue := if n = m then (s.mutexes n).waitQueue.erase t else (s.mutexes n).waitQueue } := by
  rw [extract, onMutex_mutexes]
  split
  next e =>
    subst e
    simp only [onThread_mutexes]
    rw [extract_eq_erase (operations_ne_default _)]
  next => rfl

/-! ## Lock and release -/

theorem lock_mutex (n : Mid) : (lock s t m).mutexes n =
    if n = m then { s.mutexes m with holder := some t, nestCount := 1 } else s.mutexes n := by
  unfold lock
  simp only
  split
  · rw [onThread_mutexes, onMutex_mutexes]
  · rw [onMutex_mutexes]

/-- Locking counts a resource. -/
theorem lock_thread (u : Tid) : (lock s t m).threads u =
    { s.threads u with
      resourceCount := (s.threads u).resourceCount +
        if (s.mutexes m).attributes.counted = true ∧ u = t then 1 else 0 } := by
  unfold lock
  simp only [onMutex_self]
  split
  next hc =>
    rw [onThread_threads, onMutex_threads]
    split
    next e => simp [hc, e]
    next e => simp [e]
  next hc => simp [hc]

theorem release_mutex (n : Mid) : (release s t m).mutexes n =
    if n = m then { s.mutexes m with holder := none, nestCount := 0 } else s.mutexes n := by
  unfold release
  rw [onMutex_mutexes]
  split <;> split <;> rfl

theorem release_thread (u : Tid) : (release s t m).threads u =
    { s.threads u with
      resourceCount := (s.threads u).resourceCount -
        if (s.mutexes m).attributes.counted = true ∧ u = t then 1 else 0 } := by
  unfold release
  simp only [onMutex_threads]
  split
  next hc =>
    rw [onThread_threads]
    split
    next e => simp [hc, e]
    next e => simp [e]
  next hc => simp [hc]

/-- **A seize that violates the ceiling is undone.**  Only the return code is
left of it. -/
theorem applyCeiling_violated (hd : (s.mutexes m).attributes.discipline = .priorityCeiling)
    (hh : (s.mutexes m).holder = none) (hn : (s.mutexes m).nestCount = 0)
    (hlt : s.prio t < (s.mutexes m).attributes.priorityCeiling) :
    applyCeiling (lock s t m) t m = setReturnCode s t .ceilingViolated := by
  have hm : (lock s t m).mutexes m = { s.mutexes m with holder := some t, nestCount := 1 } := by
    rw [lock_mutex, if_pos rfl]
  have hc : ((lock s t m).threads t).currentPriority = s.prio t := by rw [lock_thread]; rfl
  have hcount : (s.mutexes m).attributes.counted = true := by simp [Attributes.counted, hd]
  unfold applyCeiling
  simp only [hm, hc]
  rw [if_neg (Nat.ne_of_lt hlt), if_neg (Nat.not_lt.mpr (Nat.le_of_lt hlt))]
  ext1
  · funext u
    simp only [setReturnCode, onThread_threads, onMutex_threads, lock_thread, hcount, true_and]
    split <;> simp_all
  · funext n
    simp only [setReturnCode, onThread_mutexes, onMutex_mutexes, lock_mutex]
    split
    next e =>
      rw [e, ← hh, ← hn]
      rfl
    next => rfl

theorem applyCeiling_granted (hle : (s.mutexes m).attributes.priorityCeiling ≤ s.prio t) :
    ((applyCeiling (lock s t m) t m).threads t).returnCode = (s.threads t).returnCode := by
  have ha : ((lock s t m).mutexes m).attributes = (s.mutexes m).attributes := by
    rw [lock_mutex, if_pos rfl]
  have hc : ((lock s t m).threads t).currentPriority = s.prio t := by rw [lock_thread]; rfl
  have hr : ((lock s t m).threads t).returnCode = (s.threads t).returnCode := by rw [lock_thread]
  unfold applyCeiling
  simp only [ha, hc]
  split
  next => exact hr
  next hne =>
    rw [if_pos (Nat.lt_of_le_of_ne hle (Ne.symm hne))]
    exact ((repriced_changePriority _ _ _ _).returnCode_eq t).trans hr

/-! ## Counting what a thread holds -/

section Count

variable [Fintype Mid]

/-- The mutexes that count as resources of `t`. -/
def heldCount (s : State Tid Mid) (t : Tid) : Nat :=
  (Finset.univ.filter fun m =>
    (s.mutexes m).attributes.counted = true ∧ (s.mutexes m).holder = some t).card

/-- What one mutex adds to the count of `t`. -/
def heldOne (x : Control Tid) (t : Tid) : Nat :=
  if x.attributes.counted = true ∧ x.holder = some t then 1 else 0

section

omit [DecidableEq Mid]

theorem heldCount_eq_sum (s : State Tid Mid) (t : Tid) :
    heldCount s t = ∑ m, heldOne (s.mutexes m) t :=
  Finset.card_filter _ _

end

/-- One mutex changes hands. -/
theorem heldCount_change (hs : ∀ n, n ≠ m → heldOne (s'.mutexes n) t = heldOne (s.mutexes n) t) :
    heldCount s' t + heldOne (s.mutexes m) t = heldCount s t + heldOne (s'.mutexes m) t := by
  rw [heldCount_eq_sum, heldCount_eq_sum, ← Finset.add_sum_erase _ _ (Finset.mem_univ m),
    ← Finset.add_sum_erase (a := m) _ (fun n => heldOne (s.mutexes n) t) (Finset.mem_univ m),
    Finset.sum_congr rfl fun n hn => hs n (Finset.ne_of_mem_erase hn)]
  omega

omit [DecidableEq Mid]

theorem heldCount_pos (hc : (s.mutexes m).attributes.counted = true)
    (hh : (s.mutexes m).holder = some t) : heldCount s t ≠ 0 := by
  refine Finset.card_ne_zero_of_mem (a := m) ?_
  simp [hc, hh]

end Count

end Rtems.CoreMutex
