import Rtems.ThreadQueue.Operations

/-!
# The waiting threads of an object

Objects of the score keep the threads that wait for them on a thread queue.
This is the queue with any number of threads, seen at the grain of the
critical sections of its lock: a thread is put on the queue, and then either
another party extracts it or its own timeout does.  That nothing is lost
between the enqueuer and the interrupts inside such a section is the business
of `Rtems.ThreadQueue.Blocking`.

A thread that has been taken off the queue is *released*: it carries its return
code back to the caller of the operation, and has not arrived there yet.
-/

namespace Rtems.ThreadQueue

open Lib

/-- `Thread_queue_Disciplines`. -/
inductive Discipline where
  | fifo
  | priority
deriving DecidableEq, Repr

/-- The operations that `_Thread_queue_Initialize` selects. -/
def Discipline.operations : Discipline → Operations
  | .fifo => .fifo
  | .priority => .priority

@[simp]
theorem Discipline.operations_ne_default (d : Discipline) : d.operations ≠ .default := by
  cases d <;> exact nofun

/-- A thread queue and the `Wait` blocks of its threads.  `arrival` and `clock`
are ghosts: when a thread was last put on the queue, counted in arrivals. -/
structure Waiters (Tid Code : Type) where
  /-- The threads of the queue, first one first. -/
  queue : List Tid
  /-- `Wait.return_code`. -/
  returnCode : Tid → Code
  /-- `Wait.timeout_code`, if the thread wants to time out. -/
  timeoutCode : Tid → Option Code
  /-- The threads that are off the queue and on their way back. -/
  released : List Tid
  arrival : Tid → Nat
  clock : Nat

variable {Tid Code : Type} [DecidableEq Tid]

/-! ## The operations -/

/-- The queue after `_Thread_queue_Initialize`. -/
def Waiters.start (code : Code) : Waiters Tid Code where
  queue := []
  returnCode := fun _ => code
  timeoutCode := fun _ => none
  released := []
  arrival := fun _ => 0
  clock := 0

/-- Write `Wait.return_code`. -/
def Waiters.setReturnCode (w : Waiters Tid Code) (t : Tid) (code : Code) : Waiters Tid Code :=
  { w with returnCode := Function.update w.returnCode t code }

/-- `_Thread_queue_Enqueue_critical`. -/
def Waiters.enqueueCritical (d : Discipline) (prio : Tid → Priority) (w : Waiters Tid Code) (t : Tid)
    (timeoutCode : Option Code) : Waiters Tid Code :=
  { w with
    queue := d.operations.enqueue prio w.queue t
    timeoutCode := Function.update w.timeoutCode t timeoutCode
    arrival := Function.update w.arrival t w.clock
    clock := w.clock + 1 }

/-- `_Thread_queue_First_locked`. -/
def Waiters.firstLocked (w : Waiters Tid Code) : Option Tid := w.queue.head?

/-- `_Thread_queue_Extract_critical`. -/
def Waiters.extractCritical (d : Discipline) (w : Waiters Tid Code) (t : Tid) : Waiters Tid Code :=
  { w with queue := d.operations.extract w.queue t, released := t :: w.released }

/-- `_Thread_queue_Extract`.  A thread that waits on no queue is left alone. -/
def Waiters.extract (d : Discipline) (w : Waiters Tid Code) (t : Tid) : Waiters Tid Code :=
  if t ∈ w.queue then w.extractCritical d t else w

/-- `_Thread_queue_Dequeue`. -/
def Waiters.dequeue (d : Discipline) (w : Waiters Tid Code) : Option Tid × Waiters Tid Code :=
  match w.firstLocked with
  | some t => (some t, w.extractCritical d t)
  | none => (none, w)

/-- `_Thread_Timeout`.  It does nothing to a thread that is ready again. -/
def Waiters.timeout (d : Discipline) (w : Waiters Tid Code) (t : Tid) : Waiters Tid Code :=
  match w.timeoutCode t with
  | some code => if t ∈ w.queue then (w.setReturnCode t code).extractCritical d t else w
  | none => w

/-- One turn of the loop of `_Thread_queue_Flush`, which holds the lock only
for a turn. -/
def Waiters.flushTurn (d : Discipline) (w : Waiters Tid Code) (status : Code) : Waiters Tid Code :=
  match w.firstLocked with
  | some t => (w.setReturnCode t status).extractCritical d t
  | none => w

/-- A released thread returns to the caller. -/
def Waiters.resume (w : Waiters Tid Code) (t : Tid) : Waiters Tid Code :=
  { w with released := w.released.erase t }

/-- The thread is in no call. -/
def Waiters.Idle (w : Waiters Tid Code) (t : Tid) : Prop := t ∉ w.queue ∧ t ∉ w.released

instance (w : Waiters Tid Code) (t : Tid) : Decidable (w.Idle t) :=
  inferInstanceAs (Decidable (_ ∧ _))

/-! ## The order of the queue -/

/-- The order in which the discipline serves the threads. -/
def Discipline.Before (d : Discipline) (prio : Tid → Priority) (w : Waiters Tid Code) :
    Tid → Tid → Prop :=
  match d with
  | .fifo => fun t u => w.arrival t < w.arrival u
  | .priority => Lib.Before prio w.arrival

/-- What holds of a thread queue between critical sections. -/
structure Waiters.Inv (d : Discipline) (prio : Tid → Priority) (w : Waiters Tid Code) : Prop where
  nodup : (w.queue ++ w.released).Nodup
  ordered : w.queue.Pairwise (d.Before prio w)
  arrived : ∀ t ∈ w.queue, w.arrival t < w.clock

variable {d : Discipline} {prio : Tid → Priority} {w : Waiters Tid Code} {t : Tid}

omit [DecidableEq Tid] in
theorem Waiters.Inv.start (code : Code) : (Waiters.start code : Waiters Tid Code).Inv d prio where
  nodup := List.nodup_nil
  ordered := List.Pairwise.nil
  arrived := fun _ ht => absurd ht List.not_mem_nil

omit [DecidableEq Tid] in
/-- The thread that is served first comes before all the others. -/
theorem Waiters.Inv.before_first {q : List Tid} (h : w.Inv d prio) (hq : w.queue = t :: q) :
    ∀ u ∈ q, d.Before prio w t u := by
  have ho := h.ordered
  rw [hq] at ho
  exact (List.pairwise_cons.mp ho).1

omit [DecidableEq Tid] in
theorem Waiters.Inv.not_mem_released (h : w.Inv d prio) (ht : t ∈ w.queue) : t ∉ w.released := by
  intro hr
  exact (List.nodup_append.mp h.nodup).2.2 t ht t hr rfl

omit [DecidableEq Tid] in
theorem Waiters.Inv.queue_nodup (h : w.Inv d prio) : w.queue.Nodup :=
  (List.nodup_append.mp h.nodup).1

omit [DecidableEq Tid] in
theorem Waiters.Inv.released_nodup (h : w.Inv d prio) : w.released.Nodup :=
  (List.nodup_append.mp h.nodup).2.1

/-! ## What the operations do to the queue -/

@[simp] theorem Waiters.setReturnCode_queue (w : Waiters Tid Code) (t : Tid) (code : Code) :
    (w.setReturnCode t code).queue = w.queue := rfl

@[simp] theorem Waiters.setReturnCode_released (w : Waiters Tid Code) (t : Tid) (code : Code) :
    (w.setReturnCode t code).released = w.released := rfl

@[simp] theorem Waiters.setReturnCode_self (w : Waiters Tid Code) (t : Tid) (code : Code) :
    (w.setReturnCode t code).returnCode t = code :=
  Function.update_self ..

theorem Waiters.setReturnCode_of_ne (w : Waiters Tid Code) {t u : Tid} (h : u ≠ t) (code : Code) :
    (w.setReturnCode t code).returnCode u = w.returnCode u :=
  Function.update_of_ne h ..

@[simp] theorem Waiters.enqueueCritical_released (w : Waiters Tid Code) (t : Tid)
    (c : Option Code) : (w.enqueueCritical d prio t c).released = w.released := rfl

@[simp] theorem Waiters.enqueueCritical_returnCode (w : Waiters Tid Code) (t : Tid)
    (c : Option Code) : (w.enqueueCritical d prio t c).returnCode = w.returnCode := rfl

theorem Waiters.mem_enqueueCritical {u : Tid} {c : Option Code} :
    u ∈ (w.enqueueCritical d prio t c).queue ↔ u = t ∨ u ∈ w.queue :=
  mem_enqueue d.operations_ne_default

@[simp] theorem Waiters.extractCritical_queue (w : Waiters Tid Code) (t : Tid) :
    (w.extractCritical d t).queue = w.queue.erase t :=
  extract_eq_erase d.operations_ne_default _ _

@[simp] theorem Waiters.extractCritical_released (w : Waiters Tid Code) (t : Tid) :
    (w.extractCritical d t).released = t :: w.released := rfl

@[simp] theorem Waiters.extractCritical_returnCode (w : Waiters Tid Code) (t : Tid) :
    (w.extractCritical d t).returnCode = w.returnCode := rfl

theorem Waiters.length_enqueueCritical (w : Waiters Tid Code) (t : Tid) (c : Option Code) :
    (w.enqueueCritical d prio t c).queue.length = w.queue.length + 1 := by
  cases d with
  | fifo => exact List.length_append
  | priority => exact length_stableInsert _ _ _

omit [DecidableEq Tid] in
theorem Waiters.firstLocked_eq_none : w.firstLocked = none ↔ w.queue = [] :=
  List.head?_eq_none_iff

omit [DecidableEq Tid] in
theorem Waiters.firstLocked_eq_some : w.firstLocked = some t ↔ ∃ q, w.queue = t :: q :=
  List.head?_eq_some_iff

/-- A timeout acts on a waiting thread that wants to time out, and on no
other. -/
theorem Waiters.timeout_cases (d : Discipline) (w : Waiters Tid Code) (t : Tid) :
    w.timeout d t = w ∨ ∃ code, t ∈ w.queue ∧ w.timeoutCode t = some code ∧
      w.timeout d t = (w.setReturnCode t code).extractCritical d t := by
  unfold Waiters.timeout
  split
  next code hc =>
    split
    next hm => exact .inr ⟨code, hm, hc, rfl⟩
    next => exact .inl rfl
  next => exact .inl rfl

theorem Waiters.flushTurn_cases (d : Discipline) (w : Waiters Tid Code) (status : Code) :
    w.flushTurn d status = w ∨ ∃ t, t ∈ w.queue ∧
      w.flushTurn d status = (w.setReturnCode t status).extractCritical d t := by
  unfold Waiters.flushTurn
  split
  next t ht => exact .inr ⟨t, List.mem_of_mem_head? ht, rfl⟩
  next => exact .inl rfl

/-! ## The operations keep the invariant -/

theorem Waiters.Inv.setReturnCode (h : w.Inv d prio) (t : Tid) (code : Code) :
    (w.setReturnCode t code).Inv d prio := by
  refine ⟨h.nodup, ?_, h.arrived⟩
  cases d <;> exact h.ordered

theorem Waiters.Inv.enqueueCritical (h : w.Inv d prio) (ht : w.Idle t) (c : Option Code) :
    (w.enqueueCritical d prio t c).Inv d prio := by
  have harr : ∀ u ∈ w.queue, (w.enqueueCritical d prio t c).arrival u = w.arrival u := by
    intro u hu
    have hne : u ≠ t := fun e => ht.1 (e ▸ hu)
    exact Function.update_of_ne hne _ _
  have hself : (w.enqueueCritical d prio t c).arrival t = w.clock := Function.update_self ..
  have hbefore : ∀ u ∈ w.queue, (w.enqueueCritical d prio t c).arrival u <
      (w.enqueueCritical d prio t c).arrival t := by
    intro u hu
    rw [harr u hu, hself]
    exact h.arrived u hu
  constructor
  case nodup =>
    rw [List.nodup_append]
    refine ⟨nodup_enqueue h.queue_nodup ht.1, h.released_nodup, ?_⟩
    intro a ha b hb
    rcases mem_enqueueCritical.mp ha with rfl | ha
    · exact fun e => ht.2 (e ▸ hb)
    · exact fun e => h.not_mem_released ha (e ▸ hb)
  case ordered =>
    have hord := h.ordered
    cases d with
    | fifo =>
      show (w.queue ++ [t]).Pairwise _
      rw [List.pairwise_append]
      refine ⟨hord.imp_of_mem ?_, List.pairwise_singleton _ _, ?_⟩
      · intro a b ha hb hab
        show _ < _
        rw [harr a ha, harr b hb]
        exact hab
      · intro a ha b hb
        rw [List.mem_singleton.mp hb]
        exact hbefore a ha
    | priority =>
      apply pairwise_before_stableInsert
      · refine hord.imp_of_mem ?_
        intro a b ha hb hab
        show _ ∨ _ ∧ _
        rw [harr a ha, harr b hb]
        exact hab
      · exact hbefore
  case arrived =>
    intro u hu
    show _ < w.clock + 1
    rcases mem_enqueueCritical.mp hu with rfl | hu
    · rw [hself]
      exact Nat.lt_succ_self _
    · rw [harr u hu]
      exact Nat.lt_succ_of_lt (h.arrived u hu)

theorem Waiters.Inv.extractCritical (h : w.Inv d prio) (ht : t ∈ w.queue) :
    (w.extractCritical d t).Inv d prio := by
  have hsub : (w.queue.erase t).Sublist w.queue := List.erase_sublist
  constructor
  case nodup =>
    rw [extractCritical_queue, extractCritical_released]
    have hp : (w.queue.erase t ++ t :: w.released).Perm (w.queue ++ w.released) :=
      List.perm_middle.trans ((List.perm_cons_erase ht).symm.append_right _)
    exact hp.nodup_iff.mpr h.nodup
  case ordered =>
    rw [extractCritical_queue]
    have hord := h.ordered.sublist hsub
    cases d <;> exact hord
  case arrived =>
    intro u hu
    rw [extractCritical_queue] at hu
    exact h.arrived u (hsub.subset hu)

theorem Waiters.Inv.timeout (h : w.Inv d prio) (t : Tid) : (w.timeout d t).Inv d prio := by
  rcases Waiters.timeout_cases d w t with e | ⟨code, ht, -, e⟩
  · rw [e]
    exact h
  · rw [e]
    exact (h.setReturnCode t code).extractCritical ht

theorem Waiters.Inv.resume (h : w.Inv d prio) (t : Tid) : (w.resume t).Inv d prio := by
  refine ⟨?_, ?_, h.arrived⟩
  · exact h.nodup.sublist (List.erase_sublist.append_left _)
  · have hord := h.ordered
    cases d <;> exact hord

/-! ## Released threads -/

/-- How many released threads carry a return code that satisfies `p`. -/
def Waiters.releasedCount (p : Tid → Code → Bool) (w : Waiters Tid Code) : Nat :=
  w.released.countP fun t => p t (w.returnCode t)

section

variable {p p' : Tid → Code → Bool} {v : Waiters Tid Code} {code : Code}

omit [DecidableEq Tid] in
/-- Threads that are not released do not count. -/
theorem Waiters.releasedCount_congr (hr : v.released = w.released)
    (hc : ∀ u ∈ w.released, p' u (v.returnCode u) = p u (w.returnCode u)) :
    v.releasedCount p' = w.releasedCount p := by
  unfold Waiters.releasedCount
  rw [hr]
  refine List.countP_congr ?_
  intro u hu
  rw [hc u hu]

theorem Waiters.releasedCount_setReturnCode (ht : t ∉ w.released) :
    (w.setReturnCode t code).releasedCount p = w.releasedCount p := by
  refine releasedCount_congr rfl ?_
  intro u hu
  have hne : u ≠ t := fun e => ht (e ▸ hu)
  rw [setReturnCode_of_ne _ hne]

theorem Waiters.releasedCount_extractCritical :
    (w.extractCritical d t).releasedCount p =
      w.releasedCount p + if p t (w.returnCode t) then 1 else 0 :=
  List.countP_cons

/-- A thread that leaves the queue with a code of its own. -/
theorem Waiters.releasedCount_expel (ht : t ∉ w.released) :
    ((w.setReturnCode t code).extractCritical d t).releasedCount p =
      w.releasedCount p + if p t code then 1 else 0 := by
  rw [releasedCount_extractCritical, releasedCount_setReturnCode ht, setReturnCode_self]

theorem Waiters.releasedCount_resume (ht : t ∈ w.released) :
    w.releasedCount p = (w.resume t).releasedCount p + if p t (w.returnCode t) then 1 else 0 := by
  have hp := (List.perm_cons_erase ht).countP_eq fun u => p u (w.returnCode u)
  rw [List.countP_cons] at hp
  exact hp

omit [DecidableEq Tid] in
theorem Waiters.releasedCount_nil (h : w.released = []) : w.releasedCount p = 0 := by
  unfold Waiters.releasedCount
  rw [h]
  rfl

end

/-! ## Codes of the waiting threads -/

/-- The operation that enqueued a thread has promised it success, and its
timeout will say otherwise. -/
structure Waiters.Promises (ok : Code) (w : Waiters Tid Code) : Prop where
  returnCode : ∀ t ∈ w.queue, w.returnCode t = ok
  timeoutCode : ∀ t ∈ w.queue, w.timeoutCode t ≠ some ok

section

variable {ok code : Code}

omit [DecidableEq Tid] in
theorem Waiters.Promises.start : (Waiters.start code : Waiters Tid Code).Promises ok where
  returnCode := fun _ ht => absurd ht List.not_mem_nil
  timeoutCode := fun _ ht => absurd ht List.not_mem_nil

theorem Waiters.Promises.setReturnCode (h : w.Promises ok) (ht : t ∉ w.queue) (code : Code) :
    (w.setReturnCode t code).Promises ok := by
  refine ⟨?_, h.timeoutCode⟩
  intro u hu
  have hne : u ≠ t := fun e => ht (e ▸ hu)
  rw [setReturnCode_of_ne _ hne]
  exact h.returnCode u hu

theorem Waiters.Promises.enqueueCritical (h : w.Promises ok) (hok : w.returnCode t = ok)
    {c : Option Code} (hc : c ≠ some ok) : (w.enqueueCritical d prio t c).Promises ok := by
  constructor
  · intro u hu
    rcases mem_enqueueCritical.mp hu with rfl | hu
    · exact hok
    · exact h.returnCode u hu
  · intro u hu
    rcases eq_or_ne u t with rfl | hne
    · simpa [Waiters.enqueueCritical] using hc
    · have hu := (mem_enqueueCritical.mp hu).resolve_left hne
      simpa [Waiters.enqueueCritical, hne] using h.timeoutCode u hu

/-- Whatever the code of a thread becomes, the queue loses it with the code. -/
theorem Waiters.Promises.expel (h : w.Promises ok) (hq : w.queue.Nodup) (t : Tid) (code : Code) :
    ((w.setReturnCode t code).extractCritical d t).Promises ok := by
  have hmem : ∀ u ∈ ((w.setReturnCode t code).extractCritical d t).queue, u ≠ t ∧ u ∈ w.queue := by
    intro u hu
    rw [extractCritical_queue] at hu
    exact hq.mem_erase_iff.mp hu
  constructor
  · intro u hu
    rw [extractCritical_returnCode, setReturnCode_of_ne _ (hmem u hu).1]
    exact h.returnCode u (hmem u hu).2
  · intro u hu
    exact h.timeoutCode u (hmem u hu).2

theorem Waiters.Promises.extractCritical (h : w.Promises ok) (t : Tid) :
    (w.extractCritical d t).Promises ok := by
  have hmem : ∀ u ∈ (w.extractCritical d t).queue, u ∈ w.queue := by
    intro u hu
    rw [extractCritical_queue] at hu
    exact List.mem_of_mem_erase hu
  exact ⟨fun u hu => h.returnCode u (hmem u hu), fun u hu => h.timeoutCode u (hmem u hu)⟩

end

end Rtems.ThreadQueue
