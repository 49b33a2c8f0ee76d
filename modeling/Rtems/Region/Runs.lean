import Rtems.Region.Served

/-!
# Who waits for a region

A thread at the head of the queue waits because the heap has nothing for it.  Processing the
queue sees to that after a segment was returned or resized.  An extension and a timeout at the
head of the queue do not process it, and a timeout while it is processed may end that at a thread
that is gone: there a thread is left behind that could be served.
-/

namespace Rtems.Region

open ThreadQueue

variable {H Seg Tid : Type} [DecidableEq Seg] [DecidableEq Tid] {heap : Heap H Seg}
  {d : Discipline} {prio : Tid → Priority} {s s₀ : State Tid Seg H} {t : Tid} {e : Event Tid Seg}

/-- Unless the queue is being processed, the heap has nothing for the first thread. -/
def HeadWaits (heap : Heap H Seg) (s : State Tid Seg H) : Prop :=
  Quiescent s → ∀ t, s.waitQueue.queue.head? = some t →
    heap.allocate s.memory (s.count t) = none

section

omit [DecidableEq Tid]

/-- The first thread of a queue is the one that arrived or the one before. -/
theorem head_enqueue {q : List Tid} {u : Tid}
    (h : (d.operations.enqueue prio q t).head? = some u) : u = t ∨ q.head? = some u := by
  cases q with
  | nil =>
    left
    cases d with
    | fifo => exact (Option.some.inj h).symm
    | priority => exact (Option.some.inj h).symm
  | cons v q =>
    cases d with
    | fifo => exact .inr h
    | priority =>
      have hs : (Lib.stableInsert prio t (v :: q)).head? = some u := h
      unfold Lib.stableInsert at hs
      rw [List.orderedInsert_cons] at hs
      split at hs
      next => exact .inl (Option.some.inj hs).symm
      next => exact .inr hs

end

theorem HeadWaits.getSegment (hl : heap.Lawful) (h : HeadWaits heap s) (hp : s.process = none)
    (ht : s.waitQueue.Idle t) (segment : Bool) (size : Nat) (noWait : Bool) (timeout : Nat) :
    HeadWaits heap (Region.getSegment heap d prio s t segment size noWait timeout) := by
  rcases getSegment_cases heap d prio s t segment size noWait timeout with
    ⟨status, -, e⟩ | ⟨p, memory, ha, e⟩ | ⟨ha, e⟩
  · rw [e]
    exact fun _ => h hp
  · rw [e]
    intro _ u hu
    exact hl.allocate_mono ha (h hp u hu)
  · rw [e]
    intro _ u hu
    show heap.allocate s.memory (Function.update s.count t size u) = none
    rcases head_enqueue hu with rfl | hu
    · rw [Function.update_self]
      exact ha
    · have hne : u ≠ t := fun e => ht.1 (e ▸ List.mem_of_mem_head? hu)
      rw [Function.update_of_ne hne]
      exact h hp u hu

section

omit [DecidableEq Seg]

theorem HeadWaits.threadTimeout (h : HeadWaits heap s)
    (he : (Event.threadTimeout t : Event Tid Seg).LeavesNone heap s) :
    HeadWaits heap { s with waitQueue := s.waitQueue.timeout d t } := by
  rcases Waiters.timeout_cases d s.waitQueue t with e | ⟨c, -, hc, e⟩
  · rw [e]
    exact h
  · intro hq u hu
    rw [e, Waiters.extractCritical_queue, Waiters.setReturnCode_queue] at hu
    cases hqueue : s.waitQueue.queue with
    | nil =>
      rw [hqueue] at hu
      cases hu
    | cons v q =>
      rw [hqueue] at hu
      rcases eq_or_ne v t with rfl | hne
      · rw [List.erase_cons_head] at hu
        cases q with
        | nil => cases hu
        | cons w q =>
          cases hu
          refine he hq ?_ u q hqueue
          rw [hc]
          exact nofun
      · rw [List.erase_cons_tail (by simpa using hne)] at hu
        refine h hq u ?_
        rw [hqueue]
        exact hu

end

theorem HeadWaits.apply (hl : heap.Lawful) (h : HeadWaits heap s) {e : Event Tid Seg}
    (he : e.Enabled heap s) (hn : e.LeavesNone heap s) :
    HeadWaits heap (e.apply heap d prio s) := by
  cases e with
  | getSegment t segment size noWait timeout =>
    exact h.getSegment hl he.1 he.2 segment size noWait timeout
  | returnSegment p =>
    show HeadWaits heap (Region.returnSegment heap s p).2
    unfold Region.returnSegment
    split
    next => exact h
    next => exact nofun
  | resizeSegment p size =>
    show HeadWaits heap (Region.resizeSegment heap s p size).2
    have hfail := hl.resize_failed (h := s.memory) (p := p) (n := size)
    unfold Region.resizeSegment
    split
    next => exact nofun
    next memory hr =>
      rw [hr] at hfail
      obtain rfl : memory = s.memory := hfail nofun
      exact h
    next memory hr =>
      rw [hr] at hfail
      obtain rfl : memory = s.memory := hfail nofun
      exact h
  | extend startingAddress length =>
    show HeadWaits heap (Region.extend heap s startingAddress length).2
    unfold Region.extend
    split
    next => exact h
    next hne =>
      dsimp only
      split
      next => exact fun _ => hn hne
      next => exact fun _ => hn hne
  | processFirst =>
    show HeadWaits heap (Region.processFirst s)
    unfold Region.processFirst
    split
    next hf =>
      intro _ u hu
      change s.waitQueue.firstLocked = some u at hu
      rw [hf] at hu
      cases hu
    next => exact nofun
  | processAllocate t =>
    show HeadWaits heap (Region.processAllocate heap s t)
    unfold Region.processAllocate
    split
    next ha =>
      intro _ u hu
      rcases eq_or_ne u t with rfl | hne
      · exact ha
      · exact hn ha u hne hu
    next => exact nofun
  | processExtract t => exact nofun
  | processCode t => exact nofun
  | threadTimeout t => exact h.threadTimeout hn
  | complete t => exact h

/-! ## The runs of a region -/

/-- What is asked of a state: the first thread waits for memory the heap has not got, each segment
went to one call and that call has success to report, and the counter counts the segments. -/
structure Served (heap : Heap H Seg) (s : State Tid Seg H) : Prop where
  headWaits : HeadWaits heap s
  /-- No segment is out twice, and no call got two. -/
  once : s.outstanding.Nodup ∧ (s.handouts.map Prod.snd).Nodup
  handed : ∀ p ∈ s.outstanding, ∃ n, (p, n) ∈ s.handouts
  /-- The call with a segment has returned success and the segment, or its thread is about to. -/
  given : Quiescent s → ∀ x ∈ s.handouts, s.completed x.2 = some (.successful, some x.1) ∨
    ∃ t ∈ s.waitQueue.released, s.call t = x.2 ∧ s.segment t = some x.1 ∧
      s.waitQueue.returnCode t = .successful
  /-- A call that returned success has got a segment, and no other call has. -/
  success : ∀ n status a, s.completed n = some (status, a) →
    (status = .successful ↔ a ≠ none) ∧ ∀ p, a = some p → (p, n) ∈ s.handouts
  used : s.numberOfUsedBlocks = s.outstanding.length

section

omit [DecidableEq Seg]

theorem Inv.given (h : Inv heap d prio s) (hq : Quiescent s) {x : Seg × Nat}
    (hx : x ∈ s.handouts) : s.completed x.2 = some (.successful, some x.1) ∨
      ∃ t ∈ s.waitQueue.released, s.call t = x.2 ∧ s.segment t = some x.1 ∧
        s.waitQueue.returnCode t = .successful := by
  rcases h.calls.handed x hx with hc | ⟨t, ht, hct, hst⟩
  · exact .inl hc
  · right
    have hqueue : t ∉ s.waitQueue.queue := by
      intro hin
      have hnone : s.segment t = none := by
        refine h.codes.empty t hin ?_
        rw [show s.process = none from hq]
        exact nofun
      rw [hnone] at hst
      cases hst
    have hin : t ∈ s.waitQueue.released := by
      by_contra hr
      exact ht ⟨hqueue, hr⟩
    refine ⟨t, hin, hct, hst, ?_⟩
    refine (h.codes.returning t hin (Unpicked.not_busy (.inl hq) t)).mpr ?_
    rw [hst]
    exact nofun

theorem Inv.served (h : Inv heap d prio s) (hw : HeadWaits heap s) : Served heap s where
  headWaits := hw
  once := ⟨h.books.nodup, h.calls.nodup⟩
  handed := h.books.handed
  given := fun hq _ hx => h.given hq hx
  success := h.calls.success
  used := h.books.used

end

/-- A heap without fragmentation: the bytes left and the blocks, each with its name and size. -/
structure Bytes where
  left : Nat
  blocks : List (Nat × Nat)
deriving DecidableEq, Repr

/-- A name that no block has. -/
def Bytes.fresh (h : Bytes) : Nat := (h.blocks.map Prod.fst).sum + 1

def Bytes.sizeOf (h : Bytes) (p : Nat) : Option Nat :=
  (h.blocks.find? fun b => b.1 = p).map Prod.snd

/-- The operations of a heap that counts its bytes. -/
def bytes : Heap Bytes Nat where
  allocate h n := if n ≤ h.left then some (h.fresh, ⟨h.left - n, (h.fresh, n) :: h.blocks⟩) else none
  free h p := (h.sizeOf p).map fun n => ⟨h.left + n, h.blocks.filter fun b => b.1 ≠ p⟩
  resizeBlock h p n :=
    match h.sizeOf p with
    | none => (.fatalError, h)
    | some k =>
      if n ≤ k + h.left then
        (.successful, ⟨k + h.left - n, h.blocks.map fun b => if b.1 = p then (p, n) else b⟩)
      else (.unsatisfied, h)
  extend h _ length := (length, { h with left := h.left + length })
  live h := (h.blocks.map Prod.fst).toFinset

/-- A region of 100 bytes. -/
def small : State Nat Nat Bytes := start ⟨100, []⟩ 100 100

/-- The states after each event. -/
def after (s : State Nat Nat Bytes) (e : Event Nat Nat) : State Nat Nat Bytes :=
  e.apply bytes .fifo (fun _ => 0) s

/-- One thread has the whole region and two others wait, each for the greater part of it. -/
def crowded : State Nat Nat Bytes :=
  after (after (after small (.getSegment 0 true 100 false 0)) (.getSegment 1 true 60 false 0))
    (.getSegment 2 true 60 false 0)

/-- One thread has the whole region and another one waits for it. -/
def contended : State Nat Nat Bytes :=
  after (after small (.getSegment 0 true 100 false 0)) (.getSegment 1 true 100 false 0)

/-- The first thread returns its segment.  The second one is served, and then there is nothing for
the third. -/
def returned : State Nat Nat Bytes :=
  ([.returnSegment 1, .processFirst, .processAllocate 1, .processExtract 1, .processCode 1,
    .processFirst, .processAllocate 2, .complete 1] : List (Event Nat Nat)).foldl after crowded

/-- The region is extended by 200 bytes while the thread waits. -/
def extended : State Nat Nat Bytes := after contended (.extend 4096 200)

theorem Reachable.after {P : State Nat Nat Bytes → Event Nat Nat → Prop} {s₀ s : State Nat Nat Bytes}
    (h : Reachable bytes .fifo (fun _ => 0) P s₀ s) (e : Event Nat Nat) (he : e.Enabled bytes s)
    (hp : P s e) : Reachable bytes .fifo (fun _ => 0) P s₀ (Region.after s e) :=
  h.tail ⟨e, he, hp, rfl⟩

end Rtems.Region
