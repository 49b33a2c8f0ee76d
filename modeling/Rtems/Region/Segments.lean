import Rtems.ThreadQueue.Waiters

/-!
# Regions

The model of `regiongetsegment.c`, `regionreturnsegment.c`, `regionresizesegment.c`,
`regionextend.c` and `regionprocessqueue.c`.  The directives run under the allocator mutex,
so that a directive is one step up to the point where it blocks or starts to process the
queue.  While the queue is processed thread dispatching is disabled: no other thread takes
a step then, and what does run are the timeouts of the threads that wait.

A region has a heap, and this model says nothing about how that works.  It is a parameter
with the five operations a region uses, and `Heap.Lawful` is what the region relies on.
-/

namespace Rtems.Region

open ThreadQueue

/-- `rtems_status_code`, as far as the region directives return it. -/
inductive Status where
  | successful
  | timeout
  | unsatisfied
  | invalidSize
  | invalidAddress
deriving DecidableEq, Repr

/-- `Heap_Resize_status`. -/
inductive ResizeStatus where
  | successful
  | unsatisfied
  | fatalError
deriving DecidableEq, Repr

/-! ## The heap of a region -/

/-- `_Heap_Allocate`, `_Heap_Free`, `_Heap_Resize_block` and `_Heap_Extend` over heaps of type `H`
whose memory areas are named by `Seg`, and the set of areas that are allocated. -/
structure Heap (H Seg : Type) where
  allocate : H → Nat → Option (Seg × H)
  free : H → Seg → Option H
  resizeBlock : H → Seg → Nat → ResizeStatus × H
  /-- The number of bytes gained, and the heap. -/
  extend : H → Nat → Nat → Nat × H
  live : H → Finset Seg

variable {H Seg Tid : Type} [DecidableEq Seg] [DecidableEq Tid]

/-- What a region relies on.  Freeing and resizing come with no promise for the address of an
area that is not allocated. -/
structure Heap.Lawful (heap : Heap H Seg) : Prop where
  allocate_live : ∀ {h n p h'}, heap.allocate h n = some (p, h') →
    p ∉ heap.live h ∧ heap.live h' = insert p (heap.live h)
  /-- Memory that is given away helps no other request. -/
  allocate_mono : ∀ {h n p h' m}, heap.allocate h n = some (p, h') →
    heap.allocate h m = none → heap.allocate h' m = none
  free_live : ∀ {h p h'}, heap.free h p = some h' → p ∈ heap.live h →
    heap.live h' = (heap.live h).erase p
  resize_live : ∀ {h p n}, p ∈ heap.live h → heap.live (heap.resizeBlock h p n).2 = heap.live h
  resize_failed : ∀ {h p n}, (heap.resizeBlock h p n).1 ≠ .successful →
    (heap.resizeBlock h p n).2 = h
  extend_live : ∀ {h start length}, heap.live (heap.extend h start length).2 = heap.live h

/-! ## The region -/

/-- Where `_Region_Process_queue` stands. -/
inductive Process (Tid : Type) where
  /-- Before `_Thread_queue_First`. -/
  | first
  /-- Before `_Region_Allocate_segment` for the thread. -/
  | allocate (t : Tid)
  /-- The thread has its segment and is to be extracted. -/
  | extract (t : Tid)
  /-- The return code of the thread is to be written. -/
  | code (t : Tid)
deriving DecidableEq, Repr

/-- `Region_Control`, and the calls of `rtems_region_get_segment`.  A call has a number, and the
ghosts say which segment was handed to which call and how the calls ended. -/
structure State (Tid Seg H : Type) where
  waitQueue : Waiters Tid Status
  length : Nat
  maximumSegmentSize : Nat
  numberOfUsedBlocks : Nat
  memory : H
  /-- `Wait.count`. -/
  count : Tid → Nat
  /-- What `Wait.return_argument` points to. -/
  segment : Tid → Option Seg
  process : Option (Process Tid)
  /-- The number of the last call of a thread. -/
  call : Tid → Nat
  calls : Nat
  handouts : List (Seg × Nat)
  /-- The segments that have been handed out and not been returned. -/
  outstanding : List Seg
  completed : Nat → Option (Status × Option Seg)

/-- A region right after `rtems_region_create`. -/
def start (memory : H) (length maximumSegmentSize : Nat) : State Tid Seg H where
  waitQueue := .start .successful
  length := length
  maximumSegmentSize := maximumSegmentSize
  numberOfUsedBlocks := 0
  memory := memory
  count := fun _ => 0
  segment := fun _ => none
  process := none
  call := fun _ => 0
  calls := 0
  handouts := []
  outstanding := []
  completed := fun _ => none

namespace State

/-- A thread starts a call: nothing is in `*segment` yet. -/
def enter (s : State Tid Seg H) (t : Tid) : State Tid Seg H :=
  { s with
    segment := Function.update s.segment t none
    call := Function.update s.call t s.calls
    calls := s.calls + 1 }

/-- The call of a thread returns. -/
def finish (s : State Tid Seg H) (t : Tid) (status : Status) : State Tid Seg H :=
  { s with completed := Function.update s.completed (s.call t) (some (status, s.segment t)) }

/-- Store a segment that was allocated, and count it. -/
def give (s : State Tid Seg H) (t : Tid) (p : Seg) (memory : H) : State Tid Seg H :=
  { s with
    memory := memory
    numberOfUsedBlocks := s.numberOfUsedBlocks + 1
    segment := Function.update s.segment t (some p)
    handouts := (p, s.call t) :: s.handouts
    outstanding := p :: s.outstanding }

end State

/-! ## The directives -/

/-- `rtems_region_get_segment`.  `segment` says that the pointer is not `NULL`. -/
def getSegment (heap : Heap H Seg) (d : Discipline) (prio : Tid → Priority) (s : State Tid Seg H)
    (executing : Tid) (segment : Bool) (size : Nat) (noWait : Bool) (timeout : Nat) :
    State Tid Seg H :=
  let s := s.enter executing
  if segment = false then s.finish executing .invalidAddress
  else if size = 0 then s.finish executing .invalidSize
  else if size > s.maximumSegmentSize then s.finish executing .invalidSize
  else
    match heap.allocate s.memory size with
    | some (p, memory) => (s.give executing p memory).finish executing .successful
    | none =>
      if noWait then s.finish executing .unsatisfied
      else
        { s with
          count := Function.update s.count executing size
          waitQueue := s.waitQueue.enqueueCritical d prio executing
            (if timeout ≠ 0 then some .timeout else none) }

/-- `rtems_region_return_segment`, up to the call of `_Region_Process_queue`. -/
def returnSegment (heap : Heap H Seg) (s : State Tid Seg H) (p : Seg) : Status × State Tid Seg H :=
  match heap.free s.memory p with
  | none => (.invalidAddress, s)
  | some memory =>
    (.successful,
      { s with
        memory := memory
        numberOfUsedBlocks := s.numberOfUsedBlocks - 1
        outstanding := s.outstanding.erase p
        process := some .first })

/-- `rtems_region_resize_segment`, up to the call of `_Region_Process_queue`. -/
def resizeSegment (heap : Heap H Seg) (s : State Tid Seg H) (p : Seg) (size : Nat) :
    Status × State Tid Seg H :=
  match heap.resizeBlock s.memory p size with
  | (.successful, memory) => (.successful, { s with memory := memory, process := some .first })
  | (.unsatisfied, memory) => (.unsatisfied, { s with memory := memory })
  | (.fatalError, memory) => (.invalidAddress, { s with memory := memory })

/-- `rtems_region_extend`. -/
def extend (heap : Heap H Seg) (s : State Tid Seg H) (startingAddress length : Nat) :
    Status × State Tid Seg H :=
  if startingAddress = 0 then (.invalidAddress, s)
  else
    match heap.extend s.memory startingAddress length with
    | (amount, memory) =>
      if amount > 0 then
        (.successful,
          { s with
            memory := memory
            length := s.length + amount
            maximumSegmentSize := s.maximumSegmentSize + amount })
      else (.invalidAddress, { s with memory := memory })

/-! ## `_Region_Process_queue` -/

/-- `_Thread_queue_First`, at the head of the loop. -/
def processFirst (s : State Tid Seg H) : State Tid Seg H :=
  match s.waitQueue.firstLocked with
  | none => { s with process := none }
  | some t => { s with process := some (.allocate t) }

/-- `_Region_Allocate_segment` for the thread, up to `_Thread_queue_Extract`.  It may have timed out
meanwhile. -/
def processAllocate (heap : Heap H Seg) (s : State Tid Seg H) (t : Tid) : State Tid Seg H :=
  match heap.allocate s.memory (s.count t) with
  | none => { s with process := none }
  | some (p, memory) => { s.give t p memory with process := some (.extract t) }

def processExtract (d : Discipline) (s : State Tid Seg H) (t : Tid) : State Tid Seg H :=
  { s with waitQueue := s.waitQueue.extract d t, process := some (.code t) }

def processCode (s : State Tid Seg H) (t : Tid) : State Tid Seg H :=
  { s with waitQueue := s.waitQueue.setReturnCode t .successful, process := some .first }

/-! ## Runs -/

/-- What can happen to a region. -/
inductive Event (Tid Seg : Type) where
  | getSegment (executing : Tid) (segment : Bool) (size : Nat) (noWait : Bool) (timeout : Nat)
  | returnSegment (p : Seg)
  | resizeSegment (p : Seg) (size : Nat)
  | extend (startingAddress length : Nat)
  | processFirst
  | processAllocate (t : Tid)
  | processExtract (t : Tid)
  | processCode (t : Tid)
  | threadTimeout (t : Tid)
  /-- A released thread returns from its call. -/
  | complete (t : Tid)
deriving DecidableEq, Repr

def Event.apply (heap : Heap H Seg) (d : Discipline) (prio : Tid → Priority)
    (s : State Tid Seg H) : Event Tid Seg → State Tid Seg H
  | .getSegment t segment size noWait timeout => Region.getSegment heap d prio s t segment size noWait timeout
  | .returnSegment p => (Region.returnSegment heap s p).2
  | .resizeSegment p size => (Region.resizeSegment heap s p size).2
  | .extend startingAddress length => (Region.extend heap s startingAddress length).2
  | .processFirst => Region.processFirst s
  | .processAllocate t => Region.processAllocate heap s t
  | .processExtract t => Region.processExtract d s t
  | .processCode t => Region.processCode s t
  | .threadTimeout t => { s with waitQueue := s.waitQueue.timeout d t }
  | .complete t => { s with waitQueue := s.waitQueue.resume t }.finish t (s.waitQueue.returnCode t)

/-- When it can.  Callers return and resize areas that were handed out, or get an error. -/
def Event.Enabled (heap : Heap H Seg) (s : State Tid Seg H) : Event Tid Seg → Prop
  | .getSegment t _ _ _ _ => s.process = none ∧ s.waitQueue.Idle t
  | .returnSegment p => s.process = none ∧ (p ∈ s.outstanding ∨ heap.free s.memory p = none)
  | .resizeSegment p size => s.process = none ∧
      (p ∈ s.outstanding ∨ (heap.resizeBlock s.memory p size).1 ≠ .successful)
  | .extend _ _ => s.process = none
  | .processFirst => s.process = some .first
  | .processAllocate t => s.process = some (.allocate t)
  | .processExtract t => s.process = some (.extract t)
  | .processCode t => s.process = some (.code t)
  | .threadTimeout _ => True
  | .complete t => s.process = none ∧ t ∈ s.waitQueue.released

/-- The event leaves no first thread behind that the heap could serve: an extension is not enough
for it, a thread that times out in front of another one was not all that stood in its way, and the
loop does not end at a thread that is not the first one any more. -/
def Event.LeavesNone (heap : Heap H Seg) (s : State Tid Seg H) : Event Tid Seg → Prop
  | .extend startingAddress length => startingAddress ≠ 0 →
      ∀ t, s.waitQueue.queue.head? = some t →
        heap.allocate (heap.extend s.memory startingAddress length).2 (s.count t) = none
  | .threadTimeout t => s.process = none → s.waitQueue.timeoutCode t ≠ none →
      ∀ u q, s.waitQueue.queue = t :: u :: q → heap.allocate s.memory (s.count u) = none
  | .processAllocate t => heap.allocate s.memory (s.count t) = none →
      ∀ u, u ≠ t → s.waitQueue.queue.head? = some u → heap.allocate s.memory (s.count u) = none
  | _ => True

/-- The states of the runs of a region whose events all satisfy `p`. -/
def Reachable (heap : Heap H Seg) (d : Discipline) (prio : Tid → Priority)
    (p : State Tid Seg H → Event Tid Seg → Prop) (s₀ : State Tid Seg H) : State Tid Seg H → Prop :=
  Relation.ReflTransGen (fun s s' => ∃ e : Event Tid Seg, e.Enabled heap s ∧ p s e ∧
    s' = e.apply heap d prio s) s₀

/-- No directive is under way. -/
def Quiescent (s : State Tid Seg H) : Prop := s.process = none

end Rtems.Region
