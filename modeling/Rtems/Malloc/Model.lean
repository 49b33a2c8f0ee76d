import Rtems.Heap.Contents

/-!
# The C program heap

The model of `malloc.c`, `free.c` and `malloc_deferred.c` over the heap of
`Rtems.Heap`.  An area that is freed where dispatching is disabled becomes a node
of a chain, and a later `malloc` gives the areas of the chain back to the heap.
What `malloc` calls when the heap has no area, the extend handler, is a parameter.
-/

namespace Rtems.Malloc

/-- What `malloc_is_system_state_OK` looks at. -/
structure Context where
  systemStateIsUp : Bool
  dispatchIsEnabled : Bool
deriving DecidableEq, Repr

/-- `RTEMS_Malloc_Heap` and `RTEMS_Malloc_GC_list`.  Ghost: the areas that were given back to the
heap, first one first. -/
structure State where
  heap : Heap.State
  gcList : List Nat
  freed : List Nat

/-- `rtems_heap_extend_handler`.  The result is none if it does not return. -/
abbrev ExtendHandler := State → Nat → Option (State × Nat)

/-- `rtems_heap_null_extend`. -/
def heapNullExtend : ExtendHandler := fun s _ => some (s, 0)

/-- `malloc_is_system_state_OK`. -/
def isSystemStateOk (ctx : Context) : Bool := ! ctx.systemStateIsUp || ctx.dispatchIsEnabled

/-- `malloc_deferred_free`. -/
def deferredFree (s : State) (pointer : Nat) : State := { s with gcList := s.gcList ++ [pointer] }

/-- `free`. -/
def free (ctx : Context) (s : State) (ptr : Nat) : State :=
  if ptr = 0 then s
  else if ! isSystemStateOk ctx then deferredFree s ptr
  else { s with
    heap := (Heap.free s.heap ptr).1
    freed := s.freed ++ [ptr] }

/-- `malloc_deferred_frees_process`. -/
def deferredFreesProcess (ctx : Context) : Nat → State → Option State
  | 0, _ => none
  | fuel + 1, s =>
    match s.gcList with
    | [] => some s
    | toBeFreed :: rest =>
      deferredFreesProcess ctx fuel (free ctx { s with gcList := rest } toBeFreed)

/-- `malloc`. -/
def malloc (extendHandler : ExtendHandler) (fuel : Nat) (ctx : Context) (s : State) (size : Nat) :
    Option (State × Nat) := do
  let s ← deferredFreesProcess ctx fuel s
  if size = 0 then some (s, 0)
  else if ! isSystemStateOk ctx then some (s, 0)
  else
    let (heap, returnThis) ← Heap.allocate fuel s.heap size
    let s := { s with heap := heap }
    if returnThis = 0 then extendHandler s size else some (s, returnThis)

end Rtems.Malloc
