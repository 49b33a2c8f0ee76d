import Rtems.Score.Types

/-!
# The table of interrupt handlers

The model of `irq-generic.c` as `bsp/irq.h` configures it: the vectors begin at `0`, there is no
index table, and the entries behind the first one of a vector come from the heap.  The template
has one vector; the model leaves the last one open, since a board support package chooses it.

The walks along the entries take a bound on their turns.  What the board support package and the
heap answer is part of a call.
-/

namespace Rtems.Interrupt

/-- `rtems_status_code`, as far as the calls return it on their own account.  A board support
package may return others as well. -/
inductive Status where
  | successful
  | internalError
  | invalidId
  | invalidAddress
  | calledFromIsr
  | unsatisfied
  | resourceInUse
  | tooMany
  | noMemory
  | ioError
deriving DecidableEq, Repr

/-- A handler routine, or `bsp_interrupt_handler_empty`, which only this file knows. -/
inductive Handler (H : Type) where
  | empty
  | routine (h : H)
deriving DecidableEq, Repr

/-- The address of an entry: in `bsp_interrupt_handler_table`, or from the heap. -/
inductive Ref where
  | table (index : Nat)
  | heap (a : Nat)
deriving DecidableEq, Repr

/-- `bsp_interrupt_handler_entry`.  Arguments and texts are addresses. -/
structure Entry (H : Type) where
  handler : Handler H
  arg : Nat
  info : Option Nat
  next : Option Ref

/-- The entries, `bsp_interrupt_handler_unique_table`, and what the heap has given out. -/
structure Table (H : Type) where
  entry : Ref → Entry H
  unique : Nat → Bool
  allocated : List Nat

variable {H : Type} [DecidableEq H]

/-- `BSP_INTERRUPT_VECTOR_MIN`. -/
def vectorMin : Nat := 0

/-- `BSP_INTERRUPT_HANDLER_TABLE_SIZE`. -/
def tableSize (vectorMax : Nat) : Nat := vectorMax - vectorMin + 1

/-- `bsp_interrupt_handler_index`. -/
def handlerIndex (vector : Nat) : Nat := vector - vectorMin

/-- `bsp_interrupt_is_valid_vector`. -/
def isValidVector (vectorMax vector : Nat) : Bool := vectorMin ≤ vector && vector ≤ vectorMax

/-- `RTEMS_INTERRUPT_IS_UNIQUE`. -/
def isUnique (options : Nat) : Bool := options &&& 1 ≠ 0

/-- `RTEMS_INTERRUPT_IS_REPLACE`. -/
def isReplace (options : Nat) : Bool := options &&& 2 ≠ 0

namespace Table

/-- `bsp_interrupt_is_initialized`.  The last flag says it. -/
def isInitialized (s : Table H) (vectorMax : Nat) : Bool := s.unique (tableSize vectorMax)

def setEntry (s : Table H) (r : Ref) (e : Entry H) : Table H :=
  { s with entry := Function.update s.entry r e }

/-- `bsp_interrupt_set_handler_unique`. -/
def setUnique (s : Table H) (index : Nat) (unique : Bool) : Table H :=
  { s with unique := Function.update s.unique index unique }

/-- `bsp_interrupt_is_empty_handler_entry`. -/
def isEmpty (s : Table H) (r : Ref) : Bool := (s.entry r).handler = .empty

/-- No list is longer than its entry in the table and all that the heap has given out. -/
def turns (s : Table H) : Nat := s.allocated.length + 1

end Table

/-- `bsp_interrupt_initialize`, with a facility that can be initialized. -/
def interruptInitialize (vectorMax : Nat) (s : Table H) : Table H :=
  let s := { s with
    entry := fun
      | .table i =>
        if i < tableSize vectorMax then { s.entry (.table i) with handler := .empty, arg := i }
        else s.entry (.table i)
      | .heap a => s.entry (.heap a) }
  s.setUnique (tableSize vectorMax) true

/-! ## Installation -/

/-- The search for the list tail and for a match. -/
def searchTail (entry : Ref → Entry H) (p : Entry H → Bool) :
    Nat → Ref → Option Ref → Option (Option Ref × Ref)
  | 0, _, _ => none
  | n + 1, current, found =>
    let found := if found.isNone && p (entry current) then some current else found
    match (entry current).next with
    | none => some (found, current)
    | some next => searchTail entry p n next found

/-- No real handler is installed yet. -/
def installFirst (s : Table H) (vector : Nat) (info : Option Nat) (options : Nat) (handler : H)
    (arg : Nat) (enable : Status) : Status × Table H :=
  -- `bsp_interrupt_allocate_handler_index` without an index table
  let index := vector
  let s := s.setEntry (.table index)
    { s.entry (.table index) with handler := .routine handler, arg := arg, info := info }
  (enable, s.setUnique index (isUnique options))

/-- A handler is installed already, and what the search found. -/
def installNext (s : Table H) (index : Nat) (info : Option Nat) (options : Nat) (handler : H)
    (arg : Nat) (memory : Option Nat) (found : Option Ref) (tail : Ref) : Status × Table H :=
  if isReplace options then
    match found with
    | none => (.unsatisfied, s)
    | some current =>
      let s := s.setEntry current
        { s.entry current with handler := .routine handler, info := info }
      (.successful, s.setUnique index (isUnique options))
  else
    match found with
    | some _ => (.tooMany, s)
    | none =>
      match memory with
      | none => (.noMemory, s)
      | some a =>
        let s := { s with allocated := a :: s.allocated }
        let s := s.setEntry (.heap a) ⟨.routine handler, arg, info, none⟩
        let s := s.setEntry tail { s.entry tail with next := some (.heap a) }
        (.successful, s.setUnique index (isUnique options))

/-- `bsp_interrupt_handler_install`.  The handler may be `NULL`. -/
def install (vectorMax : Nat) (s : Table H) (vector : Nat) (info : Option Nat) (options : Nat)
    (handler : Option H) (arg : Nat) (inIsr : Bool) (enable : Status) (memory : Option Nat) :
    Option (Status × Table H) :=
  if ! s.isInitialized vectorMax then some (.internalError, s)
  else if ! isValidVector vectorMax vector then some (.invalidId, s)
  else
    match handler with
    | none => some (.invalidAddress, s)
    | some handler =>
      if inIsr then some (.calledFromIsr, s)
      else
        let index := handlerIndex vector
        let head := Ref.table index
        if s.isEmpty head then
          if isReplace options then some (.unsatisfied, s)
          else some (installFirst s vector info options handler arg enable)
        else if ! isReplace options && (isUnique options || s.unique index) then
          some (.resourceInUse, s)
        else
          (searchTail s.entry (fun e =>
            (e.handler = .routine handler || isReplace options) && e.arg = arg)
            s.turns head none).map fun (found, tail) =>
              installNext s index info options handler arg memory found tail

/-! ## Removal -/

/-- The search for a matching entry and the one before it. -/
def searchMatch (entry : Ref → Entry H) (p : Entry H → Bool) :
    Nat → Ref → Option Ref → Option (Option (Ref × Option Ref))
  | 0, _, _ => none
  | n + 1, current, previous =>
    if p (entry current) then some (some (current, previous))
    else
      match (entry current).next with
      | none => some none
      | some next => searchMatch entry p n next (some current)

/-- `bsp_interrupt_free_handler_entry`. -/
def freeHandlerEntry (s : Table H) : Ref → Table H
  | .heap a => { s with allocated := s.allocated.erase a }
  | .table _ => s

/-- A matching entry is removed. -/
def removeMatch (s : Table H) (vector index : Nat) (found : Ref) (previous : Option Ref)
    (disable : Status) : Status × Table H :=
  match (s.entry found).next with
  | some current =>
    let s := s.setEntry found (s.entry current)
    (.successful, freeHandlerEntry s current)
  | none =>
    if found = .table index then
      let s := s.setEntry (.table index) ⟨.empty, vector, none, none⟩
      (disable, s.setUnique index false)
    else
      match previous with
      | some previous =>
        let s := s.setEntry previous { s.entry previous with next := none }
        (.successful, freeHandlerEntry s found)
      | none => (.successful, s)

/-- `bsp_interrupt_handler_remove`. -/
def remove (vectorMax : Nat) (s : Table H) (vector : Nat) (handler : Option H) (arg : Nat)
    (inIsr : Bool) (disable : Status) : Option (Status × Table H) :=
  if ! s.isInitialized vectorMax then some (.internalError, s)
  else if ! isValidVector vectorMax vector then some (.invalidId, s)
  else
    match handler with
    | none => some (.invalidAddress, s)
    | some handler =>
      if inIsr then some (.calledFromIsr, s)
      else
        let index := handlerIndex vector
        (searchMatch s.entry (fun e => e.handler = .routine handler && e.arg = arg)
          s.turns (.table index) none).map fun
            | some (found, previous) => removeMatch s vector index found previous disable
            | none => (.unsatisfied, s)

/-! ## Iteration -/

/-- The entries from one on. -/
def entriesFrom (entry : Ref → Entry H) : Nat → Ref → Option (List (Handler H × Nat))
  | 0, _ => none
  | n + 1, current =>
    match (entry current).next with
    | none => some [((entry current).handler, (entry current).arg)]
    | some next =>
      (entriesFrom entry n next).map (((entry current).handler, (entry current).arg) :: ·)

/-- What `bsp_interrupt_handler_iterate` reports of a vector, and what a dispatch of the vector
calls, in this order. -/
def iterate (s : Table H) (vector : Nat) : Option (List (Handler H × Nat)) :=
  if s.isEmpty (.table (handlerIndex vector)) then some []
  else entriesFrom s.entry s.turns (.table (handlerIndex vector))

/-! ## Runs -/

/-- A call, with what the board support package and the heap answer to it. -/
inductive Op (H : Type) where
  | install (vector : Nat) (info : Option Nat) (options : Nat) (handler : Option H) (arg : Nat)
      (inIsr : Bool) (enable : Status) (memory : Option Nat)
  | remove (vector : Nat) (handler : Option H) (arg : Nat) (inIsr : Bool) (disable : Status)

/-- The options exclude each other, and the heap gives out nothing twice. -/
def Op.Enabled (s : Table H) : Op H → Prop
  | .install _ _ options _ _ _ _ memory => options ∈ [0, 1, 2] ∧ ∀ a, memory = some a → a ∉ s.allocated
  | .remove .. => True

def Op.call (vectorMax : Nat) (s : Table H) : Op H → Option (Status × Table H)
  | .install vector info options handler arg inIsr enable memory =>
    Interrupt.install vectorMax s vector info options handler arg inIsr enable memory
  | .remove vector handler arg inIsr disable =>
    Interrupt.remove vectorMax s vector handler arg inIsr disable

/-- A replacing handler is not installed a second time: no other entry of the vector has it with
this argument. -/
def Op.Fresh (s : Table H) : Op H → Prop
  | .install vector _ options handler arg _ _ _ => isReplace options = true →
      ∀ h, handler = some h → ∀ l, iterate s vector = some l → (.routine h, arg) ∈ l →
        l.find? (fun x => x.2 = arg) = some (.routine h, arg)
  | .remove .. => True

/-- One call after the other, each one allowed by `p`. -/
inductive Run (vectorMax : Nat) (p : Table H → Op H → Prop) (s₀ : Table H) : Table H → Prop where
  | start : Run vectorMax p s₀ s₀
  | step {s s' : Table H} {op : Op H} {status : Status} : Run vectorMax p s₀ s → op.Enabled s →
      p s op → op.call vectorMax s = some (status, s') → Run vectorMax p s₀ s'

end Rtems.Interrupt
