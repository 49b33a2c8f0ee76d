import Mathlib

/-!
# Shared vocabulary of the score

Enumerations and constants that several handlers of the score read, and the
one induction rule every invariant in this development goes through: what
holds at the start of a run and is kept by each step holds wherever the run
arrives.
-/

namespace Rtems

/-- `Watchdog_States`. -/
inductive WatchdogState where
  | inactive
  | beingInserted
  | active
deriving DecidableEq, Repr

/-- `Priority_Control`.  Lower numbers are more important. -/
abbrev Priority := Nat

/-- `PRIORITY_PSEUDO_ISR`, which is also `PRIORITY_MINIMUM`. -/
def priorityPseudoIsr : Priority := 0

/-- `_Thread_Priority_less_than`, in the intuitive sense of priority. -/
def priorityLessThan (left right : Priority) : Bool := decide (left > right)

/-- `STATES_READY`. -/
def statesReady : BitVec 32 := 0#32

/-- `_States_Set`. -/
def statesSet (statesToSet currentState : BitVec 32) : BitVec 32 := currentState ||| statesToSet

/-- `_States_Clear`. -/
def statesClear (statesToClear currentState : BitVec 32) : BitVec 32 :=
  currentState &&& ~~~ statesToClear

/-- A property of the start that each step keeps holds along a whole run.  The
step may use that its source satisfies the property. -/
theorem Reach.invariant {σ : Type*} {step : σ → σ → Prop} {p : σ → Prop} {s t : σ}
    (h : Relation.ReflTransGen step s t) (h0 : p s)
    (hstep : ∀ a b, p a → step a b → p b) : p t := by
  induction h with
  | refl => exact h0
  | tail _ hbc ih => exact hstep _ _ ih hbc

end Rtems
