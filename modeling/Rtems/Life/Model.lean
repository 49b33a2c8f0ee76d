import Rtems.Lib.Acyclic
import Rtems.Score.Types

/-!
# The life of threads

The model of `threadrestart.c`, `taskdelete.c` and `taskrestart.c` on one
processor.  A thread carries the stack of what it is in the middle of: the
sections in which its life is protected, its calls of `rtems_task_delete`, and
the calls of `_Thread_Life_action_handler`, whose extensions can call anything.

A control block that is used again counts as another thread.  What a thread
would do behind an assertion that the place is not reached is left out.
-/

namespace Rtems.Life

/-! ## Threads -/

/-- `Thread_Life_state`. -/
structure LifeState where
  isProtected : Bool
  restarting : Bool
  terminating : Bool
deriving DecidableEq, Repr

namespace LifeState

/-- `THREAD_LIFE_NORMAL`. -/
def normal : LifeState := ⟨false, false, false⟩

/-- `THREAD_LIFE_PROTECTED`. -/
def protectedOnly : LifeState := ⟨true, false, false⟩

/-- `_Thread_Is_life_changing`. -/
def changing (l : LifeState) : Bool := l.restarting || l.terminating

/-- The union of the bits. -/
def union (l l' : LifeState) : LifeState :=
  ⟨l.isProtected || l'.isProtected, l.restarting || l'.restarting, l.terminating || l'.terminating⟩

end LifeState

inductive Existence where
  | dormant
  | started
  | zombie
deriving DecidableEq, Repr

/-- What a thread is in the middle of. -/
inductive Frame (Tid : Type) where
  /-- A section that protects the life of the thread, with what to restore. -/
  | guarded (previousLifeProtection : Bool)
  /-- `rtems_task_delete` before `_Thread_Get`. -/
  | delete (previousLifeProtection : Bool) (victim : Tid)
  /-- `rtems_task_delete` after `_Thread_Close`. -/
  | deleted (previousLifeProtection : Bool)
  /-- `_Thread_Life_action_handler` in the extensions. -/
  | handler (previousLifeState : LifeState)
deriving DecidableEq, Repr

structure Thread (Tid : Type) where
  existence : Existence
  /-- `Life.state`. -/
  life : LifeState
  /-- `Life.Action` is on the chain of the post-switch actions. -/
  action : Bool
  /-- `Life.terminator`. -/
  terminator : Option Tid
  /-- `STATES_WAITING_FOR_TERMINATION`. -/
  waiting : Bool
  stack : List (Frame Tid)
deriving DecidableEq, Repr

/-- The threads, and the thread that goes on with thread dispatching disabled. -/
structure State (Tid : Type) where
  threads : Tid → Thread Tid
  disabled : Option Tid

variable {Tid : Type} [DecidableEq Tid]

/-- Change one thread. -/
def State.onThread (s : State Tid) (t : Tid) (f : Thread Tid → Thread Tid) : State Tid :=
  { s with threads := Function.update s.threads t (f (s.threads t)) }

/-! ## Requests -/

/-- `_Thread_Set_life_protection`. -/
def Thread.setLifeProtection (th : Thread Tid) (protect : Bool) : Thread Tid :=
  let previousLifeState := th.life
  let th := { th with life := { previousLifeState with isProtected := protect } }
  -- `_Thread_Start_life_change_for_executing`
  if ! protect && previousLifeState.changing then { th with action := true } else th

/-- `_Thread_Request_life_change`. -/
def requestLifeChange (s : State Tid) (t executing : Tid) (additional : LifeState) : State Tid :=
  s.onThread t fun th =>
    let previousLifeState := th.life
    let th := { th with life := previousLifeState.union additional }
    if t = executing then { th with action := true }
    else if previousLifeState = .normal then { th with action := true }
    else th

/-- `_Thread_Make_zombie`. -/
def makeZombie (s : State Tid) (t : Tid) : State Tid :=
  s.onThread t fun th => { th with existence := .zombie, stack := [] }

/-- `_Thread_Clear_state` of `STATES_WAITING_FOR_TERMINATION`. -/
def clearState (s : State Tid) (t : Tid) : State Tid :=
  s.onThread t fun th => { th with waiting := false }

/-- The executing thread has to wait in `_Thread_Close`. -/
def mustWait (s : State Tid) (t executing : Tid) : Bool :=
  t ≠ executing && ! (s.threads executing).life.terminating

/-- `_Thread_Close`. -/
def close (s : State Tid) (t executing : Tid) : State Tid :=
  if (s.threads t).existence = .dormant then makeZombie s t
  else
    let s :=
      if mustWait s t executing then
        (s.onThread t fun th => { th with terminator := some executing }).onThread executing
          fun th => { th with waiting := true }
      else s
    requestLifeChange s t executing ⟨false, false, true⟩

/-! ## Directives -/

/-- `rtems_task_delete` up to `_Thread_Get`. -/
def deleteBegin (s : State Tid) (executing t : Tid) : State Tid :=
  s.onThread executing fun th =>
    { th.setLifeProtection true with stack := .delete th.life.isProtected t :: th.stack }

/-- `rtems_task_delete` from `_Thread_Get` to `_Objects_Put`. -/
def deleteClose (s : State Tid) (executing t : Tid) (previousLifeProtection : Bool)
    (rest : List (Frame Tid)) : State Tid :=
  let s := s.onThread executing fun th => { th with stack := .deleted previousLifeProtection :: rest }
  if (s.threads t).existence = .zombie then s else close s t executing

/-- The end of a section that protects the life of the thread. -/
def sectionEnd (s : State Tid) (t : Tid) (previousLifeProtection : Bool)
    (rest : List (Frame Tid)) : State Tid :=
  s.onThread t fun th => { th.setLifeProtection previousLifeProtection with stack := rest }

/-- `rtems_task_restart`. -/
def restart (s : State Tid) (executing t : Tid) : State Tid :=
  if (s.threads t).existence = .started then requestLifeChange s t executing ⟨false, true, false⟩
  else s

/-! ## The action handler -/

/-- `_Thread_Life_action_handler` up to the extensions. -/
def handlerBegin (s : State Tid) (t : Tid) : State Tid :=
  s.onThread t fun th => { th with
    action := false
    life := .protectedOnly
    stack := .handler th.life :: th.stack }

/-- `_Thread_Life_action_handler` from the extensions on. -/
def handlerEnd (s : State Tid) (t : Tid) (previousLifeState : LifeState)
    (rest : List (Frame Tid)) : State Tid :=
  if previousLifeState.terminating then
    let s := makeZombie s t
    match (s.threads t).terminator with
    | some terminator => clearState s terminator
    | none => s
  else if (s.threads t).life.terminating then
    -- Thread dispatching stays disabled
    { s.onThread t fun th => { th with action := true, stack := rest } with disabled := some t }
  else
    s.onThread t fun th => { th with life := .normal, stack := [] }

/-! ## Runs -/

inductive Op (Tid : Type) where
  | start (t : Tid)
  | sectionBegin (t : Tid)
  | delete (executing t : Tid)
  | restart (executing t : Tid)
  /-- The action handler is called. -/
  | handler (t : Tid)
  /-- The thread goes on with what it is in the middle of. -/
  | advance (t : Tid)

/-- The thread executes code of its own or of an extension. -/
def Thread.inUserCode (th : Thread Tid) : Bool :=
  match th.stack with
  | .delete _ _ :: _ | .deleted _ :: _ => false
  | _ => true

/-- The thread is not kept from running. -/
def State.CanRun (s : State Tid) (t : Tid) : Prop :=
  (s.threads t).existence = .started ∧
    (s.disabled = none ∧ (s.threads t).waiting = false ∨ s.disabled = some t)

def Op.Enabled (s : State Tid) : Op Tid → Prop
  | .start t => (s.threads t).existence = .dormant ∧ s.disabled = none
  | .sectionBegin t => s.CanRun t ∧ (s.threads t).inUserCode = true
  | .delete executing _ => s.CanRun executing ∧ (s.threads executing).inUserCode = true
  | .restart executing _ => s.CanRun executing ∧ (s.threads executing).inUserCode = true
  | .handler t => s.CanRun t ∧ (s.threads t).action = true
  | .advance t => s.CanRun t

def advance (s : State Tid) (t : Tid) : State Tid :=
  match (s.threads t).stack with
  | [] => s
  | .guarded previousLifeProtection :: rest => sectionEnd s t previousLifeProtection rest
  | .delete previousLifeProtection victim :: rest =>
    deleteClose s t victim previousLifeProtection rest
  | .deleted previousLifeProtection :: rest => sectionEnd s t previousLifeProtection rest
  | .handler previousLifeState :: rest => handlerEnd s t previousLifeState rest

def Op.run (s : State Tid) : Op Tid → State Tid
  | .start t => s.onThread t fun th => { th with existence := .started }
  | .sectionBegin t => s.onThread t fun th =>
    { th.setLifeProtection true with stack := .guarded th.life.isProtected :: th.stack }
  | .delete executing t => deleteBegin s executing t
  | .restart executing t => Life.restart s executing t
  | .handler t => handlerBegin s t
  | .advance t => Life.advance s t

/-- A thread waits for the termination of another one, and the other one is there. -/
def Waits (s : State Tid) (d v : Tid) : Prop :=
  (s.threads d).waiting = true ∧ (s.threads v).terminator = some d ∧
    (s.threads v).existence = .started

/-- The action handler is terminating the thread. -/
def Thread.InProgress (th : Thread Tid) : Prop :=
  ∃ previousLifeState, Frame.handler previousLifeState ∈ th.stack ∧
    previousLifeState.terminating = true

/-- A step that does not run into what the code leaves open.  A thread that has to wait for a victim
is the only one that waits for it, and if it is being terminated itself, the victim does not wait for
it.  A thread that another one waits for does not restart while it is being terminated. -/
def Op.Careful (s : State Tid) : Op Tid → Prop
  | .advance t =>
    match (s.threads t).stack with
    | .delete _ victim :: _ =>
      (s.threads victim).existence = .started → mustWait s victim t = true →
        (∀ d, (s.threads victim).terminator = some d → d = t) ∧
          ((s.threads t).InProgress → ¬ Relation.ReflTransGen (Waits s) victim t)
    | .handler previousLifeState :: _ =>
      previousLifeState.terminating = false → (s.threads t).life.terminating = false →
        (∃ d, Waits s d t) → ¬ (s.threads t).InProgress
    | _ => True
  | _ => True

/-- The states of the runs whose steps all meet a condition. -/
def Reachable (condition : State Tid → Op Tid → Prop) (s₀ : State Tid) : State Tid → Prop :=
  Relation.ReflTransGen
    (fun s s' => ∃ op : Op Tid, op.Enabled s ∧ condition s op ∧ s' = op.run s) s₀

/-- The steps can be taken one after the other. -/
def Legal (condition : State Tid → Op Tid → Prop) : State Tid → List (Op Tid) → Prop
  | _, [] => True
  | s, op :: ops => op.Enabled s ∧ condition s op ∧ Legal condition (op.run s) ops

/-- All threads have been created and none has been started. -/
def initial (Tid : Type) : State Tid where
  threads := fun _ => ⟨.dormant, .normal, false, none, false, []⟩
  disabled := none

end Rtems.Life
