import Rtems.Score.Types

/-!
# Events

The model of `eventseize.c`, `eventsurrender.c` and the part of
`threadtimeout.c` that a receive of events meets, for one event control of one
thread on one processor.  The receive is cut where interrupts are enabled, and
`Pc` names the cuts.  Senders, be they interrupts or other threads, and the
timeout of the receiver come in between.  What they have left to do is a stack
of pieces (`Piece`): what comes in later runs first, and the receiver goes on
when the stack is empty.
-/

namespace Rtems.Event

/-- `rtems_event_set`. -/
abbrev EventSet := BitVec 32

/-- The `THREAD_WAIT_CLASS_*` flags, and their absence. -/
inductive WaitClass where
  | initial
  | event
  | systemEvent
  | object
deriving DecidableEq, Repr

/-- The two kinds of events of a thread. -/
inductive Kind where
  | event
  | systemEvent
deriving DecidableEq, Repr

/-- The wait class with which the events of this kind are received. -/
def Kind.waitClass : Kind → WaitClass
  | .event => .event
  | .systemEvent => .systemEvent

/-- The `THREAD_WAIT_STATE_*` flags. -/
inductive WaitState where
  | intendToBlock
  | blocked
  | readyAgain
deriving DecidableEq, Repr

/-- `Thread_Wait_flags`.  The initial flags have no wait state. -/
structure WaitFlags where
  waitClass : WaitClass
  waitState : Option WaitState
deriving DecidableEq, Repr

/-- The bits of `rtems_option` that a receive reads. -/
structure Options where
  /-- `RTEMS_NO_WAIT`. -/
  noWait : Bool
  /-- `RTEMS_EVENT_ANY`; otherwise `RTEMS_EVENT_ALL`. -/
  any : Bool
deriving DecidableEq, Repr

/-- The `rtems_status_code` values of a receive. -/
inductive Status where
  | successful
  | unsatisfied
  | timeout
deriving DecidableEq, Repr

/-- Where the receiver is in `_Event_Seize`. -/
inductive Pc where
  /-- In no receive of these events. -/
  | outside
  /-- The lock is released, the timer is to be inserted if `ticks` is not zero. -/
  | timerInsert (ticks : Nat)
  /-- `_Thread_Set_state` comes next. -/
  | setState
  /-- The wait flags are to be changed from intend to block to blocked. -/
  | tryChange
  /-- `_Watchdog_Remove_ticks` comes next. -/
  | removeTimer
  /-- `_Thread_Unblock` comes next. -/
  | unblock
  /-- The receive is over as soon as the thread is ready. -/
  | done
deriving DecidableEq, Repr

/-- What a sender or the timeout has left to do. -/
inductive Piece where
  /-- `_Thread_Timeout` up to the release of the lock. -/
  | timeout
  /-- `_Watchdog_Remove_ticks` of a sender. -/
  | removeTimer
  /-- `_Thread_Unblock` of a sender or of the timeout. -/
  | unblock
deriving DecidableEq, Repr

/-- What a receive was asked and what it gave back.  `taken` is a ghost: the
events that left the pending set on its behalf. -/
structure Receipt where
  eventIn : EventSet
  options : Options
  code : Status
  eventOut : EventSet
  taken : EventSet
deriving DecidableEq, Repr

/-- The thread and its event control.  The last three fields are ghosts: how
often each event was posted while it was not pending, the events taken for the
receive under way, and the receives that are over, latest first. -/
structure State where
  /-- `pending_events`. -/
  pendingEvents : EventSet
  /-- `Wait.flags`. -/
  flags : WaitFlags
  /-- `Wait.option`. -/
  option : Options
  /-- `Wait.count`, the event condition. -/
  condition : EventSet
  /-- `Wait.return_code`. -/
  returnCode : Status
  /-- `Wait.timeout_code`. -/
  timeoutCode : Status
  /-- What `Wait.return_argument` points to. -/
  eventOut : EventSet
  /-- `Timer.state`. -/
  timer : WatchdogState
  /-- The thread is in the blocking state of the receive. -/
  blocked : Bool
  pc : Pc
  stack : List Piece
  posted : Nat → Nat
  taken : EventSet
  receipts : List Receipt

/-! ## The sender -/

/-- The condition of `_Event_Is_satisfied`, which `_Event_Seize` also checks. -/
def satisfied (pending condition : EventSet) (option : Options) : Bool :=
  decide (pending &&& condition ≠ 0#32) &&
    (decide (pending &&& condition = condition) || option.any)

/-- `_Event_Is_blocking_on_event`. -/
def isBlockingOnEvent (waitClass : WaitClass) (flags : WaitFlags) : Bool :=
  decide (flags.waitClass = waitClass) && decide (flags.waitState ≠ some .readyAgain)

/-- `_Event_sets_Post`. -/
def post (s : State) (eventIn : EventSet) : State :=
  { s with
    pendingEvents := s.pendingEvents ||| eventIn
    posted := fun b =>
      if eventIn.getLsbD b && !s.pendingEvents.getLsbD b then s.posted b + 1 else s.posted b }

/-- `_Event_Satisfy`. -/
def satisfy (s : State) : State :=
  let seized := s.pendingEvents &&& s.condition
  { s with
    pendingEvents := s.pendingEvents &&& ~~~ seized
    eventOut := seized
    taken := seized }

/-- The wait flags become ready again.  A thread that has blocked is to be
unblocked by `wakeup`, once the lock is released. -/
def readyAgain (s : State) (wakeup : List Piece) : State :=
  let s' := { s with flags := ⟨s.flags.waitClass, some .readyAgain⟩ }
  if s.flags.waitState = some .intendToBlock then s'
  else { s' with stack := wakeup ++ s'.stack }

/-- `_Event_Surrender`, up to the release of the lock. -/
def surrender (waitClass : WaitClass) (s : State) (eventIn : EventSet) : State :=
  let s := post s eventIn
  if isBlockingOnEvent waitClass s.flags && satisfied s.pendingEvents s.condition s.option then
    readyAgain (satisfy s) [.removeTimer, .unblock]
  else s

/-! ## The timeout -/

/-- The watchdog of the thread expires. -/
def expire (s : State) : State :=
  { s with timer := .inactive, stack := .timeout :: s.stack }

/-- `_Thread_Timeout`, up to the release of the lock. -/
def timeout (s : State) : State :=
  if s.flags.waitState = some .readyAgain then s
  else readyAgain { s with returnCode := s.timeoutCode } [.unblock]

/-- The piece on top of the stack runs. -/
def runPiece (s : State) : Piece → State
  | .timeout => timeout s
  | .removeTimer => { s with timer := .inactive }
  | .unblock => { s with blocked := false }

/-! ## The receiver -/

/-- A receive is over. -/
def receipt (s : State) (eventIn : EventSet) (options : Options) : State :=
  { s with
    pc := .outside
    taken := 0#32
    receipts := ⟨eventIn, options, s.returnCode, s.eventOut, s.taken⟩ :: s.receipts }

/-- `_Event_Seize`, up to the first release of the lock. -/
def seize (waitClass : WaitClass) (s : State) (eventIn : EventSet) (options : Options)
    (ticks : Nat) : State :=
  let seized := s.pendingEvents &&& eventIn
  let s := { s with returnCode := .successful }
  if satisfied s.pendingEvents eventIn options then
    receipt { s with
      pendingEvents := s.pendingEvents &&& ~~~ seized
      eventOut := seized
      taken := seized } eventIn options
  else if options.noWait then
    receipt { s with returnCode := .unsatisfied, eventOut := seized } eventIn options
  else
    { s with
      option := options
      condition := eventIn
      flags := ⟨waitClass, some .intendToBlock⟩
      pc := .timerInsert ticks }

/-- `_Event_Seize` from one cut to the next. -/
def seizeTurn (waitClass : WaitClass) (s : State) : State :=
  match s.pc with
  | .outside => s
  | .timerInsert ticks =>
    if ticks ≠ 0 then { s with timeoutCode := .timeout, timer := .active, pc := .setState }
    else { s with pc := .setState }
  | .setState => { s with blocked := true, pc := .tryChange }
  | .tryChange =>
    if s.flags = ⟨waitClass, some .intendToBlock⟩ then
      { s with flags := ⟨waitClass, some .blocked⟩, pc := .done }
    else { s with pc := .removeTimer }
  | .removeTimer => { s with timer := .inactive, pc := .unblock }
  | .unblock => { s with blocked := false, pc := .done }
  | .done => if s.blocked then s else receipt s s.condition s.option

/-! ## Runs -/

/-- A thread that has not received yet. -/
def start : State where
  pendingEvents := 0#32
  flags := ⟨.initial, none⟩
  option := ⟨false, false⟩
  condition := 0#32
  returnCode := .successful
  timeoutCode := .successful
  eventOut := 0#32
  timer := .inactive
  blocked := false
  pc := .outside
  stack := []
  posted := fun _ => 0
  taken := 0#32
  receipts := []

/-- A step of the receiver, of a sender or of the clock.  Between two receives
the thread may wait for other things, which use the same `Wait` block. -/
inductive Step (kind : Kind) : State → State → Prop where
  | seize (s : State) (eventIn : EventSet) (options : Options) (ticks : Nat)
      (hpc : s.pc = .outside) (hstack : s.stack = []) :
      Step kind s (seize kind.waitClass s eventIn options ticks)
  | seizeTurn (s : State) (hstack : s.stack = []) : Step kind s (seizeTurn kind.waitClass s)
  | surrender (s : State) (eventIn : EventSet) : Step kind s (surrender kind.waitClass s eventIn)
  | expire (s : State) (htimer : s.timer = .active) : Step kind s (expire s)
  | runPiece (s : State) (piece : Piece) (rest : List Piece) (hstack : s.stack = piece :: rest) :
      Step kind s (runPiece { s with stack := rest } piece)
  | otherWait (s : State) (flags : WaitFlags) (option : Options) (condition : EventSet)
      (code timeoutCode : Status) (eventOut : EventSet) (hpc : s.pc = .outside)
      (hclass : flags.waitClass ≠ kind.waitClass) :
      Step kind s
        { s with
          flags := flags
          option := option
          condition := condition
          returnCode := code
          timeoutCode := timeoutCode
          eventOut := eventOut }

/-- The states of the runs of a thread. -/
def Reachable (kind : Kind) : State → Prop :=
  Relation.ReflTransGen (Step kind) start

end Rtems.Event
