import Rtems.Score.Types

/-!
# POSIX timers

The model of `timersettime.c`, `timertsr.c`, `timerinserthelper.c`,
`timercreate.c` and `timerdelete.c`.  A call runs with thread dispatching
disabled, so there is one call at a time, and between any two of its steps clock
ticks may come.  The service routine runs inside of a tick, which no other tick
interrupts.

The chain of the watchdogs is taken as the ticks that remain for each watchdog.
A structure is copied word by word, in any order.
-/

namespace Rtems.PosixTimer

/-! ## Time -/

/-- `struct timespec`. -/
structure Timespec where
  sec : Int
  nsec : Int
deriving DecidableEq, Repr

/-- `TOD_NANOSECONDS_PER_SECOND`. -/
def nanosecondsPerSecond : Int := 1000000000

namespace Timespec

/-- `_Timespec_Is_valid`. -/
def isValid (time : Timespec) : Bool :=
  ! (time.sec < 0) && ! (time.nsec < 0) && ! (time.nsec ≥ nanosecondsPerSecond)

/-- `_Timespec_Less_than`. -/
def lessThan (lhs rhs : Timespec) : Bool :=
  if lhs.sec < rhs.sec then true
  else if lhs.sec > rhs.sec then false
  else decide (lhs.nsec < rhs.nsec)

/-- `_Timespec_Greater_than`. -/
def greaterThan (lhs rhs : Timespec) : Bool := lessThan rhs lhs

/-- `_Timespec_Subtract`. -/
def subtract (start stop : Timespec) : Timespec :=
  if stop.nsec < start.nsec then
    ⟨stop.sec - start.sec - 1, (nanosecondsPerSecond - start.nsec) + stop.nsec⟩
  else ⟨stop.sec - start.sec, stop.nsec - start.nsec⟩

/-- `_Timespec_To_ticks`, for the configured microseconds per tick. -/
def toTicks (microsecondsPerTick : Nat) (time : Timespec) : Nat :=
  if time.sec = 0 ∧ time.nsec = 0 then 0
  else
    let ticksPerSecond := 1000000 / microsecondsPerTick
    let nanosecondsPerTick := microsecondsPerTick * 1000
    let ticks := time.sec * ticksPerSecond + time.nsec / nanosecondsPerTick
    let ticks := if time.nsec % nanosecondsPerTick ≠ 0 then ticks + 1 else ticks
    (ticks % 2 ^ 32).toNat

/-- The ticks that `_Timespec_To_ticks` counts, before they are cut to 32 bits. -/
def wholeTicks (microsecondsPerTick : Nat) (time : Timespec) : Int :=
  let nanosecondsPerTick := microsecondsPerTick * 1000
  let ticks := time.sec * (1000000 / microsecondsPerTick : Nat) + time.nsec / nanosecondsPerTick
  if time.nsec % nanosecondsPerTick ≠ 0 then ticks + 1 else ticks

/-- There is at least one tick, and the ticks fit into 32 bits. -/
def Fits (microsecondsPerTick : Nat) (time : Timespec) : Prop :=
  0 < time.wholeTicks microsecondsPerTick ∧ time.wholeTicks microsecondsPerTick < 2 ^ 32

theorem Fits.toTicks {us : Nat} {time : Timespec} (h : time.Fits us) :
    (time.toTicks us : Int) = time.wholeTicks us := by
  unfold Timespec.toTicks
  split
  next hzero =>
    have hnone : time.wholeTicks us = 0 := by simp [wholeTicks, hzero]
    exact absurd h.1 (by omega)
  next =>
    change (((time.wholeTicks us) % 2 ^ 32).toNat : Int) = _
    obtain ⟨hpos, hlt⟩ := h
    omega

/-- No time at all. -/
def zero : Timespec := ⟨0, 0⟩

end Timespec

/-- `struct itimerspec`. -/
structure Itimerspec where
  interval : Timespec
  value : Timespec
deriving DecidableEq, Repr

/-! ## Timers -/

/-- The states of a timer. -/
inductive TimerState where
  | free
  | createNew
  | createRun
  | createStop
deriving DecidableEq, Repr

/-- A watchdog on the chain of the ticks, with the ticks that remain for it. -/
structure Watchdog where
  state : WatchdogState
  initial : Nat
  remaining : Nat
deriving DecidableEq, Repr

/-- `POSIX_Timer_Control`. -/
structure Timer (Tid : Type) where
  state : TimerState
  threadId : Tid
  sigevSigno : Nat
  timerData : Itimerspec
  ticks : Nat
  overrun : Nat
  watchdog : Watchdog
deriving DecidableEq, Repr

/-- Where a call of `timer_settime` stands: before the step that the constructor names. -/
inductive At where
  | stopRemove
  | stopOvalue
  | stopData
  | stopState
  | ticks
  | remove
  | acquire
  | inserting
  | ovalue
  | data
  | state
  | put
deriving DecidableEq, Repr

/-- The call in progress. -/
inductive Call (Pid : Type) where
  | none
  | settime (p : Pid) (normalize : Itimerspec) (position : At)
  /-- `timer_delete` after `_Objects_Close`. -/
  | delete (p : Pid)
deriving DecidableEq, Repr

/-- The timers and the call in progress.  `open` says which identifiers are valid and `tick` that the
clock tick is being processed.  Ghosts: what the last successful `timer_settime` set, the
expiries, and the calls of `pthread_kill` with the timer they are for. -/
structure State (Pid Tid : Type) where
  timers : Pid → Timer Tid
  isOpen : Pid → Bool
  call : Call Pid
  tick : Bool
  ovalue : Option Itimerspec
  last : Pid → Option Itimerspec
  expiries : List Pid
  kills : List (Pid × Tid × Nat)

inductive Errno where
  | EINVAL
deriving DecidableEq, Repr

variable {Pid Tid : Type} [DecidableEq Pid]

/-- Change one timer. -/
def State.onTimer (s : State Pid Tid) (p : Pid) (f : Timer Tid → Timer Tid) : State Pid Tid :=
  { s with timers := Function.update s.timers p (f (s.timers p)) }

/-! ## The watchdog of a timer -/

/-- `_Watchdog_Remove_ticks`. -/
def Timer.removeTicks (t : Timer Tid) : Timer Tid :=
  { t with watchdog := { t.watchdog with state := .inactive } }

/-- `_POSIX_Timer_Insert_helper` from the check of the state up to the loop of
`_Watchdog_Insert_locked`. -/
def Timer.insertBegin (t : Timer Tid) (ticks : Nat) : Timer Tid :=
  { t with watchdog := ⟨.beingInserted, ticks, ticks⟩ }

/-- The end of `_Watchdog_Insert_locked`. -/
def Timer.insertEnd (t : Timer Tid) : Timer Tid :=
  if t.watchdog.state = .beingInserted then
    { t with watchdog := { t.watchdog with state := .active } }
  else t

/-- `_POSIX_Timer_Insert_helper` inside of a tick. -/
def Timer.insertHelper (t : Timer Tid) (ticks : Nat) : Bool × Timer Tid :=
  let t := t.removeTicks
  if t.watchdog.state ≠ .inactive then (false, t)
  else (true, (t.insertBegin ticks).insertEnd)

/-! ## The service routine -/

/-- The interval of the timer as `_POSIX_Timer_TSR` reads it. -/
def Timer.periodic (t : Timer Tid) : Bool :=
  t.timerData.interval.sec ≠ 0 || t.timerData.interval.nsec ≠ 0

/-- `_POSIX_Timer_TSR`, and whether it gets to `pthread_kill`. -/
def Timer.tsr (t : Timer Tid) : Bool × Timer Tid :=
  let t := { t with overrun := t.overrun + 1 }
  if t.periodic then
    match t.insertHelper t.ticks with
    | (false, t) => (false, t)
    | (true, t) => (true, { t with state := .createRun, overrun := 0 })
  else (true, { t with state := .createStop, overrun := 0 })

/-- The watchdog of a timer is taken off the chain and its routine is called. -/
def expire (s : State Pid Tid) (p : Pid) : State Pid Tid :=
  let r := (s.timers p).removeTicks.tsr
  let s := { s.onTimer p fun _ => r.2 with expiries := s.expiries ++ [p] }
  if r.1 then { s with kills := s.kills ++ [(p, r.2.threadId, r.2.sigevSigno)] } else s

/-- A tick comes. -/
def tickBegin (s : State Pid Tid) : State Pid Tid :=
  { s with
    timers := fun p =>
      let t := s.timers p
      if t.watchdog.state = .inactive then t
      else { t with watchdog := { t.watchdog with remaining := t.watchdog.remaining - 1 } }
    tick := true }

/-! ## timer_settime -/

/-- `timer_settime` up to `_POSIX_Timer_Get`.  `flags` is `some true` for `TIMER_ABSTIME` and
`some false` for `POSIX_TIMER_RELATIVE`. -/
def settimeCheck (flags : Option Bool) (value : Option Itimerspec) (now : Timespec) :
    Except Errno Itimerspec :=
  match value with
  | none => .error .EINVAL
  | some value =>
    if ! value.value.isValid then .error .EINVAL
    else if ! value.interval.isValid then .error .EINVAL
    else
      match flags with
      | none => .error .EINVAL
      | some false => .ok value
      | some true =>
        if now.greaterThan value.value then .error .EINVAL
        else .ok { value with value := now.subtract value.value }

/-- `timer_settime` up to the first step that changes the timer. -/
def settime (s : State Pid Tid) (p : Pid) (flags : Option Bool) (value : Option Itimerspec)
    (now : Timespec) : Except Errno Unit × State Pid Tid :=
  match settimeCheck flags value now with
  | .error e => (.error e, s)
  | .ok normalize =>
    if s.isOpen p then
      let position : At :=
        if normalize.value.sec = 0 ∧ normalize.value.nsec = 0 then .stopRemove else .ticks
      (.ok (), { s with call := .settime p normalize position })
    else (.error .EINVAL, s)

/-- Which words of a `struct itimerspec` have been copied. -/
structure Words where
  intervalSec : Bool
  intervalNsec : Bool
  valueSec : Bool
  valueNsec : Bool

/-- Copy some words. -/
def Words.copy (w : Words) (source target : Itimerspec) : Itimerspec where
  interval :=
    ⟨if w.intervalSec then source.interval.sec else target.interval.sec,
      if w.intervalNsec then source.interval.nsec else target.interval.nsec⟩
  value :=
    ⟨if w.valueSec then source.value.sec else target.value.sec,
      if w.valueNsec then source.value.nsec else target.value.nsec⟩

/-- `timer_settime` returns with success. -/
def settimeReturn (s : State Pid Tid) (p : Pid) (normalize : Itimerspec) : State Pid Tid :=
  { s with call := .none, last := Function.update s.last p (some normalize) }

/-- The next step of `timer_settime`. -/
def settimeStep (us : Nat) (s : State Pid Tid) (p : Pid) (normalize : Itimerspec) :
    At → State Pid Tid
  | .stopRemove =>
    { s.onTimer p Timer.removeTicks with call := .settime p normalize .stopOvalue }
  | .stopOvalue =>
    { s with
      ovalue := some (s.timers p).timerData
      call := .settime p normalize .stopData }
  | .stopData =>
    { s.onTimer p fun t => { t with timerData := normalize } with
      call := .settime p normalize .stopState }
  | .stopState =>
    { s.onTimer p fun t => { t with state := .createStop } with
      call := .settime p normalize .put }
  | .ticks =>
    { s.onTimer p fun t => { t with ticks := normalize.interval.toTicks us } with
      call := .settime p normalize .remove }
  | .remove =>
    { s.onTimer p Timer.removeTicks with call := .settime p normalize .acquire }
  | .acquire =>
    if (s.timers p).watchdog.state ≠ .inactive then settimeReturn s p normalize
    else
      { s.onTimer p fun t => t.insertBegin (normalize.value.toTicks us) with
        call := .settime p normalize .inserting }
  | .inserting =>
    { s.onTimer p Timer.insertEnd with call := .settime p normalize .ovalue }
  | .ovalue =>
    { s with
      ovalue := some (s.timers p).timerData
      call := .settime p normalize .data }
  | .data =>
    { s.onTimer p fun t => { t with timerData := normalize } with
      call := .settime p normalize .state }
  | .state =>
    { s.onTimer p fun t => { t with state := .createRun } with
      call := .settime p normalize .put }
  | .put => settimeReturn s p normalize

/-! ## timer_create and timer_delete -/

/-- `timer_create` of a timer that is not in use. -/
def create (s : State Pid Tid) (p : Pid) (threadId : Tid) (sigevSigno : Nat) : State Pid Tid :=
  { s.onTimer p fun t => { t with
      state := .createNew
      threadId := threadId
      sigevSigno := sigevSigno
      overrun := 0
      timerData := ⟨.zero, .zero⟩
      watchdog := { t.watchdog with state := .inactive } } with
    isOpen := Function.update s.isOpen p true
    last := Function.update s.last p none }

/-- `timer_delete` up to `_Watchdog_Remove_ticks`. -/
def delete (s : State Pid Tid) (p : Pid) : State Pid Tid :=
  { s.onTimer p fun t => { t with state := .free } with
    isOpen := Function.update s.isOpen p false
    call := .delete p }

/-- The rest of `timer_delete`. -/
def deleteStep (s : State Pid Tid) (p : Pid) : State Pid Tid :=
  { s.onTimer p Timer.removeTicks with call := .none }

/-! ## Runs -/

inductive Op (Pid Tid : Type) where
  | create (p : Pid) (threadId : Tid) (sigevSigno : Nat)
  | delete (p : Pid)
  | settime (p : Pid) (flags : Option Bool) (value : Option Itimerspec) (now : Timespec)
  /-- The next step of the call. -/
  | advance
  /-- Some words of the new data are copied. -/
  | copy (words : Words)
  | tick
  | expire (p : Pid)
  | tickEnd

/-- When a step can be taken.  A tick is over when no watchdog is due. -/
def Op.Enabled (s : State Pid Tid) : Op Pid Tid → Prop
  | .create p _ _ => s.tick = false ∧ s.call = .none ∧ s.isOpen p = false
  | .delete p => s.tick = false ∧ s.call = .none ∧ s.isOpen p = true
  | .settime .. => s.tick = false ∧ s.call = .none
  | .advance => s.tick = false
  | .copy _ => s.tick = false
  | .tick => s.tick = false
  | .expire p => s.tick = true ∧ (s.timers p).watchdog.state = .active ∧
      (s.timers p).watchdog.remaining = 0
  | .tickEnd => s.tick = true ∧ ∀ p, (s.timers p).watchdog.state = .active →
      (s.timers p).watchdog.remaining ≠ 0

/-- The copy of some words, in the calls that copy. -/
def copyStep (s : State Pid Tid) (words : Words) : State Pid Tid :=
  match s.call with
  | .settime p normalize .stopData | .settime p normalize .data =>
    s.onTimer p fun t => { t with timerData := words.copy normalize t.timerData }
  | _ => s

def advance (us : Nat) (s : State Pid Tid) : State Pid Tid :=
  match s.call with
  | .none => s
  | .settime p normalize position => settimeStep us s p normalize position
  | .delete p => deleteStep s p

def Op.run (us : Nat) (s : State Pid Tid) : Op Pid Tid → State Pid Tid
  | .create p threadId sigevSigno => PosixTimer.create s p threadId sigevSigno
  | .delete p => PosixTimer.delete s p
  | .settime p flags value now => (PosixTimer.settime s p flags value now).2
  | .advance => PosixTimer.advance us s
  | .copy words => copyStep s words
  | .tick => tickBegin s
  | .expire p => PosixTimer.expire s p
  | .tickEnd => { s with tick := false }

/-- The setting arms the timer, and with an interval. -/
def Itimerspec.Periodic (v : Itimerspec) : Prop :=
  ¬ (v.value.sec = 0 ∧ v.value.nsec = 0) ∧ (v.interval.sec ≠ 0 ∨ v.interval.nsec ≠ 0)

/-- An interval that is set has a number of ticks.  A timer does not expire after `timer_settime`
started its watchdog and before it is done with the timer, unless the service routine finds an
interval in the data of the timer, and then it finds ticks for it. -/
def Op.Careful (us : Nat) (s : State Pid Tid) : Op Pid Tid → Prop
  | .settime _ flags value now => ∀ normalize, settimeCheck flags value now = .ok normalize →
      normalize.Periodic → normalize.interval.Fits us
  | .expire p => (∀ normalize position, s.call = .settime p normalize position →
      position = .ovalue ∨ position = .data ∨ position = .state → (s.timers p).periodic = true) ∧
        ((s.timers p).periodic = true → (s.timers p).ticks ≠ 0)
  | _ => True

/-- The states of the runs whose steps all meet a condition. -/
def Reachable (us : Nat) (condition : State Pid Tid → Op Pid Tid → Prop) (s₀ : State Pid Tid) :
    State Pid Tid → Prop :=
  Relation.ReflTransGen
    (fun s s' => ∃ op : Op Pid Tid, op.Enabled s ∧ condition s op ∧ s' = op.run us s) s₀

/-- The steps can be taken one after the other. -/
def Legal (us : Nat) (condition : State Pid Tid → Op Pid Tid → Prop) :
    State Pid Tid → List (Op Pid Tid) → Prop
  | _, [] => True
  | s, op :: ops => op.Enabled s ∧ condition s op ∧ Legal us condition (op.run us s) ops

/-- `_POSIX_Timer_Manager_initialization`: no timer is open. -/
def initial (timers : Pid → Timer Tid) : State Pid Tid where
  timers := fun p => (timers p).removeTicks
  isOpen := fun _ => false
  call := .none
  tick := false
  ovalue := none
  last := fun _ => none
  expiries := []
  kills := []

/-- No call and no tick is in progress. -/
def Quiescent (s : State Pid Tid) : Prop := s.call = .none ∧ s.tick = false

end Rtems.PosixTimer
