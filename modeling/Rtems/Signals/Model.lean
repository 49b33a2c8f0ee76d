import Rtems.Score.Types

/-!
# Signals and their queued values

The model of `killinfo.c`, `sigaction.c`, `sigtimedwait.c`, `psignalchecksignal.c`,
`psignalclearsignals.c`, `psignalclearprocesssignals.c`, `psignalunblockthread.c` and
`pthreadkill.c`.  What a call does with dispatching or interrupts disabled is one step.  A delivery
has two steps: between `_POSIX_signals_Clear_signals` and the handler another thread may run.

Which thread the search of `killinfo` finds is left open: it is part of the call.  So is the set of
blocked signals of a thread, which a step of its own changes.

`posted`, `taken` and `handled` are ghosts: the values that were queued for a signal, the ones that
were taken off again, and the calls of handlers with a siginfo.
-/

namespace Rtems.Signals

/-- What `sa_handler` is. -/
inductive Handler where
  /-- `SIG_DFL`. -/
  | dfl
  /-- `SIG_IGN`. -/
  | ign
  /-- `_POSIX_signals_Abnormal_termination_handler`. -/
  | abnormalTermination
  | user
deriving DecidableEq, Repr

/-- `struct sigaction`.  The flags are `SA_SIGINFO` or not. -/
structure Sigaction where
  handler : Handler
  siginfo : Bool
deriving DecidableEq, Repr

/-- What a thread is doing in `sigtimedwait`. -/
inductive Wait where
  | none
  /-- It is on the wait queue. -/
  | waiting (set : Nat → Bool)
  /-- It was woken, with this `si_signo`, which is `-1` after a timeout. -/
  | woken (signo : Option Nat)

structure State (Tid Nid : Type) where
  vectors : Nat → Sigaction
  /-- `_POSIX_signals_Pending`. -/
  pending : Nat → Bool
  /-- `_POSIX_signals_Inactive_siginfo`. -/
  inactive : List Nid
  /-- `_POSIX_signals_Siginfo`. -/
  siginfo : Nat → List Nid
  /-- The value in the `Info` of a node. -/
  info : Nid → Nat
  signalsPending : Tid → Nat → Bool
  signalsBlocked : Tid → Nat → Bool
  wait : Tid → Wait
  /-- The deliveries between their two steps, the last one first: signal and siginfo. -/
  due : Tid → List (Nat × Option Nat)
  posted : Nat → List Nat
  taken : Nat → List Nat
  handled : List (Nat × Option Nat)

/-- The errors of `killinfo` and `sigaction`. -/
inductive Errno where
  | ESRCH
  | EINVAL
  | EAGAIN
deriving DecidableEq, Repr

/-! ## Signal numbers -/

def sigRtMin : Nat := 27
def sigRtMax : Nat := 31
def sigIll : Nat := 4
def sigFpe : Nat := 8
def sigKill : Nat := 9
def sigSegv : Nat := 11

/-- `is_valid_signo`. -/
def isValidSigno (sig : Nat) : Bool := 0 < sig && sig ≤ sigRtMax

/-- The order in which `_POSIX_signals_Get_lowest` looks: the real-time signals first. -/
def lowestOrder : List Nat := List.range' sigRtMin 5 ++ List.range' 1 26

/-- `_POSIX_signals_Get_lowest`. -/
def getLowest (set : Nat → Bool) : Nat := (lowestOrder.find? set).getD sigRtMin

/-- `_POSIX_signals_Default_vectors`. -/
def defaultVectors (sig : Nat) : Sigaction :=
  if sig = 0 then ⟨.ign, false⟩ else ⟨.abnormalTermination, false⟩

variable {Tid Nid : Type} [DecidableEq Tid] [DecidableEq Nid]

/-! ## Clearing -/

/-- `_POSIX_signals_Clear_process_signals`. -/
def clearProcessSignals (s : State Tid Nid) (signo : Nat) : State Tid Nid :=
  if (s.vectors signo).siginfo && ! (s.siginfo signo).isEmpty then s
  else { s with pending := Function.update s.pending signo false }

/-- `_POSIX_signals_Clear_signals`.  Without a callout there is no result, and a callout may have
no siginfo. -/
def clearSignals (s : State Tid Nid) (t : Tid) (signo : Nat) (isGlobal checkBlocked : Bool) :
    Option (Option Nat) × State Tid Nid :=
  let unblocked := ! checkBlocked || ! s.signalsBlocked t signo
  if isGlobal then
    if s.pending signo && unblocked then
      if (s.vectors signo).siginfo then
        match s.siginfo signo with
        | psiginfo :: rest =>
          let s := { s with
            siginfo := Function.update s.siginfo signo rest
            taken := Function.update s.taken signo (s.taken signo ++ [s.info psiginfo]) }
          let s := clearProcessSignals s signo
          let s := { s with inactive := s.inactive ++ [psiginfo] }
          (some (some (s.info psiginfo)), clearProcessSignals s signo)
        | [] =>
          let s := clearProcessSignals s signo
          -- `do_callout = false` is overwritten at the end
          (some none, clearProcessSignals s signo)
      else (some none, clearProcessSignals s signo)
    else (none, s)
  else if s.signalsPending t signo && unblocked then
    (some none, { s with
      signalsPending := Function.update s.signalsPending t
        (Function.update (s.signalsPending t) signo false) })
  else (none, s)

/-! ## Posting -/

/-- `_POSIX_signals_Unblock_thread`, as far as it is about `sigtimedwait`. -/
def unblockThread (s : State Tid Nid) (t : Tid) (signo : Nat) : Bool × State Tid Nid :=
  match s.wait t with
  | .waiting set =>
    if set signo || ! s.signalsBlocked t signo then
      (true, { s with wait := Function.update s.wait t (.woken (some signo)) })
    else (false, s)
  | _ => (false, s)

/-- `pthread_kill`. -/
def pthreadKill (s : State Tid Nid) (t : Tid) (sig : Nat) : State Tid Nid :=
  if (s.vectors sig).handler = .ign then s
  else
    let s := { s with
      signalsPending := Function.update s.signalsPending t
        (Function.update (s.signalsPending t) sig true) }
    (unblockThread s t sig).2

/-- The end of `killinfo`, from `post_process_signal` on. -/
def postProcessSignal (s : State Tid Nid) (sig value : Nat) : Except Errno Unit × State Tid Nid :=
  -- `_POSIX_signals_Set_process_signals`
  let s := { s with pending := Function.update s.pending sig true }
  if (s.vectors sig).siginfo then
    match s.inactive with
    | [] => (.error .EAGAIN, s)
    | psiginfo :: rest =>
      (.ok (), { s with
        inactive := rest
        info := Function.update s.info psiginfo value
        siginfo := Function.update s.siginfo sig (s.siginfo sig ++ [psiginfo])
        posted := Function.update s.posted sig (s.posted sig ++ [value]) })
  else (.ok (), s)

/-- `killinfo`.  The process identifier is the own one or not, and `target` is the interested thread
if there is one. -/
def killinfo (s : State Tid Nid) (executing : Tid) (own : Bool) (sig : Nat) (value : Option Nat)
    (target : Option Tid) : Except Errno Unit × State Tid Nid :=
  if ! own then (.error .ESRCH, s)
  else if sig = 0 then (.error .EINVAL, s)
  else if ! isValidSigno sig then (.error .EINVAL, s)
  else if (s.vectors sig).handler = .ign then (.ok (), s)
  else if sig = sigFpe ∨ sig = sigIll ∨ sig = sigSegv then (.ok (), pthreadKill s executing sig)
  else
    match target with
    | some t =>
      match unblockThread s t sig with
      | (true, s) => (.ok (), s)
      | (false, s) => postProcessSignal s sig (value.getD 0)
    | none => postProcessSignal s sig (value.getD 0)

/-! ## Actions -/

/-- `sigaction`. -/
def sigaction (s : State Tid Nid) (sig : Nat) (act : Option Sigaction) :
    Except Errno Unit × State Tid Nid :=
  if sig = 0 then (.error .EINVAL, s)
  else if ! isValidSigno sig then (.error .EINVAL, s)
  else if sig = sigKill then (.error .EINVAL, s)
  else
    match act with
    | none => (.ok (), s)
    | some act =>
      if act.handler = .dfl then
        (.ok (), { s with vectors := Function.update s.vectors sig (defaultVectors sig) })
      else
        let s := clearProcessSignals s sig
        (.ok (), { s with vectors := Function.update s.vectors sig act })

/-! ## Delivery -/

/-- `_POSIX_signals_Check_signal` up to the handler. -/
def checkSignal (s : State Tid Nid) (t : Tid) (signo : Nat) (isGlobal : Bool) : State Tid Nid :=
  match clearSignals s t signo isGlobal true with
  | (none, s) => s
  | (some info, s) => { s with due := Function.update s.due t ((signo, info) :: s.due t) }

/-- `_POSIX_signals_Check_signal` with the call of the handler. -/
def callHandler (s : State Tid Nid) (t : Tid) : State Tid Nid :=
  match s.due t with
  | [] => s
  | (signo, info) :: rest =>
    let s := { s with due := Function.update s.due t rest }
    if (s.vectors signo).handler = .ign then s
    else if (s.vectors signo).siginfo then { s with handled := s.handled ++ [(signo, info)] }
    else s

/-! ## Acceptance -/

/-- Some signal is in both sets. -/
def intersects (set set' : Nat → Bool) : Bool := lowestOrder.any fun sig => set sig && set' sig

/-- `sigtimedwait` up to the wait queue. -/
def sigtimedwait (s : State Tid Nid) (t : Tid) (set : Nat → Bool) : State Tid Nid :=
  if intersects set (s.signalsPending t) then
    (clearSignals s t (getLowest (s.signalsPending t)) false false).2
  else if intersects set s.pending then
    (clearSignals s t (getLowest s.pending) true false).2
  else { s with wait := Function.update s.wait t (.waiting set) }

/-- The rest of `sigtimedwait`.  After a timeout the signal to clear is `-1`, and what the shift by
it clears is anything. -/
def sigtimedwaitReturn (s : State Tid Nid) (t : Tid) (cleared : Nat → Bool) : State Tid Nid :=
  match s.wait t with
  | .woken (some signo) =>
    let s := (clearSignals s t signo false false).2
    { s with wait := Function.update s.wait t .none }
  | .woken none =>
    { s with
      wait := Function.update s.wait t .none
      signalsPending := Function.update s.signalsPending t
        fun sig => s.signalsPending t sig && ! cleared sig }
  | _ => s

/-- The timeout of a wait. -/
def timeout (s : State Tid Nid) (t : Tid) : State Tid Nid :=
  match s.wait t with
  | .waiting _ => { s with wait := Function.update s.wait t (.woken none) }
  | _ => s

/-! ## Runs -/

inductive Op (Tid : Type) where
  | killinfo (executing : Tid) (own : Bool) (sig : Nat) (value : Option Nat) (target : Option Tid)
  | pthreadKill (t : Tid) (sig : Nat)
  | sigaction (sig : Nat) (act : Option Sigaction)
  | checkSignal (t : Tid) (signo : Nat) (isGlobal : Bool)
  | callHandler (t : Tid)
  | sigtimedwait (t : Tid) (set : Nat → Bool)
  | sigtimedwaitReturn (t : Tid) (cleared : Nat → Bool)
  | timeout (t : Tid)
  | setBlocked (t : Tid) (blocked : Nat → Bool)

def Op.run (s : State Tid Nid) : Op Tid → State Tid Nid
  | .killinfo executing own sig value target =>
    (Signals.killinfo s executing own sig value target).2
  | .pthreadKill t sig => Signals.pthreadKill s t sig
  | .sigaction sig act => (Signals.sigaction s sig act).2
  | .checkSignal t signo isGlobal => Signals.checkSignal s t signo isGlobal
  | .callHandler t => Signals.callHandler s t
  | .sigtimedwait t set => Signals.sigtimedwait s t set
  | .sigtimedwaitReturn t cleared => Signals.sigtimedwaitReturn s t cleared
  | .timeout t => Signals.timeout s t
  | .setBlocked t blocked => { s with signalsBlocked := Function.update s.signalsBlocked t blocked }

/-- The signal was not given to a thread that waits for it. -/
def ungiven (s : State Tid Nid) (sig : Nat) : Option Tid → Bool
  | some t => ! (unblockThread s t sig).1
  | none => true

/-- A `killinfo` gets to `post_process_signal`. -/
def posts (s : State Tid Nid) (own : Bool) (sig : Nat) (target : Option Tid) : Bool :=
  own && isValidSigno sig && (s.vectors sig).handler ≠ .ign &&
    ! (sig = sigFpe ∨ sig = sigIll ∨ sig = sigSegv) && ungiven s sig target

/-- A signal may be cleared: its values are taken one by one, or it has none. -/
def Clearable (s : State Tid Nid) (sig : Nat) : Prop :=
  (s.vectors sig).siginfo = true ∨ s.siginfo sig = []

/-- A step that does not run into what the code leaves open. -/
def Op.Careful (s : State Tid Nid) : Op Tid → Prop
  | .killinfo _ own sig _ target => posts s own sig target = true →
      (s.vectors sig).siginfo = true → s.pending sig = true ∨ s.inactive ≠ []
  | .sigaction sig act => isValidSigno sig = true → ∀ a, act = some a → a.handler ≠ .dfl →
      Clearable s sig ∧ (a.siginfo = true → ∀ t, (sig, none) ∉ s.due t)
  | .checkSignal t signo isGlobal => s.signalsBlocked t signo = false →
      if isGlobal then s.pending signo = true → Clearable s signo
      else s.signalsPending t signo = true → (s.vectors signo).siginfo = false
  | .sigtimedwait t set => intersects set (s.signalsPending t) = false →
      intersects set s.pending = true → Clearable s (getLowest s.pending)
  | _ => True

/-- The states of the runs of careful steps. -/
def Reachable (s₀ : State Tid Nid) : State Tid Nid → Prop :=
  Relation.ReflTransGen (fun s s' => ∃ op : Op Tid, op.Careful s ∧ s' = op.run s) s₀

/-- `_POSIX_signals_Manager_Initialization`, with all threads in any state outside
`sigtimedwait`. -/
def initial (nodes : List Nid) (info : Nid → Nat) (blocked : Tid → Nat → Bool) : State Tid Nid where
  vectors := defaultVectors
  pending := fun _ => false
  inactive := nodes
  siginfo := fun _ => []
  info := info
  signalsPending := fun _ _ => false
  signalsBlocked := blocked
  wait := fun _ => .none
  due := fun _ => []
  posted := fun _ => []
  taken := fun _ => []
  handled := []

end Rtems.Signals
