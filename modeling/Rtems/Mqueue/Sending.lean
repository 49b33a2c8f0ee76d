import Rtems.Core.MessageQueue

/-!
# Blocking sends of POSIX message queues

The model of `mqueuesendsupp.c` and `mqueuetranslatereturncode.c` over `coremsgsubmit.c`,
`coremsgseize.c`, `coremsgclose.c` and `coremsgflush.c`.  What a blocked sender returns is what its
`Wait.return_code` holds when it runs again.  This is a word of the thread and not of the queue: all
waits of the thread write it, and so do those who end a wait.  A seize writes it before it waits, a
submit does not.

A send is known by a number, which its message keeps.  The numbers, the messages that the queue has
accepted, those that receivers have got, and the returns of the blocked senders are ghosts.
-/

namespace Rtems.BlockingSend

open ThreadQueue
open CoreMessageQueue (Status SubmitType Data Role Message place)

/-- `Wait.return_code`. -/
abbrev ReturnCode := BitVec 32

/-- The value of a `CORE_message_queue_Status`. -/
def code : Status → ReturnCode
  | .successful => 0#32
  | .invalidSize => 1#32
  | .tooMany => 2#32
  | .unsatisfied => 3#32
  | .unsatisfiedNowait => 4#32
  | .wasDeleted => 5#32
  | .timeout => 6#32
  | .unsatisfiedWait => 7#32

/-- The error numbers that the send sets.  The last ones are words that are no error number of the
table. -/
inductive Errno where
  | EINVAL
  | EMSGSIZE
  | EAGAIN
  | ENOMEM
  | EBADF
  | ETIMEDOUT
  | ENOSYS
  | other (word : Int)
deriving DecidableEq, Repr

/-- `_POSIX_Message_queue_Return_codes`. -/
def returnCodes : List Errno :=
  [.other 0, .EMSGSIZE, .EAGAIN, .ENOMEM, .EAGAIN, .EBADF, .ETIMEDOUT, .ENOSYS]

/-- A message queue with what the sending code reads besides. -/
structure Config (Tid : Type) extends CoreMessageQueue.Config Tid where
  /-- `MQ_PRIO_MAX`. -/
  mqPrioMax : Nat
  mqPrioMax_lt : mqPrioMax < 2 ^ 31
  /-- What stands behind the table of return codes.  With `RTEMS_DEBUG` it is not read, and the
  answer is `EINVAL`. -/
  beyond : ReturnCode → Errno

/-- The bits of `oflag` that a send reads. -/
structure Oflag where
  rdonly : Bool
  nonblock : Bool
deriving DecidableEq, Repr

/-- A blocked sender has returned. -/
structure Return (Tid : Type) where
  thread : Tid
  send : Nat
  result : Except Errno Unit

/-- `CORE_message_queue_Control` and the `Wait` blocks of its threads. -/
structure State (Tid : Type) where
  /-- `Wait_queue`. -/
  waitQueue : Waiters Tid ReturnCode
  /-- `number_of_pending_messages`. -/
  numberOfPendingMessages : Nat
  /-- `Pending_messages`. -/
  pendingMessages : List Message
  /-- The number of buffers on `Inactive_messages`. -/
  inactiveMessages : Nat
  /-- The message of a blocked sender, or what a receiver is given. -/
  slot : Tid → Message
  role : Tid → Role
  /-- The number of the next send. -/
  sends : Nat
  accepted : List Nat
  delivered : List Nat
  returns : List (Return Tid)

variable {Tid : Type} [DecidableEq Tid]

/-! ## The score -/

/-- The queue after its creation.  The threads have waited before. -/
def start (cfg : Config Tid) (returnCode : Tid → ReturnCode) : State Tid where
  waitQueue := { Waiters.start 0#32 with returnCode := returnCode }
  numberOfPendingMessages := 0
  pendingMessages := []
  inactiveMessages := cfg.maximumPendingMessages
  slot := fun _ => ⟨[], .zero, 0⟩
  role := fun _ => .receiver
  sends := 0
  accepted := []
  delivered := []
  returns := []

/-- `_CORE_message_queue_Insert_message`. -/
def insertMessage (s : State Tid) (message : Message) : State Tid :=
  { s with
    numberOfPendingMessages := s.numberOfPendingMessages + 1
    pendingMessages := place message s.pendingMessages
    accepted := message.serial :: s.accepted }

/-- `_CORE_message_queue_Dequeue_receiver`. -/
def dequeueReceiver (cfg : Config Tid) (s : State Tid) (message : Message) : Option (State Tid) :=
  if s.numberOfPendingMessages ≠ 0 then none
  else
    match s.waitQueue.firstLocked with
    | none => none
    | some theThread =>
      some { s with
        slot := Function.update s.slot theThread message
        accepted := message.serial :: s.accepted
        delivered := message.serial :: s.delivered
        waitQueue := s.waitQueue.extractCritical cfg.discipline theThread }

/-- `_CORE_message_queue_Submit`.  `isr` says that an interrupt is in progress. -/
def submit (cfg : Config Tid) (s : State Tid) (executing : Tid) (data : Data)
    (submitType : SubmitType) (wait : Bool) (timeout : Nat) (isr : Bool) : Status × State Tid :=
  let message : Message := ⟨data, submitType, s.sends⟩
  let s := { s with sends := s.sends + 1 }
  if data.length > cfg.maximumMessageSize then (.invalidSize, s)
  else
    match dequeueReceiver cfg s message with
    | some s => (.successful, s)
    | none =>
      if s.inactiveMessages ≠ 0 then
        (.successful, insertMessage { s with inactiveMessages := s.inactiveMessages - 1 } message)
      else if !wait then (.tooMany, s)
      else if isr then (.unsatisfied, s)
      else
        -- the return code of the thread is not written
        (.unsatisfiedWait, { s with
          slot := Function.update s.slot executing message
          role := Function.update s.role executing .sender
          waitQueue := s.waitQueue.enqueueCritical cfg.discipline cfg.prio executing
            (if timeout ≠ 0 then some (code .timeout) else none) })

/-- `_CORE_message_queue_Seize`. -/
def seize (cfg : Config Tid) (s : State Tid) (executing : Tid) (wait : Bool) (timeout : Nat) :
    State Tid :=
  let s := { s with waitQueue := s.waitQueue.setReturnCode executing (code .successful) }
  match s.pendingMessages with
  | theMessage :: rest =>
    let s := { s with
      pendingMessages := rest
      numberOfPendingMessages := s.numberOfPendingMessages - 1
      slot := Function.update s.slot executing theMessage
      delivered := theMessage.serial :: s.delivered }
    match s.waitQueue.firstLocked with
    | none => { s with inactiveMessages := s.inactiveMessages + 1 }
    | some theThread =>
      let s := insertMessage s (s.slot theThread)
      { s with waitQueue := s.waitQueue.extractCritical cfg.discipline theThread }
  | [] =>
    if !wait then
      { s with waitQueue := s.waitQueue.setReturnCode executing (code .unsatisfiedNowait) }
    else
      { s with
        role := Function.update s.role executing .receiver
        waitQueue := s.waitQueue.enqueueCritical cfg.discipline cfg.prio executing
          (if timeout ≠ 0 then some (code .timeout) else none) }

/-- `_Thread_Timeout` of a thread. -/
def threadTimeout (cfg : Config Tid) (s : State Tid) (t : Tid) : State Tid :=
  { s with waitQueue := s.waitQueue.timeout cfg.discipline t }

/-- `_CORE_message_queue_Close`: one turn of the flush of the threads. -/
def closeTurn (cfg : Config Tid) (s : State Tid) : State Tid :=
  { s with waitQueue := s.waitQueue.flushTurn cfg.discipline (code .wasDeleted) }

/-- `_CORE_message_queue_Flush`. -/
def flush (s : State Tid) : State Tid :=
  if s.numberOfPendingMessages ≠ 0 then
    { s with
      numberOfPendingMessages := 0
      pendingMessages := []
      inactiveMessages := s.inactiveMessages + s.pendingMessages.length }
  else s

/-! ## The POSIX layer -/

/-- `_POSIX_Message_queue_Translate_core_message_queue_return_code`. -/
def translate (cfg : Config Tid) (returnCode : ReturnCode) : Errno :=
  (returnCodes[returnCode.toNat]?).getD (cfg.beyond returnCode)

/-- What a send returns for a status: success for zero, or `-1` with the error number. -/
def resultOf (cfg : Config Tid) (msgStatus : ReturnCode) : Except Errno Unit :=
  if msgStatus = 0#32 then .ok () else .error (translate cfg msgStatus)

/-- `_POSIX_Message_queue_Priority_to_core`. -/
def priorityToCore (cfg : Config Tid) (msgPrio : Nat) (h : msgPrio ≤ cfg.mqPrioMax) : SubmitType :=
  ⟨-msgPrio, by have := cfg.mqPrioMax_lt; omega⟩

/-- `_POSIX_Message_queue_Send_support` until it waits or returns.  There is no result when it
waits. -/
def sendSupport (cfg : Config Tid) (s : State Tid) (executing : Tid) (fd : Option Oflag)
    (data : Data) (msgPrio : Nat) (wait : Bool) (timeout : Nat) (isr : Bool) :
    Option (Except Errno Unit) × State Tid :=
  if h : msgPrio ≤ cfg.mqPrioMax then
    match fd with
    | none => (some (.error .EBADF), s)
    | some oflag =>
      if oflag.rdonly then (some (.error .EBADF), s)
      else
        let doWait := if wait then !oflag.nonblock else wait
        match submit cfg s executing data (priorityToCore cfg msgPrio h) doWait timeout isr with
        | (.unsatisfiedWait, s) => (none, s)
        | (msgStatus, s) => (some (resultOf cfg (code msgStatus)), s)
  else (some (.error .EINVAL), s)

/-- A released thread returns from its call, a sender with its return code. -/
def complete (cfg : Config Tid) (s : State Tid) (t : Tid) : State Tid :=
  { s with
    waitQueue := s.waitQueue.resume t
    returns :=
      if s.role t = .sender then
        ⟨t, (s.slot t).serial, resultOf cfg (s.waitQueue.returnCode t)⟩ :: s.returns
      else s.returns }

/-! ## Runs -/

inductive Op (Tid : Type) where
  | sendSupport (executing : Tid) (fd : Option Oflag) (data : Data) (msgPrio : Nat) (wait : Bool)
      (timeout : Nat) (isr : Bool)
  | seize (executing : Tid) (wait : Bool) (timeout : Nat)
  /-- Another wait of a thread, on any object, has left this return code. -/
  | otherWait (t : Tid) (returnCode : ReturnCode)
  | threadTimeout (t : Tid)
  | closeTurn
  | flush
  | complete (t : Tid)

/-- A thread is in one call at a time, and the messages are flushed after the threads. -/
def Op.Enabled (s : State Tid) : Op Tid → Prop
  | .sendSupport executing _ _ _ _ _ isr => isr = false → s.waitQueue.Idle executing
  | .seize executing _ _ => s.waitQueue.Idle executing
  | .otherWait t _ => s.waitQueue.Idle t
  | .flush => s.waitQueue.queue = []
  | .complete t => t ∈ s.waitQueue.released
  | _ => True

/-- The state after a step. -/
def Op.run (cfg : Config Tid) (s : State Tid) : Op Tid → State Tid
  | .sendSupport executing fd data msgPrio wait timeout isr =>
    (BlockingSend.sendSupport cfg s executing fd data msgPrio wait timeout isr).2
  | .seize executing wait timeout => BlockingSend.seize cfg s executing wait timeout
  | .otherWait t returnCode =>
    { s with waitQueue := s.waitQueue.setReturnCode t returnCode }
  | .threadTimeout t => BlockingSend.threadTimeout cfg s t
  | .closeTurn => BlockingSend.closeTurn cfg s
  | .flush => BlockingSend.flush s
  | .complete t => BlockingSend.complete cfg s t

/-- The arguments and the state make a send wait. -/
structure MustWait (cfg : Config Tid) (s : State Tid) (fd : Option Oflag) (data : Data)
    (msgPrio : Nat) (wait isr : Bool) : Prop where
  msgPrio : msgPrio ≤ cfg.mqPrioMax
  fd : fd = some ⟨false, false⟩
  size : data.length ≤ cfg.maximumMessageSize
  wait : wait = true
  isr : isr = false
  full : s.inactiveMessages = 0
  noReceiver : s.numberOfPendingMessages ≠ 0 ∨ s.waitQueue.queue = []

/-- No thread waits with a return code other than success, and the queue is not deleted while senders
wait. -/
def Op.Careful (cfg : Config Tid) (s : State Tid) : Op Tid → Prop
  | .sendSupport executing fd data msgPrio wait _ isr =>
    MustWait cfg s fd data msgPrio wait isr → s.waitQueue.returnCode executing = code .successful
  | .closeTurn => ∀ t ∈ s.waitQueue.queue, s.role t = .receiver
  | _ => True

/-- The states of all runs. -/
def Reachable (cfg : Config Tid) (returnCode : Tid → ReturnCode) : State Tid → Prop :=
  Relation.ReflTransGen (fun s s' => ∃ op : Op Tid, op.Enabled s ∧ s' = op.run cfg s)
    (start cfg returnCode)

/-- The states of the runs whose steps are all careful. -/
def CarefullyReachable (cfg : Config Tid) (returnCode : Tid → ReturnCode) : State Tid → Prop :=
  Relation.ReflTransGen
    (fun s s' => ∃ op : Op Tid, op.Enabled s ∧ op.Careful cfg s ∧ s' = op.run cfg s)
    (start cfg returnCode)

/-- The result of a blocked send says what happened to its message. -/
structure Reported (s : State Tid) (r : Return Tid) : Prop where
  success : r.result = .ok () ↔ r.send ∈ s.accepted
  timeout : r.result = .error .ETIMEDOUT ↔ r.send ∉ s.accepted
  delivered : r.result = .error .ETIMEDOUT → r.send ∉ s.delivered

end Rtems.BlockingSend
