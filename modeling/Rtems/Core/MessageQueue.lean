import Rtems.ThreadQueue.Waiters

/-!
# SuperCore message queues

The model of `coremsg.c`, `coremsgsubmit.c`, `coremsgseize.c`,
`coremsginsert.c` and `coremsgbroadcast.c`, with blocking sends and message
priorities enabled.  A message reaches its receiver in one of three ways: it is
copied to a waiting receiver, it goes through the pending messages, or it waits
with its blocked sender until a receive frees a buffer for it.

Senders and receivers wait on the same thread queue.  Each operation is one
critical section of the queue lock, save a broadcast, which takes the lock anew
for each receiver.
-/

namespace Rtems.CoreMessageQueue

open ThreadQueue Lib

/-- `CORE_message_queue_Status`. -/
inductive Status where
  | successful
  | invalidSize
  | tooMany
  | unsatisfied
  | unsatisfiedNowait
  | wasDeleted
  | timeout
  | unsatisfiedWait
deriving DecidableEq, Repr

/-- `CORE_message_queue_Submit_types`, a C `int`. -/
def SubmitType : Type := { p : Int // -2 ^ 31 ≤ p ∧ p < 2 ^ 31 }
deriving DecidableEq

/-- `CORE_MESSAGE_QUEUE_SEND_REQUEST`. -/
def SubmitType.sendRequest : SubmitType := ⟨2 ^ 31 - 1, by decide⟩

/-- `CORE_MESSAGE_QUEUE_URGENT_REQUEST`. -/
def SubmitType.urgentRequest : SubmitType := ⟨-2 ^ 31, by decide⟩

/-- The submit type of a broadcast. -/
def SubmitType.zero : SubmitType := ⟨0, by decide⟩

/-- The contents of a message: as many bytes as its size says. -/
abbrev Data := List (BitVec 8)

/-- A message.  `serial` is a ghost: the number of the message among those that
the queue has accepted. -/
structure Message where
  data : Data
  priority : SubmitType
  serial : Nat
deriving DecidableEq

/-- What a thread waits for.  In the source this is implicit. -/
inductive Role where
  | sender
  | receiver
deriving DecidableEq, Repr

/-- The parameters of `_CORE_message_queue_Initialize`, and the priorities of
the threads.  No API creates a queue for zero messages. -/
structure Config (Tid : Type) where
  /-- `maximum_pending_messages`. -/
  maximumPendingMessages : Nat
  /-- `maximum_message_size`. -/
  maximumMessageSize : Nat
  discipline : Discipline
  prio : Tid → Priority
  pos : 0 < maximumPendingMessages

variable {Tid : Type}

/-- `CORE_message_queue_Control` and the `Wait` blocks of its threads.  The last
three fields are ghosts: how many messages the queue has accepted, which ones,
and which thread has returned with which of them, latest first. -/
structure State (Tid : Type) where
  /-- `Wait_queue`. -/
  waitQueue : Waiters Tid Status
  /-- `number_of_pending_messages`. -/
  numberOfPendingMessages : Nat
  /-- `Pending_messages`. -/
  pendingMessages : List Message
  /-- The number of buffers on `Inactive_messages`. -/
  inactiveMessages : Nat
  /-- What `Wait.return_argument`, `Wait.return_argument_second`, `Wait.option`
  and `Wait.count` stand for: the message of a blocked sender, or the buffer, the
  size and the priority that a receiver is given. -/
  slot : Tid → Message
  role : Tid → Role
  serial : Nat
  accepted : List Message
  received : List (Tid × Message)

variable [DecidableEq Tid]

/-! ## The operations -/

/-- `_CORE_message_queue_Initialize`. -/
def start (cfg : Config Tid) : State Tid where
  waitQueue := .start .successful
  numberOfPendingMessages := 0
  pendingMessages := []
  inactiveMessages := cfg.maximumPendingMessages
  slot := fun _ => ⟨[], .zero, 0⟩
  role := fun _ => .receiver
  serial := 0
  accepted := []
  received := []

/-- The queue accepts a message. -/
def accept (s : State Tid) (data : Data) (submitType : SubmitType) : Message × State Tid :=
  let message := ⟨data, submitType, s.serial⟩
  (message, { s with serial := s.serial + 1, accepted := message :: s.accepted })

/-- Where `_CORE_message_queue_Insert_message` puts a message. -/
def place (message : Message) (pending : List Message) : List Message :=
  if message.priority = .sendRequest then pending ++ [message]
  else if message.priority ≠ .urgentRequest then
    stableInsert (fun m : Message => m.priority.val) message pending
  else message :: pending

/-- `_CORE_message_queue_Insert_message`. -/
def insertMessage (s : State Tid) (message : Message) : State Tid :=
  { s with
    numberOfPendingMessages := s.numberOfPendingMessages + 1
    pendingMessages := place message s.pendingMessages }

/-- `_CORE_message_queue_Dequeue_receiver`. -/
def dequeueReceiver (cfg : Config Tid) (s : State Tid) (data : Data) (submitType : SubmitType) :
    Option (Tid × State Tid) :=
  if s.numberOfPendingMessages ≠ 0 then none
  else
    match s.waitQueue.firstLocked with
    | none => none
    | some theThread =>
      let (message, s) := accept s data submitType
      some (theThread,
        { s with
          slot := Function.update s.slot theThread message
          waitQueue := s.waitQueue.extractCritical cfg.discipline theThread })

/-- `_CORE_message_queue_Submit`.  `isr` says that an interrupt is in progress. -/
def submit (cfg : Config Tid) (s : State Tid) (executing : Tid) (data : Data)
    (submitType : SubmitType) (wait : Bool) (timeout : Nat) (isr : Bool) : Status × State Tid :=
  if data.length > cfg.maximumMessageSize then (.invalidSize, s)
  else
    match dequeueReceiver cfg s data submitType with
    | some (_, s) => (.successful, s)
    | none =>
      if s.inactiveMessages ≠ 0 then
        let (message, s) := accept s data submitType
        (.successful,
          insertMessage { s with inactiveMessages := s.inactiveMessages - 1 } message)
      else if !wait then (.tooMany, s)
      else if isr then (.unsatisfied, s)
      else
        (.unsatisfiedWait,
          { s with
            slot := Function.update s.slot executing ⟨data, submitType, s.serial⟩
            role := Function.update s.role executing .sender
            waitQueue := s.waitQueue.enqueueCritical cfg.discipline cfg.prio executing
              (if timeout ≠ 0 then some .timeout else none) })

/-- `_CORE_message_queue_Seize`. -/
def seize (cfg : Config Tid) (s : State Tid) (executing : Tid) (wait : Bool) (timeout : Nat) :
    State Tid :=
  let s := { s with waitQueue := s.waitQueue.setReturnCode executing .successful }
  match s.pendingMessages with
  | theMessage :: rest =>
    let s :=
      { s with
        pendingMessages := rest
        numberOfPendingMessages := s.numberOfPendingMessages - 1
        slot := Function.update s.slot executing theMessage
        received := (executing, theMessage) :: s.received }
    match s.waitQueue.firstLocked with
    | none => { s with inactiveMessages := s.inactiveMessages + 1 }
    | some theThread =>
      let (message, s) := accept s (s.slot theThread).data (s.slot theThread).priority
      let s := insertMessage s message
      { s with waitQueue := s.waitQueue.extractCritical cfg.discipline theThread }
  | [] =>
    if !wait then
      { s with waitQueue := s.waitQueue.setReturnCode executing .unsatisfiedNowait }
    else
      { s with
        role := Function.update s.role executing .receiver
        waitQueue := s.waitQueue.enqueueCritical cfg.discipline cfg.prio executing
          (if timeout ≠ 0 then some .timeout else none) }

/-- One turn of the loop of `_CORE_message_queue_Broadcast`. -/
def broadcastTurn (cfg : Config Tid) (s : State Tid) (data : Data) : State Tid :=
  match dequeueReceiver cfg s data .zero with
  | some (_, s) => s
  | none => s

/-- `_Thread_Timeout` of a thread. -/
def threadTimeout (cfg : Config Tid) (s : State Tid) (t : Tid) : State Tid :=
  { s with waitQueue := s.waitQueue.timeout cfg.discipline t }

/-- A released thread returns from its call, a receiver with what it was given. -/
def complete (s : State Tid) (t : Tid) : State Tid :=
  { s with
    waitQueue := s.waitQueue.resume t
    received :=
      if s.role t = .receiver ∧ s.waitQueue.returnCode t = .successful then
        (t, s.slot t) :: s.received
      else s.received }

/-- A step of the queue and its users.  An interrupt that submits does not
block. -/
inductive Step (cfg : Config Tid) : State Tid → State Tid → Prop where
  | submit (s : State Tid) (executing : Tid) (data : Data) (submitType : SubmitType) (wait : Bool)
      (timeout : Nat) (isr : Bool) (hidle : isr = false → s.waitQueue.Idle executing) :
      Step cfg s (submit cfg s executing data submitType wait timeout isr).2
  | seize (s : State Tid) (executing : Tid) (wait : Bool) (timeout : Nat)
      (hidle : s.waitQueue.Idle executing) : Step cfg s (seize cfg s executing wait timeout)
  | broadcastTurn (s : State Tid) (data : Data) (hsize : data.length ≤ cfg.maximumMessageSize) :
      Step cfg s (broadcastTurn cfg s data)
  | threadTimeout (s : State Tid) (t : Tid) : Step cfg s (threadTimeout cfg s t)
  | complete (s : State Tid) (t : Tid) (hreleased : t ∈ s.waitQueue.released) :
      Step cfg s (complete s t)

/-- The states of the runs of a queue. -/
def Reachable (cfg : Config Tid) : State Tid → Prop :=
  Relation.ReflTransGen (Step cfg) (start cfg)

end Rtems.CoreMessageQueue
