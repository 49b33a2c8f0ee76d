import Rtems.Score.Types

/-!
# Named message queues and their descriptors

The model of `mqueueopen.c`, `mqueuecreatesupp.c`, `mqueueclose.c`, `mqueueunlink.c`,
`mqueuedeletesupp.c` and `psxnametoid.c`.  Queues and descriptors are object classes: an object is
known by its index, it is allocated or inactive, and it may be in the local table.  Which inactive
object an allocation finds is an answer that belongs to the call, and so are the answers of the
workspace and of the core message queue.

Every call holds the allocator lock from its first access to its last one, so a run is one call after
the other.

The serial number of a queue is a ghost.  It tells a queue from the next one in the same control
block.
-/

namespace Rtems.Mqueue

/-- The error numbers of `mq_open`, `mq_close` and `mq_unlink`. -/
inductive Errno where
  | EINVAL
  | ENFILE
  | ENOMEM
  | ENOSPC
  | ENOENT
  | ENAMETOOLONG
  | EEXIST
  | EBADF
deriving DecidableEq, Repr

/-- A string, without the zero at its end. -/
abbrev Name := List Char

/-- The bits of `oflag` that matter. -/
structure Oflag where
  creat : Bool
  excl : Bool
deriving DecidableEq, Repr

/-- `struct mq_attr`, as far as it is read. -/
structure MqAttr where
  maxmsg : Int
  msgsize : Int
deriving DecidableEq, Repr

/-- `POSIX_Message_queue_Control`. -/
structure Queue where
  name : Option Name
  linked : Bool
  openCount : Nat
  attr : MqAttr
  serial : Nat

/-- `POSIX_Message_queue_Control_fd`. -/
structure Fd where
  oflag : Oflag
  queue : Nat
  /-- The serial number of the queue when the descriptor was opened. -/
  opened : Nat

/-- An object class: what is not inactive, and what is in the local table. -/
structure Class where
  allocated : List Nat
  localTable : Nat → Bool

structure State where
  /-- The nesting of the allocator lock. -/
  lock : Nat
  queues : Class
  queue : Nat → Queue
  fds : Class
  fd : Nat → Fd
  /-- The copies of names in the workspace. -/
  names : Nat
  /-- The next serial number. -/
  serial : Nat
  /-- The queues that have been unlinked. -/
  unlinked : List Nat

/-- `NAME_MAX`, the length of a name that is looked at, and the greatest index of a queue. -/
structure Limits where
  nameMax : Nat
  nameLength : Nat
  maximum : Nat

/-- What the object classes, the workspace and the core message queue answer. -/
structure Answers where
  fd : Option Nat
  queue : Option Nat
  name : Bool
  core : Bool

namespace Class

/-- `_Objects_Allocate` without its lock. -/
def allocate (c : Class) : Option Nat → Class
  | none => c
  | some i => { c with allocated := i :: c.allocated }

/-- `_Objects_Free`. -/
def free (c : Class) (i : Nat) : Class := { c with allocated := c.allocated.erase i }

/-- `_Objects_Set_local_object`. -/
def setLocal (c : Class) (i : Nat) : Class :=
  { c with localTable := Function.update c.localTable i true }

/-- `_Objects_Invalidate_Id`. -/
def invalidateId (c : Class) (i : Nat) : Class :=
  { c with localTable := Function.update c.localTable i false }

end Class

namespace State

/-- `_Objects_Allocator_lock`. -/
def allocatorLock (s : State) : State := { s with lock := s.lock + 1 }

/-- `_Objects_Allocator_unlock`. -/
def allocatorUnlock (s : State) : State := { s with lock := s.lock - 1 }

/-- `_POSIX_Message_queue_Allocate_fd`.  The lock is taken also without an object. -/
def allocateFd (s : State) (o : Option Nat) : State :=
  { s.allocatorLock with fds := s.fds.allocate o }

/-- `_POSIX_Message_queue_Free_fd`. -/
def freeFd (s : State) (d : Nat) : State := { s with fds := s.fds.free d }

/-- `_POSIX_Message_queue_Allocate`. -/
def allocateQueue (s : State) (o : Option Nat) : State :=
  { s.allocatorLock with queues := s.queues.allocate o }

/-- `_POSIX_Message_queue_Free`. -/
def freeQueue (s : State) (q : Nat) : State := { s with queues := s.queues.free q }

def setQueue (s : State) (q : Nat) (x : Queue) : State :=
  { s with queue := Function.update s.queue q x }

def setFd (s : State) (d : Nat) (x : Fd) : State := { s with fd := Function.update s.fd d x }

/-- `_POSIX_Message_queue_Namespace_remove`.  The copy of the name is freed, if there is one. -/
def namespaceRemove (s : State) (q : Nat) : State :=
  let s' := s.setQueue q { s.queue q with name := none }
  match (s.queue q).name with
  | some _ => { s' with names := s.names - 1 }
  | none => s'

end State

/-! ## Names -/

/-- `strncmp(a, b, n) == 0`. -/
def strncmpEq (n : Nat) (a b : Name) : Bool := a.take n = b.take n

/-- The name of a queue in the local table is the one that is looked for. -/
def named (c : Limits) (s : State) (name : Name) (q : Nat) : Bool :=
  s.queues.localTable q &&
    match (s.queue q).name with
    | none => false
    | some name' => strncmpEq c.nameLength name name'

/-- `_Objects_Name_to_id_string`. -/
def nameToIdString (c : Limits) (s : State) (name : Name) : Option Nat :=
  (List.range' 1 c.maximum).find? (named c s name)

/-- `_POSIX_Name_to_id`. -/
def nameToId (c : Limits) (s : State) (name : Option Name) : Except Errno Nat :=
  match name with
  | none => .error .EINVAL
  | some name =>
    if name = [] then .error .EINVAL
    else if name.length < c.nameMax then
      match nameToIdString c s name with
      | some q => .ok q
      | none => .error .ENOENT
    else .error .ENAMETOOLONG

/-! ## Creation -/

/-- The default attributes, or those that were asked for. -/
def chosenAttr : Option MqAttr → Except Errno MqAttr
  | none => .ok ⟨10, 16⟩
  | some attr =>
    if attr.maxmsg ≤ 0 then .error .EINVAL
    else if attr.msgsize ≤ 0 then .error .EINVAL
    else .ok attr

/-- `_POSIX_Message_queue_Create_support`. -/
def createSupport (s : State) (name : Name) (attrPtr : Option MqAttr) (a : Answers) :
    Except Errno Nat × State :=
  match chosenAttr attrPtr with
  | .error e => (.error e, s)
  | .ok attr =>
    let s := s.allocateQueue a.queue
    match a.queue with
    | none => (.error .ENFILE, s.allocatorUnlock)
    | some q =>
      if ! a.name then (.error .ENOMEM, (s.freeQueue q).allocatorUnlock)
      else
        let s := { s with names := s.names + 1 }
        let s := s.setQueue q
          { s.queue q with linked := true, openCount := 1, attr := attr, serial := s.serial }
        if ! a.core then
          let s := s.freeQueue q
          let s := { s with names := s.names - 1 }
          (.error .ENOSPC, s.allocatorUnlock)
        else
          -- `_Objects_Open_string`
          let s := s.setQueue q { s.queue q with name := some name }
          let s := { s with queues := s.queues.setLocal q, serial := s.serial + 1 }
          (.ok q, s.allocatorUnlock)

/-- The descriptor is opened for a queue. -/
def openFd (s : State) (d q : Nat) : State :=
  let s := s.setFd d { s.fd d with queue := q, opened := (s.queue q).serial }
  { s with fds := s.fds.setLocal d }

/-- `mq_open`. -/
def mqOpen (c : Limits) (s : State) (name : Option Name) (oflag : Oflag) (attr : Option MqAttr)
    (a : Answers) : Except Errno Nat × State :=
  let attr := if oflag.creat then attr else none
  let s := s.allocateFd a.fd
  match a.fd with
  | none => (.error .ENFILE, s.allocatorUnlock)
  | some d =>
    let s := s.setFd d { s.fd d with oflag := oflag }
    match nameToId c s name, name with
    | .ok q, _ =>
      if oflag.creat && oflag.excl then (.error .EEXIST, (s.freeFd d).allocatorUnlock)
      else
        let s := s.setQueue q { s.queue q with openCount := (s.queue q).openCount + 1 }
        (.ok d, (openFd s d q).allocatorUnlock)
    | .error .ENOENT, some name =>
      if ! oflag.creat then (.error .ENOENT, (s.freeFd d).allocatorUnlock)
      else
        match createSupport s name attr a with
        | (.error e, s) => (.error e, (s.freeFd d).allocatorUnlock)
        | (.ok q, s) => (.ok d, (openFd s d q).allocatorUnlock)
    | .error e, _ => (.error e, (s.freeFd d).allocatorUnlock)

/-! ## Deletion -/

/-- `_POSIX_Message_queue_Delete`. -/
def delete (s : State) (q : Nat) : State :=
  if ! (s.queue q).linked && (s.queue q).openCount = 0 then
    -- `_Objects_Close`
    let s := { s with queues := s.queues.invalidateId q }
    let s := s.namespaceRemove q
    s.freeQueue q
  else s

/-- `mq_close`. -/
def mqClose (s : State) (d : Nat) : Except Errno Unit × State :=
  let s := s.allocatorLock
  if s.fds.localTable d then
    let q := (s.fd d).queue
    let s := s.setQueue q { s.queue q with openCount := (s.queue q).openCount - 1 }
    let s := delete s q
    let s := { s with fds := s.fds.invalidateId d }
    let s := s.freeFd d
    (.ok (), s.allocatorUnlock)
  else (.error .EBADF, s.allocatorUnlock)

/-- `mq_unlink`. -/
def mqUnlink (c : Limits) (s : State) (name : Option Name) : Except Errno Unit × State :=
  let s := s.allocatorLock
  match nameToId c s name with
  | .error e => (.error e, s.allocatorUnlock)
  | .ok q =>
    let s := { s with unlinked := (s.queue q).serial :: s.unlinked }
    let s := s.setQueue q { s.queue q with linked := false }
    let s := s.namespaceRemove q
    let s := delete s q
    (.ok (), s.allocatorUnlock)

/-! ## Runs -/

inductive Op where
  | mqOpen (name : Option Name) (oflag : Oflag) (attr : Option MqAttr) (a : Answers)
  | mqClose (d : Nat)
  | mqUnlink (name : Option Name)

/-- An allocation finds inactive objects only. -/
def Op.Enabled (c : Limits) (s : State) : Op → Prop
  | .mqOpen _ _ _ a => (∀ d, a.fd = some d → d ∉ s.fds.allocated) ∧
      ∀ q, a.queue = some q → q ∉ s.queues.allocated ∧ 0 < q ∧ q ≤ c.maximum
  | .mqClose _ => True
  | .mqUnlink _ => True

/-- The state after a call. -/
def Op.run (c : Limits) (s : State) : Op → State
  | .mqOpen name oflag attr a => (Mqueue.mqOpen c s name oflag attr a).2
  | .mqClose d => (Mqueue.mqClose s d).2
  | .mqUnlink name => (Mqueue.mqUnlink c s name).2

/-- One call after the other. -/
def Reachable (c : Limits) (s₀ : State) : State → Prop :=
  Relation.ReflTransGen (fun s s' => ∃ op : Op, op.Enabled c s ∧ s' = op.run c s) s₀

/-- The state after the manager initialization, with the allocator lock nested or not. -/
def initial (lock : Nat) (queue : Nat → Queue) (fd : Nat → Fd) : State where
  lock := lock
  queues := ⟨[], fun _ => false⟩
  queue := queue
  fds := ⟨[], fun _ => false⟩
  fd := fd
  names := 0
  serial := 0
  unlinked := []

end Rtems.Mqueue
