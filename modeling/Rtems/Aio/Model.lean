import Rtems.Score.Types

/-!
# Asynchronous input and output

The model of `aio_misc.c` and `aio_cancel.c`.  What a call or a worker does while
it has the mutex of the queue is one step, and so is what a worker does while it
has the mutex of a chain of requests.  Between its steps a worker is at one of
the places of `Pc`.

A wait for a condition ends when it likes, with or without `ETIMEDOUT`: a signal
is no more than one reason for it to end.  `malloc` and the locking of a mutex
succeed.  The node at the end of a chain is no chain of requests, and its
descriptor is not the one that a search is for.  The loop that inserts a request
may read the node at the end of a chain as a request, which it is not: what it
reads there is used as an address.
-/

namespace Rtems.Aio

/-- `AIO_MAX_THREADS`. -/
def aioMaxThreads : Int := 5

/-! ## Requests -/

/-- `struct aiocb`, as far as the queue reads it. -/
structure Aiocb where
  address : Nat
  fildes : Int
  reqprio : Int
deriving DecidableEq, Repr

/-- `rtems_aio_request`.  The serial number tells the requests for one control block apart. -/
structure Request where
  serial : Nat
  aiocbp : Aiocb
deriving DecidableEq, Repr

/-- `error_code` of a control block: zero or the `errno` of the operation when it is done. -/
inductive ErrorCode where
  | EINPROGRESS
  | ECANCELED
  | result (errno : Nat)
deriving DecidableEq, Repr

/-- What the control block says about a request. -/
structure Outcome where
  errorCode : ErrorCode
  returnValue : Int
deriving DecidableEq, Repr

/-- `rtems_aio_request_chain`. -/
structure RequestChain where
  perfd : List Request
  fildes : Int
deriving DecidableEq, Repr

/-- Where a worker stands in `rtems_aio_handle`. -/
inductive Pc (Cid : Type) where
  /-- Before it locks its chain. -/
  | lock (c : Cid)
  | processing (c : Cid) (req : Request)
  /-- It found its chain empty and is to lock the queue. -/
  | lockQueue (c : Cid)
  /-- Waiting for its chain. -/
  | waitChain (c : Cid)
  /-- Waiting for a new chain. -/
  | waitNew
  | finished
deriving DecidableEq, Repr

/-- The chain of a worker. -/
def Pc.chain {Cid : Type} : Pc Cid → Option Cid
  | .lock c | .processing c _ | .lockQueue c | .waitChain c => some c
  | .waitNew | .finished => none

/-- The request that a worker has taken off its chain. -/
def Pc.request {Cid : Type} : Pc Cid → List Request
  | .processing _ req => [req]
  | _ => []

/-- `rtems_aio_queue`, the chains of requests in the heap and the workers.  `fault` says that a
chain was unlinked from no list or used after it was freed.  Ghosts: the requests that came, those
for which `rtems_aio_enqueue` returned zero, those that were executed and canceled, and those whose
insertion read the node at the end of a chain as a request. -/
structure State (Cid Wid : Type) where
  workReq : List Cid
  idleReq : List Cid
  activeThreads : Int
  idleThreads : Int
  chains : Cid → RequestChain
  allocated : Cid → Bool
  workers : List Wid
  pc : Wid → Pc Cid
  outcome : Request → Outcome
  fault : Bool
  issued : List Request
  accepted : List Request
  executed : List Request
  canceled : List Request
  misread : List Request

variable {Cid Wid : Type} [DecidableEq Cid] [DecidableEq Wid]

/-- `rtems_aio_init`. -/
def initial (chains : Cid → RequestChain) (pc : Wid → Pc Cid) (outcome : Request → Outcome) :
    State Cid Wid where
  workReq := []
  idleReq := []
  activeThreads := 0
  idleThreads := 0
  chains := chains
  allocated := fun _ => false
  workers := []
  pc := pc
  outcome := outcome
  fault := false
  issued := []
  accepted := []
  executed := []
  canceled := []
  misread := []

/-- The loop of `rtems_aio_insert_prio` from a node on, and whether it read the tail. -/
def insertLoop (req : Request) : List Request → List Request × Bool
  | [] => ([req], true)
  | node :: rest =>
    if req.aiocbp.reqprio > node.aiocbp.reqprio then
      (node :: (insertLoop req rest).1, (insertLoop req rest).2)
    else (req :: node :: rest, false)

namespace State

/-! ## Parts of a step -/

def setPc (s : State Cid Wid) (w : Wid) (p : Pc Cid) : State Cid Wid :=
  { s with pc := Function.update s.pc w p }

def setPerfd (s : State Cid Wid) (c : Cid) (perfd : List Request) : State Cid Wid :=
  { s with chains := Function.update s.chains c { s.chains c with perfd := perfd } }

/-- `rtems_aio_insert_prio`. -/
def insertPrio (s : State Cid Wid) (c : Cid) (req : Request) : State Cid Wid :=
  let r := if (s.chains c).perfd = [] then ([req], false) else insertLoop req (s.chains c).perfd
  { s.setPerfd c r.1 with misread := if r.2 then s.misread ++ [req] else s.misread }

/-- The place of a chain by its descriptor, in `rtems_aio_search_fd` and
`rtems_aio_move_to_work`. -/
def insertFd (s : State Cid Wid) (c : Cid) (chain : List Cid) : List Cid :=
  chain.orderedInsert (fun a b => (s.chains a).fildes ≤ (s.chains b).fildes) c

/-- `rtems_aio_search_fd` with `create` zero. -/
def searchFd (s : State Cid Wid) (chain : List Cid) (fildes : Int) : Option Cid :=
  match chain.find? fun c => ! (s.chains c).fildes < fildes with
  | some c => if (s.chains c).fildes = fildes then some c else none
  | none => none

/-- A chain from the heap, with no request. -/
def mallocChain (s : State Cid Wid) (c : Cid) (fildes : Int) : State Cid Wid :=
  { s with
    chains := Function.update s.chains c ⟨[], fildes⟩
    allocated := Function.update s.allocated c true }

/-- `rtems_chain_extract` of a chain of requests. -/
def extractFd (s : State Cid Wid) (c : Cid) : State Cid Wid :=
  if c ∈ s.workReq then { s with workReq := s.workReq.erase c }
  else if c ∈ s.idleReq then { s with idleReq := s.idleReq.erase c }
  else { s with fault := true }

/-- `free` of a chain of requests. -/
def freeChain (s : State Cid Wid) (c : Cid) : State Cid Wid :=
  if s.allocated c then { s with allocated := Function.update s.allocated c false }
  else { s with fault := true }

/-- The requests are canceled. -/
def cancelRequests (s : State Cid Wid) (reqs : List Request) : State Cid Wid :=
  { s with
    outcome := fun r => if r ∈ reqs then ⟨.ECANCELED, -1⟩ else s.outcome r
    canceled := s.canceled ++ reqs }

/-- `rtems_aio_remove_fd`. -/
def removeFd (s : State Cid Wid) (c : Cid) : State Cid Wid :=
  (s.setPerfd c []).cancelRequests (s.chains c).perfd

end State

/-- What `aio_cancel` returns. -/
inductive CancelResult where
  | AIO_CANCELED
  | AIO_NOTCANCELED
  | AIO_ALLDONE
  | EBADF
  | EINVAL
deriving DecidableEq, Repr

namespace State

/-- `rtems_aio_remove_req`. -/
def removeReq (s : State Cid Wid) (c : Cid) (aiocbp : Aiocb) : State Cid Wid × CancelResult :=
  if (s.chains c).perfd = [] then (s, .AIO_ALLDONE)
  else
    match (s.chains c).perfd.find? fun r => r.aiocbp = aiocbp with
    | none => (s, .AIO_NOTCANCELED)
    | some r =>
      ((s.setPerfd c ((s.chains c).perfd.erase r)).cancelRequests [r], .AIO_CANCELED)

/-! ## rtems_aio_enqueue -/

/-- The request comes. -/
def issue (s : State Cid Wid) (req : Request) : State Cid Wid :=
  { s with
    outcome := Function.update s.outcome req ⟨.EINPROGRESS, 0⟩
    issued := s.issued ++ [req] }

/-- `rtems_aio_enqueue` returns zero. -/
def accept (s : State Cid Wid) (req : Request) : State Cid Wid :=
  { s with accepted := s.accepted ++ [req] }

/-- A new chain for the descriptor of a request, with the request. -/
def newChain (s : State Cid Wid) (c : Cid) (req : Request) : State Cid Wid :=
  (s.mallocChain c req.aiocbp.fildes).setPerfd c [req]

def linkWork (s : State Cid Wid) (c : Cid) : State Cid Wid :=
  { s with workReq := s.insertFd c s.workReq }

def linkIdle (s : State Cid Wid) (c : Cid) : State Cid Wid :=
  { s with idleReq := s.insertFd c s.idleReq }

/-- `pthread_create`, and the count of the new worker. -/
def createWorker (s : State Cid Wid) (w : Wid) (c : Cid) : State Cid Wid :=
  { s with
    workers := w :: s.workers
    pc := Function.update s.pc w (.lock c)
    activeThreads := s.activeThreads + 1 }

/-- `rtems_aio_enqueue`.  `c` is what `malloc` gives for a new chain and `thread` the worker that
`pthread_create` makes, or none if it fails. -/
def enqueue (s : State Cid Wid) (req : Request) (c : Cid) (thread : Option Wid) :
    State Cid Wid × Bool :=
  let s := s.issue req
  if s.idleThreads = 0 ∧ s.activeThreads < aioMaxThreads then
    match s.searchFd s.workReq req.aiocbp.fildes with
    | none =>
      let s := (s.newChain c req).linkWork c
      match thread with
      | none => (s, false)
      | some w => ((s.createWorker w c).accept req, true)
    | some c => ((s.insertPrio c req).accept req, true)
  else
    match s.searchFd s.workReq req.aiocbp.fildes with
    | some c => ((s.insertPrio c req).accept req, true)
    | none =>
      match s.searchFd s.idleReq req.aiocbp.fildes with
      | none => (((s.newChain c req).linkIdle c).accept req, true)
      | some c => ((s.insertPrio c req).accept req, true)

/-! ## aio_cancel -/

/-- `aio_cancel`.  `valid` says that `fcntl` knows the descriptor. -/
def cancel (s : State Cid Wid) (fildes : Int) (aiocbp : Option Aiocb) (valid : Bool) :
    State Cid Wid × CancelResult :=
  if valid = false then (s, .EBADF)
  else
    match aiocbp with
    | none =>
      match s.searchFd s.workReq fildes with
      | none =>
        if s.idleReq ≠ [] then
          match s.searchFd s.idleReq fildes with
          | none => (s, .AIO_ALLDONE)
          | some c => (((s.extractFd c).removeFd c).freeChain c, .AIO_CANCELED)
        else (s, .AIO_ALLDONE)
      | some c => ((s.extractFd c).removeFd c, .AIO_CANCELED)
    | some aiocbp =>
      if aiocbp.fildes ≠ fildes then (s, .EINVAL)
      else
        match s.searchFd s.workReq fildes with
        | none =>
          if s.idleReq ≠ [] then
            match s.searchFd s.idleReq fildes with
            | none => (s, .EINVAL)
            | some c => s.removeReq c aiocbp
          else (s, .AIO_ALLDONE)
        | some c => s.removeReq c aiocbp

/-! ## rtems_aio_handle -/

/-- The worker touches its chain. -/
def touch (s : State Cid Wid) (c : Cid) (next : State Cid Wid) : State Cid Wid :=
  if s.allocated c then next else { s with fault := true }

/-- The worker locks its chain and takes the first request. -/
def take (s : State Cid Wid) (w : Wid) (c : Cid) : State Cid Wid :=
  s.touch c <|
    match (s.chains c).perfd with
    | [] => s.setPc w (.lockQueue c)
    | req :: rest => (s.setPerfd c rest).setPc w (.processing c req)

/-- The operation is done, with what the system call returned and `errno`. -/
def finish (s : State Cid Wid) (w : Wid) (c : Cid) (req : Request) (result : Int) (errno : Nat) :
    State Cid Wid :=
  { s.setPc w (.lock c) with
    outcome := Function.update s.outcome req
      (if result = -1 then ⟨.result errno, -1⟩ else ⟨.result 0, result⟩)
    executed := s.executed ++ [req] }

/-- The worker has the mutex of the queue and looks at its chain again. -/
def recheck (s : State Cid Wid) (w : Wid) (c : Cid) : State Cid Wid :=
  s.touch c <|
    if (s.chains c).perfd = [] then s.setPc w (.waitChain c) else s.setPc w (.lock c)

/-- `rtems_aio_move_to_work` of the first chain of the idle list, which becomes the chain of the
worker. -/
def workOnIdle (s : State Cid Wid) (w : Wid) : State Cid Wid :=
  let s := { s with
    idleThreads := s.idleThreads - 1
    activeThreads := s.activeThreads + 1 }
  match s.idleReq with
  | [] => { s with fault := true }
  | c :: rest => (({ s with idleReq := rest }).linkWork c).setPc w (.lock c)

/-- The wait for a request ends. -/
def wakeChain (s : State Cid Wid) (w : Wid) (c : Cid) (timedOut : Bool) : State Cid Wid :=
  s.touch c <|
    if timedOut then
      let s := (s.extractFd c).freeChain c
      if s.idleReq = [] then
        { s with
          idleThreads := s.idleThreads + 1
          activeThreads := s.activeThreads - 1 }.setPc w .waitNew
      else s.workOnIdle w
    else s.setPc w (.lock c)

/-- The wait for a new chain ends. -/
def wakeNew (s : State Cid Wid) (w : Wid) (timedOut : Bool) : State Cid Wid :=
  if timedOut then { s with idleThreads := s.idleThreads - 1 }.setPc w .finished
  else s.workOnIdle w

end State

/-! ## Runs -/

inductive Op (Cid Wid : Type) where
  | enqueue (req : Request) (c : Cid) (thread : Option Wid)
  | cancel (fildes : Int) (aiocbp : Option Aiocb) (valid : Bool)
  | take (w : Wid) (c : Cid)
  | finish (w : Wid) (c : Cid) (req : Request) (result : Int) (errno : Nat)
  | recheck (w : Wid) (c : Cid)
  | wakeChain (w : Wid) (c : Cid) (timedOut : Bool)
  | wakeNew (w : Wid) (timedOut : Bool)

/-- When a step can be taken.  A request comes once, and neither a chain nor a worker that there
is already is made again.  After a fault nothing is known. -/
def Op.Enabled (s : State Cid Wid) (op : Op Cid Wid) : Prop :=
  s.fault = false ∧
    match op with
    | .enqueue req c thread =>
      req ∉ s.issued ∧ s.allocated c = false ∧ ∀ w, thread = some w → w ∉ s.workers
    | .cancel .. => True
    | .take w c => w ∈ s.workers ∧ s.pc w = .lock c
    | .finish w c req _ _ => w ∈ s.workers ∧ s.pc w = .processing c req
    | .recheck w c => w ∈ s.workers ∧ s.pc w = .lockQueue c
    | .wakeChain w c _ => w ∈ s.workers ∧ s.pc w = .waitChain c
    | .wakeNew w _ => w ∈ s.workers ∧ s.pc w = .waitNew

def Op.run (s : State Cid Wid) : Op Cid Wid → State Cid Wid
  | .enqueue req c thread => (s.enqueue req c thread).1
  | .cancel fildes aiocbp valid => (s.cancel fildes aiocbp valid).1
  | .take w c => s.take w c
  | .finish w c req result errno => s.finish w c req result errno
  | .recheck w c => s.recheck w c
  | .wakeChain w c timedOut => s.wakeChain w c timedOut
  | .wakeNew w timedOut => s.wakeNew w timedOut

/-- The states of the runs whose steps all meet a condition. -/
def Reachable (condition : State Cid Wid → Op Cid Wid → Prop) (s₀ : State Cid Wid) :
    State Cid Wid → Prop :=
  Relation.ReflTransGen
    (fun s s' => ∃ op : Op Cid Wid, op.Enabled s ∧ condition s op ∧ s' = op.run s) s₀

/-- The steps can be taken one after the other. -/
def Legal (condition : State Cid Wid → Op Cid Wid → Prop) :
    State Cid Wid → List (Op Cid Wid) → Prop
  | _, [] => True
  | s, op :: ops => op.Enabled s ∧ condition s op ∧ Legal condition (op.run s) ops

theorem Legal.reachable {condition : State Cid Wid → Op Cid Wid → Prop} {s : State Cid Wid}
    {ops : List (Op Cid Wid)} (h : Legal condition s ops) :
    Reachable condition s (ops.foldl Op.run s) := by
  induction ops generalizing s with
  | nil => exact .refl
  | cons op rest ih => exact .head ⟨op, h.1, h.2.1, rfl⟩ (ih h.2.2)

/-- Nothing has happened yet. -/
def blank : State Nat Nat :=
  initial (fun _ => ⟨[], 0⟩) (fun _ => .finished) fun _ => ⟨.EINPROGRESS, 0⟩

/-- A request for a descriptor. -/
def requestFor (serial : Nat) (fildes : Int) : Request := ⟨serial, ⟨serial, fildes, 0⟩⟩

/-- The requests that wait on a chain of one of the lists. -/
def State.queued (s : State Cid Wid) : List Request :=
  (s.workReq ++ s.idleReq).flatMap fun c => (s.chains c).perfd

/-- The requests that are being executed. -/
def State.inProgress (s : State Cid Wid) : List Request :=
  s.workers.flatMap fun w => (s.pc w).request

end Rtems.Aio
