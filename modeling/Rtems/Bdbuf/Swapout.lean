import Rtems.Bdbuf.AvlOperations
import Rtems.Lib.DoublyLinked
import Rtems.Lib.Word

/-!
# The swapout

The model of `rtems_bdbuf_swapout_modified_processing`, `rtems_bdbuf_swapout_write` and
`rtems_bdbuf_swapout_processing` in `bdbuf.c`, and of the completion of a transfer with what it does
to the buffers.  What the devices are asked to do, and which waiting tasks are woken, is written down
in the order in which it happens.  How a device answers a request may depend on all that.

A fatal error has no result.  Loops take the number of turns they may make.
-/

namespace Rtems.Bdbuf

open Lib

/-- The chains that the link of a buffer may be on. -/
inductive ChainName where
  | lru
  | modified
  | sync
  | transfer
deriving DecidableEq, Repr

/-- A `rtems_chain_node`.  The head and the tail of a chain are one node here: nobody asks for what
is before the head or behind the tail. -/
inductive Node (Bd : Type) where
  | control (chain : ChainName)
  | link (bd : Bd)
deriving DecidableEq, Repr

/-- `rtems_bdbuf_buf_state`. -/
inductive BufState where
  | free
  | empty
  | cached
  | accessCached
  | accessModified
  | accessEmpty
  | accessPurged
  | modified
  | sync
  | transfer
  | transferPurged
deriving DecidableEq, Repr

/-- `rtems_status_code`. -/
inductive StatusCode where
  | successful
  | unsatisfied
  | ioError
  | other (code : ℕ)
deriving DecidableEq, Repr

/-- What the swapout reads of `rtems_disk_device` and of its physical device. -/
structure Disk where
  mediaBlocksPerBlock : ℕ
  blockSize : ℕ
  /-- `RTEMS_BLKDEV_CAP_MULTISECTOR_CONT`. -/
  multisectorCont : Bool
  /-- `RTEMS_BLKDEV_CAP_SYNC`. -/
  sync : Bool

/-- `rtems_blkdev_stats`. -/
structure DiskStats where
  readBlocks : BitVec 32
  readErrors : BitVec 32
  writeBlocks : BitVec 32
  writeTransfers : BitVec 32
  writeErrors : BitVec 32
deriving DecidableEq, Repr

/-- `rtems_blkdev_sg_buffer`. -/
structure SgBuffer (Bd : Type) where
  block : ℕ
  length : ℕ
  buffer : ℕ
  user : Bd
deriving DecidableEq, Repr

/-- `rtems_blkdev_request_op`. -/
inductive RequestOp where
  | read
  | write
deriving DecidableEq, Repr

/-- `rtems_blkdev_request`. -/
structure Request (Bd : Type) where
  req : RequestOp
  bufs : List (SgBuffer Bd)
deriving DecidableEq, Repr

/-- What others see of the swapout. -/
inductive Action (Bd Dev : Type) where
  | request (dd : Dev) (req : Request Bd)
  | sync (dd : Dev)
  | wakeTransferWaiters
  | wakeBufferWaiters
  | wakeSyncRequester
deriving DecidableEq, Repr

/-- `rtems_bdbuf_cache` and the fields of the buffers. -/
structure Cache (Bd Dev : Type) where
  links : Links (Node Bd)
  /-- The tree of the buffers, with their devices and blocks. -/
  tree : Nodes Bd Dev
  state : Bd → BufState
  holdTimer : Bd → ℕ
  waiters : Bd → ℕ
  buffer : Bd → ℕ
  group : Bd → ℕ
  users : ℕ → BitVec 32
  stats : Dev → DiskStats
  transferWaiters : ℕ
  bufferWaiters : ℕ
  syncActive : Bool
  /-- `BDBUF_INVALID_DEV` is no device. -/
  syncDevice : Option Dev
  syncRequester : Bool
  actions : List (Action Bd Dev)

/-- The configuration, the disks, and how the devices answer. -/
structure Setup (Bd Dev : Type) where
  maxWriteBlocks : ℕ
  disk : Dev → Disk
  answer : List (Action Bd Dev) → Dev → Request Bd → StatusCode

variable {Bd Dev : Type} [DecidableEq Bd]

namespace Cache

def act (s : Cache Bd Dev) (action : Action Bd Dev) : Cache Bd Dev :=
  { s with actions := s.actions ++ [action] }

/-- `rtems_bdbuf_set_state`. -/
def setState (s : Cache Bd Dev) (bd : Bd) (state : BufState) : Cache Bd Dev :=
  { s with state := Function.update s.state bd state }

def setHoldTimer (s : Cache Bd Dev) (bd : Bd) (timer : ℕ) : Cache Bd Dev :=
  { s with holdTimer := Function.update s.holdTimer bd timer }

/-- `rtems_bdbuf_group_release`. -/
def groupRelease (s : Cache Bd Dev) (bd : Bd) : Cache Bd Dev :=
  { s with users := Function.update s.users (s.group bd) (s.users (s.group bd) - 1) }

/-- `rtems_chain_is_empty`. -/
def isEmpty (s : Cache Bd Dev) (chain : ChainName) : Bool :=
  s.links.next (.control chain) = .control chain

/-- `rtems_chain_initialize_empty`. -/
def initializeEmpty (s : Cache Bd Dev) (chain : ChainName) : Cache Bd Dev :=
  { s with links :=
    (s.links.setNext (.control chain) (.control chain)).setPrev (.control chain) (.control chain) }

/-- `rtems_chain_extract_unprotected`. -/
def extract (s : Cache Bd Dev) (bd : Bd) : Cache Bd Dev :=
  { s with links := s.links.remove (.link bd) }

/-- `rtems_chain_insert_unprotected`. -/
def insert (s : Cache Bd Dev) (after : Node Bd) (bd : Bd) : Cache Bd Dev :=
  { s with links := s.links.insertAfter after (.link bd) }

/-- `rtems_chain_prepend_unprotected`. -/
def prepend (s : Cache Bd Dev) (chain : ChainName) (bd : Bd) : Cache Bd Dev :=
  s.insert (.control chain) bd

/-- `rtems_chain_append_unprotected`. -/
def append (s : Cache Bd Dev) (chain : ChainName) (bd : Bd) : Cache Bd Dev :=
  { s with links := s.links.insertBefore (.control chain) (.link bd) }

/-- `rtems_bdbuf_wake`. -/
def wake (s : Cache Bd Dev) (count : ℕ) (action : Action Bd Dev) : Cache Bd Dev :=
  if count > 0 then s.act action else s

section

variable {s : Cache Bd Dev} {bd : Bd} {state : BufState} {timer : ℕ} {after : Node Bd}
  {chain : ChainName}

@[simp]
theorem tree_setState : (s.setState bd state).tree = s.tree := rfl

@[simp]
theorem links_setState : (s.setState bd state).links = s.links := rfl

@[simp]
theorem tree_setHoldTimer : (s.setHoldTimer bd timer).tree = s.tree := rfl

@[simp]
theorem links_setHoldTimer : (s.setHoldTimer bd timer).links = s.links := rfl

@[simp]
theorem holdTimer_setHoldTimer :
    (s.setHoldTimer bd timer).holdTimer = Function.update s.holdTimer bd timer := rfl

@[simp]
theorem tree_extract : (s.extract bd).tree = s.tree := rfl

@[simp]
theorem tree_insert : (s.insert after bd).tree = s.tree := rfl

@[simp]
theorem tree_prepend : (s.prepend chain bd).tree = s.tree := rfl

end

end Cache

/-! ## The completion of a transfer -/

section

variable [LinearOrder Dev]

/-- `rtems_bdbuf_remove_from_tree`. -/
def removeFromTree (turns : ℕ) (s : Cache Bd Dev) (bd : Bd) : Option (Cache Bd Dev) :=
  match avlRemove turns s.tree bd with
  | some (tree, 0) => some { s with tree := tree }
  | _ => none

/-- `rtems_bdbuf_make_free_and_add_to_lru_list`. -/
def makeFreeAndAddToLruList (s : Cache Bd Dev) (bd : Bd) : Cache Bd Dev :=
  (s.setState bd .free).prepend .lru bd

/-- `rtems_bdbuf_make_cached_and_add_to_lru_list`. -/
def makeCachedAndAddToLruList (s : Cache Bd Dev) (bd : Bd) : Cache Bd Dev :=
  (s.setState bd .cached).append .lru bd

/-- `rtems_bdbuf_discard_buffer`. -/
def discardBuffer (turns : ℕ) (s : Cache Bd Dev) (bd : Bd) : Option (Cache Bd Dev) :=
  let s := s.setState bd .empty
  if s.waiters bd = 0 then
    (removeFromTree turns s bd).map fun s => makeFreeAndAddToLruList s bd
  else some s

/-- What becomes of a buffer when its transfer has come to its end. -/
def finishBuffer (turns : ℕ) (sc : StatusCode) (s : Cache Bd Dev) (bd : Bd) : Option (Cache Bd Dev) :=
  let s := s.groupRelease bd
  if sc = .successful ∧ s.state bd = .transfer then some (makeCachedAndAddToLruList s bd)
  else discardBuffer turns s bd

/-- The loop over the buffers of a request. -/
def finishBuffers (turns : ℕ) (sc : StatusCode) (s : Cache Bd Dev) : List Bd → Option (Cache Bd Dev)
  | [] => some s
  | bd :: bds => do
      let s ← finishBuffer turns sc s bd
      finishBuffers turns sc s bds

/-- The statistics of a transfer. -/
def DiskStats.count (stats : DiskStats) (req : RequestOp) (bufnum : ℕ) (sc : StatusCode) : DiskStats :=
  let error : BitVec 32 := if sc = .successful then 0 else 1
  match req with
  | .read => { stats with
      readBlocks := stats.readBlocks + BitVec.ofNat 32 bufnum
      readErrors := stats.readErrors + error }
  | .write => { stats with
      writeBlocks := stats.writeBlocks + BitVec.ofNat 32 bufnum
      writeTransfers := stats.writeTransfers + 1
      writeErrors := stats.writeErrors + error }

def Cache.countTransfer (s : Cache Bd Dev) (dd : Dev) (req : Request Bd) (sc : StatusCode) :
    Cache Bd Dev :=
  { s with stats :=
      Function.update s.stats dd ((s.stats dd).count req.req req.bufs.length sc) }

/-- A buffer with waiters is one that tasks wait for, and the others can be used for other blocks. -/
def wakeWaiters (s : Cache Bd Dev) (wakeTransferWaiters wakeBufferWaiters : Bool) : Cache Bd Dev :=
  let s := if wakeTransferWaiters then s.wake s.transferWaiters .wakeTransferWaiters else s
  if wakeBufferWaiters then s.wake s.bufferWaiters .wakeBufferWaiters else s

/-- `rtems_bdbuf_execute_transfer_request`. -/
def executeTransferRequest (cfg : Setup Bd Dev) (turns : ℕ) (s : Cache Bd Dev) (dd : Dev)
    (req : Request Bd) : Option (Cache Bd Dev × StatusCode) := do
  let sc := cfg.answer s.actions dd req
  let s := (s.act (.request dd req)).countTransfer dd req sc
  let bds := req.bufs.map SgBuffer.user
  let wakeTransferWaiters := bds.any fun bd => s.waiters bd ≠ 0
  let wakeBufferWaiters := bds.any fun bd => s.waiters bd = 0
  let s ← finishBuffers turns sc s bds
  some (wakeWaiters s wakeTransferWaiters wakeBufferWaiters,
    if sc = .successful ∨ sc = .unsatisfied then sc else .ioError)

/-! ## The choice of the buffers -/

/-- The loop that looks backwards for a buffer with a lower block. -/
def insertLoop (s : Cache Bd Dev) (bd : Bd) : ℕ → Node Bd → Option (Cache Bd Dev)
  | _, .control _ => some (s.prepend .transfer bd)
  | 0, .link _ => none
  | turns + 1, .link tbd =>
    if s.tree.block bd > s.tree.block tbd then some (s.insert (.link tbd) bd)
    else insertLoop s bd turns (s.links.prev (.link tbd))

/-- What `rtems_bdbuf_swapout_modified_processing` is called with. -/
structure Sweep where
  chain : ChainName
  syncActive : Bool
  updateTimers : Bool
  timerDelta : ℕ

/-- The hold timer of a buffer when the loop has looked at it. -/
def passTimer (w : Sweep) (s : Cache Bd Dev) (syncAll : Bool) (dd : Option Dev) (bd : Bd) : ℕ :=
  let timer :=
    if syncAll ∨ (w.syncActive ∧ dd = some (s.tree.dd bd)) ∨ s.bufferWaiters ≠ 0 then 0
    else s.holdTimer bd
  if timer ≠ 0 ∧ w.updateTimers then
    if timer > w.timerDelta then timer - w.timerDelta else 0
  else timer

/-- The loop of `rtems_bdbuf_swapout_modified_processing`. -/
def sweepLoop (w : Sweep) (syncAll : Bool) (fuel : ℕ) :
    ℕ → Cache Bd Dev → Option Dev → Node Bd → Option (Cache Bd Dev × Option Dev)
  | _, s, dd, .control _ => some (s, dd)
  | 0, _, _, .link _ => none
  | turns + 1, s, dd, .link bd => do
      let s := s.setHoldTimer bd (passTimer w s syncAll dd bd)
      if s.holdTimer bd ≠ 0 then sweepLoop w syncAll fuel turns s dd (s.links.next (.link bd))
      else
        let d := dd.getD (s.tree.dd bd)
        if s.tree.dd bd = d then
          let nextNode := s.links.next (.link bd)
          let s := (s.setState bd .transfer).extract bd
          let s ← insertLoop s bd fuel (s.links.prev (.control .transfer))
          sweepLoop w syncAll fuel turns s (some d) nextNode
        else sweepLoop w syncAll fuel turns s (some d) (s.links.next (.link bd))

/-- `rtems_bdbuf_swapout_modified_processing`. -/
def swapoutModifiedProcessing (turns : ℕ) (w : Sweep) (s : Cache Bd Dev) (dd : Option Dev) :
    Option (Cache Bd Dev × Option Dev) :=
  let syncAll := w.syncActive ∧ dd = none
  sweepLoop w syncAll turns turns s dd (s.links.next (.control w.chain))

/-! ## Writing -/

/-- `rtems_chain_get_unprotected` of the transfer's chain. -/
def getTransfer (s : Cache Bd Dev) : Option (Bd × Cache Bd Dev) :=
  match s.links.next (.control .transfer) with
  | .control _ => none
  | .link bd => some (bd, s.extract bd)

/-- The entry of a request for a buffer. -/
def sgBuffer (cfg : Setup Bd Dev) (s : Cache Bd Dev) (dd : Dev) (bd : Bd) : SgBuffer Bd :=
  ⟨s.tree.block bd, (cfg.disk dd).blockSize, s.buffer bd, bd⟩

/-- The loop of `rtems_bdbuf_swapout_write`. -/
def writeLoop (cfg : Setup Bd Dev) (fuel : ℕ) (dd : Dev) :
    ℕ → Cache Bd Dev → (lastBlock : ℕ) → List (SgBuffer Bd) → Option (Cache Bd Dev)
  | turns, s, lastBlock, bufs =>
    match getTransfer s with
    | none => some s
    | some (bd, s) =>
      match turns with
      | 0 => none
      | turns + 1 => do
        let putBack := (cfg.disk dd).multisectorCont ∧ bufs ≠ [] ∧
          s.tree.block bd ≠ add32 lastBlock (cfg.disk dd).mediaBlocksPerBlock
        let (s, lastBlock, bufs) :=
          if putBack then (s.prepend .transfer bd, lastBlock, bufs)
          else (s, s.tree.block bd, bufs ++ [sgBuffer cfg s dd bd])
        if putBack ∨ s.isEmpty .transfer ∨ bufs.length ≥ cfg.maxWriteBlocks then
          let (s, _) ← executeTransferRequest cfg fuel s dd ⟨.write, bufs⟩
          writeLoop cfg fuel dd turns s lastBlock []
        else writeLoop cfg fuel dd turns s lastBlock bufs

/-- `rtems_bdbuf_swapout_write`. -/
def swapoutWrite (cfg : Setup Bd Dev) (turns : ℕ) (s : Cache Bd Dev) (dd : Option Dev)
    (syncing : Bool) : Option (Cache Bd Dev) :=
  if s.isEmpty .transfer then some s
  else do
    let dd ← dd
    let s ← writeLoop cfg turns dd turns s 0 []
    some (if syncing ∧ (cfg.disk dd).sync then s.act (.sync dd) else s)

/-- `rtems_bdbuf_swapout_processing`.  A worker, if there is one, makes the same call of
`rtems_bdbuf_swapout_write` in a task of its own. -/
def swapoutProcessing (cfg : Setup Bd Dev) (turns timerDelta : ℕ) (updateTimers : Bool)
    (s : Cache Bd Dev) : Option (Cache Bd Dev × Bool) := do
  let syncActive := s.syncActive
  let s := s.initializeEmpty .transfer
  let dd := if syncActive then s.syncDevice else none
  let (s, dd) ← swapoutModifiedProcessing turns ⟨.sync, true, false, timerDelta⟩ s dd
  let (s, dd) ← swapoutModifiedProcessing turns ⟨.modified, syncActive, updateTimers, timerDelta⟩ s dd
  let transferedBuffers := ! s.isEmpty .transfer
  let s ← swapoutWrite cfg turns s dd syncActive
  if syncActive ∧ ! transferedBuffers then
    let s' := { s with syncActive := false, syncRequester := false }
    some (if s.syncRequester then s'.act .wakeSyncRequester else s', transferedBuffers)
  else some (s, transferedBuffers)

end

end Rtems.Bdbuf
