import Rtems.Lib.DoublyLinked
import Rtems.Lib.Word

/-!
# The heap

The model of `heap.c`, `heapallocate.c`, `heapfree.c`, `heapresizeblock.c`
and the inline functions of `heap.h` and `heapimpl.h`, with
`HEAP_PROTECTION` and `RTEMS_HEAP_DEBUG` off.

A block is named by its address, and there is a `Heap_Block` at every address.
Addresses and sizes are numbers of 32 bits.  The counters of the statistics are
bit vectors.  Loops take the number of turns they may make, and have no result
if they need more.
-/

namespace Rtems.Heap

open Lib

/-- `HEAP_BLOCK_HEADER_SIZE`, two words. -/
def blockHeaderSize : Nat := 8

/-- `HEAP_ALLOC_BONUS`, one word. -/
def allocBonus : Nat := 4

theorem headerSizes : blockHeaderSize = 8 ∧ allocBonus = 4 := ⟨rfl, rfl⟩

/-- `sizeof( Heap_Block )`, four words. -/
def sizeofBlock : Nat := 16

/-- `CPU_ALIGNMENT`. -/
def cpuAlignment : Nat := 8

/-- A `Heap_Block *`.  The head of the free list, which is also its tail, lies in the control. -/
inductive Pointer where
  | null
  | freeList
  | block (begin : Nat)
deriving DecidableEq, Repr

/-- `Heap_Statistics`. -/
structure Statistics where
  lifetimeAllocated : BitVec 64
  lifetimeFreed : BitVec 64
  size : BitVec 32
  freeSize : BitVec 32
  minFreeSize : BitVec 32
  freeBlocks : BitVec 32
  maxFreeBlocks : BitVec 32
  usedBlocks : BitVec 32
  maxSearch : BitVec 32
  searches : BitVec 32
  allocs : BitVec 32
  failedAllocs : BitVec 32
  frees : BitVec 32
  resizes : BitVec 32
deriving DecidableEq, Repr, Inhabited

def Statistics.addFreeSize (stats : Statistics) (size : Nat) : Statistics :=
  { stats with freeSize := stats.freeSize + BitVec.ofNat 32 size }

def Statistics.subFreeSize (stats : Statistics) (size : Nat) : Statistics :=
  { stats with freeSize := stats.freeSize - BitVec.ofNat 32 size }

def Statistics.incFreeBlocks (stats : Statistics) : Statistics :=
  { stats with freeBlocks := stats.freeBlocks + 1 }

def Statistics.decFreeBlocks (stats : Statistics) : Statistics :=
  { stats with freeBlocks := stats.freeBlocks - 1 }

/-- A free block is taken for an area. -/
def Statistics.takeBlock (stats : Statistics) (size : Nat) : Statistics :=
  { stats.decFreeBlocks.subFreeSize size with usedBlocks := stats.usedBlocks + 1 }

def Statistics.updateMinFreeSize (stats : Statistics) : Statistics :=
  { stats with
    minFreeSize := if stats.minFreeSize > stats.freeSize then stats.freeSize else stats.minFreeSize }

/-- A used block of this size comes back. -/
def Statistics.giveBlock (stats : Statistics) (size : Nat) : Statistics :=
  { stats.addFreeSize size with
    usedBlocks := stats.usedBlocks - 1
    frees := stats.frees + 1
    lifetimeFreed := stats.lifetimeFreed + BitVec.ofNat 64 size }

def Statistics.updateMaxFreeBlocks (stats : Statistics) : Statistics :=
  { stats with maxFreeBlocks :=
      if stats.maxFreeBlocks < stats.freeBlocks then stats.freeBlocks else stats.maxFreeBlocks }

/-- `Heap_Control`, and the fields of the blocks at every address. -/
structure State where
  prevSize : Nat → Nat
  sizeAndFlag : Nat → Nat
  links : Links Pointer
  pageSize : Nat
  minBlockSize : Nat
  areaBegin : Nat
  areaEnd : Nat
  firstBlock : Nat
  lastBlock : Nat
  stats : Statistics

namespace State

def setPrevSize (s : State) (block value : Nat) : State :=
  { s with prevSize := Function.update s.prevSize block value }

def setSizeAndFlag (s : State) (block value : Nat) : State :=
  { s with sizeAndFlag := Function.update s.sizeAndFlag block value }

def setStats (s : State) (f : Statistics → Statistics) : State := { s with stats := f s.stats }

end State

/-! ## Alignment and addresses -/

/-- `_Heap_Align_up`. -/
def alignUp (value alignment : Nat) : Nat :=
  let remainder := value % alignment
  if remainder ≠ 0 then add32 (value - remainder) alignment else value

/-- `_Heap_Align_down`. -/
def alignDown (value alignment : Nat) : Nat := value - value % alignment

/-- `_Heap_Min_block_size`. -/
def minBlockSizeOf (pageSize : Nat) : Nat := alignUp sizeofBlock pageSize

/-- `_Heap_Block_at`. -/
def blockAt (block offset : Nat) : Nat := add32 block offset

/-- `_Heap_Alloc_area_of_block`. -/
def allocAreaOfBlock (block : Nat) : Nat := add32 block blockHeaderSize

/-- `_Heap_Block_of_alloc_area`. -/
def blockOfAllocArea (allocBegin pageSize : Nat) : Nat :=
  sub32 (alignDown allocBegin pageSize) blockHeaderSize

/-! ## Blocks -/

/-- The word with `HEAP_PREV_BLOCK_USED`, which is the lowest bit. -/
def flagSet (value : Nat) : Nat := value - value % 2 + 1

/-- The word without `HEAP_PREV_BLOCK_USED`. -/
def flagClear (value : Nat) : Nat := value - value % 2

/-- `_Heap_Prev_block`. -/
def prevBlock (s : State) (block : Nat) : Nat := sub32 block (s.prevSize block)

/-- `_Heap_Block_size`. -/
def blockSize (s : State) (block : Nat) : Nat := flagClear (s.sizeAndFlag block)

/-- `_Heap_Is_prev_used`. -/
def isPrevUsed (s : State) (block : Nat) : Bool := s.sizeAndFlag block % 2 = 1

/-- `_Heap_Block_set_size`. -/
def blockSetSize (s : State) (block size : Nat) : State :=
  s.setSizeAndFlag block (if isPrevUsed s block then flagSet size else size)

/-- `_Heap_Is_used`. -/
def isUsed (s : State) (block : Nat) : Bool := isPrevUsed s (blockAt block (blockSize s block))

/-- `_Heap_Is_free`. -/
def isFree (s : State) (block : Nat) : Bool := ! isUsed s block

/-- `_Heap_Is_block_in_heap`. -/
def isBlockInHeap (s : State) (block : Nat) : Bool := s.firstBlock ≤ block ∧ block ≤ s.lastBlock

/-- `_Heap_Set_last_block_size`. -/
def setLastBlockSize (s : State) : State :=
  blockSetSize s s.lastBlock (sub32 s.firstBlock s.lastBlock)

/-- `_Heap_Free_list_first`. -/
def freeListFirst (s : State) : Pointer := s.links.next .freeList

/-- `_Heap_Free_list_remove`. -/
def freeListRemove (s : State) (block : Pointer) : State :=
  { s with links := s.links.remove block }

/-- `_Heap_Free_list_replace`. -/
def freeListReplace (s : State) (oldBlock newBlock : Pointer) : State :=
  { s with links := s.links.replace oldBlock newBlock }

/-- `_Heap_Free_list_insert_after`. -/
def freeListInsertAfter (s : State) (blockBefore newBlock : Pointer) : State :=
  { s with links := s.links.insertAfter blockBefore newBlock }

section

variable {s : State} {x y v : Nat} {f : Statistics → Statistics} {p q : Pointer}

@[simp]
theorem sizeAndFlag_setPrevSize : (s.setPrevSize x v).sizeAndFlag = s.sizeAndFlag := rfl

@[simp]
theorem prevSize_setPrevSize : (s.setPrevSize x v).prevSize = Function.update s.prevSize x v := rfl

@[simp]
theorem links_setPrevSize : (s.setPrevSize x v).links = s.links := rfl

@[simp]
theorem stats_setPrevSize : (s.setPrevSize x v).stats = s.stats := rfl

@[simp]
theorem sizeAndFlag_setSizeAndFlag :
    (s.setSizeAndFlag x v).sizeAndFlag = Function.update s.sizeAndFlag x v := rfl

@[simp]
theorem prevSize_setSizeAndFlag : (s.setSizeAndFlag x v).prevSize = s.prevSize := rfl

@[simp]
theorem links_setSizeAndFlag : (s.setSizeAndFlag x v).links = s.links := rfl

@[simp]
theorem stats_setSizeAndFlag : (s.setSizeAndFlag x v).stats = s.stats := rfl

@[simp]
theorem sizeAndFlag_setStats : (s.setStats f).sizeAndFlag = s.sizeAndFlag := rfl

@[simp]
theorem prevSize_setStats : (s.setStats f).prevSize = s.prevSize := rfl

@[simp]
theorem links_setStats : (s.setStats f).links = s.links := rfl

@[simp]
theorem stats_setStats : (s.setStats f).stats = f s.stats := rfl

@[simp]
theorem sizeAndFlag_freeListRemove : (freeListRemove s p).sizeAndFlag = s.sizeAndFlag := rfl

@[simp]
theorem prevSize_freeListRemove : (freeListRemove s p).prevSize = s.prevSize := rfl

@[simp]
theorem links_freeListRemove : (freeListRemove s p).links = s.links.remove p := rfl

@[simp]
theorem stats_freeListRemove : (freeListRemove s p).stats = s.stats := rfl

@[simp]
theorem sizeAndFlag_freeListReplace : (freeListReplace s p q).sizeAndFlag = s.sizeAndFlag := rfl

@[simp]
theorem prevSize_freeListReplace : (freeListReplace s p q).prevSize = s.prevSize := rfl

@[simp]
theorem links_freeListReplace : (freeListReplace s p q).links = s.links.replace p q := rfl

@[simp]
theorem stats_freeListReplace : (freeListReplace s p q).stats = s.stats := rfl

@[simp]
theorem sizeAndFlag_freeListInsertAfter :
    (freeListInsertAfter s p q).sizeAndFlag = s.sizeAndFlag := rfl

@[simp]
theorem prevSize_freeListInsertAfter : (freeListInsertAfter s p q).prevSize = s.prevSize := rfl

@[simp]
theorem links_freeListInsertAfter :
    (freeListInsertAfter s p q).links = s.links.insertAfter p q := rfl

@[simp]
theorem stats_freeListInsertAfter : (freeListInsertAfter s p q).stats = s.stats := rfl

@[simp]
theorem sizeAndFlag_blockSetSize : (blockSetSize s x v).sizeAndFlag =
    Function.update s.sizeAndFlag x (if isPrevUsed s x then flagSet v else v) := rfl

@[simp]
theorem prevSize_blockSetSize : (blockSetSize s x v).prevSize = s.prevSize := rfl

@[simp]
theorem links_blockSetSize : (blockSetSize s x v).links = s.links := rfl

@[simp]
theorem stats_blockSetSize : (blockSetSize s x v).stats = s.stats := rfl

end

/-! ## Initialize -/

/-- `_Heap_Get_first_and_last_block`. -/
def getFirstAndLastBlock (heapAreaBegin heapAreaSize pageSize minBlockSize : Nat) :
    Option (Nat × Nat) :=
  let heapAreaEnd := add32 heapAreaBegin heapAreaSize
  let allocAreaBegin := alignUp (add32 heapAreaBegin blockHeaderSize) pageSize
  let firstBlockBegin := sub32 allocAreaBegin blockHeaderSize
  let overhead := add32 blockHeaderSize (sub32 firstBlockBegin heapAreaBegin)
  let firstBlockSize := alignDown (sub32 heapAreaSize overhead) pageSize
  let lastBlock := blockAt firstBlockBegin firstBlockSize
  if heapAreaEnd < heapAreaBegin ∨ heapAreaSize ≤ overhead ∨ firstBlockSize < minBlockSize then none
  else some (firstBlockBegin, lastBlock)

/-- The statistics after `_Heap_Initialize`. -/
def Statistics.initial (firstBlockSize : Nat) : Statistics where
  lifetimeAllocated := 0
  lifetimeFreed := 0
  size := BitVec.ofNat 32 firstBlockSize
  freeSize := BitVec.ofNat 32 firstBlockSize
  minFreeSize := BitVec.ofNat 32 firstBlockSize
  freeBlocks := 1
  maxFreeBlocks := 1
  usedBlocks := 0
  maxSearch := 0
  searches := 0
  allocs := 0
  failedAllocs := 0
  frees := 0
  resizes := 0

/-- The page size that `_Heap_Initialize` uses, if it does not overflow. -/
def alignPageSize (pageSize : Nat) : Option Nat :=
  if pageSize = 0 then some cpuAlignment
  else
    let pageSize := alignUp pageSize cpuAlignment
    if pageSize < cpuAlignment then none else some pageSize

/-- `_Heap_Initialize`, on a memory with any contents. -/
def initializeHeap (s : State) (heapAreaBegin heapAreaSize pageSize : Nat) : State × Nat :=
  match alignPageSize pageSize with
  | none => (s, 0)
  | some pageSize =>
    let minBlockSize := minBlockSizeOf pageSize
    match getFirstAndLastBlock heapAreaBegin heapAreaSize pageSize minBlockSize with
    | none => (s, 0)
    | some (firstBlock, lastBlock) =>
      let heapAreaEnd := add32 heapAreaBegin heapAreaSize
      let firstBlockSize := sub32 lastBlock firstBlock
      -- first block
      let s := s.setPrevSize firstBlock heapAreaEnd
      let s := s.setSizeAndFlag firstBlock (flagSet firstBlockSize)
      let links := (s.links.setNext (.block firstBlock) .freeList).setPrev (.block firstBlock) .freeList
      -- heap control
      let s := { s with
        links := (links.setNext .freeList (.block firstBlock)).setPrev .freeList (.block firstBlock)
        pageSize := pageSize
        minBlockSize := minBlockSize
        areaBegin := heapAreaBegin
        areaEnd := heapAreaEnd
        firstBlock := firstBlock
        lastBlock := lastBlock }
      -- last block
      let s := s.setPrevSize lastBlock firstBlockSize
      let s := s.setSizeAndFlag lastBlock 0
      let s := setLastBlockSize s
      (s.setStats fun _ => .initial firstBlockSize, firstBlockSize)

/-! ## Block allocation -/

/-- `_Heap_Block_split`. -/
def blockSplit (s : State) (block : Nat) (freeListAnchor : Pointer) (allocSize : Nat) : State :=
  let minAllocSize := sub32 s.minBlockSize blockHeaderSize
  let size := blockSize s block
  let usedSize := add32 (max allocSize minAllocSize) blockHeaderSize
  let usedBlockSize := alignUp usedSize s.pageSize
  let freeSize := sub32 (add32 size allocBonus) usedSize
  let freeSizeLimit := add32 s.minBlockSize allocBonus
  let nextBlock := blockAt block size
  if freeSize ≥ freeSizeLimit then
    let freeBlock := blockAt block usedBlockSize
    let freeBlockSize := sub32 size usedBlockSize
    let s := blockSetSize s block usedBlockSize
    let s := s.setStats (·.addFreeSize freeBlockSize)
    if isUsed s nextBlock then
      let s := freeListInsertAfter s freeListAnchor (.block freeBlock)
      let s := s.setStats (·.incFreeBlocks)
      let s := s.setSizeAndFlag freeBlock (flagSet freeBlockSize)
      let s := s.setPrevSize nextBlock freeBlockSize
      s.setSizeAndFlag nextBlock (flagClear (s.sizeAndFlag nextBlock))
    else
      let nextBlockSize := blockSize s nextBlock
      let s := freeListReplace s (.block nextBlock) (.block freeBlock)
      let freeBlockSize := add32 freeBlockSize nextBlockSize
      let nextBlock := blockAt freeBlock freeBlockSize
      let s := s.setSizeAndFlag freeBlock (flagSet freeBlockSize)
      let s := s.setPrevSize nextBlock freeBlockSize
      s.setSizeAndFlag nextBlock (flagClear (s.sizeAndFlag nextBlock))
  else s.setSizeAndFlag nextBlock (flagSet (s.sizeAndFlag nextBlock))

/-- `_Heap_Block_allocate_from_end`. -/
def blockAllocateFromEnd (s : State) (block : Nat) (freeListAnchor : Pointer)
    (allocBegin allocSize : Nat) : State × Nat :=
  let blockEnd := add32 block (blockSize s block)
  let newBlock := blockOfAllocArea allocBegin s.pageSize
  let newBlockSize := sub32 blockEnd newBlock
  let size := sub32 newBlock block
  let s := s.setStats (·.addFreeSize size)
  let (s, freeListAnchor, block, size) :=
    if isPrevUsed s block then
      let s := freeListInsertAfter s freeListAnchor (.block block)
      let s := s.setStats (·.incFreeBlocks)
      (s, .block block, block, size)
    else (s, freeListAnchor, prevBlock s block, add32 size (blockSize s (prevBlock s block)))
  let s := s.setSizeAndFlag block (flagSet size)
  let s := s.setPrevSize newBlock size
  let s := s.setSizeAndFlag newBlock newBlockSize
  (blockSplit s newBlock freeListAnchor allocSize, newBlock)

/-- `_Heap_Block_allocate`, with the block that contains the area. -/
def blockAllocate (s : State) (block allocBegin allocSize : Nat) : State × Nat :=
  let allocAreaBegin := allocAreaOfBlock block
  let allocAreaOffset := sub32 allocBegin allocAreaBegin
  let (s, freeListAnchor) :=
    if isFree s block then
      let freeListAnchor := s.links.prev (.block block)
      let s := freeListRemove s (.block block)
      (s.setStats (·.takeBlock (blockSize s block)), freeListAnchor)
    else (s, .freeList)
  let (s, block) :=
    if allocAreaOffset < s.pageSize then
      -- `_Heap_Block_allocate_from_begin`
      (blockSplit s block freeListAnchor (add32 allocSize allocAreaOffset), block)
    else blockAllocateFromEnd s block freeListAnchor allocBegin allocSize
  (s.setStats (·.updateMinFreeSize), block)

/-! ## Allocate -/

/-- The loop of `_Heap_Check_block` that moves the area below the boundary lines. -/
def boundaryLoop (allocSize alignment boundary boundaryFloor : Nat) : Nat → Nat → Option Nat
  | 0, _ => none
  | fuel + 1, allocBegin =>
    let allocEnd := add32 allocBegin allocSize
    let boundaryLine := alignDown allocEnd boundary
    if allocBegin < boundaryLine ∧ boundaryLine < allocEnd then
      if boundaryLine < boundaryFloor then some 0
      else
        boundaryLoop allocSize alignment boundary boundaryFloor fuel
          (alignDown (sub32 boundaryLine allocSize) alignment)
    else some allocBegin

/-- `_Heap_Check_block`. -/
def checkBlock (fuel : Nat) (s : State) (block allocSize alignment boundary : Nat) : Option Nat := do
  let blockEnd := add32 block (blockSize s block)
  let allocBeginFloor := allocAreaOfBlock block
  let allocBeginCeiling :=
    sub32 (add32 (add32 (sub32 blockEnd s.minBlockSize) blockHeaderSize) s.pageSize) 1
  let allocEnd := add32 blockEnd allocBonus
  let allocBegin := alignDown (sub32 allocEnd allocSize) alignment
  -- a valid new block at the end
  let allocBegin :=
    if allocBegin > allocBeginCeiling then alignDown allocBeginCeiling alignment else allocBegin
  let allocBegin ←
    if boundary ≠ 0 then
      boundaryLoop allocSize alignment boundary (add32 allocBeginFloor allocSize) fuel allocBegin
    else some allocBegin
  -- a valid new block at the beginning
  if allocBegin ≥ allocBeginFloor then
    let freeSize := sub32 (blockOfAllocArea allocBegin s.pageSize) block
    if freeSize ≥ s.minBlockSize ∨ freeSize = 0 then some allocBegin else some 0
  else some 0

/-- Where the area would begin in the block, and zero if it does not fit. -/
def tryBlock (fuel : Nat) (s : State) (block blockSizeFloor allocSize alignment boundary : Nat) :
    Option Nat :=
  -- the flag is always set in a free block, so that the word is greater than the size
  if s.sizeAndFlag block > blockSizeFloor then
    if alignment = 0 then some (allocAreaOfBlock block)
    else checkBlock fuel s block allocSize alignment boundary
  else some 0

/-- The loop of `_Heap_Allocate_aligned_with_boundary`, with the block and the area found, and the
number of blocks searched. -/
def searchLoop (fuel : Nat) (s : State) (blockSizeFloor allocSize alignment boundary : Nat) :
    Nat → Pointer → BitVec 32 → Option (Option (Nat × Nat) × BitVec 32)
  | _, .freeList, searchCount => some (none, searchCount)
  | _, .null, _ => none
  | 0, .block _, _ => none
  | turns + 1, .block block, searchCount => do
      let allocBegin ← tryBlock fuel s block blockSizeFloor allocSize alignment boundary
      let searchCount := searchCount + 1
      if allocBegin ≠ 0 then some (some (block, allocBegin), searchCount)
      else
        searchLoop fuel s blockSizeFloor allocSize alignment boundary turns
          (s.links.next (.block block)) searchCount

/-- `_Heap_Allocate_aligned_with_boundary`, with the begin of the area. -/
def allocateAlignedWithBoundary (fuel : Nat) (s : State) (allocSize alignment boundary : Nat) :
    Option (State × Nat) :=
  let blockSizeFloor := sub32 (add32 allocSize blockHeaderSize) allocBonus
  if blockSizeFloor < allocSize then some (s, 0)
  else if boundary ≠ 0 ∧ boundary < allocSize then some (s, 0)
  else do
    let alignment := if boundary ≠ 0 ∧ alignment = 0 then s.pageSize else alignment
    let (found, searchCount) ←
      searchLoop fuel s blockSizeFloor allocSize alignment boundary fuel (freeListFirst s) 0
    let (s, allocBegin) :=
      match found with
      | some (block, allocBegin) =>
        let (s, block) := blockAllocate s block allocBegin allocSize
        (s.setStats fun stats => { stats with
          allocs := stats.allocs + 1
          searches := stats.searches + searchCount
          lifetimeAllocated := stats.lifetimeAllocated + BitVec.ofNat 64 (blockSize s block) }, allocBegin)
      | none =>
        (s.setStats fun stats => { stats with failedAllocs := stats.failedAllocs + 1 }, 0)
    some (s.setStats fun stats => { stats with
      maxSearch := if stats.maxSearch < searchCount then searchCount else stats.maxSearch }, allocBegin)

/-- `_Heap_Allocate`. -/
def allocate (fuel : Nat) (s : State) (size : Nat) : Option (State × Nat) :=
  allocateAlignedWithBoundary fuel s size 0 0

/-! ## Free -/

/-- `_Heap_Free`. -/
def free (s : State) (allocBegin : Nat) : State × Bool :=
  if allocBegin = 0 then (s, true)
  else
    let block := blockOfAllocArea allocBegin s.pageSize
    if ! isBlockInHeap s block then (s, false)
    else
      let size := blockSize s block
      let nextBlock := blockAt block size
      if ! isBlockInHeap s nextBlock then (s, false)
      else if ! isPrevUsed s nextBlock then (s, false)
      else
        let nextBlockSize := blockSize s nextBlock
        let nextIsFree :=
          nextBlock ≠ s.lastBlock ∧ ! isPrevUsed s (blockAt nextBlock nextBlockSize)
        let finish (s : State) : State × Bool :=
          (s.setStats (·.giveBlock size), true)
        if ! isPrevUsed s block then
          let prevSize := s.prevSize block
          let prevBlock := blockAt block (sub32 0 prevSize)
          if ! isBlockInHeap s prevBlock then (s, false)
          else if ! isPrevUsed s prevBlock then (s, false)
          else if nextIsFree then
            -- coalesce both
            let size := add32 (add32 size prevSize) nextBlockSize
            let s := freeListRemove s (.block nextBlock)
            let s := s.setStats (·.decFreeBlocks)
            let s := s.setSizeAndFlag prevBlock (flagSet size)
            finish (s.setPrevSize (blockAt prevBlock size) size)
          else
            -- coalesce prev
            let size := add32 size prevSize
            let s := s.setSizeAndFlag prevBlock (flagSet size)
            let s := s.setSizeAndFlag nextBlock (flagClear (s.sizeAndFlag nextBlock))
            finish (s.setPrevSize nextBlock size)
        else if nextIsFree then
          -- coalesce next
          let size := add32 size nextBlockSize
          let s := freeListReplace s (.block nextBlock) (.block block)
          let s := s.setSizeAndFlag block (flagSet size)
          finish (s.setPrevSize (blockAt block size) size)
        else
          -- no coalesce
          let s := freeListInsertAfter s .freeList (.block block)
          let s := s.setSizeAndFlag block (flagSet size)
          let s := s.setSizeAndFlag nextBlock (flagClear (s.sizeAndFlag nextBlock))
          let s := s.setPrevSize nextBlock size
          let s := s.setStats (·.incFreeBlocks)
          finish (s.setStats (·.updateMaxFreeBlocks))

/-! ## Resize -/

/-- `Heap_Resize_status`. -/
inductive ResizeStatus where
  | successful
  | unsatisfied
  | fatalError
deriving DecidableEq, Repr

/-- `_Heap_Resize_block_checked`, with the old and the new size. -/
def resizeBlockChecked (s : State) (block allocBegin newAllocSize : Nat) :
    State × ResizeStatus × Nat × Nat :=
  let size := blockSize s block
  let blockEnd := add32 block size
  let oldSize := add32 (sub32 blockEnd allocBegin) allocBonus
  let nextBlock := blockAt block size
  let nextBlockSize := blockSize s nextBlock
  let nextBlockIsFree := isFree s nextBlock
  let (size, allocSize) :=
    if nextBlockIsFree then (add32 size nextBlockSize, add32 oldSize nextBlockSize)
    else (size, oldSize)
  if newAllocSize > allocSize then (s, .unsatisfied, oldSize, 0)
  else
    let s :=
      if nextBlockIsFree then
        let s := blockSetSize s block size
        let s := freeListRemove s (.block nextBlock)
        let nextBlock := blockAt block size
        let s := s.setSizeAndFlag nextBlock (flagSet (s.sizeAndFlag nextBlock))
        s.setStats (·.decFreeBlocks.subFreeSize nextBlockSize)
      else s
    let (s, block) := blockAllocate s block allocBegin newAllocSize
    let nextBlock := blockAt block (blockSize s block)
    (s.setStats fun stats => { stats with resizes := stats.resizes + 1 }, .successful, oldSize,
      add32 (sub32 nextBlock allocBegin) allocBonus)

/-- `_Heap_Resize_block`. -/
def resizeBlock (s : State) (allocBegin newAllocSize : Nat) : State × ResizeStatus × Nat × Nat :=
  let block := blockOfAllocArea allocBegin s.pageSize
  if isBlockInHeap s block then resizeBlockChecked s block allocBegin newAllocSize
  else (s, .fatalError, 0, 0)

end Rtems.Heap
