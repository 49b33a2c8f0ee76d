import Rtems.Lib.LinkedQueue
import Rtems.Lib.LogStore
import Rtems.Lib.Traced

/-!
# The flash disk

Segment controls, page descriptors, queues and the operations of the flash disk driver (`flashdisk.c`),
over a flash that is reached through driver calls which may fail.  A page descriptor lies at its index
in the descriptor area of the segment and a page at its index behind that area, so the contents of a
segment are kept as these two tables.

The operations report events where a segment control changes hands, where the driver is asked to write
and where the count of erased blocks may go wrong: they do not act on the disk and serve to say which
exits a run has taken.  The loop of `rtems_fdisk_compact` that copies
until no page is left, and that of `rtems_fdisk_erase_used`, take a number of turns.
-/

namespace Rtems.FlashDisk

open Function Rtems.LinkedQueue Rtems.LogStore Rtems.Traced

/-! ## Data -/

/-- `EIO`. -/
def eio : ℕ := 5

/-- `ENOSPC`. -/
def enospc : ℕ := 28

/-- The data of a page. -/
abbrev Page := List (BitVec 8)

/-- `rtems_fdisk_page_desc`. -/
structure PageDesc where
  crc : BitVec 16
  flags : BitVec 16
  block : ℕ
deriving DecidableEq, Repr

/-- `RTEMS_FDISK_PAGE_ACTIVE`. -/
def pageActive : BitVec 16 := 1#16

/-- `RTEMS_FDISK_PAGE_USED`. -/
def pageUsed : BitVec 16 := 2#16

/-- The descriptor of an erased page: all bits set. -/
def PageDesc.blank : PageDesc := ⟨0xffff#16, 0xffff#16, 0xffffffff⟩

/-- `rtems_fdisk_page_desc_erased`. -/
def pageDescErased (pd : PageDesc) : Bool := pd = PageDesc.blank

/-- `rtems_fdisk_page_desc_flags_set`.  A flag is set by clearing its bit. -/
def pageDescFlagsSet (pd : PageDesc) (flags : BitVec 16) : Bool := pd.flags &&& flags = 0#16

/-- `rtems_fdisk_page_desc_flags_clear`. -/
def pageDescFlagsClear (pd : PageDesc) (flags : BitVec 16) : Bool := pd.flags &&& flags = flags

/-- `rtems_fdisk_page_desc_set_flags`. -/
def pageDescSetFlags (pd : PageDesc) (flags : BitVec 16) : PageDesc :=
  { pd with flags := pd.flags &&& ~~~ flags }

/-- An entry of the table `rtems_fdisk_crc16_gen_factors` makes, for the pattern `0x8408`. -/
def crc16Factor (b : BitVec 16) : BitVec 16 :=
  (List.range 8).foldl
    (fun v _ => if v &&& 1#16 = 0#16 then v >>> 1 else (v >>> 1) ^^^ 0x8408#16) b

/-- `rtems_fdisk_calc_crc16`. -/
def calcCrc16 (b : BitVec 8) (c : BitVec 16) : BitVec 16 :=
  crc16Factor ((b.setWidth 16 ^^^ (c &&& 0xff#16)) &&& 0xff#16) ^^^ ((c >>> 8) &&& 0xff#16)

/-- `rtems_fdisk_page_checksum`. -/
def pageChecksum (buffer : Page) : BitVec 16 :=
  buffer.foldl (fun cs b => calcCrc16 b cs) 0xffff#16

/-- The contents of a flash segment. -/
structure FlashSegment where
  descs : ℕ → PageDesc
  data : ℕ → Page

/-- What a driver call does when it fails: an error code, and what it leaves in the segment. -/
structure Fault where
  errno : ℕ
  errno_ne : errno ≠ 0
  residue : FlashSegment

/-- The configuration of a disk, and the behaviour of its driver call by call.  `address` is the
control whose flash segment the driver is asked for: `rtems_fdisk_seg_descriptor` takes the descriptor
from the control at index `sc->segment`, the control's own when the device has one descriptor. -/
structure Config (Sid : Type) where
  segments : List Sid
  segments_nodup : segments.Nodup
  segments_complete : ∀ x, x ∈ segments
  pages : Sid → ℕ
  pages_pos : ∀ x, 0 < pages x
  blocks_lt : (segments.map pages).sum < 4294967296
  address : Sid → Sid
  blockSize : ℕ
  unavailBlocks : ℕ
  unavail_le : unavailBlocks ≤ (segments.map pages).sum
  compactSegs : ℕ
  availCompactSegs : ℕ
  backgroundErase : Bool
  backgroundCompact : Bool
  blankCheckBeforeWrite : Bool
  fault : ℕ → Option Fault

/-- `block_count`: the pages of all segments. -/
def Config.blockCount {Sid : Type} (cfg : Config Sid) : ℕ := (cfg.segments.map cfg.pages).sum

/-- An erased page. -/
def Config.blankPage {Sid : Type} (cfg : Config Sid) : Page := List.replicate cfg.blockSize 0xff#8

/-- An erased segment. -/
def Config.blankSegment {Sid : Type} (cfg : Config Sid) : FlashSegment where
  descs _ := PageDesc.blank
  data _ := cfg.blankPage

/-- `rtems_fdisk_segment_ctl` without its link. -/
structure SegmentCtl where
  pageDescriptors : ℕ → PageDesc
  pagesActive : ℕ
  pagesUsed : ℕ
  pagesBad : ℕ
  failed : Bool

/-- The queues of the disk. -/
inductive QueueName where
  | available
  | used
  | erase
  | failed
deriving DecidableEq, Repr

/-- `rtems_flashdisk`, with the flash behind it and the number of driver calls so far. -/
structure Disk (Sid : Type) where
  links : Links QueueName Sid
  seg : Sid → SegmentCtl
  blocks : ℕ → Option (Sid × ℕ)
  erasedBlocks : ℕ
  starvationThreshold : ℕ
  flash : Sid → FlashSegment
  calls : ℕ

/-- What `rtems_fdisk_queue_status` shows. -/
structure QueueStatus where
  available : Bool
  used : Bool
  erase : Bool
  failed : Bool
deriving DecidableEq, Repr

/-- What a driver write programs. -/
inductive Part where
  | page
  | desc
  | flags
deriving DecidableEq, Repr

/-- Points of the code that a run reports. -/
inductive Event (Sid : Type) where
  /-- `rtems_fdisk_queue_segment` is entered. -/
  | queueSeg (sc : Sid) (queues : QueueStatus)
  /-- `sc->failed` is set. -/
  | failed (sc : Sid) (queues : QueueStatus)
  /-- A page is about to be moved from one segment to another. -/
  | recycle (ssc dsc : Sid)
  /-- A recycling that gives up puts its source on the used queue. -/
  | giveBack (ssc : Sid) (available active : ℕ)
  /-- "recycle: no available dst segment". -/
  | noDst (ssc : Sid)
  /-- "compacting: starvation". -/
  | starvation (ssc : Sid)
  /-- A compaction stops at a recycling that fails: whether a page was moved to the destination
  before, and whether the source had one to move. -/
  | stopped (ssc : Sid) (moved toMove : Bool)
  /-- "write-block: no available pages". -/
  | noSpace (block : ℕ) (mapped : Bool)
  /-- A write is issued to the driver. -/
  | write (sc : Sid) (part : Part) (page : ℕ) (before after : FlashSegment)
  /-- A recycling erases its source before the end of the scan, which leaves erased pages behind. -/
  | eraseEarly (ssc : Sid) (left : ℕ)
  /-- A recycling leaves its source as it is, and has passed erased pages. -/
  | keep (ssc : Sid) (passed : ℕ)
  /-- A page is about to be flagged used. -/
  | flag (sc : Sid) (erased : Bool)
  /-- A segment of the erase queue, with erased pages or without, is about to be erased. -/
  | eraseQueued (sc : Sid) (erased : ℕ)

/-- The programs of the driver. -/
abbrev Fdisk (Sid : Type) := Prog (Disk Sid) (Event Sid)

theorem Config.pages_lt {Sid : Type} (cfg : Config Sid) (x : Sid) : cfg.pages x < 4294967296 :=
  lt_of_le_of_lt
    (List.single_le_sum (by simp) _ (List.mem_map_of_mem (cfg.segments_complete x))) cfg.blocks_lt

theorem Config.segments_lt {Sid : Type} (cfg : Config Sid) :
    cfg.segments.length < 4294967296 := by
  have h := List.length_le_sum_of_one_le (cfg.segments.map cfg.pages) fun n hn => by
    obtain ⟨x, _, rfl⟩ := List.mem_map.mp hn
    exact cfg.pages_pos x
  rw [List.length_map] at h
  exact lt_of_le_of_lt h cfg.blocks_lt

/-- Pages of distinct segments can be counted. -/
theorem Config.sum_lt {Sid : Type} (cfg : Config Sid) {f : Sid → ℕ} (hf : ∀ x, f x ≤ cfg.pages x)
    {xs : List Sid} (h : xs.Nodup) : (xs.map f).sum < 4294967296 := by
  obtain ⟨ys, hperm, hsub⟩ := h.subperm fun x _ => cfg.segments_complete x
  calc (xs.map f).sum
      ≤ (xs.map cfg.pages).sum := List.sum_le_sum fun x _ => hf x
    _ = (ys.map cfg.pages).sum := (hperm.map cfg.pages).sum_eq.symm
    _ ≤ (cfg.segments.map cfg.pages).sum := (hsub.map cfg.pages).sum_le_sum (by simp)
    _ < 4294967296 := cfg.blocks_lt

variable {Sid : Type} [DecidableEq Sid] (cfg : Config Sid)

/-- Change a segment control. -/
def Disk.updSeg (s : Disk Sid) (sc : Sid) (f : SegmentCtl → SegmentCtl) : Disk Sid :=
  { s with seg := update s.seg sc (f (s.seg sc)) }

/-- One page less active and one more used. -/
def SegmentCtl.retirePage (g : SegmentCtl) : SegmentCtl :=
  { g with
    pagesActive := dec32 g.pagesActive
    pagesUsed := inc32 g.pagesUsed }

/-- Change a page descriptor in memory. -/
def SegmentCtl.setDesc (g : SegmentCtl) (page : ℕ) (pd : PageDesc) : SegmentCtl :=
  { g with pageDescriptors := update g.pageDescriptors page pd }

section

variable (g : SegmentCtl) (page : ℕ) (pd : PageDesc)

@[simp]
theorem SegmentCtl.retirePage_pageDescriptors : g.retirePage.pageDescriptors = g.pageDescriptors := by
  cases g
  rfl

@[simp]
theorem SegmentCtl.retirePage_pagesActive : g.retirePage.pagesActive = dec32 g.pagesActive := by
  cases g
  rfl

@[simp]
theorem SegmentCtl.retirePage_pagesUsed : g.retirePage.pagesUsed = inc32 g.pagesUsed := by
  cases g
  rfl

@[simp]
theorem SegmentCtl.retirePage_pagesBad : g.retirePage.pagesBad = g.pagesBad := by
  cases g
  rfl

@[simp]
theorem SegmentCtl.retirePage_failed : g.retirePage.failed = g.failed := by
  cases g
  rfl

@[simp]
theorem SegmentCtl.setDesc_pageDescriptors :
    (g.setDesc page pd).pageDescriptors = update g.pageDescriptors page pd := by
  cases g
  rfl

@[simp]
theorem SegmentCtl.setDesc_pagesActive : (g.setDesc page pd).pagesActive = g.pagesActive := by
  cases g
  rfl

@[simp]
theorem SegmentCtl.setDesc_pagesUsed : (g.setDesc page pd).pagesUsed = g.pagesUsed := by
  cases g
  rfl

@[simp]
theorem SegmentCtl.setDesc_pagesBad : (g.setDesc page pd).pagesBad = g.pagesBad := by
  cases g
  rfl

@[simp]
theorem SegmentCtl.setDesc_failed : (g.setDesc page pd).failed = g.failed := by
  cases g
  rfl

end

/-- `rtems_fdisk_seg_pages_available`. -/
def segPagesAvailable (s : Disk Sid) (sc : Sid) : ℕ :=
  (cfg.pages sc + 4294967296 -
    ((s.seg sc).pagesActive + (s.seg sc).pagesUsed + (s.seg sc).pagesBad) % 4294967296) % 4294967296

/-- `rtems_fdisk_seg_next_available_page`. -/
def segNextAvailablePage (s : Disk Sid) (sc : Sid) : ℕ :=
  ((List.range (cfg.pages sc)).find? fun page =>
    pageDescErased ((s.seg sc).pageDescriptors page)).getD (cfg.pages sc)

/-- The pages of a segment before `page` with an erased descriptor in memory. -/
def erasedBefore (s : Disk Sid) (sc : Sid) (page : ℕ) : ℕ :=
  tally pageDescErased (s.seg sc).pageDescriptors page

/-- The segment has an active page, as a recycling looks for them. -/
def hasPageToMove (s : Disk Sid) (sc : Sid) : Bool :=
  (List.range (cfg.pages sc)).any fun page =>
    pageDescFlagsSet ((s.seg sc).pageDescriptors page) pageActive &&
      !pageDescFlagsSet ((s.seg sc).pageDescriptors page) pageUsed

/-- `rtems_fdisk_is_erased_blocks_starvation`. -/
def isErasedBlocksStarvation (s : Disk Sid) : Bool := s.erasedBlocks < s.starvationThreshold

/-- `rtems_fdisk_queue_status`. -/
def queueStatus (s : Disk Sid) (sc : Sid) : QueueStatus where
  available := (s.links.present cfg.segments.length .available sc).getD false
  used := (s.links.present cfg.segments.length .used sc).getD false
  erase := (s.links.present cfg.segments.length .erase sc).getD false
  failed := (s.links.present cfg.segments.length .failed sc).getD false

/-! ## The segment queues -/

def pushHead (q : QueueName) (sc : Sid) : Fdisk Sid Unit :=
  Prog.modify fun s => { s with links := s.links.pushHead q sc }

def pushTail (q : QueueName) (sc : Sid) : Fdisk Sid Unit :=
  Prog.modify fun s => { s with links := s.links.pushTail q sc }

def popHead (q : QueueName) : Fdisk Sid (Option Sid) := do
  let s ← Prog.get
  Prog.modify fun s => { s with links := (s.links.popHead q).2 }
  return (s.links.popHead q).1

def remove (q : QueueName) (sc : Sid) : Fdisk Sid Unit := do
  let s ← Prog.get
  let links ← Prog.lift (s.links.remove cfg.segments.length q sc)
  Prog.modify fun s => { s with links := links }

def insertBefore (q : QueueName) (item sc : Sid) : Fdisk Sid Unit := do
  let s ← Prog.get
  let links ← Prog.lift (s.links.insertBefore cfg.segments.length q item sc)
  Prog.modify fun s => { s with links := links }

def present (q : QueueName) (sc : Sid) : Fdisk Sid Bool := do
  let s ← Prog.get
  Prog.lift (s.links.present cfg.segments.length q sc)

/-- `rtems_fdisk_segment_count_queue`. -/
def countQueue (q : QueueName) : Fdisk Sid ℕ := do
  let s ← Prog.get
  let xs ← Prog.lift (s.links.elements cfg.segments.length q)
  return xs.length

/-- `rtems_fdisk_seg_most_available`. -/
def segMostAvailable (q : QueueName) : Fdisk Sid (Option Sid) := do
  let s ← Prog.get
  let xs ← Prog.lift (s.links.elements cfg.segments.length q)
  return xs.head?.map fun head =>
    xs.foldl (fun biggest sc =>
      if segPagesAvailable cfg s sc > segPagesAvailable cfg s biggest then sc else biggest) head

/-- Insert before the first segment of the queue that `before` accepts, or at the tail. -/
def insertSorted (q : QueueName) (sc : Sid) (before : Disk Sid → Sid → Bool) : Fdisk Sid Unit := do
  let s ← Prog.get
  let seg ← Prog.lift
    (Links.findFrom s.links.next (before s) cfg.segments.length (s.links.queue q).head)
  match seg with
  | some seg => insertBefore cfg q seg sc
  | none => pushTail q sc

/-! ## Driver calls -/

/-- Count a driver call and learn whether it fails. -/
def driverCall : Fdisk Sid (Option Fault) := do
  let s ← Prog.get
  Prog.modify fun s => { s with calls := s.calls + 1 }
  return cfg.fault s.calls

/-- Put contents into the flash segment of a control. -/
def setFlash (sc : Sid) (f : FlashSegment → FlashSegment) : Fdisk Sid Unit :=
  Prog.modify fun s =>
    { s with flash := update s.flash (cfg.address sc) (f (s.flash (cfg.address sc))) }

/-- `sc->failed = true`. -/
def setFailed (sc : Sid) : Fdisk Sid Unit := do
  let s ← Prog.get
  Prog.report (.failed sc (queueStatus cfg s sc))
  Prog.modify fun s => s.updSeg sc fun g => { g with failed := true }

/-- `rtems_fdisk_seg_read`, of what `f` selects. -/
def segRead {α : Type} (sc : Sid) (f : FlashSegment → α) : Fdisk Sid (Except ℕ α) := do
  let fault ← driverCall cfg
  let s ← Prog.get
  match fault with
  | some e => return .error e.errno
  | none => return .ok (f (s.flash (cfg.address sc)))

/-- `rtems_fdisk_seg_write`. -/
def segWrite (sc : Sid) (part : Part) (page : ℕ) (f : FlashSegment → FlashSegment) :
    Fdisk Sid ℕ := do
  let s ← Prog.get
  Prog.report (.write sc part page (s.flash (cfg.address sc)) (f (s.flash (cfg.address sc))))
  let fault ← driverCall cfg
  match fault with
  | some e =>
    setFlash cfg sc fun _ => e.residue
    setFailed cfg sc
    return e.errno
  | none =>
    setFlash cfg sc f
    return 0

/-- A driver call that answers 0 or an error: the blank check and the verification. -/
def segTest (sc : Sid) (f : FlashSegment → Bool) : Fdisk Sid ℕ := do
  let fault ← driverCall cfg
  let s ← Prog.get
  match fault with
  | some e => return e.errno
  | none => return if f (s.flash (cfg.address sc)) then 0 else eio

/-- `rtems_fdisk_seg_blank_check_page`. -/
def segBlankCheckPage (sc : Sid) (page : ℕ) : Fdisk Sid ℕ :=
  segTest cfg sc fun f => f.data page = cfg.blankPage

/-- `rtems_fdisk_seg_verify_page`. -/
def segVerifyPage (sc : Sid) (page : ℕ) (buffer : Page) : Fdisk Sid ℕ :=
  segTest cfg sc fun f => f.data page = buffer

/-- `rtems_fdisk_seg_read_page`. -/
def segReadPage (sc : Sid) (page : ℕ) : Fdisk Sid (Except ℕ Page) :=
  segRead cfg sc fun f => f.data page

/-- The blank check in front of a write, where it is configured. -/
def blankCheckFirst (check write : Fdisk Sid ℕ) : Fdisk Sid ℕ :=
  if cfg.blankCheckBeforeWrite then do
    let ret ← check
    if ret = 0 then write else return ret
  else write

/-- `rtems_fdisk_seg_write_page`. -/
def segWritePage (sc : Sid) (page : ℕ) (buffer : Page) : Fdisk Sid ℕ :=
  blankCheckFirst cfg (segBlankCheckPage cfg sc page) do
    Prog.modify fun s => { s with erasedBlocks := dec32 s.erasedBlocks }
    segWrite cfg sc .page page fun f => { f with data := update f.data page buffer }

/-- `rtems_fdisk_seg_copy_page`. -/
def segCopyPage (src : Sid) (srcPage : ℕ) (dst : Sid) (dstPage : ℕ) : Fdisk Sid ℕ := do
  match ← segReadPage cfg src srcPage with
  | .error ret => return ret
  | .ok copyBuffer => segWritePage cfg dst dstPage copyBuffer

/-- `rtems_fdisk_seg_write_page_desc`. -/
def segWritePageDesc (sc : Sid) (page : ℕ) (pd : PageDesc) : Fdisk Sid ℕ :=
  blankCheckFirst cfg (segTest cfg sc fun f => f.descs page = PageDesc.blank)
    (segWrite cfg sc .desc page fun f => { f with descs := update f.descs page pd })

/-- `rtems_fdisk_seg_write_page_desc_flags`.  Flags that cannot be programmed are reported and the
write is left out, with the code 0 of the read. -/
def segWritePageDescFlags (sc : Sid) (page : ℕ) (pd : PageDesc) : Fdisk Sid ℕ :=
  let write := segWrite cfg sc .flags page fun f =>
    { f with descs := update f.descs page { f.descs page with flags := pd.flags } }
  if cfg.blankCheckBeforeWrite then do
    match ← segRead cfg sc fun f => (f.descs page).flags with
    | .error ret => return ret
    | .ok flashFlags => if flashFlags &&& pd.flags = pd.flags then write else return 0
  else write

/-! ## Segments -/

/-- `rtems_fdisk_erase_segment`. -/
def eraseSegment (sc : Sid) : Fdisk Sid ℕ := do
  match ← driverCall cfg with
  | some e =>
    setFlash cfg sc fun _ => e.residue
    setFailed cfg sc
    let onFailed ← present cfg .failed sc
    if !onFailed then
      pushTail .failed sc
    return e.errno
  | none =>
    setFlash cfg sc fun _ => cfg.blankSegment
    Prog.modify fun s =>
      { s.updSeg sc fun _ => ⟨fun _ => PageDesc.blank, 0, 0, 0, false⟩ with
        erasedBlocks := (s.erasedBlocks + cfg.pages sc) % 4294967296 }
    pushTail .available sc
    return 0

/-- `rtems_fdisk_erase_used`, with a number of turns and the latched error so far. -/
def eraseUsedLoop : ℕ → ℕ → Fdisk Sid ℕ
  | 0, _ => Prog.lift none
  | turns + 1, latched => do
    match ← popHead .erase with
    | none => return latched
    | some sc =>
      let s ← Prog.get
      Prog.report (.eraseQueued sc (erasedBefore s sc (cfg.pages sc)))
      let ret ← eraseSegment cfg sc
      eraseUsedLoop turns (if latched = 0 then ret else latched)

/-- `rtems_fdisk_erase_used`. -/
def eraseUsed (turns : ℕ) : Fdisk Sid ℕ := eraseUsedLoop cfg turns 0

/-- Put an unlinked segment where its pages belong: the second half of `rtems_fdisk_queue_segment`. -/
def placeSegment (sc : Sid) : Fdisk Sid Unit := do
  let s ← Prog.get
  if segPagesAvailable cfg s sc = 0 then
    if (s.seg sc).pagesActive ≠ 0 then
      insertSorted cfg .used sc fun s seg => (s.seg sc).pagesUsed > (s.seg seg).pagesUsed
    else if cfg.backgroundErase then
      pushTail .erase sc
    else do
      let _ ← eraseSegment cfg sc
  else
    insertSorted cfg .available sc fun s seg => segPagesAvailable cfg s sc < segPagesAvailable cfg s seg

/-- `rtems_fdisk_queue_segment`. -/
def queueSegment (sc : Sid) : Fdisk Sid Unit := do
  let s ← Prog.get
  Prog.report (.queueSeg sc (queueStatus cfg s sc))
  if (s.seg sc).failed then
    let onFailed ← present cfg .failed sc
    if !onFailed then
      pushTail .failed sc
  else
    remove cfg .available sc
    remove cfg .used sc
    placeSegment cfg sc

/-! ## Recycling and compaction -/

/-- The error exit of `rtems_fdisk_recycle_segment`: queue the destination and put the source back at
the head of the used queue. -/
def giveUp (ssc dsc : Sid) (ret : ℕ) : Fdisk Sid ℕ := do
  queueSegment cfg dsc
  let s ← Prog.get
  Prog.report (.giveBack ssc (segPagesAvailable cfg s ssc) (s.seg ssc).pagesActive)
  pushHead .used ssc
  return ret

/-- The counts and the block table after a page of `ssc` was copied to `dsc`. -/
def Disk.countMove (s : Disk Sid) (ssc dsc : Sid) (dpage block : ℕ) : Disk Sid :=
  { (s.updSeg dsc fun g => { g with pagesActive := inc32 g.pagesActive }).updSeg ssc
      SegmentCtl.retirePage with
    blocks := update s.blocks block (some (dsc, dpage)) }

/-- Move one active page of `ssc` to `dsc`: a turn of the loop of `rtems_fdisk_recycle_segment` up to
the queueing of the destination. -/
def movePage (ssc : Sid) (spage : ℕ) (dsc : Sid) : Fdisk Sid ℕ := do
  let s ← Prog.get
  let spd := (s.seg ssc).pageDescriptors spage
  let dpage := segNextAvailablePage cfg s dsc
  Prog.report (.recycle ssc dsc)
  if cfg.pages dsc ≤ dpage then
    setFailed cfg dsc
    giveUp cfg ssc dsc eio
  else
    let ret ← segCopyPage cfg ssc spage dsc dpage
    if ret ≠ 0 then
      giveUp cfg ssc dsc ret
    else
      Prog.modify fun s => s.updSeg dsc (·.setDesc dpage spd)
      let ret ← segWritePageDesc cfg dsc dpage spd
      if ret ≠ 0 then
        giveUp cfg ssc dsc ret
      else
        Prog.modify fun s => s.countMove ssc dsc dpage spd.block
        queueSegment cfg dsc
        return 0

/-- One turn of the loop of `rtems_fdisk_recycle_segment`: `next` goes on with the destination and the
count of pages to move, a return gives the code with that count. -/
def recyclePage (ssc : Sid) (spage : ℕ) (next : Sid → ℕ → Fdisk Sid (ℕ × ℕ)) (dsc : Sid)
    (pages : ℕ) : Fdisk Sid (ℕ × ℕ) := do
  let s ← Prog.get
  let spd := (s.seg ssc).pageDescriptors spage
  if pageDescFlagsSet spd pageActive && !pageDescFlagsSet spd pageUsed then
    let ret ← movePage cfg ssc spage dsc
    let s ← Prog.get
    if ret ≠ 0 then
      Prog.report (.keep ssc (erasedBefore s ssc spage))
      return (ret, pages)
    else
      if segPagesAvailable cfg s dsc = 0 then
        match ← segMostAvailable cfg .available with
        | none =>
          if (s.seg ssc).pagesActive = 0 then
            Prog.report
              (.eraseEarly ssc (erasedBefore s ssc (cfg.pages ssc) - erasedBefore s ssc spage))
            let ret ← eraseSegment cfg ssc
            return (ret, pages)
          else
            Prog.report (.noDst ssc)
            Prog.report (.keep ssc (erasedBefore s ssc spage))
            return (eio, pages)
        | some dsc => next dsc (dec32 pages)
      else
        next dsc (dec32 pages)
  else if pageDescErased spd then
    Prog.modify fun s => { s with erasedBlocks := dec32 s.erasedBlocks }
    next dsc pages
  else
    next dsc pages

/-- The loop of `rtems_fdisk_recycle_segment` over the pages that are left, then the erasure of the
source. -/
def recyclePages (ssc : Sid) : List ℕ → Sid → ℕ → Fdisk Sid (ℕ × ℕ)
  | [], _, pages => do
    let ret ← eraseSegment cfg ssc
    return (ret, pages)
  | spage :: rest, dsc, pages => recyclePage cfg ssc spage (recyclePages ssc rest) dsc pages

/-- `rtems_fdisk_recycle_segment`. -/
def recycleSegment (ssc dsc : Sid) (pages : ℕ) : Fdisk Sid (ℕ × ℕ) :=
  recyclePages cfg ssc (List.range (cfg.pages ssc)) dsc pages

/-- Recycle a segment that was taken off its queue to resolve a starvation; the count of pages handed
to the recycling is not read afterwards. -/
def recycleStarving (ssc : Sid) : Fdisk Sid ℕ := do
  match ← segMostAvailable cfg .available with
  | none =>
    Prog.report (.starvation ssc)
    return eio
  | some dsc =>
    let result ← recycleSegment cfg ssc dsc 0
    return result.1

/-- The part of `rtems_fdisk_compact` that resolves a starvation. -/
def resolveStarvation : Fdisk Sid ℕ := do
  match ← popHead .used with
  | some ssc => recycleStarving cfg ssc
  | none =>
    match ← popHead .available with
    | some ssc => recycleStarving cfg ssc
    | none => return eio

/-- Count the used segments, from `ssc` on, whose active pages fit the destination; `budget` segments
may still be taken. -/
def scanUsed (s : Disk Sid) (dstPages : ℕ) : ℕ → Option Sid → ℕ → ℕ → Option Sid × ℕ × ℕ
  | 0, ssc, pages, segments => (ssc, pages, segments)
  | _ + 1, none, pages, segments => (none, pages, segments)
  | budget + 1, some ssc, pages, segments =>
    if (pages + (s.seg ssc).pagesActive) % 4294967296 < dstPages then
      scanUsed s dstPages budget (s.links.next ssc)
        ((pages + (s.seg ssc).pagesActive) % 4294967296) (segments + 1)
    else
      (some ssc, pages, segments)

/-- Recycle used segments into `dsc` until no page is left of those that were counted. -/
def copyLoop (dsc : Sid) (counted : ℕ) : ℕ → ℕ → Fdisk Sid ℕ
  | 0, _ => Prog.lift none
  | turns + 1, pages =>
    if pages = 0 then return 0
    else do
      match ← popHead .used with
      | none => copyLoop dsc counted turns pages
      | some ssc =>
        let s ← Prog.get
        let result ← recycleSegment cfg ssc dsc pages
        if result.1 ≠ 0 then
          Prog.report (.stopped ssc (pages ≠ counted) (hasPageToMove cfg s ssc))
          return result.1
        else copyLoop dsc counted turns result.2

/-- The loop of `rtems_fdisk_compact` over the used queue. -/
def compactLoop (turns : ℕ) : ℕ → ℕ → Fdisk Sid ℕ
  | 0, _ => Prog.lift none
  | left + 1, compactedSegs => do
    let s ← Prog.get
    if (s.links.queue .used).head = none then return 0
    else
      match ← segMostAvailable cfg .available with
      | none => return eio
      | some dsc =>
        let (ssc, pages, segments) :=
          scanUsed s (segPagesAvailable cfg s dsc) (cfg.compactSegs - compactedSegs)
            (s.links.queue .used).head 0 0
        if ssc = none || pages = 0 || compactedSegs + segments = 1 then return 0
        else
          remove cfg .available dsc
          let ret ← copyLoop cfg dsc pages turns pages
          if ret ≠ 0 then return ret
          else compactLoop turns left (compactedSegs + segments)

/-- `rtems_fdisk_compact`. -/
def compact (turns : ℕ) : Fdisk Sid ℕ := do
  let s ← Prog.get
  if isErasedBlocksStarvation s then
    let ret ← resolveStarvation cfg
    if ret ≠ 0 then return ret
    else compactLoop cfg turns turns 0
  else
    compactLoop cfg turns turns 0

/-! ## Reading and writing blocks -/

/-- `rtems_fdisk_read_block`.  Its type is `bool`, so that every error code is the same. -/
def readBlock (block : ℕ) : Fdisk Sid (Option Page) := do
  let s ← Prog.get
  if cfg.blockCount - cfg.unavailBlocks ≤ block then return none
  else
    match s.blocks block with
    | none => return some cfg.blankPage
    | some (sc, page) =>
      let pd := (s.seg sc).pageDescriptors page
      if pageDescFlagsSet pd pageActive && pageDescFlagsClear pd pageUsed then
        match ← segReadPage cfg sc page with
        | .error _ => return none
        | .ok buffer => return if pageChecksum buffer = pd.crc then some buffer else none
      else return none

/-- Flag the page of a block used: the first half of `rtems_fdisk_write_block` for a mapped block. -/
def flagUsed (sc : Sid) (page : ℕ) : Fdisk Sid Unit := do
  let s ← Prog.get
  Prog.report (.flag sc (pageDescErased ((s.seg sc).pageDescriptors page)))
  Prog.modify fun s => s.updSeg sc fun g =>
    g.setDesc page (pageDescSetFlags (g.pageDescriptors page) pageUsed)
  let s ← Prog.get
  let ret ← segWritePageDescFlags cfg sc page ((s.seg sc).pageDescriptors page)
  Prog.modify fun s => if ret = 0 then s.updSeg sc SegmentCtl.retirePage else s
  queueSegment cfg sc

/-- The descriptor of a page and the block table, in memory, when a block is written to the page. -/
def Disk.mapBlock (s : Disk Sid) (sc : Sid) (page block : ℕ) (buffer : Page) : Disk Sid :=
  { s.updSeg sc fun g =>
      g.setDesc page (pageDescSetFlags
        { g.pageDescriptors page with
          crc := pageChecksum buffer
          block := block } pageActive) with
    blocks := update s.blocks block (some (sc, page)) }

/-- Program a page, then its descriptor, and count it. -/
def programPage (sc : Sid) (page : ℕ) (buffer : Page) : Fdisk Sid ℕ := do
  let s ← Prog.get
  let ret ← segWritePage cfg sc page buffer
  if ret ≠ 0 then return ret
  else
    let ret ← segWritePageDesc cfg sc page ((s.seg sc).pageDescriptors page)
    if ret ≠ 0 then return ret
    else
      Prog.modify fun s => s.updSeg sc fun g => { g with pagesActive := inc32 g.pagesActive }
      return 0

/-- Compact where `wanted` says so; the result is ignored. -/
def compactIf (turns : ℕ) (wanted : Bool) : Fdisk Sid Unit :=
  if wanted then do
    let _ ← compact cfg turns
    return ()
  else return ()

/-- Write a block to the first erased page of a segment taken from the available queue. -/
def writeToSegment (turns : ℕ) (sc : Sid) (block : ℕ) (buffer : Page) : Fdisk Sid ℕ := do
  let s ← Prog.get
  let page := segNextAvailablePage cfg s sc
  if cfg.pages sc ≤ page then
    setFailed cfg sc
    queueSegment cfg sc
    return eio
  else
    Prog.modify fun s => s.mapBlock sc page block buffer
    let ret ← programPage cfg sc page buffer
    queueSegment cfg sc
    let s ← Prog.get
    compactIf cfg turns (isErasedBlocksStarvation s)
    return ret

/-- Find room for a block and write it: the second half of `rtems_fdisk_write_block`. -/
def writeNewPage (turns block : ℕ) (buffer : Page) : Fdisk Sid ℕ := do
  let count ← countQueue cfg .available
  compactIf cfg turns (count ≤ cfg.availCompactSegs)
  match ← popHead .available with
  | some sc => writeToSegment cfg turns sc block buffer
  | none =>
    compactIf cfg turns cfg.backgroundCompact
    match ← popHead .available with
    | some sc => writeToSegment cfg turns sc block buffer
    | none =>
      let s ← Prog.get
      Prog.report (.noSpace block (s.blocks block).isSome)
      return enospc

/-- `rtems_fdisk_write_block`. -/
def writeBlock (turns block : ℕ) (buffer : Page) : Fdisk Sid ℕ := do
  let s ← Prog.get
  if cfg.blockCount - cfg.unavailBlocks ≤ block then return eio
  else
    match s.blocks block with
    | none => writeNewPage cfg turns block buffer
    | some (sc, page) =>
      let ret ← segVerifyPage cfg sc page buffer
      if ret = 0 then return 0
      else
        flagUsed cfg sc page
        compactIf cfg turns (!cfg.backgroundCompact)
        writeNewPage cfg turns block buffer

/-! ## Recovery -/

/-- An active page of a block was found. -/
def Disk.foundBlock (s : Disk Sid) (sc : Sid) (page block : ℕ) : Disk Sid :=
  { s.updSeg sc fun g => { g with pagesActive := inc32 g.pagesActive } with
    blocks := update s.blocks block (some (sc, page)) }

/-- A segment before its pages are scanned. -/
def Disk.beginScan (s : Disk Sid) (sc : Sid) : Disk Sid :=
  { s.updSeg sc fun g => ⟨g.pageDescriptors, 0, 0, 0, false⟩ with
    starvationThreshold := max s.starvationThreshold (cfg.pages sc) }

/-- Classify one page of a segment: a turn of the inner loop of `rtems_fdisk_recover_block_mappings`. -/
def recoverPage (sc : Sid) (page : ℕ) : Fdisk Sid Unit := do
  let s ← Prog.get
  let pd := (s.seg sc).pageDescriptors page
  if pageDescErased pd then
    let ret ← segBlankCheckPage cfg sc page
    if ret = 0 then
      Prog.modify fun s => { s with erasedBlocks := inc32 s.erasedBlocks }
    else
      Prog.modify fun s => s.updSeg sc (·.setDesc page (pageDescSetFlags pd pageUsed))
      let _ ← segWritePageDesc cfg sc page (pageDescSetFlags pd pageUsed)
      Prog.modify fun s => s.updSeg sc fun g => { g with pagesUsed := inc32 g.pagesUsed }
  else if pageDescFlagsSet pd pageUsed then
    Prog.modify fun s => s.updSeg sc fun g => { g with pagesUsed := inc32 g.pagesUsed }
  else if pageDescFlagsSet pd pageActive then
    if cfg.blockCount ≤ pd.block || (s.blocks pd.block).isSome then
      Prog.modify fun s => s.updSeg sc fun g => { g with pagesBad := inc32 g.pagesBad }
    else
      Prog.modify fun s => s.foundBlock sc page pd.block
  else
    Prog.modify fun s => s.updSeg sc fun g => { g with pagesBad := inc32 g.pagesBad }

def recoverPages (sc : Sid) : List ℕ → Fdisk Sid Unit
  | [] => pure ()
  | page :: rest => do
    recoverPage cfg sc page
    recoverPages sc rest

/-- Scan one segment: a turn of the outer loop. -/
def recoverSegment (sc : Sid) : Fdisk Sid ℕ := do
  Prog.modify fun s => s.beginScan cfg sc
  match ← segRead cfg sc FlashSegment.descs with
  | .error ret => return ret
  | .ok descs =>
    Prog.modify fun s => s.updSeg sc fun g => { g with pageDescriptors := descs }
    recoverPages cfg sc (List.range (cfg.pages sc))
    queueSegment cfg sc
    return 0

def recoverSegments : List Sid → Fdisk Sid ℕ
  | [] => return 0
  | sc :: rest => do
    let ret ← recoverSegment cfg sc
    if ret ≠ 0 then return ret
    else recoverSegments rest

/-- `rtems_fdisk_recover_block_mappings`. -/
def recoverBlockMappings : Fdisk Sid ℕ := do
  Prog.modify fun s =>
    { s with
      links := ⟨s.links.next, fun _ => ⟨none, none, 0⟩⟩
      blocks := fun _ => none
      erasedBlocks := 0
      starvationThreshold := 0 }
  recoverSegments cfg cfg.segments

/-- The recovery and the compaction at the end of the driver's initialisation. -/
def startDisk (turns : ℕ) : Fdisk Sid ℕ := do
  let ret ← recoverBlockMappings cfg
  if ret ≠ 0 then return ret
  else compact cfg turns

/-- The control structures as they are allocated, over a flash. -/
def Disk.allocated (flash : Sid → FlashSegment) : Disk Sid where
  links := ⟨fun _ => none, fun _ => ⟨none, none, 0⟩⟩
  seg _ := ⟨fun _ => PageDesc.blank, 0, 0, 0, false⟩
  blocks _ := none
  erasedBlocks := 0
  starvationThreshold := 0
  flash := flash
  calls := 0

/-- The requests a disk takes. -/
inductive Call where
  | write (block : ℕ) (buffer : Page)
  | read (block : ℕ)
  | compact
  | eraseUsed

/-- Carry out a request; the result is its return code. -/
def exec (turns : ℕ) : Call → Fdisk Sid ℕ
  | .write block buffer => writeBlock cfg turns block buffer
  | .read block => do
    let buffer ← readBlock cfg block
    return if buffer.isSome then 0 else 1
  | .compact => compact cfg turns
  | .eraseUsed => eraseUsed cfg turns

/-! ## Runs -/

/-- The active pages of a flash are of blocks that the disk has.  A recycling finds the block of a
page in the block table without a check. -/
def InRange (cfg : Config Sid) (flash : Sid → FlashSegment) : Prop :=
  ∀ x page, pageDescFlagsSet ((flash x).descs page) pageActive = true →
    pageDescFlagsSet ((flash x).descs page) pageUsed = false →
    ((flash x).descs page).block < cfg.blockCount

omit [DecidableEq Sid] in
theorem inRange_blank : InRange cfg fun _ => cfg.blankSegment := by
  intro _ _ hactive
  have hblank : pageDescFlagsSet PageDesc.blank pageActive = false := by decide
  exact absurd (hblank.symm.trans hactive) Bool.false_ne_true

/-- The states a disk reaches between requests, with the events on the way: it starts from some flash
contents and takes requests. -/
inductive Reached (cfg : Config Sid) (flash : Sid → FlashSegment) :
    Disk Sid → List (Event Sid) → Prop
  | start {turns : ℕ} {s : Disk Sid} {es : List (Event Sid)} : InRange cfg flash →
      startDisk cfg turns (Disk.allocated flash) = some (0, s, es) → Reached cfg flash s es
  | step {turns ret : ℕ} {c : Call} {s s' : Disk Sid} {es es' : List (Event Sid)} :
      Reached cfg flash s es → exec cfg turns c s = some (ret, s', es') →
      Reached cfg flash s' (es ++ es')

/-- Carry out requests one after the other. -/
def runCalls (turns : ℕ) : List Call → Fdisk Sid (List ℕ)
  | [] => return []
  | c :: cs => do
    let ret ← exec cfg turns c
    let rets ← runCalls turns cs
    return ret :: rets

/-- Start a disk and carry out requests. -/
def session (turns : ℕ) (cs : List Call) : Fdisk Sid (ℕ × List ℕ) := do
  let ret ← startDisk cfg turns
  let rets ← runCalls cfg turns cs
  return (ret, rets)

theorem Reached.of_runCalls {cfg : Config Sid} {flash : Sid → FlashSegment} {turns : ℕ}
    {cs : List Call} {s s' : Disk Sid} {es es' : List (Event Sid)} {rets : List ℕ}
    (h : Reached cfg flash s es) (hr : runCalls cfg turns cs s = some (rets, s', es')) :
    Reached cfg flash s' (es ++ es') := by
  induction cs generalizing s es rets es' with
  | nil =>
    cases hr
    simpa using h
  | cons c cs ih =>
    simp only [runCalls] at hr
    obtain ⟨ret, s₁, es₁, es₂, hc, hcs, rfl⟩ := bind_eq_some_iff.mp hr
    obtain ⟨rets', s₂, es₃, es₄, hrest, hp, rfl⟩ := bind_eq_some_iff.mp hcs
    cases hp
    rw [← List.append_assoc, List.append_nil]
    exact ih (h.step hc) hrest

/-- A session from an erased flash. -/
theorem Reached.of_session {cfg : Config Sid} {turns : ℕ}
    {cs : List Call} {s : Disk Sid} {es : List (Event Sid)} {rets : List ℕ}
    (h : session cfg turns cs (Disk.allocated fun _ => cfg.blankSegment) =
      some ((0, rets), s, es)) : Reached cfg (fun _ => cfg.blankSegment) s es := by
  simp only [session] at h
  obtain ⟨ret, s₁, es₁, es₂, hs, hr, rfl⟩ := bind_eq_some_iff.mp h
  obtain ⟨rets', s₂, es₃, es₄, hrest, hp, rfl⟩ := bind_eq_some_iff.mp hr
  cases hp
  rw [List.append_nil]
  exact (Reached.start (inRange_blank cfg) hs).of_runCalls hrest

end Rtems.FlashDisk
