import Rtems.Heap.Model

/-!
# The statistics

What a block that is taken, left over or given back changes in the counters that
tell about the blocks.
-/

namespace Rtems.Heap

/-- The counters that tell about the blocks, and those that have to agree with them. -/
structure Counts where
  freeSize : BitVec 32
  minFreeSize : BitVec 32
  freeBlocks : BitVec 32
  maxFreeBlocks : BitVec 32
  usedBlocks : BitVec 32
  allocs : BitVec 32
  frees : BitVec 32
deriving DecidableEq, Repr

namespace Statistics

variable {stats : Statistics} {z size r : Nat}

def counts (stats : Statistics) : Counts :=
  ⟨stats.freeSize, stats.minFreeSize, stats.freeBlocks, stats.maxFreeBlocks, stats.usedBlocks,
    stats.allocs, stats.frees⟩

/-- A free block is left over, or nothing. -/
def leave (stats : Statistics) (size : Nat) : Statistics :=
  if size = 0 then stats else (stats.addFreeSize size).incFreeBlocks

/-- A block of this size comes back between `z` and `r` free bytes. -/
def giveBack (stats : Statistics) (z size r : Nat) : Statistics :=
  if z = 0 ∧ r = 0 then stats.incFreeBlocks.updateMaxFreeBlocks.giveBlock size
  else if z ≠ 0 ∧ r ≠ 0 then stats.decFreeBlocks.giveBlock size
  else stats.giveBlock size

/-- The free block of this size behind an area joins it, if there is one. -/
def takeNext (stats : Statistics) (r : Nat) : Statistics :=
  if r = 0 then stats else stats.decFreeBlocks.subFreeSize r

def countResize (stats : Statistics) : Statistics := { stats with resizes := stats.resizes + 1 }

@[simp]
theorem leave_zero (stats : Statistics) : stats.leave 0 = stats := rfl

theorem leave_pos (stats : Statistics) (h : size ≠ 0) :
    stats.leave size = (stats.addFreeSize size).incFreeBlocks := if_neg h

end Statistics

/-- The number of blocks that these bytes are, if they are free and have no free neighbor. -/
def pieces (size : Nat) : BitVec 32 := if size = 0 then 0 else 1

@[simp]
theorem pieces_zero : pieces 0 = 0 := rfl

theorem pieces_pos {size : Nat} (h : size ≠ 0) : pieces size = 1 := if_neg h

namespace Statistics

variable {stats : Statistics} {z size r : Nat}

@[simp]
theorem counts_takeBlock : (stats.takeBlock size).counts = { stats.counts with
    freeSize := stats.counts.freeSize - BitVec.ofNat 32 size
    freeBlocks := stats.counts.freeBlocks - 1
    usedBlocks := stats.counts.usedBlocks + 1 } := rfl

@[simp]
theorem counts_leave : (stats.leave size).counts = { stats.counts with
    freeSize := stats.counts.freeSize + BitVec.ofNat 32 size
    freeBlocks := stats.counts.freeBlocks + pieces size } := by
  rcases Nat.eq_zero_or_pos size with rfl | hpos
  · simp
  · rw [leave_pos stats hpos.ne', pieces_pos hpos.ne']
    rfl

@[simp]
theorem counts_updateMinFreeSize : stats.updateMinFreeSize.counts = { stats.counts with
    minFreeSize := if stats.counts.minFreeSize > stats.counts.freeSize then stats.counts.freeSize
      else stats.counts.minFreeSize } := rfl

@[simp]
theorem counts_takeNext : (stats.takeNext r).counts = { stats.counts with
    freeSize := stats.counts.freeSize - BitVec.ofNat 32 r
    freeBlocks := stats.counts.freeBlocks - pieces r } := by
  rcases Nat.eq_zero_or_pos r with rfl | hpos
  · simp [takeNext]
  · rw [takeNext, if_neg hpos.ne', pieces_pos hpos.ne']
    rfl

@[simp]
theorem counts_countResize : stats.countResize.counts = stats.counts := rfl

@[simp]
theorem counts_giveBack : (stats.giveBack z size r).counts = { stats.counts with
    freeSize := stats.counts.freeSize + BitVec.ofNat 32 size
    freeBlocks := stats.counts.freeBlocks + 1 - pieces z - pieces r
    maxFreeBlocks :=
      if z = 0 ∧ r = 0 ∧ stats.counts.maxFreeBlocks < stats.counts.freeBlocks + 1 then
        stats.counts.freeBlocks + 1
      else stats.counts.maxFreeBlocks
    usedBlocks := stats.counts.usedBlocks - 1
    frees := stats.counts.frees + 1 } := by
  have hinc : (stats.incFreeBlocks.updateMaxFreeBlocks.giveBlock size).counts = { stats.counts with
      freeSize := stats.counts.freeSize + BitVec.ofNat 32 size
      freeBlocks := stats.counts.freeBlocks + 1
      maxFreeBlocks :=
        if stats.counts.maxFreeBlocks < stats.counts.freeBlocks + 1 then stats.counts.freeBlocks + 1
        else stats.counts.maxFreeBlocks
      usedBlocks := stats.counts.usedBlocks - 1
      frees := stats.counts.frees + 1 } := rfl
  have hone : (stats.giveBlock size).counts = { stats.counts with
      freeSize := stats.counts.freeSize + BitVec.ofNat 32 size
      usedBlocks := stats.counts.usedBlocks - 1
      frees := stats.counts.frees + 1 } := rfl
  have hdec : (stats.decFreeBlocks.giveBlock size).counts = { stats.counts with
      freeSize := stats.counts.freeSize + BitVec.ofNat 32 size
      freeBlocks := stats.counts.freeBlocks - 1
      usedBlocks := stats.counts.usedBlocks - 1
      frees := stats.counts.frees + 1 } := rfl
  rcases Nat.eq_zero_or_pos z with rfl | hz
  · rcases Nat.eq_zero_or_pos r with rfl | hr
    · simp [giveBack, hinc]
    · simp [giveBack, hone, hr.ne', pieces_pos]
  · rcases Nat.eq_zero_or_pos r with rfl | hr
    · simp [giveBack, hone, hz.ne', pieces_pos]
    · simp [giveBack, hdec, hz.ne', hr.ne', pieces_pos]

end Statistics

end Rtems.Heap
