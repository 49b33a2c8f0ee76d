import Rtems.Heap.Free

/-!
# Resizing

The block of the area is joined with a free block behind it, and then it is cut
as for an allocation.  The room for the area is counted from its begin, which
must not lie behind the end of its block.
-/

namespace Rtems.Heap

open Lib

variable {s s' : State} {as bs ds all : List Block} {b n : Block} {g : Geometry}
  {x y r p size newSize : Nat}

/-! ## Joining the block behind -/

/-- The block at `x` has this size now, the free block at `y` is gone, and the block at `z` knows
that the block before it is used. -/
def absorb (s : State) (x y z size r : Nat) : State :=
  let s := freeListRemove (blockSetSize s x size) (.block y)
  (s.setSizeAndFlag z (flagSet (s.sizeAndFlag z))).setStats (·.decFreeBlocks.subFreeSize r)

theorem Formed.opened_absorb (h : Formed s (as ++ ⟨x, size, true⟩ :: ⟨y, r, false⟩ :: n :: ds)) :
    Opened (absorb s x y n.begin (size + r) r) as x (size + r) n ds ∧
      Heap.isPrevUsed (absorb s x y n.begin (size + r) r) n.begin = true := by
  have hlayout : Layout s.geometry (as ++ ⟨x, size, true⟩ :: ([⟨y, r, false⟩] ++ n :: ds)) := h.layout
  have hx : (⟨x, size, true⟩ : Block) ∈ as ++ ⟨x, size, true⟩ :: ([⟨y, r, false⟩] ++ n :: ds) := by
    simp
  have hy : (⟨y, r, false⟩ : Block) ∈ as ++ ⟨x, size, true⟩ :: ([⟨y, r, false⟩] ++ n :: ds) := by
    simp
  have hn : n ∈ as ++ ⟨x, size, true⟩ :: ([⟨y, r, false⟩] ++ n :: ds) := by simp
  have hsplit : Formed s ((as ++ [⟨x, size, true⟩]) ++ ⟨y, r, false⟩ :: n :: ds) := by simpa using h
  have hbehind : Layout s.geometry ((as ++ [⟨x, size, true⟩, ⟨y, r, false⟩]) ++ n :: ds) := by
    simpa using h.layout
  obtain ⟨hnext, -, -, hdvd, hmin, -⟩ := h.layout.inner
  obtain ⟨hnext', -, -, hdvd', -, -⟩ := hsplit.layout.inner
  simp only at hnext hnext' hdvd hdvd' hmin
  have hpos := (h.layout.tiles.mem hx).2.1
  have hpos' := (h.layout.tiles.mem hy).2.1
  simp only at hpos hpos'
  have heven : 2 ∣ size + r := (hlayout.even hx).add (hlayout.even hy)
  have hnEven : 2 ∣ n.size := hlayout.even hn
  obtain ⟨has, hb, hrest⟩ := tagged_append.mp h.tagged
  obtain ⟨hyTag, hnTag, hds⟩ := hrest
  have hnx : n.begin ≠ x := by omega
  have hwordN : s.sizeAndFlag n.begin = n.size := hnTag.word
  have hprev : Heap.isPrevUsed s x = (gapBehind none as).isNone := hb.isPrevUsed (hlayout.even hx)
  have hgeom : (absorb s x y n.begin (size + r) r).geometry = s.geometry := rfl
  have hsame : SameOutside s (absorb s x y n.begin (size + r) r) x n.begin := by
    intro w hw
    have hwx : w ≠ x := by omega
    have hwn : w ≠ n.begin := by omega
    simp [Heap.absorb, hwx, hwn]
  have hlast : (absorb s x y n.begin (size + r) r).sizeAndFlag n.begin = n.size + 1 := by
    simp [Heap.absorb, hnx, hwordN, flagSet_even hnEven]
  refine ⟨⟨?_, ?_, ?_, ?_, ?_⟩, ?_⟩
  · rw [hgeom]
    have hsum : x + (size + r) = n.begin := by omega
    have hsumPos : 0 < size + r := by omega
    have hsumMin : s.geometry.minBlockSize ≤ size + r := by omega
    have hexchange := hlayout.exchange [⟨x, size + r, true⟩] ⟨rfl, hsumPos, hsum⟩
      (by simpa using ⟨hdvd.add hdvd', hsumMin⟩)
    simpa using hexchange
  · refine tagged_append.mpr ⟨has.before hlayout hsame, ⟨?_, ?_⟩, trivial⟩
    · cases hgap : gapBehind none as with
      | none =>
        rw [hgap] at hprev
        simp [Heap.absorb, Function.update_of_ne hnx.symm, hprev, flagSet_even heven, flagOf]
      | some m =>
        rw [hgap] at hprev
        simp [Heap.absorb, Function.update_of_ne hnx.symm, hprev, flagOf]
    · intro m hm
      exact ⟨(hb.behind m hm).1, rfl⟩
  · exact ⟨1, Nat.le_refl 1, hlast⟩
  · exact hds.after hbehind hsame
  · apply FreeList.remove
    refine h.freeList.perm ?_
    simp
  · rw [Heap.isPrevUsed, hlast]
    simp only [decide_eq_true_eq]
    omega

/-! ## Cutting the block of the area -/

theorem blockAllocate_used (hfree : isFree s x = false)
    (hoffset : sub32 p (allocAreaOfBlock x) < s.pageSize) :
    blockAllocate s x p newSize =
      ((blockSplit s x .freeList (add32 newSize (sub32 p (allocAreaOfBlock x)))).setStats
        (·.updateMinFreeSize), x) := by
  simp [blockAllocate, hfree, hoffset]

/-- The part of the block that the area needs at its new size. -/
def keptSize (g : Geometry) (x size p newSize : Nat) : Nat :=
  cutSize g size (newSize + (p - (x + blockHeaderSize)))

/-- The block of the area is split behind its first bytes and the area. -/
theorem Opened.blockAllocate_area (h : Opened s as x size n ds) (hflag : isPrevUsed s n.begin = true)
    (hblock : alignDown p s.pageSize = x + blockHeaderSize)
    (hfits : p + newSize ≤ x + size + allocBonus) :
    newSize + (p - (x + blockHeaderSize)) + allocBonus ≤ size ∧
      blockAllocate s x p newSize =
        ((blockSplit s x .freeList (newSize + (p - (x + blockHeaderSize)))).setStats
          (·.updateMinFreeSize), x) := by
  obtain ⟨hheader, hbonus⟩ := headerSizes
  have hpage : 0 < s.pageSize := h.layout.page_pos
  have hple : x + blockHeaderSize ≤ p := hblock ▸ alignDown_le p s.pageSize
  have hplt : p < x + blockHeaderSize + s.pageSize := hblock ▸ lt_alignDown_add hpage
  obtain ⟨hnext, -, hle, -, -, -⟩ := h.layout.inner
  have hlast := h.layout.fits
  simp only at hnext
  have harea : allocAreaOfBlock x = x + blockHeaderSize := add32_of_lt (by omega)
  have hoffset : sub32 p (x + blockHeaderSize) = p - (x + blockHeaderSize) :=
    sub32_of_le hple (by omega)
  have hsum : add32 newSize (p - (x + blockHeaderSize)) = newSize + (p - (x + blockHeaderSize)) :=
    add32_of_lt (by omega)
  have hfree : isFree s x = false := by
    rw [isFree, isUsed, h.blockSize, h.blockAt_next, hflag]
    rfl
  have hlt : sub32 p (allocAreaOfBlock x) < s.pageSize := by
    rw [harea, hoffset]
    omega
  rw [blockAllocate_used hfree hlt, harea, hoffset, hsum]
  exact ⟨by omega, rfl⟩

/-- The area is cut to its new size. -/
theorem Opened.cutArea (h : Opened s as x size n ds) (hn : n.used = true)
    (hflag : isPrevUsed s n.begin = true)
    (hblock : alignDown p s.pageSize = x + blockHeaderSize)
    (hfits : p + newSize ≤ x + size + allocBonus) :
    let u := keptSize s.geometry x size p newSize
    ∃ s', blockAllocate s x p newSize = (s', x) ∧
      Formed s' (as ++ ⟨x, u, true⟩ :: (remnant (x + u) (size - u) ++ n :: ds)) ∧
      s'.geometry = s.geometry ∧ s'.stats = (s.stats.leave (size - u)).updateMinFreeSize ∧
      u ≤ size ∧ p + newSize ≤ x + u + allocBonus := by
  have hple : x + blockHeaderSize ≤ p := hblock ▸ alignDown_le p s.pageSize
  obtain ⟨hrequest, hallocate⟩ := h.blockAllocate_area hflag hblock hfits
  have hanchor : Pointer.freeList ∈ Pointer.freeList :: (frees as ++ frees (n :: ds)).map .block := by
    simp
  obtain ⟨hformed, hstats, hu, hused⟩ := h.split hn hrequest hanchor
  rw [hallocate]
  refine ⟨_, rfl, hformed.setStats _, by simp, ?_, hu, ?_⟩
  · simp only [stats_setStats, hstats]
    rfl
  · have hrequestUsed : newSize + (p - (x + blockHeaderSize)) + blockHeaderSize ≤
        usedSize s.geometry (newSize + (p - (x + blockHeaderSize))) := by
      simp only [usedSize]
      omega
    simp only [keptSize]
    omega

/-! ## The test of the size -/

/-- The size of the area as the code counts it. -/
def countedSize (x size p : Nat) : Nat := add32 (sub32 (x + size) p) allocBonus

/-- The room for the area as the code counts it, with `r` free bytes behind the block. -/
def countedRoom (x size r p : Nat) : Nat :=
  if r = 0 then countedSize x size p else add32 (countedSize x size p) r

/-- The free block behind the block of the area is joined with it. -/
def withNext (s : State) (x size r : Nat) : State :=
  if r = 0 then s else absorb s x (x + size) (x + size + r) (size + r) r

theorem resizeBlock_eq
    (h : Formed s (as ++ ⟨x, size, true⟩ :: (remnant (x + size) r ++ n :: ds)))
    (hn : n.used = true) (hblock : alignDown p s.pageSize = x + blockHeaderSize) :
    resizeBlock s p newSize =
      if newSize > countedRoom x size r p then (s, .unsatisfied, countedSize x size p, 0)
      else
        let s' := (blockAllocate (withNext s x size r) x p newSize).1
        let block := (blockAllocate (withNext s x size r) x p newSize).2
        (s'.setStats (·.countResize), .successful, countedSize x size p,
          add32 (sub32 (blockAt block (blockSize s' block)) p) allocBonus) := by
  have hmem : (⟨x, size, true⟩ : Block) ∈
      as ++ ⟨x, size, true⟩ :: (remnant (x + size) r ++ n :: ds) := by simp
  have hnmem : n ∈ as ++ ⟨x, size, true⟩ :: (remnant (x + size) r ++ n :: ds) := by simp
  have hbehind := h.behindIt hn
  have hin : isBlockInHeap s x = true := isBlockInHeap_eq h.layout hmem
  have hsize : blockSize s x = size := h.blockSize hmem
  have hfits := h.layout.fits
  have hle := (h.layout.begin_le hnmem).2
  have hlast := hbehind.last
  have harea : blockOfAllocArea p s.pageSize = x := blockOfAllocArea_eq hblock (by omega)
  have hnext : blockAt x size = x + size := add32_of_lt (by omega)
  have hend : add32 x size = x + size := hnext
  rcases Nat.eq_zero_or_pos r with rfl | hr
  · have hnext' : x + size = n.begin := by omega
    have hfree : isFree s (x + size) = false := by
      rw [isFree, hnext', h.isUsed hnmem, hn]
      rfl
    simp only [resizeBlock, harea, hin, if_true, resizeBlockChecked, hsize, hnext, hend, hfree,
      Bool.false_eq_true, if_false, countedRoom, withNext]
    rfl
  · have hy : (⟨x + size, r, false⟩ : Block) ∈
        as ++ ⟨x, size, true⟩ :: (remnant (x + size) r ++ n :: ds) := by
      simp [remnant_pos hr.ne']
    have hfree : isFree s (x + size) = true := by
      have hused := h.isUsed hy
      simp only at hused
      rw [isFree, hused]
      rfl
    have hnextSize : blockSize s (x + size) = r := h.blockSize hy
    have hsum : add32 size r = size + r := add32_of_lt (by omega)
    have hfar : blockAt x (size + r) = x + size + r := by
      rw [blockAt, add32_of_lt (by omega), Nat.add_assoc]
    simp only [resizeBlock, harea, hin, if_true, resizeBlockChecked, hsize, hnext, hend, hfree,
      hnextSize, hsum, hfar, countedRoom, withNext, hr.ne', if_false]
    rfl

/-! ## The new size -/

theorem countedSize_eq (hp : p ≤ x + size + allocBonus) (hbound : x + size + allocBonus < 2 ^ 32) :
    countedSize x size p = x + size + allocBonus - p := by
  simp only [countedSize, add32, sub32, allocBonus] at *
  omega

theorem countedRoom_eq (hp : p ≤ x + size + allocBonus)
    (hbound : x + size + r + allocBonus < 2 ^ 32) :
    countedRoom x size r p = x + size + r + allocBonus - p := by
  rw [countedRoom, countedSize_eq hp (by omega)]
  split
  · omega
  · rw [add32_of_lt (by omega)]
    omega

theorem Formed.withNext (h : Formed s (as ++ ⟨x, size, true⟩ :: (remnant (x + size) r ++ n :: ds)))
    (hn : n.used = true) :
    Opened (withNext s x size r) as x (size + r) n ds ∧
      Heap.isPrevUsed (Heap.withNext s x size r) n.begin = true ∧
      (Heap.withNext s x size r).geometry = s.geometry ∧
      (Heap.withNext s x size r).stats = s.stats.takeNext r := by
  have hlast := (h.behindIt hn).last
  rcases Nat.eq_zero_or_pos r with rfl | hr
  · have hsplit : Formed s ((as ++ [⟨x, size, true⟩]) ++ n :: ds) := by simpa using h
    have hflag := hsplit.isPrevUsed
    rw [gapBehind_concat] at hflag
    exact ⟨Formed.takeUsed h, hflag, rfl, rfl⟩
  · rw [remnant_pos hr.ne'] at h
    obtain ⟨hopened, hflag⟩ := Formed.opened_absorb h
    rw [Heap.withNext, if_neg hr.ne', hlast, Statistics.takeNext, if_neg hr.ne']
    exact ⟨hopened, hflag, rfl, rfl⟩

/-- The area gets a size for which there is room. -/
theorem Formed.resize_fits
    (h : Formed s (as ++ ⟨x, size, true⟩ :: (remnant (x + size) r ++ n :: ds)))
    (hn : n.used = true) (hblock : alignDown p s.pageSize = x + blockHeaderSize)
    (hp : p ≤ x + size + allocBonus) (hfits : p + newSize ≤ x + size + r + allocBonus) :
    let u := keptSize s.geometry x (size + r) p newSize
    ∃ s', resizeBlock s p newSize =
        (s', .successful, x + size + allocBonus - p, x + u + allocBonus - p) ∧
      Formed s' (as ++ ⟨x, u, true⟩ :: (remnant (x + u) (size + r - u) ++ n :: ds)) ∧
      s'.geometry = s.geometry ∧
      s'.stats =
        ((s.stats.takeNext r).leave (size + r - u)).updateMinFreeSize.countResize ∧
      u ≤ size + r ∧ p + newSize ≤ x + u + allocBonus := by
  obtain ⟨hheader, hbonus⟩ := headerSizes
  have hnmem : n ∈ as ++ ⟨x, size, true⟩ :: (remnant (x + size) r ++ n :: ds) := by simp
  have hlast := (h.behindIt hn).last
  have hbound := h.layout.fits
  have hle := (h.layout.begin_le hnmem).2
  obtain ⟨hopened, hflag, hgeom, hstats⟩ := h.withNext hn
  have hfits' : p + newSize ≤ x + (size + r) + allocBonus := by omega
  have hpage : (Heap.withNext s x size r).pageSize = s.pageSize := congrArg Geometry.pageSize hgeom
  obtain ⟨s', heq, hformed, hgeom', hstats', hu, huse⟩ :=
    hopened.cutArea hn hflag (hpage ▸ hblock) hfits'
  rw [hgeom] at hformed hstats' hu huse hgeom'
  generalize hkept : keptSize s.geometry x (size + r) p newSize = u at *
  have hsize : Heap.blockSize s' x = u := hformed.blockSize (b := ⟨x, u, true⟩) (by simp)
  have hend : blockAt x u = x + u := add32_of_lt (by omega)
  have hroom : countedRoom x size r p = x + size + r + allocBonus - p :=
    countedRoom_eq hp (by omega)
  have hold : countedSize x size p = x + size + allocBonus - p := countedSize_eq hp (by omega)
  have hnew : add32 (sub32 (x + u) p) allocBonus = x + u + allocBonus - p :=
    countedSize_eq (by omega) (by omega)
  refine ⟨s'.setStats (·.countResize), ?_, hformed.setStats _, hgeom', ?_, hu, huse⟩
  · rw [resizeBlock_eq h hn hblock, if_neg (by omega)]
    simp only [heq, hsize, hend, hold, hnew]
  · rw [stats_setStats, hstats', hstats]

/-- The area keeps its size if there is no room. -/
theorem Formed.resize_refused
    (h : Formed s (as ++ ⟨x, size, true⟩ :: (remnant (x + size) r ++ n :: ds)))
    (hn : n.used = true) (hblock : alignDown p s.pageSize = x + blockHeaderSize)
    (hfits : countedRoom x size r p < newSize) :
    resizeBlock s p newSize = (s, .unsatisfied, countedSize x size p, 0) := by
  rw [resizeBlock_eq h hn hblock, if_pos hfits]

/-! ## What resizing should do -/

/-- The size of the free block that begins at `y`, and zero if there is none. -/
def freeBehind (bs : List Block) (y : Nat) : Nat :=
  ((bs.find? fun c => c.begin = y ∧ c.used = false).map Block.size).getD 0

/-- The end of the room for an area in the block `b`. -/
def roomEnd (bs : List Block) (b : Block) : Nat :=
  b.begin + b.size + freeBehind bs (b.begin + b.size) + allocBonus

/-- What is said of `_Heap_Resize_block`, for the area at `p` in the block `b`. -/
structure Resized (s : State) (bs : List Block) (b : Block) (p newSize : Nat) : Prop where
  status : (resizeBlock s p newSize).2.1 = .successful ↔ p + newSize ≤ roomEnd bs b
  success : p + newSize ≤ roomEnd bs b → ∃ s' bs' u oldSize size,
    resizeBlock s p newSize = (s', .successful, oldSize, size) ∧
      WellFormed s' bs' ∧ s'.geometry = s.geometry ∧ ⟨b.begin, u, true⟩ ∈ bs' ∧
      p + newSize ≤ b.begin + u + allocBonus ∧ p + oldSize = b.begin + b.size + allocBonus ∧
      p + size = b.begin + u + allocBonus ∧
      ∀ c, c.used = true → c.begin ≠ b.begin → (c ∈ bs' ↔ c ∈ bs)
  refusal : ¬ p + newSize ≤ roomEnd bs b →
    (resizeBlock s p newSize).1 = s ∧ (resizeBlock s p newSize).2.1 = .unsatisfied

theorem Layout.freeBehind_eq
    (h : Layout g (as ++ ⟨x, size, true⟩ :: (remnant (x + size) r ++ n :: ds))) (hn : n.used = true) :
    freeBehind (as ++ ⟨x, size, true⟩ :: (remnant (x + size) r ++ n :: ds)) (x + size) = r := by
  rcases Nat.eq_zero_or_pos r with rfl | hr
  · have hnext : x + size = n.begin := h.inner.next
    have hnone : (as ++ ⟨x, size, true⟩ :: (remnant (x + size) 0 ++ n :: ds)).find?
        (fun c => c.begin = x + size ∧ c.used = false) = none := by
      apply List.find?_eq_none.mpr
      intro c hc hfound
      obtain ⟨hbegin, hused⟩ := of_decide_eq_true hfound
      have hcn : c = n := h.tiles.inj hc (by simp) (hbegin.trans hnext)
      rw [hcn, hn] at hused
      exact absurd hused.symm Bool.false_ne_true
    rw [freeBehind, hnone]
    rfl
  · have hmem : (⟨x + size, r, false⟩ : Block) ∈
        as ++ ⟨x, size, true⟩ :: (remnant (x + size) r ++ n :: ds) := by
      simp [remnant_pos hr.ne']
    rw [freeBehind]
    cases hfind : (as ++ ⟨x, size, true⟩ :: (remnant (x + size) r ++ n :: ds)).find?
        (fun c => c.begin = x + size ∧ c.used = false) with
    | none =>
      have hnot := List.find?_eq_none.mp hfind _ hmem
      simp at hnot
    | some c =>
      have hfound := List.find?_some hfind
      obtain ⟨hbegin, -⟩ := of_decide_eq_true hfound
      have hc : c = ⟨x + size, r, false⟩ := h.tiles.inj (List.mem_of_find?_eq_some hfind) hmem hbegin
      rw [hc]
      rfl

/-- The last block is not free. -/
theorem freeBehind_init (bs : List Block) : freeBehind (bs ++ [g.endBlock]) y = freeBehind bs y := by
  have hlast : [g.endBlock].find? (fun c => c.begin = y ∧ c.used = false) = none := by
    simp [Geometry.endBlock]
  rw [freeBehind, List.find?_append, hlast, Option.or_none, freeBehind]

theorem WellFormed.mem_iff (h : WellFormed s bs) :
    b ∈ bs ↔ b ∈ bs ++ [s.geometry.endBlock] ∧ b ≠ s.geometry.endBlock := by
  have hnodup := Tiles.nodup h.layout.tiles
  constructor
  · intro hb
    exact ⟨List.mem_append_left _ hb,
      (List.nodup_append.mp hnodup).2.2 b hb _ (List.mem_singleton_self _)⟩
  · rintro ⟨hb, hne⟩
    rcases List.mem_append.mp hb with hinit | hlast
    · exact hinit
    · exact absurd (List.mem_singleton.mp hlast) hne

theorem notMem_remnant (hb : b.used = true) : b ∉ remnant x r := by
  intro hmem
  rcases Nat.eq_zero_or_pos r with rfl | hr
  · cases hmem
  · rw [remnant_pos hr.ne', List.mem_singleton] at hmem
    rw [hmem] at hb
    cases hb

/-- A block that is not the last one, and what is behind it. -/
theorem WellFormed.exists_room (h : WellFormed s bs) (hb : b ∈ bs) :
    ∃ as r n ds, bs ++ [s.geometry.endBlock] =
        as ++ b :: (remnant (b.begin + b.size) r ++ n :: ds) ∧ n.used = true := by
  obtain ⟨hmem, hne⟩ := h.mem_iff.mp hb
  exact Formed.exists_behind h hmem hne

/-- The resizing of an area that begins in its block does what is said. -/
theorem WellFormed.resized (h : WellFormed s bs) (hb : b ∈ bs) (hused : b.used = true)
    (hblock : alignDown p s.pageSize = b.begin + blockHeaderSize)
    (hp : p ≤ b.begin + b.size + allocBonus) : Resized s bs b p newSize := by
  obtain ⟨hheader, hbonus⟩ := headerSizes
  obtain ⟨as, r, n, ds, hall, hn⟩ := h.exists_room hb
  obtain ⟨x, size, used⟩ := b
  simp only at hused hblock hp hall
  subst hused
  have hformed := h
  rw [WellFormed, hall] at hformed
  have hfree : freeBehind bs (x + size) = r := by
    have hlist := hformed.layout.freeBehind_eq hn
    rwa [← hall, freeBehind_init] at hlist
  have hend : roomEnd bs ⟨x, size, true⟩ = x + size + r + allocBonus := by rw [roomEnd, hfree]
  have hbound : x + size + r + allocBonus < 2 ^ 32 := by
    have hnmem : n ∈ as ++ ⟨x, size, true⟩ :: (remnant (x + size) r ++ n :: ds) := by simp
    have hlast := (hformed.behindIt hn).last
    have hfits := hformed.layout.fits
    have hle := (hformed.layout.begin_le hnmem).2
    omega
  have hrefused : ¬ p + newSize ≤ x + size + r + allocBonus →
      resizeBlock s p newSize = (s, .unsatisfied, countedSize x size p, 0) := by
    intro hover
    apply hformed.resize_refused hn hblock
    rw [countedRoom_eq hp hbound]
    omega
  have hsuccess : p + newSize ≤ x + size + r + allocBonus → _ :=
    fun hfits => hformed.resize_fits hn hblock hp hfits
  refine ⟨?_, ?_, ?_⟩
  · rw [hend]
    constructor
    · intro hstatus
      by_contra hover
      rw [hrefused hover] at hstatus
      cases hstatus
    · intro hfits
      obtain ⟨s', heq, -⟩ := hsuccess hfits
      rw [heq]
  · rw [hend]
    intro hfits
    obtain ⟨s', heq, hformed', hgeom, -, hu, huse⟩ := hsuccess hfits
    generalize keptSize s.geometry x (size + r) p newSize = u at *
    obtain ⟨bs', hall'⟩ := hformed'.layout.exists_init
    have hwell : WellFormed s' bs' := by
      rw [WellFormed, ← hall']
      exact hformed'
    have hmem' : ∀ c, c ∈ bs' ↔ c ∈ as ++ ⟨x, u, true⟩ ::
        (remnant (x + u) (size + r - u) ++ n :: ds) ∧ c ≠ s.geometry.endBlock := by
      intro c
      rw [hwell.mem_iff, ← hall', hgeom]
    have hmem : ∀ c, c ∈ bs ↔ c ∈ as ++ ⟨x, size, true⟩ :: (remnant (x + size) r ++ n :: ds) ∧
        c ≠ s.geometry.endBlock := by
      intro c
      rw [h.mem_iff, hall]
    have hnotEnd : (⟨x, u, true⟩ : Block) ≠ s.geometry.endBlock := by
      intro heqEnd
      have hbegin : x = s.geometry.lastBlock := congrArg Block.begin heqEnd
      have hmemAll : (⟨x, size, true⟩ : Block) ∈
          as ++ ⟨x, size, true⟩ :: (remnant (x + size) r ++ n :: ds) := by simp
      have hnmem : n ∈ as ++ ⟨x, size, true⟩ :: (remnant (x + size) r ++ n :: ds) := by simp
      have hpos := (hformed.layout.tiles.mem hmemAll).2.1
      have hlast := (hformed.behindIt hn).last
      have hle := (hformed.layout.begin_le hnmem).2
      simp only at hpos
      omega
    have hold : p + (x + size + allocBonus - p) = x + size + allocBonus := by omega
    have hnew : p + (x + u + allocBonus - p) = x + u + allocBonus := by omega
    refine ⟨s', bs', u, _, _, heq, hwell, hgeom, ?_, huse, hold, hnew, ?_⟩
    · rw [hmem']
      exact ⟨by simp, hnotEnd⟩
    · intro c hc hbegin
      have hcx : c ≠ ⟨x, size, true⟩ := by
        rintro rfl
        exact hbegin rfl
      have hcu : c ≠ ⟨x, u, true⟩ := by
        rintro rfl
        exact hbegin rfl
      rw [hmem, hmem']
      simp [hcx, hcu, notMem_remnant hc]
  · rw [hend]
    intro hover
    rw [hrefused hover]
    exact ⟨rfl, rfl⟩

/-! ## Areas that begin behind their block -/

/-- There is no room for the area even if its size is counted around all addresses. -/
def Hopeless (bs : List Block) (b : Block) (p newSize : Nat) : Prop :=
  if freeBehind bs (b.begin + b.size) = 0 then roomEnd bs b + 2 ^ 32 < p + newSize
  else roomEnd bs b < p + newSize

/-- The size of an area that begins behind its block is counted around all addresses, unless a free
block behind makes up for it. -/
theorem countedRoom_behind (hp : ¬ p ≤ x + size + allocBonus) (hpmax : p ≤ x + size + blockHeaderSize)
    (hr : r = 0 ∨ 16 ≤ r) (hbound : x + size + r + blockHeaderSize < 2 ^ 32) :
    countedRoom x size r p = if r = 0 then x + size + r + allocBonus + 2 ^ 32 - p
      else x + size + r + allocBonus - p := by
  simp only [countedRoom, countedSize, add32, sub32, allocBonus, blockHeaderSize] at *
  rcases hr with rfl | hr
  · simp only [if_true]
    omega
  · rw [if_neg (by omega), if_neg (by omega)]
    omega

/-- Resizing is right exactly for areas that do not begin behind their block, and where the area
stays as it is because the new size is out of reach. -/
theorem resizeBlock_iff {s : State} {bs : List Block} {b : Block} {p : Nat} (h : WellFormed s bs)
    (hb : b ∈ bs) (hused : b.used = true)
    (hblock : alignDown p s.pageSize = b.begin + blockHeaderSize) (newSize : Nat) :
    Resized s bs b p newSize ↔
      p ≤ b.begin + b.size + allocBonus ∨ Hopeless bs b p newSize := by
  by_cases hp : p ≤ b.begin + b.size + allocBonus
  · exact ⟨fun _ => .inl hp, fun _ => h.resized hb hused hblock hp⟩
  · obtain ⟨hheader, hbonus⟩ := headerSizes
    obtain ⟨as, r, n, ds, hall, hn⟩ := h.exists_room hb
    obtain ⟨x, size, used⟩ := b
    simp only at hused hblock hp hall ⊢
    subst hused
    have hformed := h
    rw [WellFormed, hall] at hformed
    have hfree : freeBehind bs (x + size) = r := by
      have hlist := hformed.layout.freeBehind_eq hn
      rwa [← hall, freeBehind_init] at hlist
    have hend : roomEnd bs ⟨x, size, true⟩ = x + size + r + allocBonus := by rw [roomEnd, hfree]
    have hmem : (⟨x, size, true⟩ : Block) ∈
        as ++ ⟨x, size, true⟩ :: (remnant (x + size) r ++ n :: ds) := by simp
    have hnmem : n ∈ as ++ ⟨x, size, true⟩ :: (remnant (x + size) r ++ n :: ds) := by simp
    have hpos := (hformed.layout.tiles.mem hmem).2.1
    have hlast := (hformed.behindIt hn).last
    have hfits := hformed.layout.fits
    have hle := (hformed.layout.begin_le hnmem).2
    obtain ⟨hsixteen, hpageMin, -⟩ := hformed.layout.min_spec
    simp only at hpos
    have hsizes := hformed.layout.sizes _ hmem (by simp only; omega)
    have hpage : 0 < s.pageSize := hformed.layout.page_pos
    have hplt : p < x + blockHeaderSize + s.pageSize := hblock ▸ lt_alignDown_add hpage
    have hpageGeom : s.geometry.pageSize = s.pageSize := rfl
    simp only at hsizes
    have hr : r = 0 ∨ 16 ≤ r := by
      rcases Nat.eq_zero_or_pos r with hzero | hrpos
      · exact .inl hzero
      · have hy : (⟨x + size, r, false⟩ : Block) ∈
            as ++ ⟨x, size, true⟩ :: (remnant (x + size) r ++ n :: ds) := by
          simp [remnant_pos hrpos.ne']
        have hrest := hformed.layout.sizes _ hy (by simp only; omega)
        simp only at hrest
        exact .inr (by omega)
    have hroom := countedRoom_behind hp (by omega) hr (by omega)
    have hhopeless : Hopeless bs ⟨x, size, true⟩ p newSize ↔ countedRoom x size r p < newSize := by
      simp only [Hopeless, hfree, hend, hroom]
      split <;> omega
    simp only [hp, false_or, hhopeless]
    constructor
    · intro hresized
      by_contra hfew
      have heq : resizeBlock s p newSize = _ := resizeBlock_eq hformed hn hblock
      rw [if_neg hfew] at heq
      have hstatus : (resizeBlock s p newSize).2.1 = .successful := by rw [heq]
      obtain ⟨s', bs', u, oldSize, size', -, -, -, -, -, hold, -⟩ :=
        hresized.success (hresized.status.mp hstatus)
      simp only at hold
      omega
    · intro hfew
      have heq := hformed.resize_refused hn hblock hfew
      have hover : ¬ p + newSize ≤ x + size + r + allocBonus := by
        rw [hroom] at hfew
        split at hfew <;> omega
      refine ⟨?_, ?_, ?_⟩
      · rw [heq, hend]
        simp [hover]
      · rw [hend]
        exact fun hfits => absurd hfits hover
      · rw [heq]
        exact fun _ => ⟨rfl, rfl⟩

/-- A heap of three pages of 16 bytes. -/
def tiny : State := (initializeHeap blank 1000 56 16).1

theorem tiny_wellFormed : WellFormed tiny [⟨1000, 48, false⟩] := by
  have hroom : AreaLayout 1000 56 16 (minBlockSizeOf 16) 1000 1048 := by
    refine ⟨?_, ?_, ?_, ?_, ?_, ?_⟩ <;> decide
  have htiny : tiny = initialized blank 1000 1056 16 1000 1048 := rfl
  rw [htiny]
  exact initialized_wellFormed 1056 (by decide) (by decide) (by decide) (by decide) hroom

/-- An area that is aligned to a multiple of 61 begins behind the end of its block. -/
theorem tiny_allocated {allocSize : Nat} (hsize : allocSize ≤ 1) :
    ∃ s, allocateAlignedWithBoundary 2 tiny allocSize 61 0 = some (s, 1037) ∧
      s.geometry = tiny.geometry ∧
      WellFormed s [⟨1000, 16, false⟩, ⟨1016, 16, true⟩, ⟨1032, 16, false⟩] := by
  have hrun : (allocateAlignedWithBoundary 2 tiny allocSize 61 0).map (·.2) = some 1037 := by
    interval_cases allocSize <;> decide
  have hcutSize : cutSize tiny.geometry (48 - 16) (splitRequest 1000 16 1037 allocSize) = 16 := by
    interval_cases allocSize <;> decide
  obtain ⟨⟨s, p⟩, heq, rfl⟩ := Option.map_eq_some_iff.mp hrun
  refine ⟨s, heq, ?_⟩
  have hplaced : Placed tiny.geometry 1000 48 1037 allocSize 16 :=
    ⟨by decide, by decide, by simp only [allocBonus]; omega⟩
  have hformed : Formed tiny ([] ++ ⟨1000, 48, false⟩ :: tiny.geometry.endBlock :: []) :=
    tiny_wellFormed
  obtain ⟨s', hcut, hformed', -, hgeom, -⟩ := hformed.blockAllocate hplaced
  rw [hcutSize] at hformed'
  rcases hformed.allocateAligned heq with ⟨hzero, -⟩ | ⟨-, as, x, size, n, ds, hall, hserved⟩
  · cases hzero
  · obtain ⟨f, rfl, -⟩ := hserved.result
    cases as with
    | nil =>
      cases hall
      rw [hcut]
      refine ⟨hgeom, ?_⟩
      have hend : (s'.setStats f).geometry = tiny.geometry := hgeom
      rw [WellFormed, hend]
      exact hformed'.setStats f
    | cons c as =>
      have hlength := congrArg List.length hall
      simp at hlength
      omega

theorem resizeBlock_iff_tiny : ∃ s, allocateAlignedWithBoundary 2 tiny 0 61 0 = some (s, 1037) ∧
    (Resized s [⟨1000, 16, false⟩, ⟨1016, 16, true⟩, ⟨1032, 16, false⟩] ⟨1016, 16, true⟩ 1037 4 ↔
      1037 ≤ 1016 + 16 + allocBonus ∨
        Hopeless [⟨1000, 16, false⟩, ⟨1016, 16, true⟩, ⟨1032, 16, false⟩] ⟨1016, 16, true⟩ 1037 4) := by
  obtain ⟨s, heq, hgeom, hwell⟩ := tiny_allocated (Nat.zero_le 1)
  have hpage : s.pageSize = 16 := congrArg Geometry.pageSize hgeom
  refine ⟨s, heq, resizeBlock_iff hwell (by decide) rfl ?_ 4⟩
  rw [hpage]
  decide

/-- The old size is reported as the greatest number, although the area begins behind its block. -/
theorem resizeBlock_behind : ∃ s bs b, allocateAlignedWithBoundary 2 tiny 0 61 0 = some (s, 1037) ∧
    WellFormed s bs ∧ b ∈ bs ∧ b.used = true ∧
    alignDown 1037 s.pageSize = b.begin + blockHeaderSize ∧ ¬ Resized s bs b 1037 0 := by
  obtain ⟨s, heq, hgeom, hwell⟩ := tiny_allocated (Nat.zero_le 1)
  have hpage : s.pageSize = 16 := congrArg Geometry.pageSize hgeom
  refine ⟨s, _, ⟨1016, 16, true⟩, heq, hwell, by decide, rfl, ?_, ?_⟩
  · rw [hpage]
    decide
  · intro hresized
    obtain ⟨s', bs', u, oldSize, size, -, -, -, -, -, hold, -⟩ := hresized.success (by decide)
    simp only [allocBonus] at hold
    omega

end Rtems.Heap
