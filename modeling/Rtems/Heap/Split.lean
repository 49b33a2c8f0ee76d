import Rtems.Heap.Layout
import Rtems.Heap.Statistics

/-!
# Blocks in hand

An allocation takes a block out of the heap, cuts a part off its front that stays
free, and gives back what is left over behind the area.  While the block is in
hand it counts as used, but the block behind it does not know this yet.
-/

namespace Rtems.Heap

open Lib

variable {s s' : State} {p : Option Nat} {as bs ds all : List Block} {a b n : Block}
  {x y size allocSize : Nat} {anchor : Pointer} {g : Geometry}

/-- The block at `x` is in hand, between the blocks `as` and `n :: ds`. -/
structure Opened (s : State) (as : List Block) (x size : Nat) (n : Block) (ds : List Block) :
    Prop where
  layout : Layout s.geometry (as ++ ⟨x, size, true⟩ :: n :: ds)
  tagged : Tagged s none (as ++ [⟨x, size, true⟩])
  next : ∃ f ≤ 1, s.sizeAndFlag n.begin = n.size + f
  behind : Tagged s n.gap ds
  freeList : FreeList s.links (frees as ++ frees (n :: ds))

theorem Opened.setStats (h : Opened s as x size n ds) (f : Statistics → Statistics) :
    Opened (s.setStats f) as x size n ds :=
  ⟨h.layout, h.tagged.congr (fun _ _ => rfl) (fun _ _ => rfl), h.next,
    h.behind.congr (fun _ _ => rfl) (fun _ _ => rfl), h.freeList⟩

/-- The headers are the same outside of these addresses. -/
def SameOutside (s s' : State) (lo hi : Nat) : Prop :=
  ∀ y, y < lo ∨ hi < y → s'.sizeAndFlag y = s.sizeAndFlag y ∧ s'.prevSize y = s.prevSize y

theorem Tagged.before (h : Tagged s p as) (hl : Layout g (as ++ b :: ds))
    (hs : SameOutside s s' b.begin y) : Tagged s' p as := by
  apply h.congr
  · intro a ha
    exact (hs _ (.inl (hl.before ha))).1
  · intro a ha
    exact (hs _ (.inl (hl.before ha))).2

theorem Tagged.after (h : Tagged s p ds) (hl : Layout g (as ++ b :: ds))
    (hs : SameOutside s s' y b.begin) : Tagged s' p ds := by
  apply h.congr
  · intro a ha
    exact (hs _ (.inr (hl.behind ha))).1
  · intro a ha
    exact (hs _ (.inr (hl.behind ha))).2

theorem mem_frees : y ∈ frees bs ↔ ∃ b ∈ bs, b.used = false ∧ b.begin = y := by
  simp [frees, and_assoc]

/-- No other block begins inside a block. -/
theorem Layout.notMem_frees (h : Layout g (as ++ b :: n :: ds)) (hlo : b.begin ≤ y)
    (hhi : y < n.begin) : y ∉ frees as ++ frees (n :: ds) := by
  intro hy
  rcases List.mem_append.mp hy with hmem | hmem
  · obtain ⟨a, ha, -, rfl⟩ := mem_frees.mp hmem
    have hlt := h.before ha
    omega
  · obtain ⟨a, ha, -, rfl⟩ := mem_frees.mp hmem
    rcases List.mem_cons.mp ha with rfl | ha
    · omega
    · have hsplit : as ++ b :: n :: ds = (as ++ [b]) ++ n :: ds := by simp
      rw [hsplit] at h
      have hlt := h.behind ha
      omega

/-! ## Taking a block -/

theorem Formed.split (h : Formed s (as ++ b :: n :: ds)) :
    Tagged s none as ∧ Tag s (gapBehind none as) b ∧ Tag s b.gap n ∧ Tagged s n.gap ds := by
  obtain ⟨has, hb, hn, hds⟩ := tagged_append.mp h.tagged
  exact ⟨has, hb, hn, hds⟩

/-- A used block is taken. -/
theorem Formed.takeUsed (h : Formed s (as ++ ⟨x, size, true⟩ :: n :: ds)) :
    Opened s as x size n ds := by
  obtain ⟨has, hb, hn, hds⟩ := h.split
  refine ⟨h.layout, tagged_append.mpr ⟨has, hb, trivial⟩, ⟨1, Nat.le_refl 1, hn.word⟩, hds, ?_⟩
  simpa using h.freeList

/-- Whether a block is used does not matter for the layout. -/
theorem Layout.mark {u v : Bool} (h : Layout g (as ++ ⟨x, size, u⟩ :: n :: ds)) :
    Layout g (as ++ ⟨x, size, v⟩ :: n :: ds) := by
  have hinner := h.inner
  have hpos := (h.tiles.mem (a := ⟨x, size, u⟩) (by simp)).2.1
  have hold : Layout g (as ++ ⟨x, size, u⟩ :: ([] ++ n :: ds)) := h
  apply hold.exchange [⟨x, size, v⟩]
  · exact ⟨rfl, hpos, hinner.next⟩
  · simpa using ⟨hinner.page_dvd, hinner.min_le⟩

/-- A free block is taken off the free list. -/
theorem Formed.takeFree (h : Formed s (as ++ ⟨x, size, false⟩ :: n :: ds)) :
    Opened (freeListRemove s (.block x)) as x size n ds := by
  obtain ⟨has, hb, hn, hds⟩ := h.split
  have hfree : FreeList s.links (x :: (frees as ++ frees (n :: ds))) := by
    refine h.freeList.perm ?_
    simp
  refine ⟨h.layout.mark, ?_, ⟨0, Nat.zero_le 1, hn.word⟩, ?_, hfree.remove⟩
  · exact tagged_append.mpr ⟨has.congr (fun _ _ => rfl) (fun _ _ => rfl),
      ⟨hb.word, fun m hm => ⟨(hb.behind m hm).1, rfl⟩⟩, trivial⟩
  · exact hds.congr (fun _ _ => rfl) (fun _ _ => rfl)

/-- The block before a free block in the free list. -/
theorem Formed.prev_mem (h : Formed s (as ++ ⟨x, size, false⟩ :: n :: ds)) :
    s.links.prev (.block x) ∈ Pointer.freeList :: (frees as ++ frees (n :: ds)).map .block := by
  have hfree : FreeList s.links (x :: (frees as ++ frees (n :: ds))) := by
    refine h.freeList.perm ?_
    simp
  exact hfree.prev_mem

/-! ## Splitting -/

/-- What an area needs with its header, and at least what the smallest block has. -/
def usedSize (g : Geometry) (allocSize : Nat) : Nat :=
  max allocSize (g.minBlockSize - blockHeaderSize) + blockHeaderSize

/-- The part of a block that an area uses. -/
def usedBlockSize (g : Geometry) (allocSize : Nat) : Nat :=
  alignUp (usedSize g allocSize) g.pageSize

/-- What is left over is enough for a block. -/
def Splits (g : Geometry) (size allocSize : Nat) : Prop :=
  usedSize g allocSize + g.minBlockSize ≤ size

instance : Decidable (Splits g size allocSize) := inferInstanceAs (Decidable (_ ≤ _))

theorem Opened.blockSize (h : Opened s as x size n ds) : blockSize s x = size := by
  obtain ⟨-, hx, -⟩ := tagged_append.mp h.tagged
  exact hx.blockSize (h.layout.even (by simp))

theorem Opened.blockSize_next (h : Opened s as x size n ds) : Heap.blockSize s n.begin = n.size := by
  obtain ⟨f, hf, hword⟩ := h.next
  rw [Heap.blockSize, hword, flagClear_add (h.layout.even (by simp)) hf]

theorem Opened.isUsed_next (h : Opened s as x size n ds) : isUsed s n.begin = n.used := by
  rw [isUsed, h.blockSize_next]
  cases ds with
  | nil =>
    have hlayout : Layout s.geometry ((as ++ [⟨x, size, true⟩]) ++ [n]) := by
      simpa using h.layout
    have hfirst : ∃ c cs, as ++ [⟨x, size, true⟩] = c :: cs := by
      cases as with
      | nil => exact ⟨_, [], rfl⟩
      | cons c cs => exact ⟨c, _, rfl⟩
    obtain ⟨c, cs, hcons⟩ := hfirst
    have htag := h.tagged
    rw [hcons] at htag hlayout
    rw [hlayout.eq_endBlock, hlayout.blockAt_last, ← hlayout.head_begin]
    exact htag.1.isPrevUsed (hlayout.even (by simp))
  | cons m es =>
    have hlayout : Layout s.geometry ((as ++ [⟨x, size, true⟩]) ++ n :: m :: es) := by
      simpa using h.layout
    rw [hlayout.inner.blockAt hlayout.fits]
    rw [h.behind.1.isPrevUsed (hlayout.even (by simp)), gap_isNone]

@[simp]
theorem geometry_blockSplit : (blockSplit s x anchor allocSize).geometry = s.geometry := by
  simp only [blockSplit]
  split
  · split
    · simp
    · simp
  · simp

/-- The numbers of `_Heap_Block_split`. -/
structure SplitNumbers (s : State) (size allocSize : Nat) : Prop where
  minAllocSize : sub32 s.minBlockSize blockHeaderSize = s.minBlockSize - blockHeaderSize
  usedSize : add32 (max allocSize (s.minBlockSize - blockHeaderSize)) blockHeaderSize =
    usedSize s.geometry allocSize
  freeSize : sub32 (add32 size allocBonus) (Heap.usedSize s.geometry allocSize) =
    size + allocBonus - Heap.usedSize s.geometry allocSize
  limit : add32 s.minBlockSize allocBonus = s.minBlockSize + allocBonus
  fits : Heap.usedSize s.geometry allocSize ≤ size + allocBonus
  splits : size + allocBonus - Heap.usedSize s.geometry allocSize ≥ s.minBlockSize + allocBonus ↔
    Splits s.geometry size allocSize

theorem Opened.splitNumbers (h : Opened s as x size n ds) (hsize : allocSize + allocBonus ≤ size) :
    SplitNumbers s size allocSize := by
  obtain ⟨hheader, hbonus⟩ := headerSizes
  obtain ⟨hnext, -, hle, -, hmin_le, -⟩ := h.layout.inner
  obtain ⟨hmin, -⟩ := h.layout.min_spec
  have hfits := h.layout.fits
  have hgeom : s.geometry.minBlockSize = s.minBlockSize := rfl
  have hused : Heap.usedSize s.geometry allocSize =
      max allocSize (s.minBlockSize - blockHeaderSize) + blockHeaderSize := rfl
  simp only at hnext hmin_le
  have hsum : add32 size allocBonus = size + allocBonus := add32_of_lt (by omega)
  refine ⟨sub32_of_le (by omega) (by omega), add32_of_lt (by omega), ?_, add32_of_lt (by omega),
    by omega, ?_⟩
  · rw [hsum]
    exact sub32_of_le (by omega) (by omega)
  · rw [Splits, hgeom]
    omega

theorem Layout.usedBlockSize_spec (h : Layout g (as ++ b :: n :: ds))
    (hsplit : Splits g b.size allocSize) :
    usedSize g allocSize ≤ usedBlockSize g allocSize ∧
      usedBlockSize g allocSize + g.minBlockSize ≤ b.size ∧
      g.pageSize ∣ usedBlockSize g allocSize ∧ g.minBlockSize ≤ usedBlockSize g allocSize := by
  have hinner := h.inner
  have hfits := h.fits
  obtain ⟨hmin, hpage, hdvd⟩ := h.min_spec
  obtain ⟨hnext, -, hle, hbdvd, hmin_le, -⟩ := hinner
  have hrest : g.pageSize ∣ b.size - g.minBlockSize := Nat.dvd_sub hbdvd hdvd
  simp only [Splits] at hsplit
  obtain ⟨h₁, h₂, h₃, -⟩ := alignUp_spec h.page_pos hrest (v := usedSize g allocSize) (by omega)
    (by omega)
  have hused : g.minBlockSize ≤ usedSize g allocSize := by
    simp only [usedSize, blockHeaderSize]
    omega
  exact ⟨h₁, by simp only [usedBlockSize]; omega, h₃, hused.trans h₁⟩

theorem Opened.blockAt_next (h : Opened s as x size n ds) : blockAt x size = n.begin :=
  h.layout.inner.blockAt h.layout.fits

/-- Too little would be left over. -/
theorem Opened.blockSplit_whole (anchor : Pointer) (h : Opened s as x size n ds)
    (hsize : allocSize + allocBonus ≤ size) (hwhole : ¬ Splits s.geometry size allocSize) :
    blockSplit s x anchor allocSize = s.setSizeAndFlag n.begin (n.size + 1) := by
  have hnums := h.splitNumbers hsize
  obtain ⟨f, hf, hword⟩ := h.next
  simp only [blockSplit, h.blockSize, hnums.minAllocSize, hnums.usedSize, hnums.freeSize,
    hnums.limit, hnums.splits, if_neg hwhole, h.blockAt_next, hword,
    flagSet_add (h.layout.even (b := n) (by simp)) hf]

/-- The whole block is used if too little would be left over. -/
theorem Opened.split_whole (anchor : Pointer) (h : Opened s as x size n ds) (hsize : allocSize + allocBonus ≤ size)
    (hwhole : ¬ Splits s.geometry size allocSize) :
    Formed (blockSplit s x anchor allocSize) (as ++ ⟨x, size, true⟩ :: n :: ds) ∧
      (blockSplit s x anchor allocSize).stats = s.stats := by
  have heq := h.blockSplit_whole anchor hsize hwhole
  have hsame : ∀ y, y ≠ n.begin → (s.setSizeAndFlag n.begin (n.size + 1)).sizeAndFlag y =
      s.sizeAndFlag y := by
    intro y hy
    simp [State.setSizeAndFlag, hy]
  rw [heq]
  refine ⟨⟨h.layout, ?_, ?_⟩, rfl⟩
  · have hlayout : Layout s.geometry ((as ++ [⟨x, size, true⟩]) ++ n :: ds) := by
      simpa using h.layout
    have hfront : Tagged (s.setSizeAndFlag n.begin (n.size + 1)) none (as ++ [⟨x, size, true⟩]) := by
      apply h.tagged.congr
      · intro b hb
        exact hsame _ (Nat.ne_of_lt (hlayout.before hb))
      · exact fun _ _ => rfl
    have hback : Tagged (s.setSizeAndFlag n.begin (n.size + 1)) n.gap ds := by
      apply h.behind.congr
      · intro b hb
        exact hsame _ (Nat.ne_of_gt (hlayout.behind hb))
      · exact fun _ _ => rfl
    have hall : Tagged (s.setSizeAndFlag n.begin (n.size + 1)) none
        ((as ++ [⟨x, size, true⟩]) ++ n :: ds) := by
      refine tagged_append.mpr ⟨hfront, ?_, hback⟩
      rw [gapBehind_concat]
      exact ⟨by simp [State.setSizeAndFlag, flagOf], nofun⟩
    simpa using hall
  · have hfree : FreeList s.links (frees (as ++ ⟨x, size, true⟩ :: n :: ds)) := by
      simpa using h.freeList
    exact hfree

theorem isPrevUsed_blockSetSize {v : Nat} (hv : 2 ∣ v) :
    isPrevUsed (blockSetSize s x v) y = isPrevUsed s y := by
  by_cases hy : y = x
  · subst hy
    have hset := flagSet_even hv
    simp only [isPrevUsed, blockSetSize, State.setSizeAndFlag, Function.update_self]
    rcases Nat.mod_two_eq_zero_or_one (s.sizeAndFlag y) with hflag | hflag
    · simp only [hflag]
      simp
      omega
    · simp only [hflag]
      simp
      omega
  · simp [isPrevUsed, blockSetSize, State.setSizeAndFlag, hy]

theorem isUsed_setStats {f : Statistics → Statistics} : isUsed (s.setStats f) y = isUsed s y := rfl

theorem blockSize_blockSetSize {v : Nat} (hy : y ≠ x) :
    blockSize (blockSetSize s x v) y = blockSize s y := by
  simp [blockSize, blockSetSize, State.setSizeAndFlag, hy]

theorem Opened.word (h : Opened s as x size n ds) {v : Nat} (hv : 2 ∣ v) :
    (blockSetSize s x v).sizeAndFlag x = v + flagOf (gapBehind none as) := by
  obtain ⟨-, hx, -⟩ := tagged_append.mp h.tagged
  have hprev : isPrevUsed s x = _ := hx.isPrevUsed (h.layout.even (by simp))
  simp only [blockSetSize, State.setSizeAndFlag, Function.update_self, hprev]
  cases gapBehind none as with
  | none => simp [flagOf, flagSet_even hv]
  | some m => simp [flagOf]

/-- A part of the block in hand is used, and the rest of it is left over. -/
structure Cut (s : State) (x size u : Nat) (n : Block) : Prop where
  header : blockHeaderSize = 8
  used_pos : 0 < u
  used_lt : u < size
  even : 2 ∣ u
  left_even : 2 ∣ size - u
  dvd : s.geometry.pageSize ∣ u
  min_le : s.geometry.minBlockSize ≤ u
  left_dvd : s.geometry.pageSize ∣ size - u
  left_min : s.geometry.minBlockSize ≤ size - u
  next : x + size = n.begin
  next_lt : n.begin + 8 < 2 ^ 32
  freeBlock : blockAt x u = x + u
  freeSize : sub32 size u = size - u

theorem Opened.cut (h : Opened s as x size n ds) (hsplit : Splits s.geometry size allocSize) :
    Cut s x size (usedBlockSize s.geometry allocSize) n := by
  obtain ⟨hheader, hbonus⟩ := headerSizes
  obtain ⟨hused, hleft, hdvd, hmin⟩ := h.layout.usedBlockSize_spec hsplit
  obtain ⟨hnext, hfirst, hle, hsizeDvd, hsizeMin, -⟩ := h.layout.inner
  have hfits := h.layout.fits
  obtain ⟨hsixteen, -⟩ := h.layout.min_spec
  have heven : 2 ∣ usedBlockSize s.geometry allocSize :=
    Nat.dvd_trans (Nat.dvd_trans (by decide) h.layout.page_even) hdvd
  simp only at hnext hle hsizeDvd hsizeMin hleft
  exact ⟨hheader, by omega, by omega, heven, Nat.dvd_sub (h.layout.even (b := ⟨x, size, true⟩) (by simp)) heven,
    hdvd, hmin, Nat.dvd_sub hsizeDvd hdvd, by omega, hnext, by omega, add32_of_lt (by omega),
    sub32_of_le (by omega) (by omega)⟩

/-- What is left of a block, if anything. -/
def remnant (x size : Nat) : List Block := if size = 0 then [] else [⟨x, size, false⟩]

@[simp]
theorem remnant_zero : remnant x 0 = [] := rfl

theorem remnant_pos (h : size ≠ 0) : remnant x size = [⟨x, size, false⟩] := if_neg h

/-- The block in hand, its rest in the free list, and the used block behind. -/
def splitAt (s : State) (x u r y f : Nat) (anchor : Pointer) : State :=
  ((((freeListInsertAfter ((blockSetSize s x u).setStats (·.addFreeSize r)) anchor
    (.block (x + u))).setStats (·.incFreeBlocks)).setSizeAndFlag (x + u) (r + 1)).setPrevSize y
      r).setSizeAndFlag y f

theorem Opened.blockSplit_used (anchor : Pointer) (h : Opened s as x size n ds)
    (hsize : allocSize + allocBonus ≤ size) (hsplit : Splits s.geometry size allocSize)
    (hn : n.used = true) :
    blockSplit s x anchor allocSize = splitAt s x (usedBlockSize s.geometry allocSize)
      (size - usedBlockSize s.geometry allocSize) n.begin n.size anchor := by
  have hnums := h.splitNumbers hsize
  have hcut := h.cut hsplit
  obtain ⟨f, hf, hword⟩ := h.next
  have hnextEven : 2 ∣ n.size := h.layout.even (by simp)
  have hu : alignUp (usedSize s.geometry allocSize) s.pageSize = usedBlockSize s.geometry allocSize :=
    rfl
  generalize usedBlockSize s.geometry allocSize = u at *
  obtain ⟨hheader, hpos, hlt, heven, hleftEven, hdvd, hmin, hleftDvd, hleftMin, hnext, hnextLt,
    hfree, hfreeSize⟩ := hcut
  have hnx : n.begin ≠ x := by omega
  have hnf : n.begin ≠ x + u := by omega
  have hnextUsed : isUsed (blockSetSize s x u) n.begin = true := by
    rw [isUsed, isPrevUsed_blockSetSize heven, blockSize_blockSetSize hnx]
    exact h.isUsed_next.trans hn
  simp only [blockSplit, h.blockSize, hnums.minAllocSize, hnums.usedSize, hnums.freeSize,
    hnums.limit, hnums.splits, if_pos hsplit, h.blockAt_next, hu, hfree, hfreeSize, isUsed_setStats,
    hnextUsed, if_true, flagSet_even hleftEven, splitAt]
  simp [Function.update_of_ne hnf, Function.update_of_ne hnx, hword, flagClear_add hnextEven hf]

/-- What is left over becomes a free block if the block behind is used. -/
theorem Opened.split_used (h : Opened s as x size n ds) (hsize : allocSize + allocBonus ≤ size)
    (hsplit : Splits s.geometry size allocSize) (hn : n.used = true)
    (ha : anchor ∈ Pointer.freeList :: (frees as ++ frees (n :: ds)).map .block) :
    ∃ u, u = usedBlockSize s.geometry allocSize ∧
      Formed (blockSplit s x anchor allocSize)
        (as ++ ⟨x, u, true⟩ :: ⟨x + u, size - u, false⟩ :: n :: ds) ∧
      (blockSplit s x anchor allocSize).stats = (s.stats.addFreeSize (size - u)).incFreeBlocks := by
  have hcut := h.cut hsplit
  have heq := h.blockSplit_used anchor hsize hsplit hn
  obtain ⟨has, hx⟩ := tagged_append.mp h.tagged
  refine ⟨_, rfl, ?_⟩
  generalize usedBlockSize s.geometry allocSize = u at *
  have hnewWord := h.word hcut.even
  obtain ⟨hheader, hpos, hlt, heven, hleftEven, hdvd, hmin, hleftDvd, hleftMin, hnext, hnextLt,
    hfree, hfreeSize⟩ := hcut
  have hnx : n.begin ≠ x := by omega
  have hnf : n.begin ≠ x + u := by omega
  have hxf : x ≠ x + u := by omega
  have hinside : x + u < n.begin := by omega
  rw [splitAt] at heq
  have hsame : SameOutside s (blockSplit s x anchor allocSize) x n.begin := by
    intro y hy
    have h₁ : y ≠ n.begin := by omega
    have h₂ : y ≠ x + u := by omega
    have h₃ : y ≠ x := by omega
    simp [heq, h₁, h₂, h₃]
  refine ⟨⟨?_, ?_, ?_⟩, by simp [heq]⟩
  · have hgeom : (blockSplit s x anchor allocSize).geometry = s.geometry := by simp [heq]
    rw [hgeom]
    have hold : Layout s.geometry (as ++ ⟨x, size, true⟩ :: ([] ++ n :: ds)) := h.layout
    apply hold.exchange [⟨x, u, true⟩, ⟨x + u, size - u, false⟩]
    · have hrest : 0 < size - u := by omega
      have hend : x + u + (size - u) = n.begin := by omega
      exact ⟨rfl, hpos, rfl, hrest, hend⟩
    · simp only [List.mem_cons, List.not_mem_nil, or_false, forall_eq_or_imp, forall_eq]
      exact ⟨⟨hdvd, hmin⟩, hleftDvd, hleftMin⟩
  · have hlayout : Layout s.geometry ((as ++ [⟨x, size, true⟩]) ++ n :: ds) := by
      simpa using h.layout
    refine tagged_append.mpr ⟨has.before h.layout hsame, ?_, ?_, ?_, h.behind.after hlayout hsame⟩
    · refine ⟨?_, ?_⟩
      · simpa [heq, Function.update_of_ne hxf, hnx.symm] using hnewWord
      · intro m hm
        exact ⟨by simpa [heq, hnx.symm] using (hx.1.behind m hm).1, rfl⟩
    · exact ⟨by simp [heq, hnf.symm, flagOf], nofun⟩
    · refine ⟨by simp [heq, flagOf], ?_⟩
      intro m hm
      cases hm
      exact ⟨by simp [heq], hn⟩
  · have hnot : x + u ∉ frees as ++ frees (n :: ds) :=
      h.layout.notMem_frees (Nat.le_add_right x u) hinside
    have hlinks : (blockSplit s x anchor allocSize).links =
        s.links.insertAfter anchor (.block (x + u)) := by simp [heq]
    rw [hlinks]
    refine (h.freeList.insertAfter ha hnot).perm ?_
    simpa using List.perm_middle.symm

/-- The part of the block in hand that an area of this size uses. -/
def cutSize (g : Geometry) (size allocSize : Nat) : Nat :=
  if Splits g size allocSize then usedBlockSize g allocSize else size

/-- `_Heap_Block_split` before a used block. -/
theorem Opened.split (h : Opened s as x size n ds) (hn : n.used = true)
    (hsize : allocSize + allocBonus ≤ size)
    (ha : anchor ∈ Pointer.freeList :: (frees as ++ frees (n :: ds)).map .block) :
    let u := cutSize s.geometry size allocSize
    Formed (blockSplit s x anchor allocSize)
        (as ++ ⟨x, u, true⟩ :: (remnant (x + u) (size - u) ++ n :: ds)) ∧
      (blockSplit s x anchor allocSize).stats = s.stats.leave (size - u) ∧
      u ≤ size ∧ usedSize s.geometry allocSize ≤ u + allocBonus := by
  have hnums := h.splitNumbers hsize
  by_cases hsplit : Splits s.geometry size allocSize
  · obtain ⟨u, rfl, hformed, hstats⟩ := h.split_used hsize hsplit hn ha
    have hcut := h.cut hsplit
    have hspec := h.layout.usedBlockSize_spec hsplit
    have hlt := hcut.used_lt
    have hne : size - usedBlockSize s.geometry allocSize ≠ 0 := by omega
    simp only [cutSize, if_pos hsplit, remnant_pos hne, Statistics.leave_pos _ hne]
    exact ⟨hformed, hstats, hlt.le, hspec.1.trans (Nat.le_add_right _ _)⟩
  · obtain ⟨hformed, hstats⟩ := h.split_whole anchor hsize hsplit
    simp only [cutSize, if_neg hsplit, Nat.sub_self, remnant_zero, Statistics.leave_zero]
    exact ⟨hformed, hstats, Nat.le_refl size, hnums.fits⟩

/-! ## Cutting the front off -/

theorem blockOfAllocArea_eq {page : Nat} (h : alignDown y page = x + blockHeaderSize)
    (hx : x + blockHeaderSize < 2 ^ 32) : blockOfAllocArea y page = x := by
  rw [blockOfAllocArea, h, sub32_of_le (Nat.le_add_left _ _) hx, Nat.add_sub_cancel]

/-- The front of the block in hand becomes a free block, and the rest is in hand. -/
theorem Opened.allocateFromEnd {z : Nat} (allocSize : Nat) (h : Opened s as x size n ds)
    (hused : gapBehind none as = none) (hz : s.minBlockSize ≤ z) (hrest : z + s.minBlockSize ≤ size)
    (hblock : alignDown y s.pageSize = x + z + blockHeaderSize)
    (ha : anchor ∈ Pointer.freeList :: (frees as ++ frees (n :: ds)).map .block) :
    ∃ s₁, Opened s₁ (as ++ [⟨x, z, false⟩]) (x + z) (size - z) n ds ∧
      s₁.geometry = s.geometry ∧ s₁.stats = s.stats.leave z ∧
      blockAllocateFromEnd s x anchor y allocSize =
        (blockSplit s₁ (x + z) (.block x) allocSize, x + z) := by
  obtain ⟨hheader, hbonus⟩ := headerSizes
  obtain ⟨hsixteen, -⟩ := h.layout.min_spec
  have hgeomMin : s.geometry.minBlockSize = s.minBlockSize := rfl
  obtain ⟨hnext, -, hle, hsizeDvd, -, halign⟩ := h.layout.inner
  have hfits := h.layout.fits
  obtain ⟨has, hx, -⟩ := tagged_append.mp h.tagged
  simp only at hnext hsizeDvd halign
  have hzDvd : s.geometry.pageSize ∣ z := by
    have hline : s.geometry.pageSize ∣ x + z + blockHeaderSize := hblock ▸ dvd_alignDown y s.pageSize
    have hdiff := Nat.dvd_sub hline halign
    rwa [show x + z + blockHeaderSize - (x + blockHeaderSize) = z by omega] at hdiff
  have hzEven : 2 ∣ z :=
    Nat.dvd_trans (Nat.dvd_trans (by decide) h.layout.page_even) hzDvd
  have hprev : isPrevUsed s x = true := by
    rw [hx.isPrevUsed (h.layout.even (by simp)), hused]
    rfl
  have hnewBlock : blockOfAllocArea y s.pageSize = x + z := blockOfAllocArea_eq hblock (by omega)
  have hend : add32 x size = n.begin := h.blockAt_next
  have hfront : sub32 (x + z) x = z := by
    rw [sub32_of_le (by omega) (by omega)]
    omega
  have hback : sub32 n.begin (x + z) = size - z := by
    rw [sub32_of_le (by omega) (by omega)]
    omega
  have hxz : x ≠ x + z := by omega
  have hnx : n.begin ≠ x := by omega
  have hnz : n.begin ≠ x + z := by omega
  have hinside : x + z < n.begin := by omega
  have hzFlag : flagSet z = z + 1 := flagSet_even hzEven
  let s₁ := ((((freeListInsertAfter (s.setStats (·.addFreeSize z)) anchor (.block x)).setStats
    (·.incFreeBlocks)).setSizeAndFlag x (z + 1)).setPrevSize (x + z) z).setSizeAndFlag (x + z)
      (size - z)
  have hsame : SameOutside s s₁ x (x + z) := by
    intro w hw
    have h₁ : w ≠ x + z := by omega
    have h₂ : w ≠ x := by omega
    simp [s₁, h₁, h₂]
  have hlayout : Layout s.geometry (as ++ ⟨x, z, false⟩ :: ⟨x + z, size - z, true⟩ :: n :: ds) := by
    have hold : Layout s.geometry (as ++ ⟨x, size, true⟩ :: ([] ++ n :: ds)) := h.layout
    apply hold.exchange [⟨x, z, false⟩, ⟨x + z, size - z, true⟩]
    · have hpos : 0 < z := by omega
      have hrestPos : 0 < size - z := by omega
      have hendSum : x + z + (size - z) = n.begin := by omega
      exact ⟨rfl, hpos, rfl, hrestPos, hendSum⟩
    · have hrestMin : s.geometry.minBlockSize ≤ size - z := by omega
      simp only [List.mem_cons, List.not_mem_nil, or_false, forall_eq_or_imp, forall_eq]
      exact ⟨⟨hzDvd, hgeomMin ▸ hz⟩, Nat.dvd_sub hsizeDvd hzDvd, hrestMin⟩
  have hbehind : Layout s.geometry ((as ++ [⟨x, size, true⟩]) ++ n :: ds) := by
    simpa using h.layout
  have hgeom : s₁.geometry = s.geometry := rfl
  refine ⟨s₁, ⟨?_, ?_, ?_, ?_, ?_⟩, hgeom, ?_, ?_⟩
  · rw [hgeom]
    simpa using hlayout
  · rw [List.append_assoc]
    refine tagged_append.mpr ⟨has.before h.layout hsame, ⟨?_, ?_⟩, ⟨?_, ?_⟩, trivial⟩
    · simp [s₁, Function.update_of_ne hxz, hused, flagOf]
    · intro m hm
      simp [hused] at hm
    · simp [s₁, flagOf]
    · intro m hm
      cases hm
      exact ⟨by simp [s₁], rfl⟩
  · obtain ⟨f, hf, hword⟩ := h.next
    exact ⟨f, hf, by simpa [s₁, hnz, hnx] using hword⟩
  · apply h.behind.congr
    · intro b hb
      have hlt := hbehind.behind hb
      exact (hsame _ (.inr (by omega))).1
    · intro b hb
      have hlt := hbehind.behind hb
      exact (hsame _ (.inr (by omega))).2
  · have hnot : x ∉ frees as ++ frees (n :: ds) :=
      h.layout.notMem_frees (Nat.le_refl x) (by omega)
    refine (h.freeList.insertAfter ha hnot).perm ?_
    simp [List.perm_middle.symm]
  · have hne : z ≠ 0 := by omega
    simp [s₁, Statistics.leave, hne]
  · simp only [blockAllocateFromEnd, h.blockSize, hend, hnewBlock, hback, hfront]
    have hprev' : isPrevUsed (s.setStats (·.addFreeSize z)) x = true := hprev
    simp only [hprev', if_true, hzFlag]
    rfl

end Rtems.Heap
