import Rtems.Heap.Resize

/-!
# What the statistics count

The free size is the sum of the sizes of the free blocks, and the numbers of free
and used blocks are those of the blocks.  Every used block except the last one is
the block of a live area.
-/

namespace Rtems.Heap

open Lib List

variable {s s' : State} {as bs ds all : List Block} {b n : Block} {live : List Nat}
  {x y w z u r p size newSize allocSize alignment boundary fuel : Nat}

/-- The sum of the sizes of the free blocks. -/
def freeTotal (bs : List Block) : Nat := ((bs.filter (! ·.used)).map Block.size).sum

/-- The begins of the pages in which the areas of the used blocks begin. -/
def usedLines (bs : List Block) : List Nat :=
  (bs.filter (·.used)).map fun b => b.begin + blockHeaderSize

@[simp]
theorem freeTotal_append : freeTotal (as ++ bs) = freeTotal as + freeTotal bs := by
  simp [freeTotal]

@[simp]
theorem freeTotal_cons_used (h : b.used = true) : freeTotal (b :: bs) = freeTotal bs := by
  simp [freeTotal, h]

@[simp]
theorem freeTotal_cons_free (h : b.used = false) : freeTotal (b :: bs) = b.size + freeTotal bs := by
  simp [freeTotal, h]

@[simp]
theorem freeTotal_remnant : freeTotal (remnant x r) = r := by
  rcases Nat.eq_zero_or_pos r with rfl | hr
  · rfl
  · simp [remnant_pos hr.ne', freeTotal]

@[simp]
theorem usedLines_append : usedLines (as ++ bs) = usedLines as ++ usedLines bs := by
  simp [usedLines]

@[simp]
theorem usedLines_cons_used (h : b.used = true) :
    usedLines (b :: bs) = (b.begin + blockHeaderSize) :: usedLines bs := by
  simp [usedLines, h]

@[simp]
theorem usedLines_cons_free (h : b.used = false) : usedLines (b :: bs) = usedLines bs := by
  simp [usedLines, h]

@[simp]
theorem usedLines_remnant : usedLines (remnant x r) = [] := by
  rcases Nat.eq_zero_or_pos r with rfl | hr
  · rfl
  · simp [remnant_pos hr.ne', usedLines]

theorem length_frees_remnant : (frees (remnant x r)).length = if r = 0 then 0 else 1 := by
  rcases Nat.eq_zero_or_pos r with rfl | hr
  · rfl
  · simp [remnant_pos hr.ne', hr.ne']

theorem ofNat_length_remnant : BitVec.ofNat 32 (frees (remnant x r)).length = pieces r := by
  rcases Nat.eq_zero_or_pos r with rfl | hr
  · rfl
  · simp [remnant_pos hr.ne', pieces_pos hr.ne']

theorem mem_usedLines : y ∈ usedLines bs ↔ ∃ b ∈ bs, b.used = true ∧ b.begin + blockHeaderSize = y := by
  simp [usedLines, and_assoc]

theorem Formed.nodup_usedLines (h : Formed s all) : (usedLines all).Nodup := by
  have hnodup := (Tiles.nodup h.layout.tiles).filter (·.used)
  refine (List.nodup_map_iff_inj_on hnodup).mpr ?_
  intro a ha b hb heq
  exact h.layout.tiles.inj (List.mem_of_mem_filter ha) (List.mem_of_mem_filter hb)
    (Nat.add_right_cancel heq)

/-- The statistics agree with the blocks, and the used ones are those of the live areas. -/
structure Exact (s : State) (all : List Block) (live : List Nat) : Prop where
  formed : Formed s all
  held : ((s.lastBlock + blockHeaderSize) :: live.map (alignDown · s.pageSize)).Perm (usedLines all)
  freeSize : s.stats.counts.freeSize = BitVec.ofNat 32 (freeTotal all)
  freeBlocks : s.stats.counts.freeBlocks = BitVec.ofNat 32 (frees all).length
  usedBlocks : s.stats.counts.usedBlocks = BitVec.ofNat 32 live.length
  balance : s.stats.counts.allocs - s.stats.counts.frees = s.stats.counts.usedBlocks

/-! ## The counters as numbers -/

theorem Formed.freeTotal_lt (h : Formed s all) : freeTotal all < 2 ^ 32 := by
  obtain ⟨bs, rfl⟩ := h.layout.exists_init
  have hsum := h.layout.init.sum_le (! ·.used)
  have hfits := h.layout.fits
  have htotal : freeTotal (bs ++ [s.geometry.endBlock]) = freeTotal bs := by
    simp [freeTotal, Geometry.endBlock]
  rw [htotal, freeTotal]
  omega

theorem Formed.length_le (h : Formed s all) : all.length ≤ 2 ^ 32 - 1 := by
  obtain ⟨bs, rfl⟩ := h.layout.exists_init
  have hlength := h.layout.init.length_le
  have hfits := h.layout.fits
  have hheader := headerSizes
  simp only [List.length_append, List.length_singleton]
  omega

theorem length_frees_le (bs : List Block) : (frees bs).length ≤ bs.length := by
  rw [frees, List.length_map]
  exact List.length_filter_le _ _

theorem length_usedLines_le (bs : List Block) : (usedLines bs).length ≤ bs.length := by
  rw [usedLines, List.length_map]
  exact List.length_filter_le _ _

theorem Exact.toNat_freeSize (h : Exact s all live) :
    s.stats.counts.freeSize.toNat = freeTotal all := by
  rw [h.freeSize, BitVec.toNat_ofNat, Nat.mod_eq_of_lt h.formed.freeTotal_lt]

theorem Exact.toNat_freeBlocks (h : Exact s all live) :
    s.stats.counts.freeBlocks.toNat = (frees all).length := by
  have hlength := h.formed.length_le
  have hle := length_frees_le all
  rw [h.freeBlocks, BitVec.toNat_ofNat, Nat.mod_eq_of_lt (by omega)]

/-- Every used block except the last one is that of a live area. -/
theorem Exact.length_live (h : Exact s all live) : (usedLines all).length = live.length + 1 := by
  rw [← h.held.length_eq, List.length_cons, List.length_map]

theorem Exact.toNat_usedBlocks (h : Exact s all live) :
    s.stats.counts.usedBlocks.toNat = live.length := by
  have hlength := h.formed.length_le
  have hle := length_usedLines_le all
  have hlive := h.length_live
  rw [h.usedBlocks, BitVec.toNat_ofNat, Nat.mod_eq_of_lt (by omega)]

/-- The block of a live area. -/
theorem Formed.exists_block (h : Formed s all)
    (hheld : ((s.lastBlock + blockHeaderSize) :: live.map (alignDown · s.pageSize)).Subperm
      (usedLines all)) (hp : p ∈ live) :
    ∃ b ∈ all, b.used = true ∧ b ≠ s.geometry.endBlock ∧
      alignDown p s.pageSize = b.begin + blockHeaderSize := by
  obtain ⟨lines, hlines, hsub⟩ := id hheld
  have hnodup := hlines.nodup_iff.mp (h.nodup_usedLines.sublist hsub)
  have hline : alignDown p s.pageSize ∈ live.map (alignDown · s.pageSize) := List.mem_map_of_mem hp
  obtain ⟨b, hb, hused, hbegin⟩ := mem_usedLines.mp (hheld.subset (List.mem_cons_of_mem _ hline))
  refine ⟨b, hb, hused, ?_, hbegin.symm⟩
  rintro rfl
  rw [← hbegin] at hline
  exact (List.nodup_cons.mp hnodup).1 hline

theorem Exact.exists_block (h : Exact s all live) (hp : p ∈ live) :
    ∃ b ∈ all, b.used = true ∧ b ≠ s.geometry.endBlock ∧
      alignDown p s.pageSize = b.begin + blockHeaderSize :=
  h.formed.exists_block h.held.subperm hp

/-! ## What a step keeps -/

theorem Exact.setStats (h : Exact s all live) {f : Statistics → Statistics}
    (hf : (f s.stats).counts = s.stats.counts) : Exact (s.setStats f) all live := by
  refine ⟨h.formed.setStats f, h.held, ?_, ?_, ?_, ?_⟩
  · rw [stats_setStats, hf]
    exact h.freeSize
  · rw [stats_setStats, hf]
    exact h.freeBlocks
  · rw [stats_setStats, hf]
    exact h.usedBlocks
  · rw [stats_setStats, hf]
    exact h.balance

/-- The blocks after an allocation that succeeds. -/
theorem Formed.serve (h : Formed s (as ++ ⟨x, size, false⟩ :: n :: ds))
    (hserved : Served fuel s s' as x size n ds p allocSize alignment boundary) :
    ∃ z u r, z + u + r = size ∧ z = front s.geometry x p ∧
      u = cutSize s.geometry (size - z) (splitRequest x z p allocSize) ∧
      alignDown p s.pageSize = x + z + blockHeaderSize ∧ s'.geometry = s.geometry ∧
      s'.stats.counts = { ((((s.stats.takeBlock size).leave z).leave r).updateMinFreeSize).counts with
        allocs := s.stats.counts.allocs + 1 } ∧
      Formed s' (as ++ (remnant x z ++ ⟨x + z, u, true⟩ :: (remnant (x + z + u) r ++ n :: ds))) := by
  obtain ⟨f, rfl, hcounts⟩ := hserved.result
  have hplaced := hserved.fitting.placed
  generalize front s.geometry x p = z at hplaced ⊢
  obtain ⟨s₁, heq₁, hformed, hstats, hgeom, hu, -⟩ := h.blockAllocate hplaced
  generalize hcutEq : cutSize s.geometry (size - z) (splitRequest x z p allocSize) = u at *
  have hz : z ≤ size := by
    have hfront := hplaced.front
    omega
  have hsum : z + u + (size - z - u) = size := by omega
  rw [heq₁]
  refine ⟨z, u, size - z - u, hsum, rfl, hcutEq.symm, hplaced.block, hgeom, ?_, hformed.setStats f⟩
  rw [stats_setStats, hcounts, hstats]
  simp

/-- The lines of the used blocks after an allocation. -/
theorem usedLines_serve {z u r : Nat} :
    (usedLines (as ++ (remnant x z ++ ⟨x + z, u, true⟩ :: (remnant (x + z + u) r ++ n :: ds)))).Perm
      ((x + z + blockHeaderSize) :: usedLines (as ++ ⟨x, size, false⟩ :: n :: ds)) := by
  simp only [usedLines_append, usedLines_cons_free, usedLines_cons_used, usedLines_remnant,
    List.nil_append]
  exact List.perm_middle

/-- An allocation that succeeds. -/
theorem Exact.serve (h : Exact s (as ++ ⟨x, size, false⟩ :: n :: ds) live)
    (hserved : Served fuel s s' as x size n ds p allocSize alignment boundary) :
    ∃ z u r, z + u + r = size ∧ z = front s.geometry x p ∧
      u = cutSize s.geometry (size - z) (splitRequest x z p allocSize) ∧
      s'.geometry = s.geometry ∧
      s'.stats.counts = { ((((s.stats.takeBlock size).leave z).leave r).updateMinFreeSize).counts with
        allocs := s.stats.counts.allocs + 1 } ∧
      Exact s' (as ++ (remnant x z ++ ⟨x + z, u, true⟩ :: (remnant (x + z + u) r ++ n :: ds)))
        (p :: live) := by
  obtain ⟨z, u, r, hsum, hz, hu, hline, hgeom, hcount, hformed⟩ := h.formed.serve hserved
  refine ⟨z, u, r, hsum, hz, hu, hgeom, hcount, hformed, ?_, ?_, ?_, ?_, ?_⟩
  · have hpage : s'.pageSize = s.pageSize := congrArg Geometry.pageSize hgeom
    have hlast : s'.lastBlock = s.lastBlock := congrArg Geometry.lastBlock hgeom
    rw [hpage, hlast, List.map_cons, hline]
    calc
      _ ~ (x + z + blockHeaderSize) :: (s.lastBlock + blockHeaderSize) ::
          live.map (alignDown · s.pageSize) := List.Perm.swap _ _ _
      _ ~ (x + z + blockHeaderSize) :: usedLines (as ++ ⟨x, size, false⟩ :: n :: ds) := h.held.cons _
      _ ~ _ := usedLines_serve.symm
  · have hfree := h.freeSize
    simp only [freeTotal_append, freeTotal_cons_free, BitVec.ofNat_add] at hfree
    rw [hcount]
    simp only [Statistics.counts_updateMinFreeSize, Statistics.counts_leave,
      Statistics.counts_takeBlock, hfree, freeTotal_append, freeTotal_cons_used, freeTotal_remnant,
      BitVec.ofNat_add]
    abel
  · have hfree := h.freeBlocks
    simp only [frees_append, frees_cons_free, List.length_append, List.length_cons,
      BitVec.ofNat_add] at hfree
    rw [hcount]
    simp only [Statistics.counts_updateMinFreeSize, Statistics.counts_leave,
      Statistics.counts_takeBlock, hfree, frees_append, frees_cons_used, List.length_append,
      BitVec.ofNat_add, ofNat_length_remnant]
    grind
  · rw [hcount]
    simp [h.usedBlocks, BitVec.ofNat_add]
  · rw [hcount]
    have hbalance := h.balance
    simp only [Statistics.counts_updateMinFreeSize, Statistics.counts_leave,
      Statistics.counts_takeBlock, ← hbalance]
    abel

/-- A used block that is not the last one, with what is free before it and behind it. -/
theorem Formed.exists_neighbors (h : Formed s all) (hb : b ∈ all) (hused : b.used = true)
    (hne : b ≠ s.geometry.endBlock) (hline : alignDown p s.pageSize = b.begin + blockHeaderSize) :
    ∃ as w z size r n ds, all = as ++ (remnant w z ++ ⟨w + z, size, true⟩ ::
        (remnant (w + z + size) r ++ n :: ds)) ∧ b = ⟨w + z, size, true⟩ ∧
      gapBehind none as = none ∧ n.used = true ∧ p ≠ 0 ∧
      blockOfAllocArea p s.pageSize = w + z := by
  obtain ⟨front, r, n, ds, rfl, hn⟩ := h.exists_behind hb hne
  obtain ⟨as, w, z, rfl, hbegin, hgap⟩ := h.exists_before
  obtain ⟨x, size, used⟩ := b
  simp only at hused hline hbegin
  subst hused hbegin
  rw [List.append_assoc] at h
  have hbound : w + z + blockHeaderSize < 2 ^ 32 := by
    have hmem : (⟨w + z, size, true⟩ : Block) ∈ as ++ (remnant w z ++ ⟨w + z, size, true⟩ ::
        (remnant (w + z + size) r ++ n :: ds)) := by simp
    have hle := (h.layout.begin_le hmem).2
    have hfits := h.layout.fits
    simp only at hle
    omega
  have hpne : p ≠ 0 := by
    rintro rfl
    simp [alignDown, blockHeaderSize] at hline
  exact ⟨as, w, z, size, r, n, ds, by simp, rfl, hgap, hn, hpne, blockOfAllocArea_eq hline hbound⟩

/-- `_Heap_Free` of an area whose block is used and is not the last one. -/
theorem Formed.release (h : Formed s all) (hb : b ∈ all) (hused : b.used = true)
    (hne : b ≠ s.geometry.endBlock) (hline : alignDown p s.pageSize = b.begin + blockHeaderSize) :
    ∃ s' as w z size r n ds, all = as ++ (remnant w z ++ ⟨w + z, size, true⟩ ::
        (remnant (w + z + size) r ++ n :: ds)) ∧ b.begin = w + z ∧
      Heap.free s p = (s', true) ∧ s'.geometry = s.geometry ∧ s'.stats = s.stats.giveBack z size r ∧
      Formed s' (as ++ ⟨w, z + size + r, false⟩ :: n :: ds) := by
  obtain ⟨as, w, z, size, r, n, ds, rfl, rfl, hgap, hn, hpne, hblock⟩ :=
    h.exists_neighbors hb hused hne hline
  obtain ⟨s', heq, hformed, hgeom, hstats, -⟩ := h.free hgap hn hpne hblock
  exact ⟨s', as, w, z, size, r, n, ds, rfl, rfl, heq, hgeom, hstats, hformed⟩

/-- The lines of the used blocks before a release. -/
theorem usedLines_release {w z r : Nat} :
    (usedLines (as ++ (remnant w z ++ ⟨w + z, size, true⟩ ::
      (remnant (w + z + size) r ++ n :: ds)))).Perm
      ((w + z + blockHeaderSize) :: usedLines (as ++ ⟨w, z + size + r, false⟩ :: n :: ds)) := by
  simp only [usedLines_append, usedLines_cons_free, usedLines_cons_used, usedLines_remnant,
    List.nil_append]
  exact List.perm_middle

/-- The release of a live area. -/
theorem Exact.release (h : Exact s all live) (hp : p ∈ live) :
    ∃ s' as w z size r n ds, all = as ++ (remnant w z ++ ⟨w + z, size, true⟩ ::
        (remnant (w + z + size) r ++ n :: ds)) ∧
      free s p = (s', true) ∧ s'.geometry = s.geometry ∧ s'.stats = s.stats.giveBack z size r ∧
      Exact s' (as ++ ⟨w, z + size + r, false⟩ :: n :: ds) (live.erase p) := by
  obtain ⟨b, hb, hused, hne, hline⟩ := h.exists_block hp
  obtain ⟨s', as, w, z, size, r, n, ds, rfl, hbegin, heq, hgeom, hstats, hformed⟩ :=
    h.formed.release hb hused hne hline
  have hcount : s'.stats.counts = (s.stats.giveBack z size r).counts := by rw [hstats]
  refine ⟨s', as, w, z, size, r, n, ds, rfl, heq, hgeom, hstats, hformed, ?_, ?_, ?_, ?_, ?_⟩
  · have hpage : s'.pageSize = s.pageSize := congrArg Geometry.pageSize hgeom
    have hlast : s'.lastBlock = s.lastBlock := congrArg Geometry.lastBlock hgeom
    have herase := (List.perm_cons_erase hp).map (alignDown · s.pageSize)
    rw [hpage, hlast]
    rw [List.map_cons, hline, hbegin] at herase
    apply (List.perm_cons (w + z + blockHeaderSize)).mp
    calc
      _ ~ (s.lastBlock + blockHeaderSize) :: (w + z + blockHeaderSize) ::
          (live.erase p).map (alignDown · s.pageSize) := List.Perm.swap _ _ _
      _ ~ (s.lastBlock + blockHeaderSize) :: live.map (alignDown · s.pageSize) :=
          herase.symm.cons _
      _ ~ _ := h.held.trans usedLines_release
  · have hfree := h.freeSize
    simp only [freeTotal_append, freeTotal_cons_used, freeTotal_remnant, BitVec.ofNat_add] at hfree
    rw [hcount]
    simp only [Statistics.counts_giveBack, hfree, freeTotal_append, freeTotal_cons_free,
      BitVec.ofNat_add]
    abel
  · have hfree := h.freeBlocks
    simp only [frees_append, frees_cons_used, List.length_append, BitVec.ofNat_add,
      ofNat_length_remnant] at hfree
    rw [hcount]
    simp only [Statistics.counts_giveBack, hfree, frees_append, frees_cons_free, List.length_append,
      List.length_cons, BitVec.ofNat_add]
    grind
  · rw [hcount]
    have hlength := (List.perm_cons_erase hp).length_eq
    simp only [Statistics.counts_giveBack, h.usedBlocks, hlength, List.length_cons, BitVec.ofNat_add]
    grind
  · rw [hcount]
    have hbalance := h.balance
    simp only [Statistics.counts_giveBack, ← hbalance]
    abel

/-- The resizing of a live area that begins in its block. -/
theorem Exact.resize (newSize : Nat) (h : Exact s all live) (hp : p ∈ live)
    (hbegin : p ≤ blockOfAllocArea p s.pageSize +
      blockSize s (blockOfAllocArea p s.pageSize) + allocBonus) :
    (resizeBlock s p newSize).1 = s ∨
      ∃ s' as x size r n ds u, all = as ++ ⟨x, size, true⟩ :: (remnant (x + size) r ++ n :: ds) ∧
        blockOfAllocArea p s.pageSize = x ∧ n.used = true ∧
        u = keptSize s.geometry x (size + r) p newSize ∧ u ≤ size + r ∧
        p + newSize ≤ x + size + r + allocBonus ∧ (resizeBlock s p newSize).1 = s' ∧ s'.geometry = s.geometry ∧
        s'.stats = ((s.stats.takeNext r).leave (size + r - u)).updateMinFreeSize.countResize ∧
        Exact s' (as ++ ⟨x, u, true⟩ :: (remnant (x + u) (size + r - u) ++ n :: ds)) live := by
  obtain ⟨b, hb, hused, hne, hline⟩ := h.exists_block hp
  obtain ⟨as, r, n, ds, rfl, hn⟩ := h.formed.exists_behind hb hne
  obtain ⟨x, size, used⟩ := b
  simp only at hused hline
  subst hused
  have hmem : (⟨x, size, true⟩ : Block) ∈
      as ++ ⟨x, size, true⟩ :: (remnant (x + size) r ++ n :: ds) := by simp
  have hbound : x + blockHeaderSize < 2 ^ 32 := by
    have hle := (h.formed.layout.begin_le hmem).2
    have hfits := h.formed.layout.fits
    simp only at hle
    omega
  have hblock : blockOfAllocArea p s.pageSize = x := blockOfAllocArea_eq hline hbound
  have hsize : blockSize s x = size := h.formed.blockSize hmem
  rw [hblock, hsize] at hbegin
  by_cases hfits : p + newSize ≤ x + size + r + allocBonus
  · right
    obtain ⟨s', heq, hformed, hgeom, hstats, hu, -⟩ :=
      h.formed.resize_fits hn hline hbegin hfits
    generalize hkept : keptSize s.geometry x (size + r) p newSize = u at *
    have hcount : s'.stats.counts =
        (((s.stats.takeNext r).leave (size + r - u)).updateMinFreeSize.countResize).counts := by
      rw [hstats]
    refine ⟨s', as, x, size, r, n, ds, u, rfl, hblock, hn, hkept.symm, hu, hfits, by rw [heq],
      hgeom, hstats, hformed, ?_, ?_, ?_, ?_, ?_⟩
    · have hpage : s'.pageSize = s.pageSize := congrArg Geometry.pageSize hgeom
      have hlast : s'.lastBlock = s.lastBlock := congrArg Geometry.lastBlock hgeom
      have hheld := h.held
      simp only [usedLines_append, usedLines_cons_used, usedLines_remnant, List.nil_append]
        at hheld ⊢
      rw [hpage, hlast]
      exact hheld
    · have hfree := h.freeSize
      simp only [freeTotal_append, freeTotal_cons_used, freeTotal_remnant, BitVec.ofNat_add] at hfree
      rw [hcount]
      simp only [Statistics.counts_countResize, Statistics.counts_updateMinFreeSize,
        Statistics.counts_leave, Statistics.counts_takeNext, hfree, freeTotal_append,
        freeTotal_cons_used, freeTotal_remnant, BitVec.ofNat_add]
      abel
    · have hfree := h.freeBlocks
      simp only [frees_append, frees_cons_used, List.length_append, BitVec.ofNat_add,
        ofNat_length_remnant] at hfree
      rw [hcount]
      simp only [Statistics.counts_countResize, Statistics.counts_updateMinFreeSize,
        Statistics.counts_leave, Statistics.counts_takeNext, hfree, frees_append, frees_cons_used,
        List.length_append, BitVec.ofNat_add, ofNat_length_remnant]
      abel
    · rw [hcount]
      simpa using h.usedBlocks
    · rw [hcount]
      simpa using h.balance
  · left
    have hnmem : n ∈ as ++ ⟨x, size, true⟩ :: (remnant (x + size) r ++ n :: ds) := by simp
    have hlast := (h.formed.behindIt hn).last
    have hfitsLast := h.formed.layout.fits
    have hle := (h.formed.layout.begin_le hnmem).2
    obtain ⟨hheader, hbonus⟩ := headerSizes
    have hroom : countedRoom x size r p < newSize := by
      rw [countedRoom_eq hbegin (by omega)]
      omega
    rw [h.formed.resize_refused hn hline hroom]

end Rtems.Heap
