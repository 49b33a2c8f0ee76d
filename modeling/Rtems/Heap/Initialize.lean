import Rtems.Heap.Layout

/-!
# Initialization

The first block begins where the area has room for its header and an aligned
area, and the last block where a multiple of the page size ends.  The sums may
leave the word on the way, but then the overhead is greater than the area.
-/

namespace Rtems.Heap

open Lib

variable {s s' : State} {areaBegin areaSize page pageSize minBlock first last v : Nat}

/-! ## The page size -/

/-- The page size that is asked for, aligned for the processor. -/
def alignedPage (pageSize : Nat) : Nat :=
  if pageSize = 0 then cpuAlignment else (pageSize + 7) / cpuAlignment * cpuAlignment

theorem alignPageSize_eq (hpage : pageSize < 2 ^ 32) :
    alignPageSize pageSize =
      if alignedPage pageSize < 2 ^ 32 then some (alignedPage pageSize) else none := by
  rcases Nat.eq_zero_or_pos pageSize with rfl | hpos
  · rfl
  · have hup : alignUp pageSize cpuAlignment = alignedPage pageSize % 2 ^ 32 := by
      rcases Nat.eq_zero_or_pos (pageSize % 8) with hzero | hmod
      · simp only [alignUp, alignedPage, hpos.ne', if_false, cpuAlignment, hzero, ne_eq, not_true]
        omega
      · simp only [alignUp, alignedPage, hpos.ne', if_false, cpuAlignment, hmod.ne', ne_eq,
          not_false_iff, if_true, add32]
        omega
    have hpos' : 8 ≤ alignedPage pageSize ∧ alignedPage pageSize < 2 ^ 32 + 8 := by
      simp only [alignedPage, hpos.ne', if_false, cpuAlignment]
      omega
    simp only [alignPageSize, hpos.ne', if_false, hup]
    by_cases hlt : alignedPage pageSize < 2 ^ 32
    · rw [if_pos hlt, Nat.mod_eq_of_lt hlt]
      exact if_neg (Nat.not_lt.mpr hpos'.1)
    · rw [if_neg hlt]
      apply if_pos
      simp only [cpuAlignment]
      omega

theorem alignedPage_spec (pageSize : Nat) :
    0 < alignedPage pageSize ∧ cpuAlignment ∣ alignedPage pageSize := by
  simp only [alignedPage, cpuAlignment]
  split
  · exact ⟨by decide, Nat.dvd_refl 8⟩
  · exact ⟨by omega, Nat.dvd_mul_left 8 _⟩

/-! ## The first and the last block -/

/-- A first and a last block that have room in the area. -/
structure AreaLayout (areaBegin areaSize page minBlock first last : Nat) : Prop where
  begin_le : areaBegin ≤ first
  first_aligned : page ∣ first + blockHeaderSize
  last_aligned : page ∣ last + blockHeaderSize
  size_dvd : page ∣ last - first
  min_le : first + minBlock ≤ last
  last_le : last + blockHeaderSize ≤ areaBegin + areaSize

/-- What is missing to the next multiple. -/
def shortfall (v page : Nat) : Nat := if v % page ≠ 0 then page - v % page else 0

theorem shortfall_lt (hpage : 0 < page) : shortfall v page < page := by
  have hmod := Nat.mod_lt v hpage
  simp only [shortfall]
  split
  · omega
  · exact hpage

theorem alignUp_eq (hpage : 0 < page) (hv : v < 2 ^ 32) : alignUp v page = add32 v (shortfall v page) := by
  have hle := Nat.mod_le v page
  simp only [alignUp, shortfall]
  split
  next hne =>
    have hmod := Nat.mod_lt v hpage
    simp only [add32]
    congr 1
    omega
  next =>
    rw [add32, Nat.add_zero]
    exact (Nat.mod_eq_of_lt hv).symm

/-- The multiple that is the next one, and the one with nothing missing. -/
theorem dvd_add_shortfall (hpage : 0 < page) : page ∣ v + shortfall v page := by
  have hle := Nat.mod_le v page
  have hmod := Nat.mod_lt v hpage
  simp only [shortfall]
  split
  next hne =>
    have hsum : v + (page - v % page) = (v - v % page) + page := by omega
    rw [hsum]
    exact (Nat.dvd_sub_mod v).add (Nat.dvd_refl page)
  next heq => exact Nat.dvd_of_mod_eq_zero (not_not.mp heq)

/-- The sums of `_Heap_Get_first_and_last_block`. -/
theorem getFirstAndLastBlock_eq (hpage : 0 < page) (hlt : page + 8 ≤ 2 ^ 32)
    (hbegin : areaBegin < 2 ^ 32) (hsize : areaSize < 2 ^ 32) :
    getFirstAndLastBlock areaBegin areaSize page minBlock =
      let missing := shortfall (add32 areaBegin blockHeaderSize) page
      let room := alignDown (areaSize - (blockHeaderSize + missing)) page
      if areaBegin + areaSize < 2 ^ 32 ∧ blockHeaderSize + missing < areaSize ∧ minBlock ≤ room then
        some (areaBegin + missing, areaBegin + missing + room)
      else none := by
  have hmissing := shortfall_lt (v := add32 areaBegin blockHeaderSize) hpage
  have hup := alignUp_eq hpage (add32_lt areaBegin blockHeaderSize)
  simp only [getFirstAndLastBlock, hup]
  generalize shortfall (add32 areaBegin blockHeaderSize) page = missing at *
  have hfirst : sub32 (add32 (add32 areaBegin blockHeaderSize) missing) blockHeaderSize =
      add32 areaBegin missing := by
    simp only [sub32, add32, blockHeaderSize]
    omega
  have hover : add32 blockHeaderSize (sub32 (add32 areaBegin missing) areaBegin) =
      blockHeaderSize + missing := by
    simp only [sub32, add32, blockHeaderSize]
    omega
  rw [hfirst, hover]
  by_cases hwrap : areaBegin + areaSize < 2 ^ 32
  · rw [add32_of_lt hwrap]
    by_cases hroom : blockHeaderSize + missing < areaSize
    · have hsum : add32 areaBegin missing = areaBegin + missing := add32_of_lt (by omega)
      have hrest : sub32 areaSize (blockHeaderSize + missing) = areaSize - (blockHeaderSize + missing) :=
        sub32_of_le (by omega) hsize
      have hdown := alignDown_le (areaSize - (blockHeaderSize + missing)) page
      have hlast : blockAt (areaBegin + missing) (alignDown (areaSize - (blockHeaderSize + missing)) page) =
          areaBegin + missing + alignDown (areaSize - (blockHeaderSize + missing)) page :=
        add32_of_lt (by omega)
      rw [hsum, hrest, hlast]
      by_cases hmin : minBlock ≤ alignDown (areaSize - (blockHeaderSize + missing)) page
      · rw [if_neg (by omega), if_pos ⟨hwrap, hroom, hmin⟩]
      · rw [if_pos (by omega), if_neg (by tauto)]
    · rw [if_pos (by omega), if_neg (by tauto)]
  · have hless : add32 areaBegin areaSize < areaBegin := by
      simp only [add32]
      omega
    rw [if_pos (.inl hless), if_neg (by tauto)]

/-- The blocks are found if there is room for any. -/
theorem getFirstAndLastBlock_isSome (hpage : 0 < page) (hlt : page + 8 ≤ 2 ^ 32)
    (hwrap : areaBegin + areaSize < 2 ^ 32) (hmin : 0 < minBlock)
    (hroom : AreaLayout areaBegin areaSize page minBlock first last) :
    ∃ blocks, getFirstAndLastBlock areaBegin areaSize page minBlock = some blocks := by
  obtain ⟨hfirst, halign, -, hdvd, hle, hlast⟩ := hroom
  have hsum : add32 areaBegin blockHeaderSize = areaBegin + blockHeaderSize := add32_of_lt (by omega)
  rw [getFirstAndLastBlock_eq hpage hlt (by omega) (by omega), hsum]
  have hnext := dvd_add_shortfall (v := areaBegin + blockHeaderSize) hpage
  have hmissing := shortfall_lt (v := areaBegin + blockHeaderSize) hpage
  generalize shortfall (areaBegin + blockHeaderSize) page = missing at *
  have hleast : areaBegin + missing ≤ first := by
    by_contra hgt
    have hstep := dvd_add_le halign hnext (by omega)
    omega
  have hfits : last - first ≤ alignDown (areaSize - (blockHeaderSize + missing)) page :=
    le_alignDown hdvd (by omega)
  exact ⟨_, if_pos ⟨hwrap, by omega, by omega⟩⟩

/-- The blocks that are found have room in the area. -/
theorem getFirstAndLastBlock_layout (hpage : 0 < page) (hlt : page + 8 ≤ 2 ^ 32)
    (hbegin : areaBegin < 2 ^ 32) (hsize : areaSize < 2 ^ 32)
    (h : getFirstAndLastBlock areaBegin areaSize page minBlock = some (first, last)) :
    areaBegin + areaSize < 2 ^ 32 ∧ AreaLayout areaBegin areaSize page minBlock first last := by
  rw [getFirstAndLastBlock_eq hpage hlt hbegin hsize] at h
  have hnext := dvd_add_shortfall (v := add32 areaBegin blockHeaderSize) hpage
  generalize shortfall (add32 areaBegin blockHeaderSize) page = missing at *
  simp only at h
  split at h
  next hcond =>
    obtain ⟨hwrap, hroom, hmin⟩ := hcond
    have hdvd := dvd_alignDown (areaSize - (blockHeaderSize + missing)) page
    have hdown := alignDown_le (areaSize - (blockHeaderSize + missing)) page
    cases h
    have hsum : add32 areaBegin blockHeaderSize = areaBegin + blockHeaderSize :=
      add32_of_lt (by omega)
    rw [hsum, Nat.add_right_comm] at hnext
    refine ⟨hwrap, Nat.le_add_right _ _, hnext, ?_, ?_, by omega, by omega⟩
    · rw [Nat.add_right_comm]
      exact hnext.add hdvd
    · rwa [Nat.add_sub_cancel_left]
  next => cases h

/-! ## The heap with one free block -/

/-- `_Heap_Initialize` with the page size and the blocks that it found. -/
def initialized (s : State) (areaBegin areaEnd page first last : Nat) : State :=
  let s := s.setPrevSize first areaEnd
  let s := s.setSizeAndFlag first (flagSet (sub32 last first))
  let links := (s.links.setNext (.block first) .freeList).setPrev (.block first) .freeList
  let s := { s with
    links := (links.setNext .freeList (.block first)).setPrev .freeList (.block first)
    pageSize := page
    minBlockSize := minBlockSizeOf page
    areaBegin := areaBegin
    areaEnd := areaEnd
    firstBlock := first
    lastBlock := last }
  let s := s.setPrevSize last (sub32 last first)
  let s := s.setSizeAndFlag last 0
  (setLastBlockSize s).setStats fun _ => .initial (sub32 last first)

theorem initializeHeap_eq (hpage : pageSize < 2 ^ 32) :
    initializeHeap s areaBegin areaSize pageSize =
      if alignedPage pageSize < 2 ^ 32 then
        match getFirstAndLastBlock areaBegin areaSize (alignedPage pageSize)
          (minBlockSizeOf (alignedPage pageSize)) with
        | none => (s, 0)
        | some (first, last) =>
          (initialized s areaBegin (add32 areaBegin areaSize) (alignedPage pageSize) first last,
            sub32 last first)
      else (s, 0) := by
  simp only [initializeHeap, alignPageSize_eq hpage]
  by_cases hlt : alignedPage pageSize < 2 ^ 32
  · simp only [if_pos hlt]
    rfl
  · simp only [if_neg hlt]

theorem initialized_links (areaEnd : Nat) :
    FreeList (initialized s areaBegin areaEnd page first last).links [first] := by
  refine ⟨[first], List.Perm.refl _, ?_, by simp⟩
  simp [initialized, setLastBlockSize, blockSetSize, Links.Linked, Links.setNext, Links.setPrev,
    State.setSizeAndFlag, State.setPrevSize, State.setStats]

theorem initialized_wellFormed (areaEnd : Nat) (hpage : 0 < page) (hlt : page < 2 ^ 32)
    (heven : cpuAlignment ∣ page) (hwrap : areaBegin + areaSize < 2 ^ 32)
    (hroom : AreaLayout areaBegin areaSize page (minBlockSizeOf page) first last) :
    WellFormed (initialized s areaBegin areaEnd page first last) [⟨first, last - first, false⟩] := by
  obtain ⟨hfirst, halign, hlastAlign, hdvd, hle, hlast⟩ := hroom
  obtain ⟨hsixteen, -, -⟩ := minBlockSizeOf_spec hpage hlt
  have hne : first ≠ last := by omega
  have hsize : sub32 last first = last - first := sub32_of_le (by omega) (by omega)
  have hback : sub32 first last = first + 2 ^ 32 - last := by
    rw [sub32_of_lt (by omega) (by omega)]
    omega
  have heven' : 2 ∣ last - first := Nat.dvd_trans (Nat.dvd_trans (by decide) heven) hdvd
  have hgeom : (initialized s areaBegin areaEnd page first last).geometry =
      ⟨page, minBlockSizeOf page, first, last⟩ := rfl
  refine ⟨?_, ?_, ?_⟩
  · rw [hgeom]
    have hfits : last + blockHeaderSize < 2 ^ 32 := by omega
    refine ⟨hpage, hlt, heven, rfl, halign, ?_, rfl, hfits, ?_⟩
    · have hpos : 0 < last - first := by omega
      have hsum : first + (last - first) = last := by omega
      have hposEnd : 0 < first + 2 ^ 32 - last := by omega
      have hend : first + (last - first) + (first + 2 ^ 32 - last) = first + 2 ^ 32 := by omega
      exact ⟨rfl, hpos, hsum.symm, hposEnd, hend⟩
    · intro b hb hbelow
      simp only [List.cons_append, List.nil_append, List.mem_cons, List.not_mem_nil, or_false] at hb
      rcases hb with rfl | rfl
      · exact ⟨hdvd, by simp only; omega⟩
      · exact absurd hbelow (Nat.lt_irrefl _)
  · have hword : (initialized s areaBegin areaEnd page first last).sizeAndFlag first =
        last - first + 1 := by
      simp [initialized, setLastBlockSize, blockSetSize, State.setSizeAndFlag, State.setPrevSize,
        State.setStats, hne, hsize, flagSet_even heven']
    have hlastWord : (initialized s areaBegin areaEnd page first last).sizeAndFlag last =
        first + 2 ^ 32 - last := by
      simp [initialized, setLastBlockSize, blockSetSize, State.setSizeAndFlag, State.setPrevSize,
        State.setStats, isPrevUsed, hback]
    have hprev : (initialized s areaBegin areaEnd page first last).prevSize last = last - first := by
      simp [initialized, setLastBlockSize, blockSetSize, State.setSizeAndFlag, State.setPrevSize,
        State.setStats, hsize]
    refine ⟨⟨hword, ?_⟩, ⟨hlastWord, ?_⟩, trivial⟩
    · intro m hm
      cases hm
    · intro m hm
      cases hm
      exact ⟨hprev, rfl⟩
  · have hfrees : frees ([⟨first, last - first, false⟩] ++
        [(initialized s areaBegin areaEnd page first last).geometry.endBlock]) = [first] := rfl
    rw [hfrees]
    exact initialized_links areaEnd

/-- A memory of zeros. -/
def blank : State where
  prevSize := fun _ => 0
  sizeAndFlag := fun _ => 0
  links := ⟨fun _ => .null, fun _ => .null⟩
  pageSize := 0
  minBlockSize := 0
  areaBegin := 0
  areaEnd := 0
  firstBlock := 0
  lastBlock := 0
  stats := .initial 0

/-- The result is zero, or the heap is the one with one free block. -/
theorem initializeHeap_cases (hbegin : areaBegin < 2 ^ 32) (hsize : areaSize < 2 ^ 32)
    (hpage : pageSize < 2 ^ 32) :
    initializeHeap s areaBegin areaSize pageSize = (s, 0) ∨
      ∃ first last, alignedPage pageSize < 2 ^ 32 ∧ areaBegin + areaSize < 2 ^ 32 ∧
        AreaLayout areaBegin areaSize (alignedPage pageSize)
          (minBlockSizeOf (alignedPage pageSize)) first last ∧
        initializeHeap s areaBegin areaSize pageSize =
          (initialized s areaBegin (add32 areaBegin areaSize) (alignedPage pageSize) first last,
            last - first) := by
  obtain ⟨hpos, hdvd⟩ := alignedPage_spec pageSize
  rw [initializeHeap_eq hpage]
  split
  next hlt =>
    have hbound : alignedPage pageSize + 8 ≤ 2 ^ 32 := dvd_add_le hdvd (by decide) hlt
    obtain ⟨hsixteen, -, -⟩ := minBlockSizeOf_spec hpos hlt
    cases hblocks : getFirstAndLastBlock areaBegin areaSize (alignedPage pageSize)
        (minBlockSizeOf (alignedPage pageSize)) with
    | none => exact .inl rfl
    | some blocks =>
      obtain ⟨first, last⟩ := blocks
      obtain ⟨hwrap, hroom⟩ := getFirstAndLastBlock_layout hpos hbound hbegin hsize hblocks
      have hdiff : sub32 last first = last - first := by
        have hmin := hroom.min_le
        have hlast := hroom.last_le
        exact sub32_of_le (by omega) (by omega)
      refine .inr ⟨first, last, hlt, hwrap, hroom, ?_⟩
      simp only [hdiff]
  next => exact .inl rfl

/-- If the initialization succeeds, the sum of begin and size does not overflow and the first and
the last block are in the area, with room for an area between them.  It succeeds if there are two
such blocks. -/
theorem initializeHeap_exact (s : State) {areaBegin areaSize pageSize : Nat}
    (hbegin : areaBegin < 2 ^ 32) (hsize : areaSize < 2 ^ 32) (hpage : pageSize < 2 ^ 32) :
    ((initializeHeap s areaBegin areaSize pageSize).2 ≠ 0 →
      ∃ s' size, initializeHeap s areaBegin areaSize pageSize = (s', size) ∧
        areaBegin + areaSize < 2 ^ 32 ∧ s'.pageSize = alignedPage pageSize ∧
        s'.minBlockSize = minBlockSizeOf s'.pageSize ∧
        AreaLayout areaBegin areaSize s'.pageSize s'.minBlockSize s'.firstBlock s'.lastBlock ∧
        allocAreaOfBlock s'.firstBlock + (size - allocBonus) ≤ areaBegin + areaSize ∧
        blockSize s' s'.firstBlock = size ∧ s'.pageSize ∣ size ∧ s'.minBlockSize ≤ size ∧
        size = s'.lastBlock - s'.firstBlock ∧
        WellFormed s' [⟨s'.firstBlock, size, false⟩]) ∧
    (areaBegin + areaSize < 2 ^ 32 → alignedPage pageSize < 2 ^ 32 →
      (∃ first last, AreaLayout areaBegin areaSize (alignedPage pageSize)
        (minBlockSizeOf (alignedPage pageSize)) first last) →
      (initializeHeap s areaBegin areaSize pageSize).2 ≠ 0) := by
  obtain ⟨hpos, hdvd⟩ := alignedPage_spec pageSize
  constructor
  · intro hne
    rcases initializeHeap_cases (s := s) hbegin hsize hpage with hzero | hfound
    · rw [hzero] at hne
      exact absurd rfl hne
    · obtain ⟨first, last, hlt, hwrap, hroom, heq⟩ := hfound
      have hformed := initialized_wellFormed (s := s) (add32 areaBegin areaSize) hpos hlt hdvd hwrap
        hroom
      have hmin := hroom.min_le
      have hlast := hroom.last_le
      have harea : allocAreaOfBlock first = first + blockHeaderSize := add32_of_lt (by omega)
      refine ⟨_, _, heq, hwrap, rfl, rfl, hroom, ?_, ?_, hroom.size_dvd, ?_, rfl, hformed⟩
      · have hfirst : allocAreaOfBlock first + (last - first - allocBonus) ≤
            areaBegin + areaSize := by
          rw [harea]
          simp only [blockHeaderSize, allocBonus] at *
          omega
        exact hfirst
      · exact hformed.blockSize (b := ⟨first, last - first, false⟩) (by simp)
      · have hminSize : minBlockSizeOf (alignedPage pageSize) ≤ last - first := by omega
        exact hminSize
  · rintro hwrap hlt ⟨first, last, hroom⟩
    obtain ⟨hsixteen, -, -⟩ := minBlockSizeOf_spec hpos hlt
    have hbound : alignedPage pageSize + 8 ≤ 2 ^ 32 := dvd_add_le hdvd (by decide) hlt
    obtain ⟨⟨f, l⟩, hblocks⟩ := getFirstAndLastBlock_isSome hpos hbound hwrap (by omega) hroom
    obtain ⟨-, hfound⟩ := getFirstAndLastBlock_layout hpos hbound hbegin hsize hblocks
    have hmin := hfound.min_le
    have hlast := hfound.last_le
    have hdiff : sub32 l f = l - f := sub32_of_le (by omega) (by omega)
    rw [initializeHeap_eq hpage, if_pos hlt, hblocks]
    simp only [hdiff]
    omega

theorem initializeHeap_exact_small : ∃ s' size, initializeHeap blank 1000 200 8 = (s', size) ∧
    1000 + 200 < 2 ^ 32 ∧ s'.pageSize = alignedPage 8 ∧
    s'.minBlockSize = minBlockSizeOf s'.pageSize ∧
    AreaLayout 1000 200 s'.pageSize s'.minBlockSize s'.firstBlock s'.lastBlock ∧
    allocAreaOfBlock s'.firstBlock + (size - allocBonus) ≤ 1000 + 200 ∧
    blockSize s' s'.firstBlock = size ∧ s'.pageSize ∣ size ∧ s'.minBlockSize ≤ size ∧
    size = s'.lastBlock - s'.firstBlock ∧ WellFormed s' [⟨s'.firstBlock, size, false⟩] :=
  (initializeHeap_exact blank (by decide) (by decide) (by decide)).1 (by decide)

/-- A heap of 192 bytes. -/
def small : State := (initializeHeap blank 1000 200 8).1

theorem small_wellFormed : WellFormed small [⟨1000, 192, false⟩] := by
  have hroom : AreaLayout 1000 200 8 (minBlockSizeOf 8) 1000 1192 := by
    refine ⟨?_, ?_, ?_, ?_, ?_, ?_⟩ <;> decide
  have hsmall : small = initialized blank 1000 1200 8 1000 1192 := rfl
  rw [hsmall]
  exact initialized_wellFormed 1200 (by decide) (by decide) (by decide) (by decide) hroom

end Rtems.Heap
