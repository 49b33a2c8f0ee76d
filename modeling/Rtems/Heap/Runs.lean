import Rtems.Heap.Information
import Rtems.Lib.Runs

/-!
# Runs of a heap

From an initialization that succeeds, areas are allocated, released and resized.
A heap stays well formed, and its statistics exact, as long as no area is resized
that begins behind the end of its block.
-/

namespace Rtems.Heap

open Lib

/-- A heap and the begins of the live areas. -/
structure System where
  heap : State
  live : List Nat

inductive Event where
  | allocate (allocSize alignment boundary : Nat)
  | free (allocBegin : Nat)
  | resize (allocBegin newAllocSize : Nat)
deriving DecidableEq, Repr

/-- Only live areas are released and resized.  The loops of the allocation make this many turns. -/
def step (turns : Nat) (c : System) : Event → System
  | .allocate allocSize alignment boundary =>
    match allocateAlignedWithBoundary turns c.heap allocSize alignment boundary with
    | some (heap, allocBegin) => ⟨heap, if allocBegin = 0 then c.live else allocBegin :: c.live⟩
    | none => c
  | .free allocBegin =>
    if allocBegin ∈ c.live then ⟨(free c.heap allocBegin).1, c.live.erase allocBegin⟩ else c
  | .resize allocBegin newAllocSize =>
    if allocBegin ∈ c.live then ⟨(resizeBlock c.heap allocBegin newAllocSize).1, c.live⟩ else c

/-- The heap after `_Heap_Initialize`, without a live area. -/
structure Started (c : System) : Prop where
  heap : ∃ s areaBegin areaSize pageSize size, areaBegin < 2 ^ 32 ∧ areaSize < 2 ^ 32 ∧
    pageSize < 2 ^ 32 ∧ initializeHeap s areaBegin areaSize pageSize = (c.heap, size) ∧ size ≠ 0
  live : c.live = []

/-- The area does not begin behind the end of its block. -/
def BeginsInBlock (s : State) (allocBegin : Nat) : Prop :=
  allocBegin ≤ blockOfAllocArea allocBegin s.pageSize +
    blockSize s (blockOfAllocArea allocBegin s.pageSize) + allocBonus

/-- The heap is well formed, and its statistics are exact. -/
def Sound (c : System) : Prop := ∃ all, Exact c.heap all c.live

/-- An area that is resized does not begin behind the end of its block. -/
def ResizesInBlock (c : System) : Event → Prop
  | .resize allocBegin _ => allocBegin ∈ c.live → BeginsInBlock c.heap allocBegin
  | _ => True

variable {s : State} {bs all : List Block} {live : List Nat} {c c' : System} {turns : Nat}
  {e : Event} {es : List Event} {cs : List System}

theorem Started.fresh (h : Started c) : ∃ first size,
    WellFormed c.heap [⟨first, size, false⟩] ∧ c.heap.stats = .initial size := by
  obtain ⟨s, areaBegin, areaSize, pageSize, size, hbegin, hsize, hpage, heq, hne⟩ := h.heap
  obtain ⟨hpos, hdvd⟩ := alignedPage_spec pageSize
  rcases initializeHeap_cases (s := s) hbegin hsize hpage with hzero | hfound
  · rw [hzero] at heq
    exact absurd (congrArg Prod.snd heq).symm hne
  · obtain ⟨first, last, hlt, hwrap, hroom, hinit⟩ := hfound
    have hformed := initialized_wellFormed (s := s) (add32 areaBegin areaSize) hpos hlt hdvd hwrap
      hroom
    have hmin := hroom.min_le
    have hlast := hroom.last_le
    have hdiff : sub32 last first = last - first := sub32_of_le (by omega) (by omega)
    rw [hinit] at heq
    have hheap : initialized s areaBegin (add32 areaBegin areaSize) (alignedPage pageSize) first last =
        c.heap := congrArg Prod.fst heq
    rw [← hheap]
    refine ⟨first, last - first, hformed, ?_⟩
    rw [← hdiff]
    rfl

theorem Started.sound (h : Started c) : Sound c := by
  obtain ⟨first, size, hformed, hstats⟩ := h.fresh
  refine ⟨_, hformed, ?_, ?_, ?_, ?_, ?_⟩
  · rw [h.live]
    exact List.Perm.refl _
  · rw [hstats]
    rfl
  · rw [hstats]
    rfl
  · rw [hstats, h.live]
    rfl
  · rw [hstats]
    exact BitVec.sub_self 0

/-- A step that leaves more free blocks than there were, although it frees none: an area is cut out
of the middle of a free block, or the end of a block before a used one is given back. -/
def AddsFreeBlock (turns : Nat) (c : System) : Event → Prop
  | .allocate allocSize alignment boundary =>
    ∃ x p, foundArea turns c.heap allocSize alignment boundary = some (x, p) ∧
      let z := front c.heap.geometry x p
      let rest := blockSize c.heap x - z
      z ≠ 0 ∧ cutSize c.heap.geometry rest (splitRequest x z p allocSize) < rest
  | .free _ => False
  | .resize p newSize =>
    let x := blockOfAllocArea p c.heap.pageSize
    let size := blockSize c.heap x
    p ∈ c.live ∧ isUsed c.heap (blockAt x size) = true ∧ p + newSize ≤ x + size + allocBonus ∧
      keptSize c.heap.geometry x size p newSize < size

/-- What a step does to the blocks and to the counters. -/
inductive Moves (old new : Counts) (adds : Prop) : List Block → List Block → Prop where
  | stay {all : List Block} (counts : new = old) : Moves old new adds all all
  | serve {as ds : List Block} {n : Block} {x size z u r : Nat} (stats : Statistics)
      (before : stats.counts = old) (sum : z + u + r = size)
      (counts : new = { ((((stats.takeBlock size).leave z).leave r).updateMinFreeSize).counts with
        allocs := old.allocs + 1 })
      (middle : z ≠ 0 → r ≠ 0 → adds) :
      Moves old new adds (as ++ ⟨x, size, false⟩ :: n :: ds)
        (as ++ (remnant x z ++ ⟨x + z, u, true⟩ :: (remnant (x + z + u) r ++ n :: ds)))
  | release {as ds : List Block} {n : Block} {w z size r : Nat} (stats : Statistics)
      (before : stats.counts = old) (counts : new = (stats.giveBack z size r).counts) :
      Moves old new adds
        (as ++ (remnant w z ++ ⟨w + z, size, true⟩ :: (remnant (w + z + size) r ++ n :: ds)))
        (as ++ ⟨w, z + size + r, false⟩ :: n :: ds)
  | resize {as ds : List Block} {n : Block} {x size r u : Nat} (stats : Statistics)
      (before : stats.counts = old)
      (counts : new = ((stats.takeNext r).leave (size + r - u)).updateMinFreeSize.counts)
      (back : r = 0 → u < size → adds) :
      Moves old new adds (as ++ ⟨x, size, true⟩ :: (remnant (x + size) r ++ n :: ds))
        (as ++ ⟨x, u, true⟩ :: (remnant (x + u) (size + r - u) ++ n :: ds))

/-- A step keeps the statistics exact. -/
theorem Exact.moves (turns : Nat) (h : Exact c.heap all c.live) (hok : ResizesInBlock c e) :
    ∃ all', Exact (step turns c e).heap all' (step turns c e).live ∧
      Moves c.heap.stats.counts (step turns c e).heap.stats.counts (AddsFreeBlock turns c e)
        all all' := by
  cases e with
  | allocate allocSize alignment boundary =>
    simp only [Heap.step]
    cases hrun : allocateAlignedWithBoundary turns c.heap allocSize alignment boundary with
    | none => exact ⟨all, h, .stay rfl⟩
    | some result =>
      obtain ⟨s', p⟩ := result
      rcases h.formed.allocateAligned hrun with
        ⟨rfl, hrefused⟩ | ⟨hp, as, x, size, n, ds, rfl, hserved⟩
      · obtain ⟨f, rfl, hf⟩ := hrefused.result
        exact ⟨all, h.setStats (hf _), .stay (hf _)⟩
      · have hsize : blockSize c.heap x = size := h.formed.blockSize (b := ⟨x, size, false⟩) (by simp)
        obtain ⟨z, u, r, hsum, hz, hu, -, hcounts, hexact⟩ := h.serve hserved
        simp only [hp, if_false]
        refine ⟨_, hexact, .serve c.heap.stats rfl hsum hcounts ?_⟩
        intro hzne hrne
        refine ⟨x, p, hserved.found, ?_⟩
        simp only [hsize, ← hz, ← hu]
        exact ⟨hzne, by omega⟩
  | free p =>
    simp only [Heap.step]
    split
    next hp =>
      obtain ⟨s', as, w, z, size, r, n, ds, rfl, heq, -, hstats, hexact⟩ := h.release hp
      rw [heq]
      exact ⟨_, hexact, .release c.heap.stats rfl (congrArg Statistics.counts hstats)⟩
    next => exact ⟨all, h, .stay rfl⟩
  | resize p newSize =>
    simp only [Heap.step]
    split
    next hp =>
      rcases h.resize newSize hp (hok hp) with hsame | hresized
      · rw [hsame]
        exact ⟨all, h, .stay rfl⟩
      · obtain ⟨s', as, x, size, r, n, ds, u, rfl, hblock, hn, hu, -, hfits, heq, -, hstats,
          hexact⟩ := hresized
        rw [heq]
        have hcounts : s'.stats.counts =
            ((c.heap.stats.takeNext r).leave (size + r - u)).updateMinFreeSize.counts := by
          rw [hstats, Statistics.counts_countResize]
        refine ⟨_, hexact, .resize c.heap.stats rfl hcounts ?_⟩
        rintro rfl hlt
        have hsize : blockSize c.heap x = size :=
          h.formed.blockSize (b := ⟨x, size, true⟩) (by simp)
        have hnext : blockAt x size = n.begin :=
          Inner.blockAt h.formed.layout.inner h.formed.layout.fits
        have hused : isUsed c.heap n.begin = true := by
          rw [h.formed.isUsed (by simp)]
          exact hn
        simp only [AddsFreeBlock, hblock, hsize, hnext]
        refine ⟨hp, hused, by simpa using hfits, ?_⟩
        rw [hu] at hlt
        exact hlt
    next => exact ⟨all, h, .stay rfl⟩

/-- In a run that resizes only areas that begin in their blocks, the statistics stay exact. -/
theorem Started.run (h : Started c) (hrun : Along (step turns) ResizesInBlock c es) :
    ∀ c' ∈ states (step turns) c es, Sound c' := by
  have hstep : ∀ c e, Sound c → ResizesInBlock c e → Sound (Heap.step turns c e) := by
    rintro c e ⟨all, hexact⟩ hok
    obtain ⟨all', hexact', -⟩ := hexact.moves turns hok
    exact ⟨all', hexact'⟩
  exact forall_states hstep h.sound hrun

/-- The heap is well formed in all states of a run that resizes only areas that begin in their
blocks. -/
theorem heap_wellFormed {c : System} (h : Started c) (turns : Nat) (es : List Event)
    (hrun : Along (step turns) ResizesInBlock c es) :
    ∀ c' ∈ states (step turns) c es, ∃ bs, WellFormed c'.heap bs := by
  intro c' hc'
  obtain ⟨all, hexact⟩ := h.run hrun c' hc'
  obtain ⟨bs, rfl⟩ := hexact.formed.layout.exists_init
  exact ⟨bs, hexact.formed⟩

theorem small_started : Started ⟨small, []⟩ :=
  ⟨⟨blank, 1000, 200, 8, 192, by decide, by decide, by decide, rfl, by decide⟩, rfl⟩

theorem tiny_started : Started ⟨tiny, []⟩ :=
  ⟨⟨blank, 1000, 56, 16, 48, by decide, by decide, by decide, rfl, by decide⟩, rfl⟩

/-- Three areas that fill the heap, of which the last two have blocks of their own. -/
def fill : List Event := [.allocate 0 61 0, .allocate 0 0 0, .allocate 0 0 0]

/-- The area that begins behind its block is made smaller. -/
def shrink : List Event := fill ++ [.resize 1037 0]

/-- An area is made smaller and another one is released before a third one is taken. -/
def handled : List Event :=
  [.allocate 20 0 0, .allocate 40 0 0, .resize 1008 4, .free 1040, .allocate 30 16 0]

theorem handled_resizesInBlock : Along (step 4) ResizesInBlock ⟨small, []⟩ handled := by
  have hbegins : BeginsInBlock ((handled.take 2).foldl (step 4) ⟨small, []⟩).heap 1008 := by
    unfold BeginsInBlock
    decide_cbv
  exact ⟨trivial, trivial, fun _ => hbegins, trivial, trivial, trivial⟩

theorem heap_wellFormed_small :
    ∃ bs, WellFormed (handled.foldl (step 4) ⟨small, []⟩).heap bs :=
  heap_wellFormed small_started 4 handled handled_resizesInBlock _ mem_states_foldl

/-- The last block of a well-formed heap is not free. -/
theorem WellFormed.first_ne_last (h : WellFormed s bs) : freeListFirst s ≠ .block s.lastBlock := by
  obtain ⟨fl, hperm, hring⟩ := h.freeList
  have hfirst : freeListFirst s = Links.firstOf .freeList (fl.map .block) := hring.next_head
  rw [hfirst]
  intro hlast
  cases fl with
  | nil => cases hlast
  | cons x fl =>
    have hx : x = s.lastBlock := by simpa using hlast
    have hmem : x ∈ frees (bs ++ [s.geometry.endBlock]) := hperm.mem_iff.mp List.mem_cons_self
    obtain ⟨b, hb, hbegin⟩ := List.mem_map.mp hmem
    obtain ⟨hb, hfree⟩ := List.mem_filter.mp hb
    have hend : b = s.geometry.endBlock :=
      h.layout.tiles.inj hb (by simp) (hbegin.trans hx)
    rw [hend] at hfree
    cases hfree

/-- The last block of the heap is put on the free list. -/
theorem shrink_malformed : ¬ ∃ bs, WellFormed (shrink.foldl (step 4) ⟨tiny, []⟩).heap bs := by
  rintro ⟨bs, hformed⟩
  have hlast : freeListFirst (shrink.foldl (step 4) ⟨tiny, []⟩).heap =
      .block (shrink.foldl (step 4) ⟨tiny, []⟩).heap.lastBlock := by decide_cbv
  exact hformed.first_ne_last hlast

theorem heap_malformed : Started ⟨tiny, []⟩ ∧
    ∃ c ∈ states (step 4) ⟨tiny, []⟩ shrink, ¬ ∃ bs, WellFormed c.heap bs :=
  ⟨tiny_started, shrink.foldl (step 4) ⟨tiny, []⟩, mem_states_foldl, shrink_malformed⟩

/-! ## Statistics -/

/-- The statistics tell about the blocks and the live areas, and agree with what the walks through
the blocks and through the free list count. -/
structure Counted (s : State) (bs : List Block) (live : List Nat) : Prop where
  freeSize : s.stats.freeSize.toNat = freeTotal bs
  freeBlocks : ∃ fl : List Nat, s.links.Ring .freeList (fl.map .block) ∧
    s.stats.freeBlocks.toNat = fl.length
  usedBlocks : s.stats.usedBlocks.toNat = live.length
  balance : s.stats.allocs - s.stats.frees = s.stats.usedBlocks
  information : ∀ turns, bs.length ≤ turns → ∃ info, getInformation turns s = some info ∧
    info.Free.total = s.stats.freeSize ∧ info.Free.number = s.stats.freeBlocks ∧
    info.Used.number = s.stats.usedBlocks ∧ info.Stats = s.stats
  freeInformation : ∀ turns, bs.length ≤ turns → ∃ info, getFreeInformation turns s = some info ∧
    info.total = s.stats.freeSize ∧ info.number = s.stats.freeBlocks

theorem Exact.counted (h : Exact s (bs ++ [s.geometry.endBlock]) live) : Counted s bs live := by
  have hlast : s.geometry.endBlock.used = true := rfl
  have hfreeTotal : freeTotal (bs ++ [s.geometry.endBlock]) = freeTotal bs := by
    simp [freeTotal, hlast]
  have hfrees : frees (bs ++ [s.geometry.endBlock]) = frees bs := by simp [frees, hlast]
  have hused : (usedLines bs).length = live.length := by
    have hlength := h.length_live
    simpa [usedLines, hlast] using hlength
  have hfreeSize : s.stats.freeSize = BitVec.ofNat 32 (freeTotal bs) := by
    rw [← hfreeTotal]
    exact h.freeSize
  have hfreeBlocks : s.stats.freeBlocks = BitVec.ofNat 32 (frees bs).length := by
    rw [← hfrees]
    exact h.freeBlocks
  have husedBlocks : s.stats.usedBlocks = BitVec.ofNat 32 live.length := h.usedBlocks
  refine ⟨?_, ?_, h.toNat_usedBlocks, h.balance, ?_, ?_⟩
  · rw [← hfreeTotal]
    exact h.toNat_freeSize
  · obtain ⟨fl, hperm, hring⟩ := h.formed.freeList
    refine ⟨fl, hring, ?_⟩
    rw [hperm.length_eq]
    exact h.toNat_freeBlocks
  · intro turns hturns
    obtain ⟨info, heq, hstats, hnumber, htotal, husedNumber⟩ :=
      WellFormed.getInformation_eq h.formed hturns
    rw [hused] at husedNumber
    exact ⟨info, heq, htotal.trans hfreeSize.symm, hnumber.trans hfreeBlocks.symm,
      husedNumber.trans husedBlocks.symm, hstats⟩
  · intro turns hturns
    obtain ⟨info, heq, hnumber, htotal⟩ := WellFormed.getFreeInformation_eq h.formed hturns
    exact ⟨info, heq, htotal.trans hfreeSize.symm, hnumber.trans hfreeBlocks.symm⟩

/-- The statistics are exact in all states of a run that resizes only areas that begin in their
blocks. -/
theorem heap_statistics {c : System} (h : Started c) (turns : Nat) (es : List Event)
    (hrun : Along (step turns) ResizesInBlock c es) :
    ∀ c' ∈ states (step turns) c es,
      ∃ bs, WellFormed c'.heap bs ∧ Counted c'.heap bs c'.live := by
  intro c' hc'
  obtain ⟨all, hexact⟩ := h.run hrun c' hc'
  obtain ⟨bs, rfl⟩ := hexact.formed.layout.exists_init
  exact ⟨bs, hexact.formed, hexact.counted⟩

theorem heap_statistics_small :
    let c := handled.foldl (step 4) ⟨small, []⟩
    ∃ bs, WellFormed c.heap bs ∧ Counted c.heap bs c.live :=
  heap_statistics small_started 4 handled handled_resizesInBlock _ mem_states_foldl

/-- A free block is counted that the walk through the blocks does not find. -/
theorem heap_statistics_wrong : Started ⟨tiny, []⟩ ∧
    ∃ c ∈ states (step 4) ⟨tiny, []⟩ shrink,
      (∃ info, getInformation 4 c.heap = some info ∧ info.Free.number ≠ c.heap.stats.freeBlocks) ∧
      ¬ ∃ bs, WellFormed c.heap bs ∧ Counted c.heap bs c.live := by
  refine ⟨tiny_started, shrink.foldl (step 4) ⟨tiny, []⟩, mem_states_foldl, ?_, ?_⟩
  · have hnumber : (getInformation 4 (shrink.foldl (step 4) ⟨tiny, []⟩).heap).map
        (·.Free.number) = some 0 := by decide_cbv
    have hblocks : (shrink.foldl (step 4) ⟨tiny, []⟩).heap.stats.freeBlocks = 1 := by decide_cbv
    obtain ⟨info, heq, hfree⟩ := Option.map_eq_some_iff.mp hnumber
    refine ⟨info, heq, ?_⟩
    rw [hfree, hblocks]
    decide
  · rintro ⟨bs, hformed, -⟩
    exact shrink_malformed ⟨bs, hformed⟩

/-! ## High-water marks -/

/-- There are no more free blocks than there have been before. -/
def Quiet (turns : Nat) (c : System) (e : Event) : Prop :=
  ResizesInBlock c e ∧
    (AddsFreeBlock turns c e → c.heap.stats.freeBlocks < c.heap.stats.maxFreeBlocks)

/-- How a step moves the high-water marks. -/
structure Marked (old new : Counts) : Prop where
  minFreeSize : new.minFreeSize = old.minFreeSize ∧ old.minFreeSize ≤ new.freeSize ∨
    new.minFreeSize = new.freeSize ∧ new.freeSize ≤ old.minFreeSize
  maxFreeBlocks : old.maxFreeBlocks ≤ new.maxFreeBlocks ∧ new.freeBlocks ≤ new.maxFreeBlocks

theorem lowered_cases {least size : BitVec 32} :
    (if least > size then size else least) = least ∧ least ≤ size ∨
      (if least > size then size else least) = size ∧ size ≤ least := by
  split
  next hgt => exact .inr ⟨rfl, BitVec.le_of_lt hgt⟩
  next hle => exact .inl ⟨rfl, BitVec.not_lt.mp hle⟩

theorem Moves.marked {old new : Counts} {adds : Prop} {all' : List Block}
    (h : Moves old new adds all all')
    (hsize : old.freeSize.toNat = freeTotal all) (hsize' : new.freeSize.toNat = freeTotal all')
    (hblocks : old.freeBlocks.toNat = (frees all).length)
    (hblocks' : new.freeBlocks.toNat = (frees all').length)
    (hleast : old.minFreeSize ≤ old.freeSize) (hmost : old.freeBlocks ≤ old.maxFreeBlocks)
    (hquiet : adds → old.freeBlocks < old.maxFreeBlocks) : Marked old new := by
  rw [BitVec.le_def, hblocks] at hmost
  rw [BitVec.lt_def, hblocks] at hquiet
  cases h with
  | stay hcounts =>
    subst hcounts
    refine ⟨.inl ⟨rfl, hleast⟩, BitVec.le_refl _, ?_⟩
    rw [BitVec.le_def, hblocks']
    exact hmost
  | serve stats hbefore hsum hcounts hmiddle =>
    have hmax : new.maxFreeBlocks = old.maxFreeBlocks := by simp [hcounts, ← hbefore]
    refine ⟨?_, ?_⟩
    · rw [hcounts, ← hbefore]
      simpa using lowered_cases
    · rw [hmax]
      refine ⟨BitVec.le_refl _, ?_⟩
      rw [BitVec.le_def, hblocks']
      simp only [frees_append, frees_cons_free, frees_cons_used, List.length_append,
        List.length_cons, length_frees_remnant] at hmost hquiet ⊢
      split
      next => split <;> omega
      next hz =>
        split
        next => omega
        next hr =>
          have hless := hquiet (hmiddle hz hr)
          omega
  | @release as ds n w z size r stats hbefore hcounts =>
    have hmin : new.minFreeSize = old.minFreeSize := by simp [hcounts, ← hbefore]
    refine ⟨.inl ⟨hmin, ?_⟩, ?_⟩
    · rw [BitVec.le_def] at hleast ⊢
      rw [hsize']
      rw [hsize] at hleast
      simp only [freeTotal_append, freeTotal_cons_used, freeTotal_cons_free, freeTotal_remnant]
        at hleast ⊢
      omega
    · have hmax : new.maxFreeBlocks = if z = 0 ∧ r = 0 ∧ old.maxFreeBlocks < old.freeBlocks + 1
          then old.freeBlocks + 1 else old.maxFreeBlocks := by simp [hcounts, ← hbefore]
      have hnew : z = 0 → r = 0 → new.freeBlocks = old.freeBlocks + 1 := by
        rintro rfl rfl
        simp [hcounts, ← hbefore]
      rw [hmax]
      split
      next hraised =>
        obtain ⟨hz, hr, hlt⟩ := hraised
        rw [hnew hz hr]
        exact ⟨BitVec.le_of_lt hlt, BitVec.le_refl _⟩
      next hkept =>
        refine ⟨BitVec.le_refl _, ?_⟩
        by_cases halone : z = 0 ∧ r = 0
        · obtain ⟨hz, hr⟩ := halone
          rw [hnew hz hr]
          exact BitVec.not_lt.mp fun hlt => hkept ⟨hz, hr, hlt⟩
        · rw [BitVec.le_def, hblocks']
          simp only [frees_append, frees_cons_free, frees_cons_used, List.length_append,
            List.length_cons, length_frees_remnant] at hmost ⊢
          split at hmost <;> split at hmost <;> omega
  | resize stats hbefore hcounts hback =>
    have hmax : new.maxFreeBlocks = old.maxFreeBlocks := by simp [hcounts, ← hbefore]
    refine ⟨?_, ?_⟩
    · rw [hcounts, ← hbefore]
      simpa using lowered_cases
    · rw [hmax]
      refine ⟨BitVec.le_refl _, ?_⟩
      rw [BitVec.le_def, hblocks']
      simp only [frees_append, frees_cons_used, List.length_append, length_frees_remnant]
        at hmost hquiet ⊢
      split
      next => omega
      next hrest =>
        split at hmost
        next hr =>
          have hless := hquiet (hback hr (by omega))
          rw [if_pos hr] at hless
          omega
        next => omega

/-- The marks of the last state are extremes of all the states. -/
structure Extremes (cs : List System) (c : System) : Prop where
  least : ∀ c' ∈ cs, c.heap.stats.minFreeSize ≤ c'.heap.stats.freeSize
  taken : ∃ c' ∈ cs, c.heap.stats.minFreeSize = c'.heap.stats.freeSize
  most : ∀ c' ∈ cs, c'.heap.stats.freeBlocks ≤ c.heap.stats.maxFreeBlocks

theorem Extremes.next (h : Extremes (cs ++ [c]) c)
    (hmarked : Marked c.heap.stats.counts c'.heap.stats.counts) :
    Extremes (cs ++ [c] ++ [c']) c' := by
  obtain ⟨hmin, hmax, hblocks⟩ := hmarked
  refine ⟨?_, ?_, ?_⟩
  · intro a ha
    rcases List.mem_append.mp ha with hold | hnew
    · rcases hmin with ⟨heq, -⟩ | ⟨heq, hle⟩
      · exact BitVec.le_trans (BitVec.le_of_eq heq) (h.least a hold)
      · exact BitVec.le_trans (BitVec.le_of_eq heq) (BitVec.le_trans hle (h.least a hold))
    · rw [List.mem_singleton.mp hnew]
      rcases hmin with ⟨heq, hle⟩ | ⟨heq, -⟩
      · exact BitVec.le_trans (BitVec.le_of_eq heq) hle
      · exact BitVec.le_of_eq heq
  · rcases hmin with ⟨heq, -⟩ | ⟨heq, -⟩
    · obtain ⟨a, ha, htaken⟩ := h.taken
      exact ⟨a, List.mem_append_left _ ha, heq.trans htaken⟩
    · exact ⟨c', by simp, heq⟩
  · intro a ha
    rcases List.mem_append.mp ha with hold | hnew
    · exact BitVec.le_trans (h.most a hold) hmax
    · rw [List.mem_singleton.mp hnew]
      exact hblocks

/-- The marks are those of the states before and of the run. -/
theorem Extremes.run (hsound : Sound c) (h : Extremes (cs ++ [c]) c)
    (hrun : Along (step turns) (Quiet turns) c es) :
    Extremes (cs ++ states (step turns) c es) (es.foldl (step turns) c) := by
  induction es generalizing cs c with
  | nil => exact h
  | cons e es ih =>
    obtain ⟨⟨hresizes, hquiet⟩, hrest⟩ := hrun
    obtain ⟨all, hexact⟩ := hsound
    obtain ⟨all', hexact', hmoves⟩ := hexact.moves turns hresizes
    have hleast := h.least c (by simp)
    have hmost := h.most c (by simp)
    have hmarked := hmoves.marked hexact.toNat_freeSize hexact'.toNat_freeSize
      hexact.toNat_freeBlocks hexact'.toNat_freeBlocks hleast hmost hquiet
    have hnext := ih ⟨all', hexact'⟩ (h.next hmarked) hrest
    rw [List.append_assoc] at hnext
    exact hnext

theorem Started.extremes (h : Started c) : Extremes [c] c := by
  obtain ⟨first, size, -, hstats⟩ := h.fresh
  refine ⟨?_, ⟨c, by simp, by rw [hstats]; rfl⟩, ?_⟩
  · intro a ha
    rw [List.mem_singleton.mp ha, hstats]
    exact BitVec.le_refl _
  · intro a ha
    rw [List.mem_singleton.mp ha, hstats]
    exact BitVec.le_refl _

/-- The marks are extremes of a run in which no step leaves more free blocks than there were
before without a look at the mark. -/
theorem heap_marks {c : System} (h : Started c) (turns : Nat) (es : List Event)
    (hrun : Along (step turns) (Quiet turns) c es) :
    Extremes (states (step turns) c es) (es.foldl (step turns) c) := by
  have hextremes : Extremes ([] ++ [c]) c := h.extremes
  exact hextremes.run h.sound hrun

/-- An area at the begin of a free block adds none. -/
theorem heap_marks_small : Extremes (states (step 4) ⟨small, []⟩ [.allocate 20 0 0])
    ([.allocate 20 0 0].foldl (step 4) ⟨small, []⟩) := by
  refine heap_marks small_started 4 [.allocate 20 0 0] ⟨⟨trivial, ?_⟩, trivial⟩
  rintro ⟨x, p, hfound, hfront, -⟩
  have hplace : foundArea 4 small 20 0 0 = some (1000, 1008) := by decide
  rw [hplace] at hfound
  cases hfound
  exact absurd rfl hfront

/-- An area in the middle of the only free block leaves two free blocks, and the mark stays. -/
theorem heap_marks_wrong : Started ⟨small, []⟩ ∧
    ¬ Extremes (states (step 4) ⟨small, []⟩ [.allocate 0 64 0])
      ([.allocate 0 64 0].foldl (step 4) ⟨small, []⟩) := by
  refine ⟨small_started, ?_⟩
  intro hextremes
  have hmost := hextremes.most _ mem_states_foldl
  revert hmost
  decide

end Rtems.Heap
