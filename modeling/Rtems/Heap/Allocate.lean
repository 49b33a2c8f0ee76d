import Rtems.Heap.Split

/-!
# Allocation

Where an area comes to lie in a free block, what the allocation of a block makes
of the heap, and the search through the free list.
-/

namespace Rtems.Heap

open Lib

variable {s s' : State} {as bs ds all : List Block} {b n : Block} {g : Geometry}
  {x y z p size allocSize alignment boundary fuel turns : Nat}

/-! ## Placing an area -/

/-- An area of this size at `p` in the block at `x`, whose first `z` bytes stay free. -/
structure Placed (g : Geometry) (x size p allocSize z : Nat) : Prop where
  block : alignDown p g.pageSize = x + z + blockHeaderSize
  front : z = 0 ∨ g.minBlockSize ≤ z ∧ z + g.minBlockSize ≤ size
  fits : p + allocSize ≤ x + size + allocBonus

/-- What `_Heap_Block_split` is asked for: the offset of the area counts at the begin of a block
only. -/
def splitRequest (x z p allocSize : Nat) : Nat :=
  if z = 0 then allocSize + (p - (x + blockHeaderSize)) else allocSize

theorem Placed.le (hp : Placed g x size p allocSize z) : x + z + blockHeaderSize ≤ p :=
  hp.block ▸ alignDown_le p g.pageSize

theorem Placed.lt (hp : Placed g x size p allocSize z) (hpage : 0 < g.pageSize) :
    p < x + z + blockHeaderSize + g.pageSize :=
  hp.block ▸ lt_alignDown_add hpage

/-- What the headers around a free block say. -/
theorem Formed.around_free (h : Formed s (as ++ ⟨x, size, false⟩ :: n :: ds)) :
    gapBehind none as = none ∧ n.used = true := by
  obtain ⟨-, hb, hn, -⟩ := h.split
  constructor
  · cases hgap : gapBehind none as with
    | none => rfl
    | some m => exact absurd (hb.behind m hgap).2 Bool.false_ne_true
  · exact (hn.behind size rfl).2

theorem setStats_setStats {f f' : Statistics → Statistics} :
    (s.setStats f).setStats f' = s.setStats (f' ∘ f) := rfl

/-- A free block is taken for an area. -/
def taken (s : State) (x size : Nat) : State :=
  (freeListRemove s (.block x)).setStats (·.takeBlock size)

@[simp]
theorem blockSize_freeListRemove {q : Pointer} :
    blockSize (freeListRemove s q) x = blockSize s x := by
  simp only [blockSize, sizeAndFlag_freeListRemove]

@[simp]
theorem pageSize_freeListRemove {q : Pointer} : (freeListRemove s q).pageSize = s.pageSize := rfl

@[simp]
theorem pageSize_setStats {f : Statistics → Statistics} : (s.setStats f).pageSize = s.pageSize := rfl

theorem blockAllocate_begin (hfree : isFree s x = true) (hsize : blockSize s x = size)
    (hoffset : sub32 p (allocAreaOfBlock x) < s.pageSize) :
    blockAllocate s x p allocSize =
      ((blockSplit (taken s x size) x (s.links.prev (.block x))
        (add32 allocSize (sub32 p (allocAreaOfBlock x)))).setStats (·.updateMinFreeSize), x) := by
  simp only [blockAllocate, hfree, if_true, blockSize_freeListRemove, hsize, pageSize_setStats,
    pageSize_freeListRemove, hoffset, taken]

theorem blockAllocate_end (hfree : isFree s x = true) (hsize : blockSize s x = size)
    (hoffset : ¬ sub32 p (allocAreaOfBlock x) < s.pageSize) :
    blockAllocate s x p allocSize =
      let r := blockAllocateFromEnd (taken s x size) x (s.links.prev (.block x)) p allocSize
      (r.1.setStats (·.updateMinFreeSize), r.2) := by
  simp only [blockAllocate, hfree, if_true, blockSize_freeListRemove, hsize, pageSize_setStats,
    pageSize_freeListRemove, hoffset, taken, if_false]

/-- `_Heap_Block_allocate` of a free block. -/
theorem Formed.blockAllocate (h : Formed s (as ++ ⟨x, size, false⟩ :: n :: ds))
    (hp : Placed s.geometry x size p allocSize z) :
    let request := splitRequest x z p allocSize
    let u := cutSize s.geometry (size - z) request
    ∃ s', Heap.blockAllocate s x p allocSize = (s', x + z) ∧
      Formed s' (as ++ (remnant x z ++ ⟨x + z, u, true⟩ ::
        (remnant (x + z + u) (size - z - u) ++ n :: ds))) ∧
      s'.stats = (((s.stats.takeBlock size).leave z).leave (size - z - u)).updateMinFreeSize ∧
      s'.geometry = s.geometry ∧
      u ≤ size - z ∧ usedSize s.geometry request ≤ u + allocBonus := by
  obtain ⟨hheader, hbonus⟩ := headerSizes
  obtain ⟨hgap, hn⟩ := h.around_free
  obtain ⟨hsixteen, hpage, -⟩ := h.layout.min_spec
  obtain ⟨hnext, -, hle, -, hmin, -⟩ := h.layout.inner
  have hfits := h.layout.fits
  have hple := hp.le
  have hplt := hp.lt h.layout.page_pos
  have hpfits := hp.fits
  simp only at hnext hmin
  have hfree : isFree s x = true := by
    have hused := h.isUsed (b := ⟨x, size, false⟩) (by simp)
    simp only at hused
    simp [isFree, hused]
  have hsize : Heap.blockSize s x = size := h.blockSize (b := ⟨x, size, false⟩) (by simp)
  have harea : allocAreaOfBlock x = x + blockHeaderSize := add32_of_lt (by omega)
  have hopened : Opened (taken s x size) as x size n ds := h.takeFree.setStats _
  have hanchor := h.prev_mem
  have hpmax : p < 2 ^ 32 := by
    have hfront := hp.front
    omega
  have hoffset : sub32 p (x + blockHeaderSize) = p - (x + blockHeaderSize) :=
    sub32_of_le (by omega) hpmax
  have hpageSize : s.geometry.pageSize = s.pageSize := rfl
  have hgeom : (taken s x size).geometry = s.geometry := rfl
  rcases Nat.eq_zero_or_pos z with rfl | hzpos
  · -- the area begins in the first page
    have hlt : p - (x + blockHeaderSize) < s.pageSize := by omega
    have hsum : add32 allocSize (p - (x + blockHeaderSize)) = splitRequest x 0 p allocSize :=
      add32_of_lt (by omega)
    have hrequest : splitRequest x 0 p allocSize + allocBonus ≤ size := by
      simp only [splitRequest, if_true]
      omega
    obtain ⟨hformed, hstats, hu, hused⟩ := hopened.split hn hrequest hanchor
    rw [hgeom] at hformed hstats hu hused
    rw [blockAllocate_begin hfree hsize (by rw [harea, hoffset]; exact hlt), harea, hoffset, hsum]
    refine ⟨_, rfl, hformed.setStats _, ?_, ?_, hu, hused⟩
    · simp only [stats_setStats, hstats, Statistics.leave_zero, Nat.sub_zero]
      rfl
    · simp [hgeom]
  · -- the pages before the area stay free
    obtain ⟨hzMin, hzSize⟩ := hp.front.resolve_left hzpos.ne'
    have hge : ¬ p - (x + blockHeaderSize) < s.pageSize := by
      have hminPage : s.geometry.minBlockSize = s.minBlockSize := rfl
      omega
    have hrequest : splitRequest x z p allocSize = allocSize := if_neg hzpos.ne'
    obtain ⟨s₁, hfront, hgeom₁, hstats₁, heq⟩ := hopened.allocateFromEnd allocSize
      hgap hzMin hzSize hp.block hanchor
    have hback : allocSize + allocBonus ≤ size - z := by omega
    have hanchorBack : Pointer.block x ∈ Pointer.freeList ::
        (frees (as ++ [⟨x, z, false⟩]) ++ frees (n :: ds)).map .block := by simp
    obtain ⟨hformed, hstats, hu, hused⟩ := hfront.split hn hback hanchorBack
    rw [hgeom₁, hgeom] at hformed hstats hu hused
    rw [blockAllocate_end hfree hsize (by rw [harea, hoffset]; exact hge), heq, hrequest,
      remnant_pos hzpos.ne']
    refine ⟨_, rfl, ?_, ?_, ?_, hu, hused⟩
    · simpa using hformed.setStats _
    · simp only [stats_setStats, hstats, hstats₁]
      rfl
    · simp [hgeom₁, hgeom]

/-! ## Checking a block -/

/-- The area does not cross a multiple of the boundary. -/
def Within (boundary p allocSize : Nat) : Prop :=
  ∀ m, boundary ∣ m → ¬ (p < m ∧ m < p + allocSize)

/-- The only line that an area can cross is the last one before its end. -/
theorem within_of_line (hsize : allocSize ≤ boundary)
    (hline : ¬ (p < alignDown (p + allocSize) boundary ∧
      alignDown (p + allocSize) boundary < p + allocSize)) : Within boundary p allocSize := by
  intro m hm ⟨hlo, hhi⟩
  have hle := le_alignDown hm hhi.le
  have hdvd := dvd_alignDown (p + allocSize) boundary
  have hbound := alignDown_le (p + allocSize) boundary
  rcases Nat.eq_or_lt_of_le hbound with heq | hlt
  · rw [heq] at hdvd
    have hnext := dvd_add_le hm hdvd hhi
    omega
  · exact hline ⟨by omega, hlt⟩

/-- The area moves down below a line, and the loop ends. -/
theorem boundaryLoop_spec {floor q : Nat} (hsize : allocSize ≤ boundary) (hfloor : allocSize ≤ floor)
    (hend : p + allocSize < 2 ^ 32) (hp : alignment ∣ p)
    (heq : boundaryLoop allocSize alignment boundary floor fuel p = some q) :
    q = 0 ∨ q ≤ p ∧ alignment ∣ q ∧ Within boundary q allocSize := by
  induction fuel generalizing p with
  | zero => simp [boundaryLoop] at heq
  | succ fuel ih =>
    simp only [boundaryLoop, add32_of_lt hend] at heq
    split at heq
    next hcross =>
      split at heq
      next => exact .inl (Option.some.inj heq).symm
      next hge =>
        have hline : sub32 (alignDown (p + allocSize) boundary) allocSize =
            alignDown (p + allocSize) boundary - allocSize := sub32_of_le (by omega) (by omega)
        rw [hline] at heq
        have hle := alignDown_le (alignDown (p + allocSize) boundary - allocSize) alignment
        rcases ih (by omega) (dvd_alignDown _ _) heq with hzero | ⟨hq, hdvd, hwithin⟩
        · exact .inl hzero
        · exact .inr ⟨by omega, hdvd, hwithin⟩
    next hcross =>
      cases heq
      exact .inr ⟨Nat.le_refl q, hp, within_of_line hsize hcross⟩

theorem boundaryLoop_isSome {floor : Nat} (hfloor : allocSize ≤ floor)
    (hend : p + allocSize < 2 ^ 32) (hfuel : p < fuel) :
    ∃ q, boundaryLoop allocSize alignment boundary floor fuel p = some q := by
  induction fuel generalizing p with
  | zero => exact absurd hfuel (Nat.not_lt_zero p)
  | succ fuel ih =>
    simp only [boundaryLoop, add32_of_lt hend]
    split
    next hcross =>
      split
      next => exact ⟨0, rfl⟩
      next hge =>
        have hline : sub32 (alignDown (p + allocSize) boundary) allocSize =
            alignDown (p + allocSize) boundary - allocSize := sub32_of_le (by omega) (by omega)
        have hle := alignDown_le (alignDown (p + allocSize) boundary - allocSize) alignment
        rw [hline]
        exact ih (by omega) (by omega)
    next => exact ⟨p, rfl⟩

/-- The highest place for an area in a block, if there is no boundary. -/
def highest (g : Geometry) (x size allocSize alignment : Nat) : Nat :=
  alignDown (min (x + size + allocBonus - allocSize)
    (x + size - g.minBlockSize + blockHeaderSize + g.pageSize - 1)) alignment

/-- What stays free before an area at `p` in the block at `x`. -/
def front (g : Geometry) (x p : Nat) : Nat := alignDown p g.pageSize - (x + blockHeaderSize)

/-- The last test of `_Heap_Check_block`. -/
def valid (g : Geometry) (x p : Nat) : Prop :=
  x + blockHeaderSize ≤ p ∧ (g.minBlockSize ≤ front g x p ∨ front g x p = 0)

instance {q : Nat} : Decidable (valid g x q) := inferInstanceAs (Decidable (_ ∧ _))

/-- The numbers of `_Heap_Check_block`. -/
structure CheckNumbers (s : State) (x size allocSize : Nat) : Prop where
  blockEnd : add32 x size = x + size
  areaBegin : allocAreaOfBlock x = x + blockHeaderSize
  floor : add32 (x + blockHeaderSize) allocSize = x + blockHeaderSize + allocSize
  ceiling : sub32 (add32 (add32 (sub32 (x + size) s.minBlockSize) blockHeaderSize) s.pageSize) 1 =
    x + size - s.minBlockSize + blockHeaderSize + s.pageSize - 1
  start : sub32 (add32 (x + size) allocBonus) allocSize = x + size + allocBonus - allocSize
  bound : x + size + blockHeaderSize < 2 ^ 32

theorem Formed.checkNumbers (h : Formed s (as ++ ⟨x, size, false⟩ :: n :: ds))
    (hfits : allocSize + allocBonus ≤ size) : CheckNumbers s x size allocSize := by
  obtain ⟨hheader, hbonus⟩ := headerSizes
  obtain ⟨hsixteen, hpage, -⟩ := h.layout.min_spec
  obtain ⟨hnext, -, hle, -, hmin, -⟩ := h.layout.inner
  have hlast := h.layout.fits
  have hminGeom : s.geometry.minBlockSize = s.minBlockSize := rfl
  have hpageGeom : s.geometry.pageSize = s.pageSize := rfl
  simp only at hnext hmin
  have hbound : x + size + blockHeaderSize < 2 ^ 32 := by omega
  have hback : sub32 (x + size) s.minBlockSize = x + size - s.minBlockSize :=
    sub32_of_le (by omega) (by omega)
  have hheaderSum : add32 (x + size - s.minBlockSize) blockHeaderSize =
      x + size - s.minBlockSize + blockHeaderSize := add32_of_lt (by omega)
  have hpageSum : add32 (x + size - s.minBlockSize + blockHeaderSize) s.pageSize =
      x + size - s.minBlockSize + blockHeaderSize + s.pageSize := add32_of_lt (by omega)
  have hbonusSum : add32 (x + size) allocBonus = x + size + allocBonus := add32_of_lt (by omega)
  refine ⟨add32_of_lt (by omega), add32_of_lt (by omega), add32_of_lt (by omega), ?_, ?_, hbound⟩
  · rw [hback, hheaderSum, hpageSum]
    exact sub32_of_le (by omega) (by omega)
  · rw [hbonusSum]
    exact sub32_of_le (by omega) (by omega)

/-- Aligning down twice comes to the same place as aligning the lower of both down. -/
theorem alignDown_min (v w a : Nat) :
    (if alignDown v a > w then alignDown w a else alignDown v a) = alignDown (min v w) a := by
  have hv := alignDown_le v a
  split
  next hgt => rw [Nat.min_eq_right (by omega)]
  next hle =>
    rcases Nat.le_total v w with hvw | hwv
    · rw [Nat.min_eq_left hvw]
    · rw [Nat.min_eq_right hwv]
      exact Nat.le_antisymm (le_alignDown (dvd_alignDown v a) (by omega)) (alignDown_mono hwv)

theorem Formed.front_eq (h : Formed s (as ++ ⟨x, size, false⟩ :: n :: ds))
    (hp : x + blockHeaderSize ≤ p) (hlt : p < 2 ^ 32) :
    sub32 (blockOfAllocArea p s.pageSize) x = front s.geometry x p := by
  have hle : x + blockHeaderSize ≤ alignDown p s.pageSize :=
    le_alignDown h.layout.inner.aligned hp
  have hbound := alignDown_le p s.pageSize
  have hpageGeom : s.geometry.pageSize = s.pageSize := rfl
  have hblock : sub32 (alignDown p s.pageSize) blockHeaderSize =
      alignDown p s.pageSize - blockHeaderSize := sub32_of_le (by omega) (by omega)
  rw [blockOfAllocArea, hblock, sub32_of_le (by omega) (by omega), front, hpageGeom]
  omega

theorem Formed.checkBlock_eq (h : Formed s (as ++ ⟨x, size, false⟩ :: n :: ds))
    (hfits : allocSize + allocBonus ≤ size) (hboundary : boundary ≠ 0 → allocSize ≤ boundary) :
    checkBlock fuel s x allocSize alignment boundary =
      (if boundary ≠ 0 then
        boundaryLoop allocSize alignment boundary (x + blockHeaderSize + allocSize) fuel
          (highest s.geometry x size allocSize alignment)
      else some (highest s.geometry x size allocSize alignment)).map
        fun p => if valid s.geometry x p then p else 0 := by
  have hnums := h.checkNumbers hfits
  have hsize : Heap.blockSize s x = size := h.blockSize (b := ⟨x, size, false⟩) (by simp)
  have hstart : highest s.geometry x size allocSize alignment ≤ x + size + allocBonus - allocSize :=
    (alignDown_le _ _).trans (Nat.min_le_left _ _)
  have htest : ∀ p, p < 2 ^ 32 → (if p ≥ x + blockHeaderSize then
      if sub32 (blockOfAllocArea p s.pageSize) x ≥ s.minBlockSize ∨
        sub32 (blockOfAllocArea p s.pageSize) x = 0 then some p else some 0 else some 0) =
      some (if valid s.geometry x p then p else 0) := by
    intro p hp
    by_cases hge : x + blockHeaderSize ≤ p
    · rw [if_pos hge, h.front_eq hge hp]
      simp only [valid, hge, true_and]
      exact (apply_ite some _ _ _).symm
    · rw [if_neg hge, if_neg fun hvalid => hge hvalid.1]
  simp only [checkBlock, hsize, hnums.blockEnd, hnums.areaBegin, hnums.floor, hnums.ceiling,
    hnums.start, alignDown_min]
  have hbound := hnums.bound
  have hstartLt : highest s.geometry x size allocSize alignment + allocSize < 2 ^ 32 := by
    simp only [allocBonus, blockHeaderSize] at *
    omega
  have hplace : alignDown (min (x + size + allocBonus - allocSize)
      (x + size - s.minBlockSize + blockHeaderSize + s.pageSize - 1)) alignment =
        highest s.geometry x size allocSize alignment := rfl
  rw [hplace]
  by_cases hzero : boundary = 0
  · simp only [hzero, ne_eq, not_true, if_false, Option.map_some]
    exact htest _ (by omega)
  · simp only [ne_eq, hzero, not_false_iff, if_true]
    cases hloop : boundaryLoop allocSize alignment boundary (x + blockHeaderSize + allocSize) fuel
        (highest s.geometry x size allocSize alignment) with
    | none => rfl
    | some q =>
      have hspec := boundaryLoop_spec (hboundary hzero) (Nat.le_add_left _ _) hstartLt
        (dvd_alignDown _ _) hloop
      exact htest q (by omega)

/-- A place that passes the last test is a place for an area. -/
theorem Formed.placed (h : Formed s (as ++ ⟨x, size, false⟩ :: n :: ds))
    (hfits : allocSize + allocBonus ≤ size) (hp : p ≤ highest s.geometry x size allocSize alignment)
    (hvalid : valid s.geometry x p) :
    Placed s.geometry x size p allocSize (front s.geometry x p) := by
  obtain ⟨hheader, hbonus⟩ := headerSizes
  obtain ⟨hsixteen, hpage, hdvd⟩ := h.layout.min_spec
  obtain ⟨hnext, -, hle, hsizeDvd, hmin, halign⟩ := h.layout.inner
  simp only at hnext hsizeDvd hmin halign
  have hpagePos := h.layout.page_pos
  have hhigh := hp.trans (alignDown_le _ _)
  have hline : s.geometry.pageSize ∣ x + size - s.geometry.minBlockSize + blockHeaderSize := by
    have hsum := Nat.dvd_sub (hsizeDvd.add halign) hdvd
    rwa [show size + (x + blockHeaderSize) - s.geometry.minBlockSize =
      x + size - s.geometry.minBlockSize + blockHeaderSize by omega] at hsum
  have hfloor : x + blockHeaderSize ≤ alignDown p s.geometry.pageSize :=
    le_alignDown halign hvalid.1
  have hceiling : alignDown p s.geometry.pageSize ≤
      x + size - s.geometry.minBlockSize + blockHeaderSize := by
    by_contra hgt
    have hnextLine := dvd_add_le hline (dvd_alignDown p _) (Nat.lt_of_not_le hgt)
    have hbelow := alignDown_le p s.geometry.pageSize
    omega
  refine ⟨?_, ?_, by omega⟩
  · simp only [front]
    omega
  · rcases hvalid.2 with hmore | hzero
    · refine .inr ⟨hmore, ?_⟩
      simp only [front]
      omega
    · exact .inl hzero

/-- What `_Heap_Check_block` finds. -/
structure Fitting (g : Geometry) (x size p allocSize alignment boundary : Nat) : Prop where
  placed : Placed g x size p allocSize (front g x p)
  aligned : alignment ≠ 0 → alignment ∣ p
  within : boundary ≠ 0 → Within boundary p allocSize

theorem Formed.checkBlock (h : Formed s (as ++ ⟨x, size, false⟩ :: n :: ds))
    (hfits : allocSize + allocBonus ≤ size) (hboundary : boundary ≠ 0 → allocSize ≤ boundary)
    (heq : Heap.checkBlock fuel s x allocSize alignment boundary = some p) (hp : p ≠ 0) :
    Fitting s.geometry x size p allocSize alignment boundary := by
  have hbound := (h.checkNumbers hfits).bound
  have hstart : highest s.geometry x size allocSize alignment ≤ x + size + allocBonus - allocSize :=
    (alignDown_le _ _).trans (Nat.min_le_left _ _)
  rw [h.checkBlock_eq hfits hboundary] at heq
  obtain ⟨q, hq, hresult⟩ := Option.map_eq_some_iff.mp heq
  split at hresult
  next hvalid =>
    subst hresult
    split at hq
    next hne =>
      have hend : highest s.geometry x size allocSize alignment + allocSize < 2 ^ 32 := by
        simp only [allocBonus, blockHeaderSize] at *
        omega
      obtain hzero | ⟨hle, hdvd, hwithin⟩ := boundaryLoop_spec (hboundary hne) (Nat.le_add_left _ _)
        hend (dvd_alignDown _ _) hq
      · exact absurd hzero hp
      · exact ⟨h.placed hfits hle hvalid, fun _ => hdvd, fun _ => hwithin⟩
    next heqZero =>
      cases hq
      exact ⟨h.placed hfits (Nat.le_refl _) hvalid, fun _ => dvd_alignDown _ _,
        fun hne => absurd hne heqZero⟩
  next => exact absurd hresult.symm hp

theorem Formed.checkBlock_isSome (h : Formed s (as ++ ⟨x, size, false⟩ :: n :: ds))
    (hfits : allocSize + allocBonus ≤ size) (hboundary : boundary ≠ 0 → allocSize ≤ boundary)
    (hfuel : 2 ^ 32 ≤ fuel) :
    ∃ p, Heap.checkBlock fuel s x allocSize alignment boundary = some p := by
  have hbound := (h.checkNumbers hfits).bound
  have hstart : highest s.geometry x size allocSize alignment ≤ x + size + allocBonus - allocSize :=
    (alignDown_le _ _).trans (Nat.min_le_left _ _)
  rw [h.checkBlock_eq hfits hboundary]
  split
  · have hend : highest s.geometry x size allocSize alignment + allocSize < 2 ^ 32 := by
      simp only [allocBonus, blockHeaderSize] at *
      omega
    have hloop : ∃ q, boundaryLoop allocSize alignment boundary (x + blockHeaderSize + allocSize) fuel
        (highest s.geometry x size allocSize alignment) = some q :=
      boundaryLoop_isSome (Nat.le_add_left _ _) hend (by omega)
    obtain ⟨q, hq⟩ := hloop
    rw [hq]
    exact ⟨_, rfl⟩
  · exact ⟨_, rfl⟩

/-! ## Trying a block -/

/-- The flag makes the word greater than the size, so that the test is the one for the size. -/
theorem Formed.word_gt (h : Formed s (as ++ ⟨x, size, false⟩ :: n :: ds)) :
    s.sizeAndFlag x > allocSize + allocBonus ↔ allocSize + allocBonus ≤ size := by
  have hword := h.tag.word
  rw [h.around_free.1] at hword
  have hflag : flagOf none = 1 := rfl
  simp only [hflag] at hword
  omega

theorem Formed.tryBlock (h : Formed s (as ++ ⟨x, size, false⟩ :: n :: ds))
    (hboundary : boundary ≠ 0 → allocSize ≤ boundary) (halign : alignment = 0 → boundary = 0)
    (heq : Heap.tryBlock fuel s x (allocSize + allocBonus) allocSize alignment boundary = some p)
    (hp : p ≠ 0) :
    allocSize + allocBonus ≤ size ∧ Fitting s.geometry x size p allocSize alignment boundary := by
  simp only [Heap.tryBlock, h.word_gt] at heq
  split at heq
  next hfits =>
    refine ⟨hfits, ?_⟩
    split at heq
    next hzero =>
      rw [(h.checkNumbers hfits).areaBegin] at heq
      cases heq
      have hline : alignDown (x + blockHeaderSize) s.geometry.pageSize = x + blockHeaderSize :=
        alignDown_of_dvd h.layout.inner.aligned
      have hfront : front s.geometry x (x + blockHeaderSize) = 0 := by
        rw [front, hline, Nat.sub_self]
      refine ⟨⟨?_, .inl hfront, ?_⟩, fun hne => absurd hzero hne, fun hne => absurd (halign hzero) hne⟩
      · rw [hfront, hline, Nat.add_zero]
      · simp only [allocBonus, blockHeaderSize] at *
        omega
    next => exact h.checkBlock hfits hboundary heq hp
  next => exact absurd (Option.some.inj heq).symm hp

theorem Formed.tryBlock_isSome (h : Formed s (as ++ ⟨x, size, false⟩ :: n :: ds))
    (hboundary : boundary ≠ 0 → allocSize ≤ boundary) (hfuel : 2 ^ 32 ≤ fuel) :
    ∃ p, Heap.tryBlock fuel s x (allocSize + allocBonus) allocSize alignment boundary = some p := by
  simp only [Heap.tryBlock, h.word_gt]
  split
  next hfits =>
    split
    · exact ⟨_, rfl⟩
    · exact h.checkBlock_isSome hfits hboundary hfuel
  next => exact ⟨0, rfl⟩

/-! ## The search -/

/-- What the search says about the rest of the free list. -/
def Searched (try_ : Nat → Option Nat) (rest : List Nat) : Option (Nat × Nat) → Prop
  | none => ∀ x ∈ rest, try_ x = some 0
  | some (x, p) => x ∈ rest ∧ try_ x = some p ∧ p ≠ 0

theorem searchLoop_spec {floor : Nat} (done : List Nat) {rest : List Nat}
    {count count' : BitVec 32} {found : Option (Nat × Nat)}
    (hring : s.links.Ring .freeList (done.map .block ++ rest.map .block))
    (heq : searchLoop fuel s floor allocSize alignment boundary turns
      (Links.firstOf .freeList (rest.map .block)) count = some (found, count')) :
    Searched (fun x => tryBlock fuel s x floor allocSize alignment boundary) rest found := by
  induction rest generalizing done turns count with
  | nil =>
    simp only [List.map_nil, Links.firstOf_nil, searchLoop] at heq
    cases heq
    exact fun x hx => absurd hx List.not_mem_nil
  | cons x rest ih =>
    cases turns with
    | zero => simp [searchLoop] at heq
    | succ turns =>
      simp only [List.map_cons, Links.firstOf_cons, searchLoop] at heq
      obtain ⟨p, hp, heq⟩ := Option.bind_eq_some_iff.mp heq
      split at heq
      next hne =>
        cases heq
        exact ⟨List.mem_cons_self, hp, hne⟩
      next hzero =>
        have hnext : s.links.next (.block x) = Links.firstOf .freeList (rest.map .block) :=
          Links.Ring.next hring
        rw [hnext] at heq
        have hrest := ih (done ++ [x]) (by simpa using hring) heq
        cases found with
        | none =>
          intro y hy
          rcases List.mem_cons.mp hy with rfl | hy
          · exact hp.trans (congrArg some (not_not.mp hzero))
          · exact hrest y hy
        | some found => exact ⟨List.mem_cons_of_mem x hrest.1, hrest.2⟩

theorem searchLoop_isSome {floor : Nat} (done : List Nat) {rest : List Nat}
    (hring : s.links.Ring .freeList (done.map .block ++ rest.map .block))
    (htry : ∀ x ∈ rest, ∃ p, tryBlock fuel s x floor allocSize alignment boundary = some p)
    (hturns : rest.length ≤ turns) (count : BitVec 32) :
    ∃ result, searchLoop fuel s floor allocSize alignment boundary turns
      (Links.firstOf .freeList (rest.map .block)) count = some result := by
  induction rest generalizing done turns count with
  | nil => exact ⟨(none, count), by simp [searchLoop]⟩
  | cons x rest ih =>
    cases turns with
    | zero => simp at hturns
    | succ turns =>
      obtain ⟨p, hp⟩ := htry x List.mem_cons_self
      have hnext : s.links.next (.block x) = Links.firstOf .freeList (rest.map .block) :=
        Links.Ring.next hring
      simp only [List.map_cons, Links.firstOf_cons, searchLoop, hp, Option.bind_eq_bind,
        Option.bind_some]
      split
      · exact ⟨_, rfl⟩
      · rw [hnext]
        apply ih (done ++ [x])
        · simpa using hring
        · exact fun y hy => htry y (List.mem_cons_of_mem x hy)
        · simpa using hturns

/-! ## Allocation -/

/-- The sizes that an area can have with its header. -/
theorem sizeFloor_spec (h : ¬ sub32 (add32 allocSize blockHeaderSize) allocBonus < allocSize) :
    sub32 (add32 allocSize blockHeaderSize) allocBonus = allocSize + allocBonus ∧
      allocSize + allocBonus < 2 ^ 32 := by
  have hlt := sub32_lt (add32 allocSize blockHeaderSize) allocBonus
  simp only [sub32, add32, blockHeaderSize, allocBonus] at *
  omega

/-- A member of the free list is a free block, and not the last block. -/
theorem Formed.exists_free (h : Formed s all) (hx : x ∈ frees all) :
    ∃ as size n ds, all = as ++ ⟨x, size, false⟩ :: n :: ds := by
  obtain ⟨b, hb, hused, rfl⟩ := mem_frees.mp hx
  obtain ⟨as, bs, rfl⟩ := List.append_of_mem hb
  cases bs with
  | nil =>
    rw [h.layout.eq_endBlock] at hused
    exact absurd hused (by simp [Geometry.endBlock])
  | cons n ds =>
    refine ⟨as, b.size, n, ds, ?_⟩
    rw [← hused]

/-- The alignment that the search uses. -/
def searchAlignment (s : State) (alignment boundary : Nat) : Nat :=
  if boundary ≠ 0 ∧ alignment = 0 then s.pageSize else alignment

/-- The block and the area that the search through the free list finds. -/
def foundArea (fuel : Nat) (s : State) (allocSize alignment boundary : Nat) : Option (Nat × Nat) :=
  (searchLoop fuel s (allocSize + allocBonus) allocSize (searchAlignment s alignment boundary)
    boundary fuel (freeListFirst s) 0).bind (·.1)

/-- A successful allocation takes a free block in which the area fits. -/
structure Served (fuel : Nat) (s s' : State) (as : List Block) (x size : Nat) (n : Block)
    (ds : List Block) (p allocSize alignment boundary : Nat) : Prop where
  found : foundArea fuel s allocSize alignment boundary = some (x, p)
  tried : tryBlock fuel s x (allocSize + allocBonus) allocSize
    (searchAlignment s alignment boundary) boundary = some p
  enough : allocSize + allocBonus ≤ size
  fitting : Fitting s.geometry x size p allocSize (searchAlignment s alignment boundary) boundary
  result : ∃ f : Statistics → Statistics, s' = (blockAllocate s x p allocSize).1.setStats f ∧
    ∀ stats, (f stats).counts = { stats.counts with allocs := stats.counts.allocs + 1 }

/-- A failed allocation counts itself only, and no free block has room. -/
structure Refused (fuel : Nat) (s s' : State) (all : List Block)
    (allocSize alignment boundary : Nat) : Prop where
  result : ∃ f : Statistics → Statistics, s' = s.setStats f ∧
    ∀ stats, (f stats).counts = stats.counts
  cause : ¬ allocSize + allocBonus < 2 ^ 32 ∨ boundary ≠ 0 ∧ boundary < allocSize ∨
    ∀ x ∈ frees all, tryBlock fuel s x (allocSize + allocBonus) allocSize
      (searchAlignment s alignment boundary) boundary = some 0

theorem Formed.allocateAligned (h : Formed s all)
    (heq : allocateAlignedWithBoundary fuel s allocSize alignment boundary = some (s', p)) :
    p = 0 ∧ Refused fuel s s' all allocSize alignment boundary ∨
      p ≠ 0 ∧ ∃ as x size n ds, all = as ++ ⟨x, size, false⟩ :: n :: ds ∧
        Served fuel s s' as x size n ds p allocSize alignment boundary := by
  simp only [allocateAlignedWithBoundary] at heq
  split at heq
  next hover =>
    cases heq
    refine .inl ⟨rfl, ⟨id, rfl, fun _ => rfl⟩, .inl ?_⟩
    intro hlt
    have hsum : add32 allocSize blockHeaderSize < 2 ^ 32 := add32_lt _ _
    simp only [sub32, add32, blockHeaderSize, allocBonus] at *
    omega
  next hfloor =>
    obtain ⟨hfloorEq, hlt⟩ := sizeFloor_spec hfloor
    rw [hfloorEq] at heq
    split at heq
    next hbad =>
      cases heq
      exact .inl ⟨rfl, ⟨id, rfl, fun _ => rfl⟩, .inr (.inl hbad)⟩
    next hgood =>
      have hboundary : boundary ≠ 0 → allocSize ≤ boundary := by
        intro hne
        by_contra hgt
        exact hgood ⟨hne, Nat.lt_of_not_le hgt⟩
      obtain ⟨fl, hfl, hring⟩ := h.freeList
      obtain ⟨⟨found, count⟩, hsearch, heq⟩ := Option.bind_eq_some_iff.mp heq
      have hfirst : freeListFirst s = Links.firstOf .freeList (fl.map .block) := hring.next_head
      have hfound : foundArea fuel s allocSize alignment boundary = found := by
        rw [foundArea]
        exact congrArg (·.bind (·.1)) hsearch
      rw [hfirst] at hsearch
      have hspec := searchLoop_spec [] (by simpa using hring) hsearch
      cases found with
      | none =>
        simp only [Option.some.injEq, Prod.mk.injEq, setStats_setStats] at heq
        obtain ⟨rfl, rfl⟩ := heq
        refine .inl ⟨rfl, ⟨_, rfl, fun _ => rfl⟩, .inr (.inr ?_)⟩
        exact fun x hx => hspec x (hfl.mem_iff.mpr hx)
      | some result =>
        obtain ⟨x, q⟩ := result
        obtain ⟨hx, htry, hq⟩ := hspec
        obtain ⟨as, size, n, ds, rfl⟩ := h.exists_free (hfl.mem_iff.mp hx)
        have halign : searchAlignment s alignment boundary = 0 → boundary = 0 := by
          intro hzero
          by_contra hne
          have hpage : 0 < s.pageSize := h.layout.page_pos
          simp only [searchAlignment] at hzero
          split at hzero
          · omega
          · simp_all
        obtain ⟨henough, hfitting⟩ := h.tryBlock hboundary halign htry hq
        simp only [Option.some.injEq, Prod.mk.injEq, setStats_setStats] at heq
        obtain ⟨rfl, rfl⟩ := heq
        exact .inr ⟨hq, as, x, size, n, ds, rfl, hfound, htry, henough, hfitting, _, rfl,
          fun _ => rfl⟩

theorem length_le_of_lt {xs : List Nat} {m : Nat} (hnodup : xs.Nodup) (hlt : ∀ x ∈ xs, x < m) :
    xs.length ≤ m := by
  have hsub : xs ⊆ List.range m := fun x hx => List.mem_range.mpr (hlt x hx)
  have hle := (List.subperm_of_subset hnodup hsub).length_le
  rwa [List.length_range] at hle

/-- Enough turns of the loops bring the allocation to its end. -/
theorem Formed.allocateAligned_isSome (h : Formed s all) (hfuel : 2 ^ 32 ≤ fuel) :
    ∃ result, allocateAlignedWithBoundary fuel s allocSize alignment boundary = some result := by
  simp only [allocateAlignedWithBoundary]
  split
  next => exact ⟨_, rfl⟩
  next hfloor =>
    obtain ⟨hfloorEq, hlt⟩ := sizeFloor_spec hfloor
    rw [hfloorEq]
    split
    next => exact ⟨_, rfl⟩
    next hgood =>
      have hboundary : boundary ≠ 0 → allocSize ≤ boundary := by
        intro hne
        by_contra hgt
        exact hgood ⟨hne, Nat.lt_of_not_le hgt⟩
      obtain ⟨fl, hfl, hring⟩ := h.freeList
      have hfirst : freeListFirst s = Links.firstOf .freeList (fl.map .block) := hring.next_head
      have hturns : fl.length ≤ fuel := by
        have hnodup : fl.Nodup := hfl.nodup_iff.mpr h.freeList.nodup
        refine (length_le_of_lt hnodup ?_).trans hfuel
        intro x hx
        obtain ⟨b, hb, -, rfl⟩ := mem_frees.mp (hfl.mem_iff.mp hx)
        have hle := h.layout.begin_le hb
        have hfits := h.layout.fits
        omega
      have htry : ∀ x ∈ fl, ∃ p, Heap.tryBlock fuel s x (allocSize + allocBonus) allocSize
          (searchAlignment s alignment boundary) boundary = some p := by
        intro x hx
        obtain ⟨as, size, n, ds, rfl⟩ := h.exists_free (hfl.mem_iff.mp hx)
        exact h.tryBlock_isSome hboundary hfuel
      obtain ⟨result, hresult⟩ := searchLoop_isSome [] (by simpa using hring) htry hturns 0
      rw [hfirst]
      exact ⟨_, Option.bind_eq_some_iff.mpr ⟨result, hresult, rfl⟩⟩

end Rtems.Heap
