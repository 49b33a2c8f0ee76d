import Rtems.Heap.Resize

/-!
# Areas

Where an area lies that `_Heap_Allocate_aligned_with_boundary` returns.  It keeps clear of the other
areas and of the blocks around its free block.  The block that is left for it contains it, unless
the block was cut from the end of the free block: there the split does not count the bytes between
the page line and the area.
-/

namespace Rtems.Heap

open Lib

variable {s s' : State} {as ds all all' : List Block} {b n : Block} {g : Geometry}
  {x y z u r p q m size allocSize alignment boundary fuel : Nat}

/-! ## What is asked of an area -/

/-- The area lies in the used block, or in the first word of the next one. -/
structure Inside (b : Block) (p size : Nat) : Prop where
  used : b.used = true
  begin_le : b.begin + blockHeaderSize ≤ p
  le_end : p + size ≤ b.begin + b.size + allocBonus

/-- The intervals have no byte in common. -/
def Apart (p size q m : Nat) : Prop := p + size ≤ q ∨ q + m ≤ p

/-- The words of the headers that are read later on: the size of each block, the previous size
behind a free block, and the links of a free block. -/
def HeaderWord (all : List Block) (y : Nat) : Prop :=
  ∃ b ∈ all, y = b.begin + 4 ∨
    b.used = false ∧ (y = b.begin + b.size ∨ y = b.begin + 8 ∨ y = b.begin + 12)

/-- The area is where it was asked for, in a block of its own, and clear of all others. -/
structure AreaCorrect (all all' : List Block) (p size alignment boundary : Nat) : Prop where
  aligned : alignment ≠ 0 → alignment ∣ p
  within : boundary ≠ 0 → Within boundary p size
  inside : ∃ b ∈ all', Inside b p size
  live : ∀ q m, (∃ b ∈ all, Inside b q m) → Apart p size q m
  headers : ∀ y, HeaderWord all' y → Apart p size y 4

/-- The block for an area at `p` in the free block at `x` contains the area: it is not cut from the
end, or nothing is given back behind it, or the part that is kept has room for the bytes before the
area as well. -/
def KeepsArea (g : Geometry) (x size p allocSize : Nat) : Prop :=
  front g x p = 0 ∨ ¬ Splits g (size - front g x p) allocSize ∨
    p % g.pageSize + allocSize + allocBonus ≤ usedBlockSize g allocSize

/-! ## The blocks around the area -/

/-- The blocks before a free block end at its begin, and have room for a header and links. -/
theorem Layout.before_end (h : Layout g (as ++ b :: ds)) (hb : b.begin < g.lastBlock) {a : Block}
    (ha : a ∈ as) : a.begin + a.size ≤ b.begin ∧ 16 ≤ a.size := by
  have hpair := List.pairwise_append.mp h.tiles.pairwise
  have hle := hpair.2.2 a ha b List.mem_cons_self
  have hbegin := h.before ha
  have hsize := (h.sizes a (List.mem_append_left _ ha) (by omega)).2
  exact ⟨hle, h.min_spec.1.trans hsize⟩

/-- The block behind a block is the first one of those behind. -/
theorem Layout.next_le (h : Layout g (as ++ b :: n :: ds)) {a : Block} (ha : a ∈ n :: ds) :
    b.begin + b.size ≤ a.begin := by
  have hpair := List.pairwise_append.mp h.tiles.pairwise
  exact (List.pairwise_cons.mp hpair.2.1).1 a ha

theorem Layout.free_size (h : Layout g all) (hb : b ∈ all) (hfree : b.used = false) : 16 ≤ b.size := by
  obtain ⟨bs, rfl⟩ := h.exists_init
  rcases List.mem_append.mp hb with hin | hend
  · exact h.min_spec.1.trans (h.sizes_init hin).2
  · rw [List.mem_singleton.mp hend] at hfree
    cases hfree

theorem mem_remnant : b ∈ remnant x z ↔ z ≠ 0 ∧ b = ⟨x, z, false⟩ := by
  rcases Nat.eq_zero_or_pos z with rfl | hz
  · simp
  · simp [remnant_pos hz.ne', hz.ne']

/-- The blocks when the area has been cut out of the free block. -/
def blocksAround (as : List Block) (x z u r : Nat) (back : List Block) : List Block :=
  as ++ (remnant x z ++ ⟨x + z, u, true⟩ :: (remnant (x + z + u) r ++ back))

theorem mem_blocksAround : b ∈ blocksAround as x z u r (n :: ds) ↔
    b ∈ as ∨ (z ≠ 0 ∧ b = ⟨x, z, false⟩) ∨ b = ⟨x + z, u, true⟩ ∨
      (r ≠ 0 ∧ b = ⟨x + z + u, r, false⟩) ∨ b ∈ n :: ds := by
  simp only [blocksAround, List.mem_append, List.mem_cons, mem_remnant]

/-- The numbers of a free block with an area in it. -/
structure AroundArea (s : State) (as : List Block) (x size : Nat) (n : Block) (ds : List Block)
    (p allocSize z : Nat) : Prop where
  begin_le : x + z + blockHeaderSize ≤ p
  le_end : p + allocSize ≤ x + size + allocBonus
  before : ∀ b ∈ as, b.begin + b.size ≤ x ∧ 16 ≤ b.size
  behind : ∀ b ∈ n :: ds, x + size ≤ b.begin

theorem Formed.aroundArea (h : Formed s (as ++ ⟨x, size, false⟩ :: n :: ds))
    (hp : Placed s.geometry x size p allocSize z) : AroundArea s as x size n ds p allocSize z := by
  have hinner := h.layout.inner
  have hlt : x < s.geometry.lastBlock := by
    have hnext := hinner.next
    have hle := hinner.next_le
    have hpos := (h.layout.tiles.mem (a := ⟨x, size, false⟩) (by simp)).2.1
    simp only at hnext hpos
    omega
  exact ⟨hp.le, hp.fits, fun b hb => h.layout.before_end hlt hb, fun b hb => h.layout.next_le hb⟩

/-- The area is clear of the areas in all other blocks. -/
theorem AroundArea.apart_live (h : AroundArea s as x size n ds p allocSize z)
    (hb : b ∈ as ++ ⟨x, size, false⟩ :: n :: ds) (hin : Inside b q m) : Apart p allocSize q m := by
  obtain ⟨hheader, hbonus⟩ := headerSizes
  obtain ⟨hple, hfits, hbefore, hbehind⟩ := h
  obtain ⟨hused, hbegin, hend⟩ := hin
  rcases List.mem_append.mp hb with has | hrest
  · have hle := (hbefore b has).1
    exact .inr (by omega)
  · rcases List.mem_cons.mp hrest with rfl | hds
    · cases hused
    · have hle := hbehind b hds
      exact .inl (by omega)

/-- The only block that can contain the area is the one that was cut for it. -/
theorem AroundArea.inside_iff (h : AroundArea s as x size n ds p allocSize z) (hsum : z + u + r = size) :
    (∃ b ∈ blocksAround as x z u r (n :: ds), Inside b p allocSize) ↔
      p + allocSize ≤ x + z + u + allocBonus := by
  obtain ⟨hheader, hbonus⟩ := headerSizes
  obtain ⟨hple, hfits, hbefore, hbehind⟩ := h
  constructor
  · rintro ⟨b, hb, hused, hbegin, hend⟩
    rcases mem_blocksAround.mp hb with has | ⟨-, rfl⟩ | rfl | ⟨-, rfl⟩ | hds
    · have hle := (hbefore b has).1
      omega
    · cases hused
    · exact hend
    · cases hused
    · have hle := hbehind b hds
      omega
  · intro hle
    exact ⟨⟨x + z, u, true⟩, mem_blocksAround.mpr (.inr (.inr (.inl rfl))), rfl, hple, hle⟩

/-- An area inside its block is clear of the headers. -/
theorem AroundArea.apart_headers (h : AroundArea s as x size n ds p allocSize z)
    (hlayout : Layout g (blocksAround as x z u r (n :: ds))) (hsum : z + u + r = size) (hle : p + allocSize ≤ x + z + u + allocBonus) {y : Nat}
    (hy : HeaderWord (blocksAround as x z u r (n :: ds)) y) : Apart p allocSize y 4 := by
  obtain ⟨hheader, hbonus⟩ := headerSizes
  obtain ⟨hple, hfits, hbefore, hbehind⟩ := h
  obtain ⟨b, hb, hword⟩ := hy
  have hmin := hlayout.free_size hb
  rcases mem_blocksAround.mp hb with has | ⟨hz, rfl⟩ | rfl | ⟨hr, rfl⟩ | hds
  · obtain ⟨hend, hroom⟩ := hbefore b has
    exact .inr (by omega)
  · have hroom := hmin rfl
    simp only at hword hroom
    exact .inr (by omega)
  · have hy : y = x + z + 4 := by simpa using hword
    exact .inr (by omega)
  · have hroom := hmin rfl
    simp only at hword hroom
    exact .inl (by omega)
  · have hbegin := hbehind b hds
    rcases hword with hsize | ⟨hfree, hword⟩
    · exact .inl (by omega)
    · have hroom := hmin hfree
      exact .inl (by omega)

/-! ## The allocation -/

/-- Whether the block that is cut for the area contains it. -/
theorem keepsArea_iff
    (hp : Placed s.geometry x size p allocSize z) (hz : z = front s.geometry x p)
    (hu : u = cutSize s.geometry (size - z) (splitRequest x z p allocSize))
    (hused : usedSize s.geometry (splitRequest x z p allocSize) ≤ u + allocBonus) :
    p + allocSize ≤ x + z + u + allocBonus ↔ KeepsArea s.geometry x size p allocSize := by
  obtain ⟨hheader, hbonus⟩ := headerSizes
  have hple := hp.le
  have hfits := hp.fits
  have hmod : p = x + z + blockHeaderSize + p % s.geometry.pageSize := by
    have hline := hp.block
    have hle := Nat.mod_le p s.geometry.pageSize
    rw [alignDown] at hline
    omega
  rw [KeepsArea, ← hz]
  by_cases hzero : z = 0
  · simp only [hzero, true_or, iff_true]
    simp only [splitRequest, hzero, if_true, usedSize] at hused
    omega
  · have hrequest : splitRequest x z p allocSize = allocSize := if_neg hzero
    rw [hrequest] at hu
    have hfront := (hp.front.resolve_left hzero).2
    by_cases hsplit : Splits s.geometry (size - z) allocSize
    · simp only [hu, cutSize, hsplit, if_true, hzero, not_true_eq_false, false_or]
      omega
    · simp only [hu, cutSize, hsplit, if_false, not_false_eq_true, true_or, or_true, iff_true]
      omega

/-- **Where an allocated area lies.**  It is correct in all respects if and only if the block that
is cut for it contains it. -/
theorem allocation_correct_iff (h : Formed s all)
    (heq : allocateAlignedWithBoundary fuel s allocSize alignment boundary = some (s', p))
    (hp : p ≠ 0) :
    ∃ all', Formed s' all' ∧ (AreaCorrect all all' p allocSize alignment boundary ↔
      ∀ x q, foundArea fuel s allocSize alignment boundary = some (x, q) →
        KeepsArea s.geometry x (blockSize s x) q allocSize) := by
  rcases h.allocateAligned heq with ⟨hzero, -⟩ | ⟨-, as, x, size, n, ds, rfl, hserved⟩
  · exact absurd hzero hp
  obtain ⟨f, rfl, -⟩ := hserved.result
  have hplaced := hserved.fitting.placed
  obtain ⟨s₁, hcut, hformed, -, -, hu, hused⟩ := h.blockAllocate hplaced
  have haround := h.aroundArea hplaced
  have hkeeps := keepsArea_iff hplaced rfl rfl hused
  have hsize : blockSize s x = size := h.blockSize (b := ⟨x, size, false⟩) (by simp)
  generalize cutSize s.geometry (size - front s.geometry x p)
    (splitRequest x (front s.geometry x p) p allocSize) = u at *
  have hsum : front s.geometry x p + u + (size - front s.geometry x p - u) = size := by
    have hfront := hplaced.front
    omega
  rw [hcut]
  refine ⟨_, hformed.setStats f, ?_⟩
  rw [hserved.found]
  constructor
  · rintro hcorrect y q hfound
    cases hfound
    rw [hsize]
    exact hkeeps.mp ((haround.inside_iff hsum).mp hcorrect.inside)
  · intro hfound
    have hkeep := hfound x p rfl
    rw [hsize] at hkeep
    have hle := hkeeps.mpr hkeep
    refine ⟨?_, hserved.fitting.within, (haround.inside_iff hsum).mpr hle, ?_,
      fun y hy => haround.apart_headers hformed.layout hsum hle hy⟩
    · intro hne
      have halign : searchAlignment s alignment boundary = alignment := if_neg fun hboth => hne hboth.2
      have hdvd := hserved.fitting.aligned
      rw [halign] at hdvd
      exact hdvd hne
    · rintro q m ⟨b, hb, hin⟩
      exact haround.apart_live hb hin

/-- An area of 20 bytes that is aligned to 16 bytes. -/
theorem allocation_correct_iff_twenty : ∃ s', allocateAlignedWithBoundary 2 small 20 16 0 = some (s', 1168) ∧
    ∃ all', Formed s' all' ∧
      (AreaCorrect [⟨1000, 192, false⟩, small.geometry.endBlock] all' 1168 20 16 0 ↔
        ∀ x q, foundArea 2 small 20 16 0 = some (x, q) →
          KeepsArea small.geometry x (blockSize small x) q 20) := by
  have hrun : (allocateAlignedWithBoundary 2 small 20 16 0).map (·.2) = some 1168 := by decide
  obtain ⟨⟨s', p⟩, heq, rfl⟩ := Option.map_eq_some_iff.mp hrun
  exact ⟨s', heq, allocation_correct_iff small_wellFormed heq (by decide)⟩

/-- The only byte of the area is in the header of the next free block. -/
theorem allocation_outside : ¬ ∀ (fuel allocSize alignment boundary : Nat) (s s' : State) (p : Nat)
    (all all' : List Block), Formed s all →
      allocateAlignedWithBoundary fuel s allocSize alignment boundary = some (s', p) → p ≠ 0 →
      Formed s' all' → AreaCorrect all all' p allocSize alignment boundary := by
  intro hall
  obtain ⟨s, heq, -, hwell⟩ := tiny_allocated (Nat.le_refl 1)
  have hcorrect := hall 2 1 61 0 tiny s 1037 _ _ tiny_wellFormed heq (by decide) hwell
  have hword : HeaderWord ([⟨1000, 16, false⟩, ⟨1016, 16, true⟩, ⟨1032, 16, false⟩] ++
      [s.geometry.endBlock]) 1036 := ⟨⟨1032, 16, false⟩, by simp, .inl rfl⟩
  rcases hcorrect.headers 1036 hword with hle | hle <;> omega

end Rtems.Heap
