import Rtems.Heap.Free
import Rtems.Heap.Areas
import Rtems.Heap.Exact
import Rtems.Lib.Runs

/-!
# Alignments below the page size

Every block has an area that begins on a page, so that an alignment that divides
the page size asks for nothing more.  The search for an aligned area looks at the
upper end of a block only, and what it would leave over in front may be too small
for a block.
-/

namespace Rtems.Heap

open Lib

variable {s s' : State} {as bs ds all : List Block} {b n : Block} {g : Geometry}
  {x size v k a fuel allocSize alignment : Nat}

/-- The allocation returns an area. -/
def Succeeds (fuel : Nat) (s : State) (allocSize alignment : Nat) : Prop :=
  ∃ s' p, allocateAlignedWithBoundary fuel s allocSize alignment 0 = some (s', p) ∧ p ≠ 0

/-- An allocation succeeds if a free block can be used. -/
theorem Formed.succeeds_iff (h : Formed s all) (hfuel : 2 ^ 32 ≤ fuel) :
    Succeeds fuel s allocSize alignment ↔ ∃ x ∈ frees all, ∃ p, p ≠ 0 ∧
      Heap.tryBlock fuel s x (allocSize + allocBonus) allocSize alignment 0 = some p := by
  have halign : searchAlignment s alignment 0 = alignment := by simp [searchAlignment]
  constructor
  · rintro ⟨s', p, heq, hp⟩
    rcases h.allocateAligned heq with ⟨hzero, -⟩ | ⟨-, as, x, size, n, ds, rfl, hserved⟩
    · exact absurd hzero hp
    · have htried := hserved.tried
      rw [halign] at htried
      exact ⟨x, by simp, p, hp, htried⟩
  · rintro ⟨x, hx, p, hp, htry⟩
    have hreturns : ∃ result, allocateAlignedWithBoundary fuel s allocSize alignment 0 = some result :=
      h.allocateAligned_isSome hfuel
    obtain ⟨⟨s', q⟩, heq⟩ := hreturns
    rcases h.allocateAligned heq with ⟨rfl, hrefused⟩ | ⟨hq, -⟩
    · rcases hrefused.cause with hover | hbad | hnone
      · obtain ⟨as, size, n, ds, rfl⟩ := h.exists_free hx
        obtain ⟨henough, -⟩ := h.tryBlock (by simp) (by simp) htry hp
        have hbound := (h.checkNumbers henough).bound
        omega
      · exact absurd rfl hbad.1
      · have hzero := hnone x hx
        rw [halign, htry] at hzero
        exact absurd (Option.some.inj hzero) hp
    · exact ⟨s', q, heq, hq⟩

/-- An allocation succeeds if a free block has a size that can be used. -/
theorem WellFormed.succeeds_iff (h : WellFormed s bs) (hfuel : 2 ^ 32 ≤ fuel)
    (usable : Nat → Prop) (husable : ∀ as x size n ds,
      Formed s (as ++ ⟨x, size, false⟩ :: n :: ds) → ((∃ p, p ≠ 0 ∧
        Heap.tryBlock fuel s x (allocSize + allocBonus) allocSize alignment 0 = some p) ↔
          usable size)) :
    Succeeds fuel s allocSize alignment ↔ ∃ b ∈ bs, b.used = false ∧ usable b.size := by
  rw [Formed.succeeds_iff h hfuel]
  constructor
  · rintro ⟨x, hx, htry⟩
    obtain ⟨as, size, n, ds, hall⟩ := Formed.exists_free h hx
    have hmem : (⟨x, size, false⟩ : Block) ∈ bs ++ [s.geometry.endBlock] := by simp [hall]
    rw [WellFormed, hall] at h
    rcases List.mem_append.mp hmem with hbs | hlast
    · exact ⟨_, hbs, rfl, (husable as x size n ds h).mp htry⟩
    · simp [Geometry.endBlock] at hlast
  · rintro ⟨b, hb, hused, hsize⟩
    obtain ⟨as, cs, rfl⟩ := List.append_of_mem hb
    obtain ⟨x, size, used⟩ := b
    simp only at hused hsize
    subst hused
    refine ⟨x, by simp, ?_⟩
    have hsplit : ∃ n ds, cs ++ [s.geometry.endBlock] = n :: ds := by
      cases cs with
      | nil => exact ⟨_, _, rfl⟩
      | cons c cs => exact ⟨_, _, rfl⟩
    obtain ⟨n, ds, hcs⟩ := hsplit
    rw [WellFormed, List.append_assoc, List.cons_append, hcs] at h
    exact (husable as x size n ds h).mpr hsize

/-! ## What the search leaves over -/

theorem alignDown_add (hk : a ∣ k) : alignDown (k + v) a = k + alignDown v a := by
  have hle := Nat.mod_le v a
  obtain ⟨c, rfl⟩ := hk
  simp only [alignDown, Nat.mul_add_mod]
  omega

theorem alignDown_alignDown {page : Nat} (ha : a ∣ page) :
    alignDown (alignDown v a) page = alignDown v page := by
  apply Nat.le_antisymm
  · exact alignDown_mono (alignDown_le v a)
  · apply le_alignDown (dvd_alignDown v page)
    exact le_alignDown (Nat.dvd_trans ha (dvd_alignDown v page)) (alignDown_le v page)

theorem alignDown_min_eq (w : Nat) :
    alignDown (min v w) a = min (alignDown v a) (alignDown w a) := by
  rcases Nat.le_total v w with hvw | hwv
  · rw [Nat.min_eq_left hvw, Nat.min_eq_left (alignDown_mono hvw)]
  · rw [Nat.min_eq_right hwv, Nat.min_eq_right (alignDown_mono hwv)]

/-- The pages that are left over before an area of this size at the upper end of a block. -/
def pagesInFront (g : Geometry) (size allocSize : Nat) : Nat :=
  min (alignDown (size - (allocSize + allocBonus)) g.pageSize) (size - g.minBlockSize)

/-- They are no block, or large enough for one. -/
def LeavesBlock (g : Geometry) (size allocSize : Nat) : Prop :=
  pagesInFront g size allocSize = 0 ∨ g.minBlockSize ≤ pagesInFront g size allocSize

theorem Formed.front_highest (h : Formed s (as ++ ⟨x, size, false⟩ :: n :: ds))
    (hfits : allocSize + allocBonus ≤ size) (hdvd : alignment ∣ s.geometry.pageSize) :
    x + blockHeaderSize ≤ highest s.geometry x size allocSize alignment ∧
      front s.geometry x (highest s.geometry x size allocSize alignment) =
        pagesInFront s.geometry size allocSize := by
  obtain ⟨-, hpage, hminDvd⟩ := h.layout.min_spec
  obtain ⟨-, -, -, hsizeDvd, hmin, halign⟩ := h.layout.inner
  have hpos := h.layout.page_pos
  simp only at hsizeDvd hmin halign
  have hplace : min (x + size + allocBonus - allocSize)
      (x + size - s.geometry.minBlockSize + blockHeaderSize + s.geometry.pageSize - 1) =
      x + blockHeaderSize + min (size - (allocSize + allocBonus))
        (size - s.geometry.minBlockSize + s.geometry.pageSize - 1) := by
    simp only [allocBonus, blockHeaderSize] at *
    omega
  have hceiling : alignDown (size - s.geometry.minBlockSize + s.geometry.pageSize - 1)
      s.geometry.pageSize = size - s.geometry.minBlockSize :=
    alignDown_eq (Nat.dvd_sub hsizeDvd hminDvd) (by omega) (by omega)
  constructor
  · apply le_alignDown (Nat.dvd_trans hdvd halign)
    rw [hplace]
    exact Nat.le_add_right _ _
  · rw [front, highest, alignDown_alignDown hdvd, hplace, alignDown_add halign, alignDown_min_eq,
      hceiling, Nat.add_sub_cancel_left]
    rfl

/-- With an alignment that divides the page size, a free block is used if it has room for the area
and what is left over in front is right. -/
theorem Formed.tryBlock_aligned (h : Formed s (as ++ ⟨x, size, false⟩ :: n :: ds))
    (ha : alignment ≠ 0) (hdvd : alignment ∣ s.geometry.pageSize) :
    (∃ p, p ≠ 0 ∧ Heap.tryBlock fuel s x (allocSize + allocBonus) allocSize alignment 0 = some p) ↔
      allocSize + allocBonus ≤ size ∧ LeavesBlock s.geometry size allocSize := by
  by_cases hfits : allocSize + allocBonus ≤ size
  · obtain ⟨hfloor, hfront⟩ := h.front_highest hfits hdvd
    have hvalid : valid s.geometry x (highest s.geometry x size allocSize alignment) ↔
        LeavesBlock s.geometry size allocSize := by
      simp only [valid, hfloor, true_and, hfront, LeavesBlock]
      exact Or.comm
    have hpos : highest s.geometry x size allocSize alignment ≠ 0 := by
      simp only [blockHeaderSize] at hfloor
      omega
    have hboundary : (0 : Nat) ≠ 0 → allocSize ≤ 0 := fun hne => absurd rfl hne
    simp only [Heap.tryBlock, h.word_gt, hfits, if_true, ha, if_false, true_and,
      h.checkBlock_eq hfits hboundary]
    by_cases hleaves : LeavesBlock s.geometry size allocSize
    · simp [hvalid, hleaves, hpos]
    · simp [hvalid, hleaves]
  · simp [Heap.tryBlock, h.word_gt, hfits]

/-- Without an alignment, a free block is used if it has room for the area. -/
theorem Formed.tryBlock_unaligned (h : Formed s (as ++ ⟨x, size, false⟩ :: n :: ds)) :
    (∃ p, p ≠ 0 ∧ Heap.tryBlock fuel s x (allocSize + allocBonus) allocSize 0 0 = some p) ↔
      allocSize + allocBonus ≤ size := by
  by_cases hfits : allocSize + allocBonus ≤ size
  · have harea : allocAreaOfBlock x = x + blockHeaderSize := (h.checkNumbers hfits).areaBegin
    simp [Heap.tryBlock, h.word_gt, hfits, harea, blockHeaderSize]
  · simp [Heap.tryBlock, h.word_gt, hfits]

/-- An alignment that divides the page size lets an allocation fail exactly if there are free blocks
with room for the area, and all of them would leave a remnant that is too small for a block. -/
theorem weak_alignment_iff {s : State} {bs : List Block} {fuel alignment : Nat}
    (h : WellFormed s bs) (hfuel : 2 ^ 32 ≤ fuel) (ha : alignment ≠ 0)
    (hdvd : alignment ∣ s.pageSize) (allocSize : Nat) :
    (Succeeds fuel s allocSize 0 → Succeeds fuel s allocSize alignment) ↔
      ((∃ b ∈ bs, b.used = false ∧ allocSize + allocBonus ≤ b.size) →
        ∃ b ∈ bs, b.used = false ∧ allocSize + allocBonus ≤ b.size ∧
          LeavesBlock s.geometry b.size allocSize) := by
  rw [h.succeeds_iff hfuel (allocSize + allocBonus ≤ ·)
      fun _ _ _ _ _ hformed => hformed.tryBlock_unaligned,
    h.succeeds_iff hfuel (fun size => allocSize + allocBonus ≤ size ∧
      LeavesBlock s.geometry size allocSize)
      fun _ _ _ _ _ hformed => hformed.tryBlock_aligned ha hdvd]

theorem weak_alignment_iff_small :
    (Succeeds (2 ^ 32) small 100 0 → Succeeds (2 ^ 32) small 100 8) ↔
      ((∃ b ∈ [⟨1000, 192, false⟩], Block.used b = false ∧ 100 + allocBonus ≤ b.size) →
        ∃ b ∈ [⟨1000, 192, false⟩], Block.used b = false ∧ 100 + allocBonus ≤ b.size ∧
          LeavesBlock small.geometry b.size 100) :=
  weak_alignment_iff small_wellFormed (Nat.le_refl _) (by decide) (by decide) 100

/-- With pages of 8 bytes, 8 bytes in front of the area are too few for a block. -/
theorem weak_alignment_fails : WellFormed small [⟨1000, 192, false⟩] ∧ 8 ∣ small.pageSize ∧
    Succeeds (2 ^ 32) small 176 0 ∧ ¬ Succeeds (2 ^ 32) small 176 8 := by
  refine ⟨small_wellFormed, by decide, ?_, ?_⟩
  · rw [small_wellFormed.succeeds_iff (Nat.le_refl _) (176 + allocBonus ≤ ·)
      fun _ _ _ _ _ hformed => hformed.tryBlock_unaligned]
    decide
  · rw [small_wellFormed.succeeds_iff (Nat.le_refl _) (fun size => 176 + allocBonus ≤ size ∧
      LeavesBlock small.geometry size 176)
      fun _ _ _ _ _ hformed => hformed.tryBlock_aligned (by decide) (by decide)]
    simp only [LeavesBlock]
    decide

end Rtems.Heap

/-!
## Areas of `_Heap_Allocate`

Without an alignment and a boundary, an area begins right behind the header of its block.  The first
free block with room for it is cut, and the rest of it stays free.  An area is refused if no free
block has room.
-/

namespace Rtems.Heap

open Lib

variable {s s' : State} {as ds all : List Block} {b n : Block} {x size p k fuel : Nat}

/-- The blocks `all` with an area of `k` bytes at `p` taken from one of the free ones. -/
structure Taken (s' : State) (all all' : List Block) (p k : Nat) : Prop where
  formed : Formed s' all'
  taken : ∃ as x size n ds u r, all = as ++ ⟨x, size, false⟩ :: n :: ds ∧
    all' = as ++ ⟨x, u, true⟩ :: (remnant (x + u) r ++ n :: ds) ∧
    u + r = size ∧ k + allocBonus ≤ u ∧ p = x + blockHeaderSize

/-- The used blocks stay. -/
theorem Taken.used {all' : List Block} (h : Taken s' all all' p k) (hb : b ∈ all)
    (hused : b.used = true) : b ∈ all' := by
  obtain ⟨as, x, size, n, ds, u, r, rfl, rfl, -, -, -⟩ := h.taken
  simp only [List.mem_append, List.mem_cons] at hb ⊢
  rcases hb with has | rfl | hrest
  · exact .inl has
  · cases hused
  · exact .inr (.inr (.inr hrest))

theorem Formed.served_begin (h : Formed s (as ++ ⟨x, size, false⟩ :: n :: ds))
    (hserved : Served fuel s s' as x size n ds p k 0 0) : p = x + blockHeaderSize := by
  have htried := hserved.tried
  have halign : searchAlignment s 0 0 = 0 := rfl
  simp only [Heap.tryBlock, halign, h.word_gt, if_pos hserved.enough, if_true,
    (h.checkNumbers hserved.enough).areaBegin] at htried
  exact (Option.some.inj htried).symm

/-- An area at the begin of its free block. -/
theorem Formed.serve_unaligned (h : Formed s (as ++ ⟨x, size, false⟩ :: n :: ds))
    (hserved : Served fuel s s' as x size n ds p k 0 0) :
    ∃ u r, u + r = size ∧ k + allocBonus ≤ u ∧ p = x + blockHeaderSize ∧ s'.geometry = s.geometry ∧
      Formed s' (as ++ ⟨x, u, true⟩ :: (remnant (x + u) r ++ n :: ds)) := by
  obtain ⟨z, u, r, hsum, hz, hu, hline, hgeom, -, hformed⟩ := h.serve hserved
  have hpx := h.served_begin hserved
  have hfront : z = 0 := by
    rw [hz, front, hpx, alignDown_of_dvd h.layout.inner.aligned, Nat.sub_self]
  rw [hfront, remnant_zero, List.nil_append, Nat.add_zero] at hformed
  refine ⟨u, r, by omega, ?_, hpx, hgeom, hformed⟩
  have hrequest : splitRequest x z p k = k := by
    simp only [splitRequest, if_pos hfront, hpx, Nat.sub_self, Nat.add_zero]
  rw [hrequest, hfront, Nat.sub_zero] at hu
  have henough := hserved.enough
  by_cases hsplit : Splits s.geometry size k
  · have hspec := (h.layout.usedBlockSize_spec hsplit).1
    rw [cutSize, if_pos hsplit] at hu
    rw [usedSize] at hspec
    simp only [blockHeaderSize, allocBonus] at *
    omega
  · rw [cutSize, if_neg hsplit] at hu
    omega

/-- An allocation that succeeds. -/
theorem Formed.allocate_served (h : Formed s all) (heq : allocate fuel s k = some (s', p))
    (hp : p ≠ 0) : s'.geometry = s.geometry ∧ ∃ all', Taken s' all all' p k := by
  rcases h.allocateAligned heq with ⟨hzero, -⟩ | ⟨-, as, x, size, n, ds, rfl, hserved⟩
  · exact absurd hzero hp
  obtain ⟨u, r, hsum, hk, hpx, hgeom, hformed⟩ := h.serve_unaligned hserved
  exact ⟨hgeom, _, hformed, as, x, size, n, ds, u, r, rfl, rfl, hsum, hk, hpx⟩

end Rtems.Heap
