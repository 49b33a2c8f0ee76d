import Rtems.Heap.Alignment

/-!
# The contents of areas

The headers of the blocks and the areas lie in the same memory.  An operation on a
block changes headers between the block and the next used one, and links of free
blocks.  The areas of the other used blocks keep their bytes.
-/

namespace Rtems.Heap

open Lib

variable {s s' s₁ : State} {as ds all begins : List Block} {b c n : Block} {g : Geometry}
  {w x y z size r e lo hi p k allocSize fuel : Nat} {anchor : Pointer} {frees₁ frees₂ : List Nat}

/-! ## The areas that a heap holds -/

section

open List

variable {live : List Nat} {alignment boundary : Nat}

/-- The heap is well formed, and the live areas have used blocks of their own. -/
def Held (s : State) (live : List Nat) : Prop :=
  ∃ all, Formed s all ∧
    ((s.lastBlock + blockHeaderSize) :: live.map (alignDown · s.pageSize)).Subperm (usedLines all)

theorem Exact.areas (h : Exact s all live) : Held s live := ⟨all, h.formed, h.held.subperm⟩

/-- The order of the areas does not matter. -/
theorem Held.perm {live' : List Nat} (h : Held s live) (hperm : live.Perm live') : Held s live' := by
  obtain ⟨all, hformed, hheld⟩ := h
  exact ⟨all, hformed, ((hperm.map _).cons _).symm.subperm.trans hheld⟩

theorem Held.ne_zero (h : Held s live) (hp : p ∈ live) : p ≠ 0 := by
  obtain ⟨all, -, hheld⟩ := h
  have hline : alignDown p s.pageSize ∈ live.map (alignDown · s.pageSize) := List.mem_map_of_mem hp
  obtain ⟨b, -, -, hbegin⟩ := mem_usedLines.mp (hheld.subset (List.mem_cons_of_mem _ hline))
  rintro rfl
  simp [alignDown, blockHeaderSize] at hbegin

/-- The release of a live area. -/
theorem Held.free (h : Held s live) (hp : p ∈ live) :
    ∃ s', Heap.free s p = (s', true) ∧ s'.geometry = s.geometry ∧ Held s' (live.erase p) := by
  obtain ⟨all, hformed, hheld⟩ := h
  obtain ⟨b, hb, hused, hne, hbegin⟩ := hformed.exists_block hheld hp
  obtain ⟨s', as, w, z, size, r, n, ds, rfl, hsum, heq, hgeom, -, hformed'⟩ :=
    hformed.release hb hused hne hbegin
  refine ⟨s', heq, hgeom, _, hformed', ?_⟩
  have hpage : s'.pageSize = s.pageSize := congrArg Geometry.pageSize hgeom
  have hlast : s'.lastBlock = s.lastBlock := congrArg Geometry.lastBlock hgeom
  have herase := (List.perm_cons_erase hp).map (alignDown · s.pageSize)
  rw [hpage, hlast]
  rw [List.map_cons, hbegin, hsum] at herase
  apply (List.subperm_cons (w + z + blockHeaderSize)).mp
  have hlines : ((w + z + blockHeaderSize) :: (s.lastBlock + blockHeaderSize) ::
      (live.erase p).map (alignDown · s.pageSize)).Perm
      ((s.lastBlock + blockHeaderSize) :: live.map (alignDown · s.pageSize)) :=
    (List.Perm.swap _ _ _).trans (herase.symm.cons _)
  exact (hlines.subperm.trans hheld).trans usedLines_release.subperm

/-- An allocation. -/
theorem Held.allocate (h : Held s live)
    (heq : allocateAlignedWithBoundary fuel s allocSize alignment boundary = some (s', p)) :
    Held s' (if p = 0 then live else p :: live) := by
  obtain ⟨all, hformed, hheld⟩ := h
  rcases hformed.allocateAligned heq with ⟨rfl, hrefused⟩ | ⟨hp, as, x, size, n, ds, rfl, hserved⟩
  · obtain ⟨f, rfl, -⟩ := hrefused.result
    exact ⟨all, hformed.setStats f, hheld⟩
  · obtain ⟨z, u, r, -, -, -, hline, hgeom, -, hformed'⟩ := hformed.serve hserved
    refine ⟨_, hformed', ?_⟩
    have hpage : s'.pageSize = s.pageSize := congrArg Geometry.pageSize hgeom
    have hlast : s'.lastBlock = s.lastBlock := congrArg Geometry.lastBlock hgeom
    rw [if_neg hp, hpage, hlast, List.map_cons, hline]
    have hlines : ((x + z + blockHeaderSize) :: (s.lastBlock + blockHeaderSize) ::
        live.map (alignDown · s.pageSize)).Subperm
        ((x + z + blockHeaderSize) :: usedLines (as ++ ⟨x, size, false⟩ :: n :: ds)) :=
      (List.subperm_cons _).mpr hheld
    exact ((List.Perm.swap _ _ _).subperm.trans hlines).trans usedLines_serve.symm.subperm

/-- The allocation comes to an end. -/
theorem Held.allocate_isSome (h : Held s live) (hfuel : 2 ^ 32 ≤ fuel)
    (allocSize alignment boundary : Nat) :
    ∃ result, allocateAlignedWithBoundary fuel s allocSize alignment boundary = some result := by
  obtain ⟨all, hformed, -⟩ := h
  exact hformed.allocateAligned_isSome hfuel

end

/-! ## Words of headers -/

/-- The words of headers that overlap the bytes from `lo` up to `hi` are the same. -/
structure Untouched (s s' : State) (lo hi : Nat) : Prop where
  prevSize : ∀ y, y < hi → lo < y + 4 → s'.prevSize y = s.prevSize y
  sizeAndFlag : ∀ y, y + 4 < hi → lo < y + 8 → s'.sizeAndFlag y = s.sizeAndFlag y
  links : ∀ y, y + 8 < hi → lo < y + 16 → s.links.SameAt s'.links (.block y)

theorem Untouched.refl (s : State) (lo hi : Nat) : Untouched s s lo hi :=
  ⟨fun _ _ _ => rfl, fun _ _ _ => rfl, fun _ _ _ => ⟨rfl, rfl⟩⟩

theorem Untouched.mono {lo' hi' : Nat} (h : Untouched s s' lo hi) (hlo : lo ≤ lo') (hhi : hi' ≤ hi) :
    Untouched s s' lo' hi' where
  prevSize y hlt hgt := h.prevSize y (by omega) (by omega)
  sizeAndFlag y hlt hgt := h.sizeAndFlag y (by omega) (by omega)
  links y hlt hgt := h.links y (by omega) (by omega)

theorem Untouched.setStats (h : Untouched s s' lo hi) (f : Statistics → Statistics) :
    Untouched s (s'.setStats f) lo hi := { h with }

/-- Headers are the same but for those of the blocks from `x` to `e`, and for the links of the free
blocks that begin at `begins`. -/
structure Confined (s s' : State) (begins : List Nat) (x e : Nat) : Prop where
  prevSize : ∀ y, y < x + 16 ∨ e < y → s'.prevSize y = s.prevSize y
  sizeAndFlag : ∀ y, y < x ∨ e < y → s'.sizeAndFlag y = s.sizeAndFlag y
  links : ∀ y, y ∉ begins → y < x ∨ e < y + 16 → s.links.SameAt s'.links (.block y)

theorem Confined.trans (h : Confined s s₁ frees₁ x e) (h' : Confined s₁ s' frees₁ x e) :
    Confined s s' frees₁ x e where
  prevSize y hy := (h'.prevSize y hy).trans (h.prevSize y hy)
  sizeAndFlag y hy := (h'.sizeAndFlag y hy).trans (h.sizeAndFlag y hy)
  links y hy hout := ⟨(h'.links y hy hout).1.trans (h.links y hy hout).1,
    (h'.links y hy hout).2.trans (h.links y hy hout).2⟩

theorem Confined.mono (h : Confined s s' frees₁ x e) (hsub : ∀ y ∈ frees₁, y ∈ frees₂) :
    Confined s s' frees₂ x e :=
  ⟨h.prevSize, h.sizeAndFlag, fun y hy hout => h.links y (fun hmem => hy (hsub y hmem)) hout⟩

theorem Confined.setStats (h : Confined s s' frees₁ x e) (f : Statistics → Statistics) :
    Confined s (s'.setStats f) frees₁ x e := { h with }

/-- Two blocks have no byte in common. -/
theorem Layout.disjoint (h : Layout g all) (hb : b ∈ all) (hc : c ∈ all) (hne : b ≠ c) :
    b.begin + b.size ≤ c.begin ∨ c.begin + c.size ≤ b.begin :=
  (h.tiles.disjoint hb hc).resolve_left hne

/-- The links of a free block lie clear of a used one. -/
theorem Layout.free_apart (h : Layout g all) (hb : b ∈ all) (hused : b.used = true)
    (hy : y ∈ frees all) : y + 16 ≤ b.begin ∨ b.begin + b.size ≤ y := by
  obtain ⟨a, ha, hfree, rfl⟩ := mem_frees.mp hy
  have hne : a ≠ b := by
    rintro rfl
    rw [hused] at hfree
    cases hfree
  have hsize := h.free_size ha hfree
  rcases h.disjoint ha hb hne with hbefore | hbehind
  · left
    omega
  · exact .inr hbehind

/-- The area of a used block that is not among the blocks that change. -/
theorem Confined.untouched (h : Confined s s' (frees all) x e) (hlayout : Layout g all)
    (hb : b ∈ all) (hused : b.used = true) (hout : b.begin + b.size ≤ x ∨ e ≤ b.begin) :
    Untouched s s' (b.begin + blockHeaderSize) (b.begin + b.size + allocBonus) := by
  obtain ⟨hheader, hbonus⟩ := headerSizes
  rw [hheader, hbonus]
  refine ⟨fun y hlt hgt => ?_, fun y hlt hgt => ?_, fun y hlt hgt => ?_⟩
  · exact h.prevSize y (by omega)
  · exact h.sizeAndFlag y (by omega)
  · refine h.links y ?_ (by omega)
    intro hy
    have hapart := hlayout.free_apart hb hused hy
    omega

/-! ## The free list -/

variable {l : Links Pointer} {list : List Nat}

theorem FreeList.next_mem (h : FreeList l (x :: list)) :
    l.next (.block x) ∈ Pointer.freeList :: list.map .block := by
  obtain ⟨front, back, hperm, hring⟩ := h.exists_split
  rw [hring.next]
  rcases List.mem_cons.mp (Links.firstOf_mem Pointer.freeList (back.map Pointer.block)) with heq | hmem
  · rw [heq]
    exact List.mem_cons_self
  · obtain ⟨y, hy, heq⟩ := List.mem_map.mp hmem
    rw [← heq]
    exact List.mem_cons_of_mem _
      (List.mem_map_of_mem (hperm.mem_iff.mp (List.mem_append_right _ hy)))

theorem FreeList.remove_same (h : FreeList l (x :: list)) (hy : y ∉ x :: list) :
    l.SameAt (l.remove (.block x)) (.block y) := by
  obtain ⟨front, back, hperm, hring⟩ := h.exists_split
  apply hring.remove_same
  have hout : y ∉ front ++ x :: back := by
    intro hmem
    exact hy ((List.perm_middle.trans (hperm.cons x)).mem_iff.mp hmem)
  simpa using hout

theorem FreeList.replace_same (h : FreeList l (x :: list)) (hy : y ∉ x :: list) (hyz : y ≠ z) :
    l.SameAt (l.replace (.block x) (.block z)) (.block y) := by
  have hout : y ∉ list := fun hmem => hy (List.mem_cons_of_mem x hmem)
  have hnext : Pointer.block y ≠ l.next (.block x) :=
    fun heq => block_notMem hout (heq ▸ h.next_mem)
  have hprev : Pointer.block y ≠ l.prev (.block x) :=
    fun heq => block_notMem hout (heq ▸ h.prev_mem)
  constructor
  · simp [Links.replace, Links.setNext, Links.setPrev, hyz, hprev]
  · simp [Links.replace, Links.setNext, Links.setPrev, hyz, hnext]

theorem FreeList.insertAfter_same (h : FreeList l list)
    (ha : anchor ∈ Pointer.freeList :: list.map .block) (hy : y ∉ list) (hyz : y ≠ z) :
    l.SameAt (l.insertAfter anchor (.block z)) (.block y) := by
  obtain ⟨front, back, hfl, rfl, hring⟩ := h.exists_place ha
  apply hring.insertAfter_same
  have hout : y ∉ front ++ z :: back := by
    intro hmem
    rcases List.mem_cons.mp (List.perm_middle.mem_iff.mp hmem) with rfl | hmem
    · exact hyz rfl
    · exact hy (hfl.mem_iff.mp hmem)
  simpa using hout

/-! ## Cutting a block -/

/-- What `_Heap_Block_split` does. -/
theorem Opened.split_confined (h : Opened s as x size n ds) (hn : n.used = true)
    (hsize : allocSize + allocBonus ≤ size)
    (ha : anchor ∈ Pointer.freeList :: (frees as ++ frees (n :: ds)).map .block) :
    Confined s (blockSplit s x anchor allocSize) (frees as ++ frees (n :: ds)) x n.begin := by
  have hnext : x + size = n.begin := h.layout.inner.next
  have hmin := h.layout.min_spec.1
  have hle : s.geometry.minBlockSize ≤ size := h.layout.inner.min_le
  by_cases hsplit : Splits s.geometry size allocSize
  · rw [h.blockSplit_used anchor hsize hsplit hn]
    have hcut := h.cut hsplit
    generalize usedBlockSize s.geometry allocSize = u at *
    have hused := hcut.used_lt
    have hleft := hcut.left_min
    have hpos := hcut.min_le
    have hlinks : ∀ y, y ∉ frees as ++ frees (n :: ds) → y ≠ x + u →
        s.links.SameAt (splitAt s x u (size - u) n.begin n.size anchor).links (.block y) := by
      intro y hy hyz
      simp only [splitAt, links_setSizeAndFlag, links_setPrevSize, links_setStats,
        links_freeListInsertAfter, links_blockSetSize]
      exact h.freeList.insertAfter_same ha hy hyz
    refine ⟨fun y hy => ?_, fun y hy => ?_, fun y hy hout => hlinks y hy (by omega)⟩
    · have hyn : y ≠ n.begin := by omega
      simp [splitAt, hyn]
    · have hyn : y ≠ n.begin := by omega
      have hyu : y ≠ x + u := by omega
      have hyx : y ≠ x := by omega
      simp [splitAt, hyn, hyu, hyx]
  · rw [h.blockSplit_whole anchor hsize hsplit]
    refine ⟨fun y hy => rfl, fun y hy => ?_, fun y hy hout => ⟨rfl, rfl⟩⟩
    have hyn : y ≠ n.begin := by omega
    simp [hyn]

/-- A free block is taken off the free list. -/
theorem Formed.taken_confined (h : Formed s (as ++ ⟨x, size, false⟩ :: n :: ds)) (e : Nat) :
    Confined s (taken s x size) (frees (as ++ ⟨x, size, false⟩ :: n :: ds)) x e := by
  refine ⟨fun y hy => rfl, fun y hy => rfl, fun y hy hout => ?_⟩
  have hfree : FreeList s.links (x :: (frees as ++ frees (n :: ds))) := by
    refine h.freeList.perm ?_
    simp
  refine hfree.remove_same ?_
  intro hmem
  apply hy
  simp only [frees_append, List.mem_append, List.mem_cons] at hmem ⊢
  rw [frees_cons_free rfl, List.mem_cons]
  tauto

/-- An allocation changes headers from its free block to the used one behind. -/
theorem Formed.allocate_confined (h : Formed s (as ++ ⟨x, size, false⟩ :: n :: ds))
    (hroom : k + allocBonus ≤ size) :
    Confined s (Heap.blockAllocate s x (x + blockHeaderSize) k).1
      (frees (as ++ ⟨x, size, false⟩ :: n :: ds)) x n.begin := by
  obtain ⟨-, hn⟩ := h.around_free
  have hinner := h.layout.inner
  have hnext := hinner.next
  have hle := hinner.next_le
  have hfits := h.layout.fits
  have hpage := h.layout.page_pos
  have hfree : isFree s x = true := by
    have hused := h.isUsed (b := ⟨x, size, false⟩) (by simp)
    simp only at hused
    simp [isFree, hused]
  have hsize : Heap.blockSize s x = size := h.blockSize (b := ⟨x, size, false⟩) (by simp)
  have hmin := h.layout.min_spec.1
  simp only [blockHeaderSize, allocBonus] at *
  have harea : allocAreaOfBlock x = x + 8 := add32_of_lt (by simp only [blockHeaderSize]; omega)
  have hoffset : sub32 (x + 8) (allocAreaOfBlock x) = 0 := by
    rw [harea, sub32_of_le (Nat.le_refl _) (by omega), Nat.sub_self]
  have hsum : add32 k 0 = k := add32_of_lt (by omega)
  rw [blockAllocate_begin hfree hsize (by rw [hoffset]; exact hpage), hoffset, hsum]
  have hopened : Opened (taken s x size) as x size n ds := h.takeFree.setStats _
  have hsplit := hopened.split_confined hn hroom h.prev_mem
  refine ((h.taken_confined n.begin).trans (hsplit.mono fun y hy => ?_)).setStats _
  rw [frees_append, frees_cons_free rfl]
  simp only [List.mem_append, List.mem_cons] at hy ⊢
  tauto

/-! ## Release -/

/-- A release changes headers from the joined block to the used one behind. -/
theorem Formed.free_confined (h : Formed s (as ++ (remnant w z ++ ⟨w + z, size, true⟩ ::
      (remnant (w + z + size) r ++ n :: ds)))) (hgap : gapBehind none as = none)
    (hn : n.used = true) (hp : p ≠ 0) (hblock : blockOfAllocArea p s.pageSize = w + z) :
    Confined s (Heap.free s p).1 (frees (as ++ (remnant w z ++ ⟨w + z, size, true⟩ ::
      (remnant (w + z + size) r ++ n :: ds)))) w n.begin := by
  obtain ⟨s', heq, hjoined, -, hprev⟩ := h.free_eq hgap hn hp hblock
  rw [heq]
  have hmem : (⟨w + z, size, true⟩ : Block) ∈ as ++ (remnant w z ++ ⟨w + z, size, true⟩ ::
      (remnant (w + z + size) r ++ n :: ds)) := by simp
  have hnmem : n ∈ as ++ (remnant w z ++ ⟨w + z, size, true⟩ ::
      (remnant (w + z + size) r ++ n :: ds)) := by simp
  have hlast : w + z + size + r = n.begin := by
    have hsplit : Formed s ((as ++ remnant w z) ++ ⟨w + z, size, true⟩ ::
        (remnant (w + z + size) r ++ n :: ds)) := by simpa using h
    exact (hsplit.behindIt hn).last
  have hle := (h.layout.begin_le hnmem).2
  have hpos := (h.layout.tiles.mem hmem).2.1
  have hsizes := (h.layout.sizes _ hmem (by simp only at hpos ⊢; omega)).2
  have hmin := h.layout.min_spec.1
  simp only at hsizes hpos
  refine ⟨fun y hy => hprev y (by omega), fun y hy => (hjoined.same y hy).1, fun y hy hout => ?_⟩
  have hyw : y ≠ w := by omega
  rw [hjoined.links]
  rcases Nat.eq_zero_or_pos r with rfl | hr
  · rw [if_pos rfl]
    rcases Nat.eq_zero_or_pos z with rfl | hz
    · rw [if_pos rfl]
      exact h.freeList.insertAfter_same List.mem_cons_self hy hyw
    · rw [if_neg hz.ne']
      exact ⟨rfl, rfl⟩
  · rw [if_neg hr.ne']
    have hperm : ∃ rest, (frees (as ++ (remnant w z ++ ⟨w + z, size, true⟩ ::
        (remnant (w + z + size) r ++ n :: ds)))).Perm ((w + z + size) :: rest) := by
      refine ⟨_, List.perm_cons_erase ?_⟩
      simp [remnant_pos hr.ne']
    obtain ⟨rest, hrest⟩ := hperm
    have hfree := h.freeList.perm hrest
    have hyrest : y ∉ (w + z + size) :: rest := fun hmem => hy (hrest.mem_iff.mpr hmem)
    rcases Nat.eq_zero_or_pos z with rfl | hz
    · rw [if_pos rfl]
      exact hfree.replace_same hyrest hyw
    · rw [if_neg hz.ne']
      exact hfree.remove_same hyrest

/-! ## Areas and their bytes -/

variable {live : List Nat} {q m : Nat} {all' : List Block}

/-- The headers say what the blocks are. -/
theorem Formed.unique (h : Formed s all) (h' : Formed s all') : all = all' := by
  refine h.layout.tiles.unique h'.layout.tiles fun a ha c hc hbegin => ?_
  have hsize := h.blockSize ha
  have hused := h.isUsed ha
  rw [hbegin] at hsize hused
  rw [h'.blockSize hc] at hsize
  rw [h'.isUsed hc] at hused
  cases a
  cases c
  simp_all

/-- The area at `p` has `k` bytes up to the end of its used block. -/
structure InBlock (s : State) (all : List Block) (b : Block) (p k : Nat) : Prop where
  mem : b ∈ all
  used : b.used = true
  inner : b ≠ s.geometry.endBlock
  line : alignDown p s.pageSize = b.begin + blockHeaderSize
  bytes : p + k = b.begin + b.size + allocBonus

def Usable (s : State) (p k : Nat) : Prop := ∃ all b, Formed s all ∧ InBlock s all b p k

/-- The area keeps its bytes. -/
def Preserves (s s' : State) (q : Nat) : Prop :=
  ∀ k, Usable s q k → Usable s' q k ∧ Untouched s s' q (q + k)

theorem Preserves.setStats (s : State) (f : Statistics → Statistics) (q : Nat) :
    Preserves s (s.setStats f) q := by
  rintro k ⟨all, b, hformed, hb⟩
  exact ⟨⟨all, b, hformed.setStats f, { hb with }⟩, (Untouched.refl s q (q + k)).setStats f⟩

/-- The block of an area is not among those that change. -/
theorem Confined.preserves (h : Confined s s' (frees all) x e) (hformed : Formed s all)
    (hformed' : Formed s' all') (hgeom : s'.geometry = s.geometry) (hb : InBlock s all b q k)
    (hmem : b ∈ all') (hout : b.begin + b.size ≤ x ∨ e ≤ b.begin) :
    Usable s' q k ∧ Untouched s s' q (q + k) := by
  have hpage : s'.pageSize = s.pageSize := congrArg Geometry.pageSize hgeom
  refine ⟨⟨all', b, hformed', hmem, hb.used, hgeom ▸ hb.inner, hpage ▸ hb.line, hb.bytes⟩, ?_⟩
  have hle : b.begin + blockHeaderSize ≤ q := hb.line ▸ alignDown_le q s.pageSize
  exact (h.untouched hformed.layout hb.mem hb.used hout).mono hle hb.bytes.le

/-- Every area keeps its bytes when another one is allocated. -/
theorem Formed.allocate_preserves (h : Formed s all) (heq : allocate fuel s k = some (s', p)) (q : Nat) :
    Preserves s s' q := by
  rcases h.allocateAligned heq with ⟨-, hrefused⟩ | ⟨hp, as, x, size, n, ds, rfl, hserved⟩
  · obtain ⟨f, rfl, -⟩ := hrefused.result
    exact .setStats s f q
  · obtain ⟨hgeom, all', htaken⟩ := h.allocate_served heq hp
    obtain ⟨f, rfl, -⟩ := hserved.result
    rintro k' ⟨_, b, hformed, hb⟩
    obtain rfl := hformed.unique h
    have hpx := h.served_begin hserved
    have hconfined := h.allocate_confined hserved.enough
    rw [← hpx] at hconfined
    refine (hconfined.setStats f).preserves h htaken.formed hgeom hb (htaken.used hb.mem hb.used) ?_
    have hmem : (⟨x, size, false⟩ : Block) ∈ as ++ ⟨x, size, false⟩ :: n :: ds := by simp
    have hne : b ≠ ⟨x, size, false⟩ := by
      intro hbx
      have hused := hb.used
      rw [hbx] at hused
      cases hused
    have hnext := h.layout.inner.next
    have hapart := h.layout.disjoint hb.mem hmem hne
    simp only at hnext hapart
    omega

theorem Formed.allocate_usable (h : Formed s all) (heq : allocate fuel s k = some (s', p))
    (hp : p ≠ 0) : ∃ m, Usable s' p m ∧ k ≤ m := by
  obtain ⟨hgeom, all', htaken⟩ := h.allocate_served heq hp
  obtain ⟨as, x, size, n, ds, u, r, rfl, rfl, hsum, hk, rfl⟩ := htaken.taken
  have hpage : s'.pageSize = s.pageSize := congrArg Geometry.pageSize hgeom
  have hinner := h.layout.inner
  have hnext := hinner.next
  have hle := hinner.next_le
  simp only [blockHeaderSize, allocBonus] at *
  refine ⟨u - 4, ⟨_, ⟨x, u, true⟩, htaken.formed, by simp, rfl, ?_, ?_, ?_⟩, by omega⟩
  · intro heq
    have hbegin : x = s'.geometry.lastBlock := congrArg Block.begin heq
    rw [hgeom] at hbegin
    omega
  · rw [hpage]
    exact alignDown_of_dvd hinner.aligned
  · simp only [allocBonus]
    omega

/-- The lines of the live areas. -/
theorem Held.line_ne (h : Held s live) (hp : p ∈ live) (hq : q ∈ live.erase p) :
    alignDown q s.pageSize ≠ alignDown p s.pageSize := by
  obtain ⟨all, hformed, lines, hlines, hsub⟩ := h
  have hnodup := hlines.nodup_iff.mp (hformed.nodup_usedLines.sublist hsub)
  have hmap := (List.nodup_cons.mp hnodup).2
  have hperm := (List.perm_cons_erase hp).map (alignDown · s.pageSize)
  have hcons := (List.nodup_cons.mp (hperm.nodup_iff.mp hmap)).1
  intro heq
  apply hcons
  change alignDown p s.pageSize ∈ _
  rw [← heq]
  exact List.mem_map_of_mem hq

/-- The other live areas keep their bytes when one is freed. -/
theorem Held.free_preserves (h : Held s live) (hp : p ∈ live) (hq : q ∈ live.erase p) :
    Preserves s (Heap.free s p).1 q := by
  have hline := h.line_ne hp hq
  obtain ⟨all, hformed, hheld⟩ := h
  obtain ⟨c, hc, hcused, hcne, hcline⟩ := hformed.exists_block hheld hp
  obtain ⟨as, w, z, size, r, n, ds, rfl, rfl, hgap, hn, hpne, hblock⟩ :=
    hformed.exists_neighbors hc hcused hcne hcline
  obtain ⟨s', heq, hformed', hgeom, -⟩ := hformed.free hgap hn hpne hblock
  have hconfined := hformed.free_confined hgap hn hpne hblock
  rw [heq] at hconfined ⊢
  rintro k ⟨all, b, hall, hb⟩
  obtain rfl := hall.unique hformed
  have hlayout := hformed.layout
  have hlast : w + z + size + r = n.begin := by
    have hsplit : Formed s ((as ++ remnant w z) ++ ⟨w + z, size, true⟩ ::
        (remnant (w + z + size) r ++ n :: ds)) := by simpa using hformed
    exact (hsplit.behindIt hn).last
  have hbc : b ≠ ⟨w + z, size, true⟩ := by
    rintro rfl
    exact hline (hb.line.trans hcline.symm)
  -- A used block is before the joined block or behind it.
  have hcases : b ∈ as ∨ b ∈ n :: ds := by
    have hmem := hb.mem
    simp only [List.mem_append, List.mem_cons] at hmem ⊢
    rcases hmem with has | hfront | hself | hback | hrest
    · exact .inl has
    · exact absurd hfront (notMem_remnant hb.used)
    · exact absurd hself hbc
    · exact absurd hback (notMem_remnant hb.used)
    · exact .inr hrest
  refine hconfined.preserves hformed hformed' hgeom hb ?_ ?_
  · simp only [List.mem_append, List.mem_cons] at hcases ⊢
    tauto
  · have hnew := hformed'.layout
    have hwmem : (⟨w, z + size + r, false⟩ : Block) ∈
        as ++ ⟨w, z + size + r, false⟩ :: n :: ds := by simp
    have hbmem : b ∈ as ++ ⟨w, z + size + r, false⟩ :: n :: ds := by
      simp only [List.mem_append, List.mem_cons] at hcases ⊢
      tauto
    have hne : b ≠ ⟨w, z + size + r, false⟩ := by
      rintro rfl
      cases hb.used
    have hapart := hnew.disjoint hbmem hwmem hne
    simp only at hapart
    omega

/-- Live areas have no byte in common. -/
theorem Held.apart (h : Held s live) (hp : p ∈ live) (hq : q ∈ live.erase p) (hpm : Usable s p m)
    (hqk : Usable s q k) : p + m ≤ q ∨ q + k ≤ p := by
  obtain ⟨all, b, hformed, hb⟩ := hpm
  obtain ⟨_, c, hall, hc⟩ := hqk
  obtain rfl := hall.unique hformed
  have hne : b ≠ c := by
    rintro rfl
    exact h.line_ne hp hq (hc.line.trans hb.line.symm)
  have hbp : b.begin + blockHeaderSize ≤ p := hb.line ▸ alignDown_le p s.pageSize
  have hcq : c.begin + blockHeaderSize ≤ q := hc.line ▸ alignDown_le q s.pageSize
  have hapart := hformed.layout.disjoint hb.mem hc.mem hne
  have hpbytes := hb.bytes
  have hqbytes := hc.bytes
  simp only [blockHeaderSize, allocBonus] at *
  omega

end Rtems.Heap
