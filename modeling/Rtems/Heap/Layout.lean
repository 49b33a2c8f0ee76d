import Rtems.Heap.Model
import Rtems.Lib.Tiling

/-!
# The blocks of a heap

The blocks of a heap tile the addresses from the first block to the last one,
and the size of the last block leads around to the first block again.  What the
headers say about a list of blocks is `Tagged`: the size of each block, and
whether the block before it is free.  A heap is well formed if there is such a
list, and if the free list goes through the free blocks.
-/

namespace Rtems.Heap

open Lib

/-- A block, and whether it is used. -/
structure Block where
  begin : Nat
  size : Nat
  used : Bool
deriving DecidableEq, Repr

/-- The size of a free block. -/
def Block.gap (b : Block) : Option Nat := if b.used then none else some b.size

@[simp]
theorem gap_used {x n : Nat} : Block.gap ⟨x, n, true⟩ = none := rfl

@[simp]
theorem gap_free {x n : Nat} : Block.gap ⟨x, n, false⟩ = some n := rfl

variable {s s' : State} {p : Option Nat} {as bs ds all mid mid' : List Block} {a b n : Block}
  {fl : List Nat} {x y : Nat}

/-! ## Words with a flag -/

theorem flagSet_add {v f : Nat} (hv : 2 ∣ v) (hf : f ≤ 1) : flagSet (v + f) = v + 1 := by
  simp only [flagSet]
  omega

theorem flagClear_add {v f : Nat} (hv : 2 ∣ v) (hf : f ≤ 1) : flagClear (v + f) = v := by
  simp only [flagClear]
  omega

theorem flagSet_even {v : Nat} (hv : 2 ∣ v) : flagSet v = v + 1 := flagSet_add hv (Nat.zero_le 1)

/-! ## Multiples of the page size -/

theorem alignDown_le (v a : Nat) : alignDown v a ≤ v := Nat.sub_le _ _

theorem dvd_alignDown (v a : Nat) : a ∣ alignDown v a := Nat.dvd_sub_mod v

theorem lt_alignDown_add {v a : Nat} (ha : 0 < a) : v < alignDown v a + a := by
  have hmod := Nat.mod_lt v ha
  have hle := Nat.mod_le v a
  simp only [alignDown]
  omega

/-- The greatest multiple that is not greater. -/
theorem le_alignDown {v a m : Nat} (hm : a ∣ m) (h : m ≤ v) : m ≤ alignDown v a := by
  rcases Nat.eq_zero_or_pos a with rfl | ha
  · simp_all
  · by_contra hlt
    have hnext := dvd_add_le (dvd_alignDown v a) hm (Nat.lt_of_not_le hlt)
    have hbound := lt_alignDown_add (v := v) ha
    omega

theorem alignDown_of_dvd {v a : Nat} (h : a ∣ v) : alignDown v a = v := by
  simp [alignDown, Nat.mod_eq_zero_of_dvd h]

theorem alignDown_mono {v w a : Nat} (h : v ≤ w) : alignDown v a ≤ alignDown w a :=
  le_alignDown (dvd_alignDown v a) ((alignDown_le v a).trans h)

/-- A number between two neighboring multiples. -/
theorem alignDown_eq {v a m : Nat} (hm : a ∣ m) (h : m ≤ v) (hlt : v < m + a) : alignDown v a = m := by
  apply Nat.le_antisymm
  · by_contra hgt
    have hnext := dvd_add_le hm (dvd_alignDown v a) (Nat.lt_of_not_le hgt)
    have hle := alignDown_le v a
    omega
  · exact le_alignDown hm h

/-- A number is aligned up inside the word if there is a multiple for it. -/
theorem alignUp_spec {v a m : Nat} (ha : 0 < a) (hm : a ∣ m) (h : v ≤ m) (hlt : m < 2 ^ 32) :
    v ≤ alignUp v a ∧ alignUp v a ≤ m ∧ a ∣ alignUp v a ∧ alignUp v a < v + a := by
  have hmod := Nat.mod_lt v ha
  have hle := Nat.mod_le v a
  simp only [alignUp]
  split
  next hne =>
    have hdvd : a ∣ v - v % a := Nat.dvd_sub_mod v
    have hnext : v - v % a + a ≤ m := dvd_add_le hdvd hm (by omega)
    rw [add32_of_lt (by omega)]
    exact ⟨by omega, hnext, hdvd.add (Nat.dvd_refl a), by omega⟩
  next heq =>
    exact ⟨Nat.le_refl v, h, Nat.dvd_of_mod_eq_zero (not_not.mp heq), by omega⟩

/-- The smallest block has room for its links and consists of pages. -/
theorem minBlockSizeOf_spec {page : Nat} (hpage : 0 < page) (hlt : page < 2 ^ 32) :
    16 ≤ minBlockSizeOf page ∧ page ≤ minBlockSizeOf page ∧ page ∣ minBlockSizeOf page := by
  have hm : page ∣ page * 16 := Nat.dvd_mul_right page 16
  have hbound : 16 ≤ page * 16 := Nat.le_mul_of_pos_left 16 hpage
  rcases Nat.lt_or_ge 16 page with hgt | hle
  · obtain ⟨h₁, h₂, h₃, -⟩ := alignUp_spec hpage (Nat.dvd_refl page) hgt.le hlt
    exact ⟨h₁, Nat.le_of_dvd (Nat.lt_of_lt_of_le (by decide) h₁) h₃, h₃⟩
  · obtain ⟨h₁, -, h₃, -⟩ := alignUp_spec hpage hm hbound (by omega)
    exact ⟨h₁, Nat.le_of_dvd (Nat.lt_of_lt_of_le (by decide) h₁) h₃, h₃⟩

/-! ## The tiling -/

/-- What the allocation and the release of areas leave alone. -/
structure Geometry where
  pageSize : Nat
  minBlockSize : Nat
  firstBlock : Nat
  lastBlock : Nat

def State.geometry (s : State) : Geometry :=
  ⟨s.pageSize, s.minBlockSize, s.firstBlock, s.lastBlock⟩

@[simp]
theorem geometry_setPrevSize {v : Nat} : (s.setPrevSize x v).geometry = s.geometry := rfl

@[simp]
theorem geometry_setSizeAndFlag {v : Nat} : (s.setSizeAndFlag x v).geometry = s.geometry := rfl

@[simp]
theorem geometry_setStats {f : Statistics → Statistics} :
    (s.setStats f).geometry = s.geometry := rfl

@[simp]
theorem geometry_freeListRemove {q : Pointer} : (freeListRemove s q).geometry = s.geometry := rfl

@[simp]
theorem geometry_freeListReplace {q r : Pointer} :
    (freeListReplace s q r).geometry = s.geometry := rfl

@[simp]
theorem geometry_freeListInsertAfter {q r : Pointer} :
    (freeListInsertAfter s q r).geometry = s.geometry := rfl

@[simp]
theorem geometry_blockSetSize {v : Nat} : (blockSetSize s x v).geometry = s.geometry := rfl

/-- The last block, which is used. -/
def Geometry.endBlock (g : Geometry) : Block :=
  ⟨g.lastBlock, g.firstBlock + 2 ^ 32 - g.lastBlock, true⟩

variable {g : Geometry}

/-- The blocks, the last one included, go once around all addresses. -/
structure Layout (g : Geometry) (all : List Block) : Prop where
  page_pos : 0 < g.pageSize
  page_lt : g.pageSize < 2 ^ 32
  page_even : cpuAlignment ∣ g.pageSize
  min_eq : g.minBlockSize = minBlockSizeOf g.pageSize
  first_aligned : g.pageSize ∣ g.firstBlock + blockHeaderSize
  tiles : Tiles Block.begin Block.size g.firstBlock (g.firstBlock + 2 ^ 32) all
  last : all.getLast? = some g.endBlock
  fits : g.lastBlock + blockHeaderSize < 2 ^ 32
  sizes : ∀ b ∈ all, b.begin < g.lastBlock → g.pageSize ∣ b.size ∧ g.minBlockSize ≤ b.size

theorem Layout.min_spec (h : Layout g all) :
    16 ≤ g.minBlockSize ∧ g.pageSize ≤ g.minBlockSize ∧ g.pageSize ∣ g.minBlockSize := by
  rw [h.min_eq]
  exact minBlockSizeOf_spec h.page_pos h.page_lt

theorem Layout.exists_init (h : Layout g all) : ∃ bs, all = bs ++ [g.endBlock] :=
  List.getLast?_eq_some_iff.mp h.last

theorem Layout.first_le (h : Layout g all) : g.firstBlock ≤ g.lastBlock := by
  obtain ⟨bs, rfl⟩ := h.exists_init
  exact (h.tiles.mem (a := g.endBlock) (by simp)).1

theorem Layout.begin_le (h : Layout g all) (hb : b ∈ all) :
    g.firstBlock ≤ b.begin ∧ b.begin ≤ g.lastBlock := by
  obtain ⟨bs, rfl⟩ := h.exists_init
  refine ⟨(h.tiles.mem hb).1, ?_⟩
  rcases List.mem_append.mp hb with hinit | hend
  · obtain ⟨mid, hbs, hlast⟩ := tiles_append.mp h.tiles
    have hmid : g.lastBlock = mid := hlast.1
    have hmem := hbs.mem hinit
    omega
  · simp only [List.mem_singleton] at hend
    rw [hend]
    exact Nat.le_refl g.lastBlock

theorem Layout.init (h : Layout g (bs ++ [g.endBlock])) :
    Tiles Block.begin Block.size g.firstBlock g.lastBlock bs := by
  obtain ⟨mid, hbs, hlast⟩ := tiles_append.mp h.tiles
  have hmid : g.lastBlock = mid := hlast.1
  rwa [hmid]

theorem Layout.sizes_init (h : Layout g (bs ++ [g.endBlock])) (hb : b ∈ bs) :
    g.pageSize ∣ b.size ∧ g.minBlockSize ≤ b.size := by
  have hmem := h.init.mem hb
  exact h.sizes b (List.mem_append_left _ hb) (by omega)

/-- The areas of the blocks are aligned. -/
theorem Layout.aligned (h : Layout g all) (hb : b ∈ all) :
    g.pageSize ∣ b.begin + blockHeaderSize := by
  obtain ⟨bs, rfl⟩ := h.exists_init
  obtain ⟨hall, hlast⟩ := h.init.dvd_add (fun b hb => (h.sizes_init hb).1) h.first_aligned
  rcases List.mem_append.mp hb with hinit | hend
  · exact hall b hinit
  · simp only [List.mem_singleton] at hend
    rw [hend]
    exact hlast

/-- Sizes are even, so that there is room for the flag. -/
theorem Layout.even (h : Layout g all) (hb : b ∈ all) : 2 ∣ b.size := by
  have hpage : 2 ∣ g.pageSize := Nat.dvd_trans (by decide) h.page_even
  have hfirst := Nat.dvd_trans hpage h.first_aligned
  have hle := h.first_le
  obtain ⟨bs, rfl⟩ := h.exists_init
  have hlast := Nat.dvd_trans hpage (h.aligned (b := g.endBlock) (by simp))
  rcases List.mem_append.mp hb with hinit | hend
  · exact Nat.dvd_trans hpage (h.sizes_init hinit).1
  · simp only [List.mem_singleton] at hend
    rw [hend]
    simp only [Geometry.endBlock, blockHeaderSize] at hlast hfirst ⊢
    omega

/-- The facts about a block that is not the last one. -/
structure Inner (g : Geometry) (b n : Block) : Prop where
  next : b.begin + b.size = n.begin
  first_le : g.firstBlock ≤ b.begin
  next_le : n.begin ≤ g.lastBlock
  page_dvd : g.pageSize ∣ b.size
  min_le : g.minBlockSize ≤ b.size
  aligned : g.pageSize ∣ b.begin + blockHeaderSize

theorem Layout.inner (h : Layout g (as ++ b :: n :: ds)) : Inner g b n := by
  have hnext := h.tiles.next
  have hb : b ∈ as ++ b :: n :: ds := by simp
  have hn : n ∈ as ++ b :: n :: ds := by simp
  have hpos := (h.tiles.mem hb).2.1
  have hle := h.begin_le hn
  obtain ⟨hdvd, hmin⟩ := h.sizes b hb (by omega)
  exact ⟨hnext, (h.begin_le hb).1, hle.2, hdvd, hmin, h.aligned hb⟩

/-- Blocks before a block begin below it, and blocks behind it begin above it. -/
theorem Layout.before (h : Layout g (as ++ b :: ds)) (ha : a ∈ as) : a.begin < b.begin := by
  have hpair := List.pairwise_append.mp h.tiles.pairwise
  have hle := hpair.2.2 a ha b List.mem_cons_self
  have hpos := (h.tiles.mem (List.mem_append_left _ ha)).2.1
  omega

theorem Layout.behind (h : Layout g (as ++ b :: ds)) (ha : a ∈ ds) : b.begin < a.begin := by
  have hpair := List.pairwise_append.mp h.tiles.pairwise
  have hle := (List.pairwise_cons.mp hpair.2.1).1 a ha
  have hpos := (h.tiles.mem (a := b) (by simp)).2.1
  omega

/-- Blocks are exchanged for others on the same addresses. -/
theorem Layout.exchange (mid' : List Block) (h : Layout g (as ++ b :: (mid ++ n :: ds)))
    (htiles : Tiles Block.begin Block.size b.begin n.begin mid')
    (hsizes : ∀ c ∈ mid', g.pageSize ∣ c.size ∧ g.minBlockSize ≤ c.size) :
    Layout g (as ++ (mid' ++ n :: ds)) := by
  refine ⟨h.page_pos, h.page_lt, h.page_even, h.min_eq, h.first_aligned, ?_, ?_, h.fits, ?_⟩
  · obtain ⟨lo, has, hb, -, hrest⟩ := tiles_append.mp h.tiles
    obtain ⟨hi, -, hn⟩ := tiles_append.mp hrest
    have hhi : n.begin = hi := hn.1
    rw [hb, hhi] at htiles
    exact tiles_append.mpr ⟨lo, has, tiles_append.mpr ⟨hi, htiles, hn⟩⟩
  · have hlast := h.last
    have hne : n :: ds ≠ [] := List.cons_ne_nil n ds
    have hold : as ++ b :: (mid ++ n :: ds) = (as ++ b :: mid) ++ n :: ds := by simp
    rw [hold, List.getLast?_append_of_ne_nil _ hne] at hlast
    rw [← List.append_assoc, List.getLast?_append_of_ne_nil _ hne]
    exact hlast
  · intro c hc hlt
    simp only [List.mem_append] at hc
    rcases hc with has | hmid | hback
    · exact h.sizes c (by simp [has]) hlt
    · exact hsizes c hmid
    · exact h.sizes c (by simp_all) hlt

/-! ## The headers -/

/-- The flag of a block whose predecessor is free or not. -/
def flagOf (p : Option Nat) : Nat := if p.isNone then 1 else 0

/-- The header of a block.  If the block before it is free, it says so and tells its size, and the
block itself is used. -/
structure Tag (s : State) (p : Option Nat) (b : Block) : Prop where
  word : s.sizeAndFlag b.begin = b.size + flagOf p
  behind : ∀ size, p = some size → s.prevSize b.begin = size ∧ b.used = true

/-- The headers of the blocks in the list. -/
def Tagged (s : State) : Option Nat → List Block → Prop
  | _, [] => True
  | p, b :: bs => Tag s p b ∧ Tagged s b.gap bs

/-- What the block behind the list is told. -/
def gapBehind (p : Option Nat) : List Block → Option Nat
  | [] => p
  | b :: bs => gapBehind b.gap bs

@[simp]
theorem gapBehind_concat : gapBehind p (as ++ [b]) = b.gap := by
  induction as generalizing p with
  | nil => rfl
  | cons a as ih => exact ih

theorem tagged_append : Tagged s p (as ++ bs) ↔ Tagged s p as ∧ Tagged s (gapBehind p as) bs := by
  induction as generalizing p with
  | nil => simp [Tagged, gapBehind]
  | cons a as ih => simp [Tagged, gapBehind, ih, and_assoc]

theorem Tag.congr (h : Tag s p b) (hword : s'.sizeAndFlag b.begin = s.sizeAndFlag b.begin)
    (hprev : s'.prevSize b.begin = s.prevSize b.begin) : Tag s' p b :=
  ⟨hword.trans h.word, fun size hp => ⟨hprev.trans (h.behind size hp).1, (h.behind size hp).2⟩⟩

theorem Tagged.congr (h : Tagged s p as)
    (hword : ∀ b ∈ as, s'.sizeAndFlag b.begin = s.sizeAndFlag b.begin)
    (hprev : ∀ b ∈ as, s'.prevSize b.begin = s.prevSize b.begin) : Tagged s' p as := by
  induction as generalizing p with
  | nil => trivial
  | cons a as ih =>
    refine ⟨h.1.congr (hword a List.mem_cons_self) (hprev a List.mem_cons_self), ih h.2 ?_ ?_⟩
    · exact fun b hb => hword b (List.mem_cons_of_mem a hb)
    · exact fun b hb => hprev b (List.mem_cons_of_mem a hb)

/-- The begins of the free blocks. -/
def frees (bs : List Block) : List Nat := (bs.filter (! ·.used)).map Block.begin

@[simp]
theorem frees_nil : frees [] = [] := rfl

@[simp]
theorem frees_append : frees (as ++ bs) = frees as ++ frees bs := by
  simp [frees]

@[simp]
theorem frees_cons_used (h : b.used = true) : frees (b :: bs) = frees bs := by
  simp [frees, h]

@[simp]
theorem frees_cons_free (h : b.used = false) : frees (b :: bs) = b.begin :: frees bs := by
  simp [frees, h]

theorem Tagged.exists_tag (h : Tagged s p all) (hb : b ∈ all) : ∃ q, Tag s q b := by
  induction all generalizing p with
  | nil => cases hb
  | cons a all ih =>
    cases hb with
    | head => exact ⟨p, h.1⟩
    | tail _ hb => exact ih h.2 hb

theorem flagOf_le (p : Option Nat) : flagOf p ≤ 1 := by
  cases p <;> simp [flagOf]

theorem Tag.blockSize (h : Tag s p b) (he : 2 ∣ b.size) : blockSize s b.begin = b.size := by
  rw [Heap.blockSize, h.word, flagClear_add he (flagOf_le p)]

theorem Tag.isPrevUsed (h : Tag s p b) (he : 2 ∣ b.size) : isPrevUsed s b.begin = p.isNone := by
  rw [Heap.isPrevUsed, h.word]
  cases p with
  | none =>
    simp only [flagOf, Option.isNone_none, if_true, decide_eq_true_eq]
    omega
  | some size =>
    simp only [flagOf, Option.isNone_some, Bool.false_eq_true, if_false, decide_eq_false_iff_not]
    omega

theorem Inner.blockAt (h : Inner g b n) (hfits : g.lastBlock + blockHeaderSize < 2 ^ 32) :
    blockAt b.begin b.size = n.begin := by
  have hnext := h.next
  have hle := h.next_le
  simp only [blockHeaderSize] at hfits
  rw [Heap.blockAt, add32_of_lt (by omega), hnext]

/-- The last block leads to the first one. -/
theorem Layout.blockAt_last (h : Layout g all) :
    blockAt g.endBlock.begin g.endBlock.size = g.firstBlock := by
  have hle := h.first_le
  have hfits := h.fits
  have hsum : g.lastBlock + (g.firstBlock + 2 ^ 32 - g.lastBlock) = g.firstBlock + 2 ^ 32 := by
    omega
  simp only [blockHeaderSize] at hfits
  rw [Geometry.endBlock, blockAt, add32, hsum, Nat.add_mod_right, Nat.mod_eq_of_lt (by omega)]

theorem Layout.eq_endBlock (h : Layout g (as ++ [n])) : n = g.endBlock := by
  simpa using h.last

theorem Layout.head_begin (h : Layout g (b :: bs)) : b.begin = g.firstBlock := h.tiles.1

/-! ## The free list -/

/-- The free list goes through these blocks in some order. -/
def FreeList (l : Links Pointer) (begins : List Nat) : Prop :=
  ∃ fl : List Nat, fl.Perm begins ∧ l.Ring .freeList (fl.map .block)

variable {l : Links Pointer} {begins begins' : List Nat} {anchor : Pointer}

theorem FreeList.perm (h : FreeList l begins) (hp : begins.Perm begins') : FreeList l begins' := by
  obtain ⟨fl, hfl, hring⟩ := h
  exact ⟨fl, hfl.trans hp, hring⟩

theorem FreeList.nodup (h : FreeList l begins) : begins.Nodup := by
  obtain ⟨fl, hfl, hring⟩ := h
  have hmap := (List.nodup_cons.mp hring.nodup).2
  exact hfl.nodup_iff.mp (List.Nodup.of_map _ hmap)

/-- A member of the free list has its place there. -/
theorem FreeList.exists_split (h : FreeList l (x :: begins)) : ∃ front back : List Nat,
    (front ++ back).Perm begins ∧
      l.Ring .freeList (front.map .block ++ .block x :: back.map .block) := by
  obtain ⟨fl, hfl, hring⟩ := h
  obtain ⟨front, back, rfl⟩ := List.append_of_mem (hfl.mem_iff.mpr List.mem_cons_self)
  refine ⟨front, back, ?_, by simpa using hring⟩
  exact (List.perm_cons x).mp (List.perm_middle.symm.trans hfl)

theorem FreeList.remove (h : FreeList l (x :: begins)) :
    FreeList (l.remove (.block x)) begins := by
  obtain ⟨front, back, hperm, hring⟩ := h.exists_split
  exact ⟨front ++ back, hperm, by simpa using hring.remove⟩

/-- The block before a member is the head or another member. -/
theorem FreeList.prev_mem (h : FreeList l (x :: begins)) :
    l.prev (.block x) ∈ Pointer.freeList :: begins.map .block := by
  obtain ⟨front, back, hperm, hring⟩ := h.exists_split
  rw [hring.prev]
  have hmem := Links.lastOf_mem Pointer.freeList (front.map Pointer.block)
  have hsub : ∀ z ∈ front.map Pointer.block, z ∈ begins.map Pointer.block := by
    intro z hz
    obtain ⟨y, hy, rfl⟩ := List.mem_map.mp hz
    exact List.mem_map_of_mem (hperm.mem_iff.mp (List.mem_append_left _ hy))
  rcases List.mem_cons.mp hmem with hhead | hlast
  · simp [hhead]
  · exact List.mem_cons_of_mem _ (hsub _ hlast)

theorem block_notMem (hx : x ∉ begins) : Pointer.block x ∉ Pointer.freeList :: begins.map .block := by
  simp [hx]

theorem FreeList.replace (h : FreeList l (x :: begins)) (hy : y ∉ begins) :
    FreeList (l.replace (.block x) (.block y)) (y :: begins) := by
  obtain ⟨front, back, hperm, hring⟩ := h.exists_split
  have hout : Pointer.block y ∉ Pointer.freeList :: (front.map .block ++ back.map .block) := by
    have hnot : y ∉ front ++ back := fun hmem => hy (hperm.mem_iff.mp hmem)
    simpa using hnot
  refine ⟨front ++ y :: back, List.perm_middle.trans (hperm.cons y), ?_⟩
  simpa using hring.replace hout

/-- The place in the free list behind an anchor. -/
theorem FreeList.exists_place (h : FreeList l begins)
    (ha : anchor ∈ Pointer.freeList :: begins.map .block) : ∃ front back : List Nat,
      (front ++ back).Perm begins ∧ anchor = Links.lastOf Pointer.freeList (front.map .block) ∧
      l.Ring .freeList (front.map .block ++ back.map .block) := by
  obtain ⟨fl, hfl, hring⟩ := h
  have hplace : ∃ front back : List Nat, fl = front ++ back ∧
      anchor = Links.lastOf Pointer.freeList (front.map .block) := by
    rcases List.mem_cons.mp ha with rfl | hmem
    · exact ⟨[], fl, rfl, rfl⟩
    · obtain ⟨z, hz, rfl⟩ := List.mem_map.mp hmem
      obtain ⟨front, back, rfl⟩ := List.append_of_mem (hfl.mem_iff.mpr hz)
      exact ⟨front ++ [z], back, by simp, by simp⟩
  obtain ⟨front, back, rfl, hanchor⟩ := hplace
  exact ⟨front, back, hfl, hanchor, by simpa using hring⟩

theorem FreeList.insertAfter (h : FreeList l begins)
    (ha : anchor ∈ Pointer.freeList :: begins.map .block) (hy : y ∉ begins) :
    FreeList (l.insertAfter anchor (.block y)) (y :: begins) := by
  obtain ⟨front, back, hfl, rfl, hring⟩ := h.exists_place ha
  have hout : Pointer.block y ∉ Pointer.freeList :: (front.map .block ++ back.map .block) := by
    have hnot : y ∉ front ++ back := fun hmem => hy (hfl.mem_iff.mp hmem)
    simpa using hnot
  refine ⟨front ++ y :: back, List.perm_middle.trans (hfl.cons y), ?_⟩
  simpa using hring.insertAfter hout

/-! ## Well-formed heaps -/

/-- The blocks are laid out and tagged, and the free list goes through the free ones. -/
structure Formed (s : State) (all : List Block) : Prop where
  layout : Layout s.geometry all
  tagged : Tagged s none all
  freeList : FreeList s.links (frees all)

/-- The blocks of a heap before its last one. -/
def WellFormed (s : State) (bs : List Block) : Prop := Formed s (bs ++ [s.geometry.endBlock])

theorem Formed.setStats (h : Formed s all) (f : Statistics → Statistics) :
    Formed (s.setStats f) all :=
  ⟨h.layout, h.tagged.congr (fun _ _ => rfl) (fun _ _ => rfl), h.freeList⟩

theorem Formed.blockSize (h : Formed s all) (hb : b ∈ all) : blockSize s b.begin = b.size := by
  obtain ⟨q, hq⟩ := h.tagged.exists_tag hb
  exact hq.blockSize (h.layout.even hb)

theorem Formed.tag (h : Formed s (as ++ b :: bs)) : Tag s (gapBehind none as) b :=
  (tagged_append.mp h.tagged).2.1

theorem Formed.isPrevUsed (h : Formed s (as ++ b :: bs)) :
    isPrevUsed s b.begin = (gapBehind none as).isNone :=
  h.tag.isPrevUsed (h.layout.even (by simp))

theorem gap_isNone : b.gap.isNone = b.used := by
  rw [Block.gap]
  cases b.used <;> rfl

theorem Formed.isUsed (h : Formed s all) (hb : b ∈ all) : isUsed s b.begin = b.used := by
  rw [Heap.isUsed, h.blockSize hb]
  obtain ⟨as, bs, rfl⟩ := List.append_of_mem hb
  cases bs with
  | nil =>
    rw [h.layout.eq_endBlock, h.layout.blockAt_last]
    have hfirst : ∃ c cs, as ++ [b] = c :: cs := by
      cases as with
      | nil => exact ⟨b, [], rfl⟩
      | cons c cs => exact ⟨c, cs ++ [b], rfl⟩
    obtain ⟨c, cs, hcons⟩ := hfirst
    rw [hcons] at h
    rw [← h.layout.head_begin]
    have hcut : Formed s ([] ++ c :: cs) := h
    exact hcut.isPrevUsed
  | cons n ds =>
    rw [h.layout.inner.blockAt h.layout.fits]
    have hsplit : as ++ b :: n :: ds = (as ++ [b]) ++ n :: ds := by simp
    rw [hsplit] at h
    rw [h.isPrevUsed, gapBehind_concat, gap_isNone]

end Rtems.Heap
