import Rtems.Heap.Allocate
import Rtems.Heap.Initialize

/-!
# Release

A used block that comes back joins the free blocks beside it.  There is one
description for the four cases: a free block of `z` bytes before the block and
one of `r` bytes behind it, where no bytes are no block.
-/

namespace Rtems.Heap

open Lib List

variable {s s' : State} {as bs ds all mid : List Block} {b c n : Block} {g : Geometry}
  {w x y z r p size total : Nat}

/-! ## The header of the joined block -/

/-- The blocks from `c` up to `n` are one free block now. -/
theorem Formed.joined (h : Formed s (as ++ c :: (mid ++ n :: ds))) (hgap : gapBehind none as = none)
    (hn : n.used = true) (hlt : c.begin < n.begin) (hin : n.begin ≤ s.lastBlock)
    (hgeom : s'.geometry = s.geometry) (hsame : SameOutside s s' c.begin n.begin)
    (hword : s'.sizeAndFlag c.begin = n.begin - c.begin + 1)
    (hnext : s'.sizeAndFlag n.begin = n.size) (hprev : s'.prevSize n.begin = n.begin - c.begin)
    (hfree : FreeList s'.links (c.begin :: (frees as ++ frees ds))) :
    Formed s' (as ++ ⟨c.begin, n.begin - c.begin, false⟩ :: n :: ds) := by
  have hn' : n ∈ as ++ c :: (mid ++ n :: ds) := by simp
  have hc : c ∈ as ++ c :: (mid ++ n :: ds) := by simp
  have hlastGeom : s.geometry.lastBlock = s.lastBlock := rfl
  obtain ⟨has, -, hrest⟩ := tagged_append.mp h.tagged
  have hds := (tagged_append.mp hrest).2.2
  have hbehind : Layout s.geometry ((as ++ c :: mid) ++ n :: ds) := by
    simpa using h.layout
  refine ⟨?_, ?_, ?_⟩
  · rw [hgeom]
    have hmin := h.layout.sizes c hc (by omega)
    have hcEnd : c.begin + c.size ≤ n.begin := by
      have hpair := (List.pairwise_append.mp h.layout.tiles.pairwise).2.1
      exact (List.pairwise_cons.mp hpair).1 n (by simp)
    have hdvd := Nat.dvd_sub (h.layout.aligned hn') (h.layout.aligned hc)
    have hdiff : n.begin + blockHeaderSize - (c.begin + blockHeaderSize) = n.begin - c.begin := by
      omega
    rw [hdiff] at hdvd
    have hpos : 0 < n.begin - c.begin := by omega
    have hend : c.begin + (n.begin - c.begin) = n.begin := by omega
    have hminSize : s.geometry.minBlockSize ≤ n.begin - c.begin := by omega
    have hexchange := h.layout.exchange [⟨c.begin, n.begin - c.begin, false⟩]
      ⟨rfl, hpos, hend⟩ (by simpa using ⟨hdvd, hminSize⟩)
    simpa using hexchange
  · refine tagged_append.mpr ⟨has.before h.layout hsame, ⟨?_, ?_⟩, ⟨?_, ?_⟩, hds.after hbehind hsame⟩
    · rw [hgap]
      exact hword
    · intro m hm
      rw [hgap] at hm
      cases hm
    · exact hnext
    · intro m hm
      cases hm
      exact ⟨hprev, hn⟩
  · refine hfree.perm ?_
    simp [frees_cons_used hn, List.perm_middle.symm]

/-! ## The block that comes back -/

theorem isBlockInHeap_eq (h : Layout s.geometry all) (hb : b ∈ all) :
    isBlockInHeap s b.begin = true := by
  have hle := h.begin_le hb
  exact decide_eq_true hle

/-- What the headers say about the free block before a block, if there is one. -/
structure BeforeIt (s : State) (w z : Nat) : Prop where
  flag : isPrevUsed s (w + z) = decide (z = 0)
  size : z ≠ 0 → s.prevSize (w + z) = z
  block : z ≠ 0 → blockAt (w + z) (sub32 0 z) = w
  inHeap : z ≠ 0 → isBlockInHeap s w = true
  used : z ≠ 0 → isPrevUsed s w = true
  even : 2 ∣ z

theorem Formed.beforeIt (h : Formed s (as ++ (remnant w z ++ ⟨w + z, size, true⟩ :: ds)))
    (hgap : gapBehind none as = none) : BeforeIt s w z := by
  rcases Nat.eq_zero_or_pos z with rfl | hpos
  · have hflag := Formed.isPrevUsed h
    rw [hgap] at hflag
    exact ⟨by simpa using hflag, by simp, by simp, by simp, by simp, Nat.dvd_zero 2⟩
  · rw [remnant_pos hpos.ne'] at h
    have hw : (⟨w, z, false⟩ : Block) ∈ as ++ ([⟨w, z, false⟩] ++ ⟨w + z, size, true⟩ :: ds) := by
      simp
    have hsplit : Formed s ((as ++ [⟨w, z, false⟩]) ++ ⟨w + z, size, true⟩ :: ds) := by
      simpa using h
    have hle := h.layout.begin_le (b := ⟨w + z, size, true⟩) (by simp)
    have hfits := h.layout.fits
    simp only at hle
    have hflag := hsplit.isPrevUsed
    have hfirst := Formed.isPrevUsed h
    rw [gapBehind_concat] at hflag
    rw [hgap] at hfirst
    refine ⟨?_, ?_, ?_, ?_, ?_, h.layout.even hw⟩
    · simpa [hpos.ne'] using hflag
    · intro _
      exact (hsplit.tag.behind z (by simp)).1
    · intro _
      simp only [blockAt, add32, sub32]
      omega
    · exact fun _ => isBlockInHeap_eq h.layout hw
    · exact fun _ => hfirst

/-- What the headers say about the free block behind a block, if there is one. -/
structure BehindIt (s : State) (y r : Nat) (n : Block) : Prop where
  inHeap : isBlockInHeap s y = true
  used : isPrevUsed s y = true
  free : (y ≠ s.lastBlock ∧ (! isPrevUsed s (blockAt y (blockSize s y))) = true) ↔ r ≠ 0
  size : r ≠ 0 → blockSize s y = r
  last : y + r = n.begin
  word : s.sizeAndFlag n.begin = n.size + if r = 0 then 1 else 0
  even : 2 ∣ r

theorem Formed.behindIt (h : Formed s (as ++ ⟨x, size, true⟩ :: (remnant (x + size) r ++ n :: ds)))
    (hn : n.used = true) : BehindIt s (x + size) r n := by
  rcases Nat.eq_zero_or_pos r with rfl | hpos
  · have hnext : x + size = n.begin := h.layout.inner.next
    have hmem : n ∈ as ++ ⟨x, size, true⟩ :: (remnant (x + size) 0 ++ n :: ds) := by simp
    have hsplit : Formed s ((as ++ [⟨x, size, true⟩]) ++ n :: ds) := by simpa using h
    have hflag := hsplit.isPrevUsed
    have hword := hsplit.tag.word
    rw [gapBehind_concat] at hflag hword
    have hused := h.isUsed hmem
    rw [Heap.isUsed, hn] at hused
    rw [hnext]
    refine ⟨isBlockInHeap_eq h.layout hmem, hflag, ?_, by simp, Nat.add_zero _, hword,
      Nat.dvd_zero 2⟩
    simp [hused]
  · rw [remnant_pos hpos.ne'] at h
    have hy : (⟨x + size, r, false⟩ : Block) ∈
        as ++ ⟨x, size, true⟩ :: ([⟨x + size, r, false⟩] ++ n :: ds) := by simp
    have hsplit : Formed s ((as ++ [⟨x, size, true⟩]) ++ ⟨x + size, r, false⟩ :: n :: ds) := by
      simpa using h
    have hsplit' : Formed s ((as ++ [⟨x, size, true⟩, ⟨x + size, r, false⟩]) ++ n :: ds) := by
      simpa using h
    have hinner := hsplit.layout.inner
    have hflag := hsplit.isPrevUsed
    rw [gapBehind_concat] at hflag
    have hused := h.isUsed hy
    rw [Heap.isUsed] at hused
    have hword := hsplit'.tag.word
    have hbehind : gapBehind none (as ++ [⟨x, size, true⟩, ⟨x + size, r, false⟩]) = some r := by
      have hlist : as ++ [⟨x, size, true⟩, ⟨x + size, r, false⟩] =
          (as ++ [⟨x, size, true⟩]) ++ [⟨x + size, r, false⟩] := by simp
      rw [hlist, gapBehind_concat]
      rfl
    rw [hbehind] at hword
    have hlast : x + size ≠ s.lastBlock := by
      have hle : n.begin ≤ s.lastBlock := hinner.next_le
      have hnext : x + size + r = n.begin := hinner.next
      omega
    refine ⟨isBlockInHeap_eq h.layout hy, hflag, ?_, fun _ => h.blockSize hy, hinner.next, ?_,
      h.layout.even hy⟩
    · simp only at hused
      simp [hused, hlast, hpos.ne']
    · simpa [hpos.ne', flagOf] using hword

/-! ## The free neighbors -/

/-- A used block with what is free behind it. -/
theorem Formed.exists_behind (h : Formed s all) (hb : b ∈ all) (hne : b ≠ s.geometry.endBlock) :
    ∃ as r n ds, all = as ++ b :: (remnant (b.begin + b.size) r ++ n :: ds) ∧ n.used = true := by
  obtain ⟨as, bs, rfl⟩ := List.append_of_mem hb
  cases bs with
  | nil => exact absurd h.layout.eq_endBlock hne
  | cons n ds =>
    cases hn : n.used with
    | true => exact ⟨as, 0, n, ds, rfl, hn⟩
    | false =>
      have hsplit : Formed s ((as ++ [b]) ++ n :: ds) := by simpa using h
      obtain ⟨y, r, used⟩ := n
      simp only at hn
      subst hn
      have hlayout : Layout s.geometry (as ++ b :: ⟨y, r, false⟩ :: ds) := h.layout
      have hpos : 0 < r := (hlayout.tiles.mem (a := ⟨y, r, false⟩) (by simp)).2.1
      have hnext : b.begin + b.size = y := hlayout.inner.next
      cases ds with
      | nil =>
        have hend := hsplit.layout.eq_endBlock
        exact absurd (congrArg Block.used hend) Bool.false_ne_true
      | cons m es =>
        refine ⟨as, r, m, es, ?_, hsplit.around_free.2⟩
        rw [remnant_pos hpos.ne', hnext]
        rfl

/-- What is free before a block. -/
theorem Formed.exists_before (h : Formed s (as ++ b :: ds)) :
    ∃ as' w z, as = as' ++ remnant w z ∧ w + z = b.begin ∧ gapBehind none as' = none := by
  cases as using List.reverseRecOn with
  | nil => exact ⟨[], b.begin, 0, rfl, rfl, rfl⟩
  | append_singleton as c =>
    have hsplit : Formed s (as ++ c :: b :: ds) := by simpa using h
    have hnext := hsplit.layout.inner.next
    have hpos := (hsplit.layout.tiles.mem (a := c) (by simp)).2.1
    obtain ⟨w, z, used⟩ := c
    cases used with
    | true => exact ⟨as ++ [⟨w, z, true⟩], b.begin, 0, by simp, rfl, by simp⟩
    | false =>
      refine ⟨as, w, z, ?_, hnext, hsplit.around_free.1⟩
      rw [remnant_pos hpos.ne']

/-! ## Release -/

/-- The headers and the free list after the release. -/
structure Rejoined (s s' : State) (w total z r y : Nat) (n : Block) : Prop where
  geometry : s'.geometry = s.geometry
  same : SameOutside s s' w n.begin
  word : s'.sizeAndFlag w = total + 1
  next : s'.sizeAndFlag n.begin = n.size
  prev : s'.prevSize n.begin = total
  links : s'.links =
    if r = 0 then if z = 0 then s.links.insertAfter .freeList (.block w) else s.links
    else if z = 0 then s.links.replace (.block y) (.block w) else s.links.remove (.block y)

theorem Formed.free_eq (h : Formed s (as ++ (remnant w z ++ ⟨w + z, size, true⟩ ::
      (remnant (w + z + size) r ++ n :: ds)))) (hgap : gapBehind none as = none)
    (hn : n.used = true) (hp : p ≠ 0) (hblock : blockOfAllocArea p s.pageSize = w + z) :
    ∃ s', Heap.free s p = (s', true) ∧ Rejoined s s' w (z + size + r) z r (w + z + size) n ∧
      s'.stats = s.stats.giveBack z size r ∧ ∀ y, y ≠ n.begin → s'.prevSize y = s.prevSize y := by
  have hbefore := h.beforeIt hgap
  have hsplit : Formed s ((as ++ remnant w z) ++ ⟨w + z, size, true⟩ ::
      (remnant (w + z + size) r ++ n :: ds)) := by simpa using h
  have hbehind := hsplit.behindIt hn
  have hmem : (⟨w + z, size, true⟩ : Block) ∈ as ++ (remnant w z ++ ⟨w + z, size, true⟩ ::
      (remnant (w + z + size) r ++ n :: ds)) := by simp
  have hnmem : n ∈ as ++ (remnant w z ++ ⟨w + z, size, true⟩ ::
      (remnant (w + z + size) r ++ n :: ds)) := by simp
  have hin : isBlockInHeap s (w + z) = true := isBlockInHeap_eq h.layout hmem
  have hsize : Heap.blockSize s (w + z) = size := h.blockSize hmem
  have hpos := (h.layout.tiles.mem hmem).2.1
  have hfits := h.layout.fits
  have hle := (h.layout.begin_le hnmem).2
  have hlast := hbehind.last
  have hsizeEven : 2 ∣ size := h.layout.even hmem
  have hnEven : 2 ∣ n.size := h.layout.even hnmem
  have hzEven := hbefore.even
  have hrEven := hbehind.even
  have hflag := hbefore.flag
  simp only at hpos
  have hnext : blockAt (w + z) size = w + z + size := add32_of_lt (by omega)
  simp only [Heap.free, hp, hblock, hin, hsize, hnext, hbehind.inHeap, hbehind.used, hbehind.free,
    if_false, Bool.not_true, Bool.false_eq_true, hflag]
  have hnw : n.begin ≠ w := by omega
  have hxw : w + z + size ≠ w := by omega
  have htotal : flagSet (z + size + r) = z + size + r + 1 :=
    flagSet_even ((hzEven.add hsizeEven).add hrEven)
  have hwordEq := hbehind.word
  have hxn : w + z + size ≤ n.begin := by omega
  rcases Nat.eq_zero_or_pos z with rfl | hz
  · simp only [decide_true, Bool.not_true, Bool.false_eq_true, if_false, Nat.add_zero, Nat.zero_add]
      at *
    rcases Nat.eq_zero_or_pos r with rfl | hr
    · -- no neighbor is free
      simp only [Nat.add_zero, ne_eq, not_true, if_false, if_true] at *
      refine ⟨_, rfl, ⟨rfl, ?_, ?_, ?_, ?_, ?_⟩, ?_, ?_⟩
      · intro y hy
        have hyw : y ≠ w := by omega
        have hyn : y ≠ n.begin := by omega
        simp [hlast, hyw, hyn]
      · simp [htotal, hlast, Function.update_of_ne (Ne.symm hnw)]
      · simp [hlast, hnw, hwordEq, flagClear_add hnEven]
      · simp [hlast]
      · simp
      · simp [Statistics.giveBack]
      · intro y hy
        simp [hlast, hy]
    · -- the block joins the one behind it
      have hsum : add32 size r = size + r := add32_of_lt (by omega)
      have hend : blockAt w (size + r) = n.begin := by
        rw [blockAt, add32_of_lt (by omega)]
        omega
      simp only [hr.ne', hbehind.size hr.ne', hsum, hend, htotal, ne_eq, not_false_iff, if_true,
        if_false, Nat.add_zero] at *
      refine ⟨_, rfl, ⟨rfl, ?_, ?_, ?_, ?_, ?_⟩, ?_, ?_⟩
      · intro y hy
        have hyw : y ≠ w := by omega
        have hyn : y ≠ n.begin := by omega
        simp [hyw, hyn]
      · simp
      · simp [hnw, hwordEq]
      · simp
      · simp [hr.ne']
      · simp [Statistics.giveBack, hr.ne']
      · intro y hy
        simp [hy]
  · have hprev := hbefore.size hz.ne'
    simp only [hz.ne', hprev, hbefore.block hz.ne', hbefore.inHeap hz.ne', hbefore.used hz.ne',
      decide_false, Bool.not_false, Bool.not_true, Bool.false_eq_true, if_true, if_false]
    have hsum : add32 size z = z + size := by
      rw [add32_of_lt (by omega), Nat.add_comm]
    rcases Nat.eq_zero_or_pos r with rfl | hr
    · -- the block joins the one before it
      simp only [hsum, Nat.add_zero, ne_eq, not_true, if_false, if_true] at *
      refine ⟨_, rfl, ⟨rfl, ?_, ?_, ?_, ?_, ?_⟩, ?_, ?_⟩
      · intro y hy
        have hyw : y ≠ w := by omega
        have hyn : y ≠ n.begin := by omega
        simp [hlast, hyw, hyn]
      · simp [htotal, hlast, Function.update_of_ne (Ne.symm hnw)]
      · simp [hlast, hnw, hwordEq, flagClear_add hnEven]
      · simp [hlast]
      · simp [hz.ne']
      · simp [Statistics.giveBack, hz.ne']
      · intro y hy
        simp [hlast, hy]
    · -- the block joins both
      have hsum' : add32 (z + size) r = z + size + r := add32_of_lt (by omega)
      have hend : blockAt w (z + size + r) = n.begin := by
        rw [blockAt, add32_of_lt (by omega)]
        omega
      simp only [hr.ne', hbehind.size hr.ne', hsum, hsum', hend, htotal, ne_eq, not_false_iff,
        if_true, if_false, Nat.add_zero] at *
      refine ⟨_, rfl, ⟨rfl, ?_, ?_, ?_, ?_, ?_⟩, ?_, ?_⟩
      · intro y hy
        have hyw : y ≠ w := by omega
        have hyn : y ≠ n.begin := by omega
        simp [hyw, hyn]
      · simp
      · simp [hnw, hwordEq]
      · simp
      · simp [hr.ne', hz.ne']
      · simp [Statistics.giveBack, hr.ne', hz.ne']
      · intro y hy
        simp [hy]

/-- The free list after the release. -/
theorem Formed.freeList_joined (h : Formed s (as ++ (remnant w z ++ ⟨w + z, size, true⟩ ::
      (remnant (w + z + size) r ++ n :: ds)))) (hn : n.used = true)
    (hlinks : s'.links =
      if r = 0 then if z = 0 then s.links.insertAfter .freeList (.block w) else s.links
      else if z = 0 then s.links.replace (.block (w + z + size)) (.block w)
        else s.links.remove (.block (w + z + size))) :
    FreeList s'.links (w :: (frees as ++ frees ds)) := by
  have hfree := h.freeList
  have hmem : (⟨w + z, size, true⟩ : Block) ∈ as ++ (remnant w z ++ ⟨w + z, size, true⟩ ::
      (remnant (w + z + size) r ++ n :: ds)) := by simp
  have hpos := (h.layout.tiles.mem hmem).2.1
  rw [hlinks]
  rcases Nat.eq_zero_or_pos z with rfl | hz
  · have hout : w ∉ frees as ++ frees ds := by
      have hlayout : Layout s.geometry (as ++ ⟨w, size, true⟩ :: (remnant (w + size) r ++ n :: ds)) :=
        h.layout
      intro hw
      rcases List.mem_append.mp hw with hmem | hmem
      · obtain ⟨a, ha, -, rfl⟩ := mem_frees.mp hmem
        exact absurd (hlayout.before ha) (Nat.lt_irrefl _)
      · obtain ⟨a, ha, -, rfl⟩ := mem_frees.mp hmem
        exact absurd (hlayout.behind (a := a) (by simp [ha])) (Nat.lt_irrefl _)
    rcases Nat.eq_zero_or_pos r with rfl | hr
    · simp only [if_true]
      apply FreeList.insertAfter _ List.mem_cons_self hout
      simpa [frees_cons_used hn] using hfree
    · simp only [hr.ne', if_false, if_true]
      apply FreeList.replace _ hout
      refine hfree.perm ?_
      simp [remnant_pos hr.ne', frees_cons_used hn]
  · rcases Nat.eq_zero_or_pos r with rfl | hr
    · simp only [hz.ne', if_true, if_false]
      refine hfree.perm ?_
      simp [remnant_pos hz.ne', frees_cons_used hn]
    · simp only [hr.ne', hz.ne', if_false]
      apply FreeList.remove
      refine hfree.perm ?_
      have hsplit : frees (as ++ (remnant w z ++ ⟨w + z, size, true⟩ ::
          (remnant (w + z + size) r ++ n :: ds))) = frees as ++ w :: (w + z + size) :: frees ds := by
        simp [remnant_pos hz.ne', remnant_pos hr.ne', frees_cons_used hn]
      rw [hsplit]
      calc
        frees as ++ w :: (w + z + size) :: frees ds
        _ ~ w :: (frees as ++ (w + z + size) :: frees ds) := List.perm_middle
        _ ~ w :: (w + z + size) :: (frees as ++ frees ds) := List.perm_middle.cons w
        _ ~ (w + z + size) :: w :: (frees as ++ frees ds) := List.Perm.swap _ _ _

/-- `_Heap_Free` of the area of a block. -/
theorem Formed.free (h : Formed s (as ++ (remnant w z ++ ⟨w + z, size, true⟩ ::
      (remnant (w + z + size) r ++ n :: ds)))) (hgap : gapBehind none as = none)
    (hn : n.used = true) (hp : p ≠ 0) (hblock : blockOfAllocArea p s.pageSize = w + z) :
    ∃ s', Heap.free s p = (s', true) ∧ Formed s' (as ++ ⟨w, z + size + r, false⟩ :: n :: ds) ∧
      s'.geometry = s.geometry ∧ s'.stats = s.stats.giveBack z size r ∧
      ∀ y, y ≠ n.begin → s'.prevSize y = s.prevSize y := by
  obtain ⟨s', heq, hjoined, hstats, hprevs⟩ := h.free_eq hgap hn hp hblock
  have hmem : (⟨w + z, size, true⟩ : Block) ∈ as ++ (remnant w z ++ ⟨w + z, size, true⟩ ::
      (remnant (w + z + size) r ++ n :: ds)) := by simp
  have hnmem : n ∈ as ++ (remnant w z ++ ⟨w + z, size, true⟩ ::
      (remnant (w + z + size) r ++ n :: ds)) := by simp
  have hpos := (h.layout.tiles.mem hmem).2.1
  have hle : n.begin ≤ s.lastBlock := (h.layout.begin_le hnmem).2
  have hsplit : Formed s ((as ++ remnant w z) ++ ⟨w + z, size, true⟩ ::
      (remnant (w + z + size) r ++ n :: ds)) := by simpa using h
  have hlast := (hsplit.behindIt hn).last
  simp only at hpos
  have hfree := h.freeList_joined hn hjoined.links
  have htotal : n.begin - w = z + size + r := by omega
  have hlt : w < n.begin := by omega
  refine ⟨s', heq, ?_, hjoined.geometry, hstats, hprevs⟩
  have hword : s'.sizeAndFlag w = n.begin - w + 1 := by rw [htotal, hjoined.word]
  have hprev : s'.prevSize n.begin = n.begin - w := by rw [htotal, hjoined.prev]
  rw [← htotal]
  rcases Nat.eq_zero_or_pos z with rfl | hz
  · exact Formed.joined (c := ⟨w, size, true⟩) h hgap hn hlt hle hjoined.geometry hjoined.same hword
      hjoined.next hprev hfree
  · have hfront : Formed s (as ++ ⟨w, z, false⟩ :: ((⟨w + z, size, true⟩ ::
        remnant (w + z + size) r) ++ n :: ds)) := by
      simpa [remnant_pos hz.ne'] using h
    exact hfront.joined hgap hn hlt hle hjoined.geometry hjoined.same hword hjoined.next hprev hfree

/-! ## Release after allocation -/

/-- What an allocation takes comes back. -/
theorem giveBack_takeBlock (stats : Statistics) {u : Nat} (hsum : z + u + r = size) :
    let stats' := ((((stats.takeBlock size).leave z).leave r).updateMinFreeSize).giveBack z u r
    stats'.counts.freeBlocks = stats.freeBlocks ∧ stats'.counts.freeSize = stats.freeSize := by
  have hofNat : BitVec.ofNat 32 size = BitVec.ofNat 32 z + BitVec.ofNat 32 u + BitVec.ofNat 32 r := by
    rw [← hsum, BitVec.ofNat_add, BitVec.ofNat_add]
  have hblocks : stats.counts.freeBlocks = stats.freeBlocks := rfl
  have hsize : stats.counts.freeSize = stats.freeSize := rfl
  simp only [Statistics.counts_giveBack, Statistics.counts_updateMinFreeSize,
    Statistics.counts_leave, Statistics.counts_takeBlock, hofNat, hblocks, hsize]
  constructor
  · abel
  · abel

/-- An area that is freed immediately leaves the blocks, the free blocks and their statistics as
they were before its allocation. -/
theorem free_allocate {s s' : State} {bs : List Block} {fuel allocSize alignment boundary p : Nat}
    (h : WellFormed s bs)
    (heq : allocateAlignedWithBoundary fuel s allocSize alignment boundary = some (s', p))
    (hp : p ≠ 0) :
    ∃ s'', free s' p = (s'', true) ∧ WellFormed s'' bs ∧ s''.geometry = s.geometry ∧
      s''.stats.freeBlocks = s.stats.freeBlocks ∧ s''.stats.freeSize = s.stats.freeSize := by
  rcases h.allocateAligned heq with ⟨hzero, -⟩ | ⟨-, as, x, size, n, ds, hall, hserved⟩
  · exact absurd hzero hp
  · rw [WellFormed, hall] at h
    obtain ⟨f, rfl, hcounts⟩ := hserved.result
    have hplaced := hserved.fitting.placed
    generalize front s.geometry x p = z at hplaced
    obtain ⟨s₁, heq₁, hformed, hstats, hgeom, hu, -⟩ := h.blockAllocate hplaced
    generalize cutSize s.geometry (size - z) (splitRequest x z p allocSize) = u at *
    rw [heq₁]
    obtain ⟨hgap, hn⟩ := h.around_free
    have hpage : s₁.pageSize = s.pageSize := congrArg Geometry.pageSize hgeom
    have hbound : x + z + blockHeaderSize < 2 ^ 32 := by
      have hfits := h.layout.fits
      obtain ⟨hnext, -, hle, -⟩ := h.layout.inner
      have hfront := hplaced.front
      simp only at hnext
      omega
    have hblock : blockOfAllocArea p s₁.pageSize = x + z := by
      rw [hpage]
      exact blockOfAllocArea_eq hplaced.block hbound
    have hsum : z + u + (size - z - u) = size := by
      have hfront := hplaced.front
      omega
    obtain ⟨s'', hfree, hformed', hgeom', hstats', -⟩ := (hformed.setStats f).free hgap hn hp hblock
    have hgeomAll : s''.geometry = s.geometry := hgeom'.trans hgeom
    obtain ⟨hblocks, hsize⟩ := giveBack_takeBlock s.stats hsum
    have hcounted : s''.stats.counts.freeBlocks = s.stats.freeBlocks ∧
        s''.stats.counts.freeSize = s.stats.freeSize := by
      simp only [Statistics.counts_giveBack] at hblocks hsize
      simp only [hstats', Statistics.counts_giveBack, stats_setStats, hcounts, hstats]
      exact ⟨hblocks, hsize⟩
    rw [hsum] at hformed'
    refine ⟨s'', hfree, ?_, hgeomAll, hcounted⟩
    rw [WellFormed, hgeomAll, hall]
    exact hformed'

theorem free_allocate_twenty : ∃ s' s'', allocateAlignedWithBoundary 2 small 20 16 0 = some (s', 1168) ∧
    free s' 1168 = (s'', true) ∧ WellFormed s'' [⟨1000, 192, false⟩] := by
  have hrun : (allocateAlignedWithBoundary 2 small 20 16 0).map (·.2) = some 1168 := by decide
  obtain ⟨⟨s', p⟩, heq, rfl⟩ := Option.map_eq_some_iff.mp hrun
  obtain ⟨s'', hfree, hformed, -⟩ := free_allocate small_wellFormed heq (by decide)
  exact ⟨s', s'', heq, hfree, hformed⟩

end Rtems.Heap
