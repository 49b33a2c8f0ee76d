import Rtems.Objects.ActiveCount

/-!
# Shrinking a class

`_Objects_Free` shrinks the class when more than one and a half times the
allocation size are inactive.  The scan of `_Objects_Shrink_information` ends
one block early, because `maximum - minimum_index` is one less than the number
of objects: it takes the first block before the last one whose objects are all
inactive, and it never looks at the last block.
-/

namespace Rtems.Objects

variable {s s' : Information} {o : Obj} {b c : Nat}

/-! ## The first block that is found -/

theorem search_first {q : Nat → Bool} {n start r : Nat} (h : search q n start = some r) :
    ∀ c, start ≤ c → c < r → q c = false := by
  induction n generalizing start with
  | zero => cases h
  | succ n ih =>
    simp only [search] at h
    split at h
    next =>
      obtain rfl := Option.some.inj h
      intro c hc hlt
      omega
    next hq =>
      intro c hc hlt
      rcases Nat.eq_or_lt_of_le hc with rfl | hgt
      · exact Bool.eq_false_iff.mpr hq
      · exact ih h c hgt hlt

theorem search_none {q : Nat → Bool} {n start : Nat} (h : search q n start = none) :
    ∀ c, start ≤ c → c < start + n → q c = false := by
  induction n generalizing start with
  | zero =>
    intro c hc hlt
    omega
  | succ n ih =>
    simp only [search] at h
    split at h
    next => cases h
    next hq =>
      intro c hc hlt
      rcases Nat.eq_or_lt_of_le hc with rfl | hgt
      · exact Bool.eq_false_iff.mpr hq
      · exact ih h c hgt (by omega)

/-! ## Full blocks -/

/-- All the objects of an allocated block are inactive. -/
structure Full (s : Information) (b : Nat) : Prop where
  lt : b < s.blockCount
  allocated : s.block b ≠ none
  inactive : ∀ o, s.Live o → s.blockOf o = b → s.status o = .inactive

theorem Inv.perBlock_eq (h : Inv s) (hb : b < s.blockCount) :
    s.inactivePerBlock b = (s.inactiveChain.filter fun o => s.blockOf o = b).length := by
  rw [h.perBlock b hb, List.count, List.countP_map, List.countP_eq_length_filter]
  rfl

/-- The counter of a block is the allocation size if and only if the block is full. -/
theorem Inv.full_iff (h : Inv s) (hb : b < s.blockCount) :
    s.inactivePerBlock b = s.allocationSize ↔ Full s b := by
  constructor
  · intro hf
    refine ⟨hb, fun hnone => ?_, fun o => h.all_inactive hb hf⟩
    -- The chain has an object of the block, and this object is live.
    have hlen := h.perBlock_eq hb
    rw [hf] at hlen
    have hpos := h.size
    obtain ⟨o, ho⟩ := List.exists_mem_of_length_pos (by rw [← hlen]; exact hpos)
    obtain ⟨hmem, hbo⟩ := List.mem_filter.mp ho
    obtain ⟨_, hp, _⟩ := h.live_iff.mp ((h.mem o).mp hmem).1
    rw [of_decide_eq_true hbo, hnone] at hp
    cases hp
  · intro hf
    obtain ⟨p, hp⟩ := Option.ne_none_iff_exists'.mp hf.allocated
    have hperm : (s.inactiveChain.filter fun o => s.blockOf o = b).Perm (blockObjects s b) := by
      refine (List.perm_ext_iff_of_nodup (h.nodup.filter _) ?_).mpr fun o => ?_
      · unfold blockObjects
        rw [hp]
        exact List.nodup_range.map fun i j hij => (Obj.mk.inj hij).2
      · rw [List.mem_filter, h.mem o, mem_blockObjects, decide_eq_true_eq]
        constructor
        · rintro ⟨⟨hl, _⟩, hbo⟩
          obtain ⟨_, hp, hi⟩ := h.live_iff.mp hl
          exact ⟨hbo ▸ hp, hi⟩
        · rintro ⟨hp, hi⟩
          have hl : s.Live o := ⟨b, hb, hp, hi⟩
          have hbo := h.blockOf_eq hb hp hi
          exact ⟨⟨hl, hf.inactive o hl hbo⟩, hbo⟩
    rw [h.perBlock_eq hb, hperm.length_eq]
    simp [blockObjects, hp]

/-! ## What a shrink does -/

/-- What `_Objects_Shrink_information` gives to `_Workspace_Free`. -/
def shrinkFrees (s : Information) : List Nat :=
  match search (fun b => s.inactivePerBlock b = s.allocationSize)
      ((s.maximum - getIndex s.minimumId) / s.allocationSize) 0 with
  | some block => (s.block block).toList
  | none => []

/-- What `_Objects_Free` gives to `_Workspace_Free`. -/
def freeFrees (s : Information) (o : Obj) : List Nat :=
  let s := putInactive s o
  if s.inactive > s.allocationSize + s.allocationSize / 2 then shrinkFrees s else []

/-- One block is released: its objects leave the `Inactive` chain, its memory goes back to the
workspace, the count of inactive objects goes down by the allocation size, and nothing happens to
the other blocks and the objects in use. -/
structure Released (s s' : Information) (freed : List Nat) (b : Nat) : Prop where
  memory : freed = (s.block b).toList
  block : ∀ c, s'.block c = if c = b then none else s.block c
  chain : s'.inactiveChain = s.inactiveChain.filter fun o => s.blockOf o ≠ b
  inactive : s'.inactive + s.allocationSize = s.inactive
  localTable : s'.localTable = s.localTable
  keeps : ∀ o, s.status o ≠ .inactive →
    s'.Live o ∧ s'.status o = s.status o ∧ s'.ids o = s.ids o

theorem Inv.released (h : Inv s) (hh : Held s) (hf : Full s b) :
    Released s (Objects.release s b) (s.block b).toList b where
  memory := rfl
  block := release_block
  chain := by
    rw [h.release_chain]
    refine List.filter_congr fun o _ => ?_
    simp
  inactive := by
    change s.inactive - s.allocationSize + s.allocationSize = s.inactive
    have hlen := h.perBlock_eq hf.lt
    rw [(h.full_iff hf.lt).mpr hf] at hlen
    have hle := List.length_filter_le (fun o => decide (s.blockOf o = b)) s.inactiveChain
    rw [← hlen, ← h.inactive] at hle
    exact Nat.sub_add_cancel hle
  localTable := rfl
  keeps o ho := by
    refine ⟨h.release_live.mpr ⟨hh o ho, fun hbo => ?_⟩, rfl, rfl⟩
    exact ho (hf.inactive o (hh o ho) hbo)

/-- The scan covers all blocks but the last one. -/
theorem Inv.scan (h : Inv s) :
    (s.maximum - getIndex s.minimumId) / s.allocationSize = s.blockCount - 1 := by
  rw [getIndex_minimumId, h.maximum]
  cases s.blockCount with
  | zero => simp
  | succ n =>
    have hsize := h.size
    have hsplit : (n + 1) * s.allocationSize - 1 = s.allocationSize * n + (s.allocationSize - 1) := by
      rw [Nat.succ_mul, Nat.mul_comm n]
      omega
    rw [hsplit, Nat.mul_add_div hsize, Nat.div_eq_of_lt (by omega), Nat.add_zero,
      Nat.add_sub_cancel]

/-- A shrink releases the first full block before the last block, if there is one. -/
theorem Inv.shrink_spec (h : Inv s) :
    (∃ b, b + 1 < s.blockCount ∧ Full s b ∧ (∀ c < b, ¬ Full s c) ∧
      shrinkInformation s = Objects.release s b ∧ shrinkFrees s = (s.block b).toList) ∨
    ((∀ b, b + 1 < s.blockCount → ¬ Full s b) ∧ shrinkInformation s = s ∧ shrinkFrees s = []) := by
  have hscan := h.scan
  unfold shrinkInformation shrinkFrees
  simp only [getIndex_minimumId] at hscan ⊢
  rw [hscan]
  cases hs : search (fun b => s.inactivePerBlock b = s.allocationSize) (s.blockCount - 1) 0 with
  | some b =>
    obtain ⟨_, hb, hq⟩ := search_some hs
    have hlt : b < s.blockCount := by omega
    refine .inl ⟨b, by omega, (h.full_iff hlt).mp (of_decide_eq_true hq), fun c hc hf => ?_, rfl, rfl⟩
    have hno := of_decide_eq_false (search_first hs c (Nat.zero_le c) hc)
    exact hno ((h.full_iff hf.lt).mpr hf)
  | none =>
    refine .inr ⟨fun b hb hf => ?_, rfl, rfl⟩
    have hno := of_decide_eq_false (search_none hs b (Nat.zero_le b) (by omega))
    exact hno ((h.full_iff hf.lt).mpr hf)

/-! ## The shrink of `_Objects_Free` -/

/-- Freeing an object brings the inactive objects above one and a half times the allocation size,
and a block from `first` on is full then. -/
def Shrinkable (first : Nat) (s : Information) (o : Obj) : Prop :=
  3 * s.allocationSize < 2 * (putInactive s o).inactive ∧ ∃ b, first ≤ b ∧ Full (putInactive s o) b

/-- If it should, a call of `_Objects_Free` releases exactly one full block from `first` on. -/
def AutoShrinks (first : Nat) (s : Information) (o : Obj) : Prop :=
  Shrinkable first s o → ∃ b, first ≤ b ∧ Full (putInactive s o) b ∧
    Released (putInactive s o) (free s o) (freeFrees s o) b

/-- The scan finds a full block from `first` on: there is one before the last block, and there is
none before `first`. -/
def Scanned (first : Nat) (s : Information) (o : Obj) : Prop :=
  (∃ b, first ≤ b ∧ b + 1 < s.blockCount ∧ Full (putInactive s o) b) ∧
    ∀ c < first, c + 1 < s.blockCount → ¬ Full (putInactive s o) c

theorem Held.putInactive (hh : Held s) : Held (putInactive s o) :=
  hh.update (o := o) (fun hne => absurd rfl hne) (fun _ hx => hx) rfl

theorem autoShrinks_iff (h : Inv s) (hh : Held s) (ho : s.Live o) (hs : s.status o = .allocated)
    (first : Nat) : AutoShrinks first s o ↔ (Shrinkable first s o → Scanned first s o) := by
  have h' := h.putInactive ho hs
  have hh' : Held (putInactive s o) := hh.putInactive
  refine imp_congr_right fun hshrink => ?_
  have hthreshold : (putInactive s o).inactive >
      (putInactive s o).allocationSize + (putInactive s o).allocationSize / 2 := by
    have := hshrink.1
    change s.allocationSize + s.allocationSize / 2 < _
    omega
  have hfree : free s o = shrinkInformation (putInactive s o) := if_pos hthreshold
  have hfrees : freeFrees s o = shrinkFrees (putInactive s o) := if_pos hthreshold
  have hcount : (putInactive s o).blockCount = s.blockCount := rfl
  rw [hfree, hfrees]
  rcases h'.shrink_spec with ⟨r, hr, hfull, hfirst, hrelease, hmemory⟩ | ⟨hno, hkept, hnone⟩
  · rw [hrelease, hmemory]
    constructor
    · rintro ⟨b, hb, hfb, hreleased⟩
      -- The block released is the one the scan found.
      have hbr : r = b := by
        by_contra hne
        have hblock := hreleased.block r
        rw [release_block, if_pos rfl, if_neg hne] at hblock
        exact hfull.allocated hblock.symm
      subst hbr
      exact ⟨⟨r, hb, hr, hfull⟩, fun c hc _ => hfirst c (Nat.lt_of_lt_of_le hc hb)⟩
    · rintro ⟨_, hbelow⟩
      refine ⟨r, Nat.le_of_not_lt fun hlt => hbelow r hlt hr hfull, hfull, h'.released hh' hfull⟩
  · rw [hkept]
    constructor
    · rintro ⟨b, _, hfb, hreleased⟩
      have hblock := hreleased.block b
      rw [if_pos rfl] at hblock
      exact absurd hblock hfb.allocated
    · rintro ⟨⟨b, _, hb, hfb⟩, _⟩
      exact absurd hfb (hno b hb)

theorem Held.run {ops : List Op} (hh : Held s) (h : Inv s) (hr : Runs Grows s ops s') : Held s' := by
  induction hr with
  | nil => exact hh
  | cons he hg _ ih => exact ih (hh.step h he hg) (h.step he hg)

/-- **A full block is released exactly if the scan covers it**, in every run in which no allocation
grows the tables of a single object.  `first` is the first block that counts as auto-extended: 0,
or 1 without the block of the initialization. -/
theorem free_shrinks_iff {high allocationSize : Nat} {w : Workspace} {ops : List Op}
    (hsize : 1 ≤ allocationSize)
    (hrun : Runs Grows (initializeInformation high allocationSize w) ops s)
    (he : (Op.free o).Enabled s) (first : Nat) :
    AutoShrinks first s o ↔ (Shrinkable first s o → Scanned first s o) := by
  have h := Inv.of_start high hsize w
  have hh := (Held.of_start high allocationSize w).run h hrun
  exact autoShrinks_iff (h.run hrun) hh he.1 he.2 first

/-- One call before the end of the run. -/
def threeFreed : Information :=
  (shrinkingOps.take 7).foldl Op.run (initializeInformation 0x0a01 2 (clearedWorkspace 0))

/-- The last call of the run releases block 0, and block 1 is full too. -/
theorem free_shrinks_iff_four :
    (free threeFreed ⟨0, 1⟩).block 0 = none ∧ (free threeFreed ⟨0, 1⟩).block 1 = some 1 ∧
      freeFrees threeFreed ⟨0, 1⟩ = [0] ∧ (AutoShrinks 0 threeFreed ⟨0, 1⟩ ↔
        (Shrinkable 0 threeFreed ⟨0, 1⟩ → Scanned 0 threeFreed ⟨0, 1⟩)) := by
  have hrun : Runs Grows (initializeInformation 0x0a01 2 (clearedWorkspace 0))
      (shrinkingOps.take 7) threeFreed := Runs.of_along (shrinkingOps_along.take 7)
  have henabled : (Op.free ⟨0, 1⟩).Enabled threeFreed := ⟨⟨0, by decide_cbv⟩, by decide_cbv⟩
  exact ⟨by decide_cbv, by decide_cbv, by decide_cbv,
    free_shrinks_iff (by decide) hrun henabled 0⟩

/-- Two blocks of three objects.  The only object in use of the last block is freed, and one of the
first block. -/
def lastBlockOps : List Op :=
  [.allocate (clearedWorkspace 1), .allocate (clearedWorkspace 1), .allocate (clearedWorkspace 1),
    .allocate (clearedWorkspace 1), .free ⟨1, 0⟩, .free ⟨0, 0⟩]

def lastBlockFreed : Information :=
  lastBlockOps.foldl Op.run (initializeInformation 0x0a01 3 (clearedWorkspace 0))

theorem lastBlockOps_along : Lib.Along Op.run (fun s op => op.Enabled s ∧ Grows s op)
    (initializeInformation 0x0a01 3 (clearedWorkspace 0)) lastBlockOps :=
  ⟨⟨enabled_cleared (by decide), fun hc => absurd hc (by decide)⟩,
    ⟨enabled_cleared (by decide), fun hc => absurd hc (by decide)⟩,
    ⟨enabled_cleared (by decide), fun hc => absurd hc (by decide)⟩,
    ⟨enabled_cleared (by decide), fun _ _ _ _ => by decide⟩,
    ⟨⟨⟨1, by decide⟩, by decide_cbv⟩, trivial⟩,
    ⟨⟨⟨0, by decide⟩, by decide_cbv⟩, trivial⟩, trivial⟩

/-- The next call finds the last block full, and releases nothing, whether the block of the
initialization counts or not. -/
theorem free_keeps_last_block : ¬ ∃ first ≤ 1, ∀ (high allocationSize : Nat) (w : Workspace)
    (ops : List Op) (s : Information) (o : Obj), 1 ≤ allocationSize →
      Runs Grows (initializeInformation high allocationSize w) ops s →
      (Op.free o).Enabled s → AutoShrinks first s o := by
  rintro ⟨first, hfirst, hall⟩
  have hrun : Runs Grows (initializeInformation 0x0a01 3 (clearedWorkspace 0)) lastBlockOps
      lastBlockFreed := Runs.of_along lastBlockOps_along
  have henabled : (Op.free ⟨0, 1⟩).Enabled lastBlockFreed :=
    ⟨⟨0, by decide_cbv⟩, by decide_cbv⟩
  have hstart := Inv.of_start 0x0a01 (show 0 < 3 by decide) (clearedWorkspace 0)
  have hinv := hstart.run hrun
  have hh := (Held.of_start 0x0a01 3 (clearedWorkspace 0)).run hstart hrun
  have hput := hinv.putInactive henabled.1 henabled.2
  have hcount : (putInactive lastBlockFreed ⟨0, 1⟩).blockCount = 2 := by decide_cbv
  have hlast : (putInactive lastBlockFreed ⟨0, 1⟩).inactivePerBlock 1 =
      (putInactive lastBlockFreed ⟨0, 1⟩).allocationSize := by
    decide_cbv
  have hother : (putInactive lastBlockFreed ⟨0, 1⟩).inactivePerBlock 0 = 2 := by decide_cbv
  have hsize : (putInactive lastBlockFreed ⟨0, 1⟩).allocationSize = 3 := by decide_cbv
  have hblocks : lastBlockFreed.blockCount = 2 := by decide_cbv
  have hlt : 1 < (putInactive lastBlockFreed ⟨0, 1⟩).blockCount := by
    rw [hcount]
    decide
  have hfull : Full (putInactive lastBlockFreed ⟨0, 1⟩) 1 := (hput.full_iff hlt).mp hlast
  have hthreshold : 3 * lastBlockFreed.allocationSize <
      2 * (putInactive lastBlockFreed ⟨0, 1⟩).inactive := by
    decide_cbv
  have hshrinkable : Shrinkable first lastBlockFreed ⟨0, 1⟩ := ⟨hthreshold, 1, hfirst, hfull⟩
  have hshrinks := hall _ _ _ _ _ _ (by decide) hrun henabled
  obtain ⟨⟨b, _, hb, hfb⟩, _⟩ :=
    (autoShrinks_iff hinv hh henabled.1 henabled.2 first).mp hshrinks hshrinkable
  have hb0 : b = 0 := by omega
  subst hb0
  have hper := (hput.full_iff hfb.lt).mpr hfb
  rw [hother, hsize] at hper
  cases hper

end Rtems.Objects
