import Mathlib

/-!
# The priority bit map

The model of `prioritybitmapimpl.h` with the generic bit field routines.  A
priority has a major and a minor number of four bits each.  The bit map stands
for a set of priorities, and `Exact` says that it does so in both levels.
-/

namespace Rtems.Scheduler

/-! ## Words -/

/-- `__log2table`. -/
def log2table : List Nat :=
  [7, 7] ++ List.replicate 2 6 ++ List.replicate 4 5 ++ List.replicate 8 4 ++
    List.replicate 16 3 ++ List.replicate 32 2 ++ List.replicate 64 1 ++ List.replicate 128 0

/-- `_Bitfield_Find_first_bit`. -/
def findFirstBit (value : BitVec 16) : Nat :=
  if value.toNat < 0x100 then log2table.getD value.toNat 0 + 8
  else log2table.getD (value.toNat / 2 ^ 8) 0

/-- `_Priority_Mask`. -/
def priorityMask (bitNumber : Nat) : BitVec 16 := 0x8000#16 >>> bitNumber

/-- `_Priority_Major`. -/
def priorityMajor (priority : Nat) : Nat := priority / 16

/-- `_Priority_Minor`. -/
def priorityMinor (priority : Nat) : Nat := priority % 16

/-! ## The map -/

/-- `Priority_bit_map_Control`. -/
structure BitMap where
  majorBitMap : BitVec 16
  bitMap : Nat → BitVec 16

/-- `Priority_bit_map_Information`, with the number of the minor word for the
pointer to it. -/
structure BitMap.Information where
  minor : Nat
  readyMajor : BitVec 16
  readyMinor : BitVec 16
  blockMajor : BitVec 16
  blockMinor : BitVec 16
deriving DecidableEq

namespace BitMap

/-- `_Priority_bit_map_Initialize`. -/
def cleared : BitMap where
  majorBitMap := 0#16
  bitMap := fun _ => 0#16

/-- `_Priority_bit_map_Initialize_information`. -/
def information (newPriority : Nat) : Information where
  minor := priorityMajor newPriority
  readyMajor := priorityMask (priorityMajor newPriority)
  readyMinor := priorityMask (priorityMinor newPriority)
  blockMajor := ~~~ priorityMask (priorityMajor newPriority)
  blockMinor := ~~~ priorityMask (priorityMinor newPriority)

/-- `_Priority_bit_map_Add`. -/
def add (b : BitMap) (i : Information) : BitMap where
  majorBitMap := b.majorBitMap ||| i.readyMajor
  bitMap := Function.update b.bitMap i.minor (b.bitMap i.minor ||| i.readyMinor)

/-- `_Priority_bit_map_Remove`. -/
def remove (b : BitMap) (i : Information) : BitMap :=
  let word := b.bitMap i.minor &&& i.blockMinor
  { majorBitMap := if word = 0#16 then b.majorBitMap &&& i.blockMajor else b.majorBitMap
    bitMap := Function.update b.bitMap i.minor word }

/-- `_Priority_bit_map_Get_highest`. -/
def getHighest (b : BitMap) : Nat :=
  let major := findFirstBit b.majorBitMap
  let minor := findFirstBit (b.bitMap major)
  major * 2 ^ 4 + minor

end BitMap

/-! ## Bits of a word -/

/-- Bit `n` of a word, counted from the most significant one as the masks are. -/
theorem getMsbD_priorityMask {m n : Nat} (hm : m < 16) (hn : n < 16) :
    (priorityMask m).getMsbD n = decide (n = m) := by
  have h : ∀ m < 16, ∀ n < 16, (priorityMask m).getMsbD n = decide (n = m) := by decide
  exact h m hm n hn

theorem ne_zero_of_getMsbD {v : BitVec 16} {n : Nat} (h : v.getMsbD n = true) : v ≠ 0#16 := by
  rintro rfl
  rw [BitVec.getMsbD_zero] at h
  cases h

theorem log2table_eq : ∀ n < 256, n ≠ 0 → log2table.getD n 0 = 7 - Nat.log2 n := by
  decide +kernel

theorem log2_div {v : Nat} (k : Nat) (h : v / 2 ^ k ≠ 0) :
    Nat.log2 v = Nat.log2 (v / 2 ^ k) + k := by
  have hv : v ≠ 0 := by
    rintro rfl
    exact h (Nat.zero_div _)
  obtain ⟨hlo, hhi⟩ := (Nat.log2_eq_iff h).mp rfl
  refine (Nat.log2_eq_iff hv).mpr ⟨?_, ?_⟩
  · rw [Nat.pow_add]
    exact (Nat.le_div_iff_mul_le (Nat.two_pow_pos k)).mp hlo
  · rw [Nat.add_right_comm, Nat.pow_add]
    exact (Nat.div_lt_iff_lt_mul (Nat.two_pow_pos k)).mp hhi

/-- The table scans a word as the logarithm does. -/
theorem findFirstBit_eq {v : BitVec 16} (hv : v ≠ 0#16) :
    findFirstBit v = 15 - Nat.log2 v.toNat := by
  have h0 : v.toNat ≠ 0 := fun h => hv (BitVec.eq_of_toNat_eq h)
  have hlt := v.isLt
  unfold findFirstBit
  split
  next h =>
    have : Nat.log2 v.toNat < 8 := (Nat.log2_lt h0).mpr h
    rw [log2table_eq _ h h0]
    omega
  next h =>
    have hdiv : v.toNat / 2 ^ 8 ≠ 0 := by omega
    have : Nat.log2 v.toNat < 16 := (Nat.log2_lt h0).mpr hlt
    rw [log2table_eq _ (by omega) hdiv, log2_div 8 hdiv]
    omega

/-- The first bit set of a word that is not zero. -/
theorem findFirstBit_spec {v : BitVec 16} (hv : v ≠ 0#16) :
    findFirstBit v < 16 ∧ v.getMsbD (findFirstBit v) = true ∧
      ∀ n < findFirstBit v, v.getMsbD n = false := by
  have h0 : v.toNat ≠ 0 := fun h => hv (BitVec.eq_of_toNat_eq h)
  have hlog : Nat.log2 v.toNat < 16 := (Nat.log2_lt h0).mpr v.isLt
  rw [findFirstBit_eq hv]
  refine ⟨by omega, ?_, fun n hn => ?_⟩
  · rw [BitVec.getMsbD, BitVec.getLsbD, show 16 - 1 - (15 - Nat.log2 v.toNat) = Nat.log2 v.toNat
      by omega, Nat.testBit_log2 h0, decide_eq_true (by omega)]
    rfl
  · rw [BitVec.getMsbD, BitVec.getLsbD, Nat.testBit_lt_two_pow, Bool.and_false]
    exact (Nat.log2_lt h0).mp (by omega)

/-! ## The map as a set of priorities -/

/-- The map holds exactly the priorities of the set. -/
structure Exact (b : BitMap) (set : Nat → Prop) : Prop where
  minor : ∀ p < 256, (b.bitMap (priorityMajor p)).getMsbD (priorityMinor p) = true ↔ set p
  major : ∀ m < 16, b.majorBitMap.getMsbD m = true ↔ b.bitMap m ≠ 0#16

variable {b : BitMap} {set : Nat → Prop} {p q : Nat}

theorem priorityMajor_lt (hp : p < 256) : priorityMajor p < 16 := Nat.div_lt_of_lt_mul hp

theorem priorityMinor_lt : priorityMinor p < 16 := Nat.mod_lt p (by decide)

theorem priority_ext (hmajor : priorityMajor p = priorityMajor q)
    (hminor : priorityMinor p = priorityMinor q) : p = q := by
  rw [← Nat.div_add_mod p 16, ← Nat.div_add_mod q 16]
  exact congrArg₂ (16 * · + ·) hmajor hminor

theorem Exact.congr {set' : Nat → Prop} (h : Exact b set) (hs : ∀ p < 256, set p ↔ set' p) :
    Exact b set' :=
  ⟨fun p hp => (h.minor p hp).trans (hs p hp), h.major⟩

theorem exact_cleared : Exact BitMap.cleared fun _ => False where
  minor p _ := by simp [BitMap.cleared]
  major m _ := by simp [BitMap.cleared]

theorem Exact.add (h : Exact b set) (hp : p < 256) :
    Exact (b.add (BitMap.information p)) fun q => q = p ∨ set q where
  minor q hq := by
    change (Function.update b.bitMap (priorityMajor p) (b.bitMap (priorityMajor p) |||
      priorityMask (priorityMinor p)) (priorityMajor q)).getMsbD (priorityMinor q) = true ↔ _
    rcases eq_or_ne (priorityMajor q) (priorityMajor p) with heq | hne
    · rw [heq, Function.update_self, BitVec.getMsbD_or, Bool.or_eq_true, ← heq, h.minor q hq,
        getMsbD_priorityMask priorityMinor_lt priorityMinor_lt, decide_eq_true_eq, or_comm]
      exact or_congr_left ⟨fun e => priority_ext heq e, fun e => e ▸ rfl⟩
    · rw [Function.update_of_ne hne, h.minor q hq]
      exact ⟨.inr, fun hq => hq.resolve_left fun e => hne (e ▸ rfl)⟩
  major m hm := by
    change (b.majorBitMap ||| priorityMask (priorityMajor p)).getMsbD m = true ↔
      Function.update b.bitMap (priorityMajor p) (b.bitMap (priorityMajor p) |||
        priorityMask (priorityMinor p)) m ≠ 0#16
    rw [BitVec.getMsbD_or, Bool.or_eq_true, getMsbD_priorityMask (priorityMajor_lt hp) hm,
      decide_eq_true_eq, h.major m hm]
    rcases eq_or_ne m (priorityMajor p) with rfl | hne
    · rw [Function.update_self]
      refine ⟨fun _ => ?_, fun _ => .inr rfl⟩
      refine ne_zero_of_getMsbD (n := priorityMinor p) ?_
      rw [BitVec.getMsbD_or, getMsbD_priorityMask priorityMinor_lt priorityMinor_lt]
      simp
    · rw [Function.update_of_ne hne]
      exact ⟨fun hx => hx.resolve_right hne, .inl⟩

/-- A bit of a word after one bit of it was blocked. -/
theorem getMsbD_block {v : BitVec 16} {m n : Nat} (hm : m < 16) (hn : n < 16) :
    (v &&& ~~~ priorityMask m).getMsbD n = true ↔ n ≠ m ∧ v.getMsbD n = true := by
  rw [BitVec.getMsbD_and, BitVec.getMsbD_not, getMsbD_priorityMask hm hn, Bool.and_eq_true,
    and_comm]
  simp [hn]

theorem Exact.remove (h : Exact b set) (hp : p < 256) :
    Exact (b.remove (BitMap.information p)) fun q => q ≠ p ∧ set q where
  minor q hq := by
    change (Function.update b.bitMap (priorityMajor p) (b.bitMap (priorityMajor p) &&&
      ~~~ priorityMask (priorityMinor p)) (priorityMajor q)).getMsbD (priorityMinor q) = true ↔ _
    rcases eq_or_ne (priorityMajor q) (priorityMajor p) with heq | hne
    · rw [heq, Function.update_self, getMsbD_block priorityMinor_lt priorityMinor_lt, ← heq,
        h.minor q hq]
      exact and_congr_left' (not_congr ⟨fun e => priority_ext heq e, fun e => e ▸ rfl⟩)
    · rw [Function.update_of_ne hne, h.minor q hq]
      exact ⟨fun hq => ⟨fun e => hne (e ▸ rfl), hq⟩, And.right⟩
  major m hm := by
    change (if b.bitMap (priorityMajor p) &&& ~~~ priorityMask (priorityMinor p) = 0#16 then
        b.majorBitMap &&& ~~~ priorityMask (priorityMajor p)
      else b.majorBitMap).getMsbD m = true ↔
      Function.update b.bitMap (priorityMajor p) (b.bitMap (priorityMajor p) &&&
        ~~~ priorityMask (priorityMinor p)) m ≠ 0#16
    rcases eq_or_ne m (priorityMajor p) with rfl | hne
    · rw [Function.update_self]
      rcases eq_or_ne (b.bitMap (priorityMajor p) &&& ~~~ priorityMask (priorityMinor p)) 0#16
        with hz | hz
      · rw [if_pos hz, getMsbD_block hm hm]
        exact ⟨fun hx => absurd rfl hx.1, fun hx => absurd hz hx⟩
      · rw [if_neg hz, h.major _ hm]
        refine ⟨fun _ => hz, fun _ e => hz ?_⟩
        rw [e, BitVec.zero_and]
    · rw [Function.update_of_ne hne, ← h.major m hm]
      rcases eq_or_ne (b.bitMap (priorityMajor p) &&& ~~~ priorityMask (priorityMinor p)) 0#16
        with hz | hz
      · rw [if_pos hz, getMsbD_block (priorityMajor_lt hp) hm, and_iff_right hne]
      · rw [if_neg hz]

/-- The highest priority of a map that is not empty. -/
theorem Exact.getHighest (h : Exact b set) (hp : p < 256) (hs : set p) :
    b.getHighest < 256 ∧ set b.getHighest ∧ ∀ q < b.getHighest, ¬ set q := by
  have hmajor : b.majorBitMap ≠ 0#16 := by
    refine ne_zero_of_getMsbD ((h.major _ (priorityMajor_lt hp)).mpr ?_)
    exact ne_zero_of_getMsbD ((h.minor p hp).mpr hs)
  obtain ⟨hlt, hbit, hfirst⟩ := findFirstBit_spec hmajor
  obtain ⟨hlt', hbit', hfirst'⟩ := findFirstBit_spec ((h.major _ hlt).mp hbit)
  have hdef : b.getHighest = findFirstBit b.majorBitMap * 2 ^ 4 +
      findFirstBit (b.bitMap (findFirstBit b.majorBitMap)) := rfl
  have hM : priorityMajor b.getHighest = findFirstBit b.majorBitMap := by
    rw [priorityMajor]
    omega
  have hm : priorityMinor b.getHighest =
      findFirstBit (b.bitMap (findFirstBit b.majorBitMap)) := by
    rw [priorityMinor]
    omega
  have hlt256 : b.getHighest < 256 := by omega
  refine ⟨hlt256, ?_, fun q hq hsq => ?_⟩
  · rw [← h.minor _ hlt256, hM, hm]
    exact hbit'
  · have hqb := (h.minor q (Nat.lt_trans hq hlt256)).mpr hsq
    have hqm := (h.major _ (priorityMajor_lt (Nat.lt_trans hq hlt256))).mpr (ne_zero_of_getMsbD hqb)
    -- The major number is not below the first one, so it is the first one.
    have hge : findFirstBit b.majorBitMap ≤ priorityMajor q := by
      by_contra hc
      rw [hfirst _ (Nat.lt_of_not_le hc)] at hqm
      cases hqm
    have hle : priorityMajor q ≤ findFirstBit b.majorBitMap := by
      rw [← hM]
      exact Nat.div_le_div_right (Nat.le_of_lt hq)
    have heq := Nat.le_antisymm hle hge
    have hlt : priorityMinor q < findFirstBit (b.bitMap (findFirstBit b.majorBitMap)) := by
      rw [priorityMajor] at heq
      rw [priorityMinor]
      omega
    rw [heq, hfirst' _ hlt] at hqb
    cases hqb

end Rtems.Scheduler
