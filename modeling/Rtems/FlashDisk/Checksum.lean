import Rtems.FlashDisk.Model
import Rtems.Lib.Crc

/-!
# The page checksum

The checksum of a page goes through its bytes with a table that is made once.  It is the cyclic
redundancy check that takes the page bit by bit, the lowest bit of each byte first.
-/

namespace Rtems.FlashDisk

open Lib.Crc

/-- The table `rtems_fdisk_crc16_gen_factors` makes. -/
def crc16GenFactors (pattern : BitVec 16) : List (BitVec 16) :=
  (List.range 256).map fun b => (List.range 8).foldl
    (fun v _ => if v &&& 1#16 = 1#16 then (v >>> 1) ^^^ pattern else v >>> 1) (BitVec.ofNat 16 b)

/-- `rtems_fdisk_calc_crc16` with a table `rtems_fdisk_crc16_factor`. -/
def calcCrc16With (crc16Factor : List (BitVec 16)) (b : BitVec 8) (c : BitVec 16) : BitVec 16 :=
  crc16Factor.getD ((b.setWidth 16 ^^^ (c &&& 0xff#16)) &&& 0xff#16).toNat 0#16 ^^^
    ((c >>> 8) &&& 0xff#16)

/-- `rtems_fdisk_page_checksum` with a table. -/
def pageChecksumWith (crc16Factor : List (BitVec 16)) (buffer : Page) : BitVec 16 :=
  buffer.foldl (fun cs b => calcCrc16With crc16Factor b cs) 0xffff#16

/-- The bits of a byte, lowest first. -/
def byteBits (b : BitVec 8) : List Bool := (List.range 8).map b.getLsbD

/-- The bits of a page in the order in which they enter the check. -/
def pageBits (buffer : Page) : List Bool := buffer.flatMap byteBits

/-- The reflected polynomial of the check. -/
def crc16Poly : BitVec 16 := 0x8408#16

/-! ## The table -/

theorem and_one_eq (v : BitVec 16) : v &&& 1#16 = if v.getLsbD 0 then 1#16 else 0#16 := by
  rw [BitVec.and_one_eq_setWidth_ofBool_getLsbD]
  cases v.getLsbD 0 <;> rfl

theorem foldl_shift (pattern v : BitVec 16) (n : ℕ) :
    (List.range n).foldl (fun v _ => if v &&& 1#16 = 1#16 then (v >>> 1) ^^^ pattern else v >>> 1) v =
      (shift pattern)^[n] v := by
  induction n with
  | zero => rfl
  | succ n ih =>
    rw [List.range_succ, List.foldl_append, ih, Function.iterate_succ_apply', List.foldl_cons,
      List.foldl_nil, shift, and_one_eq]
    cases ((shift pattern)^[n] v).getLsbD 0 <;> rfl

/-- An entry of the table is its index after a step for each bit of a byte. -/
theorem crc16GenFactors_getD (pattern v : BitVec 16) :
    (crc16GenFactors pattern).getD (v &&& 0xff#16).toNat 0#16 =
      (shift pattern)^[8] (v &&& 0xff#16) := by
  have hlt : (v &&& 0xff#16).toNat < 256 := by
    rw [BitVec.toNat_and]
    exact Nat.lt_succ_of_le Nat.and_le_right
  have hlen : (v &&& 0xff#16).toNat < (crc16GenFactors pattern).length := by
    rw [crc16GenFactors, List.length_map, List.length_range]
    exact hlt
  rw [List.getD_eq_getElem _ _ hlen]
  simp only [crc16GenFactors, List.getElem_map, List.getElem_range, foldl_shift, BitVec.ofNat_toNat,
    BitVec.setWidth_eq]

theorem crc16Factor_eq (v : BitVec 16) : crc16Factor v = (shift crc16Poly)^[8] v := by
  rw [← foldl_shift]
  unfold crc16Factor
  congr 1
  funext v _
  rw [and_one_eq]
  cases v.getLsbD 0 <;> rfl

/-- The table for `0x8408` is the one the disk works with. -/
theorem calcCrc16With_genFactors (b : BitVec 8) (c : BitVec 16) :
    calcCrc16With (crc16GenFactors 0x8408#16) b c = calcCrc16 b c := by
  rw [calcCrc16With, crc16GenFactors_getD, calcCrc16, crc16Factor_eq]
  rfl

theorem pageChecksumWith_genFactors (buffer : Page) :
    pageChecksumWith (crc16GenFactors 0x8408#16) buffer = pageChecksum buffer := by
  unfold pageChecksumWith pageChecksum
  simp only [calcCrc16With_genFactors]

/-! ## Bit by bit -/

/-- A byte taken from the table is a byte taken bit by bit. -/
theorem calcCrc16_eq_serial (b : BitVec 8) (c : BitVec 16) :
    calcCrc16 b c = serial crc16Poly c (byteBits b) := by
  have hload : load 16 (byteBits b) = b.setWidth 16 := by
    refine BitVec.eq_of_getLsbD_eq fun i hi => ?_
    rw [getLsbD_load, BitVec.getLsbD_setWidth]
    by_cases hb : i < 8
    · have hlen : i < (byteBits b).length := by simpa [byteBits] using hb
      rw [List.getD_eq_getElem _ _ hlen]
      simp [byteBits]
    · rw [List.getD_eq_default _ _ (by simpa [byteBits] using Nat.le_of_not_lt hb),
        BitVec.getLsbD_of_ge b i (Nat.le_of_not_lt hb)]
  -- The low byte goes through the table, and the high byte moves down.
  have hsplit : c ^^^ b.setWidth 16 =
      ((b.setWidth 16 ^^^ (c &&& 0xff#16)) &&& 0xff#16) ^^^ ((c >>> 8) <<< 8) := by
    refine BitVec.eq_of_getLsbD_eq fun i hi => ?_
    have hmask : (0xff#16).getLsbD i = decide (i < 8) := by
      interval_cases i <;> rfl
    simp only [BitVec.getLsbD_xor, BitVec.getLsbD_and, BitVec.getLsbD_setWidth,
      BitVec.getLsbD_shiftLeft, BitVec.getLsbD_ushiftRight, hmask]
    by_cases hb : i < 8
    · simp [hb, hi, Bool.xor_comm]
    · have hadd : 8 + (i - 8) = i := by omega
      simp [hb, hi, hadd, BitVec.getLsbD_of_ge b i (Nat.le_of_not_lt hb)]
  have hhigh : ∀ i, 16 ≤ i + 8 → (c >>> 8).getLsbD i = false := by
    intro i hi
    rw [BitVec.getLsbD_ushiftRight]
    exact BitVec.getLsbD_of_ge _ _ (by omega)
  have hmask : (c >>> 8) &&& 0xff#16 = c >>> 8 := by
    refine BitVec.eq_of_getLsbD_eq fun i hi => ?_
    by_cases hb : i < 8
    · have hone : (0xff#16).getLsbD i = true := by interval_cases i <;> rfl
      rw [BitVec.getLsbD_and, hone, Bool.and_true]
    · rw [BitVec.getLsbD_and, hhigh i (by omega), Bool.false_and]
  have hlen : (byteBits b).length = 8 := by simp [byteBits]
  rw [serial_eq_iterate _ _ _ (by omega), hload, hlen, hsplit, iterate_shift_xor,
    iterate_shift_shiftLeft _ _ _ hhigh, calcCrc16, crc16Factor_eq, hmask]

theorem pageChecksum_eq_serial (buffer : Page) :
    pageChecksum buffer = serial crc16Poly 0xffff#16 (pageBits buffer) := by
  unfold pageChecksum
  generalize 0xffff#16 = cs
  induction buffer generalizing cs with
  | nil => rfl
  | cons b buffer ih =>
    rw [List.foldl_cons, ih, calcCrc16_eq_serial]
    exact (serial_append _ _ _ _).symm

theorem length_pageBits (buffer : Page) : (pageBits buffer).length = buffer.length * 8 := by
  unfold pageBits byteBits
  simp

theorem byteBits_injective : Function.Injective byteBits := by
  intro b b' h
  refine BitVec.eq_of_getLsbD_eq fun i hi => ?_
  have hbit := congrArg (fun bits => bits.getD i false) h
  simpa [byteBits, hi] using hbit

theorem pageBits_injective {buffer buffer' : Page} (h : pageBits buffer = pageBits buffer') :
    buffer = buffer' := by
  induction buffer generalizing buffer' with
  | nil =>
    have hlen := congrArg List.length h
    rw [length_pageBits, length_pageBits, List.length_nil] at hlen
    exact (List.length_eq_zero_iff.mp (by omega)).symm
  | cons b buffer ih =>
    cases buffer' with
    | nil =>
      have hlen := congrArg List.length h
      rw [length_pageBits, length_pageBits, List.length_nil, List.length_cons] at hlen
      omega
    | cons b' buffer' =>
      have hlen : (byteBits b).length = (byteBits b').length := by simp [byteBits]
      obtain ⟨hb, hrest⟩ := List.append_inj h hlen
      rw [byteBits_injective hb, ih hrest]

/-- **The checksum is the cyclic redundancy check of a page**, for pages of any length, and a
corruption of at most 16 consecutive bits changes it. -/
theorem page_checksum (buffer : Page) :
    pageChecksumWith (crc16GenFactors 0x8408#16) buffer =
      serial crc16Poly 0xffff#16 (pageBits buffer) ∧
    ∀ (buffer' : Page) (i : ℕ), buffer'.length = buffer.length → buffer' ≠ buffer →
      (∀ j, ¬ (i ≤ j ∧ j < i + 16) → (pageBits buffer')[j]? = (pageBits buffer)[j]?) →
      pageChecksumWith (crc16GenFactors 0x8408#16) buffer' ≠
        pageChecksumWith (crc16GenFactors 0x8408#16) buffer := by
  rw [pageChecksumWith_genFactors, pageChecksum_eq_serial]
  refine ⟨rfl, fun buffer' i hlen hne hsame => ?_⟩
  rw [pageChecksumWith_genFactors, pageChecksum_eq_serial]
  refine serial_ne_of_burst _ _ (by decide) ?_ (fun h => hne (pageBits_injective h)) i hsame
  rw [length_pageBits, length_pageBits, hlen]

/-- A burst over the end of a byte. -/
theorem page_checksum_burst :
    pageChecksumWith (crc16GenFactors 0x8408#16) [0x81#8, 0x7f#8] ≠
      pageChecksumWith (crc16GenFactors 0x8408#16) [0x01#8, 0x7e#8] :=
  (page_checksum [0x01#8, 0x7e#8]).2 [0x81#8, 0x7f#8] 7 rfl (by decide) fun j hj => by
    rcases Nat.lt_or_ge j 16 with hlt | hge
    · interval_cases j <;> first | rfl | exact absurd (by decide) hj
    · rw [List.getElem?_eq_none hge, List.getElem?_eq_none hge]

end Rtems.FlashDisk
