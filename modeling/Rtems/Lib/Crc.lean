import Mathlib.Data.List.GetD
import Mathlib.Logic.Function.Iterate

/-!
# Cyclic redundancy checks, bit by bit

The reflected form: the register moves to the right and the bit that leaves it decides if the
polynomial is added.  A register is a vector of bits, with exclusive or as its addition.  A step
is linear, and one to one if the polynomial has its highest bit.  So two messages that differ in a
burst no longer than the register have different remainders.
-/

namespace Rtems.Lib.Crc

variable {w : ℕ} (poly c d : BitVec w)

/-- A step of the register. -/
def shift : BitVec w := if c.getLsbD 0 then (c >>> 1) ^^^ poly else c >>> 1

/-- A register that holds a single bit. -/
def ofBit (w : ℕ) (b : Bool) : BitVec w := (BitVec.ofBool b).setWidth w

/-- A bit of the message enters the register. -/
def feed (b : Bool) : BitVec w := shift poly (c ^^^ ofBit w b)

/-- The register after a message. -/
def serial (bits : List Bool) : BitVec w := bits.foldl (feed poly) c

@[simp]
theorem serial_nil : serial poly c [] = c := rfl

@[simp]
theorem serial_cons (b : Bool) (bits : List Bool) :
    serial poly c (b :: bits) = serial poly (feed poly c b) bits := rfl

theorem serial_append (bits bits' : List Bool) :
    serial poly c (bits ++ bits') = serial poly (serial poly c bits) bits' :=
  List.foldl_append

/-! ## Linearity -/

theorem xor_xor_comm (a b p q : BitVec w) : (a ^^^ p) ^^^ (b ^^^ q) = (a ^^^ b) ^^^ (p ^^^ q) := by
  rw [BitVec.xor_assoc, ← BitVec.xor_assoc p, BitVec.xor_comm p b, BitVec.xor_assoc b,
    ← BitVec.xor_assoc]

theorem shift_xor : shift poly (c ^^^ d) = shift poly c ^^^ shift poly d := by
  unfold shift
  rw [BitVec.getLsbD_xor, BitVec.ushiftRight_xor_distrib]
  cases c.getLsbD 0 <;> cases d.getLsbD 0
  · rfl
  · exact BitVec.xor_assoc _ _ _
  · simp only [Bool.xor_false, Bool.false_eq_true, if_true, if_false]
    rw [BitVec.xor_assoc, BitVec.xor_comm (d >>> 1), ← BitVec.xor_assoc]
  · simp only [bne_self_eq_false, Bool.false_eq_true, if_true, if_false]
    rw [xor_xor_comm, BitVec.xor_self, BitVec.xor_zero]

theorem ofBit_xor (b b' : Bool) : ofBit w (b ^^ b') = ofBit w b ^^^ ofBit w b' := by
  cases b <;> cases b' <;> simp [ofBit]

theorem feed_xor (b b' : Bool) : feed poly (c ^^^ d) (b ^^ b') = feed poly c b ^^^ feed poly d b' := by
  unfold feed
  rw [ofBit_xor, ← xor_xor_comm, shift_xor]

/-- The difference of two registers is the register of the difference. -/
theorem serial_xor (bits bits' : List Bool) (h : bits.length = bits'.length) :
    serial poly (c ^^^ d) (List.zipWith xor bits bits') =
      serial poly c bits ^^^ serial poly d bits' := by
  induction bits generalizing bits' c d with
  | nil =>
    cases bits' with
    | nil => rfl
    | cons b' bits' => cases h
  | cons b bits ih =>
    cases bits' with
    | nil => cases h
    | cons b' bits' =>
      rw [List.zipWith_cons_cons, serial_cons, feed_xor]
      exact ih _ _ bits' (Nat.succ.inj h)

/-! ## Steps are one to one -/

theorem shift_zero : shift poly 0#w = 0#w := by
  unfold shift
  simp

theorem ofBit_false : ofBit w false = 0#w := by
  simp [ofBit]

theorem feed_false : feed poly c false = shift poly c := by
  unfold feed
  rw [ofBit_false, BitVec.xor_zero]

/-- The highest bit tells if the polynomial was added. -/
theorem shift_msb (hpoly : poly.msb = true) : (shift poly c).msb = c.getLsbD 0 := by
  have hshift : (c >>> 1).msb = false := by
    rw [BitVec.msb_eq_getLsbD_last, BitVec.getLsbD_ushiftRight]
    exact BitVec.getLsbD_of_ge _ _ (by omega)
  unfold shift
  cases c.getLsbD 0 with
  | false =>
    rw [if_neg Bool.false_ne_true]
    exact hshift
  | true =>
    rw [if_pos rfl, BitVec.msb_xor, hshift, hpoly]
    rfl

theorem shift_eq_zero (hpoly : poly.msb = true) (h : shift poly c = 0#w) : c = 0#w := by
  have hlow : c.getLsbD 0 = false := by
    rw [← shift_msb poly c hpoly, h]
    exact BitVec.msb_zero
  unfold shift at h
  rw [hlow, if_neg Bool.false_ne_true] at h
  refine BitVec.eq_of_getLsbD_eq fun i hi => ?_
  rw [BitVec.getLsbD_zero]
  cases i with
  | zero => exact hlow
  | succ i =>
    have hbit := congrArg (fun x : BitVec w => x.getLsbD i) h
    rw [BitVec.getLsbD_ushiftRight, BitVec.getLsbD_zero, Nat.add_comm] at hbit
    exact hbit

theorem shift_injective (hpoly : poly.msb = true) : Function.Injective (shift poly) := by
  intro c d h
  have hzero : shift poly (c ^^^ d) = 0#w := by
    rw [shift_xor, h, BitVec.xor_self]
  have hxor := shift_eq_zero poly _ hpoly hzero
  calc c = c ^^^ (d ^^^ d) := by rw [BitVec.xor_self, BitVec.xor_zero]
    _ = (c ^^^ d) ^^^ d := (BitVec.xor_assoc c d d).symm
    _ = d := by rw [hxor, BitVec.zero_xor]

/-- Bits that are zero leave a register as different from zero as it was. -/
theorem serial_zeros (n : ℕ) : serial poly c (List.replicate n false) = (shift poly)^[n] c := by
  induction n generalizing c with
  | zero => rfl
  | succ n ih =>
    rw [List.replicate_succ, serial_cons, feed_false, ih, Function.iterate_succ_apply]

/-! ## A burst -/

/-- The bits of a message that fit the register, the first one lowest. -/
def load (w : ℕ) : List Bool → BitVec w
  | [] => 0#w
  | b :: bits => ofBit w b ^^^ (load w bits <<< 1)

theorem getLsbD_ofBit (b : Bool) (i : ℕ) : (ofBit w b).getLsbD i = (decide (i < w ∧ i = 0) && b) := by
  unfold ofBit
  rw [BitVec.getLsbD_setWidth, BitVec.getLsbD_ofBool]
  by_cases hi : i = 0 <;> by_cases hw : i < w <;> simp [hi, hw]

theorem getLsbD_load (bits : List Bool) (i : ℕ) :
    (load w bits).getLsbD i = (decide (i < w) && bits.getD i false) := by
  induction bits generalizing i with
  | nil => simp [load]
  | cons b bits ih =>
    rw [load, BitVec.getLsbD_xor, getLsbD_ofBit, BitVec.getLsbD_shiftLeft]
    cases i with
    | zero => simp
    | succ i =>
      rw [ih]
      by_cases hi : i + 1 < w
      · have hlt : i < w := Nat.lt_of_succ_lt hi
        simp [hi, hlt]
      · simp [hi]

theorem shift_shiftLeft (h : c.msb = false) : shift poly (c <<< 1) = c := by
  have hlow : (c <<< 1).getLsbD 0 = false := by
    rw [BitVec.getLsbD_shiftLeft]
    simp
  unfold shift
  rw [hlow, if_neg Bool.false_ne_true]
  refine BitVec.eq_of_getLsbD_eq fun i hi => ?_
  rw [BitVec.getLsbD_ushiftRight, BitVec.getLsbD_shiftLeft]
  by_cases hlast : 1 + i < w
  · simp [hlast]
  · have hmsb := h
    rw [BitVec.msb_eq_getLsbD_last, show w - 1 = i by omega] at hmsb
    simp [hlast, hmsb]

theorem iterate_shift_shiftLeft (n : ℕ) (h : ∀ i, w ≤ i + n → c.getLsbD i = false) :
    (shift poly)^[n] (c <<< n) = c := by
  induction n generalizing c with
  | zero => rw [BitVec.shiftLeft_zero, Function.iterate_zero_apply]
  | succ n ih =>
    have hmsb : (c <<< n).msb = false := by
      rw [BitVec.msb_eq_getLsbD_last, BitVec.getLsbD_shiftLeft]
      by_cases hn : w - 1 < n
      · simp [hn]
      · rw [h (w - 1 - n) (by omega), Bool.and_false]
    rw [BitVec.shiftLeft_add, Function.iterate_succ_apply, shift_shiftLeft poly _ hmsb]
    exact ih c fun i hi => h i (by omega)

theorem iterate_shift_xor (n : ℕ) :
    (shift poly)^[n] (c ^^^ d) = (shift poly)^[n] c ^^^ (shift poly)^[n] d := by
  induction n generalizing c d with
  | zero => rfl
  | succ n ih => rw [Function.iterate_succ_apply, shift_xor, ih]; rfl

/-- A message no longer than the register is the same as its bits in the register. -/
theorem serial_eq_iterate (bits : List Bool) (h : bits.length ≤ w) :
    serial poly c bits = (shift poly)^[bits.length] (c ^^^ load w bits) := by
  induction bits generalizing c with
  | nil =>
    rw [load, BitVec.xor_zero]
    rfl
  | cons b bits ih =>
    rw [List.length_cons] at h
    have hmsb : (load w bits).msb = false := by
      rw [BitVec.msb_eq_getLsbD_last, getLsbD_load, List.getD_eq_default _ _ (by omega),
        Bool.and_false]
    have hstep : feed poly c b ^^^ load w bits = shift poly (c ^^^ load w (b :: bits)) := by
      rw [load, ← BitVec.xor_assoc, shift_xor, shift_shiftLeft poly _ hmsb]
      rfl
    rw [serial_cons, ih _ (by omega), hstep, List.length_cons, Function.iterate_succ_apply]

/-- **A burst no longer than the register is not lost**, whatever zeros stand around it. -/
theorem serial_burst_ne_zero (hpoly : poly.msb = true) (before after : ℕ) {burst : List Bool}
    (hlen : burst.length ≤ w) (hone : true ∈ burst) :
    serial poly 0#w (List.replicate before false ++ burst ++ List.replicate after false) ≠ 0#w := by
  have hfix : ∀ n, (shift poly)^[n] 0#w = 0#w := fun n =>
    Function.iterate_fixed (shift_zero poly) n
  have hne : ∀ n c, (shift poly)^[n] c = 0#w → c = 0#w := by
    intro n c h
    rw [← hfix n] at h
    exact (shift_injective poly hpoly).iterate n h
  intro hzero
  rw [serial_append, serial_append, serial_zeros, serial_zeros, hfix,
    serial_eq_iterate _ _ _ hlen, BitVec.zero_xor] at hzero
  have hload := hne _ _ (hne _ _ hzero)
  obtain ⟨i, hi, hbit⟩ := List.getElem_of_mem hone
  have hgetD := getLsbD_load (w := w) burst i
  rw [hload, BitVec.getLsbD_zero, List.getD_eq_getElem _ _ hi, hbit,
    decide_eq_true (Nat.lt_of_lt_of_le hi hlen)] at hgetD
  exact Bool.noConfusion hgetD

theorem zipWith_xor_getElem? (bits bits' : List Bool) (j : ℕ) (h : bits[j]? = bits'[j]?) :
    ∀ b, (List.zipWith xor bits bits')[j]? = some b → b = false := by
  intro b hb
  rw [List.getElem?_zipWith, h] at hb
  cases hj : bits'[j]? with
  | none =>
    rw [hj] at hb
    cases hb
  | some x =>
    rw [hj] at hb
    cases hb
    exact Bool.xor_self x

/-- **Messages that differ in a burst no longer than the register** leave different registers. -/
theorem serial_ne_of_burst (hpoly : poly.msb = true) {bits bits' : List Bool}
    (hlen : bits.length = bits'.length) (hne : bits ≠ bits') (i : ℕ)
    (hsame : ∀ j, ¬ (i ≤ j ∧ j < i + w) → bits[j]? = bits'[j]?) :
    serial poly c bits ≠ serial poly c bits' := by
  intro heq
  have hdiff : serial poly 0#w (List.zipWith xor bits bits') = 0#w := by
    have h := serial_xor poly c c bits bits' hlen
    rwa [BitVec.xor_self, heq, BitVec.xor_self] at h
  have hquiet : ∀ j, ¬ (i ≤ j ∧ j < i + w) → ∀ b,
      (List.zipWith xor bits bits')[j]? = some b → b = false :=
    fun j hj => zipWith_xor_getElem? bits bits' j (hsame j hj)
  have hone : ∃ j : ℕ, (List.zipWith xor bits bits')[j]? = some true := by
    by_contra hno
    refine hne (List.ext_getElem hlen fun j hj hj' => ?_)
    by_contra hbit
    refine hno ⟨j, ?_⟩
    rw [List.getElem?_zipWith, List.getElem?_eq_getElem hj, List.getElem?_eq_getElem hj']
    exact congrArg some (bne_iff_ne.mpr hbit)
  generalize List.zipWith xor bits bits' = diff at hdiff hquiet hone
  have hbefore : diff.take i = List.replicate (diff.take i).length false := by
    refine List.eq_replicate_of_mem fun b hb => ?_
    obtain ⟨j, hj, rfl⟩ := List.getElem_of_mem hb
    have hji : j < i := by
      rw [List.length_take] at hj
      omega
    refine hquiet j (by omega) _ ?_
    rw [← List.getElem?_take_of_lt hji]
    exact List.getElem?_eq_getElem hj
  have hafter : diff.drop (i + w) = List.replicate (diff.drop (i + w)).length false := by
    refine List.eq_replicate_of_mem fun b hb => ?_
    obtain ⟨j, hj, rfl⟩ := List.getElem_of_mem hb
    refine hquiet (i + w + j) (by omega) _ ?_
    rw [← List.getElem?_drop]
    exact List.getElem?_eq_getElem hj
  have hparts : diff = diff.take i ++ (diff.drop i).take w ++ diff.drop (i + w) := by
    rw [List.append_assoc, ← List.drop_drop, List.take_append_drop, List.take_append_drop]
  have hburst : true ∈ (diff.drop i).take w := by
    obtain ⟨j, hj⟩ := hone
    have hji : i ≤ j ∧ j < i + w := by
      by_contra hout
      exact Bool.noConfusion (hquiet j hout true hj)
    refine List.mem_of_getElem? (i := j - i) ?_
    rw [List.getElem?_take_of_lt (by omega), List.getElem?_drop, Nat.add_sub_cancel' hji.1]
    exact hj
  rw [hparts, hbefore, hafter] at hdiff
  exact serial_burst_ne_zero poly hpoly _ _ (List.length_take_le _ _) hburst hdiff

end Rtems.Lib.Crc
