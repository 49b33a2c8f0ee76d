import Rtems.Lib.FixedPoint

/-!
# The converter of the CPU counter

The model of `cpucounterconverter.c`.  Both factors are quotients with 32 bits behind the point.  They
are set for one frequency, and a product with them keeps its 64 lower bits.
-/

namespace Rtems.Counter

open Lib

/-- `to_ns_scaler` and `from_ns_scaler`. -/
structure Converter where
  toNsScaler : UInt64
  fromNsScaler : UInt64
deriving DecidableEq, Repr

/-- `rtems_counter_ticks_to_nanoseconds`. -/
def ticksToNanoseconds (converter : Converter) (counter : UInt32) : UInt64 :=
  ((counter.toUInt64 * converter.toNsScaler) >>> 32).toUInt32.toUInt64

/-- `rtems_counter_nanoseconds_to_ticks`. -/
def nanosecondsToTicks (converter : Converter) (nanoseconds : UInt32) : UInt32 :=
  ((nanoseconds.toUInt64 * converter.fromNsScaler) >>> 32).toUInt32

/-- `rtems_counter_initialize_converter`. -/
def initializeConverter (frequency : UInt32) : Converter :=
  let nsPerS : UInt64 := 1000000000
  { toNsScaler := ((nsPerS <<< 32) + frequency.toUInt64 - 1) / frequency.toUInt64
    fromNsScaler := (((1 : UInt64) <<< 32) * frequency.toUInt64 + nsPerS - 1) / nsPerS }

variable {converter : Converter} {frequency t u : UInt32}

/-! ## The factors -/

theorem toNsScaler_eq (hpos : 0 < frequency.toNat) :
    (initializeConverter frequency).toNsScaler.toNat = scaler 1000000000 frequency.toNat := by
  have hlt := frequency.toNat_lt
  simp only [initializeConverter, scaler, UInt64.toNat_div, UInt64.toNat_sub, UInt64.toNat_add,
    UInt64.toNat_shiftLeft, UInt32.toNat_toUInt64]
  have hns : (1000000000 : UInt64).toNat = 1000000000 := rfl
  have hshift : (32 : UInt64).toNat % 64 = 32 := rfl
  have hone : (1 : UInt64).toNat = 1 := rfl
  rw [hns, hshift, hone, Nat.shiftLeft_eq]
  congr 1
  omega

theorem fromNsScaler_eq :
    (initializeConverter frequency).fromNsScaler.toNat = scaler frequency.toNat 1000000000 := by
  have hlt := frequency.toNat_lt
  simp only [initializeConverter, scaler, UInt64.toNat_div, UInt64.toNat_sub, UInt64.toNat_add,
    UInt64.toNat_mul, UInt64.toNat_shiftLeft, UInt32.toNat_toUInt64]
  have hns : (1000000000 : UInt64).toNat = 1000000000 := rfl
  have hshift : (32 : UInt64).toNat % 64 = 32 := rfl
  have hone : (1 : UInt64).toNat = 1 := rfl
  rw [hns, hshift, hone, Nat.shiftLeft_eq]
  omega

theorem toNsScaler_le (hpos : 0 < frequency.toNat) : scaler 1000000000 frequency.toNat ≤ 2 ^ 62 := by
  have hlt := @scaler_mul_lt 1000000000 _ hpos
  by_contra hgt
  have hmul : (2 ^ 62 + 1) * frequency.toNat ≤ scaler 1000000000 frequency.toNat * frequency.toNat :=
    Nat.mul_le_mul_right _ (Nat.lt_of_not_le hgt)
  omega

theorem fromNsScaler_le (frequency : UInt32) : scaler frequency.toNat 1000000000 ≤ 2 ^ 62 := by
  have hlt := @scaler_mul_lt frequency.toNat _ (by norm_num : 0 < 1000000000)
  have hfrequency := frequency.toNat_lt
  omega

/-- The frequencies at which no number of ticks is too much. -/
theorem toNs_fits_iff (hpos : 0 < frequency.toNat) :
    (2 ^ 32 - 1) * scaler 1000000000 frequency.toNat < 2 ^ 64 ↔ 1000000000 ≤ frequency.toNat := by
  have hle := @le_scaler_mul 1000000000 _ hpos
  have hlt := @scaler_mul_lt 1000000000 _ hpos
  constructor
  · intro hfits
    have hscaler : scaler 1000000000 frequency.toNat ≤ 2 ^ 32 + 1 := by omega
    have hmul : scaler 1000000000 frequency.toNat * frequency.toNat ≤ (2 ^ 32 + 1) * frequency.toNat :=
      Nat.mul_le_mul_right _ hscaler
    omega
  · intro hge
    have hscaler : scaler 1000000000 frequency.toNat ≤ 2 ^ 32 + 1 := by
      by_contra hgt
      have hmul : (2 ^ 32 + 2) * frequency.toNat ≤
          scaler 1000000000 frequency.toNat * frequency.toNat :=
        Nat.mul_le_mul_right _ (Nat.lt_of_not_le hgt)
      omega
    omega

/-- The frequencies at which no number of nanoseconds is too much. -/
theorem fromNs_fits_iff (frequency : UInt32) :
    (2 ^ 32 - 1) * scaler frequency.toNat 1000000000 < 2 ^ 64 ↔ frequency.toNat ≤ 1000000000 := by
  have hle := @le_scaler_mul frequency.toNat _ (by norm_num : 0 < 1000000000)
  have hlt := @scaler_mul_lt frequency.toNat _ (by norm_num : 0 < 1000000000)
  constructor
  · intro hfits
    omega
  · intro hge
    omega

/-! ## The conversions -/

theorem toNat_ticksToNanoseconds (converter : Converter) (t : UInt32) :
    (ticksToNanoseconds converter t).toNat = mulShift converter.toNsScaler.toNat t.toNat := by
  have hshift : (32 : UInt64).toNat % 64 = 32 := rfl
  simp only [ticksToNanoseconds, mulShift, UInt32.toNat_toUInt64, UInt64.toNat_toUInt32,
    UInt64.toNat_shiftRight, UInt64.toNat_mul, hshift, Nat.shiftRight_eq_div_pow]
  omega

theorem toNat_nanosecondsToTicks (converter : Converter) (n : UInt32) :
    (nanosecondsToTicks converter n).toNat = mulShift converter.fromNsScaler.toNat n.toNat := by
  have hshift : (32 : UInt64).toNat % 64 = 32 := rfl
  simp only [nanosecondsToTicks, mulShift, UInt32.toNat_toUInt64, UInt64.toNat_toUInt32,
    UInt64.toNat_shiftRight, UInt64.toNat_mul, hshift, Nat.shiftRight_eq_div_pow]
  omega

/-- A function of numbers of 32 bits that never falls. -/
def Increasing (f : UInt32 → ℕ) : Prop := ∀ t u : UInt32, t ≤ u → f t ≤ f u

theorem increasing_iff {f : UInt32 → ℕ} {s : ℕ} (hf : ∀ t, f t = mulShift s t.toNat)
    (hs : s ≤ 2 ^ 62) : Increasing f ↔ (2 ^ 32 - 1) * s < 2 ^ 64 := by
  rw [← mulShift_mono_iff hs]
  constructor
  · intro hmono t u htu hu
    have ht : (UInt32.ofNat t).toNat = t := UInt32.toNat_ofNat_of_lt' (Nat.lt_of_le_of_lt htu hu)
    have hu : (UInt32.ofNat u).toNat = u := UInt32.toNat_ofNat_of_lt' hu
    have hle := hmono (.ofNat t) (.ofNat u) (by rw [UInt32.le_iff_toNat_le, ht, hu]; exact htu)
    rw [hf, hf, ht, hu] at hle
    exact hle
  · intro hmono t u htu
    rw [hf, hf]
    exact hmono _ _ (UInt32.le_iff_toNat_le.mp htu) u.toNat_lt

/-! ## Exactness -/

/-- The nanoseconds of some ticks are accurate. -/
def NanosecondsAccurate (frequency t : UInt32) : Prop :=
  |((ticksToNanoseconds (initializeConverter frequency) t).toNat : ℚ) -
    t.toNat * 1000000000 / frequency.toNat| < 2

/-- The ticks of some nanoseconds are accurate, where 32 bits suffice for them. -/
def TicksAccurate (frequency n : UInt32) : Prop :=
  (n.toNat * frequency.toNat / 1000000000 : ℚ) < 2 ^ 32 →
    |((nanosecondsToTicks (initializeConverter frequency) n).toNat : ℚ) -
      n.toNat * frequency.toNat / 1000000000| < 2

/-- What is expected of the converter at a frequency. -/
structure Exact (frequency : UInt32) : Prop where
  nanoseconds : ∀ t, NanosecondsAccurate frequency t
  ticks : ∀ n, TicksAccurate frequency n
  nanoseconds_increasing :
    Increasing fun t => (ticksToNanoseconds (initializeConverter frequency) t).toNat
  ticks_increasing :
    Increasing fun n => (nanosecondsToTicks (initializeConverter frequency) n).toNat

theorem nanosecondsAccurate_iff (hpos : 0 < frequency.toNat) (t : UInt32) :
    NanosecondsAccurate frequency t ↔
      t.toNat * (initializeConverter frequency).toNsScaler.toNat < 2 ^ 64 := by
  rw [NanosecondsAccurate, toNat_ticksToNanoseconds, toNsScaler_eq hpos]
  have hclose := @mulShift_close_iff 1000000000 _ _ hpos t.toNat_lt
  push_cast at hclose
  exact hclose

theorem ticksAccurate_iff (frequency n : UInt32) :
    TicksAccurate frequency n ↔
      ((n.toNat * frequency.toNat / 1000000000 : ℚ) < 2 ^ 32 →
        n.toNat * (initializeConverter frequency).fromNsScaler.toNat < 2 ^ 64) := by
  rw [TicksAccurate, toNat_nanosecondsToTicks, fromNsScaler_eq]
  have hclose := @mulShift_close_iff frequency.toNat _ _ (by norm_num : 0 < 1000000000) n.toNat_lt
  push_cast at hclose
  exact imp_congr_right fun _ => hclose

theorem nanoseconds_increasing_iff (hpos : 0 < frequency.toNat) :
    (Increasing fun t => (ticksToNanoseconds (initializeConverter frequency) t).toNat) ↔
      1000000000 ≤ frequency.toNat := by
  rw [← toNs_fits_iff hpos]
  refine increasing_iff (fun t => ?_) (toNsScaler_le hpos)
  rw [toNat_ticksToNanoseconds, toNsScaler_eq hpos]

theorem ticks_increasing_iff (frequency : UInt32) :
    (Increasing fun n => (nanosecondsToTicks (initializeConverter frequency) n).toNat) ↔
      frequency.toNat ≤ 1000000000 := by
  rw [← fromNs_fits_iff frequency]
  refine increasing_iff (fun n => ?_) (fromNsScaler_le frequency)
  rw [toNat_nanosecondsToTicks, fromNsScaler_eq]

/-- No product wraps if the greatest one does not. -/
theorem mul_lt_of_max {s : ℕ} (h : (2 ^ 32 - 1) * s < 2 ^ 64) (t : UInt32) :
    t.toNat * s < 2 ^ 64 := by
  have ht := t.toNat_lt
  calc
    t.toNat * s ≤ (2 ^ 32 - 1) * s := Nat.mul_le_mul_right s (by omega)
    _ < 2 ^ 64 := h

/-- Only a counter that counts nanoseconds is converted exactly in all cases.  Each part of this has a
condition of its own. -/
theorem exact_iff (hpos : 0 < frequency.toNat) :
    (Exact frequency ↔ frequency = 1000000000) ∧
      (∀ t, NanosecondsAccurate frequency t ↔
        t.toNat * (initializeConverter frequency).toNsScaler.toNat < 2 ^ 64) ∧
      (∀ n, TicksAccurate frequency n ↔
        ((n.toNat * frequency.toNat / 1000000000 : ℚ) < 2 ^ 32 →
          n.toNat * (initializeConverter frequency).fromNsScaler.toNat < 2 ^ 64)) ∧
      ((Increasing fun t => (ticksToNanoseconds (initializeConverter frequency) t).toNat) ↔
        1000000000 ≤ frequency.toNat) ∧
      ((Increasing fun n => (nanosecondsToTicks (initializeConverter frequency) n).toNat) ↔
        frequency.toNat ≤ 1000000000) := by
  refine ⟨?_, nanosecondsAccurate_iff hpos, ticksAccurate_iff frequency,
    nanoseconds_increasing_iff hpos, ticks_increasing_iff frequency⟩
  constructor
  · intro hexact
    have hge := (nanoseconds_increasing_iff hpos).mp hexact.nanoseconds_increasing
    have hle := (ticks_increasing_iff frequency).mp hexact.ticks_increasing
    exact UInt32.toNat_inj.mp (Nat.le_antisymm hle hge)
  · intro heq
    have hfrequency : frequency.toNat = 1000000000 := congrArg UInt32.toNat heq
    have hto := (toNs_fits_iff hpos).mpr (Nat.le_of_eq hfrequency.symm)
    have hfrom := (fromNs_fits_iff frequency).mpr (Nat.le_of_eq hfrequency)
    constructor
    · intro t
      rw [nanosecondsAccurate_iff hpos, toNsScaler_eq hpos]
      exact mul_lt_of_max hto t
    · intro n
      rw [ticksAccurate_iff, fromNsScaler_eq]
      exact fun _ => mul_lt_of_max hfrom n
    · exact (nanoseconds_increasing_iff hpos).mpr (Nat.le_of_eq hfrequency.symm)
    · exact (ticks_increasing_iff frequency).mpr (Nat.le_of_eq hfrequency)

/-- A counter of one megahertz. -/
theorem exact_iff_megahertz :
    0 < (1000000 : UInt32).toNat ∧ (Exact 1000000 ↔ (1000000 : UInt32) = 1000000000) :=
  ⟨by decide, (exact_iff (by decide)).1⟩

/-- Five seconds of a counter of one megahertz: what is left of them are seven tenths. -/
theorem exists_not_exact :
    ticksToNanoseconds (initializeConverter 1000000) 5000000 = 705032704 ∧
      ¬ NanosecondsAccurate 1000000 5000000 ∧
      ¬ ∀ frequency : UInt32, 0 < frequency.toNat → Exact frequency := by
  have hvalue : ticksToNanoseconds (initializeConverter 1000000) 5000000 = 705032704 := by decide
  have hwrong : ¬ NanosecondsAccurate 1000000 5000000 := by
    rw [nanosecondsAccurate_iff (by decide)]
    decide
  exact ⟨hvalue, hwrong, fun h => hwrong ((h 1000000 (by decide)).nanoseconds 5000000)⟩

end Rtems.Counter
