import Mathlib

/-!
# Fixed-point factors

A quotient as a number with 32 bits behind the point, rounded up, and its product with a number of
32 bits.  The product is one of 64 bits: it is either close to the exact one or it has wrapped.
-/

namespace Rtems.Lib

variable {num den s t u : ℕ}

/-- The quotient with 32 bits behind the point, rounded up. -/
def scaler (num den : ℕ) : ℕ := (num * 2 ^ 32 + den - 1) / den

/-- The integer part of a product of 64 bits. -/
def mulShift (s t : ℕ) : ℕ := t * s % 2 ^ 64 / 2 ^ 32

theorem le_scaler_mul (hden : 0 < den) : num * 2 ^ 32 ≤ scaler num den * den := by
  have hlt := Nat.lt_div_mul_add hden (a := num * 2 ^ 32 + den - 1)
  change num * 2 ^ 32 + den - 1 < scaler num den * den + den at hlt
  omega

theorem scaler_mul_lt (hden : 0 < den) : scaler num den * den < num * 2 ^ 32 + den := by
  have hle : scaler num den * den ≤ num * 2 ^ 32 + den - 1 := Nat.div_mul_le_self _ _
  omega

/-! ## Accuracy -/

/-- The exact product is between the one with the factor and one unit less. -/
theorem scaler_bounds (hden : 0 < den) (ht : t < 2 ^ 32) :
    (t * num / den : ℚ) ≤ t * scaler num den / 2 ^ 32 ∧
      (t * scaler num den / 2 ^ 32 : ℚ) < t * num / den + 1 := by
  have hq : (0 : ℚ) < den := by exact_mod_cast hden
  have hle : (num * 2 ^ 32 : ℚ) ≤ scaler num den * den := by exact_mod_cast le_scaler_mul hden
  have hlt : (scaler num den * den : ℚ) < num * 2 ^ 32 + den := by exact_mod_cast scaler_mul_lt hden
  have hpos : (0 : ℚ) ≤ t := Nat.cast_nonneg t
  have hbound : (t : ℚ) < 2 ^ 32 := by exact_mod_cast ht
  constructor
  · rw [div_le_div_iff₀ hq (by norm_num)]
    calc
      (t * num * 2 ^ 32 : ℚ) = t * (num * 2 ^ 32) := by ring
      _ ≤ t * (scaler num den * den) := by gcongr
      _ = t * scaler num den * den := by ring
  · have hsum : (t * num / den + 1 : ℚ) = (t * num + den) / den := by
      rw [add_div, div_self (ne_of_gt hq)]
    rw [hsum, div_lt_div_iff₀ (by norm_num) hq]
    calc
      (t * scaler num den * den : ℚ) = t * (scaler num den * den) := by ring
      _ ≤ t * (num * 2 ^ 32 + den) := by gcongr
      _ = t * num * 2 ^ 32 + t * den := by ring
      _ < t * num * 2 ^ 32 + 2 ^ 32 * den := by gcongr
      _ = (t * num + den) * 2 ^ 32 := by ring

theorem mulShift_of_lt (h : t * s < 2 ^ 64) :
    (mulShift s t : ℚ) ≤ t * s / 2 ^ 32 ∧ (t * s / 2 ^ 32 : ℚ) < mulShift s t + 1 := by
  have heq : mulShift s t = t * s / 2 ^ 32 := by rw [mulShift, Nat.mod_eq_of_lt h]
  have hle : (mulShift s t * 4294967296 : ℚ) ≤ t * s := by
    have hnat : mulShift s t * 4294967296 ≤ t * s := by omega
    exact_mod_cast hnat
  have hlt : (t * s : ℚ) < (mulShift s t + 1) * 4294967296 := by
    have hnat : t * s < (mulShift s t + 1) * 4294967296 := by omega
    exact_mod_cast hnat
  rw [le_div_iff₀ (by norm_num), div_lt_iff₀ (by norm_num)]
  norm_num
  exact ⟨hle, hlt⟩

/-- A product that wraps loses much more than the rounding adds. -/
theorem mulShift_of_le (h : 2 ^ 64 ≤ t * s) : (mulShift s t : ℚ) + 3 ≤ t * s / 2 ^ 32 := by
  have hle : ((mulShift s t : ℚ) + 3) * 4294967296 ≤ t * s := by
    have hnat : (mulShift s t + 3) * 4294967296 ≤ t * s := by
      rw [mulShift]
      omega
    exact_mod_cast hnat
  rw [le_div_iff₀ (by norm_num)]
  norm_num
  exact hle

/-- A product is accurate unless it wraps. -/
theorem mulShift_close_iff (hden : 0 < den) (ht : t < 2 ^ 32) :
    |(mulShift (scaler num den) t : ℚ) - t * num / den| < 2 ↔ t * scaler num den < 2 ^ 64 := by
  obtain ⟨hlow, hhigh⟩ := @scaler_bounds num _ _ hden ht
  rw [abs_lt]
  constructor
  · intro hclose
    by_contra hwraps
    have hloss := mulShift_of_le (Nat.le_of_not_lt hwraps)
    linarith [hclose.1]
  · intro hfits
    obtain ⟨hle, hlt⟩ := mulShift_of_lt hfits
    constructor <;> linarith

/-! ## Order -/

theorem mulShift_mono (hu : u * s < 2 ^ 64) (h : t ≤ u) : mulShift s t ≤ mulShift s u := by
  have hle : t * s ≤ u * s := Nat.mul_le_mul_right s h
  rw [mulShift, mulShift, Nat.mod_eq_of_lt hu, Nat.mod_eq_of_lt (by omega)]
  exact Nat.div_le_div_right hle

/-- The first product that wraps is smaller than the one before it. -/
theorem exists_mulShift_lt (hs : s ≤ 2 ^ 62) (h : 2 ^ 64 ≤ u * s) :
    ∃ t < u, mulShift s (t + 1) < mulShift s t := by
  induction u with
  | zero => omega
  | succ u ih =>
    by_cases hwraps : 2 ^ 64 ≤ u * s
    · obtain ⟨t, ht, hlt⟩ := ih hwraps
      exact ⟨t, by omega, hlt⟩
    · refine ⟨u, by omega, ?_⟩
      have hsum : (u + 1) * s = u * s + s := Nat.succ_mul u s
      rw [hsum] at h
      have hmod : (u + 1) * s % 2 ^ 64 = u * s + s - 2 ^ 64 := by omega
      rw [mulShift, mulShift, hmod, Nat.mod_eq_of_lt (by omega)]
      omega

/-- The products grow with the number unless the greatest one wraps. -/
theorem mulShift_mono_iff (hs : s ≤ 2 ^ 62) :
    (∀ t u, t ≤ u → u < 2 ^ 32 → mulShift s t ≤ mulShift s u) ↔ (2 ^ 32 - 1) * s < 2 ^ 64 := by
  constructor
  · intro hmono
    by_contra hwraps
    obtain ⟨t, ht, hlt⟩ := exists_mulShift_lt hs (Nat.le_of_not_lt hwraps)
    have hle := hmono t (t + 1) (by omega) (by omega)
    omega
  · intro hfits t u htu hu
    refine mulShift_mono ?_ htu
    calc
      u * s ≤ (2 ^ 32 - 1) * s := Nat.mul_le_mul_right s (by omega)
      _ < 2 ^ 64 := hfits

end Rtems.Lib
