import Mathlib

/-!
# Words of 32 bits

Numbers that are added and subtracted as a processor does it, and numbers that
are aligned.  Most sums do not leave the word, and then they are sums of
numbers.
-/

namespace Rtems.Lib

variable {a b c n : ℕ}

def add32 (a b : ℕ) : ℕ := (a + b) % 2 ^ 32

def sub32 (a b : ℕ) : ℕ := (2 ^ 32 - b + a) % 2 ^ 32

theorem add32_of_lt (h : a + b < 2 ^ 32) : add32 a b = a + b := Nat.mod_eq_of_lt h

theorem sub32_of_le (hb : b ≤ a) (ha : a < 2 ^ 32) : sub32 a b = a - b := by
  have hsum : 2 ^ 32 - b + a = (a - b) + 2 ^ 32 := by omega
  rw [sub32, hsum, Nat.add_mod_right]
  exact Nat.mod_eq_of_lt (by omega)

theorem sub32_of_lt (ha : a < b) (hb : b ≤ 2 ^ 32) : sub32 a b = 2 ^ 32 - b + a :=
  Nat.mod_eq_of_lt (by omega)

theorem add32_lt (a b : ℕ) : add32 a b < 2 ^ 32 := Nat.mod_lt _ (by decide)

theorem sub32_lt (a b : ℕ) : sub32 a b < 2 ^ 32 := Nat.mod_lt _ (by decide)

/-- The numbers between two multiples. -/
theorem dvd_add_le (ha : n ∣ a) (hb : n ∣ b) (h : a < b) : a + n ≤ b := by
  obtain ⟨i, rfl⟩ := ha
  obtain ⟨j, rfl⟩ := hb
  have hij : i < j := Nat.lt_of_mul_lt_mul_left h
  calc
    n * i + n = n * (i + 1) := (Nat.mul_succ n i).symm
    _ ≤ n * j := Nat.mul_le_mul_left n hij

end Rtems.Lib
