import Mathlib

/-!
# Circular buffers

A circular buffer is a function from positions to cells, of which those below
its size count.  `window` is what stands in a number of cells from a position
on, and `span` is the number of cells from one position to another.
-/

namespace Rtems.Lib

variable {α : Type*}

/-- The contents of `count` cells from `first` on. -/
def window (buf : Nat → α) (size first count : Nat) : List α :=
  (List.range count).map fun i => buf ((first + i) % size)

/-- The number of cells from `first` up to `last`, which is not counted. -/
def span (size first last : Nat) : Nat := (last + size - first) % size

variable {buf buf' : Nat → α} {size first last m n k : Nat}

/-! ## Positions -/

/-- A position that has gone round at most once. -/
theorem mod_wrap {x : Nat} (h : x < 2 * size) : x % size = if x < size then x else x - size := by
  split
  next hlt => exact Nat.mod_eq_of_lt hlt
  next hge =>
    rw [Nat.mod_eq_sub_mod (Nat.le_of_not_lt hge)]
    exact Nat.mod_eq_of_lt (by omega)

theorem offset_inj {i j : Nat} (hfirst : first < size) (hi : i < size) (hj : j < size)
    (h : (first + i) % size = (first + j) % size) : i = j := by
  rw [mod_wrap (by omega), mod_wrap (by omega)] at h
  split at h <;> split at h <;> omega

theorem span_lt (hsize : 0 < size) : span size first last < size := Nat.mod_lt _ hsize

@[simp] theorem span_self : span size first first = 0 := by
  unfold span
  rw [Nat.add_sub_cancel_left, Nat.mod_self]

/-- The span leads from the first position to the last. -/
theorem add_span (hfirst : first < size) (hlast : last < size) :
    (first + span size first last) % size = last := by
  unfold span
  have hspan : (last + size - first) % size =
      if last + size - first < size then last + size - first else last + size - first - size :=
    mod_wrap (by omega)
  rw [hspan, mod_wrap (by split <;> omega)]
  split <;> split <;> omega

/-- A position that is reached by fewer steps than the size has these as its
span. -/
theorem span_offset (hfirst : first < size) (hk : k < size) :
    span size first ((first + k) % size) = k := by
  have hlast : (first + k) % size < size := Nat.mod_lt _ (by omega)
  refine offset_inj hfirst (span_lt (by omega)) hk ?_
  exact add_span hfirst hlast

theorem span_eq_zero (hfirst : first < size) (hlast : last < size) :
    span size first last = 0 ↔ first = last := by
  constructor
  · intro h
    have hlead := add_span hfirst hlast
    rwa [h, Nat.add_zero, Nat.mod_eq_of_lt hfirst] at hlead
  · rintro rfl
    exact span_self

theorem offset_offset : ((first + m) % size + n) % size = (first + (m + n)) % size := by
  rw [Nat.mod_add_mod, Nat.add_assoc]

/-- The span grows with its end. -/
theorem span_succ_last (hfirst : first < size) (hlast : last < size)
    (hroom : span size first last + n < size) :
    span size first ((last + n) % size) = span size first last + n := by
  have hlead := add_span hfirst hlast
  rw [← hlead, offset_offset, hlead]
  exact span_offset hfirst hroom

/-- The span shrinks when its start moves on. -/
theorem span_succ_first (hfirst : first < size) (hlast : last < size)
    (hk : k ≤ span size first last) :
    span size ((first + k) % size) last = span size first last - k := by
  have hsize : 0 < size := by omega
  have hspan : span size first last < size := span_lt hsize
  have hmove : (first + k) % size < size := Nat.mod_lt _ hsize
  have hlead : ((first + k) % size + (span size first last - k)) % size = last := by
    rw [offset_offset, Nat.add_sub_cancel' hk]
    exact add_span hfirst hlast
  refine offset_inj hmove (span_lt hsize) (by omega) ?_
  rw [hlead]
  exact add_span hmove hlast

/-- There is room for one more cell unless the end would meet the start. -/
theorem span_succ_lt (hfirst : first < size) (hlast : last < size)
    (hne : (last + 1) % size ≠ first) : span size first last + 1 < size := by
  have hspan : span size first last < size := span_lt (by omega)
  by_contra hfull
  have heq : span size first last + 1 = size := by omega
  have hlead := add_span hfirst hlast
  apply hne
  rw [← hlead, offset_offset, heq, Nat.add_mod_right, Nat.mod_eq_of_lt hfirst]

/-- The span is full when the end would meet the start. -/
theorem span_full (hfirst : first < size) (hlast : last < size)
    (heq : (last + 1) % size = first) : span size first last = size - 1 := by
  have hspan : span size first last < size := span_lt (by omega)
  by_contra hne
  have hroom : span size first last + 1 < size := by omega
  have hsucc := span_succ_last hfirst hlast hroom
  rw [heq, span_self] at hsucc
  exact Nat.succ_ne_zero _ hsucc.symm

/-! ## Contents -/

@[simp] theorem length_window : (window buf size first n).length = n := by
  simp [window]

@[simp] theorem window_zero : window buf size first 0 = [] := rfl

theorem window_succ : window buf size first (n + 1) =
    window buf size first n ++ [buf ((first + n) % size)] := by
  simp [window, List.range_succ]

/-- A window in two parts. -/
theorem window_add : window buf size first (m + n) =
    window buf size first m ++ window buf size ((first + m) % size) n := by
  induction n with
  | zero => simp
  | succ n ih => rw [← Nat.add_assoc, window_succ, window_succ, ih, List.append_assoc, offset_offset]

/-- The first cell of a window and the rest of it. -/
theorem window_cons (hfirst : first < size) : window buf size first (n + 1) =
    buf first :: window buf size ((first + 1) % size) n := by
  rw [Nat.add_comm n 1, window_add, window_succ]
  simp [Nat.mod_eq_of_lt hfirst]

theorem window_congr (h : ∀ i < n, buf ((first + i) % size) = buf' ((first + i) % size)) :
    window buf size first n = window buf' size first n := by
  unfold window
  refine List.map_congr_left ?_
  intro i hi
  exact h i (List.mem_range.mp hi)

/-- A write behind the window does not show in it. -/
theorem window_update (hfirst : first < size) (hk : k < size) (hnk : n ≤ k) (a : α) :
    window (Function.update buf ((first + k) % size) a) size first n =
      window buf size first n := by
  refine window_congr ?_
  intro i hi
  refine Function.update_of_ne ?_ _ _
  intro heq
  have hik := offset_inj hfirst (by omega) hk heq
  omega

/-- A cell written right behind the window extends it. -/
theorem window_push (hfirst : first < size) (hn : n < size) (a : α) :
    window (Function.update buf ((first + n) % size) a) size first (n + 1) =
      window buf size first n ++ [a] := by
  rw [window_succ, window_update hfirst hn (Nat.le_refl n), Function.update_self]

/-- Cells in a row that do not reach the end of the buffer. -/
theorem window_row (hrow : first + n ≤ size) :
    window buf size first n = (List.range n).map fun i => buf (first + i) := by
  unfold window
  refine List.map_congr_left ?_
  intro i hi
  have hlt := List.mem_range.mp hi
  rw [Nat.mod_eq_of_lt (by omega)]

end Rtems.Lib
