import Mathlib.Data.List.Range
import Rtems.FlashDisk.Model

/-!
# The NAND driver

The blank check of the driver in `nand_ftl.h`.  It reads the area into a buffer and goes through
the buffer with a counter that runs over the addresses of the area, so it looks at the places of
the buffer only if the area is at address zero.
-/

namespace Rtems.FlashDisk

/-- `rtems_fdisk_segment_desc`. -/
structure SegmentDesc where
  count : ℕ
  segment : ℕ
  offset : ℕ
  size : ℕ
deriving DecidableEq, Repr

/-- `get_linear_offset`. -/
def getLinearOffset (sd : SegmentDesc) (segment offset : ℕ) : ℕ :=
  (offset + (sd.offset + (segment + 2 ^ 32 - sd.segment) % 2 ^ 32 * sd.size)) % 2 ^ 32

/-- The platform behind the driver. -/
structure Platform where
  /-- `malloc`: the memory from the address of the buffer on, as it is found. -/
  malloc : ℕ → Option (ℕ → BitVec 8)
  /-- `platform_device_read` gives `Platform_EOK` for this address and size. -/
  deviceRead : ℕ → ℕ → Bool
  /-- The contents of the device. -/
  flash : ℕ → BitVec 8

/-- The loop of `flashdisk_blank` up to the address `stop`, with a number of turns: the code, and
the places it looks at, counted from the address of the buffer. -/
def blankLoop (tmp : ℕ → BitVec 8) (stop : ℕ) : ℕ → ℕ → Option (ℕ × List ℕ)
  | 0, _ => none
  | turns + 1, current =>
    if current = stop then some (0, [])
    else if tmp current ≠ 0xff#8 then some (eio, [current])
    else do
      let (eno, seen) ← blankLoop tmp stop turns ((current + 1) % 2 ^ 32)
      some (eno, current :: seen)

/-- `flashdisk_blank`. -/
def flashdiskBlank (p : Platform) (turns : ℕ) (sd : SegmentDesc) (segment offset size : ℕ) :
    Option (ℕ × List ℕ) :=
  match p.malloc size with
  | none => some (eio, [])
  | some memory =>
    let current := getLinearOffset sd segment offset
    if p.deviceRead current size then
      let tmp := fun i => if i < size then p.flash (current + i) else memory i
      blankLoop tmp ((current + size) % 2 ^ 32) turns current
    else some (eio, [])

/-! ## The loop -/

section

variable {tmp : ℕ → BitVec 8} {n k turns current : ℕ}

theorem add_mod_ne (hn : n < 2 ^ 32) (hpos : 0 < n) : current ≠ (current + n) % 2 ^ 32 := by
  omega

/-- The places of `n` turns. -/
def places (current n : ℕ) : List ℕ := (List.range n).map fun i => (current + i) % 2 ^ 32

theorem mem_places {i : ℕ} : i ∈ places current n ↔ ∃ j < n, (current + j) % 2 ^ 32 = i := by
  unfold places
  rw [List.mem_map]
  simp only [List.mem_range]

theorem places_succ (hcurrent : current < 2 ^ 32) :
    places current (n + 1) = current :: places ((current + 1) % 2 ^ 32) n := by
  unfold places
  rw [List.range_succ_eq_map, List.map_cons, List.map_map, Nat.add_zero, Nat.mod_eq_of_lt hcurrent]
  congr 1
  refine List.map_congr_left fun i _ => ?_
  simp only [Function.comp_apply]
  omega

/-- All bytes from the counter up to the end are blank. -/
theorem blankLoop_blank (hn : n < 2 ^ 32) (hcurrent : current < 2 ^ 32) (hturns : n < turns)
    (hblank : ∀ i ∈ places current n, tmp i = 0xff#8) :
    blankLoop tmp ((current + n) % 2 ^ 32) turns current = some (0, places current n) := by
  induction n generalizing current turns with
  | zero =>
    obtain ⟨turns, rfl⟩ := Nat.exists_eq_succ_of_ne_zero (Nat.ne_of_gt hturns)
    rw [blankLoop, if_pos (by omega)]
    rfl
  | succ n ih =>
    obtain ⟨turns, rfl⟩ := Nat.exists_eq_succ_of_ne_zero (by omega : turns ≠ 0)
    rw [places_succ hcurrent] at hblank ⊢
    have hstop : (current + (n + 1)) % 2 ^ 32 = ((current + 1) % 2 ^ 32 + n) % 2 ^ 32 := by omega
    have hfirst : ¬ tmp current ≠ 0xff#8 := fun h => h (hblank current List.mem_cons_self)
    rw [blankLoop, if_neg (add_mod_ne hn (Nat.succ_pos n)), if_neg hfirst, hstop,
      ih (by omega) (Nat.mod_lt _ (by omega)) (by omega)
        fun i hi => hblank i (List.mem_cons_of_mem _ hi)]
    rfl

/-- The byte after `k` blank ones is not blank. -/
theorem blankLoop_found (hk : k < n) (hn : n < 2 ^ 32) (hcurrent : current < 2 ^ 32)
    (hturns : k < turns) (hblank : ∀ i ∈ places current k, tmp i = 0xff#8)
    (hfound : tmp ((current + k) % 2 ^ 32) ≠ 0xff#8) :
    blankLoop tmp ((current + n) % 2 ^ 32) turns current = some (eio, places current (k + 1)) := by
  induction k generalizing current turns n with
  | zero =>
    obtain ⟨turns, rfl⟩ := Nat.exists_eq_succ_of_ne_zero (Nat.ne_of_gt hturns)
    rw [Nat.add_zero, Nat.mod_eq_of_lt hcurrent] at hfound
    rw [blankLoop, if_neg (add_mod_ne hn hk), if_pos hfound, places_succ hcurrent]
    rfl
  | succ k ih =>
    obtain ⟨turns, rfl⟩ := Nat.exists_eq_succ_of_ne_zero (by omega : turns ≠ 0)
    obtain ⟨n, rfl⟩ := Nat.exists_eq_succ_of_ne_zero (by omega : n ≠ 0)
    rw [places_succ hcurrent] at hblank
    have hstop : (current + (n + 1)) % 2 ^ 32 = ((current + 1) % 2 ^ 32 + n) % 2 ^ 32 := by omega
    have hnext : (current + (k + 1)) % 2 ^ 32 = ((current + 1) % 2 ^ 32 + k) % 2 ^ 32 := by omega
    have hfirst : ¬ tmp current ≠ 0xff#8 := fun h => h (hblank current List.mem_cons_self)
    rw [hnext] at hfound
    rw [blankLoop, if_neg (add_mod_ne hn (Nat.succ_pos n)), if_neg hfirst, hstop,
      ih (Nat.lt_of_succ_lt_succ hk) (by omega) (Nat.mod_lt _ (by omega)) (by omega)
        (fun i hi => hblank i (List.mem_cons_of_mem _ hi)) hfound, places_succ hcurrent]
    rfl

end

/-! ## The check -/

/-- The blank check says if the area is blank, and looks at the buffer only. -/
def BlankChecked (p : Platform) (turns : ℕ) (sd : SegmentDesc) (segment offset size : ℕ) : Prop :=
  ∃ eno seen, flashdiskBlank p turns sd segment offset size = some (eno, seen) ∧
    (eno = 0 ↔ ∀ i < size, p.flash (getLinearOffset sd segment offset + i) = 0xff#8) ∧
    ∀ i ∈ seen, i < size

theorem getLinearOffset_lt (sd : SegmentDesc) (segment offset : ℕ) :
    getLinearOffset sd segment offset < 2 ^ 32 :=
  Nat.mod_lt _ (by omega)

/-- A loop that starts inside the buffer and makes this many turns looks behind it. -/
theorem size_mem_places {current size n : ℕ} (hlt : current < size) (hsize : size < 2 ^ 32)
    (hn : size ≤ current + n) : size ∈ places current (n + 1) := by
  refine mem_places.mpr ⟨size - current, by omega, ?_⟩
  rw [Nat.add_sub_cancel' (Nat.le_of_lt hlt), Nat.mod_eq_of_lt hsize]

/-- **The blank check is right** if the area is at address zero or is empty, or if the part of the
buffer from the address of the area on is there and has a byte that is not blank. -/
theorem blank_check (p : Platform) (turns : ℕ) (sd : SegmentDesc) (segment offset size : ℕ)
    (hsize : size < 2 ^ 32) (hmalloc : p.malloc size ≠ none)
    (hread : p.deviceRead (getLinearOffset sd segment offset) size = true) (hturns : size < turns) :
    BlankChecked p turns sd segment offset size ↔
      getLinearOffset sd segment offset = 0 ∨ size = 0 ∨
      (getLinearOffset sd segment offset < size ∧
        ∃ i, getLinearOffset sd segment offset ≤ i ∧ i < size ∧
          p.flash (getLinearOffset sd segment offset + i) ≠ 0xff#8) := by
  obtain ⟨memory, hmemory⟩ := Option.ne_none_iff_exists'.mp hmalloc
  have hlt := getLinearOffset_lt sd segment offset
  unfold BlankChecked flashdiskBlank
  simp only [hmemory, hread, if_true]
  generalize getLinearOffset sd segment offset = current at hlt ⊢
  generalize htmp : (fun i => if i < size then p.flash (current + i) else memory i) = tmp
  have hbuffer : ∀ i < size, tmp i = p.flash (current + i) := by
    intro i hi
    rw [← htmp]
    exact if_pos hi
  by_cases hall : ∀ i ∈ places current size, tmp i = 0xff#8
  · rw [blankLoop_blank hsize hlt hturns hall]
    constructor
    · rintro ⟨eno, seen, hresult, -, hseen⟩
      cases hresult
      by_contra hno
      rw [not_or, not_or] at hno
      have hfirst := hseen current (mem_places.mpr ⟨0, by omega, by omega⟩)
      obtain ⟨n, rfl⟩ := Nat.exists_eq_succ_of_ne_zero hno.2.1
      exact Nat.lt_irrefl _ (hseen _ (size_mem_places hfirst hsize (by omega)))
    · intro hcond
      refine ⟨0, places current size, rfl, ?_, ?_⟩
      · refine iff_of_true rfl fun i hi => ?_
        rcases hcond with rfl | rfl | ⟨hlow, j, hj, hjs, hbyte⟩
        · rw [← hbuffer i hi]
          exact hall i (mem_places.mpr ⟨i, hi, by omega⟩)
        · exact absurd hi (Nat.not_lt_zero i)
        · rw [← hbuffer j hjs] at hbyte
          exact absurd (hall j (mem_places.mpr ⟨j - current, by omega, by omega⟩)) hbyte
      · intro i hi
        obtain ⟨j, hj, rfl⟩ := mem_places.mp hi
        rcases hcond with rfl | rfl | ⟨hlow, k, hk, hks, hbyte⟩
        · omega
        · exact absurd hj (Nat.not_lt_zero j)
        · rw [← hbuffer k hks] at hbyte
          exact absurd (hall k (mem_places.mpr ⟨k - current, by omega, by omega⟩)) hbyte
  · have hexists : ∃ k, k < size ∧ tmp ((current + k) % 2 ^ 32) ≠ 0xff#8 := by
      by_contra hno
      refine hall fun i hi => ?_
      obtain ⟨k, hk, rfl⟩ := mem_places.mp hi
      by_contra hbyte
      exact hno ⟨k, hk, hbyte⟩
    obtain ⟨k, ⟨hk, hfound⟩, hfirst⟩ : ∃ k, (k < size ∧ tmp ((current + k) % 2 ^ 32) ≠ 0xff#8) ∧
        ∀ j < k, ¬ (j < size ∧ tmp ((current + j) % 2 ^ 32) ≠ 0xff#8) :=
      ⟨Nat.find hexists, Nat.find_spec hexists, fun j hj => Nat.find_min hexists hj⟩
    have hblank : ∀ i ∈ places current k, tmp i = 0xff#8 := by
      intro i hi
      obtain ⟨j, hj, rfl⟩ := mem_places.mp hi
      by_contra hbyte
      exact hfirst j hj ⟨Nat.lt_trans hj hk, hbyte⟩
    rw [blankLoop_found hk hsize hlt (by omega) hblank hfound]
    constructor
    · rintro ⟨eno, seen, hresult, -, hseen⟩
      cases hresult
      by_contra hno
      rw [not_or, not_or] at hno
      have hlow := hseen current (mem_places.mpr ⟨0, by omega, by omega⟩)
      have hlast := hseen _ (mem_places.mpr ⟨k, Nat.lt_succ_self k, rfl⟩)
      have hend : current + k < size := by
        by_contra hbeyond
        exact Nat.lt_irrefl _
          (hseen _ (size_mem_places hlow hsize (Nat.le_of_not_lt hbeyond)))
      rw [Nat.mod_eq_of_lt (by omega), hbuffer _ hend] at hfound
      exact hno.2.2 ⟨hlow, current + k, Nat.le_add_right _ _, hend, hfound⟩
    · intro hcond
      have hend : current + k < size ∧ ∃ i < size, p.flash (current + i) ≠ 0xff#8 := by
        rcases hcond with rfl | rfl | ⟨hlow, j, hj, hjs, hbyte⟩
        · rw [Nat.zero_add, Nat.mod_eq_of_lt (by omega), hbuffer k hk] at hfound
          exact ⟨by omega, k, hk, hfound⟩
        · exact absurd hk (Nat.not_lt_zero k)
        · refine ⟨?_, j, hjs, hbyte⟩
          by_contra hbeyond
          refine hfirst (j - current) (by omega) ⟨by omega, ?_⟩
          rw [Nat.add_sub_cancel' hj, Nat.mod_eq_of_lt (by omega), hbuffer j hjs]
          exact hbyte
      obtain ⟨hend, i, hi, hbyte⟩ := hend
      refine ⟨eio, places current (k + 1), rfl, iff_of_false (by decide) ?_, ?_⟩
      · exact fun hblank => hbyte (hblank i hi)
      · intro x hx
        obtain ⟨j, hj, rfl⟩ := mem_places.mp hx
        omega

/-- A device that is blank, and memory that is not. -/
def blankDevice : Platform where
  malloc _ := some fun _ => 0#8
  deviceRead _ _ := true
  flash _ := 0xff#8

theorem blank_check_zero : BlankChecked blankDevice 3 ⟨1, 0, 0, 2⟩ 0 0 2 :=
  (blank_check blankDevice 3 ⟨1, 0, 0, 2⟩ 0 0 2 (by decide) (by decide) rfl (by decide)).mpr
    (.inl (by decide))

/-- Two bytes at address two: the loop looks at the memory behind the buffer. -/
theorem blank_check_behind : ¬ ∀ (p : Platform) (turns : ℕ) (sd : SegmentDesc)
    (segment offset size : ℕ), size < 2 ^ 32 → p.malloc size ≠ none →
      p.deviceRead (getLinearOffset sd segment offset) size = true → size < turns →
      BlankChecked p turns sd segment offset size := by
  intro hall
  obtain ⟨eno, seen, hresult, -, hseen⟩ :=
    hall blankDevice 3 ⟨1, 0, 2, 2⟩ 0 0 2 (by decide) (by decide) rfl (by decide)
  have hvalue : flashdiskBlank blankDevice 3 ⟨1, 0, 2, 2⟩ 0 0 2 = some (eio, [2]) := by
    decide +kernel
  rw [hvalue] at hresult
  cases hresult
  exact absurd (hseen 2 List.mem_cons_self) (Nat.lt_irrefl 2)

end Rtems.FlashDisk
