import Mathlib

/-!
# Tilings of an interval

A list of pieces, each with its begin and its size, tiles the interval from `lo` to `hi`: the first
piece begins at `lo`, each piece begins where the one before it ends, and the last one ends at `hi`.
A piece that is split in two, or two neighbours that are joined, leave a tiling behind.
-/

namespace Rtems.Lib

variable {α : Type*} {b b' s s' : α → ℕ} {lo mid hi : ℕ} {l r : List α} {a c : α}

/-- The pieces of the list tile the interval, none of them empty. -/
def Tiles (b s : α → ℕ) : ℕ → ℕ → List α → Prop
  | lo, hi, [] => lo = hi
  | lo, hi, a :: l => b a = lo ∧ 0 < s a ∧ Tiles b s (lo + s a) hi l

theorem tiles_cons : Tiles b s lo hi (a :: l) ↔ b a = lo ∧ 0 < s a ∧ Tiles b s (lo + s a) hi l :=
  Iff.rfl

theorem Tiles.le (h : Tiles b s lo hi l) : lo ≤ hi := by
  induction l generalizing lo with
  | nil => exact Nat.le_of_eq h
  | cons a l ih =>
    have := ih h.2.2
    omega

theorem tiles_append :
    Tiles b s lo hi (l ++ r) ↔ ∃ mid, Tiles b s lo mid l ∧ Tiles b s mid hi r := by
  induction l generalizing lo with
  | nil => exact ⟨fun h => ⟨lo, rfl, h⟩, fun ⟨_, e, h⟩ => (show lo = _ from e) ▸ h⟩
  | cons a l ih =>
    rw [List.cons_append, tiles_cons, ih]
    constructor
    · rintro ⟨hb, hs, mid, hl, hr⟩
      exact ⟨mid, ⟨hb, hs, hl⟩, hr⟩
    · rintro ⟨mid, ⟨hb, hs, hl⟩, hr⟩
      exact ⟨hb, hs, mid, hl, hr⟩

/-- A piece lies in the interval. -/
theorem Tiles.mem (h : Tiles b s lo hi l) (ha : a ∈ l) : lo ≤ b a ∧ 0 < s a ∧ b a + s a ≤ hi := by
  induction l generalizing lo with
  | nil => cases ha
  | cons c l ih =>
    obtain ⟨h1, h2, h3⟩ := h
    rcases List.mem_cons.mp ha with rfl | ha
    · have := h3.le
      omega
    · have := ih h3 ha
      omega

/-- The begins and the end keep their distance from the multiples of what divides the sizes. -/
theorem Tiles.dvd_add {n k : ℕ} (h : Tiles b s lo hi l) (hs : ∀ a ∈ l, n ∣ s a) (hlo : n ∣ lo + k) :
    (∀ a ∈ l, n ∣ b a + k) ∧ n ∣ hi + k := by
  induction l generalizing lo with
  | nil =>
    have hend : lo = hi := h
    exact ⟨by simp, hend ▸ hlo⟩
  | cons c l ih =>
    obtain ⟨h1, -, h3⟩ := h
    have hnext : n ∣ lo + s c + k := by
      have hsum := Nat.dvd_add hlo (hs c List.mem_cons_self)
      rwa [Nat.add_right_comm] at hsum
    obtain ⟨hall, hend⟩ := ih h3 (fun x hx => hs x (List.mem_cons_of_mem c hx)) hnext
    refine ⟨?_, hend⟩
    intro x hx
    rcases List.mem_cons.mp hx with rfl | hx
    · exact h1 ▸ hlo
    · exact hall x hx

/-- The pieces are in the order of their begins and do not overlap. -/
theorem Tiles.pairwise (h : Tiles b s lo hi l) : l.Pairwise fun a c => b a + s a ≤ b c := by
  induction l generalizing lo with
  | nil => exact List.Pairwise.nil
  | cons a l ih =>
    obtain ⟨h1, h2, h3⟩ := h
    refine List.Pairwise.cons ?_ (ih h3)
    intro c hc
    have := h3.mem hc
    omega

/-- Two pieces of a tiling are the same or do not overlap. -/
theorem Tiles.disjoint (h : Tiles b s lo hi l) (ha : a ∈ l) (hc : c ∈ l) :
    a = c ∨ b a + s a ≤ b c ∨ b c + s c ≤ b a := by
  induction l generalizing lo with
  | nil => cases ha
  | cons e l ih =>
    obtain ⟨h1, h2, h3⟩ := h
    rcases List.mem_cons.mp ha with rfl | hal
    · rcases List.mem_cons.mp hc with rfl | hcl
      · exact .inl rfl
      · have := h3.mem hcl
        omega
    · rcases List.mem_cons.mp hc with rfl | hcl
      · have := h3.mem hal
        omega
      · exact ih h3 hal hcl

/-- A piece is named by its begin. -/
theorem Tiles.inj (h : Tiles b s lo hi l) (ha : a ∈ l) (hc : c ∈ l) (he : b a = b c) : a = c := by
  rcases h.disjoint ha hc with e | e
  · exact e
  · have h1 := h.mem ha
    have h2 := h.mem hc
    omega

/-- There is one tiling of an interval with these pieces. -/
theorem Tiles.unique {l' : List α} (h : Tiles b s lo hi l) (h' : Tiles b s lo hi l')
    (heq : ∀ a ∈ l, ∀ c ∈ l', b a = b c → a = c) : l = l' := by
  induction l generalizing lo l' with
  | nil =>
    cases l' with
    | nil => rfl
    | cons c l' =>
      have hlo : lo = hi := h
      have hmem := h'.mem List.mem_cons_self
      omega
  | cons a l ih =>
    cases l' with
    | nil =>
      have hlo : lo = hi := h'
      have hmem := h.mem List.mem_cons_self
      omega
    | cons c l' =>
      obtain rfl := heq a List.mem_cons_self c List.mem_cons_self (h.1.trans h'.1.symm)
      rw [ih h.2.2 h'.2.2 fun x hx y hy =>
        heq x (List.mem_cons_of_mem a hx) y (List.mem_cons_of_mem a hy)]

theorem Tiles.nodup (h : Tiles b s lo hi l) : l.Nodup := by
  induction l generalizing lo with
  | nil => exact List.nodup_nil
  | cons a l ih =>
    refine List.nodup_cons.mpr ⟨?_, ih h.2.2⟩
    intro ha
    have hmem := h.2.2.mem ha
    have hb := h.1
    have hpos := h.2.1
    omega

/-- Some of the pieces are no longer than the interval. -/
theorem Tiles.sum_le (h : Tiles b s lo hi l) (p : α → Bool) :
    lo + ((l.filter p).map s).sum ≤ hi := by
  induction l generalizing lo with
  | nil => exact Nat.le_of_eq h
  | cons a l ih =>
    have hrest := ih h.2.2
    cases hp : p a with
    | true =>
      simp only [List.filter_cons_of_pos hp, List.map_cons, List.sum_cons]
      omega
    | false =>
      simp only [List.filter_cons_of_neg (Bool.eq_false_iff.mp hp)]
      omega

theorem Tiles.length_le (h : Tiles b s lo hi l) : lo + l.length ≤ hi := by
  induction l generalizing lo with
  | nil => exact Nat.le_of_eq h
  | cons a l ih =>
    have hrest := ih h.2.2
    have hpos := h.2.1
    simp only [List.length_cons]
    omega

/-- Neighbours in the list are neighbours in the interval. -/
theorem Tiles.next (h : Tiles b s lo hi (l ++ a :: c :: r)) : b a + s a = b c := by
  obtain ⟨mid, -, h1, -, h2, -⟩ := tiles_append.mp h
  omega

end Rtems.Lib
