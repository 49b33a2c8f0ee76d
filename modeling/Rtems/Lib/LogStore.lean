import Mathlib

/-!
# Log-structured stores

A store of segments whose cells are written once between two erasures of their segment.  A key lives in
the cell its last value was written to; an index finds it.  Values move by relocation: a live cell is
copied to an erased one and becomes stale, and a segment without live cells is reclaimed as a whole.
While a key is rewritten its old cell is stale before the new one is programmed: the key is in the gap.
-/

namespace Rtems.LogStore

open Function

/-- A cell is erased, holds the current value of a key, or an outdated one. -/
inductive Cell (κ δ : Type) where
  | erased
  | live (key : κ) (value : δ)
  | stale

variable {σ κ δ : Type}

namespace Cell

def isErased : Cell κ δ → Bool
  | erased => true
  | _ => false

def isLive : Cell κ δ → Bool
  | live _ _ => true
  | _ => false

def isStale : Cell κ δ → Bool
  | stale => true
  | _ => false

theorem isErased_iff {c : Cell κ δ} : c.isErased = true ↔ c = erased := by
  cases c <;> simp [isErased]

end Cell

/-! ## The cells of the segments -/

/-- The cells, by segment and position. -/
abbrev Store (σ κ δ : Type) := σ → ℕ → Cell κ δ

namespace Store

variable [DecidableEq σ] {c : Store σ κ δ} {x y : σ} {p q n : ℕ} {v : Cell κ δ}

def set (c : Store σ κ δ) (x : σ) (p : ℕ) (v : Cell κ δ) : Store σ κ δ :=
  update c x (update (c x) p v)

def reclaim (c : Store σ κ δ) (x : σ) : Store σ κ δ := update c x fun _ => .erased

@[simp]
theorem set_self : c.set x p v x p = v := by simp [set]

theorem set_of_ne (h : ¬ (y = x ∧ q = p)) : c.set x p v y q = c y q := by
  unfold set
  by_cases hy : y = x
  · subst hy
    have hq : q ≠ p := fun hq => h ⟨rfl, hq⟩
    simp [hq]
  · simp [hy]

theorem set_segment_of_ne (h : y ≠ x) : c.set x p v y = c y := by simp [set, h]

@[simp]
theorem reclaim_self : c.reclaim x x = fun _ => .erased := by simp [reclaim]

theorem reclaim_of_ne (h : y ≠ x) : c.reclaim x y = c y := by simp [reclaim, h]

end Store

/-! ## Counting cells -/

/-- The number of entries of a kind among the first `n`. -/
def tally {α : Type} (kind : α → Bool) (f : ℕ → α) (n : ℕ) : ℕ :=
  Nat.count (fun p => kind (f p) = true) n

section

variable {α : Type}

theorem tally_le (kind : α → Bool) (f : ℕ → α) (n : ℕ) : tally kind f n ≤ n :=
  Nat.count_le _

theorem tally_succ (kind : α → Bool) (f : ℕ → α) (n : ℕ) :
    tally kind f (n + 1) = tally kind f n + if kind (f n) then 1 else 0 :=
  Nat.count_succ _ n

theorem tally_eq_zero {kind : α → Bool} {f : ℕ → α} {n : ℕ} :
    tally kind f n = 0 ↔ ∀ p < n, kind (f p) = false := by
  simp only [tally, Nat.count_iff_forall_not, Bool.not_eq_true]

theorem tally_ne_zero {kind : α → Bool} {f : ℕ → α} {n : ℕ} :
    tally kind f n ≠ 0 ↔ ∃ p < n, kind (f p) = true :=
  Nat.count_ne_iff_exists

/-- Entries outside the range do not count. -/
theorem tally_update_of_le (kind : α → Bool) (f : ℕ → α) (v : α) {n p : ℕ} (hp : n ≤ p) :
    tally kind (update f p v) n = tally kind f n := by
  induction n with
  | zero => rfl
  | succ n ih =>
    have hne : n ≠ p := by omega
    rw [tally_succ, tally_succ, ih (by omega), update_of_ne hne]

/-- Replacing one entry. -/
theorem tally_update (kind : α → Bool) (f : ℕ → α) (v : α) {n p : ℕ} (hp : p < n) :
    tally kind (update f p v) n + (if kind (f p) then 1 else 0) =
      tally kind f n + (if kind v then 1 else 0) := by
  induction n with
  | zero => omega
  | succ n ih =>
    by_cases hpn : p = n
    · subst hpn
      rw [tally_succ, tally_succ, tally_update_of_le kind f v le_rfl, update_self]
      omega
    · have hne : n ≠ p := fun e => hpn e.symm
      have := ih (by omega)
      rw [tally_succ, tally_succ, update_of_ne hne]
      omega

theorem tally_mono (kind : α → Bool) (f : ℕ → α) {m n : ℕ} (h : m ≤ n) :
    tally kind f m ≤ tally kind f n :=
  Nat.count_monotone _ h

/-- One of the numbers in a sum changes. -/
theorem sum_map_change {xs : List σ} {f g : σ → ℕ} {x : σ} (hnodup : xs.Nodup) (hx : x ∈ xs)
    (h : ∀ y ∈ xs, y ≠ x → g y = f y) : (xs.map g).sum + f x = (xs.map f).sum + g x := by
  induction xs with
  | nil => cases hx
  | cons z zs ih =>
    obtain ⟨hz, hnodup⟩ := List.nodup_cons.mp hnodup
    simp only [List.map_cons, List.sum_cons]
    by_cases hzx : z = x
    · subst hzx
      have hrest : zs.map g = zs.map f := List.map_congr_left fun y hy =>
        h y (by simp [hy]) (by rintro rfl; exact hz hy)
      rw [hrest]
      omega
    · have hx' : x ∈ zs := (List.mem_cons.mp hx).resolve_left fun e => hzx e.symm
      have := ih hnodup hx' fun y hy => h y (by simp [hy])
      rw [h z (by simp) hzx]
      omega

/-- Two of the numbers in a sum. -/
theorem add_le_sum_map [DecidableEq σ] {xs : List σ} {f : σ → ℕ} {x y : σ} (hnodup : xs.Nodup)
    (hx : x ∈ xs) (hy : y ∈ xs) (hne : x ≠ y) : f x + f y ≤ (xs.map f).sum := by
  have hsum : (xs.map (update f x 0)).sum + f x = (xs.map f).sum + update f x 0 x :=
    sum_map_change hnodup hx fun z _ hz => update_of_ne hz _ _
  have hle : update f x 0 y ≤ (xs.map (update f x 0)).sum :=
    List.single_le_sum (by simp) _ (List.mem_map_of_mem hy)
  rw [update_of_ne hne.symm] at hle
  rw [update_self] at hsum
  omega

end

/-- Every cell is of one kind. -/
theorem tally_total (f : ℕ → Cell κ δ) (n : ℕ) :
    tally Cell.isLive f n + tally Cell.isStale f n + tally Cell.isErased f n = n := by
  induction n with
  | zero => simp [tally]
  | succ n ih =>
    simp only [tally_succ]
    cases f n with
    | erased =>
      simp only [Cell.isLive, Cell.isStale, Cell.isErased, if_true, Bool.false_eq_true, if_false]
      omega
    | live k d =>
      simp only [Cell.isLive, Cell.isStale, Cell.isErased, if_true, Bool.false_eq_true, if_false]
      omega
    | stale =>
      simp only [Cell.isLive, Cell.isStale, Cell.isErased, if_true, Bool.false_eq_true, if_false]
      omega

theorem tally_erased (kind : Cell κ δ → Bool) (n : ℕ) :
    tally kind (fun _ => Cell.erased) n = if kind .erased then n else 0 := by
  split
  next h => simp [tally, h]
  next h => simp [tally, h]

/-! ## The index -/

/-- The index leads to the live cell of each key but the one in the gap, and the live cells hold the
contents. -/
structure Indexed (c : Store σ κ δ) (index : κ → Option (σ × ℕ)) (content : κ → Option δ)
    (gap : Option κ) : Prop where
  live : ∀ x p k d, c x p = .live k d → index k = some (x, p) ∧ content k = some d ∧ gap ≠ some k
  mapped : ∀ k x p, index k = some (x, p) → gap ≠ some k → ∃ d, c x p = .live k d
  unmapped : ∀ k, index k = none → content k = none

namespace Indexed

variable [DecidableEq σ] [DecidableEq κ] {c : Store σ κ δ} {index : κ → Option (σ × ℕ)}
  {content : κ → Option δ} {gap : Option κ} {x y : σ} {p q : ℕ} {k : κ} {d : δ}

omit [DecidableEq σ] [DecidableEq κ] in
/-- A key has one live cell. -/
theorem unique {d' : δ} (h : Indexed c index content gap) (hx : c x p = .live k d)
    (hy : c y q = .live k d') : y = x ∧ q = p := by
  have hx := (h.live x p k d hx).1
  rw [(h.live y q k d' hy).1, Option.some.injEq, Prod.mk.injEq] at hx
  exact hx

omit [DecidableEq κ] in
/-- The value of a key becomes stale: the key is in the gap. -/
theorem retire (h : Indexed c index content none) (hx : c x p = .live k d) :
    Indexed (c.set x p .stale) index content (some k) := by
  refine ⟨?_, ?_, h.unmapped⟩
  · intro y q k' d' hy
    have hne : ¬ (y = x ∧ q = p) := by
      rintro ⟨rfl, rfl⟩
      simp at hy
    rw [Store.set_of_ne hne] at hy
    refine ⟨(h.live y q k' d' hy).1, (h.live y q k' d' hy).2.1, ?_⟩
    rintro hk
    cases hk
    exact hne (h.unique hx hy)
  · intro k' y q hi hk
    obtain ⟨d', hy⟩ := h.mapped k' y q hi (by simp)
    refine ⟨d', ?_⟩
    rw [Store.set_of_ne, hy]
    rintro ⟨rfl, rfl⟩
    rw [hx] at hy
    cases hy
    exact hk rfl

/-- A value is copied to an erased cell. -/
theorem relocate (h : Indexed c index content gap) (hx : c x p = .live k d)
    (hy : c y q = .erased) :
    Indexed ((c.set y q (.live k d)).set x p .stale) (update index k (some (y, q))) content gap := by
  have hgap := (h.live x p k d hx).2.2
  have hxy : ¬ (y = x ∧ q = p) := by
    rintro ⟨rfl, rfl⟩
    rw [hx] at hy
    cases hy
  have hnew : ((c.set y q (.live k d)).set x p .stale) y q = .live k d := by
    rw [Store.set_of_ne hxy, Store.set_self]
  have hold : ∀ z r, ¬ (z = x ∧ r = p) → ¬ (z = y ∧ r = q) →
      ((c.set y q (.live k d)).set x p .stale) z r = c z r := by
    intro z r h1 h2
    rw [Store.set_of_ne h1, Store.set_of_ne h2]
  refine ⟨?_, ?_, ?_⟩
  · intro z r k' d' hz
    by_cases h1 : z = x ∧ r = p
    · obtain ⟨rfl, rfl⟩ := h1
      simp at hz
    by_cases h2 : z = y ∧ r = q
    · obtain ⟨rfl, rfl⟩ := h2
      rw [hnew] at hz
      cases hz
      exact ⟨update_self _ _ _, (h.live x p k d hx).2.1, hgap⟩
    · rw [hold z r h1 h2] at hz
      have hk : k' ≠ k := by
        rintro rfl
        exact h1 (h.unique hx hz)
      rw [update_of_ne hk]
      exact h.live z r k' d' hz
  · intro k' z r hi hk'
    by_cases hk : k' = k
    · subst hk
      rw [update_self] at hi
      cases hi
      exact ⟨d, hnew⟩
    · rw [update_of_ne hk] at hi
      obtain ⟨d', hz⟩ := h.mapped k' z r hi hk'
      refine ⟨d', ?_⟩
      rw [hold, hz]
      · rintro ⟨rfl, rfl⟩
        rw [hx] at hz
        cases hz
        exact hk rfl
      · rintro ⟨rfl, rfl⟩
        rw [hy] at hz
        cases hz
  · intro k' hi
    by_cases hk : k' = k
    · subst hk
      rw [update_self] at hi
      cases hi
    · rw [update_of_ne hk] at hi
      exact h.unmapped k' hi

/-- A key that is in the gap, or has no cell, is given a value. -/
theorem program (h : Indexed c index content gap) (hgap : ∀ k', gap = some k' → k' = k)
    (hk : gap = some k ∨ index k = none) (hy : c y q = .erased) :
    Indexed (c.set y q (.live k d)) (update index k (some (y, q))) (update content k (some d))
      none := by
  have hnot : ∀ z r d', c z r ≠ .live k d' := by
    intro z r d' hz
    rcases hk with hk | hk
    · exact (h.live z r k d' hz).2.2 hk
    · rw [(h.live z r k d' hz).1] at hk
      cases hk
  refine ⟨?_, ?_, ?_⟩
  · intro z r k' d' hz
    by_cases h1 : z = y ∧ r = q
    · obtain ⟨rfl, rfl⟩ := h1
      rw [Store.set_self] at hz
      cases hz
      simp
    · rw [Store.set_of_ne h1] at hz
      have hk' : k' ≠ k := by
        rintro rfl
        exact hnot z r d' hz
      rw [update_of_ne hk', update_of_ne hk']
      exact ⟨(h.live z r k' d' hz).1, (h.live z r k' d' hz).2.1, by simp⟩
  · intro k' z r hi _
    by_cases hkk : k' = k
    · subst hkk
      rw [update_self] at hi
      cases hi
      exact ⟨d, Store.set_self⟩
    · rw [update_of_ne hkk] at hi
      obtain ⟨d', hz⟩ := h.mapped k' z r hi fun hg => hkk (hgap k' hg)
      refine ⟨d', ?_⟩
      rw [Store.set_of_ne, hz]
      rintro ⟨rfl, rfl⟩
      rw [hy] at hz
      cases hz
  · intro k' hi
    by_cases hkk : k' = k
    · subst hkk
      rw [update_self] at hi
      cases hi
    · rw [update_of_ne hkk] at hi
      rw [update_of_ne hkk]
      exact h.unmapped k' hi

omit [DecidableEq κ] in
/-- A segment without live cells is erased. -/
theorem reclaim (h : Indexed c index content gap) (hx : ∀ p k d, c x p ≠ .live k d) :
    Indexed (c.reclaim x) index content gap := by
  refine ⟨?_, ?_, h.unmapped⟩
  · intro y q k d hy
    by_cases hyx : y = x
    · subst hyx
      simp at hy
    · rw [Store.reclaim_of_ne hyx] at hy
      exact h.live y q k d hy
  · intro k y q hi hk
    obtain ⟨d, hy⟩ := h.mapped k y q hi hk
    refine ⟨d, ?_⟩
    rw [Store.reclaim_of_ne, hy]
    rintro rfl
    exact hx q k d hy

end Indexed

open Classical in
/-- A store in which no key is live twice has an index. -/
theorem exists_indexed (c : Store σ κ δ)
    (h : ∀ x p y q k d d', c x p = .live k d → c y q = .live k d' → y = x ∧ q = p) :
    ∃ index content, Indexed c index content none := by
  refine ⟨fun k => if hk : ∃ e : σ × ℕ, ∃ d, c e.1 e.2 = .live k d then some hk.choose else none,
    fun k => if hk : ∃ d, ∃ e : σ × ℕ, c e.1 e.2 = .live k d then some hk.choose else none, ?_, ?_, ?_⟩
  · intro x p k d hx
    have hk : ∃ e : σ × ℕ, ∃ d, c e.1 e.2 = .live k d := ⟨(x, p), d, hx⟩
    have hk' : ∃ d, ∃ e : σ × ℕ, c e.1 e.2 = .live k d := ⟨d, (x, p), hx⟩
    refine ⟨?_, ?_, by simp⟩
    · obtain ⟨d', hd'⟩ := hk.choose_spec
      obtain ⟨hx', hp'⟩ := h _ _ _ _ _ _ _ hx hd'
      rw [dif_pos hk]
      exact congrArg some (Prod.ext hx' hp')
    · obtain ⟨e, he⟩ := hk'.choose_spec
      obtain ⟨hx', hp'⟩ := h _ _ _ _ _ _ _ hx he
      rw [hx', hp', hx] at he
      rw [dif_pos hk']
      exact congrArg some (Cell.live.inj he).2.symm
  · intro k x p hi _
    split at hi
    next hk =>
      obtain ⟨d, hd⟩ := hk.choose_spec
      rw [Option.some.inj hi] at hd
      exact ⟨d, hd⟩
    next => cases hi
  · intro k hi
    split at hi
    next => cases hi
    next hk =>
      rw [dif_neg]
      rintro ⟨d, e, he⟩
      exact hk ⟨e, d, he⟩

end Rtems.LogStore
