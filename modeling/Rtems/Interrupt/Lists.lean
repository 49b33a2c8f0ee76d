import Rtems.Interrupt.Model
import Rtems.Lib.LinkedQueue

/-!
# The lists of the interrupt vectors

Each vector has the entry of the table and a path of entries from the heap behind it.  The searches
are searches in this path, and a call changes the path of its own vector only.
-/

namespace Rtems.Interrupt

open LinkedQueue

variable {H : Type} [DecidableEq H] {vectorMax n i j : Nat} {s s' : Table H} {entry : Ref → Entry H}
  {p : Entry H → Bool} {r : Ref} {xs ys : List Ref} {o : Option Ref}
  {cells : Nat → List Nat} {new : List Nat}

/-! ## The searches -/

/-- The links of the entries. -/
def link (entry : Ref → Entry H) (r : Ref) : Option Ref := (entry r).next

section

omit [DecidableEq H]

theorem searchTail_of_path (h : LinkedQueue.Path (link entry) (some r) (r :: xs) none) (hn : xs.length < n) :
    searchTail entry p n r o = some (o.or ((r :: xs).find? fun x => p (entry x)),
      (r :: xs).getLast (List.cons_ne_nil r xs)) := by
  induction xs generalizing r n o with
  | nil =>
    cases n with
    | zero => cases hn
    | succ n =>
      have hnext : (entry r).next = none := h.2
      simp only [searchTail, hnext]
      cases o <;> cases hp : p (entry r) <;> simp [hp]
  | cons y ys ih =>
    cases n with
    | zero => cases hn
    | succ n =>
      have hnext : (entry r).next = some y := h.2.1
      have h' : LinkedQueue.Path (link entry) (some y) (y :: ys) none := ⟨rfl, h.2.2⟩
      simp only [searchTail, hnext]
      rw [ih h' (Nat.lt_of_succ_lt_succ hn), List.getLast_cons (List.cons_ne_nil y ys)]
      cases o <;> cases hp : p (entry r) <;> simp [hp]

theorem searchMatch_none (h : LinkedQueue.Path (link entry) (some r) (r :: xs) none) (hn : xs.length < n)
    (hp : ∀ x ∈ r :: xs, p (entry x) = false) : searchMatch entry p n r o = some none := by
  induction xs generalizing r n o with
  | nil =>
    cases n with
    | zero => cases hn
    | succ n =>
      have hnext : (entry r).next = none := h.2
      simp [searchMatch, hnext, hp r List.mem_cons_self]
  | cons y ys ih =>
    cases n with
    | zero => cases hn
    | succ n =>
      have hnext : (entry r).next = some y := h.2.1
      have h' : LinkedQueue.Path (link entry) (some y) (y :: ys) none := ⟨rfl, h.2.2⟩
      simp only [searchMatch, hnext, hp r List.mem_cons_self]
      exact ih h' (Nat.lt_of_succ_lt_succ hn) fun x hx => hp x (List.mem_cons_of_mem r hx)

theorem searchMatch_some {m : Ref}
    (h : LinkedQueue.Path (link entry) (some r) (xs ++ m :: ys) none)
    (hn : (xs ++ m :: ys).length ≤ n) (hp : ∀ x ∈ xs, p (entry x) = false)
    (hm : p (entry m) = true) :
    searchMatch entry p n r o = some (some (m, xs.getLast?.or o)) := by
  induction xs generalizing r n o with
  | nil =>
    obtain ⟨hr, -⟩ := h
    cases hr
    cases n with
    | zero => cases hn
    | succ n => simp [searchMatch, hm]
  | cons x xs ih =>
    obtain ⟨hr, h⟩ := h
    obtain rfl := Option.some.inj hr
    cases n with
    | zero => cases hn
    | succ n =>
      have hx : p (entry r) = false := hp r List.mem_cons_self
      have hnext : ∃ y, (entry r).next = some y := by
        cases xs with
        | nil => exact ⟨_, h.1⟩
        | cons y ys => exact ⟨_, h.1⟩
      obtain ⟨y, hy⟩ := hnext
      have h' : LinkedQueue.Path (link entry) (some y) (xs ++ m :: ys) none := by
        rw [← hy]
        exact h
      simp only [searchMatch, hx, hy]
      rw [if_neg (by simp),
        ih h' (Nat.le_of_succ_le_succ hn) fun x hx => hp x (List.mem_cons_of_mem r hx)]
      rw [List.getLast?_cons]
      cases xs.getLast? <;> rfl

end

/-! ## The shape of the table -/

/-- The entries of a vector: the one in the table, and those from the heap. -/
def refs (i : Nat) (cells : List Nat) : List Ref := .table i :: cells.map .heap

/-- What each vector's list consists of. -/
structure Shape (vectorMax : Nat) (s : Table H) (cells : Nat → List Nat) : Prop where
  init : s.isInitialized vectorMax = true
  path : ∀ i ≤ vectorMax, LinkedQueue.Path (link s.entry) (some (.table i)) (refs i (cells i)) none
  handler : ∀ i ≤ vectorMax, ∀ a ∈ cells i, s.isEmpty (.heap a) = false
  owner : ∀ i ≤ vectorMax, ∀ j ≤ vectorMax, ∀ a, a ∈ cells i → a ∈ cells j → i = j
  nodup : s.allocated.Nodup
  allocated : ∀ a, a ∈ s.allocated ↔ ∃ i ≤ vectorMax, a ∈ cells i
  empty : ∀ i ≤ vectorMax, s.isEmpty (.table i) = true → cells i = []
  unique : ∀ i ≤ vectorMax, s.unique i = true → s.isEmpty (.table i) = false ∧ cells i = []

/-- Handler and argument of an entry. -/
def pair (entry : Ref → Entry H) (r : Ref) : Handler H × Nat := ((entry r).handler, (entry r).arg)

/-- The handlers of a vector. -/
def handlers (s : Table H) (i : Nat) (cells : List Nat) : List (Handler H × Nat) :=
  if s.isEmpty (.table i) then [] else (refs i cells).map (pair s.entry)

theorem Shape.cells_nodup (h : Shape vectorMax s cells) (hi : i ≤ vectorMax) : (cells i).Nodup :=
  List.Nodup.of_map _ (List.nodup_cons.mp (h.path i hi).nodup).2

/-- The bound on the turns is enough. -/
theorem Shape.turns (h : Shape vectorMax s cells) (hi : i ≤ vectorMax) :
    ((cells i).map Ref.heap).length < s.turns := by
  have hsub : cells i ⊆ s.allocated := fun a ha => (h.allocated a).mpr ⟨i, hi, ha⟩
  have hle := (h.cells_nodup hi).length_le_of_subset hsub
  rw [List.length_map]
  exact Nat.lt_succ_of_le hle

section

omit [DecidableEq H]

theorem entriesFrom_of_path (h : LinkedQueue.Path (link entry) (some r) (r :: xs) none) (hn : xs.length < n) :
    entriesFrom entry n r = some ((r :: xs).map (pair entry)) := by
  induction xs generalizing r n with
  | nil =>
    cases n with
    | zero => cases hn
    | succ n =>
      have hnext : (entry r).next = none := h.2
      simp [entriesFrom, hnext, pair]
  | cons y ys ih =>
    cases n with
    | zero => cases hn
    | succ n =>
      have hnext : (entry r).next = some y := h.2.1
      have h' : LinkedQueue.Path (link entry) (some y) (y :: ys) none := ⟨rfl, h.2.2⟩
      simp only [entriesFrom, hnext]
      rw [ih h' (Nat.lt_of_succ_lt_succ hn)]
      rfl

end

theorem Shape.iterate (h : Shape vectorMax s cells) (hi : i ≤ vectorMax) :
    iterate s i = some (handlers s i (cells i)) := by
  unfold Interrupt.iterate handlers
  have hindex : handlerIndex i = i := Nat.sub_zero i
  rw [hindex, entriesFrom_of_path (h.path i hi) (h.turns hi)]
  split
  next he => rfl
  next he => rfl

theorem mem_refs_heap {cells : List Nat} {a : Nat} : Ref.heap a ∈ refs i cells ↔ a ∈ cells := by
  simp [refs]

theorem mem_refs_table {cells : List Nat} : Ref.table j ∈ refs i cells ↔ j = i := by
  simp [refs]

/-- Two vectors have no entry in common. -/
theorem Shape.disjoint (h : Shape vectorMax s cells) (hi : i ≤ vectorMax) (hj : j ≤ vectorMax)
    (hij : j ≠ i) (hr : r ∈ refs j (cells j)) : r ∉ refs i (cells i) := by
  intro hr'
  cases r with
  | table k => exact hij ((mem_refs_table.mp hr).symm.trans (mem_refs_table.mp hr'))
  | heap a => exact hij (h.owner j hj i hi a (mem_refs_heap.mp hr) (mem_refs_heap.mp hr'))

/-- What a call may change: the entries of one vector, and which ones from the heap these are. -/
structure Change (s s' : Table H) (i : Nat) (old new : List Nat) : Prop where
  entry : ∀ r, r ∉ refs i old → (∀ a ∈ new, r ≠ .heap a) → s'.entry r = s.entry r
  path : LinkedQueue.Path (link s'.entry) (some (.table i)) (refs i new) none
  handler : ∀ a ∈ new, s'.isEmpty (.heap a) = false
  fresh : ∀ a ∈ new, a ∈ old ∨ a ∉ s.allocated
  nodup : s'.allocated.Nodup
  allocated : ∀ a, a ∈ s'.allocated ↔ a ∈ new ∨ a ∈ s.allocated ∧ a ∉ old
  empty : s'.isEmpty (.table i) = true → new = []
  unique : ∀ j, j ≠ i → s'.unique j = s.unique j
  marked : s'.unique i = true → s'.isEmpty (.table i) = false ∧ new = []

theorem Shape.frame (h : Shape vectorMax s cells) (hc : Change s s' i (cells i) new)
    (hi : i ≤ vectorMax) (hj : j ≤ vectorMax) (hij : j ≠ i) (hr : r ∈ refs j (cells j)) :
    s'.entry r = s.entry r := by
  refine hc.entry r (h.disjoint hi hj hij hr) ?_
  rintro a ha rfl
  rcases hc.fresh a ha with hold | hnot
  · exact h.disjoint hi hj hij hr (mem_refs_heap.mpr hold)
  · exact hnot ((h.allocated a).mpr ⟨j, hj, mem_refs_heap.mp hr⟩)

theorem Shape.change (h : Shape vectorMax s cells) (hi : i ≤ vectorMax)
    (hc : Change s s' i (cells i) new) : Shape vectorMax s' (Function.update cells i new) := by
  have hsame : ∀ j, j ≠ i → Function.update cells i new j = cells j :=
    fun j hj => Function.update_of_ne hj ..
  have hself : Function.update cells i new i = new := Function.update_self ..
  have hempty : ∀ j ≤ vectorMax, j ≠ i → s'.isEmpty (.table j) = s.isEmpty (.table j) := by
    intro j hj hij
    have he := h.frame hc hi hj hij (mem_refs_table.mpr rfl)
    simp [Table.isEmpty, he]
  constructor
  case init =>
    have hne : tableSize vectorMax ≠ i := by
      unfold tableSize vectorMin
      omega
    exact (hc.unique _ hne).trans h.init
  case path =>
    intro j hj
    rcases eq_or_ne j i with rfl | hij
    · rw [hself]
      exact hc.path
    · rw [hsame j hij]
      refine (h.path j hj).congr ?_
      exact fun r hr => congrArg Entry.next (h.frame hc hi hj hij hr)
  case handler =>
    intro j hj a ha
    rcases eq_or_ne j i with rfl | hij
    · rw [hself] at ha
      exact hc.handler a ha
    · rw [hsame j hij] at ha
      have he := h.frame hc hi hj hij (mem_refs_heap.mpr ha)
      have hold := h.handler j hj a ha
      simpa [Table.isEmpty, he] using hold
  case owner =>
    have hmix : ∀ j ≤ vectorMax, j ≠ i → ∀ a, a ∈ new → a ∉ cells j := by
      intro j hj hij a ha haj
      rcases hc.fresh a ha with hold | hnot
      · exact hij (h.owner j hj i hi a haj hold)
      · exact hnot ((h.allocated a).mpr ⟨j, hj, haj⟩)
    intro j hj k hk a haj hak
    rcases eq_or_ne j i with rfl | hij
    · rcases eq_or_ne k j with rfl | hkj
      · rfl
      · rw [hself] at haj
        rw [hsame k hkj] at hak
        exact absurd hak (hmix k hk hkj a haj)
    · rw [hsame j hij] at haj
      rcases eq_or_ne k i with rfl | hki
      · rw [hself] at hak
        exact absurd haj (hmix j hj hij a hak)
      · rw [hsame k hki] at hak
        exact h.owner j hj k hk a haj hak
  case nodup => exact hc.nodup
  case allocated =>
    intro a
    rw [hc.allocated a]
    constructor
    · rintro (ha | ⟨ha, hnot⟩)
      · exact ⟨i, hi, hself.symm ▸ ha⟩
      · obtain ⟨j, hj, haj⟩ := (h.allocated a).mp ha
        have hij : j ≠ i := by
          rintro rfl
          exact hnot haj
        exact ⟨j, hj, (hsame j hij).symm ▸ haj⟩
    · rintro ⟨j, hj, ha⟩
      rcases eq_or_ne j i with rfl | hij
      · rw [hself] at ha
        exact .inl ha
      · rw [hsame j hij] at ha
        exact .inr ⟨(h.allocated a).mpr ⟨j, hj, ha⟩, fun hai => hij (h.owner j hj i hi a ha hai)⟩
  case empty =>
    intro j hj he
    rcases eq_or_ne j i with rfl | hij
    · rw [hself]
      exact hc.empty he
    · rw [hsame j hij]
      exact h.empty j hj ((hempty j hj hij).symm.trans he)
  case unique =>
    intro j hj hu
    rcases eq_or_ne j i with rfl | hij
    · rw [hself]
      exact hc.marked hu
    · rw [hsame j hij, hempty j hj hij]
      exact h.unique j hj ((hc.unique j hij).symm.trans hu)

/-- The other vectors keep their handlers. -/
theorem Shape.handlers_eq (h : Shape vectorMax s cells) (hi : i ≤ vectorMax)
    (hc : Change s s' i (cells i) new) (hj : j ≤ vectorMax) (hij : j ≠ i) :
    handlers s' j (Function.update cells i new j) = handlers s j (cells j) := by
  have he := h.frame hc hi hj hij (mem_refs_table.mpr rfl)
  rw [Function.update_of_ne hij]
  unfold handlers Table.isEmpty
  rw [he]
  congr 1
  refine List.map_congr_left ?_
  intro r hr
  unfold pair
  rw [h.frame hc hi hj hij hr]

end Rtems.Interrupt
