import Mathlib

/-!
# Stable insertion

A queue served in the order of a key, first come first served among equal
keys.  `List.orderedInsert` with the strict order of the key puts a new element
behind all the elements whose key is not greater than its own, which is what
such a queue does.  With the order that is not strict it puts the element in front
of its equals, last come first served.
-/

namespace Rtems.Lib

variable {α κ : Type*} [LinearOrder κ]

/-- Put `a` behind every element whose key is at most its own. -/
def stableInsert (key : α → κ) (a : α) (l : List α) : List α :=
  l.orderedInsert (fun x y => key x < key y) a

/-- The list is in the order of its keys. -/
def Ordered (key : α → κ) (l : List α) : Prop := l.Pairwise fun x y => key x ≤ key y

@[simp]
theorem mem_stableInsert {key : α → κ} {a b : α} {l : List α} :
    b ∈ stableInsert key a l ↔ b = a ∨ b ∈ l :=
  List.mem_orderedInsert _

theorem stableInsert_perm (key : α → κ) (a : α) (l : List α) :
    (stableInsert key a l).Perm (a :: l) :=
  List.perm_orderedInsert _ _ _

theorem length_stableInsert (key : α → κ) (a : α) (l : List α) :
    (stableInsert key a l).length = l.length + 1 :=
  List.orderedInsert_length _ _ _

theorem nodup_stableInsert {key : α → κ} {a : α} {l : List α} (hl : l.Nodup) (ha : a ∉ l) :
    (stableInsert key a l).Nodup :=
  (stableInsert_perm key a l).nodup_iff.mpr (List.nodup_cons.mpr ⟨ha, hl⟩)

/-- The order of the keys survives the insertion. -/
theorem Ordered.stableInsert {key : α → κ} {l : List α} (h : Ordered key l) (a : α) :
    Ordered key (stableInsert key a l) := by
  induction l with
  | nil => exact List.pairwise_singleton _ _
  | cons b l ih =>
    cases h with
    | cons hb hl =>
      unfold Lib.stableInsert
      rw [List.orderedInsert_cons]
      split
      next hab =>
        refine .cons (fun c hc => ?_) (.cons hb hl)
        rcases List.mem_cons.mp hc with rfl | hc
        · exact hab.le
        · exact hab.le.trans (hb c hc)
      next hab =>
        refine .cons (fun c hc => ?_) (ih hl)
        rcases mem_stableInsert.mp hc with rfl | hc
        · exact not_lt.mp hab
        · exact hb c hc

theorem Ordered.erase [DecidableEq α] {key : α → κ} {l : List α} (h : Ordered key l) (a : α) :
    Ordered key (l.erase a) :=
  List.Pairwise.sublist List.erase_sublist h

/-- Keys of elements that are not in the list do not matter. -/
theorem Ordered.congr {key key' : α → κ} {l : List α} (h : Ordered key l)
    (hk : ∀ a ∈ l, key' a = key a) : Ordered key' l :=
  List.Pairwise.imp_of_mem (fun ha hb hab => by rw [hk _ ha, hk _ hb]; exact hab) h

/-- The first element has the least key. -/
theorem Ordered.head_le {key : α → κ} {a b : α} {l : List α} (h : Ordered key (a :: l))
    (hb : b ∈ a :: l) : key a ≤ key b := by
  rcases List.mem_cons.mp hb with rfl | hb
  · exact le_rfl
  · exact (List.pairwise_cons.mp h).1 b hb

/-- `x` comes before `y`: by the key, and by the stamp among equal keys. -/
def Before (key : α → κ) (stamp : α → ℕ) (x y : α) : Prop :=
  key x < key y ∨ key x = key y ∧ stamp x < stamp y

/-- A relation holds along the list after an insertion, if it relates the new
element to those before and after its place. -/
theorem pairwise_orderedInsert {o : α → α → Prop} [DecidableRel o] {r : α → α → Prop}
    {l : List α} {a : α} (h : l.Pairwise r) (hup : ∀ b ∈ l, o a b → r a b)
    (hmono : ∀ b, ∀ c ∈ l, o a b → r b c → r a c) (hdown : ∀ b ∈ l, ¬ o a b → r b a) :
    (l.orderedInsert o a).Pairwise r := by
  induction l with
  | nil => exact List.pairwise_singleton _ _
  | cons b l ih =>
    cases h with
    | cons hb hl =>
      rw [List.orderedInsert_cons]
      split
      next hab =>
        refine .cons (fun c hc => ?_) (.cons hb hl)
        rcases List.mem_cons.mp hc with rfl | hc
        · exact hup _ List.mem_cons_self hab
        · exact hmono b c (List.mem_cons_of_mem _ hc) hab (hb c hc)
      next hab =>
        refine .cons (fun c hc => ?_) (ih hl ?_ ?_ ?_)
        · rcases (List.mem_orderedInsert _).mp hc with rfl | hc
          · exact hdown b List.mem_cons_self hab
          · exact hb c hc
        · exact fun c hc => hup c (List.mem_cons_of_mem _ hc)
        · exact fun b c hc => hmono b c (List.mem_cons_of_mem _ hc)
        · exact fun c hc => hdown c (List.mem_cons_of_mem _ hc)

/-- A relation that follows the key holds along the list after a stable
insertion. -/
theorem pairwise_stableInsert {key : α → κ} {r : α → α → Prop} {l : List α} {a : α}
    (h : l.Pairwise r) (hkey : ∀ x y, r x y → key x ≤ key y)
    (hlt : ∀ b ∈ l, key a < key b → r a b) (hle : ∀ b ∈ l, key b ≤ key a → r b a) :
    (stableInsert key a l).Pairwise r :=
  pairwise_orderedInsert h hlt (fun b c hc hab hr => hlt c hc (hab.trans_le (hkey b c hr)))
    fun b hb hab => hle b hb (not_lt.mp hab)

/-- An element with a stamp later than all the others goes to its place. -/
theorem pairwise_before_stableInsert {key : α → κ} {stamp : α → ℕ} {l : List α} {a : α}
    (h : l.Pairwise (Before key stamp)) (ha : ∀ b ∈ l, stamp b < stamp a) :
    (stableInsert key a l).Pairwise (Before key stamp) := by
  refine pairwise_stableInsert h ?_ (fun _ _ hlt => .inl hlt) ?_
  · rintro x y (hlt | ⟨heq, -⟩)
    · exact hlt.le
    · exact heq.le
  · intro b hb hle
    rcases hle.lt_or_eq with hlt | heq
    · exact .inl hlt
    · exact .inr ⟨heq, ha b hb⟩

/-! ## Insertion in front of equal keys -/

/-- The elements come one after the other, and each goes in front of those whose key is at least
its own. -/
def insertInFront (key : α → κ) (l as : List α) : List α :=
  as.foldl (fun l a => l.orderedInsert (fun x y => key x ≤ key y) a) l

/-- Among the elements of one key a new one is the first. -/
theorem filter_key_orderedInsert (key : α → κ) (k : κ) (a : α) (l : List α) :
    (l.orderedInsert (fun x y => key x ≤ key y) a).filter (fun x => decide (key x = k)) =
      if key a = k then a :: l.filter (fun x => decide (key x = k))
      else l.filter (fun x => decide (key x = k)) := by
  induction l with
  | nil => by_cases ha : key a = k <;> simp [ha]
  | cons b l ih =>
    rw [List.orderedInsert_cons]
    split
    next hab => by_cases ha : key a = k <;> simp [ha]
    next hab =>
      rw [List.filter_cons, List.filter_cons, ih]
      by_cases ha : key a = k
      · -- The element that is passed has a smaller key than the new one.
        have hb : ¬ key b = k := fun hb => hab (ha.trans hb.symm).le
        simp [ha, hb]
      · simp [ha]

/-- An element that is left out does not matter. -/
theorem filter_orderedInsert_neg (o : α → α → Prop) [DecidableRel o] {p : α → Bool} {a : α}
    (ha : p a = false) (l : List α) : (l.orderedInsert o a).filter p = l.filter p := by
  have ha : ¬ p a = true := by simp [ha]
  induction l with
  | nil => exact List.filter_cons_of_neg ha
  | cons b l ih =>
    rw [List.orderedInsert_cons]
    split
    next => rw [List.filter_cons_of_neg ha]
    next => rw [List.filter_cons, List.filter_cons, ih]

theorem filter_key_insertInFront (key : α → κ) (k : κ) (l as : List α) :
    (insertInFront key l as).filter (fun x => decide (key x = k)) =
      (as.filter fun x => decide (key x = k)).reverse ++ l.filter (fun x => decide (key x = k)) := by
  induction as generalizing l with
  | nil => simp [insertInFront]
  | cons a as ih =>
    have hstep := ih (l.orderedInsert (fun x y => key x ≤ key y) a)
    rw [filter_key_orderedInsert] at hstep
    refine hstep.trans ?_
    by_cases ha : key a = k
    · simp [ha]
    · simp [ha]

theorem filter_insertInFront_neg (key : α → κ) {p : α → Bool} {as : List α}
    (has : ∀ a ∈ as, p a = false) (l : List α) : (insertInFront key l as).filter p = l.filter p := by
  induction as generalizing l with
  | nil => rfl
  | cons a as ih =>
    refine (ih (fun b hb => has b (List.mem_cons_of_mem _ hb)) _).trans ?_
    exact filter_orderedInsert_neg _ (has a List.mem_cons_self) l

theorem insertInFront_perm (key : α → κ) (l as : List α) :
    (insertInFront key l as).Perm (as ++ l) := by
  induction as generalizing l with
  | nil => exact .refl _
  | cons a as ih =>
    refine (ih _).trans ?_
    exact ((List.perm_orderedInsert _ a l).append_left as).trans List.perm_middle

/-- New elements are in order with all that is before them. -/
theorem pairwise_insertInFront {key : α → κ} {new : α → Prop} {l as : List α}
    (h : l.Pairwise fun x y => new y → key x ≤ key y) :
    (insertInFront key l as).Pairwise fun x y => new y → key x ≤ key y := by
  induction as generalizing l with
  | nil => exact h
  | cons a as ih =>
    refine ih (pairwise_orderedInsert h ?_ ?_ ?_)
    · exact fun b _ hab _ => hab
    · exact fun b c _ hab hbc hc => hab.trans (hbc hc)
    · exact fun b _ hab _ => (not_le.mp hab).le

/-- The elements come out in the order of their keys, and those of one key in the order in which
they came. -/
def Stable (key : α → κ) (as out : List α) : Prop :=
  Ordered key out ∧
    ∀ k, out.filter (fun x => decide (key x = k)) = as.filter fun x => decide (key x = k)

theorem pairwise_key_ne_iff {key : α → κ} {as : List α} :
    as.Pairwise (fun a b => key a ≠ key b) ↔
      ∀ k, (as.filter fun x => decide (key x = k)).length ≤ 1 := by
  have hmap : as.Pairwise (fun a b => key a ≠ key b) ↔ (as.map key).Nodup := List.pairwise_map.symm
  rw [hmap, List.nodup_iff_count_le_one]
  refine forall_congr' fun k => ?_
  rw [List.count, List.countP_map, List.countP_eq_length_filter]
  rfl

theorem reverse_eq_self_iff {l : List α} (h : l.Nodup) : l.reverse = l ↔ l.length ≤ 1 := by
  match l, h with
  | [], _ => simp
  | [_], _ => simp
  | a :: b :: l, h =>
    refine ⟨fun heq => ?_, fun hle => absurd hle (by simp)⟩
    have hlast : (b :: l).getLast (List.cons_ne_nil b l) = a := by
      have hhead := congrArg List.head? heq
      rw [List.head?_reverse, List.getLast?_eq_some_getLast (List.cons_ne_nil _ _)] at hhead
      exact Option.some.inj hhead
    refine absurd ?_ (List.nodup_cons.mp h).1
    rw [← hlast]
    exact List.getLast_mem _

/-- Insertion in front of equal keys is stable where there are no equal keys. -/
theorem stable_insertInFront_iff [DecidableEq α] {key : α → κ} {l as : List α}
    (hnodup : as.Nodup) (hnew : ∀ a ∈ as, a ∉ l) :
    Stable key as ((insertInFront key l as).filter fun x => decide (x ∈ as)) ↔
      as.Pairwise fun a b => key a ≠ key b := by
  have hordered : Ordered key ((insertInFront key l as).filter fun x => decide (x ∈ as)) := by
    have hpairs : l.Pairwise fun x y => y ∈ as → key x ≤ key y := by
      rw [List.pairwise_iff_forall_sublist]
      intro a b hab hb
      exact absurd (hab.subset (List.mem_cons_of_mem a List.mem_cons_self)) (hnew b hb)
    refine (List.Pairwise.filter _ (pairwise_insertInFront hpairs)).imp_of_mem ?_
    intro a b _ hb hab
    exact hab (of_decide_eq_true (List.mem_filter.mp hb).2)
  have hkey : ∀ k, ((insertInFront key l as).filter fun x => decide (x ∈ as)).filter
      (fun x => decide (key x = k)) = (as.filter fun x => decide (key x = k)).reverse := by
    intro k
    have hl : l.filter (fun x => decide (x ∈ as)) = [] := by
      refine List.filter_eq_nil_iff.mpr fun x hx hmem => ?_
      exact hnew x (of_decide_eq_true hmem) hx
    have has : as.filter (fun x => decide (x ∈ as)) = as :=
      List.filter_eq_self.mpr fun x hx => decide_eq_true hx
    rw [List.filter_comm, filter_key_insertInFront, List.filter_append, List.filter_reverse,
      List.filter_comm, has, List.filter_comm, hl, List.filter_nil, List.append_nil]
  have hiff : Stable key as ((insertInFront key l as).filter fun x => decide (x ∈ as)) ↔
      ∀ k, (as.filter fun x => decide (key x = k)).reverse =
        as.filter fun x => decide (key x = k) := by
    simp only [Stable, hordered, hkey, true_and]
  rw [hiff, pairwise_key_ne_iff]
  exact forall_congr' fun k => reverse_eq_self_iff (hnodup.filter _)
end Rtems.Lib
