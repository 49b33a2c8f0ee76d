import Rtems.RBTree.Find

/-!
# Search and iteration

The model of `rbtreeiterate.c`, and what `_RBTree_Find`, `_RBTree_Next` and
`_RBTree_Iterate` do to a tree in terms of the order of its nodes.  A search that
is not unique goes on to the left of an equal node, so it ends with the first one.
-/

namespace Rtems.RBTree

open Lib

variable {Addr σ : Type} [DecidableEq Addr] {s : State Addr} {c p x y : Addr} {d : Direction}
  {t : Lib.Tree Addr} {l as bs : List Addr} {compare : Compare Addr} {key : Addr → Int}
  {found : Option Addr} {fuel turns : Nat}

/-! ## The first equal node -/

section

omit [DecidableEq Addr]

/-- A search that is not unique ends with the first equal node, and with what was found
before if there is none. -/
theorem Hangs.findFirst (found : Option Addr) (h : Hangs s p t) (hd : Directs key t.inorder) (hfuel : t.size ≤ fuel) :
    RBTree.findLoop s key false fuel t.root? found =
      some ((t.inorder.find? fun z => key z = 0).or found) := by
  induction t generalizing p fuel found with
  | nil => cases fuel <;> rfl
  | node col l y r ihl ihr =>
    obtain ⟨-, -, hleft, hright, hl, hr⟩ := h
    obtain ⟨hdl, hdyr, hdly⟩ := List.pairwise_append.mp hd
    obtain ⟨hdy, hdr⟩ := List.pairwise_cons.mp hdyr
    cases fuel with
    | zero => cases hfuel
    | succ fuel =>
      have hsize : l.size + r.size ≤ fuel := Nat.le_of_succ_le_succ hfuel
      have hsizel : l.size ≤ fuel := by omega
      have hsizer : r.size ≤ fuel := by omega
      have hin : (Lib.Tree.node col l y r).inorder = l.inorder ++ y :: r.inorder := rfl
      rw [Lib.Tree.root?, RBTree.findLoop, hin]
      simp only [Bool.false_eq_true, and_false, if_false]
      rcases lt_trichotomy (key y) 0 with hneg | hzero | hpos
      · -- what comes after is greater than the key as well
        have hafter : r.inorder.find? (fun z => key z = 0) = none := by
          simp only [List.find?_eq_none, decide_eq_true_eq]
          intro z hz
          have hlt := (hdy z hz).1 hneg
          omega
        have hne : key y ≠ 0 := by omega
        have hle : ¬ 0 < key y := by omega
        simp [hne, hle, hleft, ihl _ hl hdl hsizel, hafter]
      · simp [hzero, hleft, ihl _ hl hdl hsizel]
      · -- what comes before is less than the key as well
        have hbefore : l.inorder.find? (fun z => key z = 0) = none := by
          simp only [List.find?_eq_none, decide_eq_true_eq]
          intro z hz
          have hlt := (hdly z hz y List.mem_cons_self).2 hpos
          omega
        have hne : key y ≠ 0 := by omega
        simp [hne, hpos, hright, ihr _ hr hdr hsizer, hbefore]

/-- A comparison with a node directs the search. -/
theorem Sorted.directs (hc : TotalPreorder compare) (h : Sorted compare l) (x : Addr) :
    Directs (compare x) l := by
  induction l with
  | nil => exact .nil
  | cons a l ih =>
    obtain ⟨ha, hl⟩ := List.pairwise_cons.mp h
    constructor
    · intro z hz
      constructor
      · intro hlt
        exact hc.lt_of_lt (ha z hz) hlt
      · intro hlt
        by_contra hle
        have hxz := hc.trans x a z (Int.not_lt.mp hle) (ha z hz)
        omega
    · exact ih hl

theorem Represents.findFirst (h : Represents compare s c l) (hd : Directs key l)
    (hfuel : l.length ≤ fuel) :
    RBTree.find fuel s c key false = some (l.find? fun z => key z = 0) := by
  obtain ⟨t, n, ht, -, rfl⟩ := h.tree
  have hroot : root s c = t.root? := ht.root
  have hloop := ht.hangs.findFirst none hd (t.size_eq_length ▸ hfuel)
  simp only [RBTree.find, hroot, hloop, Option.or_none]

/-! ## Neighbors -/

theorem Represents.nodup (h : Represents compare s c l) : l.Nodup := by
  obtain ⟨t, n, ht, -, rfl⟩ := h.tree
  exact (List.nodup_cons.mp ht.nodup).2

end

theorem Represents.next_right_iff (h : Represents compare s c l) (hx : x ∈ l)
    (hfuel : l.length ≤ fuel) :
    RBTree.next fuel s x .right = some (some y) ↔ ∃ as bs, l = as ++ x :: y :: bs := by
  obtain ⟨as, bs, rfl⟩ := List.append_of_mem hx
  rw [(h.next hfuel).1]
  constructor
  · intro hy
    cases bs with
    | nil => cases hy
    | cons z bs =>
      cases hy
      exact ⟨as, bs, rfl⟩
  · rintro ⟨as', bs', heq⟩
    obtain ⟨rfl, rfl⟩ := append_cons_inj heq h.nodup
    rfl

theorem Represents.next_left_iff (h : Represents compare s c l) (hy : y ∈ l)
    (hfuel : l.length ≤ fuel) :
    RBTree.next fuel s y .left = some (some x) ↔ ∃ as bs, l = as ++ x :: y :: bs := by
  obtain ⟨as, bs, rfl⟩ := List.append_of_mem hy
  rw [(h.next hfuel).2]
  constructor
  · intro hx
    obtain ⟨as', rfl⟩ := List.getLast?_eq_some_iff.mp (Option.some_inj.mp hx)
    exact ⟨as', bs, by simp⟩
  · rintro ⟨as', bs', heq⟩
    have hsplit : as ++ y :: bs = (as' ++ [x]) ++ y :: bs' := by simp [heq]
    obtain ⟨rfl, rfl⟩ := append_cons_inj hsplit h.nodup
    simp

/-- The way back from a neighbor. -/
theorem Represents.next_opposite (h : Represents compare s c l) (hx : x ∈ l) (hy : y ∈ l)
    (hfuel : l.length ≤ fuel) :
    RBTree.next fuel s x d = some (some y) ↔ RBTree.next fuel s y d.opposite = some (some x) := by
  cases d with
  | left => exact (h.next_left_iff hx hfuel).trans (h.next_right_iff hy hfuel).symm
  | right => exact (h.next_right_iff hx hfuel).trans (h.next_left_iff hy hfuel).symm

/-! ## Iteration -/

/-- `RBTree_Visitor`, which asks to stop or not.  What it does with its argument is a state
of its own. -/
abbrev Visitor (Addr σ : Type) := Addr → Direction → σ → Bool × σ

/-- The loop of `_RBTree_Iterate`, with the nodes that the visitor is called on. -/
def iterateLoop (fuel : Nat) (s : State Addr) (dir : Direction) (visitor : Visitor Addr σ) :
    Nat → Option Addr → σ → Option (List Addr × σ)
  | _, none, arg => some ([], arg)
  | 0, some _, _ => none
  | turns + 1, some current, arg => do
      let (stop, arg) := visitor current dir arg
      let next ← next fuel s current dir
      if stop then some ([current], arg)
      else
        let (visited, arg) ← iterateLoop fuel s dir visitor turns next arg
        some (current :: visited, arg)

/-- `_RBTree_Iterate`. -/
def iterate (fuel : Nat) (s : State Addr) (rbtree : Addr) (dir : Direction)
    (visitor : Visitor Addr σ) (visitorArg : σ) : Option (List Addr × σ) :=
  iterateLoop fuel s dir visitor fuel (first s rbtree dir.opposite) visitorArg

/-- The nodes in the direction. -/
def inDirection (l : List Addr) : Direction → List Addr
  | .left => l.reverse
  | .right => l

/-- Visit one after the other until the visitor asks to stop. -/
def visitUntil (visit : Addr → σ → Bool × σ) : List Addr → σ → List Addr × σ
  | [], arg => ([], arg)
  | x :: l, arg =>
    let (stop, arg) := visit x arg
    if stop then ([x], arg)
    else
      let (visited, arg) := visitUntil visit l arg
      (x :: visited, arg)

theorem inDirection_next (h : Represents compare s c l) (hfuel : l.length ≤ fuel)
    (hl : inDirection l d = as ++ x :: bs) : RBTree.next fuel s x d = some bs.head? := by
  cases d with
  | left =>
    have hrev : l = bs.reverse ++ x :: as.reverse := by
      have hrr := congrArg List.reverse hl
      simpa [inDirection] using hrr
    subst hrev
    simp [(h.next hfuel).2]
  | right =>
    cases hl
    exact (h.next hfuel).1

/-- The loop visits what is left in the direction. -/
theorem Represents.iterateLoop (as : List Addr) (h : Represents compare s c l)
    (hfuel : l.length ≤ fuel) (visitor : Visitor Addr σ) (arg : σ) (hl : inDirection l d = as ++ bs)
    (hturns : bs.length ≤ turns) :
    RBTree.iterateLoop fuel s d visitor turns bs.head? arg =
      some (visitUntil (visitor · d) bs arg) := by
  induction bs generalizing as turns arg with
  | nil => cases turns <;> rfl
  | cons x bs ih =>
    cases turns with
    | zero => cases hturns
    | succ turns =>
      have hnext := inDirection_next h hfuel hl
      have hrest : inDirection l d = (as ++ [x]) ++ bs := by simp [hl]
      have hloop := ih (as ++ [x]) (visitor x d arg).2 hrest (Nat.le_of_succ_le_succ hturns)
      simp only [List.head?_cons, RBTree.iterateLoop, visitUntil, hnext, Option.bind_eq_bind,
        Option.bind_some, hloop]
      split <;> rfl

/-- `_RBTree_Iterate`. -/
theorem Represents.iterate (h : Represents compare s c l) (hfuel : l.length ≤ fuel) (d : Direction)
    (visitor : Visitor Addr σ) (arg : σ) :
    RBTree.iterate fuel s c d visitor arg =
      some (visitUntil (visitor · d) (inDirection l d) arg) := by
  have hfirst : RBTree.first s c d.opposite = (inDirection l d).head? := by
    rw [h.first]
    cases d with
    | left => exact List.head?_reverse.symm
    | right => rfl
  have hlen : (inDirection l d).length ≤ fuel := by
    cases d with
    | left => simpa [inDirection] using hfuel
    | right => exact hfuel
  rw [RBTree.iterate, hfirst]
  exact h.iterateLoop [] hfuel visitor arg rfl hlen

section

omit [DecidableEq Addr]

/-- What is visited comes first, and everything is unless the visitor asks to stop. -/
theorem visitUntil_prefix (visit : Addr → σ → Bool × σ) (l : List Addr) (arg : σ) :
    (visitUntil visit l arg).1 <+: l ∧
      ((∀ x a, (visit x a).1 = false) → (visitUntil visit l arg).1 = l) := by
  induction l generalizing arg with
  | nil => exact ⟨List.prefix_rfl, fun _ => rfl⟩
  | cons x l ih =>
    obtain ⟨hbefore, hall⟩ := ih (visit x arg).2
    simp only [visitUntil]
    split
    next hstop =>
      constructor
      · simp
      · intro hnever
        simp [hnever x arg] at hstop
    next hgo =>
      constructor
      · simpa using hbefore
      · intro hnever
        simp [hall hnever]

end

/-- **Search and iteration**: on a red-black tree whose nodes in order are `l`, a search that is
not unique returns the first node equal to the key, and `NULL` just when there is none; the next
node is the one behind or before a node in the order, so that the two directions undo each other;
and an iteration calls the visitor on the nodes in the order of its direction until it asks to
stop. -/
theorem rbtree_search (hc : TotalPreorder compare) (h : Represents compare s c l) :
    l.Nodup ∧ (∀ x, InTree s c x ↔ x ∈ l) ∧ ∀ fuel, l.length ≤ fuel →
      (∀ x, ∃ r, find fuel s c (compare x) false = some r ∧
        (r = none ↔ ∀ z ∈ l, compare x z ≠ 0) ∧
        ∀ z, r = some z ↔
          ∃ as bs, l = as ++ z :: bs ∧ compare x z = 0 ∧ ∀ y ∈ as, compare x y ≠ 0) ∧
      (∀ as x bs, l = as ++ x :: bs →
        next fuel s x .right = some bs.head? ∧ next fuel s x .left = some as.getLast?) ∧
      (∀ x ∈ l, ∀ y ∈ l, ∀ d, next fuel s x d = some (some y) ↔
        next fuel s y d.opposite = some (some x)) ∧
      ∀ (σ : Type) (visitor : Visitor Addr σ) (visitorArg : σ) (dir : Direction),
        let visits := visitUntil (visitor · dir) (inDirection l dir) visitorArg
        iterate fuel s c dir visitor visitorArg = some visits ∧ visits.1 <+: inDirection l dir ∧
          ((∀ x a, (visitor x dir a).1 = false) → visits.1 = inDirection l dir) := by
  refine ⟨h.nodup, fun x => h.inTree_iff, ?_⟩
  intro fuel hfuel
  refine ⟨?_, ?_, ?_, ?_⟩
  · intro x
    refine ⟨_, h.findFirst (h.sorted.directs hc x) hfuel, ?_, ?_⟩
    · simp
    · intro z
      simp only [List.find?_eq_some_iff_append, decide_eq_true_eq, Bool.not_eq_true',
        decide_eq_false_iff_not]
      constructor
      · rintro ⟨hz, as, bs, hl, has⟩
        exact ⟨as, bs, hl, hz, has⟩
      · rintro ⟨as, bs, hl, hz, has⟩
        exact ⟨hz, as, bs, hl, has⟩
  · intro as x bs hl
    subst hl
    exact h.next hfuel
  · intro x hx y hy d
    exact h.next_opposite hx hy hfuel
  · intro σ visitor visitorArg dir
    exact ⟨h.iterate hfuel dir visitor visitorArg, visitUntil_prefix _ _ _⟩

/-- Three nodes, the last two of them equal. -/
theorem rbtree_search_three :
    ∃ s : State Nat, (∀ fuel, 3 ≤ fuel →
        (∃ r, find fuel s 0 (compareTens 25) false = some r ∧
          ∀ z, r = some z ↔ ∃ as bs, [11, 21, 22] = as ++ z :: bs ∧ compareTens 25 z = 0 ∧
            ∀ y ∈ as, compareTens 25 y ≠ 0) ∧
        next fuel s 21 .left = some (some 11) ∧
        iterate fuel s 0 .left (fun z _ sum => (z == 21, sum + z)) 0 = some ([22, 21], 43)) := by
  have hc := compareTens_totalPreorder
  have hr₀ : Runs compareTens 0 exampleMemory [] _ := .nil
  obtain ⟨s₁, hr₁, h₁⟩ := hr₀.insert hc (represents_empty _) (x := 21) (by decide) (by decide)
  obtain ⟨s₂, hr₂, h₂⟩ := hr₁.insert hc h₁ (x := 11) (by decide) (by decide)
  obtain ⟨s₃, hr₃, h₃⟩ := hr₂.insert hc h₂ (x := 22) (by decide) (by decide)
  have hlist : Represents compareTens s₃ 0 [11, 21, 22] := h₃
  obtain ⟨-, -, hall⟩ := rbtree_search hc hlist
  refine ⟨s₃, ?_⟩
  intro fuel hfuel
  obtain ⟨hfind, hnext, -, hiterate⟩ := hall fuel hfuel
  obtain ⟨r, hr, -, hfirst⟩ := hfind 25
  exact ⟨⟨r, hr, hfirst⟩, (hnext [11] 21 [22] rfl).2, (hiterate Nat _ 0 .left).1⟩

end Rtems.RBTree
