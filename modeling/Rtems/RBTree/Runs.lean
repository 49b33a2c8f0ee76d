import Rtems.Lib.Runs
import Rtems.RBTree.Extract
import Rtems.Lib.StableInsert

/-!
# Runs of a red-black tree

The operations on a tree in any order, from the empty tree on.  A node is in the
tree if the child pointers lead to it from the root.
-/

namespace Rtems.RBTree

open Lib

variable {Addr : Type} [DecidableEq Addr] {s s' : State Addr} {c x y : Addr} {d : Direction}
  {t : Lib.Tree Addr} {ft : Direction → Option Addr} {l : List Addr} {compare : Compare Addr}

/-! ## Loops with more turns -/

theorem validateInsertLoop_extends (n : Nat) (s : State Addr) (theNode parent : Addr)
    (grandparent : Option Addr) :
    Extends (validateInsertLoop n s theNode parent grandparent)
      (validateInsertLoop (n + 1) s theNode parent grandparent) := by
  induction n generalizing s theNode parent grandparent with
  | zero => exact .none _
  | succ n ih =>
    unfold validateInsertLoop
    refine .ite (.bind (.refl _) fun g => ?_) (.refl _)
    refine .ite ?_ (.refl _)
    refine .bind (.refl _) fun u => .bind (.refl _) fun parent => ?_
    exact .ite (.refl _) (ih _ _ _ _)

theorem insertLoop_extends (n : Nat) (theNode iterNode : Addr) (isUnique : Bool) :
    Extends (insertLoop s c theNode compare isUnique n iterNode)
      (insertLoop s c theNode compare isUnique (n + 1) iterNode) := by
  induction n generalizing iterNode with
  | zero => exact .none _
  | succ n ih =>
    unfold insertLoop
    refine .ite (.refl _) ?_
    dsimp only
    cases s.child iterNode (if compare theNode iterNode < 0 then .left else .right) with
    | none => exact .refl _
    | some next => exact ih next

section

omit [DecidableEq Addr]

theorem descend_extends (n : Nat) (current : Addr) :
    Extends (descend s d n current) (descend s d (n + 1) current) := by
  induction n generalizing current with
  | zero => exact .none _
  | succ n ih =>
    unfold descend
    cases s.child current d with
    | none => exact .refl _
    | some next => exact ih next

end

theorem climb_extends (n : Nat) (node parent : Addr) :
    Extends (climb s d n node parent) (climb s d (n + 1) node parent) := by
  induction n generalizing node parent with
  | zero => exact .none _
  | succ n ih =>
    unfold climb
    cases s.parent parent with
    | none => exact .refl _
    | some grandparent => exact .ite (ih _ _) (.refl _)

theorem extractValidateLoop_extends (n : Nat) (s : State Addr) (theNode parent : Addr) :
    Extends (extractValidateLoop n s theNode parent)
      (extractValidateLoop (n + 1) s theNode parent) := by
  induction n generalizing s theNode parent with
  | zero => exact .none _
  | succ n ih =>
    unfold extractValidateLoop
    refine .ite (.bind (.refl _) fun r => .bind (.refl _) fun sibling => ?_) (.refl _)
    refine .ite (.ite (.refl _) ?_) (.refl _)
    exact .bind (.refl _) fun parent => ih _ _ _

theorem validateInsert_extends (n : Nat) (theNode : Addr) :
    Extends (validateInsert n s theNode) (validateInsert (n + 1) s theNode) :=
  .bind (.refl _) fun _ => .bind (validateInsertLoop_extends n _ _ _ _) fun _ => .refl _

theorem next_extends (n : Nat) (node : Addr) : Extends (next n s node d) (next (n + 1) s node d) := by
  unfold next
  cases s.child node d with
  | some current => exact .bind (descend_extends n current) fun _ => .refl _
  | none => exact .bind (.refl _) fun parent => .ite (.refl _) (climb_extends n _ _)

theorem extractValidate_extends (n : Nat) (theNode : Addr) :
    Extends (extractValidate n s theNode) (extractValidate (n + 1) s theNode) :=
  .bind (.refl _) fun _ => .ite (.refl _) (.bind (extractValidateLoop_extends n _ _ _) fun _ => .refl _)

theorem vacate_extends (n : Nat) (theNode : Addr) (leaf : Option Addr) :
    Extends (vacate n s theNode leaf) (vacate (n + 1) s theNode leaf) := by
  cases leaf with
  | some leaf => exact .refl _
  | none => exact extractValidate_extends n theNode

theorem insert_extends (n : Nat) (theNode : Addr) (isUnique : Bool) :
    Extends (insert n s c theNode compare isUnique) (insert (n + 1) s c theNode compare isUnique) := by
  unfold insert
  cases root s c with
  | none => exact .refl _
  | some iterNode =>
    refine .bind (insertLoop_extends n theNode iterNode isUnique) fun r => ?_
    obtain ⟨s', found⟩ := r
    cases found with
    | some y => exact .refl _
    | none => exact .bind (validateInsert_extends n theNode) fun _ => .refl _

theorem advanceFirst_extends (n : Nat) (theNode : Addr) :
    Extends (advanceFirst n s c theNode d) (advanceFirst (n + 1) s c theNode d) :=
  .ite (.bind (next_extends n theNode) fun _ => .refl _) (.refl _)

theorem extract_extends (n : Nat) (theNode : Addr) :
    Extends (extract n s c theNode) (extract (n + 1) s c theNode) := by
  refine .bind (advanceFirst_extends n theNode) fun s₁ => ?_
  refine .bind (advanceFirst_extends n theNode) fun s₂ => ?_
  cases s₂.child theNode .left with
  | none => exact .bind (vacate_extends n _ _) fun _ => .refl _
  | some left =>
    cases s₂.child theNode .right with
    | none => exact .bind (vacate_extends n _ _) fun _ => .refl _
    | some right =>
      exact .bind (descend_extends n left) fun target => .bind (vacate_extends n _ _) fun _ => .refl _

/-! ## Nodes in the tree -/

/-- The child pointers lead from the root to the node. -/
inductive InTree (s : State Addr) (c : Addr) : Addr → Prop where
  | root {x : Addr} (h : root s c = some x) : InTree s c x
  | child {x y : Addr} {d : Direction} (h : InTree s c x) (hy : s.child x d = some y) : InTree s c y

section

omit [DecidableEq Addr]

theorem Holds.mem_of_inTree (h : Holds s c ft t) (hx : InTree s c x) : x ∈ t.inorder := by
  induction hx with
  | root hr => exact Lib.Tree.mem_inorder_of_root? (h.root.symm.trans hr)
  | @child x y d hx hy ih =>
    obtain ⟨ps, col, a, b, rfl⟩ := Lib.Path.exists_fill ih
    obtain ⟨-, -, hleft, hright, -, -⟩ := h.subtree
    rw [Lib.Path.inorder_fill, List.mem_append, List.mem_append]
    refine .inl (.inr ?_)
    cases d with
    | left =>
      exact List.mem_append_left _ (Lib.Tree.mem_inorder_of_root? (hleft.symm.trans hy))
    | right =>
      exact List.mem_append_right _
        (List.mem_cons_of_mem _ (Lib.Tree.mem_inorder_of_root? (hright.symm.trans hy)))

theorem Holds.inTree_up {ps : Lib.Path Addr} (h : Holds s c ft (Lib.Path.fill ps t))
    (hx : t.root? = some x) : InTree s c x := by
  induction ps generalizing t x with
  | nil => exact .root (h.root.trans hx)
  | cons f ps ih => exact .child (ih h Lib.Tree.root?_branch) (h.hole.trans hx)

theorem Holds.inTree_iff (h : Holds s c ft t) : InTree s c x ↔ x ∈ t.inorder := by
  constructor
  · exact h.mem_of_inTree
  · intro hx
    obtain ⟨ps, col, a, b, rfl⟩ := Lib.Path.exists_fill hx
    exact h.inTree_up rfl

theorem Represents.inTree_iff (h : Represents compare s c l) : InTree s c x ↔ x ∈ l := by
  obtain ⟨t, n, ht, -, rfl⟩ := h.tree
  exact ht.inTree_iff

end

/-! ## Operations -/

inductive Op (Addr : Type) where
  | insert (theNode : Addr) (isUnique : Bool)
  | extract (theNode : Addr)

/-- An operation with a bound on the turns of its loops. -/
def Op.run (compare : Compare Addr) (c : Addr) (fuel : Nat) (s : State Addr) :
    Op Addr → Option (State Addr × Option Addr)
  | .insert theNode isUnique => RBTree.insert fuel s c theNode compare isUnique
  | .extract theNode => do some (← RBTree.extract fuel s c theNode, none)

/-- The operation comes to its end. -/
def Op.Returns (compare : Compare Addr) (c : Addr) (s : State Addr) (op : Op Addr)
    (s' : State Addr) (r : Option Addr) : Prop :=
  ∃ fuel, op.run compare c fuel s = some (s', r)

/-- A node to insert is not in the tree, and one to extract is. -/
def Op.Valid (c : Addr) (s : State Addr) : Op Addr → Prop
  | .insert theNode _ => theNode ≠ c ∧ ¬ InTree s c theNode
  | .extract theNode => InTree s c theNode

theorem Op.run_extends (op : Op Addr) (n : Nat) :
    Extends (op.run compare c n s) (op.run compare c (n + 1) s) := by
  cases op with
  | insert theNode isUnique => exact insert_extends n theNode isUnique
  | extract theNode => exact .bind (extract_extends n theNode) fun _ => .refl _

/-- The result does not depend on the bound. -/
theorem Op.Returns.unique {op : Op Addr} {s₁ s₂ : State Addr} {r₁ r₂ : Option Addr}
    (h₁ : op.Returns compare c s s₁ r₁) (h₂ : op.Returns compare c s s₂ r₂) :
    s₁ = s₂ ∧ r₁ = r₂ := by
  obtain ⟨m, hm⟩ := h₁
  obtain ⟨n, hn⟩ := h₂
  have hext : ∀ k, m ≤ k ∧ n ≤ k → some (s₁, r₁) = some (s₂, r₂) := by
    intro k hk
    have hm' := Extends.of_succ op.run_extends hk.1 _ hm
    exact hm'.symm.trans (Extends.of_succ op.run_extends hk.2 _ hn)
  have heq := hext (max m n) ⟨Nat.le_max_left m n, Nat.le_max_right m n⟩
  exact Prod.mk.inj (Option.some.inj heq)

/-- What the operation does to the nodes of the tree, in order. -/
def Op.Meets (compare : Compare Addr) (c : Addr) (s : State Addr) (l : List Addr)
    (s' : State Addr) (r : Option Addr) : Op Addr → Prop
  | .insert theNode isUnique =>
    (isUnique = true ∧ ∃ y ∈ l, compare theNode y = 0 ∧ r = some y ∧ s' = s) ∨
    ((isUnique = true → ∀ z ∈ l, compare theNode z ≠ 0) ∧ r = none ∧ ∃ as bs, l = as ++ bs ∧
      (∀ z ∈ as, compare z theNode ≤ 0) ∧ (∀ z ∈ bs, 0 < compare z theNode) ∧
      Represents compare s' c (as ++ theNode :: bs))
  | .extract theNode => r = none ∧ Represents compare s' c (l.erase theNode)

section

omit [DecidableEq Addr]

/-- The nodes that are not greater come first. -/
theorem Sorted.filter_append (hc : TotalPreorder compare) (h : Sorted compare l) (x : Addr) :
    l.filter (! RBTree.before compare x ·) ++ l.filter (RBTree.before compare x) = l := by
  induction l with
  | nil => rfl
  | cons a l ih =>
    obtain ⟨ha, hl⟩ := List.pairwise_cons.mp h
    cases hb : RBTree.before compare x a with
    | false => simp [hb, ih hl]
    | true =>
      have hall : ∀ z ∈ l, RBTree.before compare x z = true := fun z hz =>
        decide_eq_true (hc.lt_of_lt (ha z hz) (of_decide_eq_true hb))
      have hnone : l.filter (! RBTree.before compare x ·) = [] :=
        List.filter_eq_nil_iff.mpr fun z hz => by simp [hall z hz]
      simp [hb, hnone, List.filter_eq_self.mpr hall]

end

/-- Every operation returns, and does to the tree what it should. -/
theorem Represents.step (hc : TotalPreorder compare) (h : Represents compare s c l) {op : Op Addr}
    (hop : op.Valid c s) :
    ∃ s' r, op.Returns compare c s s' r ∧ op.Meets compare c s l s' r := by
  cases op with
  | insert x isUnique =>
    have hxl : x ∉ l := fun hx => hop.2 (h.inTree_iff.mpr hx)
    rcases h.insert hc hop.1 hxl (Nat.le_refl _) with ⟨hu, y, hy, h0, hs⟩ | ⟨hu, s', hs, h'⟩
    · exact ⟨s, some y, ⟨_, hs⟩, .inl ⟨hu, y, hy, h0, rfl, rfl⟩⟩
    · refine ⟨s', none, ⟨_, hs⟩, .inr ⟨hu, rfl, _, _, (h.sorted.filter_append hc x).symm, ?_, ?_, h'⟩⟩
      · intro z hz
        have := (List.mem_filter.mp hz).2
        refine (hc.flip z x).mpr (Int.not_lt.mp fun hlt => ?_)
        simp [RBTree.before, hlt] at this
      · intro z hz
        have hlt : compare x z < 0 := of_decide_eq_true (List.mem_filter.mp hz).2
        refine Int.not_le.mp fun hle => ?_
        have := (hc.flip z x).mp hle
        omega
  | extract x =>
    obtain ⟨s', hs, h'⟩ := h.extract (h.inTree_iff.mp hop) (Nat.le_refl _)
    refine ⟨s', none, ⟨l.length, ?_⟩, rfl, h'⟩
    rw [Op.run, hs]
    rfl

/-- After an operation there is a tree again. -/
theorem Op.Meets.represents {op : Op Addr} {r : Option Addr} (h : Represents compare s c l)
    (hm : op.Meets compare c s l s' r) : ∃ l', Represents compare s' c l' := by
  cases op with
  | insert x isUnique =>
    rcases hm with ⟨-, y, -, -, -, rfl⟩ | ⟨-, -, as, bs, -, -, -, h'⟩
    · exact ⟨l, h⟩
    · exact ⟨_, h'⟩
  | extract x => exact ⟨_, hm.2⟩

/-! ## Runs -/

/-- A run of operations from the empty tree. -/
inductive Runs (compare : Compare Addr) (c : Addr) (s₀ : State Addr) :
    List (Op Addr) → State Addr → Prop where
  | nil : Runs compare c s₀ [] (initializeEmpty s₀ c)
  | snoc {ops : List (Op Addr)} {s s' : State Addr} {op : Op Addr} {r : Option Addr}
      (h : Runs compare c s₀ ops s) (hop : op.Valid c s) (hr : op.Returns compare c s s' r) :
      Runs compare c s₀ (ops ++ [op]) s'

theorem represents_empty (s₀ : State Addr) :
    Represents compare (initializeEmpty s₀ c) c [] := by
  refine ⟨⟨.nil, 0, ⟨?_, ?_, ?_, trivial, fun d => ?_⟩, .nil, rfl⟩, .nil⟩
  · exact List.nodup_singleton c
  · simp [initializeEmpty, setFirst]
  · simp [initializeEmpty, setFirst, Lib.Tree.root?]
  · cases d with
    | left => simp [initializeEmpty, setFirst, first, ends]
    | right => simp [initializeEmpty, setFirst, first, ends]

theorem Runs.represents {s₀ : State Addr} {ops : List (Op Addr)} (hc : TotalPreorder compare)
    (h : Runs compare c s₀ ops s) : ∃ l, Represents compare s c l := by
  induction h with
  | nil => exact ⟨[], represents_empty s₀⟩
  | snoc h hop hr ih =>
    obtain ⟨l, hl⟩ := ih
    obtain ⟨s'', r', hr', hm⟩ := hl.step hc hop
    obtain ⟨rfl, rfl⟩ := hr.unique hr'
    exact hm.represents hl

/-- **Correctness of the red-black tree**: after every run there is a red-black tree, with its
nodes in the order of the comparison and its first nodes up to date, and every further operation
returns and does to the order of the nodes what it should. -/
theorem rbtree_correct {s₀ : State Addr} {ops : List (Op Addr)} (hc : TotalPreorder compare)
    (h : Runs compare c s₀ ops s) :
    ∃ l, Represents compare s c l ∧ (∀ x, InTree s c x ↔ x ∈ l) ∧ ∀ op : Op Addr, op.Valid c s →
      (∃ s' r, op.Returns compare c s s' r) ∧
      ∀ s' r, op.Returns compare c s s' r → op.Meets compare c s l s' r := by
  obtain ⟨l, hl⟩ := h.represents hc
  refine ⟨l, hl, fun x => hl.inTree_iff, fun op hop => ?_⟩
  obtain ⟨s', r, hr, hm⟩ := hl.step hc hop
  refine ⟨⟨s', r, hr⟩, fun s'' r'' hr'' => ?_⟩
  obtain ⟨rfl, rfl⟩ := hr.unique hr''
  exact hm

/-- Nodes compared by their tens. -/
def compareTens : Compare Nat := fun a b => (a / 10 : Nat) - (b / 10 : Nat)

theorem compareTens_totalPreorder : TotalPreorder compareTens := by
  refine ⟨fun a b => ?_, fun a b c hab hbc => ?_⟩
  · simp only [compareTens]
    omega
  · simp only [compareTens] at hab hbc ⊢
    omega

/-- A run goes on with a node that is put into the tree. -/
theorem Runs.insert {s₀ : State Addr} {ops : List (Op Addr)} (h : Runs compare c s₀ ops s)
    (hc : TotalPreorder compare) (hl : Represents compare s c l) (hx : x ≠ c) (hxl : x ∉ l) :
    ∃ s', Runs compare c s₀ (ops ++ [.insert x false]) s' ∧
      Represents compare s' c (insertSorted compare x l) := by
  have hcase : (false = true ∧ _) ∨ _ := hl.insert hc hx hxl (Nat.le_refl _)
  rcases hcase with ⟨hu, -⟩ | ⟨-, s', hs, h'⟩
  · cases hu
  · exact ⟨s', h.snoc ⟨hx, fun hi => hxl (hl.inTree_iff.mp hi)⟩ ⟨_, hs⟩, h'⟩

/-- A run goes on with a node that is taken out of the tree. -/
theorem Runs.extract {s₀ : State Addr} {ops : List (Op Addr)} (h : Runs compare c s₀ ops s)
    (hl : Represents compare s c l) (hxl : x ∈ l) :
    ∃ s', Runs compare c s₀ (ops ++ [.extract x]) s' ∧ Represents compare s' c (l.erase x) := by
  obtain ⟨s', hs, h'⟩ := hl.extract hxl (Nat.le_refl _)
  exact ⟨s', h.snoc (hl.inTree_iff.mpr hxl) ⟨_, by rw [Op.run, hs]; rfl⟩, h'⟩

omit [DecidableEq Addr]

theorem Represents.first (h : Represents compare s c l) (d : Direction) :
    RBTree.first s c d = ends l d := by
  obtain ⟨t, n, ht, -, -⟩ := h.tree
  exact ht.first d

def exampleMemory : State Nat := ⟨fun _ => none, fun _ _ => none, fun _ => .red, none⟩

/-- Three nodes, two of them equal; the last one is extracted again. -/
theorem rbtree_correct_three :
    ∃ s : State Nat, Runs compareTens 0 exampleMemory
        [.insert 21 false, .insert 11 false, .insert 12 false, .extract 21] s ∧
      first s 0 .left = some 11 ∧ first s 0 .right = some 12 ∧
      ∃ l, Represents compareTens s 0 l ∧ (∀ x, InTree s 0 x ↔ x ∈ l) ∧
        ∀ op : Op Nat, op.Valid 0 s → (∃ s' r, op.Returns compareTens 0 s s' r) ∧
          ∀ s' r, op.Returns compareTens 0 s s' r → op.Meets compareTens 0 s l s' r := by
  have hc := compareTens_totalPreorder
  have hr₀ : Runs compareTens 0 exampleMemory [] _ := .nil
  obtain ⟨s₁, hr₁, h₁⟩ := hr₀.insert hc (represents_empty _) (x := 21) (by decide) (by decide)
  obtain ⟨s₂, hr₂, h₂⟩ := hr₁.insert hc h₁ (x := 11) (by decide) (by decide)
  obtain ⟨s₃, hr₃, h₃⟩ := hr₂.insert hc h₂ (x := 12) (by decide) (by decide)
  obtain ⟨s₄, hr₄, h₄⟩ := hr₃.extract h₃ (x := 21) (by decide)
  exact ⟨s₄, hr₄, h₄.first .left, h₄.first .right, rbtree_correct hc hr₄⟩

end Rtems.RBTree

/-!
## Trees compared by a key

A tree whose nodes belong to elements and are compared by a number.  The
control is at the address `none`, and the node of `a` at `some a`.  In order the
tree holds a list, and the insertion of a node that is not unique is the stable
insertion into the list.
-/

namespace Rtems.RBTree

open Lib

variable {α : Type} [DecidableEq α] {compare compare' : Compare (Option α)}
  {key : Option α → Nat} {s : State (Option α)} {l : List α} {a b : α}

/-- The comparison compares the keys. -/
structure ComparesBy (compare : Compare (Option α)) (key : Option α → Nat) : Prop where
  nonpos : ∀ x y, compare x y ≤ 0 ↔ key x ≤ key y
  nonneg : ∀ x y, 0 ≤ compare x y ↔ key y ≤ key x

section

omit [DecidableEq α]

theorem ComparesBy.totalPreorder (hc : ComparesBy compare key) : TotalPreorder compare where
  flip x y := (hc.nonpos x y).trans (hc.nonneg y x).symm
  trans x y z hxy hyz := by
    rw [hc.nonpos] at *
    exact Nat.le_trans hxy hyz

theorem ComparesBy.before (hc : ComparesBy compare key) (a b : α) :
    before compare (some a) (some b) = decide (key (some a) < key (some b)) := by
  refine decide_eq_decide.mpr ?_
  rw [← Int.not_le, hc.nonneg, Nat.not_le]

end

/-- The tree holds these elements, the first one first. -/
def Lists (compare : Compare (Option α)) (s : State (Option α)) (l : List α) : Prop :=
  Represents compare s none (l.map some)

theorem lists_empty (s : State (Option α)) : Lists compare (initializeEmpty s none) [] :=
  represents_empty s

section

omit [DecidableEq α]

theorem Lists.ordered (h : Lists compare s l) (hc : ComparesBy compare key) :
    Ordered (fun a => key (some a)) l :=
  (List.pairwise_map.mp h.sorted).imp fun hab => (hc.nonpos _ _).mp hab

/-- The tree is the same for another comparison with the same order on the list. -/
theorem Lists.congr (h : Lists compare s l) (hc : ComparesBy compare' key)
    (hl : Ordered (fun a => key (some a)) l) : Lists compare' s l :=
  ⟨h.tree, List.pairwise_map.mpr (hl.imp fun hab => (hc.nonpos _ _).mpr hab)⟩

theorem Lists.nodup (h : Lists compare s l) : l.Nodup := by
  obtain ⟨t, n, ht, -, hin⟩ := h.tree
  have hnodup : t.inorder.Nodup := (List.nodup_cons.mp ht.nodup).2
  rw [hin] at hnodup
  exact List.Nodup.of_map some hnodup

/-- The new node of the tree comes where the list has its element. -/
theorem insertSorted_map (hc : ComparesBy compare key) (hl : Ordered (fun a => key (some a)) l) :
    insertSorted compare (some a) (l.map some) =
      (stableInsert (fun a => key (some a)) a l).map some := by
  induction l with
  | nil => rfl
  | cons b l ih =>
    obtain ⟨hb, hl⟩ := List.pairwise_cons.mp hl
    rw [stableInsert, List.orderedInsert_cons]
    split
    next hlt =>
      have hall : ∀ x ∈ (b :: l).map some, before compare (some a) x = true := by
        intro x hx
        obtain ⟨d, hd, rfl⟩ := List.mem_map.mp hx
        rw [hc.before, decide_eq_true_iff]
        rcases List.mem_cons.mp hd with rfl | hd
        · exact hlt
        · exact Nat.lt_of_lt_of_le hlt (hb d hd)
      have hnone : ((b :: l).map some).filter (! before compare (some a) ·) = [] :=
        List.filter_eq_nil_iff.mpr fun x hx => by simp [hall x hx]
      rw [insertSorted, hnone, List.filter_eq_self.mpr hall]
      rfl
    next hlt =>
      have hba : before compare (some a) (some b) = false := by
        rw [hc.before]
        exact decide_eq_false hlt
      have hih := ih hl
      rw [insertSorted] at hih
      rw [insertSorted, List.map_cons, List.filter_cons_of_pos (by simp [hba]),
        List.filter_cons_of_neg (by simp [hba]), List.cons_append, hih]
      rfl

end

/-- `_RBTree_Insert` of an element that is not in the tree. -/
theorem Lists.insert (h : Lists compare s l) (hc : ComparesBy compare key) (ha : a ∉ l) :
    ∃ n s', insert n s none (some a) compare false = some (s', none) ∧
      Lists compare s' (stableInsert (fun a => key (some a)) a l) := by
  have hmem : some a ∉ l.map some := by
    simpa using ha
  have hcase : (false = true ∧ _) ∨ _ := Represents.insert hc.totalPreorder h
    (Option.some_ne_none a) hmem (Nat.le_refl _)
  rcases hcase with ⟨hu, -⟩ | ⟨-, s', hs, hrep⟩
  · cases hu
  · rw [insertSorted_map hc (h.ordered hc)] at hrep
    exact ⟨_, s', hs, hrep⟩

theorem map_some_erase (l : List α) (a : α) :
    @List.erase (Option α) instBEqOfDecidableEq (l.map some) (some a) = (l.erase a).map some :=
  (@List.map_erase _ _ _ _ instBEqOfDecidableEq _ _ (Option.some_injective α) a l).symm

/-- `_RBTree_Extract` of an element of the tree. -/
theorem Lists.extract (h : Lists compare s l) (ha : a ∈ l) :
    ∃ n s', extract n s none (some a) = some s' ∧ Lists compare s' (l.erase a) := by
  obtain ⟨s', hs, hrep⟩ := Represents.extract h (List.mem_map_of_mem ha) (Nat.le_refl _)
  rw [map_some_erase] at hrep
  exact ⟨_, s', hs, hrep⟩

omit [DecidableEq α]

/-- `_RBTree_First`. -/
theorem Lists.first (h : Lists compare s l) : RBTree.first s none .left = l.head?.map some := by
  rw [Represents.first h .left, ends, List.head?_map]

end Rtems.RBTree
