import Rtems.Lib.RedBlack

/-!
# AVL trees with a hole

Search trees whose nodes tell which of their subtrees is higher, and paths from a subtree up to the
root.  Both directions are treated alike: `branch d` builds a node from the subtree in the direction
`d` and the one on the other side.

Insertion and removal go down to a place, change it and mend the nodes of the path.  What they do is
told by the nodes from left to right; `Balanced` is the shape of the tree, and `Path.Balanced` that of
a tree with a hole for a subtree of a given height.
-/

namespace Rtems.Avl

open Lib (Direction)

inductive Tree (α : Type*) where
  | leaf
  | node (tilt : Option Direction) (left : Tree α) (x : α) (right : Tree α)

variable {α : Type*} {d e : Direction} {tilt tilt' : Option Direction} {x y : α} {t u near far : Tree α}
  {n : ℕ}

namespace Tree

def root? : Tree α → Option α
  | leaf => none
  | node _ _ x _ => some x

/-- Which subtree of the root is higher. -/
def rootTilt : Tree α → Option Direction
  | leaf => none
  | node tilt _ _ _ => tilt

def height : Tree α → ℕ
  | leaf => 0
  | node _ l _ r => max l.height r.height + 1

/-- The nodes from left to right. -/
def toList : Tree α → List α
  | leaf => []
  | node _ l x r => l.toList ++ x :: r.toList

/-- A node with `near` in the direction `d` and `far` on the other side. -/
def branch (d : Direction) (tilt : Option Direction) (x : α) (near far : Tree α) : Tree α :=
  match d with
  | .left => node tilt near x far
  | .right => node tilt far x near

/-- The parts of a node, seen from a side. -/
def parts (d : Direction) : Tree α → Option (Option Direction × α × Tree α × Tree α)
  | leaf => none
  | node tilt l x r =>
    match d with
    | .left => some (tilt, x, l, r)
    | .right => some (tilt, x, r, l)

/-- The root with subtrees of one height. -/
def settle : Tree α → Tree α
  | leaf => leaf
  | node _ l x r => node none l x r

@[simp]
theorem parts_branch : (branch d tilt x near far).parts d = some (tilt, x, near, far) := by
  cases d <;> rfl

theorem eq_branch_of_parts (h : t.parts d = some (tilt, x, near, far)) :
    t = branch d tilt x near far := by
  cases t with
  | leaf => cases h
  | node tilt' l y r => cases d <;> cases h <;> rfl

@[simp]
theorem root?_branch : (branch d tilt x near far).root? = some x := by
  cases d <;> rfl

@[simp]
theorem rootTilt_branch : (branch d tilt x near far).rootTilt = tilt := by
  cases d <;> rfl

theorem branch_opposite : branch d.opposite tilt x near far = branch d tilt x far near := by
  cases d <;> rfl

theorem exists_branch (d : Direction) (h : t ≠ leaf) :
    ∃ x near far, t = branch d t.rootTilt x near far := by
  cases t with
  | leaf => exact absurd rfl h
  | node tilt l y r =>
    cases d with
    | left => exact ⟨y, l, r, rfl⟩
    | right => exact ⟨y, r, l, rfl⟩

theorem height_branch : (branch d tilt x near far).height = max near.height far.height + 1 := by
  cases d with
  | left => rfl
  | right => exact congrArg (· + 1) (Nat.max_comm _ _)

@[simp]
theorem toList_leaf : (leaf : Tree α).toList = [] := rfl

@[simp]
theorem toList_node {l r : Tree α} : (node tilt l x r).toList = l.toList ++ x :: r.toList := rfl

@[simp]
theorem toList_settle : t.settle.toList = t.toList := by
  cases t <;> rfl

@[simp]
theorem mem_toList_branch {z : α} : z ∈ (branch d tilt x near far).toList ↔
    z = x ∨ z ∈ near.toList ∨ z ∈ far.toList := by
  cases d with
  | left =>
    simp only [branch, toList_node, List.mem_append, List.mem_cons]
    exact or_left_comm
  | right =>
    simp only [branch, toList_node, List.mem_append, List.mem_cons]
    exact or_left_comm.trans (or_congr_right or_comm)

theorem toList_branch_perm :
    (branch d tilt x near far).toList.Perm (x :: (near.toList ++ far.toList)) := by
  cases d with
  | left => exact List.perm_middle
  | right => exact List.perm_middle.trans (List.perm_append_comm.cons x)

theorem nodup_toList_branch : (branch d tilt x near far).toList.Nodup ↔
    (x ∉ near.toList ∧ x ∉ far.toList) ∧ near.toList.Nodup ∧ far.toList.Nodup ∧
      ∀ z ∈ near.toList, z ∉ far.toList := by
  rw [toList_branch_perm.nodup_iff, List.nodup_cons, List.mem_append, not_or, List.nodup_append]
  refine and_congr_right fun _ => and_congr_right fun _ => and_congr_right fun _ => ?_
  exact ⟨fun h z hz hz' => h z hz z hz' rfl, fun h z hz w hw e => h z hz (e ▸ hw)⟩

/-! ## Balance -/

/-- The heights of the subtrees of a node are what its tilt says. -/
def Leans (d : Direction) (tilt : Option Direction) (m n : ℕ) : Prop :=
  (tilt = none → m = n) ∧ (tilt = some d → m = n + 1) ∧ (tilt = some d.opposite → n = m + 1)

/-- Every node has subtrees of about the same height and knows which one is higher. -/
def Balanced : Tree α → Prop
  | leaf => True
  | node tilt l _ r => Leans .left tilt l.height r.height ∧ Balanced l ∧ Balanced r

theorem Leans.opposite {m n : ℕ} (h : Leans d tilt m n) : Leans d.opposite tilt n m := by
  refine ⟨fun he => (h.1 he).symm, h.2.2, fun he => h.2.1 ?_⟩
  rw [he, Direction.opposite_opposite]

theorem balanced_branch : Balanced (branch d tilt x near far) ↔
    Leans d tilt near.height far.height ∧ Balanced near ∧ Balanced far := by
  cases d with
  | left => exact Iff.rfl
  | right =>
    constructor
    · rintro ⟨h, hl, hr⟩
      exact ⟨h.opposite, hr, hl⟩
    · rintro ⟨h, hl, hr⟩
      exact ⟨h.opposite, hr, hl⟩

@[simp]
theorem leans_none {m n : ℕ} : Leans d none m n ↔ m = n := by
  simp [Leans]

@[simp]
theorem leans_near {m n : ℕ} : Leans d (some d) m n ↔ m = n + 1 := by
  simp [Leans]

@[simp]
theorem leans_far {m n : ℕ} : Leans d (some d.opposite) m n ↔ n = m + 1 := by
  simp [Leans]

theorem tilt_cases (d : Direction) (tilt : Option Direction) :
    tilt = none ∨ tilt = some d ∨ tilt = some d.opposite := by
  cases tilt with
  | none => exact .inl rfl
  | some e =>
    rcases d.eq_or_opposite e with rfl | rfl
    · exact .inr (.inl rfl)
    · exact .inr (.inr rfl)

/-- The least number of nodes of a balanced tree of a height. -/
def minSize : ℕ → ℕ
  | 0 => 0
  | 1 => 1
  | n + 2 => minSize (n + 1) + minSize n + 1

theorem minSize_le_succ (n : ℕ) : minSize n ≤ minSize (n + 1) := by
  cases n with
  | zero => exact Nat.zero_le 1
  | succ n => exact Nat.le_succ_of_le (Nat.le_add_right _ _)

theorem minSize_mono {m n : ℕ} (h : m ≤ n) : minSize m ≤ minSize n := by
  induction h with
  | refl => exact Nat.le_refl _
  | step h ih => exact Nat.le_trans ih (minSize_le_succ _)

theorem minSize_height_le (h : Balanced t) : minSize t.height ≤ t.toList.length := by
  induction t with
  | leaf => exact Nat.le_refl 0
  | node tilt l x r ihl ihr =>
    obtain ⟨hlean, hl, hr⟩ := h
    have hl' := ihl hl
    have hr' := ihr hr
    rw [height, toList_node, List.length_append, List.length_cons]
    rcases tilt_cases .left tilt with rfl | rfl | rfl
    · rw [leans_none] at hlean
      rw [hlean, Nat.max_self]
      rw [hlean] at hl'
      cases hn : r.height with
      | zero => exact Nat.succ_le_of_lt (Nat.zero_lt_succ _)
      | succ n =>
        have := minSize_le_succ n
        rw [hn] at hl' hr'
        rw [minSize]
        omega
    · rw [leans_near] at hlean
      rw [hlean] at hl' ⊢
      rw [Nat.max_eq_left (Nat.le_succ _), minSize]
      omega
    · rw [leans_far] at hlean
      rw [hlean] at hr' ⊢
      rw [Nat.max_eq_right (Nat.le_succ _), minSize]
      omega

end Tree

open Avl.Tree

/-! ## Turns -/

/-- The turn that brings the root of the subtree in the direction `d` up. -/
def simpleTurn (d : Direction) (tilt₁ tilt : Option Direction) (x₁ : α) (near₁ far₁ : Tree α) (x : α)
    (far : Tree α) : Tree α :=
  branch d tilt₁ x₁ near₁ (branch d tilt x far₁ far)

/-- The turn that brings up the root of the subtree on the other side of the one in the direction
`d`; `tilt₂` is its tilt before. -/
def doubleTurn (d : Direction) (tilt₂ : Option Direction) (x₁ : α) (near₁ : Tree α) (x₂ : α)
    (near₂ far₂ : Tree α) (x : α) (far : Tree α) : Tree α :=
  branch d none x₂ (branch d (if tilt₂ = some d.opposite then some d else none) x₁ near₁ near₂)
    (branch d (if tilt₂ = some d then some d.opposite else none) x far₂ far)

/-- Mend a node whose subtree in the direction `d` has grown.  The flag says whether the whole has. -/
def grow (d : Direction) (tilt : Option Direction) (x : α) (near far : Tree α) : Tree α × Bool :=
  if tilt = some d.opposite then (branch d none x near far, false)
  else if tilt = none then (branch d (some d) x near far, true)
  else
    match near.parts d with
    | none => (branch d tilt x near far, false)
    | some (tilt₁, x₁, near₁, far₁) =>
      if tilt₁ = some d then (simpleTurn d none none x₁ near₁ far₁ x far, false)
      else
        match far₁.parts d with
        | none => (branch d tilt x near far, false)
        | some (tilt₂, x₂, near₂, far₂) =>
          (doubleTurn d tilt₂ x₁ near₁ x₂ near₂ far₂ x far, false)

/-- Mend a node whose subtree in the direction `d` has shrunk.  The flag says whether the whole has. -/
def shrink (d : Direction) (tilt : Option Direction) (x : α) (near far : Tree α) : Tree α × Bool :=
  if tilt = some d then (branch d none x near far, true)
  else if tilt = none then (branch d (some d.opposite) x near far, false)
  else
    match far.parts d.opposite with
    | none => (branch d tilt x near far, true)
    | some (tilt₁, x₁, far₁, near₁) =>
      if tilt₁ = none then
        (simpleTurn d.opposite (some d) (some d.opposite) x₁ far₁ near₁ x near, false)
      else if tilt₁ = some d.opposite then
        (simpleTurn d.opposite none none x₁ far₁ near₁ x near, true)
      else
        match near₁.parts d.opposite with
        | none => (branch d tilt x near far, true)
        | some (tilt₂, x₂, far₂, near₂) =>
          (doubleTurn d.opposite tilt₂ x₁ far₁ x₂ far₂ near₂ x near, true)

section

variable {tilt₁ tilt₂ : Option Direction} {x₁ x₂ : α} {near₁ far₁ near₂ far₂ : Tree α}

theorem toList_simpleTurn : (simpleTurn d tilt₁ tilt x₁ near₁ far₁ x far).toList =
    (branch d tilt' x (branch d tilt₂ x₁ near₁ far₁) far).toList := by
  cases d <;> simp [simpleTurn, branch]

theorem toList_doubleTurn : (doubleTurn d tilt₂ x₁ near₁ x₂ near₂ far₂ x far).toList =
    (branch d tilt x (branch d tilt₁ x₁ near₁ (branch d tilt' x₂ near₂ far₂)) far).toList := by
  cases d <;> simp [doubleTurn, branch]

theorem toList_retilt : (branch d tilt x near far).toList = (branch d tilt' x near far).toList := by
  cases d <;> rfl

theorem toList_grow : (grow d tilt x near far).1.toList = (branch d tilt x near far).toList := by
  unfold grow
  split
  next => exact toList_retilt
  next =>
    split
    next => exact toList_retilt
    next =>
      split
      next => rfl
      next tilt₁ x₁ near₁ far₁ hnear =>
        rw [eq_branch_of_parts hnear]
        split
        next => exact toList_simpleTurn
        next =>
          split
          next => rfl
          next tilt₂ x₂ near₂ far₂ hfar =>
            rw [eq_branch_of_parts hfar]
            exact toList_doubleTurn

theorem toList_shrink : (shrink d tilt x near far).1.toList = (branch d tilt x near far).toList := by
  unfold shrink
  split
  next => exact toList_retilt
  next =>
    split
    next => exact toList_retilt
    next =>
      rw [← branch_opposite]
      split
      next => rfl
      next tilt₁ x₁ far₁ near₁ hfar =>
        rw [eq_branch_of_parts hfar]
        split
        next => exact toList_simpleTurn
        next =>
          split
          next => exact toList_simpleTurn
          next =>
            split
            next => rfl
            next tilt₂ x₂ far₂ near₂ hnear =>
              rw [eq_branch_of_parts hnear]
              exact toList_doubleTurn

end

section

variable {tilt₁ : Option Direction} {x₁ : α} {near₁ far₁ : Tree α}

theorem grow_level (h : tilt = none) :
    grow d tilt x near far = (branch d (some d) x near far, true) := by
  simp [grow, h]

theorem grow_far (h : tilt = some d.opposite) :
    grow d tilt x near far = (branch d none x near far, false) := by
  simp [grow, h]

theorem grow_simple :
    grow d (some d) x (branch d (some d) x₁ near₁ far₁) far =
      (simpleTurn d none none x₁ near₁ far₁ x far, false) := by
  simp [grow]

theorem grow_double {tilt₂ : Option Direction} {x₂ : α} {near₂ far₂ : Tree α}
    (h : tilt₁ ≠ some d) :
    grow d (some d) x (branch d tilt₁ x₁ near₁ (branch d tilt₂ x₂ near₂ far₂)) far =
      (doubleTurn d tilt₂ x₁ near₁ x₂ near₂ far₂ x far, false) := by
  simp [grow, h]

theorem shrink_near (h : tilt = some d) :
    shrink d tilt x near far = (branch d none x near far, true) := by
  simp [shrink, h]

theorem shrink_level (h : tilt = none) :
    shrink d tilt x near far = (branch d (some d.opposite) x near far, false) := by
  simp [shrink, h]

theorem shrink_even :
    shrink d (some d.opposite) x near (branch d.opposite none x₁ far₁ near₁) =
      (simpleTurn d.opposite (some d) (some d.opposite) x₁ far₁ near₁ x near, false) := by
  simp [shrink]

theorem shrink_simple :
    shrink d (some d.opposite) x near (branch d.opposite (some d.opposite) x₁ far₁ near₁) =
      (simpleTurn d.opposite none none x₁ far₁ near₁ x near, true) := by
  simp [shrink]

theorem shrink_double {tilt₂ : Option Direction} {x₂ : α} {near₂ far₂ : Tree α} :
    shrink d (some d.opposite) x near
        (branch d.opposite (some d) x₁ far₁ (branch d.opposite tilt₂ x₂ far₂ near₂)) =
      (doubleTurn d.opposite tilt₂ x₁ far₁ x₂ far₂ near₂ x near, true) := by
  simp [shrink]

end

/-! ### Turns keep the balance -/

theorem exists_branch_of_height_pos (d : Direction) (h : 0 < t.height) :
    ∃ tilt x near far, t = branch d tilt x near far := by
  have hne : t ≠ leaf := fun he => by simp [he, height] at h
  obtain ⟨x, near, far, ht⟩ := exists_branch d hne
  exact ⟨_, x, near, far, ht⟩

/-- A double turn puts subtrees of one height side by side. -/
theorem doubleTurn_balanced {tilt₂ : Option Direction} (x x₁ : α) {x₂ : α}
    {near₁ near₂ far₂ : Tree α} (hnear : Balanced near₁) (h₂ : Balanced (branch d tilt₂ x₂ near₂ far₂)) (hfar : Balanced far)
    (hn : near₁.height = n) (hn₂ : (branch d tilt₂ x₂ near₂ far₂).height = n + 1)
    (hf : far.height = n) :
    Balanced (doubleTurn d tilt₂ x₁ near₁ x₂ near₂ far₂ x far) ∧
      (doubleTurn d tilt₂ x₁ near₁ x₂ near₂ far₂ x far).height = n + 2 := by
  obtain ⟨hl, hb₁, hb₂⟩ := balanced_branch.mp h₂
  rw [height_branch] at hn₂
  simp only [doubleTurn, balanced_branch, height_branch, leans_none]
  rcases tilt_cases d tilt₂ with rfl | rfl | rfl
  · simp only [leans_none, reduceCtorEq, if_false] at hl ⊢
    exact ⟨⟨by omega, ⟨by omega, hnear, hb₁⟩, by omega, hb₂, hfar⟩, by omega⟩
  · simp only [leans_near, Option.some.injEq, Direction.ne_opposite, if_false, if_true, leans_none,
      leans_far] at hl ⊢
    exact ⟨⟨by omega, ⟨by omega, hnear, hb₁⟩, by omega, hb₂, hfar⟩, by omega⟩
  · simp only [leans_far, Option.some.injEq, Direction.opposite_ne, if_false, if_true, leans_none,
      leans_near] at hl ⊢
    exact ⟨⟨by omega, ⟨by omega, hnear, hb₁⟩, by omega, hb₂, hfar⟩, by omega⟩

theorem grow_balanced (hnear : Balanced near) (hfar : Balanced far) (hn : near.height = n + 1)
    (hl : Leans d tilt n far.height) (hroot : near.rootTilt ≠ none ∨ n = 0) :
    Balanced (grow d tilt x near far).1 ∧
      (grow d tilt x near far).1.height =
        max n far.height + 1 + (grow d tilt x near far).2.toNat ∧
      ((grow d tilt x near far).2 = true → (grow d tilt x near far).1.rootTilt ≠ none) := by
  rcases tilt_cases d tilt with rfl | rfl | rfl
  · rw [leans_none] at hl
    rw [grow_level rfl, balanced_branch, height_branch, leans_near, rootTilt_branch]
    exact ⟨⟨by omega, hnear, hfar⟩, by simp only [Bool.toNat_true]; omega, fun _ => nofun⟩
  · rw [leans_near] at hl
    obtain ⟨tilt₁, x₁, near₁, far₁, rfl⟩ :=
      exists_branch_of_height_pos (t := near) d (by omega)
    rw [balanced_branch] at hnear
    rw [height_branch] at hn
    obtain ⟨hl₁, hb₁, hb₂⟩ := hnear
    rcases tilt_cases d tilt₁ with rfl | rfl | rfl
    · rw [rootTilt_branch] at hroot
      exact absurd rfl (hroot.resolve_right (by omega))
    · rw [leans_near] at hl₁
      rw [grow_simple]
      simp only [simpleTurn, balanced_branch, height_branch, leans_none, Bool.toNat_false]
      exact ⟨⟨by omega, hb₁, by omega, hb₂, hfar⟩, by omega, nofun⟩
    · rw [leans_far] at hl₁
      obtain ⟨tilt₂, x₂, near₂, far₂, rfl⟩ :=
        exists_branch_of_height_pos (t := far₁) d (by omega)
      rw [grow_double (fun he => d.opposite_ne (Option.some.inj he))]
      have hturn := doubleTurn_balanced x x₁ hb₁ hb₂ hfar (n := far.height) (by omega)
        (by omega) rfl
      exact ⟨hturn.1, by rw [hturn.2, Bool.toNat_false]; omega, nofun⟩
  · rw [leans_far] at hl
    rw [grow_far rfl, balanced_branch, height_branch, leans_none]
    exact ⟨⟨by omega, hnear, hfar⟩, by simp only [Bool.toNat_false]; omega, nofun⟩

theorem shrink_balanced (hnear : Balanced near) (hfar : Balanced far) (hn : near.height + 1 = n)
    (hl : Leans d tilt n far.height) :
    Balanced (shrink d tilt x near far).1 ∧
      (shrink d tilt x near far).1.height + (shrink d tilt x near far).2.toNat =
        max n far.height + 1 := by
  rcases tilt_cases d tilt with rfl | rfl | rfl
  · rw [leans_none] at hl
    rw [shrink_level rfl, balanced_branch, height_branch, leans_far]
    exact ⟨⟨by omega, hnear, hfar⟩, by simp only [Bool.toNat_false]; omega⟩
  · rw [leans_near] at hl
    rw [shrink_near rfl, balanced_branch, height_branch, leans_none]
    exact ⟨⟨by omega, hnear, hfar⟩, by simp only [Bool.toNat_true]; omega⟩
  · rw [leans_far] at hl
    obtain ⟨tilt₁, x₁, far₁, near₁, rfl⟩ :=
      exists_branch_of_height_pos (t := far) d.opposite (by omega)
    rw [balanced_branch] at hfar
    rw [height_branch] at hl ⊢
    obtain ⟨hl₁, hb₁, hb₂⟩ := hfar
    rcases tilt_cases d.opposite tilt₁ with rfl | rfl | rfl
    · rw [leans_none] at hl₁
      rw [shrink_even]
      simp only [simpleTurn, balanced_branch, height_branch, Bool.toNat_false]
      have hd : (some d : Option Direction) = some d.opposite.opposite := by
        rw [Direction.opposite_opposite]
      rw [hd, leans_far, leans_near]
      exact ⟨⟨by omega, hb₁, by omega, hb₂, hnear⟩, by omega⟩
    · rw [leans_near] at hl₁
      rw [shrink_simple]
      simp only [simpleTurn, balanced_branch, height_branch, leans_none, Bool.toNat_true]
      exact ⟨⟨by omega, hb₁, by omega, hb₂, hnear⟩, by omega⟩
    · rw [leans_far] at hl₁
      obtain ⟨tilt₂, x₂, far₂, near₂, rfl⟩ :=
        exists_branch_of_height_pos (t := near₁) d.opposite (by omega)
      rw [Direction.opposite_opposite, shrink_double]
      have hturn := doubleTurn_balanced x x₁ hb₁ hb₂ hnear (n := near.height)
        (by omega) (by omega) rfl
      exact ⟨hturn.1, by rw [hturn.2, Bool.toNat_true]; omega⟩

/-! ## Paths -/

/-- A step from a subtree up to the node above it. -/
structure Step (α : Type*) where
  dir : Direction
  tilt : Option Direction
  node : α
  sibling : Tree α

/-- The steps from a hole up to the root. -/
abbrev Path (α : Type*) := List (Step α)

namespace Path

variable {f : Step α} {fs gs : Path α}

/-- The tree with a subtree in the hole. -/
def fill : Path α → Tree α → Tree α
  | [], t => t
  | f :: fs, t => fill fs (branch f.dir f.tilt f.node t f.sibling)

/-- The nodes to the left of the hole. -/
def before : Path α → List α
  | [] => []
  | ⟨.left, _, _, _⟩ :: fs => before fs
  | ⟨.right, _, x, sibling⟩ :: fs => before fs ++ (sibling.toList ++ [x])

/-- The nodes to the right of the hole. -/
def after : Path α → List α
  | [] => []
  | ⟨.left, _, x, sibling⟩ :: fs => x :: sibling.toList ++ after fs
  | ⟨.right, _, _, _⟩ :: fs => after fs

/-- The nodes of the path with their subtrees. -/
def nodes : Path α → List α
  | [] => []
  | f :: fs => f.node :: (f.sibling.toList ++ nodes fs)

theorem toList_fill (fs : Path α) (t : Tree α) : (fill fs t).toList = before fs ++ t.toList ++ after fs := by
  induction fs generalizing t with
  | nil => simp [fill, before, after]
  | cons f fs ih =>
    obtain ⟨dir, tilt, x, sibling⟩ := f
    cases dir with
    | left => simp [fill, ih, before, after, branch]
    | right => simp [fill, ih, before, after, branch]

theorem toList_fill_congr (h : t.toList = u.toList) : (fill fs t).toList = (fill fs u).toList := by
  rw [toList_fill, toList_fill, h]

theorem toList_fill_perm (fs : Path α) (t : Tree α) :
    (fill fs t).toList.Perm (t.toList ++ nodes fs) := by
  induction fs generalizing t with
  | nil => simp [fill, nodes]
  | cons f fs ih =>
    have hcons : (f.node :: (t.toList ++ f.sibling.toList) ++ nodes fs).Perm
        (t.toList ++ f.node :: (f.sibling.toList ++ nodes fs)) := by
      rw [List.cons_append, List.append_assoc]
      exact List.perm_middle.symm
    exact (ih _).trans ((toList_branch_perm.append_right _).trans hcons)

theorem fill_append : fill (gs ++ fs) t = fill fs (fill gs t) := by
  induction gs generalizing t with
  | nil => rfl
  | cons g gs ih => exact ih

theorem nodes_append : nodes (gs ++ fs) = nodes gs ++ nodes fs := by
  induction gs with
  | nil => rfl
  | cons g gs ih => simp [nodes, ih]

theorem length_add_height_le (fs : Path α) (t : Tree α) :
    fs.length + t.height ≤ (fill fs t).height := by
  induction fs generalizing t with
  | nil => exact Nat.le_of_eq (Nat.zero_add _)
  | cons f fs ih =>
    have hf := ih (branch f.dir f.tilt f.node t f.sibling)
    rw [height_branch] at hf
    simp only [fill, List.length_cons]
    omega

/-- Mend the nodes of the path one after the other, as long as the flag is set. -/
def mend (turn : Direction → Option Direction → α → Tree α → Tree α → Tree α × Bool) :
    Path α → Tree α → Tree α
  | [], t => t
  | f :: fs, t =>
    match turn f.dir f.tilt f.node t f.sibling with
    | (t', true) => mend turn fs t'
    | (t', false) => fill fs t'

theorem toList_mend {turn : Direction → Option Direction → α → Tree α → Tree α → Tree α × Bool}
    (hturn : ∀ d tilt x near far,
      (turn d tilt x near far).1.toList = (branch d tilt x near far).toList) :
    (mend turn fs t).toList = (fill fs t).toList := by
  induction fs generalizing t with
  | nil => rfl
  | cons f fs ih =>
    have hf := hturn f.dir f.tilt f.node t f.sibling
    simp only [mend, fill]
    split
    next t' heq =>
      rw [heq] at hf
      rw [ih]
      exact toList_fill_congr hf
    next t' heq =>
      rw [heq] at hf
      exact toList_fill_congr hf

/-- The shape of a tree with a hole for a subtree of height `n`. -/
def Balanced : Path α → ℕ → Prop
  | [], _ => True
  | f :: fs, n => Leans f.dir f.tilt n f.sibling.height ∧ f.sibling.Balanced ∧
      Balanced fs (max n f.sibling.height + 1)

theorem balanced_fill : (fill fs t).Balanced ↔ t.Balanced ∧ Balanced fs t.height := by
  induction fs generalizing t with
  | nil => exact (and_iff_left trivial).symm
  | cons f fs ih =>
    rw [fill, ih, balanced_branch, height_branch]
    constructor
    · rintro ⟨⟨hl, ht, hs⟩, hfs⟩
      exact ⟨ht, hl, hs, hfs⟩
    · rintro ⟨ht, hl, hs, hfs⟩
      exact ⟨⟨hl, ht, hs⟩, hfs⟩

theorem mend_grow_balanced (h : Balanced fs n) (ht : t.Balanced) (hn : t.height = n + 1)
    (hroot : t.rootTilt ≠ none ∨ n = 0) : (mend grow fs t).Balanced := by
  induction fs generalizing t n with
  | nil => exact ht
  | cons f fs ih =>
    obtain ⟨hl, hs, hfs⟩ := h
    obtain ⟨hb, hh, htilt⟩ := grow_balanced (x := f.node) ht hs hn hl hroot
    simp only [mend]
    split
    next t' heq =>
      rw [heq] at hb hh htilt
      exact ih hfs hb hh (.inl (htilt rfl))
    next t' heq =>
      rw [heq] at hb hh
      exact balanced_fill.mpr ⟨hb, by rw [hh]; exact hfs⟩

theorem mend_shrink_balanced (h : Balanced fs n) (ht : t.Balanced) (hn : t.height + 1 = n) :
    (mend shrink fs t).Balanced := by
  induction fs generalizing t n with
  | nil => exact ht
  | cons f fs ih =>
    obtain ⟨hl, hs, hfs⟩ := h
    obtain ⟨hb, hh⟩ := shrink_balanced (x := f.node) ht hs hn hl
    simp only [mend]
    split
    next t' heq =>
      rw [heq] at hb hh
      exact ih hfs hb hh
    next t' heq =>
      rw [heq] at hb hh
      refine balanced_fill.mpr ⟨hb, ?_⟩
      have hh' : t'.height = max n f.sibling.height + 1 := hh
      rw [hh']
      exact hfs

end Path

/-! ## Search, insertion and removal -/

section Operations

variable {κ : Type*} [LinearOrder κ] (key : α → κ)

/-- The subtree at the place of a key, and the path to it. -/
def descend (k : κ) : Tree α → Path α → Path α × Tree α
  | leaf, fs => (fs, leaf)
  | node tilt l x r, fs =>
    if key x < k then descend k r (⟨.right, tilt, x, l⟩ :: fs)
    else if key x = k then (fs, node tilt l x r)
    else descend k l (⟨.left, tilt, x, r⟩ :: fs)

/-- The node with a key. -/
def search (k : κ) (t : Tree α) : Option α := (descend key k t []).2.root?

/-- Insert a node, if there is none with its key. -/
def insert (x : α) (t : Tree α) : Option (Tree α) :=
  match descend key (key x) t [] with
  | (fs, leaf) => some (Path.mend grow fs (node none leaf x leaf))
  | (_, node _ _ _ _) => none

/-- The path to the leftmost node of a subtree, that node and its right subtree. -/
def leftmost (tilt : Option Direction) (x : α) (r : Tree α) :
    Tree α → Path α → Path α × Option Direction × α × Tree α
  | leaf, fs => (fs, tilt, x, r)
  | node tilt' l' x' r', fs => leftmost tilt' x' r' l' (⟨.left, tilt, x, r⟩ :: fs)

/-- Remove the node with a key, if there is one. -/
def remove (k : κ) (t : Tree α) : Option (Tree α) :=
  match descend key k t [] with
  | (_, leaf) => none
  | (fs, node _ l _ leaf) => some (Path.mend shrink fs l.settle)
  | (fs, node tilt l _ (node tilt₁ l₁ x₁ r₁)) =>
    let (gs, _, m, r) := leftmost tilt₁ x₁ r₁ l₁ []
    some (Path.mend shrink (gs ++ ⟨.right, tilt, m, l⟩ :: fs) r)

/-- The keys increase from left to right. -/
def Sorted (t : Tree α) : Prop := t.toList.Pairwise fun x y => key x < key y

variable {key} {k : κ} {fs gs : Path α} {m : α} {r : Tree α}

theorem descend_fill (key : α → κ) (k : κ) (t : Tree α) (fs : Path α) :
    Path.fill (descend key k t fs).1 (descend key k t fs).2 = Path.fill fs t := by
  induction t generalizing fs with
  | leaf => rfl
  | node tilt l x r ihl ihr =>
    simp only [descend]
    split
    next => exact ihr _
    next =>
      split
      next => rfl
      next => exact ihl _

/-- The nodes beside the place of a key are smaller on the left and greater on the right. -/
theorem descend_bounds (k : κ) (fs : Path α) (ht : Sorted key t) (hlt : ∀ y ∈ Path.before fs, key y < k)
    (hgt : ∀ y ∈ Path.after fs, k < key y) :
    (∀ y ∈ Path.before (descend key k t fs).1, key y < k) ∧
      ∀ y ∈ Path.after (descend key k t fs).1, k < key y := by
  induction t generalizing fs with
  | leaf => exact ⟨hlt, hgt⟩
  | node tilt l x r ihl ihr =>
    simp only [Sorted, toList_node, List.pairwise_append, List.pairwise_cons, List.mem_cons,
      forall_eq_or_imp] at ht
    obtain ⟨hl, ⟨hxr, hr⟩, hlr⟩ := ht
    simp only [descend]
    split
    next hx =>
      refine ihr _ hr (fun y hy => ?_) hgt
      simp only [Path.before, List.mem_append, List.mem_singleton] at hy
      rcases hy with hy | hy | rfl
      · exact hlt y hy
      · exact (hlr y hy).1.trans hx
      · exact hx
    next hx =>
      split
      next => exact ⟨hlt, hgt⟩
      next hne =>
        have hkx : k < key x := lt_of_le_of_ne (not_lt.mp hx) (Ne.symm hne)
        refine ihl _ hl hlt fun y hy => ?_
        simp only [Path.after, List.cons_append, List.mem_cons, List.mem_append] at hy
        rcases hy with rfl | hy | hy
        · exact hkx
        · exact hkx.trans (hxr y hy)
        · exact hgt y hy

/-- What is found has the key. -/
theorem key_of_descend (h : (descend key k t fs).2.root? = some x) : key x = k := by
  induction t generalizing fs with
  | leaf => cases h
  | node tilt l y r ihl ihr =>
    simp only [descend] at h
    split at h
    next => exact ihr h
    next =>
      split at h
      next hy =>
        cases h
        exact hy
      next => exact ihl h

theorem toList_descend (key : α → κ) (k : κ) (t : Tree α) : t.toList = Path.before (descend key k t []).1 ++
    (descend key k t []).2.toList ++ Path.after (descend key k t []).1 := by
  rw [← Path.toList_fill, descend_fill]
  rfl

theorem search_eq_some (h : Sorted key t) : search key k t = some x ↔ x ∈ t.toList ∧ key x = k := by
  obtain ⟨hlt, hgt⟩ := descend_bounds k [] h nofun nofun
  constructor
  · intro hx
    refine ⟨?_, key_of_descend hx⟩
    rw [toList_descend key k t]
    refine List.mem_append_left _ (List.mem_append_right _ ?_)
    revert hx
    rw [search]
    cases (descend key k t []).2 with
    | leaf => exact nofun
    | node tilt l y r =>
      intro hy
      cases hy
      simp
  · rintro ⟨hx, hk⟩
    rw [toList_descend key k t] at hx
    rcases List.mem_append.mp hx with hx | hx
    · rcases List.mem_append.mp hx with hx | hx
      · exact absurd hk (hlt x hx).ne
      · -- the nodes of the subtree found are sorted, and its root has the key
        have hsub : (descend key k t []).2.toList.Pairwise fun x y => key x < key y := by
          have h' := h
          rw [Sorted, toList_descend key k t] at h'
          exact (List.pairwise_append.mp (List.pairwise_append.mp h').1).2.1
        rw [search]
        cases hd : (descend key k t []).2 with
        | leaf =>
          rw [hd] at hx
          cases hx
        | node tilt l y r =>
          have hy : key y = k := key_of_descend (congrArg root? hd)
          rw [hd, toList_node, List.pairwise_append] at hsub
          rw [hd, toList_node, List.mem_append, List.mem_cons] at hx
          rcases hx with hx | rfl | hx
          · exact absurd (hk.trans hy.symm) (hsub.2.2 x hx y List.mem_cons_self).ne
          · rfl
          · exact absurd (hk.trans hy.symm) ((List.pairwise_cons.mp hsub.2.1).1 x hx).ne'
    · exact absurd hk (hgt x hx).ne'

theorem search_eq_none (h : Sorted key t) :
    search key k t = none ↔ ∀ x ∈ t.toList, key x ≠ k := by
  rw [Option.eq_none_iff_forall_ne_some]
  simp only [ne_eq, search_eq_some h, not_and]

theorem insert_eq_none (h : Sorted key t) :
    insert key x t = none ↔ ∃ y ∈ t.toList, key y = key x := by
  have hs := search_eq_none (k := key x) h
  rw [search] at hs
  rw [insert]
  split
  next fs heq =>
    rw [heq] at hs
    refine iff_of_false nofun ?_
    rintro ⟨y, hy, hk⟩
    exact hs.mp rfl y hy hk
  next fs tilt l y r heq =>
    refine iff_of_true rfl ?_
    by_contra hall
    have hnone := hs.mpr fun z hz hk => hall ⟨z, hz, hk⟩
    rw [heq] at hnone
    cases hnone

/-- A new node goes between the smaller and the greater ones. -/
theorem toList_insert (h : Sorted key t) (ht : insert key x t = some u) :
    ∃ xs ys, t.toList = xs ++ ys ∧ u.toList = xs ++ x :: ys ∧ (∀ y ∈ xs, key y < key x) ∧
      ∀ y ∈ ys, key x < key y := by
  obtain ⟨hlt, hgt⟩ := descend_bounds (key x) [] h nofun nofun
  have hlist := toList_descend key (key x) t
  rw [insert] at ht
  split at ht
  next fs heq =>
    cases ht
    rw [heq] at hlist hlt hgt
    refine ⟨Path.before fs, Path.after fs, by simpa using hlist, ?_, hlt, hgt⟩
    rw [Path.toList_mend fun d tilt x near far => toList_grow, Path.toList_fill]
    simp
  next => cases ht

theorem Sorted.insert (h : Sorted key t) (ht : Avl.insert key x t = some u) : Sorted key u := by
  obtain ⟨xs, ys, hxy, hu, hlt, hgt⟩ := toList_insert h ht
  rw [Sorted, hxy, List.pairwise_append] at h
  rw [Sorted, hu, List.pairwise_append, List.pairwise_cons]
  refine ⟨h.1, ⟨hgt, h.2.1⟩, fun y hy z hz => ?_⟩
  rcases List.mem_cons.mp hz with rfl | hz
  · exact hlt y hy
  · exact h.2.2 y hy z hz

theorem insert_balanced (h : t.Balanced) (ht : insert key x t = some u) : u.Balanced := by
  rw [insert] at ht
  split at ht
  next fs heq =>
    cases ht
    have hfill := descend_fill key (key x) t []
    rw [heq] at hfill
    rw [show t = Path.fill fs leaf from hfill.symm] at h
    have hfs : Path.Balanced fs 0 := (Path.balanced_fill.mp h).2
    refine Path.mend_grow_balanced hfs ?_ rfl (.inr rfl)
    exact ⟨leans_none.mpr rfl, trivial, trivial⟩
  next => cases ht

theorem fill_leftmost (tilt : Option Direction) (x : α) (r l : Tree α) (fs : Path α) :
    Path.fill (leftmost tilt x r l fs).1 (node (leftmost tilt x r l fs).2.1 leaf
      (leftmost tilt x r l fs).2.2.1 (leftmost tilt x r l fs).2.2.2) =
    Path.fill fs (node tilt l x r) := by
  induction l generalizing tilt x r fs with
  | leaf => rfl
  | node tilt' l' x' r' ihl ihr => exact ihl _ _ _ _

theorem before_leftmost (tilt : Option Direction) (x : α) (r l : Tree α) (fs : Path α) :
    Path.before (leftmost tilt x r l fs).1 = Path.before fs := by
  induction l generalizing tilt x r fs with
  | leaf => rfl
  | node tilt' l' x' r' ihl ihr => exact ihl _ _ _ _

theorem remove_eq_none (h : Sorted key t) :
    remove key k t = none ↔ ∀ x ∈ t.toList, key x ≠ k := by
  have hs := search_eq_none (k := k) h
  rw [search] at hs
  rw [remove, ← hs]
  split
  next fs heq =>
    rw [heq]
    exact iff_of_true rfl rfl
  next fs tilt l x heq =>
    rw [heq]
    exact iff_of_false nofun nofun
  next fs tilt l x tilt₁ l₁ x₁ r₁ heq =>
    rw [heq]
    exact iff_of_false nofun nofun

/-- The node with the key is taken out. -/
theorem toList_remove (ht : remove key k t = some u) :
    ∃ xs x ys, key x = k ∧ t.toList = xs ++ x :: ys ∧ u.toList = xs ++ ys := by
  have hlist := toList_descend key k t
  have hkey : ∀ x, (descend key k t []).2.root? = some x → key x = k := fun x hx => key_of_descend hx
  rw [remove] at ht
  split at ht
  next => cases ht
  next fs tilt l x heq =>
    cases ht
    rw [heq] at hlist hkey
    refine ⟨Path.before fs ++ l.toList, x, Path.after fs, hkey x rfl, ?_, ?_⟩
    · simpa using hlist
    · rw [Path.toList_mend fun d tilt x near far => toList_shrink, Path.toList_fill, toList_settle]
  next fs tilt l x tilt₁ l₁ x₁ r₁ heq =>
    rw [heq] at hlist hkey
    have hfill := fill_leftmost tilt₁ x₁ r₁ l₁ []
    have hbefore := before_leftmost tilt₁ x₁ r₁ l₁ []
    rcases hleft : leftmost tilt₁ x₁ r₁ l₁ [] with ⟨gs, tilt₂, m, r⟩
    rw [hleft] at ht hfill hbefore
    cases ht
    have hright : (node tilt₁ l₁ x₁ r₁).toList = m :: r.toList ++ Path.after gs := by
      have hgs := congrArg toList hfill
      rw [Path.toList_fill, show Path.before gs = [] from hbefore] at hgs
      exact hgs.symm
    refine ⟨Path.before fs ++ l.toList, x, m :: r.toList ++ Path.after gs ++ Path.after fs,
      hkey x rfl, ?_, ?_⟩
    · rw [hlist, toList_node, hright]
      simp
    · rw [Path.toList_mend fun d tilt x near far => toList_shrink, Path.fill_append, Path.fill,
        Path.toList_fill]
      have hr := Path.toList_fill gs r
      rw [show Path.before gs = [] from hbefore] at hr
      simp [branch, hr]

theorem Sorted.remove (h : Sorted key t) (ht : Avl.remove key k t = some u) : Sorted key u := by
  obtain ⟨xs, x, ys, -, hxy, hu⟩ := toList_remove ht
  rw [Sorted, hxy] at h
  rw [Sorted, hu]
  exact h.sublist (List.Sublist.append (List.Sublist.refl xs) (List.sublist_cons_self x ys))

theorem settle_balanced (h : t.Balanced) (hn : t.height ≤ 1) : t.settle.Balanced := by
  cases t with
  | leaf => trivial
  | node tilt l x r =>
    obtain ⟨-, hl, hr⟩ := h
    have hmax : max l.height r.height = 0 := Nat.le_zero.mp (Nat.le_of_succ_le_succ hn)
    exact ⟨leans_none.mpr (by omega), hl, hr⟩

theorem height_settle : t.settle.height = t.height := by
  cases t <;> rfl

/-- What is left of a node without right subtree fits into the hole, lower by one. -/
theorem balanced_of_rightless {l : Tree α} (h : (Path.fill fs (node tilt l x leaf)).Balanced) :
    l.settle.Balanced ∧ Path.Balanced fs (l.settle.height + 1) := by
  obtain ⟨⟨hlean, hl, -⟩, hfs⟩ := Path.balanced_fill.mp h
  have hle : l.height ≤ 1 := by
    rcases tilt_cases .left tilt with rfl | rfl | rfl
    · exact (leans_none.mp hlean).trans_le (Nat.zero_le 1)
    · exact Nat.le_of_eq (leans_near.mp hlean)
    · exact absurd (leans_far.mp hlean) (Nat.succ_ne_zero _).symm
  refine ⟨settle_balanced hl hle, ?_⟩
  rw [height_settle, ← Nat.max_zero l.height]
  exact hfs

/-- So does the right subtree of the successor, which stands in the place of the node. -/
theorem balanced_of_successor {l l₁ r₁ : Tree α} {tilt₁ : Option Direction} {x₁ : α}
    (h : (Path.fill fs (node tilt l x (node tilt₁ l₁ x₁ r₁))).Balanced) :
    (leftmost tilt₁ x₁ r₁ l₁ []).2.2.2.Balanced ∧
      Path.Balanced ((leftmost tilt₁ x₁ r₁ l₁ []).1 ++
        ⟨.right, tilt, (leftmost tilt₁ x₁ r₁ l₁ []).2.2.1, l⟩ :: fs)
        ((leftmost tilt₁ x₁ r₁ l₁ []).2.2.2.height + 1) := by
  obtain ⟨⟨hlean, hl, hr⟩, hfs⟩ := Path.balanced_fill.mp h
  have hleft := fill_leftmost tilt₁ x₁ r₁ l₁ []
  generalize leftmost tilt₁ x₁ r₁ l₁ [] = lm at hleft ⊢
  obtain ⟨gs, tilt₂, m, r⟩ := lm
  have hm : (Path.fill (gs ++ ⟨.right, tilt, m, l⟩ :: fs) (node tilt₂ leaf m r)).Balanced := by
    rw [Path.fill_append, Path.fill, show Path.fill gs _ = _ from hleft]
    exact Path.balanced_fill.mpr ⟨⟨hlean, hl, hr⟩, hfs⟩
  obtain ⟨⟨-, -, hrb⟩, hpath⟩ := Path.balanced_fill.mp hm
  rw [height, height, Nat.zero_max] at hpath
  exact ⟨hrb, hpath⟩

theorem remove_balanced (h : t.Balanced) (ht : remove key k t = some u) : u.Balanced := by
  have hfill := descend_fill key k t []
  rw [remove] at ht
  split at ht
  next => cases ht
  next fs tilt l x heq =>
    cases ht
    rw [heq] at hfill
    rw [show t = Path.fill fs (node tilt l x leaf) from hfill.symm] at h
    obtain ⟨hl, hfs⟩ := balanced_of_rightless h
    exact Path.mend_shrink_balanced hfs hl rfl
  next fs tilt l x tilt₁ l₁ x₁ r₁ heq =>
    cases ht
    rw [heq] at hfill
    rw [show t = Path.fill fs (node tilt l x (node tilt₁ l₁ x₁ r₁)) from hfill.symm] at h
    obtain ⟨hr, hfs⟩ := balanced_of_successor h
    exact Path.mend_shrink_balanced hfs hr rfl

end Operations

end Rtems.Avl
