import Mathlib

/-!
# Red-black trees with a hole

Binary trees with coloured nodes, and paths from a subtree up to the root.  Both
directions are treated alike: `branch d` builds a node from the subtree in the
direction `d` and the one on the other side.

`Balanced` is the shape of a red-black tree, and `Path.Balanced` that of a tree
with a hole for a subtree of a given colour and black height.  The last section
says what stands around a hole where the shape has to be repaired: above a red
node with a red parent, and above a subtree that has become too low by one.
-/

namespace Rtems.Lib

inductive Color where
  | black
  | red
deriving DecidableEq, Repr

inductive Direction where
  | left
  | right
deriving DecidableEq, Repr

def Direction.opposite : Direction → Direction
  | .left => .right
  | .right => .left

@[simp]
theorem Direction.opposite_opposite (d : Direction) : d.opposite.opposite = d := by
  cases d <;> rfl

@[simp]
theorem Direction.opposite_ne (d : Direction) : d.opposite ≠ d := by
  cases d <;> exact nofun

@[simp]
theorem Direction.ne_opposite (d : Direction) : d ≠ d.opposite := d.opposite_ne.symm

theorem Direction.eq_or_opposite (d e : Direction) : e = d ∨ e = d.opposite := by
  cases d <;> cases e <;> simp [Direction.opposite]

inductive Tree (α : Type*) where
  | nil
  | node (color : Color) (left : Tree α) (x : α) (right : Tree α)

variable {α : Type*} {d : Direction} {c c' : Color} {x y : α} {t u v near far : Tree α} {n m : Nat}

namespace Tree

def root? : Tree α → Option α
  | nil => none
  | node _ _ x _ => some x

def rootColor : Tree α → Color
  | nil => .black
  | node c _ _ _ => c

def size : Tree α → Nat
  | nil => 0
  | node _ l _ r => l.size + r.size + 1

/-- A node with `near` in the direction `d` and `far` on the other side. -/
def branch (d : Direction) (c : Color) (x : α) (near far : Tree α) : Tree α :=
  match d with
  | .left => node c near x far
  | .right => node c far x near

/-- The nodes in the order of the direction `d`. -/
def walk (d : Direction) : Tree α → List α
  | nil => []
  | node _ l x r =>
    match d with
    | .left => r.walk d ++ x :: l.walk d
    | .right => l.walk d ++ x :: r.walk d

/-- The nodes from left to right. -/
def inorder (t : Tree α) : List α := t.walk .right

@[simp]
theorem inorder_nil : (nil : Tree α).inorder = [] := rfl

/-- Paint the root. -/
def paint (c : Color) : Tree α → Tree α
  | nil => nil
  | node _ l x r => node c l x r

theorem root?_eq_none : t.root? = none ↔ t = nil := by
  cases t with
  | nil => exact iff_of_true rfl rfl
  | node c l x r => exact iff_of_false nofun nofun

@[simp]
theorem root?_branch : (branch d c x near far).root? = some x := by
  cases d <;> rfl

@[simp]
theorem rootColor_branch : (branch d c x near far).rootColor = c := by
  cases d <;> rfl

@[simp]
theorem paint_branch : (branch d c x near far).paint c' = branch d c' x near far := by
  cases d <;> rfl

@[simp]
theorem walk_branch :
    (branch d c x near far).walk d = far.walk d ++ x :: near.walk d := by
  cases d <;> rfl

@[simp]
theorem walk_branch_opposite :
    (branch d c x near far).walk d.opposite =
      near.walk d.opposite ++ x :: far.walk d.opposite := by
  cases d <;> rfl

theorem branch_opposite : branch d.opposite c x near far = branch d c x far near := by
  cases d <;> rfl

theorem walk_opposite (d : Direction) (t : Tree α) : t.walk d.opposite = (t.walk d).reverse := by
  induction t with
  | nil => rfl
  | node c l x r ihl ihr => cases d <;> simp_all [walk, Direction.opposite]

theorem nodup_walk (h : t.inorder.Nodup) (d : Direction) : (t.walk d).Nodup := by
  cases d with
  | left =>
    have hwalk : t.walk .left = t.inorder.reverse := walk_opposite .right t
    rw [hwalk]
    exact List.nodup_reverse.mpr h
  | right => exact h

theorem inorder_branch_perm :
    (branch d c x near far).inorder.Perm (x :: (near.inorder ++ far.inorder)) := by
  cases d with
  | left => exact List.perm_middle
  | right => exact List.perm_middle.trans (List.perm_append_comm.cons x)

@[simp]
theorem mem_inorder_branch {z : α} : z ∈ (branch d c x near far).inorder ↔
    z = x ∨ z ∈ near.inorder ∨ z ∈ far.inorder := by
  rw [inorder_branch_perm.mem_iff, List.mem_cons, List.mem_append]

theorem nodup_inorder_branch : (branch d c x near far).inorder.Nodup ↔
    (x ∉ near.inorder ∧ x ∉ far.inorder) ∧ near.inorder.Nodup ∧ far.inorder.Nodup ∧
      ∀ z ∈ near.inorder, z ∉ far.inorder := by
  rw [inorder_branch_perm.nodup_iff, List.nodup_cons, List.mem_append, not_or, List.nodup_append]
  refine and_congr_right fun _ => and_congr_right fun _ => and_congr_right fun _ => ?_
  exact ⟨fun h z hz hz' => h z hz z hz' rfl, fun h z hz w hw e => h z hz (e ▸ hw)⟩

theorem size_branch : (branch d c x near far).size = near.size + far.size + 1 := by
  cases d with
  | left => rfl
  | right => rw [branch, size, Nat.add_comm far.size]

theorem size_eq_length (t : Tree α) : t.size = t.inorder.length := by
  induction t with
  | nil => rfl
  | node c l x r ihl ihr =>
    have hin : (node c l x r).inorder = l.inorder ++ x :: r.inorder := rfl
    rw [hin, List.length_append, List.length_cons, size, ihl, ihr]
    rfl

theorem mem_inorder_of_root? (h : t.root? = some x) : x ∈ t.inorder := by
  cases t with
  | nil => cases h
  | node c l y r =>
    cases h
    exact List.mem_append_right _ List.mem_cons_self

/-- Every node can be written from both sides. -/
theorem exists_branch (d : Direction) (h : t.root? = some x) :
    ∃ near far, t = branch d t.rootColor x near far := by
  cases t with
  | nil => cases h
  | node c l y r =>
    cases h
    cases d with
    | left => exact ⟨l, r, rfl⟩
    | right => exact ⟨r, l, rfl⟩

theorem exists_branch_of_red (d : Direction) (h : t.rootColor = .red) :
    ∃ x near far, t = branch d .red x near far := by
  cases t with
  | nil => cases h
  | node c l x r =>
    cases h
    cases d with
    | left => exact ⟨x, l, r, rfl⟩
    | right => exact ⟨x, r, l, rfl⟩

/-! ## Balance -/

/-- Red nodes have black children, and every way down has `n` black nodes. -/
inductive Balanced : Tree α → Color → Nat → Prop where
  | nil : Balanced nil .black 0
  | red {l r : Tree α} {x : α} {n : Nat} (hl : Balanced l .black n) (hr : Balanced r .black n) :
      Balanced (node .red l x r) .red n
  | black {l r : Tree α} {x : α} {n : Nat} {c₁ c₂ : Color} (hl : Balanced l c₁ n)
      (hr : Balanced r c₂ n) : Balanced (node .black l x r) .black (n + 1)

theorem Balanced.rootColor (h : t.Balanced c n) : t.rootColor = c := by
  cases h <;> rfl

theorem Balanced.branch_red (hn : near.Balanced .black n) (hf : far.Balanced .black n) :
    (branch d .red x near far).Balanced .red n := by
  cases d with
  | left => exact .red hn hf
  | right => exact .red hf hn

theorem Balanced.branch_black (hn : near.Balanced c n) (hf : far.Balanced c' n) :
    (branch d .black x near far).Balanced .black (n + 1) := by
  cases d with
  | left => exact .black hn hf
  | right => exact .black hf hn

theorem Balanced.of_branch_red (h : (branch d .red x near far).Balanced c n) :
    c = .red ∧ near.Balanced .black n ∧ far.Balanced .black n := by
  cases d with
  | left =>
    cases h with
    | red hl hr => exact ⟨rfl, hl, hr⟩
  | right =>
    cases h with
    | red hl hr => exact ⟨rfl, hr, hl⟩

theorem Balanced.of_branch_black (h : (branch d .black x near far).Balanced c n) :
    c = .black ∧ ∃ m c₁ c₂, n = m + 1 ∧ near.Balanced c₁ m ∧ far.Balanced c₂ m := by
  cases d with
  | left =>
    cases h with
    | black hl hr => exact ⟨rfl, _, _, _, rfl, hl, hr⟩
  | right =>
    cases h with
    | black hl hr => exact ⟨rfl, _, _, _, rfl, hr, hl⟩

/-- A tree of some height has a root. -/
theorem Balanced.exists_branch (d : Direction) (h : t.Balanced c (n + 1)) :
    ∃ x near far, t = branch d c x near far := by
  cases d with
  | left =>
    cases h with
    | red hl hr => exact ⟨_, _, _, rfl⟩
    | black hl hr => exact ⟨_, _, _, rfl⟩
  | right =>
    cases h with
    | red hl hr => exact ⟨_, _, _, rfl⟩
    | black hl hr => exact ⟨_, _, _, rfl⟩

end Tree

/-! ## Paths -/

/-- A node above the hole: the hole is in the direction `dir`, and `sibling` on the other side. -/
structure Step (α : Type*) where
  dir : Direction
  color : Color
  node : α
  sibling : Tree α

def Step.fill (f : Step α) (t : Tree α) : Tree α := .branch f.dir f.color f.node t f.sibling

/-- The nodes above a hole, the nearest first. -/
abbrev Path (α : Type*) := List (Step α)

namespace Path

def fill : Path α → Tree α → Tree α
  | [], t => t
  | f :: ps, t => fill ps (f.fill t)

/-- The nodes that come after the hole in the direction `d`. -/
def beyond (d : Direction) : Path α → List α
  | [] => []
  | f :: ps => if f.dir = d then beyond d ps else f.node :: f.sibling.walk d ++ beyond d ps

@[simp]
theorem fill_nil : fill [] t = t := rfl

@[simp]
theorem fill_cons (f : Step α) (ps : Path α) : fill (f :: ps) t = fill ps (f.fill t) := rfl

theorem fill_append (ps qs : Path α) (t : Tree α) : fill (ps ++ qs) t = fill qs (fill ps t) := by
  induction ps generalizing t with
  | nil => rfl
  | cons f ps ih => exact ih _

theorem size_fill_ge (ps : Path α) (t : Tree α) : t.size + ps.length ≤ (fill ps t).size := by
  induction ps generalizing t with
  | nil => exact Nat.le_refl _
  | cons f ps ih =>
    have := ih (f.fill t)
    rw [Step.fill, Tree.size_branch] at this
    rw [List.length_cons, fill_cons, Step.fill]
    omega

theorem walk_fill (d : Direction) (ps : Path α) (t : Tree α) :
    (fill ps t).walk d = (beyond d.opposite ps).reverse ++ t.walk d ++ beyond d ps := by
  induction ps generalizing t with
  | nil => simp [beyond]
  | cons f ps ih =>
    rw [fill_cons, ih, Step.fill]
    rcases d.eq_or_opposite f.dir with hd | hd
    · simp [beyond, hd, ← Tree.walk_opposite]
    · have hwalk : (Tree.branch f.dir f.color f.node t f.sibling).walk f.dir.opposite = _ :=
        Tree.walk_branch_opposite
      rw [hd, Direction.opposite_opposite] at hwalk
      simp [beyond, hd, hwalk]

theorem inorder_fill (ps : Path α) (t : Tree α) :
    (fill ps t).inorder = (beyond .left ps).reverse ++ t.inorder ++ beyond .right ps :=
  walk_fill .right ps t

/-- The order of the whole depends on the order of the subtree only. -/
theorem walk_fill_congr (ps : Path α) (h : t.walk d = u.walk d) :
    (fill ps t).walk d = (fill ps u).walk d := by
  rw [walk_fill, walk_fill, h]

theorem inorder_fill_congr (ps : Path α) (h : t.inorder = u.inorder) :
    (fill ps t).inorder = (fill ps u).inorder := walk_fill_congr ps h

theorem beyond_append (d : Direction) (ps qs : Path α) :
    beyond d (ps ++ qs) = beyond d ps ++ beyond d qs := by
  induction ps with
  | nil => rfl
  | cons f ps ih =>
    rw [List.cons_append, beyond, beyond, ih]
    split
    · rfl
    · rw [List.append_assoc]

/-- Every node of a tree stands somewhere. -/
theorem exists_fill (h : x ∈ t.inorder) : ∃ ps c l r, t = fill ps (.node c l x r) := by
  induction t with
  | nil => cases h
  | node c l y r ihl ihr =>
    rcases List.mem_append.mp h with h | h
    · obtain ⟨ps, c', l', r', rfl⟩ := ihl h
      exact ⟨ps ++ [⟨.left, c, y, r⟩], c', l', r', by rw [fill_append]; rfl⟩
    · rcases List.mem_cons.mp h with rfl | h
      · exact ⟨[], c, l, r, rfl⟩
      · obtain ⟨ps, c', l', r', rfl⟩ := ihr h
        exact ⟨ps ++ [⟨.right, c, y, l⟩], c', l', r', by rw [fill_append]; rfl⟩

/-- The last node in a direction has nothing there. -/
theorem exists_last (d : Direction) (h : t.root? = some x) :
    ∃ ps c y far, t = fill ps (.branch d c y .nil far) ∧ beyond d ps = [] := by
  induction t generalizing x with
  | nil => cases h
  | node c l y r ihl ihr =>
    cases d with
    | left =>
      cases hl : l.root? with
      | none =>
        cases l with
        | nil => exact ⟨[], c, y, r, rfl, rfl⟩
        | node => cases hl
      | some z =>
        obtain ⟨ps, c', y', far, rfl, hb⟩ := ihl hl
        refine ⟨ps ++ [⟨.left, c, y, r⟩], c', y', far, by rw [fill_append]; rfl, ?_⟩
        rw [beyond_append, hb]
        rfl
    | right =>
      cases hr : r.root? with
      | none =>
        cases r with
        | nil => exact ⟨[], c, y, l, rfl, rfl⟩
        | node => cases hr
      | some z =>
        obtain ⟨ps, c', y', far, rfl, hb⟩ := ihr hr
        refine ⟨ps ++ [⟨.right, c, y, l⟩], c', y', far, by rw [fill_append]; rfl, ?_⟩
        rw [beyond_append, hb]
        rfl

/-- All the nodes outside the hole. -/
def nodes : Path α → List α
  | [] => []
  | f :: ps => f.node :: (f.sibling.inorder ++ nodes ps)

theorem node_mem_nodes {f : Step α} {ps : Path α} (h : f ∈ ps) : f.node ∈ nodes ps := by
  induction ps with
  | nil => cases h
  | cons g ps ih =>
    rcases List.mem_cons.mp h with rfl | h
    · exact List.mem_cons_self
    · exact List.mem_cons_of_mem _ (List.mem_append_right _ (ih h))

theorem inorder_fill_perm (ps : Path α) (t : Tree α) :
    (fill ps t).inorder.Perm (t.inorder ++ nodes ps) := by
  induction ps generalizing t with
  | nil =>
    rw [nodes, List.append_nil]
    exact .refl _
  | cons f ps ih =>
    refine (ih _).trans ?_
    refine (Tree.inorder_branch_perm.append_right _).trans ?_
    rw [nodes, List.cons_append, List.append_assoc]
    exact List.perm_middle.symm

/-- The path to the leaf that is left of the nodes with `lt` and right of the others. -/
def descend (lt : α → Bool) : Tree α → Path α → Path α
  | .nil, ps => ps
  | .node c l x r, ps =>
    if lt x then descend lt l (⟨.left, c, x, r⟩ :: ps) else descend lt r (⟨.right, c, x, l⟩ :: ps)

theorem fill_descend (lt : α → Bool) (t : Tree α) (ps : Path α) :
    fill (descend lt t ps) .nil = fill ps t := by
  induction t generalizing ps with
  | nil => rfl
  | node c l x r ihl ihr =>
    rw [descend]
    split
    · exact ihl _
    · exact ihr _

theorem length_descend_le (lt : α → Bool) (t : Tree α) (ps : Path α) :
    (descend lt t ps).length ≤ t.size + ps.length := by
  induction t generalizing ps with
  | nil => simp [descend]
  | node c l x r ihl ihr =>
    rw [descend, Tree.size]
    split
    · have := ihl (⟨.left, c, x, r⟩ :: ps)
      rw [List.length_cons] at this
      omega
    · have := ihr (⟨.right, c, x, l⟩ :: ps)
      rw [List.length_cons] at this
      omega

/-- The leaf divides the nodes into those without and those with `lt`, in a tree where they come
in this order. -/
theorem beyond_descend {lt : α → Bool} {t : Tree α}
    (h : t.inorder.Pairwise fun x y => lt x → lt y) (ps : Path α) :
    (beyond .left (descend lt t ps)).reverse =
        (beyond .left ps).reverse ++ t.inorder.filter (! lt ·) ∧
      beyond .right (descend lt t ps) = t.inorder.filter lt ++ beyond .right ps := by
  induction t generalizing ps with
  | nil => simp [descend, Tree.inorder, Tree.walk]
  | node c l x r ihl ihr =>
    obtain ⟨hl, hxr, hlx⟩ := List.pairwise_append.mp h
    obtain ⟨hx, hr⟩ := List.pairwise_cons.mp hxr
    have hin : (Tree.node c l x r).inorder = l.inorder ++ x :: r.inorder := rfl
    rw [descend, hin, List.filter_append, List.filter_append, List.filter_cons, List.filter_cons]
    split
    next hlt =>
      have hall : ∀ y ∈ r.inorder, lt y := fun y hy => hx y hy hlt
      have hnone : r.inorder.filter (! lt ·) = [] :=
        List.filter_eq_nil_iff.mpr fun y hy => by simp [hall y hy]
      have hself : r.inorder.filter lt = r.inorder := List.filter_eq_self.mpr hall
      have := ihl hl (⟨.left, c, x, r⟩ :: ps)
      have hwalk : r.walk .right = r.inorder := rfl
      simp [this.1, this.2, beyond, hlt, hnone, hself, hwalk]
    next hlt =>
      have hall : ∀ y ∈ l.inorder, ¬ lt y := fun y hy hy' => hlt (hlx y hy x List.mem_cons_self hy')
      have hnone : l.inorder.filter lt = [] := List.filter_eq_nil_iff.mpr hall
      have hself : l.inorder.filter (! lt ·) = l.inorder :=
        List.filter_eq_self.mpr fun y hy => by simp [hall y hy]
      have := ihr hr (⟨.right, c, x, l⟩ :: ps)
      have hwalk : l.walk .left = l.inorder.reverse := Tree.walk_opposite .right l
      simp [this.1, this.2, beyond, hlt, hnone, hself, hwalk]

/-! ## A balanced tree with a hole -/

/-- A tree of the colour `c` and the black height `n` in the hole makes the whole one of the colour
`c₀` and the black height `n₀`. -/
inductive Balanced (c₀ : Color) (n₀ : Nat) : Path α → Color → Nat → Prop where
  | nil : Balanced c₀ n₀ [] c₀ n₀
  | red {d : Direction} {x : α} {sibling : Tree α} {ps : Path α} {n : Nat}
      (hs : sibling.Balanced .black n) (hp : Balanced c₀ n₀ ps .red n) :
      Balanced c₀ n₀ (⟨d, .red, x, sibling⟩ :: ps) .black n
  | black {d : Direction} {x : α} {sibling : Tree α} {ps : Path α} {n : Nat} {c c' : Color}
      (hs : sibling.Balanced c' n) (hp : Balanced c₀ n₀ ps .black (n + 1)) :
      Balanced c₀ n₀ (⟨d, .black, x, sibling⟩ :: ps) c n

variable {c₀ : Color} {n₀ : Nat} {ps qs : Path α}

theorem Balanced.fill (h : Balanced c₀ n₀ ps c n) (ht : t.Balanced c n) :
    (Path.fill ps t).Balanced c₀ n₀ := by
  induction h generalizing t with
  | nil => exact ht
  | red hs hp ih => exact ih (.branch_red ht hs)
  | black hs hp ih => exact ih (.branch_black ht hs)

theorem Balanced.of_fill (h : (Path.fill ps t).Balanced c₀ n₀) :
    ∃ c n, Balanced c₀ n₀ ps c n ∧ t.Balanced c n := by
  induction ps generalizing t with
  | nil => exact ⟨c₀, n₀, .nil, h⟩
  | cons f ps ih =>
    obtain ⟨c, n, hp, hf⟩ := ih h
    obtain ⟨d, col, x, sibling⟩ := f
    cases col with
    | red =>
      obtain ⟨rfl, ht, hs⟩ := Tree.Balanced.of_branch_red hf
      exact ⟨.black, n, .red hs hp, ht⟩
    | black =>
      obtain ⟨rfl, m, c₁, c₂, rfl, ht, hs⟩ := Tree.Balanced.of_branch_black hf
      exact ⟨c₁, m, .black hs hp, ht⟩

theorem Balanced.append {c₁ : Color} {n₁ : Nat} (h : Balanced c₁ n₁ ps c n)
    (hq : Balanced c₀ n₀ qs c₁ n₁) : Balanced c₀ n₀ (ps ++ qs) c n := by
  induction h with
  | nil => exact hq
  | red hs hp ih => exact .red hs ih
  | black hs hp ih => exact .black hs ih

/-- Below a black root, a black tree fits wherever another one does. -/
theorem Balanced.to_black (h : Balanced .black n₀ ps c n) : Balanced .black n₀ ps .black n := by
  cases h with
  | nil => exact .nil
  | red hs hp => exact .red hs hp
  | black hs hp => exact .black hs hp

/-- The shape does not depend on the nodes. -/
theorem Balanced.relabel (h : (Path.fill ps (.branch d c x near far)).Balanced c₀ n₀) (y : α) :
    (Path.fill ps (.branch d c y near far)).Balanced c₀ n₀ := by
  obtain ⟨c', n, hp, ht⟩ := Balanced.of_fill h
  refine hp.fill ?_
  cases c with
  | red =>
    obtain ⟨rfl, hn, hf⟩ := ht.of_branch_red
    exact .branch_red hn hf
  | black =>
    obtain ⟨rfl, m, c₁, c₂, rfl, hn, hf⟩ := ht.of_branch_black
    exact .branch_black hn hf

/-! ## Where the shape has to be repaired -/

/-- Above a red node there is a black one, with another subtree. -/
theorem Balanced.above_red {f : Step α} (h : Balanced .black n₀ (f :: ps) c n)
    (hf : f.color = .red) : ∃ d g uncle qs cu, ps = ⟨d, .black, g, uncle⟩ :: qs ∧
      f.sibling.Balanced .black n ∧ uncle.Balanced cu n ∧ Balanced .black n₀ qs .black (n + 1) := by
  cases h with
  | black hs hp => cases hf
  | red hs hp =>
    cases hp with
    | black hu hq => exact ⟨_, _, _, _, _, rfl, hs, hu, hq⟩

/-- What stands around a black hole: the parent, red or black, with the sibling of the hole. -/
theorem Balanced.around {f : Step α} (h : Balanced .black n₀ (f :: ps) .black n) :
    ∃ cs, f.sibling.Balanced cs n ∧
      ((f.color = .red ∧ cs = .black ∧ Balanced .black n₀ ps .red n) ∨
        (f.color = .black ∧ Balanced .black n₀ ps .black (n + 1))) := by
  cases h with
  | red hs hp => exact ⟨_, hs, .inl ⟨rfl, rfl, hp⟩⟩
  | black hs hp => exact ⟨_, hs, .inr ⟨rfl, hp⟩⟩

end Path

end Rtems.Lib
