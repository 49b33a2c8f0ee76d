import Rtems.RBTree.Next

/-!
# Extraction

A node with at most one child is cut out of the tree; `_RBTree_Extract_validate`
makes up for a black leaf before it is cut.  A node with two children is
replaced by its predecessor, which is cut out instead.
-/

namespace Rtems.RBTree

open Lib

variable {Addr : Type} [DecidableEq Addr] {s s' : State Addr} {c p q x y z : Addr}
  {d e : Direction} {col col' : Color} {ps : Lib.Path Addr} {t u near far a b : Lib.Tree Addr}
  {ft : Direction → Option Addr} {n n₀ k fuel : Nat}

/-! ## The sibling of a hole -/

theorem setColor_self (h : s.color x = col) : s.setColor x col = s := by
  have hcol : (fun z => if z = x then col else s.color z) = s.color := by
    funext z
    split
    next hz => rw [hz, h]
    next => rfl
  unfold State.setColor
  rw [hcol]

/-- The sibling and its children are painted and rotated while the hole is left alone. -/
theorem Holds.setColor_sibling
    (h : Holds s c ft (Lib.Path.fill (⟨d, col, p, .branch d col' y a b⟩ :: ps) t)) (col₁ : Color) :
    Holds (s.setColor y col₁) c ft (Lib.Path.fill (⟨d, col, p, .branch d col₁ y a b⟩ :: ps) t) := by
  rw [fill_sibling] at h
  have h₁ := h.setColor col₁
  rw [fill_sibling] at h₁
  dsimp only at h₁
  rw [Direction.opposite_opposite] at h₁
  exact h₁

theorem Holds.setColor_parent (h : Holds s c ft (Lib.Path.fill (⟨d, col, p, u⟩ :: ps) t))
    (col₁ : Color) : Holds (s.setColor p col₁) c ft (Lib.Path.fill (⟨d, col₁, p, u⟩ :: ps) t) := by
  have h₁ : Holds s c ft (Lib.Path.fill ps (.branch d col p t u)) := h
  exact h₁.setColor col₁

/-- The sibling is rotated above the parent of the hole. -/
theorem Holds.rotate_sibling
    (h : Holds s c ft (Lib.Path.fill (⟨d, col, p, .branch d col' y a b⟩ :: ps) t)) :
    ∃ s', RBTree.rotate s p d = some s' ∧
      Holds s' c ft (Lib.Path.fill (⟨d, col, p, a⟩ :: ⟨d, col', y, b⟩ :: ps) t) := by
  have h₁ : Holds s c ft (Lib.Path.fill ps (.branch d col p t (.branch d col' y a b))) := h
  exact h₁.rotate

/-- The far child of the sibling is painted. -/
theorem Holds.setColor_far {b₁ b₂ : Lib.Tree Addr} {c₁ c₂ : Color} (h : Holds s c ft
      (Lib.Path.fill (⟨d, col, p, .branch d c₁ y a (.branch d c₂ z b₁ b₂)⟩ :: ps) t)) (c₃ : Color) :
    Holds (s.setColor z c₃) c ft
      (Lib.Path.fill (⟨d, col, p, .branch d c₁ y a (.branch d c₃ z b₁ b₂)⟩ :: ps) t) := by
  rw [fill_sibling] at h
  have h₁ : Holds s c ft (Lib.Path.fill (⟨d.opposite, c₁, y, a⟩ :: ⟨d.opposite, col, p, t⟩ :: ps)
      (.branch d c₂ z b₁ b₂)) := by
    rw [Lib.Path.fill_cons, Step.fill, Lib.Tree.branch_opposite]
    exact h
  have h₂ := h₁.setColor c₃
  rw [Lib.Path.fill_cons, Step.fill, Lib.Tree.branch_opposite, fill_sibling] at h₂
  dsimp only at h₂
  rw [Direction.opposite_opposite] at h₂
  exact h₂

/-- The near child of the sibling is painted. -/
theorem Holds.setColor_near {a₁ a₂ : Lib.Tree Addr} {c₁ c₂ : Color} (h : Holds s c ft
      (Lib.Path.fill (⟨d, col, p, .branch d c₁ y (.branch e c₂ z a₁ a₂) b⟩ :: ps) t)) (c₃ : Color) :
    Holds (s.setColor z c₃) c ft
      (Lib.Path.fill (⟨d, col, p, .branch d c₁ y (.branch e c₃ z a₁ a₂) b⟩ :: ps) t) := by
  rw [fill_sibling] at h
  have h₁ : Holds s c ft (Lib.Path.fill (⟨d, c₁, y, b⟩ :: ⟨d.opposite, col, p, t⟩ :: ps)
      (.branch e c₂ z a₁ a₂)) := h
  have h₂ : Holds _ c ft (Lib.Path.fill (⟨d.opposite, col, p, t⟩ :: ps)
      (.branch d c₁ y (.branch e c₃ z a₁ a₂) b)) := h₁.setColor c₃
  rw [fill_sibling] at h₂
  dsimp only at h₂
  rw [Direction.opposite_opposite] at h₂
  exact h₂

/-- The near child of the sibling is rotated above it. -/
theorem Holds.rotate_near {a₁ a₂ : Lib.Tree Addr} {c₁ c₂ : Color} (h : Holds s c ft
      (Lib.Path.fill (⟨d, col, p, .branch d c₁ y (.branch d c₂ z a₁ a₂) b⟩ :: ps) t)) :
    ∃ s', RBTree.rotate s y d.opposite = some s' ∧ Holds s' c ft
      (Lib.Path.fill (⟨d, col, p, .branch d c₂ z a₁ (.branch d c₁ y a₂ b)⟩ :: ps) t) := by
  rw [fill_sibling] at h
  have h₁ : Holds s c ft (Lib.Path.fill (⟨d.opposite, col, p, t⟩ :: ps)
      (.branch d.opposite c₁ y b (.branch d.opposite c₂ z a₂ a₁))) := by
    rw [Lib.Tree.branch_opposite, Lib.Tree.branch_opposite]
    exact h
  obtain ⟨s', hs', h₂⟩ := h₁.rotate
  refine ⟨s', hs', ?_⟩
  rw [Lib.Tree.branch_opposite, Lib.Tree.branch_opposite, fill_sibling] at h₂
  dsimp only at h₂
  rw [Direction.opposite_opposite] at h₂
  exact h₂

/-- A hole that is too low by one. -/
structure Low (s : State Addr) (c : Addr) (ft : Direction → Option Addr) (n₀ k : Nat)
    (ps : Lib.Path Addr) (t : Lib.Tree Addr) (x : Addr) (l : List Addr) : Prop where
  holds : Holds s c ft (Lib.Path.fill ps t)
  balanced : Lib.Path.Balanced .black n₀ ps .black (k + 1)
  root : t.root? = some x
  black : t.rootColor = .black
  inorder : (Lib.Path.fill ps t).inorder = l

variable {l : List Addr}

section

omit [DecidableEq Addr]

theorem Low.color (h : Low s c ft n₀ k ps t x l) : s.color x = .black :=
  (h.holds.subtree.color_root h.root).trans h.black

end

/-- After `blackSibling` the sibling is black. -/
theorem Low.blackSibling (h : Low s c ft n₀ k (⟨d, col, p, u⟩ :: ps) t x l) :
    ∃ s' col' ps' y a b, blackSibling s x p = some (s', some y) ∧
      Low s' c ft n₀ k (⟨d, col', p, .branch d .black y a b⟩ :: ps') t x l ∧
      (col' = .black → ps' = ps) := by
  have hsib : RBTree.sibling s x p = u.root? := h.holds.sibling h.root
  have hred := h.holds.step.2.2.2.isRed
  have hdir : RBTree.direction s x p = d := h.holds.direction h.root
  obtain ⟨cs, hs, hcase⟩ := h.balanced.around
  obtain ⟨y, a, b, rfl⟩ := hs.exists_branch d
  rw [Lib.Tree.root?_branch] at hsib
  dsimp only at hred
  rw [Lib.Tree.root?_branch, Lib.Tree.rootColor_branch] at hred
  simp only [RBTree.blackSibling, hsib, hred, hdir, Option.bind_eq_bind, Option.bind_some]
  cases cs with
  | black => exact ⟨s, col, ps, y, a, b, rfl, h, fun _ => rfl⟩
  | red =>
    rcases hcase with ⟨-, hcs, -⟩ | ⟨hcol, hps⟩
    · cases hcs
    · have hcol : col = .black := hcol
      subst hcol
      obtain ⟨-, ha, hb⟩ := hs.of_branch_red
      obtain ⟨s', hs', h'⟩ := ((h.holds.setColor_parent .red).setColor_sibling .black).rotate_sibling
      obtain ⟨z, a₁, a₂, rfl⟩ := ha.exists_branch d
      have hchild := h'.step.2.2.1
      dsimp only at hchild
      rw [Lib.Tree.root?_branch] at hchild
      refine ⟨s', .red, _, z, a₁, a₂, ?_, ⟨h', ?_, h.root, h.black, ?_⟩, fun hblack => by cases hblack⟩
      · rw [if_pos (by decide), hs', Option.bind_some, hchild]
      · exact .red ha (.black hb hps)
      · rw [← h.inorder]
        refine Lib.Path.inorder_fill_congr ps ?_
        cases d <;> simp [Step.fill, Lib.Tree.branch, Lib.Tree.inorder, Lib.Tree.walk]

/-- Both children of the sibling are black, the parent is red. -/
theorem Low.blackNephews_red (h : Low s c ft n₀ k (⟨d, .red, p, .branch d .black y a b⟩ :: ps) t x l)
    (ha : a.rootColor = .black) (hb : b.rootColor = .black) :
    Holds ((s.setColor y .red).setColor p .black) c ft
        (Lib.Path.fill (⟨d, .black, p, .branch d .red y a b⟩ :: ps) t) ∧
      Lib.Path.Balanced .black n₀ (⟨d, .black, p, .branch d .red y a b⟩ :: ps) .black k ∧
      (Lib.Path.fill (⟨d, .black, p, .branch d .red y a b⟩ :: ps) t).inorder = l := by
  obtain ⟨cs, hs, hcase⟩ := h.balanced.around
  obtain ⟨-, m, ca, cb, hm, hna, hnb⟩ := hs.of_branch_black
  obtain rfl : k = m := by omega
  obtain rfl : ca = .black := hna.rootColor.symm.trans ha
  obtain rfl : cb = .black := hnb.rootColor.symm.trans hb
  refine ⟨(h.holds.setColor_sibling .red).setColor_parent .black, ?_, ?_⟩
  · rcases hcase with ⟨-, -, hps⟩ | ⟨hcol, -⟩
    · exact .black (.branch_red hna hnb) hps.to_black
    · cases hcol
  · rw [← h.inorder]
    refine Lib.Path.inorder_fill_congr ps ?_
    cases d <;> simp [Step.fill, Lib.Tree.branch, Lib.Tree.inorder, Lib.Tree.walk]

/-- Both children of the sibling are black, and the parent too: the hole moves up. -/
theorem Low.blackNephews_black
    (h : Low s c ft n₀ k (⟨d, .black, p, .branch d .black y a b⟩ :: ps) t x l)
    (ha : a.rootColor = .black) (hb : b.rootColor = .black) :
    Low (s.setColor y .red) c ft n₀ (k + 1) ps (.branch d .black p t (.branch d .red y a b)) p l ∧
      (Lib.Tree.branch d .red y a b).Balanced .red k := by
  obtain ⟨cs, hs, hcase⟩ := h.balanced.around
  obtain ⟨-, m, ca, cb, hm, hna, hnb⟩ := hs.of_branch_black
  obtain rfl : k = m := by omega
  obtain rfl : ca = .black := hna.rootColor.symm.trans ha
  obtain rfl : cb = .black := hnb.rootColor.symm.trans hb
  have hps : Lib.Path.Balanced .black n₀ ps .black (k + 1 + 1) := by
    rcases hcase with ⟨hcol, -⟩ | ⟨-, hps⟩
    · cases hcol
    · exact hps
  refine ⟨⟨h.holds.setColor_sibling .red, hps, Lib.Tree.root?_branch, Lib.Tree.rootColor_branch, ?_⟩,
    .branch_red hna hnb⟩
  rw [← h.inorder]
  refine Lib.Path.inorder_fill_congr ps ?_
  cases d <;> simp [Step.fill, Lib.Tree.branch, Lib.Tree.inorder, Lib.Tree.walk]

/-- The far child of the sibling is red: it makes up for the node removed. -/
theorem Low.borrow_far {b₁ b₂ : Lib.Tree Addr}
    (h : Low s c ft n₀ k (⟨d, col, p, .branch d .black y a (.branch d .red z b₁ b₂)⟩ :: ps) t x l) :
    ∃ s', RBTree.rotate (((s.setColor y col).setColor p .black).setColor z .black) p d = some s' ∧
      Holds s' c ft (Lib.Path.fill (⟨d, .black, p, a⟩ :: ⟨d, col, y, .branch d .black z b₁ b₂⟩ :: ps) t) ∧
      Lib.Path.Balanced .black n₀ (⟨d, .black, p, a⟩ :: ⟨d, col, y, .branch d .black z b₁ b₂⟩ :: ps)
        .black k ∧
      (Lib.Path.fill (⟨d, .black, p, a⟩ :: ⟨d, col, y, .branch d .black z b₁ b₂⟩ :: ps) t).inorder =
        l := by
  obtain ⟨cs, hs, hcase⟩ := h.balanced.around
  obtain ⟨-, m, ca, cb, hm, hna, hnb⟩ := hs.of_branch_black
  obtain rfl : k = m := by omega
  obtain ⟨-, hb₁, hb₂⟩ := hnb.of_branch_red
  obtain ⟨s', hs', h'⟩ :=
    (((h.holds.setColor_sibling col).setColor_parent .black).setColor_far .black).rotate_sibling
  refine ⟨s', hs', h', .black hna ?_, ?_⟩
  · rcases hcase with ⟨hcol, -, hps⟩ | ⟨hcol, hps⟩
    · obtain rfl : col = .red := hcol
      exact .red (.branch_black hb₁ hb₂) hps
    · obtain rfl : col = .black := hcol
      exact .black (.branch_black hb₁ hb₂) hps
  · rw [← h.inorder]
    refine Lib.Path.inorder_fill_congr ps ?_
    cases d <;> simp [Step.fill, Lib.Tree.branch, Lib.Tree.inorder, Lib.Tree.walk]

/-- The near child of the sibling is red and the far one black: it is rotated to the far side. -/
theorem Low.borrow_near {a₁ a₂ : Lib.Tree Addr}
    (h : Low s c ft n₀ k (⟨d, col, p, .branch d .black y (.branch d .red z a₁ a₂) b⟩ :: ps) t x l)
    (hb : b.rootColor = .black) :
    ∃ s', RBTree.rotate ((s.setColor y .red).setColor z .black) y d.opposite = some s' ∧
      Low s' c ft n₀ k (⟨d, col, p, .branch d .black z a₁ (.branch d .red y a₂ b)⟩ :: ps) t x l := by
  obtain ⟨cs, hs, hcase⟩ := h.balanced.around
  obtain ⟨hcs, m, ca, cb, hm, hna, hnb⟩ := hs.of_branch_black
  obtain rfl : k = m := by omega
  obtain ⟨-, ha₁, ha₂⟩ := hna.of_branch_red
  obtain rfl : cb = .black := hnb.rootColor.symm.trans hb
  obtain ⟨s', hs', h'⟩ := ((h.holds.setColor_sibling .red).setColor_near .black).rotate_near
  have hsib : (Lib.Tree.branch d .black z a₁ (.branch d .red y a₂ b)).Balanced .black (k + 1) :=
    .branch_black ha₁ (.branch_red ha₂ hnb)
  refine ⟨s', hs', h', ?_, h.root, h.black, ?_⟩
  · rcases hcase with ⟨hcol, -, hps⟩ | ⟨hcol, hps⟩
    · obtain rfl : col = .red := hcol
      exact .red hsib hps
    · obtain rfl : col = .black := hcol
      exact .black hsib hps
  · rw [← h.inorder]
    refine Lib.Path.inorder_fill_congr ps ?_
    cases d <;> simp [Step.fill, Lib.Tree.branch, Lib.Tree.inorder, Lib.Tree.walk]

/-- A hole that has got its height back. -/
def Mended (s : State Addr) (c : Addr) (ft : Direction → Option Addr) (n₀ k : Nat)
    (t : Lib.Tree Addr) (l : List Addr) : Prop :=
  ∃ ps, Holds s c ft (Lib.Path.fill ps t) ∧ Lib.Path.Balanced .black n₀ ps .black k ∧
    (Lib.Path.fill ps t).inorder = l

/-- What is read at the sibling of a hole. -/
theorem Low.nephews (h : Low s c ft n₀ k (⟨d, col, p, .branch d .black y a b⟩ :: ps) t x l) :
    s.color p = col ∧ RBTree.direction s x p = d ∧ s.child p d.opposite = some y ∧
      s.child y d = a.root? ∧ s.child y d.opposite = b.root? ∧
      isRed s a.root? = (a.rootColor == .red) ∧ isRed s b.root? = (b.rootColor == .red) := by
  obtain ⟨-, hcol, hchild, hangs⟩ := h.holds.step
  obtain ⟨-, -, hnear, hfar, ha, hb⟩ := hangs_branch.mp hangs
  rw [Lib.Tree.root?_branch] at hchild
  exact ⟨hcol, h.holds.direction h.root, hchild, hnear, hfar, ha.isRed, hb.isRed⟩

theorem Low.nephews_black
    (h : Low s c ft n₀ k (⟨d, col, p, .branch d .black y a b⟩ :: ps) t x l) :
    (¬ isRed s (s.child y .right) ∧ ¬ isRed s (s.child y .left)) ↔
      a.rootColor = .black ∧ b.rootColor = .black := by
  obtain ⟨-, -, -, hnear, hfar, ha, hb⟩ := h.nephews
  cases d with
  | left =>
    have hfar : s.child y .right = b.root? := hfar
    rw [hnear, hfar, ha, hb]
    cases a.rootColor <;> cases b.rootColor <;> decide
  | right =>
    have hfar : s.child y .left = b.root? := hfar
    rw [hnear, hfar, ha, hb]
    cases a.rootColor <;> cases b.rootColor <;> decide

/-- One of the children of the sibling is red. -/
theorem Low.borrow (h : Low s c ft n₀ k (⟨d, col, p, .branch d .black y a b⟩ :: ps) t x l)
    (hred : a.rootColor = .red ∨ b.rootColor = .red) :
    ∃ s', borrow s x p y = some s' ∧ Mended s' c ft n₀ k t l := by
  obtain ⟨hcol, hdir, -, hnear, hfar, -, hbred⟩ := h.nephews
  cases hb : b.rootColor with
  | red =>
    obtain ⟨z, b₁, b₂, rfl⟩ := Lib.Tree.exists_branch_of_red d hb
    obtain ⟨s', hs', h'⟩ := h.borrow_far
    rw [Lib.Tree.root?_branch] at hfar hbred
    refine ⟨s', ?_, _, h'⟩
    simp [RBTree.borrow, hdir, hfar, hbred, hb, hcol, hs']
  | black =>
    have ha : a.rootColor = .red := hred.resolve_right (by rw [hb]; decide)
    obtain ⟨z, a₁, a₂, rfl⟩ := Lib.Tree.exists_branch_of_red d ha
    obtain ⟨s₁, hs₁, h₁⟩ := h.borrow_near hb
    obtain ⟨hcol₁, -, hchild₁, -, hfar₁, -, -⟩ := h₁.nephews
    obtain ⟨s', hs', h'⟩ := h₁.borrow_far
    rw [Lib.Tree.root?_branch] at hnear hfar₁
    refine ⟨s', ?_, _, h'⟩
    simp [RBTree.borrow, hdir, hfar, hbred, hb, hnear, hs₁, hchild₁, hcol₁, hfar₁, hs']

/-! ## The repair before an extraction -/

/-- The result of the loop of `_RBTree_Extract_validate`: the hole is mended, and the node where
the loop ends is black. -/
def Validated (s : State Addr) (x c : Addr) (ft : Direction → Option Addr) (t : Lib.Tree Addr)
    (l : List Addr) : Prop :=
  s.color x = .black ∧ (∃ p, s.parent x = some p) ∧ ∃ n, Mended s c ft n 0 t l

section

omit [DecidableEq Addr]

theorem Mended.validated {inner : Lib.Path Addr} (h : Mended s c ft n₀ k (Lib.Path.fill inner t) l)
    (hin : Lib.Path.Balanced .black k inner .black 0) (hx : (Lib.Path.fill inner t).root? = some x)
    (hcol : (Lib.Path.fill inner t).rootColor = .black) : Validated s x c ft t l := by
  obtain ⟨ps, hps, hbal, hl⟩ := h
  refine ⟨(hps.subtree.color_root hx).trans hcol, ⟨_, hps.subtree.parent_root hx⟩, n₀, inner ++ ps,
    ?_, hin.append hbal, ?_⟩
  · rw [Lib.Path.fill_append]
    exact hps
  · rw [Lib.Path.fill_append]
    exact hl

end

/-- The loop of `_RBTree_Extract_validate`.  The subtree of `x` will have the height `k` when the
leaf below it is gone, and the way to the leaf grows as the loop moves up. -/
theorem Low.extractValidateLoop {inner : Lib.Path Addr} (h : Low s c ft n₀ k ps (Lib.Path.fill inner t) x l)
    (hin : Lib.Path.Balanced .black k inner .black 0) (hfuel : ps.length < fuel) :
    ∃ s' x', extractValidateLoop fuel s x (up c ps) = some (s', x') ∧
      Validated s' x' c ft t l := by
  induction fuel generalizing s k ps inner x with
  | zero => cases hfuel
  | succ fuel ih =>
    have hx := h.color
    cases ps with
    | nil =>
      have htop : s.parent (up c []) = none := h.holds.top
      refine ⟨s, x, ?_, Mended.validated ⟨[], h.holds, .nil, h.inorder⟩ hin h.root h.black⟩
      rw [RBTree.extractValidateLoop, htop, if_neg (by simp)]
    | cons f ps =>
      obtain ⟨d, col, p, u⟩ := f
      have hpp : s.parent p ≠ none := by rw [h.holds.step.1]; exact nofun
      obtain ⟨s₁, col₁, ps₁, y, a, b, hs₁, h₁, hcol⟩ := h.blackSibling
      have hguard : s.color x ≠ .red ∧ s.parent p ≠ none := ⟨by rw [hx]; exact nofun, hpp⟩
      rw [RBTree.extractValidateLoop, up, if_pos hguard, hs₁]
      simp only [Option.bind_eq_bind, Option.bind_some]
      by_cases hblack : a.rootColor = .black ∧ b.rootColor = .black
      · have hp₂ : (s₁.setColor y .red).color p = col₁ :=
          (h₁.holds.setColor_sibling .red).step.2.1
        rw [if_pos (h₁.nephews_black.mpr hblack), RBTree.isRed, hp₂]
        cases col₁ with
        | red =>
          have hm := h₁.blackNephews_red hblack.1 hblack.2
          exact ⟨_, x, rfl, Mended.validated ⟨_, hm⟩ hin h.root h.black⟩
        | black =>
          obtain ⟨h₂, hbal⟩ := h₁.blackNephews_black hblack.1 hblack.2
          obtain rfl := hcol rfl
          have hfill : Lib.Path.fill (inner ++ [⟨d, .black, p, .branch d .red y a b⟩]) t =
              .branch d .black p (Lib.Path.fill inner t) (.branch d .red y a b) :=
            Lib.Path.fill_append _ _ _
          rw [if_neg (by decide), h₂.holds.subtree.parent_root h₂.root]
          rw [← hfill] at h₂
          exact ih h₂ (hin.append (.black hbal .nil)) (Nat.lt_of_succ_lt_succ hfuel)
      · have hred : a.rootColor = .red ∨ b.rootColor = .red := by
          cases ha : a.rootColor with
          | red => exact .inl rfl
          | black =>
            cases hb : b.rootColor with
            | red => exact .inr rfl
            | black => exact absurd ⟨ha, hb⟩ hblack
        obtain ⟨s', hs', hm⟩ := h₁.borrow hred
        refine ⟨s', x, ?_, hm.validated hin h.root h.black⟩
        rw [if_neg fun hn => hblack (h₁.nephews_black.mp hn), hs']
        rfl

/-- `_RBTree_Extract_validate` of a leaf: what surrounds it is balanced without it. -/
theorem Holds.extractValidate (h : Holds s c ft (Lib.Path.fill ps (.node col .nil x .nil)))
    (hbal : (Lib.Path.fill ps (.node col .nil x .nil)).Balanced .black n₀) (hfuel : ps.length < fuel) :
    ∃ s' n, extractValidate fuel s x = some s' ∧
      Mended s' c ft n 0 (.node col .nil x .nil) (Lib.Path.fill ps (.node col .nil x .nil)).inorder := by
  obtain ⟨c₁, n₁, hp, ht⟩ := Lib.Path.Balanced.of_fill hbal
  have hpar := h.subtree.parent_root rfl
  unfold RBTree.extractValidate
  rw [hpar]
  cases ps with
  | nil =>
    refine ⟨s, 0, ?_, [], h, .nil, rfl⟩
    exact if_pos h.top
  | cons f ps =>
    have hup : s.parent (up c (f :: ps)) ≠ none := fun hn => nomatch h.parent_up.mp hn
    rw [Option.bind_eq_bind, Option.bind_some, if_neg hup]
    cases col with
    | red =>
      have hx : s.color x = .red := h.subtree.color_root rfl
      have hloop : RBTree.extractValidateLoop fuel s x (up c (f :: ps)) = some (s, x) := by
        cases fuel with
        | zero => cases hfuel
        | succ fuel => exact if_neg fun hn => hn.1 hx
      refine ⟨s, n₀, ?_, f :: ps, h, ?_, rfl⟩
      · rw [hloop, Option.bind_eq_bind, Option.bind_some]
        dsimp only
        rw [hpar, Option.bind_some, if_neg hup]
      · cases ht with
        | red hl hr =>
          cases hl
          exact hp.to_black
    | black =>
      obtain ⟨rfl, rfl⟩ : c₁ = .black ∧ n₁ = 1 := by
        cases ht with
        | black hl hr =>
          cases hl
          exact ⟨rfl, rfl⟩
      have hlow : Low s c ft n₀ 0 (f :: ps) (Lib.Path.fill [] (.node .black .nil x .nil)) x _ :=
        ⟨h, hp, rfl, rfl, rfl⟩
      obtain ⟨s', x', hs', hcol, ⟨p, hp'⟩, n, hm⟩ := hlow.extractValidateLoop .nil hfuel
      refine ⟨s', n, ?_, hm⟩
      rw [hs', Option.bind_eq_bind, Option.bind_some]
      dsimp only
      rw [hp', Option.bind_some, setColor_self hcol]
      split <;> rfl

/-! ## Cutting out a node -/

/-- The only subtree of a node takes its place. -/
theorem Holds.cut (h : Holds s c ft (Lib.Path.fill ps (.branch d col y .nil u))) :
    Holds ((adopt s u.root? (some (up c ps))).setChild (up c ps) (upDir ps) u.root?) c ft
      (Lib.Path.fill ps u) := by
  obtain ⟨hnd, -, hdis⟩ := h.disjoint
  obtain ⟨-, -, -, -, -, hu⟩ := hangs_branch.mp h.subtree
  obtain ⟨⟨-, hyu⟩, -, hnu, -⟩ := Lib.Tree.nodup_inorder_branch.mp hnd
  have hroot : ∀ z, u.root? = some z → z ∈ u.inorder := fun z => Lib.Tree.mem_inorder_of_root?
  have hup : up c ps ∉ u.inorder := fun hz =>
    hdis _ (up_mem c ps) (Lib.Tree.mem_inorder_branch.mpr (.inr (.inr hz)))
  refine h.refocus hnu (fun z hz => Lib.Tree.mem_inorder_branch.mpr (.inr (.inr hz))) (by simp)
    (fun z hz => ?_) (by simp) (hu.reparent hnu (fun z hz => ?_) fun z hz => ?_)
  · have hzu : u.root? ≠ some z := fun hr =>
      hz (Lib.Tree.mem_inorder_branch.mpr (.inr (.inr (hroot z hr))))
    exact ⟨by simp [hzu], by simp, fun e he => by simp [he]⟩
  · simp [hz]
  · have hne : z ≠ up c ps := fun e => hup (e ▸ hz)
    exact ⟨fun hr => by simp [hr], by simp, fun e => by simp [hne]⟩

theorem inorder_cut (hnd : (Lib.Path.fill ps (.branch d col y .nil u)).inorder.Nodup) :
    (Lib.Path.fill ps u).inorder = (Lib.Path.fill ps (.branch d col y .nil u)).inorder.erase y := by
  rw [Lib.Path.inorder_fill, Lib.Path.inorder_fill]
  rw [Lib.Path.inorder_fill, List.append_assoc] at hnd
  obtain ⟨-, hnd', hdis⟩ := List.nodup_append.mp hnd
  have hy : y ∈ (Lib.Tree.branch d col y .nil u).inorder := Lib.Tree.mem_inorder_branch.mpr (.inl rfl)
  have hpre : y ∉ (Lib.Path.beyond .left ps).reverse := fun hz =>
    hdis y hz y (List.mem_append_left _ hy) rfl
  rw [List.append_assoc, List.append_assoc, List.erase_append_right _ hpre,
    List.erase_append_left _ hy]
  congr 2
  have hnd'' := Lib.Tree.nodup_inorder_branch.mp (List.nodup_append.mp hnd').1
  cases d with
  | left => exact (List.erase_cons_head _ _).symm
  | right =>
    refine Eq.symm ((List.erase_append_right _ hnd''.1.2).trans ?_)
    rw [List.erase_cons_head]
    exact List.append_nil _

section

omit [DecidableEq Addr]

/-- A node above at most one red leaf. -/
theorem balanced_single (h : (Lib.Tree.branch d col y .nil u).Balanced col' n) :
    u = .nil ∨ (col = .black ∧ col' = .black ∧ n = 1 ∧
      ∃ v, u = .node .red .nil v .nil) := by
  cases col with
  | red =>
    obtain ⟨-, hnil, hu⟩ := h.of_branch_red
    cases hnil
    cases hu
    exact .inl rfl
  | black =>
    obtain ⟨rfl, m, c₁, c₂, rfl, hnil, hu⟩ := h.of_branch_black
    cases hnil
    cases hu with
    | nil => exact .inl rfl
    | red hl hr =>
      cases hl
      cases hr
      exact .inr ⟨rfl, rfl, rfl, _, rfl⟩

end

theorem paintLeaf_none : paintLeaf s none col = s := by
  cases col <;> rfl

/-- A node with at most one subtree leaves the tree. -/
theorem Holds.unlink (h : Holds s c ft (Lib.Path.fill ps (.branch d col y .nil u)))
    (hbal : (Lib.Path.fill ps (.branch d col y .nil u)).Balanced .black n₀) (hfuel : ps.length < fuel) :
    ∃ s₁ s₂, vacate fuel s y u.root? = some s₁ ∧ replaceChild s₁ y u.root? = some s₂ ∧
      Repaired (paintLeaf s₂ u.root? (s₁.color y)) c ft
        ((Lib.Path.fill ps (.branch d col y .nil u)).inorder.erase y) := by
  obtain ⟨c₁, n₁, hp, ht⟩ := Lib.Path.Balanced.of_fill hbal
  have hnd := (List.nodup_cons.mp h.nodup).2
  rcases balanced_single ht with rfl | ⟨rfl, rfl, rfl, v, rfl⟩
  · have hleaf : Lib.Tree.branch d col y .nil .nil = .node col .nil y .nil := by cases d <;> rfl
    rw [hleaf] at h hbal ⊢
    obtain ⟨s₁, n₂, hs₁, ps', h', hbal', hin⟩ := h.extractValidate hbal hfuel
    have hdir := h'.direction (x := y) rfl
    have hpar := h'.subtree.parent_root (x := y) rfl
    refine ⟨s₁, s₁.setChild (up c ps') (upDir ps') none, hs₁, ?_, ?_⟩
    · simp only [replaceChild, hpar, Option.bind_eq_bind, Option.bind_some, hdir, Lib.Tree.root?]
    · rw [← hleaf] at h'
      rw [Lib.Tree.root?, paintLeaf_none]
      refine ⟨_, n₂, h'.cut, hbal'.fill .nil, ?_⟩
      rw [inorder_cut (List.nodup_cons.mp h'.nodup).2, hleaf, hin]
  · have hy : y ≠ v := by
      have := (Lib.Tree.nodup_inorder_branch.mp h.disjoint.1).1.2
      simpa [Lib.Tree.inorder, Lib.Tree.walk] using this
    obtain ⟨hpar, hcol, -, -, -, -⟩ := hangs_branch.mp h.subtree
    have hdir := h.direction (x := y) Lib.Tree.root?_branch
    refine ⟨s.setParent v (some (up c ps)), (s.setParent v (some (up c ps))).setChild (up c ps)
      (upDir ps) (some v), ?_, ?_, ?_⟩
    · rw [Lib.Tree.root?, vacate, hpar]
    · have hdir' : RBTree.direction (s.setParent v (some (up c ps))) y (up c ps) = upDir ps := hdir
      rw [replaceChild, parent_setParent, if_neg hy, hpar, Option.bind_eq_bind, Option.bind_some,
        hdir']
      rfl
    · rw [color_setParent, hcol, ← inorder_cut hnd]
      have hpaint := Holds.setColor (d := .left) h.cut .black
      exact ⟨_, n₀, hpaint, hp.fill (.black .nil .nil), Lib.Path.inorder_fill_congr ps rfl⟩

/-! ## Exchanging a node for another -/

/-- The memory after an exchange. -/
theorem exchange_eq (hpar : s.parent x = some p) (hdir : direction s x p = d) (hxp : x ≠ p)
    (hxy : x ≠ y) (ha : s.child x .left ≠ some x) (hb : s.child x .right ≠ some x) :
    ∃ s', exchange s x y = some s' ∧ s'.firstRight = s.firstRight ∧
      (∀ z, s'.parent z = if z = y then some p else
        if s.child x .left = some z ∨ s.child x .right = some z then some y else s.parent z) ∧
      (∀ z, s'.color z = if z = y then s.color x else s.color z) ∧
      ∀ z e, s'.child z e = if z = y then s.child x e else
        if z = p ∧ e = d then some y else s.child z e := by
  have hstep : replaceChild s x (some y) = some (s.setChild p d (some y)) := by
    rw [replaceChild, hpar, Option.bind_eq_bind, Option.bind_some, hdir]
  unfold exchange
  rw [hstep]
  refine ⟨_, rfl, ?_, fun z => ?_, fun z => ?_, fun z e => ?_⟩
  · simp [takeChild]
  · simp [takeChild, hxp, hxy, ha, hb, hpar]
    grind
  · simp [takeChild, hxy]
  · simp [takeChild, hxp, hxy]
    cases e <;> simp

/-- Another node takes the place of a node with everything below it. -/
theorem Holds.exchange (h : Holds s c ft (Lib.Path.fill ps (.node col a x b)))
    (hyc : y ≠ c) (hy : y ∉ (Lib.Path.fill ps (.node col a x b)).inorder) :
    ∃ s', exchange s x y = some s' ∧ Holds s' c ft (Lib.Path.fill ps (.node col a y b)) := by
  obtain ⟨hnd, hcp, hdis⟩ := h.disjoint
  obtain ⟨hpar, hcol, hleft, hright, ha, hb⟩ := h.subtree
  have hup := hdis _ (up_mem c ps)
  rw [(Lib.Path.inorder_fill_perm _ _).mem_iff, List.mem_append, not_or] at hy
  obtain ⟨hyt, hyp⟩ := hy
  have hnode : ∀ w, Lib.Tree.node col a w b = .branch .left col w a b := fun _ => rfl
  rw [hnode] at hnd hyt
  simp only [hnode, Lib.Tree.mem_inorder_branch, not_or] at hdis hup hyt
  obtain ⟨⟨hxa, hxb⟩, hna, hnb, hab⟩ := Lib.Tree.nodup_inorder_branch.mp hnd
  have hra : ∀ z, a.root? = some z → z ∈ a.inorder := fun z => Lib.Tree.mem_inorder_of_root?
  have hrb : ∀ z, b.root? = some z → z ∈ b.inorder := fun z => Lib.Tree.mem_inorder_of_root?
  have hycp : y ∉ c :: Lib.Path.nodes ps := List.not_mem_cons_of_ne_of_not_mem hyc hyp
  obtain ⟨s', hs', hfirst, hparent, hcolor, hchild⟩ := exchange_eq (y := y) hpar
    (h.direction rfl) (fun e => hup.1 e.symm) (fun e => hyt.1 e.symm)
    (fun e => hxa (hra x (hleft ▸ e))) (fun e => hxb (hrb x (hright ▸ e)))
  rw [hleft, hright] at hparent
  refine ⟨s', hs', h.replace ?_ hfirst (fun z hz => ?_) ?_ ⟨?_, ?_, ?_, ?_, ?_, ?_⟩⟩
  · rw [hnode]
    have hcp' := List.nodup_cons.mp hcp
    rw [List.nodup_cons, List.nodup_append, List.mem_append, not_or]
    refine ⟨⟨?_, hcp'.1⟩, Lib.Tree.nodup_inorder_branch.mpr ⟨hyt.2, hna, hnb, hab⟩, hcp'.2, ?_⟩
    · rw [Lib.Tree.mem_inorder_branch, not_or, not_or]
      exact ⟨hyc.symm, (hdis c List.mem_cons_self).2⟩
    · rintro z hz w hw rfl
      rcases Lib.Tree.mem_inorder_branch.mp hz with rfl | hz
      · exact hyp hw
      · exact absurd hz (not_or.mpr (hdis z (List.mem_cons_of_mem _ hw)).2)
  · have hzy : z ≠ y := fun e => hycp (e ▸ hz)
    obtain ⟨hzx, hza, hzb⟩ := hdis z hz
    refine ⟨?_, ?_, fun e he => ?_⟩
    · rw [hparent, if_neg hzy, if_neg]
      rintro (hr | hr)
      · exact hza (hra z hr)
      · exact hzb (hrb z hr)
    · rw [hcolor, if_neg hzy]
    · rw [hchild, if_neg hzy, if_neg he]
  · have hne : up c ps ≠ y := fun e => hycp (e ▸ up_mem c ps)
    rw [hchild, if_neg hne, if_pos ⟨rfl, rfl⟩]
    rfl
  · rw [hparent, if_pos rfl]
  · rw [hcolor, if_pos rfl, hcol]
  · rw [hchild, if_pos rfl, hleft]
  · rw [hchild, if_pos rfl, hright]
  · refine ha.reparent hna (fun z hz => ?_) fun z hz => ?_
    · have hzy : z ≠ y := fun e => hyt.2.1 (e ▸ hra z hz)
      rw [hparent, if_neg hzy, if_pos (.inl hz)]
    · have hzy : z ≠ y := fun e => hyt.2.1 (e ▸ hz)
      have hzp : z ≠ up c ps := fun e => hup.2.1 (e ▸ hz)
      refine ⟨fun hr => ?_, by rw [hcolor, if_neg hzy], fun e => ?_⟩
      · rw [hparent, if_neg hzy, if_neg (not_or.mpr ⟨hr, fun hr' => hab z hz (hrb z hr')⟩)]
      · rw [hchild, if_neg hzy, if_neg fun e => hzp e.1]
  · refine hb.reparent hnb (fun z hz => ?_) fun z hz => ?_
    · have hzy : z ≠ y := fun e => hyt.2.2 (e ▸ hrb z hz)
      rw [hparent, if_neg hzy, if_pos (.inr hz)]
    · have hzy : z ≠ y := fun e => hyt.2.2 (e ▸ hz)
      have hzp : z ≠ up c ps := fun e => hup.2.2 (e ▸ hz)
      refine ⟨fun hr => ?_, by rw [hcolor, if_neg hzy], fun e => ?_⟩
      · rw [hparent, if_neg hzy, if_neg (not_or.mpr ⟨fun hr' => hab z (hra z hr') hz, hr⟩)]
      · rw [hchild, if_neg hzy, if_neg fun e => hzp e.1]

/-- Painting another node does not matter to an exchange. -/
theorem exchange_setColor {v : Addr} (hx : v ≠ x) (hy : v ≠ y) :
    exchange (s.setColor v col) x y = (exchange s x y).map (·.setColor v col) := by
  unfold exchange replaceChild
  rw [parent_setColor]
  cases s.parent x with
  | none => rfl
  | some p =>
    have hdir : direction (s.setColor v col) x p = direction s x p := rfl
    refine congrArg some (State.ext ?_ ?_ ?_ ?_)
    · funext z
      simp [takeChild, hdir]
    · funext z e
      simp [takeChild, hdir]
    · funext z
      simp only [takeChild, color_setColor, color_setParent, color_adopt, color_setChild,
        if_neg hx.symm]
      split
      next hz =>
        have hzv : ¬ z = v := fun e => hy (e.symm.trans hz)
        exact (if_neg hzv).symm
      next => rfl
    · simp [takeChild]

theorem exchange_paintLeaf {leaf : Option Addr} (hx : leaf ≠ some x) (hy : leaf ≠ some y) :
    exchange (paintLeaf s leaf col) x y = (exchange s x y).map (paintLeaf · leaf col) := by
  cases leaf with
  | none =>
    simp only [paintLeaf_none]
    exact Option.map_id'.symm
  | some v =>
    cases col with
    | black => exact exchange_setColor (fun e => hx (e ▸ rfl)) fun e => hy (e ▸ rfl)
    | red => exact Option.map_id'.symm

/-! ## Extraction -/

/-- The root is black already. -/
theorem Repaired.repaint {l : List Addr} {leaf : Option Addr}
    (h : Repaired (paintLeaf s leaf col) c ft l) : Repaired (repaint s c leaf col) c ft l := by
  obtain ⟨t, n, ht, hbal, hl⟩ := h
  have hroot : root (paintLeaf s leaf col) c = t.root? := ht.root
  unfold RBTree.repaint
  dsimp only
  rw [hroot]
  cases hr : t.root? with
  | none => exact ⟨t, n, ht, hbal, hl⟩
  | some r =>
    dsimp only
    rw [setColor_self ((ht.hangs.color_root hr).trans hbal.rootColor)]
    exact ⟨t, n, ht, hbal, hl⟩

section

omit [DecidableEq Addr]

/-- A list is divided by an element that occurs only once in one way. -/
theorem append_cons_inj {as bs cs ds : List Addr} (h : as ++ x :: bs = cs ++ x :: ds)
    (hnd : (as ++ x :: bs).Nodup) : as = cs ∧ bs = ds := by
  have hx : ∀ l : List Addr, (l ++ x :: bs).Nodup → x ∉ l := fun l hl hx =>
    (List.nodup_append.mp hl).2.2 x hx x List.mem_cons_self rfl
  rcases List.append_eq_append_iff.mp h with ⟨m, rfl, hm⟩ | ⟨m, rfl, hm⟩
  · cases m with
    | nil => exact ⟨(List.append_nil as).symm, (List.cons.inj hm).2⟩
    | cons z m =>
      obtain ⟨rfl, rfl⟩ := List.cons.inj hm
      have hnd' := (List.nodup_cons.mp (List.nodup_append.mp hnd).2.1).1
      exact absurd (List.mem_append_right m List.mem_cons_self) hnd'
  · cases m with
    | nil => exact ⟨List.append_nil cs, (List.cons.inj hm).2.symm⟩
    | cons z m =>
      obtain ⟨rfl, -⟩ := List.cons.inj hm
      exact absurd (List.mem_append_right cs List.mem_cons_self) (hx _ hnd)

end

/-- The predecessor of a node takes its place in the order. -/
theorem inorder_exchange {as bs : List Addr} (hnd : (as ++ y :: x :: bs).Nodup)
    (h : (Lib.Path.fill ps (.node col a x b)).inorder = (as ++ y :: x :: bs).erase y) :
    (Lib.Path.fill ps (.node col a y b)).inorder = (as ++ y :: x :: bs).erase x := by
  have hsplit : ∀ w, (Lib.Path.fill ps (.node col a w b)).inorder =
      ((Lib.Path.beyond .left ps).reverse ++ a.inorder) ++ w :: (b.inorder ++ Lib.Path.beyond .right ps) := by
    intro w
    rw [Lib.Path.inorder_fill]
    change _ ++ (a.inorder ++ w :: b.inorder) ++ _ = _
    rw [← List.append_assoc, List.append_assoc _ _ (Lib.Path.beyond _ _), List.cons_append]
  have hdis := (List.nodup_append.mp hnd).2.2
  have hyx := (List.nodup_cons.mp (List.nodup_append.mp hnd).2.1).1
  have hya : y ∉ as := fun hy => hdis y hy y List.mem_cons_self rfl
  have hxa : x ∉ as := fun hx => hdis x hx x (List.mem_cons_of_mem _ List.mem_cons_self) rfl
  have hne : y ≠ x := fun e => hyx (e ▸ List.mem_cons_self)
  have hnd' := hnd.erase y
  rw [hsplit, List.erase_append_right _ hya, List.erase_cons_head] at h
  rw [List.erase_append_right _ hya, List.erase_cons_head] at hnd'
  obtain ⟨h₁, h₂⟩ := append_cons_inj h.symm hnd'
  rw [hsplit, ← h₁, ← h₂, List.erase_append_right _ hxa, List.erase_cons_tail (by simpa using hne),
    List.erase_cons_head]

/-- A node with at most one subtree is extracted. -/
theorem Holds.extract_single (h : Holds s c ft (Lib.Path.fill ps (.branch d col x .nil u)))
    (hbal : (Lib.Path.fill ps (.branch d col x .nil u)).Balanced .black n₀) (hfuel : ps.length < fuel) :
    ∃ s', (do
        let s ← vacate fuel s x u.root?
        let victimColor := s.color x
        let s ← replaceChild s x u.root?
        some (repaint s c u.root? victimColor)) = some s' ∧
      Repaired s' c ft ((Lib.Path.fill ps (.branch d col x .nil u)).inorder.erase x) := by
  obtain ⟨s₁, s₂, hs₁, hs₂, hr⟩ := h.unlink hbal hfuel
  refine ⟨_, ?_, hr.repaint⟩
  simp only [hs₁, hs₂, Option.bind_eq_bind, Option.bind_some]

/-- A node with two subtrees is extracted: its predecessor `y` takes its place. -/
theorem Holds.extract_double {qs : Lib.Path Addr}
    (h : Holds s c ft (Lib.Path.fill (qs ++ ⟨.left, col, x, b⟩ :: ps) (.branch .right col' y .nil u)))
    (hbal : (Lib.Path.fill (qs ++ ⟨.left, col, x, b⟩ :: ps) (.branch .right col' y .nil u)).Balanced
      .black n₀)
    (hqs : Lib.Path.beyond .right qs = []) (hfuel : (qs ++ ⟨.left, col, x, b⟩ :: ps).length < fuel) :
    ∃ s', (do
        let s ← vacate fuel s y u.root?
        let victimColor := s.color y
        let s ← replaceChild s y u.root?
        let s ← RBTree.exchange s x y
        some (repaint s c u.root? victimColor)) = some s' ∧
      Repaired s' c ft ((Lib.Path.fill (qs ++ ⟨.left, col, x, b⟩ :: ps)
        (.branch .right col' y .nil u)).inorder.erase x) := by
  obtain ⟨s₁, s₂, hs₁, hs₂, t₁, n₁, h₁, hbal₁, hin₁⟩ := h.unlink hbal hfuel
  have hnd := (List.nodup_cons.mp h.nodup).2
  have hc := (List.nodup_cons.mp h.nodup).1
  -- The predecessor comes directly before the node.
  obtain ⟨as, bs, hin⟩ : ∃ as bs, (Lib.Path.fill (qs ++ ⟨.left, col, x, b⟩ :: ps)
      (.branch .right col' y .nil u)).inorder = as ++ y :: x :: bs := by
    rw [Lib.Path.inorder_fill, Lib.Path.beyond_append, Lib.Path.beyond_append, hqs]
    refine ⟨(Lib.Path.beyond .left qs ++ Lib.Path.beyond .left (⟨.left, col, x, b⟩ :: ps)).reverse ++
      u.inorder, b.inorder ++ Lib.Path.beyond .right ps, ?_⟩
    simp [Lib.Tree.branch, Lib.Tree.inorder, Lib.Tree.walk, Lib.Path.beyond]
  have hxn : x ∉ (Lib.Tree.branch .right col' y .nil u).inorder :=
    h.disjoint.2.2 x (List.mem_cons_of_mem _ (Lib.Path.node_mem_nodes
      (List.mem_append_right qs (List.mem_cons_self (a := ⟨.left, col, x, b⟩)))))
  have hyn := (Lib.Tree.nodup_inorder_branch.mp h.disjoint.1).1.2
  have hleafx : u.root? ≠ some x := fun e =>
    hxn (Lib.Tree.mem_inorder_branch.mpr (.inr (.inr (Lib.Tree.mem_inorder_of_root? e))))
  have hleafy : u.root? ≠ some y := fun e => hyn (Lib.Tree.mem_inorder_of_root? e)
  rw [hin] at hin₁ hnd hc ⊢
  have hxy : x ≠ y := fun e => hxn (Lib.Tree.mem_inorder_branch.mpr (.inl e))
  have hx₁ : x ∈ t₁.inorder := by
    rw [hin₁, hnd.mem_erase_iff]
    exact ⟨hxy, List.mem_append_right _ (List.mem_cons_of_mem _ List.mem_cons_self)⟩
  have hy₁ : y ∉ t₁.inorder := by
    rw [hin₁]
    exact hnd.not_mem_erase
  have hyc : y ≠ c := by
    rintro rfl
    exact hc (List.mem_append_right _ List.mem_cons_self)
  obtain ⟨ps₁, col₁, a₁, b₁, rfl⟩ := Lib.Path.exists_fill hx₁
  obtain ⟨s₃, hs₃, h₃⟩ := h₁.exchange hyc hy₁
  rw [exchange_paintLeaf hleafx hleafy, Option.map_eq_some_iff] at hs₃
  obtain ⟨s₄, hs₄, rfl⟩ := hs₃
  have hr : Repaired (paintLeaf s₄ u.root? (s₁.color y)) c ft ((as ++ y :: x :: bs).erase x) :=
    ⟨_, n₁, h₃, Lib.Path.Balanced.relabel (d := .left) hbal₁ y, inorder_exchange hnd hin₁⟩
  refine ⟨_, ?_, hr.repaint⟩
  simp only [hs₁, hs₂, hs₄, Option.bind_eq_bind, Option.bind_some]

/-- `_RBTree_Extract` takes exactly one node out of the order. -/
theorem Represents.extract {compare : Compare Addr} {l : List Addr} (h : Represents compare s c l)
    (hx : x ∈ l) (hfuel : l.length ≤ fuel) :
    ∃ s', extract fuel s c x = some s' ∧ Represents compare s' c (l.erase x) := by
  obtain ⟨t, n, ht, hbal, rfl⟩ := h.tree
  have hsorted : Sorted compare (t.inorder.erase x) := h.sorted.sublist List.erase_sublist
  obtain ⟨s₁, s₂, hs₁, hs₂, h₂⟩ := ht.advanceFirsts hx hfuel
  obtain ⟨ps, col, a, b, rfl⟩ := Lib.Path.exists_fill hx
  obtain ⟨-, -, hleft, hright, ha, -⟩ := h₂.subtree
  have hsize := Lib.Path.size_fill_ge ps (.node col a x b)
  rw [Lib.Tree.size_eq_length (Lib.Path.fill _ _), Lib.Tree.size] at hsize
  simp only [RBTree.extract, hs₁, hs₂, Option.bind_eq_bind, Option.bind_some, hleft, hright]
  have hps : ps.length < fuel := by omega
  cases hra : a.root? with
  | none =>
    obtain rfl : a = .nil := Lib.Tree.root?_eq_none.mp hra
    obtain ⟨s', hs', hr⟩ := Holds.extract_single (d := .left) h₂ hbal hps
    exact ⟨s', hs', hr, hsorted⟩
  | some z =>
    cases hrb : b.root? with
    | none =>
      obtain rfl : b = .nil := Lib.Tree.root?_eq_none.mp hrb
      obtain ⟨s', hs', hr⟩ := Holds.extract_single (d := .right) h₂ hbal hps
      rw [hra] at hs'
      exact ⟨s', hs', hr, hsorted⟩
    | some w =>
      obtain ⟨qs, col', y, u, rfl, hqs⟩ := Lib.Path.exists_last .right hra
      have hdescend : RBTree.descend s₂ .right fuel z = some y := by
        rw [ha.descend hra (by omega), Lib.Path.walk_fill, hqs, Lib.Tree.walk_branch]
        simp [Lib.Tree.walk]
      have hfill : Lib.Path.fill ps (.node col (Lib.Path.fill qs (.branch .right col' y .nil u)) x b) =
          Lib.Path.fill (qs ++ ⟨.left, col, x, b⟩ :: ps) (.branch .right col' y .nil u) := by
        rw [Lib.Path.fill_append]
        rfl
      have hqs' : (qs ++ ⟨.left, col, x, b⟩ :: ps).length < fuel := by
        have := Lib.Path.size_fill_ge qs (.branch .right col' y .nil u)
        rw [List.length_append, List.length_cons]
        rw [Lib.Tree.size_branch] at this
        omega
      rw [hfill] at h₂ hbal hsorted ⊢
      have hleaf : s₂.child y .left = u.root? := (hangs_branch.mp h₂.subtree).2.2.2.1
      obtain ⟨s', hs', hr⟩ := h₂.extract_double hbal hqs hqs'
      refine ⟨s', ?_, hr, hsorted⟩
      dsimp only
      rw [hdescend, Option.bind_some, hleaf]
      exact hs'

end Rtems.RBTree
