import Rtems.RBTree.Insert

/-!
# The next node

`_RBTree_Next` finds the neighbor of a node in the order of the tree, and with
it the control moves its first nodes when one of them is extracted.
-/

namespace Rtems.RBTree

open Lib

variable {Addr : Type} [DecidableEq Addr] {s s' : State Addr} {c p q x y : Addr} {d e : Direction}
  {col col' : Color} {ps : Lib.Path Addr} {t u near far a b : Lib.Tree Addr} {ft : Direction → Option Addr}
  {fuel : Nat}

section

omit [DecidableEq Addr]

/-- The way down in a direction leads to the last node there. -/
theorem Hangs.descend (h : Hangs s p t) (hx : t.root? = some x) (hfuel : t.size ≤ fuel) :
    descend s d fuel x = (t.walk d).getLast? := by
  induction t generalizing p x fuel with
  | nil => cases hx
  | node col l y r ihl ihr =>
    cases hx
    obtain ⟨-, -, hleft, hright, hl, hr⟩ := h
    cases fuel with
    | zero => cases hfuel
    | succ fuel =>
      have hsize : l.size + r.size ≤ fuel := Nat.le_of_succ_le_succ hfuel
      rw [RBTree.descend]
      cases d with
      | left =>
        rw [hleft]
        cases l with
        | nil => simp [Lib.Tree.root?, Lib.Tree.walk]
        | node col' l' z r' =>
          refine (ihl hl rfl (by omega)).trans ?_
          simp [Lib.Tree.walk, List.getLast?_cons]
      | right =>
        rw [hright]
        cases r with
        | nil => simp [Lib.Tree.root?, Lib.Tree.walk]
        | node col' l' z r' =>
          refine (ihr hr rfl (by omega)).trans ?_
          simp [Lib.Tree.walk, List.getLast?_cons]

/-- A child is where the path leads down to it, and nowhere else. -/
theorem Holds.child_up {f : Step Addr} (h : Holds s c ft (Lib.Path.fill (f :: ps) t))
    (hx : t.root? = some x) : s.child f.node d = some x ↔ f.dir = d := by
  constructor
  · intro hd
    rcases f.dir.eq_or_opposite d with rfl | rfl
    · rfl
    · have hsib := Lib.Tree.mem_inorder_of_root? (h.step.2.2.1.symm.trans hd)
      refine absurd (Lib.Tree.mem_inorder_of_root? hx) (h.disjoint.2.2 x ?_)
      exact List.mem_cons_of_mem _ (List.mem_cons_of_mem _ (List.mem_append_left _ hsib))
  · rintro rfl
    exact h.hole.trans hx

end

/-- The way up ends below the first node beyond. -/
theorem Holds.climb (h : Holds s c ft (Lib.Path.fill ps t)) (hx : t.root? = some x)
    (hfuel : ps.length < fuel) :
    climb s d fuel x (up c ps) = some (Lib.Path.beyond d ps).head? := by
  induction ps generalizing t x fuel with
  | nil =>
    cases fuel with
    | zero => cases hfuel
    | succ fuel =>
      have htop : s.parent (up c []) = none := h.top
      rw [RBTree.climb, htop]
      rfl
  | cons f ps ih =>
    cases fuel with
    | zero => cases hfuel
    | succ fuel =>
      have hpar : s.parent (up c (f :: ps)) = some (up c ps) := h.step.1
      rw [RBTree.climb, hpar, Lib.Path.beyond]
      dsimp only
      rw [show up c (f :: ps) = f.node from rfl]
      split
      next hd =>
        rw [if_pos ((h.child_up hx).mp hd)]
        exact ih h Lib.Tree.root?_branch (Nat.lt_of_succ_lt_succ hfuel)
      next hd =>
        rw [if_neg fun he => hd ((h.child_up hx).mpr he)]
        rfl

/-- `_RBTree_Next`: the first node of what comes after. -/
theorem Holds.next (h : Holds s c ft (Lib.Path.fill ps (.branch d col x near far)))
    (hfuel : near.size ≤ fuel) (hps : ps.length < fuel) :
    next fuel s x d = some (near.walk d ++ Lib.Path.beyond d ps).head? := by
  obtain ⟨hpar, -, hnear, -, hn, -⟩ := hangs_branch.mp h.subtree
  unfold RBTree.next
  rw [hnear]
  cases hr : near.root? with
  | some y =>
    have hlast : (near.walk d.opposite).getLast? = (near.walk d).head? := by
      rw [Lib.Tree.walk_opposite, List.getLast?_reverse]
    have hne : (near.walk d).head? ≠ none := by
      cases near with
      | nil => cases hr
      | node col' l z r => cases d <;> simp [Lib.Tree.walk]
    obtain ⟨z, hz⟩ := Option.ne_none_iff_exists'.mp hne
    dsimp only
    rw [hn.descend hr hfuel, hlast, List.head?_append, hz]
    rfl
  | none =>
    have hnil : near = .nil := by
      cases near with
      | nil => rfl
      | node => cases hr
    subst hnil
    dsimp only
    rw [hpar, Option.bind_eq_bind, Option.bind_some]
    split
    next hop =>
      cases ps with
      | nil => exact absurd h.top hop.1
      | cons f ps =>
        have hdir := (h.child_up Lib.Tree.root?_branch).mp hop.2
        have hne : ¬ f.dir = d := fun e => d.opposite_ne (hdir.symm.trans e)
        rw [Lib.Path.beyond, if_neg hne]
        rfl
    next => exact h.climb Lib.Tree.root?_branch hps

/-! ## The first nodes of the control -/

section

omit [DecidableEq Addr]

/-- The first node of a side starts the order towards the other. -/
theorem ends_inorder (d : Direction) (t : Lib.Tree Addr) :
    ends t.inorder d = (t.walk d.opposite).head? := by
  cases d with
  | left => rfl
  | right =>
    have hwalk : t.walk Direction.right.opposite = t.inorder.reverse := Lib.Tree.walk_opposite .right t
    rw [hwalk, List.head?_reverse]
    rfl

end

theorem ends_erase (d : Direction) (ht : t.inorder.Nodup) :
    ends (t.inorder.erase x) d = ((t.walk d.opposite).erase x).head? := by
  cases d with
  | left => rfl
  | right =>
    have hwalk : t.walk Direction.right.opposite = t.inorder.reverse := Lib.Tree.walk_opposite .right t
    rw [hwalk, (List.nodup_reverse.mpr ht).erase_eq_filter, List.filter_reverse, List.head?_reverse,
      ht.erase_eq_filter]
    rfl

/-- The control moves a first node that is extracted. -/
theorem Holds.advanceFirst (h : Holds s c ft (Lib.Path.fill ps (.node col a x b)))
    (hd : ft d = ends (Lib.Path.fill ps (.node col a x b)).inorder d)
    (hfuel : (Lib.Path.fill ps (.node col a x b)).inorder.length ≤ fuel) :
    ∃ s', advanceFirst fuel s c x d = some s' ∧
      Holds s' c (Function.update ft d (ends ((Lib.Path.fill ps (.node col a x b)).inorder.erase x) d))
        (Lib.Path.fill ps (.node col a x b)) := by
  obtain ⟨near, far, hbr⟩ := Lib.Tree.exists_branch d.opposite (t := .node col a x b) rfl
  rw [Lib.Tree.rootColor] at hbr
  rw [hbr] at h hd hfuel ⊢
  rw [← Lib.Tree.size_eq_length] at hfuel
  have hsize := Lib.Path.size_fill_ge ps (.branch d.opposite col x near far)
  rw [Lib.Tree.size_branch] at hsize
  have hnext : RBTree.next fuel s x d.opposite = _ := h.next (by omega) (by omega)
  have hnd := (List.nodup_cons.mp h.nodup).2
  have hfirst := (h.first d).trans hd
  -- What comes before the node, towards the other side, and what comes after it.
  obtain ⟨as, has⟩ : ∃ as, (Lib.Path.fill ps (.branch d.opposite col x near far)).walk d.opposite =
      as ++ x :: (near.walk d.opposite ++ Lib.Path.beyond d.opposite ps) := by
    rw [Lib.Path.walk_fill, Lib.Tree.walk_branch]
    exact ⟨_, by rw [← List.append_assoc, List.append_assoc _ _ (Lib.Path.beyond _ _), List.cons_append]⟩
  have hx : x ∉ as := by
    have hnd' := Lib.Tree.nodup_walk hnd d.opposite
    rw [has] at hnd'
    exact fun hx => (List.nodup_append.mp hnd').2.2 x hx x List.mem_cons_self rfl
  rw [ends_inorder, has] at hfirst
  rw [ends_erase d hnd, has, List.erase_append_right _ hx, List.erase_cons_head]
  unfold RBTree.advanceFirst
  cases as with
  | nil =>
    have hx : RBTree.first s c d = some x := hfirst
    rw [if_pos hx, hnext]
    exact ⟨_, rfl, h.setFirst _ _⟩
  | cons z as =>
    have hne : ¬ RBTree.first s c d = some x := by
      rw [hfirst]
      exact fun e => hx (Option.some.inj e ▸ List.mem_cons_self)
    rw [if_neg hne]
    refine ⟨s, rfl, ?_⟩
    have hz : ft d = some z := (h.first d).symm.trans hfirst
    change Holds s c (Function.update ft d (some z)) _
    rw [← hz, Function.update_eq_self]
    exact h

/-- The control moves both its first nodes. -/
theorem Holds.advanceFirsts (h : Holds s c (ends t.inorder) t) (hx : x ∈ t.inorder)
    (hfuel : t.inorder.length ≤ fuel) :
    ∃ s₁ s₂, RBTree.advanceFirst fuel s c x .left = some s₁ ∧
      RBTree.advanceFirst fuel s₁ c x .right = some s₂ ∧
      Holds s₂ c (ends (t.inorder.erase x)) t := by
  obtain ⟨ps, col, a, b, rfl⟩ := Lib.Path.exists_fill hx
  obtain ⟨s₁, hs₁, h₁⟩ := h.advanceFirst (d := .left) rfl hfuel
  obtain ⟨s₂, hs₂, h₂⟩ := h₁.advanceFirst (d := .right) rfl hfuel
  refine ⟨s₁, s₂, hs₁, hs₂, ?_⟩
  convert h₂ using 1
  funext d
  cases d with
  | left => rfl
  | right => rfl

end Rtems.RBTree
