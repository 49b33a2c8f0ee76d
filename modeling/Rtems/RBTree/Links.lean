import Rtems.RBTree.Model

/-!
# Trees in memory

What it means that the links of the nodes make up a tree.  A subtree hangs below
a node, and the nodes of a path surround a hole.  An operation on a subtree
changes its nodes and the one pointer that leads to it; `Holds.refocus` says
that nothing else has to be looked at.
-/

namespace Rtems.RBTree

open Lib

variable {Addr : Type} [DecidableEq Addr] {s s' : State Addr} {c p q x y : Addr} {d e : Direction}
  {col col' : Color} {ps : Lib.Path Addr} {t u near far a b : Lib.Tree Addr} {ft : Direction → Option Addr}

/-! ## A subtree -/

/-- The tree hangs below `p`. -/
def Hangs (s : State Addr) (p : Addr) : Lib.Tree Addr → Prop
  | .nil => True
  | .node col l x r => s.parent x = some p ∧ s.color x = col ∧ s.child x .left = l.root? ∧
      s.child x .right = r.root? ∧ Hangs s x l ∧ Hangs s x r

section

omit [DecidableEq Addr]

theorem hangs_branch : Hangs s p (.branch d col x near far) ↔
    s.parent x = some p ∧ s.color x = col ∧ s.child x d = near.root? ∧
      s.child x d.opposite = far.root? ∧ Hangs s x near ∧ Hangs s x far := by
  cases d with
  | left => exact Iff.rfl
  | right =>
    constructor
    · rintro ⟨h₁, h₂, h₃, h₄, h₅, h₆⟩
      exact ⟨h₁, h₂, h₄, h₃, h₆, h₅⟩
    · rintro ⟨h₁, h₂, h₃, h₄, h₅, h₆⟩
      exact ⟨h₁, h₂, h₄, h₃, h₆, h₅⟩

/-- The node at `z` is the same in both states. -/
structure SameNode (s s' : State Addr) (z : Addr) : Prop where
  parent : s'.parent z = s.parent z
  color : s'.color z = s.color z
  child : ∀ e, s'.child z e = s.child z e

theorem Hangs.congr (h : Hangs s p t) (hs : ∀ z ∈ t.inorder, SameNode s s' z) :
    Hangs s' p t := by
  induction t generalizing p with
  | nil => trivial
  | node col l x r ihl ihr =>
    obtain ⟨h₁, h₂, h₃, h₄, h₅, h₆⟩ := h
    have hx := hs x (List.mem_append_right _ List.mem_cons_self)
    refine ⟨hx.parent.trans h₁, hx.color.trans h₂, (hx.child _).trans h₃,
      (hx.child _).trans h₄, ihl h₅ fun z hz => ?_, ihr h₆ fun z hz => ?_⟩
    · exact hs z (List.mem_append_left _ hz)
    · exact hs z (List.mem_append_right _ (List.mem_cons_of_mem _ hz))

/-- The tree hangs below another node when the parent of its root is changed. -/
theorem Hangs.reparent (h : Hangs s p t) (ht : t.inorder.Nodup)
    (hr : ∀ z, t.root? = some z → s'.parent z = some q)
    (hs : ∀ z ∈ t.inorder, (t.root? ≠ some z → s'.parent z = s.parent z) ∧
      s'.color z = s.color z ∧ ∀ e, s'.child z e = s.child z e) : Hangs s' q t := by
  cases t with
  | nil => trivial
  | node col l x r =>
    obtain ⟨h₁, h₂, h₃, h₄, h₅, h₆⟩ := h
    obtain ⟨hl, hxr, hlr⟩ := List.nodup_append.mp ht
    have hx := hs x (List.mem_append_right _ List.mem_cons_self)
    refine ⟨hr x rfl, hx.2.1.trans h₂, (hx.2.2 _).trans h₃, (hx.2.2 _).trans h₄,
      h₅.congr fun z hz => ?_, h₆.congr fun z hz => ?_⟩
    · have hz' := hs z (List.mem_append_left _ hz)
      have hne : some x ≠ some z := fun e =>
        hlr z hz x List.mem_cons_self (Option.some.inj e).symm
      exact ⟨hz'.1 hne, hz'.2.1, hz'.2.2⟩
    · have hz' := hs z (List.mem_append_right _ (List.mem_cons_of_mem _ hz))
      have hne : some x ≠ some z := fun e =>
        (List.nodup_cons.mp hxr).1 (Option.some.inj e ▸ hz)
      exact ⟨hz'.1 hne, hz'.2.1, hz'.2.2⟩

/-! ## The surroundings of a subtree -/

/-- The node above a hole, the control above the root. -/
def up (c : Addr) : Lib.Path Addr → Addr
  | [] => c
  | f :: _ => f.node

/-- The direction of a hole from the node above. -/
def upDir : Lib.Path Addr → Direction
  | [] => .left
  | f :: _ => f.dir

/-- The nodes of the path surround a hole. -/
def Surrounds (s : State Addr) (c : Addr) : Lib.Path Addr → Prop
  | [] => True
  | f :: ps => Surrounds s c ps ∧ s.child (up c ps) (upDir ps) = some f.node ∧
      s.parent f.node = some (up c ps) ∧ s.color f.node = f.color ∧
      s.child f.node f.dir.opposite = f.sibling.root? ∧ Hangs s f.node f.sibling

/-- The links of a tree are those of a subtree and those of what surrounds it. -/
theorem hangs_fill : (s.child c .left = (Lib.Path.fill ps t).root? ∧ Hangs s c (Lib.Path.fill ps t)) ↔
    Surrounds s c ps ∧ s.child (up c ps) (upDir ps) = t.root? ∧ Hangs s (up c ps) t := by
  induction ps generalizing t with
  | nil => exact (and_iff_right trivial).symm
  | cons f ps ih =>
    rw [Lib.Path.fill_cons, ih, Step.fill, hangs_branch, Lib.Tree.root?_branch]
    constructor
    · rintro ⟨h₁, h₂, h₃, h₄, h₅, h₆, h₇, h₈⟩
      exact ⟨⟨h₁, h₂, h₃, h₄, h₆, h₈⟩, h₅, h₇⟩
    · rintro ⟨⟨h₁, h₂, h₃, h₄, h₆, h₈⟩, h₅, h₇⟩
      exact ⟨h₁, h₂, h₃, h₄, h₅, h₆, h₇, h₈⟩

theorem up_mem (c : Addr) (ps : Lib.Path Addr) : up c ps ∈ c :: Lib.Path.nodes ps := by
  cases ps with
  | nil => exact List.mem_cons_self
  | cons f ps => exact List.mem_cons_of_mem _ List.mem_cons_self

/-- What surrounds a hole does not depend on what is in it. -/
theorem Surrounds.congr (h : Surrounds s c ps) (hnd : (c :: Lib.Path.nodes ps).Nodup)
    (hs : ∀ z ∈ Lib.Path.nodes ps, s'.parent z = s.parent z ∧ s'.color z = s.color z)
    (hc : ∀ z ∈ c :: Lib.Path.nodes ps, ∀ e, ¬ (z = up c ps ∧ e = upDir ps) →
      s'.child z e = s.child z e) : Surrounds s' c ps := by
  induction ps with
  | nil => trivial
  | cons f ps ih =>
    obtain ⟨h₁, h₂, h₃, h₄, h₅, h₆⟩ := h
    simp only [Lib.Path.nodes, List.mem_cons, List.mem_append, List.nodup_cons, List.nodup_append,
      not_or] at hnd hs hc
    obtain ⟨⟨hcf, hcs, hcp⟩, ⟨hfs, hfp⟩, -, hp, -⟩ := hnd
    have hne : ∀ z ∈ c :: Lib.Path.nodes ps, z ≠ f.node := by
      intro z hz
      rcases List.mem_cons.mp hz with rfl | hz
      · exact hcf
      · exact fun e => hfp (e ▸ hz)
    have hchild : ∀ z ∈ c :: Lib.Path.nodes ps, ∀ e, s'.child z e = s.child z e := by
      intro z hz e
      refine hc z ?_ e fun h => hne z hz h.1
      rcases List.mem_cons.mp hz with rfl | hz
      · exact .inl rfl
      · exact .inr (.inr (.inr hz))
    have hf := hs f.node (.inl rfl)
    refine ⟨ih h₁ (List.nodup_cons.mpr ⟨hcp, hp⟩) (fun z hz => hs z (.inr (.inr hz)))
        fun z hz e _ => hchild z hz e,
      (hchild _ (up_mem c ps) _).trans h₂, hf.1.trans h₃, hf.2.trans h₄, ?_,
      h₆.congr fun z hz => ?_⟩
    · rw [hc f.node (.inr (.inl rfl)) _ fun h => f.dir.opposite_ne h.2]
      exact h₅
    · obtain ⟨hz₁, hz₂⟩ := hs z (.inr (.inl hz))
      exact ⟨hz₁, hz₂, fun e => hc z (.inr (.inr (.inl hz))) e
        fun h => hfs ((show z = f.node from h.1) ▸ hz)⟩

/-! ## The tree of a control -/

/-- The control at `c` holds the tree, and `ft` are its first nodes. -/
structure Holds (s : State Addr) (c : Addr) (ft : Direction → Option Addr) (t : Lib.Tree Addr) :
    Prop where
  nodup : (c :: t.inorder).Nodup
  top : s.parent c = none
  root : s.child c .left = t.root?
  hangs : Hangs s c t
  first : ∀ d, first s c d = ft d

theorem Holds.surrounds (h : Holds s c ft (Lib.Path.fill ps t)) : Surrounds s c ps :=
  (hangs_fill.mp ⟨h.root, h.hangs⟩).1

theorem Holds.hole (h : Holds s c ft (Lib.Path.fill ps t)) :
    s.child (up c ps) (upDir ps) = t.root? :=
  (hangs_fill.mp ⟨h.root, h.hangs⟩).2.1

theorem Holds.subtree (h : Holds s c ft (Lib.Path.fill ps t)) : Hangs s (up c ps) t :=
  (hangs_fill.mp ⟨h.root, h.hangs⟩).2.2

theorem nodup_fill_iff :
    (c :: (Lib.Path.fill ps t).inorder).Nodup ↔ (c :: (t.inorder ++ Lib.Path.nodes ps)).Nodup :=
  ((Lib.Path.inorder_fill_perm ps t).cons c).nodup_iff

/-- The nodes of a subtree and of what surrounds it are different. -/
theorem Holds.disjoint (h : Holds s c ft (Lib.Path.fill ps t)) :
    t.inorder.Nodup ∧ (c :: Lib.Path.nodes ps).Nodup ∧ ∀ z ∈ c :: Lib.Path.nodes ps, z ∉ t.inorder := by
  have hnd := nodup_fill_iff.mp h.nodup
  rw [List.nodup_cons, List.nodup_append, List.mem_append, not_or] at hnd
  obtain ⟨⟨hct, hcp⟩, ht, hp, hdis⟩ := hnd
  refine ⟨ht, List.nodup_cons.mpr ⟨hcp, hp⟩, fun z hz hzt => ?_⟩
  rcases List.mem_cons.mp hz with rfl | hz
  · exact hct hzt
  · exact hdis z hzt z hz rfl

/-- The subtree is replaced by another. -/
theorem Holds.replace (h : Holds s c ft (Lib.Path.fill ps t))
    (hnd : (c :: (u.inorder ++ Lib.Path.nodes ps)).Nodup) (hf : s'.firstRight = s.firstRight)
    (hs : ∀ z ∈ c :: Lib.Path.nodes ps, s'.parent z = s.parent z ∧ s'.color z = s.color z ∧
      ∀ e, ¬ (z = up c ps ∧ e = upDir ps) → s'.child z e = s.child z e)
    (hroot : s'.child (up c ps) (upDir ps) = u.root?) (hu : Hangs s' (up c ps) u) :
    Holds s' c ft (Lib.Path.fill ps u) := by
  obtain ⟨-, hp, -⟩ := h.disjoint
  have hsur : Surrounds s' c ps := by
    refine h.surrounds.congr hp (fun z hz => ?_) fun z hz => (hs z hz).2.2
    have := hs z (List.mem_cons_of_mem _ hz)
    exact ⟨this.1, this.2.1⟩
  obtain ⟨hroot', hhangs⟩ := hangs_fill.mpr ⟨hsur, hroot, hu⟩
  have hc := hs c List.mem_cons_self
  refine ⟨nodup_fill_iff.mpr hnd, hc.1.trans h.top, hroot', hhangs, fun d => ?_⟩
  rw [← h.first d]
  cases d with
  | right => exact hf
  | left =>
    refine hc.2.2 .right fun hh => ?_
    cases ps with
    | nil => cases hh.2
    | cons f ps => exact (List.nodup_cons.mp hp).1 (hh.1 ▸ List.mem_cons_self)

/-- The subtree is replaced by another of the same nodes, and nothing else is changed. -/
theorem Holds.refocus (h : Holds s c ft (Lib.Path.fill ps t)) (hnd : u.inorder.Nodup)
    (hsub : ∀ z ∈ u.inorder, z ∈ t.inorder) (hf : s'.firstRight = s.firstRight)
    (hs : ∀ z ∉ t.inorder, s'.parent z = s.parent z ∧ s'.color z = s.color z ∧
      ∀ e, ¬ (z = up c ps ∧ e = upDir ps) → s'.child z e = s.child z e)
    (hroot : s'.child (up c ps) (upDir ps) = u.root?) (hu : Hangs s' (up c ps) u) :
    Holds s' c ft (Lib.Path.fill ps u) := by
  obtain ⟨-, hp, hdis⟩ := h.disjoint
  have hcp := List.nodup_cons.mp hp
  refine h.replace ?_ hf (fun z hz => hs z (hdis z hz)) hroot hu
  rw [List.nodup_cons, List.nodup_append, List.mem_append, not_or]
  refine ⟨⟨fun hcu => ?_, hcp.1⟩, hnd, hcp.2, fun z hz y hy hzy => ?_⟩
  · exact hdis c List.mem_cons_self (hsub c hcu)
  · exact hdis y (List.mem_cons_of_mem _ hy) (hsub y (hzy ▸ hz))

end

/-- The control moves one of its first nodes. -/
theorem Holds.setFirst (h : Holds s c ft t) (d : Direction) (r : Option Addr) :
    Holds (setFirst s c d r) c (Function.update ft d r) t := by
  have hct := (List.nodup_cons.mp h.nodup).1
  cases d with
  | left =>
    refine ⟨h.nodup, h.top, ?_, h.hangs.congr fun z hz => ?_, fun e => ?_⟩
    · simp [RBTree.setFirst, h.root]
    · have hne : z ≠ c := fun e => hct (e ▸ hz)
      exact ⟨rfl, rfl, fun e => by simp [RBTree.setFirst, hne]⟩
    · cases e with
      | left => simp [RBTree.setFirst, RBTree.first]
      | right => exact h.first .right
  | right =>
    refine ⟨h.nodup, h.top, h.root, h.hangs.congr fun z hz => ⟨rfl, rfl, fun _ => rfl⟩,
      fun e => ?_⟩
    cases e with
    | left => exact h.first .left
    | right => simp [RBTree.setFirst, RBTree.first]

/-! ## Pointers around a subtree -/

/-- A node is found on its side of the node above. -/
theorem Holds.direction (h : Holds s c ft (Lib.Path.fill ps t)) (hx : t.root? = some x) :
    direction s x (up c ps) = upDir ps := by
  have hole := h.hole.trans hx
  unfold RBTree.direction
  cases ps with
  | nil => exact if_pos hole
  | cons f ps =>
    obtain ⟨d, col, y, sib⟩ := f
    cases d with
    | left => exact if_pos hole
    | right =>
      refine if_neg fun hl => ?_
      have hs : s.child y .left = sib.root? := h.surrounds.2.2.2.2.1
      have hsib := Lib.Tree.mem_inorder_of_root? (hs.symm.trans hl)
      refine h.disjoint.2.2 x ?_ (Lib.Tree.mem_inorder_of_root? hx)
      exact List.mem_cons_of_mem _ (List.mem_cons_of_mem _ (List.mem_append_left _ hsib))

theorem Holds.sibling {f : Step Addr} (h : Holds s c ft (Lib.Path.fill (f :: ps) t))
    (hx : t.root? = some x) : sibling s x f.node = f.sibling.root? := by
  have hdir : RBTree.direction s x f.node = f.dir := h.direction hx
  have hs := h.surrounds.2.2.2.2.1
  unfold RBTree.sibling
  unfold RBTree.direction at hdir
  split at hdir
  next hl =>
    rw [← hdir] at hs
    exact (if_pos hl).trans hs
  next hl =>
    rw [← hdir] at hs
    exact (if_neg hl).trans hs

/-! ## Painting and rotating -/

/-- The root of a subtree is painted. -/
theorem Holds.setColor (h : Holds s c ft (Lib.Path.fill ps (.branch d col x near far)))
    (col' : Color) :
    Holds (s.setColor x col') c ft (Lib.Path.fill ps (.branch d col' x near far)) := by
  obtain ⟨hnd, -, -⟩ := h.disjoint
  obtain ⟨h₁, h₂, h₃, h₄, h₅, h₆⟩ := hangs_branch.mp h.subtree
  have hx := (Lib.Tree.nodup_inorder_branch.mp hnd).1
  have hsame : ∀ z, z ≠ x → SameNode s (s.setColor x col') z :=
    fun z hz => ⟨rfl, if_neg hz, fun _ => rfl⟩
  refine h.refocus ?_ ?_ rfl ?_ ?_ (hangs_branch.mpr ⟨h₁, if_pos rfl, h₃, h₄, ?_, ?_⟩)
  · exact Lib.Tree.nodup_inorder_branch.mpr (Lib.Tree.nodup_inorder_branch.mp hnd)
  · exact fun z hz => Lib.Tree.mem_inorder_branch.mpr (Lib.Tree.mem_inorder_branch.mp hz)
  · intro z hz
    have hne : z ≠ x := fun e => hz (Lib.Tree.mem_inorder_branch.mpr (.inl e))
    exact ⟨rfl, if_neg hne, fun _ _ => rfl⟩
  · exact h.hole.trans (by rw [Lib.Tree.root?_branch, Lib.Tree.root?_branch])
  · exact h₅.congr fun z hz => hsame z fun e => hx.1 (e ▸ hz)
  · exact h₆.congr fun z hz => hsame z fun e => hx.2 (e ▸ hz)

/-- The node below takes the place of the node above. -/
theorem Holds.rotate {v : Lib.Tree Addr}
    (h : Holds s c ft (Lib.Path.fill ps (.branch d col x a (.branch d col' y b v)))) :
    ∃ s', rotate s x d = some s' ∧
      Holds s' c ft (Lib.Path.fill ps (.branch d col' y (.branch d col x a b) v)) := by
  obtain ⟨hnd, -, hdis⟩ := h.disjoint
  obtain ⟨h₁, h₂, h₃, h₄, ha, hy⟩ := hangs_branch.mp h.subtree
  obtain ⟨hy₁, hy₂, hy₃, hy₄, hb, hv⟩ := hangs_branch.mp hy
  rw [Lib.Tree.root?_branch] at h₄
  have hup := hdis _ (up_mem c ps)
  have hdir := h.direction Lib.Tree.root?_branch
  have hole := h.hole
  have hroot : ∀ z, b.root? = some z → z ∈ b.inorder := fun z => Lib.Tree.mem_inorder_of_root?
  simp only [Lib.Tree.nodup_inorder_branch, Lib.Tree.mem_inorder_branch, not_or] at hnd hup hdis
  obtain ⟨⟨hxa, hxy, hxb, hxv⟩, hna, ⟨⟨hyb, hyv⟩, hnb, hnv, hbv⟩, haR⟩ := hnd
  obtain ⟨hPx, hPa, hPy, hPb, hPv⟩ := hup
  have hbx : ¬ b.root? = some x := fun h => hxb (hroot x h)
  have hby : ¬ b.root? = some y := fun h => hyb (hroot y h)
  let s₁ := (adopt (s.setChild x d.opposite b.root?) b.root? (some x)).setChild y d (some x)
  let s₂ := ((s₁.setChild (up c ps) (upDir ps) (some y)).setParent y (some (up c ps))).setParent x
    (some y)
  have hrot : RBTree.rotate s x d = some s₂ := by
    have hpar : s₁.parent x = some (up c ps) := by simp [s₁, hbx, h₁]
    have hdir' : RBTree.direction s₁ x (up c ps) = upDir ps := by
      rw [← hdir]
      simp [s₁, RBTree.direction, hPx, hPy]
    unfold RBTree.rotate
    rw [h₄]
    dsimp only
    rw [hy₃]
    change s₁.parent x >>= _ = _
    rw [hpar, Option.bind_eq_bind, Option.bind_some, hdir']
  have hcol : s₂.color = s.color := by simp [s₂, s₁]
  -- Outside `x`, `y`, the root of `b` and the pointer to the subtree nothing is changed.
  have hsame : ∀ z, z ≠ x → z ≠ y → z ≠ up c ps → b.root? ≠ some z → SameNode s s₂ z := by
    intro z hx hy hP hz
    refine ⟨?_, congrFun hcol z, fun e => ?_⟩
    · simp [s₂, s₁, hx, hy, hz]
    · simp [s₂, s₁, hx, hy, hP]
  refine ⟨s₂, hrot, h.refocus ?_ ?_ ?_ (fun z hz => ?_) ?_ ?_⟩
  · simp only [Lib.Tree.nodup_inorder_branch, Lib.Tree.mem_inorder_branch, not_or]
    grind
  · intro z
    simp only [Lib.Tree.mem_inorder_branch]
    grind
  · simp [s₂, s₁]
  · simp only [Lib.Tree.mem_inorder_branch, not_or] at hz
    refine ⟨?_, congrFun hcol z, fun e he => ?_⟩
    · have : b.root? ≠ some z := fun h => hz.2.2.2.1 (hroot z h)
      simp [s₂, s₁, hz, this]
    · simp [s₂, s₁, hz, he]
  · simp [s₂]
  · rw [hangs_branch, hangs_branch]
    have hPx' := Ne.symm hPx
    have hPy' := Ne.symm hPy
    have hyx := Ne.symm hxy
    refine ⟨?_, (congrFun hcol y).trans hy₂, ?_, ?_, ⟨?_, (congrFun hcol x).trans h₂, ?_, ?_,
        ha.congr fun z hz => ?_, hb.reparent hnb ?_ ?_⟩,
      hv.congr fun z hz => ?_⟩
    · simp [s₂, hyx]
    · simp [s₂, s₁, hPy']
    · simp [s₂, s₁, hPy', hyx, hy₄]
    · simp [s₂]
    · simp [s₂, s₁, hPx', hxy, h₃]
    · simp [s₂, s₁, hPx', hxy]
    · obtain ⟨hy', hb', hv'⟩ := haR z hz
      exact hsame z (fun e => hxa (e ▸ hz)) hy' (fun e => hPa (e ▸ hz)) fun e => hb' (hroot z e)
    · intro z hz
      have hzx : z ≠ x := fun e => hbx (e ▸ hz)
      have hzy : z ≠ y := fun e => hby (e ▸ hz)
      simp [s₂, s₁, hzx, hzy, hz]
    · intro z hz
      have hzx : z ≠ x := fun e => hxb (e ▸ hz)
      have hzy : z ≠ y := fun e => hyb (e ▸ hz)
      have hzP : z ≠ up c ps := fun e => hPb (e ▸ hz)
      refine ⟨fun hr => ?_, congrFun hcol z, fun e => ?_⟩
      · simp [s₂, s₁, hzx, hzy, hr]
      · simp [s₂, s₁, hzx, hzy, hzP]
    · exact hsame z (fun e => hxv (e ▸ hz)) (fun e => hyv (e ▸ hz)) (fun e => hPv (e ▸ hz))
        fun e => hbv z (hroot z e) hz

end Rtems.RBTree
