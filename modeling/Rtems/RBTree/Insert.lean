import Rtems.RBTree.Links

/-!
# Insertion

A new node hangs red below a leaf, and `_RBTree_Validate_insert` repairs the
shape from there upward.
-/

namespace Rtems.RBTree

open Lib

variable {Addr : Type} [DecidableEq Addr] {s s' : State Addr} {c p q x y : Addr} {d e : Direction}
  {col col' : Color} {ps : Lib.Path Addr} {t u near far a b : Lib.Tree Addr} {ft : Direction → Option Addr}
  {n n₀ fuel : Nat}

/-! ## Reading the colors -/

section

omit [DecidableEq Addr]

theorem Hangs.isRed (h : Hangs s p t) : isRed s t.root? = (t.rootColor == .red) := by
  cases t with
  | nil => rfl
  | node col l x r => rw [Lib.Tree.root?, RBTree.isRed, h.2.1, Lib.Tree.rootColor]

theorem Hangs.parent_root (h : Hangs s p t) (hx : t.root? = some x) : s.parent x = some p := by
  cases t with
  | nil => cases hx
  | node col l y r =>
    cases hx
    exact h.1

theorem Hangs.color_root (h : Hangs s p t) (hx : t.root? = some x) : s.color x = t.rootColor := by
  cases t with
  | nil => cases hx
  | node col l y r =>
    cases hx
    exact h.2.1

theorem Holds.step {f : Step Addr} (h : Holds s c ft (Lib.Path.fill (f :: ps) t)) :
    s.parent f.node = some (up c ps) ∧ s.color f.node = f.color ∧
      s.child f.node f.dir.opposite = f.sibling.root? ∧ Hangs s f.node f.sibling :=
  h.surrounds.2.2

/-- The other subtree of the node above. -/
theorem fill_sibling {f : Step Addr} : Lib.Path.fill (f :: ps) t =
    Lib.Path.fill (⟨f.dir.opposite, f.color, f.node, t⟩ :: ps) f.sibling := by
  rw [Lib.Path.fill_cons, Lib.Path.fill_cons, Step.fill, Step.fill, Lib.Tree.branch_opposite]

/-- The parent of the node above is `NULL` only for the control. -/
theorem Holds.parent_up (h : Holds s c ft (Lib.Path.fill ps t)) :
    s.parent (up c ps) = none ↔ ps = [] := by
  cases ps with
  | nil => exact iff_of_true h.top rfl
  | cons f ps =>
    refine iff_of_false (fun hn => ?_) nofun
    have : s.parent f.node = none := hn
    rw [h.step.1] at this
    cases this

end

/-! ## The repair after an insertion -/

/-- The result of the repair: a tree in order, with the same nodes. -/
def Repaired (s : State Addr) (c : Addr) (ft : Direction → Option Addr) (l : List Addr) : Prop :=
  ∃ t n, Holds s c ft t ∧ t.Balanced .black n ∧ t.inorder = l

/-- The uncle is red: it takes the color of the grandparent. -/
theorem Holds.recolor {sib : Lib.Tree Addr} (h : Holds s c ft
      (Lib.Path.fill (⟨d, .red, p, sib⟩ :: ⟨e, .black, q, .branch e .red y a b⟩ :: ps) t)) :
    Holds (((s.setColor p .black).setColor y .black).setColor q .red) c ft
      (Lib.Path.fill ps (.branch e .red q (.branch d .black p t sib) (.branch e .black y a b))) := by
  have h₁ : Holds _ c ft (Lib.Path.fill (⟨e, .black, q, .branch e .red y a b⟩ :: ps)
      (.branch d .black p t sib)) := h.setColor .black
  rw [fill_sibling] at h₁
  have h₂ := h₁.setColor .black
  rw [fill_sibling] at h₂
  dsimp only at h₂
  rw [Direction.opposite_opposite] at h₂
  have h₃ : Holds _ c ft (Lib.Path.fill ps (.branch e .black q (.branch d .black p t sib)
    (.branch e .black y a b))) := h₂
  exact h₃.setColor .red

/-- The uncle is black, and the node on the outer side: the parent is rotated above the
grandparent. -/
theorem Holds.lift {sib uncle : Lib.Tree Addr} (h : Holds s c ft
      (Lib.Path.fill (⟨d, .red, p, sib⟩ :: ⟨d, .black, q, uncle⟩ :: ps) t)) :
    ∃ s', RBTree.rotate ((s.setColor p .black).setColor q .red) q d.opposite = some s' ∧
      Holds s' c ft (Lib.Path.fill ps (.branch d .black p t (.branch d .red q sib uncle))) := by
  have h₁ : Holds _ c ft (Lib.Path.fill ps (.branch d .black q (.branch d .black p t sib) uncle)) :=
    h.setColor .black
  have h₂ : Holds ((s.setColor p .black).setColor q .red) c ft (Lib.Path.fill ps
      (.branch d.opposite .red q uncle (.branch d.opposite .black p sib t))) := by
    rw [Lib.Tree.branch_opposite, Lib.Tree.branch_opposite]
    exact h₁.setColor .red
  obtain ⟨s', hs', h₃⟩ := h₂.rotate
  rw [Lib.Tree.branch_opposite, Lib.Tree.branch_opposite] at h₃
  exact ⟨s', hs', h₃⟩

/-- What the loop of `_RBTree_Validate_insert` reads below a red parent. -/
theorem Holds.validateInsertLoop_red {g : Addr} {sib uncle : Lib.Tree Addr} (h : Holds s c ft
      (Lib.Path.fill (⟨d, .red, p, sib⟩ :: ⟨e, .black, g, uncle⟩ :: ps) t)) (hx : t.root? = some x) :
    s.color p = .red ∧ s.parent p = some g ∧ s.parent g = some (up c ps) ∧
      RBTree.sibling s p g = uncle.root? ∧ isRed s uncle.root? = (uncle.rootColor == .red) ∧
      RBTree.direction s x p = d ∧ RBTree.direction s p g = e := by
  have hfocus : Holds s c ft (Lib.Path.fill (⟨e, .black, g, uncle⟩ :: ps) (.branch d .red p t sib)) := h
  obtain ⟨hgpar, -, -, huncle⟩ := hfocus.step
  exact ⟨h.step.2.1, h.step.1, hgpar, hfocus.sibling Lib.Tree.root?_branch, huncle.isRed,
    h.direction hx, hfocus.direction Lib.Tree.root?_branch⟩

/-- The uncle is black: the loop ends with one or two rotations. -/
theorem Holds.validateInsertLoop_lift {g : Addr} {sib uncle : Lib.Tree Addr}
    (h : Holds s c ft (Lib.Path.fill (⟨d, .red, p, sib⟩ :: ⟨e, .black, g, uncle⟩ :: ps) t))
    (hx : t.root? = some x) (ht : t.Balanced .red n) (hs : sib.Balanced .black n)
    (hu : uncle.Balanced .black n) (hq : Lib.Path.Balanced .black n₀ ps .black (n + 1)) :
    ∃ s' x' g', RBTree.validateInsertLoop (fuel + 1) s x p (some g) = some (s', x', some g') ∧
      Repaired s' c ft
        (Lib.Path.fill (⟨d, .red, p, sib⟩ :: ⟨e, .black, g, uncle⟩ :: ps) t).inorder := by
  obtain ⟨hcol, -, -, hsib, hred, hdir, hpdir⟩ := h.validateInsertLoop_red hx
  rw [hu.rootColor] at hred
  simp only [RBTree.validateInsertLoop, hcol, if_pos, Option.bind_eq_bind, Option.bind_some, hsib,
    hred, hdir, hpdir]
  rcases e.eq_or_opposite d with rfl | rfl
  · obtain ⟨s', hs', h'⟩ := h.lift
    have hpar : s'.parent p = some (up c ps) := (hangs_branch.mp h'.subtree).1
    refine ⟨s', x, up c ps, ?_, _, _, h', hq.fill (.branch_black ht (.branch_red hs hu)), ?_⟩
    · rw [if_neg (by decide), if_neg (by simp), hs', Option.bind_some, hpar]
    · refine Lib.Path.inorder_fill_congr ps ?_
      cases d <;> simp [Step.fill, Lib.Tree.branch, Lib.Tree.inorder, Lib.Tree.walk]
  · -- The node is on the inner side, and is rotated above its parent first.
    obtain ⟨a, b, ht'⟩ := Lib.Tree.exists_branch e hx
    rw [ht.rootColor] at ht'
    subst ht'
    obtain ⟨-, ha, hb⟩ := ht.of_branch_red
    have h₁ : Holds s c ft (Lib.Path.fill (⟨e, .black, g, uncle⟩ :: ps)
        (.branch e .red p sib (.branch e .red x a b))) := by
      rw [← Lib.Tree.branch_opposite]
      exact h
    obtain ⟨s₁, hs₁, h₂⟩ := h₁.rotate
    have h₃ : Holds s₁ c ft (Lib.Path.fill (⟨e, .red, x, b⟩ :: ⟨e, .black, g, uncle⟩ :: ps)
      (.branch e .red p sib a)) := h₂
    obtain ⟨s', hs', h'⟩ := h₃.lift
    have hpar : s'.parent x = some (up c ps) := (hangs_branch.mp h'.subtree).1
    refine ⟨s', p, up c ps, ?_, _, _, h',
      hq.fill (.branch_black (.branch_red hs ha) (.branch_red hb hu)), ?_⟩
    · rw [if_neg (by decide), if_pos e.opposite_ne, hs₁, Option.bind_some, hs',
        Option.bind_some, hpar]
    · refine Lib.Path.inorder_fill_congr ps ?_
      cases e <;> simp [Step.fill, Lib.Tree.branch, Lib.Tree.inorder, Lib.Tree.walk, Direction.opposite]

/-- The uncle is red: the loop goes on at the grandparent. -/
theorem validateInsertLoop_recolor {g : Addr} (hcol : s.color p = .red)
    (hsib : sibling s p g = some y) (hy : isRed s (some y) = true) (hg : s.parent g = some q) :
    validateInsertLoop (fuel + 1) s x p (some g) =
      if s.parent q = none then
        some (((s.setColor p .black).setColor y .black).setColor g .red, g, none)
      else validateInsertLoop fuel (((s.setColor p .black).setColor y .black).setColor g .red) g q
        (s.parent q) := by
  cases hq : s.parent q with
  | none => simp [validateInsertLoop, hcol, hsib, hy, hg, hq]
  | some r => simp [validateInsertLoop, hcol, hsib, hy, hg, hq]

/-- The loop of `_RBTree_Validate_insert`. -/
theorem Holds.validateInsertLoop (h : Holds s c ft (Lib.Path.fill ps t)) (hx : t.root? = some x)
    (ht : t.Balanced .red n) (hp : Lib.Path.Balanced .black n₀ ps col n) (hps : ps ≠ [])
    (hfuel : ps.length ≤ fuel) :
    ∃ s' x' g', validateInsertLoop fuel s x (up c ps) (s.parent (up c ps)) = some (s', x', g') ∧
      Repaired (if g' = none then s'.setColor x' .black else s') c ft
        (Lib.Path.fill ps t).inorder := by
  induction fuel generalizing s ps t x n col with
  | zero => exact absurd (List.length_eq_zero_iff.mp (Nat.le_zero.mp hfuel)) hps
  | succ fuel ih =>
    cases ps with
    | nil => exact absurd rfl hps
    | cons f ps =>
      obtain ⟨hpar, hcol, -, -⟩ := h.step
      obtain ⟨d, fc, p, sib⟩ := f
      cases fc with
      | black =>
        refine ⟨s, x, s.parent p, ?_, ?_⟩
        · change (if s.color p = .red then _ else _) = _
          rw [if_neg (by rw [hcol]; exact (show Color.black ≠ .red by decide))]
          rfl
        · rw [hpar, if_neg (Option.some_ne_none _)]
          cases hp with
          | black hs hp' => exact ⟨_, n₀, h, Lib.Path.Balanced.fill (.black hs hp') ht, rfl⟩
      | red =>
        obtain ⟨e, g, uncle, qs, cu, rfl, hs, hu, hq⟩ := hp.above_red rfl
        change ∃ s' x' g', RBTree.validateInsertLoop (fuel + 1) s x p (s.parent p) = _ ∧ _
        rw [hpar]
        cases cu with
        | black =>
          obtain ⟨s', x', g', hs', hr⟩ := h.validateInsertLoop_lift hx ht hs hu hq
          exact ⟨s', x', some g', hs', hr⟩
        | red =>
          -- The grandparent turns red, and the repair goes on there.
          obtain ⟨hcol, -, hgpar, hsib, hred, -, -⟩ := h.validateInsertLoop_red hx
          obtain ⟨y, a, b, rfl⟩ := Lib.Tree.exists_branch_of_red e hu.rootColor
          obtain ⟨-, ha, hb⟩ := hu.of_branch_red
          have hnew := h.recolor
          have hbal : (Lib.Tree.branch e .red g (.branch d .black p t sib)
              (.branch e .black y a b)).Balanced .red (n + 1) :=
            .branch_red (.branch_black ht hs) (.branch_black ha hb)
          have hin : (Lib.Path.fill qs (Lib.Tree.branch e .red g (.branch d .black p t sib)
              (.branch e .black y a b))).inorder = (Lib.Path.fill (⟨d, .red, p, sib⟩ ::
              ⟨e, .black, g, .branch e .red y a b⟩ :: qs) t).inorder := by
            refine Lib.Path.inorder_fill_congr qs ?_
            cases d <;> cases e <;> simp [Step.fill, Lib.Tree.branch, Lib.Tree.inorder, Lib.Tree.walk]
          rw [Lib.Tree.root?_branch] at hsib hred
          rw [Lib.Tree.rootColor_branch] at hred
          have hloop : RBTree.validateInsertLoop (fuel + 1) s x p (some g) = _ :=
            validateInsertLoop_recolor hcol hsib hred hgpar
          rw [up, hloop]
          cases qs with
          | nil =>
            refine ⟨_, g, none, if_pos h.top, ?_⟩
            rw [if_pos rfl, ← hin]
            refine ⟨_, n + 1 + 1, hnew.setColor .black,
              .branch_black (.branch_black ht hs) (.branch_black ha hb), ?_⟩
            cases e <;> rfl
          | cons f' qs =>
            have hne : ¬ s.parent (up c (f' :: qs)) = none :=
              fun hn => by cases hnew.parent_up.mp hn
            rw [if_neg hne, ← hin]
            exact ih hnew Lib.Tree.root?_branch hbal hq (List.cons_ne_nil _ _)
              (Nat.le_of_succ_le (Nat.le_of_succ_le_succ hfuel))

/-- `_RBTree_Validate_insert` of a new red leaf. -/
theorem Holds.validateInsert (h : Holds s c ft (Lib.Path.fill ps t)) (hx : t.root? = some x)
    (ht : t.Balanced .red n) (hp : Lib.Path.Balanced .black n₀ ps col n) (hps : ps ≠ [])
    (hfuel : ps.length ≤ fuel) :
    ∃ s', validateInsert fuel s x = some s' ∧ Repaired s' c ft (Lib.Path.fill ps t).inorder := by
  have hpar := h.subtree.parent_root hx
  obtain ⟨s', x', g', hloop, hr⟩ := h.validateInsertLoop hx ht hp hps hfuel
  refine ⟨_, ?_, hr⟩
  simp only [RBTree.validateInsert, hpar, hloop, Option.bind_eq_bind, Option.bind_some]
  split <;> rfl

/-! ## The way down -/

/-- The comparison is a total preorder. -/
structure TotalPreorder (compare : Compare Addr) : Prop where
  flip : ∀ a b, compare a b ≤ 0 ↔ 0 ≤ compare b a
  trans : ∀ a b c, compare a b ≤ 0 → compare b c ≤ 0 → compare a c ≤ 0

/-- The nodes are in the order of the comparison. -/
def Sorted (compare : Compare Addr) (l : List Addr) : Prop :=
  l.Pairwise fun a b => compare a b ≤ 0

variable {compare : Compare Addr} {theNode : Addr} {isUnique : Bool}

section

omit [DecidableEq Addr]

/-- The nodes that are greater than another one come last. -/
theorem TotalPreorder.lt_of_lt (hc : TotalPreorder compare) {a b : Addr} (hab : compare a b ≤ 0)
    (h : compare theNode a < 0) : compare theNode b < 0 := by
  by_contra hn
  have hb : compare b theNode ≤ 0 := (hc.flip _ _).mpr (Int.not_lt.mp hn)
  have ha := (hc.flip _ _).mp (hc.trans _ _ _ hab hb)
  omega

/-- The new node comes before this one. -/
def before (compare : Compare Addr) (theNode : Addr) (z : Addr) : Bool := compare theNode z < 0

theorem Sorted.before {l : List Addr} (hc : TotalPreorder compare) (h : Sorted compare l) :
    l.Pairwise fun a b => before compare theNode a → before compare theNode b :=
  h.imp fun hab ha => decide_eq_true (hc.lt_of_lt hab (of_decide_eq_true ha))

/-- The equal node on the way down of a unique insert. -/
def findEqual (compare : Compare Addr) (theNode : Addr) (isUnique : Bool) :
    Lib.Tree Addr → Option Addr
  | .nil => none
  | .node _ l x r =>
    if isUnique ∧ compare theNode x = 0 then some x
    else if before compare theNode x then findEqual compare theNode isUnique l
    else findEqual compare theNode isUnique r

theorem findEqual_some (h : findEqual compare theNode isUnique t = some x) :
    isUnique = true ∧ x ∈ t.inorder ∧ compare theNode x = 0 := by
  induction t with
  | nil => cases h
  | node col l y r ihl ihr =>
    rw [findEqual] at h
    split at h
    next heq =>
      cases h
      exact ⟨heq.1, List.mem_append_right _ List.mem_cons_self, heq.2⟩
    next =>
      split at h
      · obtain ⟨hu, hm, h0⟩ := ihl h
        exact ⟨hu, List.mem_append_left _ hm, h0⟩
      · obtain ⟨hu, hm, h0⟩ := ihr h
        exact ⟨hu, List.mem_append_right _ (List.mem_cons_of_mem _ hm), h0⟩

/-- If there is an equal node, there is one on the way down. -/
theorem findEqual_none (hc : TotalPreorder compare) (hs : Sorted compare t.inorder)
    (h : findEqual compare theNode true t = none) : ∀ z ∈ t.inorder, compare theNode z ≠ 0 := by
  induction t with
  | nil => exact nofun
  | node col l y r ihl ihr =>
    obtain ⟨hl, hyr, hly⟩ := List.pairwise_append.mp hs
    obtain ⟨hy, hr⟩ := List.pairwise_cons.mp hyr
    rw [findEqual] at h
    split at h
    next => cases h
    next hne =>
      intro z hz hz0
      split at h
      next hlt =>
        rcases List.mem_append.mp hz with hz | hz
        · exact ihl hl h z hz hz0
        · rcases List.mem_cons.mp hz with rfl | hz
          · exact hne ⟨rfl, hz0⟩
          · have := hc.lt_of_lt (hy z hz) (of_decide_eq_true hlt)
            omega
      next hlt =>
        rcases List.mem_append.mp hz with hz | hz
        · have hzy := hc.trans _ _ _ (Int.le_of_eq hz0) (hly z hz y List.mem_cons_self)
          have hlt' : ¬ compare theNode y < 0 := fun h => hlt (decide_eq_true h)
          exact hne ⟨rfl, by omega⟩
        · rcases List.mem_cons.mp hz with rfl | hz
          · exact hne ⟨rfl, hz0⟩
          · exact ihr hr h z hz hz0

end

/-- What `insertLoop` does at the end of the way down. -/
def arrive (s : State Addr) (c theNode : Addr) (compare : Compare Addr) (isUnique : Bool)
    (t : Lib.Tree Addr) (ps : Lib.Path Addr) : Option (State Addr × Option Addr) :=
  match findEqual compare theNode isUnique t with
  | some found => some (s, some found)
  | none => do
      let qs := Lib.Path.descend (before compare theNode) t ps
      some (← attach s c theNode compare (up c qs) (upDir qs), none)

/-- The loop of `_RBTree_Insert`: it stops at an equal node, or at the leaf. -/
theorem Holds.insertLoop (h : Holds s c ft (Lib.Path.fill ps t)) (hx : t.root? = some x)
    (hfuel : t.size ≤ fuel) :
    insertLoop s c theNode compare isUnique fuel x =
      arrive s c theNode compare isUnique t ps := by
  induction t generalizing ps fuel x with
  | nil => cases hx
  | node col l y r ihl ihr =>
    cases hx
    obtain ⟨-, -, hleft, hright, -, -⟩ := h.subtree
    cases fuel with
    | zero => cases hfuel
    | succ fuel =>
      have hsize : l.size + r.size ≤ fuel := Nat.le_of_succ_le_succ hfuel
      rw [RBTree.insertLoop, arrive, findEqual, Lib.Path.descend]
      split
      next => rfl
      next hne =>
        have hdir : (if compare theNode y < 0 then Direction.left else .right) =
            if before compare theNode y = true then .left else .right :=
          if_congr decide_eq_true_iff.symm rfl rfl
        rw [hdir]
        split
        next hlt =>
          dsimp only
          rw [hleft]
          cases l with
          | nil => rfl
          | node _ _ z _ => exact ihl h rfl (by omega)
        next hlt =>
          dsimp only
          rw [hright]
          cases r with
          | nil => rfl
          | node _ _ z _ => exact ihr h rfl (by omega)

/-! ## The new leaf -/

/-- The first nodes of a list. -/
def ends (l : List Addr) : Direction → Option Addr
  | .left => l.head?
  | .right => l.getLast?

/-- The node is linked below the leaf. -/
theorem Holds.link (h : Holds s c ft (Lib.Path.fill ps .nil)) (hx : x ∉ c :: Lib.Path.nodes ps) :
    Holds (((((s.setChild x .left none).setChild x .right none).setColor x .red).setChild
      (up c ps) (upDir ps) (some x)).setParent x (some (up c ps))) c ft
        (Lib.Path.fill ps (.node .red .nil x .nil)) := by
  have hne : ∀ z ∈ c :: Lib.Path.nodes ps, z ≠ x := fun z hz e => hx (e ▸ hz)
  have hup : x ≠ up c ps := fun e => hx (e ▸ up_mem c ps)
  refine h.replace ?_ rfl (fun z hz => ?_) ?_ ?_
  · have hcp := h.disjoint.2.1
    rw [List.nodup_cons] at hcp ⊢
    rw [List.mem_cons, not_or] at hx
    exact ⟨List.not_mem_cons_of_ne_of_not_mem (Ne.symm hx.1) hcp.1, List.nodup_cons.mpr ⟨hx.2, hcp.2⟩⟩
  · have := hne z hz
    refine ⟨by simp [this], by simp [this], fun e he => by simp [this, he]⟩
  · simp [Lib.Tree.root?]
  · refine ⟨by simp, by simp, ?_, ?_, trivial, trivial⟩ <;> simp [hup, Lib.Tree.root?]

section

omit [DecidableEq Addr]

/-- The comparison with the first node of its side tells whether the new node is the first. -/
theorem ends_insert {as bs : List Addr} (ha : ∀ z ∈ as, ¬ compare x z < 0)
    (hb : ∀ z ∈ bs, compare x z < 0) (d : Direction) (hl : d = .left → bs ≠ [])
    (hr : d = .right → as ≠ []) :
    ∃ m, ends (as ++ bs) d = some m ∧ ends (as ++ x :: bs) =
      if (d = .left ∧ compare x m < 0) ∨ (d = .right ∧ ¬ compare x m < 0) then
        Function.update (ends (as ++ bs)) d (some x)
      else ends (as ++ bs) := by
  cases d with
  | left =>
    obtain ⟨b, bs, rfl⟩ := List.exists_cons_of_ne_nil (hl rfl)
    cases as with
    | nil =>
      refine ⟨b, rfl, ?_⟩
      rw [if_pos (.inl ⟨rfl, hb b List.mem_cons_self⟩)]
      funext e
      cases e with
      | left => rfl
      | right => exact List.getLast?_cons_cons
    | cons a as =>
      refine ⟨a, rfl, ?_⟩
      rw [if_neg (by simp [ha a List.mem_cons_self])]
      funext e
      cases e with
      | left => rfl
      | right => simp [ends, List.getLast?_cons]
  | right =>
    rcases List.eq_nil_or_concat bs with rfl | ⟨bs, b, rfl⟩
    · obtain ⟨as, a, rfl⟩ := (List.eq_nil_or_concat as).resolve_left (hr rfl)
      refine ⟨a, by simp [ends], ?_⟩
      rw [if_pos (.inr ⟨rfl, ha a (by simp)⟩)]
      funext e
      cases e with
      | left => simp [ends]
      | right => simp [ends]
    · refine ⟨b, by simp [ends], ?_⟩
      rw [if_neg (by simp [hb b])]
      obtain ⟨a, as, rfl⟩ := List.exists_cons_of_ne_nil (hr rfl)
      funext e
      cases e with
      | left => rfl
      | right => simp [ends, List.getLast?_cons]

/-- On the way down the leaf is on the left of a greater node or on the right of another. -/
theorem beyond_ne_nil (hps : ps ≠ []) :
    (upDir ps = .left → Lib.Path.beyond .right ps ≠ []) ∧
      (upDir ps = .right → (Lib.Path.beyond .left ps).reverse ≠ []) := by
  cases ps with
  | nil => exact absurd rfl hps
  | cons f ps =>
    obtain ⟨d, col, y, sib⟩ := f
    cases d with
    | left => exact ⟨fun _ => nofun, nofun⟩
    | right => exact ⟨nofun, fun _ => by simp [Lib.Path.beyond]⟩

end

/-- The new leaf is linked, and the first nodes are up to date. -/
theorem Holds.attach {as bs : List Addr} (h : Holds s c (ends (as ++ bs)) (Lib.Path.fill ps .nil))
    (hps : ps ≠ []) (has : (Lib.Path.beyond .left ps).reverse = as) (hbs : Lib.Path.beyond .right ps = bs)
    (ha : ∀ z ∈ as, ¬ compare x z < 0) (hb : ∀ z ∈ bs, compare x z < 0)
    (hx : x ∉ c :: Lib.Path.nodes ps) :
    ∃ s', attach s c x compare (up c ps) (upDir ps) = some s' ∧
      Holds s' c (ends (as ++ x :: bs)) (Lib.Path.fill ps (.node .red .nil x .nil)) := by
  have hne := beyond_ne_nil hps
  obtain ⟨m, hm, hends⟩ := ends_insert ha hb (upDir ps) (hbs ▸ hne.1) (has ▸ hne.2)
  have hlink := h.link hx
  have hfirst := (hlink.first (upDir ps)).trans hm
  rw [hends]
  simp only [RBTree.attach, hfirst, Option.bind_eq_bind, Option.bind_some]
  split
  · exact ⟨_, rfl, hlink.setFirst _ _⟩
  · exact ⟨_, rfl, hlink⟩

/-! ## Insertion -/

/-- The control at `c` holds a red-black tree of these nodes. -/
structure Represents (compare : Compare Addr) (s : State Addr) (c : Addr) (l : List Addr) :
    Prop where
  tree : Repaired s c (ends l) l
  sorted : Sorted compare l

/-- The new node comes behind those that are less or equal. -/
def insertSorted (compare : Compare Addr) (x : Addr) (l : List Addr) : List Addr :=
  l.filter (! before compare x ·) ++ x :: l.filter (before compare x)

variable {l : List Addr}

section

omit [DecidableEq Addr]

theorem Sorted.insertSorted (hc : TotalPreorder compare) (h : Sorted compare l) (x : Addr) :
    Sorted compare (insertSorted compare x l) := by
  have hle : ∀ a ∈ l.filter (! RBTree.before compare x ·), compare a x ≤ 0 := by
    intro a ha
    have := (List.mem_filter.mp ha).2
    refine (hc.flip a x).mpr (Int.not_lt.mp fun hlt => ?_)
    simp [RBTree.before, hlt] at this
  have hlt : ∀ b ∈ l.filter (RBTree.before compare x), compare x b ≤ 0 := by
    intro b hb
    exact Int.le_of_lt (of_decide_eq_true (List.mem_filter.mp hb).2)
  refine List.pairwise_append.mpr ⟨h.filter _, List.pairwise_cons.mpr ⟨hlt, h.filter _⟩, ?_⟩
  intro a ha b hb
  rcases List.mem_cons.mp hb with rfl | hb
  · exact hle a ha
  · exact hc.trans _ _ _ (hle a ha) (hlt b hb)

end

/-- The first node of a tree. -/
theorem Represents.insert_first (h : Represents compare s c []) (hx : x ≠ c) :
    ∃ s', insert fuel s c x compare isUnique = some (s', none) ∧ Represents compare s' c [x] := by
  obtain ⟨t, n, ht, -, hin⟩ := h.tree
  have hroot : root s c = none := by
    cases t with
    | nil => exact ht.root
    | node col l y r => exact absurd (List.append_eq_nil_iff.mp hin).2 nofun
  have hcx := hx.symm
  unfold RBTree.insert
  rw [hroot]
  refine ⟨_, rfl, ⟨.node .black .nil x .nil, 1, ⟨?_, ?_, ?_, ⟨?_, ?_, ?_, ?_, trivial, trivial⟩, ?_⟩,
    .black .nil .nil, rfl⟩, List.pairwise_singleton _ _⟩
  · simp [Lib.Tree.inorder, Lib.Tree.walk, hcx]
  · simp [RBTree.setFirst, hcx, ht.top]
  · simp [RBTree.setFirst, hcx, Lib.Tree.root?]
  · simp [RBTree.setFirst]
  · simp [RBTree.setFirst]
  · simp [Lib.Tree.root?]
  · simp [Lib.Tree.root?]
  · intro d
    cases d with
    | left => simp [RBTree.setFirst, RBTree.first, hcx, ends]
    | right => simp [RBTree.setFirst, RBTree.first, ends]

/-- The new leaf is linked, and the shape of the tree repaired. -/
theorem Holds.insertLeaf (ht : Holds s c (ends t.inorder) t) (hbal : t.Balanced .black n)
    (hfill : Lib.Path.fill ps .nil = t) (hps : ps ≠ [])
    (has : (Lib.Path.beyond .left ps).reverse = t.inorder.filter (! before compare x ·))
    (hbs : Lib.Path.beyond .right ps = t.inorder.filter (before compare x)) (hx : x ≠ c)
    (hxl : x ∉ t.inorder) (hfuel : ps.length ≤ fuel) :
    ∃ s₁ s', RBTree.attach s c x compare (up c ps) (upDir ps) = some s₁ ∧
      RBTree.validateInsert fuel s₁ x = some s' ∧
      Repaired s' c (ends (insertSorted compare x t.inorder)) (insertSorted compare x t.inorder) := by
  have hsplit : t.inorder = t.inorder.filter (! before compare x ·) ++
      t.inorder.filter (before compare x) := by
    have hin := Lib.Path.inorder_fill ps .nil
    rw [hfill, has, hbs, Lib.Tree.inorder_nil, List.append_nil] at hin
    exact hin
  have hnodes : x ∉ c :: Lib.Path.nodes ps := by
    have hperm := Lib.Path.inorder_fill_perm ps .nil
    rw [hfill] at hperm
    rw [List.mem_cons, not_or]
    exact ⟨hx, fun h => hxl (hperm.mem_iff.mpr h)⟩
  have hfocus : Holds s c (ends (t.inorder.filter (! before compare x ·) ++
      t.inorder.filter (before compare x))) (Lib.Path.fill ps .nil) := by
    rw [← hsplit, hfill]
    exact ht
  obtain ⟨s₁, hs₁, h₁⟩ := hfocus.attach hps has hbs
    (fun z hz => by simpa [RBTree.before] using (List.mem_filter.mp hz).2)
    (fun z hz => of_decide_eq_true (List.mem_filter.mp hz).2) hnodes
  obtain ⟨col, m, hpath, hnil⟩ := Lib.Path.Balanced.of_fill (hfill ▸ hbal)
  cases hnil
  obtain ⟨s', hs', h'⟩ := h₁.validateInsert rfl (.red .nil .nil) hpath hps hfuel
  refine ⟨s₁, s', hs₁, hs', ?_⟩
  have hin : (Lib.Path.fill ps (.node .red .nil x .nil)).inorder = insertSorted compare x t.inorder := by
    rw [Lib.Path.inorder_fill, has, hbs, List.append_assoc]
    rfl
  rw [hin] at h'
  exact h'

/-- `_RBTree_Insert` returns an equal node, or puts the node behind those that are less or
equal. -/
theorem Represents.insert (hc : TotalPreorder compare) (h : Represents compare s c l) (hx : x ≠ c)
    (hxl : x ∉ l) (hfuel : l.length ≤ fuel) :
    (isUnique = true ∧ ∃ y ∈ l, compare x y = 0 ∧
      insert fuel s c x compare isUnique = some (s, some y)) ∨
    ((isUnique = true → ∀ z ∈ l, compare x z ≠ 0) ∧ ∃ s',
      insert fuel s c x compare isUnique = some (s', none) ∧
        Represents compare s' c (insertSorted compare x l)) := by
  obtain ⟨t, n, ht, hbal, rfl⟩ := h.tree
  cases hr : t.root? with
  | none =>
    cases t with
    | nil =>
      obtain ⟨s', hs', h'⟩ := Represents.insert_first h hx
      exact .inr ⟨fun _ => nofun, s', hs', h'⟩
    | node col l y r => cases hr
  | some y =>
    have hroot : RBTree.root s c = some y := ht.root.trans hr
    have hfocus : Holds s c (ends t.inorder) (Lib.Path.fill [] t) := ht
    have hsize : t.size ≤ fuel := t.size_eq_length ▸ hfuel
    have hloop : RBTree.insertLoop s c x compare isUnique fuel y = _ := hfocus.insertLoop hr hsize
    unfold RBTree.insert
    rw [hroot]
    dsimp only
    rw [hloop, arrive]
    cases hfind : findEqual compare x isUnique t with
    | some z =>
      obtain ⟨hu, hz, h0⟩ := findEqual_some hfind
      exact .inl ⟨hu, z, hz, h0, rfl⟩
    | none =>
      refine .inr ⟨fun hu => findEqual_none hc h.sorted (hu ▸ hfind), ?_⟩
      have hmono : t.inorder.Pairwise fun a b =>
          RBTree.before compare x a → RBTree.before compare x b := h.sorted.before hc
      have hfill := Lib.Path.fill_descend (RBTree.before compare x) t []
      have hlen := Lib.Path.length_descend_le (RBTree.before compare x) t []
      obtain ⟨has, hbs⟩ := Lib.Path.beyond_descend hmono []
      generalize Lib.Path.descend (RBTree.before compare x) t [] = qs at *
      rw [Lib.Path.fill_nil] at hfill
      have hqs : qs ≠ [] := by
        rintro rfl
        rw [← hfill] at hr
        cases hr
      have hlen' : qs.length ≤ fuel := Nat.le_trans hlen hsize
      obtain ⟨s₁, s', hs₁, hs', h'⟩ := ht.insertLeaf hbal hfill hqs has
        (hbs.trans (List.append_nil _)) hx hxl hlen'
      refine ⟨s', ?_, h', h.sorted.insertSorted hc x⟩
      simp only [hs₁, hs', Option.bind_eq_bind, Option.bind_some]

end Rtems.RBTree
