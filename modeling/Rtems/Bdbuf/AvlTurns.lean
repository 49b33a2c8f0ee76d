import Rtems.Bdbuf.AvlLinks

/-!
# Mending a tree of descriptors

The turns of the memory do what the turns of the library do, and the loop back along the stack mends the
nodes of the path.
-/

namespace Rtems.Bdbuf

open Lib (Direction)
open Avl (Step)
open Avl.Tree (branch Balanced Leans)

variable {Addr Dev : Type} [DecidableEq Addr] {s s' s₁ s₂ : Nodes Addr Dev}
  {q : Option Addr} {x p p1 p2 z : Addr} {d e : Direction} {tilt tilt₁ tilt₂ : Option Direction}
  {t u near far near₁ far₁ near₂ far₂ : Avl.Tree Addr} {fs : Avl.Path Addr} {n : ℕ}

/-! ## What a turn leaves alone -/

/-- Only the pointers and balances of some nodes are changed. -/
structure Turned (s s' : Nodes Addr Dev) (zs : List Addr) : Prop where
  same : ∀ z, z ∉ zs → SameNode s s' z
  cache : s'.cache = s.cache
  root : s'.root = s.root
  dd : s'.dd = s.dd
  block : s'.block = s.block

section

omit [DecidableEq Addr]

theorem Turned.refl (s : Nodes Addr Dev) (zs : List Addr) : Turned s s zs :=
  ⟨fun z _ => .refl s z, rfl, rfl, rfl, rfl⟩

end

theorem Turned.setBal {zs : List Addr} {b : ℤ} (h : Turned s s' zs) (hx : x ∈ zs) :
    Turned s (s'.setBal x b) zs := by
  refine ⟨fun z hz => (h.same z hz).trans ⟨fun _ => rfl, ?_, rfl⟩, h.cache, h.root, h.dd, h.block⟩
  have hne : z ≠ x := fun he => hz (he ▸ hx)
  simp [hne]

theorem Turned.setChild {zs : List Addr} (h : Turned s s' zs) (hx : x ∈ zs) :
    Turned s (s'.setChild x d q) zs := by
  refine ⟨fun z hz => (h.same z hz).trans ⟨fun e => ?_, rfl, rfl⟩, h.cache, h.root, h.dd, h.block⟩
  have hne : z ≠ x := fun he => hz (he ▸ hx)
  simp [hne]

/-- A turn changes the nodes it moves. -/
theorem turned_simpleTurn {zs : List Addr} (hp : p ∈ zs) (hp1 : p1 ∈ zs) :
    Turned s (simpleTurn s d p p1) zs :=
  ((Turned.refl s zs).setChild hp).setChild hp1

theorem turned_doubleTurn {zs : List Addr} (hp : p ∈ zs) (hp1 : p1 ∈ zs) (hp2 : p2 ∈ zs) :
    Turned s (doubleTurn s d p p1 p2) zs :=
  ((((((Turned.refl s zs).setChild hp1).setChild hp2).setChild hp).setChild hp2).setBal hp).setBal hp1

/-! ## The pointers of a turn -/

theorem rooted_simpleTurn {tilt' : Option Direction}
    (hnd : (branch d tilt' p (branch d tilt₁ p1 near₁ far₁) far).toList.Nodup)
    (hn1 : Rooted s (s.child p1 d) near₁) (hf1 : Rooted s (s.child p1 d.opposite) far₁)
    (hf : Rooted s (s.child p d.opposite) far)
    (hchild : s'.child = (simpleTurn s d p p1).child)
    (hbal : ∀ z, z ≠ p → z ≠ p1 → s'.bal z = s.bal z) (hb : s'.bal p = tiltBal tilt₂)
    (hb1 : s'.bal p1 = tiltBal tilt) :
    Rooted s' (some p1) (Avl.simpleTurn d tilt tilt₂ p1 near₁ far₁ p far) := by
  simp only [Avl.Tree.nodup_toList_branch, Avl.Tree.mem_toList_branch, not_or] at hnd
  obtain ⟨⟨⟨hp1, hpn, hpf1⟩, hpf⟩, ⟨⟨h1n, h1f⟩, -⟩, -, hdisj⟩ := hnd
  have h1far : p1 ∉ far.toList := hdisj p1 (.inl rfl)
  have hc : ∀ z e, z ≠ p → z ≠ p1 → s'.child z e = s.child z e := fun z e hz hz1 => by
    simp [hchild, simpleTurn, hz, hz1]
  have hsub : ∀ (q : Option Addr) (v : Avl.Tree Addr), p ∉ v.toList → p1 ∉ v.toList → Rooted s q v →
      Rooted s' q v := fun q v hv hv1 hr =>
    hr.congr fun z hz => ⟨fun e => hc z e (fun he => hv (he ▸ hz)) (fun he => hv1 (he ▸ hz)),
      hbal z (fun he => hv (he ▸ hz)) fun he => hv1 (he ▸ hz)⟩
  have e1 : s'.child p1 d = s.child p1 d := by simp [hchild, simpleTurn, Ne.symm hp1]
  have e2 : s'.child p1 d.opposite = some p := by simp [hchild, simpleTurn]
  have e3 : s'.child p d = s.child p1 d.opposite := by simp [hchild, simpleTurn, hp1]
  have e4 : s'.child p d.opposite = s.child p d.opposite := by simp [hchild, simpleTurn, hp1]
  refine rooted_branch.mpr ⟨rfl, hb1, ?_, rooted_branch.mpr ⟨e2, hb, ?_, ?_⟩⟩
  · rw [e1]
    exact hsub _ _ hpn h1n hn1
  · rw [e3]
    exact hsub _ _ hpf1 h1f hf1
  · rw [e4]
    exact hsub _ _ hpf h1far hf

theorem rooted_doubleTurn
    (hnd : (branch d tilt p
      (branch d tilt₁ p1 near₁ (branch d tilt₂ p2 near₂ far₂)) far).toList.Nodup)
    (hn1 : Rooted s (s.child p1 d) near₁) (hb2 : s.bal p2 = tiltBal tilt₂)
    (hn2 : Rooted s (s.child p2 d) near₂) (hf2 : Rooted s (s.child p2 d.opposite) far₂)
    (hf : Rooted s (s.child p d.opposite) far) :
    Rooted ((doubleTurn s d p p1 p2).setBal p2 0) (some p2)
      (Avl.doubleTurn d tilt₂ p1 near₁ p2 near₂ far₂ p far) := by
  simp only [Avl.Tree.nodup_toList_branch, Avl.Tree.mem_toList_branch, not_or] at hnd
  obtain ⟨⟨⟨hp1, hpn1, hp2, hpn2, hpf2⟩, hpf⟩, ⟨⟨h1n, h12, h1n2, h1f2⟩, -, ⟨⟨h2n, h2f⟩, -⟩, hd1⟩,
    -, hdisj⟩ := hnd
  have h1far : p1 ∉ far.toList := hdisj p1 (.inl rfl)
  have h2far : p2 ∉ far.toList := hdisj p2 (.inr (.inr (.inl rfl)))
  have h2n1 : p2 ∉ near₁.toList := fun h => (hd1 p2 h).1 rfl
  generalize hs' : (doubleTurn s d p p1 p2).setBal p2 0 = s'
  have hc : ∀ z e, z ≠ p → z ≠ p1 → z ≠ p2 → s'.child z e = s.child z e := fun z e hz hz1 hz2 => by
    simp [← hs', doubleTurn, hz, hz1, hz2]
  have hbal : ∀ z, z ≠ p → z ≠ p1 → z ≠ p2 → s'.bal z = s.bal z := fun z hz hz1 hz2 => by
    simp [← hs', doubleTurn, hz, hz1, hz2]
  have hsub : ∀ (q : Option Addr) (v : Avl.Tree Addr), p ∉ v.toList → p1 ∉ v.toList → p2 ∉ v.toList →
      Rooted s q v → Rooted s' q v := fun q v hv hv1 hv2 hr =>
    hr.congr fun z hz => ⟨fun e => hc z e (fun he => hv (he ▸ hz)) (fun he => hv1 (he ▸ hz))
      (fun he => hv2 (he ▸ hz)), hbal z (fun he => hv (he ▸ hz)) (fun he => hv1 (he ▸ hz))
      fun he => hv2 (he ▸ hz)⟩
  have c1 : s'.child p1 d = s.child p1 d := by
    simp [← hs', doubleTurn, Ne.symm hp1, h12]
  have c2 : s'.child p1 d.opposite = s.child p2 d := by
    simp [← hs', doubleTurn, Ne.symm hp1, h12]
  have c3 : s'.child p2 d = some p1 := by
    simp [← hs', doubleTurn, Ne.symm hp2, Ne.symm h12]
  have c4 : s'.child p2 d.opposite = some p := by
    simp [← hs', doubleTurn, Ne.symm hp2, Ne.symm h12]
  have c5 : s'.child p d = s.child p2 d.opposite := by
    simp [← hs', doubleTurn, hp2, Ne.symm h12]
  have c6 : s'.child p d.opposite = s.child p d.opposite := by
    simp [← hs', doubleTurn, hp1, hp2]
  have b1 : s'.bal p1 = tiltBal (if tilt₂ = some d.opposite then some d else none) := by
    rcases Avl.Tree.tilt_cases d tilt₂ with rfl | rfl | rfl <;>
      simp [← hs', doubleTurn, hb2, h12, Ne.symm hp2]
  have b2 : s'.bal p2 = 0 := by simp [← hs']
  have b : s'.bal p = tiltBal (if tilt₂ = some d then some d.opposite else none) := by
    rcases Avl.Tree.tilt_cases d tilt₂ with rfl | rfl | rfl <;>
      simp [← hs', doubleTurn, hb2, hp1, hp2]
  refine rooted_branch.mpr ⟨rfl, b2, rooted_branch.mpr ⟨c3, b1, ?_, ?_⟩,
    rooted_branch.mpr ⟨c4, b, ?_, ?_⟩⟩
  · rw [c1]
    exact hsub _ _ hpn1 h1n h2n1 hn1
  · rw [c2]
    exact hsub _ _ hpn2 h1n2 h2n hn2
  · rw [c5]
    exact hsub _ _ hpf2 h1f2 h2f hf2
  · rw [c6]
    exact hsub _ _ hpf h1far h2far hf

/-! ## The switches -/

/-- A node whose balance alone is changed. -/
theorem rooted_setBal {b : ℤ} (hnd : (branch d tilt x near far).toList.Nodup)
    (hn : Rooted s (s.child x d) near) (hf : Rooted s (s.child x d.opposite) far)
    (hb : b = tiltBal tilt₁) : Rooted (s.setBal x b) (some x) (branch d tilt₁ x near far) := by
  obtain ⟨⟨hxn, hxf⟩, -⟩ := Avl.Tree.nodup_toList_branch.mp hnd
  have hsub : ∀ (q : Option Addr) (v : Avl.Tree Addr), x ∉ v.toList → Rooted s q v →
      Rooted (s.setBal x b) q v := fun q v hv hr =>
    hr.congr fun z hz => ⟨fun _ => rfl, by
      have hne : z ≠ x := fun he => hv (he ▸ hz)
      simp [hne]⟩
  exact rooted_branch.mpr ⟨rfl, by simp [hb], hsub _ _ hxn hn, hsub _ _ hxf hf⟩

/-- The node of a step, marked in its direction, with a subtree in the hole. -/
structure Marked (s : Nodes Addr Dev) (d : Direction) (tilt : Option Direction) (x : Addr)
    (near far : Avl.Tree Addr) : Prop where
  cache : s.cache x = side d
  bal : s.bal x = tiltBal tilt
  rootedNear : Rooted s (s.child x d) near
  rootedFar : Rooted s (s.child x d.opposite) far
  nodup : (branch d tilt x near far).toList.Nodup

/-- What a switch does to a marked node is what `turn` says. -/
def Does (mem : Nodes Addr Dev → Addr → Option (Nodes Addr Dev × Addr × Bool)) (s : Nodes Addr Dev)
    (d : Direction) (tilt : Option Direction) (x : Addr) (near far : Avl.Tree Addr)
    (result : Avl.Tree Addr × Bool) : Prop :=
  ∃ s' y, mem s x = some (s', y, result.2) ∧ Rooted s' (some y) result.1 ∧
    Turned s s' (branch d tilt x near far).toList

theorem insertTurn_grow (h : Marked s d tilt x near far) (hnear : Balanced near)
    (hn : near.height = n + 1) (hl : Leans d tilt n far.height)
    (hroot : near.rootTilt ≠ none ∨ n = 0) :
    Does insertTurn s d tilt x near far (Avl.grow d tilt x near far) := by
  have hd := heading_of_cache h.cache
  have hx : x ∈ (branch d tilt x near far).toList := Avl.Tree.mem_toList_branch.mpr (.inl rfl)
  have hrefl := Turned.refl s (branch d tilt x near far).toList
  rcases Avl.Tree.tilt_cases d tilt with rfl | rfl | rfl
  · rw [Avl.grow_level rfl]
    refine ⟨s.setBal x (side d), x, ?_, rooted_setBal h.nodup h.rootedNear h.rootedFar rfl,
      hrefl.setBal hx⟩
    simp [insertTurn, hd, h.bal]
  · rw [Avl.Tree.leans_near] at hl
    obtain ⟨tilt₁, p1, near₁, far₁, rfl⟩ :=
      Avl.exists_branch_of_height_pos (t := near) d (by omega)
    obtain ⟨h1, hb1, hn1, hf1⟩ := rooted_branch.mp h.rootedNear
    obtain ⟨hl₁, -, hbf⟩ := Avl.Tree.balanced_branch.mp hnear
    rcases Avl.Tree.tilt_cases d tilt₁ with rfl | rfl | rfl
    · rw [Avl.Tree.rootTilt_branch] at hroot
      exact absurd rfl (hroot.resolve_right (by omega))
    · rw [Avl.grow_simple]
      have hm1 : p1 ∈ (branch d (some d) x (branch d (some d) p1 near₁ far₁) far).toList := by simp
      refine ⟨((simpleTurn s d x p1).setBal x 0).setBal p1 0, p1, ?_,
        rooted_simpleTurn h.nodup hn1 hf1 h.rootedFar rfl ?_ ?_ ?_,
        ((turned_simpleTurn hx hm1).setBal hx).setBal hm1⟩
      · simp [insertTurn, hd, h.bal, h1, hb1]
      · intro z hz hz1
        simp [hz, hz1, simpleTurn]
      · simp
      · simp
    · rw [Avl.Tree.leans_far] at hl₁
      obtain ⟨tilt₂, p2, near₂, far₂, rfl⟩ :=
        Avl.exists_branch_of_height_pos (t := far₁) d (by omega)
      obtain ⟨h2, hb2, hn2, hf2⟩ := rooted_branch.mp hf1
      rw [Avl.grow_double (fun he => d.opposite_ne (Option.some.inj he))]
      refine ⟨(doubleTurn s d x p1 p2).setBal p2 0, p2, ?_,
        rooted_doubleTurn h.nodup hn1 hb2 hn2 hf2 h.rootedFar,
        (turned_doubleTurn hx ?_ ?_).setBal ?_⟩
      · simp [insertTurn, hd, h.bal, h1, hb1, h2]
      · simp
      · simp
      · simp
  · rw [Avl.grow_far rfl]
    refine ⟨s.setBal x 0, x, ?_, rooted_setBal h.nodup h.rootedNear h.rootedFar rfl, hrefl.setBal hx⟩
    simp [insertTurn, hd, h.bal]

theorem removeTurn_shrink (h : Marked s d tilt x near far) (hfar : Balanced far)
    (hn : near.height + 1 = n) (hl : Leans d tilt n far.height) :
    Does removeTurn s d tilt x near far (Avl.shrink d tilt x near far) := by
  have hd := heading_of_cache h.cache
  have hx : x ∈ (branch d tilt x near far).toList := Avl.Tree.mem_toList_branch.mpr (.inl rfl)
  have hrefl := Turned.refl s (branch d tilt x near far).toList
  rcases Avl.Tree.tilt_cases d tilt with rfl | rfl | rfl
  · rw [Avl.shrink_level rfl]
    refine ⟨s.setBal x (side d.opposite), x, ?_, rooted_setBal h.nodup h.rootedNear h.rootedFar rfl,
      hrefl.setBal hx⟩
    simp [removeTurn, hd, h.bal]
  · rw [Avl.shrink_near rfl]
    refine ⟨s.setBal x 0, x, ?_, rooted_setBal h.nodup h.rootedNear h.rootedFar rfl,
      hrefl.setBal hx⟩
    simp [removeTurn, hd, h.bal]
  · rw [Avl.Tree.leans_far] at hl
    obtain ⟨tilt₁, p1, far₁, near₁, rfl⟩ :=
      Avl.exists_branch_of_height_pos (t := far) d.opposite (by omega)
    obtain ⟨h1, hb1, hf1, hn1⟩ := rooted_branch.mp h.rootedFar
    obtain ⟨hl₁, -, hbn⟩ := Avl.Tree.balanced_branch.mp hfar
    have hnd := h.nodup
    rw [← Avl.Tree.branch_opposite] at hnd
    have hnear : Rooted s (s.child x d.opposite.opposite) near := by
      rw [Direction.opposite_opposite]
      exact h.rootedNear
    have hm1 : p1 ∈ (branch d (some d.opposite) x near
        (branch d.opposite tilt₁ p1 far₁ near₁)).toList := by simp
    rcases Avl.Tree.tilt_cases d.opposite tilt₁ with rfl | rfl | rfl
    · rw [Avl.shrink_even]
      refine ⟨(simpleTurn s d.opposite x p1).setBal p1 (side d), p1, ?_,
        rooted_simpleTurn hnd hf1 hn1 hnear rfl ?_ ?_ ?_, (turned_simpleTurn hx hm1).setBal hm1⟩
      · simp [removeTurn, hd, h.bal, h1, hb1]
      · intro z hz hz1
        simp [hz1, simpleTurn]
      · have hne : x ≠ p1 := fun he => (Avl.Tree.nodup_toList_branch.mp hnd).1.1 (by simp [he])
        simp [hne, h.bal, simpleTurn]
      · simp
    · rw [Avl.shrink_simple]
      refine ⟨((simpleTurn s d.opposite x p1).setBal x 0).setBal p1 0, p1, ?_,
        rooted_simpleTurn hnd hf1 hn1 hnear rfl ?_ ?_ ?_,
        ((turned_simpleTurn hx hm1).setBal hx).setBal hm1⟩
      · simp [removeTurn, hd, h.bal, h1, hb1]
      · intro z hz hz1
        simp [hz, hz1, simpleTurn]
      · simp
      · simp
    · rw [Avl.Tree.leans_far] at hl₁
      obtain ⟨tilt₂, p2, far₂, near₂, rfl⟩ :=
        Avl.exists_branch_of_height_pos (t := near₁) d.opposite (by omega)
      obtain ⟨h2, hb2, hf2, hn2⟩ := rooted_branch.mp hn1
      simp only [Direction.opposite_opposite] at hb1 hnd h2 hx hm1 ⊢
      rw [Avl.shrink_double]
      refine ⟨(doubleTurn s d.opposite x p1 p2).setBal p2 0, p2, ?_,
        rooted_doubleTurn hnd hf1 hb2 hf2 hn2 hnear, (turned_doubleTurn hx hm1 ?_).setBal ?_⟩
      · simp [removeTurn, hd, h.bal, h1, hb1, h2]
      · simp
      · simp

/-! ## The way back -/

/-- Only some nodes, and perhaps the root, are changed. -/
structure Within (s s' : Nodes Addr Dev) (zs : List Addr) : Prop where
  same : ∀ z, z ∉ zs → SameNode s s' z
  dd : s'.dd = s.dd
  block : s'.block = s.block

section

omit [DecidableEq Addr]

theorem Within.refl (s : Nodes Addr Dev) (zs : List Addr) : Within s s zs :=
  ⟨fun z _ => .refl s z, rfl, rfl⟩

theorem Within.trans {zs : List Addr} (h : Within s s₁ zs) (h' : Within s₁ s₂ zs) :
    Within s s₂ zs :=
  ⟨fun z hz => (h.same z hz).trans (h'.same z hz), h'.dd.trans h.dd, h'.block.trans h.block⟩

theorem Within.mono {zs ws : List Addr} (h : Within s s' zs) (hsub : ∀ z ∈ zs, z ∈ ws) :
    Within s s' ws :=
  ⟨fun z hz => h.same z fun hz' => hz (hsub z hz'), h.dd, h.block⟩

theorem Turned.within {zs : List Addr} (h : Turned s s' zs) : Within s s' zs :=
  ⟨h.same, h.dd, h.block⟩

end

theorem within_link {stack zs : List Addr} (h : ∀ z ∈ stack, z ∈ zs) :
    Within s (link s stack q) zs :=
  ⟨fun z hz => sameNode_link fun hz' => hz (h z hz'), dd_link, block_link⟩

section

omit [DecidableEq Addr]

theorem nodup_fill : (Avl.Path.fill fs t).toList.Nodup ↔
    t.toList.Nodup ∧ (Avl.Path.nodes fs).Nodup ∧ ∀ z ∈ t.toList, z ∉ Avl.Path.nodes fs := by
  rw [(Avl.Path.toList_fill_perm fs t).nodup_iff, List.nodup_append]
  refine and_congr_right fun _ => and_congr_right fun _ => ?_
  exact ⟨fun h z hz hz' => h z hz z hz' rfl, fun h z hz w hw e => h z hz (e ▸ hw)⟩

theorem mem_fill : z ∈ (Avl.Path.fill fs t).toList ↔ z ∈ t.toList ∨ z ∈ Avl.Path.nodes fs := by
  rw [(Avl.Path.toList_fill_perm fs t).mem_iff, List.mem_append]

end

/-- The loop back mends the nodes of the path, if the switch does so with every node it meets. -/
theorem rebalance_mend {mem : Nodes Addr Dev → Addr → Option (Nodes Addr Dev × Addr × Bool)}
    {turn : Direction → Option Direction → Addr → Avl.Tree Addr → Avl.Tree Addr → Avl.Tree Addr × Bool}
    {I : Avl.Path Addr → Avl.Tree Addr → Prop}
    (hlist : ∀ d tilt x near far,
      (turn d tilt x near far).1.toList = (branch d tilt x near far).toList)
    (hdoes : ∀ s f fs t, I (f :: fs) t → Marked s f.dir f.tilt f.node t f.sibling →
      Does mem s f.dir f.tilt f.node t f.sibling (turn f.dir f.tilt f.node t f.sibling))
    (hstep : ∀ f fs t, I (f :: fs) t → (turn f.dir f.tilt f.node t f.sibling).2 = true →
      I fs (turn f.dir f.tilt f.node t f.sibling).1)
    (hfs : Surrounds s fs q) (ht : Rooted s q t) (hnd : (Avl.Path.fill fs t).toList.Nodup)
    (hI : I fs t) :
    ∃ s', rebalance mem s (stackOf fs) = some s' ∧ Rooted s' s'.root (Avl.Path.mend turn fs t) ∧
      Within s s' (Avl.Path.fill fs t).toList := by
  induction fs generalizing s q t with
  | nil =>
    refine ⟨s, rfl, ?_, .refl _ _⟩
    rw [show s.root = q from hfs]
    exact ht
  | cons f fs ih =>
    obtain ⟨h₁, h₂, h₃, h₄, h₅⟩ := hfs
    rw [Avl.Path.fill, nodup_fill] at hnd
    obtain ⟨hb, hp, hdisj⟩ := hnd
    obtain ⟨s₁, y, hmem, hy, hturned⟩ := hdoes s f fs t hI ⟨h₂, h₃, h₁.symm ▸ ht, h₄, hb⟩
    have hlf := hlist f.dir f.tilt f.node t f.sibling
    have hsur : Surrounds s₁ fs (some f.node) :=
      Surrounds.congr h₅ hturned.root fun z hz => hturned.same z fun hz' => hdisj z hz' hz
    -- the turned subtree is put into the hole
    have hlink : Surrounds (link s₁ (stackOf fs) (some y)) fs (some y) := hsur.link hp
    have hout : ∀ z ∈ (turn f.dir f.tilt f.node t f.sibling).1.toList, z ∉ stackOf fs :=
      fun z hz hz' => hdisj z (hlf ▸ hz) (mem_nodes_of_stack hz')
    have hrooted : Rooted (link s₁ (stackOf fs) (some y)) (some y)
        (turn f.dir f.tilt f.node t f.sibling).1 :=
      hy.congr fun z hz => ⟨(sameNode_link (hout z hz)).child, (sameNode_link (hout z hz)).bal⟩
    have hwithin : Within s (link s₁ (stackOf fs) (some y)) (Avl.Path.fill (f :: fs) t).toList := by
      refine (hturned.within.mono fun z hz => mem_fill.mpr (.inl hz)).trans
        (within_link fun z hz => mem_fill.mpr (.inr (mem_nodes_of_stack hz)))
    have hrun : rebalance mem s (stackOf (f :: fs)) =
        if (turn f.dir f.tilt f.node t f.sibling).2 = true then
          rebalance mem (link s₁ (stackOf fs) (some y)) (stackOf fs)
        else some (link s₁ (stackOf fs) (some y)) := by
      simp only [stackOf, List.map_cons, rebalance, hmem, Option.bind_eq_bind, Option.bind_some]
    have hnext := hstep f fs t hI
    rw [hrun]
    simp only [Avl.Path.mend]
    rcases hres : turn f.dir f.tilt f.node t f.sibling with ⟨t', flag⟩
    rw [hres] at hlf hrooted hnext
    cases flag with
    | false =>
      refine ⟨_, if_neg Bool.false_ne_true, Leads.rooted_fill hlink hrooted, hwithin⟩
    | true =>
      have hnd' : (Avl.Path.fill fs t').toList.Nodup :=
        nodup_fill.mpr ⟨hlf ▸ hb, hp, fun z hz => hdisj z (hlf ▸ hz)⟩
      obtain ⟨s', hs', hroot, hw⟩ := ih hlink hrooted hnd' (hnext rfl)
      refine ⟨s', (if_pos rfl).trans hs', hroot, hwithin.trans (hw.mono fun z hz => ?_)⟩
      rw [mem_fill, show t'.toList = _ from hlf] at hz
      rw [Avl.Path.fill]
      exact mem_fill.mpr hz

/-- The loop of `rtems_bdbuf_avl_insert` above a subtree that has grown. -/
theorem rebalance_grow (hfs : Surrounds s fs q) (ht : Rooted s q t)
    (hnd : (Avl.Path.fill fs t).toList.Nodup) (hb : Balanced t) (hn : t.height = n + 1)
    (hpath : Avl.Path.Balanced fs n) (hroot : t.rootTilt ≠ none ∨ n = 0) :
    ∃ s', rebalance insertTurn s (stackOf fs) = some s' ∧
      Rooted s' s'.root (Avl.Path.mend Avl.grow fs t) ∧ Within s s' (Avl.Path.fill fs t).toList := by
  refine rebalance_mend (I := fun fs t => ∃ n, t.height = n + 1 ∧ Balanced t ∧ Avl.Path.Balanced fs n ∧
    (t.rootTilt ≠ none ∨ n = 0)) (fun d tilt x near far => Avl.toList_grow) ?_ ?_ hfs ht hnd
    ⟨n, hn, hb, hpath, hroot⟩
  · rintro s f fs t ⟨n, hn, hb, ⟨hl, -, -⟩, hroot⟩ hm
    exact insertTurn_grow hm hb hn hl hroot
  · rintro f fs t ⟨n, hn, hb, ⟨hl, hs, hpath⟩, hroot⟩ hflag
    obtain ⟨hb', hh, htilt⟩ := Avl.grow_balanced (x := f.node) hb hs hn hl hroot
    rw [hflag] at hh
    exact ⟨_, hh, hb', hpath, .inl (htilt hflag)⟩

/-- The loop of `rtems_bdbuf_avl_remove` above a subtree that has shrunk. -/
theorem rebalance_shrink (hfs : Surrounds s fs q) (ht : Rooted s q t)
    (hnd : (Avl.Path.fill fs t).toList.Nodup) (hb : Balanced t) (hn : t.height + 1 = n)
    (hpath : Avl.Path.Balanced fs n) :
    ∃ s', rebalance removeTurn s (stackOf fs) = some s' ∧
      Rooted s' s'.root (Avl.Path.mend Avl.shrink fs t) ∧ Within s s' (Avl.Path.fill fs t).toList := by
  refine rebalance_mend (I := fun fs t => Balanced t ∧ Avl.Path.Balanced fs (t.height + 1))
    (fun d tilt x near far => Avl.toList_shrink) ?_ ?_ hfs ht hnd ⟨hb, hn ▸ hpath⟩
  · rintro s f fs t ⟨hb, hl, hs, -⟩ hm
    exact removeTurn_shrink hm hs rfl hl
  · rintro f fs t ⟨hb, hl, hs, hpath⟩ hflag
    obtain ⟨hb', hh⟩ := Avl.shrink_balanced (x := f.node) hb hs rfl hl
    rw [hflag, Bool.toNat_true] at hh
    rw [← hh] at hpath
    exact ⟨hb', hpath⟩

end Rtems.Bdbuf
