import Rtems.Lib.Runs
import Rtems.Bdbuf.AvlOperations

/-!
# Runs of the tree of descriptors

Insertions and removals in any order, from the empty tree on.  A node is in the tree if the pointers lead
to it from the root.  Between the operations the key of a descriptor that is not in the tree may change.
-/

namespace Rtems.Bdbuf

open Lib (Direction Extends)
open Avl (Step)
open Avl.Tree (branch Balanced Leans)

variable {Addr Dev : Type} [DecidableEq Addr] [LinearOrder Dev] {s s' s₁ s₂ s₀ : Nodes Addr Dev}
  {q : Option Addr} {x y z node : Addr} {t u : Avl.Tree Addr} {fuel n : ℕ} {dd : Dev} {block : ℕ}

/-! ## Loops with more turns -/

section

omit [DecidableEq Addr]

theorem searchLoop_extends (n : ℕ) (q : Option Addr) :
    Extends (searchLoop s dd block n q) (searchLoop s dd block (n + 1) q) := by
  induction n generalizing q with
  | zero =>
    cases q with
    | none => exact .refl _
    | some p => exact .none _
  | succ n ih =>
    cases q with
    | none => exact .refl _
    | some p => exact .ite (.ite (ih _) (ih _)) (.refl _)

end

theorem insertDescend_extends (n : ℕ) (s : Nodes Addr Dev) (p : Addr) (stack : List Addr) :
    Extends (insertDescend node n s p stack) (insertDescend node (n + 1) s p stack) := by
  induction n generalizing s p stack with
  | zero => exact .none _
  | succ n ih =>
    unfold insertDescend
    refine .bind (.refl _) fun stack => .ite ?_ (.ite ?_ (.refl _))
    · dsimp only
      cases (s.setCache p 1).child p .right with
      | none => exact .refl _
      | some q => exact ih _ _ _
    · dsimp only
      cases (s.setCache p (-1)).child p .left with
      | none => exact .refl _
      | some q => exact ih _ _ _

theorem removeDescend_extends (n : ℕ) (s : Nodes Addr Dev) (q : Option Addr) (stack : List Addr) :
    Extends (removeDescend dd block n s q stack) (removeDescend dd block (n + 1) s q stack) := by
  induction n generalizing s q stack with
  | zero =>
    cases q with
    | none => exact .refl _
    | some p => exact .none _
  | succ n ih =>
    cases q with
    | none => exact .refl _
    | some p =>
      unfold removeDescend
      exact .bind (.refl _) fun stack => .ite (ih _ _ _) (.ite (ih _ _ _) (.refl _))

section

omit [LinearOrder Dev]

theorem removeSpine_extends (base n : ℕ) (s : Nodes Addr Dev) (r x : Addr) (above : List Addr) :
    Extends (removeSpine base n s r x above) (removeSpine base (n + 1) s r x above) := by
  induction n generalizing s r x above with
  | zero => exact .none _
  | succ n ih =>
    unfold removeSpine
    cases s.child x .left with
    | none => exact .refl _
    | some x' => exact .ite (ih _ _ _ _) (.refl _)

theorem removeSplice_extends (n : ℕ) (s : Nodes Addr Dev) (x : Addr) (stack : List Addr) :
    Extends (removeSplice n s x stack) (removeSplice (n + 1) s x stack) := by
  unfold removeSplice
  cases s.child x .right with
  | none => exact .refl _
  | some r =>
    dsimp only
    cases s.child r .left with
    | none => exact .refl _
    | some _ =>
      refine .bind (.refl _) fun _ => .bind (removeSpine_extends _ n _ _ _ _) fun _ => .refl _

end

theorem avlInsert_extends (n : ℕ) (node : Addr) :
    Extends (avlInsert n s node) (avlInsert (n + 1) s node) := by
  unfold avlInsert
  cases s.root with
  | none => exact .refl _
  | some p => exact .bind (insertDescend_extends n s p []) fun _ => .refl _

theorem avlRemove_extends (n : ℕ) (node : Addr) :
    Extends (avlRemove n s node) (avlRemove (n + 1) s node) := by
  refine .bind (removeDescend_extends n s _ []) fun r => ?_
  obtain ⟨s, found⟩ := r
  cases found with
  | none => exact .refl _
  | some f => exact .bind (removeSplice_extends n s f.1 f.2) fun _ => .refl _

/-! ## Nodes in the tree -/

/-- The pointers lead from the root to the node. -/
inductive InTree (s : Nodes Addr Dev) : Addr → Prop where
  | root {x : Addr} (h : s.root = some x) : InTree s x
  | child {x y : Addr} {d : Direction} (h : InTree s x) (hy : s.child x d = some y) : InTree s y

/-- No way down from a pointer is longer than `n` nodes. -/
def HeightAtMost (s : Nodes Addr Dev) : ℕ → Option Addr → Prop
  | _, none => True
  | 0, some _ => False
  | n + 1, some x => HeightAtMost s n (s.child x .left) ∧ HeightAtMost s n (s.child x .right)

/-- The tree at a pointer is ordered by the keys, and every balance is the height of the right subtree
less that of the left one, and -1, 0 or 1. -/
def IsAvl (s : Nodes Addr Dev) : Option Addr → Avl.Tree Addr → Prop
  | q, .leaf => q = none
  | q, .node _ l x r => q = some x ∧ s.bal x = (r.height : ℤ) - l.height ∧
      (s.bal x = -1 ∨ s.bal x = 0 ∨ s.bal x = 1) ∧ (∀ y ∈ l.toList, keyOf s y < keyOf s x) ∧
      (∀ y ∈ r.toList, keyOf s x < keyOf s y) ∧ IsAvl s (s.child x .left) l ∧
      IsAvl s (s.child x .right) r

section

omit [DecidableEq Addr]

theorem isAvl_of_rooted (hr : Rooted s q t) (hb : Balanced t) (hs : Avl.Sorted (keyOf s) t) :
    IsAvl s q t := by
  induction t generalizing q with
  | leaf => exact hr
  | node tilt l x r ihl ihr =>
    obtain ⟨h₁, h₂, h₃, h₄⟩ := hr
    obtain ⟨hl, hbl, hbr⟩ := hb
    simp only [Avl.Sorted, Avl.Tree.toList_node, List.pairwise_append, List.pairwise_cons,
      List.mem_cons, forall_eq_or_imp] at hs
    obtain ⟨hsl, ⟨hxr, hsr⟩, hlr⟩ := hs
    refine ⟨h₁, ?_, ?_, fun y hy => (hlr y hy).1, hxr, ihl h₃ hbl hsl, ihr h₄ hbr hsr⟩
    · rw [h₂]
      rcases Avl.Tree.tilt_cases .left tilt with rfl | rfl | rfl
      · rw [Avl.Tree.leans_none] at hl
        simp only [tiltBal]
        omega
      · rw [Avl.Tree.leans_near] at hl
        simp only [tiltBal, side]
        omega
      · rw [Avl.Tree.leans_far] at hl
        simp only [tiltBal, side, Direction.opposite]
        omega
    · rw [h₂]
      rcases Avl.Tree.tilt_cases .left tilt with rfl | rfl | rfl
      · exact .inr (.inl rfl)
      · exact .inl rfl
      · exact .inr (.inr rfl)

end

section

omit [DecidableEq Addr] [LinearOrder Dev]

theorem heightAtMost_iff (h : Rooted s q t) : HeightAtMost s n q ↔ t.height ≤ n := by
  induction t generalizing q n with
  | leaf =>
    rw [show q = none from h]
    cases n <;> exact iff_of_true trivial (Nat.zero_le _)
  | node tilt l x r ihl ihr =>
    obtain ⟨rfl, -, hl, hr⟩ := h
    cases n with
    | zero => exact iff_of_false id (Nat.not_succ_le_zero _)
    | succ n =>
      rw [HeightAtMost, ihl hl, ihr hr, ← Nat.max_le]
      exact Nat.succ_le_succ_iff.symm

theorem Rooted.child_mem {d : Direction} (h : Rooted s q t) (hx : x ∈ t.toList)
    (hy : s.child x d = some y) : y ∈ t.toList := by
  induction t generalizing q with
  | leaf => cases hx
  | node tilt l z r ihl ihr =>
    obtain ⟨-, -, hl, hr⟩ := h
    have hroot : ∀ v : Avl.Tree Addr, v.root? = some y → y ∈ v.toList := by
      intro v hv
      cases v with
      | leaf => cases hv
      | node tilt l w r =>
        cases hv
        simp
    rcases List.mem_append.mp hx with hx | hx
    · exact List.mem_append_left _ (ihl hl hx)
    · rcases List.mem_cons.mp hx with rfl | hx
      · cases d with
        | left => exact List.mem_append_left _ (hroot l (hl.root.symm.trans hy))
        | right =>
          exact List.mem_append_right _ (List.mem_cons_of_mem _ (hroot r (hr.root.symm.trans hy)))
      · exact List.mem_append_right _ (List.mem_cons_of_mem _ (ihr hr hx))

theorem Rooted.inTree (h : Rooted s q t) (hq : ∀ x, q = some x → InTree s x) (hx : x ∈ t.toList) :
    InTree s x := by
  induction t generalizing q with
  | leaf => cases hx
  | node tilt l z r ihl ihr =>
    obtain ⟨rfl, -, hl, hr⟩ := h
    have hz := hq z rfl
    rcases List.mem_append.mp hx with hx | hx
    · exact ihl hl (fun y hy => .child hz hy) hx
    · rcases List.mem_cons.mp hx with rfl | hx
      · exact hz
      · exact ihr hr (fun y hy => .child hz hy) hx

end

section

omit [DecidableEq Addr]

theorem Holds.inTree_iff (h : Holds s t) : InTree s x ↔ x ∈ t.toList := by
  constructor
  · intro hx
    induction hx with
    | root hr =>
      have hroot := h.rooted.root.symm.trans hr
      cases t with
      | leaf => cases hroot
      | node tilt l y r =>
        cases hroot
        simp
    | child _ hy ih => exact h.rooted.child_mem ih hy
  · intro hx
    exact h.rooted.inTree (fun y hy => .root hy) hx

end

/-! ## Operations -/

inductive Op (Addr Dev : Type) where
  | insert (node : Addr)
  | remove (node : Addr)
  /-- The key of a descriptor is set. -/
  | assign (node : Addr) (dd : Dev) (block : ℕ)

/-- An operation with a bound on the turns of its loops: the memory after it and what it returns. -/
def Op.run (fuel : ℕ) (s : Nodes Addr Dev) : Op Addr Dev → Option (Nodes Addr Dev × ℤ)
  | .insert node => avlInsert fuel s node
  | .remove node => avlRemove fuel s node
  | .assign node dd block =>
    some ({ s with dd := fun z => if z = node then dd else s.dd z,
                   block := fun z => if z = node then block else s.block z }, 0)

/-- The operation comes to its end. -/
def Op.Returns (s : Nodes Addr Dev) (op : Op Addr Dev) (s' : Nodes Addr Dev) (r : ℤ) : Prop :=
  ∃ fuel, op.run fuel s = some (s', r)

/-- The way to a node fits on the stack; the key of a node in the tree stays. -/
def Op.Valid (s : Nodes Addr Dev) : Op Addr Dev → Prop
  | .insert _ => HeightAtMost s avlMaxHeight s.root
  | .remove _ => HeightAtMost s avlMaxHeight s.root
  | .assign node _ _ => ¬ InTree s node

/-- The pointers and balances of the tree are unchanged. -/
structure SameTree (s s' : Nodes Addr Dev) : Prop where
  root : s'.root = s.root
  child : s'.child = s.child
  bal : s'.bal = s.bal

/-- A node of the tree has the key of `node`. -/
def HasKey (s : Nodes Addr Dev) (node : Addr) : Prop := ∃ y, InTree s y ∧ keyOf s y = keyOf s node

/-- What the operation does to the tree. -/
def Op.Meets (s s' : Nodes Addr Dev) (r : ℤ) : Op Addr Dev → Prop
  | .insert node => s'.dd = s.dd ∧ s'.block = s.block ∧
      ((r = -1 ∧ HasKey s node ∧ SameTree s s') ∨
        (r = 0 ∧ ¬ HasKey s node ∧ ∀ z, InTree s' z ↔ z = node ∨ InTree s z))
  | .remove node => s'.dd = s.dd ∧ s'.block = s.block ∧
      ((r = -1 ∧ ¬ HasKey s node ∧ SameTree s s') ∨
        (r = 0 ∧ ∃ y, InTree s y ∧ keyOf s y = keyOf s node ∧
          ∀ z, InTree s' z ↔ InTree s z ∧ z ≠ y))
  | .assign _ _ _ => r = 0 ∧ SameTree s s'

/-- The search for a key comes to its end. -/
def SearchReturns (s : Nodes Addr Dev) (dd : Dev) (block : ℕ) (r : Option Addr) : Prop :=
  ∃ fuel, avlSearch fuel s dd block = some r

theorem Op.run_extends (op : Op Addr Dev) (n : ℕ) : Extends (op.run n s) (op.run (n + 1) s) := by
  cases op with
  | insert node => exact avlInsert_extends n node
  | remove node => exact avlRemove_extends n node
  | assign node dd block => exact .refl _

/-- The result does not depend on the bound. -/
theorem Op.Returns.unique {op : Op Addr Dev} {r₁ r₂ : ℤ} (h₁ : op.Returns s s₁ r₁)
    (h₂ : op.Returns s s₂ r₂) : s₁ = s₂ ∧ r₁ = r₂ := by
  obtain ⟨m, hm⟩ := h₁
  obtain ⟨n, hn⟩ := h₂
  have hm' := Extends.of_succ op.run_extends (Nat.le_max_left m n) _ hm
  have hn' := Extends.of_succ op.run_extends (Nat.le_max_right m n) _ hn
  exact Prod.mk.inj (Option.some.inj (hm'.symm.trans hn'))

section

omit [DecidableEq Addr]

theorem SearchReturns.unique {r₁ r₂ : Option Addr} (h₁ : SearchReturns s dd block r₁)
    (h₂ : SearchReturns s dd block r₂) : r₁ = r₂ := by
  obtain ⟨m, hm⟩ := h₁
  obtain ⟨n, hn⟩ := h₂
  have hext : ∀ k, Extends (avlSearch k s dd block) (avlSearch (k + 1) s dd block) := fun k =>
    searchLoop_extends k s.root
  have hm' := Extends.of_succ hext (Nat.le_max_left m n) _ hm
  have hn' := Extends.of_succ hext (Nat.le_max_right m n) _ hn
  exact Option.some.inj (hm'.symm.trans hn')

end

section

omit [DecidableEq Addr] [LinearOrder Dev]

theorem Remarked.sameTree {zs : List Addr} (h : Remarked s s' zs) : SameTree s s' :=
  ⟨h.root, h.child, h.bal⟩

end

section

omit [DecidableEq Addr]

theorem Holds.remarked {zs : List Addr} (h : Holds s t) (hr : Remarked s s' zs) : Holds s' t := by
  refine ⟨?_, h.nodup, h.balanced, ?_⟩
  · rw [hr.root]
    exact hr.rooted h.rooted
  · rw [keyOf_congr hr.dd hr.block]
    exact h.sorted

theorem Holds.hasKey_iff (h : Holds s t) :
    HasKey s node ↔ ∃ y ∈ t.toList, keyOf s y = keyOf s node := by
  simp only [HasKey, h.inTree_iff]

end

/-- Every operation returns, and does to the tree what it should. -/
theorem Holds.step (h : Holds s t) {op : Op Addr Dev} (hop : op.Valid s) :
    ∃ s' r, op.Returns s s' r ∧ op.Meets s s' r ∧ ∃ u, Holds s' u := by
  cases op with
  | insert node =>
    have hroom := (heightAtMost_iff h.rooted).mp hop
    rcases h.insert (Nat.le_refl _) hroom node with ⟨hnone, s', hs', hr⟩ | ⟨u, hu, s', hs', h', hw⟩
    · have hkey := h.hasKey_iff.mpr ((Avl.insert_eq_none h.sorted).mp hnone)
      exact ⟨s', -1, ⟨_, hs'⟩, ⟨hr.dd, hr.block, .inl ⟨rfl, hkey, hr.sameTree⟩⟩, t, h.remarked hr⟩
    · have hkey : ¬ HasKey s node := by
        rw [h.hasKey_iff, ← Avl.insert_eq_none h.sorted, hu]
        exact nofun
      obtain ⟨xs, ys, htl, hul, -, -⟩ := Avl.toList_insert h.sorted hu
      refine ⟨s', 0, ⟨_, hs'⟩, ⟨hw.dd, hw.block, .inr ⟨rfl, hkey, fun z => ?_⟩⟩, u, h'⟩
      rw [h'.inTree_iff, h.inTree_iff, hul, htl]
      simp only [List.mem_append, List.mem_cons]
      exact or_left_comm
  | remove node =>
    have hroom := (heightAtMost_iff h.rooted).mp hop
    rcases h.remove (Nat.le_refl _) hroom node with ⟨hnone, s', hs', hr⟩ | ⟨u, hu, s', hs', h', hw⟩
    · have hkey : ¬ HasKey s node := by
        rw [h.hasKey_iff]
        rintro ⟨y, hy, hk⟩
        exact (Avl.remove_eq_none h.sorted).mp hnone y hy hk
      exact ⟨s', -1, ⟨_, hs'⟩, ⟨hr.dd, hr.block, .inl ⟨rfl, hkey, hr.sameTree⟩⟩, t, h.remarked hr⟩
    · obtain ⟨xs, y, ys, hk, htl, hul⟩ := Avl.toList_remove hu
      have hnd := h.nodup
      rw [htl] at hnd
      obtain ⟨-, hyys, hdisj⟩ := List.nodup_append.mp hnd
      have hy : y ∈ t.toList := htl ▸ List.mem_append_right _ List.mem_cons_self
      refine ⟨s', 0, ⟨_, hs'⟩, ⟨hw.dd, hw.block, .inr ⟨rfl, y, h.inTree_iff.mpr hy, hk,
        fun z => ?_⟩⟩, u, h'⟩
      rw [h'.inTree_iff, h.inTree_iff, hul, htl]
      simp only [List.mem_append, List.mem_cons]
      constructor
      · rintro (hz | hz)
        · exact ⟨.inl hz, hdisj z hz y List.mem_cons_self⟩
        · exact ⟨.inr (.inr hz), fun he => (List.nodup_cons.mp hyys).1 (he ▸ hz)⟩
      · rintro ⟨hz | rfl | hz, hne⟩
        · exact .inl hz
        · exact absurd rfl hne
        · exact .inr hz
  | assign node dd block =>
    have hnew : node ∉ t.toList := fun hx => hop (h.inTree_iff.mpr hx)
    refine ⟨_, 0, ⟨0, rfl⟩, ⟨rfl, rfl, rfl, rfl⟩, t, ?_, h.nodup, h.balanced, ?_⟩
    · exact h.rooted.congr fun z _ => ⟨fun _ => rfl, rfl⟩
    · refine h.sorted.imp_of_mem fun {a b} ha hb hab => ?_
      have hna : a ≠ node := fun he => hnew (he ▸ ha)
      have hnb : b ≠ node := fun he => hnew (he ▸ hb)
      simpa only [keyOf, if_neg hna, if_neg hnb] using hab

/-! ## Runs -/

/-- A run of operations from the empty tree. -/
inductive Runs (s₀ : Nodes Addr Dev) : List (Op Addr Dev) → Nodes Addr Dev → Prop where
  | nil : Runs s₀ [] (s₀.setRoot none)
  | snoc {ops : List (Op Addr Dev)} {s s' : Nodes Addr Dev} {op : Op Addr Dev} {r : ℤ}
      (h : Runs s₀ ops s) (hop : op.Valid s) (hr : op.Returns s s' r) : Runs s₀ (ops ++ [op]) s'

theorem Runs.holds {ops : List (Op Addr Dev)} (h : Runs s₀ ops s) : ∃ t, Holds s t := by
  induction h with
  | nil => exact ⟨.leaf, rfl, .nil, trivial, .nil⟩
  | snoc h hop hr ih =>
    obtain ⟨t, ht⟩ := ih
    obtain ⟨s'', r', hr', -, hu⟩ := ht.step hop
    obtain ⟨rfl, rfl⟩ := hr.unique hr'
    exact hu

/-- **Correctness of the tree of descriptors**: after every run there is an AVL tree ordered by device
and block, every further operation returns and does to the tree what it should, and the search finds a
descriptor if and only if it is in the tree. -/
theorem avl_correct {ops : List (Op Addr Dev)} (h : Runs s₀ ops s) :
    (∃ t, IsAvl s s.root t ∧ ∀ x, InTree s x ↔ x ∈ t.toList) ∧
    (∀ op : Op Addr Dev, op.Valid s → (∃ s' r, op.Returns s s' r) ∧
      ∀ s' r, op.Returns s s' r → op.Meets s s' r) ∧
    ∀ (dd : Dev) (block : ℕ), (∃ r, SearchReturns s dd block r) ∧
      ∀ r, SearchReturns s dd block r →
        ∀ x, r = some x ↔ InTree s x ∧ s.dd x = dd ∧ s.block x = block := by
  obtain ⟨t, ht⟩ := h.holds
  refine ⟨⟨t, isAvl_of_rooted ht.rooted ht.balanced ht.sorted, fun x => ht.inTree_iff⟩,
    fun op hop => ?_, fun dd block => ?_⟩
  · obtain ⟨s', r, hr, hm, -⟩ := ht.step hop
    refine ⟨⟨s', r, hr⟩, fun s'' r'' hr'' => ?_⟩
    obtain ⟨rfl, rfl⟩ := hr.unique hr''
    exact hm
  · have hs : SearchReturns s dd block (Avl.search (keyOf s) (toLex (dd, block)) t) :=
      ⟨_, ht.search (Nat.le_refl _) dd block⟩
    refine ⟨⟨_, hs⟩, fun r hr x => ?_⟩
    rw [hr.unique hs, Avl.search_eq_some ht.sorted, ht.inTree_iff, keyOf, toLex_inj, Prod.mk.injEq]

/-- A run goes on with a node that is put into the tree. -/
theorem Runs.insert {ops : List (Op Addr Dev)} {key : Addr → Dev ×ₗ ℕ} (node : Addr)
    (h : Runs s₀ ops s) (ht : Holds s t ∧ keyOf s = key)
    (hh : t.height ≤ avlMaxHeight)
    (hu : Avl.insert key node t = some u) :
    ∃ s', Runs s₀ (ops ++ [.insert node]) s' ∧ Holds s' u ∧ keyOf s' = key := by
  obtain ⟨ht, rfl⟩ := ht
  rcases ht.insert (Nat.le_refl _) hh node with ⟨hnone, -⟩ | ⟨v, hv, s', hs', h', hw⟩
  · rw [hu] at hnone
    cases hnone
  · obtain rfl := Option.some.inj (hu.symm.trans hv)
    exact ⟨s', h.snoc ((heightAtMost_iff ht.rooted).mpr hh) ⟨_, hs'⟩, h', keyOf_congr hw.dd hw.block⟩

/-- A run goes on with a node that is taken out of the tree. -/
theorem Runs.remove {ops : List (Op Addr Dev)} {key : Addr → Dev ×ₗ ℕ} (node : Addr)
    (h : Runs s₀ ops s) (ht : Holds s t ∧ keyOf s = key)
    (hh : t.height ≤ avlMaxHeight)
    (hu : Avl.remove key (key node) t = some u) :
    ∃ s', Runs s₀ (ops ++ [.remove node]) s' ∧ Holds s' u ∧ keyOf s' = key := by
  obtain ⟨ht, rfl⟩ := ht
  rcases ht.remove (Nat.le_refl _) hh node with ⟨hnone, -⟩ | ⟨v, hv, s', hs', h', hw⟩
  · rw [hu] at hnone
    cases hnone
  · obtain rfl := Option.some.inj (hu.symm.trans hv)
    exact ⟨s', h.snoc ((heightAtMost_iff ht.rooted).mpr hh) ⟨_, hs'⟩, h', keyOf_congr hw.dd hw.block⟩

/-- Descriptors of the blocks 0 to 9 of devices at the addresses 0, 1 and so on. -/
def exampleNodes : Nodes ℕ ℕ where
  dd x := x / 10
  block x := x % 10
  child _ _ := none
  cache _ := 0
  bal _ := 0
  root := none

/-- Three descriptors, put in with a turn; the one in the middle is removed again. -/
theorem avl_correct_three :
    ∃ s : Nodes ℕ ℕ, Runs exampleNodes [.insert 21, .insert 11, .insert 12, .remove 12] s ∧
      s.root = some 21 ∧
      (∃ t, IsAvl s s.root t ∧ ∀ x, InTree s x ↔ x ∈ t.toList) ∧
      (∀ op : Op ℕ ℕ, op.Valid s → (∃ s' r, op.Returns s s' r) ∧
        ∀ s' r, op.Returns s s' r → op.Meets s s' r) ∧
      ∀ (dd : ℕ) (block : ℕ), (∃ r, SearchReturns s dd block r) ∧
        ∀ r, SearchReturns s dd block r →
          ∀ x, r = some x ↔ InTree s x ∧ s.dd x = dd ∧ s.block x = block := by
  have hr₀ : Runs exampleNodes [] _ := .nil
  have h₀ : Holds (exampleNodes.setRoot none) (.leaf : Avl.Tree ℕ) := ⟨rfl, .nil, trivial, .nil⟩
  obtain ⟨s₁, hr₁, h₁⟩ := hr₀.insert 21 ⟨h₀, rfl⟩ (by decide) rfl
  obtain ⟨s₂, hr₂, h₂⟩ := hr₁.insert 11 h₁ (by decide) rfl
  obtain ⟨s₃, hr₃, h₃⟩ := hr₂.insert 12 h₂ (by decide) rfl
  obtain ⟨s₄, hr₄, h₄⟩ := hr₃.remove 12 h₃ (by decide) rfl
  exact ⟨s₄, hr₄, h₄.1.rooted.root, avl_correct hr₄⟩

end Rtems.Bdbuf
