import Rtems.Bdbuf.AvlTurns

/-!
# Operations on the tree of descriptors

Search, insertion and removal do on the memory what the operations of the library do on trees, as long as
the tree is not higher than the stack is long.
-/

namespace Rtems.Bdbuf

open Lib (Direction)
open Avl (Step)
open Avl.Tree (branch Balanced Leans)

variable {Addr Dev : Type} [DecidableEq Addr] [LinearOrder Dev] {s s' s₁ s₂ : Nodes Addr Dev}
  {q : Option Addr} {x p z node : Addr} {d e : Direction} {tilt : Option Direction}
  {t u near far : Avl.Tree Addr} {fs gs : Avl.Path Addr} {n fuel : ℕ} {dd : Dev} {block : ℕ}

/-! ## Keys -/

/-- The key of a node: the address of the device, then the block. -/
def keyOf (s : Nodes Addr Dev) (x : Addr) : Dev ×ₗ ℕ := toLex (s.dd x, s.block x)

section

omit [DecidableEq Addr]

theorem below_iff : Below s p dd block ↔ keyOf s p < toLex (dd, block) := by
  rw [keyOf, Prod.Lex.toLex_lt_toLex]
  rfl

end

section

omit [DecidableEq Addr] [LinearOrder Dev]

theorem differs_iff : Differs s p dd block ↔ keyOf s p ≠ toLex (dd, block) := by
  have heq : keyOf s p = toLex (dd, block) ↔ s.dd p = dd ∧ s.block p = block := by
    rw [keyOf, toLex_inj, Prod.mk.injEq]
  rw [ne_eq, heq, not_and_or]
  rfl

theorem keyOf_congr (hdd : s'.dd = s.dd) (hblock : s'.block = s.block) : keyOf s' = keyOf s := by
  funext x
  rw [keyOf, keyOf, hdd, hblock]

end

/-! ## Going down -/

section

omit [DecidableEq Addr]

theorem searchLoop_eq (ht : Rooted s q t) (hfuel : t.height ≤ fuel) (fs : Avl.Path Addr) :
    searchLoop s dd block fuel q =
      some (Avl.descend (keyOf s) (toLex (dd, block)) t fs).2.root? := by
  induction t generalizing q fuel fs with
  | leaf =>
    rw [show q = none from ht]
    cases fuel <;> rfl
  | node tilt l x r ihl ihr =>
    obtain ⟨rfl, -, hl, hr⟩ := ht
    cases fuel with
    | zero => exact absurd hfuel (Nat.not_succ_le_zero _)
    | succ fuel =>
      have hfuel' : max l.height r.height ≤ fuel := Nat.le_of_succ_le_succ hfuel
      rw [searchLoop, Avl.descend]
      by_cases hx : keyOf s x < toLex (dd, block)
      · rw [if_pos (differs_iff.mpr hx.ne), if_pos (below_iff.mpr hx), if_pos hx]
        exact ihr hr ((Nat.le_max_right _ _).trans hfuel') _
      · by_cases hk : keyOf s x = toLex (dd, block)
        · rw [if_neg (fun h => differs_iff.mp h hk), if_neg hx, if_pos hk]
          rfl
        · rw [if_pos (differs_iff.mpr hk), if_neg (fun h => hx (below_iff.mp h)), if_neg hx,
            if_neg hk]
          exact ihl hl ((Nat.le_max_left _ _).trans hfuel') _

end

/-- Only marks are changed, and only at some nodes. -/
structure Remarked (s s' : Nodes Addr Dev) (zs : List Addr) : Prop where
  cache : ∀ z, z ∉ zs → s'.cache z = s.cache z
  child : s'.child = s.child
  bal : s'.bal = s.bal
  root : s'.root = s.root
  dd : s'.dd = s.dd
  block : s'.block = s.block

section

omit [DecidableEq Addr] [LinearOrder Dev]

theorem Remarked.refl (s : Nodes Addr Dev) (zs : List Addr) : Remarked s s zs :=
  ⟨fun _ _ => rfl, rfl, rfl, rfl, rfl, rfl⟩

end

section

omit [LinearOrder Dev]

theorem Remarked.mark {c : ℤ} {zs : List Addr} (h : Remarked (s.setCache x c) s' zs) :
    Remarked s s' (x :: zs) := by
  refine ⟨fun z hz => ?_, h.child, h.bal, h.root, h.dd, h.block⟩
  have hne : z ≠ x := fun he => hz (he ▸ List.mem_cons_self)
  rw [h.cache z fun hz' => hz (List.mem_cons_of_mem _ hz')]
  exact if_neg hne

end

section

omit [DecidableEq Addr] [LinearOrder Dev]

theorem Remarked.mono {zs ws : List Addr} (h : Remarked s s' zs) (hsub : ∀ z ∈ zs, z ∈ ws) :
    Remarked s s' ws :=
  ⟨fun z hz => h.cache z fun hz' => hz (hsub z hz'), h.child, h.bal, h.root, h.dd, h.block⟩

theorem Remarked.within {zs : List Addr} (h : Remarked s s' zs) : Within s s' zs :=
  ⟨fun z hz => ⟨fun e => by rw [h.child], by rw [h.bal], h.cache z hz⟩, h.dd, h.block⟩

theorem Remarked.rooted {zs : List Addr} (h : Remarked s s' zs) (ht : Rooted s q t) : Rooted s' q t :=
  ht.congr fun z _ => ⟨fun e => by rw [h.child], by rw [h.bal]⟩

end

section

omit [LinearOrder Dev]

/-- A step down marks the node and leads into a subtree. -/
theorem Surrounds.step (d : Direction) (near far : Avl.Tree Addr) (hfs : Surrounds s fs (some x))
    (ht : Rooted s (some x) (branch d tilt x near far))
    (hnd : (Avl.Path.fill fs (branch d tilt x near far)).toList.Nodup) :
    Surrounds (s.setCache x (side d)) (⟨d, tilt, x, far⟩ :: fs) (s.child x d) ∧
      Rooted (s.setCache x (side d)) (s.child x d) near := by
  obtain ⟨-, hb, hn, hf⟩ := rooted_branch.mp ht
  obtain ⟨-, -, hdisj⟩ := nodup_fill.mp hnd
  refine ⟨⟨rfl, if_pos rfl, hb, hf.congr fun _ _ => ⟨fun _ => rfl, rfl⟩, ?_⟩,
    hn.congr fun _ _ => ⟨fun _ => rfl, rfl⟩⟩
  refine hfs.congr rfl fun z hz => ⟨fun _ => rfl, rfl, if_neg fun he => ?_⟩
  exact hdisj x (Avl.Tree.mem_toList_branch.mpr (.inl rfl)) (he ▸ hz)

end

section

omit [DecidableEq Addr]

theorem push_stackOf (h : fs.length + 1 ≤ avlMaxHeight) : push x (stackOf fs) = some (x :: stackOf fs) :=
  if_pos (by rwa [List.length_map])

end

theorem removeDescend_eq (fs : Avl.Path Addr) (hfs : Surrounds s fs q) (ht : Rooted s q t)
    (hnd : (Avl.Path.fill fs t).toList.Nodup) (hfuel : t.height ≤ fuel)
    (hroom : fs.length + t.height ≤ avlMaxHeight) {k : Dev ×ₗ ℕ} (hk : k = toLex (dd, block)) :
    ∃ s', removeDescend dd block fuel s q (stackOf fs) =
        some (s', (Avl.descend (keyOf s) k t fs).2.root?.map
          (·, stackOf (Avl.descend (keyOf s) k t fs).1)) ∧
      Surrounds s' (Avl.descend (keyOf s) k t fs).1 (Avl.descend (keyOf s) k t fs).2.root? ∧
      Rooted s' (Avl.descend (keyOf s) k t fs).2.root? (Avl.descend (keyOf s) k t fs).2 ∧
      Remarked s s' t.toList := by
  subst hk
  induction t generalizing s q fuel fs with
  | leaf =>
    rw [show q = none from ht] at hfs ⊢
    exact ⟨s, by cases fuel <;> rfl, hfs, rfl, .refl s _⟩
  | node tilt l x r ihl ihr =>
    obtain rfl := ht.root
    cases fuel with
    | zero => exact absurd hfuel (Nat.not_succ_le_zero _)
    | succ fuel =>
      have hfuel' : max l.height r.height ≤ fuel := Nat.le_of_succ_le_succ hfuel
      have hroom' : fs.length + (max l.height r.height + 1) ≤ avlMaxHeight := hroom
      have hpush : push x (stackOf fs) = some (x :: stackOf fs) := push_stackOf (by omega)
      simp only [Avl.Tree.root?, removeDescend, hpush, Option.bind_eq_bind, Option.bind_some,
        Avl.descend]
      by_cases hx : keyOf s x < toLex (dd, block)
      · rw [if_pos (below_iff.mpr hx), if_pos hx]
        obtain ⟨hsur, hr⟩ := hfs.step .right r l ht hnd
        obtain ⟨s', h₁, h₂, h₃, h₄⟩ := ihr _ hsur hr hnd
          ((Nat.le_max_right _ _).trans hfuel') (by simp only [List.length_cons]; omega)
        refine ⟨s', h₁, h₂, h₃, h₄.mark.mono fun z hz => ?_⟩
        exact List.mem_append_right _ hz
      · rw [if_neg (fun h => hx (below_iff.mp h)), if_neg hx]
        by_cases hk : keyOf s x = toLex (dd, block)
        · rw [if_neg (fun h => differs_iff.mp h hk), if_pos hk]
          exact ⟨s, rfl, hfs, ht, .refl s _⟩
        · rw [if_pos (differs_iff.mpr hk), if_neg hk]
          obtain ⟨hsur, hl⟩ := hfs.step .left l r ht hnd
          obtain ⟨s', h₁, h₂, h₃, h₄⟩ := ihl _ hsur hl hnd
            ((Nat.le_max_left _ _).trans hfuel') (by simp only [List.length_cons]; omega)
          refine ⟨s', h₁, h₂, h₃, h₄.mark.mono fun z hz => ?_⟩
          rcases List.mem_cons.mp hz with rfl | hz
          · exact List.mem_append_right _ List.mem_cons_self
          · exact List.mem_append_left _ hz

theorem insertDescend_eq (node : Addr) (fs : Avl.Path Addr) (hfs : Surrounds s fs (some p)) (ht : Rooted s (some p) t)
    (hnd : (Avl.Path.fill fs t).toList.Nodup) (hfuel : t.height ≤ fuel)
    (hroom : fs.length + t.height ≤ avlMaxHeight) :
    ∃ s', insertDescend node fuel s p (stackOf fs) =
        (match Avl.descend (keyOf s) (keyOf s node) t fs with
        | (gs, .leaf) => some (link s' (stackOf gs) (some node), some (stackOf gs))
        | (_, .node _ _ _ _) => some (s', none)) ∧
      Surrounds s' (Avl.descend (keyOf s) (keyOf s node) t fs).1
        (Avl.descend (keyOf s) (keyOf s node) t fs).2.root? ∧
      Remarked s s' t.toList := by
  induction t generalizing s p fuel fs with
  | leaf => cases ht
  | node tilt l x r ihl ihr =>
    obtain rfl := Option.some.inj ht.root
    cases fuel with
    | zero => exact absurd hfuel (Nat.not_succ_le_zero _)
    | succ fuel =>
      have hfuel' : max l.height r.height ≤ fuel := Nat.le_of_succ_le_succ hfuel
      have hroom' : fs.length + (max l.height r.height + 1) ≤ avlMaxHeight := hroom
      have hpush : push p (stackOf fs) = some (p :: stackOf fs) := push_stackOf (by omega)
      simp only [insertDescend, hpush, Option.bind_eq_bind, Option.bind_some, Avl.descend]
      have hp : p ∈ (Avl.Tree.node tilt l p r).toList := List.mem_append_right _ List.mem_cons_self
      have hmark : ∀ c, Remarked s (s.setCache p c) (Avl.Tree.node tilt l p r).toList := fun c =>
        (Remarked.refl _ []).mark.mono fun z hz => List.mem_singleton.mp hz ▸ hp
      by_cases hx : keyOf s p < keyOf s node
      · rw [if_pos (below_iff.mpr hx), if_pos hx]
        obtain ⟨hsur, hr⟩ := hfs.step .right r l ht hnd
        cases r with
        | leaf =>
          have hchild : (s.setCache p 1).child p .right = none := ht.2.2.2.root
          rw [show s.child p .right = none from hchild] at hsur
          refine ⟨s.setCache p (side .right), ?_, hsur, hmark _⟩
          rw [hchild]
          have hd : heading (s.setCache p (side .right)) p = .right :=
            heading_of_cache (if_pos rfl)
          simp only [Avl.descend, link, stackOf, List.map_cons, hd]
          rfl
        | node tilt' l' x' r' =>
          have hchild : (s.setCache p 1).child p .right = some x' := ht.2.2.2.root
          rw [show s.child p .right = some x' from hchild] at hsur hr
          obtain ⟨s', h₁, h₂, h₃⟩ := ihr _ hsur hr hnd
            ((Nat.le_max_right _ _).trans hfuel') (by simp only [List.length_cons]; omega)
          rw [hchild]
          refine ⟨s', h₁, h₂, h₃.mark.mono fun z hz => ?_⟩
          exact List.mem_append_right _ hz
      · rw [if_neg (fun h => hx (below_iff.mp h)), if_neg hx]
        by_cases hk : keyOf s p = keyOf s node
        · rw [if_neg (fun h => differs_iff.mp h hk), if_pos hk]
          exact ⟨s, rfl, hfs, .refl s _⟩
        · rw [if_pos (differs_iff.mpr hk), if_neg hk]
          obtain ⟨hsur, hl⟩ := hfs.step .left l r ht hnd
          cases l with
          | leaf =>
            have hchild : (s.setCache p (-1)).child p .left = none := ht.2.2.1.root
            rw [show s.child p .left = none from hchild] at hsur
            refine ⟨s.setCache p (side .left), ?_, hsur, hmark _⟩
            rw [hchild]
            have hd : heading (s.setCache p (side .left)) p = .left :=
              heading_of_cache (if_pos rfl)
            simp only [Avl.descend, link, stackOf, List.map_cons, hd]
            rfl
          | node tilt' l' x' r' =>
            have hchild : (s.setCache p (-1)).child p .left = some x' := ht.2.2.1.root
            rw [show s.child p .left = some x' from hchild] at hsur hl
            obtain ⟨s', h₁, h₂, h₃⟩ := ihl _ hsur hl hnd
              ((Nat.le_max_left _ _).trans hfuel') (by simp only [List.length_cons]; omega)
            rw [hchild]
            refine ⟨s', h₁, h₂, h₃.mark.mono fun z hz => ?_⟩
            rcases List.mem_cons.mp hz with rfl | hz
            · exact hp
            · exact List.mem_append_left _ hz

/-! ## Search and insertion -/

/-- The nodes hold an AVL tree of descriptors. -/
structure Holds (s : Nodes Addr Dev) (t : Avl.Tree Addr) : Prop where
  rooted : Rooted s s.root t
  nodup : t.toList.Nodup
  balanced : Balanced t
  sorted : Avl.Sorted (keyOf s) t

section

omit [DecidableEq Addr]

theorem Holds.search (h : Holds s t) (hfuel : t.height ≤ fuel) (dd : Dev) (block : ℕ) :
    avlSearch fuel s dd block = some (Avl.search (keyOf s) (toLex (dd, block)) t) :=
  searchLoop_eq h.rooted hfuel []

end

section

omit [LinearOrder Dev]

theorem within_clear (s : Nodes Addr Dev) (node : Addr) : Within s (clear s node) [node] := by
  refine ⟨fun z hz => ⟨fun e => ?_, ?_, rfl⟩, rfl, rfl⟩
  · simp [clear, List.mem_singleton.not.mp hz]
  · simp [clear, List.mem_singleton.not.mp hz]

theorem rooted_clear (s : Nodes Addr Dev) (node : Addr) :
    Rooted (clear s node) (some node) (.node none .leaf node .leaf) := by
  refine ⟨rfl, ?_, ?_, ?_⟩
  · simp [clear]
  · simp [clear, Rooted]
  · simp [clear, Rooted]

end

theorem avlInsert_of_found (hroot : s.root = some p)
    (h : insertDescend node fuel s p [] = some (s₁, none)) :
    avlInsert fuel s node = some (s₁, -1) := by
  simp only [avlInsert, hroot, h, Option.bind_eq_bind, Option.bind_some]

theorem avlInsert_of_place {stack : List Addr} (hroot : s.root = some p)
    (h : insertDescend node fuel s p [] = some (s₁, some stack))
    (hr : rebalance insertTurn (clear s₁ node) stack = some s₂) :
    avlInsert fuel s node = some (s₂, 0) := by
  simp only [avlInsert, hroot, h, hr, Option.bind_eq_bind, Option.bind_some]

/-- A node whose key is in the tree is refused, any other one is put into the tree. -/
theorem Holds.insert (h : Holds s t) (hfuel : t.height ≤ fuel) (hroom : t.height ≤ avlMaxHeight)
    (node : Addr) :
    (Avl.insert (keyOf s) node t = none ∧
      ∃ s', avlInsert fuel s node = some (s', -1) ∧ Remarked s s' t.toList) ∨
    ∃ u, Avl.insert (keyOf s) node t = some u ∧
      ∃ s', avlInsert fuel s node = some (s', 0) ∧ Holds s' u ∧ Within s s' (node :: t.toList) := by
  -- it is enough to have the pointers of the new tree
  have hdone : ∀ u s', Avl.insert (keyOf s) node t = some u → Rooted s' s'.root u →
      Within s s' (node :: t.toList) → Holds s' u := by
    intro u s' hu hr hw
    have hsorted := h.sorted.insert hu
    refine ⟨hr, ?_, Avl.insert_balanced h.balanced hu, ?_⟩
    · exact hsorted.imp fun {a b} hab he => (he ▸ hab).ne rfl
    · rwa [keyOf_congr hw.dd hw.block]
  cases t with
  | leaf =>
    right
    have hins : Avl.insert (keyOf s) node .leaf = some (.node none .leaf node .leaf) := rfl
    have hroot : s.root = none := h.rooted
    have hw : Within s (clear (s.setRoot (some node)) node) (node :: Avl.Tree.toList .leaf) :=
      (show Within s (s.setRoot (some node)) [node] from
        ⟨fun z _ => ⟨fun _ => rfl, rfl, rfl⟩, rfl, rfl⟩).trans (within_clear _ node)
    have hr : Rooted (clear (s.setRoot (some node)) node) (some node) _ := rooted_clear _ _
    exact ⟨_, hins, _, by rw [avlInsert, hroot], hdone _ _ hins hr hw, hw⟩
  | node tilt l p r =>
    have hroot : s.root = some p := h.rooted.1
    have hfill := Avl.descend_fill (keyOf s) (keyOf s node) (.node tilt l p r) []
    obtain ⟨s₀, h₁, h₂, h₃⟩ := insertDescend_eq node []
      (show Surrounds s [] (some p) from hroot) (hroot ▸ h.rooted) h.nodup hfuel
      ((Nat.zero_add _).trans_le hroom)
    rcases hd : Avl.descend (keyOf s) (keyOf s node) (.node tilt l p r) [] with ⟨gs, u⟩
    rw [hd] at h₁ h₂ hfill
    cases u with
    | node tilt' l' y r' =>
      left
      exact ⟨by rw [Avl.insert, hd], s₀, avlInsert_of_found hroot h₁, h₃⟩
    | leaf =>
      right
      have hu : Avl.insert (keyOf s) node (.node tilt l p r) =
          some (Avl.Path.mend Avl.grow gs (.node none .leaf node .leaf)) := by rw [Avl.insert, hd]
      have hnew : node ∉ (Avl.Tree.node tilt l p r).toList := by
        intro hmem
        have hnone := (Avl.insert_eq_none h.sorted).mpr ⟨node, hmem, rfl⟩
        rw [hu] at hnone
        cases hnone
      have htl : ∀ z, z ∈ (Avl.Tree.node tilt l p r).toList ↔ z ∈ Avl.Path.nodes gs := by
        intro z
        rw [show Avl.Tree.node tilt l p r = Avl.Path.fill gs .leaf from hfill.symm, mem_fill]
        simp
      have hnd : (Avl.Path.nodes gs).Nodup := by
        have := h.nodup
        rw [show Avl.Tree.node tilt l p r = Avl.Path.fill gs .leaf from hfill.symm] at this
        exact (nodup_fill.mp this).2.1
      have hb : Avl.Path.Balanced gs 0 := by
        have := h.balanced
        rw [show Avl.Tree.node tilt l p r = Avl.Path.fill gs .leaf from hfill.symm] at this
        exact (Avl.Path.balanced_fill.mp this).2
      have hsur : Surrounds (clear (link s₀ (stackOf gs) (some node)) node) gs (some node) := by
        refine (h₂.link hnd).congr rfl fun z hz => (within_clear _ node).same z fun hz' => ?_
        exact hnew ((htl node).mpr (List.mem_singleton.mp hz' ▸ hz))
      have hnodup : (Avl.Path.fill gs (.node none .leaf node .leaf)).toList.Nodup := by
        refine nodup_fill.mpr ⟨by simp, hnd, fun z hz hz' => ?_⟩
        have hzn : z = node := by simpa using hz
        exact hnew ((htl node).mpr (hzn ▸ hz'))
      obtain ⟨s', h₄, h₅, h₆⟩ := rebalance_grow hsur (rooted_clear _ node) hnodup
        (n := 0) ⟨Avl.Tree.leans_none.mpr rfl, trivial, trivial⟩ rfl hb (.inr rfl)
      have hw : Within s s' (node :: (Avl.Tree.node tilt l p r).toList) := by
        refine (((h₃.within.mono fun z hz => List.mem_cons_of_mem _ hz).trans
          (within_link fun z hz => ?_)).trans ((within_clear _ node).mono fun z hz => ?_)).trans
          (h₆.mono fun z hz => ?_)
        · exact List.mem_cons_of_mem _ ((htl z).mpr (mem_nodes_of_stack hz))
        · exact List.mem_singleton.mp hz ▸ List.mem_cons_self
        · rcases mem_fill.mp hz with hz | hz
          · have hzn : z = node := by simpa using hz
            exact hzn ▸ List.mem_cons_self
          · exact List.mem_cons_of_mem _ ((htl z).mpr hz)
      exact ⟨_, hu, s', avlInsert_of_place hroot h₁ h₄, hdone _ _ hu h₅ hw, hw⟩

/-! ## Removal -/

section

omit [LinearOrder Dev]

/-- The loop to the leftmost node goes along the left spine of a subtree. -/
theorem removeSpine_eq {l r : Avl.Tree Addr} {top : Option Addr} (base : ℕ) (gs : Avl.Path Addr) (w : Addr)
    (above : List Addr)
    (hgs : Leads s gs (some x) top) (ht : Rooted s (some x) (.node tilt l x r))
    (hnd : (Avl.Path.fill gs (.node tilt l x r)).toList.Nodup) (habove : above = stackOf gs)
    (hw : gs = [] → l ≠ .leaf) (hhead : ∀ f fs, gs = f :: fs → w = f.node ∧ f.dir = .left)
    (hfuel : l.height + 1 ≤ fuel) (hroom : gs.length + l.height + base ≤ avlMaxHeight) :
    ∃ s' f fs, removeSpine base fuel s w x above =
        some (s', f.node, (Avl.leftmost tilt x r l gs).2.2.1, stackOf (Avl.leftmost tilt x r l gs).1) ∧
      (Avl.leftmost tilt x r l gs).1 = f :: fs ∧ f.dir = .left ∧
      Leads s' (f :: fs) (some (Avl.leftmost tilt x r l gs).2.2.1) top ∧
      Rooted s' (some (Avl.leftmost tilt x r l gs).2.2.1)
        (.node (Avl.leftmost tilt x r l gs).2.1 .leaf (Avl.leftmost tilt x r l gs).2.2.1
          (Avl.leftmost tilt x r l gs).2.2.2) ∧
      Remarked s s' (Avl.Tree.node tilt l x r).toList := by
  induction l generalizing s gs tilt x r fuel above w with
  | leaf =>
    cases gs with
    | nil => exact absurd rfl (hw rfl)
    | cons f fs =>
      cases fuel with
      | zero => exact absurd hfuel (Nat.not_succ_le_zero _)
      | succ fuel =>
        obtain ⟨rfl, hdir⟩ := hhead f fs rfl
        have hchild : s.child x .left = none := ht.2.2.1
        subst habove
        exact ⟨s, f, fs, by simp only [removeSpine, hchild, Avl.leftmost], rfl, hdir, hgs, ht,
          .refl s _⟩
  | node tilt' l' x' r' ihl ihr =>
    cases fuel with
    | zero => exact absurd hfuel (Nat.not_succ_le_zero _)
    | succ fuel =>
      have hchild : s.child x .left = some x' := ht.2.2.1.root
      have hh : l'.height + 1 ≤ (Avl.Tree.node tilt' l' x' r').height :=
        Nat.succ_le_succ (Nat.le_max_left _ _)
      obtain ⟨-, -, hdisj⟩ := nodup_fill.mp hnd
      have hxl : x ∈ (Avl.Tree.node tilt (.node tilt' l' x' r') x r).toList :=
        List.mem_append_right _ List.mem_cons_self
      have hsame : ∀ z, z ≠ x → SameNode s (s.setCache x (-1)) z := fun z hz =>
        ⟨fun _ => rfl, rfl, if_neg hz⟩
      have hgs' : Leads (s.setCache x (-1)) (⟨.left, tilt, x, r⟩ :: gs) (some x') top := by
        refine ⟨hchild, if_pos rfl, ht.2.1, ht.2.2.2.congr fun _ _ => ⟨fun _ => rfl, rfl⟩,
          hgs.congr fun z hz => hsame z fun he => hdisj x hxl (he ▸ hz)⟩
      have ht' : Rooted (s.setCache x (-1)) (some x') (.node tilt' l' x' r') := by
        have hl := ht.2.2.1
        rw [hchild] at hl
        exact hl.congr fun _ _ => ⟨fun _ => rfl, rfl⟩
      obtain ⟨s', f, fs, h₁, h₂, h₃, h₄, h₅, h₆⟩ := ihl (⟨.left, tilt, x, r⟩ :: gs) x (x :: above) hgs' ht' hnd
        (by rw [habove]; rfl) nofun (fun f fs he => by cases he; exact ⟨rfl, rfl⟩)
        (show l'.height + 1 ≤ fuel by omega) (by simp only [List.length_cons]; omega)
      refine ⟨s', f, fs, ?_, h₂, h₃, h₄, h₅, h₆.mark.mono fun z hz => ?_⟩
      · have hlen : above.length + base < avlMaxHeight := by
          rw [habove, List.length_map]
          omega
        rw [removeSpine, hchild]
        exact (if_pos hlen).trans h₁
      · rcases List.mem_cons.mp hz with rfl | hz
        · exact hxl
        · exact List.mem_append_left _ hz

/-- The successor stands in the place of a node, with the way to what is left of the right subtree. -/
structure Spliced (s : Nodes Addr Dev) (fs gs : Avl.Path Addr) (tilt : Option Direction) (q m : Addr)
    (l r : Avl.Tree Addr) : Prop where
  above : Surrounds s fs (some q)
  below : Leads s gs r.root? (s.child m .right)
  cache : s.cache m = 1
  bal : s.bal m = tiltBal tilt
  rootedLeft : Rooted s (s.child m .left) l
  rooted : Rooted s r.root? r
  nodup : (Avl.Path.fill (gs ++ ⟨.right, tilt, m, l⟩ :: fs) r).toList.Nodup

theorem Spliced.link {m y : Addr} {l r : Avl.Tree Addr} (h : Spliced s fs gs tilt y m l r) :
    Surrounds (Bdbuf.link s (stackOf fs) (some m)) (gs ++ ⟨.right, tilt, m, l⟩ :: fs) r.root? ∧
      Rooted (Bdbuf.link s (stackOf fs) (some m)) r.root? r := by
  have hnd := h.nodup
  simp only [nodup_fill, Avl.Path.nodes_append, Avl.Path.nodes, List.nodup_append, List.nodup_cons,
    List.mem_append, List.mem_cons, not_or] at hnd
  obtain ⟨-, ⟨-, ⟨⟨hml, hmf⟩, -, hf, hlf⟩, hgf⟩, hr⟩ := hnd
  have hsame : ∀ z, z ∉ Avl.Path.nodes fs → SameNode s (Bdbuf.link s (stackOf fs) (some m)) z := fun z hz =>
    sameNode_link fun hz' => hz (mem_nodes_of_stack hz')
  have hm := hsame m hmf
  have hbelow : Leads (Bdbuf.link s (stackOf fs) (some m)) gs r.root?
      ((Bdbuf.link s (stackOf fs) (some m)).child m .right) := by
    rw [hm.child]
    refine h.below.congr fun z hz => hsame z fun hz' => ?_
    exact hgf z hz z (.inr (.inr hz')) rfl
  have hmf' : Surrounds (Bdbuf.link s (stackOf fs) (some m)) (⟨.right, tilt, m, l⟩ :: fs)
      ((Bdbuf.link s (stackOf fs) (some m)).child m .right) := by
    refine ⟨rfl, hm.cache.trans h.cache, hm.bal.trans h.bal, ?_, h.above.link hf⟩
    have hl : Rooted (Bdbuf.link s (stackOf fs) (some m)) (s.child m .left) l :=
      h.rootedLeft.congr fun z hz => by
        have hz' := hsame z fun hzf => hlf z hz z hzf rfl
        exact ⟨hz'.child, hz'.bal⟩
    rw [← hm.child] at hl
    exact hl
  refine ⟨hbelow.append hmf', h.rooted.congr fun z hz => ?_⟩
  have hz' := hsame z fun hzf => (hr z hz).2.2.2 hzf
  exact ⟨hz'.child, hz'.bal⟩

theorem removeSplice_leaf {l : Avl.Tree Addr} (fuel : ℕ) (hfs : Surrounds s fs (some x))
    (ht : Rooted s (some x) (.node tilt l x .leaf))
    (hnd : (Avl.Path.fill fs (.node tilt l x .leaf)).toList.Nodup) :
    ∃ s', removeSplice fuel s x (stackOf fs) = some (s', l.root?, stackOf fs) ∧
      Surrounds s' fs (some x) ∧ Rooted s' l.root? l.settle ∧ Within s s' l.toList := by
  obtain ⟨hn, -, hdisj⟩ := nodup_fill.mp hnd
  have hright : s.child x .right = none := ht.2.2.2
  have hleft : s.child x .left = l.root? := ht.2.2.1.root
  cases l with
  | leaf =>
    have hleft' : s.child x .left = none := hleft
    exact ⟨s, by simp only [removeSplice, hright, hleft']; rfl, hfs, rfl, .refl s _⟩
  | node tilt' l' y r' =>
    have hleft' : s.child x .left = some y := hleft
    have hl := ht.2.2.1
    rw [hleft'] at hl
    have hy : y ∈ (Avl.Tree.node tilt (.node tilt' l' y r') x .leaf).toList := by simp
    refine ⟨s.setBal y 0, by simp only [removeSplice, hright, hleft']; rfl, ?_, ?_, ?_⟩
    · refine hfs.congr rfl fun z hz => ?_
      have hne : z ≠ y := fun he => hdisj y hy (he ▸ hz)
      exact ⟨fun _ => rfl, if_neg hne, rfl⟩
    · have hn' : (branch .left tilt' y l' r').toList.Nodup := by
        rw [Avl.Tree.toList_node, List.nodup_append] at hn
        exact hn.1
      exact rooted_setBal hn' hl.2.2.1 hl.2.2.2 rfl
    · exact ((Turned.refl s _).setBal (by simp)).within

end

section

omit [DecidableEq Addr]

/-- The nodes of the right subtree are nodes of nothing else. -/
theorem splice_apart {l t' : Avl.Tree Addr}
    (hnd : (Avl.Path.fill fs (.node tilt l x t')).toList.Nodup) :
    x ∉ t'.toList ∧ t'.toList.Nodup ∧ (∀ z ∈ l.toList, z ∉ t'.toList) ∧
      ∀ z ∈ t'.toList, z ∉ Avl.Path.nodes fs := by
  obtain ⟨hnt, -, hdisj⟩ := nodup_fill.mp hnd
  obtain ⟨⟨-, hxr⟩, -, hr, hlr⟩ := Avl.Tree.nodup_toList_branch.mp
    (show (branch .left tilt x l t').toList.Nodup from hnt)
  exact ⟨hxr, hr, hlr, fun z hz => hdisj z (List.mem_append_right _ (List.mem_cons_of_mem _ hz))⟩

theorem leftmost_perm (tilt : Option Direction) (x : Addr) (r l : Avl.Tree Addr) :
    (Avl.Tree.node tilt l x r).toList.Perm ((Avl.leftmost tilt x r l []).2.2.1 ::
      ((Avl.leftmost tilt x r l []).2.2.2.toList ++ Avl.Path.nodes (Avl.leftmost tilt x r l []).1)) := by
  have hfill := Avl.fill_leftmost tilt x r l []
  have hperm := Avl.Path.toList_fill_perm (Avl.leftmost tilt x r l []).1
    (.node (Avl.leftmost tilt x r l []).2.1 .leaf (Avl.leftmost tilt x r l []).2.2.1
      (Avl.leftmost tilt x r l []).2.2.2)
  rw [hfill] at hperm
  exact hperm

end

/-- The nodes of the tree with the successor in the place of a node. -/
theorem nodup_splice {l l₁ r₁ : Avl.Tree Addr} {tilt₁ : Option Direction} {x₁ : Addr}
    (hnd : (Avl.Path.fill fs (.node tilt l x (.node tilt₁ l₁ x₁ r₁))).toList.Nodup) :
    (Avl.Path.fill ((Avl.leftmost tilt₁ x₁ r₁ l₁ []).1 ++
      ⟨.right, tilt, (Avl.leftmost tilt₁ x₁ r₁ l₁ []).2.2.1, l⟩ :: fs)
      (Avl.leftmost tilt₁ x₁ r₁ l₁ []).2.2.2).toList.Nodup := by
  have hperm := leftmost_perm tilt₁ x₁ r₁ l₁
  generalize Avl.leftmost tilt₁ x₁ r₁ l₁ [] = lm at hperm ⊢
  generalize Avl.Tree.node tilt₁ l₁ x₁ r₁ = t' at hperm hnd
  obtain ⟨gs, tilt₂, m, r⟩ := lm
  have hall : (Avl.Path.fill fs (.node tilt l x t')).toList.Perm
      (x :: (Avl.Path.fill (gs ++ ⟨.right, tilt, m, l⟩ :: fs) r).toList) := by
    refine List.perm_iff_count.mpr fun z => ?_
    have h₁ := hperm.count_eq z
    have h₂ := (Avl.Path.toList_fill_perm fs (.node tilt l x t')).count_eq z
    have h₃ := (Avl.Path.toList_fill_perm (gs ++ ⟨.right, tilt, m, l⟩ :: fs) r).count_eq z
    simp only [Avl.Path.nodes_append, Avl.Path.nodes, Avl.Tree.toList_node, List.count_append,
      List.count_cons] at h₁ h₂ h₃ ⊢
    omega
  exact (List.nodup_cons.mp (hall.nodup_iff.mp hnd)).2

section

omit [LinearOrder Dev]

/-- The right child has no left child: it is the successor. -/
theorem removeSplice_child {l r₁ : Avl.Tree Addr} {tilt₁ : Option Direction} {x₁ : Addr} (fuel : ℕ)
    (hfs : Surrounds s fs (some x)) (ht : Rooted s (some x) (.node tilt l x (.node tilt₁ .leaf x₁ r₁)))
    (hnd : (Avl.Path.fill fs (.node tilt l x (.node tilt₁ .leaf x₁ r₁))).toList.Nodup)
    (hroom : fs.length + 2 ≤ avlMaxHeight) :
    ∃ s', removeSplice fuel s x (stackOf fs) =
        some (s', some x₁, stackOf (⟨.right, tilt, x₁, l⟩ :: fs)) ∧
      Spliced s' fs [] tilt x x₁ l r₁ ∧ Within s s' (Avl.Tree.node tilt₁ .leaf x₁ r₁).toList := by
  have hright : s.child x .right = some x₁ := ht.2.2.2.root
  have hrt := ht.2.2.2
  rw [hright] at hrt
  obtain ⟨-, hr, hlr, hdisj'⟩ := splice_apart hnd
  have hnew := nodup_splice hnd
  have hleft : s.child x₁ .left = none := hrt.2.2.1
  have hx₁ : x₁ ∈ (Avl.Tree.node tilt₁ .leaf x₁ r₁).toList := by simp
  have hpush : push x₁ (stackOf fs) = some (x₁ :: stackOf fs) := push_stackOf (by omega)
  generalize hs' : ((s.setChild x₁ .left (s.child x .left)).setBal x₁ (s.bal x)).setCache x₁ 1 = s'
  have hsame : ∀ z, z ≠ x₁ → SameNode s s' z := fun z hz => by
    subst hs'
    exact ⟨fun e => by simp [hz], by simp [hz], by simp [hz]⟩
  have hsub : ∀ (p : Option Addr) (v : Avl.Tree Addr), x₁ ∉ v.toList → Rooted s p v → Rooted s' p v :=
    fun p v hv hp => hp.congr fun z hz =>
      ⟨(hsame z fun he => hv (he ▸ hz)).child, (hsame z fun he => hv (he ▸ hz)).bal⟩
  have hcl : s'.child x₁ .left = s.child x .left := by simp [← hs']
  have hcr : s'.child x₁ .right = r₁.root? := by
    rw [← hrt.2.2.2.root]
    simp [← hs']
  refine ⟨s', ?_, ⟨?_, ?_, ?_, ?_, ?_, ?_, hnew⟩, ⟨fun z hz => hsame z fun he => hz (he ▸ hx₁), ?_, ?_⟩⟩
  · simp only [removeSplice, hright, hleft, Option.bind_eq_bind, hpush, Option.bind_some]
    rw [← hs']
    rfl
  · refine hfs.congr (by simp [← hs']) fun z hz => hsame z fun he => ?_
    exact hdisj' x₁ hx₁ (he ▸ hz)
  · exact hcr
  · simp [← hs']
  · rw [← ht.2.1]
    simp [← hs']
  · have hl' := hsub _ _ (fun h => hlr x₁ h hx₁) ht.2.2.1
    rw [← hcl] at hl'
    exact hl'
  · have hr' := hrt.2.2.2
    rw [hr'.root] at hr'
    refine hsub _ _ (fun h => ?_) hr'
    have hn₁ : (branch .left tilt₁ x₁ .leaf r₁).toList.Nodup := hr
    exact (Avl.Tree.nodup_toList_branch.mp hn₁).1.2 h
  · simp [← hs']
  · simp [← hs']

/-- The successor is at the end of the left spine below the right child. -/
theorem removeSplice_spine {l l₂ r₁ r₂ : Avl.Tree Addr} {tilt₁ tilt₂ : Option Direction} {x₁ x₂ : Addr}
    (fuel : ℕ) (hfs : Surrounds s fs (some x))
    (ht : Rooted s (some x) (.node tilt l x (.node tilt₁ (.node tilt₂ l₂ x₂ r₂) x₁ r₁)))
    (hnd : (Avl.Path.fill fs
      (.node tilt l x (.node tilt₁ (.node tilt₂ l₂ x₂ r₂) x₁ r₁))).toList.Nodup)
    (hfuel : (Avl.Tree.node tilt₂ l₂ x₂ r₂).height + 1 ≤ fuel)
    (hroom : fs.length + (Avl.Tree.node tilt₂ l₂ x₂ r₂).height + 2 ≤ avlMaxHeight) :
    ∃ s', removeSplice fuel s x (stackOf fs) =
        some (s', some (Avl.leftmost tilt₁ x₁ r₁ (.node tilt₂ l₂ x₂ r₂) []).2.2.1,
          stackOf ((Avl.leftmost tilt₁ x₁ r₁ (.node tilt₂ l₂ x₂ r₂) []).1 ++
            ⟨.right, tilt, (Avl.leftmost tilt₁ x₁ r₁ (.node tilt₂ l₂ x₂ r₂) []).2.2.1, l⟩ :: fs)) ∧
      Spliced s' fs (Avl.leftmost tilt₁ x₁ r₁ (.node tilt₂ l₂ x₂ r₂) []).1 tilt x
        (Avl.leftmost tilt₁ x₁ r₁ (.node tilt₂ l₂ x₂ r₂) []).2.2.1 l
        (Avl.leftmost tilt₁ x₁ r₁ (.node tilt₂ l₂ x₂ r₂) []).2.2.2 ∧
      Within s s' (Avl.Tree.node tilt₁ (.node tilt₂ l₂ x₂ r₂) x₁ r₁).toList := by
  have hright : s.child x .right = some x₁ := ht.2.2.2.root
  have hrt := ht.2.2.2
  rw [hright] at hrt
  obtain ⟨hxr, hr, hlr, hdisj'⟩ := splice_apart hnd
  have hnew := nodup_splice hnd
  have hperm := leftmost_perm tilt₁ x₁ r₁ (.node tilt₂ l₂ x₂ r₂)
  have hleft : s.child x₁ .left = some x₂ := hrt.2.2.1.root
  have hpush : push x (stackOf fs) = some (x :: stackOf fs) := push_stackOf (by omega)
  obtain ⟨s₁, f, gs, h₁, h₂, hdir, h₃, h₄, h₅⟩ := removeSpine_eq
    ((stackOf fs).length + 1) [] x₁ [] rfl hrt hr rfl (fun _ => nofun) nofun hfuel (by
      rw [List.length_map]
      simp only [List.length_nil]
      omega)
  rcases hlm : Avl.leftmost tilt₁ x₁ r₁ (.node tilt₂ l₂ x₂ r₂) [] with ⟨gs', tilt₃, m, r⟩
  rw [hlm] at h₁ h₂ h₃ h₄ hnew hperm
  obtain rfl : gs' = f :: gs := h₂
  have hdn := hperm.nodup_iff.mp hr
  have hright' : ∀ z, z = m ∨ z ∈ r.toList ∨ z ∈ Avl.Path.nodes (f :: gs) →
      z ∈ (Avl.Tree.node tilt₁ (.node tilt₂ l₂ x₂ r₂) x₁ r₁).toList := fun z hz =>
    hperm.mem_iff.mpr (by simpa using hz)
  simp only [List.nodup_cons, List.mem_append, not_or, List.nodup_append] at hdn
  obtain ⟨⟨hmr, hmgs⟩, hrn, hgsn, hrgs⟩ := hdn
  have hf : f.node ∈ Avl.Path.nodes (f :: gs) := List.mem_cons_self
  have hmf : m ≠ f.node := fun he => hmgs (he ▸ hf)
  have hxm : x ≠ m := fun he => hxr (he ▸ hright' m (.inl rfl))
  have hxf : x ≠ f.node := fun he => hxr (he ▸ hright' f.node (.inr (.inr hf)))
  have hmright : s₁.child m .right = r.root? := h₄.2.2.2.root
  have hxright : s₁.child x .right = some x₁ := by rw [h₅.child, hright]
  have hxleft : s₁.child x .left = s.child x .left := by rw [h₅.child]
  -- the pointers of the spine below the successor, then those of the successor
  have hspine := Leads.setChild (q := r.root?) h₃ hgsn
  rw [hdir] at hspine
  generalize hs' : (((((s₁.setChild m .left (s.child x .left)).setChild f.node .left
    r.root?).setChild m .right (some x₁)).setBal m (s₁.bal x)).setCache m 1) = s'
  have hsame : ∀ z, z ≠ m → SameNode (s₁.setChild f.node .left r.root?) s' z := fun z hz => by
    subst hs'
    exact ⟨fun e => by simp [hz], by simp [hz], by simp [hz]⟩
  have hother : ∀ z, z ≠ m → z ≠ f.node → SameNode s₁ s' z := fun z hz hzf => by
    subst hs'
    exact ⟨fun e => by simp [hz, hzf], by simp [hz], by simp [hz]⟩
  have hout : ∀ z, z ∉ (Avl.Tree.node tilt₁ (.node tilt₂ l₂ x₂ r₂) x₁ r₁).toList →
      SameNode s s' z := fun z hz =>
    (h₅.within.same z hz).trans (hother z (fun he => hz (he ▸ hright' m (.inl rfl)))
      fun he => hz (he ▸ hright' f.node (.inr (.inr hf))))
  have hcl : s'.child m .left = s.child x .left := by simp [← hs', hmf]
  have hcr : s'.child m .right = some x₁ := by simp [← hs']
  refine ⟨s', ?_, ⟨?_, ?_, ?_, ?_, ?_, ?_, hnew⟩, ⟨hout, ?_, ?_⟩⟩
  · have hcm : (s₁.setChild m .left (s.child x .left)).child m .right = r.root? := by
      simp [hmright]
    have hcx : ((s₁.setChild m .left (s.child x .left)).setChild f.node .left
        r.root?).child x .right = some x₁ := by simp [hxright]
    simp only [removeSplice, hright, hleft, Option.bind_eq_bind, hpush, Option.bind_some, h₁,
      hxleft, hcm, hcx]
    rw [← hs']
    simp only [stackOf, List.map_append, List.map_cons]
    rfl
  · refine hfs.congr ?_ fun z hz => hout z fun hz' => hdisj' z hz' hz
    rw [← hs']
    exact h₅.root
  · rw [hcr]
    exact hspine.congr fun z hz => hsame z fun he => hmgs (he ▸ hz)
  · simp [← hs']
  · rw [← ht.2.1, ← h₅.bal]
    simp [← hs']
  · have hl' : Rooted s' (s.child x .left) l := ht.2.2.1.congr fun z hz =>
      ⟨(hout z (hlr z hz)).child, (hout z (hlr z hz)).bal⟩
    rw [← hcl] at hl'
    exact hl'
  · have hr' := h₄.2.2.2
    rw [hr'.root] at hr'
    refine hr'.congr fun z hz => ?_
    have hz' := hother z (fun he => hmr (he ▸ hz)) fun he => hrgs z hz f.node hf he
    exact ⟨hz'.child, hz'.bal⟩
  · rw [← hs']
    exact h₅.dd
  · rw [← hs']
    exact h₅.block

theorem removeSplice_node {l l₁ r₁ : Avl.Tree Addr} {tilt₁ : Option Direction} {x₁ : Addr} (fuel : ℕ)
    (hfs : Surrounds s fs (some x)) (ht : Rooted s (some x) (.node tilt l x (.node tilt₁ l₁ x₁ r₁)))
    (hnd : (Avl.Path.fill fs (.node tilt l x (.node tilt₁ l₁ x₁ r₁))).toList.Nodup)
    (hfuel : l₁.height + 1 ≤ fuel) (hroom : fs.length + l₁.height + 2 ≤ avlMaxHeight) :
    ∃ s', removeSplice fuel s x (stackOf fs) =
        some (s', some (Avl.leftmost tilt₁ x₁ r₁ l₁ []).2.2.1,
          stackOf ((Avl.leftmost tilt₁ x₁ r₁ l₁ []).1 ++
            ⟨.right, tilt, (Avl.leftmost tilt₁ x₁ r₁ l₁ []).2.2.1, l⟩ :: fs)) ∧
      Spliced s' fs (Avl.leftmost tilt₁ x₁ r₁ l₁ []).1 tilt x
        (Avl.leftmost tilt₁ x₁ r₁ l₁ []).2.2.1 l (Avl.leftmost tilt₁ x₁ r₁ l₁ []).2.2.2 ∧
      Within s s' (Avl.Tree.node tilt₁ l₁ x₁ r₁).toList := by
  cases l₁ with
  | leaf => exact removeSplice_child fuel hfs ht hnd hroom
  | node tilt₂ l₂ x₂ r₂ => exact removeSplice_spine fuel hfs ht hnd hfuel hroom

end

theorem avlRemove_of_absent (h : removeDescend (s.dd node) (s.block node) fuel s s.root [] =
    some (s₁, none)) : avlRemove fuel s node = some (s₁, -1) := by
  simp only [avlRemove, h, Option.bind_eq_bind, Option.bind_some]

theorem avlRemove_of_found {stack stack' : List Addr}
    (h : removeDescend (s.dd node) (s.block node) fuel s s.root [] = some (s₁, some (x, stack)))
    (hs : removeSplice fuel s₁ x stack = some (s₂, q, stack'))
    (hr : rebalance removeTurn (link s₂ stack q) stack' = some s') :
    avlRemove fuel s node = some (s', 0) := by
  simp only [avlRemove, h, hs, hr, Option.bind_eq_bind, Option.bind_some]

/-- The node with the key is taken out, if there is one. -/
theorem Holds.remove (h : Holds s t) (hfuel : t.height ≤ fuel) (hroom : t.height ≤ avlMaxHeight)
    (node : Addr) :
    (Avl.remove (keyOf s) (keyOf s node) t = none ∧
      ∃ s', avlRemove fuel s node = some (s', -1) ∧ Remarked s s' t.toList) ∨
    ∃ u, Avl.remove (keyOf s) (keyOf s node) t = some u ∧
      ∃ s', avlRemove fuel s node = some (s', 0) ∧ Holds s' u ∧ Within s s' t.toList := by
  have hdone : ∀ u s', Avl.remove (keyOf s) (keyOf s node) t = some u → Rooted s' s'.root u →
      Within s s' t.toList → Holds s' u := by
    intro u s' hu hr hw
    have hsorted := h.sorted.remove hu
    refine ⟨hr, ?_, Avl.remove_balanced h.balanced hu, ?_⟩
    · exact hsorted.imp fun {a b} hab he => (he ▸ hab).ne rfl
    · rwa [keyOf_congr hw.dd hw.block]
  have hfill := Avl.descend_fill (keyOf s) (keyOf s node) t []
  obtain ⟨s₀, h₁, h₂, h₃, h₄⟩ := removeDescend_eq []
    (show Surrounds s [] s.root from rfl) h.rooted h.nodup hfuel
    ((Nat.zero_add _).trans_le hroom) (k := keyOf s node) rfl
  rcases hd : Avl.descend (keyOf s) (keyOf s node) t [] with ⟨gs, u⟩
  rw [hd] at h₁ h₂ h₃ hfill
  have ht : t = Avl.Path.fill gs u := hfill.symm
  have hheight := Avl.Path.length_add_height_le gs u
  rw [← ht] at hheight
  cases u with
  | leaf => exact .inl ⟨by rw [Avl.remove, hd], s₀, avlRemove_of_absent h₁, h₄⟩
  | node tilt l x r =>
    have hnd := h.nodup
    have hbal := h.balanced
    rw [ht] at hnd hbal
    cases r with
    | leaf =>
      have hu : Avl.remove (keyOf s) (keyOf s node) t = some (Avl.Path.mend Avl.shrink gs l.settle) := by
        rw [Avl.remove, hd]
      obtain ⟨s₁, h₅, h₆, h₇, h₈⟩ := removeSplice_leaf fuel h₂ h₃ hnd
      obtain ⟨hln, hg, hdisj⟩ := nodup_fill.mp hnd
      obtain ⟨hlb, hgb⟩ := Avl.balanced_of_rightless hbal
      have hlsub : ∀ z ∈ l.toList, z ∈ (Avl.Tree.node tilt l x .leaf).toList := fun z hz =>
        List.mem_append_left _ hz
      have hl : Rooted (link s₁ (stackOf gs) l.root?) l.root? l.settle := h₇.congr fun z hz => by
        rw [Avl.Tree.toList_settle] at hz
        have hz' := sameNode_link (s := s₁) (q := l.root?) fun hzs =>
          hdisj z (hlsub z hz) (mem_nodes_of_stack hzs)
        exact ⟨hz'.child, hz'.bal⟩
      have hnd' : (Avl.Path.fill gs l.settle).toList.Nodup := by
        refine nodup_fill.mpr ⟨?_, hg, fun z hz => ?_⟩
        · rw [Avl.Tree.toList_settle]
          exact (List.nodup_append.mp hln).1
        · rw [Avl.Tree.toList_settle] at hz
          exact hdisj z (hlsub z hz)
      obtain ⟨s', h₉, h₁₀, h₁₁⟩ := rebalance_shrink (h₆.link hg) hl hnd' hlb rfl hgb
      have hw : Within s s' t.toList := by
        rw [ht] at h₄ ⊢
        refine ((h₄.within.trans (h₈.mono fun z hz => ?_)).trans (within_link fun z hz => ?_)).trans
          (h₁₁.mono fun z hz => ?_)
        · exact mem_fill.mpr (.inl (hlsub z hz))
        · exact mem_fill.mpr (.inr (mem_nodes_of_stack hz))
        · rw [mem_fill, Avl.Tree.toList_settle] at hz
          exact mem_fill.mpr (hz.imp_left (hlsub z))
      exact .inr ⟨_, hu, s', avlRemove_of_found h₁ h₅ h₉, hdone _ _ hu h₁₀ hw, hw⟩
    | node tilt₁ l₁ x₁ r₁ =>
      have hu : Avl.remove (keyOf s) (keyOf s node) t =
          some (Avl.Path.mend Avl.shrink ((Avl.leftmost tilt₁ x₁ r₁ l₁ []).1 ++
            ⟨.right, tilt, (Avl.leftmost tilt₁ x₁ r₁ l₁ []).2.2.1, l⟩ :: gs)
            (Avl.leftmost tilt₁ x₁ r₁ l₁ []).2.2.2) := by
        rw [Avl.remove, hd]
      have hh : l₁.height + 2 ≤ (Avl.Tree.node tilt l x (.node tilt₁ l₁ x₁ r₁)).height := by
        simp only [Avl.Tree.height]
        omega
      obtain ⟨s₁, h₅, h₆, h₈⟩ := removeSplice_node fuel h₂ h₃ hnd (by omega)
        (show gs.length + l₁.height + 2 ≤ avlMaxHeight by omega)
      obtain ⟨hrb, hgb⟩ := Avl.balanced_of_successor hbal
      obtain ⟨hsur, hr⟩ := h₆.link
      obtain ⟨s', h₉, h₁₀, h₁₁⟩ := rebalance_shrink hsur hr h₆.nodup hrb rfl hgb
      have hperm := leftmost_perm tilt₁ x₁ r₁ l₁
      have hright : ∀ z ∈ (Avl.Tree.node tilt₁ l₁ x₁ r₁).toList,
          z ∈ (Avl.Tree.node tilt l x (.node tilt₁ l₁ x₁ r₁)).toList := fun z hz =>
        List.mem_append_right _ (List.mem_cons_of_mem _ hz)
      have hw : Within s s' t.toList := by
        rw [ht] at h₄ ⊢
        refine ((h₄.within.trans (h₈.mono fun z hz => ?_)).trans (within_link fun z hz => ?_)).trans
          (h₁₁.mono fun z hz => ?_)
        · exact mem_fill.mpr (.inl (hright z hz))
        · exact mem_fill.mpr (.inr (mem_nodes_of_stack hz))
        · rw [mem_fill, Avl.Path.nodes_append, Avl.Path.nodes] at hz
          simp only [List.mem_append, List.mem_cons] at hz
          have hsucc := fun z => (hperm.mem_iff (a := z)).mpr
          simp only [List.mem_cons, List.mem_append] at hsucc
          rcases hz with hz | hz | rfl | hz | hz
          · exact mem_fill.mpr (.inl (hright z (hsucc z (.inr (.inl hz)))))
          · exact mem_fill.mpr (.inl (hright z (hsucc z (.inr (.inr hz)))))
          · exact mem_fill.mpr (.inl (hright _ (hsucc _ (.inl rfl))))
          · exact mem_fill.mpr (.inl (List.mem_append_left _ hz))
          · exact mem_fill.mpr (.inr hz)
      exact .inr ⟨_, hu, s', avlRemove_of_found h₁ h₅ h₉, hdone _ _ hu h₁₀ hw, hw⟩

end Rtems.Bdbuf
