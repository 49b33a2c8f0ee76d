import Rtems.RBTree.Runs

/-!
# Finding nodes

`_RBTree_Find` compares a key with the nodes on the way down, and the neighbors
of a node in the order of the tree are found by `_RBTree_Next`.  The comparison
matters for the nodes of the tree only.
-/

namespace Rtems.RBTree

open Lib

variable {Addr : Type} [DecidableEq Addr] {s s' : State Addr} {c p x y : Addr} {d : Direction}
  {t : Lib.Tree Addr} {l as bs : List Addr} {compare compare' : Compare Addr} {key : Addr → Int}
  {isUnique : Bool} {fuel : Nat}

/-! ## Find -/

/-- The loop of `_RBTree_Find`, where `key` compares the key with a node. -/
def findLoop (s : State Addr) (key : Addr → Int) (isUnique : Bool) :
    Nat → Option Addr → Option Addr → Option (Option Addr)
  | _, none, found => some found
  | 0, some _, _ => none
  | fuel + 1, some iterNode, found =>
    let compareResult := key iterNode
    if compareResult = 0 ∧ isUnique then some (some iterNode)
    else
      let found := if compareResult = 0 then some iterNode else found
      let dir := if compareResult > 0 then .right else .left
      findLoop s key isUnique fuel (s.child iterNode dir) found

/-- `_RBTree_Find`. -/
def find (fuel : Nat) (s : State Addr) (theRbtree : Addr) (key : Addr → Int) (isUnique : Bool) :
    Option (Option Addr) :=
  findLoop s key isUnique fuel (root s theRbtree) none

/-- The nodes that are less than the key come first, and those that are greater
come last. -/
def Directs (key : Addr → Int) (l : List Addr) : Prop :=
  l.Pairwise fun a b => (key a < 0 → key b < 0) ∧ (0 < key b → 0 < key a)

section

omit [DecidableEq Addr]

/-- A unique search finds an equal node if there is one. -/
theorem Hangs.findLoop (h : Hangs s p t) (hd : Directs key t.inorder) (hfuel : t.size ≤ fuel) :
    ∃ r, findLoop s key true fuel t.root? none = some r ∧
      ((r = none ∧ ∀ z ∈ t.inorder, key z ≠ 0) ∨ ∃ z ∈ t.inorder, key z = 0 ∧ r = some z) := by
  induction t generalizing p fuel with
  | nil =>
    cases fuel with
    | zero => exact ⟨none, rfl, .inl ⟨rfl, fun z hz => absurd hz List.not_mem_nil⟩⟩
    | succ fuel => exact ⟨none, rfl, .inl ⟨rfl, fun z hz => absurd hz List.not_mem_nil⟩⟩
  | node col l y r ihl ihr =>
    obtain ⟨-, -, hleft, hright, hl, hr⟩ := h
    obtain ⟨hdl, hdyr, hdly⟩ := List.pairwise_append.mp hd
    obtain ⟨hdy, hdr⟩ := List.pairwise_cons.mp hdyr
    have hmem : ∀ z, z ∈ (Lib.Tree.node col l y r).inorder ↔
        z ∈ l.inorder ∨ z = y ∨ z ∈ r.inorder := by
      intro z
      exact List.mem_append.trans (or_congr_right List.mem_cons)
    cases fuel with
    | zero => cases hfuel
    | succ fuel =>
      have hsize : l.size + r.size ≤ fuel := Nat.le_of_succ_le_succ hfuel
      have hsizel : l.size ≤ fuel := by omega
      have hsizer : r.size ≤ fuel := by omega
      rw [Lib.Tree.root?, RBTree.findLoop]
      by_cases hzero : key y = 0
      · refine ⟨some y, if_pos ⟨hzero, rfl⟩, .inr ⟨y, ?_, hzero, rfl⟩⟩
        exact (hmem y).mpr (.inr (.inl rfl))
      · simp only
        rw [if_neg fun hfound => hzero hfound.1, if_neg hzero]
        by_cases hpos : key y > 0
        · obtain ⟨res, hres, hspec⟩ := ihr hr hdr hsizer
          rw [if_pos hpos, hright]
          refine ⟨res, hres, hspec.imp ?_ ?_⟩
          · rintro ⟨hnone, hall⟩
            refine ⟨hnone, ?_⟩
            intro z hz
            rcases (hmem z).mp hz with hzl | rfl | hzr
            · have hbefore := (hdly z hzl y List.mem_cons_self).2 hpos
              omega
            · exact hzero
            · exact hall z hzr
          · rintro ⟨z, hz, hfound⟩
            exact ⟨z, (hmem z).mpr (.inr (.inr hz)), hfound⟩
        · obtain ⟨res, hres, hspec⟩ := ihl hl hdl hsizel
          rw [if_neg hpos, hleft]
          refine ⟨res, hres, hspec.imp ?_ ?_⟩
          · rintro ⟨hnone, hall⟩
            refine ⟨hnone, ?_⟩
            intro z hz
            rcases (hmem z).mp hz with hzl | rfl | hzr
            · exact hall z hzl
            · exact hzero
            · have hafter := (hdy z hzr).1 (by omega)
              omega
          · rintro ⟨z, hz, hfound⟩
            exact ⟨z, (hmem z).mpr (.inl hz), hfound⟩

theorem Represents.find (h : Represents compare s c l) (hd : Directs key l)
    (hfuel : l.length ≤ fuel) :
    ∃ r, find fuel s c key true = some r ∧
      ((r = none ∧ ∀ z ∈ l, key z ≠ 0) ∨ ∃ z ∈ l, key z = 0 ∧ r = some z) := by
  obtain ⟨t, n, ht, -, rfl⟩ := h.tree
  unfold RBTree.find
  rw [show root s c = t.root? from ht.root]
  exact ht.hangs.findLoop hd (t.size_eq_length ▸ hfuel)

theorem findLoop_extends (n : Nat) (iterNode found : Option Addr) :
    Extends (findLoop s key isUnique n iterNode found)
      (findLoop s key isUnique (n + 1) iterNode found) := by
  induction n generalizing iterNode found with
  | zero =>
    cases iterNode with
    | none => exact .refl _
    | some iterNode => exact .none _
  | succ n ih =>
    cases iterNode with
    | none => exact .refl _
    | some iterNode =>
      unfold findLoop
      exact .ite (.refl _) (ih _ _)

theorem find_extends (n : Nat) :
    Extends (find n s c key isUnique) (find (n + 1) s c key isUnique) :=
  findLoop_extends n _ _

end

/-! ## Neighbors -/

/-- `_RBTree_Next` in both directions. -/
theorem Represents.next (h : Represents compare s c (as ++ x :: bs))
    (hfuel : (as ++ x :: bs).length ≤ fuel) :
    next fuel s x .right = some bs.head? ∧ next fuel s x .left = some as.getLast? := by
  obtain ⟨t, n, ht, -, hin⟩ := h.tree
  have hx : x ∈ t.inorder := by
    rw [hin]
    exact List.mem_append_right _ List.mem_cons_self
  have hnd : (as ++ x :: bs).Nodup := by
    rw [← hin]
    exact (List.nodup_cons.mp ht.nodup).2
  obtain ⟨ps, col, a, b, rfl⟩ := Lib.Path.exists_fill hx
  have hsize := Lib.Path.size_fill_ge ps (.node col a x b)
  rw [Lib.Tree.size_eq_length (Lib.Path.fill ps _), hin, Lib.Tree.size] at hsize
  have hsplit := hin
  rw [Lib.Path.inorder_fill] at hsplit
  have hnode : (Lib.Tree.node col a x b).inorder = a.inorder ++ x :: b.inorder := rfl
  rw [hnode] at hsplit
  have hparts : as ++ x :: bs = ((Lib.Path.beyond .left ps).reverse ++ a.inorder) ++
      x :: (b.inorder ++ Lib.Path.beyond .right ps) := by
    rw [← hsplit]
    simp only [List.append_assoc, List.cons_append]
  obtain ⟨has, hbs⟩ := append_cons_inj hparts hnd
  constructor
  · have hright : Holds s c (ends (as ++ x :: bs))
        (Lib.Path.fill ps (.branch .right col x b a)) := ht
    have hnext : RBTree.next fuel s x .right = _ := hright.next (by omega) (by omega)
    rw [hnext, hbs]
    rfl
  · have hleft : Holds s c (ends (as ++ x :: bs))
        (Lib.Path.fill ps (.branch .left col x a b)) := ht
    have hnext : RBTree.next fuel s x .left = _ := hleft.next (by omega) (by omega)
    have hwalk : a.walk .left = a.inorder.reverse := Lib.Tree.walk_opposite .right a
    rw [hnext, has, hwalk, ← List.head?_reverse, List.reverse_append, List.reverse_reverse]

/-! ## Insertion with another comparison -/

/-- Both comparisons put the node on the same side of another. -/
def SameSide (compare compare' : Compare Addr) (x z : Addr) : Prop :=
  (compare x z < 0 ↔ compare' x z < 0) ∧ (compare x z = 0 ↔ compare' x z = 0)

theorem attach_congr (hx : x ≠ c) (hy : y ≠ c)
    (hfirst : ∀ z, first s c d = some z → SameSide compare compare' x z) :
    attach s c x compare y d = attach s c x compare' y d := by
  unfold attach
  simp only
  have hsame : first ((((((s.setChild x .left none).setChild x .right none).setColor x
      .red).setChild y d (some x))).setParent x (some y)) c d = first s c d := by
    cases d with
    | left => simp [first, hx.symm, hy.symm]
    | right => rfl
  rw [hsame]
  cases hz : first s c d with
  | none => rfl
  | some z =>
    have hside := (hfirst z hz).1
    simp only [Option.bind_eq_bind, Option.bind_some, hside]

theorem insertLoop_congr (hx : x ≠ c) (hc : ¬ InTree s c c)
    (hsame : ∀ z, InTree s c z → SameSide compare compare' x z)
    (hfirst : ∀ d z, first s c d = some z → InTree s c z) (isUnique : Bool) (fuel : Nat)
    (hy : InTree s c y) :
    insertLoop s c x compare isUnique fuel y = insertLoop s c x compare' isUnique fuel y := by
  induction fuel generalizing y with
  | zero => rfl
  | succ fuel ih =>
    obtain ⟨hlt, hzero⟩ := hsame y hy
    have hyc : y ≠ c := by
      rintro rfl
      exact hc hy
    unfold insertLoop
    simp only [hlt, hzero]
    split
    next => rfl
    next =>
      cases hchild : s.child y (if compare' x y < 0 then .left else .right) with
      | none =>
        have hattach := attach_congr (d := if compare' x y < 0 then .left else .right) hx hyc
          fun z hz => hsame z (hfirst _ z hz)
        simp only [hattach]
      | some next => exact ih (.child hy hchild)

/-- The insertion compares with the nodes of the tree only. -/
theorem Represents.insert_congr (h : Represents compare' s c l) (hx : x ≠ c)
    (hsame : ∀ z ∈ l, SameSide compare compare' x z) (fuel : Nat) :
    RBTree.insert fuel s c x compare isUnique = RBTree.insert fuel s c x compare' isUnique := by
  obtain ⟨t, n, ht, -, hin⟩ := id h.tree
  have hct : ¬ InTree s c c := by
    rw [h.inTree_iff, ← hin]
    exact (List.nodup_cons.mp ht.nodup).1
  have hfirst : ∀ d z, RBTree.first s c d = some z → InTree s c z := by
    intro d z hz
    rw [ht.first d] at hz
    rw [h.inTree_iff]
    cases d with
    | left => exact List.mem_of_mem_head? hz
    | right => exact List.mem_of_mem_getLast? hz
  unfold RBTree.insert
  cases hroot : root s c with
  | none => rfl
  | some y =>
    have hloop := insertLoop_congr hx hct (fun z hz => hsame z (h.inTree_iff.mp hz)) hfirst
      isUnique fuel (.root hroot)
    simp only [hloop]

/-! ## Trees of elements -/

section

variable {α : Type} [DecidableEq α] {tree tree' : State (Option α)} {a : α}
  {front back list : List α} {order order' : Compare (Option α)} {rank : Option α → Nat}

/-- `_RBTree_Insert` of an element with a key of its own. -/
theorem Lists.insertUnique (h : Lists order' tree list) (hc : ComparesBy order' rank)
    (ha : a ∉ list) (hsame : ∀ b ∈ list, SameSide order order' (some a) (some b))
    (hnew : ∀ b ∈ list, rank (some a) ≠ rank (some b)) (hfuel : list.length ≤ fuel) :
    ∃ tree', RBTree.insert fuel tree none (some a) order true = some (tree', none) ∧
      Lists order' tree' (stableInsert (fun b => rank (some b)) a list) := by
  have hmem : some a ∉ list.map some := by
    simpa using ha
  have hlen : (list.map some).length ≤ fuel := by
    rwa [List.length_map]
  have hcongr : RBTree.insert fuel tree none (some a) order true =
      RBTree.insert fuel tree none (some a) order' true := by
    refine Represents.insert_congr h (Option.some_ne_none a) ?_ fuel
    intro z hz
    obtain ⟨b, hb, rfl⟩ := List.mem_map.mp hz
    exact hsame b hb
  rw [hcongr]
  have hinsert : (true = true ∧ _) ∨ _ :=
    Represents.insert hc.totalPreorder h (Option.some_ne_none a) hmem hlen
  rcases hinsert with ⟨-, y, hy, hzero, -⟩ | ⟨-, s', hs, hrep⟩
  · obtain ⟨b, hb, rfl⟩ := List.mem_map.mp hy
    have hle := (hc.nonpos (some a) (some b)).mp (Int.le_of_eq hzero)
    have hge := (hc.nonneg (some a) (some b)).mp (Int.le_of_eq hzero.symm)
    exact absurd (Nat.le_antisymm hle hge) (hnew b hb)
  · rw [insertSorted_map hc (h.ordered hc)] at hrep
    exact ⟨s', hs, hrep⟩

theorem Lists.extractOf (h : Lists order tree list) (ha : a ∈ list) (hfuel : list.length ≤ fuel) :
    ∃ tree', RBTree.extract fuel tree none (some a) = some tree' ∧
      Lists order tree' (list.erase a) := by
  have hlen : (list.map some).length ≤ fuel := by
    rwa [List.length_map]
  obtain ⟨s', hs, hrep⟩ := Represents.extract h (List.mem_map_of_mem ha) hlen
  rw [map_some_erase] at hrep
  exact ⟨s', hs, hrep⟩

theorem Lists.next (h : Lists order tree (front ++ a :: back))
    (hfuel : (front ++ a :: back).length ≤ fuel) :
    RBTree.next fuel tree (some a) .right = some (back.head?.map some) ∧
      RBTree.next fuel tree (some a) .left = some (front.getLast?.map some) := by
  have hlist : Represents order tree none (front.map some ++ some a :: back.map some) := by
    have hrep := h
    unfold Lists at hrep
    rwa [List.map_append, List.map_cons] at hrep
  have hlen : (front.map some ++ some a :: back.map some).length ≤ fuel := by
    rw [List.length_append, List.length_cons, List.length_map, List.length_map]
    rwa [List.length_append, List.length_cons] at hfuel
  obtain ⟨hright, hleft⟩ := hlist.next hlen
  rw [hright, hleft, List.head?_map, List.getLast?_map]
  exact ⟨rfl, rfl⟩

omit [DecidableEq α]

theorem Lists.find (h : Lists order tree list) (key : Option α → Int)
    (hd : list.Pairwise fun a b =>
      (key (some a) < 0 → key (some b) < 0) ∧ (0 < key (some b) → 0 < key (some a)))
    (hfuel : list.length ≤ fuel) :
    ∃ r, RBTree.find fuel tree none key true = some r ∧
      ((r = none ∧ ∀ b ∈ list, key (some b) ≠ 0) ∨
        ∃ b ∈ list, key (some b) = 0 ∧ r = some (some b)) := by
  have hlen : (list.map some).length ≤ fuel := by
    rwa [List.length_map]
  obtain ⟨r, hr, hspec⟩ := Represents.find h (List.pairwise_map.mpr hd) hlen
  refine ⟨r, hr, hspec.imp ?_ ?_⟩
  · rintro ⟨hnone, hall⟩
    exact ⟨hnone, fun b hb => hall _ (List.mem_map_of_mem hb)⟩
  · rintro ⟨z, hz, hzero, hfound⟩
    obtain ⟨b, hb, rfl⟩ := List.mem_map.mp hz
    exact ⟨b, hb, hzero, hfound⟩

theorem Lists.inTree_iff (h : Lists order tree list) : InTree tree none (some a) ↔ a ∈ list := by
  rw [Represents.inTree_iff h, List.mem_map_of_injective (Option.some_injective α)]

end

end Rtems.RBTree
