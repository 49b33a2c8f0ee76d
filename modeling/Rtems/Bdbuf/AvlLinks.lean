import Rtems.Bdbuf.AvlNodes

/-!
# Trees of descriptors

What it means that the pointers of the nodes make up an AVL tree.  A subtree hangs at a pointer, and the
nodes on the stack surround a hole.  A turn changes the nodes of a subtree only, and `link` the one
pointer that leads to it.
-/

namespace Rtems.Bdbuf

open Lib (Direction)
open Avl (Step)
open Avl.Tree (branch)

variable {Addr Dev : Type} [DecidableEq Addr] {s s' s₁ s₂ : Nodes Addr Dev}
  {p q r top : Option Addr} {x y z : Addr} {d e : Direction} {tilt : Option Direction}
  {t u near far : Avl.Tree Addr} {fs gs : Avl.Path Addr} {stack : List Addr}

/-- The value of `avl.bal` for a tilt. -/
def tiltBal : Option Direction → ℤ
  | none => 0
  | some d => side d

@[simp]
theorem tiltBal_none : tiltBal none = 0 := rfl

@[simp]
theorem tiltBal_some : tiltBal (some d) = side d := rfl

@[simp]
theorem side_opposite : side d.opposite = -side d := by
  cases d <;> rfl

@[simp]
theorem side_ne_zero : side d ≠ 0 := by
  cases d <;> decide

@[simp]
theorem zero_ne_side : 0 ≠ side d := side_ne_zero.symm

@[simp]
theorem zero_ne_neg_side : 0 ≠ -side d := by
  cases d <;> decide

@[simp]
theorem side_ne_neg : side d ≠ -side d := by
  cases d <;> decide

@[simp]
theorem neg_side_ne : -side d ≠ side d := by
  cases d <;> decide

@[simp]
theorem side_mul : side d * side d = 1 := by
  cases d <;> rfl

@[simp]
theorem neg_side_mul : -side d * -side d = 1 := by
  cases d <;> rfl

@[simp]
theorem neg_side_mul_side : -side d * side d = -1 := by
  cases d <;> rfl

section

omit [DecidableEq Addr]

theorem heading_of_cache (h : s.cache x = side d) : heading s x = d := by
  cases d with
  | left => exact if_pos h
  | right => exact if_neg (by rw [h]; decide)

/-! ## A subtree -/

/-- The tree hangs at the pointer. -/
def Rooted (s : Nodes Addr Dev) : Option Addr → Avl.Tree Addr → Prop
  | q, .leaf => q = none
  | q, .node tilt l x r => q = some x ∧ s.bal x = tiltBal tilt ∧ Rooted s (s.child x .left) l ∧
      Rooted s (s.child x .right) r

theorem rooted_branch : Rooted s q (branch d tilt x near far) ↔
    q = some x ∧ s.bal x = tiltBal tilt ∧ Rooted s (s.child x d) near ∧
      Rooted s (s.child x d.opposite) far := by
  cases d with
  | left => exact Iff.rfl
  | right => exact and_congr_right fun _ => and_congr_right fun _ => and_comm

theorem Rooted.root (h : Rooted s q t) : q = t.root? := by
  cases t with
  | leaf => exact h
  | node tilt l x r => exact h.1

/-- The node at `z` is the same in both states. -/
structure SameNode (s s' : Nodes Addr Dev) (z : Addr) : Prop where
  child : ∀ e, s'.child z e = s.child z e
  bal : s'.bal z = s.bal z
  cache : s'.cache z = s.cache z

theorem SameNode.refl (s : Nodes Addr Dev) (z : Addr) : SameNode s s z :=
  ⟨fun _ => rfl, rfl, rfl⟩

theorem SameNode.trans (h : SameNode s s₁ z) (h' : SameNode s₁ s₂ z) : SameNode s s₂ z :=
  ⟨fun e => (h'.child e).trans (h.child e), h'.bal.trans h.bal, h'.cache.trans h.cache⟩

theorem Rooted.congr (h : Rooted s q t)
    (hs : ∀ z ∈ t.toList, (∀ e, s'.child z e = s.child z e) ∧ s'.bal z = s.bal z) :
    Rooted s' q t := by
  induction t generalizing q with
  | leaf => exact h
  | node tilt l x r ihl ihr =>
    obtain ⟨h₁, h₂, h₃, h₄⟩ := h
    obtain ⟨hc, hb⟩ := hs x (List.mem_append_right _ List.mem_cons_self)
    refine ⟨h₁, hb.trans h₂, ?_, ?_⟩
    · rw [hc]
      exact ihl h₃ fun z hz => hs z (List.mem_append_left _ hz)
    · rw [hc]
      exact ihr h₄ fun z hz => hs z (List.mem_append_right _ (List.mem_cons_of_mem _ hz))

/-! ## The surroundings of a subtree -/

/-- The nodes of the path lead from the pointer `top` down to a hole with the pointer `q`, and their
marks tell the way. -/
def Leads (s : Nodes Addr Dev) : Avl.Path Addr → Option Addr → Option Addr → Prop
  | [], q, top => top = q
  | f :: fs, q, top => s.child f.node f.dir = q ∧ s.cache f.node = side f.dir ∧
      s.bal f.node = tiltBal f.tilt ∧ Rooted s (s.child f.node f.dir.opposite) f.sibling ∧
      Leads s fs (some f.node) top

/-- The nodes of the path surround a hole with the pointer `q`. -/
def Surrounds (s : Nodes Addr Dev) (fs : Avl.Path Addr) (q : Option Addr) : Prop := Leads s fs q s.root

theorem Leads.append (hg : Leads s gs q r) (hf : Leads s fs r top) : Leads s (gs ++ fs) q top := by
  induction gs generalizing q with
  | nil =>
    rw [show r = q from hg] at hf
    exact hf
  | cons g gs ih =>
    obtain ⟨h₁, h₂, h₃, h₄, h₅⟩ := hg
    exact ⟨h₁, h₂, h₃, h₄, ih h₅⟩

theorem Leads.rooted_fill (h : Leads s fs q top) (ht : Rooted s q t) :
    Rooted s top (Avl.Path.fill fs t) := by
  induction fs generalizing q t with
  | nil =>
    rw [show top = q from h]
    exact ht
  | cons f fs ih =>
    obtain ⟨h₁, -, h₃, h₄, h₅⟩ := h
    exact ih h₅ (rooted_branch.mpr ⟨rfl, h₃, h₁.symm ▸ ht, h₄⟩)

theorem Leads.congr (h : Leads s fs q top) (hs : ∀ z ∈ Avl.Path.nodes fs, SameNode s s' z) :
    Leads s' fs q top := by
  induction fs generalizing q with
  | nil => exact h
  | cons f fs ih =>
    obtain ⟨h₁, h₂, h₃, h₄, h₅⟩ := h
    simp only [Avl.Path.nodes, List.mem_cons, List.mem_append] at hs
    have hf := hs f.node (.inl rfl)
    refine ⟨(hf.child _).trans h₁, hf.cache.trans h₂, hf.bal.trans h₃, ?_,
      ih h₅ fun z hz => hs z (.inr (.inr hz))⟩
    rw [hf.child]
    exact h₄.congr fun z hz => ⟨(hs z (.inr (.inl hz))).child, (hs z (.inr (.inl hz))).bal⟩

theorem Surrounds.congr (h : Surrounds s fs q) (hroot : s'.root = s.root)
    (hs : ∀ z ∈ Avl.Path.nodes fs, SameNode s s' z) : Surrounds s' fs q := by
  rw [Surrounds, hroot]
  exact Leads.congr h hs

/-- The entries of the stack for a path. -/
abbrev stackOf (fs : Avl.Path Addr) : List Addr := fs.map Step.node

theorem mem_nodes_of_stack (h : x ∈ stackOf fs) : x ∈ Avl.Path.nodes fs := by
  induction fs with
  | nil => cases h
  | cons f fs ih =>
    simp only [stackOf, List.map_cons, List.mem_cons] at h
    simp only [Avl.Path.nodes, List.mem_cons, List.mem_append]
    rcases h with rfl | h
    · exact .inl rfl
    · exact .inr (.inr (ih h))

end

theorem sameNode_link (hz : z ∉ stack) : SameNode s (link s stack q) z := by
  cases stack with
  | nil => exact ⟨fun _ => rfl, rfl, rfl⟩
  | cons p stack =>
    refine ⟨fun e => ?_, rfl, rfl⟩
    have hne : z ≠ p := fun he => hz (he ▸ List.mem_cons_self)
    simp [link, hne]

@[simp]
theorem bal_link : (link s stack q).bal = s.bal := by
  cases stack <;> rfl

@[simp]
theorem cache_link : (link s stack q).cache = s.cache := by
  cases stack <;> rfl

@[simp]
theorem dd_link : (link s stack q).dd = s.dd := by
  cases stack <;> rfl

@[simp]
theorem block_link : (link s stack q).block = s.block := by
  cases stack <;> rfl

/-- The pointer of the node above the hole is replaced. -/
theorem Leads.setChild {f : Step Addr} (h : Leads s (f :: fs) p top)
    (hnd : (Avl.Path.nodes (f :: fs)).Nodup) :
    Leads (s.setChild f.node f.dir q) (f :: fs) q top := by
  obtain ⟨h₁, h₂, h₃, h₄, h₅⟩ := h
  simp only [Avl.Path.nodes, List.nodup_cons, List.nodup_append, List.mem_append, not_or] at hnd
  obtain ⟨⟨hfs, hfp⟩, -⟩ := hnd
  have hsame : ∀ z, z ≠ f.node → SameNode s (s.setChild f.node f.dir q) z :=
    fun z hz => ⟨fun e => by simp [hz], rfl, rfl⟩
  refine ⟨by simp, h₂, h₃, ?_, h₅.congr fun z hz => hsame z fun he => hfp (he ▸ hz)⟩
  rw [Nodes.child_setChild, if_neg fun he => f.dir.opposite_ne he.2]
  refine h₄.congr fun z hz => ?_
  have hz' := hsame z fun he => hfs (he ▸ hz)
  exact ⟨hz'.child, hz'.bal⟩

/-- The pointer in the hole is replaced. -/
theorem Surrounds.link (h : Surrounds s fs p) (hnd : (Avl.Path.nodes fs).Nodup) :
    Surrounds (link s (stackOf fs) q) fs q := by
  cases fs with
  | nil => rfl
  | cons f fs =>
    have hd := heading_of_cache h.2.1
    have hset := Leads.setChild (q := q) h hnd
    simp only [Surrounds, Bdbuf.link, stackOf, List.map_cons, hd]
    exact hset

end Rtems.Bdbuf
