import Rtems.Lib.Avl

/-!
# The tree of cached blocks

The model of `rtems_bdbuf_avl_search`, `rtems_bdbuf_avl_insert` and `rtems_bdbuf_avl_remove` in
`bdbuf.c`, on a memory of buffer descriptors.  `NULL` is `none`; a function that reads through a `NULL`
pointer, or that puts more on its stack than there is room for, has no result.  Loops that go down take
the number of turns they may make.

The two halves of the switches for the left and the right branch mirror each other and are written once
for both directions.
-/

namespace Rtems.Bdbuf

open Lib (Direction)

variable {Addr Dev : Type} [DecidableEq Addr]

/-- `RTEMS_BDBUF_AVL_MAX_HEIGHT`. -/
def avlMaxHeight : ℕ := 32

/-- The fields of `rtems_bdbuf_buffer` the tree uses, at every address, and the root. -/
@[ext]
structure Nodes (Addr Dev : Type) where
  dd : Addr → Dev
  block : Addr → ℕ
  /-- `avl.left` and `avl.right`. -/
  child : Addr → Direction → Option Addr
  cache : Addr → ℤ
  bal : Addr → ℤ
  root : Option Addr

namespace Nodes

def setChild (s : Nodes Addr Dev) (x : Addr) (d : Direction) (q : Option Addr) : Nodes Addr Dev :=
  { s with child := fun z e => if z = x ∧ e = d then q else s.child z e }

def setCache (s : Nodes Addr Dev) (x : Addr) (c : ℤ) : Nodes Addr Dev :=
  { s with cache := fun z => if z = x then c else s.cache z }

def setBal (s : Nodes Addr Dev) (x : Addr) (b : ℤ) : Nodes Addr Dev :=
  { s with bal := fun z => if z = x then b else s.bal z }

def setRoot (s : Nodes Addr Dev) (q : Option Addr) : Nodes Addr Dev := { s with root := q }

section

variable (s : Nodes Addr Dev) (x z : Addr) (d e : Direction) (q : Option Addr) (c : ℤ)

@[simp]
theorem child_setChild :
    (s.setChild x d q).child z e = if z = x ∧ e = d then q else s.child z e := rfl

@[simp]
theorem cache_setChild : (s.setChild x d q).cache = s.cache := rfl

@[simp]
theorem bal_setChild : (s.setChild x d q).bal = s.bal := rfl

@[simp]
theorem root_setChild : (s.setChild x d q).root = s.root := rfl

@[simp]
theorem dd_setChild : (s.setChild x d q).dd = s.dd := rfl

@[simp]
theorem block_setChild : (s.setChild x d q).block = s.block := rfl

@[simp]
theorem child_setCache : (s.setCache x c).child = s.child := rfl

@[simp]
theorem cache_setCache : (s.setCache x c).cache z = if z = x then c else s.cache z := rfl

@[simp]
theorem bal_setCache : (s.setCache x c).bal = s.bal := rfl

@[simp]
theorem root_setCache : (s.setCache x c).root = s.root := rfl

@[simp]
theorem dd_setCache : (s.setCache x c).dd = s.dd := rfl

@[simp]
theorem block_setCache : (s.setCache x c).block = s.block := rfl

@[simp]
theorem child_setBal : (s.setBal x c).child = s.child := rfl

@[simp]
theorem cache_setBal : (s.setBal x c).cache = s.cache := rfl

@[simp]
theorem bal_setBal : (s.setBal x c).bal z = if z = x then c else s.bal z := rfl

@[simp]
theorem root_setBal : (s.setBal x c).root = s.root := rfl

@[simp]
theorem dd_setBal : (s.setBal x c).dd = s.dd := rfl

@[simp]
theorem block_setBal : (s.setBal x c).block = s.block := rfl

end

end Nodes

/-- The mark of a branch in `avl.cache`, and the balance of a node with that subtree higher. -/
def side : Direction → ℤ
  | .left => -1
  | .right => 1

/-- The branch an `avl.cache` stands for. -/
def heading (s : Nodes Addr Dev) (p : Addr) : Direction :=
  if s.cache p = -1 then .left else .right

section

variable [LinearOrder Dev]

/-- The key of a node is smaller than the one searched for. -/
def Below (s : Nodes Addr Dev) (p : Addr) (dd : Dev) (block : ℕ) : Prop :=
  s.dd p < dd ∨ s.dd p = dd ∧ s.block p < block

/-- The key of a node is another one than that searched for. -/
def Differs (s : Nodes Addr Dev) (p : Addr) (dd : Dev) (block : ℕ) : Prop :=
  s.dd p ≠ dd ∨ s.block p ≠ block

instance (s : Nodes Addr Dev) (p : Addr) (dd : Dev) (block : ℕ) : Decidable (Below s p dd block) :=
  inferInstanceAs (Decidable (_ ∨ _))

instance (s : Nodes Addr Dev) (p : Addr) (dd : Dev) (block : ℕ) : Decidable (Differs s p dd block) :=
  inferInstanceAs (Decidable (_ ∨ _))

/-! ## Search -/

def searchLoop (s : Nodes Addr Dev) (dd : Dev) (block : ℕ) : ℕ → Option Addr → Option (Option Addr)
  | _, none => some none
  | 0, some _ => none
  | n + 1, some p =>
    if Differs s p dd block then
      if Below s p dd block then searchLoop s dd block n (s.child p .right)
      else searchLoop s dd block n (s.child p .left)
    else some (some p)

/-- `rtems_bdbuf_avl_search`. -/
def avlSearch (fuel : ℕ) (s : Nodes Addr Dev) (dd : Dev) (block : ℕ) : Option (Option Addr) :=
  searchLoop s dd block fuel s.root

end

/-! ## The way back -/

/-- Put an entry on the stack, whose first entry stands at the end. -/
def push (p : Addr) (stack : List Addr) : Option (List Addr) :=
  if stack.length < avlMaxHeight then some (p :: stack) else none

/-- Let the node on the stack, or the root, point to `q`. -/
def link (s : Nodes Addr Dev) (stack : List Addr) (q : Option Addr) : Nodes Addr Dev :=
  match stack with
  | [] => s.setRoot q
  | p :: _ => s.setChild p (heading s p) q

/-- The pointers of the simple turn that puts `p1` in the place of `p`. -/
def simpleTurn (s : Nodes Addr Dev) (d : Direction) (p p1 : Addr) : Nodes Addr Dev :=
  let s := s.setChild p d (s.child p1 d.opposite)
  s.setChild p1 d.opposite (some p)

/-- The pointers of the double turn that puts `p2` in the place of `p`, and the balances of `p` and
`p1`. -/
def doubleTurn (s : Nodes Addr Dev) (d : Direction) (p p1 p2 : Addr) : Nodes Addr Dev :=
  let s := s.setChild p1 d.opposite (s.child p2 d)
  let s := s.setChild p2 d (some p1)
  let s := s.setChild p d (s.child p2 d.opposite)
  let s := s.setChild p2 d.opposite (some p)
  let s := s.setBal p (if s.bal p2 = side d then -side d else 0)
  s.setBal p1 (if s.bal p2 = -side d then side d else 0)

/-- The switch of the loop in `rtems_bdbuf_avl_insert`: the node in the place of `p` and `modified`. -/
def insertTurn (s : Nodes Addr Dev) (p : Addr) : Option (Nodes Addr Dev × Addr × Bool) :=
  let d := heading s p
  if s.bal p = -side d then some (s.setBal p 0, p, false)
  else if s.bal p = 0 then some (s.setBal p (side d), p, true)
  else if s.bal p = side d then do
    let p1 ← s.child p d
    if s.bal p1 = side d then
      some (((simpleTurn s d p p1).setBal p 0).setBal p1 0, p1, false)
    else
      let p2 ← s.child p1 d.opposite
      some ((doubleTurn s d p p1 p2).setBal p2 0, p2, false)
  else some (s, p, true)

/-- The switch of the loop in `rtems_bdbuf_avl_remove`. -/
def removeTurn (s : Nodes Addr Dev) (p : Addr) : Option (Nodes Addr Dev × Addr × Bool) :=
  let d := heading s p
  let e := d.opposite
  if s.bal p = side d then some (s.setBal p 0, p, true)
  else if s.bal p = 0 then some (s.setBal p (side e), p, false)
  else if s.bal p = side e then do
    let p1 ← s.child p e
    if 0 ≤ side e * s.bal p1 then
      let s' := simpleTurn s e p p1
      if s.bal p1 = 0 then some (s'.setBal p1 (side d), p1, false)
      else some ((s'.setBal p 0).setBal p1 0, p1, true)
    else
      let p2 ← s.child p1 d
      some ((doubleTurn s e p p1 p2).setBal p2 0, p2, true)
  else some (s, p, true)

/-- The loop of both functions back along the stack. -/
def rebalance (turn : Nodes Addr Dev → Addr → Option (Nodes Addr Dev × Addr × Bool)) :
    Nodes Addr Dev → List Addr → Option (Nodes Addr Dev)
  | s, [] => some s
  | s, p :: stack => do
    let (s, p, modified) ← turn s p
    let s := link s stack (some p)
    if modified then rebalance turn s stack else some s

/-! ## Insertion -/

/-- A node without children. -/
def clear (s : Nodes Addr Dev) (node : Addr) : Nodes Addr Dev :=
  let s := s.setChild node .left none
  let s := s.setChild node .right none
  s.setBal node 0

variable [LinearOrder Dev]

/-- The first loop of `rtems_bdbuf_avl_insert`: the stack above the place of the node, or nothing if
there is one with its key. -/
def insertDescend (node : Addr) : ℕ → Nodes Addr Dev → Addr → List Addr →
    Option (Nodes Addr Dev × Option (List Addr))
  | 0, _, _, _ => none
  | n + 1, s, p, stack => do
    let stack ← push p stack
    if Below s p (s.dd node) (s.block node) then
      let s := s.setCache p 1
      match s.child p .right with
      | none => some (s.setChild p .right (some node), some stack)
      | some q => insertDescend node n s q stack
    else if Differs s p (s.dd node) (s.block node) then
      let s := s.setCache p (-1)
      match s.child p .left with
      | none => some (s.setChild p .left (some node), some stack)
      | some q => insertDescend node n s q stack
    else some (s, none)

/-- `rtems_bdbuf_avl_insert`. -/
def avlInsert (fuel : ℕ) (s : Nodes Addr Dev) (node : Addr) : Option (Nodes Addr Dev × ℤ) :=
  match s.root with
  | none => some (clear (s.setRoot (some node)) node, 0)
  | some p => do
    match ← insertDescend node fuel s p [] with
    | (s, none) => some (s, -1)
    | (s, some stack) =>
      let s ← rebalance insertTurn (clear s node) stack
      some (s, 0)

/-! ## Removal -/

/-- The first loop of `rtems_bdbuf_avl_remove`: the node to remove and the stack above it. -/
def removeDescend (dd : Dev) (block : ℕ) : ℕ → Nodes Addr Dev → Option Addr → List Addr →
    Option (Nodes Addr Dev × Option (Addr × List Addr))
  | _, s, none, _ => some (s, none)
  | 0, _, some _, _ => none
  | n + 1, s, some p, stack => do
    let stack' ← push p stack
    if Below s p dd block then
      let s := s.setCache p 1
      removeDescend dd block n s (s.child p .right) stack'
    else if Differs s p dd block then
      let s := s.setCache p (-1)
      removeDescend dd block n s (s.child p .left) stack'
    else some (s, some (p, stack))

/-- The loop to the leftmost node: it, the node above it and what the loop has put on the stack, over
`base` entries. -/
def removeSpine (base : ℕ) : ℕ → Nodes Addr Dev → Addr → Addr → List Addr →
    Option (Nodes Addr Dev × Addr × Addr × List Addr)
  | 0, _, _, _, _ => none
  | n + 1, m, r, s, above =>
    match m.child s .left with
    | none => some (m, r, s, above)
    | some s' =>
      if above.length + base < avlMaxHeight then
        removeSpine base n (m.setCache s (-1)) s s' (s :: above)
      else none

/-- Take `q` out: the node in its place and the new stack. -/
def removeSplice (fuel : ℕ) (m : Nodes Addr Dev) (q : Addr) (stack : List Addr) :
    Option (Nodes Addr Dev × Option Addr × List Addr) :=
  match m.child q .right with
  | none =>
    match m.child q .left with
    | none => some (m, none, stack)
    | some r => some (m.setBal r 0, some r, stack)
  | some r =>
    match m.child r .left with
    | none => do
      let m := m.setChild r .left (m.child q .left)
      let m := m.setBal r (m.bal q)
      let m := m.setCache r 1
      let stack ← push r stack
      some (m, some r, stack)
    | some _ => do
      -- the entry for the node that comes into the place of `q`
      let _ ← push q stack
      let (m, r, s, above) ← removeSpine (stack.length + 1) fuel m r r []
      let m := m.setChild s .left (m.child q .left)
      let m := m.setChild r .left (m.child s .right)
      let m := m.setChild s .right (m.child q .right)
      let m := m.setBal s (m.bal q)
      let m := m.setCache s 1
      some (m, some s, above ++ s :: stack)

/-- `rtems_bdbuf_avl_remove`. -/
def avlRemove (fuel : ℕ) (s : Nodes Addr Dev) (node : Addr) : Option (Nodes Addr Dev × ℤ) := do
  match ← removeDescend (s.dd node) (s.block node) fuel s s.root [] with
  | (s, none) => some (s, -1)
  | (s, some (q, stack)) =>
    let (s, q, stack') ← removeSplice fuel s q stack
    let s ← rebalance removeTurn (link s stack q) stack'
    some (s, 0)

end Rtems.Bdbuf
