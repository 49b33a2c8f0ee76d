import Rtems.Lib.RedBlack

/-!
# The red-black tree

The model of `rbtreeinsert.c`, `rbtreeextract.c`, `rbtreenext.c` and the inline
functions of `rbtree.h` and `rbtreeimpl.h`, on a memory of nodes.  `NULL` is
`none`, and a function that reads through a `NULL` pointer has no result.
Loops take the number of turns they may make.

The control is overlaid with a node: `permanent_null` is its parent, `root` its
left child and `first[0]` its right child.  `first[1]` lies on its color, which
no function reads or writes; the model keeps them apart.
-/

namespace Rtems.RBTree

open Lib (Color Direction)

variable {Addr : Type} [DecidableEq Addr]

/-! ## Nodes in memory -/

/-- The fields of `RBTree_Node` at every address. -/
@[ext]
structure State (Addr : Type) where
  parent : Addr → Option Addr
  child : Addr → Direction → Option Addr
  color : Addr → Color
  /-- The field `first[ RBT_RIGHT ]` of the control. -/
  firstRight : Option Addr

def State.setParent (s : State Addr) (x : Addr) (p : Option Addr) : State Addr :=
  { s with parent := fun z => if z = x then p else s.parent z }

def State.setChild (s : State Addr) (x : Addr) (d : Direction) (q : Option Addr) : State Addr :=
  { s with child := fun z e => if z = x ∧ e = d then q else s.child z e }

def State.setColor (s : State Addr) (x : Addr) (c : Color) : State Addr :=
  { s with color := fun z => if z = x then c else s.color z }

section

variable {s : State Addr} {x z : Addr} {d e : Direction} {c : Color} {p : Option Addr}

@[simp]
theorem parent_setParent : (s.setParent x p).parent z = if z = x then p else s.parent z := rfl

@[simp]
theorem child_setParent : (s.setParent x p).child = s.child := rfl

@[simp]
theorem color_setParent : (s.setParent x p).color = s.color := rfl

@[simp]
theorem firstRight_setParent : (s.setParent x p).firstRight = s.firstRight := rfl

@[simp]
theorem parent_setChild : (s.setChild x d p).parent = s.parent := rfl

@[simp]
theorem child_setChild :
    (s.setChild x d p).child z e = if z = x ∧ e = d then p else s.child z e := rfl

@[simp]
theorem color_setChild : (s.setChild x d p).color = s.color := rfl

@[simp]
theorem firstRight_setChild : (s.setChild x d p).firstRight = s.firstRight := rfl

@[simp]
theorem parent_setColor : (s.setColor x c).parent = s.parent := rfl

@[simp]
theorem child_setColor : (s.setColor x c).child = s.child := rfl

@[simp]
theorem color_setColor : (s.setColor x c).color z = if z = x then c else s.color z := rfl

@[simp]
theorem firstRight_setColor : (s.setColor x c).firstRight = s.firstRight := rfl

end

/-- `RBTree_Compare`: negative, zero or positive. -/
abbrev Compare (Addr : Type) := Addr → Addr → Int

/-- `_RBTree_Root`. -/
def root (s : State Addr) (theRbtree : Addr) : Option Addr := s.child theRbtree .left

/-- `_RBTree_First`. -/
def first (s : State Addr) (theRbtree : Addr) : Direction → Option Addr
  | .left => s.child theRbtree .right
  | .right => s.firstRight

def setFirst (s : State Addr) (theRbtree : Addr) (dir : Direction) (q : Option Addr) :
    State Addr :=
  match dir with
  | .left => s.setChild theRbtree .right q
  | .right => { s with firstRight := q }

/-- `_RBTree_Initialize_empty`. -/
def initializeEmpty (s : State Addr) (theRbtree : Addr) : State Addr :=
  let s := s.setParent theRbtree none
  let s := s.setChild theRbtree .left none
  setFirst (setFirst s theRbtree .left none) theRbtree .right none

/-- `_RBTree_Direction`. -/
def direction (s : State Addr) (theNode parent : Addr) : Direction :=
  if s.child parent .left = some theNode then .left else .right

/-- `_RBTree_Is_red`. -/
def isRed (s : State Addr) : Option Addr → Bool
  | none => false
  | some theNode => s.color theNode == .red

/-- `_RBTree_Sibling`. -/
def sibling (s : State Addr) (theNode parent : Addr) : Option Addr :=
  if s.child parent .left = some theNode then s.child parent .right else s.child parent .left

/-- Set the parent of a node if there is one. -/
def adopt (s : State Addr) (theNode : Option Addr) (parent : Option Addr) : State Addr :=
  match theNode with
  | none => s
  | some theNode => s.setParent theNode parent

@[simp]
theorem parent_adopt {s : State Addr} {r p : Option Addr} {z : Addr} :
    (adopt s r p).parent z = if r = some z then p else s.parent z := by
  cases r with
  | none => rfl
  | some x =>
    exact if_congr (eq_comm.trans Option.some_inj.symm) rfl rfl

@[simp]
theorem child_adopt {s : State Addr} {r p : Option Addr} : (adopt s r p).child = s.child := by
  cases r <;> rfl

@[simp]
theorem color_adopt {s : State Addr} {r p : Option Addr} : (adopt s r p).color = s.color := by
  cases r <;> rfl

@[simp]
theorem firstRight_adopt {s : State Addr} {r p : Option Addr} :
    (adopt s r p).firstRight = s.firstRight := by
  cases r <;> rfl

/-- `_RBTree_Rotate`. -/
def rotate (s : State Addr) (theNode : Addr) (dir : Direction) : Option (State Addr) :=
  match s.child theNode dir.opposite with
  | none => some s
  | some child => do
      let grandchild := s.child child dir
      let s := s.setChild theNode dir.opposite grandchild
      let s := adopt s grandchild theNode
      let s := s.setChild child dir theNode
      let parent ← s.parent theNode
      let s := s.setChild parent (direction s theNode parent) child
      let s := s.setParent child parent
      some (s.setParent theNode child)

/-! ## Insert -/

/-- The loop of `_RBTree_Validate_insert`, with the node and its grandparent at the end. -/
def validateInsertLoop : Nat → State Addr → Addr → Addr → Option Addr →
    Option (State Addr × Addr × Option Addr)
  | 0, _, _, _, _ => none
  | fuel + 1, s, theNode, parent, grandparent =>
    if s.color parent = .red then do
      let g ← grandparent
      let uncle := sibling s parent g
      if isRed s uncle then
        let s := s.setColor parent .black
        let s := s.setColor (← uncle) .black
        let s := s.setColor g .red
        let parent ← s.parent g
        let grandparent := s.parent parent
        if grandparent = none then some (s, g, grandparent)
        else validateInsertLoop fuel s g parent grandparent
      else
        let dir := direction s theNode parent
        let parentdir := direction s parent g
        let (s, theNode, parent) ←
          if dir ≠ parentdir then do some (← rotate s parent parentdir, parent, theNode)
          else some (s, theNode, parent)
        let s := s.setColor parent .black
        let s := s.setColor g .red
        let s ← rotate s g parentdir.opposite
        some (s, theNode, s.parent parent)
    else some (s, theNode, grandparent)

/-- `_RBTree_Validate_insert`. -/
def validateInsert (fuel : Nat) (s : State Addr) (theNode : Addr) : Option (State Addr) := do
  let parent ← s.parent theNode
  let (s, theNode, grandparent) ← validateInsertLoop fuel s theNode parent (s.parent parent)
  if grandparent = none then some (s.setColor theNode .black) else some s

/-- Link a new leaf to its parent, and update the minimum or the maximum. -/
def attach (s : State Addr) (theRbtree theNode : Addr) (compare : Compare Addr)
    (iterNode : Addr) (dir : Direction) : Option (State Addr) := do
  let s := (s.setChild theNode .left none).setChild theNode .right none
  let s := s.setColor theNode .red
  let s := s.setChild iterNode dir theNode
  let s := s.setParent theNode iterNode
  let result := compare theNode (← first s theRbtree dir)
  if (dir = .left ∧ result < 0) ∨ (dir = .right ∧ ¬ result < 0) then
    some (setFirst s theRbtree dir theNode)
  else some s

/-- The loop of `_RBTree_Insert`, which stops at an equal node of a unique insert. -/
def insertLoop (s : State Addr) (theRbtree theNode : Addr) (compare : Compare Addr)
    (isUnique : Bool) : Nat → Addr → Option (State Addr × Option Addr)
  | 0, _ => none
  | fuel + 1, iterNode =>
    let result := compare theNode iterNode
    if isUnique ∧ result = 0 then some (s, some iterNode)
    else
      let dir := if result < 0 then .left else .right
      match s.child iterNode dir with
      | none => do some (← attach s theRbtree theNode compare iterNode dir, none)
      | some next => insertLoop s theRbtree theNode compare isUnique fuel next

/-- `_RBTree_Insert`. -/
def insert (fuel : Nat) (s : State Addr) (theRbtree theNode : Addr) (compare : Compare Addr)
    (isUnique : Bool) : Option (State Addr × Option Addr) :=
  match root s theRbtree with
  | none =>
    let s := s.setColor theNode .black
    let s := s.setChild theRbtree .left theNode
    let s := setFirst (setFirst s theRbtree .right theNode) theRbtree .left theNode
    let s := s.setParent theNode theRbtree
    some ((s.setChild theNode .right none).setChild theNode .left none, none)
  | some iterNode => do
      match ← insertLoop s theRbtree theNode compare isUnique fuel iterNode with
      | (s, some found) => some (s, some found)
      | (s, none) => some (← validateInsert fuel s theNode, none)

/-! ## Next -/

/-- Go down in one direction to the end. -/
def descend (s : State Addr) (dir : Direction) : Nat → Addr → Option Addr
  | 0, _ => none
  | fuel + 1, current =>
    match s.child current dir with
    | none => some current
    | some next => descend s dir fuel next

/-- Go up as long as the node is a child in the direction. -/
def climb (s : State Addr) (dir : Direction) : Nat → Addr → Addr → Option (Option Addr)
  | 0, _, _ => none
  | fuel + 1, node, parent =>
    match s.parent parent with
    | none => some none
    | some grandparent =>
      if s.child parent dir = some node then climb s dir fuel parent grandparent
      else some (some parent)

/-- `_RBTree_Next`. -/
def next (fuel : Nat) (s : State Addr) (node : Addr) (dir : Direction) : Option (Option Addr) :=
  match s.child node dir with
  | some current => do some (← descend s dir.opposite fuel current)
  | none => do
      let parent ← s.parent node
      if s.parent parent ≠ none ∧ s.child parent dir.opposite = some node then some (some parent)
      else climb s dir fuel node parent

/-! ## Extract -/

/-- A red sibling is rotated above the parent, and a black one comes in its place. -/
def blackSibling (s : State Addr) (theNode parent : Addr) :
    Option (State Addr × Option Addr) := do
  let sibling := sibling s theNode parent
  if isRed s sibling then
    let dir := direction s theNode parent
    let s := s.setColor parent .red
    let s := s.setColor (← sibling) .black
    let s ← rotate s parent dir
    some (s, s.child parent dir.opposite)
  else some (s, sibling)

/-- A red child of the sibling makes up for the node removed. -/
def borrow (s : State Addr) (theNode parent sibling : Addr) : Option (State Addr) := do
  let dir := direction s theNode parent
  let (s, sibling) ←
    if ¬ isRed s (s.child sibling dir.opposite) then do
      let s := s.setColor sibling .red
      let s := s.setColor (← s.child sibling dir) .black
      let s ← rotate s sibling dir.opposite
      some (s, ← s.child parent dir.opposite)
    else some (s, sibling)
  let s := s.setColor sibling (s.color parent)
  let s := s.setColor parent .black
  let s := s.setColor (← s.child sibling dir.opposite) .black
  rotate s parent dir

/-- The loop of `_RBTree_Extract_validate`. -/
def extractValidateLoop : Nat → State Addr → Addr → Addr → Option (State Addr × Addr)
  | 0, _, _, _ => none
  | fuel + 1, s, theNode, parent =>
    if s.color theNode ≠ .red ∧ s.parent parent ≠ none then do
      let (s, sibling) ← blackSibling s theNode parent
      let sibling ← sibling
      if ¬ isRed s (s.child sibling .right) ∧ ¬ isRed s (s.child sibling .left) then
        let s := s.setColor sibling .red
        if isRed s (some parent) then some (s.setColor parent .black, theNode)
        else extractValidateLoop fuel s parent (← s.parent parent)
      else some (← borrow s theNode parent sibling, theNode)
    else some (s, theNode)

/-- `_RBTree_Extract_validate`. -/
def extractValidate (fuel : Nat) (s : State Addr) (theNode : Addr) : Option (State Addr) := do
  let parent ← s.parent theNode
  if s.parent parent = none then some s
  else
    let (s, theNode) ← extractValidateLoop fuel s theNode parent
    let parent ← s.parent theNode
    if s.parent parent = none then some (s.setColor theNode .black) else some s

/-- Detach a node with at most one child, its `leaf`, from what is below it. -/
def vacate (fuel : Nat) (s : State Addr) (theNode : Addr) (leaf : Option Addr) :
    Option (State Addr) :=
  match leaf with
  | some leaf => some (s.setParent leaf (s.parent theNode))
  | none => extractValidate fuel s theNode

/-- Put something else into the place of a node below its parent. -/
def replaceChild (s : State Addr) (theNode : Addr) (q : Option Addr) : Option (State Addr) := do
  let parent ← s.parent theNode
  some (s.setChild parent (direction s theNode parent) q)

/-- The children of a node become those of another. -/
def takeChild (s : State Addr) (target theNode : Addr) (dir : Direction) : State Addr :=
  let s := s.setChild target dir (s.child theNode dir)
  adopt s (s.child theNode dir) target

/-- Put `target` into the place of a node, with its links and its color. -/
def exchange (s : State Addr) (theNode target : Addr) : Option (State Addr) := do
  let s ← replaceChild s theNode target
  let s := takeChild s target theNode .right
  let s := takeChild s target theNode .left
  let s := s.setParent target (s.parent theNode)
  some (s.setColor target (s.color theNode))

/-- The leaf that moved up takes over the color of a black node. -/
def paintLeaf (s : State Addr) (leaf : Option Addr) (victimColor : Color) : State Addr :=
  match victimColor, leaf with
  | .black, some leaf => s.setColor leaf .black
  | _, _ => s

/-- The end of `_RBTree_Extract`. -/
def repaint (s : State Addr) (theRbtree : Addr) (leaf : Option Addr) (victimColor : Color) :
    State Addr :=
  let s := paintLeaf s leaf victimColor
  match root s theRbtree with
  | none => s
  | some r => s.setColor r .black

/-- The minimum or maximum moves on when it is extracted. -/
def advanceFirst (fuel : Nat) (s : State Addr) (theRbtree theNode : Addr) (dir : Direction) :
    Option (State Addr) :=
  if first s theRbtree dir = some theNode then do
    some (setFirst s theRbtree dir (← next fuel s theNode dir.opposite))
  else some s

/-- `_RBTree_Extract`. -/
def extract (fuel : Nat) (s : State Addr) (theRbtree theNode : Addr) : Option (State Addr) := do
  let s ← advanceFirst fuel s theRbtree theNode .left
  let s ← advanceFirst fuel s theRbtree theNode .right
  match s.child theNode .left, s.child theNode .right with
  | some left, some _ =>
    let target ← descend s .right fuel left
    let leaf := s.child target .left
    let s ← vacate fuel s target leaf
    let victimColor := s.color target
    let s ← replaceChild s target leaf
    let s ← exchange s theNode target
    some (repaint s theRbtree leaf victimColor)
  | left, right =>
    let leaf := left.or right
    let s ← vacate fuel s theNode leaf
    let victimColor := s.color theNode
    let s ← replaceChild s theNode leaf
    some (repaint s theRbtree leaf victimColor)

end Rtems.RBTree
