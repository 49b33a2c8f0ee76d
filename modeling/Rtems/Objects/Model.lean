import Mathlib

/-!
# Object tables

The model of `objectextendinformation.c`, `objectshrinkinformation.c`,
`objectallocate.c`, `objectfree.c`, `objectclose.c` and `objectget.c` for a
class with auto-extend.  An object is known by the block of memory it lies in
and its place in the block.  The workspace answers the two requests of an
extension, with a block for the objects and with the memory of the new tables,
whose contents are arbitrary.

The tables are functions of their index, and only the entries in range carry
meaning.  `status` is a ghost: what became of an object last.
-/

namespace Rtems.Objects

/-! ## Objects and identifiers -/

/-- An object control block: the memory block it is in, and its place there. -/
structure Obj where
  block : Nat
  slot : Nat
deriving DecidableEq, Repr

/-- `OBJECTS_ID_FINAL_INDEX`. -/
def idFinalIndex : Nat := 0xffff

/-- `_Objects_Build_id`, where `high` stands for API, class and node. -/
def buildId (high index : Nat) : Nat := high * 2 ^ 16 + index

/-- `_Objects_Get_index`. -/
def getIndex (id : Nat) : Nat := id % 2 ^ 16

/-- What became of an object last. -/
inductive Status where
  /-- It was put on the `Inactive` chain. -/
  | inactive
  /-- It was allocated, or closed again. -/
  | allocated
  /-- It was opened. -/
  | active
deriving DecidableEq, Repr

/-- `Objects_Information`. -/
structure Information where
  high : Nat
  allocationSize : Nat
  maximum : Nat
  /-- `object_blocks`, which is `NULL` before the first extension. -/
  objectBlocks : Option (Nat → Option Nat)
  inactivePerBlock : Nat → Nat
  localTable : Nat → Option Obj
  /-- The `Inactive` chain, first object first. -/
  inactiveChain : List Obj
  inactive : Nat
  /-- The `id` field of each object. -/
  ids : Obj → Nat
  status : Obj → Status

/-- `minimum_id` of a class that has objects. -/
def Information.minimumId (s : Information) : Nat := buildId s.high 1

/-- An entry of `object_blocks`. -/
def Information.block (s : Information) (b : Nat) : Option Nat := s.objectBlocks.bind (· b)

/-- The index of an object in the local table. -/
def Information.index (s : Information) (o : Obj) : Nat := getIndex (s.ids o)

/-- The block an object is counted in. -/
def Information.blockOf (s : Information) (o : Obj) : Nat :=
  (s.index o - getIndex s.minimumId) / s.allocationSize

/-! ## Extend -/

/-- The contents of freshly allocated tables. -/
structure Tables where
  objectBlocks : Nat → Option Nat
  inactivePerBlock : Nat → Nat
  localTable : Nat → Option Obj

/-- The answers of `_Workspace_Allocate`. -/
structure Workspace where
  objectBlock : Option Nat
  tables : Option Tables

/-- A `for` loop over `n` blocks that breaks at the first one with `p`. -/
def search (p : Nat → Bool) : (n block : Nat) → Option Nat
  | 0, _ => none
  | n + 1, block => if p block then some block else search p n (block + 1)

/-- `block_count` of an extension. -/
def Information.blockCount (s : Information) : Nat :=
  match s.objectBlocks with
  | none => 0
  | some _ => s.maximum / s.allocationSize

/-- The new tables, with the old ones copied if there are any to copy. -/
def growTables (s : Information) (t : Tables) (indexBase maximum : Nat) : Information :=
  let blockCount := s.blockCount
  let minimumIndex := getIndex s.minimumId
  let copy := s.maximum > minimumIndex
  { s with
    objectBlocks := some fun b =>
      if b = blockCount then none
      else if copy ∧ b < blockCount then s.block b
      else t.objectBlocks b
    inactivePerBlock := fun b =>
      if b = blockCount then 0
      else if copy ∧ b < blockCount then s.inactivePerBlock b
      else t.inactivePerBlock b
    localTable := fun i =>
      if indexBase ≤ i ∧ i < indexBase + s.allocationSize then none
      else if copy ∧ i < s.maximum + minimumIndex then s.localTable i
      else if ¬ copy ∧ i < minimumIndex then none
      else t.localTable i
    maximum := maximum % 2 ^ 16 }

/-- Assign the new object block and append its objects to the inactive chain. -/
def assignBlock (s : Information) (block indexBase newBlock : Nat) : Information :=
  { s with
    objectBlocks := s.objectBlocks.map fun f => Function.update f block (some newBlock)
    ids := fun o =>
      if o.block = newBlock ∧ o.slot < s.allocationSize then buildId s.high (indexBase + o.slot)
      else s.ids o
    status := fun o => if o.block = newBlock then .inactive else s.status o
    inactiveChain := s.inactiveChain ++ (List.range s.allocationSize).map fun i => ⟨newBlock, i⟩
    inactivePerBlock := Function.update s.inactivePerBlock block s.allocationSize
    inactive := (s.inactive + s.allocationSize) % 2 ^ 16 }

/-- `_Objects_Extend_information`. -/
def extendInformation (s : Information) (w : Workspace) : Information :=
  let hole := search (fun b => s.block b = none) s.blockCount 0
  let block := hole.getD s.blockCount
  let indexBase := getIndex s.minimumId + block * s.allocationSize
  let maximum := s.maximum + s.allocationSize
  if maximum > idFinalIndex then s
  else
    match w.objectBlock, hole, w.tables with
    | none, _, _ => s
    | some newBlock, some _, _ => assignBlock s block indexBase newBlock
    | some _, none, none => s
    | some newBlock, none, some t =>
      assignBlock (growTables s t indexBase maximum) block indexBase newBlock

/-- A class without objects. -/
def emptyInformation (high allocationSize : Nat) : Information where
  high := high
  allocationSize := allocationSize
  maximum := 0
  objectBlocks := none
  inactivePerBlock := fun _ => 0
  localTable := fun _ => none
  inactiveChain := []
  inactive := 0
  ids := fun _ => 0
  status := fun _ => .inactive

/-- `_Objects_Initialize_information` of an unlimited class. -/
def initializeInformation (high allocationSize : Nat) (w : Workspace) : Information :=
  extendInformation (emptyInformation high allocationSize) w

/-! ## Allocate, open, close and free -/

/-- Take an object that is the first of the chain. -/
def takeInactive (s : Information) (o : Obj) (rest : List Obj) : Information :=
  { s with
    inactiveChain := rest
    inactivePerBlock := Function.update s.inactivePerBlock (s.blockOf o)
      (s.inactivePerBlock (s.blockOf o) - 1)
    inactive := s.inactive - 1
    status := Function.update s.status o .allocated }

/-- `_Objects_Allocate_unprotected`. -/
def allocate (s : Information) (w : Workspace) : Information × Option Obj :=
  match s.inactiveChain with
  | o :: rest => (takeInactive s o rest, some o)
  | [] =>
    let s := extendInformation s w
    match s.inactiveChain with
    | [] => (s, none)
    | o :: rest => (takeInactive s o rest, some o)

/-- `_Objects_Open`. -/
def openObject (s : Information) (o : Obj) : Information :=
  { s with
    localTable := Function.update s.localTable (s.index o) (some o)
    status := Function.update s.status o .active }

/-- `_Objects_Close`. -/
def closeObject (s : Information) (o : Obj) : Information :=
  { s with
    localTable := Function.update s.localTable (s.index o) none
    status := Function.update s.status o .allocated }

/-- `_Objects_Shrink_information`. -/
def shrinkInformation (s : Information) : Information :=
  let minimumIndex := getIndex s.minimumId
  let blockCount := (s.maximum - minimumIndex) / s.allocationSize
  match search (fun b => s.inactivePerBlock b = s.allocationSize) blockCount 0 with
  | none => s
  | some block =>
    let indexBase := minimumIndex + block * s.allocationSize
    let indexEnd := indexBase + s.allocationSize
    { s with
      inactiveChain := s.inactiveChain.filter fun o =>
        !(decide (indexBase ≤ s.index o) && decide (s.index o < indexEnd))
      objectBlocks := s.objectBlocks.map fun f => Function.update f block none
      inactivePerBlock := Function.update s.inactivePerBlock block 0
      inactive := s.inactive - s.allocationSize }

/-- `_Objects_Free` up to the check of the threshold. -/
def putInactive (s : Information) (o : Obj) : Information :=
  { s with
    inactiveChain := s.inactiveChain ++ [o]
    inactivePerBlock := Function.update s.inactivePerBlock (s.blockOf o)
      (s.inactivePerBlock (s.blockOf o) + 1)
    inactive := s.inactive + 1
    status := Function.update s.status o .inactive }

/-- `_Objects_Free`. -/
def free (s : Information) (o : Obj) : Information :=
  let s := putInactive s o
  if s.inactive > s.allocationSize + s.allocationSize / 2 then shrinkInformation s else s

/-- `_Objects_Get`. -/
def get (s : Information) (id : Nat) : Option Obj :=
  let index := (id + 2 ^ 32 - s.minimumId + 1) % 2 ^ 32
  if index ≤ s.maximum then s.localTable index else none

/-! ## Runs -/

/-- The object lies in a block that is allocated. -/
def Information.Live (s : Information) (o : Obj) : Prop :=
  ∃ b < s.blockCount, s.block b = some o.block ∧ o.slot < s.allocationSize

inductive Op where
  | allocate (w : Workspace)
  | openObject (o : Obj)
  | closeObject (o : Obj)
  | free (o : Obj)

/-- The workspace hands out memory that is not in use, and callers open, close
and free the objects they have. -/
def Op.Enabled (s : Information) : Op → Prop
  | .allocate w => ∀ p, w.objectBlock = some p → ∀ b < s.blockCount, s.block b ≠ some p
  | .openObject o | .free o => s.Live o ∧ s.status o = .allocated
  | .closeObject o => s.Live o ∧ s.status o = .active

def Op.run (s : Information) : Op → Information
  | .allocate w => (Objects.allocate s w).1
  | .openObject o => Objects.openObject s o
  | .closeObject o => Objects.closeObject s o
  | .free o => Objects.free s o

/-- A run of operations, each of which meets the side condition `ok`. -/
inductive Runs (ok : Information → Op → Prop) : Information → List Op → Information → Prop where
  | nil {s : Information} : Runs ok s [] s
  | cons {s s' : Information} {op : Op} {ops : List Op} : op.Enabled s → ok s op →
      Runs ok (op.run s) ops s' → Runs ok s (op :: ops) s'

end Rtems.Objects

/-!
## The object table invariant

Everything follows from where the objects of a live block have their indices:
object `i` of block `b` has index `1 + b * allocationSize + i`.  So the index
tells the block and the place, and the tables, the chain and the counters can
be compared object by object.
-/

namespace Rtems.Objects

variable {s s' : Information} {o o' : Obj} {b i p : Nat}

/-- The invariant of the tables. -/
structure Inv (s : Information) : Prop where
  size : 0 < s.allocationSize
  maximum : s.maximum = s.blockCount * s.allocationSize
  bound : s.maximum ≤ idFinalIndex
  ids : ∀ b < s.blockCount, ∀ p, s.block b = some p → ∀ i < s.allocationSize,
    s.ids ⟨p, i⟩ = buildId s.high (1 + b * s.allocationSize + i)
  nodup : s.inactiveChain.Nodup
  mem : ∀ o, o ∈ s.inactiveChain ↔ s.Live o ∧ s.status o = .inactive
  perBlock : ∀ b < s.blockCount, s.inactivePerBlock b = (s.inactiveChain.map s.blockOf).count b
  inactive : s.inactive = s.inactiveChain.length
  table : ∀ i ≤ s.maximum, ∀ o, s.localTable i = some o ↔
    s.Live o ∧ s.status o = .active ∧ s.index o = i

/-! ## Indices -/

theorem getIndex_buildId {high index : Nat} (h : index < 2 ^ 16) :
    getIndex (buildId high index) = index := by
  rw [getIndex, buildId, Nat.add_comm, Nat.add_mul_mod_self_right, Nat.mod_eq_of_lt h]

@[simp]
theorem getIndex_minimumId (s : Information) : getIndex s.minimumId = 1 :=
  getIndex_buildId (by decide)

/-- An object of block `b` stays below the end of the block. -/
theorem offset_lt {n a b i : Nat} (hb : b < n) (hi : i < a) : b * a + i < n * a :=
  calc b * a + i < b * a + a := Nat.add_lt_add_left hi _
    _ = (b + 1) * a := (Nat.succ_mul b a).symm
    _ ≤ n * a := Nat.mul_le_mul_right a hb

theorem Inv.index_eq (h : Inv s) (hb : b < s.blockCount) (hp : s.block b = some o.block)
    (hi : o.slot < s.allocationSize) : s.index o = 1 + b * s.allocationSize + o.slot := by
  have hlt := offset_lt hb hi
  have hbound := h.bound
  have hmax := h.maximum
  rw [idFinalIndex] at hbound
  rw [Information.index, h.ids b hb o.block hp o.slot hi]
  exact getIndex_buildId (by omega)

theorem Inv.blockOf_eq (h : Inv s) (hb : b < s.blockCount) (hp : s.block b = some o.block)
    (hi : o.slot < s.allocationSize) : s.blockOf o = b := by
  rw [Information.blockOf, h.index_eq hb hp hi, getIndex_minimumId, Nat.add_assoc,
    Nat.add_sub_cancel_left, Nat.mul_comm, Nat.mul_add_div h.size, Nat.div_eq_of_lt hi,
    Nat.add_zero]

/-- The index of a live object tells its block. -/
theorem Inv.live_iff (h : Inv s) : s.Live o ↔ s.blockOf o < s.blockCount ∧
    s.block (s.blockOf o) = some o.block ∧ o.slot < s.allocationSize := by
  constructor
  · rintro ⟨b, hb, hp, hi⟩
    rw [h.blockOf_eq hb hp hi]
    exact ⟨hb, hp, hi⟩
  · rintro ⟨hb, hp, hi⟩
    exact ⟨_, hb, hp, hi⟩

theorem Inv.index_live (h : Inv s) (ho : s.Live o) :
    s.index o = 1 + s.blockOf o * s.allocationSize + o.slot :=
  have ⟨hb, hp, hi⟩ := h.live_iff.mp ho
  h.index_eq hb hp hi

theorem Inv.index_pos_le (h : Inv s) (ho : s.Live o) : 0 < s.index o ∧ s.index o ≤ s.maximum := by
  obtain ⟨hb, _, hi⟩ := h.live_iff.mp ho
  have := offset_lt hb hi
  rw [h.index_live ho, h.maximum]
  omega

/-- **No two live objects have the same index.** -/
theorem Inv.index_inj (h : Inv s) (ho : s.Live o) (ho' : s.Live o')
    (he : s.index o = s.index o') : o = o' := by
  have hblock : s.blockOf o = s.blockOf o' := by rw [Information.blockOf, he, Information.blockOf]
  have h1 := h.index_live ho
  have h2 := h.index_live ho'
  obtain ⟨_, hp, _⟩ := h.live_iff.mp ho
  obtain ⟨_, hp', _⟩ := h.live_iff.mp ho'
  rw [hblock, hp'] at hp
  have hslot : o.slot = o'.slot := by
    rw [he, h2, hblock] at h1
    omega
  cases o
  cases o'
  simp only [Option.some.injEq] at hp
  simp only at hslot
  rw [hp, hslot]

/-- The range of indices of a block. -/
theorem Inv.index_range (h : Inv s) (ho : s.Live o) :
    (1 + b * s.allocationSize ≤ s.index o ∧
      s.index o < 1 + b * s.allocationSize + s.allocationSize) ↔ s.blockOf o = b := by
  obtain ⟨_, _, hi⟩ := h.live_iff.mp ho
  rw [h.index_live ho]
  constructor
  · rintro ⟨h1, h2⟩
    rcases Nat.lt_trichotomy (s.blockOf o) b with hlt | heq | hgt
    · have := offset_lt hlt hi
      omega
    · exact heq
    · have := offset_lt hgt h.size
      have := Nat.mul_le_mul_right s.allocationSize hgt
      rw [Nat.succ_mul] at this
      omega
  · rintro rfl
    omega

theorem Inv.blockCount_eq (h : Inv s) : s.blockCount = s.maximum / s.allocationSize := by
  rw [h.maximum, Nat.mul_div_cancel _ h.size]

/-! ## The counters -/

/-- The counters of the blocks add up to the length of the chain. -/
theorem Inv.sum_perBlock (h : Inv s) :
    ∑ b ∈ Finset.range s.blockCount, s.inactivePerBlock b = s.inactiveChain.length := by
  have hsum : ∑ b ∈ Finset.range s.blockCount, s.inactivePerBlock b =
      ∑ b ∈ Finset.range s.blockCount,
        Multiset.count b (s.inactiveChain.map s.blockOf : Multiset Nat) :=
    Finset.sum_congr rfl fun b hb => by
      rw [h.perBlock b (Finset.mem_range.mp hb), Multiset.coe_count]
  rw [hsum, Multiset.sum_count_eq_card, Multiset.coe_card, List.length_map]
  intro b hb
  obtain ⟨o, ho, rfl⟩ := List.mem_map.mp (Multiset.mem_coe.mp hb)
  exact Finset.mem_range.mpr (h.live_iff.mp ((h.mem o).mp ho).1).1

/-- A full counter means that all the objects of the block are inactive. -/
theorem Inv.all_inactive (h : Inv s) (hb : b < s.blockCount)
    (hf : s.inactivePerBlock b = s.allocationSize) (ho : s.Live o) (hob : s.blockOf o = b) :
    s.status o = .inactive := by
  obtain ⟨_, hp, hi⟩ := h.live_iff.mp ho
  rw [hob] at hp
  -- The inactive objects of the block are as many as the block has.
  let inBlock := s.inactiveChain.filter fun x => s.blockOf x = b
  let all := (List.range s.allocationSize).map fun i => (⟨o.block, i⟩ : Obj)
  have hlen : inBlock.length = s.allocationSize := by
    rw [← hf, h.perBlock b hb, List.count, List.countP_map, List.countP_eq_length_filter]
    rfl
  have hsub : inBlock ⊆ all := by
    intro x hx
    obtain ⟨hx, hxb⟩ := List.mem_filter.mp hx
    obtain ⟨_, hxp, hxi⟩ := h.live_iff.mp ((h.mem x).mp hx).1
    rw [of_decide_eq_true hxb, hp] at hxp
    refine List.mem_map.mpr ⟨x.slot, List.mem_range.mpr hxi, ?_⟩
    rw [Option.some.inj hxp]
  have hperm : inBlock.Perm all := by
    refine (List.subperm_of_subset (h.nodup.filter _) hsub).perm_of_length_le ?_
    rw [hlen, List.length_map, List.length_range]
  have hmem : o ∈ inBlock :=
    hperm.mem_iff.mpr (List.mem_map.mpr ⟨o.slot, List.mem_range.mpr hi, rfl⟩)
  exact ((h.mem o).mp (List.mem_filter.mp hmem).1).2

end Rtems.Objects
